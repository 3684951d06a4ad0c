import Mathlib.Tactic.Lemma
import NullRing.RingBuffer.WeakMemory

set_option relaxedAutoImplicit false
set_option autoImplicit false

/-!
# Stale loads do no harm

The full test of `try_push` is an equality of masked indices, so a stale `head_` could in
principle be stepped over. It is not: entry `k` of either history is written when the counter
reaches `k`, so an entry read by a thread is a value of the true counter, and the invariant
`Inv` keeps the producer less than a lap ahead of the entry of `head_` it read last, and the
consumer no further than the entry of `tail_` it read last. A stale load can therefore only
make a call fail that would have succeeded.

## Main definitions

* `RingBuffer.Weak.Inv` — the invariant, in terms of the items pushed and the number popped.

## Main results

* `RingBuffer.Weak.pushStep_inv`, `RingBuffer.Weak.popStep_inv` — the steps of the two calls.
* `RingBuffer.Weak.Inv.read_forced` — the only write a read of a slot can return.
* `RingBuffer.Weak.stale_loads_safe` — every pop returns the item of the corresponding push,
  and the accesses to a slot are ordered.
-/

namespace NullRing.RingBuffer.Weak

open Laps Transition

variable {T : Type} {C : Capacity} {P : List T} {H : ℕ} {s s' : State T}

/-! ## The invariant -/

/-- Entry `k` of the history of `head_`: `k` pops have been made. -/
def headEntry (C : Capacity) (k : ℕ) : HeadEntry := ⟨k % C.val, visits C.val k⟩

/-- Entry `k` of the history of `tail_`: `k` pushes have been made. -/
def tailEntry (C : Capacity) (k : ℕ) : TailEntry := ⟨k % C.val, visits C.val k⟩

/-- The number of slots written after `n` pushes: a push that has yet to store `tail_` has
written its slot. -/
def writesDone (n : ℕ) : Option (PushPc T) → ℕ
  | some (.storeTail _ _) => n + 1
  | _ => n

/-- The number of slots read after `n` pops: a pop that has yet to store `head_` has read its
slot. -/
def readsDone (n : ℕ) : Option (PopPc T) → ℕ
  | some (.storeHead _ _) => n + 1
  | _ => n

/-- What `try_push` relies on, after the pushes `P`. -/
def PushOk (C : Capacity) (P : List T) (s : State T) : PushPc T → Prop
  | .loadTail _ => True
  | .loadHead _ currentTail => currentTail = P.length % C.val
  | .writeSlot _ currentTail nextTail =>
    currentTail = P.length % C.val ∧ nextTail = (P.length + 1) % C.val ∧
      P.length + 1 < s.headSeen + C.val
  | .storeTail item nextTail =>
    nextTail = (P.length + 1) % C.val ∧ P.length + 1 < s.headSeen + C.val ∧
      (s.slotHist (P.length % C.val))[visits C.val (P.length + 1) (P.length % C.val)]? = some item

/-- What `try_pop` relies on, after the pushes `P` and `H` pops. -/
def PopOk (C : Capacity) (P : List T) (H : ℕ) (s : State T) : PopPc T → Prop
  | .loadHead => True
  | .loadTail currentHead => currentHead = H % C.val
  | .readSlot currentHead => currentHead = H % C.val ∧ H < s.tailSeen
  | .storeHead currentHead item =>
    currentHead = H % C.val ∧ H < s.tailSeen ∧ P[H]? = some item

/-- The invariant after the pushes `P` and `H` pops. -/
structure Inv (C : Capacity) (P : List T) (H : ℕ) (s : State T) : Prop where
  headHist : s.headHist = (List.range (H + 1)).map (headEntry C)
  tailHist : s.tailHist = (List.range (P.length + 1)).map (tailEntry C)
  le_tailSeen : H ≤ s.tailSeen
  tailSeen_le : s.tailSeen ≤ P.length
  headSeen_le : s.headSeen ≤ H
  room : P.length < s.headSeen + C.val
  readsSeen : s.readsSeen = visits C.val s.headSeen
  writesSeen : s.writesSeen = visits C.val s.tailSeen
  slot_length : ∀ i, (s.slotHist i).length =
    visits C.val (writesDone P.length s.producer) i + 1
  slot_get : ∀ k x, P[k]? = some x →
    (s.slotHist (k % C.val))[visits C.val (k + 1) (k % C.val)]? = some x
  readCount : s.readCount = visits C.val (readsDone H s.consumer)
  producer : ∀ pc, s.producer = some pc → PushOk C P s pc
  consumer : ∀ pc, s.consumer = some pc → PopOk C P H s pc

/-- The constructor establishes the invariant.

**Proof sketch.** The constructor's stores are the first entries of the histories of `head_` and
`tail_`, and no slot has been visited. -/
lemma inv_init [Inhabited T] (C : Capacity) : Inv C [] 0 (State.init T) where
  headHist := by
    have : visits C.val 0 = fun _ => 0 := funext fun i => visits_zero C.val i
    simp [State.init, headEntry, this]
  tailHist := by
    have : visits C.val 0 = fun _ => 0 := funext fun i => visits_zero C.val i
    simp [State.init, tailEntry, this]
  le_tailSeen := le_rfl
  tailSeen_le := le_rfl
  headSeen_le := le_rfl
  room := by
    have := C.one_lt
    simp [State.init]
    omega
  readsSeen := (funext fun i => visits_zero C.val i).symm
  writesSeen := (funext fun i => visits_zero C.val i).symm
  slot_length := by
    intro i
    simp [State.init, writesDone]
  slot_get := by
    intro k x hk
    simp at hk
  readCount := (funext fun i => visits_zero C.val i).symm
  producer := nofun
  consumer := nofun

namespace Inv

/-- The producer reads its own latest store of `tail_`. -/
lemma ownTail (h : Inv C P H s) : s.ownTail = P.length % C.val := by
  rw [State.ownTail, h.tailHist, List.range_succ, List.map_append]
  simp [tailEntry]

/-- The consumer reads its own latest store of `head_`. -/
lemma ownHead (h : Inv C P H s) : s.ownHead = H % C.val := by
  rw [State.ownHead, h.headHist, List.range_succ, List.map_append]
  simp [headEntry]

/-- An entry of `head_` is a value the counter of pops has had. -/
lemma headHist_get {k : ℕ} {e : HeadEntry} (h : Inv C P H s) (he : s.headHist[k]? = some e) :
    k ≤ H ∧ e = headEntry C k := by
  rw [h.headHist, List.getElem?_map, Option.map_eq_some_iff] at he
  obtain ⟨j, hj, rfl⟩ := he
  obtain ⟨hlt, rfl⟩ := List.getElem?_eq_some_iff.mp hj
  rw [List.length_range] at hlt
  rw [List.getElem_range]
  exact ⟨by omega, rfl⟩

/-- An entry of `tail_` is a value the counter of pushes has had. -/
lemma tailHist_get {k : ℕ} {e : TailEntry} (h : Inv C P H s) (he : s.tailHist[k]? = some e) :
    k ≤ P.length ∧ e = tailEntry C k := by
  rw [h.tailHist, List.getElem?_map, Option.map_eq_some_iff] at he
  obtain ⟨j, hj, rfl⟩ := he
  obtain ⟨hlt, rfl⟩ := List.getElem?_eq_some_iff.mp hj
  rw [List.length_range] at hlt
  rw [List.getElem_range]
  exact ⟨by omega, rfl⟩

end Inv

/-- What a later entry makes visible includes what an earlier one did. -/
lemma max_visits {c m n : ℕ} (h : m ≤ n) :
    (fun i => max (visits c m i) (visits c n i)) = visits c n :=
  funext fun i => max_eq_right (visits_mono h i)

/-! ## The producer -/

namespace Inv

/-- A step of the producer that touches neither history nor slots, and after which it has not
just written a slot. -/
lemma setProducer (h : Inv C P H s) {next : Option (PushPc T)}
    (hbefore : writesDone P.length s.producer = P.length)
    (hafter : writesDone P.length next = P.length)
    (hok : ∀ pc, next = some pc → PushOk C P s pc) : Inv C P H { s with producer := next } :=
  { h with
    slot_length := by
      intro i
      rw [hafter, ← hbefore]
      exact h.slot_length i
    producer := hok }

/-- Reading an entry of `head_` that is not older than the last one.

**Proof sketch.** An entry `k` of `head_` carries the reads of the first `k` items popped, and these
are more than those of an older entry. The room known to the producer only grows with it. -/
lemma seeHead (h : Inv C P H s) {k : ℕ} (hk : s.headSeen ≤ k) (hkH : k ≤ H) :
    Inv C P H { s with headSeen := k,
                       readsSeen := fun i => max (s.readsSeen i) ((headEntry C k).reads i) } :=
  { h with
    headSeen_le := hkH
    room := by
      have := h.room
      show P.length < k + C.val
      omega
    readsSeen := by
      show (fun i => max (s.readsSeen i) (visits C.val k i)) = visits C.val k
      rw [h.readsSeen]
      exact max_visits hk
    producer := by
      intro pc hpc
      have := h.producer pc hpc
      cases pc with
      | loadTail item => trivial
      | loadHead item currentTail => exact this
      | writeSlot item currentTail nextTail =>
        obtain ⟨h1, h2, h3⟩ := this
        exact ⟨h1, h2, by show P.length + 1 < k + C.val; omega⟩
      | storeTail item nextTail =>
        obtain ⟨h1, h2, h3⟩ := this
        exact ⟨h1, by show P.length + 1 < k + C.val; omega, h3⟩ }

/-- The slot the producer writes holds none of the items pushed and not yet popped, and the
write is the next one of that slot.

**Proof sketch.** The write is the visit number `P.length` of its slot. The entries the slot has had
stay where they are, and the new one is the item, which is what the producer relies on at its next
step. -/
lemma writeSlot (h : Inv C P H s) {item : T} {nextTail : ℕ}
    (hpc : s.producer = some (.writeSlot item (P.length % C.val) nextTail)) :
    Inv C P H { s with
      slotHist := Function.update s.slotHist (P.length % C.val)
        (s.slotHist (P.length % C.val) ++ [item]),
      producer := some (.storeTail item nextTail) } := by
  obtain ⟨-, hnext, hroom⟩ := h.producer _ hpc
  have hlen : ∀ i, (s.slotHist i).length = visits C.val P.length i + 1 := by
    have := h.slot_length
    rw [hpc] at this
    exact this
  refine { h with slot_length := ?_, slot_get := ?_, producer := ?_ }
  · intro i
    show (Function.update s.slotHist (P.length % C.val)
      (s.slotHist (P.length % C.val) ++ [item]) i).length = visits C.val (P.length + 1) i + 1
    by_cases hi : i = P.length % C.val
    · subst hi
      rw [Function.update_self, List.length_append, hlen, visits_succ_self]
      rfl
    · rw [Function.update_of_ne hi, hlen, visits_succ, if_neg (Ne.symm hi)]
  · intro k x hk
    have hget := h.slot_get k x hk
    show (Function.update s.slotHist (P.length % C.val)
      (s.slotHist (P.length % C.val) ++ [item]) (k % C.val))[_]? = some x
    by_cases hi : k % C.val = P.length % C.val
    · rw [hi] at hget ⊢
      rw [Function.update_self, List.getElem?_append_left]
      · exact hget
      · exact (List.getElem?_eq_some_iff.mp hget).1
    · rw [Function.update_of_ne hi]
      exact hget
  · intro pc hpc'
    cases hpc'
    refine ⟨hnext, hroom, ?_⟩
    show (Function.update s.slotHist (P.length % C.val)
      (s.slotHist (P.length % C.val) ++ [item]) (P.length % C.val))[_]? = some item
    rw [Function.update_self, visits_succ_self, ← hlen, List.getElem?_concat_length]

/-- Storing `tail_` publishes the item written.

**Proof sketch.** The new entry of `tail_` carries one write more, that of the item, so it is the
entry number `P.length + 1`. The item is the one to be found in its slot by whoever reads that
entry; the consumer's own items come before it. -/
lemma storeTail (h : Inv C P H s) {item : T} {nextTail : ℕ}
    (hpc : s.producer = some (.storeTail item nextTail)) :
    Inv C (P ++ [item]) H { s with
      tailHist := s.tailHist ++ [⟨nextTail, fun i => (s.slotHist i).length - 1⟩],
      producer := none } := by
  obtain ⟨rfl, hroom, hitem⟩ := h.producer _ hpc
  have hlen : ∀ i, (s.slotHist i).length = visits C.val (P.length + 1) i + 1 := by
    have := h.slot_length
    rw [hpc] at this
    exact this
  have hP : (P ++ [item]).length = P.length + 1 := by simp
  refine { h with
    tailHist := ?_, tailSeen_le := ?_, room := ?_, slot_length := ?_, slot_get := ?_,
    producer := nofun, consumer := ?_ }
  · have hentry : (fun i => (s.slotHist i).length - 1) = visits C.val (P.length + 1) :=
      funext fun i => by rw [hlen, Nat.add_sub_cancel]
    rw [hP, List.range_succ (n := P.length + 1), List.map_append, ← h.tailHist, hentry]
    rfl
  · have := h.tailSeen_le
    rw [hP]
    exact Nat.le_succ_of_le this
  · rw [hP]
    exact hroom
  · intro i
    rw [hP]
    exact hlen i
  · intro k x hk
    by_cases hlt : k < P.length
    · rw [List.getElem?_append_left hlt] at hk
      exact h.slot_get k x hk
    · have hk' : k = P.length := by
        have := (List.getElem?_eq_some_iff.mp hk).1
        omega
      subst hk'
      rw [List.getElem?_concat_length] at hk
      cases hk
      exact hitem
  · intro pc hpc'
    have := h.consumer pc hpc'
    cases pc with
    | loadHead => trivial
    | loadTail currentHead => exact this
    | readSlot currentHead => exact this
    | storeHead currentHead x =>
      obtain ⟨h1, h2, h3⟩ := this
      refine ⟨h1, h2, ?_⟩
      rw [List.getElem?_append_left (List.getElem?_eq_some_iff.mp h3).1]
      exact h3

end Inv

/-- **A step of `try_push` keeps the invariant**, with one more push when it returns `true`.

**Proof sketch.** The loads are `setProducer` and `seeHead`. When the next tail differs from
the value read, `k % Capacity` for an entry `k` that the producer is less than a lap ahead
of, it is still less than a lap ahead of it after the push. -/
theorem pushStep_inv (h : Inv C P H s) {entry : ℕ} {pc : PushPc T}
    {out : Outcome (PushPc T) Bool} (hpc : s.producer = some pc)
    (hstep : pushStep C s entry pc = some (s', out)) :
    Inv C (P ++ pushes (pushEvents pc out)) H { s' with producer := out.pcAfter } ∧
      pops (pushEvents pc out) = [] := by
  cases pc with
  | loadTail item =>
    simp only [pushStep, Option.some.injEq, Prod.mk.injEq] at hstep
    obtain ⟨rfl, rfl⟩ := hstep
    refine ⟨?_, rfl⟩
    rw [show pushes (pushEvents (T := T) (.loadTail item) (.next _)) = [] from rfl,
      List.append_nil]
    apply h.setProducer (by rw [hpc]; rfl) rfl
    intro pc' hpc'
    cases hpc'
    exact h.ownTail
  | loadHead item currentTail =>
    obtain rfl : currentTail = P.length % C.val := h.producer _ hpc
    simp only [pushStep] at hstep
    split at hstep
    · cases hstep
    · next e he =>
      obtain ⟨hkH, rfl⟩ := h.headHist_get he
      split at hstep
      · next hk =>
        have h' := h.seeHead hk hkH
        have hbefore : writesDone P.length s.producer = P.length := by rw [hpc]; rfl
        split at hstep
        · cases hstep
          refine ⟨?_, rfl⟩
          rw [show pushes (pushEvents (T := T) (.loadHead item _) (.ret false)) = [] from rfl,
            List.append_nil]
          exact h'.setProducer hbefore rfl nofun
        · next hne =>
          cases hstep
          refine ⟨?_, rfl⟩
          rw [show pushes (pushEvents (T := T) (.loadHead item _) (.next _)) = [] from rfl,
            List.append_nil]
          apply h'.setProducer hbefore rfl
          intro pc' hpc'
          cases hpc'
          refine ⟨rfl, increment_mod C P.length, ?_⟩
          -- the next tail is not the entry read, so the push does not complete a lap over it
          show P.length + 1 < entry + C.val
          have hroom := h'.room
          by_contra hlap
          have hlap' : P.length + 1 = entry + C.val := by
            have : P.length < entry + C.val := hroom
            omega
          apply hne
          rw [increment_mod, hlap', Nat.add_mod_right]
          rfl
      · cases hstep
  | writeSlot item currentTail nextTail =>
    obtain ⟨rfl, -, -⟩ := h.producer _ hpc
    simp only [pushStep, Option.some.injEq, Prod.mk.injEq] at hstep
    obtain ⟨rfl, rfl⟩ := hstep
    refine ⟨?_, rfl⟩
    rw [show pushes (pushEvents (T := T) (.writeSlot item _ nextTail) (.next _)) = [] from rfl,
      List.append_nil]
    exact h.writeSlot hpc
  | storeTail item nextTail =>
    simp only [pushStep, Option.some.injEq, Prod.mk.injEq] at hstep
    obtain ⟨rfl, rfl⟩ := hstep
    exact ⟨h.storeTail hpc, rfl⟩

/-! ## The consumer -/

namespace Inv

/-- A step of the consumer that touches neither history nor slots, and after which it has not
just read a slot. -/
lemma setConsumer (h : Inv C P H s) {next : Option (PopPc T)}
    (hbefore : readsDone H s.consumer = H) (hafter : readsDone H next = H)
    (hok : ∀ pc, next = some pc → PopOk C P H s pc) : Inv C P H { s with consumer := next } :=
  { h with
    readCount := by
      have := h.readCount
      rw [hbefore] at this
      show s.readCount = visits C.val (readsDone H next)
      rw [hafter]
      exact this
    consumer := hok }

/-- Reading an entry of `tail_` that is not older than the last one.

**Proof sketch.** As for `head_`: a later entry carries more writes, and the consumer may rely on
more items. -/
lemma seeTail (h : Inv C P H s) {k : ℕ} (hk : s.tailSeen ≤ k) (hkP : k ≤ P.length) :
    Inv C P H { s with tailSeen := k,
                       writesSeen := fun i => max (s.writesSeen i) ((tailEntry C k).writes i) } :=
  { h with
    le_tailSeen := h.le_tailSeen.trans hk
    tailSeen_le := hkP
    writesSeen := by
      show (fun i => max (s.writesSeen i) (visits C.val k i)) = visits C.val k
      rw [h.writesSeen]
      exact max_visits hk
    consumer := by
      intro pc hpc
      have := h.consumer pc hpc
      cases pc with
      | loadHead => trivial
      | loadTail currentHead => exact this
      | readSlot currentHead => exact ⟨this.1, this.2.trans_le hk⟩
      | storeHead currentHead item => exact ⟨this.1, this.2.1.trans_le hk, this.2.2⟩ }

/-- The slots written run less than a lap ahead of the pops.

**Proof sketch.** By cases on the program point: the slot written and not yet published is within
the room the producer has found. -/
lemma writesDone_le (h : Inv C P H s) :
    P.length ≤ writesDone P.length s.producer ∧
      writesDone P.length s.producer ≤ H + C.val := by
  have hroom := h.room
  have hseen := h.headSeen_le
  rcases hp : s.producer with _ | pc
  · exact ⟨le_rfl, by show P.length ≤ H + C.val; omega⟩
  · cases pc with
    | loadTail item => exact ⟨le_rfl, by show P.length ≤ H + C.val; omega⟩
    | loadHead item currentTail => exact ⟨le_rfl, by show P.length ≤ H + C.val; omega⟩
    | writeSlot item currentTail nextTail =>
      exact ⟨le_rfl, by show P.length ≤ H + C.val; omega⟩
    | storeTail item nextTail =>
      obtain ⟨-, hlap, -⟩ := h.producer _ hp
      exact ⟨Nat.le_succ _, by show P.length + 1 ≤ H + C.val; omega⟩

/-- Between the entry of `tail_` seen last and the slots written, the slot of the next pop is
written once. -/
lemma visits_head (h : Inv C P H s) (hlt : H < s.tailSeen) {w : ℕ} (hw : s.tailSeen ≤ w)
    (hw' : w ≤ writesDone P.length s.producer) :
    visits C.val w (H % C.val) = visits C.val (H + 1) (H % C.val) := by
  have hdone := h.writesDone_le.2
  apply visits_eq_of_forall_ne (by omega)
  intro k h1 h2
  exact mod_ne_of_lt (by omega) (by omega)

/-- **The only write a read of a slot can return** is the one of the next item to pop: it is
visible to the consumer, and it is the last one.

**Proof sketch.** A read of slot `H % Capacity` returns a write between the last visible one
and the last one. Both have number `visits (H + 1)`: the slots written run less than a lap
ahead of `H`, so no later write went to this slot. -/
theorem read_forced (h : Inv C P H s) (hlt : H < s.tailSeen) :
    (s.slotHist (H % C.val)).length = s.writesSeen (H % C.val) + 1 ∧
      s.writesSeen (H % C.val) = visits C.val (H + 1) (H % C.val) := by
  have hdone := h.writesDone_le.1
  have htail := h.tailSeen_le
  rw [h.slot_length, h.writesSeen, h.visits_head hlt le_rfl (by omega),
    h.visits_head hlt (by omega) le_rfl]
  exact ⟨rfl, rfl⟩

/-- Reading the slot of the next item to pop.

**Proof sketch.** The entry of `tail_` that the consumer has read carries the write of item `H`, so
by coherence the slot cannot be read as it was before that write; and the slot has not been written
since (`read_forced`). So the item read is item `H`, and the slot has been read once more. -/
lemma readSlot (h : Inv C P H s) {entry : ℕ} {item : T}
    (hpc : s.consumer = some (.readSlot (H % C.val)))
    (hget : (s.slotHist (H % C.val))[entry]? = some item)
    (hseen : s.writesSeen (H % C.val) ≤ entry) :
    Inv C P H { s with
      writesSeen := Function.update s.writesSeen (H % C.val) entry,
      readCount := Function.update s.readCount (H % C.val) (s.readCount (H % C.val) + 1),
      consumer := some (.storeHead (H % C.val) item) } := by
  obtain ⟨-, hlt⟩ := h.consumer _ hpc
  obtain ⟨hlen, hwrite⟩ := h.read_forced hlt
  have hentry : entry = s.writesSeen (H % C.val) := by
    have := (List.getElem?_eq_some_iff.mp hget).1
    omega
  have hcount : s.readCount = visits C.val H := by
    have := h.readCount
    rw [hpc] at this
    exact this
  refine { h with writesSeen := ?_, readCount := ?_, consumer := ?_ }
  · show Function.update s.writesSeen (H % C.val) entry = visits C.val s.tailSeen
    rw [hentry, Function.update_eq_self, h.writesSeen]
  · show Function.update s.readCount (H % C.val) (s.readCount (H % C.val) + 1) =
      visits C.val (H + 1)
    funext i
    by_cases hi : i = H % C.val
    · subst hi
      rw [Function.update_self, hcount, visits_succ_self]
    · rw [Function.update_of_ne hi, hcount, visits_succ, if_neg (Ne.symm hi), Nat.add_zero]
  · intro pc hpc'
    cases hpc'
    refine ⟨rfl, hlt, ?_⟩
    -- the item read is the item pushed as number `H`
    have hH : H < P.length := hlt.trans_le h.tailSeen_le
    have hP : P[H]? = some P[H] := List.getElem?_eq_getElem hH
    have hslot := h.slot_get H _ hP
    rw [← hwrite, ← hentry, hget] at hslot
    rw [hP, hslot]

/-- Storing `head_` after the read. -/
lemma storeHead (h : Inv C P H s) {item : T}
    (hpc : s.consumer = some (.storeHead (H % C.val) item)) :
    Inv C P (H + 1) { s with
      headHist := s.headHist ++ [⟨increment C (H % C.val), s.readCount⟩],
      consumer := none } := by
  obtain ⟨-, hlt, -⟩ := h.consumer _ hpc
  have hcount : s.readCount = visits C.val (H + 1) := by
    have := h.readCount
    rw [hpc] at this
    exact this
  refine { h with
    headHist := ?_, le_tailSeen := hlt, headSeen_le := Nat.le_succ_of_le h.headSeen_le,
    readCount := hcount, consumer := nofun }
  rw [List.range_succ (n := H + 1), List.map_append, ← h.headHist, hcount, increment_mod]
  rfl

end Inv

/-- **A step of `try_pop` keeps the invariant**, with one more pop when it returns an item,
and the item it returns is the next one pushed.

**Proof sketch.** The loads are `setConsumer` and `seeTail`: when the head differs from the
value read, `k % Capacity` for an entry `k` of `tail_`, the consumer is strictly behind `k`.
The read and the store are `Inv.readSlot` and `Inv.storeHead`. -/
theorem popStep_inv (h : Inv C P H s) {entry : ℕ} {pc : PopPc T}
    {out : Outcome (PopPc T) (Option T)} (hpc : s.consumer = some pc)
    (hstep : popStep C s entry pc = some (s', out)) :
    Inv C P (H + (pops (popEvents out)).length) { s' with consumer := out.pcAfter } ∧
      pushes (popEvents out) = [] ∧
      ∀ x ∈ pops (popEvents out), P[H]? = some x ∧ pops (popEvents out) = [x] := by
  cases pc with
  | loadHead =>
    simp only [popStep, Option.some.injEq, Prod.mk.injEq] at hstep
    obtain ⟨rfl, rfl⟩ := hstep
    refine ⟨h.setConsumer (by rw [hpc]; rfl) rfl ?_, rfl, nofun⟩
    intro pc' hpc'
    cases hpc'
    exact h.ownHead
  | loadTail currentHead =>
    obtain rfl : currentHead = H % C.val := h.consumer _ hpc
    simp only [popStep] at hstep
    split at hstep
    · cases hstep
    · next e he =>
      obtain ⟨hkP, rfl⟩ := h.tailHist_get he
      split at hstep
      · next hk =>
        have h' := h.seeTail hk hkP
        have hbefore : readsDone H s.consumer = H := by rw [hpc]; rfl
        split at hstep
        · cases hstep
          exact ⟨h'.setConsumer hbefore rfl nofun, rfl, nofun⟩
        · next hne =>
          cases hstep
          refine ⟨h'.setConsumer hbefore rfl ?_, rfl, nofun⟩
          intro pc' hpc'
          cases hpc'
          refine ⟨rfl, ?_⟩
          show H < entry
          have hle : H ≤ entry := h.le_tailSeen.trans hk
          rcases hle.eq_or_lt with rfl | hlt
          · exact absurd rfl hne
          · exact hlt
      · cases hstep
  | readSlot currentHead =>
    obtain ⟨rfl, -⟩ := h.consumer _ hpc
    simp only [popStep] at hstep
    split at hstep
    · cases hstep
    · next item hget =>
      split at hstep
      · next hseen =>
        cases hstep
        exact ⟨h.readSlot hpc hget hseen, rfl, nofun⟩
      · cases hstep
  | storeHead currentHead item =>
    obtain ⟨rfl, -, hitem⟩ := h.consumer _ hpc
    simp only [popStep, Option.some.injEq, Prod.mk.injEq] at hstep
    obtain ⟨rfl, rfl⟩ := hstep
    refine ⟨h.storeHead hpc, rfl, ?_⟩
    intro x hx
    obtain rfl : x = item := List.mem_singleton.mp hx
    exact ⟨hitem, rfl⟩

/-! ## Runs -/

/-- **Inversion of the steps of the system.**

**Proof sketch.** By cases on the action, and on the guards of its step. -/
lemma step_cases {a : Action T} {es : List (Event T)} (h : step C s a = some (s', es)) :
    (es = [] ∧ ((∃ item, s.producer = none ∧ s' = { s with producer := some (.loadTail item) }) ∨
      (s.consumer = none ∧ s' = { s with consumer := some .loadHead }))) ∨
    (∃ entry pc s₁ out, s.producer = some pc ∧ pushStep C s entry pc = some (s₁, out) ∧
      s' = { s₁ with producer := out.pcAfter } ∧ es = pushEvents pc out) ∨
    (∃ entry pc s₁ out, s.consumer = some pc ∧ popStep C s entry pc = some (s₁, out) ∧
      s' = { s₁ with consumer := out.pcAfter } ∧ es = popEvents out) := by
  cases a with
  | callPush item =>
    simp only [step] at h
    split at h
    · next hp =>
      cases h
      exact Or.inl ⟨rfl, Or.inl ⟨item, hp, rfl⟩⟩
    · cases h
  | callPop =>
    simp only [step] at h
    split at h
    · next hc =>
      cases h
      exact Or.inl ⟨rfl, Or.inr ⟨hc, rfl⟩⟩
    · cases h
  | stepProducer entry =>
    simp only [step] at h
    split at h
    · cases h
    · next pc hp =>
      split at h
      · cases h
      · next s₁ out hs =>
        cases h
        exact Or.inr (Or.inl ⟨entry, pc, s₁, out, hp, hs, rfl, rfl⟩)
  | stepConsumer entry =>
    simp only [step] at h
    split at h
    · cases h
    · next pc hc =>
      split at h
      · cases h
      · next s₁ out hs =>
        cases h
        exact Or.inr (Or.inr ⟨entry, pc, s₁, out, hc, hs, rfl, rfl⟩)

/-- The invariant of a run: it holds for the items pushed and the number of items popped, and
the items popped are the first ones pushed. -/
def RunInv (C : Capacity) (es : List (Event T)) (s : State T) : Prop :=
  Inv C (pushes es) (pops es).length s ∧ pops es <+: pushes es

/-- **The step lemma of the run invariant.**

**Proof sketch.** A call sets one program point to the start. A step of `try_push` keeps the
invariant with the item pushed, if any, appended (`pushStep_inv`). A step of `try_pop` pops at most
one item, and then it is the one at position `H` among those pushed (`popStep_inv`), which is the
next after those popped so far. -/
lemma runInv_step {a : Action T} {es out : List (Event T)} (h : RunInv C es s)
    (hstep : step C s a = some (s', out)) : RunInv C (es ++ out) s' := by
  obtain ⟨hinv, hpre⟩ := h
  rw [RunInv, pushes_append, pops_append]
  rcases step_cases hstep with ⟨rfl, ⟨item, hp, rfl⟩ | ⟨hc, rfl⟩⟩ |
    ⟨entry, pc, s₁, o, hp, hs, rfl, rfl⟩ | ⟨entry, pc, s₁, o, hc, hs, rfl, rfl⟩
  · rw [show pushes ([] : List (Event T)) = [] from rfl,
      show pops ([] : List (Event T)) = [] from rfl, List.append_nil, List.append_nil]
    refine ⟨hinv.setProducer (by rw [hp]; rfl) rfl ?_, hpre⟩
    intro pc hpc
    cases hpc
    trivial
  · rw [show pushes ([] : List (Event T)) = [] from rfl,
      show pops ([] : List (Event T)) = [] from rfl, List.append_nil, List.append_nil]
    refine ⟨hinv.setConsumer (by rw [hc]; rfl) rfl ?_, hpre⟩
    intro pc hpc
    cases hpc
    trivial
  · obtain ⟨hinv', hpops⟩ := pushStep_inv hinv hp hs
    rw [hpops, List.append_nil]
    exact ⟨hinv', hpre.trans (List.prefix_append _ _)⟩
  · obtain ⟨hinv', hpushes, hpop⟩ := popStep_inv hinv hc hs
    rw [hpushes, List.append_nil, List.length_append]
    refine ⟨hinv', ?_⟩
    rcases hlist : pops (popEvents o) with _ | ⟨x, rest⟩
    · rwa [List.append_nil]
    · obtain ⟨hx, hone⟩ := hpop x (by rw [hlist]; exact List.mem_cons_self)
      rw [← hlist, hone]
      -- the item popped is the next one after those popped so far
      obtain ⟨t, ht⟩ := hpre
      rw [← ht, List.getElem?_append_right le_rfl, Nat.sub_self] at hx
      obtain ⟨t', rfl⟩ : ∃ t', t = x :: t' := by
        cases t with
        | nil => simp at hx
        | cons y t' => exact ⟨t', by simpa using hx⟩
      exact ⟨t', by rw [List.append_assoc]; exact ht⟩

/-- The run invariant holds of every run. -/
lemma runInv_of_run [Inhabited T] {es : List (Event T)}
    (h : (system C T).Run System.anyStep (system C T).init es s) : RunInv C es s :=
  h.invariant (I := RunInv C) ⟨inv_init C, List.prefix_rfl⟩
    fun _ _ _ _ _ hI _ hstep => runInv_step hI hstep

/-- **Stale loads do no harm**: in every run, whatever entries the loads return,

* the `k`-th successful `try_pop` returns the item of the `k`-th successful `try_push`;
* when the producer is about to write a slot, the consumer is not between its emptiness check
  and its store of `head_` with that slot, and every earlier read of the slot is visible to
  the producer;
* when the consumer is about to read a slot, every write of it is visible, so that the read
  returns the last one.

**Proof sketch.** The first part is the run invariant. For the second, the producer at
`P` pushes is less than a lap ahead of the pops, and a consumer past its check is strictly
behind `P`: their slots differ, and no read of the slot of `P` was made since the entry of
`head_` the producer read last. The third part is `read_forced`. -/
theorem stale_loads_safe [Inhabited T] {es : List (Event T)}
    (h : (system C T).Run System.anyStep (system C T).init es s) :
    pops es <+: pushes es ∧
    (∀ item slot nextTail, s.producer = some (.writeSlot item slot nextTail) →
      s.consumer ≠ some (.readSlot slot) ∧
      (∀ x, s.consumer ≠ some (.storeHead slot x)) ∧
      s.readsSeen slot = s.readCount slot) ∧
    (∀ slot, s.consumer = some (.readSlot slot) →
      (s.slotHist slot).length = s.writesSeen slot + 1) := by
  obtain ⟨hinv, hpre⟩ := runInv_of_run h
  set P := pushes es
  set H := (pops es).length
  refine ⟨hpre, ?_, ?_⟩
  · intro item slot nextTail hp
    obtain ⟨rfl, -, hlap⟩ := hinv.producer _ hp
    have hseen := hinv.headSeen_le
    -- a counter value the consumer is at, strictly behind `P`, is in another slot
    have hapart : ∀ k, s.headSeen ≤ k → k < P.length → k % C.val ≠ P.length % C.val :=
      fun k h1 h2 => (mod_ne_of_lt h2 (by omega)).symm
    have hbehind : H < s.tailSeen → H % C.val ≠ P.length % C.val := fun hlt =>
      hapart H hseen (hlt.trans_le hinv.tailSeen_le)
    refine ⟨?_, ?_, ?_⟩
    · intro hc
      obtain ⟨heq, hlt⟩ := hinv.consumer _ hc
      exact hbehind hlt heq.symm
    · intro x hc
      obtain ⟨heq, hlt, -⟩ := hinv.consumer _ hc
      exact hbehind hlt heq.symm
    · rw [hinv.readsSeen, hinv.readCount]
      symm
      have hle : H ≤ readsDone H s.consumer := by
        rcases s.consumer with _ | pc
        · exact le_rfl
        · cases pc <;> first | exact le_rfl | exact Nat.le_succ _
      refine visits_eq_of_forall_ne (hseen.trans hle) fun k h1 h2 => hapart k h1 ?_
      rcases hc : s.consumer with _ | pc
      · rw [hc] at h2
        exact (show k < H from h2).trans_le (hinv.le_tailSeen.trans hinv.tailSeen_le)
      · have htail := hinv.tailSeen_le
        have hhead := hinv.le_tailSeen
        cases pc with
        | loadHead => rw [hc] at h2; exact (show k < H from h2).trans_le (hhead.trans htail)
        | loadTail _ => rw [hc] at h2; exact (show k < H from h2).trans_le (hhead.trans htail)
        | readSlot _ => rw [hc] at h2; exact (show k < H from h2).trans_le (hhead.trans htail)
        | storeHead _ x =>
          obtain ⟨-, hlt, -⟩ := hinv.consumer _ hc
          rw [hc] at h2
          exact (Nat.lt_succ_iff.mp (show k < H + 1 from h2)).trans_lt (hlt.trans_le htail)
  · intro slot hc
    obtain ⟨rfl, hlt⟩ := hinv.consumer _ hc
    exact (hinv.read_forced hlt).1

/-- The smallest buffer: two slots, of which one is always empty. -/
def twoSlots : Capacity := ⟨2, by decide, by decide, by decide⟩

/-- A schedule in which a stale load of `head_` makes a `try_push` return `false`
and a stale load of `tail_` makes a `try_pop` return `std::nullopt`, with no harm done. -/
def staleSchedule : List (Action ℕ) :=
  [.callPush 1, .stepProducer 0, .stepProducer 0, .stepProducer 0, .stepProducer 0,
   .callPop, .stepConsumer 0, .stepConsumer 1, .stepConsumer 1, .stepConsumer 0,
   .callPush 2, .stepProducer 0, .stepProducer 0,
   .callPush 2, .stepProducer 0, .stepProducer 1, .stepProducer 0, .stepProducer 0,
   .callPop, .stepConsumer 0, .stepConsumer 1,
   .callPop, .stepConsumer 0, .stepConsumer 2, .stepConsumer 1, .stepConsumer 0]

/-- A run with a refusal and an empty answer that an up-to-date load would not give: the items
popped are those pushed. -/
theorem stale_loads_safe_example :
    ∃ es s, (system twoSlots ℕ).Run System.anyStep (system twoSlots ℕ).init es s ∧
      es = [.pushed 1, .popped 1, .refused, .pushed 2, .nothing, .popped 2] ∧
      pops es <+: pushes es := by
  have h : ((system twoSlots ℕ).exec System.anyStep (system twoSlots ℕ).init staleSchedule).map
      Prod.snd = some [.pushed 1, .popped 1, .refused, .pushed 2, .nothing, .popped 2] := by rfl
  obtain ⟨s, es, hrun, hes⟩ := System.exists_run_of_exec h
  exact ⟨es, s, hrun, hes, (stale_loads_safe hrun).1⟩

end NullRing.RingBuffer.Weak
