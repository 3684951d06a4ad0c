import NullRing.Queue.CreditChannel
import NullRing.RingBuffer.StaleLoads

set_option relaxedAutoImplicit false
set_option autoImplicit false

/-!
# The ring buffer under acquire and release is a channel with credits

What the two calls may answer when loads return stale indices, exactly: the entry of `head_` the
producer read last is its knowledge of the slots freed, the entry of `tail_` the consumer read
last its knowledge of the items published. So the buffer is a channel in which both items and free
slots arrive late, with as many credits as the buffer has places; and each history of that channel
is one of the buffer, for some choice of the entries read.

## Main definitions

* `RingBuffer.Weak.Event.channel` — the returns of the two calls as answers of the channel.
* `RingBuffer.Weak.Tracks` — the simulation relation.

## Main results

* `RingBuffer.Weak.histories_iff` — the histories of the buffer are those of the channel.
* `RingBuffer.Weak.run_of_channel` — each history of the channel is one of the buffer.
-/

namespace NullRing.RingBuffer.Weak

open Laps Transition

variable {T : Type} {C : Capacity} {P : List T} {H : ℕ} {s s' : State T}
  {q : CreditChannel.State T}

/-- The answer of the channel that a return is. -/
def Event.channel : Event T → CreditChannel.Event T
  | .pushed item => .push item
  | .refused => .refuse
  | .popped item => .pop item
  | .nothing => .nothing

/-! ## What the loads compare -/

namespace Inv

/-- The load of `head_` finds the buffer full when the producer is a lap ahead of the entry.

**Proof sketch.** The two counts lie within one lap of each other, so that their residues are equal
only if they are. -/
lemma full_iff (h : Inv C P H s) {k : ℕ} (hk : s.headSeen ≤ k) (hkH : k ≤ H) :
    increment C (P.length % C.val) = (headEntry C k).value ↔ P.length + 1 = k + C.val := by
  have hroom := h.room
  have htail := h.tailSeen_le
  have hhead := h.le_tailSeen
  rw [increment_mod]
  constructor
  · intro heq
    have hlap : (P.length + 1) % C.val = (k + C.val) % C.val := by
      rw [heq, Nat.add_mod_right]
      rfl
    exact eq_of_mod_eq (by omega) (by omega) hlap
  · intro hlen
    rw [hlen, Nat.add_mod_right]
    rfl

/-- The load of `tail_` finds the buffer empty when the consumer has popped up to the entry. -/
lemma empty_iff (h : Inv C P H s) {k : ℕ} (hk : s.tailSeen ≤ k) (hkP : k ≤ P.length) :
    H % C.val = (tailEntry C k).value ↔ k = H := by
  have hroom := h.room
  have hhead := h.headSeen_le
  have htail := h.le_tailSeen
  constructor
  · intro heq
    exact (eq_of_mod_eq (by omega) (by omega) heq).symm
  · rintro rfl
    rfl

end Inv

/-! ## The effects of a step -/

/-- A step of `try_push` returns nothing and at most reads a later entry of `head_`, or it is the
load that finds the buffer full, or the store.

**Proof sketch.** By cases on the program point; the load of `head_` says which entry is read and
that it is not older than the last one, and is a refusal if the next tail is the value of the
entry. -/
lemma pushStep_cases {entry : ℕ} {pc : PushPc T} {out : Outcome (PushPc T) Bool}
    (h : pushStep C s entry pc = some (s', out)) :
    (pushEvents pc out = [] ∧ s.headSeen ≤ s'.headSeen ∧ s'.tailSeen = s.tailSeen) ∨
    (∃ item currentTail e, pc = .loadHead item currentTail ∧ out = .ret false ∧
      s.headHist[entry]? = some e ∧ s.headSeen ≤ entry ∧ increment C currentTail = e.value ∧
      s'.headSeen = entry ∧ s'.tailSeen = s.tailSeen) ∨
    (∃ item nextTail, pc = .storeTail item nextTail ∧ out = .ret true ∧
      s'.headSeen = s.headSeen ∧ s'.tailSeen = s.tailSeen) := by
  cases pc with
  | loadTail item =>
    cases h
    exact Or.inl ⟨rfl, le_rfl, rfl⟩
  | loadHead item currentTail =>
    simp only [pushStep] at h
    split at h
    · cases h
    · next e he =>
      split at h
      · next hk =>
        split at h
        · next heq =>
          cases h
          exact Or.inr (Or.inl ⟨item, currentTail, e, rfl, rfl, he, hk, heq, rfl, rfl⟩)
        · cases h
          exact Or.inl ⟨rfl, hk, rfl⟩
      · cases h
  | writeSlot item currentTail nextTail =>
    cases h
    exact Or.inl ⟨rfl, le_rfl, rfl⟩
  | storeTail item nextTail =>
    cases h
    exact Or.inr (Or.inr ⟨item, nextTail, rfl, rfl, rfl, rfl⟩)

/-- A step of `try_pop` returns nothing and at most reads a later entry of `tail_`, or it is the
load that finds the buffer empty, or the store.

**Proof sketch.** As for `try_push`, with `tail_` loaded; the read of the slot changes neither
index. -/
lemma popStep_cases {entry : ℕ} {pc : PopPc T} {out : Outcome (PopPc T) (Option T)}
    (h : popStep C s entry pc = some (s', out)) :
    (popEvents out = [] ∧ s.tailSeen ≤ s'.tailSeen ∧ s'.headSeen = s.headSeen) ∨
    (∃ currentHead e, pc = .loadTail currentHead ∧ out = .ret none ∧
      s.tailHist[entry]? = some e ∧ s.tailSeen ≤ entry ∧ currentHead = e.value ∧
      s'.tailSeen = entry ∧ s'.headSeen = s.headSeen) ∨
    (∃ currentHead item, pc = .storeHead currentHead item ∧ out = .ret (some item) ∧
      s'.tailSeen = s.tailSeen ∧ s'.headSeen = s.headSeen) := by
  cases pc with
  | loadHead =>
    cases h
    exact Or.inl ⟨rfl, le_rfl, rfl⟩
  | loadTail currentHead =>
    simp only [popStep] at h
    split at h
    · cases h
    · next e he =>
      split at h
      · next hk =>
        split at h
        · next heq =>
          cases h
          exact Or.inr (Or.inl ⟨currentHead, e, rfl, rfl, he, hk, heq, rfl, rfl⟩)
        · cases h
          exact Or.inl ⟨rfl, hk, rfl⟩
      · cases h
  | readSlot currentHead =>
    simp only [popStep] at h
    split at h
    · cases h
    · split at h
      · cases h
        exact Or.inl ⟨rfl, le_rfl, rfl⟩
      · cases h
  | storeHead currentHead item =>
    cases h
    exact Or.inr (Or.inr ⟨currentHead, item, rfl, rfl, rfl, rfl⟩)

/-! ## The simulation -/

/-- After the pushes `P` and `H` pops the channel holds the items not yet popped. Its two sides
know at most what the entries read last tell: the receiver the pushes up to `tailSeen`, the
sender the pops up to `headSeen`. -/
structure Tracks (C : Capacity) (P : List T) (H : ℕ) (s : State T)
    (q : CreditChannel.State T) : Prop where
  inv : Inv C P H s
  items : q.items = P.drop H
  credits : q.credits = C.val - 1
  collected : H + q.held.length ≤ s.tailSeen
  known : H ≤ s.headSeen + q.spent

namespace Tracks

/-- The constructor: all credits are with the sender. -/
lemma init [Inhabited T] (C : Capacity) :
    Tracks C [] 0 (State.init T) (CreditChannel.spec T (C.val - 1)).init where
  inv := inv_init C
  items := rfl
  credits := rfl
  collected := le_rfl
  known := Nat.zero_le _

/-- The credits, counted. -/
lemma count (h : Tracks C P H s q) : q.free + P.length + q.spent = C.val - 1 + H := by
  have hcredits := h.credits
  have hhead := h.inv.le_tailSeen.trans h.inv.tailSeen_le
  rw [CreditChannel.State.credits, h.items, List.length_drop] at hcredits
  omega

/-- Reading later entries leaves the channel as it is. -/
lemma learn (h : Tracks C P H s q) (hinv : Inv C P H s') (hhead : s.headSeen ≤ s'.headSeen)
    (htail : s.tailSeen ≤ s'.tailSeen) : Tracks C P H s' q :=
  { h with
    inv := hinv
    collected := h.collected.trans htail
    known := h.known.trans (Nat.add_le_add_right hhead _) }

/-- A push collects the credits the producer has read of, and spends one.

**Proof sketch.** The credits returned and not collected are those of the pops the producer has not
read of, together with some that it has, the `news`. The room it has found says that with the news
there is a credit to spend; and what is then left to be returned is what the producer has not read
of. -/
lemma push (h : Tracks C P H s q) {item : T} (hroom : P.length + 1 < s.headSeen + C.val)
    (hinv : Inv C (P ++ [item]) H s') (hhead : s'.headSeen = s.headSeen)
    (htail : s'.tailSeen = s.tailSeen) :
    ∃ q', CreditChannel.Step q (.push item) q' ∧ Tracks C (P ++ [item]) H s' q' := by
  have hcount := h.count
  have hseen := h.inv.headSeen_le
  have hle := h.inv.le_tailSeen.trans h.inv.tailSeen_le
  obtain ⟨hinvs, hitems, hcredits, hcollected, hknown⟩ := h
  obtain ⟨free, flying, held, spent⟩ := q
  simp only at hcount hcollected hknown
  obtain ⟨news, hnews⟩ : ∃ news, spent = news + (H - s.headSeen) :=
    ⟨spent - (H - s.headSeen), by omega⟩
  obtain ⟨free', hfree⟩ : ∃ free', free + news = free' + 1 := ⟨free + news - 1, by omega⟩
  subst hnews
  have hstep : CreditChannel.Step ⟨free, flying, held, news + (H - s.headSeen)⟩ (.push item)
      ⟨free', flying ++ [item], held, H - s.headSeen⟩ := .push hfree
  refine ⟨_, hstep, hinv, ?_, hstep.credits.trans hcredits, ?_, ?_⟩
  · rw [List.drop_append_of_le_length hle, ← hitems]
    exact (List.append_assoc _ _ _).symm
  · rw [htail]
    exact hcollected
  · rw [hhead]
    show H ≤ s.headSeen + (H - s.headSeen)
    omega

/-- A producer that is a lap ahead of an entry it may read has no credit. -/
lemma refuse (h : Tracks C P H s q) {k : ℕ} (hk : s.headSeen ≤ k)
    (hfull : P.length + 1 = k + C.val) : CreditChannel.Step q .refuse q := by
  have hcount := h.count
  have hknown := h.known
  have hC := C.one_lt
  have hfree : q.free = 0 := by omega
  obtain ⟨free, flying, held, spent⟩ := q
  obtain rfl : free = 0 := hfree
  exact .refuse

/-- A pop collects the items the consumer has read of, and takes out the first.

**Proof sketch.** Of the items under way the consumer has read of the first `n`. With the items held
they are the items from number `H` up to the entry it has read, of which the first is the one
popped; the rest of them is held afterwards, and the credit of the popped one is spent. -/
lemma pop (h : Tracks C P H s q) {item : T} (hlt : H < s.tailSeen) (hitem : P[H]? = some item)
    (hinv : Inv C P (H + 1) s') (htail : s'.tailSeen = s.tailSeen)
    (hhead : s'.headSeen = s.headSeen) :
    ∃ q', CreditChannel.Step q (.pop item) q' ∧ Tracks C P (H + 1) s' q' := by
  obtain ⟨hinvs, hitems, hcredits, hcollected, hknown⟩ := h
  obtain ⟨free, flying, held, spent⟩ := q
  obtain ⟨hH, hget⟩ := List.getElem?_eq_some_iff.mp hitem
  have hdrop : P.drop H = item :: P.drop (H + 1) := by
    rw [List.drop_eq_getElem_cons hH, hget]
  -- the items known to the consumer: those held, and as many of those under way as it has read of
  set n := s.tailSeen - H - held.length with hn
  have hcollect : held ++ flying.take n = item :: (P.drop (H + 1)).take (s.tailSeen - H - 1) := by
    calc held ++ flying.take n = (held ++ flying).take (held.length + n) :=
          (List.take_length_add_append n).symm
      _ = (P.drop H).take (s.tailSeen - H) := by
          rw [show held ++ flying = P.drop H from hitems]
          congr 1
          have : H + held.length ≤ s.tailSeen := hcollected
          omega
      _ = item :: (P.drop (H + 1)).take (s.tailSeen - H - 1) := by
          rw [hdrop, List.take_cons (by omega)]
  have hstep : CreditChannel.Step ⟨free, flying.take n ++ flying.drop n, held, spent⟩ (.pop item)
      ⟨free, flying.drop n, (P.drop (H + 1)).take (s.tailSeen - H - 1), spent + 1⟩ :=
    .pop hcollect
  rw [List.take_append_drop] at hstep
  refine ⟨_, hstep, hinv, ?_, hstep.credits.trans hcredits, ?_, ?_⟩
  · have hall : item :: ((P.drop (H + 1)).take (s.tailSeen - H - 1) ++ flying.drop n) =
        item :: P.drop (H + 1) := by
      rw [← List.cons_append, ← hcollect, List.append_assoc, List.take_append_drop, ← hdrop]
      exact hitems
    exact (List.cons.inj hall).2
  · rw [htail]
    have hle := List.length_take_le (s.tailSeen - H - 1) (P.drop (H + 1))
    show H + 1 + ((P.drop (H + 1)).take (s.tailSeen - H - 1)).length ≤ s.tailSeen
    omega
  · rw [hhead]
    show H + 1 ≤ s.headSeen + (spent + 1)
    have : H ≤ s.headSeen + spent := hknown
    omega

/-- A consumer that has popped up to an entry it may read holds no item. -/
lemma nothing (h : Tracks C P H s q) (hempty : s.tailSeen ≤ H) :
    CreditChannel.Step q .nothing q := by
  have hcollected := h.collected
  have hheld : q.held = [] := List.length_eq_zero_iff.mp (by omega)
  obtain ⟨free, flying, held, spent⟩ := q
  obtain rfl : held = [] := hheld
  exact .nothing

end Tracks

/-- **The step lemma of the simulation.**

**Proof sketch.** By the inversion lemmas. A load that decides nothing is `Tracks.learn`; the load
that finds the buffer full, or empty, shows by `Inv.full_iff` and `Inv.empty_iff` that the side has
used up what it knows of; the stores are `Tracks.push` and `Tracks.pop`. -/
lemma tracks_step {a : Action T} {es : List (Event T)} (h : Tracks C P H s q)
    (hstep : step C s a = some (s', es)) :
    ∃ P' H' q', (CreditChannel.spec T (C.val - 1)).Run q (es.map Event.channel) q' ∧
      Tracks C P' H' s' q' := by
  rcases step_cases hstep with ⟨rfl, ⟨item, hp, rfl⟩ | ⟨hc, rfl⟩⟩ |
    ⟨entry, pc, s₁, out, hp, hs, rfl, rfl⟩ | ⟨entry, pc, s₁, out, hc, hs, rfl, rfl⟩
  · refine ⟨P, H, q, .nil, h.learn (h.inv.setProducer (by rw [hp]; rfl) rfl ?_) le_rfl le_rfl⟩
    intro pc hpc
    cases hpc
    trivial
  · refine ⟨P, H, q, .nil, h.learn (h.inv.setConsumer (by rw [hc]; rfl) rfl ?_) le_rfl le_rfl⟩
    intro pc hpc
    cases hpc
    trivial
  · have hinv := (pushStep_inv h.inv hp hs).1
    rcases pushStep_cases hs with ⟨hnone, hhead, htail⟩ |
      ⟨item, tail, e, rfl, rfl, he, hk, heq, hhead, htail⟩ | ⟨item, next, rfl, rfl, hhead, htail⟩
    · rw [hnone] at hinv ⊢
      have hinv' : Inv C P H { s₁ with producer := out.pcAfter } := by
        rw [← List.append_nil P]
        exact hinv
      exact ⟨P, H, q, .nil, h.learn hinv' hhead htail.ge⟩
    · obtain ⟨hkH, rfl⟩ := h.inv.headHist_get he
      obtain rfl : tail = P.length % C.val := h.inv.producer _ hp
      have hinv' : Inv C P H { s₁ with producer := none } := by
        rw [← List.append_nil P]
        exact hinv
      refine ⟨P, H, q, .single (h.refuse hk ((h.inv.full_iff hk hkH).mp heq)),
        h.learn hinv' (hk.trans hhead.ge) htail.ge⟩
    · obtain ⟨-, hroom, -⟩ := h.inv.producer _ hp
      obtain ⟨q', hq, htracks⟩ := h.push hroom hinv hhead htail
      exact ⟨_, H, q', .single hq, htracks⟩
  · have hinv := (popStep_inv h.inv hc hs).1
    rcases popStep_cases hs with ⟨hnone, htail, hhead⟩ |
      ⟨head, e, rfl, rfl, he, hk, heq, htail, hhead⟩ | ⟨head, item, rfl, rfl, htail, hhead⟩
    · rw [hnone] at hinv ⊢
      exact ⟨P, H, q, .nil, h.learn hinv hhead.ge htail⟩
    · obtain ⟨hkP, rfl⟩ := h.inv.tailHist_get he
      obtain rfl : head = H % C.val := h.inv.consumer _ hc
      obtain rfl : entry = H := (h.inv.empty_iff hk hkP).mp heq
      exact ⟨P, entry, q, .single (h.nothing hk), h.learn hinv hhead.ge (hk.trans htail.ge)⟩
    · obtain ⟨-, hlt, hitem⟩ := h.inv.consumer _ hc
      obtain ⟨q', hq, htracks⟩ := h.pop hlt hitem hinv htail hhead
      exact ⟨P, H + 1, q', .single hq, htracks⟩

/-- The buffer simulates the channel. -/
lemma tracks_simulation (C : Capacity) [Inhabited T] :
    ForwardSimulation (system C T) System.anyStep (CreditChannel.spec T (C.val - 1))
      (fun e => some e.channel) (fun s q => ∃ P H, Tracks C P H s q) where
  init := ⟨[], 0, .init C⟩
  step := by
    rintro s q a s' es ⟨P, H, h⟩ - hstep
    obtain ⟨P', H', q', hrun, h'⟩ := tracks_step h hstep
    rw [List.filterMap_eq_map']
    exact ⟨q', hrun, P', H', h'⟩

/-! ## Calls without interruption -/

/-- The producer has read entry `k` of `head_`. -/
def State.sawHead (C : Capacity) (s : State T) (k : ℕ) : State T :=
  { s with headSeen := k,
           readsSeen := fun i => max (s.readsSeen i) ((headEntry C k).reads i) }

/-- The consumer has read entry `k` of `tail_`. -/
def State.sawTail (C : Capacity) (s : State T) (k : ℕ) : State T :=
  { s with tailSeen := k,
           writesSeen := fun i => max (s.writesSeen i) ((tailEntry C k).writes i) }

namespace Inv

/-- A load of `head_` may read any entry that is not older than the last one. -/
lemma loadHead_eq (h : Inv C P H s) {k : ℕ} (hk : s.headSeen ≤ k) (hkH : k ≤ H) (item : T)
    (pc : Option (PushPc T)) :
    pushStep C { s with producer := pc } k (.loadHead item (P.length % C.val)) =
      some ({ s.sawHead C k with producer := pc },
        if P.length + 1 = k + C.val then .ret false
        else .next (.writeSlot item (P.length % C.val) (increment C (P.length % C.val)))) := by
  have hget : s.headHist[k]? = some (headEntry C k) := by
    rw [h.headHist]
    simp [Nat.lt_succ_of_le hkH]
  simp only [pushStep, hget, hk, if_true, h.full_iff hk hkH]
  split_ifs <;> rfl

/-- A load of `tail_` may read any entry that is not older than the last one. -/
lemma loadTail_eq (h : Inv C P H s) {k : ℕ} (hk : s.tailSeen ≤ k) (hkP : k ≤ P.length)
    (pc : Option (PopPc T)) :
    popStep C { s with consumer := pc } k (.loadTail (H % C.val)) =
      some ({ s.sawTail C k with consumer := pc },
        if k = H then .ret none else .next (.readSlot (H % C.val))) := by
  have hget : s.tailHist[k]? = some (tailEntry C k) := by
    rw [h.tailHist]
    simp [Nat.lt_succ_of_le hkP]
  simp only [popStep, hget, hk, if_true, h.empty_iff hk hkP]
  split_ifs <;> rfl

/-- The read of the slot of the next item to pop returns that item. -/
lemma readSlot_eq (h : Inv C P H s) (hlt : H < s.tailSeen) {item : T} (hitem : P[H]? = some item)
    (pc : Option (PopPc T)) :
    ∃ s₁, popStep C { s with consumer := pc } (s.writesSeen (H % C.val)) (.readSlot (H % C.val)) =
        some (s₁, .next (.storeHead (H % C.val) item)) ∧
      s₁.producer = s.producer ∧ s₁.tailSeen = s.tailSeen ∧ s₁.headSeen = s.headSeen := by
  have hget := h.slot_get H item hitem
  rw [← (h.read_forced hlt).2] at hget
  simp only [popStep, hget, le_refl, if_true]
  exact ⟨_, rfl, rfl, rfl, rfl⟩

end Inv

section Calls

variable [Inhabited T]

/-- A step of `try_push`, as a run. -/
lemma run_pushStep (entry : ℕ) {pc : PushPc T} {out : Outcome (PushPc T) Bool}
    (hpc : s.producer = some pc) (h : pushStep C s entry pc = some (s', out)) :
    (system C T).Run System.anyStep s (pushEvents pc out)
      { s' with producer := out.pcAfter } := by
  refine .single (a := .stepProducer entry) trivial ?_
  simp only [system, step, hpc, h]

/-- A step of `try_pop`, as a run. -/
lemma run_popStep (entry : ℕ) {pc : PopPc T} {out : Outcome (PopPc T) (Option T)}
    (hpc : s.consumer = some pc) (h : popStep C s entry pc = some (s', out)) :
    (system C T).Run System.anyStep s (popEvents out) { s' with consumer := out.pcAfter } := by
  refine .single (a := .stepConsumer entry) trivial ?_
  simp only [system, step, hpc, h]

/-- The call of `try_push` up to the load of `head_`. -/
lemma run_loadHead (h : Inv C P H s) (hidle : s.producer = none) (item : T) :
    (system C T).Run System.anyStep s []
      { s with producer := some (.loadHead item (P.length % C.val)) } := by
  have hcall : (system C T).Run System.anyStep s []
      { s with producer := some (.loadTail item) } := by
    refine .single (a := .callPush item) trivial ?_
    simp only [system, step, hidle]
  rw [← h.ownTail]
  have hloaded := hcall.append (run_pushStep 0 rfl rfl)
  exact hloaded

/-- The call of `try_pop` up to the load of `tail_`. -/
lemma run_loadTail (h : Inv C P H s) (hidle : s.consumer = none) :
    (system C T).Run System.anyStep s []
      { s with consumer := some (.loadTail (H % C.val)) } := by
  have hcall : (system C T).Run System.anyStep s [] { s with consumer := some .loadHead } := by
    refine .single (a := .callPop) trivial ?_
    simp only [system, step, hidle]
  rw [← h.ownHead]
  have hloaded := hcall.append (run_popStep 0 rfl rfl)
  exact hloaded

/-- A call of `try_push` whose load of `head_` reads an entry that leaves room. -/
lemma call_push (h : Inv C P H s) (hidle : s.producer = none) {k : ℕ} (hk : s.headSeen ≤ k)
    (hkH : k ≤ H) (hroom : P.length + 1 ≠ k + C.val) (item : T) :
    ∃ s', (system C T).Run System.anyStep s [.pushed item] s' ∧ s'.producer = none ∧
      s'.consumer = s.consumer ∧ s'.headSeen = k ∧ s'.tailSeen = s.tailSeen := by
  have hload := h.loadHead_eq hk hkH item (some (.loadHead item (P.length % C.val)))
  rw [if_neg hroom] at hload
  have hloaded := (run_loadHead h hidle item).append (run_pushStep k rfl hload)
  have hwritten := hloaded.append (run_pushStep 0 rfl rfl)
  have hstored := hwritten.append (run_pushStep 0 rfl rfl)
  exact ⟨_, hstored, rfl, rfl, rfl, rfl⟩

/-- A call of `try_push` whose load of `head_` reads the last entry again, and finds the buffer
full. -/
lemma call_push_full (h : Inv C P H s) (hidle : s.producer = none) (item : T)
    (hfull : P.length + 1 = s.headSeen + C.val) :
    ∃ s', (system C T).Run System.anyStep s [.refused] s' ∧ s'.producer = none ∧
      s'.consumer = s.consumer ∧ s'.headSeen = s.headSeen ∧ s'.tailSeen = s.tailSeen := by
  have hload := h.loadHead_eq le_rfl h.headSeen_le item
    (some (.loadHead item (P.length % C.val)))
  rw [if_pos hfull] at hload
  have hloaded := (run_loadHead h hidle item).append (run_pushStep s.headSeen rfl hload)
  exact ⟨_, hloaded, rfl, rfl, rfl, rfl⟩

/-- A call of `try_pop` whose load of `tail_` reads an entry that shows an item. -/
lemma call_pop (h : Inv C P H s) (hidle : s.consumer = none) {k : ℕ} (hk : s.tailSeen ≤ k)
    (hkP : k ≤ P.length) (hlt : H < k) {item : T} (hitem : P[H]? = some item) :
    ∃ s', (system C T).Run System.anyStep s [.popped item] s' ∧ s'.consumer = none ∧
      s'.producer = s.producer ∧ s'.tailSeen = k ∧ s'.headSeen = s.headSeen := by
  have hload := h.loadTail_eq hk hkP (some (.loadTail (H % C.val)))
  rw [if_neg hlt.ne'] at hload
  have hloaded := (run_loadTail h hidle).append (run_popStep k rfl hload)
  obtain ⟨s₁, hread, hproducer, htail, hhead⟩ :=
    (h.seeTail hk hkP).readSlot_eq hlt hitem (some (.readSlot (H % C.val)))
  have hpopped := (hloaded.append (run_popStep _ rfl hread)).append (run_popStep 0 rfl rfl)
  exact ⟨_, hpopped, rfl, hproducer, htail, hhead⟩

/-- A call of `try_pop` whose load of `tail_` reads the last entry again, and finds the buffer
empty. -/
lemma call_pop_empty (h : Inv C P H s) (hidle : s.consumer = none) (hempty : s.tailSeen = H) :
    ∃ s', (system C T).Run System.anyStep s [.nothing] s' ∧ s'.consumer = none ∧
      s'.producer = s.producer ∧ s'.tailSeen = s.tailSeen ∧ s'.headSeen = s.headSeen := by
  have hload := h.loadTail_eq le_rfl h.tailSeen_le (some (.loadTail (H % C.val)))
  rw [if_pos hempty] at hload
  have hloaded := (run_loadTail h hidle).append (run_popStep s.tailSeen rfl hload)
  exact ⟨_, hloaded, rfl, rfl, rfl, rfl⟩

end Calls

/-! ## Every history of the channel -/

/-- The return that an answer of the channel is. -/
def Event.ofChannel : CreditChannel.Event T → Event T
  | .push item => .pushed item
  | .refuse => .refused
  | .pop item => .popped item
  | .nothing => .nothing

/-- Between two calls, after the pushes `P` and `H` pops, the two sides of the channel know exactly
what the entries read last tell. -/
structure Settled (P : List T) (H : ℕ) (s : State T) (q : CreditChannel.State T) : Prop where
  producer : s.producer = none
  consumer : s.consumer = none
  items : q.items = P.drop H
  collected : H + q.held.length = s.tailSeen
  known : H = s.headSeen + q.spent

/-- **Each answer of the channel is given by a call of the buffer**, if its load reads the right
entry.

**Proof sketch.** A call that collects `n` credits or items reads the entry `n` after the last one
read. -/
lemma settled_step [Inhabited T] (hinv : Inv C P H s) (h : Settled P H s q)
    (hcredits : q.credits = C.val - 1) {e : CreditChannel.Event T} {q' : CreditChannel.State T}
    (hstep : CreditChannel.Step q e q') :
    ∃ s', (system C T).Run System.anyStep s [Event.ofChannel e] s' ∧
      Settled (P ++ pushes [Event.ofChannel e]) (H + (pops [Event.ofChannel e]).length) s' q' := by
  have hle := hinv.le_tailSeen.trans hinv.tailSeen_le
  have hC := C.one_lt
  obtain ⟨hproducer, hconsumer, hitems, hcollected, hknown⟩ := h
  rw [CreditChannel.State.credits, hitems, List.length_drop] at hcredits
  cases hstep with
  | @push free free' news spent flying held x hnews =>
    simp only at hcredits hknown hcollected
    obtain ⟨s', hrun, hp, hc, hhead, htail⟩ := call_push hinv hproducer
      (Nat.le_add_right s.headSeen news) (by omega) (by omega) x
    refine ⟨s', hrun, hp, hc.trans hconsumer, ?_, hcollected.trans htail.symm, ?_⟩
    · show held ++ (flying ++ [x]) = (P ++ [x]).drop H
      rw [List.drop_append_of_le_length hle, ← hitems]
      exact (List.append_assoc _ _ _).symm
    · show H = s'.headSeen + spent
      omega
  | @refuse spent flying held =>
    simp only at hcredits hknown
    obtain ⟨s', hrun, hp, hc, hhead, htail⟩ := call_push_full hinv hproducer default (by omega)
    refine ⟨s', hrun, hp, hc.trans hconsumer, ?_, hcollected.trans htail.symm, ?_⟩
    · show _ = (P ++ []).drop H
      rw [List.append_nil]
      exact hitems
    · rw [hhead]
      exact hknown
  | @pop free spent flying held held' news x hnews =>
    have hlen := congrArg List.length hnews
    have hall := congrArg List.length hitems
    simp only [CreditChannel.State.items, List.length_append, List.length_cons,
      List.length_drop] at hlen hall
    simp only at hcollected hknown
    have hdrop : P.drop H = x :: (held' ++ flying) := by
      rw [← hitems, ← List.cons_append, ← hnews, List.append_assoc]
      rfl
    have hitem : P[H]? = some x := by
      have hhead := congrArg (·[0]?) hdrop
      simpa using hhead
    obtain ⟨s', hrun, hc, hp, htail, hhead⟩ := call_pop hinv hconsumer
      (show s.tailSeen ≤ s.tailSeen + news.length from Nat.le_add_right _ _) (by omega) (by omega)
      hitem
    refine ⟨s', hrun, hp.trans hproducer, hc, ?_, ?_, ?_⟩
    · show held' ++ flying = (P ++ []).drop (H + 1)
      rw [List.append_nil, ← List.drop_drop, hdrop]
      rfl
    · show H + 1 + held'.length = s'.tailSeen
      omega
    · show H + 1 = s'.headSeen + (spent + 1)
      omega
  | @nothing free spent flying =>
    obtain ⟨s', hrun, hc, hp, htail, hhead⟩ := call_pop_empty hinv hconsumer hcollected.symm
    refine ⟨s', hrun, hp.trans hproducer, hc, ?_, hcollected.trans htail.symm, ?_⟩
    · show _ = (P ++ []).drop H
      rw [List.append_nil]
      exact hitems
    · rw [hhead]
      exact hknown

/-- Every history of the channel is one of the buffer.

**Proof sketch.** Induction on the history, call by call. -/
lemma run_of_channel [Inhabited T] {fs : List (CreditChannel.Event T)}
    (h : (CreditChannel.spec T (C.val - 1)).Run (CreditChannel.spec T (C.val - 1)).init fs q) :
    ∃ s, (system C T).Run System.anyStep (system C T).init (fs.map Event.ofChannel) s ∧
      Settled (pushes (fs.map Event.ofChannel)) (pops (fs.map Event.ofChannel)).length s q := by
  induction h with
  | nil => exact ⟨_, .nil, rfl, rfl, rfl, rfl, rfl⟩
  | snoc hrun hstep ih =>
    obtain ⟨s, hs, hsettled⟩ := ih
    obtain ⟨s', hs', hsettled'⟩ := settled_step (runInv_of_run hs).1 hsettled
      (CreditChannel.run_conserves hrun).2 hstep
    rw [List.map_append, pushes_append, pops_append, List.length_append]
    exact ⟨s', hs.append hs', hsettled'⟩

/-! ## Agreement -/

/-- **Under acquire and release the ring buffer is exactly a channel with credits.** A sequence of
returns of the two calls is possible, for some interleaving and some choice of the entries that the
loads read, exactly when it is a history of the channel whose credits are the places of the buffer.

**Proof sketch.** `tracks_simulation` one way, `run_of_channel` the other. -/
theorem histories_iff (C : Capacity) (T : Type) [Inhabited T] (es : List (Event T)) :
    (∃ s, (system C T).Run System.anyStep (system C T).init es s) ↔
      ∃ q, (CreditChannel.spec T (C.val - 1)).Run (CreditChannel.spec T (C.val - 1)).init
        (es.map Event.channel) q := by
  constructor
  · rintro ⟨s, h⟩
    obtain ⟨q, hq, -⟩ := (tracks_simulation C).run h
    rw [List.filterMap_eq_map'] at hq
    exact ⟨q, hq⟩
  · rintro ⟨q, h⟩
    obtain ⟨s, hs, -⟩ := run_of_channel h
    have hid : (es.map Event.channel).map Event.ofChannel = es := by
      rw [List.map_map]
      refine (List.map_congr_left fun e _ => ?_).trans (List.map_id es)
      cases e <;> rfl
    rw [hid] at hs
    exact ⟨s, hs⟩

end NullRing.RingBuffer.Weak
