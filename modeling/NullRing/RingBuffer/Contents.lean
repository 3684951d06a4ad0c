import NullRing.RingBuffer.Basic

set_option relaxedAutoImplicit false
set_option autoImplicit false

/-!
# The queue stored in a ring buffer

The masked indices forget how many laps were made, so the queue held by the memory of a ring
buffer is described through the number `n` of items ever removed: `head_` is `n` and `tail_`
is `n + |q|`, both modulo the capacity, and slot `(n + i) % Capacity` holds item `i`. The
queue is shorter than the capacity, which is what lets equal indices mean empty and a next
tail equal to the head mean full.

A call in progress remembers facts about this queue that the steps of the other side keep.
One lemma for each of the two calls says what a step does to the queue, to its own program
point and to the program point of the other side.

## Main definitions

* `RingBuffer.Stores` — the memory holds the queue `q` after `n` removals.
* `RingBuffer.PushOk`, `RingBuffer.PopOk` — what a call in progress may rely on.

## Main results

* `RingBuffer.Stores.full_iff`, `RingBuffer.Stores.empty_iff` — the two index comparisons.
* `RingBuffer.pushStep_spec`, `RingBuffer.popStep_spec` — the steps of the two calls.
-/

namespace NullRing.RingBuffer

variable {T : Type} {C : Capacity} {m : Memory T} {n : ℕ} {q : List T}

/-- After `n` removals the memory holds the queue `q`. -/
structure Stores (C : Capacity) (m : Memory T) (n : ℕ) (q : List T) : Prop where
  head : m.head = n % C.val
  tail : m.tail = (n + q.length) % C.val
  room : q.length < C.val
  slots : ∀ (i : ℕ) (hi : i < q.length), m.buffer ((n + i) % C.val) = q[i]

/-- A buffer has a slot. -/
lemma Capacity.pos (C : Capacity) : 0 < C.val := by
  have := C.one_lt
  omega

/-- The initial memory holds the empty queue. -/
lemma stores_init [Inhabited T] (C : Capacity) : Stores C (Memory.init T) 0 [] where
  head := (Nat.zero_mod _).symm
  tail := (Nat.zero_mod _).symm
  room := C.pos
  slots := fun i hi => absurd hi (Nat.not_lt_zero i)

namespace Stores

/-- `head_` and `tail_` are equal exactly when the queue is empty. -/
lemma empty_iff (h : Stores C m n q) : m.head = m.tail ↔ q = [] := by
  rw [h.head, h.tail]
  constructor
  · intro heq
    have := Laps.eq_of_mod_eq (by omega) (by have := h.room; omega) heq
    exact List.length_eq_zero_iff.mp (by omega)
  · rintro rfl
    simp

/-- The next tail is `head_` exactly when the queue has `Capacity - 1` items.

**Proof sketch.** Both indices are residues of counts less than a lap apart, which are a full lap
apart with the slot for the next item. -/
lemma full_iff (h : Stores C m n q) : increment C m.tail = m.head ↔ q.length = C.val - 1 := by
  have hroom := h.room
  rw [h.head, h.tail, increment_mod]
  constructor
  · intro heq
    -- a full lap ahead of `head_`: `n + |q| + 1` and `n + Capacity` have one residue
    have hlap : (n + q.length + 1) % C.val = (n + C.val) % C.val := by
      rw [heq, Nat.add_mod_right]
    have := Laps.eq_of_mod_eq (by omega) (by omega) hlap
    omega
  · intro hlen
    have hlap : n + q.length + 1 = n + C.val := by omega
    rw [hlap, Nat.add_mod_right]

/-- The slot of the tail is none of the slots in use. -/
lemma tail_ne_slot (h : Stores C m n q) {i : ℕ} (hi : i < q.length) :
    (n + i) % C.val ≠ m.tail := by
  intro heq
  rw [h.tail] at heq
  have := Laps.add_mod_injective (by have := h.room; omega) h.room heq
  omega

/-- Writing the slot of the tail does not change the queue. -/
lemma write (h : Stores C m n q) (x : T) :
    Stores C { m with buffer := Function.update m.buffer m.tail x } n q where
  head := h.head
  tail := h.tail
  room := h.room
  slots := by
    intro i hi
    show Function.update m.buffer m.tail x ((n + i) % C.val) = q[i]
    rw [Function.update_of_ne (h.tail_ne_slot hi)]
    exact h.slots i hi

/-- Storing the next tail adds the item in the slot of the tail.

**Proof sketch.** The tail moves on by one slot, and the slots of the old items are where they were;
the new item is in the slot of the old tail. -/
lemma push (h : Stores C m n q) {x : T} (hx : m.buffer m.tail = x)
    (hroom : q.length + 1 < C.val) :
    Stores C { m with tail := increment C m.tail } n (q ++ [x]) where
  head := h.head
  tail := by
    rw [h.tail, increment_mod, List.length_append]
    rfl
  room := by simpa using hroom
  slots := by
    intro i hi
    by_cases hlt : i < q.length
    · rw [List.getElem_append_left hlt]
      exact h.slots i hlt
    · have hi' : i = q.length := by
        simp only [List.length_append, List.length_singleton] at hi
        omega
      subst hi'
      rw [List.getElem_concat_length rfl]
      rw [h.tail] at hx
      exact hx

/-- The slot of the head holds the front item. -/
lemma front {x : T} (h : Stores C m n (x :: q)) : m.buffer m.head = x := by
  have := h.slots 0 (by simp)
  rw [h.head]
  simpa using this

/-- Storing the next head removes the front item. -/
lemma pop {x : T} (h : Stores C m n (x :: q)) :
    Stores C { m with head := increment C m.head } (n + 1) q where
  head := by rw [h.head, increment_mod]
  tail := by
    rw [h.tail, List.length_cons]
    congr 1
    omega
  room := Nat.lt_of_succ_lt h.room
  slots := by
    intro i hi
    have := h.slots (i + 1) (by simpa using hi)
    rw [List.getElem_cons_succ, ← Nat.add_assoc, Nat.add_right_comm] at this
    exact this

end Stores

/-! ## The calls in progress -/

/-- What `try_push` relies on at each of its program points: the tail is its own, a slot found
free stays free, and the slot written stays as it was written. -/
def PushOk (C : Capacity) (m : Memory T) (q : List T) : PushPc T → Prop
  | .loadTail _ => True
  | .loadHead _ currentTail => currentTail = m.tail
  | .writeSlot _ currentTail nextTail =>
    currentTail = m.tail ∧ nextTail = increment C m.tail ∧ q.length + 1 < C.val
  | .storeTail item nextTail =>
    m.buffer m.tail = item ∧ nextTail = increment C m.tail ∧ q.length + 1 < C.val

/-- What `try_pop` relies on at each of its program points: the head is its own, a queue found
nonempty stays nonempty, and the item read stays the front. -/
def PopOk (m : Memory T) (q : List T) : PopPc T → Prop
  | .loadHead => True
  | .loadTail currentHead => currentHead = m.head
  | .readSlot currentHead => currentHead = m.head ∧ q ≠ []
  | .storeHead currentHead item => currentHead = m.head ∧ q.head? = some item

/-- The program points of the consumer are kept by anything that leaves `head_` alone and only
adds to the queue.

**Proof sketch.** The consumer relies on `head_`, on the queue not being empty, and on its front,
all of which are kept. -/
lemma PopOk.mono {m m' : Memory T} {q q' : List T} {pc : PopPc T} (h : PopOk m q pc)
    (hhead : m'.head = m.head) (hq : q <+: q') : PopOk m' q' pc := by
  obtain ⟨t, rfl⟩ := hq
  cases pc with
  | loadHead => trivial
  | loadTail currentHead => exact h.trans hhead.symm
  | readSlot currentHead =>
    obtain ⟨h1, h2⟩ := h
    exact ⟨h1.trans hhead.symm, by simp [h2]⟩
  | storeHead currentHead item =>
    obtain ⟨h1, h2⟩ := h
    refine ⟨h1.trans hhead.symm, ?_⟩
    rw [List.head?_append, h2]
    rfl

/-- The program points of the producer are kept by anything that leaves `tail_` and the slots
alone and does not add to the queue. -/
lemma PushOk.mono {m m' : Memory T} {q q' : List T} {pc : PushPc T} (h : PushOk C m q pc)
    (htail : m'.tail = m.tail) (hbuffer : m'.buffer = m.buffer) (hq : q'.length ≤ q.length) :
    PushOk C m' q' pc := by
  cases pc with
  | loadTail item => trivial
  | loadHead item currentTail => exact h.trans htail.symm
  | writeSlot item currentTail nextTail =>
    obtain ⟨h1, h2, h3⟩ := h
    exact ⟨h1.trans htail.symm, by rw [htail]; exact h2, by omega⟩
  | storeTail item nextTail =>
    obtain ⟨h1, h2, h3⟩ := h
    exact ⟨by rw [htail, hbuffer]; exact h1, by rw [htail]; exact h2, by omega⟩

open BoundedQueue in
/-- **A step of `try_push`**: the queue changes by the events of the step, the call may go on,
and whatever the consumer relies on is kept.

**Proof sketch.** The loads change nothing; the comparison of the second load is `full_iff`.
The slot written is outside the queue (`Stores.write`), and the store of `tail_` brings it in
(`Stores.push`). -/
theorem pushStep_spec {pc : PushPc T} (h : Stores C m n q) (hpc : PushOk C m q pc) :
    ∃ q', (spec T (C.val - 1)).Run q (pushEvents pc (pushStep C m pc).2) q' ∧
      Stores C (pushStep C m pc).1 n q' ∧
      (pushStep C m pc).2.Next (PushOk C (pushStep C m pc).1 q') ∧
      ∀ pc', PopOk m q pc' → PopOk (pushStep C m pc).1 q' pc' := by
  cases pc with
  | loadTail item => exact ⟨q, .nil, h, rfl, fun _ h' => h'⟩
  | loadHead item currentTail =>
    obtain rfl : currentTail = m.tail := hpc
    have hfull := h.full_iff
    by_cases heq : increment C m.tail = m.head
    · have hstep : pushStep C m (.loadHead item m.tail) = (m, .ret false) := by
        simp [pushStep, heq]
      rw [hstep]
      exact ⟨q, .single (.checkFull (by simpa [heq] using hfull)), h, trivial, fun _ h' => h'⟩
    · have hstep : pushStep C m (.loadHead item m.tail) =
          (m, .next (.writeSlot item m.tail (increment C m.tail))) := by
        simp [pushStep, heq]
      rw [hstep]
      refine ⟨q, .single (.checkFull (by simpa [heq] using hfull)), h, ⟨rfl, rfl, ?_⟩,
        fun _ h' => h'⟩
      have hroom := h.room
      have hne : q.length ≠ C.val - 1 := fun hlen => heq (hfull.mpr hlen)
      omega
  | writeSlot item currentTail nextTail =>
    obtain ⟨rfl, rfl, hroom⟩ := hpc
    refine ⟨q, .nil, h.write item, ⟨Function.update_self _ _ _, rfl, hroom⟩, ?_⟩
    intro _ h'
    exact h'.mono rfl (List.prefix_refl q)
  | storeTail item nextTail =>
    obtain ⟨hitem, rfl, hroom⟩ := hpc
    refine ⟨q ++ [item], .single (.push (by omega)), h.push hitem hroom, trivial, ?_⟩
    intro _ h'
    exact h'.mono rfl (List.prefix_append q [item])

open BoundedQueue in
/-- **A step of `try_pop`**: the queue changes by the events of the step, the call may go on,
and whatever the producer relies on is kept.

**Proof sketch.** The comparison of the second load is `empty_iff`; the item read from the
slot of the head is the front (`Stores.front`), and the store of `head_` removes it
(`Stores.pop`). -/
theorem popStep_spec {pc : PopPc T} (h : Stores C m n q) (hpc : PopOk m q pc) :
    ∃ n' q', (spec T (C.val - 1)).Run q (popEvents (popStep C m pc).2) q' ∧
      Stores C (popStep C m pc).1 n' q' ∧
      (popStep C m pc).2.Next (PopOk (popStep C m pc).1 q') ∧
      ∀ pc', PushOk C m q pc' → PushOk C (popStep C m pc).1 q' pc' := by
  cases pc with
  | loadHead => exact ⟨n, q, .nil, h, rfl, fun _ h' => h'⟩
  | loadTail currentHead =>
    obtain rfl : currentHead = m.head := hpc
    have hempty := h.empty_iff
    by_cases heq : m.head = m.tail
    · have hstep : popStep C m (.loadTail m.head) = (m, .ret none) := by simp [popStep, heq]
      rw [hstep]
      exact ⟨n, q, .single (.checkEmpty (by simpa [heq] using hempty)), h, trivial,
        fun _ h' => h'⟩
    · have hstep : popStep C m (.loadTail m.head) = (m, .next (.readSlot m.head)) := by
        simp [popStep, heq]
      rw [hstep]
      exact ⟨n, q, .single (.checkEmpty (by simpa [heq] using hempty)), h,
        ⟨rfl, fun hq => heq (hempty.mpr hq)⟩, fun _ h' => h'⟩
  | readSlot currentHead =>
    obtain ⟨rfl, hne⟩ := hpc
    obtain ⟨x, rest, rfl⟩ := List.exists_cons_of_ne_nil hne
    refine ⟨n, x :: rest, .nil, h, ⟨rfl, ?_⟩, fun _ h' => h'⟩
    rw [h.front]
    rfl
  | storeHead currentHead item =>
    obtain ⟨rfl, hfront⟩ := hpc
    obtain ⟨rest, rfl⟩ : ∃ rest, q = item :: rest := by
      cases q with
      | nil => simp at hfront
      | cons x rest => exact ⟨rest, by simpa using hfront⟩
    refine ⟨n + 1, rest, .single .pop, h.pop, trivial, ?_⟩
    intro _ h'
    exact h'.mono rfl rfl (Nat.le_succ _)

end NullRing.RingBuffer
