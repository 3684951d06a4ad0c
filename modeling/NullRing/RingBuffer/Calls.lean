import NullRing.Queue.Calls
import NullRing.RingBuffer.Introspection

set_option relaxedAutoImplicit false
set_option autoImplicit false

/-!
# Whole calls

What a step of `try_push` or `try_pop` leads to is said here once for each call: it goes on with
one step fewer to take, it gives up because the queue is full, or empty, or it returns with the
queue changed. A call that no step of another thread interrupts is then the straight-line program
of the source, and any number of such calls, one after the other, answer as the calls of a bounded
queue do.

## Main definitions

* `RingBuffer.PushLeads`, `RingBuffer.PopLeads` — what a step of a call leads to.
* `RingBuffer.tryPush`, `RingBuffer.tryPop`, `RingBuffer.query` — the calls, uninterrupted.
* `RingBuffer.callAll` — a sequence of calls.

## Main results

* `RingBuffer.pushStep_leads`, `RingBuffer.popStep_leads` — the inversion of the steps.
* `RingBuffer.tryPush_alone`, `RingBuffer.tryPop_alone`, `RingBuffer.query_alone` — the steps of a
  call, taken without interruption, are the call.
* `RingBuffer.sequential_calls` — a ring buffer used by one thread is a bounded queue.
-/

namespace NullRing.RingBuffer

open Transition

variable {T : Type} {C : Capacity} {m : Memory T} {n : ℕ} {q : List T}

/-! ## What a step leads to -/

/-- What a step of `try_push` leads to, when the memory holds the queue `q`. -/
inductive PushLeads (C : Capacity) (m : Memory T) (n : ℕ) (q : List T) (pc : PushPc T) :
    Memory T × Outcome (PushPc T) Bool → Prop
  | next {m' : Memory T} {pc' : PushPc T} : pc'.item = pc.item → pc'.toGo + 1 = pc.toGo →
      Stores C m' n q → PushOk C m' q pc' → (∀ p, PopOk m q p → PopOk m' q p) →
      PushLeads C m n q pc (m', .next pc')
  | full : q.length = C.val - 1 → PushLeads C m n q pc (m, .ret false)
  | done {m' : Memory T} : pc.toGo = 1 → q.length < C.val - 1 →
      Stores C m' n (q ++ [pc.item]) → (∀ p, PopOk m q p → PopOk m' (q ++ [pc.item]) p) →
      PushLeads C m n q pc (m', .ret true)

/-- What a step of `try_pop` leads to, when the memory holds the queue `q`. -/
inductive PopLeads (C : Capacity) (m : Memory T) (n : ℕ) (q : List T) (pc : PopPc T) :
    Memory T × Outcome (PopPc T) (Option T) → Prop
  | next {pc' : PopPc T} : pc'.toGo + 1 = pc.toGo → PopOk m q pc' →
      PopLeads C m n q pc (m, .next pc')
  | empty : q = [] → PopLeads C m n q pc (m, .ret none)
  | done {m' : Memory T} {item : T} {rest : List T} : pc.toGo = 1 → q = item :: rest →
      Stores C m' (n + 1) rest → (∀ p, PushOk C m q p → PushOk C m' rest p) →
      PopLeads C m n q pc (m', .ret (some item))

/-- **Inversion of a step of `try_push`.**

**Proof sketch.** By cases on the program point. The comparison of the next tail with `head_`
decides between a full buffer and room for the item, the write of the slot leaves the stored items
alone, and the store of `tail_` adds the item, in four steps counted down by `toGo`. -/
theorem pushStep_leads {pc : PushPc T} (h : Stores C m n q) (hpc : PushOk C m q pc) :
    PushLeads C m n q pc (pushStep C m pc) := by
  cases pc with
  | loadTail item => exact .next rfl rfl h rfl fun _ hp => hp
  | loadHead item currentTail =>
    obtain rfl : currentTail = m.tail := hpc
    have hroom := h.room
    by_cases heq : increment C m.tail = m.head
    · simp only [pushStep, if_pos heq]
      exact .full (h.full_iff.mp heq)
    · simp only [pushStep, if_neg heq]
      have hne : q.length ≠ C.val - 1 := fun hlen => heq (h.full_iff.mpr hlen)
      exact .next rfl rfl h ⟨rfl, rfl, by omega⟩ fun _ hp => hp
  | writeSlot item currentTail nextTail =>
    obtain ⟨rfl, rfl, hroom⟩ := hpc
    exact .next rfl rfl (h.write item) ⟨Function.update_self _ _ _, rfl, hroom⟩
      fun _ hp => hp.mono rfl (List.prefix_refl q)
  | storeTail item nextTail =>
    obtain ⟨hitem, rfl, hroom⟩ := hpc
    exact .done rfl (by omega) (h.push hitem hroom) fun _ hp =>
      hp.mono rfl (List.prefix_append q [item])

/-- **Inversion of a step of `try_pop`.**

**Proof sketch.** By cases on the program point. The comparison with `tail_` decides between an
empty buffer and a front to be read, and the store of `head_` drops the front. -/
theorem popStep_leads {pc : PopPc T} (h : Stores C m n q) (hpc : PopOk m q pc) :
    PopLeads C m n q pc (popStep C m pc) := by
  cases pc with
  | loadHead => exact .next rfl rfl
  | loadTail currentHead =>
    obtain rfl : currentHead = m.head := hpc
    by_cases heq : m.head = m.tail
    · simp only [popStep, if_pos heq]
      exact .empty (h.empty_iff.mp heq)
    · simp only [popStep, if_neg heq]
      exact .next rfl ⟨rfl, fun hq => heq (h.empty_iff.mpr hq)⟩
  | readSlot currentHead =>
    obtain ⟨rfl, hne⟩ := hpc
    obtain ⟨item, rest, rfl⟩ := List.exists_cons_of_ne_nil hne
    exact .next rfl ⟨rfl, by rw [h.front]; rfl⟩
  | storeHead currentHead item =>
    obtain ⟨rfl, hfront⟩ := hpc
    obtain ⟨rest, rfl⟩ := List.head?_eq_some_iff.mp hfront
    exact .done rfl rfl h.pop fun _ hp => hp.mono rfl rfl (Nat.le_succ _)

/-! ## The calls, uninterrupted -/

/-- `try_push`. -/
def tryPush (C : Capacity) (m : Memory T) (item : T) : Memory T × Bool :=
  let currentTail := m.tail
  let nextTail := increment C currentTail
  if nextTail = m.head then (m, false)
  else
    ({ m with buffer := Function.update m.buffer currentTail item, tail := nextTail }, true)

/-- `try_pop`. -/
def tryPop (C : Capacity) (m : Memory T) : Memory T × Option T :=
  let currentHead := m.head
  if currentHead = m.tail then (m, none)
  else ({ m with head := increment C currentHead }, some (m.buffer currentHead))

/-- `size_approx` and `empty`. -/
def query (C : Capacity) (m : Memory T) : Query → Answer
  | .sizeApprox => .size (sizeOf C m.head m.tail)
  | .empty _ => .isEmpty (decide (m.head = m.tail))

/-- The steps of a call taken without interruption, `fuel` of them at most: the memory left and
the value returned. -/
def runAlone {M Pc R : Type} (step : M → Pc → M × Outcome Pc R) : ℕ → M → Pc → Option (M × R)
  | 0, _, _ => none
  | fuel + 1, m, pc =>
    match step m pc with
    | (m', .next pc') => runAlone step fuel m' pc'
    | (m', .ret r) => some (m', r)

/-- The steps of `try_push`, taken without interruption, are `tryPush`. -/
lemma tryPush_alone (C : Capacity) (m : Memory T) (item : T) :
    runAlone (pushStep C) 4 m (.loadTail item) = some (tryPush C m item) := by
  by_cases heq : increment C m.tail = m.head <;>
    simp [runAlone, pushStep, tryPush, heq]

/-- The steps of `try_pop`, taken without interruption, are `tryPop`. -/
lemma tryPop_alone (C : Capacity) (m : Memory T) :
    runAlone (popStep C) 4 m .loadHead = some (tryPop C m) := by
  by_cases heq : m.head = m.tail <;> simp [runAlone, popStep, tryPop, heq]

/-- The loads of an introspection call, taken without interruption, are `query`, whichever of the
two comes first. -/
lemma query_alone (C : Capacity) (m : Memory T) (q : Query) :
    runAlone (fun m pc => (m, queryStep C m pc)) 2 m (.firstLoad q) = some (m, query C m q) := by
  rcases q with _ | _ | _ <;> rfl

/-- A call of `try_push` that is not interrupted does to the queue what a bounded queue does. -/
lemma Stores.tryPush (h : Stores C m n q) (item : T) :
    Stores C (tryPush C m item).1 n (BoundedQueue.offer (C.val - 1) q item).1 ∧
      (tryPush C m item).2 = (BoundedQueue.offer (C.val - 1) q item).2 := by
  by_cases heq : increment C m.tail = m.head
  · rw [RingBuffer.tryPush, if_pos heq, BoundedQueue.offer, if_pos (h.full_iff.mp heq)]
    exact ⟨h, rfl⟩
  · have hne : q.length ≠ C.val - 1 := fun hlen => heq (h.full_iff.mpr hlen)
    rw [RingBuffer.tryPush, if_neg heq, BoundedQueue.offer, if_neg hne]
    have hroom := h.room
    exact ⟨(h.write item).push (Function.update_self ..) (by omega), rfl⟩

/-- A call of `try_pop` that is not interrupted does to the queue what a bounded queue does. -/
lemma Stores.tryPop (h : Stores C m n q) :
    (∃ n', Stores C (tryPop C m).1 n' (BoundedQueue.poll q).1) ∧
      (tryPop C m).2 = (BoundedQueue.poll q).2 := by
  cases q with
  | nil =>
    rw [RingBuffer.tryPop, if_pos (h.empty_iff.mpr rfl)]
    exact ⟨⟨n, h⟩, rfl⟩
  | cons item rest =>
    have hne : m.head ≠ m.tail := fun heq => List.cons_ne_nil _ _ (h.empty_iff.mp heq)
    rw [RingBuffer.tryPop, if_neg hne]
    exact ⟨⟨n + 1, h.pop⟩, congrArg some h.front⟩

/-- The introspection calls, not interrupted, say how many items the queue has. -/
lemma Stores.query (h : Stores C m n q) :
    (∀ order, query C m (.empty order) = .isEmpty (decide (q = []))) ∧
      query C m .sizeApprox = .size q.length := by
  refine ⟨fun order => ?_, ?_⟩
  · rw [RingBuffer.query, decide_eq_decide.mpr h.empty_iff]
  · rw [RingBuffer.query, h.head, h.tail, sizeOf_counts C (Nat.le_add_right ..),
      Nat.add_sub_cancel_left, Nat.mod_eq_of_lt h.room]

/-! ## Sequences of calls -/

/-- A whole call: the memory it leaves and its reply. -/
def call (C : Capacity) (m : Memory T) : BoundedQueue.Call T → Memory T × BoundedQueue.Reply T
  | .offer item => ((tryPush C m item).1, .offered (tryPush C m item).2)
  | .poll => ((tryPop C m).1, .polled (tryPop C m).2)
  | .size =>
    match query C m .sizeApprox with
    | .size k => (m, .size k)
    | .isEmpty b => (m, .isEmpty b)
  | .isEmpty =>
    match query C m (.empty .headFirst) with
    | .size k => (m, .size k)
    | .isEmpty b => (m, .isEmpty b)

/-- Calls made one after the other by one thread: the memory they leave and their replies. -/
def callAll (C : Capacity) (m : Memory T) :
    List (BoundedQueue.Call T) → Memory T × List (BoundedQueue.Reply T)
  | [] => (m, [])
  | c :: calls =>
    let (m', reply) := call C m c
    let (m'', replies) := callAll C m' calls
    (m'', reply :: replies)

/-- A whole call replies as the bounded queue does, and leaves the queue that it leaves.

**Proof sketch.** By cases on the call; each has its own lemma. -/
lemma Stores.call (h : Stores C m n q) (c : BoundedQueue.Call T) :
    (∃ n', Stores C (call C m c).1 n' (BoundedQueue.call (C.val - 1) q c).1) ∧
      (call C m c).2 = (BoundedQueue.call (C.val - 1) q c).2 := by
  cases c with
  | offer item =>
    obtain ⟨hstores, hreply⟩ := h.tryPush item
    exact ⟨⟨n, hstores⟩, congrArg _ hreply⟩
  | poll =>
    obtain ⟨hstores, hreply⟩ := h.tryPop
    exact ⟨hstores, congrArg _ hreply⟩
  | size =>
    simp only [RingBuffer.call, h.query.2]
    exact ⟨⟨n, h⟩, rfl⟩
  | isEmpty =>
    simp only [RingBuffer.call, h.query.1]
    exact ⟨⟨n, h⟩, rfl⟩

/-- A sequence of calls replies as on the bounded queue, and leaves the queue that it leaves. -/
lemma Stores.callAll (h : Stores C m n q) (calls : List (BoundedQueue.Call T)) :
    (∃ n', Stores C (callAll C m calls).1 n' (BoundedQueue.callAll (C.val - 1) q calls).1) ∧
      (callAll C m calls).2 = (BoundedQueue.callAll (C.val - 1) q calls).2 := by
  induction calls generalizing m n q with
  | nil => exact ⟨⟨n, h⟩, rfl⟩
  | cons c calls ih =>
    obtain ⟨⟨n', hstores⟩, hreply⟩ := h.call c
    obtain ⟨hstores', hreplies⟩ := ih hstores
    exact ⟨hstores', congrArg₂ _ hreply hreplies⟩

/-- **A ring buffer used by one thread is a bounded queue.** However many calls of `try_push`,
`try_pop`, `size_approx` and `empty` are made one after the other, over any number of laps, each
replies as the same call does on an abstract queue with `Capacity - 1` places. So whatever was
called before, a batch of pushes that fits beside the items left is taken, and as many pops
return the items left and then the batch, in order.

**Proof sketch.** Induction on the calls, by `Stores.call`; the batch is two goes of calls of the
abstract queue, `BoundedQueue.callAll_offers` and `BoundedQueue.callAll_polls`. -/
theorem sequential_calls (C : Capacity) (T : Type) [Inhabited T]
    (calls : List (BoundedQueue.Call T)) :
    (callAll C (Memory.init T) calls).2 = (BoundedQueue.callAll (C.val - 1) [] calls).2 ∧
      ∀ xs : List T,
        let q := (BoundedQueue.callAll (C.val - 1) [] calls).1
        q.length + xs.length ≤ C.val - 1 →
        (callAll C (callAll C (Memory.init T) calls).1
            (xs.map .offer ++ List.replicate (q ++ xs).length .poll)).2 =
          List.replicate xs.length (.offered true) ++ (q ++ xs).map fun x => .polled (some x) := by
  obtain ⟨⟨n, hstores⟩, hreplies⟩ := (stores_init C).callAll calls
  refine ⟨hreplies, ?_⟩
  intro xs q hfits
  have hpolls := BoundedQueue.callAll_polls (C.val - 1) (q ++ xs) []
  rw [List.append_nil] at hpolls
  rw [(hstores.callAll _).2, BoundedQueue.callAll_append, BoundedQueue.callAll_offers xs hfits,
    hpolls]

/-- Three items pushed into four slots and two popped; then two more are pushed, over the end of
the buffer, and all three are popped. -/
theorem sequential_calls_example :
    (callAll fourSlots (callAll fourSlots (Memory.init ℕ)
        [.offer 1, .offer 2, .offer 3, .offer 4, .poll, .poll]).1
        ([4, 5].map .offer ++ List.replicate 3 .poll)).2 =
      [.offered true, .offered true, .polled (some 3), .polled (some 4), .polled (some 5)] :=
  (sequential_calls fourSlots ℕ [.offer 1, .offer 2, .offer 3, .offer 4, .poll, .poll]).2 [4, 5]
    (by decide)

end NullRing.RingBuffer
