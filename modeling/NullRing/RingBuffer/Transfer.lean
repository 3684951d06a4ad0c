import NullRing.RingBuffer.Calls
import NullRing.Transition.Rounds

set_option relaxedAutoImplicit false
set_option autoImplicit false

/-!
# Two threads that hand a sequence over

The way a ring buffer is used: one thread pushes the items of a sequence one after the other,
trying each again until `try_push` takes it, and another pops until it has counted as many. The
programs are those of `test_ring_spsc_concurrent`, where the consumer also compares each item with
the number it expects and stops at the first that differs, and of `bench_end_to_end`, where it
compares nothing. The two loops only spin, so that they end is a matter of progress: while the
buffer is empty the producer gets an item in whatever the consumer does, and while it is not the
consumer gets one out.

## Main definitions

* `RingBuffer.Transfer.Job` — the items, and what the consumer compares them with.
* `RingBuffer.Transfer.system` — the two threads.
* `RingBuffer.Transfer.Inv` — the invariant.

## Main results

* `RingBuffer.Transfer.transfer_in_order` — the consumer receives the items in order.
* `RingBuffer.Transfer.transfer_completes` — both loops end, in a number of rounds that is linear
  in the number of items.
-/

namespace NullRing.RingBuffer.Transfer

open Transition

/-- What is handed over. The consumer's comparison holds of the items themselves. -/
structure Job (T : Type) where
  items : List T
  /-- Whether the consumer goes on when the item it pops after `expected` others is this one. -/
  expects : ℕ → T → Bool
  expects_items : ∀ (i : ℕ) (h : i < items.length), expects i items[i] = true

/-- The job of `test_ring_spsc_concurrent`: the numbers below `n`, each compared with the number
of items before it. -/
def concurrentTest (n : ℕ) : Job ℕ where
  items := List.range n
  expects expected val := val == expected
  expects_items i h := by simp

variable {T : Type}

/-- What the producer thread is doing. -/
inductive ProducerPc (T : Type)
  /-- In `try_push` of item `i`. -/
  | pushing (i : ℕ) (pc : PushPc T)
  | finished
  deriving DecidableEq, Repr

/-- What the consumer thread is doing. -/
inductive ConsumerPc (T : Type)
  | popping (pc : PopPc T)
  | finished
  deriving DecidableEq, Repr

/-- A ring buffer, the two threads, and the counters of the consumer. -/
structure State (T : Type) where
  mem : Memory T
  producer : ProducerPc T
  consumer : ConsumerPc T
  /-- `expected`, or `count`: how many items were popped. -/
  expected : ℕ
  /-- `order_ok`. -/
  orderOk : Bool

/-- The two threads. -/
inductive Side
  | producer
  | consumer
  deriving DecidableEq, Repr

/-- The head of the producer's loop over the items: `try_push` of item `i`, if there is one. -/
def producerAt (job : Job T) (i : ℕ) : ProducerPc T :=
  match job.items[i]? with
  | some item => .pushing i (.loadTail item)
  | none => .finished

/-- The head of the consumer's loop. -/
def consumerAt (job : Job T) (expected : ℕ) : ConsumerPc T :=
  if expected < job.items.length then .popping .loadHead else .finished

/-- What the producer does after a step of `try_push` of item `i`: it tries an item again until it
is taken. -/
def afterPush (job : Job T) (i : ℕ) : Outcome (PushPc T) Bool → ProducerPc T
  | .next pc => .pushing i pc
  | .ret true => producerAt job (i + 1)
  | .ret false => producerAt job i

/-- What the consumer does after a step of `try_pop`: it counts the item that it expects, and
stops at another. -/
def afterPop (job : Job T) (s : State T) :
    Outcome (PopPc T) (Option T) → State T × List T
  | .next pc => ({ s with consumer := .popping pc }, [])
  | .ret none => ({ s with consumer := consumerAt job s.expected }, [])
  | .ret (some item) =>
    if job.expects s.expected item then
      ({ s with consumer := consumerAt job (s.expected + 1), expected := s.expected + 1 }, [item])
    else ({ s with consumer := .finished, orderOk := false }, [item])

/-- A step of one of the threads; the items popped are its events. -/
def step (C : Capacity) (job : Job T) (s : State T) : Side → Option (State T × List T)
  | .producer =>
    match s.producer with
    | .finished => none
    | .pushing i pc =>
      let (m, out) := pushStep C s.mem pc
      some ({ s with mem := m, producer := afterPush job i out }, [])
  | .consumer =>
    match s.consumer with
    | .finished => none
    | .popping pc =>
      let (m, out) := popStep C s.mem pc
      some (afterPop job { s with mem := m } out)

/-- The two threads on a ring buffer as constructed. -/
def system (C : Capacity) [Inhabited T] (job : Job T) : System (State T) Side T where
  init := ⟨Memory.init T, producerAt job 0, consumerAt job 0, 0, true⟩
  step := step C job

/-- How many items the producer has had taken. -/
def State.sent (job : Job T) (s : State T) : ℕ :=
  match s.producer with
  | .pushing i _ => i
  | .finished => job.items.length

/-- How many items are still to be taken by `try_push`, and to be popped. -/
def left (job : Job T) (s : State T) : ℕ :=
  (job.items.length - s.sent job) + (job.items.length - s.expected)

/-- How many steps the producer needs to have the next item taken, if it finds room. -/
def ProducerPc.toGo : ProducerPc T → ℕ
  | .pushing _ pc => pc.toGo
  | .finished => 0

/-- How many steps the consumer needs to pop the next item, if it finds one. -/
def ConsumerPc.toGo : ConsumerPc T → ℕ
  | .popping pc => pc.toGo
  | .finished => 0

variable {C : Capacity} {job : Job T} {s s' : State T} {es out q : List T} {a : Side}

/-! ## The invariant -/

/-- The producer tries to push the item it counts. -/
def ProducerPc.Ok (C : Capacity) (job : Job T) (m : Memory T) (q : List T) :
    ProducerPc T → Prop
  | .pushing i pc => job.items[i]? = some pc.item ∧ PushOk C m q pc
  | .finished => True

/-- The consumer pops as long as it has not counted all items. -/
def ConsumerPc.Ok (job : Job T) (m : Memory T) (q : List T) (expected : ℕ) :
    ConsumerPc T → Prop
  | .popping pc => expected < job.items.length ∧ PopOk m q pc
  | .finished => expected = job.items.length

/-- The invariant: after the items `es` were popped the ring holds the queue `q`, and together
they are the items that the producer has had taken. -/
structure Inv (C : Capacity) (job : Job T) (es q : List T) (s : State T) : Prop where
  stores : ∃ n, Stores C s.mem n q
  producer : s.producer.Ok C job s.mem q
  consumer : s.consumer.Ok job s.mem q s.expected
  taken : es ++ q = job.items.take (s.sent job)
  sent_le : s.sent job ≤ job.items.length
  expected : s.expected = es.length
  orderOk : s.orderOk = true

/-- The producer comes to the head of its loop with `i` items taken. -/
lemma producerAt_spec (job : Job T) {i : ℕ} (hi : i ≤ job.items.length) (C : Capacity)
    (m : Memory T) (q : List T) :
    (producerAt job i).Ok C job m q ∧
      ∀ s : State T, s.producer = producerAt job i → s.sent job = i := by
  unfold producerAt
  cases hget : job.items[i]? with
  | none =>
    have := List.getElem?_eq_none_iff.mp hget
    exact ⟨trivial, fun s hs => by rw [State.sent, hs]; show job.items.length = i; omega⟩
  | some item => exact ⟨⟨hget, trivial⟩, fun s hs => by rw [State.sent, hs]⟩

/-- The consumer comes to the head of its loop. -/
lemma consumerAt_ok {k : ℕ} (hk : k ≤ job.items.length) (m : Memory T) (q : List T) :
    (consumerAt job k).Ok job m q k := by
  unfold consumerAt
  split
  case isTrue hlt => exact ⟨hlt, trivial⟩
  case isFalse hge => exact Nat.le_antisymm hk (by omega)

/-- A step of one side that leaves the queue leaves the other side as well, and brings its own
side nearer to the next item if that is the side that the queue waits for. -/
def Advances (q : List T) (s s' : State T) : Side → Prop
  | .producer =>
    s'.consumer = s.consumer ∧ (q = [] → s'.producer.toGo + 1 = s.producer.toGo)
  | .consumer =>
    s'.producer = s.producer ∧ (q ≠ [] → s'.consumer.toGo + 1 = s.consumer.toGo)

namespace Inv

/-- The items popped and those in the ring are those taken. -/
lemma length_eq (h : Inv C job es q s) : s.expected + q.length = s.sent job := by
  have := congrArg List.length h.taken
  rw [List.length_append, List.length_take, Nat.min_eq_left h.sent_le] at this
  rw [h.expected, this]

/-- The items popped are the first of the items. -/
lemma popped_eq (h : Inv C job es q s) : es = job.items.take s.expected := by
  have hlen := h.length_eq
  have htake := congrArg (List.take es.length) h.taken
  rw [List.take_left, List.take_take, ← h.expected, Nat.min_eq_left (by omega)] at htake
  exact htake

/-- The item in front is the one that the consumer expects. -/
lemma front_eq {item : T} {rest : List T} (h : Inv C job es (item :: rest) s) :
    s.expected < job.items.length ∧ job.expects s.expected item = true := by
  have hlen := h.length_eq
  have hsent := h.sent_le
  rw [List.length_cons] at hlen
  have hlt : s.expected < job.items.length := by omega
  have hget := congrArg (fun l => l[s.expected]?) h.taken
  rw [List.getElem?_take_of_lt (by omega), h.expected, List.getElem?_append_right (Nat.le_refl _),
    Nat.sub_self, List.getElem?_cons_zero, ← h.expected, List.getElem?_eq_getElem hlt] at hget
  refine ⟨hlt, ?_⟩
  rw [Option.some.inj hget]
  exact job.expects_items _ hlt

/-- A producer that has had all items taken has finished. -/
lemma producer_finished (h : Inv C job es q s) (hall : s.sent job = job.items.length) :
    s.producer = .finished := by
  cases hp : s.producer with
  | finished => rfl
  | pushing i pc =>
    have hproducer := h.producer
    rw [hp] at hproducer
    have hi := (List.getElem?_eq_some_iff.mp hproducer.1).1
    rw [State.sent, hp] at hall
    simp only at hall
    omega

/-- When the consumer has finished all items were popped and the producer has finished as well. -/
lemma all_popped (h : Inv C job es q s) (hfinished : s.consumer = .finished) :
    es = job.items ∧ s.producer = .finished ∧ s.mem.head = s.mem.tail := by
  obtain ⟨n, hstores⟩ := h.stores
  have hlen := h.length_eq
  have hsent := h.sent_le
  have hall : s.expected = job.items.length := by
    have hconsumer := h.consumer
    rwa [hfinished] at hconsumer
  refine ⟨?_, h.producer_finished (by omega),
    hstores.empty_iff.mpr (List.length_eq_zero_iff.mp (by omega))⟩
  rw [h.popped_eq, hall, List.take_length]

/-- A step of the producer keeps the invariant. It has an item taken, or leaves the queue; and if
the queue is empty it is then one step nearer to having an item taken.

**Proof sketch.** By what the step of `try_push` leads to (`pushStep_leads`). An inner step brings
the call nearer to its return; a refusal sends the producer to the same item again, and does not
happen with an empty queue; a success appends the item, and one item less is left to be sent. The
consumer relies on the front of the queue, which stays. -/
lemma push (h : Inv C job es q s) {i : ℕ} {pc : PushPc T} (hpc : s.producer = .pushing i pc)
    (hs' : s' = { s with
      mem := (pushStep C s.mem pc).1, producer := afterPush job i (pushStep C s.mem pc).2 }) :
    ∃ q', Inv C job es q' s' ∧ (left job s' + 1 = left job s ∨
      q' = q ∧ left job s' = left job s ∧ Advances q s s' .producer) := by
  obtain ⟨⟨n, hstores⟩, hproducer, hconsumer, htaken, hsent, hexpected, horder⟩ := h
  rw [hpc] at hproducer
  obtain ⟨hget, hok⟩ := hproducer
  have hi : i < job.items.length := (List.getElem?_eq_some_iff.mp hget).1
  have hsent_eq : s.sent job = i := by rw [State.sent, hpc]
  rw [hsent_eq] at htaken
  -- what the consumer relies on is kept by whatever the step does to the queue
  have hkeep : ∀ {m' : Memory T} {q' : List T}, (∀ p, PopOk s.mem q p → PopOk m' q' p) →
      s.consumer.Ok job m' q' s.expected := by
    intro m' q' hmono
    cases hc : s.consumer with
    | popping pc =>
      rw [hc] at hconsumer
      exact ⟨hconsumer.1, hmono _ hconsumer.2⟩
    | finished => rwa [hc] at hconsumer
  have hleads := pushStep_leads hstores hok
  generalize pushStep C s.mem pc = r at hleads hs'
  subst hs'
  cases hleads with
  | next hitem htoGo hstores' hok' hmono =>
    refine ⟨q, ⟨⟨n, hstores'⟩, ⟨by rw [hitem]; exact hget, hok'⟩, hkeep hmono, htaken,
      Nat.le_of_lt hi, hexpected, horder⟩, Or.inr ⟨rfl, ?_, rfl, fun _ => ?_⟩⟩
    · rw [left, left, hsent_eq]
      rfl
    · rw [hpc]
      exact htoGo
  | full hfull =>
    obtain ⟨hok', hsent'⟩ := producerAt_spec job (Nat.le_of_lt hi) C s.mem q
    refine ⟨q, ⟨⟨n, hstores⟩, hok', hkeep fun _ hp => hp, ?_, ?_, hexpected, horder⟩,
      Or.inr ⟨rfl, ?_, rfl, fun hnil => ?_⟩⟩
    · rw [hsent' _ rfl]; exact htaken
    · rw [hsent' _ rfl]; exact Nat.le_of_lt hi
    · rw [left, left, hsent' _ rfl, hsent_eq]
    · -- a full queue is not empty
      have := C.one_lt
      rw [hnil, List.length_nil] at hfull
      omega
  | @done m' _ _ hstores' hmono =>
    obtain ⟨hok', hsent'⟩ := producerAt_spec job (i := i + 1) hi C m' (q ++ [pc.item])
    refine ⟨q ++ [pc.item], ⟨⟨n, hstores'⟩, hok', hkeep hmono, ?_, ?_, hexpected, horder⟩,
      Or.inl ?_⟩
    · rw [hsent' _ rfl, List.take_add_one, hget, ← List.append_assoc, htaken]
      rfl
    · rw [hsent' _ rfl]; exact hi
    · rw [left, left, hsent' _ rfl, hsent_eq]
      show job.items.length - (i + 1) + (job.items.length - s.expected) + 1 = _
      omega

/-- A step of the consumer keeps the invariant. It pops an item, or leaves the queue; and if the
queue is not empty it is then one step nearer to popping an item.

**Proof sketch.** By what the step of `try_pop` leads to (`popStep_leads`). An inner step brings the
call nearer to its return; an empty answer does not happen with an item in the queue; a success
takes the front, which is the item expected next, so that the check succeeds and one item less is
left to be received. -/
lemma pop (h : Inv C job es q s) {pc : PopPc T} (hpc : s.consumer = .popping pc)
    (hs' : (s', out) =
      afterPop job { s with mem := (popStep C s.mem pc).1 } (popStep C s.mem pc).2) :
    ∃ q', Inv C job (es ++ out) q' s' ∧ (left job s' + 1 = left job s ∨
      q' = q ∧ left job s' = left job s ∧ Advances q s s' .consumer) := by
  have hfront := fun (item : T) (rest : List T) (hq : q = item :: rest) => (hq ▸ h).front_eq
  obtain ⟨⟨n, hstores⟩, hproducer, hconsumer, htaken, hsent, hexpected, horder⟩ := h
  rw [hpc] at hconsumer
  obtain ⟨hlt, hok⟩ := hconsumer
  have hleads := popStep_leads hstores hok
  generalize popStep C s.mem pc = r at hleads hs'
  cases hleads with
  | next htoGo hok' =>
    obtain ⟨rfl, rfl⟩ := Prod.mk.inj hs'
    rw [List.append_nil]
    refine ⟨q, ⟨⟨n, hstores⟩, hproducer, ⟨hlt, hok'⟩, htaken, hsent, hexpected, horder⟩,
      Or.inr ⟨rfl, rfl, rfl, fun _ => ?_⟩⟩
    rw [hpc]
    exact htoGo
  | empty hnil =>
    obtain ⟨rfl, rfl⟩ := Prod.mk.inj hs'
    rw [List.append_nil]
    exact ⟨q, ⟨⟨n, hstores⟩, hproducer, consumerAt_ok (Nat.le_of_lt hlt) _ _, htaken, hsent,
      hexpected, horder⟩, Or.inr ⟨rfl, rfl, rfl, fun hne => absurd hnil hne⟩⟩
  | @done m' item rest _ hq hstores' hmono =>
    obtain ⟨-, hexpects⟩ := hfront item rest hq
    subst hq
    rw [afterPop, if_pos hexpects] at hs'
    obtain ⟨rfl, rfl⟩ := Prod.mk.inj hs'
    refine ⟨rest, ⟨⟨n + 1, hstores'⟩, ?_, consumerAt_ok hlt _ _, ?_, hsent, ?_, horder⟩,
      Or.inl ?_⟩
    · show s.producer.Ok C job m' rest
      cases hp : s.producer with
      | pushing i pc =>
        rw [hp] at hproducer
        exact ⟨hproducer.1, hmono _ hproducer.2⟩
      | finished => trivial
    · rw [List.append_assoc, List.singleton_append]
      exact htaken
    · rw [List.length_append, List.length_singleton, ← hexpected]
    · show job.items.length - s.sent job + (job.items.length - (s.expected + 1)) + 1 =
        job.items.length - s.sent job + (job.items.length - s.expected)
      omega

/-- **The step lemma.**

**Proof sketch.** The two threads' steps are `push` and `pop`. -/
theorem step (h : Inv C job es q s) (hs : Transfer.step C job s a = some (s', out)) :
    ∃ q', Inv C job (es ++ out) q' s' ∧ (left job s' + 1 = left job s ∨
      q' = q ∧ left job s' = left job s ∧ Advances q s s' a) := by
  cases a with
  | producer =>
    simp only [Transfer.step] at hs
    split at hs
    case h_1 => cases hs
    case h_2 i pc hpc =>
      obtain ⟨rfl, rfl⟩ := Prod.mk.inj (Option.some.inj hs)
      rw [List.append_nil]
      exact h.push hpc rfl
  | consumer =>
    simp only [Transfer.step] at hs
    split at hs
    case h_1 => cases hs
    case h_2 pc hpc => exact h.pop hpc (Option.some.inj hs).symm

end Inv

/-- The invariant holds at the start. -/
lemma inv_init (C : Capacity) [Inhabited T] (job : Job T) :
    Inv C job [] [] (system C job).init := by
  obtain ⟨hok, hsent⟩ := producerAt_spec job (Nat.zero_le _) C (Memory.init T) []
  have hzero : (system C job).init.sent job = 0 := hsent _ rfl
  exact {
    stores := ⟨0, stores_init C⟩
    producer := hok
    consumer := consumerAt_ok (Nat.zero_le _) _ _
    taken := by rw [hzero]; rfl
    sent_le := by rw [hzero]; exact Nat.zero_le _
    expected := rfl
    orderOk := rfl }

/-- The invariant holds in every run. -/
lemma inv_of_run [Inhabited T]
    (h : (system C job).Run System.anyStep (system C job).init es s) : ∃ q, Inv C job es q s :=
  h.invariant (I := fun es s => ∃ q, Inv C job es q s) ⟨[], inv_init C job⟩
    fun _ _ _ _ _ ⟨_, hI⟩ _ hs => (hI.step hs).imp fun _ => And.left

/-- **The consumer receives the items in order**, whatever the interleaving, the capacity and the
number of items: those popped are the first of the items, the comparison never fails, the producer
is ahead by what the buffer can hold at most, and when the consumer has finished all items were
popped, the producer has finished as well, and the buffer is empty.

**Proof sketch.** `Inv` holds in every run. The items popped and those in the ring are those that
the producer has had taken, so the item in front is always the one expected. -/
theorem transfer_in_order [Inhabited T]
    (h : (system C job).Run System.anyStep (system C job).init es s) :
    es = job.items.take s.expected ∧ s.orderOk = true ∧ s.expected ≤ s.sent job ∧
      s.sent job ≤ s.expected + (C.val - 1) ∧ s.sent job ≤ job.items.length ∧
      (s.consumer = .finished → es = job.items ∧ s.producer = .finished ∧
        s.mem.head = s.mem.tail) := by
  obtain ⟨q, hinv⟩ := inv_of_run h
  obtain ⟨n, hstores⟩ := hinv.stores
  have hlen := hinv.length_eq
  have hroom := hstores.room
  have hsent := hinv.sent_le
  exact ⟨hinv.popped_eq, hinv.orderOk, by omega, by omega, hsent, hinv.all_popped⟩

/-- The producer fills three of four slots and tries a fourth item in vain; the consumer pops. -/
def fullThenPop : List Side :=
  List.replicate 14 .producer ++ List.replicate 4 .consumer ++ List.replicate 4 .producer

/-- A run in which the producer finds the buffer full: the first item is received, and four are
sent. -/
theorem transfer_in_order_example :
    ∃ s, (system fourSlots (concurrentTest 5)).Run System.anyStep
        (system fourSlots (concurrentTest 5)).init [0] s ∧
      s.orderOk = true ∧ s.sent (concurrentTest 5) = 4 := by
  have h : ((system fourSlots (concurrentTest 5)).exec System.anyStep
      (system fourSlots (concurrentTest 5)).init fullThenPop).map
        (fun r => (r.1.sent (concurrentTest 5), r.2)) = some (4, [0]) := by rfl
  obtain ⟨s, es, hrun, hv⟩ := System.exists_run_of_exec h
  obtain ⟨hsent, rfl⟩ := Prod.mk.inj hv
  exact ⟨s, hrun, (transfer_in_order hrun).2.1, hsent⟩

/-! ## The loops end -/

/-- The side that the queue waits for: the producer while the buffer is empty, the consumer while
it is not. -/
def helper (s : State T) : Side := if s.mem.head = s.mem.tail then .producer else .consumer

/-- The measure: the items left, and the steps that the side the queue waits for needs for the
next of them. -/
def rank (job : Job T) (s : State T) : ℕ :=
  4 * left job s + match helper s with
    | .producer => s.producer.toGo
    | .consumer => s.consumer.toGo

namespace Inv

/-- While the buffer is empty the queue waits for the producer, which is at work as long as an
item is left.

**Proof sketch.** The indices are equal, so the helper is the producer. All items sent have been
received, so items are left exactly if the producer has one to send, and then it is inside
`try_push`. -/
lemma rank_nil (h : Inv C job es [] s) :
    helper s = .producer ∧ rank job s = 4 * left job s + s.producer.toGo ∧
      s.producer.toGo ≤ 4 ∧ (0 < left job s ↔ 0 < s.producer.toGo) := by
  obtain ⟨n, hstores⟩ := h.stores
  have hhelper : helper s = .producer := if_pos (hstores.empty_iff.mpr rfl)
  have hlen := h.length_eq
  rw [List.length_nil, Nat.add_zero] at hlen
  refine ⟨hhelper, by rw [rank, hhelper], ?_⟩
  cases hp : s.producer with
  | finished =>
    rw [State.sent, hp] at hlen
    simp only at hlen
    exact ⟨Nat.zero_le _, by simp [left, State.sent, hp, hlen, ProducerPc.toGo]⟩
  | pushing i pc =>
    have hproducer := h.producer
    rw [hp] at hproducer
    have hi := (List.getElem?_eq_some_iff.mp hproducer.1).1
    have hbounds := PushPc.toGo_bounds pc
    refine ⟨hbounds.2, fun _ => hbounds.1, fun _ => ?_⟩
    rw [left, State.sent, hp]
    show 0 < job.items.length - i + _
    omega

/-- While the buffer holds an item the queue waits for the consumer, which is at work.

**Proof sketch.** The indices differ, so the helper is the consumer. An item sent and not received
is left, so the consumer has not finished and is inside `try_pop`. -/
lemma rank_cons (h : Inv C job es q s) (hq : q ≠ []) :
    helper s = .consumer ∧ rank job s = 4 * left job s + s.consumer.toGo ∧
      s.consumer.toGo ≤ 4 ∧ 0 < left job s ∧ 0 < s.consumer.toGo := by
  obtain ⟨n, hstores⟩ := h.stores
  have hhelper : helper s = .consumer := if_neg fun heq => hq (hstores.empty_iff.mp heq)
  have hlen := h.length_eq
  have hsent := h.sent_le
  have hpos := List.length_pos_iff.mpr hq
  have hleft : 0 < left job s := by rw [left]; omega
  refine ⟨hhelper, by rw [rank, hhelper], ?_⟩
  have hconsumer := h.consumer
  cases hc : s.consumer with
  | finished =>
    rw [hc] at hconsumer
    have hall : s.expected = job.items.length := hconsumer
    omega
  | popping pc =>
    have hbounds := PopPc.toGo_bounds pc
    exact ⟨hbounds.2, hleft, hbounds.1⟩

/-- The measure in terms of the items left. -/
lemma rank_bounds (h : Inv C job es q s) :
    rank job s ≤ 4 * left job s + 4 ∧ (0 < left job s → 4 * left job s < rank job s) ∧
      (left job s = 0 → rank job s = 0) := by
  by_cases hq : q = []
  · subst hq
    obtain ⟨-, hrank, hle, hiff⟩ := h.rank_nil
    exact ⟨by omega, fun hpos => by have := hiff.mp hpos; omega, fun hzero => by omega⟩
  · obtain ⟨-, hrank, hle, hleft, hpos⟩ := h.rank_cons hq
    exact ⟨by omega, fun _ => by omega, fun hzero => by omega⟩

/-- When nothing is left both threads have finished.

**Proof sketch.** All items are sent, so the producer has finished; and a consumer inside `try_pop`
would expect another. -/
lemma finished (h : Inv C job es q s) (hleft : left job s = 0) :
    s.producer = .finished ∧ s.consumer = .finished := by
  have hsent := h.sent_le
  have hlen := h.length_eq
  rw [left] at hleft
  refine ⟨h.producer_finished (by omega), ?_⟩
  cases hc : s.consumer with
  | finished => rfl
  | popping pc =>
    have hconsumer := h.consumer
    rw [hc] at hconsumer
    have hlt := hconsumer.1
    omega

end Inv

/-- A producer with steps to take can take one. -/
lemma step_producer_isSome (h : 0 < s.producer.toGo) : (step C job s .producer).isSome := by
  cases hp : s.producer with
  | pushing i pc => simp only [step, hp, Option.isSome_some]
  | finished =>
    rw [hp] at h
    exact absurd h (Nat.lt_irrefl 0)

/-- A consumer with steps to take can take one. -/
lemma step_consumer_isSome (h : 0 < s.consumer.toGo) : (step C job s .consumer).isSome := by
  cases hc : s.consumer with
  | popping pc => simp only [step, hc, Option.isSome_some]
  | finished =>
    rw [hc] at h
    exact absurd h (Nat.lt_irrefl 0)

/-- **The two loops rank their states**: no step raises the measure, and the next step of the side
that the queue waits for lowers it.

**Proof sketch.** A step that has an item taken or pops one takes four off the items left, and the
steps needed for the next item are four at most. Any other step leaves the queue; if it is of the
side that the queue waits for, that side is nearer to its item by one step, and otherwise nothing
that the measure is made of has changed. -/
theorem ranking (C : Capacity) [Inhabited T] (job : Job T) :
    (system C job).Ranking System.anyStep some (fun s => ∃ es q, Inv C job es q s)
      (rank job) helper where
  keeps := fun ⟨_, _, hinv⟩ _ hs => by
    obtain ⟨q', hinv', -⟩ := hinv.step hs
    exact ⟨_, q', hinv'⟩
  step := by
    rintro s a s' out ⟨es, q, hinv⟩ - hs hpos
    obtain ⟨q', hinv', hless | ⟨rfl, hleft, hadvances⟩⟩ := hinv.step hs
    · have hbefore := hinv.rank_bounds
      have hafter := hinv'.rank_bounds
      have := hbefore.2.1 (by omega)
      exact Or.inl (by omega)
    · by_cases hq : q' = []
      · subst hq
        obtain ⟨hhelper, hrank, -, -⟩ := hinv.rank_nil
        obtain ⟨hhelper', hrank', -, -⟩ := hinv'.rank_nil
        cases a with
        | producer =>
          have := hadvances.2 rfl
          exact Or.inl (by omega)
        | consumer =>
          rw [hadvances.1, hleft] at hrank'
          refine Or.inr ⟨by omega, by rw [hhelper, hhelper'], ?_⟩
          rw [hhelper]
          nofun
      · obtain ⟨hhelper, hrank, -, -, -⟩ := hinv.rank_cons hq
        obtain ⟨hhelper', hrank', -, -, -⟩ := hinv'.rank_cons hq
        cases a with
        | producer =>
          rw [hadvances.1, hleft] at hrank'
          refine Or.inr ⟨by omega, by rw [hhelper, hhelper'], ?_⟩
          rw [hhelper]
          nofun
        | consumer =>
          have := hadvances.2 hq
          exact Or.inl (by omega)
  done := by
    rintro s a s' out ⟨es, q, hinv⟩ - hs hzero
    obtain ⟨q', hinv', hcases⟩ := hinv.step hs
    have hbefore := hinv.rank_bounds
    exact hinv'.rank_bounds.2.2 (by
      by_contra hne
      have := hbefore.2.1 (by omega)
      omega)
  canMove := by
    rintro s ⟨es, q, hinv⟩ hpos
    by_cases hq : q = []
    · subst hq
      obtain ⟨hhelper, hrank, -, hiff⟩ := hinv.rank_nil
      rw [hhelper]
      have hgo : 0 < s.producer.toGo := by
        by_contra hzero
        have hleft : ¬ 0 < left job s := fun h => hzero (hiff.mp h)
        omega
      exact System.canMove_of_isSome (a := .producer) rfl trivial (step_producer_isSome hgo)
    · obtain ⟨hhelper, -, -, -, hgo⟩ := hinv.rank_cons hq
      rw [hhelper]
      exact System.canMove_of_isSome (a := .consumer) rfl trivial (step_consumer_isSome hgo)

/-- **Both loops end.** After `8 n + 4` rounds, in each of which either thread takes a step unless
it has finished, both have finished and the consumer has received the `n` items in order; and from
every state that the threads can reach they can go on until both have finished.

**Proof sketch.** `ranking`: each round lowers the measure, which is `8 n + 4` at most at first,
and the measure is used up when nothing is left. -/
theorem transfer_completes [Inhabited T] :
    (∀ n tr s, (system C job).Rounds System.anyStep some (system C job).init n tr s →
      8 * job.items.length + 4 ≤ n →
      s.producer = .finished ∧ s.consumer = .finished ∧ System.events tr = job.items) ∧
    ∀ es s, (system C job).Run System.anyStep (system C job).init es s →
      ∃ tr s', (system C job).Trace System.anyStep s tr s' ∧
        s'.producer = .finished ∧ s'.consumer = .finished ∧ es ++ System.events tr = job.items := by
  have hend : ∀ {es q s}, Inv C job es q s → rank job s = 0 →
      s.producer = .finished ∧ s.consumer = .finished := by
    intro es q s hinv hzero
    refine hinv.finished ?_
    by_contra hne
    have := hinv.rank_bounds.2.1 (by omega)
    omega
  constructor
  · intro n tr s hrounds hn
    have hinit := inv_init C job
    obtain ⟨⟨es, q, hinv⟩, hle⟩ := (ranking C job).rounds hrounds ⟨[], [], hinit⟩
    have hrank : rank job (system C job).init ≤ 8 * job.items.length + 4 := by
      have hbound := hinit.rank_bounds.1
      have hleft : left job (system C job).init ≤ 2 * job.items.length := by
        rw [left]
        omega
      omega
    obtain ⟨hproducer, hconsumer⟩ := hend hinv (by omega)
    obtain ⟨q', hinv'⟩ := inv_of_run hrounds.trace.run
    exact ⟨hproducer, hconsumer, (hinv'.all_popped hconsumer).1⟩
  · intro es s hrun
    obtain ⟨q, hinv⟩ := inv_of_run hrun
    obtain ⟨tr, s', htr, ⟨es', q', hinv'⟩, hzero⟩ := (ranking C job).exists_trace ⟨es, q, hinv⟩
    obtain ⟨hproducer, hconsumer⟩ := hend hinv' hzero
    obtain ⟨q'', hinv''⟩ := inv_of_run (hrun.append htr.run)
    exact ⟨tr, s', htr, hproducer, hconsumer, (hinv''.all_popped hconsumer).1⟩

/-- Five numbers go through three places: the buffer fills up, the producer tries in vain, and
both threads end. -/
theorem transfer_completes_example :
    ∃ tr s, (system fourSlots (concurrentTest 5)).Trace System.anyStep
        (system fourSlots (concurrentTest 5)).init tr s ∧
      s.producer = .finished ∧ s.consumer = .finished ∧ System.events tr = [0, 1, 2, 3, 4] := by
  have hall : ∀ t, t ∈ [Side.producer, Side.consumer] := by
    intro t
    cases t <;> simp
  obtain ⟨tr, s, hrounds⟩ := System.exists_rounds (system fourSlots (concurrentTest 5))
    System.anyStep some hall (system fourSlots (concurrentTest 5)).init 44
  obtain ⟨hproducer, hconsumer, hevents⟩ := transfer_completes.1 44 tr s hrounds (by decide)
  exact ⟨tr, s, hrounds.trace, hproducer, hconsumer, hevents⟩

end NullRing.RingBuffer.Transfer
