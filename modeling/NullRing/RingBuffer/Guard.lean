import NullRing.RingBuffer.Introspection

set_option relaxedAutoImplicit false
set_option autoImplicit false

/-!
# Introspection by an owning thread

The producer owns `tail_` and the consumer owns `head_`, so of the two loads of an introspection
call by one of them the load of its own index is not disturbed: the answer is an exact count, at
the load of the other side's index. From then on the other side can only move the count one way,
until the thread that asked stores its own index: a producer that was told of a free slot keeps
it, a consumer that was told of an element keeps it.

## Main definitions

* `RingBuffer.pushReturn`, `RingBuffer.popReturn` — what a step returns from `try_push`, or from
  `try_pop`.
* `RingBuffer.ProducerGuard`, `RingBuffer.ConsumerGuard` — what an answer is good for.

## Main results

* `RingBuffer.try_push_returns`, `RingBuffer.try_pop_returns` — both calls are wait-free.
* `RingBuffer.introspection_guards` — the answers of the owning threads.
-/

namespace NullRing.RingBuffer

open Transition

variable {T : Type} {C : Capacity} {s s' : State T} {tr : Steps T}
  {e : Taken (State T) (Action T) (Event T)}

/-! ## Returns -/

/-- What a step returns from `try_push`, if it returns. -/
def pushReturn (C : Capacity) (e : Taken (State T) (Action T) (Event T)) : Option Bool :=
  match e.act, e.pre.producer with
  | .step .producer, .pushing pc =>
    match (pushStep C e.pre.mem pc).2 with
    | .next _ => none
    | .ret r => some r
  | _, _ => none

/-- What a step returns from `try_pop`, if it returns. -/
def popReturn (C : Capacity) (e : Taken (State T) (Action T) (Event T)) : Option (Option T) :=
  match e.act, e.pre.consumer with
  | .step .consumer, .popping pc =>
    match (popStep C e.pre.mem pc).2 with
    | .next _ => none
    | .ret r => some r
  | _, _ => none

/-- Only a step of the producer returns from `try_push`. -/
lemma pushReturn_of_caller (h : e.act.caller ≠ .producer) : pushReturn C e = none := by
  unfold pushReturn
  split
  case h_1 hact _ => exact absurd (by rw [hact]; rfl) h
  case h_2 => rfl

/-- Only a step of the consumer returns from `try_pop`. -/
lemma popReturn_of_caller (h : e.act.caller ≠ .consumer) : popReturn C e = none := by
  unfold popReturn
  split
  case h_1 hact _ => exact absurd (by rw [hact]; rfl) h
  case h_2 => rfl

/-- A step of an introspection call of the producer returns nothing from `try_push`. -/
lemma pushReturn_of_query {pc : QueryPc} (h : e.pre.query .producer = some pc) :
    pushReturn C e = none := by
  unfold pushReturn
  split
  case h_1 hpc =>
    simp only [State.query, hpc] at h
    cases h
  case h_2 => rfl

/-- A step of an introspection call of the consumer returns nothing from `try_pop`. -/
lemma popReturn_of_query {pc : QueryPc} (h : e.pre.query .consumer = some pc) :
    popReturn C e = none := by
  unfold popReturn
  split
  case h_1 hpc =>
    simp only [State.query, hpc] at h
    cases h
  case h_2 => rfl

/-- `tail_` is stored only by a step that returns from `try_push`.

**Proof sketch.** A step of `try_push` that does not return shows nothing, a step of an
introspection call shows its answer only, a call shows nothing, and the other threads store no
tail. -/
lemma pushed_of_pushReturn (h : step C e.pre e.act = some (e.post, e.out))
    (hnone : pushReturn C e = none) : pushed e.out = 0 := by
  obtain ⟨s, a, out, s'⟩ := e
  by_cases ha : a = .step .producer
  · subst ha
    simp only [step, producerStep] at h
    split at h
    case h_1 => cases h
    case h_2 pc hpc =>
      cases h
      simp only [pushReturn, hpc] at hnone
      rcases hout : (pushStep C s.mem pc).2 with pc' | r
      · unfold pushed
        rw [filterMap_queue]
        cases pc' <;> rfl
      · rw [hout] at hnone
        cases hnone
    case h_3 =>
      cases h
      exact (counts_afterQuery ..).1
  · by_cases hcaller : a.caller = .producer
    · have hcall : a ≠ .step a.caller := by rwa [hcaller]
      rw [(call_step h hcall).2]
      rfl
    · exact (producer_frame h hcaller).2

/-- `head_` is stored only by a step that returns from `try_pop`.

**Proof sketch.** As for `tail_`. -/
lemma popped_of_popReturn (h : step C e.pre e.act = some (e.post, e.out))
    (hnone : popReturn C e = none) : popped e.out = 0 := by
  obtain ⟨s, a, out, s'⟩ := e
  by_cases ha : a = .step .consumer
  · subst ha
    simp only [step, consumerStep] at h
    split at h
    case h_1 => cases h
    case h_2 pc hpc =>
      cases h
      simp only [popReturn, hpc] at hnone
      rcases hout : (popStep C s.mem pc).2 with pc' | r
      · unfold popped
        rw [filterMap_queue]
        cases pc' <;> rfl
      · rw [hout] at hnone
        cases hnone
    case h_3 =>
      cases h
      exact (counts_afterQuery ..).2
  · by_cases hcaller : a.caller = .consumer
    · have hcall : a ≠ .step a.caller := by rwa [hcaller]
      rw [(call_step h hcall).2]
      rfl
    · exact (consumer_frame h hcaller).2

/-- Steps none of which returns from `try_push` store no tail. -/
lemma pushed_events_eq_zero (hstep : ∀ e ∈ tr, step C e.pre e.act = some (e.post, e.out))
    (hnone : ∀ e ∈ tr, pushReturn C e = none) : pushed (System.events tr) = 0 := by
  induction tr using List.reverseRecOn with
  | nil => rfl
  | append_singleton tr e ih =>
    have hlast : e ∈ tr ++ [e] := by simp
    rw [System.events_append, System.events_singleton, pushed_append,
      ih (fun e he => hstep e (by simp [he])) (fun e he => hnone e (by simp [he])),
      pushed_of_pushReturn (hstep e hlast) (hnone e hlast)]

/-- Steps none of which returns from `try_pop` store no head. -/
lemma popped_events_eq_zero (hstep : ∀ e ∈ tr, step C e.pre e.act = some (e.post, e.out))
    (hnone : ∀ e ∈ tr, popReturn C e = none) : popped (System.events tr) = 0 := by
  induction tr using List.reverseRecOn with
  | nil => rfl
  | append_singleton tr e ih =>
    have hlast : e ∈ tr ++ [e] := by simp
    rw [System.events_append, System.events_singleton, popped_append,
      ih (fun e he => hstep e (by simp [he])) (fun e he => hnone e (by simp [he])),
      popped_of_popReturn (hstep e hlast) (hnone e hlast)]

/-- Where a slot is free, `try_push` does not return false.

**Proof sketch.** The step returns false where the next tail equals `head_`, and then the buffer is
full. -/
lemma pushReturn_true {q : List T} (hR : Represents C e.pre q) (hroom : q.length < C.val - 1)
    {r : Bool} (h : pushReturn C e = some r) : r = true := by
  unfold pushReturn at h
  split at h
  case h_2 => cases h
  case h_1 pc _ hpc =>
    have hok := hR.producer pc hpc
    obtain ⟨n, hstores⟩ := hR.stores
    cases pc with
    | loadHead item currentTail =>
      obtain rfl : currentTail = e.pre.mem.tail := hok
      have hfree : increment C e.pre.mem.tail ≠ e.pre.mem.head := by
        rw [Ne, hstores.full_iff]
        omega
      simp [pushStep, hfree] at h
    | storeTail item nextTail =>
      cases h
      rfl
    | _ => cases h

/-- Where an element is stored, `try_pop` does not return empty-handed.

**Proof sketch.** The step returns nothing where `head_` equals `tail_`, and then the buffer is
empty. -/
lemma popReturn_some {q : List T} (hR : Represents C e.pre q) (hne : q ≠ [])
    {r : Option T} (h : popReturn C e = some r) : r.isSome := by
  unfold popReturn at h
  split at h
  case h_2 => cases h
  case h_1 pc _ hpc =>
    have hok := hR.consumer pc hpc
    obtain ⟨n, hstores⟩ := hR.stores
    cases pc with
    | loadTail currentHead =>
      obtain rfl : currentHead = e.pre.mem.head := hok
      have hsome : e.pre.mem.head ≠ e.pre.mem.tail := by rwa [Ne, hstores.empty_iff]
      simp [popStep, hsome] at h
    | storeHead currentHead item =>
      cases h
      rfl
    | _ => cases h

/-! ## Wait-freedom -/

/-- Whether an action is a step of the thread. -/
def Action.isStepOf (who : Caller) : Action T → Bool
  | .step u => u = who
  | _ => false

/-- The number of steps a thread takes inside its calls. -/
def ownSteps (who : Caller) (tr : Steps T) : ℕ := tr.countP fun e => e.act.isStepOf who

/-- A step of the system takes a call of `try_push` one step nearer to its return, if the producer
takes it, and leaves it alone otherwise.

**Proof sketch.** A producer inside `try_push` makes no other call, so a step of the producer is one
of `try_push`, at each of its points one nearer to the return. A step of another thread leaves the
producer alone. -/
lemma pushing_of_step (h : step C e.pre e.act = some (e.post, e.out)) {pc : PushPc T}
    (hpc : e.pre.producer = .pushing pc) (hnone : pushReturn C e = none) :
    ∃ pc', e.post.producer = .pushing pc' ∧
      pc'.toGo + (if e.act.isStepOf .producer then 1 else 0) ≤ pc.toGo := by
  obtain ⟨s, a, out, s'⟩ := e
  change s.producer = .pushing pc at hpc
  by_cases hcaller : a.caller = .producer
  · cases a with
    | callPush item => simp [step, hpc] at h
    | callPop => cases hcaller
    | callQuery who q =>
      obtain rfl : who = .producer := hcaller
      simp [step, hpc] at h
    | step who =>
      obtain rfl : who = .producer := hcaller
      simp only [step, producerStep, hpc] at h
      cases h
      simp only [pushReturn, hpc] at hnone
      cases pc with
      | loadTail item => exact ⟨_, rfl, le_rfl⟩
      | loadHead item currentTail =>
        by_cases heq : increment C currentTail = s.mem.head
        · simp [pushStep, heq] at hnone
        · exact ⟨.writeSlot item currentTail (increment C currentTail),
            by simp [pushStep, heq, ProducerPc.afterPush], le_rfl⟩
      | writeSlot item currentTail nextTail => exact ⟨_, rfl, le_rfl⟩
      | storeTail item nextTail => cases hnone
  · refine ⟨pc, (producer_frame h hcaller).1.trans hpc, ?_⟩
    have : a.isStepOf .producer = false := by
      cases a with
      | step who => exact decide_eq_false hcaller
      | _ => rfl
    simp [this]

/-- A step of the system takes a call of `try_pop` one step nearer to its return, if the consumer
takes it, and leaves it alone otherwise.

**Proof sketch.** As for `try_push`. -/
lemma popping_of_step (h : step C e.pre e.act = some (e.post, e.out)) {pc : PopPc T}
    (hpc : e.pre.consumer = .popping pc) (hnone : popReturn C e = none) :
    ∃ pc', e.post.consumer = .popping pc' ∧
      pc'.toGo + (if e.act.isStepOf .consumer then 1 else 0) ≤ pc.toGo := by
  obtain ⟨s, a, out, s'⟩ := e
  change s.consumer = .popping pc at hpc
  by_cases hcaller : a.caller = .consumer
  · cases a with
    | callPush item => cases hcaller
    | callPop => simp [step, hpc] at h
    | callQuery who q =>
      obtain rfl : who = .consumer := hcaller
      simp [step, hpc] at h
    | step who =>
      obtain rfl : who = .consumer := hcaller
      simp only [step, consumerStep, hpc] at h
      cases h
      simp only [popReturn, hpc] at hnone
      cases pc with
      | loadHead => exact ⟨_, rfl, le_rfl⟩
      | loadTail currentHead =>
        by_cases heq : currentHead = s.mem.tail
        · simp [popStep, heq] at hnone
        · exact ⟨.readSlot currentHead, by simp [popStep, heq, ConsumerPc.afterPop], le_rfl⟩
      | readSlot currentHead => exact ⟨_, rfl, le_rfl⟩
      | storeHead currentHead item => cases hnone
  · refine ⟨pc, (consumer_frame h hcaller).1.trans hpc, ?_⟩
    have : a.isStepOf .consumer = false := by
      cases a with
      | step who => exact decide_eq_false hcaller
      | _ => rfl
    simp [this]

/-- A `try_push` that has not returned is still in progress, and the steps taken and the steps left
are at most those left at first. -/
lemma pushing_of_trace [Inhabited T] (h : (system C T).Trace System.anyStep s tr s')
    {pc : PushPc T} (hpc : s.producer = .pushing pc)
    (hnone : tr.findSome? (pushReturn C) = none) :
    ∃ pc', s'.producer = .pushing pc' ∧
      pc'.toGo + ownSteps .producer tr ≤ pc.toGo := by
  obtain ⟨n, ⟨pc', hpc', rfl⟩, hle⟩ := h.progress
    (I := fun s n => ∃ pc, s.producer = .pushing pc ∧ pc.toGo = n)
    (fun e n hstep hret ⟨pc₁, hpc₁, hn⟩ => by
      obtain ⟨pc₂, hpc₂, hle⟩ := pushing_of_step hstep hpc₁ hret
      exact ⟨_, ⟨pc₂, hpc₂, rfl⟩, hn ▸ hle⟩)
    (List.findSome?_eq_none_iff.mp hnone) ⟨pc, hpc, rfl⟩
  exact ⟨pc', hpc', hle⟩

/-- A `try_pop` that has not returned is still in progress, and the steps taken and the steps left
are at most those left at first. -/
lemma popping_of_trace [Inhabited T] (h : (system C T).Trace System.anyStep s tr s')
    {pc : PopPc T} (hpc : s.consumer = .popping pc)
    (hnone : tr.findSome? (popReturn C) = none) :
    ∃ pc', s'.consumer = .popping pc' ∧
      pc'.toGo + ownSteps .consumer tr ≤ pc.toGo := by
  obtain ⟨n, ⟨pc', hpc', rfl⟩, hle⟩ := h.progress
    (I := fun s n => ∃ pc, s.consumer = .popping pc ∧ pc.toGo = n)
    (fun e n hstep hret ⟨pc₁, hpc₁, hn⟩ => by
      obtain ⟨pc₂, hpc₂, hle⟩ := popping_of_step hstep hpc₁ hret
      exact ⟨_, ⟨pc₂, hpc₂, rfl⟩, hn ▸ hle⟩)
    (List.findSome?_eq_none_iff.mp hnone) ⟨pc, hpc, rfl⟩
  exact ⟨pc', hpc', hle⟩

/-- **`try_push` is wait-free**: a call returns within four steps of the producer, whatever the
other threads do in between, and until it returns the producer can take a step.

**Proof sketch.** The call starts with four steps to go, and until it returns every step of the
producer takes one of them and leaves at least one (`pushing_of_trace`); so three steps at most go
by without the return. A thread inside a call has a next step. -/
theorem try_push_returns [Inhabited T] {e : Taken (State T) (Action T) (Event T)} {item : T}
    (hcall : step C e.pre e.act = some (e.post, e.out)) (hact : e.act = .callPush item)
    (h : (system C T).Trace System.anyStep e.post tr s) :
    (4 ≤ ownSteps .producer tr → (tr.findSome? (pushReturn C)).isSome) ∧
      (tr.findSome? (pushReturn C) = none → (step C s (.step .producer)).isSome) := by
  have hpc : e.post.producer = .pushing (.loadTail item) := by
    rw [hact] at hcall
    simp only [step] at hcall
    split at hcall
    · obtain ⟨hpost, -⟩ := Prod.mk.inj (Option.some.inj hcall)
      rw [← hpost]
    · cases hcall
  constructor
  · intro hsteps
    by_contra hnot
    obtain ⟨pc', -, hle⟩ := pushing_of_trace h hpc (by simpa using hnot)
    have hpos := pc'.toGo_bounds.1
    have hfour : pc'.toGo + ownSteps .producer tr ≤ 4 := hle
    omega
  · intro hnone
    obtain ⟨pc', hpc', -⟩ := pushing_of_trace h hpc hnone
    simp [step, producerStep, hpc']

/-- **`try_pop` is wait-free**: a call returns within four steps of the consumer, whatever the
other threads do in between, and until it returns the consumer can take a step.

**Proof sketch.** As for `try_push`. -/
theorem try_pop_returns [Inhabited T] {e : Taken (State T) (Action T) (Event T)}
    (hcall : step C e.pre e.act = some (e.post, e.out)) (hact : e.act = .callPop)
    (h : (system C T).Trace System.anyStep e.post tr s) :
    (4 ≤ ownSteps .consumer tr → (tr.findSome? (popReturn C)).isSome) ∧
      (tr.findSome? (popReturn C) = none → (step C s (.step .consumer)).isSome) := by
  have hpc : e.post.consumer = .popping .loadHead := by
    rw [hact] at hcall
    simp only [step] at hcall
    split at hcall
    · obtain ⟨hpost, -⟩ := Prod.mk.inj (Option.some.inj hcall)
      rw [← hpost]
    · cases hcall
  constructor
  · intro hsteps
    by_contra hnot
    obtain ⟨pc', -, hle⟩ := popping_of_trace h hpc (by simpa using hnot)
    have hpos := pc'.toGo_bounds.1
    have hfour : pc'.toGo + ownSteps .consumer tr ≤ 4 := hle
    omega
  · intro hnone
    obtain ⟨pc', hpc', -⟩ := popping_of_trace h hpc hnone
    simp [step, consumerStep, hpc']

/-! ## The guards -/

/-- What the answer `n` of `size_approx()` is good for to the producer, whose `head_` load came
after the steps `past`, in a run that ends with the steps `later` after the answer. -/
structure ProducerGuard (C : Capacity) (n : ℕ) (past run later : Steps T) : Prop where
  /-- The answer is the number of elements at the `head_` load. -/
  exact : n = count (System.events past)
  le : n ≤ C.val - 1
  /-- Until the producer stores `tail_` again, there are no more elements. -/
  stays : ∀ now, past <+: now → now <+: run →
    pushed (System.events now) = pushed (System.events past) → count (System.events now) ≤ n
  /-- The next `try_push` is accepted, if there was room. -/
  next : n < C.val - 1 → ∀ r, later.findSome? (pushReturn C) = some r → r = true

/-- What the answer `n` of `size_approx()` is good for to the consumer, whose `tail_` load came
after the steps `past`, in a run that ends with the steps `later` after the answer. -/
structure ConsumerGuard (C : Capacity) (n : ℕ) (past run later : Steps T) : Prop where
  /-- The answer is the number of elements at the `tail_` load. -/
  exact : n = count (System.events past)
  /-- Until the consumer stores `head_` again, there are no fewer elements. -/
  stays : ∀ now, past <+: now → now <+: run →
    popped (System.events now) = popped (System.events past) → n ≤ count (System.events now)
  /-- The next `try_pop` returns an element, if there was one. -/
  next : 0 < n → ∀ r, later.findSome? (popReturn C) = some r → r.isSome

/-- Steps that store no tail do not add to the count. -/
lemma count_le_of_pushed {past now : Steps T} (hpast : past <+: now)
    (hpushed : pushed (System.events now) = pushed (System.events past)) :
    count (System.events now) ≤ count (System.events past) := by
  obtain ⟨rest, rfl⟩ := hpast
  rw [System.events_append, pushed_append] at hpushed
  rw [System.events_append, count, count, pushed_append, popped_append]
  omega

/-- Steps that store no head do not take from the count. -/
lemma le_count_of_popped {past now : Steps T} (hpast : past <+: now)
    (hpopped : popped (System.events now) = popped (System.events past)) :
    count (System.events past) ≤ count (System.events now) := by
  obtain ⟨rest, rfl⟩ := hpast
  rw [System.events_append, popped_append] at hpopped
  rw [System.events_append, count, count, pushed_append, popped_append]
  omega

section Guards

variable {load : Taken (State T) (Action T) (Event T)} {past between later : Steps T} {q : Query}

/-- During an introspection call of the producer no `try_push` returns. -/
lemma Asks.pushReturn_none (h : Asks .producer q load between e) :
    ∀ e' ∈ load :: between ++ [e], pushReturn C e' = none := by
  intro e' he
  simp only [List.cons_append, List.mem_cons, List.mem_append, List.not_mem_nil, or_false] at he
  rcases he with rfl | he | rfl
  · exact pushReturn_of_query h.load_query
  · exact pushReturn_of_caller (h.others e' he)
  · exact pushReturn_of_query h.answer_query

/-- During an introspection call of the consumer no `try_pop` returns. -/
lemma Asks.popReturn_none (h : Asks .consumer q load between e) :
    ∀ e' ∈ load :: between ++ [e], popReturn C e' = none := by
  intro e' he
  simp only [List.cons_append, List.mem_cons, List.mem_append, List.not_mem_nil, or_false] at he
  rcases he with rfl | he | rfl
  · exact popReturn_of_query h.load_query
  · exact popReturn_of_caller (h.others e' he)
  · exact popReturn_of_query h.answer_query

/-- Where nothing was pushed since a moment with room, `try_push` returns true.

**Proof sketch.** Until the call returns nothing is pushed by its thread, which is the only one to
push. So at the step that returns there is still room, as pops only add to it. -/
lemma pushReturn_true_of_trace [Inhabited T] {run : Steps T} {r : Bool}
    (h : (system C T).Trace System.anyStep (system C T).init (run ++ later) s)
    (hpast : past <+: run) (hquiet : pushed (System.events run) = pushed (System.events past))
    (hroom : count (System.events past) < C.val - 1)
    (hr : later.findSome? (pushReturn C) = some r) : r = true := by
  obtain ⟨mid, e, rest, rfl, hret, hmid⟩ := List.findSome?_eq_some_iff.mp hr
  rw [← List.append_assoc] at h
  obtain ⟨hnow, -, -, -⟩ := h.of_cons
  obtain ⟨s₁, -, htail⟩ := hnow.of_append
  obtain ⟨q, hq⟩ := counted_of_trace hnow
  have hzero : pushed (System.events mid) = 0 :=
    pushed_events_eq_zero (fun _ he => htail.step_of_mem he) hmid
  have hle : count (System.events (run ++ mid)) ≤ count (System.events past) := by
    refine count_le_of_pushed (hpast.trans (List.prefix_append run mid)) ?_
    rw [System.events_append, pushed_append, hquiet, hzero, Nat.add_zero]
  rw [hq.count_eq] at hle
  exact pushReturn_true hq.represents (by omega) hret

/-- Where nothing was popped since a moment with an element, `try_pop` returns an element.

**Proof sketch.** As for `try_push`: nothing is popped until the call returns, and pushes only add
elements. -/
lemma popReturn_some_of_trace [Inhabited T] {run : Steps T} {r : Option T}
    (h : (system C T).Trace System.anyStep (system C T).init (run ++ later) s)
    (hpast : past <+: run) (hquiet : popped (System.events run) = popped (System.events past))
    (hsome : 0 < count (System.events past))
    (hr : later.findSome? (popReturn C) = some r) : r.isSome := by
  obtain ⟨mid, e, rest, rfl, hret, hmid⟩ := List.findSome?_eq_some_iff.mp hr
  rw [← List.append_assoc] at h
  obtain ⟨hnow, -, -, -⟩ := h.of_cons
  obtain ⟨s₁, -, htail⟩ := hnow.of_append
  obtain ⟨q, hq⟩ := counted_of_trace hnow
  have hzero : popped (System.events mid) = 0 :=
    popped_events_eq_zero (fun _ he => htail.step_of_mem he) hmid
  have hle : count (System.events past) ≤ count (System.events (run ++ mid)) := by
    refine le_count_of_popped (hpast.trans (List.prefix_append run mid)) ?_
    rw [System.events_append, popped_append, hquiet, hzero, Nat.add_zero]
  rw [hq.count_eq] at hle
  exact popReturn_some hq.represents (List.ne_nil_of_length_pos (by omega)) hret

variable [Inhabited T]
  (h : (system C T).Trace System.anyStep (system C T).init
    (past ++ load :: between ++ e :: later) s)
include h

/-- The two loads of a call see states in accordance with their histories. -/
lemma counted_of_loads : (∃ q, Counted C (System.events past) load.pre q) ∧
    ∃ q, Counted C (System.events (past ++ load :: between)) e.pre q := by
  obtain ⟨hanswer, -, -, -⟩ := h.of_cons
  obtain ⟨hload, -, -, -⟩ := hanswer.of_cons
  exact ⟨counted_of_trace hload, counted_of_trace hanswer⟩

/-- The steps of a call are steps of the system. -/
lemma step_of_mem_call : ∀ e' ∈ load :: between ++ [e],
    step C e'.pre e'.act = some (e'.post, e'.out) := by
  rw [show past ++ load :: between ++ e :: later = past ++ (load :: between ++ [e]) ++ later by
    simp] at h
  intro e' he
  exact h.step_of_mem (List.mem_append_left _ (List.mem_append_right _ he))

/-- During an introspection call of the producer no tail is stored. -/
lemma Asks.pushed_eq_zero (hasks : Asks .producer q load between e) :
    pushed (System.events (load :: between)) + pushed e.out = 0 := by
  have hquiet := pushed_events_eq_zero (step_of_mem_call h) hasks.pushReturn_none
  rwa [System.events_append, System.events_singleton, pushed_append] at hquiet

/-- During an introspection call of the consumer no head is stored. -/
lemma Asks.popped_eq_zero (hasks : Asks .consumer q load between e) :
    popped (System.events (load :: between)) + popped e.out = 0 := by
  have hquiet := popped_events_eq_zero (step_of_mem_call h) hasks.popReturn_none
  rwa [System.events_append, System.events_singleton, popped_append] at hquiet

/-- **The guard of the producer.**

**Proof sketch.** No tail is stored during the call, so the tail loaded is the tail of the moment
of the `head_` load. -/
lemma producerGuard_of_asks (hasks : Asks .producer .sizeApprox load between e) :
    ProducerGuard C (sizeOf C load.pre.mem.head e.pre.mem.tail) past
      (past ++ load :: between ++ e :: later) later := by
  obtain ⟨⟨q, hq⟩, q', hq'⟩ := counted_of_loads h
  have hquiet := hasks.pushed_eq_zero h
  have hbetween : pushed (System.events (past ++ load :: between)) =
      pushed (System.events past) := by
    rw [System.events_append, pushed_append]
    omega
  have hexact : sizeOf C load.pre.mem.head e.pre.mem.tail = count (System.events past) := by
    rw [hq.sizeOf_eq hq' (hbetween ▸ hq.popped_le), hbetween]
    exact Nat.mod_eq_of_lt hq.count_lt
  rw [hexact]
  refine ⟨rfl, ?_, ?_, ?_⟩
  · have := hq.count_lt
    omega
  · intro now hpast _ hpushed
    exact count_le_of_pushed hpast hpushed
  · intro hroom r hr
    rw [List.append_cons] at h
    refine pushReturn_true_of_trace h ?_ ?_ hroom hr
    · rw [List.append_assoc]
      exact List.prefix_append _ _
    · rw [System.events_append, System.events_singleton, pushed_append, hbetween]
      omega

/-- **The guard of the consumer.**

**Proof sketch.** No head is stored during the call, so the head loaded is the head of the moment
of the `tail_` load. -/
lemma consumerGuard_of_asks (hasks : Asks .consumer .sizeApprox load between e) :
    ConsumerGuard C (sizeOf C load.pre.mem.head e.pre.mem.tail) (past ++ load :: between)
      (past ++ load :: between ++ e :: later) later := by
  obtain ⟨⟨q, hq⟩, q', hq'⟩ := counted_of_loads h
  have hquiet := hasks.popped_eq_zero h
  have hbetween : popped (System.events (past ++ load :: between)) =
      popped (System.events past) := by
    rw [System.events_append, popped_append]
    omega
  have hexact : sizeOf C load.pre.mem.head e.pre.mem.tail =
      count (System.events (past ++ load :: between)) := by
    rw [hq.sizeOf_eq hq' (hbetween ▸ hq'.popped_le), ← hbetween]
    exact Nat.mod_eq_of_lt hq'.count_lt
  rw [hexact]
  refine ⟨rfl, ?_, ?_⟩
  · intro now hpast _ hpopped
    exact le_count_of_popped hpast hpopped
  · intro hsome r hr
    rw [List.append_cons] at h
    refine popReturn_some_of_trace h (List.prefix_append _ _) ?_ hsome hr
    rw [System.events_append, System.events_singleton, popped_append]
    omega

/-- When `empty()` answers the consumer with false, an element is stored.

**Proof sketch.** The two indices differ. Loaded head first, they are those of the second load;
loaded tail first, they are those of the first load, and elements have only been added since. -/
lemma count_pos_of_asks {order : LoadOrder} (hasks : Asks .consumer (.empty order) load between e)
    (hans : (Query.empty order).answer C ((Query.empty order).firstIndex load.pre.mem) e.pre.mem =
      .isEmpty false) :
    0 < count (System.events (past ++ load :: between)) := by
  obtain ⟨⟨q, hq⟩, q', hq'⟩ := counted_of_loads h
  have hquiet := hasks.popped_eq_zero h
  have hpopped : popped (System.events (past ++ load :: between)) =
      popped (System.events past) := by
    rw [System.events_append, popped_append]
    omega
  have hpushed : pushed (System.events past) ≤
      pushed (System.events (past ++ load :: between)) := by
    rw [System.events_append, pushed_append]
    exact Nat.le_add_right _ _
  have hle := hq.popped_le
  have hle' := hq'.popped_le
  cases order with
  | headFirst =>
    have hne : load.pre.mem.head ≠ e.pre.mem.tail :=
      of_decide_eq_false (Answer.isEmpty.inj hans)
    rw [hq.head, hq'.tail, ← hpopped] at hne
    have : popped (System.events (past ++ load :: between)) ≠
        pushed (System.events (past ++ load :: between)) := fun heq => hne (by rw [heq])
    unfold count
    omega
  | tailFirst =>
    have hne : e.pre.mem.head ≠ load.pre.mem.tail :=
      of_decide_eq_false (Answer.isEmpty.inj hans)
    rw [hq.tail, hq'.head, hpopped] at hne
    have : popped (System.events past) ≠ pushed (System.events past) :=
      fun heq => hne (by rw [heq])
    unfold count
    omega

end Guards

/-- **Introspection by an owning thread is a reliable guard.** In every run, with `e` an answer and
`later` the steps after it: `size_approx()` answers the producer with the number of elements at
its `head_` load, and the consumer with the number at its `tail_` load, and each answer is a guard
for the next call; when `empty()` answers the consumer with false, its next `try_pop` returns an
element; and a `try_push` or `try_pop` that is called returns, within four steps of its thread.

**Proof sketch.** An answer comes from the two loads of one call (`exists_asks`), between which
the index of the asking thread stands still. -/
theorem introspection_guards [Inhabited T] {e : Taken (State T) (Action T) (Event T)}
    {later : Steps T}
    (h : (system C T).Trace System.anyStep (system C T).init (tr ++ e :: later) s) :
    (∀ n, .answered .producer (.size n) ∈ e.out →
      ∃ past load between, tr = past ++ load :: between ∧
        Asks .producer .sizeApprox load between e ∧
        ProducerGuard C n past (tr ++ e :: later) later) ∧
    (∀ n, .answered .consumer (.size n) ∈ e.out →
      ∃ past load between, tr = past ++ load :: between ∧
        Asks .consumer .sizeApprox load between e ∧
        ConsumerGuard C n tr (tr ++ e :: later) later) ∧
    (.answered .consumer (.isEmpty false) ∈ e.out →
      ∀ r, later.findSome? (popReturn C) = some r → r.isSome) ∧
    (∀ mid call rest item, later = mid ++ call :: rest → call.act = .callPush item →
      (4 ≤ ownSteps .producer rest → (rest.findSome? (pushReturn C)).isSome) ∧
      (rest.findSome? (pushReturn C) = none → (step C s (.step .producer)).isSome)) ∧
    (∀ mid call rest, later = mid ++ call :: rest → call.act = .callPop →
      (4 ≤ ownSteps .consumer rest → (rest.findSome? (popReturn C)).isSome) ∧
      (rest.findSome? (popReturn C) = none → (step C s (.step .consumer)).isSome)) := by
  have hanswer := h
  rw [List.append_cons] at hanswer
  obtain ⟨s₁, hfirst, hlater⟩ := hanswer.of_append
  refine ⟨?_, ?_, ?_, ?_, ?_⟩
  · intro n hans
    obtain ⟨q, past, load, between, rfl, hasks, hval, -⟩ := exists_asks hfirst hans
    rcases q with _ | _ | _ <;> cases hval
    exact ⟨past, load, between, rfl, hasks, producerGuard_of_asks h hasks⟩
  · intro n hans
    obtain ⟨q, past, load, between, rfl, hasks, hval, -⟩ := exists_asks hfirst hans
    rcases q with _ | _ | _ <;> cases hval
    exact ⟨past, load, between, rfl, hasks, consumerGuard_of_asks h hasks⟩
  · intro hans r hr
    obtain ⟨q, past, load, between, rfl, hasks, hval, hout⟩ := exists_asks hfirst hans
    rcases q with _ | order
    · cases hval
    · have hpos := count_pos_of_asks h hasks hval.symm
      rw [List.append_cons] at h
      refine popReturn_some_of_trace h (List.prefix_append _ _) ?_ hpos hr
      rw [System.events_append, System.events_singleton, popped_append, hout]
      rfl
  · rintro mid call rest item rfl hact
    obtain ⟨-, -, hcall, hrest⟩ := hlater.of_cons
    exact try_push_returns hcall hact hrest
  · rintro mid call rest rfl hact
    obtain ⟨-, -, hcall, hrest⟩ := hlater.of_cons
    exact try_pop_returns hcall hact hrest

/-- The producer asks for the size of a buffer with one element, and pushes another while the
consumer pops the first. -/
def guardedPush : List (Action ℕ) :=
  [.callPush 1, .step .producer, .step .producer, .step .producer, .step .producer,
   .callQuery .producer .sizeApprox, .step .producer, .callPop, .step .consumer,
   .step .producer,
   .callPush 2, .step .consumer, .step .producer, .step .consumer, .step .producer,
   .step .consumer, .step .producer, .step .producer]

/-- The producer reads a size of 1, and its next `try_push` returns true. -/
theorem introspection_guards_example :
    ∃ tr e later s, (system fourSlots ℕ).Trace System.anyStep (system fourSlots ℕ).init
      (tr ++ e :: later) s ∧ .answered .producer (.size 1) ∈ e.out ∧
      later.findSome? (pushReturn fourSlots) = some true := by
  have h : ((system fourSlots ℕ).record System.anyStep (system fourSlots ℕ).init
      guardedPush).map (fun r => (r.2[9]?.map Taken.out,
        ((r.2.drop 10).findSome? (pushReturn fourSlots)).isSome)) =
      some (some [.answered .producer (.size 1)], true) := by rfl
  obtain ⟨s, tr, htr, hv⟩ := System.exists_trace_of_record h
  obtain ⟨hout, hret⟩ := Prod.mk.inj hv
  obtain ⟨e, he, hout⟩ := Option.map_eq_some_iff.mp hout
  obtain ⟨r, hr⟩ := Option.isSome_iff_exists.mp hret
  have hsplit : tr = tr.take 9 ++ e :: tr.drop 10 := by
    obtain ⟨hlt, rfl⟩ := List.getElem?_eq_some_iff.mp he
    rw [← List.drop_eq_getElem_cons hlt, List.take_append_drop]
  rw [hsplit] at htr
  have hans : .answered .producer (.size 1) ∈ e.out := by simp [hout]
  obtain ⟨past, load, between, -, -, hguard⟩ := (introspection_guards htr).1 1 hans
  obtain rfl := hguard.next (by decide) r hr
  exact ⟨_, e, _, s, htr, hans, hr⟩

end NullRing.RingBuffer
