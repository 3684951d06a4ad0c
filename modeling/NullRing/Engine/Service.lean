import NullRing.Engine.Pipeline
import NullRing.Engine.SingleConsumer
import NullRing.Queue.Service

set_option relaxedAutoImplicit false
set_option autoImplicit false

/-!
# The engine as a service with a bounded queue

Seen from outside, an engine whose calls of `start()` meet `SoleStart` is a service in which at most
65535 events wait: `submit()` accepts one or turns it away, and the consumer fetches them from the
front, evaluates them, reports the results if there is a callback, and counts them. The ring, the
threads, the restarts and the two loops of `consumer_loop()` do not show.

## Main definitions

* `Engine.Event.service?` — what the service shows of a step of the engine.
* `Engine.Serves` — how an engine stands for a state of the service.

## Main results

* `Engine.Serves.step` — every step of the engine is one of the service, or none.
* `Engine.engine_refines_service` — the engine simulates the service.
* `Engine.backpressure_exact` — what a rejection and an empty ring say about the events accepted.
-/

namespace NullRing.Engine

open RingBuffer Transition

variable {Thread : Type}

/-- The service that an engine is. -/
def service (cfg : Config) :
    Spec (OrderedService.State ℕ RiskResult) (OrderedService.Event ℕ RiskResult) :=
  OrderedService.spec cfg.result cfg.onResult (defaultRingCapacity.val - 1)

/-- What is seen of a step of the engine. -/
def Event.service? : Event Thread → Option (OrderedService.Event ℕ RiskResult)
  | .accepted ptr => some (.accept ptr)
  | .rejected ptr => some (.reject ptr)
  | .popped ptr => some (.fetch ptr)
  | .poppedNothing => some .seenEmpty
  | .evaluated ptr => some (.process ptr)
  | .reported result => some (.deliver result)
  | .counted => some .finish
  | _ => none

/-- What a consumer has in hand. -/
def WorkerPc.hand (cfg : Config) : WorkerPc (PopPc ℕ) → OrderedService.Hand ℕ RiskResult
  | .evaluating _ ptr => .fetched ptr
  | .reporting _ result => if cfg.onResult then .ready result else .served
  | .counting _ => .served
  | _ => .empty

/-- The events that wait are those in the ring, and the consumer has in hand what the server
has. -/
structure Serves (cfg : Config) (s : State Thread) (st : OrderedService.State ℕ RiskResult) :
    Prop where
  control : ControlInv s
  pipe : ∃ es, PipeInv cfg es st.waiting s
  hand : st.hand = s.current.hand cfg

variable {cfg : Config} {s s' : State Thread} {a : Action Thread} {out es : List (Event Thread)}
  {q q' : List ℕ} {id : ℕ} {st : OrderedService.State ℕ RiskResult}

/-- A step that the service does not see. -/
lemma service_of_silent (h : ∀ e ∈ out, e.service? = none)
    (st : OrderedService.State ℕ RiskResult) :
    (service cfg).Run st (out.filterMap Event.service?) st := by
  rw [List.filterMap_eq_nil_iff.mpr h]
  exact .nil

/-- What a step shows of the queue is what it does to it. -/
lemma PipeInv.queue_step (h : PipeInv cfg es q s) (h' : PipeInv cfg (es ++ out) q' s') :
    q ++ accepted out = popped out ++ q' := by
  have hafter := h'.accepted_eq
  rw [accepted_append, popped_append, h.accepted_eq, List.append_assoc, List.append_assoc] at hafter
  exact List.append_cancel_left hafter

/-- A step of `submit()` is one of the service.

**Proof sketch.** By cases on the program point. The load that finds the ring full is a rejection,
since the queue is then full; the store of `tail_` accepts the event, for which the invariant after
the step says that there was room; and the other two steps show nothing. -/
lemma service_of_submit {pc : PushPc ℕ} {hand : OrderedService.Hand ℕ RiskResult}
    (h : PipeInv cfg es q s) (hp : s.producer = some pc)
    (h' : PipeInv cfg
      (es ++ submitEvents pc (pushStep defaultRingCapacity s.ring pc).2) q' s') :
    (service cfg).Run ⟨q, hand⟩
      ((submitEvents pc (pushStep defaultRingCapacity s.ring pc).2 : List (Event Thread)).filterMap
        Event.service?) ⟨q', hand⟩ := by
  have hqueue := h.queue_step h'
  obtain ⟨n, hstores⟩ := h.stores
  have hok := h.producer pc hp
  cases pc with
  | loadTail ptr | writeSlot ptr currentTail nextTail =>
    obtain rfl : q = q' := (List.append_nil q).symm.trans hqueue
    exact .nil
  | loadHead ptr currentTail =>
    obtain rfl : currentTail = s.ring.tail := hok
    by_cases heq : increment defaultRingCapacity s.ring.tail = s.ring.head
    · simp only [pushStep, if_pos heq] at hqueue ⊢
      obtain rfl : q = q' := (List.append_nil q).symm.trans hqueue
      exact .single (.reject (hstores.full_iff.mp heq))
    · simp only [pushStep, if_neg heq] at hqueue ⊢
      obtain rfl : q = q' := (List.append_nil q).symm.trans hqueue
      exact .nil
  | storeTail ptr nextTail =>
    obtain rfl : q ++ [ptr] = q' := hqueue
    obtain ⟨n', hstores'⟩ := h'.stores
    have hroom := hstores'.room
    rw [List.length_append, List.length_singleton] at hroom
    exact .single (.accept (by omega))

/-- A step of `try_pop()` is one of the service.

**Proof sketch.** By cases on the program point. The load that finds the ring empty is a look at the
empty queue, the store of `head_` fetches the front, and the other two steps show nothing. -/
lemma service_of_pop {loop : Loop} {pc : PopPc ℕ} (h : PipeInv cfg es q s)
    (hcur : s.current = .popping loop pc)
    (h' : PipeInv cfg
      (es ++ (afterPop id loop (popStep defaultRingCapacity s.ring pc).2).2) q' s') :
    (service cfg).Run ⟨q, .empty⟩
      ((afterPop id loop (popStep defaultRingCapacity s.ring pc).2 :
        WorkerPc (PopPc ℕ) × List (Event Thread)).2.filterMap Event.service?)
      ⟨q', (afterPop id loop (popStep defaultRingCapacity s.ring pc).2 :
        WorkerPc (PopPc ℕ) × List (Event Thread)).1.hand cfg⟩ := by
  have hqueue := h.queue_step h'
  obtain ⟨n, hstores⟩ := h.stores
  have hok := h.consumer
  rw [hcur] at hok
  cases pc with
  | loadHead | readSlot currentHead =>
    obtain rfl : q = q' := (List.append_nil q).symm.trans hqueue
    exact .nil
  | loadTail currentHead =>
    obtain rfl : currentHead = s.ring.head := hok
    by_cases heq : s.ring.head = s.ring.tail
    · obtain rfl : q = [] := hstores.empty_iff.mp heq
      simp only [popStep, if_pos heq] at hqueue ⊢
      cases loop with
      | main | drain =>
        obtain rfl : [] = q' := hqueue
        exact .single .seenEmpty
    · simp only [popStep, if_neg heq] at hqueue ⊢
      obtain rfl : q = q' := (List.append_nil q).symm.trans hqueue
      exact .nil
  | storeHead currentHead ptr =>
    obtain rfl : q = ptr :: q' := (List.append_nil q).symm.trans hqueue
    exact .single .fetch

/-- An event that the service does not see is neither an acceptance nor a pop. -/
lemma queue_silent (h : ∀ e ∈ out, e.service? = none) : accepted out = [] ∧ popped out = [] := by
  constructor <;> refine List.filterMap_eq_nil_iff.mpr fun e he => ?_
  all_goals
    have hnone := h e he
    cases e <;> first | rfl | cases hnone

variable [DecidableEq Thread]

/-- The service sees nothing of a step of a control thread, nor of the call of `submit()`.

**Proof sketch.** The events that the service sees are shown by steps of the producer and of the
consumers. -/
lemma Move.service_silent (hmove : Move cfg s a s' out) (hp : a ≠ .stepProducer)
    (hw : ∀ id, a ≠ .stepWorker id) : ∀ e ∈ out, e.service? = none := by
  intro e he
  have hshows := hmove.shows he
  cases e with
  | accepted _ | rejected _ => exact absurd hshows.1 hp
  | popped _ | poppedNothing =>
    obtain ⟨id, _, _, ha, -⟩ := hshows
    exact absurd ha (hw id)
  | evaluated _ | reported _ | counted =>
    obtain ⟨id, _, ha, -⟩ := hshows
    exact absurd ha (hw id)
  | _ => rfl

/-- A step of the consumer is one of the service, or none.

**Proof sketch.** By cases on the step: a step of `try_pop` is `service_of_pop`; the evaluation, the
callback, if there is one, and the increment are the stages of the service with the event in hand,
and the other steps show nothing and are taken with an empty hand. -/
lemma service_of_worker (hctl : ControlInv s) (hmove : Move cfg s (.stepWorker id) s' out)
    (h : PipeInv cfg es q s) (h' : PipeInv cfg (es ++ out) q' s') :
    (service cfg).Run ⟨q, s.current.hand cfg⟩ (out.filterMap Event.service?)
      ⟨q', s'.current.hand cfg⟩ := by
  have hqueue := h.queue_step h'
  -- the consumer that takes the step is the current one, before the step and after it
  have hcur : ∀ {pc : WorkerPc (PopPc ℕ)}, s.workers id = pc → pc ≠ .exited →
      s.current = pc ∧ s'.current = s'.workers id := by
    intro pc hpc hne
    have hid : s.workers id ≠ .exited := by rwa [hpc]
    exact ⟨(hctl.current_eq hid).trans hpc, hmove.current_of_stepWorker hctl hid⟩
  cases hmove with
  | checkMain hpc _ | checkDrain hpc _ | yield hpc =>
    obtain ⟨hbefore, hafter⟩ := hcur hpc (by simp)
    obtain rfl : q = q' := (List.append_nil q).symm.trans hqueue
    rw [hbefore, hafter, setWorker_self]
    exact .nil
  | pop hpc =>
    obtain ⟨hbefore, hafter⟩ := hcur hpc (by simp)
    rw [hbefore, hafter, setWorker_self]
    exact service_of_pop h hbefore h'
  | @evaluate _ loop ptr hpc =>
    obtain ⟨hbefore, hafter⟩ := hcur hpc (by simp)
    obtain rfl : q = q' := (List.append_nil q).symm.trans hqueue
    rw [hbefore, hafter, setWorker_self]
    exact .single .process
  | @report _ loop result hpc =>
    obtain ⟨hbefore, hafter⟩ := hcur hpc (by simp)
    rw [hbefore, hafter, setWorker_self, WorkerPc.hand]
    split at hqueue <;> rename_i hcb
    · obtain rfl : q = q' := (List.append_nil q).symm.trans hqueue
      rw [if_pos hcb, if_pos hcb]
      exact .single .deliver
    · obtain rfl : q = q' := (List.append_nil q).symm.trans hqueue
      rw [if_neg hcb, if_neg hcb]
      exact .nil
  | @count _ loop hpc =>
    obtain ⟨hbefore, hafter⟩ := hcur hpc (by simp)
    obtain rfl : q = q' := (List.append_nil q).symm.trans hqueue
    rw [hbefore, hafter, setWorker_self]
    cases loop with
    | main | drain => exact .single .finish

/-- **A step of the engine is a step of the service**, or leaves it as it is.

**Proof sketch.** By the thread that takes the step. A control thread shows nothing and leaves the
consumer, except that it may create one, which has nothing in hand. -/
theorem Serves.step (h : Serves cfg s st) (hsole : SoleStart s a) (hmove : Move cfg s a s' out) :
    ∃ st', (service cfg).Run st (out.filterMap Event.service?) st' ∧ Serves cfg s' st' := by
  obtain ⟨hctl, ⟨es, hpipe⟩, hhand⟩ := h
  obtain ⟨waiting, hand⟩ := st
  obtain rfl : hand = s.current.hand cfg := hhand
  obtain ⟨q', hpipe'⟩ := hpipe.step hctl hmove
  have hctl' := hctl.step hsole hmove
  suffices hrun : (service cfg).Run ⟨waiting, s.current.hand cfg⟩
      (out.filterMap Event.service?) ⟨q', s'.current.hand cfg⟩ from
    ⟨⟨q', _⟩, hrun, hctl', ⟨_, hpipe'⟩, rfl⟩
  by_cases hw : ∃ id, a = .stepWorker id
  · obtain ⟨id, rfl⟩ := hw
    exact service_of_worker hctl hmove hpipe hpipe'
  by_cases hp : a = .stepProducer
  · subst hp
    cases hmove with
    | submit hp => exact service_of_submit hpipe hp hpipe'
  · have hw' : ∀ id, a ≠ .stepWorker id := fun id ha => hw ⟨id, ha⟩
    have hsilent := hmove.service_silent hp hw'
    have hqueue := hpipe.queue_step hpipe'
    obtain ⟨haccepted, hpopped⟩ := queue_silent hsilent
    rw [haccepted, hpopped, List.append_nil, List.nil_append] at hqueue
    have hsame : s'.current.hand cfg = s.current.hand cfg := by
      rcases hmove.current_cases with hsame | ⟨t, hpc, hnew⟩ | ⟨id, ha, -⟩
      · rw [hsame]
      · rw [hnew, hctl.current_of_createThread hpc]
        rfl
      · exact absurd ha (hw' id)
    rw [hsame, ← hqueue]
    exact service_of_silent hsilent _

/-! ## Trace inclusion -/

omit [DecidableEq Thread] in
/-- What a run shows of the events is what the service shows of them.

**Proof sketch.** Each pair of lists is made by two filters that agree on every event. -/
lemma service_lists (es : List (Event Thread)) :
    OrderedService.accepts (es.filterMap Event.service?) = accepted es ∧
      OrderedService.fetches (es.filterMap Event.service?) = popped es ∧
      OrderedService.processes (es.filterMap Event.service?) = evaluated es ∧
      OrderedService.deliveries (es.filterMap Event.service?) = reported es ∧
      OrderedService.finishes (es.filterMap Event.service?) = counted es := by
  refine ⟨?_, ?_, ?_, ?_, ?_⟩
  · rw [OrderedService.accepts, List.filterMap_filterMap, accepted]
    congr 1
    funext e
    cases e <;> rfl
  · rw [OrderedService.fetches, List.filterMap_filterMap, popped]
    congr 1
    funext e
    cases e <;> rfl
  · rw [OrderedService.processes, List.filterMap_filterMap, evaluated]
    congr 1
    funext e
    cases e <;> rfl
  · rw [OrderedService.deliveries, List.filterMap_filterMap, reported]
    congr 1
    funext e
    cases e <;> rfl
  · rw [OrderedService.finishes, List.countP_filterMap, counted]
    congr 1
    funext e
    cases e <;> rfl

/-- The engine simulates the service. -/
lemma serves_simulation (cfg : Config) (Thread : Type) [DecidableEq Thread] :
    ForwardSimulation (system cfg Thread) SoleStart (service cfg) Event.service?
      (fun s st => Serves cfg s st) where
  init := ⟨controlInv_init Thread, ⟨[], pipeInv_init cfg Thread⟩, rfl⟩
  step h hsole hs := h.step hsole (move_of_step hs).1

/-- **The engine refines the service**, under any number of control threads, as long as every
`start()` that finds `running_` false finds at that moment that `worker_` is not joinable and that
no other `start()` is past its test (`SoleStart`, which leaves out a `start()` that tests before a
join has ended and creates its thread after it). So everything that a run shows of the events is a
history of the service; at its end the events that wait are those in the ring, and the server has in
hand what the consumer has.

**Proof sketch.** `Serves` is kept by every step. -/
theorem engine_refines_service (cfg : Config) (Thread : Type) [DecidableEq Thread] :
    ForwardSimulation (system cfg Thread) SoleStart (service cfg) Event.service?
      (fun s st => Serves cfg s st) ∧
    ∀ es s, (system cfg Thread).Run SoleStart (system cfg Thread).init es s →
      ∃ st, (service cfg).Run (service cfg).init (es.filterMap Event.service?) st ∧
        (∃ n, Stores defaultRingCapacity s.ring n st.waiting) ∧ st.hand = s.current.hand cfg := by
  refine ⟨serves_simulation cfg Thread, fun es s hrun => ?_⟩
  obtain ⟨st, hst, -, ⟨es', hpipe⟩, hhand⟩ := (serves_simulation cfg Thread).run hrun
  exact ⟨st, hst, hpipe.stores, hhand⟩

/-- One event is submitted to a running engine, and its consumer finds the ring empty again. -/
def serveOne : List (Action Unit) :=
  .callStart () :: List.replicate 4 (.stepControl () false) ++
  .callSubmit 7 :: List.replicate 4 .stepProducer ++ List.replicate 11 (.stepWorker 0)

/-- The run of an engine that serves one event is one of the service. -/
theorem engine_refines_service_example :
    ∃ s es st, (system numberedEvents Unit).Run SoleStart (system numberedEvents Unit).init es s ∧
      accepted es = [7] ∧ (service numberedEvents).Run (service numberedEvents).init
        (es.filterMap Event.service?) st ∧ st.hand = s.current.hand numberedEvents := by
  have h : ((system numberedEvents Unit).exec SoleStart (system numberedEvents Unit).init
      serveOne).map (fun r => accepted r.2) = some [7] := by rfl
  obtain ⟨s, es, hrun, haccepted⟩ := System.exists_run_of_exec h
  obtain ⟨st, hst, -, hhand⟩ := (engine_refines_service numberedEvents Unit).2 es s hrun
  exact ⟨s, es, st, hrun, haccepted, hst, hhand⟩

/-- **What `submit()` and `try_pop()` say of the events accepted.** Take any run in which every
`start()` that finds `running_` false finds at that moment that `worker_` is not joinable and that
no other `start()` is past its test (`SoleStart`, as in `engine_refines_service`). When `submit()`
turns an event away, exactly 65535 events wait in the ring; when `try_pop()` finds the ring empty,
every event accepted until then is evaluated, reported and counted; and at no moment are more than
65536 events accepted and not counted.

**Proof sketch.** They are properties of every history of the service, of which the engine shows
one. -/
theorem backpressure_exact
    (h : (system cfg Thread).Run SoleStart (system cfg Thread).init es s) :
    (∀ es₁ ptr es₂, es = es₁ ++ .rejected ptr :: es₂ →
      (accepted es₁).length = (popped es₁).length + 65535) ∧
    (∀ es₁ es₂, es = es₁ ++ .poppedNothing :: es₂ →
      evaluated es₁ = accepted es₁ ∧
        (cfg.onResult = true → reported es₁ = (accepted es₁).map cfg.result) ∧
        counted es₁ = (accepted es₁).length) ∧
    (accepted es).length ≤ counted es + 65536 := by
  obtain ⟨st, hst, -⟩ := (serves_simulation cfg Thread).run h
  refine ⟨?_, ?_, ?_⟩
  · rintro es₁ ptr es₂ rfl
    obtain ⟨haccepts, hfetches, -, -, -⟩ := service_lists es₁
    rw [List.filterMap_append, List.filterMap_cons] at hst
    rw [← haccepts, ← hfetches]
    exact OrderedService.run_reject hst
  · rintro es₁ es₂ rfl
    obtain ⟨haccepts, -, hprocesses, hdeliveries, hfinishes⟩ := service_lists es₁
    rw [List.filterMap_append, List.filterMap_cons] at hst
    rw [← haccepts, ← hprocesses, ← hdeliveries, ← hfinishes]
    exact OrderedService.run_seenEmpty hst
  · obtain ⟨haccepts, -, -, -, hfinishes⟩ := service_lists es
    rw [← haccepts, ← hfinishes]
    exact OrderedService.run_backlog hst

/-- The consumer finds the ring empty after one event, which then has been evaluated and counted. -/
theorem backpressure_exact_example :
    ∃ s es, (system numberedEvents Unit).Run SoleStart (system numberedEvents Unit).init es s ∧
      accepted es = [7] ∧ evaluated es = [7] ∧ counted es = 1 := by
  have h : ((system numberedEvents Unit).exec SoleStart (system numberedEvents Unit).init
      serveOne).map (fun r => (r.2.getLast?, accepted r.2)) =
      some (some .poppedNothing, [7]) := by rfl
  obtain ⟨s, es, hrun, hv⟩ := System.exists_run_of_exec h
  obtain ⟨hlast, haccepted⟩ := Prod.mk.inj hv
  obtain ⟨front, rfl⟩ := List.getLast?_eq_some_iff.mp hlast
  obtain ⟨hevaluated, -, hcounted⟩ := (backpressure_exact hrun).2.1 front [] rfl
  have hfront : accepted front = [7] := by
    rw [accepted_append] at haccepted
    exact (List.append_nil _).symm.trans haccepted
  refine ⟨s, _, hrun, haccepted, ?_, ?_⟩
  · rw [evaluated_append, hevaluated, hfront]
    rfl
  · rw [counted_append, hcounted, hfront]
    rfl

end NullRing.Engine
