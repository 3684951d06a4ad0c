import NullRing.Engine.DrainBound
import NullRing.Engine.SingleConsumer

set_option relaxedAutoImplicit false
set_option autoImplicit false

/-!
# How long an accepted event waits

The consumer spins on the ring and never blocks, so how long an accepted event waits can be counted
in steps of the consumer, whatever the other threads do in between: eight for each event ahead of
it and for itself, as long as the calls of `start()` meet `SoleStart`. The count does not depend on
`running_`: a consumer that finds it false drains the ring before it ends.

## Main definitions

* `Engine.WorkerPc.toCount` — how far the consumer is from counting its next event.
* `Engine.Serving` — the invariant.

## Main results

* `Engine.accepted_events_served` — every accepted event is evaluated, reported and counted within
  a number of steps of the consumer.
-/

namespace NullRing.Engine

open RingBuffer Transition

/-- How many steps the consumer takes until it has counted its next event, if the ring is not
empty. -/
def WorkerPc.toCount : WorkerPc (PopPc ℕ) → ℕ
  | .counting _ => 1
  | .reporting _ _ => 2
  | .evaluating _ _ => 3
  | .popping _ (.storeHead _ _) => 4
  | .popping _ (.readSlot _) => 5
  | .popping _ (.loadTail _) => 6
  | .popping _ .loadHead => 7
  | .checkRunning => 8
  | .yielding => 9
  | .exited => 0

/-- A round is nine steps at most, and one at least is left to a consumer that runs. -/
lemma WorkerPc.toCount_bounds (pc : WorkerPc (PopPc ℕ)) :
    pc.toCount ≤ 9 ∧ (pc ≠ .exited → 1 ≤ pc.toCount) := by
  cases pc with
  | popping loop pc => cases pc <;> simp [WorkerPc.toCount]
  | _ => simp [WorkerPc.toCount]

variable {Thread : Type} [DecidableEq Thread] {cfg : Config} {s s' : State Thread}
  {a : Action Thread} {out es es' : List (Event Thread)} {q : List ℕ} {id A : ℕ}

omit [DecidableEq Thread] in
/-- While an accepted event is not counted, a consumer in `try_pop()` does not find the ring
empty. -/
lemma PipeInv.ring_ne (h : PipeInv cfg es q s) (hlt : counted es < (accepted es).length)
    {loop : Loop} {pc : PopPc ℕ} (hpc : s.current = .popping loop pc) :
    s.ring.head ≠ s.ring.tail := by
  obtain ⟨n, hstores⟩ := h.stores
  intro hempty
  have haccepted := h.accepted_eq
  have hcount := h.count_eq
  rw [hstores.empty_iff.mp hempty, h.popped_eq, hpc] at haccepted
  rw [hpc] at hcount
  rw [haccepted] at hlt
  simp only [WorkerPc.held, WorkerPc.uncounted, List.append_nil] at hlt hcount
  omega

/-- **A step of the consumer while an accepted event is not counted**: the consumer does not end,
and it is nearer to counting its next event, or counts it.

**Proof sketch.** By cases on the step. An accepted event that is not counted is in the ring or in
the consumer's hand, so where the consumer looks at the ring it does not find it empty (`ring_ne`),
and goes on to the next step of its round; `toCount` counts the steps of the round. -/
lemma PipeInv.count_step (h : PipeInv cfg es q s) (hctl : ControlInv s)
    (hmove : Move cfg s (.stepWorker id) s' out) (hlt : counted es < (accepted es).length) :
    s'.workers id ≠ .exited ∧ (∀ i, .exited i ∉ out) ∧
      (counted out = 0 ∧ (s'.workers id).toCount + 1 = (s.workers id).toCount ∨
        counted out = 1 ∧ (s.workers id).toCount = 1 ∧ (s'.workers id).toCount ≤ 8) := by
  have hcur := hctl.current_eq hmove.not_exited
  have hgo : ∀ {pc : WorkerPc (PopPc ℕ)}, 0 < pc.toCount → pc ≠ .exited := by
    rintro _ hpos rfl
    exact Nat.lt_irrefl 0 hpos
  cases hmove with
  | checkMain hpc _ | checkDrain hpc _ | yield hpc =>
    rw [setWorker_self, hpc]
    exact ⟨hgo (Nat.succ_pos _), by simp, Or.inl ⟨rfl, rfl⟩⟩
  | evaluate hpc =>
    rw [setWorker_self, hpc]
    exact ⟨hgo (Nat.succ_pos _), by simp, Or.inl ⟨rfl, rfl⟩⟩
  | report hpc =>
    rw [setWorker_self, hpc]
    refine ⟨hgo (Nat.succ_pos _), fun i hi => ?_, Or.inl ⟨?_, rfl⟩⟩
    · split at hi <;> simp at hi
    · split <;> rfl
  | @count _ loop hpc =>
    rw [setWorker_self, hpc]
    cases loop with
    | main => exact ⟨hgo (Nat.succ_pos _), by simp, Or.inr ⟨rfl, rfl, Nat.le_refl _⟩⟩
    | drain => exact ⟨hgo (Nat.succ_pos _), by simp, Or.inr ⟨rfl, rfl, Nat.le_succ _⟩⟩
  | @pop _ loop pc hpc =>
    have hne := h.ring_ne hlt (hcur.trans hpc)
    have hok := h.consumer
    rw [hcur, hpc] at hok
    rw [setWorker_self, hpc]
    cases pc with
    | loadHead => exact ⟨hgo (Nat.succ_pos _), fun _ => List.not_mem_nil, Or.inl ⟨rfl, rfl⟩⟩
    | loadTail currentHead =>
      obtain rfl : currentHead = s.ring.head := hok
      rw [popStep, if_neg hne]
      exact ⟨hgo (Nat.succ_pos _), fun _ => List.not_mem_nil, Or.inl ⟨rfl, rfl⟩⟩
    | readSlot currentHead =>
      exact ⟨hgo (Nat.succ_pos _), fun _ => List.not_mem_nil, Or.inl ⟨rfl, rfl⟩⟩
    | storeHead currentHead ptr =>
      refine ⟨hgo (Nat.succ_pos _), fun i hi => ?_, Or.inl ⟨rfl, rfl⟩⟩
      cases List.mem_singleton.mp hi

/-- A step of another thread leaves a consumer that runs where it is, and shows nothing of it.

**Proof sketch.** A consumer that runs is not changed by a creation, as none is created while it
runs; and the events of a consumer are shown by its own steps. -/
lemma ControlInv.other_step (hctl : ControlInv s) (hmove : Move cfg s a s' out)
    (ha : ∀ id, a ≠ .stepWorker id) (hcur : s.current ≠ .exited) :
    s'.current = s.current ∧ counted out = 0 ∧ ∀ i, .exited i ∉ out := by
  refine ⟨?_, ?_, fun i hi => ?_⟩
  · rcases hmove.current_cases with hsame | ⟨t, hpc, -⟩ | ⟨id, hid, -⟩
    · exact hsame
    · exact absurd (hctl.current_of_createThread hpc) hcur
    · exact absurd hid (ha id)
  · refine List.countP_eq_zero.mpr fun e he => ?_
    cases e with
    | counted =>
      obtain ⟨id, loop, hid, -⟩ := hmove.shows he
      exact absurd hid (ha id)
    | _ => exact Bool.false_ne_true
  · obtain ⟨pc, hid, -⟩ := hmove.shows hi
    exact ha i hid

/-- The invariant from a moment at which `es` was seen: the first `A` events are counted, or the
consumer that ran then still runs, and its steps since have used up the measure. -/
structure Serving (cfg : Config) (es : List (Event Thread)) (A bound : ℕ)
    (tr : List (Taken (State Thread) (Action Thread) (Event Thread))) (s : State Thread) :
    Prop where
  control : ControlInv s
  pipe : ∃ q, PipeInv cfg (es ++ System.events tr) q s
  served : A ≤ counted (es ++ System.events tr) ∨ s.current ≠ .exited ∧
    (∀ i, .exited i ∉ System.events tr) ∧
    8 * (A - counted (es ++ System.events tr)) + s.current.toCount + workerSteps tr ≤ bound

/-- The step lemma.

**Proof sketch.** If the events are counted after the step there is nothing to show. Otherwise a
step of the consumer is `count_step`, by which the measure goes down as the number of its steps goes
up, and any other step leaves the consumer and the count alone. -/
lemma Serving.step {tr : List (Taken (State Thread) (Action Thread) (Event Thread))} {bound : ℕ}
    (h : Serving cfg es A bound tr s) (hA : A ≤ (accepted es).length) (hsole : SoleStart s a)
    (hs : Engine.step cfg s a = some (s', out)) :
    Serving cfg es A bound (tr ++ [⟨s, a, out, s'⟩]) s' := by
  obtain ⟨hctl, ⟨q, hpipe⟩, hserved⟩ := h
  obtain ⟨hmove, -⟩ := move_of_step hs
  obtain ⟨q', hpipe'⟩ := hpipe.step hctl hmove
  rw [List.append_assoc] at hpipe'
  refine ⟨hctl.step hsole hmove, ⟨q', by rw [System.events_snoc]; exact hpipe'⟩, ?_⟩
  rw [System.events_snoc, ← List.append_assoc, counted_append, workerSteps_append]
  by_cases hdone : A ≤ counted (es ++ System.events tr) + counted out
  · exact Or.inl hdone
  obtain ⟨hcur, hexits, hbound⟩ := hserved.resolve_left (by omega)
  right
  by_cases ha : ∃ id, a = .stepWorker id
  · obtain ⟨id, rfl⟩ := ha
    have hid := hmove.not_exited
    have hlt : counted (es ++ System.events tr) < (accepted (es ++ System.events tr)).length := by
      rw [accepted_append, List.length_append]
      omega
    obtain ⟨halive, hnone, hcases⟩ := hpipe.count_step hctl hmove hlt
    have hone : workerSteps [⟨s, .stepWorker id, out, s'⟩] = 1 := rfl
    rw [hctl.current_eq hid] at hbound
    rw [hmove.current_of_stepWorker hctl hid, hone]
    refine ⟨halive, fun i hi => ?_, by omega⟩
    exact (List.mem_append.mp hi).elim (hexits i) (hnone i)
  · have ha' : ∀ id, a ≠ .stepWorker id := fun id hid => ha ⟨id, hid⟩
    obtain ⟨hsame, hcount, hnone⟩ := hctl.other_step hmove ha' hcur
    have hzero : workerSteps [⟨s, a, out, s'⟩] = 0 := by
      cases a <;> first | rfl | exact absurd rfl (ha' _)
    rw [hsame, hcount, hzero]
    refine ⟨hcur, fun i hi => ?_, by omega⟩
    exact (List.mem_append.mp hi).elim (hexits i) (hnone i)

omit [DecidableEq Thread] in
/-- When `A` events are counted, the first `A` that were accepted are evaluated and reported.

**Proof sketch.** The events evaluated are a prefix of those accepted, and at least as many as those
counted, so at least the first `A` are among them. The results reported lag behind by at most the
one pending, and that is then not counted either. -/
lemma PipeInv.served_of_counted {es₀ : List (Event Thread)} (h : PipeInv cfg es q s)
    (hinitial : accepted es₀ <+: accepted es) (hcount : (accepted es₀).length ≤ counted es) :
    accepted es₀ <+: evaluated es ∧
      (cfg.onResult = true → (accepted es₀).map cfg.result <+: reported es) := by
  have hevaluated : evaluated es <+: accepted es := by
    rw [h.accepted_eq, h.popped_eq, List.append_assoc]
    exact List.prefix_append ..
  have hlen := h.count_eq
  refine ⟨List.prefix_of_prefix_length_le hinitial hevaluated (by omega), fun hcb => ?_⟩
  have hresults := h.results_eq hcb
  have hreported : reported es <+: (accepted es).map cfg.result :=
    (hresults ▸ List.prefix_append ..).trans (hevaluated.map _)
  refine List.prefix_of_prefix_length_le (hinitial.map _) hreported ?_
  have hpending : s.current.pending.length ≤ s.current.uncounted := by
    cases s.current <;> simp [WorkerPc.pending, WorkerPc.uncounted]
  have hlengths := congrArg List.length hresults
  rw [List.length_map, List.length_append] at hlengths
  rw [List.length_map]
  omega

/-- **An accepted event is served in time.** Take any number of control threads, in any order of
steps in which every `start()` that finds `running_` false finds at that moment that `worker_` is
not joinable and that no other `start()` is past its test. (That is `SoleStart`, and it leaves out
a `start()` that tests before a join has ended and creates its thread only after it.) Take any
moment at which a consumer runs. When `k` of the events accepted until then are not counted yet,
then after `8 k + 1` further steps of the consumer, or when it has left `consumer_loop()`, every
event accepted until then is evaluated, its result reported to the callback, and counted, whatever
the control threads and the producer did in between.

**Proof sketch.** `Serving` is kept by every step. A consumer in `try_pop()` does not find the ring
empty while an accepted event is not counted, so each of its steps brings it nearer to counting the
next one; and it leaves its loops only when it finds the ring empty. -/
theorem accepted_events_served
    {tr : List (Taken (State Thread) (Action Thread) (Event Thread))}
    (h : (system cfg Thread).Run SoleStart (system cfg Thread).init es s)
    (halive : ∃ i, s.workers i ≠ .exited) (htr : (system cfg Thread).Trace SoleStart s tr s')
    (hsteps : 8 * ((accepted es).length - counted es) + 1 ≤ workerSteps tr ∨
      ∃ i, .exited i ∈ System.events tr) :
    accepted es <+: evaluated (es ++ System.events tr) ∧
      (cfg.onResult = true →
        (accepted es).map cfg.result <+: reported (es ++ System.events tr)) ∧
      (accepted es).length ≤ counted (es ++ System.events tr) := by
  obtain ⟨hctl, q, hpipe⟩ : ControlInv s ∧ ∃ q, PipeInv cfg es q s := by
    refine h.invariant (I := fun es s => ControlInv s ∧ ∃ q, PipeInv cfg es q s)
      ⟨controlInv_init Thread, [], pipeInv_init cfg Thread⟩ ?_
    rintro es s a s' out ⟨hctl, q, hpipe⟩ hsole hs
    obtain ⟨hmove, -⟩ := move_of_step hs
    exact ⟨hctl.step hsole hmove, hpipe.step hctl hmove⟩
  obtain ⟨i, hi⟩ := halive
  have hcur : s.current ≠ .exited := by rwa [hctl.current_eq hi]
  have hbounds := WorkerPc.toCount_bounds s.current
  have hserving : Serving cfg es (accepted es).length
      (8 * ((accepted es).length - counted es) + 9) tr s' := by
    refine htr.invariant (I := fun tr s => Serving cfg es (accepted es).length
      (8 * ((accepted es).length - counted es) + 9) tr s) ⟨hctl, ⟨q, ?_⟩, Or.inr ⟨hcur, nofun, ?_⟩⟩
      fun _ _ _ _ _ hI hsole hs => hI.step (Nat.le_refl _) hsole hs
    · rwa [System.events_nil, List.append_nil]
    · rw [System.events_nil, List.append_nil, show workerSteps ([] : List (Taken (State Thread)
        (Action Thread) (Event Thread))) = 0 from rfl]
      omega
  obtain ⟨-, ⟨q', hpipe'⟩, hserved⟩ := hserving
  have hcount : (accepted es).length ≤ counted (es ++ System.events tr) := by
    rcases hserved with hdone | ⟨hcur', hexits, hbound⟩
    · exact hdone
    · rcases hsteps with hsteps | ⟨i, hi⟩
      · have hpos := (WorkerPc.toCount_bounds s'.current).2 hcur'
        omega
      · exact absurd hi (hexits i)
  have hinitial : accepted es <+: accepted (es ++ System.events tr) := by
    rw [accepted_append]
    exact List.prefix_append ..
  obtain ⟨hevaluated, hreported⟩ := hpipe'.served_of_counted hinitial hcount
  exact ⟨hevaluated, hreported, hcount⟩

/-- The engine is started, and two events are submitted. -/
def submitTwo : List (Action Bool) :=
  .callStart false :: List.replicate 4 (.stepControl false false) ++
  .callSubmit 7 :: List.replicate 4 .stepProducer ++
  .callSubmit 8 :: List.replicate 4 .stepProducer

/-- The other control thread clears `running_`, and the consumer drains the ring. -/
def drainTwo : List (Action Bool) :=
  [.callStop true, .stepControl true false, .stepControl true false] ++
  List.replicate 17 (.stepWorker 0)

/-- Two events are accepted, and the consumer serves them within the bound although `stop()` is
called. -/
theorem accepted_events_served_example :
    ∃ s es tr s',
      (system numberedEvents Bool).Run SoleStart (system numberedEvents Bool).init es s ∧
      (system numberedEvents Bool).Trace SoleStart s tr s' ∧
      [7, 8] <+: evaluated (es ++ System.events tr) := by
  have h : ((system numberedEvents Bool).exec SoleStart (system numberedEvents Bool).init
      submitTwo).map (fun r => (r.1.workers 0, accepted r.2, counted r.2,
        ((system numberedEvents Bool).record SoleStart r.1 drainTwo).map
          fun r => workerSteps r.2)) =
      some (.checkRunning, [7, 8], 0, some 17) := by rfl
  obtain ⟨s, es, hrun, hv⟩ := System.exists_run_of_exec h
  obtain ⟨hworker, hv⟩ := Prod.mk.inj hv
  obtain ⟨haccepted, hv⟩ := Prod.mk.inj hv
  obtain ⟨hcounted, hv⟩ := Prod.mk.inj hv
  obtain ⟨s', tr, htr, hsteps⟩ := System.exists_trace_of_record hv
  have hserved := accepted_events_served hrun ⟨0, by rw [hworker]; nofun⟩ htr
    (Or.inl (by rw [haccepted, hcounted, hsteps]; decide))
  exact ⟨s, es, tr, s', hrun, htr, haccepted ▸ hserved.1⟩

end NullRing.Engine
