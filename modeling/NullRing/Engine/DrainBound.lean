import NullRing.Engine.Solo
import NullRing.Transition.Trace

set_option relaxedAutoImplicit false
set_option autoImplicit false

/-!
# How much work a `stop()` leaves

Once `stop()` has stored `running_ = false`, the consumer finishes the call of `try_pop()` it is
in, leaves its main loop at the next test, and leaves its second loop at the first `try_pop()`
that returns nothing. What it can pop is what was in the ring and what is accepted meanwhile, so
with a bound on the latter the loop ends: each event popped takes the consumer at most eight
steps, and at most two calls of `try_pop()` return nothing.

## Main definitions

* `Engine.WorkerPc.emptyPopsLeft`, `Engine.WorkerPc.stepsLeft` — what the consumer has left to do.
* `Engine.Closing` — the invariant after the store of `stop()`.

## Main results

* `Engine.Closing.step` — the step lemma.
* `Engine.shutdown_bounded` — the bounds.
-/

namespace NullRing.Engine

open RingBuffer Transition

/-! ## What the consumer has left to do -/

/-- A `try_pop()` that returns nothing. -/
def Event.isPoppedNothing {Thread : Type} : Event Thread → Bool
  | .poppedNothing => true
  | _ => false

/-- How many calls of `try_pop()` returned nothing in a run. -/
def emptyPops {Thread : Type} (es : List (Event Thread)) : ℕ := es.countP Event.isPoppedNothing

/-- The calls that return nothing add up. -/
@[simp] lemma emptyPops_append {Thread : Type} (es es' : List (Event Thread)) :
    emptyPops (es ++ es') = emptyPops es + emptyPops es' := List.countP_append ..

/-- How many more calls of `try_pop()` may return nothing, once `running_` is false. -/
def WorkerPc.emptyPopsLeft : WorkerPc (PopPc ℕ) → ℕ
  | .popping .main _ => 2
  | .exited => 0
  | _ => 1

/-- How many more steps the consumer may take until it next pops an event or ends, once `running_`
is false; after a pop the count starts again at eight. -/
def WorkerPc.stepsLeft : WorkerPc (PopPc ℕ) → ℕ
  | .evaluating _ _ => 8
  | .reporting _ _ => 7
  | .counting _ => 6
  | .yielding => 6
  | .checkRunning => 5
  | .popping .main .loadHead => 8
  | .popping .main (.loadTail _) => 7
  | .popping .drain .loadHead => 4
  | .popping .drain (.loadTail _) => 3
  | .popping _ (.readSlot _) => 2
  | .popping _ (.storeHead _ _) => 1
  | .exited => 0

/-- What a consumer has left to do at any point. -/
lemma WorkerPc.left_le (pc : WorkerPc (PopPc ℕ)) : pc.emptyPopsLeft ≤ 2 ∧ pc.stepsLeft ≤ 8 := by
  cases pc with
  | popping loop pc =>
    cases loop <;> cases pc <;> simp [WorkerPc.emptyPopsLeft, WorkerPc.stepsLeft]
  | _ => simp [WorkerPc.emptyPopsLeft, WorkerPc.stepsLeft]

/-- The steps taken by consumers. -/
def workerSteps {Thread : Type} (tr : List (Taken (State Thread) (Action Thread) (Event Thread))) :
    ℕ :=
  tr.countP fun e => match e.act with
    | .stepWorker _ => true
    | _ => false

/-- The steps of the consumers add up. -/
lemma workerSteps_append {Thread : Type}
    (tr tr' : List (Taken (State Thread) (Action Thread) (Event Thread))) :
    workerSteps (tr ++ tr') = workerSteps tr + workerSteps tr' := List.countP_append ..

variable {cfg : Config}

/-- **A step of the consumer uses up what it has left to do**, or pops an event.

**Proof sketch.** By cases on the step. While `running_` is false a check leads to the second loop;
an empty `try_pop` leads from the main loop to the check, and ends the second loop; and a step that
pops an event is followed by the eight of its round, which is what the bound allows for it. -/
lemma Move.worker_progress {Thread : Type} [DecidableEq Thread] {s s' : State Thread}
    {out : List (Event Thread)} {id : ℕ} (hmove : Move cfg s (.stepWorker id) s' out)
    (hrun : s.running = false) :
    emptyPops out + (s'.workers id).emptyPopsLeft ≤ (s.workers id).emptyPopsLeft ∧
      (s'.workers id).stepsLeft + 1 ≤ (s.workers id).stepsLeft + 8 * (popped out).length := by
  cases hmove with
  | checkMain _ hrun' =>
    rw [hrun] at hrun'
    cases hrun'
  | checkDrain hpc _ =>
    rw [setWorker_self, hpc]
    exact ⟨le_rfl, le_rfl⟩
  | @pop _ loop pc hpc =>
    rw [setWorker_self, hpc]
    cases pc with
    | loadHead => cases loop <;> exact ⟨le_rfl, le_rfl⟩
    | loadTail currentHead =>
      by_cases heq : currentHead = s.ring.tail
      · rw [popStep, if_pos heq]
        cases loop with
        | main => exact ⟨le_rfl, le_rfl⟩
        | drain =>
          refine ⟨le_rfl, ?_⟩
          show 0 + 1 ≤ 3 + _
          omega
      · rw [popStep, if_neg heq]
        cases loop with
        | main =>
          refine ⟨le_rfl, ?_⟩
          show 2 + 1 ≤ 7 + _
          omega
        | drain => exact ⟨le_rfl, le_rfl⟩
    | readSlot currentHead => cases loop <;> exact ⟨le_rfl, le_rfl⟩
    | storeHead currentHead ptr =>
      cases loop with
      | main =>
        refine ⟨?_, le_rfl⟩
        show 0 + 1 ≤ 2
        omega
      | drain => exact ⟨le_rfl, le_rfl⟩
  | evaluate hpc =>
    rw [setWorker_self, hpc]
    exact ⟨le_rfl, le_rfl⟩
  | report hpc =>
    rw [setWorker_self, hpc]
    refine ⟨?_, ?_⟩
    · split <;> exact le_rfl
    · split <;> exact le_rfl
  | @count _ loop hpc =>
    rw [setWorker_self, hpc]
    cases loop with
    | main => exact ⟨le_rfl, le_rfl⟩
    | drain =>
      refine ⟨le_rfl, ?_⟩
      show 4 + 1 ≤ 6 + _
      omega
  | yield hpc =>
    rw [setWorker_self, hpc]
    exact ⟨le_rfl, le_rfl⟩

/-- A consumer that has not ended can take a step. -/
lemma workerStep_isSome {Thread : Type} {s : State Thread} {id : ℕ} {pc : WorkerPc (PopPc ℕ)}
    (h : pc ≠ .exited) : (workerStep cfg s id pc).isSome := by
  cases pc with
  | checkRunning => simp only [workerStep]; split <;> rfl
  | reporting loop result => simp only [workerStep]; split <;> rfl
  | exited => exact absurd rfl h
  | _ => rfl

/-- A consumer that takes a step has not ended. -/
lemma Move.not_exited {Thread : Type} [DecidableEq Thread] {s s' : State Thread}
    {out : List (Event Thread)} {id : ℕ} (hmove : Move cfg s (.stepWorker id) s' out) :
    s.workers id ≠ .exited := by
  intro hexit
  cases hmove with
  | checkMain hpc _ | checkDrain hpc _ => rw [hexit] at hpc; cases hpc
  | pop hpc | evaluate hpc | report hpc | count hpc | yield hpc => rw [hexit] at hpc; cases hpc

/-- Only a consumer shows that `try_pop()` returned nothing. -/
lemma Move.emptyPops_eq_zero {Thread : Type} [DecidableEq Thread] {s s' : State Thread}
    {a : Action Thread} {out : List (Event Thread)} (hmove : Move cfg s a s' out)
    (ha : ∀ id, a ≠ .stepWorker id) : emptyPops out = 0 := by
  refine List.countP_eq_zero.mpr fun e he => ?_
  cases e with
  | poppedNothing =>
    obtain ⟨id, loop, pc, hid, -⟩ := hmove.shows he
    exact absurd hid (ha id)
  | _ => exact Bool.false_ne_true

/-! ## After the store of `stop()` -/

/-- The invariant after the store of `stop()`, until `start()` is called. -/
structure Closing (s : State Unit) : Prop where
  apart : ApartInv s
  cleared : s.running = false
  noStart : ¬ (s.control ()).InStart
  /-- While the consumer runs, `stop()` is about to join it. -/
  waiting : s.current ≠ .exited → (s.control ()).Joining ∧ s.life.ongoing = true

variable {s s' : State Unit} {a : Action Unit} {out : List (Event Unit)}

namespace Closing

/-- While the consumer runs, `worker_` owns it. -/
lemma worker_eq (h : Closing s) (hcur : s.current ≠ .exited) : s.worker = some (s.spawned - 1) := by
  rcases (h.apart.consumer _ hcur).2 with hown | ⟨t, ht⟩
  · exact hown
  · exact absurd (by rw [ht]; trivial) h.noStart

/-- The step lemma of `waiting`: `stop()` waits for the consumer.

**Proof sketch.** By cases on the step. The control thread is past the store of `stop()`, with
`worker_` joinable, so its step is the test of `joinable()` or the end of `join`; and that takes a
consumer that has ended. -/
lemma waiting_step (h : Closing s) (hmove : Move cfg s a s' out) (hcur : s.current ≠ .exited) :
    (s'.control ()).Joining ∧ s'.life.ongoing = true := by
  obtain ⟨hjoin, hlife⟩ := h.waiting hcur
  have hw := h.worker_eq hcur
  cases hmove with
  | callStart hpc _ | callStop hpc _ | callDestructor hpc _ => rw [hpc] at hjoin; exact hjoin.elim
  | startFound hpc _ | startPass hpc _ | startStore hpc => rw [hpc] at hjoin; exact hjoin.elim
  | createThrow hpc | create hpc => rw [hpc] at hjoin; exact hjoin.elim
  | assignJoinable hpc _ | assign hpc _ => rw [hpc] at hjoin; exact hjoin.elim
  | stopIdle hpc _ | stopPass hpc _ | stopStore hpc => rw [hpc] at hjoin; exact hjoin.elim
  | notJoinable _ hnone | joinThrow _ hnone | destructorThrow _ hnone =>
    rw [hw] at hnone
    cases hnone
  | isJoinable _ _ => exact ⟨trivial, hlife⟩
  | joined _ hown hexit =>
    rw [hw] at hown
    cases hown
    exact absurd hexit hcur
  | callSubmit _ | submit _ | checkMain _ _ | checkDrain _ _ => exact ⟨hjoin, hlife⟩
  | pop _ | evaluate _ | report _ | count _ | yield _ => exact ⟨hjoin, hlife⟩

/-- `running_` stays false. -/
lemma cleared_step (h : Closing s) (hmove : Move cfg s a s' out) : s'.running = false := by
  have hcleared := h.cleared
  cases hmove with
  | startStore hpc => exact absurd (by rw [show s.control () = _ from hpc]; trivial) h.noStart
  | stopStore _ => rfl
  | stopIdle _ _ | notJoinable _ _ | joined _ _ _ => rwa [stopReturn_running]
  | _ => exact hcleared

/-- **The step lemma**: the invariant is kept until `start()` is called. -/
theorem step (h : Closing s) (hno : NoStart s a) (hmove : Move cfg s a s' out) : Closing s' where
  apart := apartInv_step_unit h.apart hmove
  cleared := h.cleared_step hmove
  noStart := by
    intro hin
    rcases hmove.control_cases.2 hin with hin | ⟨rfl, -⟩
    · exact h.noStart hin
    · exact hno
  waiting := by
    intro hcur
    refine h.waiting_step hmove fun hexit => ?_
    rcases current_exited_step h.apart.toControlInv hmove hexit with hexit' | ⟨t, ht⟩
    · exact hcur hexit'
    · exact h.noStart (by rw [show s.control () = _ from ht]; trivial)

/-- What the consumer has left to do is used up by its steps, and only by them.

**Proof sketch.** A step of the consumer is `worker_progress`. No other step changes the consumer or
pops an event. -/
lemma progress (h : Closing s) (hmove : Move cfg s a s' out) :
    emptyPops out + s'.current.emptyPopsLeft ≤ s.current.emptyPopsLeft ∧
      s'.current.stepsLeft + workerSteps [⟨s, a, out, s'⟩] ≤
        s.current.stepsLeft + 8 * (popped out).length := by
  have hctl := h.apart.toControlInv
  by_cases ha : ∃ id, a = .stepWorker id
  · obtain ⟨id, rfl⟩ := ha
    have hid := hmove.not_exited
    rw [hmove.current_of_stepWorker hctl hid, hctl.current_eq hid]
    exact hmove.worker_progress h.cleared
  · have ha' : ∀ id, a ≠ .stepWorker id := fun id hid => ha ⟨id, hid⟩
    have hsame : s'.current = s.current := by
      rcases hmove.current_cases with hsame | ⟨t, hpc, -⟩ | ⟨id, hid, -⟩
      · exact hsame
      · exact absurd (by rw [show s.control () = _ from hpc]; trivial) h.noStart
      · exact absurd hid (ha' id)
    have hsteps : workerSteps [⟨s, a, out, s'⟩] = 0 := by
      cases a <;> first | rfl | exact absurd rfl (ha' _)
    rw [hsame, hmove.emptyPops_eq_zero ha', hsteps]
    omega

end Closing

/-- The store of `stop()`. -/
lemma closing_of_store (h : ApartInv s) {d b : Bool}
    (hpc : s.control () = .stopping d .storeRunning)
    (hstep : Engine.step cfg s (.stepControl () b) = some (s', out)) : Closing s' ∧ out = [] := by
  obtain ⟨hmove, hlife⟩ := move_of_step hstep
  have hapart := apartInv_step_unit h hmove
  rw [step_control hlife, controlStep, hpc] at hstep
  cases hstep
  exact ⟨⟨hapart, rfl, id, fun _ => ⟨trivial, hlife⟩⟩, rfl⟩

/-- The work done after the store of `stop()`.

**Proof sketch.** Induction on the trace, with `Closing.progress` for the last step. -/
lemma closing_of_trace {tr : List (Taken (State Unit) (Action Unit) (Event Unit))}
    (hclose : Closing s) (h : (system cfg Unit).Trace NoStart s tr s') :
    Closing s' ∧
      emptyPops (System.events tr) + s'.current.emptyPopsLeft ≤ s.current.emptyPopsLeft ∧
      s'.current.stepsLeft + workerSteps tr ≤
        s.current.stepsLeft + 8 * (popped (System.events tr)).length := by
  refine h.invariant (I := fun tr s' => Closing s' ∧
      emptyPops (System.events tr) + s'.current.emptyPopsLeft ≤ s.current.emptyPopsLeft ∧
      s'.current.stepsLeft + workerSteps tr ≤
        s.current.stepsLeft + 8 * (popped (System.events tr)).length) ?_ ?_
  · exact ⟨hclose, by simp [emptyPops], by simp [workerSteps]⟩
  · rintro tr s₁ a s₂ out ⟨hclose₁, hempty, hsteps⟩ hno hstep
    obtain ⟨hmove, -⟩ := move_of_step hstep
    obtain ⟨hempty', hsteps'⟩ := hclose₁.progress hmove
    refine ⟨hclose₁.step hno hmove, ?_, ?_⟩
    · rw [System.events_snoc, emptyPops_append]
      omega
    · rw [System.events_snoc, popped_append, List.length_append, workerSteps_append]
      omega

/-! ## The bounds -/

/-- In any part of a run, the events popped are at most those in the ring before it and those
accepted in it. -/
lemma PipeInv.popped_le {es es' : List (Event Unit)} {q q' : List ℕ} (h : PipeInv cfg es q s)
    (h' : PipeInv cfg (es ++ es') q' s') :
    (popped es').length ≤ q.length + (accepted es').length := by
  have hbefore := congrArg List.length h.accepted_eq
  have hafter := congrArg List.length h'.accepted_eq
  rw [accepted_append, popped_append] at hafter
  simp only [List.length_append] at hbefore hafter
  omega

/-- The consumer leaves its second loop at a `tail_` load that finds the ring empty, when what was
accepted is evaluated.

**Proof sketch.** The event shows that the step is one of `try_pop` that finds the ring empty, in
the second loop. The consumer then holds no event, so the events evaluated are those popped, and
those are the ones accepted. -/
lemma PipeInv.evaluated_of_exited {es : List (Event Unit)} {q : List ℕ} (h : PipeInv cfg es q s)
    (hctl : ControlInv s) (hmove : Move cfg s a s' out) {id : ℕ} (hexit : .exited id ∈ out) :
    (∃ currentHead, s.workers id = .popping .drain (.loadTail currentHead)) ∧
      evaluated es = accepted es := by
  obtain ⟨pc, -, hpc, hnone⟩ := hmove.shows hexit
  have hid : s.workers id ≠ .exited := by rw [hpc]; nofun
  have hcur := hctl.current_eq hid
  have hpop := h.consumer
  rw [hcur, hpc] at hpop
  obtain ⟨-, hempty⟩ := popStep_none hpop hnone
  obtain ⟨n, hstores⟩ := h.stores
  have hq : q = [] := hstores.empty_iff.mp hempty
  refine ⟨?_, ?_⟩
  · cases pc with
    | loadTail currentHead => exact ⟨currentHead, hpc⟩
    | _ => cases hnone
  · rw [h.accepted_eq, h.popped_eq, hcur, hpc, hq, List.append_nil]
    exact (List.append_nil _).symm

/-- **Shutdown work is bounded by what was accepted.** With one control thread and one producer,
whatever the order of their steps and those of the consumer: from the store of `stop()` on, and
until `start()` is called, while at most `k` further events are accepted, the consumer pops at
most `65535 + k` events and finds nothing at most twice, in at most `8 * (65535 + k) + 8` steps;
it can take a step until it has left `consumer_loop()`; and it leaves it at a `tail_` load before
which everything accepted is evaluated.

**Proof sketch.** What is popped was in the ring or is accepted (`PipeInv.popped_le`), and what the
consumer has left to do is used up by its steps (`Closing.progress`). -/
theorem shutdown_bounded {s₀ s₁ s : State Unit} {es out : List (Event Unit)} {d b : Bool}
    {tr : List (Taken (State Unit) (Action Unit) (Event Unit))} {k : ℕ}
    (hbefore : (system cfg Unit).Run System.anyStep (system cfg Unit).init es s₀)
    (hpc : s₀.control () = .stopping d .storeRunning)
    (hstore : step cfg s₀ (.stepControl () b) = some (s₁, out))
    (hafter : (system cfg Unit).Trace NoStart s₁ tr s)
    (hk : (accepted (System.events tr)).length ≤ k) :
    (popped (System.events tr)).length ≤ 65535 + k ∧
    emptyPops (System.events tr) ≤ 2 ∧
    workerSteps tr ≤ 8 * (65535 + k) + 8 ∧
    (s.current ≠ .exited → (step cfg s (.stepWorker (s.spawned - 1))).isSome) ∧
    ∀ mid e rest id, tr = mid ++ e :: rest → .exited id ∈ e.out →
      (∃ currentHead, e.pre.workers id = .popping .drain (.loadTail currentHead)) ∧
        evaluated (es ++ System.events mid) = accepted (es ++ System.events mid) := by
  have hapart := (pipeInv_of_run hbefore).1
  obtain ⟨hclose, rfl⟩ := closing_of_store hapart hpc hstore
  have hrun : (system cfg Unit).Run System.anyStep (system cfg Unit).init es s₁ := by
    have hstep : (system cfg Unit).step s₀ (.stepControl () b) = some (s₁, []) := hstore
    simpa using hbefore.snoc trivial hstep
  obtain ⟨-, q, hpipe⟩ := pipeInv_of_run hrun
  obtain ⟨-, q', hpipe'⟩ := pipeInv_of_run
    (hrun.append (hafter.run.mono fun _ _ _ => trivial))
  obtain ⟨n, hstores⟩ := hpipe.stores
  have hroom : q.length < 65536 := hstores.room
  have hpopped := hpipe.popped_le hpipe'
  obtain ⟨hclose', hempty, hsteps⟩ := closing_of_trace hclose hafter
  obtain ⟨hleft, hsteps'⟩ := s₁.current.left_le
  refine ⟨by omega, by omega, by omega, ?_, ?_⟩
  · intro hcur
    rw [step_worker (hclose'.waiting hcur).2 rfl]
    exact workerStep_isSome hcur
  · rintro mid e rest id rfl hexit
    obtain ⟨hmid, -, hstep, -⟩ := hafter.of_cons
    obtain ⟨hapart', q'', hpipe''⟩ := pipeInv_of_run
      (hrun.append (hmid.run.mono fun _ _ _ => trivial))
    exact hpipe''.evaluated_of_exited hapart'.toControlInv (move_of_step hstep).1 hexit

/-- Decidable, so that schedules can be executed. -/
instance (s : State Unit) (a : Action Unit) : Decidable (NoStart s a) :=
  match a with
  | .callStart _ => isFalse id
  | .callStop _ => isTrue trivial
  | .callDestructor _ => isTrue trivial
  | .stepControl _ _ => isTrue trivial
  | .callSubmit _ => isTrue trivial
  | .stepProducer => isTrue trivial
  | .stepWorker _ => isTrue trivial

/-- The engine is started, an event is submitted, and `stop()` is about to store `running_`. -/
def stopRequested : List (Action Unit) :=
  .callStart () :: List.replicate 4 (.stepControl () false) ++
  .callSubmit 7 :: List.replicate 4 .stepProducer ++
  [.callStop (), .stepControl () false]

/-- Another event is accepted, and the consumer drains both. -/
def drainBoth : List (Action Unit) :=
  .callSubmit 8 :: List.replicate 4 .stepProducer ++ List.replicate 17 (.stepWorker 0)

/-- One event is in the ring at the store of `stop()` and another is accepted after it:
`shutdown_bounded` with `k = 1`. -/
theorem shutdown_bounded_example :
    ∃ s₁ tr s, (system numberedEvents Unit).Trace NoStart s₁ tr s ∧
      accepted (System.events tr) = [8] ∧ s.workers 0 = .exited ∧
      (popped (System.events tr)).length ≤ 65536 ∧ emptyPops (System.events tr) ≤ 2 ∧
      workerSteps tr ≤ 524296 := by
  have h : ((system numberedEvents Unit).exec System.anyStep (system numberedEvents Unit).init
      stopRequested).map (fun r => (r.1.control (),
        (step numberedEvents r.1 (.stepControl () false)).map fun q =>
          ((system numberedEvents Unit).record NoStart q.1 drainBoth).map fun r =>
            (accepted (System.events r.2), r.1.workers 0))) =
      some (.stopping false .storeRunning, some (some ([8], .exited))) := by rfl
  obtain ⟨s₀, es, hrun, hv⟩ := System.exists_run_of_exec h
  obtain ⟨hpc, hv⟩ := Prod.mk.inj hv
  obtain ⟨⟨s₁, out⟩, hstore, hv⟩ := Option.map_eq_some_iff.mp hv
  obtain ⟨s, tr, htr, hv⟩ := System.exists_trace_of_record hv
  obtain ⟨haccepted, hexited⟩ := Prod.mk.inj hv
  change accepted (System.events tr) = [8] at haccepted
  have hk : (accepted (System.events tr)).length ≤ 1 := by rw [haccepted]; decide
  obtain ⟨hpopped, hempty, hsteps, -⟩ := shutdown_bounded hrun hpc hstore htr hk
  exact ⟨s₁, tr, s, htr, haccepted, hexited, hpopped, hempty, hsteps⟩

end NullRing.Engine
