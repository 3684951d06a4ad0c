import Mathlib.Tactic.Lemma
import NullRing.Engine.WeakMemory

set_option relaxedAutoImplicit false
set_option autoImplicit false

/-!
# The steps of an engine under acquire and release

The steps of `Engine.Weak.system`, one constructor of `Move` for each branch of the source, with
the state it leads to and what is seen of it.

## Main definitions

* `Engine.Weak.Move` — the steps.

## Main results

* `Engine.Weak.move_of_step` — the steps of the system are moves.
-/

namespace NullRing.Engine.Weak

open RingBuffer Transition

variable {cfg : Config} {s s' : State} {a : Action} {out : List (Event Unit)}

/-- The steps of the system. -/
inductive Move (cfg : Config) (s : State) : Action → State → List (Event Unit) → Prop
  | callStart : s.control = .idle →
      Move cfg s .callStart { s with control := .starting .checkRunning } []
  | callStop : s.control = .idle →
      Move cfg s .callStop { s with control := .stopping .checkRunning } [.stopCalled ()]
  | startFound : s.control = .starting .checkRunning → s.running = true →
      Move cfg s .stepControl { s with control := .idle } [.startReturned ()]
  | startPass : s.control = .starting .checkRunning → s.running = false →
      Move cfg s .stepControl { s with control := .starting .storeRunning } []
  | startStore : s.control = .starting .storeRunning →
      Move cfg s .stepControl { s.storeRunning true with control := .starting .createThread } []
  | create : s.control = .starting .createThread → s.worker = none →
      Move cfg s .stepControl
        { s with ring := acquireTail s.ring s.known, flagSeen := s.flagHist.length - 1,
                 worker := some .checkRunning, spawned := s.spawned + 1, control := .idle }
        [.startReturned ()]
  | stopIdle : s.control = .stopping .checkRunning → s.running = false →
      Move cfg s .stepControl { s with control := .idle } [.stopReturned () false]
  | stopPass : s.control = .stopping .checkRunning → s.running = true →
      Move cfg s .stepControl { s with control := .stopping .storeRunning } []
  | stopStore : s.control = .stopping .storeRunning →
      Move cfg s .stepControl { s.storeRunning false with control := .stopping .testJoinable } []
  | notJoinable : s.control = .stopping .testJoinable → s.worker = none →
      Move cfg s .stepControl { s with control := .idle } [.stopReturned () true]
  | isJoinable : s.control = .stopping .testJoinable → s.worker ≠ none →
      Move cfg s .stepControl { s with control := .stopping .join } []
  | joinThrow : s.control = .stopping .join → s.worker = none →
      Move cfg s .stepControl { s with control := .idle } [.stopThrew ()]
  | joined : s.control = .stopping .join → s.worker = some .exited →
      Move cfg s .stepControl
        { s with worker := none, known := max s.known s.ring.tailSeen, control := .idle }
        [.stopReturned () true]
  | callSubmit {ptr : ℕ} : s.ring.producer = none →
      Move cfg s (.callSubmit ptr)
        { s with ring := { s.ring with producer := some (.loadTail ptr) } } []
  | submit {entry : ℕ} {pc : PushPc ℕ} {ring : RingBuffer.Weak.State ℕ}
      {o : Outcome (PushPc ℕ) Bool} : s.ring.producer = some pc →
      RingBuffer.Weak.pushStep defaultRingCapacity s.ring entry pc = some (ring, o) →
      Move cfg s (.stepProducer entry) { s with ring := { ring with producer := o.pcAfter } }
        (submitEvents pc o)
  | check {entry : ℕ} {f : Flag} : s.worker = some .checkRunning →
      s.flagHist[entry]? = some f → s.flagSeen ≤ entry →
      Move cfg s (.stepWorker entry)
        ({ s with flagSeen := entry, ring := acquireTail s.ring f.tails }.callPop
          (if f.value then .main else .drain)) []
  | pop {entry : ℕ} {loop : Loop} {pc : PopPc ℕ} {ring : RingBuffer.Weak.State ℕ}
      {o : Outcome (PopPc ℕ) (Option ℕ)} : s.worker = some (.popping loop ()) →
      s.ring.consumer = some pc →
      RingBuffer.Weak.popStep defaultRingCapacity s.ring entry pc = some (ring, o) →
      Move cfg s (.stepWorker entry)
        { s with ring := { ring with consumer := o.pcAfter }, worker := some (s.afterPop loop o).1 }
        (s.afterPop loop o).2
  | evaluate {entry : ℕ} {loop : Loop} {ptr : ℕ} : s.worker = some (.evaluating loop ptr) →
      Move cfg s (.stepWorker entry) { s with worker := some (.reporting loop (cfg.result ptr)) }
        [.evaluated ptr]
  | report {entry : ℕ} {loop : Loop} {result : RiskResult} :
      s.worker = some (.reporting loop result) →
      Move cfg s (.stepWorker entry) { s with worker := some (.counting loop) }
        (if cfg.onResult then [.reported result] else [])
  | count {entry : ℕ} {loop : Loop} : s.worker = some (.counting loop) →
      Move cfg s (.stepWorker entry)
        ({ s with processed := (s.processed + 1) % 2 ^ 64 }.toHead loop) [.counted]
  | yield {entry : ℕ} : s.worker = some .yielding →
      Move cfg s (.stepWorker entry) { s with worker := some .checkRunning } []
  | synchronize :
      Move cfg s .synchronize { s with known := s.ring.tailHist.length - 1 } []

/-- A step of `start()` is a move.

**Proof sketch.** By cases on the program point, and on the value that the code tests there. -/
lemma move_startStep {pc : StartPc} (hpc : s.control = .starting pc)
    (h : startStep s pc = some (s', out)) : Move cfg s .stepControl s' out := by
  cases pc with
  | checkRunning =>
    cases hrun : s.running with
    | true =>
      simp only [startStep, hrun, if_true] at h
      cases h
      exact .startFound hpc hrun
    | false =>
      simp only [startStep, hrun, Bool.false_eq_true, if_false] at h
      cases h
      exact .startPass hpc hrun
  | storeRunning =>
    cases h
    exact .startStore hpc
  | createThread =>
    cases hw : s.worker with
    | none =>
      simp only [startStep, hw] at h
      cases h
      exact .create hpc hw
    | some pc =>
      simp only [startStep, hw] at h
      cases h

/-- A step of `stop()` is a move.

**Proof sketch.** By cases on the program point, and on the value that the code tests there; a
`join` on a consumer that runs is no step. -/
lemma move_stopStep {pc : StopPc} (hpc : s.control = .stopping pc)
    (h : stopStep s pc = some (s', out)) : Move cfg s .stepControl s' out := by
  cases pc with
  | checkRunning =>
    cases hrun : s.running with
    | true =>
      simp only [stopStep, hrun, if_true] at h
      cases h
      exact .stopPass hpc hrun
    | false =>
      simp only [stopStep, hrun, Bool.false_eq_true, if_false] at h
      cases h
      exact .stopIdle hpc hrun
  | storeRunning =>
    cases h
    exact .stopStore hpc
  | testJoinable =>
    rw [stopStep] at h
    split at h
    case h_1 pc hw =>
      cases h
      exact .isJoinable hpc (by rw [hw]; exact Option.some_ne_none _)
    case h_2 hw =>
      cases h
      exact .notJoinable hpc hw
  | join =>
    rw [stopStep] at h
    split at h
    case h_1 hw =>
      cases h
      exact .joinThrow hpc hw
    case h_2 pc hw =>
      by_cases hexit : pc = .exited
      · subst hexit
        rw [if_pos rfl] at h
        cases h
        exact .joined hpc hw
      · rw [if_neg hexit] at h
        cases h

/-- A step of `consumer_loop()` is a move.

**Proof sketch.** By cases on the program point. The check of `running_` and a step of `try_pop`
read the entry they are given, if coherence lets them. -/
lemma move_workerStep {entry : ℕ} {pc : WorkerPc Unit} (hw : s.worker = some pc)
    (h : workerStep cfg s entry pc = some (s', out)) : Move cfg s (.stepWorker entry) s' out := by
  cases pc with
  | checkRunning =>
    simp only [workerStep] at h
    split at h
    · cases h
    · next f hf =>
      split at h
      · next hseen =>
        cases h
        exact .check hw hf hseen
      · cases h
  | popping loop pc =>
    simp only [workerStep] at h
    split at h
    · cases h
    · next pc hpc =>
      split at h
      · cases h
      · next ring o hpop =>
        cases h
        exact .pop hw hpc hpop
  | evaluating loop ptr =>
    cases h
    exact .evaluate hw
  | reporting loop result =>
    cases h
    exact .report hw
  | counting loop =>
    cases h
    exact .count hw
  | yielding =>
    cases h
    exact .yield hw
  | exited => cases h

/-- **The steps of the system are moves.**

**Proof sketch.** By cases on the action, and on the guards of its step. -/
theorem move_of_step (h : step cfg s a = some (s', out)) : Move cfg s a s' out := by
  cases a with
  | callStart =>
    simp only [step] at h
    split at h
    · next hidle =>
      cases h
      exact .callStart hidle
    · cases h
  | callStop =>
    simp only [step] at h
    split at h
    · next hidle =>
      cases h
      exact .callStop hidle
    · cases h
  | stepControl =>
    simp only [step, controlStep] at h
    split at h
    · cases h
    · next pc hpc => exact move_startStep hpc h
    · next pc hpc => exact move_stopStep hpc h
  | callSubmit ptr =>
    simp only [step] at h
    split at h
    · next hp =>
      cases h
      exact .callSubmit hp
    · cases h
  | stepProducer entry =>
    simp only [step] at h
    split at h
    · cases h
    · next pc hp =>
      simp only [submitStep] at h
      split at h
      · cases h
      · next ring o hpush =>
        cases h
        exact .submit hp hpush
  | stepWorker entry =>
    simp only [step] at h
    split at h
    · cases h
    · next pc hw => exact move_workerStep hw h
  | synchronize =>
    cases h
    exact .synchronize

end NullRing.Engine.Weak
