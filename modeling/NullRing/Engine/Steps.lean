import NullRing.Engine.Handled

set_option relaxedAutoImplicit false
set_option autoImplicit false

/-!
# The steps of an engine

The steps of `Engine.system`, one constructor of `Move` for each branch of the source, with the
state it leads to and what is seen of it.

## Main definitions

* `Engine.Move` — the steps.
* `Engine.Shows` — what an event tells of a step.

## Main results

* `Engine.Move.shows` — an event tells which step showed it.
* `Engine.move_of_step`, `Engine.step_of_move` — the steps of the system are the moves.
-/

namespace NullRing.Engine

open RingBuffer Transition

variable {Thread : Type}

/-! ## What an update leaves alone -/

/-- A consumer that moves is where it moved to. -/
@[simp] lemma setWorker_self (s : State Thread) (id : ℕ) (pc : WorkerPc (PopPc ℕ)) :
    (s.setWorker id pc).workers id = pc := Function.update_self ..

/-- The other consumers stay where they are. -/
lemma setWorker_of_ne (s : State Thread) (id : ℕ) (pc : WorkerPc (PopPc ℕ)) {i : ℕ} (h : i ≠ id) :
    (s.setWorker id pc).workers i = s.workers i := Function.update_of_ne h ..

variable [DecidableEq Thread]

section setControl

variable (s : State Thread) (t : Thread) (pc : ControlPc)

/-- A control thread that moves leaves `worker_` alone. -/
@[simp] lemma setControl_worker : (s.setControl t pc).worker = s.worker := rfl

/-- A control thread that moves is where it moved to. -/
@[simp] lemma setControl_self : (s.setControl t pc).control t = pc := Function.update_self ..

/-- The other control threads stay where they are. -/
lemma setControl_of_ne {u : Thread} (h : u ≠ t) : (s.setControl t pc).control u = s.control u :=
  Function.update_of_ne h ..

end setControl

section stopReturn

variable (s : State Thread) (t : Thread) (destructor found : Bool)

/-- The return of `stop()` leaves the ring alone. -/
@[simp] lemma stopReturn_ring : (stopReturn s t destructor found).1.ring = s.ring := by
  simp only [stopReturn]; split <;> [split; skip] <;> rfl

/-- The return of `stop()` leaves `running_` alone. -/
@[simp] lemma stopReturn_running : (stopReturn s t destructor found).1.running = s.running := by
  simp only [stopReturn]; split <;> [split; skip] <;> rfl

/-- The return of `stop()` leaves the counter alone. -/
@[simp] lemma stopReturn_processed :
    (stopReturn s t destructor found).1.processed = s.processed := by
  simp only [stopReturn]; split <;> [split; skip] <;> rfl

/-- The return of `stop()` leaves `worker_` alone. -/
@[simp] lemma stopReturn_worker : (stopReturn s t destructor found).1.worker = s.worker := by
  simp only [stopReturn]; split <;> [split; skip] <;> rfl

/-- The return of `stop()` leaves the consumers alone. -/
@[simp] lemma stopReturn_workers : (stopReturn s t destructor found).1.workers = s.workers := by
  simp only [stopReturn]; split <;> [split; skip] <;> rfl

/-- The return of `stop()` creates no consumer. -/
@[simp] lemma stopReturn_spawned : (stopReturn s t destructor found).1.spawned = s.spawned := by
  simp only [stopReturn]; split <;> [split; skip] <;> rfl

/-- The return of `stop()` leaves the producer alone. -/
@[simp] lemma stopReturn_producer :
    (stopReturn s t destructor found).1.producer = s.producer := by
  simp only [stopReturn]; split <;> [split; skip] <;> rfl

/-- The thread that returns from `stop()` is outside any call, and the others stay. -/
@[simp] lemma stopReturn_control :
    (stopReturn s t destructor found).1.control = Function.update s.control t .idle := by
  simp only [stopReturn]; split <;> [split; skip] <;> rfl

end stopReturn

/-! ## What a step shows -/

section shows

variable {s : State Thread} {t : Thread} {e : Event Thread}

/-- What `stop()` shows when it returns. -/
lemma mem_stopReturn {destructor found : Bool} (h : e ∈ (stopReturn s t destructor found).2) :
    e = .stopReturned t found ∨ e = .destroyed := by
  simp only [stopReturn] at h
  split at h
  · split at h
    · exact Or.inl (List.mem_singleton.mp h)
    · simpa using h
  · exact Or.inl (List.mem_singleton.mp h)

end shows

/-! ## The moves -/

variable {cfg : Config} {s s' : State Thread} {a : Action Thread} {out : List (Event Thread)}
  {t : Thread} {id : ℕ}

/-- The steps of the system. -/
inductive Move (cfg : Config) (s : State Thread) :
    Action Thread → State Thread → List (Event Thread) → Prop
  | callStart {t : Thread} : s.control t = .idle → s.life = .alive →
      Move cfg s (.callStart t) (s.setControl t (.starting .checkRunning)) []
  | callStop {t : Thread} : s.control t = .idle → s.life = .alive →
      Move cfg s (.callStop t) (s.setControl t (.stopping false .checkRunning)) [.stopCalled t]
  | callDestructor {t : Thread} : s.control t = .idle → s.life = .alive →
      Move cfg s (.callDestructor t)
        ({ s with life := .destroying }.setControl t (.stopping true .checkRunning))
        [.stopCalled t]
  | startFound {t : Thread} {b : Bool} : s.control t = .starting .checkRunning →
      s.running = true → Move cfg s (.stepControl t b) (s.setControl t .idle) [.startReturned t]
  | startPass {t : Thread} {b : Bool} : s.control t = .starting .checkRunning →
      s.running = false →
      Move cfg s (.stepControl t b) (s.setControl t (.starting .storeRunning)) []
  | startStore {t : Thread} {b : Bool} : s.control t = .starting .storeRunning →
      Move cfg s (.stepControl t b)
        ({ s with running := true }.setControl t (.starting .createThread)) []
  | createThrow {t : Thread} : s.control t = .starting .createThread →
      Move cfg s (.stepControl t true) (s.setControl t .idle) [.startThrew t]
  | create {t : Thread} : s.control t = .starting .createThread →
      Move cfg s (.stepControl t false)
        ({ s with workers := Function.update s.workers s.spawned .checkRunning,
                  spawned := s.spawned + 1 }.setControl t (.starting (.assignWorker s.spawned)))
        []
  | assignJoinable {t : Thread} {b : Bool} {id w : ℕ} :
      s.control t = .starting (.assignWorker id) → s.worker = some w →
      Move cfg s (.stepControl t b) { s with life := .terminated .assignedJoinable } []
  | assign {t : Thread} {b : Bool} {id : ℕ} : s.control t = .starting (.assignWorker id) →
      s.worker = none →
      Move cfg s (.stepControl t b) ({ s with worker := some id }.setControl t .idle)
        [.startReturned t]
  | stopIdle {t : Thread} {b d : Bool} : s.control t = .stopping d .checkRunning →
      s.running = false →
      Move cfg s (.stepControl t b) (stopReturn s t d false).1 (stopReturn s t d false).2
  | stopPass {t : Thread} {b d : Bool} : s.control t = .stopping d .checkRunning →
      s.running = true →
      Move cfg s (.stepControl t b) (s.setControl t (.stopping d .storeRunning)) []
  | stopStore {t : Thread} {b d : Bool} : s.control t = .stopping d .storeRunning →
      Move cfg s (.stepControl t b)
        ({ s with running := false }.setControl t (.stopping d .testJoinable)) []
  | notJoinable {t : Thread} {b d : Bool} : s.control t = .stopping d .testJoinable →
      s.worker = none →
      Move cfg s (.stepControl t b) (stopReturn s t d true).1 (stopReturn s t d true).2
  | isJoinable {t : Thread} {b d : Bool} {w : ℕ} : s.control t = .stopping d .testJoinable →
      s.worker = some w →
      Move cfg s (.stepControl t b) (s.setControl t (.stopping d .join)) []
  | joinThrow {t : Thread} {b : Bool} : s.control t = .stopping false .join → s.worker = none →
      Move cfg s (.stepControl t b) (s.setControl t .idle) [.stopThrew t]
  | destructorThrow {t : Thread} {b : Bool} : s.control t = .stopping true .join →
      s.worker = none →
      Move cfg s (.stepControl t b) { s with life := .terminated .threwInDestructor }
        [.stopThrew t]
  | joined {t : Thread} {b d : Bool} {w : ℕ} : s.control t = .stopping d .join →
      s.worker = some w → s.workers w = .exited →
      Move cfg s (.stepControl t b) (stopReturn { s with worker := none } t d true).1
        (stopReturn { s with worker := none } t d true).2
  | callSubmit {ptr : ℕ} : s.producer = none →
      Move cfg s (.callSubmit ptr) { s with producer := some (.loadTail ptr) } []
  | submit {pc : PushPc ℕ} : s.producer = some pc →
      Move cfg s .stepProducer
        { s with ring := (pushStep defaultRingCapacity s.ring pc).1,
                 producer := (pushStep defaultRingCapacity s.ring pc).2.pcAfter }
        (submitEvents pc (pushStep defaultRingCapacity s.ring pc).2)
  | checkMain {id : ℕ} : s.workers id = .checkRunning → s.running = true →
      Move cfg s (.stepWorker id) (s.setWorker id (.popping .main .loadHead)) []
  | checkDrain {id : ℕ} : s.workers id = .checkRunning → s.running = false →
      Move cfg s (.stepWorker id) (s.setWorker id (.popping .drain .loadHead)) []
  | pop {id : ℕ} {loop : Loop} {pc : PopPc ℕ} : s.workers id = .popping loop pc →
      Move cfg s (.stepWorker id)
        ({ s with ring := (popStep defaultRingCapacity s.ring pc).1 }.setWorker id
          (afterPop id loop (popStep defaultRingCapacity s.ring pc).2 :
            WorkerPc (PopPc ℕ) × List (Event Thread)).1)
        (afterPop id loop (popStep defaultRingCapacity s.ring pc).2).2
  | evaluate {id : ℕ} {loop : Loop} {ptr : ℕ} : s.workers id = .evaluating loop ptr →
      Move cfg s (.stepWorker id) (s.setWorker id (.reporting loop (cfg.result ptr)))
        [.evaluated ptr]
  | report {id : ℕ} {loop : Loop} {result : RiskResult} :
      s.workers id = .reporting loop result →
      Move cfg s (.stepWorker id) (s.setWorker id (.counting loop))
        (if cfg.onResult then [.reported result] else [])
  | count {id : ℕ} {loop : Loop} : s.workers id = .counting loop →
      Move cfg s (.stepWorker id)
        ({ s with processed := (s.processed + 1) % 2 ^ 64 }.setWorker id (loop.head .loadHead))
        [.counted]
  | yield {id : ℕ} : s.workers id = .yielding →
      Move cfg s (.stepWorker id) (s.setWorker id .checkRunning) []

/-- What an event tells of the step that shows it. -/
def Shows (cfg : Config) (s : State Thread) (a : Action Thread) (s' : State Thread) :
    Event Thread → Prop
  | .startReturned t => (∃ b, a = .stepControl t b) ∧
      (s.control t = .starting .checkRunning ∧ s' = s.setControl t .idle ∨
        ∃ id, s.control t = .starting (.assignWorker id))
  | .startThrew t => a = .stepControl t true ∧ s.control t = .starting .createThread ∧
      s' = s.setControl t .idle
  | .stopCalled t => s.control t = .idle ∧ (a = .callStop t ∨ a = .callDestructor t)
  | .stopReturned t _ => ∃ b d pc, a = .stepControl t b ∧ s.control t = .stopping d pc
  | .stopThrew t => ∃ b d, a = .stepControl t b ∧ s.control t = .stopping d .join
  | .destroyed => ∃ t b d pc, a = .stepControl t b ∧ s.control t = .stopping d pc
  | .accepted ptr => a = .stepProducer ∧ ∃ nextTail, s.producer = some (.storeTail ptr nextTail)
  | .rejected ptr => a = .stepProducer ∧
      ∃ currentTail, s.producer = some (.loadHead ptr currentTail)
  | .popped ptr => ∃ id loop pc, a = .stepWorker id ∧ s.workers id = .popping loop pc ∧
      (popStep defaultRingCapacity s.ring pc).2 = .ret (some ptr)
  | .poppedNothing => ∃ id loop pc, a = .stepWorker id ∧ s.workers id = .popping loop pc ∧
      (popStep defaultRingCapacity s.ring pc).2 = .ret none
  | .evaluated ptr => ∃ id loop, a = .stepWorker id ∧ s.workers id = .evaluating loop ptr
  | .reported result => ∃ id loop, a = .stepWorker id ∧ s.workers id = .reporting loop result ∧
      cfg.onResult = true
  | .counted => ∃ id loop, a = .stepWorker id ∧ s.workers id = .counting loop
  | .exited id => ∃ pc, a = .stepWorker id ∧ s.workers id = .popping .drain pc ∧
      (popStep defaultRingCapacity s.ring pc).2 = .ret none

/-- **An event tells which step showed it.**

**Proof sketch.** By cases on the step. Most show at most one event, and what `Shows` asks of it is
the guard of the step. A step of `submit()` and one of `try_pop` show what their returned value says
(`mem_submitEvents`, `mem_afterPop`). -/
theorem Move.shows (hmove : Move cfg s a s' out) {e : Event Thread} (he : e ∈ out) :
    Shows cfg s a s' e := by
  cases hmove with
  | callStop hpc _ =>
    obtain rfl := List.mem_singleton.mp he
    exact ⟨hpc, Or.inl rfl⟩
  | callDestructor hpc _ =>
    obtain rfl := List.mem_singleton.mp he
    exact ⟨hpc, Or.inr rfl⟩
  | startFound hpc _ =>
    obtain rfl := List.mem_singleton.mp he
    exact ⟨⟨_, rfl⟩, Or.inl ⟨hpc, rfl⟩⟩
  | createThrow hpc =>
    obtain rfl := List.mem_singleton.mp he
    exact ⟨rfl, hpc, rfl⟩
  | assign hpc _ =>
    obtain rfl := List.mem_singleton.mp he
    exact ⟨⟨_, rfl⟩, Or.inr ⟨_, hpc⟩⟩
  | stopIdle hpc _ | notJoinable hpc _ | joined hpc _ _ =>
    rcases mem_stopReturn he with rfl | rfl
    · exact ⟨_, _, _, rfl, hpc⟩
    · exact ⟨_, _, _, _, rfl, hpc⟩
  | joinThrow hpc _ | destructorThrow hpc _ =>
    obtain rfl := List.mem_singleton.mp he
    exact ⟨_, _, rfl, hpc⟩
  | submit hp =>
    rcases mem_submitEvents he with ⟨hret, rfl⟩ | ⟨hret, rfl⟩
    · obtain ⟨-, nextTail, hpc⟩ := (pushStep_ret hret).resolve_right nofun
      exact ⟨rfl, nextTail, hp.trans (congrArg some hpc)⟩
    · obtain ⟨-, currentTail, hpc⟩ := (pushStep_ret hret).resolve_left nofun
      exact ⟨rfl, currentTail, hp.trans (congrArg some hpc)⟩
  | pop hpc =>
    rcases mem_afterPop he with ⟨ptr, ho, rfl⟩ | ⟨ho, rfl | ⟨rfl, rfl⟩⟩
    · exact ⟨_, _, _, rfl, hpc, ho⟩
    · exact ⟨_, _, _, rfl, hpc, ho⟩
    · exact ⟨_, rfl, hpc, ho⟩
  | evaluate hpc =>
    obtain rfl := List.mem_singleton.mp he
    exact ⟨_, _, rfl, hpc⟩
  | report hpc =>
    split at he
    case isTrue hcb =>
      obtain rfl := List.mem_singleton.mp he
      exact ⟨_, _, rfl, hpc, hcb⟩
    case isFalse => cases he
  | count hpc =>
    obtain rfl := List.mem_singleton.mp he
    exact ⟨_, _, rfl, hpc⟩
  | callStart _ _ | startPass _ _ | startStore _ | create _ | assignJoinable _ _ => cases he
  | stopPass _ _ | stopStore _ | isJoinable _ _ | callSubmit _ => cases he
  | checkMain _ _ | checkDrain _ _ | yield _ => cases he

/-- The parts of an optional pair. -/
lemma parts_of_some_eq {α β : Type} {p : α × β} {x : α} {y : β} (h : some p = some (x, y)) :
    x = p.1 ∧ y = p.2 := by
  cases h
  exact ⟨rfl, rfl⟩

/-- A step of `start()` is a move.

**Proof sketch.** By cases on the program point, and on the value that the code tests there. -/
lemma move_startStep {pc : StartPc} {b : Bool} (hpc : s.control t = .starting pc) :
    Move cfg s (.stepControl t b) (startStep s t b pc).1 (startStep s t b pc).2 := by
  cases pc with
  | checkRunning =>
    cases hrun : s.running with
    | true =>
      simp only [startStep, hrun, if_true]
      exact .startFound hpc hrun
    | false =>
      simp only [startStep, hrun, Bool.false_eq_true, if_false]
      exact .startPass hpc hrun
  | storeRunning => exact .startStore hpc
  | createThread =>
    cases b with
    | true => exact .createThrow hpc
    | false => exact .create hpc
  | assignWorker id =>
    cases hw : s.worker with
    | none =>
      rw [startStep, if_neg (by simp [hw])]
      exact .assign hpc hw
    | some w =>
      rw [startStep, if_pos (by simp [hw])]
      exact .assignJoinable hpc hw

/-- A step of `stop()` is a move.

**Proof sketch.** By cases on the program point, and on the value that the code tests there; a
`join` on a consumer that runs is no step. -/
lemma move_stopStep {pc : StopPc} {b d : Bool} (hpc : s.control t = .stopping d pc)
    (h : stopStep s t d pc = some (s', out)) : Move cfg s (.stepControl t b) s' out := by
  cases pc with
  | checkRunning =>
    cases hrun : s.running with
    | true =>
      simp only [stopStep, hrun, if_true] at h
      cases h
      exact .stopPass hpc hrun
    | false =>
      rw [stopStep, if_neg (by simp [hrun])] at h
      obtain ⟨rfl, rfl⟩ := parts_of_some_eq h
      exact .stopIdle hpc hrun
  | storeRunning =>
    cases h
    exact .stopStore hpc
  | testJoinable =>
    cases hw : s.worker with
    | none =>
      rw [stopStep, if_neg (by simp [hw])] at h
      obtain ⟨rfl, rfl⟩ := parts_of_some_eq h
      exact .notJoinable hpc hw
    | some w =>
      simp only [stopStep, hw, Option.isSome_some, if_true] at h
      cases h
      exact .isJoinable hpc hw
  | join =>
    rw [stopStep] at h
    split at h
    case h_1 hw =>
      cases d with
      | true =>
        cases h
        exact .destructorThrow hpc hw
      | false =>
        cases h
        exact .joinThrow hpc hw
    case h_2 w hw =>
      by_cases hexit : s.workers w = .exited
      · rw [if_pos hexit] at h
        obtain ⟨rfl, rfl⟩ := parts_of_some_eq h
        exact .joined hpc hw hexit
      · rw [if_neg hexit] at h
        cases h

/-- A step of `consumer_loop()` is a move.

**Proof sketch.** By cases on the program point; the check of `running_` and the callback each have
two outcomes. -/
lemma move_workerStep (h : workerStep cfg s id (s.workers id) = some (s', out)) :
    Move cfg s (.stepWorker id) s' out := by
  cases hpc : s.workers id with
  | checkRunning =>
    rw [hpc] at h
    cases hrun : s.running with
    | true =>
      simp only [workerStep, hrun, if_true] at h
      cases h
      exact .checkMain hpc hrun
    | false =>
      simp only [workerStep, hrun, Bool.false_eq_true, if_false] at h
      cases h
      exact .checkDrain hpc hrun
  | popping loop pc =>
    rw [hpc] at h
    cases h
    exact .pop hpc
  | evaluating loop ptr =>
    rw [hpc] at h
    cases h
    exact .evaluate hpc
  | reporting loop result =>
    rw [hpc] at h
    have hreport : Move cfg s (.stepWorker id) _ _ := .report hpc
    cases hcb : cfg.onResult with
    | true =>
      simp only [workerStep, hcb, if_true] at h
      cases h
      rwa [hcb, if_pos rfl] at hreport
    | false =>
      simp only [workerStep, hcb, Bool.false_eq_true, if_false] at h
      cases h
      rwa [hcb, if_neg Bool.false_ne_true] at hreport
  | counting loop =>
    rw [hpc] at h
    cases h
    exact .count hpc
  | yielding =>
    rw [hpc] at h
    cases h
    exact .yield hpc
  | exited =>
    rw [hpc] at h
    cases h

/-- **Inversion of a step**: it is a move, and the program was running and the object existed.

**Proof sketch.** By cases on the action. A call asks that its thread is in no other and that the
object is alive, which are the guards of the move; a step of a control thread or of a consumer is
one of its call (`move_startStep`, `move_stopStep`, `move_workerStep`). -/
theorem move_of_step (h : step cfg s a = some (s', out)) :
    Move cfg s a s' out ∧ s.life.ongoing = true := by
  by_cases hlife : s.life.ongoing = true
  · refine ⟨?_, hlife⟩
    simp only [step, hlife, if_true] at h
    cases a with
    | callStart t =>
      simp only [call] at h
      split at h
      case isTrue hguard =>
        cases h
        have hcall : Move cfg s (.callStart t) _ _ := .callStart hguard.1 hguard.2
        rwa [← hguard.2]
      case isFalse => cases h
    | callStop t =>
      simp only [call] at h
      split at h
      case isTrue hguard =>
        cases h
        have hcall : Move cfg s (.callStop t) _ _ := .callStop hguard.1 hguard.2
        rwa [← hguard.2]
      case isFalse => cases h
    | callDestructor t =>
      simp only [call] at h
      split at h
      case isTrue hguard =>
        cases h
        exact .callDestructor hguard.1 hguard.2
      case isFalse => cases h
    | stepControl t b =>
      simp only [controlStep] at h
      cases hpc : s.control t with
      | idle =>
        rw [hpc] at h
        cases h
      | starting pc =>
        rw [hpc] at h
        obtain ⟨rfl, rfl⟩ := Prod.mk.inj (Option.some.inj h)
        exact move_startStep hpc
      | stopping d pc =>
        rw [hpc] at h
        exact move_stopStep hpc h
    | callSubmit ptr =>
      cases hp : s.producer with
      | none =>
        rw [hp] at h
        cases h
        exact .callSubmit hp
      | some pc =>
        rw [hp] at h
        cases h
    | stepProducer =>
      cases hp : s.producer with
      | none =>
        rw [hp] at h
        cases h
      | some pc =>
        rw [hp] at h
        cases h
        exact .submit hp
    | stepWorker id => exact move_workerStep h
  · simp only [step, hlife, Bool.false_eq_true, if_false] at h
    cases h

/-- A step of a control thread whose program point is known. -/
lemma step_control (hlife : s.life.ongoing = true) (b : Bool) :
    step cfg s (.stepControl t b) = controlStep s t b := by
  simp only [step, hlife, if_true]

/-- A step of a consumer whose program point is known. -/
lemma step_worker (hlife : s.life.ongoing = true) {pc : WorkerPc (PopPc ℕ)}
    (hpc : s.workers id = pc) :
    step cfg s (.stepWorker id) = workerStep cfg s id pc := by
  simp only [step, hlife, if_true, hpc]

/-- **The moves are steps**, while the program runs and the object exists.

**Proof sketch.** By cases on the move, whose guards are those that `step` tests. -/
theorem step_of_move (hlife : s.life.ongoing = true) (h : Move cfg s a s' out) :
    step cfg s a = some (s', out) := by
  cases h with
  | callStart hpc ha | callStop hpc ha =>
    simp only [step, if_pos hlife]
    rw [call, if_pos ⟨hpc, ha⟩, ← ha]
  | callDestructor hpc ha =>
    simp only [step, if_pos hlife]
    rw [call, if_pos ⟨hpc, ha⟩]
  | startFound hpc hrun =>
    simp only [step_control hlife, controlStep, hpc, startStep, hrun, if_true]
  | startPass hpc hrun =>
    simp only [step_control hlife, controlStep, hpc, startStep, hrun, Bool.false_eq_true, if_false]
  | startStore hpc => simp only [step_control hlife, controlStep, hpc, startStep]
  | createThrow hpc => simp only [step_control hlife, controlStep, hpc, startStep, if_true]
  | create hpc =>
    simp only [step_control hlife, controlStep, hpc, startStep, Bool.false_eq_true, if_false]
  | assignJoinable hpc hw =>
    rw [step_control hlife, controlStep, hpc]
    simp only [startStep]
    rw [if_pos (by simp [hw])]
  | assign hpc hw =>
    rw [step_control hlife, controlStep, hpc]
    simp only [startStep]
    rw [if_neg (by simp [hw])]
  | stopIdle hpc hrun =>
    simp only [step_control hlife, controlStep, hpc, stopStep, hrun, Bool.false_eq_true, if_false]
  | stopPass hpc hrun => simp only [step_control hlife, controlStep, hpc, stopStep, hrun, if_true]
  | stopStore hpc => simp only [step_control hlife, controlStep, hpc, stopStep]
  | notJoinable hpc hw =>
    rw [step_control hlife, controlStep, hpc]
    simp only [stopStep]
    rw [if_neg (by simp [hw])]
  | isJoinable hpc hw =>
    rw [step_control hlife, controlStep, hpc]
    simp only [stopStep]
    rw [if_pos (by simp [hw])]
  | joinThrow hpc hw =>
    rw [step_control hlife, controlStep, hpc]
    simp only [stopStep, hw, Bool.false_eq_true, if_false]
  | destructorThrow hpc hw =>
    rw [step_control hlife, controlStep, hpc]
    simp only [stopStep, hw, if_true]
  | joined hpc hw hexit =>
    rw [step_control hlife, controlStep, hpc]
    simp only [stopStep, hw, hexit, if_true]
  | callSubmit hp => simp only [step, hlife, if_true, hp]
  | submit hp => simp only [step, hlife, if_true, hp, submitStep]
  | checkMain hpc hrun => simp only [step_worker hlife hpc, workerStep, hrun, if_true]
  | checkDrain hpc hrun =>
    simp only [step_worker hlife hpc, workerStep, hrun, Bool.false_eq_true, if_false]
  | pop hpc => simp only [step_worker hlife hpc, workerStep]
  | evaluate hpc => simp only [step_worker hlife hpc, workerStep]
  | report hpc =>
    simp only [step_worker hlife hpc, workerStep]
    split <;> rfl
  | count hpc => simp only [step_worker hlife hpc, workerStep]
  | yield hpc => simp only [step_worker hlife hpc, workerStep]

end NullRing.Engine
