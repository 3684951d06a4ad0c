import Mathlib.Data.Fintype.Basic
import NullRing.Engine.Control

set_option relaxedAutoImplicit false
set_option autoImplicit false

/-!
# How many consumers there are

There is one consumer at a time in the runs in which every `start()` that finds `running_` false
finds `worker_` not joinable and no other `start()` past its test. The condition is sharp: a
`start()` that passes its test otherwise assigns to a joinable `worker_` when the calls of
`start()` in progress are run to their end.

## Main results

* `Engine.at_most_one_consumer` — one consumer at a time, and what a violation leads to.
* `Engine.two_consumers` — two calls of `start()` that create a thread each.
-/

namespace NullRing.Engine

open RingBuffer Transition

variable {Thread : Type} [DecidableEq Thread] {cfg : Config} {s s' : State Thread}
  {a : Action Thread} {out : List (Event Thread)} {t u : Thread}

/-- Decidable, so that schedules can be executed. -/
instance [Fintype Thread] (s : State Thread) (a : Action Thread) : Decidable (SoleStart s a) :=
  match a with
  | .stepControl t _ => inferInstanceAs (Decidable (s.control t = .starting .checkRunning →
      s.running = false → s.worker = none ∧ ∀ u, ¬ (s.control u).StartPassed))
  | .callStart _ => isTrue trivial
  | .callStop _ => isTrue trivial
  | .callDestructor _ => isTrue trivial
  | .callSubmit _ => isTrue trivial
  | .stepProducer => isTrue trivial
  | .stepWorker _ => isTrue trivial

/-! ## Running the calls of `start()` to their end -/

/-- A call of `start()` past its test takes a step, and the creation of a thread succeeds. -/
def FinishStart (s : State Thread) : Action Thread → Prop
  | .stepControl t false => (s.control t).StartPassed
  | _ => False

/-- A step of a call of `start()` past its test, as a run. -/
lemma run_finishStart (hlife : s.life.ongoing = true) (ht : (s.control t).StartPassed)
    (hmove : Move cfg s (.stepControl t false) s' out) :
    (system cfg Thread).Run FinishStart s out s' := by
  have hP : FinishStart s (.stepControl t false) := ht
  exact .single hP (step_of_move hlife hmove)

/-- A call of `start()` that is about to create its thread comes to its assignment. -/
lemma exists_run_of_createThread (cfg : Config) (hlife : s.life.ongoing = true)
    (hpc : s.control t = .starting .createThread) :
    ∃ s' i, (system cfg Thread).Run FinishStart s [] s' ∧
      s'.control t = .starting (.assignWorker i) ∧ s'.worker = s.worker ∧ s'.life = s.life ∧
      ∀ u, u ≠ t → s'.control u = s.control u := by
  have ht : (s.control t).StartPassed := by rw [hpc]; trivial
  exact ⟨_, s.spawned, run_finishStart hlife ht (.create hpc), setControl_self .., rfl, rfl,
    fun u hu => setControl_of_ne _ _ _ hu⟩

/-- A call of `start()` past its test comes to its assignment.

**Proof sketch.** By cases on the program point: the store of `running_`, the creation of the
thread, or none, is left to do. None of these steps waits, and each leaves `worker_` and the other
threads alone. -/
lemma exists_run_to_assign (cfg : Config) (hlife : s.life.ongoing = true)
    (ht : (s.control t).StartPassed) :
    ∃ s' i, (system cfg Thread).Run FinishStart s [] s' ∧
      s'.control t = .starting (.assignWorker i) ∧ s'.worker = s.worker ∧ s'.life = s.life ∧
      ∀ u, u ≠ t → s'.control u = s.control u := by
  rcases hpc : s.control t with _ | pc | _
  · rw [hpc] at ht
    exact ht.elim
  · cases pc with
    | checkRunning =>
      rw [hpc] at ht
      exact ht.elim
    | storeRunning =>
      have hfirst : (system cfg Thread).Run FinishStart s [] _ :=
        run_finishStart hlife ht (.startStore hpc)
      obtain ⟨s', i, hrun, hassign, hworker, hl, hother⟩ :=
        exists_run_of_createThread (t := t) cfg (s := { s with running := true }.setControl t _)
          hlife (setControl_self ..)
      exact ⟨s', i, hfirst.append hrun, hassign, hworker, hl,
        fun u hu => (hother u hu).trans (setControl_of_ne _ _ _ hu)⟩
    | createThread => exact exists_run_of_createThread cfg hlife hpc
    | assignWorker i => exact ⟨s, i, .nil, hpc, rfl, rfl, fun _ _ => rfl⟩
  · rw [hpc] at ht
    exact ht.elim

/-- A call of `start()` past its test terminates the process when `worker_` is joinable. -/
lemma exists_run_to_terminate (cfg : Config) (hlife : s.life.ongoing = true)
    (ht : (s.control t).StartPassed) {w : ℕ} (hw : s.worker = some w) :
    ∃ s', (system cfg Thread).Run FinishStart s [] s' ∧
      s'.life = .terminated .assignedJoinable := by
  obtain ⟨s₁, i, hrun, hassign, hworker, hl, -⟩ := exists_run_to_assign cfg hlife ht
  have hpassed : (s₁.control t).StartPassed := by rw [hassign]; trivial
  have hmove : Move cfg s₁ (.stepControl t false) _ _ := .assignJoinable hassign (hworker.trans hw)
  have hlast := run_finishStart (hl ▸ hlife) hpassed hmove
  exact ⟨_, hrun.append hlast, rfl⟩

/-- A call of `start()` past its test assigns its thread when `worker_` is not joinable. -/
lemma exists_run_to_assigned (cfg : Config) (hlife : s.life.ongoing = true)
    (ht : (s.control t).StartPassed) (hw : s.worker = none) :
    ∃ s' es w, (system cfg Thread).Run FinishStart s es s' ∧ s'.worker = some w ∧
      s'.life = s.life ∧ ∀ u, u ≠ t → s'.control u = s.control u := by
  obtain ⟨s₁, i, hrun, hassign, hworker, hl, hother⟩ := exists_run_to_assign cfg hlife ht
  have hpassed : (s₁.control t).StartPassed := by rw [hassign]; trivial
  have hmove : Move cfg s₁ (.stepControl t false) _ _ := .assign hassign (hworker.trans hw)
  have hlast := run_finishStart (hl ▸ hlife) hpassed hmove
  exact ⟨_, _, i, hrun.append hlast, rfl, hl,
    fun u hu => (setControl_of_ne _ _ _ hu).trans (hother u hu)⟩

omit [DecidableEq Thread] in
/-- A step that fails the condition is a `start()` that passes its test although `worker_` is
joinable or another `start()` is past its own.

**Proof sketch.** By cases on the action; the condition asks something only of a step at the test of
`start()` that finds `running_` false, and one of its two clauses fails. -/
lemma exists_pass_of_not_soleStart (h : ¬ SoleStart s a) :
    ∃ t b, a = .stepControl t b ∧ s.control t = .starting .checkRunning ∧ s.running = false ∧
      ((∃ w, s.worker = some w) ∨ ∃ u, (s.control u).StartPassed) := by
  rcases a with t | t | t | ⟨t, b⟩ | ptr | _ | id
  · exact absurd trivial h
  · exact absurd trivial h
  · exact absurd trivial h
  · simp only [SoleStart, Classical.not_imp] at h
    obtain ⟨hpc, hrun, hnot⟩ := h
    refine ⟨t, b, rfl, hpc, hrun, ?_⟩
    cases hw : s.worker with
    | some w => exact Or.inl ⟨w, rfl⟩
    | none =>
      refine Or.inr ?_
      by_contra hall
      exact hnot ⟨hw, fun u hu => hall ⟨u, hu⟩⟩
  · exact absurd trivial h
  · exact absurd trivial h
  · exact absurd trivial h

/-- **A `start()` that fails the condition leads to an assignment to a joinable `worker_`**, when
the calls of `start()` in progress are run to their end.

**Proof sketch.** If `worker_` is joinable, the call itself gets there. Otherwise the other
`start()` past its test assigns first, and then the call gets there. -/
theorem exists_run_of_not_soleStart (hstep : step cfg s a = some (s', out))
    (h : ¬ SoleStart s a) :
    ∃ es s₂, (system cfg Thread).Run FinishStart s' es s₂ ∧
      s₂.life = .terminated .assignedJoinable := by
  obtain ⟨t, b, rfl, hpc, hrun, hwhy⟩ := exists_pass_of_not_soleStart h
  obtain ⟨-, hlife⟩ := move_of_step hstep
  rw [step_of_move hlife (.startPass hpc hrun)] at hstep
  cases hstep
  have ht : ((s.setControl t (.starting .storeRunning)).control t).StartPassed := by
    rw [setControl_self]
    trivial
  cases hw : s.worker with
  | some w =>
    obtain ⟨s₂, hr, hterm⟩ := exists_run_to_terminate cfg (s := s.setControl t _) hlife ht hw
    exact ⟨_, s₂, hr, hterm⟩
  | none =>
    obtain ⟨u, hu⟩ := hwhy.resolve_left (by rw [hw]; nofun)
    have hne : u ≠ t := by
      rintro rfl
      rw [hpc] at hu
      exact hu
    have hu' : ((s.setControl t (.starting .storeRunning)).control u).StartPassed := by
      rwa [setControl_of_ne _ _ _ hne]
    obtain ⟨s₁, es, w, hr₁, hw₁, hl₁, hother⟩ :=
      exists_run_to_assigned cfg (s := s.setControl t _) hlife hu' hw
    obtain ⟨s₂, hr₂, hterm⟩ := exists_run_to_terminate cfg (hl₁ ▸ hlife)
      ((hother t hne.symm) ▸ ht) hw₁
    exact ⟨_, s₂, hr₁.append hr₂, hterm⟩

/-- **There is never more than one consumer**, and `worker_` is never assigned to while
joinable, in every state reached by steps in which every `start()` that finds `running_` false
finds `worker_` not joinable and no other `start()` past its test. A step from such a state that
fails this leads to such an assignment, when the calls of `start()` in progress are run to their
end.

**Proof sketch.** The runs keep `ControlInv`, under which a consumer that runs is the one last
created. -/
theorem at_most_one_consumer (h : (system cfg Thread).Reachable SoleStart s) :
    (∀ i j, s.workers i ≠ .exited → s.workers j ≠ .exited → i = j) ∧
    s.life ≠ .terminated .assignedJoinable ∧
    ∀ a s' out, step cfg s a = some (s', out) → ¬ SoleStart s a →
      ∃ es s₂, (system cfg Thread).Run FinishStart s' es s₂ ∧
        s₂.life = .terminated .assignedJoinable := by
  have hinv : ControlInv s := h.invariant (controlInv_init Thread)
    fun _ _ _ _ hI hP hs => hI.step hP (move_of_step hs).1
  refine ⟨?_, hinv.notAssigned,
    fun a s' out hstep hnot => exists_run_of_not_soleStart hstep hnot⟩
  intro i j hi hj
  have h1 := (hinv.consumer i hi).1
  have h2 := (hinv.consumer j hj).1
  omega

/-! ## Two control threads -/

/-- While one thread stops the engine, the other calls `start()`, which finds it running; when
the consumer has been joined, it calls `start()` again. -/
def restartSchedule : List (Action Bool) :=
  [.callStart false, .stepControl false false, .stepControl false false, .stepControl false false,
   .stepControl false false, .stepWorker 0,
   .callStop true, .stepControl true false, .callStart false, .stepControl false false,
   .stepControl true false, .stepControl true false,
   .stepWorker 0, .stepWorker 0, .stepWorker 0, .stepWorker 0, .stepWorker 0, .stepWorker 0,
   .stepControl true false,
   .callStart false, .stepControl false false, .stepControl false false, .stepControl false false,
   .stepControl false false]

/-- A `start()` overlaps a `stop()`, and another comes after it: the first consumer has ended and
the second runs. -/
theorem at_most_one_consumer_example :
    ∃ s, (system numberedEvents Bool).Reachable SoleStart s ∧
      s.workers 0 = .exited ∧ s.workers 1 = .checkRunning ∧
      ∀ i j, s.workers i ≠ .exited → s.workers j ≠ .exited → i = j := by
  have h : ((system numberedEvents Bool).exec SoleStart (system numberedEvents Bool).init
      restartSchedule).map (fun r => (r.1.workers 0, r.1.workers 1)) =
      some (.exited, .checkRunning) := by rfl
  obtain ⟨s, es, hrun, hworkers⟩ := System.exists_run_of_exec h
  obtain ⟨h0, h1⟩ := Prod.mk.inj hworkers
  exact ⟨s, ⟨es, hrun⟩, h0, h1, (at_most_one_consumer ⟨es, hrun⟩).1⟩

/-- Both threads call `start()`, both find `running_` false, and both create a consumer. -/
def overlappingStarts : List (Action Bool) :=
  [.callStart false, .callStart true, .stepControl false false, .stepControl true false,
   .stepControl false false, .stepControl false false, .stepControl true false,
   .stepControl true false]

/-- **Two overlapping calls of `start()` create two consumers.** -/
theorem two_consumers :
    ¬ ∀ s, (system numberedEvents Bool).Reachable System.anyStep s →
      (∀ i j, s.workers i ≠ .exited → s.workers j ≠ .exited → i = j) ∧
      s.life ≠ .terminated .assignedJoinable := by
  intro hall
  have h : ((system numberedEvents Bool).exec System.anyStep (system numberedEvents Bool).init
      overlappingStarts).map (fun r => (r.1.workers 0, r.1.workers 1)) =
      some (.checkRunning, .checkRunning) := by rfl
  obtain ⟨s, es, hrun, hworkers⟩ := System.exists_run_of_exec h
  obtain ⟨h0, h1⟩ := Prod.mk.inj hworkers
  have heq := (hall s ⟨es, hrun⟩).1 0 1 (by rw [h0]; nofun) (by rw [h1]; nofun)
  cases heq

end NullRing.Engine
