import NullRing.Engine.Steps

set_option relaxedAutoImplicit false
set_option autoImplicit false

/-!
# One consumer at a time

`start()` tests `running_`, sets it, creates a thread and assigns it to `worker_`; nothing but
the test keeps two threads from being created. The invariant `ControlInv` holds as long as every
`start()` that finds `running_` false also finds `worker_` not joinable and no other `start()`
past its own test: `SoleStart`. It says that a consumer that has not left its loop is the one
last created, and is owned by `worker_` or about to be.

## Main definitions

* `Engine.SoleStart` — the condition on the test of `start()`.
* `Engine.ControlInv` — the invariant.

## Main results

* `Engine.ControlInv.step` — the step lemma.
-/

namespace NullRing.Engine

open RingBuffer Transition

variable {Thread : Type}

/-- In `start()`, past the test of `running_`. -/
def ControlPc.StartPassed : ControlPc → Prop
  | .starting .checkRunning => False
  | .starting _ => True
  | _ => False

/-- Decidable, so that schedules can be executed. -/
instance (pc : ControlPc) : Decidable pc.StartPassed :=
  match pc with
  | .idle => isFalse id
  | .starting .checkRunning => isFalse id
  | .starting .storeRunning => isTrue trivial
  | .starting .createThread => isTrue trivial
  | .starting (.assignWorker _) => isTrue trivial
  | .stopping _ _ => isFalse id

/-- A `start()` that finds `running_` false finds `worker_` not joinable, and no other `start()`
past its test. -/
def SoleStart (s : State Thread) : Action Thread → Prop
  | .stepControl t _ => s.control t = .starting .checkRunning → s.running = false →
      s.worker = none ∧ ∀ u, ¬ (s.control u).StartPassed
  | _ => True

/-- The invariant of the control threads. -/
structure ControlInv (s : State Thread) : Prop where
  /-- A consumer that runs is the last one created, and `worker_` owns it or is about to. -/
  consumer : ∀ i, s.workers i ≠ .exited → i + 1 = s.spawned ∧
    (s.worker = some i ∨ ∃ t, s.control t = .starting (.assignWorker i))
  /-- One `start()` at a time is past its test. -/
  oneStart : ∀ t u, (s.control t).StartPassed → (s.control u).StartPassed → t = u
  /-- While one is, `worker_` is not joinable. -/
  noWorker : ∀ t, (s.control t).StartPassed → s.worker = none
  /-- The thread about to be assigned is the last one created. -/
  assigning : ∀ t i, s.control t = .starting (.assignWorker i) → i + 1 = s.spawned
  /-- The thread `worker_` owns is the last one created. -/
  owned : ∀ i, s.worker = some i → i + 1 = s.spawned
  /-- `worker_` was never assigned to while joinable. -/
  notAssigned : s.life ≠ .terminated .assignedJoinable

variable {cfg : Config} {s s' : State Thread} {a : Action Thread} {out : List (Event Thread)}
  {t u : Thread} {id : ℕ}

namespace ControlInv

/-- The consumer threads take steps, and what the control threads do not read changes. -/
lemma frame (h : ControlInv s) (hcontrol : s'.control = s.control) (hworker : s'.worker = s.worker)
    (hspawned : s'.spawned = s.spawned)
    (hworkers : ∀ i, s'.workers i ≠ .exited → s.workers i ≠ .exited)
    (hlife : s'.life ≠ .terminated .assignedJoinable) : ControlInv s' where
  consumer := fun i hi => by
    rw [hcontrol, hworker, hspawned]
    exact h.consumer i (hworkers i hi)
  oneStart := by rw [hcontrol]; exact h.oneStart
  noWorker := by rw [hcontrol, hworker]; exact h.noWorker
  assigning := by rw [hcontrol, hspawned]; exact h.assigning
  owned := by rw [hworker, hspawned]; exact h.owned
  notAssigned := hlife

/-- A consumer that runs while a `start()` is past its test is the one it is about to assign. -/
lemma assigned_of_passed (h : ControlInv s) (ht : (s.control t).StartPassed)
    {i : ℕ} (hi : s.workers i ≠ .exited) : s.control t = .starting (.assignWorker i) := by
  rcases (h.consumer i hi).2 with hown | ⟨u, hu⟩
  · rw [h.noWorker t ht] at hown
    cases hown
  · obtain rfl := h.oneStart t u ht (by rw [hu]; trivial)
    exact hu

/-- The end of `join`: `worker_` is no longer joinable.

**Proof sketch.** A consumer that still runs is not the one joined, so it is one not yet assigned;
but then its `start()` is past the test, and `worker_` is not joinable. -/
lemma join (h : ControlInv s) {w : ℕ} (hw : s.worker = some w) (hexit : s.workers w = .exited) :
    ControlInv { s with worker := none } where
  consumer := by
    intro i hi
    rcases (h.consumer i hi).2 with hown | ⟨u, hu⟩
    · rw [hw] at hown
      cases hown
      exact absurd hexit hi
    · have := h.noWorker u (by rw [hu]; trivial)
      rw [hw] at this
      cases this
  oneStart := h.oneStart
  noWorker := fun _ _ => rfl
  assigning := h.assigning
  owned := nofun
  notAssigned := h.notAssigned

/-- A consumer that runs takes a step; its new program point does not matter. -/
lemma setWorker (h : ControlInv s) {s₁ : State Thread} {pc : WorkerPc (PopPc ℕ)}
    (hpc : s.workers id ≠ .exited) (hcontrol : s₁.control = s.control)
    (hworker : s₁.worker = s.worker) (hspawned : s₁.spawned = s.spawned)
    (hworkers : s₁.workers = s.workers) (hlife : s₁.life = s.life) :
    ControlInv (s₁.setWorker id pc) := by
  refine h.frame hcontrol hworker hspawned ?_ (hlife.trans_ne h.notAssigned)
  intro i hi
  by_cases hid : i = id
  · rwa [hid]
  · rwa [setWorker_of_ne _ _ _ hid, hworkers] at hi

variable [DecidableEq Thread]

/-- A control thread that is not about to assign moves to a point that is not past the test of
`start()`, or moves there as the only one, when `worker_` is not joinable.

**Proof sketch.** The other control threads are where they were, so each condition on two threads is
about `t` and another, and at the new point `t` meets it by the hypotheses. Consumers not yet
assigned are those of the other threads, since `t` was not about to assign. -/
lemma setControl (h : ControlInv s) (pc : ControlPc)
    (hold : ∀ i, s.control t ≠ .starting (.assignWorker i))
    (hnew : pc.StartPassed → s.worker = none ∧ (∀ u, u ≠ t → ¬ (s.control u).StartPassed) ∧
      ∀ i, pc ≠ .starting (.assignWorker i)) : ControlInv (s.setControl t pc) where
  consumer := by
    intro i hi
    obtain ⟨hlast, hown⟩ := h.consumer i hi
    refine ⟨hlast, hown.imp id ?_⟩
    rintro ⟨u, hu⟩
    have hne : u ≠ t := by
      rintro rfl
      exact hold i hu
    exact ⟨u, (setControl_of_ne _ _ _ hne).trans hu⟩
  oneStart := by
    intro u v hu hv
    by_cases hut : u = t
    · subst hut
      rw [setControl_self] at hu
      by_contra huv
      rw [setControl_of_ne _ _ _ (Ne.symm huv)] at hv
      exact (hnew hu).2.1 v (Ne.symm huv) hv
    · rw [setControl_of_ne _ _ _ hut] at hu
      by_cases hvt : v = t
      · subst hvt
        rw [setControl_self] at hv
        exact absurd hu ((hnew hv).2.1 u hut)
      · rw [setControl_of_ne _ _ _ hvt] at hv
        exact h.oneStart u v hu hv
  noWorker := by
    intro u hu
    by_cases hut : u = t
    · subst hut
      rw [setControl_self] at hu
      exact (hnew hu).1
    · rw [setControl_of_ne _ _ _ hut] at hu
      exact h.noWorker u hu
  assigning := by
    intro u i hu
    by_cases hut : u = t
    · subst hut
      rw [setControl_self] at hu
      exact absurd hu ((hnew (by rw [hu]; trivial)).2.2 i)
    · rw [setControl_of_ne _ _ _ hut] at hu
      exact h.assigning u i hu
  owned := h.owned
  notAssigned := h.notAssigned

/-- The creation of a thread.

**Proof sketch.** The calling thread is past the test of `start()`, so `worker_` is not joinable, no
other thread is past it, and no consumer runs. The new one is therefore the only one, and is about
to be assigned. -/
lemma create (h : ControlInv s) (hpc : s.control t = .starting .createThread) :
    ControlInv ({ s with workers := Function.update s.workers s.spawned .checkRunning,
                         spawned := s.spawned + 1 }.setControl t
      (.starting (.assignWorker s.spawned))) := by
  have ht : (s.control t).StartPassed := by rw [hpc]; trivial
  have hnone := h.noWorker t ht
  -- no consumer runs, so the new one is the only one
  have hexited : ∀ i, s.workers i = .exited := by
    intro i
    by_contra hi
    have := h.assigned_of_passed ht hi
    rw [hpc] at this
    cases this
  have hother : ∀ u, u ≠ t → ¬ (s.control u).StartPassed :=
    fun u hu hpass => hu (h.oneStart u t hpass ht)
  refine { consumer := fun i hi => ?_, oneStart := fun u v hu hv => ?_,
           noWorker := fun _ _ => hnone, assigning := fun u i hu => ?_,
           owned := fun i hi => ?_, notAssigned := h.notAssigned }
  · have hi' : i = s.spawned := by
      by_contra hne
      apply hi
      show Function.update s.workers s.spawned .checkRunning i = .exited
      rw [Function.update_of_ne hne]
      exact hexited i
    subst hi'
    exact ⟨rfl, Or.inr ⟨t, setControl_self ..⟩⟩
  · by_cases hut : u = t
    · subst hut
      by_contra huv
      rw [setControl_of_ne _ _ _ (Ne.symm huv)] at hv
      exact hother v (Ne.symm huv) hv
    · rw [setControl_of_ne _ _ _ hut] at hu
      exact absurd hu (hother u hut)
  · by_cases hut : u = t
    · subst hut
      rw [setControl_self] at hu
      cases hu
      rfl
    · rw [setControl_of_ne _ _ _ hut] at hu
      exact absurd (by rw [show s.control u = _ from hu]; trivial) (hother u hut)
  · rw [show s.worker = some i from hi] at hnone
    cases hnone

/-- The assignment to `worker_`.

**Proof sketch.** A consumer that runs is the one to be assigned, as its thread is the only one past
the test of `start()`; afterwards no thread is. -/
lemma assign (h : ControlInv s) (hpc : s.control t = .starting (.assignWorker id)) :
    ControlInv ({ s with worker := some id }.setControl t .idle) := by
  have ht : (s.control t).StartPassed := by rw [hpc]; trivial
  have hother : ∀ u,
      ¬ (({ s with worker := some id }.setControl t .idle).control u).StartPassed := by
    intro u hu
    by_cases hut : u = t
    · subst hut
      rw [setControl_self] at hu
      exact hu
    · rw [setControl_of_ne _ _ _ hut] at hu
      exact hut (h.oneStart u t hu ht)
  refine { consumer := fun i hi => ?_, oneStart := fun u v hu _ => absurd hu (hother u),
           noWorker := fun u hu => absurd hu (hother u), assigning := fun u i hu => ?_,
           owned := fun i hi => ?_, notAssigned := h.notAssigned }
  · have hassign := h.assigned_of_passed ht hi
    rw [hpc] at hassign
    cases hassign
    exact ⟨(h.consumer _ hi).1, Or.inl rfl⟩
  · exact absurd (by rw [hu]; trivial) (hother u)
  · cases hi
    exact h.assigning t _ hpc

/-- The return of `stop()`. -/
lemma stopReturn (h : ControlInv s) {d : Bool} {pc : StopPc} (hpc : s.control t = .stopping d pc)
    (found : Bool) : ControlInv (stopReturn s t d found).1 := by
  have hidle : ControlInv (s.setControl t .idle) :=
    h.setControl _ (fun i => by rw [hpc]; nofun) nofun
  refine hidle.frame (stopReturn_control ..) (stopReturn_worker ..) (stopReturn_spawned ..)
    (fun i hi => by rwa [stopReturn_workers] at hi) ?_
  intro hterm
  simp only [Engine.stopReturn] at hterm
  split at hterm
  · split at hterm <;> cases hterm
  · exact h.notAssigned hterm

/-- **The step lemma**: the invariant is kept by every step that meets the condition on the
test of `start()`.

**Proof sketch.** By cases on the step. What `start()` does past its test is `create` and `assign`,
the end of `stop()` is `join` and `stopReturn`, the test itself is where the condition is needed,
and any other step of a control thread is a `setControl`. A consumer's step changes that consumer
only. -/
theorem step (h : ControlInv s) (hsole : SoleStart s a) (hmove : Move cfg s a s' out) :
    ControlInv s' := by
  cases hmove with
  | callStart hpc _ => exact h.setControl _ (fun i => by rw [hpc]; nofun) (fun hp => hp.elim)
  | callStop hpc _ => exact h.setControl _ (fun i => by rw [hpc]; nofun) nofun
  | callDestructor hpc _ =>
    exact (h.setControl (.stopping true .checkRunning) (fun i => by rw [hpc]; nofun)
      nofun).frame rfl rfl rfl (fun _ hi => hi) nofun
  | startFound hpc _ => exact h.setControl _ (fun i => by rw [hpc]; nofun) nofun
  | startPass hpc hrun =>
    obtain ⟨hnone, hother⟩ := hsole hpc hrun
    exact h.setControl _ (fun i => by rw [hpc]; nofun) fun _ => ⟨hnone, fun u _ => hother u, nofun⟩
  | @startStore t b hpc =>
    have ht : (s.control t).StartPassed := by rw [hpc]; trivial
    exact (h.setControl (t := t) (.starting .createThread) (fun i => by rw [hpc]; nofun)
      fun _ => ⟨h.noWorker t ht, fun u hu hpass => hu (h.oneStart u t hpass ht), nofun⟩).frame
      rfl rfl rfl (fun _ hi => hi) h.notAssigned
  | createThrow hpc => exact h.setControl _ (fun i => by rw [hpc]; nofun) nofun
  | create hpc => exact h.create hpc
  | @assignJoinable t b id w hpc hw =>
    have hnone := h.noWorker t (by rw [hpc]; trivial)
    rw [hw] at hnone
    cases hnone
  | assign hpc hw => exact h.assign hpc
  | stopIdle hpc hrun => exact h.stopReturn hpc false
  | stopPass hpc hrun => exact h.setControl _ (fun i => by rw [hpc]; nofun) nofun
  | @stopStore t b d hpc =>
    exact (h.setControl (t := t) (.stopping d .testJoinable) (fun i => by rw [hpc]; nofun)
      nofun).frame rfl rfl rfl (fun _ hi => hi) h.notAssigned
  | notJoinable hpc hw => exact h.stopReturn hpc true
  | isJoinable hpc hw => exact h.setControl _ (fun i => by rw [hpc]; nofun) nofun
  | joinThrow hpc hw => exact h.setControl _ (fun i => by rw [hpc]; nofun) nofun
  | destructorThrow hpc hw => exact h.frame rfl rfl rfl (fun _ hi => hi) nofun
  | joined hpc hw hexit => exact (h.join hw hexit).stopReturn hpc true
  | callSubmit hp => exact h.frame rfl rfl rfl (fun _ hi => hi) h.notAssigned
  | submit hp => exact h.frame rfl rfl rfl (fun _ hi => hi) h.notAssigned
  | checkMain hpc hrun => exact h.setWorker (by rw [hpc]; nofun) rfl rfl rfl rfl rfl
  | checkDrain hpc hrun => exact h.setWorker (by rw [hpc]; nofun) rfl rfl rfl rfl rfl
  | pop hpc => exact h.setWorker (by rw [hpc]; nofun) rfl rfl rfl rfl rfl
  | evaluate hpc => exact h.setWorker (by rw [hpc]; nofun) rfl rfl rfl rfl rfl
  | report hpc => exact h.setWorker (by rw [hpc]; nofun) rfl rfl rfl rfl rfl
  | count hpc => exact h.setWorker (by rw [hpc]; nofun) rfl rfl rfl rfl rfl
  | yield hpc => exact h.setWorker (by rw [hpc]; nofun) rfl rfl rfl rfl rfl

end ControlInv

/-- The invariant holds after the constructor. -/
lemma controlInv_init (Thread : Type) : ControlInv (State.init Thread) where
  consumer := fun _ hi => absurd rfl hi
  oneStart := nofun
  noWorker := nofun
  assigning := nofun
  owned := nofun
  notAssigned := nofun

end NullRing.Engine
