import Mathlib.Data.Fintype.Basic
import NullRing.Engine.Control

set_option relaxedAutoImplicit false
set_option autoImplicit false

/-!
# What a returned `stop()` means

`stop()` clears `running_` before it joins the consumer, and returns at once when it finds
`running_` false. A `stop()` that tests `running_` while another one waits for the consumer
therefore returns while the consumer still works. When no `start()` overlaps the other calls,
that is the only way: a `stop()` that returns leaves a stopped engine if and only if it did not
find `running_` false and `worker_` joinable.

## Main definitions

* `Engine.StartsApart` — no `start()` overlaps another call.
* `Engine.TestsJoined` — no `stop()` finds `running_` false and `worker_` joinable.
* `Engine.Stopped` — no consumer runs, and `worker_` is not joinable.

## Main results

* `Engine.stop_return_iff` — when a returned `stop()` means a stopped engine.
* `Engine.stop_returns_early` — a `stop()` that returns while the consumer holds an event.
-/

namespace NullRing.Engine

open RingBuffer Transition

variable {Thread : Type}

/-- In `start()`. -/
def ControlPc.InStart : ControlPc → Prop
  | .starting _ => True
  | _ => False

/-- A `start()` past its test has not returned. -/
lemma ControlPc.StartPassed.inStart {pc : ControlPc} (h : pc.StartPassed) : pc.InStart := by
  cases pc with
  | starting _ => trivial
  | _ => exact h.elim

/-- Decidable, so that schedules can be executed. -/
instance (pc : ControlPc) : Decidable pc.InStart :=
  match pc with
  | .idle => isFalse id
  | .starting _ => isTrue trivial
  | .stopping _ _ => isFalse id

/-- `start()` is called when no other call is in progress, and `stop()` and the destructor when
no `start()` is. -/
def StartsApart (s : State Thread) : Action Thread → Prop
  | .callStart _ => ∀ u, s.control u = .idle
  | .callStop _ => ∀ u, ¬ (s.control u).InStart
  | .callDestructor _ => ∀ u, ¬ (s.control u).InStart
  | _ => True

/-- Decidable, so that schedules can be executed. -/
instance [Fintype Thread] (s : State Thread) (a : Action Thread) : Decidable (StartsApart s a) :=
  match a with
  | .callStart _ => inferInstanceAs (Decidable (∀ u, s.control u = .idle))
  | .callStop _ => inferInstanceAs (Decidable (∀ u, ¬ (s.control u).InStart))
  | .callDestructor _ => inferInstanceAs (Decidable (∀ u, ¬ (s.control u).InStart))
  | .stepControl _ _ => isTrue trivial
  | .callSubmit _ => isTrue trivial
  | .stepProducer => isTrue trivial
  | .stepWorker _ => isTrue trivial

/-- A `stop()` that finds `running_` false finds `worker_` not joinable. -/
def TestsJoined (s : State Thread) : Action Thread → Prop
  | .stepControl t _ => ∀ d, s.control t = .stopping d .checkRunning → s.running = false →
      s.worker = none
  | _ => True

/-- No consumer runs, and `worker_` is not joinable. -/
def Stopped (s : State Thread) : Prop := s.worker = none ∧ ∀ i, s.workers i = .exited

/-- An event is dereferenced, or the callback invoked. -/
def Event.FromConsumer : Event Thread → Prop
  | .evaluated _ => True
  | .reported _ => True
  | _ => False

/-- `start()` is not called. -/
def NoStart (_ : State Thread) : Action Thread → Prop
  | .callStart _ => False
  | _ => True

/-! ## The invariant -/

/-- A `stop()` that has cleared `running_` has yet to look at `worker_` or to join. -/
def ControlPc.Joining : ControlPc → Prop
  | .stopping _ .testJoinable => True
  | .stopping _ .join => True
  | _ => False

/-- The invariant of the runs in which no `start()` overlaps another call. -/
structure ApartInv (s : State Thread) : Prop extends ControlInv s where
  /-- A thread in `start()` is the only one in a call. -/
  apart : ∀ t u, (s.control t).InStart → u ≠ t → s.control u = .idle
  /-- From its store on, a `start()` finds `running_` true. -/
  startRunning : ∀ t, s.control t = .starting .createThread ∨
    (∃ i, s.control t = .starting (.assignWorker i)) → s.running = true
  /-- While `worker_` is joinable, `running_` is true or some `stop()` is about to join. -/
  flag : ∀ w, s.worker = some w → s.running = true ∨ ∃ t, (s.control t).Joining

variable {cfg : Config} {s s' : State Thread} {a : Action Thread} {out : List (Event Thread)}
  {t u : Thread}

namespace ApartInv

/-- The condition on the test of `start()` is met.

**Proof sketch.** The thread at the test is in `start()`, so every other is outside the calls. Then
nobody is in `stop()`, so that with `running_` false `worker_` is not joinable; and nobody else is
in `start()`. -/
lemma soleStart (h : ApartInv s) (a : Action Thread) : SoleStart s a := by
  rcases a with t | t | t | ⟨t, b⟩ | ptr | _ | id
  case stepControl =>
    intro hpc hrun
    have hin : (s.control t).InStart := by rw [hpc]; trivial
    constructor
    · cases hw : s.worker with
      | none => rfl
      | some w =>
        exfalso
        rcases h.flag w hw with hr | ⟨u, hu⟩
        · rw [hrun] at hr
          cases hr
        · by_cases hut : u = t
          · rw [hut, hpc] at hu
            exact hu
          · rw [h.apart t u hin hut] at hu
            exact hu
    · intro u hu
      by_cases hut : u = t
      · rw [hut, hpc] at hu
        exact hu
      · rw [h.apart t u hin hut] at hu
        exact hu
  all_goals trivial

/-- What the control threads do not read changes. -/
lemma frame (h : ApartInv s) (hinv : ControlInv s') (hcontrol : s'.control = s.control)
    (hworker : s'.worker = s.worker) (hrunning : s'.running = s.running) : ApartInv s' where
  toControlInv := hinv
  apart := by rw [hcontrol]; exact h.apart
  startRunning := by rw [hcontrol, hrunning]; exact h.startRunning
  flag := by rw [hcontrol, hworker, hrunning]; exact h.flag

/-- While a thread is in `stop()`, none is in `start()`. -/
lemma not_inStart_of_stopping (h : ApartInv s) {d : Bool} {pc : StopPc}
    (hpc : s.control t = .stopping d pc) (u : Thread) : ¬ (s.control u).InStart := by
  intro hu
  by_cases hut : u = t
  · rw [hut, hpc] at hu
    exact hu
  · have hidle := h.apart u t hu (Ne.symm hut)
    rw [hpc] at hidle
    cases hidle

/-- While a thread is in `start()`, the others are idle. -/
lemma idle_of_starting (h : ApartInv s) {pc : StartPc} (hpc : s.control t = .starting pc)
    (hut : u ≠ t) : s.control u = .idle := by
  refine h.apart t u ?_ hut
  rw [hpc]
  trivial

/-- `flag` after a step of a thread that is not about to join. -/
lemma keepFlag (h : ApartInv s) (ht : ¬ (s.control t).Joining) (hworker : s'.worker = s.worker)
    (hrunning : s'.running = s.running) (pc : ControlPc) : ∀ w, s'.worker = some w →
      s'.running = true ∨ pc.Joining ∨ ∃ u, u ≠ t ∧ (s.control u).Joining := by
  intro w hw
  rw [hworker] at hw
  rw [hrunning]
  rcases h.flag w hw with hr | ⟨u, hu⟩
  · exact Or.inl hr
  · refine Or.inr (Or.inr ⟨u, ?_, hu⟩)
    rintro rfl
    exact ht hu

variable [DecidableEq Thread]

/-- A control thread moves to another point, while no other is in `start()`.

**Proof sketch.** Each clause is asked of a control thread that is `t`, for which it is a
hypothesis, or another one, which is where it was and is not in `start()`. -/
lemma of_move (pc : ControlPc) (hinv : ControlInv s')
    (hcontrol : s'.control = Function.update s.control t pc)
    (hothers : ∀ u, u ≠ t → ¬ (s.control u).InStart)
    (hin : pc.InStart → ∀ u, u ≠ t → s.control u = .idle)
    (hstart : pc = .starting .createThread ∨ (∃ i, pc = .starting (.assignWorker i)) →
      s'.running = true)
    (hflag : ∀ w, s'.worker = some w → s'.running = true ∨ pc.Joining ∨
      ∃ u, u ≠ t ∧ (s.control u).Joining) : ApartInv s' where
  toControlInv := hinv
  apart := by
    intro v u hv huv
    rw [hcontrol] at hv ⊢
    by_cases hvt : v = t
    · subst hvt
      rw [Function.update_self] at hv
      rw [Function.update_of_ne huv]
      exact hin hv u huv
    · rw [Function.update_of_ne hvt] at hv
      exact absurd hv (hothers v hvt)
  startRunning := by
    intro v hv
    rw [hcontrol] at hv
    by_cases hvt : v = t
    · subst hvt
      rw [Function.update_self] at hv
      exact hstart hv
    · rw [Function.update_of_ne hvt] at hv
      refine absurd ?_ (hothers v hvt)
      rcases hv with hv | ⟨i, hv⟩ <;> rw [hv] <;> trivial
  flag := by
    intro w hw
    rw [hcontrol]
    rcases hflag w hw with hr | hj | ⟨u, hut, hu⟩
    · exact Or.inl hr
    · exact Or.inr ⟨t, by rwa [Function.update_self]⟩
    · exact Or.inr ⟨u, by rwa [Function.update_of_ne hut]⟩

/-- A thread in `start()` moves on. -/
lemma moveStart (h : ApartInv s) (pc : ControlPc) {pc₀ : StartPc} (hinv : ControlInv s')
    (hpc : s.control t = .starting pc₀) (hcontrol : s'.control = Function.update s.control t pc)
    (hstart : pc = .starting .createThread ∨ (∃ i, pc = .starting (.assignWorker i)) →
      s'.running = true)
    (hflag : ∀ w, s'.worker = some w → s'.running = true ∨ pc.Joining ∨
      ∃ u, u ≠ t ∧ (s.control u).Joining) : ApartInv s' :=
  of_move pc hinv hcontrol (fun u hu hin => by rw [h.idle_of_starting hpc hu] at hin; exact hin)
    (fun _ u hu => h.idle_of_starting hpc hu) hstart hflag

/-- A thread in `stop()` moves on. -/
lemma moveStop (h : ApartInv s) (pc : ControlPc) {d : Bool} {pc₀ : StopPc} (hinv : ControlInv s')
    (hpc : s.control t = .stopping d pc₀) (hcontrol : s'.control = Function.update s.control t pc)
    (hin : ¬ pc.InStart)
    (hflag : ∀ w, s'.worker = some w → s'.running = true ∨ pc.Joining ∨
      ∃ u, u ≠ t ∧ (s.control u).Joining) : ApartInv s' := by
  refine of_move pc hinv hcontrol (fun u _ => h.not_inStart_of_stopping hpc u)
    (fun hp => absurd hp hin) (fun hp => absurd ?_ hin) hflag
  rcases hp with hp | ⟨i, hp⟩ <;> rw [hp] <;> trivial

/-- **The step lemma**: every step keeps the invariant when no `start()` overlaps another
call.

**Proof sketch.** By cases on the step. A step inside `start()` is `moveStart`, with the others
idle, and one inside `stop()` is `moveStop`, with no `start()` under way. What is to be shown of
each is the flag: while `worker_` is joinable, `running_` is true or a `stop()` is past its
store. A `start()` stores `true` before it creates the thread, a `stop()` past its store returns
with `worker_` not joinable, and one that returns before it leaves both alone. -/
theorem step (h : ApartInv s) (hapart : StartsApart s a) (hmove : Move cfg s a s' out) :
    ApartInv s' := by
  have hinv : ControlInv s' := h.toControlInv.step (h.soleStart a) hmove
  cases hmove with
  | @callStart t hpc _ =>
    refine of_move _ hinv rfl (fun u _ hu => by rw [hapart u] at hu; exact hu)
      (fun _ u _ => hapart u) (by simp) (h.keepFlag ?_ rfl rfl _)
    rw [hpc]
    exact id
  | @callStop t hpc _ =>
    refine of_move _ hinv rfl (fun u _ => hapart u) (fun hp => hp.elim) (by simp)
      (h.keepFlag ?_ rfl rfl _)
    rw [hpc]
    exact id
  | @callDestructor t hpc _ =>
    refine of_move (.stopping true .checkRunning) hinv rfl (fun u _ => hapart u)
      (fun hp => hp.elim) (by simp) (h.keepFlag ?_ rfl rfl _)
    rw [hpc]
    exact id
  | startFound hpc _ =>
    exact h.moveStart _ hinv hpc rfl (by simp) (h.keepFlag (by rw [hpc]; exact id) rfl rfl _)
  | startPass hpc _ =>
    exact h.moveStart _ hinv hpc rfl (by simp) (h.keepFlag (by rw [hpc]; exact id) rfl rfl _)
  | startStore hpc =>
    exact h.moveStart (.starting .createThread) hinv hpc rfl (fun _ => rfl) fun _ _ => Or.inl rfl
  | createThrow hpc =>
    exact h.moveStart _ hinv hpc rfl (by simp) (h.keepFlag (by rw [hpc]; exact id) rfl rfl _)
  | @create t hpc =>
    have hrun := h.startRunning t (Or.inl hpc)
    exact h.moveStart (.starting (.assignWorker s.spawned)) hinv hpc rfl (fun _ => hrun)
      fun _ _ => Or.inl hrun
  | assignJoinable hpc hw => exact h.frame hinv rfl rfl rfl
  | @assign t b id hpc hw =>
    exact h.moveStart .idle hinv hpc rfl (by simp) fun _ _ =>
      Or.inl (h.startRunning t (Or.inr ⟨id, hpc⟩))
  | stopIdle hpc hrun =>
    exact h.moveStop .idle hinv hpc (stopReturn_control ..) id
      (h.keepFlag (by rw [hpc]; exact id) (stopReturn_worker ..) (stopReturn_running ..) _)
  | stopPass hpc hrun =>
    exact h.moveStop _ hinv hpc rfl id (h.keepFlag (by rw [hpc]; exact id) rfl rfl _)
  | @stopStore t b d hpc =>
    exact h.moveStop (.stopping d .testJoinable) hinv hpc rfl id fun _ _ => Or.inr (Or.inl trivial)
  | notJoinable hpc hw =>
    apply h.moveStop .idle hinv hpc (stopReturn_control ..) id
    intro w hw'
    rw [stopReturn_worker, hw] at hw'
    cases hw'
  | isJoinable hpc hw =>
    exact h.moveStop _ hinv hpc rfl id fun _ _ => Or.inr (Or.inl trivial)
  | joinThrow hpc hw =>
    apply h.moveStop _ hinv hpc rfl id
    intro w hw'
    rw [setControl_worker, hw] at hw'
    cases hw'
  | destructorThrow hpc hw => exact h.frame hinv rfl rfl rfl
  | joined hpc hw hexit =>
    apply h.moveStop .idle hinv hpc (stopReturn_control ..) id
    intro w hw'
    rw [stopReturn_worker] at hw'
    cases hw'
  | callSubmit _ => exact h.frame hinv rfl rfl rfl
  | submit _ => exact h.frame hinv rfl rfl rfl
  | checkMain _ _ => exact h.frame hinv rfl rfl rfl
  | checkDrain _ _ => exact h.frame hinv rfl rfl rfl
  | pop _ => exact h.frame hinv rfl rfl rfl
  | evaluate _ => exact h.frame hinv rfl rfl rfl
  | report _ => exact h.frame hinv rfl rfl rfl
  | count _ => exact h.frame hinv rfl rfl rfl
  | yield _ => exact h.frame hinv rfl rfl rfl

end ApartInv

/-- The invariant holds after the constructor. -/
lemma apartInv_init (Thread : Type) : ApartInv (State.init Thread) where
  toControlInv := controlInv_init Thread
  apart := nofun
  startRunning := nofun
  flag := nofun

/-! ## The returns of `stop()` -/

/-- **The three returns of `stop()`**: it found `running_` false, or `worker_` not joinable, or
it has joined.

**Proof sketch.** Three steps show that `stop()` has returned, each with its guard. -/
lemma stop_return_cases [DecidableEq Thread] {b : Bool} (hmove : Move cfg s a s' out)
    (hret : .stopReturned t b ∈ out) :
    ∃ c d, a = .stepControl t c ∧ (∀ e ∈ out, e = .stopReturned t b ∨ e = .destroyed) ∧
      ((s.control t = .stopping d .checkRunning ∧ s.running = false ∧ b = false ∧
          s' = (stopReturn s t d false).1) ∨
        (s.control t = .stopping d .testJoinable ∧ s.worker = none ∧ b = true ∧
          s' = (stopReturn s t d true).1) ∨
        ∃ w, s.control t = .stopping d .join ∧ s.worker = some w ∧ s.workers w = .exited ∧
          b = true ∧ s' = (stopReturn { s with worker := none } t d true).1) := by
  obtain ⟨c', d', pc, ha, -⟩ := hmove.shows hret
  cases hmove with
  | @stopIdle t c d hpc hrun =>
    rcases mem_stopReturn hret with he | he <;> cases he
    exact ⟨c, d, rfl, fun _ => mem_stopReturn, Or.inl ⟨hpc, hrun, rfl, rfl⟩⟩
  | @notJoinable t c d hpc hw =>
    rcases mem_stopReturn hret with he | he <;> cases he
    exact ⟨c, d, rfl, fun _ => mem_stopReturn, Or.inr (Or.inl ⟨hpc, hw, rfl, rfl⟩)⟩
  | @joined t c d w hpc hw hexit =>
    rcases mem_stopReturn hret with he | he <;> cases he
    exact ⟨c, d, rfl, fun _ => mem_stopReturn, Or.inr (Or.inr ⟨w, hpc, hw, hexit, rfl, rfl⟩)⟩
  | submit _ | pop _ | report _ => cases ha
  | _ => simp at hret

/-- When `worker_` is not joinable and no `start()` is past its test, no consumer runs. -/
lemma ControlInv.stopped (h : ControlInv s) (hw : s.worker = none)
    (hno : ∀ u, ¬ (s.control u).StartPassed) : Stopped s := by
  refine ⟨hw, ?_⟩
  intro i
  by_contra hi
  rcases (h.consumer i hi).2 with hown | ⟨u, hu⟩
  · rw [hw] at hown
    cases hown
  · exact hno u (by rw [hu]; trivial)

/-- When no thread is in `start()` and `worker_` is not joinable, no consumer runs. -/
lemma ApartInv.stopped_of_worker_none (h : ApartInv s) (hno : ∀ u, ¬ (s.control u).InStart)
    (hw : s.worker = none) : Stopped s :=
  h.toControlInv.stopped hw fun u hu => hno u hu.inStart

/-- Whether a `stop()` that returns leaves a stopped engine.

**Proof sketch.** By the three ways for `stop()` to return. If it has found the engine not running,
whether it is stopped is whether `worker_` is joinable, which is what `TestsJoined` asks. In the
other two `worker_` is not joinable at the return, and `TestsJoined` asks nothing. -/
lemma ApartInv.stopped_iff [DecidableEq Thread] (h : ApartInv s) {b : Bool}
    (hmove : Move cfg s a s' out) (hret : .stopReturned t b ∈ out) :
    TestsJoined s a ↔ Stopped s' := by
  obtain ⟨c, d, rfl, -, ⟨hpc, hrun, -, rfl⟩ | ⟨hpc, hw, -, rfl⟩ | ⟨w, hpc, hw, hexit, -, rfl⟩⟩ :=
    stop_return_cases hmove hret
  · have hno := h.not_inStart_of_stopping hpc
    rw [Stopped, stopReturn_worker, stopReturn_workers]
    constructor
    · intro htest
      exact h.stopped_of_worker_none hno (htest d hpc hrun)
    · rintro ⟨hw, -⟩ d' - -
      exact hw
  · have hstopped := h.stopped_of_worker_none (h.not_inStart_of_stopping hpc) hw
    constructor
    · intro _
      rwa [Stopped, stopReturn_worker, stopReturn_workers]
    · intro _ d' hpc'
      rw [hpc] at hpc'
      cases hpc'
  · constructor
    · intro _
      rw [Stopped, stopReturn_worker, stopReturn_workers]
      refine ⟨rfl, ?_⟩
      intro i
      by_contra hi
      rcases (h.consumer i hi).2 with hown | ⟨u, hu⟩
      · rw [hw] at hown
        cases hown
        exact hi hexit
      · exact h.not_inStart_of_stopping hpc u (by rw [hu]; trivial)
    · intro _ d' hpc'
      rw [hpc] at hpc'
      cases hpc'

/-! ## A stopped engine stays stopped -/

/-- No consumer runs, `worker_` is not joinable, and no thread is in `start()`. -/
def Quiet (s : State Thread) : Prop := Stopped s ∧ ∀ u, ¬ (s.control u).InStart

/-- Moving a control thread out of `start()` keeps an engine quiet. -/
lemma Quiet.update [DecidableEq Thread] (h : Quiet s) (pc : ControlPc) (hpc : ¬ pc.InStart)
    (hcontrol : s'.control = Function.update s.control t pc) (hworker : s'.worker = none)
    (hworkers : s'.workers = s.workers) : Quiet s' := by
  refine ⟨⟨hworker, by rw [hworkers]; exact h.1.2⟩, ?_⟩
  intro u
  rw [hcontrol]
  by_cases hut : u = t
  · subst hut
    rwa [Function.update_self]
  · rw [Function.update_of_ne hut]
    exact h.2 u

/-- A quiet engine shows nothing of a consumer. -/
lemma Quiet.not_fromConsumer [DecidableEq Thread] (h : Quiet s) (hmove : Move cfg s a s' out)
    {e : Event Thread} (he : e ∈ out) : ¬ e.FromConsumer := by
  intro hfrom
  have hshows := hmove.shows he
  cases e with
  | evaluated ptr =>
    obtain ⟨id, loop, -, hpc⟩ := hshows
    cases hpc.symm.trans (h.1.2 id)
  | reported result =>
    obtain ⟨id, loop, -, hpc, -⟩ := hshows
    cases hpc.symm.trans (h.1.2 id)
  | _ => exact hfrom

/-- A quiet engine in which `start()` is not called stays quiet.

**Proof sketch.** By cases on the step. No control thread is in `start()` and no consumer runs,
which excludes their steps; a step of `stop()` creates no consumer, and `submit()` has to do with
neither. -/
lemma Quiet.step [DecidableEq Thread] (h : Quiet s) (hno : NoStart s a)
    (hmove : Move cfg s a s' out) : Quiet s' := by
  have hidle : ∀ {t : Thread} {pc : StartPc}, s.control t ≠ .starting pc := by
    intro t pc hpc
    exact h.2 t (by rw [hpc]; trivial)
  have hexit : ∀ {id : ℕ} {pc : WorkerPc (PopPc ℕ)}, s.workers id = pc → pc = .exited :=
    fun {id} {pc} hpc => hpc.symm.trans (h.1.2 id)
  cases hmove with
  | callStart _ _ => exact hno.elim
  | callStop _ _ => exact h.update _ id rfl h.1.1 rfl
  | @callDestructor t _ _ =>
    exact h.update (t := t) (.stopping true .checkRunning) id rfl h.1.1 rfl
  | startFound hpc _ | startPass hpc _ | startStore hpc => exact absurd hpc hidle
  | createThrow hpc | create hpc => exact absurd hpc hidle
  | assignJoinable hpc _ | assign hpc _ => exact absurd hpc hidle
  | stopIdle hpc _ | notJoinable hpc _ =>
    exact h.update _ id (stopReturn_control ..) ((stopReturn_worker ..).trans h.1.1)
      (stopReturn_workers ..)
  | stopPass hpc _ => exact h.update _ id rfl h.1.1 rfl
  | @stopStore t b d hpc =>
    exact h.update (t := t) (.stopping d .testJoinable) id rfl h.1.1 rfl
  | isJoinable hpc _ => exact h.update _ id rfl h.1.1 rfl
  | joinThrow hpc _ => exact h.update _ id rfl h.1.1 rfl
  | destructorThrow _ _ => exact h
  | joined hpc _ _ =>
    exact h.update _ id (stopReturn_control ..) (stopReturn_worker ..) (stopReturn_workers ..)
  | callSubmit _ | submit _ => exact h
  | checkMain hpc _ | checkDrain hpc _ => cases hexit hpc
  | pop hpc | evaluate hpc | report hpc | count hpc | yield hpc => cases hexit hpc

/-- A quiet engine stays quiet until `start()` is called, and nothing comes from a consumer. -/
lemma Quiet.run [DecidableEq Thread] (h : Quiet s) {es : List (Event Thread)}
    (hrun : (system cfg Thread).Run NoStart s es s') : Quiet s' ∧ ∀ e ∈ es, ¬ e.FromConsumer := by
  refine hrun.invariant (I := fun es s => Quiet s ∧ ∀ e ∈ es, ¬ e.FromConsumer)
    ⟨h, nofun⟩ ?_
  intro es s a s' out hI hP hs
  have hmove := (move_of_step hs).1
  refine ⟨hI.1.step hP hmove, ?_⟩
  intro e he
  rcases List.mem_append.mp he with he | he
  · exact hI.2 e he
  · exact hI.1.not_fromConsumer hmove he

/-- **When a returned `stop()` means a stopped engine.** In the runs in which no `start()`
overlaps another call, a `stop()` that returns, called by the destructor or not, leaves no
consumer running and `worker_` not joinable if and only if it did not find `running_` false and
`worker_` joinable. From a stopped engine on no event is dereferenced and no callback invoked,
until `start()` is called.

**Proof sketch.** The runs keep `ApartInv`, under which a consumer that runs is owned by
`worker_` while no thread is in `start()`. So a `stop()` that finds `worker_` not joinable, or
has joined, leaves a stopped engine, and one that finds `running_` false leaves `worker_` as it
is. -/
theorem stop_return_iff [DecidableEq Thread] (h : (system cfg Thread).Reachable StartsApart s) :
    ∀ a s' out t found, StartsApart s a → step cfg s a = some (s', out) →
      .stopReturned t found ∈ out →
      (TestsJoined s a ↔ Stopped s') ∧
      (Stopped s' → ∀ es s'', (system cfg Thread).Run NoStart s' es s'' →
        Stopped s'' ∧ ∀ e ∈ es, ¬ e.FromConsumer) := by
  have hinv : ApartInv s := h.invariant (apartInv_init Thread)
    fun _ _ _ _ hI hP hs => hI.step hP (move_of_step hs).1
  intro a s' out t found hapart hstep hret
  obtain ⟨hmove, -⟩ := move_of_step hstep
  refine ⟨hinv.stopped_iff hmove hret, ?_⟩
  intro hstopped es s'' hrun
  have hinv' := hinv.step hapart hmove
  have hno : ∀ u, ¬ (s'.control u).InStart := by
    obtain ⟨c, d, rfl, -, hcases⟩ := stop_return_cases hmove hret
    have hcontrol : s'.control = Function.update s.control t .idle := by
      rcases hcases with ⟨-, -, -, rfl⟩ | ⟨-, -, -, rfl⟩ | ⟨w, -, -, -, -, rfl⟩ <;>
        exact stopReturn_control ..
    have hpc : ∃ pc, s.control t = .stopping d pc := by
      rcases hcases with ⟨hpc, -⟩ | ⟨hpc, -⟩ | ⟨w, hpc, -⟩ <;> exact ⟨_, hpc⟩
    obtain ⟨pc, hpc⟩ := hpc
    intro u
    rw [hcontrol]
    by_cases hut : u = t
    · subst hut
      rw [Function.update_self]
      exact id
    · rw [Function.update_of_ne hut]
      exact hinv.not_inStart_of_stopping hpc u
  obtain ⟨hquiet, hes⟩ := Quiet.run ⟨hstopped, hno⟩ hrun
  exact ⟨hquiet.1, hes⟩

/-! ## Two control threads -/

/-- An event is submitted, the engine is started, and the consumer takes the event. -/
def takeEvent : List (Action Bool) :=
  [.callSubmit 7, .stepProducer, .stepProducer, .stepProducer, .stepProducer,
   .callStart false, .stepControl false false, .stepControl false false, .stepControl false false,
   .stepControl false false,
   .stepWorker 0, .stepWorker 0, .stepWorker 0, .stepWorker 0, .stepWorker 0]

/-- Both threads call `stop()` and find the engine running; the consumer finishes the event and
leaves its loop, and one of the threads is about to end its `join`. -/
def bothStop : List (Action Bool) :=
  takeEvent ++
  [.callStop false, .callStop true, .stepControl false false, .stepControl true false,
   .stepControl false false, .stepControl true false, .stepControl false false,
   .stepWorker 0, .stepWorker 0, .stepWorker 0, .stepWorker 0, .stepWorker 0, .stepWorker 0]

/-- Two threads stop the engine at once, and the one that returns from `join` leaves a stopped
engine. -/
theorem stop_return_iff_example :
    ∃ s s', (system numberedEvents Bool).Reachable StartsApart s ∧
      step numberedEvents s (.stepControl false false) = some (s', [.stopReturned false true]) ∧
      Stopped s' := by
  have h : ((system numberedEvents Bool).exec StartsApart (system numberedEvents Bool).init
      bothStop).map (fun r => (r.1.control false,
        (step numberedEvents r.1 (.stepControl false false)).map Prod.snd)) =
      some (.stopping false .join, some [.stopReturned false true]) := by rfl
  obtain ⟨s, es, hrun, hv⟩ := System.exists_run_of_exec h
  obtain ⟨hpc, hout⟩ := Prod.mk.inj hv
  obtain ⟨⟨s', out⟩, hstep, rfl⟩ := Option.map_eq_some_iff.mp hout
  refine ⟨s, s', ⟨es, hrun⟩, hstep, ?_⟩
  have hiff := (stop_return_iff ⟨es, hrun⟩ (.stepControl false false) s' _ false true trivial
    hstep List.mem_cons_self).1
  apply hiff.mp
  intro d hcheck
  rw [hpc] at hcheck
  cases hcheck

/-- The thread `false` calls `stop()` and clears `running_`; then `true` calls `stop()`, while
the consumer still holds the event. -/
def stopTwice : List (Action Bool) :=
  takeEvent ++ [.callStop false, .stepControl false false, .stepControl false false, .callStop true]

/-- **A `stop()` returns while the consumer holds an event it has yet to evaluate.** -/
theorem stop_returns_early :
    ¬ ∀ s a s' out t found, (system numberedEvents Bool).Reachable StartsApart s →
      StartsApart s a → step numberedEvents s a = some (s', out) →
      .stopReturned t found ∈ out → Stopped s' := by
  intro hall
  have h : ((system numberedEvents Bool).exec StartsApart (system numberedEvents Bool).init
      stopTwice).map (fun r => (step numberedEvents r.1 (.stepControl true false)).map
        fun q => (q.1.workers 0, q.2)) =
      some (some (.evaluating .main 7, [.stopReturned true false])) := by rfl
  obtain ⟨s, es, hrun, hv⟩ := System.exists_run_of_exec h
  obtain ⟨⟨s', out⟩, hstep, hq⟩ := Option.map_eq_some_iff.mp hv
  obtain ⟨hworker, rfl⟩ := Prod.mk.inj hq
  have hstopped := hall s (.stepControl true false) s' _ true false ⟨es, hrun⟩ trivial hstep
    List.mem_cons_self
  cases hworker.symm.trans (hstopped.2 0)

end NullRing.Engine
