import NullRing.Engine.Pipeline
import NullRing.Engine.Stopped

set_option relaxedAutoImplicit false
set_option autoImplicit false

/-!
# One control thread

With a single control thread the calls of `start()` and `stop()` do not overlap, so there is one
consumer at a time and the invariant of the events holds. When every creation of a thread
succeeds, an engine that is found running has a consumer, which is in its main loop until
`running_` is cleared.

## Main definitions

* `Engine.CreationSucceeds` — no creation of a thread throws.
* `Engine.SoloInv` — the invariant of a single control thread.
* `Engine.MainLoop` — where the consumer is while `running_` is true.

## Main results

* `Engine.apartInv_step_unit`, `Engine.SoloInv.step`, `Engine.MainLoop.step` — the step lemmas.
* `Engine.pipeInv_of_run` — the invariant of the events holds in every run.
-/

namespace NullRing.Engine

open RingBuffer Transition

/-- The creation of a thread does not throw. -/
def CreationSucceeds {Thread : Type} (_ : State Thread) : Action Thread → Prop
  | .stepControl _ true => False
  | _ => True

/-- Decidable, so that schedules can be executed. -/
instance {Thread : Type} (s : State Thread) (a : Action Thread) :
    Decidable (CreationSucceeds s a) :=
  match a with
  | .stepControl _ true => isFalse id
  | .stepControl _ false => isTrue trivial
  | .callStart _ => isTrue trivial
  | .callStop _ => isTrue trivial
  | .callDestructor _ => isTrue trivial
  | .callSubmit _ => isTrue trivial
  | .stepProducer => isTrue trivial
  | .stepWorker _ => isTrue trivial

variable {cfg : Config} {s s' : State Unit} {a : Action Unit} {out : List (Event Unit)}

/-- The calls of a single control thread do not overlap. -/
lemma startsApart_unit (hmove : Move cfg s a s' out) : StartsApart s a := by
  cases hmove with
  | callStart hpc _ => exact fun _ => hpc
  | callStop hpc _ => exact fun _ hin => by rw [hpc] at hin; exact hin
  | callDestructor hpc _ => exact fun _ hin => by rw [hpc] at hin; exact hin
  | _ => trivial

/-- Every step of an engine with a single control thread keeps `ApartInv`. -/
lemma apartInv_step_unit (h : ApartInv s) (hmove : Move cfg s a s' out) : ApartInv s' :=
  h.step (startsApart_unit hmove) hmove

/-- The control thread enters the destructor and `start()` only by calling them.

**Proof sketch.** By cases on the step. A step inside a call leads to another point of the same
call, or out of it. -/
lemma Move.control_cases (hmove : Move cfg s a s' out) :
    ((∃ pc, s'.control () = .stopping true pc) →
      (∃ pc, s.control () = .stopping true pc) ∨ a = .callDestructor ()) ∧
    ((s'.control ()).InStart → (s.control ()).InStart ∨ a = .callStart () ∧ s.life = .alive) := by
  have hidle : ∀ (s₁ : State Unit) (t : Unit) (d b : Bool),
      (stopReturn s₁ t d b).1.control () = .idle := fun s₁ t d b =>
    (congrFun (stopReturn_control ..) ()).trans (Function.update_self ..)
  cases hmove with
  | callStart _ halive => exact ⟨nofun, fun _ => Or.inr ⟨rfl, halive⟩⟩
  | callDestructor _ _ => exact ⟨fun _ => Or.inr rfl, fun hin => hin.elim⟩
  | startPass hpc _ | startStore hpc | create hpc =>
    refine ⟨nofun, fun _ => Or.inl ?_⟩
    rw [show s.control () = _ from hpc]
    trivial
  | stopPass hpc _ | stopStore hpc | isJoinable hpc _ =>
    refine ⟨fun ⟨pc, hp⟩ => Or.inl ?_, fun hin => hin.elim⟩
    cases hp
    exact ⟨_, hpc⟩
  | stopIdle _ _ | notJoinable _ _ | joined _ _ _ =>
    rw [hidle]
    exact ⟨nofun, fun hin => hin.elim⟩
  | callStop _ _ | startFound _ _ | createThrow _ | assign _ _ | joinThrow _ _ =>
    exact ⟨nofun, fun hin => hin.elim⟩
  | _ => exact ⟨Or.inl, Or.inl⟩

/-- With a single control thread, the invariant of the events holds in every run. -/
lemma pipeInv_of_run {es : List (Event Unit)}
    (h : (system cfg Unit).Run System.anyStep (system cfg Unit).init es s) :
    ApartInv s ∧ ∃ q, PipeInv cfg es q s := by
  refine h.invariant (I := fun es s => ApartInv s ∧ ∃ q, PipeInv cfg es q s)
    ⟨apartInv_init Unit, [], pipeInv_init cfg Unit⟩ ?_
  rintro es s a s' out ⟨hapart, q, hpipe⟩ - hstep
  obtain ⟨hmove, -⟩ := move_of_step hstep
  exact ⟨apartInv_step_unit hapart hmove, hpipe.step hapart.toControlInv hmove⟩

/-- The invariant of a single control thread whose threads are created. -/
structure SoloInv (s : State Unit) : Prop extends ApartInv s where
  /-- A `stop()` about to clear `running_` has found it true, and it still is. -/
  storing : ∀ d, s.control () = .stopping d .storeRunning → s.running = true
  /-- A `stop()` past its store finds `worker_` joinable. -/
  joining : (s.control ()).Joining → s.running = false ∧ s.worker ≠ none
  /-- An engine that is running has a consumer, or is about to. -/
  hasWorker : s.running = true → (s.control ()).StartPassed ∨ s.worker ≠ none

namespace SoloInv

/-- The control thread comes to the point `pc`. -/
lemma of_control (pc : ControlPc) (hinv : ApartInv s') (hcontrol : s'.control () = pc)
    (hstoring : ∀ d, pc = .stopping d .storeRunning → s'.running = true)
    (hjoining : pc.Joining → s'.running = false ∧ s'.worker ≠ none)
    (hworker : s'.running = true → pc.StartPassed ∨ s'.worker ≠ none) : SoloInv s' where
  toApartInv := hinv
  storing := by rw [hcontrol]; exact hstoring
  joining := by rw [hcontrol]; exact hjoining
  hasWorker := by rw [hcontrol]; exact hworker

/-- What the control thread does not read changes. -/
lemma frame (h : SoloInv s) (hinv : ApartInv s') (hcontrol : s'.control = s.control)
    (hworker : s'.worker = s.worker) (hrunning : s'.running = s.running) : SoloInv s' :=
  of_control _ hinv (congrFun hcontrol ()) (by rw [hrunning]; exact h.storing)
    (by rw [hrunning, hworker]; exact h.joining) (by rw [hrunning, hworker]; exact h.hasWorker)

/-- Outside `start()`, an engine that is running has a consumer. -/
lemma worker_ne_none (h : SoloInv s) (hpc : ¬ (s.control ()).StartPassed)
    (hrun : s.running = true) : s.worker ≠ none :=
  (h.hasWorker hrun).resolve_left hpc

/-- **The step lemma**: every step whose creation of a thread succeeds keeps the invariant.

**Proof sketch.** By cases on the step. The store of `running_` in `start()` is followed by the
creation and the assignment, as the creation succeeds; between calls and inside `stop()` a true
`running_` therefore comes with a joinable `worker_`, and `stop()`, which tests `running_` first,
finds it so; hence `join` is reached and does not throw. At a return of `stop()` `running_` is
false. -/
theorem step (h : SoloInv s) (hcreate : CreationSucceeds s a) (hmove : Move cfg s a s' out) :
    SoloInv s' := by
  have hinv : ApartInv s' := apartInv_step_unit h.toApartInv hmove
  cases hmove with
  | callStart hpc _ | callStop hpc _ | callDestructor hpc _ | startFound hpc _ =>
    exact of_control _ hinv (setControl_self ..) nofun (fun hj => hj.elim)
      fun hrun => Or.inr (h.worker_ne_none (by rw [hpc]; exact id) hrun)
  | createThrow _ => exact hcreate.elim
  | startPass _ _ | startStore _ | create _ =>
    exact of_control _ hinv (setControl_self ..) nofun (fun hj => hj.elim) fun _ => Or.inl trivial
  | assignJoinable _ _ => exact h.frame hinv rfl rfl rfl
  | assign hpc hw =>
    exact of_control _ hinv (setControl_self ..) nofun (fun hj => hj.elim) fun _ => Or.inr nofun
  | stopIdle hpc hrun =>
    refine of_control .idle hinv ((congrFun (stopReturn_control ..) ()).trans
      (Function.update_self ..)) nofun (fun hj => hj.elim) ?_
    intro hrun'
    rw [stopReturn_running, hrun] at hrun'
    cases hrun'
  | stopPass hpc hrun =>
    exact of_control _ hinv (setControl_self ..) (fun _ _ => hrun) (fun hj => hj.elim)
      fun hrun => Or.inr (h.worker_ne_none (by rw [hpc]; exact id) hrun)
  | @stopStore t b d hpc =>
    exact of_control _ hinv (setControl_self ..) nofun
      (fun _ => ⟨rfl, h.worker_ne_none (by rw [hpc]; exact id) (h.storing d hpc)⟩) nofun
  | notJoinable hpc hw | joinThrow hpc hw | destructorThrow hpc hw =>
    exact absurd hw (h.joining (by rw [hpc]; trivial)).2
  | isJoinable hpc hw =>
    have hjoin := h.joining (by rw [hpc]; trivial)
    exact of_control _ hinv (setControl_self ..) nofun (fun _ => hjoin) fun _ => Or.inr hjoin.2
  | joined hpc hw hexit =>
    have hjoin := h.joining (by rw [hpc]; trivial)
    refine of_control .idle hinv ((congrFun (stopReturn_control ..) ()).trans
      (Function.update_self ..)) nofun (fun hj => hj.elim) ?_
    intro hrun'
    rw [stopReturn_running, show ({ s with worker := none } : State Unit).running = s.running
      from rfl, hjoin.1] at hrun'
    cases hrun'
  | callSubmit _ | submit _ | checkMain _ _ | checkDrain _ _ => exact h.frame hinv rfl rfl rfl
  | pop _ | evaluate _ | report _ | count _ | yield _ => exact h.frame hinv rfl rfl rfl

end SoloInv

/-- The invariant holds after the constructor. -/
lemma soloInv_init : SoloInv (State.init Unit) where
  toApartInv := apartInv_init Unit
  storing := nofun
  joining := fun hj => hj.elim
  hasWorker := nofun

/-! ## The main loop -/

/-- While `running_` is true, the consumer that `worker_` owns or is about to own is in its main
loop. -/
def MainLoop (s : State Unit) : Prop :=
  s.running = true → (s.worker ≠ none ∨ ∃ i, s.control () = .starting (.assignWorker i)) →
    s.current.InMain

/-- **The step lemma**: a consumer is created in its main loop, and leaves it only when it finds
`running_` false.

**Proof sketch.** A consumer is created in its main loop, and while `running_` is true it stays
there (`inMain_step`). A step after which `running_` is true and the consumer is due found it so,
but for the store of `start()`, before which `worker_` is not joinable and after which nothing is
due yet. -/
lemma MainLoop.step (h : MainLoop s) (hctl : ControlInv s) (hmove : Move cfg s a s' out) :
    MainLoop s' := by
  -- a consumer in its main loop stays there
  have hkeep : s.running = true →
      (s.worker ≠ none ∨ ∃ i, s.control () = .starting (.assignWorker i)) →
      s'.current.InMain :=
    fun hrun hcond => inMain_step hctl hmove hrun (h hrun hcond)
  have hworker : ∀ {s₁ : State Unit} {d b : Bool},
      ((stopReturn s₁ () d b).1.worker ≠ none ∨
        ∃ i, (stopReturn s₁ () d b).1.control () = .starting (.assignWorker i)) →
      s₁.worker ≠ none := by
    rintro s₁ d b (hw | ⟨i, hi⟩)
    · rwa [stopReturn_worker] at hw
    · rw [stopReturn_control, Function.update_self] at hi
      cases hi
  intro hrun hcond
  cases hmove with
  | create _ =>
    have hmain : ∀ s₁ : State Unit, s₁.current = .checkRunning → s₁.current.InMain :=
      fun s₁ hs => by rw [hs]; trivial
    exact hmain _ (Function.update_self ..)
  | assign hpc _ => exact hkeep hrun (Or.inr ⟨_, hpc⟩)
  | startStore hpc =>
    have hnone := hctl.noWorker () (by rw [show s.control () = _ from hpc]; trivial)
    rcases hcond with hw | ⟨i, hi⟩
    · exact absurd hnone hw
    · cases hi
  | stopStore _ => cases hrun
  | stopIdle _ _ | notJoinable _ _ =>
    rw [stopReturn_running] at hrun
    exact hkeep hrun (Or.inl (hworker hcond))
  | joined _ _ _ => exact absurd rfl (hworker hcond)
  | assignJoinable _ _ | destructorThrow _ _ | callSubmit _ | submit _ => exact hkeep hrun hcond
  | checkMain _ _ | checkDrain _ _ | pop _ | evaluate _ | report _ | count _ | yield _ =>
    exact hkeep hrun hcond
  | _ => exact hkeep hrun (hcond.imp id fun ⟨_, hi⟩ => by cases hi)

end NullRing.Engine
