import NullRing.Engine.DrainBound
import NullRing.Engine.FailedStart

set_option relaxedAutoImplicit false
set_option autoImplicit false

/-!
# The life of an engine

With one control thread nothing ever ends the process: `worker_` is never assigned to or destroyed
while it is joinable, and `stop()` never throws, in the destructor or elsewhere, even after a
`start()` that threw. When the destructor has returned no consumer is left that could touch the
object. And no call hangs for want of a step to take: a call in progress can always go on, or waits
in `join` for a consumer that can.

## Main definitions

* `Engine.Life.Fits`, `Engine.LifeInv` — the invariant.

## Main results

* `Engine.LifeInv.step` — the step lemma.
* `Engine.no_termination` — what never happens, and what can always happen.
-/

namespace NullRing.Engine

open RingBuffer Transition

/-- What the control thread is doing while the object lives, is destroyed and is gone. The process
never ends. -/
def Life.Fits : Life → ControlPc → Prop
  | .alive, pc => ∀ p, pc ≠ .stopping true p
  | .destroying, pc => ∃ p, pc = .stopping true p
  | .destroyed, pc => pc = .idle
  | .terminated _, _ => False

/-- The invariant of the life of an engine. -/
structure LifeInv (s : State Unit) : Prop where
  fits : s.life.Fits (s.control ())
  /-- A destroyed engine has no consumer. -/
  stopped : s.life = .destroyed → Stopped s

variable {cfg : Config} {s s' : State Unit} {a : Action Unit} {out es : List (Event Unit)}
  {failed : Bool}

/-- The life of the object after `stop()` returns with `worker_` not joinable, or outside the
destructor. -/
lemma stopReturn_life {d found : Bool} (hw : d = true → s.worker = none) :
    (stopReturn s () d found).1.life = if d then .destroyed else s.life := by
  cases d with
  | false => rfl
  | true =>
    have hnone : s.worker.isSome = false := by rw [hw rfl]; rfl
    rw [stopReturn, if_pos rfl, hnone]
    rfl

/-- A thread in `stop()` is in the destructor exactly when the object is being destroyed.

**Proof sketch.** By cases on the life of the object, from what `LifeInv` asks of the control thread
in each. -/
lemma LifeInv.life_eq (h : LifeInv s) (hlife : s.life.ongoing = true) {d : Bool} {pc : StopPc}
    (hpc : s.control () = .stopping d pc) : s.life = if d then .destroying else .alive := by
  have hfits := h.fits
  rw [hpc] at hfits
  cases hl : s.life with
  | alive =>
    rw [hl] at hfits
    cases d with
    | false => rfl
    | true => exact absurd rfl (hfits pc)
  | destroying =>
    rw [hl] at hfits
    obtain ⟨p, hp⟩ := hfits
    cases hp
    rfl
  | destroyed | terminated _ =>
    rw [hl] at hlife
    cases hlife

/-- Outside `stop()` the object lives. -/
lemma LifeInv.alive (h : LifeInv s) (hlife : s.life.ongoing = true)
    (hpc : ∀ p, s.control () ≠ .stopping true p) : s.life = .alive := by
  have hfits := h.fits
  cases hl : s.life with
  | alive => rfl
  | destroying =>
    rw [hl] at hfits
    obtain ⟨p, hp⟩ := hfits
    exact absurd hp (hpc p)
  | destroyed | terminated _ =>
    rw [hl] at hlife
    cases hlife

namespace LifeInv

/-- The control thread moves outside the destructor, while the object lives. -/
lemma outside (halive : s'.life = .alive) (hpc : ∀ p, s'.control () ≠ .stopping true p) :
    LifeInv s' where
  fits := by rw [halive]; exact hpc
  stopped hd := by rw [halive] at hd; cases hd

/-- The control thread moves in `stop()`. -/
lemma inside (h : LifeInv s) (hlife : s.life.ongoing = true) {d : Bool} {pc pc' : StopPc}
    (hpc : s.control () = .stopping d pc) (hpc' : s'.control () = .stopping d pc')
    (hlife' : s'.life = s.life) : LifeInv s' := by
  have heq := h.life_eq hlife hpc
  cases d with
  | false => exact outside (hlife'.trans heq) fun p hp => by rw [hpc'] at hp; cases hp
  | true =>
    refine ⟨?_, fun hd => ?_⟩
    · rw [hlife', heq]
      exact ⟨pc', hpc'⟩
    · rw [hlife', heq] at hd
      cases hd

/-- `stop()` returns: outside the destructor the object lives on, and in the destructor it leaves
no consumer.

**Proof sketch.** By cases on whether the call is the destructor's. If not, the thread is outside
the destructor and the object lives. If it is, the object ends, and what `stop()` leaves is a
stopped engine. -/
lemma returned (h : LifeInv s) (hlife : s.life.ongoing = true) {d found : Bool} {pc : StopPc}
    (hpc : s.control () = .stopping d pc) {s₁ : State Unit}
    (hs' : s' = (stopReturn s₁ () d found).1) (hlife₁ : s₁.life = s.life)
    (hstopped : d = true → Stopped s₁) : LifeInv s' := by
  subst hs'
  have heq := h.life_eq hlife hpc
  have hidle : (stopReturn s₁ () d found).1.control () = .idle :=
    (congrFun (stopReturn_control ..) ()).trans (Function.update_self ..)
  have hlife' : (stopReturn s₁ () d found).1.life = if d then .destroyed else s₁.life :=
    stopReturn_life fun hd => (hstopped hd).1
  cases d with
  | false =>
    rw [if_neg Bool.false_ne_true, hlife₁, heq] at hlife'
    exact outside hlife' fun p hp => by rw [hidle] at hp; cases hp
  | true =>
    refine ⟨by rw [hlife', hidle]; rfl, fun _ => ?_⟩
    rw [Stopped, stopReturn_worker, stopReturn_workers]
    exact hstopped rfl

/-- What the control thread does not do leaves the life of the object. -/
lemma frame (h : LifeInv s) (hlife : s.life.ongoing = true) (hlife' : s'.life = s.life)
    (hcontrol : s'.control = s.control) : LifeInv s' := by
  refine ⟨by rw [hlife', hcontrol]; exact h.fits, fun hd => ?_⟩
  rw [hlife'] at hd
  rw [hd] at hlife
  cases hlife

/-- `stop()` does not throw: a `stop()` about to join finds `worker_` joinable. -/
lemma not_threw (hflag : FlagInv failed s) (hmove : Move cfg s a s' out) (t : Unit) :
    .stopThrew t ∉ out := by
  intro ht
  obtain ⟨b, d, rfl, hpc⟩ := hmove.shows ht
  have hjoinable := hflag.joinable d hpc
  cases hmove with
  | joinThrow _ hw | destructorThrow _ hw => exact hjoinable hw
  | stopIdle _ _ | notJoinable _ _ | joined _ _ _ =>
    rcases mem_stopReturn ht with he | he <;> cases he
  | _ => simp at ht

/-- **The step lemma**: the life of the object goes on as it should.

**Proof sketch.** The moves that end the process contradict `FlagInv`: a `start()` about to assign
finds `worker_` not joinable, and a `stop()` about to join finds it joinable. When `stop()` returns
in the destructor no thread is in `start()` and `worker_` is not joinable, so no consumer runs. -/
theorem step (h : LifeInv s) (hflag : FlagInv failed s) (hlife : s.life.ongoing = true)
    (hmove : Move cfg s a s' out) : LifeInv s' := by
  have hstopped : ∀ {s₁ : State Unit} {d : Bool} {pc : StopPc}, s.control () = .stopping d pc →
      s₁.worker = none → (∀ i, s₁.workers i ≠ .exited → s.worker ≠ some i) →
      s₁.workers = s.workers → Stopped s₁ := by
    intro s₁ d pc hpc hw hown hworkers
    refine ⟨hw, fun i => ?_⟩
    by_contra hi
    rcases (hflag.consumer i (by rwa [← hworkers])).2 with hown' | ⟨u, hu⟩
    · exact hown i hi hown'
    · cases hu.symm.trans hpc
  cases hmove with
  | callStart _ halive | callStop _ halive =>
    exact outside halive fun p hp => by cases hp
  | callDestructor _ _ => exact ⟨⟨_, setControl_self ..⟩, nofun⟩
  | startFound hpc _ | startPass hpc _ | startStore hpc | createThrow hpc | create hpc
  | assign hpc _ =>
    refine outside (h.alive hlife fun p hp => ?_) fun p hp => by cases hp
    cases hp.symm.trans hpc
  | assignJoinable hpc hw =>
    have hnone := hflag.noWorker () (by rw [show s.control () = _ from hpc]; trivial)
    rw [hnone] at hw
    cases hw
  | stopIdle hpc hrun =>
    have hnone : s.worker = none := by
      cases hw : s.worker with
      | none => rfl
      | some w =>
        rcases hflag.flag w hw with hr | ⟨u, hu⟩
        · rw [hrun] at hr
          cases hr
        · rw [show s.control u = _ from hpc] at hu
          exact hu.elim
    exact h.returned hlife hpc rfl rfl fun _ =>
      hstopped hpc hnone (fun i _ => by rw [hnone]; nofun) rfl
  | stopPass hpc _ | stopStore hpc | isJoinable hpc _ =>
    exact h.inside hlife hpc (setControl_self ..) rfl
  | notJoinable hpc hw =>
    exact h.returned hlife hpc rfl rfl fun _ =>
      hstopped hpc hw (fun i _ => by rw [hw]; nofun) rfl
  | joinThrow hpc hw | destructorThrow hpc hw => exact absurd hw (hflag.joinable _ hpc)
  | joined hpc hw hexit =>
    refine h.returned hlife hpc rfl rfl fun _ => hstopped hpc rfl (fun i hi hown => ?_) rfl
    rw [hw] at hown
    cases hown
    exact hi hexit
  | callSubmit _ | submit _ | checkMain _ _ | checkDrain _ _ => exact h.frame hlife rfl rfl
  | pop _ | evaluate _ | report _ | count _ | yield _ => exact h.frame hlife rfl rfl

end LifeInv

/-- The invariant holds after the constructor. -/
lemma lifeInv_init : LifeInv (State.init Unit) where
  fits := nofun
  stopped := nofun

/-- The invariant holds in every run, and `stop()` never throws. -/
lemma lifeInv_of_run (h : (system cfg Unit).Run System.anyStep (system cfg Unit).init es s) :
    FlagInv (failedSince es) s ∧ LifeInv s ∧ ∀ t, .stopThrew t ∉ es := by
  refine ⟨flagInv_of_run h, ?_⟩
  have hall := h.invariant (I := fun es s => (∃ failed, FlagInv failed s) ∧ LifeInv s ∧
    ∀ t, .stopThrew t ∉ es) ⟨⟨_, flagInv_of_run .nil⟩, lifeInv_init, nofun⟩ ?_
  · exact hall.2
  · rintro es s a s' out ⟨⟨failed, hflag⟩, hinv, hthrew⟩ - hstep
    obtain ⟨hmove, hlife⟩ := move_of_step hstep
    refine ⟨⟨_, hflag.step hmove⟩, hinv.step hflag hlife hmove, fun t ht => ?_⟩
    rcases List.mem_append.mp ht with ht | ht
    · exact hthrew t ht
    · exact LifeInv.not_threw hflag hmove t ht

variable (cfg) in
/-- A call of the control thread can go on, unless it waits in `join` for a consumer.

**Proof sketch.** By cases on the program point: every point but `join` has a next step, `join` has
one if the consumer has ended, and `join` on a thread that is not joinable does not occur
(`joinable`). -/
lemma FlagInv.control_cases (hflag : FlagInv failed s) (hlife : s.life.ongoing = true)
    (hpc : s.control () ≠ .idle) :
    (∀ b, (Engine.step cfg s (.stepControl () b)).isSome) ∨
      ∃ d w, s.control () = .stopping d .join ∧ s.worker = some w ∧ s.workers w ≠ .exited := by
  by_cases hwait : ∃ d w, s.control () = .stopping d .join ∧ s.worker = some w ∧
      s.workers w ≠ .exited
  · exact Or.inr hwait
  · refine Or.inl fun b => ?_
    rw [step_control hlife, controlStep]
    cases hctl : s.control () with
    | idle => exact absurd hctl hpc
    | starting pc => rfl
    | stopping d pc =>
      cases pc with
      | join =>
        cases hw : s.worker with
        | none => exact absurd hw (hflag.joinable d hctl)
        | some w =>
          by_cases hexit : s.workers w = .exited
          · simp only [stopStep, hw, if_pos hexit, Option.isSome_some]
          · exact absurd ⟨d, w, hctl, hw, hexit⟩ hwait
      | checkRunning | testJoinable =>
        simp only [stopStep]
        split <;> rfl
      | storeRunning => rfl

/-- **With one control thread nothing ends the process and nothing hangs**, whatever the history
of calls, creations of threads that threw among them, and whatever the order of the steps.
`worker_` is never assigned to or destroyed while it is joinable, and `stop()` never throws; a
destroyed engine has no consumer and no thread to join. While the object exists, a call of the
control thread can go on or waits in `join` for a consumer that runs; a consumer that runs and a
`submit()` in progress can always go on.

**Proof sketch.** `FlagInv` and `LifeInv` hold in every run. -/
theorem no_termination (h : (system cfg Unit).Run System.anyStep (system cfg Unit).init es s) :
    (∀ cause, s.life ≠ .terminated cause) ∧ (∀ t, .stopThrew t ∉ es) ∧
      (s.life = .destroyed → Stopped s) ∧
      (s.life.ongoing = true →
        (s.control () ≠ .idle → (∀ b, (step cfg s (.stepControl () b)).isSome) ∨
          ∃ d w, s.control () = .stopping d .join ∧ s.worker = some w ∧ s.workers w ≠ .exited) ∧
        (∀ id, s.workers id ≠ .exited → (step cfg s (.stepWorker id)).isSome) ∧
        (s.producer ≠ none → (step cfg s .stepProducer).isSome)) := by
  obtain ⟨hflag, hinv, hthrew⟩ := lifeInv_of_run h
  refine ⟨fun cause hl => ?_, hthrew, hinv.stopped, fun hlife => ⟨?_, ?_, ?_⟩⟩
  · have hfits := hinv.fits
    rw [hl] at hfits
    exact hfits
  · exact hflag.control_cases cfg hlife
  · intro id hid
    rw [step_worker hlife rfl]
    exact workerStep_isSome hid
  · intro hproducer
    cases hp : s.producer with
    | none => exact absurd hp hproducer
    | some pc => simp only [step, hlife, if_true, hp, Option.isSome_some]

/-- A `start()` that throws, a `stop()`, a `start()`, and the destructor, which joins the
consumer. -/
def startTwiceThenDestroy : List (Action Unit) :=
  [.callStart (), .stepControl () false, .stepControl () false, .stepControl () true,
   .callStop (), .stepControl () false, .stepControl () false, .stepControl () false,
   .callStart (), .stepControl () false, .stepControl () false, .stepControl () false,
   .stepControl () false,
   .callDestructor (), .stepControl () false, .stepControl () false, .stepControl () false,
   .stepWorker 0, .stepWorker 0, .stepWorker 0, .stepControl () false]

/-- A `start()` that throws, a restart and the destructor: the engine is destroyed and leaves no
thread. -/
theorem no_termination_example :
    ∃ es s, (system numberedEvents Unit).Run System.anyStep (system numberedEvents Unit).init es s ∧
      .startThrew () ∈ es ∧ .destroyed ∈ es ∧ Stopped s := by
  have h : ((system numberedEvents Unit).exec System.anyStep (system numberedEvents Unit).init
      startTwiceThenDestroy).map (fun r => (r.1.life, r.2)) =
      some (.destroyed, [.startThrew (), .stopCalled (), .stopReturned () true, .startReturned (),
        .stopCalled (), .poppedNothing, .exited 0, .stopReturned () true, .destroyed]) := by rfl
  obtain ⟨s, es, hrun, hv⟩ := System.exists_run_of_exec h
  obtain ⟨hlife, rfl⟩ := Prod.mk.inj hv
  exact ⟨_, s, hrun, by simp, by simp, (no_termination hrun).2.2.1 hlife⟩

end NullRing.Engine
