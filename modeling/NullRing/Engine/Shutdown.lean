import Mathlib.Data.List.Perm.Basic
import NullRing.Engine.Solo

set_option relaxedAutoImplicit false
set_option autoImplicit false

/-!
# What is lost on shutdown

`submit()` accepts events whether or not a consumer runs, and the destructor returns once the
consumer, if there is one, has found the ring empty. An event accepted after the consumer has
ended is therefore lost, as is one accepted after the last `stop()`. With one control thread these
are the only ways to lose an event: everything accepted is evaluated and reported if and only if
the destructor finds a consumer running or the ring empty, and no event is accepted in the
destructor after the consumer has ended.

## Main definitions

* `Engine.Drains` — the condition on the steps of a run.
* `Engine.AllDelivered` — everything accepted was evaluated and reported once.
* `Engine.ShutdownInv`, `Engine.Doomed` — the invariants of the runs that meet the condition, and
  of those that fail it.

## Main results

* `Engine.ShutdownInv.step`, `Engine.Doomed.step` — the step lemmas.
* `Engine.all_delivered_iff` — when a destroyed engine has lost nothing.
* `Engine.accepted_event_lost` — an event that is lost.
-/

namespace NullRing.Engine

open RingBuffer Transition

/-- The destructor was called, and did not terminate the program. -/
def Life.Ending : Life → Prop
  | .alive => False
  | .destroying => True
  | .destroyed => True
  | .terminated _ => False

/-- The producer is about to store `tail_`. -/
def State.accepting {Thread : Type} (s : State Thread) : Bool :=
  match s.producer with
  | some (.storeTail _ _) => true
  | _ => false

/-- The destructor is called when a consumer runs or the ring is empty, and while it is in
progress no event is accepted unless a consumer runs. -/
def Drains (s : State Unit) : Action Unit → Prop
  | .callDestructor _ => s.current ≠ .exited ∨ s.ring.head = s.ring.tail
  | .stepProducer => s.life = .destroying → s.accepting = true → s.current ≠ .exited
  | _ => True

/-- Decidable, so that schedules can be executed. -/
instance (s : State Unit) (a : Action Unit) : Decidable (Drains s a) :=
  match a with
  | .callDestructor _ =>
    inferInstanceAs (Decidable (s.current ≠ .exited ∨ s.ring.head = s.ring.tail))
  | .stepProducer =>
    inferInstanceAs (Decidable (s.life = .destroying → s.accepting = true → s.current ≠ .exited))
  | .callStart _ => isTrue trivial
  | .callStop _ => isTrue trivial
  | .stepControl _ _ => isTrue trivial
  | .callSubmit _ => isTrue trivial
  | .stepWorker _ => isTrue trivial

/-- Every accepted event was evaluated exactly once and, if there is a callback, its result was
reported exactly once. -/
def AllDelivered {Thread : Type} (cfg : Config) (es : List (Event Thread)) : Prop :=
  (evaluated es).Perm (accepted es) ∧
    (cfg.onResult = true → (reported es).Perm ((accepted es).map cfg.result))

variable {cfg : Config} {s s' : State Unit} {a : Action Unit} {out es : List (Event Unit)}
  {q q' : List ℕ}

/-! ## The destructor -/

/-- How the life of the engine goes on.

**Proof sketch.** By cases on the step. The life of the object changes in the call of the
destructor, in the steps that terminate the program, and in the return of the destructor's `stop()`,
which ends the object if `worker_` is not joinable and terminates otherwise. -/
lemma Move.life_cases (hmove : Move cfg s a s' out) :
    s'.life = s.life ∨ (a = .callDestructor () ∧ s'.life = .destroying) ∨
      (∃ cause, s'.life = .terminated cause) ∨
      ((∃ pc, s.control () = .stopping true pc) ∧ s'.life = .destroyed ∧ s'.worker = none) := by
  have hstop : ∀ (s₁ : State Unit) (t : Unit) (d b : Bool) (pc : StopPc),
      s.control t = .stopping d pc → s₁.life = s.life →
      (stopReturn s₁ t d b).1.life = s.life ∨
        (∃ cause, (stopReturn s₁ t d b).1.life = .terminated cause) ∨
        ((∃ pc, s.control () = .stopping true pc) ∧ (stopReturn s₁ t d b).1.life = .destroyed ∧
          (stopReturn s₁ t d b).1.worker = none) := by
    intro s₁ t d b pc hpc hlife
    cases d with
    | false => exact Or.inl hlife
    | true =>
      cases hw : s₁.worker with
      | none =>
        refine Or.inr (Or.inr ⟨⟨pc, hpc⟩, ?_, (stopReturn_worker ..).trans hw⟩)
        simp [stopReturn, hw]
      | some w =>
        refine Or.inr (Or.inl ⟨.destroyedJoinable, ?_⟩)
        simp [stopReturn, hw]
  cases hmove with
  | callDestructor _ _ => exact Or.inr (Or.inl ⟨rfl, rfl⟩)
  | assignJoinable _ _ | destructorThrow _ _ => exact Or.inr (Or.inr (Or.inl ⟨_, rfl⟩))
  | stopIdle hpc _ => exact (hstop s _ _ _ _ hpc rfl).imp id Or.inr
  | notJoinable hpc _ => exact (hstop s _ _ _ _ hpc rfl).imp id Or.inr
  | joined hpc _ _ => exact (hstop { s with worker := none } _ _ _ _ hpc rfl).imp id Or.inr
  | _ => exact Or.inl rfl

/-- A destructor that was called stays called. -/
lemma Move.life_ne_alive (hmove : Move cfg s a s' out) (h : s.life ≠ .alive) :
    s'.life ≠ .alive := by
  rcases hmove.life_cases with hnew | ⟨-, hnew⟩ | ⟨cause, hnew⟩ | ⟨-, hnew, -⟩
  · rwa [hnew]
  · rw [hnew]
    nofun
  · rw [hnew]
    nofun
  · rw [hnew]
    nofun

/-! ## The queue while no consumer runs -/

/-- Nothing is popped while no consumer runs. -/
lemma Move.popped_of_exited (hmove : Move cfg s a s' out) (hctl : ControlInv s)
    (hexit : s.current = .exited) : popped out = [] := by
  refine List.filterMap_eq_nil_iff.mpr fun e he => ?_
  cases e with
  | popped ptr =>
    obtain ⟨id, loop, pc, -, hpc, -⟩ := hmove.shows he
    have hid : s.workers id ≠ .exited := by rw [hpc]; nofun
    exact absurd ((hctl.current_eq hid).symm.trans hexit) hid
  | _ => rfl

/-- An event is accepted only by the store of `tail_`. -/
lemma Move.accepted_of_not_accepting (hmove : Move cfg s a s' out)
    (h : a = .stepProducer → s.accepting = false) : accepted out = [] := by
  refine List.filterMap_eq_nil_iff.mpr fun e he => ?_
  cases e with
  | accepted ptr =>
    obtain ⟨ha, nextTail, hp⟩ := hmove.shows he
    have hacc := h ha
    rw [State.accepting, hp] at hacc
    cases hacc
  | _ => rfl

/-- While no consumer runs, the queue only grows, by what is accepted. -/
lemma PipeInv.queue_of_exited (h : PipeInv cfg es q s) (hctl : ControlInv s)
    (hmove : Move cfg s a s' out) (hexit : s.current = .exited)
    (h' : PipeInv cfg (es ++ out) q' s') : q' = q ++ accepted out := by
  have haccepted := h'.accepted_eq
  rw [accepted_append, popped_append, hmove.popped_of_exited hctl hexit, List.append_nil,
    h.accepted_eq, List.append_assoc] at haccepted
  exact (List.append_cancel_left haccepted).symm

/-! ## The runs that meet the condition -/

/-- The invariant of the runs whose steps meet the condition. -/
structure ShutdownInv (cfg : Config) (es : List (Event Unit)) (q : List ℕ) (s : State Unit) :
    Prop where
  apart : ApartInv s
  pipe : PipeInv cfg es q s
  /-- The control thread is in the destructor only when that was called. -/
  called : (∃ pc, s.control () = .stopping true pc) → s.life ≠ .alive
  /-- After that it does not call `start()`. -/
  noStart : s.life.Ending → ¬ (s.control ()).InStart
  /-- A destroyed engine owned no thread. -/
  gone : s.life = .destroyed → s.worker = none
  /-- From the call of the destructor on, a consumer runs or the ring is empty. -/
  drained : s.life.Ending → s.current ≠ .exited ∨ q = []

/-- While the object exists, the destructor is in progress if it was called. -/
lemma Life.destroying_of_ongoing {life : Life} (hongoing : life.ongoing = true)
    (h : life ≠ .alive) : life = .destroying := by
  cases life with
  | alive => exact absurd rfl h
  | destroying => rfl
  | destroyed => cases hongoing
  | terminated cause => cases hongoing

namespace ShutdownInv

/-- The destructor is in progress after a step only if it was before, or was called. -/
lemma ending_cases (h : ShutdownInv cfg es q s) (hmove : Move cfg s a s' out)
    (hongoing : s.life.ongoing = true) (hend : s'.life.Ending) :
    s.life = .destroying ∨ a = .callDestructor () := by
  rcases hmove.life_cases with hsame | ⟨ha, -⟩ | ⟨cause, hterm⟩ | ⟨hpc, -, -⟩
  · rw [hsame] at hend
    refine Or.inl (Life.destroying_of_ongoing hongoing ?_)
    intro halive
    rwa [halive] at hend
  · exact Or.inr ha
  · rw [hterm] at hend
    exact hend.elim
  · exact Or.inl (Life.destroying_of_ongoing hongoing (h.called hpc))

/-- The step lemma of `drained`.

**Proof sketch.** Before the step a consumer runs or the ring is empty: by the invariant, or, if the
step is the call of the destructor, by the condition. If no consumer runs, the condition keeps
`submit()` from accepting, and the ring stays empty; if the consumer ends by the step, it has found
the ring empty (`exit_of_empty`). -/
lemma drained_step (h : ShutdownInv cfg es q s) (hpipe : PipeInv cfg (es ++ out) q' s')
    (hdrains : Drains s a) (hmove : Move cfg s a s' out) (hongoing : s.life.ongoing = true)
    (hend : s'.life.Ending) : s'.current ≠ .exited ∨ q' = [] := by
  have hctl := h.apart.toControlInv
  have hcases := h.ending_cases hmove hongoing hend
  -- before the step a consumer runs or the ring is empty
  have hbefore : s.current ≠ .exited ∨ q = [] := by
    rcases hcases with hlife | rfl
    · exact h.drained (by rw [hlife]; trivial)
    · obtain ⟨n, hstores⟩ := h.pipe.stores
      exact Or.imp id hstores.empty_iff.mp hdrains
  by_cases hcur : s.current = .exited
  · right
    have hempty : q = [] := hbefore.resolve_left (not_not_intro hcur)
    have hnone : accepted out = [] := by
      apply hmove.accepted_of_not_accepting
      intro ha
      subst ha
      rcases hcases with hlife | ha
      · exact Bool.eq_false_iff.mpr fun hacc => hdrains hlife hacc hcur
      · cases ha
    rw [h.pipe.queue_of_exited hctl hmove hcur hpipe, hempty, hnone]
    rfl
  · by_cases hexit : s'.current = .exited
    · right
      obtain ⟨hring, hempty⟩ := exit_of_empty h.pipe hctl hmove hcur hexit
      obtain ⟨n, hstores⟩ := hpipe.stores
      exact hstores.empty_iff.mp (by rw [hring]; exact hempty)
    · exact Or.inl hexit

/-- **The step lemma**: every step that meets the condition keeps the invariant.

**Proof sketch.** The pipeline and the control invariants are kept by every step. The destructor
comes after the object was alive, and from then on no `start()` is called; what is drained is
`drained_step`; and the object ends only with `worker_` not joinable (`life_cases`). -/
theorem step (h : ShutdownInv cfg es q s) (hdrains : Drains s a) (hmove : Move cfg s a s' out)
    (hongoing : s.life.ongoing = true) : ∃ q', ShutdownInv cfg (es ++ out) q' s' := by
  obtain ⟨q', hpipe⟩ := h.pipe.step h.apart.toControlInv hmove
  refine ⟨q', apartInv_step_unit h.apart hmove, hpipe, ?_, ?_,
    ?_, h.drained_step hpipe hdrains hmove hongoing⟩
  · intro hpc
    rcases hmove.control_cases.1 hpc with hpc | rfl
    · exact hmove.life_ne_alive (h.called hpc)
    · cases hmove
      nofun
  · intro hend hin
    rcases h.ending_cases hmove hongoing hend with hlife | rfl
    · rcases hmove.control_cases.2 hin with hin | ⟨-, halive⟩
      · exact h.noStart (by rw [hlife]; trivial) hin
      · rw [hlife] at halive
        cases halive
    · cases hmove
      exact hin
  · intro hlife
    rcases hmove.life_cases with hsame | ⟨-, hnew⟩ | ⟨cause, hnew⟩ | ⟨-, -, hw⟩
    · rw [← hsame, hlife] at hongoing
      cases hongoing
    · rw [hlife] at hnew
      cases hnew
    · rw [hlife] at hnew
      cases hnew
    · exact hw

/-- When the destructor has returned, everything accepted is evaluated, in order, and reported. -/
lemma all_delivered (h : ShutdownInv cfg es q s) (hlife : s.life = .destroyed) :
    AllDelivered cfg es := by
  have hend : s.life.Ending := by rw [hlife]; trivial
  have hstopped := h.apart.stopped_of_worker_none (fun _ => h.noStart hend) (h.gone hlife)
  have hexit : s.current = .exited := hstopped.2 _
  have hempty : q = [] := (h.drained hend).resolve_left (not_not_intro hexit)
  obtain ⟨hpopped, hresults, -⟩ := h.pipe.settled hexit
  have hall : evaluated es = accepted es := by
    rw [h.pipe.accepted_eq, hempty, List.append_nil, hpopped]
  refine ⟨List.Perm.of_eq hall, fun hcb => List.Perm.of_eq ?_⟩
  rw [← hresults hcb, hall]

end ShutdownInv

/-- The invariant holds after the constructor. -/
lemma shutdownInv_init (cfg : Config) : ShutdownInv cfg [] [] (State.init Unit) where
  apart := apartInv_init Unit
  pipe := pipeInv_init cfg Unit
  called := nofun
  noStart := fun hend => hend.elim
  gone := nofun
  drained := fun hend => hend.elim

/-! ## The runs that fail it -/

/-- The destructor was called, no consumer runs or will, and the ring is not empty. -/
structure Doomed (cfg : Config) (es : List (Event Unit)) (q : List ℕ) (s : State Unit) :
    Prop where
  apart : ApartInv s
  pipe : PipeInv cfg es q s
  exited : s.current = .exited
  lost : q ≠ []
  called : s.life ≠ .alive
  noStart : ¬ (s.control ()).InStart

namespace Doomed

/-- **The step lemma**: what is lost stays lost.

**Proof sketch.** No consumer is created, as no `start()` is under way and the object is no longer
alive; and without a consumer the ring only grows. -/
theorem step (h : Doomed cfg es q s) (hmove : Move cfg s a s' out) :
    ∃ q', Doomed cfg (es ++ out) q' s' := by
  have hctl := h.apart.toControlInv
  obtain ⟨q', hpipe⟩ := h.pipe.step hctl hmove
  refine ⟨q', apartInv_step_unit h.apart hmove, hpipe, ?_, ?_, hmove.life_ne_alive h.called, ?_⟩
  · apply (current_exited_step hctl hmove h.exited).resolve_right
    rintro ⟨t, hpc⟩
    exact h.noStart (by rw [show s.control () = _ from hpc]; trivial)
  · rw [h.pipe.queue_of_exited hctl hmove h.exited hpipe]
    exact List.append_ne_nil_of_left_ne_nil h.lost _
  · intro hin
    rcases hmove.control_cases.2 hin with hin | ⟨-, halive⟩
    · exact h.noStart hin
    · exact h.called halive

/-- Fewer events are evaluated than were accepted. -/
lemma not_all_delivered (h : Doomed cfg es q s) : ¬ AllDelivered cfg es := by
  rintro ⟨hperm, -⟩
  have hlength := hperm.length_eq
  rw [h.pipe.accepted_eq, (h.pipe.settled h.exited).1, List.length_append] at hlength
  have := List.length_pos_of_ne_nil h.lost
  omega

end Doomed

/-- A step that fails the condition loses an event.

**Proof sketch.** The condition is about two steps. If the destructor is called with no consumer and
a ring that is not empty, the ring stays as it is. If an event is accepted during the destruction
with no consumer left, it is in the ring afterwards. In both cases the step itself changes no
consumer and no `start()` is under way. -/
lemma ShutdownInv.doomed (h : ShutdownInv cfg es q s) (hdrains : ¬ Drains s a)
    (hmove : Move cfg s a s' out) : ∃ q', Doomed cfg (es ++ out) q' s' := by
  have hctl := h.apart.toControlInv
  have hapart := apartInv_step_unit h.apart hmove
  obtain ⟨q', hpipe⟩ := h.pipe.step hctl hmove
  cases hmove with
  | callDestructor hpc halive =>
    have hmove : Move cfg s (.callDestructor ()) _ _ := .callDestructor hpc halive
    obtain ⟨hcur, hne⟩ := not_or.mp hdrains
    rw [not_not] at hcur
    obtain ⟨n, hstores⟩ := h.pipe.stores
    have hq := h.pipe.queue_of_exited hctl hmove hcur hpipe
    refine ⟨q', hapart, hpipe, hcur, ?_, nofun, fun hin => hin⟩
    rw [hq]
    exact List.append_ne_nil_of_left_ne_nil (fun hempty => hne (hstores.empty_iff.mpr hempty)) _
  | @submit pc hp =>
    have hmove : Move cfg s .stepProducer _ _ := .submit hp
    obtain ⟨hlife, hacc, hcur⟩ : s.life = .destroying ∧ s.accepting = true ∧
        s.current = .exited := by
      by_contra hall
      exact hdrains fun h1 h2 h3 => hall ⟨h1, h2, h3⟩
    have hq := h.pipe.queue_of_exited hctl hmove hcur hpipe
    have hend : s.life.Ending := by rw [hlife]; trivial
    refine ⟨q', hapart, hpipe, hcur, ?_, ?_, h.noStart hend⟩
    · rw [State.accepting, hp] at hacc
      cases pc with
      | storeTail ptr nextTail =>
        rw [hq]
        exact List.append_ne_nil_of_right_ne_nil _ (List.cons_ne_nil ptr [])
      | loadTail _ | loadHead _ _ | writeSlot _ _ _ => cases hacc
    · show s.life ≠ .alive
      rw [hlife]
      nofun
  | _ => exact absurd trivial hdrains

/-- Every run meets the condition, or has lost an event. -/
lemma drains_or_doomed
    (h : (system cfg Unit).Run System.anyStep (system cfg Unit).init es s) :
    ((system cfg Unit).Run Drains (system cfg Unit).init es s ∧ ∃ q, ShutdownInv cfg es q s) ∨
      ∃ q, Doomed cfg es q s := by
  induction h with
  | nil => exact Or.inl ⟨.nil, [], shutdownInv_init cfg⟩
  | @snoc es s a s' out _ _ hstep ih =>
    obtain ⟨hmove, hongoing⟩ := move_of_step hstep
    rcases ih with ⟨hrun, q, hinv⟩ | ⟨q, hdoomed⟩
    · by_cases hdrains : Drains s a
      · exact Or.inl ⟨hrun.snoc hdrains hstep, hinv.step hdrains hmove hongoing⟩
      · exact Or.inr (hinv.doomed hdrains hmove)
    · exact Or.inr (hdoomed.step hmove)

/-- **When nothing is lost on shutdown.** With one control thread and one producer, and whatever
the order of their steps and those of the consumers: when the destructor has returned, every
accepted event was evaluated and reported exactly once if and only if the run meets the condition,
that is, the destructor was called when a consumer ran or the ring was empty, and no event was
accepted in it once the consumer had ended.

**Proof sketch.** A consumer ends only when it finds the ring empty, and without one the ring stays
empty unless an event is accepted (`ShutdownInv`). A step that fails the condition leaves an event
in the ring and no consumer, and in the destructor none is created any more (`Doomed`). -/
theorem all_delivered_iff
    (h : (system cfg Unit).Run System.anyStep (system cfg Unit).init es s)
    (hlife : s.life = .destroyed) :
    AllDelivered cfg es ↔ (system cfg Unit).Run Drains (system cfg Unit).init es s := by
  constructor
  · intro hall
    rcases drains_or_doomed h with ⟨hrun, -⟩ | ⟨q, hdoomed⟩
    · exact hrun
    · exact absurd hall hdoomed.not_all_delivered
  · intro hrun
    obtain ⟨q, hinv⟩ := hrun.invariant (I := fun es s => ∃ q, ShutdownInv cfg es q s)
      ⟨[], shutdownInv_init cfg⟩
      fun _ _ _ _ _ ⟨_, hI⟩ hP hs => hI.step hP (move_of_step hs).1 (move_of_step hs).2
    exact hinv.all_delivered hlife

/-- The engine is started. -/
def startUp : List (Action Unit) :=
  .callStart () :: List.replicate 4 (.stepControl () false)

/-- The engine is started, an event is submitted, and the destructor is called before the consumer
takes its first step. -/
def destroyRunning : List (Action Unit) :=
  startUp ++ .callSubmit 7 :: List.replicate 4 .stepProducer ++
  .callDestructor () :: List.replicate 3 (.stepControl () false) ++
  List.replicate 10 (.stepWorker 0) ++ [.stepControl () false]

/-- The destructor of a running engine with an event in its ring: the event is delivered. -/
theorem all_delivered_iff_example :
    ∃ es s, (system numberedEvents Unit).Run Drains (system numberedEvents Unit).init es s ∧
      s.life = .destroyed ∧ accepted es = [7] ∧ AllDelivered numberedEvents es := by
  have h : ((system numberedEvents Unit).exec Drains (system numberedEvents Unit).init
      destroyRunning).map (fun r => (r.1.life, accepted r.2)) = some (.destroyed, [7]) := by rfl
  obtain ⟨s, es, hrun, hv⟩ := System.exists_run_of_exec h
  obtain ⟨hlife, haccepted⟩ := Prod.mk.inj hv
  exact ⟨es, s, hrun, hlife, haccepted,
    (all_delivered_iff (hrun.mono fun _ _ _ => trivial) hlife).mpr hrun⟩

/-- The engine is started and `stop()` is called; the consumer finds the ring empty and ends, and
then an event is accepted, before `stop()` has joined. The destructor finds the engine stopped. -/
def submitDuringStop : List (Action Unit) :=
  startUp ++ .callStop () :: List.replicate 3 (.stepControl () false) ++
  List.replicate 3 (.stepWorker 0) ++
  .callSubmit 7 :: List.replicate 4 .stepProducer ++
  [.stepControl () false, .callDestructor (), .stepControl () false]

/-- **An event that is lost**: `submit()` returned `true` before `stop()` did, and the destructor
returns while it is in the ring. -/
theorem accepted_event_lost :
    ¬ ∀ es s, (system numberedEvents Unit).Run System.anyStep (system numberedEvents Unit).init
        es s → .startReturned () ∈ es → s.life = .destroyed → AllDelivered numberedEvents es := by
  intro hall
  have h : ((system numberedEvents Unit).exec System.anyStep (system numberedEvents Unit).init
      submitDuringStop).map (fun r => (r.1.life, r.2)) =
      some (.destroyed, [.startReturned (), .stopCalled (), .poppedNothing, .exited 0, .accepted 7,
        .stopReturned () true, .stopCalled (), .stopReturned () false, .destroyed]) := by rfl
  obtain ⟨s, es, hrun, hv⟩ := System.exists_run_of_exec h
  obtain ⟨hlife, rfl⟩ := Prod.mk.inj hv
  have hlength := (hall _ s hrun List.mem_cons_self hlife).1.length_eq
  exact absurd hlength (by decide)

end NullRing.Engine
