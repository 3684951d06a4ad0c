import NullRing.Engine.Solo

set_option relaxedAutoImplicit false
set_option autoImplicit false

/-!
# A `start()` that throws

`start()` stores `running_ = true` before it creates its thread. When the creation throws, the
flag stays true although there is no consumer: `running()` says that there is one, events are
accepted and not evaluated, and a further `start()` returns at its test. The next `stop()` clears
the flag again. With a single control thread these are the only moments at which the flag and the
consumer disagree between calls.

## Main definitions

* `Engine.failedSince` — a `start()` threw, and no `stop()` has cleared the flag since.
* `Engine.FlagInv` — the invariant of the flag.

## Main results

* `Engine.FlagInv.step` — the step lemma.
* `Engine.running_iff_consumer` — when `running()` tells whether there is a consumer.
* `Engine.running_without_consumer` — a `start()` that throws.
-/

namespace NullRing.Engine

open RingBuffer Transition

/-! ## The last failure -/

/-- What an event says of a failed `start()`. -/
def Event.updateFailed {Thread : Type} (failed : Bool) : Event Thread → Bool
  | .startThrew _ => true
  | .stopReturned _ true => false
  | _ => failed

/-- Whether a `start()` threw, and no `stop()` that found the engine running has returned
since. -/
def failedSince {Thread : Type} (es : List (Event Thread)) : Bool :=
  es.foldl Event.updateFailed false

section Failed

variable {Thread : Type} {es out : List (Event Thread)} {b : Bool}

/-- What the later events say is added to what the earlier ones said. -/
lemma failedSince_append (es out : List (Event Thread)) :
    failedSince (es ++ out) = out.foldl Event.updateFailed (failedSince es) :=
  List.foldl_append

/-- Events that say nothing of a failed `start()`. -/
lemma foldl_updateFailed (h : ∀ e ∈ out, e.updateFailed b = b) :
    out.foldl Event.updateFailed b = b := by
  induction out with
  | nil => rfl
  | cons e out ih =>
    rw [List.foldl_cons, h e List.mem_cons_self]
    exact ih fun e' he => h e' (List.mem_cons_of_mem e he)

/-- The return of a `stop()`. -/
lemma foldl_stopReturn [DecidableEq Thread] (s : State Thread) (t : Thread) (d found : Bool) :
    (stopReturn s t d found).2.foldl Event.updateFailed b =
      if found then false else b := by
  simp only [stopReturn]
  cases found <;> split <;> [split; skip; split; skip] <;> rfl

end Failed

variable {cfg : Config} {s s' : State Unit} {a : Action Unit} {out es : List (Event Unit)}
  {failed : Bool}

/-- Only a control thread tells of a failed `start()`. -/
lemma Move.updateFailed_eq (hmove : Move cfg s a s' out) (failed : Bool)
    (ha : ∀ b, a ≠ .stepControl () b) : ∀ e ∈ out, e.updateFailed failed = failed := by
  intro e he
  have hshows := hmove.shows he
  cases e with
  | startThrew t => exact absurd hshows.1 (ha true)
  | stopReturned t found =>
    obtain ⟨b, d, pc, hstep, -⟩ := hshows
    exact absurd hstep (ha b)
  | _ => rfl

/-! ## The invariant -/

/-- The invariant of the flag: `failed` says whether a `start()` has failed. -/
structure FlagInv (failed : Bool) (s : State Unit) : Prop extends ApartInv s where
  /-- A `stop()` about to clear `running_` has found it true, and it still is. -/
  storing : ∀ d, s.control () = .stopping d .storeRunning → s.running = true
  /-- A `stop()` past its store has cleared it. -/
  joining : (s.control ()).Joining → s.running = false
  /-- A `stop()` about to join finds a thread. -/
  joinable : ∀ d, s.control () = .stopping d .join → s.worker ≠ none
  /-- After a failure there is no thread, and the flag is true until `stop()` clears it. -/
  failure : failed = true → s.worker = none ∧ ¬ (s.control ()).StartPassed ∧
    (s.running = true ∨ (s.control ()).Joining)
  /-- Otherwise an engine that is running has a consumer, or is about to. -/
  success : failed = false → s.running = true → (s.control ()).StartPassed ∨ s.worker ≠ none
  main : MainLoop s

namespace FlagInv

/-- The control thread comes to the point `pc`. -/
lemma of_control (pc : ControlPc) (hinv : ApartInv s') (hmain : MainLoop s')
    (hcontrol : s'.control () = pc)
    (hstoring : ∀ d, pc = .stopping d .storeRunning → s'.running = true)
    (hjoining : pc.Joining → s'.running = false)
    (hjoinable : ∀ d, pc = .stopping d .join → s'.worker ≠ none)
    (hfailure : failed = true → s'.worker = none ∧ ¬ pc.StartPassed ∧
      (s'.running = true ∨ pc.Joining))
    (hsuccess : failed = false → s'.running = true → pc.StartPassed ∨ s'.worker ≠ none) :
    FlagInv failed s' where
  toApartInv := hinv
  storing := by rw [hcontrol]; exact hstoring
  joining := by rw [hcontrol]; exact hjoining
  joinable := by rw [hcontrol]; exact hjoinable
  failure := by rw [hcontrol]; exact hfailure
  success := by rw [hcontrol]; exact hsuccess
  main := hmain

/-- What the control thread does not read changes. -/
lemma frame (h : FlagInv failed s) (hinv : ApartInv s') (hmain : MainLoop s')
    (hcontrol : s'.control = s.control) (hworker : s'.worker = s.worker)
    (hrunning : s'.running = s.running) : FlagInv failed s' :=
  of_control _ hinv hmain (congrFun hcontrol ()) (by rw [hrunning]; exact h.storing)
    (by rw [hrunning]; exact h.joining) (by rw [hworker]; exact h.joinable)
    (by rw [hworker, hrunning]; exact h.failure) (by rw [hworker, hrunning]; exact h.success)

/-- The control thread comes from one point at which nothing is past its test or its store to
another.

**Proof sketch.** At neither point is anything asked but what `running_` and `worker_` are, and
these stay. -/
lemma pass (h : FlagInv failed s) (pc : ControlPc) (hinv : ApartInv s') (hmain : MainLoop s')
    (hcontrol : s'.control () = pc) (hworker : s'.worker = s.worker)
    (hrunning : s'.running = s.running)
    (hold : ¬ (s.control ()).StartPassed ∧ ¬ (s.control ()).Joining)
    (hnew : ¬ pc.StartPassed ∧ ¬ pc.Joining)
    (hstoring : ∀ d, pc = .stopping d .storeRunning → s.running = true) : FlagInv failed s' := by
  refine of_control pc hinv hmain hcontrol (by rw [hrunning]; exact hstoring)
    (fun hj => absurd hj hnew.2) ?_ ?_ ?_
  · rintro d rfl
    exact absurd trivial hnew.2
  · intro hf
    obtain ⟨hw, -, hrun⟩ := h.failure hf
    rw [hworker, hrunning]
    exact ⟨hw, hnew.1, Or.inl (hrun.resolve_right hold.2)⟩
  · intro hf hrun
    rw [hrunning] at hrun
    rw [hworker]
    exact Or.inr ((h.success hf hrun).resolve_left hold.1)

/-- A `start()` past its test means that none has failed. -/
lemma not_failed_of_passed (h : FlagInv failed s) (hpass : (s.control ()).StartPassed) :
    failed = false := by
  rw [← Bool.not_eq_true]
  exact fun hf => (h.failure hf).2.1 hpass

/-- Where `running_` is false outside the end of `stop()`, no `start()` has failed. -/
lemma not_failed_of_running (h : FlagInv failed s) (hrun : s.running = false)
    (hjoin : ¬ (s.control ()).Joining) : failed = false := by
  rw [← Bool.not_eq_true]
  intro hf
  rcases (h.failure hf).2.2 with hr | hj
  · rw [hrun] at hr
    cases hr
  · exact hjoin hj

/-- **The step lemma.**

**Proof sketch.** By cases on the step. A `start()` that passes its test has found `running_` false,
so no failure is on record, and only the creation that throws puts one there, with `worker_` not
joinable. A `stop()` that returns after its test has cleared `running_`, and clears the record. The
other steps keep `running_`, `worker_` and the record, and move the control thread between points
where the same is asked. -/
theorem step (h : FlagInv failed s) (hmove : Move cfg s a s' out) :
    FlagInv (out.foldl Event.updateFailed failed) s' := by
  have hinv : ApartInv s' := apartInv_step_unit h.toApartInv hmove
  have hmain : MainLoop s' := h.main.step h.toControlInv hmove
  have hidle : ∀ {s₁ : State Unit} {d b : Bool}, (stopReturn s₁ () d b).1.control () = .idle :=
    (congrFun (stopReturn_control ..) ()).trans (Function.update_self ..)
  have hother := hmove.updateFailed_eq failed
  cases hmove with
  | callStart hpc _ | callStop hpc _ | callDestructor hpc _ | startFound hpc _ =>
    exact h.pass _ hinv hmain (setControl_self ..) rfl rfl (by rw [hpc]; exact ⟨id, id⟩)
      ⟨id, id⟩ nofun
  | startPass hpc hrun =>
    obtain rfl := h.not_failed_of_running hrun (by rw [hpc]; exact id)
    exact of_control _ hinv hmain (setControl_self ..) nofun (fun hj => hj.elim) nofun nofun
      fun _ _ => Or.inl trivial
  | createThrow hpc =>
    have hnone := h.noWorker () (by rw [hpc]; trivial)
    have hrun := h.startRunning () (Or.inl hpc)
    exact of_control .idle hinv hmain (setControl_self ..) nofun (fun hj => hj.elim) nofun
      (fun _ => ⟨hnone, id, Or.inl hrun⟩) nofun
  | startStore hpc | create hpc =>
    obtain rfl := h.not_failed_of_passed (by rw [hpc]; trivial)
    exact of_control _ hinv hmain (setControl_self ..) nofun (fun hj => hj.elim) nofun nofun
      fun _ _ => Or.inl trivial
  | assignJoinable _ _ => exact h.frame hinv hmain rfl rfl rfl
  | assign hpc _ =>
    obtain rfl := h.not_failed_of_passed (by rw [hpc]; trivial)
    exact of_control _ hinv hmain (setControl_self ..) nofun (fun hj => hj.elim) nofun nofun
      fun _ _ => Or.inr nofun
  | stopIdle hpc hrun =>
    obtain rfl := h.not_failed_of_running hrun (by rw [hpc]; exact id)
    rw [foldl_stopReturn]
    refine of_control .idle hinv hmain hidle nofun (fun hj => hj.elim) nofun nofun ?_
    intro _ hrun'
    rw [stopReturn_running, hrun] at hrun'
    cases hrun'
  | stopPass hpc hrun =>
    exact h.pass _ hinv hmain (setControl_self ..) rfl rfl (by rw [hpc]; exact ⟨id, id⟩)
      ⟨id, id⟩ fun _ _ => hrun
  | @stopStore t b d hpc =>
    refine of_control (.stopping d .testJoinable) hinv hmain (setControl_self ..) nofun
      (fun _ => rfl) nofun ?_ nofun
    intro hf
    exact ⟨(h.failure hf).1, id, Or.inr trivial⟩
  | notJoinable hpc _ =>
    have hrun := h.joining (by rw [hpc]; trivial)
    rw [foldl_stopReturn]
    refine of_control .idle hinv hmain hidle nofun (fun hj => hj.elim) nofun nofun ?_
    intro _ hrun'
    rw [stopReturn_running, hrun] at hrun'
    cases hrun'
  | @isJoinable t b d w hpc hw =>
    have hrun := h.joining (by rw [hpc]; trivial)
    have hne : s.worker ≠ none := by rw [hw]; nofun
    refine of_control (.stopping d .join) hinv hmain (setControl_self ..) nofun (fun _ => hrun)
      (fun _ _ => hne) (fun hf => absurd (h.failure hf).1 hne) fun _ _ => Or.inr hne
  | joinThrow hpc hw | destructorThrow hpc hw => exact absurd hw (h.joinable _ hpc)
  | joined hpc _ _ =>
    have hrun := h.joining (by rw [hpc]; trivial)
    rw [foldl_stopReturn]
    refine of_control .idle hinv hmain hidle nofun (fun hj => hj.elim) nofun nofun ?_
    intro _ hrun'
    rw [stopReturn_running, show ({ s with worker := none } : State Unit).running = s.running
      from rfl, hrun] at hrun'
    cases hrun'
  | submit _ | pop _ | report _ =>
    rw [foldl_updateFailed (hother nofun)]
    exact h.frame hinv hmain rfl rfl rfl
  | callSubmit _ | checkMain _ _ | checkDrain _ _ => exact h.frame hinv hmain rfl rfl rfl
  | evaluate _ | count _ | yield _ => exact h.frame hinv hmain rfl rfl rfl

end FlagInv

/-- The invariant holds in every run. -/
lemma flagInv_of_run (h : (system cfg Unit).Run System.anyStep (system cfg Unit).init es s) :
    FlagInv (failedSince es) s := by
  refine h.invariant (I := fun es s => FlagInv (failedSince es) s) ?_ ?_
  · exact ⟨apartInv_init Unit, nofun, fun hj => hj.elim, nofun, nofun, nofun, nofun⟩
  · intro es s a s' out hinv _ hstep
    rw [failedSince_append]
    exact hinv.step (move_of_step hstep).1

/-! ## The flag and the consumer -/

/-- Between calls the flag tells whether there is a consumer, unless a `start()` has failed.

**Proof sketch.** With a failure on record `running_` is true and there is no consumer, so the
equivalence fails. Without one, a true flag comes with a joinable `worker_`, whose consumer is in
its main loop (`MainLoop`); and if the flag is false `worker_` is not joinable, and no consumer
runs. -/
lemma FlagInv.running_iff (h : FlagInv failed s) (hidle : s.control () = .idle) :
    (s.running = true ↔ ∃ i, s.workers i ≠ .exited) ↔ failed = false := by
  have hpass : ¬ (s.control ()).StartPassed := by rw [hidle]; exact id
  have hjoin : ¬ (s.control ()).Joining := by rw [hidle]; exact id
  have hnone : s.worker = none → ¬ ∃ i, s.workers i ≠ .exited := by
    rintro hw ⟨i, hi⟩
    exact hi ((h.toControlInv.stopped hw fun _ => hpass).2 i)
  cases failed with
  | true =>
    obtain ⟨hw, -, hrun⟩ := h.failure rfl
    simp [hnone hw, hrun.resolve_right hjoin]
  | false =>
    refine iff_of_true ⟨?_, ?_⟩ rfl
    · intro hrun
      have hw := (h.success rfl hrun).resolve_left hpass
      refine ⟨s.spawned - 1, fun hexit => ?_⟩
      have hmain := h.main hrun (Or.inl hw)
      rw [State.current, hexit] at hmain
      exact hmain
    · intro hsome
      cases hw : s.worker with
      | none => exact absurd hsome (hnone hw)
      | some w =>
        rcases h.flag w hw with hrun | ⟨t, ht⟩
        · exact hrun
        · exact absurd ht hjoin

/-- Where every creation of a thread succeeds, no `start()` has failed.

**Proof sketch.** Induction on the run; a `start()` that throws is shown only by a creation that
throws. -/
lemma not_failed_of_creationSucceeds
    (h : (system cfg Unit).Run CreationSucceeds (system cfg Unit).init es s) :
    failedSince es = false := by
  refine h.invariant (I := fun es _ => failedSince es = false) rfl ?_
  intro es s a s' out ih hcreate hstep
  rw [failedSince_append, ih]
  refine foldl_updateFailed ?_
  intro e he
  cases e with
  | startThrew t =>
    obtain ⟨rfl, -, -⟩ := (move_of_step hstep).1.shows he
    exact hcreate.elim
  | stopReturned t found => cases found <;> rfl
  | _ => rfl

/-- **The flag tells whether there is a consumer unless a `start()` has failed.** With one control
thread and one producer, whatever the order of their steps and those of the consumers: where every
creation of a thread succeeds, `running()` is true between calls exactly when a consumer exists.
In any run it is so exactly between those calls where no `start()` has thrown since the last
`stop()` that found the engine running; a `start()` that throws leaves `running_` true, no
consumer, and the ring and `processed_` as they were; and until that `stop()` a `start()` returns
without a consumer.

**Proof sketch.** By `FlagInv`: a consumer is owned by `worker_` and in its main loop while
`running_` is true; a `start()` that throws has stored `running_` and assigned nothing. -/
theorem running_iff_consumer
    (h : (system cfg Unit).Run System.anyStep (system cfg Unit).init es s) :
    ((system cfg Unit).Run CreationSucceeds (system cfg Unit).init es s →
      s.control () = .idle → (s.running = true ↔ ∃ i, s.workers i ≠ .exited)) ∧
    (s.control () = .idle →
      ((s.running = true ↔ ∃ i, s.workers i ≠ .exited) ↔ failedSince es = false)) ∧
    (∀ a s' out, step cfg s a = some (s', out) → .startThrew () ∈ out →
      s'.running = true ∧ Stopped s' ∧ s'.ring = s.ring ∧ s'.processed = s.processed) ∧
    (failedSince es = true → ∀ a s' out, step cfg s a = some (s', out) →
      .startReturned () ∈ out → Stopped s') := by
  have hinv := flagInv_of_run h
  refine ⟨?_, hinv.running_iff, ?_, ?_⟩
  · intro hcreate hidle
    exact (hinv.running_iff hidle).mpr (not_failed_of_creationSucceeds hcreate)
  · intro a s' out hstep hthrew
    obtain ⟨hmove, -⟩ := move_of_step hstep
    obtain ⟨rfl, hpc, rfl⟩ := hmove.shows hthrew
    have hctl := hinv.toControlInv.step (hinv.soleStart _) hmove
    refine ⟨hinv.startRunning () (Or.inl hpc), hctl.stopped ?_ ?_, rfl, rfl⟩
    · exact hinv.noWorker () (by rw [hpc]; trivial)
    · intro t
      rw [setControl_self]
      exact id
  · intro hfailed a s' out hstep hreturned
    obtain ⟨hmove, -⟩ := move_of_step hstep
    have hctl := hinv.toControlInv.step (hinv.soleStart _) hmove
    obtain ⟨hw, hpass, -⟩ := hinv.failure hfailed
    rcases hmove.shows hreturned with ⟨-, ⟨-, rfl⟩ | ⟨id, hpc⟩⟩
    · refine hctl.stopped hw ?_
      intro t
      rw [setControl_self]
      exact id
    · exact absurd (by rw [hpc]; trivial) hpass

/-- The creation of a thread throws; `start()` is called again and returns; `stop()` is called,
and the next `start()` creates a consumer. -/
def startAgain : List (Action Unit) :=
  [.callStart (), .stepControl () false, .stepControl () false, .stepControl () true,
   .callStart (), .stepControl () false,
   .callStop (), .stepControl () false, .stepControl () false, .stepControl () false,
   .callStart (), .stepControl () false, .stepControl () false, .stepControl () false,
   .stepControl () false]

/-- A run with a failed `start()` and a `stop()` after it, at whose end `running_` is true and a
consumer runs. -/
theorem running_iff_consumer_example :
    ∃ es s, (system numberedEvents Unit).Run System.anyStep (system numberedEvents Unit).init es s ∧
      .startThrew () ∈ es ∧ s.running = true ∧ ∃ i, s.workers i ≠ .exited := by
  have h : ((system numberedEvents Unit).exec System.anyStep (system numberedEvents Unit).init
      startAgain).map (fun r => (r.1.control (), r.1.running, r.2)) =
      some (.idle, true, [.startThrew (), .startReturned (), .stopCalled (),
        .stopReturned () true, .startReturned ()]) := by rfl
  obtain ⟨s, es, hrun, hv⟩ := System.exists_run_of_exec h
  obtain ⟨hidle, hv⟩ := Prod.mk.inj hv
  obtain ⟨hrunning, rfl⟩ := Prod.mk.inj hv
  have hiff := ((running_iff_consumer hrun).2.1 hidle).mpr rfl
  exact ⟨_, s, hrun, by simp, hrunning, hiff.mp hrunning⟩

/-- **`running()` is true without a consumer**: `start()` is called on a fresh engine and the
creation of its thread throws. -/
theorem running_without_consumer :
    ¬ ∀ es s, (system numberedEvents Unit).Run System.anyStep (system numberedEvents Unit).init
        es s → s.control () = .idle → (s.running = true ↔ ∃ i, s.workers i ≠ .exited) := by
  intro hall
  have h : ((system numberedEvents Unit).exec System.anyStep (system numberedEvents Unit).init
      (startAgain.take 4)).map (fun r => (r.1.control (), r.1.running, r.1.spawned)) =
      some (.idle, true, 0) := by rfl
  obtain ⟨s, es, hrun, hv⟩ := System.exists_run_of_exec h
  obtain ⟨hidle, hv⟩ := Prod.mk.inj hv
  obtain ⟨hrunning, hspawned⟩ := Prod.mk.inj hv
  obtain ⟨i, hi⟩ := (hall es s hrun hidle).mp hrunning
  have hlast := ((flagInv_of_run hrun).consumer i hi).1
  rw [hspawned] at hlast
  cases hlast

end NullRing.Engine
