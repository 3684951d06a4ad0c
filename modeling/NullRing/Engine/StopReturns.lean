import NullRing.Engine.Lifetime
import NullRing.RingBuffer.Calls
import NullRing.Transition.Rounds

set_option relaxedAutoImplicit false
set_option autoImplicit false

/-!
# `stop()` returns

`stop()` waits in `join` for the consumer to drain the ring, so whether it returns is a question of
progress. From the moment at which no further call is made, a `stop()` in progress returns, in the
destructor or not, wherever it and the consumer and a `submit()` in progress are: in every round of
steps of the three threads what is left to do becomes less. What is left is counted in events that
the consumer may still have to pop, eight steps for each.

## Main definitions

* `Engine.NoCalls` — no call is made.
* `Engine.backlog` — the events that the consumer may still have to pop.
* `Engine.stopRank`, `Engine.stopHelper` — the measure, and the thread that `stop()` waits for.

## Main results

* `Engine.stop_ranking` — the measure is a ranking.
* `Engine.stop_returns` — `stop()` returns.
-/

namespace NullRing.Engine

open RingBuffer Transition

/-- No call is made; the calls in progress go on. -/
def NoCalls {Thread : Type} (_ : State Thread) : Action Thread → Prop
  | .callStart _ => False
  | .callStop _ => False
  | .callDestructor _ => False
  | .callSubmit _ => False
  | _ => True

/-- Decidable, so that schedules can be executed. -/
instance {Thread : Type} (s : State Thread) (a : Action Thread) : Decidable (NoCalls s a) :=
  match a with
  | .callStart _ => isFalse id
  | .callStop _ => isFalse id
  | .callDestructor _ => isFalse id
  | .callSubmit _ => isFalse id
  | .stepControl _ _ => isTrue trivial
  | .stepProducer => isTrue trivial
  | .stepWorker _ => isTrue trivial

/-- The threads of an engine with one control thread: only one consumer runs. -/
inductive Party
  | control
  | producer
  | consumer
  deriving DecidableEq, Repr

/-- Whose step an action is. -/
def Action.party : Action Unit → Option Party
  | .callStart _ => some .control
  | .callStop _ => some .control
  | .callDestructor _ => some .control
  | .stepControl _ _ => some .control
  | .callSubmit _ => some .producer
  | .stepProducer => some .producer
  | .stepWorker _ => some .consumer

/-- The events that the consumer may still have to pop if no further `submit()` is called: those in
the ring, and the one that is being submitted. -/
def backlog (s : State Unit) : ℕ :=
  sizeOf defaultRingCapacity s.ring.head s.ring.tail + if s.producer.isSome then 1 else 0

/-- What is left to do until `stop()` returns. -/
def stopRank (s : State Unit) : ℕ :=
  match s.control () with
  | .stopping _ .checkRunning => 8 * backlog s + 12
  | .stopping _ .storeRunning => 8 * backlog s + 11
  | .stopping _ .testJoinable => 8 * backlog s + 10
  | .stopping _ .join => 8 * backlog s + s.current.stepsLeft + 1
  | _ => 0

/-- The thread that `stop()` waits for: in `join` the consumer, while it runs. -/
def stopHelper (s : State Unit) : Party :=
  match s.control () with
  | .stopping _ .join => if s.current = .exited then .control else .consumer
  | _ => .control

variable {cfg : Config} {s s' s₀ : State Unit} {a : Action Unit} {out es : List (Event Unit)}
  {q q' : List ℕ} {failed : Bool}

/-! ## The events still to be popped -/

/-- The backlog in terms of the queue. -/
lemma PipeInv.backlog_eq (h : PipeInv cfg es q s) :
    backlog s = q.length + if s.producer.isSome then 1 else 0 := by
  obtain ⟨n, hstores⟩ := h.stores
  have hsize := hstores.query.2
  rw [query] at hsize
  rw [backlog, Answer.size.inj hsize]

/-- What a step pops and accepts is what it takes from the queue and adds to it. -/
lemma PipeInv.balance (h : PipeInv cfg es q s) (h' : PipeInv cfg (es ++ out) q' s') :
    q'.length + (popped out).length = q.length + (accepted out).length := by
  have hbefore := congrArg List.length h.accepted_eq
  have hafter := congrArg List.length h'.accepted_eq
  rw [accepted_append, popped_append] at hafter
  simp only [List.length_append] at hbefore hafter
  omega

/-- Only a step of `submit()` accepts an event, its last step; and but for a call of `submit()` no
step brings the producer into one.

**Proof sketch.** A step of `submit()` that accepts an event returns, so the producer is outside the
call afterwards. Any other step accepts nothing and leaves the producer alone. -/
lemma Move.accepted_le (hmove : Move cfg s a s' out) (hno : NoCalls s a) :
    (accepted out).length + (if s'.producer.isSome then 1 else 0) ≤
      if s.producer.isSome then 1 else 0 := by
  by_cases ha : a = .stepProducer
  · subst ha
    cases hmove with
    | @submit pc hp =>
      simp only [hp, Option.isSome_some, if_true]
      cases pc with
      | loadHead ptr currentTail =>
        by_cases heq : increment defaultRingCapacity currentTail = s.ring.head
        · rw [pushStep, if_pos heq]
          exact Nat.zero_le 1
        · rw [pushStep, if_neg heq]
          exact Nat.le_refl 1
      | loadTail _ | writeSlot _ _ _ | storeTail _ _ => exact Nat.le_refl 1
  · have hnone : accepted out = [] := by
      refine List.filterMap_eq_nil_iff.mpr fun e he => ?_
      cases e with
      | accepted ptr => exact absurd (hmove.shows he).1 ha
      | _ => rfl
    have hproducer : s'.producer = s.producer := by
      cases hmove with
      | callSubmit _ => exact hno.elim
      | submit _ => exact absurd rfl ha
      | stopIdle _ _ | notJoinable _ _ | joined _ _ _ => rw [stopReturn_producer]
      | _ => rfl
    rw [hnone, hproducer, List.length_nil, Nat.zero_add]

/-- **No step adds to the backlog**, and what is popped comes out of it. -/
lemma PipeInv.backlog_step (h : PipeInv cfg es q s) (h' : PipeInv cfg (es ++ out) q' s')
    (hno : NoCalls s a) (hmove : Move cfg s a s' out) :
    backlog s' + (popped out).length ≤ backlog s := by
  have hbalance := h.balance h'
  have haccepted := hmove.accepted_le hno
  rw [h.backlog_eq, h'.backlog_eq]
  omega

/-! ## The measure -/

/-- What is known of an engine while the calls in progress go on. -/
structure Returning (cfg : Config) (s : State Unit) : Prop where
  pipe : ∃ es q, PipeInv cfg es q s
  flag : ∃ failed, FlagInv failed s
  life : LifeInv s

namespace Returning

/-- It is known in every run. -/
lemma of_run (h : (system cfg Unit).Run System.anyStep (system cfg Unit).init es s) :
    Returning cfg s := by
  obtain ⟨-, q, hpipe⟩ := pipeInv_of_run h
  obtain ⟨hflag, hlife, -⟩ := lifeInv_of_run h
  exact ⟨⟨es, q, hpipe⟩, ⟨_, hflag⟩, hlife⟩

/-- The step lemma. -/
lemma step (h : Returning cfg s) (hs : Engine.step cfg s a = some (s', out)) :
    Returning cfg s' := by
  obtain ⟨⟨es, q, hpipe⟩, ⟨failed, hflag⟩, hlife⟩ := h
  obtain ⟨hmove, hongoing⟩ := move_of_step hs
  obtain ⟨q', hpipe'⟩ := hpipe.step hflag.toControlInv hmove
  exact ⟨⟨_, q', hpipe'⟩, ⟨_, hflag.step hmove⟩, hlife.step hflag hongoing hmove⟩

/-- A thread in a call has an object to call. -/
lemma ongoing (h : Returning cfg s) (hpc : s.control () ≠ .idle) : s.life.ongoing = true := by
  have hfits := h.life.fits
  cases hl : s.life with
  | alive | destroying => rfl
  | destroyed =>
    rw [hl] at hfits
    exact absurd hfits hpc
  | terminated cause =>
    rw [hl] at hfits
    exact hfits.elim

/-- While `stop()` is about to join the consumer, no thread is in `start()` and `running_` is
false. -/
lemma closing (h : Returning cfg s) {d : Bool} (hpc : s.control () = .stopping d .join) :
    Closing s := by
  obtain ⟨failed, hflag⟩ := h.flag
  have hjoin : (s.control ()).Joining := by rw [hpc]; trivial
  exact ⟨hflag.toApartInv, hflag.joining hjoin, by rw [hpc]; exact id,
    fun _ => ⟨hjoin, h.ongoing (by rw [hpc]; nofun)⟩⟩

end Returning

/-- The measure counts while `stop()` is in progress. -/
lemma stopRank_pos : 0 < stopRank s ↔ ∃ d pc, s.control () = .stopping d pc := by
  rw [stopRank]
  cases hpc : s.control () with
  | idle => simp
  | starting pc => simp
  | stopping d pc => cases pc <;> simp

/-- A step of the control thread brings `stop()` nearer to its return.

**Proof sketch.** By cases on the step. A return brings the rank to zero, and each of the other
steps of `stop()` leads to the next program point, of which the rank is smaller; at `join` the rank
begins with what the consumer has left to do, for which the point before it allows. -/
lemma Returning.control_step (h : Returning cfg s) {d b : Bool} {pc : StopPc}
    (hpc : s.control () = .stopping d pc) (hmove : Move cfg s (.stepControl () b) s' out) :
    stopRank s' < stopRank s := by
  have hpos : 0 < stopRank s := stopRank_pos.mpr ⟨d, pc, hpc⟩
  obtain ⟨failed, hflag⟩ := h.flag
  have hreturned : ∀ {s₁ : State Unit} {found : Bool},
      stopRank (stopReturn s₁ () d found).1 = 0 := by
    intro s₁ found
    rw [stopRank, (congrFun (stopReturn_control ..) ()).trans (Function.update_self ..)]
  have hidle : ∀ {s₁ : State Unit}, s₁.control () = .idle → stopRank s₁ = 0 := by
    intro s₁ hs₁
    rw [stopRank, hs₁]
  cases hmove with
  | startFound hpc' _ | startPass hpc' _ | startStore hpc' => cases hpc.symm.trans hpc'
  | createThrow hpc' | create hpc' => cases hpc.symm.trans hpc'
  | assignJoinable hpc' _ | assign hpc' _ => cases hpc.symm.trans hpc'
  | stopIdle hpc' _ | notJoinable hpc' _ | joined hpc' _ _ =>
    cases hpc.symm.trans hpc'
    rwa [hreturned]
  | stopPass hpc' _ | stopStore hpc' =>
    rw [stopRank, stopRank, setControl_self, hpc']
    exact Nat.lt_succ_self _
  | isJoinable hpc' _ =>
    rw [stopRank, stopRank, setControl_self, hpc']
    have hleft := (WorkerPc.left_le s.current).2
    show 8 * backlog s + s.current.stepsLeft + 1 < 8 * backlog s + 10
    omega
  | joinThrow hpc' hw | destructorThrow hpc' hw => exact absurd hw (hflag.joinable _ hpc')

/-- A step of another thread leaves the control thread where it is. -/
lemma Move.control_eq (hmove : Move cfg s a s' out) (hno : NoCalls s a)
    (ha : ∀ b, a ≠ .stepControl () b) : s'.control = s.control := by
  cases hmove with
  | callStart _ _ | callStop _ _ | callDestructor _ _ | callSubmit _ => exact hno.elim
  | submit _ | checkMain _ _ | checkDrain _ _ | pop _ | evaluate _ | report _ | count _
  | yield _ => rfl
  | _ => exact absurd rfl (ha _)

/-- The producer does not touch the consumer. -/
lemma Move.current_of_stepProducer (hmove : Move cfg s .stepProducer s' out) :
    s'.current = s.current := by
  cases hmove
  rfl

/-- Nobody comes to be in `stop()` without a call.

**Proof sketch.** By cases on the step: one that leads to a point of `stop()` comes from another,
unless it is the call. -/
lemma Move.stopping_of_stopping (hmove : Move cfg s a s' out) (hno : NoCalls s a)
    (h : ∃ d pc, s'.control () = .stopping d pc) : ∃ d pc, s.control () = .stopping d pc := by
  obtain ⟨d', pc', hpc'⟩ := h
  by_cases ha : ∃ b, a = .stepControl () b
  · cases hmove with
    | stopIdle hpc _ | stopPass hpc _ | stopStore hpc | notJoinable hpc _ => exact ⟨_, _, hpc⟩
    | isJoinable hpc _ | joinThrow hpc _ | destructorThrow hpc _ | joined hpc _ _ =>
      exact ⟨_, _, hpc⟩
    | assignJoinable hpc _ => exact ⟨_, _, hpc'⟩
    | callStart _ _ | callStop _ _ | callDestructor _ _ | callSubmit _ => exact hno.elim
    | submit _ | checkMain _ _ | checkDrain _ _ | pop _ | evaluate _ | report _ | count _
    | yield _ => exact ⟨_, _, hpc'⟩
    | _ => cases hpc'
  · rw [hmove.control_eq hno fun b hb => ha ⟨b, hb⟩] at hpc'
    exact ⟨_, _, hpc'⟩

/-- The measure before `stop()` is about to join. -/
lemma stopRank_eq {d : Bool} {pc : StopPc} (hpc : s.control () = .stopping d pc)
    (hjoin : pc ≠ .join) :
    stopHelper s = .control ∧
      ∀ s' : State Unit, s'.control = s.control →
        stopHelper s' = .control ∧ stopRank s' + 8 * backlog s = stopRank s + 8 * backlog s' := by
  refine ⟨?_, fun s' hs' => ⟨?_, ?_⟩⟩
  · cases pc with
    | join => exact absurd rfl hjoin
    | _ => simp only [stopHelper, hpc]
  · cases pc with
    | join => exact absurd rfl hjoin
    | _ => simp only [stopHelper, hs', hpc]
  · cases pc with
    | join => exact absurd rfl hjoin
    | _ => simp only [stopRank, hs', hpc]; omega

/-- A step of the producer or of the consumer before `stop()` is about to join adds nothing to what
is left to do.

**Proof sketch.** While `stop()` is at `join` the rank is what the consumer has left to do, with
eight steps for each event that it may still have to pop. A step of the consumer lowers it
(`progress`); a step of the producer lowers it or leaves it, and leaves the consumer. Before `join`
the rank depends on the control thread and the backlog, and the helper is the control thread. -/
lemma Returning.other_step (h : Returning cfg s) {d : Bool} {pc : StopPc}
    (hpc : s.control () = .stopping d pc) (hno : NoCalls s a) (hmove : Move cfg s a s' out)
    (ha : ∀ b, a ≠ .stepControl () b) (h' : backlog s' + (popped out).length ≤ backlog s) :
    stopRank s' < stopRank s ∨ stopRank s' = stopRank s ∧ stopHelper s' = stopHelper s ∧
      a.party ≠ some (stopHelper s) := by
  have hcontrol := hmove.control_eq hno ha
  by_cases hjoin : pc = .join
  · subst hjoin
    have hprogress := ((h.closing hpc).progress hmove).2
    have hrank : stopRank s = 8 * backlog s + s.current.stepsLeft + 1 := by
      simp only [stopRank, hpc]
    have hrank' : stopRank s' = 8 * backlog s' + s'.current.stepsLeft + 1 := by
      simp only [stopRank, hcontrol, hpc]
    cases a with
    | stepProducer =>
      have hsame := hmove.current_of_stepProducer
      have hnone : workerSteps [⟨s, .stepProducer, out, s'⟩] = 0 := rfl
      rcases Nat.lt_or_ge (stopRank s') (stopRank s) with hlt | hge
      · exact Or.inl hlt
      · refine Or.inr ⟨by omega, ?_, ?_⟩
        · simp only [stopHelper, hcontrol, hpc, hsame]
        · simp only [stopHelper, hpc, Action.party]
          split <;> nofun
    | stepWorker id =>
      have hone : workerSteps [⟨s, .stepWorker id, out, s'⟩] = 1 := rfl
      exact Or.inl (by omega)
    | stepControl t b => exact absurd rfl (ha b)
    | _ => exact hno.elim
  · obtain ⟨hhelper, heq⟩ := stopRank_eq hpc hjoin
    obtain ⟨hhelper', hrank⟩ := heq s' hcontrol
    rcases Nat.lt_or_ge (stopRank s') (stopRank s) with hlt | hge
    · exact Or.inl hlt
    · refine Or.inr ⟨by omega, hhelper'.trans hhelper.symm, ?_⟩
      rw [hhelper]
      cases a with
      | stepControl t b => exact absurd rfl (ha b)
      | stepProducer | stepWorker _ => nofun
      | _ => exact hno.elim

/-- **The measure is a ranking** of the steps after which no call is made.

**Proof sketch.** A step of the control thread lowers it (`Returning.control_step`). No step adds
to the backlog, and a step of the consumer that `stop()` waits for uses up what it has left to do,
or takes an event, which counts eight, from the backlog (`Closing.progress`). -/
theorem stop_ranking (cfg : Config) :
    (system cfg Unit).Ranking NoCalls Action.party (Returning cfg) stopRank stopHelper where
  keeps h _ hs := h.step hs
  step := by
    intro s a s' out h hno hs hpos
    obtain ⟨hmove, -⟩ := move_of_step hs
    obtain ⟨d, pc, hpc⟩ := stopRank_pos.mp hpos
    by_cases hcontrol : ∃ b, a = .stepControl () b
    · obtain ⟨b, rfl⟩ := hcontrol
      exact Or.inl (h.control_step hpc hmove)
    · obtain ⟨es, q, hpipe⟩ := h.pipe
      obtain ⟨failed, hflag⟩ := h.flag
      obtain ⟨q', hpipe'⟩ := hpipe.step hflag.toControlInv hmove
      exact h.other_step hpc hno hmove (fun b hb => hcontrol ⟨b, hb⟩)
        (hpipe.backlog_step hpipe' hno hmove)
  done := by
    intro s a s' out _ hno hs hzero
    by_contra hne
    have hstop := (move_of_step hs).1.stopping_of_stopping hno
      (stopRank_pos.mp (Nat.pos_of_ne_zero hne))
    have := stopRank_pos.mpr hstop
    omega
  canMove := by
    intro s h hpos
    obtain ⟨d, pc, hpc⟩ := stopRank_pos.mp hpos
    have hlife := h.ongoing (by rw [hpc]; nofun)
    obtain ⟨failed, hflag⟩ := h.flag
    by_cases hwait : ∃ d w, s.control () = .stopping d .join ∧ s.worker = some w ∧
        s.workers w ≠ .exited
    · obtain ⟨d, w, hpc, -, hw⟩ := hwait
      have hcur : s.current ≠ .exited := by rwa [hflag.toControlInv.current_eq hw]
      have hhelper : stopHelper s = .consumer := by
        simp only [stopHelper, hpc, if_neg hcur]
      rw [hhelper]
      refine System.canMove_of_isSome (a := .stepWorker w) rfl trivial ?_
      show (step cfg s (.stepWorker w)).isSome
      rw [step_worker hlife rfl]
      exact workerStep_isSome hw
    · have hhelper : stopHelper s = .control := by
        by_cases hjoin : pc = .join
        · subst hjoin
          have hexit : s.current = .exited := by
            by_contra hcur
            exact hwait ⟨d, _, hpc, (h.closing hpc).worker_eq hcur, hcur⟩
          simp only [stopHelper, hpc, if_pos hexit]
        · exact (stopRank_eq hpc hjoin).1
      rw [hhelper]
      have hstep := (hflag.control_cases cfg hlife (by rw [hpc]; nofun)).resolve_right hwait
      exact System.canMove_of_isSome (a := .stepControl () false) rfl trivial (hstep false)

/-! ## The return -/

/-- The object does not come back to life.

**Proof sketch.** By cases on the step. Those that change the life of the object end it, or begin
its destruction. -/
lemma Move.alive_of_alive (hmove : Move cfg s a s' out) (h : s'.life = .alive) :
    s.life = .alive := by
  have hreturn : ∀ (s₁ : State Unit) {d found : Bool},
      (stopReturn s₁ () d found).1.life = .alive → s₁.life = .alive := by
    intro s₁ d found hlife
    rw [stopReturn] at hlife
    split at hlife
    · split at hlife <;> cases hlife
    · exact hlife
  cases hmove with
  | stopIdle _ _ | notJoinable _ _ => exact hreturn s h
  | joined _ _ _ => exact hreturn { s with worker := none } h
  | callDestructor _ halive => exact halive
  | assignJoinable _ _ | destructorThrow _ _ => cases h
  | _ => exact h

/-- The control thread is in the `stop()` it was in, or `stop()` has returned.

**Proof sketch.** Induction on the trace. A step of the control thread inside `stop()` leads to
another point of it or returns, showing the return; outside a call it has no step, as none is made.
The steps of the others leave it where it is. -/
lemma returned_of_trace {tr : List (Taken (State Unit) (Action Unit) (Event Unit))} {d : Bool}
    {pc : StopPc} (h : Returning cfg s₀) (hpc : s₀.control () = .stopping d pc)
    (htr : (system cfg Unit).Trace NoCalls s₀ tr s) :
    Returning cfg s ∧ (d = true → s.life ≠ .alive) ∧
      ((∃ pc', s.control () = .stopping d pc') ∨
        s.control () = .idle ∧ ∃ found, .stopReturned () found ∈ System.events tr) := by
  have hdead : d = true → s₀.life ≠ .alive := by
    rintro rfl hlife
    have hfits := h.life.fits
    rw [hlife] at hfits
    exact hfits pc hpc
  refine htr.invariant (I := fun tr s => Returning cfg s ∧ (d = true → s.life ≠ .alive) ∧
    ((∃ pc', s.control () = .stopping d pc') ∨
      s.control () = .idle ∧ ∃ found, .stopReturned () found ∈ System.events tr))
    ⟨h, hdead, Or.inl ⟨pc, hpc⟩⟩ ?_
  rintro tr s a s' out ⟨hret, hdead, hcases⟩ hno hs
  obtain ⟨hmove, -⟩ := move_of_step hs
  refine ⟨hret.step hs, fun hd hlife => hdead hd (hmove.alive_of_alive hlife), ?_⟩
  rw [System.events_snoc]
  obtain ⟨failed, hflag⟩ := hret.flag
  by_cases ha : ∃ b, a = .stepControl () b
  · rcases hcases with ⟨pc', hpc'⟩ | ⟨hidle, -⟩
    · have hreturn : ∀ {s₁ : State Unit} {found : Bool},
          (stopReturn s₁ () d found).1.control () = .idle ∧
            .stopReturned () found ∈ (stopReturn s₁ () d found).2 := by
        intro s₁ found
        refine ⟨(congrFun (stopReturn_control ..) ()).trans (Function.update_self ..), ?_⟩
        rw [stopReturn]
        split
        · split <;> exact List.mem_cons_self
        · exact List.mem_cons_self
      cases hmove with
      | stopIdle hp _ | notJoinable hp _ | joined hp _ _ =>
        cases hpc'.symm.trans hp
        exact Or.inr ⟨hreturn.1, _, List.mem_append_right _ hreturn.2⟩
      | stopPass hp _ | stopStore hp | isJoinable hp _ =>
        cases hpc'.symm.trans hp
        exact Or.inl ⟨_, setControl_self ..⟩
      | joinThrow hp hw | destructorThrow hp hw => exact absurd hw (hflag.joinable _ hp)
      | startFound hp _ | startPass hp _ | startStore hp => cases hpc'.symm.trans hp
      | createThrow hp | create hp => cases hpc'.symm.trans hp
      | assignJoinable hp _ | assign hp _ => cases hpc'.symm.trans hp
      | callStart _ _ | callStop _ _ | callDestructor _ _ | callSubmit _ => exact hno.elim
      | submit _ | checkMain _ _ | checkDrain _ _ | pop _ | evaluate _ | report _ | count _
      | yield _ => exact Or.inl ⟨pc', hpc'⟩
    · obtain ⟨b, rfl⟩ := ha
      rw [show (system cfg Unit).step s (.stepControl () b) = step cfg s (.stepControl () b) from
        rfl] at hs
      have hlife := (move_of_step hs).2
      rw [step_control hlife, controlStep, hidle] at hs
      cases hs
  · rw [hmove.control_eq hno fun b hb => ha ⟨b, hb⟩]
    refine hcases.imp id ?_
    rintro ⟨hidle, found, hmem⟩
    exact ⟨hidle, found, List.mem_append_left _ hmem⟩

/-- **`stop()` returns.** Take any history of calls of one control thread, creations of threads
that threw among them, and any moment at which that thread is in `stop()`, called by the destructor
or not. Once no further call is made, `stop()` has returned after `8 k + 20` rounds, where `k`
events were in the ring at that moment and in each round either thread takes a step unless it has
none to take; the destructor then has ended the life of the object. And whatever happened before,
the threads can go on until `stop()` has returned.

**Proof sketch.** `stop_ranking`: each round lowers the measure, which is `8 k + 20` at most at
first; when it is used up the control thread is out of `stop()`, which it leaves only by its
return. -/
theorem stop_returns {d : Bool} {pc : StopPc}
    (h : (system cfg Unit).Run System.anyStep (system cfg Unit).init es s₀)
    (hpc : s₀.control () = .stopping d pc) :
    (∀ n tr s, (system cfg Unit).Rounds NoCalls Action.party s₀ n tr s →
      8 * ((accepted es).length - (popped es).length) + 20 ≤ n →
      s.control () = .idle ∧ (∃ found, .stopReturned () found ∈ System.events tr) ∧
        (d = true → s.life = .destroyed)) ∧
    ∃ tr s, (system cfg Unit).Trace NoCalls s₀ tr s ∧ s.control () = .idle ∧
      ∃ found, .stopReturned () found ∈ System.events tr := by
  have hret := Returning.of_run h
  have hend : ∀ {tr s}, (system cfg Unit).Trace NoCalls s₀ tr s → stopRank s = 0 →
      s.control () = .idle ∧ (∃ found, .stopReturned () found ∈ System.events tr) ∧
        (d = true → s.life = .destroyed) := by
    intro tr s htr hzero
    obtain ⟨hret', hdead, ⟨pc', hpc'⟩ | ⟨hidle, hfound⟩⟩ := returned_of_trace hret hpc htr
    · have := stopRank_pos.mpr ⟨d, pc', hpc'⟩
      omega
    · refine ⟨hidle, hfound, fun hd => ?_⟩
      have hfits := hret'.life.fits
      have hnot := hdead hd
      cases hl : s.life with
      | alive => exact absurd hl hnot
      | destroying =>
        rw [hl] at hfits
        obtain ⟨p, hp⟩ := hfits
        cases hidle.symm.trans hp
      | destroyed => rfl
      | terminated cause =>
        rw [hl] at hfits
        exact hfits.elim
  constructor
  · intro n tr s hrounds hn
    obtain ⟨-, hle⟩ := (stop_ranking cfg).rounds hrounds hret
    obtain ⟨-, q, hpipe⟩ := pipeInv_of_run h
    have hlen := congrArg List.length hpipe.accepted_eq
    rw [List.length_append] at hlen
    have hbacklog : backlog s₀ ≤ q.length + 1 := by
      rw [hpipe.backlog_eq]
      split <;> omega
    have hrank : stopRank s₀ ≤ 8 * backlog s₀ + 12 := by
      have hleft := (WorkerPc.left_le s₀.current).2
      rw [stopRank, hpc]
      cases pc <;> simp only <;> omega
    exact hend hrounds.trace (by omega)
  · obtain ⟨tr, s, htr, -, hzero⟩ := (stop_ranking cfg).exists_trace hret
    obtain ⟨hidle, hfound, -⟩ := hend htr hzero
    exact ⟨tr, s, htr, hidle, hfound⟩

/-- A `stop()` about to store `running_` returns. -/
theorem stop_returns_example :
    ∃ s₀ tr s, s₀.control () = .stopping false .storeRunning ∧
      (system numberedEvents Unit).Trace NoCalls s₀ tr s ∧
      ∃ found, .stopReturned () found ∈ System.events tr := by
  have h : ((system numberedEvents Unit).exec System.anyStep (system numberedEvents Unit).init
      stopRequested).map (fun r => (r.1.control (), accepted r.2, popped r.2)) =
      some (.stopping false .storeRunning, [7], []) := by rfl
  obtain ⟨s₀, es, hrun, hv⟩ := System.exists_run_of_exec h
  obtain ⟨hpc, haccepted, hpopped⟩ := by simpa only [Prod.mk.injEq] using hv
  have hall : ∀ p, p ∈ [Party.control, Party.producer, Party.consumer] := by
    intro p
    cases p <;> simp
  obtain ⟨tr, s, hrounds⟩ := System.exists_rounds (system numberedEvents Unit) NoCalls
    Action.party hall s₀ 28
  have hreturned := (stop_returns hrun hpc).1 28 tr s hrounds (by rw [haccepted, hpopped]; decide)
  exact ⟨s₀, tr, s, hpc, hrounds.trace, hreturned.2.1⟩

end NullRing.Engine
