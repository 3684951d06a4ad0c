import NullRing.Engine.WeakDrain

set_option relaxedAutoImplicit false
set_option autoImplicit false

/-!
# The events a `stop()` may leave behind

Under acquire and release a `stop()` drains what the control thread knows, and need not drain
more: the consumer's loads of `tail_` may all return the entry that the store of `running_` made
visible to it, and then its second loop ends there. So if one thread submits and another stops,
nothing but what the program around the engine does to synchronise them makes the events submitted
before a `stop()` be processed.

## Main results

* `Engine.Weak.submits_run` — any number of events below the capacity may be submitted.
* `Engine.Weak.drain_run` — the second loop may end at the entry seen when it is entered.
* `Engine.Weak.unknown_events_left` — exactly what the control thread knows may be processed.
-/

namespace NullRing.Engine.Weak

open RingBuffer Transition

variable {cfg : Config} {s s' : State} {es : List (Event Unit)}

/-! ## Submitting -/

/-- A step of `submit()`, as a run. -/
lemma run_submitStep (entry : ℕ) {pc : PushPc ℕ} {ring : RingBuffer.Weak.State ℕ}
    {o : Outcome (PushPc ℕ) Bool} (hp : s.ring.producer = some pc)
    (h : RingBuffer.Weak.pushStep defaultRingCapacity s.ring entry pc = some (ring, o)) :
    (system cfg).Run System.anyStep s (submitEvents pc o)
      { s with ring := { ring with producer := o.pcAfter } } := by
  refine .single (a := .stepProducer entry) trivial ?_
  simp only [system, step, hp, submitStep, h]

/-- Submitting an event, with a load of `head_` that returns the entry read last.

**Proof sketch.** A step for each program point of `try_push`; the entry of `head_` read last leaves
room. -/
lemma submit_run (h : DrainInv cfg es s) (hidle : s.ring.producer = none)
    (hroom : (accepted es).length + 1 < s.ring.headSeen + defaultRingCapacity.val) (ptr : ℕ) :
    ∃ ring, (system cfg).Run System.anyStep s [.accepted ptr] { s with ring := ring } ∧
      ring.producer = none ∧ ring.consumer = s.ring.consumer ∧
      ring.headSeen = s.ring.headSeen ∧ ring.tailSeen = s.ring.tailSeen := by
  have hcall : (system cfg).Run System.anyStep s []
      { s with ring := { s.ring with producer := some (.loadTail ptr) } } := by
    refine .single (a := .callSubmit ptr) trivial ?_
    simp only [system, step, hidle]
  have hloaded := hcall.append (run_submitStep 0 rfl rfl)
  have hload := h.pipe.ring.loadHead_eq le_rfl h.pipe.ring.headSeen_le ptr
    (some (.loadHead ptr s.ring.ownTail))
  rw [if_neg hroom.ne, ← h.pipe.ring.ownTail] at hload
  have hchecked := hloaded.append (run_submitStep s.ring.headSeen rfl hload)
  have hwritten := hchecked.append (run_submitStep 0 rfl rfl)
  have hstored := hwritten.append (run_submitStep 0 rfl rfl)
  exact ⟨_, hstored, rfl, rfl, rfl, rfl⟩

/-- Submitting any number of events for which there is room.

**Proof sketch.** Induction on the events; each uses up one slot of the room. -/
lemma submits_run (ptrs : List ℕ) (h : DrainInv cfg es s) (hidle : s.ring.producer = none)
    (hroom : (accepted es).length + ptrs.length < s.ring.headSeen + defaultRingCapacity.val) :
    ∃ ring, (system cfg).Run System.anyStep s (ptrs.map .accepted) { s with ring := ring } ∧
      ring.producer = none ∧ ring.consumer = s.ring.consumer ∧
      ring.headSeen = s.ring.headSeen ∧ ring.tailSeen = s.ring.tailSeen := by
  induction ptrs generalizing s es with
  | nil => exact ⟨s.ring, .nil, hidle, rfl, rfl, rfl⟩
  | cons ptr ptrs ih =>
    rw [List.length_cons] at hroom
    obtain ⟨ring, hrun, hidle', hconsumer, hhead, htail⟩ :=
      submit_run h hidle (by omega) ptr
    have hroom' : (accepted (es ++ [.accepted ptr])).length + ptrs.length <
        ring.headSeen + defaultRingCapacity.val := by
      have hone : accepted ([.accepted ptr] : List (Event Unit)) = [ptr] := rfl
      rw [accepted_append, hone, List.length_append, List.length_singleton, hhead]
      omega
    obtain ⟨ring', hrun', h1, h2, h3, h4⟩ := ih (h.run hrun) hidle' hroom'
    exact ⟨ring', hrun.append hrun', h1, h2.trans hconsumer, h3.trans hhead, h4.trans htail⟩

/-! ## The second loop -/

/-- A step of `consumer_loop()`, as a run. -/
lemma run_workerStep (entry : ℕ) {pc : WorkerPc Unit} {out : List (Event Unit)}
    (hw : s.worker = some pc) (h : workerStep cfg s entry pc = some (s', out)) :
    (system cfg).Run System.anyStep s out s' := by
  refine .single (a := .stepWorker entry) trivial ?_
  simp only [system, step, hw, h]

/-- A step of `try_pop()`, as a run. -/
lemma run_popStep (entry : ℕ) {loop : Loop} {pc : PopPc ℕ} {ring : RingBuffer.Weak.State ℕ}
    {o : Outcome (PopPc ℕ) (Option ℕ)} (hw : s.worker = some (.popping loop ()))
    (hc : s.ring.consumer = some pc)
    (h : RingBuffer.Weak.popStep defaultRingCapacity s.ring entry pc = some (ring, o)) :
    (system cfg).Run System.anyStep s (s.afterPop loop o).2
      { s with ring := { ring with consumer := o.pcAfter },
               worker := some (s.afterPop loop o).1 } := by
  refine run_workerStep entry hw ?_
  simp only [workerStep, hc, h]

/-- About to load `head_` in the second loop, with the control thread in `join`. -/
structure Draining (s : State) : Prop where
  control : s.control = .stopping .join
  worker : s.worker = some (.popping .drain ())
  consumer : s.ring.consumer = some .loadHead

/-- The callback, if there is one, accepts nothing. -/
lemma accepted_report (result : RiskResult) :
    let out : List (Event Unit) := if cfg.onResult then [.reported result] else []
    accepted out = [] ∧ popped out = [] := by
  intro out
  simp only [out]
  split <;> exact ⟨rfl, rfl⟩

/-- One round of the second loop, with a load of `tail_` that returns the entry read last.

**Proof sketch.** A step for each program point of the round, with the entries chosen: the entry of
`tail_` read last, which is past the next event to pop, so that the ring is not found empty, and the
latest entry of its slot. -/
lemma drainOne_run (h : DrainInv cfg es s) (hd : Draining s)
    (hlt : (popped es).length < s.ring.tailSeen) :
    ∃ out s', (system cfg).Run System.anyStep s out s' ∧ Draining s' ∧
      s'.ring.tailSeen = s.ring.tailSeen ∧ accepted out = [] ∧ (popped out).length = 1 := by
  have hring := h.pipe.ring
  obtain ⟨ptr, hitem⟩ : ∃ ptr, (accepted es)[(popped es).length]? = some ptr :=
    ⟨_, List.getElem?_eq_getElem (hlt.trans_le hring.tailSeen_le)⟩
  have hcalled : (system cfg).Run System.anyStep s [] { s with
      ring := { s.ring with consumer := some (.loadTail s.ring.ownHead) },
      worker := some (.popping .drain ()) } := run_popStep 0 hd.worker hd.consumer rfl
  have hload := hring.loadTail_eq le_rfl hring.tailSeen_le (some (.loadTail s.ring.ownHead))
  rw [if_neg hlt.ne', ← hring.ownHead] at hload
  have hloaded := hcalled.append (run_popStep s.ring.tailSeen rfl rfl hload)
  obtain ⟨ring, hread, -, htail, -⟩ := (hring.seeTail le_rfl hring.tailSeen_le).readSlot_eq hlt
    hitem (some (.readSlot ((popped es).length % defaultRingCapacity.val)))
  rw [← hring.ownHead] at hread
  have hpopped := (hloaded.append (run_popStep _ rfl rfl hread)).append (run_popStep 0 rfl rfl rfl)
  have hevaluated := hpopped.append (run_workerStep 0 rfl rfl)
  have hreported := hevaluated.append (run_workerStep 0 rfl rfl)
  have hcounted := hreported.append (run_workerStep 0 rfl rfl)
  refine ⟨_, _, hcounted, ⟨hd.control, rfl, rfl⟩, htail, ?_, ?_⟩
  · simp only [accepted_append, (accepted_report _).1]
    rfl
  · simp only [popped_append, (accepted_report _).2]
    rfl

/-- The last round of the second loop: the entry of `tail_` read last is read again, and all before
it is popped. -/
lemma drainEnd_run (h : DrainInv cfg es s) (hd : Draining s)
    (hall : s.ring.tailSeen = (popped es).length) :
    ∃ s', (system cfg).Run System.anyStep s [.poppedNothing, .exited (s.spawned - 1)] s' ∧
      s'.control = .stopping .join ∧ s'.worker = some .exited ∧
      s'.ring.tailSeen = s.ring.tailSeen := by
  have hring := h.pipe.ring
  have hcalled : (system cfg).Run System.anyStep s [] { s with
      ring := { s.ring with consumer := some (.loadTail s.ring.ownHead) },
      worker := some (.popping .drain ()) } := run_popStep 0 hd.worker hd.consumer rfl
  have hload := hring.loadTail_eq le_rfl hring.tailSeen_le (some (.loadTail s.ring.ownHead))
  rw [if_pos hall, ← hring.ownHead] at hload
  have hended := hcalled.append (run_popStep s.ring.tailSeen rfl rfl hload)
  exact ⟨_, hended, hd.control, rfl, rfl⟩

/-- The second loop may end without a look at a later entry of `tail_`.

**Proof sketch.** Induction on the number of events seen and not popped, with `drainOne_run` for
each and `drainEnd_run` after the last. -/
lemma drain_run (n : ℕ) (h : DrainInv cfg es s) (hd : Draining s)
    (hn : s.ring.tailSeen = (popped es).length + n) :
    ∃ out s', (system cfg).Run System.anyStep s out s' ∧ s'.control = .stopping .join ∧
      s'.worker = some .exited ∧ s'.ring.tailSeen = s.ring.tailSeen ∧ accepted out = [] := by
  induction n generalizing s es with
  | zero =>
    obtain ⟨s', hrun, hcontrol, hworker, htail⟩ := drainEnd_run h hd hn
    exact ⟨_, s', hrun, hcontrol, hworker, htail, rfl⟩
  | succ n ih =>
    obtain ⟨out, s₁, hrun, hd', htail, haccepted, hone⟩ := drainOne_run h hd (by omega)
    have hn' : s₁.ring.tailSeen = (popped (es ++ out)).length + n := by
      rw [popped_append, List.length_append, hone, htail]
      omega
    obtain ⟨out', s', hrun', hcontrol, hworker, htail', haccepted'⟩ := ih (h.run hrun) hd' hn'
    refine ⟨_, s', hrun.append hrun', hcontrol, hworker, htail'.trans htail, ?_⟩
    rw [accepted_append, haccepted, haccepted']
    rfl

/-! ## The whole run -/

/-- An engine that was started once, with its consumer at the head of the main loop. -/
def started : State :=
  { State.init with
    ring := acquireTail State.init.ring 0, flagHist := [⟨false, 0⟩, ⟨true, 0⟩], flagSeen := 1,
    worker := some .checkRunning, spawned := 1 }

/-- Starting the engine. -/
lemma start_run :
    (system cfg).Run System.anyStep (system cfg).init [.startReturned ()] started := by
  have h : (system cfg).exec System.anyStep (system cfg).init
      [.callStart, .stepControl, .stepControl, .stepControl] =
      some (started, [.startReturned ()]) := by rfl
  exact System.run_of_exec h

/-- A step of the control thread, as a run. -/
lemma run_controlStep {out : List (Event Unit)} (h : controlStep s = some (s', out)) :
    (system cfg).Run System.anyStep s out s' := by
  refine .single (a := .stepControl) trivial ?_
  exact h

/-- `stop()` is called and comes to `join`, and the consumer finds `running_` false.

**Proof sketch.** The steps of `stop()` up to `join`, followed by the check of the consumer, which
reads the entry just stored. That carries what the control thread knows, so the consumer has read of
as many entries of `tail_`. -/
lemma stop_run (h : DrainInv cfg es s) (hcontrol : s.control = .idle)
    (hworker : s.worker = some .checkRunning) (hrunning : s.running = true)
    (hseen : s.flagSeen ≤ s.flagHist.length) :
    ∃ s', (system cfg).Run System.anyStep s [.stopCalled ()] s' ∧ Draining s' ∧
      s'.ring.tailSeen = max s.ring.tailSeen s.known := by
  have hcalled : (system cfg).Run System.anyStep s [.stopCalled ()]
      { s with control := .stopping .checkRunning } := by
    refine .single (a := .callStop) trivial ?_
    simp only [system, step, hcontrol, if_true]
  have hfound : (system cfg).Run System.anyStep { s with control := .stopping .checkRunning } []
      { s with control := .stopping .storeRunning } := by
    refine run_controlStep ?_
    simp only [controlStep, stopStep]
    exact if_pos hrunning
  have hstored := (hcalled.append hfound).append (run_controlStep rfl)
  have hjoining : (system cfg).Run System.anyStep
      { s.storeRunning false with control := .stopping .testJoinable } []
      { s.storeRunning false with control := .stopping .join } := by
    refine run_controlStep ?_
    simp only [controlStep, stopStep, State.storeRunning, hworker]
  have hwaiting := hstored.append hjoining
  have hget : (s.flagHist ++ [⟨false, s.known⟩])[s.flagHist.length]? =
      some (⟨false, s.known⟩ : Flag) := List.getElem?_concat_length
  have hchecked : (system cfg).Run System.anyStep
      { s.storeRunning false with control := .stopping .join } []
      ({ s.storeRunning false with
        control := .stopping .join, flagSeen := s.flagHist.length,
        ring := acquireTail s.ring s.known }.callPop .drain) := by
    refine run_workerStep s.flagHist.length hworker ?_
    simp only [workerStep, State.storeRunning, hget, hseen, if_true]
    rfl
  refine ⟨_, hwaiting.append hchecked, ⟨rfl, rfl, rfl⟩, ?_⟩
  exact (acquireTail_inv h.pipe.ring h.pipe.known_le).2.1

/-- What submissions show. -/
lemma accepted_submits (es : List (Event Unit)) (ptrs : List ℕ) :
    accepted (es ++ ptrs.map .accepted) = accepted es ++ ptrs ∧
      popped (es ++ ptrs.map .accepted) = popped es := by
  have hmap : accepted (ptrs.map .accepted : List (Event Unit)) = ptrs ∧
      popped (ptrs.map .accepted : List (Event Unit)) = [] := by
    induction ptrs with
    | nil => exact ⟨rfl, rfl⟩
    | cons ptr ptrs ih => exact ⟨congrArg (ptr :: ·) ih.1, ih.2⟩
  rw [accepted_append, popped_append, hmap.1, hmap.2, List.append_nil]
  exact ⟨rfl, rfl⟩

/-- The engine is started, and `ptrs` are submitted, of which the control thread knows the first
`k`.

**Proof sketch.** The engine is started and the first `k` events are submitted; the control thread
comes to know of what has been stored; and then the others are submitted. There is room for all, as
the consumer does not come into it. -/
lemma submitted_run (ptrs : List ℕ) {k : ℕ} (hk : k ≤ ptrs.length)
    (hroom : ptrs.length < defaultRingCapacity.val) :
    ∃ es ring, (system cfg).Run System.anyStep (system cfg).init es
        { started with known := k, ring := ring } ∧
      accepted es = ptrs ∧ popped es = [] ∧ ring.tailSeen = 0 := by
  have hstart : (system cfg).Run System.anyStep (system cfg).init [.startReturned ()] started :=
    start_run
  have hempty : accepted [Event.startReturned ()] = [] ∧ popped [Event.startReturned ()] = [] :=
    ⟨rfl, rfl⟩
  have htake : (ptrs.take k).length = k := List.length_take_of_le hk
  -- the events of which the control thread comes to know
  obtain ⟨ring, hfirst, hidle, -, hhead, htail⟩ :=
    submits_run (ptrs.take k) (drainInv_of_run hstart) rfl (by
      rw [hempty.1, htake]
      show 0 + k < 0 + _
      omega)
  have hrun := hstart.append hfirst
  obtain ⟨haccepted, hpopped⟩ := accepted_submits [.startReturned ()] (ptrs.take k)
  rw [hempty.1, List.nil_append] at haccepted
  have hlength : ring.tailHist.length - 1 = k := by
    rw [(drainInv_of_run hrun).pipe.ring.tailHist, haccepted]
    simp [htake]
  have hsync : (system cfg).Run System.anyStep { started with ring := ring } []
      { started with known := k, ring := ring } := by
    refine .single (a := .synchronize) trivial ?_
    simp only [system, step, hlength]
  have hrun' := hrun.append hsync
  rw [List.append_nil] at hrun'
  -- the others
  obtain ⟨ring', hrest, -, -, -, htail'⟩ :=
    submits_run (ptrs.drop k) (drainInv_of_run hrun') hidle (by
      rw [haccepted, htake, List.length_drop]
      show _ < ring.headSeen + _
      omega)
  refine ⟨_, ring', hrun'.append hrest, ?_, ?_, htail'.trans htail⟩
  · rw [(accepted_submits _ _).1, haccepted, List.take_append_drop]
  · rw [(accepted_submits _ _).2, hpopped]
    exact hempty.2

/-- **The events a `stop()` may leave behind**: for any events below the capacity, of which the
control thread knows the first `k` when it calls `stop()`, there is a run in which exactly these
`k` are evaluated when the call returns, although all were accepted before it.

**Proof sketch.** The engine is started, and the consumer does not move before the store of `false`.
It then sees the entry of `tail_` of the first `k` events, and every later load of `tail_` returns
this entry again, so that the second loop ends after `k` rounds (`drain_run`). -/
theorem unknown_events_left (cfg : Config) (ptrs : List ℕ) (k : ℕ) (hk : k ≤ ptrs.length)
    (hroom : ptrs.length < defaultRingCapacity.val) :
    ∃ es s es' s' s'', (system cfg).Run System.anyStep (system cfg).init es s ∧
      accepted es = ptrs ∧ s.control = .idle ∧ s.known = k ∧
      (system cfg).Run System.anyStep s (.stopCalled () :: es') s' ∧
      step cfg s' .stepControl = some (s'', [.stopReturned () true]) ∧
      evaluated (es ++ .stopCalled () :: es') = ptrs.take k := by
  obtain ⟨es, ring, hrun, haccepted, hpopped, htail⟩ := @submitted_run cfg ptrs k hk hroom
  have hinv := drainInv_of_run hrun
  obtain ⟨s₁, hstop, hdraining, hseen⟩ := stop_run hinv rfl rfl rfl (Nat.le_succ 1)
  have hinv₁ := hinv.run hstop
  have hseen' : s₁.ring.tailSeen = k := by
    rw [hseen]
    show max ring.tailSeen k = k
    rw [htail, Nat.zero_max]
  have hnone : popped (es ++ [Event.stopCalled ()]) = [] := by
    rw [popped_append, hpopped]
    rfl
  obtain ⟨out, s', hdrain, hcontrol, hworker, htail', haccepted'⟩ :=
    drain_run k hinv₁ hdraining (by rw [hnone, hseen', List.length_nil, Nat.zero_add])
  have hstep : ∃ s'', step cfg s' .stepControl = some (s'', [.stopReturned () true]) := by
    simp only [step, controlStep, hcontrol, stopStep, hworker, if_true]
    exact ⟨_, rfl⟩
  obtain ⟨s'', hstep⟩ := hstep
  refine ⟨es, _, out, s', s'', hrun, haccepted, rfl, rfl, hstop.append hdrain, hstep, ?_⟩
  -- the events evaluated are the first ones accepted, as many as the consumer has seen
  have hinv' := hinv.run (hstop.append hdrain)
  have hall : popped (es ++ ([Event.stopCalled ()] ++ out)) =
      evaluated (es ++ ([Event.stopCalled ()] ++ out)) := by
    have := hinv'.pipe.handled.popped_eq
    rw [State.current, hworker] at this
    exact this.trans (List.append_nil _)
  have hfirst : accepted (es ++ ([Event.stopCalled ()] ++ out)) = ptrs := by
    rw [accepted_append, accepted_append, haccepted', haccepted]
    exact List.append_nil _
  have horder := hinv'.pipe.order
  rw [hall, hfirst] at horder
  have hlength : (evaluated (es ++ ([Event.stopCalled ()] ++ out))).length = k := by
    rw [← hall, ← hinv'.exited hworker, htail', hseen']
  have hfinal := List.prefix_iff_eq_take.mp horder
  rwa [hlength] at hfinal

/-- Two events are accepted, the control thread knows of one, and one is evaluated by the return of
`stop()`. -/
theorem unknown_events_left_example :
    1 ≤ [7, 8].length ∧ [7, 8].length < defaultRingCapacity.val ∧
      ∃ es s es' s' s'',
        (system numberedEvents).Run System.anyStep (system numberedEvents).init es s ∧
        accepted es = [7, 8] ∧ s.control = .idle ∧ s.known = 1 ∧
        (system numberedEvents).Run System.anyStep s (.stopCalled () :: es') s' ∧
        step numberedEvents s' .stepControl = some (s'', [.stopReturned () true]) ∧
        evaluated (es ++ .stopCalled () :: es') = [7] :=
  ⟨by decide, by decide, unknown_events_left numberedEvents [7, 8] 1 (by decide) (by decide)⟩

end NullRing.Engine.Weak
