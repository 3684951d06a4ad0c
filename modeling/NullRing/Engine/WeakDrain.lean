import NullRing.Engine.WeakPipeline

set_option relaxedAutoImplicit false
set_option autoImplicit false

/-!
# What a `stop()` has drained under acquire and release

The store of `running_` by `stop()` releases and the consumer's load acquires, so when the consumer
leaves its main loop it sees every entry of `tail_` that was visible to the control thread at the
store. Its second loop ends at an entry it reads after that, with everything before it popped. So
`stop()` drains the events of which the control thread knows when it calls it. Those accepted
before the call without the control thread knowing may be left in the ring.

## Main definitions

* `Engine.Weak.DrainInv` — the invariant.
* `Engine.Weak.Handed` — what has been handed to the control thread, or by its store on.

## Main results

* `Engine.Weak.DrainInv.step`, `Engine.Weak.Handed.step` — the step lemmas.
* `Engine.Weak.drain_under_acquire_release` — what was delivered, at every moment and when a
  `stop()` returns.
-/

namespace NullRing.Engine.Weak

open RingBuffer Transition

variable {cfg : Config} {s s' : State} {a : Action} {es out : List (Event Unit)}

/-! ## The invariant -/

/-- What `running_` is and whether `worker_` is joinable when the control thread is at a point. -/
def ControlPc.Ok (running joinable : Bool) : ControlPc → Prop
  | .starting .storeRunning => running = false ∧ joinable = false
  | .starting .createThread => running = true ∧ joinable = false
  | .stopping .storeRunning => running = true ∧ joinable = true
  | .stopping .testJoinable => running = false ∧ joinable = true
  | .stopping .join => running = false ∧ joinable = true
  | _ => running = joinable

/-- The invariant of the engine, after the events `es`. -/
structure DrainInv (cfg : Config) (es : List (Event Unit)) (s : State) : Prop where
  pipe : PipeInv cfg es s
  control : s.control.Ok s.running s.worker.isSome
  /-- Of the stores of `running_` the consumer may read, only the latest may be `false`. -/
  older : s.worker ≠ none → ∀ i f, s.flagSeen ≤ i → i + 1 < s.flagHist.length →
    s.flagHist[i]? = some f → f.value = true
  /-- A consumer that has left its main loop has seen what the store of `false` carries. -/
  left : ∀ pc, s.worker = some pc → ¬ pc.InMain →
    ∃ f, s.flagHist.getLast? = some f ∧ f.value = false ∧ f.tails ≤ s.ring.tailSeen
  /-- A consumer that has ended has popped all it has seen. -/
  exited : s.worker = some .exited → s.ring.tailSeen = (popped es).length

/-- The invariant holds after the constructor. -/
lemma drainInv_init (cfg : Config) : DrainInv cfg [] State.init where
  pipe := pipeInv_init cfg
  control := rfl
  older := fun h => absurd rfl h
  left := nofun
  exited := nofun

/-- The control thread reads its own latest store of `running_`. -/
@[simp] lemma storeRunning_running (s : State) (value : Bool) :
    (s.storeRunning value).running = value := by
  simp [State.storeRunning, State.running]

/-- `running_` is the value of the latest store. -/
lemma running_of_getLast {f : Flag} (h : s.flagHist.getLast? = some f) : s.running = f.value := by
  rw [State.running, h]
  rfl

namespace DrainInv

/-- Neither the consumer nor `running_` changes. -/
lemma frame (h : DrainInv cfg es s) (hpipe : PipeInv cfg (es ++ out) s')
    (hcontrol : s'.control.Ok s.running s.worker.isSome) (hworker : s'.worker = s.worker)
    (hhist : s'.flagHist = s.flagHist) (hseen : s'.flagSeen = s.flagSeen)
    (htail : s'.ring.tailSeen = s.ring.tailSeen) (hpopped : popped out = []) :
    DrainInv cfg (es ++ out) s' where
  pipe := hpipe
  control := by
    rw [State.running, hhist, hworker]
    exact hcontrol
  older := by
    rw [hworker, hhist, hseen]
    exact h.older
  left := by
    rw [hworker, hhist, htail]
    exact h.left
  exited := by
    rw [hworker, htail, popped_append, hpopped, List.append_nil]
    exact h.exited

/-- The consumer moves, out of its main loop only if it was out of it, and reads no entry of
`running_`.

**Proof sketch.** What is asked of the control thread and of the stores of `running_` is as before;
and a consumer that is out of its main loop was so before, and has read since then of no fewer
entries of `tail_`. -/
lemma worker (h : DrainInv cfg es s) (hpipe : PipeInv cfg (es ++ out) s') {pc pc' : WorkerPc Unit}
    (hw : s.worker = some pc) (hw' : s'.worker = some pc') (hcontrol : s'.control = s.control)
    (hhist : s'.flagHist = s.flagHist) (hseen : s'.flagSeen = s.flagSeen)
    (htail : s.ring.tailSeen ≤ s'.ring.tailSeen) (hmain : pc.InMain → pc'.InMain)
    (hexit : pc' = .exited → s'.ring.tailSeen = (popped (es ++ out)).length) :
    DrainInv cfg (es ++ out) s' where
  pipe := hpipe
  control := by
    have hok := h.control
    rw [hw] at hok
    rw [State.running, hhist, hcontrol, hw']
    exact hok
  older := by
    intro _
    rw [hhist, hseen]
    exact h.older (by rw [hw]; exact Option.some_ne_none _)
  left := by
    intro pc₁ hpc₁ hout
    obtain rfl : pc' = pc₁ := Option.some.inj (hw'.symm.trans hpc₁)
    obtain ⟨f, hlast, hvalue, htails⟩ := h.left pc hw (fun hin => hout (hmain hin))
    rw [hhist]
    exact ⟨f, hlast, hvalue, htails.trans htail⟩
  exited := by
    intro hexited
    exact hexit (Option.some.inj (hw'.symm.trans hexited))

/-- The store of `false` by `stop()`.

**Proof sketch.** The stores that have now become older ones are `true`: the earlier of them were
older before, and the latest is the value that `stop()` has read. By that value no consumer was out
of its main loop. -/
lemma stopStore (h : DrainInv cfg es s) (hpc : s.control = .stopping .storeRunning)
    (hpipe : PipeInv cfg (es ++ [])
      { s.storeRunning false with control := .stopping .testJoinable }) :
    DrainInv cfg (es ++ []) { s.storeRunning false with control := .stopping .testJoinable } := by
  have hok := h.control
  rw [hpc] at hok
  obtain ⟨hrun, hjoinable⟩ := hok
  refine ⟨hpipe, ⟨storeRunning_running s false, hjoinable⟩, ?_, ?_, ?_⟩
  · intro hworker i f hi hlt hget
    -- the stores before this one are `true`: the latest of them is what `stop()` has read
    have hlt' : i < s.flagHist.length := by
      simp only [State.storeRunning, List.length_append, List.length_singleton] at hlt
      omega
    have hold : s.flagHist[i]? = some f := by
      rw [← hget]
      exact (List.getElem?_append_left hlt').symm
    by_cases hlast : i + 1 < s.flagHist.length
    · exact h.older hworker i f hi hlast hold
    · have hf : s.flagHist.getLast? = some f := by
        rw [List.getLast?_eq_getElem?, show s.flagHist.length - 1 = i by omega, hold]
      rw [← running_of_getLast hf]
      exact hrun
  · intro pc hw hout
    obtain ⟨f, hlast, hvalue, -⟩ := h.left pc hw hout
    rw [running_of_getLast hlast, hvalue] at hrun
    cases hrun
  · intro hw
    rw [List.append_nil]
    exact h.exited hw

/-- A load of `running_` by the consumer: a load that returns `false` returns the latest store, and
what that carries becomes visible.

**Proof sketch.** If the load returns `false` the entry is the latest, as the older ones that are
not yet overtaken are `true`. The consumer then leaves its main loop, and it has read of the entries
of `tail_` which that entry carries. -/
lemma check (h : DrainInv cfg es s) {entry : ℕ} {f : Flag} (hw : s.worker = some .checkRunning)
    (hf : s.flagHist[entry]? = some f) (hseen : s.flagSeen ≤ entry)
    (hpipe : PipeInv cfg (es ++ []) ({ s with
      flagSeen := entry, ring := acquireTail s.ring f.tails }.callPop
        (if f.value then .main else .drain))) :
    DrainInv cfg (es ++ []) ({ s with
      flagSeen := entry, ring := acquireTail s.ring f.tails }.callPop
        (if f.value then .main else .drain)) := by
  have hworker : s.worker ≠ none := by rw [hw]; exact Option.some_ne_none _
  have hok := h.control
  rw [hw] at hok
  refine ⟨hpipe, hok, ?_, ?_, nofun⟩
  · intro _ i g hi hlt hget
    exact h.older hworker i g (hseen.trans hi) hlt hget
  · intro pc hpc hout
    obtain rfl : WorkerPc.popping (if f.value then .main else .drain) () = pc := Option.some.inj hpc
    have hvalue : f.value = false := by
      cases hv : f.value with
      | false => rfl
      | true =>
        rw [hv] at hout
        exact absurd rfl hout
    have hlt := (List.getElem?_eq_some_iff.mp hf).1
    have hlast : ¬ entry + 1 < s.flagHist.length := by
      intro hnext
      rw [h.older hworker entry f hseen hnext hf] at hvalue
      cases hvalue
    refine ⟨f, ?_, hvalue, ?_⟩
    · show s.flagHist.getLast? = some f
      rw [List.getLast?_eq_getElem?, show s.flagHist.length - 1 = entry by omega, hf]
    · show f.tails ≤ (acquireTail s.ring f.tails).tailSeen
      rw [(acquireTail_inv h.pipe.ring (h.pipe.flag_le f (List.mem_of_getElem? hf))).2.1]
      exact le_max_right ..

/-- A step of `try_pop()`: the second loop ends at an entry of `tail_` up to which all is popped.

**Proof sketch.** By what the step of `try_pop` reads (`popStep_cases`). It ends the consumer only
if the load of `tail_` returns the value of `head_`; and an entry of which that is true, and which
is not older than the last one read, is the one of the number of events popped. -/
lemma pop (h : DrainInv cfg es s) {entry : ℕ} {loop : Loop} {pc : PopPc ℕ}
    {ring : RingBuffer.Weak.State ℕ} {o : Outcome (PopPc ℕ) (Option ℕ)}
    (hw : s.worker = some (.popping loop ())) (hc : s.ring.consumer = some pc)
    (hpop : RingBuffer.Weak.popStep defaultRingCapacity s.ring entry pc = some (ring, o))
    (hpipe : PipeInv cfg (es ++ (s.afterPop loop o).2)
      { s with ring := { ring with consumer := o.pcAfter },
               worker := some (s.afterPop loop o).1 }) :
    DrainInv cfg (es ++ (s.afterPop loop o).2)
      { s with ring := { ring with consumer := o.pcAfter },
               worker := some (s.afterPop loop o).1 } := by
  have hmain : (WorkerPc.popping loop ()).InMain → (s.afterPop loop o).1.InMain :=
    fun hin => inMain_afterPop hin _
  rcases RingBuffer.Weak.popStep_cases hpop with ⟨hnone, htail, -⟩ |
    ⟨currentHead, e, rfl, rfl, he, hseen, hvalue, htail, -⟩ |
    ⟨currentHead, ptr, rfl, rfl, htail, -⟩
  · refine h.worker hpipe hw rfl rfl rfl rfl htail hmain ?_
    intro hexit
    rcases o with next | _ | ptr
    · cases hexit
    · cases hnone
    · cases hexit
  · refine h.worker hpipe hw rfl rfl rfl rfl (by rw [← htail] at hseen; exact hseen) hmain ?_
    intro _
    -- the entry read is the one of the number of events popped
    obtain ⟨hle, rfl⟩ := h.pipe.ring.tailHist_get he
    obtain rfl : currentHead = _ := h.pipe.ring.consumer _ hc
    have hentry := (h.pipe.ring.empty_iff hseen hle).mp hvalue
    show ring.tailSeen = _
    rw [htail, hentry, popped_append]
    cases loop <;> exact (congrArg List.length (List.append_nil _)).symm
  · exact h.worker hpipe hw rfl rfl rfl rfl htail.ge hmain nofun

/-- **The step lemma.**

**Proof sketch.** The control thread finds `running_` true exactly when `worker_` is joinable, so it
creates a thread only when there is none, and stores `false` only while the consumer is in its main
loop. Of the consumer's steps, only a load of `running_` leads out of the main loop (`check`), and
only a step of `try_pop()` to the end of the second loop (`pop`). -/
theorem step (h : DrainInv cfg es s) (hmove : Move cfg s a s' out) :
    DrainInv cfg (es ++ out) s' := by
  have hpipe := h.pipe.step hmove
  have hok := h.control
  cases hmove with
  | callStart hpc | callStop hpc =>
    rw [hpc] at hok
    exact h.frame hpipe hok rfl rfl rfl rfl rfl
  | startFound hpc _ | stopIdle hpc _ =>
    rw [hpc] at hok
    exact h.frame hpipe hok rfl rfl rfl rfl rfl
  | startPass hpc hrun =>
    rw [hpc] at hok
    have hjoinable : s.worker.isSome = false := (show s.running = s.worker.isSome from hok) ▸ hrun
    exact h.frame hpipe ⟨hrun, hjoinable⟩ rfl rfl rfl rfl rfl
  | stopPass hpc hrun =>
    rw [hpc] at hok
    have hjoinable : s.worker.isSome = true := (show s.running = s.worker.isSome from hok) ▸ hrun
    exact h.frame hpipe ⟨hrun, hjoinable⟩ rfl rfl rfl rfl rfl
  | startStore hpc =>
    rw [hpc] at hok
    have hnone : s.worker = none :=
      Option.isNone_iff_eq_none.mp (Option.isSome_eq_false_iff.mp hok.2)
    refine ⟨hpipe, ⟨storeRunning_running s true, hok.2⟩, fun hw => absurd hnone hw, ?_, ?_⟩
    · intro pc hw
      exact absurd (hnone.symm.trans hw) nofun
    · intro hw
      exact absurd (hnone.symm.trans hw) nofun
  | create hpc _ =>
    rw [hpc] at hok
    refine ⟨hpipe, hok.1, ?_, ?_, nofun⟩
    · intro _ i f hi hlt _
      have hi' : s.flagHist.length - 1 ≤ i := hi
      have hlt' : i + 1 < s.flagHist.length := hlt
      omega
    · intro pc hw hout
      obtain rfl : WorkerPc.checkRunning = pc := Option.some.inj hw
      exact absurd trivial hout
  | stopStore hpc => exact h.stopStore hpc hpipe
  | notJoinable hpc hw | joinThrow hpc hw =>
    rw [hpc, hw] at hok
    exact absurd hok.2 nofun
  | isJoinable hpc _ =>
    rw [hpc] at hok
    exact h.frame hpipe hok rfl rfl rfl rfl rfl
  | joined hpc _ =>
    rw [hpc] at hok
    exact ⟨hpipe, hok.1, fun hw => absurd rfl hw, nofun, nofun⟩
  | callSubmit _ => exact h.frame hpipe hok rfl rfl rfl rfl rfl
  | submit _ hpush =>
    refine h.frame hpipe hok rfl rfl rfl ?_ (submitEvents_shows Unit _ _).1
    rcases RingBuffer.Weak.pushStep_cases hpush with ⟨-, -, htail⟩ |
      ⟨_, _, _, -, -, -, -, -, -, htail⟩ | ⟨_, _, -, -, -, htail⟩ <;> exact htail
  | check hw hf hseen => exact h.check hw hf hseen hpipe
  | pop hw hc hpop => exact h.pop hw hc hpop hpipe
  | evaluate hw | report hw => exact h.worker hpipe hw rfl rfl rfl rfl le_rfl id nofun
  | @count entry loop hw =>
    cases loop with
    | main => exact h.worker hpipe hw rfl rfl rfl rfl le_rfl (fun _ => trivial) nofun
    | drain => exact h.worker hpipe hw rfl rfl rfl rfl le_rfl id nofun
  | yield hw => exact h.worker hpipe hw rfl rfl rfl rfl le_rfl id nofun
  | synchronize => exact h.frame hpipe hok rfl rfl rfl rfl rfl

end DrainInv

/-- The invariant holds in the rest of a run. -/
lemma DrainInv.run {es' : List (Event Unit)} (h : DrainInv cfg es s)
    (h' : (system cfg).Run System.anyStep s es' s') : DrainInv cfg (es ++ es') s' := by
  refine h'.invariant (I := fun es' s => DrainInv cfg (es ++ es') s) (by rwa [List.append_nil]) ?_
  intro s₁ a s₂ es₁ out hI _ hs
  rw [← List.append_assoc]
  exact hI.step (move_of_step hs)

/-- The invariant holds in every run. -/
lemma drainInv_of_run (h : (system cfg).Run System.anyStep (system cfg).init es s) :
    DrainInv cfg es s :=
  (drainInv_init cfg).run h

/-! ## What is handed on -/

/-- In `stop()`, past the store. -/
def ControlPc.Joining : ControlPc → Prop
  | .stopping .testJoinable => True
  | .stopping .join => True
  | _ => False

/-- The first `k` events accepted are visible to the control thread, and if it is past the store
of a `stop()`, to a consumer that reads this store. -/
structure Handed (k : ℕ) (s : State) : Prop where
  known : k ≤ s.known
  stored : s.control.Joining → ∃ f, s.flagHist.getLast? = some f ∧ k ≤ f.tails

namespace Handed

variable {k : ℕ}

/-- The control thread comes to a point before the store of a `stop()`. -/
lemma before (h : Handed k s) (hjoin : ¬ s'.control.Joining) (hknown : s.known ≤ s'.known) :
    Handed k s' where
  known := h.known.trans hknown
  stored := fun hj => absurd hj hjoin

/-- The control thread stays on its side of the store. -/
lemma frame (h : Handed k s) (hjoin : s'.control.Joining → s.control.Joining)
    (hknown : s.known ≤ s'.known) (hhist : s'.flagHist = s.flagHist) : Handed k s' where
  known := h.known.trans hknown
  stored := by
    rw [hhist]
    exact fun hj => h.stored (hjoin hj)

/-- **The step lemma**: what is handed on stays so.

**Proof sketch.** By cases on the step. The control thread's knowledge of the stores of `tail_` does
not shrink; the store of `stop()` carries what it knows, and the later points of `stop()` come after
that store. -/
theorem step (h : Handed k s) (hpipe : PipeInv cfg es s) (hmove : Move cfg s a s' out) :
    Handed k s' := by
  cases hmove with
  | callStart _ | callStop _ | startFound _ _ | startPass _ _ => exact h.before id le_rfl
  | startStore _ | create _ _ | stopIdle _ _ | stopPass _ _ => exact h.before id le_rfl
  | notJoinable _ _ | joinThrow _ _ => exact h.before id le_rfl
  | joined _ _ => exact h.before id (le_max_left ..)
  | stopStore _ =>
    refine ⟨h.known, fun _ => ⟨⟨false, s.known⟩, ?_, h.known⟩⟩
    simp [State.storeRunning]
  | isJoinable hpc _ =>
    refine h.frame ?_ le_rfl rfl
    intro _
    rw [hpc]
    trivial
  | synchronize =>
    refine h.frame id ?_ rfl
    show s.known ≤ s.ring.tailHist.length - 1
    rw [hpipe.ring.tailHist]
    simpa using hpipe.known_le
  | count _ =>
    rename_i loop _
    cases loop <;> exact h.frame id le_rfl rfl
  | callSubmit _ | submit _ _ | check _ _ _ | pop _ _ _ => exact h.frame id le_rfl rfl
  | evaluate _ | report _ | yield _ => exact h.frame id le_rfl rfl

end Handed

/-- What is handed on stays so in the rest of a run. -/
lemma handed_of_run {k : ℕ} {es' : List (Event Unit)} (h : DrainInv cfg es s) (hk : Handed k s)
    (h' : (system cfg).Run System.anyStep s es' s') :
    DrainInv cfg (es ++ es') s' ∧ Handed k s' := by
  refine h'.invariant (I := fun es' s => DrainInv cfg (es ++ es') s ∧ Handed k s)
    ⟨by rwa [List.append_nil], hk⟩ ?_
  intro s₁ a s₂ es₁ out hI _ hs
  have hmove := move_of_step hs
  rw [← List.append_assoc]
  exact ⟨hI.1.step hmove, hI.2.step hI.1.pipe hmove⟩

/-- A `stop()` that returns after finding the engine running has joined the consumer.

**Proof sketch.** Two steps show such a return. The one that finds `worker_` not joinable is
excluded, since `stop()` has found `running_` true; the other is the end of `join`. -/
lemma DrainInv.joined_of_returned (h : DrainInv cfg es s) (hmove : Move cfg s a s' out)
    (hret : .stopReturned () true ∈ out) :
    s.control = .stopping .join ∧ s.worker = some .exited ∧ s'.worker = none ∧
      s'.processed = s.processed ∧ out = [.stopReturned () true] := by
  have hok := h.control
  cases hmove with
  | joined hpc hw => exact ⟨hpc, hw, rfl, rfl, rfl⟩
  | notJoinable hpc hw =>
    rw [hpc, hw] at hok
    exact absurd hok.2 nofun
  | submit _ _ =>
    rcases mem_submitEvents hret with ⟨-, he⟩ | ⟨-, he⟩ <;> cases he
  | pop _ _ _ =>
    rcases mem_afterPop hret with ⟨ptr, -, he⟩ | ⟨-, he | ⟨-, he⟩⟩ <;> cases he
  | report _ => split at hret <;> simp at hret
  | _ => simp at hret

/-- **Drain on stop under acquire and release.** Whatever entries the loads return, the events
evaluated so far are the first ones accepted, in order, and the results reported are theirs. Take a
moment when no call of `start()` or `stop()` is in progress: when a `stop()` that found the engine
running returns later, the events accepted by then that were visible to the control thread are
evaluated and their results reported, there is no consumer, and `events_processed()` is the number
of events evaluated, modulo `2 ^ 64`.

**Proof sketch.** The first part is `PipeInv`. For the second, the store of `false` carries what the
control thread knows (`Handed`), and a consumer that has left its main loop has seen what that store
carries. When it has ended, all it has seen is popped (`DrainInv`), and it holds nothing. -/
theorem drain_under_acquire_release
    (h : (system cfg).Run System.anyStep (system cfg).init es s) :
    evaluated es <+: accepted es ∧
      (cfg.onResult = true → reported es <+: (accepted es).map cfg.result) ∧
      ∀ es' s' a s'' out, s.control = .idle → (system cfg).Run System.anyStep s es' s' →
        step cfg s' a = some (s'', out) → .stopReturned () true ∈ out →
        (accepted es).take s.known <+: evaluated (es ++ es' ++ out) ∧
        (cfg.onResult = true →
          ((accepted es).take s.known).map cfg.result <+: reported (es ++ es' ++ out)) ∧
        s''.worker = none ∧
        s''.processed = (evaluated (es ++ es' ++ out)).length % 2 ^ 64 := by
  have hinv := drainInv_of_run h
  have hevaluated : evaluated es <+: accepted es := by
    refine List.IsPrefix.trans ?_ hinv.pipe.order
    rw [hinv.pipe.handled.popped_eq]
    exact List.prefix_append ..
  refine ⟨hevaluated, ?_, ?_⟩
  · intro hcb
    refine List.IsPrefix.trans ?_ (hevaluated.map cfg.result)
    rw [hinv.pipe.handled.results_eq hcb]
    exact List.prefix_append ..
  · intro es' s' a s'' out hidle hrun hstep hret
    have hhanded : Handed s.known s := ⟨le_rfl, by rw [hidle]; exact False.elim⟩
    obtain ⟨hinv', hhanded'⟩ := handed_of_run hinv hhanded hrun
    obtain ⟨hpc, hw, hnone, hprocessed, rfl⟩ :=
      hinv'.joined_of_returned (move_of_step hstep) hret
    have hsilent : evaluated [Event.stopReturned () true] = [] ∧
        reported [Event.stopReturned () true] = [] := ⟨rfl, rfl⟩
    obtain ⟨hpopped, hresults, hcount⟩ := hinv'.pipe.handled
    rw [State.current, hw] at hpopped hresults hcount
    replace hpopped : popped (es ++ es') = evaluated (es ++ es') :=
      hpopped.trans (List.append_nil _)
    -- all that was visible to the control thread is popped
    obtain ⟨f, hlast, hk⟩ := hhanded'.stored (by rw [hpc]; trivial)
    obtain ⟨g, hlast', -, htails⟩ := hinv'.left _ hw id
    obtain rfl : f = g := Option.some.inj (hlast.symm.trans hlast')
    have hlength : s.known ≤ (popped (es ++ es')).length := by
      rw [← hinv'.exited hw]
      exact hk.trans htails
    have htake : (accepted es).take s.known <+: evaluated (es ++ es') := by
      rw [← hpopped]
      refine List.prefix_of_prefix_length_le ?_ hinv'.pipe.order ?_
      · rw [accepted_append]
        exact (List.take_prefix ..).trans (List.prefix_append ..)
      · rw [List.length_take]
        exact (min_le_left ..).trans hlength
    rw [evaluated_append, reported_append, hsilent.1, hsilent.2, List.append_nil, List.append_nil]
    refine ⟨htake, ?_, hnone, ?_⟩
    · intro hcb
      have hall : (evaluated (es ++ es')).map cfg.result = reported (es ++ es') :=
        (hresults hcb).trans (List.append_nil _)
      rw [← hall]
      exact htake.map cfg.result
    · rw [hprocessed, hinv'.pipe.processed, hcount]
      rfl

/-- The engine is started, and two events are submitted; of the first the control thread knows. -/
def submitTwo : List Action :=
  [.callStart, .stepControl, .stepControl, .stepControl,
   .callSubmit 7, .stepProducer 0, .stepProducer 0, .stepProducer 0, .stepProducer 0, .synchronize,
   .callSubmit 8, .stepProducer 0, .stepProducer 0, .stepProducer 0, .stepProducer 0]

/-- The engine is stopped, and the consumer, whose loads of `tail_` return the oldest entry they
may return, takes the first event. -/
def stopStale : List Action :=
  [.callStop, .stepControl, .stepControl, .stepControl, .stepWorker 2,
   .stepWorker 0, .stepWorker 1, .stepWorker 1, .stepWorker 0, .stepWorker 0, .stepWorker 0,
   .stepWorker 0, .stepWorker 0, .stepWorker 1]

/-- Two events are accepted of which the control thread knows the first, and the consumer reads as
old entries as it may: the first is evaluated by the return of `stop()`. -/
theorem drain_under_acquire_release_example :
    ∃ es s es' s' s'',
      (system numberedEvents).Run System.anyStep (system numberedEvents).init es s ∧
      accepted es = [7, 8] ∧ (system numberedEvents).Run System.anyStep s es' s' ∧
      step numberedEvents s' .stepControl = some (s'', [.stopReturned () true]) ∧
      [7] <+: evaluated (es ++ es' ++ [.stopReturned () true]) ∧ s''.worker = none ∧
      s''.processed = 1 := by
  have h : ((system numberedEvents).exec System.anyStep (system numberedEvents).init
      submitTwo).map (fun r => (r.2, r.1.control, r.1.known,
        ((system numberedEvents).exec System.anyStep r.1 stopStale).map fun r' => (r'.2,
          (step numberedEvents r'.1 .stepControl).map Prod.snd))) =
      some ([.startReturned (), .accepted 7, .accepted 8], .idle, 1,
        some ([.stopCalled (), .popped 7, .evaluated 7, .reported (numberedEvents.result 7),
          .counted, .poppedNothing, .exited 0], some [.stopReturned () true])) := by rfl
  obtain ⟨s, es, hrun, hv⟩ := System.exists_run_of_exec h
  obtain ⟨rfl, hv⟩ := Prod.mk.inj hv
  obtain ⟨hidle, hv⟩ := Prod.mk.inj hv
  obtain ⟨hknown, hstop⟩ := Prod.mk.inj hv
  obtain ⟨s', es', hrun', hv'⟩ := System.exists_run_of_exec hstop
  obtain ⟨rfl, hlast⟩ := Prod.mk.inj hv'
  obtain ⟨⟨s'', out⟩, hstep, rfl⟩ := Option.map_eq_some_iff.mp hlast
  obtain ⟨hdrained, -, hnone, hprocessed⟩ := (drain_under_acquire_release hrun).2.2 _ s' _ s'' _
    hidle hrun' hstep List.mem_cons_self
  rw [hknown] at hdrained
  exact ⟨_, s, _, s', s'', hrun, rfl, hrun', hstep, hdrained, hnone, hprocessed⟩

end NullRing.Engine.Weak
