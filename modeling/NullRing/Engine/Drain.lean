import NullRing.Engine.Solo

set_option relaxedAutoImplicit false
set_option autoImplicit false

/-!
# What a `stop()` has drained

With one control thread, `stop()` clears `running_` while the consumer is still in its main
loop, so every event accepted before the call is popped before the consumer finds the ring empty
in its second loop and ends, whichever of the two loops pops it. This holds over any number of
cycles of `start()` and `stop()`, since what is left in the ring by one cycle is the front of the
queue of the next.

## Main definitions

* `Engine.DrainInv` — the invariant.

## Main results

* `Engine.DrainInv.step` — the step lemma.
* `Engine.drain_on_stop` — what was delivered, at every moment and when a `stop()` returns.
* `Engine.processed_wraps` — a run with `2 ^ 64` deliveries, after which `processed_` is zero.
-/

namespace NullRing.Engine

open RingBuffer Transition

/-- A prefix that ends with an item not added later is a prefix of what was there before. -/
lemma prefix_of_prefix_append {α : Type} {l l₁ l₂ : List α} {x : α} (h : l ++ [x] <+: l₁ ++ l₂)
    (hx : x ∉ l₂) : l ++ [x] <+: l₁ := by
  rcases List.prefix_or_prefix_of_prefix h (List.prefix_append l₁ l₂) with h₁ | ⟨r, hr⟩
  · exact h₁
  · rw [← hr, List.prefix_append_right_inj] at h
    rcases List.eq_nil_or_concat r with rfl | ⟨r, y, rfl⟩
    · rw [← hr, List.append_nil]
    · rw [List.concat_eq_append, ← List.append_assoc] at hr
      obtain ⟨-, hxy⟩ := List.append_inj' hr rfl
      obtain rfl := List.singleton_inj.mp hxy
      exact absurd (h.subset (by simp)) hx

/-- The events accepted in a part of a run come first among those accepted. -/
lemma accepted_prefix {Thread : Type} {es es' : List (Event Thread)} (h : es <+: es') :
    accepted es <+: accepted es' := by
  obtain ⟨rest, rfl⟩ := h
  rw [accepted_append]
  exact List.prefix_append ..

variable {cfg : Config} {s s' : State Unit} {a : Action Unit} {out es : List (Event Unit)}
  {q q' : List ℕ}

/-- The invariant of the engine with one control thread, for the events. -/
structure DrainInv (cfg : Config) (es : List (Event Unit)) (q : List ℕ) (s : State Unit) :
    Prop where
  solo : SoloInv s
  pipe : PipeInv cfg es q s
  /-- While `running_` is true, the consumer of `worker_` is in its main loop. -/
  main : s.running = true →
    (s.worker ≠ none ∨ ∃ i, s.control () = .starting (.assignWorker i)) → s.current.InMain
  /-- Once the consumer has ended, what was accepted before `stop()` was called is popped. -/
  drained : (s.control ()).Joining → s.current = .exited →
    ∀ es₁, es₁ ++ [.stopCalled ()] <+: es → accepted es₁ <+: popped es

/-- While a `stop()` is past its store, none is called. -/
lemma Move.not_stopCalled (hmove : Move cfg s a s' out) (hjoin : (s.control ()).Joining) :
    .stopCalled () ∉ out := by
  intro he
  obtain ⟨hidle, -⟩ := hmove.shows he
  rw [hidle] at hjoin
  exact hjoin

/-- A `stop()` that is past its store was so before, or takes its store.

**Proof sketch.** By cases on the step: `stop()` is past its store after the store, and after the
test of `joinable()`, which follows it; a return leaves the thread outside any call. -/
lemma Move.joining_cases (hmove : Move cfg s a s' out) (hjoin : (s'.control ()).Joining) :
    (s.control ()).Joining ∨
      (∃ d, s.control () = .stopping d .storeRunning) ∧ s'.current = s.current := by
  have hidle : ∀ {s₁ : State Unit} {d b : Bool},
      ¬ (((stopReturn s₁ () d b).1).control ()).Joining := by
    intro s₁ d b hj
    rw [stopReturn_control, Function.update_self] at hj
    exact hj
  cases hmove with
  | callStart _ _ | callStop _ _ | callDestructor _ _ => exact False.elim hjoin
  | startFound _ _ | startPass _ _ | startStore _ => exact False.elim hjoin
  | createThrow _ | create _ | assign _ _ => exact False.elim hjoin
  | stopPass _ _ | joinThrow _ _ => exact False.elim hjoin
  | stopIdle _ _ | notJoinable _ _ | joined _ _ _ => exact absurd hjoin hidle
  | stopStore hpc => exact Or.inr ⟨⟨_, hpc⟩, rfl⟩
  | isJoinable hpc _ =>
    left
    rw [show s.control () = _ from hpc]
    trivial
  | _ => exact Or.inl hjoin

namespace DrainInv

/-- The step lemma of `drained`.

**Proof sketch.** The consumer ends with a step that finds the ring empty, when all accepted
events have been popped; the only step that leads from a `stop()` before its store to one past it
is the store, and then the consumer is in its main loop. -/
lemma drained_step (h : DrainInv cfg es q s) (hpipe : PipeInv cfg (es ++ out) q' s')
    (hmove : Move cfg s a s' out) (hjoin : (s'.control ()).Joining) (hexit : s'.current = .exited)
    (es₁ : List (Event Unit)) (hes : es₁ ++ [.stopCalled ()] <+: es ++ out) :
    accepted es₁ <+: popped (es ++ out) := by
  rcases hmove.joining_cases hjoin with hs | ⟨⟨d, hpc⟩, hsame⟩
  · by_cases hcur : s.current = .exited
    · rw [popped_append]
      exact (h.drained hs hcur es₁ (prefix_of_prefix_append hes (hmove.not_stopCalled hs))).trans
        (List.prefix_append ..)
    · obtain ⟨hring, hempty⟩ := exit_of_empty h.pipe h.solo.toControlInv hmove hcur hexit
      obtain ⟨n, hstores⟩ := hpipe.stores
      have hq : q' = [] := hstores.empty_iff.mp (by rw [hring]; exact hempty)
      have hall : accepted (es ++ out) = popped (es ++ out) := by
        rw [hpipe.accepted_eq, hq, List.append_nil]
      rw [← hall]
      exact accepted_prefix ((List.prefix_append ..).trans hes)
  · have hrun := h.solo.storing d hpc
    have hmain := h.main hrun (Or.inl (h.solo.worker_ne_none (by rw [hpc]; exact id) hrun))
    rw [← hsame, hexit] at hmain
    exact hmain.elim

/-- **The step lemma**: every step whose creation of a thread succeeds keeps the invariant. -/
theorem step (h : DrainInv cfg es q s) (hcreate : CreationSucceeds s a)
    (hmove : Move cfg s a s' out) : ∃ q', DrainInv cfg (es ++ out) q' s' := by
  obtain ⟨q', hpipe⟩ := h.pipe.step h.solo.toControlInv hmove
  exact ⟨q', h.solo.step hcreate hmove, hpipe, MainLoop.step h.main h.solo.toControlInv hmove,
    h.drained_step hpipe hmove⟩

end DrainInv

/-- The invariant holds after the constructor. -/
lemma drainInv_init (cfg : Config) : DrainInv cfg [] [] (State.init Unit) where
  solo := soloInv_init
  pipe := pipeInv_init cfg Unit
  main := nofun
  drained := fun hj => hj.elim

/-- The invariant holds in every run whose threads are created. -/
lemma drainInv_of_run
    (h : (system cfg Unit).Run CreationSucceeds (system cfg Unit).init es s) :
    ∃ q, DrainInv cfg es q s :=
  h.invariant (I := fun es s => ∃ q, DrainInv cfg es q s) ⟨[], drainInv_init cfg⟩
    fun _ _ _ _ _ ⟨_, hI⟩ hP hs => hI.step hP (move_of_step hs).1

/-- A `stop()` that returns after finding the engine running has joined the consumer of
`worker_`.

**Proof sketch.** Of the three ways for `stop()` to return, finding the engine not running is
excluded by the event, and finding `worker_` not joinable by the invariant. The third is the end of
`join`, and then the consumer of `worker_`, the last one created, has ended. -/
lemma SoloInv.joined_of_returned (h : SoloInv s) (hmove : Move cfg s a s' out)
    (hret : .stopReturned () true ∈ out) :
    s.current = .exited ∧ (s.control ()).Joining ∧ Stopped s' ∧ s'.processed = s.processed ∧
      ∀ e ∈ out, e.Silent := by
  have hstopped := (h.stopped_iff hmove hret).mp
  obtain ⟨c, d, rfl, hout, hcases⟩ := stop_return_cases hmove hret
  have hsilent : ∀ e ∈ out, e.Silent := by
    intro e he
    rcases hout e he with rfl | rfl <;> trivial
  rcases hcases with ⟨-, -, hfalse, -⟩ | ⟨hpc, hw, -, -⟩ | ⟨w, hpc, hw, hexit, -, rfl⟩
  · cases hfalse
  · exact absurd hw (h.joining (by rw [hpc]; trivial)).2
  · have hcur : s.current = .exited := by
      have := h.owned w hw
      rw [State.current, show s.spawned - 1 = w by omega, hexit]
    refine ⟨hcur, by rw [hpc]; trivial, hstopped ?_, stopReturn_processed .., hsilent⟩
    intro d' hpc'
    rw [hpc] at hpc'
    cases hpc'

/-- **Drain on stop, over any number of cycles.** With one control thread and one producer, and
whatever the order of their steps and those of the consumers, the results delivered so far are
those of the first events accepted, in order. When a `stop()` that found the engine running
returns, the results of all events accepted before it was called are delivered, no consumer runs,
and `events_processed()` is the number of results delivered, modulo `2 ^ 64`.

**Proof sketch.** By `DrainInv`: the accepted events are those evaluated, the one the consumer
holds and those in the ring. When `stop()` has joined, the consumer has ended; so it holds nothing,
and what was accepted before the call is popped. -/
theorem drain_on_stop (hcb : cfg.onResult = true)
    (h : (system cfg Unit).Run CreationSucceeds (system cfg Unit).init es s) :
    reported es <+: (accepted es).map cfg.result ∧
      ∀ a s' out, step cfg s a = some (s', out) → .stopReturned () true ∈ out →
        (∀ es₁, es₁ ++ [.stopCalled ()] <+: es →
          (accepted es₁).map cfg.result <+: reported (es ++ out)) ∧
        (∀ i, s'.workers i = .exited) ∧
        s'.processed = (reported (es ++ out)).length % 2 ^ 64 := by
  obtain ⟨q, hinv⟩ := drainInv_of_run h
  constructor
  · rw [hinv.pipe.accepted_eq, hinv.pipe.popped_eq, List.map_append, List.map_append,
      hinv.pipe.results_eq hcb, List.append_assoc, List.append_assoc]
    exact List.prefix_append ..
  · intro a s' out hstep hret
    obtain ⟨hcur, hjoin, hstopped, hprocessed, hsilent⟩ :=
      hinv.solo.joined_of_returned (move_of_step hstep).1 hret
    obtain ⟨-, -, -, hreported, -⟩ := silent_append hsilent es
    obtain ⟨hpopped, hresults, hcount⟩ := hinv.pipe.settled hcur
    have hall : (popped es).map cfg.result = reported es := by rw [hpopped, hresults hcb]
    refine ⟨?_, hstopped.2, ?_⟩
    · intro es₁ hes
      rw [hreported, ← hall]
      exact (hinv.drained hjoin hcur es₁ hes).map cfg.result
    · rw [hprocessed, hinv.pipe.processed, hreported, ← hall, List.length_map, hpopped, hcount]

/-- An event is submitted, the engine is started and stopped, and the consumer, which finds
`running_` false, takes the event in its second loop and ends. -/
def drainOne : List (Action Unit) :=
  [.callSubmit 7, .stepProducer, .stepProducer, .stepProducer, .stepProducer,
   .callStart (), .stepControl () false, .stepControl () false, .stepControl () false,
   .stepControl () false,
   .callStop (), .stepControl () false, .stepControl () false, .stepControl () false] ++
  List.replicate 10 (.stepWorker 0)

/-- An event submitted before `start()` is reported by the return of `stop()`, although the consumer
took no step while `running_` was true. -/
theorem drain_on_stop_example :
    ∃ s es s', (system numberedEvents Unit).Run CreationSucceeds (system numberedEvents Unit).init
        es s ∧
      step numberedEvents s (.stepControl () false) = some (s', [.stopReturned () true]) ∧
      [numberedEvents.result 7] <+: reported (es ++ [.stopReturned () true]) ∧
      ∀ i, s'.workers i = .exited := by
  have h : ((system numberedEvents Unit).exec CreationSucceeds (system numberedEvents Unit).init
      drainOne).map (fun r => (r.2,
        (step numberedEvents r.1 (.stepControl () false)).map Prod.snd)) =
      some ([.accepted 7, .startReturned (), .stopCalled (), .popped 7, .evaluated 7,
        .reported (numberedEvents.result 7), .counted, .poppedNothing, .exited 0],
        some [.stopReturned () true]) := by rfl
  obtain ⟨s, es, hrun, hv⟩ := System.exists_run_of_exec h
  obtain ⟨rfl, hlast⟩ := Prod.mk.inj hv
  obtain ⟨⟨s', out⟩, hstep, rfl⟩ := Option.map_eq_some_iff.mp hlast
  obtain ⟨hdrained, hexited, -⟩ :=
    (drain_on_stop rfl hrun).2 _ s' _ hstep List.mem_cons_self
  exact ⟨s, _, s', hrun, hstep, hdrained [.accepted 7, .startReturned ()] ⟨_, rfl⟩, hexited⟩

/-! ## The counter of a long run

One event after another is submitted and delivered; how the ring goes round does not matter, only
that it is empty again after each delivery. -/

/-- An engine that was started once, with its consumer at the point `pc`. -/
def working (m : Memory ℕ) (n : ℕ) (producer : Option (PushPc ℕ)) (pc : WorkerPc (PopPc ℕ)) :
    State Unit where
  ring := m
  running := true
  processed := n
  worker := some 0
  workers := Function.update (fun _ => .exited) 0 pc
  spawned := 1
  control := fun _ => .idle
  producer := producer
  life := .alive

section working

variable {m : Memory ℕ} {n : ℕ} {pc : WorkerPc (PopPc ℕ)} {cfg : Config}

/-- Starting the engine. -/
lemma start_run : (system cfg Unit).Run CreationSucceeds (system cfg Unit).init
    [.startReturned ()] (working (Memory.init ℕ) 0 none .checkRunning) := by
  have h : (system cfg Unit).exec CreationSucceeds (system cfg Unit).init
      [.callStart (), .stepControl () false, .stepControl () false, .stepControl () false,
        .stepControl () false] =
      some (working (Memory.init ℕ) 0 none .checkRunning, [.startReturned ()]) := by rfl
  exact System.run_of_exec h

/-- The producer submits an event while the consumer waits. -/
lemma submit_run (ptr : ℕ) (hempty : m.head = m.tail) :
    (system cfg Unit).Run CreationSucceeds (working m n none pc) [.accepted ptr]
      (working ⟨m.head, increment defaultRingCapacity m.tail,
        Function.update m.buffer m.tail ptr⟩ n none pc) := by
  have hne : increment defaultRingCapacity m.tail ≠ m.head := by
    rw [hempty]
    exact increment_ne _ _
  have h : (system cfg Unit).exec CreationSucceeds (working m n none pc)
      [.callSubmit ptr, .stepProducer, .stepProducer, .stepProducer, .stepProducer] =
      some (working ⟨m.head, increment defaultRingCapacity m.tail,
        Function.update m.buffer m.tail ptr⟩ n none pc, [.accepted ptr]) := by
    simp [System.exec, system, step, working, CreationSucceeds, Life.ongoing, submitStep, pushStep,
      Outcome.pcAfter, submitEvents, PushPc.item, hne]
  exact System.run_of_exec h

/-- The consumer takes the only event in the ring, in its main loop. -/
lemma consume_run (hcb : cfg.onResult = true) (hne : m.head ≠ m.tail) :
    (system cfg Unit).Run CreationSucceeds (working m n none .checkRunning)
      [.popped (m.buffer m.head), .evaluated (m.buffer m.head),
        .reported (cfg.result (m.buffer m.head)), .counted]
      (working { m with head := increment defaultRingCapacity m.head } ((n + 1) % 2 ^ 64) none
        .checkRunning) := by
  have h : (system cfg Unit).exec CreationSucceeds (working m n none .checkRunning)
      (List.replicate 8 (.stepWorker 0)) =
      some (working { m with head := increment defaultRingCapacity m.head } ((n + 1) % 2 ^ 64) none
        .checkRunning, [.popped (m.buffer m.head), .evaluated (m.buffer m.head),
        .reported (cfg.result (m.buffer m.head)), .counted]) := by
    simp [System.exec, system, step, working, CreationSucceeds, Life.ongoing, workerStep, popStep,
      afterPop, State.setWorker, Loop.head, List.replicate, hne, hcb]
  exact System.run_of_exec h

/-- The engine is stopped while the ring is empty; the consumer ends, and `stop()` is about to
return.

**Proof sketch.** The seven steps, and the return, are executed. -/
lemma stop_run (hempty : m.head = m.tail) :
    ∃ s, (system cfg Unit).Run CreationSucceeds (working m n none .checkRunning)
      [.stopCalled (), .poppedNothing, .exited 0] s ∧
      ∃ s', step cfg s (.stepControl () false) = some (s', [.stopReturned () true]) ∧
        s'.processed = n := by
  have h : ((system cfg Unit).exec CreationSucceeds (working m n none .checkRunning)
      [.callStop (), .stepControl () false, .stepControl () false, .stepControl () false,
        .stepWorker 0, .stepWorker 0, .stepWorker 0]).map (fun r => (r.2,
          (step cfg r.1 (.stepControl () false)).map fun r => (r.1.processed, r.2))) =
      some ([.stopCalled (), .poppedNothing, .exited 0], some (n, [.stopReturned () true])) := by
    simp [System.exec, system, step, call, working, CreationSucceeds, Life.ongoing, controlStep,
      stopStep, State.setControl, workerStep, popStep, afterPop, State.setWorker, stopReturn,
      hempty]
  obtain ⟨s, es, hrun, hv⟩ := System.exists_run_of_exec h
  obtain ⟨rfl, hlast⟩ := Prod.mk.inj hv
  obtain ⟨⟨s', out⟩, hstep, hout⟩ := Option.map_eq_some_iff.mp hlast
  obtain ⟨rfl, rfl⟩ := Prod.mk.inj hout
  exact ⟨s, hrun, s', hstep, rfl⟩

/-- An engine whose ring is empty may deliver any number of results.

**Proof sketch.** Induction on the number of results. A further result is a `submit()` to the empty
ring and a round of the consumer, which leave the ring empty again. -/
lemma deliver_run (hcb : cfg.onResult = true) (k : ℕ) :
    ∃ (m : Memory ℕ) (es : List (Event Unit)), m.head = m.tail ∧ (reported es).length = k ∧
      (system cfg Unit).Run CreationSucceeds (system cfg Unit).init es
        (working m (k % 2 ^ 64) none .checkRunning) := by
  induction k with
  | zero => exact ⟨Memory.init ℕ, [.startReturned ()], rfl, rfl, start_run⟩
  | succ k ih =>
    obtain ⟨m, es, hempty, hlength, hrun⟩ := ih
    have hne : m.head ≠ increment defaultRingCapacity m.tail := by
      rw [hempty]
      exact Ne.symm (increment_ne _ _)
    have hround := (hrun.append (submit_run 0 hempty)).append (consume_run hcb hne)
    rw [Nat.mod_add_mod] at hround
    refine ⟨_, _, ?_, ?_, hround⟩
    · show increment defaultRingCapacity m.head = increment defaultRingCapacity m.tail
      rw [hempty]
    · rw [reported_append, reported_append, List.length_append, List.length_append, hlength]
      rfl

end working

/-- **The counter wraps**: after `2 ^ 64` results were delivered, a `stop()` that found the engine
running returns with `processed_` zero. -/
theorem processed_wraps :
    ¬ ∀ es s a s' out,
      (system numberedEvents Unit).Run CreationSucceeds (system numberedEvents Unit).init es s →
      step numberedEvents s a = some (s', out) → .stopReturned () true ∈ out →
      s'.processed = (reported (es ++ out)).length := by
  intro hall
  obtain ⟨m, es, hempty, hlength, hrun⟩ := @deliver_run numberedEvents rfl (2 ^ 64)
  obtain ⟨s, hstop, s', hstep, hprocessed⟩ := stop_run (n := 2 ^ 64 % 2 ^ 64) hempty
  have hcount := hall _ s _ s' _ (hrun.append hstop) hstep List.mem_cons_self
  have hsame : reported (es ++ [.stopCalled (), .poppedNothing, .exited 0] ++
      [.stopReturned () true]) = reported es := by
    rw [reported_append, reported_append]
    exact (List.append_nil _).trans (List.append_nil _)
  rw [hprocessed, hsame, hlength, Nat.mod_self] at hcount
  exact absurd hcount (by decide)

end NullRing.Engine
