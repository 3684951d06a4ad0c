import NullRing.Engine.Control
import NullRing.Engine.Handled
import NullRing.RingBuffer.Contents

set_option relaxedAutoImplicit false
set_option autoImplicit false

/-!
# What becomes of a submitted event

With one consumer at a time, the events accepted by `submit()` are, in order, those popped from
the ring followed by those in it; those popped are the ones evaluated and at most one that the
consumer holds; and the results of those evaluated are the ones reported to the callback and at
most one that the consumer is about to report. The consumer never touches an event out of turn,
whichever of its two loops it is in.

## Main definitions

* `Engine.PipeInv` — the invariant.

## Main results

* `Engine.PipeInv.step` — the step lemma.
-/

namespace NullRing.Engine

open RingBuffer Transition

variable {Thread : Type} {es : List (Event Thread)}

/-- What `try_pop()` relies on, if the consumer is in it. -/
def WorkerPc.PopOk (m : Memory ℕ) (q : List ℕ) : WorkerPc (PopPc ℕ) → Prop
  | .popping _ pc => RingBuffer.PopOk m q pc
  | _ => True

/-- The consumer created last, the only one that may run. -/
def State.current (s : State Thread) : WorkerPc (PopPc ℕ) := s.workers (s.spawned - 1)

/-- The invariant of the events: after the events `es` the ring holds the queue `q`. -/
structure PipeInv (cfg : Config) (es : List (Event Thread)) (q : List ℕ) (s : State Thread) :
    Prop extends Handled cfg es s.current where
  stores : ∃ n, Stores defaultRingCapacity s.ring n q
  producer : ∀ pc, s.producer = some pc → PushOk defaultRingCapacity s.ring q pc
  consumer : s.current.PopOk s.ring q
  accepted_eq : accepted es = popped es ++ q
  processed : s.processed = counted es % 2 ^ 64

variable {cfg : Config} {s s' : State Thread} {a : Action Thread} {out : List (Event Thread)}
  {q : List ℕ} {t : Thread} {id : ℕ}

/-- With one consumer at a time, a consumer that runs is the current one. -/
lemma ControlInv.current_eq (h : ControlInv s) (hid : s.workers id ≠ .exited) :
    s.current = s.workers id := by
  have := (h.consumer id hid).1
  rw [State.current, show s.spawned - 1 = id by omega]

/-- The program point of the current consumer after it has moved. -/
lemma ControlInv.current_setWorker (h : ControlInv s) (hid : s.workers id ≠ .exited)
    {s₁ : State Thread} (hspawned : s₁.spawned = s.spawned)
    (pc : WorkerPc (PopPc ℕ)) :
    (s₁.setWorker id pc).current = pc := by
  have := (h.consumer id hid).1
  show Function.update s₁.workers id pc (s₁.spawned - 1) = pc
  rw [hspawned, show s.spawned - 1 = id by omega, Function.update_self]

namespace PipeInv

/-- Nothing is seen of the events, and the consumer comes to a point where it holds nothing
else than before. -/
lemma silent (h : PipeInv cfg es q s) (hring : s'.ring = s.ring)
    (hproducer : ∀ pc, s'.producer = some pc → PushOk defaultRingCapacity s.ring q pc)
    (hprocessed : s'.processed = s.processed) (hpop : s'.current.PopOk s.ring q)
    (hheld : s'.current.held = s.current.held) (hpending : s'.current.pending = s.current.pending)
    (huncounted : s'.current.uncounted = s.current.uncounted) (hout : ∀ e ∈ out, e.Silent) :
    PipeInv cfg (es ++ out) q s' := by
  obtain ⟨h1, h2, -, -, h5⟩ := silent_append hout es
  refine ⟨h.toHandled.silent hout hheld hpending huncounted, ?_, ?_, ?_, ?_, ?_⟩
  · rw [hring]; exact h.stores
  · rw [hring]; exact hproducer
  · rw [hring]; exact hpop
  · rw [h1, h2]; exact h.accepted_eq
  · rw [h5, hprocessed]; exact h.processed

/-- A control thread moves, and the consumers stay where they are. -/
lemma control (h : PipeInv cfg es q s) (hring : s'.ring = s.ring)
    (hproducer : s'.producer = s.producer) (hprocessed : s'.processed = s.processed)
    (hworkers : s'.workers = s.workers) (hspawned : s'.spawned = s.spawned)
    (hout : ∀ e ∈ out, e.Silent) : PipeInv cfg (es ++ out) q s' := by
  have hcurrent : s'.current = s.current := by
    rw [State.current, State.current, hworkers, hspawned]
  exact h.silent hring (by rw [hproducer]; exact h.producer) hprocessed
    (by rw [hcurrent]; exact h.consumer) (by rw [hcurrent]) (by rw [hcurrent]) (by rw [hcurrent])
    hout

end PipeInv

/-! ## The steps of the producer and of the consumer -/

/-- The events that `submit()` accepts are those pushed. -/
lemma accepted_submitEvents (Thread : Type) (pc : PushPc ℕ) (o : Outcome (PushPc ℕ) Bool) :
    accepted (submitEvents pc o : List (Event Thread)) = BoundedQueue.pushes (pushEvents pc o) ∧
      BoundedQueue.pops (pushEvents pc o) = [] := by
  rcases o with next | _ | _
  · cases next <;> exact ⟨rfl, rfl⟩
  · exact ⟨rfl, rfl⟩
  · exact ⟨rfl, rfl⟩

/-- The pointers that the consumer gets are those popped. -/
lemma popped_afterPop (Thread : Type) (id : ℕ) (loop : Loop)
    (o : Outcome (PopPc ℕ) (Option ℕ)) :
    popped (afterPop id loop o : WorkerPc (PopPc ℕ) × List (Event Thread)).2 =
        BoundedQueue.pops (popEvents o) ∧
      BoundedQueue.pushes (popEvents o) = [] := by
  rcases o with next | _ | ptr
  · cases next <;> exact ⟨rfl, rfl⟩
  · cases loop <;> exact ⟨rfl, rfl⟩
  · exact ⟨rfl, rfl⟩

/-- Where a consumer goes from `try_pop()`, it relies on what `try_pop()` relies on. -/
lemma popOk_afterPop {m : Memory ℕ} {loop : Loop} {o : Outcome (PopPc ℕ) (Option ℕ)}
    (h : o.Next (RingBuffer.PopOk m q)) :
    (afterPop id loop o : WorkerPc (PopPc ℕ) × List (Event Thread)).1.PopOk m q := by
  rcases o with pc | _ | ptr
  · exact h
  · cases loop <;> trivial
  · trivial

namespace PipeInv

/-- A step of `submit()`.

**Proof sketch.** The step is a run of the bounded queue that shows the event accepted, if any
(`pushStep_spec`), so the ring's contents grow by it as the events accepted do. The consumer's step
of `try_pop` stays valid, and of what a consumer does nothing is shown. -/
lemma submit (h : PipeInv cfg es q s) {pc : PushPc ℕ} (hp : s.producer = some pc) :
    ∃ q', PipeInv cfg (es ++ submitEvents pc (pushStep defaultRingCapacity s.ring pc).2) q'
      { s with ring := (pushStep defaultRingCapacity s.ring pc).1,
               producer := (pushStep defaultRingCapacity s.ring pc).2.pcAfter } := by
  obtain ⟨n, hstores⟩ := h.stores
  obtain ⟨q', hrun, hstores', hnext, hkeep⟩ := pushStep_spec hstores (h.producer pc hp)
  obtain ⟨haccepted, hpops⟩ := accepted_submitEvents Thread pc
    (pushStep defaultRingCapacity s.ring pc).2
  obtain ⟨hpopped, -, -, hcounted⟩ := submitEvents_shows Thread pc
    (pushStep defaultRingCapacity s.ring pc).2
  have hconserve := BoundedQueue.run_conserves hrun
  rw [hpops, List.nil_append] at hconserve
  refine ⟨q', h.toHandled.submit pc _, ⟨n, hstores'⟩, ?_, ?_, ?_, ?_⟩
  · intro pc' hpc'
    rcases ho : (pushStep defaultRingCapacity s.ring pc).2 with next | r
    · rw [ho] at hnext hpc'
      cases hpc'
      exact hnext
    · rw [ho] at hpc'
      cases hpc'
  · show s.current.PopOk _ _
    have hpop := h.consumer
    cases hcur : s.current with
    | popping loop pc' =>
      rw [hcur] at hpop
      exact hkeep pc' hpop
    | _ => trivial
  · rw [accepted_append, popped_append, haccepted, hpopped, List.append_nil, h.accepted_eq,
      List.append_assoc, hconserve]
  · rw [counted_append, hcounted]
    exact h.processed

/-- The consumer `id` comes to the point `pc`. -/
lemma worker (hctl : ControlInv s) (hid : s.workers id ≠ .exited) {s₁ : State Thread}
    {pc : WorkerPc (PopPc ℕ)} (hspawned : s₁.spawned = s.spawned)
    (hstores : ∃ n, Stores defaultRingCapacity s₁.ring n q)
    (hproducer : ∀ pc, s₁.producer = some pc → PushOk defaultRingCapacity s₁.ring q pc)
    (hpop : pc.PopOk s₁.ring q) (haccepted : accepted es = popped es ++ q)
    (hhandled : Handled cfg es pc) (hprocessed : s₁.processed = counted es % 2 ^ 64) :
    PipeInv cfg es q (s₁.setWorker id pc) := by
  have hnew : (s₁.setWorker id pc).current = pc := hctl.current_setWorker hid hspawned pc
  exact {
    toHandled := by rw [hnew]; exact hhandled
    stores := hstores
    producer := hproducer
    consumer := by rw [hnew]; exact hpop
    accepted_eq := haccepted
    processed := hprocessed }

/-- The consumer comes to a point where it holds nothing else than before, and nothing is
seen. -/
lemma workerSilent (h : PipeInv cfg es q s) (hctl : ControlInv s) 
    {pc pc' : WorkerPc (PopPc ℕ)}
    (hpc : s.workers id = pc) (hid : pc ≠ .exited) (hpop : pc'.PopOk s.ring q)
    (hheld : pc'.held = pc.held) (hpending : pc'.pending = pc.pending)
    (huncounted : pc'.uncounted = pc.uncounted) :
    PipeInv cfg (es ++ []) q (s.setWorker id pc') := by
  have hid' : s.workers id ≠ .exited := by rwa [hpc]
  have hcur : s.current = pc := (hctl.current_eq hid').trans hpc
  have hnew : (s.setWorker id pc').current = pc' := hctl.current_setWorker hid' rfl pc'
  exact h.silent rfl h.producer rfl (by rwa [hnew]) (by rw [hnew, hcur, hheld])
    (by rw [hnew, hcur, hpending]) (by rw [hnew, hcur, huncounted]) nofun

/-- A consumer that runs has done with the events what its point says. -/
lemma handled_of_running (h : PipeInv cfg es q s) (hctl : ControlInv s)
    {pc : WorkerPc (PopPc ℕ)} (hpc : s.workers id = pc) (hid : pc ≠ .exited) :
    Handled cfg es pc := by
  have hhandled := h.toHandled
  rwa [hctl.current_eq (by rwa [hpc]), hpc] at hhandled

/-- A step of `try_pop()`.

**Proof sketch.** The step is a run of the bounded queue that shows the event popped, if any
(`popStep_spec`), so the ring's contents lose it and the events popped gain it; the consumer holds
it (`Handled.pop`). -/
lemma pop (h : PipeInv cfg es q s) (hctl : ControlInv s) {loop : Loop} {pc : PopPc ℕ}
    (hpc : s.workers id = .popping loop pc) :
    ∃ q', PipeInv cfg
      (es ++ (afterPop id loop (popStep defaultRingCapacity s.ring pc).2).2) q'
      ({ s with ring := (popStep defaultRingCapacity s.ring pc).1 }.setWorker id
        (afterPop id loop (popStep defaultRingCapacity s.ring pc).2 :
          WorkerPc (PopPc ℕ) × List (Event Thread)).1) := by
  have hid : s.workers id ≠ .exited := by rw [hpc]; nofun
  obtain ⟨n, hstores⟩ := h.stores
  have hpop := h.consumer
  rw [hctl.current_eq hid, hpc] at hpop
  obtain ⟨n', q', hrun, hstores', hnext, hkeep⟩ := popStep_spec hstores hpop
  obtain ⟨hpopped, hpushes⟩ := popped_afterPop Thread id loop
    (popStep defaultRingCapacity s.ring pc).2
  obtain ⟨haccepted, -, -, hcounted⟩ := afterPop_shows Thread id loop
    (popStep defaultRingCapacity s.ring pc).2
  have hconserve := BoundedQueue.run_conserves hrun
  rw [hpushes, List.append_nil] at hconserve
  refine ⟨q', worker hctl hid rfl ⟨n', hstores'⟩ (fun pc' hp => hkeep pc' (h.producer pc' hp))
    (popOk_afterPop hnext) ?_ ((h.handled_of_running hctl hpc nofun).pop id _) ?_⟩
  · rw [accepted_append, popped_append, hpopped, haccepted, List.append_nil, h.accepted_eq,
      hconserve, List.append_assoc]
  · rw [counted_append, hcounted]
    exact h.processed

/-- The consumer does something with the event that it holds. -/
lemma handle (h : PipeInv cfg es q s) (hctl : ControlInv s) (hid : s.workers id ≠ .exited)
    {pc : WorkerPc (PopPc ℕ)} (hpop : pc.PopOk s.ring q) (haccepted : accepted out = [])
    (hpopped : popped out = []) (hhandled : Handled cfg (es ++ out) pc) {n : ℕ}
    (hn : n = counted (es ++ out) % 2 ^ 64) :
    PipeInv cfg (es ++ out) q ({ s with processed := n }.setWorker id pc) := by
  refine worker hctl hid rfl h.stores h.producer hpop ?_ hhandled hn
  rw [accepted_append, popped_append, haccepted, hpopped, List.append_nil, List.append_nil]
  exact h.accepted_eq

/-- Nothing is counted. -/
lemma processed_append (h : PipeInv cfg es q s) (hout : counted out = 0) :
    s.processed = counted (es ++ out) % 2 ^ 64 := by
  rw [counted_append, hout]
  exact h.processed

/-- The evaluation of an event. -/
lemma evaluate (h : PipeInv cfg es q s) (hctl : ControlInv s) {loop : Loop} {ptr : ℕ}
    (hpc : s.workers id = .evaluating loop ptr) :
    PipeInv cfg (es ++ [.evaluated ptr]) q
      (s.setWorker id (.reporting loop (cfg.result ptr))) :=
  h.handle hctl (by rw [hpc]; nofun) (by trivial) rfl rfl
    (h.handled_of_running hctl hpc nofun).evaluate (h.processed_append rfl)

/-- The callback, if there is one. -/
lemma report (h : PipeInv cfg es q s) (hctl : ControlInv s) {loop : Loop} {result : RiskResult}
    (hpc : s.workers id = .reporting loop result) :
    PipeInv cfg (es ++ if cfg.onResult then [.reported result] else []) q
      (s.setWorker id (.counting loop)) := by
  refine h.handle hctl (by rw [hpc]; nofun) (by trivial) ?_ ?_
    (h.handled_of_running hctl hpc nofun).report (h.processed_append ?_) <;> split <;> rfl

/-- The increment of `processed_`. -/
lemma count (h : PipeInv cfg es q s) (hctl : ControlInv s) {loop : Loop}
    (hpc : s.workers id = .counting loop) :
    PipeInv cfg (es ++ [.counted]) q
      ({ s with processed := (s.processed + 1) % 2 ^ 64 }.setWorker id
        (loop.head .loadHead)) := by
  refine h.handle hctl (by rw [hpc]; nofun) (by cases loop <;> trivial) rfl rfl
    ((h.handled_of_running hctl hpc nofun).count _) ?_
  rw [counted_append, h.processed, Nat.mod_add_mod]
  rfl

/-- The creation of a consumer. -/
lemma create (h : PipeInv cfg es q s) (hexited : s.current = .exited) (pc : ControlPc)
    [DecidableEq Thread] :
    PipeInv cfg (es ++ []) q
      ({ s with workers := Function.update s.workers s.spawned .checkRunning,
                spawned := s.spawned + 1 }.setControl t pc) := by
  have hnew : ({ s with workers := Function.update s.workers s.spawned .checkRunning,
                        spawned := s.spawned + 1 }.setControl t pc).current = .checkRunning :=
    Function.update_self ..
  refine h.silent rfl h.producer rfl ?_ ?_ ?_ ?_ nofun
  · rw [hnew]; trivial
  · rw [hnew, hexited]; rfl
  · rw [hnew, hexited]; rfl
  · rw [hnew, hexited]; rfl

end PipeInv

/-- The return of `stop()` shows nothing of the events. -/
lemma silent_of_stopReturn [DecidableEq Thread] {d found : Bool} :
    ∀ e ∈ (stopReturn s t d found).2, e.Silent := by
  intro e he
  rcases mem_stopReturn he with rfl | rfl <;> trivial

/-- When `start()` is about to create a thread, no consumer runs. -/
lemma ControlInv.current_of_createThread (h : ControlInv s)
    (hpc : s.control t = .starting .createThread) : s.current = .exited := by
  by_contra hne
  have hassign := h.assigned_of_passed (t := t) (by rw [hpc]; trivial) hne
  rw [hpc] at hassign
  cases hassign

/-- **The step lemma**: with one consumer at a time, every step keeps the invariant.

**Proof sketch.** The steps of the producer and of the consumer are the lemmas above. The other
steps show nothing of the events and leave the ring and the consumers alone, except for the
creation of a consumer, before which none runs. -/
theorem PipeInv.step [DecidableEq Thread] (h : PipeInv cfg es q s) (hctl : ControlInv s)
    (hmove : Move cfg s a s' out) : ∃ q', PipeInv cfg (es ++ out) q' s' := by
  have hstop : ∀ {s₁ : State Thread} {t : Thread} {d b : Bool}, s₁.ring = s.ring →
      s₁.producer = s.producer → s₁.processed = s.processed → s₁.workers = s.workers →
      s₁.spawned = s.spawned →
      PipeInv cfg (es ++ (stopReturn s₁ t d b).2) q (stopReturn s₁ t d b).1 :=
    fun h1 h2 h3 h4 h5 => h.control ((stopReturn_ring ..).trans h1)
      ((stopReturn_producer ..).trans h2) ((stopReturn_processed ..).trans h3)
      ((stopReturn_workers ..).trans h4) ((stopReturn_spawned ..).trans h5) silent_of_stopReturn
  cases hmove with
  | callStart _ _ => exact ⟨q, h.control rfl rfl rfl rfl rfl nofun⟩
  | callStop _ _ => exact ⟨q, h.control rfl rfl rfl rfl rfl (by simp [Event.Silent])⟩
  | callDestructor _ _ => exact ⟨q, h.control rfl rfl rfl rfl rfl (by simp [Event.Silent])⟩
  | startFound _ _ => exact ⟨q, h.control rfl rfl rfl rfl rfl (by simp [Event.Silent])⟩
  | startPass _ _ => exact ⟨q, h.control rfl rfl rfl rfl rfl nofun⟩
  | startStore _ => exact ⟨q, h.control rfl rfl rfl rfl rfl nofun⟩
  | createThrow _ => exact ⟨q, h.control rfl rfl rfl rfl rfl (by simp [Event.Silent])⟩
  | create hpc => exact ⟨q, h.create (hctl.current_of_createThread hpc) _⟩
  | assignJoinable _ _ => exact ⟨q, h.control rfl rfl rfl rfl rfl nofun⟩
  | assign _ _ => exact ⟨q, h.control rfl rfl rfl rfl rfl (by simp [Event.Silent])⟩
  | stopIdle _ _ => exact ⟨q, hstop rfl rfl rfl rfl rfl⟩
  | stopPass _ _ => exact ⟨q, h.control rfl rfl rfl rfl rfl nofun⟩
  | stopStore _ => exact ⟨q, h.control rfl rfl rfl rfl rfl nofun⟩
  | notJoinable _ _ => exact ⟨q, hstop rfl rfl rfl rfl rfl⟩
  | isJoinable _ _ => exact ⟨q, h.control rfl rfl rfl rfl rfl nofun⟩
  | joinThrow _ _ => exact ⟨q, h.control rfl rfl rfl rfl rfl (by simp [Event.Silent])⟩
  | destructorThrow _ _ => exact ⟨q, h.control rfl rfl rfl rfl rfl (by simp [Event.Silent])⟩
  | joined _ _ _ => exact ⟨q, hstop rfl rfl rfl rfl rfl⟩
  | @callSubmit ptr hp =>
    refine ⟨q, h.silent rfl ?_ rfl h.consumer rfl rfl rfl nofun⟩
    intro pc hpc
    cases hpc
    trivial
  | submit hp => exact h.submit hp
  | checkMain hpc _ => exact ⟨q, h.workerSilent hctl hpc nofun trivial rfl rfl rfl⟩
  | checkDrain hpc _ => exact ⟨q, h.workerSilent hctl hpc nofun trivial rfl rfl rfl⟩
  | pop hpc => exact h.pop hctl hpc
  | evaluate hpc => exact ⟨q, h.evaluate hctl hpc⟩
  | report hpc => exact ⟨q, h.report hctl hpc⟩
  | count hpc => exact ⟨q, h.count hctl hpc⟩
  | yield hpc => exact ⟨q, h.workerSilent hctl hpc nofun trivial rfl rfl rfl⟩

/-- The invariant holds after the constructor. -/
lemma pipeInv_init (cfg : Config) (Thread : Type) : PipeInv cfg [] [] (State.init Thread) where
  stores := ⟨0, stores_init _⟩
  producer := nofun
  consumer := trivial
  accepted_eq := rfl
  popped_eq := rfl
  results_eq := fun _ => rfl
  count_eq := rfl
  processed := rfl

/-! ## The current consumer -/

/-- The current consumer stays where it is, or has just been created, or takes the step.

**Proof sketch.** By cases on the step; the creation of a thread makes it the current one, and the
steps of a consumer are its own. -/
lemma Move.current_cases [DecidableEq Thread] (hmove : Move cfg s a s' out) :
    s'.current = s.current ∨
      (∃ t, s.control t = .starting .createThread ∧ s'.current = .checkRunning) ∨
      ∃ id, a = .stepWorker id ∧ s.workers id ≠ .exited := by
  have hstop : ∀ {s₁ : State Thread} {t : Thread} {d b : Bool},
      (stopReturn s₁ t d b).1.current = s₁.current := by
    intro s₁ t d b
    rw [State.current, State.current, stopReturn_workers, stopReturn_spawned]
  cases hmove with
  | create hpc => exact Or.inr (Or.inl ⟨_, hpc, Function.update_self ..⟩)
  | stopIdle _ _ => exact Or.inl hstop
  | notJoinable _ _ => exact Or.inl hstop
  | joined _ _ _ => exact Or.inl hstop
  | checkMain hpc _ | checkDrain hpc _ => exact Or.inr (Or.inr ⟨_, rfl, by rw [hpc]; nofun⟩)
  | pop hpc | evaluate hpc | report hpc | count hpc | yield hpc =>
    exact Or.inr (Or.inr ⟨_, rfl, by rw [hpc]; nofun⟩)
  | _ => exact Or.inl rfl

/-- After a step of a running consumer, it is the current one. -/
lemma Move.current_of_stepWorker [DecidableEq Thread] (hctl : ControlInv s)
    (hmove : Move cfg s (.stepWorker id) s' out) (hid : s.workers id ≠ .exited) :
    s'.current = s'.workers id := by
  have hspawned : s'.spawned = s.spawned := by cases hmove <;> rfl
  have := (hctl.consumer id hid).1
  rw [State.current, hspawned, show s.spawned - 1 = id by omega]

/-- A consumer that is not running stays so until one is created. -/
lemma current_exited_step [DecidableEq Thread] (hctl : ControlInv s)
    (hmove : Move cfg s a s' out) (hexit : s.current = .exited) :
    s'.current = .exited ∨ ∃ t, s.control t = .starting .createThread := by
  rcases hmove.current_cases with hsame | ⟨t, hpc, -⟩ | ⟨id, -, hid⟩
  · exact Or.inl (hsame.trans hexit)
  · exact Or.inr ⟨t, hpc⟩
  · exact absurd ((hctl.current_eq hid).symm.trans hexit) hid

/-- While `running_` is true, a consumer in its main loop stays there.

**Proof sketch.** Only a step of that consumer changes it, or the creation of another, which starts
in its main loop. Of its own steps only the check of `running_` leads out of the main loop, when it
finds `false`. -/
lemma inMain_step [DecidableEq Thread] (hctl : ControlInv s) (hmove : Move cfg s a s' out)
    (hrun : s.running = true) (hmain : s.current.InMain) : s'.current.InMain := by
  rcases hmove.current_cases with hsame | ⟨t, -, hnew⟩ | ⟨id, rfl, hid⟩
  · rwa [hsame]
  · rw [hnew]
    trivial
  · rw [hctl.current_eq hid] at hmain
    rw [hmove.current_of_stepWorker hctl hid]
    cases hmove with
    | checkMain _ _ => rw [setWorker_self]; rfl
    | checkDrain _ hstop =>
      rw [hrun] at hstop
      cases hstop
    | pop hpc =>
      rw [setWorker_self]
      rw [hpc] at hmain
      exact inMain_afterPop hmain _
    | evaluate hpc => rw [setWorker_self]; rw [hpc] at hmain; exact hmain
    | report hpc => rw [setWorker_self]; rw [hpc] at hmain; exact hmain
    | count hpc =>
      rw [setWorker_self]
      rw [hpc] at hmain
      obtain rfl : _ = Loop.main := hmain
      trivial
    | yield _ => rw [setWorker_self]; trivial

/-- `try_pop()` finds the ring empty when it returns nothing. -/
lemma popStep_none {m : Memory ℕ} {pc : PopPc ℕ} (hpop : RingBuffer.PopOk m q pc)
    (h : (popStep defaultRingCapacity m pc).2 = .ret none) :
    (popStep defaultRingCapacity m pc).1 = m ∧ m.head = m.tail := by
  cases pc with
  | loadHead => cases h
  | loadTail currentHead =>
    obtain rfl : currentHead = m.head := hpop
    by_cases heq : m.head = m.tail
    · exact ⟨by rw [popStep, if_pos heq], heq⟩
    · rw [popStep, if_neg heq] at h
      cases h
  | readSlot currentHead => cases h
  | storeHead currentHead ptr => cases h

/-- When no consumer runs, what was popped is evaluated, reported and counted. -/
lemma PipeInv.settled (h : PipeInv cfg es q s) (hexit : s.current = .exited) :
    popped es = evaluated es ∧ (cfg.onResult = true → (evaluated es).map cfg.result = reported es) ∧
      (evaluated es).length = counted es := by
  have hhandled := h.toHandled
  rw [hexit] at hhandled
  exact hhandled.settled

/-- **A consumer leaves its loops only when the ring is empty.**

**Proof sketch.** The step is the consumer's, and of its steps only an unsuccessful `try_pop` in the
second loop ends it; that one has found the indices equal and left the ring alone. -/
theorem exit_of_empty [DecidableEq Thread] (h : PipeInv cfg es q s) (hctl : ControlInv s)
    (hmove : Move cfg s a s' out) (halive : s.current ≠ .exited) (hexit : s'.current = .exited) :
    s'.ring = s.ring ∧ s.ring.head = s.ring.tail := by
  rcases hmove.current_cases with hsame | ⟨t, -, hnew⟩ | ⟨id, rfl, hid⟩
  · exact absurd (hsame.symm.trans hexit) halive
  · rw [hnew] at hexit
    cases hexit
  · rw [hmove.current_of_stepWorker hctl hid] at hexit
    cases hmove with
    | pop hpc =>
      have hpop := h.consumer
      rw [hctl.current_eq hid, hpc] at hpop
      rw [setWorker_self] at hexit
      rcases ho : (popStep defaultRingCapacity s.ring _).2 with _ | _ | _
      · rw [ho] at hexit
        cases hexit
      · exact popStep_none hpop ho
      · rw [ho] at hexit
        cases hexit
    | count _ =>
      rw [setWorker_self] at hexit
      rename_i loop _
      cases loop <;> cases hexit
    | checkMain _ _ | checkDrain _ _ => rw [setWorker_self] at hexit; cases hexit
    | evaluate _ | report _ | yield _ => rw [setWorker_self] at hexit; cases hexit

end NullRing.Engine
