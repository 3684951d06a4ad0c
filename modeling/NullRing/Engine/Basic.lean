import NullRing.Evaluator.Basic
import NullRing.RingBuffer.Basic

set_option relaxedAutoImplicit false
set_option autoImplicit false

/-!
# The engine

The class `GammaEngine` of `include/engine.hpp` and `src/engine.cpp`, cut into the atomic steps
of its calls and of its consumer thread: every load or store of `running_`, every step of
`submit` and `try_pop` on the ring, every evaluation, callback and increment of `processed_`,
and every operation on the thread object `worker_` is one step. Thread objects behave as
`std::thread` does: a thread starts running when it is created, an assignment to a joinable
thread object and the destruction of one terminate the process, `join` waits for the thread to
end and throws when there is none to wait for, and the creation of a thread may throw. A callback
returns normally.

The system at the end of the file runs any number of control threads, which call `start()` and
`stop()`, one producer thread, which calls `submit()`, and the consumer threads that are
created. The destructor is called once, and no control thread makes a call after it.

## Main definitions

* `Engine.State`, `Engine.Config` — the data members, and what the engine is constructed with.
* `Engine.startStep`, `Engine.stopStep` — `start()`, and `stop()` with the destructor.
* `Engine.submitStep` — `submit()`.
* `Engine.workerStep` — `consumer_loop()`.
* `Engine.system` — the threads of an engine.
-/

namespace NullRing.Engine

open RingBuffer Transition

/-- `DEFAULT_RING_CAPACITY`. -/
def defaultRingCapacity : Capacity := ⟨65536, by decide, by decide, by decide⟩

/-- What an engine is constructed with, and the events the submitted pointers point to, which
nobody modifies. -/
structure Config where
  /-- The event behind a pointer. -/
  event : ℕ → RiskEvent
  /-- Whether `on_result_` holds a callback. -/
  onResult : Bool

/-- The result of the event behind a pointer. -/
def Config.result (cfg : Config) (ptr : ℕ) : RiskResult := RiskEvaluator.evaluate (cfg.event ptr)

/-- An engine with a callback, whose pointers point to events with their own number, at a price
of one and a quantity of ten. -/
def numberedEvents : Config where
  event := fun ptr => ⟨UInt64.ofNat ptr, RiskEvaluator.pennyThreshold, RiskEvaluator.tinyQty⟩
  onResult := true

/-- The two loops of `consumer_loop()`. -/
inductive Loop
  | main
  | drain
  deriving DecidableEq, Repr

/-- The program points of `consumer_loop()`, over those of its `try_pop()`, `Pop`. -/
inductive WorkerPc (Pop : Type)
  /-- About to load `running_`. -/
  | checkRunning
  /-- In `try_pop()`. -/
  | popping (loop : Loop) (pc : Pop)
  /-- About to dereference the pointer and evaluate the event. -/
  | evaluating (loop : Loop) (ptr : ℕ)
  /-- About to invoke the callback, if there is one. -/
  | reporting (loop : Loop) (result : RiskResult)
  /-- About to increment `processed_`. -/
  | counting (loop : Loop)
  /-- About to yield. -/
  | yielding
  /-- Out of `consumer_loop()`. -/
  | exited
  deriving DecidableEq, Repr

/-- The program points of `start()`. -/
inductive StartPc
  | checkRunning
  | storeRunning
  | createThread
  /-- About to assign the new thread to `worker_`. -/
  | assignWorker (id : ℕ)
  deriving DecidableEq, Repr

/-- The program points of `stop()`. -/
inductive StopPc
  | checkRunning
  | storeRunning
  | testJoinable
  | join
  deriving DecidableEq, Repr

/-- What a control thread is doing. -/
inductive ControlPc
  | idle
  | starting (pc : StartPc)
  /-- In `stop()`, called by the destructor or not. -/
  | stopping (destructor : Bool) (pc : StopPc)
  deriving DecidableEq, Repr

/-- Why `std::terminate` was called. -/
inductive Cause
  /-- `worker_` was assigned to while joinable. -/
  | assignedJoinable
  /-- `worker_` was destroyed while joinable. -/
  | destroyedJoinable
  /-- `stop()` threw in the destructor. -/
  | threwInDestructor
  deriving DecidableEq, Repr

/-- The life of the engine object. -/
inductive Life
  | alive
  /-- In the destructor. -/
  | destroying
  | destroyed
  | terminated (cause : Cause)
  deriving DecidableEq, Repr

/-- Whether the program still runs and the object exists. -/
def Life.ongoing : Life → Bool
  | .alive => true
  | .destroying => true
  | .destroyed => false
  | .terminated _ => false

/-- An engine and its threads. The consumer threads are numbered in the order of their
creation; those that do not exist are `exited`. -/
structure State (Thread : Type) where
  /-- `ring_`. -/
  ring : Memory ℕ
  /-- `running_`. -/
  running : Bool
  /-- `processed_`, a `std::uint64_t`. -/
  processed : ℕ
  /-- `worker_`: the thread it owns, when it is joinable. -/
  worker : Option ℕ
  /-- The consumer threads. -/
  workers : ℕ → WorkerPc (PopPc ℕ)
  /-- How many consumer threads were created. -/
  spawned : ℕ
  control : Thread → ControlPc
  /-- The producer, when it is in `submit()`. -/
  producer : Option (PushPc ℕ)
  life : Life

/-- The constructor. -/
def State.init (Thread : Type) : State Thread where
  ring := Memory.init ℕ
  running := false
  processed := 0
  worker := none
  workers := fun _ => .exited
  spawned := 0
  control := fun _ => .idle
  producer := none
  life := .alive

/-- A call, or the next step of a thread. -/
inductive Action (Thread : Type)
  | callStart (t : Thread)
  | callStop (t : Thread)
  | callDestructor (t : Thread)
  /-- A control thread takes a step; if it is the creation of a thread, it may throw. -/
  | stepControl (t : Thread) (createThrows : Bool)
  | callSubmit (ptr : ℕ)
  | stepProducer
  | stepWorker (id : ℕ)
  deriving DecidableEq, Repr

/-- What is seen of a run. -/
inductive Event (Thread : Type)
  /-- `start()` returned. -/
  | startReturned (t : Thread)
  /-- `start()` threw: no thread was created. -/
  | startThrew (t : Thread)
  /-- `stop()` was called. -/
  | stopCalled (t : Thread)
  /-- `stop()` returned; `found` says whether it found the engine running. -/
  | stopReturned (t : Thread) (found : Bool)
  /-- `stop()` threw: there was no thread to join. -/
  | stopThrew (t : Thread)
  /-- The destructor returned. -/
  | destroyed
  /-- `submit()` returned `true`. -/
  | accepted (ptr : ℕ)
  /-- `submit()` returned `false`. -/
  | rejected (ptr : ℕ)
  /-- `try_pop()` returned a pointer. -/
  | popped (ptr : ℕ)
  /-- `try_pop()` returned `std::nullopt`. -/
  | poppedNothing
  /-- An event was dereferenced and evaluated. -/
  | evaluated (ptr : ℕ)
  /-- The callback returned. -/
  | reported (result : RiskResult)
  /-- `processed_` was incremented. -/
  | counted
  /-- A consumer thread left `consumer_loop()`. -/
  | exited (id : ℕ)
  deriving DecidableEq, Repr

variable {Thread : Type} [DecidableEq Thread]

/-! ## The control threads -/

/-- The control thread `t` moves to another program point. -/
def State.setControl (s : State Thread) (t : Thread) (pc : ControlPc) : State Thread :=
  { s with control := Function.update s.control t pc }

/-- One step of `start()` by the thread `t`. -/
def startStep (s : State Thread) (t : Thread) (createThrows : Bool) :
    StartPc → State Thread × List (Event Thread)
  | .checkRunning =>
    if s.running then (s.setControl t .idle, [.startReturned t])
    else (s.setControl t (.starting .storeRunning), [])
  | .storeRunning => ({ s with running := true }.setControl t (.starting .createThread), [])
  | .createThread =>
    if createThrows then (s.setControl t .idle, [.startThrew t])
    else
      ({ s with workers := Function.update s.workers s.spawned .checkRunning,
                spawned := s.spawned + 1 }.setControl t (.starting (.assignWorker s.spawned)),
        [])
  | .assignWorker id =>
    if s.worker.isSome then ({ s with life := .terminated .assignedJoinable }, [])
    else ({ s with worker := some id }.setControl t .idle, [.startReturned t])

/-- The return of `stop()`; in the destructor the destruction of `worker_` follows. -/
def stopReturn (s : State Thread) (t : Thread) (destructor found : Bool) :
    State Thread × List (Event Thread) :=
  let s' := s.setControl t .idle
  if destructor then
    if s.worker.isSome then
      ({ s' with life := .terminated .destroyedJoinable }, [.stopReturned t found])
    else ({ s' with life := .destroyed }, [.stopReturned t found, .destroyed])
  else (s', [.stopReturned t found])

/-- One step of `stop()` by the thread `t`; `none` while `join` waits. Two threads inside
`worker_.join()` at once are a data race on `worker_` in C++; here their calls of `join` are put in
an order, and the second finds `worker_` no longer joinable and throws. -/
def stopStep (s : State Thread) (t : Thread) (destructor : Bool) :
    StopPc → Option (State Thread × List (Event Thread))
  | .checkRunning =>
    if s.running then some (s.setControl t (.stopping destructor .storeRunning), [])
    else some (stopReturn s t destructor false)
  | .storeRunning =>
    some ({ s with running := false }.setControl t (.stopping destructor .testJoinable), [])
  | .testJoinable =>
    if s.worker.isSome then some (s.setControl t (.stopping destructor .join), [])
    else some (stopReturn s t destructor true)
  | .join =>
    match s.worker with
    | none =>
      if destructor then
        some ({ s with life := .terminated .threwInDestructor }, [.stopThrew t])
      else some (s.setControl t .idle, [.stopThrew t])
    | some id =>
      if s.workers id = .exited then some (stopReturn { s with worker := none } t destructor true)
      else none

/-- A step of the control thread `t`. -/
def controlStep (s : State Thread) (t : Thread) (createThrows : Bool) :
    Option (State Thread × List (Event Thread)) :=
  match s.control t with
  | .idle => none
  | .starting pc => some (startStep s t createThrows pc)
  | .stopping destructor pc => stopStep s t destructor pc

/-! ## The producer -/

/-- The return of a step of `submit()`, if it returns. -/
def submitEvents (pc : PushPc ℕ) : Outcome (PushPc ℕ) Bool → List (Event Thread)
  | .ret true => [.accepted pc.item]
  | .ret false => [.rejected pc.item]
  | .next _ => []

/-- A step of `submit()`, which is `try_push` on the ring. -/
def submitStep (s : State Thread) (pc : PushPc ℕ) : State Thread × List (Event Thread) :=
  let (ring, out) := pushStep defaultRingCapacity s.ring pc
  ({ s with ring := ring, producer := out.pcAfter }, submitEvents pc out)

/-! ## The consumer threads -/

section Loops

variable {Pop : Type}

/-- Where the consumer `id` goes, and what is seen, when its `try_pop()` goes on or returns. -/
def afterPop (id : ℕ) (loop : Loop) :
    Outcome Pop (Option ℕ) → WorkerPc Pop × List (Event Thread)
  | .next pc => (.popping loop pc, [])
  | .ret (some ptr) => (.evaluating loop ptr, [.popped ptr])
  | .ret none =>
    match loop with
    | .main => (.yielding, [.poppedNothing])
    | .drain => (.exited, [.poppedNothing, .exited id])

/-- The head of a loop, which a consumer goes back to; `enter` is the first point of
`try_pop()`. -/
def Loop.head (loop : Loop) (enter : Pop) : WorkerPc Pop :=
  match loop with
  | .main => .checkRunning
  | .drain => .popping .drain enter

end Loops

/-- The consumer `id` moves to another program point. -/
def State.setWorker (s : State Thread) (id : ℕ) (pc : WorkerPc (PopPc ℕ)) : State Thread :=
  { s with workers := Function.update s.workers id pc }

/-- One step of `consumer_loop()` by the consumer `id`. -/
def workerStep (cfg : Config) (s : State Thread) (id : ℕ) :
    WorkerPc (PopPc ℕ) → Option (State Thread × List (Event Thread))
  | .checkRunning =>
    if s.running then some (s.setWorker id (.popping .main .loadHead), [])
    else some (s.setWorker id (.popping .drain .loadHead), [])
  | .popping loop pc =>
    let (ring, out) := popStep defaultRingCapacity s.ring pc
    let (next, es) := afterPop id loop out
    some ({ s with ring := ring }.setWorker id next, es)
  | .evaluating loop ptr =>
    some (s.setWorker id (.reporting loop (cfg.result ptr)), [.evaluated ptr])
  | .reporting loop result =>
    if cfg.onResult then some (s.setWorker id (.counting loop), [.reported result])
    else some (s.setWorker id (.counting loop), [])
  | .counting loop =>
    some ({ s with processed := (s.processed + 1) % 2 ^ 64 }.setWorker id (loop.head .loadHead),
      [.counted])
  | .yielding => some (s.setWorker id .checkRunning, [])
  | .exited => none

/-! ## The system -/

/-- A control thread that is idle makes a call, before the destructor is called. -/
def call (s : State Thread) (t : Thread) (life : Life) (pc : ControlPc)
    (es : List (Event Thread)) : Option (State Thread × List (Event Thread)) :=
  if s.control t = .idle ∧ s.life = .alive then
    some ({ s with life := life }.setControl t pc, es)
  else none

/-- The effect of an action. -/
def step (cfg : Config) (s : State Thread) :
    Action Thread → Option (State Thread × List (Event Thread)) := fun a =>
  if s.life.ongoing then
    match a with
    | .callStart t => call s t .alive (.starting .checkRunning) []
    | .callStop t => call s t .alive (.stopping false .checkRunning) [.stopCalled t]
    | .callDestructor t => call s t .destroying (.stopping true .checkRunning) [.stopCalled t]
    | .stepControl t createThrows => controlStep s t createThrows
    | .callSubmit ptr =>
      match s.producer with
      | none => some ({ s with producer := some (.loadTail ptr) }, [])
      | some _ => none
    | .stepProducer =>
      match s.producer with
      | none => none
      | some pc => some (submitStep s pc)
    | .stepWorker id => workerStep cfg s id (s.workers id)
  else none

/-- An engine as constructed, with its threads. -/
def system (cfg : Config) (Thread : Type) [DecidableEq Thread] :
    System (State Thread) (Action Thread) (Event Thread) where
  init := State.init Thread
  step := step cfg

end NullRing.Engine
