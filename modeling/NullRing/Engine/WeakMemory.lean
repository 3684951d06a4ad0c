import NullRing.Engine.Basic
import NullRing.RingBuffer.WeakMemory

set_option relaxedAutoImplicit false
set_option autoImplicit false

/-!
# The engine under acquire and release

The calls of `NullRing.Engine.Basic` and `consumer_loop()` on a memory in which loads of another
thread's stores may be stale: the ring is that of `NullRing.RingBuffer.WeakMemory`, and `running_`
is the history of its stores, of which the consumer's load returns any entry that is not older than
the one it read last. There is one control thread, the only one to store `running_`, and one
producer thread, and the creation of a thread succeeds.

What a thread does is visible to another only along these edges:

* a load of `tail_` or `head_` by the other side of the ring, as there;
* the consumer's load of `running_`, which makes visible what is visible to the control thread at
  the store it reads;
* the creation of the consumer, and `join`, in the one and in the other direction;
* from the producer to the control thread whatever the program around the engine provides, which
  is the action `synchronize`. If one thread both submits and stops, that is before each call.

The control thread does not touch the ring, so of its view of the ring only the entry of `tail_`
matters, since it hands that on.

## Main definitions

* `Engine.Weak.State` — the histories, and what the threads have seen.
* `Engine.Weak.startStep`, `Engine.Weak.stopStep`, `Engine.Weak.workerStep` — the calls.
* `Engine.Weak.system` — one control thread, one producer and their consumers.
-/

namespace NullRing.Engine.Weak

open RingBuffer Transition

/-- A store of `running_`: the value, and the entry of `tail_` that is visible with it. -/
structure Flag where
  value : Bool
  tails : ℕ
  deriving DecidableEq, Repr

/-- The program points of `start()`. The new thread is created and assigned to `worker_` at once:
nobody looks at `worker_` in between. -/
inductive StartPc
  | checkRunning
  | storeRunning
  | createThread
  deriving DecidableEq, Repr

/-- What the control thread is doing. -/
inductive ControlPc
  | idle
  | starting (pc : StartPc)
  | stopping (pc : StopPc)
  deriving DecidableEq, Repr

/-- An engine, the histories of its memory, and what its threads have seen. -/
structure State where
  /-- `ring_`, with the producer in `submit()` and the consumer in `try_pop()`. -/
  ring : RingBuffer.Weak.State ℕ
  /-- The stores of `running_`; the first is the constructor's. -/
  flagHist : List Flag
  /-- The entry of `running_` that the consumer read last. -/
  flagSeen : ℕ
  /-- The entry of `tail_` that is visible to the control thread. -/
  known : ℕ
  /-- `processed_`, which only the consumer changes. -/
  processed : ℕ
  control : ControlPc
  /-- `worker_`: the thread it owns, when it is joinable. Its point in `try_pop()` is kept with the
  ring. -/
  worker : Option (WorkerPc Unit)
  /-- How many consumer threads were created; they are numbered in this order. -/
  spawned : ℕ

/-- The constructor. -/
def State.init : State where
  ring := RingBuffer.Weak.State.init ℕ
  flagHist := [⟨false, 0⟩]
  flagSeen := 0
  known := 0
  processed := 0
  control := .idle
  worker := none
  spawned := 0

/-- A call, or the next step of a thread; a load that may be stale reads the entry `entry`. -/
inductive Action
  | callStart
  | callStop
  | stepControl
  | callSubmit (ptr : ℕ)
  | stepProducer (entry : ℕ)
  | stepWorker (entry : ℕ)
  /-- What the producer has done becomes visible to the control thread. -/
  | synchronize
  deriving DecidableEq, Repr

/-! ## The control thread -/

/-- The latest value of `running_`, which the control thread reads. -/
def State.running (s : State) : Bool := (s.flagHist.getLast?.map Flag.value).getD false

/-- A store of `running_` by the control thread. -/
def State.storeRunning (s : State) (value : Bool) : State :=
  { s with flagHist := s.flagHist ++ [⟨value, s.known⟩] }

/-- The entry `k` of `tail_` becomes visible to the consumer, and what precedes it. -/
def acquireTail (ring : RingBuffer.Weak.State ℕ) (k : ℕ) : RingBuffer.Weak.State ℕ :=
  match ring.tailHist[k]? with
  | none => ring
  | some e => { ring with tailSeen := max ring.tailSeen k,
                          writesSeen := fun i => max (ring.writesSeen i) (e.writes i) }

/-- One step of `start()`; none if `worker_` would be assigned to while joinable, which ends the
process. -/
def startStep (s : State) : StartPc → Option (State × List (Event Unit))
  | .checkRunning =>
    if s.running then some ({ s with control := .idle }, [.startReturned ()])
    else some ({ s with control := .starting .storeRunning }, [])
  | .storeRunning => some ({ s.storeRunning true with control := .starting .createThread }, [])
  | .createThread =>
    match s.worker with
    | some _ => none
    | none =>
      -- the creation of a thread makes visible to it what its creator sees
      some ({ s with ring := acquireTail s.ring s.known, flagSeen := s.flagHist.length - 1,
                     worker := some .checkRunning, spawned := s.spawned + 1, control := .idle },
        [.startReturned ()])

/-- One step of `stop()`; none while `join` waits. -/
def stopStep (s : State) : StopPc → Option (State × List (Event Unit))
  | .checkRunning =>
    if s.running then some ({ s with control := .stopping .storeRunning }, [])
    else some ({ s with control := .idle }, [.stopReturned () false])
  | .storeRunning => some ({ s.storeRunning false with control := .stopping .testJoinable }, [])
  | .testJoinable =>
    match s.worker with
    | some _ => some ({ s with control := .stopping .join }, [])
    | none => some ({ s with control := .idle }, [.stopReturned () true])
  | .join =>
    match s.worker with
    | none => some ({ s with control := .idle }, [.stopThrew ()])
    | some pc =>
      if pc = .exited then
        some ({ s with worker := none, known := max s.known s.ring.tailSeen, control := .idle },
          [.stopReturned () true])
      else none

/-- A step of the control thread. -/
def controlStep (s : State) : Option (State × List (Event Unit)) :=
  match s.control with
  | .idle => none
  | .starting pc => startStep s pc
  | .stopping pc => stopStep s pc

/-! ## The producer -/

/-- A step of `submit()`, which is `try_push` on the ring. -/
def submitStep (s : State) (entry : ℕ) (pc : PushPc ℕ) : Option (State × List (Event Unit)) :=
  match RingBuffer.Weak.pushStep defaultRingCapacity s.ring entry pc with
  | none => none
  | some (ring, out) =>
    some ({ s with ring := { ring with producer := out.pcAfter } }, submitEvents pc out)

/-! ## The consumer -/

/-- Where the consumer, the last one created, goes, and what is seen, when its `try_pop()` goes on
or returns. -/
def State.afterPop (s : State) (loop : Loop) (out : Outcome (PopPc ℕ) (Option ℕ)) :
    WorkerPc Unit × List (Event Unit) :=
  Engine.afterPop (s.spawned - 1) loop (out.map fun _ => ())

/-- The consumer calls `try_pop()`. -/
def State.callPop (s : State) (loop : Loop) : State :=
  { s with ring := { s.ring with consumer := some .loadHead }, worker := some (.popping loop ()) }

/-- The consumer goes back to the head of a loop. -/
def State.toHead (s : State) : Loop → State
  | .main => { s with worker := some .checkRunning }
  | .drain => s.callPop .drain

/-- One step of `consumer_loop()`. -/
def workerStep (cfg : Config) (s : State) (entry : ℕ) :
    WorkerPc Unit → Option (State × List (Event Unit))
  | .checkRunning =>
    match s.flagHist[entry]? with
    | none => none
    | some e =>
      if s.flagSeen ≤ entry then
        let s' := { s with flagSeen := entry, ring := acquireTail s.ring e.tails }
        some (s'.callPop (if e.value then .main else .drain), [])
      else none
  | .popping loop () =>
    match s.ring.consumer with
    | none => none
    | some pc =>
      match RingBuffer.Weak.popStep defaultRingCapacity s.ring entry pc with
      | none => none
      | some (ring, out) =>
        some ({ s with ring := { ring with consumer := out.pcAfter },
                       worker := some (s.afterPop loop out).1 }, (s.afterPop loop out).2)
  | .evaluating loop ptr =>
    some ({ s with worker := some (.reporting loop (cfg.result ptr)) }, [.evaluated ptr])
  | .reporting loop result =>
    some ({ s with worker := some (.counting loop) },
      if cfg.onResult then [.reported result] else [])
  | .counting loop =>
    some ({ s with processed := (s.processed + 1) % 2 ^ 64 }.toHead loop, [.counted])
  | .yielding => some ({ s with worker := some .checkRunning }, [])
  | .exited => none

/-! ## The system -/

/-- The effect of an action. -/
def step (cfg : Config) (s : State) : Action → Option (State × List (Event Unit))
  | .callStart =>
    if s.control = .idle then some ({ s with control := .starting .checkRunning }, []) else none
  | .callStop =>
    if s.control = .idle then
      some ({ s with control := .stopping .checkRunning }, [.stopCalled ()])
    else none
  | .stepControl => controlStep s
  | .callSubmit ptr =>
    match s.ring.producer with
    | none => some ({ s with ring := { s.ring with producer := some (.loadTail ptr) } }, [])
    | some _ => none
  | .stepProducer entry =>
    match s.ring.producer with
    | none => none
    | some pc => submitStep s entry pc
  | .stepWorker entry =>
    match s.worker with
    | none => none
    | some pc => workerStep cfg s entry pc
  | .synchronize => some ({ s with known := s.ring.tailHist.length - 1 }, [])

/-- An engine as constructed, with its threads. -/
def system (cfg : Config) : System State Action (Event Unit) where
  init := State.init
  step := step cfg

end NullRing.Engine.Weak
