import NullRing.RingBuffer.Basic

set_option relaxedAutoImplicit false
set_option autoImplicit false

/-!
# The ring buffer under acquire and release

The same calls as in `NullRing.RingBuffer.Basic`, on a memory in which the other thread's
index may be read stale. Each index is the full history of its stores. A load by the thread
that does not write the index returns any entry that is not older than the entry the thread
read last; the schedule picks the entry. The stores release and the loads acquire: an entry
carries what precedes its store, and the load makes that visible.

* An entry of `tail_` carries, for each slot, the number of the last write of that slot
  before the store.
* An entry of `head_` carries, for each slot, the number of reads of that slot before the
  store.

The slots are not atomic. A read of a slot returns any of its writes that is not older than
the last one visible to the reader; it is free of a data race when there is only one such
write, and a write is free of a data race when all earlier reads are visible to the writer.

## Main definitions

* `RingBuffer.Weak.State` — the histories, and what each thread has seen.
* `RingBuffer.Weak.pushStep`, `RingBuffer.Weak.popStep` — the calls.
* `RingBuffer.Weak.system` — one producer and one consumer.
-/

namespace NullRing.RingBuffer.Weak

open Transition

variable {T : Type}

/-- A store of `head_`: the value, and the slot reads that precede it. -/
structure HeadEntry where
  value : ℕ
  reads : ℕ → ℕ

/-- A store of `tail_`: the value, and for each slot the number of its last write that
precedes the store. -/
structure TailEntry where
  value : ℕ
  writes : ℕ → ℕ

/-- The histories of the memory, oldest entry first, and the two threads. A thread between two
calls is at no program point. -/
structure State (T : Type) where
  /-- The stores of `head_`; the first is the constructor's. -/
  headHist : List HeadEntry
  /-- The stores of `tail_`; the first is the constructor's. -/
  tailHist : List TailEntry
  /-- The writes of each slot; the first is the constructor's. -/
  slotHist : ℕ → List T
  /-- How often each slot has been read. -/
  readCount : ℕ → ℕ
  producer : Option (PushPc T)
  /-- The entry of `head_` the producer read last. -/
  headSeen : ℕ
  /-- The slot reads visible to the producer. -/
  readsSeen : ℕ → ℕ
  consumer : Option (PopPc T)
  /-- The entry of `tail_` the consumer read last. -/
  tailSeen : ℕ
  /-- For each slot, the last write visible to the consumer. -/
  writesSeen : ℕ → ℕ

/-- The state the constructor leaves. -/
def State.init (T : Type) [Inhabited T] : State T where
  headHist := [⟨0, fun _ => 0⟩]
  tailHist := [⟨0, fun _ => 0⟩]
  slotHist := fun _ => [default]
  readCount := fun _ => 0
  producer := none
  headSeen := 0
  readsSeen := fun _ => 0
  consumer := none
  tailSeen := 0
  writesSeen := fun _ => 0

/-- The latest value of `head_`, which its own thread reads. -/
def State.ownHead (s : State T) : ℕ := (s.headHist.getLast?.map HeadEntry.value).getD 0

/-- The latest value of `tail_`, which its own thread reads. -/
def State.ownTail (s : State T) : ℕ := (s.tailHist.getLast?.map TailEntry.value).getD 0

/-- One step of `try_push`; the load of `head_` reads the entry `entry`. -/
def pushStep (C : Capacity) (s : State T) (entry : ℕ) :
    PushPc T → Option (State T × Outcome (PushPc T) Bool)
  | .loadTail item => some (s, .next (.loadHead item s.ownTail))
  | .loadHead item currentTail =>
    match s.headHist[entry]? with
    | none => none
    | some e =>
      if s.headSeen ≤ entry then
        let s' := { s with headSeen := entry,
                           readsSeen := fun i => max (s.readsSeen i) (e.reads i) }
        let nextTail := increment C currentTail
        if nextTail = e.value then some (s', .ret false)
        else some (s', .next (.writeSlot item currentTail nextTail))
      else none
  | .writeSlot item currentTail nextTail =>
    let writes := s.slotHist currentTail ++ [item]
    some ({ s with slotHist := Function.update s.slotHist currentTail writes },
      .next (.storeTail item nextTail))
  | .storeTail _ nextTail =>
    let e : TailEntry := ⟨nextTail, fun i => (s.slotHist i).length - 1⟩
    some ({ s with tailHist := s.tailHist ++ [e] }, .ret true)

/-- One step of `try_pop`; the load of `tail_` reads the entry `entry`, and the read of the
slot reads its write number `entry`. -/
def popStep (C : Capacity) (s : State T) (entry : ℕ) :
    PopPc T → Option (State T × Outcome (PopPc T) (Option T))
  | .loadHead => some (s, .next (.loadTail s.ownHead))
  | .loadTail currentHead =>
    match s.tailHist[entry]? with
    | none => none
    | some e =>
      if s.tailSeen ≤ entry then
        let s' := { s with tailSeen := entry,
                           writesSeen := fun i => max (s.writesSeen i) (e.writes i) }
        if currentHead = e.value then some (s', .ret none)
        else some (s', .next (.readSlot currentHead))
      else none
  | .readSlot currentHead =>
    match (s.slotHist currentHead)[entry]? with
    | none => none
    | some item =>
      if s.writesSeen currentHead ≤ entry then
        let s' := { s with
          writesSeen := Function.update s.writesSeen currentHead entry,
          readCount := Function.update s.readCount currentHead (s.readCount currentHead + 1) }
        some (s', .next (.storeHead currentHead item))
      else none
  | .storeHead currentHead item =>
    let e : HeadEntry := ⟨increment C currentHead, s.readCount⟩
    some ({ s with headHist := s.headHist ++ [e] }, .ret (some item))

/-- A thread between two calls makes a call, or a thread takes a step, reading the entry the
schedule picks. -/
inductive Action (T : Type)
  | callPush (item : T)
  | callPop
  | stepProducer (entry : ℕ)
  | stepConsumer (entry : ℕ)
  deriving DecidableEq, Repr

/-- The returns of the two calls. -/
inductive Event (T : Type)
  /-- `try_push` returned `true`. -/
  | pushed (item : T)
  /-- `try_push` returned `false`. -/
  | refused
  /-- `try_pop` returned an item. -/
  | popped (item : T)
  /-- `try_pop` returned `std::nullopt`. -/
  | nothing
  deriving DecidableEq, Repr

/-- The return of a step of `try_push`, if it returns. -/
def pushEvents (pc : PushPc T) : Outcome (PushPc T) Bool → List (Event T)
  | .ret true => [.pushed pc.item]
  | .ret false => [.refused]
  | .next _ => []

/-- The return of a step of `try_pop`, if it returns. -/
def popEvents : Outcome (PopPc T) (Option T) → List (Event T)
  | .ret (some item) => [.popped item]
  | .ret none => [.nothing]
  | .next _ => []

/-- The effect of an action. -/
def step (C : Capacity) (s : State T) : Action T → Option (State T × List (Event T))
  | .callPush item =>
    match s.producer with
    | none => some ({ s with producer := some (.loadTail item) }, [])
    | some _ => none
  | .callPop =>
    match s.consumer with
    | none => some ({ s with consumer := some .loadHead }, [])
    | some _ => none
  | .stepProducer entry =>
    match s.producer with
    | none => none
    | some pc =>
      match pushStep C s entry pc with
      | none => none
      | some (s', out) => some ({ s' with producer := out.pcAfter }, pushEvents pc out)
  | .stepConsumer entry =>
    match s.consumer with
    | none => none
    | some pc =>
      match popStep C s entry pc with
      | none => none
      | some (s', out) => some ({ s' with consumer := out.pcAfter }, popEvents out)

/-- A ring buffer with one producer and one consumer thread. -/
def system (C : Capacity) (T : Type) [Inhabited T] :
    System (State T) (Action T) (Event T) where
  init := State.init T
  step := step C

/-- The item an event pushes. -/
def Event.pushed? : Event T → Option T
  | .pushed item => some item
  | .refused => none
  | .popped _ => none
  | .nothing => none

/-- The item an event pops. -/
def Event.popped? : Event T → Option T
  | .pushed _ => none
  | .refused => none
  | .popped item => some item
  | .nothing => none

/-- The items of the successful calls of `try_push`, in order. -/
def pushes (es : List (Event T)) : List T := es.filterMap Event.pushed?

/-- The items returned by the successful calls of `try_pop`, in order. -/
def pops (es : List (Event T)) : List T := es.filterMap Event.popped?

/-- The items pushed are listed in the order of the events. -/
@[simp] lemma pushes_append (es es' : List (Event T)) :
    pushes (es ++ es') = pushes es ++ pushes es' := List.filterMap_append

/-- The items popped are listed in the order of the events. -/
@[simp] lemma pops_append (es es' : List (Event T)) :
    pops (es ++ es') = pops es ++ pops es' := List.filterMap_append

end NullRing.RingBuffer.Weak
