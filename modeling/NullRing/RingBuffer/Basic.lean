import Mathlib.Logic.Function.Basic
import NullRing.Arithmetic.Laps
import NullRing.Queue.Bounded

set_option relaxedAutoImplicit false
set_option autoImplicit false

/-!
# The single-producer single-consumer ring buffer

The class template `SPSCRingBuffer<T, Capacity>` of `include/ring_buffer.hpp`, cut into the
atomic steps of its calls: every load or store of `head_`, `tail_` or a slot of `buffer_` is
one step, together with the local computation that follows it. A call is a program point that
remembers the locals still needed; `pushStep` and `popStep` take it one step further on the
shared memory, and `queryStep` does the same for `size_approx()` and `empty()`.

The system at the end of the file runs one producer thread, one consumer thread and one
observer thread on the same memory, in any interleaving.

## Main definitions

* `RingBuffer.Capacity`, `RingBuffer.increment` — the template parameter and the index step.
* `RingBuffer.Memory` — `head_`, `tail_` and `buffer_`.
* `RingBuffer.pushStep`, `RingBuffer.popStep`, `RingBuffer.queryStep` — the calls.
* `RingBuffer.system` — the threads of a ring buffer.

## Main results

* `RingBuffer.increment_eq` — the masked index step is the successor modulo the capacity.
-/

namespace NullRing

namespace RingBuffer

open Transition

/-- The template parameter `Capacity`, as admitted by the two `static_assert`s; it is a
`std::size_t`. -/
structure Capacity where
  /-- The number of slots, one of which is always left empty. -/
  val : ℕ
  one_lt : 1 < val
  and_pred : val &&& (val - 1) = 0
  lt_size : val < 2 ^ 64

/-- `mask_`. -/
def mask (C : Capacity) : ℕ := C.val - 1

/-- `increment`: advance an index by one, wrapping via the mask. -/
def increment (C : Capacity) (idx : ℕ) : ℕ := (idx + 1) % 2 ^ 64 &&& mask C

/-- The index step is the successor modulo the capacity. -/
lemma increment_eq (C : Capacity) (idx : ℕ) : increment C idx = (idx + 1) % C.val := by
  have hne : C.val ≠ 0 := by have := C.one_lt; omega
  rw [increment, mask, Laps.and_mask_eq_mod hne C.and_pred,
    Laps.mod_two_pow_mod hne C.and_pred C.lt_size]

/-- The index step of a reduced counter. -/
lemma increment_mod (C : Capacity) (n : ℕ) : increment C (n % C.val) = (n + 1) % C.val := by
  rw [increment_eq, Laps.mod_add_one_mod]

/-- An index step leads to an index of the buffer. -/
lemma increment_lt (C : Capacity) (idx : ℕ) : increment C idx < C.val := by
  rw [increment_eq]
  exact Nat.mod_lt _ (by have := C.one_lt; omega)

/-- An index step leads to another index. -/
lemma increment_ne (C : Capacity) (idx : ℕ) : increment C idx ≠ idx := by
  intro heq
  have hC := C.one_lt
  have hlt := increment_lt C idx
  rw [increment_eq] at heq hlt
  by_cases hwrap : idx + 1 < C.val
  · rw [Nat.mod_eq_of_lt hwrap] at heq
    omega
  · have hlast : idx + 1 = C.val := by omega
    rw [hlast, Nat.mod_self] at heq
    omega

/-! ## The shared memory and the calls -/

/-- The data members: the two indices and the slots. -/
structure Memory (T : Type) where
  /-- `head_`, the consumer index. -/
  head : ℕ
  /-- `tail_`, the producer index. -/
  tail : ℕ
  /-- `buffer_`, read and written below the capacity only. -/
  buffer : ℕ → T

/-- The constructor: both indices zero, the slots value-initialized. -/
def Memory.init (T : Type) [Inhabited T] : Memory T := ⟨0, 0, fun _ => default⟩

variable {T : Type}

/-- The program points of `try_push(item)`. -/
inductive PushPc (T : Type)
  /-- About to load `tail_`. -/
  | loadTail (item : T)
  /-- About to load `head_` and compare it with the next tail. -/
  | loadHead (item : T) (currentTail : ℕ)
  /-- About to write `buffer_[current_tail]`. -/
  | writeSlot (item : T) (currentTail nextTail : ℕ)
  /-- About to store `tail_`. -/
  | storeTail (item : T) (nextTail : ℕ)
  deriving DecidableEq, Repr

/-- The program points of `try_pop()`. -/
inductive PopPc (T : Type)
  /-- About to load `head_`. -/
  | loadHead
  /-- About to load `tail_` and compare it with the current head. -/
  | loadTail (currentHead : ℕ)
  /-- About to read `buffer_[current_head]`. -/
  | readSlot (currentHead : ℕ)
  /-- About to store `head_`. -/
  | storeHead (currentHead : ℕ) (item : T)
  deriving DecidableEq, Repr

/-- The item of a `try_push`. -/
def PushPc.item : PushPc T → T
  | .loadTail item => item
  | .loadHead item _ => item
  | .writeSlot item _ _ => item
  | .storeTail item _ => item

/-- How many steps a `try_push` has still to take if it finds room. -/
def PushPc.toGo : PushPc T → ℕ
  | .loadTail _ => 4
  | .loadHead _ _ => 3
  | .writeSlot _ _ _ => 2
  | .storeTail _ _ => 1

/-- How many steps a `try_pop` has still to take if it finds an item. -/
def PopPc.toGo : PopPc T → ℕ
  | .loadHead => 4
  | .loadTail _ => 3
  | .readSlot _ => 2
  | .storeHead _ _ => 1

/-- A `try_push` takes four steps at most, and is over only when it has returned. -/
lemma PushPc.toGo_bounds (pc : PushPc T) : 1 ≤ pc.toGo ∧ pc.toGo ≤ 4 := by
  cases pc <;> simp [PushPc.toGo]

/-- A `try_pop` takes four steps at most, and is over only when it has returned. -/
lemma PopPc.toGo_bounds (pc : PopPc T) : 1 ≤ pc.toGo ∧ pc.toGo ≤ 4 := by
  cases pc <;> simp [PopPc.toGo]

/-- One step of `try_push`. -/
def pushStep (C : Capacity) (m : Memory T) : PushPc T → Memory T × Outcome (PushPc T) Bool
  | .loadTail item => (m, .next (.loadHead item m.tail))
  | .loadHead item currentTail =>
    let nextTail := increment C currentTail
    if nextTail = m.head then (m, .ret false)
    else (m, .next (.writeSlot item currentTail nextTail))
  | .writeSlot item currentTail nextTail =>
    ({ m with buffer := Function.update m.buffer currentTail item },
      .next (.storeTail item nextTail))
  | .storeTail _ nextTail => ({ m with tail := nextTail }, .ret true)

/-- One step of `try_pop`. -/
def popStep (C : Capacity) (m : Memory T) : PopPc T → Memory T × Outcome (PopPc T) (Option T)
  | .loadHead => (m, .next (.loadTail m.head))
  | .loadTail currentHead =>
    if currentHead = m.tail then (m, .ret none) else (m, .next (.readSlot currentHead))
  | .readSlot currentHead => (m, .next (.storeHead currentHead (m.buffer currentHead)))
  | .storeHead currentHead item => ({ m with head := increment C currentHead }, .ret (some item))

/-- The order in which a compiler evaluates the two loads of the comparison in `empty()`. -/
inductive LoadOrder
  | headFirst
  | tailFirst
  deriving DecidableEq, Repr

/-- The introspection calls. -/
inductive Query
  /-- `size_approx()`, which loads `head_` and then `tail_`. -/
  | sizeApprox
  /-- `empty()`. -/
  | empty (order : LoadOrder)
  deriving DecidableEq, Repr

/-- What an introspection call returns. -/
inductive Answer
  | size (n : ℕ)
  | isEmpty (b : Bool)
  deriving DecidableEq, Repr

/-- The program points of an introspection call. -/
inductive QueryPc
  | firstLoad (q : Query)
  | secondLoad (q : Query) (first : ℕ)
  deriving DecidableEq, Repr

/-- `(t - h) & mask_`, the subtraction of two `std::size_t` values. -/
def sizeOf (C : Capacity) (h t : ℕ) : ℕ := (t + 2 ^ 64 - h) % 2 ^ 64 &&& mask C

/-- One step of `size_approx()` or `empty()`. -/
def queryStep (C : Capacity) (m : Memory T) : QueryPc → Outcome QueryPc Answer
  | .firstLoad .sizeApprox => .next (.secondLoad .sizeApprox m.head)
  | .firstLoad (.empty .headFirst) => .next (.secondLoad (.empty .headFirst) m.head)
  | .firstLoad (.empty .tailFirst) => .next (.secondLoad (.empty .tailFirst) m.tail)
  | .secondLoad .sizeApprox h => .ret (.size (sizeOf C h m.tail))
  | .secondLoad (.empty .headFirst) h => .ret (.isEmpty (decide (h = m.tail)))
  | .secondLoad (.empty .tailFirst) t => .ret (.isEmpty (decide (m.head = t)))

/-! ## What a step shows of the queue

A call shows of the queue what it returns: `true` that the item was added, `false` that the queue
is full, an item that this was removed, and nothing that the queue is empty. A call that goes on
after the load which decides it shows that the queue is not full, or not empty. -/

/-- The queue event of a step of `try_push`, from the value it returns or the point it goes to. -/
def pushEvents (pc : PushPc T) : Outcome (PushPc T) Bool → List (BoundedQueue.Event T)
  | .ret true => [.push pc.item]
  | .ret false => [.checkFull true]
  | .next (.writeSlot _ _ _) => [.checkFull false]
  | .next _ => []

/-- The queue event of a step of `try_pop`, from the value it returns or the point it goes to. -/
def popEvents : Outcome (PopPc T) (Option T) → List (BoundedQueue.Event T)
  | .ret (some item) => [.pop item]
  | .ret none => [.checkEmpty true]
  | .next (.readSlot _) => [.checkEmpty false]
  | .next _ => []

/-- `try_push` returns true at its store of `tail_`, and false at its load of `head_`. -/
lemma pushStep_ret {C : Capacity} {m : Memory T} {pc : PushPc T} {r : Bool}
    (h : (pushStep C m pc).2 = .ret r) :
    r = true ∧ (∃ nextTail, pc = .storeTail pc.item nextTail) ∨
      r = false ∧ ∃ currentTail, pc = .loadHead pc.item currentTail := by
  cases pc with
  | loadTail item | writeSlot item currentTail nextTail => cases h
  | loadHead item currentTail =>
    simp only [pushStep] at h
    split at h
    · exact Or.inr ⟨(Outcome.ret.inj h).symm, currentTail, rfl⟩
    · cases h
  | storeTail item nextTail => exact Or.inl ⟨(Outcome.ret.inj h).symm, nextTail, rfl⟩

/-! ## The threads -/

/-- What the producer thread is doing. -/
inductive ProducerPc (T : Type)
  | idle
  | pushing (pc : PushPc T)
  | querying (pc : QueryPc)
  deriving DecidableEq, Repr

/-- What the consumer thread is doing. -/
inductive ConsumerPc (T : Type)
  | idle
  | popping (pc : PopPc T)
  | querying (pc : QueryPc)
  deriving DecidableEq, Repr

/-- What the observer thread is doing. -/
inductive ObserverPc
  | idle
  | querying (pc : QueryPc)
  deriving DecidableEq, Repr

/-- The three threads. -/
inductive Caller
  | producer
  | consumer
  | observer
  deriving DecidableEq, Repr

/-- A ring buffer and its threads. -/
structure State (T : Type) where
  mem : Memory T
  producer : ProducerPc T
  consumer : ConsumerPc T
  observer : ObserverPc

/-- An idle thread makes a call, or a thread takes the next step of its call. -/
inductive Action (T : Type)
  | callPush (item : T)
  | callPop
  | callQuery (who : Caller) (q : Query)
  | step (who : Caller)
  deriving DecidableEq, Repr

/-- What is seen of a run: the queue events, and the answers to the introspection calls. -/
inductive Event (T : Type)
  | queue (e : BoundedQueue.Event T)
  | answered (who : Caller) (a : Answer)
  deriving DecidableEq, Repr

/-- The queue event in an event, if there is one. -/
def Event.queue? : Event T → Option (BoundedQueue.Event T)
  | .queue e => some e
  | .answered _ _ => none

/-- What the producer thread does after a step of `try_push`. -/
def ProducerPc.afterPush : Outcome (PushPc T) Bool → ProducerPc T
  | .next pc => .pushing pc
  | .ret _ => .idle

/-- What the consumer thread does after a step of `try_pop`. -/
def ConsumerPc.afterPop : Outcome (PopPc T) (Option T) → ConsumerPc T
  | .next pc => .popping pc
  | .ret _ => .idle

/-- What a thread does after a step of an introspection call: the program point and the
events. -/
def afterQuery {Pc : Type} (who : Caller) (querying : QueryPc → Pc) (idle : Pc) :
    Outcome QueryPc Answer → Pc × List (Event T)
  | .next pc => (querying pc, [])
  | .ret a => (idle, [.answered who a])

/-- A step of the producer thread. -/
def producerStep (C : Capacity) (s : State T) : Option (State T × List (Event T)) :=
  match s.producer with
  | .idle => none
  | .pushing pc =>
    let (m, out) := pushStep C s.mem pc
    some ({ s with mem := m, producer := .afterPush out }, (pushEvents pc out).map .queue)
  | .querying pc =>
    let (next, es) := afterQuery .producer .querying .idle (queryStep C s.mem pc)
    some ({ s with producer := next }, es)

/-- A step of the consumer thread. -/
def consumerStep (C : Capacity) (s : State T) : Option (State T × List (Event T)) :=
  match s.consumer with
  | .idle => none
  | .popping pc =>
    let (m, out) := popStep C s.mem pc
    some ({ s with mem := m, consumer := .afterPop out }, (popEvents out).map .queue)
  | .querying pc =>
    let (next, es) := afterQuery .consumer .querying .idle (queryStep C s.mem pc)
    some ({ s with consumer := next }, es)

/-- A step of the observer thread. -/
def observerStep (C : Capacity) (s : State T) : Option (State T × List (Event T)) :=
  match s.observer with
  | .idle => none
  | .querying pc =>
    let (next, es) := afterQuery .observer .querying .idle (queryStep C s.mem pc)
    some ({ s with observer := next }, es)

/-- The effect of an action; a thread calls only when it is idle. -/
def step (C : Capacity) (s : State T) : Action T → Option (State T × List (Event T))
  | .callPush item =>
    match s.producer with
    | .idle => some ({ s with producer := .pushing (.loadTail item) }, [])
    | _ => none
  | .callPop =>
    match s.consumer with
    | .idle => some ({ s with consumer := .popping .loadHead }, [])
    | _ => none
  | .callQuery .producer q =>
    match s.producer with
    | .idle => some ({ s with producer := .querying (.firstLoad q) }, [])
    | _ => none
  | .callQuery .consumer q =>
    match s.consumer with
    | .idle => some ({ s with consumer := .querying (.firstLoad q) }, [])
    | _ => none
  | .callQuery .observer q =>
    match s.observer with
    | .idle => some ({ s with observer := .querying (.firstLoad q) }, [])
    | _ => none
  | .step .producer => producerStep C s
  | .step .consumer => consumerStep C s
  | .step .observer => observerStep C s

/-- A ring buffer of the given capacity with its three threads, all idle at first. -/
def system (C : Capacity) (T : Type) [Inhabited T] :
    System (State T) (Action T) (Event T) where
  init := ⟨Memory.init T, .idle, .idle, .idle⟩
  step := step C

end RingBuffer

end NullRing
