import Mathlib.Algebra.Group.Nat.Defs
import Mathlib.Logic.Function.Basic
import NullRing.Stack.Lifo

set_option relaxedAutoImplicit false
set_option autoImplicit false

/-!
# The object pool

The class template `ObjectPool<T, Capacity>` of `include/memory_pool.hpp`, cut into the atomic
steps of its calls: every load, store or compare-and-swap of `head_` or of a `next` is one
step, together with the local computation that follows it. Pointers are byte addresses, and
`object_ptr` and `slot_index` are the address arithmetic of the source.

The system at the end of the file runs any number of threads on one pool. It keeps a ledger of
the pointers that `allocate` has returned and `deallocate` has not taken back, each with the
thread that owns it: a thread deallocates a pointer it owns, and may hand it to another thread
instead.

## Main definitions

* `MemoryPool.Layout`, `MemoryPool.objectPtr`, `MemoryPool.slotIndex` — the slot array.
* `MemoryPool.Memory` — `head_` and the links of the free list.
* `MemoryPool.allocStep`, `MemoryPool.deallocStep` — the calls.
* `MemoryPool.system` — the threads of a pool.

## Main results

* `MemoryPool.slotIndex_objectPtr` — `slot_index` inverts `object_ptr`.
-/

namespace NullRing.MemoryPool

open Transition

/-- `POOL_NULL`, the end of the free-list chain: the largest `std::uint32_t`. -/
def poolNull : ℕ := 2 ^ 32 - 1

/-- The template parameter `Capacity`, as admitted by the two `static_assert`s, with the
address of the slot array and the size of a slot, multiples of 64 both by `alignas(64)`. -/
structure Layout where
  capacity : ℕ
  capacity_pos : 0 < capacity
  capacity_lt : capacity < poolNull
  /-- The address of `slots_[0]`. -/
  base : ℕ
  base_pos : 0 < base
  base_mod : base % 64 = 0
  /-- `sizeof(Slot)`. -/
  slotSize : ℕ
  slotSize_pos : 0 < slotSize
  slotSize_mod : slotSize % 64 = 0

variable {L : Layout}

/-- `object_ptr`: the address of the storage of a slot, which is the slot's first member. -/
def objectPtr (L : Layout) (i : ℕ) : ℕ := L.base + i * L.slotSize

/-- `slot_index`: the slot of an address, cast to `std::uint32_t`. -/
def slotIndex (L : Layout) (ptr : ℕ) : ℕ := (ptr - L.base) / L.slotSize % 2 ^ 32

/-- **`slot_index` inverts `object_ptr`** on the slots of the pool. -/
lemma slotIndex_objectPtr {i : ℕ} (hi : i < L.capacity) : slotIndex L (objectPtr L i) = i := by
  have hcap : i < 2 ^ 32 - 1 := Nat.lt_trans hi L.capacity_lt
  rw [slotIndex, objectPtr, Nat.add_sub_cancel_left, Nat.mul_div_cancel _ L.slotSize_pos]
  exact Nat.mod_eq_of_lt (by omega)

/-- A pool of two slots of 64 bytes. -/
def twoSlotPool : Layout :=
  ⟨2, by decide, by decide, 4096, by decide, by decide, 64, by decide, by decide⟩

/-- A pool of three slots of 64 bytes. -/
def threeSlotPool : Layout :=
  ⟨3, by decide, by decide, 4096, by decide, by decide, 64, by decide, by decide⟩

/-! ## The shared memory and the calls -/

/-- The free list: `head_`, and the link `next` of each slot. -/
structure Memory where
  head : ℕ
  next : ℕ → ℕ

/-- The constructor: the loop that links slot `i` to slot `i + 1`, the last link, and
`head_`. -/
def Memory.init (L : Layout) : Memory where
  head := 0
  next := Function.update
    ((List.range (L.capacity - 1)).foldl (fun next i => Function.update next i (i + 1))
      fun _ => poolNull)
    (L.capacity - 1) poolNull

/-- The program points of `allocate()`. -/
inductive AllocPc
  /-- About to load `head_`. -/
  | loadHead
  /-- In the loop, about to load `slots_[old_head].next`. -/
  | loadNext (oldHead : ℕ)
  /-- About to try to swing `head_` from `old_head` to `new_head`. -/
  | cas (oldHead newHead : ℕ)
  deriving DecidableEq, Repr

/-- The program points of `deallocate(ptr)`. -/
inductive DeallocPc
  /-- About to load `head_`. -/
  | loadHead
  /-- In the loop, about to store `slots_[index].next`. -/
  | storeNext (oldHead : ℕ)
  /-- About to try to swing `head_` from `old_head` to `index`. -/
  | cas (oldHead : ℕ)
  deriving DecidableEq, Repr

/-- The test of the loop of `allocate`: the loop is left with `nullptr` when the head just
read is `POOL_NULL`. -/
def whileHead (oldHead : ℕ) : Outcome AllocPc (Option ℕ) :=
  if oldHead = poolNull then .ret none else .next (.loadNext oldHead)

/-- One step of `allocate`. The compare-and-swap is a weak one: `spurious` says that it fails
although `head_` is the value expected. A failure refreshes `old_head`. -/
def allocStep (L : Layout) (m : Memory) (spurious : Bool) :
    AllocPc → Memory × Outcome AllocPc (Option ℕ)
  | .loadHead => (m, whileHead m.head)
  | .loadNext oldHead => (m, .next (.cas oldHead (m.next oldHead)))
  | .cas oldHead newHead =>
    if m.head = oldHead ∧ spurious = false then
      ({ m with head := newHead }, .ret (some (objectPtr L oldHead)))
    else (m, whileHead m.head)

/-- One step of `deallocate` for the slot `index`. -/
def deallocStep (m : Memory) (spurious : Bool) (index : ℕ) :
    DeallocPc → Memory × Outcome DeallocPc Unit
  | .loadHead => (m, .next (.storeNext m.head))
  | .storeNext oldHead =>
    ({ m with next := Function.update m.next index oldHead }, .next (.cas oldHead))
  | .cas oldHead =>
    if m.head = oldHead ∧ spurious = false then ({ m with head := index }, .ret ())
    else (m, .next (.storeNext m.head))

/-! ## The threads -/

/-- What a thread is doing. -/
inductive Pc
  | idle
  | allocating (pc : AllocPc)
  /-- In `deallocate(ptr)`, with `index` computed from `ptr`. -/
  | deallocating (ptr index : ℕ) (pc : DeallocPc)
  deriving DecidableEq, Repr

/-- A pool and its threads. -/
structure State (Thread : Type) where
  mem : Memory
  pc : Thread → Pc
  /-- The pointers allocated and not yet deallocated, with their owners. -/
  owned : List (Thread × ℕ)

/-- An idle thread makes a call or hands a pointer over, or a thread takes the next step of
its call. -/
inductive Action (Thread : Type)
  | allocate (t : Thread)
  | deallocate (t : Thread) (ptr : ℕ)
  | handOver (t u : Thread) (ptr : ℕ)
  | advance (t : Thread) (spurious : Bool)
  deriving DecidableEq, Repr

/-- The returns of the calls. -/
inductive Event (Thread : Type)
  /-- `allocate` returned a pointer. -/
  | allocated (t : Thread) (ptr : ℕ)
  /-- `allocate` returned `nullptr`. -/
  | exhausted (t : Thread)
  /-- `deallocate` returned. -/
  | deallocated (t : Thread) (ptr : ℕ)
  deriving DecidableEq, Repr

variable {Thread : Type} [DecidableEq Thread]

/-- The state after a step of `allocate` by `t`. -/
def afterAlloc (s : State Thread) (t : Thread) :
    Memory × Outcome AllocPc (Option ℕ) → State Thread × List (Event Thread)
  | (m, .next pc) => ({ s with mem := m, pc := Function.update s.pc t (.allocating pc) }, [])
  | (m, .ret (some ptr)) =>
    (⟨m, Function.update s.pc t .idle, (t, ptr) :: s.owned⟩, [.allocated t ptr])
  | (m, .ret none) => ({ s with mem := m, pc := Function.update s.pc t .idle }, [.exhausted t])

/-- The state after a step of `deallocate(ptr)` by `t`. -/
def afterDealloc (s : State Thread) (t : Thread) (ptr index : ℕ) :
    Memory × Outcome DeallocPc Unit → State Thread × List (Event Thread)
  | (m, .next pc) =>
    ({ s with mem := m, pc := Function.update s.pc t (.deallocating ptr index pc) }, [])
  | (m, .ret ()) =>
    (⟨m, Function.update s.pc t .idle, s.owned.erase (t, ptr)⟩, [.deallocated t ptr])

/-- The effect of an action. -/
def step (L : Layout) (s : State Thread) :
    Action Thread → Option (State Thread × List (Event Thread))
  | .allocate t =>
    match s.pc t with
    | .idle => some ({ s with pc := Function.update s.pc t (.allocating .loadHead) }, [])
    | _ => none
  | .deallocate t ptr =>
    if s.pc t = .idle ∧ (t, ptr) ∈ s.owned then
      let pc := Pc.deallocating ptr (slotIndex L ptr) .loadHead
      some ({ s with pc := Function.update s.pc t pc }, [])
    else none
  | .handOver t u ptr =>
    if s.pc t = .idle ∧ (t, ptr) ∈ s.owned then
      some ({ s with owned := (u, ptr) :: s.owned.erase (t, ptr) }, [])
    else none
  | .advance t spurious =>
    match s.pc t with
    | .idle => none
    | .allocating pc => some (afterAlloc s t (allocStep L s.mem spurious pc))
    | .deallocating ptr index pc =>
      some (afterDealloc s t ptr index (deallocStep s.mem spurious index pc))

/-- A pool of the given layout and its threads, all idle at first and owning nothing. -/
def system (L : Layout) (Thread : Type) [DecidableEq Thread] :
    System (State Thread) (Action Thread) (Event Thread) where
  init := ⟨Memory.init L, fun _ => .idle, []⟩
  step := step L

end NullRing.MemoryPool
