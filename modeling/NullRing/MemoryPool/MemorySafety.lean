import Mathlib.Data.Set.Defs
import NullRing.MemoryPool.ConcurrentAllocate

set_option relaxedAutoImplicit false
set_option autoImplicit false

/-!
# The pool stays inside its storage

What holds in every run of any number of threads, outdated links or not. When a compare-and-swap
of `allocate` has installed an outdated link, slots may be lost or owned twice; but `head_` and
every `next` are still `POOL_NULL` or the index of a slot, so that no access to `slots_` is out of
bounds, and a pointer that `allocate` returns is still the address of a slot.

## Main definitions

* `MemoryPool.storage`, `MemoryPool.slotBytes` — the bytes of the slot array and of a slot.
* `MemoryPool.Pc.access` — the slot that the next step of a thread accesses.
* `MemoryPool.SafeInv` — the invariant.

## Main results

* `MemoryPool.SafeInv.step` — every step keeps the invariant.
* `MemoryPool.accesses_in_bounds` — every access is to a slot of the pool, every assert holds, and
  the pointers returned are those of slots, of which two are equal or disjoint.
-/

namespace NullRing.MemoryPool

open Transition

variable {L : Layout} {Thread : Type} {s s' : State Thread} {t : Thread} {ptr : ℕ}

/-! ## The bytes of the slots -/

/-- The bytes of `slots_`. -/
def storage (L : Layout) : Set ℕ :=
  {a | L.base ≤ a ∧ a < L.base + L.capacity * L.slotSize}

/-- The bytes of the slot at an address. -/
def slotBytes (L : Layout) (ptr : ℕ) : Set ℕ := {a | ptr ≤ a ∧ a < ptr + L.slotSize}

/-- The address is that of a slot. -/
def IsSlotPtr (L : Layout) (ptr : ℕ) : Prop := ∃ i < L.capacity, ptr = objectPtr L i

namespace IsSlotPtr

/-- A slot is aligned to a cache line. -/
lemma aligned (h : IsSlotPtr L ptr) : ptr % 64 = 0 := by
  obtain ⟨i, -, rfl⟩ := h
  rw [objectPtr, Nat.add_mod, Nat.mul_mod, L.slotSize_mod, Nat.mul_zero, Nat.zero_mod,
    Nat.add_zero, Nat.mod_mod, L.base_mod]

/-- A slot lies in the array. -/
lemma bytes_subset (h : IsSlotPtr L ptr) : slotBytes L ptr ⊆ storage L := by
  obtain ⟨i, hi, rfl⟩ := h
  have hmul : (i + 1) * L.slotSize ≤ L.capacity * L.slotSize := Nat.mul_le_mul_right _ hi
  rw [Nat.add_mul, Nat.one_mul] at hmul
  rintro a ⟨hlow, hhigh⟩
  rw [objectPtr] at hlow hhigh
  exact ⟨by omega, by omega⟩

/-- Two slots share no byte.

**Proof sketch.** Of two slots one comes first, and it ends where the next one begins or before. -/
lemma not_mem_bytes {q a : ℕ} (hptr : IsSlotPtr L ptr) (hq : IsSlotPtr L q) (hne : ptr ≠ q)
    (ha : a ∈ slotBytes L ptr) : a ∉ slotBytes L q := by
  obtain ⟨i, -, rfl⟩ := hptr
  obtain ⟨j, -, rfl⟩ := hq
  obtain ⟨hlow, hhigh⟩ := ha
  rintro ⟨hlow', hhigh'⟩
  rw [objectPtr] at hlow hhigh hlow' hhigh'
  rcases Nat.lt_or_gt_of_ne fun hij : i = j => hne (congrArg _ hij) with hlt | hlt
  · have hmul : (i + 1) * L.slotSize ≤ j * L.slotSize := Nat.mul_le_mul_right _ hlt
    rw [Nat.add_mul, Nat.one_mul] at hmul
    omega
  · have hmul : (j + 1) * L.slotSize ≤ i * L.slotSize := Nat.mul_le_mul_right _ hlt
    rw [Nat.add_mul, Nat.one_mul] at hmul
    omega

/-- The asserts of `deallocate` hold of the address of a slot, and `object_ptr` inverts
`slot_index`. -/
lemma asserts (h : IsSlotPtr L ptr) :
    ptr ≠ 0 ∧ slotIndex L ptr < L.capacity ∧ objectPtr L (slotIndex L ptr) = ptr := by
  obtain ⟨i, hi, rfl⟩ := h
  have hbase := L.base_pos
  rw [slotIndex_objectPtr hi]
  exact ⟨by rw [objectPtr]; omega, hi, rfl⟩

end IsSlotPtr

/-! ## The invariant -/

/-- The slot whose `next` the next step of a thread loads or stores. -/
def Pc.access : Pc → Option ℕ
  | .allocating (.loadNext oldHead) => some oldHead
  | .deallocating _ index (.storeNext _) => some index
  | _ => none

/-- What a thread remembers of the free list: the heads that it follows are slots. -/
def PcSafe (L : Layout) : Pc → Prop
  | .allocating (.loadNext oldHead) => oldHead < L.capacity
  | .allocating (.cas oldHead newHead) => oldHead < L.capacity ∧ IsLink L newHead
  | .deallocating ptr index (.storeNext oldHead) =>
    IsSlotPtr L ptr ∧ index = slotIndex L ptr ∧ IsLink L oldHead
  | .deallocating ptr index _ => IsSlotPtr L ptr ∧ index = slotIndex L ptr
  | _ => True

/-- The invariant: no value of the free list leads out of the pool. -/
structure SafeInv (L : Layout) (s : State Thread) : Prop where
  head : IsLink L s.mem.head
  links : ∀ i, IsLink L (s.mem.next i)
  ledger : ∀ e ∈ s.owned, IsSlotPtr L e.2
  pcs : ∀ t, PcSafe L (s.pc t)

namespace SafeInv

/-- A thread in `deallocate` has the address of a slot. -/
lemma slotPtr (h : SafeInv L s) {index : ℕ} {pc : DeallocPc}
    (hpc : s.pc t = .deallocating ptr index pc) : IsSlotPtr L ptr ∧ index = slotIndex L ptr := by
  have hsafe := h.pcs t
  rw [hpc] at hsafe
  cases pc with
  | loadHead => exact hsafe
  | storeNext old => exact ⟨hsafe.1, hsafe.2.1⟩
  | cas old => exact hsafe

/-- Every access of a thread is to a slot of the pool.

**Proof sketch.** A slot is read in `allocate` at the remembered index, which the loop has found not
null, and written in `deallocate` at the index computed from the pointer of a slot. -/
lemma access_lt (h : SafeInv L s) {i : ℕ} (hi : (s.pc t).access = some i) : i < L.capacity := by
  have hsafe := h.pcs t
  rcases hp : s.pc t with _ | pc | ⟨ptr, index, pc⟩
  · rw [hp] at hi
    cases hi
  · rw [hp] at hi hsafe
    cases pc with
    | loadNext old =>
      cases hi
      exact hsafe
    | loadHead | cas _ _ => cases hi
  · obtain ⟨hslot, rfl⟩ := h.slotPtr hp
    rw [hp] at hi
    cases pc with
    | storeNext old =>
      cases hi
      exact hslot.asserts.2.1
    | loadHead | cas _ => cases hi

variable [DecidableEq Thread]

/-- What the threads remember after `t` has moved to the point `p`. -/
lemma setPc (h : SafeInv L s) {p : Pc} (hp : PcSafe L p) (u : Thread) :
    PcSafe L (Function.update s.pc t p u) := by
  by_cases hu : u = t
  · rw [hu, Function.update_self]
    exact hp
  · rw [Function.update_of_ne hu]
    exact h.pcs u

/-- **Every step keeps the invariant**, and a pointer that it returns is that of a slot.

**Proof sketch.** A link is only ever set to a head that was read, and `head_` to a link that was
read or to the slot of a pointer of the ledger. -/
theorem step (h : SafeInv L s) {a : Action Thread} {out : List (Event Thread)}
    (hmove : Move L s a s' out) :
    SafeInv L s' ∧ ∀ t ptr, .allocated t ptr ∈ out → IsSlotPtr L ptr := by
  have hnone : ∀ t ptr, Event.allocated t ptr ∈ ([] : List (Event Thread)) → IsSlotPtr L ptr :=
    fun _ _ hmem => absurd hmem List.not_mem_nil
  cases hmove with
  | allocate hpc => exact ⟨{ h with pcs := h.setPc trivial }, hnone⟩
  | deallocate hpc hown => exact ⟨{ h with pcs := h.setPc ⟨h.ledger _ hown, rfl⟩ }, hnone⟩
  | @handOver t u ptr hpc hown =>
    refine ⟨{ h with ledger := fun e he => ?_ }, hnone⟩
    rcases List.mem_cons.mp he with rfl | he
    · exact h.ledger (t, ptr) hown
    · exact h.ledger e (List.mem_of_mem_erase he)
  | readEmpty hpc hnull => exact ⟨{ h with pcs := h.setPc trivial }, by simp⟩
  | readHead hpc hne => exact ⟨{ h with pcs := h.setPc (h.head.resolve_left hne) }, hnone⟩
  | @readNext t b old hpc =>
    have hold := h.pcs t
    rw [hpc] at hold
    exact ⟨{ h with pcs := h.setPc ⟨hold, h.links old⟩ }, hnone⟩
  | @pop t old new hpc hhead =>
    have hold := h.pcs t
    rw [hpc] at hold
    obtain ⟨hlt, hnew⟩ : old < L.capacity ∧ IsLink L new := hold
    refine ⟨⟨hnew, h.links, fun e he => ?_, h.setPc trivial⟩, fun u ptr hmem => ?_⟩
    · rcases List.mem_cons.mp he with rfl | he
      · exact ⟨old, hlt, rfl⟩
      · exact h.ledger e he
    · cases List.mem_singleton.mp hmem
      exact ⟨old, hlt, rfl⟩
  | readTop hpc =>
    obtain ⟨hslot, hindex⟩ := h.slotPtr hpc
    exact ⟨{ h with pcs := h.setPc ⟨hslot, hindex, h.head⟩ }, hnone⟩
  | @storeNext t b ptr index old hpc =>
    obtain ⟨hslot, hindex⟩ := h.slotPtr hpc
    have hold := h.pcs t
    rw [hpc] at hold
    refine ⟨{ h with links := fun i => ?_, pcs := h.setPc ⟨hslot, hindex⟩ }, hnone⟩
    show IsLink L (Function.update s.mem.next index old i)
    by_cases hi : i = index
    · rw [hi, Function.update_self]
      exact hold.2.2
    · rw [Function.update_of_ne hi]
      exact h.links i
  | push hpc hhead =>
    obtain ⟨hslot, rfl⟩ := h.slotPtr hpc
    exact ⟨⟨Or.inr hslot.asserts.2.1, h.links, fun e he => h.ledger e (List.mem_of_mem_erase he),
      h.setPc trivial⟩, by simp⟩

end SafeInv

variable [DecidableEq Thread]

/-- The invariant holds after the constructor. -/
lemma safeInv_init (L : Layout) (Thread : Type) [DecidableEq Thread] :
    SafeInv L (system L Thread).init :=
  have h := inv_init L Thread
  ⟨h.isLink_head, h.links, fun _ he => absurd he List.not_mem_nil, fun _ => trivial⟩

/-- **No access is out of bounds**, in any run of any number of threads, although slots may be
lost or owned twice. The slot whose `next` a thread is about to load or store is one of the pool;
in `deallocate` both asserts hold, and the slot computed is that of the pointer; `head_` and the
links are `POOL_NULL` or slots; every pointer that `allocate` ever returned is aligned to a cache
line and begins a slot inside the array; and two such pointers are equal or share no byte.

**Proof sketch.** `SafeInv` holds in every run. -/
theorem accesses_in_bounds {es : List (Event Thread)}
    (h : (system L Thread).Run System.anyStep (system L Thread).init es s) :
    (∀ t i, (s.pc t).access = some i → i < L.capacity) ∧
    (∀ t ptr index pc, s.pc t = .deallocating ptr index pc →
      ptr ≠ 0 ∧ index < L.capacity ∧ objectPtr L index = ptr) ∧
    (IsLink L s.mem.head ∧ ∀ i, IsLink L (s.mem.next i)) ∧
    (∀ t ptr, .allocated t ptr ∈ es →
      ptr % 64 = 0 ∧ slotBytes L ptr ⊆ storage L) ∧
    ∀ t ptr u q, .allocated t ptr ∈ es → .allocated u q ∈ es → ptr ≠ q →
      ∀ a ∈ slotBytes L ptr, a ∉ slotBytes L q := by
  obtain ⟨hinv, hslots⟩ : SafeInv L s ∧ ∀ t ptr, .allocated t ptr ∈ es → IsSlotPtr L ptr := by
    refine h.invariant (I := fun es s => SafeInv L s ∧
      ∀ t ptr, .allocated t ptr ∈ es → IsSlotPtr L ptr) ⟨safeInv_init L Thread, by simp⟩ ?_
    rintro es s a s' out ⟨hinv, hslots⟩ - hs
    obtain ⟨hinv', hout⟩ := hinv.step (move_of_step hs)
    refine ⟨hinv', fun t ptr hmem => ?_⟩
    exact (List.mem_append.mp hmem).elim (hslots t ptr) (hout t ptr)
  refine ⟨fun t i hi => hinv.access_lt hi, fun t ptr index pc hpc => ?_,
    ⟨hinv.head, hinv.links⟩, fun t ptr hmem => ?_, fun t ptr u q hptr hq hne a ha => ?_⟩
  · obtain ⟨hslot, rfl⟩ := hinv.slotPtr hpc
    exact hslot.asserts
  · exact ⟨(hslots t ptr hmem).aligned, (hslots t ptr hmem).bytes_subset⟩
  · exact (hslots t ptr hptr).not_mem_bytes (hslots u q hq) hne ha

/-- The run in which slot 1 is returned to both threads. -/
theorem accesses_in_bounds_example :
    ∃ s es, (system twoSlotPool Bool).Run System.anyStep (system twoSlotPool Bool).init es s ∧
      .allocated true 4160 ∈ es ∧ .allocated false 4160 ∈ es ∧
      4160 % 64 = 0 ∧ slotBytes twoSlotPool 4160 ⊆ storage twoSlotPool := by
  have h : ((system twoSlotPool Bool).exec System.anyStep (system twoSlotPool Bool).init
      outdatedSchedule).map (fun r => r.2) =
      some [.allocated true 4096, .allocated true 4160, .deallocated true 4096,
        .allocated false 4096, .allocated false 4160] := by rfl
  obtain ⟨s, es, hrun, rfl⟩ := System.exists_run_of_exec h
  exact ⟨s, _, hrun, by simp, by simp, (accesses_in_bounds hrun).2.2.2.1 true 4160 (by simp)⟩

end NullRing.MemoryPool
