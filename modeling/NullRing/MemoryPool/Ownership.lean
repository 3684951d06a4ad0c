import Mathlib.Data.List.Count
import Mathlib.Data.List.Perm.Basic
import NullRing.MemoryPool.Basic
import NullRing.Stack.LinkChain

set_option relaxedAutoImplicit false
set_option autoImplicit false

/-!
# Where the slots of a pool are

Each slot should be in exactly one place: on the chain reached from `head_`, or in the ledger
with one owner. The invariant `Inv` says that the chain and the slots of the ledger together
are the slots of the pool, each once, and what a thread inside `deallocate` may rely on. Every
step keeps it, except for a compare-and-swap of `allocate` that succeeds although the link of
the head slot is no longer the one the thread read; `LinkCurrent` excludes that.

## Main definitions

* `MemoryPool.InOnePlace` — a slot is on the chain, or has exactly one owner.
* `MemoryPool.Move` — the steps, one constructor for each kind.
* `MemoryPool.LinkCurrent` — no successful compare-and-swap installs an outdated link.
* `MemoryPool.Inv` — the invariant.

## Main results

* `MemoryPool.move_of_step` — the steps of the system are moves.
* `MemoryPool.Inv.step` — a step with current links keeps the invariant, and acts on the chain
  as on a stack.
* `MemoryPool.Inv.inOnePlace` — the invariant puts each slot in exactly one place.
-/

namespace NullRing.MemoryPool

open LinkChain Transition

variable {L : Layout} {Thread : Type} {s s' : State Thread} {t u : Thread} {l : List ℕ}
  {i ptr index : ℕ}

/-! ## Slots on the chain and slots of the ledger -/

/-- The slot is visited when the links are followed from `head_`. -/
def OnChain (s : State Thread) (i : ℕ) : Prop := Reaches s.mem.next poolNull s.mem.head i

/-- The owners of a slot, one for each entry of the ledger. -/
def owners (L : Layout) (s : State Thread) (i : ℕ) : List Thread :=
  (s.owned.filter fun e => slotIndex L e.2 = i).map Prod.fst

/-- The slot is in exactly one place: on the chain, or owned by exactly one caller. -/
def InOnePlace (L : Layout) (s : State Thread) (i : ℕ) : Prop :=
  (OnChain s i ∧ owners L s i = []) ∨ (¬ OnChain s i ∧ ∃ t, owners L s i = [t])

/-- The slots of the ledger. -/
def ownedSlots (L : Layout) (s : State Thread) : List ℕ := s.owned.map fun e => slotIndex L e.2

/-- A slot occurs in the ledger once for each owner. -/
lemma length_owners (L : Layout) (s : State Thread) (i : ℕ) :
    (owners L s i).length = (ownedSlots L s).count i := by
  rw [owners, ownedSlots, List.length_map, List.count_eq_countP, List.countP_map,
    List.countP_eq_length_filter]
  rfl

/-- A slot is in the ledger when it has an owner. -/
lemma owners_eq_nil_iff : owners L s i = [] ↔ i ∉ ownedSlots L s := by
  rw [← List.length_eq_zero_iff, length_owners, List.count_eq_zero]

/-! ## The invariant -/

/-- A value of `head_` or of a `next`: the end of a chain, or a slot. -/
def IsLink (L : Layout) (v : ℕ) : Prop := v = poolNull ∨ v < L.capacity

/-- What `allocate` relies on. -/
def AllocOk (L : Layout) : AllocPc → Prop
  | .loadHead => True
  | .loadNext old => old ≠ poolNull
  | .cas old new => old ≠ poolNull ∧ IsLink L new

/-- What `deallocate` relies on, for the slot `index`. -/
def DeallocOk (L : Layout) (m : Memory) (index : ℕ) : DeallocPc → Prop
  | .loadHead => True
  | .storeNext old => IsLink L old
  | .cas old => m.next index = old

/-- What a thread relies on. -/
def PcOk (L : Layout) (s : State Thread) (t : Thread) : Pc → Prop
  | .idle => True
  | .allocating pc => AllocOk L pc
  | .deallocating ptr index pc =>
    (t, ptr) ∈ s.owned ∧ index = slotIndex L ptr ∧ DeallocOk L s.mem index pc

/-- The invariant of a pool whose free list is the chain `l`. -/
structure Inv (L : Layout) (l : List ℕ) (s : State Thread) : Prop where
  chain : Chain s.mem.next poolNull s.mem.head l
  places : (l ++ ownedSlots L s).Perm (List.range L.capacity)
  ledger : ∀ e ∈ s.owned, ∃ i < L.capacity, e.2 = objectPtr L i
  links : ∀ i, IsLink L (s.mem.next i)
  pcs : ∀ t, PcOk L s t (s.pc t)

namespace Inv

/-- No slot is in two places. -/
lemma nodup (h : Inv L l s) : (l ++ ownedSlots L s).Nodup :=
  h.places.nodup_iff.mpr List.nodup_range

/-- The slots on the chain are slots of the pool. -/
lemma lt_capacity (h : Inv L l s) (hi : i ∈ l) : i < L.capacity :=
  List.mem_range.mp (h.places.subset (List.mem_append_left _ hi))

/-- `head_` is a slot or the end of the chain. -/
lemma isLink_head (h : Inv L l s) : IsLink L s.mem.head := by
  by_cases hnull : s.mem.head = poolNull
  · exact Or.inl hnull
  · obtain ⟨rest, hl, -⟩ := h.chain.pop hnull
    exact Or.inr (h.lt_capacity (by rw [hl]; exact List.mem_cons_self))

/-- A slot of the ledger is not on the chain. -/
lemma not_mem_of_owned (h : Inv L l s) (hown : (t, ptr) ∈ s.owned) : slotIndex L ptr ∉ l :=
  fun hmem => (List.disjoint_of_nodup_append h.nodup) hmem (List.mem_map_of_mem hown)

/-- Two entries of the ledger are for different slots. -/
lemma owned_injective (h : Inv L l s) {q : ℕ} (hp : (t, ptr) ∈ s.owned) (hq : (u, q) ∈ s.owned)
    (heq : slotIndex L q = slotIndex L ptr) : u = t :=
  congrArg Prod.fst (List.inj_on_of_nodup_map (List.Nodup.of_append_right h.nodup) hq hp heq)

/-- **The asserts of `deallocate` hold** of a pointer in the ledger: it is not null, and its
slot is one of the pool. -/
theorem asserts (h : Inv L l s) (hown : (t, ptr) ∈ s.owned) :
    ptr ≠ 0 ∧ slotIndex L ptr < L.capacity := by
  obtain ⟨i, hi, hptr⟩ := h.ledger _ hown
  obtain rfl : ptr = objectPtr L i := hptr
  have hbase := L.base_pos
  rw [slotIndex_objectPtr hi, objectPtr]
  exact ⟨by omega, hi⟩

/-- **Each slot is in exactly one place.**

**Proof sketch.** A slot occurs once in the chain and the slots of the ledger together; it is
reached from `head_` when it occurs in the chain, and has as many owners as it occurs in the
slots of the ledger. -/
theorem inOnePlace (h : Inv L l s) (hi : i < L.capacity) : InOnePlace L s i := by
  have hcount : l.count i + (ownedSlots L s).count i = 1 := by
    rw [← List.count_append, h.places.count_eq]
    exact List.count_eq_one_of_mem List.nodup_range (List.mem_range.mpr hi)
  have hchain : OnChain s i ↔ i ∈ l := h.chain.reaches_iff
  by_cases hmem : i ∈ l
  · have hpos : 0 < l.count i := List.count_pos_iff.mpr hmem
    refine Or.inl ⟨hchain.mpr hmem, ?_⟩
    rw [owners_eq_nil_iff, ← List.count_eq_zero]
    omega
  · have hzero : l.count i = 0 := List.count_eq_zero.mpr hmem
    refine Or.inr ⟨fun hon => hmem (hchain.mp hon), ?_⟩
    rw [← List.length_eq_one_iff, length_owners]
    omega

end Inv

/-- What a thread relies on is kept when its ledger entries and the links of its slots are. -/
lemma PcOk.frame {p : Pc} (h : PcOk L s t p)
    (howned : ∀ q, (t, q) ∈ s.owned → (t, q) ∈ s'.owned)
    (hnext : ∀ q, (t, q) ∈ s.owned →
      s'.mem.next (slotIndex L q) = s.mem.next (slotIndex L q)) : PcOk L s' t p := by
  cases p with
  | idle => trivial
  | allocating pc => exact h
  | deallocating ptr index pc =>
    obtain ⟨hown, rfl, hpc⟩ := h
    refine ⟨howned _ hown, rfl, ?_⟩
    cases pc with
    | loadHead => trivial
    | storeNext old => exact hpc
    | cas old => exact (hnext _ hown).trans hpc

/-! ## The steps -/

variable [DecidableEq Thread]

/-- The steps of the system, with what each does to the state. The failing branches of the two
compare-and-swaps read `head_` again, as the first steps of the calls do. -/
inductive Move (L : Layout) (s : State Thread) :
    Action Thread → State Thread → List (Event Thread) → Prop
  | allocate {t : Thread} : s.pc t = .idle →
      Move L s (.allocate t) { s with pc := Function.update s.pc t (.allocating .loadHead) } []
  | deallocate {t : Thread} {ptr : ℕ} : s.pc t = .idle → (t, ptr) ∈ s.owned →
      Move L s (.deallocate t ptr)
        { s with pc := Function.update s.pc t (.deallocating ptr (slotIndex L ptr) .loadHead) } []
  | handOver {t u : Thread} {ptr : ℕ} : s.pc t = .idle → (t, ptr) ∈ s.owned →
      Move L s (.handOver t u ptr) { s with owned := (u, ptr) :: s.owned.erase (t, ptr) } []
  | readEmpty {t : Thread} {b : Bool} {pc : AllocPc} : s.pc t = .allocating pc →
      s.mem.head = poolNull →
      Move L s (.advance t b) { s with pc := Function.update s.pc t .idle } [.exhausted t]
  | readHead {t : Thread} {b : Bool} {pc : AllocPc} : s.pc t = .allocating pc →
      s.mem.head ≠ poolNull →
      Move L s (.advance t b)
        { s with pc := Function.update s.pc t (.allocating (.loadNext s.mem.head)) } []
  | readNext {t : Thread} {b : Bool} {old : ℕ} : s.pc t = .allocating (.loadNext old) →
      Move L s (.advance t b)
        { s with pc := Function.update s.pc t (.allocating (.cas old (s.mem.next old))) } []
  | pop {t : Thread} {old new : ℕ} : s.pc t = .allocating (.cas old new) → s.mem.head = old →
      Move L s (.advance t false)
        ⟨{ s.mem with head := new }, Function.update s.pc t .idle,
          (t, objectPtr L old) :: s.owned⟩ [.allocated t (objectPtr L old)]
  | readTop {t : Thread} {b : Bool} {ptr index : ℕ} {pc : DeallocPc} :
      s.pc t = .deallocating ptr index pc →
      Move L s (.advance t b)
        { s with pc := Function.update s.pc t (.deallocating ptr index (.storeNext s.mem.head)) }
        []
  | storeNext {t : Thread} {b : Bool} {ptr index old : ℕ} :
      s.pc t = .deallocating ptr index (.storeNext old) →
      Move L s (.advance t b)
        { s with mem := { s.mem with next := Function.update s.mem.next index old },
                 pc := Function.update s.pc t (.deallocating ptr index (.cas old)) } []
  | push {t : Thread} {ptr index old : ℕ} :
      s.pc t = .deallocating ptr index (.cas old) → s.mem.head = old →
      Move L s (.advance t false)
        ⟨{ s.mem with head := index }, Function.update s.pc t .idle, s.owned.erase (t, ptr)⟩
        [.deallocated t ptr]

/-- The test of the loop of `allocate`, by the head just read. -/
lemma move_whileHead {pc : AllocPc} {b : Bool} (hpc : s.pc t = .allocating pc) :
    Move L s (.advance t b) (afterAlloc s t (s.mem, whileHead s.mem.head)).1
      (afterAlloc s t (s.mem, whileHead s.mem.head)).2 := by
  rw [whileHead]
  split
  case isTrue hnull => exact .readEmpty hpc hnull
  case isFalse hne => exact .readHead hpc hne

/-- A step of `allocate` is a move. -/
lemma move_allocStep {pc : AllocPc} {b : Bool} (hpc : s.pc t = .allocating pc) :
    Move L s (.advance t b) (afterAlloc s t (allocStep L s.mem b pc)).1
      (afterAlloc s t (allocStep L s.mem b pc)).2 := by
  cases pc with
  | loadHead => exact move_whileHead hpc
  | loadNext old => exact .readNext hpc
  | cas old new =>
    by_cases hcas : s.mem.head = old ∧ b = false
    · obtain ⟨hhead, rfl⟩ := hcas
      rw [allocStep, if_pos ⟨hhead, rfl⟩]
      exact .pop hpc hhead
    · rw [allocStep, if_neg hcas]
      exact move_whileHead hpc

/-- A step of `deallocate` is a move. -/
lemma move_deallocStep {pc : DeallocPc} {b : Bool} (hpc : s.pc t = .deallocating ptr index pc) :
    Move L s (.advance t b) (afterDealloc s t ptr index (deallocStep s.mem b index pc)).1
      (afterDealloc s t ptr index (deallocStep s.mem b index pc)).2 := by
  cases pc with
  | loadHead => exact .readTop hpc
  | storeNext old => exact .storeNext hpc
  | cas old =>
    by_cases hcas : s.mem.head = old ∧ b = false
    · obtain ⟨hhead, rfl⟩ := hcas
      rw [deallocStep, if_pos ⟨hhead, rfl⟩]
      exact .push hpc hhead
    · rw [deallocStep, if_neg hcas]
      exact .readTop hpc

/-- **Inversion of a step.**

**Proof sketch.** The guards of the four actions are the guards of the constructors; a step inside a
call is taken apart by `move_allocStep` and `move_deallocStep`. -/
theorem move_of_step {a : Action Thread} {out : List (Event Thread)}
    (h : step L s a = some (s', out)) : Move L s a s' out := by
  cases a with
  | allocate t =>
    simp only [step] at h
    split at h
    case h_1 hpc => cases h; exact .allocate hpc
    case h_2 => cases h
  | deallocate t ptr =>
    simp only [step] at h
    split at h
    case isTrue hguard => cases h; exact .deallocate hguard.1 hguard.2
    case isFalse => cases h
  | handOver t u ptr =>
    simp only [step] at h
    split at h
    case isTrue hguard => cases h; exact .handOver hguard.1 hguard.2
    case isFalse => cases h
  | advance t b =>
    simp only [step] at h
    split at h
    case h_1 => cases h
    case h_2 pc hpc =>
      obtain ⟨rfl, rfl⟩ := Prod.mk.inj (Option.some.inj h)
      exact move_allocStep hpc
    case h_3 ptr index pc hpc =>
      obtain ⟨rfl, rfl⟩ := Prod.mk.inj (Option.some.inj h)
      exact move_deallocStep hpc

/-- What a step shows of the free list, seen as a stack of slots. -/
def Event.stack? (L : Layout) : Event Thread → Option (LifoStack.Event ℕ)
  | .allocated _ ptr => some (.pop (slotIndex L ptr))
  | .exhausted _ => some .seenEmpty
  | .deallocated _ ptr => some (.push (slotIndex L ptr))

/-- What a step that emits the given events does to the chain `l` reached from `head_`: an
`allocate` that succeeds takes the top slot off and returns it, one that fails has seen the
chain empty, and a `deallocate` puts its slot on top. -/
def StackEffect (L : Layout) (l l' : List ℕ) : List (Event Thread) → Prop
  | [] => l' = l
  | [.allocated _ ptr] => ∃ i, ptr = objectPtr L i ∧ l = i :: l'
  | [.exhausted _] => l = [] ∧ l' = []
  | [.deallocated _ ptr] => l' = slotIndex L ptr :: l
  | _ => False

omit [DecidableEq Thread] in
/-- The effect of a step is a run of the abstract stack.

**Proof sketch.** No event is no step. A pointer given out is a pop of its slot's index, a null one
is a look at the empty stack, and a pointer taken back is a push. -/
lemma StackEffect.run {l' l₀ : List ℕ} {out : List (Event Thread)}
    (h : StackEffect L l l' out) (hl : ∀ i ∈ l, i < L.capacity) :
    (LifoStack.spec l₀).Run l (out.filterMap (Event.stack? L)) l' := by
  rcases out with _ | ⟨e, _ | ⟨e', rest⟩⟩
  · cases h
    exact .nil
  · cases e with
    | allocated t ptr =>
      obtain ⟨i, rfl, rfl⟩ := h
      refine .single ?_
      show LifoStack.Step (i :: l') (.pop (slotIndex L (objectPtr L i))) l'
      rw [slotIndex_objectPtr (hl i List.mem_cons_self)]
      exact .pop
    | exhausted t =>
      obtain ⟨rfl, rfl⟩ := h
      exact .single .seenEmpty
    | deallocated t ptr =>
      cases h
      exact .single .push
  · cases e <;> cases h

/-- When a compare-and-swap of `allocate` would succeed, the link of the head slot is still
the one the thread read. -/
def Pc.LinkCurrent (m : Memory) : Pc → Prop
  | .allocating (.cas old new) => m.head = old → m.next old = new
  | _ => True

/-- No step installs an outdated link: `Pc.LinkCurrent` holds before every attempt of a
compare-and-swap that does not fail spuriously. -/
def LinkCurrent (s : State Thread) : Action Thread → Prop
  | .advance t false => (s.pc t).LinkCurrent s.mem
  | _ => True

/-- Whether the link remembered is current can be evaluated. -/
instance (m : Memory) (p : Pc) : Decidable (p.LinkCurrent m) :=
  match p with
  | .allocating (.cas old new) => inferInstanceAs (Decidable (m.head = old → m.next old = new))
  | .allocating .loadHead => isTrue trivial
  | .allocating (.loadNext _) => isTrue trivial
  | .idle => isTrue trivial
  | .deallocating _ _ _ => isTrue trivial

/-- Decidable, so that schedules can be executed. -/
instance (s : State Thread) (a : Action Thread) : Decidable (LinkCurrent s a) :=
  match a with
  | .advance t false => inferInstanceAs (Decidable ((s.pc t).LinkCurrent s.mem))
  | .advance _ true => isTrue trivial
  | .allocate _ => isTrue trivial
  | .deallocate _ _ => isTrue trivial
  | .handOver _ _ _ => isTrue trivial

/-! ## The steps keep the invariant -/

/-- An entry of the ledger accounts for its slot. -/
lemma ownedSlots_perm_erase (hown : (t, ptr) ∈ s.owned) :
    (ownedSlots L s).Perm
      (slotIndex L ptr :: (s.owned.erase (t, ptr)).map fun e => slotIndex L e.2) :=
  (List.perm_cons_erase hown).map fun e : Thread × ℕ => slotIndex L e.2

/-- What the threads rely on after a step of `t`. -/
lemma pcOk_update {p : Pc} (hself : PcOk L s' t p) (hother : ∀ u, u ≠ t → PcOk L s' u (s.pc u))
    (u : Thread) : PcOk L s' u (Function.update s.pc t p u) := by
  by_cases hu : u = t
  · subst hu
    rwa [Function.update_self]
  · rw [Function.update_of_ne hu]
    exact hother u hu

namespace Inv

/-- A step that only moves `t` to another program point. -/
lemma setPc (h : Inv L l s) {p : Pc} (hp : PcOk L s t p) :
    Inv L l { s with pc := Function.update s.pc t p } :=
  { h with
    pcs := pcOk_update (hp.frame (fun _ => id) fun _ _ => rfl)
      fun u _ => (h.pcs u).frame (fun _ => id) fun _ _ => rfl }

/-- An entry of the ledger handed to another thread.

**Proof sketch.** The slots owned are the same, up to their order. The thread that gives the pointer
away is outside the calls; a thread inside `deallocate` keeps its own. -/
lemma handOver (h : Inv L l s) (hidle : s.pc t = .idle) (hown : (t, ptr) ∈ s.owned) :
    Inv L l { s with owned := (u, ptr) :: s.owned.erase (t, ptr) } := by
  refine { h with places := ?_, ledger := fun e he => ?_, pcs := fun v => ?_ }
  · exact ((ownedSlots_perm_erase hown).append_left l).symm.trans h.places
  · rcases List.mem_cons.mp he with rfl | he
    · exact h.ledger (t, ptr) hown
    · exact h.ledger e (List.mem_of_mem_erase he)
  · by_cases hv : v = t
    · subst hv
      rw [show ({ s with owned := (u, ptr) :: s.owned.erase (v, ptr) } : State Thread).pc v = .idle
        from hidle]
      trivial
    · refine (h.pcs v).frame (fun q hq => List.mem_cons_of_mem _ ?_) fun _ _ => rfl
      exact (List.mem_erase_of_ne fun heq => hv (congrArg Prod.fst heq)).mpr hq

/-- The store of a link, by a thread that deallocates the slot.

**Proof sketch.** The slot written is in a thread's hand, so it is not on the chain and the chain is
the same. Its link is now the remembered head, which is what the next point asks, and another thread
that deallocates has another slot. -/
lemma storeNext (h : Inv L l s) {old : ℕ}
    (hpc : s.pc t = .deallocating ptr index (.storeNext old)) :
    Inv L l { s with
      mem := { s.mem with next := Function.update s.mem.next index old },
      pc := Function.update s.pc t (.deallocating ptr index (.cas old)) } := by
  obtain ⟨hown, rfl, hold⟩ : (t, ptr) ∈ s.owned ∧ index = slotIndex L ptr ∧ IsLink L old := by
    have := h.pcs t
    rwa [hpc] at this
  refine { h with chain := h.chain.update (h.not_mem_of_owned hown) old, links := fun i => ?_,
                  pcs := pcOk_update ⟨hown, rfl, Function.update_self ..⟩ fun u hu => ?_ }
  · show IsLink L (Function.update s.mem.next (slotIndex L ptr) old i)
    by_cases hi : i = slotIndex L ptr
    · rwa [hi, Function.update_self]
    · rw [Function.update_of_ne hi]
      exact h.links i
  · -- another thread that deallocates does so with another slot
    refine (h.pcs u).frame (fun _ => id) fun q hq => Function.update_of_ne ?_ ..
    intro heq
    exact hu (h.owned_injective hown hq heq)

/-- The successful compare-and-swap of `allocate`, with a current link.

**Proof sketch.** The head is the first slot of the chain, and its link is the rest of it, since the
link is current. The slot moves from the list to the hands of the thread. -/
lemma pop (h : Inv L l s) {old new : ℕ} (hpc : s.pc t = .allocating (.cas old new))
    (hhead : s.mem.head = old) (hne : old ≠ poolNull) (hlink : s.mem.next old = new) :
    ∃ rest, l = old :: rest ∧ Inv L rest
      ⟨{ s.mem with head := new }, Function.update s.pc t .idle,
        (t, objectPtr L old) :: s.owned⟩ := by
  subst hhead hlink
  obtain ⟨rest, rfl, hrest⟩ := h.chain.pop hne
  have hlt : s.mem.head < L.capacity := h.lt_capacity List.mem_cons_self
  refine ⟨rest, rfl, { chain := hrest, places := ?_, ledger := fun e he => ?_, links := h.links,
                       pcs := pcOk_update trivial fun u _ =>
                         (h.pcs u).frame (fun _ => List.mem_cons_of_mem _) fun _ _ => rfl }⟩
  · show (rest ++ slotIndex L (objectPtr L s.mem.head) :: ownedSlots L s).Perm _
    rw [slotIndex_objectPtr hlt]
    exact List.perm_middle.trans h.places
  · rcases List.mem_cons.mp he with rfl | he
    · exact ⟨_, hlt, rfl⟩
    · exact h.ledger e he

/-- The successful compare-and-swap of `deallocate`.

**Proof sketch.** The slot's link is the old head, so the slot goes in front of the chain. It moves
from the threads' hands to the list, and the threads that deallocate other slots keep theirs. -/
lemma push (h : Inv L l s) {old : ℕ} (hpc : s.pc t = .deallocating ptr index (.cas old))
    (hhead : s.mem.head = old) :
    Inv L (slotIndex L ptr :: l)
      ⟨{ s.mem with head := index }, Function.update s.pc t .idle, s.owned.erase (t, ptr)⟩ := by
  obtain ⟨hown, rfl, hlink⟩ : (t, ptr) ∈ s.owned ∧ index = slotIndex L ptr ∧
      s.mem.next index = old := by
    have := h.pcs t
    rwa [hpc] at this
  subst hhead
  have hne : slotIndex L ptr ≠ poolNull := by
    have h1 := (h.asserts hown).2
    have h2 := L.capacity_lt
    omega
  refine { chain := h.chain.push hne hlink, places := ?_,
           ledger := fun e he => h.ledger e (List.mem_of_mem_erase he), links := h.links,
           pcs := pcOk_update trivial fun u hu => (h.pcs u).frame (fun q hq => ?_) fun _ _ => rfl }
  · exact List.perm_middle.symm.trans
      (((ownedSlots_perm_erase hown).append_left l).symm.trans h.places)
  · exact (List.mem_erase_of_ne fun heq => hu (congrArg Prod.fst heq)).mpr hq

/-- The links of the slots on the chain are not written. -/
lemma next_eq (h : Inv L l s) {a : Action Thread} {out : List (Event Thread)}
    (hmove : Move L s a s' out) (hi : i ∈ l) : s'.mem.next i = s.mem.next i := by
  cases hmove with
  | @storeNext t b ptr index old hpc =>
    have hok := h.pcs t
    rw [hpc] at hok
    obtain ⟨hown, rfl, -⟩ := hok
    refine Function.update_of_ne ?_ ..
    rintro rfl
    exact h.not_mem_of_owned hown hi
  | _ => rfl

/-- **A step with a current link keeps the invariant**, and acts on the chain as on a stack.

**Proof sketch.** The moves that write neither `head_` nor the ledger are `setPc`; the others
are `handOver`, `storeNext`, `pop` and `push`. -/
theorem step (h : Inv L l s) {a : Action Thread} {out : List (Event Thread)}
    (hmove : Move L s a s' out) (hcur : LinkCurrent s a) :
    ∃ l', Inv L l' s' ∧ StackEffect L l l' out := by
  cases hmove with
  | allocate hpc => exact ⟨l, h.setPc trivial, rfl⟩
  | deallocate hpc hown => exact ⟨l, h.setPc ⟨hown, rfl, trivial⟩, rfl⟩
  | handOver hpc hown => exact ⟨l, h.handOver hpc hown, rfl⟩
  | readEmpty hpc hnull =>
    have hnil : l = [] := h.chain.eq_nil_iff.mpr hnull
    exact ⟨l, h.setPc trivial, hnil, hnil⟩
  | readHead hpc hne => exact ⟨l, h.setPc hne, rfl⟩
  | @readNext t b old hpc =>
    have hok := h.pcs t
    rw [hpc] at hok
    exact ⟨l, h.setPc ⟨hok, h.links old⟩, rfl⟩
  | @pop t old new hpc hhead =>
    have hok := h.pcs t
    rw [hpc] at hok
    obtain ⟨hne, -⟩ : old ≠ poolNull ∧ IsLink L new := hok
    have hlink : (s.pc t).LinkCurrent s.mem := hcur
    rw [hpc] at hlink
    obtain ⟨rest, rfl, hinv⟩ := h.pop hpc hhead hne (hlink hhead)
    exact ⟨rest, hinv, old, rfl, rfl⟩
  | @readTop t b ptr index pc hpc =>
    have hok := h.pcs t
    rw [hpc] at hok
    exact ⟨l, h.setPc ⟨hok.1, hok.2.1, h.isLink_head⟩, rfl⟩
  | storeNext hpc => exact ⟨l, h.storeNext hpc, rfl⟩
  | push hpc hhead => exact ⟨_, h.push hpc hhead, rfl⟩

end Inv

/-! ## The constructor -/

/-- The loop of the constructor writes the links below `n`. -/
lemma foldl_links (n i : ℕ) :
    (List.range n).foldl (fun next j => Function.update next j (j + 1)) (fun _ => poolNull) i =
      if i < n then i + 1 else poolNull := by
  induction n with
  | zero => rfl
  | succ n ih =>
    rw [List.range_succ, List.foldl_append, List.foldl_cons, List.foldl_nil]
    by_cases hi : i = n
    · rw [hi, Function.update_self, if_pos (Nat.lt_succ_self n)]
    · rw [Function.update_of_ne hi, ih]
      by_cases hlt : i < n
      · rw [if_pos hlt, if_pos (by omega)]
      · rw [if_neg hlt, if_neg (by omega)]

/-- The links after the constructor. -/
lemma next_init (L : Layout) (i : ℕ) :
    (Memory.init L).next i = if i + 1 < L.capacity then i + 1 else poolNull := by
  have hcap := L.capacity_pos
  simp only [Memory.init]
  by_cases hi : i = L.capacity - 1
  · rw [hi, Function.update_self, if_neg (by omega)]
  · rw [Function.update_of_ne hi, foldl_links]
    by_cases hlt : i + 1 < L.capacity
    · rw [if_pos (by omega), if_pos hlt]
    · rw [if_neg (by omega), if_neg hlt]

/-- After the constructor the chain is all slots, in order.

**Proof sketch.** The constructor links slot `i` to `i + 1` and the last one to null, so the chain
from slot 0 is all of them in order; and no thread holds a slot. -/
lemma inv_init (L : Layout) (Thread : Type) [DecidableEq Thread] :
    Inv L (List.range L.capacity) (system L Thread).init := by
  have hcap := L.capacity_pos
  have hlt := L.capacity_lt
  refine { chain := ?_, places := ?_, ledger := nofun, links := fun i => ?_,
           pcs := fun _ => trivial }
  · rw [List.range_eq_range']
    show Chain (Memory.init L).next poolNull 0 _
    refine chain_range' (by omega) ?_ ?_ hcap
    · intro i _ hi
      exact (next_init L i).trans (if_pos (by omega))
    · intro _
      exact (next_init L _).trans (if_neg (by omega))
  · rw [show ownedSlots L (system L Thread).init = [] from rfl, List.append_nil]
  · show IsLink L ((Memory.init L).next i)
    rw [next_init]
    split
    case isTrue hi => exact Or.inr hi
    case isFalse => exact Or.inl rfl

/-- **A pool acts on its free list as on a stack**, as long as no compare-and-swap of
`allocate` installs an outdated link. -/
theorem simulation_of_linkCurrent (L : Layout) (Thread : Type) [DecidableEq Thread] :
    ForwardSimulation (system L Thread) LinkCurrent (LifoStack.spec (List.range L.capacity))
      (Event.stack? L) (fun s l => Inv L l s) where
  init := inv_init L Thread
  step hinv hcur hstep := by
    obtain ⟨l', hinv', heffect⟩ := hinv.step (move_of_step hstep) hcur
    exact ⟨l', heffect.run fun _ => hinv.lt_capacity, hinv'⟩

end NullRing.MemoryPool
