import NullRing.MemoryPool.Ownership

set_option relaxedAutoImplicit false
set_option autoImplicit false

/-!
# A single allocating thread

When only one thread calls `allocate`, a slot leaves the chain only by that thread's own
compare-and-swap, and the link of a slot on the chain is never written: `deallocate` writes the
links of owned slots only. The head and the link the allocator remembers are therefore still
accurate when its compare-and-swap succeeds, whatever the other threads have pushed in between,
and the pool is a linearizable stack.

## Main definitions

* `MemoryPool.OnlyAllocator` — no other thread calls `allocate`.
* `MemoryPool.SoleInv` — the invariant.

## Main results

* `MemoryPool.SoleInv.linkCurrent` — no outdated link is installed.
* `MemoryPool.single_allocator_lifo` — the pool is a linearizable stack of slots.
-/

namespace NullRing.MemoryPool

open LinkChain Transition

variable {L : Layout} {Thread : Type} {s s' : State Thread} {t a : Thread} {l l' : List ℕ}

/-- No thread but `a` calls `allocate`. -/
def OnlyAllocator (a : Thread) (_ : State Thread) : Action Thread → Prop
  | .allocate t => t = a
  | _ => True

/-- Decidable, so that schedules can be executed. -/
instance [DecidableEq Thread] (a : Thread) (s : State Thread) (act : Action Thread) :
    Decidable (OnlyAllocator a s act) :=
  match act with
  | .allocate t => inferInstanceAs (Decidable (t = a))
  | .deallocate _ _ => isTrue trivial
  | .handOver _ _ _ => isTrue trivial
  | .advance _ _ => isTrue trivial

/-- What the allocator remembers is accurate: the slot it read as the head is on the chain, and
has the link it read. -/
def Remembers (l : List ℕ) (m : Memory) : Pc → Prop
  | .allocating (.loadNext old) => old ∈ l
  | .allocating (.cas old new) => old ∈ l ∧ m.next old = new
  | _ => True

/-- The invariant of a pool whose free list is the chain `l` and whose only allocator is `a`. -/
structure SoleInv (L : Layout) (a : Thread) (l : List ℕ) (s : State Thread) : Prop
    extends Inv L l s where
  sole : ∀ t pc, s.pc t = .allocating pc → t = a
  remembers : Remembers l s.mem (s.pc a)

/-- What is remembered stays accurate while the chain only grows and keeps its links. -/
lemma Remembers.mono {m m' : Memory} {p : Pc} (h : Remembers l m p) (hsub : l ⊆ l')
    (hnext : ∀ i ∈ l, m'.next i = m.next i) : Remembers l' m' p := by
  cases p with
  | idle => trivial
  | deallocating ptr index pc => trivial
  | allocating pc =>
    cases pc with
    | loadHead => trivial
    | loadNext old => exact hsub h
    | cas old new => exact ⟨hsub h.1, (hnext old h.1).trans h.2⟩

/-- **No outdated link is installed**: a thread about to try its compare-and-swap is the
allocator, which remembers the link of a slot on the chain.

**Proof sketch.** A thread at its compare-and-swap in `allocate` is the allocator, and what it
remembers includes the link of the head it remembers. -/
lemma SoleInv.linkCurrent (h : SoleInv L a l s) (act : Action Thread) : LinkCurrent s act := by
  rcases act with t | ⟨t, ptr⟩ | ⟨t, u, ptr⟩ | ⟨t, b⟩
  · trivial
  · trivial
  · trivial
  · cases b with
    | true => trivial
    | false =>
      show (s.pc t).LinkCurrent s.mem
      rcases hp : s.pc t with _ | pc | _
      · trivial
      · obtain rfl : t = a := h.sole t pc hp
        have hmem := h.remembers
        rw [hp] at hmem
        cases pc with
        | loadHead => trivial
        | loadNext old => trivial
        | cas old new => exact fun _ => hmem.2
      · trivial

/-- The chain only grows, except by the compare-and-swap of `allocate`.

**Proof sketch.** By cases on the event: a call that finds the pool exhausted has an empty chain,
and a `deallocate` puts a slot on it. -/
lemma StackEffect.subset {out : List (Event Thread)} (h : StackEffect L l l' out)
    (hnone : ∀ t ptr, out ≠ [.allocated t ptr]) : l ⊆ l' := by
  rcases out with _ | ⟨e, _ | ⟨e', rest⟩⟩
  · cases h
    exact List.Subset.refl _
  · cases e with
    | allocated t ptr => exact absurd rfl (hnone t ptr)
    | exhausted t =>
      obtain ⟨rfl, -⟩ := h
      exact List.nil_subset _
    | deallocated t ptr =>
      cases h
      exact List.subset_cons_self ..
  · cases e <;> cases h

variable [DecidableEq Thread]

/-- The program points after `t` has moved to the point `p`.

**Proof sketch.** A thread other than `t` is where it was. If the allocator is not `t` it remembers
what it did, and otherwise it remembers what `p` does. -/
lemma SoleInv.pcs_update (h : SoleInv L a l s) {p : Pc}
    (hp : ∀ pc, p = .allocating pc → t = a ∧ Remembers l s.mem p) :
    (∀ u pc, Function.update s.pc t p u = .allocating pc → u = a) ∧
      Remembers l s.mem (Function.update s.pc t p a) := by
  constructor
  · intro u pc hu
    by_cases hut : u = t
    · subst hut
      rw [Function.update_self] at hu
      exact (hp pc hu).1
    · rw [Function.update_of_ne hut] at hu
      exact h.sole u pc hu
  · by_cases hat : a = t
    · subst hat
      rw [Function.update_self]
      cases p with
      | idle => trivial
      | allocating pc => exact (hp pc rfl).2
      | deallocating ptr index pc => trivial
    · rw [Function.update_of_ne hat]
      exact h.remembers

/-- After a step only the allocator is in `allocate`, and what it remembers was accurate before
the step.

**Proof sketch.** By cases on the step. The allocator comes to remember something in three of them:
it calls `allocate`, it loads a head that is not null and so is on the chain, and it loads the link
of that head. -/
lemma SoleInv.pcs_move (h : SoleInv L a l s) {act : Action Thread} {out : List (Event Thread)}
    (hmove : Move L s act s' out) (honly : OnlyAllocator a s act) :
    (∀ u pc, s'.pc u = .allocating pc → u = a) ∧ Remembers l s.mem (s'.pc a) := by
  cases hmove with
  | allocate hpc => exact h.pcs_update fun _ _ => ⟨honly, trivial⟩
  | deallocate hpc hown => exact h.pcs_update nofun
  | handOver hpc hown => exact ⟨h.sole, h.remembers⟩
  | readEmpty hpc hnull => exact h.pcs_update nofun
  | @readHead t b pc hpc hne =>
    refine h.pcs_update fun _ _ => ⟨h.sole t pc hpc, ?_⟩
    obtain ⟨rest, hl, -⟩ := h.chain.pop hne
    show s.mem.head ∈ l
    rw [hl]
    exact List.mem_cons_self
  | @readNext t b old hpc =>
    obtain rfl := h.sole t _ hpc
    have hmem := h.remembers
    rw [hpc] at hmem
    exact h.pcs_update fun _ _ => ⟨rfl, hmem, rfl⟩
  | pop hpc hhead => exact h.pcs_update nofun
  | readTop hpc => exact h.pcs_update nofun
  | storeNext hpc => exact h.pcs_update nofun
  | push hpc hhead => exact h.pcs_update nofun

/-- The thread whose `allocate` returns is the allocator, which is idle then. -/
lemma SoleInv.idle_of_allocated (h : SoleInv L a l s) {act : Action Thread} {ptr : ℕ}
    (hmove : Move L s act s' [.allocated t ptr]) : s'.pc a = .idle := by
  cases hmove with
  | pop hpc hhead =>
    obtain rfl := h.sole t _ hpc
    exact Function.update_self ..

/-- **The step lemma**: with one allocator every step keeps the invariant and acts on the chain
as on a stack.

**Proof sketch.** By `linkCurrent` the general step lemma applies. What the allocator remembers
stays accurate since the chain only grows and keeps its links, except when its own
compare-and-swap succeeds, and then it remembers nothing. -/
theorem SoleInv.step (h : SoleInv L a l s) {act : Action Thread} {out : List (Event Thread)}
    (hmove : Move L s act s' out) (honly : OnlyAllocator a s act) :
    ∃ l', SoleInv L a l' s' ∧ StackEffect L l l' out := by
  obtain ⟨l', hinv', heffect⟩ := h.toInv.step hmove (h.linkCurrent act)
  obtain ⟨hsole, hrem⟩ := h.pcs_move hmove honly
  refine ⟨l', { hinv' with sole := hsole, remembers := ?_ }, heffect⟩
  by_cases hpop : ∃ t ptr, out = [.allocated t ptr]
  · obtain ⟨t, ptr, rfl⟩ := hpop
    rw [h.idle_of_allocated hmove]
    trivial
  · have hsub : l ⊆ l' := heffect.subset fun t ptr hout => hpop ⟨t, ptr, hout⟩
    exact hrem.mono hsub fun i hi => h.toInv.next_eq hmove hi

/-- With one allocator, the pool simulates the abstract stack. -/
lemma soleInv_simulation (L : Layout) (a : Thread) :
    ForwardSimulation (system L Thread) (OnlyAllocator a)
      (LifoStack.spec (List.range L.capacity)) (Event.stack? L) (fun s l => SoleInv L a l s) where
  init := { inv_init L Thread with sole := nofun, remembers := trivial }
  step h honly hstep := by
    obtain ⟨l', h', heffect⟩ := h.step (move_of_step hstep) honly
    exact ⟨l', heffect.run fun _ => h.lt_capacity, h'⟩

/-- **With a single allocating thread the pool is a linearizable stack of slots.** The pool
simulates the abstract stack that holds all slots at first. In every reachable state the chain
from `head_` is finite, repeats no slot, and together with the slots of the ledger, from which
it is disjoint, is the slots of the pool. Every step acts on the chain as on a stack: the
compare-and-swap of `allocate` takes its top slot off and returns it, that of `deallocate` puts
its slot on top, `allocate` returns `nullptr` when the chain is empty at that step, and no other
step changes the chain. The slots that stay on the chain keep their links.

**Proof sketch.** The runs keep `SoleInv`, by `SoleInv.step`. -/
theorem single_allocator_lifo (L : Layout) (a : Thread) :
    ForwardSimulation (system L Thread) (OnlyAllocator a)
      (LifoStack.spec (List.range L.capacity)) (Event.stack? L) (fun s l => SoleInv L a l s) ∧
    ∀ s, (system L Thread).Reachable (OnlyAllocator a) s →
      ∃ l, Chain s.mem.next poolNull s.mem.head l ∧ l.Nodup ∧ l.Disjoint (ownedSlots L s) ∧
        (l ++ ownedSlots L s).Perm (List.range L.capacity) ∧
        ∀ act s' out, OnlyAllocator a s act → step L s act = some (s', out) →
          ∃ l', Chain s'.mem.next poolNull s'.mem.head l' ∧ StackEffect L l l' out ∧
            ∀ i ∈ l, s'.mem.next i = s.mem.next i := by
  refine ⟨soleInv_simulation L a, ?_⟩
  intro s hreach
  obtain ⟨es, hrun⟩ := hreach
  obtain ⟨l, -, h⟩ := (soleInv_simulation L a).run hrun
  refine ⟨l, h.chain, h.chain.nodup, List.disjoint_of_nodup_append h.nodup, h.places, ?_⟩
  intro act s' out honly hstep
  have hmove := move_of_step hstep
  obtain ⟨l', h', heffect⟩ := h.step hmove honly
  exact ⟨l', h'.chain, heffect, fun i hi => h.toInv.next_eq hmove hi⟩

/-- The thread `false` allocates a slot and hands it over to `true`, which has written its link
and not yet put it back, while `false` allocates another. -/
def handOverSchedule : List (Action Bool) :=
  [.allocate false, .advance false false, .advance false false, .advance false false,
   .handOver false true 4096, .deallocate true 4096, .advance true false, .allocate false,
   .advance true false, .advance false false, .advance false true, .advance false false]

/-- A slot is handed over, and while its new owner is about to put it back the allocator takes
another: two slots are owned and one is free. -/
theorem single_allocator_lifo_example :
    ∃ s l, (system threeSlotPool Bool).Reachable (OnlyAllocator false) s ∧
      ownedSlots threeSlotPool s = [1, 0] ∧ Chain s.mem.next poolNull s.mem.head l ∧
      (l ++ [1, 0]).Perm [0, 1, 2] := by
  have h : ((system threeSlotPool Bool).exec (OnlyAllocator false) (system threeSlotPool Bool).init
      handOverSchedule).map (fun r => ownedSlots threeSlotPool r.1) = some [1, 0] := by rfl
  obtain ⟨s, es, hrun, howned⟩ := System.exists_run_of_exec h
  obtain ⟨l, hchain, -, -, hplaces, -⟩ :=
    (single_allocator_lifo threeSlotPool false).2 s ⟨es, hrun⟩
  rw [howned] at hplaces
  exact ⟨s, l, ⟨es, hrun⟩, howned, hchain, hplaces⟩

end NullRing.MemoryPool
