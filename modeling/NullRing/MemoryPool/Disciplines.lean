import Mathlib.Data.Fintype.Defs
import NullRing.MemoryPool.ConcurrentAllocate
import NullRing.MemoryPool.SingleAllocator

set_option relaxedAutoImplicit false
set_option autoImplicit false

/-!
# How to share a pool

The link that a thread has read in `allocate` becomes outdated in one way only: another thread
takes the same slot, and writes its link in `deallocate` before the first tries its
compare-and-swap. A run in which no link is written at such a moment is free of hazards, and in
such a run the pool is a linearizable stack for any number of allocating threads. Two ways to use a
pool ensure it: calls of `allocate` that do not overlap each other (under a lock, say, while
`deallocate` needs none), and phases of allocation that alternate with phases of deallocation.

## Main definitions

* `MemoryPool.NoHazard` — no step writes the link of a slot that another thread is about to take.
* `MemoryPool.OneAllocate`, `MemoryPool.Phased` — the two ways to use a pool.

## Main results

* `MemoryPool.hazard_free_lifo` — without hazards the pool is a stack, and every slot is in one
  place.
* `MemoryPool.locked_allocate_lifo` — so it is when calls of `allocate` do not overlap each other.
* `MemoryPool.phased_lifo` — and when no `allocate` overlaps a `deallocate`.
-/

namespace NullRing.MemoryPool

open LinkChain Transition

variable {L : Layout} {Thread : Type} {s s' : State Thread} {t u : Thread} {l : List ℕ}

/-! ## Hazards -/

/-- The thread has read the slot as the head, and its link, and is about to take it. -/
def Pc.holds (index : ℕ) : Pc → Bool
  | .allocating (.cas oldHead _) => oldHead == index
  | _ => false

/-- The slot whose link the next step of the thread writes. -/
def Pc.writes : Pc → Option ℕ
  | .deallocating _ index (.storeNext _) => some index
  | _ => none

/-- No step writes the link of a slot that another thread is about to take. -/
def NoHazard (s : State Thread) : Action Thread → Prop
  | .advance t _ => ∀ index ∈ (s.pc t).writes, ∀ u, (s.pc u).holds index = false
  | _ => True

/-- Decidable, so that schedules can be executed. -/
instance [Fintype Thread] (s : State Thread) (a : Action Thread) : Decidable (NoHazard s a) :=
  match a with
  | .advance t _ => inferInstanceAs
      (Decidable (∀ index ∈ (s.pc t).writes, ∀ u, (s.pc u).holds index = false))
  | .allocate _ => isTrue trivial
  | .deallocate _ _ => isTrue trivial
  | .handOver _ _ _ => isTrue trivial

/-- The link that a thread has read is that of the slot. -/
def Pc.Recalls (m : Memory) : Pc → Prop
  | .allocating (.cas old new) => m.next old = new
  | _ => True

/-- The invariant of a pool without hazards: the links that were read are current. -/
structure CurrentInv (L : Layout) (l : List ℕ) (s : State Thread) : Prop extends Inv L l s where
  recalls : ∀ t, (s.pc t).Recalls s.mem

/-- What is recalled stays so while the link of the slot is kept. -/
lemma Pc.Recalls.mono {m m' : Memory} {p : Pc} (h : p.Recalls m)
    (hnext : ∀ i, p.holds i = true → m'.next i = m.next i) : p.Recalls m' := by
  rcases p with _ | pc | _
  · trivial
  · cases pc with
    | cas old new => exact (hnext old (beq_self_eq_true old)).trans h
    | loadHead | loadNext _ => trivial
  · trivial

namespace CurrentInv

/-- No outdated link is installed.

**Proof sketch.** Only the compare-and-swap of `allocate` is asked something, and what it recalls is
what is asked. -/
lemma linkCurrent (h : CurrentInv L l s) (a : Action Thread) : LinkCurrent s a := by
  rcases a with t | ⟨t, ptr⟩ | ⟨t, u, ptr⟩ | ⟨t, b⟩
  · trivial
  · trivial
  · trivial
  · cases b with
    | true => trivial
    | false =>
      show (s.pc t).LinkCurrent s.mem
      have hrecalls := h.recalls t
      rcases hp : s.pc t with _ | pc | _
      · trivial
      · rw [hp] at hrecalls
        cases pc with
        | cas old new => exact fun _ => hrecalls
        | loadHead | loadNext _ => trivial
      · trivial

variable [DecidableEq Thread]

/-- A step that keeps the links and moves `t` to the point `p`. -/
lemma recalls_update (h : CurrentInv L l s) {m : Memory} (hnext : m.next = s.mem.next) {p : Pc}
    (hp : p.Recalls m) (u : Thread) : (Function.update s.pc t p u).Recalls m := by
  by_cases hu : u = t
  · rw [hu, Function.update_self]
    exact hp
  · rw [Function.update_of_ne hu]
    exact (h.recalls u).mono fun i _ => congrFun hnext i

/-- After a step without a hazard the links that were read are current.

**Proof sketch.** The thread that moves recalls nothing at its new point, except after the load
of `next`, when the link it recalls has just been read. Links change in one step only, the store
of `deallocate`, and by `NoHazard` no thread at its compare-and-swap remembers that slot. -/
lemma recalls_move (h : CurrentInv L l s) {a : Action Thread} {out : List (Event Thread)}
    (hmove : Move L s a s' out) (hno : NoHazard s a) (u : Thread) :
    (s'.pc u).Recalls s'.mem := by
  cases hmove with
  | handOver hpc hown => exact h.recalls u
  | allocate hpc => exact h.recalls_update rfl (p := .allocating .loadHead) trivial u
  | @deallocate t ptr hpc hown =>
    exact h.recalls_update rfl (p := .deallocating ptr (slotIndex L ptr) .loadHead) trivial u
  | readEmpty hpc hnull => exact h.recalls_update rfl (p := .idle) trivial u
  | readHead hpc hne =>
    exact h.recalls_update rfl (p := .allocating (.loadNext s.mem.head)) trivial u
  | @readNext t b old hpc =>
    exact h.recalls_update rfl (p := .allocating (.cas old (s.mem.next old))) rfl u
  | pop hpc hhead => exact h.recalls_update rfl (p := .idle) trivial u
  | @readTop t b ptr index pc hpc =>
    exact h.recalls_update rfl (p := .deallocating ptr index (.storeNext s.mem.head)) trivial u
  | push hpc hhead => exact h.recalls_update rfl (p := .idle) trivial u
  | @storeNext t b ptr index old hpc =>
    show (Function.update s.pc t (.deallocating ptr index (.cas old)) u).Recalls
      { s.mem with next := Function.update s.mem.next index old }
    by_cases hu : u = t
    · rw [hu, Function.update_self]
      trivial
    · rw [Function.update_of_ne hu]
      refine (h.recalls u).mono fun i hholds => Function.update_of_ne ?_ ..
      -- the slot that another thread is about to take is not the one written
      rintro rfl
      have hfree := hno i (by rw [hpc]; exact Option.mem_some_self i) u
      rw [hholds] at hfree
      cases hfree

/-- **A step without a hazard keeps the invariant**, and acts on the chain as on a stack. -/
theorem step (h : CurrentInv L l s) {a : Action Thread} {out : List (Event Thread)}
    (hmove : Move L s a s' out) (hno : NoHazard s a) :
    ∃ l', CurrentInv L l' s' ∧ StackEffect L l l' out := by
  obtain ⟨l', hinv', heffect⟩ := h.toInv.step hmove (h.linkCurrent a)
  exact ⟨l', { hinv' with recalls := h.recalls_move hmove hno }, heffect⟩

end CurrentInv

variable [DecidableEq Thread]

/-- After the constructor no link was read. -/
lemma currentInv_init (L : Layout) (Thread : Type) [DecidableEq Thread] :
    CurrentInv L (List.range L.capacity) (system L Thread).init :=
  { inv_init L Thread with recalls := fun _ => trivial }

/-- Without hazards, the pool simulates the abstract stack. -/
lemma currentInv_simulation (L : Layout) (Thread : Type) [DecidableEq Thread] :
    ForwardSimulation (system L Thread) NoHazard (LifoStack.spec (List.range L.capacity))
      (Event.stack? L) (fun s l => CurrentInv L l s) where
  init := currentInv_init L Thread
  step h hno hstep := by
    obtain ⟨l', h', heffect⟩ := h.step (move_of_step hstep) hno
    exact ⟨l', heffect.run fun _ => h.lt_capacity, h'⟩

/-- The runs under the condition `P` use the pool as a linearizable stack: the returns of the calls
are those of a stack that holds all slots at first, each slot is in exactly one place at every
moment, and no step installs an outdated link. -/
def LinearizableStack (L : Layout) (Thread : Type) [DecidableEq Thread]
    (P : State Thread → Action Thread → Prop) : Prop :=
  (∀ es s, (system L Thread).Run P (system L Thread).init es s →
    ∃ l, (LifoStack.spec (List.range L.capacity)).Run (List.range L.capacity)
      (es.filterMap (Event.stack? L)) l ∧ Chain s.mem.next poolNull s.mem.head l) ∧
  ∀ s, (system L Thread).Reachable P s →
    (∀ i < L.capacity, InOnePlace L s i) ∧ ∀ a, LinkCurrent s a

/-- A condition that rules hazards out makes the pool a linearizable stack.

**Proof sketch.** The runs keep `CurrentInv`: a link that was read stays that of its slot, since
only `deallocate` writes links, and only that of a slot that no thread is about to take. -/
theorem linearizableStack_of_noHazard {P : State Thread → Action Thread → Prop}
    (hP : ∀ s a, (system L Thread).Reachable P s → P s a → NoHazard s a) :
    LinearizableStack L Thread P := by
  constructor
  · intro es s hrun
    obtain ⟨l, hstack, h⟩ := (currentInv_simulation L Thread).run (hrun.of_reachable hP)
    exact ⟨l, hstack, h.chain⟩
  · rintro s ⟨es, hrun⟩
    obtain ⟨l, -, h⟩ := (currentInv_simulation L Thread).run (hrun.of_reachable hP)
    exact ⟨fun i hi => h.inOnePlace hi, h.linkCurrent⟩

/-- **Without hazards the pool is a linearizable stack**, for any number of threads that call
`allocate` and `deallocate` and any interleaving of their steps. -/
theorem hazard_free_lifo (L : Layout) (Thread : Type) [DecidableEq Thread] :
    LinearizableStack L Thread NoHazard :=
  linearizableStack_of_noHazard fun _ _ _ hno => hno

/-- Two calls of `allocate` that overlap, one of which tries again, and a `deallocate` after them
are free of hazards; those that end with two owners of a slot are not. -/
example :
    ((system twoSlotPool Bool).exec NoHazard (system twoSlotPool Bool).init
      contendedSchedule).isSome = true ∧
    ((system twoSlotPool Bool).exec NoHazard (system twoSlotPool Bool).init
      outdatedSchedule).isSome = false := by
  constructor <;> rfl

/-- A run free of hazards in which two calls of `allocate` overlap: both slots are in one place. -/
theorem hazard_free_lifo_example :
    ∃ s, (system twoSlotPool Bool).Reachable NoHazard s ∧ s.owned = [(false, 4160)] ∧
      ∀ i < 2, InOnePlace twoSlotPool s i := by
  have h : ((system twoSlotPool Bool).exec NoHazard (system twoSlotPool Bool).init
      contendedSchedule).map (fun r => r.1.owned) = some [(false, 4160)] := by rfl
  obtain ⟨s, es, hrun, howned⟩ := System.exists_run_of_exec h
  exact ⟨s, ⟨es, hrun⟩, howned, ((hazard_free_lifo twoSlotPool Bool).2 s ⟨es, hrun⟩).1⟩

/-! ## Calls of `allocate` that do not overlap each other -/

omit [DecidableEq Thread] in
/-- A slot whose link is about to be written is not on the chain.

**Proof sketch.** The thread is inside `deallocate` with a slot it owns, and a slot is owned or on
the chain. -/
lemma Inv.writes_not_mem (h : Inv L l s) {index : ℕ} (hindex : index ∈ (s.pc t).writes) :
    index ∉ l := by
  have hok := h.pcs t
  rcases hp : s.pc t with _ | pc | ⟨ptr, i, pc⟩
  · rw [hp] at hindex
    cases hindex
  · rw [hp] at hindex
    cases hindex
  · rw [hp] at hindex hok
    obtain ⟨hown, rfl, -⟩ := hok
    cases pc with
    | storeNext old =>
      obtain rfl := Option.mem_some_iff.mp hindex
      exact h.not_mem_of_owned hown
    | loadHead | cas _ => cases hindex

/-- The thread is in `allocate`. -/
def Pc.inAllocate : Pc → Bool
  | .allocating _ => true
  | _ => false

/-- The thread is in `deallocate`. -/
def Pc.inDeallocate : Pc → Bool
  | .deallocating _ _ _ => true
  | _ => false

/-- The thread that takes the step. -/
def Action.thread : Action Thread → Thread
  | .allocate t => t
  | .deallocate t _ => t
  | .handOver t _ _ => t
  | .advance t _ => t

/-- No thread calls `allocate` while one is in it. -/
def OneAllocate (s : State Thread) : Action Thread → Prop
  | .allocate _ => ∀ u, (s.pc u).inAllocate = false
  | _ => True

/-- Decidable, so that schedules can be executed. -/
instance [Fintype Thread] (s : State Thread) (a : Action Thread) : Decidable (OneAllocate s a) :=
  match a with
  | .allocate _ => inferInstanceAs (Decidable (∀ u, (s.pc u).inAllocate = false))
  | .deallocate _ _ => isTrue trivial
  | .handOver _ _ _ => isTrue trivial
  | .advance _ _ => isTrue trivial

/-- The invariant of a pool with one call of `allocate` at a time: the caller remembers the head
and its link as they are. -/
structure LockedInv (L : Layout) (l : List ℕ) (s : State Thread) : Prop extends Inv L l s where
  sole : ∀ t u, (s.pc t).inAllocate = true → (s.pc u).inAllocate = true → t = u
  remembers : ∀ t, Remembers l s.mem (s.pc t)

omit [DecidableEq Thread] in
/-- A thread that is not in `allocate` has nothing to remember. -/
lemma remembers_of_not_inAllocate {m : Memory} {p : Pc} (h : p.inAllocate = false) :
    Remembers l m p := by
  cases p with
  | allocating pc => cases h
  | idle | deallocating _ _ _ => trivial

namespace LockedInv

omit [DecidableEq Thread]

/-- At each step there is a thread that is the only one to allocate.

**Proof sketch.** If a thread is inside `allocate` it is the one, and `OneAllocate` keeps the others
from calling. If there is none, the thread that moves is. -/
lemma exists_sole (h : LockedInv L l s) {a : Action Thread} (hone : OneAllocate s a) :
    ∃ v, SoleInv L v l s ∧ OnlyAllocator v s a := by
  by_cases hany : ∃ v, (s.pc v).inAllocate = true
  · obtain ⟨v, hv⟩ := hany
    refine ⟨v, { h.toInv with
      sole := fun t pc hpc => h.sole t v (by rw [hpc]; rfl) hv, remembers := h.remembers v }, ?_⟩
    cases a with
    | allocate t =>
      have hfree : (s.pc v).inAllocate = false := hone v
      rw [hv] at hfree
      cases hfree
    | deallocate _ _ | handOver _ _ _ | advance _ _ => trivial
  · refine ⟨a.thread, { h.toInv with
      sole := fun t pc hpc => absurd ⟨t, by rw [hpc]; rfl⟩ hany,
      remembers := h.remembers a.thread }, ?_⟩
    cases a with
    | allocate t => rfl
    | deallocate _ _ | handOver _ _ _ | advance _ _ => trivial

/-- With one allocating thread, calls of `allocate` do not overlap.

**Proof sketch.** Every thread inside `allocate` is `v`; the others remember nothing. -/
lemma of_sole {v : Thread} (h : SoleInv L v l s) : LockedInv L l s := by
  have hall : ∀ t, (s.pc t).inAllocate = true → t = v := by
    intro t ht
    cases hp : s.pc t with
    | allocating pc => exact h.sole t pc hp
    | idle | deallocating _ _ _ =>
      rw [hp] at ht
      cases ht
  refine { h.toInv with sole := fun t u ht hu => (hall t ht).trans (hall u hu).symm,
                        remembers := fun t => ?_ }
  cases ht : (s.pc t).inAllocate with
  | true =>
    rw [hall t ht]
    exact h.remembers
  | false => exact remembers_of_not_inAllocate ht

/-- No step is a hazard: the slot that a thread is about to take is on the chain, and the slots
whose links are written are not.

**Proof sketch.** A thread at its compare-and-swap in `allocate` remembers a slot on the chain, and
a thread about to write a link has a slot in hand, which is not on the chain. -/
lemma noHazard (h : LockedInv L l s) (a : Action Thread) : NoHazard s a := by
  cases a with
  | advance t b =>
    intro index hindex u
    have hoff := h.writes_not_mem hindex
    have hrem := h.remembers u
    by_contra hholds
    cases hp : s.pc u with
    | allocating pc =>
      rw [hp] at hholds hrem
      cases pc with
      | cas old new =>
        have heq : old = index := by simpa [Pc.holds] using hholds
        exact hoff (heq ▸ hrem.1)
      | loadHead | loadNext _ => exact hholds rfl
    | idle | deallocating _ _ _ =>
      rw [hp] at hholds
      exact hholds rfl
  | allocate _ | deallocate _ _ | handOver _ _ _ => trivial

end LockedInv

/-- The invariant holds in every state reached with one call of `allocate` at a time. -/
lemma lockedInv_of_reachable (h : (system L Thread).Reachable OneAllocate s) :
    ∃ l, LockedInv L l s := by
  refine h.invariant (I := fun s => ∃ l, LockedInv L l s)
    ⟨_, { inv_init L Thread with
      sole := fun _ _ h => absurd h Bool.false_ne_true, remembers := fun _ => trivial }⟩ ?_
  rintro s a s' out ⟨l, hinv⟩ hone hs
  obtain ⟨v, hsole, honly⟩ := hinv.exists_sole hone
  obtain ⟨l', hsole', -⟩ := hsole.step (move_of_step hs) honly
  exact ⟨l', .of_sole hsole'⟩

/-- **A lock around `allocate` is enough**: if no two calls of `allocate` overlap each other, the
pool is a linearizable stack, whatever the calls of `deallocate` overlap.

**Proof sketch.** At each step there is one thread that is the only one to allocate, so the step
lemma of a single allocating thread applies; and the slot that it has read is on the chain, so
that no `deallocate` writes its link. -/
theorem locked_allocate_lifo (L : Layout) (Thread : Type) [DecidableEq Thread] :
    LinearizableStack L Thread OneAllocate := by
  refine linearizableStack_of_noHazard fun s a hreach _ => ?_
  obtain ⟨l, hinv⟩ := lockedInv_of_reachable hreach
  exact hinv.noHazard a

/-- One thread gives a slot back while another allocates, which so has to try again. -/
def lockedSchedule : List (Action Bool) :=
  [.allocate false, .advance false false, .advance false false, .advance false false,
   .allocate true, .advance true false, .advance true false,
   .deallocate false 4096, .advance false false, .advance false false, .advance false false,
   .advance true false, .advance true false, .advance true false]

/-- A run in which a `deallocate` overlaps an `allocate`: both slots are in one place. -/
theorem locked_allocate_lifo_example :
    ∃ s, (system twoSlotPool Bool).Reachable OneAllocate s ∧ s.owned = [(true, 4096)] ∧
      ∀ i < 2, InOnePlace twoSlotPool s i := by
  have h : ((system twoSlotPool Bool).exec OneAllocate (system twoSlotPool Bool).init
      lockedSchedule).map (fun r => r.1.owned) = some [(true, 4096)] := by rfl
  obtain ⟨s, es, hrun, howned⟩ := System.exists_run_of_exec h
  exact ⟨s, ⟨es, hrun⟩, howned, ((locked_allocate_lifo twoSlotPool Bool).2 s ⟨es, hrun⟩).1⟩

/-! ## Phases -/

/-- No thread calls `allocate` while another is in `deallocate`, nor the other way round. -/
def Phased (s : State Thread) : Action Thread → Prop
  | .allocate _ => ∀ u, (s.pc u).inDeallocate = false
  | .deallocate _ _ => ∀ u, (s.pc u).inAllocate = false
  | _ => True

/-- Decidable, so that schedules can be executed. -/
instance [Fintype Thread] (s : State Thread) (a : Action Thread) : Decidable (Phased s a) :=
  match a with
  | .allocate _ => inferInstanceAs (Decidable (∀ u, (s.pc u).inDeallocate = false))
  | .deallocate _ _ => inferInstanceAs (Decidable (∀ u, (s.pc u).inAllocate = false))
  | .handOver _ _ _ => isTrue trivial
  | .advance _ _ => isTrue trivial

/-- In each state at most one of the two calls is under way. -/
def OnePhase (s : State Thread) : Prop :=
  ∀ t u, (s.pc t).inAllocate = true → (s.pc u).inDeallocate = false

omit [DecidableEq Thread] in
/-- No step is a hazard while at most one of the two calls is under way.

**Proof sketch.** A thread about to write a link is inside `deallocate`, so no thread is inside
`allocate`, and none remembers a slot to be taken. -/
lemma OnePhase.noHazard (h : OnePhase s) (a : Action Thread) : NoHazard s a := by
  cases a with
  | advance t b =>
    intro index hindex u
    by_contra hholds
    have hallocate : (s.pc u).inAllocate = true := by
      cases hp : s.pc u with
      | allocating pc => rfl
      | idle | deallocating _ _ _ =>
        rw [hp] at hholds
        exact absurd rfl hholds
    have hfree := h u t hallocate
    cases hp : s.pc t with
    | deallocating ptr i pc =>
      rw [hp] at hfree
      cases hfree
    | idle | allocating _ =>
      rw [hp] at hindex
      cases hindex
  | allocate _ | deallocate _ _ | handOver _ _ _ => trivial

/-- A thread comes into a call only by making it.

**Proof sketch.** By cases on the step: one thread moves, and the others stay. The calls put the
thread at the start of `allocate` or of `deallocate`, and any other step leaves it in the call it is
in, or idle. -/
lemma Move.calls {a : Action Thread} {out : List (Event Thread)} (hmove : Move L s a s' out)
    (u : Thread) :
    ((s'.pc u).inAllocate = true → (s.pc u).inAllocate = true ∨ a = .allocate u) ∧
      ((s'.pc u).inDeallocate = true →
        (s.pc u).inDeallocate = true ∨ ∃ ptr, a = .deallocate u ptr) := by
  -- the thread `t` moves from the point `s.pc t` to the point `p`
  have hupdate : ∀ (t : Thread) (p : Pc),
      (p.inAllocate = true → (s.pc t).inAllocate = true ∨ a = .allocate t) →
      (p.inDeallocate = true → (s.pc t).inDeallocate = true ∨ ∃ ptr, a = .deallocate t ptr) →
      ((Function.update s.pc t p u).inAllocate = true →
          (s.pc u).inAllocate = true ∨ a = .allocate u) ∧
        ((Function.update s.pc t p u).inDeallocate = true →
          (s.pc u).inDeallocate = true ∨ ∃ ptr, a = .deallocate u ptr) := by
    intro t p hallocate hdeallocate
    by_cases hu : u = t
    · subst hu
      rw [Function.update_self]
      exact ⟨hallocate, hdeallocate⟩
    · rw [Function.update_of_ne hu]
      exact ⟨Or.inl, Or.inl⟩
  cases hmove with
  | allocate hpc => exact hupdate _ _ (fun _ => Or.inr rfl) (by simp [Pc.inDeallocate])
  | deallocate hpc hown =>
    exact hupdate _ _ (by simp [Pc.inAllocate]) fun _ => Or.inr ⟨_, rfl⟩
  | handOver hpc hown => exact ⟨Or.inl, Or.inl⟩
  | readEmpty hpc hnull =>
    exact hupdate _ _ (by simp [Pc.inAllocate]) (by simp [Pc.inDeallocate])
  | readHead hpc _ | readNext hpc =>
    exact hupdate _ _ (fun _ => Or.inl (by rw [hpc]; rfl)) (by simp [Pc.inDeallocate])
  | pop hpc hhead | push hpc hhead =>
    exact hupdate _ _ (by simp [Pc.inAllocate]) (by simp [Pc.inDeallocate])
  | readTop hpc | storeNext hpc =>
    exact hupdate _ _ (by simp [Pc.inAllocate]) fun _ => Or.inl (by rw [hpc]; rfl)

/-- A step in phases leaves at most one of the two calls under way.

**Proof sketch.** Suppose a thread is inside `allocate` and another inside `deallocate` after the
step. If both were so before, or both came in by the step, this is excluded by the invariant or by
there being one action; and if one came in, `Phased` says that the other was not there. -/
lemma OnePhase.step (h : OnePhase s) {a : Action Thread} {out : List (Event Thread)}
    (hmove : Move L s a s' out) (hphased : Phased s a) : OnePhase s' := by
  intro t u ht
  by_contra hu
  have hfree := h t u
  rcases (hmove.calls t).1 ht with hbefore | rfl <;>
    rcases (hmove.calls u).2 (by simpa using hu) with hbefore' | ⟨ptr, hcall⟩
  · rw [hfree hbefore] at hbefore'
    cases hbefore'
  · subst hcall
    have hnone : (s.pc t).inAllocate = false := hphased t
    rw [hbefore] at hnone
    cases hnone
  · have hnone : (s.pc u).inDeallocate = false := hphased u
    rw [hbefore'] at hnone
    cases hnone
  · cases hcall

/-- **Phases are enough**: if no `allocate` overlaps a `deallocate`, the pool is a linearizable
stack, whatever calls of `allocate` overlap each other, and calls of `deallocate` each other.

**Proof sketch.** At most one of the two calls is under way in any state reached, so no link is
written while a thread is in `allocate`. -/
theorem phased_lifo (L : Layout) (Thread : Type) [DecidableEq Thread] :
    LinearizableStack L Thread Phased := by
  refine linearizableStack_of_noHazard fun s a hreach _ => OnePhase.noHazard ?_ a
  exact hreach.invariant (I := OnePhase) (fun _ _ h => absurd h Bool.false_ne_true)
    fun _ _ _ _ hI hphased hs => hI.step (move_of_step hs) hphased

/-- A run in phases, in which two calls of `allocate` overlap: both slots are in one place. -/
theorem phased_lifo_example :
    ∃ s, (system twoSlotPool Bool).Reachable Phased s ∧ s.owned = [(false, 4160)] ∧
      ∀ i < 2, InOnePlace twoSlotPool s i := by
  have h : ((system twoSlotPool Bool).exec Phased (system twoSlotPool Bool).init
      contendedSchedule).map (fun r => r.1.owned) = some [(false, 4160)] := by rfl
  obtain ⟨s, es, hrun, howned⟩ := System.exists_run_of_exec h
  exact ⟨s, ⟨es, hrun⟩, howned, ((phased_lifo twoSlotPool Bool).2 s ⟨es, hrun⟩).1⟩

end NullRing.MemoryPool
