import NullRing.MemoryPool.Ownership

set_option relaxedAutoImplicit false
set_option autoImplicit false

/-!
# Concurrent calls of `allocate`

The compare-and-swap of `allocate` compares `head_` only. A thread that has read the head slot
and its link may be stopped while others allocate that slot and more and then give the slot
back: `head_` is the same again, the link is not, and the compare-and-swap succeeds and installs
the outdated link. A slot is then lost, or is on the chain although it is owned.

## Main results

* `MemoryPool.slots_in_one_place` — as long as no outdated link is installed, each slot is in
  exactly one place, and a step keeps it so if and only if it installs no outdated link.
* `MemoryPool.allocate_returns_owned_slot` — two threads that own the same slot.
-/

namespace NullRing.MemoryPool

open LinkChain Transition

variable {L : Layout} {Thread : Type} [DecidableEq Thread] {s s' : State Thread} {t : Thread}
  {l : List ℕ}

/-- The state after the successful compare-and-swap of `allocate` from `old` to `new`. -/
def afterPop (L : Layout) (s : State Thread) (t : Thread) (old new : ℕ) : State Thread :=
  ⟨{ s.mem with head := new }, Function.update s.pc t .idle, (t, objectPtr L old) :: s.owned⟩

/-- The step that tries the compare-and-swap of `allocate` on the expected head. -/
lemma step_cas {old new : ℕ} (hpc : s.pc t = .allocating (.cas old new))
    (hhead : s.mem.head = old) :
    step L s (.advance t false) =
      some (afterPop L s t old new, [.allocated t (objectPtr L old)]) := by
  simp only [step, hpc, allocStep, hhead, true_and, if_true]
  rfl

/-- **An outdated link breaks the pool.**

**Proof sketch.** Let `x` be the slot after the head slot, and `new ≠ x` the link installed. If
`x` is the end of the chain, then `new` is now on the chain and owned. Otherwise `x` must still
be on the chain, so `new` is a slot from which `x` is reached; it is not owned, so it was on the
chain, after `x`, and a chain does not come back to `x`. -/
theorem Inv.pop_outdated (h : Inv L l s) {old new : ℕ}
    (hpc : s.pc t = .allocating (.cas old new)) (hhead : s.mem.head = old)
    (hne : s.mem.next old ≠ new) :
    ¬ ∀ i < L.capacity, InOnePlace L (afterPop L s t old new) i := by
  intro hall
  obtain ⟨hold, hnew⟩ : old ≠ poolNull ∧ IsLink L new := by
    have := h.pcs t
    rwa [hpc] at this
  subst hhead
  obtain ⟨rest, rfl, hrest⟩ := h.chain.pop hold
  have howned : ownedSlots L (afterPop L s t s.mem.head new) =
      s.mem.head :: ownedSlots L s := by
    have hlt : s.mem.head < L.capacity := h.lt_capacity List.mem_cons_self
    show slotIndex L (objectPtr L s.mem.head) :: ownedSlots L s = _
    rw [slotIndex_objectPtr hlt]
  have hnodup := h.nodup
  -- the link installed is a slot that was on the chain
  have hmem : new ≠ poolNull → new ∈ rest := by
    intro hnull
    have hlt : new < L.capacity := hnew.resolve_left hnull
    rcases hall new hlt with ⟨-, hfree⟩ | ⟨hoff, -⟩
    · rw [owners_eq_nil_iff, howned, List.mem_cons, not_or] at hfree
      have hin := h.places.symm.subset (List.mem_range.mpr hlt)
      rcases List.mem_append.mp hin with hin | hin
      · exact (List.mem_cons.mp hin).resolve_left hfree.1
      · exact absurd hin hfree.2
    · exact absurd (Reaches.here hnull) hoff
  by_cases hlast : s.mem.next s.mem.head = poolNull
  · obtain rfl := hrest.eq_nil_iff.mpr hlast
    exact List.not_mem_nil (hmem fun hnull => hne (hlast.trans hnull.symm))
  · -- the slot after the head slot must still be on the chain
    obtain ⟨rest', rfl, -⟩ := hrest.pop hlast
    have hnodup' : (s.mem.head :: s.mem.next s.mem.head :: rest').Nodup :=
      List.Nodup.of_append_left hnodup
    have hx : s.mem.next s.mem.head ∉ s.mem.head :: ownedSlots L s := by
      intro hin
      rcases List.mem_cons.mp hin with heq | hin
      · exact (List.nodup_cons.mp hnodup').1 (List.mem_cons.mpr (Or.inl heq.symm))
      · exact List.disjoint_of_nodup_append hnodup
          (List.mem_cons_of_mem _ List.mem_cons_self) hin
    have hreach : Reaches s.mem.next poolNull new (s.mem.next s.mem.head) := by
      rcases hall _ (h.lt_capacity (List.mem_cons_of_mem _ List.mem_cons_self)) with
        ⟨hon, -⟩ | ⟨-, u, hu⟩
      · exact hon
      · have hnil := owners_eq_nil_iff.mpr (howned ▸ hx)
        rw [hu] at hnil
        cases hnil
    obtain ⟨front, back, hsplit, hback⟩ := hrest.exists_suffix (hmem hreach.ne_null)
    have hxback := hback.reaches_iff.mp hreach
    rcases front with _ | ⟨y, front⟩
    · exact hne (List.cons.inj hsplit).1
    · obtain ⟨rfl, rfl⟩ := List.cons.inj hsplit
      have hnot := (List.nodup_cons.mp (List.nodup_cons.mp hnodup').2).1
      exact hnot (List.mem_append_right _ hxback)

omit [DecidableEq Thread] in
/-- A step that installs an outdated link is a successful compare-and-swap of `allocate`.

**Proof sketch.** By cases on the action and the program point: `LinkCurrent` asks something of one
of them only, the compare-and-swap of `allocate` that is not spurious. -/
lemma exists_cas_of_not_linkCurrent {a : Action Thread} (h : ¬ LinkCurrent s a) :
    ∃ t old new, a = .advance t false ∧ s.pc t = .allocating (.cas old new) ∧
      s.mem.head = old ∧ s.mem.next old ≠ new := by
  rcases a with t | ⟨t, ptr⟩ | ⟨t, u, ptr⟩ | ⟨t, b⟩
  · exact absurd trivial h
  · exact absurd trivial h
  · exact absurd trivial h
  · cases b with
    | true => exact absurd trivial h
    | false =>
      have hpc : ¬ (s.pc t).LinkCurrent s.mem := h
      rcases hp : s.pc t with _ | pc | _
      · rw [hp] at hpc
        exact absurd trivial hpc
      · rw [hp] at hpc
        cases pc with
        | loadHead => exact absurd trivial hpc
        | loadNext _ => exact absurd trivial hpc
        | cas old new =>
          have himp : ¬ (s.mem.head = old → s.mem.next old = new) := hpc
          obtain ⟨hhead, hne⟩ := Classical.not_imp.mp himp
          exact ⟨t, old, new, rfl, hp, hhead, hne⟩
      · rw [hp] at hpc
        exact absurd trivial hpc

/-- **Each slot is in exactly one place** in every state reached by steps that install no
outdated link; and from such a state, a step keeps each slot in exactly one place if and only if
it installs no outdated link.

**Proof sketch.** The runs keep `Inv` for some chain. A step with a current link keeps it, by
`Inv.step`; any other step breaks the pool, by `Inv.pop_outdated`. -/
theorem slots_in_one_place (h : (system L Thread).Reachable LinkCurrent s) :
    (∀ i < L.capacity, InOnePlace L s i) ∧
    ∀ a s' out, step L s a = some (s', out) →
      (LinkCurrent s a ↔ ∀ i < L.capacity, InOnePlace L s' i) := by
  obtain ⟨es, hrun⟩ := h
  obtain ⟨l, -, hinv⟩ := (simulation_of_linkCurrent L Thread).run hrun
  refine ⟨fun i hi => hinv.inOnePlace hi, fun a s' out hstep => ⟨fun hcur => ?_, fun hall => ?_⟩⟩
  · obtain ⟨l', hinv', -⟩ := hinv.step (move_of_step hstep) hcur
    exact fun i hi => hinv'.inOnePlace hi
  · by_contra hcur
    obtain ⟨t, old, new, rfl, hpc, hhead, hne⟩ := exists_cas_of_not_linkCurrent hcur
    rw [step_cas hpc hhead] at hstep
    cases hstep
    exact hinv.pop_outdated hpc hhead hne hall

/-! ## Two threads on a pool of two slots -/

/-- Two threads allocate at the same time. The compare-and-swap of one fails, so that it goes
round its loop again; the other gives its slot back. -/
def contendedSchedule : List (Action Bool) :=
  [.allocate false, .allocate true,
   .advance false false, .advance true false, .advance false false, .advance true false,
   .advance true false, .advance false false, .advance false false, .advance false false,
   .deallocate true 4096, .advance true false, .advance true false, .advance true false]

/-- Two threads allocate at the same time and no outdated link is installed: both slots are in one
place. -/
theorem slots_in_one_place_example :
    ∃ s, (system twoSlotPool Bool).Reachable LinkCurrent s ∧ s.owned = [(false, 4160)] ∧
      (∀ i < 2, InOnePlace twoSlotPool s i) := by
  have h : ((system twoSlotPool Bool).exec LinkCurrent (system twoSlotPool Bool).init
      contendedSchedule).map (fun r => r.1.owned) = some [(false, 4160)] := by rfl
  obtain ⟨s, es, hrun, howned⟩ := System.exists_run_of_exec h
  exact ⟨s, ⟨es, hrun⟩, howned, (slots_in_one_place ⟨es, hrun⟩).1⟩

/-- The thread `false` reads the head slot 0 and its link 1 and is stopped. The thread `true`
allocates both slots and gives slot 0 back. The compare-and-swap of `false` then succeeds and
installs slot 1, and its next `allocate` returns it. -/
def outdatedSchedule : List (Action Bool) :=
  [.allocate false, .advance false false, .advance false false,
   .allocate true, .advance true false, .advance true false, .advance true false,
   .allocate true, .advance true false, .advance true false, .advance true false,
   .deallocate true 4096, .advance true false, .advance true false, .advance true false,
   .advance false false,
   .allocate false, .advance false false, .advance false false, .advance false false]

/-- **`allocate` returns a slot that is still owned by another thread.** -/
theorem allocate_returns_owned_slot :
    ¬ ∀ s, (system twoSlotPool Bool).Reachable System.anyStep s →
      ∀ i < 2, InOnePlace twoSlotPool s i := by
  intro hall
  have h : ((system twoSlotPool Bool).exec System.anyStep (system twoSlotPool Bool).init
      outdatedSchedule).map (fun r => owners twoSlotPool r.1 1) = some [false, true] := by rfl
  obtain ⟨s, es, hrun, howners⟩ := System.exists_run_of_exec h
  rcases hall s ⟨es, hrun⟩ 1 (by decide) with ⟨-, hnone⟩ | ⟨-, t, hone⟩
  · cases howners.symm.trans hnone
  · cases howners.symm.trans hone

end NullRing.MemoryPool
