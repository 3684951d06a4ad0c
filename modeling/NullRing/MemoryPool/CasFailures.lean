import NullRing.MemoryPool.Basic
import NullRing.Transition.Counting
import NullRing.Transition.Trace

set_option relaxedAutoImplicit false
set_option autoImplicit false

/-!
# Failures of the compare-and-swap loops

A compare-and-swap that does not fail spuriously fails because `head_` has changed since the
thread last read it, and after the failure the thread has read it again. So each failure of a
thread is paid for by a compare-and-swap of another thread that succeeded in between: a
remembered head that differs from `head_` is a failure already paid for and not yet suffered.

## Main definitions

* `MemoryPool.casOutcome` — the compare-and-swap a step performs, with its outcome.
* `MemoryPool.Pc.Fresh` — the thread remembers no head other than the present one.
* `MemoryPool.Pc.after` — the next program point of a call.

## Main results

* `MemoryPool.Pc.afterCas` — what the thread remembers after a step.
* `MemoryPool.failures_add_stale_le` — failures suffered and failures pending.
* `MemoryPool.cas_failures_amortised` — the bounds for one thread and for all, and the calls of
  a thread that runs alone.
-/

namespace NullRing.MemoryPool

open Transition Counting

variable {L : Layout} {Thread : Type} {s s' : State Thread} {t u : Thread}

/-! ## Compare-and-swap attempts -/

/-- How a compare-and-swap ends. -/
inductive CasOutcome
  | succeeded
  /-- `head_` was the value expected, but the weak compare-and-swap failed. -/
  | spurious
  /-- `head_` was not the value expected. -/
  | failed
  deriving DecidableEq, Repr

namespace Pc

/-- The value of `head_` expected by the compare-and-swap the thread is about to try. -/
def expected : Pc → Option ℕ
  | .allocating (.cas old _) => some old
  | .deallocating _ _ (.cas old) => some old
  | _ => none

/-- The last value of `head_` the thread has read in its call. -/
def remembered : Pc → Option ℕ
  | .allocating (.loadNext old) => some old
  | .deallocating _ _ (.storeNext old) => some old
  | p => p.expected

/-- The outcome of the compare-and-swap the thread is about to try. -/
def outcome (head : ℕ) (spurious : Bool) (p : Pc) : Option CasOutcome :=
  p.expected.map fun old =>
    if head ≠ old then .failed else if spurious then .spurious else .succeeded

/-- The thread remembers no value of `head_` other than `head`. -/
def Fresh (head : ℕ) (p : Pc) : Prop := p.remembered = none ∨ p.remembered = some head

/-- Whether a point is up to date can be evaluated. -/
instance (head : ℕ) (p : Pc) : Decidable (p.Fresh head) := inferInstanceAs (Decidable (_ ∨ _))

/-- What is expected is what is remembered. -/
lemma remembered_of_expected {p : Pc} {old : ℕ} (h : p.expected = some old) :
    p.remembered = some old := by
  rcases p with _ | pc | ⟨ptr, index, pc⟩
  · cases h
  · cases pc with
    | cas old new => exact h
    | loadHead => cases h
    | loadNext old => cases h
  · cases pc with
    | cas old => exact h
    | loadHead => cases h
    | storeNext old => cases h

/-- A compare-and-swap that expects the present head succeeds unless it fails spuriously. -/
lemma outcome_false {p : Pc} {head : ℕ} (h : p.expected = some head) :
    p.outcome head false = some .succeeded := by
  simp [outcome, h]

/-- A compare-and-swap that expects the present head may fail spuriously. -/
lemma outcome_true {p : Pc} {head : ℕ} (h : p.expected = some head) :
    p.outcome head true = some .spurious := by
  simp [outcome, h]

/-- A compare-and-swap that expects another head fails. -/
lemma outcome_of_ne {p : Pc} {head old : ℕ} (h : p.expected = some old) (hne : head ≠ old)
    (b : Bool) : p.outcome head b = some .failed := by
  simp [outcome, h, hne]

/-- A compare-and-swap fails only for a thread that remembers another head. -/
lemma not_fresh_of_failed {p : Pc} {head : ℕ} {b : Bool} (h : p.outcome head b = some .failed) :
    ¬ p.Fresh head := by
  obtain ⟨old, hold, hout⟩ := Option.map_eq_some_iff.mp h
  have hne : head ≠ old := by
    intro heq
    rw [if_neg (not_not.mpr heq)] at hout
    split at hout <;> cases hout
  rw [Fresh, remembered_of_expected hold]
  rintro (hnone | hsome)
  · cases hnone
  · exact hne (Option.some.inj hsome).symm

/-- The point of a thread after the next step of its call. -/
def after (L : Layout) (m : Memory) (spurious : Bool) : Pc → Pc
  | .idle => .idle
  | .allocating pc =>
    match (allocStep L m spurious pc).2 with
    | .next pc' => .allocating pc'
    | .ret _ => .idle
  | .deallocating ptr index pc =>
    match (deallocStep m spurious index pc).2 with
    | .next pc' => .deallocating ptr index pc'
    | .ret _ => .idle

/-- What the thread remembers after a step, by the outcome of its compare-and-swap: a success
ends the call, a failure of either kind reads `head_` again. -/
inductive AfterCas (head : ℕ) (p p' : Pc) : Option CasOutcome → Prop
  | succeeded : p' = .idle → AfterCas head p p' (some .succeeded)
  | refreshed {o : CasOutcome} : o ≠ .succeeded → p'.Fresh head → AfterCas head p p' (some o)
  | quiet : p'.Fresh head ∨ p'.remembered = p.remembered → AfterCas head p p' none

/-- The test of the loop of `allocate` leads out of the call or into the loop with the present
head. -/
lemma fresh_whileHead (head : ℕ) :
    Fresh head (match whileHead head with
      | .next pc' => .allocating pc'
      | .ret _ => .idle) := by
  unfold whileHead
  split_ifs
  · exact Or.inl rfl
  · exact Or.inr rfl

/-- A step of `allocate`.

**Proof sketch.** Only the compare-and-swap has an outcome. It succeeds if `head_` is the remembered
index and the attempt is not spurious, and then the call returns; otherwise the call goes round its
loop with the value of `head_` just seen. -/
lemma afterCas_alloc (L : Layout) (m : Memory) (b : Bool) (pc : AllocPc) :
    AfterCas m.head (.allocating pc) (after L m b (.allocating pc))
      (outcome m.head b (.allocating pc)) := by
  cases pc with
  | loadHead => exact .quiet (Or.inl (fresh_whileHead m.head))
  | loadNext old => exact .quiet (Or.inr rfl)
  | cas old new =>
    simp only [after, allocStep]
    by_cases hold : m.head = old
    · subst hold
      cases b with
      | false =>
        rw [outcome_false rfl]
        exact .succeeded (by simp)
      | true =>
        rw [outcome_true rfl, if_neg nofun]
        exact .refreshed nofun (fresh_whileHead m.head)
    · rw [outcome_of_ne rfl hold, if_neg (fun h => hold h.1)]
      exact .refreshed nofun (fresh_whileHead m.head)

/-- A step of `deallocate`.

**Proof sketch.** As for `allocate`. -/
lemma afterCas_dealloc (L : Layout) (m : Memory) (b : Bool) (ptr index : ℕ) (pc : DeallocPc) :
    AfterCas m.head (.deallocating ptr index pc) (after L m b (.deallocating ptr index pc))
      (outcome m.head b (.deallocating ptr index pc)) := by
  cases pc with
  | loadHead => exact .quiet (Or.inl (Or.inr rfl))
  | storeNext old => exact .quiet (Or.inr rfl)
  | cas old =>
    simp only [after, deallocStep]
    by_cases hold : m.head = old
    · subst hold
      cases b with
      | false =>
        rw [outcome_false rfl]
        exact .succeeded (by simp)
      | true =>
        rw [outcome_true rfl, if_neg nofun]
        exact .refreshed nofun (Or.inr rfl)
    · rw [outcome_of_ne rfl hold, if_neg (fun h => hold h.1)]
      exact .refreshed nofun (Or.inr rfl)

/-- **What the thread remembers after a step.** -/
theorem afterCas (L : Layout) (m : Memory) (b : Bool) (p : Pc) :
    AfterCas m.head p (p.after L m b) (p.outcome m.head b) := by
  cases p with
  | idle => exact .quiet (Or.inl (Or.inl rfl))
  | allocating pc => exact afterCas_alloc L m b pc
  | deallocating ptr index pc => exact afterCas_dealloc L m b ptr index pc

end Pc

/-- The compare-and-swap that a step performs, with the thread that tries it and its outcome. -/
def casOutcome (s : State Thread) : Action Thread → Option (Thread × CasOutcome)
  | .advance t spurious => ((s.pc t).outcome s.mem.head spurious).map (t, ·)
  | _ => none

/-- The thread whose compare-and-swap ends in the given way at a step taken. -/
def casBy (o : CasOutcome) (e : Taken (State Thread) (Action Thread) (Event Thread)) :
    Option Thread :=
  match casOutcome e.pre e.act with
  | none => none
  | some (t, o') => if o' = o then some t else none

/-- A step is credited to the thread whose compare-and-swap ends in the given way. -/
lemma casBy_eq_some_iff {o : CasOutcome} {a : Action Thread} {out : List (Event Thread)} :
    casBy o ⟨s, a, out, s'⟩ = some t ↔ casOutcome s a = some (t, o) := by
  unfold casBy
  rcases casOutcome s a with _ | ⟨u, o'⟩
  · simp
  · by_cases ho : o' = o <;> simp [ho]

/-- One if the thread remembers a head that is no longer the present one. -/
def stale (s : State Thread) (t : Thread) : ℕ := if (s.pc t).Fresh s.mem.head then 0 else 1

/-- A thread that remembers the present head has no failure pending. -/
lemma stale_of_fresh (h : (s.pc t).Fresh s.mem.head) : stale s t = 0 := if_pos h

/-- A thread that remembers another head has one. -/
lemma stale_of_not_fresh (h : ¬ (s.pc t).Fresh s.mem.head) : stale s t = 1 := if_neg h

/-- At most one failure is pending for a thread. -/
lemma stale_le_one (s : State Thread) (t : Thread) : stale s t ≤ 1 := by
  unfold stale
  split_ifs <;> omega

/-- While `head_` stays, no failure becomes pending. -/
lemma stale_le (hhead : s'.mem.head = s.mem.head)
    (h : (s'.pc t).Fresh s.mem.head ∨ (s'.pc t).remembered = (s.pc t).remembered) :
    stale s' t ≤ stale s t := by
  by_cases hfresh : (s.pc t).Fresh s.mem.head
  · have hfresh' : (s'.pc t).Fresh s'.mem.head := by
      rw [hhead]
      rcases h with h | h
      · exact h
      · rwa [Pc.Fresh, h]
    rw [stale_of_fresh hfresh']
    exact Nat.zero_le _
  · rw [stale_of_not_fresh hfresh]
    exact stale_le_one s' t

/-! ## What a step does -/

variable [DecidableEq Thread]

/-- A thread inside a call can always take its next step. -/
lemma isSome_step_advance (L : Layout) (h : s.pc t ≠ .idle) (b : Bool) :
    (step L s (.advance t b)).isSome := by
  simp only [step]
  rcases hp : s.pc t with _ | pc | ⟨ptr, index, pc⟩
  · exact absurd hp h
  · rfl
  · rfl

/-- The state after a step of `allocate`. -/
lemma afterAlloc_eq (s : State Thread) (t : Thread) (r : Memory × Outcome AllocPc (Option ℕ)) :
    (afterAlloc s t r).1.pc = Function.update s.pc t
        (match r.2 with
          | .next pc => .allocating pc
          | .ret _ => .idle) ∧
      (afterAlloc s t r).1.mem = r.1 := by
  rcases r with ⟨m, pc | _ | ptr⟩
  · exact ⟨rfl, rfl⟩
  · exact ⟨rfl, rfl⟩
  · exact ⟨rfl, rfl⟩

/-- The state after a step of `deallocate`. -/
lemma afterDealloc_eq (s : State Thread) (t : Thread) (ptr index : ℕ)
    (r : Memory × Outcome DeallocPc Unit) :
    (afterDealloc s t ptr index r).1.pc = Function.update s.pc t
        (match r.2 with
          | .next pc => .deallocating ptr index pc
          | .ret _ => .idle) ∧
      (afterDealloc s t ptr index r).1.mem = r.1 := by
  rcases r with ⟨m, pc | ⟨⟩⟩
  · exact ⟨rfl, rfl⟩
  · exact ⟨rfl, rfl⟩

/-- A step of `allocate` moves `head_` only if its compare-and-swap succeeds. -/
lemma head_allocStep {m : Memory} {b : Bool} {pc : AllocPc}
    (h : (Pc.allocating pc).outcome m.head b ≠ some .succeeded) :
    (allocStep L m b pc).1.head = m.head := by
  cases pc with
  | loadHead => rfl
  | loadNext old => rfl
  | cas old new =>
    rw [allocStep, if_neg]
    rintro ⟨rfl, rfl⟩
    exact h (Pc.outcome_false rfl)

/-- A step of `deallocate` moves `head_` only if its compare-and-swap succeeds. -/
lemma head_deallocStep {m : Memory} {b : Bool} {ptr index : ℕ} {pc : DeallocPc}
    (h : (Pc.deallocating ptr index pc).outcome m.head b ≠ some .succeeded) :
    (deallocStep m b index pc).1.head = m.head := by
  cases pc with
  | loadHead => rfl
  | storeNext old => rfl
  | cas old =>
    rw [deallocStep, if_neg]
    rintro ⟨rfl, rfl⟩
    exact h (Pc.outcome_false rfl)

/-- A step of a call moves its thread, and `head_` only if its compare-and-swap succeeds.

**Proof sketch.** The step is that of the call the thread is in. Either call stores to `head_` only
where its compare-and-swap succeeds. -/
lemma step_advance {b : Bool} {out : List (Event Thread)}
    (h : step L s (.advance t b) = some (s', out)) :
    s.pc t ≠ .idle ∧ s'.pc = Function.update s.pc t ((s.pc t).after L s.mem b) ∧
      ((s.pc t).outcome s.mem.head b ≠ some .succeeded → s'.mem.head = s.mem.head) := by
  simp only [step] at h
  rcases hp : s.pc t with _ | pc | ⟨ptr, index, pc⟩
  · rw [hp] at h
    cases h
  · rw [hp] at h
    obtain ⟨hpc, hmem⟩ := afterAlloc_eq s t (allocStep L s.mem b pc)
    rw [Option.some.inj h] at hpc hmem
    refine ⟨nofun, hpc, ?_⟩
    intro hne
    rw [show s'.mem = _ from hmem]
    exact head_allocStep hne
  · rw [hp] at h
    obtain ⟨hpc, hmem⟩ := afterDealloc_eq s t ptr index (deallocStep s.mem b index pc)
    rw [Option.some.inj h] at hpc hmem
    refine ⟨nofun, hpc, ?_⟩
    intro hne
    rw [show s'.mem = _ from hmem]
    exact head_deallocStep hne

/-- Any other action leaves `head_`, and leads its thread at most to the start of a call.

**Proof sketch.** By cases on the action. The calls start at a point that remembers nothing, and
handing a pointer over moves no thread. -/
lemma step_other {a : Action Thread} {out : List (Event Thread)}
    (h : step L s a = some (s', out)) (ha : ∀ t b, a ≠ .advance t b) :
    s'.mem.head = s.mem.head ∧
      ∀ u, (s'.pc u).remembered = none ∨ s'.pc u = s.pc u := by
  have hupdate : ∀ {t : Thread} {p : Pc}, p.remembered = none → ∀ u,
      (Function.update s.pc t p u).remembered = none ∨ Function.update s.pc t p u = s.pc u := by
    intro t p hp u
    by_cases hut : u = t
    · rw [hut, Function.update_self]
      exact Or.inl hp
    · exact Or.inr (Function.update_of_ne hut ..)
  cases a with
  | allocate t =>
    simp only [step] at h
    split at h
    case h_1 => cases h; exact ⟨rfl, hupdate rfl⟩
    case h_2 => cases h
  | deallocate t ptr =>
    simp only [step] at h
    split at h
    case isTrue => cases h; exact ⟨rfl, hupdate rfl⟩
    case isFalse => cases h
  | handOver t u ptr =>
    simp only [step] at h
    split at h
    case isTrue => cases h; exact ⟨rfl, fun _ => Or.inr rfl⟩
    case isFalse => cases h
  | advance t b => exact absurd rfl (ha t b)

/-! ## Failures suffered and failures pending -/

/-- A step of a thread against its own failures: one that is suffered was pending.

**Proof sketch.** By the outcome of the step. A success ends the call, after which nothing is
pending; a failure, spurious or not, brings the thread up to date, and a failure that is not
spurious was pending before; any other step leaves `head_` alone, and with it what is pending. -/
lemma failures_step_self {b : Bool} {out : List (Event Thread)}
    (h : step L s (.advance t b) = some (s', out)) :
    (if (s.pc t).outcome s.mem.head b = some .failed then 1 else 0) + stale s' t ≤ stale s t := by
  obtain ⟨-, hpc, hhead⟩ := step_advance h
  have hpct : s'.pc t = (s.pc t).after L s.mem b := by rw [hpc, Function.update_self]
  have hcas := Pc.afterCas L s.mem b (s.pc t)
  have hfail : (s.pc t).outcome s.mem.head b = some .failed → ¬ (s.pc t).Fresh s.mem.head :=
    Pc.not_fresh_of_failed
  rw [← hpct] at hcas
  generalize (s.pc t).outcome s.mem.head b = o at hcas hfail hhead
  cases hcas with
  | succeeded hidle =>
    have hfresh : (s'.pc t).Fresh s'.mem.head := by
      rw [hidle]
      exact Or.inl rfl
    simp [stale_of_fresh hfresh]
  | @refreshed o ho hfresh =>
    rw [← hhead (by simpa using ho)] at hfresh
    by_cases hfailed : o = .failed
    · subst hfailed
      simp [stale_of_fresh hfresh, stale_of_not_fresh (hfail rfl)]
    · simp [stale_of_fresh hfresh, hfailed]
  | quiet hquiet => simpa using stale_le (hhead nofun) hquiet

/-- A step of another thread: a failure becomes pending only by a success. -/
lemma failures_step_other {b : Bool} {out : List (Event Thread)}
    (h : step L s (.advance u b) = some (s', out)) (hut : u ≠ t) :
    stale s' t ≤ stale s t +
      if (s.pc u).outcome s.mem.head b = some .succeeded then 1 else 0 := by
  obtain ⟨-, hpc, hhead⟩ := step_advance h
  have hpct : s'.pc t = s.pc t := by rw [hpc, Function.update_of_ne hut.symm]
  by_cases hsucc : (s.pc u).outcome s.mem.head b = some .succeeded
  · rw [if_pos hsucc]
    have := stale_le_one s' t
    omega
  · rw [if_neg hsucc]
    exact stale_le (hhead hsucc) (Or.inr (by rw [hpct]))

/-- **The step lemma**: a failure suffered was pending, and a failure that becomes pending is
credited to a success of another thread.

**Proof sketch.** A call, or a hand-over, has no compare-and-swap and leaves `head_` alone. A step
inside a call is `failures_step_self` for the thread itself, and for any other thread
`failures_step_other`: a failure becomes pending only if `head_` changes, and that takes a
success. -/
lemma failures_step {a : Action Thread} {out : List (Event Thread)}
    (h : step L s a = some (s', out)) (t : Thread) :
    (if casBy .failed ⟨s, a, out, s'⟩ = some t then 1 else 0) + stale s' t ≤
      stale s t + if (casBy .succeeded ⟨s, a, out, s'⟩).any (fun u => u ≠ t) then 1 else 0 := by
  have hquiet : (∀ u b, a ≠ .advance u b) → stale s' t ≤ stale s t := by
    intro ha
    obtain ⟨hhead, hpc⟩ := step_other h ha
    rcases hpc t with hnone | hsame
    · exact stale_le hhead (Or.inl (Or.inl hnone))
    · exact stale_le hhead (Or.inr (by rw [hsame]))
  cases a with
  | allocate u => simpa [casBy, casOutcome] using hquiet nofun
  | deallocate u ptr => simpa [casBy, casOutcome] using hquiet nofun
  | handOver u v ptr => simpa [casBy, casOutcome] using hquiet nofun
  | advance u b =>
    by_cases hut : u = t
    · subst hut
      have hself := failures_step_self h
      simp only [casBy_eq_some_iff, casOutcome, Option.map_eq_some_iff, Prod.mk.injEq, true_and,
        exists_eq_right]
      omega
    · have hother := failures_step_other h hut
      rcases ho : (s.pc u).outcome s.mem.head b with _ | _ | _ | _ <;>
        simpa [casBy, casOutcome, ho, hut] using hother

/-- **Failures suffered and pending are paid for** by successes of other threads.

**Proof sketch.** Induction along the trace, by `failures_step`. -/
lemma failures_add_stale_le {tr : List (Taken (State Thread) (Action Thread) (Event Thread))}
    (h : (system L Thread).Trace System.anyStep (system L Thread).init tr s) (t : Thread) :
    countOf (casBy .failed) t tr + stale s t ≤ countOthers (casBy .succeeded) t tr := by
  refine h.invariant (I := fun tr s => countOf (casBy .failed) t tr + stale s t ≤
    countOthers (casBy .succeeded) t tr) ?_ ?_
  · rw [stale_of_fresh (Or.inl rfl)]
    rfl
  · intro tr s a s' out hle _ hstep
    have := failures_step hstep t
    rw [countOf_snoc, countOthers_snoc]
    omega

/-! ## A thread that runs alone -/

/-- The thread is at the first step of a call. -/
def Pc.Begun (p : Pc) : Prop :=
  p = .allocating .loadHead ∨ ∃ ptr index, p = .deallocating ptr index .loadHead

/-- How far a call has come in its loop. -/
def Pc.stage : Pc → ℕ
  | .idle => 0
  | .allocating .loadHead => 0
  | .allocating (.loadNext _) => 1
  | .allocating (.cas _ _) => 2
  | .deallocating _ _ .loadHead => 0
  | .deallocating _ _ (.storeNext _) => 1
  | .deallocating _ _ (.cas _) => 2

/-- Only `t` takes steps of its call. -/
def Alone (t : Thread) (_ : State Thread) : Action Thread → Prop
  | .advance u _ => u = t
  | _ => False

/-- Decidable, so that schedules can be executed. -/
instance (t : Thread) (s : State Thread) (a : Action Thread) : Decidable (Alone t s a) :=
  match a with
  | .allocate _ => isFalse nofun
  | .deallocate _ _ => isFalse nofun
  | .handOver _ _ _ => isFalse nofun
  | .advance u _ => inferInstanceAs (Decidable (u = t))

/-- A step of a call by a thread that remembers the present head, by the outcome of its
compare-and-swap. -/
inductive AloneStep (p p' : Pc) : Option CasOutcome → Prop
  /-- `allocate` returns `nullptr`. -/
  | exhausted : p.stage = 0 → p' = .idle → AloneStep p p' none
  | deeper : p' ≠ .idle → p'.stage = p.stage + 1 → AloneStep p p' none
  | succeeded : p.stage = 2 → p' = .idle → AloneStep p p' (some .succeeded)
  | spurious : p.stage = 2 → (p' = .idle ∨ p' ≠ .idle ∧ p'.stage = 1) →
      AloneStep p p' (some .spurious)

/-- A step of `allocate` at a point that remembers the present head.

**Proof sketch.** The remembered index is the head, so the compare-and-swap fails only spuriously,
and then the thread starts the loop again with the same head. -/
lemma aloneStep_alloc (L : Layout) (m : Memory) (b : Bool) {pc : AllocPc}
    (hfresh : (Pc.allocating pc).Fresh m.head) :
    AloneStep (.allocating pc) ((Pc.allocating pc).after L m b)
      ((Pc.allocating pc).outcome m.head b) := by
  cases pc with
  | loadHead =>
    simp only [Pc.after, allocStep, whileHead]
    split_ifs with hnull
    · exact .exhausted rfl rfl
    · exact .deeper nofun rfl
  | loadNext old => exact .deeper nofun rfl
  | cas old new =>
    obtain rfl : old = m.head := by
      rcases hfresh with h | h
      · cases h
      · exact Option.some.inj h
    cases b with
    | false =>
      rw [Pc.outcome_false rfl]
      exact .succeeded rfl (by simp [Pc.after, allocStep])
    | true =>
      rw [Pc.outcome_true rfl]
      apply AloneStep.spurious rfl
      simp only [Pc.after, allocStep, whileHead]
      split_ifs <;> simp_all [Pc.stage]

/-- A step of `deallocate` at a point that remembers the present head.

**Proof sketch.** As for `allocate`. -/
lemma aloneStep_dealloc (L : Layout) (m : Memory) (b : Bool) {pc : DeallocPc} {ptr index : ℕ}
    (hfresh : (Pc.deallocating ptr index pc).Fresh m.head) :
    AloneStep (.deallocating ptr index pc) ((Pc.deallocating ptr index pc).after L m b)
      ((Pc.deallocating ptr index pc).outcome m.head b) := by
  cases pc with
  | loadHead => exact .deeper nofun rfl
  | storeNext old => exact .deeper nofun rfl
  | cas old =>
    obtain rfl : old = m.head := by
      rcases hfresh with h | h
      · cases h
      · exact Option.some.inj h
    cases b with
    | false =>
      rw [Pc.outcome_false rfl]
      exact .succeeded rfl (by simp [Pc.after, deallocStep])
    | true =>
      rw [Pc.outcome_true rfl]
      apply AloneStep.spurious rfl
      simp [Pc.after, deallocStep, Pc.stage]

/-- A step of a call by a thread that remembers the present head. -/
lemma aloneStep_of_step {b : Bool} {out : List (Event Thread)}
    (h : step L s (.advance t b) = some (s', out)) (hfresh : (s.pc t).Fresh s.mem.head) :
    AloneStep (s.pc t) (s'.pc t) ((s.pc t).outcome s.mem.head b) := by
  obtain ⟨hne, hpc, -⟩ := step_advance h
  rw [hpc, Function.update_self]
  generalize s.pc t = p at hne hfresh
  cases p with
  | idle => exact absurd rfl hne
  | allocating pc => exact aloneStep_alloc L s.mem b hfresh
  | deallocating ptr index pc => exact aloneStep_dealloc L s.mem b hfresh

/-- A thread that runs alone goes on remembering the present head. -/
lemma fresh_of_step {b : Bool} {out : List (Event Thread)}
    (h : step L s (.advance t b) = some (s', out)) (hfresh : (s.pc t).Fresh s.mem.head) :
    (s'.pc t).Fresh s'.mem.head := by
  have hself := failures_step_self h
  rw [stale_of_fresh hfresh] at hself
  by_contra hstale
  rw [stale_of_not_fresh hstale] at hself
  omega

/-- What holds while a call begun by `t` runs alone: no failure, and as many steps as the stage
of the call and its spurious failures account for. -/
structure AloneInv (t : Thread) (tr : List (Taken (State Thread) (Action Thread) (Event Thread)))
    (s : State Thread) : Prop where
  failed : countOf (casBy .failed) t tr = 0
  fresh : (s.pc t).Fresh s.mem.head
  running : s.pc t ≠ .idle → countOf (casBy .succeeded) t tr = 0 ∧
    tr.length = (s.pc t).stage + 2 * countOf (casBy .spurious) t tr
  returned : s.pc t = .idle → countOf (casBy .succeeded) t tr ≤ 1 ∧
    tr.length ≤ 3 + 2 * countOf (casBy .spurious) t tr

/-- **The step lemma** for a thread that runs alone.

**Proof sketch.** The step is one inside the call, and its effect is one of the four of `AloneStep`.
In each the counts of failures and of spurious failures grow by what the outcome says, and the
length of the run by one, which is what the stage moves by. -/
lemma AloneInv.step {tr : List (Taken (State Thread) (Action Thread) (Event Thread))}
    {a : Action Thread} {out : List (Event Thread)} (h : AloneInv t tr s) (ha : Alone t s a)
    (hstep : step L s a = some (s', out)) : AloneInv t (tr ++ [⟨s, a, out, s'⟩]) s' := by
  obtain ⟨b, rfl⟩ : ∃ b, a = .advance t b := by
    cases a with
    | advance u b =>
      obtain rfl : u = t := ha
      exact ⟨b, rfl⟩
    | allocate u => exact ha.elim
    | deallocate u ptr => exact ha.elim
    | handOver u v ptr => exact ha.elim
  obtain ⟨hne, -, -⟩ := step_advance hstep
  obtain ⟨hsucc, hlen⟩ := h.running hne
  have halone := aloneStep_of_step hstep h.fresh
  have hcount : ∀ o, countOf (casBy o) t (tr ++ [⟨s, .advance t b, out, s'⟩]) =
      countOf (casBy o) t tr + if (s.pc t).outcome s.mem.head b = some o then 1 else 0 := by
    intro o
    rw [countOf_snoc]
    simp only [casBy_eq_some_iff, casOutcome]
    rcases (s.pc t).outcome s.mem.head b with _ | o' <;> simp
  have hfailed := h.failed
  generalize (s.pc t).outcome s.mem.head b = o at halone hcount
  refine ⟨?_, fresh_of_step hstep h.fresh, ?_, ?_⟩
  · rw [hcount]
    cases halone <;> simp [hfailed]
  · intro hne'
    rw [hcount, hcount, List.length_append, List.length_singleton]
    cases halone with
    | exhausted hstage hidle => exact absurd hidle hne'
    | deeper _ hstage =>
      simp only [reduceCtorEq, if_false]
      omega
    | succeeded hstage hidle => exact absurd hidle hne'
    | spurious hstage hnext =>
      obtain ⟨-, hstage'⟩ := hnext.resolve_left hne'
      simp only [Option.some.injEq, reduceCtorEq, if_false, if_true]
      omega
  · intro hidle
    rw [hcount, hcount, List.length_append, List.length_singleton]
    cases halone with
    | exhausted hstage _ =>
      simp only [reduceCtorEq, if_false]
      omega
    | deeper hne' _ => exact absurd hidle hne'
    | succeeded hstage _ =>
      simp only [Option.some.injEq, reduceCtorEq, if_false, if_true]
      omega
    | spurious hstage _ =>
      simp only [Option.some.injEq, reduceCtorEq, if_false, if_true]
      omega

/-- A call begun by a thread that runs alone.

**Proof sketch.** A call that has just begun remembers nothing, so it is up to date, and no attempt
has been made; the rest is the step lemma. -/
lemma aloneInv_of_trace {tr : List (Taken (State Thread) (Action Thread) (Event Thread))}
    (hbegun : (s.pc t).Begun) (h : (system L Thread).Trace (Alone t) s tr s') :
    AloneInv t tr s' := by
  refine h.invariant (I := fun tr s => AloneInv t tr s) ?_ ?_
  · have hfresh : (s.pc t).Fresh s.mem.head ∧ s.pc t ≠ .idle ∧ (s.pc t).stage = 0 := by
      rcases hbegun with hpc | ⟨ptr, index, hpc⟩
      · rw [hpc]
        exact ⟨Or.inl rfl, nofun, rfl⟩
      · rw [hpc]
        exact ⟨Or.inl rfl, nofun, rfl⟩
    obtain ⟨hfresh, hne, hstage⟩ := hfresh
    exact ⟨rfl, hfresh, fun _ => ⟨rfl, by rw [hstage]; rfl⟩, fun hidle => absurd hidle hne⟩
  · intro tr s a s' out hinv ha hstep
    exact hinv.step ha hstep

/-! ## The bounds -/

/-- **The compare-and-swap loops are lock-free with an amortised bound.** In every run, the
compare-and-swaps of a thread that fail, other than spuriously, are at most those of the other
threads that succeed; over all threads they are at most the number of threads less one times
those that succeed. A call begun by a thread that runs alone, from any state the run reaches,
suffers no such failure and has at most one compare-and-swap that succeeds, which ends it; each
spurious failure costs two steps, without them there are at most three, and until it returns
the next step of the call is always possible.

**Proof sketch.** `failures_add_stale_le` for one thread, and the sum over the threads, in which
each success is one of the others for all threads but one. A thread that runs alone remembers
the present head at all times (`AloneInv`). -/
theorem cas_failures_amortised [Fintype Thread]
    {tr : List (Taken (State Thread) (Action Thread) (Event Thread))}
    (h : (system L Thread).Trace System.anyStep (system L Thread).init tr s) :
    (∀ t, countOf (casBy .failed) t tr ≤ countOthers (casBy .succeeded) t tr) ∧
    countAll (casBy .failed) tr ≤ (Fintype.card Thread - 1) * countAll (casBy .succeeded) tr ∧
    ∀ t, (s.pc t).Begun → ∀ tr' s', (system L Thread).Trace (Alone t) s tr' s' →
      countOf (casBy .failed) t tr' = 0 ∧ countOf (casBy .succeeded) t tr' ≤ 1 ∧
      (0 < countOf (casBy .succeeded) t tr' → s'.pc t = .idle) ∧
      tr'.length ≤ 3 + 2 * countOf (casBy .spurious) t tr' ∧
      (s'.pc t ≠ .idle → ∀ b, (step L s' (.advance t b)).isSome) := by
  have hone : ∀ t, countOf (casBy .failed) t tr ≤ countOthers (casBy .succeeded) t tr := by
    intro t
    have := failures_add_stale_le h t
    omega
  refine ⟨hone, countAll_le_of_charged hone, ?_⟩
  · intro t hbegun tr' s' halone
    have hinv := aloneInv_of_trace hbegun halone
    refine ⟨hinv.failed, ?_, ?_, ?_, fun hne b => isSome_step_advance L hne b⟩
    · by_cases hidle : s'.pc t = .idle
      · exact (hinv.returned hidle).1
      · rw [(hinv.running hidle).1]
        exact Nat.zero_le 1
    · intro hpos
      by_contra hne
      rw [(hinv.running hne).1] at hpos
      exact absurd hpos (lt_irrefl 0)
    · by_cases hidle : s'.pc t = .idle
      · exact (hinv.returned hidle).2
      · have hstage : (s'.pc t).stage ≤ 3 := by
          rcases s'.pc t with _ | pc | ⟨ptr, index, pc⟩
          · exact Nat.zero_le 3
          · cases pc <;> simp [Pc.stage]
          · cases pc <;> simp [Pc.stage]
        rw [(hinv.running hidle).2]
        omega

/-- Both threads read `head_`; `true` takes the first slot, so the compare-and-swap of `false`
fails once, and then takes the second. -/
def racingSchedule : List (Action Bool) :=
  [.allocate false, .advance false false, .advance false false, .allocate true,
   .advance true false, .advance true false, .advance true false, .advance false false,
   .advance false false, .advance false false, .deallocate true 4096]

/-- `true` puts its slot back, running alone, with one spurious failure. -/
def soloSchedule : List (Action Bool) :=
  [.advance true false, .advance true false, .advance true true, .advance true false,
   .advance true false]

/-- A race of two threads for a slot in which one of them fails once, after which the other runs
alone. -/
theorem cas_failures_amortised_example :
    ∃ tr s tr' s',
      (system twoSlotPool Bool).Trace System.anyStep (system twoSlotPool Bool).init tr s ∧
      (system twoSlotPool Bool).Trace (Alone true) s tr' s' ∧
      countOf (casBy .failed) false tr = 1 ∧ 1 ≤ countOthers (casBy .succeeded) false tr ∧
      countAll (casBy .failed) tr ≤ (2 - 1) * countAll (casBy .succeeded) tr ∧
      tr'.length = 5 ∧ countOf (casBy .failed) true tr' = 0 := by
  have h : ((system twoSlotPool Bool).record System.anyStep (system twoSlotPool Bool).init
      racingSchedule).map (fun r => (r.1.pc true, countOf (casBy .failed) false r.2,
        (((system twoSlotPool Bool).record (Alone true) r.1 soloSchedule).map
          (·.2.length)))) = some (.deallocating 4096 0 .loadHead, 1, some 5) := by rfl
  obtain ⟨s, tr, htr, hread⟩ := System.exists_trace_of_record h
  simp only [Prod.mk.injEq] at hread
  obtain ⟨hpc, hfailed, hsolo⟩ := hread
  obtain ⟨s', tr', htr', hlength⟩ := System.exists_trace_of_record hsolo
  obtain ⟨hone, hall, halone⟩ := cas_failures_amortised htr
  obtain ⟨hnone, -⟩ := halone true (Or.inr ⟨_, _, hpc⟩) tr' s' htr'
  exact ⟨tr, s, tr', s', htr, htr', hfailed, hfailed ▸ hone false, hall, hlength, hnone⟩

end NullRing.MemoryPool
