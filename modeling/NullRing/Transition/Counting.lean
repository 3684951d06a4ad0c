import Mathlib.Algebra.BigOperators.Ring.Finset
import Mathlib.Algebra.Order.BigOperators.Group.Finset
import Mathlib.Data.Fintype.BigOperators
import Mathlib.Tactic.Lemma

set_option relaxedAutoImplicit false
set_option autoImplicit false

/-!
# Counting labelled steps

A partial label says which party, if any, a step is credited to. The steps credited to one
party, to the other parties and to anyone are counted along a list of steps, and summed over
the parties.

## Main definitions

* `Counting.countOf`, `Counting.countOthers`, `Counting.countAll` — the three counts.

## Main results

* `Counting.sum_countOthers` — each credited step is a step of the others for all parties but
  one.
* `Counting.countAll_le_of_charged` — charging the steps of each party to the others.
-/

namespace Counting

variable {α T : Type*} [DecidableEq T] (f : α → Option T)

/-- The number of steps credited to `t`. -/
def countOf (t : T) (l : List α) : ℕ := l.countP fun e => f e = some t

/-- The number of steps credited to a party other than `t`. -/
def countOthers (t : T) (l : List α) : ℕ := l.countP fun e => (f e).any fun u => u ≠ t

/-- The number of steps credited to a party. -/
def countAll (l : List α) : ℕ := l.countP fun e => (f e).isSome

variable {f}

/-- Nothing is counted in the empty list. -/
@[simp] lemma countOf_nil (t : T) : countOf f t [] = 0 := rfl

/-- Nothing is counted in the empty list. -/
@[simp] lemma countOthers_nil (t : T) : countOthers f t [] = 0 := rfl

/-- A further entry counts for its own party. -/
lemma countOf_snoc (t : T) (l : List α) (e : α) :
    countOf f t (l ++ [e]) = countOf f t l + if f e = some t then 1 else 0 := by
  simp [countOf, List.countP_append, List.countP_singleton]

/-- A further entry counts among the others for every party but its own. -/
lemma countOthers_snoc (t : T) (l : List α) (e : α) :
    countOthers f t (l ++ [e]) =
      countOthers f t l + if (f e).any (fun u => u ≠ t) then 1 else 0 := by
  simp [countOthers, List.countP_append, List.countP_singleton]

/-- Every credited step is one of `t` or of the others. -/
lemma countOthers_add_countOf (t : T) (l : List α) :
    countOthers f t l + countOf f t l = countAll f l := by
  induction l with
  | nil => rfl
  | cons e l ih =>
    simp only [countOthers, countOf, countAll, List.countP_cons] at ih ⊢
    rcases f e with _ | u
    · simpa using ih
    · by_cases hu : u = t
      · simp [hu, ← ih]
        omega
      · simp [hu, ← ih]
        omega

/-- The counts of the parties add up to the count of all credited steps. -/
lemma sum_countOf [Fintype T] (l : List α) : ∑ t, countOf f t l = countAll f l := by
  induction l with
  | nil => simp [countOf, countAll]
  | cons e l ih =>
    simp only [countOf, countAll, List.countP_cons, Finset.sum_add_distrib] at ih ⊢
    rw [ih]
    rcases f e with _ | u
    · simp
    · simp

/-- **Each credited step is a step of the others for all parties but one.** -/
theorem sum_countOthers [Fintype T] (l : List α) :
    ∑ t, countOthers f t l = (Fintype.card T - 1) * countAll f l := by
  have hsum : ∑ t, (countOthers f t l + countOf f t l) = Fintype.card T * countAll f l := by
    simp [countOthers_add_countOf]
  rw [Finset.sum_add_distrib, sum_countOf] at hsum
  rw [Nat.sub_mul, one_mul]
  omega

/-- **Charging**: if the steps credited to each party are at most the steps another label
credits to the others, all credited steps are at most the number of parties less one times
those of the other label. -/
theorem countAll_le_of_charged [Fintype T] {g : α → Option T} {l : List α}
    (h : ∀ t, countOf f t l ≤ countOthers g t l) :
    countAll f l ≤ (Fintype.card T - 1) * countAll g l := by
  rw [← sum_countOf, ← sum_countOthers]
  exact Finset.sum_le_sum fun t _ => h t

end Counting
