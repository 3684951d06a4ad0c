import Mathlib.Tactic.Lemma
import Mathlib.Data.Nat.Count
import Mathlib.Data.Nat.ModEq

set_option relaxedAutoImplicit false
set_option autoImplicit false

/-!
# Counters reduced modulo a capacity

A counter that only grows, kept modulo a capacity: the laps are forgotten, but two counters
less than one lap apart are told apart by their residues. For a capacity that is a power of
two the residue is a bitwise and with the capacity minus one.

## Main definitions

* `Laps.visits` — how often a counter has passed a given residue.

## Main results

* `Laps.eq_of_mod_eq` — counters less than a lap apart are equal when their residues are.
* `Laps.add_mod_eq_self_iff` — a remainder is left alone by whole laps only.
* `Laps.visits_eq_of_forall_ne` — a stretch that misses a residue does not count for it.
* `Laps.and_mask_eq_mod` — the bit mask computes the residue.
-/

namespace Laps

/-- **Within one lap the residue determines the counter.** -/
theorem eq_of_mod_eq {a b c : ℕ} (hab : a ≤ b) (hlt : b < a + c) (h : a % c = b % c) :
    a = b := by
  have hzero : (b - a) % c = 0 := by
    have := Nat.sub_mod_eq_zero_of_mod_eq h.symm
    exact this
  have hsmall : b - a < c := by omega
  rw [Nat.mod_eq_of_lt hsmall] at hzero
  omega

/-- The same with the two residues at distinct offsets from a common counter. -/
lemma add_mod_injective {n c i j : ℕ} (hi : i < c) (hj : j < c)
    (h : (n + i) % c = (n + j) % c) : i = j := by
  rcases Nat.le_total i j with hij | hij
  · have := eq_of_mod_eq (a := n + i) (b := n + j) (by omega) (by omega) h
    omega
  · have := eq_of_mod_eq (a := n + j) (b := n + i) (by omega) (by omega) h.symm
    omega

/-- Advancing a residue is advancing the counter. -/
lemma mod_add_one_mod (a c : ℕ) : (a % c + 1) % c = (a + 1) % c := Nat.mod_add_mod a c 1

/-! ## Whole laps -/

/-- A remainder is left alone by whole laps, and by nothing else. -/
lemma add_mod_eq_self_iff {n k c : ℕ} (hn : n < c) : (n + k) % c = n ↔ c ∣ k := by
  rw [← Nat.add_modEq_left_iff (a := n), Nat.ModEq, Nat.mod_eq_of_lt hn]

/-- Two parts of whole laps, the first less than a lap: the second is whole laps only if the first
is nothing. -/
lemma dvd_iff_of_dvd_add {n k c : ℕ} (hn : n < c) (h : c ∣ n + k) : c ∣ k ↔ n = 0 := by
  constructor
  · intro hk
    exact Nat.eq_zero_of_dvd_of_lt ((Nat.dvd_add_left hk).mp h) hn
  · rintro rfl
    rwa [Nat.zero_add] at h

/-- Counters with one residue, to which different numbers are added that lead to one sum: if the
second is less than a lap, the first is whole laps only if the second is nothing. -/
lemma dvd_iff_of_mod_eq {a b n k c : ℕ} (hn : n < c) (hmod : a % c = b % c)
    (h : a + k = b + n) : c ∣ k ↔ n = 0 := by
  have hk : k % c = n % c := Nat.ModEq.add_left_cancel hmod (congrArg (· % c) h)
  rw [Nat.dvd_iff_mod_eq_zero, hk, Nat.mod_eq_of_lt hn]

/-! ## Visits -/

/-- How many of the counter values below `n` have residue `i`. -/
def visits (c n i : ℕ) : ℕ := Nat.count (fun k => k % c = i) n

/-- Nothing is visited before the start. -/
@[simp] lemma visits_zero (c i : ℕ) : visits c 0 i = 0 := Nat.count_zero _

/-- Passing `n` counts for the residue of `n` and for no other. -/
lemma visits_succ (c n i : ℕ) :
    visits c (n + 1) i = visits c n i + if n % c = i then 1 else 0 := Nat.count_succ _ n

/-- Passing `n` counts for its own residue. -/
lemma visits_succ_self (c n : ℕ) : visits c (n + 1) (n % c) = visits c n (n % c) + 1 := by
  rw [visits_succ, if_pos rfl]

/-- Visits only grow. -/
lemma visits_mono {c m n : ℕ} (h : m ≤ n) (i : ℕ) : visits c m i ≤ visits c n i :=
  Nat.count_monotone _ h

/-- **A stretch that misses a residue does not count for it.** -/
theorem visits_eq_of_forall_ne {c m n i : ℕ} (hmn : m ≤ n)
    (h : ∀ k, m ≤ k → k < n → k % c ≠ i) : visits c n i = visits c m i := by
  induction n, hmn using Nat.le_induction with
  | base => rfl
  | succ n hmn ih =>
    rw [visits_succ, if_neg (h n hmn (Nat.lt_succ_self n)), Nat.add_zero]
    exact ih fun k h1 h2 => h k h1 (by omega)

/-- The counter values less than a lap after `n` miss its residue. -/
lemma mod_ne_of_lt {c n k : ℕ} (h1 : n < k) (h2 : k < n + c) : k % c ≠ n % c := by
  intro h
  have := eq_of_mod_eq h1.le h2 h.symm
  omega

/-! ## Powers of two -/

/-- A number in which the bit trick finds no second bit is a power of two. -/
lemma exists_eq_two_pow {n : ℕ} (hn : n ≠ 0) (h : n &&& (n - 1) = 0) : ∃ k, n = 2 ^ k :=
  (Nat.and_sub_one_eq_zero_iff_isPowerOfTwo hn).mp h

/-- **For a power of two the mask computes the residue.** -/
theorem and_mask_eq_mod {n : ℕ} (hn : n ≠ 0) (h : n &&& (n - 1) = 0) (x : ℕ) :
    x &&& (n - 1) = x % n := by
  obtain ⟨k, rfl⟩ := exists_eq_two_pow hn h
  exact Nat.and_two_pow_sub_one_eq_mod x k

/-- A power of two below `2 ^ w` divides it, so machine arithmetic modulo `2 ^ w` does not
disturb the residue. -/
lemma mod_two_pow_mod {n w : ℕ} (hn : n ≠ 0) (h : n &&& (n - 1) = 0) (hlt : n < 2 ^ w) (x : ℕ) :
    x % 2 ^ w % n = x % n := by
  obtain ⟨k, rfl⟩ := exists_eq_two_pow hn h
  have hk : k ≤ w := by
    by_contra hk
    have := Nat.pow_le_pow_right (n := 2) (by omega) (show w ≤ k by omega)
    omega
  exact Nat.mod_mod_of_dvd x (Nat.pow_dvd_pow 2 hk)

end Laps
