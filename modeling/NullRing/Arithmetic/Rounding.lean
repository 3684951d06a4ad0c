import Mathlib.Algebra.Order.Floor.Div
import Mathlib.Algebra.Order.Ring.Abs
import Mathlib.Tactic.Linarith
import NullRing.Arithmetic.Truncation

set_option relaxedAutoImplicit false
set_option autoImplicit false

/-!
# Truncation against order, sums and rescaling

Truncation toward zero changes its rounding direction at zero. It is monotone all the same, it
is additive up to one, and rescaling by `u / v` and back by `v / u` loses at most the ratio
`v / u`, rounded up, always toward zero.

## Main definitions

* `Truncation.ShrinksBy` — an integer is another one moved toward zero by a bounded amount.

## Main results

* `Truncation.tdiv_le_tdiv_of_divisor_le` — a larger divisor gives a smaller quotient.
* `Truncation.abs_tdiv_add_sub_le_one` — the quotient of a sum against the sum of the quotients.
* `Truncation.rescale_shrinksBy` — rescaling and scaling back.
-/

namespace Truncation

/-! ## Order -/

/-- A larger positive divisor gives a smaller quotient of a nonnegative dividend. -/
lemma tdiv_le_tdiv_of_divisor_le {x d e : ℤ} (hx : 0 ≤ x) (hd : 0 < d) (hde : d ≤ e) :
    x.tdiv e ≤ x.tdiv d := by
  apply Int.le_tdiv_of_mul_le hd
  have hq : 0 ≤ x.tdiv e := Int.tdiv_nonneg hx (hd.le.trans hde)
  have hr : 0 ≤ x.tmod e := Int.tmod_nonneg e hx
  calc x.tdiv e * d
      ≤ x.tdiv e * e := mul_le_mul_of_nonneg_left hde hq
    _ ≤ x.tmod e + e * x.tdiv e := by rw [mul_comm]; omega
    _ = x := Int.tmod_add_mul_tdiv x e

/-! ## Sums -/

/-- An integer whose product with a positive `d` stays below `2 * d` is at most one. -/
lemma abs_le_one_of_abs_mul_lt {d e : ℤ} (hd : 0 < d) (h : |d * e| < 2 * d) : |e| ≤ 1 := by
  rw [abs_mul, abs_of_pos hd, mul_comm 2 d] at h
  have := lt_of_mul_lt_mul_left h hd.le
  omega

/-- The remainders of two dividends exceed the remainder of their sum by less than twice the
divisor.

**Proof sketch.** On one side of zero the two remainders and the remainder of the sum all lie
there, so the first two together are between zero and `2 * d` and the last one takes away at
most `d`. On opposite sides the two remainders cancel, and each of the three is below `d`. -/
lemma abs_tmod_add_sub_lt (x y : ℤ) {d : ℤ} (hd : 0 < d) :
    |x.tmod d + y.tmod d - (x + y).tmod d| < 2 * d := by
  have hx := natAbs_tmod_lt x hd.ne'
  have hy := natAbs_tmod_lt y hd.ne'
  have hxy := natAbs_tmod_lt (x + y) hd.ne'
  rw [abs_lt]
  rcases le_total 0 x with h1 | h1 <;> rcases le_total 0 y with h2 | h2
  · have := Int.tmod_nonneg d h1
    have := Int.tmod_nonneg d h2
    have := Int.tmod_nonneg d (add_nonneg h1 h2)
    omega
  · have := Int.tmod_nonneg d h1
    have := tmod_nonpos d h2
    omega
  · have := tmod_nonpos d h1
    have := Int.tmod_nonneg d h2
    omega
  · have := tmod_nonpos d h1
    have := tmod_nonpos d h2
    have := tmod_nonpos d (add_nonpos h1 h2)
    omega

/-- **A truncated quotient is additive up to one.** -/
theorem abs_tdiv_add_sub_le_one (x y : ℤ) {d : ℤ} (hd : 0 < d) :
    |(x + y).tdiv d - (x.tdiv d + y.tdiv d)| ≤ 1 := by
  apply abs_le_one_of_abs_mul_lt hd
  have hx := Int.tmod_add_mul_tdiv x d
  have hy := Int.tmod_add_mul_tdiv y d
  have hxy := Int.tmod_add_mul_tdiv (x + y) d
  have hrem : d * ((x + y).tdiv d - (x.tdiv d + y.tdiv d)) =
      x.tmod d + y.tmod d - (x + y).tmod d := by
    rw [mul_sub, mul_add]
    omega
  rw [hrem]
  exact abs_tmod_add_sub_lt x y hd

/-! ## Rescaling -/

/-- `r` is `a` moved toward zero by at most `n`. -/
structure ShrinksBy (n : ℕ) (a r : ℤ) : Prop where
  /-- No change of side. -/
  sign : r = 0 ∨ r.sign = a.sign
  le : |r| ≤ |a|
  gap : |a| - |r| ≤ n

/-- A smaller loss. -/
lemma ShrinksBy.mono {m n : ℕ} {a r : ℤ} (h : ShrinksBy m a r) (hmn : m ≤ n) :
    ShrinksBy n a r :=
  ⟨h.sign, h.le, h.gap.trans (by exact_mod_cast hmn)⟩

/-- What is moved toward zero stays between zero and where it was.

**Proof sketch.** Unless the result is zero it has the sign of the value it comes from, and a
smaller absolute value; so the inequality between the absolute values is one between the values, of
the sign in question. -/
lemma ShrinksBy.between {n : ℕ} {a r : ℤ} (h : ShrinksBy n a r) :
    (0 ≤ r ∧ r ≤ a) ∨ (a ≤ r ∧ r ≤ 0) := by
  have hle := h.le
  rcases h.sign with rfl | hsign
  · rcases le_total 0 a with ha | ha
    · exact Or.inl ⟨le_refl 0, ha⟩
    · exact Or.inr ⟨ha, le_refl 0⟩
  · rcases le_total 0 a with ha | ha
    · have hr : 0 ≤ r := by
        rw [← Int.sign_nonneg_iff, hsign]
        exact Int.sign_nonneg_iff.mpr ha
      rw [abs_of_nonneg ha, abs_of_nonneg hr] at hle
      exact Or.inl ⟨hr, hle⟩
    · have hr : r ≤ 0 := by
        rw [← Int.sign_nonpos_iff, hsign]
        exact Int.sign_nonpos_iff.mpr ha
      rw [abs_of_nonpos ha, abs_of_nonpos hr] at hle
      exact Or.inr ⟨by omega, hr⟩

/-- Rescaling a natural number and scaling back does not increase it. -/
lemma rescale_le (a u v : ℕ) : a * u / v * v / u ≤ a := by
  rcases Nat.eq_zero_or_pos u with rfl | hu
  · simp
  · exact Nat.div_le_of_le_mul ((Nat.div_mul_le_self (a * u) v).trans_eq (mul_comm a u))

/-- Rescaling a natural number and scaling back loses at most the ratio of the scales.

**Proof sketch.** The first quotient loses less than `v`, the second less than `u`, so that
`a * u` stays below the result plus one plus `⌈v / u⌉`, times `u`. -/
lemma le_rescale_add (a : ℕ) {u v : ℕ} (hu : 0 < u) (hv : 0 < v) :
    a ≤ a * u / v * v / u + v ⌈/⌉ u := by
  set m := a * u / v with hm
  set r := m * v / u with hr
  have hceil : v ≤ u * (v ⌈/⌉ u) := by
    have := le_smul_ceilDiv (b := v) hu
    rwa [smul_eq_mul] at this
  have h1 : a * u < (m + 1) * v := by
    rw [mul_comm (m + 1)]
    exact Nat.lt_mul_div_succ (a * u) hv
  have h2 : m * v < (r + 1) * u := by
    rw [mul_comm (r + 1)]
    exact Nat.lt_mul_div_succ (m * v) hu
  by_contra hlt
  have h3 : (r + v ⌈/⌉ u + 1) * u ≤ a * u := Nat.mul_le_mul_right u (by omega)
  have h4 : (r + v ⌈/⌉ u + 1) * u = (r + 1) * u + u * (v ⌈/⌉ u) := by ring
  have h5 : (m + 1) * v = m * v + v := by ring
  omega

/-- The signs of `u` and `v` enter the result twice, so they cancel.

**Proof sketch.** A truncated quotient is zero or has the sign of the product of its operands, so
the result is zero or its sign is that of `a` times the squares of the signs of `u` and `v`, which
are one. -/
lemma rescale_sign (a : ℤ) {u v : ℤ} (hu : u ≠ 0) (hv : v ≠ 0) :
    ((a * u).tdiv v * v).tdiv u = 0 ∨ (((a * u).tdiv v * v).tdiv u).sign = a.sign := by
  have hsq : ∀ {w : ℤ}, w ≠ 0 → w.sign * w.sign = 1 := by
    intro w hw
    rcases lt_or_gt_of_ne hw with h | h
    · rw [Int.sign_eq_neg_one_of_neg h]
      rfl
    · rw [Int.sign_eq_one_of_pos h]
      rfl
  rw [← Int.sign_eq_zero_iff_zero, Int.sign_tdiv]
  split_ifs with h1
  · exact Or.inl rfl
  · rw [Int.sign_mul, Int.sign_tdiv]
    split_ifs with h2
    · exact Or.inl (by simp)
    · right
      calc (a * u).sign * v.sign * v.sign * u.sign
          = a.sign * (u.sign * u.sign) * (v.sign * v.sign) := by rw [Int.sign_mul]; ring
        _ = a.sign := by rw [hsq hu, hsq hv, mul_one, mul_one]

/-- **Rescaling by `u / v` and back by `v / u`** moves toward zero, by at most `⌈v / u⌉`.

**Proof sketch.** The magnitudes are those of the natural numbers (`rescale_le`,
`le_rescale_add`), the sign is `rescale_sign`. -/
theorem rescale_shrinksBy (a : ℤ) {u v : ℤ} (hu : u ≠ 0) (hv : v ≠ 0) :
    ShrinksBy (v.natAbs ⌈/⌉ u.natAbs) a (((a * u).tdiv v * v).tdiv u) := by
  have habs : (((a * u).tdiv v * v).tdiv u).natAbs =
      a.natAbs * u.natAbs / v.natAbs * v.natAbs / u.natAbs := by
    rw [Int.natAbs_tdiv, Int.natAbs_mul, Int.natAbs_tdiv, Int.natAbs_mul]
    rfl
  have hle := rescale_le a.natAbs u.natAbs v.natAbs
  have hgap := le_rescale_add a.natAbs (Int.natAbs_pos.mpr hu) (Int.natAbs_pos.mpr hv)
  rw [← habs] at hle hgap
  refine ⟨rescale_sign a hu hv, ?_, ?_⟩
  · rw [Int.abs_eq_natAbs, Int.abs_eq_natAbs]
    exact_mod_cast hle
  · rw [Int.abs_eq_natAbs, Int.abs_eq_natAbs]
    omega

end Truncation
