import Mathlib.Algebra.Order.Floor.Div
import Mathlib.Algebra.Order.Ring.Abs
import Mathlib.Tactic.Linarith
import NullRing.Arithmetic.Truncation

set_option relaxedAutoImplicit false
set_option autoImplicit false

/-!
# Two multiplications with truncation

A product of three factors divided by two divisors, with a truncated division after each of the two
multiplications. The order in which the factors and the divisors are taken matters by little: each
order moves the exact quotient toward zero, by less than one plus the last factor over the last
divisor.

## Main definitions

* `Truncation.twoStep` — two multiplications, each followed by a truncated division.

## Main results

* `Truncation.abs_twoStep_sub_le` — two orders with the same exact quotient.
-/

namespace Truncation

/-- Two multiplications, each followed by a truncated division. The exact quotient is
`x * u * w / (v * z)`. -/
def twoStep (x u v w z : ℤ) : ℤ := ((x * u).tdiv v * w).tdiv z

/-- On natural numbers the result is not above the exact quotient. -/
lemma twoStep_mul_le (x u v w z : ℕ) : x * u / v * w / z * (v * z) ≤ x * u * w := by
  calc x * u / v * w / z * (v * z)
      = v * (x * u / v * w / z * z) := by ring
    _ ≤ v * (x * u / v * w) := Nat.mul_le_mul_left v (Nat.div_mul_le_self _ z)
    _ = x * u / v * v * w := by ring
    _ ≤ x * u * w := Nat.mul_le_mul_right w (Nat.div_mul_le_self _ v)

/-- On natural numbers the exact quotient is not far above the result.

**Proof sketch.** Each truncation loses less than one divisor: the first less than `v`, which the
factor `w` multiplies, and the second less than `z`, which `v` multiplies. -/
lemma lt_twoStep_add (x u : ℕ) {v : ℕ} (w : ℕ) {z : ℕ} (hv : 0 < v) (hz : 0 < z) :
    x * u * w < (x * u / v * w / z + 1) * (v * z) + w * v := by
  set m := x * u / v with hm
  have h1 : x * u * w ≤ (m + 1) * v * w := by
    refine Nat.mul_le_mul_right w ?_
    rw [mul_comm (m + 1)]
    exact (Nat.lt_mul_div_succ (x * u) hv).le
  have h2 : m * w < (m * w / z + 1) * z := by
    rw [mul_comm (m * w / z + 1)]
    exact Nat.lt_mul_div_succ (m * w) hz
  have h3 := Nat.mul_lt_mul_of_pos_left h2 hv
  calc x * u * w ≤ v * (m * w) + w * v := h1.trans_eq (by ring)
    _ < v * ((m * w / z + 1) * z) + w * v := Nat.add_lt_add_right h3 _
    _ = (m * w / z + 1) * (v * z) + w * v := by ring

/-- Two orders on natural numbers: the second result is not far above the first.

**Proof sketch.** The second is not above the common exact quotient, and the exact quotient is less
than the first result plus one plus `w / z`. -/
lemma twoStep_le_add {x u v w z x' u' v' w' z' : ℕ} (hv : 0 < v) (hz : 0 < z)
    (hnum : x' * u' * w' = x * u * w) (hden : v' * z' = v * z) :
    x' * u' / v' * w' / z' ≤ x * u / v * w / z + w ⌈/⌉ z := by
  set r := x * u / v * w / z with hr
  set r' := x' * u' / v' * w' / z' with hr'
  have hceil : w ≤ z * (w ⌈/⌉ z) := by
    have := le_smul_ceilDiv (b := w) hz
    rwa [smul_eq_mul] at this
  have hlow := twoStep_mul_le x' u' v' w' z'
  rw [hnum, hden, ← hr'] at hlow
  have hhigh := lt_twoStep_add x u w hv hz
  have hlt : v * (r' * z) < v * ((r + 1) * z + w) := by
    calc v * (r' * z) = r' * (v * z) := by ring
      _ ≤ x * u * w := hlow
      _ < (r + 1) * (v * z) + w * v := hhigh
      _ = v * ((r + 1) * z + w) := by ring
  have hless : r' * z < (r + 1) * z + w := Nat.lt_of_mul_lt_mul_left hlt
  have hfinal : r' * z < (r + 1 + w ⌈/⌉ z) * z := by
    calc r' * z < (r + 1) * z + w := hless
      _ ≤ (r + 1) * z + z * (w ⌈/⌉ z) := Nat.add_le_add_left hceil _
      _ = (r + 1 + w ⌈/⌉ z) * z := by ring
  have := Nat.lt_of_mul_lt_mul_right hfinal
  omega

/-- The magnitude is that of the natural numbers. -/
lemma natAbs_twoStep (x u v w z : ℤ) :
    (twoStep x u v w z).natAbs =
      x.natAbs * u.natAbs / v.natAbs * w.natAbs / z.natAbs := by
  rw [twoStep, Int.natAbs_tdiv, Int.natAbs_mul, Int.natAbs_tdiv, Int.natAbs_mul]
  rfl

/-- The result is on the side of the exact quotient. -/
lemma twoStep_nonneg {x u v w z : ℤ} (h : 0 ≤ x * u * w * (v * z)) : 0 ≤ twoStep x u v w z := by
  have hfirst : 0 ≤ (x * u).tdiv v * (w * z) := tdiv_mul_nonneg (by linarith)
  exact tdiv_nonneg_of_mul_nonneg (by linarith)

/-- The result is on the side of the exact quotient. -/
lemma twoStep_nonpos {x u v w z : ℤ} (h : x * u * w * (v * z) ≤ 0) : twoStep x u v w z ≤ 0 := by
  have hneg : 0 ≤ twoStep x u v (-w) z := twoStep_nonneg (by linarith)
  rw [twoStep, mul_neg, Int.neg_tdiv] at hneg
  exact neg_nonneg.mp hneg

/-- **Two orders with the same exact quotient** give results that differ by at most the last factor
over the last divisor, rounded up, of one of the two.

**Proof sketch.** Both results are on the side of the exact quotient, so they differ as their
magnitudes do, which are those of the natural numbers. -/
theorem abs_twoStep_sub_le {x u v w z x' u' v' w' z' : ℤ} (hv : v ≠ 0) (hz : z ≠ 0)
    (hv' : v' ≠ 0) (hz' : z' ≠ 0) (hnum : x' * u' * w' = x * u * w) (hden : v' * z' = v * z) :
    |twoStep x u v w z - twoStep x' u' v' w' z'| ≤
      max (w.natAbs ⌈/⌉ z.natAbs) (w'.natAbs ⌈/⌉ z'.natAbs) := by
  have hnum' := congrArg Int.natAbs hnum
  have hden' := congrArg Int.natAbs hden
  simp only [Int.natAbs_mul] at hnum' hden'
  have hfirst := twoStep_le_add (Int.natAbs_pos.mpr hv) (Int.natAbs_pos.mpr hz) hnum' hden'
  have hsecond := twoStep_le_add (Int.natAbs_pos.mpr hv') (Int.natAbs_pos.mpr hz') hnum'.symm
    hden'.symm
  rw [← natAbs_twoStep, ← natAbs_twoStep] at hfirst hsecond
  have hsides : (0 ≤ twoStep x u v w z ∧ 0 ≤ twoStep x' u' v' w' z') ∨
      (twoStep x u v w z ≤ 0 ∧ twoStep x' u' v' w' z' ≤ 0) := by
    rcases le_total 0 (x * u * w * (v * z)) with h | h
    · exact Or.inl ⟨twoStep_nonneg h, twoStep_nonneg (by rw [hnum, hden]; exact h)⟩
    · exact Or.inr ⟨twoStep_nonpos h, twoStep_nonpos (by rw [hnum, hden]; exact h)⟩
  rw [abs_le]
  omega

end Truncation
