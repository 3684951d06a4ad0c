import Mathlib.Tactic.Lemma
import Mathlib.Tactic.Ring
import Mathlib.Data.Int.Order.Basic
import Mathlib.Algebra.Order.Ring.Int

set_option relaxedAutoImplicit false
set_option autoImplicit false

/-!
# Division truncated toward zero

`Int.tdiv` and `Int.tmod` round toward zero, as integer division does on most hardware. A
truncated quotient is pinned down by a remainder that is smaller than the divisor and lies on
the dividend's side of zero; the split of a product along the quotient and the remainder of
one factor follows, because both parts of the split lie on the same side of zero.

## Main results

* `Truncation.tdiv_eq_of_nonneg`, `Truncation.tdiv_eq_of_nonpos` — the quotient from a
  division with a remainder on the dividend's side.
* `Truncation.tdiv_mul_split` — `trunc (a * b / d) = trunc (a / d) * b + trunc (a % d * b / d)`.
* `Truncation.tdiv_split_same_side` — the two summands do not have opposite signs.
-/

namespace Truncation

/-- The quotient of a nonnegative dividend, from a nonnegative remainder. -/
lemma tdiv_eq_of_nonneg {x d q r : ℤ} (hx : 0 ≤ x) (hd : d ≠ 0) (hr : 0 ≤ r)
    (hlt : r < d.natAbs) (h : r + d * q = x) : x.tdiv d = q :=
  ((Int.tdiv_tmod_unique hx hd).mpr ⟨h, hr, hlt⟩).1

/-- The quotient of a nonpositive dividend, from a nonpositive remainder. -/
lemma tdiv_eq_of_nonpos {x d q r : ℤ} (hx : x ≤ 0) (hd : d ≠ 0) (hr : r ≤ 0)
    (hlt : -(d.natAbs : ℤ) < r) (h : r + d * q = x) : x.tdiv d = q :=
  ((Int.tdiv_tmod_unique' hx hd).mpr ⟨h, hlt, hr⟩).1

/-- The remainder of a nonpositive dividend is nonpositive. -/
lemma tmod_nonpos {a : ℤ} (d : ℤ) (ha : a ≤ 0) : a.tmod d ≤ 0 := by
  have h := Int.tmod_nonneg d (Int.neg_nonneg_of_nonpos ha)
  rw [Int.neg_tmod] at h
  omega

/-- The remainder is smaller than the divisor, in magnitude. -/
lemma natAbs_tmod_lt (a : ℤ) {d : ℤ} (hd : d ≠ 0) : (a.tmod d).natAbs < d.natAbs := by
  rw [Int.natAbs_tmod]
  exact Nat.mod_lt _ (Int.natAbs_pos.mpr hd)

/-- A product with the remainder lies on the side of the product with the dividend. -/
lemma tmod_mul_nonneg {a b : ℤ} (d : ℤ) (h : 0 ≤ a * b) : 0 ≤ a.tmod d * b := by
  rcases le_total 0 a with ha | ha
  · rcases ha.eq_or_lt with rfl | hpos
    · simp
    · have hb : 0 ≤ b := nonneg_of_mul_nonneg_right h hpos
      exact mul_nonneg (Int.tmod_nonneg d ha) hb
  · rcases ha.eq_or_lt with rfl | hneg
    · simp
    · have hb : b ≤ 0 := nonpos_of_mul_nonneg_right h hneg
      exact mul_nonneg_of_nonpos_of_nonpos (tmod_nonpos d ha) hb

/-- The same on the other side of zero. -/
lemma tmod_mul_nonpos {a b : ℤ} (d : ℤ) (h : a * b ≤ 0) : a.tmod d * b ≤ 0 := by
  have h' : 0 ≤ a * -b := by rw [mul_neg]; omega
  have := tmod_mul_nonneg d h'
  rw [mul_neg] at this
  omega

/-- **The split of a truncated product**: multiply the quotient and the remainder of `a`
separately, and truncate the second product alone.

**Proof sketch.** With `a = d * q + r` and `r * b = d * q' + r'` we have
`a * b = r' + d * (q * b + q')`, so it is enough that `r'` is a remainder of `a * b`: it is
smaller than `d`, and it is on the side of `r * b`, which is the side of `a * b`. -/
theorem tdiv_mul_split (a b : ℤ) {d : ℤ} (hd : d ≠ 0) :
    (a * b).tdiv d = a.tdiv d * b + (a.tmod d * b).tdiv d := by
  set r' := (a.tmod d * b).tmod d with hr'
  have hlt : r'.natAbs < d.natAbs := natAbs_tmod_lt _ hd
  have hsum : r' + d * (a.tdiv d * b + (a.tmod d * b).tdiv d) = a * b := by
    have h1 : a.tmod d + d * a.tdiv d = a := Int.tmod_add_mul_tdiv a d
    have h2 : r' + d * (a.tmod d * b).tdiv d = a.tmod d * b := Int.tmod_add_mul_tdiv _ d
    calc r' + d * (a.tdiv d * b + (a.tmod d * b).tdiv d)
        = (r' + d * (a.tmod d * b).tdiv d) + d * a.tdiv d * b := by ring
      _ = (a.tmod d + d * a.tdiv d) * b := by rw [h2]; ring
      _ = a * b := by rw [h1]
  rcases le_total 0 (a * b) with hab | hab
  · have hr : 0 ≤ r' := Int.tmod_nonneg d (tmod_mul_nonneg d hab)
    exact tdiv_eq_of_nonneg hab hd hr (by omega) hsum
  · have hr : r' ≤ 0 := tmod_nonpos d (tmod_mul_nonpos d hab)
    exact tdiv_eq_of_nonpos hab hd hr (by omega) hsum

/-- A truncated quotient is nonnegative when dividend and divisor are on the same side. -/
lemma tdiv_nonneg_of_mul_nonneg {x d : ℤ} (h : 0 ≤ x * d) : 0 ≤ x.tdiv d := by
  rcases eq_or_ne d 0 with rfl | hd
  · simp
  · rcases lt_or_gt_of_ne hd with hneg | hpos
    · exact Int.tdiv_nonneg_of_nonpos_of_nonpos (nonpos_of_mul_nonneg_left h hneg) hneg.le
    · exact Int.tdiv_nonneg (nonneg_of_mul_nonneg_left h hpos) hpos.le

/-- A truncated quotient is nonpositive when dividend and divisor are on opposite sides. -/
lemma tdiv_nonpos_of_mul_nonpos {x d : ℤ} (h : x * d ≤ 0) : x.tdiv d ≤ 0 := by
  have h' : 0 ≤ x * -d := by rw [mul_neg]; omega
  have := tdiv_nonneg_of_mul_nonneg h'
  rw [Int.tdiv_neg] at this
  omega

/-- The quotient by `d` keeps the side of a product with `d`.

**Proof sketch.** By the sign of `b`. If it is positive then `a * d` is not negative, so neither is
the quotient; and conversely if `b` is negative. -/
lemma tdiv_mul_nonneg {a b d : ℤ} (h : 0 ≤ a * b * d) : 0 ≤ a.tdiv d * b := by
  rcases le_total 0 b with hb | hb
  · rcases hb.eq_or_lt with rfl | hb'
    · simp
    · have had : 0 ≤ a * d := by
        have : 0 ≤ (a * d) * b := by rw [mul_right_comm]; exact h
        exact nonneg_of_mul_nonneg_left this hb'
      exact mul_nonneg (tdiv_nonneg_of_mul_nonneg had) hb
  · rcases hb.eq_or_lt with rfl | hb'
    · simp
    · have had : a * d ≤ 0 := by
        have : 0 ≤ (a * d) * b := by rw [mul_right_comm]; exact h
        exact nonpos_of_mul_nonneg_left this hb'
      exact mul_nonneg_of_nonpos_of_nonpos (tdiv_nonpos_of_mul_nonpos had) hb

/-- **The summands of the split lie on one side of zero.** -/
theorem tdiv_split_same_side (a b d : ℤ) :
    (0 ≤ a.tdiv d * b ∧ 0 ≤ (a.tmod d * b).tdiv d) ∨
      (a.tdiv d * b ≤ 0 ∧ (a.tmod d * b).tdiv d ≤ 0) := by
  have hlow : ∀ b, 0 ≤ a * b * d → 0 ≤ a.tdiv d * b ∧ 0 ≤ (a.tmod d * b).tdiv d := by
    intro b h
    have hmod : 0 ≤ a.tmod d * (b * d) := tmod_mul_nonneg d (by rwa [← mul_assoc])
    exact ⟨tdiv_mul_nonneg h, tdiv_nonneg_of_mul_nonneg (by rwa [mul_assoc])⟩
  rcases le_total 0 (a * b * d) with h | h
  · exact Or.inl (hlow b h)
  · obtain ⟨h1, h2⟩ := hlow (-b) (by rw [mul_neg, neg_mul]; omega)
    rw [mul_neg] at h1 h2
    rw [Int.neg_tdiv] at h2
    exact Or.inr ⟨by omega, by omega⟩

/-- An integer lies between zero and its product with a positive factor. -/
lemma between_zero_mul {q s : ℤ} (hs : 0 < s) :
    (0 ≤ q → q ≤ q * s) ∧ (q ≤ 0 → q * s ≤ q) :=
  ⟨fun h => le_mul_of_one_le_right h hs, fun h => mul_le_of_one_le_right h hs⟩

end Truncation
