import Mathlib.Algebra.Order.Ring.Abs
import Mathlib.Tactic.NormNum
import NullRing.FixedPoint.Basic

set_option relaxedAutoImplicit false
set_option autoImplicit false

/-!
# The two compiled branches of multiplication and division

The 128-bit branch of `operator*` and `operator/` always has a value: the exact truncated
result, narrowed to 64 bits. The split branch computes the same integer whenever it does not
overflow (`split_eq_wide`), and the only intermediate that can overflow where the exact
result is representable is the product with the remainder (`split_overflow_free_iff`): the
comment in the source calls the split safe, but `0.99999999 * 10000.0` already overflows it.

## Main definitions

* `FixedPoint.MulFits`, `FixedPoint.DivFits` — no intermediate of the split branch overflows.
* `FixedPoint.MulSafe`, `FixedPoint.DivSafe` — the operands for which that is so, among those
  with a representable result.

## Main results

* `FixedPoint.split_eq_wide` — where the split branch does not overflow, both branches give
  the exact truncated result.
* `FixedPoint.split_overflow_free_iff` — where the exact result is representable, the split
  branch is free of overflow exactly for the safe operands.
* `FixedPoint.split_overflows_at_representable_result` — operands that are not safe.
-/

namespace NullRing.FixedPoint

open Signed Truncation

variable {p : Precision}

/-! ## The 128-bit branches -/

/-- A product of two factors below `2 ^ 63` in magnitude fits in 128 bits, and so does any
quotient of it. -/
lemma fits_128_tdiv {x y : ℤ} (hx : |x| ≤ 2 ^ 63) (hy : |y| ≤ 2 ^ 63) (d : ℤ) :
    Fits 128 (x * y) ∧ Fits 128 ((x * y).tdiv d) := by
  have hprod : |x * y| ≤ 2 ^ 63 * 2 ^ 63 := by
    rw [abs_mul]
    exact mul_le_mul hx hy (abs_nonneg y) (by norm_num)
  have hquot : |(x * y).tdiv d| ≤ |x * y| := by
    rw [Int.abs_eq_natAbs, Int.abs_eq_natAbs]
    exact_mod_cast Int.natAbs_tdiv_le_natAbs (x * y) d
  have hlt : (2 ^ 63 * 2 ^ 63 : ℤ) < 2 ^ (128 - 1) := by norm_num
  exact ⟨.of_abs_lt (hprod.trans_lt hlt), .of_abs_lt ((hquot.trans hprod).trans_lt hlt)⟩

/-- The scaling factor is below `2 ^ 63`. -/
lemma abs_scale_le (p : Precision) : |scale p| ≤ 2 ^ 63 := by
  rw [abs_of_pos (scale_pos p)]
  exact (scale_le p).trans (by norm_num)

/-- The 128-bit branch of `operator*` narrows the exact truncated result. -/
lemma mulWide_eq (a b : FixedPoint p) :
    mulWide a b =
      .ok (fromRaw (narrow 64 (by decide) ((a.raw.val * b.raw.val).tdiv (scale p)))) := by
  obtain ⟨h1, h2⟩ := fits_128_tdiv a.raw.2.abs_le_pow b.raw.2.abs_le_pow (scale p)
  unfold mulWide checked128
  rw [checked_bind_of_fits _ h1, checked_bind_of_fits _ h2]
  rfl

/-- The 128-bit branch of `operator/` narrows the exact truncated result. -/
lemma divWide_eq (a b : FixedPoint p) (hb : b.raw.val ≠ 0) :
    divWide a b =
      .ok (fromRaw (narrow 64 (by decide) ((a.raw.val * scale p).tdiv b.raw.val))) := by
  obtain ⟨h1, h2⟩ := fits_128_tdiv a.raw.2.abs_le_pow (abs_scale_le p) b.raw.val
  unfold divWide checked128
  rw [if_neg hb, checked_bind_of_fits _ h1, checked_bind_of_fits _ h2]
  rfl

/-! ## The split branches -/

/-- No intermediate of the split branch of `operator*` overflows: `a_hi * b`, `a_lo * b` and
their sum, the latter divided by the scaling factor first. -/
structure MulFits (a b : FixedPoint p) : Prop where
  hi : Fits 64 (a.raw.val.tdiv (scale p) * b.raw.val)
  lo : Fits 64 (a.raw.val.tmod (scale p) * b.raw.val)
  sum : Fits 64 (a.raw.val.tdiv (scale p) * b.raw.val +
    (a.raw.val.tmod (scale p) * b.raw.val).tdiv (scale p))

/-- No intermediate of the split branch of `operator/` overflows. -/
structure DivFits (a b : FixedPoint p) : Prop where
  hi : Fits 64 (a.raw.val.tdiv b.raw.val * scale p)
  lo : Fits 64 (a.raw.val.tmod b.raw.val * scale p)
  sum : Fits 64 (a.raw.val.tdiv b.raw.val * scale p +
    (a.raw.val.tmod b.raw.val * scale p).tdiv b.raw.val)

/-- A quotient of a word by a positive integer is a word, and so is the remainder.

**Proof sketch.** Quotient and remainder have the sign of the word, or are zero, and are no larger
in absolute value. -/
lemma fits_tdiv_tmod_of_pos {x d : ℤ} (hx : Fits 64 x) (hd : 0 < d) :
    Fits 64 (x.tdiv d) ∧ Fits 64 (x.tmod d) := by
  have hq := Int.natAbs_tdiv_le_natAbs x d
  have hr : (x.tmod d).natAbs ≤ x.natAbs := by
    rw [Int.natAbs_tmod]
    exact Nat.mod_le _ _
  rcases le_total 0 x with h | h
  · have h1 := Int.tdiv_nonneg h hd.le
    have h2 := Int.tmod_nonneg d h
    exact ⟨hx.of_between (Or.inl ⟨h1, by omega⟩), hx.of_between (Or.inl ⟨h2, by omega⟩)⟩
  · have h1 : x.tdiv d ≤ 0 := tdiv_nonpos_of_mul_nonpos (mul_nonpos_of_nonpos_of_nonneg h hd.le)
    have h2 := tmod_nonpos d h
    exact ⟨hx.of_between (Or.inr ⟨by omega, h1⟩), hx.of_between (Or.inr ⟨by omega, h2⟩)⟩

/-- Without overflow, the split branch of `operator*` has the value it writes out. -/
lemma mulSplit_of_fits {a b : FixedPoint p} (h : MulFits a b) :
    mulSplit a b = .ok (fromRaw ⟨_, h.sum⟩) := by
  obtain ⟨h1, h2⟩ := fits_tdiv_tmod_of_pos a.raw.2 (scale_pos p)
  have h3 := (fits_tdiv_tmod_of_pos h.lo (scale_pos p)).1
  unfold mulSplit checked64
  rw [checked_bind_of_fits _ h1, checked_bind_of_fits _ h2, checked_bind_of_fits _ h.hi,
    checked_bind_of_fits _ h.lo, checked_bind_of_fits _ h3, checked_bind_of_fits _ h.sum]
  rfl

/-- An overflow of the product with the remainder leaves the split `operator*` without a
value. -/
lemma mulSplit_of_lo_not_fits {a b : FixedPoint p}
    (hhi : Fits 64 (a.raw.val.tdiv (scale p) * b.raw.val))
    (hlo : ¬ Fits 64 (a.raw.val.tmod (scale p) * b.raw.val)) :
    mulSplit a b = .error .overflow := by
  obtain ⟨h1, h2⟩ := fits_tdiv_tmod_of_pos a.raw.2 (scale_pos p)
  unfold mulSplit checked64
  rw [checked_bind_of_fits _ h1, checked_bind_of_fits _ h2, checked_bind_of_fits _ hhi,
    checked_bind_of_not_fits _ hlo]

/-- The truncated quotient lies between zero and its product with the scaling factor. -/
lemma DivFits.quotient {a b : FixedPoint p} (h : Fits 64 (a.raw.val.tdiv b.raw.val * scale p)) :
    Fits 64 (a.raw.val.tdiv b.raw.val) := by
  have hbetween := between_zero_mul (q := a.raw.val.tdiv b.raw.val) (scale_pos p)
  rcases le_total 0 (a.raw.val.tdiv b.raw.val) with h0 | h0
  · exact h.of_between (Or.inl ⟨h0, hbetween.1 h0⟩)
  · exact h.of_between (Or.inr ⟨hbetween.2 h0, h0⟩)

/-- The remainder of a division is on the dividend's side and no larger. -/
lemma fits_tmod {x : ℤ} (hx : Fits 64 x) (d : ℤ) : Fits 64 (x.tmod d) := by
  have hr : (x.tmod d).natAbs ≤ x.natAbs := by
    rw [Int.natAbs_tmod]
    exact Nat.mod_le _ _
  rcases le_total 0 x with h | h
  · have := Int.tmod_nonneg d h
    exact hx.of_between (Or.inl ⟨this, by omega⟩)
  · have := tmod_nonpos d h
    exact hx.of_between (Or.inr ⟨by omega, this⟩)

/-- The second quotient of the split branch of `operator/` lies between zero and the sum. -/
lemma DivFits.second_quotient {a b : FixedPoint p} (h : DivFits a b) :
    Fits 64 ((a.raw.val.tmod b.raw.val * scale p).tdiv b.raw.val) := by
  rcases tdiv_split_same_side a.raw.val (scale p) b.raw.val with ⟨h1, h2⟩ | ⟨h1, h2⟩
  · exact h.sum.of_between (Or.inl ⟨h2, by omega⟩)
  · exact h.sum.of_between (Or.inr ⟨by omega, h2⟩)

/-- Without overflow, the split branch of `operator/` has the value it writes out. -/
lemma divSplit_of_fits {a b : FixedPoint p} (hb : b.raw.val ≠ 0) (h : DivFits a b) :
    divSplit a b = .ok (fromRaw ⟨_, h.sum⟩) := by
  unfold divSplit checked64
  rw [if_neg hb, checked_bind_of_fits _ (DivFits.quotient h.hi),
    checked_bind_of_fits _ (fits_tmod a.raw.2 b.raw.val), checked_bind_of_fits _ h.hi,
    checked_bind_of_fits _ h.lo, checked_bind_of_fits _ h.second_quotient,
    checked_bind_of_fits _ h.sum]
  rfl

/-! ## The branches agree where the split one does not overflow -/

/-- **Both branches round alike**: whenever no intermediate of the split branch overflows, its
value is the exact truncated result, which fits in 64 bits, so that the 128-bit branch
returns the same value and its narrowing loses nothing. (For division this includes
`INT64_MIN / -1`, where the first product of the split branch does overflow.)

**Proof sketch.** `tdiv_mul_split`, once with the scaling factor as divisor and once with `b`:
the sum computed by the split branch is the exact truncated result. -/
theorem split_eq_wide (a b : FixedPoint p) :
    (∀ h : MulFits a b, ∃ hfit : Fits 64 ((a.raw.val * b.raw.val).tdiv (scale p)),
      mul .gnuOrClang a b = .ok (fromRaw ⟨_, hfit⟩) ∧
      mul .other a b = .ok (fromRaw ⟨_, h.sum⟩) ∧
      mul .other a b = mul .gnuOrClang a b) ∧
    (b.raw.val ≠ 0 → ∀ h : DivFits a b,
      ∃ hfit : Fits 64 ((a.raw.val * scale p).tdiv b.raw.val),
      div .gnuOrClang a b = .ok (fromRaw ⟨_, hfit⟩) ∧
      div .other a b = .ok (fromRaw ⟨_, h.sum⟩) ∧
      div .other a b = div .gnuOrClang a b) := by
  constructor
  · intro h
    have hsplit := tdiv_mul_split a.raw.val b.raw.val (scale_ne_zero p)
    have hfit : Fits 64 ((a.raw.val * b.raw.val).tdiv (scale p)) := by
      rw [hsplit]
      exact h.sum
    have hwide : mul .gnuOrClang a b = .ok (fromRaw ⟨_, hfit⟩) := by
      rw [mul, mulWide_eq, narrow_of_fits _ hfit]
    have hother : mul .other a b = .ok (fromRaw ⟨_, h.sum⟩) := mulSplit_of_fits h
    refine ⟨hfit, hwide, hother, ?_⟩
    rw [hwide, hother]
    simp only [hsplit]
  · intro hb h
    have hsplit := tdiv_mul_split a.raw.val (scale p) hb
    have hfit : Fits 64 ((a.raw.val * scale p).tdiv b.raw.val) := by
      rw [hsplit]
      exact h.sum
    have hwide : div .gnuOrClang a b = .ok (fromRaw ⟨_, hfit⟩) := by
      rw [div, divWide_eq a b hb, narrow_of_fits _ hfit]
    have hother : div .other a b = .ok (fromRaw ⟨_, h.sum⟩) := divSplit_of_fits hb h
    refine ⟨hfit, hwide, hother, ?_⟩
    rw [hwide, hother]
    simp only [hsplit]

/-- Eight decimal digits, the precision of prices. -/
def eightDigits : Precision := ⟨8, by norm_num, by norm_num⟩

/-- The fixed-point number with a raw value in range. -/
def ofRaw (p : Precision) (x : ℤ) (h : Fits 64 x) : FixedPoint p := fromRaw ⟨x, h⟩

/-- `1.5 * -2.5` and `1.5 / -2.5`: no overflow on either branch, and equal results. -/
theorem split_eq_wide_example :
    let a := ofRaw eightDigits 150000000 (by decide)
    let b := ofRaw eightDigits (-250000000) (by decide)
    mul .other a b = mul .gnuOrClang a b ∧ div .other a b = div .gnuOrClang a b := by
  intro a b
  obtain ⟨_, -, -, hmul⟩ := (split_eq_wide a b).1 ⟨by decide, by decide, by decide⟩
  obtain ⟨_, -, -, hdiv⟩ := (split_eq_wide a b).2 (by decide) ⟨by decide, by decide, by decide⟩
  exact ⟨hmul, hdiv⟩

/-! ## Where the split branch overflows -/

/-- The operands for which the split `operator*` is free of overflow: the fractional part of
`a` and `b` multiply to less than `2 ^ 63` in magnitude, or to `2 ^ 63` with opposite signs. -/
def MulSafe (a b : FixedPoint p) : Prop :=
  (a.raw.val.tmod (scale p)).natAbs * b.raw.val.natAbs +
    (if 0 ≤ a.raw.val * b.raw.val then 1 else 0) ≤ 2 ^ 63

/-- The operands for which the split `operator/` is free of overflow: the remainder of `a` by
`b`, scaled, stays below `2 ^ 63` in magnitude. -/
def DivSafe (a b : FixedPoint p) : Prop :=
  (a.raw.val.tmod b.raw.val).natAbs * (scale p).natAbs < 2 ^ 63

/-- The second product of the split `operator*` fits exactly for the safe operands.

**Proof sketch.** The product of the remainder with the other operand has the sign of the product of
the operands, or is zero, so the bound that counts is that of this sign. -/
lemma fits_lo_iff_mulSafe (a b : FixedPoint p) :
    Fits 64 (a.raw.val.tmod (scale p) * b.raw.val) ↔ MulSafe a b := by
  have habs : (a.raw.val.tmod (scale p) * b.raw.val).natAbs =
      (a.raw.val.tmod (scale p)).natAbs * b.raw.val.natAbs := Int.natAbs_mul _ _
  unfold MulSafe
  rw [fits_64_iff, ← habs]
  rcases le_or_gt 0 (a.raw.val * b.raw.val) with h | h
  · have := tmod_mul_nonneg (scale p) h
    rw [if_pos h]
    omega
  · have := tmod_mul_nonpos (scale p) h.le
    rw [if_neg h.not_ge]
    omega

/-- The second product of the split `operator/` fits exactly for the safe operands: it is a
multiple of ten, so it is never `-2 ^ 63`. -/
lemma fits_lo_iff_divSafe (a b : FixedPoint p) :
    Fits 64 (a.raw.val.tmod b.raw.val * scale p) ↔ DivSafe a b := by
  have habs : (a.raw.val.tmod b.raw.val * scale p).natAbs =
      (a.raw.val.tmod b.raw.val).natAbs * (scale p).natAbs := Int.natAbs_mul _ _
  have hten : (10 : ℤ) ∣ a.raw.val.tmod b.raw.val * scale p := by
    rw [scale_eq]
    exact Dvd.dvd.mul_left (dvd_pow_self 10 p.pos.ne') _
  unfold DivSafe
  rw [fits_64_iff, ← habs]
  omega

/-- Both summands of a split that fits in a word are words. -/
lemma fits_summands {x y d : ℤ} (hd : d ≠ 0) (hfit : Fits 64 ((x * y).tdiv d)) :
    Fits 64 (x.tdiv d * y) ∧ Fits 64 (x.tdiv d * y + (x.tmod d * y).tdiv d) := by
  rw [tdiv_mul_split x y hd] at hfit
  rcases tdiv_split_same_side x y d with ⟨h1, h2⟩ | ⟨h1, h2⟩
  · exact ⟨hfit.of_between (Or.inl ⟨h1, by omega⟩), hfit⟩
  · exact ⟨hfit.of_between (Or.inr ⟨by omega, h1⟩), hfit⟩

/-- An overflow of the product with the remainder leaves the split `operator/` without a
value. -/
lemma divSplit_of_lo_not_fits {a b : FixedPoint p} (hb : b.raw.val ≠ 0)
    (hhi : Fits 64 (a.raw.val.tdiv b.raw.val * scale p))
    (hlo : ¬ Fits 64 (a.raw.val.tmod b.raw.val * scale p)) :
    divSplit a b = .error .overflow := by
  unfold divSplit checked64
  rw [if_neg hb, checked_bind_of_fits _ (DivFits.quotient hhi),
    checked_bind_of_fits _ (fits_tmod a.raw.2 b.raw.val), checked_bind_of_fits _ hhi,
    checked_bind_of_not_fits _ hlo]

/-- **Where the exact result is representable, the split branch is free of overflow exactly
for the safe operands**, and these are exactly the operands for which it agrees with the
128-bit branch.

**Proof sketch.** The first product and the sum lie between zero and the exact result
(`fits_summands`), so only the product with the remainder can overflow; when it does the
split branch has no value, while the 128-bit branch always has one. -/
theorem split_overflow_free_iff (a b : FixedPoint p) :
    (Fits 64 ((a.raw.val * b.raw.val).tdiv (scale p)) →
      (MulFits a b ↔ MulSafe a b) ∧
      (mul .other a b = mul .gnuOrClang a b ↔ MulSafe a b)) ∧
    (b.raw.val ≠ 0 → Fits 64 ((a.raw.val * scale p).tdiv b.raw.val) →
      (DivFits a b ↔ DivSafe a b) ∧
      (div .other a b = div .gnuOrClang a b ↔ DivSafe a b)) := by
  constructor
  · intro hfit
    obtain ⟨hhi, hsum⟩ := fits_summands (scale_ne_zero p) hfit
    have hfits : MulFits a b ↔ MulSafe a b := by
      rw [← fits_lo_iff_mulSafe]
      exact ⟨fun h => h.lo, fun hlo => ⟨hhi, hlo, hsum⟩⟩
    refine ⟨hfits, ?_, ?_⟩
    · intro heq
      by_contra hunsafe
      rw [← fits_lo_iff_mulSafe] at hunsafe
      rw [mul, mul, mulSplit_of_lo_not_fits hhi hunsafe, mulWide_eq] at heq
      cases heq
    · intro hsafe
      have h := hfits.mpr hsafe
      rw [mul, mul, mulSplit_of_fits h, mulWide_eq, narrow_of_fits _ hfit]
      simp only [tdiv_mul_split a.raw.val b.raw.val (scale_ne_zero p)]
  · intro hb hfit
    obtain ⟨hhi, hsum⟩ := fits_summands hb hfit
    have hfits : DivFits a b ↔ DivSafe a b := by
      rw [← fits_lo_iff_divSafe]
      exact ⟨fun h => h.lo, fun hlo => ⟨hhi, hlo, hsum⟩⟩
    refine ⟨hfits, ?_, ?_⟩
    · intro heq
      by_contra hunsafe
      rw [← fits_lo_iff_divSafe] at hunsafe
      rw [div, div, divSplit_of_lo_not_fits hb hhi hunsafe, divWide_eq a b hb] at heq
      cases heq
    · intro hsafe
      have h := hfits.mpr hsafe
      rw [div, div, divSplit_of_fits hb h, divWide_eq a b hb, narrow_of_fits _ hfit]
      simp only [tdiv_mul_split a.raw.val (scale p) hb]

/-- `1.5 * -2.5` and `1.5 / -2.5` are safe. -/
theorem split_overflow_free_example :
    let a := ofRaw eightDigits 150000000 (by decide)
    let b := ofRaw eightDigits (-250000000) (by decide)
    MulFits a b ∧ DivFits a b := by
  intro a b
  have hmul := (split_overflow_free_iff a b).1 (by decide)
  have hdiv := (split_overflow_free_iff a b).2 (by decide) (by decide)
  exact ⟨hmul.1.mpr (by unfold MulSafe; decide), hdiv.1.mpr (by unfold DivSafe; decide)⟩

/-- `0.99999999 * 10000.0` and `999.99999999 / 1000.0` have representable results, but the
split branches overflow on the product with the remainder. -/
theorem split_overflows_at_representable_result :
    (∃ a b : FixedPoint eightDigits,
      Fits 64 ((a.raw.val * b.raw.val).tdiv (scale eightDigits)) ∧
      ¬ Fits 64 (a.raw.val.tmod (scale eightDigits) * b.raw.val) ∧
      mul .other a b ≠ mul .gnuOrClang a b) ∧
    ∃ a b : FixedPoint eightDigits, b.raw.val ≠ 0 ∧
      Fits 64 ((a.raw.val * scale eightDigits).tdiv b.raw.val) ∧
      ¬ Fits 64 (a.raw.val.tmod b.raw.val * scale eightDigits) ∧
      div .other a b ≠ div .gnuOrClang a b := by
  refine ⟨⟨ofRaw eightDigits 99999999 (by decide), ofRaw eightDigits 1000000000000 (by decide),
    by decide, by decide, ?_⟩, ⟨ofRaw eightDigits 99999999999 (by decide),
    ofRaw eightDigits 100000000000 (by decide), by decide, by decide, by decide, ?_⟩⟩
  · intro h
    rw [mul, mul, mulSplit_of_lo_not_fits (by decide) (by decide), mulWide_eq] at h
    cases h
  · intro h
    rw [div, div, divSplit_of_lo_not_fits (by decide) (by decide) (by decide),
      divWide_eq _ _ (by decide)] at h
    cases h

end NullRing.FixedPoint
