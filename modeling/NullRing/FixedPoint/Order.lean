import NullRing.Arithmetic.Rounding
import NullRing.FixedPoint.Branches

set_option relaxedAutoImplicit false
set_option autoImplicit false

/-!
# Order and the operators

The fixed-point numbers are linearly ordered by their raw values. On the 128-bit branch an
operator with a representable result has the exact truncated one, so the operators inherit
what truncation does to order and to sums.

## Main definitions

* `FixedPoint.ProductFits`, `FixedPoint.QuotientFits` — the exact truncated result is
  representable.

## Main results

* `FixedPoint.mul_of_fits`, `FixedPoint.div_of_fits` — representable results are exact.
* `FixedPoint.operators_respect_order` — monotonicity of `operator*` and `operator/` in their
  operands, and distributivity of `operator*` over `operator+` and `operator-` up to one unit.
-/

namespace NullRing.FixedPoint

open Signed Truncation

variable {p : Precision}

/-- The order of the raw values. -/
instance : LinearOrder (FixedPoint p) where
  le_refl a := le_refl a.raw.val
  le_trans a b c := le_trans (a := a.raw.val)
  lt_iff_le_not_ge a b := lt_iff_le_not_ge (a := a.raw.val)
  le_antisymm a b h1 h2 := by
    obtain ⟨x⟩ := a
    obtain ⟨y⟩ := b
    have heq : x.val = y.val := le_antisymm h1 h2
    exact congrArg mk (Subtype.ext heq)
  le_total a b := le_total a.raw.val b.raw.val
  toDecidableLE a b := inferInstance

/-- The exact truncated product is representable. -/
def ProductFits (a b : FixedPoint p) : Prop := Fits 64 ((a.raw.val * b.raw.val).tdiv (scale p))

/-- The exact truncated quotient is representable. -/
def QuotientFits (a b : FixedPoint p) : Prop := Fits 64 ((a.raw.val * scale p).tdiv b.raw.val)

/-- Whether a product is representable can be evaluated. -/
instance (a b : FixedPoint p) : Decidable (ProductFits a b) :=
  inferInstanceAs (Decidable (Fits _ _))

/-- Whether a quotient is representable can be evaluated. -/
instance (a b : FixedPoint p) : Decidable (QuotientFits a b) :=
  inferInstanceAs (Decidable (Fits _ _))

/-- A representable product is exact. -/
lemma mul_of_fits {a b : FixedPoint p} (h : ProductFits a b) :
    mul .gnuOrClang a b = .ok (fromRaw ⟨_, h⟩) := by
  rw [mul, mulWide_eq, narrow_of_fits _ h]

/-- A representable quotient is exact. -/
lemma div_of_fits {a b : FixedPoint p} (hb : b.raw.val ≠ 0) (h : QuotientFits a b) :
    div .gnuOrClang a b = .ok (fromRaw ⟨_, h⟩) := by
  rw [div, divWide_eq a b hb, narrow_of_fits _ h]

/-- An operator that returns a checked result has the value with that raw value, if any. -/
lemma return_checked64_eq_ok_iff {x : ℤ} {s : FixedPoint p} :
    (do let r ← checked64 x; return fromRaw r : Except Fault (FixedPoint p)) = .ok s ↔
      s.raw.val = x := by
  obtain ⟨⟨y, hy⟩⟩ := s
  unfold checked64
  by_cases h : Fits 64 x
  · rw [checked_bind_of_fits _ h]
    simp only [fromRaw, pure, Except.pure, Except.ok.injEq, FixedPoint.mk.injEq,
      Subtype.mk.injEq]
    exact eq_comm
  · rw [checked_bind_of_not_fits _ h]
    constructor
    · intro hok
      cases hok
    · intro hyx
      exact absurd (hyx ▸ hy) h

/-- `operator+` has the value whose raw value is the sum, if there is one. -/
lemma add_eq_ok_iff {a b s : FixedPoint p} :
    add a b = .ok s ↔ s.raw.val = a.raw.val + b.raw.val :=
  return_checked64_eq_ok_iff

/-- `operator-` has the value whose raw value is the difference, if there is one. -/
lemma sub_eq_ok_iff {a b s : FixedPoint p} :
    sub a b = .ok s ↔ s.raw.val = a.raw.val - b.raw.val :=
  return_checked64_eq_ok_iff

/-! ## Monotonicity -/

/-- Multiplication by a common factor keeps or reverses the order, by the factor's side. -/
lemma mul_le_mul_of_side {a b c : FixedPoint p} (hab : a ≤ b) (hac : ProductFits a c)
    (hbc : ProductFits b c) :
    ∃ x y, mul .gnuOrClang a c = .ok x ∧ mul .gnuOrClang b c = .ok y ∧
      (0 ≤ c.raw.val → x ≤ y) ∧ (c.raw.val ≤ 0 → y ≤ x) := by
  have hle : a.raw.val ≤ b.raw.val := hab
  refine ⟨_, _, mul_of_fits hac, mul_of_fits hbc, ?_, ?_⟩
  · intro hc
    exact Int.tdiv_le_tdiv (scale_pos p) (mul_le_mul_of_nonneg_right hle hc)
  · intro hc
    exact Int.tdiv_le_tdiv (scale_pos p) (mul_le_mul_of_nonpos_right hle hc)

/-- Division by a common positive divisor keeps the order. -/
lemma div_le_div_of_dividend_le {a b c : FixedPoint p} (hab : a ≤ b) (hc : 0 < c.raw.val)
    (hac : QuotientFits a c) (hbc : QuotientFits b c) :
    ∃ x y, div .gnuOrClang a c = .ok x ∧ div .gnuOrClang b c = .ok y ∧ x ≤ y := by
  have hle : a.raw.val ≤ b.raw.val := hab
  refine ⟨_, _, div_of_fits hc.ne' hac, div_of_fits hc.ne' hbc, ?_⟩
  exact Int.tdiv_le_tdiv hc (mul_le_mul_of_nonneg_right hle (scale_pos p).le)

/-- A larger positive divisor of a nonnegative dividend gives a smaller quotient. -/
lemma div_le_div_of_divisor_le {a b c : FixedPoint p} (ha : 0 ≤ a.raw.val)
    (hb : 0 < b.raw.val) (hbc : b ≤ c) (hac : QuotientFits a c) (hab : QuotientFits a b) :
    ∃ x y, div .gnuOrClang a c = .ok x ∧ div .gnuOrClang a b = .ok y ∧ x ≤ y := by
  have hle : b.raw.val ≤ c.raw.val := hbc
  have hc : 0 < c.raw.val := hb.trans_le hle
  refine ⟨_, _, div_of_fits hc.ne' hac, div_of_fits hb.ne' hab, ?_⟩
  exact tdiv_le_tdiv_of_divisor_le (mul_nonneg ha (scale_pos p).le) hb hle

/-! ## Distributivity -/

/-- The product of a sum against the sum of the products, in raw units. -/
lemma mul_add_near {a b c s : FixedPoint p} (hs : add a b = .ok s) (hsc : ProductFits s c)
    (hac : ProductFits a c) (hbc : ProductFits b c) :
    ∃ x y z, mul .gnuOrClang s c = .ok x ∧ mul .gnuOrClang a c = .ok y ∧
      mul .gnuOrClang b c = .ok z ∧ |x.raw.val - (y.raw.val + z.raw.val)| ≤ 1 := by
  refine ⟨_, _, _, mul_of_fits hsc, mul_of_fits hac, mul_of_fits hbc, ?_⟩
  have h := abs_tdiv_add_sub_le_one (a.raw.val * c.raw.val) (b.raw.val * c.raw.val) (scale_pos p)
  rwa [← add_mul, ← add_eq_ok_iff.mp hs] at h

/-- The product of a difference against the difference of the products, in raw units. -/
lemma mul_sub_near {a b c s : FixedPoint p} (hs : sub a b = .ok s) (hsc : ProductFits s c)
    (hac : ProductFits a c) (hbc : ProductFits b c) :
    ∃ x y z, mul .gnuOrClang s c = .ok x ∧ mul .gnuOrClang a c = .ok y ∧
      mul .gnuOrClang b c = .ok z ∧ |x.raw.val - (y.raw.val - z.raw.val)| ≤ 1 := by
  refine ⟨_, _, _, mul_of_fits hsc, mul_of_fits hac, mul_of_fits hbc, ?_⟩
  have h := abs_tdiv_add_sub_le_one (a.raw.val * c.raw.val) (-(b.raw.val * c.raw.val))
    (scale_pos p)
  rw [Int.neg_tdiv, ← sub_eq_add_neg, ← sub_eq_add_neg, ← sub_mul] at h
  rwa [← sub_eq_ok_iff.mp hs] at h

/-- **The operators respect order and distribute up to one unit**, wherever their results are
representable: multiplication by `c` is monotone for `c ≥ 0` and antitone for `c ≤ 0`; division
by `c > 0` is monotone; dividing a nonnegative number by a larger positive one gives less; and
`(a ± b) * c` differs from `a * c ± b * c` by at most one raw unit, whether the latter is formed
exactly or by the operator.

**Proof sketch.** Representable results are exact truncated quotients. Truncation is monotone
and antitone in a positive divisor; a sum of truncated quotients is the truncated quotient of
the sum up to one (`abs_tdiv_add_sub_le_one`), since the three remainders involved do not add
up to two divisors. -/
theorem operators_respect_order (a b c : FixedPoint p) :
    (a ≤ b → ProductFits a c → ProductFits b c →
      ∃ x y, mul .gnuOrClang a c = .ok x ∧ mul .gnuOrClang b c = .ok y ∧
        (0 ≤ c.raw.val → x ≤ y) ∧ (c.raw.val ≤ 0 → y ≤ x)) ∧
    (a ≤ b → 0 < c.raw.val → QuotientFits a c → QuotientFits b c →
      ∃ x y, div .gnuOrClang a c = .ok x ∧ div .gnuOrClang b c = .ok y ∧ x ≤ y) ∧
    (0 ≤ a.raw.val → 0 < b.raw.val → b ≤ c → QuotientFits a c → QuotientFits a b →
      ∃ x y, div .gnuOrClang a c = .ok x ∧ div .gnuOrClang a b = .ok y ∧ x ≤ y) ∧
    (∀ s, add a b = .ok s → ProductFits s c → ProductFits a c → ProductFits b c →
      ∃ x y z, mul .gnuOrClang s c = .ok x ∧ mul .gnuOrClang a c = .ok y ∧
        mul .gnuOrClang b c = .ok z ∧ |x.raw.val - (y.raw.val + z.raw.val)| ≤ 1 ∧
        ∀ w, add y z = .ok w → |x.raw.val - w.raw.val| ≤ 1) ∧
    (∀ s, sub a b = .ok s → ProductFits s c → ProductFits a c → ProductFits b c →
      ∃ x y z, mul .gnuOrClang s c = .ok x ∧ mul .gnuOrClang a c = .ok y ∧
        mul .gnuOrClang b c = .ok z ∧ |x.raw.val - (y.raw.val - z.raw.val)| ≤ 1 ∧
        ∀ w, sub y z = .ok w → |x.raw.val - w.raw.val| ≤ 1) := by
  refine ⟨mul_le_mul_of_side, div_le_div_of_dividend_le, div_le_div_of_divisor_le, ?_, ?_⟩
  · intro s hs hsc hac hbc
    obtain ⟨x, y, z, hx, hy, hz, hnear⟩ := mul_add_near hs hsc hac hbc
    refine ⟨x, y, z, hx, hy, hz, hnear, ?_⟩
    intro w hw
    rwa [add_eq_ok_iff.mp hw]
  · intro s hs hsc hac hbc
    obtain ⟨x, y, z, hx, hy, hz, hnear⟩ := mul_sub_near hs hsc hac hbc
    refine ⟨x, y, z, hx, hy, hz, hnear, ?_⟩
    intro w hw
    rwa [sub_eq_ok_iff.mp hw]

/-- `-1.5 ≤ 2.5` against the factor `-0.33333333` and the divisor `0.33333333`: all the results
are representable. -/
theorem operators_respect_order_example :
    let a := ofRaw eightDigits (-150000000) (by decide)
    let b := ofRaw eightDigits 250000000 (by decide)
    let c := ofRaw eightDigits (-33333333) (by decide)
    let d := ofRaw eightDigits 33333333 (by decide)
    (∃ x y, mul .gnuOrClang a c = .ok x ∧ mul .gnuOrClang b c = .ok y ∧ y ≤ x) ∧
    (∃ x y, div .gnuOrClang a d = .ok x ∧ div .gnuOrClang b d = .ok y ∧ x ≤ y) ∧
    (∃ x y, div .gnuOrClang b b = .ok x ∧ div .gnuOrClang b d = .ok y ∧ x ≤ y) ∧
    ∃ s x y z, add a b = .ok s ∧ mul .gnuOrClang s c = .ok x ∧ mul .gnuOrClang a c = .ok y ∧
      mul .gnuOrClang b c = .ok z ∧ |x.raw.val - (y.raw.val + z.raw.val)| ≤ 1 := by
  intro a b c d
  have hsum : add a b = .ok (ofRaw eightDigits 100000000 (by decide)) :=
    add_eq_ok_iff.mpr (by decide)
  obtain ⟨hmul, -, -, hadd, -⟩ := operators_respect_order a b c
  obtain ⟨-, hdiv, -, -, -⟩ := operators_respect_order a b d
  obtain ⟨-, -, hdivisor, -, -⟩ := operators_respect_order b d b
  obtain ⟨x, y, hx, hy, -, hle⟩ := hmul (by decide) (by decide) (by decide)
  obtain ⟨x', y', z', hx', hy', hz', hnear, -⟩ :=
    hadd _ hsum (by decide) (by decide) (by decide)
  exact ⟨⟨x, y, hx, hy, hle (by decide)⟩,
    hdiv (by decide) (by decide) (by decide) (by decide),
    hdivisor (by decide) (by decide) (by decide) (by decide) (by decide),
    _, x', y', z', hsum, hx', hy', hz', hnear⟩

end NullRing.FixedPoint
