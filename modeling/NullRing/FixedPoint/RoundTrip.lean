import NullRing.FixedPoint.Order

set_option relaxedAutoImplicit false
set_option autoImplicit false

/-!
# Multiplication and division undo each other

On the 128-bit branch, `(a * b) / b` and `(a / b) * b` are the two ways round of one rescaling:
by `b / scale` and back, and by `scale / b` and back. Each loses at most the ratio of the two,
rounded up, and only toward zero. For a divisor of at least one this is one raw unit in the
first case.

## Main results

* `FixedPoint.wide_intermediates_fit` — no 128-bit intermediate overflows, for any operands.
* `FixedPoint.operators_undo_each_other` — the two error bounds.
-/

namespace NullRing.FixedPoint

open Signed Truncation

variable {p : Precision}

/-- No 128-bit intermediate of `operator*` or `operator/` overflows. -/
lemma wide_intermediates_fit (a b : FixedPoint p) :
    (Fits 128 (a.raw.val * b.raw.val) ∧
      Fits 128 ((a.raw.val * b.raw.val).tdiv (scale p))) ∧
    (Fits 128 (a.raw.val * scale p) ∧
      Fits 128 ((a.raw.val * scale p).tdiv b.raw.val)) :=
  ⟨fits_128_tdiv a.raw.2.abs_le_pow b.raw.2.abs_le_pow (scale p),
    fits_128_tdiv a.raw.2.abs_le_pow (abs_scale_le p) b.raw.val⟩

/-- A word moved toward zero is a word. -/
lemma fits_of_shrinksBy {n : ℕ} {a r : ℤ} (h : ShrinksBy n a r) (ha : Fits 64 a) : Fits 64 r :=
  ha.of_between h.between

/-- Division after multiplication by the same number. -/
lemma div_mul_shrinksBy {a b : FixedPoint p} (hb : b.raw.val ≠ 0) (h : ProductFits a b) :
    ∃ m r, mul .gnuOrClang a b = .ok m ∧ div .gnuOrClang m b = .ok r ∧
      ShrinksBy ((scale p).natAbs ⌈/⌉ b.raw.val.natAbs) a.raw.val r.raw.val := by
  have hshrink := rescale_shrinksBy a.raw.val hb (scale_ne_zero p)
  have hfits : QuotientFits (fromRaw ⟨_, h⟩) b := fits_of_shrinksBy hshrink a.raw.2
  exact ⟨_, _, mul_of_fits h, div_of_fits hb hfits, hshrink⟩

/-- Multiplication after division by the same number. -/
lemma mul_div_shrinksBy {a b : FixedPoint p} (hb : b.raw.val ≠ 0) (h : QuotientFits a b) :
    ∃ q r, div .gnuOrClang a b = .ok q ∧ mul .gnuOrClang q b = .ok r ∧
      ShrinksBy (b.raw.val.natAbs ⌈/⌉ (scale p).natAbs) a.raw.val r.raw.val := by
  have hshrink := rescale_shrinksBy a.raw.val (scale_ne_zero p) hb
  have hfits : ProductFits (fromRaw ⟨_, h⟩) b := fits_of_shrinksBy hshrink a.raw.2
  exact ⟨_, _, div_of_fits hb h, mul_of_fits hfits, hshrink⟩

/-- The ratio of the scaling factor and a number of at least one rounds up to one. -/
lemma ceilDiv_scale_le_one {b : FixedPoint p} (h : scale p ≤ |b.raw.val|) :
    (scale p).natAbs ⌈/⌉ b.raw.val.natAbs ≤ 1 := by
  have hpos := scale_pos p
  rw [Int.abs_eq_natAbs] at h
  rw [ceilDiv_le_iff_le_mul (by omega), mul_one]
  omega

/-- **Multiplication and division undo each other up to a one-sided error.** For `b ≠ 0` and
any operands no 128-bit intermediate overflows. If `a * b` is representable, `(a * b) / b` has a
value, which is `a` moved toward zero by at most `⌈scale / |b|⌉` raw units, hence by at most one
if `|b|` is at least one. If `a / b` is representable, `(a / b) * b` has a value, which is `a`
moved toward zero by at most `⌈|b| / scale⌉` raw units.

**Proof sketch.** Both are instances of `rescale_shrinksBy`. What lies between zero and the raw
value of `a` is a word, so the second operator has the exact truncated result as well. -/
theorem operators_undo_each_other (a b : FixedPoint p) (hb : b.raw.val ≠ 0) :
    (∀ x : FixedPoint p, (Fits 128 (x.raw.val * b.raw.val) ∧
        Fits 128 ((x.raw.val * b.raw.val).tdiv (scale p))) ∧
      (Fits 128 (x.raw.val * scale p) ∧
        Fits 128 ((x.raw.val * scale p).tdiv b.raw.val))) ∧
    (ProductFits a b →
      ∃ m r, mul .gnuOrClang a b = .ok m ∧ div .gnuOrClang m b = .ok r ∧
        ShrinksBy ((scale p).natAbs ⌈/⌉ b.raw.val.natAbs) a.raw.val r.raw.val ∧
        (scale p ≤ |b.raw.val| → ShrinksBy 1 a.raw.val r.raw.val)) ∧
    (QuotientFits a b →
      ∃ q r, div .gnuOrClang a b = .ok q ∧ mul .gnuOrClang q b = .ok r ∧
        ShrinksBy (b.raw.val.natAbs ⌈/⌉ (scale p).natAbs) a.raw.val r.raw.val) := by
  refine ⟨fun x => wide_intermediates_fit x b, ?_, mul_div_shrinksBy hb⟩
  intro h
  obtain ⟨m, r, hm, hr, hshrink⟩ := div_mul_shrinksBy hb h
  refine ⟨m, r, hm, hr, hshrink, ?_⟩
  intro hone
  exact hshrink.mono (ceilDiv_scale_le_one hone)

/-- `-1.00000001` with `3.0`: two units are lost by dividing first, none by multiplying
first. -/
theorem operators_undo_each_other_example :
    let a := ofRaw eightDigits (-100000001) (by decide)
    let b := ofRaw eightDigits 300000000 (by decide)
    (∃ m r, mul .gnuOrClang a b = .ok m ∧ div .gnuOrClang m b = .ok r ∧
      ShrinksBy 1 a.raw.val r.raw.val) ∧
    ∃ q r, div .gnuOrClang a b = .ok q ∧ mul .gnuOrClang q b = .ok r ∧
      ShrinksBy 3 a.raw.val r.raw.val := by
  intro a b
  obtain ⟨-, hmul, hdiv⟩ := operators_undo_each_other a b (by decide)
  obtain ⟨m, r, hm, hr, -, hone⟩ := hmul (by decide)
  obtain ⟨q, r', hq, hr', hshrink⟩ := hdiv (by decide)
  exact ⟨⟨m, r, hm, hr, hone (by decide)⟩, q, r', hq, hr', hshrink.mono (by decide)⟩

end NullRing.FixedPoint
