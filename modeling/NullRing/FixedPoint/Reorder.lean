import NullRing.Arithmetic.TwoStep
import NullRing.FixedPoint.Order

set_option relaxedAutoImplicit false
set_option autoImplicit false

/-!
# Reordering multiplications and divisions

Two operators in a row truncate twice, and where the first truncation stands depends on the order
in which the operands are taken. The results of two orders differ by at most the ratio by which the
second operator rescales what the first one lost, rounded up: by one unit when the operands that
are taken second are at most one in a product, or at least one in a quotient.

## Main results

* `FixedPoint.operators_reorder` — products of three numbers, quotients of products, and quotients
  of quotients.
-/

namespace NullRing.FixedPoint

open Signed Truncation

variable {p : Precision}

/-- What the second of two operators makes of what the first one lost, at most: the ratio of a
factor or the scale to a divisor or the scale, rounded up. -/
def carried (factor divisor : ℤ) : ℕ := factor.natAbs ⌈/⌉ divisor.natAbs

/-- **Operators can be taken in another order** up to what the second one makes of the units that
the first one lost: a product of three numbers, from the left or from the right; a product divided,
or multiplied by a quotient; and a number divided by two others, in either order.

**Proof sketch.** Both orders multiply and divide by the same numbers, with a truncation after each
of two steps, so `abs_twoStep_sub_le` applies. -/
theorem operators_reorder (a b c : FixedPoint p) :
    (∀ x y, ProductFits a b → mul .gnuOrClang a b = .ok x →
      ProductFits b c → mul .gnuOrClang b c = .ok y → ProductFits x c → ProductFits a y →
      ∃ r r', mul .gnuOrClang x c = .ok r ∧ mul .gnuOrClang a y = .ok r' ∧
        |r.raw.val - r'.raw.val| ≤
          max (carried c.raw.val (scale p)) (carried a.raw.val (scale p))) ∧
    (c.raw.val ≠ 0 → ∀ x y, ProductFits a b → mul .gnuOrClang a b = .ok x →
      QuotientFits b c → div .gnuOrClang b c = .ok y → QuotientFits x c → ProductFits a y →
      ∃ r r', div .gnuOrClang x c = .ok r ∧ mul .gnuOrClang a y = .ok r' ∧
        |r.raw.val - r'.raw.val| ≤
          max (carried (scale p) c.raw.val) (carried a.raw.val (scale p))) ∧
    (b.raw.val ≠ 0 → c.raw.val ≠ 0 → ∀ x y, QuotientFits a b → div .gnuOrClang a b = .ok x →
      QuotientFits a c → div .gnuOrClang a c = .ok y → QuotientFits x c → QuotientFits y b →
      ∃ r r', div .gnuOrClang x c = .ok r ∧ div .gnuOrClang y b = .ok r' ∧
        |r.raw.val - r'.raw.val| ≤
          max (carried (scale p) c.raw.val) (carried (scale p) b.raw.val)) := by
  have hscale := scale_ne_zero p
  refine ⟨fun x y hab hx hbc hy hxc hay => ?_, fun hc x y hab hx hbc hy hxc hay => ?_,
    fun hb hc x y hab hx hac hy hxc hyb => ?_⟩
  · rw [mul_of_fits hab] at hx
    rw [mul_of_fits hbc] at hy
    obtain rfl := Except.ok.inj hx
    obtain rfl := Except.ok.inj hy
    refine ⟨_, _, mul_of_fits hxc, mul_of_fits hay, ?_⟩
    have hnear := abs_twoStep_sub_le hscale hscale hscale hscale
      (show b.raw.val * c.raw.val * a.raw.val = a.raw.val * b.raw.val * c.raw.val by ring) rfl
    rw [twoStep, twoStep, mul_comm _ a.raw.val] at hnear
    exact hnear
  · rw [mul_of_fits hab] at hx
    rw [div_of_fits hc hbc] at hy
    obtain rfl := Except.ok.inj hx
    obtain rfl := Except.ok.inj hy
    refine ⟨_, _, div_of_fits hc hxc, mul_of_fits hay, ?_⟩
    have hnear := abs_twoStep_sub_le hscale hc hc hscale
      (show b.raw.val * scale p * a.raw.val = a.raw.val * b.raw.val * scale p by ring)
      (mul_comm c.raw.val (scale p))
    rw [twoStep, twoStep, mul_comm _ a.raw.val] at hnear
    exact hnear
  · rw [div_of_fits hb hab] at hx
    rw [div_of_fits hc hac] at hy
    obtain rfl := Except.ok.inj hx
    obtain rfl := Except.ok.inj hy
    refine ⟨_, _, div_of_fits hc hxc, div_of_fits hb hyb, ?_⟩
    exact abs_twoStep_sub_le hb hc hc hb
      (show a.raw.val * scale p * scale p = a.raw.val * scale p * scale p from rfl)
      (mul_comm c.raw.val b.raw.val)

/-- The bound is attained: `1.980918` times `8.9089072` times `0.37436164`, two units apart. -/
example :
    let a := ofRaw eightDigits 198091800 (by decide)
    let b := ofRaw eightDigits 890890720 (by decide)
    let c := ofRaw eightDigits 37436164 (by decide)
    (mul .gnuOrClang a b).bind (mul .gnuOrClang · c) =
        .ok (ofRaw eightDigits 660666482 (by decide)) ∧
      (mul .gnuOrClang b c).bind (mul .gnuOrClang a ·) =
        .ok (ofRaw eightDigits 660666480 (by decide)) ∧
      max (carried c.raw.val (scale eightDigits)) (carried a.raw.val (scale eightDigits)) = 2 := by
  refine ⟨rfl, rfl, rfl⟩

/-- The first bound of `operators_reorder` at three numbers of eight digits, whose products in the
two orders are two units apart. -/
theorem operators_reorder_example :
    let a := ofRaw eightDigits 198091800 (by decide)
    let b := ofRaw eightDigits 890890720 (by decide)
    let c := ofRaw eightDigits 37436164 (by decide)
    let ab := ofRaw eightDigits 1764781463 (by decide)
    let bc := ofRaw eightDigits 333515310 (by decide)
    mul .gnuOrClang a b = .ok ab ∧ mul .gnuOrClang b c = .ok bc ∧
      ∃ r r', mul .gnuOrClang ab c = .ok r ∧ mul .gnuOrClang a bc = .ok r' ∧
        |r.raw.val - r'.raw.val| ≤ 2 := by
  intro a b c ab bc
  have hab : mul .gnuOrClang a b = .ok ab := by rfl
  have hbc : mul .gnuOrClang b c = .ok bc := by rfl
  obtain ⟨r, r', hr, hr', hnear⟩ := (operators_reorder a b c).1 ab bc (by decide) hab (by decide)
    hbc (by decide) (by decide)
  exact ⟨hab, hbc, r, r', hr, hr', hnear.trans (by decide)⟩

end NullRing.FixedPoint
