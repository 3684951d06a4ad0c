import NullRing.FixedPoint.Decimal
import NullRing.FixedPoint.Order

set_option relaxedAutoImplicit false
set_option autoImplicit false

/-!
# Numbers made of two parts

The constructor `FixedPoint(integer, frac)` adds the fraction to the scaled integer, whatever its
sign and size; `integer_part` and `fractional_part` take a number apart by truncated division, so
that both parts are on the side of the number. The constructor therefore undoes the accessors, and
the accessors undo the constructor for parts that are on one side and a fraction below the scaling
factor, and for no others: `FixedPoint(-1, 50000000)` is `-0.5`.

Truncation also makes negation an exact symmetry: it commutes with the arithmetic operators,
reverses the order, and only writes a sign.

## Main definitions

* `FixedPoint.ProperParts` — parts that the accessors give back.

## Main results

* `FixedPoint.parts_round_trip` — the constructor and the accessors.
* `FixedPoint.integers_exact` — numbers constructed from integers.
* `FixedPoint.neg_mirrors` — negation and the operators.
-/

namespace NullRing.FixedPoint

open Signed Truncation

variable {p : Precision} {a b x : FixedPoint p} {i f : Word 64}

/-! ## The constructor and the accessors -/

/-- `integer_part` is the truncated quotient. -/
lemma integerPart_eq_ok_iff : integerPart x = .ok i ↔ x.raw.val.tdiv (scale p) = i.val := by
  rw [integerPart_eq]
  exact ⟨fun h => congrArg Subtype.val (Except.ok.inj h), fun h => congrArg _ (Subtype.ext h)⟩

/-- `fractional_part` is the remainder. -/
lemma fractionalPart_eq_ok_iff : fractionalPart x = .ok f ↔ x.raw.val.tmod (scale p) = f.val := by
  rw [fractionalPart_eq]
  exact ⟨fun h => congrArg Subtype.val (Except.ok.inj h), fun h => congrArg _ (Subtype.ext h)⟩

/-- The constructor from two parts has the value whose raw value is their sum, if the scaled
integer is a word. -/
lemma ofParts_eq_ok_iff :
    ofParts i f = .ok x ↔ Fits 64 (i.val * scale p) ∧ x.raw.val = i.val * scale p + f.val := by
  unfold ofParts
  by_cases hfit : Fits 64 (i.val * scale p)
  · rw [checked64, checked_bind_of_fits _ hfit]
    exact return_checked64_eq_ok_iff.trans (by simp [hfit])
  · rw [checked64, checked_bind_of_not_fits _ hfit]
    constructor
    · intro h
      cases h
    · exact fun h => absurd h.1 hfit

/-- The parts are on one side of zero, and the fraction is less than a unit. -/
def ProperParts (p : Precision) (i f : ℤ) : Prop := |f| < scale p ∧ 0 ≤ i * f

/-- The quotient and the remainder of a number are proper parts. -/
lemma properParts_tdiv_tmod (p : Precision) (r : ℤ) :
    ProperParts p (r.tdiv (scale p)) (r.tmod (scale p)) := by
  have hpos := scale_pos p
  refine ⟨?_, ?_⟩
  · have hlt := natAbs_tmod_lt r hpos.ne'
    rw [abs_lt]
    omega
  · rcases le_total 0 r with hr | hr
    · exact mul_nonneg (Int.tdiv_nonneg hr hpos.le) (Int.tmod_nonneg _ hr)
    · exact mul_nonneg_of_nonpos_of_nonpos
        (tdiv_nonpos_of_mul_nonpos (mul_nonpos_of_nonpos_of_nonneg hr hpos.le)) (tmod_nonpos _ hr)

/-- Proper parts are the quotient and the remainder of what they add up to.

**Proof sketch.** The sum is on the side of the parts, so the fraction is a remainder of it. -/
lemma ProperParts.tdiv_tmod {i f : ℤ} (h : ProperParts p i f) :
    (i * scale p + f).tdiv (scale p) = i ∧ (i * scale p + f).tmod (scale p) = f := by
  have hpos := scale_pos p
  obtain ⟨hlt, hside⟩ := h
  obtain ⟨hlow, hhigh⟩ := abs_lt.mp hlt
  have hquot : (i * scale p + f).tdiv (scale p) = i := by
    rcases lt_trichotomy f 0 with hf | hf | hf
    · have hi : i ≤ 0 := nonpos_of_mul_nonneg_left hside hf
      have hscaled := mul_nonpos_of_nonpos_of_nonneg hi hpos.le
      exact tdiv_eq_of_nonpos (r := f) (by omega) hpos.ne' hf.le (by omega) (by ring)
    · rw [hf, add_zero]
      exact Int.mul_tdiv_cancel i hpos.ne'
    · have hi : 0 ≤ i := nonneg_of_mul_nonneg_left hside hf
      have hscaled := mul_nonneg hi hpos.le
      exact tdiv_eq_of_nonneg (r := f) (by omega) hpos.ne' hf.le (by omega) (by ring)
  refine ⟨hquot, ?_⟩
  have hsum := Int.tmod_add_mul_tdiv (i * scale p + f) (scale p)
  rw [hquot, mul_comm (scale p) i] at hsum
  omega

/-- The scaled quotient of a number lies between zero and the number.

**Proof sketch.** The number is the scaled quotient and a remainder of the same sign. -/
lemma fits_tdiv_mul (r : Word 64) (p : Precision) : Fits 64 (r.val.tdiv (scale p) * scale p) := by
  have hsum := Int.tmod_add_mul_tdiv r.val (scale p)
  rw [mul_comm] at hsum
  refine r.2.of_between ?_
  rcases le_total 0 r.val with hr | hr
  · have hmod := Int.tmod_nonneg (scale p) hr
    have hquot := mul_nonneg (Int.tdiv_nonneg hr (scale_pos p).le) (scale_pos p).le
    exact Or.inl ⟨hquot, by omega⟩
  · have hmod := tmod_nonpos (scale p) hr
    have hquot : r.val.tdiv (scale p) * scale p ≤ 0 := mul_nonpos_of_nonpos_of_nonneg
      (tdiv_nonpos_of_mul_nonpos (mul_nonpos_of_nonpos_of_nonneg hr (scale_pos p).le))
      (scale_pos p).le
    exact Or.inr ⟨by omega, hquot⟩

/-- A number made of proper parts has these parts. -/
lemma parts_of_proper (hx : ofParts i f = .ok x) (h : ProperParts p i.val f.val) :
    x.raw.val.tdiv (scale p) = i.val ∧ x.raw.val.tmod (scale p) = f.val := by
  obtain ⟨-, hraw⟩ := ofParts_eq_ok_iff.mp hx
  rw [hraw]
  exact h.tdiv_tmod

/-- What `to_string` writes of a number made of proper parts. -/
lemma toString_of_proper (hx : ofParts i f = .ok x) (h : ProperParts p i.val f.val) :
    toString x = .ok ((if f.val < 0 ∧ i.val = 0 then "-" else "") ++ i.val.repr ++ "." ++
      padZeros p.val (f.val.natAbs : ℤ).repr) := by
  obtain ⟨hquot, hrem⟩ := parts_of_proper hx h
  obtain ⟨-, hraw⟩ := ofParts_eq_ok_iff.mp hx
  have hsign : (x.raw.val < 0 ∧ i.val = 0) ↔ (f.val < 0 ∧ i.val = 0) := by
    refine and_congr_left fun hzero => ?_
    rw [hraw, hzero, zero_mul, zero_add]
  rw [toString_eq, hquot, hrem, if_congr hsign rfl rfl]

/-- **Parts and numbers.** Every number has parts, and the constructor gives the number back from
them: no intermediate overflows. Conversely, a number constructed from two parts has these parts if
and only if they are on one side of zero and the fraction is less than a unit; and then `to_string`
writes the integer as it is, the point and the digits of the fraction, with a sign of its own
exactly when only the fraction is negative.

**Proof sketch.** `ProperParts.tdiv_tmod`: a fraction on the side of the number, less than a unit,
is the remainder of the number. -/
theorem parts_round_trip (x : FixedPoint p) :
    (∃ i f, integerPart x = .ok i ∧ fractionalPart x = .ok f ∧ ofParts i f = .ok x) ∧
    ∀ i f : Word 64, ofParts i f = .ok x →
      ((integerPart x = .ok i ∧ fractionalPart x = .ok f) ↔
        |f.val| < scale p ∧ 0 ≤ i.val * f.val) ∧
      (|f.val| < scale p → 0 ≤ i.val * f.val →
        toString x = .ok ((if f.val < 0 ∧ i.val = 0 then "-" else "") ++ i.val.repr ++ "." ++
          padZeros p.val (f.val.natAbs : ℤ).repr)) := by
  refine ⟨⟨_, _, integerPart_eq x, fractionalPart_eq x, ?_⟩, fun i f hx => ⟨⟨?_, ?_⟩, ?_⟩⟩
  · refine ofParts_eq_ok_iff.mpr ⟨fits_tdiv_mul x.raw p, ?_⟩
    have hsum := Int.tmod_add_mul_tdiv x.raw.val (scale p)
    linarith
  · rintro ⟨hi, hf⟩
    have hproper := properParts_tdiv_tmod p x.raw.val
    rw [integerPart_eq_ok_iff.mp hi, fractionalPart_eq_ok_iff.mp hf] at hproper
    exact hproper
  · intro hproper
    obtain ⟨hquot, hrem⟩ := parts_of_proper hx hproper
    exact ⟨integerPart_eq_ok_iff.mpr hquot, fractionalPart_eq_ok_iff.mpr hrem⟩
  · exact fun hlt hside => toString_of_proper hx ⟨hlt, hside⟩

/-- `-1.5` from its parts; and half a unit below zero, whose sign only the fraction has. -/
theorem parts_round_trip_example :
    let x := ofRaw eightDigits (-150000000) (by decide)
    let y := ofRaw eightDigits (-50000000) (by decide)
    integerPart x = .ok ⟨-1, by decide⟩ ∧ toString y = .ok "-0.50000000" := by
  intro x y
  have hx : ofParts ⟨-1, by decide⟩ ⟨-50000000, by decide⟩ = .ok x :=
    ofParts_eq_ok_iff.mpr ⟨by decide, by decide⟩
  have hy : ofParts ⟨0, by decide⟩ ⟨-50000000, by decide⟩ = .ok y :=
    ofParts_eq_ok_iff.mpr ⟨by decide, by decide⟩
  exact ⟨(((parts_round_trip x).2 _ _ hx).1.mpr ⟨by decide, by decide⟩).1,
    (((parts_round_trip y).2 _ _ hy).2 (by decide) (by decide)).trans (by decide +kernel)⟩

/-! ## Integers -/

/-- The constructor from an integer has the value whose raw value is the scaled integer, if there
is one. -/
lemma ofInteger_eq_ok_iff : ofInteger i = .ok x ↔ x.raw.val = i.val * scale p :=
  return_checked64_eq_ok_iff

/-- An integer is made of itself and no fraction. -/
lemma parts_of_integer (hx : ofInteger i = .ok x) :
    x.raw.val.tdiv (scale p) = i.val ∧ x.raw.val.tmod (scale p) = 0 := by
  have hproper : ProperParts p i.val 0 := ⟨by rw [abs_zero]; exact scale_pos p, by simp⟩
  rw [ofInteger_eq_ok_iff.mp hx, ← add_zero (i.val * scale p)]
  exact hproper.tdiv_tmod

/-- Multiplication by an integer is exact, and division undoes it.

**Proof sketch.** The raw value of the integer is a multiple of the scale, so the division by the
scale in the product leaves no remainder, and neither does the division of the product by that
multiple. -/
lemma mul_integer_exact (hx : ofInteger i = .ok x) (hfit : Fits 64 (a.raw.val * i.val)) :
    ∃ r, mul .gnuOrClang a x = .ok r ∧ r.raw.val = a.raw.val * i.val ∧
      (i.val ≠ 0 → div .gnuOrClang r x = .ok a) := by
  have hraw := ofInteger_eq_ok_iff.mp hx
  have hne := scale_ne_zero p
  have hproduct : (a.raw.val * x.raw.val).tdiv (scale p) = a.raw.val * i.val := by
    rw [hraw, ← mul_assoc, Int.mul_tdiv_cancel _ hne]
  have hfits : ProductFits a x := by
    rw [ProductFits, hproduct]
    exact hfit
  refine ⟨_, mul_of_fits hfits, hproduct, fun hi => ?_⟩
  have hquot : ((a.raw.val * x.raw.val).tdiv (scale p) * scale p).tdiv x.raw.val = a.raw.val := by
    rw [hproduct, hraw, mul_assoc, Int.mul_tdiv_cancel _ (mul_ne_zero hi hne)]
  have hback : QuotientFits (fromRaw ⟨_, hfits⟩ : FixedPoint p) x := by
    show Fits 64 (((a.raw.val * x.raw.val).tdiv (scale p) * scale p).tdiv x.raw.val)
    rw [hquot]
    exact a.raw.2
  rw [div_of_fits (by rw [hraw]; exact mul_ne_zero hi hne) hback]
  exact congrArg (fun r => Except.ok (mk r)) (Subtype.ext hquot)

/-- **Integers are exact.** A number constructed from an integer has that integer part and no
fraction; multiplying by it multiplies the raw value by the integer, without rounding, and dividing
by it undoes that; and sums, products and the order of such numbers are those of the integers.

**Proof sketch.** The raw value of an integer is the integer times the scale. The parts are quotient
and remainder by the scale, products and quotients are `mul_integer_exact`, and sums and the order
are those of the multiples. -/
theorem integers_exact (hx : ofInteger i = .ok x) :
    (integerPart x = .ok i ∧ ∃ zero, fractionalPart x = .ok zero ∧ zero.val = 0) ∧
    (∀ a : FixedPoint p, Fits 64 (a.raw.val * i.val) →
      ∃ r, mul .gnuOrClang a x = .ok r ∧ r.raw.val = a.raw.val * i.val ∧
        (i.val ≠ 0 → div .gnuOrClang r x = .ok a)) ∧
    ∀ (j k : Word 64) (y z : FixedPoint p), ofInteger j = .ok y → ofInteger k = .ok z →
      (k.val = i.val * j.val → mul .gnuOrClang x y = .ok z) ∧
      (k.val = i.val + j.val → add x y = .ok z) ∧ (x ≤ y ↔ i.val ≤ j.val) := by
  have hraw := ofInteger_eq_ok_iff.mp hx
  obtain ⟨hquot, hrem⟩ := parts_of_integer hx
  refine ⟨⟨integerPart_eq_ok_iff.mpr hquot, _, fractionalPart_eq x, hrem⟩,
    fun a hfit => mul_integer_exact hx hfit, fun j k y z hy hz => ⟨fun hk => ?_, fun hk => ?_, ?_⟩⟩
  · have hrawz := ofInteger_eq_ok_iff.mp hz
    have hvalue : x.raw.val * j.val = z.raw.val := by rw [hraw, hrawz, hk]; ring
    obtain ⟨r, hr, hval, -⟩ := mul_integer_exact (a := x) hy (hvalue ▸ z.raw.2)
    rw [hr]
    exact congrArg Except.ok (congrArg mk (Subtype.ext (hval.trans hvalue)))
  · have hrawy := ofInteger_eq_ok_iff.mp hy
    have hrawz := ofInteger_eq_ok_iff.mp hz
    refine add_eq_ok_iff.mpr ?_
    rw [hraw, hrawy, hrawz, hk]
    ring
  · show x.raw.val ≤ y.raw.val ↔ i.val ≤ j.val
    rw [hraw, ofInteger_eq_ok_iff.mp hy]
    exact mul_le_mul_iff_left₀ (scale_pos p)

/-- `-1.00000001 * 3.0` is exact, and so is the quotient by `3.0`. -/
theorem integers_exact_example :
    let a := ofRaw eightDigits (-100000001) (by decide)
    let three := ofRaw eightDigits 300000000 (by decide)
    ∃ r, mul .gnuOrClang a three = .ok r ∧ r.raw.val = -300000003 ∧
      div .gnuOrClang r three = .ok a := by
  intro a three
  have hthree : ofInteger ⟨3, by decide⟩ = .ok three := ofInteger_eq_ok_iff.mpr (by decide)
  obtain ⟨r, hr, hval, hback⟩ := (integers_exact hthree).2.1 a (by decide)
  exact ⟨r, hr, hval.trans (by decide), hback (by decide)⟩

/-! ## Negation -/

/-- `operator-` of one operand has the value whose raw value is the negated one, if there is
one. -/
lemma neg_eq_ok_iff : neg a = .ok b ↔ b.raw.val = -a.raw.val := return_checked64_eq_ok_iff

/-- A negated first factor negates the product. -/
lemma mul_neg_left {a' : FixedPoint p} (ha : neg a = .ok a') (h : ProductFits a b)
    (h' : ProductFits a' b) :
    ∃ r r', mul .gnuOrClang a b = .ok r ∧ mul .gnuOrClang a' b = .ok r' ∧ neg r = .ok r' := by
  refine ⟨_, _, mul_of_fits h, mul_of_fits h', neg_eq_ok_iff.mpr ?_⟩
  show (a'.raw.val * b.raw.val).tdiv (scale p) = -(a.raw.val * b.raw.val).tdiv (scale p)
  rw [neg_eq_ok_iff.mp ha, neg_mul, Int.neg_tdiv]

/-- A negated second factor negates the product. -/
lemma mul_neg_right {b' : FixedPoint p} (hb : neg b = .ok b') (h : ProductFits a b)
    (h' : ProductFits a b') :
    ∃ r r', mul .gnuOrClang a b = .ok r ∧ mul .gnuOrClang a b' = .ok r' ∧ neg r = .ok r' := by
  refine ⟨_, _, mul_of_fits h, mul_of_fits h', neg_eq_ok_iff.mpr ?_⟩
  show (a.raw.val * b'.raw.val).tdiv (scale p) = -(a.raw.val * b.raw.val).tdiv (scale p)
  rw [neg_eq_ok_iff.mp hb, mul_neg, Int.neg_tdiv]

/-- A negated dividend negates the quotient. -/
lemma div_neg_left {a' : FixedPoint p} (ha : neg a = .ok a') (hb : b.raw.val ≠ 0)
    (h : QuotientFits a b) (h' : QuotientFits a' b) :
    ∃ r r', div .gnuOrClang a b = .ok r ∧ div .gnuOrClang a' b = .ok r' ∧ neg r = .ok r' := by
  refine ⟨_, _, div_of_fits hb h, div_of_fits hb h', neg_eq_ok_iff.mpr ?_⟩
  show (a'.raw.val * scale p).tdiv b.raw.val = -(a.raw.val * scale p).tdiv b.raw.val
  rw [neg_eq_ok_iff.mp ha, neg_mul, Int.neg_tdiv]

/-- A negated divisor negates the quotient. -/
lemma div_neg_right {b' : FixedPoint p} (hb' : neg b = .ok b') (hb : b.raw.val ≠ 0)
    (h : QuotientFits a b) (h' : QuotientFits a b') :
    ∃ r r', div .gnuOrClang a b = .ok r ∧ div .gnuOrClang a b' = .ok r' ∧ neg r = .ok r' := by
  have hraw := neg_eq_ok_iff.mp hb'
  refine ⟨_, _, div_of_fits hb h, div_of_fits (by omega) h', neg_eq_ok_iff.mpr ?_⟩
  show (a.raw.val * scale p).tdiv b'.raw.val = -(a.raw.val * scale p).tdiv b.raw.val
  rw [hraw, Int.tdiv_neg]

/-- The representation of a negated positive number has a sign more.

**Proof sketch.** Quotient and remainder of the negated value are the negated ones, and of the
remainder only the absolute value is written. If the quotient is zero the sign is written on its
own, otherwise it is part of the quotient's. -/
lemma toString_neg {a' : FixedPoint p} (ha : neg a = .ok a') (hpos : 0 < a.raw.val) :
    ∃ s, toString a = .ok s ∧ toString a' = .ok ("-" ++ s) := by
  have hraw := neg_eq_ok_iff.mp ha
  refine ⟨_, toString_eq a, ?_⟩
  have hquot : 0 ≤ a.raw.val.tdiv (scale p) := Int.tdiv_nonneg hpos.le (scale_pos p).le
  have hnone : ¬ (a.raw.val < 0 ∧ a.raw.val.tdiv (scale p) = 0) := by omega
  rw [toString_eq, hraw, Int.neg_tdiv, Int.neg_tmod, Int.natAbs_neg, if_neg hnone,
    String.empty_append]
  rcases hquot.eq_or_lt with hzero | hlt
  · -- the sign is written on its own
    rw [← hzero, if_pos ⟨by omega, neg_zero⟩, neg_zero]
    simp only [String.append_assoc]
  · have hrepr : (-a.raw.val.tdiv (scale p)).repr = "-" ++ (a.raw.val.tdiv (scale p)).repr := by
      rw [Int.repr_eq_if, if_neg (by omega), neg_neg, Int.repr_eq_if, if_pos hlt.le]
    have hnonzero : ¬ (-a.raw.val < 0 ∧ -a.raw.val.tdiv (scale p) = 0) := by omega
    rw [if_neg hnonzero, hrepr, String.empty_append]
    simp only [String.append_assoc]

/-- **Negation is an exact symmetry.** It fails for the least word only, and undoes itself; it
reverses the order; a difference taken the other way round is the negated one; a product or a
quotient with either operand negated is the negated one, whenever both are representable, since
truncation rounds towards zero; and `to_string` of a negated positive number only has a sign more.

**Proof sketch.** The truncated quotient is odd in the dividend and in the divisor, and the product
of the words is odd in each factor. -/
theorem neg_mirrors (a b : FixedPoint p) :
    (neg a = .error .overflow ↔ a.raw.val = -2 ^ 63) ∧
    (∀ a', neg a = .ok a' → neg a' = .ok a ∧
      (∀ b', neg b = .ok b' → (a ≤ b ↔ b' ≤ a')) ∧
      (ProductFits a b → ProductFits a' b →
        ∃ r r', mul .gnuOrClang a b = .ok r ∧ mul .gnuOrClang a' b = .ok r' ∧ neg r = .ok r') ∧
      (ProductFits b a → ProductFits b a' →
        ∃ r r', mul .gnuOrClang b a = .ok r ∧ mul .gnuOrClang b a' = .ok r' ∧ neg r = .ok r') ∧
      (b.raw.val ≠ 0 → QuotientFits a b → QuotientFits a' b →
        ∃ r r', div .gnuOrClang a b = .ok r ∧ div .gnuOrClang a' b = .ok r' ∧ neg r = .ok r') ∧
      (a.raw.val ≠ 0 → QuotientFits b a → QuotientFits b a' →
        ∃ r r', div .gnuOrClang b a = .ok r ∧ div .gnuOrClang b a' = .ok r' ∧ neg r = .ok r') ∧
      (0 < a.raw.val → ∃ s, toString a = .ok s ∧ toString a' = .ok ("-" ++ s))) ∧
    ∀ d d', sub a b = .ok d → neg d = .ok d' → sub b a = .ok d' := by
  refine ⟨?_, fun a' ha => ⟨?_, fun b' hb => ?_, mul_neg_left ha, mul_neg_right ha,
    div_neg_left ha, div_neg_right ha, toString_neg ha⟩, fun d d' hd hd' => ?_⟩
  · have hlow := a.raw.2
    rw [fits_64_iff] at hlow
    unfold neg
    by_cases hfit : Fits 64 (-a.raw.val)
    · rw [checked64, checked_bind_of_fits _ hfit]
      rw [fits_64_iff] at hfit
      constructor
      · intro h
        cases h
      · intro h
        omega
    · rw [checked64, checked_bind_of_not_fits _ hfit]
      rw [fits_64_iff] at hfit
      exact ⟨fun _ => by omega, fun _ => rfl⟩
  · have hraw := neg_eq_ok_iff.mp ha
    exact neg_eq_ok_iff.mpr (by omega)
  · have hraw := neg_eq_ok_iff.mp ha
    have hraw' := neg_eq_ok_iff.mp hb
    show a.raw.val ≤ b.raw.val ↔ b'.raw.val ≤ a'.raw.val
    omega
  · have hraw := sub_eq_ok_iff.mp hd
    have hraw' := neg_eq_ok_iff.mp hd'
    exact sub_eq_ok_iff.mpr (by omega)

/-- The quotients of `1.0` and of `-1.0` by `0.3`, rounded towards zero both. -/
theorem neg_mirrors_example :
    let one := ofRaw eightDigits 100000000 (by decide)
    let minusOne := ofRaw eightDigits (-100000000) (by decide)
    let third := ofRaw eightDigits 30000000 (by decide)
    ∃ r r', div .gnuOrClang one third = .ok r ∧ div .gnuOrClang minusOne third = .ok r' ∧
      neg r = .ok r' := by
  intro one minusOne third
  have hneg : neg one = .ok minusOne := neg_eq_ok_iff.mpr (by decide)
  exact ((neg_mirrors one third).2.1 minusOne hneg).2.2.2.2.1 (by decide) (by decide) (by decide)

end NullRing.FixedPoint
