import NullRing.Arithmetic.Numeral
import NullRing.FixedPoint.Branches

set_option relaxedAutoImplicit false
set_option autoImplicit false

/-!
# The decimal representation

`to_string` writes the truncated quotient and the remainder of the raw value. Both carry the
sign of the raw value or are zero, so the sign is written by the integer part unless that is
zero, and separately if it is; the remainder is negated and padded. The result is the sign, the
canonical numeral of the integer part and exactly `Precision` further digits.

## Main results

* `FixedPoint.toList_padZeros` — the padding loop ends, after as many rounds as digits lack.
* `FixedPoint.toString_exact` — what is written, and that reading it back gives the raw value.
-/

namespace NullRing.FixedPoint

open Signed Truncation Numeral

variable {p : Precision}

/-! ## The parts -/

/-- The scaling factor as a natural number. -/
lemma natAbs_scale (p : Precision) : (scale p).natAbs = 10 ^ p.val := by
  rw [scale_eq, Int.natAbs_pow]
  rfl

/-- `integer_part` has a value. -/
lemma integerPart_eq (a : FixedPoint p) :
    integerPart a = .ok ⟨_, (fits_tdiv_tmod_of_pos a.raw.2 (scale_pos p)).1⟩ :=
  dif_pos _

/-- `fractional_part` has a value. -/
lemma fractionalPart_eq (a : FixedPoint p) :
    fractionalPart a = .ok ⟨_, (fits_tdiv_tmod_of_pos a.raw.2 (scale_pos p)).2⟩ :=
  dif_pos _

/-- The magnitude of the fractional part is a word: it is below the scaling factor. -/
lemma fits_abs_frac (a : FixedPoint p) :
    Fits 64 ((a.raw.val.tmod (scale p)).natAbs : ℤ) := by
  have hlt := natAbs_tmod_lt a.raw.val (scale_ne_zero p)
  have hle := scale_le p
  have hpos := scale_pos p
  rw [fits_64_iff]
  omega

/-- The padding loop adds a zero for each digit that lacks. -/
lemma toList_padZeros (width : ℕ) (s : String) :
    (padZeros width s).toList = List.replicate (width - s.length) '0' ++ s.toList := by
  fun_induction padZeros width s with
  | case1 s hlt ih =>
    have hlen : width - s.length = width - ("0" ++ s).length + 1 := by
      rw [String.length_append, show "0".length = 1 from rfl]
      omega
    rw [ih, hlen, List.replicate_succ', String.toList_append]
    simp
  | case2 s hge =>
    rw [Nat.sub_eq_zero_of_le (not_lt.mp hge)]
    rfl

/-- Padding to `Precision` digits: the value is kept, and the length is exact if the number
has at most that many digits.

**Proof sketch.** The number has at most as many digits as are wanted, so the zeros in front make up
the rest; and they do not change its value. -/
lemma padZeros_spec (p : Precision) {n : ℕ} (hn : n < 10 ^ p.val) :
    (padZeros p.val n.repr).toList.length = p.val ∧
      (∀ c ∈ (padZeros p.val n.repr).toList, c.isDigit) ∧
      Nat.ofDigitChars 10 (padZeros p.val n.repr).toList 0 = n := by
  have hlen : n.repr.length ≤ p.val := (Nat.length_repr_le_iff p.pos).mpr hn
  rw [toList_padZeros]
  refine ⟨?_, ?_, ?_⟩
  · rw [List.length_append, List.length_replicate, String.length_toList]
    omega
  · intro c hc
    rcases List.mem_append.mp hc with hzero | hdigit
    · rw [List.eq_of_mem_replicate hzero]
      rfl
    · rw [Nat.toList_repr] at hdigit
      exact isDigit_of_mem hdigit
  · rw [Nat.ofDigitChars_append, Nat.ofDigitChars_replicate_zero, Nat.toList_repr, mul_zero,
      Nat.ofDigitChars_ten_toDigits]

/-! ## The sign -/

/-- Whether the integer part writes the sign or not, there is one exactly for negative raw
values.

**Proof sketch.** The truncated quotient of a negative value is zero or negative. If it is zero the
sign is written on its own, otherwise `repr` writes it; and the digits are those of the quotient of
the absolute values. -/
lemma sign_append_repr {x d : ℤ} (hd : 0 < d) :
    ((if x < 0 ∧ x.tdiv d = 0 then "-" else "") ++ (x.tdiv d).repr).toList =
      (if x < 0 then ['-'] else []) ++ Nat.toDigits 10 (x.natAbs / d.natAbs) := by
  have habs : (x.tdiv d).natAbs = x.natAbs / d.natAbs := Int.natAbs_tdiv x d
  rw [String.toList_append, Int.repr_eq_if, ← habs]
  rcases lt_or_ge x 0 with hx | hx
  · have hq : x.tdiv d ≤ 0 := tdiv_nonpos_of_mul_nonpos (mul_nonpos_of_nonpos_of_nonneg hx.le hd.le)
    rcases hq.eq_or_lt with hzero | hneg
    · simp [hx, hzero]
    · -- the integer part writes the sign
      have htoNat : (-x.tdiv d).toNat = (x.tdiv d).natAbs := by omega
      rw [if_neg (by omega), if_neg (by omega), if_pos hx, String.toList_append, htoNat,
        Nat.toList_repr]
      rfl
  · have hq : 0 ≤ x.tdiv d := Int.tdiv_nonneg hx hd.le
    have htoNat : (x.tdiv d).toNat = (x.tdiv d).natAbs := by omega
    rw [if_neg (by omega), if_pos hq, if_neg (by omega), htoNat, Nat.toList_repr]
    rfl

/-! ## The representation -/

/-- `to_string` has a value: no intermediate overflows, the negation of the fractional part
included.

**Proof sketch.** The fractional part is negated only if it is negative, and then its absolute value
is less than the scale, which fits. -/
lemma toString_eq (a : FixedPoint p) :
    toString a = .ok ((if a.raw.val < 0 ∧ a.raw.val.tdiv (scale p) = 0 then "-" else "") ++
      (a.raw.val.tdiv (scale p)).repr ++ "." ++
      padZeros p.val ((a.raw.val.tmod (scale p)).natAbs : ℤ).repr) := by
  have hfit := fits_abs_frac a
  unfold toString
  rw [integerPart_eq, fractionalPart_eq]
  simp only [bind, Except.bind, pure, Except.pure]
  rcases lt_or_ge (a.raw.val.tmod (scale p)) 0 with hneg | hpos
  · have hchecked : checked64 (-a.raw.val.tmod (scale p)) = .ok ⟨_, hfit⟩ := by
      have heq : -a.raw.val.tmod (scale p) = ((a.raw.val.tmod (scale p)).natAbs : ℤ) := by omega
      unfold checked64 checked
      simp only [heq, dif_pos hfit]
    simp only [if_pos hneg, hchecked]
  · have heq : ((a.raw.val.tmod (scale p)).natAbs : ℤ) = a.raw.val.tmod (scale p) := by omega
    rw [if_neg hpos.not_gt, heq]

/-- The characters: the sign, the integer part, the point and the padded fraction. -/
lemma toString_toList (a : FixedPoint p) :
    ∃ s, toString a = .ok s ∧
      s.toList = (if a.raw.val < 0 then ['-'] else []) ++
        Nat.toDigits 10 (a.raw.val.natAbs / (scale p).natAbs) ++
        '.' :: (padZeros p.val (a.raw.val.natAbs % (scale p).natAbs).repr).toList := by
  have hfrac : ((a.raw.val.tmod (scale p)).natAbs : ℤ).repr =
      (a.raw.val.natAbs % (scale p).natAbs).repr := by
    rw [Int.natAbs_tmod]
    rfl
  refine ⟨_, toString_eq a, ?_⟩
  rw [String.toList_append, String.toList_append, sign_append_repr (scale_pos p), hfrac,
    List.append_assoc]
  rfl

/-- `int` and `frac` are the integer part and the fraction of the decimal representation of a
raw value. -/
structure IsDecimal (p : Precision) (x : ℤ) (int frac : List Char) : Prop where
  /-- No superfluous leading zeros. -/
  canonical : Canonical int
  int_value : Nat.ofDigitChars 10 int 0 = x.natAbs / (scale p).natAbs
  /-- Exactly `Precision` digits. -/
  frac_length : frac.length = p.val
  frac_digits : ∀ c ∈ frac, c.isDigit
  /-- Sign times integer digits times scale plus fraction digits. -/
  value : (if x < 0 then -1 else 1) *
    (Nat.ofDigitChars 10 int 0 * scale p + Nat.ofDigitChars 10 frac 0) = x

/-- The quotient and the padded remainder of the magnitude make up the representation.

**Proof sketch.** The remainder is less than the scale, so it has at most as many digits as the
precision, and the magnitude is the quotient times the scale and the remainder. -/
lemma isDecimal_parts (p : Precision) (x : ℤ) :
    IsDecimal p x (Nat.toDigits 10 (x.natAbs / (scale p).natAbs))
      (padZeros p.val (x.natAbs % (scale p).natAbs).repr).toList := by
  have hpos : 0 < (scale p).natAbs := Int.natAbs_pos.mpr (scale_ne_zero p)
  have hlt : x.natAbs % (scale p).natAbs < 10 ^ p.val := by
    rw [← natAbs_scale]
    exact Nat.mod_lt _ hpos
  obtain ⟨hlength, hdigits, hvalue⟩ := padZeros_spec p hlt
  refine ⟨canonical_toDigits _, Nat.ofDigitChars_ten_toDigits, hlength, hdigits, ?_⟩
  have hscale : ((scale p).natAbs : ℤ) = scale p := Int.natAbs_of_nonneg (scale_pos p).le
  have hdiv := congrArg (Nat.cast : ℕ → ℤ) (Nat.div_add_mod' x.natAbs (scale p).natAbs)
  rw [Nat.cast_add, Nat.cast_mul, hscale] at hdiv
  rw [Nat.ofDigitChars_ten_toDigits, hvalue, hdiv]
  split_ifs <;> omega

/-- Reading a representation back gives the raw value. -/
lemma IsDecimal.read {x : ℤ} {int frac : List Char} (h : IsDecimal p x int frac) :
    readDecimal (scale p).natAbs ((if x < 0 then ['-'] else []) ++ int ++ '.' :: frac) = x := by
  have hscale : ((scale p).natAbs : ℤ) = scale p := Int.natAbs_of_nonneg (scale_pos p).le
  rw [readDecimal_append _ _ h.canonical]
  rw [Nat.cast_add, Nat.cast_mul, hscale]
  exact h.value

/-- What is written is the decimal representation, and is read back. -/
lemma toString_isDecimal (a : FixedPoint p) :
    ∃ s int frac, toString a = .ok s ∧
      s.toList = (if a.raw.val < 0 then ['-'] else []) ++ int ++ '.' :: frac ∧
      IsDecimal p a.raw.val int frac ∧
      readDecimal (scale p).natAbs s.toList = a.raw.val := by
  obtain ⟨s, hs, hlist⟩ := toString_toList a
  have hparts := isDecimal_parts p a.raw.val
  refine ⟨s, _, _, hs, hlist, hparts, ?_⟩
  rw [hlist]
  exact hparts.read

/-- **`to_string` is an exact, invertible decimal encoding.** It has a value for every raw
value: a minus sign exactly for negative ones, the canonical numeral of the quotient of the
magnitude by the scaling factor, a point and exactly `Precision` digits. Reading it back as sign
times integer digits times scale plus fraction digits yields the raw value, so that distinct
numbers have distinct representations.

**Proof sketch.** `toString_toList` gives the characters, and `isDecimal_parts` their shape and
value: the quotient and the remainder of the magnitude add up to it. -/
theorem toString_exact (a : FixedPoint p) :
    (∃ s int frac, toString a = .ok s ∧
      s.toList = (if a.raw.val < 0 then ['-'] else []) ++ int ++ '.' :: frac ∧
      IsDecimal p a.raw.val int frac ∧
      readDecimal (scale p).natAbs s.toList = a.raw.val) ∧
    ∀ b : FixedPoint p, toString b = toString a ↔ b = a := by
  refine ⟨toString_isDecimal a, ?_⟩
  intro b
  constructor
  · intro heq
    obtain ⟨s, -, -, hs, -, -, hread⟩ := toString_isDecimal a
    obtain ⟨t, -, -, ht, -, -, hread'⟩ := toString_isDecimal b
    have hst : t = s := by
      rw [hs, ht] at heq
      exact Except.ok.inj heq
    rw [hst, hread] at hread'
    exact congrArg mk (Subtype.ext hread'.symm)
  · rintro rfl
    rfl

end NullRing.FixedPoint
