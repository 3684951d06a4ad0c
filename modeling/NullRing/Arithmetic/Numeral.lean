import Mathlib.Tactic.Lemma
import Mathlib.Tactic.Ring
import Mathlib.Data.Nat.Notation

set_option relaxedAutoImplicit false
set_option autoImplicit false

/-!
# Decimal numerals

Lists of decimal digits as text has them, most significant digit first. `Nat.toDigits 10` writes
a natural number and `Nat.ofDigitChars 10` reads one. What is written is canonical: no leading
zero, except for the numeral of zero.

## Main definitions

* `Numeral.Canonical` — decimal digits, at least one, without a superfluous leading zero.
* `Numeral.readDecimal` — a signed decimal fraction, read with a given scale.

## Main results

* `Numeral.canonical_toDigits` — what is written is canonical.
* `Numeral.readDecimal_append` — reading a sign, an integer part and a fraction.
-/

namespace Numeral

/-- A numeral without superfluous leading zeros. -/
structure Canonical (ds : List Char) : Prop where
  ne_nil : ds ≠ []
  digits : ∀ c ∈ ds, c.isDigit
  leading : ds.head? = some '0' → ds = ['0']

/-- The digits written in base ten are decimal digits. -/
lemma isDigit_of_mem {n : ℕ} {c : Char} (h : c ∈ Nat.toDigits 10 n) : c.isDigit :=
  Nat.isDigit_of_mem_toDigits (by decide) (by decide) h

/-- The numeral of a number has a leading zero only for zero.

**Proof sketch.** Induction along the digits: from ten on, the first digit of `n` is that of
`n / 10`, and `n / 10` is not zero. -/
lemma eq_zero_of_head (n : ℕ) (h : (Nat.toDigits 10 n).head? = some '0') : n = 0 := by
  induction n using Nat.strong_induction_on with
  | _ n ih =>
    by_cases hn : n < 10
    · rw [Nat.toDigits_of_lt_base hn] at h
      have hchar : n.digitChar = '0' := Option.some.inj h
      have hval := Nat.toNat_digitChar_sub_48_of_lt_ten hn
      rw [hchar] at hval
      exact hval.symm
    · obtain ⟨c, cs, hcs⟩ := List.exists_cons_of_ne_nil
        (Nat.toDigits_ne_nil (n := n / 10) (b := 10))
      rw [Nat.toDigits_of_base_le (by decide) (by omega), hcs] at h
      have := ih (n / 10) (by omega) (by rw [hcs]; exact h)
      omega

/-- **What is written is canonical.** -/
theorem canonical_toDigits (n : ℕ) : Canonical (Nat.toDigits 10 n) := by
  refine ⟨Nat.toDigits_ne_nil, fun c hc => isDigit_of_mem hc, ?_⟩
  intro h
  rw [eq_zero_of_head n h]
  rfl

/-! ## Decimal fractions -/

/-- The value of digits, a point and digits, in units of `1 / scale`. -/
def readUnsigned (scale : ℕ) (cs : List Char) : ℕ :=
  Nat.ofDigitChars 10 (cs.takeWhile (· ≠ '.')) 0 * scale +
    Nat.ofDigitChars 10 ((cs.dropWhile (· ≠ '.')).drop 1) 0

/-- The value of a decimal fraction with an optional sign, in units of `1 / scale`. -/
def readDecimal (scale : ℕ) : List Char → ℤ
  | '-' :: cs => -readUnsigned scale cs
  | cs => readUnsigned scale cs

/-- Digits are neither a sign nor a point. -/
lemma ne_of_isDigit {c : Char} (h : c.isDigit) : c ≠ '-' ∧ c ≠ '.' := by
  constructor
  · rintro rfl
    exact absurd h (by decide)
  · rintro rfl
    exact absurd h (by decide)

/-- The digits up to the point, and the digits after it. -/
lemma readUnsigned_append (scale : ℕ) {int : List Char} (hint : ∀ c ∈ int, c.isDigit)
    (frac : List Char) :
    readUnsigned scale (int ++ '.' :: frac) =
      Nat.ofDigitChars 10 int 0 * scale + Nat.ofDigitChars 10 frac 0 := by
  have hne : ∀ c ∈ int, decide (c ≠ '.') = true := by
    intro c hc
    exact decide_eq_true (ne_of_isDigit (hint c hc)).2
  unfold readUnsigned
  rw [List.takeWhile_append_of_pos hne, List.dropWhile_append_of_pos hne]
  simp

/-- **Reading a sign, an integer part and a fraction.**

**Proof sketch.** A sign is read off; without one the first character is a digit, which is no
sign. -/
theorem readDecimal_append (scale : ℕ) (neg : Prop) [Decidable neg] {int : List Char}
    (hint : Canonical int) (frac : List Char) :
    readDecimal scale ((if neg then ['-'] else []) ++ int ++ '.' :: frac) =
      (if neg then -1 else 1) *
        (Nat.ofDigitChars 10 int 0 * scale + Nat.ofDigitChars 10 frac 0 : ℕ) := by
  rw [← readUnsigned_append scale hint.digits]
  split_ifs with h
  · simp [readDecimal]
  · obtain ⟨c, cs, rfl⟩ := List.exists_cons_of_ne_nil hint.ne_nil
    have hc : c ≠ '-' := (ne_of_isDigit (hint.digits c (by simp))).1
    simp only [List.nil_append, List.cons_append, one_mul]
    unfold readDecimal
    split
    · rename_i heq
      exact absurd (List.cons.inj heq).1 hc
    · rfl

end Numeral
