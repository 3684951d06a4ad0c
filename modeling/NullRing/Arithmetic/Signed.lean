import Mathlib.Tactic.Lemma
import Mathlib.Tactic.NormNum
import Mathlib.Data.Int.Order.Basic
import Mathlib.Algebra.Order.Ring.Int

set_option relaxedAutoImplicit false
set_option autoImplicit false

/-!
# Signed machine words

A `w`-bit two's complement word, as the integer it denotes. Signed arithmetic that leaves the
range has no value (it is undefined behaviour in the languages that have it), so an operation
is the exact integer operation followed by a check (`Signed.checked`); a conversion to a
narrower word keeps the low bits (`Signed.narrow`).

## Main definitions

* `Signed.Fits` — the integer is a `w`-bit word; `Signed.Word` — the words.
* `Signed.checked` — an integer as a word, or no value.
* `Signed.narrow` — the word with the same low `w` bits.

## Main results

* `Signed.narrow_of_fits` — narrowing loses nothing exactly when the integer fits.
-/

namespace Signed

/-- The integer is a `w`-bit two's complement word. -/
def Fits (w : ℕ) (x : ℤ) : Prop := -2 ^ (w - 1) ≤ x ∧ x < 2 ^ (w - 1)

/-- Whether an integer fits can be evaluated. -/
instance (w : ℕ) (x : ℤ) : Decidable (Fits w x) := inferInstanceAs (Decidable (_ ∧ _))

/-- The `w`-bit words. -/
abbrev Word (w : ℕ) : Type := {x : ℤ // Fits w x}

/-- The 64-bit range, in numerals. -/
lemma fits_64_iff {x : ℤ} :
    Fits 64 x ↔ -9223372036854775808 ≤ x ∧ x < 9223372036854775808 := by
  norm_num [Fits]

/-- A word is at most `2 ^ (w - 1)` in magnitude. -/
lemma Fits.abs_le_pow {w : ℕ} {x : ℤ} (h : Fits w x) : |x| ≤ 2 ^ (w - 1) :=
  abs_le.mpr ⟨h.1, h.2.le⟩

/-- An integer between zero and a word is a word. -/
lemma Fits.of_between {w : ℕ} {x y : ℤ} (hy : Fits w y)
    (h : (0 ≤ x ∧ x ≤ y) ∨ (y ≤ x ∧ x ≤ 0)) : Fits w x := by
  have hpos : (0 : ℤ) < 2 ^ (w - 1) := by positivity
  obtain ⟨h1, h2⟩ := hy
  rcases h with ⟨hx, hxy⟩ | ⟨hyx, hx⟩
  · exact ⟨by omega, by omega⟩
  · exact ⟨by omega, by omega⟩

/-- An integer of magnitude below `2 ^ (w - 1)` is a word. -/
lemma Fits.of_abs_lt {w : ℕ} {x : ℤ} (h : |x| < 2 ^ (w - 1)) : Fits w x :=
  ⟨(abs_lt.mp h).1.le, (abs_lt.mp h).2⟩

/-- The checked conversion of an exact result to a word: `fault` outside the range. -/
def checked {ε : Type} (fault : ε) (w : ℕ) (x : ℤ) : Except ε (Word w) :=
  if h : Fits w x then .ok ⟨x, h⟩ else .error fault

/-- A check that succeeds passes the word on. -/
lemma checked_bind_of_fits {ε α : Type} (fault : ε) {w : ℕ} {x : ℤ} (h : Fits w x)
    (f : Word w → Except ε α) : (checked fault w x >>= f) = f ⟨x, h⟩ := by
  rw [checked, dif_pos h]
  rfl

/-- A check that fails ends the evaluation. -/
lemma checked_bind_of_not_fits {ε α : Type} (fault : ε) {w : ℕ} {x : ℤ} (h : ¬ Fits w x)
    (f : Word w → Except ε α) : (checked fault w x >>= f) = .error fault := by
  rw [checked, dif_neg h]
  rfl

/-- The centred remainder modulo `2 ^ w` is a `w`-bit word. -/
lemma fits_bmod {w : ℕ} (hw : 0 < w) (x : ℤ) : Fits w (x.bmod (2 ^ w)) := by
  obtain ⟨n, rfl⟩ : ∃ n, w = n + 1 := ⟨w - 1, by omega⟩
  have hpow : 2 ^ (n + 1) = 2 * 2 ^ n := by rw [pow_succ, mul_comm]
  have hlo := Int.le_bmod (x := x) (m := 2 ^ (n + 1)) (by positivity)
  have hhi := Int.bmod_lt (x := x) (m := 2 ^ (n + 1)) (by positivity)
  unfold Fits
  rw [Nat.add_sub_cancel]
  push_cast [hpow] at hlo hhi ⊢
  omega

/-- The conversion to a `w`-bit word: the low `w` bits are kept. -/
def narrow (w : ℕ) (hw : 0 < w) (x : ℤ) : Word w := ⟨x.bmod (2 ^ w), fits_bmod hw x⟩

/-- Narrowing a value that fits loses nothing. -/
lemma narrow_of_fits {w : ℕ} (hw : 0 < w) {x : ℤ} (h : Fits w x) : narrow w hw x = ⟨x, h⟩ := by
  obtain ⟨n, rfl⟩ : ∃ n, w = n + 1 := ⟨w - 1, by omega⟩
  have hpow : 2 ^ (n + 1) = 2 * 2 ^ n := by rw [pow_succ, mul_comm]
  obtain ⟨h1, h2⟩ := h
  rw [Nat.add_sub_cancel] at h1 h2
  refine Subtype.ext (Int.bmod_eq_of_le ?_ ?_)
  · push_cast [hpow]
    omega
  · push_cast [hpow]
    omega

end Signed
