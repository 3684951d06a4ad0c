import Mathlib.Tactic.FinCases
import Mathlib.Tactic.Linarith
import NullRing.Arithmetic.Signed
import NullRing.Arithmetic.Truncation

set_option relaxedAutoImplicit false
set_option autoImplicit false

/-!
# Fixed-point numbers

The class template `FixedPoint<Precision>` of `include/types.hpp`: a 64-bit raw value with
`Precision` implied decimal digits. Multiplication and division are compiled in two ways. GCC
and Clang form the product in a 128-bit word; other compilers (MSVC) multiply the truncated
quotient and the remainder of the left operand separately, in 64-bit words.

Signed overflow has no value in C++, so an operator evaluates to `Fault.overflow` as soon as
one of its intermediate results leaves its type.

## Main definitions

* `FixedPoint.Precision`, `FixedPoint.scale`, `FixedPoint` — the template parameter, the
  scaling factor and the numbers.
* `FixedPoint.ofInteger`, `FixedPoint.ofParts` — the constructors from integers.
* `FixedPoint.add`, `FixedPoint.sub`, `FixedPoint.neg` — the additive operators.
* `FixedPoint.mulWide`, `FixedPoint.mulSplit` — the two branches of `operator*`.
* `FixedPoint.divWide`, `FixedPoint.divSplit` — the two branches of `operator/`.
* `FixedPoint.toString` — the decimal representation.

## Main results

* `FixedPoint.scale_eq`, `FixedPoint.scale_le` — the scaling factor is `10 ^ Precision`, and
  fits a 64-bit word.
-/

namespace NullRing

open Signed

/-- How the evaluation of an operator can end without a value. -/
inductive Fault
  /-- A signed result outside its type: undefined behaviour. -/
  | overflow
  /-- `std::domain_error`, with its message. -/
  | domainError (what : String)
  deriving DecidableEq, Repr

namespace FixedPoint

/-- The template parameter, as admitted by the `static_assert`. -/
structure Precision where
  /-- The number of implied decimal digits. -/
  val : ℕ
  pos : 0 < val
  le : val ≤ 18

/-- The scaling factor, as the loop of the initializer computes it. -/
def scale (p : Precision) : ℤ := (List.range p.val).foldl (fun s _ => s * 10) 1

/-- A loop that multiplies by ten `n` times multiplies by `10 ^ n`. -/
lemma foldl_mul_ten (n : ℕ) (s : ℤ) :
    (List.range n).foldl (fun s _ => s * 10) s = s * 10 ^ n := by
  induction n with
  | zero => simp
  | succ n ih => rw [List.range_succ, List.foldl_append, ih]; simp [pow_succ, mul_assoc]

/-- The scaling factor is `10 ^ Precision`. -/
lemma scale_eq (p : Precision) : scale p = 10 ^ p.val := by
  rw [scale, foldl_mul_ten, one_mul]

/-- The scaling factor is at least ten. -/
lemma ten_le_scale (p : Precision) : 10 ≤ scale p := by
  rw [scale_eq]
  exact le_self_pow₀ (by norm_num) p.pos.ne'

/-- The scaling factor is at most `10 ^ 18`, so the loop stays in `int64_t`. -/
lemma scale_le (p : Precision) : scale p ≤ 10 ^ 18 := by
  rw [scale_eq]
  exact pow_le_pow_right₀ (by norm_num) p.le

/-- The scale is positive. -/
lemma scale_pos (p : Precision) : 0 < scale p := by
  have := ten_le_scale p
  omega

/-- The scale may be divided by. -/
lemma scale_ne_zero (p : Precision) : scale p ≠ 0 := (scale_pos p).ne'

end FixedPoint

open FixedPoint in
/-- A fixed-point number: the raw 64-bit value (`raw_`). -/
structure FixedPoint (p : Precision) where
  /-- The underlying integer (`raw_type` is `std::int64_t`). -/
  raw : Word 64
  deriving DecidableEq

namespace FixedPoint

variable {p : Precision}

/-- The named constructor from the raw value. -/
def fromRaw (r : Word 64) : FixedPoint p := ⟨r⟩

/-- `operator<=>` compares the raw values. -/
instance : LT (FixedPoint p) := ⟨fun a b => a.raw.val < b.raw.val⟩

/-- Numbers are compared by their raw values. -/
instance : LE (FixedPoint p) := ⟨fun a b => a.raw.val ≤ b.raw.val⟩

/-- Comparisons can be evaluated. -/
instance (a b : FixedPoint p) : Decidable (a < b) :=
  inferInstanceAs (Decidable (a.raw.val < b.raw.val))

/-- Comparisons can be evaluated. -/
instance (a b : FixedPoint p) : Decidable (a ≤ b) :=
  inferInstanceAs (Decidable (a.raw.val ≤ b.raw.val))

/-- A result of type `std::int64_t`. -/
def checked64 (x : ℤ) : Except Fault (Word 64) := checked .overflow 64 x

/-- A result of type `__int128`. -/
def checked128 (x : ℤ) : Except Fault (Word 128) := checked .overflow 128 x

/-- `static_cast<raw_type>` of a 128-bit value. -/
def toRaw (x : Word 128) : Word 64 := narrow 64 (by norm_num) x.val

/-! ## The constructors from integers -/

/-- `FixedPoint(integer)`. -/
def ofInteger (integer : Word 64) : Except Fault (FixedPoint p) := do
  let r ← checked64 (integer.val * scale p)
  return fromRaw r

/-- `FixedPoint(integer, frac)`. -/
def ofParts (integer frac : Word 64) : Except Fault (FixedPoint p) := do
  let scaled ← checked64 (integer.val * scale p)
  let r ← checked64 (scaled.val + frac.val)
  return fromRaw r

/-! ## The operators -/

/-- `operator+` (and `operator+=`). -/
def add (a b : FixedPoint p) : Except Fault (FixedPoint p) := do
  let r ← checked64 (a.raw.val + b.raw.val)
  return fromRaw r

/-- `operator-` of two operands (and `operator-=`). -/
def sub (a b : FixedPoint p) : Except Fault (FixedPoint p) := do
  let r ← checked64 (a.raw.val - b.raw.val)
  return fromRaw r

/-- `operator-` of one operand. -/
def neg (a : FixedPoint p) : Except Fault (FixedPoint p) := do
  let r ← checked64 (-a.raw.val)
  return fromRaw r

/-- `operator*`, GCC/Clang branch: a 128-bit product, divided and narrowed. -/
def mulWide (a b : FixedPoint p) : Except Fault (FixedPoint p) := do
  let wide ← checked128 (a.raw.val * b.raw.val)
  let q ← checked128 (wide.val.tdiv (scale p))
  return fromRaw (toRaw q)

/-- `operator*`, the other branch: `a_hi * b + (a_lo * b) / scale`. -/
def mulSplit (a b : FixedPoint p) : Except Fault (FixedPoint p) := do
  let aHi ← checked64 (a.raw.val.tdiv (scale p))
  let aLo ← checked64 (a.raw.val.tmod (scale p))
  let hi ← checked64 (aHi.val * b.raw.val)
  let lo ← checked64 (aLo.val * b.raw.val)
  let loQ ← checked64 (lo.val.tdiv (scale p))
  let r ← checked64 (hi.val + loQ.val)
  return fromRaw r

/-- The exception of `operator/`. -/
def divisionByZero : Fault := .domainError "FixedPoint: division by zero"

/-- `operator/`, GCC/Clang branch: the dividend scaled in 128 bits, divided and narrowed. -/
def divWide (a b : FixedPoint p) : Except Fault (FixedPoint p) := do
  if b.raw.val = 0 then throw divisionByZero
  let wide ← checked128 (a.raw.val * scale p)
  let q ← checked128 (wide.val.tdiv b.raw.val)
  return fromRaw (toRaw q)

/-- `operator/`, the other branch: `a_hi * scale + (a_lo * scale) / b`. -/
def divSplit (a b : FixedPoint p) : Except Fault (FixedPoint p) := do
  if b.raw.val = 0 then throw divisionByZero
  let aHi ← checked64 (a.raw.val.tdiv b.raw.val)
  let aLo ← checked64 (a.raw.val.tmod b.raw.val)
  let hi ← checked64 (aHi.val * scale p)
  let lo ← checked64 (aLo.val * scale p)
  let loQ ← checked64 (lo.val.tdiv b.raw.val)
  let r ← checked64 (hi.val + loQ.val)
  return fromRaw r

/-- The compilers the operators distinguish (`__GNUC__` or `__clang__`, or neither). -/
inductive Compiler
  | gnuOrClang
  | other
  deriving DecidableEq, Repr

/-- `operator*`. -/
def mul (c : Compiler) (a b : FixedPoint p) : Except Fault (FixedPoint p) :=
  match c with
  | .gnuOrClang => mulWide a b
  | .other => mulSplit a b

/-- `operator/`. -/
def div (c : Compiler) (a b : FixedPoint p) : Except Fault (FixedPoint p) :=
  match c with
  | .gnuOrClang => divWide a b
  | .other => divSplit a b

/-! ## String conversion -/

/-- `integer_part`. -/
def integerPart (a : FixedPoint p) : Except Fault (Word 64) :=
  checked64 (a.raw.val.tdiv (scale p))

/-- `fractional_part`. -/
def fractionalPart (a : FixedPoint p) : Except Fault (Word 64) :=
  checked64 (a.raw.val.tmod (scale p))

/-- The padding loop of `to_string`: a leading zero while the string is too short. -/
def padZeros (width : ℕ) (fracStr : String) : String :=
  if fracStr.length < width then padZeros width ("0" ++ fracStr) else fracStr
termination_by width - fracStr.length
decreasing_by
  rw [String.length_append, show "0".length = 1 from rfl]
  omega

/-- `to_string`, with `Int.repr` for `std::to_string`. -/
def toString (a : FixedPoint p) : Except Fault String := do
  let intPart ← integerPart a
  let frac ← fractionalPart a
  let fracPart ← if frac.val < 0 then checked64 (-frac.val) else pure frac
  let fracStr := padZeros p.val fracPart.val.repr
  let sign := if a.raw.val < 0 ∧ intPart.val = 0 then "-" else ""
  return sign ++ intPart.val.repr ++ "." ++ fracStr

end FixedPoint

/-- `Price`: eight decimal digits. -/
abbrev Price : Type := FixedPoint ⟨8, by decide, by decide⟩

/-- `Quantity`: four decimal digits. -/
abbrev Quantity : Type := FixedPoint ⟨4, by decide, by decide⟩

end NullRing
