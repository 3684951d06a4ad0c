import Mathlib.Data.Int.Notation
import Mathlib.Order.Lattice
import Mathlib.Tactic.SplitIfs

set_option relaxedAutoImplicit false
set_option autoImplicit false

/-!
# Ladders of thresholds

Four ascending thresholds cut a linear order into five bands. A weighted sum of the membership
tests of the bands picks the weight of one band, since every element is in exactly one.

## Main definitions

* `Ladder` — four ascending thresholds; `Ladder.Band` — the five bands they cut out.
* `Ladder.band` — the band of an element, by branching; `Ladder.Contains` — the membership test.
* `Ladder.bandSum` — the weighted sum of the membership tests.

## Main results

* `Ladder.contains_iff` — the bands are a partition.
* `Ladder.bandSum_eq` — the weighted sum is the weight of the band.
-/

/-- Four ascending thresholds. -/
structure Ladder (α : Type) [LinearOrder α] where
  t₁ : α
  t₂ : α
  t₃ : α
  t₄ : α
  le₁₂ : t₁ ≤ t₂
  le₂₃ : t₂ ≤ t₃
  le₃₄ : t₃ ≤ t₄

namespace Ladder

/-- The bands between four thresholds. -/
inductive Band
  | lowest
  | low
  | middle
  | high
  | highest
  deriving DecidableEq, Repr

variable {α : Type} [LinearOrder α] (l : Ladder α)

/-- The band of an element: the thresholds are tried from below. -/
def band (x : α) : Band :=
  if x < l.t₁ then .lowest
  else if x < l.t₂ then .low
  else if x < l.t₃ then .middle
  else if x < l.t₄ then .high
  else .highest

/-- The elements of a band. -/
def Contains (x : α) : Band → Prop
  | .lowest => x < l.t₁
  | .low => l.t₁ ≤ x ∧ x < l.t₂
  | .middle => l.t₂ ≤ x ∧ x < l.t₃
  | .high => l.t₃ ≤ x ∧ x < l.t₄
  | .highest => l.t₄ ≤ x

/-- Whether a value is in a band can be evaluated. -/
instance (x : α) : (b : Band) → Decidable (l.Contains x b)
  | .lowest => inferInstanceAs (Decidable (x < l.t₁))
  | .low => inferInstanceAs (Decidable (l.t₁ ≤ x ∧ x < l.t₂))
  | .middle => inferInstanceAs (Decidable (l.t₂ ≤ x ∧ x < l.t₃))
  | .high => inferInstanceAs (Decidable (l.t₃ ≤ x ∧ x < l.t₄))
  | .highest => inferInstanceAs (Decidable (l.t₄ ≤ x))

/-- **The bands are a partition**: each element is in its own band and in no other. -/
theorem contains_iff (x : α) (b : Band) : l.Contains x b ↔ l.band x = b := by
  have h1 := l.le₁₂
  have h2 := l.le₂₃
  have h3 := l.le₃₄
  unfold band
  split_ifs <;> cases b <;> simp only [Contains, reduceCtorEq] <;> grind

/-- The elements below every threshold are the lowest band. -/
lemma lt_t₁_iff (x : α) : x < l.t₁ ↔ l.band x = .lowest := l.contains_iff x .lowest

/-- The elements from the last threshold on are the highest band. -/
lemma t₄_le_iff (x : α) : l.t₄ ≤ x ↔ l.band x = .highest := l.contains_iff x .highest

/-- The elements from the third threshold on are the two highest bands. -/
lemma t₃_le_iff (x : α) : l.t₃ ≤ x ↔ l.band x = .high ∨ l.band x = .highest := by
  rw [← l.contains_iff, ← l.contains_iff]
  constructor
  · intro h
    rcases lt_or_ge x l.t₄ with h4 | h4
    · exact Or.inl ⟨h, h4⟩
    · exact Or.inr h4
  · rintro (⟨h, _⟩ | h)
    · exact h
    · exact le_trans l.le₃₄ h

/-- The elements below the second threshold are the two lowest bands. -/
lemma lt_t₂_iff (x : α) : x < l.t₂ ↔ l.band x = .lowest ∨ l.band x = .low := by
  rw [← l.contains_iff, ← l.contains_iff]
  constructor
  · intro h
    rcases lt_or_ge x l.t₁ with h1 | h1
    · exact Or.inl h1
    · exact Or.inr ⟨h1, h⟩
  · rintro (h | ⟨_, h⟩)
    · exact lt_of_lt_of_le h l.le₁₂
    · exact h

/-- The weighted sum of the membership tests. -/
def bandSum (w : Band → ℤ) (x : α) : ℤ :=
  (if l.Contains x .lowest then w .lowest else 0) + (if l.Contains x .low then w .low else 0) +
    (if l.Contains x .middle then w .middle else 0) + (if l.Contains x .high then w .high else 0) +
    (if l.Contains x .highest then w .highest else 0)

/-- **The weighted sum picks the weight of the band.** -/
theorem bandSum_eq (w : Band → ℤ) (x : α) : l.bandSum w x = w (l.band x) := by
  unfold bandSum
  simp only [contains_iff]
  cases l.band x <;> simp

end Ladder
