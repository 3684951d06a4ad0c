import NullRing.Arithmetic.Ladder
import NullRing.Evaluator.Monotone

set_option relaxedAutoImplicit false
set_option autoImplicit false

/-!
# The risk evaluator as a decision table

The evaluator adds weighted comparisons instead of branching. What it is for is a table: the
thresholds cut the prices into five bands and the quantities into five bands, and each of the
twenty-five cells has one score and one tier. The two agree on every event.

## Main definitions

* `RiskEvaluator.prices`, `RiskEvaluator.quantities` — the ladders of thresholds.
* `RiskEvaluator.scoreTable`, `RiskEvaluator.tierTable` — the cells.
* `RiskEvaluator.lookup` — the evaluation by table.

## Main results

* `RiskEvaluator.evaluate_eq_lookup` — the sums of comparisons agree with the table.
-/

namespace NullRing.RiskEvaluator

open FixedPoint

/-! ## Bands and cells -/

/-- The price thresholds. -/
def prices : Ladder Price where
  t₁ := pennyThreshold
  t₂ := lowPrice
  t₃ := midPrice
  t₄ := highPrice
  le₁₂ := by decide
  le₂₃ := by decide
  le₃₄ := by decide

/-- The quantity thresholds. -/
def quantities : Ladder Quantity where
  t₁ := tinyQty
  t₂ := smallQty
  t₃ := largeQty
  t₄ := hugeQty
  le₁₂ := by decide
  le₂₃ := by decide
  le₃₄ := by decide

/-- The score of a cell: one row for each price band, the quantity bands from left to right. -/
def scoreTable : Ladder.Band → Ladder.Band → ℤ
  | .lowest => fun
    | .lowest => 410 | .low => 450 | .middle => 600 | .high => 950 | .highest => 1000
  | .low => fun
    | .lowest => 310 | .low => 350 | .middle => 500 | .high => 650 | .highest => 850
  | .middle => fun
    | .lowest => 160 | .low => 200 | .middle => 350 | .high => 500 | .highest => 700
  | .high => fun
    | .lowest => 60 | .low => 100 | .middle => 250 | .high => 400 | .highest => 600
  | .highest => fun
    | .lowest => 30 | .low => 70 | .middle => 220 | .high => 370 | .highest => 720

/-- The tier of a cell. -/
def tierTable : Ladder.Band → Ladder.Band → RiskTier
  | .lowest => fun
    | .lowest => .medium | .low => .medium | .middle => .high | .high => .critical
    | .highest => .critical
  | .low => fun
    | .lowest => .medium | .low => .medium | .middle => .high | .high => .high
    | .highest => .critical
  | .middle => fun
    | .lowest => .low | .low => .low | .middle => .medium | .high => .high | .highest => .high
  | .high => fun
    | .lowest => .low | .low => .low | .middle => .medium | .high => .medium | .highest => .high
  | .highest => fun
    | .lowest => .low | .low => .low | .middle => .low | .high => .medium | .highest => .high

/-- Whether an event is priced can be evaluated. -/
instance (event : RiskEvent) : Decidable (Unpriced event) :=
  inferInstanceAs (Decidable (_ ∨ _))

/-- The evaluation of an event by table. -/
def lookup (event : RiskEvent) : RiskResult :=
  if Unpriced event then ⟨event.id, 0, .low⟩
  else
    let row := prices.band event.price
    let column := quantities.band event.quantity
    ⟨event.id, scoreTable row column, tierTable row column⟩

/-! ## The components by band -/

/-- The conditions of the source on the price name bands. -/
lemma price_conditions (price : Price) :
    (price < pennyThreshold ↔ prices.band price = .lowest) ∧
      (price < lowPrice ↔ prices.band price = .lowest ∨ prices.band price = .low) ∧
      (highPrice ≤ price ↔ prices.band price = .highest) :=
  ⟨prices.lt_t₁_iff price, prices.lt_t₂_iff price, prices.t₄_le_iff price⟩

/-- The conditions of the source on the quantity name bands. -/
lemma quantity_conditions (quantity : Quantity) :
    (largeQty ≤ quantity ↔
        quantities.band quantity = .high ∨ quantities.band quantity = .highest) ∧
      (hugeQty ≤ quantity ↔ quantities.band quantity = .highest) :=
  ⟨quantities.t₃_le_iff quantity, quantities.t₄_le_iff quantity⟩

/-- The price component of a band. -/
def priceWeight : Ladder.Band → ℤ
  | .lowest => 400
  | .low => 300
  | .middle => 150
  | .high => 50
  | .highest => 20

/-- The quantity component of a band. -/
def qtyWeight : Ladder.Band → ℤ
  | .lowest => 10
  | .low => 50
  | .middle => 200
  | .high => 350
  | .highest => 500

/-- The price component is the weight of the price band. -/
lemma priceScore_eq_weight (price : Price) :
    priceScore price = priceWeight (prices.band price) := by
  have hsum := prices.bandSum_eq priceWeight price
  unfold Ladder.bandSum at hsum
  unfold priceScore weight
  convert hsum <;> rfl

/-- The quantity component is the weight of the quantity band. -/
lemma qtyScore_eq_weight (quantity : Quantity) :
    qtyScore quantity = qtyWeight (quantities.band quantity) := by
  have hsum := quantities.bandSum_eq qtyWeight quantity
  unfold Ladder.bandSum at hsum
  unfold qtyScore weight
  convert hsum <;> rfl

/-- The penalty of a cell. -/
lemma penalty_eq_weight (price : Price) (quantity : Quantity) :
    penalty price quantity =
      weight (prices.band price = .lowest ∧
        (quantities.band quantity = .high ∨ quantities.band quantity = .highest)) 200 +
      weight (prices.band price = .highest ∧ quantities.band quantity = .highest) 150 +
      weight (quantities.band quantity = .highest) 50 := by
  obtain ⟨hpenny, -, hhigh⟩ := price_conditions price
  obtain ⟨hlarge, hhuge⟩ := quantity_conditions quantity
  simp only [penalty, hpenny, hhigh, hlarge, hhuge]

/-- The score of a cell before the clamp. -/
def cellTotal (row column : Ladder.Band) : ℤ :=
  priceWeight row + qtyWeight column +
    (weight (row = .lowest ∧ (column = .high ∨ column = .highest)) 200 +
      weight (row = .highest ∧ column = .highest) 150 + weight (column = .highest) 50)

/-- The score before the clamp depends on the bands only. -/
lemma total_eq_cellTotal (price : Price) (quantity : Quantity) :
    total price quantity = cellTotal (prices.band price) (quantities.band quantity) := by
  rw [total, priceScore_eq_weight, qtyScore_eq_weight, penalty_eq_weight]
  rfl

/-- The clamp takes each cell to its entry in the table. -/
lemma clamp_cellTotal (row column : Ladder.Band) :
    clamp (cellTotal row column) = scoreTable row column := by
  cases row <;> cases column <;> decide

/-- The two tables agree. -/
lemma tierOf_scoreTable (row column : Ladder.Band) :
    tierOf (scoreTable row column) = tierTable row column := by
  cases row <;> cases column <;> decide

/-- No cell is below the lower clamp. -/
lemma cellTotal_nonneg (row column : Ladder.Band) : 0 ≤ cellTotal row column := by
  cases row <;> cases column <;> decide

/-- One cell is above the upper clamp: the cheapest prices with the largest quantities. -/
lemma lt_cellTotal_iff (row column : Ladder.Band) :
    1000 < cellTotal row column ↔ row = .lowest ∧ column = .highest := by
  cases row <;> cases column <;> decide

/-- The cells of the highest tier. -/
lemma tierTable_eq_critical_iff (row column : Ladder.Band) :
    tierTable row column = .critical ↔
      row = .lowest ∧ (column = .high ∨ column = .highest) ∨
        (row = .lowest ∨ row = .low) ∧ column = .highest := by
  cases row <;> cases column <;> decide

/-- A price of each band. -/
def samplePrice : Ladder.Band → Price
  | .lowest => ofRaw _ 1 (by decide)
  | .low => pennyThreshold
  | .middle => lowPrice
  | .high => midPrice
  | .highest => highPrice

/-- A quantity of each band. -/
def sampleQty : Ladder.Band → Quantity
  | .lowest => ofRaw _ 1 (by decide)
  | .low => tinyQty
  | .middle => smallQty
  | .high => largeQty
  | .highest => hugeQty

/-- Every cell is met by an event that the guard lets through. -/
lemma exists_event (row column : Ladder.Band) : ∃ event : RiskEvent, ¬ Unpriced event ∧
    prices.band event.price = row ∧ quantities.band event.quantity = column := by
  have hprice : 0 < (samplePrice row).raw.val ∧ prices.band (samplePrice row) = row := by
    cases row <;> decide
  have hqty : 0 < (sampleQty column).raw.val ∧ quantities.band (sampleQty column) = column := by
    cases column <;> decide
  refine ⟨⟨0, samplePrice row, sampleQty column⟩, ?_, hprice.2, hqty.2⟩
  rintro (h | h)
  · exact h.not_gt hqty.1
  · exact h.not_gt hprice.1

/-! ## Agreement -/

/-- Both evaluations of an event give one result.

**Proof sketch.** Unpriced events are critical in both. For the others the score is the clamped
entry of the table for their two bands, and the tier goes with it. -/
lemma evaluate_event (event : RiskEvent) : evaluate event = lookup event := by
  by_cases h : Unpriced event
  · rw [lookup, if_pos h]
    exact if_pos h
  · have hscore := score_of_not_unpriced h
    rw [total_eq_cellTotal, clamp_cellTotal] at hscore
    have htier := tier_eq event
    rw [hscore, tierOf_scoreTable] at htier
    have hid : (evaluate event).eventId = event.id := by
      unfold evaluate
      split_ifs <;> rfl
    simp only [lookup, if_neg h, ← hid, ← hscore, ← htier]

/-- **The branchless evaluation is the decision table.** On every event the sums of weighted
comparisons give the score and the tier that the table has for the bands of the price and of the
quantity. The clamp at zero never acts, and the one at a thousand acts exactly on prices below a
penny threshold with huge quantities. The tier is critical exactly for a priced event whose price
is below the penny threshold with a large or huge quantity, or below the low price with a huge
one. Each cell of the table is met by some priced event.

**Proof sketch.** Each component is a weighted sum over the bands of a ladder, so it picks the
weight of one band; the conditions of the penalty name bands too. What is left is a check of the
twenty-five cells. -/
theorem evaluate_eq_lookup :
    (∀ event : RiskEvent, evaluate event = lookup event ∧
      0 ≤ total event.price event.quantity ∧
      (1000 < total event.price event.quantity ↔
        event.price < pennyThreshold ∧ hugeQty ≤ event.quantity) ∧
      ((evaluate event).tier = .critical ↔ ¬ Unpriced event ∧
        (event.price < pennyThreshold ∧ largeQty ≤ event.quantity ∨
          event.price < lowPrice ∧ hugeQty ≤ event.quantity))) ∧
    ∀ row column : Ladder.Band, ∃ event : RiskEvent, ¬ Unpriced event ∧
      prices.band event.price = row ∧ quantities.band event.quantity = column := by
  refine ⟨?_, exists_event⟩
  intro event
  obtain ⟨hpenny, hlow, -⟩ := price_conditions event.price
  obtain ⟨hlarge, hhuge⟩ := quantity_conditions event.quantity
  refine ⟨evaluate_event event, ?_, ?_, ?_⟩
  · rw [total_eq_cellTotal]
    exact cellTotal_nonneg _ _
  · rw [total_eq_cellTotal, lt_cellTotal_iff, hpenny, hhuge]
  · rw [evaluate_event, lookup, hpenny, hlow, hlarge, hhuge]
    split_ifs with h
    · simp [h]
    · rw [tierTable_eq_critical_iff]
      simp [h]

end NullRing.RiskEvaluator
