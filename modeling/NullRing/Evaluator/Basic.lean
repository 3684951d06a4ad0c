import NullRing.FixedPoint.Basic

set_option relaxedAutoImplicit false
set_option autoImplicit false

/-!
# The risk evaluator

`RiskEvaluator::evaluate` of `include/evaluator.hpp`, with the fields of `RiskEvent` it reads.
The comparisons that the source multiplies by a weight are sums of `weight`s here. All
intermediate scores are far inside `std::int32_t`: the three components are at most 400, 500
and 250.

## Main definitions

* `RiskEvent`, `RiskTier`, `RiskResult` — the data.
* `RiskEvaluator.evaluate` — the evaluation of an event.
-/

namespace NullRing

/-- The fields of a `RiskEvent` that are evaluated. -/
structure RiskEvent where
  /-- The event identifier, a `std::uint64_t`. -/
  id : UInt64
  price : Price
  quantity : Quantity

/-- Risk tiers. -/
inductive RiskTier
  | low
  | medium
  | high
  | critical
  deriving DecidableEq, Repr

/-- The result of a single evaluation. -/
structure RiskResult where
  /-- Correlates back to the source event. -/
  eventId : UInt64
  score : ℤ
  tier : RiskTier
  deriving DecidableEq, Repr

namespace RiskEvaluator

open FixedPoint

/-! ## Thresholds -/

/-- `penny_threshold`: 1.00. -/
def pennyThreshold : Price := fromRaw ⟨100000000, by decide⟩

/-- `low_price`: 10.00. -/
def lowPrice : Price := fromRaw ⟨1000000000, by decide⟩

/-- `mid_price`: 100.00. -/
def midPrice : Price := fromRaw ⟨10000000000, by decide⟩

/-- `high_price`: 1000.00. -/
def highPrice : Price := fromRaw ⟨100000000000, by decide⟩

/-- `tiny_qty`: 10. -/
def tinyQty : Quantity := fromRaw ⟨100000, by decide⟩

/-- `small_qty`: 100. -/
def smallQty : Quantity := fromRaw ⟨1000000, by decide⟩

/-- `large_qty`: 10000. -/
def largeQty : Quantity := fromRaw ⟨100000000, by decide⟩

/-- `huge_qty`: 100000. -/
def hugeQty : Quantity := fromRaw ⟨1000000000, by decide⟩

/-! ## Evaluation -/

/-- A comparison times an integer. -/
def weight (b : Prop) [Decidable b] (w : ℤ) : ℤ := if b then w else 0

/-- The price component. -/
def priceScore (price : Price) : ℤ :=
  weight (price < pennyThreshold) 400 +
    weight (pennyThreshold ≤ price ∧ price < lowPrice) 300 +
    weight (lowPrice ≤ price ∧ price < midPrice) 150 +
    weight (midPrice ≤ price ∧ price < highPrice) 50 +
    weight (highPrice ≤ price) 20

/-- The quantity component. -/
def qtyScore (quantity : Quantity) : ℤ :=
  weight (quantity < tinyQty) 10 +
    weight (tinyQty ≤ quantity ∧ quantity < smallQty) 50 +
    weight (smallQty ≤ quantity ∧ quantity < largeQty) 200 +
    weight (largeQty ≤ quantity ∧ quantity < hugeQty) 350 +
    weight (hugeQty ≤ quantity) 500

/-- The cross-factor amplification. -/
def penalty (price : Price) (quantity : Quantity) : ℤ :=
  weight (price < pennyThreshold ∧ largeQty ≤ quantity) 200 +
    weight (highPrice ≤ price ∧ hugeQty ≤ quantity) 150 +
    weight (hugeQty ≤ quantity) 50

/-- The clamp to `[0, 1000]`. -/
def clamp (score : ℤ) : ℤ := if 1000 < score then 1000 else if score < 0 then 0 else score

/-- The tier of a score. -/
def tierOf (score : ℤ) : RiskTier :=
  if 750 ≤ score then .critical
  else if 500 ≤ score then .high
  else if 250 ≤ score then .medium
  else .low

/-- `evaluate`: an event without a positive price and quantity scores zero. -/
def evaluate (event : RiskEvent) : RiskResult :=
  if event.quantity.raw.val ≤ 0 ∨ event.price.raw.val ≤ 0 then ⟨event.id, 0, .low⟩
  else
    let score := clamp (priceScore event.price + qtyScore event.quantity +
      penalty event.price event.quantity)
    ⟨event.id, score, tierOf score⟩

end RiskEvaluator

end NullRing
