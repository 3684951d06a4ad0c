import NullRing.Evaluator.Basic
import NullRing.FixedPoint.Order

set_option relaxedAutoImplicit false
set_option autoImplicit false

/-!
# Monotonicity of the risk score

The sums of bands of the evaluator telescope into staircases: the price component starts at 400
and goes down at each price threshold, the quantity component starts at 10 and goes up at each
quantity threshold. Every monotonicity statement follows from that of a single step. The one
term that goes up with the price is the penalty on a high price with a huge quantity, so the
score goes down with the price outside that corner.

## Main definitions

* `RiskTier.rank` — the value of the enumerator; `RiskTier.Band` — the scores of a tier.
* `RiskEvaluator.total` — the score before the clamp.

## Main results

* `RiskEvaluator.priceScore_eq`, `RiskEvaluator.qtyScore_eq` — the staircases.
* `RiskEvaluator.evaluate_monotone` — the score against quantity and price, and its bands.
-/

namespace NullRing

/-- The value of the enumerator. -/
def RiskTier.rank : RiskTier → ℕ
  | .low => 0
  | .medium => 1
  | .high => 2
  | .critical => 3

/-- The scores of a tier, as the enumerators are documented. -/
def RiskTier.Band : RiskTier → ℤ → Prop
  | .low, score => 0 ≤ score ∧ score ≤ 249
  | .medium, score => 250 ≤ score ∧ score ≤ 499
  | .high, score => 500 ≤ score ∧ score ≤ 749
  | .critical, score => 750 ≤ score ∧ score ≤ 1000

namespace RiskEvaluator

open FixedPoint

/-! ## Staircases -/

/-- A weighted comparison grows with the comparison. -/
lemma weight_mono {a b : Prop} [Decidable a] [Decidable b] (h : a → b) {w : ℤ} (hw : 0 ≤ w) :
    weight a w ≤ weight b w := by
  unfold weight
  split_ifs with ha hb
  · exact le_rfl
  · exact absurd (h ha) hb
  · exact hw
  · exact le_rfl

/-- A weighted comparison that fails adds nothing. -/
lemma weight_of_not {a : Prop} [Decidable a] (h : ¬ a) (w : ℤ) : weight a w = 0 := if_neg h

/-- A threshold counted from below is the weight less the threshold counted from above. -/
lemma weight_lt {p : Precision} (x t : FixedPoint p) (w : ℤ) :
    weight (x < t) w = w - weight (t ≤ x) w := by
  unfold weight
  split_ifs with h1 h2 h2
  · exact absurd h2 h1.not_ge
  · omega
  · omega
  · exact absurd (not_lt.mp h1) h2

/-- A band between two thresholds is the difference of the thresholds. -/
lemma weight_band {p : Precision} {s t : FixedPoint p} (hst : s ≤ t) (x : FixedPoint p) (w : ℤ) :
    weight (s ≤ x ∧ x < t) w = weight (s ≤ x) w - weight (t ≤ x) w := by
  unfold weight
  by_cases h1 : s ≤ x
  · by_cases h2 : t ≤ x
    · simp [h1, h2, h2.not_gt]
    · simp [h1, h2, not_le.mp h2]
  · have h2 : ¬ t ≤ x := fun h => h1 (hst.trans h)
    simp [h1, h2]

/-- A weighted comparison is a multiple of the comparison. -/
lemma weight_eq_mul (a : Prop) [Decidable a] (w : ℤ) : weight a w = w * weight a 1 := by
  unfold weight
  split_ifs
  · rw [mul_one]
  · rw [mul_zero]

/-- **The price component is a descending staircase.** -/
lemma priceScore_eq (price : Price) :
    priceScore price = 400 - weight (pennyThreshold ≤ price) 100 - weight (lowPrice ≤ price) 150 -
      weight (midPrice ≤ price) 100 - weight (highPrice ≤ price) 30 := by
  unfold priceScore
  rw [weight_lt, weight_band (s := pennyThreshold) (by decide), weight_band (s := lowPrice)
    (by decide), weight_band (s := midPrice) (by decide)]
  simp only [weight_eq_mul _ 400, weight_eq_mul _ 300, weight_eq_mul _ 150, weight_eq_mul _ 50,
    weight_eq_mul _ 20, weight_eq_mul _ 100, weight_eq_mul _ 30]
  omega

/-- **The quantity component is an ascending staircase.** -/
lemma qtyScore_eq (quantity : Quantity) :
    qtyScore quantity = 10 + weight (tinyQty ≤ quantity) 40 + weight (smallQty ≤ quantity) 150 +
      weight (largeQty ≤ quantity) 150 + weight (hugeQty ≤ quantity) 150 := by
  unfold qtyScore
  rw [weight_lt, weight_band (s := tinyQty) (by decide), weight_band (s := smallQty)
    (by decide), weight_band (s := largeQty) (by decide)]
  simp only [weight_eq_mul _ 10, weight_eq_mul _ 50, weight_eq_mul _ 200, weight_eq_mul _ 350,
    weight_eq_mul _ 500, weight_eq_mul _ 40, weight_eq_mul _ 150]
  omega

/-! ## The score before the clamp -/

/-- The sum of the three components. -/
def total (price : Price) (quantity : Quantity) : ℤ :=
  priceScore price + qtyScore quantity + penalty price quantity

/-- The price component goes down with the price. -/
lemma priceScore_antitone {p₁ p₂ : Price} (hp : p₁ ≤ p₂) : priceScore p₂ ≤ priceScore p₁ := by
  rw [priceScore_eq, priceScore_eq]
  have h1 := weight_mono (fun h : pennyThreshold ≤ p₁ => h.trans hp) (w := 100) (by norm_num)
  have h2 := weight_mono (fun h : lowPrice ≤ p₁ => h.trans hp) (w := 150) (by norm_num)
  have h3 := weight_mono (fun h : midPrice ≤ p₁ => h.trans hp) (w := 100) (by norm_num)
  have h4 := weight_mono (fun h : highPrice ≤ p₁ => h.trans hp) (w := 30) (by norm_num)
  omega

/-- The quantity component goes up with the quantity. -/
lemma qtyScore_monotone {q₁ q₂ : Quantity} (hq : q₁ ≤ q₂) : qtyScore q₁ ≤ qtyScore q₂ := by
  rw [qtyScore_eq, qtyScore_eq]
  have h1 := weight_mono (fun h : tinyQty ≤ q₁ => h.trans hq) (w := 40) (by norm_num)
  have h2 := weight_mono (fun h : smallQty ≤ q₁ => h.trans hq) (w := 150) (by norm_num)
  have h3 := weight_mono (fun h : largeQty ≤ q₁ => h.trans hq) (w := 150) (by norm_num)
  have h4 := weight_mono (fun h : hugeQty ≤ q₁ => h.trans hq) (w := 150) (by norm_num)
  omega

/-- The penalty goes up with the quantity. -/
lemma penalty_monotone (price : Price) {q₁ q₂ : Quantity} (hq : q₁ ≤ q₂) :
    penalty price q₁ ≤ penalty price q₂ := by
  unfold penalty
  have h1 := weight_mono (fun h : price < pennyThreshold ∧ largeQty ≤ q₁ =>
    And.intro h.1 (h.2.trans hq)) (w := 200) (by norm_num)
  have h2 := weight_mono (fun h : highPrice ≤ price ∧ hugeQty ≤ q₁ =>
    And.intro h.1 (h.2.trans hq)) (w := 150) (by norm_num)
  have h3 := weight_mono (fun h : hugeQty ≤ q₁ => h.trans hq) (w := 50) (by norm_num)
  omega

/-- The penalty goes down with the price, outside the corner of high prices and huge
quantities. -/
lemma penalty_antitone {p₁ p₂ : Price} {quantity : Quantity} (hp : p₁ ≤ p₂)
    (hcorner : p₂ < highPrice ∨ quantity < hugeQty) :
    penalty p₂ quantity ≤ penalty p₁ quantity := by
  have hout : ∀ {p}, p ≤ p₂ → ¬ (highPrice ≤ p ∧ hugeQty ≤ quantity) := by
    intro p hle ⟨hhigh, hhuge⟩
    rcases hcorner with h | h
    · exact (hhigh.trans hle).not_gt h
    · exact hhuge.not_gt h
  unfold penalty
  have h1 := weight_mono (fun h : p₂ < pennyThreshold ∧ largeQty ≤ quantity =>
    And.intro (hp.trans_lt h.1) h.2) (w := 200) (by norm_num)
  rw [weight_of_not (hout le_rfl), weight_of_not (hout hp)]
  omega

/-- A weighted comparison is between zero and the weight. -/
lemma weight_bounds (a : Prop) [Decidable a] {w : ℤ} (hw : 0 ≤ w) :
    0 ≤ weight a w ∧ weight a w ≤ w := by
  unfold weight
  split_ifs
  · exact ⟨hw, le_rfl⟩
  · exact ⟨le_rfl, hw⟩

/-- The price component is in `[20, 400]`. -/
lemma priceScore_bounds (price : Price) : 20 ≤ priceScore price ∧ priceScore price ≤ 400 := by
  rw [priceScore_eq]
  have h1 := weight_bounds (pennyThreshold ≤ price) (w := 100) (by norm_num)
  have h2 := weight_bounds (lowPrice ≤ price) (w := 150) (by norm_num)
  have h3 := weight_bounds (midPrice ≤ price) (w := 100) (by norm_num)
  have h4 := weight_bounds (highPrice ≤ price) (w := 30) (by norm_num)
  omega

/-- The quantity component is in `[10, 500]`. -/
lemma qtyScore_bounds (quantity : Quantity) :
    10 ≤ qtyScore quantity ∧ qtyScore quantity ≤ 500 := by
  rw [qtyScore_eq]
  have h1 := weight_bounds (tinyQty ≤ quantity) (w := 40) (by norm_num)
  have h2 := weight_bounds (smallQty ≤ quantity) (w := 150) (by norm_num)
  have h3 := weight_bounds (largeQty ≤ quantity) (w := 150) (by norm_num)
  have h4 := weight_bounds (hugeQty ≤ quantity) (w := 150) (by norm_num)
  omega

/-- The penalty is in `[0, 250]`: a price is not both below a penny and high.

**Proof sketch.** Of the two large penalties at most one applies, as a high price is above a
penny. -/
lemma penalty_bounds (price : Price) (quantity : Quantity) :
    0 ≤ penalty price quantity ∧ penalty price quantity ≤ 250 := by
  unfold penalty
  have h1 := weight_bounds (price < pennyThreshold ∧ largeQty ≤ quantity) (w := 200) (by norm_num)
  have h2 := weight_bounds (highPrice ≤ price ∧ hugeQty ≤ quantity) (w := 150) (by norm_num)
  have h3 := weight_bounds (hugeQty ≤ quantity) (w := 50) (by norm_num)
  have hpenny : pennyThreshold ≤ highPrice := by decide
  rcases lt_or_ge price pennyThreshold with hp | hp
  · have hhigh : ¬ (highPrice ≤ price ∧ hugeQty ≤ quantity) :=
      fun h => (hp.trans_le hpenny).not_ge h.1
    rw [weight_of_not hhigh] at h2 ⊢
    omega
  · have hlow : ¬ (price < pennyThreshold ∧ largeQty ≤ quantity) := fun h => hp.not_gt h.1
    rw [weight_of_not hlow] at h1 ⊢
    omega

/-- **The scores do not overflow**: each component and each sum of them fits `std::int32_t`. -/
theorem scores_fit (price : Price) (quantity : Quantity) :
    Signed.Fits 32 (priceScore price) ∧ Signed.Fits 32 (qtyScore quantity) ∧
      Signed.Fits 32 (penalty price quantity) ∧
      Signed.Fits 32 (priceScore price + qtyScore quantity) ∧
      Signed.Fits 32 (total price quantity) := by
  have h1 := priceScore_bounds price
  have h2 := qtyScore_bounds quantity
  have h3 := penalty_bounds price quantity
  have h32 : (2 : ℤ) ^ (32 - 1) = 2147483648 := by norm_num
  unfold Signed.Fits total
  rw [h32]
  omega

/-! ## The evaluation -/

/-- Clamping keeps the order. -/
lemma clamp_monotone {s₁ s₂ : ℤ} (hs : s₁ ≤ s₂) : clamp s₁ ≤ clamp s₂ := by
  unfold clamp
  split_ifs <;> omega

/-- A clamped score is between 0 and 1000. -/
lemma clamp_bounds (score : ℤ) : 0 ≤ clamp score ∧ clamp score ≤ 1000 := by
  unfold clamp
  split_ifs <;> omega

/-- Higher scores are in higher tiers. -/
lemma rank_tierOf_monotone {s₁ s₂ : ℤ} (hs : s₁ ≤ s₂) :
    (tierOf s₁).rank ≤ (tierOf s₂).rank := by
  have hrank : ∀ t : RiskTier, t.rank ≤ 3 := by
    intro t
    cases t <;> decide
  by_cases h3 : 750 ≤ s₂
  · have : tierOf s₂ = .critical := if_pos h3
    rw [this]
    exact hrank (tierOf s₁)
  · unfold tierOf
    split_ifs <;> first | omega | decide

/-- The tier of a score in `[0, 1000]` is the one whose band contains it. -/
lemma band_iff {score : ℤ} (h0 : 0 ≤ score) (h1 : score ≤ 1000) (t : RiskTier) :
    t.Band score ↔ t = tierOf score := by
  unfold tierOf
  split_ifs
  all_goals
    cases t <;> simp only [RiskTier.Band, reduceCtorEq, iff_false, iff_true] <;> omega

/-- The guard of `evaluate`: no positive price and quantity. -/
def Unpriced (event : RiskEvent) : Prop := event.quantity.raw.val ≤ 0 ∨ event.price.raw.val ≤ 0

/-- An event without a positive price and quantity scores zero. -/
lemma score_of_unpriced {event : RiskEvent} (h : Unpriced event) : (evaluate event).score = 0 := by
  unfold Unpriced at h
  rw [evaluate, if_pos h]

/-- Any other event scores its clamped total. -/
lemma score_of_not_unpriced {event : RiskEvent} (h : ¬ Unpriced event) :
    (evaluate event).score = clamp (total event.price event.quantity) := by
  unfold Unpriced at h
  rw [evaluate, if_neg h]
  rfl

/-- The tier is that of the score, also for an event that the guard catches. -/
lemma tier_eq (event : RiskEvent) : (evaluate event).tier = tierOf (evaluate event).score := by
  unfold evaluate
  split_ifs <;> rfl

/-- Every score is in `[0, 1000]`. -/
lemma score_bounds (event : RiskEvent) :
    0 ≤ (evaluate event).score ∧ (evaluate event).score ≤ 1000 := by
  by_cases h : Unpriced event
  · rw [score_of_unpriced h]
    omega
  · rw [score_of_not_unpriced h]
    exact clamp_bounds _

/-- The score goes up with the quantity.

**Proof sketch.** An unpriced event has the least score. Otherwise both events are priced, the score
of the quantity and the penalty go up with the quantity, and clamping keeps the order. -/
lemma score_le_of_quantity_le {e₁ e₂ : RiskEvent} (hprice : e₁.price = e₂.price)
    (hqty : e₁.quantity ≤ e₂.quantity) : (evaluate e₁).score ≤ (evaluate e₂).score := by
  have hle : e₁.quantity.raw.val ≤ e₂.quantity.raw.val := hqty
  by_cases h1 : Unpriced e₁
  · rw [score_of_unpriced h1]
    exact (score_bounds e₂).1
  · have h2 : ¬ Unpriced e₂ := by
      unfold Unpriced at h1 ⊢
      rw [hprice] at h1
      omega
    rw [score_of_not_unpriced h1, score_of_not_unpriced h2]
    apply clamp_monotone
    unfold total
    rw [hprice]
    have hscore := qtyScore_monotone hqty
    have hpenalty := penalty_monotone e₂.price hqty
    omega

/-- The score goes down with a positive price, outside the corner of high prices and huge
quantities.

**Proof sketch.** Both events are priced. The score of the price goes down as the price goes up, and
so does the penalty outside the corner; clamping keeps the order. -/
lemma score_le_of_price_le {e₁ e₂ : RiskEvent} (hqty : e₁.quantity = e₂.quantity)
    (hpos : 0 < e₁.quantity.raw.val) (hprice : 0 < e₁.price.raw.val)
    (hle : e₁.price ≤ e₂.price) (hcorner : e₂.price < highPrice ∨ e₁.quantity < hugeQty) :
    (evaluate e₂).score ≤ (evaluate e₁).score := by
  have hraw : e₁.price.raw.val ≤ e₂.price.raw.val := hle
  have h1 : ¬ Unpriced e₁ := by
    unfold Unpriced
    omega
  have h2 : ¬ Unpriced e₂ := by
    unfold Unpriced
    rw [← hqty]
    omega
  rw [score_of_not_unpriced h1, score_of_not_unpriced h2]
  apply clamp_monotone
  unfold total
  rw [← hqty]
  have hscore := priceScore_antitone hle
  have hpenalty := penalty_antitone hle hcorner
  omega

/-- **The risk score is monotone in the way its rules intend.** With equal prices a larger
quantity never gives a lower score or tier. With equal positive quantities a lower positive
price never gives a lower score or tier, as long as the higher price is not high or the
quantity is not huge. Every score is in `[0, 1000]`, and the tier is the only one whose band
contains it.

**Proof sketch.** The components are staircases in one variable each, and the penalty is a sum
of steps that all go up with the quantity; all but one go down with the price, and the hypothesis
on the corner excludes that one. The clamp and the tiers are monotone, and the guard replaces a
score by the least one. -/
theorem evaluate_monotone :
    (∀ e₁ e₂ : RiskEvent, e₁.price = e₂.price → e₁.quantity ≤ e₂.quantity →
      (evaluate e₁).score ≤ (evaluate e₂).score ∧
      (evaluate e₁).tier.rank ≤ (evaluate e₂).tier.rank) ∧
    (∀ e₁ e₂ : RiskEvent, e₁.quantity = e₂.quantity → 0 < e₁.quantity.raw.val →
      0 < e₁.price.raw.val → e₁.price ≤ e₂.price →
      (e₂.price < highPrice ∨ e₁.quantity < hugeQty) →
      (evaluate e₂).score ≤ (evaluate e₁).score ∧
      (evaluate e₂).tier.rank ≤ (evaluate e₁).tier.rank) ∧
    ∀ e : RiskEvent, 0 ≤ (evaluate e).score ∧ (evaluate e).score ≤ 1000 ∧
      ∀ t : RiskTier, t.Band (evaluate e).score ↔ t = (evaluate e).tier := by
  refine ⟨?_, ?_, ?_⟩
  · intro e₁ e₂ hprice hqty
    have hle := score_le_of_quantity_le hprice hqty
    rw [tier_eq, tier_eq]
    exact ⟨hle, rank_tierOf_monotone hle⟩
  · intro e₁ e₂ hqty hpos hprice hprices hcorner
    have hle := score_le_of_price_le hqty hpos hprice hprices hcorner
    rw [tier_eq, tier_eq]
    exact ⟨hle, rank_tierOf_monotone hle⟩
  · intro e
    obtain ⟨h0, h1⟩ := score_bounds e
    rw [tier_eq]
    exact ⟨h0, h1, band_iff h0 h1⟩

/-- Ten and a thousand shares at five: the larger order scores no less. A thousand shares at
five and at fifty: the cheaper one scores no less. -/
theorem evaluate_monotone_example :
    let small : RiskEvent := ⟨1, ofRaw _ 500000000 (by decide), ofRaw _ 100000 (by decide)⟩
    let large : RiskEvent := ⟨2, ofRaw _ 500000000 (by decide), ofRaw _ 10000000 (by decide)⟩
    let dear : RiskEvent := ⟨3, ofRaw _ 5000000000 (by decide), ofRaw _ 10000000 (by decide)⟩
    (evaluate small).score ≤ (evaluate large).score ∧
      (evaluate dear).score ≤ (evaluate large).score := by
  intro small large dear
  have hqty := evaluate_monotone.1 small large rfl (by decide)
  have hprice := evaluate_monotone.2.1 large dear rfl (by decide) (by decide) (by decide)
    (Or.inl (by decide))
  exact ⟨hqty.1, hprice.1⟩

end RiskEvaluator

end NullRing
