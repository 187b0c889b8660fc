import Tqt.Backtest.Rebalance

/-! How costs grow.

The charges of a fill are a rate on its notional, plus the trading activity fee of a US sale,
which is by the share and capped (`costOf_total`). So costs grow with the price and with the
quantity, splitting a fill never saves anything, and only under the cap does it cost the same
(`cost_algebra`). A BUY stays under the price scaled by both factors of `affordablePrice`, and
meets it when no FX is charged. -/
namespace Tqt.CostModel

/-- The rates that the constructor does not look at. -/
structure SellRatesNonneg (cm : CostModel) : Prop where
  krStockSellTax : 0 ≤ cm.krStockSellTax
  krEtfSellTax : 0 ≤ cm.krEtfSellTax
  usSecFeeRate : 0 ≤ cm.usSecFeeRate
  usTafPerShare : 0 ≤ cm.usTafPerShare

variable (cm : CostModel) (side : Side) (country : Country) (isEtf includeSlippage : Bool)

/-- What every unit of notional is charged. -/
def chargeRate : Decimal :=
  cm.commissionRate country + (if side = .SELL then cm.sellTaxRate country isEtf else 0) +
    (if side = .SELL ∧ country = .US then cm.usSecFeeRate else 0) +
    (if includeSlippage then cm.slippageRate country else 0) + cm.fxRate country

/-- The trading activity fee. -/
def tafOf (quantity : Decimal) : Decimal :=
  if side = .SELL ∧ country = .US then min (quantity * cm.usTafPerShare) usTafCap else 0

/-- **A fill's total**, as a rate on its notional and a fee on its shares. -/
theorem costOf_total {price quantity : Decimal} (hp : 0 ≤ price) (hq : 0 ≤ quantity) :
    (cm.costOf side country price quantity isEtf includeSlippage).total =
      price * quantity * cm.chargeRate side country isEtf includeSlippage +
        if price * quantity = 0 then 0 else cm.tafOf side country quantity := by
  unfold costOf chargeRate tafOf fxRate TradeCost.total
  rw [abs_of_nonneg (mul_nonneg hp hq), abs_of_nonneg hq]
  by_cases h0 : price * quantity = 0
  · simp [h0]
  · simp only [h0, if_false]
    split_ifs <;> ring

section
variable {cm}

theorem sellTaxRate_nonneg (h : cm.SellRatesNonneg) : 0 ≤ cm.sellTaxRate country isEtf := by
  unfold sellTaxRate
  split
  · exact le_rfl
  · split
    · exact h.krEtfSellTax
    · exact h.krStockSellTax

theorem chargeRate_nonneg (h : cm.SellRatesNonneg) :
    0 ≤ cm.chargeRate side country isEtf includeSlippage := by
  have htax := sellTaxRate_nonneg country isEtf h
  have hsec := h.usSecFeeRate
  have hslip := cm.slippageRate_nonneg country
  have hcommission := cm.commissionRate_nonneg country
  have hfx := cm.fxRate_nonneg country
  unfold chargeRate
  split_ifs <;> linarith

theorem usTafCap_nonneg : 0 ≤ usTafCap := by norm_num [usTafCap]

theorem tafOf_nonneg (h : cm.SellRatesNonneg) {quantity : Decimal} (hq : 0 ≤ quantity) :
    0 ≤ cm.tafOf side country quantity := by
  unfold tafOf
  split
  · exact le_min (mul_nonneg hq h.usTafPerShare) usTafCap_nonneg
  · exact le_rfl

theorem tafOf_mono (h : cm.SellRatesNonneg) {fewer more : Decimal} (hle : fewer ≤ more) :
    cm.tafOf side country fewer ≤ cm.tafOf side country more := by
  unfold tafOf
  split
  · exact min_le_min_right _ (mul_le_mul_of_nonneg_right hle h.usTafPerShare)
  · exact le_rfl

/-- Each part of a split fill is capped for itself. -/
theorem tafOf_add_le (h : cm.SellRatesNonneg) {first second : Decimal} (hfirst : 0 ≤ first)
    (hsecond : 0 ≤ second) :
    cm.tafOf side country (first + second) ≤
      cm.tafOf side country first + cm.tafOf side country second := by
  have h1 := tafOf_nonneg side country h hfirst
  have h2 := tafOf_nonneg side country h hsecond
  unfold tafOf at *
  split_ifs at *
  · rcases le_total (first * cm.usTafPerShare) usTafCap with hle | hge
    · rcases le_total (second * cm.usTafPerShare) usTafCap with hle' | hge'
      · rw [min_eq_left hle, min_eq_left hle', ← add_mul]
        exact min_le_left _ _
      · rw [min_eq_right hge']
        exact le_trans (min_le_right _ _) (le_add_of_nonneg_left h1)
    · rw [min_eq_right hge]
      exact le_trans (min_le_right _ _) (le_add_of_nonneg_right h2)
  · rw [add_zero]

theorem tafOf_eq_zero (h : ¬ (side = .SELL ∧ country = .US)) (quantity : Decimal) :
    cm.tafOf side country quantity = 0 := if_neg h

/-! ### Growth -/

theorem total_nonneg (h : cm.SellRatesNonneg) {price quantity : Decimal} (hp : 0 ≤ price)
    (hq : 0 ≤ quantity) :
    0 ≤ (cm.costOf side country price quantity isEtf includeSlippage).total := by
  rw [costOf_total cm side country isEtf includeSlippage hp hq]
  have hrate := mul_nonneg (mul_nonneg hp hq) (chargeRate_nonneg side country isEtf includeSlippage h)
  have htaf := tafOf_nonneg side country h hq
  split <;> linarith

/-- More notional and no fewer shares cost no less. -/
theorem total_mono (h : cm.SellRatesNonneg) {price price' quantity quantity' : Decimal}
    (hp : 0 ≤ price) (hpp : price ≤ price') (hq : 0 ≤ quantity) (hqq : quantity ≤ quantity') :
    (cm.costOf side country price quantity isEtf includeSlippage).total ≤
      (cm.costOf side country price' quantity' isEtf includeSlippage).total := by
  have hp' : 0 ≤ price' := le_trans hp hpp
  have hq' : 0 ≤ quantity' := le_trans hq hqq
  rw [costOf_total cm side country isEtf includeSlippage hp hq,
    costOf_total cm side country isEtf includeSlippage hp' hq']
  have hnotional : price * quantity ≤ price' * quantity' := mul_le_mul hpp hqq hq hp'
  apply add_le_add
  · exact mul_le_mul_of_nonneg_right hnotional
      (chargeRate_nonneg side country isEtf includeSlippage h)
  · split
    · split
      · exact le_rfl
      · exact tafOf_nonneg side country h hq'
    · next h0 =>
      have hpos : 0 < price * quantity := lt_of_le_of_ne (mul_nonneg hp hq) (Ne.symm h0)
      rw [if_neg (lt_of_lt_of_le hpos hnotional).ne']
      exact tafOf_mono side country h hqq

/-! ### Splitting -/

theorem total_add_le (h : cm.SellRatesNonneg) {price first second : Decimal} (hp : 0 ≤ price)
    (hfirst : 0 ≤ first) (hsecond : 0 ≤ second) :
    (cm.costOf side country price (first + second) isEtf includeSlippage).total ≤
      (cm.costOf side country price first isEtf includeSlippage).total +
        (cm.costOf side country price second isEtf includeSlippage).total := by
  rw [costOf_total cm side country isEtf includeSlippage hp (add_nonneg hfirst hsecond),
    costOf_total cm side country isEtf includeSlippage hp hfirst,
    costOf_total cm side country isEtf includeSlippage hp hsecond, mul_add, add_mul]
  have h1 := tafOf_nonneg side country h hfirst
  have h2 := tafOf_nonneg side country h hsecond
  have hadd := tafOf_add_le side country h hfirst hsecond
  by_cases hz1 : price * first = 0
  · rcases mul_eq_zero.mp hz1 with rfl | rfl
    · simp
    · simp
  · by_cases hz2 : price * second = 0
    · rcases mul_eq_zero.mp hz2 with rfl | rfl
      · simp
      · simp
    · rw [if_neg hz1, if_neg hz2]
      split <;> linarith

/-- Away from the capped fee a split costs the same. -/
theorem total_add_eq (hside : ¬ (side = .SELL ∧ country = .US)) {price first second : Decimal}
    (hp : 0 ≤ price) (hfirst : 0 ≤ first) (hsecond : 0 ≤ second) :
    (cm.costOf side country price (first + second) isEtf includeSlippage).total =
      (cm.costOf side country price first isEtf includeSlippage).total +
        (cm.costOf side country price second isEtf includeSlippage).total := by
  rw [costOf_total cm side country isEtf includeSlippage hp (add_nonneg hfirst hsecond),
    costOf_total cm side country isEtf includeSlippage hp hfirst,
    costOf_total cm side country isEtf includeSlippage hp hsecond]
  simp only [tafOf_eq_zero side country hside, ite_self, add_zero]
  ring

end

/-! ### The affordability factor -/

/-- What the backtester scales a price by, as it is written there. -/
theorem affordable_factor (cfg : BacktestConfig) :
    (1 + cm.commissionRate cfg.country) *
        (if cfg.chargesFx cm then 1 + cm.fxSpreadRate else 1) =
      (1 + cm.commissionRate cfg.country) * (1 + cm.fxRate cfg.country) := by
  simp only [BacktestConfig.chargesFx, fxRate, Bool.and_eq_true, beq_iff_eq]
  split <;> ring

theorem buy_total_le_factor (cfg : BacktestConfig) {price quantity : Decimal} (hp : 0 ≤ price)
    (hq : 0 ≤ quantity) :
    price * quantity + (cm.costOf .BUY cfg.country price quantity isEtf false).total ≤
      price * quantity * (1 + cm.commissionRate cfg.country) *
        (if cfg.chargesFx cm then 1 + cm.fxSpreadRate else 1) := by
  rw [mul_assoc, affordable_factor]
  exact cm.buy_total_le_affordable cfg.country isEtf hp hq

theorem buy_total_eq_factor (cfg : BacktestConfig) (hfx : cfg.chargesFx cm = false)
    {price quantity : Decimal} (hp : 0 ≤ price) (hq : 0 ≤ quantity) :
    price * quantity + (cm.costOf .BUY cfg.country price quantity isEtf false).total =
      price * quantity * (1 + cm.commissionRate cfg.country) *
        (if cfg.chargesFx cm then 1 + cm.fxSpreadRate else 1) := by
  have hrate : cm.fxRate cfg.country = 0 := by
    simp only [BacktestConfig.chargesFx, Bool.and_eq_false_iff, beq_eq_false_iff_ne] at hfx
    unfold fxRate
    rw [if_neg]
    rintro ⟨hcountry, hcharge⟩
    rcases hfx with hne | hoff
    · exact hne hcountry
    · rw [hoff] at hcharge
      cases hcharge
  rw [hfx, costOf_buy_total, abs_of_nonneg (mul_nonneg hp hq), hrate]
  simp only [Bool.false_eq_true, if_false]
  ring

/-- **The algebra of costs**: never negative, growing with price and quantity, no cheaper in
parts and the same in parts but for US sales, and within the factor that a BUY is trimmed by. -/
theorem cost_algebra (h : cm.SellRatesNonneg) :
    (∀ price quantity, 0 ≤ price → 0 ≤ quantity →
      0 ≤ (cm.costOf side country price quantity isEtf includeSlippage).total) ∧
    (∀ price price' quantity, 0 ≤ price → price ≤ price' → 0 ≤ quantity →
      (cm.costOf side country price quantity isEtf includeSlippage).total ≤
        (cm.costOf side country price' quantity isEtf includeSlippage).total) ∧
    (∀ price quantity quantity', 0 ≤ price → 0 ≤ quantity → quantity ≤ quantity' →
      (cm.costOf side country price quantity isEtf includeSlippage).total ≤
        (cm.costOf side country price quantity' isEtf includeSlippage).total) ∧
    (∀ price first second, 0 ≤ price → 0 ≤ first → 0 ≤ second →
      (cm.costOf side country price (first + second) isEtf includeSlippage).total ≤
          (cm.costOf side country price first isEtf includeSlippage).total +
            (cm.costOf side country price second isEtf includeSlippage).total ∧
        (¬ (side = .SELL ∧ country = .US) →
          (cm.costOf side country price (first + second) isEtf includeSlippage).total =
            (cm.costOf side country price first isEtf includeSlippage).total +
              (cm.costOf side country price second isEtf includeSlippage).total)) ∧
    ∀ cfg : BacktestConfig, cfg.country = country → ∀ price quantity, 0 ≤ price → 0 ≤ quantity →
      price * quantity + (cm.costOf .BUY country price quantity isEtf false).total ≤
          price * quantity * (1 + cm.commissionRate country) *
            (if cfg.chargesFx cm then 1 + cm.fxSpreadRate else 1) ∧
        (cfg.chargesFx cm = false →
          price * quantity + (cm.costOf .BUY country price quantity isEtf false).total =
            price * quantity * (1 + cm.commissionRate country) *
              (if cfg.chargesFx cm then 1 + cm.fxSpreadRate else 1)) := by
  refine ⟨fun _ _ => total_nonneg side country isEtf includeSlippage h, ?_, ?_, ?_, ?_⟩
  · intro price price' quantity hp hpp hq
    exact total_mono side country isEtf includeSlippage h hp hpp hq le_rfl
  · intro price quantity quantity' hp hq hqq
    exact total_mono side country isEtf includeSlippage h hp le_rfl hq hqq
  · intro price first second hp h1 h2
    exact ⟨total_add_le side country isEtf includeSlippage h hp h1 h2, fun hside =>
      total_add_eq side country isEtf includeSlippage hside hp h1 h2⟩
  · rintro cfg rfl price quantity hp hq
    exact ⟨cm.buy_total_le_factor isEtf cfg hp hq, fun hfx =>
      cm.buy_total_eq_factor isEtf cfg hfx hp hq⟩

/-- The documented rates: selling ten shares at 100 in two halves. -/
theorem cost_algebra_defaults :
    (defaults.costOf .SELL .US 100 (5 + 5) true false).total ≤
      (defaults.costOf .SELL .US 100 5 true false).total +
        (defaults.costOf .SELL .US 100 5 true false).total := by
  have hrates : defaults.SellRatesNonneg :=
    ⟨by decide +kernel, by decide +kernel, by decide +kernel, by decide +kernel⟩
  exact ((defaults.cost_algebra .SELL .US true false hrates).2.2.2.1 100 5 5 (by norm_num)
    (by norm_num) (by norm_num)).1

end Tqt.CostModel
