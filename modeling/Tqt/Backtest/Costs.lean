import Tqt.Universe
import Mathlib.Tactic.NormNum
import Mathlib.Tactic.Positivity
import Mathlib.Tactic.FieldSimp

/-! Transaction costs.

`CostModel` carries what its constructor checks: the five rates that must not be
negative. `costOf` prices one fill in the instrument's own currency. The facts the
ledgers rest on are at the end: a BUY costs `buyRate` of its notional
(`costOf_buy_total`), which the affordability factor of the backtester covers
(`buy_total_le_affordable`), and a KR sale pays for its own charges (`sell_kr_total_le`). -/
namespace Tqt

/-- Cost breakdown of a single fill. -/
structure TradeCost where
  commission : Decimal := 0
  tax : Decimal := 0
  regulatory : Decimal := 0
  slippage : Decimal := 0
  fx : Decimal := 0
deriving DecidableEq, Repr

namespace TradeCost

def total (c : TradeCost) : Decimal := c.commission + c.tax + c.regulatory + c.slippage + c.fx

instance : Add TradeCost where
  add a b :=
    { commission := a.commission + b.commission
      tax := a.tax + b.tax
      regulatory := a.regulatory + b.regulatory
      slippage := a.slippage + b.slippage
      fx := a.fx + b.fx }

end TradeCost

def bps : Decimal := 1 / 10000
def krStockSellTax : Decimal := 15 / 10000
def krEtfSellTax : Decimal := 0
def usSecFeeRate : Decimal := 278 / 10000000
def usTafPerShare : Decimal := 166 / 1000000
def usTafCap : Decimal := 83 / 10

/-- The rates of `CostModel`, with what `__post_init__` enforces. -/
structure CostModel where
  krCommissionRate : Decimal := 15 / 100000
  usCommissionRate : Decimal := 1 / 1000
  krStockSellTax : Decimal := Tqt.krStockSellTax
  krEtfSellTax : Decimal := Tqt.krEtfSellTax
  usSecFeeRate : Decimal := Tqt.usSecFeeRate
  usTafPerShare : Decimal := Tqt.usTafPerShare
  fxSpreadRate : Decimal := 1 / 1000
  chargeFxOnUsTrades : Bool := true
  slippageBpsKr : Decimal := 10
  slippageBpsUs : Decimal := 5
  krCommissionRate_nonneg : 0 ≤ krCommissionRate := by norm_num
  usCommissionRate_nonneg : 0 ≤ usCommissionRate := by norm_num
  fxSpreadRate_nonneg : 0 ≤ fxSpreadRate := by norm_num
  slippageBpsKr_nonneg : 0 ≤ slippageBpsKr := by norm_num
  slippageBpsUs_nonneg : 0 ≤ slippageBpsUs := by norm_num

namespace CostModel

/-- `CostModel()`. -/
def defaults : CostModel := {}

def commissionRate (cm : CostModel) : Country → Decimal
  | .KR => cm.krCommissionRate
  | .US => cm.usCommissionRate

def slippageRate (cm : CostModel) : Country → Decimal
  | .KR => cm.slippageBpsKr * bps
  | .US => cm.slippageBpsUs * bps

def sellTaxRate (cm : CostModel) (country : Country) (isEtf : Bool) : Decimal :=
  if country ≠ .KR then 0 else if isEtf then cm.krEtfSellTax else cm.krStockSellTax

/-- Cost of one fill, denominated in the instrument's own currency. -/
def costOf (cm : CostModel) (side : Side) (country : Country) (price quantity : Decimal)
    (isEtf : Bool) (includeSlippage : Bool) : TradeCost :=
  let notional := |price * quantity|
  if notional = 0 then {} else
    { commission := notional * cm.commissionRate country
      tax := if side = .SELL then notional * cm.sellTaxRate country isEtf else 0
      regulatory :=
        if side = .SELL ∧ country = .US then
          notional * cm.usSecFeeRate + min (|quantity| * cm.usTafPerShare) usTafCap
        else 0
      slippage := if includeSlippage then notional * cm.slippageRate country else 0
      fx := if country = .US ∧ cm.chargeFxOnUsTrades then notional * cm.fxSpreadRate else 0 }

/-! ### What a BUY costs -/

theorem commissionRate_nonneg (cm : CostModel) (country : Country) :
    0 ≤ cm.commissionRate country := by
  cases country
  · exact cm.krCommissionRate_nonneg
  · exact cm.usCommissionRate_nonneg

theorem slippageRate_nonneg (cm : CostModel) (country : Country) :
    0 ≤ cm.slippageRate country := by
  have hbps : (0 : Decimal) ≤ bps := by norm_num [bps]
  cases country
  · exact mul_nonneg cm.slippageBpsKr_nonneg hbps
  · exact mul_nonneg cm.slippageBpsUs_nonneg hbps

/-- The FX spread a trade pays: the model's rate, or nothing. -/
def fxRate (cm : CostModel) (country : Country) : Decimal :=
  if country = .US ∧ cm.chargeFxOnUsTrades then cm.fxSpreadRate else 0

theorem fxRate_nonneg (cm : CostModel) (country : Country) : 0 ≤ cm.fxRate country := by
  unfold fxRate
  split
  · exact cm.fxSpreadRate_nonneg
  · exact le_refl 0

/-- A BUY without slippage costs its commission and its FX spread, nothing else. -/
theorem costOf_buy_total (cm : CostModel) (country : Country) (price quantity : Decimal)
    (isEtf : Bool) :
    (cm.costOf .BUY country price quantity isEtf false).total =
      |price * quantity| * (cm.commissionRate country + cm.fxRate country) := by
  unfold costOf fxRate TradeCost.total
  by_cases h0 : |price * quantity| = 0
  · simp [h0]
  · simp only [h0, if_false, reduceCtorEq, false_and, Bool.false_eq_true]
    split <;> ring

theorem costOf_commission (cm : CostModel) (side : Side) (country : Country)
    (price quantity : Decimal) (isEtf includeSlippage : Bool) :
    (cm.costOf side country price quantity isEtf includeSlippage).commission =
      |price * quantity| * cm.commissionRate country := by
  unfold costOf
  by_cases h0 : |price * quantity| = 0
  · simp [h0]
  · simp only [h0, if_false]

theorem costOf_slippage (cm : CostModel) (side : Side) (country : Country)
    (price quantity : Decimal) (isEtf : Bool) :
    (cm.costOf side country price quantity isEtf false).slippage = 0 := by
  unfold costOf
  simp only [Bool.false_eq_true, if_false]
  split <;> rfl

/-- Price and charges of a BUY stay below the price scaled by both factors. -/
theorem buy_total_le_affordable (cm : CostModel) (country : Country) {price quantity : Decimal}
    (isEtf : Bool) (hp : 0 ≤ price) (hq : 0 ≤ quantity) :
    price * quantity + (cm.costOf .BUY country price quantity isEtf false).total ≤
      price * quantity * ((1 + cm.commissionRate country) * (1 + cm.fxRate country)) := by
  rw [costOf_buy_total, abs_of_nonneg (mul_nonneg hp hq)]
  have hcross : 0 ≤ price * quantity * (cm.commissionRate country * cm.fxRate country) :=
    mul_nonneg (mul_nonneg hp hq)
      (mul_nonneg (cm.commissionRate_nonneg country) (cm.fxRate_nonneg country))
  calc price * quantity + price * quantity * (cm.commissionRate country + cm.fxRate country)
      ≤ price * quantity + price * quantity * (cm.commissionRate country + cm.fxRate country) +
          price * quantity * (cm.commissionRate country * cm.fxRate country) :=
        le_add_of_nonneg_right hcross
    _ = price * quantity * ((1 + cm.commissionRate country) * (1 + cm.fxRate country)) := by ring

/-- A KR sale without slippage pays commission and tax, so it pays for itself as long as
the two rates stay below one. -/
theorem sell_kr_total_le (cm : CostModel) {price quantity : Decimal} (isEtf : Bool)
    (hrates : cm.krCommissionRate + cm.sellTaxRate .KR isEtf ≤ 1) (hp : 0 ≤ price)
    (hq : 0 ≤ quantity) :
    (cm.costOf .SELL .KR price quantity isEtf false).total ≤ price * quantity := by
  have hn : 0 ≤ price * quantity := mul_nonneg hp hq
  unfold costOf TradeCost.total
  rw [abs_of_nonneg hn]
  by_cases h0 : price * quantity = 0
  · simp [h0]
  · simp only [h0, if_false, if_true, reduceCtorEq, and_false, false_and, Bool.false_eq_true,
      commissionRate]
    calc price * quantity * cm.krCommissionRate + price * quantity * cm.sellTaxRate .KR isEtf +
          0 + 0 + 0
        = price * quantity * (cm.krCommissionRate + cm.sellTaxRate .KR isEtf) := by ring
      _ ≤ price * quantity := mul_le_of_le_one_right hn hrates

/-- The documented rates leave something of the proceeds. -/
theorem default_kr_rates (isEtf : Bool) :
    defaults.krCommissionRate + defaults.sellTaxRate .KR isEtf ≤ 1 := by
  cases isEtf <;> decide +kernel

end CostModel
end Tqt
