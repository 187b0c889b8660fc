import Tqt.Execution.Filled
import Tqt.Risk

/-! The gate of a BUY, against the account it leads to.

The gate adds the order to the account in its own arithmetic, with the rate of the symbol's
market; the account values a position in the currency of the position, with another fallback for
a missing mark. Where currencies match markets both come to the same (`exposureKrw_eq`), so the
gate lets a BUY pass exactly when the account after it is within the limits
(`checkOrder_buy_agrees`). -/
namespace Tqt

/-- An account within the limits of the risk manager, as far as one symbol is concerned. -/
structure WithinLimits (rm : RiskManager) (symbol : Symbol) (snap : AccountSnapshot) : Prop where
  weight : ∃ w, snap.weights.get? symbol = some w ∧ w ≤ rm.weightLimitFor symbol
  gross : snap.positionValueKrw / snap.equityKrw ≤ rm.settings.maxGrossExposure
  cash : 0 ≤ snap.cashKrw

namespace RiskManager
open AccountSnapshot

theorem exposureKrw_eq {snap : AccountSnapshot} (hmatch : snap.Matching) (symbol : Symbol) :
    exposureKrw snap symbol = snap.exposure symbol := by
  unfold exposureKrw exposure
  cases hheld : snap.positions.get? symbol with
  | none => rfl
  | some pos => exact (valueKrw_of_currency (hmatch symbol pos hheld)).symm

/-- What the gate compares with the limits is what the account after the order has. -/
theorem withinLimits_filled_iff (rm : RiskManager) {snap : AccountSnapshot} {symbol : Symbol}
    {price : Decimal} (qty : Decimal) (hequity : 0 < snap.equityKrw) (hmatch : snap.Matching)
    (hmark : snap.AtMark symbol price) :
    WithinLimits rm symbol (snap.filled symbol qty price) ↔
      (exposureKrw snap symbol + price * qty * snap.fxOf symbol) / snap.equityKrw ≤
          rm.weightLimitFor symbol ∧
        (snap.positionValueKrw + price * qty * snap.fxOf symbol) / snap.equityKrw ≤
          rm.settings.maxGrossExposure ∧
        price * qty * snap.fxOf symbol ≤ snap.cashKrw := by
  have hweight := filled_weight qty hequity hmatch hmark
  have hvalue := filled_positionValueKrw qty hmatch hmark
  have hsame := filled_equityKrw qty hmatch hmark
  have hcash : (snap.filled symbol qty price).cashKrw =
      snap.cashKrw - price * qty * snap.fxOf symbol := rfl
  rw [exposureKrw_eq hmatch]
  constructor
  · rintro ⟨⟨w, hw, hlimit⟩, hgross, hnonneg⟩
    rw [hweight] at hw
    cases hw
    rw [hvalue, hsame] at hgross
    rw [hcash, sub_nonneg] at hnonneg
    exact ⟨hlimit, hgross, hnonneg⟩
  · rintro ⟨hlimit, hgross, hnonneg⟩
    refine ⟨⟨_, hweight, hlimit⟩, ?_, ?_⟩
    · rwa [hvalue, hsame]
    · rwa [hcash, sub_nonneg]

/-- **The gate and the account agree**: with budget left and no warnings a BUY passes exactly when
the account it would lead to, at its price and without charges, is within the limits. -/
theorem checkOrder_buy_agrees (rm : RiskManager) (st : Store) (now : Instant)
    {snap : AccountSnapshot} (ask : Symbol → Option (List String)) {intent : OrderIntent}
    {qty price : Decimal} (hbuy : intent.side = .BUY) (hqty : intent.quantity = some qty)
    (hamount : intent.orderAmount = none) (hequity : 0 < snap.equityKrw) (hmatch : snap.Matching)
    (hmark : snap.AtMark intent.symbol price) (hbudget : 0 < rm.remainingOrderBudget st now)
    (hwarnings : (rm.buyWarnings ask intent.symbol).2 = []) :
    (rm.checkOrder st now snap ask intent (some price)).2 = .allow ↔
      WithinLimits rm intent.symbol (snap.filled intent.symbol qty price) := by
  have hnotional : notionalKrw snap intent (some price) = price * qty * snap.fxOf intent.symbol := by
    rw [notionalKrw, hamount, hqty]
    rfl
  rw [checkOrder_buy_iff _ _ _ _ _ _ hbuy, hnotional,
    rm.withinLimits_filled_iff qty hequity hmatch hmark]
  constructor
  · rintro ⟨-, -, hweight, hgross, hcash, -⟩
    exact ⟨hweight, hgross, hcash⟩
  · rintro ⟨hweight, hgross, hcash⟩
    exact ⟨hequity, hbudget, hweight, hgross, hcash, hwarnings⟩

/-- The default limits, without a client. -/
def withoutClient : RiskManager := { brokerName := .paper, hasClient := false }

/-- Twelve more shares reach 16% of the equity and pass; 28 more reach 28% and do not. -/
theorem checkOrder_buy_agrees_mixed :
    (withoutClient.checkOrder {} ⟨⟨2026, 8, 17⟩, 0⟩ mixedBook (fun _ => none)
        (.market "005930" .BUY 12 "" "") (some 10000)).2 = .allow ∧
      ¬ WithinLimits withoutClient "005930" (mixedBook.filled "005930" 28 10000) := by
  constructor
  · refine (checkOrder_buy_agrees _ _ _ _ rfl rfl rfl (by decide +kernel) mixedBook_matching
      mixedBook_atMark (by decide +kernel) rfl).mpr ⟨⟨22 / 135, ?_, ?_⟩, ?_, ?_⟩ <;> decide +kernel
  · intro hlimits
    have hallow : (withoutClient.checkOrder {} ⟨⟨2026, 8, 17⟩, 0⟩ mixedBook (fun _ => none)
        (.market "005930" .BUY 28 "" "") (some 10000)).2 = .allow :=
      (checkOrder_buy_agrees _ _ _ _ rfl rfl rfl (by decide +kernel) mixedBook_matching
        mixedBook_atMark (by decide +kernel) rfl).mpr hlimits
    revert hallow
    decide +kernel

end RiskManager
end Tqt
