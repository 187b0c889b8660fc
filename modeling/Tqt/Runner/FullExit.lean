import Tqt.Runner.Thresholds

/-! Whether a symbol that left the book is sold whole.

The quantity to sell is recovered from the weight: the quotient of value and equity, times
equity, over the price, cut down to an integer. What the first division loses the others
restore only up to half a unit of their last digit, so the sale is whole exactly when weight
times equity stays above a bound that price and quantity determine (`fullExit_iff`); with a
weight of five elevenths the last share is left over (`fullExit_leaves_share`). -/
namespace Tqt
open Context

namespace Runner

/-! ### A symbol that left the book -/

/-- A held KR symbol that is not in the book, quoted at its mark. -/
structure Exits (targets : Dict Symbol Decimal) (snapshot : AccountSnapshot) (markets : List Country)
    (prices : Symbol → Option Decimal) (symbol : Symbol) (pos : Position) : Prop where
  equity : 0 < snapshot.equityIn fix
  held : snapshot.positions.get? symbol = some pos
  country : countryOf symbol = .KR
  currency : pos.currency = .KRW
  shares : ∃ n : ℕ, pos.quantity = n
  absent : symbol ∉ targets.keys
  market : Country.KR ∈ markets
  weight : band ≤ heldIn fix snapshot symbol
  quote : prices symbol = some (snapshot.prices.getD symbol pos.avgPrice)

/-- A sale of all that is held is planned. -/
def SellsWhole (targets : Dict Symbol Decimal) (snapshot : AccountSnapshot) (markets : List Country)
    (prices : Symbol → Option Decimal) (symbol : Symbol) (pos : Position) : Prop :=
  ∃ order ∈ buildIntentsIn fix targets snapshot markets prices,
    order.1.symbol = symbol ∧ order.1.side = .SELL ∧ order.1.quantity = some pos.quantity

namespace Exits
variable {targets : Dict Symbol Decimal} {snapshot : AccountSnapshot} {markets : List Country}
  {prices : Symbol → Option Decimal} {symbol : Symbol} {pos : Position}
  (h : Exits targets snapshot markets prices symbol pos)
include h

theorem held_eq : heldIn fix snapshot symbol =
    fix (fix (snapshot.prices.getD symbol pos.avgPrice * pos.quantity) / snapshot.equityIn fix) := by
  have hvalue : snapshot.valueIn fix symbol pos =
      fix (snapshot.prices.getD symbol pos.avgPrice * pos.quantity) := by
    unfold AccountSnapshot.valueIn
    rw [h.currency]
    rfl
  rw [heldIn, AccountSnapshot.weightsIn, if_neg (not_le.mpr h.equity), Dict.getD, Dict.get?_mapValues,
    h.held, Option.map_some, Option.getD_some, hvalue]

theorem held_pos : 0 < heldIn fix snapshot symbol := band_pos.trans_le h.weight

/-- A weight comes from a price and a count that are both positive. -/
theorem price_pos_and_quantity_pos :
    0 < snapshot.prices.getD symbol pos.avgPrice ∧ 0 < pos.quantity := by
  have hheld := h.held_pos
  rw [h.held_eq, fix_pos, div_pos_iff_of_pos_right h.equity, fix_pos] at hheld
  obtain ⟨n, hn⟩ := h.shares
  have hqty : 0 ≤ pos.quantity := by
    rw [hn]
    exact Nat.cast_nonneg n
  have hpos := hqty.lt_of_ne' fun hzero => by simp [hzero] at hheld
  exact ⟨(mul_pos_iff_of_pos_right hpos).mp hheld, hpos⟩

/-- The order that is planned, if any. -/
theorem planSymbolIn_eq :
    planSymbolIn fix targets snapshot markets prices symbol =
      let held := heldIn fix snapshot symbol
      let price := snapshot.prices.getD symbol pos.avgPrice
      let qty := truncate (fix (fix (held * snapshot.equityIn fix) / fix price))
      if qty ≤ 0 ∨ sellQuantity symbol qty pos ≤ 0 then none
      else some (-held, makeIntent symbol .SELL (sellQuantity symbol qty pos) 0 held, price) := by
  have hheld := h.held_pos
  have hprice := h.price_pos_and_quantity_pos.1
  have hwant : targets.getD symbol 0 = 0 := by
    rw [Dict.getD, (targets.get?_eq_none symbol).mpr h.absent, Option.getD_none]
  have hfix : fix (heldIn fix snapshot symbol) = heldIn fix snapshot symbol := by
    rw [h.held_eq, fix_fix]
  have hdrift : fix (0 - heldIn fix snapshot symbol) = -heldIn fix snapshot symbol := by
    rw [zero_sub, fix_neg, hfix]
  have habs : fix |-heldIn fix snapshot symbol| = heldIn fix snapshot symbol := by
    rw [abs_neg, abs_of_pos hheld, hfix]
  have hfx : snapshot.fxOf symbol = 1 := by
    rw [AccountSnapshot.fxOf, h.country]
    rfl
  have hqty : quantityIn fix snapshot symbol (-heldIn fix snapshot symbol)
      (snapshot.prices.getD symbol pos.avgPrice) =
      truncate (fix (fix (heldIn fix snapshot symbol * snapshot.equityIn fix) /
        fix (snapshot.prices.getD symbol pos.avgPrice))) := by
    rw [quantityIn, habs, hfx, mul_one, wholeInKr, if_pos h.country]
  unfold planSymbolIn
  simp only [hwant, hdrift, habs]
  rw [if_neg (by rw [h.country]; exact not_or.mpr ⟨not_not.mpr h.market, h.weight.not_gt⟩)]
  simp only [h.quote, h.held, hqty]
  have hnot : ¬ snapshot.prices.getD symbol pos.avgPrice ≤ 0 := hprice.not_ge
  have hsell : ¬ 0 < -heldIn fix snapshot symbol := by linarith
  rw [if_neg hsell]
  by_cases hq : truncate (fix (fix (heldIn fix snapshot symbol * snapshot.equityIn fix) /
      fix (snapshot.prices.getD symbol pos.avgPrice))) ≤ 0
  · rw [if_pos (.inr hq), if_pos (.inl hq)]
  · rw [if_neg (not_or.mpr ⟨hnot, hq⟩)]
    simp only [hq, false_or]

theorem sellQuantity_eq {qty : Decimal} (hqty : Whole qty) :
    sellQuantity symbol qty pos = min qty pos.quantity := by
  obtain ⟨n, hn⟩ := h.shares
  have hshares : Whole pos.quantity := ⟨n, by rw [hn]; simp⟩
  rw [sellQuantity, wholeInKr, if_pos h.country, (hqty.min hshares).truncate_eq]

/-- The sale is whole when the recovered quantity is not below what is held. -/
theorem sellsWhole_iff : SellsWhole targets snapshot markets prices symbol pos ↔
    pos.quantity ≤ fix (fix (heldIn fix snapshot symbol * snapshot.equityIn fix) /
      fix (snapshot.prices.getD symbol pos.avgPrice)) := by
  have hpos := h.price_pos_and_quantity_pos.2
  have hplan := h.planSymbolIn_eq
  dsimp only at hplan
  rw [h.sellQuantity_eq (truncate_whole _)] at hplan
  constructor
  · rintro ⟨order, horder, hsymbol, -, hquantity⟩
    obtain ⟨-, symbol', drift, -, hplanned⟩ := (mem_buildIntentsIn ..).mp horder
    have hsame := (planSymbolIn_planned hplanned).intent_symbol
    rw [hsymbol] at hsame
    subst hsame
    rw [hplan] at hplanned
    split at hplanned
    · cases hplanned
    · next hqty =>
      cases hplanned
      rw [not_or, not_le, truncate_pos] at hqty
      have hmin := Option.some.inj hquantity
      exact (min_eq_right_iff.mp hmin).trans (truncate_le (zero_le_one.trans hqty.1))
  · intro hle
    obtain ⟨n, hn⟩ := h.shares
    have hshares : Whole pos.quantity := ⟨n, by rw [hn]; simp⟩
    have htruncate := le_truncate hshares hle (hpos.le.trans hle)
    rw [min_eq_right htruncate, if_neg (not_or.mpr
      ⟨(hpos.trans_le htruncate).not_ge, hpos.not_ge⟩)] at hplan
    refine ⟨_, (mem_buildIntentsIn ..).mpr ⟨h.equity, symbol, _, .inr ?_, hplan⟩, rfl, rfl, rfl⟩
    exact (snapshot.positions.mem_keys symbol).mpr ⟨pos, h.held⟩

/-- Where value, price and quantity need no rounding, a weight that was not rounded down is
sold whole. -/
theorem sellsWhole_of_le (hprice : Rounding.Digits precision (snapshot.prices.getD symbol pos.avgPrice))
    (hqty : Rounding.Digits precision pos.quantity)
    (hvalue : Rounding.Digits precision (snapshot.prices.getD symbol pos.avgPrice * pos.quantity))
    (hle : snapshot.prices.getD symbol pos.avgPrice * pos.quantity ≤
      heldIn fix snapshot symbol * snapshot.equityIn fix) :
    SellsWhole targets snapshot markets prices symbol pos := by
  obtain ⟨hp, hq⟩ := h.price_pos_and_quantity_pos
  rw [h.sellsWhole_iff, fix_of_digits hprice]
  have hamount := Cut.le_roundTo precision_pos hvalue (mul_pos hp hq) hle
  apply Cut.le_roundTo precision_pos hqty hq
  rw [le_div_iff₀ hp, mul_comm]
  exact hamount

end Exits

/-- **A symbol that left the book is sold whole** exactly when its weight times the equity, in
full, is an amount that the roundings after it still take to the quantity. -/
theorem fullExit_iff {targets : Dict Symbol Decimal} {snapshot : AccountSnapshot}
    {markets : List Country} {prices : Symbol → Option Decimal} {symbol : Symbol} {pos : Position}
    (h : Exits targets snapshot markets prices symbol pos) :
    SellsWhole targets snapshot markets prices symbol pos ↔
      (recoverable (snapshot.prices.getD symbol pos.avgPrice) pos.quantity).Mem
        (heldIn fix snapshot symbol * snapshot.equityIn fix) := by
  obtain ⟨hprice, hqty⟩ := h.price_pos_and_quantity_pos
  rw [mem_recoverable hprice hqty, h.sellsWhole_iff]

/-- Ten shares at 10,000 won, and so much cash. -/
def heldTen (cash : Decimal) : AccountSnapshot where
  cashKrw := cash
  positions := Dict.ofList [("005930", ⟨"005930", 10, 9000, .KRW⟩)]
  usdKrw := 1400
  prices := Dict.ofList [("005930", 10000)]

theorem heldTen_exits (cash : Decimal) (hequity : 0 < (heldTen cash).equityIn fix)
    (hweight : band ≤ heldIn fix (heldTen cash) "005930") :
    Exits (Dict.ofList [("069500", 1 / 2)]) (heldTen cash) [.KR] (fun _ => some 10000) "005930"
      ⟨"005930", 10, 9000, .KRW⟩ where
  equity := hequity
  held := rfl
  country := by decide +kernel
  currency := rfl
  shares := ⟨10, by norm_num⟩
  absent := by decide
  market := List.mem_singleton_self _
  weight := hweight
  quote := rfl

/-- Five eighths of the equity: the weight needs no rounding. -/
theorem fullExit_exact : SellsWhole (Dict.ofList [("069500", 1 / 2)]) (heldTen 60000) [.KR]
    (fun _ => some 10000) "005930" ⟨"005930", 10, 9000, .KRW⟩ :=
  (fullExit_iff (heldTen_exits 60000 (by decide +kernel) (by decide +kernel))).mpr (by decide +kernel)

/-- Five elevenths of the equity: nine of the ten shares are sold. -/
theorem fullExit_leaves_share :
    ¬ ∀ (targets : Dict Symbol Decimal) (snapshot : AccountSnapshot) (markets : List Country)
        (prices : Symbol → Option Decimal) (symbol : Symbol) (pos : Position),
      Exits targets snapshot markets prices symbol pos →
        SellsWhole targets snapshot markets prices symbol pos := by
  intro hall
  have hexits := heldTen_exits 120000 (by decide +kernel) (by decide +kernel)
  have hsells := hexits.sellsWhole_iff.mp (hall _ _ _ _ _ _ hexits)
  revert hsells
  decide +kernel

end Runner
end Tqt
