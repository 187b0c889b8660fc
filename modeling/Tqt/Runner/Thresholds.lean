import Tqt.Foundation.Context
import Tqt.Runner.Plan

/-! What it takes for the code's planner to order.

With the context's roundings (`Context.fix`) the planner compares numbers that have been
rounded up to six times. Each comparison is pulled back through its roundings to a bound on
the one number it is about: what a weight times the equity has to reach for a quantity to be
recovered (`recoverable`), how far a target has to be from the weight held for the drift to
count (`wide`) and to be worth a share (`worthShare`). A symbol whose gap is beyond them is
`Exposed`, and exactly those are ordered (`exposed_iff`). -/
namespace Tqt.Runner
open Context

/-- The amounts from which the roundings that follow still recover the quantity: rounded to
the context's digits, divided by the price and rounded once more. -/
def recoverable (price quantity : Decimal) : Cut :=
  (((⟨quantity, true⟩ : Cut).unround precision).scale (fix price)).unround precision

/-- The gaps between a target and a weight that are not under 1%. -/
def wide : Cut := (⟨band, true⟩ : Cut).unround precision

/-- The gaps that are worth a share at a price and an equity. -/
def worthShare (price equity : Decimal) : Cut :=
  ((recoverable price 1).scale equity⁻¹).unround precision

section
variable {price quantity equity amount gap : Decimal}

theorem recoverable_bound_pos (hprice : 0 < price) (hqty : 0 < quantity) :
    0 < (recoverable price quantity).bound := by
  have hfirst : 0 < ((⟨quantity, true⟩ : Cut).unround precision).bound :=
    Cut.unround_bound_pos precision_pos hqty
  have hscaled : 0 < (((⟨quantity, true⟩ : Cut).unround precision).scale (fix price)).bound :=
    mul_pos hfirst (fix_pos.mpr hprice)
  exact Cut.unround_bound_pos precision_pos hscaled

theorem mem_recoverable (hprice : 0 < price) (hqty : 0 < quantity) :
    (recoverable price quantity).Mem amount ↔ quantity ≤ fix (fix amount / fix price) := by
  have hfix := fix_pos.mpr hprice
  have hfirst : 0 < ((⟨quantity, true⟩ : Cut).unround precision).bound :=
    Cut.unround_bound_pos precision_pos hqty
  have hscaled : 0 < (((⟨quantity, true⟩ : Cut).unround precision).scale (fix price)).bound :=
    mul_pos hfirst hfix
  rw [recoverable, Cut.mem_unround precision_pos hscaled, Cut.mem_scale hfix,
    Cut.mem_unround precision_pos hqty]
  unfold Cut.Mem
  simp [le_iff_lt_or_eq, fix]

theorem mem_wide : wide.Mem gap ↔ band ≤ fix gap := by
  rw [wide, Cut.mem_unround precision_pos band_pos]
  unfold Cut.Mem
  simp [le_iff_lt_or_eq, fix]

theorem wide_pos (h : wide.Mem gap) : 0 < gap := fix_pos.mp (band_pos.trans_le (mem_wide.mp h))

theorem mem_worthShare (hprice : 0 < price) (hequity : 0 < equity) :
    (worthShare price equity).Mem gap ↔ 1 ≤ fix (fix (fix gap * equity) / fix price) := by
  have hinv := inv_pos.mpr hequity
  have hscaled : 0 < ((recoverable price 1).scale equity⁻¹).bound :=
    mul_pos (recoverable_bound_pos hprice one_pos) hinv
  rw [worthShare, Cut.mem_unround precision_pos hscaled, Cut.mem_scale hinv, div_inv_eq_mul,
    mem_recoverable hprice one_pos]
  rfl

end

/-- From the weight held up to what is wanted, or back down. -/
def gap (want have' : Decimal) : Side → Decimal
  | .BUY => want - have'
  | .SELL => have' - want

/-- A symbol of which the account holds too little, or too much, for the planner to leave it:
by 1% of the equity or more and, in Korea, by a share or more. -/
structure Exposed (want : Decimal) (snapshot : AccountSnapshot) (markets : List Country)
    (prices : Symbol → Option Decimal) (symbol : Symbol) (side : Side) : Prop where
  equity : 0 < snapshot.equityIn fix
  market : countryOf symbol ∈ markets
  wide : wide.Mem (gap want (heldIn fix snapshot symbol) side)
  worth : ∃ price, prices symbol = some price ∧ 0 < price ∧ 0 < snapshot.fxOf symbol ∧
    (countryOf symbol = .KR →
      (worthShare price (snapshot.equityIn fix)).Mem (gap want (heldIn fix snapshot symbol) side))
  held : side = .SELL → ∃ pos, snapshot.positions.get? symbol = some pos ∧
    0 < wholeInKr symbol pos.quantity

section
variable {targets : Dict Symbol Decimal} {snapshot : AccountSnapshot} {markets : List Country}
  {prices : Symbol → Option Decimal} {symbol : Symbol}

/-- The size of the drift, whatever its sign, is the gap rounded once. -/
theorem quantityIn_pos_iff {drift price gap : Decimal} (hdrift : |drift| = fix gap) (hgap : 0 < gap)
    (hequity : 0 < snapshot.equityIn fix) (hprice : 0 < price) :
    0 < quantityIn fix snapshot symbol drift price ↔ 0 < snapshot.fxOf symbol ∧
      (countryOf symbol = .KR → (worthShare price (snapshot.equityIn fix)).Mem gap) := by
  rw [quantityIn, hdrift, fix_fix, mem_worthShare hprice hequity, wholeInKr]
  have hnotional : 0 < fix (fix gap * snapshot.equityIn fix) :=
    fix_pos.mpr (mul_pos (fix_pos.mpr hgap) hequity)
  cases hcountry : countryOf symbol with
  | KR =>
    have hfx : snapshot.fxOf symbol = 1 := by
      rw [AccountSnapshot.fxOf, hcountry]
      rfl
    simp [hfx, truncate_pos]
  | US => simp [fix_pos, hnotional, hprice]

theorem sellQuantity_pos_iff {qty : Decimal} {pos : Position} (hqty : 0 < wholeInKr symbol qty) :
    0 < sellQuantity symbol (wholeInKr symbol qty) pos ↔ 0 < wholeInKr symbol pos.quantity := by
  unfold sellQuantity
  unfold wholeInKr at hqty ⊢
  cases hcountry : countryOf symbol with
  | KR =>
    rw [hcountry] at hqty
    have hone := (truncate_whole qty).one_le hqty
    simp [truncate_pos, hone]
  | US =>
    rw [hcountry] at hqty
    simpa using fun _ => hqty

/-- The drift is far enough, in the direction of its sign, when the gap is. -/
theorem wide_iff_far {gap : Decimal} : wide.Mem gap ↔ 0 ≤ fix gap ∧ band ≤ fix |fix gap| := by
  rw [mem_wide]
  constructor
  · intro h
    have hnonneg := band_pos.le.trans h
    rw [abs_of_nonneg hnonneg, fix_fix]
    exact ⟨hnonneg, h⟩
  · intro h
    obtain ⟨hnonneg, hfar⟩ := h
    rwa [abs_of_nonneg hnonneg, fix_fix] at hfar

theorem exposed_buy_iff : Exposed (targets.getD symbol 0) snapshot markets prices symbol .BUY ↔
    0 < snapshot.equityIn fix ∧ ∃ drift intent price,
      planSymbolIn fix targets snapshot markets prices symbol = some (drift, intent, price) ∧
        intent.side = .BUY := by
  rw [planSymbolIn_buy_iff rfl]
  constructor
  · intro h
    obtain ⟨hequity, hmarket, hwide, ⟨price, hp, hpos, hworth⟩, -⟩ := h
    have hgap := wide_pos hwide
    have hup : 0 < fix (targets.getD symbol 0 - heldIn fix snapshot symbol) := fix_pos.mpr hgap
    exact ⟨hequity, hmarket, hup, (wide_iff_far.mp hwide).2, price, hp, hpos,
      (quantityIn_pos_iff (abs_of_pos hup) hgap hequity hpos).mpr hworth⟩
  · intro h
    obtain ⟨hequity, hmarket, hup, hfar, price, hp, hpos, hqty⟩ := h
    exact ⟨hequity, hmarket, wide_iff_far.mpr ⟨hup.le, hfar⟩, ⟨price, hp, hpos,
      (quantityIn_pos_iff (abs_of_pos hup) (fix_pos.mp hup) hequity hpos).mp hqty⟩, nofun⟩

theorem exposed_sell_iff : Exposed (targets.getD symbol 0) snapshot markets prices symbol .SELL ↔
    0 < snapshot.equityIn fix ∧ ∃ drift intent price,
      planSymbolIn fix targets snapshot markets prices symbol = some (drift, intent, price) ∧
        intent.side = .SELL := by
  -- The drift of a sale is the gap with its sign turned.
  have hdrift : fix (targets.getD symbol 0 - heldIn fix snapshot symbol) =
      -fix (heldIn fix snapshot symbol - targets.getD symbol 0) := by
    rw [← fix_neg, neg_sub]
  rw [planSymbolIn_sell_iff hdrift, Left.neg_nonpos_iff, abs_neg]
  constructor
  · intro h
    obtain ⟨hequity, hmarket, hwide, ⟨price, hp, hpos, hworth⟩, hheld⟩ := h
    obtain ⟨pos, hget, hshare⟩ := hheld rfl
    have hgap := wide_pos hwide
    have hfix : 0 < fix (heldIn fix snapshot symbol - targets.getD symbol 0) := fix_pos.mpr hgap
    have hqty := (quantityIn_pos_iff ((abs_neg _).trans (abs_of_pos hfix)) hgap hequity hpos).mpr hworth
    obtain ⟨hnonneg, hfar⟩ := wide_iff_far.mp hwide
    exact ⟨hequity, hmarket, hnonneg, hfar, pos, price, hget, hp, hpos, hqty,
      (sellQuantity_pos_iff hqty).mpr hshare⟩
  · intro h
    obtain ⟨hequity, hmarket, hnonneg, hfar, pos, price, hget, hp, hpos, hqty, hsell⟩ := h
    have hwide := wide_iff_far.mpr ⟨hnonneg, hfar⟩
    have hfix := (fix_pos.mpr (wide_pos hwide))
    exact ⟨hequity, hmarket, hwide, ⟨price, hp, hpos,
      (quantityIn_pos_iff ((abs_neg _).trans (abs_of_pos hfix)) (wide_pos hwide) hequity hpos).mp hqty⟩,
      fun _ => ⟨pos, hget, (sellQuantity_pos_iff hqty).mp hsell⟩⟩

/-- A symbol that is neither wanted nor held has no gap. -/
theorem Exposed.listed {side : Side}
    (h : Exposed (targets.getD symbol 0) snapshot markets prices symbol side) :
    symbol ∈ targets.keys ∨ symbol ∈ snapshot.positions.keys := by
  by_contra hnot
  rw [not_or, ← Dict.get?_eq_none, ← Dict.get?_eq_none] at hnot
  have hwant : targets.getD symbol 0 = 0 := by rw [Dict.getD, hnot.1, Option.getD_none]
  have hheld : heldIn fix snapshot symbol = 0 := by
    unfold heldIn AccountSnapshot.weightsIn
    split
    · rfl
    · rw [Dict.getD, Dict.get?_mapValues, hnot.2]
      rfl
  have hgap := wide_pos h.wide
  rw [hwant, hheld] at hgap
  cases side with
  | BUY => exact absurd hgap (by simp [gap])
  | SELL => exact absurd hgap (by simp [gap])

/-- **A symbol is ordered in a direction** exactly when it is exposed. -/
theorem exposed_iff {side : Side} :
    Exposed (targets.getD symbol 0) snapshot markets prices symbol side ↔
      ∃ order ∈ buildIntentsIn fix targets snapshot markets prices,
        order.1.symbol = symbol ∧ order.1.side = side := by
  have hplanned : Exposed (targets.getD symbol 0) snapshot markets prices symbol side ↔
      0 < snapshot.equityIn fix ∧ ∃ drift intent price,
        planSymbolIn fix targets snapshot markets prices symbol = some (drift, intent, price) ∧
          intent.side = side := by
    cases side with
    | BUY => exact exposed_buy_iff
    | SELL => exact exposed_sell_iff
  constructor
  · intro h
    obtain ⟨hequity, drift, intent, price, hplan, hside⟩ := hplanned.mp h
    exact ⟨(intent, price), (mem_buildIntentsIn ..).mpr ⟨hequity, symbol, drift, h.listed, hplan⟩,
      (planSymbolIn_planned hplan).intent_symbol, hside⟩
  · intro h
    obtain ⟨⟨intent, price⟩, hmem, hsymbol, hside⟩ := h
    obtain ⟨hequity, symbol', drift, -, hplan⟩ := (mem_buildIntentsIn ..).mp hmem
    obtain rfl : symbol' = symbol := (planSymbolIn_planned hplan).intent_symbol.symm.trans hsymbol
    exact hplanned.mpr ⟨hequity, drift, intent, price, hplan, hside⟩

end
end Tqt.Runner
