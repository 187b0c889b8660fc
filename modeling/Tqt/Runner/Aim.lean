import Tqt.Execution.Filled
import Tqt.Foundation.Sweep
import Tqt.Runner.Plan

/-! Where the planned orders lead.

On an account that is quoted at its marks (`Quoted`) a plan is well formed and aims at the
book (`Aimed`): one order a symbol, sales first, and filling any of them at its quote moves the
weight of its symbol towards the target and not past it (`planned_towards`). What is far from its
target and has a quote gets an order unless its quantity truncates to zero (`planned_of_far`). -/
namespace Tqt

/-- From `x` strictly towards `goal`, and not past it. -/
def Towards (x y goal : Decimal) : Prop := x < y ∧ y ≤ goal ∨ goal ≤ y ∧ y < x

/-- The signed quantity an order moves. -/
def OrderIntent.signed (intent : OrderIntent) : Decimal :=
  match intent.side with
  | .BUY => intent.quantity.getD 0
  | .SELL => -intent.quantity.getD 0

namespace Runner

section
variable (targets : Dict Symbol Decimal) (snapshot : AccountSnapshot) (markets : List Country)
  (prices : Symbol → Option Decimal)

/-- An account of positive equity and positive positions in the currencies of their markets; the
quotes of what is held are its marks. -/
structure Quoted : Prop where
  equity : 0 < snapshot.equityKrw
  rate : 0 < snapshot.usdKrw
  matching : snapshot.Matching
  shares : ∀ sym pos, snapshot.positions.get? sym = some pos → 0 < pos.quantity
  marks : ∀ sym px, prices sym = some px → snapshot.AtMark sym px

/-- The quantity that leads to the target, before it is cut to whole shares. -/
def aimedQuantity (symbol : Symbol) (price : Decimal) : Decimal :=
  let drift := targets.getD symbol 0 - held snapshot symbol
  let qty := |drift| * snapshot.equityKrw / (price * snapshot.fxOf symbol)
  match snapshot.positions.get? symbol with
  | some pos => if drift < 0 then min qty pos.quantity else qty
  | none => qty

/-- What is asked of an order on its own. -/
structure WellFormed (intent : OrderIntent) : Prop where
  market : countryOf intent.symbol ∈ markets
  positive : ∃ qty, intent.quantity = some qty ∧ 0 < qty
  whole : ∀ qty, intent.quantity = some qty → countryOf intent.symbol = .KR → Whole qty
  covered : ∀ qty, intent.quantity = some qty → intent.side = .SELL →
    ∃ pos, snapshot.positions.get? intent.symbol = some pos ∧ qty ≤ pos.quantity

/-- What is asked of a plan. -/
structure Aimed (orders : List (OrderIntent × Decimal)) : Prop where
  distinct : (orders.map fun order => order.1.symbol).Nodup
  wellFormed : ∀ order ∈ orders, WellFormed snapshot markets order.1
  sellsFirst : orders.Pairwise fun first second => second.1.side = .SELL → first.1.side = .SELL
  towards : ∀ order ∈ orders, prices order.1.symbol = some order.2 ∧
    Towards (held snapshot order.1.symbol)
      (held (snapshot.filled order.1.symbol order.1.signed order.2) order.1.symbol)
      (targets.getD order.1.symbol 0)
  complete : ∀ symbol price, countryOf symbol ∈ markets →
    band ≤ |targets.getD symbol 0 - held snapshot symbol| → prices symbol = some price → 0 < price →
    (∃ order ∈ orders, order.1.symbol = symbol) ∨
      countryOf symbol = .KR ∧ truncate (aimedQuantity targets snapshot symbol price) = 0

end

section
variable {targets : Dict Symbol Decimal} {snapshot : AccountSnapshot} {markets : List Country}
  {prices : Symbol → Option Decimal} {symbol : Symbol} {drift price : Decimal} {intent : OrderIntent}

theorem held_eq (hequity : 0 < snapshot.equityKrw) (symbol : Symbol) :
    held snapshot symbol = snapshot.exposure symbol / snapshot.equityKrw := by
  rw [held, Dict.getD, AccountSnapshot.weights_get? hequity, AccountSnapshot.exposure]
  cases snapshot.positions.get? symbol with
  | none => simp
  | some pos => rfl

theorem held_unheld (hequity : 0 < snapshot.equityKrw)
    (hheld : snapshot.positions.get? symbol = none) : held snapshot symbol = 0 := by
  rw [held_eq hequity, AccountSnapshot.exposure, hheld]
  simp

theorem Quoted.fx_pos (h : Quoted snapshot prices) (symbol : Symbol) : 0 < snapshot.fxOf symbol :=
  fxAt_pos h.rate symbol

/-- A trade of `qty` moves the weight by its value over the equity. -/
theorem held_filled (h : Quoted snapshot prices) (hquote : prices symbol = some price) (qty : Decimal) :
    held (snapshot.filled symbol qty price) symbol =
      held snapshot symbol + price * qty * snapshot.fxOf symbol / snapshot.equityKrw := by
  rw [held, Dict.getD, AccountSnapshot.filled_weight qty h.equity h.matching (h.marks symbol price hquote),
    Option.getD_some, held_eq h.equity, add_div]

/-! ### One order -/

/-- No more is ordered than closes the drift. -/
theorem planned_le (h : Quoted snapshot prices)
    (hplan : Planned targets snapshot markets prices symbol drift intent price) {qty : Decimal}
    (hqty : intent.quantity = some qty) :
    price * qty * snapshot.fxOf symbol / snapshot.equityKrw ≤ |drift| := by
  have hprice := hplan.priced.2
  have hfx := h.fx_pos symbol
  have hraw : 0 ≤ |drift| * snapshot.equityKrw / (price * snapshot.fxOf symbol) :=
    div_nonneg (mul_nonneg (abs_nonneg drift) h.equity.le) (mul_pos hprice hfx).le
  have hwhole : quantityFor snapshot symbol drift price ≤
      |drift| * snapshot.equityKrw / (price * snapshot.fxOf symbol) := wholeInKr_le hraw symbol
  have hle : qty ≤ |drift| * snapshot.equityKrw / (price * snapshot.fxOf symbol) := by
    cases hside : intent.side with
    | BUY =>
      rw [(hplan.buy hside).2] at hqty
      cases hqty
      exact hwhole
    | SELL =>
      obtain ⟨-, pos, hpos, hsell⟩ := hplan.sell hside
      rw [hsell] at hqty
      cases hqty
      refine le_trans ?_ hwhole
      refine (wholeInKr_le ?_ symbol).trans (min_le_left _ _)
      exact le_min hplan.wanted.le (h.shares symbol pos hpos).le
  rw [le_div_iff₀ (mul_pos hprice hfx)] at hle
  rw [div_le_iff₀ h.equity]
  linarith

theorem planned_wellFormed (h : Quoted snapshot prices)
    (hplan : Planned targets snapshot markets prices symbol drift intent price) :
    WellFormed snapshot markets intent := by
  have hsymbol := hplan.intent_symbol
  subst hsymbol
  refine ⟨hplan.market, hplan.positive, fun qty hqty hkr => ?_, fun qty hqty hside => ?_⟩
  · cases hside : intent.side with
    | BUY =>
      rw [(hplan.buy hside).2] at hqty
      cases hqty
      exact wholeInKr_whole hkr _
    | SELL =>
      obtain ⟨-, pos, hpos, hsell⟩ := hplan.sell hside
      rw [hsell] at hqty
      cases hqty
      exact wholeInKr_whole hkr _
  · obtain ⟨-, pos, hpos, hsell⟩ := hplan.sell hside
    rw [hsell] at hqty
    cases hqty
    refine ⟨pos, hpos, (wholeInKr_le ?_ _).trans (min_le_right _ _)⟩
    exact le_min hplan.wanted.le (h.shares _ pos hpos).le

/-- **Towards the target, not past it.** -/
theorem planned_towards (h : Quoted snapshot prices)
    (hplan : Planned targets snapshot markets prices symbol drift intent price) :
    Towards (held snapshot symbol) (held (snapshot.filled symbol intent.signed price) symbol)
      (targets.getD symbol 0) := by
  obtain ⟨qty, hqty, hpos⟩ := hplan.positive
  have hle := planned_le h hplan hqty
  have hmove : 0 < price * qty * snapshot.fxOf symbol / snapshot.equityKrw :=
    div_pos (mul_pos (mul_pos hplan.priced.2 hpos) (h.fx_pos symbol)) h.equity
  have hdrift := hplan.drift_eq
  rw [held_filled h hplan.priced.1, OrderIntent.signed, hqty, Option.getD_some]
  cases hside : intent.side with
  | BUY =>
    have hup := (hplan.buy hside).1
    rw [abs_of_pos (band_pos.trans_le hup)] at hle
    left
    dsimp only
    constructor <;> linarith
  | SELL =>
    have hdown := (hplan.sell hside).1
    rw [abs_of_neg (hdown.trans_lt (neg_lt_zero.mpr band_pos))] at hle
    right
    dsimp only
    rw [mul_neg, neg_mul, neg_div]
    constructor <;> linarith

theorem truncate_eq_zero {x : Decimal} (h : 0 ≤ x) : truncate x = 0 ↔ x < 1 := by
  have hnonneg : 0 ≤ truncate x := le_truncate Whole.zero h h
  rw [← not_le, ← truncate_pos, not_lt]
  exact ⟨fun hzero => hzero.le, fun hle => le_antisymm hle hnonneg⟩

/-- A quantity that is not ordered is less than one Korean share. -/
theorem lt_one_of_not_pos {qty : Decimal} (hpos : 0 < qty) (h : ¬ 0 < wholeInKr symbol qty) :
    countryOf symbol = .KR ∧ qty < 1 := by
  have hkr : countryOf symbol = .KR := by
    by_contra hother
    rw [wholeInKr, if_neg hother] at h
    exact h hpos
  refine ⟨hkr, ?_⟩
  rwa [wholeInKr_pos_iff hkr, not_le] at h

theorem raw_pos (h : Quoted snapshot prices)
    (hfar : band ≤ |targets.getD symbol 0 - held snapshot symbol|) (hprice : 0 < price) :
    0 < |targets.getD symbol 0 - held snapshot symbol| * snapshot.equityKrw /
      (price * snapshot.fxOf symbol) :=
  div_pos (mul_pos (band_pos.trans_le hfar) h.equity) (mul_pos hprice (h.fx_pos symbol))

section
variable (h : Quoted snapshot prices) (hmarket : countryOf symbol ∈ markets)
  (hfar : band ≤ |targets.getD symbol 0 - held snapshot symbol|) (hquote : prices symbol = some price)
  (hprice : 0 < price)
include h hmarket hfar hquote hprice

theorem planned_of_below (hup : 0 ≤ targets.getD symbol 0 - held snapshot symbol) :
    (∃ drift order, planSymbol targets snapshot markets prices symbol = some (drift, order)) ∨
      countryOf symbol = .KR ∧ truncate (aimedQuantity targets snapshot symbol price) = 0 := by
  have hraw := raw_pos h hfar hprice
  rw [abs_of_nonneg hup] at hfar
  by_cases hqty : 0 < quantityFor snapshot symbol (targets.getD symbol 0 - held snapshot symbol) price
  · exact .inl ⟨_, _, planSymbol_buy targets snapshot markets prices hmarket hfar hquote hprice hqty⟩
  · obtain ⟨hkr, hlt⟩ := lt_one_of_not_pos hraw hqty
    have haim : aimedQuantity targets snapshot symbol price =
        |targets.getD symbol 0 - held snapshot symbol| * snapshot.equityKrw /
          (price * snapshot.fxOf symbol) := by
      unfold aimedQuantity
      dsimp only
      split
      · exact if_neg (not_lt.mpr hup)
      · rfl
    exact .inr ⟨hkr, haim ▸ (truncate_eq_zero hraw.le).mpr hlt⟩

theorem planned_of_above {pos : Position} (hheld : snapshot.positions.get? symbol = some pos)
    (hdown : targets.getD symbol 0 - held snapshot symbol < 0) :
    (∃ drift order, planSymbol targets snapshot markets prices symbol = some (drift, order)) ∨
      countryOf symbol = .KR ∧ truncate (aimedQuantity targets snapshot symbol price) = 0 := by
  have hraw := raw_pos h hfar hprice
  have hshares := h.shares symbol pos hheld
  have haim : aimedQuantity targets snapshot symbol price =
      min (|targets.getD symbol 0 - held snapshot symbol| * snapshot.equityKrw /
        (price * snapshot.fxOf symbol)) pos.quantity := by
    unfold aimedQuantity
    rw [hheld]
    exact if_pos hdown
  rw [abs_of_neg hdown, neg_sub] at hfar
  by_cases hqty : 0 < quantityFor snapshot symbol (targets.getD symbol 0 - held snapshot symbol) price
  · by_cases hsell : 0 < sellQuantity symbol
        (quantityFor snapshot symbol (targets.getD symbol 0 - held snapshot symbol) price) pos
    · exact .inl ⟨_, _, planSymbol_sell targets snapshot markets prices hmarket hfar hquote hprice
        hqty hheld hsell⟩
    · obtain ⟨hkr, hlt⟩ := lt_one_of_not_pos (lt_min hqty hshares) hsell
      have hone : 1 ≤ quantityFor snapshot symbol
          (targets.getD symbol 0 - held snapshot symbol) price := by
        rw [quantityFor, wholeInKr_pos_iff hkr] at hqty
        exact one_le_wholeInKr symbol hqty
      have hfew : pos.quantity < 1 := (min_lt_iff.mp hlt).resolve_left (not_lt.mpr hone)
      rw [haim, truncate_eq_zero (lt_min hraw hshares).le]
      exact .inr ⟨hkr, min_lt_iff.mpr (.inr hfew)⟩
  · obtain ⟨hkr, hlt⟩ := lt_one_of_not_pos hraw hqty
    rw [haim, truncate_eq_zero (lt_min hraw hshares).le]
    exact .inr ⟨hkr, min_lt_iff.mpr (.inl hlt)⟩

/-- **Nothing that is far from its target is left out**, but for less than a share. -/
theorem planned_of_far (hweights : ∀ sym weight, targets.get? sym = some weight → 0 ≤ weight) :
    (∃ drift order, planSymbol targets snapshot markets prices symbol = some (drift, order)) ∨
      countryOf symbol = .KR ∧ truncate (aimedQuantity targets snapshot symbol price) = 0 := by
  rcases le_or_gt 0 (targets.getD symbol 0 - held snapshot symbol) with hup | hdown
  · exact planned_of_below h hmarket hfar hquote hprice hup
  · -- A weight above a target that is not negative belongs to a position.
    have hwant : 0 ≤ targets.getD symbol 0 := targets.getD_property symbol le_rfl hweights
    cases hheld : snapshot.positions.get? symbol with
    | none =>
      have hzero := held_unheld h.equity hheld
      linarith
    | some pos => exact planned_of_above h hmarket hfar hquote hprice hheld hdown

end

/-! ### The plan -/

theorem symbolsOf_nodup : (symbolsOf targets snapshot).Nodup :=
  (List.perm_insertionSort _ _).nodup_iff.mpr (List.nodup_dedup _)

theorem buildIntents_distinct :
    ((buildIntents targets snapshot markets prices).map fun order => order.1.symbol).Nodup := by
  unfold buildIntents
  split
  · exact List.nodup_nil
  · rw [List.map_map, ((List.perm_insertionSort _ _).map _).nodup_iff, List.Nodup, List.pairwise_map]
    refine List.Pairwise.filterMap _ (fun a b hne x hx y hy => ?_) symbolsOf_nodup
    show x.2.1.symbol ≠ y.2.1.symbol
    rw [(planSymbol_planned hx).intent_symbol, (planSymbol_planned hy).intent_symbol]
    exact hne

/-- A drift below zero is a sale's. -/
theorem buildIntents_sellsFirst : (buildIntents targets snapshot markets prices).Pairwise
    fun first second => second.1.side = .SELL → first.1.side = .SELL := by
  unfold buildIntents
  split
  · exact .nil
  · rw [List.pairwise_map]
    refine (pairwise_sortBy Prod.fst _).imp_of_mem fun {a b} ha hb hle hsell => ?_
    rw [List.mem_insertionSort, List.mem_filterMap] at ha hb
    obtain ⟨symbol, -, ha⟩ := ha
    obtain ⟨symbol', -, hb⟩ := hb
    have hdown := ((planSymbol_planned hb).sell hsell).1
    cases hside : a.2.1.side with
    | SELL => rfl
    | BUY =>
      have hup := ((planSymbol_planned ha).buy hside).1
      linarith [band_pos]

/-- **A plan is well formed and never overshoots.** -/
theorem buildIntents_aimed (h : Quoted snapshot prices)
    (hweights : ∀ sym weight, targets.get? sym = some weight → 0 ≤ weight) :
    Aimed targets snapshot markets prices (buildIntents targets snapshot markets prices) := by
  have hplanned : ∀ order ∈ buildIntents targets snapshot markets prices, ∃ drift,
      Planned targets snapshot markets prices order.1.symbol drift order.1 order.2 := by
    intro order horder
    obtain ⟨-, symbol, drift, -, hplan⟩ := (mem_buildIntents ..).mp horder
    have hp := planSymbol_planned hplan
    exact ⟨drift, hp.intent_symbol ▸ hp⟩
  refine ⟨buildIntents_distinct, fun order horder => ?_, buildIntents_sellsFirst,
    fun order horder => ?_, fun symbol price hmarket hfar hquote hprice => ?_⟩
  · obtain ⟨drift, hp⟩ := hplanned order horder
    exact planned_wellFormed h hp
  · obtain ⟨drift, hp⟩ := hplanned order horder
    exact ⟨hp.priced.1, planned_towards h hp⟩
  · refine (planned_of_far h hmarket hfar hquote hprice hweights).imp_left ?_
    rintro ⟨drift, order, hplan⟩
    refine ⟨order, (mem_buildIntents ..).mpr ⟨h.equity, symbol, drift, ?_, hplan⟩,
      (planSymbol_planned hplan).intent_symbol⟩
    by_contra hnone
    rw [not_or, ← Dict.get?_eq_none, ← Dict.get?_eq_none] at hnone
    have hwant : targets.getD symbol 0 = 0 := by rw [Dict.getD, hnone.1, Option.getD_none]
    rw [hwant, held_unheld h.equity hnone.2, sub_zero, abs_zero] at hfar
    exact hfar.not_gt band_pos

/-- Quotes of a Korean share that is held and of one that is wanted. -/
def twoQuotes : Symbol → Option Decimal
  | "005930" => some 10000
  | "069500" => some 30000
  | _ => none

/-- The held shares are sold, and 22 of the wanted ones bought. -/
theorem buildIntents_aimed_mixed :
    (buildIntents (Dict.ofList [("069500", 1 / 2)]) .mixedBook [.KR] twoQuotes).map
        (fun order => order.1.signed) = [-10, 22] ∧
      Aimed (Dict.ofList [("069500", 1 / 2)]) .mixedBook [.KR] twoQuotes
        (buildIntents (Dict.ofList [("069500", 1 / 2)]) .mixedBook [.KR] twoQuotes) := by
  refine ⟨by decide +kernel, buildIntents_aimed ⟨by decide +kernel, by decide +kernel,
    AccountSnapshot.mixedBook_matching, fun sym pos hheld => ?_, fun sym px hquote => ?_⟩ ?_⟩
  · obtain ⟨rfl, rfl⟩ | ⟨rfl, rfl⟩ := AccountSnapshot.mixedBook_held hheld <;> decide +kernel
  · intro pos hheld
    obtain ⟨rfl, rfl⟩ | ⟨rfl, rfl⟩ := AccountSnapshot.mixedBook_held hheld
    · cases hquote
      rfl
    · cases hquote
  · intro sym weight hget
    refine Dict.ofList_property (P := fun w => 0 ≤ w) (fun e he => ?_) hget
    rw [List.mem_singleton.mp he]
    norm_num

end
end Runner
end Tqt
