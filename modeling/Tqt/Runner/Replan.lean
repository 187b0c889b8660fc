import Tqt.Runner.Aim

/-! Planning again after some of a plan was filled.

`partlyFilled` fills each order of a plan by as much as the market gave, from nothing to all
of it, at the quotes. The next plan on the same quotes then only asks for what is left: the
same side, exactly the remaining quantity, of symbols that were ordered before
(`replan_remaining`). A plan that was filled completely is followed by an empty one. The
planner is the exact one. -/
namespace Tqt

/-- The signed quantity of a trade. -/
def Side.signed : Side → Decimal → Decimal
  | .BUY, qty => qty
  | .SELL, qty => -qty

namespace Runner

/-- The account after each order was filled by `fill` of its symbol, at the price it was
planned at. -/
def partlyFilled (fill : Symbol → Decimal) (snap : AccountSnapshot)
    (orders : List (OrderIntent × Decimal)) : AccountSnapshot :=
  orders.foldl (fun s order =>
    s.filled order.1.symbol (order.1.side.signed (fill order.1.symbol)) order.2) snap

/-- How much of each order was filled: not more than was ordered, in whole shares in Korea. -/
structure Fills (fill : Symbol → Decimal) (orders : List (OrderIntent × Decimal)) : Prop where
  nonneg : ∀ order ∈ orders, 0 ≤ fill order.1.symbol
  most : ∀ order ∈ orders, ∀ qty, order.1.quantity = some qty → fill order.1.symbol ≤ qty
  whole : ∀ order ∈ orders, countryOf order.1.symbol = .KR → Whole (fill order.1.symbol)

/-! ### Whole shares -/

theorem truncate_sub {x n : Decimal} (hn : Whole n) (h : n ≤ x) (h0 : 0 ≤ n) :
    truncate (x - n) = truncate x - n := by
  obtain ⟨k, rfl⟩ := hn
  have hx : 0 ≤ x := h0.trans h
  rw [truncate, if_pos (sub_nonneg.mpr h), truncate, if_pos hx, Int.floor_sub_intCast]
  push_cast
  rfl

theorem wholeInKr_sub {symbol : Symbol} {x n : Decimal} (hn : countryOf symbol = .KR → Whole n)
    (h : n ≤ x) (h0 : 0 ≤ n) : wholeInKr symbol (x - n) = wholeInKr symbol x - n := by
  unfold wholeInKr
  split
  · next hkr => exact truncate_sub (hn hkr) h h0
  · rfl

section
variable {targets : Dict Symbol Decimal} {snap : AccountSnapshot} {markets : List Country}
  {prices : Symbol → Option Decimal} {fill : Symbol → Decimal}

/-! ### The account after the fills -/

/-- What the fills of `orders` leave of an account. -/
structure AfterFills (snap : AccountSnapshot) (prices : Symbol → Option Decimal)
    (fill : Symbol → Decimal) (orders : List (OrderIntent × Decimal)) (s : AccountSnapshot) :
    Prop where
  equity : s.equityKrw = snap.equityKrw
  rate : s.usdKrw = snap.usdKrw
  matching : s.Matching
  marks : ∀ sym px, prices sym = some px → s.AtMark sym px
  untouched : ∀ sym, sym ∉ orders.map (fun order => order.1.symbol) →
    s.positions.get? sym = snap.positions.get? sym ∧ s.exposure sym = snap.exposure sym
  touched : ∀ order ∈ orders,
    (s.positions.get? order.1.symbol).elim 0 Position.quantity =
        (snap.positions.get? order.1.symbol).elim 0 Position.quantity +
          order.1.side.signed (fill order.1.symbol) ∧
      s.exposure order.1.symbol = snap.exposure order.1.symbol +
        order.2 * order.1.side.signed (fill order.1.symbol) * snap.fxOf order.1.symbol

theorem filled_get? (snap : AccountSnapshot) (symbol : Symbol) (qty price : Decimal) (sym : Symbol) :
    (snap.filled symbol qty price).positions.get? sym =
      if sym = symbol then some (snap.filledPosition symbol qty price) else snap.positions.get? sym :=
  Dict.get?_insert ..

theorem filled_quantity (snap : AccountSnapshot) (symbol : Symbol) (qty price : Decimal) :
    (snap.filledPosition symbol qty price).quantity =
      (snap.positions.get? symbol).elim 0 Position.quantity + qty := by
  unfold AccountSnapshot.filledPosition
  cases snap.positions.get? symbol with
  | none => simp
  | some pos => rfl

theorem filled_exposure_of_ne {symbol sym : Symbol} {qty price : Decimal} (hne : sym ≠ symbol)
    (hmark : snap.AtMark symbol price) :
    (snap.filled symbol qty price).exposure sym = snap.exposure sym := by
  unfold AccountSnapshot.exposure
  rw [filled_get?, if_neg hne]
  cases hheld : snap.positions.get? sym with
  | none => rfl
  | some pos =>
    rw [Option.map_some, Option.map_some, AccountSnapshot.filled_valueKrw qty hmark hheld]

/-- **One more fill.** -/
theorem AfterFills.snoc {orders : List (OrderIntent × Decimal)} {s : AccountSnapshot}
    (h : AfterFills snap prices fill orders s) {order : OrderIntent × Decimal}
    (hnew : order.1.symbol ∉ orders.map fun order => order.1.symbol)
    (hquote : prices order.1.symbol = some order.2) :
    AfterFills snap prices fill (orders ++ [order])
      (s.filled order.1.symbol (order.1.side.signed (fill order.1.symbol)) order.2) := by
  have hmark := h.marks _ _ hquote
  have hfx : s.fxOf order.1.symbol = snap.fxOf order.1.symbol := by
    rw [AccountSnapshot.fxOf, AccountSnapshot.fxOf, h.rate]
  obtain ⟨hposition, hexposure⟩ := h.untouched _ hnew
  have hmem (sym : Symbol) : sym ∈ (orders ++ [order]).map (fun order => order.1.symbol) ↔
      sym ∈ orders.map (fun order => order.1.symbol) ∨ sym = order.1.symbol := by
    rw [List.map_append, List.mem_append, List.map_singleton, List.mem_singleton]
  refine ⟨(AccountSnapshot.filled_equityKrw _ h.matching hmark).trans h.equity, h.rate, ?_, ?_, ?_, ?_⟩
  · intro sym pos hheld
    rw [filled_get?] at hheld
    split at hheld
    · next hsym =>
      cases hheld
      rw [hsym]
      exact AccountSnapshot.filledPosition_currency _ h.matching
    · exact h.matching sym pos hheld
  · intro sym px hpx pos hheld
    show (s.prices.insert order.1.symbol order.2).getD sym pos.avgPrice = px
    rw [filled_get?] at hheld
    rw [Dict.getD_insert]
    split at hheld
    · next hsym =>
      rw [if_pos hsym]
      rw [hsym, hquote] at hpx
      exact Option.some.inj hpx
    · next hsym =>
      rw [if_neg hsym]
      exact h.marks sym px hpx pos hheld
  · intro sym hsym
    rw [hmem, not_or] at hsym
    obtain ⟨hold, hne⟩ := hsym
    rw [filled_get?, if_neg hne, filled_exposure_of_ne hne hmark]
    exact h.untouched sym hold
  · intro other hother
    rcases List.mem_append.mp hother with hother | hother
    · have hne : other.1.symbol ≠ order.1.symbol := fun heq =>
        hnew (heq ▸ List.mem_map_of_mem (f := fun order => order.1.symbol) hother)
      rw [filled_get?, if_neg hne, filled_exposure_of_ne hne hmark]
      exact h.touched other hother
    · rw [List.mem_singleton.mp hother]
      refine ⟨?_, ?_⟩
      · rw [filled_get?, if_pos rfl, Option.elim_some, filled_quantity, hposition]
      · rw [AccountSnapshot.exposure, filled_get?, if_pos rfl, Option.map_some, Option.getD_some,
          AccountSnapshot.filled_exposure _ h.matching hmark, hfx, hexposure]

theorem partlyFilled_after (h : Quoted snap prices) (fill : Symbol → Decimal)
    (orders : List (OrderIntent × Decimal))
    (hdistinct : (orders.map fun order => order.1.symbol).Nodup)
    (hquotes : ∀ order ∈ orders, prices order.1.symbol = some order.2) :
    AfterFills snap prices fill orders (partlyFilled fill snap orders) := by
  induction orders using List.reverseRecOn with
  | nil => exact ⟨rfl, rfl, h.matching, h.marks, fun _ _ => ⟨rfl, rfl⟩, nofun⟩
  | append_singleton orders order ih =>
    rw [List.map_append, List.nodup_append] at hdistinct
    obtain ⟨hbefore, -, hnew⟩ := hdistinct
    have hstep := (ih hbefore fun o ho => hquotes o (List.mem_append_left _ ho)).snoc
      (fun hmem => hnew _ hmem _ (List.mem_singleton_self _) rfl)
      (hquotes order (List.mem_append_right _ (List.mem_singleton_self _)))
    unfold partlyFilled
    rw [List.foldl_append]
    exact hstep

/-! ### What is left of an order -/

section
variable {symbol : Symbol} {drift price : Decimal} {intent : OrderIntent}

/-- The quantity that closes a drift, before it is cut to whole shares. -/
def rawQuantity (snap : AccountSnapshot) (symbol : Symbol) (drift price : Decimal) : Decimal :=
  |drift| * snap.equityKrw / (price * snap.fxOf symbol)

theorem quantityFor_le (h : Quoted snap prices) (hprice : 0 < price) :
    quantityFor snap symbol drift price ≤ rawQuantity snap symbol drift price :=
  wholeInKr_le (div_nonneg (mul_nonneg (abs_nonneg drift) h.equity.le)
    (mul_pos hprice (h.fx_pos symbol)).le) symbol

/-- A sale that aims at a weight never needs more than is held. -/
theorem raw_le_held (h : Quoted snap prices)
    (hweights : ∀ sym weight, targets.get? sym = some weight → 0 ≤ weight)
    (hplan : Planned targets snap markets prices symbol drift intent price)
    (hside : intent.side = .SELL) {pos : Position} (hheld : snap.positions.get? symbol = some pos) :
    rawQuantity snap symbol drift price ≤ pos.quantity := by
  have hwant : 0 ≤ targets.getD symbol 0 := targets.getD_property symbol le_rfl hweights
  have hdown : drift < 0 := (hplan.sell hside).1.trans_lt (neg_lt_zero.mpr band_pos)
  have hvalue : held snap symbol * snap.equityKrw = price * pos.quantity * snap.fxOf symbol := by
    rw [held_eq h.equity, div_mul_cancel₀ _ h.equity.ne', AccountSnapshot.exposure, hheld,
      Option.map_some, Option.getD_some,
      AccountSnapshot.valueKrw_of_currency (h.matching symbol pos hheld),
      h.marks symbol price hplan.priced.1 pos hheld]
  have hle : |drift| ≤ held snap symbol := by
    rw [abs_of_neg hdown, hplan.drift_eq]
    linarith
  rw [rawQuantity, div_le_iff₀ (mul_pos hplan.priced.2 (h.fx_pos symbol))]
  calc |drift| * snap.equityKrw ≤ held snap symbol * snap.equityKrw :=
        mul_le_mul_of_nonneg_right hle h.equity.le
    _ = pos.quantity * (price * snap.fxOf symbol) := by rw [hvalue]; ring

/-- On either side an order is for the quantity that closes the drift. -/
theorem planned_quantity (h : Quoted snap prices)
    (hweights : ∀ sym weight, targets.get? sym = some weight → 0 ≤ weight)
    (hplan : Planned targets snap markets prices symbol drift intent price) :
    intent.quantity = some (quantityFor snap symbol drift price) := by
  cases hside : intent.side with
  | BUY => exact (hplan.buy hside).2
  | SELL =>
    obtain ⟨-, pos, hheld, hqty⟩ := hplan.sell hside
    have hle := (quantityFor_le h hplan.priced.2).trans (raw_le_held h hweights hplan hside hheld)
    rw [hqty, sellQuantity, min_eq_left hle, quantityFor, wholeInKr_wholeInKr]

variable {s : AccountSnapshot} {orders : List (OrderIntent × Decimal)}

/-- What a part of an order leaves of its drift `gap`, as quantities at `unit` a share. -/
theorem gap_after {gap equity unit part : Decimal} (hequity : 0 < equity) (hunit : 0 < unit)
    (hpart : part ≤ gap * equity / unit) :
    0 ≤ gap - unit * part / equity ∧
      (gap - unit * part / equity) * equity / unit = gap * equity / unit - part := by
  have hle : part * unit ≤ gap * equity := (le_div_iff₀ hunit).mp hpart
  refine ⟨?_, by field_simp⟩
  rw [sub_nonneg, div_le_iff₀ hequity]
  linarith

/-- What is still missing once a part of the order was filled. -/
theorem drift_after (h : Quoted snap prices) (hs : AfterFills snap prices fill orders s)
    (hmem : (intent, price) ∈ orders)
    (hplan : Planned targets snap markets prices intent.symbol drift intent price)
    (hfill : fill intent.symbol ≤ rawQuantity snap intent.symbol drift price) :
    rawQuantity s intent.symbol (targets.getD intent.symbol 0 - held s intent.symbol) price =
        rawQuantity snap intent.symbol drift price - fill intent.symbol ∧
      (intent.side = .BUY → 0 ≤ targets.getD intent.symbol 0 - held s intent.symbol) ∧
      (intent.side = .SELL → targets.getD intent.symbol 0 - held s intent.symbol ≤ 0) := by
  have hunit : 0 < price * snap.fxOf intent.symbol := mul_pos hplan.priced.2 (h.fx_pos _)
  have hequity : 0 < s.equityKrw := hs.equity ▸ h.equity
  have hfx : s.fxOf intent.symbol = snap.fxOf intent.symbol := by
    rw [AccountSnapshot.fxOf, AccountSnapshot.fxOf, hs.rate]
  have hheld : held s intent.symbol = held snap intent.symbol +
      price * snap.fxOf intent.symbol * intent.side.signed (fill intent.symbol) / snap.equityKrw := by
    rw [held_eq hequity, (hs.touched _ hmem).2, hs.equity, add_div, held_eq h.equity]
    ring
  have hdrift := hplan.drift_eq
  unfold rawQuantity at hfill ⊢
  rw [hs.equity, hfx, hheld]
  cases hside : intent.side with
  | BUY =>
    have hup : 0 < drift := band_pos.trans_le (hplan.buy hside).1
    rw [abs_of_pos hup] at hfill ⊢
    obtain ⟨hnonneg, heq⟩ := gap_after h.equity hunit hfill
    have hgap : targets.getD intent.symbol 0 - (held snap intent.symbol +
        price * snap.fxOf intent.symbol * Side.BUY.signed (fill intent.symbol) / snap.equityKrw) =
          drift - price * snap.fxOf intent.symbol * fill intent.symbol / snap.equityKrw := by
      rw [hdrift, Side.signed]
      ring
    rw [hgap, abs_of_nonneg hnonneg]
    exact ⟨heq, fun _ => hnonneg, nofun⟩
  | SELL =>
    have hdown : drift < 0 := (hplan.sell hside).1.trans_lt (neg_lt_zero.mpr band_pos)
    rw [abs_of_neg hdown] at hfill ⊢
    obtain ⟨hnonneg, heq⟩ := gap_after h.equity hunit hfill
    have hgap : targets.getD intent.symbol 0 - (held snap intent.symbol +
        price * snap.fxOf intent.symbol * Side.SELL.signed (fill intent.symbol) / snap.equityKrw) =
          -(-drift - price * snap.fxOf intent.symbol * fill intent.symbol / snap.equityKrw) := by
      rw [hdrift, Side.signed]
      ring
    rw [hgap, abs_neg, abs_of_nonneg hnonneg]
    exact ⟨heq, nofun, fun _ => neg_nonpos.mpr hnonneg⟩

/-- The whole shares that are left. -/
theorem quantity_after (h : Quoted snap prices) (hs : AfterFills snap prices fill orders s)
    (hfills : Fills fill orders) (hmem : (intent, price) ∈ orders)
    (hplan : Planned targets snap markets prices intent.symbol drift intent price)
    (hqty : fill intent.symbol ≤ quantityFor snap intent.symbol drift price) :
    quantityFor s intent.symbol (targets.getD intent.symbol 0 - held s intent.symbol) price =
      quantityFor snap intent.symbol drift price - fill intent.symbol := by
  have hraw := hqty.trans (quantityFor_le h hplan.priced.2)
  show wholeInKr _ (rawQuantity s _ _ _) = wholeInKr _ (rawQuantity snap _ _ _) - _
  rw [(drift_after h hs hmem hplan hraw).1]
  exact wholeInKr_sub (hfills.whole _ hmem) hraw (hfills.nonneg _ hmem)

/-- What a sale leaves to be sold is still held. -/
theorem sellQuantity_after (h : Quoted snap prices) (hs : AfterFills snap prices fill orders s)
    (hweights : ∀ sym weight, targets.get? sym = some weight → 0 ≤ weight)
    (hfills : Fills fill orders) (hmem : (intent, price) ∈ orders)
    (hplan : Planned targets snap markets prices intent.symbol drift intent price)
    (hqty : fill intent.symbol ≤ quantityFor snap intent.symbol drift price)
    (hside : intent.side = .SELL) {pos : Position} (hpos : s.positions.get? intent.symbol = some pos) :
    sellQuantity intent.symbol (quantityFor s intent.symbol
        (targets.getD intent.symbol 0 - held s intent.symbol) price) pos =
      quantityFor snap intent.symbol drift price - fill intent.symbol := by
  obtain ⟨-, old, hold, -⟩ := hplan.sell hside
  have hleft := (hs.touched _ hmem).1
  rw [hpos, hold, hside, Option.elim_some, Option.elim_some, Side.signed] at hleft
  have hle : quantityFor snap intent.symbol drift price - fill intent.symbol ≤ pos.quantity := by
    have := (quantityFor_le h hplan.priced.2).trans (raw_le_held h hweights hplan hside hold)
    linarith
  rw [quantity_after h hs hfills hmem hplan hqty, sellQuantity, min_eq_left hle,
    wholeInKr_sub (hfills.whole _ hmem) hqty (hfills.nonneg _ hmem), quantityFor, wholeInKr_wholeInKr]

end

/-! ### The next plan -/

/-- A symbol that was not ordered is looked at as before. -/
theorem planSymbol_untouched (h : Quoted snap prices) {orders : List (OrderIntent × Decimal)}
    {s : AccountSnapshot} (hs : AfterFills snap prices fill orders s) {symbol : Symbol}
    (hsym : symbol ∉ orders.map fun order => order.1.symbol) :
    planSymbol targets s markets prices symbol = planSymbol targets snap markets prices symbol := by
  obtain ⟨hposition, hexposure⟩ := hs.untouched symbol hsym
  have hheld : held s symbol = held snap symbol := by
    rw [held_eq (hs.equity ▸ h.equity), held_eq h.equity, hs.equity, hexposure]
  have hquantity (drift price : Decimal) :
      quantityFor s symbol drift price = quantityFor snap symbol drift price := by
    unfold quantityFor AccountSnapshot.fxOf
    rw [hs.equity, hs.rate]
  unfold planSymbol
  simp only [hheld, hquantity, hposition]

/-- What the next plan orders of a symbol that was ordered. -/
theorem remaining_of_planned (h : Quoted snap prices)
    (hweights : ∀ sym weight, targets.get? sym = some weight → 0 ≤ weight)
    {orders : List (OrderIntent × Decimal)} {s : AccountSnapshot}
    (hs : AfterFills snap prices fill orders s) (hfills : Fills fill orders)
    {order later : OrderIntent × Decimal} (hmem : order ∈ orders) {drift drift' : Decimal}
    (hplan : Planned targets snap markets prices order.1.symbol drift order.1 order.2)
    (hlater : Planned targets s markets prices order.1.symbol drift' later.1 later.2) :
    later.1.side = order.1.side ∧ later.2 = order.2 ∧
      ∃ qty, order.1.quantity = some qty ∧ 0 < qty - fill order.1.symbol ∧
        later.1.quantity = some (qty - fill order.1.symbol) := by
  obtain ⟨intent, price⟩ := order
  obtain ⟨intent', price'⟩ := later
  have hprice : price' = price := by
    have hsame := hlater.priced.1
    rw [hplan.priced.1] at hsame
    exact (Option.some.inj hsame).symm
  subst hprice
  have hquantity := planned_quantity h hweights hplan
  have hpart := hfills.most _ hmem _ hquantity
  obtain ⟨-, hup, hdown⟩ := drift_after h hs hmem hplan (hpart.trans (quantityFor_le h hplan.priced.2))
  have hleft := quantity_after h hs hfills hmem hplan hpart
  have hwanted := hlater.wanted
  rw [hlater.drift_eq, hleft] at hwanted
  refine ⟨?_, rfl, _, hquantity, hwanted, ?_⟩
  · -- On the other side the drift would have changed its sign.
    cases hside : intent.side with
    | BUY =>
      cases hside' : intent'.side with
      | BUY => rfl
      | SELL =>
        have hbelow := (hlater.sell hside').1
        rw [hlater.drift_eq] at hbelow
        linarith [hup hside, band_pos]
    | SELL =>
      cases hside' : intent'.side with
      | SELL => rfl
      | BUY =>
        have habove := (hlater.buy hside').1
        rw [hlater.drift_eq] at habove
        linarith [hdown hside, band_pos]
  · cases hside' : intent'.side with
    | BUY =>
      rw [(hlater.buy hside').2, hlater.drift_eq, hleft]
    | SELL =>
      obtain ⟨hbelow, pos, hpos, hqty⟩ := hlater.sell hside'
      have hside : intent.side = .SELL := by
        cases hs' : intent.side with
        | SELL => rfl
        | BUY =>
          rw [hlater.drift_eq] at hbelow
          linarith [hup hs', band_pos]
      rw [hqty, hlater.drift_eq, sellQuantity_after h hs hweights hfills hmem hplan hpart hside hpos]

/-- What is left of an order and outside the band is planned. -/
theorem planned_remaining (h : Quoted snap prices)
    (hweights : ∀ sym weight, targets.get? sym = some weight → 0 ≤ weight)
    {orders : List (OrderIntent × Decimal)} {s : AccountSnapshot}
    (hs : AfterFills snap prices fill orders s) (hfills : Fills fill orders)
    {order : OrderIntent × Decimal} (hmem : order ∈ orders) {drift : Decimal}
    (hplan : Planned targets snap markets prices order.1.symbol drift order.1 order.2)
    (hpart : fill order.1.symbol < quantityFor snap order.1.symbol drift order.2)
    (hfar : band ≤ |targets.getD order.1.symbol 0 - held s order.1.symbol|) :
    ∃ drift' later, planSymbol targets s markets prices order.1.symbol = some (drift', later) := by
  obtain ⟨intent, price⟩ := order
  obtain ⟨-, hup, hdown⟩ := drift_after h hs hmem hplan
    (hpart.le.trans (quantityFor_le h hplan.priced.2))
  have hleft := quantity_after h hs hfills hmem hplan hpart.le
  have hpos : 0 < quantityFor s intent.symbol
      (targets.getD intent.symbol 0 - held s intent.symbol) price := hleft ▸ sub_pos.mpr hpart
  cases hside : intent.side with
  | BUY =>
    rw [abs_of_nonneg (hup hside)] at hfar
    exact ⟨_, _, planSymbol_buy targets s markets prices hplan.market hfar hplan.priced.1
      hplan.priced.2 hpos⟩
  | SELL =>
    rw [abs_of_nonpos (hdown hside), neg_sub] at hfar
    obtain ⟨-, old, hold, -⟩ := hplan.sell hside
    have hsold := (hs.touched _ hmem).1
    cases hheld : s.positions.get? intent.symbol with
    | none =>
      -- More would have been sold than was asked for.
      have hle := raw_le_held h hweights hplan hside hold
      have hqty := hpart.trans_le (quantityFor_le h hplan.priced.2)
      rw [hheld, hold, hside, Option.elim_none, Option.elim_some, Side.signed] at hsold
      linarith
    | some pos =>
      have hsell := sellQuantity_after h hs hweights hfills hmem hplan hpart.le hside hheld
      exact ⟨_, _, planSymbol_sell targets s markets prices hplan.market hfar hplan.priced.1
        hplan.priced.2 hpos hheld (hsell ▸ sub_pos.mpr hpart)⟩

/-- What is neither wanted nor held does not drift. -/
theorem listed_of_far (hequity : 0 < snap.equityKrw) {symbol : Symbol}
    (hfar : band ≤ |targets.getD symbol 0 - held snap symbol|) :
    symbol ∈ targets.keys ∨ symbol ∈ snap.positions.keys := by
  by_contra hnone
  rw [not_or, ← Dict.get?_eq_none, ← Dict.get?_eq_none] at hnone
  have hwant : targets.getD symbol 0 = 0 := by rw [Dict.getD, hnone.1, Option.getD_none]
  rw [hwant, held_unheld hequity hnone.2, sub_zero, abs_zero] at hfar
  exact hfar.not_gt band_pos

/-- **Planning again asks for what is left**: an order of the next plan is for a symbol that
was ordered, on the same side, at the same quote and for exactly what was not filled; what is
left and still outside the band is ordered; and a plan that was filled completely is followed
by none. -/
theorem replan_remaining (h : Quoted snap prices)
    (hweights : ∀ sym weight, targets.get? sym = some weight → 0 ≤ weight)
    (hfills : Fills fill (buildIntents targets snap markets prices)) :
    let orders := buildIntents targets snap markets prices
    let after := partlyFilled fill snap orders
    let next := buildIntents targets after markets prices
    (∀ later ∈ next, ∃ order ∈ orders, later.1.symbol = order.1.symbol ∧
        later.1.side = order.1.side ∧ later.2 = order.2 ∧
        ∃ qty, order.1.quantity = some qty ∧ 0 < qty - fill order.1.symbol ∧
          later.1.quantity = some (qty - fill order.1.symbol)) ∧
      (∀ order ∈ orders, ∀ qty, order.1.quantity = some qty → fill order.1.symbol < qty →
        band ≤ |targets.getD order.1.symbol 0 - held after order.1.symbol| →
        ∃ later ∈ next, later.1.symbol = order.1.symbol) ∧
      ((∀ order ∈ orders, order.1.quantity = some (fill order.1.symbol)) → next = []) := by
  intro orders after next
  have hplanned : ∀ order ∈ orders, ∃ drift,
      Planned targets snap markets prices order.1.symbol drift order.1 order.2 := by
    intro order horder
    obtain ⟨-, symbol, drift, -, hplan⟩ := (mem_buildIntents ..).mp horder
    have hp := planSymbol_planned hplan
    exact ⟨drift, hp.intent_symbol ▸ hp⟩
  have hs : AfterFills snap prices fill orders after :=
    partlyFilled_after h fill orders buildIntents_distinct fun order horder => by
      obtain ⟨drift, hp⟩ := hplanned order horder
      exact hp.priced.1
  have hremaining : ∀ later ∈ next, ∃ order ∈ orders, later.1.symbol = order.1.symbol ∧
      later.1.side = order.1.side ∧ later.2 = order.2 ∧
      ∃ qty, order.1.quantity = some qty ∧ 0 < qty - fill order.1.symbol ∧
        later.1.quantity = some (qty - fill order.1.symbol) := by
    intro later hlater
    obtain ⟨-, symbol, drift', hlisted, hplan'⟩ := (mem_buildIntents ..).mp hlater
    have hp' := planSymbol_planned hplan'
    by_cases hordered : symbol ∈ orders.map fun order => order.1.symbol
    · obtain ⟨order, horder, rfl⟩ := List.mem_map.mp hordered
      obtain ⟨drift, hp⟩ := hplanned order horder
      exact ⟨order, horder, hp'.intent_symbol, remaining_of_planned h hweights hs hfills horder hp hp'⟩
    · -- It would have been ordered the first time.
      rw [planSymbol_untouched h hs hordered] at hplan'
      refine absurd (List.mem_map.mpr ⟨later, ?_, hp'.intent_symbol⟩) hordered
      refine (mem_buildIntents ..).mpr ⟨h.equity, symbol, drift', hlisted.imp_right ?_, hplan'⟩
      intro hkey
      rw [Dict.mem_keys] at hkey ⊢
      rwa [← (hs.untouched symbol hordered).1]
  refine ⟨hremaining, ?_, ?_⟩
  · intro order horder qty hqty hpart hfar
    obtain ⟨drift, hp⟩ := hplanned order horder
    rw [planned_quantity h hweights hp] at hqty
    cases hqty
    obtain ⟨drift', later, hplan'⟩ := planned_remaining h hweights hs hfills horder hp hpart hfar
    have hequity : 0 < after.equityKrw := hs.equity ▸ h.equity
    exact ⟨later, (mem_buildIntents ..).mpr ⟨hequity, _, drift', listed_of_far hequity hfar, hplan'⟩,
      (planSymbol_planned hplan').intent_symbol⟩
  · intro hall
    refine List.eq_nil_iff_forall_not_mem.mpr fun later hlater => ?_
    obtain ⟨order, horder, -, -, -, qty, hqty, hpos, -⟩ := hremaining later hlater
    rw [hall order horder] at hqty
    cases hqty
    exact absurd hpos (by rw [sub_self]; exact lt_irrefl 0)

theorem mixedBook_quoted : Quoted .mixedBook twoQuotes := by
  refine ⟨by decide +kernel, by decide +kernel, AccountSnapshot.mixedBook_matching,
    fun sym pos hheld => ?_, fun sym px hquote pos hheld => ?_⟩
  · obtain ⟨rfl, rfl⟩ | ⟨rfl, rfl⟩ := AccountSnapshot.mixedBook_held hheld <;> decide +kernel
  · obtain ⟨rfl, rfl⟩ | ⟨rfl, rfl⟩ := AccountSnapshot.mixedBook_held hheld
    · cases hquote
      rfl
    · cases hquote

/-- Ten to sell and 22 to buy, of which four and 22 were filled: six are left to sell. -/
theorem replan_remaining_mixed :
    let targets := Dict.ofList [("069500", 1 / 2)]
    let fill : Symbol → Decimal := fun symbol => if symbol = "005930" then 4 else 22
    let orders := buildIntents targets .mixedBook [.KR] twoQuotes
    let next := buildIntents targets (partlyFilled fill .mixedBook orders) [.KR] twoQuotes
    next.map (fun order => order.1.signed) = [-6] ∧
      ∀ later ∈ next, ∃ order ∈ orders, later.1.symbol = order.1.symbol := by
  refine ⟨by decide +kernel, ?_⟩
  refine fun later hlater => ((replan_remaining mixedBook_quoted ?_ ?_).1 later hlater).imp
    fun _ h => ⟨h.1, h.2.1⟩
  · intro sym weight hget
    refine Dict.ofList_property (P := fun w => 0 ≤ w) (fun e he => ?_) hget
    rw [List.mem_singleton.mp he]
    norm_num
  · constructor <;> decide +kernel

end
end Runner
end Tqt
