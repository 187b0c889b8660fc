import Tqt.Backtest.Outcome
import Tqt.Runner.Replan

/-! The live plan and the backtest's rebalance, on one account.

Both are asked to bring the same account to the same weights at the same prices. One computes
share counts and trades the difference; the other computes the drift of the weights and orders the
shares that make it up. Symbol by symbol they end with the same shares (`plan_tracks_backtest`),
except where a sale of Korean shares is cut to whole ones, which leaves the plan one share more,
where the move is so small that only one of the two makes it, and where the backtest lacks the
cash. Both compute exactly here. -/
namespace Tqt

/-! ### One account, twice -/

namespace AccountSnapshot

/-- The share counts of an account. -/
def shares (snap : AccountSnapshot) : Dict Symbol Decimal :=
  snap.positions.mapValues fun _ pos => pos.quantity

/-- The cash in a country's currency. -/
def localCash (snap : AccountSnapshot) (country : Country) : Decimal :=
  snap.cashKrw / if country = .US then snap.usdKrw else 1

theorem shares_get? (snap : AccountSnapshot) (sym : Symbol) :
    snap.shares.get? sym = (snap.positions.get? sym).map Position.quantity :=
  Dict.get?_mapValues ..

end AccountSnapshot

namespace Runner
open Backtest

section
variable (cfg : BacktestConfig) (snap : AccountSnapshot) (targets : Dict Symbol Decimal)
  (prices : Symbol → Option Decimal)

/-- What the backtest takes the account to be worth. -/
def localEquity : Decimal := equityOf (snap.localCash cfg.country) snap.shares prices

/-- The backtest's rebalance of the account. -/
def backtested (date : Date) (reason : String) : Batch :=
  rebalance cfg prices (localEquity cfg snap prices) date reason (snap.localCash cfg.country)
    snap.shares targets

/-- The shares of a symbol when the plan is filled. -/
def plannedShares (sym : Symbol) : Decimal :=
  snap.shares.getD sym 0 +
    (((buildIntents targets snap [cfg.country] prices).filter fun order => order.1.symbol = sym).map
      fun order => order.1.signed).sum

/-- An account in one country, quoted at its marks, that a sleeve of the country is to rebalance;
the backtest looks at the same drifts. -/
structure Trackable : Prop where
  quoted : Quoted snap prices
  cash : 0 ≤ snap.cashKrw
  country : ∀ sym, sym ∈ targets.keys ∨ sym ∈ snap.positions.keys → countryOf sym = cfg.country
  priced : ∀ sym ∈ snap.positions.keys, ∃ px, prices sym = some px
  positive : ∀ sym px, prices sym = some px → 0 < px
  fractional : cfg.fractional = (cfg.country == .US)
  whole : cfg.country = .KR → ∀ sym pos, snap.positions.get? sym = some pos → Whole pos.quantity
  weights : ∀ sym weight, targets.get? sym = some weight → 0 ≤ weight
  band : cfg.rebalanceBand = band

/-- A share that is not cut is no error. -/
def slack (px : Decimal) : Decimal := if cfg.country = .KR then px else 0

/-- When its turn comes in the backtest, there is less cash than it needs for the symbol. -/
def LacksCash (date : Date) (reason : String) (sym : Symbol) (px : Decimal) : Prop :=
  let want := wanted cfg prices (localEquity cfg snap prices) targets sym
  cashAtTurn cfg prices (localEquity cfg snap prices) date reason (snap.localCash cfg.country)
    snap.shares targets sym < needed cfg date reason sym px (want - snap.shares.getD sym 0)

/-- How the two ends compare: the shares held before, those the backtest wants, and those the plan
and the backtest lead to. -/
inductive Tracks (lacks : Prop) (px equity held want planned traded : Decimal) : Prop where
  | same : planned = traded → Tracks lacks px equity held want planned traded
  | oneMore : cfg.country = .KR → traded < held → planned = traded + 1 →
      Tracks lacks px equity held want planned traded
  | small : planned = held ∨ traded = held →
      |planned - traded| * px < max cfg.dustThreshold (Runner.band * equity + slack cfg px) →
      Tracks lacks px equity held want planned traded
  | short : lacks → held ≤ traded → traded < want → Tracks lacks px equity held want planned traded

end

section
variable {cfg : BacktestConfig} {snap : AccountSnapshot} {targets : Dict Symbol Decimal}
  {prices : Symbol → Option Decimal} {sym : Symbol} {px : Decimal}

/-- The factor of the country is that of its symbols. -/
theorem Trackable.fx (h : Trackable cfg snap targets prices)
    (hsym : sym ∈ targets.keys ∨ sym ∈ snap.positions.keys) :
    (if cfg.country = .US then snap.usdKrw else 1) = snap.fxOf sym := by
  rw [AccountSnapshot.fxOf, h.country sym hsym]

theorem Trackable.fx_pos (h : Trackable cfg snap targets prices) :
    0 < if cfg.country = .US then snap.usdKrw else (1 : Decimal) := by
  split
  · exact h.quoted.rate
  · exact one_pos

theorem Trackable.held_pos (h : Trackable cfg snap targets prices) :
    ∀ e ∈ snap.shares.entries, 0 < e.2 := by
  intro e he
  obtain ⟨⟨sym, pos⟩, hpos, rfl⟩ := List.mem_map.mp he
  exact h.quoted.shares sym pos ((Dict.get?_eq_some ..).mpr hpos)

/-- A position is worth its shares at the quote. -/
theorem Trackable.valueKrw (h : Trackable cfg snap targets prices) {pos : Position}
    (hheld : snap.positions.get? sym = some pos) :
    snap.valueKrw sym pos =
      worth prices sym pos.quantity * if cfg.country = .US then snap.usdKrw else 1 := by
  have hkey : sym ∈ snap.positions.keys := (Dict.mem_keys ..).mpr ⟨pos, hheld⟩
  obtain ⟨px, hpx⟩ := h.priced sym hkey
  rw [AccountSnapshot.valueKrw_of_currency (h.quoted.matching sym pos hheld),
    h.quoted.marks sym px hpx pos hheld, h.fx (.inr hkey), worth, hpx]

/-- **The backtest sees the equity** of the account, in its own currency. -/
theorem Trackable.equity (h : Trackable cfg snap targets prices) :
    snap.equityKrw =
      localEquity cfg snap prices * if cfg.country = .US then snap.usdKrw else 1 := by
  have hne := h.fx_pos.ne'
  have hvalues : (snap.positions.entries.map fun e => snap.valueKrw e.1 e.2) =
      snap.positions.entries.map fun e =>
        worth prices e.1 e.2.quantity * if cfg.country = .US then snap.usdKrw else 1 :=
    List.map_congr_left fun e he => h.valueKrw ((Dict.get?_eq_some ..).mpr he)
  rw [AccountSnapshot.equityKrw, AccountSnapshot.positionValueKrw, hvalues, localEquity, equityOf_eq,
    List.sum_map_mul_right, add_mul, AccountSnapshot.localCash, div_mul_cancel₀ _ hne]
  congr 2
  show _ = ((snap.positions.entries.map fun e => (e.1, e.2.quantity)).map _).sum
  rw [List.map_map]
  rfl

theorem Trackable.equity_pos (h : Trackable cfg snap targets prices) :
    0 < localEquity cfg snap prices := by
  have hequity := h.quoted.equity
  rw [h.equity] at hequity
  exact (pos_iff_pos_of_mul_pos hequity).mpr h.fx_pos

/-! ### One symbol -/

variable (cfg snap targets prices sym px) in
/-- The shares that the target weight is worth, before they are cut to whole ones. -/
def aim : Decimal := localEquity cfg snap prices * targets.getD sym 0 / px

theorem shares_getD (snap : AccountSnapshot) (sym : Symbol) :
    snap.shares.getD sym 0 = (snap.positions.get? sym).elim 0 Position.quantity := by
  rw [Dict.getD, AccountSnapshot.shares_get?]
  cases snap.positions.get? sym <;> rfl

section
variable (h : Trackable cfg snap targets prices) (hsym : sym ∈ targets.keys ∨ sym ∈ snap.positions.keys)
  (hpx : prices sym = some px)
include h

theorem Trackable.target_nonneg (sym : Symbol) : 0 ≤ targets.getD sym 0 :=
  targets.getD_property sym le_rfl h.weights

include hpx in
theorem Trackable.aim_nonneg : 0 ≤ aim cfg snap targets prices sym px :=
  div_nonneg (mul_nonneg h.equity_pos.le (h.target_nonneg sym)) (h.positive sym px hpx).le

theorem Trackable.held_nonneg (sym : Symbol) : 0 ≤ snap.shares.getD sym 0 :=
  snap.shares.getD_property sym le_rfl fun sym q hq =>
    (h.held_pos (sym, q) ((Dict.get?_eq_some ..).mp hq)).le

theorem Trackable.held_whole (hkr : cfg.country = .KR) (sym : Symbol) :
    Whole (snap.shares.getD sym 0) := by
  rw [shares_getD]
  cases hheld : snap.positions.get? sym with
  | none => exact .zero
  | some pos => exact h.whole hkr sym pos hheld

include hpx

/-- What is held of a symbol weighs its shares at the quote. -/
theorem Trackable.held_eq : held snap sym = snap.shares.getD sym 0 * px / localEquity cfg snap prices := by
  have hfx := h.fx_pos
  rw [Runner.held_eq h.quoted.equity, AccountSnapshot.exposure, shares_getD, h.equity]
  cases hheld : snap.positions.get? sym with
  | none => simp
  | some pos =>
    have he := h.equity_pos
    rw [Option.map_some, Option.getD_some, h.valueKrw hheld, worth, hpx]
    show px * pos.quantity * _ / (_ * _) = pos.quantity * px / _
    rw [mul_div_mul_right _ _ hfx.ne', mul_comm px]

/-- The drift is what the aim is worth more than is held. -/
theorem Trackable.drift : targets.getD sym 0 - held snap sym =
    (aim cfg snap targets prices sym px - snap.shares.getD sym 0) * px / localEquity cfg snap prices := by
  have hp := (h.positive sym px hpx).ne'
  have he := h.equity_pos.ne'
  rw [h.held_eq hpx, aim]
  field_simp

include hsym

/-- The plan's quantity, before it is cut. -/
theorem Trackable.raw :
    |targets.getD sym 0 - held snap sym| * snap.equityKrw / (px * snap.fxOf sym) =
      |aim cfg snap targets prices sym px - snap.shares.getD sym 0| := by
  have hp := h.positive sym px hpx
  have he := h.equity_pos
  have hfx := h.fx_pos
  rw [h.drift hpx, h.equity, ← h.fx hsym, abs_div, abs_mul, abs_of_pos hp, abs_of_pos he]
  field_simp

/-- **What the backtest wants**: the aim, in whole shares in Korea. -/
theorem Trackable.wanted : wanted cfg prices (localEquity cfg snap prices) targets sym =
    wholeInKr sym (aim cfg snap targets prices sym px) := by
  have hzero : wholeInKr sym 0 = 0 := by
    unfold wholeInKr
    split
    · exact Whole.zero.truncate_eq
    · rfl
  rw [Backtest.wanted, Dict.getD, Dict.get?_mapValues, aim, Dict.getD]
  cases hw : targets.get? sym with
  | none => simp [hzero]
  | some weight =>
    have hp := h.positive sym px hpx
    rw [Option.map_some, Option.getD_some, Option.getD_some, desiredQuantity, hpx]
    show (if px ≤ 0 ∨ weight ≤ 0 then 0 else _) = _
    split
    · next hskip =>
      have hweight : weight = 0 :=
        le_antisymm (hskip.resolve_left hp.not_ge) (h.weights sym weight hw)
      rw [hweight, mul_zero, zero_div, hzero]
    · rw [h.fractional, wholeInKr, h.country sym hsym]
      cases cfg.country <;> rfl

/-- What a planned order comes to: the shares the backtest wants, or one more of a Korean sale. -/
theorem Trackable.moved {drift price : Decimal} {intent : OrderIntent}
    (hplan : planSymbol targets snap [cfg.country] prices sym = some (drift, intent, price)) :
    let want := Backtest.wanted cfg prices (localEquity cfg snap prices) targets sym
    let moved := snap.shares.getD sym 0 + intent.signed
    (moved = want ∨ cfg.country = .KR ∧ want < snap.shares.getD sym 0 ∧ moved = want + 1) ∧
      |moved - snap.shares.getD sym 0| ≤ |want - snap.shares.getD sym 0| := by
  have hp := h.positive sym px hpx
  have he := h.equity_pos
  have haim := h.aim_nonneg hpx
  have hplanned := planSymbol_planned hplan
  obtain ⟨qty, hqty, hpos⟩ := hplanned.positive
  have hprice : price = px := Option.some.inj (hplanned.priced.1.symm.trans hpx)
  have hdrift := hplanned.drift_eq
  rw [h.drift hpx] at hdrift
  have hfor : Runner.quantityFor snap sym drift price =
      wholeInKr sym |aim cfg snap targets prices sym px - snap.shares.getD sym 0| := by
    rw [Runner.quantityFor, hplanned.drift_eq, hprice, h.raw hsym hpx]
  rw [h.wanted hsym hpx]
  dsimp only
  generalize aim cfg snap targets prices sym px = x at *
  generalize hq : snap.shares.getD sym 0 = q at *
  have hwhole (hkr : countryOf sym = .KR) : Whole q := by
    rw [← hq]
    exact h.held_whole ((h.country sym hsym).symm.trans hkr) sym
  have hheld : 0 ≤ q := hq ▸ h.held_nonneg sym
  rw [OrderIntent.signed, hqty, Option.getD_some]
  cases hside : intent.side with
  | BUY =>
    obtain ⟨hband, hbuy⟩ := hplanned.buy hside
    rw [hdrift, le_div_iff₀ he] at hband
    have hup : q < x := by
      have hmove := (mul_pos band_pos he).trans_le hband
      linarith [(pos_iff_pos_of_mul_pos hmove).mpr hp]
    rw [hbuy, hfor, abs_of_pos (sub_pos.mpr hup), wholeInKr_sub hwhole hup.le hheld] at hqty
    cases hqty
    exact ⟨.inl (add_sub_cancel q _), by rw [add_sub_cancel]⟩
  | SELL =>
    obtain ⟨hband, pos, hpos', hsell⟩ := hplanned.sell hside
    rw [hdrift, div_le_iff₀ he] at hband
    have hdown : x < q := by
      have hmove : 0 < (q - x) * px := (mul_pos band_pos he).trans_le (by linarith)
      linarith [(pos_iff_pos_of_mul_pos hmove).mpr hp]
    have hqpos : pos.quantity = q := by
      rw [← hq, shares_getD, hpos']
      rfl
    rw [hsell, sellQuantity, hfor, hqpos, abs_of_neg (sub_neg.mpr hdown), neg_sub] at hqty
    dsimp only
    have hcut : wholeInKr sym (min (wholeInKr sym (q - x)) q) = wholeInKr sym (q - x) := by
      rw [min_eq_left ((wholeInKr_le (sub_pos.mpr hdown).le sym).trans (by linarith)), wholeInKr_wholeInKr]
    rw [hcut] at hqty
    cases hqty
    have hmoved : q + -wholeInKr sym (q - x) = wholeInKr sym x ∨
        cfg.country = .KR ∧ q + -wholeInKr sym (q - x) = wholeInKr sym x + 1 := by
      unfold wholeInKr
      split
      · next hkr =>
        rw [← sub_eq_add_neg]
        exact (sub_truncate (hwhole hkr) haim hdown.le).imp_right fun hone =>
          ⟨(h.country sym hsym).symm.trans hkr, hone⟩
      · left
        ring
    refine ⟨hmoved.imp_right fun hone => ⟨hone.1, by linarith [hone.2], hone.2⟩, ?_⟩
    have hless : wholeInKr sym x ≤ q + -wholeInKr sym (q - x) := by
      rcases hmoved with hsame | ⟨-, hone⟩ <;> linarith
    rw [abs_of_neg (by linarith), abs_of_neg (by linarith)]
    linarith

/-- Where nothing is planned the drift is in the band, or less than a Korean share. -/
theorem Trackable.unplanned (hnone : planSymbol targets snap [cfg.country] prices sym = none) :
    |aim cfg snap targets prices sym px - snap.shares.getD sym 0| * px <
        Runner.band * localEquity cfg snap prices ∨
      cfg.country = .KR ∧ |aim cfg snap targets prices sym px - snap.shares.getD sym 0| < 1 := by
  have hp := h.positive sym px hpx
  have he := h.equity_pos
  have hraw := h.raw hsym hpx
  have hfar : |targets.getD sym 0 - held snap sym| * localEquity cfg snap prices =
      |aim cfg snap targets prices sym px - snap.shares.getD sym 0| * px := by
    rw [h.drift hpx, abs_div, abs_mul, abs_of_pos hp, abs_of_pos he, div_mul_cancel₀ _ he.ne']
  by_cases hband : Runner.band ≤ |targets.getD sym 0 - held snap sym|
  · right
    have hmarket : countryOf sym ∈ [cfg.country] := by simp [h.country sym hsym]
    rcases planned_of_far h.quoted hmarket hband hpx hp h.weights with ⟨drift, order, hplan⟩ | ⟨hkr, hzero⟩
    · rw [hnone] at hplan
      cases hplan
    · refine ⟨(h.country sym hsym).symm.trans hkr, ?_⟩
      rw [aimedQuantity, hraw] at hzero
      cases hheld : snap.positions.get? sym with
      | none =>
        rw [hheld] at hzero
        exact (truncate_eq_zero (abs_nonneg _)).mp hzero
      | some pos =>
        have hshares := h.quoted.shares sym pos hheld
        have hone := (h.whole ((h.country sym hsym).symm.trans hkr) sym pos hheld).one_le hshares
        rw [hheld] at hzero
        dsimp only at hzero
        split at hzero
        · rw [truncate_eq_zero (le_min (abs_nonneg _) hshares.le)] at hzero
          exact (min_lt_iff.mp hzero).resolve_right hone.not_gt
        · exact (truncate_eq_zero (abs_nonneg _)).mp hzero
  · left
    rw [← hfar]
    exact mul_lt_mul_of_pos_right (not_le.mp hband) he

end

/-! ### Both ends -/

/-- With distinct keys, a key has one entry. -/
theorem filter_key {α κ : Type*} [DecidableEq κ] (key : α → κ) {l : List α} (hnodup : (l.map key).Nodup)
    {x : α} (hx : x ∈ l) : (l.filter fun y => key y = key x) = [x] := by
  obtain ⟨front, back, rfl⟩ := List.append_of_mem hx
  rw [List.map_append, List.map_cons, List.nodup_middle, List.nodup_cons, List.mem_append, not_or] at hnodup
  have hnone {l : List α} (hl : key x ∉ l.map key) : (l.filter fun y => key y = key x) = [] :=
    List.filter_eq_nil_iff.mpr fun y hy hkey =>
      hl (List.mem_map.mpr ⟨y, hy, of_decide_eq_true hkey⟩)
  rw [List.filter_append, List.filter_cons_of_pos (by simp), hnone hnodup.1.1, hnone hnodup.1.2,
    List.nil_append]

theorem plannedShares_of_some (hsym : sym ∈ targets.keys ∨ sym ∈ snap.positions.keys)
    (hequity : 0 < snap.equityKrw) {drift price : Decimal} {intent : OrderIntent}
    (hplan : planSymbol targets snap [cfg.country] prices sym = some (drift, intent, price)) :
    plannedShares cfg snap targets prices sym = snap.shares.getD sym 0 + intent.signed := by
  have hmem : (intent, price) ∈ buildIntents targets snap [cfg.country] prices :=
    (mem_buildIntents ..).mpr ⟨hequity, sym, drift, hsym, hplan⟩
  have hone := filter_key (fun order : OrderIntent × Decimal => order.1.symbol)
    buildIntents_distinct hmem
  rw [(planSymbol_planned hplan).intent_symbol] at hone
  rw [plannedShares, hone, List.map_singleton, List.sum_singleton]

theorem plannedShares_of_none (hplan : planSymbol targets snap [cfg.country] prices sym = none) :
    plannedShares cfg snap targets prices sym = snap.shares.getD sym 0 := by
  have hnone : ((buildIntents targets snap [cfg.country] prices).filter
      fun order => order.1.symbol = sym) = [] := by
    refine List.filter_eq_nil_iff.mpr fun order horder hkey => ?_
    obtain ⟨-, other, drift, -, hother⟩ := (mem_buildIntents ..).mp horder
    have hsame := (planSymbol_planned hother).intent_symbol.symm.trans (of_decide_eq_true hkey)
    rw [hsame, hplan] at hother
    cases hother
  rw [plannedShares, hnone, List.map_nil, List.sum_nil, add_zero]

/-- The backtest leaves a symbol as its turn does. -/
theorem Trackable.outcome (h : Trackable cfg snap targets prices) (date : Date) (reason : String)
    (hsym : sym ∈ targets.keys ∨ sym ∈ snap.positions.keys) :
    Backtest.Outcome cfg prices (localEquity cfg snap prices) date reason sym (snap.shares.getD sym 0)
      (Backtest.wanted cfg prices (localEquity cfg snap prices) targets sym)
      (cashAtTurn cfg prices (localEquity cfg snap prices) date reason (snap.localCash cfg.country)
        snap.shares targets sym)
      ((backtested cfg snap targets prices date reason).positions.getD sym 0) := by
  let step := trade cfg prices (localEquity cfg snap prices) date reason
  let start : Batch := { cash := snap.localCash cfg.country, positions := snap.shares }
  have hkeys : sym ∈ targets.keys ∨ sym ∈ snap.shares.keys := by
    refine hsym.imp_right fun hheld => ?_
    obtain ⟨pos, hpos⟩ := (Dict.mem_keys ..).mp hheld
    exact (Dict.mem_keys ..).mpr ⟨pos.quantity, by rw [AccountSnapshot.shares_get?, hpos]; rfl⟩
  have hheld : ∀ sym q, snap.shares.get? sym = some q → 0 ≤ q := fun sym q hq =>
    (h.held_pos (sym, q) ((Dict.get?_eq_some ..).mp hq)).le
  have haccounted : Accounted cfg prices (snap.localCash cfg.country) snap.shares
      ((ordered cfg prices (localEquity cfg snap prices) targets snap.shares).foldl step start) :=
    trades_accounted (localEquity cfg snap prices) date reason hheld _
  have hfinal : (backtested cfg snap targets prices date reason).positions.getD sym 0 =
      ((ordered cfg prices (localEquity cfg snap prices) targets snap.shares).foldl step
        start).positions.getD sym 0 := getD_positive haccounted.held_nonneg sym
  have hnodup := ordered_nodup cfg prices (localEquity cfg snap prices) targets snap.shares
  obtain ⟨front, back, hsplit⟩ :=
    List.append_of_mem (mem_ordered cfg prices (localEquity cfg snap prices) hkeys)
  rw [hsplit] at hnodup
  obtain ⟨hbefore, hafter⟩ :=
    (trade_local cfg prices (localEquity cfg snap prices) date reason).turn hnodup start
  have hstart : (front.foldl step start).positions.getD sym 0 = snap.shares.getD sym 0 := hbefore
  have hturn := trade_outcome cfg prices (localEquity cfg snap prices) date reason
    (front.foldl step start)
    (sym, Backtest.wanted cfg prices (localEquity cfg snap prices) targets sym)
    (hstart ▸ h.held_nonneg sym) (wanted_nonneg cfg prices h.equity_pos.le targets sym)
  have hfront : ((front ++ (sym, Backtest.wanted cfg prices (localEquity cfg snap prices) targets sym) ::
      back).takeWhile fun order => order.1 ≠ sym) = front := by
    rw [List.map_append, List.map_cons, List.nodup_middle, List.nodup_cons, List.mem_append,
      not_or] at hnodup
    have hbefore : ∀ order ∈ front, decide (order.1 ≠ sym) = true := fun order horder =>
      decide_eq_true fun heq => hnodup.1.1 (List.mem_map.mpr ⟨order, horder, heq⟩)
    rw [List.takeWhile_append_of_pos hbefore, List.takeWhile_cons_of_neg (by simp), List.append_nil]
  rw [hfinal, cashAtTurn, hsplit, hfront, ← hstart]
  exact hafter ▸ hturn

theorem slack_nonneg (hpx : 0 ≤ px) : 0 ≤ slack cfg px := by
  unfold slack
  split
  · exact hpx
  · exact le_rfl

/-- Where only the backtest trades, its move is in the band or cut to a share. -/
theorem Trackable.tracks_reached (h : Trackable cfg snap targets prices)
    (hsym : sym ∈ targets.keys ∨ sym ∈ snap.positions.keys) (hpx : prices sym = some px)
    (hnone : planSymbol targets snap [cfg.country] prices sym = none) (lacks : Prop) :
    let want := Backtest.wanted cfg prices (localEquity cfg snap prices) targets sym
    Tracks cfg lacks px (localEquity cfg snap prices) (snap.shares.getD sym 0) want (snap.shares.getD sym 0)
      want := by
  have hp := h.positive sym px hpx
  have haim := h.aim_nonneg hpx
  have hslack : 0 ≤ slack cfg px := slack_nonneg hp.le
  have hsmall := h.unplanned hsym hpx hnone
  rw [h.wanted hsym hpx]
  dsimp only
  generalize aim cfg snap targets prices sym px = x at *
  have hheld := h.held_nonneg sym
  by_cases hkr : cfg.country = .KR
  · have hkr' : countryOf sym = .KR := (h.country sym hsym).trans hkr
    have hwhole := h.held_whole hkr sym
    generalize snap.shares.getD sym 0 = q at *
    have hlow : wholeInKr sym x ≤ x := wholeInKr_le haim sym
    have hhigh : x < wholeInKr sym x + 1 := by
      rw [wholeInKr, if_pos hkr']
      exact lt_truncate_add_one haim
    have hwant : Whole (wholeInKr sym x) := wholeInKr_whole hkr' x
    rcases hsmall with hband | ⟨-, hone⟩
    · refine .small (.inl rfl) (lt_max_of_lt_right ?_)
      have hgap : |q - wholeInKr sym x| ≤ |x - q| + 1 := by
        calc |q - wholeInKr sym x| = |(x - wholeInKr sym x) - (x - q)| := by ring_nf
          _ ≤ |x - wholeInKr sym x| + |x - q| := abs_sub _ _
          _ ≤ |x - q| + 1 := by
            rw [abs_of_nonneg (sub_nonneg.mpr hlow)]
            linarith
      rw [slack, if_pos hkr]
      calc |q - wholeInKr sym x| * px ≤ (|x - q| + 1) * px := mul_le_mul_of_nonneg_right hgap hp.le
        _ = |x - q| * px + px := by ring
        _ < _ := by linarith
    · rw [abs_lt] at hone
      rcases le_or_gt q x with hup | hdown
      · have hle : q ≤ wholeInKr sym x := by
          rw [wholeInKr, if_pos hkr']
          exact le_truncate hwhole hup haim
        exact .same (hwhole.eq_of_lt hwant hle (by linarith))
      · have hless : wholeInKr sym x + 1 ≤ q := by
          have hpos := (hwhole.sub hwant).one_le (by linarith)
          linarith
        have hone' : Whole (wholeInKr sym x + 1) := hwant.add ⟨1, by norm_num⟩
        exact .oneMore hkr (by linarith) (hone'.eq_of_lt hwhole hless (by linarith)).symm
  · have hus : wholeInKr sym x = x := by
      rw [wholeInKr, if_neg]
      rw [h.country sym hsym]
      exact hkr
    rw [hus]
    refine .small (.inl rfl) (lt_max_of_lt_right ?_)
    rw [abs_sub_comm]
    exact (hsmall.resolve_right fun hother => hkr hother.1).trans_le (le_add_of_nonneg_right hslack)

/-- Without a price neither trades. -/
theorem Trackable.tracks_unpriced (h : Trackable cfg snap targets prices) (date : Date) (reason : String)
    (hsym : sym ∈ targets.keys ∨ sym ∈ snap.positions.keys) (hpx : prices sym = none) :
    plannedShares cfg snap targets prices sym =
      (backtested cfg snap targets prices date reason).positions.getD sym 0 := by
  have hnone : planSymbol targets snap [cfg.country] prices sym = none := by
    unfold planSymbol
    simp [hpx]
  have hheld : snap.shares.getD sym 0 = 0 := by
    rw [shares_getD]
    cases hpos : snap.positions.get? sym with
    | none => rfl
    | some pos =>
      obtain ⟨px, hpriced⟩ := h.priced sym ((Dict.mem_keys ..).mpr ⟨pos, hpos⟩)
      rw [hpx] at hpriced
      cases hpriced
  have hwant : Backtest.wanted cfg prices (localEquity cfg snap prices) targets sym = 0 := by
    rw [Backtest.wanted, Dict.getD, Dict.get?_mapValues]
    cases targets.get? sym with
    | none => rfl
    | some weight =>
      rw [Option.map_some, Option.getD_some, desiredQuantity, hpx]
  have hout := h.outcome date reason hsym
  rw [plannedShares_of_none hnone]
  cases hout with
  | reached hfinal => rw [hfinal, hheld, hwant]
  | unpriced _ hfinal => exact hfinal.symm
  | dust px hpriced => cases hpx.symm.trans hpriced
  | inBand px hpriced => cases hpx.symm.trans hpriced
  | short px bought hpriced => cases hpx.symm.trans hpriced

/-- **The plan tracks the backtest.** An account that both are to bring to the same weights at the
same prices ends, symbol by symbol, with the same shares, but for a share of a Korean sale that is
not cut, a move too small for one of the two, and a purchase that the backtest lacks the cash for;
and without a price neither trades. -/
theorem plan_tracks_backtest (h : Trackable cfg snap targets prices) (date : Date) (reason : String)
    (hsym : sym ∈ targets.keys ∨ sym ∈ snap.positions.keys) :
    let held := snap.shares.getD sym 0
    let want := Backtest.wanted cfg prices (localEquity cfg snap prices) targets sym
    let traded := (backtested cfg snap targets prices date reason).positions.getD sym 0
    (∀ px, prices sym = some px → Tracks cfg (LacksCash cfg snap targets prices date reason sym px) px
      (localEquity cfg snap prices) held want (plannedShares cfg snap targets prices sym) traded) ∧
      (prices sym = none → plannedShares cfg snap targets prices sym = traded) := by
  refine ⟨fun px hpx => ?_, h.tracks_unpriced date reason hsym⟩
  have hp := h.positive sym px hpx
  have hout := h.outcome date reason hsym
  generalize (backtested cfg snap targets prices date reason).positions.getD sym 0 = traded at hout ⊢
  cases hplan : planSymbol targets snap [cfg.country] prices sym with
  | none =>
    rw [plannedShares_of_none hplan]
    cases hout with
    | reached hfinal =>
      rw [hfinal]
      exact h.tracks_reached hsym hpx hplan _
    | unpriced _ hfinal => exact .same hfinal.symm
    | dust _ _ _ _ hfinal => exact .same hfinal.symm
    | inBand _ _ _ _ _ _ hfinal => exact .same hfinal.symm
    | short px' bought hpx' _ hbought hless hlacks _ hfinal =>
      cases hpx.symm.trans hpx'
      exact .short hlacks (by linarith) (by linarith)
  | some order =>
    obtain ⟨drift, intent, price⟩ := order
    obtain ⟨hmoved, hgap⟩ := h.moved hsym hpx hplan
    rw [plannedShares_of_some hsym h.quoted.equity hplan]
    cases hout with
    | reached hfinal =>
      rcases hmoved with hsame | ⟨hkr, hless, hone⟩
      · exact .same (hsame.trans hfinal.symm)
      · exact .oneMore hkr (by linarith) (by linarith)
    | unpriced hnone _ => exact absurd (hnone px hpx) hp.not_ge
    | dust px' hpx' _ hdust hfinal =>
      cases hpx.symm.trans hpx'
      refine .small (.inr hfinal) (lt_max_of_lt_left (lt_of_le_of_lt ?_ hdust))
      rw [hfinal, mul_comm px]
      exact mul_le_mul_of_nonneg_right hgap hp.le
    | inBand px' hpx' _ _ _ hband hfinal =>
      cases hpx.symm.trans hpx'
      rw [h.band] at hband
      refine .small (.inr hfinal) (lt_max_of_lt_right (lt_of_le_of_lt ?_
        (hband.trans_le (le_add_of_nonneg_right (slack_nonneg hp.le)))))
      rw [hfinal, mul_comm px]
      exact mul_le_mul_of_nonneg_right hgap hp.le
    | short px' bought hpx' _ hbought hless hlacks _ hfinal =>
      cases hpx.symm.trans hpx'
      exact .short hlacks (by linarith) (by linarith)

/-- Ten shares, as much cash again, and a third of both wanted in these shares. -/
def tenHeld : AccountSnapshot where
  cashKrw := 100000
  positions := Dict.ofList [("069500", ⟨"069500", 10, 9000, .KRW⟩)]
  usdKrw := 1400
  prices := Dict.ofList [("069500", 10000)]

def thirdAndHalf : Dict Symbol Decimal := Dict.ofList [("069500", 1 / 3), ("102110", 1 / 2)]

theorem tenHeld_get? {sym : Symbol} {pos : Position} (h : tenHeld.positions.get? sym = some pos) :
    sym = "069500" ∧ pos = ⟨"069500", 10, 9000, .KRW⟩ := by
  have hmem := (Dict.get?_eq_some ..).mp h
  have hone : tenHeld.positions.entries = [("069500", ⟨"069500", 10, 9000, .KRW⟩)] := rfl
  rw [hone, List.mem_singleton] at hmem
  cases hmem
  exact ⟨rfl, rfl⟩

theorem tenHeld_trackable : Trackable {} tenHeld thirdAndHalf swapPrices := by
  have hprice {sym : Symbol} {px : Decimal} (hpx : swapPrices sym = some px) : px = 10000 := by
    unfold swapPrices at hpx
    split at hpx
    · cases hpx
      rfl
    · cases hpx
  refine ⟨⟨by decide +kernel, by decide +kernel, fun sym pos hheld => ?_, fun sym pos hheld => ?_,
    fun sym px hpx pos hheld => ?_⟩, by decide +kernel, ?_, ?_, fun sym px hpx => ?_, rfl,
    fun _ sym pos hheld => ?_, fun sym weight hweight => ?_, rfl⟩
  · obtain ⟨rfl, rfl⟩ := tenHeld_get? hheld
    rfl
  · obtain ⟨rfl, rfl⟩ := tenHeld_get? hheld
    decide
  · obtain ⟨rfl, rfl⟩ := tenHeld_get? hheld
    rw [hprice hpx]
    rfl
  · have hall : ∀ sym ∈ thirdAndHalf.keys ++ tenHeld.positions.keys, countryOf sym = .KR := by
      decide +kernel
    exact fun sym hsym => hall sym (List.mem_append.mpr hsym)
  · intro sym hsym
    obtain ⟨pos, hheld⟩ := (Dict.mem_keys ..).mp hsym
    obtain ⟨rfl, -⟩ := tenHeld_get? hheld
    exact ⟨10000, rfl⟩
  · rw [hprice hpx]
    norm_num
  · obtain ⟨rfl, rfl⟩ := tenHeld_get? hheld
    exact ⟨10, by norm_num⟩
  · refine Dict.ofList_property (P := fun w => 0 ≤ w) (fun e he => ?_) hweight
    rcases List.mem_cons.mp he with rfl | he
    · norm_num
    · rw [List.mem_singleton.mp he]
      norm_num

/-- Six shares and two thirds are wanted: the backtest keeps six, and the plan seven. -/
theorem plan_tracks_backtest_third :
    plannedShares {} tenHeld thirdAndHalf swapPrices "069500" = 7 ∧
      (backtested {} tenHeld thirdAndHalf swapPrices ⟨2026, 2, 2⟩ "").positions.getD "069500" 0 = 6 ∧
      Tracks {} (LacksCash {} tenHeld thirdAndHalf swapPrices ⟨2026, 2, 2⟩ "" "069500" 10000) 10000
        (localEquity {} tenHeld swapPrices) (tenHeld.shares.getD "069500" 0)
        (Backtest.wanted {} swapPrices (localEquity {} tenHeld swapPrices) thirdAndHalf "069500")
        (plannedShares {} tenHeld thirdAndHalf swapPrices "069500")
        ((backtested {} tenHeld thirdAndHalf swapPrices ⟨2026, 2, 2⟩ "").positions.getD "069500" 0) :=
  ⟨by decide +kernel, by decide +kernel,
    (plan_tracks_backtest tenHeld_trackable ⟨2026, 2, 2⟩ "" (.inl (by decide +kernel))).1 10000 rfl⟩

end
end Runner
end Tqt
