import Tqt.Backtest.Conservation
import Tqt.Foundation.Sweep

/-! What one rebalance achieves.

A symbol is looked at once, in its turn, and no other turn touches what is held of it, so a
rebalance leaves it as its turn does: where it was wanted, where it was, or short of it for lack
of cash (`Outcome`). In Korea a purchase that the cash does not cover is cut to the largest number
of shares that it does (`Largest`). -/
namespace Tqt.Backtest

section
variable (cfg : BacktestConfig) (prices : Symbol → Option Decimal) (equity : Decimal)
  (date : Date) (reason : String)

/-- The quantity a rebalance wants of a symbol; none of one that is not targeted. -/
def wanted (targets : Dict Symbol Decimal) (sym : Symbol) : Decimal :=
  (targets.mapValues (desiredQuantity cfg prices equity)).getD sym 0

/-- What a purchase takes from the cash. -/
def needed (sym : Symbol) (refPx quantity : Decimal) : Decimal :=
  let f := makeFill cfg date reason .BUY sym refPx quantity
  f.price * f.quantity + f.cost.total

/-- The cash covers the price of so many shares and the commission on it. -/
def Fits (cash : Decimal) (sym : Symbol) (refPx : Decimal) (shares : ℕ) : Prop :=
  let f := makeFill cfg date reason .BUY sym refPx shares
  f.price * f.quantity + f.cost.commission ≤ cash

/-- The largest purchase that the cash covers, or none where that is zero or dust. -/
def Largest (cash : Decimal) (sym : Symbol) (refPx bought : Decimal) : Prop :=
  (∃ shares : ℕ, bought = shares ∧
      IsGreatest (Fits cfg date reason cash sym refPx) shares) ∨
    bought = 0 ∧ ∀ shares, Fits cfg date reason cash sym refPx shares →
      shares = 0 ∨ fillPrice cfg .BUY refPx * shares < cfg.dustThreshold

/-- How a rebalance leaves a symbol: the quantity held before, the one wanted, the cash at its
turn and the quantity held in the end. -/
inductive Outcome (sym : Symbol) (held want cash final : Decimal) : Prop where
  | reached : final = want → Outcome sym held want cash final
  | unpriced : (∀ px, prices sym = some px → px ≤ 0) → final = held →
      Outcome sym held want cash final
  | dust (px : Decimal) : prices sym = some px → 0 < px → px * |want - held| < cfg.dustThreshold →
      final = held → Outcome sym held want cash final
  | inBand (px : Decimal) : prices sym = some px → 0 < px → 0 < held → 0 < equity →
      px * |want - held| < cfg.rebalanceBand * equity → final = held →
      Outcome sym held want cash final
  | short (px bought : Decimal) : prices sym = some px → 0 < px → 0 ≤ bought →
      bought < want - held → cash < needed cfg date reason sym px (want - held) →
      (cfg.country = .KR → cfg.fractional = false → Largest cfg date reason cash sym px bought) →
      final = held + bought → Outcome sym held want cash final

/-- The cash when the turn of a symbol comes. -/
def cashAtTurn (cash : Decimal) (positions targets : Dict Symbol Decimal) (sym : Symbol) : Decimal :=
  (((ordered cfg prices equity targets positions).takeWhile fun order => order.1 ≠ sym).foldl
    (trade cfg prices equity date reason) { cash, positions }).cash

/-- Everything a rebalance does to the account it starts with. -/
structure Achieved (cash : Decimal) (positions targets : Dict Symbol Decimal) (b : Batch) : Prop where
  once : (b.fills.map Fill.symbol).Nodup
  sellsFirst : b.fills.Pairwise fun first second => second.side = .SELL → first.side = .SELL
  outcome : ∀ sym, sym ∈ targets.keys ∨ sym ∈ positions.keys →
    Outcome cfg prices equity date reason sym (positions.getD sym 0)
      (wanted cfg prices equity targets sym)
      (cashAtTurn cfg prices equity date reason cash positions targets sym)
      (b.positions.getD sym 0)

end

/-! ### A purchase the cash does not cover -/

section
variable (cfg : BacktestConfig) (date : Date) (reason : String)

theorem fits_iff (hkr : cfg.country = .KR) {cash refPx : Decimal} (hp : 0 < refPx) {sym : Symbol}
    {shares : ℕ} : Fits cfg date reason cash sym refPx shares ↔
      (shares : Decimal) ≤ cash / affordablePrice cfg (fillPrice cfg .BUY refPx) := by
  have hfill := fillPrice_buy_pos cfg hp
  have hprice := lt_of_lt_of_le hfill (le_affordablePrice cfg hfill.le)
  have hfx : cfg.chargesFx cfg.costModel = false := by simp [BacktestConfig.chargesFx, hkr]
  rw [le_div_iff₀ hprice, affordablePrice, hfx]
  show fillPrice cfg .BUY refPx * shares + (cfg.costModel.costOf ..).commission ≤ cash ↔ _
  rw [CostModel.costOf_commission, abs_of_nonneg (mul_nonneg hfill.le (Nat.cast_nonneg shares))]
  refine iff_of_eq (congrArg (· ≤ cash) ?_)
  simp only [Bool.false_eq_true, if_false]
  ring

/-- In Korea what the cash allows is the largest number of shares that fits, or none does. -/
theorem trimmed_largest (hkr : cfg.country = .KR) (hwhole : cfg.fractional = false)
    (cash : Decimal) {refPx : Decimal} (hp : 0 < refPx) (sym : Symbol) :
    if affordableQuantity cfg cash (fillPrice cfg .BUY refPx) ≤ 0 ∨
        fillPrice cfg .BUY refPx * affordableQuantity cfg cash (fillPrice cfg .BUY refPx) <
          cfg.dustThreshold then
      Largest cfg date reason cash sym refPx 0
    else Largest cfg date reason cash sym refPx
      (affordableQuantity cfg cash (fillPrice cfg .BUY refPx)) := by
  have hfill := fillPrice_buy_pos cfg hp
  have hprice := lt_of_lt_of_le hfill (le_affordablePrice cfg hfill.le)
  have htrimmed : affordableQuantity cfg cash (fillPrice cfg .BUY refPx) =
      truncate (cash / affordablePrice cfg (fillPrice cfg .BUY refPx)) := by
    rw [affordableQuantity, if_neg (by simp [hwhole]), if_pos hprice]
  have hle {shares : ℕ} (hfits : Fits cfg date reason cash sym refPx shares) :
      (shares : Decimal) ≤ affordableQuantity cfg cash (fillPrice cfg .BUY refPx) := by
    rw [htrimmed]
    have h := (fits_iff cfg date reason hkr hp).mp hfits
    exact le_truncate ⟨shares, (Int.cast_natCast shares).symm⟩ h (shares.cast_nonneg.trans h)
  split
  · next hskip =>
    refine .inr ⟨rfl, fun shares hfits => ?_⟩
    rcases hskip with hnone | hdust
    · exact .inl (Nat.cast_nonpos.mp ((hle hfits).trans hnone))
    · exact .inr (lt_of_le_of_lt (mul_le_mul_of_nonneg_left (hle hfits) hfill.le) hdust)
  · next htrade =>
    rw [not_or, not_le] at htrade
    obtain ⟨n, hn⟩ := truncate_whole (cash / affordablePrice cfg (fillPrice cfg .BUY refPx))
    rw [← htrimmed] at hn
    have hpos := htrade.1
    rw [hn, Int.cast_pos] at hpos
    obtain ⟨shares, rfl⟩ := Int.eq_ofNat_of_zero_le hpos.le
    rw [Int.cast_natCast] at hn
    refine .inl ⟨shares, hn, ?_, fun other hother => ?_⟩
    · refine (fits_iff cfg date reason hkr hp).mpr ?_
      rw [← hn, le_div_iff₀ hprice]
      exact affordableQuantity_le cfg hp htrade.1
    · exact Nat.cast_le.mp ((hle hother).trans hn.le)

end

/-! ### One turn -/

section
variable (cfg : BacktestConfig) (prices : Symbol → Option Decimal) (equity : Decimal)
  (date : Date) (reason : String)

/-- A purchase goes through whole, or what the cash allows of it, or not at all. -/
theorem buyQuantity_outcome {sym : Symbol} {held want px : Decimal} (cash : Decimal)
    (hpx : prices sym = some px) (hp : 0 < px) (hup : 0 < want - held) :
    Outcome cfg prices equity date reason sym held want cash
      (held + (buyQuantity cfg date reason cash sym px (want - held)).getD 0) := by
  unfold buyQuantity
  simp only
  split
  · next hneed =>
    have hlargest (hkr : cfg.country = .KR) (hwhole : cfg.fractional = false) :=
      trimmed_largest cfg date reason hkr hwhole cash hp sym
    split
    · next hskip =>
      exact .short px 0 hpx hp le_rfl hup hneed
        (fun hkr hwhole => Eq.mp (if_pos hskip) (hlargest hkr hwhole)) rfl
    · next htrade =>
      have hpos := not_le.mp (not_or.mp htrade).1
      exact .short px _ hpx hp hpos.le
        (affordableQuantity_lt cfg date reason hp hup.le hneed hpos) hneed
        (fun hkr hwhole => Eq.mp (if_neg htrade) (hlargest hkr hwhole)) rfl
  · exact .reached (add_sub_cancel held want)

/-- A turn changes nothing that is held of another symbol. -/
theorem trade_local : Local (trade cfg prices equity date reason) Prod.fst
    fun b sym => b.positions.getD sym 0 := by
  intro b order sym hsym
  rcases trade_cases cfg prices equity date reason b order with hsame | ⟨f, hf, hbook⟩
  · rw [hsame]
  · show (trade cfg prices equity date reason b order).positions.getD sym 0 = b.positions.getD sym 0
    rw [hbook, getD_book, if_neg fun hfill => hsym (hfill.symm.trans hf.symbol), add_zero]

/-- **One turn.** -/
theorem trade_outcome (b : Batch) (order : Symbol × Decimal) (hheld : 0 ≤ b.positions.getD order.1 0)
    (hwant : 0 ≤ order.2) :
    Outcome cfg prices equity date reason order.1 (b.positions.getD order.1 0) order.2 b.cash
      ((trade cfg prices equity date reason b order).positions.getD order.1 0) := by
  obtain ⟨sym, want⟩ := order
  simp only at hheld hwant ⊢
  unfold trade
  simp only
  cases hpx : prices sym with
  | none =>
    refine .unpriced (fun px h => ?_) rfl
    cases hpx.symm.trans h
  | some px =>
    simp only
    split
    · next hskip =>
      rcases hskip with hzero | hp
      · exact .reached (sub_eq_zero.mp hzero).symm
      · refine .unpriced (fun px' h => ?_) rfl
        cases hpx.symm.trans h
        exact hp
    · next htraded =>
      rw [not_or, not_le] at htraded
      obtain ⟨hne, hp⟩ := htraded
      split
      · next hdust => exact .dust px hpx hp hdust rfl
      · split
        · next hband =>
          obtain ⟨hequity, hband, hpos⟩ := hband
          exact .inBand px hpx hp hpos hequity ((div_lt_iff₀ hequity).mp hband) rfl
        · split
          · next hup =>
            rw [abs_of_pos hup]
            have hbuy := buyQuantity_outcome cfg prices equity date reason b.cash hpx hp hup
            split
            · next hnone =>
              rwa [hnone, Option.getD_none, add_zero] at hbuy
            · next qty hqty =>
              rw [hqty, Option.getD_some] at hbuy
              have hfinal : (b.book (makeFill cfg date reason .BUY sym px qty)).positions.getD sym 0 =
                  b.positions.getD sym 0 + qty := by
                rw [getD_book]
                exact congrArg _ (if_pos rfl)
              rwa [hfinal]
          · next hdown =>
            have hless := lt_of_le_of_ne (not_lt.mp hdown) hne
            have hcovered : |want - b.positions.getD sym 0| ≤ b.positions.getD sym 0 := by
              rw [abs_of_neg hless]
              linarith
            rw [min_eq_left hcovered, if_neg (abs_pos.mpr hne).not_ge, getD_book]
            refine .reached ?_
            show b.positions.getD sym 0 + (if sym = sym then -|want - b.positions.getD sym 0| else 0) = want
            rw [if_pos rfl, abs_of_neg hless]
            ring

/-! ### The whole rebalance -/

/-- The orders ask for each symbol that is targeted or held, once, and for what is wanted of it. -/
theorem ordered_nodup (targets positions : Dict Symbol Decimal) :
    ((ordered cfg prices equity targets positions).map Prod.fst).Nodup :=
  ((List.perm_insertionSort _ _).map Prod.fst).nodup_iff.mpr
    (desired cfg prices equity targets positions).nodup

theorem mem_ordered {targets positions : Dict Symbol Decimal} {sym : Symbol}
    (h : sym ∈ targets.keys ∨ sym ∈ positions.keys) :
    (sym, wanted cfg prices equity targets sym) ∈ ordered cfg prices equity targets positions := by
  rw [ordered, List.mem_insertionSort, ← Dict.get?_eq_some, desired, Dict.get?_foldl_setDefault]
  split
  · rfl
  · next hheld =>
    obtain ⟨weight, hweight⟩ := (Dict.mem_keys targets sym).mp (h.resolve_right hheld)
    rw [wanted, Dict.getD, Dict.get?_mapValues, hweight]
    rfl

variable {equity} in
theorem wanted_nonneg (hequity : 0 ≤ equity) (targets : Dict Symbol Decimal) (sym : Symbol) :
    0 ≤ wanted cfg prices equity targets sym := by
  refine Dict.getD_property _ _ le_rfl fun sym q hq => ?_
  rw [Dict.get?_mapValues] at hq
  obtain ⟨weight, -, rfl⟩ := Option.map_eq_some_iff.mp hq
  unfold desiredQuantity
  split
  · split
    · exact le_rfl
    · next hskip =>
      rw [not_or, not_le, not_le] at hskip
      have hraw := div_nonneg (mul_nonneg hequity hskip.2.le) hskip.1.le
      split
      · exact hraw
      · exact le_truncate Whole.zero hraw hraw
  · exact le_rfl

theorem equityOf_nonneg {cash : Decimal} {positions : Dict Symbol Decimal} (hcash : 0 ≤ cash)
    (hheld : ∀ e ∈ positions.entries, 0 < e.2) (hprices : ∀ sym px, prices sym = some px → 0 ≤ px) :
    0 ≤ equityOf cash positions prices := by
  rw [equityOf_eq]
  refine add_nonneg hcash (List.sum_nonneg fun x hx => ?_)
  obtain ⟨e, he, rfl⟩ := List.mem_map.mp hx
  unfold worth
  split
  · next px hpx => exact mul_nonneg (hprices e.1 px hpx) (hheld e he).le
  · exact le_rfl

/-- A fill of an order goes its way. -/
structure Follows (positions : Dict Symbol Decimal) (f : Fill) (order : Symbol × Decimal) : Prop where
  symbol : f.symbol = order.1
  buy : f.side = .BUY → 0 < order.2 - positions.getD order.1 0
  sell : f.side = .SELL → order.2 - positions.getD order.1 0 < 0

/-- The fills follow the orders. -/
theorem trades_follow (cash : Decimal) (targets positions : Dict Symbol Decimal) :
    ∃ orders, orders.Sublist (ordered cfg prices equity targets positions) ∧
      List.Forall₂ (Follows positions)
        ((ordered cfg prices equity targets positions).foldl
          (trade cfg prices equity date reason) { cash, positions }).fills orders := by
  have hturn : ∀ front order back, ordered cfg prices equity targets positions = front ++ order :: back →
      (trade cfg prices equity date reason (front.foldl (trade cfg prices equity date reason)
          { cash, positions }) order).fills =
        (front.foldl (trade cfg prices equity date reason) { cash, positions }).fills ∨
      ∃ f, (trade cfg prices equity date reason (front.foldl (trade cfg prices equity date reason)
          { cash, positions }) order).fills =
        (front.foldl (trade cfg prices equity date reason) { cash, positions }).fills ++ [f] ∧
        Follows positions f order := by
    intro front order back hsplit
    have hnodup := ordered_nodup cfg prices equity targets positions
    rw [hsplit] at hnodup
    have hheld := ((trade_local cfg prices equity date reason).turn hnodup { cash, positions }).1
    rcases trade_cases cfg prices equity date reason
      (front.foldl (trade cfg prices equity date reason) { cash, positions }) order with
      hsame | ⟨f, hf, hbook⟩
    · exact .inl (congrArg Batch.fills hsame)
    · have hdirection := hf.direction
      simp only [hheld] at hdirection
      refine .inr ⟨f, congrArg Batch.fills hbook, hf.symbol, fun hbuy => ?_, fun hsell => ?_⟩
      · rw [if_pos hbuy] at hdirection
        exact sub_pos.mpr hdirection
      · rw [if_neg (by rw [hsell]; decide)] at hdirection
        exact sub_neg.mpr hdirection
  obtain ⟨fills, orders, hlog, hsub, hfollow⟩ := foldl_log _ _ hturn
  rw [List.nil_append] at hlog
  exact ⟨orders, hsub, hlog ▸ hfollow⟩

/-- **What one rebalance achieves.** -/
theorem rebalance_achieved {cash : Decimal} {positions : Dict Symbol Decimal} (hcash : 0 ≤ cash)
    (hheld : ∀ e ∈ positions.entries, 0 < e.2) (hprices : ∀ sym px, prices sym = some px → 0 ≤ px)
    (targets : Dict Symbol Decimal) :
    Achieved cfg prices (equityOf cash positions prices) date reason cash positions targets
      (rebalance cfg prices (equityOf cash positions prices) date reason cash positions targets) := by
  have hequity := equityOf_nonneg prices hcash hheld hprices
  generalize equityOf cash positions prices = equity at hequity ⊢
  have hnodup := ordered_nodup cfg prices equity targets positions
  obtain ⟨orders, hsub, hfollow⟩ := trades_follow cfg prices equity date reason cash targets positions
  refine ⟨?_, ?_, fun sym hsym => ?_⟩
  · have hdistinct : orders.Pairwise fun a b => a.1 ≠ b.1 :=
      (List.pairwise_map.mp hnodup).sublist hsub
    rw [List.Nodup, List.pairwise_map]
    refine pairwise_of_forall₂ hfollow hdistinct fun {f g i j} hf hg hne => ?_
    rwa [hf.symbol, hg.symbol]
  · have hsorted : orders.Pairwise fun a b =>
        a.2 - positions.getD a.1 0 ≤ b.2 - positions.getD b.1 0 :=
      (pairwise_sortBy (fun order : Symbol × Decimal => order.2 - positions.getD order.1 0) _).sublist hsub
    refine pairwise_of_forall₂ hfollow hsorted fun {f g i j} hf hg hle hsell => ?_
    cases hside : f.side with
    | SELL => rfl
    | BUY => exact absurd (hf.buy hside) (hle.trans_lt (hg.sell hsell)).not_gt
  · have hmem := mem_ordered cfg prices equity hsym
    obtain ⟨front, back, hsplit⟩ := List.append_of_mem hmem
    have hheld₀ : ∀ sym q, positions.get? sym = some q → 0 ≤ q :=
      fun sym q hq => (hheld (sym, q) ((Dict.get?_eq_some _ _ _).mp hq)).le
    have haccounted : Accounted cfg prices cash positions
        ((ordered cfg prices equity targets positions).foldl
          (trade cfg prices equity date reason) { cash, positions }) :=
      trades_accounted equity date reason hheld₀ _
    have hfinal : (rebalance cfg prices equity date reason cash positions targets).positions.getD sym 0 =
        ((ordered cfg prices equity targets positions).foldl
          (trade cfg prices equity date reason) { cash, positions }).positions.getD sym 0 :=
      getD_positive haccounted.held_nonneg sym
    rw [hfinal, cashAtTurn]
    rw [hsplit] at hnodup ⊢
    have hbefore : ∀ order ∈ front, order.1 ≠ sym := by
      intro order horder heq
      rw [List.map_append, List.map_cons, List.nodup_middle, List.nodup_cons] at hnodup
      exact hnodup.1 (List.mem_append_left _ (List.mem_map.mpr ⟨order, horder, heq⟩))
    have hfront : ((front ++ (sym, wanted cfg prices equity targets sym) :: back).takeWhile
        fun order => order.1 ≠ sym) = front := by
      rw [List.takeWhile_append_of_pos fun order horder => decide_eq_true (hbefore order horder),
        List.takeWhile_cons_of_neg (by simp), List.append_nil]
    obtain ⟨hstart, hend⟩ := (trade_local cfg prices equity date reason).turn hnodup { cash, positions }
    rw [hfront]
    simp only at hstart hend
    rw [hend, ← hstart]
    refine trade_outcome cfg prices equity date reason _ (sym, wanted cfg prices equity targets sym) ?_
      (wanted_nonneg cfg prices hequity targets sym)
    rw [hstart]
    exact positions.getD_property sym le_rfl hheld₀

end

def swapPrices (sym : Symbol) : Option Decimal :=
  if sym = "069500" ∨ sym = "102110" then some 10000 else none

/-- Ten shares are swapped for another symbol, of which twenty are wanted and nineteen fit. -/
def swap : Batch :=
  rebalance {} swapPrices (equityOf 100000 (Dict.ofList [("069500", 10)]) swapPrices) ⟨2026, 2, 2⟩ ""
    100000 (Dict.ofList [("069500", 10)]) (Dict.ofList [("102110", 1)])

theorem rebalance_achieved_swap :
    swap.fills.map (fun f => (f.symbol, f.side, f.quantity)) =
        [("069500", .SELL, 10), ("102110", .BUY, 19)] ∧
      Achieved {} swapPrices (equityOf 100000 (Dict.ofList [("069500", 10)]) swapPrices) ⟨2026, 2, 2⟩ ""
        100000 (Dict.ofList [("069500", 10)]) (Dict.ofList [("102110", 1)]) swap := by
  refine ⟨by decide +kernel, rebalance_achieved _ _ _ _ (by norm_num) ?_ ?_ _⟩
  · decide +kernel
  · intro sym px hpx
    unfold swapPrices at hpx
    split at hpx
    · cases hpx
      norm_num
    · cases hpx

end Tqt.Backtest
