import Tqt.Backtest.Engine

/-! Solvency of a backtest.

The invariant `Solvent` holds of a batch at every fill and of the run after every bar,
whatever the strategy returns: the cash is not negative, what is held is what the fills
add up to, no sale exceeds it, and in whole-share mode everything is whole. The only
assumption about the table and the costs is that sales pay for their own charges at
the fill prices (`SalesPay`). -/
namespace Tqt.Backtest

/-- What the fills leave held of a symbol: bought less sold. -/
def netQuantity (sym : Symbol) (fills : List Fill) : Decimal :=
  (fills.map fun f => if f.symbol = sym then f.signed else 0).sum

theorem netQuantity_snoc (sym : Symbol) (fills : List Fill) (f : Fill) :
    netQuantity sym (fills ++ [f]) =
      netQuantity sym fills + if f.symbol = sym then f.signed else 0 := by
  simp [netQuantity]

/-- At the fill price of any positive quote, a sale brings in at least its charges. -/
def SalesPay (cfg : BacktestConfig) (prices : Symbol → Option Decimal) : Prop :=
  ∀ sym px, prices sym = some px → 0 < px → ∀ qty, 0 < qty →
    (cfg.costModel.costOf .SELL cfg.country (fillPrice cfg .SELL px) qty
      (cfg.etfSymbols.contains sym) false).total ≤ fillPrice cfg .SELL px * qty

structure Solvent (cfg : BacktestConfig) (fills : List Fill) (cash : Decimal)
    (positions : Dict Symbol Decimal) : Prop where
  cash_nonneg : 0 ≤ cash
  held_nonneg : ∀ sym q, positions.get? sym = some q → 0 ≤ q
  held_net : ∀ sym, positions.getD sym 0 = netQuantity sym fills
  covered : ∀ n f, fills[n]? = some f → f.side = .SELL →
    f.quantity ≤ netQuantity f.symbol (fills.take n)
  held_whole : cfg.fractional = false → ∀ sym q, positions.get? sym = some q → Whole q
  fill_whole : cfg.fractional = false → ∀ f ∈ fills, Whole f.quantity

theorem Solvent.start (cfg : BacktestConfig) {cash : Decimal} (h : 0 ≤ cash) :
    Solvent cfg [] cash ∅ :=
  ⟨h, nofun, fun _ => rfl, by simp, fun _ => nofun, by simp⟩

theorem getD_book (b : Batch) (f : Fill) (sym : Symbol) :
    (b.book f).positions.getD sym 0 =
      b.positions.getD sym 0 + if f.symbol = sym then f.signed else 0 := by
  simp only [Batch.book, Dict.getD_insert]
  by_cases h : sym = f.symbol
  · subst h
    cases hs : f.side <;> simp [Fill.signed, hs, sub_eq_add_neg]
  · simp [h, Ne.symm h]

/-- Dropping empty positions does not change what is held. -/
theorem getD_positive {positions : Dict Symbol Decimal}
    (h : ∀ sym q, positions.get? sym = some q → 0 ≤ q) (sym : Symbol) :
    (positions.filter fun _ q => 0 < q).getD sym 0 = positions.getD sym 0 := by
  unfold Dict.getD
  rw [Dict.get?_filter]
  cases hq : positions.get? sym with
  | none => rfl
  | some q =>
    rcases lt_or_eq_of_le (h sym q hq) with hpos | hzero
    · simp [Option.filter_some, hpos]
    · simp [Option.filter_some, ← hzero]

section Batch
variable {cfg : BacktestConfig} {prices : Symbol → Option Decimal} {equity : Decimal}
  {date : Date} {reason : String}

/-- A booked fill leaves the cash non-negative. -/
theorem book_cash {b : Batch} {order : Symbol × Decimal} {f : Fill} (hpay : SalesPay cfg prices)
    (hcash : 0 ≤ b.cash) (hf : Booked cfg prices date reason b order f) : 0 ≤ (b.book f).cash := by
  cases hs : f.side with
  | BUY =>
    simp only [Batch.book, hs]
    linarith [hf.affordable hs]
  | SELL =>
    obtain ⟨refPx, hpx, hp, hmade⟩ := hf.made
    have hprice : f.price = fillPrice cfg .SELL refPx := by
      rw [hmade, hs]
      rfl
    have hcost : f.cost = cfg.costModel.costOf .SELL cfg.country (fillPrice cfg .SELL refPx)
        f.quantity (cfg.etfSymbols.contains order.1) false := by
      conv_lhs => rw [hmade, hs]
      rfl
    simp only [Batch.book, hs, hprice, hcost]
    linarith [hpay order.1 refPx hpx hp f.quantity hf.positive]

/-- Every booked fill keeps the batch solvent, on top of the fills of the past. -/
theorem Solvent.book {past : List Fill} {b : Batch} {order : Symbol × Decimal} {f : Fill}
    (hpay : SalesPay cfg prices) (h : Solvent cfg (past ++ b.fills) b.cash b.positions)
    (hwant : cfg.fractional = false → Whole order.2)
    (hf : Booked cfg prices date reason b order f) :
    Solvent cfg (past ++ (b.book f).fills) (b.book f).cash (b.book f).positions := by
  have hsym := hf.symbol
  have hheld : 0 ≤ b.positions.getD order.1 0 :=
    b.positions.getD_property order.1 le_rfl h.held_nonneg
  have hfills : past ++ (b.book f).fills = past ++ b.fills ++ [f] := by simp [Batch.book]
  have hqty : cfg.fractional = false → Whole f.quantity := fun hfr => hf.whole hfr (hwant hfr)
    (b.positions.getD_property order.1 Whole.zero (h.held_whole hfr))
  rw [hfills]
  refine ⟨book_cash hpay h.cash_nonneg hf, ?_, ?_, ?_, ?_, ?_⟩
  · intro sym q hq
    refine b.positions.insert_property (P := fun q => 0 ≤ q) ?_ h.held_nonneg hq
    rw [hsym]
    cases hs : f.side with
    | BUY => exact add_nonneg hheld hf.positive.le
    | SELL => exact sub_nonneg.mpr (hf.covered hs)
  · intro sym
    rw [getD_book, netQuantity_snoc, h.held_net]
  · intro n g hg hs
    rcases Nat.lt_or_ge n (past ++ b.fills).length with hn | hn
    · rw [List.getElem?_append_left hn] at hg
      rw [List.take_append_of_le_length hn.le]
      exact h.covered n g hg hs
    · -- The new fill: it sells from what the earlier ones left.
      rw [List.getElem?_append_right hn, List.getElem?_singleton, ite_eq_iff] at hg
      obtain ⟨hlast, rfl⟩ : n - (past ++ b.fills).length = 0 ∧ f = g := by simpa using hg
      have hlen : n = (past ++ b.fills).length := by omega
      rw [hlen, List.take_left, ← h.held_net, hsym]
      exact hf.covered hs
  · intro hfr sym q hq
    refine b.positions.insert_property (P := Whole) ?_ (h.held_whole hfr) hq
    have hheld' := b.positions.getD_property f.symbol Whole.zero (h.held_whole hfr)
    cases hs : f.side with
    | BUY => exact hheld'.add (hqty hfr)
    | SELL => exact hheld'.sub (hqty hfr)
  · intro hfr g hg
    rcases List.mem_append.mp hg with hg | hg
    · exact h.fill_whole hfr g hg
    · rw [List.mem_singleton.mp hg]
      exact hqty hfr

/-- In whole-share mode every order asks for whole shares. -/
theorem ordered_whole (hfr : cfg.fractional = false) {targets positions : Dict Symbol Decimal}
    {order : Symbol × Decimal} (h : order ∈ ordered cfg prices equity targets positions) :
    Whole order.2 := by
  have hmem : order ∈ (desired cfg prices equity targets positions).entries :=
    (List.mem_insertionSort _).mp h
  have hwanted : ∀ sym q,
      (targets.mapValues (desiredQuantity cfg prices equity)).get? sym = some q → Whole q := by
    intro sym q hq
    rw [Dict.get?_mapValues] at hq
    obtain ⟨weight, -, rfl⟩ := Option.map_eq_some_iff.mp hq
    unfold desiredQuantity
    split
    · split
      · exact Whole.zero
      · rw [if_neg (by simp [hfr])]
        exact truncate_whole _
    · exact Whole.zero
  have hget := (Dict.get?_eq_some _ order.1 order.2).mpr hmem
  rw [desired, Dict.get?_foldl_setDefault] at hget
  split at hget
  · rw [← Option.some.inj hget]
    exact Dict.getD_property _ _ Whole.zero hwanted
  · exact hwanted _ _ hget

variable (equity date reason) in
/-- A whole rebalance keeps the account solvent and leaves no empty position. -/
theorem Solvent.rebalance {past : List Fill} {cash : Decimal} {positions : Dict Symbol Decimal}
    (hpay : SalesPay cfg prices) (h : Solvent cfg past cash positions)
    (targets : Dict Symbol Decimal) :
    let b := rebalance cfg prices equity date reason cash positions targets
    Solvent cfg (past ++ b.fills) b.cash b.positions ∧
      ∀ sym q, b.positions.get? sym = some q → 0 < q := by
  intro b
  have hbatch := trades_induction cfg prices equity date reason
    (P := fun b => Solvent cfg (past ++ b.fills) b.cash b.positions)
    (ordered cfg prices equity targets positions)
    (fun b' order f ho hb hf => hb.book hpay (fun hfr => ordered_whole hfr ho) hf)
    { cash, positions } (by simpa using h)
  have hfilter : ∀ sym q, b.positions.get? sym = some q →
      0 < q ∧ ((ordered cfg prices equity targets positions).foldl
        (trade cfg prices equity date reason) { cash, positions }).positions.get? sym = some q := by
    intro sym q hq
    simp only [b, Backtest.rebalance, Dict.get?_filter, Option.filter_eq_some_iff,
      decide_eq_true_eq] at hq
    exact ⟨hq.2, hq.1⟩
  refine ⟨⟨hbatch.cash_nonneg, fun sym q hq => (hfilter sym q hq).1.le, ?_, hbatch.covered,
    fun hfr sym q hq => hbatch.held_whole hfr sym q (hfilter sym q hq).2, hbatch.fill_whole⟩,
    fun sym q hq => (hfilter sym q hq).1⟩
  intro sym
  exact (getD_positive hbatch.held_nonneg sym).trans (hbatch.held_net sym)

end Batch

/-! ### The run -/

variable {σ : Type} (bt : Backtester) (strategy : Strategy σ)

/-- The account between two bars. -/
structure Sound (cfg : BacktestConfig) (st : RunState σ) : Prop where
  solvent : Solvent cfg st.fills st.cash st.positions
  held_pos : ∀ sym q, st.positions.get? sym = some q → 0 < q

theorem sound_execute {bar : Bar} {st : RunState σ} (hpay : SalesPay bt.config bar.opens)
    (h : Sound bt.config st) : Sound bt.config (bt.execute bar st).1 := by
  unfold Backtester.execute
  split
  · exact h
  · next targets _ =>
    obtain ⟨hsolvent, hpos⟩ := Solvent.rebalance (equityOf st.cash st.positions bar.opens) bar.date
      st.pendingReason hpay h.solvent targets
    exact ⟨hsolvent, hpos⟩

/-- Deciding touches neither the account nor the fills. -/
theorem decide_account (i : ℕ) (bar : Bar) (st : RunState σ) :
    (bt.decide strategy i bar st).cash = st.cash ∧
      (bt.decide strategy i bar st).positions = st.positions ∧
      (bt.decide strategy i bar st).fills = st.fills ∧
      (bt.decide strategy i bar st).totalCost = st.totalCost := by
  unfold Backtester.decide
  split
  · exact ⟨rfl, rfl, rfl, rfl⟩
  · split
    · exact ⟨rfl, rfl, rfl, rfl⟩
    · split <;> exact ⟨rfl, rfl, rfl, rfl⟩

theorem sound_onBar {i : ℕ} {bar : Bar} {st : RunState σ} (hpay : SalesPay bt.config bar.opens)
    (h : Sound bt.config st) : Sound bt.config (bt.onBar strategy i bar st) := by
  have hexec := sound_execute bt hpay h
  obtain ⟨hcash, hpos, hfills, -⟩ := decide_account bt strategy i bar
    (bt.mark bar (bt.execute bar st).2 (bt.execute bar st).1)
  rw [Backtester.onBar_eq]
  constructor
  · rw [hcash, hpos, hfills]
    exact hexec.solvent
  · rw [hpos]
    exact hexec.held_pos

theorem sound_loop {bars : List Bar} (hpay : ∀ bar ∈ bars, SalesPay bt.config bar.opens) (i : ℕ)
    {st : RunState σ} (h : Sound bt.config st) : Sound bt.config (bt.loop strategy i bars st) := by
  induction bars generalizing i st with
  | nil => exact h
  | cons bar rest ih =>
    exact ih (fun b hb => hpay b (List.mem_cons_of_mem bar hb)) (i + 1)
      (sound_onBar bt strategy (hpay bar (List.mem_cons_self ..)) h)

/-- **After every bar of every run**, whatever the strategy: cash is not negative, every
held quantity is positive and is what the fills add up to, every sale was covered by
what was held before it, and in whole-share mode every held and every filled quantity
is whole. -/
theorem backtest_solvent (s : σ) (n : ℕ) (hcash : 0 ≤ bt.config.initialCash)
    (hpay : ∀ bar ∈ bt.bars, SalesPay bt.config bar.opens) :
    let st := bt.after strategy s n
    0 ≤ st.cash ∧
      (∀ sym q, st.positions.get? sym = some q → 0 < q ∧ q = netQuantity sym st.fills) ∧
      (∀ k f, st.fills[k]? = some f → f.side = .SELL →
        f.quantity ≤ netQuantity f.symbol (st.fills.take k)) ∧
      (bt.config.fractional = false →
        (∀ sym q, st.positions.get? sym = some q → Whole q) ∧ ∀ f ∈ st.fills, Whole f.quantity) := by
  intro st
  have hsound : Sound bt.config st :=
    sound_loop bt strategy (fun bar hb => hpay bar (List.mem_of_mem_take hb)) 0
      ⟨Solvent.start bt.config hcash, nofun⟩
  refine ⟨hsound.solvent.cash_nonneg, fun sym q hq => ⟨hsound.held_pos sym q hq, ?_⟩,
    hsound.solvent.covered,
    fun hfr => ⟨hsound.solvent.held_whole hfr, hsound.solvent.fill_whole hfr⟩⟩
  rw [← hsound.solvent.held_net, Dict.getD, hq]
  rfl

/-- KR sales pay at any quote, with rates that leave something of the proceeds. -/
theorem salesPay_kr {cfg : BacktestConfig} (hkr : cfg.country = .KR)
    (hslip : cfg.costModel.slippageRate .KR ≤ 1)
    (hrates : ∀ isEtf, cfg.costModel.krCommissionRate + cfg.costModel.sellTaxRate .KR isEtf ≤ 1)
    (prices : Symbol → Option Decimal) : SalesPay cfg prices := by
  intro sym px _ hpx qty hqty
  rw [hkr]
  refine cfg.costModel.sell_kr_total_le _ (hrates _) ?_ hqty.le
  rw [fillPrice, hkr]
  exact mul_nonneg hpx.le (by linarith)

theorem backtest_solvent_flat :
    (flat.after (allIn "069500") () 3).fills.map Fill.quantity = [99] ∧
      0 ≤ (flat.after (allIn "069500") () 3).cash :=
  ⟨by decide +kernel,
    (backtest_solvent flat (allIn "069500") () 3 (by decide +kernel) fun bar _ =>
      salesPay_kr rfl (by decide +kernel) CostModel.default_kr_rates bar.opens).1⟩

end Tqt.Backtest
