import Tqt.Backtest.Solvency
import Tqt.Execution.PaperLedger

/-! A backtest on the paper broker.

The fills of a backtest, submitted one by one to a paper broker with the same cost model at
quotes that are the fill prices, are all accepted, and leave the paper account with the cash,
the positions and the fills of the backtest (`backtest_replays`). `Mirrors` relates the two
ledgers at every fill; one booked fill keeps it (`Mirrors.book`), whatever the strategy. Both
ledgers are exact, without the roundings of the decimal context. -/
namespace Tqt

namespace PaperBroker

/-- An order at a price, of a size that can be filled, that is paid for and is not a duplicate
goes through. -/
theorem attempt_traded {pb : PaperBroker} {m : Market} {intent : OrderIntent} {st : Store}
    {px qty : Decimal} {source : String} (hprice : executionPrice m intent = (some px, source))
    (hpos : 0 < px)
    (hsize : sizeOf intent px ((positions (fxFor m intent st).1).get? intent.symbol) = .ok qty)
    (hcash : intent.side = .BUY → (tradeOf pb m intent px source (fxFor m intent st).2 qty).grossKrw +
      (tradeOf pb m intent px source (fxFor m intent st).2 qty).costKrw ≤ cash (fxFor m intent st).1)
    (hfresh : (fxFor m intent st).1.orders.get? (.paper, m.orderId) = none) :
    pb.attempt m intent st = (book (tradeOf pb m intent px source (fxFor m intent st).2 qty)
      (fxFor m intent st).1, .traded (tradeOf pb m intent px source (fxFor m intent st).2 qty)) := by
  unfold attempt
  simp only [hprice, hsize]
  rw [if_neg (not_le.mpr hpos), if_neg (fun h => absurd (hcash h.1) (not_le.mpr h.2)), if_neg]
  show ¬ ((fxFor m intent st).1.orders.get? (.paper, m.orderId)).isSome = true
  rw [hfresh]
  exact Bool.false_ne_true

end PaperBroker

namespace Backtest
open PaperBroker (Ledger quantityOf paperFills)

/-- The paper broker with the costs of a backtest. -/
def paperOf (cfg : BacktestConfig) : PaperBroker where
  costModel := cfg.costModel
  etfSymbols := cfg.etfSymbols

/-- What a unit of the sleeve's currency is in KRW. -/
def factor (country : Country) (usdKrw : Decimal) : Decimal := if country = .US then usdKrw else 1

/-- What a replay takes from outside: the rate, an id for each order, and a time. -/
structure Playback where
  usdKrw : Decimal
  ids : ℕ → String
  now : Instant

/-- The `n`-th fill as an order, on a market that quotes its price on both sides. -/
def replayCall (play : Playback) (n : ℕ) (f : Fill) : Market × OrderIntent :=
  ({ book := some (some f.price, some f.price)
     last := none
     fx := some play.usdKrw
     orderId := play.ids n
     now := play.now },
    .market f.symbol f.side f.quantity "" f.reason)

def replay (play : Playback) (fills : List Fill) : List (Market × OrderIntent) :=
  fills.mapIdx (replayCall play)

/-- What a row of the paper ledger says of a fill. -/
def recorded (f : FillRow) : Symbol × Side × Decimal × Decimal × Decimal × Decimal :=
  (f.symbol, f.side, f.quantity, f.price, f.commission, f.tax)

/-- The same of a fill of the backtest. -/
def charged (f : Fill) : Symbol × Side × Decimal × Decimal × Decimal × Decimal :=
  (f.symbol, f.side, f.quantity, f.price, f.cost.commission,
    f.cost.tax + f.cost.regulatory + f.cost.fx)

/-- The paper account holds what the backtest holds. -/
structure Mirrors (fx start : Decimal) (ids : ℕ → String) (s : Store × List (FillRow × Decimal))
    (fills : List Fill) (cash : Decimal) (positions : Dict Symbol Decimal) : Prop where
  ledger : Ledger start s.2 s.1
  cash : PaperBroker.cash s.1 = fx * cash
  held : ∀ sym, quantityOf s.1 sym = positions.getD sym 0
  rows : (paperFills s.1).map recorded = fills.map charged
  fresh : ∀ k, fills.length ≤ k → s.1.orders.get? (.paper, ids k) = none

section Step
variable {cfg : BacktestConfig} {prices : Symbol → Option Decimal} {date : Date} {reason : String}
  {start : Decimal} {b : Batch} {order : Symbol × Decimal} {f : Fill}

theorem factor_pos (country : Country) {usdKrw : Decimal} (h : 0 < usdKrw) : 0 < factor country usdKrw := by
  unfold factor
  split
  · exact h
  · exact one_pos

/-- A sale still has a price after the slippage. -/
theorem Booked.price_pos (hf : Booked cfg prices date reason b order f)
    (hslip : cfg.costModel.slippageRate cfg.country < 1) : 0 < f.price := by
  obtain ⟨refPx, -, hpos, hmade⟩ := hf.made
  have hprice : f.price = fillPrice cfg f.side refPx := by
    conv_lhs => rw [hmade]
    rfl
  rw [hprice]
  cases f.side with
  | BUY => exact fillPrice_buy_pos cfg hpos
  | SELL => exact mul_pos hpos (by linarith)

theorem Booked.cost_eq (hf : Booked cfg prices date reason b order f) :
    f.cost = cfg.costModel.costOf f.side cfg.country f.price f.quantity
      (cfg.etfSymbols.contains f.symbol) false := by
  obtain ⟨refPx, -, -, hmade⟩ := hf.made
  have hsymbol := hf.symbol
  have hprice : f.price = fillPrice cfg f.side refPx := by
    conv_lhs => rw [hmade]
    rfl
  rw [hprice, hsymbol]
  conv_lhs => rw [hmade]
  rfl

variable (play : Playback) (n : ℕ)

/-- The rate of a call is the sleeve's. -/
theorem replay_fx (st : Store) (hcountry : countryOf f.symbol = cfg.country) :
    (PaperBroker.fxFor (replayCall play n f).1 (replayCall play n f).2 st).2 =
      factor cfg.country play.usdKrw := by
  show (if countryOf f.symbol = .US then _ else _ : Store × Decimal).2 = _
  rw [hcountry, factor]
  split <;> rfl

/-- The size of the order is the quantity of the fill. -/
theorem replay_size {st : Store} (hf : Booked cfg prices date reason b order f)
    (hwhole : countryOf f.symbol = .KR → Whole f.quantity)
    (hcovered : f.side = .SELL →
      ∃ pos, (PaperBroker.positions st).get? f.symbol = some pos ∧ f.quantity ≤ pos.quantity) :
    PaperBroker.sizeOf (replayCall play n f).2 f.price
      ((PaperBroker.positions st).get? f.symbol) = .ok f.quantity := by
  have hqty : wholeInKr f.symbol f.quantity = f.quantity := by
    unfold wholeInKr
    split
    · next hkr => exact (hwhole hkr).truncate_eq
    · rfl
  simp only [PaperBroker.sizeOf, replayCall, OrderIntent.market, Option.some_or, hqty]
  rw [if_neg (not_le.mpr hf.positive)]
  cases hs : f.side with
  | BUY => rfl
  | SELL =>
    obtain ⟨pos, hpos, hle⟩ := hcovered hs
    simp only [hpos, Option.elim_some, min_eq_left hle]
    rw [if_neg (not_le.mpr hf.positive)]

theorem replay_price (hprice : 0 < f.price) :
    PaperBroker.executionPrice (replayCall play n f).1 (replayCall play n f).2 =
      (some f.price, "book") := by
  have hne : decide (f.price ≠ 0) = true := decide_eq_true hprice.ne'
  unfold PaperBroker.executionPrice
  cases hs : f.side <;> simp [replayCall, OrderIntent.market, hs, hne, Option.filter]

/-- What the paper broker makes of a fill. -/
def replayTrade (cfg : BacktestConfig) (play : Playback) (n : ℕ) (f : Fill) : Trade :=
  PaperBroker.tradeOf (paperOf cfg) (replayCall play n f).1 (replayCall play n f).2
    f.price "book" (factor cfg.country play.usdKrw) f.quantity

theorem replayTrade_cost (hf : Booked cfg prices date reason b order f)
    (hcountry : countryOf f.symbol = cfg.country) :
    (replayTrade cfg play n f).cost = f.cost := by
  rw [hf.cost_eq, ← hcountry]
  rfl

/-- Its cash is the fill's, in KRW. -/
theorem replayTrade_need (hf : Booked cfg prices date reason b order f)
    (hcountry : countryOf f.symbol = cfg.country) :
    (replayTrade cfg play n f).grossKrw = factor cfg.country play.usdKrw * (f.price * f.quantity) ∧
      (replayTrade cfg play n f).costKrw = factor cfg.country play.usdKrw * f.cost.total := by
  constructor
  · exact mul_comm _ _
  · rw [Trade.costKrw, replayTrade_cost play n hf hcountry]
    exact mul_comm _ _

theorem replay_salesPay (hf : Booked cfg prices date reason b order f) (hpay : SalesPay cfg prices)
    (hcountry : countryOf f.symbol = cfg.country) (hprice : 0 < f.price) :
    PaperBroker.SalesPay (paperOf cfg) (replayCall play n f).1
      (replayCall play n f).2 := by
  intro hs px hpx _ qty hqty
  rw [replay_price play n hprice] at hpx
  cases hpx
  obtain ⟨refPx, hquote, hpos, hmade⟩ := hf.made
  have hside : f.side = .SELL := hs
  have hsold : f.price = fillPrice cfg .SELL refPx := by
    rw [hmade, hside]
    rfl
  have hpays := hpay order.1 refPx hquote hpos qty hqty
  rw [← hsold, ← hcountry, ← hf.symbol] at hpays
  exact hpays

/-- A fill of the sleeve's own market, in whole shares in Korea. -/
structure Replayable (cfg : BacktestConfig) (f : Fill) : Prop where
  country : countryOf f.symbol = cfg.country
  slippage : cfg.costModel.slippageRate cfg.country < 1
  whole : countryOf f.symbol = .KR → Whole f.quantity

end Step

section Mirrored
variable {cfg : BacktestConfig} {prices : Symbol → Option Decimal} {date : Date} {reason : String}
  {start : Decimal} {b : Batch} {order : Symbol × Decimal} {f : Fill} {play : Playback}
  {s : Store × List (FillRow × Decimal)} {fills : List Fill}
  (h : Mirrors (factor cfg.country play.usdKrw) start play.ids s fills b.cash b.positions) (hpos : 0 < play.usdKrw)
include h hpos

/-- The store once the rate of the call is looked up. -/
theorem Mirrors.looked_up (f : Fill) :
    Ledger start s.2 (PaperBroker.fxFor (replayCall play fills.length f).1
      (replayCall play fills.length f).2 s.1).1 := by
  have hrate : ∀ fx, (replayCall play fills.length f).1.fx = some fx → 0 < fx := by
    rintro fx ⟨⟩
    exact hpos
  exact h.ledger.same (PaperBroker.fxFor_same _ _ s.1) (h.ledger.fx_pos hrate _).2

variable (hf : Booked cfg prices date reason b order f) (hreplay : Replayable cfg f)

omit hpos in
include hf in
/-- What a sale sells is held on paper. -/
theorem Mirrors.covered (hs : f.side = .SELL) {st : Store} (hledger : Ledger start s.2 st)
    (hsame : PaperBroker.SameLedger s.1 st) :
    ∃ pos, (PaperBroker.positions st).get? f.symbol = some pos ∧ f.quantity ≤ pos.quantity := by
  have hle := hf.covered hs
  have hheld : quantityOf st f.symbol = b.positions.getD order.1 0 := by
    rw [← hf.symbol, ← h.held, quantityOf, quantityOf, hsame.positions]
  rw [← hheld, ← hledger.held_quantity] at hle
  cases hpos' : (PaperBroker.positions st).get? f.symbol with
  | none =>
    rw [hpos'] at hle
    exact absurd hle (not_le.mpr hf.positive)
  | some pos =>
    rw [hpos'] at hle
    exact ⟨pos, rfl, hle⟩

include hf hreplay

theorem Mirrors.attempt :
    (paperOf cfg).attempt (replayCall play fills.length f).1
        (replayCall play fills.length f).2 s.1 =
      (PaperBroker.book (replayTrade cfg play fills.length f)
          (PaperBroker.fxFor (replayCall play fills.length f).1
            (replayCall play fills.length f).2 s.1).1,
        .traded (replayTrade cfg play fills.length f)) := by
  have hledger := h.looked_up hpos f
  have hfx := replay_fx play fills.length s.1 hreplay.country
  have hsame := PaperBroker.fxFor_same (replayCall play fills.length f).1
    (replayCall play fills.length f).2 s.1
  have hprice := hf.price_pos hreplay.slippage
  generalize hst : PaperBroker.fxFor (replayCall play fills.length f).1
    (replayCall play fills.length f).2 s.1 = rate at hledger hfx hsame
  have hcash : PaperBroker.cash rate.1 = factor cfg.country play.usdKrw * b.cash := by
    rw [← h.cash, PaperBroker.cash, PaperBroker.cash, hsame.cash]
  have hsize := replay_size play fills.length hf hreplay.whole fun hs => h.covered hf hs hledger hsame
  rw [← hst] at hsize
  have htraded (hcash) (hfresh) : (paperOf cfg).attempt _ _ s.1 = _ :=
    PaperBroker.attempt_traded (replay_price play fills.length hprice) hprice hsize hcash hfresh
  rw [hst, hfx] at htraded
  refine htraded (fun hs => ?_) ?_
  · obtain ⟨hgross, hcost⟩ := replayTrade_need play fills.length hf hreplay.country
    show (replayTrade cfg play fills.length f).grossKrw +
      (replayTrade cfg play fills.length f).costKrw ≤ _
    rw [hgross, hcost, hcash, ← mul_add]
    exact mul_le_mul_of_nonneg_left (hf.affordable hs) (factor_pos cfg.country hpos).le
  · rw [hsame.orders]
    exact h.fresh _ le_rfl

/-- **One booked fill goes through on paper**, and leaves both ledgers as equal as they were. -/
theorem Mirrors.book (hpay : SalesPay cfg prices) (hids : Function.Injective play.ids) :
    Mirrors (factor cfg.country play.usdKrw) start play.ids
      (PaperBroker.step (paperOf cfg) s (replayCall play fills.length f)) (fills ++ [f])
      (b.book f).cash (b.book f).positions := by
  have hledger := h.looked_up hpos f
  have hfx := replay_fx play fills.length s.1 hreplay.country
  have hsame := PaperBroker.fxFor_same (replayCall play fills.length f).1
    (replayCall play fills.length f).2 s.1
  have hattempt := h.attempt hpos hf hreplay
  obtain ⟨hgross, hcost⟩ := replayTrade_need play fills.length hf hreplay.country
  have hpays := replay_salesPay play fills.length hf hpay hreplay.country
    (hf.price_pos hreplay.slippage)
  have hfactor := factor_pos cfg.country hpos
  unfold PaperBroker.step
  rw [hattempt]
  rcases (paperOf cfg).attempt_cases _ _ _ hattempt with hidle | ⟨t, ht, heq⟩
  · exact absurd rfl (hidle.untraded _)
  · obtain rfl : replayTrade cfg play fills.length f = t := by
      injection heq with _ htrade
      injection htrade
    rw [hfx] at ht
    generalize PaperBroker.fxFor (replayCall play fills.length f).1
      (replayCall play fills.length f).2 s.1 = rate at *
    have hnew := hledger.book ht hpays hfactor
    refine ⟨hnew, ?_, fun sym => ?_, ?_, fun k hk => ?_⟩
    · have hcash : PaperBroker.cash rate.1 = factor cfg.country play.usdKrw * b.cash := by
        rw [← h.cash, PaperBroker.cash, PaperBroker.cash, hsame.cash]
      have hside : (replayTrade cfg play fills.length f).side = f.side := rfl
      simp only [hledger.cash_book, hcash, Trade.cashKrw, hgross, hcost, hside, Batch.book]
      cases f.side <;> ring
    · rw [ht.quantityOf_book hledger, getD_book, ← h.held, quantityOf, quantityOf, hsame.positions]
      rfl
    · have hrow : recorded (replayTrade cfg play fills.length f).fillRow = charged f := by
        rw [charged, ← replayTrade_cost play fills.length hf hreplay.country]
        rfl
      have hrows := h.rows
      rw [h.ledger.fills] at hrows
      rw [hnew.fills, List.map_append, List.map_append, hrows, List.map_append]
      exact congrArg _ (congrArg (· :: []) hrow)
    · have hlater : fills.length + 1 ≤ k := by simpa using hk
      have hne : ((BrokerName.paper, play.ids k) : BrokerName × String) ≠ (.paper, play.ids fills.length) :=
        fun heq => (Nat.lt_of_succ_le hlater).ne' (hids (Prod.mk.inj heq).2)
      show (rate.1.orders.insert (.paper, play.ids fills.length) _).get? (.paper, play.ids k) = none
      rw [Dict.get?_insert_of_ne _ _ hne, hsame.orders]
      exact h.fresh k (Nat.le_of_succ_le hlater)

end Mirrored

/-! ### The run -/

section Run
variable {σ : Type} (bt : Backtester) (strategy : Strategy σ) {start : Decimal} {play : Playback}

/-- The paper account after the fills so far mirrors the backtest. -/
structure Replayed (cfg : BacktestConfig) (play : Playback) (start : Decimal) (st₀ : Store)
    (fills : List Fill) (cash : Decimal) (positions : Dict Symbol Decimal) : Prop where
  solvent : Solvent cfg fills cash positions
  mirrors : Mirrors (factor cfg.country play.usdKrw) start play.ids
    ((paperOf cfg).run st₀ (replay play fills)) fills cash positions

/-- The quotes of a table of one market, and costs that leave something of a sale. -/
structure Tradable (cfg : BacktestConfig) (prices : Symbol → Option Decimal) : Prop where
  pays : SalesPay cfg prices
  country : ∀ sym px, prices sym = some px → countryOf sym = cfg.country

/-- Whole shares in Korea, and a slippage under the price. -/
structure Sleeved (cfg : BacktestConfig) : Prop where
  slippage : cfg.costModel.slippageRate cfg.country < 1
  whole : cfg.country = .KR → cfg.fractional = false

theorem Booked.replayable {cfg : BacktestConfig} {prices : Symbol → Option Decimal} {date : Date}
    {reason : String} {b : Batch} {order : Symbol × Decimal} {f : Fill}
    (hf : Booked cfg prices date reason b order f) (hcfg : Sleeved cfg) (hprices : Tradable cfg prices)
    (hwhole : cfg.fractional = false → Whole f.quantity) : Replayable cfg f := by
  obtain ⟨refPx, hquote, -, -⟩ := hf.made
  have hcountry : countryOf f.symbol = cfg.country := by
    rw [hf.symbol]
    exact hprices.country order.1 refPx hquote
  exact ⟨hcountry, hcfg.slippage, fun hkr => hwhole (hcfg.whole (hcountry ▸ hkr))⟩

theorem replay_snoc (play : Playback) (fills : List Fill) (f : Fill) :
    replay play (fills ++ [f]) = replay play fills ++ [replayCall play fills.length f] :=
  List.mapIdx_concat

/-- **A rebalance replays.** -/
theorem Replayed.rebalance {cfg : BacktestConfig} {prices : Symbol → Option Decimal} {st₀ : Store}
    {fills : List Fill} {cash : Decimal} {positions : Dict Symbol Decimal}
    (h : Replayed cfg play start st₀ fills cash positions) (hcfg : Sleeved cfg)
    (hprices : Tradable cfg prices) (hids : Function.Injective play.ids) (hpos : 0 < play.usdKrw)
    (equity : Decimal) (date : Date) (reason : String) (targets : Dict Symbol Decimal) :
    let b := rebalance cfg prices equity date reason cash positions targets
    Replayed cfg play start st₀ (fills ++ b.fills) b.cash b.positions := by
  intro b
  have hbatch := trades_induction cfg prices equity date reason
    (P := fun b => Replayed cfg play start st₀ (fills ++ b.fills) b.cash b.positions)
    (ordered cfg prices equity targets positions)
    (fun b' order f ho hb hf => by
      have hwant : cfg.fractional = false → Whole order.2 := fun hfr => ordered_whole hfr ho
      have hsolvent := hb.solvent.book hprices.pays hwant hf
      have hbooked : fills ++ (b'.book f).fills = fills ++ b'.fills ++ [f] := by simp [Batch.book]
      have hqty : cfg.fractional = false → Whole f.quantity := fun hfr =>
        hsolvent.fill_whole hfr f (hbooked ▸ List.mem_append_right _ (List.mem_singleton_self f))
      refine ⟨hsolvent, ?_⟩
      rw [hbooked, replay_snoc, PaperBroker.run, List.foldl_append]
      exact hb.mirrors.book hpos hf (hf.replayable hcfg hprices hqty) hprices.pays hids)
    { cash, positions } (by simpa using h)
  -- Dropping what was sold out leaves the quantities.
  refine ⟨(Solvent.rebalance equity date reason hprices.pays h.solvent targets).1,
    hbatch.mirrors.ledger, hbatch.mirrors.cash, fun sym => ?_, hbatch.mirrors.rows, hbatch.mirrors.fresh⟩
  exact (hbatch.mirrors.held sym).trans (getD_positive hbatch.solvent.held_nonneg sym).symm

theorem replayed_onBar {st₀ : Store} {i : ℕ} {bar : Bar} {st : RunState σ} (hcfg : Sleeved bt.config)
    (hprices : Tradable bt.config bar.opens) (hids : Function.Injective play.ids) (hpos : 0 < play.usdKrw)
    (h : Replayed bt.config play start st₀ st.fills st.cash st.positions) :
    Replayed bt.config play start st₀ (bt.onBar strategy i bar st).fills
      (bt.onBar strategy i bar st).cash (bt.onBar strategy i bar st).positions := by
  obtain ⟨hcash, hpositions, hfills, -⟩ := decide_account bt strategy i bar
    (bt.mark bar (bt.execute bar st).2 (bt.execute bar st).1)
  rw [Backtester.onBar_eq, hcash, hpositions, hfills]
  show Replayed bt.config play start st₀ (bt.execute bar st).1.fills
    (bt.execute bar st).1.cash (bt.execute bar st).1.positions
  unfold Backtester.execute
  split
  · exact h
  · exact h.rebalance hcfg hprices hids hpos _ _ _ _

theorem replayed_loop {st₀ : Store} {bars : List Bar} (hcfg : Sleeved bt.config)
    (hprices : ∀ bar ∈ bars, Tradable bt.config bar.opens) (hids : Function.Injective play.ids)
    (hpos : 0 < play.usdKrw) (i : ℕ) {st : RunState σ}
    (h : Replayed bt.config play start st₀ st.fills st.cash st.positions) :
    Replayed bt.config play start st₀ (bt.loop strategy i bars st).fills
      (bt.loop strategy i bars st).cash (bt.loop strategy i bars st).positions := by
  induction bars generalizing i st with
  | nil => exact h
  | cons bar rest ih =>
    exact ih (fun b hb => hprices b (List.mem_cons_of_mem bar hb)) (i + 1)
      (replayed_onBar bt strategy hcfg (hprices bar (List.mem_cons_self ..)) hids hpos h)

/-- **A backtest can be traded on paper**: after any bar, whatever the strategy, the fills so far
are all accepted by a paper broker with the same costs at the prices they were filled at, and
leave it with the cash of the backtest in KRW, its positions, and rows of the same quantities,
prices and charges. -/
theorem backtest_replays (s : σ) (n : ℕ) (play : Playback) {st₀ : Store} (hcash : 0 ≤ bt.config.initialCash)
    (hcfg : Sleeved bt.config) (hprices : ∀ bar ∈ bt.bars, Tradable bt.config bar.opens)
    (hids : Function.Injective play.ids) (hpos : 0 < play.usdKrw)
    (hfresh : PaperBroker.Fresh (factor bt.config.country play.usdKrw * bt.config.initialCash) st₀)
    (horders : ∀ k, st₀.orders.get? (.paper, play.ids k) = none) :
    let st := bt.after strategy s n
    let paper := (paperOf bt.config).after st₀ (replay play st.fills)
    PaperBroker.cash paper = factor bt.config.country play.usdKrw * st.cash ∧
      (∀ sym, quantityOf paper sym = st.positions.getD sym 0) ∧
      (paperFills paper).map recorded = st.fills.map charged := by
  intro st paper
  have hstart := mul_nonneg (factor_pos bt.config.country hpos).le hcash
  have hzero : Replayed bt.config play (factor bt.config.country play.usdKrw * bt.config.initialCash)
      st₀ (bt.start s).fills (bt.start s).cash (bt.start s).positions := by
    have hledger := hfresh.ledger hstart
    refine ⟨Solvent.start bt.config hcash, hledger, ?_, fun sym => ?_, ?_, fun k _ => horders k⟩
    · rw [PaperBroker.cash, Dict.getD]
      show (st₀.cash.get? _).getD 0 = _
      rw [hfresh.cash_row]
      rfl
    · show quantityOf st₀ sym = 0
      rw [quantityOf, hfresh.positions]
      rfl
    · show (paperFills st₀).map recorded = []
      rw [hfresh.fills, List.map_nil]
  have hbars : ∀ bar ∈ bt.bars.take n, Tradable bt.config bar.opens :=
    fun bar hb => hprices bar (List.mem_of_mem_take hb)
  have hreplayed := replayed_loop bt strategy hcfg hbars hids hpos 0 hzero
  have hpaper : ((paperOf bt.config).run st₀ (replay play st.fills)).1 = paper :=
    PaperBroker.run_store ..
  rw [← hpaper]
  exact ⟨hreplayed.mirrors.cash, hreplayed.mirrors.held, hreplayed.mirrors.rows⟩

end Run

/-- One letter for each order. -/
def flatPlayback : Playback where
  usdKrw := 1400
  ids := fun k => String.ofList (List.replicate k 'x')
  now := ⟨⟨2026, 2, 2⟩, 0⟩

theorem flatPlayback_ids : Function.Injective flatPlayback.ids := by
  intro a b hab
  have hlists := congrArg String.toList hab
  simpa [flatPlayback] using congrArg List.length hlists

theorem flat_tradable : ∀ bar ∈ flat.bars, Tradable flat.config bar.opens := by
  intro bar hbar
  refine ⟨salesPay_kr rfl (by decide +kernel) CostModel.default_kr_rates bar.opens, ?_⟩
  intro sym px hpx
  obtain ⟨date, rfl⟩ : ∃ date, bar = flatBar date := by
    simp only [flat, List.mem_cons, List.not_mem_nil, or_false] at hbar
    rcases hbar with rfl | rfl | rfl | rfl <;> exact ⟨_, rfl⟩
  by_cases hsym : sym = "069500"
  · rw [hsym]
    decide
  · simp [flatBar, hsym] at hpx

/-- The table of one symbol: the purchase of its third bar on paper. -/
theorem backtest_replays_flat :
    let st := flat.after (allIn "069500") () 3
    let paper := (paperOf flat.config).after (PaperBroker.reset 1000000 {}) (replay flatPlayback st.fills)
    quantityOf paper "069500" = 99 ∧ (paperFills paper).map recorded = st.fills.map charged := by
  intro st paper
  have hfresh : PaperBroker.Fresh (factor flat.config.country flatPlayback.usdKrw *
      flat.config.initialCash) (PaperBroker.reset 1000000 {}) := by
    have hstart : factor flat.config.country flatPlayback.usdKrw * flat.config.initialCash =
        1000000 := by decide +kernel
    rw [hstart]
    refine PaperBroker.fresh_reset 1000000 fun fx hfx => ?_
    cases hfx
  obtain ⟨-, hheld, hrows⟩ := backtest_replays flat (allIn "069500") () 3 flatPlayback
    (by decide +kernel) ⟨by decide +kernel, fun _ => rfl⟩ flat_tradable flatPlayback_ids
    (by norm_num [flatPlayback]) hfresh fun _ => rfl
  exact ⟨(hheld "069500").trans (by decide +kernel), hrows⟩

end Backtest
end Tqt
