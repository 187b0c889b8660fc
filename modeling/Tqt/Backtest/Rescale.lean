import Tqt.Backtest.Validate
import Tqt.Strategy.Signals

/-! Backtests in another unit.

Prices, cash and thresholds may be written in another unit, and with fractional shares the account
may have another size. A strategy of the registry sees shapes only, so it decides the same; from
there the two runs stay in lockstep, bar for bar: the same symbols are traded on the same days, the
money is the same up to one factor and the share counts up to another, and the returns are equal
(`backtest_rescaled`), as long as nothing is rounded. A fee per share is the one charge that is
not a share of the notional. -/
namespace Tqt

/-- `warmup_days` of the strategies; less than none counts as none. -/
def StrategyParams.warmupDays : StrategyParams → ℕ
  | .buyAndHold _ => 1
  | .dualMomentum lookback _ _ => (lookback + 5).toNat
  | .vaa _ _ => 260
  | .faber smaDays => (smaDays + 5).toNat

/-- `build_strategy(key, sleeve, **params)`. -/
def StrategyParams.build (p : StrategyParams) (sleeve : Sleeve) : Strategy Unit where
  warmupDays := p.warmupDays
  rebalanceDates := p.rebalanceDates
  targetWeights := fun s closes asof => (s, p.targetWeights sleeve closes asof)

/-- A common factor on all prices changes no decision. -/
def Strategy.SeesShapes {σ : Type} (strategy : Strategy σ) : Prop :=
  ∀ (s : σ) (closes : Frame) (asof : Date) (c : Decimal), 0 < c →
    strategy.targetWeights s (closes.rescale fun _ => c) asof = strategy.targetWeights s closes asof

theorem StrategyParams.build_seesShapes {p : StrategyParams} (hrange : p.InRange) (sleeve : Sleeve) :
    (p.build sleeve).SeesShapes := by
  intro s closes asof c hc
  have halike : Alike sleeve p.memory closes (closes.rescale fun _ => c) := by
    refine ⟨fun sym _ => Iff.rfl, fun sym _ => ?_⟩
    rw [series_rescale]
    exact SameShape.rescaled _ _ hc
  exact congrArg (Prod.mk s) (targetWeights_alike p hrange halike asof asof)

namespace Backtest

/-- A factor for prices and one for the size of the account. -/
structure Rescaling where
  price : Decimal
  size : Decimal
  price_pos : 0 < price
  size_pos : 0 < size

namespace Rescaling
variable (r : Rescaling)

/-- What an amount of money is multiplied by. -/
def money : Decimal := r.price * r.size

theorem money_pos : 0 < r.money := mul_pos r.price_pos r.size_pos

def prices (row : Symbol → Option Decimal) (sym : Symbol) : Option Decimal :=
  (row sym).map (r.price * ·)

def positions (d : Dict Symbol Decimal) : Dict Symbol Decimal := d.mapValues fun _ q => r.size * q

def cost (c : TradeCost) : TradeCost where
  commission := r.money * c.commission
  tax := r.money * c.tax
  regulatory := r.money * c.regulatory
  slippage := r.money * c.slippage
  fx := r.money * c.fx

def fill (f : Fill) : Fill :=
  { f with quantity := r.size * f.quantity, price := r.price * f.price, cost := r.cost f.cost }

def batch (b : Batch) : Batch where
  cash := r.money * b.cash
  positions := r.positions b.positions
  fills := b.fills.map r.fill
  cost := r.cost b.cost
  traded := r.money * b.traded

def bar (b : Bar) : Bar := { b with opens := r.prices b.opens, closes := r.prices b.closes }

/-- The same configuration, its amounts in the new unit. -/
def config (cfg : BacktestConfig) : BacktestConfig :=
  { cfg with initialCash := r.money * cfg.initialCash, minOrderValue := some (r.money * cfg.dustThreshold) }

def backtester (bt : Backtester) : Backtester where
  config := r.config bt.config
  columns := bt.columns
  bars := bt.bars.map r.bar
  sorted := by
    rw [List.pairwise_map]
    exact bt.sorted

def state {σ : Type} (st : RunState σ) : RunState σ :=
  { st with
    cash := r.money * st.cash
    positions := r.positions st.positions
    fills := st.fills.map r.fill
    totalCost := r.cost st.totalCost
    equityRows := st.equityRows.map fun row => (row.1, r.money * row.2) }

end Rescaling

/-- Whole shares stay whole, and no charge counts shares. -/
structure Rescalable (r : Rescaling) (cfg : BacktestConfig) : Prop where
  whole : cfg.fractional = false → r.size = 1
  notional : cfg.country = .US → cfg.costModel.usTafPerShare = 0

section Pieces
variable {r : Rescaling} {cfg : BacktestConfig}

theorem scaled_nonpos {c x : Decimal} (hc : 0 < c) : c * x ≤ 0 ↔ x ≤ 0 := by
  rw [← not_lt, ← not_lt, mul_pos_iff_of_pos_left hc]

/-! ### Charges -/

theorem cost_add (a b : TradeCost) : r.cost (a + b) = r.cost a + r.cost b := by
  show TradeCost.mk _ _ _ _ _ = TradeCost.mk _ _ _ _ _
  congr 1 <;> exact mul_add _ _ _

theorem cost_total (c : TradeCost) : (r.cost c).total = r.money * c.total := by
  unfold TradeCost.total Rescaling.cost
  ring

theorem abs_notional (price quantity : Decimal) :
    |r.price * price * (r.size * quantity)| = r.money * |price * quantity| := by
  rw [mul_mul_mul_comm, abs_mul, ← Rescaling.money, abs_of_pos r.money_pos]

/-- Every charge is a share of the notional. -/
theorem costOf_rescaled (h : Rescalable r cfg) (side : Side) (price quantity : Decimal) (isEtf : Bool) :
    cfg.costModel.costOf side cfg.country (r.price * price) (r.size * quantity) isEtf false =
      r.cost (cfg.costModel.costOf side cfg.country price quantity isEtf false) := by
  unfold CostModel.costOf
  simp only [abs_notional, mul_eq_zero, r.money_pos.ne', false_or]
  by_cases hzero : |price * quantity| = 0
  · simp [hzero, Rescaling.cost]
  · rw [if_neg hzero, if_neg hzero]
    unfold Rescaling.cost
    congr 1
    · exact mul_assoc _ _ _
    · split
      · exact mul_assoc _ _ _
      · exact (mul_zero _).symm
    · split
      · next hus =>
        rw [h.notional hus.2]
        simp only [mul_zero]
        rw [min_eq_left (by norm_num [usTafCap])]
        ring
      · exact (mul_zero _).symm
    · simp
    · split
      · exact mul_assoc _ _ _
      · exact (mul_zero _).symm

theorem fillPrice_rescaled (side : Side) (px : Decimal) :
    fillPrice (r.config cfg) side (r.price * px) = r.price * fillPrice cfg side px := by
  cases side <;> exact mul_assoc _ _ _

theorem makeFill_rescaled (h : Rescalable r cfg) (date : Date) (reason : String) (side : Side)
    (sym : Symbol) (px quantity : Decimal) :
    makeFill (r.config cfg) date reason side sym (r.price * px) (r.size * quantity) =
      r.fill (makeFill cfg date reason side sym px quantity) := by
  unfold makeFill Rescaling.fill
  rw [fillPrice_rescaled]
  congr 1
  exact costOf_rescaled h side _ _ _

/-! ### Sizes -/

theorem affordablePrice_rescaled (px : Decimal) :
    affordablePrice (r.config cfg) (r.price * px) = r.price * affordablePrice cfg px := by
  rw [affordablePrice_eq, affordablePrice_eq]
  exact mul_assoc _ _ _

/-- A share count in the new size; whole shares only where the size is as before. -/
theorem truncate_rescaled (h : Rescalable r cfg) (x : Decimal) :
    (if cfg.fractional then r.size * x else truncate (r.size * x)) =
      r.size * (if cfg.fractional then x else truncate x) := by
  cases hfr : cfg.fractional with
  | true => rfl
  | false =>
    simp only [Bool.false_eq_true, if_false]
    rw [h.whole hfr, one_mul, one_mul]

theorem money_div_price (cash px : Decimal) :
    r.money * cash / (r.price * px) = r.size * (cash / px) := by
  rw [Rescaling.money, mul_assoc, mul_div_mul_left _ _ r.price_pos.ne', mul_div_assoc]

theorem affordableQuantity_rescaled (h : Rescalable r cfg) (cash px : Decimal) :
    affordableQuantity (r.config cfg) (r.money * cash) (r.price * px) =
      r.size * affordableQuantity cfg cash px := by
  unfold affordableQuantity
  simp only [affordablePrice_rescaled, mul_pos_iff_of_pos_left r.price_pos, money_div_price]
  have hmax : (if 0 < affordablePrice cfg px then r.size * (cash / affordablePrice cfg px) else 0) =
      r.size * (if 0 < affordablePrice cfg px then cash / affordablePrice cfg px else 0) := by
    split
    · rfl
    · exact (mul_zero _).symm
  rw [hmax]
  exact truncate_rescaled h _

theorem buyQuantity_rescaled (h : Rescalable r cfg) (date : Date) (reason : String) (cash : Decimal)
    (sym : Symbol) (px quantity : Decimal) :
    buyQuantity (r.config cfg) date reason (r.money * cash) sym (r.price * px) (r.size * quantity) =
      (buyQuantity cfg date reason cash sym px quantity).map (r.size * ·) := by
  have hmoney (x y : Decimal) : r.price * x * (r.size * y) = r.money * (x * y) := mul_mul_mul_comm ..
  have hsize (x : Decimal) : r.size * x ≤ 0 ↔ x ≤ 0 := scaled_nonpos r.size_pos
  have hdust : (r.config cfg).dustThreshold = r.money * cfg.dustThreshold := rfl
  unfold buyQuantity
  simp only [makeFill_rescaled h, Rescaling.fill, cost_total, affordableQuantity_rescaled h, hmoney,
    ← mul_add, mul_lt_mul_iff_right₀ r.money_pos, hsize, hdust]
  split
  · split <;> rfl
  · rfl

/-! ### Orders -/

theorem getD_positions (d : Dict Symbol Decimal) (sym : Symbol) :
    (r.positions d).getD sym 0 = r.size * d.getD sym 0 := by
  unfold Dict.getD Rescaling.positions
  rw [Dict.get?_mapValues]
  cases d.get? sym with
  | none => exact (mul_zero _).symm
  | some q => rfl

theorem desiredQuantity_rescaled (h : Rescalable r cfg) (prices : Symbol → Option Decimal)
    (equity : Decimal) (sym : Symbol) (weight : Decimal) :
    desiredQuantity (r.config cfg) (r.prices prices) (r.money * equity) sym weight =
      r.size * desiredQuantity cfg prices equity sym weight := by
  unfold desiredQuantity Rescaling.prices
  cases prices sym with
  | none => exact (mul_zero _).symm
  | some px =>
    simp only [Option.map_some, scaled_nonpos r.price_pos, mul_assoc r.money, money_div_price]
    split
    · exact (mul_zero _).symm
    · exact truncate_rescaled h _

theorem desired_rescaled (h : Rescalable r cfg) (prices : Symbol → Option Decimal) (equity : Decimal)
    (targets positions : Dict Symbol Decimal) :
    desired (r.config cfg) (r.prices prices) (r.money * equity) targets (r.positions positions) =
      r.positions (desired cfg prices equity targets positions) := by
  unfold desired
  have hkeys : (r.positions positions).keys = positions.keys := Dict.keys_mapValues _ _
  have htargets : (targets.mapValues
      (desiredQuantity (r.config cfg) (r.prices prices) (r.money * equity))) =
      r.positions (targets.mapValues (desiredQuantity cfg prices equity)) := by
    rw [Rescaling.positions, Dict.mapValues_mapValues]
    congr 1
    funext sym weight
    exact desiredQuantity_rescaled h prices equity sym weight
  rw [hkeys, htargets]
  generalize targets.mapValues (desiredQuantity cfg prices equity) = d
  induction positions.keys generalizing d with
  | nil => rfl
  | cons sym rest ih =>
    rw [List.foldl_cons, List.foldl_cons, ← ih]
    have hdefault := Dict.mapValues_setDefault d (fun _ q => r.size * q) sym 0
    simp only [mul_zero] at hdefault
    congr 1
    exact hdefault.symm

theorem ordered_rescaled (h : Rescalable r cfg) (prices : Symbol → Option Decimal) (equity : Decimal)
    (targets positions : Dict Symbol Decimal) :
    ordered (r.config cfg) (r.prices prices) (r.money * equity) targets (r.positions positions) =
      (ordered cfg prices equity targets positions).map fun order => (order.1, r.size * order.2) := by
  unfold ordered
  rw [desired_rescaled h]
  symm
  apply List.map_insertionSort
  intro a _ b _
  simp only [getD_positions, ← mul_sub, mul_le_mul_iff_right₀ r.size_pos]

/-! ### One rebalance -/

theorem batch_book (b : Batch) (f : Fill) : (r.batch b).book (r.fill f) = r.batch (b.book f) := by
  have hmoney : (r.fill f).price * (r.fill f).quantity = r.money * (f.price * f.quantity) :=
    mul_mul_mul_comm ..
  have hcost : (r.fill f).cost.total = r.money * f.cost.total := cost_total _
  unfold Batch.book
  simp only [hmoney, hcost]
  unfold Rescaling.batch Rescaling.positions
  rw [Dict.mapValues_insert]
  congr 1
  · cases hs : f.side <;> simp only [Rescaling.fill, hs] <;> ring
  · congr 1
    have hheld := getD_positions (r := r) b.positions f.symbol
    rw [Rescaling.positions] at hheld
    cases hs : f.side <;> simp only [Rescaling.fill, hs, hheld] <;> ring
  · rw [List.map_append]
    rfl
  · exact (cost_add _ _).symm
  · ring

theorem trade_rescaled (h : Rescalable r cfg) (prices : Symbol → Option Decimal) (equity : Decimal)
    (date : Date) (reason : String) (b : Batch) (order : Symbol × Decimal) :
    trade (r.config cfg) (r.prices prices) (r.money * equity) date reason (r.batch b)
        (order.1, r.size * order.2) =
      r.batch (trade cfg prices equity date reason b order) := by
  have hheld : (r.batch b).positions.getD order.1 0 = r.size * b.positions.getD order.1 0 :=
    getD_positions _ _
  unfold trade
  simp only [hheld, ← mul_sub]
  generalize order.2 - b.positions.getD order.1 0 = delta
  cases hpx : prices order.1 with
  | none => simp [Rescaling.prices, hpx]
  | some px =>
    have hdelta : |r.size * delta| = r.size * |delta| := by rw [abs_mul, abs_of_pos r.size_pos]
    have hnotional : r.price * px * (r.size * |delta|) = r.money * (px * |delta|) := mul_mul_mul_comm ..
    have hdust : (r.config cfg).dustThreshold = r.money * cfg.dustThreshold := rfl
    have hband : (r.config cfg).rebalanceBand = cfg.rebalanceBand := rfl
    have hcash : (r.batch b).cash = r.money * b.cash := rfl
    have hmin : min (r.size * |delta|) (r.size * b.positions.getD order.1 0) =
        r.size * min |delta| (b.positions.getD order.1 0) := (mul_min_of_nonneg _ _ r.size_pos.le).symm
    simp only [Rescaling.prices, hpx, Option.map_some, mul_eq_zero, r.size_pos.ne', false_or,
      scaled_nonpos r.price_pos, hdelta, hnotional, hdust, hband, mul_lt_mul_iff_right₀ r.money_pos,
      mul_pos_iff_of_pos_left r.money_pos, mul_div_mul_left _ _ r.money_pos.ne',
      mul_pos_iff_of_pos_left r.size_pos, hcash, buyQuantity_rescaled h, hmin,
      scaled_nonpos r.size_pos, makeFill_rescaled h, batch_book]
    split
    · rfl
    split
    · rfl
    split
    · rfl
    split
    · cases buyQuantity cfg date reason b.cash order.1 px |delta| with
      | none => rfl
      | some qty => simp only [Option.map_some, makeFill_rescaled h, batch_book]
    split <;> rfl

theorem rebalance_rescaled (h : Rescalable r cfg) (prices : Symbol → Option Decimal)
    (equity : Decimal) (date : Date) (reason : String) (cash : Decimal)
    (positions targets : Dict Symbol Decimal) :
    rebalance (r.config cfg) (r.prices prices) (r.money * equity) date reason (r.money * cash)
        (r.positions positions) targets =
      r.batch (rebalance cfg prices equity date reason cash positions targets) := by
  have hstart : ({ cash := r.money * cash, positions := r.positions positions } : Batch) =
      r.batch { cash, positions } := by
    unfold Rescaling.batch Rescaling.cost
    simp
  have hrun (orders : List (Symbol × Decimal)) (b : Batch) :
      (orders.map fun order => (order.1, r.size * order.2)).foldl
          (trade (r.config cfg) (r.prices prices) (r.money * equity) date reason) (r.batch b) =
        r.batch (orders.foldl (trade cfg prices equity date reason) b) := by
    induction orders generalizing b with
    | nil => rfl
    | cons order rest ih => rw [List.map_cons, List.foldl_cons, List.foldl_cons, trade_rescaled h, ih]
  have hkept (d : Dict Symbol Decimal) : ((r.positions d).filter fun _ q => 0 < q) =
      r.positions (d.filter fun _ q => 0 < q) :=
    Dict.mapValues_filter d _ fun _ q => by simp only [mul_pos_iff_of_pos_left r.size_pos]
  unfold rebalance
  rw [ordered_rescaled h, hstart, hrun]
  unfold Rescaling.batch
  simp only [hkept]

theorem equityOf_rescaled (cash : Decimal) (positions : Dict Symbol Decimal)
    (prices : Symbol → Option Decimal) :
    equityOf (r.money * cash) (r.positions positions) (r.prices prices) =
      r.money * equityOf cash positions prices := by
  unfold equityOf Rescaling.positions Dict.mapValues
  simp only
  generalize positions.entries = entries
  induction entries generalizing cash with
  | nil => rfl
  | cons e rest ih =>
    rw [List.map_cons, List.foldl_cons, List.foldl_cons, ← ih]
    congr 1
    unfold Rescaling.prices
    cases prices e.1 with
    | none => rfl
    | some px =>
      show r.money * cash + r.price * px * (r.size * e.2) = r.money * (cash + px * e.2)
      rw [mul_mul_mul_comm, ← Rescaling.money, mul_add]

end Pieces

/-! ### Two runs in lockstep -/

section Runs
variable {σ : Type} {r : Rescaling} {bt : Backtester} {strategy : Strategy σ}

theorem execute_rescaled (h : Rescalable r bt.config) (bar : Bar) (st : RunState σ) :
    (r.backtester bt).execute (r.bar bar) (r.state st) =
      (r.state (bt.execute bar st).1, r.money * (bt.execute bar st).2) := by
  unfold Backtester.execute
  have hpending : (r.state st).pending = st.pending := rfl
  rw [hpending]
  cases st.pending with
  | none => exact Prod.ext rfl (mul_zero _).symm
  | some targets =>
    have hbatch := rebalance_rescaled h bar.opens (equityOf st.cash st.positions bar.opens) bar.date
      st.pendingReason st.cash st.positions targets
    rw [← equityOf_rescaled] at hbatch
    simp only [Rescaling.backtester, Rescaling.bar, Rescaling.state]
    rw [hbatch]
    simp only [Rescaling.batch, List.map_append, cost_add]

theorem closeWeight_rescaled (bar : Bar) (equity : Decimal) (sym : Symbol) (q : Decimal) :
    (r.backtester bt).closeWeight (r.bar bar) (r.money * equity) sym (r.size * q) =
      bt.closeWeight bar equity sym q := by
  have hcancel (px : Decimal) : r.price * px * (r.size * q) / (r.money * equity) = px * q / equity := by
    rw [mul_mul_mul_comm, ← Rescaling.money, mul_div_mul_left _ _ r.money_pos.ne']
  show (if sym ∈ bt.columns then ((bar.closes sym).map (r.price * ·)).map _ else _) = _
  rw [Option.map_map]
  unfold Backtester.closeWeight
  congr 1
  exact Option.map_congr fun px _ => hcancel px

theorem mark_rescaled (bar : Bar) (traded : Decimal) (st : RunState σ) :
    (r.backtester bt).mark (r.bar bar) (r.money * traded) (r.state st) =
      r.state (bt.mark bar traded st) := by
  have hequity : equityOf (r.state st).cash (r.state st).positions (r.bar bar).closes =
      r.money * equityOf st.cash st.positions bar.closes := equityOf_rescaled _ _ _
  have hempty : (r.state st).positions.entries = [] ↔ st.positions.entries = [] := List.map_eq_nil_iff
  have hweights (equity : Decimal) : (r.state st).positions.mapValues
      ((r.backtester bt).closeWeight (r.bar bar) (r.money * equity)) =
      st.positions.mapValues (bt.closeWeight bar equity) := by
    show (r.positions st.positions).mapValues _ = _
    rw [Rescaling.positions, Dict.mapValues_mapValues]
    congr 1
    funext sym q
    exact closeWeight_rescaled bar equity sym q
  unfold Backtester.mark
  simp only [hequity, hempty, hweights, mul_pos_iff_of_pos_left r.money_pos,
    mul_div_mul_left _ _ r.money_pos.ne']
  unfold Rescaling.state
  simp only [List.map_append]
  rfl

theorem history_rescaled (n : ℕ) :
    (r.backtester bt).history n = (bt.history n).rescale fun _ => r.price := by
  unfold Backtester.history Frame.rescale
  congr 1
  show ((bt.bars.map r.bar).take n).map _ = ((bt.bars.take n).map _).map _
  rw [← List.map_take, List.map_map, List.map_map]
  rfl

theorem decide_rescaled (hs : strategy.SeesShapes) (i : ℕ) (bar : Bar) (st : RunState σ) :
    (r.backtester bt).decide strategy i (r.bar bar) (r.state st) =
      r.state (bt.decide strategy i bar st) := by
  have hlength : (r.backtester bt).bars.length = bt.bars.length := List.length_map _
  have hindex : (r.backtester bt).index = bt.index := List.map_map
  have hdate : (r.bar bar).date = bar.date := rfl
  have hanswer : strategy.targetWeights (r.state st).strategy ((r.backtester bt).history (i + 1))
      bar.date = strategy.targetWeights st.strategy (bt.history (i + 1)) bar.date := by
    rw [history_rescaled]
    exact hs _ _ _ _ r.price_pos
  unfold Backtester.decide
  rw [hlength, hindex, hdate, hanswer]
  by_cases hskip : bt.bars.length ≤ i + 1 ∨ i < strategy.warmupDays ∨
      bar.date ∉ strategy.rebalanceDates bt.index
  · rw [if_pos hskip, if_pos hskip]
  · rw [if_neg hskip, if_neg hskip]
    rcases strategy.targetWeights st.strategy (bt.history (i + 1)) bar.date with ⟨s, _ | ⟨targets, reason⟩⟩
    · rfl
    · show (if targets.entries = [] then _ else _) = r.state (if targets.entries = [] then _ else _)
      split <;> rfl

/-- **One bar in lockstep.** -/
theorem onBar_rescaled (h : Rescalable r bt.config) (hs : strategy.SeesShapes) (i : ℕ) (bar : Bar)
    (st : RunState σ) :
    (r.backtester bt).onBar strategy i (r.bar bar) (r.state st) = r.state (bt.onBar strategy i bar st) := by
  rw [Backtester.onBar_eq, Backtester.onBar_eq, execute_rescaled h, mark_rescaled, decide_rescaled hs]

theorem loop_rescaled (h : Rescalable r bt.config) (hs : strategy.SeesShapes) (i : ℕ)
    (bars : List Bar) (st : RunState σ) :
    (r.backtester bt).loop strategy i (bars.map r.bar) (r.state st) =
      r.state (bt.loop strategy i bars st) := by
  induction bars generalizing i st with
  | nil => rfl
  | cons bar rest ih =>
    rw [List.map_cons, Backtester.loop, Backtester.loop, onBar_rescaled h hs, ih]

theorem after_rescaled (h : Rescalable r bt.config) (hs : strategy.SeesShapes) (s : σ) (n : ℕ) :
    (r.backtester bt).after strategy s n = r.state (bt.after strategy s n) := by
  have hstart : (r.backtester bt).start s = r.state (bt.start s) := by
    unfold Backtester.start Rescaling.state Rescaling.cost
    simp [Rescaling.backtester, Rescaling.config, Rescaling.positions]
    rfl
  unfold Backtester.after
  rw [hstart, ← loop_rescaled h hs, List.map_take]
  rfl

end Runs

/-! ### Returns -/

theorem changeOf_rescaled (r : Rescaling) (before now : Decimal) :
    changeOf (r.money * before) (r.money * now) = changeOf before now := by
  unfold changeOf
  simp only [Ne, mul_eq_zero, r.money_pos.ne', false_or, mul_div_mul_left _ _ r.money_pos.ne',
    mul_pos_iff_of_pos_left r.money_pos]

theorem dailyReturns_rescaled (r : Rescaling) (rows : List (Date × Decimal)) :
    dailyReturns (rows.map fun row => (row.1, r.money * row.2)) = dailyReturns rows := by
  unfold dailyReturns
  congr 1
  cases rows with
  | nil => rfl
  | cons first rest =>
    simp only [List.map_cons, pctChange]
    congr 1
    rw [← List.map_cons (f := fun row : Date × Decimal => (row.1, r.money * row.2)), List.zipWith_map]
    simp only [changeOf_rescaled]

/-- Thousands of won. -/
def inThousands : Rescaling := ⟨1 / 1000, 1, by norm_num, one_pos⟩

end Backtest
end Tqt
