import Tqt.Backtest.Solvency

/-! What a backtest's money went to.

The fills explain the account: the cash is what the buys paid and the sales brought in
on top of the initial cash, the positions are what was bought less what was sold, and the
total cost is the sum of the costs of the fills, component by component. Valued at the
opens it trades at, a rebalance loses exactly the charges of its fills and the slippage
in their prices. None of this asks the costs or the prices for anything. -/
namespace Tqt.Backtest

/-- What the buys paid. -/
def spent (fills : List Fill) : Decimal :=
  ((fills.filter fun f => f.side = .BUY).map fun f => f.price * f.quantity + f.cost.total).sum

/-- What the sales brought in. -/
def proceeds (fills : List Fill) : Decimal :=
  ((fills.filter fun f => f.side = .SELL).map fun f => f.price * f.quantity - f.cost.total).sum

/-- The costs of the fills, component by component. -/
def costOfFills (fills : List Fill) : TradeCost where
  commission := (fills.map fun f => f.cost.commission).sum
  tax := (fills.map fun f => f.cost.tax).sum
  regulatory := (fills.map fun f => f.cost.regulatory).sum
  slippage := (fills.map fun f => f.cost.slippage).sum
  fx := (fills.map fun f => f.cost.fx).sum

theorem spent_append (first second : List Fill) :
    spent (first ++ second) = spent first + spent second := by
  unfold spent
  rw [List.filter_append, List.map_append, List.sum_append]

theorem proceeds_append (first second : List Fill) :
    proceeds (first ++ second) = proceeds first + proceeds second := by
  unfold proceeds
  rw [List.filter_append, List.map_append, List.sum_append]

theorem costOfFills_append (first second : List Fill) :
    costOfFills (first ++ second) = costOfFills first + costOfFills second := by
  simp only [costOfFills, List.map_append, List.sum_append]
  rfl

theorem netQuantity_append (sym : Symbol) (first second : List Fill) :
    netQuantity sym (first ++ second) = netQuantity sym first + netQuantity sym second := by
  unfold netQuantity
  rw [List.map_append, List.sum_append]

/-! ### The value of the positions -/

/-- What one position is worth; nothing without a price. -/
def worth (prices : Symbol → Option Decimal) (sym : Symbol) (q : Decimal) : Decimal :=
  match prices sym with
  | some px => px * q
  | none => 0

theorem worth_zero (prices : Symbol → Option Decimal) (sym : Symbol) : worth prices sym 0 = 0 := by
  unfold worth
  split
  · exact mul_zero _
  · rfl

theorem equityOf_eq (cash : Decimal) (positions : Dict Symbol Decimal)
    (prices : Symbol → Option Decimal) :
    equityOf cash positions prices =
      cash + (positions.entries.map fun e => worth prices e.1 e.2).sum := by
  unfold equityOf
  induction positions.entries generalizing cash with
  | nil => simp
  | cons e rest ih =>
    rw [List.foldl_cons, ih, List.map_cons, List.sum_cons, ← add_assoc]
    congr 1
    unfold worth
    cases prices e.1 with
    | none => exact (add_zero cash).symm
    | some px => rfl

theorem equityOf_insert {cash : Decimal} {positions : Dict Symbol Decimal}
    {prices : Symbol → Option Decimal} {sym : Symbol} {px : Decimal} (hpx : prices sym = some px)
    (q : Decimal) :
    equityOf cash (positions.insert sym q) prices =
      equityOf cash positions prices + px * (q - positions.getD sym 0) := by
  have hheld : ((positions.entries.lookup sym).map (worth prices sym)).getD 0 =
      px * positions.getD sym 0 := by
    unfold Dict.getD Dict.get? worth
    cases positions.entries.lookup sym with
    | none => simp
    | some held => simp [hpx]
  rw [equityOf_eq, equityOf_eq]
  show cash + ((Dict.put sym q positions.entries).map fun e => worth prices e.1 e.2).sum = _
  rw [Dict.sum_map_put, hheld, show worth prices sym q = px * q by simp [worth, hpx]]
  ring

/-- Positions of zero are worth nothing. -/
theorem equityOf_filter {cash : Decimal} {positions : Dict Symbol Decimal}
    (prices : Symbol → Option Decimal) (hpos : ∀ sym q, positions.get? sym = some q → 0 ≤ q) :
    equityOf cash (positions.filter fun _ q => 0 < q) prices = equityOf cash positions prices := by
  rw [equityOf_eq, equityOf_eq]
  congr 1
  refine Dict.sum_map_filter (worth prices) (fun _ q => 0 < q) positions.entries fun e he hp => ?_
  have hq := hpos e.1 e.2 ((Dict.get?_eq_some _ _ _).mpr he)
  rw [decide_eq_false_iff_not, not_lt] at hp
  rw [le_antisymm hp hq, worth_zero]

/-! ### One batch -/

/-- What the fills of a batch lose against the prices they were made at: charges, and the
slippage that is in the fill prices. -/
def lost (cfg : BacktestConfig) (prices : Symbol → Option Decimal) (fills : List Fill) : Decimal :=
  (fills.map fun f => f.cost.total +
    cfg.costModel.slippageRate cfg.country * (prices f.symbol).getD 0 * f.quantity).sum

/-- A fill is made at a positive quote, moved by the slippage; its costs hold none. -/
def Priced (cfg : BacktestConfig) (prices : Symbol → Option Decimal) (f : Fill) : Prop :=
  ∃ px, prices f.symbol = some px ∧ 0 < px ∧ f.price = fillPrice cfg f.side px ∧ f.cost.slippage = 0

/-- A batch that its fills account for, from the account it started with. -/
structure Accounted (cfg : BacktestConfig) (prices : Symbol → Option Decimal) (cash : Decimal)
    (positions : Dict Symbol Decimal) (b : Batch) : Prop where
  cash_paid : b.cash = cash - spent b.fills + proceeds b.fills
  held_net : ∀ sym, b.positions.getD sym 0 = positions.getD sym 0 + netQuantity sym b.fills
  held_nonneg : ∀ sym q, b.positions.get? sym = some q → 0 ≤ q
  cost_sum : b.cost = costOfFills b.fills
  value : equityOf b.cash b.positions prices = equityOf cash positions prices - lost cfg prices b.fills
  priced : ∀ f ∈ b.fills, Priced cfg prices f

section Batch
variable {cfg : BacktestConfig} {prices : Symbol → Option Decimal} {equity : Decimal}
  {date : Date} {reason : String}

theorem Booked.priced {b : Batch} {order : Symbol × Decimal} {f : Fill}
    (h : Booked cfg prices date reason b order f) : Priced cfg prices f := by
  obtain ⟨px, hpx, hpos, hf⟩ := h.made
  refine ⟨px, h.symbol ▸ hpx, hpos, ?_, ?_⟩
  · conv_lhs => rw [hf]
    rfl
  · rw [hf]
    exact CostModel.costOf_slippage ..

/-- A fill moves its value between cash and positions, less what it loses. -/
theorem equityOf_book {b : Batch} {f : Fill} (h : Priced cfg prices f) :
    equityOf (b.book f).cash (b.book f).positions prices =
      equityOf b.cash b.positions prices - lost cfg prices [f] := by
  obtain ⟨px, hpx, -, hprice, -⟩ := h
  have hlost : lost cfg prices [f] = f.cost.total +
      cfg.costModel.slippageRate cfg.country * px * f.quantity := by
    simp [lost, hpx]
  rw [hlost]
  cases hs : f.side with
  | BUY =>
    rw [hs] at hprice
    simp only [Batch.book, hs]
    rw [equityOf_insert hpx, equityOf_eq, equityOf_eq, hprice, fillPrice]
    ring
  | SELL =>
    rw [hs] at hprice
    simp only [Batch.book, hs]
    rw [equityOf_insert hpx, equityOf_eq, equityOf_eq, hprice, fillPrice]
    ring

theorem lost_nil : lost cfg prices [] = 0 := rfl

theorem lost_append (first second : List Fill) :
    lost cfg prices (first ++ second) = lost cfg prices first + lost cfg prices second := by
  unfold lost
  rw [List.map_append, List.sum_append]

/-- **One fill** keeps the batch accounted for. -/
theorem Accounted.book {cash : Decimal} {positions : Dict Symbol Decimal} {b : Batch}
    {order : Symbol × Decimal} {f : Fill} (h : Accounted cfg prices cash positions b)
    (hf : Booked cfg prices date reason b order f) : Accounted cfg prices cash positions (b.book f) := by
  have hfills : (b.book f).fills = b.fills ++ [f] := rfl
  have hheld : 0 ≤ b.positions.getD f.symbol 0 := b.positions.getD_property f.symbol le_rfl h.held_nonneg
  constructor
  · rw [hfills, spent_append, proceeds_append]
    cases hs : f.side with
    | BUY =>
      have hspent : spent [f] = f.price * f.quantity + f.cost.total := by simp [spent, hs]
      have hnone : proceeds [f] = 0 := by simp [proceeds, hs]
      simp only [Batch.book, hs]
      rw [h.cash_paid, hspent, hnone]
      ring
    | SELL =>
      have hnone : spent [f] = 0 := by simp [spent, hs]
      have hbrought : proceeds [f] = f.price * f.quantity - f.cost.total := by simp [proceeds, hs]
      simp only [Batch.book, hs]
      rw [h.cash_paid, hbrought, hnone]
      ring
  · intro sym
    rw [getD_book, h.held_net, hfills, netQuantity_snoc, add_assoc]
  · intro sym q hq
    refine b.positions.insert_property (P := fun q => 0 ≤ q) ?_ h.held_nonneg hq
    cases hs : f.side with
    | BUY => exact add_nonneg hheld hf.positive.le
    | SELL => exact sub_nonneg.mpr (hf.symbol ▸ hf.covered hs)
  · rw [hfills, costOfFills_append, ← h.cost_sum]
    show b.cost + f.cost = b.cost + costOfFills [f]
    congr 1
    simp [costOfFills]
  · rw [equityOf_book hf.priced, h.value, hfills, lost_append]
    ring
  · intro g hg
    rcases List.mem_append.mp hg with hg | hg
    · exact h.priced g hg
    · rw [List.mem_singleton.mp hg]
      exact hf.priced

variable (equity date reason) in
/-- Any list of orders is accounted for. -/
theorem trades_accounted {cash : Decimal} {positions : Dict Symbol Decimal}
    (hpos : ∀ sym q, positions.get? sym = some q → 0 ≤ q) (orders : List (Symbol × Decimal)) :
    Accounted cfg prices cash positions
      (orders.foldl (trade cfg prices equity date reason) { cash, positions }) := by
  have hstart : Accounted cfg prices cash positions { cash, positions } :=
    { cash_paid := by simp [spent, proceeds]
      held_net := fun sym => (add_zero _).symm
      held_nonneg := hpos
      cost_sum := rfl
      value := (sub_zero _).symm
      priced := fun f hf => absurd hf List.not_mem_nil }
  exact trades_induction cfg prices equity date reason orders
    (fun b order f _ hb hf => hb.book hf) _ hstart

variable (equity date reason) in
/-- **One rebalance**: everything it did is in its fills. -/
theorem rebalance_accounted {cash : Decimal} {positions : Dict Symbol Decimal}
    (hpos : ∀ sym q, positions.get? sym = some q → 0 ≤ q) (targets : Dict Symbol Decimal) :
    Accounted cfg prices cash positions (rebalance cfg prices equity date reason cash positions targets) := by
  have h : Accounted cfg prices cash positions ((ordered cfg prices equity targets positions).foldl
      (trade cfg prices equity date reason) { cash, positions }) :=
    trades_accounted equity date reason hpos _
  unfold rebalance
  generalize (ordered cfg prices equity targets positions).foldl
    (trade cfg prices equity date reason) { cash, positions } = b at h ⊢
  refine ⟨h.cash_paid, ?_, ?_, h.cost_sum, ?_, h.priced⟩
  · intro sym
    exact (getD_positive h.held_nonneg sym).trans (h.held_net sym)
  · intro sym q hq
    simp only [Dict.get?_filter, Option.filter_eq_some_iff, decide_eq_true_eq] at hq
    exact hq.2.le
  · exact (equityOf_filter prices h.held_nonneg).trans h.value

end Batch

/-! ### The run -/

/-- The account between two bars is what its fills made of the initial cash. -/
structure Explained (initial : Decimal) {σ : Type} (st : RunState σ) : Prop where
  cash_paid : st.cash = initial - spent st.fills + proceeds st.fills
  held_net : ∀ sym, st.positions.getD sym 0 = netQuantity sym st.fills
  held_nonneg : ∀ sym q, st.positions.get? sym = some q → 0 ≤ q
  cost_sum : st.totalCost = costOfFills st.fills

/-- What a bar adds to the fills, and what the account is worth less for it. -/
structure Batched (cfg : BacktestConfig) (prices : Symbol → Option Decimal) {σ : Type}
    (st st' : RunState σ) (batch : List Fill) : Prop where
  fills : st'.fills = st.fills ++ batch
  value : equityOf st'.cash st'.positions prices =
    equityOf st.cash st.positions prices - lost cfg prices batch
  priced : ∀ f ∈ batch, Priced cfg prices f

variable {σ : Type} (bt : Backtester) (strategy : Strategy σ)

/-- Step 1 of a bar. -/
theorem execute_explained {initial : Decimal} (bar : Bar) {st : RunState σ} (h : Explained initial st) :
    Explained initial (bt.execute bar st).1 ∧
      ∃ batch, Batched bt.config bar.opens st (bt.execute bar st).1 batch := by
  unfold Backtester.execute
  cases st.pending with
  | none =>
    refine ⟨h, [], (List.append_nil _).symm, ?_, fun f hf => absurd hf List.not_mem_nil⟩
    show _ = _ - lost bt.config bar.opens []
    rw [lost_nil, sub_zero]
  | some targets =>
    have hb : Accounted bt.config bar.opens st.cash st.positions
        (rebalance bt.config bar.opens (equityOf st.cash st.positions bar.opens) bar.date
          st.pendingReason st.cash st.positions targets) :=
      rebalance_accounted _ _ _ h.held_nonneg targets
    simp only
    generalize rebalance bt.config bar.opens (equityOf st.cash st.positions bar.opens) bar.date
      st.pendingReason st.cash st.positions targets = b at hb ⊢
    refine ⟨⟨?_, ?_, hb.held_nonneg, ?_⟩, b.fills, rfl, hb.value, hb.priced⟩
    · show b.cash = initial - spent (st.fills ++ b.fills) + proceeds (st.fills ++ b.fills)
      rw [hb.cash_paid, h.cash_paid, spent_append, proceeds_append]
      ring
    · intro sym
      show b.positions.getD sym 0 = netQuantity sym (st.fills ++ b.fills)
      rw [hb.held_net, h.held_net, netQuantity_append]
    · show st.totalCost + b.cost = costOfFills (st.fills ++ b.fills)
      rw [hb.cost_sum, h.cost_sum, costOfFills_append]

/-- Marking and deciding trade nothing. -/
theorem onBar_explained {initial : Decimal} (i : ℕ) (bar : Bar) {st : RunState σ}
    (h : Explained initial st) :
    Explained initial (bt.onBar strategy i bar st) ∧
      ∃ batch, Batched bt.config bar.opens st (bt.onBar strategy i bar st) batch := by
  obtain ⟨hexec, batch, hbatch⟩ := execute_explained bt bar h
  obtain ⟨hcash, hpos, hfills, hcost⟩ := decide_account bt strategy i bar
    (bt.mark bar (bt.execute bar st).2 (bt.execute bar st).1)
  rw [Backtester.onBar_eq]
  refine ⟨⟨?_, ?_, ?_, ?_⟩, batch, ?_, ?_, hbatch.priced⟩
  · rw [hcash, hfills]
    exact hexec.cash_paid
  · rw [hpos, hfills]
    exact hexec.held_net
  · rw [hpos]
    exact hexec.held_nonneg
  · rw [hcost, hfills]
    exact hexec.cost_sum
  · rw [hfills]
    exact hbatch.fills
  · rw [hcash, hpos]
    exact hbatch.value

theorem loop_explained {initial : Decimal} (bars : List Bar) (i : ℕ) {st : RunState σ}
    (h : Explained initial st) : Explained initial (bt.loop strategy i bars st) := by
  induction bars generalizing i st with
  | nil => exact h
  | cons bar rest ih => exact ih (i + 1) (onBar_explained bt strategy i bar h).1

/-- **After every bar of every run** the fills account for the cash, the positions and the total
cost, and what the bar traded lost its charges and the slippage in its prices, which no
cost counts again. -/
theorem backtest_conserves (s : σ) (n : ℕ) :
    (bt.after strategy s n).cash = bt.config.initialCash -
        spent (bt.after strategy s n).fills + proceeds (bt.after strategy s n).fills ∧
      (∀ sym, (bt.after strategy s n).positions.getD sym 0 =
        netQuantity sym (bt.after strategy s n).fills) ∧
      (bt.after strategy s n).totalCost = costOfFills (bt.after strategy s n).fills ∧
      ∀ bar, bt.bars[n]? = some bar → ∃ batch, Batched bt.config bar.opens
        (bt.after strategy s n) (bt.after strategy s (n + 1)) batch := by
  have hstart : Explained bt.config.initialCash (bt.start s) :=
    { cash_paid := by simp [spent, proceeds, Backtester.start]
      held_net := fun _ => rfl
      held_nonneg := nofun
      cost_sum := rfl }
  have h : Explained bt.config.initialCash (bt.after strategy s n) :=
    loop_explained bt strategy _ 0 hstart
  refine ⟨h.cash_paid, h.held_net, h.cost_sum, fun bar hbar => ?_⟩
  rw [bt.after_succ strategy s hbar]
  exact (onBar_explained bt strategy n bar h).2

/-- The table of one symbol buys 99 shares at the open of its third bar. -/
theorem backtest_conserves_flat :
    (flat.after (allIn "069500") () 3).fills.map Fill.quantity = [99] ∧
      (flat.after (allIn "069500") () 3).cash =
        flat.config.initialCash - spent (flat.after (allIn "069500") () 3).fills +
          proceeds (flat.after (allIn "069500") () 3).fills ∧
      ∃ batch, Batched flat.config (flatBar ⟨2026, 2, 2⟩).opens (flat.after (allIn "069500") () 2)
        (flat.after (allIn "069500") () 3) batch :=
  ⟨by decide +kernel, (backtest_conserves flat (allIn "069500") () 3).1,
    (backtest_conserves flat (allIn "069500") () 2).2.2.2 _ rfl⟩

end Tqt.Backtest
