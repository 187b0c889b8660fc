import Tqt.Backtest.Rebalance

/-! The daily backtester.

`Backtester.run` walks the aligned bars: it fills yesterday's decision at today's open
(`execute`), marks to market on the close (`mark`), and asks the strategy for the next
decision with the history up to today (`decide`). `after n` is the state once the first
`n` bars are done; the index it plans with is always the whole one. -/
namespace Tqt

/-- A wide price table: one row per date, in order; `none` is a missing print. -/
structure Frame where
  columns : List Symbol
  rows : List (Date × (Symbol → Option Decimal))
  sorted : rows.Pairwise fun a b => a.1 < b.1

def Frame.index (f : Frame) : List Date := f.rows.map Prod.fst

/-- `DataFrame.empty`. -/
def Frame.isEmpty (f : Frame) : Bool := f.rows.isEmpty || f.columns.isEmpty

/-- Last available trading day of each month in `index`. -/
def monthEndDates (index : List Date) : List Date := lastOfEach Date.yearMonth index

/-- `BuyAndHold.rebalance_dates` with its default `rebalance="Y"`: last day of each year. -/
def yearEndDates (index : List Date) : List Date := lastOfEach Date.year index

/-- A strategy with internal state `σ`. `targetWeights` sees the history up to and
including the decision date and returns the weights with its reason, or raises. -/
structure Strategy (σ : Type) where
  warmupDays : ℕ
  rebalanceDates : List Date → List Date
  targetWeights : σ → Frame → Date → σ × Option (Dict Symbol Decimal × String)

/-- The opens and closes of one date. -/
structure Bar where
  date : Date
  opens : Symbol → Option Decimal
  closes : Symbol → Option Decimal

/-- Both tables on their common index and columns. -/
structure Backtester where
  config : BacktestConfig
  columns : List Symbol
  bars : List Bar
  sorted : bars.Pairwise fun a b => a.date < b.date

namespace Backtest

/-! ### The run -/

/-- `_equity`: cash plus every held symbol that has a price. -/
def equityOf (cash : Decimal) (positions : Dict Symbol Decimal)
    (prices : Symbol → Option Decimal) : Decimal :=
  positions.entries.foldl
    (fun total e => match prices e.1 with
      | some px => total + px * e.2
      | none => total) cash

/-- Everything `run` carries from bar to bar; the rows before their conversion to floats. -/
structure RunState (σ : Type) where
  cash : Decimal
  positions : Dict Symbol Decimal := ∅
  fills : List Fill := []
  totalCost : TradeCost := {}
  pending : Option (Dict Symbol Decimal) := none
  pendingReason : String := ""
  equityRows : List (Date × Decimal) := []
  turnoverRows : List (Date × Decimal) := []
  weightRows : List (Date × Dict Symbol (Option Decimal)) := []
  strategy : σ

end Backtest

namespace Backtester
open Backtest
variable {σ : Type} (bt : Backtester) (strategy : Strategy σ)

def index : List Date := bt.bars.map Bar.date

/-- A row of a table, on the common columns only. -/
def onColumns (columns : List Symbol) (row : Symbol → Option Decimal) (sym : Symbol) :
    Option Decimal :=
  if sym ∈ columns then row sym else none

/-- One bar for each date that both tables have. -/
def align (columns : List Symbol) (opens closes : List (Date × (Symbol → Option Decimal))) :
    List Bar :=
  opens.filterMap fun o =>
    (closes.lookup o.1).map fun c => ⟨o.1, onColumns columns o.2, onColumns columns c⟩

/-- `__init__`: align both tables on their common index and columns, so that a missing open
is never paired with a present close. No price data raises. -/
def init (opens closes : Frame) (config : BacktestConfig) : Option Backtester :=
  let columns := ((opens.columns.filter (· ∈ closes.columns)).dedup).insertionSort (· ≤ ·)
  if opens.isEmpty ∨ closes.isEmpty then none
  else some
    { config, columns
      bars := align columns opens.rows closes.rows
      sorted := by
        refine opens.sorted.filterMap _ fun a b hab x hx y hy => ?_
        simp only [Option.map_eq_some_iff] at hx hy
        obtain ⟨_, _, rfl⟩ := hx
        obtain ⟨_, _, rfl⟩ := hy
        exact hab }

/-- `self.closes.iloc[: n]`. -/
def history (n : ℕ) : Frame where
  columns := bt.columns
  rows := (bt.bars.take n).map fun b => (b.date, b.closes)
  sorted := by
    rw [List.pairwise_map]
    exact bt.sorted.sublist (List.take_sublist n bt.bars)

/-- The same backtest on data cut after its first `n` bars. -/
def firstBars (n : ℕ) : Backtester where
  config := bt.config
  columns := bt.columns
  bars := bt.bars.take n
  sorted := bt.sorted.sublist (List.take_sublist n bt.bars)

/-- Step 1: execute yesterday's decision at today's open. Returns the traded notional. -/
def execute (bar : Bar) (st : RunState σ) : RunState σ × Decimal :=
  match st.pending with
  | none => (st, 0)
  | some targets =>
    let equity := equityOf st.cash st.positions bar.opens
    let b := rebalance bt.config bar.opens equity bar.date st.pendingReason st.cash st.positions
      targets
    ({ st with
        cash := b.cash
        positions := b.positions
        fills := st.fills ++ b.fills
        totalCost := st.totalCost + b.cost
        pending := none
        pendingReason := "" }, b.traded)

/-- A held symbol's weight on the close; `none` where the close is missing. -/
def closeWeight (bar : Bar) (equity : Decimal) (sym : Symbol) (q : Decimal) : Option Decimal :=
  if sym ∈ bt.columns then (bar.closes sym).map (· * q / equity) else some 0

/-- Step 2: mark to market on today's close. -/
def mark (bar : Bar) (traded : Decimal) (st : RunState σ) : RunState σ :=
  let equity := equityOf st.cash st.positions bar.closes
  { st with
    equityRows := st.equityRows ++ [(bar.date, equity)]
    turnoverRows := st.turnoverRows ++ [(bar.date, if 0 < equity then traded / equity else 0)]
    weightRows :=
      if st.positions.entries = [] then st.weightRows
      else st.weightRows ++
        [(bar.date, if 0 < equity then st.positions.mapValues (bt.closeWeight bar equity) else ∅)] }

/-- Step 3: decide, using only data up to and including today. -/
def decide (i : ℕ) (bar : Bar) (st : RunState σ) : RunState σ :=
  if bt.bars.length ≤ i + 1 ∨ i < strategy.warmupDays ∨
      bar.date ∉ strategy.rebalanceDates bt.index then st
  else
    match strategy.targetWeights st.strategy (bt.history (i + 1)) bar.date with
    | (s, none) => { st with strategy := s }
    | (s, some (targets, reason)) =>
      if targets.entries = [] then { st with strategy := s }
      else { st with strategy := s, pending := some targets, pendingReason := reason }

/-- A strategy that raises or answers with an empty map leaves everything as it was. -/
theorem decide_undecided {i : ℕ} {bar : Bar} {st : RunState σ}
    (h : ∀ s targets reason, strategy.targetWeights st.strategy (bt.history (i + 1)) bar.date =
      (s, some (targets, reason)) → targets.entries = []) :
    ∃ s, bt.decide strategy i bar st = { st with strategy := s } := by
  unfold decide
  split
  · exact ⟨st.strategy, rfl⟩
  · split
    · exact ⟨_, rfl⟩
    · next s targets reason heq =>
      rw [if_pos (h s targets reason heq)]
      exact ⟨s, rfl⟩

def onBar (i : ℕ) (bar : Bar) (st : RunState σ) : RunState σ :=
  let (st, traded) := bt.execute bar st
  bt.decide strategy i bar (bt.mark bar traded st)

theorem onBar_eq (i : ℕ) (bar : Bar) (st : RunState σ) :
    bt.onBar strategy i bar st =
      bt.decide strategy i bar (bt.mark bar (bt.execute bar st).2 (bt.execute bar st).1) := rfl

/-- The loop over the bars, `i` counting from the first of them. -/
def loop : ℕ → List Bar → RunState σ → RunState σ
  | _, [], st => st
  | i, bar :: rest, st => loop (i + 1) rest (bt.onBar strategy i bar st)

def start (s : σ) : RunState σ := { cash := bt.config.initialCash, strategy := s }

/-- The state after the first `n` bars of the run. -/
def after (s : σ) (n : ℕ) : RunState σ := bt.loop strategy 0 (bt.bars.take n) (bt.start s)

def run (s : σ) : RunState σ := bt.loop strategy 0 bt.bars (bt.start s)

theorem run_eq_after (s : σ) : bt.run strategy s = bt.after strategy s bt.bars.length := by
  simp [run, after]

theorem loop_append (i : ℕ) (first second : List Bar) (st : RunState σ) :
    bt.loop strategy i (first ++ second) st =
      bt.loop strategy (i + first.length) second (bt.loop strategy i first st) := by
  induction first generalizing i st with
  | nil => rfl
  | cons bar rest ih =>
    simp only [List.cons_append, loop, ih, List.length_cons]
    congr 1
    omega

theorem after_succ (s : σ) {n : ℕ} {bar : Bar} (h : bt.bars[n]? = some bar) :
    bt.after strategy s (n + 1) = bt.onBar strategy n bar (bt.after strategy s n) := by
  have hn : n < bt.bars.length := (List.getElem?_eq_some_iff.mp h).1
  rw [after, List.take_add_one, h, loop_append]
  simp [loop, after, Nat.min_eq_left (Nat.le_of_lt hn)]

end Backtester

namespace Backtest

/-! ### A small table -/

/-- Always wants everything in one symbol, and decides on month ends. -/
def allIn (sym : Symbol) : Strategy Unit where
  warmupDays := 0
  rebalanceDates := monthEndDates
  targetWeights := fun s _ _ => (s, some (Dict.ofList [(sym, 1)], "all in"))

def flatBar (date : Date) : Bar where
  date := date
  opens := fun sym => if sym = "069500" then some 10000 else none
  closes := fun sym => if sym = "069500" then some 10000 else none

/-- One symbol at the same price around a month end. -/
def flat : Backtester where
  config := {}
  columns := ["069500"]
  bars := [flatBar ⟨2026, 1, 29⟩, flatBar ⟨2026, 1, 30⟩, flatBar ⟨2026, 2, 2⟩, flatBar ⟨2026, 2, 3⟩]
  sorted := by decide

end Backtest
end Tqt
