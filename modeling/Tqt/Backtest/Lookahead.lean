import Tqt.Backtest.Engine

/-! No lookahead, as a property of two runs.

Both schedules the engine is used with read the whole index, future bars included, and
so does the last-bar test. What they answer about a bar is nevertheless fixed by that
bar and its successor (`ByNextDay`), and a decision only takes effect one bar later. So
two tables that agree on their first `k + 1` bars give runs that agree before bar `k`
in every respect (`after_agree`), and on bar `k` in everything but the decision left
pending (`bars_agree`); later bars only add rows under later dates (`Extends`). -/
namespace Tqt.Backtest

/-! ### Schedules decided by the next day -/

/-- Whether a day is in the schedule depends on the days up to the next one only. -/
def ByNextDay (schedule : List Date → List Date) : Prop :=
  ∀ (front : List Date) (a b : Date) (back back' : List Date),
    (front ++ a :: b :: back).Pairwise (· < ·) → (front ++ a :: b :: back').Pairwise (· < ·) →
    (a ∈ schedule (front ++ a :: b :: back) ↔ a ∈ schedule (front ++ a :: b :: back'))

/-- Grouping by a key that never decreases and keeping the last day of each group. -/
theorem byNextDay_lastOfEach {κ : Type} [LinearOrder κ] (key : Date → κ)
    (mono : ∀ a b, a < b → key a ≤ key b) : ByNextDay (lastOfEach key) := by
  intro front a b back back' h h'
  rw [mem_lastOfEach_next h.nodup (h.imp (mono _ _)), mem_lastOfEach_next h'.nodup (h'.imp (mono _ _))]

theorem byNextDay_monthEndDates : ByNextDay monthEndDates :=
  byNextDay_lastOfEach Date.yearMonth fun _ _ => Date.yearMonth_mono

theorem byNextDay_yearEndDates : ByNextDay yearEndDates :=
  byNextDay_lastOfEach Date.year fun _ _ => Date.year_mono

/-! ### Rows that later bars add -/

/-- `new` continues `old`, and every row it adds is dated in `dates`. -/
def Adds {α : Type} (dates : List Date) (key : α → Date) (old new : List α) : Prop :=
  ∃ extra, new = old ++ extra ∧ ∀ r ∈ extra, key r ∈ dates

namespace Adds
variable {α : Type} {dates : List Date} {key : α → Date}

theorem refl (l : List α) : Adds dates key l l := ⟨[], by simp, by simp⟩

theorem trans {dates' : List Date} {a b c : List α} (h : Adds dates key a b)
    (h' : Adds dates' key b c) : Adds (dates ++ dates') key a c := by
  obtain ⟨e, rfl, he⟩ := h
  obtain ⟨e', rfl, he'⟩ := h'
  refine ⟨e ++ e', by simp, fun r hr => ?_⟩
  rcases List.mem_append.mp hr with hr | hr
  · exact List.mem_append_left _ (he r hr)
  · exact List.mem_append_right _ (he' r hr)

theorem snoc {l : List α} {r : α} (h : key r ∈ dates) : Adds dates key l (l ++ [r]) :=
  ⟨[r], rfl, by simpa using h⟩

end Adds

/-- The rows dated on the given bars. -/
def onDates {α : Type} (dates : List Date) (key : α → Date) (rows : List α) : List α :=
  rows.filter fun r => key r ∈ dates

theorem onDates_of_adds {α : Type} {dates later : List Date} {key : α → Date} {old new : List α}
    (hd : ∀ d ∈ later, d ∉ dates) (hold : ∀ r ∈ old, key r ∈ dates)
    (h : Adds later key old new) : onDates dates key new = old := by
  obtain ⟨extra, rfl, he⟩ := h
  rw [onDates, List.filter_append, List.filter_eq_self.mpr (by simpa using hold),
    List.filter_eq_nil_iff.mpr (fun r hr => by simpa using hd _ (he r hr)), List.append_nil]

/-- The four kinds of rows a run reports. -/
structure Extends {σ : Type} (dates : List Date) (st st' : RunState σ) : Prop where
  equity : Adds dates Prod.fst st.equityRows st'.equityRows
  turnover : Adds dates Prod.fst st.turnoverRows st'.turnoverRows
  weights : Adds dates Prod.fst st.weightRows st'.weightRows
  fills : Adds dates Fill.date st.fills st'.fills

/-- The rows of a run that are dated on the given bars. -/
def RunState.on {σ : Type} (dates : List Date) (st : RunState σ) : RunState σ :=
  { st with
    equityRows := onDates dates Prod.fst st.equityRows
    turnoverRows := onDates dates Prod.fst st.turnoverRows
    weightRows := onDates dates Prod.fst st.weightRows
    fills := onDates dates Fill.date st.fills }

/-- What a run has reported so far: everything but the pending decision. -/
structure SameReport {σ : Type} (st st' : RunState σ) : Prop where
  equity : st.equityRows = st'.equityRows
  turnover : st.turnoverRows = st'.turnoverRows
  weights : st.weightRows = st'.weightRows
  fills : st.fills = st'.fills

theorem SameReport.symm {σ : Type} {a b : RunState σ} (h : SameReport a b) : SameReport b a :=
  ⟨h.equity.symm, h.turnover.symm, h.weights.symm, h.fills.symm⟩

theorem SameReport.trans {σ : Type} {a b c : RunState σ} (h : SameReport a b)
    (h' : SameReport b c) : SameReport a c :=
  ⟨h.equity.trans h'.equity, h.turnover.trans h'.turnover, h.weights.trans h'.weights,
    h.fills.trans h'.fills⟩

variable {σ : Type} (bt : Backtester) (strategy : Strategy σ)

theorem decide_report (i : ℕ) (bar : Bar) (st : RunState σ) :
    SameReport (bt.decide strategy i bar st) st := by
  unfold Backtester.decide
  split
  · exact ⟨rfl, rfl, rfl, rfl⟩
  · split
    · exact ⟨rfl, rfl, rfl, rfl⟩
    · split <;> exact ⟨rfl, rfl, rfl, rfl⟩

theorem execute_extends (bar : Bar) (st : RunState σ) :
    Extends [bar.date] st (bt.execute bar st).1 := by
  unfold Backtester.execute
  split
  · exact ⟨.refl _, .refl _, .refl _, .refl _⟩
  · refine ⟨.refl _, .refl _, .refl _, ⟨_, rfl, fun f hf => ?_⟩⟩
    exact List.mem_singleton.mpr (rebalance_date bt.config bar.opens _ bar.date _ hf)

theorem mark_extends (bar : Bar) (traded : Decimal) (st : RunState σ) :
    Extends [bar.date] st (bt.mark bar traded st) := by
  refine ⟨.snoc (by simp), .snoc (by simp), ?_, .refl _⟩
  simp only [Backtester.mark]
  split
  · exact .refl _
  · exact .snoc (by simp)

theorem Extends.trans {dates dates' : List Date} {a b c : RunState σ} (h : Extends dates a b)
    (h' : Extends dates' b c) : Extends (dates ++ dates') a c :=
  ⟨h.equity.trans h'.equity, h.turnover.trans h'.turnover, h.weights.trans h'.weights,
    h.fills.trans h'.fills⟩

theorem Extends.mono {dates dates' : List Date} {a b : RunState σ} (h : Extends dates a b)
    (hd : ∀ d ∈ dates, d ∈ dates') : Extends dates' a b := by
  obtain ⟨⟨e₁, h₁, m₁⟩, ⟨e₂, h₂, m₂⟩, ⟨e₃, h₃, m₃⟩, ⟨e₄, h₄, m₄⟩⟩ := h
  exact ⟨⟨e₁, h₁, fun r hr => hd _ (m₁ r hr)⟩, ⟨e₂, h₂, fun r hr => hd _ (m₂ r hr)⟩,
    ⟨e₃, h₃, fun r hr => hd _ (m₃ r hr)⟩, ⟨e₄, h₄, fun r hr => hd _ (m₄ r hr)⟩⟩

theorem Extends.of_report {dates : List Date} {a b c : RunState σ} (h : Extends dates a b)
    (hr : SameReport c b) : Extends dates a c := by
  obtain ⟨h₁, h₂, h₃, h₄⟩ := h
  obtain ⟨r₁, r₂, r₃, r₄⟩ := hr
  exact ⟨r₁ ▸ h₁, r₂ ▸ h₂, r₃ ▸ h₃, r₄ ▸ h₄⟩

/-- One bar adds rows under its own date only. -/
theorem onBar_extends (i : ℕ) (bar : Bar) (st : RunState σ) :
    Extends [bar.date] st (bt.onBar strategy i bar st) := by
  rw [Backtester.onBar_eq]
  refine Extends.of_report ?_ (decide_report bt strategy i bar _)
  exact ((execute_extends bt bar st).trans (mark_extends bt bar _ _)).mono (by simp)

/-- A run over some bars adds rows under their dates only. -/
theorem loop_extends (i : ℕ) (bars : List Bar) (st : RunState σ) :
    Extends (bars.map Bar.date) st (bt.loop strategy i bars st) := by
  induction bars generalizing i st with
  | nil => exact ⟨.refl _, .refl _, .refl _, .refl _⟩
  | cons bar rest ih =>
    exact (onBar_extends bt strategy i bar st).trans (ih (i + 1) (bt.onBar strategy i bar st))

/-- Every bar gets its equity and its turnover row, and nothing else does. -/
theorem loop_dates (i : ℕ) (bars : List Bar) (st : RunState σ) :
    (bt.loop strategy i bars st).equityRows.map Prod.fst =
        st.equityRows.map Prod.fst ++ bars.map Bar.date ∧
      (bt.loop strategy i bars st).turnoverRows.map Prod.fst =
        st.turnoverRows.map Prod.fst ++ bars.map Bar.date := by
  induction bars generalizing i st with
  | nil => simp [Backtester.loop]
  | cons bar rest ih =>
    obtain ⟨hequity, hturnover⟩ := ih (i + 1) (bt.onBar strategy i bar st)
    obtain ⟨e, t, -, -⟩ := decide_report bt strategy i bar
      (bt.mark bar (bt.execute bar st).2 (bt.execute bar st).1)
    have hexec : (bt.execute bar st).1.equityRows = st.equityRows ∧
        (bt.execute bar st).1.turnoverRows = st.turnoverRows := by
      unfold Backtester.execute
      split <;> exact ⟨rfl, rfl⟩
    constructor
    · rw [Backtester.loop, hequity, Backtester.onBar_eq, e]
      simp [Backtester.mark, hexec.1]
    · rw [Backtester.loop, hturnover, Backtester.onBar_eq, t]
      simp [Backtester.mark, hexec.2]

theorem run_dates (s : σ) :
    (bt.run strategy s).equityRows.map Prod.fst = bt.index ∧
      (bt.run strategy s).turnoverRows.map Prod.fst = bt.index := by
  simpa [Backtester.run, Backtester.start, Backtester.index] using
    loop_dates bt strategy 0 bt.bars (bt.start s)

/-- The rows a whole run has under the first `n` dates are those it had after `n` bars. -/
theorem run_on (s : σ) (n : ℕ) :
    SameReport ((bt.run strategy s).on (bt.index.take n)) (bt.after strategy s n) := by
  have hstart : Extends (bt.index.take n) (bt.start s) (bt.after strategy s n) := by
    rw [Backtester.index, ← List.map_take]
    exact loop_extends bt strategy 0 _ _
  have hrest : Extends ((bt.bars.drop n).map Bar.date) (bt.after strategy s n)
      (bt.run strategy s) := by
    conv => rhs; rw [Backtester.run, ← List.take_append_drop n bt.bars, Backtester.loop_append]
    exact loop_extends bt strategy _ _ _
  have hlater : ∀ d ∈ (bt.bars.drop n).map Bar.date, d ∉ bt.index.take n := by
    intro d hd hd'
    have hsorted : bt.index.Pairwise (· < ·) := List.pairwise_map.mpr bt.sorted
    rw [List.map_drop] at hd
    rw [← List.take_append_drop n bt.index, List.pairwise_append] at hsorted
    exact lt_irrefl d (hsorted.2.2 d hd' d hd)
  -- Nothing has been reported before the first bar.
  have hold : ∀ {α : Type} {key : α → Date} {l : List α}, Adds (bt.index.take n) key [] l →
      ∀ r ∈ l, key r ∈ bt.index.take n := by
    intro α key l h
    obtain ⟨extra, rfl, he⟩ := h
    simpa using he
  exact ⟨onDates_of_adds hlater (hold hstart.equity) hrest.equity,
    onDates_of_adds hlater (hold hstart.turnover) hrest.turnover,
    onDates_of_adds hlater (hold hstart.weights) hrest.weights,
    onDates_of_adds hlater (hold hstart.fills) hrest.fills⟩

/-! ### Two runs side by side -/

section TwoRuns
variable {bt bt' : Backtester} {k : ℕ}

/-- Both tables, aligned, agree on their first `k + 1` bars. -/
structure Agree (bt bt' : Backtester) (k : ℕ) : Prop where
  config : bt.config = bt'.config
  columns : bt.columns = bt'.columns
  length : k < bt.bars.length
  bars : bt.bars.take (k + 1) = bt'.bars.take (k + 1)

theorem Agree.length' (h : Agree bt bt' k) : k < bt'.bars.length := by
  have := congrArg List.length h.bars
  have := h.length
  simp only [List.length_take] at *
  omega

theorem Agree.getElem? (h : Agree bt bt' k) {i : ℕ} (hi : i ≤ k) : bt.bars[i]? = bt'.bars[i]? := by
  have := congrArg (·[i]?) h.bars
  simpa only [List.getElem?_take_of_lt (Nat.lt_succ_of_le hi)] using this

theorem Agree.take (h : Agree bt bt' k) {n : ℕ} (hn : n ≤ k + 1) :
    bt.bars.take n = bt'.bars.take n := by
  have := congrArg (List.take n) h.bars
  simpa only [List.take_take, Nat.min_eq_left hn] using this

theorem Agree.history (h : Agree bt bt' k) {n : ℕ} (hn : n ≤ k + 1) :
    bt.history n = bt'.history n := by
  simp only [Backtester.history, h.columns, h.take hn]

/-- The index around a bar that has a successor. -/
theorem index_split {bt : Backtester} {i : ℕ} {a b : Bar} (ha : bt.bars[i]? = some a)
    (hb : bt.bars[i + 1]? = some b) :
    bt.index = (bt.bars.take i).map Bar.date ++
      a.date :: b.date :: (bt.bars.drop (i + 2)).map Bar.date := by
  obtain ⟨hi, rfl⟩ := List.getElem?_eq_some_iff.mp ha
  obtain ⟨hj, rfl⟩ := List.getElem?_eq_some_iff.mp hb
  have hsplit : bt.bars.take i ++ bt.bars[i] :: bt.bars[i + 1] :: bt.bars.drop (i + 2) = bt.bars := by
    rw [List.getElem_cons_drop, List.getElem_cons_drop, List.take_append_drop]
  calc bt.index
      = (bt.bars.take i ++ bt.bars[i] :: bt.bars[i + 1] :: bt.bars.drop (i + 2)).map Bar.date := by
        rw [hsplit, Backtester.index]
    _ = _ := by rw [List.map_append, List.map_cons, List.map_cons]

/-- Before bar `k` both schedules answer alike. -/
theorem Agree.scheduled (h : Agree bt bt' k) (hs : ByNextDay strategy.rebalanceDates) {i : ℕ}
    {bar : Bar} (hi : i < k) (hbar : bt.bars[i]? = some bar) :
    bar.date ∈ strategy.rebalanceDates bt.index ↔ bar.date ∈ strategy.rebalanceDates bt'.index := by
  have hlt := h.length
  obtain ⟨next, hnext⟩ : ∃ next, bt.bars[i + 1]? = some next :=
    ⟨bt.bars[i + 1], List.getElem?_eq_getElem (by omega)⟩
  have hbar' := (h.getElem? (Nat.le_of_lt hi)).symm.trans hbar
  have hnext' := (h.getElem? (Nat.succ_le_of_lt hi)).symm.trans hnext
  have hix := index_split hbar hnext
  have hix' := index_split hbar' hnext'
  have hsorted : bt.index.Pairwise (· < ·) := List.pairwise_map.mpr bt.sorted
  have hsorted' : bt'.index.Pairwise (· < ·) := List.pairwise_map.mpr bt'.sorted
  rw [← h.take (by omega : i ≤ k + 1)] at hix'
  rw [hix] at hsorted ⊢
  rw [hix'] at hsorted' ⊢
  exact hs _ _ _ _ _ hsorted hsorted'

theorem Agree.execute (h : Agree bt bt' k) (bar : Bar) (st : RunState σ) :
    bt.execute bar st = bt'.execute bar st := by
  unfold Backtester.execute
  rw [h.config]

theorem Agree.mark (h : Agree bt bt' k) (bar : Bar) (traded : Decimal) (st : RunState σ) :
    bt.mark bar traded st = bt'.mark bar traded st := by
  have hweight : bt.closeWeight = bt'.closeWeight := by
    funext bar equity sym q
    rw [Backtester.closeWeight, Backtester.closeWeight, h.columns]
  unfold Backtester.mark
  rw [hweight]

/-- A bar before the cut is decided alike in both runs. -/
theorem Agree.decide (h : Agree bt bt' k) (hs : ByNextDay strategy.rebalanceDates) {i : ℕ}
    {bar : Bar} (hi : i < k) (hbar : bt.bars[i]? = some bar) (st : RunState σ) :
    bt.decide strategy i bar st = bt'.decide strategy i bar st := by
  have hlast : ¬ bt.bars.length ≤ i + 1 := by have := h.length; omega
  have hlast' : ¬ bt'.bars.length ≤ i + 1 := by have := h.length'; omega
  have hhistory : bt.history (i + 1) = bt'.history (i + 1) := h.history (by omega)
  simp only [Backtester.decide, hlast, hlast', h.scheduled strategy hs hi hbar, hhistory]

theorem Agree.onBar (h : Agree bt bt' k) (hs : ByNextDay strategy.rebalanceDates) {i : ℕ}
    {bar : Bar} (hi : i < k) (hbar : bt.bars[i]? = some bar) (st : RunState σ) :
    bt.onBar strategy i bar st = bt'.onBar strategy i bar st := by
  rw [Backtester.onBar_eq, Backtester.onBar_eq, h.execute, h.mark, h.decide strategy hs hi hbar]

/-- Up to the cut bar both runs are in the same state, pending decision included. -/
theorem after_agree (h : Agree bt bt' k) (hs : ByNextDay strategy.rebalanceDates) (s : σ) {n : ℕ}
    (hn : n ≤ k) : bt.after strategy s n = bt'.after strategy s n := by
  induction n with
  | zero => simp [Backtester.after, Backtester.loop, Backtester.start, h.config]
  | succ n ih =>
    have hlt := h.length
    have hbar : bt.bars[n]? = some bt.bars[n] := List.getElem?_eq_getElem (by omega)
    have hbar' := (h.getElem? (by omega : n ≤ k)).symm.trans hbar
    rw [bt.after_succ strategy s hbar, bt'.after_succ strategy s hbar', ih (by omega)]
    exact h.onBar strategy hs (by omega) hbar _

/-- After the cut bar both runs have reported the same. -/
theorem bars_agree (h : Agree bt bt' k) (hs : ByNextDay strategy.rebalanceDates) (s : σ) :
    SameReport (bt.after strategy s (k + 1)) (bt'.after strategy s (k + 1)) := by
  have hlength := h.length
  have hbar : bt.bars[k]? = some bt.bars[k] := List.getElem?_eq_getElem hlength
  have hbar' := (h.getElem? le_rfl).symm.trans hbar
  rw [bt.after_succ strategy s hbar, bt'.after_succ strategy s hbar',
    after_agree strategy h hs s le_rfl, Backtester.onBar_eq, Backtester.onBar_eq]
  -- The decision of this bar may differ; it is the only thing that does.
  rw [h.execute, h.mark]
  exact (decide_report bt strategy k _ _).trans (decide_report bt' strategy k _ _).symm

theorem Agree.firstBars (bt : Backtester) {k : ℕ} (h : k < bt.bars.length) :
    Agree (bt.firstBars (k + 1)) bt k := by
  refine ⟨rfl, rfl, ?_, ?_⟩
  · show k < (bt.bars.take (k + 1)).length
    rw [List.length_take]
    omega
  · show (bt.bars.take (k + 1)).take (k + 1) = _
    rw [List.take_take, Nat.min_self]

end TwoRuns

/-! ### Tables that agree up to a date -/

section Tables
variable {opens closes opens' closes' : Frame} {cfg : BacktestConfig} {bt bt' : Backtester}

/-- The rows of a table up to and including a date. -/
def upTo {β : Type} (d : Date) (rows : List (Date × β)) : List (Date × β) :=
  rows.filter fun row => row.1 ≤ d

theorem lookup_upTo {β : Type} (rows : List (Date × β)) {a d : Date} (h : a ≤ d) :
    (upTo d rows).lookup a = rows.lookup a := by
  induction rows with
  | nil => rfl
  | cons row rest ih =>
    rw [upTo] at ih ⊢
    by_cases hrow : row.1 ≤ d
    · rw [List.filter_cons_of_pos (by simpa using hrow), List.lookup_cons, List.lookup_cons, ih]
    · have hne : (a == row.1) = false := beq_false_of_ne fun heq => hrow (heq ▸ h)
      rw [List.filter_cons_of_neg (by simpa using hrow), List.lookup_cons, hne, ih]

/-- The bars up to a date are made of the rows up to it. -/
theorem align_upTo (columns : List Symbol) (d : Date)
    (opens closes : List (Date × (Symbol → Option Decimal))) :
    ((Backtester.align columns opens closes).filter fun b => b.date ≤ d) =
      Backtester.align columns (upTo d opens) (upTo d closes) := by
  induction opens with
  | nil => rfl
  | cons o rest ih =>
    simp only [Backtester.align, upTo] at ih ⊢
    by_cases ho : o.1 ≤ d
    · have hlookup := lookup_upTo closes ho
      rw [upTo] at hlookup
      rw [List.filter_cons_of_pos (by simpa using ho)]
      cases hc : closes.lookup o.1 with
      | none => simp [hlookup, hc, ih]
      | some c => simp [hlookup, hc, ih, ho]
    · rw [List.filter_cons_of_neg (by simpa using ho)]
      cases hc : closes.lookup o.1 with
      | none => simp [hc, ih]
      | some c => simp [hc, ih, ho]

/-- Bars come in date order, so those up to a date are the first ones. -/
theorem filter_bars (bars : List Bar) (hsorted : bars.Pairwise fun a b => a.date < b.date)
    (d : Date) : (bars.filter fun b => b.date ≤ d) =
      bars.take (bars.filter fun b => b.date ≤ d).length := by
  induction bars with
  | nil => rfl
  | cons bar rest ih =>
    obtain ⟨hlt, hrest⟩ := List.pairwise_cons.mp hsorted
    by_cases hbar : bar.date ≤ d
    · rw [List.filter_cons_of_pos (by simpa using hbar), List.length_cons, List.take_succ_cons,
        ← ih hrest]
    · have hnil : (rest.filter fun b => b.date ≤ d) = [] :=
        List.filter_eq_nil_iff.mpr fun b hb =>
          by simpa using lt_trans (not_le.mp hbar) (hlt b hb)
      rw [List.filter_cons_of_neg (by simpa using hbar), hnil, List.length_nil, List.take_zero]

theorem filter_bars_at (bt : Backtester) {k : ℕ} {cut : Bar} (hcut : bt.bars[k]? = some cut) :
    (bt.bars.filter fun b => b.date ≤ cut.date) = bt.bars.take (k + 1) := by
  obtain ⟨hk, rfl⟩ := List.getElem?_eq_some_iff.mp hcut
  have hsorted := List.pairwise_iff_getElem.mp bt.sorted
  generalize hd : bt.bars[k].date = d
  rw [← List.take_append_drop (k + 1) bt.bars, List.filter_append, List.take_append_drop,
    List.filter_eq_self.mpr, List.filter_eq_nil_iff.mpr, List.append_nil]
  · intro b hb
    obtain ⟨j, hj, rfl⟩ := List.getElem_of_mem hb
    rw [List.length_drop] at hj
    rw [List.getElem_drop, ← hd]
    simpa using hsorted k (k + 1 + j) hk (by omega) (by omega)
  · intro b hb
    obtain ⟨j, hj, rfl⟩ := List.getElem_of_mem hb
    rw [List.length_take] at hj
    rw [List.getElem_take, ← hd]
    rcases Nat.lt_or_ge j k with hjk | hjk
    · simpa using (hsorted j k (by omega) hk hjk).le
    · simp [show j = k by omega]

/-- Two pairs of tables with the same columns that agree up to the date of bar `k` give
aligned tables that agree on their first `k + 1` bars. -/
theorem agree_of_tables (hbt : Backtester.init opens closes cfg = some bt)
    (hbt' : Backtester.init opens' closes' cfg = some bt') {k : ℕ} {cut : Bar}
    (hcut : bt.bars[k]? = some cut)
    (hcolumns : opens.columns = opens'.columns ∧ closes.columns = closes'.columns)
    (hopens : upTo cut.date opens.rows = upTo cut.date opens'.rows)
    (hcloses : upTo cut.date closes.rows = upTo cut.date closes'.rows) : Agree bt bt' k := by
  obtain ⟨hconfig, hcols, hbars⟩ : bt.config = bt'.config ∧ bt.columns = bt'.columns ∧
      (bt.bars.filter fun b => b.date ≤ cut.date) =
        bt'.bars.filter fun b => b.date ≤ cut.date := by
    simp only [Backtester.init, Option.ite_none_left_eq_some, Option.some.injEq] at hbt hbt'
    obtain ⟨-, rfl⟩ := hbt
    obtain ⟨-, rfl⟩ := hbt'
    refine ⟨rfl, ?_, ?_⟩
    · simp only [hcolumns.1, hcolumns.2]
    · simp only [align_upTo, hcolumns.1, hcolumns.2, hopens, hcloses]
  have hk := (List.getElem?_eq_some_iff.mp hcut).1
  have hfirst := filter_bars_at bt hcut
  refine ⟨hconfig, hcols, hk, ?_⟩
  rw [← hfirst, hbars, filter_bars bt'.bars bt'.sorted, ← hbars, hfirst, List.length_take,
    Nat.min_eq_left (Nat.succ_le_of_lt hk)]

end Tables

/-! ### Two runs -/

/-- **No lookahead.** Whatever a strategy makes of the history it is given, as long as it
decides on month ends or on year ends: two tables that agree on their first `k + 1` bars
give runs with the same equity, turnover and weight rows and the same fills on those
bars, and a run on the table cut after bar `k` reports just these rows. -/
theorem no_lookahead {bt bt' : Backtester} {k : ℕ} (s : σ)
    (hs : strategy.rebalanceDates = monthEndDates ∨ strategy.rebalanceDates = yearEndDates)
    (h : Agree bt bt' k) :
    SameReport ((bt.run strategy s).on (bt.index.take (k + 1)))
        ((bt'.run strategy s).on (bt'.index.take (k + 1))) ∧
      SameReport ((bt.firstBars (k + 1)).run strategy s)
        ((bt.run strategy s).on (bt.index.take (k + 1))) := by
  have hs' : ByNextDay strategy.rebalanceDates := by
    rcases hs with hs | hs <;> rw [hs]
    · exact byNextDay_monthEndDates
    · exact byNextDay_yearEndDates
  have hfull := run_on bt strategy s (k + 1)
  refine ⟨(hfull.trans (bars_agree strategy h hs' s)).trans (run_on bt' strategy s (k + 1)).symm, ?_⟩
  have hcut := bars_agree strategy (Agree.firstBars bt h.length) hs' s
  have hlen : (bt.firstBars (k + 1)).bars.length = k + 1 := by
    show (bt.bars.take (k + 1)).length = k + 1
    rw [List.length_take]
    have := h.length
    omega
  rw [Backtester.run_eq_after, hlen]
  exact hcut.trans hfull.symm

/-- The table cut after the first trade, against the whole of it. -/
theorem no_lookahead_flat :
    ((flat.firstBars 3).run (allIn "069500") ()).fills.length = 1 ∧
      SameReport (((flat.firstBars 3).run (allIn "069500") ()).on ((flat.firstBars 3).index.take 3))
        ((flat.run (allIn "069500") ()).on (flat.index.take 3)) :=
  ⟨by decide +kernel,
    (no_lookahead (allIn "069500") () (.inl rfl)
      (⟨rfl, rfl, by decide, rfl⟩ : Agree (flat.firstBars 3) flat 2)).1⟩

end Tqt.Backtest
