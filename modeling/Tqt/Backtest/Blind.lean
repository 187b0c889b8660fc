import Tqt.Backtest.Validate

/-! Walk-forward validation is blind to the future.

Two histories that agree up to a trading day give the same folds as far as their windows have
closed by that day, and every return both report for a day up to then is the same
(`walkForward_blind`). Windows are cut from the first day of the history on, so data that comes
later moves none of them; and a run cannot see past the day it scores. What is open on the day may
still be scored or not, as it comes to six bars or fewer. -/
namespace Tqt.Backtest

/-! ### Tables cut twice -/

section Tables
variable {f g : TimeFrame}

theorem upTo_upTo (f : TimeFrame) {a b : ℤ} (h : a ≤ b) : (f.upTo b).upTo a = f.upTo a := by
  have hrows : ((f.rows.filter (·.1.ordinal ≤ b)).filter (·.1.ordinal ≤ a)) =
      f.rows.filter (·.1.ordinal ≤ a) := by
    rw [List.filter_filter]
    refine List.filter_congr fun row _ => ?_
    rw [Bool.and_eq_left_iff_imp]
    simp only [decide_eq_true_eq]
    omega
  unfold TimeFrame.upTo
  simp only [hrows]

theorem upTo_congr {a b : ℤ} (h : f.upTo b = g.upTo b) (hle : a ≤ b) : f.upTo a = g.upTo a := by
  rw [← upTo_upTo f hle, ← upTo_upTo g hle, h]

theorem valid_index (f : TimeFrame) : ∀ x ∈ f.index, x.Valid := by
  intro x hx
  obtain ⟨row, hrow, rfl⟩ := List.mem_map.mp hx
  exact f.valid row hrow

/-- Dates of the calendar are in order as their numbers are. -/
theorem ordinal_le_iff {a b : Date} (ha : a.Valid) (hb : b.Valid) : a.ordinal ≤ b.ordinal ↔ a ≤ b := by
  constructor
  · intro h
    by_contra hlt
    have := Date.ordinal_lt hb ha (not_le.mp hlt)
    omega
  · intro h
    rcases h.eq_or_lt with rfl | hlt
    · exact le_rfl
    · exact (Date.ordinal_lt ha hb hlt).le

/-- Cutting at a date or at its number is the same. -/
theorem upTo_rows (f : TimeFrame) {d : Date} (hd : d.Valid) : upTo d f.rows = (f.upTo d.ordinal).rows :=
  List.filter_congr fun row hrow =>
    decide_eq_decide.mpr (ordinal_le_iff (f.valid row hrow) hd).symm

end Tables

/-! ### Series cut at a day -/

/-- A series in date order, up to a day. -/
theorem filter_prefix {α : Type} {rows : List (Date × α)} (h : rows.Pairwise fun a b => a.1 < b.1)
    (d : Date) : ∃ rest, rows = (rows.filter (·.1 ≤ d)) ++ rest ∧ ∀ row ∈ rest, d < row.1 := by
  induction rows with
  | nil => exact ⟨[], rfl, nofun⟩
  | cons row rest ih =>
    obtain ⟨hlt, hrest⟩ := List.pairwise_cons.mp h
    by_cases hrow : row.1 ≤ d
    · obtain ⟨later, hlater, hall⟩ := ih hrest
      refine ⟨later, ?_, hall⟩
      rw [List.filter_cons_of_pos (by simpa using hrow), List.cons_append, ← hlater]
    · have hnone : ((row :: rest).filter (·.1 ≤ d)) = [] := by
        refine List.filter_eq_nil_iff.mpr fun r hr => ?_
        rcases List.mem_cons.mp hr with rfl | hr
        · simpa using hrow
        · simpa using (not_le.mp hrow).trans (hlt r hr)
      refine ⟨row :: rest, by rw [hnone, List.nil_append], fun r hr => ?_⟩
      rcases List.mem_cons.mp hr with rfl | hr
      · exact not_le.mp hrow
      · exact (not_le.mp hrow).trans (hlt r hr)

/-- The return of a day needs the rows up to the day only. -/
theorem mem_dailyReturns_upTo {rows : List (Date × Decimal)} (h : rows.Pairwise fun a b => a.1 < b.1)
    {d : Date} {change : Change} :
    (d, change) ∈ dailyReturns rows ↔ (d, change) ∈ dailyReturns (rows.filter (·.1 ≤ d)) := by
  obtain ⟨rest, hsplit, hlater⟩ := filter_prefix h d
  rw [mem_dailyReturns, mem_dailyReturns]
  constructor
  · rintro ⟨n, before, now, hbefore, hnow, hchange⟩
    have hin : n + 1 < (rows.filter (·.1 ≤ d)).length := by
      by_contra hout
      rw [hsplit, List.getElem?_append_right (by omega)] at hnow
      exact lt_irrefl d (hlater _ (List.mem_of_getElem? hnow))
    rw [hsplit, List.getElem?_append_left (by omega)] at hbefore
    rw [hsplit, List.getElem?_append_left hin] at hnow
    exact ⟨n, before, now, hbefore, hnow, hchange⟩
  · rintro ⟨n, before, now, hbefore, hnow, hchange⟩
    have hin : n + 1 < (rows.filter (·.1 ≤ d)).length := (List.getElem?_eq_some_iff.mp hnow).1
    refine ⟨n, before, now, ?_, ?_, hchange⟩
    · rw [hsplit, List.getElem?_append_left (by omega)]
      exact hbefore
    · rw [hsplit, List.getElem?_append_left hin]
      exact hnow

/-! ### Runs up to a day -/

section Runs
variable {σ : Type} {strategy : Strategy σ} {s : σ}

/-- What a run has under the dates up to a bar is what it had after that bar. -/
theorem equityRows_upTo (bt : Backtester) {k : ℕ} {cut : Bar} (hcut : bt.bars[k]? = some cut) :
    ((bt.run strategy s).equityRows.filter (·.1 ≤ cut.date)) = (bt.after strategy s (k + 1)).equityRows := by
  have hdates : bt.index.take (k + 1) = bt.index.filter (· ≤ cut.date) := by
    rw [Backtester.index, List.filter_map, ← List.map_take, ← filter_bars_at bt hcut]
    rfl
  rw [← (run_on bt strategy s (k + 1)).equity]
  refine List.filter_congr fun row hrow => ?_
  have hrow' : row.1 ∈ bt.index := (run_dates bt strategy s).1 ▸ List.mem_map_of_mem hrow
  simp only [hdates, List.mem_filter, hrow', true_and, decide_eq_true_eq]

variable {opens closes opens' closes' : TimeFrame} {config : BacktestConfig}

/-- Runs over histories that agree up to a day report the same up to it. -/
theorem run_upTo (hs : ByNextDay strategy.rebalanceDates) {bt bt' : Backtester}
    (hbt : Backtester.init opens.toFrame closes.toFrame config = some bt)
    (hbt' : Backtester.init opens'.toFrame closes'.toFrame config = some bt') {d : Date}
    (hd : d ∈ bt.index) (hopens : opens.upTo d.ordinal = opens'.upTo d.ordinal)
    (hcloses : closes.upTo d.ordinal = closes'.upTo d.ordinal) :
    ((bt.run strategy s).equityRows.filter (·.1 ≤ d)) =
      (bt'.run strategy s).equityRows.filter (·.1 ≤ d) := by
  obtain ⟨k, hk, hkd⟩ := List.getElem_of_mem hd
  have hlt : k < bt.bars.length := by simpa [Backtester.index] using hk
  have hcut : bt.bars[k]? = some bt.bars[k] := List.getElem?_eq_getElem hlt
  have hdate : bt.bars[k].date = d := by simpa [Backtester.index] using hkd
  have hvalid : d.Valid := by
    rw [index_init hbt] at hd
    obtain ⟨row, hrow, rfl⟩ := List.mem_map.mp (List.mem_of_mem_filter hd)
    exact opens.valid row hrow
  have hagree : Agree bt bt' k := by
    refine agree_of_tables hbt hbt' hcut ⟨congrArg (·.columns) hopens, congrArg (·.columns) hcloses⟩ ?_ ?_
    · rw [hdate, upTo_rows _ hvalid, upTo_rows _ hvalid, hopens]
    · rw [hdate, upTo_rows _ hvalid, upTo_rows _ hvalid, hcloses]
  have hcut' := (hagree.getElem? le_rfl).symm.trans hcut
  rw [← hdate, equityRows_upTo bt hcut, equityRows_upTo bt' hcut', (bars_agree strategy hagree hs s).equity]

end Runs

/-! ### Folds -/

section Folds
variable {σ : Type} {opens closes opens' closes' : TimeFrame} {config : BacktestConfig}
  {strategy : Strategy σ} {s : σ} {horizon : Horizon} {last last' day : ℤ}

/-- The folds of the loop, each at its own cut. -/
theorem foldAt_of_mem {cut : ℤ} {folds : List (Fold σ)}
    (h : foldsFrom opens closes config strategy s horizon last cut = some folds) {f : Fold σ}
    (hf : f ∈ folds) :
    cut ≤ f.cut ∧ f.cut < last ∧ foldAt opens closes config strategy s horizon last f.cut = some f := by
  induction cut using foldsFrom.induct closes horizon last generalizing folds with
  | case1 cut hcut hshort =>
    rw [foldsFrom, if_pos hcut, if_pos hshort] at h
    cases h
    cases hf
  | case2 cut hcut hlong ih =>
    rw [foldsFrom, if_pos hcut, if_neg hlong] at h
    obtain ⟨fold, hfold, h⟩ := Option.bind_eq_some_iff.mp h
    obtain ⟨rest, hrest, h⟩ := Option.bind_eq_some_iff.mp h
    cases h
    rcases List.mem_cons.mp hf with rfl | hf
    · obtain ⟨bt, -, rfl⟩ := Option.map_eq_some_iff.mp hfold
      exact ⟨le_rfl, hcut, hfold⟩
    · obtain ⟨hle, hrest'⟩ := ih hrest hf
      exact ⟨(lt_testEnd horizon last hcut).le.trans hle, hrest'⟩
  | case3 cut hcut =>
    rw [foldsFrom, if_neg hcut] at h
    cases h
    cases hf

/-- The window of the fold has closed by the day. -/
def Fold.ClosedBy (horizon : Horizon) (day : ℤ) (f : Fold σ) : Prop :=
  f.cut + lengthDays horizon.testYears ≤ day

instance : DecidablePred (Fold.ClosedBy (σ := σ) horizon day) :=
  fun f => inferInstanceAs (Decidable (f.cut + lengthDays horizon.testYears ≤ day))

/-- A window that closes by a day of the history has its full length. -/
theorem testEnd_eq {cut : ℤ} (hclosed : cut + lengthDays horizon.testYears ≤ day) (hlast : day ≤ last) :
    testEnd horizon last cut = cut + lengthDays horizon.testYears :=
  min_eq_left (hclosed.trans hlast)

theorem not_closed {cut : ℤ} {folds : List (Fold σ)}
    (h : foldsFrom opens closes config strategy s horizon last cut = some folds)
    (hopen : day < cut + lengthDays horizon.testYears) :
    (folds.filter fun f => f.ClosedBy horizon day) = [] := by
  refine List.filter_eq_nil_iff.mpr fun f hf => ?_
  have := (foldAt_of_mem h hf).1
  rw [decide_eq_true_eq, Fold.ClosedBy]
  omega

section Shared
variable (hlast : day ≤ last) (hlast' : day ≤ last') (hopens : opens.upTo day = opens'.upTo day)
  (hcloses : closes.upTo day = closes'.upTo day)
include hlast hlast' hopens hcloses

/-- A fold that closes by the day is run on the same tables. -/
theorem foldAt_closed {cut : ℤ} (hclosed : cut + lengthDays horizon.testYears ≤ day) :
    foldAt opens closes config strategy s horizon last cut =
      foldAt opens' closes' config strategy s horizon last' cut := by
  unfold foldAt
  rw [testEnd_eq hclosed hlast, testEnd_eq hclosed hlast', upTo_congr hopens hclosed,
    upTo_congr hcloses hclosed]

/-- **The closed folds are the same.** -/
theorem foldsFrom_closed {cut : ℤ} {folds folds' : List (Fold σ)}
    (h : foldsFrom opens closes config strategy s horizon last cut = some folds)
    (h' : foldsFrom opens' closes' config strategy s horizon last' cut = some folds') :
    (folds.filter fun f => f.ClosedBy horizon day) = folds'.filter fun f => f.ClosedBy horizon day := by
  induction cut using foldsFrom.induct closes horizon last generalizing folds folds' with
  | case1 cut hcut hshort =>
    by_cases hclosed : cut + lengthDays horizon.testYears ≤ day
    · have hcut' : cut < last' := by
        have := horizon.test_pos
        omega
      have hshort' := hshort
      rw [testEnd_eq hclosed hlast, upTo_congr hcloses hclosed, ← testEnd_eq hclosed hlast'] at hshort'
      rw [foldsFrom, if_pos hcut, if_pos hshort] at h
      rw [foldsFrom, if_pos hcut', if_pos hshort'] at h'
      cases h
      cases h'
      rfl
    · rw [not_closed h (not_le.mp hclosed), not_closed h' (not_le.mp hclosed)]
  | case2 cut hcut hlong ih =>
    by_cases hclosed : cut + lengthDays horizon.testYears ≤ day
    · have hcut' : cut < last' := by
        have := horizon.test_pos
        omega
      have hend := (testEnd_eq hclosed hlast).trans (testEnd_eq hclosed hlast').symm
      have hlong' : ¬ (closes'.upTo (testEnd horizon last' cut)).rows.length < 60 := by
        rwa [← hend, ← upTo_congr hcloses ((testEnd_eq hclosed hlast).trans_le hclosed)]
      rw [foldsFrom, if_pos hcut, if_neg hlong] at h
      rw [foldsFrom, if_pos hcut', if_neg hlong', ← foldAt_closed hlast hlast' hopens hcloses hclosed,
        ← hend] at h'
      obtain ⟨fold, hfold, h⟩ := Option.bind_eq_some_iff.mp h
      obtain ⟨rest, hrest, h⟩ := Option.bind_eq_some_iff.mp h
      obtain ⟨fold', hfold', h'⟩ := Option.bind_eq_some_iff.mp h'
      obtain ⟨rest', hrest', h'⟩ := Option.bind_eq_some_iff.mp h'
      obtain rfl := Option.some.inj (hfold.symm.trans hfold')
      cases h
      cases h'
      rw [List.filter_cons, List.filter_cons, ih hrest hrest']
    · rw [not_closed h (not_le.mp hclosed), not_closed h' (not_le.mp hclosed)]
  | case3 cut hcut =>
    have hopen : day < cut + lengthDays horizon.testYears := by
      have := horizon.test_pos
      omega
    rw [not_closed h hopen, not_closed h' hopen]

end Shared

/-- Windows are cut at whole multiples of their length. -/
theorem cut_eq {cut : ℤ} {folds : List (Fold σ)}
    (h : foldsFrom opens closes config strategy s horizon last cut = some folds) {f : Fold σ}
    (hf : f ∈ folds) : ∃ k : ℕ, f.cut = cut + k * lengthDays horizon.testYears := by
  induction cut using foldsFrom.induct closes horizon last generalizing folds with
  | case1 cut hcut hshort =>
    rw [foldsFrom, if_pos hcut, if_pos hshort] at h
    cases h
    cases hf
  | case2 cut hcut hlong ih =>
    rw [foldsFrom, if_pos hcut, if_neg hlong] at h
    obtain ⟨fold, hfold, h⟩ := Option.bind_eq_some_iff.mp h
    obtain ⟨rest, hrest, h⟩ := Option.bind_eq_some_iff.mp h
    cases h
    rcases List.mem_cons.mp hf with rfl | hf
    · obtain ⟨bt, -, rfl⟩ := Option.map_eq_some_iff.mp hfold
      exact ⟨0, by simp⟩
    · -- Another fold follows, so this window was not cut short by the end of the history.
      obtain ⟨hle, hlt, -⟩ := foldAt_of_mem hrest hf
      obtain ⟨k, hk⟩ := ih hrest hf
      have hend : testEnd horizon last cut = cut + lengthDays horizon.testYears := by
        unfold testEnd at *
        omega
      refine ⟨k + 1, ?_⟩
      rw [hk, hend]
      push_cast
      ring
  | case3 cut hcut =>
    rw [foldsFrom, if_neg hcut] at h
    cases h
    cases hf

/-- Two windows that score the same day begin together. -/
theorem cut_unique {cut : ℤ} {folds folds' : List (Fold σ)}
    (h : foldsFrom opens closes config strategy s horizon last cut = some folds)
    (h' : foldsFrom opens' closes' config strategy s horizon last' cut = some folds')
    {f g : Fold σ} (hf : f ∈ folds) (hg : g ∈ folds') {x : ℤ}
    (hfx : f.cut < x ∧ x ≤ f.cut + lengthDays horizon.testYears)
    (hgx : g.cut < x ∧ x ≤ g.cut + lengthDays horizon.testYears) : f.cut = g.cut := by
  obtain ⟨k, hk⟩ := cut_eq h hf
  obtain ⟨j, hj⟩ := cut_eq h' hg
  have hstep {a b : ℕ} (hab : a < b) : (a : ℤ) * lengthDays horizon.testYears +
      lengthDays horizon.testYears ≤ b * lengthDays horizon.testYears := by
    have hle : ((a : ℤ) + 1) * lengthDays horizon.testYears ≤ b * lengthDays horizon.testYears :=
      mul_le_mul_of_nonneg_right (by exact_mod_cast hab) (by have := horizon.test_pos; omega)
    linarith
  rcases lt_trichotomy k j with hlt | rfl | hgt
  · have := hstep hlt
    omega
  · omega
  · have := hstep hgt
    omega

theorem window_le {cut : ℤ} {f : Fold σ}
    (h : foldAt opens closes config strategy s horizon last cut = some f) :
    f.testEnd ≤ cut + lengthDays horizon.testYears := by
  obtain ⟨bt, -, rfl⟩ := Option.map_eq_some_iff.mp h
  exact min_le_left _ _

theorem segment_dates {f : Fold σ} {d : Date} (h : d ∈ f.segment.map Prod.fst) :
    d ∈ f.testEquity.map Prod.fst :=
  List.mem_of_mem_tail ((dailyReturns_dates f.testEquity).subset h)

/-- Two folds with the same start score a day alike that both reach. -/
theorem testEquity_upTo (hs : ByNextDay strategy.rebalanceDates) {cut : ℤ} {f g : Fold σ}
    (hf : foldAt opens closes config strategy s horizon last cut = some f)
    (hg : foldAt opens' closes' config strategy s horizon last' cut = some g) {d : Date}
    (hd : d ∈ f.testEquity.map Prod.fst) (hfd : d.ordinal ≤ f.testEnd) (hgd : d.ordinal ≤ g.testEnd)
    (hopens : opens.upTo d.ordinal = opens'.upTo d.ordinal)
    (hcloses : closes.upTo d.ordinal = closes'.upTo d.ordinal) :
    (f.testEquity.filter (·.1 ≤ d)) = g.testEquity.filter (·.1 ≤ d) := by
  obtain ⟨bt, hbt, rfl⟩ := Option.map_eq_some_iff.mp hf
  obtain ⟨bt', hbt', rfl⟩ := Option.map_eq_some_iff.mp hg
  have hin : d ∈ bt.index := by
    obtain ⟨row, hrow, rfl⟩ := List.mem_map.mp hd
    exact (run_dates bt strategy s).1 ▸ List.mem_map_of_mem (List.mem_of_mem_filter hrow)
  have hruns := run_upTo (s := s) hs hbt hbt' hin
    (by rw [upTo_upTo _ hfd, upTo_upTo _ hgd, hopens]) (by rw [upTo_upTo _ hfd, upTo_upTo _ hgd, hcloses])
  unfold Fold.testEquity
  rw [List.filter_comm, hruns, List.filter_comm]

end Folds

/-! ### Reports -/

section Reports
variable {σ : Type} {opens closes opens' closes' : TimeFrame} {config : BacktestConfig}
  {strategy : Strategy σ} {s : σ} {horizon : Horizon} {r r' : Report σ}

/-- The folds of a report, cut from the first day of the history on. -/
theorem report_folds (h : walkForward opens closes config strategy s horizon = some (.report r)) :
    ∃ first last, closes.index.head? = some first ∧ closes.index.getLast? = some last ∧
      foldsFrom opens closes config strategy s horizon last.ordinal
        (first.ordinal + lengthDays horizon.trainYears) = some r.folds := by
  unfold walkForward at h
  split at h
  · cases h
  · obtain ⟨first, hfirst, h⟩ := Option.bind_eq_some_iff.mp h
    obtain ⟨last, hlast, h⟩ := Option.bind_eq_some_iff.mp h
    obtain ⟨folds, hfolds, h⟩ := Option.bind_eq_some_iff.mp h
    split at h
    · cases h
    · obtain ⟨bt, -, h⟩ := Option.bind_eq_some_iff.mp h
      cases h
      exact ⟨first, last, hfirst, hlast, hfolds⟩

theorem head_upTo (f : TimeFrame) {day : Date} (hday : day ∈ f.index) :
    (f.upTo day.ordinal).index.head? = f.index.head? := by
  have hsorted : f.index.Pairwise (· < ·) := List.pairwise_map.mpr f.sorted
  have hvalid := valid_index f
  rw [index_upTo]
  cases hindex : f.index with
  | nil => rfl
  | cons first rest =>
    rw [hindex] at hday hsorted hvalid
    have hle : first.ordinal ≤ day.ordinal := by
      refine (ordinal_le_iff (hvalid _ List.mem_cons_self) (hvalid _ hday)).mpr ?_
      rcases List.mem_cons.mp hday with rfl | hlater
      · exact le_rfl
      · exact ((List.pairwise_cons.mp hsorted).1 day hlater).le
    rw [List.filter_cons_of_pos (by simpa using hle)]
    rfl

theorem le_getLast (f : TimeFrame) {day last : Date} (hday : day ∈ f.index)
    (hlast : f.index.getLast? = some last) : day.ordinal ≤ last.ordinal := by
  have hsorted : f.index.Pairwise (· < ·) := List.pairwise_map.mpr f.sorted
  obtain ⟨last', hlast', hmem, hle⟩ := exists_getLast hsorted hday
  obtain rfl := Option.some.inj (hlast.symm.trans hlast')
  refine (ordinal_le_iff (valid_index f _ hday) (valid_index f _ hmem)).mpr ?_
  rcases hle with rfl | hlt
  · exact le_rfl
  · exact hlt.le

theorem mem_index_upTo {f : TimeFrame} {day : Date} (hday : day ∈ f.index) :
    day ∈ (f.upTo day.ordinal).index := by
  rw [index_upTo]
  exact List.mem_filter.mpr ⟨hday, decide_eq_true le_rfl⟩

/-- **Validation does not see the future**: two histories that agree up to a trading day, with
whatever after it, have the same folds as far as their windows have closed by then; and a return
that both report for a day up to it is the same return. -/
theorem walkForward_blind
    (hs : strategy.rebalanceDates = monthEndDates ∨ strategy.rebalanceDates = yearEndDates)
    {day : Date} (hday : day ∈ closes.index) (hopens : opens.upTo day.ordinal = opens'.upTo day.ordinal)
    (hcloses : closes.upTo day.ordinal = closes'.upTo day.ordinal)
    (h : walkForward opens closes config strategy s horizon = some (.report r))
    (h' : walkForward opens' closes' config strategy s horizon = some (.report r')) :
    (r.folds.filter fun f => f.ClosedBy horizon day.ordinal) =
        (r'.folds.filter fun f => f.ClosedBy horizon day.ordinal) ∧
      ∀ d x y, d ≤ day → (d, x) ∈ r.stitched → (d, y) ∈ r'.stitched → x = y := by
  have hnext : ByNextDay strategy.rebalanceDates := by
    rcases hs with hs | hs <;> rw [hs]
    · exact byNextDay_monthEndDates
    · exact byNextDay_yearEndDates
  have hday' : day ∈ closes'.index := by
    have hin := mem_index_upTo hday
    rw [hcloses, index_upTo] at hin
    exact List.mem_of_mem_filter hin
  obtain ⟨first, last, hfirst, hlast, hfolds⟩ := report_folds h
  obtain ⟨first', last', hfirst', hlast', hfolds'⟩ := report_folds h'
  obtain rfl : first = first' := by
    rw [← head_upTo closes hday, hcloses, head_upTo closes' hday', hfirst'] at hfirst
    exact (Option.some.inj hfirst).symm
  refine ⟨foldsFrom_closed (le_getLast closes hday hlast) (le_getLast closes' hday' hlast') hopens
    hcloses hfolds hfolds', ?_⟩
  intro d x y hd hx hy
  have hsound := walkForward_sound h
  have hsound' := walkForward_sound h'
  rw [hsound.stitched_eq, List.mem_flatMap] at hx
  rw [hsound'.stitched_eq, List.mem_flatMap] at hy
  obtain ⟨f, hf, hx⟩ := hx
  obtain ⟨g, hg, hy⟩ := hy
  have hfd := segment_dates (List.mem_map_of_mem (f := Prod.fst) hx)
  have hgd := segment_dates (List.mem_map_of_mem (f := Prod.fst) hy)
  obtain ⟨hdin, hfcut, hfend⟩ := ((hsound.covers_scored hf).mem d).mp hfd
  obtain ⟨-, hgcut, hgend⟩ := ((hsound'.covers_scored hg).mem d).mp hgd
  have hfat := (foldAt_of_mem hfolds (List.mem_of_mem_filter hf)).2.2
  have hgat := (foldAt_of_mem hfolds' (List.mem_of_mem_filter hg)).2.2
  have hcut : f.cut = g.cut := cut_unique hfolds hfolds' (List.mem_of_mem_filter hf)
    (List.mem_of_mem_filter hg) ⟨hfcut, hfend.trans (window_le hfat)⟩ ⟨hgcut, hgend.trans (window_le hgat)⟩
  rw [← hcut] at hgat
  have hd' : d.ordinal ≤ day.ordinal :=
    (ordinal_le_iff (hsound.valid d hdin) (valid_index closes day hday)).mpr hd
  have hequity := testEquity_upTo hnext hfat hgat hfd hfend hgend (upTo_congr hopens hd')
    (upTo_congr hcloses hd')
  have hsorted := List.pairwise_map.mp (hsound.covers_scored hf).sorted
  have hsorted' := List.pairwise_map.mp (hsound'.covers_scored hg).sorted
  have hy' : (d, y) ∈ f.segment := by
    rw [Fold.segment, mem_dailyReturns_upTo hsorted, hequity, ← mem_dailyReturns_upTo hsorted']
    exact hy
  have hnodup : (f.segment.map Prod.fst).Nodup :=
    ((hsound.covers_scored hf).sorted.imp ne_of_lt).sublist
      ((dailyReturns_dates f.testEquity).trans (List.tail_sublist _))
  exact (Prod.mk.inj (List.inj_on_of_nodup_map hnodup hx hy' rfl)).2

end Reports

/-! ### A crash after the day -/

/-- The doubling price, but from the 67th day on at a half of where it started. -/
def crashing : TimeFrame where
  columns := ["069500"]
  rows := (List.range 70).map fun n =>
    (Date.next^[n] ⟨2026, 1, 1⟩,
      fun sym => if sym = "069500" then
        some (if n < 64 then 10000 else if n < 66 then 20000 else 5000) else none)
  sorted := by decide +kernel
  valid := by decide +kernel

/-- Both prices up to the seventh of March. -/
theorem crashing_upTo : doubling.upTo (Date.ordinal ⟨2026, 3, 7⟩) = crashing.upTo (Date.ordinal ⟨2026, 3, 7⟩) := by
  have hdays : ((List.range 70).filter fun n =>
      (Date.next^[n] ⟨2026, 1, 1⟩).ordinal ≤ Date.ordinal ⟨2026, 3, 7⟩) = List.range 66 := by
    decide +kernel
  simp only [TimeFrame.upTo, TimeFrame.mk.injEq, Frame.mk.injEq]
  refine ⟨rfl, ?_⟩
  simp only [doubling, crashing, List.filter_map, Function.comp_def]
  rw [hdays]
  refine List.map_congr_left fun n hn => ?_
  rw [if_pos (List.mem_range.mp hn)]

/-- The first window is the same with the crash and without, and so is every return up to the day. -/
theorem walkForward_blind_crash : ∃ r r',
    walkForward doubling doubling {} (allIn "069500") () shortFolds = some (.report r) ∧
      walkForward crashing crashing {} (allIn "069500") () shortFolds = some (.report r') ∧
      (r.folds.filter fun f => f.ClosedBy shortFolds (Date.ordinal ⟨2026, 3, 7⟩)) =
        (r'.folds.filter fun f => f.ClosedBy shortFolds (Date.ordinal ⟨2026, 3, 7⟩)) ∧
      ∀ d x y, d ≤ ⟨2026, 3, 7⟩ → (d, x) ∈ r.stitched → (d, y) ∈ r'.stitched → x = y := by
  obtain ⟨r, hr, -⟩ := doubling_report
  have hfound : (Validation.found
      (walkForward crashing crashing {} (allIn "069500") () shortFolds)).isSome = true := by
    decide +kernel
  obtain ⟨r', hr'⟩ := Option.isSome_iff_exists.mp hfound
  have hr' := Validation.found_eq hr'
  exact ⟨r, r', hr, hr', walkForward_blind (.inl rfl) (by decide +kernel) crashing_upTo crashing_upTo hr hr'⟩

end Tqt.Backtest
