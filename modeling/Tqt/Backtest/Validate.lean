import Tqt.Backtest.Lookahead
import Tqt.Calendar.Week

/-! Walk-forward validation.

`walk_forward` cuts a history into test windows, one after the other, reruns the backtest up to
the end of each and keeps the daily returns inside the windows. The windows follow each other
without a gap and the runs see every bar, so nothing is scored twice (`stitched_eq`). But a return
needs the bar before it, and that is looked for inside the window: the first bar of every window
has none (`mem_stitched`). What happens between the last bar of one window and the first of the
next is in no return. -/
namespace Tqt.Backtest

/-! ### Returns -/

/-- The ratio of two equities less one. -/
inductive Change where
  | finite (x : Decimal)
  | infinite (positive : Bool)
deriving DecidableEq

/-- Nothing over nothing is no number. -/
def changeOf (before now : Decimal) : Option Change :=
  if before ≠ 0 then some (.finite (now / before - 1))
  else if now ≠ 0 then some (.infinite (0 < now))
  else none

/-- `pct_change()`; `none` is NaN. -/
def pctChange : List (Date × Decimal) → List (Date × Option Change)
  | [] => []
  | first :: rest =>
    (first.1, none) :: List.zipWith (fun before now => (now.1, changeOf before.2 now.2)) (first :: rest) rest

def dropna (series : List (Date × Option Change)) : List (Date × Change) :=
  series.filterMap fun row => row.2.map (row.1, ·)

def dailyReturns (equity : List (Date × Decimal)) : List (Date × Change) := dropna (pctChange equity)

/-- `series[~series.index.duplicated(keep="first")]`. -/
def dropDuplicated : List (Date × Change) → List (Date × Change)
  | [] => []
  | row :: rest => row :: (dropDuplicated rest).filter (·.1 ≠ row.1)

def growth : Change → Option Decimal
  | .finite x => some (1 + x)
  | .infinite _ => none

/-- The product of one plus every return. -/
def compound (series : List (Date × Change)) : Option Decimal :=
  (series.mapM fun row => growth row.2).map List.prod

/-! ### Folds -/

/-- `int(years * 365.25)`, in days. -/
def lengthDays (years : Decimal) : ℤ :=
  if 0 ≤ years then ⌊years * (36525 / 100)⌋ else ⌈years * (36525 / 100)⌉

/-- Train and test lengths. With a test of less than a day the loop never gets to the end. -/
structure Horizon where
  trainYears : Decimal := 5
  testYears : Decimal := 2
  test_pos : 1 ≤ lengthDays testYears

/-- A table on a `DatetimeIndex`: its dates are dates of the calendar. -/
structure TimeFrame extends Frame where
  valid : ∀ row ∈ rows, row.1.Valid

/-- `frame.loc[:day]`. -/
def TimeFrame.upTo (f : TimeFrame) (day : ℤ) : TimeFrame where
  columns := f.columns
  rows := f.rows.filter (·.1.ordinal ≤ day)
  sorted := f.sorted.filter _
  valid := fun row hrow => f.valid row (List.mem_of_mem_filter hrow)

/-- A fold and the run over everything up to the end of its test window. -/
structure Fold (σ : Type) where
  cut : ℤ
  testEnd : ℤ
  result : RunState σ

namespace Fold
variable {σ : Type} (f : Fold σ)

def testEquity : List (Date × Decimal) := f.result.equityRows.filter (f.cut < ·.1.ordinal)

def Scored : Prop := 5 < f.testEquity.length

instance : DecidablePred (Scored (σ := σ)) := fun f => inferInstanceAs (Decidable (5 < f.testEquity.length))

def segment : List (Date × Change) := dailyReturns f.testEquity

def nTrades : ℕ := (f.result.fills.filter (f.cut < ·.date.ordinal)).length

end Fold

section
variable {σ : Type} (opens closes : TimeFrame) (config : BacktestConfig) (strategy : Strategy σ) (s : σ)
  (horizon : Horizon) (last : ℤ)

/-- `min(cut + test_td, end)`. -/
def testEnd (cut : ℤ) : ℤ := min (cut + lengthDays horizon.testYears) last

theorem lt_testEnd {cut : ℤ} (hcut : cut < last) : cut < testEnd horizon last cut := by
  have := horizon.test_pos
  unfold testEnd
  omega

/-- One fold; `none` is raised where there is no price data. -/
def foldAt (cut : ℤ) : Option (Fold σ) :=
  (Backtester.init (opens.upTo (testEnd horizon last cut)).toFrame
    (closes.upTo (testEnd horizon last cut)).toFrame config).map fun bt =>
      ⟨cut, testEnd horizon last cut, bt.run strategy s⟩

/-- The loop of `walk_forward`. -/
def foldsFrom (cut : ℤ) : Option (List (Fold σ)) :=
  if cut < last then
    if (closes.upTo (testEnd horizon last cut)).rows.length < 60 then some []
    else do
      let fold ← foldAt opens closes config strategy s horizon last cut
      let rest ← foldsFrom (testEnd horizon last cut)
      pure (fold :: rest)
  else some []
termination_by (last - cut).toNat
decreasing_by
  have := lt_testEnd horizon last (by assumption : cut < last)
  omega

end

/-- The folds that were run, and the run over the whole history. -/
structure Report (σ : Type) where
  folds : List (Fold σ)
  inSample : RunState σ

namespace Report
variable {σ : Type} (r : Report σ)

def scored : List (Fold σ) := r.folds.filter fun f => f.Scored

def stitched : List (Date × Change) :=
  dropDuplicated ((r.scored.flatMap Fold.segment).insertionSort (·.1 ≤ ·.1))

/-- The value of the initial cash along the stitched returns. -/
def oosEquity (initialCash : Decimal) : List (Date × Option Decimal) :=
  r.stitched.mapIdx fun i row => (row.1, (compound (r.stitched.take (i + 1))).map (initialCash * ·))

end Report

inductive Validation (σ : Type) where
  | error (text : String)
  | report (r : Report σ)

/-- `walk_forward`; every fold starts with a fresh strategy. -/
def walkForward {σ : Type} (opens closes : TimeFrame) (config : BacktestConfig) (strategy : Strategy σ)
    (s : σ) (horizon : Horizon) : Option (Validation σ) :=
  if closes.isEmpty then some (.error "no data")
  else do
    let first ← closes.index.head?
    let last ← closes.index.getLast?
    let folds ← foldsFrom opens closes config strategy s horizon last.ordinal
      (first.ordinal + lengthDays horizon.trainYears)
    if ∀ f ∈ folds, ¬ f.Scored then
      pure (.error "history too short for the requested train/test split")
    else
      let bt ← Backtester.init opens.toFrame closes.toFrame config
      pure (.report ⟨folds, bt.run strategy s⟩)

/-! ### Every out-of-sample day once -/

namespace Report
variable {σ : Type} (r : Report σ)

/-- The trading days of the history. -/
def index : List Date := r.inSample.equityRows.map Prod.fst

/-- The first test bar. -/
def firstTest : Option Date := r.scored.head?.bind fun f => (f.testEquity.map Prod.fst).head?

/-- The last test bar of the last scored fold. -/
def lastTest : Option Date := r.scored.getLast?.bind fun f => (f.testEquity.map Prod.fst).getLast?

/-- The stitched series has one return for every out-of-sample day, the change since the trading day
before in a fold's run, and together they are the growth of a single run. -/
structure CoversOnce : Prop where
  each : ∀ n before now first last, r.index[n]? = some before → r.index[n + 1]? = some now →
    r.firstTest = some first → r.lastTest = some last → first < now → now ≤ last →
    ∃ f ∈ r.scored, ∃ old new, (before, old) ∈ f.result.equityRows ∧ (now, new) ∈ f.testEquity ∧
      (r.stitched.filter (·.1 = now)).map (fun row => some row.2) = [changeOf old new]
  product : ∀ first last opening closing, r.firstTest = some first → r.lastTest = some last →
    (first, opening) ∈ r.inSample.equityRows → (last, closing) ∈ r.inSample.equityRows →
    compound r.stitched = some (closing / opening)

end Report

/-- The test bars of a fold are the trading days in its window. -/
structure Fold.Covers {σ : Type} (index : List Date) (f : Fold σ) : Prop where
  sorted : (f.testEquity.map Prod.fst).Pairwise (· < ·)
  mem : ∀ d, d ∈ f.testEquity.map Prod.fst ↔ d ∈ index ∧ f.cut < d.ordinal ∧ d.ordinal ≤ f.testEnd

/-- What the loop keeps: real dates in order, and windows that follow each other. -/
structure Report.Sound {σ : Type} (r : Report σ) : Prop where
  sorted : r.index.Pairwise (· < ·)
  valid : ∀ d ∈ r.index, d.Valid
  covers : ∀ f ∈ r.folds, f.Covers r.index
  windows : r.folds.Pairwise fun f g => f.testEnd ≤ g.cut

/-! ### The returns of a series -/

section
variable {rows : List (Date × Decimal)}

theorem pctChange_dates (rows : List (Date × Decimal)) :
    (pctChange rows).map Prod.fst = rows.map Prod.fst := by
  cases rows with
  | nil => rfl
  | cons first rest =>
    rw [pctChange, List.map_cons, List.map_cons, List.map_zipWith]
    congr 1
    induction rest generalizing first with
    | nil => rfl
    | cons second rest ih =>
      rw [List.zipWith_cons_cons, List.map_cons, ih]

theorem dropna_dates (series : List (Date × Option Change)) :
    ((dropna series).map Prod.fst).Sublist (series.map Prod.fst) := by
  induction series with
  | nil => exact .slnil
  | cons row rest ih =>
    rw [dropna] at ih ⊢
    rw [List.filterMap_cons, List.map_cons]
    cases row.2 with
    | none => exact ih.cons _
    | some change => exact ih.cons_cons _

theorem mem_dropna {series : List (Date × Option Change)} {d : Date} {change : Change} :
    (d, change) ∈ dropna series ↔ (d, some change) ∈ series := by
  rw [dropna, List.mem_filterMap]
  constructor
  · rintro ⟨⟨d', found⟩, hrow, heq⟩
    obtain ⟨change', rfl, heq⟩ := Option.map_eq_some_iff.mp heq
    cases heq
    exact hrow
  · exact fun hrow => ⟨_, hrow, rfl⟩

theorem dailyReturns_cons (first : Date × Decimal) (rest : List (Date × Decimal)) :
    dailyReturns (first :: rest) =
      dropna (List.zipWith (fun before now => (now.1, changeOf before.2 now.2)) (first :: rest) rest) := rfl

/-- The first row has no return. -/
theorem dailyReturns_dates (rows : List (Date × Decimal)) :
    ((dailyReturns rows).map Prod.fst).Sublist (rows.map Prod.fst).tail := by
  rw [← pctChange_dates]
  cases rows with
  | nil => exact .slnil
  | cons first rest =>
    rw [dailyReturns_cons]
    exact dropna_dates _

/-- Every other row has the change since the row before. -/
theorem mem_dailyReturns {d : Date} {change : Change} :
    (d, change) ∈ dailyReturns rows ↔ ∃ n before now, rows[n]? = some before ∧
      rows[n + 1]? = some (d, now) ∧ changeOf before.2 now = some change := by
  cases rows with
  | nil => simp [dailyReturns, pctChange, dropna]
  | cons first rest =>
    rw [dailyReturns_cons, mem_dropna, List.mem_iff_getElem?]
    refine exists_congr fun n => ?_
    rw [List.getElem?_zipWith_eq_some]
    constructor
    · rintro ⟨before, ⟨d', now⟩, hbefore, hnow, heq⟩
      obtain ⟨rfl, hchange⟩ := Prod.mk.inj heq
      exact ⟨before, now, hbefore, hnow, hchange⟩
    · rintro ⟨before, now, hbefore, hnow, hchange⟩
      exact ⟨before, (d, now), hbefore, hnow, by rw [hchange]⟩

theorem dropDuplicated_eq {series : List (Date × Change)} (h : series.Pairwise fun a b => a.1 < b.1) :
    dropDuplicated series = series := by
  induction series with
  | nil => rfl
  | cons row rest ih =>
    obtain ⟨hlt, hrest⟩ := List.pairwise_cons.mp h
    rw [dropDuplicated, ih hrest, List.filter_eq_self.mpr]
    exact fun later hlater => decide_eq_true (hlt later hlater).ne'

end

/-! ### The loop -/

theorem align_dates (columns : List Symbol) (opens closes : List (Date × (Symbol → Option Decimal))) :
    (Backtester.align columns opens closes).map Bar.date =
      (opens.map Prod.fst).filter (· ∈ closes.map Prod.fst) := by
  have hdate (o : Date × (Symbol → Option Decimal)) :
      (closes.lookup o.1).isSome ↔ o.1 ∈ closes.map Prod.fst := by
    rw [List.lookup_isSome_iff, List.mem_map]
    simp only [beq_iff_eq, eq_comm (a := o.1)]
  induction opens with
  | nil => rfl
  | cons o rest ih =>
    rw [Backtester.align] at ih ⊢
    rw [List.filterMap_cons, List.map_cons, List.filter_cons]
    cases hlookup : closes.lookup o.1 with
    | none =>
      have hout : o.1 ∉ closes.map Prod.fst := by simp [← hdate o, hlookup]
      rw [if_neg (by simpa using hout)]
      exact ih
    | some c =>
      have hin : o.1 ∈ closes.map Prod.fst := by simp [← hdate o, hlookup]
      rw [if_pos (by simpa using hin)]
      exact congrArg _ ih

/-- The trading days are the common dates of both tables. -/
theorem index_init {opens closes : Frame} {config : BacktestConfig} {bt : Backtester}
    (h : Backtester.init opens closes config = some bt) :
    bt.index = opens.index.filter (· ∈ closes.index) := by
  simp only [Backtester.init, Option.ite_none_left_eq_some, Option.some.injEq] at h
  obtain ⟨-, rfl⟩ := h
  exact align_dates _ opens.rows closes.rows

section
variable {σ : Type} {opens closes : TimeFrame} {config : BacktestConfig} {strategy : Strategy σ} {s : σ}
  {horizon : Horizon} {last : ℤ}

theorem index_upTo (f : TimeFrame) (day : ℤ) :
    (f.upTo day).index = f.index.filter (·.ordinal ≤ day) := by
  unfold Frame.index TimeFrame.upTo
  rw [List.filter_map]
  rfl

/-- A fold's run scores the trading days in its window. -/
theorem covers_of_foldAt {bt : Backtester}
    (hbt : Backtester.init opens.toFrame closes.toFrame config = some bt) {cut : ℤ} {f : Fold σ}
    (h : foldAt opens closes config strategy s horizon last cut = some f) :
    f.Covers bt.index ∧ f.cut = cut ∧ f.testEnd = testEnd horizon last cut := by
  obtain ⟨bt', hbt', rfl⟩ := Option.map_eq_some_iff.mp h
  have hdates : (⟨cut, testEnd horizon last cut, bt'.run strategy s⟩ : Fold σ).testEquity.map Prod.fst =
      bt'.index.filter (cut < ·.ordinal) := by
    rw [← (run_dates bt' strategy s).1, List.filter_map]
    rfl
  refine ⟨⟨?_, fun d => ?_⟩, rfl, rfl⟩
  · rw [hdates]
    exact (List.pairwise_map.mpr bt'.sorted).filter _
  · rw [hdates, index_init hbt', index_init hbt, index_upTo, index_upTo]
    simp only [List.mem_filter, decide_eq_true_eq]
    tauto

theorem foldsFrom_covers {bt : Backtester}
    (hbt : Backtester.init opens.toFrame closes.toFrame config = some bt) {cut : ℤ} {folds : List (Fold σ)}
    (h : foldsFrom opens closes config strategy s horizon last cut = some folds) :
    (∀ f ∈ folds, f.Covers bt.index ∧ cut ≤ f.cut) ∧ folds.Pairwise fun f g => f.testEnd ≤ g.cut := by
  induction cut using foldsFrom.induct closes horizon last generalizing folds with
  | case1 cut hcut hshort =>
    rw [foldsFrom, if_pos hcut, if_pos hshort] at h
    cases h
    exact ⟨fun f hf => absurd hf List.not_mem_nil, .nil⟩
  | case2 cut hcut hlong ih =>
    rw [foldsFrom, if_pos hcut, if_neg hlong] at h
    obtain ⟨fold, hfold, h⟩ := Option.bind_eq_some_iff.mp h
    obtain ⟨rest, hrest, h⟩ := Option.bind_eq_some_iff.mp h
    cases h
    obtain ⟨hcovers, hfirst, hend⟩ := covers_of_foldAt hbt hfold
    obtain ⟨hrestCovers, hwindows⟩ := ih hrest
    refine ⟨fun f hf => ?_, List.pairwise_cons.mpr ⟨fun g hg => ?_, hwindows⟩⟩
    · rcases List.mem_cons.mp hf with rfl | hf
      · exact ⟨hcovers, hfirst.ge⟩
      · exact ⟨(hrestCovers f hf).1, (lt_testEnd horizon last hcut).le.trans (hrestCovers f hf).2⟩
    · rw [hend]
      exact (hrestCovers g hg).2
  | case3 cut hcut =>
    rw [foldsFrom, if_neg hcut] at h
    cases h
    exact ⟨fun f hf => absurd hf List.not_mem_nil, .nil⟩

/-- **What a report is about.** -/
theorem walkForward_sound {r : Report σ}
    (h : walkForward opens closes config strategy s horizon = some (.report r)) : r.Sound := by
  unfold walkForward at h
  split at h
  · cases h
  · obtain ⟨first, -, h⟩ := Option.bind_eq_some_iff.mp h
    obtain ⟨last, -, h⟩ := Option.bind_eq_some_iff.mp h
    obtain ⟨folds, hfolds, h⟩ := Option.bind_eq_some_iff.mp h
    split at h
    · cases h
    · obtain ⟨bt, hbt, h⟩ := Option.bind_eq_some_iff.mp h
      cases h
      have hindex : (bt.run strategy s).equityRows.map Prod.fst = bt.index := (run_dates bt strategy s).1
      obtain ⟨hcovers, hwindows⟩ := foldsFrom_covers hbt hfolds
      refine ⟨?_, ?_, ?_, hwindows⟩
      · rw [Report.index, hindex]
        exact List.pairwise_map.mpr bt.sorted
      · intro d hd
        rw [Report.index, hindex, index_init hbt] at hd
        obtain ⟨row, hrow, rfl⟩ := List.mem_map.mp (List.mem_of_mem_filter hd)
        exact opens.valid row hrow
      · intro f hf
        rw [Report.index, hindex]
        exact (hcovers f hf).1

end

/-! ### What is stitched -/

theorem scored_dates {σ : Type} {r : Report σ} {f : Fold σ} (hf : f ∈ r.scored) :
    ∃ d later, f.testEquity.map Prod.fst = d :: later := by
  have hscored : f.Scored := of_decide_eq_true (List.mem_filter.mp hf).2
  refine List.exists_cons_of_length_pos ?_
  rw [List.length_map]
  exact Nat.zero_lt_of_lt hscored

theorem exists_getLast {α : Type} {R : α → α → Prop} {l : List α} (h : l.Pairwise R) {a : α} (ha : a ∈ l) :
    ∃ b, l.getLast? = some b ∧ b ∈ l ∧ (a = b ∨ R a b) := by
  rcases l.eq_nil_or_concat' with rfl | ⟨front, b, rfl⟩
  · cases ha
  · refine ⟨b, List.getLast?_concat, by simp, ?_⟩
    rcases List.mem_append.mp ha with hfront | hlast
    · exact .inr ((List.pairwise_append.mp h).2.2 a hfront b (List.mem_singleton_self b))
    · exact .inl (List.mem_singleton.mp hlast)

namespace Report.Sound
variable {σ : Type} {r : Report σ} (h : r.Sound)
include h

theorem covers_scored {f : Fold σ} (hf : f ∈ r.scored) : f.Covers r.index :=
  h.covers f (List.mem_of_mem_filter hf)

/-- The days of one fold come before those of the next. -/
theorem days_lt {f g : Fold σ} (hf : f ∈ r.scored) (hg : g ∈ r.scored) (hfg : f.testEnd ≤ g.cut) {x y : Date}
    (hx : x ∈ f.testEquity.map Prod.fst) (hy : y ∈ g.testEquity.map Prod.fst) : x < y := by
  obtain ⟨hxin, -, hxend⟩ := ((h.covers_scored hf).mem x).mp hx
  obtain ⟨hyin, hycut, -⟩ := ((h.covers_scored hg).mem y).mp hy
  by_contra hle
  rcases (not_lt.mp hle).eq_or_lt with rfl | hlt
  · omega
  · have := Date.ordinal_lt (h.valid y hyin) (h.valid x hxin) hlt
    omega

theorem scored_windows : r.scored.Pairwise fun f g => f.testEnd ≤ g.cut := h.windows.filter _

theorem segments_sorted : (r.scored.flatMap Fold.segment).Pairwise fun a b => a.1 < b.1 := by
  have hdates {f : Fold σ} {row : Date × Change} (hrow : row ∈ f.segment) :
      row.1 ∈ f.testEquity.map Prod.fst :=
    List.mem_of_mem_tail ((dailyReturns_dates f.testEquity).subset (List.mem_map_of_mem hrow))
  rw [List.pairwise_flatMap]
  constructor
  · intro f hf
    have hsorted := ((h.covers_scored hf).sorted.sublist (List.tail_sublist _)).sublist
      (dailyReturns_dates f.testEquity)
    exact List.pairwise_map.mp hsorted
  · refine List.Pairwise.imp_of_mem (fun hf hg hfg x hx y hy => ?_) h.scored_windows
    exact h.days_lt hf hg hfg (hdates hx) (hdates hy)

/-- Nothing is scored twice or out of order. -/
theorem stitched_eq : r.stitched = r.scored.flatMap Fold.segment := by
  have hsorted := h.segments_sorted
  rw [Report.stitched, (hsorted.imp fun hlt => le_of_lt hlt).insertionSort_eq, dropDuplicated_eq hsorted]

/-- **The returns that are stitched**: between two neighbouring bars of one window. -/
theorem mem_stitched {d : Date} {change : Change} :
    (d, change) ∈ r.stitched ↔ ∃ f ∈ r.scored, ∃ n before now, f.testEquity[n]? = some before ∧
      f.testEquity[n + 1]? = some (d, now) ∧ changeOf before.2 now = some change := by
  rw [h.stitched_eq, List.mem_flatMap]
  exact exists_congr fun f => and_congr_right fun _ => mem_dailyReturns

theorem windows_cases {f g : Fold σ} (hf : f ∈ r.scored) (hg : g ∈ r.scored) :
    f = g ∨ f.testEnd ≤ g.cut ∨ g.testEnd ≤ f.cut := by
  obtain ⟨i, hi, rfl⟩ := List.getElem_of_mem hf
  obtain ⟨j, hj, rfl⟩ := List.getElem_of_mem hg
  have hwindows := List.pairwise_iff_getElem.mp h.scored_windows
  rcases lt_trichotomy i j with hlt | rfl | hgt
  · exact .inr (.inl (hwindows i j hi hj hlt))
  · exact .inl rfl
  · exact .inr (.inr (hwindows j i hj hi hgt))

/-- The first bar of a window is in no return. -/
theorem first_uncovered {f : Fold σ} (hf : f ∈ r.scored) {d : Date} {rest : List Date}
    (hfirst : f.testEquity.map Prod.fst = d :: rest) : r.stitched.filter (·.1 = d) = [] := by
  rw [List.filter_eq_nil_iff]
  rintro ⟨d', change⟩ hrow
  rw [decide_eq_true_eq]
  rintro rfl
  obtain ⟨g, hg, n, before, now, -, hnow, -⟩ := h.mem_stitched.mp hrow
  have hdates : (g.testEquity.map Prod.fst)[n + 1]? = some d' := by
    rw [List.getElem?_map, hnow]
    rfl
  have hgd := ((h.covers_scored hg).mem d').mp (List.mem_of_getElem? hdates)
  have hfd := ((h.covers_scored hf).mem d').mp (by rw [hfirst]; exact List.mem_cons_self)
  rcases h.windows_cases hf hg with rfl | hbefore | hafter
  · -- In its own window it would come twice.
    have hsorted := (h.covers_scored hf).sorted
    rw [hfirst] at hsorted hdates
    exact lt_irrefl _ ((List.pairwise_cons.mp hsorted).1 d' (List.mem_of_getElem? hdates))
  · omega
  · omega

/-- A trading day after another has one just before it. -/
theorem exists_before {x d : Date} (hx : x ∈ r.index) (hd : d ∈ r.index) (hlt : x < d) :
    ∃ n before, r.index[n]? = some before ∧ r.index[n + 1]? = some d := by
  obtain ⟨m, hm, rfl⟩ := List.getElem_of_mem hd
  obtain ⟨k, hk, rfl⟩ := List.getElem_of_mem hx
  have hsorted := List.pairwise_iff_getElem.mp h.sorted
  cases m with
  | zero =>
    rcases k.eq_zero_or_pos with rfl | hpos
    · exact absurd hlt (lt_irrefl _)
    · exact absurd hlt (hsorted 0 k hm hk hpos).not_gt
  | succ n => exact ⟨n, r.index[n], List.getElem?_eq_getElem (by omega), List.getElem?_eq_getElem hm⟩

/-- The last test bar is the last of all windows. -/
theorem le_lastTest {f : Fold σ} (hf : f ∈ r.scored) {d : Date} (hd : d ∈ f.testEquity.map Prod.fst) :
    ∃ last, r.lastTest = some last ∧ d ≤ last := by
  obtain ⟨g, hg, hgin, hfg⟩ := exists_getLast h.scored_windows hf
  obtain ⟨y, later, hy⟩ := scored_dates hgin
  have hyin : y ∈ g.testEquity.map Prod.fst := by simp [hy]
  obtain ⟨last, hlast, hlastin, -⟩ := exists_getLast (h.covers_scored hgin).sorted hyin
  refine ⟨last, by rw [Report.lastTest, hg, Option.bind_some, hlast], ?_⟩
  rcases hfg with rfl | hwindow
  · obtain ⟨last', hlast', -, hle⟩ := exists_getLast (h.covers_scored hf).sorted hd
    rw [hlast] at hlast'
    cases hlast'
    rcases hle with rfl | hlt
    · exact le_rfl
    · exact hlt.le
  · exact (h.days_lt hf hgin hwindow hd hlastin).le

/-- **Two windows are enough to lose a day**: the first bar of the second. -/
theorem not_coversOnce (htwo : 2 ≤ r.scored.length) : ¬ r.CoversOnce := by
  intro hcovers
  have ha := List.getElem_mem (l := r.scored) (show 0 < r.scored.length by omega)
  have hb := List.getElem_mem (l := r.scored) (show 1 < r.scored.length by omega)
  have hwindow := List.pairwise_iff_getElem.mp h.scored_windows 0 1 (by omega) (by omega) Nat.zero_lt_one
  obtain ⟨x, laterA, hx⟩ := scored_dates ha
  obtain ⟨d, laterB, hd⟩ := scored_dates hb
  have hxa := hx ▸ List.mem_cons_self
  have hdb := hd ▸ List.mem_cons_self
  have hxd : x < d := h.days_lt ha hb hwindow hxa hdb
  have hxin : x ∈ r.index := (((h.covers_scored ha).mem x).mp hxa).1
  have hdin : d ∈ r.index := (((h.covers_scored hb).mem d).mp hdb).1
  obtain ⟨n, before, hbefore, hnow⟩ := h.exists_before hxin hdin hxd
  obtain ⟨last, hlast, hle⟩ := h.le_lastTest hb hdb
  have hfirst : r.firstTest = some x := by
    rw [Report.firstTest, List.head?_eq_getElem?, List.getElem?_eq_getElem (by omega), Option.bind_some, hx,
      List.head?_cons]
  obtain ⟨f, -, old, new, -, -, hone⟩ := hcovers.each n before d x last hbefore hnow hfirst hlast hxd hle
  rw [h.first_uncovered hb hd] at hone
  cases hone

end Report.Sound

/-- **No report of two scored folds covers every day.** -/
theorem walkForward_uncovered {σ : Type} {opens closes : TimeFrame} {config : BacktestConfig}
    {strategy : Strategy σ} {s : σ} {horizon : Horizon} {r : Report σ}
    (h : walkForward opens closes config strategy s horizon = some (.report r))
    (htwo : 2 ≤ r.scored.length) : ¬ r.CoversOnce :=
  (walkForward_sound h).not_coversOnce htwo

/-! ### A price that doubles between two windows -/

def Validation.found {σ : Type} : Option (Validation σ) → Option (Report σ)
  | some (.report r) => some r
  | _ => none

theorem Validation.found_eq {σ : Type} {v : Option (Validation σ)} {r : Report σ} (h : found v = some r) :
    v = some (.report r) := by
  unfold found at h
  grind

/-- Seventy days; from the 65th on the price is twice what it was. -/
def doubling : TimeFrame where
  columns := ["069500"]
  rows := (List.range 70).map fun n =>
    (Date.next^[n] ⟨2026, 1, 1⟩,
      fun sym => if sym = "069500" then some (if n < 64 then 10000 else 20000) else none)
  sorted := by decide +kernel
  valid := by decide +kernel

/-- 57 days to train on and 6 to test. -/
def shortFolds : Horizon where
  trainYears := 57 / 365
  testYears := 6 / 365
  test_pos := by decide +kernel

/-- The single run gains 990000 on the sixth of March, the first day of the second window; the
stitched returns multiply to one. -/
def GainLost (r : Report Unit) : Prop :=
  r.scored.length = 2 ∧ compound r.stitched = some 1 ∧
    (r.inSample.equityRows.filter fun row => ⟨2026, 3, 5⟩ ≤ row.1 ∧ row.1 ≤ ⟨2026, 3, 6⟩) =
      [(⟨2026, 3, 5⟩, 1997722703 / 2000), (⟨2026, 3, 6⟩, 1997722703 / 2000 + 990000)]

instance : DecidablePred GainLost := fun _ => inferInstanceAs (Decidable (_ ∧ _ ∧ _))

theorem doubling_report : ∃ r,
    walkForward doubling doubling {} (allIn "069500") () shortFolds = some (.report r) ∧ GainLost r := by
  have hany : ((Validation.found (walkForward doubling doubling {} (allIn "069500") () shortFolds)).any
      fun r => GainLost r) = true := by
    decide +kernel
  obtain ⟨r, hr, hlost⟩ := (Option.any_eq_true _ _).mp hany
  exact ⟨r, Validation.found_eq hr, of_decide_eq_true hlost⟩

theorem walkForward_uncovered_doubling : ∃ r,
    walkForward doubling doubling {} (allIn "069500") () shortFolds = some (.report r) ∧ ¬ r.CoversOnce := by
  obtain ⟨r, hr, htwo, -⟩ := doubling_report
  exact ⟨r, hr, walkForward_uncovered hr htwo.ge⟩

/-- The gain of the day between the windows is in no return. -/
theorem gain_lost : ¬ ∀ (opens closes : TimeFrame) (config : BacktestConfig) (strategy : Strategy Unit)
    (horizon : Horizon) (r : Report Unit),
    walkForward opens closes config strategy () horizon = some (.report r) → 2 ≤ r.scored.length →
    r.CoversOnce := by
  intro hall
  obtain ⟨r, hr, htwo, -⟩ := doubling_report
  have hcovers := hall doubling doubling {} (allIn "069500") shortFolds r hr htwo.ge
  exact (walkForward_sound hr).not_coversOnce htwo.ge hcovers

end Tqt.Backtest
