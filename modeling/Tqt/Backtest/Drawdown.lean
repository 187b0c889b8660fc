import Tqt.Calendar.Week
import Tqt.Foundation.RunningMax
import Tqt.Universe
import Mathlib.Algebra.Order.Field.Basic
import Mathlib.Data.List.MinMax
import Mathlib.Order.Bounds.Basic

/-! Drawdowns of an equity curve.

One pass with a running maximum gives the worst fall between any two bars
(`maxDrawdown_isLeast`), and the dates that `drawdown_details` looks up on slices of the curve
belong to it (`drawdownDetails_describes`): the fall from the peak to the trough is the worst
one, nothing before the trough is above the peak, and the recovery is the first bar from the
trough on that reaches it. The loop over the bars under water reports no less than any stretch
of them (`span_le_longestDive`). -/
namespace Tqt.Backtest

/-! ### Series

A series is a list of dated values, as pandas reads it by its index. -/

section
variable (series : List (Date × Decimal))

def cummax : List (Date × Decimal) :=
  List.zipWith (fun row top => (row.1, top)) series (runningMax (series.map Prod.snd))

/-- `series.loc[:day]` -/
def locUpTo (day : Date) : List (Date × Decimal) := series.filter (·.1 ≤ day)

/-- `series.loc[day:]` -/
def locFrom (day : Date) : List (Date × Decimal) := series.filter (day ≤ ·.1)

/-- `series.loc[day]` -/
def loc (day : Date) : Option Decimal := (series.find? (·.1 = day)).map Prod.snd

/-- The date of the first of the least values. -/
def idxmin : Option Date := (series.argmin Prod.snd).map Prod.fst

def idxmax : Option Date := (series.argmax Prod.snd).map Prod.fst

/-- `series.min()` -/
def seriesMin : Option Decimal := (series.map Prod.snd).min?

end

def drawdownSeries (equity : List (Date × Decimal)) : List (Date × Decimal) :=
  List.zipWith (fun row top => (row.1, row.2 / top.2 - 1)) equity (cummax equity)

def maxDrawdown (equity : List (Date × Decimal)) : Decimal :=
  if equity.length < 2 then 0 else (seriesMin (drawdownSeries equity)).getD 0

/-- What `drawdown_details` reports; a curve of less than two bars has no recovery entry. -/
structure DrawdownDetails where
  maxDrawdown : Decimal
  peakDate : Option Date
  troughDate : Option Date
  recoveryDate : Option Date
  longestDays : ℤ
deriving DecidableEq, Repr

/-- Below this a bar is under water: what is lost in rounding is not. -/
def waterline : Decimal := -1 / 10 ^ 12

/-- One turn of the loop: the longest stretch that is over, and where the running one began. -/
def diveStep (state : ℤ × Option Date) (row : Date × Decimal) : ℤ × Option Date :=
  match state.2 with
  | none => if row.2 < waterline then (state.1, some row.1) else state
  | some start =>
    if row.2 < waterline then state
    else (max state.1 (row.1.ordinal - start.ordinal), none)

/-- Behind the loop: a stretch that is still running counts up to the last bar. -/
def diveEnd (state : ℤ × Option Date) (last : Option (Date × Decimal)) : ℤ :=
  match state.2, last with
  | some start, some bar => max state.1 (bar.1.ordinal - start.ordinal)
  | _, _ => state.1

/-- The longest stretch under water, in calendar days. -/
def longestDive (dd : List (Date × Decimal)) : ℤ := diveEnd (dd.foldl diveStep (0, none)) dd.getLast?

/-- `none` is a lookup that raises. -/
def drawdownDetails (equity : List (Date × Decimal)) : Option DrawdownDetails :=
  if equity.length < 2 then
    some { maxDrawdown := 0, peakDate := none, troughDate := none, recoveryDate := none,
           longestDays := 0 }
  else
    let dd := drawdownSeries equity
    (idxmin dd).bind fun trough =>
    (idxmax (locUpTo equity trough)).bind fun peak =>
    (loc equity peak).bind fun height =>
    (seriesMin dd).map fun depth =>
      { maxDrawdown := depth
        peakDate := some peak
        troughDate := some trough
        recoveryDate := ((locFrom equity trough).find? (height ≤ ·.2)).map Prod.fst
        longestDays := longestDive dd }

/-! ### Curves -/

/-- An equity curve: positive values, one a day, in the order of the days. -/
structure EquityCurve where
  rows : List (Date × Decimal)
  sorted : rows.Pairwise fun a b => a.1 < b.1
  positive : ∀ row ∈ rows, 0 < row.2

/-- The falls from one bar to the same or a later one. -/
def falls (rows : List (Date × Decimal)) : Set Decimal :=
  {x | ∃ i j : ℕ, ∃ a b : Date × Decimal, i ≤ j ∧ rows[i]? = some a ∧ rows[j]? = some b ∧ x = b.2 / a.2 - 1}

/-- The highest value up to a bar. -/
def IsTop (rows : List (Date × Decimal)) (j : ℕ) (top : Decimal) : Prop :=
  IsGreatest {x | ∃ i a, i ≤ j ∧ rows[i]? = some a ∧ a.2 = x} top

theorem mem_take_iff {rows : List (Date × Decimal)} {j : ℕ} {a : Date × Decimal} :
    a ∈ rows.take (j + 1) ↔ ∃ i, i ≤ j ∧ rows[i]? = some a := by
  rw [List.mem_iff_getElem?]
  refine exists_congr fun i => ?_
  rw [List.getElem?_take]
  split
  · next h => simp [Nat.lt_succ_iff.mp h]
  · next h => simp [show ¬ i ≤ j by omega]

/-- A bar of the drawdown series: the bar's value against the highest one up to it. -/
theorem drawdownSeries_getElem? {rows : List (Date × Decimal)} {j : ℕ} {a : Date × Decimal}
    (ha : rows[j]? = some a) :
    ∃ top, IsTop rows j top ∧ (drawdownSeries rows)[j]? = some (a.1, a.2 / top - 1) := by
  obtain ⟨hj, -⟩ := List.getElem?_eq_some_iff.mp ha
  have hmax : (runningMax (rows.map Prod.snd))[j]? = ((rows.take (j + 1)).map Prod.snd).max? := by
    rw [getElem?_runningMax (by rwa [List.length_map]), List.map_take]
  obtain ⟨top, htop⟩ : ∃ top, ((rows.take (j + 1)).map Prod.snd).max? = some top := by
    rw [← hmax]
    exact ⟨_, List.getElem?_eq_getElem (by rwa [length_runningMax, List.length_map])⟩
  refine ⟨top, ?_, ?_⟩
  · obtain ⟨hmem, hle⟩ := List.max?_eq_some_iff.mp htop
    constructor
    · obtain ⟨b, hb, rfl⟩ := List.mem_map.mp hmem
      obtain ⟨i, hi, hib⟩ := mem_take_iff.mp hb
      exact ⟨i, b, hi, hib, rfl⟩
    · rintro x ⟨i, b, hi, hib, rfl⟩
      exact hle b.2 (List.mem_map_of_mem (mem_take_iff.mpr ⟨i, hi, hib⟩))
  · rw [drawdownSeries, cummax, List.getElem?_zipWith, List.getElem?_zipWith, hmax, htop, ha]

theorem length_drawdownSeries (rows : List (Date × Decimal)) :
    (drawdownSeries rows).length = rows.length := by
  simp [drawdownSeries, cummax, length_runningMax]

/-- The other way round: where an entry of the drawdown series comes from. -/
theorem mem_drawdownSeries {rows : List (Date × Decimal)} {row : Date × Decimal}
    (h : row ∈ drawdownSeries rows) :
    ∃ j a top, rows[j]? = some a ∧ IsTop rows j top ∧ row = (a.1, a.2 / top - 1) := by
  obtain ⟨j, hj⟩ := List.mem_iff_getElem?.mp h
  obtain ⟨hlt, -⟩ := List.getElem?_eq_some_iff.mp hj
  rw [length_drawdownSeries] at hlt
  obtain ⟨top, htop, hrow⟩ := drawdownSeries_getElem? (List.getElem?_eq_getElem hlt)
  rw [hj] at hrow
  exact ⟨j, _, top, List.getElem?_eq_getElem hlt, htop, Option.some.inj hrow⟩

/-! ### The worst fall -/

section
variable {rows : List (Date × Decimal)}

theorem drawdownSeries_ne_nil (h : 2 ≤ rows.length) : drawdownSeries rows ≠ [] := by
  rw [← List.length_pos_iff, length_drawdownSeries]
  omega

/-- The minimum of the drawdown series is an entry of it, and no entry is below it. -/
theorem seriesMin_drawdownSeries (h : 2 ≤ rows.length) :
    seriesMin (drawdownSeries rows) = some (maxDrawdown rows) ∧
      maxDrawdown rows ∈ (drawdownSeries rows).map Prod.snd ∧
      ∀ x ∈ (drawdownSeries rows).map Prod.snd, maxDrawdown rows ≤ x := by
  obtain ⟨m, hm⟩ : ∃ m, seriesMin (drawdownSeries rows) = some m := by
    rw [← Option.ne_none_iff_exists', seriesMin, ne_eq, List.min?_eq_none_iff, List.map_eq_nil_iff]
    exact drawdownSeries_ne_nil h
  have hmax : maxDrawdown rows = m := by
    rw [maxDrawdown, if_neg (by omega), hm, Option.getD_some]
  rw [hmax]
  exact ⟨hm, List.min?_eq_some_iff.mp hm⟩

variable (hpos : ∀ row ∈ rows, 0 < row.2)
include hpos

/-- **The worst fall**: one pass with a running maximum finds the least of the falls between
any two bars. -/
theorem maxDrawdown_isLeast (h : 2 ≤ rows.length) : IsLeast (falls rows) (maxDrawdown rows) := by
  obtain ⟨-, hmem, hle⟩ := seriesMin_drawdownSeries h
  constructor
  · obtain ⟨row, hrow, hrm⟩ := List.mem_map.mp hmem
    obtain ⟨j, b, top, hb, ⟨⟨i, a, hij, ha, hatop⟩, -⟩, rfl⟩ := mem_drawdownSeries hrow
    exact ⟨i, j, a, b, hij, ha, hb, by rw [← hrm, ← hatop]⟩
  · rintro x ⟨i, j, a, b, hij, ha, hb, rfl⟩
    obtain ⟨top, htop, hdd⟩ := drawdownSeries_getElem? hb
    have hentry := hle _ (List.mem_map_of_mem (List.mem_of_getElem? hdd))
    have hatop : a.2 ≤ top := htop.2 ⟨i, a, hij, ha, rfl⟩
    -- Against a lower start the same value is a smaller fall.
    have hfall : b.2 / top ≤ b.2 / a.2 :=
      div_le_div_of_nonneg_left (hpos b (List.mem_of_getElem? hb)).le
        (hpos a (List.mem_of_getElem? ha)) hatop
    exact le_trans hentry (sub_le_sub_right hfall 1)

theorem maxDrawdown_nonpos (h : 2 ≤ rows.length) : maxDrawdown rows ≤ 0 := by
  have hlen : 0 < rows.length := by omega
  have hfirst := List.getElem?_eq_getElem hlen
  refine (maxDrawdown_isLeast hpos h).2 ⟨0, 0, rows[0], rows[0], le_rfl, hfirst, hfirst, ?_⟩
  rw [div_self (hpos _ (List.getElem_mem hlen)).ne', sub_self]

theorem neg_one_lt_maxDrawdown (h : 2 ≤ rows.length) : -1 < maxDrawdown rows := by
  obtain ⟨i, j, a, b, -, ha, hb, hfall⟩ := (maxDrawdown_isLeast hpos h).1
  have hratio : 0 < b.2 / a.2 :=
    div_pos (hpos b (List.mem_of_getElem? hb)) (hpos a (List.mem_of_getElem? ha))
  rw [hfall]
  linarith

end

/-! ### The dates -/

/-- The first bar from `j` on that reaches a height, if any does. -/
def Recovers (rows : List (Date × Decimal)) (j : ℕ) (height : Decimal) : Option Date → Prop
  | none => ∀ k a, j ≤ k → rows[k]? = some a → a.2 < height
  | some day => ∃ k a, j ≤ k ∧ rows[k]? = some a ∧ a.1 = day ∧ height ≤ a.2 ∧
      ∀ m b, j ≤ m → m < k → rows[m]? = some b → b.2 < height

/-- What a report says of a curve. -/
structure DrawdownDetails.Describes (report : DrawdownDetails) (rows : List (Date × Decimal))
    (i j : ℕ) (peak trough : Date × Decimal) : Prop where
  peak_bar : rows[i]? = some peak
  trough_bar : rows[j]? = some trough
  peak_date : report.peakDate = some peak.1
  trough_date : report.troughDate = some trough.1
  order : i ≤ j
  depth : trough.2 / peak.2 - 1 = report.maxDrawdown
  highest : ∀ k a, k < j → rows[k]? = some a → a.2 ≤ peak.2
  recovery : Recovers rows j peak.2 report.recoveryDate

theorem recovers_find? {rows : List (Date × Decimal)} (j : ℕ) (height : Decimal) :
    Recovers rows j height (((rows.drop j).find? (height ≤ ·.2)).map Prod.fst) := by
  cases hfind : (rows.drop j).find? (height ≤ ·.2) with
  | none =>
    intro k a hk ha
    have hmem : a ∈ rows.drop j :=
      List.mem_of_getElem? (i := k - j) (by rw [List.getElem?_drop, Nat.add_sub_cancel' hk, ha])
    simpa using List.find?_eq_none.mp hfind a hmem
  | some a =>
    obtain ⟨hp, n, hn, ha, hbefore⟩ := List.find?_eq_some_iff_getElem.mp hfind
    rw [List.getElem_drop] at ha
    rw [List.length_drop] at hn
    have hlt : j + n < rows.length := by omega
    refine ⟨j + n, a, Nat.le_add_right j n, ?_, rfl, by simpa using hp, ?_⟩
    · rw [List.getElem?_eq_getElem hlt, ha]
    · intro m b hm hmn hb
      have hbm := hbefore (m - j) (by omega)
      simp only [List.getElem_drop, Nat.add_sub_cancel' hm, (List.getElem?_eq_some_iff.mp hb).2] at hbm
      simpa using hbm

theorem exists_argmin {series : List (Date × Decimal)} (h : series ≠ []) :
    ∃ row ∈ series, idxmin series = some row.1 ∧ ∀ other ∈ series, row.2 ≤ other.2 := by
  cases hrow : series.argmin Prod.snd with
  | none => exact absurd (List.argmin_eq_none.mp hrow) h
  | some row =>
    exact ⟨row, List.argmin_mem hrow, by rw [idxmin, hrow, Option.map_some],
      fun other ho => List.le_of_mem_argmin ho hrow⟩

theorem exists_argmax {series : List (Date × Decimal)} (h : series ≠ []) :
    ∃ row ∈ series, idxmax series = some row.1 ∧ ∀ other ∈ series, other.2 ≤ row.2 := by
  cases hrow : series.argmax Prod.snd with
  | none => exact absurd (List.argmax_eq_none.mp hrow) h
  | some row =>
    exact ⟨row, List.argmax_mem hrow, by rw [idxmax, hrow, Option.map_some],
      fun other ho => List.le_of_mem_argmax ho hrow⟩

namespace EquityCurve
variable (c : EquityCurve)

/-- The bar that is the highest up to the trough, whatever the ties. -/
theorem exists_peak {j : ℕ} {trough : Date × Decimal} (ht : c.rows[j]? = some trough) :
    ∃ i peak, i ≤ j ∧ c.rows[i]? = some peak ∧ IsTop c.rows j peak.2 ∧
      idxmax (locUpTo c.rows trough.1) = some peak.1 := by
  have hslice : locUpTo c.rows trough.1 = c.rows.take (j + 1) := filter_le_eq_take c.sorted ht
  have htrough : trough ∈ c.rows.take (j + 1) := mem_take_iff.mpr ⟨j, le_rfl, ht⟩
  obtain ⟨peak, hpeak, hmax, hle⟩ := exists_argmax (List.ne_nil_of_mem htrough)
  obtain ⟨i, hi, hip⟩ := mem_take_iff.mp hpeak
  refine ⟨i, peak, hi, hip, ⟨⟨i, peak, hi, hip, rfl⟩, ?_⟩, by rw [hslice, hmax]⟩
  rintro x ⟨k, a, hk, ha, rfl⟩
  exact hle a (mem_take_iff.mpr ⟨k, hk, ha⟩)

/-- **A report describes the worst fall**: the looked-up dates are those of a peak, a trough and
the recovery behind it. -/
theorem drawdownDetails_describes (h : 2 ≤ c.rows.length) :
    ∃ report i j peak trough, drawdownDetails c.rows = some report ∧
      report.maxDrawdown = maxDrawdown c.rows ∧ report.Describes c.rows i j peak trough := by
  obtain ⟨hmin, hmem, hle⟩ := seriesMin_drawdownSeries h
  obtain ⟨row, hrow, hidx, hleast⟩ := exists_argmin (drawdownSeries_ne_nil h)
  obtain ⟨j, trough, top, ht, htop, rfl⟩ := mem_drawdownSeries hrow
  obtain ⟨i, peak, hij, hp, hpeaktop, hmax⟩ := c.exists_peak ht
  have htoppeak : top = peak.2 := htop.unique hpeaktop
  have hdepth : trough.2 / peak.2 - 1 = maxDrawdown c.rows := by
    obtain ⟨other, hother, hom⟩ := List.mem_map.mp hmem
    apply le_antisymm
    · rw [← htoppeak, ← hom]
      exact hleast other hother
    · rw [← htoppeak]
      exact hle _ (List.mem_map_of_mem hrow)
  have hloc : loc c.rows peak.1 = some peak.2 := by
    rw [loc, find?_key_eq c.sorted hp, Option.map_some]
  have hslice : locFrom c.rows trough.1 = c.rows.drop j := filter_ge_eq_drop c.sorted ht
  have hreport : drawdownDetails c.rows = some
      { maxDrawdown := maxDrawdown c.rows
        peakDate := some peak.1
        troughDate := some trough.1
        recoveryDate := ((c.rows.drop j).find? (peak.2 ≤ ·.2)).map Prod.fst
        longestDays := longestDive (drawdownSeries c.rows) } := by
    rw [drawdownDetails, if_neg (by omega)]
    simp only [hidx, hmax, hloc, hmin, hslice, Option.bind_some, Option.map_some]
  exact ⟨_, i, j, peak, trough, hreport, rfl,
    { peak_bar := hp
      trough_bar := ht
      peak_date := rfl
      trough_date := rfl
      order := hij
      depth := hdepth
      highest := fun k a hk ha => hpeaktop.2 ⟨k, a, hk.le, ha, rfl⟩
      recovery := recovers_find? j peak.2 }⟩

/-- **Drawdown is what it says**: the least fall between any two bars, more than -100% and at
most nothing, with its dates. -/
theorem drawdown_correct (h : 2 ≤ c.rows.length) :
    IsLeast (falls c.rows) (maxDrawdown c.rows) ∧
      -1 < maxDrawdown c.rows ∧ maxDrawdown c.rows ≤ 0 ∧
      ∃ report i j peak trough, drawdownDetails c.rows = some report ∧
        report.maxDrawdown = maxDrawdown c.rows ∧ report.Describes c.rows i j peak trough :=
  ⟨maxDrawdown_isLeast c.positive h, neg_one_lt_maxDrawdown c.positive h,
    maxDrawdown_nonpos c.positive h, c.drawdownDetails_describes h⟩

/-- A curve that falls to a half and recovers. -/
def recovering : EquityCurve where
  rows := [(⟨2020, 1, 1⟩, 100), (⟨2020, 1, 2⟩, 120), (⟨2020, 1, 3⟩, 60), (⟨2020, 1, 6⟩, 80),
    (⟨2020, 1, 7⟩, 130)]
  sorted := by decide
  positive := by decide +kernel

theorem recovering_drawdown : IsLeast (falls recovering.rows) (-1 / 2) := by
  have hdepth : maxDrawdown recovering.rows = -1 / 2 := by decide +kernel
  rw [← hdepth]
  exact (recovering.drawdown_correct (by decide)).1

example : drawdownDetails recovering.rows =
    some ⟨-1 / 2, some ⟨2020, 1, 2⟩, some ⟨2020, 1, 3⟩, some ⟨2020, 1, 7⟩, 4⟩ := by
  decide +kernel

end EquityCurve

/-! ### Under water

The loop never forgets a stretch (`le_diveEnd`), and one that is running counts at least up to
every bar it reaches (`sub_le_diveEnd`). -/

theorem le_diveEnd (rest : List (Date × Decimal)) (state : ℤ × Option Date)
    (last : Option (Date × Decimal)) : state.1 ≤ diveEnd (rest.foldl diveStep state) last := by
  induction rest generalizing state with
  | nil =>
    rw [List.foldl_nil]
    unfold diveEnd
    split
    · exact le_max_left _ _
    · exact le_rfl
  | cons row rest ih =>
    have hstep : state.1 ≤ (diveStep state row).1 := by
      rw [diveStep]
      split
      · split <;> exact le_rfl
      · split
        · exact le_rfl
        · exact le_max_left _ _
    rw [List.foldl_cons]
    exact hstep.trans (ih _)

theorem sub_le_diveEnd (bar : Date × Decimal) (rest : List (Date × Decimal)) (longest : ℤ) (start : Date)
    (hsorted : (bar :: rest).Pairwise fun a b => a.1.ordinal < b.1.ordinal) :
    bar.1.ordinal - start.ordinal ≤
      diveEnd (rest.foldl diveStep (longest, some start)) (bar :: rest).getLast? := by
  induction rest generalizing bar with
  | nil => exact le_max_right _ _
  | cons row rest ih =>
    obtain ⟨hbar, hrest⟩ := List.pairwise_cons.mp hsorted
    have hlater : bar.1.ordinal - start.ordinal ≤ row.1.ordinal - start.ordinal :=
      sub_le_sub_right (hbar row (List.mem_cons_self ..)).le _
    rw [List.foldl_cons, List.getLast?_cons_cons]
    by_cases hunder : row.2 < waterline
    · have hstep : diveStep (longest, some start) row = (longest, some start) := if_pos hunder
      rw [hstep]
      exact hlater.trans (ih row hrest)
    · have hstep : diveStep (longest, some start) row =
          (max longest (row.1.ordinal - start.ordinal), none) := if_neg hunder
      rw [hstep]
      exact hlater.trans ((le_max_right _ _).trans (le_diveEnd rest _ _))

/-- Bars under water leave the running stretch as it is. -/
theorem foldl_diveStep_under {stretch : List (Date × Decimal)} (h : ∀ row ∈ stretch, row.2 < waterline)
    (longest : ℤ) (start : Date) :
    stretch.foldl diveStep (longest, some start) = (longest, some start) := by
  induction stretch with
  | nil => rfl
  | cons row rest ih =>
    have hstep : diveStep (longest, some start) row = (longest, some start) :=
      if_pos (h row (List.mem_cons_self ..))
    rw [List.foldl_cons, hstep]
    exact ih fun r hr => h r (List.mem_cons_of_mem row hr)

/-- A running stretch began at a bar that the loop has seen. -/
theorem mem_of_runStart {front : List (Date × Decimal)} {state : ℤ × Option Date} {start : Date}
    (h : (front.foldl diveStep state).2 = some start) :
    state.2 = some start ∨ ∃ row ∈ front, row.1 = start := by
  induction front generalizing state with
  | nil => exact .inl h
  | cons row rest ih =>
    rcases ih h with hstep | ⟨r, hr, hstart⟩
    · rw [diveStep] at hstep
      split at hstep
      · split at hstep
        · exact .inr ⟨row, List.mem_cons_self .., Option.some.inj hstep⟩
        · exact .inl hstep
      · split at hstep
        · exact .inl hstep
        · cases hstep
    · exact .inr ⟨r, List.mem_cons_of_mem row hr, hstart⟩

/-- **No stretch under water is longer** than the one that is reported. -/
theorem span_le_longestDive {front more back : List (Date × Decimal)} {first last : Date × Decimal}
    (hsorted : (front ++ (first :: more) ++ back).Pairwise fun a b => a.1.ordinal < b.1.ordinal)
    (hunder : ∀ row ∈ first :: more, row.2 < waterline) (hlast : (first :: more).getLast? = some last) :
    last.1.ordinal - first.1.ordinal ≤ longestDive (front ++ (first :: more) ++ back) := by
  obtain ⟨init, hinit⟩ := List.getLast?_eq_some_iff.mp hlast
  -- Behind the stretch a run is on that began no later than it.
  obtain ⟨longest, start, hstate, hstart⟩ : ∃ longest start,
      (front ++ (first :: more)).foldl diveStep (0, none) = (longest, some start) ∧
        start.ordinal ≤ first.1.ordinal := by
    rw [List.foldl_append]
    generalize hfront : front.foldl diveStep (0, none) = state
    obtain ⟨longest, runStart⟩ := state
    cases runStart with
    | none =>
      have hstep : diveStep (longest, none) first = (longest, some first.1) :=
        if_pos (hunder first (List.mem_cons_self ..))
      refine ⟨longest, first.1, ?_, le_rfl⟩
      rw [List.foldl_cons, hstep]
      exact foldl_diveStep_under (fun r hr => hunder r (List.mem_cons_of_mem first hr)) _ _
    | some start =>
      refine ⟨longest, start, foldl_diveStep_under hunder _ _, ?_⟩
      rcases mem_of_runStart (congrArg Prod.snd hfront) with hnone | ⟨row, hrow, rfl⟩
      · cases hnone
      · rw [List.append_assoc] at hsorted
        exact ((List.pairwise_append.mp hsorted).2.2 row hrow first (by simp)).le
  have htail : (last :: back).Pairwise fun a b => a.1.ordinal < b.1.ordinal := by
    rw [hinit, ← List.append_assoc, List.append_assoc] at hsorted
    exact (List.pairwise_append.mp hsorted).2.1
  have hend : (front ++ (first :: more) ++ back).getLast? = (last :: back).getLast? := by
    rw [hinit, ← List.append_assoc, List.append_assoc]
    exact List.getLast?_append_of_ne_nil _ (List.cons_ne_nil last back)
  rw [longestDive, hend, List.foldl_append, hstate]
  exact (sub_le_sub_left hstart _).trans (sub_le_diveEnd last back longest start htail)

end Tqt.Backtest
