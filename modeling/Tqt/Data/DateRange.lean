import Mathlib.Data.List.Dedup
import Tqt.Data.Ingest
import Tqt.Foundation.Sweep

/-! Stored candles between two dates.

Times are stored as full timestamps and the bounds are dates, compared as texts. A timestamp is
its date and more (`Stamped`), so it is at or above a bound exactly when its date is, but at or
below one only when its date comes before it: the bars of the end date are left out
(`within_iff`), which shows exactly when there are some (`selectsDays_iff`). -/
namespace Tqt

/-- `substr(ts, 1, 10)` -/
def dateOf (ts : String) : String := String.ofList (ts.toList.take 10)

/-- A wide table of stored texts, before their cast to floats: one row per date, one column per
symbol that has a bar. -/
structure CandleFrame where
  index : List String := []
  columns : List Symbol := []
  cell : String → Symbol → Option String := fun _ _ => none
  sorted : index.Pairwise (· < ·) := by simp

namespace Store

/-- `ts >= start` and `ts <= end`, where a bound is given. -/
def within (start stop : Option String) (ts : String) : Bool :=
  start.all (fun s => decide (s = "" ∨ s ≤ ts)) && stop.all fun s => decide (s = "" ∨ ts ≤ s)

def loadCandles (t : CandleTable) (symbol : Symbol) (interval : String := "1d")
    (start stop : Option String := none) : List (String × CandleRow) :=
  ((t.row (symbol, interval)).entries.filter fun e => within start stop e.1).insertionSort
    fun a b => a.1 ≤ b.1

/-- The columns a frame may be asked for. -/
def candleFields : List (String × (CandleRow → String)) :=
  [("open", CandleRow.openPrice), ("high", CandleRow.highPrice), ("low", CandleRow.lowPrice),
    ("close", CandleRow.closePrice), ("volume", CandleRow.volume)]

/-- The distinct elements in ascending order. -/
def ascending (l : List String) : List String := l.dedup.insertionSort (· ≤ ·)

theorem ascending_sorted (l : List String) : (ascending l).Pairwise (· < ·) := by
  have hnodup : (ascending l).Nodup :=
    (List.perm_insertionSort (· ≤ ·) l.dedup).nodup_iff.mpr l.nodup_dedup
  exact ((pairwise_sortBy id l.dedup).and hnodup).imp fun ⟨hle, hne⟩ => lt_of_le_of_ne hle hne

@[simp] theorem mem_ascending {l : List String} {x : String} : x ∈ ascending l ↔ x ∈ l := by
  rw [ascending, List.mem_insertionSort, List.mem_dedup]

/-- The frame of one field. The rows come in the order of the table's key, so that a date with
several bars of a symbol shows the last of them. -/
def loadFrame (t : CandleTable) (symbols : List Symbol) (interval : String := "1d")
    (start stop : Option String := none) (field : String := "close") :
    Except String CandleFrame :=
  if symbols = [] then .ok {}
  else match candleFields.lookup field with
    | none => .error ("invalid field '" ++ field ++ "'")
    | some value =>
      let rows := (ascending symbols).flatMap fun symbol =>
        (loadCandles t symbol interval start stop).map fun e => (symbol, dateOf e.1, value e.2)
      .ok
        { index := ascending (rows.map fun r => r.2.1)
          columns := ascending (rows.map Prod.fst)
          cell := fun date symbol =>
            ((rows.filter fun r => r.1 = symbol ∧ r.2.1 = date).getLast?).map fun r => r.2.2
          sorted := ascending_sorted _ }

section
variable {t : CandleTable} {start stop : Option String}

theorem mem_loadCandles {symbol : Symbol} {interval : String} {e : String × CandleRow} :
    e ∈ loadCandles t symbol interval start stop ↔
      e ∈ (t.row (symbol, interval)).entries ∧ within start stop e.1 = true := by
  rw [loadCandles, List.mem_insertionSort, List.mem_filter]

theorem loadCandles_ascending (symbol : Symbol) (interval : String) :
    (loadCandles t symbol interval start stop).Pairwise fun a b => a.1 < b.1 := by
  have hentries : ((t.row (symbol, interval)).entries.filter fun e => within start stop e.1).Pairwise
      fun a b => a.1 ≠ b.1 :=
    (List.pairwise_map.mp (t.row (symbol, interval)).nodup).filter _
  have hdistinct : (loadCandles t symbol interval start stop).Pairwise fun a b => a.1 ≠ b.1 :=
    hentries.perm (List.perm_insertionSort _ _).symm fun hne => hne.symm
  exact ((pairwise_sortBy Prod.fst _).and hdistinct).imp fun ⟨hle, hne⟩ => lt_of_le_of_ne hle hne

/-- A frame has the dates of its symbols' bars. -/
theorem loadFrame_index (t : CandleTable) (symbols : List Symbol) (interval : String)
    (start stop : Option String) {field : String} (hfield : field ∈ candleFields.map Prod.fst) :
    ∃ frame, loadFrame t symbols interval start stop field = .ok frame ∧
      ∀ date, date ∈ frame.index ↔
        ∃ symbol ∈ symbols, ∃ e ∈ loadCandles t symbol interval start stop, dateOf e.1 = date := by
  unfold loadFrame
  by_cases hnone : symbols = []
  · subst hnone
    exact ⟨_, if_pos rfl, fun date => by simp⟩
  · obtain ⟨value, hvalue⟩ : ∃ value, candleFields.lookup field = some value := by
      obtain ⟨e, he, rfl⟩ := List.mem_map.mp hfield
      exact Option.isSome_iff_exists.mp (List.lookup_isSome_iff.mpr ⟨e, he, beq_self_eq_true _⟩)
    rw [if_neg hnone, hvalue]
    refine ⟨_, rfl, fun date => ?_⟩
    simp only [mem_ascending, List.mem_map, List.mem_flatMap]
    constructor
    · rintro ⟨_, ⟨symbol, hsymbol, e, he, rfl⟩, rfl⟩
      exact ⟨symbol, hsymbol, e, he, rfl⟩
    · rintro ⟨symbol, hsymbol, e, he, rfl⟩
      exact ⟨_, ⟨symbol, hsymbol, e, he, rfl⟩, rfl⟩

end

/-! ### Dates as bounds -/

/-- A date, as a text. -/
def IsDate (date : String) : Prop := date.length = 10

/-- A timestamp has a date and a time part. -/
def Stamped (ts : String) : Prop := 10 < ts.length

instance (date : String) : Decidable (IsDate date) := inferInstanceAs (Decidable (_ = _))

instance (ts : String) : Decidable (Stamped ts) := inferInstanceAs (Decidable (_ < _))

section
variable {α : Type*} [LinearOrder α]

/-- Against a text of the same length, what follows decides nothing from below. -/
theorem append_lt_iff {a b : List α} (h : a.length = b.length) (c : List α) : b ++ c < a ↔ b < a := by
  induction a generalizing b with
  | nil =>
    rw [List.length_eq_zero_iff.mp h.symm]
    exact iff_of_false (List.not_lt_nil _) (List.not_lt_nil _)
  | cons x a ih =>
    cases b with
    | nil => cases h
    | cons y b =>
      rw [List.cons_append, List.cons_lt_cons_iff, List.cons_lt_cons_iff, ih (Nat.succ.inj h)]

/-- From above it does: a longer text comes after. -/
theorem lt_append_iff {a b : List α} (h : a.length = b.length) {c : List α} (hc : c ≠ []) :
    a < b ++ c ↔ ¬ b < a := by
  induction a generalizing b with
  | nil =>
    rw [List.length_eq_zero_iff.mp h.symm, List.nil_append]
    obtain ⟨z, rest, rfl⟩ := List.exists_cons_of_ne_nil hc
    exact iff_of_true (List.nil_lt_cons z rest) (List.not_lt_nil _)
  | cons x a ih =>
    cases b with
    | nil => cases h
    | cons y b =>
      rw [List.cons_append, List.cons_lt_cons_iff, List.cons_lt_cons_iff, ih (Nat.succ.inj h)]
      rcases lt_trichotomy x y with hxy | rfl | hyx
      · simp [hxy, hxy.asymm, hxy.ne']
      · simp
      · simp [hyx, hyx.asymm, hyx.ne']

end

section
variable {start stop ts : String}

theorem toList_dateOf (ts : String) : (dateOf ts).toList = ts.toList.take 10 := String.toList_ofList

theorem isDate_dateOf (h : Stamped ts) : IsDate (dateOf ts) := by
  rw [IsDate, ← String.length_toList, toList_dateOf, List.length_take, String.length_toList]
  exact min_eq_left h.le

/-- **What the bounds select**: the days from the first to the one before the last. -/
theorem within_iff (hstart : IsDate start) (hstop : IsDate stop) (hts : Stamped ts) :
    within (some start) (some stop) ts = true ↔ start ≤ dateOf ts ∧ dateOf ts < stop := by
  have hsplit : ts.toList = (dateOf ts).toList ++ ts.toList.drop 10 := by
    rw [toList_dateOf, List.take_append_drop]
  have hlength (bound : String) (hbound : IsDate bound) :
      bound.toList.length = (dateOf ts).toList.length := by
    rw [String.length_toList, String.length_toList, hbound, isDate_dateOf hts]
  have htime : ts.toList.drop 10 ≠ [] := by
    rw [ne_eq, List.drop_eq_nil_iff, String.length_toList, not_le]
    exact hts
  have hne (bound : String) (hbound : IsDate bound) : bound ≠ "" := by
    rintro rfl
    cases hbound
  have hlo : start ≤ ts ↔ start ≤ dateOf ts := by
    rw [← not_lt, ← not_lt, String.lt_iff_toList_lt, String.lt_iff_toList_lt, hsplit,
      append_lt_iff (hlength start hstart)]
  have hhi : ts ≤ stop ↔ dateOf ts < stop := by
    rw [← not_lt, String.lt_iff_toList_lt, String.lt_iff_toList_lt, hsplit,
      lt_append_iff (hlength stop hstop) htime, not_not]
  simp [within, hne start hstart, hne stop hstop, hlo, hhi]

end

/-! ### Whole days -/

/-- A symbol has a bar on this date. -/
def Stored (t : CandleTable) (symbols : List Symbol) (date : String) : Prop :=
  ∃ symbol ∈ symbols, ∃ ts ∈ candleTimes t symbol "1d", dateOf ts = date

/-- The bounds select the bars of whole days, both ends included. -/
structure SelectsDays (t : CandleTable) (symbols : List Symbol) (start stop : String) : Prop where
  index : ∀ field ∈ candleFields.map Prod.fst,
    ∃ frame, loadFrame t symbols "1d" (some start) (some stop) field = .ok frame ∧
      ∀ date, date ∈ frame.index ↔ Stored t symbols date ∧ start ≤ date ∧ date ≤ stop
  bars : ∀ symbol ∈ symbols, ∀ e, e ∈ loadCandles t symbol "1d" (some start) (some stop) ↔
    e ∈ (t.row (symbol, "1d")).entries ∧ start ≤ dateOf e.1 ∧ dateOf e.1 ≤ stop
  ascending : ∀ symbol ∈ symbols,
    (loadCandles t symbol "1d" (some start) (some stop)).Pairwise fun a b => a.1 < b.1

section
variable {t : CandleTable} {symbols : List Symbol} {start stop : String}

theorem mem_candleTimes {symbol : Symbol} {ts : String} :
    ts ∈ candleTimes t symbol "1d" ↔ ∃ e ∈ (t.row (symbol, "1d")).entries, e.1 = ts := by
  rw [candleTimes, Dict.keys, List.mem_map]

/-- What `load_candles` selects, day by day. -/
theorem mem_loadCandles_dates (hstart : IsDate start) (hstop : IsDate stop)
    (hstamped : ∀ symbol ∈ symbols, ∀ ts ∈ candleTimes t symbol "1d", Stamped ts)
    {symbol : Symbol} (hsymbol : symbol ∈ symbols) (e : String × CandleRow) :
    e ∈ loadCandles t symbol "1d" (some start) (some stop) ↔
      e ∈ (t.row (symbol, "1d")).entries ∧ start ≤ dateOf e.1 ∧ dateOf e.1 < stop := by
  rw [mem_loadCandles]
  refine and_congr_right fun he => within_iff hstart hstop ?_
  exact hstamped symbol hsymbol e.1 (mem_candleTimes.mpr ⟨e, he, rfl⟩)

/-- **Exactly when the bounds select whole days**: unless there is a bar on the last one. -/
theorem selectsDays_iff (hstart : IsDate start) (hstop : IsDate stop) (hle : start ≤ stop)
    (hstamped : ∀ symbol ∈ symbols, ∀ ts ∈ candleTimes t symbol "1d", Stamped ts) :
    SelectsDays t symbols start stop ↔ ¬ Stored t symbols stop := by
  have hmem {symbol : Symbol} (hsymbol : symbol ∈ symbols) (e : String × CandleRow) :=
    mem_loadCandles_dates hstart hstop hstamped hsymbol e
  constructor
  · rintro h ⟨symbol, hsymbol, ts, hts, hdate⟩
    obtain ⟨e, he, rfl⟩ := mem_candleTimes.mp hts
    have hselected := (h.bars symbol hsymbol e).mpr ⟨he, hdate ▸ hle, hdate.le⟩
    exact ((hmem hsymbol e).mp hselected).2.2.ne hdate
  · intro hnone
    have hlast {symbol : Symbol} (hsymbol : symbol ∈ symbols) {e : String × CandleRow}
        (he : e ∈ (t.row (symbol, "1d")).entries) : dateOf e.1 < stop ↔ dateOf e.1 ≤ stop := by
      refine ⟨le_of_lt, fun hstop => lt_of_le_of_ne hstop fun hdate => hnone ?_⟩
      exact ⟨symbol, hsymbol, e.1, mem_candleTimes.mpr ⟨e, he, rfl⟩, hdate⟩
    have hbars (symbol : Symbol) (hsymbol : symbol ∈ symbols) (e : String × CandleRow) :
        e ∈ loadCandles t symbol "1d" (some start) (some stop) ↔
          e ∈ (t.row (symbol, "1d")).entries ∧ start ≤ dateOf e.1 ∧ dateOf e.1 ≤ stop := by
      rw [hmem hsymbol]
      exact and_congr_right fun he => and_congr_right fun _ => hlast hsymbol he
    refine ⟨fun field hfield => ?_, hbars, fun symbol _ => loadCandles_ascending symbol "1d"⟩
    obtain ⟨frame, hframe, hindex⟩ :=
      loadFrame_index t symbols "1d" (some start) (some stop) hfield
    refine ⟨frame, hframe, fun date => ?_⟩
    rw [hindex]
    constructor
    · rintro ⟨symbol, hsymbol, e, he, rfl⟩
      obtain ⟨hstored, hdays⟩ := (hbars symbol hsymbol e).mp he
      exact ⟨⟨symbol, hsymbol, e.1, mem_candleTimes.mpr ⟨e, hstored, rfl⟩, rfl⟩, hdays⟩
    · rintro ⟨⟨symbol, hsymbol, ts, hts, rfl⟩, hdays⟩
      obtain ⟨e, he, rfl⟩ := mem_candleTimes.mp hts
      exact ⟨symbol, hsymbol, e, (hbars symbol hsymbol e).mpr ⟨he, hdays⟩, rfl⟩

end

/-- Bars of two days. -/
def twoDays : CandleTable :=
  (upsertCandles ∅ "005930" "1d" [Site.dayBar "2026-01-05", Site.dayBar "2026-01-06"]).1

theorem twoDays_times :
    candleTimes twoDays "005930" "1d" =
      ["2026-01-05T00:00:00.000+09:00", "2026-01-06T00:00:00.000+09:00"] := by
  decide +kernel

theorem twoDays_stamped :
    ∀ symbol ∈ ["005930"], ∀ ts ∈ candleTimes twoDays symbol "1d", Stamped ts := by
  intro symbol hsymbol
  cases List.mem_singleton.mp hsymbol
  rw [twoDays_times]
  decide +kernel

/-- With an end after the last bar both days are selected. -/
theorem selectsDays_twoDays : SelectsDays twoDays ["005930"] "2026-01-05" "2026-01-07" := by
  refine (selectsDays_iff (by decide) (by decide) (by decide +kernel) twoDays_stamped).mpr ?_
  rintro ⟨symbol, hsymbol, ts, hts, hdate⟩
  cases List.mem_singleton.mp hsymbol
  rw [twoDays_times] at hts
  have hdates : ∀ ts ∈ ["2026-01-05T00:00:00.000+09:00", "2026-01-06T00:00:00.000+09:00"],
      dateOf ts ≠ "2026-01-07" := by decide +kernel
  exact hdates ts hts hdate

/-- With the end on the last bar's date that bar is left out. -/
theorem last_day_left_out :
    (loadCandles twoDays "005930" "1d" (some "2026-01-05") (some "2026-01-06")).map Prod.fst =
        ["2026-01-05T00:00:00.000+09:00"] ∧
      ¬ ∀ (t : CandleTable) (symbols : List Symbol) (start stop : String),
        IsDate start → IsDate stop → start ≤ stop →
        (∀ symbol ∈ symbols, ∀ ts ∈ candleTimes t symbol "1d", Stamped ts) →
        SelectsDays t symbols start stop := by
  have hselected :
      (loadCandles twoDays "005930" "1d" (some "2026-01-05") (some "2026-01-06")).map Prod.fst =
        ["2026-01-05T00:00:00.000+09:00"] := by decide +kernel
  refine ⟨hselected, fun hall => ?_⟩
  have hselects := hall twoDays ["005930"] "2026-01-05" "2026-01-06" (by decide) (by decide)
    (by decide +kernel) twoDays_stamped
  have hstored : "2026-01-06T00:00:00.000+09:00" ∈ candleTimes twoDays "005930" "1d" := by
    rw [twoDays_times]
    decide
  obtain ⟨e, he, hts⟩ := mem_candleTimes.mp hstored
  have hday : "2026-01-05" ≤ dateOf e.1 ∧ dateOf e.1 ≤ "2026-01-06" := by
    rw [hts]
    decide +kernel
  have hmem := (hselects.bars "005930" (List.mem_singleton_self _) e).mpr ⟨he, hday⟩
  have htime := hselected ▸ List.mem_map_of_mem hmem
  rw [hts] at htime
  revert htime
  decide +kernel

end Store
end Tqt
