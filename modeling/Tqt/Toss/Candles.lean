import Mathlib.Data.List.Sort
import Mathlib.Data.String.Basic
import Tqt.Foundation.Decimal
import Tqt.Foundation.History
import Tqt.Toss.Errors

/-! Candle pages, and the walk backwards through them.

`iterCandles` asks for one page after the other and stops at the bar budget, at a bar that is
not newer than `stop_at`, or where the cursor ends. Against an endpoint that answers with the
newest bars before the cursor (`CandleHistory.answer`) it fetches the newest bars of what the
server had at the first page, up to the budget or down to `stop_at` (`iterCandles_spec`),
whatever appears between the pages. -/
namespace Tqt

structure Candle where
  timestamp : String
  openPrice : DecimalTuple
  highPrice : DecimalTuple
  lowPrice : DecimalTuple
  closePrice : DecimalTuple
  volume : DecimalTuple
  currency : Option String := none

structure CandlePage where
  candles : List Candle := []
  nextBefore : Option String := none

structure CandleRequest where
  symbol : String
  interval : String
  count : ℕ
  before : Option String
  adjusted : Bool

/-- What `_request` gives for the `n`-th page of a call. -/
abbrev CandleSource := ℕ → CandleRequest → Except TossError CandlePage

inductive CandleError where
  /-- The `ValueError` that names the interval it got. -/
  | interval (got : String)
  | toss (e : TossError)

namespace TossClient

def maxCandlesPerCall : ℕ := 200

def candles (ask : CandleSource) (n : ℕ) (symbol interval : String) (count : ℕ)
    (before : Option String) (adjusted : Bool) : Except CandleError CandlePage :=
  if interval ≠ "1m" ∧ interval ≠ "1d" then .error (.interval interval)
  else (ask n ⟨symbol, interval, min count maxCandlesPerCall, before, adjusted⟩).mapError .toss

/-- `stop_at and min(c.timestamp for c in page.candles) <= stop_at` -/
def reaches (stopAt : Option String) (page : CandlePage) : Bool :=
  stopAt.any fun s => s ≠ "" && (page.candles.map Candle.timestamp).min?.any (· ≤ s)

section
variable (ask : CandleSource) (symbol interval : String) (maxBars : ℕ) (stopAt : Option String)
  (adjusted : Bool)

/-- The loop of `iter_candles` when `fetched` bars have been yielded and `n` pages read. -/
def iterFrom (fetched : ℕ) (before : Option String) (seenCursors : List String) (n : ℕ) :
    Except CandleError (List Candle) :=
  if _hroom : fetched < maxBars then
    match candles ask n symbol interval (min maxCandlesPerCall (maxBars - fetched)) before adjusted with
    | .error e => .error e
    | .ok page =>
      let bars := page.candles.insertionSort (·.timestamp ≤ ·.timestamp)
      if _hempty : page.candles = [] then .ok []
      else if reaches stopAt page then .ok bars
      else
        match page.nextBefore with
        | none => .ok bars
        | some cursor =>
          if cursor = "" ∨ cursor ∈ seenCursors then .ok bars
          else
            (iterFrom (fetched + bars.length) (some cursor) (cursor :: seenCursors) (n + 1)).map
              (bars ++ ·)
  else .ok []
termination_by maxBars - fetched
decreasing_by
  have hpos := List.length_pos_of_ne_nil _hempty
  rw [List.length_insertionSort]
  omega

def iterCandles : Except CandleError (List Candle) :=
  iterFrom ask symbol interval maxBars stopAt adjusted 0 none [] 0

end

end TossClient

/-- The bars of a series that the server has, newest first. -/
structure CandleHistory where
  bars : List Candle
  newestFirst : (bars.map Candle.timestamp).Pairwise (· > ·)

namespace CandleHistory

def times (h : CandleHistory) : List String := h.bars.map Candle.timestamp

/-- The newest bars strictly older than the cursor, and the oldest of them as the next one when
there are older ones. -/
def answer (h : CandleHistory) (r : CandleRequest) : CandlePage :=
  let older := h.bars.filter fun c => r.before.all (c.timestamp < ·)
  let page := older.take r.count
  ⟨page, if page.length < older.length then page.getLast?.map Candle.timestamp else none⟩

/-- New bars have appeared; the values of the others may have been adjusted. -/
def Grows (h h' : CandleHistory) : Prop := h.times <:+ h'.times

end CandleHistory

/-- What a request meets: the server's bars at that moment, or a failure. -/
structure Moment where
  server : CandleHistory
  failure : Option TossError := none

/-- The answers of a server that grows while a call is reading it. -/
def sourceOf (moments : ℕ → Moment) : CandleSource := fun n r =>
  match (moments n).failure with
  | some e => .error e
  | none => .ok ((moments n).server.answer r)

namespace TossClient
open History

section
variable {h : CandleHistory} (r : CandleRequest)

theorem answer_times :
    (h.answer r).candles.map Candle.timestamp = (older r.before h.times).take r.count := by
  rw [CandleHistory.answer, List.map_take, older, CandleHistory.times, List.filter_map]
  rfl

/-- There is a next cursor when there are bars behind the page, and it is its last one. -/
theorem answer_nextBefore : (h.answer r).nextBefore =
    if r.count < (older r.before h.times).length then
      ((older r.before h.times).take r.count).getLast? else none := by
  have hlength : (h.bars.filter fun c => r.before.all (c.timestamp < ·)).length =
      (older r.before h.times).length := by
    rw [older, CandleHistory.times, List.filter_map, List.length_map]
    rfl
  rw [← answer_times, List.getLast?_map, CandleHistory.answer, List.length_take, hlength]
  by_cases hcount : r.count < (older r.before h.times).length
  · rw [if_pos hcount, if_pos (by omega)]
  · rw [if_neg hcount, if_neg (by omega)]

end

section
variable {moments : ℕ → Moment} {symbol interval : String} {maxBars : ℕ} {stopAt : Option String}
  {adjusted : Bool}

/-- A page that is read is the server's answer at that moment. -/
theorem candles_spec {n count : ℕ} {before : Option String} {page : CandlePage}
    (h : candles (sourceOf moments) n symbol interval count before adjusted = .ok page)
    (hcount : count ≤ maxCandlesPerCall) {rest : List String}
    (hrest : older before (moments n).server.times = rest) :
    page.candles.map Candle.timestamp = rest.take count ∧
      page.nextBefore = if count < rest.length then (rest.take count).getLast? else none := by
  unfold candles sourceOf at h
  rw [min_eq_left hcount] at h
  subst hrest
  split at h
  · cases h
  · cases hfailure : (moments n).failure with
    | some e =>
      rw [hfailure] at h
      cases h
    | none =>
      rw [hfailure] at h
      cases h
      exact ⟨answer_times _, answer_nextBefore _⟩

/-- The bars of a page in ascending order are those of the page. -/
theorem bars_perm {page : CandlePage} {times : List String}
    (htimes : page.candles.map Candle.timestamp = times) :
    ((page.candles.insertionSort (·.timestamp ≤ ·.timestamp)).map Candle.timestamp).Perm times := by
  rw [← htimes]
  exact (List.perm_insertionSort _ _).map _

/-- What a loop with room for so many bars has fetched of the times before its cursor: the
newest of them, as many as there is room for or all those after `stopAt`. -/
def Fetched (room : ℕ) (stopAt : Option String) (rest : List String) (batch : List Candle) : Prop :=
  ∃ j ≤ room, (batch.map Candle.timestamp).Perm (rest.take j) ∧
    ∀ hi, (∀ s, stopAt = some s → s ≤ hi) → min room (rest.countP (hi < ·)) ≤ j

theorem Fetched.nil {room : ℕ} {rest : List String} (h : room = 0 ∨ rest = []) :
    Fetched room stopAt rest [] := by
  refine ⟨0, Nat.zero_le room, .nil, fun hi _ => ?_⟩
  rcases h with rfl | rfl
  · exact min_le_left _ _
  · exact min_le_right _ _

theorem countP_take_add_drop (rest : List String) (p : String → Bool) (count : ℕ) :
    rest.countP p ≤ count + (rest.drop count).countP p := by
  conv_lhs => rw [← List.take_append_drop count rest]
  rw [List.countP_append]
  have hle := (List.countP_le_length (p := p)).trans (List.length_take_le count rest)
  omega

/-- The page is the last one: nothing after `stopAt` lies behind it. -/
theorem Fetched.last {room count : ℕ} {rest : List String} {bars : List Candle} (hcount : count ≤ room)
    (hbars : (bars.map Candle.timestamp).Perm (rest.take count))
    (hdrop : ∀ hi, (∀ s, stopAt = some s → s ≤ hi) → (rest.drop count).countP (hi < ·) = 0) :
    Fetched room stopAt rest bars := by
  refine ⟨count, hcount, hbars, fun hi hstop => ?_⟩
  have hle := countP_take_add_drop rest (hi < ·) count
  rw [hdrop hi hstop] at hle
  exact (min_le_right _ _).trans hle

/-- A page, and what the loop fetches behind it. -/
theorem Fetched.append {room count : ℕ} {rest : List String} {bars batch : List Candle}
    (hcount : count ≤ room) (hbars : (bars.map Candle.timestamp).Perm (rest.take count))
    (h : Fetched (room - count) stopAt (rest.drop count) batch) :
    Fetched room stopAt rest (bars ++ batch) := by
  obtain ⟨j, hj, hbatch, hstop⟩ := h
  refine ⟨count + j, by omega, ?_, fun hi hhi => ?_⟩
  · rw [List.map_append, List.take_add]
    exact hbars.append hbatch
  · have hle := countP_take_add_drop rest (hi < ·) count
    have hmin := hstop hi hhi
    omega

theorem of_reaches {page : CandlePage} (h : reaches stopAt page = true) :
    ∃ s oldest, stopAt = some s ∧ oldest ∈ page.candles.map Candle.timestamp ∧ oldest ≤ s := by
  rw [reaches, Option.any_eq_true] at h
  obtain ⟨s, hs, h⟩ := h
  rw [Bool.and_eq_true, Option.any_eq_true] at h
  obtain ⟨oldest, holdest, hle⟩ := h.2
  exact ⟨s, oldest, hs, (List.min?_eq_some_iff.mp holdest).1, of_decide_eq_true hle⟩

/-- Without a next cursor nothing lies behind the page. -/
theorem drop_eq_nil_of_nextBefore {count : ℕ} {rest : List String}
    (h : none = if count < rest.length then (rest.take count).getLast? else none) (hpos : 0 < count) :
    rest.drop count = [] := by
  split at h
  · have hempty := List.getLast?_eq_none_iff.mp h.symm
    rw [List.take_eq_nil_iff] at hempty
    rcases hempty with hzero | rfl
    · omega
    · exact List.drop_nil
  · exact List.drop_eq_nil_of_le (by omega)

theorem of_nextBefore {count : ℕ} {rest : List String} {cursor : String}
    (h : some cursor = if count < rest.length then (rest.take count).getLast? else none) :
    count < rest.length ∧ (rest.take count).getLast? = some cursor := by
  split at h
  · exact ⟨‹_›, h.symm⟩
  · cases h

/-- The cursor of a page is a new one. -/
theorem cursor_fresh {before : Option String} {seenCursors : List String} {server : CandleHistory}
    {count : ℕ} {cursor : String} (hseen : ∀ c ∈ seenCursors, ∃ b, before = some b ∧ b ≤ c)
    (hmore : count < (older before server.times).length)
    (hlast : ((older before server.times).take count).getLast? = some cursor) :
    ¬ (cursor = "" ∨ cursor ∈ seenCursors) := by
  have hmem := List.mem_of_getLast? hlast
  rintro (rfl | hcursor)
  · obtain ⟨t, ht⟩ := List.exists_mem_of_length_pos (l := (older before server.times).drop count)
      (by rw [List.length_drop]; omega)
    have hlt := lt_of_mem_drop (older_pairwise server.newestFirst before) hmem ht
    rw [String.lt_iff_toList_lt] at hlt
    exact List.not_lt_nil _ hlt
  · obtain ⟨b, hb, hle⟩ := hseen cursor hcursor
    exact hle.not_gt ((mem_older.mp (List.mem_of_mem_take hmem)).2 b hb)

theorem iterFrom_spec (hgrows : ∀ n, (moments n).server.Grows (moments (n + 1)).server)
    {fetched : ℕ} {before : Option String} {seenCursors : List String} {n : ℕ} {batch : List Candle}
    (hok : iterFrom (sourceOf moments) symbol interval maxBars stopAt adjusted fetched before
      seenCursors n = .ok batch)
    (hseen : ∀ c ∈ seenCursors, ∃ b, before = some b ∧ b ≤ c) :
    Fetched (maxBars - fetched) stopAt (older before (moments n).server.times) batch := by
  fun_induction iterFrom (sourceOf moments) symbol interval maxBars stopAt adjusted fetched before
      seenCursors n generalizing batch with
  | case1 => cases hok
  | case2 fetched before seenCursors n hroom page hpage hempty =>
    cases hok
    obtain ⟨htimes, -⟩ := candles_spec hpage (min_le_left _ _) rfl
    rw [hempty, List.map_nil, eq_comm, List.take_eq_nil_iff] at htimes
    have hcount : min maxCandlesPerCall (maxBars - fetched) ≠ 0 := by
      unfold maxCandlesPerCall
      omega
    exact .nil (.inr (htimes.resolve_left hcount))
  | case3 fetched before seenCursors n hroom page hpage bars hempty =>
    rename_i hreaches
    cases hok
    obtain ⟨htimes, -⟩ := candles_spec hpage (min_le_left _ _) rfl
    have hbars := bars_perm htimes
    refine .last (min_le_right _ _) hbars fun hi hstop => ?_
    obtain ⟨s, oldest, hs, hmem, hle⟩ := of_reaches hreaches
    rw [htimes] at hmem
    exact countP_drop_eq_zero (older_pairwise (moments n).server.newestFirst before) hmem
      (hle.trans (hstop s hs))
  | case4 fetched before seenCursors n hroom page hpage bars hempty hreaches =>
    rename_i hnext
    cases hok
    obtain ⟨htimes, hcursor⟩ := candles_spec hpage (min_le_left _ _) rfl
    have hbars := bars_perm htimes
    rw [hnext] at hcursor
    refine .last (min_le_right _ _) hbars fun hi hstop => ?_
    rw [drop_eq_nil_of_nextBefore hcursor (by unfold maxCandlesPerCall; omega), List.countP_nil]
  | case5 fetched before seenCursors n hroom page hpage bars hempty hreaches cursor hnext =>
    rename_i hold
    obtain ⟨-, hcursor⟩ := candles_spec hpage (min_le_left _ _) rfl
    rw [hnext] at hcursor
    obtain ⟨hmore, hlast⟩ := of_nextBefore hcursor
    exact absurd hold (cursor_fresh hseen hmore hlast)
  | case6 fetched before seenCursors n hroom page hpage bars hempty hreaches cursor hnext hfresh =>
    rename_i ih
    obtain ⟨htimes, hcursor⟩ := candles_spec hpage (min_le_left _ _) rfl
    rw [hnext] at hcursor
    obtain ⟨hmore, hlast⟩ := of_nextBefore hcursor
    have hbars := bars_perm htimes
    have hcount : (page.candles.insertionSort (·.timestamp ≤ ·.timestamp)).length =
        min maxCandlesPerCall (maxBars - fetched) := by
      rw [← List.length_map Candle.timestamp, hbars.length_eq, List.length_take]
      omega
    rw [hcount] at ih hok
    have hold := older_of_suffix (moments (n + 1)).server.newestFirst (hgrows n)
      (mem_older.mp (List.mem_of_mem_take (List.mem_of_getLast? hlast))).1
    have hrest : older (some cursor) (moments (n + 1)).server.times =
        (older before (moments n).server.times).drop (min maxCandlesPerCall (maxBars - fetched)) :=
      hold.trans (older_getLast_take (moments n).server.newestFirst hlast)
    rw [hrest, ← Nat.sub_sub] at ih
    cases hrec : iterFrom (sourceOf moments) symbol interval maxBars stopAt adjusted
        (fetched + min maxCandlesPerCall (maxBars - fetched)) (some cursor) (cursor :: seenCursors)
        (n + 1) with
    | error e =>
      rw [hrec] at hok
      cases hok
    | ok behind =>
      rw [hrec] at hok
      cases hok
      refine .append (min_le_right _ _) hbars (ih hrec fun c hc => ⟨cursor, rfl, ?_⟩)
      rcases List.mem_cons.mp hc with rfl | hc
      · exact le_rfl
      · obtain ⟨b, hb, hle⟩ := hseen c hc
        have hcursor := (mem_older.mp (List.mem_of_mem_take (List.mem_of_getLast? hlast))).2 b hb
        exact hcursor.le.trans hle
  | case7 fetched before seenCursors n hroom =>
    cases hok
    exact .nil (.inl (by omega))

end

end TossClient
end Tqt
