import Tqt.Data.SyncAll

/-! What a sync leaves behind.

Against servers that stand still, a sync stores what they have, newest first: a page of each
symbol, and as many bars as the budget allows where nothing was stored before or all are asked for
again. A bar that is stored as the server has it stays so, and the next sync finds nothing to
change (`sync_settles`). -/
namespace Tqt
open History

namespace Store

/-- The row of a bar, over the row that was there. -/
def barRow (c : Candle) (old : Option CandleRow) : CandleRow where
  openPrice := Money.s c.openPrice
  highPrice := Money.s c.highPrice
  lowPrice := Money.s c.lowPrice
  closePrice := Money.s c.closePrice
  volume := Money.s c.volume
  currency := c.currency.or (old.bind CandleRow.currency)

/-- The bar is stored: writing it again would change nothing. -/
def Mirrors (t : CandleTable) (series : String × String) (c : Candle) : Prop :=
  ∃ row, t.get? (series, c.timestamp) = some row ∧ barRow c (some row) = row

section
variable {t : CandleTable} {series : String × String} {c : Candle}

theorem barRow_barRow (c : Candle) (old : Option CandleRow) :
    barRow c (some (barRow c old)) = barRow c old := by
  have hcurrency : c.currency.or (c.currency.or (old.bind CandleRow.currency)) =
      c.currency.or (old.bind CandleRow.currency) := by
    cases c.currency <;> rfl
  show ({ barRow c old with currency := _ } : CandleRow) = _
  rw [Option.bind_some]
  exact congrArg (fun currency => { barRow c old with currency := currency }) hcurrency

theorem mirrors_upsert (t : CandleTable) (series : String × String) (c : Candle) :
    Mirrors (upsertCandle series t c) series c :=
  ⟨_, Dict.get?_insert_self .., barRow_barRow c _⟩

theorem Mirrors.upsert_eq (h : Mirrors t series c) : upsertCandle series t c = t := by
  obtain ⟨row, hrow, hsame⟩ := h
  refine Dict.insert_eq_self ?_
  rw [hrow]
  exact congrArg some hsame.symm

/-- Another bar of the series leaves it stored. -/
theorem Mirrors.upsert (h : Mirrors t series c) {other : Candle}
    (hother : other.timestamp = c.timestamp → other = c) :
    Mirrors (upsertCandle series t other) series c := by
  by_cases hts : other.timestamp = c.timestamp
  · rw [hother hts]
    exact mirrors_upsert t series c
  · obtain ⟨row, hrow, hsame⟩ := h
    refine ⟨row, ?_, hsame⟩
    rw [upsertCandle, Dict.get?_insert_of_ne _ _ (by simpa [eq_comm] using hts)]
    exact hrow

/-- It is the row that says whether a bar is stored. -/
theorem Mirrors.of_row (h : Mirrors t series c) {u : CandleTable} (hrow : u.row series = t.row series) :
    Mirrors u series c := by
  obtain ⟨row, hget, hsame⟩ := h
  refine ⟨row, ?_, hsame⟩
  rw [← Dict.get?_row, hrow, Dict.get?_row]
  exact hget

theorem Mirrors.mem_candleTimes {symbol interval : String} (h : Mirrors t (symbol, interval) c) :
    c.timestamp ∈ candleTimes t symbol interval := by
  obtain ⟨row, hget, -⟩ := h
  refine (Dict.mem_keys ..).mpr ⟨row, ?_⟩
  rw [Dict.get?_row]
  exact hget

variable {symbol interval : String} {batch bars : List Candle}

/-- Where every time has one bar, a batch of them leaves what is stored stored. -/
theorem Mirrors.upserts (h : Mirrors t (symbol, interval) c)
    (hother : ∀ other ∈ batch, other.timestamp = c.timestamp → other = c) :
    Mirrors (upsertCandles t symbol interval batch).1 (symbol, interval) c := by
  unfold upsertCandles
  induction batch generalizing t with
  | nil => exact h
  | cons first rest ih =>
    exact ih (h.upsert (hother first List.mem_cons_self)) fun other hmem =>
      hother other (List.mem_cons_of_mem _ hmem)

theorem mirrors_upserts (t : CandleTable) (hc : c ∈ batch)
    (hother : ∀ other ∈ batch, other.timestamp = c.timestamp → other = c) :
    Mirrors (upsertCandles t symbol interval batch).1 (symbol, interval) c := by
  obtain ⟨front, back, rfl⟩ := List.append_of_mem hc
  have hstored := mirrors_upsert (upsertCandles t symbol interval front).1 (symbol, interval) c
  have hback := hstored.upserts fun other hmem =>
    hother other (List.mem_append_right front (List.mem_cons_of_mem c hmem))
  unfold upsertCandles at hback ⊢
  rw [List.foldl_append, List.foldl_cons]
  exact hback

/-- A row that no bar of the batch is for stays as it is. -/
theorem get?_upserts_of_ne {key : (String × String) × String}
    (h : ∀ c ∈ batch, ((symbol, interval), c.timestamp) ≠ key) :
    (upsertCandles t symbol interval batch).1.get? key = t.get? key := by
  unfold upsertCandles
  induction batch generalizing t with
  | nil => rfl
  | cons first rest ih =>
    refine (ih fun c hc => h c (List.mem_cons_of_mem _ hc)).trans ?_
    exact Dict.get?_insert_of_ne _ _ (h first List.mem_cons_self).symm

theorem upserts_eq (h : ∀ c ∈ batch, Mirrors t (symbol, interval) c) :
    (upsertCandles t symbol interval batch).1 = t := by
  unfold upsertCandles
  induction batch with
  | nil => rfl
  | cons first rest ih =>
    rw [List.foldl_cons, (h first List.mem_cons_self).upsert_eq]
    exact ih fun c hc => h c (List.mem_cons_of_mem _ hc)

end
end Store

/-- Every time has one bar. -/
theorem CandleHistory.eq_of_timestamp (h : CandleHistory) {c d : Candle} (hc : c ∈ h.bars)
    (hd : d ∈ h.bars) (hts : c.timestamp = d.timestamp) : c = d :=
  List.inj_on_of_nodup_map (h.newestFirst.imp fun hlt => hlt.ne') hc hd hts

/-! ### What is fetched -/

namespace TossClient

section
variable {w : Moment} {symbol interval : String} {maxBars : ℕ} {stopAt : Option String} {adjusted : Bool}

/-- A page is the server's answer. -/
theorem candles_answer {n count : ℕ} {before : Option String} {page : CandlePage}
    (h : candles (sourceOf fun _ => w) n symbol interval count before adjusted = .ok page) :
    w.failure = none ∧
      page = w.server.answer ⟨symbol, interval, min count maxCandlesPerCall, before, adjusted⟩ := by
  unfold candles sourceOf at h
  split at h
  · cases h
  · cases hfailure : w.failure with
    | some e =>
      rw [hfailure] at h
      cases h
    | none =>
      rw [hfailure] at h
      cases h
      exact ⟨rfl, rfl⟩

theorem mem_of_answer {c : Candle} {r : CandleRequest} (h : c ∈ (w.server.answer r).candles) :
    c ∈ w.server.bars :=
  (List.mem_filter.mp (List.mem_of_mem_take h)).1

/-- A page, and what is fetched behind it. -/
theorem of_map_append {bars batch : List Candle} {rest : Except CandleError (List Candle)}
    (h : rest.map (bars ++ ·) = .ok batch) : ∃ behind, rest = .ok behind ∧ bars ++ behind = batch := by
  cases rest with
  | error e => cases h
  | ok behind => exact ⟨behind, rfl, Except.ok.inj h⟩

/-- What is fetched comes from a server that answers. -/
theorem mem_of_iterFrom {fetched : ℕ} {before : Option String} {seenCursors : List String} {n : ℕ}
    {batch : List Candle}
    (h : iterFrom (sourceOf fun _ => w) symbol interval maxBars stopAt adjusted fetched before
      seenCursors n = .ok batch) {c : Candle} (hc : c ∈ batch) :
    w.failure = none ∧ c ∈ w.server.bars := by
  have hpage {n count : ℕ} {before : Option String} {page : CandlePage}
      (hpage : candles (sourceOf fun _ => w) n symbol interval count before adjusted = .ok page)
      {c : Candle} (hc : c ∈ page.candles.insertionSort (·.timestamp ≤ ·.timestamp)) :
      w.failure = none ∧ c ∈ w.server.bars := by
    obtain ⟨hfailure, rfl⟩ := candles_answer hpage
    exact ⟨hfailure, mem_of_answer ((List.perm_insertionSort _ _).mem_iff.mp hc)⟩
  fun_induction iterFrom (sourceOf fun _ => w) symbol interval maxBars stopAt adjusted fetched before
      seenCursors n generalizing batch with
  | case1 => cases h
  | case2 =>
    cases h
    cases hc
  | case3 fetched before seenCursors n hroom page hread bars hempty =>
    cases h
    exact hpage hread hc
  | case4 fetched before seenCursors n hroom page hread bars hempty hreaches =>
    cases h
    exact hpage hread hc
  | case5 fetched before seenCursors n hroom page hread bars hempty hreaches cursor hnext =>
    cases h
    exact hpage hread hc
  | case6 fetched before seenCursors n hroom page hread bars hempty hreaches cursor hnext hfresh =>
    rename_i ih
    obtain ⟨behind, hrec, rfl⟩ := of_map_append h
    rcases List.mem_append.mp hc with hc | hc
    · exact hpage hread hc
    · exact ih hrec hc
  | case7 =>
    cases h
    cases hc

/-- A server that answers is read to the end. -/
theorem iterFrom_ok (hinterval : interval = "1m" ∨ interval = "1d") (hw : w.failure = none) (fetched : ℕ)
    (before : Option String) (seenCursors : List String) (n : ℕ) :
    ∃ batch, iterFrom (sourceOf fun _ => w) symbol interval maxBars stopAt adjusted fetched before
      seenCursors n = .ok batch := by
  fun_induction iterFrom (sourceOf fun _ => w) symbol interval maxBars stopAt adjusted fetched before
      seenCursors n with
  | case1 fetched before seenCursors n hroom e hread =>
    unfold candles sourceOf at hread
    rw [if_neg (by tauto), hw] at hread
    cases hread
  | case6 fetched before seenCursors n hroom page hread bars hempty hreaches cursor hnext hfresh =>
    rename_i ih
    obtain ⟨batch, hbatch⟩ := ih
    exact ⟨bars ++ batch, by rw [hbatch]; rfl⟩
  | _ => exact ⟨_, rfl⟩

/-- A page that is not newer than `stopAt` is the last one. -/
theorem reaches_of_le {page : CandlePage} (hempty : page.candles ≠ [])
    (hold : ∀ c ∈ page.candles, ∃ s, stopAt = some s ∧ s ≠ "" ∧ c.timestamp ≤ s) :
    reaches stopAt page = true := by
  obtain ⟨first, hfirst⟩ := List.exists_mem_of_ne_nil _ hempty
  obtain ⟨s, hs, hne, -⟩ := hold first hfirst
  cases hmin : (page.candles.map Candle.timestamp).min? with
  | none =>
    rw [List.min?_eq_none_iff, List.map_eq_nil_iff] at hmin
    exact absurd hmin hempty
  | some oldest =>
    obtain ⟨c, hc, rfl⟩ := List.mem_map.mp (List.min?_eq_some_iff.mp hmin).1
    obtain ⟨s', hs', -, hle⟩ := hold c hc
    cases hs.symm.trans hs'
    rw [reaches, hs, Option.any_some, hmin, Option.any_some, Bool.and_eq_true]
    exact ⟨decide_eq_true hne, decide_eq_true hle⟩

/-- The first page is fetched, and nothing else where it is not newer than `stopAt`. -/
theorem iterCandles_page {batch : List Candle}
    (h : iterCandles (sourceOf fun _ => w) symbol interval maxBars stopAt adjusted = .ok batch) :
    (∀ c ∈ w.server.bars.take (min maxCandlesPerCall maxBars), c ∈ batch) ∧
      ((∀ c ∈ w.server.bars.take (min maxCandlesPerCall maxBars), ∃ s, stopAt = some s ∧ s ≠ "" ∧
        c.timestamp ≤ s) → ∀ c ∈ batch, c ∈ w.server.bars.take (min maxCandlesPerCall maxBars)) := by
  unfold iterCandles iterFrom at h
  split at h
  · next hroom =>
    split at h
    · cases h
    · next page hread =>
      obtain ⟨-, hpage⟩ := candles_answer hread
      have hcandles : page.candles = w.server.bars.take (min maxCandlesPerCall maxBars) := by
        rw [hpage]
        show (w.server.bars.filter fun _ => true).take (min (min _ (maxBars - 0)) _) = _
        rw [List.filter_true, Nat.sub_zero, min_eq_left (min_le_left _ _)]
      rw [← hcandles]
      have hsorted (c : Candle) :
          c ∈ page.candles.insertionSort (·.timestamp ≤ ·.timestamp) ↔ c ∈ page.candles :=
        (List.perm_insertionSort _ _).mem_iff
      dsimp only at h
      split at h
      · next hempty =>
        cases h
        rw [hempty]
        exact ⟨fun c hc => absurd hc List.not_mem_nil, fun _ c hc => hc⟩
      · next hempty =>
        split at h
        · cases h
          exact ⟨fun c hc => (hsorted c).mpr hc, fun _ c hc => (hsorted c).mp hc⟩
        · next hreaches =>
          refine ⟨fun c hc => ?_, fun hold => absurd (reaches_of_le hempty hold) hreaches⟩
          split at h
          · cases h
            exact (hsorted c).mpr hc
          · next cursor hnext =>
            split at h
            · cases h
              exact (hsorted c).mpr hc
            · obtain ⟨behind, -, rfl⟩ := of_map_append h
              exact List.mem_append_left _ ((hsorted c).mpr hc)
  · next hroom =>
    cases h
    have hzero : min maxCandlesPerCall maxBars = 0 := by omega
    rw [hzero]
    exact ⟨fun c hc => absurd hc List.not_mem_nil, fun _ c hc => hc⟩

theorem empty_lt {ts : String} (h : ts ≠ "") : "" < ts := by
  refine lt_of_le_of_ne (not_lt.mp fun hlt => ?_) h.symm
  rw [String.lt_iff_toList_lt] at hlt
  exact List.not_lt_nil _ hlt

/-- Without `stopAt` the newest bars are fetched, as many as the budget allows. -/
theorem iterCandles_all {batch : List Candle}
    (h : iterCandles (sourceOf fun _ => w) symbol interval maxBars none adjusted = .ok batch)
    (hstamped : ∀ c ∈ w.server.bars, c.timestamp ≠ "") (c : Candle) :
    c ∈ batch ↔ c ∈ w.server.bars.take maxBars := by
  have hfetched : Fetched (maxBars - 0) none (older none w.server.times) batch :=
    iterFrom_spec (by intro _; exact List.suffix_rfl) h fun _ hc => absurd hc List.not_mem_nil
  obtain ⟨j, hj, hperm, hreach⟩ := hfetched
  rw [older_none] at hperm hreach
  have hall : w.server.times.countP ("" < ·) = w.server.bars.length := by
    rw [← List.length_map Candle.timestamp]
    refine List.countP_eq_length.mpr fun ts hts => ?_
    obtain ⟨c, hc, rfl⟩ := List.mem_map.mp hts
    exact decide_eq_true (empty_lt (hstamped c hc))
  have hmin := hreach "" fun s hs => absurd hs.symm (Option.some_ne_none s)
  rw [hall] at hmin
  have htake : w.server.bars.take maxBars = w.server.bars.take j := by
    rw [List.take_eq_take_iff]
    omega
  have htimes : w.server.times.take j = (w.server.bars.take j).map Candle.timestamp := List.map_take.symm
  rw [htimes] at hperm
  rw [htake]
  constructor
  · intro hc
    obtain ⟨d, hd, hts⟩ := List.mem_map.mp (hperm.mem_iff.mp (List.mem_map_of_mem hc))
    rw [w.server.eq_of_timestamp (mem_of_iterFrom h hc).2 (List.mem_of_mem_take hd) hts.symm]
    exact hd
  · intro hc
    obtain ⟨d, hd, hts⟩ := List.mem_map.mp (hperm.mem_iff.mpr (List.mem_map_of_mem hc))
    rw [w.server.eq_of_timestamp (List.mem_of_mem_take hc) (mem_of_iterFrom h hd).2 hts.symm]
    exact hd

end
end TossClient

/-! ### Symbols that are synced -/

namespace Ingestor
open Store

section
variable (world : String → Moment) (interval : String) (maxBars : ℕ) (full : Bool)

/-- A call whose server stands still. -/
def asked (symbol : String) : SyncCall := ⟨symbol, sourceOf fun _ => world symbol⟩

/-- How many bars a call is sure to store: the budget where the whole walk is made, else a page. -/
def depth (t : CandleTable) (symbol : String) : ℕ :=
  if stopAt full (candleRange t symbol interval).hi = none then maxBars
  else min TossClient.maxCandlesPerCall maxBars

/-- The table one call later. -/
def syncTable (t : CandleTable) (call : SyncCall) : CandleTable :=
  (syncSymbol call.ask t call.symbol interval maxBars full).2

/-- The newest bars of the server are stored: as many as the next call will fetch. -/
def Fresh (t : CandleTable) (symbol : String) : Prop :=
  (world symbol).failure = none →
    ∀ c ∈ (world symbol).server.bars.take
      (if full then maxBars else min TossClient.maxCandlesPerCall maxBars), Mirrors t (symbol, interval) c

end

section
variable {world : String → Moment} {interval : String} (maxBars : ℕ) (full : Bool)

theorem sync_table (hinterval : interval = "1m" ∨ interval = "1d") (calls : List SyncCall)
    (t : CandleTable) :
    (sync interval maxBars full calls t).2 = calls.foldl (syncTable interval maxBars full) t := by
  induction calls generalizing t with
  | nil => rfl
  | cons call rest ih =>
    obtain ⟨r, hr, -⟩ := syncSymbol_result maxBars full hinterval call.ask t call.symbol
    rw [List.foldl_cons, ← ih, sync, syncTable]
    cases hcall : syncSymbol call.ask t call.symbol interval maxBars full with
    | mk outcome t' =>
      rw [hcall] at hr
      cases hr
      rfl

variable {maxBars full} {t : CandleTable} {symbol : String} {c : Candle}

theorem syncTable_row_of_ne (t : CandleTable) {other : String} (h : other ≠ symbol) :
    (syncTable interval maxBars full t (asked world other)).row (symbol, interval) =
      t.row (symbol, interval) :=
  syncSymbol_row_of_ne maxBars full _ t fun heq => h (congrArg Prod.fst heq)

/-- A call leaves a bar stored. -/
theorem mirrors_kept (hc : c ∈ (world symbol).server.bars) (h : Mirrors t (symbol, interval) c)
    (other : String) :
    Mirrors (syncTable interval maxBars full t (asked world other)) (symbol, interval) c := by
  by_cases hother : other = symbol
  · subst hother
    rcases syncSymbol_cases (asked world other).ask t with ⟨-, hsame⟩ | ⟨batch, hbatch, hstored⟩
    · rw [syncTable, hsame]
      exact h
    · rw [syncTable, hstored]
      exact h.upserts fun d hd hts =>
        (world other).server.eq_of_timestamp (TossClient.mem_of_iterFrom hbatch hd).2 hc hts
  · exact h.of_row (syncTable_row_of_ne t hother)

/-- What a call stores. -/
theorem mirrors_called (hinterval : interval = "1m" ∨ interval = "1d")
    (hstamped : ∀ c ∈ (world symbol).server.bars, c.timestamp ≠ "")
    (hanswers : (world symbol).failure = none)
    (hc : c ∈ (world symbol).server.bars.take (depth interval maxBars full t symbol)) :
    Mirrors (syncTable interval maxBars full t (asked world symbol)) (symbol, interval) c := by
  obtain ⟨batch, hbatch⟩ : ∃ batch, TossClient.iterCandles (sourceOf fun _ => world symbol) symbol interval
      maxBars (stopAt full (candleRange t symbol interval).hi) true = .ok batch :=
    TossClient.iterFrom_ok hinterval hanswers ..
  have hfetched : c ∈ batch := by
    unfold depth at hc
    split at hc
    · next hall =>
      rw [hall] at hbatch
      exact (TossClient.iterCandles_all hbatch hstamped c).mpr hc
    · exact (TossClient.iterCandles_page hbatch).1 c hc
  have hstored : syncTable interval maxBars full t (asked world symbol) =
      (upsertCandles t symbol interval batch).1 := (syncSymbol_of_ok hbatch).2
  rw [hstored]
  exact mirrors_upserts t hfetched fun d hd hts =>
    (world symbol).server.eq_of_timestamp (TossClient.mem_of_iterFrom hbatch hd).2
      (List.mem_of_mem_take hc) hts

theorem page_le_depth (t : CandleTable) (symbol : String) :
    (if full then maxBars else min TossClient.maxCandlesPerCall maxBars) ≤
      depth interval maxBars full t symbol := by
  cases full with
  | true => rw [if_pos rfl, depth, stopAt, Bool.true_or, if_pos rfl, if_pos rfl]
  | false =>
    rw [if_neg Bool.false_ne_true, depth]
    split
    · exact min_le_right TossClient.maxCandlesPerCall maxBars
    · exact le_refl (min TossClient.maxCandlesPerCall maxBars)

/-- Where the newest bars are stored, a call changes nothing. -/
theorem Fresh.unchanged (h : Fresh world interval maxBars full t symbol)
    (hstamped : ∀ c ∈ (world symbol).server.bars, c.timestamp ≠ "") :
    syncTable interval maxBars full t (asked world symbol) = t := by
  rcases syncSymbol_cases (asked world symbol).ask t with ⟨-, hsame⟩ | ⟨batch, hbatch, hstored⟩
  · exact hsame
  · refine hstored.trans (upserts_eq fun c hc => ?_)
    have hanswers := (TossClient.mem_of_iterFrom hbatch hc).1
    have hfresh := h hanswers
    refine hfresh c ?_
    cases full with
    | true =>
      rw [stopAt, Bool.true_or, if_pos rfl] at hbatch
      exact (TossClient.iterCandles_all hbatch hstamped c).mp hc
    | false =>
      rw [if_neg Bool.false_ne_true] at hfresh ⊢
      refine (TossClient.iterCandles_page hbatch).2 (fun d hd => ?_) c hc
      -- The stored bar is one of those whose latest time the walk stops at.
      have htime := (hfresh d hd).mem_candleTimes
      cases hhi : (candleRange t symbol interval).hi with
      | none =>
        rw [List.max?_eq_none_iff.mp hhi] at htime
        cases htime
      | some hi =>
        have hle : d.timestamp ≤ hi := (isGreatest_hi hhi).2 htime
        have hne : hi ≠ "" := by
          rintro rfl
          exact absurd hle (TossClient.empty_lt (hstamped d (List.mem_of_mem_take hd))).not_ge
        refine ⟨hi, ?_, hne, hle⟩
        show stopAt false (candleRange t symbol interval).hi = some hi
        rw [hhi, stopAt, Bool.false_or, Option.all_some, if_neg (by simpa using hne)]

/-! ### The whole universe -/

/-- A row that no server has a bar for stays as it is. -/
theorem get?_run_of_ne {key : (String × String) × String} {calls : List String}
    (h : ∀ symbol ∈ calls, ∀ c ∈ (world symbol).server.bars, ((symbol, interval), c.timestamp) ≠ key) :
    ((calls.map (asked world)).foldl (syncTable interval maxBars full) t).get? key = t.get? key := by
  induction calls generalizing t with
  | nil => rfl
  | cons first rest ih =>
    refine (ih fun symbol hsymbol => h symbol (List.mem_cons_of_mem _ hsymbol)).trans ?_
    rcases syncSymbol_cases (asked world first).ask t with ⟨-, hsame⟩ | ⟨batch, hbatch, hstored⟩
    · exact congrArg (Dict.get? · key) hsame
    · refine (congrArg (Dict.get? · key) hstored).trans (get?_upserts_of_ne fun c hc => ?_)
      exact h first List.mem_cons_self c (TossClient.mem_of_iterFrom hbatch hc).2

theorem mirrors_run (hc : c ∈ (world symbol).server.bars) (calls : List String)
    (h : Mirrors t (symbol, interval) c) :
    Mirrors ((calls.map (asked world)).foldl (syncTable interval maxBars full) t)
      (symbol, interval) c := by
  induction calls generalizing t with
  | nil => exact h
  | cons other rest ih => exact ih (mirrors_kept hc h other)

/-- What the calls store of a symbol that is among them. -/
theorem mirrors_synced (hinterval : interval = "1m" ∨ interval = "1d")
    (hstamped : ∀ c ∈ (world symbol).server.bars, c.timestamp ≠ "")
    (hanswers : (world symbol).failure = none)
    {symbols : List String} (hsymbol : symbol ∈ symbols)
    (hc : c ∈ (world symbol).server.bars.take (depth interval maxBars full t symbol)) :
    Mirrors ((symbols.map (asked world)).foldl (syncTable interval maxBars full) t)
      (symbol, interval) c := by
  induction symbols generalizing t with
  | nil => cases hsymbol
  | cons first rest ih =>
    by_cases hfirst : first = symbol
    · subst hfirst
      exact mirrors_run (List.mem_of_mem_take hc) rest (mirrors_called hinterval hstamped hanswers hc)
    · refine ih ((List.mem_cons.mp hsymbol).resolve_left (Ne.symm hfirst)) ?_
      have hrange : candleRange (syncTable interval maxBars full t (asked world first)) symbol interval =
          candleRange t symbol interval := by
        rw [candleRange, candleTimes, syncTable_row_of_ne t hfirst]
        rfl
      rw [depth, hrange]
      exact hc

/-- One server has two new bars, the other does not know its symbol. -/
def twoServers (symbol : String) : Moment :=
  if symbol = "005930" then ⟨Site.thirdDay, none⟩ else ⟨Site.firstDay, some unknownStock⟩

theorem topUp_depth : depth "1d" 2 false Site.firstTable "005930" = 2 := by
  rw [depth, Site.firstTable_hi]
  decide

theorem twoServers_stamped (symbol : String) :
    ∀ c ∈ (twoServers symbol).server.bars, c.timestamp ≠ "" := by
  unfold twoServers
  split
  · decide +kernel
  · decide +kernel

/-- **A sync catches up, and the next one rests.** Against servers that stand still, what is stored
afterwards of every symbol whose server answers is what it has, newest first: a page, and as much as
the budget allows where nothing was stored or all was asked for; rows that no server has a bar for
are as they were. Syncing any of the symbols again changes nothing. -/
theorem sync_settles (maxBars : ℕ) (full : Bool) (hinterval : interval = "1m" ∨ interval = "1d")
    (hstamped : ∀ symbol, ∀ c ∈ (world symbol).server.bars, c.timestamp ≠ "") (symbols : List String)
    (t : CandleTable) :
    let after := (sync interval maxBars full (symbols.map (asked world)) t).2
    (∀ symbol ∈ symbols, (world symbol).failure = none →
      ∀ c ∈ (world symbol).server.bars.take (depth interval maxBars full t symbol),
        Mirrors after (symbol, interval) c) ∧
      (∀ key, (∀ symbol ∈ symbols, ∀ c ∈ (world symbol).server.bars,
        ((symbol, interval), c.timestamp) ≠ key) → after.get? key = t.get? key) ∧
      ∀ again ⊆ symbols, (sync interval maxBars full (again.map (asked world)) after).2 = after := by
  rw [sync_table maxBars full hinterval]
  intro after
  have hmirrors : ∀ symbol ∈ symbols, (world symbol).failure = none →
      ∀ c ∈ (world symbol).server.bars.take (depth interval maxBars full t symbol),
        Mirrors after (symbol, interval) c := fun symbol hsymbol hanswers c hc =>
    mirrors_synced hinterval (hstamped symbol) hanswers hsymbol hc
  refine ⟨hmirrors, fun key hkey => get?_run_of_ne hkey, fun again hagain => ?_⟩
  rw [sync_table maxBars full hinterval]
  induction again with
  | nil => rfl
  | cons symbol rest ih =>
    have hsymbol := hagain List.mem_cons_self
    have hfresh : Fresh world interval maxBars full after symbol := fun hanswers c hc =>
      hmirrors symbol hsymbol hanswers c (List.take_subset_take_left _ (page_le_depth t symbol) hc)
    rw [List.map_cons, List.foldl_cons, hfresh.unchanged (hstamped symbol)]
    exact ih fun _ hmem => hagain (List.mem_cons_of_mem _ hmem)

/-- A top-up of one symbol while the other fails. -/
theorem sync_settles_topUp :
    let after := (sync "1d" 2 false (["000000", "005930"].map (asked twoServers)) Site.firstTable).2
    Mirrors after ("005930", "1d") (Site.dayBar "2026-01-06") ∧
      (sync "1d" 2 false (["005930"].map (asked twoServers)) after).2 = after := by
  obtain ⟨hmirrors, -, hrests⟩ := sync_settles 2 false (.inr rfl) twoServers_stamped
    ["000000", "005930"] Site.firstTable
  refine ⟨hmirrors "005930" (by decide) rfl _ ?_, hrests _ (by decide)⟩
  rw [topUp_depth]
  exact List.mem_cons_of_mem _ List.mem_cons_self

end
end Ingestor

end Tqt
