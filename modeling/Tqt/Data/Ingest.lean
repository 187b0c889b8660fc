import Tqt.Data.Money
import Tqt.Foundation.Dict
import Tqt.Foundation.Lts
import Tqt.Toss.Candles

/-! Candle history, kept up to date from the API.

A call that does not fail stores the newest bars of the server, up to its budget or down to
the latest stored one. From then on only the latest stored bar is looked at, so the series
has no hole exactly as long as each call reaches down to it (`syncSymbol_gapless_iff`,
`history_gapless`); a call whose budget ends before leaves a hole that no later incremental
call fills (`topUp_leaves_hole`). A call that fails stores nothing (`syncSymbol_unchanged`). -/
namespace Tqt
open History

structure CandleRow where
  openPrice : String
  highPrice : String
  lowPrice : String
  closePrice : String
  volume : String
  currency : Option String := none
deriving DecidableEq

/-- The table `candles`, by (symbol, interval) and time. -/
abbrev CandleTable := Dict ((String × String) × String) CandleRow

structure CandleRange where
  lo : Option String
  hi : Option String
  n : ℕ

structure SyncResult where
  symbol : String
  interval : String
  written : ℕ
  earliest : Option String
  latest : Option String
  error : Option String := none

def SyncResult.ok (r : SyncResult) : Bool := r.error.isNone

namespace Store

/-- `INSERT … ON CONFLICT(symbol, interval, ts) DO UPDATE` of one bar; the currency of a known
one is kept when the bar has none. -/
def upsertCandle (series : String × String) (t : CandleTable) (c : Candle) : CandleTable :=
  t.insert (series, c.timestamp)
    { openPrice := Money.s c.openPrice
      highPrice := Money.s c.highPrice
      lowPrice := Money.s c.lowPrice
      closePrice := Money.s c.closePrice
      volume := Money.s c.volume
      currency := c.currency.or ((t.get? (series, c.timestamp)).bind CandleRow.currency) }

/-- The table after the bars are written, and how many they were. -/
def upsertCandles (t : CandleTable) (symbol interval : String) (candles : List Candle) :
    CandleTable × ℕ :=
  (candles.foldl (upsertCandle (symbol, interval)) t, candles.length)

/-- The times held of a series. -/
def candleTimes (t : CandleTable) (symbol interval : String) : List String :=
  (t.row (symbol, interval)).keys

/-- `MIN(ts)`, `MAX(ts)` and `COUNT(*)` of a series. -/
def candleRange (t : CandleTable) (symbol interval : String) : CandleRange :=
  let times := candleTimes t symbol interval
  ⟨times.min?, times.max?, times.length⟩

end Store

namespace Ingestor
open Store

def defaultMaxBars : ℕ := 4200

/-- `None if (full or not hi) else hi` -/
def stopAt (full : Bool) (hi : Option String) : Option String :=
  if full || hi.all (· = "") then none else hi

/-- The result, or what is raised, and the table it leaves. -/
def syncSymbol (ask : CandleSource) (t : CandleTable) (symbol interval : String)
    (maxBars : ℕ := defaultMaxBars) (full : Bool := false) :
    Except CandleError SyncResult × CandleTable :=
  let held := candleRange t symbol interval
  match TossClient.iterCandles ask symbol interval maxBars (stopAt full held.hi) true with
  | .error (.interval got) => (.error (.interval got), t)
  | .error (.toss e) =>
    let error := if e.kind = .notFound then "stock-not-found" else e.text
    (.ok ⟨symbol, interval, 0, held.lo, held.hi, some error⟩, t)
  | .ok batch =>
    let (t', written) := upsertCandles t symbol interval batch
    let held' := candleRange t' symbol interval
    (.ok ⟨symbol, interval, written, held'.lo, held'.hi, none⟩, t')

/-- The call neither raised nor reports an error. -/
def Succeeded (outcome : Except CandleError SyncResult) : Prop :=
  ∃ r, outcome = .ok r ∧ r.ok

end Ingestor

namespace Store

theorem mem_candleTimes_upsertCandles (t : CandleTable) (symbol interval : String)
    (candles : List Candle) (ts : String) :
    ts ∈ candleTimes (upsertCandles t symbol interval candles).1 symbol interval ↔
      ts ∈ candles.map Candle.timestamp ∨ ts ∈ candleTimes t symbol interval := by
  unfold upsertCandles
  induction candles generalizing t with
  | nil => simp
  | cons c rest ih =>
    rw [List.foldl_cons, ih, candleTimes, upsertCandle, Dict.row_insert_self, Dict.mem_keys_insert,
      List.map_cons, List.mem_cons, candleTimes]
    tauto

/-- Writing one series leaves the others alone. -/
theorem row_upsertCandles_of_ne (t : CandleTable) {symbol interval : String} {series : String × String}
    (h : (symbol, interval) ≠ series) (candles : List Candle) :
    (upsertCandles t symbol interval candles).1.row series = t.row series := by
  unfold upsertCandles
  induction candles generalizing t with
  | nil => rfl
  | cons c rest ih => rw [List.foldl_cons, ih, upsertCandle, Dict.row_insert_of_ne _ h]

end Store

namespace Ingestor
open Store

section
variable {symbol interval : String} {maxBars : ℕ} {full : Bool}

theorem syncSymbol_of_ok {ask : CandleSource} {t : CandleTable} {batch : List Candle}
    (h : TossClient.iterCandles ask symbol interval maxBars
      (stopAt full (candleRange t symbol interval).hi) true = .ok batch) :
    Succeeded (syncSymbol ask t symbol interval maxBars full).1 ∧
      (syncSymbol ask t symbol interval maxBars full).2 = (upsertCandles t symbol interval batch).1 := by
  unfold syncSymbol
  dsimp only
  rw [h]
  exact ⟨⟨_, rfl, rfl⟩, rfl⟩

theorem syncSymbol_cases (ask : CandleSource) (t : CandleTable) :
    (¬ Succeeded (syncSymbol ask t symbol interval maxBars full).1 ∧
      (syncSymbol ask t symbol interval maxBars full).2 = t) ∨
    ∃ batch, TossClient.iterCandles ask symbol interval maxBars
        (stopAt full (candleRange t symbol interval).hi) true = .ok batch ∧
      (syncSymbol ask t symbol interval maxBars full).2 = (upsertCandles t symbol interval batch).1 := by
  unfold syncSymbol
  dsimp only
  split
  · refine .inl ⟨?_, rfl⟩
    rintro ⟨r, hr, -⟩
    cases hr
  · refine .inl ⟨?_, rfl⟩
    rintro ⟨r, hr, hok⟩
    cases hr
    cases hok
  · exact .inr ⟨_, ‹_›, rfl⟩

/-- A call that fails stores nothing. -/
theorem syncSymbol_unchanged (ask : CandleSource) (t : CandleTable)
    (h : ¬ Succeeded (syncSymbol ask t symbol interval maxBars full).1) :
    (syncSymbol ask t symbol interval maxBars full).2 = t := by
  rcases syncSymbol_cases ask t with ⟨-, hsame⟩ | ⟨batch, hbatch, -⟩
  · exact hsame
  · exact absurd (syncSymbol_of_ok hbatch).1 h

theorem stopAt_eq_some {hi : Option String} {s : String} (h : stopAt full hi = some s) :
    hi = some s := by
  unfold stopAt at h
  split at h
  · cases h
  · exact h

theorem isGreatest_hi {t : CandleTable} {hi : String}
    (h : (candleRange t symbol interval).hi = some hi) :
    IsGreatest {ts | ts ∈ candleTimes t symbol interval} hi :=
  List.max?_eq_some_iff.mp h

/-- What a call that succeeds has fetched and stored. -/
theorem syncSymbol_fetched {moments : ℕ → Moment} {t : CandleTable}
    (hgrows : ∀ n, (moments n).server.Grows (moments (n + 1)).server)
    (h : Succeeded (syncSymbol (sourceOf moments) t symbol interval maxBars full).1) :
    ∃ j ≤ maxBars,
      {ts | ts ∈ candleTimes (syncSymbol (sourceOf moments) t symbol interval maxBars full).2
        symbol interval} =
        {ts | ts ∈ candleTimes t symbol interval} ∪ {ts | ts ∈ (moments 0).server.times.take j} ∧
      ∀ hi, (candleRange t symbol interval).hi = some hi →
        min maxBars ((moments 0).server.times.countP (hi < ·)) ≤ j := by
  rcases syncSymbol_cases (sourceOf moments) t with ⟨hfail, -⟩ | ⟨batch, hbatch, htable⟩
  · exact absurd h hfail
  · obtain ⟨j, hj, htimes, hreach⟩ := TossClient.iterFrom_spec hgrows hbatch (fun _ hc => nomatch hc)
    rw [older_none] at htimes hreach
    refine ⟨j, hj, ?_, fun hi hhi => hreach hi fun s hs => ?_⟩
    · ext ts
      rw [htable]
      show ts ∈ candleTimes (upsertCandles t symbol interval batch).1 symbol interval ↔ _
      rw [mem_candleTimes_upsertCandles, htimes.mem_iff]
      exact or_comm
    · have hsome := stopAt_eq_some hs
      rw [hhi] at hsome
      exact (Option.some.inj hsome).ge

/-- After a call that succeeds, the series has no hole exactly when the bars newer than its
latest one were within the budget. -/
theorem syncSymbol_gapless_iff {moments : ℕ → Moment} {t : CandleTable}
    (hgrows : ∀ n, (moments n).server.Grows (moments (n + 1)).server) (hmax : 0 < maxBars)
    (h : Succeeded (syncSymbol (sourceOf moments) t symbol interval maxBars full).1)
    (hgapless : Gapless (moments 0).server.times {ts | ts ∈ candleTimes t symbol interval}) :
    Gapless (moments 0).server.times {ts | ts ∈ candleTimes
        (syncSymbol (sourceOf moments) t symbol interval maxBars full).2 symbol interval} ↔
      ∀ hi, (candleRange t symbol interval).hi = some hi →
        (moments 0).server.times.countP (hi < ·) ≤ maxBars := by
  obtain ⟨j, hj, hheld, hreach⟩ := syncSymbol_fetched hgrows h
  have hsorted := (moments 0).server.newestFirst
  rw [hheld]
  cases hhi : (candleRange t symbol interval).hi with
  | none =>
    have hnone : {ts | ts ∈ candleTimes t symbol interval} = ∅ := by
      rw [List.max?_eq_none_iff.mp hhi]
      exact Set.eq_empty_of_forall_notMem fun _ => List.not_mem_nil
    rw [hnone, Set.empty_union]
    exact iff_of_true (gapless_take hsorted j) (fun _ h => nomatch h)
  | some hi =>
    have hmin := hreach hi hhi
    have hbudget : (moments 0).server.times.countP (hi < ·) ≤ j ↔
        ∀ hi', some hi = some hi' → (moments 0).server.times.countP (hi' < ·) ≤ maxBars := by
      constructor
      · rintro hcount _ ⟨⟩
        exact hcount.trans hj
      · intro hcount
        rwa [min_eq_right (hcount hi rfl)] at hmin
    rw [← hbudget]
    rcases j.eq_zero_or_pos with rfl | hpos
    · refine iff_of_true ?_ (by omega)
      simpa using hgapless
    · exact hgapless.union_take_iff hsorted (isGreatest_hi hhi) hpos

end
end Ingestor

/-- The server's bars of one series, and what is stored. -/
structure Site where
  server : CandleHistory
  candles : CandleTable

inductive SyncEvent where
  /-- New bars appear at the server. -/
  | appear
  /-- A call of `sync_symbol`, and what each of its requests meets. -/
  | sync (maxBars : ℕ) (full : Bool) (moments : ℕ → Moment)

namespace Site
open Store Ingestor

section
variable (symbol interval : String)

def held (s : Site) : Set String := {ts | ts ∈ candleTimes s.candles symbol interval}

/-- Calls on one series, while the server's bars grow between them and in them. -/
def syncs : Lts Site SyncEvent where
  step s a t := match a with
    | .appear => s.server.Grows t.server ∧ t.candles = s.candles
    | .sync maxBars full moments => 0 < maxBars ∧ s.server.Grows (moments 0).server ∧
        (∀ n, (moments n).server.Grows (moments (n + 1)).server ∧ (moments n).server.Grows t.server) ∧
        t.candles = (syncSymbol (sourceOf moments) s.candles symbol interval maxBars full).2

/-- A call that succeeds meets, at its first page, no more bars newer than the latest stored
one than its budget. -/
def Reaches (s : Site) (a : SyncEvent) : Prop :=
  match a with
  | .appear => True
  | .sync maxBars full moments =>
    Succeeded (syncSymbol (sourceOf moments) s.candles symbol interval maxBars full).1 →
      ∀ hi, (candleRange s.candles symbol interval).hi = some hi →
        (moments 0).server.times.countP (hi < ·) ≤ maxBars

structure Sound (s : Site) : Prop where
  known : ∀ ts ∈ s.held symbol interval, ts ∈ s.server.times
  gapless : Gapless s.server.times (s.held symbol interval)

end

variable {symbol interval : String} {s t : Site}

theorem Sound.grow (h : Sound symbol interval s) {server : CandleHistory}
    (hgrows : s.server.Grows server) : Sound symbol interval ⟨server, s.candles⟩ :=
  ⟨fun ts hts => hgrows.subset (h.known ts hts),
    h.gapless.grow h.known server.newestFirst hgrows⟩

theorem Sound.step {a : SyncEvent} (h : Sound symbol interval s)
    (hstep : ((syncs symbol interval).restrict (Reaches symbol interval)).step s a t) :
    Sound symbol interval t := by
  obtain ⟨server, candles⟩ := t
  obtain ⟨hreaches, hstep⟩ := hstep
  cases a with
  | appear =>
    obtain ⟨hgrows, rfl⟩ := hstep
    exact h.grow hgrows
  | sync maxBars full moments =>
    obtain ⟨hmax, hfirst, hgrows, rfl⟩ := hstep
    have hstart := h.grow hfirst
    by_cases hok : Succeeded (syncSymbol (sourceOf moments) s.candles symbol interval maxBars full).1
    · have hafter : Sound symbol interval ⟨(moments 0).server,
          (syncSymbol (sourceOf moments) s.candles symbol interval maxBars full).2⟩ := by
        refine ⟨fun ts hts => ?_, ?_⟩
        · obtain ⟨j, -, hheld, -⟩ := syncSymbol_fetched (fun n => (hgrows n).1) hok
          have hts' : ts ∈ {ts | ts ∈ candleTimes (syncSymbol (sourceOf moments) s.candles symbol
            interval maxBars full).2 symbol interval} := hts
          rw [hheld] at hts'
          rcases hts' with hold | hnew
          · exact hstart.known ts hold
          · exact List.mem_of_mem_take hnew
        · have hiff := syncSymbol_gapless_iff (fun n => (hgrows n).1) hmax hok hstart.gapless
          exact hiff.mpr (hreaches hok)
      exact hafter.grow (hgrows 0).2
    · rw [syncSymbol_unchanged _ _ hok]
      exact hstart.grow (hgrows 0).2

/-- A day's bar. -/
def dayBar (day : String) : Candle :=
  ⟨day ++ "T00:00:00.000+09:00", ⟨false, 100, 0⟩, ⟨false, 110, 0⟩, ⟨false, 90, 0⟩, ⟨false, 105, 0⟩,
    ⟨false, 1000, 0⟩, some "KRW"⟩

def firstDay : CandleHistory := ⟨[dayBar "2026-01-05"], by decide +kernel⟩

def thirdDay : CandleHistory :=
  ⟨[dayBar "2026-01-07", dayBar "2026-01-06", dayBar "2026-01-05"], by decide +kernel⟩

/-- The table when the first day's bar is stored. -/
def firstTable : CandleTable := (upsertCandles ∅ "005930" "1d" firstDay.bars).1

/-- A call on the first day, with nothing stored yet. -/
theorem first_sync :
    TossClient.iterCandles (sourceOf fun _ => ⟨firstDay, none⟩) "005930" "1d" 1
      (stopAt false (candleRange ∅ "005930" "1d").hi) true = .ok firstDay.bars := by
  unfold TossClient.iterCandles TossClient.iterFrom
  rw [dif_pos (by decide)]
  unfold TossClient.iterFrom
  rfl

theorem firstTable_hi :
    (candleRange firstTable "005930" "1d").hi = some "2026-01-05T00:00:00.000+09:00" := by
  decide +kernel

/-- The call of the third day, with a budget of one bar. -/
theorem topUp_sync :
    TossClient.iterCandles (sourceOf fun _ => ⟨thirdDay, none⟩) "005930" "1d" 1
      (stopAt false (candleRange firstTable "005930" "1d").hi) true = .ok [dayBar "2026-01-07"] := by
  rw [firstTable_hi]
  unfold TossClient.iterCandles TossClient.iterFrom
  rw [dif_pos (by decide)]
  unfold TossClient.iterFrom
  rfl

theorem first_step : (syncs "005930" "1d").step ⟨firstDay, ∅⟩
    (.sync 1 false fun _ => ⟨firstDay, none⟩) ⟨firstDay, firstTable⟩ :=
  ⟨Nat.one_pos, List.suffix_rfl, fun _ => ⟨List.suffix_rfl, List.suffix_rfl⟩,
    (syncSymbol_of_ok first_sync).2.symm⟩

theorem appear_step : (syncs "005930" "1d").step ⟨firstDay, firstTable⟩ .appear ⟨thirdDay, firstTable⟩ :=
  ⟨⟨["2026-01-07T00:00:00.000+09:00", "2026-01-06T00:00:00.000+09:00"], by decide +kernel⟩, rfl⟩

/-- **Candle history has no holes** when each call that succeeds reaches down to what is stored,
and a call that fails stores nothing. -/
theorem history_gapless (hempty : s.candles.row (symbol, interval) = ∅) {events : List SyncEvent}
    (hrun : ((syncs symbol interval).restrict (Reaches symbol interval)).Run s events t) :
    Gapless t.server.times (t.held symbol interval) ∧
      ∀ (ask : CandleSource) (maxBars : ℕ) (full : Bool),
        ¬ Succeeded (syncSymbol ask t.candles symbol interval maxBars full).1 →
          (syncSymbol ask t.candles symbol interval maxBars full).2 = t.candles := by
  have hnone : ∀ ts, ts ∉ s.held symbol interval := by
    intro ts hts
    have hmem : ts ∈ (s.candles.row (symbol, interval)).keys := hts
    rw [hempty] at hmem
    cases hmem
  have hstart : Sound symbol interval s :=
    ⟨fun ts hts => absurd hts (hnone ts), fun _ _ a ha => absurd ha (hnone a)⟩
  exact ⟨(hrun.invariant (fun _ _ _ h hstep => h.step hstep) hstart).gapless,
    fun ask maxBars full => syncSymbol_unchanged ask t.candles⟩

/-- Two bars appear after the first call, and the second one has room for both. -/
theorem history_gapless_topUp :
    Gapless thirdDay.times (held "005930" "1d"
      ⟨thirdDay, (syncSymbol (sourceOf fun _ => ⟨thirdDay, none⟩) firstTable "005930" "1d" 2 false).2⟩) := by
  have hfirst : Reaches "005930" "1d" ⟨firstDay, ∅⟩ (.sync 1 false fun _ => ⟨firstDay, none⟩) :=
    fun _ _ h => nomatch h
  have happear : Reaches "005930" "1d" ⟨firstDay, firstTable⟩ .appear := trivial
  have hreaches : Reaches "005930" "1d" ⟨thirdDay, firstTable⟩
      (.sync 2 false fun _ => ⟨thirdDay, none⟩) := by
    intro _ hi hhi
    rw [firstTable_hi] at hhi
    cases hhi
    decide +kernel
  have htopUp : (syncs "005930" "1d").step ⟨thirdDay, firstTable⟩
      (.sync 2 false fun _ => ⟨thirdDay, none⟩)
      ⟨thirdDay, (syncSymbol (sourceOf fun _ => ⟨thirdDay, none⟩) firstTable "005930" "1d" 2 false).2⟩ :=
    ⟨Nat.two_pos, List.suffix_rfl, fun _ => ⟨List.suffix_rfl, List.suffix_rfl⟩, rfl⟩
  have hempty : (⟨firstDay, ∅⟩ : Site).candles.row ("005930", "1d") = ∅ := rfl
  exact (history_gapless hempty (.cons ⟨hfirst, first_step⟩
    (.cons ⟨happear, appear_step⟩ (.cons ⟨hreaches, htopUp⟩ (.nil _))))).1

/-- With room for one bar only, the bar between is never fetched: the call leaves a hole. -/
theorem topUp_leaves_hole :
    ¬ ∀ (symbol interval : String) (s t : Site) (events : List SyncEvent),
      s.candles.row (symbol, interval) = ∅ → (syncs symbol interval).Run s events t →
        Gapless t.server.times (t.held symbol interval) := by
  intro hall
  have htopUp : (syncs "005930" "1d").step ⟨thirdDay, firstTable⟩
      (.sync 1 false fun _ => ⟨thirdDay, none⟩)
      ⟨thirdDay, (upsertCandles firstTable "005930" "1d" [dayBar "2026-01-07"]).1⟩ :=
    ⟨Nat.one_pos, List.suffix_rfl, fun _ => ⟨List.suffix_rfl, List.suffix_rfl⟩,
      (syncSymbol_of_ok topUp_sync).2.symm⟩
  have hgapless := hall "005930" "1d" _ _ _ rfl
    (.cons first_step (.cons appear_step (.cons htopUp (.nil _))))
  have hmissing := hgapless "2026-01-06T00:00:00.000+09:00" (by decide +kernel)
    "2026-01-05T00:00:00.000+09:00" ?_ "2026-01-07T00:00:00.000+09:00" ?_ (by decide) (by decide)
  · revert hmissing
    show "2026-01-06T00:00:00.000+09:00" ∉ candleTimes _ "005930" "1d"
    decide +kernel
  · show "2026-01-05T00:00:00.000+09:00" ∈ candleTimes _ "005930" "1d"
    decide +kernel
  · show "2026-01-07T00:00:00.000+09:00" ∈ candleTimes _ "005930" "1d"
    decide +kernel

end Site
end Tqt
