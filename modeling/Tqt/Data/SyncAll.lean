import Tqt.Data.Ingest
import Tqt.Foundation.Noninterference

/-! Syncing the whole universe.

`sync` asks for one symbol after the other and writes what it gets into one table. No symbol's
outcome depends on another's (`sync_isolated`): each has the results and the series that its own
calls alone would have, whatever the others' servers answer. -/
namespace Tqt

/-- A symbol of the list, and what its requests are answered. -/
structure SyncCall where
  symbol : String
  ask : CandleSource

namespace Ingestor
open Store

section
variable (interval : String) (maxBars : ℕ) (full : Bool)

/-- The results, or what is raised, and the table it leaves. -/
def sync : List SyncCall → CandleTable → Except CandleError (List SyncResult) × CandleTable
  | [], t => (.ok [], t)
  | call :: rest, t =>
    match syncSymbol call.ask t call.symbol interval maxBars full with
    | (.error e, t') => (.error e, t')
    | (.ok r, t') =>
      let (results, t'') := sync rest t'
      (results.map (r :: ·), t'')

/-- The results so far and the table, one call later. -/
def syncStep (s : List SyncResult × CandleTable) (call : SyncCall) : List SyncResult × CandleTable :=
  match syncSymbol call.ask s.2 call.symbol interval maxBars full with
  | (.error _, t) => (s.1, t)
  | (.ok r, t) => (s.1 ++ [r], t)

end

section
variable {interval : String} (maxBars : ℕ) (full : Bool)

/-- Only another interval raises. -/
theorem iterFrom_interval {ask : CandleSource} {symbol : String} {stopAt : Option String} {adjusted : Bool}
    (hinterval : interval = "1m" ∨ interval = "1d") {fetched : ℕ} {before : Option String}
    {seenCursors : List String} {n : ℕ} (got : String) :
    TossClient.iterFrom ask symbol interval maxBars stopAt adjusted fetched before seenCursors n ≠
      .error (.interval got) := by
  fun_induction TossClient.iterFrom ask symbol interval maxBars stopAt adjusted fetched before
      seenCursors n with
  | case1 fetched before seenCursors n hroom e hpage =>
    intro h
    cases h
    unfold TossClient.candles at hpage
    rw [if_neg (by tauto)] at hpage
    cases hanswer : ask n ⟨symbol, interval, min (min TossClient.maxCandlesPerCall (maxBars - fetched))
      TossClient.maxCandlesPerCall, before, adjusted⟩ with
    | error e =>
      rw [hanswer] at hpage
      cases hpage
    | ok page =>
      rw [hanswer] at hpage
      cases hpage
  | case6 fetched before seenCursors n hroom page hpage bars hempty hreaches cursor hnext hfresh ih =>
    intro h
    cases hrec : TossClient.iterFrom ask symbol interval maxBars stopAt adjusted
        (fetched + bars.length) (some cursor) (cursor :: seenCursors) (n + 1) with
    | error e =>
      rw [hrec] at h
      cases h
      exact ih hrec
    | ok behind =>
      rw [hrec] at h
      cases h
  | _ =>
    intro h
    cases h

/-- A call gives the symbol's result. -/
theorem syncSymbol_result (hinterval : interval = "1m" ∨ interval = "1d") (ask : CandleSource)
    (t : CandleTable) (symbol : String) :
    ∃ r, (syncSymbol ask t symbol interval maxBars full).1 = .ok r ∧ r.symbol = symbol := by
  unfold syncSymbol
  dsimp only
  split
  · next got h => exact absurd h (iterFrom_interval maxBars hinterval got)
  · exact ⟨_, rfl, rfl⟩
  · exact ⟨_, rfl, rfl⟩

/-- A call's result, and its series, depend on its series only. -/
theorem syncSymbol_congr (ask : CandleSource) {t u : CandleTable} {symbol : String}
    (h : t.row (symbol, interval) = u.row (symbol, interval)) :
    (syncSymbol ask t symbol interval maxBars full).1 = (syncSymbol ask u symbol interval maxBars full).1 ∧
      (syncSymbol ask t symbol interval maxBars full).2.row (symbol, interval) =
        (syncSymbol ask u symbol interval maxBars full).2.row (symbol, interval) := by
  have hrow (batch : List Candle) : (upsertCandles t symbol interval batch).1.row (symbol, interval) =
      (upsertCandles u symbol interval batch).1.row (symbol, interval) := by
    unfold upsertCandles
    induction batch generalizing t u with
    | nil => exact h
    | cons c rest ih =>
      refine ih ?_
      rw [upsertCandle, upsertCandle, Dict.row_insert_self, Dict.row_insert_self, ← Dict.get?_row,
        ← Dict.get?_row, h]
  have hrange {t u : CandleTable} (h : t.row (symbol, interval) = u.row (symbol, interval)) :
      candleRange t symbol interval = candleRange u symbol interval := by
    rw [candleRange, candleRange, candleTimes, candleTimes, h]
  unfold syncSymbol
  dsimp only
  rw [hrange h]
  split
  · exact ⟨rfl, h⟩
  · exact ⟨rfl, h⟩
  · next batch hbatch =>
    refine ⟨?_, hrow batch⟩
    dsimp only
    rw [hrange (hrow batch)]
    rfl

/-- A call leaves the other series alone. -/
theorem syncSymbol_row_of_ne (ask : CandleSource) (t : CandleTable) {symbol : String}
    {series : String × String} (h : (symbol, interval) ≠ series) :
    (syncSymbol ask t symbol interval maxBars full).2.row series = t.row series := by
  rcases syncSymbol_cases ask t with ⟨-, hsame⟩ | ⟨batch, -, hsame⟩
  · rw [hsame]
  · rw [hsame, row_upsertCandles_of_ne t h]

/-- A call's step. -/
theorem syncStep_eq (hinterval : interval = "1m" ∨ interval = "1d") (s : List SyncResult × CandleTable)
    (call : SyncCall) : ∃ r, (syncSymbol call.ask s.2 call.symbol interval maxBars full).1 = .ok r ∧
      r.symbol = call.symbol ∧ syncStep interval maxBars full s call =
        (s.1 ++ [r], (syncSymbol call.ask s.2 call.symbol interval maxBars full).2) := by
  obtain ⟨r, hr, hsymbol⟩ := syncSymbol_result maxBars full hinterval call.ask s.2 call.symbol
  refine ⟨r, hr, hsymbol, ?_⟩
  unfold syncStep
  cases hcall : syncSymbol call.ask s.2 call.symbol interval maxBars full with
  | mk outcome t =>
    rw [hcall] at hr
    cases hr
    rfl

/-- The steps give one result for each call. -/
theorem sync_eq (hinterval : interval = "1m" ∨ interval = "1d") (calls : List SyncCall)
    (front : List SyncResult) (t : CandleTable) :
    ∃ results, (sync interval maxBars full calls t).1 = .ok results ∧
      results.map SyncResult.symbol = calls.map SyncCall.symbol ∧
      calls.foldl (syncStep interval maxBars full) (front, t) =
        (front ++ results, (sync interval maxBars full calls t).2) := by
  induction calls generalizing front t with
  | nil => exact ⟨[], rfl, rfl, by rw [List.append_nil]; rfl⟩
  | cons call rest ih =>
    obtain ⟨r, hr, hsymbol, hstep⟩ := syncStep_eq maxBars full hinterval (front, t) call
    obtain ⟨results, hresults, hsymbols, hrest⟩ := ih (front ++ [r])
      (syncSymbol call.ask t call.symbol interval maxBars full).2
    have hsync : sync interval maxBars full (call :: rest) t = (.ok (r :: results),
        (sync interval maxBars full rest (syncSymbol call.ask t call.symbol interval maxBars full).2).2) := by
      rw [sync]
      cases hcall : syncSymbol call.ask t call.symbol interval maxBars full with
      | mk outcome t' =>
        rw [hcall] at hr hresults
        cases hr
        dsimp only at hresults ⊢
        rw [hresults]
        rfl
    refine ⟨r :: results, by rw [hsync], ?_, ?_⟩
    · rw [List.map_cons, List.map_cons, hsymbols, hsymbol]
    · rw [List.foldl_cons, hstep, hrest, hsync, List.append_assoc, List.singleton_append]

/-- Where every result is an error, nothing was written. -/
theorem sync_unchanged {calls : List SyncCall} {t : CandleTable} {results : List SyncResult}
    (h : (sync interval maxBars full calls t).1 = .ok results) (hfail : ∀ r ∈ results, r.ok = false) :
    (sync interval maxBars full calls t).2 = t := by
  induction calls generalizing t results with
  | nil => rfl
  | cons call rest ih =>
    rw [sync] at h ⊢
    cases hcall : syncSymbol call.ask t call.symbol interval maxBars full with
    | mk outcome t' =>
      rw [hcall] at h
      cases outcome with
      | error e => cases h
      | ok r =>
        dsimp only at h ⊢
        cases hrest : (sync interval maxBars full rest t').1 with
        | error e =>
          rw [hrest] at h
          cases h
        | ok results' =>
          rw [hrest] at h
          cases h
          have hbad : ¬ Succeeded (syncSymbol call.ask t call.symbol interval maxBars full).1 := by
            rw [hcall]
            rintro ⟨_, ⟨⟩, hok⟩
            rw [hfail r List.mem_cons_self] at hok
            cases hok
          have hsame := syncSymbol_unchanged call.ask t hbad
          rw [hcall] at hsame
          cases hsame
          exact ih hrest fun r hr => hfail r (List.mem_cons_of_mem _ hr)

/-! ### One symbol at a time -/

/-- What a symbol has: its results and its series. -/
def seriesView (interval sym : String) (s : List SyncResult × CandleTable) :
    List SyncResult × Dict String CandleRow :=
  (s.1.filter fun r => r.symbol = sym, s.2.row (sym, interval))

theorem sync_views (hinterval : interval = "1m" ∨ interval = "1d") :
    Isolated (syncStep interval maxBars full) SyncCall.symbol (seriesView interval) := by
  refine ⟨fun sym s call hother => ?_, fun s u call hview => ?_⟩
  · obtain ⟨r, -, hsymbol, hstep⟩ := syncStep_eq maxBars full hinterval s call
    rw [hstep, seriesView, List.filter_append, List.filter_cons_of_neg (by simpa [hsymbol] using hother),
      List.filter_nil, List.append_nil,
      syncSymbol_row_of_ne maxBars full call.ask s.2 fun h => hother (congrArg Prod.fst h)]
    rfl
  · obtain ⟨r, hr, -, hstep⟩ := syncStep_eq maxBars full hinterval s call
    obtain ⟨r', hr', -, hstep'⟩ := syncStep_eq maxBars full hinterval u call
    obtain ⟨hresults, hrow⟩ := Prod.mk.inj hview
    obtain ⟨hout, hrow'⟩ := syncSymbol_congr maxBars full call.ask hrow
    have hsame : r = r' := Except.ok.inj (hr.symm.trans (hout.trans hr'))
    rw [hstep, hstep', seriesView, seriesView, List.filter_append, List.filter_append, hresults, hrow', hsame]

/-- A symbol that the exchange does not know. -/
def unknownStock : TossError := { kind := .notFound, message := "no such stock" }

def unknownCall : SyncCall := ⟨"000000", sourceOf fun _ => ⟨Site.firstDay, some unknownStock⟩⟩

def knownCall : SyncCall := ⟨"005930", sourceOf fun _ => ⟨Site.firstDay, none⟩⟩

theorem sync_unknown : sync "1d" 1 false [unknownCall] ∅ =
    (.ok [⟨"000000", "1d", 0, none, none, some "stock-not-found"⟩], ∅) := by
  have hfetch : TossClient.iterCandles unknownCall.ask unknownCall.symbol "1d" 1
      (stopAt false (candleRange ∅ unknownCall.symbol "1d").hi) true = .error (.toss unknownStock) := by
    unfold TossClient.iterCandles TossClient.iterFrom
    rfl
  rw [sync, syncSymbol]
  dsimp only
  rw [hfetch]
  rfl

/-- **One bad symbol never aborts the run**, and none shows in another's outcome. Every call has its
result, in order; what a symbol's results are, and what is stored of its series, is what its own
calls alone give; and where they all fail, the series is as it was. -/
theorem sync_isolated (hinterval : interval = "1m" ∨ interval = "1d") (calls : List SyncCall)
    (t : CandleTable) :
    let after := (sync interval maxBars full calls t).2
    ∃ results, (sync interval maxBars full calls t).1 = .ok results ∧
      results.map SyncResult.symbol = calls.map SyncCall.symbol ∧
      (∀ sym,
        let own := calls.filter fun call => call.symbol = sym
        (sync interval maxBars full own t).1 = .ok (results.filter fun r => r.symbol = sym) ∧
          after.row (sym, interval) = (sync interval maxBars full own t).2.row (sym, interval) ∧
          ((∀ r ∈ results, r.symbol = sym → r.ok = false) →
            after.row (sym, interval) = t.row (sym, interval))) ∧
      ∀ series : String × String, series.2 ≠ interval → after.row series = t.row series := by
  obtain ⟨results, hresults, hsymbols, hall⟩ :=
    sync_eq maxBars full hinterval calls [] t
  refine ⟨results, hresults, hsymbols, fun sym => ?_, fun series hother => ?_⟩
  · obtain ⟨own, hown, hownSymbols, halone⟩ := sync_eq maxBars full hinterval
      (calls.filter fun call => call.symbol = sym) [] t
    have hview := (sync_views maxBars full hinterval).view_foldl sym calls (s := ([], t)) rfl
    rw [hall, halone] at hview
    obtain ⟨hsame, hrow⟩ := Prod.mk.inj hview
    have hmine : ∀ r ∈ own, r.symbol = sym := by
      intro r hr
      have hmem : r.symbol ∈ (calls.filter fun call => call.symbol = sym).map SyncCall.symbol := by
        rw [← hownSymbols]
        exact List.mem_map_of_mem hr
      obtain ⟨call, hcall, hsymbol⟩ := List.mem_map.mp hmem
      exact hsymbol.symm.trans (of_decide_eq_true (List.mem_filter.mp hcall).2)
    have hself : ([] ++ own).filter (fun r => decide (r.symbol = sym)) = own :=
      List.filter_eq_self.mpr fun r hr => decide_eq_true (hmine r hr)
    rw [hself] at hsame
    refine ⟨hown.trans (congrArg _ hsame.symm), hrow, fun hfail => ?_⟩
    have hbad : ∀ r ∈ own, r.ok = false := by
      intro r hr
      rw [← hsame] at hr
      obtain ⟨hr, hsymbol⟩ := List.mem_filter.mp hr
      exact hfail r hr (of_decide_eq_true hsymbol)
    exact hrow.trans (by rw [sync_unchanged maxBars full hown hbad])
  · have hfold (s : List SyncResult × CandleTable) :
        (calls.foldl (syncStep interval maxBars full) s).2.row series = s.2.row series := by
      clear hall hresults hsymbols
      induction calls generalizing s with
      | nil => rfl
      | cons call rest ih =>
        obtain ⟨r, -, -, hstep⟩ := syncStep_eq maxBars full hinterval s call
        rw [List.foldl_cons, ih, hstep]
        exact syncSymbol_row_of_ne maxBars full call.ask s.2 fun h => hother (congrArg Prod.snd h).symm
    have hrows := hfold ([], t)
    rw [hall] at hrows
    exact hrows

/-- The unknown symbol is reported and leaves no row; the other one is stored. -/
theorem sync_isolated_unknown :
    let after := (sync "1d" 1 false [unknownCall, knownCall] ∅).2
    (∃ results, (sync "1d" 1 false [unknownCall, knownCall] ∅).1 = .ok results ∧
      results.map SyncResult.symbol = ["000000", "005930"]) ∧
      after.row ("000000", "1d") = ∅ ∧
      after.row ("005930", "1d") = (sync "1d" 1 false [knownCall] ∅).2.row ("005930", "1d") := by
  obtain ⟨results, hresults, hsymbols, hown, -⟩ :=
    sync_isolated 1 false (.inr rfl) [unknownCall, knownCall] ∅
  obtain ⟨-, hunknown, -⟩ := hown "000000"
  obtain ⟨-, hknown, -⟩ := hown "005930"
  refine ⟨⟨results, hresults, hsymbols⟩, hunknown.trans ?_, hknown⟩
  show (sync "1d" 1 false [unknownCall] ∅).2.row _ = ∅
  rw [sync_unknown]
  rfl

end
end Ingestor
end Tqt
