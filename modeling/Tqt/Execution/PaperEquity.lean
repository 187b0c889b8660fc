import Tqt.Backtest.CostAlgebra
import Tqt.Execution.Filled
import Tqt.Execution.PaperLedger

/-! The equity of the paper account while the quotes stand still.

Valued at the mid of the spread, a fill at the ask or the bid loses the half spread and its
charges (`friction`), and nothing else moves the equity: the cash a trade pays is what the
position gains (`Feasible.equityAt_book`). So a run of submissions can only lose, and loses
exactly what its fills cost (`no_free_money`). Amounts are exact, without the roundings of the
decimal context. -/
namespace Tqt

/-- StillQuotes that do not move: a mark for each symbol and one exchange rate. -/
structure StillQuotes where
  mark : Symbol → Decimal
  usdKrw : Decimal

namespace StillQuotes

/-- The factor from a symbol's currency to KRW. -/
def fxOf (q : StillQuotes) (sym : Symbol) : Decimal := if countryOf sym = .US then q.usdKrw else 1

/-- What the half spread and the charges take from a fill, in KRW. -/
def friction (q : StillQuotes) (e : FillRow × Decimal) : Decimal :=
  match e.1.side with
  | .BUY => ((e.1.price - q.mark e.1.symbol) * e.1.quantity + (e.1.commission + e.1.tax)) * e.2
  | .SELL => ((q.mark e.1.symbol - e.1.price) * e.1.quantity + (e.1.commission + e.1.tax)) * e.2

/-- The market shows these quotes for a symbol: the mark lies in the spread, the last price is
the mark, and a rate that is answered is the rate. -/
structure Shown (q : StillQuotes) (m : Market) (sym : Symbol) : Prop where
  ask : ∀ b, m.book = some b → ∀ px, b.1 = some px → px ≠ 0 → q.mark sym ≤ px
  bid : ∀ b, m.book = some b → ∀ px, b.2 = some px → px ≠ 0 → px ≤ q.mark sym
  last : ∀ px, m.last = some px → px = q.mark sym
  fx : ∀ fx, m.fx = some fx → fx = q.usdKrw

end StillQuotes

namespace PaperBroker

/-- The marks of what is held, as their lookup answers them. -/
def marksOf (q : StillQuotes) (st : Store) : List (Symbol × Decimal) :=
  (positions st).keys.map fun sym => (sym, q.mark sym)

/-- `snapshot().equity_krw` while the quotes stand still. -/
def equityAt (q : StillQuotes) (m : Market) (st : Store) : Decimal :=
  (snapshot m st (some (marksOf q st))).2.equityKrw

/-- Every paper row is in the currency of its symbol's market. -/
def Matching (st : Store) : Prop :=
  ∀ sym row, st.positions.get? (.paper, sym) = some row → row.currency = (countryOf sym).currency

/-- What the stored rows are worth. -/
def rowsValue (q : StillQuotes) (st : Store) : Decimal :=
  ((st.positions.row .paper).entries.map fun e => q.mark e.1 * e.2.quantity * q.fxOf e.1).sum

/-! ### The equity is the cash and the rows -/

theorem refreshFx_rate {q : StillQuotes} {m : Market} {st : Store} (hfx : ∀ fx, m.fx = some fx → fx = q.usdKrw)
    (hlast : st.lastUsdKrw.getD 1400 = q.usdKrw) :
    (refreshFx m st).2 = q.usdKrw ∧ (refreshFx m st).1.lastUsdKrw.getD 1400 = q.usdKrw := by
  unfold refreshFx
  cases hm : m.fx with
  | none => exact ⟨hlast, hlast⟩
  | some fx => exact ⟨hfx fx hm, hfx fx hm⟩

theorem fxFor_rate {q : StillQuotes} {m : Market} {st : Store} (hfx : ∀ fx, m.fx = some fx → fx = q.usdKrw)
    (hlast : st.lastUsdKrw.getD 1400 = q.usdKrw) (intent : OrderIntent) :
    (fxFor m intent st).2 = q.fxOf intent.symbol ∧
      (fxFor m intent st).1.lastUsdKrw.getD 1400 = q.usdKrw := by
  unfold fxFor StillQuotes.fxOf
  split
  · exact refreshFx_rate hfx hlast
  · exact ⟨rfl, hlast⟩

section
variable {q : StillQuotes} {st : Store} {start : Decimal} {log : List (FillRow × Decimal)}

theorem mem_row {e : Symbol × PositionRow} (he : e ∈ (st.positions.row .paper).entries) :
    st.positions.get? (.paper, e.1) = some e.2 := by
  rw [← Dict.get?_row]
  exact (Dict.get?_eq_some _ e.1 e.2).mpr he

/-- No row is empty, so every row is a position. -/
theorem Ledger.positions_entries (h : Ledger start log st) : (positions st).entries =
    (st.positions.row .paper).entries.map fun e =>
      (e.1, ⟨e.1, e.2.quantity, e.2.avgPrice, e.2.currency⟩) := by
  have hall : (st.positions.row .paper).entries.filter (fun e => 0 < e.2.quantity) =
      (st.positions.row .paper).entries :=
    List.filter_eq_self.mpr fun e he => decide_eq_true (h.positive e.1 e.2 (mem_row he))
  show ((st.positions.row .paper).entries.filter _).map _ = _
  rw [hall]

/-- Each position is marked. -/
theorem snapshot_price {m : Market} {sym : Symbol} {pos : Position}
    (hheld : (positions st).get? sym = some pos) :
    (snapshot m st (some (marksOf q st))).2.prices.getD sym pos.avgPrice = q.mark sym := by
  have hmem : sym ∈ (positions st).keys := ((positions st).mem_keys sym).mpr ⟨pos, hheld⟩
  have hsome : (positions st).entries.isEmpty = false := by
    cases hentries : (positions st).entries with
    | nil => simp [Dict.keys, hentries] at hmem
    | cons _ _ => rfl
  have hget : (snapshot m st (some (marksOf q st))).2.prices.get? sym = some (q.mark sym) := by
    simp only [snapshot, hsome, Bool.false_eq_true, if_false, Option.getD_some]
    rw [marksOf, Dict.get?_ofList_keys, if_pos hmem]
  rw [Dict.getD, hget, Option.getD_some]

/-- **The snapshot's equity** is the cash and the rows at their marks. -/
theorem Ledger.equityAt_eq (h : Ledger start log st) (hmatch : Matching st) {m : Market}
    (hfx : ∀ fx, m.fx = some fx → fx = q.usdKrw) (hlast : st.lastUsdKrw.getD 1400 = q.usdKrw) :
    equityAt q m st = cash st + rowsValue q st := by
  have hrate := (refreshFx_rate hfx hlast).1
  have hvalue : (snapshot m st (some (marksOf q st))).2.positionValueKrw = rowsValue q st := by
    show ((positions st).entries.map _).sum = _
    rw [h.positions_entries, List.map_map, rowsValue]
    congr 1
    apply List.map_congr_left
    intro e he
    have hrow := mem_row he
    have hheld : (positions st).get? e.1 = some ⟨e.1, e.2.quantity, e.2.avgPrice, e.2.currency⟩ := by
      rw [h.get?_positions, hrow, Option.map_some]
    have hcurrency : e.2.currency = (countryOf e.1).currency := hmatch e.1 e.2 hrow
    rw [Function.comp_apply, AccountSnapshot.valueKrw_of_currency hcurrency, snapshot_price hheld]
    show _ * (if countryOf e.1 = .US then (refreshFx m st).2 else 1) = _
    rw [hrate]
    rfl
  rw [equityAt, AccountSnapshot.equityKrw, hvalue]
  rfl

/-! ### One trade -/

variable {pb : PaperBroker} {m : Market} {intent : OrderIntent} {fx : Decimal} {t : Trade}

theorem positionAfter_currency (t : Trade) (held : Option Position) :
    (positionAfter t held).currency = t.currency := by
  unfold positionAfter
  split <;> rfl

theorem rowOf_currency (pos : Position) (strategy : String) (now : Instant) (old : Option PositionRow) :
    (rowOf pos strategy now old).currency = pos.currency := by
  cases old <;> rfl

theorem Matching.book (hmatch : Matching st) (t : Trade) : Matching (PaperBroker.book t st) := by
  intro sym row hrow
  rw [get?_book] at hrow
  split at hrow
  · next hsym =>
    split at hrow
    · cases hrow
    · cases hrow
      rw [rowOf_currency, positionAfter_currency, hsym]
      rfl
  · exact hmatch sym row hrow

/-- The rows are worth more by what was bought, less by what was sold. -/
theorem Feasible.rowsValue_book (h : Feasible pb m intent st fx t) (hl : Ledger start log st) :
    rowsValue q (book t st) = rowsValue q st + q.mark t.symbol * t.signed * q.fxOf t.symbol := by
  obtain ⟨hafter, hnonneg⟩ := h.quantity_after hl
  have hheld : (((st.positions.row .paper).get? t.symbol).map fun row =>
      q.mark t.symbol * row.quantity * q.fxOf t.symbol).getD 0 =
        q.mark t.symbol * quantityOf st t.symbol * q.fxOf t.symbol := by
    rw [Dict.get?_row, quantityOf]
    cases st.positions.get? (.paper, t.symbol) with
    | none => simp
    | some row => rfl
  unfold rowsValue
  simp only [book, writePosition, positionAfter_symbol]
  split
  · -- Sold out: the row goes, and it was worth what was sold.
    next hempty =>
    have hzero : quantityOf st t.symbol + t.signed = 0 := by
      rw [hafter] at hempty
      exact le_antisymm hempty hnonneg
    have hsigned : t.signed = -quantityOf st t.symbol := by linarith
    rw [Dict.row_erase_self, Dict.sum_map_erase
      (fun sym (row : PositionRow) => q.mark sym * row.quantity * q.fxOf sym), hheld, hsigned]
    ring
  · rw [Dict.row_insert_self]
    show ((Dict.put _ _ _).map _).sum = _
    rw [Dict.sum_map_put (fun sym (row : PositionRow) => q.mark sym * row.quantity * q.fxOf sym)]
    show _ - (((st.positions.row .paper).get? t.symbol).map _).getD 0 + _ = _
    rw [hheld, rowOf_quantity, hafter]
    ring

/-- **A trade costs its friction**: what it pays over the mark, and its charges. -/
theorem Feasible.equity_book (h : Feasible pb m intent st fx t) (hl : Ledger start log st)
    (hfx : fx = q.fxOf intent.symbol) :
    cash (book t st) + rowsValue q (book t st) =
      cash st + rowsValue q st - q.friction (t.fillRow, fx) := by
  have hcharge : cashMoved (t.fillRow, fx) = t.cashKrw := h.cashMoved_eq
  rw [hl.cash_book, h.rowsValue_book hl, ← hcharge, hfx, ← h.symbol_eq]
  cases hs : t.side with
  | BUY =>
    have hside : t.fillRow.side = .BUY := hs
    simp only [cashMoved, StillQuotes.friction, Trade.signed, hside, hs]
    show _ + -((t.px * t.qty + _) * _) + _ = _ - ((t.px - q.mark t.symbol) * t.qty + _) * _
    ring
  | SELL =>
    have hside : t.fillRow.side = .SELL := hs
    simp only [cashMoved, StillQuotes.friction, Trade.signed, hside, hs]
    show _ + (t.px * t.qty - _) * _ + _ = _ - ((q.mark t.symbol - t.px) * t.qty + _) * _
    ring

/-- A price the quotes can answer: not under the mark to a buyer, not over it to a seller. -/
theorem executionPrice_shown {px : Decimal} (hshown : q.Shown m intent.symbol)
    (hpx : (executionPrice m intent).1 = some px) :
    (intent.side = .BUY → q.mark intent.symbol ≤ px) ∧
      (intent.side = .SELL → px ≤ q.mark intent.symbol) := by
  unfold executionPrice at hpx
  simp only at hpx
  split at hpx
  · next crossed hcrossed =>
    cases hpx
    obtain ⟨hbook, hne⟩ := Option.filter_eq_some_iff.mp hcrossed
    obtain ⟨b, hb, hside⟩ := Option.bind_eq_some_iff.mp hbook
    have hne : px ≠ 0 := by simpa using hne
    refine ⟨fun hs => ?_, fun hs => ?_⟩
    · rw [if_pos hs] at hside
      exact hshown.ask b hb px hside hne
    · rw [if_neg (by rw [hs]; nofun)] at hside
      exact hshown.bid b hb px hside hne
  · have heq := hshown.last px hpx
    exact ⟨fun _ => heq.ge, fun _ => heq.le⟩

/-- Neither the half spread nor a charge pays anything. -/
theorem Feasible.friction_nonneg (h : Feasible pb m intent st fx t) (hshown : q.Shown m intent.symbol)
    (hrates : pb.costModel.SellRatesNonneg) (hfx : 0 ≤ fx) : 0 ≤ q.friction (t.fillRow, fx) := by
  have hcosts : 0 ≤ t.cost.commission + (t.cost.tax + t.cost.regulatory + t.cost.fx) := by
    have hpx := h.price.2.le
    have hqty := h.positive.le
    obtain ⟨px, source, qty, rfl⟩ := h.made
    have htotal := CostModel.total_nonneg intent.side (countryOf intent.symbol)
      (pb.etfSymbols.contains intent.symbol) false hrates hpx hqty
    have hslip := pb.costModel.costOf_slippage intent.side (countryOf intent.symbol) px qty
      (pb.etfSymbols.contains intent.symbol)
    rw [TradeCost.total] at htotal
    simp only [tradeOf] at htotal hslip ⊢
    linarith
  have hspread := executionPrice_shown hshown h.price.1
  rw [← h.side_eq, ← h.symbol_eq] at hspread
  cases hs : t.side with
  | BUY =>
    have hside : t.fillRow.side = .BUY := hs
    have hover : 0 ≤ (t.px - q.mark t.symbol) * t.qty :=
      mul_nonneg (sub_nonneg.mpr (hspread.1 hs)) h.positive.le
    simp only [StillQuotes.friction, hside]
    exact mul_nonneg (add_nonneg hover hcosts) hfx
  | SELL =>
    have hside : t.fillRow.side = .SELL := hs
    have hunder : 0 ≤ (q.mark t.symbol - t.px) * t.qty :=
      mul_nonneg (sub_nonneg.mpr (hspread.2 hs)) h.positive.le
    simp only [StillQuotes.friction, hside]
    exact mul_nonneg (add_nonneg hunder hcosts) hfx

/-! ### A run of submissions -/

/-- Where a run stands: the ledger, and the equity less what the fills cost. -/
structure Standing (q : StillQuotes) (start : Decimal) (s : Store × List (FillRow × Decimal)) : Prop where
  ledger : Ledger start s.2 s.1
  matching : Matching s.1
  rate : s.1.lastUsdKrw.getD 1400 = q.usdKrw
  equity : cash s.1 + rowsValue q s.1 = start - (s.2.map q.friction).sum
  friction : ∀ e ∈ s.2, 0 ≤ q.friction e

/-- A call on these quotes. -/
structure Steady (pb : PaperBroker) (q : StillQuotes) (call : Market × OrderIntent) : Prop where
  shown : q.Shown call.1 call.2.symbol
  pays : SalesPay pb call.1 call.2

theorem Fresh.standing {st₀ : Store} (hfresh : Fresh start st₀) (hstart : 0 ≤ start)
    (hrate : st₀.lastUsdKrw.getD 1400 = q.usdKrw) : Standing q start (st₀, []) := by
  have hledger := hfresh.ledger hstart
  have hempty : st₀.positions.row .paper = ∅ := Dict.eq_empty fun sym => by
    rw [Dict.get?_row, hfresh.positions]
  refine ⟨hledger, ?_, hrate, ?_, nofun⟩
  · intro sym row hrow
    rw [hfresh.positions] at hrow
    cases hrow
  · rw [hledger.cash_eq, rowsValue, hempty]
    show start + (List.map cashMoved []).sum + 0 = start - 0
    simp

/-- **One call keeps the standing.** -/
theorem Standing.step {s : Store × List (FillRow × Decimal)} {call : Market × OrderIntent}
    (h : Standing q start s) (hcall : Steady pb q call) (hrates : pb.costModel.SellRatesNonneg)
    (hpos : 0 < q.usdKrw) : Standing q start (step pb s call) := by
  have hfx : ∀ fx, call.1.fx = some fx → 0 < fx := fun fx hm => hcall.shown.fx fx hm ▸ hpos
  have hledger := ledger_attempt pb h.ledger hcall.pays hfx
  obtain ⟨hused, hkept⟩ := fxFor_rate hcall.shown.fx h.rate call.2
  have hsame := fxFor_same call.1 call.2 s.1
  have hvalue : cash (fxFor call.1 call.2 s.1).1 + rowsValue q (fxFor call.1 call.2 s.1).1 =
      cash s.1 + rowsValue q s.1 := by
    rw [cash, cash, rowsValue, rowsValue, hsame.cash, hsame.positions]
  have hmatch : Matching (fxFor call.1 call.2 s.1).1 := by
    intro sym row hrow
    rw [hsame.positions] at hrow
    exact h.matching sym row hrow
  revert hledger
  unfold PaperBroker.step
  rcases pb.attempt_cases call.1 call.2 s.1 rfl with hidle | ⟨t, ht, heq⟩
  · have hidle' := hidle.store
    split
    · next t heq => exact absurd (by rw [heq]) (hidle.untraded t)
    · next st' outcome _ heq =>
      rw [heq] at hidle'
      intro hledger
      rcases hidle' with hst | hst
      · have hst : st' = s.1 := hst
        subst hst
        exact ⟨hledger, h.matching, h.rate, h.equity, h.friction⟩
      · have hst : st' = (fxFor call.1 call.2 s.1).1 := hst
        subst hst
        exact ⟨hledger, hmatch, hkept, hvalue.trans h.equity, h.friction⟩
  · have hfx' : t.fx = (fxFor call.1 call.2 s.1).2 := ht.fx_eq
    have hledger' := h.ledger.same hsame (h.ledger.fx_pos hfx call.2).2
    have hnonneg : 0 ≤ (fxFor call.1 call.2 s.1).2 := (h.ledger.fx_pos hfx call.2).1.le
    simp only [heq, hfx']
    intro hledger
    refine ⟨hledger, hmatch.book t, hkept, ?_, ?_⟩
    · rw [ht.equity_book hledger' hused, hvalue, h.equity, List.map_append, List.sum_append,
        List.map_singleton, List.sum_singleton]
      ring
    · intro e he
      rcases List.mem_append.mp he with he | he
      · exact h.friction e he
      · rw [List.mem_singleton.mp he]
        exact ht.friction_nonneg hcall.shown hrates hnonneg

theorem Standing.run {calls : List (Market × OrderIntent)}
    (hcalls : ∀ call ∈ calls, Steady pb q call) (hrates : pb.costModel.SellRatesNonneg)
    (hpos : 0 < q.usdKrw) {s : Store × List (FillRow × Decimal)} (h : Standing q start s) :
    Standing q start (calls.foldl (PaperBroker.step pb) s) := by
  induction calls generalizing s with
  | nil => exact h
  | cons call rest ih =>
    exact ih (fun c hc => hcalls c (List.mem_cons_of_mem call hc))
      (h.step (hcalls call (List.mem_cons_self ..)) hrates hpos)

theorem Standing.equityAt_eq {s : Store × List (FillRow × Decimal)} (h : Standing q start s)
    (hfx : ∀ fx, m.fx = some fx → fx = q.usdKrw) :
    equityAt q m s.1 = start - (s.2.map q.friction).sum := by
  rw [h.ledger.equityAt_eq h.matching hfx h.rate, h.equity]

end

/-! ### The log only grows -/

section
variable (pb : PaperBroker)

theorem step_keeps_start (s : Store × List (FillRow × Decimal)) (call : Market × OrderIntent) :
    s.2 <+: (step pb s call).2 := by
  unfold step
  split
  · exact List.prefix_append ..
  · exact List.prefix_rfl

theorem foldl_step_keeps_start (calls : List (Market × OrderIntent)) (s : Store × List (FillRow × Decimal)) :
    s.2 <+: (calls.foldl (step pb) s).2 := by
  induction calls generalizing s with
  | nil => exact List.prefix_rfl
  | cons call rest ih => exact (step_keeps_start pb s call).trans (ih (step pb s call))

/-- **No free money on paper**: while the quotes stand still, the equity a snapshot reports is
the starting cash less the half spreads and the charges of the fills so far. None of these is
negative, so no sequence of orders ever raises it. -/
theorem no_free_money {start : Decimal} {st₀ : Store} {q : StillQuotes} {m : Market}
    (calls more : List (Market × OrderIntent)) (hstart : 0 ≤ start) (hfresh : Fresh start st₀)
    (hrates : pb.costModel.SellRatesNonneg) (hpos : 0 < q.usdKrw)
    (hlast : st₀.lastUsdKrw.getD 1400 = q.usdKrw) (hm : ∀ fx, m.fx = some fx → fx = q.usdKrw)
    (hcalls : ∀ call ∈ calls ++ more, Steady pb q call) :
    let log := (pb.run st₀ calls).2
    (equityAt q m (pb.after st₀ calls) = start - (log.map q.friction).sum ∧
      ∀ e ∈ log, 0 ≤ q.friction e) ∧
      equityAt q m (pb.after st₀ (calls ++ more)) ≤ equityAt q m (pb.after st₀ calls) := by
  intro log
  have hfirst : Standing q start (pb.run st₀ calls) :=
    (hfresh.standing hstart hlast).run (fun call hc => hcalls call (List.mem_append_left _ hc)) hrates hpos
  have hrest : Standing q start (more.foldl (step pb) (pb.run st₀ calls)) :=
    hfirst.run (fun call hc => hcalls call (List.mem_append_right _ hc)) hrates hpos
  have hrun : pb.run st₀ (calls ++ more) = more.foldl (step pb) (pb.run st₀ calls) :=
    List.foldl_append ..
  have hequity : equityAt q m (pb.after st₀ calls) = start - (log.map q.friction).sum := by
    rw [← run_store]
    exact hfirst.equityAt_eq hm
  refine ⟨⟨hequity, hfirst.friction⟩, ?_⟩
  rw [← run_store, hrun, hrest.equityAt_eq hm, hequity]
  obtain ⟨later, hlater⟩ := foldl_step_keeps_start pb more (pb.run st₀ calls)
  have hnonneg : 0 ≤ (later.map q.friction).sum := List.sum_nonneg fun x hx => by
    obtain ⟨e, he, rfl⟩ := List.mem_map.mp hx
    exact hrest.friction e (hlater ▸ List.mem_append_right _ he)
  rw [← hlater, List.map_append, List.sum_append]
  show start - ((log.map q.friction).sum + _) ≤ _
  linarith

end

/-! ### Round trips -/

/-- A mark of 10,000 for everything, in a spread of 100. -/
def flatQuotes : StillQuotes := ⟨fun _ => 10000, 1400⟩

def spreadQuote (orderId : String) : Market where
  book := some (some 10050, some 9950)
  last := some 10000
  fx := none
  orderId := orderId
  now := ⟨⟨2026, 8, 17⟩, 20000⟩

theorem spreadQuote_steady (orderId : String) (side : Side) (qty : Decimal) :
    Steady {} flatQuotes (spreadQuote orderId, marketOrder side qty) := by
  refine ⟨⟨?_, ?_, ?_, nofun⟩, salesPay_kr (show countryOf "069500" = .KR by decide)⟩
  · rintro b ⟨⟩ px ⟨⟩ -
    norm_num [flatQuotes]
  · rintro b ⟨⟩ px ⟨⟩ -
    norm_num [flatQuotes]
  · rintro px ⟨⟩
    rfl

theorem defaults_sellRates : CostModel.defaults.SellRatesNonneg := by
  constructor <;> decide +kernel

/-- Buying ten and selling them again costs the spread and the charges. -/
theorem no_free_money_round_trip :
    let calls := [(spreadQuote "paper-1", marketOrder .BUY 10)]
    let back := [(spreadQuote "paper-2", marketOrder .SELL 10)]
    equityAt flatQuotes (spreadQuote "") (({} : PaperBroker).after (reset 1000000 {}) (calls ++ back)) ≤
      equityAt flatQuotes (spreadQuote "") (({} : PaperBroker).after (reset 1000000 {}) calls) := by
  have hrate : ∀ fx, ({} : Store).lastUsdKrw = some fx → 0 < fx := by
    intro fx h
    cases h
  have hfx : ∀ fx, (spreadQuote "").fx = some fx → fx = flatQuotes.usdKrw := by
    intro fx h
    cases h
  refine (no_free_money {} _ _ (by norm_num) (fresh_reset 1000000 hrate) defaults_sellRates
    (by norm_num [flatQuotes]) rfl hfx ?_).2
  intro call hcall
  rcases List.mem_append.mp hcall with hcall | hcall
  all_goals
    rw [List.mem_singleton.mp hcall]
    exact spreadQuote_steady _ _ _

end PaperBroker
end Tqt
