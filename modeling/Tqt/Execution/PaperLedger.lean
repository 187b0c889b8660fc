import Tqt.Execution.Paper
import Tqt.Execution.PaperFills

/-! The paper ledger over any run of submissions.

`Ledger` ties the four tables together: the cash row is the starting cash plus what the
fills moved, a position is what the fills of its symbol add up to, and its average
price lies between two prices it was bought at since it was last flat. One attempt
preserves it (`ledger_attempt`), and so does a run (`ledger_run`). -/
namespace Tqt
namespace PaperBroker

/-! ### The invariant -/

/-- The stored quantity of a symbol, zero without a row. -/
def quantityOf (st : Store) (sym : Symbol) : Decimal :=
  (st.positions.get? (.paper, sym)).elim 0 PositionRow.quantity

/-- The tables of the paper account after the fills of `log`, each with the rate used. -/
structure Ledger (start : Decimal) (log : List (FillRow × Decimal)) (st : Store) : Prop where
  fills : paperFills st = log.map Prod.fst
  cash_row : st.cash.get? (.paper, .KRW) = some (start + (log.map cashMoved).sum)
  solvent : 0 ≤ start + (log.map cashMoved).sum
  quantity : ∀ sym, quantityOf st sym = netFilled sym (log.map Prod.fst)
  positive : ∀ sym row, st.positions.get? (.paper, sym) = some row → 0 < row.quantity
  whole : ∀ sym row, st.positions.get? (.paper, sym) = some row → countryOf sym = .KR →
    Whole row.quantity
  average : ∀ sym row, st.positions.get? (.paper, sym) = some row →
    Among row.avgPrice (boughtAt sym (log.map Prod.fst))
  rate : ∀ fx, st.lastUsdKrw = some fx → 0 < fx

/-- A sale pays for its charges at the price the call executes at. -/
def SalesPay (pb : PaperBroker) (m : Market) (intent : OrderIntent) : Prop :=
  intent.side = .SELL → ∀ px, (executionPrice m intent).1 = some px → 0 < px → ∀ qty, 0 < qty →
    (pb.costModel.costOf .SELL (countryOf intent.symbol) px qty
      (pb.etfSymbols.contains intent.symbol) false).total ≤ px * qty

@[simp] theorem rowOf_quantity (pos : Position) (strategy : String) (now : Instant)
    (old : Option PositionRow) : (rowOf pos strategy now old).quantity = pos.quantity := by
  cases old <;> rfl

@[simp] theorem rowOf_avgPrice (pos : Position) (strategy : String) (now : Instant)
    (old : Option PositionRow) : (rowOf pos strategy now old).avgPrice = pos.avgPrice := by
  cases old <;> rfl

theorem positionAfter_symbol (t : Trade) (held : Option Position) :
    (positionAfter t held).symbol = t.symbol := by
  unfold positionAfter
  split <;> rfl

/-- The position rows after a trade. -/
theorem get?_book (t : Trade) (st : Store) (sym : Symbol) :
    (book t st).positions.get? (.paper, sym) =
      if sym = t.symbol then
        if (positionAfter t ((positions st).get? t.symbol)).quantity ≤ 0 then none
        else some (rowOf (positionAfter t ((positions st).get? t.symbol)) t.intent.strategy t.now
          (st.positions.get? (.paper, t.symbol)))
      else st.positions.get? (.paper, sym) := by
  simp only [book, writePosition, positionAfter_symbol]
  by_cases hsym : sym = t.symbol
  · subst hsym
    split
    · simp [Dict.get?_erase]
    · simp
  · split <;> simp [Dict.get?_erase, Dict.get?_insert, hsym]

/-- A position is a row with a quantity. -/
theorem get?_positions (st : Store) (sym : Symbol) :
    (positions st).get? sym =
      ((st.positions.get? (.paper, sym)).filter fun row => 0 < row.quantity).map fun row =>
        ⟨sym, row.quantity, row.avgPrice, row.currency⟩ := by
  rw [positions, Dict.get?_mapValues, Dict.get?_filter, Dict.get?_row]

section Book
variable {pb : PaperBroker} {m : Market} {intent : OrderIntent} {st : Store} {fx : Decimal}
  {t : Trade} {start : Decimal} {log : List (FillRow × Decimal)}

theorem Feasible.intent_eq (h : Feasible pb m intent st fx t) : t.intent = intent := by
  obtain ⟨px, source, qty, rfl⟩ := h.made
  rfl

theorem Feasible.fx_eq (h : Feasible pb m intent st fx t) : t.fx = fx := by
  obtain ⟨px, source, qty, rfl⟩ := h.made
  rfl

theorem Feasible.symbol_eq (h : Feasible pb m intent st fx t) : t.symbol = intent.symbol :=
  congrArg OrderIntent.symbol h.intent_eq

theorem Feasible.side_eq (h : Feasible pb m intent st fx t) : t.side = intent.side :=
  congrArg OrderIntent.side h.intent_eq

/-- The charges in the fill row are all the charges there are. -/
theorem Feasible.cashMoved_eq (h : Feasible pb m intent st fx t) :
    cashMoved (t.fillRow, fx) = t.cashKrw := by
  obtain ⟨px, source, qty, rfl⟩ := h.made
  have hslip := pb.costModel.costOf_slippage intent.side (countryOf intent.symbol) px qty
    (pb.etfSymbols.contains intent.symbol)
  cases hs : intent.side <;>
    simp only [cashMoved, Trade.cashKrw, Trade.fillRow, Trade.side, Trade.grossKrw, Trade.costKrw,
      TradeCost.total, tradeOf, hs] at hslip ⊢ <;>
    rw [hslip] <;> ring

/-- What a trade leaves of the cash. -/
theorem Feasible.cash_nonneg (h : Feasible pb m intent st fx t) (hpay : SalesPay pb m intent)
    (hfx : 0 < fx) (hcash : 0 ≤ cash st) : 0 ≤ cash st + t.cashKrw := by
  cases hs : intent.side with
  | BUY =>
    have hside : t.side = .BUY := h.side_eq.trans hs
    rw [Trade.cashKrw, hside]
    linarith [h.affordable hs]
  | SELL =>
    have hside : t.side = .SELL := h.side_eq.trans hs
    have hcost := hpay hs t.px h.price.1 h.price.2 t.qty h.positive
    have htotal : t.cost.total ≤ t.px * t.qty := by
      obtain ⟨px, source, qty, rfl⟩ := h.made
      simpa [tradeOf, hs] using hcost
    have hle : t.costKrw ≤ t.grossKrw := mul_le_mul_of_nonneg_right htotal (h.fx_eq ▸ hfx.le)
    rw [Trade.cashKrw, hside]
    linarith

theorem Ledger.get?_positions (h : Ledger start log st) (sym : Symbol) :
    (positions st).get? sym = (st.positions.get? (.paper, sym)).map fun row =>
      ⟨sym, row.quantity, row.avgPrice, row.currency⟩ := by
  rw [PaperBroker.get?_positions]
  cases hrow : st.positions.get? (.paper, sym) with
  | none => rfl
  | some row => simp [Option.filter_some, h.positive sym row hrow]

theorem Ledger.cash_eq (h : Ledger start log st) : cash st = start + (log.map cashMoved).sum := by
  rw [cash, Dict.getD, h.cash_row]
  rfl

theorem Ledger.cash_book (hl : Ledger start log st) (t : Trade) :
    cash (PaperBroker.book t st) = cash st + t.cashKrw := by
  show (if (st.cash.get? (.paper, .KRW)).isSome
    then st.cash.insert (.paper, .KRW) (cash st + t.cashKrw) else st.cash).getD _ _ = _
  rw [if_pos (by rw [hl.cash_row]; rfl), Dict.getD_insert, if_pos rfl]

theorem Ledger.quantity_nonneg (h : Ledger start log st) (sym : Symbol) : 0 ≤ quantityOf st sym := by
  unfold quantityOf
  cases hrow : st.positions.get? (.paper, sym) with
  | none => exact le_rfl
  | some row => exact (h.positive sym row hrow).le

theorem Ledger.quantity_whole (h : Ledger start log st) {sym : Symbol} (hkr : countryOf sym = .KR) :
    Whole (quantityOf st sym) := by
  unfold quantityOf
  cases hrow : st.positions.get? (.paper, sym) with
  | none => exact Whole.zero
  | some row => exact h.whole sym row hrow hkr

/-- What the position the broker reads holds is what is stored. -/
theorem Ledger.held_quantity (h : Ledger start log st) (sym : Symbol) :
    ((positions st).get? sym).elim 0 Position.quantity = quantityOf st sym := by
  rw [h.get?_positions, quantityOf]
  cases st.positions.get? (.paper, sym) <;> rfl

/-- The quantity after a trade, and that it is not negative. -/
theorem Feasible.quantity_after (h : Feasible pb m intent st fx t) (hl : Ledger start log st) :
    (positionAfter t ((positions st).get? t.symbol)).quantity = quantityOf st t.symbol + t.signed ∧
      0 ≤ quantityOf st t.symbol + t.signed := by
  have hprev := hl.held_quantity t.symbol
  cases hs : intent.side with
  | BUY =>
    have hside : t.side = .BUY := h.side_eq.trans hs
    refine ⟨by simp only [positionAfter, hside, Trade.signed, hprev], ?_⟩
    rw [Trade.signed, hside]
    exact add_nonneg (hl.quantity_nonneg _) h.positive.le
  | SELL =>
    have hside : t.side = .SELL := h.side_eq.trans hs
    refine ⟨by simp only [positionAfter, hside, Trade.signed, hprev, sub_eq_add_neg], ?_⟩
    obtain ⟨pos, hpos, hqty⟩ := h.covered hs
    rw [h.symbol_eq.symm] at hpos
    rw [hpos] at hprev
    rw [Trade.signed, hside, ← hprev]
    show 0 ≤ pos.quantity + -t.qty
    linarith

/-- A row after a trade is the old row of another symbol, or holds the new position. -/
theorem Feasible.row_after (h : Feasible pb m intent st fx t) (hl : Ledger start log st)
    {sym : Symbol} {row : PositionRow} (hrow : (book t st).positions.get? (.paper, sym) = some row) :
    (sym ≠ t.symbol ∧ st.positions.get? (.paper, sym) = some row) ∨
      (sym = t.symbol ∧ 0 < quantityOf st t.symbol + t.signed ∧
        row.quantity = quantityOf st t.symbol + t.signed ∧
        row.avgPrice = (positionAfter t ((positions st).get? t.symbol)).avgPrice) := by
  rw [get?_book] at hrow
  by_cases hsym : sym = t.symbol
  · rw [if_pos hsym] at hrow
    split at hrow
    · cases hrow
    · next hpos =>
      cases hrow
      have hq := (h.quantity_after hl).1
      exact .inr ⟨hsym, by rw [← hq]; exact not_le.mp hpos, by simp [hq], by simp⟩
  · rw [if_neg hsym] at hrow
    exact .inl ⟨hsym, hrow⟩

theorem Feasible.quantityOf_book (h : Feasible pb m intent st fx t) (hl : Ledger start log st)
    (sym : Symbol) : quantityOf (book t st) sym =
      quantityOf st sym + if t.symbol = sym then t.signed else 0 := by
  obtain ⟨hafter, hnonneg⟩ := h.quantity_after hl
  by_cases hsym : sym = t.symbol
  · subst hsym
    rw [quantityOf, get?_book, if_pos rfl, if_pos rfl, hafter]
    split
    · next hle => exact le_antisymm hnonneg hle
    · simp [hafter]
  · rw [quantityOf, get?_book, if_neg hsym, if_neg (Ne.symm hsym), add_zero]
    rfl

/-- The average price after a trade. -/
theorem Feasible.average_after (h : Feasible pb m intent st fx t) (hl : Ledger start log st)
    (hpos : 0 < quantityOf st t.symbol + t.signed) :
    Among (positionAfter t ((positions st).get? t.symbol)).avgPrice
      (boughtAt t.symbol (log.map Prod.fst ++ [t.fillRow])) := by
  have hq := hl.quantity_nonneg t.symbol
  have hsince : (sinceFlat t.symbol (log.map Prod.fst)).1 = quantityOf st t.symbol := by
    rw [sinceFlat_quantity, hl.quantity]
  have hprev : 0 < quantityOf st t.symbol →
      Among (((positions st).get? t.symbol).elim 0 Position.avgPrice)
        (boughtAt t.symbol (log.map Prod.fst)) := by
    intro hheld
    rw [hl.get?_positions]
    cases hrow : st.positions.get? (.paper, t.symbol) with
    | none => simp [quantityOf, hrow] at hheld
    | some row => exact hl.average t.symbol row hrow
  have hrow : t.fillRow.symbol = t.symbol := rfl
  rw [boughtAt, sinceFlat_snoc, flatStep, if_pos hrow]
  cases hs : t.side with
  | BUY =>
    have hside : t.fillRow.side = .BUY := hs
    simp only [positionAfter, hs, hside, hl.held_quantity]
    exact Among.blend hq h.positive hprev
  | SELL =>
    have hside : t.fillRow.side = .SELL := hs
    rw [Trade.signed, hs] at hpos
    simp only [positionAfter, hs, hside]
    rw [if_neg]
    · exact hprev (by linarith [h.positive])
    · rw [hsince]
      show ¬ quantityOf st t.symbol - t.qty ≤ 0
      linarith

/-- **A feasible trade keeps the ledger.** -/
theorem Ledger.book (hl : Ledger start log st) (h : Feasible pb m intent st fx t)
    (hpay : SalesPay pb m intent) (hfx : 0 < fx) :
    Ledger start (log ++ [(t.fillRow, fx)]) (book t st) := by
  have hsum : start + ((log ++ [(t.fillRow, fx)]).map cashMoved).sum = cash st + t.cashKrw := by
    rw [List.map_append, List.sum_append, hl.cash_eq, List.map_singleton, List.sum_singleton,
      h.cashMoved_eq]
    ring
  have hfills : (log ++ [(t.fillRow, fx)]).map Prod.fst = log.map Prod.fst ++ [t.fillRow] := by
    rw [List.map_append, List.map_singleton]
  refine ⟨?_, ?_, ?_, fun sym => ?_, fun sym row hrow => ?_, fun sym row hrow hkr => ?_,
    fun sym row hrow => ?_, hl.rate⟩
  · rw [hfills, ← hl.fills, paperFills, paperFills]
    show (st.fills ++ [t.fillRow]).filter _ = _
    rw [List.filter_append, List.filter_cons_of_pos (by rfl), List.filter_nil]
  · rw [hsum]
    show (if (st.cash.get? (.paper, .KRW)).isSome
      then st.cash.insert (.paper, .KRW) (cash st + t.cashKrw) else st.cash).get? _ = _
    rw [if_pos (by rw [hl.cash_row]; rfl), Dict.get?_insert, if_pos rfl]
  · rw [hsum]
    exact h.cash_nonneg hpay hfx (hl.cash_eq ▸ hl.solvent)
  · rw [h.quantityOf_book hl, hfills, netFilled_snoc, ← hl.quantity]
    rfl
  · rcases h.row_after hl hrow with ⟨-, hold⟩ | ⟨-, hpos, hq, -⟩
    · exact hl.positive sym row hold
    · rw [hq]
      exact hpos
  · rcases h.row_after hl hrow with ⟨-, hold⟩ | ⟨rfl, -, hq, -⟩
    · exact hl.whole sym row hold hkr
    · have hqty : Whole t.qty := by
        apply h.whole (h.symbol_eq ▸ hkr)
        intro pos hpos
        rw [hl.get?_positions, Option.map_eq_some_iff] at hpos
        obtain ⟨old, hold, rfl⟩ := hpos
        exact hl.whole _ old hold (h.symbol_eq ▸ hkr)
      rw [hq, Trade.signed]
      cases t.side with
      | BUY => exact (hl.quantity_whole hkr).add hqty
      | SELL => exact sub_eq_add_neg (quantityOf st t.symbol) t.qty ▸
          (hl.quantity_whole hkr).sub hqty
  · rw [hfills]
    rcases h.row_after hl hrow with ⟨hsym, hold⟩ | ⟨rfl, hpos, -, havg⟩
    · have hne : ¬ t.fillRow.symbol = sym := fun heq => hsym heq.symm
      rw [boughtAt, sinceFlat_snoc, flatStep, if_neg hne]
      exact hl.average sym row hold
    · rw [havg]
      exact h.average_after hl hpos

theorem Ledger.same {st' : Store} (hl : Ledger start log st) (h : SameLedger st st')
    (hrate : ∀ fx, st'.lastUsdKrw = some fx → 0 < fx) : Ledger start log st' := by
  have hquantity : ∀ sym, quantityOf st' sym = quantityOf st sym := fun sym => by
    rw [quantityOf, quantityOf, h.positions]
  refine ⟨?_, by rw [h.cash]; exact hl.cash_row, hl.solvent, fun sym => ?_, ?_, ?_, ?_, hrate⟩
  · rw [paperFills, h.fills]
    exact hl.fills
  · rw [hquantity]
    exact hl.quantity sym
  · rw [h.positions]
    exact hl.positive
  · rw [h.positions]
    exact hl.whole
  · rw [h.positions]
    exact hl.average

/-- The rate a call converts at is positive, and so is the one it leaves behind. -/
theorem Ledger.fx_pos (hl : Ledger start log st) (hfx : ∀ fx, m.fx = some fx → 0 < fx)
    (intent : OrderIntent) : 0 < (fxFor m intent st).2 ∧
      ∀ fx, (fxFor m intent st).1.lastUsdKrw = some fx → 0 < fx := by
  unfold fxFor
  split
  · unfold refreshFx
    cases hm : m.fx with
    | none =>
      refine ⟨?_, hl.rate⟩
      cases hlast : st.lastUsdKrw with
      | none => norm_num
      | some fx => exact hl.rate fx hlast
    | some fx =>
      refine ⟨hfx fx hm, ?_⟩
      intro fx' hfx'
      cases hfx'
      exact hfx fx hm
  · exact ⟨one_pos, hl.rate⟩

end Book

/-! ### Runs of submissions -/

section Run
variable (pb : PaperBroker)

/-- One call: the store, and the log of the fills with the rates used. -/
def step (s : Store × List (FillRow × Decimal)) (call : Market × OrderIntent) :
    Store × List (FillRow × Decimal) :=
  match pb.attempt call.1 call.2 s.1 with
  | (st, .traded t) => (st, s.2 ++ [(t.fillRow, t.fx)])
  | (st, _) => (st, s.2)

def run (st : Store) (calls : List (Market × OrderIntent)) : Store × List (FillRow × Decimal) :=
  calls.foldl (step pb) (st, [])

/-- The store after some calls of `submit`. -/
def after (st : Store) (calls : List (Market × OrderIntent)) : Store :=
  calls.foldl (fun st call => (pb.submit call.1 call.2 st).1) st

theorem submit_store (m : Market) (intent : OrderIntent) (st : Store) :
    (pb.submit m intent st).1 = (pb.attempt m intent st).1 := by
  unfold submit
  split <;> next h => rw [h]

theorem step_store (s : Store × List (FillRow × Decimal)) (call : Market × OrderIntent) :
    (step pb s call).1 = (pb.submit call.1 call.2 s.1).1 := by
  rw [submit_store, step]
  split <;> next h => rw [h]

theorem run_store (st : Store) (calls : List (Market × OrderIntent)) :
    (pb.run st calls).1 = pb.after st calls := by
  have hfold : ∀ s : Store × List (FillRow × Decimal),
      (calls.foldl (step pb) s).1 = pb.after s.1 calls := by
    induction calls with
    | nil => exact fun _ => rfl
    | cons call rest ih =>
      intro s
      rw [List.foldl_cons, ih, step_store]
      rfl
  exact hfold (st, [])

/-- A paper account on which nothing has happened yet. -/
structure Fresh (start : Decimal) (st : Store) : Prop where
  cash_row : st.cash.get? (.paper, .KRW) = some start
  fills : paperFills st = []
  positions : ∀ sym, st.positions.get? (.paper, sym) = none
  rate : ∀ fx, st.lastUsdKrw = some fx → 0 < fx

/-- A reset account is fresh, whatever was in the store. -/
theorem fresh_reset (start : Decimal) {st : Store} (hrate : ∀ fx, st.lastUsdKrw = some fx → 0 < fx) :
    Fresh start (reset start st) := by
  refine ⟨?_, ?_, fun sym => ?_, hrate⟩
  · show ((st.cash.filter fun k _ => k.1 ≠ .paper).setDefault (.paper, .KRW) start).get? _ = _
    rw [Dict.get?_setDefault, if_pos rfl, Dict.get?_filter]
    cases st.cash.get? (.paper, .KRW) <;> rfl
  · simp [paperFills, reset, ensureCash]
  · show (st.positions.filter fun k _ => k.1 ≠ .paper).get? _ = _
    rw [Dict.get?_filter]
    cases st.positions.get? (.paper, sym) <;> rfl

theorem Fresh.ledger {start : Decimal} {st : Store} (h : Fresh start st) (hstart : 0 ≤ start) :
    Ledger start [] st := by
  refine ⟨h.fills, by simpa using h.cash_row, by simpa using hstart, fun sym => ?_, ?_, ?_, ?_, h.rate⟩
  · rw [quantityOf, h.positions]
    rfl
  all_goals
    intro sym row hrow
    rw [h.positions] at hrow
    cases hrow

/-- **One attempt preserves the ledger.** -/
theorem ledger_attempt {start : Decimal} {s : Store × List (FillRow × Decimal)}
    {call : Market × OrderIntent} (h : Ledger start s.2 s.1) (hpay : SalesPay pb call.1 call.2)
    (hfx : ∀ fx, call.1.fx = some fx → 0 < fx) :
    Ledger start (step pb s call).2 (step pb s call).1 := by
  obtain ⟨hpos, hrate⟩ := h.fx_pos hfx call.2
  have hrefreshed := h.same (fxFor_same call.1 call.2 s.1) hrate
  unfold step
  rcases pb.attempt_cases call.1 call.2 s.1 rfl with hidle | ⟨t, ht, heq⟩
  · have hkept : Ledger start s.2 (pb.attempt call.1 call.2 s.1).1 := by
      rcases hidle.store with hst | hst
      · rw [hst]
        exact h
      · rw [hst]
        exact hrefreshed
    split
    · next t heq => exact absurd (by rw [heq]) (hidle.untraded t)
    · next heq =>
      rw [heq] at hkept
      exact hkept
  · rw [heq]
    have hfx' : t.fx = (fxFor call.1 call.2 s.1).2 := ht.fx_eq
    simp only [hfx']
    exact hrefreshed.book ht hpay hpos

theorem ledger_run {start : Decimal} {calls : List (Market × OrderIntent)}
    (hcalls : ∀ call ∈ calls, SalesPay pb call.1 call.2 ∧ ∀ fx, call.1.fx = some fx → 0 < fx)
    {s : Store × List (FillRow × Decimal)} (h : Ledger start s.2 s.1) :
    Ledger start (calls.foldl (step pb) s).2 (calls.foldl (step pb) s).1 := by
  induction calls generalizing s with
  | nil => exact h
  | cons call rest ih =>
    obtain ⟨hpay, hfx⟩ := hcalls call (List.mem_cons_self ..)
    exact ih (fun c hc => hcalls c (List.mem_cons_of_mem call hc)) (ledger_attempt pb h hpay hfx)

/-- The order row and the fill row a successful call adds, and what they carry. -/
structure Recorded (st st' : Store) (r : OrderResult) (id : String) (row : OrderRow)
    (fill : FillRow) : Prop where
  orderId : r.orderId = some id
  fresh : st.orders.get? (.paper, id) = none
  orders : st'.orders = st.orders.insert (.paper, id) row
  fills : st'.fills = st.fills ++ [fill]
  fill_order : fill.broker = .paper ∧ fill.orderId = id
  quantity : row.quantity = r.filledQuantity ∧ row.filledQuantity = r.filledQuantity ∧
    fill.quantity = r.filledQuantity
  price : row.avgFillPrice = r.fillPrice ∧ some fill.price = r.fillPrice

/-- A call that raises or returns `ok=False` leaves the ledger alone; one that returns
`ok=True` adds one order and one fill. -/
theorem submit_cases (m : Market) (intent : OrderIntent) (st : Store) :
    match (pb.submit m intent st).2 with
    | none => SameLedger st (pb.submit m intent st).1
    | some r =>
      if r.ok then ∃ id row fill, Recorded st (pb.submit m intent st).1 r id row fill
      else SameLedger st (pb.submit m intent st).1 := by
  have hsame := fxFor_same m intent st
  rcases pb.attempt_cases m intent st rfl with hidle | ⟨t, ht, heq⟩
  · have hkept := hidle.same
    unfold submit
    generalize pb.attempt m intent st = outcome at hidle hkept
    obtain ⟨st', outcome⟩ := outcome
    cases outcome with
    | failed why => simpa using hkept
    | raised => exact hkept
    | traded t => exact absurd rfl (hidle.untraded t)
  · have hsubmit : pb.submit m intent st = (book t (fxFor m intent st).1, some t.result) := by
      rw [submit, heq]
    rw [hsubmit]
    refine ⟨t.orderId, t.orderRow, t.fillRow, rfl, ?_, ?_, ?_, ⟨rfl, rfl⟩, ⟨rfl, rfl, rfl⟩, rfl, rfl⟩
    · rw [← hsame.orders]
      exact ht.fresh
    · rw [← hsame.orders]
      rfl
    · rw [← hsame.fills]
      rfl

/-- **The paper ledger**, after any calls of `submit` on a fresh account: the cash is not
negative and is what the fills left of the starting cash, every position is what the
fills of its symbol add up to, positive where there is a row, whole in Korea, at an
average between its lowest and highest purchase since it was last flat; and the next
call either adds one order and one fill or leaves the ledger alone. -/
theorem paper_ledger {start : Decimal} {st₀ : Store} (calls : List (Market × OrderIntent))
    (hstart : 0 ≤ start) (hfresh : Fresh start st₀)
    (hcalls : ∀ call ∈ calls, SalesPay pb call.1 call.2 ∧ ∀ fx, call.1.fx = some fx → 0 < fx) :
    let st := pb.after st₀ calls
    let log := (pb.run st₀ calls).2
    (paperFills st = log.map Prod.fst ∧ 0 ≤ cash st ∧ cash st = start + (log.map cashMoved).sum) ∧
      (∀ sym, quantityOf st sym = netFilled sym (paperFills st)) ∧
      (∀ sym row, st.positions.get? (.paper, sym) = some row →
        0 < row.quantity ∧ (countryOf sym = .KR → Whole row.quantity) ∧
          Among row.avgPrice (boughtAt sym (paperFills st))) ∧
      ∀ m intent, match (pb.submit m intent st).2 with
        | none => SameLedger st (pb.submit m intent st).1
        | some r =>
          if r.ok then ∃ id row fill, Recorded st (pb.submit m intent st).1 r id row fill
          else SameLedger st (pb.submit m intent st).1 := by
  intro st log
  have hledger : Ledger start log st := by
    have h := ledger_run pb hcalls (s := (st₀, [])) (hfresh.ledger hstart)
    have hstore : (calls.foldl (step pb) (st₀, [])).1 = st := run_store pb st₀ calls
    rwa [hstore] at h
  refine ⟨⟨hledger.fills, hledger.cash_eq ▸ hledger.solvent, hledger.cash_eq⟩, fun sym => ?_,
    fun sym row hrow => ⟨hledger.positive sym row hrow, hledger.whole sym row hrow, ?_⟩,
    fun m intent => pb.submit_cases m intent st⟩
  · rw [hledger.fills]
    exact hledger.quantity sym
  · rw [hledger.fills]
    exact hledger.average sym row hrow

end Run

/-! ### Two trades -/

/-- A quote of a KR stock, the same on both sides of the book. -/
def quoted (px : Decimal) (orderId : String) : Market where
  book := some (some px, some px)
  last := none
  fx := none
  orderId := orderId
  now := ⟨⟨2026, 8, 17⟩, 20000⟩

def marketOrder (side : Side) (qty : Decimal) : OrderIntent := .market "069500" side qty "" ""

theorem salesPay_kr {m : Market} {intent : OrderIntent} (hkr : countryOf intent.symbol = .KR) :
    SalesPay {} m intent := by
  intro _ px _ hpx qty hqty
  rw [hkr]
  exact CostModel.sell_kr_total_le _ _ (CostModel.default_kr_rates _) hpx.le hqty.le

/-- Buy ten, sell four at a profit. -/
theorem paper_ledger_two_trades :
    let calls := [(quoted 10000 "paper-1", marketOrder .BUY 10),
      (quoted 11000 "paper-2", marketOrder .SELL 4)]
    let st := ({} : PaperBroker).after (reset 1000000 {}) calls
    quantityOf st "069500" = 6 ∧ 0 ≤ cash st := by
  have hrate : ∀ fx, ({} : Store).lastUsdKrw = some fx → 0 < fx := by
    intro fx h
    cases h
  refine ⟨by decide +kernel, ?_⟩
  refine (paper_ledger {} _ (by norm_num) (fresh_reset 1000000 hrate) ?_).1.2.1
  intro call hcall
  rcases List.mem_cons.mp hcall with rfl | hcall
  · exact ⟨salesPay_kr (by decide), nofun⟩
  · rw [List.mem_singleton.mp hcall]
    exact ⟨salesPay_kr (by decide), nofun⟩

end PaperBroker
end Tqt
