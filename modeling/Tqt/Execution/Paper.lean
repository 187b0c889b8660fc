import Tqt.Backtest.Costs
import Tqt.Data.Store
import Tqt.Execution.Broker

/-! The paper broker: simulated fills against live quotes.

`attempt` is `submit` up to its outcome: it fails before writing anything, raises on a
duplicate order id with its transaction rolled back, or trades. A `Trade` is what the
transaction then writes (`book`): cash, position, one order and one fill. What an
attempt can do is said once, in `attempt_cases`. -/
namespace Tqt

/-- What the market and the clock answer during one call; `none` is a failed lookup. The
book is its best ask and its best bid. -/
structure Market where
  book : Option (Option Decimal × Option Decimal)
  last : Option Decimal
  fx : Option Decimal
  orderId : String
  now : Instant

structure PaperBroker where
  costModel : CostModel := CostModel.defaults
  etfSymbols : List Symbol := []

/-- A fill about to be written, at `px` in the instrument's currency and `fx` to KRW. -/
structure Trade where
  intent : OrderIntent
  px : Decimal
  source : String
  qty : Decimal
  fx : Decimal
  cost : TradeCost
  orderId : String
  now : Instant

namespace Trade

def symbol (t : Trade) : Symbol := t.intent.symbol

def side (t : Trade) : Side := t.intent.side

def currency (t : Trade) : Currency := (countryOf t.symbol).currency

def grossKrw (t : Trade) : Decimal := t.px * t.qty * t.fx

def costKrw (t : Trade) : Decimal := t.cost.total * t.fx

/-- What the trade does to the cash. -/
def cashKrw (t : Trade) : Decimal :=
  match t.side with
  | .BUY => -(t.grossKrw + t.costKrw)
  | .SELL => t.grossKrw - t.costKrw

/-- The quantity it moves. -/
def signed (t : Trade) : Decimal :=
  match t.side with
  | .BUY => t.qty
  | .SELL => -t.qty

def orderRow (t : Trade) : OrderRow where
  clientOrderId := some t.orderId
  strategy := t.intent.strategy
  symbol := t.symbol
  side := t.side
  orderType := t.intent.orderType
  quantity := t.qty
  price := some t.px
  currency := t.currency
  status := "FILLED"
  filledQuantity := t.qty
  avgFillPrice := some t.px
  commission := some t.cost.commission
  tax := some t.cost.tax
  submittedAt := t.now
  updatedAt := t.now
  reason := t.intent.reason ++ " [px=" ++ t.source ++ "]"

def fillRow (t : Trade) : FillRow where
  broker := .paper
  orderId := t.orderId
  symbol := t.symbol
  side := t.side
  quantity := t.qty
  price := t.px
  commission := t.cost.commission
  tax := t.cost.tax + t.cost.regulatory + t.cost.fx
  currency := t.currency
  filledAt := t.now
  strategy := t.intent.strategy

def result (t : Trade) : OrderResult where
  ok := true
  symbol := t.symbol
  side := t.side
  orderId := some t.orderId
  filledQuantity := t.qty
  fillPrice := some t.px
  commission := t.cost.commission
  tax := t.cost.tax + t.cost.regulatory + t.cost.fx
  currency := t.currency
  status := "FILLED"
  reason := t.intent.reason

end Trade

/-- How an attempt ends. -/
inductive Outcome where
  | failed (error : String)
  | raised
  | traded (t : Trade)

namespace PaperBroker

/-! ### The account in the store -/

def cash (st : Store) : Decimal := st.cash.getD (.paper, .KRW) 0

def ensureCash (starting : Decimal) (st : Store) : Store :=
  { st with cash := st.cash.setDefault (.paper, .KRW) starting }

/-- Wipe the paper account. Never touches live rows. -/
def reset (starting : Decimal) (st : Store) : Store :=
  ensureCash starting
    { st with
      orders := st.orders.filter fun k _ => k.1 ≠ .paper
      fills := st.fills.filter fun f => f.broker ≠ .paper
      positions := st.positions.filter fun k _ => k.1 ≠ .paper
      equity := st.equity.filter fun k _ => k.1 ≠ .paper
      cash := st.cash.filter fun k _ => k.1 ≠ .paper }

/-- The positions with a quantity. -/
def positions (st : Store) : Dict Symbol Position :=
  ((st.positions.row .paper).filter fun _ row => 0 < row.quantity).mapValues fun sym row =>
    ⟨sym, row.quantity, row.avgPrice, row.currency⟩

/-- The row of a position: a new one, or the old one updated. -/
def rowOf (pos : Position) (strategy : String) (now : Instant) : Option PositionRow → PositionRow
  | none => ⟨pos.quantity, pos.avgPrice, pos.currency, strategy, now, now⟩
  | some row =>
    { row with
      quantity := pos.quantity
      avgPrice := pos.avgPrice
      currency := pos.currency
      updatedAt := now }

/-- `_write_position`: an empty one is deleted. -/
def writePosition (pos : Position) (strategy : String) (now : Instant) (st : Store) : Store :=
  let key := (BrokerName.paper, pos.symbol)
  { st with
    positions :=
      if pos.quantity ≤ 0 then st.positions.erase key
      else st.positions.insert key (rowOf pos strategy now (st.positions.get? key)) }

/-! ### Submitting -/

section Submit
variable (pb : PaperBroker) (m : Market) (intent : OrderIntent) (st : Store)

/-- Cross the real spread; fall back to the last trade if the book is empty. -/
def executionPrice : Option Decimal × String :=
  let crossed := (m.book.bind fun b => if intent.side = .BUY then b.1 else b.2).filter (· ≠ 0)
  match crossed with
  | some px => (some px, "book")
  | none => (m.last, if (m.last.filter (· ≠ 0)).isSome then "last" else "none")

/-- `snapshot().usd_krw`: the live rate, remembered, or the last one remembered. -/
def refreshFx : Store × Decimal :=
  match m.fx with
  | some fx => ({ st with lastUsdKrw := some fx }, fx)
  | none => (st, st.lastUsdKrw.getD 1400)

/-- `snapshot`, with the marks of the positions where their lookup succeeds. -/
def snapshot (marks : Option (List (Symbol × Decimal))) : Store × AccountSnapshot :=
  let rate := refreshFx m st
  (rate.1,
    { cashKrw := cash st
      positions := positions st
      usdKrw := rate.2
      prices := if (positions st).entries.isEmpty then ∅ else Dict.ofList (marks.getD []) })

/-- The rate a symbol is converted at. -/
def fxFor : Store × Decimal :=
  if countryOf intent.symbol = .US then refreshFx m st else (st, 1)

/-- The quantity to fill, or why there is none. -/
def sizeOf (px : Decimal) (held : Option Position) : Except String Decimal :=
  match intent.quantity.or (intent.orderAmount.map (· / px)) with
  | none => .error "no quantity"
  | some raw =>
    let qty := wholeInKr intent.symbol raw
    if qty ≤ 0 then .error "quantity rounds to zero"
    else match intent.side with
      | .BUY => .ok qty
      | .SELL =>
        let qty := min qty (held.elim 0 Position.quantity)
        if qty ≤ 0 then .error "no position to sell" else .ok qty

def tradeOf (px : Decimal) (source : String) (fx qty : Decimal) : Trade where
  intent := intent
  px := px
  source := source
  qty := qty
  fx := fx
  cost := pb.costModel.costOf intent.side (countryOf intent.symbol) px qty
    (pb.etfSymbols.contains intent.symbol) false
  orderId := m.orderId
  now := m.now

/-- The position after a trade, at the blended price after a buy. -/
def positionAfter (t : Trade) (held : Option Position) : Position :=
  let prevQty := held.elim 0 Position.quantity
  let prevAvg := held.elim 0 Position.avgPrice
  match t.side with
  | .BUY => ⟨t.symbol, prevQty + t.qty,
      (prevAvg * prevQty + t.px * t.qty) / (prevQty + t.qty), t.currency⟩
  | .SELL => ⟨t.symbol, prevQty - t.qty, prevAvg, t.currency⟩

/-- The transaction: cash, position, order and fill. `_set_cash` updates a row, it adds
none. -/
def book (t : Trade) (st : Store) : Store :=
  let held := (positions st).get? t.symbol
  let st' := writePosition (positionAfter t held) t.intent.strategy t.now st
  { st' with
    cash := if (st.cash.get? (.paper, .KRW)).isSome
      then st.cash.insert (.paper, .KRW) (cash st + t.cashKrw) else st.cash
    orders := st.orders.insert (.paper, t.orderId) t.orderRow
    fills := st.fills ++ [t.fillRow] }

def insufficient (t : Trade) (st : Store) : String :=
  "insufficient paper cash: need " ++ thousands (t.grossKrw + t.costKrw) ++ " have " ++
    thousands (cash st)

def attempt : Store × Outcome :=
  match executionPrice m intent with
  | (none, _) => (st, .failed "no market price available")
  | (some px, source) =>
    if px ≤ 0 then (st, .failed "no market price available")
    else
      let rate := fxFor m intent st
      let st := rate.1
      match sizeOf intent px ((positions st).get? intent.symbol) with
      | .error why => (st, .failed why)
      | .ok qty =>
        let t := tradeOf pb m intent px source rate.2 qty
        if intent.side = .BUY ∧ cash st < t.grossKrw + t.costKrw then (st, .failed (insufficient t st))
        else if (st.orders.get? (.paper, t.orderId)).isSome then (st, .raised)
        else (book t st, .traded t)

/-- `submit`: the store and the result, `none` where it raises. -/
def submit : Store × Option OrderResult :=
  match pb.attempt m intent st with
  | (st, .failed why) =>
    (st, some { ok := false, symbol := intent.symbol, side := intent.side, error := some why })
  | (st, .raised) => (st, none)
  | (st, .traded t) => (st, some t.result)

end Submit

/-! ### What an attempt can do -/

/-- The four tables of the ledger are left alone. -/
structure SameLedger (st st' : Store) : Prop where
  cash : st'.cash = st.cash
  positions : st'.positions = st.positions
  orders : st'.orders = st.orders
  fills : st'.fills = st.fills

/-- A trade an attempt may book on `st`, at the rate `fx`. -/
structure Feasible (pb : PaperBroker) (m : Market) (intent : OrderIntent) (st : Store) (fx : Decimal)
    (t : Trade) : Prop where
  made : ∃ px source qty, t = tradeOf pb m intent px source fx qty
  price : (executionPrice m intent).1 = some t.px ∧ 0 < t.px
  positive : 0 < t.qty
  whole : countryOf intent.symbol = .KR →
    (∀ pos, (positions st).get? intent.symbol = some pos → Whole pos.quantity) → Whole t.qty
  affordable : intent.side = .BUY → t.grossKrw + t.costKrw ≤ cash st
  covered : intent.side = .SELL →
    ∃ pos, (positions st).get? intent.symbol = some pos ∧ t.qty ≤ pos.quantity
  fresh : st.orders.get? (.paper, t.orderId) = none

section Attempt
variable (pb : PaperBroker) (m : Market) (intent : OrderIntent) (st : Store)

theorem refreshFx_switch : (refreshFx m st).1.killSwitch = st.killSwitch := by
  unfold refreshFx
  split <;> rfl

theorem fxFor_same : SameLedger st (fxFor m intent st).1 := by
  unfold fxFor refreshFx
  split
  · split <;> exact ⟨rfl, rfl, rfl, rfl⟩
  · exact ⟨rfl, rfl, rfl, rfl⟩

/-- What `sizeOf` answers is positive, whole for a KR symbol and covered for a sale. -/
theorem sizeOf_ok {px qty : Decimal} {held : Option Position} (h : sizeOf intent px held = .ok qty) :
    0 < qty ∧
      (countryOf intent.symbol = .KR → (∀ pos, held = some pos → Whole pos.quantity) → Whole qty) ∧
      (intent.side = .SELL → ∃ pos, held = some pos ∧ qty ≤ pos.quantity) := by
  unfold sizeOf at h
  split at h
  · cases h
  · next raw _ =>
    simp only at h
    split at h
    · cases h
    · next hpos =>
      cases hs : intent.side with
      | BUY =>
        simp only [hs] at h
        cases h
        exact ⟨not_le.mp hpos, fun hkr _ => wholeInKr_whole hkr raw, nofun⟩
      | SELL =>
        simp only [hs] at h
        split at h
        · cases h
        · next hmin =>
          cases h
          cases held with
          | none => exact absurd (min_le_right _ _) hmin
          | some pos =>
            exact ⟨not_le.mp hmin,
              fun hkr hw => (wholeInKr_whole hkr raw).min (hw pos rfl), fun _ =>
              ⟨pos, rfl, min_le_right _ _⟩⟩

/-- An attempt that books nothing: at most the rate is remembered. -/
structure Idle (r : Store × Outcome) : Prop where
  untraded : ∀ t, r.2 ≠ .traded t
  store : r.1 = st ∨ r.1 = (fxFor m intent st).1

variable {m intent st} in
theorem Idle.failed {st' : Store} (h : st' = st ∨ st' = (fxFor m intent st).1) (why : String) :
    Idle m intent st (st', .failed why) := by
  refine ⟨?_, h⟩
  intro t ht
  cases ht

variable {m intent st} in
theorem Idle.raised {st' : Store} (h : st' = st ∨ st' = (fxFor m intent st).1) :
    Idle m intent st (st', .raised) := by
  refine ⟨?_, h⟩
  intro t ht
  cases ht

variable {m intent st} in
theorem Idle.same {r : Store × Outcome} (h : Idle m intent st r) : SameLedger st r.1 := by
  rcases h.store with hst | hst
  · rw [hst]
    exact ⟨rfl, rfl, rfl, rfl⟩
  · rw [hst]
    exact fxFor_same m intent st

/-- **What an attempt can do**: book nothing, or one feasible trade. -/
theorem attempt_cases {r : Store × Outcome} (h : pb.attempt m intent st = r) :
    Idle m intent st r ∨
      ∃ t, Feasible pb m intent (fxFor m intent st).1 (fxFor m intent st).2 t ∧
        r = (book t (fxFor m intent st).1, .traded t) := by
  unfold attempt at h
  split at h
  · subst h
    exact .inl (.failed (.inl rfl) _)
  · next px source hpx =>
    by_cases hp : px ≤ 0
    · rw [if_pos hp] at h
      subst h
      exact .inl (.failed (.inl rfl) _)
    · rw [if_neg hp] at h
      cases hqty : sizeOf intent px ((positions (fxFor m intent st).1).get? intent.symbol) with
      | error why =>
        simp only [hqty] at h
        subst h
        exact .inl (.failed (.inr rfl) why)
      | ok qty =>
        simp only [hqty] at h
        generalize ht : tradeOf pb m intent px source (fxFor m intent st).2 qty = t at h
        by_cases hcash : intent.side = .BUY ∧ cash (fxFor m intent st).1 < t.grossKrw + t.costKrw
        · rw [if_pos hcash] at h
          subst h
          exact .inl (.failed (.inr rfl) _)
        · rw [if_neg hcash] at h
          by_cases horder : ((fxFor m intent st).1.orders.get? (.paper, t.orderId)).isSome = true
          · rw [if_pos horder] at h
            subst h
            exact .inl (.raised (.inr rfl))
          · rw [if_neg horder] at h
            subst h
            refine .inr ⟨t, ?_, rfl⟩
            obtain ⟨hpos, hwhole, hcovered⟩ := sizeOf_ok intent hqty
            rw [Option.not_isSome_iff_eq_none] at horder
            subst ht
            exact ⟨⟨px, source, qty, rfl⟩, ⟨by rw [hpx]; rfl, not_le.mp hp⟩, hpos, hwhole,
              fun hs => not_lt.mp fun hlt => hcash ⟨hs, hlt⟩, hcovered, horder⟩

/-- A call leaves the kill switch alone. -/
theorem submit_switch : (pb.submit m intent st).1.killSwitch = st.killSwitch := by
  have hrate : (fxFor m intent st).1.killSwitch = st.killSwitch := by
    unfold fxFor
    split
    · exact refreshFx_switch m st
    · rfl
  have hattempt : (pb.attempt m intent st).1.killSwitch = st.killSwitch := by
    rcases pb.attempt_cases m intent st rfl with hidle | ⟨t, -, hbook⟩
    · rcases hidle.store with hst | hst
      · rw [hst]
      · rw [hst, hrate]
    · rw [hbook]
      exact hrate
  unfold submit
  generalize pb.attempt m intent st = out at hattempt
  rcases out with ⟨st', why | _ | t⟩ <;> exact hattempt

end Attempt

end PaperBroker
end Tqt
