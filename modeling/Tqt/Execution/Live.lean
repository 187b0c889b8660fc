import Tqt.Data.Store
import Tqt.Execution.Broker
import Tqt.Tick
import Tqt.Toss.Client

/-! The live broker: real orders at the exchange, an audit log in the store.

`submit` is cut where the source's own helpers cut it: `prepare` sizes and prices the
order or refuses it, `createOrder` sends it, `recordSubmission` writes the row,
`awaitFill` polls, `recordFinal` writes what became of it. What a call may do to the
store and may answer is said once, in `submit_cases`. -/
namespace Tqt
open TossClient

/-- An order as the exchange reports it. -/
structure Execution where
  filledQuantity : Decimal
  averageFilledPrice : Option Decimal := none
  commission : Option Decimal := none
  tax : Option Decimal := none
  filledAt : Option Instant := none
deriving DecidableEq

structure Order where
  orderId : String
  symbol : Symbol
  side : Side
  orderType : OrderType
  status : String
  price : Option Decimal := none
  quantity : Decimal
  currency : Currency
  orderedAt : Instant
  execution : Option Execution := none
deriving DecidableEq

def terminalOrderStatuses : List String :=
  ["FILLED", "CANCELED", "REJECTED", "REPLACED", "CANCEL_REJECTED", "REPLACE_REJECTED"]

namespace Order

def isTerminal (o : Order) : Bool := terminalOrderStatuses.contains o.status

def filledQuantity (o : Order) : Decimal :=
  match o.execution with
  | some ex => ex.filledQuantity
  | none => 0

end Order

/-- A decimal that is present and not zero. -/
def truthy (x : Option Decimal) : Option Decimal := x.filter (· ≠ 0)

structure HoldingItem where
  symbol : Symbol
  currency : Currency
  quantity : Decimal
  lastPrice : Decimal
  averagePurchasePrice : Decimal
deriving DecidableEq

structure LiveBroker where
  etfSymbols : List Symbol := []
  confirmHighValue : Bool := false

/-- What the API answers during one submission: the sellable quantity, the attempts of the
order request, the polls of the order. -/
structure Answers where
  sellable : Except TossError Decimal
  attempts : ℕ → Attempt OrderAck
  polls : ℕ → Except TossError Order

/-- How a submission ends. -/
inductive Submitted where
  | returned (result : OrderResult)
  | raised (message : String)
deriving DecidableEq

namespace LiveBroker

def fillPollAttempts : ℕ := 5

/-! ### The account -/

/-- The holdings that have a quantity. -/
def owned (items : List HoldingItem) : List HoldingItem := items.filter fun item => 0 < item.quantity

def positionsOf (items : List HoldingItem) : Dict Symbol Position :=
  Dict.ofList ((owned items).map fun item =>
    (item.symbol, ⟨item.symbol, item.quantity, item.averagePurchasePrice, item.currency⟩))

/-- USD cash is left out where its lookup fails. -/
def snapshot (items : List HoldingItem) (fx krw : Decimal) (usd : Except TossError Decimal) :
    AccountSnapshot where
  cashKrw := match usd with
    | .ok amount => krw + amount * fx
    | .error _ => krw
  positions := positionsOf items
  usdKrw := fx
  prices := Dict.ofList ((owned items).map fun item => (item.symbol, item.lastPrice))

/-- `sellable`: nothing, where the lookup fails. -/
def sellable (answer : Except TossError Decimal) : Decimal :=
  match answer with
  | .ok qty => qty
  | .error _ => 0

/-! ### One submission -/

/-- A sale trimmed to what is sellable. -/
def trim (symbol : Symbol) (qty avail : Decimal) : Decimal :=
  if avail < qty then wholeInKr symbol avail else qty

/-- A LIMIT price on its tick. -/
def limitPrice (b : LiveBroker) (intent : OrderIntent) : Option Decimal :=
  if intent.orderType = .LIMIT then
    intent.price.map fun p => roundToTick p (countryOf intent.symbol)
      (b.etfSymbols.contains intent.symbol) (some intent.side)
  else intent.price

/-- The quantity and the price that are sent, or why nothing is. -/
def prepare (b : LiveBroker) (intent : OrderIntent) (answer : Except TossError Decimal) :
    Except String (Option Decimal × Option Decimal) :=
  let price := b.limitPrice intent
  match intent.quantity with
  | none => .ok (none, price)
  | some requested =>
    let qty := wholeInKr intent.symbol requested
    if countryOf intent.symbol = .KR ∧ qty ≤ 0 then .error "quantity rounds to zero"
    else
      match intent.side with
      | .BUY => .ok (some qty, price)
      | .SELL =>
        let avail := sellable answer
        if avail ≤ 0 then .error "sellable quantity is 0"
        else .ok (some (trim intent.symbol qty avail), price)

def newOrder (b : LiveBroker) (intent : OrderIntent) (clientOrderId : String)
    (sent : Option Decimal × Option Decimal) : NewOrder where
  symbol := intent.symbol
  side := intent.side
  orderType := intent.orderType
  quantity := sent.1
  price := sent.2
  orderAmount := intent.orderAmount
  clientOrderId := some clientOrderId
  confirmHighValue := b.confirmHighValue

def refused (intent : OrderIntent) (error : String) : OrderResult where
  ok := false
  symbol := intent.symbol
  side := intent.side
  error := some error

/-- The text a failed request leaves in the result. -/
def errorText (e : TossError) : String :=
  if e.kind = .orderRejected then e.code.getD "None" ++ ": " ++ e.message else e.text

def submissionRow (intent : OrderIntent) (clientOrderId : String)
    (sent : Option Decimal × Option Decimal) (now : Instant) : OrderRow where
  clientOrderId := some clientOrderId
  strategy := intent.strategy
  symbol := intent.symbol
  side := intent.side
  orderType := intent.orderType
  quantity := (sent.1.orElse fun _ => intent.orderAmount).getD 0
  price := sent.2
  currency := (countryOf intent.symbol).currency
  status := "SUBMITTED"
  submittedAt := now
  updatedAt := now
  reason := intent.reason

/-- `_record_submission`. -/
def recordSubmission (orderId : String) (row : OrderRow) (st : Store) : Store :=
  { st with orders := st.orders.insert (.live, orderId) row }

/-- `_await_fill` with so many polls left. -/
def awaitFillFrom (polls : ℕ → Except TossError Order) : ℕ → ℕ → Option Order
  | 0, _ => none
  | left + 1, n =>
    match polls n with
    | .error _ => none
    | .ok order => if order.isTerminal then some order else awaitFillFrom polls left (n + 1)

def awaitFill (polls : ℕ → Except TossError Order) : Option Order :=
  awaitFillFrom polls fillPollAttempts 0

def pendingResult (intent : OrderIntent) (orderId : String) : OrderResult where
  ok := true
  symbol := intent.symbol
  side := intent.side
  orderId := some orderId
  currency := (countryOf intent.symbol).currency
  status := "PENDING"
  reason := intent.reason

def rejectedStatuses : List String := ["REJECTED", "CANCEL_REJECTED", "REPLACE_REJECTED"]

def finalResult (intent : OrderIntent) (final : Order) : OrderResult where
  ok := !rejectedStatuses.contains final.status
  symbol := intent.symbol
  side := intent.side
  orderId := some final.orderId
  filledQuantity := final.filledQuantity
  fillPrice := final.execution.bind Execution.averageFilledPrice
  commission := (final.execution.bind Execution.commission).getD 0
  tax := (final.execution.bind Execution.tax).getD 0
  currency := final.currency
  status := final.status
  reason := intent.reason

/-- The columns `_record_final` sets. -/
def finalRow (final : Order) (now : Instant) (row : OrderRow) : OrderRow :=
  { row with
    status := final.status
    filledQuantity := final.filledQuantity
    avgFillPrice := truthy (final.execution.bind Execution.averageFilledPrice)
    commission := truthy (final.execution.bind Execution.commission)
    tax := truthy (final.execution.bind Execution.tax)
    updatedAt := now }

/-- The fill of a final order, if something filled at a price. -/
def fillOf (intent : OrderIntent) (final : Order) (now : Instant) : Option FillRow :=
  match final.execution with
  | none => none
  | some ex =>
    match truthy ex.averageFilledPrice with
    | none => none
    | some px =>
      if 0 < ex.filledQuantity then
        some
          { broker := .live
            orderId := final.orderId
            symbol := final.symbol
            side := final.side
            quantity := ex.filledQuantity
            price := px
            commission := ex.commission.getD 0
            tax := ex.tax.getD 0
            currency := final.currency
            filledAt := ex.filledAt.getD now
            strategy := intent.strategy }
      else none

/-- `_record_final`: update the row, if it is there, and append the fill. -/
def recordFinal (intent : OrderIntent) (final : Order) (now : Instant) (st : Store) : Store :=
  { st with
    orders := match st.orders.get? (.live, final.orderId) with
      | some row => st.orders.insert (.live, final.orderId) (finalRow final now row)
      | none => st.orders
    fills := st.fills ++ (fillOf intent final now).toList }

/-- What `submit` does once the order is acknowledged. -/
def settleOrder (intent : OrderIntent) (orderId : String) (polls : ℕ → Except TossError Order)
    (now : Instant) (st : Store) : OrderResult × Store :=
  match awaitFill polls with
  | none => (pendingResult intent orderId, st)
  | some final => (finalResult intent final, recordFinal intent final now st)

/-- `submit`, with the fresh id it draws. -/
def submit (b : LiveBroker) (maxRetries : ℕ) (st : Store) (now : Instant) (intent : OrderIntent)
    (uuid : String) (api : Answers) : Submitted × Store :=
  let clientOrderId := "tqt-" ++ uuid
  match b.prepare intent api.sellable with
  | .error error => (.returned (refused intent error), st)
  | .ok sent =>
    match createOrder maxRetries (b.newOrder intent clientOrderId sent) clientOrderId
        api.attempts with
    | .raised message => (.raised message, st)
    | .error e => (.returned (refused intent (errorText e)), st)
    | .ack ack =>
      let recorded := recordSubmission ack.orderId (submissionRow intent clientOrderId sent now) st
      let settled := settleOrder intent ack.orderId api.polls now recorded
      (.returned settled.1, settled.2)

/-! ### Reconciling with the order history -/

/-- The row `sync_orders` inserts for an order it does not know. What the code stores as the time of
submission is the text of `ordered_at`, with the offset it came with; here it is its instant. -/
def historyRow (o : Order) (now : Instant) : OrderRow where
  symbol := o.symbol
  side := o.side
  orderType := o.orderType
  quantity := o.quantity
  price := truthy o.price
  currency := o.currency
  status := o.status
  filledQuantity := o.filledQuantity
  avgFillPrice := truthy (o.execution.bind Execution.averageFilledPrice)
  submittedAt := o.orderedAt
  updatedAt := now

/-- The columns `ON CONFLICT DO UPDATE` sets. -/
def reconciledRow (o : Order) (now : Instant) (row : OrderRow) : OrderRow :=
  { row with
    status := o.status
    filledQuantity := o.filledQuantity
    avgFillPrice := truthy (o.execution.bind Execution.averageFilledPrice)
    updatedAt := now }

def syncOrder (now : Instant) (st : Store) (o : Order) : Store :=
  match st.orders.get? (.live, o.orderId) with
  | none => { st with orders := st.orders.insert (.live, o.orderId) (historyRow o now) }
  | some row =>
    if row.status = o.status then st
    else { st with orders := st.orders.insert (.live, o.orderId) (reconciledRow o now row) }

/-- `sync_orders`, over the closed orders the history returned. -/
def syncOrders (now : Instant) (history : List Order) (st : Store) : Store :=
  history.foldl (syncOrder now) st

/-- A reconciled order touches its own row only. -/
theorem syncOrder_of_ne {now : Instant} {st : Store} {o : Order} {key : BrokerName × String}
    (h : key ≠ (.live, o.orderId)) : (syncOrder now st o).orders.get? key = st.orders.get? key := by
  unfold syncOrder
  split
  · exact Dict.get?_insert_of_ne _ _ h
  · split
    · rfl
    · exact Dict.get?_insert_of_ne _ _ h

/-! ### What a submission does -/

theorem trim_le {symbol : Symbol} {qty avail : Decimal} (h : 0 ≤ avail) :
    trim symbol qty avail ≤ qty := by
  unfold trim
  split
  · next hlt => exact (wholeInKr_le h symbol).trans hlt.le
  · exact le_rfl

/-- No more is sent than the intent asks for. -/
theorem prepare_le {b : LiveBroker} {intent : OrderIntent} {answer : Except TossError Decimal}
    {qty : Decimal} {price : Option Decimal} (h : b.prepare intent answer = .ok (some qty, price)) :
    ∃ requested, intent.quantity = some requested ∧ (0 ≤ requested → qty ≤ requested) := by
  unfold prepare at h
  cases hq : intent.quantity with
  | none => simp [hq] at h
  | some requested =>
    refine ⟨requested, rfl, fun hpos => ?_⟩
    have hwhole := wholeInKr_le hpos intent.symbol
    simp only [hq] at h
    split at h
    · cases h
    · cases hside : intent.side <;> simp only [hside] at h
      · cases h
        exact hwhole
      · split at h
        · cases h
        · next havail =>
          cases h
          exact (trim_le (not_le.mp havail).le).trans hwhole

/-- Everything `submit` can do: refuse, raise, give up, or record and settle. -/
theorem submit_cases (b : LiveBroker) (maxRetries : ℕ) (st : Store) (now : Instant)
    (intent : OrderIntent) (uuid : String) (api : Answers) :
    (∃ error, b.prepare intent api.sellable = .error error ∧
      b.submit maxRetries st now intent uuid api = (.returned (refused intent error), st)) ∨
    ∃ sent, b.prepare intent api.sellable = .ok sent ∧
      ((∃ message,
          createOrder maxRetries (b.newOrder intent ("tqt-" ++ uuid) sent) ("tqt-" ++ uuid)
            api.attempts = .raised message ∧
          b.submit maxRetries st now intent uuid api = (.raised message, st)) ∨
        (∃ e,
          createOrder maxRetries (b.newOrder intent ("tqt-" ++ uuid) sent) ("tqt-" ++ uuid)
            api.attempts = .error e ∧
          b.submit maxRetries st now intent uuid api =
            (.returned (refused intent (errorText e)), st)) ∨
        ∃ ack result st',
          createOrder maxRetries (b.newOrder intent ("tqt-" ++ uuid) sent) ("tqt-" ++ uuid)
            api.attempts = .ack ack ∧
          settleOrder intent ack.orderId api.polls now
            (recordSubmission ack.orderId (submissionRow intent ("tqt-" ++ uuid) sent now) st) =
            (result, st') ∧
          b.submit maxRetries st now intent uuid api = (.returned result, st')) := by
  unfold submit
  simp only
  cases b.prepare intent api.sellable with
  | error error => exact .inl ⟨error, rfl, rfl⟩
  | ok sent =>
    refine .inr ⟨sent, rfl, ?_⟩
    simp only
    cases createOrder maxRetries (b.newOrder intent ("tqt-" ++ uuid) sent) ("tqt-" ++ uuid)
        api.attempts with
    | raised message => exact .inl ⟨message, rfl, rfl⟩
    | error e => exact .inr (.inl ⟨e, rfl, rfl⟩)
    | ack ack => exact .inr (.inr ⟨ack, _, _, rfl, rfl, rfl⟩)

theorem submit_switch (b : LiveBroker) (maxRetries : ℕ) (st : Store) (now : Instant)
    (intent : OrderIntent) (uuid : String) (api : Answers) :
    (b.submit maxRetries st now intent uuid api).2.killSwitch = st.killSwitch := by
  rcases b.submit_cases maxRetries st now intent uuid api with
    ⟨_, -, h⟩ | ⟨_, -, ⟨_, -, h⟩ | ⟨_, -, h⟩ | ⟨ack, _, _, -, hsettle, h⟩⟩
  · rw [h]
  · rw [h]
  · rw [h]
  · rw [h]
    unfold settleOrder at hsettle
    cases hpoll : awaitFill api.polls <;> simp only [hpoll] at hsettle <;> cases hsettle <;> rfl

/-- The rows after the outcome of an order is recorded. -/
theorem get?_recordFinal (intent : OrderIntent) (final : Order) (now : Instant) (st : Store)
    (k : BrokerName × String) :
    (recordFinal intent final now st).orders.get? k =
      if k = (.live, final.orderId) then (st.orders.get? k).map (finalRow final now)
      else st.orders.get? k := by
  unfold recordFinal
  cases hrow : st.orders.get? (.live, final.orderId) with
  | none =>
    simp only
    split
    · next heq => rw [heq, hrow, Option.map_none]
    · rfl
  | some row =>
    simp only
    rw [Dict.get?_insert]
    split
    · next heq => rw [heq, hrow, Option.map_some]
    · rfl

/-- The outcome of an order leaves every row's client order id alone. -/
theorem recordFinal_client (intent : OrderIntent) (final : Order) (now : Instant) (st : Store)
    (k : BrokerName × String) :
    ((recordFinal intent final now st).orders.get? k).map OrderRow.clientOrderId =
      (st.orders.get? k).map OrderRow.clientOrderId := by
  rw [get?_recordFinal]
  split
  · rw [Option.map_map]
    rfl
  · rfl

theorem settleOrder_client (intent : OrderIntent) (orderId : String)
    (polls : ℕ → Except TossError Order) (now : Instant) (st : Store) (k : BrokerName × String) :
    ((settleOrder intent orderId polls now st).2.orders.get? k).map OrderRow.clientOrderId =
      (st.orders.get? k).map OrderRow.clientOrderId := by
  unfold settleOrder
  cases awaitFill polls with
  | none => rfl
  | some final => exact recordFinal_client intent final now st k

end LiveBroker
end Tqt
