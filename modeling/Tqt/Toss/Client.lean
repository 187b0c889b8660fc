import Tqt.Toss.Errors

/-! The request path of the Toss client.

What `_request` does with one attempt is `handle`: return, raise, or try again. The
loop around it is `request`, over any schedule of what its attempts meet. `createOrder`
checks its arguments, builds one body and sends it through that loop as an idempotent
request. -/
namespace Tqt

/-- What one attempt sees. -/
inductive Reply (ρ : Type) where
  /-- `httpx.HTTPError`: the request or the response was lost. -/
  | transport (detail : String)
  | response (r : Response ρ)

/-- What `_request` does next. `again` raises its error if no attempt is left. -/
inductive Decision (ρ : Type) where
  | done (result : Option ρ)
  | fail (e : TossError)
  | again (e : TossError)

namespace TossClient

/-! ### One request -/

/-- An in-flight duplicate of our own idempotent order. -/
def transientConflict (e : TossError) : Bool :=
  e.kind == .conflict && e.code == some "request-in-progress"

section
variable {ρ : Type}

/-- One attempt's reply, handled. -/
def handle (idempotent : Bool) : Reply ρ → Decision ρ
  | .transport detail =>
    let e : TossError := { kind := .transport, message := detail }
    if idempotent then .again e else .fail e
  | .response r =>
    if r.status < 400 then .done r.result
    else
      let e := fromResponse r
      if e.retryable || transientConflict e then .again e else .fail e

/-- What an attempt meets: the token or the account lookup raises before anything is sent,
or the request goes out and something is seen of it. -/
inductive Attempt (ρ : Type) where
  | blocked (e : TossError)
  | sent (reply : Reply ρ)

/-- The loop from one attempt on, with `left` attempts after it. -/
def requestFrom (idempotent : Bool) (net : ℕ → Attempt ρ) :
    ℕ → ℕ → Except TossError (Option ρ)
  | left, attempt =>
    match net attempt with
    | .blocked e => .error e
    | .sent reply =>
      match handle idempotent reply, left with
      | .done result, _ => .ok result
      | .fail e, _ => .error e
      | .again e, 0 => .error e
      | .again _, left + 1 => requestFrom idempotent net left (attempt + 1)

/-- `_request`: attempts count from one, the last one is `max_retries + 1`. -/
def request (maxRetries : ℕ) (idempotent : Bool) (net : ℕ → Attempt ρ) :
    Except TossError (Option ρ) :=
  requestFrom idempotent net maxRetries 1

end

/-! ### Orders -/

inductive TimeInForce where
  | DAY
  | CLS
deriving DecidableEq, Repr

/-- The arguments of `create_order`. -/
structure NewOrder where
  symbol : Symbol
  side : Side
  orderType : OrderType := .LIMIT
  quantity : Option Decimal := none
  price : Option Decimal := none
  orderAmount : Option Decimal := none
  timeInForce : Option TimeInForce := none
  clientOrderId : Option String := none
  confirmHighValue : Bool := false
deriving DecidableEq

/-- The body of the request. -/
structure OrderRequest where
  symbol : Symbol
  side : Side
  orderType : OrderType
  clientOrderId : String
  quantity : Option Decimal := none
  price : Option Decimal := none
  timeInForce : Option TimeInForce := none
  orderAmount : Option Decimal := none
  confirmHighValueOrder : Option Bool := none
deriving DecidableEq

structure OrderAck where
  orderId : String
  clientOrderId : Option String := none
deriving DecidableEq

/-- The body, or the `ValueError` that refuses the arguments. `uuid` is the fresh id an
order without a client order id gets. -/
def orderBody (o : NewOrder) (uuid : String) : Except String OrderRequest :=
  if o.quantity.isNone = o.orderAmount.isNone then
    .error "pass exactly one of quantity= or order_amount="
  else if o.orderType = .LIMIT ∧ o.price.isNone then .error "LIMIT orders require price="
  else if o.orderType = .MARKET ∧ o.price.isSome then
    .error "MARKET orders must not carry a price"
  else if o.orderAmount.isSome ∧ o.orderType ≠ .MARKET then
    .error "order_amount= is only valid for MARKET orders (US)"
  else
    .ok
      { symbol := o.symbol
        side := o.side
        orderType := o.orderType
        clientOrderId := (o.clientOrderId.filter (· ≠ "")).getD uuid
        quantity := o.quantity
        price := if o.quantity.isSome then o.price else none
        timeInForce := if o.quantity.isSome then o.timeInForce else none
        orderAmount := o.orderAmount
        confirmHighValueOrder := if o.confirmHighValue then some true else none }

/-- How `create_order` ends: an ack, a `TossError`, or another exception (refused arguments,
a reply without an ack). -/
inductive Created where
  | ack (a : OrderAck)
  | error (e : TossError)
  | raised (message : String)
deriving DecidableEq

/-- What the result of the request makes of the call. -/
def created : Except TossError (Option OrderAck) → Created
  | .ok (some ack) => .ack ack
  | .ok none => .raised "invalid order ack"
  | .error e => .error e

def createOrder (maxRetries : ℕ) (o : NewOrder) (uuid : String) (net : ℕ → Attempt OrderAck) :
    Created :=
  match orderBody o uuid with
  | .error message => .raised message
  | .ok _ => created (request maxRetries true net)

theorem createOrder_of_body {maxRetries : ℕ} {o : NewOrder} {uuid : String}
    {net : ℕ → Attempt OrderAck} {body : OrderRequest} (h : orderBody o uuid = .ok body) :
    createOrder maxRetries o uuid net = created (request maxRetries true net) := by
  rw [createOrder, h]

end TossClient
end Tqt
