import Tqt.Calendar
import Tqt.Universe
import Tqt.Foundation.Dict

/-! What the runner and its brokers exchange.

One KRW cash pool: the value of a USD position is converted at the snapshot's rate. An
`OrderIntent` cannot be built without a quantity or an amount, nor a LIMIT one without
a price. -/
namespace Tqt

structure Position where
  symbol : Symbol
  quantity : Decimal
  avgPrice : Decimal
  currency : Currency
deriving DecidableEq, Repr

/-- What the strategy wants, with what `__post_init__` enforces. -/
structure OrderIntent where
  symbol : Symbol
  side : Side
  quantity : Option Decimal
  orderType : OrderType := .MARKET
  price : Option Decimal := none
  orderAmount : Option Decimal := none
  strategy : String := ""
  reason : String := ""
  sized : quantity ≠ none ∨ orderAmount ≠ none
  priced : orderType = .LIMIT → price ≠ none
deriving DecidableEq

/-- A MARKET order of a quantity; it owes no price. -/
def OrderIntent.market (symbol : Symbol) (side : Side) (qty : Decimal) (strategy reason : String) :
    OrderIntent where
  symbol := symbol
  side := side
  quantity := some qty
  orderType := .MARKET
  strategy := strategy
  reason := reason
  sized := .inl nofun
  priced := nofun

structure OrderResult where
  ok : Bool
  symbol : Symbol
  side : Side
  orderId : Option String := none
  filledQuantity : Decimal := 0
  fillPrice : Option Decimal := none
  commission : Decimal := 0
  tax : Decimal := 0
  currency : Currency := .KRW
  status : String := "UNKNOWN"
  error : Option String := none
  reason : String := ""
deriving DecidableEq

structure AccountSnapshot where
  cashKrw : Decimal
  positions : Dict Symbol Position
  usdKrw : Decimal
  prices : Dict Symbol Decimal := ∅

namespace AccountSnapshot

/-- An account that holds nothing but cash. -/
def allCash (amount : Decimal) : AccountSnapshot where
  cashKrw := amount
  positions := ∅
  usdKrw := 1400

/-- The FX factor of a symbol: by its market, not by the currency of a position. -/
def fxOf (snap : AccountSnapshot) (symbol : Symbol) : Decimal :=
  if countryOf symbol = .US then snap.usdKrw else 1

/-- A position's value in KRW at its mark, or at its average price without one. -/
def valueKrw (snap : AccountSnapshot) (sym : Symbol) (pos : Position) : Decimal :=
  let value := snap.prices.getD sym pos.avgPrice * pos.quantity
  if pos.currency = .USD then value * snap.usdKrw else value

def positionValueKrw (snap : AccountSnapshot) : Decimal :=
  (snap.positions.entries.map fun e => snap.valueKrw e.1 e.2).sum

def equityKrw (snap : AccountSnapshot) : Decimal := snap.cashKrw + snap.positionValueKrw

def weights (snap : AccountSnapshot) : Dict Symbol Decimal :=
  if snap.equityKrw ≤ 0 then ∅
  else snap.positions.mapValues fun sym pos => snap.valueKrw sym pos / snap.equityKrw

end AccountSnapshot
end Tqt
