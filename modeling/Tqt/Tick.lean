import Tqt.Universe

/-! Korean exchange tick sizes (호가가격단위). -/
namespace Tqt

/-- (upper bound exclusive, tick) of the bands below the open-ended top one. -/
def krxStockTicks : List (Decimal × Decimal) :=
  [(2000, 1), (5000, 5), (20000, 10), (50000, 50), (200000, 100), (500000, 500)]

def krxEtfTicks : List (Decimal × Decimal) := [(2000, 1)]

/-- Tick size applicable at `price` on KRX. -/
def tickSize (price : Decimal) (isEtf : Bool) : Decimal :=
  match (if isEtf then krxEtfTicks else krxStockTicks).find? fun band => price < band.1 with
  | some band => band.2
  | none => if isEtf then 5 else 1000

/-- `ROUND_UP` to an integer: away from zero. -/
def roundUp (x : Decimal) : Decimal := if 0 ≤ x then ⌈x⌉ else ⌊x⌋

/-- Snap `price` onto a valid tick; a BUY rounds up, a SELL rounds down. -/
def roundToTick (price : Decimal) (country : Country) (isEtf : Bool) (side : Option Side) :
    Decimal :=
  match country with
  | .US => roundHalfEven (price * 100) / 100
  | .KR =>
    let t := tickSize price isEtf
    let rounded := match side with
      | some .BUY => roundUp (price / t) * t
      | some .SELL => truncate (price / t) * t
      | none => roundHalfEven (price / t) * t
    -- Crossing into another band: snap once more, with the tick of that band.
    let t2 := tickSize rounded isEtf
    if t2 = t then rounded
    else match side with
      | some .BUY => roundUp (rounded / t2) * t2
      | _ => truncate (rounded / t2) * t2

end Tqt
