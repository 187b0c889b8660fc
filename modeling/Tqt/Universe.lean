import Tqt.Foundation.Rounding
import Tqt.Foundation.Whole

/-! Symbols, markets and sleeves.

Money and quantities are exact rationals: `Decimal` with the rounding of its 28-digit
context left out, but where that rounding is the point. -/
namespace Tqt

abbrev Decimal := ℚ

abbrev Symbol := String

inductive Country where
  | KR
  | US
deriving DecidableEq, Repr

inductive Currency where
  | KRW
  | USD
deriving DecidableEq, Repr

inductive Side where
  | BUY
  | SELL
deriving DecidableEq, Repr

inductive OrderType where
  | MARKET
  | LIMIT
deriving DecidableEq, Repr

/-- KR symbols are six digits; US symbols are alphabetic tickers. -/
def countryOf (symbol : Symbol) : Country :=
  if symbol.toList.all Char.isDigit && symbol.length == 6 then .KR else .US

/-- `"KRW" if country == "KR" else "USD"`. -/
def Country.currency : Country → Currency
  | .KR => .KRW
  | .US => .USD

/-- Whole shares in Korea: `Decimal(int(qty))`. -/
def wholeInKr (symbol : Symbol) (qty : Decimal) : Decimal :=
  if countryOf symbol = .KR then truncate qty else qty

theorem wholeInKr_whole {symbol : Symbol} (h : countryOf symbol = .KR) (qty : Decimal) :
    Whole (wholeInKr symbol qty) := by
  rw [wholeInKr, if_pos h]
  exact truncate_whole qty

theorem wholeInKr_wholeInKr (symbol : Symbol) (qty : Decimal) :
    wholeInKr symbol (wholeInKr symbol qty) = wholeInKr symbol qty := by
  by_cases hkr : countryOf symbol = .KR
  · have hwhole := (wholeInKr_whole hkr qty).truncate_eq
    rw [wholeInKr, if_pos hkr, hwhole]
  · rw [wholeInKr, if_neg hkr]

theorem wholeInKr_nonneg {qty : Decimal} (h : 0 ≤ qty) (symbol : Symbol) :
    0 ≤ wholeInKr symbol qty := by
  unfold wholeInKr
  split
  · exact le_truncate Whole.zero h h
  · exact h

theorem one_le_wholeInKr {qty : Decimal} (symbol : Symbol) (h : 1 ≤ qty) :
    1 ≤ wholeInKr symbol qty := by
  unfold wholeInKr
  split
  · exact le_truncate ⟨1, by simp⟩ h (zero_le_one.trans h)
  · exact h

theorem wholeInKr_pos_iff {symbol : Symbol} (h : countryOf symbol = .KR) {qty : Decimal} :
    0 < wholeInKr symbol qty ↔ 1 ≤ qty := by
  rw [wholeInKr, if_pos h, truncate_pos]

theorem wholeInKr_le {qty : Decimal} (h : 0 ≤ qty) (symbol : Symbol) :
    wholeInKr symbol qty ≤ qty := by
  unfold wholeInKr
  split
  · exact truncate_le h
  · exact le_rfl

/-! ### Numbers in messages -/

/-- `f"{x:.1%}"`. -/
def percent (x : Decimal) : String :=
  let tenths := (roundHalfEven (|x| * 1000)).toNat
  (if x < 0 then "-" else "") ++ toString (tenths / 10) ++ "." ++ toString (tenths % 10) ++ "%"

/-- `f"{x:,.0f}"`. -/
def thousands (x : Decimal) : String :=
  let digits := (toString (roundHalfEven |x|)).toList.reverse
  let groups := (digits.toChunks 3).map fun g => String.ofList g.reverse
  (if x < 0 then "-" else "") ++ ",".intercalate groups.reverse

/-! ### Sleeves -/

structure Asset where
  symbol : Symbol
  country : Country
  isEtf : Bool := true

structure Sleeve where
  key : String
  risk : List Asset
  safe : List Asset

namespace Sleeve

def allAssets (s : Sleeve) : List Asset := s.risk ++ s.safe

def symbols (s : Sleeve) : List Symbol := s.allAssets.map Asset.symbol

def riskSymbols (s : Sleeve) : List Symbol := s.risk.map Asset.symbol

end Sleeve

/-- `KR_GLOBAL`. -/
def krGlobal : Sleeve where
  key := "kr-global-etf"
  risk :=
    ["069500", "229200", "360750", "133690", "195930", "192090", "132030", "305080"].map fun symbol =>
      ⟨symbol, .KR, true⟩
  safe := ["114260", "273130"].map fun symbol => ⟨symbol, .KR, true⟩

/-- `US_GLOBAL`. -/
def usGlobal : Sleeve where
  key := "us-global-etf"
  risk := ["SPY", "VEA", "VWO", "AGG"].map fun symbol => ⟨symbol, .US, true⟩
  safe := ["SHY", "IEF", "LQD"].map fun symbol => ⟨symbol, .US, true⟩

/-- `KR_LARGE_CAP`. -/
def krLargeCap : Sleeve where
  key := "kr-large-cap"
  risk := ["005930", "000660", "035420", "005380", "051910"].map fun symbol => ⟨symbol, .KR, false⟩
  safe := [⟨"114260", .KR, true⟩]

end Tqt
