import Tqt.Execution.Broker

/-! The account after a trade at the mark.

`filled` moves a quantity of one symbol at a price, without charges: bought if positive, sold if
negative. Where every position is in the currency of its market (`Matching`) and the price is
the mark of the symbol if it is held (`AtMark`), the trade moves its value between cash and
positions and nothing else (`filled_equityKrw`), so a weight moves by the traded value over the
equity (`filled_weight`). -/
namespace Tqt.AccountSnapshot

/-- What is held of a symbol after the trade. -/
def filledPosition (snap : AccountSnapshot) (symbol : Symbol) (qty price : Decimal) : Position :=
  match snap.positions.get? symbol with
  | some pos => { pos with quantity := pos.quantity + qty }
  | none => ⟨symbol, qty, price, (countryOf symbol).currency⟩

def filled (snap : AccountSnapshot) (symbol : Symbol) (qty price : Decimal) : AccountSnapshot where
  cashKrw := snap.cashKrw - price * qty * snap.fxOf symbol
  positions := snap.positions.insert symbol (snap.filledPosition symbol qty price)
  usdKrw := snap.usdKrw
  prices := snap.prices.insert symbol price

/-- Every position is in the currency of its symbol's market. -/
def Matching (snap : AccountSnapshot) : Prop :=
  ∀ sym pos, snap.positions.get? sym = some pos → pos.currency = (countryOf sym).currency

/-- The price is the mark of the symbol, if it is held. -/
def AtMark (snap : AccountSnapshot) (symbol : Symbol) (price : Decimal) : Prop :=
  ∀ pos, snap.positions.get? symbol = some pos → snap.prices.getD symbol pos.avgPrice = price

section
variable {snap : AccountSnapshot} {symbol : Symbol} {price : Decimal}

/-- By the currency of a position or by the market of its symbol: the factor is the same. -/
theorem valueKrw_of_currency {sym : Symbol} {pos : Position}
    (h : pos.currency = (countryOf sym).currency) :
    snap.valueKrw sym pos = snap.prices.getD sym pos.avgPrice * pos.quantity * snap.fxOf sym := by
  unfold valueKrw fxOf
  rw [h]
  cases countryOf sym
  · exact (mul_one _).symm
  · rfl

variable (qty : Decimal)

theorem filledPosition_currency (hmatch : snap.Matching) :
    (snap.filledPosition symbol qty price).currency = (countryOf symbol).currency := by
  unfold filledPosition
  cases hheld : snap.positions.get? symbol with
  | none => rfl
  | some pos => exact hmatch symbol pos hheld

/-- The marks of what is held stay as they are. -/
theorem filled_valueKrw (hmark : snap.AtMark symbol price) {sym : Symbol} {pos : Position}
    (hheld : snap.positions.get? sym = some pos) :
    (snap.filled symbol qty price).valueKrw sym pos = snap.valueKrw sym pos := by
  have hprice : (snap.prices.insert symbol price).getD sym pos.avgPrice =
      snap.prices.getD sym pos.avgPrice := by
    rw [Dict.getD_insert]
    split
    · next hsym =>
      subst hsym
      exact (hmark pos hheld).symm
    · rfl
  unfold valueKrw filled
  rw [hprice]

/-- What is held of a symbol in KRW. -/
def exposure (snap : AccountSnapshot) (symbol : Symbol) : Decimal :=
  ((snap.positions.get? symbol).map (snap.valueKrw symbol)).getD 0

/-- What is held of the symbol is worth more by what was bought. -/
theorem filled_exposure (hmatch : snap.Matching) (hmark : snap.AtMark symbol price) :
    (snap.filled symbol qty price).valueKrw symbol (snap.filledPosition symbol qty price) =
      snap.exposure symbol + price * qty * snap.fxOf symbol := by
  have hprice (avg : Decimal) : (snap.filled symbol qty price).prices.getD symbol avg = price := by
    unfold filled
    rw [Dict.getD_insert, if_pos rfl]
  rw [valueKrw_of_currency (filledPosition_currency qty hmatch), hprice]
  show price * _ * snap.fxOf symbol = _
  unfold exposure filledPosition
  cases hheld : snap.positions.get? symbol with
  | none => simp
  | some pos =>
    rw [Option.map_some, Option.getD_some, valueKrw_of_currency (hmatch symbol pos hheld),
      hmark pos hheld]
    ring

theorem filled_positionValueKrw (hmatch : snap.Matching) (hmark : snap.AtMark symbol price) :
    (snap.filled symbol qty price).positionValueKrw =
      snap.positionValueKrw + price * qty * snap.fxOf symbol := by
  have hsame : (snap.positions.entries.map fun e => (snap.filled symbol qty price).valueKrw e.1 e.2) =
      snap.positions.entries.map fun e => snap.valueKrw e.1 e.2 :=
    List.map_congr_left fun e he =>
      filled_valueKrw qty hmark ((Dict.get?_eq_some snap.positions e.1 e.2).mpr he)
  have hold : (snap.positions.entries.lookup symbol).map ((snap.filled symbol qty price).valueKrw symbol) =
      (snap.positions.get? symbol).map (snap.valueKrw symbol) :=
    Option.map_congr fun pos hheld => filled_valueKrw qty hmark hheld
  show ((Dict.put symbol (snap.filledPosition symbol qty price) snap.positions.entries).map _).sum = _
  rw [Dict.sum_map_put, hsame, hold, filled_exposure qty hmatch hmark, positionValueKrw, exposure]
  ring

/-- **The equity is the same**: the price that was paid is what the position is worth. -/
theorem filled_equityKrw (hmatch : snap.Matching) (hmark : snap.AtMark symbol price) :
    (snap.filled symbol qty price).equityKrw = snap.equityKrw := by
  rw [equityKrw, filled_positionValueKrw qty hmatch hmark, equityKrw]
  unfold filled
  ring

theorem weights_get? (hequity : 0 < snap.equityKrw) (sym : Symbol) : snap.weights.get? sym =
    (snap.positions.get? sym).map fun pos => snap.valueKrw sym pos / snap.equityKrw := by
  rw [weights, if_neg (not_le.mpr hequity), Dict.get?_mapValues]

/-- The weight moves by the traded value over the equity. -/
theorem filled_weight (hequity : 0 < snap.equityKrw) (hmatch : snap.Matching)
    (hmark : snap.AtMark symbol price) :
    (snap.filled symbol qty price).weights.get? symbol =
      some ((snap.exposure symbol + price * qty * snap.fxOf symbol) / snap.equityKrw) := by
  have hequity' := hequity
  rw [← filled_equityKrw qty hmatch hmark] at hequity'
  have hposition : (snap.filled symbol qty price).positions.get? symbol =
      some (snap.filledPosition symbol qty price) := Dict.get?_insert_self _ _ _
  rw [weights_get? hequity', hposition, Option.map_some, filled_equityKrw qty hmatch hmark,
    filled_exposure qty hmatch hmark]

end

/-- A Korean and an American position at their marks. -/
def mixedBook : AccountSnapshot where
  cashKrw := 900000
  positions := Dict.ofList [("005930", ⟨"005930", 10, 9000, .KRW⟩), ("SPY", ⟨"SPY", 1 / 2, 500, .USD⟩)]
  usdKrw := 1400
  prices := Dict.ofList [("005930", 10000)]

theorem mixedBook_held {sym : Symbol} {pos : Position} (h : mixedBook.positions.get? sym = some pos) :
    sym = "005930" ∧ pos = ⟨"005930", 10, 9000, .KRW⟩ ∨
      sym = "SPY" ∧ pos = ⟨"SPY", 1 / 2, 500, .USD⟩ := by
  have hmem : (sym, pos) ∈ mixedBook.positions.entries := (Dict.get?_eq_some _ _ _).mp h
  have hentries : mixedBook.positions.entries =
      [("005930", ⟨"005930", 10, 9000, .KRW⟩), ("SPY", ⟨"SPY", 1 / 2, 500, .USD⟩)] := rfl
  rw [hentries] at hmem
  simpa using hmem

theorem mixedBook_matching : mixedBook.Matching := by
  intro sym pos hheld
  obtain ⟨rfl, rfl⟩ | ⟨rfl, rfl⟩ := mixedBook_held hheld <;> decide +kernel

theorem mixedBook_atMark : mixedBook.AtMark "005930" 10000 := by
  intro pos _
  rfl

end Tqt.AccountSnapshot
