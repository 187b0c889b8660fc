import Tqt.Execution.Broker
import Tqt.Portfolio
import Mathlib.Data.List.Sort

/-! From target weights to orders.

`planSymbol` is the body of the loop of `_build_intents`: at most one order for a
symbol. The planner is written twice, exactly and with the roundings of its arithmetic
(`planSymbolIn`): `fl` is applied to the result of every operation. With none it is the exact
planner (`buildIntentsIn_exact`), with the context's it is the code. What a planned order
satisfies (`PlannedIn`, `Planned`) and exactly when one is planned (`planSymbolIn_buy_iff`,
`planSymbolIn_sell_iff`) is said of any roundings. -/
namespace Tqt

/-! ### The account -/

namespace AccountSnapshot
variable (fl : Decimal → Decimal) (snap : AccountSnapshot)

def valueIn (sym : Symbol) (pos : Position) : Decimal :=
  let value := fl (snap.prices.getD sym pos.avgPrice * pos.quantity)
  if pos.currency = .USD then fl (value * snap.usdKrw) else value

def positionValueIn : Decimal :=
  snap.positions.entries.foldl (fun total e => fl (total + snap.valueIn fl e.1 e.2)) 0

def equityIn : Decimal := fl (snap.cashKrw + snap.positionValueIn fl)

def weightsIn : Dict Symbol Decimal :=
  if snap.equityIn fl ≤ 0 then ∅
  else snap.positions.mapValues fun sym pos => fl (snap.valueIn fl sym pos / snap.equityIn fl)

theorem positionValueIn_exact : snap.positionValueIn id = snap.positionValueKrw := by
  unfold positionValueIn positionValueKrw
  rw [List.sum_eq_foldl, List.foldl_map]
  rfl

theorem equityIn_exact : snap.equityIn id = snap.equityKrw := by
  rw [equityIn, positionValueIn_exact]
  rfl

theorem weightsIn_exact : snap.weightsIn id = snap.weights := by
  unfold weightsIn weights
  rw [equityIn_exact]
  rfl

end AccountSnapshot

/-! ### The planner -/

namespace Runner

/-- Ignore drift under 1% of equity. -/
def band : Decimal := 1 / 100

theorem band_pos : 0 < band := by norm_num [band]

/-- The FX factor of a symbol at the rate `fx`. -/
def fxAt (fx : Decimal) (x : Symbol) : Decimal := if countryOf x = .US then fx else 1

theorem fxAt_pos {fx : Decimal} (h : 0 < fx) (x : Symbol) : 0 < fxAt fx x := by
  unfold fxAt
  split
  · exact h
  · exact one_pos

/-- The quantity of a sale: never more than is held. -/
def sellQuantity (symbol : Symbol) (qty : Decimal) (pos : Position) : Decimal :=
  wholeInKr symbol (min qty pos.quantity)

def makeIntent (symbol : Symbol) (side : Side) (qty want have' : Decimal) : OrderIntent :=
  .market symbol side qty "portfolio" ("target " ++ percent want ++ " vs held " ++ percent have')

/-- Every symbol of the book or of the account, each once, in order. -/
def symbolsOf (targets : Dict Symbol Decimal) (snapshot : AccountSnapshot) : List Symbol :=
  ((targets.keys ++ snapshot.positions.keys).dedup).insertionSort (· ≤ ·)

theorem mem_symbolsOf (targets : Dict Symbol Decimal) (snapshot : AccountSnapshot) (symbol : Symbol) :
    symbol ∈ symbolsOf targets snapshot ↔
      symbol ∈ targets.keys ∨ symbol ∈ snapshot.positions.keys := by
  rw [symbolsOf, List.mem_insertionSort, List.mem_dedup, List.mem_append]

/-- Sorting by drift neither adds nor drops an order. -/
theorem mem_byDrift {α : Type} (plan : Symbol → Option (Decimal × α)) (symbols : List Symbol) (x : α) :
    x ∈ ((symbols.filterMap plan).insertionSort fun a b => a.1 ≤ b.1).map Prod.snd ↔
      ∃ symbol ∈ symbols, ∃ drift, plan symbol = some (drift, x) := by
  simp only [List.mem_map, List.mem_insertionSort, List.mem_filterMap]
  constructor
  · rintro ⟨⟨drift, y⟩, ⟨symbol, hsymbol, hplan⟩, rfl⟩
    exact ⟨symbol, hsymbol, drift, hplan⟩
  · rintro ⟨symbol, hsymbol, drift, hplan⟩
    exact ⟨(drift, x), ⟨symbol, hsymbol, hplan⟩, rfl⟩

/-! ### With roundings -/

section Rounded
variable (fl : Decimal → Decimal) (targets : Dict Symbol Decimal) (snapshot : AccountSnapshot)
  (markets : List Country) (prices : Symbol → Option Decimal)

def heldIn (symbol : Symbol) : Decimal := (snapshot.weightsIn fl).getD symbol 0

def quantityIn (symbol : Symbol) (drift price : Decimal) : Decimal :=
  wholeInKr symbol (fl (fl (fl |drift| * snapshot.equityIn fl) / fl (price * snapshot.fxOf symbol)))

/-- The body of the loop of `_build_intents`. -/
def planSymbolIn (symbol : Symbol) : Option (Decimal × OrderIntent × Decimal) :=
  let want := targets.getD symbol 0
  let have' := heldIn fl snapshot symbol
  let drift := fl (want - have')
  if countryOf symbol ∉ markets ∨ fl |drift| < band then none
  else match prices symbol with
    | none => none
    | some price =>
      let qty := quantityIn fl snapshot symbol drift price
      if price ≤ 0 ∨ qty ≤ 0 then none
      else if 0 < drift then some (drift, makeIntent symbol .BUY qty want have', price)
      else match snapshot.positions.get? symbol with
        | none => none
        | some pos =>
          if sellQuantity symbol qty pos ≤ 0 then none
          else some (drift, makeIntent symbol .SELL (sellQuantity symbol qty pos) want have', price)

def buildIntentsIn : List (OrderIntent × Decimal) :=
  if snapshot.equityIn fl ≤ 0 then []
  else (((symbolsOf targets snapshot).filterMap
    (planSymbolIn fl targets snapshot markets prices)).insertionSort fun a b => a.1 ≤ b.1).map Prod.snd

theorem mem_buildIntentsIn (order : OrderIntent × Decimal) :
    order ∈ buildIntentsIn fl targets snapshot markets prices ↔
      0 < snapshot.equityIn fl ∧ ∃ symbol drift,
        (symbol ∈ targets.keys ∨ symbol ∈ snapshot.positions.keys) ∧
          planSymbolIn fl targets snapshot markets prices symbol = some (drift, order) := by
  unfold buildIntentsIn
  split
  · next h => simp [not_lt.mpr h]
  · next h => simp only [mem_byDrift, mem_symbolsOf, not_le.mp h, true_and, exists_and_left]

/-- What an order for a symbol satisfies when it is planned. -/
structure PlannedIn (symbol : Symbol) (drift : Decimal) (intent : OrderIntent) (price : Decimal) :
    Prop where
  intent_symbol : intent.symbol = symbol
  market : countryOf symbol ∈ markets
  drift_eq : drift = fl (targets.getD symbol 0 - heldIn fl snapshot symbol)
  far : band ≤ fl |drift|
  priced : prices symbol = some price ∧ 0 < price
  wanted : 0 < quantityIn fl snapshot symbol drift price
  buy : intent.side = .BUY → 0 < drift ∧
    intent.quantity = some (quantityIn fl snapshot symbol drift price)
  sell : intent.side = .SELL → drift ≤ 0 ∧ ∃ pos, snapshot.positions.get? symbol = some pos ∧
    intent.quantity = some (sellQuantity symbol (quantityIn fl snapshot symbol drift price) pos)
  positive : ∃ qty, intent.quantity = some qty ∧ 0 < qty
  byQuantity : intent.orderAmount = none

variable {fl targets snapshot markets prices} in
theorem planSymbolIn_planned {symbol : Symbol} {drift price : Decimal} {intent : OrderIntent}
    (h : planSymbolIn fl targets snapshot markets prices symbol = some (drift, intent, price)) :
    PlannedIn fl targets snapshot markets prices symbol drift intent price := by
  unfold planSymbolIn at h
  dsimp only at h
  split at h
  · cases h
  · next hskip =>
    simp only [not_or, not_not, not_lt] at hskip
    obtain ⟨hmarket, hfar⟩ := hskip
    cases hp : prices symbol with
    | none => simp [hp] at h
    | some px =>
      simp only [hp] at h
      split at h
      · cases h
      · next hqty =>
        simp only [not_or, not_le] at hqty
        split at h
        · next hup =>
          cases h
          refine ⟨rfl, hmarket, rfl, hfar, ⟨hp, hqty.1⟩, hqty.2, fun _ => ⟨hup, rfl⟩, ?_, ⟨_, rfl, hqty.2⟩,
            rfl⟩
          intro hsell
          cases hsell
        · next hdown =>
          split at h
          · cases h
          · next pos hpos =>
            split at h
            · cases h
            · next hsell =>
              cases h
              refine ⟨rfl, hmarket, rfl, hfar, ⟨hp, hqty.1⟩, hqty.2, ?_,
                fun _ => ⟨not_lt.mp hdown, pos, hpos, rfl⟩, ⟨_, rfl, not_le.mp hsell⟩, rfl⟩
              intro hbuy
              cases hbuy

variable {fl targets snapshot markets prices}

theorem planSymbolIn_buy {symbol : Symbol} {drift price : Decimal}
    (hdrift : fl (targets.getD symbol 0 - heldIn fl snapshot symbol) = drift)
    (hmarket : countryOf symbol ∈ markets) (hup : 0 < drift) (hfar : band ≤ fl |drift|)
    (hp : prices symbol = some price) (hpos : 0 < price)
    (hqty : 0 < quantityIn fl snapshot symbol drift price) :
    planSymbolIn fl targets snapshot markets prices symbol =
      some (drift, makeIntent symbol .BUY (quantityIn fl snapshot symbol drift price)
        (targets.getD symbol 0) (heldIn fl snapshot symbol), price) := by
  subst hdrift
  unfold planSymbolIn
  rw [if_neg (not_or.mpr ⟨not_not.mpr hmarket, hfar.not_gt⟩)]
  simp only [hp]
  rw [if_neg (not_or.mpr ⟨hpos.not_ge, hqty.not_ge⟩), if_pos hup]

theorem planSymbolIn_sell {symbol : Symbol} {drift price : Decimal} {pos : Position}
    (hdrift : fl (targets.getD symbol 0 - heldIn fl snapshot symbol) = drift)
    (hmarket : countryOf symbol ∈ markets) (hdown : drift ≤ 0) (hfar : band ≤ fl |drift|)
    (hp : prices symbol = some price) (hpos : 0 < price)
    (hqty : 0 < quantityIn fl snapshot symbol drift price)
    (hheld : snapshot.positions.get? symbol = some pos)
    (hsell : 0 < sellQuantity symbol (quantityIn fl snapshot symbol drift price) pos) :
    planSymbolIn fl targets snapshot markets prices symbol =
      some (drift, makeIntent symbol .SELL
        (sellQuantity symbol (quantityIn fl snapshot symbol drift price) pos)
        (targets.getD symbol 0) (heldIn fl snapshot symbol), price) := by
  subst hdrift
  unfold planSymbolIn
  rw [if_neg (not_or.mpr ⟨not_not.mpr hmarket, hfar.not_gt⟩)]
  simp only [hp, hheld]
  rw [if_neg (not_or.mpr ⟨hpos.not_ge, hqty.not_ge⟩), if_neg hdown.not_gt, if_neg hsell.not_ge]

/-- Exactly when a symbol is bought. -/
theorem planSymbolIn_buy_iff {symbol : Symbol} {drift : Decimal}
    (hdrift : fl (targets.getD symbol 0 - heldIn fl snapshot symbol) = drift) :
    (∃ drift intent price, planSymbolIn fl targets snapshot markets prices symbol =
        some (drift, intent, price) ∧ intent.side = .BUY) ↔
      countryOf symbol ∈ markets ∧ 0 < drift ∧ band ≤ fl |drift| ∧
        ∃ price, prices symbol = some price ∧ 0 < price ∧
          0 < quantityIn fl snapshot symbol drift price := by
  constructor
  · intro h
    obtain ⟨drift', intent, price, hplan, hside⟩ := h
    have hplanned := planSymbolIn_planned hplan
    obtain rfl : drift' = drift := hplanned.drift_eq.trans hdrift
    exact ⟨hplanned.market, (hplanned.buy hside).1, hplanned.far, price, hplanned.priced.1,
      hplanned.priced.2, hplanned.wanted⟩
  · intro h
    obtain ⟨hmarket, hup, hfar, price, hp, hpos, hqty⟩ := h
    exact ⟨_, _, _, planSymbolIn_buy hdrift hmarket hup hfar hp hpos hqty, rfl⟩

/-- Exactly when a symbol is sold. -/
theorem planSymbolIn_sell_iff {symbol : Symbol} {drift : Decimal}
    (hdrift : fl (targets.getD symbol 0 - heldIn fl snapshot symbol) = drift) :
    (∃ drift intent price, planSymbolIn fl targets snapshot markets prices symbol =
        some (drift, intent, price) ∧ intent.side = .SELL) ↔
      countryOf symbol ∈ markets ∧ drift ≤ 0 ∧ band ≤ fl |drift| ∧
        ∃ pos price, snapshot.positions.get? symbol = some pos ∧ prices symbol = some price ∧
          0 < price ∧ 0 < quantityIn fl snapshot symbol drift price ∧
          0 < sellQuantity symbol (quantityIn fl snapshot symbol drift price) pos := by
  constructor
  · intro h
    obtain ⟨drift', intent, price, hplan, hside⟩ := h
    have hplanned := planSymbolIn_planned hplan
    obtain rfl : drift' = drift := hplanned.drift_eq.trans hdrift
    obtain ⟨hdown, pos, hheld, hquantity⟩ := hplanned.sell hside
    obtain ⟨qty, hq, hqpos⟩ := hplanned.positive
    rw [hquantity] at hq
    cases hq
    exact ⟨hplanned.market, hdown, hplanned.far, pos, price, hheld, hplanned.priced.1,
      hplanned.priced.2, hplanned.wanted, hqpos⟩
  · intro h
    obtain ⟨hmarket, hdown, hfar, pos, price, hheld, hp, hpos, hqty, hsell⟩ := h
    exact ⟨_, _, _, planSymbolIn_sell hdrift hmarket hdown hfar hp hpos hqty hheld hsell, rfl⟩

end Rounded

/-! ### Exactly -/

section Exact
variable (targets : Dict Symbol Decimal) (snapshot : AccountSnapshot) (markets : List Country)
  (prices : Symbol → Option Decimal)

def held (symbol : Symbol) : Decimal := snapshot.weights.getD symbol 0

/-- The quantity that closes `drift` at `price`. -/
def quantityFor (symbol : Symbol) (drift price : Decimal) : Decimal :=
  wholeInKr symbol (|drift| * snapshot.equityKrw / (price * snapshot.fxOf symbol))

/-- The order for one symbol, if any, with its drift and the price it was planned at. -/
def planSymbol (symbol : Symbol) : Option (Decimal × OrderIntent × Decimal) :=
  let want := targets.getD symbol 0
  let have' := held snapshot symbol
  let drift := want - have'
  if countryOf symbol ∉ markets ∨ |drift| < band then none
  else match prices symbol with
    | none => none
    | some price =>
      let qty := quantityFor snapshot symbol drift price
      if price ≤ 0 ∨ qty ≤ 0 then none
      else if 0 < drift then some (drift, makeIntent symbol .BUY qty want have', price)
      else match snapshot.positions.get? symbol with
        | none => none
        | some pos =>
          if sellQuantity symbol qty pos ≤ 0 then none
          else some (drift, makeIntent symbol .SELL (sellQuantity symbol qty pos) want have', price)

/-- Translate target weights into orders, sells first. -/
def buildIntents : List (OrderIntent × Decimal) :=
  if snapshot.equityKrw ≤ 0 then []
  else (((symbolsOf targets snapshot).filterMap (planSymbol targets snapshot markets prices)).insertionSort
    fun a b => a.1 ≤ b.1).map Prod.snd

theorem heldIn_exact (symbol : Symbol) : heldIn id snapshot symbol = held snapshot symbol := by
  rw [heldIn, snapshot.weightsIn_exact, held]

theorem quantityIn_exact (symbol : Symbol) (drift price : Decimal) :
    quantityIn id snapshot symbol drift price = quantityFor snapshot symbol drift price := by
  unfold quantityIn
  rw [snapshot.equityIn_exact]
  rfl

theorem planSymbolIn_exact :
    planSymbolIn id targets snapshot markets prices = planSymbol targets snapshot markets prices := by
  funext symbol
  unfold planSymbolIn planSymbol
  simp only [heldIn_exact, quantityIn_exact, id_eq]

/-- Without roundings it is the exact planner. -/
theorem buildIntentsIn_exact :
    buildIntentsIn id targets snapshot markets prices = buildIntents targets snapshot markets prices := by
  unfold buildIntentsIn buildIntents
  rw [snapshot.equityIn_exact, planSymbolIn_exact]

theorem mem_buildIntents (order : OrderIntent × Decimal) :
    order ∈ buildIntents targets snapshot markets prices ↔
      0 < snapshot.equityKrw ∧ ∃ symbol drift,
        (symbol ∈ targets.keys ∨ symbol ∈ snapshot.positions.keys) ∧
          planSymbol targets snapshot markets prices symbol = some (drift, order) := by
  rw [← buildIntentsIn_exact, mem_buildIntentsIn, snapshot.equityIn_exact, planSymbolIn_exact]

/-- What an order for a symbol satisfies when it is planned. -/
structure Planned (symbol : Symbol) (drift : Decimal) (intent : OrderIntent) (price : Decimal) :
    Prop where
  intent_symbol : intent.symbol = symbol
  market : countryOf symbol ∈ markets
  drift_eq : drift = targets.getD symbol 0 - held snapshot symbol
  priced : prices symbol = some price ∧ 0 < price
  wanted : 0 < quantityFor snapshot symbol drift price
  buy : intent.side = .BUY → band ≤ drift ∧
    intent.quantity = some (quantityFor snapshot symbol drift price)
  sell : intent.side = .SELL → drift ≤ -band ∧ ∃ pos, snapshot.positions.get? symbol = some pos ∧
    intent.quantity = some (sellQuantity symbol (quantityFor snapshot symbol drift price) pos)
  positive : ∃ qty, intent.quantity = some qty ∧ 0 < qty

variable {targets snapshot markets prices} in
theorem planSymbol_planned {symbol : Symbol} {drift price : Decimal} {intent : OrderIntent}
    (h : planSymbol targets snapshot markets prices symbol = some (drift, intent, price)) :
    Planned targets snapshot markets prices symbol drift intent price := by
  rw [← planSymbolIn_exact] at h
  obtain ⟨hsymbol, hmarket, hdrift, hfar, hpriced, hwanted, hbuy, hsell, hpositive, -⟩ :=
    planSymbolIn_planned h
  rw [heldIn_exact] at hdrift
  rw [quantityIn_exact] at hwanted hbuy hsell
  refine ⟨hsymbol, hmarket, hdrift, hpriced, hwanted, fun hside => ?_, fun hside => ?_, hpositive⟩
  · obtain ⟨hup, hquantity⟩ := hbuy hside
    rw [id_eq, abs_of_pos hup] at hfar
    exact ⟨hfar, hquantity⟩
  · obtain ⟨hdown, hquantity⟩ := hsell hside
    rw [id_eq, abs_of_nonpos hdown] at hfar
    exact ⟨by linarith, hquantity⟩

theorem planSymbol_buy {symbol : Symbol} {price : Decimal} (hmarket : countryOf symbol ∈ markets)
    (hdrift : band ≤ targets.getD symbol 0 - held snapshot symbol)
    (hp : prices symbol = some price) (hpos : 0 < price)
    (hqty : 0 < quantityFor snapshot symbol (targets.getD symbol 0 - held snapshot symbol) price) :
    planSymbol targets snapshot markets prices symbol =
      some (targets.getD symbol 0 - held snapshot symbol, makeIntent symbol .BUY
        (quantityFor snapshot symbol (targets.getD symbol 0 - held snapshot symbol) price)
        (targets.getD symbol 0) (held snapshot symbol), price) := by
  have hup := lt_of_lt_of_le band_pos hdrift
  rw [← quantityIn_exact] at hqty ⊢
  rw [← planSymbolIn_exact, ← heldIn_exact] at *
  exact planSymbolIn_buy rfl hmarket hup (by rwa [id_eq, abs_of_pos hup]) hp hpos hqty

theorem planSymbol_sell {symbol : Symbol} {price : Decimal} {pos : Position}
    (hmarket : countryOf symbol ∈ markets)
    (hdrift : band ≤ held snapshot symbol - targets.getD symbol 0)
    (hp : prices symbol = some price) (hpos : 0 < price)
    (hqty : 0 < quantityFor snapshot symbol (targets.getD symbol 0 - held snapshot symbol) price)
    (hheld : snapshot.positions.get? symbol = some pos)
    (hsell : 0 < sellQuantity symbol
      (quantityFor snapshot symbol (targets.getD symbol 0 - held snapshot symbol) price) pos) :
    planSymbol targets snapshot markets prices symbol =
      some (targets.getD symbol 0 - held snapshot symbol, makeIntent symbol .SELL
        (sellQuantity symbol
          (quantityFor snapshot symbol (targets.getD symbol 0 - held snapshot symbol) price) pos)
        (targets.getD symbol 0) (held snapshot symbol), price) := by
  have hdown : targets.getD symbol 0 - held snapshot symbol < 0 := by linarith [band_pos]
  have hfar : band ≤ |targets.getD symbol 0 - held snapshot symbol| := by
    rw [abs_of_neg hdown]
    linarith
  rw [← planSymbolIn_exact]
  rw [← quantityIn_exact] at hqty hsell ⊢
  rw [← heldIn_exact] at *
  exact planSymbolIn_sell rfl hmarket hdown.le hfar hp hpos hqty hheld hsell

end Exact
end Runner
end Tqt
