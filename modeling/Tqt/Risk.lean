import Tqt.Data.Store
import Tqt.Execution.Broker

/-! Risk limits.

The kill switch lives in the store, so it belongs to no `RiskManager`. `checkCycle` is
the gate of a cycle and may itself halt for the day; `checkOrder` is the gate of one
order. What `checkCycle` can do is said once, in `checkCycle_cases`. -/
namespace Tqt

structure Settings where
  maxPositionWeight : Decimal := 1 / 5
  maxDailyLossPct : Decimal := 3 / 100
  maxOrdersPerDay : ℤ := 40
  maxGrossExposure : Decimal := 1

/-- Why a check refuses, with the values its message reports. -/
inductive Refusal where
  | halted (reason : HaltReason)
  | dailyLoss (loss limit : Decimal)
  | orderBudget (used limit : ℤ)
  | zeroEquity
  | budgetExhausted
  | weight (symbol : Symbol) (projected limit : Decimal)
  | grossExposure (projected limit : Decimal)
  | cash (symbol : Symbol) (needed available : Decimal)
  | warnings (symbol : Symbol) (reasons : List String)
  | nothingHeld (symbol : Symbol)
  | oversold (symbol : Symbol) (quantity held : Decimal)
deriving DecidableEq, Repr

inductive Verdict where
  | allow
  | refuse (reason : Refusal)
deriving DecidableEq, Repr

structure RiskManager where
  settings : Settings := {}
  brokerName : BrokerName
  hasClient : Bool := true
  defensiveSymbols : List Symbol := []
  maxDefensiveWeight : Decimal := 3 / 5
  warningCache : Dict Symbol (List String) := ∅

namespace RiskManager

def weightLimitFor (rm : RiskManager) (symbol : Symbol) : Decimal :=
  if symbol ∈ rm.defensiveSymbols then max rm.maxDefensiveWeight rm.settings.maxPositionWeight
  else rm.settings.maxPositionWeight

/-! ### The kill switch -/

/-- A halt for the day expires at the next KST date rollover. -/
def isHalted (st : Store) (now : Instant) : Bool :=
  st.killSwitch.halted || st.killSwitch.haltedForDate == some now.kst

def halt (reason : HaltReason) (forTodayOnly : Bool) (now : Instant) (st : Store) : Store :=
  { st with killSwitch :=
      if forTodayOnly then
        { st.killSwitch with haltedForDate := some now.kst, haltReason := reason }
      else { st.killSwitch with halted := true, haltReason := reason } }

def resume (st : Store) : Store := { st with killSwitch := {} }

section Checks
variable (rm : RiskManager) (st : Store) (now : Instant) (snapshot : AccountSnapshot)

/-! ### Once per cycle -/

/-- Today's return against the first equity mark of the day, if there is one. -/
def dailyLoss : Option Decimal :=
  match st.firstEquityOfDay rm.brokerName now.kst with
  | none => none
  | some opening => if opening ≤ 0 then none else some ((snapshot.equityKrw - opening) / opening)

/-- Orders of the current UTC date. -/
def ordersToday : ℤ :=
  (st.orders.entries.filter fun e =>
    e.1.1 = rm.brokerName ∧ e.2.submittedAt.date = now.date).length

def remainingOrderBudget : ℤ := max (rm.settings.maxOrdersPerDay - rm.ordersToday st now) 0

/-- The daily loss reaches the limit. -/
def lossBreached : Option Decimal :=
  (rm.dailyLoss st now snapshot).filter fun loss => loss ≤ -rm.settings.maxDailyLossPct

def checkCycle : Store × Verdict :=
  if isHalted st now then (st, .refuse (.halted st.killSwitch.haltReason))
  else match rm.lossBreached st now snapshot with
    | some loss =>
      (halt (.dailyLoss loss rm.settings.maxDailyLossPct) true now st,
        .refuse (.dailyLoss loss rm.settings.maxDailyLossPct))
    | none =>
      if rm.settings.maxOrdersPerDay ≤ rm.ordersToday st now then
        (halt (.orderBudget (rm.ordersToday st now) rm.settings.maxOrdersPerDay) true now st,
          .refuse (.orderBudget (rm.ordersToday st now) rm.settings.maxOrdersPerDay))
      else (st, .allow)

/-- **What the gate can do**: pass and leave the store alone, or refuse; then at most the
kill switch changes, and a permanent halt is neither set nor lifted. -/
theorem checkCycle_cases :
    (rm.checkCycle st now snapshot = (st, .allow) ∧ isHalted st now = false ∧
        rm.lossBreached st now snapshot = none ∧
        rm.ordersToday st now < rm.settings.maxOrdersPerDay) ∨
      ∃ st' why, rm.checkCycle st now snapshot = (st', .refuse why) ∧
        ∃ switch : KillSwitch, st' = { st with killSwitch := switch } ∧
          switch.halted = st.killSwitch.halted := by
  unfold checkCycle
  by_cases hhalted : isHalted st now = true
  · rw [if_pos hhalted]
    exact .inr ⟨_, _, rfl, st.killSwitch, rfl, rfl⟩
  · rw [if_neg hhalted]
    cases hloss : rm.lossBreached st now snapshot with
    | some loss => exact .inr ⟨_, _, rfl, _, rfl, rfl⟩
    | none =>
      simp only
      by_cases hbudget : rm.settings.maxOrdersPerDay ≤ rm.ordersToday st now
      · rw [if_pos hbudget]
        exact .inr ⟨_, _, rfl, _, rfl, rfl⟩
      · rw [if_neg hbudget]
        exact .inl ⟨rfl, by simpa using hhalted, trivial, not_le.mp hbudget⟩

variable {rm st now snapshot} in
theorem checkCycle_allow (h : (rm.checkCycle st now snapshot).2 = .allow) :
    rm.checkCycle st now snapshot = (st, .allow) := by
  rcases rm.checkCycle_cases st now snapshot with ⟨heq, -⟩ | ⟨st', why, heq, -⟩
  · exact heq
  · rw [heq] at h
    cases h

theorem checkCycle_halted : (rm.checkCycle st now snapshot).1.killSwitch.halted =
    st.killSwitch.halted := by
  rcases rm.checkCycle_cases st now snapshot with ⟨h, -⟩ | ⟨st', why, h, switch, rfl, hs⟩
  · rw [h]
  · rw [h]
    exact hs

/-! ### Once per order -/

/-- Disqualifying warnings for a buy, cached per cycle; a failed lookup counts as none. -/
def buyWarnings (ask : Symbol → Option (List String)) (symbol : Symbol) :
    RiskManager × List String :=
  if rm.hasClient then
    match rm.warningCache.get? symbol with
    | some reasons => (rm, reasons)
    | none =>
      let reasons := (ask symbol).getD []
      ({ rm with warningCache := rm.warningCache.insert symbol reasons }, reasons)
  else (rm, [])

def clearCache : RiskManager := { rm with warningCache := ∅ }

/-- What an order is worth in KRW at the price the planner saw. -/
def notionalKrw (intent : OrderIntent) (price : Option Decimal) : Decimal :=
  match intent.orderAmount with
  | some amount => amount * snapshot.fxOf intent.symbol
  | none => price.getD 0 * intent.quantity.getD 0 * snapshot.fxOf intent.symbol

/-- The exposure to a symbol that is there already. -/
def exposureKrw (symbol : Symbol) : Decimal :=
  match snapshot.positions.get? symbol with
  | some pos => snapshot.prices.getD symbol pos.avgPrice * pos.quantity * snapshot.fxOf symbol
  | none => 0

def checkBuy (ask : Symbol → Option (List String)) (intent : OrderIntent)
    (price : Option Decimal) : RiskManager × Verdict :=
  let notional := notionalKrw snapshot intent price
  let projected := (exposureKrw snapshot intent.symbol + notional) / snapshot.equityKrw
  let gross := (snapshot.positionValueKrw + notional) / snapshot.equityKrw
  if rm.weightLimitFor intent.symbol < projected then
    (rm, .refuse (.weight intent.symbol projected (rm.weightLimitFor intent.symbol)))
  else if rm.settings.maxGrossExposure < gross then
    (rm, .refuse (.grossExposure gross rm.settings.maxGrossExposure))
  else if snapshot.cashKrw < notional then
    (rm, .refuse (.cash intent.symbol notional snapshot.cashKrw))
  else match rm.buyWarnings ask intent.symbol with
    | (rm, []) => (rm, .allow)
    | (rm, blocked) => (rm, .refuse (.warnings intent.symbol blocked))

def checkSell (intent : OrderIntent) : Verdict :=
  match snapshot.positions.get? intent.symbol with
  | none => .refuse (.nothingHeld intent.symbol)
  | some pos =>
    if pos.quantity ≤ 0 then .refuse (.nothingHeld intent.symbol)
    else if pos.quantity < intent.quantity.getD 0 then
      .refuse (.oversold intent.symbol (intent.quantity.getD 0) pos.quantity)
    else .allow

def checkOrder (ask : Symbol → Option (List String)) (intent : OrderIntent)
    (price : Option Decimal) : RiskManager × Verdict :=
  if snapshot.equityKrw ≤ 0 then (rm, .refuse .zeroEquity)
  else if rm.remainingOrderBudget st now ≤ 0 then (rm, .refuse .budgetExhausted)
  else match intent.side with
    | .BUY => rm.checkBuy snapshot ask intent price
    | .SELL => (rm, checkSell snapshot intent)

/-- What a check leaves of the manager: the warnings it looked up at most. -/
theorem checkOrder_risk (ask : Symbol → Option (List String)) (intent : OrderIntent)
    (price : Option Decimal) :
    (rm.checkOrder st now snapshot ask intent price).1 = rm ∨
      (rm.checkOrder st now snapshot ask intent price).1 = (rm.buyWarnings ask intent.symbol).1 := by
  unfold checkOrder
  split
  · exact .inl rfl
  · split
    · exact .inl rfl
    · split
      · unfold checkBuy
        simp only
        split
        · exact .inl rfl
        · split
          · exact .inl rfl
          · split
            · exact .inl rfl
            · generalize rm.buyWarnings ask intent.symbol = out
              obtain ⟨rm', _ | _⟩ := out <;> exact .inr rfl
      · exact .inl rfl

/-- A check leaves at most a cached warning behind. -/
theorem clearCache_checkOrder (ask : Symbol → Option (List String)) (intent : OrderIntent)
    (price : Option Decimal) :
    (rm.checkOrder st now snapshot ask intent price).1.clearCache = rm.clearCache := by
  rcases rm.checkOrder_risk st now snapshot ask intent price with h | h
  · rw [h]
  · rw [h]
    unfold buyWarnings
    split
    · split <;> rfl
    · rfl

/-- Exactly when a BUY passes. -/
theorem checkOrder_buy_iff (ask : Symbol → Option (List String)) {intent : OrderIntent}
    (price : Option Decimal) (hbuy : intent.side = .BUY) :
    (rm.checkOrder st now snapshot ask intent price).2 = .allow ↔
      0 < snapshot.equityKrw ∧ 0 < rm.remainingOrderBudget st now ∧
        (exposureKrw snapshot intent.symbol + notionalKrw snapshot intent price) /
          snapshot.equityKrw ≤ rm.weightLimitFor intent.symbol ∧
        (snapshot.positionValueKrw + notionalKrw snapshot intent price) / snapshot.equityKrw ≤
          rm.settings.maxGrossExposure ∧
        notionalKrw snapshot intent price ≤ snapshot.cashKrw ∧
        (rm.buyWarnings ask intent.symbol).2 = [] := by
  unfold checkOrder
  by_cases hequity : snapshot.equityKrw ≤ 0
  · simp [hequity]
  · by_cases hbudget : rm.remainingOrderBudget st now ≤ 0
    · simp [hequity, hbudget]
    · rw [if_neg hequity, if_neg hbudget, hbuy]
      simp only [checkBuy, not_le.mp hequity, not_le.mp hbudget, true_and]
      by_cases hweight : rm.weightLimitFor intent.symbol <
          (exposureKrw snapshot intent.symbol + notionalKrw snapshot intent price) / snapshot.equityKrw
      · simp [hweight]
      · by_cases hgross : rm.settings.maxGrossExposure <
            (snapshot.positionValueKrw + notionalKrw snapshot intent price) / snapshot.equityKrw
        · simp [hweight, hgross]
        · by_cases hcash : snapshot.cashKrw < notionalKrw snapshot intent price
          · simp [hweight, hgross, hcash]
          · rw [if_neg hweight, if_neg hgross, if_neg hcash]
            simp only [not_lt.mp hweight, not_lt.mp hgross, not_lt.mp hcash, true_and]
            generalize rm.buyWarnings ask intent.symbol = out
            obtain ⟨rm', _ | _⟩ := out <;> simp

end Checks
end RiskManager
end Tqt
