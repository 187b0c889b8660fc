import Tqt.Runner.Pending
import Tqt.Runner.Schedule
import Tqt.Runner.Sleeves
import Tqt.Strategy.Momentum

/-! One cadence for every allocation.

A backtest asks each strategy for its own `rebalance_dates`. The runner asks for the
plan's cadence, and where that is due in one market of the cycle it plans for all
allocations at once: what an allocation's own schedule says is not asked. Its orders
keep to that schedule exactly where the plan's cadence happens to
(`planned_on_schedule_iff`); a yearly allocation of a monthly plan does not
(`due_on_schedule_iff`). -/
namespace Tqt

/-- An allocation with its strategy of the registry: a `[[sleeve]]` of the plan's file. -/
structure PlanEntry where
  sleeve : Sleeve
  params : StrategyParams
  weight : Decimal

def PlanEntry.allocation (e : PlanEntry) : Allocation := e.params.allocate e.sleeve e.weight

structure RegistryPlan where
  entries : List PlanEntry
  rebalance : String := "monthly"
  nonempty : entries ≠ []
  unlevered : (entries.map PlanEntry.weight).sum ≤ 10001 / 10000
  nonneg : ∀ e ∈ entries, 0 ≤ e.weight

namespace RegistryPlan

def plan (p : RegistryPlan) : PortfolioPlan where
  allocations := p.entries.map PlanEntry.allocation
  rebalance := p.rebalance
  nonempty := by simpa using p.nonempty
  unlevered := by
    rw [List.map_map]
    exact p.unlevered
  nonneg := by
    intro a ha
    obtain ⟨e, he, rfl⟩ := List.mem_map.mp ha
    exact p.nonneg e he

/-- The symbol belongs to the sleeve of `e`, and to that of no other allocation. -/
def Own (p : RegistryPlan) (e : PlanEntry) (x : Symbol) : Prop :=
  ∃ front back, p.entries = front ++ e :: back ∧ x ∈ e.sleeve.symbols ∧
    ∀ e' ∈ front ++ back, x ∉ e'.sleeve.symbols

end RegistryPlan

namespace Runner

/-- When and where a cycle is run: what the exchanges answer about their calendars, the
markets it is for, and the local price data. -/
structure Occasion where
  calendar : Country → Option MarketCalendar
  markets : List Country
  data : LocalData

/-- The account a cycle meets: what `check_cycle` says of it, what it holds, the quotes. -/
structure Account where
  verdict : Verdict := .allow
  snapshot : AccountSnapshot
  prices : Symbol → Option Decimal

namespace Occasion

/-- A rebalance is due in one of the markets. -/
def due (o : Occasion) (plan : PortfolioPlan) : Bool := o.markets.any (isRebalanceDay plan o.calendar)

/-- The day it is at an exchange. -/
def day (o : Occasion) (country : Country) : Option Date :=
  (o.calendar country).bind fun cal => cal.today.date

end Occasion

/-- The orders `_cycle` plans. -/
def cycleOrders (plan : PortfolioPlan) (o : Occasion) (force : Bool) (account : Account) :
    List (OrderIntent × Decimal) :=
  if account.verdict ≠ .allow then []
  else if o.markets = [] then []
  else if !(force || o.due plan) then []
  else cycleIntents plan o.data account.snapshot o.markets account.prices

/-- The day is one of those on which a backtest over `days` lets the strategy act. -/
def OnSchedule (days : Country → List Date) (o : Occasion) (e : PlanEntry) (x : Symbol) : Prop :=
  ∃ d, o.day (countryOf x) = some d ∧ d ∈ e.params.rebalanceDates (days (countryOf x))

/-! ### What is planned -/

section
variable (targets : Dict Symbol Decimal) {markets : List Country} {x : Symbol}

/-- Two shares at one won each. -/
def twoShares (x : Symbol) : AccountSnapshot where
  cashKrw := 0
  positions := Dict.ofList [(x, ⟨x, 2, 1, .KRW⟩)]
  usdKrw := 1

def twoWon : AccountSnapshot where
  cashKrw := 2
  positions := ∅
  usdKrw := 1

theorem twoShares_equity (x : Symbol) : (twoShares x).equityIn Context.fix = 2 := by
  show Context.fix (0 + Context.fix (0 + Context.fix (1 * 2))) = 2
  decide +kernel

theorem twoShares_held (x : Symbol) : heldIn Context.fix (twoShares x) x = 1 := by
  have hpos : (twoShares x).positions.get? x = some ⟨x, 2, 1, .KRW⟩ := Dict.get?_insert_self ∅ x _
  rw [heldIn, AccountSnapshot.weightsIn, if_neg (by rw [twoShares_equity]; norm_num), Dict.getD,
    Dict.get?_mapValues, hpos, twoShares_equity]
  show Context.fix (Context.fix (1 * 2) / 2) = 1
  decide +kernel

/-- With two won and a price of one, half the account is a whole share. -/
theorem half_wide {gap : Decimal} (h : 1 / 2 ≤ gap) : wide.Mem gap ∧ (worthShare 1 2).Mem gap := by
  have hwide : wide.Mem (1 / 2) := by decide +kernel
  have hworth : (worthShare 1 2).Mem (1 / 2) := by decide +kernel
  exact ⟨hwide.mono h, hworth.mono h⟩

theorem fxOf_pos {snapshot : AccountSnapshot} (h : snapshot.usdKrw = 1) : 0 < snapshot.fxOf x := by
  unfold AccountSnapshot.fxOf
  split
  · rw [h]
    norm_num
  · exact one_pos

/-- A symbol with half the account as its target is bought with cash. -/
theorem twoWon_exposed (hmarket : countryOf x ∈ markets) (hwant : 1 / 2 ≤ targets.getD x 0) :
    Exposed (targets.getD x 0) twoWon markets (fun _ => some 1) x .BUY := by
  have hequity : twoWon.equityIn Context.fix = 2 := by decide +kernel
  have hheld : heldIn Context.fix twoWon x = 0 := by
    unfold heldIn AccountSnapshot.weightsIn
    split <;> rfl
  have hgap : 1 / 2 ≤ gap (targets.getD x 0) (heldIn Context.fix twoWon x) .BUY := by
    rw [gap, hheld, sub_zero]
    exact hwant
  obtain ⟨hwide, hworth⟩ := half_wide hgap
  refine ⟨by rw [hequity]; norm_num, hmarket, hwide, ⟨1, rfl, one_pos, fxOf_pos rfl, fun _ => ?_⟩, ?_⟩
  · rw [hequity]
    exact hworth
  · intro hsell
    cases hsell

/-- One with less is sold where it is all there is. -/
theorem twoShares_exposed (hmarket : countryOf x ∈ markets) (hwant : targets.getD x 0 < 1 / 2) :
    Exposed (targets.getD x 0) (twoShares x) markets (fun _ => some 1) x .SELL := by
  have hgap : 1 / 2 ≤ gap (targets.getD x 0) (heldIn Context.fix (twoShares x) x) .SELL := by
    rw [gap, twoShares_held]
    linarith
  obtain ⟨hwide, hworth⟩ := half_wide hgap
  refine ⟨by rw [twoShares_equity]; norm_num, hmarket, hwide,
    ⟨1, rfl, one_pos, fxOf_pos rfl, fun _ => ?_⟩, fun _ => ⟨⟨x, 2, 1, .KRW⟩, Dict.get?_insert_self ∅ x _, ?_⟩⟩
  · rw [twoShares_equity]
    exact hworth
  · have htwo : (1 : Decimal) ≤ 2 := by norm_num
    exact one_pos.trans_le (one_le_wholeInKr x htwo)

/-- Whatever the targets, some account makes the planner order the symbol. -/
theorem exists_planned (hmarket : countryOf x ∈ markets) :
    ∃ snapshot prices, ∃ order ∈ buildIntentsIn Context.fix targets snapshot markets prices,
      order.1.symbol = x := by
  have hexposed : ∃ snapshot prices side, Exposed (targets.getD x 0) snapshot markets prices x side := by
    rcases le_or_gt (1 / 2) (targets.getD x 0) with hwant | hwant
    · exact ⟨twoWon, _, .BUY, twoWon_exposed targets hmarket hwant⟩
    · exact ⟨twoShares x, _, .SELL, twoShares_exposed targets hmarket hwant⟩
  obtain ⟨snapshot, prices, side, hexposed⟩ := hexposed
  obtain ⟨order, horder, hsym, -⟩ := exposed_iff.mp hexposed
  exact ⟨snapshot, prices, order, horder, hsym⟩

end

/-! ### The schedules -/

/-- Only what is due is planned, and only for the markets of the cycle. -/
theorem cycleOrders_due {plan : PortfolioPlan} {o : Occasion} {account : Account}
    {order : OrderIntent × Decimal} (h : order ∈ cycleOrders plan o false account) :
    o.due plan = true ∧ (∃ a ∈ plan.allocations, a.Decides o.data none) ∧
      countryOf order.1.symbol ∈ o.markets := by
  unfold cycleOrders at h
  split at h
  · cases h
  · split at h
    · cases h
    · split at h
      · cases h
      · next hdue =>
        simp only [Bool.false_or, Bool.not_eq_true', Bool.not_eq_false] at hdue
        simp only [cycleIntents] at h
        split at h
        · cases h
        · next htargets =>
          obtain ⟨-, symbol, drift, -, hplan⟩ := (mem_buildIntentsIn ..).mp h
          have hplanned := planSymbolIn_planned hplan
          rw [← hplanned.intent_symbol] at hplanned
          exact ⟨hdue, (plan.targetWeightsIn_ne_nil_iff Context.fix o.data none).mp htargets, hplanned.market⟩

/-- Where a rebalance is due, some account makes the cycle order the symbol. -/
theorem exists_ordered {plan : PortfolioPlan} {o : Occasion} {x : Symbol} (hdue : o.due plan = true)
    (hdecides : ∃ a ∈ plan.allocations, a.Decides o.data none) (hmarket : countryOf x ∈ o.markets) :
    ∃ account, ∃ order ∈ cycleOrders plan o false account, order.1.symbol = x := by
  obtain ⟨snapshot, prices, order, hmem, hsym⟩ :=
    exists_planned (plan.targetWeightsIn Context.fix o.data none) hmarket
  refine ⟨⟨.allow, snapshot, prices⟩, order, ?_, hsym⟩
  have hmarkets : o.markets ≠ [] := List.ne_nil_of_mem hmarket
  have htargets := (plan.targetWeightsIn_ne_nil_iff Context.fix o.data none).mpr hdecides
  unfold cycleOrders
  simp only [ne_eq, not_true, if_false, hmarkets, hdue, Bool.or_true, Bool.not_true,
    Bool.false_eq_true, cycleIntents, htargets]
  exact hmem

/-- **Live orders against the backtest's schedule.** Over the runs of unforced cycles on the
given occasions, whatever accounts they meet, the orders for an allocation's own symbols keep
to its schedule exactly where every occasion on which the plan's cadence is due does. -/
theorem planned_on_schedule_iff (p : RegistryPlan) (days : Country → List Date)
    (occasions : List Occasion) :
    (∀ run : List (Occasion × Account), run.map Prod.fst = occasions → ∀ t ∈ run,
        ∀ order ∈ cycleOrders p.plan t.1 false t.2, ∀ e, p.Own e order.1.symbol →
          OnSchedule days t.1 e order.1.symbol) ↔
      ∀ o ∈ occasions, o.due p.plan = true → (∃ a ∈ p.plan.allocations, a.Decides o.data none) →
        ∀ e x, p.Own e x → countryOf x ∈ o.markets → OnSchedule days o e x := by
  constructor
  · intro h o ho hdue hdecides e x hown hmarket
    obtain ⟨account, order, hmem, rfl⟩ := exists_ordered hdue hdecides hmarket
    -- the run that meets this account on every occasion
    have hrun : (occasions.map fun o' => (o', account)).map Prod.fst = occasions := by
      rw [List.map_map]
      exact List.map_id occasions
    exact h _ hrun (o, account) (List.mem_map_of_mem ho) order hmem e hown
  · intro h run hrun t ht order horder e hown
    obtain ⟨hdue, hdecides, hmarket⟩ := cycleOrders_due horder
    have ho : t.1 ∈ occasions := hrun ▸ List.mem_map_of_mem ht
    exact h t.1 ho hdue hdecides e order.1.symbol hown hmarket

/-- A yearly buy-and-hold. -/
def Yearly : StrategyParams → Prop
  | .buyAndHold rebalance => rebalance = "Y"
  | _ => False

/-- On the days of one exchange, a day on which a monthly plan is due is on the schedule of
every allocation that is not yearly, and on that of a yearly one in December. -/
theorem due_on_schedule_iff {front back : List Date} {d n : Date}
    (h : BusinessDays (front ++ d :: n :: back)) {plan : PortfolioPlan}
    (hmonthly : cadence plan = "monthly") {calendar : Country → Option MarketCalendar}
    {country : Country} {cal : MarketCalendar} (hcal : calendar country = some cal)
    (htoday : cal.today.date = some d) (hnext : cal.nextBusinessDay.date = some n)
    (hdue : isRebalanceDay plan calendar country = true) (params : StrategyParams) :
    d ∈ params.rebalanceDates (front ++ d :: n :: back) ↔ (Yearly params → d.year ≠ n.year) := by
  have hmonth : d ∈ monthEndDates (front ++ d :: n :: back) := by
    rw [mem_monthEndDates h]
    simp only [isRebalanceDay, hcal, htoday, hnext, hmonthly] at hdue
    split at hdue
    · cases hdue
    · simpa using hdue
  have hyear : d ∈ yearEndDates (front ++ d :: n :: back) ↔ n.year ≠ d.year :=
    mem_lastOfEach_next h.nodup (h.pairwise fun _ _ _ _ => Date.year_mono)
  have hdays : front ++ d :: n :: back ≠ [] := by simp
  cases params with
  | buyAndHold rebalance =>
    simp only [StrategyParams.rebalanceDates, Yearly]
    by_cases hy : rebalance = "Y"
    · rw [if_pos ⟨hy, hdays⟩, hyear]
      exact ⟨fun hne _ => hne.symm, fun hne => (hne hy).symm⟩
    · rw [if_neg fun hy' => hy hy'.1]
      exact iff_of_true hmonth fun hy' => absurd hy' hy
  | dualMomentum lookback topN floor => exact iff_of_true hmonth False.elim
  | vaa topN breadthB => exact iff_of_true hmonth False.elim
  | faber smaDays => exact iff_of_true hmonth False.elim

/-! ### The yearly sleeve of a monthly plan -/

/-- `config/portfolio.toml`. -/
def portfolioToml : RegistryPlan where
  entries :=
    [⟨krGlobal, .faber 200, 1 / 2⟩, ⟨krGlobal, .dualMomentum 252 2 0, 1 / 4⟩,
      ⟨usGlobal, .buyAndHold "Y", 1 / 4⟩]
  rebalance := "monthly"
  nonempty := List.cons_ne_nil _ _
  unlevered := by norm_num
  nonneg := by norm_num

/-- The US cycle on the last session of January 2026. -/
def january : Occasion where
  calendar := dayBefore ⟨2026, 1, 30⟩ ⟨2026, 2, 2⟩
  markets := [.US]
  data := everything

def millionWon : Account where
  snapshot := .allCash 1000000
  prices := fun _ => some 100

/-- The yearly sleeve of the US. -/
def usYearly : PlanEntry := ⟨usGlobal, .buyAndHold "Y", 1 / 4⟩

/-- It is bought at the end of January, when no year ends. -/
theorem yearly_bought_in_january :
    portfolioToml.Own usYearly "SPY" ∧
      (∃ order ∈ cycleOrders portfolioToml.plan january false millionWon,
        order.1.symbol = "SPY" ∧ order.1.side = .BUY) ∧
      ¬ OnSchedule (fun _ => [⟨2026, 1, 29⟩, ⟨2026, 1, 30⟩, ⟨2026, 2, 2⟩]) january usYearly "SPY" := by
  refine ⟨⟨portfolioToml.entries.take 2, [], rfl, by decide +kernel, by decide +kernel⟩,
    by decide +kernel, ?_⟩
  rintro ⟨d, hd, hmem⟩
  obtain rfl : ⟨2026, 1, 30⟩ = d := Option.some.inj hd
  revert hmem
  decide +kernel

end Runner
end Tqt
