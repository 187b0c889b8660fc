import Tqt.Calendar.Week
import Tqt.Portfolio

/-! When the runner rebalances.

`isRebalanceDay` compares today with the next business day, both from the exchange's
calendar: the week or the month changes between them. A backtest groups a whole list of
days by year and month, or by ISO year and week, and takes the last of each group. On
days that follow each other within four weeks the two agree (`schedules_agree`), whatever
the list holds before and after. -/
namespace Tqt

/-- A trading session of the exchange calendar. -/
structure Session where
  startTime : Instant
  endTime : Instant

/-- A day of the calendar: its date as `fromisoformat` reads it, nothing where that raises,
and its regular session. A holiday has none. -/
structure MarketDay where
  date : Option Date
  regularMarket : Option Session

def MarketDay.isOpenDay (d : MarketDay) : Bool := d.regularMarket.isSome

structure MarketCalendar where
  today : MarketDay
  nextBusinessDay : MarketDay

/-- Last available trading day of each ISO week in `index`. -/
def weekEndDates (index : List Date) : List Date := lastOfEach Date.isocalendar index

namespace Runner

/-- `str.lower`, as far as the words below need it. Outside ASCII, only the Kelvin sign has one
of their letters as its lower case. -/
def lower (s : String) : String := s.map fun c => if c = Char.ofNat 0x212A then 'k' else c.toLower

def cadence (plan : PortfolioPlan) : String :=
  lower (if plan.rebalance = "" then "monthly" else plan.rebalance)

/-- True on the last business day of the period. `calendar` is nothing where asking raises. -/
def isRebalanceDay (plan : PortfolioPlan) (calendar : Country → Option MarketCalendar)
    (country : Country) : Bool :=
  match calendar country with
  | none => false
  | some cal =>
    if !cal.today.isOpenDay then false
    else match cal.today.date, cal.nextBusinessDay.date with
      | some today, some next =>
        if cadence plan = "weekly" then today.isocalendar.2 != next.isocalendar.2
        else if cadence plan = "daily" then true
        else today.month != next.month
      | _, _ => false

/-- Business days in order, each less than four weeks after the one before. -/
structure BusinessDays (days : List Date) : Prop where
  valid : ∀ d ∈ days, d.Valid
  increasing : days.Pairwise (· < ·)
  gaps : days.IsChain fun a b => b.ordinal - a.ordinal < 28

section
variable {days front back : List Date} {d n : Date}

theorem BusinessDays.gap (h : BusinessDays (front ++ d :: n :: back)) : n.ordinal - d.ordinal < 28 :=
  (List.isChain_append_cons_cons.mp h.gaps).2.1

theorem BusinessDays.next (h : BusinessDays (front ++ d :: n :: back)) :
    d.Valid ∧ n.Valid ∧ d < n := by
  refine ⟨h.valid d (by simp), h.valid n (by simp), ?_⟩
  obtain ⟨-, hrest, -⟩ := List.pairwise_append.mp h.increasing
  exact List.rel_of_pairwise_cons hrest (List.mem_cons_self ..)

theorem BusinessDays.nodup (h : BusinessDays days) : days.Nodup := h.increasing.imp ne_of_lt

/-- A key that never decreases with the date. -/
theorem BusinessDays.pairwise {κ : Type*} [LE κ] {key : Date → κ} (h : BusinessDays days)
    (hkey : ∀ a ∈ days, ∀ b ∈ days, a < b → key a ≤ key b) :
    days.Pairwise fun a b => key a ≤ key b :=
  h.increasing.imp_of_mem fun ha hb => hkey _ ha _ hb

/-- The month ends with `d` when the next day has another month. -/
theorem mem_monthEndDates (h : BusinessDays (front ++ d :: n :: back)) :
    d ∈ monthEndDates (front ++ d :: n :: back) ↔ d.month ≠ n.month := by
  obtain ⟨hd, hn, hlt⟩ := h.next
  have hnext : d ∈ monthEndDates (front ++ d :: n :: back) ↔ n.yearMonth ≠ d.yearMonth :=
    mem_lastOfEach_next h.nodup (h.pairwise fun _ _ _ _ => Date.yearMonth_mono)
  rw [hnext]
  have hgap := h.gap
  constructor
  · intro hne hmonth
    have hyear : d.year < n.year := by
      refine lt_of_le_of_ne (Date.year_mono hlt) fun heq => hne ?_
      rw [Date.yearMonth, Date.yearMonth, heq, hmonth]
    -- Another year's month of the same number is four weeks away or more.
    have := Date.same_month_far hd hn hyear hmonth
    omega
  · intro hmonth heq
    apply hmonth
    have hfields : (n.year, n.month) = (d.year, d.month) := heq
    rw [Prod.mk.injEq] at hfields
    exact hfields.2.symm

/-- The week ends with `d` when the next day has another week number. -/
theorem mem_weekEndDates (h : BusinessDays (front ++ d :: n :: back)) :
    d ∈ weekEndDates (front ++ d :: n :: back) ↔ d.isocalendar.2 ≠ n.isocalendar.2 := by
  obtain ⟨hd, hn, hlt⟩ := h.next
  have hweeks : weekEndDates (front ++ d :: n :: back) =
      lastOfEach Date.weekNumber (front ++ d :: n :: back) :=
    lastOfEach_congr fun a ha b hb => Date.isocalendar_eq_iff (h.valid a ha) (h.valid b hb)
  have hmono : (front ++ d :: n :: back).Pairwise fun a b => a.weekNumber ≤ b.weekNumber :=
    h.pairwise fun a ha b hb => Date.weekNumber_mono (h.valid a ha) (h.valid b hb)
  rw [hweeks, mem_lastOfEach_next h.nodup hmono]
  have hgap := h.gap
  constructor
  · intro hne hweek
    have := Date.same_week_far hd hn hlt hweek (Ne.symm hne)
    omega
  · intro hweek heq
    exact hweek (congrArg Prod.snd ((Date.isocalendar_eq_iff hd hn).mpr heq.symm))

/-- **Live and backtest agree** on the last day of a month and of a week. -/
theorem schedules_agree (plan : PortfolioPlan) (country : Country)
    (h : BusinessDays (front ++ d :: n :: back)) {calendar : Country → Option MarketCalendar}
    {cal : MarketCalendar} (hcal : calendar country = some cal) (hopen : cal.today.isOpenDay = true)
    (htoday : cal.today.date = some d) (hnext : cal.nextBusinessDay.date = some n) :
    (cadence plan = "monthly" → (isRebalanceDay plan calendar country = true ↔
      d ∈ monthEndDates (front ++ d :: n :: back))) ∧
    (cadence plan = "weekly" → (isRebalanceDay plan calendar country = true ↔
      d ∈ weekEndDates (front ++ d :: n :: back))) := by
  rw [mem_monthEndDates h, mem_weekEndDates h]
  constructor
  · intro hmonthly
    simp [isRebalanceDay, hcal, hopen, htoday, hnext, hmonthly]
  · intro hweekly
    simp [isRebalanceDay, hcal, hopen, htoday, hnext, hweekly]

end

/-- One sleeve, all of the capital. -/
def onePlan (rebalance : String) : PortfolioPlan where
  allocations := [⟨krGlobal, "buy-and-hold", 1, buyAndHold krGlobal⟩]
  rebalance := rebalance
  nonempty := by simp
  unlevered := by norm_num
  nonneg := by simp

/-- An open day and the one after it, at every exchange. -/
def dayBefore (today next : Date) (_ : Country) : Option MarketCalendar :=
  some
    { today := ⟨some today, some ⟨⟨today, 0⟩, ⟨today, 23400⟩⟩⟩
      nextBusinessDay := ⟨some next, some ⟨⟨next, 0⟩, ⟨next, 23400⟩⟩⟩ }

/-- Around the end of January 2026, a Friday. -/
theorem schedules_agree_january :
    (isRebalanceDay (onePlan "Monthly") (dayBefore ⟨2026, 1, 30⟩ ⟨2026, 2, 2⟩) .KR = true ↔
      (⟨2026, 1, 30⟩ : Date) ∈ monthEndDates [⟨2026, 1, 29⟩, ⟨2026, 1, 30⟩, ⟨2026, 2, 2⟩]) ∧
    (isRebalanceDay (onePlan "weekly") (dayBefore ⟨2026, 1, 30⟩ ⟨2026, 2, 2⟩) .KR = true ↔
      (⟨2026, 1, 30⟩ : Date) ∈ weekEndDates [⟨2026, 1, 29⟩, ⟨2026, 1, 30⟩, ⟨2026, 2, 2⟩]) := by
  have hdays : BusinessDays ([⟨2026, 1, 29⟩] ++ ⟨2026, 1, 30⟩ :: ⟨2026, 2, 2⟩ :: []) :=
    ⟨by decide, by decide, by decide⟩
  exact ⟨(schedules_agree (onePlan "Monthly") .KR hdays rfl rfl rfl rfl).1 (by decide +kernel),
    (schedules_agree (onePlan "weekly") .KR hdays rfl rfl rfl rfl).2 (by decide +kernel)⟩

end Runner
end Tqt
