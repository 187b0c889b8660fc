import Tqt.Calendar
import Mathlib.Tactic.IntervalCases

/-! Day numbers and ISO weeks.

`ordinal` is `date.toordinal()`: days counted from 0001-01-01, a Monday. `isocalendar` is
the standard library's: the ISO year and week of a date, from the Monday of the week that
contains the fourth of January. Weeks can be counted through as well (`weekNumber`), and
two dates have the same ISO year and week exactly when they are in the same week of that
count (`isoWeek_eq_iff`). -/
namespace Tqt.Date

/-- A date of the calendar. -/
structure Valid (d : Date) : Prop where
  year_pos : 1 ≤ d.year
  month_pos : 1 ≤ d.month
  month_le : d.month ≤ 12
  day_pos : 1 ≤ d.day
  day_le : d.day ≤ daysInMonth d.year d.month

instance (d : Date) : Decidable d.Valid :=
  decidable_of_iff (1 ≤ d.year ∧ 1 ≤ d.month ∧ d.month ≤ 12 ∧ 1 ≤ d.day ∧
    d.day ≤ daysInMonth d.year d.month)
    ⟨fun h => ⟨h.1, h.2.1, h.2.2.1, h.2.2.2.1, h.2.2.2.2⟩,
      fun h => ⟨h.year_pos, h.month_pos, h.month_le, h.day_pos, h.day_le⟩⟩

/-! ### Days -/

/-- `_days_before_year`. -/
def daysBeforeYear (year : ℤ) : ℤ :=
  (year - 1) * 365 + (year - 1) / 4 - (year - 1) / 100 + (year - 1) / 400

/-- `_DAYS_BEFORE_MONTH`. -/
def daysBefore : List ℕ := [0, 31, 59, 90, 120, 151, 181, 212, 243, 273, 304, 334]

/-- `_days_before_month`. -/
def daysBeforeMonth (year month : ℕ) : ℕ :=
  daysBefore.getD (month - 1) 0 + if 2 < month ∧ isLeap year then 1 else 0

/-- `toordinal()`. -/
def ordinal (d : Date) : ℤ := daysBeforeYear d.year + daysBeforeMonth d.year d.month + d.day

theorem daysInMonth_le (year month : ℕ) : daysInMonth year month ≤ 31 := by
  unfold daysInMonth
  split
  · split <;> omega
  · split <;> omega

/-- The next month starts when this one is over. -/
theorem daysBeforeMonth_succ {year month : ℕ} (hpos : 1 ≤ month) (hle : month < 12) :
    daysBeforeMonth year (month + 1) = daysBeforeMonth year month + daysInMonth year month := by
  unfold daysBeforeMonth daysInMonth
  cases isLeap year <;> interval_cases month <;> rfl

theorem daysBeforeMonth_december (year : ℕ) :
    daysBeforeMonth year 12 + daysInMonth year 12 = if isLeap year then 366 else 365 := by
  unfold daysBeforeMonth
  cases isLeap year <;> rfl

theorem daysBeforeMonth_mono (year : ℕ) {first second : ℕ} (hpos : 1 ≤ first) (hlt : first < second)
    (hle : second ≤ 12) :
    daysBeforeMonth year first + daysInMonth year first ≤ daysBeforeMonth year second := by
  induction second, hlt using Nat.le_induction with
  | base => exact (daysBeforeMonth_succ hpos (by omega)).ge
  | succ second h ih =>
    have := ih (by omega)
    rw [daysBeforeMonth_succ (by omega) (by omega)]
    omega

/-- Between two years a month moves by the leap day at most. -/
theorem daysBeforeMonth_near (year year' month : ℕ) :
    daysBeforeMonth year month ≤ daysBeforeMonth year' month + 1 := by
  unfold daysBeforeMonth
  split <;> omega

theorem daysBeforeYear_succ (year : ℕ) :
    daysBeforeYear (year + 1) = daysBeforeYear year + if isLeap year then 366 else 365 := by
  unfold daysBeforeYear isLeap
  simp only [Bool.and_eq_true, beq_iff_eq, Bool.or_eq_true, bne_iff_ne, ne_eq]
  split <;> omega

theorem daysBeforeYear_step (year : ℤ) :
    daysBeforeYear year + 365 ≤ daysBeforeYear (year + 1) ∧
      daysBeforeYear (year + 1) ≤ daysBeforeYear year + 366 := by
  unfold daysBeforeYear
  omega

theorem daysBeforeYear_mono {first second : ℕ} (h : first < second) :
    daysBeforeYear (first + 1) ≤ daysBeforeYear second := by
  induction second, h using Nat.le_induction with
  | base => exact le_rfl
  | succ second h ih =>
    have := daysBeforeYear_step second
    push_cast
    omega

/-- The days of a year lie between the years. -/
theorem Valid.ordinal_bounds {d : Date} (h : d.Valid) :
    daysBeforeYear d.year < d.ordinal ∧ d.ordinal ≤ daysBeforeYear (d.year + 1) := by
  obtain ⟨-, hmpos, hmle, hdpos, hdle⟩ := h
  have hyear := daysBeforeMonth_december d.year
  have hsucc := daysBeforeYear_succ d.year
  have hmonth : daysBeforeMonth d.year d.month + daysInMonth d.year d.month ≤
      daysBeforeMonth d.year 12 + daysInMonth d.year 12 := by
    rcases Nat.lt_or_eq_of_le hmle with hlt | heq
    · have := daysBeforeMonth_mono d.year hmpos hlt le_rfl
      omega
    · rw [heq]
  unfold ordinal
  split at hyear <;> simp_all <;> omega

/-- **Later dates have later numbers.** -/
theorem ordinal_lt {a b : Date} (ha : a.Valid) (hb : b.Valid) (h : a < b) :
    a.ordinal < b.ordinal := by
  rcases (lt_iff a b).mp h with hyear | ⟨hyear, hmonth | ⟨hmonth, hday⟩⟩
  · have hab := daysBeforeYear_mono hyear
    have := ha.ordinal_bounds
    have := hb.ordinal_bounds
    omega
  · have hab := daysBeforeMonth_mono a.year ha.month_pos hmonth hb.month_le
    have := ha.day_le
    have := hb.day_pos
    unfold ordinal
    rw [← hyear]
    omega
  · unfold ordinal
    rw [hyear, hmonth]
    omega

/-- The same month of another year is far away. -/
theorem same_month_far {a b : Date} (ha : a.Valid) (hb : b.Valid) (hyear : a.year < b.year)
    (hmonth : a.month = b.month) : a.ordinal + 28 ≤ b.ordinal := by
  have hab := daysBeforeYear_mono hyear
  have hstep := daysBeforeYear_step a.year
  have hnear := daysBeforeMonth_near a.year b.year a.month
  have hdays := daysInMonth_le a.year a.month
  have := ha.day_le
  have := hb.day_pos
  unfold ordinal
  rw [← hmonth]
  omega

/-! ### Weeks -/

/-- `_isoweek1monday`: the Monday that starts the first week of a year. -/
def isoWeek1Monday (year : ℤ) : ℤ :=
  let firstDay := daysBeforeYear year + 1
  let firstWeekday := (firstDay + 6) % 7
  if 3 < firstWeekday then firstDay - firstWeekday + 7 else firstDay - firstWeekday

/-- `isocalendar()`, the year and the week of it. -/
def isocalendar (d : Date) : ℤ × ℤ :=
  let year : ℤ := d.year
  let week := (d.ordinal - isoWeek1Monday year) / 7
  if week < 0 then (year - 1, (d.ordinal - isoWeek1Monday (year - 1)) / 7 + 1)
  else if 52 ≤ week ∧ isoWeek1Monday (year + 1) ≤ d.ordinal then (year + 1, 1)
  else (year, week + 1)

/-- Weeks counted through from 0001-01-01. -/
def weekNumber (d : Date) : ℤ := (d.ordinal - 1) / 7

/-- The number of the first week of an ISO year. -/
def firstWeek (year : ℤ) : ℤ := (isoWeek1Monday year - 1) / 7

theorem isoWeek1Monday_eq (year : ℤ) : isoWeek1Monday year = 7 * firstWeek year + 1 := by
  unfold firstWeek isoWeek1Monday
  simp only
  split <;> omega

/-- It holds the fourth of January. -/
theorem isoWeek1Monday_near (year : ℤ) :
    daysBeforeYear year - 2 ≤ isoWeek1Monday year ∧ isoWeek1Monday year ≤ daysBeforeYear year + 4 := by
  unfold isoWeek1Monday
  simp only
  split <;> omega

theorem firstWeek_step (year : ℤ) : firstWeek year + 52 ≤ firstWeek (year + 1) := by
  have := daysBeforeYear_step year
  unfold firstWeek isoWeek1Monday
  simp only
  split <;> split <;> omega

theorem firstWeek_mono {first second : ℤ} (h : first < second) :
    firstWeek first + 52 ≤ firstWeek second := by
  induction second, h using Int.leInduction with
  | base => exact firstWeek_step first
  | succ second h ih =>
    have := firstWeek_step second
    omega

theorem firstWeek_succ_le {first second : ℤ} (h : first < second) :
    firstWeek (first + 1) ≤ firstWeek second := by
  rcases Int.lt_or_eq_of_le (Int.add_one_le_of_lt h) with hmore | hnext
  · have := firstWeek_mono hmore
    omega
  · rw [hnext]

/-- **The ISO year and week are the week's number**, counted from the first week of the year
it lies in. -/
theorem Valid.isocalendar_eq {d : Date} (h : d.Valid) :
    d.isocalendar.2 = d.weekNumber - firstWeek d.isocalendar.1 + 1 ∧
      firstWeek d.isocalendar.1 ≤ d.weekNumber ∧ d.weekNumber < firstWeek (d.isocalendar.1 + 1) := by
  obtain ⟨hlow, hhigh⟩ := h.ordinal_bounds
  have hprev := daysBeforeYear_step (d.year - 1)
  rw [sub_add_cancel] at hprev
  have hnear := isoWeek1Monday_near d.year
  have hnear' := isoWeek1Monday_near (d.year + 1)
  have hnear'' := isoWeek1Monday_near (d.year - 1)
  have hfirst := isoWeek1Monday_eq d.year
  have hfirst' := isoWeek1Monday_eq (d.year + 1)
  have hfirst'' := isoWeek1Monday_eq (d.year - 1)
  have hstep := firstWeek_step d.year
  unfold isocalendar weekNumber
  simp only
  split
  · -- The last days of December's week, before the first Monday.
    simp only [sub_add_cancel]
    omega
  · split
    · -- Already in the first week of the next year.
      have hnext := firstWeek_step (d.year + 1)
      simp only
      omega
    · simp only
      omega

/-- Same ISO year and week, same week. -/
theorem isocalendar_eq_iff {a b : Date} (ha : a.Valid) (hb : b.Valid) :
    a.isocalendar = b.isocalendar ↔ a.weekNumber = b.weekNumber := by
  obtain ⟨hweek, hlow, hhigh⟩ := ha.isocalendar_eq
  obtain ⟨hweek', hlow', hhigh'⟩ := hb.isocalendar_eq
  constructor
  · intro h
    rw [h] at hweek
    omega
  · intro h
    have hyear : a.isocalendar.1 = b.isocalendar.1 := by
      rcases lt_trichotomy a.isocalendar.1 b.isocalendar.1 with hlt | heq | hgt
      · have := firstWeek_succ_le hlt
        omega
      · exact heq
      · have := firstWeek_succ_le hgt
        omega
    refine Prod.ext hyear ?_
    rw [hweek, hweek', h, hyear]

theorem weekNumber_mono {a b : Date} (ha : a.Valid) (hb : b.Valid) (h : a < b) :
    a.weekNumber ≤ b.weekNumber := by
  have := ordinal_lt ha hb h
  unfold weekNumber
  omega

/-- The same week of another ISO year is far away. -/
theorem same_week_far {a b : Date} (ha : a.Valid) (hb : b.Valid) (h : a < b)
    (hweek : a.isocalendar.2 = b.isocalendar.2) (hne : a.weekNumber ≠ b.weekNumber) :
    a.ordinal + 28 ≤ b.ordinal := by
  obtain ⟨ha', hlow, hhigh⟩ := ha.isocalendar_eq
  obtain ⟨hb', hlow', hhigh'⟩ := hb.isocalendar_eq
  have hmono := weekNumber_mono ha hb h
  have hyear : a.isocalendar.1 ≠ b.isocalendar.1 := by
    intro heq
    rw [heq] at ha'
    omega
  have hlt : a.isocalendar.1 < b.isocalendar.1 := by
    rcases lt_or_gt_of_ne hyear with hlt | hgt
    · exact hlt
    · have := firstWeek_mono hgt
      omega
  have hfar := firstWeek_mono hlt
  have hweeks : a.weekNumber + 52 ≤ b.weekNumber := by omega
  unfold weekNumber at hweeks
  omega

end Tqt.Date
