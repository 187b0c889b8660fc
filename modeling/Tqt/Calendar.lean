import Tqt.Foundation.Groups
import Mathlib.Data.Prod.Lex
import Mathlib.Order.Fin.Basic
import Mathlib.Tactic.Linarith

/-! Dates, instants and the two clocks of the bot.

An instant is a UTC date and a second of that day: what `utcnow()` renders as an
ISO-8601 string with fixed-width fields, so that the order of the strings is the order
of the instants and a ten-character prefix is the date. `Instant.kst` is the calendar
date in Korea, nine hours ahead; `today_kst()` and the UTC date of the same instant
differ from 15:00 UTC (midnight in Korea) to midnight UTC. -/
namespace Tqt

structure Date where
  year : ℕ
  month : ℕ
  day : ℕ
deriving DecidableEq, Repr

namespace Date

def fields (d : Date) : ℕ ×ₗ ℕ ×ₗ ℕ := toLex (d.year, toLex (d.month, d.day))

theorem fields_injective : Function.Injective fields := by
  intro a b h
  cases a
  cases b
  simpa [fields] using h

instance : LinearOrder Date := LinearOrder.lift' fields fields_injective

theorem lt_iff (a b : Date) : a < b ↔ a.year < b.year ∨ a.year = b.year ∧
    (a.month < b.month ∨ a.month = b.month ∧ a.day < b.day) := by
  show fields a < fields b ↔ _
  simp [fields, Prod.Lex.toLex_lt_toLex]

def isLeap (year : ℕ) : Bool := year % 4 == 0 && (year % 100 != 0 || year % 400 == 0)

def daysInMonth (year month : ℕ) : ℕ :=
  if month = 2 then (if isLeap year then 29 else 28)
  else if month = 4 ∨ month = 6 ∨ month = 9 ∨ month = 11 then 30 else 31

/-- The following day. -/
def next (d : Date) : Date :=
  if d.day < daysInMonth d.year d.month then ⟨d.year, d.month, d.day + 1⟩
  else if d.month < 12 then ⟨d.year, d.month + 1, 1⟩
  else ⟨d.year + 1, 1, 1⟩

theorem lt_next (d : Date) : d < d.next := by
  rw [lt_iff]
  unfold next
  split
  · simp
  · split <;> simp

/-- What `groupby([index.year, index.month])` groups by. -/
def yearMonth (d : Date) : ℕ ×ₗ ℕ := toLex (d.year, d.month)

theorem yearMonth_mono {a b : Date} (h : a < b) : yearMonth a ≤ yearMonth b := by
  rw [lt_iff] at h
  simp only [yearMonth, Prod.Lex.toLex_le_toLex]
  omega

theorem year_mono {a b : Date} (h : a < b) : a.year ≤ b.year := by
  rw [lt_iff] at h
  omega

end Date

instance secondsOfDay : NeZero 86400 := ⟨by decide⟩

/-- A UTC timestamp, to the second. -/
structure Instant where
  date : Date
  second : Fin 86400
deriving DecidableEq, Repr

namespace Instant

def fields (t : Instant) : Date ×ₗ Fin 86400 := toLex (t.date, t.second)

theorem fields_injective : Function.Injective fields := by
  intro a b h
  cases a
  cases b
  simpa [fields] using h

instance : LinearOrder Instant := LinearOrder.lift' fields fields_injective

theorem le_iff (a b : Instant) :
    a ≤ b ↔ a.date < b.date ∨ a.date = b.date ∧ a.second ≤ b.second := by
  show fields a ≤ fields b ↔ _
  simp [fields, Prod.Lex.toLex_le_toLex]

/-- The calendar date in Korea (UTC+9) at this instant: `today_kst()`. -/
def kst (t : Instant) : Date := if t.second.val + 9 * 3600 < 86400 then t.date else t.date.next

/-- Before 15:00 UTC the two calendars agree. -/
theorem kst_eq_date (t : Instant) : t.kst = t.date ↔ t.second.val < 54000 := by
  unfold kst
  constructor
  · intro h
    by_contra hge
    rw [if_neg (by omega)] at h
    exact absurd h (ne_of_gt t.date.lt_next)
  · intro h
    rw [if_pos (by omega)]

/-- What carries today's date in Korea as its UTC date, and is not later than now, happened
today in Korea. -/
theorem kst_eq_of_date_eq {t now : Instant} (h : t ≤ now) (hd : t.date = now.kst) :
    t.kst = now.kst := by
  rw [le_iff] at h
  by_cases hday : now.second.val + 9 * 3600 < 86400
  · have hkst : now.kst = now.date := if_pos hday
    rw [hkst] at hd ⊢
    rw [← hd, kst_eq_date]
    rcases h with h | h
    · exact absurd hd (ne_of_lt h)
    · have := Fin.le_def.mp h.2
      omega
  · have hkst : now.kst = now.date.next := if_neg hday
    rw [hkst] at hd
    have hlt : now.date < t.date := hd ▸ now.date.lt_next
    rcases h with h | h
    · exact absurd (lt_trans h hlt) (lt_irrefl _)
    · exact absurd hlt (h.1 ▸ lt_irrefl _)

end Instant
end Tqt
