import Tqt.Calendar.Week
import Tqt.Foundation.Memo
import Tqt.Universe

/-! The market clock.

Every question about a market goes through one calendar a country and Korean date, fetched when it
is first needed and kept until the cache is cleared; a failed fetch is not kept. The answers given
between two clearings are therefore about one calendar, and agree with each other whatever the
exchange says meanwhile (`clock_consistent`). -/
namespace Tqt

/-- The regular session of a day, its times as `_parse` reads them. -/
structure SessionTimes where
  startTime : Option Instant
  endTime : Option Instant
deriving DecidableEq

/-- A day of a calendar. A Korean day has its regular session inside `integrated`, if it has any. -/
structure ClockDay where
  regularMarket : Option SessionTimes
deriving DecidableEq

def ClockDay.isOpenDay (d : ClockDay) : Bool := d.regularMarket.isSome

/-- A calendar as the exchange answers it. -/
structure ClockCalendar where
  today : ClockDay
  nextBusinessDay : ClockDay
deriving DecidableEq

structure SessionWindow where
  start : Option Instant
  close : Option Instant

def SessionWindow.contains (w : SessionWindow) (now : Instant) : Bool :=
  match w.start, w.close with
  | some start, some close => decide (start ≤ now ∧ now ≤ close)
  | _, _ => false

/-- Seconds from one instant to another. -/
def Instant.secondsTo (a b : Instant) : ℤ :=
  (b.date.ordinal - a.date.ordinal) * 86400 + (b.second.val - a.second.val)

/-- What one call of `_calendar` meets: the date in Korea, and the exchange's answer if it is asked;
nothing where asking raises. -/
structure Reading where
  date : Date
  answer : Option ClockCalendar

abbrev CalendarKey := Country × Date

/-- A `MarketClock`, with the calls its cache has seen. -/
structure MarketClock where
  cache : Dict CalendarKey ClockCalendar := ∅
  calls : List (Memo.Call CalendarKey ClockCalendar) := []

namespace MarketClock
variable (clock : MarketClock)

def record (call : Memo.Call CalendarKey ClockCalendar) : MarketClock where
  cache := Memo.step clock.cache call
  calls := clock.calls ++ [call]

/-- `_calendar`; nothing where it raises. -/
def calendar (country : Country) (r : Reading) : MarketClock × Option ClockCalendar :=
  (clock.record (.ask (country, r.date) r.answer), Memo.reply clock.cache (country, r.date) r.answer)

def clearCache : MarketClock := clock.record .clear

/-- The window of a day's regular session. -/
def windowOf (day : ClockDay) : SessionWindow :=
  ⟨day.regularMarket.bind SessionTimes.startTime, day.regularMarket.bind SessionTimes.endTime⟩

def regularSession (country : Country) (r : Reading) : MarketClock × Option SessionWindow :=
  let (clock, cal) := clock.calendar country r
  (clock, cal.map fun cal => windowOf cal.today)

def isOpen (country : Country) (now : Instant) (r : Reading) : MarketClock × Bool :=
  let (clock, win) := clock.regularSession country r
  (clock, win.any (·.contains now))

def isBusinessDay (country : Country) (r : Reading) : MarketClock × Bool :=
  let (clock, cal) := clock.calendar country r
  (clock, cal.any (·.today.isOpenDay))

/-- `minutes_to_close`: raises with the lookup, answers with nothing outside the session. -/
def minutesToClose (country : Country) (now : Instant) (r : Reading) :
    MarketClock × Option (Option ℚ) :=
  let (clock, win) := clock.regularSession country r
  (clock, win.map fun win =>
    match win.close with
    | none => none
    | some close => if win.contains now then some (now.secondsTo close / 60) else none)

/-- `next_open`: today's session if it has not begun, else the next business day's. -/
def nextOpen (country : Country) (now : Instant) (first second : Reading) :
    MarketClock × Option Instant :=
  match clock.regularSession country first with
  | (clock, none) => (clock, none)
  | (clock, some win) =>
    match win.start.filter (now < ·) with
    | some start => (clock, some start)
    | none =>
      let (clock, cal) := clock.calendar country second
      (clock, cal.bind fun cal => (windowOf cal.nextBusinessDay).start)

/-! ### Runs -/

/-- What a clock is asked. -/
inductive Question where
  | isOpen (country : Country) (now : Instant) (r : Reading)
  | isBusinessDay (country : Country) (r : Reading)
  | minutesToClose (country : Country) (now : Instant) (r : Reading)
  | nextOpen (country : Country) (now : Instant) (first second : Reading)
  | clearCache

def after : Question → MarketClock
  | .isOpen country now r => (clock.isOpen country now r).1
  | .isBusinessDay country r => (clock.isBusinessDay country r).1
  | .minutesToClose country now r => (clock.minutesToClose country now r).1
  | .nextOpen country now first second => (clock.nextOpen country now first second).1
  | .clearCache => clock.clearCache

def run (questions : List Question) : MarketClock := questions.foldl after clock

/-- `next_open` reads one calendar, or two. -/
theorem nextOpen_eq (country : Country) (now : Instant) (first second : Reading) :
    clock.nextOpen country now first second =
      match (clock.calendar country first).2 with
      | none => ((clock.calendar country first).1, none)
      | some cal =>
        match (windowOf cal.today).start.filter (now < ·) with
        | some start => ((clock.calendar country first).1, some start)
        | none =>
          (((clock.calendar country first).1.calendar country second).1,
            ((clock.calendar country first).1.calendar country second).2.bind fun cal =>
              (windowOf cal.nextBusinessDay).start) := by
  unfold nextOpen regularSession
  rcases clock.calendar country first with ⟨c, _ | cal⟩
  · rfl
  · rfl

/-! ### What a question adds -/

/-- `later` comes from `clock` by some calls, none of them a clearing if `kept`. -/
structure Continues (clock later : MarketClock) (kept : Prop) : Prop where
  calls : ∃ new, later.calls = clock.calls ++ new ∧ later.cache = new.foldl Memo.step clock.cache ∧
    (kept → .clear ∉ new)

variable {clock}

theorem Continues.refl {kept : Prop} : Continues clock clock kept :=
  ⟨[], (List.append_nil _).symm, rfl, fun _ => List.not_mem_nil⟩

theorem Continues.mono {later : MarketClock} {kept kept' : Prop} (h : Continues clock later kept)
    (hk : kept' → kept) : Continues clock later kept' := by
  obtain ⟨new, hcalls, hcache, hnew⟩ := h
  exact ⟨new, hcalls, hcache, fun h' => hnew (hk h')⟩

theorem Continues.trans {mid later : MarketClock} {kept : Prop} (h : Continues clock mid kept)
    (h' : Continues mid later kept) : Continues clock later kept := by
  obtain ⟨new, hcalls, hcache, hnew⟩ := h
  obtain ⟨new', hcalls', hcache', hnew'⟩ := h'
  refine ⟨new ++ new', ?_, ?_, fun hk hmem => ?_⟩
  · rw [hcalls', hcalls, List.append_assoc]
  · rw [hcache', hcache, List.foldl_append]
  · exact (List.mem_append.mp hmem).elim (hnew hk) (hnew' hk)

theorem Continues.calendar (country : Country) (r : Reading) (kept : Prop) :
    Continues clock (clock.calendar country r).1 kept :=
  ⟨[.ask (country, r.date) r.answer], rfl, rfl, fun _ h => nomatch List.mem_singleton.mp h⟩

/-- **One question** asks for its calendars and clears only if it is told to. -/
theorem Continues.after (q : Question) : Continues clock (clock.after q) (q ≠ .clearCache) := by
  cases q with
  | isOpen country now r => exact .calendar country r _
  | isBusinessDay country r => exact .calendar country r _
  | minutesToClose country now r => exact .calendar country r _
  | nextOpen country now first second =>
    show Continues clock (clock.nextOpen country now first second).1 _
    rw [nextOpen_eq]
    split
    · exact .calendar country first _
    · split
      · exact .calendar country first _
      · exact (Continues.calendar country first _).trans (.calendar country second _)
  | clearCache => exact ⟨[.clear], rfl, rfl, fun h => absurd rfl h⟩

theorem Continues.run (questions : List Question) :
    Continues clock (clock.run questions) (.clearCache ∉ questions) := by
  induction questions generalizing clock with
  | nil => exact .refl
  | cons q rest ih =>
    have hstep : Continues clock (clock.after q) (q ≠ .clearCache) := .after q
    refine (hstep.mono fun h hq => h ?_).trans (ih.mono fun h hmem => h (List.mem_cons_of_mem q hmem))
    rw [hq]
    exact List.mem_cons_self

/-- A calendar that is held stays until the cache is cleared. -/
theorem Continues.held {later : MarketClock} (h : Continues clock later True) {key : CalendarKey}
    {cal : ClockCalendar} (hheld : clock.cache.get? key = some cal) :
    later.cache.get? key = some cal := by
  obtain ⟨new, -, hcache, hnew⟩ := h
  rw [hcache]
  exact Memo.get?_kept (hnew trivial) hheld

/-! ### Answers -/

section Answers
variable {country : Country} {r : Reading} {cal : ClockCalendar}

theorem calendar_held (h : clock.cache.get? (country, r.date) = some cal) :
    (clock.calendar country r).2 = some cal := by
  show Memo.reply clock.cache (country, r.date) r.answer = _
  rw [Memo.reply, h]
  rfl

/-- What is answered from a calendar is held. -/
theorem held_of_calendar (h : (clock.calendar country r).2 = some cal) :
    (clock.calendar country r).1.cache.get? (country, r.date) = some cal :=
  (Memo.get?_ask _ _ _).trans h

/-- The session is on, by the calendar. -/
theorem isOpen_eq (now : Instant) : (clock.isOpen country now r).2 =
    (clock.calendar country r).2.any fun cal => (windowOf cal.today).contains now := by
  show ((clock.calendar country r).2.map _).any _ = _
  rw [Option.any_map]

/-- A window that contains an instant is that of an open day, has begun and will end. -/
theorem contains_cases {day : ClockDay} {now : Instant} (h : (windowOf day).contains now = true) :
    day.isOpenDay = true ∧ (∃ start ≤ now, (windowOf day).start = some start) ∧
      ∃ close, (windowOf day).close = some close := by
  obtain ⟨_ | ⟨_ | start, _ | close⟩⟩ := day
  · cases h
  · cases h
  · cases h
  · cases h
  · have hbegun : start ≤ now := (of_decide_eq_true h).1
    exact ⟨rfl, ⟨start, hbegun, rfl⟩, close, rfl⟩

/-- `minutes_to_close`, by the calendar. -/
def minutesLeft (w : SessionWindow) (now : Instant) : Option ℚ :=
  w.close.bind fun close => if w.contains now then some (now.secondsTo close / 60) else none

/-- What the clock answers about a day from the calendar it holds for it, whenever it is asked, and
about the next open once the session has begun. -/
structure AnswersFrom (clock : MarketClock) (country : Country) (date : Date) (cal : ClockCalendar)
    (begun : Instant) : Prop where
  isOpen : ∀ now (r : Reading), r.date = date →
    (clock.isOpen country now r).2 = (windowOf cal.today).contains now
  isBusinessDay : ∀ r : Reading, r.date = date → (clock.isBusinessDay country r).2 = true
  minutesToClose : ∀ now (r : Reading), r.date = date →
    (clock.minutesToClose country now r).2 = some (minutesLeft (windowOf cal.today) now)
  nextOpen : ∀ now ≥ begun, ∀ first second : Reading, first.date = date → second.date = date →
    (clock.nextOpen country now first second).2 = (windowOf cal.nextBusinessDay).start

/-- **The answers from a calendar that is held**, on a day whose session contains an instant. -/
theorem answers_held {date : Date} (h : clock.cache.get? (country, date) = some cal) {begun : Instant}
    (hopen : (windowOf cal.today).contains begun = true) :
    AnswersFrom clock country date cal begun := by
  obtain ⟨hday, ⟨start, hbegun, hstart⟩, close, hclose⟩ := contains_cases hopen
  constructor
  · rintro now r rfl
    rw [isOpen_eq, calendar_held h]
    rfl
  · rintro r rfl
    show (clock.calendar country r).2.any _ = true
    rw [calendar_held h]
    exact hday
  · rintro now r rfl
    show ((clock.calendar country r).2.map _).map _ = _
    rw [calendar_held h]
    simp only [Option.map_some, minutesLeft, hclose, Option.bind_some]
  · rintro now hnow first second rfl hsecond
    have hpassed : (windowOf cal.today).start.filter (now < ·) = none := by
      rw [hstart, Option.filter_eq_none_iff]
      rintro t ⟨⟩
      simpa using hbegun.trans hnow
    have hheld := held_of_calendar (calendar_held h)
    rw [← hsecond] at hheld
    rw [nextOpen_eq, calendar_held h]
    simp only [hpassed, calendar_held hheld]
    rfl

end Answers

/-- **The clock keeps to one calendar a day**: over any questions at any times, whatever the exchange
answers or fails to answer, the cache holds for a country and day the first calendar fetched since it
was last cleared, and fetches no second one before the next clearing. So once the market is open by
the clock, there is one calendar that every later answer about that day is from, at whatever time it
is asked, until the cache is cleared: the market is open exactly while that session is on, the day is
a business day, and the next open is that calendar's. -/
theorem clock_consistent (questions : List Question) :
    let clock := ({} : MarketClock).run questions
    (∀ key, clock.cache.get? key = clock.calls.foldl (Memo.told key) none) ∧
      (∀ key front back, clock.calls = front ++ back → .clear ∉ back →
        Memo.answers key (front.foldl Memo.step ∅) back ≤ 1) ∧
      ∀ country now r, (clock.isOpen country now r).2 = true →
        ∃ cal, (clock.isOpen country now r).1.cache.get? (country, r.date) = some cal ∧
          (windowOf cal.today).contains now = true ∧ ∀ more, .clearCache ∉ more →
            AnswersFrom ((clock.isOpen country now r).1.run more) country r.date cal now := by
  intro clock
  have hrun : Continues {} (({} : MarketClock).run questions) (.clearCache ∉ questions) := .run questions
  obtain ⟨calls, hcalls, hcache, -⟩ := hrun.calls
  refine ⟨fun key => ?_, fun key front back _ hback => Memo.answers_le_one hback _ key, ?_⟩
  · show (({} : MarketClock).run questions).cache.get? key = _
    rw [hcache, hcalls, Memo.get?_foldl_step]
    rfl
  · intro country now r hopen
    rw [isOpen_eq] at hopen
    obtain ⟨cal, hcal, hopen⟩ := (Option.any_eq_true _ _).mp hopen
    refine ⟨cal, held_of_calendar hcal, hopen, fun more hmore => ?_⟩
    have hkept : Continues (clock.isOpen country now r).1 ((clock.isOpen country now r).1.run more) True :=
      (Continues.run more).mono fun _ => hmore
    exact answers_held (hkept.held (held_of_calendar hcal)) hopen

/-- Friday from nine to half past three in Seoul, and the Monday after it. -/
def friday : ClockCalendar where
  today := ⟨some ⟨some ⟨⟨2026, 7, 31⟩, 0⟩, some ⟨⟨2026, 7, 31⟩, 23400⟩⟩⟩
  nextBusinessDay := ⟨some ⟨some ⟨⟨2026, 8, 3⟩, 0⟩, some ⟨⟨2026, 8, 3⟩, 23400⟩⟩⟩

/-- A calendar without sessions. -/
def holiday : ClockCalendar := ⟨⟨none⟩, ⟨none⟩⟩

/-- At ten the exchange answers with the Friday; from then on it fails, and then it answers with a
holiday. By the clock the market is still open at half past three and closed a second later. -/
theorem clock_consistent_friday :
    let clock := (({} : MarketClock).run [.isBusinessDay .KR ⟨⟨2026, 7, 31⟩, none⟩]).isOpen .KR
      ⟨⟨2026, 7, 31⟩, 3600⟩ ⟨⟨2026, 7, 31⟩, some friday⟩
    let later := clock.1.run [.isBusinessDay .KR ⟨⟨2026, 7, 31⟩, none⟩]
    clock.2 = true ∧ (later.isOpen .KR ⟨⟨2026, 7, 31⟩, 23400⟩ ⟨⟨2026, 7, 31⟩, some holiday⟩).2 = true ∧
      (later.isOpen .KR ⟨⟨2026, 7, 31⟩, 23401⟩ ⟨⟨2026, 7, 31⟩, some holiday⟩).2 = false := by
  obtain ⟨-, -, hopen⟩ := clock_consistent [.isBusinessDay .KR ⟨⟨2026, 7, 31⟩, none⟩]
  refine ⟨by decide +kernel, ?_⟩
  obtain ⟨cal, hheld, -, hlater⟩ := hopen .KR ⟨⟨2026, 7, 31⟩, 3600⟩ ⟨⟨2026, 7, 31⟩, some friday⟩
    (by decide +kernel)
  have hfriday : (({} : MarketClock).run [.isBusinessDay .KR ⟨⟨2026, 7, 31⟩, none⟩] |>.isOpen .KR
      ⟨⟨2026, 7, 31⟩, 3600⟩ ⟨⟨2026, 7, 31⟩, some friday⟩).1.cache.get? (.KR, ⟨2026, 7, 31⟩) =
        some friday := by decide +kernel
  obtain rfl : friday = cal := Option.some.inj (hfriday.symm.trans hheld)
  have hanswers := hlater [.isBusinessDay .KR ⟨⟨2026, 7, 31⟩, none⟩]
    (fun h => nomatch List.mem_singleton.mp h)
  exact ⟨hanswers.isOpen _ ⟨⟨2026, 7, 31⟩, some holiday⟩ rfl, hanswers.isOpen _ _ rfl⟩

end MarketClock
end Tqt
