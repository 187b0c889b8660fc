import Tqt.Foundation.Lts
import Tqt.Risk

/-! The daily-loss stop over whole days.

A run writes equity marks under the UTC clock, between any other writes. `Logged` says
what the equity table then holds: the last mark of every second. The gate asks it for
the first mark whose UTC date is today's date in Korea. A day's marks from before 09:00
in Korea carry the previous UTC date, so the baseline is the day's first mark when that
one is made from 09:00 on (`daily_loss_stop`), and is missing or late otherwise
(`early_mark_missed`). -/
namespace Tqt

/-- One mark written by `_cycle` or `mark_equity`. -/
structure Mark where
  broker : BrokerName
  row : EquityRow
  stamp : Instant
deriving DecidableEq

inductive Write where
  | mark (m : Mark)
  | other

/-- The store and the clock. A mark is stamped with the current time; every other write
leaves the equity table alone. -/
def equityLog : Lts (Store × Instant) Write where
  step s a t := s.2 ≤ t.2 ∧
    match a with
    | .mark m => m.stamp = t.2 ∧ t.1 = s.1.recordEquity m.broker m.row m.stamp
    | .other => t.1.equity = s.1.equity

def marksOf : List Write → List Mark
  | [] => []
  | .mark m :: rest => m :: marksOf rest
  | .other :: rest => marksOf rest

/-- The marks of one broker made on one calendar day in Korea, in order. -/
def marksOn (broker : BrokerName) (day : Date) (marks : List Mark) : List Mark :=
  marks.filter fun m => m.broker = broker ∧ m.stamp.kst = day

/-- The marks of one broker stamped in one second, in order. -/
def marksAt (broker : BrokerName) (t : Instant) (marks : List Mark) : List Mark :=
  marks.filter fun m => m.broker = broker ∧ m.stamp = t

/-- What the equity table holds once `marks` have been made. -/
structure Logged (marks : List Mark) (s : Store × Instant) : Prop where
  past : ∀ m ∈ marks, m.stamp ≤ s.2
  ordered : marks.Pairwise fun a b => a.stamp ≤ b.stamp
  rows : ∀ broker t, s.1.equity.get? (broker, t) = (marksAt broker t marks).getLast?.map Mark.row

theorem Logged.start {st : Store} (h : st.equity = ∅) (now : Instant) : Logged [] (st, now) := by
  refine ⟨nofun, .nil, fun broker t => ?_⟩
  show st.equity.get? (broker, t) = none
  rw [h]
  rfl

theorem Logged.mark {marks : List Mark} {st : Store} {m : Mark} {now : Instant}
    (h : Logged marks (st, now)) (hnow : now ≤ m.stamp) :
    Logged (marks ++ [m]) (st.recordEquity m.broker m.row m.stamp, m.stamp) := by
  refine ⟨fun m' hm => ?_, ?_, fun broker t => ?_⟩
  · rcases List.mem_append.mp hm with hm | hm
    · exact (h.past m' hm).trans hnow
    · rw [List.mem_singleton.mp hm]
  · refine List.pairwise_append.mpr ⟨h.ordered, List.pairwise_singleton _ _, fun a ha b hb => ?_⟩
    rw [List.mem_singleton.mp hb]
    exact (h.past a ha).trans hnow
  · show (st.equity.insert (m.broker, m.stamp) m.row).get? (broker, t) = _
    rw [Dict.get?_insert, marksAt, List.filter_append]
    by_cases hkey : (broker, t) = (m.broker, m.stamp)
    · obtain ⟨rfl, rfl⟩ := Prod.mk.inj hkey
      simp
    · have hno : ¬ (m.broker = broker ∧ m.stamp = t) := fun hm => hkey (by rw [hm.1, hm.2])
      rw [if_neg hkey, List.filter_cons_of_neg (by simpa using hno), List.filter_nil,
        List.append_nil]
      exact h.rows broker t

theorem Logged.step {marks : List Mark} {s t : Store × Instant} {a : Write} (h : Logged marks s)
    (hstep : equityLog.step s a t) : Logged (marks ++ marksOf [a]) t := by
  obtain ⟨st, now⟩ := s
  obtain ⟨st', now'⟩ := t
  cases a with
  | mark m =>
    obtain ⟨hclock, hstamp, rfl⟩ := hstep
    simp only at hclock hstamp
    subst hstamp
    exact h.mark hclock
  | other =>
    obtain ⟨hclock, hequity⟩ := hstep
    rw [marksOf, marksOf, List.append_nil]
    refine ⟨fun m hm => (h.past m hm).trans hclock, h.ordered, fun broker t => ?_⟩
    rw [hequity]
    exact h.rows broker t

theorem Logged.run {marks : List Mark} {s t : Store × Instant} {writes : List Write}
    (h : equityLog.Run s writes t) (hs : Logged marks s) :
    Logged (marks ++ marksOf writes) t := by
  induction h generalizing marks with
  | nil s => simpa [marksOf] using hs
  | @cons s t u a rest hstep _ ih =>
    have hsplit : marksOf (a :: rest) = marksOf [a] ++ marksOf rest := by cases a <;> rfl
    rw [hsplit, ← List.append_assoc]
    exact ih (hs.step hstep)

/-! ### The baseline -/

section Baseline
variable {marks rest : List Mark} {first : Mark} {st : Store} {now : Instant}
  {broker : BrokerName}

/-- A mark of today's UTC prefix is a mark of today. -/
theorem Logged.row_today (h : Logged marks (st, now)) {t : Instant} {row : EquityRow}
    (hrow : st.equity.get? (broker, t) = some row) (ht : t.date = now.kst) :
    ∃ m ∈ marksOn broker now.kst marks, m.stamp = t := by
  rw [h.rows broker t, Option.map_eq_some_iff] at hrow
  obtain ⟨m, hlast, -⟩ := hrow
  have hm := List.mem_of_getLast? hlast
  rw [marksAt, List.mem_filter, decide_eq_true_eq] at hm
  obtain ⟨hmem, hbroker, hstamp⟩ := hm
  subst hstamp
  refine ⟨m, List.mem_filter.mpr ⟨hmem, ?_⟩, rfl⟩
  simpa using ⟨hbroker, Instant.kst_eq_of_date_eq (h.past m hmem) ht⟩

/-- The first mark of the day is the baseline, if it is made from 09:00 on and no later
one overwrites it. -/
theorem Logged.baseline (h : Logged marks (st, now))
    (hday : marksOn broker now.kst marks = first :: rest)
    (hopen : first.stamp.date = first.stamp.kst) (hkept : ∀ m ∈ rest, m.stamp ≠ first.stamp) :
    st.firstEquityOfDay broker now.kst = some first.row.equityKrw := by
  have hfirst : first ∈ marksOn broker now.kst marks := hday ▸ List.mem_cons_self ..
  obtain ⟨-, hbroker, hkst⟩ : first ∈ marks ∧ first.broker = broker ∧ first.stamp.kst = now.kst := by
    simpa [marksOn] using hfirst
  have hordered : (first :: rest).Pairwise fun a b => a.stamp ≤ b.stamp := by
    rw [← hday]
    exact h.ordered.filter _
  have hsecond : marksAt broker first.stamp marks = [first] := by
    have hsub : marksAt broker first.stamp marks =
        (marksOn broker now.kst marks).filter fun m => m.stamp = first.stamp := by
      rw [marksAt, marksOn, List.filter_filter]
      apply List.filter_congr
      intro m _
      have hiff : (m.broker = broker ∧ m.stamp = first.stamp) ↔
          (m.stamp = first.stamp ∧ m.broker = broker ∧ m.stamp.kst = now.kst) :=
        ⟨fun hm => ⟨hm.2, hm.1, hm.2 ▸ hkst⟩, fun hm => ⟨hm.2.1, hm.1⟩⟩
      exact Bool.eq_iff_iff.mpr (by simpa using hiff)
    rw [hsub, hday, List.filter_cons_of_pos (by simp), List.filter_eq_nil_iff.mpr]
    intro m hm
    simpa using hkept m hm
  have hrow : st.equity.get? (broker, first.stamp) = some first.row := by
    rw [h.rows broker first.stamp, hsecond]
    rfl
  rw [← hkst, ← hopen]
  apply Store.firstEquityOfDay_eq hrow
  intro t' row' hrow' ht'
  obtain ⟨m, hm, rfl⟩ := h.row_today hrow' ((ht'.trans hopen).trans hkst)
  rw [hday] at hm
  rcases List.mem_cons.mp hm with rfl | hm
  · exact le_rfl
  · exact (List.pairwise_cons.mp hordered).1 m hm

end Baseline

/-- At or below the limit, the gate does not pass. -/
theorem checkCycle_refuses {rm : RiskManager} {st : Store} {now : Instant}
    {snapshot : AccountSnapshot} {opening : Decimal} (hpos : 0 < opening)
    (hbase : st.firstEquityOfDay rm.brokerName now.kst = some opening)
    (hloss : snapshot.equityKrw ≤ (1 - rm.settings.maxDailyLossPct) * opening) :
    (rm.checkCycle st now snapshot).2 ≠ .allow := by
  rcases rm.checkCycle_cases st now snapshot with ⟨-, -, hnone, -⟩ | ⟨st', why, h, -⟩
  · have hle : (snapshot.equityKrw - opening) / opening ≤ -rm.settings.maxDailyLossPct := by
      rw [div_le_iff₀ hpos]
      linarith
    simp [RiskManager.lossBreached, RiskManager.dailyLoss, hbase, not_le.mpr hpos,
      Option.filter_some, hle] at hnone
  · rw [h]
    nofun

/-- **The daily-loss stop, in every run**: on a day whose first mark is positive, made
from 09:00 in Korea on and not overwritten within its second, that mark is the baseline
of every gate, and a snapshot at or below the limit against it does not pass. -/
theorem daily_loss_stop {st₀ st : Store} {now₀ now : Instant} {writes : List Write}
    {first : Mark} {rest : List Mark} (rm : RiskManager) (h₀ : st₀.equity = ∅)
    (hrun : equityLog.Run (st₀, now₀) writes (st, now))
    (hday : marksOn rm.brokerName now.kst (marksOf writes) = first :: rest)
    (hopen : first.stamp.date = first.stamp.kst) (hkept : ∀ m ∈ rest, m.stamp ≠ first.stamp)
    (hpos : 0 < first.row.equityKrw) :
    st.firstEquityOfDay rm.brokerName now.kst = some first.row.equityKrw ∧
      ∀ snapshot : AccountSnapshot,
        snapshot.equityKrw ≤ (1 - rm.settings.maxDailyLossPct) * first.row.equityKrw →
          (rm.checkCycle st now snapshot).2 ≠ .allow := by
  have hlog : Logged (marksOf writes) (st, now) := by
    simpa using Logged.run hrun (Logged.start h₀ now₀)
  have hbase := hlog.baseline hday hopen hkept
  exact ⟨hbase, fun snapshot hloss => checkCycle_refuses hpos hbase hloss⟩

/-! ### A mark before 09:00 in Korea -/

/-- A million, marked at the given second of 2026-08-17 (UTC). -/
def augustMark (second : Fin 86400) : Mark where
  broker := .paper
  row := ⟨1000000, 1000000, 0, 1400⟩
  stamp := ⟨⟨2026, 8, 17⟩, second⟩

def augustStore (second : Fin 86400) : Store :=
  ({} : Store).recordEquity .paper (augustMark second).row (augustMark second).stamp

/-- One mark and a later check on that day. -/
theorem august_run {second later : Fin 86400} (h : second ≤ later) :
    equityLog.Run ({}, ⟨⟨2026, 8, 17⟩, 0⟩) [.mark (augustMark second), .other]
      (augustStore second, ⟨⟨2026, 8, 17⟩, later⟩) := by
  refine .cons (t := (augustStore second, (augustMark second).stamp)) ⟨?_, rfl, rfl⟩
    (.cons (t := (augustStore second, ⟨⟨2026, 8, 17⟩, later⟩)) ⟨?_, rfl⟩ (.nil _))
  · exact (Instant.le_iff _ _).mpr (.inr ⟨rfl, Fin.zero_le _⟩)
  · exact (Instant.le_iff _ _).mpr (.inr ⟨rfl, h⟩)

/-- Marked at 09:30 in Korea, down a tenth at noon: the gate refuses. -/
theorem daily_loss_stop_noon :
    (({ brokerName := .paper } : RiskManager).checkCycle (augustStore 1800)
      ⟨⟨2026, 8, 17⟩, 10800⟩ (.allCash 900000)).2 ≠ .allow := by
  have hday : marksOn .paper (Instant.kst ⟨⟨2026, 8, 17⟩, 10800⟩)
      (marksOf [.mark (augustMark 1800), .other]) = augustMark 1800 :: [] := by decide +kernel
  exact (daily_loss_stop { brokerName := .paper } rfl (august_run (by decide)) hday (by decide)
    (by simp) (by decide +kernel)).2 (.allCash 900000) (by decide +kernel)

/-- Marked at 00:30 in Korea, down a tenth at 05:00 the same day: there is no baseline
and the gate passes. -/
theorem early_mark_missed :
    equityLog.Run ({}, ⟨⟨2026, 8, 17⟩, 0⟩) [.mark (augustMark 55800), .other]
        (augustStore 55800, ⟨⟨2026, 8, 17⟩, 72000⟩) ∧
      marksOn .paper (Instant.kst ⟨⟨2026, 8, 17⟩, 72000⟩) [augustMark 55800] = [augustMark 55800] ∧
      (augustStore 55800).firstEquityOfDay .paper (Instant.kst ⟨⟨2026, 8, 17⟩, 72000⟩) = none ∧
      (AccountSnapshot.allCash 900000).equityKrw ≤ (1 - 3 / 100) * (augustMark 55800).row.equityKrw ∧
      (({ brokerName := .paper } : RiskManager).checkCycle (augustStore 55800)
        ⟨⟨2026, 8, 17⟩, 72000⟩ (.allCash 900000)).2 = .allow :=
  ⟨august_run (by decide), by decide +kernel, by decide +kernel, by decide +kernel,
    by decide +kernel⟩

end Tqt
