import Tqt.Backtest.Conservation
import Tqt.Backtest.Lookahead
import Tqt.Foundation.Binary64

/-! Marking to market through gaps.

On a bar without fills the account stands still (`quiet_account`), so what it is worth at two bars
in a row differs by what the closes did. A held symbol without a close is left out of the total, and
its whole value with it: the worth falls by it where a gap begins (`gapped`) and rises by it where
the gap ends (`regained`). The change is that of the closes exactly when these two balance
(`worth_change_iff`). What a run records is the double nearest to the worth, so that the recorded
change is off by two roundings (`recorded_change`). -/
namespace Tqt.Backtest
open Binary64

/-- The last close a symbol has among the first `n` bars. -/
def lastClose (bt : Backtester) (n : ℕ) (sym : Symbol) : Option Decimal :=
  ((bt.bars.take n).filterMap fun bar => bar.closes sym).getLast?

/-- What a position gains when its symbol prints: the change since the last close. -/
def gain (last close : Option Decimal) (q : Decimal) : Decimal :=
  match last, close with
  | some old, some new => q * (new - old)
  | _, _ => 0

/-- What a position was worth at a close that is not there any more. -/
def gapped (before close : Option Decimal) (q : Decimal) : Decimal :=
  match before, close with
  | some px, none => px * q
  | _, _ => 0

/-- What a position whose symbol prints again was worth at the last close; at this one if it is
the first. -/
def regained (before last close : Option Decimal) (q : Decimal) : Decimal :=
  match before, close with
  | none, some px => last.getD px * q
  | _, _ => 0

/-- A sum over the positions. -/
def overPositions (positions : Dict Symbol Decimal) (f : Symbol → Decimal → Decimal) : Decimal :=
  (positions.entries.map fun e => f e.1 e.2).sum

section
variable {σ : Type} (bt : Backtester) (strategy : Strategy σ) (s : σ) (n : ℕ) (bar : Bar)

/-- The equity series of the result: `float(equity)` at every bar. -/
def equityRecord : List (Date × Option Decimal) :=
  (bt.run strategy s).equityRows.map fun row => (row.1, float64 row.2)

/-- What the closes at `bar`, the one after the first `n + 1`, change about positions: for every
symbol that prints, the change since its last close. -/
def gains (positions : Dict Symbol Decimal) : Decimal :=
  overPositions positions fun sym q => gain (lastClose bt (n + 1) sym) (bar.closes sym) q

/-- The equity recorded at `bar` has changed by exactly what the closes of the held symbols did. -/
def MarksChanges : Prop :=
  ∃ before now, ((equityRecord bt strategy s)[n]?.bind Prod.snd) = some before ∧
    ((equityRecord bt strategy s)[n + 1]?.bind Prod.snd) = some now ∧
    now - before = gains bt n bar (bt.after strategy s (n + 2)).positions

/-- The held symbols that stop printing at `bar` and those that print again are worth the same. -/
def GapsBalance (positions : Dict Symbol Decimal) (before bar : Bar) : Prop :=
  (overPositions positions fun sym q => gapped (before.closes sym) (bar.closes sym) q) =
    overPositions positions fun sym q =>
      regained (before.closes sym) (lastClose bt (n + 1) sym) (bar.closes sym) q

end

/-! ### One position -/

theorem lastClose_of_priced {bt : Backtester} {n : ℕ} {before : Bar} {sym : Symbol} {px : Decimal}
    (hbefore : bt.bars[n]? = some before) (hpx : before.closes sym = some px) :
    lastClose bt (n + 1) sym = some px := by
  rw [lastClose, List.take_add_one, hbefore, Option.toList_some, List.filterMap_append]
  simp [hpx]

/-- What a close does to the value of a position: its change, and what gaps move. -/
theorem worth_add_gapped {before close : Symbol → Option Decimal} {last : Option Decimal} {sym : Symbol}
    (hlast : ∀ px, before sym = some px → last = some px) (q : Decimal) :
    worth close sym q + gapped (before sym) (close sym) q =
      worth before sym q + gain last (close sym) q + regained (before sym) last (close sym) q := by
  unfold worth
  cases hbefore : before sym with
  | some px =>
    rw [hlast px hbefore]
    cases close sym with
    | some new => simp only [gain, regained, gapped]; ring
    | none => simp only [gain, regained, gapped]; ring
  | none =>
    cases close sym with
    | some new =>
      cases last with
      | some old => simp only [gain, regained, gapped, Option.getD_some]; ring
      | none => simp only [gain, regained, gapped, Option.getD_none]; ring
    | none => simp only [gain, regained, gapped]; ring

theorem equityOf_add_gapped {bt : Backtester} {n : ℕ} {before : Bar}
    (hbefore : bt.bars[n]? = some before) (cash : Decimal) (positions : Dict Symbol Decimal) (bar : Bar) :
    equityOf cash positions bar.closes +
        (overPositions positions fun sym q => gapped (before.closes sym) (bar.closes sym) q) =
      equityOf cash positions before.closes +
        (overPositions positions fun sym q => gain (lastClose bt (n + 1) sym) (bar.closes sym) q) +
        overPositions positions fun sym q =>
          regained (before.closes sym) (lastClose bt (n + 1) sym) (bar.closes sym) q := by
  have hworth (e : Symbol × Decimal) :
      worth bar.closes e.1 e.2 + gapped (before.closes e.1) (bar.closes e.1) e.2 =
        worth before.closes e.1 e.2 + gain (lastClose bt (n + 1) e.1) (bar.closes e.1) e.2 +
          regained (before.closes e.1) (lastClose bt (n + 1) e.1) (bar.closes e.1) e.2 :=
    worth_add_gapped (fun px hpx => lastClose_of_priced hbefore hpx) e.2
  unfold overPositions
  rw [equityOf_eq, equityOf_eq, add_assoc, add_assoc, add_assoc, ← List.sum_map_add,
    ← List.sum_map_add, ← List.sum_map_add]
  simp only [hworth, add_assoc]

/-! ### A bar without fills -/

section
variable {σ : Type} (bt : Backtester) (strategy : Strategy σ)

/-- Everything held is held in a positive quantity. -/
def AllHeld (positions : Dict Symbol Decimal) : Prop := ∀ e ∈ positions.entries, 0 < e.2

theorem rebalance_unfilled {cfg : BacktestConfig} {prices : Symbol → Option Decimal}
    {equity : Decimal} {date : Date} {reason : String} {cash : Decimal}
    {positions targets : Dict Symbol Decimal} (hheld : AllHeld positions)
    (hnone : (rebalance cfg prices equity date reason cash positions targets).fills = []) :
    (rebalance cfg prices equity date reason cash positions targets).cash = cash ∧
      (rebalance cfg prices equity date reason cash positions targets).positions = positions := by
  have hstill := trades_induction cfg prices equity date reason
    (P := fun b => b.fills = [] → b = { cash, positions })
    (ordered cfg prices equity targets positions)
    (fun b _ f _ _ _ hfills => absurd hfills (List.append_ne_nil_of_right_ne_nil b.fills
      (List.cons_ne_nil f []))) { cash, positions } (fun _ => rfl)
  unfold rebalance at hnone ⊢
  simp only at hnone ⊢
  rw [hstill hnone]
  refine ⟨rfl, Dict.ext_entries ?_⟩
  exact List.filter_eq_self.mpr fun e he => decide_eq_true (hheld e he)

theorem execute_held (bar : Bar) {st : RunState σ} (h : AllHeld st.positions) :
    AllHeld (bt.execute bar st).1.positions := by
  unfold Backtester.execute
  split
  · exact h
  · intro e he
    exact of_decide_eq_true (List.mem_filter.mp he).2

theorem loop_held (bars : List Bar) (i : ℕ) {st : RunState σ} (h : AllHeld st.positions) :
    AllHeld (bt.loop strategy i bars st).positions := by
  induction bars generalizing i st with
  | nil => exact h
  | cons bar rest ih =>
    refine ih (i + 1) ?_
    rw [Backtester.onBar_eq, (decide_account bt strategy i bar _).2.1]
    exact execute_held bt bar h

theorem after_held (s : σ) (n : ℕ) : AllHeld (bt.after strategy s n).positions :=
  loop_held bt strategy _ 0 (fun _ he => absurd he List.not_mem_nil)

/-- **A bar that fills nothing** leaves the account as it was. -/
theorem quiet_account {i : ℕ} {bar : Bar} {st : RunState σ} (hheld : AllHeld st.positions)
    (hquiet : (bt.onBar strategy i bar st).fills = st.fills) :
    (bt.onBar strategy i bar st).cash = st.cash ∧
      (bt.onBar strategy i bar st).positions = st.positions := by
  obtain ⟨hcash, hpositions, hfills, -⟩ := decide_account bt strategy i bar
    (bt.mark bar (bt.execute bar st).2 (bt.execute bar st).1)
  rw [Backtester.onBar_eq] at hquiet ⊢
  rw [hcash, hpositions]
  rw [hfills] at hquiet
  revert hquiet
  show (bt.execute bar st).1.fills = st.fills →
    (bt.execute bar st).1.cash = st.cash ∧ (bt.execute bar st).1.positions = st.positions
  unfold Backtester.execute
  cases st.pending with
  | none => exact fun _ => ⟨rfl, rfl⟩
  | some targets => exact fun hquiet => rebalance_unfilled hheld (List.append_right_eq_self.mp hquiet)

/-- A bar records the equity of the account it leaves. -/
theorem onBar_equityRows (i : ℕ) (bar : Bar) (st : RunState σ) :
    (bt.onBar strategy i bar st).equityRows = st.equityRows ++
      [(bar.date, equityOf (bt.onBar strategy i bar st).cash (bt.onBar strategy i bar st).positions
        bar.closes)] := by
  obtain ⟨hcash, hpositions, -, -⟩ := decide_account bt strategy i bar
    (bt.mark bar (bt.execute bar st).2 (bt.execute bar st).1)
  obtain ⟨hrows, -, -, -⟩ := decide_report bt strategy i bar
    (bt.mark bar (bt.execute bar st).2 (bt.execute bar st).1)
  have hexec : (bt.execute bar st).1.equityRows = st.equityRows := by
    unfold Backtester.execute
    split <;> rfl
  rw [Backtester.onBar_eq, hrows, hcash, hpositions]
  simp only [Backtester.mark, hexec]

theorem after_equityRows (s : σ) {n : ℕ} (hn : n ≤ bt.bars.length) {i : ℕ} {bar : Bar} (hi : i < n)
    (hbar : bt.bars[i]? = some bar) :
    (bt.after strategy s n).equityRows[i]? = some (bar.date,
      equityOf (bt.after strategy s (i + 1)).cash (bt.after strategy s (i + 1)).positions bar.closes) := by
  induction n with
  | zero => exact absurd hi (Nat.not_lt_zero i)
  | succ n ih =>
    have hlength : (bt.after strategy s n).equityRows.length = n := by
      have hdates := (loop_dates bt strategy 0 (bt.bars.take n) (bt.start s)).1
      have hcount := congrArg List.length hdates
      simpa [Backtester.start, Backtester.after, Nat.min_eq_left (Nat.le_of_succ_le hn)] using hcount
    obtain ⟨last, hlast⟩ : ∃ last, bt.bars[n]? = some last := ⟨_, List.getElem?_eq_getElem hn⟩
    rw [bt.after_succ strategy s hlast, onBar_equityRows]
    rcases Nat.lt_succ_iff_lt_or_eq.mp hi with hi | rfl
    · rw [List.getElem?_append_left (hlength.symm ▸ hi)]
      exact ih (Nat.le_of_succ_le hn) hi
    · rw [List.getElem?_append_right hlength.le, hlength, Nat.sub_self, List.getElem?_cons_zero,
        bt.after_succ strategy s hlast]
      cases hbar.symm.trans hlast
      rfl

end

section
variable {bt : Backtester} {n : ℕ} {before bar : Bar} {positions : Dict Symbol Decimal}

/-- **Exactly when a missing print is no loss** of worth: the held symbols that stop printing at a
bar are worth what those that print again are. -/
theorem worth_change_iff (hbefore : bt.bars[n]? = some before) (cash : Decimal) :
    equityOf cash positions bar.closes - equityOf cash positions before.closes =
        gains bt n bar positions ↔
      GapsBalance bt n positions before bar := by
  have hmoved := equityOf_add_gapped hbefore cash positions bar
  unfold GapsBalance gains
  constructor
  · intro hchange
    linarith
  · intro hbalance
    linarith

/-- Nothing to balance: no held symbol stops printing or prints again. -/
theorem gapsBalance_of_steady
    (hsteady : ∀ e ∈ positions.entries, (before.closes e.1).isSome = (bar.closes e.1).isSome) :
    GapsBalance bt n positions before bar := by
  have hnothing (e : Symbol × Decimal) (he : e ∈ positions.entries) :
      gapped (before.closes e.1) (bar.closes e.1) e.2 =
        regained (before.closes e.1) (lastClose bt (n + 1) e.1) (bar.closes e.1) e.2 := by
    have hboth := hsteady e he
    cases hold : before.closes e.1 with
    | none =>
      rw [hold, Option.isSome_none] at hboth
      rw [Option.isSome_eq_false_iff.mp hboth.symm |> Option.isNone_iff_eq_none.mp]
      rfl
    | some px =>
      rw [hold, Option.isSome_some] at hboth
      obtain ⟨new, hnew⟩ := Option.isSome_iff_exists.mp hboth.symm
      rw [hnew]
      rfl
  unfold GapsBalance overPositions
  rw [List.map_congr_left hnothing]

end

/-- **A missing print is no loss**, at a bar without fills where the gaps balance. Both rows hold the
doubles nearest to what the unchanged account is worth at the two closes; that worth has changed by
exactly what the closes of the held symbols did, and the rows by as much up to half a unit in the
last place of each, or exactly where the two worths are doubles. -/
theorem recorded_change {σ : Type} (bt : Backtester) (strategy : Strategy σ) (s : σ) {n : ℕ}
    {before bar : Bar} (hbefore : bt.bars[n]? = some before) (hbar : bt.bars[n + 1]? = some bar)
    (hquiet : (bt.after strategy s (n + 2)).fills = (bt.after strategy s (n + 1)).fills)
    (hbalance : GapsBalance bt n (bt.after strategy s (n + 2)).positions before bar) :
    ∃ old new,
      old = equityOf (bt.after strategy s (n + 2)).cash (bt.after strategy s (n + 2)).positions
        before.closes ∧
      new = equityOf (bt.after strategy s (n + 2)).cash (bt.after strategy s (n + 2)).positions
        bar.closes ∧
      (equityRecord bt strategy s)[n]? = some (before.date, float64 old) ∧
      (equityRecord bt strategy s)[n + 1]? = some (bar.date, float64 new) ∧
      new - old = gains bt n bar (bt.after strategy s (n + 2)).positions ∧
      ∀ x y, float64 old = some x → float64 new = some y →
        |y - x - gains bt n bar (bt.after strategy s (n + 2)).positions| ≤ (ulp old + ulp new) / 2 ∧
        (IsDouble old → IsDouble new →
          y - x = gains bt n bar (bt.after strategy s (n + 2)).positions) := by
  have hlength : n + 1 < bt.bars.length := (List.getElem?_eq_some_iff.mp hbar).1
  rw [bt.after_succ strategy s hbar] at hquiet
  obtain ⟨hcash, hpositions⟩ := quiet_account bt strategy (after_held bt strategy s (n + 1)) hquiet
  rw [← bt.after_succ strategy s hbar] at hcash hpositions
  have hrow := after_equityRows bt strategy s le_rfl (Nat.lt_of_succ_lt hlength) hbefore
  have hrow' := after_equityRows bt strategy s le_rfl hlength hbar
  rw [← hcash, ← hpositions] at hrow
  have hchange := (worth_change_iff hbefore (bt.after strategy s (n + 2)).cash).mpr hbalance
  refine ⟨_, _, rfl, rfl, ?_, ?_, hchange, ?_⟩
  · rw [equityRecord, List.getElem?_map, bt.run_eq_after, hrow, Option.map_some]
  · rw [equityRecord, List.getElem?_map, bt.run_eq_after, hrow', Option.map_some]
  · intro x y hx hy
    obtain ⟨rfl, -⟩ := float64_eq_some.mp hx
    obtain ⟨rfl, -⟩ := float64_eq_some.mp hy
    rw [← hchange]
    refine ⟨?_, fun hold hnew => by rw [round_eq_self hold, round_eq_self hnew]⟩
    have hold := abs_le.mp (abs_round_sub_le
      (equityOf (bt.after strategy s (n + 2)).cash (bt.after strategy s (n + 2)).positions before.closes))
    have hnew := abs_le.mp (abs_round_sub_le
      (equityOf (bt.after strategy s (n + 2)).cash (bt.after strategy s (n + 2)).positions bar.closes))
    exact abs_le.mpr ⟨by linarith [hold.2, hnew.1], by linarith [hold.1, hnew.2]⟩

/-- A day at 10503. -/
def risenBar (date : Date) : Bar where
  date := date
  opens := fun sym => if sym = "069500" then some 10503 else none
  closes := fun sym => if sym = "069500" then some 10503 else none

/-- The table of one symbol that rises on its last day. -/
def risen : Backtester where
  config := {}
  columns := ["069500"]
  bars := [flatBar ⟨2026, 1, 29⟩, flatBar ⟨2026, 1, 30⟩, flatBar ⟨2026, 2, 2⟩, risenBar ⟨2026, 2, 3⟩]
  sorted := by decide

/-- The day after the purchase prints, and the worth moves with it. -/
theorem recorded_change_risen :
    ∃ old new, (equityRecord risen (allIn "069500") ())[2]? = some (⟨2026, 2, 2⟩, float64 old) ∧
      (equityRecord risen (allIn "069500") ())[3]? = some (⟨2026, 2, 3⟩, float64 new) ∧
      new - old = 99 * 503 := by
  have hbefore : risen.bars[2]? = some (flatBar ⟨2026, 2, 2⟩) := rfl
  have hbar : risen.bars[3]? = some (risenBar ⟨2026, 2, 3⟩) := rfl
  obtain ⟨old, new, -, -, hold, hnew, hchange, -⟩ := recorded_change risen (allIn "069500") () hbefore hbar
    (by decide +kernel) (gapsBalance_of_steady (by decide +kernel))
  exact ⟨old, new, hold, hnew, hchange.trans (by decide +kernel)⟩

def silentBar (date : Date) : Bar where
  date := date
  opens := fun _ => none
  closes := fun _ => none

/-- The table of one symbol with no print on its last day. -/
def silent : Backtester where
  config := {}
  columns := ["069500"]
  bars := [flatBar ⟨2026, 1, 29⟩, flatBar ⟨2026, 1, 30⟩, flatBar ⟨2026, 2, 2⟩, silentBar ⟨2026, 2, 3⟩]
  sorted := by decide

theorem not_marksChanges {σ : Type} {bt : Backtester} {strategy : Strategy σ} {s : σ} {n : ℕ} {bar : Bar}
    {x y : Decimal} (hx : ((equityRecord bt strategy s)[n]?.bind Prod.snd) = some x)
    (hy : ((equityRecord bt strategy s)[n + 1]?.bind Prod.snd) = some y)
    (hne : y - x ≠ gains bt n bar (bt.after strategy s (n + 2)).positions) :
    ¬ MarksChanges bt strategy s n bar := by
  rintro ⟨before, now, hbefore, hnow, hchange⟩
  obtain rfl := Option.some.inj (hx.symm.trans hbefore)
  obtain rfl := Option.some.inj (hy.symm.trans hnow)
  exact hne hchange

/-- Ninety-nine shares at 10000 are gone from the equity on the day they do not print. Where they
print and rise by 503, the equity goes from 998861.3515 to 1048658.3515, and the doubles next to
these differ by more. -/
theorem silent_lost :
    (¬ ∀ (bt : Backtester) (strategy : Strategy Unit) (s : Unit) (n : ℕ) (before bar : Bar),
        bt.bars[n]? = some before → bt.bars[n + 1]? = some bar →
        (bt.after strategy s (n + 2)).fills = (bt.after strategy s (n + 1)).fills →
        MarksChanges bt strategy s n bar) ∧
      ¬ MarksChanges silent (allIn "069500") () 2 (silentBar ⟨2026, 2, 3⟩) ∧
      ¬ MarksChanges risen (allIn "069500") () 2 (risenBar ⟨2026, 2, 3⟩) := by
  have hsilent : ¬ MarksChanges silent (allIn "069500") () 2 (silentBar ⟨2026, 2, 3⟩) :=
    not_marksChanges (x := Binary64.round (1997722703 / 2000))
      (y := Binary64.round (1997722703 / 2000 - 99 * 10000)) (by decide +kernel) (by decide +kernel)
      (by decide +kernel)
  have hrisen : ¬ MarksChanges risen (allIn "069500") () 2 (risenBar ⟨2026, 2, 3⟩) :=
    not_marksChanges (x := Binary64.round (1997722703 / 2000))
      (y := Binary64.round (1997722703 / 2000 + 99 * 503)) (by decide +kernel) (by decide +kernel)
      (by decide +kernel)
  exact ⟨fun hall => hsilent (hall silent _ () 2 (flatBar ⟨2026, 2, 2⟩) _ rfl rfl (by decide +kernel)),
    hsilent, hrisen⟩

end Tqt.Backtest
