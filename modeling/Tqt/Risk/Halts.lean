import Tqt.Data.State
import Tqt.Foundation.Lts
import Tqt.Risk

/-! The kill switch over whole runs.

The switch is three texts of the state table. Read through `get_state` they are the
`KillSwitch` that the rest of this development works with (`Keeps`), and each operation on
the texts does to it what the operation on the switch does (`Keeps.checkCycle`). Over a run
the switch is on exactly when a halt in force has been recorded since the last resume
(`halted_iff`): a permanent one of any day, or one for the day of today. -/
namespace Tqt

/-- `f"{x:.2%}"`. -/
def percentHundredths (x : Decimal) : String :=
  let hundredths := (roundHalfEven (|x| * 10000)).toNat
  (if x < 0 then "-" else "") ++ toString (hundredths / 100) ++ "." ++
    String.ofList (padded 2 (hundredths % 100)) ++ "%"

/-- The text that is stored. -/
def HaltReason.text : HaltReason → String
  | .given text => text
  | .dailyLoss loss limit =>
    "daily loss " ++ percentHundredths loss ++ " breached limit -" ++ percentHundredths limit
  | .orderBudget used limit =>
    "order budget exhausted (" ++ toString used ++ "/" ++ toString limit ++ ")"

def stateHalted : String := "halted"

def stateHaltReason : String := "halt_reason"

def stateHaltedDate : String := "halted_for_date"

/-- The check itself stopped trading for the day. -/
def Verdict.stops : Verdict → Bool
  | .refuse (.dailyLoss _ _) => true
  | .refuse (.orderBudget _ _) => true
  | _ => false

namespace Halts

section
variable (loads : String → Option StateValue)

def isHalted (state : StateTable) (now : Instant) : Bool :=
  let haltedFor := getState loads stateHaltedDate .null state
  (getState loads stateHalted (.flag false) state).truth ||
    (haltedFor.truth && haltedFor == .text now.kst.iso)

/-- `str(self.store.get_state(STATE_HALT_REASON, "") or "")`. -/
def haltReason (state : StateTable) : String :=
  let reason := getState loads stateHaltReason (.text "") state
  if reason.truth then reason.shown else ""

def halt (reason : HaltReason) (forTodayOnly : Bool) (now : Instant) (state : StateTable) :
    StateTable :=
  setState stateHaltReason (.text reason.text)
    (if forTodayOnly then setState stateHaltedDate (.text now.kst.iso) state
      else setState stateHalted (.flag true) state)

def resume (state : StateTable) : StateTable :=
  setState stateHaltReason (.text "")
    (setState stateHaltedDate (.text "") (setState stateHalted (.flag false) state))

/-- `check_cycle`, on a store whose other tables are `st`. -/
def checkCycle (rm : RiskManager) (st : Store) (state : StateTable) (now : Instant)
    (snapshot : AccountSnapshot) : StateTable × Verdict :=
  if isHalted loads state now then (state, .refuse (.halted (.given (haltReason loads state))))
  else match rm.lossBreached st now snapshot with
    | some loss =>
      (halt (.dailyLoss loss rm.settings.maxDailyLossPct) true now state,
        .refuse (.dailyLoss loss rm.settings.maxDailyLossPct))
    | none =>
      if rm.settings.maxOrdersPerDay ≤ rm.ordersToday st now then
        (halt (.orderBudget (rm.ordersToday st now) rm.settings.maxOrdersPerDay) true now state,
          .refuse (.orderBudget (rm.ordersToday st now) rm.settings.maxOrdersPerDay))
      else (state, .allow)

/-! ### The texts and the switch -/

/-- Read as the code reads them, the texts say what the switch says. -/
structure Keeps (state : StateTable) (switch : KillSwitch) : Prop where
  halted : (getState loads stateHalted (.flag false) state).truth = switch.halted
  today : ∀ day : Date, ((getState loads stateHaltedDate .null state).truth &&
    getState loads stateHaltedDate .null state == .text day.iso) =
      (switch.haltedForDate == some day)

variable {loads}

theorem Keeps.isHalted_eq {state : StateTable} {st : Store} (h : Keeps loads state st.killSwitch)
    (now : Instant) : isHalted loads state now = RiskManager.isHalted st now := by
  simp only [isHalted, RiskManager.isHalted]
  rw [h.halted, h.today]

theorem Keeps.start {state : StateTable} (hhalted : state.get? stateHalted = none)
    (hdate : state.get? stateHaltedDate = none) : Keeps loads state {} := by
  constructor
  · rw [getState, hhalted]
    rfl
  · intro day
    rw [getState, hdate]
    rfl

theorem Keeps.halt {state : StateTable} {st : Store} (h : Keeps loads state st.killSwitch)
    (reason : HaltReason) (forTodayOnly : Bool) (now : Instant) :
    Keeps loads (halt reason forTodayOnly now state)
      (RiskManager.halt reason forTodayOnly now st).killSwitch := by
  have hreason : ∀ key default table, key ≠ stateHaltReason →
      getState loads key default (setState stateHaltReason (.text reason.text) table) =
        getState loads key default table :=
    fun key default table hne => getState_setState_of_ne loads hne default _ table
  unfold Halts.halt RiskManager.halt
  cases forTodayOnly with
  | true =>
    constructor
    · rw [hreason _ _ _ (by decide), if_pos rfl, getState_setState_of_ne loads (by decide)]
      exact h.halted
    · intro day
      rw [hreason _ _ _ (by decide), if_pos rfl, getState_plain loads now.kst.iso_plain]
      simp only [StateValue.truth, now.kst.iso_ne_empty, ne_eq, not_false_eq_true, decide_true,
        Bool.true_and, if_true]
      rw [Bool.eq_iff_iff]
      simp [Date.iso_injective.eq_iff]
  | false =>
    constructor
    · rw [hreason _ _ _ (by decide)]
      simp [StateValue.truth]
    · intro day
      rw [hreason _ _ _ (by decide), if_neg (by decide), getState_setState_of_ne loads (by decide)]
      exact h.today day

theorem Keeps.resume (state : StateTable) (st : Store) :
    Keeps loads (resume state) (RiskManager.resume st).killSwitch := by
  unfold Halts.resume
  constructor
  · rw [getState_setState_of_ne loads (by decide), getState_setState_of_ne loads (by decide),
      getState_flag]
    rfl
  · intro day
    rw [getState_setState_of_ne loads (by decide), getState_plain loads plain_empty]
    rfl

/-- **The gate on the texts is the gate on the switch**: they pass together and stop trading
together, and agree afterwards. -/
theorem Keeps.checkCycle {state state' : StateTable} {st : Store} {verdict : Verdict}
    (h : Keeps loads state st.killSwitch) (rm : RiskManager) (now : Instant)
    (snapshot : AccountSnapshot)
    (hcheck : checkCycle loads rm st state now snapshot = (state', verdict)) :
    Keeps loads state' (rm.checkCycle st now snapshot).1.killSwitch ∧
      (verdict = .allow ↔ (rm.checkCycle st now snapshot).2 = .allow) ∧
      verdict.stops = (rm.checkCycle st now snapshot).2.stops := by
  unfold Halts.checkCycle at hcheck
  unfold RiskManager.checkCycle
  rw [h.isHalted_eq] at hcheck
  by_cases hhalted : RiskManager.isHalted st now = true
  · rw [if_pos hhalted] at hcheck ⊢
    cases hcheck
    exact ⟨h, ⟨nofun, nofun⟩, rfl⟩
  · rw [if_neg hhalted] at hcheck ⊢
    cases hloss : rm.lossBreached st now snapshot with
    | some loss =>
      simp only [hloss] at hcheck ⊢
      cases hcheck
      exact ⟨h.halt _ true now, Iff.rfl, rfl⟩
    | none =>
      simp only [hloss] at hcheck ⊢
      by_cases hbudget : rm.settings.maxOrdersPerDay ≤ rm.ordersToday st now
      · rw [if_pos hbudget] at hcheck ⊢
        cases hcheck
        exact ⟨h.halt _ true now, Iff.rfl, rfl⟩
      · rw [if_neg hbudget] at hcheck ⊢
        cases hcheck
        exact ⟨h, Iff.rfl, rfl⟩

end

/-! ### Runs -/

/-- A store, the manager that is in use on it, and the clock. -/
structure Desk where
  store : Store
  state : StateTable
  risk : RiskManager
  now : Instant

inductive Action where
  | halt (reason : HaltReason) (forTodayOnly : Bool)
  | resume
  | check (verdict : Verdict)
  | recreate
  | tick
  | write

/-- What was done, and the date in Korea when it was. -/
structure Entry where
  action : Action
  day : Date

namespace Entry

def permanent (e : Entry) : Bool :=
  match e.action with
  | .halt _ forTodayOnly => !forTodayOnly
  | _ => false

/-- A halt for its day, by hand or by the check. -/
def forToday (e : Entry) : Bool :=
  match e.action with
  | .halt _ forTodayOnly => forTodayOnly
  | .check verdict => verdict.stops
  | _ => false

def isResume (e : Entry) : Bool :=
  match e.action with
  | .resume => true
  | _ => false

/-- It keeps trading stopped on `day`. -/
def inForce (day : Date) (e : Entry) : Prop := e.permanent = true ∨ e.forToday = true ∧ e.day = day

end Entry

/-- What is done now. -/
def Desk.entry (s : Desk) (a : Action) : Entry := ⟨a, s.now.kst⟩

@[simp] theorem Desk.entry_day (s : Desk) (a : Action) : (s.entry a).day = s.now.kst := by
  dsimp only [entry]

/-- What was done since the last resume, latest first. -/
def sinceResume (log : List Entry) : List Entry := log.reverse.takeWhile fun e => !e.isResume

theorem sinceResume_snoc (log : List Entry) (e : Entry) :
    sinceResume (log ++ [e]) = if e.isResume then [] else e :: sinceResume log := by
  rw [sinceResume, List.reverse_append, List.reverse_singleton, List.singleton_append,
    List.takeWhile_cons]
  cases e.isResume <;> rfl

/-- What comes after the last resume is in force. -/
theorem mem_sinceResume {front back : List Entry} {e : Entry} (he : e.isResume = false)
    (hback : ∀ e' ∈ back, e'.isResume = false) : e ∈ sinceResume (front ++ e :: back) := by
  induction back using List.reverseRecOn with
  | nil =>
    rw [sinceResume_snoc, he]
    exact List.mem_cons_self ..
  | append_singleton rest last ih =>
    have hlast := hback last (List.mem_append_right _ (List.mem_singleton_self _))
    rw [show front ++ e :: (rest ++ [last]) = front ++ e :: rest ++ [last] by simp,
      sinceResume_snoc, hlast]
    exact List.mem_cons_of_mem _ (ih fun e' he' => hback e' (List.mem_append_left _ he'))

section
variable (loads : String → Option StateValue)

/-- The keys of the switch. -/
def switchKeys : List String := [stateHalted, stateHaltReason, stateHaltedDate]

inductive Steps : Desk → Entry → Desk → Prop where
  | halt {s : Desk} (reason : HaltReason) (forTodayOnly : Bool) :
      Steps s (s.entry (.halt reason forTodayOnly))
        { s with state := halt reason forTodayOnly s.now s.state }
  | resume {s : Desk} : Steps s (s.entry .resume) { s with state := resume s.state }
  | check {s : Desk} {state : StateTable} {verdict : Verdict} (snapshot : AccountSnapshot) :
      checkCycle loads s.risk s.store s.state s.now snapshot = (state, verdict) →
      Steps s (s.entry (.check verdict)) { s with state := state }
  /-- A restart: another manager on the same store. -/
  | recreate {s : Desk} (risk : RiskManager) :
      Steps s (s.entry .recreate) { s with risk := risk }
  /-- The clock moves, and may step back within a day. -/
  | tick {s : Desk} {now : Instant} : s.now.kst ≤ now.kst →
      Steps s (s.entry .tick) { s with now := now }
  /-- Any other write to the store. -/
  | write {s : Desk} {store : Store} {state : StateTable} :
      (∀ key ∈ switchKeys, state.get? key = s.state.get? key) →
      Steps s (s.entry .write) { s with store := store, state := state }

def system : Lts Desk Entry := ⟨Steps loads⟩

/-- The switch after what the log records. -/
structure Recorded (log : List Entry) (s : Desk) (switch : KillSwitch) : Prop where
  keeps : Keeps loads s.state switch
  past : ∀ e ∈ sinceResume log, e.day ≤ s.now.kst
  halted : switch.halted = true ↔ ∃ e ∈ sinceResume log, e.permanent = true
  today : ∀ day, s.now.kst ≤ day → (switch.haltedForDate = some day ↔
    ∃ e ∈ sinceResume log, e.forToday = true ∧ e.day = day)

variable {loads} {log : List Entry} {s : Desk} {switch : KillSwitch}

theorem Recorded.past_snoc (h : Recorded loads log s switch) (a : Action) :
    ∀ e ∈ sinceResume (log ++ [s.entry a]), e.day ≤ s.now.kst := by
  intro e he
  rw [sinceResume_snoc] at he
  cases hr : (s.entry a).isResume with
  | true =>
    rw [hr] at he
    cases he
  | false =>
    rw [hr] at he
    rcases List.mem_cons.mp he with rfl | hold
    · exact (s.entry_day a).le
    · exact h.past e hold

/-- Something that neither halts nor resumes. -/
theorem Recorded.idle (h : Recorded loads log s switch) {t : Desk} {a : Action}
    (hkeeps : Keeps loads t.state switch) (hnow : s.now.kst ≤ t.now.kst)
    (hresume : (s.entry a).isResume = false) (hperm : (s.entry a).permanent = false)
    (htoday : (s.entry a).forToday = false) :
    Recorded loads (log ++ [s.entry a]) t switch := by
  refine ⟨hkeeps, fun e he => (h.past_snoc a e he).trans hnow, ?_, ?_⟩
  · rw [h.halted, sinceResume_snoc, hresume]
    simp [hperm]
  · intro day hday
    rw [h.today day (hnow.trans hday), sinceResume_snoc, hresume]
    simp [htoday]

/-- A permanent halt. -/
theorem Recorded.halt (h : Recorded loads log s switch) {t : Desk} {a : Action}
    {switch' : KillSwitch} (hkeeps : Keeps loads t.state switch') (hnow : t.now = s.now)
    (hhalted : switch'.halted = true) (hdate : switch'.haltedForDate = switch.haltedForDate)
    (hresume : (s.entry a).isResume = false) (hperm : (s.entry a).permanent = true)
    (htoday : (s.entry a).forToday = false) : Recorded loads (log ++ [s.entry a]) t switch' := by
  refine ⟨hkeeps, hnow ▸ h.past_snoc a, ?_, ?_⟩
  · rw [hhalted, sinceResume_snoc, hresume]
    simp [hperm]
  · intro day hday
    rw [hdate, h.today day (hnow ▸ hday), sinceResume_snoc, hresume]
    simp [htoday]

/-- A halt for the day. It replaces an earlier date, which is over or is today's. -/
theorem Recorded.haltToday (h : Recorded loads log s switch) {t : Desk} {a : Action}
    {switch' : KillSwitch} (hkeeps : Keeps loads t.state switch') (hnow : t.now = s.now)
    (hhalted : switch'.halted = switch.halted) (hdate : switch'.haltedForDate = some s.now.kst)
    (hresume : (s.entry a).isResume = false) (hperm : (s.entry a).permanent = false)
    (htoday : (s.entry a).forToday = true) : Recorded loads (log ++ [s.entry a]) t switch' := by
  refine ⟨hkeeps, hnow ▸ h.past_snoc a, ?_, ?_⟩
  · rw [hhalted, h.halted, sinceResume_snoc, hresume]
    simp [hperm]
  · intro day hday
    rw [hnow] at hday
    rw [hdate, sinceResume_snoc, hresume]
    simp only [Bool.false_eq_true, if_false, Option.some.injEq, List.mem_cons]
    constructor
    · intro heq
      exact ⟨s.entry a, .inl rfl, htoday, (s.entry_day a).trans heq⟩
    · intro hex
      obtain ⟨e', hmem, -, hday'⟩ := hex
      rcases hmem with rfl | hold
      · exact (s.entry_day a).symm.trans hday'
      · exact le_antisymm hday (hday' ▸ h.past e' hold)

theorem Recorded.resume (h : Recorded loads log s switch) (st : Store) :
    Recorded loads (log ++ [s.entry .resume]) { s with state := Halts.resume s.state }
      (RiskManager.resume st).killSwitch := by
  have hnone : sinceResume (log ++ [s.entry .resume]) = [] := by rw [sinceResume_snoc]; rfl
  refine ⟨.resume _ st, h.past_snoc .resume, ?_, ?_⟩
  · rw [hnone]
    exact ⟨nofun, fun hex => absurd hex (by simp)⟩
  · intro day _
    rw [hnone]
    exact ⟨nofun, fun hex => absurd hex (by simp)⟩

/-- The gate leaves the switch alone or halts for the day. -/
theorem checkCycle_stops (rm : RiskManager) (st : Store) (now : Instant)
    (snapshot : AccountSnapshot) :
    (rm.checkCycle st now snapshot).2.stops = false ∧ (rm.checkCycle st now snapshot).1 = st ∨
      (rm.checkCycle st now snapshot).2.stops = true ∧
        ∃ reason, (rm.checkCycle st now snapshot).1 = RiskManager.halt reason true now st := by
  unfold RiskManager.checkCycle
  by_cases hhalted : RiskManager.isHalted st now = true
  · rw [if_pos hhalted]
    exact .inl ⟨rfl, rfl⟩
  · rw [if_neg hhalted]
    cases rm.lossBreached st now snapshot with
    | some loss => exact .inr ⟨rfl, _, rfl⟩
    | none =>
      simp only
      by_cases hbudget : rm.settings.maxOrdersPerDay ≤ rm.ordersToday st now
      · rw [if_pos hbudget]
        exact .inr ⟨rfl, _, rfl⟩
      · rw [if_neg hbudget]
        exact .inl ⟨rfl, rfl⟩

/-- **One step** keeps the switch and the log together. -/
theorem Recorded.step (h : Recorded loads log s switch) {t : Desk} {e : Entry}
    (hstep : (system loads).step s e t) : ∃ switch', Recorded loads (log ++ [e]) t switch' := by
  -- the other tables beside the switch that the texts stand for
  have hkeeps : Keeps loads s.state ({ s.store with killSwitch := switch } : Store).killSwitch :=
    h.keeps
  cases hstep with
  | halt reason forTodayOnly =>
    cases forTodayOnly with
    | true => exact ⟨_, h.haltToday (a := .halt reason true)
        (hkeeps.halt reason true s.now) rfl rfl rfl rfl rfl rfl⟩
    | false => exact ⟨_, h.halt (a := .halt reason false)
        (hkeeps.halt reason false s.now) rfl rfl rfl rfl rfl rfl⟩
  | resume => exact ⟨_, h.resume s.store⟩
  | @check state verdict snapshot hcheck =>
    obtain ⟨hafter, -, hstops⟩ := hkeeps.checkCycle s.risk s.now snapshot hcheck
    rcases checkCycle_stops s.risk { s.store with killSwitch := switch } s.now snapshot with
      ⟨hno, hsame⟩ | ⟨hyes, reason, hhalt⟩
    · rw [hsame] at hafter
      exact ⟨switch, h.idle (a := .check verdict) hafter le_rfl rfl rfl (hstops.trans hno)⟩
    · rw [hhalt] at hafter
      exact ⟨_, h.haltToday (a := .check verdict) hafter rfl rfl rfl rfl rfl
        (hstops.trans hyes)⟩
  | recreate risk => exact ⟨switch, h.idle (a := .recreate) hkeeps le_rfl rfl rfl rfl⟩
  | tick hclock => exact ⟨switch, h.idle (a := .tick) hkeeps hclock rfl rfl rfl⟩
  | @write store state hsame =>
    have hread : ∀ key ∈ switchKeys, ∀ default,
        getState loads key default state = getState loads key default s.state := by
      intro key hkey default
      rw [getState, hsame key hkey, getState]
    have hafter : Keeps loads state switch := by
      refine ⟨?_, fun day => ?_⟩
      · rw [hread stateHalted (by decide)]
        exact h.keeps.halted
      · rw [hread stateHaltedDate (by decide)]
        exact h.keeps.today day
    exact ⟨switch, h.idle (a := .write) hafter le_rfl rfl rfl rfl⟩

theorem Recorded.run {more : List Entry} {t : Desk} (hrun : (system loads).Run s more t)
    (h : Recorded loads log s switch) : ∃ switch', Recorded loads (log ++ more) t switch' := by
  induction hrun generalizing log switch with
  | nil s => exact ⟨switch, by rwa [List.append_nil]⟩
  | @cons s u t e rest hstep _ ih =>
    obtain ⟨switch', h'⟩ := h.step hstep
    rw [← List.singleton_append, ← List.append_assoc]
    exact ih h'

/-- The switch has never been written. -/
structure Fresh (state : StateTable) : Prop where
  halted : state.get? stateHalted = none
  date : state.get? stateHaltedDate = none

theorem Recorded.start (h : Fresh s.state) : Recorded loads [] s {} := by
  refine ⟨.start h.halted h.date, nofun, ?_, ?_⟩
  · exact ⟨nofun, fun hex => absurd hex (by simp [sinceResume])⟩
  · intro day _
    exact ⟨nofun, fun hex => absurd hex (by simp [sinceResume])⟩

/-- **The kill switch over whole runs**: trading is halted exactly when a halt has been recorded
since the last resume that is permanent or for today. So a permanent halt lasts until the
next resume, through date changes, restarts and automatic halts, and halts for the day
alone end with it. -/
theorem halted_iff {t : Desk} (hs : Fresh s.state) (hrun : (system loads).Run s log t) :
    (isHalted loads t.state t.now = true ↔ ∃ e ∈ sinceResume log, e.inForce t.now.kst) ∧
      (∀ front e back, log = front ++ e :: back → e.permanent = true →
        (∀ e' ∈ back, e'.isResume = false) → isHalted loads t.state t.now = true) ∧
      ((∀ e ∈ sinceResume log, e.permanent = false ∧ e.day < t.now.kst) →
        isHalted loads t.state t.now = false) := by
  obtain ⟨switch, h⟩ := Recorded.run hrun (.start hs)
  rw [List.nil_append] at h
  have hkeeps : Keeps loads t.state ({ t.store with killSwitch := switch } : Store).killSwitch :=
    h.keeps
  have hswitch : isHalted loads t.state t.now =
      (switch.halted || switch.haltedForDate == some t.now.kst) := hkeeps.isHalted_eq t.now
  have hiff : isHalted loads t.state t.now = true ↔ ∃ e ∈ sinceResume log, e.inForce t.now.kst := by
    rw [hswitch, Bool.or_eq_true, beq_iff_eq, h.halted, h.today t.now.kst le_rfl, ← exists_or]
    simp only [← and_or_left, Entry.inForce]
  refine ⟨hiff, ?_, ?_⟩
  · intro front e back hlog hperm hback
    have hresume : e.isResume = false := by
      obtain ⟨action, day⟩ := e
      cases action with
      | resume => cases hperm
      | _ => rfl
    exact hiff.mpr ⟨e, hlog ▸ mem_sinceResume hresume hback, .inl hperm⟩
  · intro hover
    rw [Bool.eq_false_iff]
    intro hhalted
    obtain ⟨e, hmem, hforce⟩ := hiff.mp hhalted
    obtain ⟨hperm, hday⟩ := hover e hmem
    rcases hforce with hyes | ⟨-, htoday⟩
    · rw [hperm] at hyes
      cases hyes
    · exact absurd htoday hday.ne

end

/-! ### Two nights -/

/-- Nothing here reads a container. -/
def noJson : String → Option StateValue := fun _ => none

/-- A new store, in the afternoon of 2026-08-17. -/
def newDesk : Desk where
  store := {}
  state := ∅
  risk := { brokerName := .paper }
  now := ⟨⟨2026, 8, 17⟩, 20000⟩

/-- Halted for the day, until the next one. -/
def firstNight : Desk :=
  { newDesk with
    state := halt (.given "lunch") true newDesk.now newDesk.state
    now := ⟨⟨2026, 8, 18⟩, 20000⟩ }

/-- Halted, restarted, and on to the day after. -/
def secondNight : Desk :=
  { firstNight with
    state := halt (.given "stop") false firstNight.now firstNight.state
    now := ⟨⟨2026, 8, 19⟩, 20000⟩ }

def lunch : List Entry := [newDesk.entry (.halt (.given "lunch") true), newDesk.entry .tick]

def stop : List Entry :=
  [firstNight.entry (.halt (.given "stop") false), firstNight.entry .recreate, firstNight.entry .tick]

theorem halted_iff_two_nights :
    isHalted noJson firstNight.state firstNight.now = false ∧
      isHalted noJson secondNight.state secondNight.now = true := by
  have hfirst : (system noJson).Run newDesk lunch firstNight :=
    .cons (.halt (.given "lunch") true) (.cons (.tick (by decide +kernel)) (.nil _))
  have hsecond : (system noJson).Run newDesk (lunch ++ stop) secondNight :=
    hfirst.append (.cons (.halt (.given "stop") false)
      (.cons (.recreate { brokerName := .paper }) (.cons (.tick (by decide +kernel)) (.nil _))))
  refine ⟨(halted_iff ⟨rfl, rfl⟩ hfirst).2.2 ?_, ?_⟩
  · decide +kernel
  · exact (halted_iff ⟨rfl, rfl⟩ hsecond).2.1 lunch _ _ rfl rfl (by decide)

end Halts
end Tqt
