import Tqt.Data.State
import Tqt.Foundation.Changes

/-! The IP watchdog.

The scheduler's job, the `/ip` command and `tqt doctor` all compare the public address with the
one address the store remembers, so whoever looks first consumes a change. `ip_changes_told`
says what that comes to over any order of their checks, with lookups that fail and with other
writes to the state in between: every change between two successful lookups is logged and told
exactly once, and the log leads from the first address seen to the last without a gap. A check
is one step: two that overlap may both tell the same change. -/
namespace Tqt

/-- What a service answers. -/
inductive IpAnswer where
  | error
  | response (status : ℕ) (text : String)

def ipServices : List String :=
  ["https://api.ipify.org", "https://checkip.amazonaws.com", "https://ifconfig.me/ip"]

/-- An answer that can be used. -/
def IpAnswer.address : IpAnswer → Option String
  | .error => none
  | .response status text =>
    if status = 200 ∧ strip text ≠ "" ∧ (strip text).length ≤ 45 then some (strip text) else none

/-- `public_ip`: the first service that answers with one. -/
def publicIp (ask : String → IpAnswer) : Option String :=
  ipServices.findSome? fun url => (ask url).address

def stateLastIp : String := "last_public_ip"

structure IPStatus where
  current : Option String
  previous : StateValue
  changed : Bool
deriving DecidableEq

def IPStatus.message (s : IPStatus) : String :=
  match s.current with
  | none => "공인 IP를 확인할 수 없습니다 (네트워크 문제일 수 있음)"
  | some current =>
    if s.changed then
      "⚠️ 공인 IP가 " ++ s.previous.shown ++ " → " ++ current ++ " 로 변경되었습니다.\n" ++
        "토스증권 WTS → 설정 → Open API → 허용 IP 관리에 " ++
        current ++ " 를 등록하세요. 등록 전까지 모든 주문이 403으로 막힙니다."
    else "공인 IP " ++ current ++ " (변경 없음)"

/-- A row of `events`, without its time. -/
structure EventRow where
  level : String
  kind : String
  message : String
  data : List (String × String)
deriving DecidableEq

/-- What a check touches of the store. -/
structure OpsStore where
  state : StateTable := ∅
  events : List EventRow := []

def ipEvent (previous current : String) : EventRow where
  level := "WARN"
  kind := "ip_changed"
  message := "public IP changed " ++ previous ++ " -> " ++ current
  data := [("previous", previous), ("current", current)]

/-- `check_ip`. -/
def checkIp (loads : String → Option StateValue) (ask : String → IpAnswer) (s : OpsStore) :
    OpsStore × IPStatus :=
  let current := publicIp ask
  let previous := getState loads stateLastIp .null s.state
  match current with
  | none => (s, ⟨none, previous, false⟩)
  | some ip =>
    let changed := ip ≠ "" ∧ previous.truth ∧ StateValue.text ip ≠ previous
    ({ state := setState stateLastIp (.text ip) s.state
       events := s.events ++ if changed then [ipEvent previous.shown ip] else [] },
      ⟨some ip, previous, changed⟩)

/-! ### The three that look -/

inductive IpCaller where
  | watchdog
  | command
  | doctor

/-- What the operator gets to see. -/
inductive IpNotice where
  | alert (message : String)
  | reply (message : String)
  | check (ok : Bool) (detail : String)

/-- `check_ip_and_alert`, `/ip`, and the "public IP" check of `preflight`. -/
def IpCaller.notice (who : IpCaller) (s : IPStatus) : Option IpNotice :=
  match who with
  | .watchdog => if s.changed ∨ s.current = none then some (.alert s.message) else none
  | .command => some (.reply s.message)
  | .doctor => some (.check (s.current ≠ none ∧ ¬ s.changed) s.message)

/-- A check, or a write of another key. -/
inductive OpsStep where
  | look (who : IpCaller) (ask : String → IpAnswer)
  | write (key : String) (value : StateValue) (other : key ≠ stateLastIp)

/-- The address that a step learns. -/
def OpsStep.seen : OpsStep → Option String
  | .look _ ask => publicIp ask
  | .write _ _ _ => none

structure OpsRun where
  store : OpsStore
  reports : List (IpCaller × IPStatus) := []

section
variable (loads : String → Option StateValue)

def opsStep (r : OpsRun) : OpsStep → OpsRun
  | .look who ask =>
    let out := checkIp loads ask r.store
    ⟨out.1, r.reports ++ [(who, out.2)]⟩
  | .write key value _ => { r with store := { r.store with state := setState key value r.store.state } }

def opsRun (s : OpsStore) (steps : List OpsStep) : OpsRun := steps.foldl (opsStep loads) ⟨s, []⟩

end

/-! ### Addresses as text -/

def addressChars : List Char := "0123456789abcdefABCDEF.:".toList

/-- The text of an address. -/
def IpText (s : String) : Prop := s ≠ "" ∧ ∀ c ∈ s.toList, c ∈ addressChars

instance (s : String) : Decidable (IpText s) :=
  decidable_of_iff (s ≠ "" ∧ s.toList.all (fun c => decide (c ∈ addressChars)) = true)
    (and_congr_right fun _ => by simp only [List.all_eq_true, decide_eq_true_eq])

/-- An address comes back from the state as it was written. -/
theorem decode_address (loads : String → Option StateValue) {s : String} (h : IpText s) :
    decode loads s = .text s := by
  have hchars : addressChars.all (fun c => !isSpace c && decide (c ∉ jsonOpeners)) = true := by decide
  rw [List.all_eq_true] at hchars
  have hlit : ∀ lit : String, ∀ c ∈ lit.toList, c ∉ addressChars → s ≠ lit := by
    rintro lit c hc hnot rfl
    exact hnot (h.2 c hc)
  have hopen : opensJson s = false := by
    unfold opensJson
    cases hs : s.toList with
    | nil => rfl
    | cons c rest =>
      have hc := hchars c (h.2 c (by rw [hs]; exact List.mem_cons_self ..))
      simpa using (Bool.and_eq_true_iff.mp hc).2
  have hstrip : strip s = s := strip_eq fun c hc => by
    simpa using (Bool.and_eq_true_iff.mp (hchars c (h.2 c hc))).1
  simp only [decode, hstrip]
  rw [if_neg (hlit "true" 't' (by decide) (by decide)),
    if_neg (hlit "false" 'l' (by decide) (by decide)),
    if_neg (hlit "null" 'n' (by decide) (by decide)), hopen]
  rfl

/-! ### What a run of them tells -/

section
variable (loads : String → Option StateValue)

/-- The report of a change. -/
def changeStatus (step : String × String) : IPStatus := ⟨some step.2, .text step.1, true⟩

/-- After a run that saw the addresses `seen`. -/
structure Watched (events₀ : List EventRow) (seen : List String) (r : OpsRun) : Prop where
  addresses : ∀ ip ∈ seen, IpText ip
  stored : r.store.state.get? stateLastIp = seen.getLast?
  logged : r.store.events = events₀ ++ (changes seen).map fun step => ipEvent step.1 step.2
  told : (r.reports.map Prod.snd).filter IPStatus.changed = (changes seen).map changeStatus

/-- What a check remembers is the last address seen. -/
theorem Watched.previous {events₀ : List EventRow} {seen : List String} {r : OpsRun}
    (h : Watched events₀ seen r) : getState loads stateLastIp .null r.store.state =
      seen.getLast?.elim .null StateValue.text := by
  rw [getState, h.stored]
  cases hlast : seen.getLast? with
  | none => rfl
  | some ip => exact decode_address loads (h.addresses ip (List.mem_of_getLast? hlast))

/-- What a successful lookup adds: the change from the last address, if there is one. -/
theorem checkIp_seen {ask : String → IpAnswer} {s : OpsStore} {ip : String} (last : Option String)
    (hip : publicIp ask = some ip) (htext : IpText ip) (hlast : ∀ p ∈ last, IpText p)
    (hprevious : getState loads stateLastIp .null s.state = last.elim .null StateValue.text) :
    (checkIp loads ask s).1.state = setState stateLastIp (.text ip) s.state ∧
      (checkIp loads ask s).1.events = s.events ++
        (last.elim [] fun p => change p ip).map (fun step => ipEvent step.1 step.2) ∧
      [(checkIp loads ask s).2].filter IPStatus.changed =
        (last.elim [] fun p => change p ip).map changeStatus := by
  have hne : ip ≠ "" := htext.1
  unfold checkIp
  rw [hip, hprevious]
  refine ⟨rfl, ?_⟩
  cases last with
  | none => simp [StateValue.truth]
  | some p =>
    have hp : p ≠ "" := (hlast p rfl).1
    by_cases hsame : p = ip
    · simp [StateValue.truth, change, hsame]
    · simp [StateValue.truth, change, changeStatus, StateValue.shown, hne, hp, hsame, Ne.symm hsame]

/-- **One step keeps the watch.** -/
theorem Watched.step {events₀ : List EventRow} {seen : List String} {r : OpsRun}
    (h : Watched events₀ seen r) (s : OpsStep) (hip : ∀ ip, s.seen = some ip → IpText ip) :
    Watched events₀ (seen ++ s.seen.toList) (opsStep loads r s) := by
  cases s with
  | write key value hother =>
    have hstored : (setState key value r.store.state).get? stateLastIp = seen.getLast? :=
      (Dict.get?_insert_of_ne _ _ (Ne.symm hother)).trans h.stored
    simp only [OpsStep.seen, Option.toList_none, List.append_nil]
    exact ⟨h.addresses, hstored, h.logged, h.told⟩
  | look who ask =>
    cases hlook : publicIp ask with
    | none =>
      -- A failed lookup leaves everything, and is not a change.
      simp only [OpsStep.seen, hlook, Option.toList_none, List.append_nil]
      refine ⟨h.addresses, ?_, ?_, ?_⟩
      · simp only [opsStep, checkIp, hlook]
        exact h.stored
      · simp only [opsStep, checkIp, hlook]
        exact h.logged
      · simp only [opsStep, checkIp, hlook, List.map_append, List.filter_append, h.told]
        exact List.append_nil _
    | some ip =>
      have htext := hip ip hlook
      obtain ⟨hstate, hevents, hstatus⟩ := checkIp_seen loads seen.getLast? hlook htext
        (fun p hp => h.addresses p (List.mem_of_getLast? hp)) (h.previous loads)
      simp only [OpsStep.seen, hlook, Option.toList_some]
      refine ⟨?_, ?_, ?_, ?_⟩
      · intro p hp
        rcases List.mem_append.mp hp with hp | hp
        · exact h.addresses p hp
        · rw [List.mem_singleton.mp hp]
          exact htext
      · rw [List.getLast?_concat]
        show (checkIp loads ask r.store).1.state.get? stateLastIp = some ip
        rw [hstate]
        exact Dict.get?_insert_self ..
      · show (checkIp loads ask r.store).1.events = _
        rw [hevents, h.logged, changes_append, List.map_append, List.append_assoc]
      · show ((r.reports ++ [(who, _)]).map Prod.snd).filter IPStatus.changed = _
        rw [List.map_append, List.filter_append, h.told, changes_append, List.map_append]
        exact congrArg _ hstatus

theorem Watched.run {events₀ : List EventRow} {seen : List String} {r : OpsRun}
    (h : Watched events₀ seen r) (steps : List OpsStep)
    (hip : ∀ s ∈ steps, ∀ ip, s.seen = some ip → IpText ip) :
    Watched events₀ (seen ++ steps.filterMap OpsStep.seen) (steps.foldl (opsStep loads) r) := by
  induction steps generalizing seen r with
  | nil => simpa using h
  | cons s rest ih =>
    have hrest := ih (h.step loads s (hip s (List.mem_cons_self ..)))
      fun s' hs' => hip s' (List.mem_cons_of_mem s hs')
    rw [List.append_assoc] at hrest
    have hseen : (s :: rest).filterMap OpsStep.seen = s.seen.toList ++ rest.filterMap OpsStep.seen := by
      rw [List.filterMap_cons]
      cases s.seen <;> rfl
    rw [hseen]
    exact hrest

/-- Whoever finds a change passes it on. -/
theorem notice_of_changed (who : IpCaller) {s : IPStatus} (h : s.changed = true) :
    who.notice s ≠ none := by
  cases who with
  | watchdog =>
    unfold IpCaller.notice
    rw [if_pos (.inl h)]
    exact Option.some_ne_none _
  | command => exact Option.some_ne_none _
  | doctor => exact Option.some_ne_none _

/-- **Every change of the address is told once**: over any order of checks by the scheduler, the
command and the doctor, with lookups that fail and other writes in between, the checks that
report a change are, one for one and in order, the changes between successful lookups; each is
logged once and passed on by whoever found it; and the log leads from the first address that was
seen to the one that is remembered. -/
theorem ip_changes_told (first : Option String) (s : OpsStore) (steps : List OpsStep)
    (hstored : s.state.get? stateLastIp = first) (hfirst : ∀ ip ∈ first, IpText ip)
    (hip : ∀ step ∈ steps, ∀ ip, step.seen = some ip → IpText ip) :
    let r := opsRun loads s steps
    let seen := first.toList ++ steps.filterMap OpsStep.seen
    (r.reports.map Prod.snd).filter IPStatus.changed = (changes seen).map changeStatus ∧
      r.store.events = s.events ++ (changes seen).map (fun step => ipEvent step.1 step.2) ∧
      (∀ report ∈ r.reports, report.2.changed = true → report.1.notice report.2 ≠ none) ∧
      (∀ a rest, seen = a :: rest → ∃ b, r.store.state.get? stateLastIp = some b ∧
        Path a (changes seen) b) := by
  intro r seen
  have hstart : Watched s.events first.toList ⟨s, []⟩ := by
    refine ⟨fun ip hmem => hfirst ip (Option.mem_toList.mp hmem), ?_, ?_, ?_⟩
    · rw [hstored]
      cases first <;> rfl
    · cases first <;> exact (List.append_nil _).symm
    · cases first <;> rfl
  have hrun : Watched s.events seen r := hstart.run loads steps hip
  refine ⟨hrun.told, hrun.logged, fun report _ hchanged => notice_of_changed report.1 hchanged, ?_⟩
  intro a rest hseen
  rw [hrun.stored, hseen]
  exact ⟨_, List.getLast?_eq_some_getLast (List.cons_ne_nil a rest), changes_path a rest⟩

end

/-- Every service answers with this address. -/
def answering (ip : String) (_url : String) : IpAnswer := .response 200 (ip ++ "\n")

/-- The router reconnects twice: the command sees the first new address, the scheduler the
second one, and a lookup fails in between. -/
def reconnects : List OpsStep :=
  [.look .watchdog (answering "203.0.113.7"), .look .command (answering "203.0.113.8"),
    .look .watchdog fun _ => .error, .write "kill_switch" (.flag false) (by decide),
    .look .watchdog (answering "203.0.113.9"), .look .doctor (answering "203.0.113.9")]

theorem ip_changes_told_reconnects :
    ((opsRun (fun _ => none) {} reconnects).reports.map Prod.snd).filter IPStatus.changed =
      [changeStatus ("203.0.113.7", "203.0.113.8"), changeStatus ("203.0.113.8", "203.0.113.9")] := by
  have haddresses : reconnects.all (fun s => s.seen.all fun ip => decide (IpText ip)) = true := by
    decide +kernel
  refine (ip_changes_told _ none {} reconnects rfl nofun ?_).1.trans (by decide +kernel)
  intro step hstep ip hseen
  have hstep' := List.all_eq_true.mp haddresses step hstep
  rw [hseen] at hstep'
  exact of_decide_eq_true hstep'

end Tqt
