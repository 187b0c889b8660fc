import Mathlib.Data.List.Basic

/-! Notifications: one message to every configured channel.

A channel's `send` answers or raises. `send_safe` turns an exception into a log line and
`False`, so a group never raises; it stops at the first channel that delivers, which is why
the channels behind that one see nothing (`attempted_send`). -/
namespace Tqt

inductive Level where
  | info
  | trade
  | warn
  | error
deriving DecidableEq, Repr

def Level.value : Level → String
  | info => "INFO"
  | trade => "TRADE"
  | warn => "WARN"
  | error => "ERROR"

/-- What a call comes to: its answer, or the text of what it raised. -/
inductive SendOutcome where
  | returned (ok : Bool)
  | raised (exc : String)
deriving DecidableEq, Repr

structure Notifier where
  name : String
  send : String → Level → SendOutcome

/-- What a group does, in order. -/
inductive NotifyEffect where
  | attempt (n : Notifier)
  | warning (line : String)
  | info (line : String)

/-- The channels that were attempted. -/
def attempted (effects : List NotifyEffect) : List Notifier :=
  effects.filterMap fun
    | .attempt n => some n
    | _ => none

namespace Notifier
variable (text : String) (level : Level)

/-- The channel delivers the message. -/
def Delivers (n : Notifier) : Prop := n.send text level = .returned true

instance (n : Notifier) : Decidable (n.Delivers text level) :=
  inferInstanceAs (Decidable (n.send text level = .returned true))

def sendSafe (n : Notifier) : List NotifyEffect × Bool :=
  match n.send text level with
  | .returned ok => ([.attempt n], ok)
  | .raised exc =>
    let name := n.name
    ([.attempt n, .warning s!"{name} notification failed: {exc}"], false)

theorem sendSafe_iff (n : Notifier) : (n.sendSafe text level).2 = true ↔ n.Delivers text level := by
  unfold sendSafe Delivers
  cases n.send text level <;> simp

theorem attempted_sendSafe (n : Notifier) : attempted (n.sendSafe text level).1 = [n] := by
  unfold sendSafe
  cases n.send text level <;> rfl

end Notifier

structure NotifierGroup where
  notifiers : List Notifier

namespace NotifierGroup
variable (text : String) (level : Level)

/-- The constructor drops the channels that are not configured. -/
def ofConfigured (notifiers : List (Option Notifier)) : NotifierGroup := ⟨notifiers.filterMap id⟩

/-- `any(n.send_safe(text, level=level) for n in notifiers)` -/
def anySafe : List Notifier → List NotifyEffect × Bool
  | [] => ([], false)
  | n :: rest =>
    let (effects, delivered) := n.sendSafe text level
    if delivered then (effects, true)
    else
      let (more, any) := anySafe rest
      (effects ++ more, any)

def send (group : NotifierGroup) : List NotifyEffect × SendOutcome :=
  if group.notifiers.isEmpty then
    let value := level.value
    ([.info s!"[notify:{value}] {text}"], .returned true)
  else
    let (effects, any) := anySafe text level group.notifiers
    (effects, .returned any)

/-! ### Who is attempted -/

theorem attempted_append (effects more : List NotifyEffect) :
    attempted (effects ++ more) = attempted effects ++ attempted more :=
  List.filterMap_append

section
variable {text level} {n : Notifier}

/-- A channel that delivers is the last one. -/
theorem anySafe_delivers (h : n.Delivers text level) (rest : List Notifier) :
    attempted (anySafe text level (n :: rest)).1 = [n] ∧
      (anySafe text level (n :: rest)).2 = true := by
  simp only [anySafe, (n.sendSafe_iff text level).mpr h, if_true]
  exact ⟨n.attempted_sendSafe text level, trivial⟩

theorem anySafe_fails (h : ¬ n.Delivers text level) (rest : List Notifier) :
    attempted (anySafe text level (n :: rest)).1 = n :: attempted (anySafe text level rest).1 ∧
      (anySafe text level (n :: rest)).2 = (anySafe text level rest).2 := by
  simp only [anySafe, if_neg (mt (n.sendSafe_iff text level).mp h)]
  rw [attempted_append, n.attempted_sendSafe]
  exact ⟨rfl, trivial⟩

end

/-- The answer: some channel delivers. -/
theorem anySafe_iff (ns : List Notifier) :
    (anySafe text level ns).2 = true ↔ ∃ n ∈ ns, n.Delivers text level := by
  induction ns with
  | nil => simp [anySafe]
  | cons n rest ih =>
    by_cases hn : n.Delivers text level
    · simp [(anySafe_delivers hn rest).2, hn]
    · simp [(anySafe_fails hn rest).2, ih, hn]

/-- Every channel is attempted when none delivers before the last one. -/
theorem attempted_anySafe (ns : List Notifier) :
    attempted (anySafe text level ns).1 = ns ↔ ∀ n ∈ ns.dropLast, ¬ n.Delivers text level := by
  induction ns with
  | nil => simp [anySafe, attempted]
  | cons n rest ih =>
    by_cases hn : n.Delivers text level
    · rw [(anySafe_delivers hn rest).1]
      cases rest with
      | nil => simp
      | cons m rest => simp [hn]
    · rw [(anySafe_fails hn rest).1, List.cons_inj_right, ih]
      cases rest with
      | nil => simp
      | cons m rest => simp [hn]

/-- **A message reaches every channel**, once and in order, with the answer whether any of
them delivered, exactly when none delivers before the last one. -/
theorem send_reaches_all (group : NotifierGroup) :
    (attempted (group.send text level).1 = group.notifiers ∧
      ∃ ok, (group.send text level).2 = .returned ok ∧
        (ok = true ↔ group.notifiers = [] ∨ ∃ n ∈ group.notifiers, n.Delivers text level)) ↔
    ∀ n ∈ group.notifiers.dropLast, ¬ n.Delivers text level := by
  obtain ⟨ns⟩ := group
  cases ns with
  | nil => simp [send, attempted]
  | cons n rest =>
    have hanswer : ∃ ok, (send text level ⟨n :: rest⟩).2 = .returned ok ∧
        (ok = true ↔ n :: rest = [] ∨ ∃ m ∈ n :: rest, m.Delivers text level) := by
      refine ⟨(anySafe text level (n :: rest)).2, rfl, ?_⟩
      rw [anySafe_iff]
      simp
    show attempted (anySafe text level (n :: rest)).1 = n :: rest ∧ _ ↔ _
    rw [and_iff_left hanswer]
    exact attempted_anySafe text level (n :: rest)

/-- A channel that always delivers, such as the one that only logs. -/
def healthy (name : String) : Notifier := ⟨name, fun _ _ => .returned true⟩

/-- Two healthy channels: a halt alert goes to the first one only. -/
theorem second_channel_missed :
    ¬ (attempted (send "halted" .error ⟨[healthy "telegram", healthy "null"]⟩).1 =
        [healthy "telegram", healthy "null"] ∧
      ∃ ok, (send "halted" .error ⟨[healthy "telegram", healthy "null"]⟩).2 = .returned ok ∧
        (ok = true ↔ [healthy "telegram", healthy "null"] = [] ∨
          ∃ n ∈ [healthy "telegram", healthy "null"], n.Delivers "halted" .error)) := by
  intro h
  have hlength := congrArg List.length h.1
  revert hlength
  decide +kernel

end NotifierGroup
end Tqt
