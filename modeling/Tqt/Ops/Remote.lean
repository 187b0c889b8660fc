import Tqt.Notify.Telegram
import Tqt.Web.App

/-! The operator's surfaces.

Three of them reach the kill switch: the dashboard's form, the Telegram chat and the command line.
Each decides by itself whose word it takes: by the token, by the chat, by being on the machine. The
runner's own threads do not, and can stop trading for the day at most. So at any moment the
permanent halt is on file exactly when the last word from somebody entitled to it was a halt, and
what anybody else sends may as well not have been sent (`remote_control`). -/
namespace Tqt.Remote
open Halts

/-! ### The chat -/

/-- The keys of `command_handlers`. -/
def commandNames : List String :=
  ["status", "positions", "pnl", "report", "orders", "signals", "halt", "stop", "resume", "ip",
    "rebalance", "plan", "help", "start"]

/-- `" ".join(args) or "operator requested via Telegram"`. -/
def reasonOf (args : List String) : String :=
  let joined := " ".intercalate args
  if joined = "" then "operator requested via Telegram" else joined

/-- Neither a halt nor a resume by hand. -/
def quiet (e : Entry) : Prop :=
  match e.action with
  | .halt _ _ => False
  | .resume => False
  | _ => True

section
variable (loads : String → Option StateValue)

/-- The runner writes to its store, runs its checks, and does nothing to the switch by hand. -/
def Quietly (s t : Desk) : Prop := ∃ entries, (system loads).Run s entries t ∧ ∀ e ∈ entries, quiet e

/-- The handlers that report, and the one that runs a cycle. -/
structure Handlers where
  other : String → List String → Desk → Desk × Except Raised String
  quietly : ∀ cmd args s, Quietly loads s (other cmd args s).1

variable {loads}

/-- `handlers[cmd](args)`. -/
def Handlers.handle (h : Handlers loads) (cmd : String) (args : List String) (s : Desk) :
    Desk × Except Raised String :=
  if cmd = "halt" ∨ cmd = "stop" then
    ({ s with state := Halts.halt (.given (reasonOf args)) false s.now s.state },
      .ok ("🛑 거래를 중단했습니다: " ++ reasonOf args ++ "\n재개는 /resume"))
  else if cmd = "resume" then
    ({ s with state := Halts.resume s.state }, .ok "▶️ 거래를 재개했습니다.")
  else h.other cmd args s

end

/-- The bot of the chat `chatId`. -/
def bot (chatId : String) (lower : String → String) : TelegramNotifier := ⟨chatId, commandNames, lower⟩

section
variable {loads : String → Option StateValue} (h : Handlers loads) (b : TelegramNotifier)

/-- What a handler does, where the effect is its invocation. -/
def applied (s : Desk) : ChatEffect → Desk
  | .invoke _ cmd args => (h.handle cmd args s).1
  | _ => s

/-- One update: the desk after it and what the bot did. -/
def receive (sending : Option Raised) (u : Update) (s : Desk) : Desk × List ChatEffect :=
  let env : Circumstances := { handler := fun cmd args => (h.handle cmd args s).2, sending := sending }
  let effects := (b.process env u).1
  (effects.foldl (applied h) s, effects)

/-- The command of an update and its arguments, where it is one from the chat. -/
def heard (u : Update) : Option (String × List String) :=
  if u.text = "" ∨ u.chat ≠ b.chatId then none
  else
    match splitBlanks u.text with
    | [] => none
    | first :: args => if b.command first ∈ b.commands then some (b.command first, args) else none

/-- What an update asks of the switch. -/
def chatWord (u : Update) : Option Word :=
  match heard b u with
  | some (cmd, args) =>
    if cmd = "halt" ∨ cmd = "stop" then some (.halt (reasonOf args))
    else if cmd = "resume" then some .resume
    else none
  | none => none

variable {h b}

/-- **An update** does what its command does. -/
theorem receive_desk (sending : Option Raised) (u : Update) (s : Desk) :
    (receive h b sending u s).1 =
      match heard b u with
      | some (cmd, args) => (h.handle cmd args s).1
      | none => s := by
  unfold receive heard TelegramNotifier.process
  simp only
  by_cases htext : u.text = ""
  · rw [if_pos htext, if_pos (.inl htext)]
    rfl
  · by_cases hchat : u.chat = b.chatId
    · rw [if_neg htext, if_neg (not_not.mpr hchat), if_neg (not_or.mpr ⟨htext, not_not.mpr hchat⟩)]
      cases splitBlanks u.text with
      | nil => rfl
      | cons first args =>
        simp only
        by_cases hcmd : b.command first ∈ b.commands
        · rw [if_pos hcmd, if_pos hcmd]
          split
          · rfl
          · split <;> rfl
        · rw [if_neg hcmd, if_neg hcmd]
          rfl
    · rw [if_neg htext, if_pos hchat, if_pos (.inr hchat)]
      rfl

/-- Another chat is ignored, whatever there is to answer. -/
theorem receive_stranger {u : Update} (hchat : u.chat ≠ b.chatId) (sending : Option Raised) (s : Desk) :
    receive h b sending u s = (s, if u.text = "" then []
      else [.ignore u.chat (String.ofList (u.text.toList.take 40))]) := by
  unfold receive TelegramNotifier.process
  by_cases htext : u.text = ""
  · simp only [if_pos htext]
    rfl
  · simp only [if_neg htext, if_pos hchat]
    rfl

end

/-! ### All of them -/

/-- What `tqt halt` and `tqt resume` say. -/
def cliWord : Word → Word
  | .halt reason => .halt ("cli: " ++ reason)
  | .resume => .resume

def obeyed : Word → Desk → Desk
  | .halt reason, s => { s with state := Halts.halt (.given reason) false s.now s.state }
  | .resume, s => { s with state := Halts.resume s.state }

inductive Event where
  | request (r : Web.Request)
  | update (u : Update)
  | cli (w : Word)
  | own

section
variable {loads : String → Option StateValue} {γ : Type} (app : Web.App γ) (h : Handlers loads)
  (b : TelegramNotifier)

inductive Steps : Desk → Event → Desk → Prop where
  | request {s : Desk} (r : Web.Request) : Steps s (.request r) (app.handle r s).1
  | update {s : Desk} (sending : Option Raised) (u : Update) :
      Steps s (.update u) (receive h b sending u s).1
  | cli {s : Desk} (w : Word) : Steps s (.cli w) (obeyed (cliWord w) s)
  | own {s t : Desk} : Quietly loads s t → Steps s .own t

def surfaces : Lts Desk Event := ⟨Steps app h b⟩

/-- What an event asks of the switch. -/
def wordOf : Event → Option Word
  | .request r => app.word r
  | .update u => chatWord b u
  | .cli w => some (cliWord w)
  | .own => none

/-- The last word from somebody who is entitled to one. -/
def lastWord (events : List Event) : Option Word := (events.filterMap (wordOf app b)).getLast?

/-- The event is from somebody who is let in. -/
def Heeded : Event → Prop
  | .request r => app.Admits r
  | .update u => u.chat = b.chatId
  | _ => True

instance : DecidablePred (Heeded app b)
  | .request r => inferInstanceAs (Decidable (app.Admits r))
  | .update u => inferInstanceAs (Decidable (u.chat = b.chatId))
  | .cli _ => .isTrue trivial
  | .own => .isTrue trivial

variable (loads) in
/-- The permanent halt is on file. -/
def flag (s : Desk) : Bool := (getState loads stateHalted (.flag false) s.state).truth

variable {app h b} {s t : Desk}

/-! ### The flag -/

theorem flag_of_get? {state : StateTable} (hget : state.get? stateHalted = s.state.get? stateHalted) :
    flag loads { s with state := state } = flag loads s := by
  unfold flag getState
  rw [hget]

theorem flag_halt (reason : HaltReason) (forTodayOnly : Bool) (now : Instant) :
    flag loads { s with state := Halts.halt reason forTodayOnly now s.state } =
      (!forTodayOnly || flag loads s) := by
  unfold flag Halts.halt
  rw [getState_setState_of_ne loads (by decide)]
  cases forTodayOnly with
  | true => rw [if_pos rfl, getState_setState_of_ne loads (by decide), Bool.not_true, Bool.false_or]
  | false =>
    rw [if_neg (by decide), getState_flag]
    rfl

theorem flag_resume : flag loads { s with state := Halts.resume s.state } = false := by
  unfold flag Halts.resume
  rw [getState_setState_of_ne loads (by decide), getState_setState_of_ne loads (by decide),
    getState_flag]
  rfl

theorem flag_obeyed (w : Word) (s : Desk) : flag loads (obeyed w s) = w.isHalt := by
  cases w with
  | halt reason => exact flag_halt (.given reason) false s.now
  | resume => exact flag_resume

/-- What the gate does to the state is a halt for the day at most. -/
theorem flag_checkCycle {state : StateTable} {verdict : Verdict} {snapshot : AccountSnapshot}
    (hcheck : checkCycle loads s.risk s.store s.state s.now snapshot = (state, verdict)) :
    flag loads { s with state := state } = flag loads s := by
  unfold checkCycle at hcheck
  split at hcheck
  · cases hcheck
    rfl
  · split at hcheck
    · cases hcheck
      rw [flag_halt, Bool.not_true, Bool.false_or]
    · split at hcheck
      · cases hcheck
        rw [flag_halt, Bool.not_true, Bool.false_or]
      · cases hcheck
        rfl

theorem flag_quiet {e : Entry} (hstep : (system loads).step s e t) (hquiet : quiet e) :
    flag loads t = flag loads s := by
  cases hstep with
  | halt reason forTodayOnly => exact hquiet.elim
  | resume => exact hquiet.elim
  | check snapshot hcheck => exact flag_checkCycle hcheck
  | recreate risk => rfl
  | tick hnow => rfl
  | @write store state hkeys => exact flag_of_get? (hkeys stateHalted (List.mem_cons_self ..))

theorem flag_quietly (hown : Quietly loads s t) : flag loads t = flag loads s := by
  obtain ⟨entries, hrun, hquiet⟩ := hown
  induction hrun with
  | nil s => rfl
  | cons hstep _ ih =>
    rw [ih fun e he => hquiet e (List.mem_cons_of_mem _ he)]
    exact flag_quiet hstep (hquiet _ (List.mem_cons_self ..))

/-! ### One event -/

/-- The flag after a word, or without one. -/
def flagAfter (word : Option Word) (before : Bool) : Bool := (word.map Word.isHalt).getD before

theorem flag_handle (r : Web.Request) :
    flag loads (app.handle r s).1 = flagAfter (app.word r) (flag loads s) := by
  by_cases hadmits : app.Admits r
  · unfold Web.App.handle Web.App.word
    rw [Web.App.auth_admitted hadmits]
    obtain ⟨route, token, cookie⟩ := r
    cases route with
    | view v =>
      obtain ⟨store, state, hlook, hkeys⟩ := app.looks v s
      have hflag : flag loads (app.look v s).1 = flag loads s := by
        rw [hlook]
        exact flag_of_get? (hkeys stateHalted (List.mem_cons_self ..))
      simp only [flagAfter, ite_self]
      exact hflag
    | halt reason =>
      cases hrunner : app.runner with
      | true => simp [hadmits, Web.App.serve, hrunner, flagAfter, flag_halt, Word.isHalt]
      | false => simp [Web.App.serve, hrunner, flagAfter]
    | resume =>
      cases hrunner : app.runner with
      | true => simp [hadmits, Web.App.serve, hrunner, flagAfter, flag_resume, Word.isHalt]
      | false => simp [Web.App.serve, hrunner, flagAfter]
    | healthz => simp [flagAfter]
  · have hword : app.word r = none := if_neg fun hboth => hadmits hboth.1
    rw [Web.App.handle_refused hadmits, hword]
    rfl

theorem flag_receive (sending : Option Raised) (u : Update) :
    flag loads (receive h b sending u s).1 = flagAfter (chatWord b u) (flag loads s) := by
  rw [receive_desk, chatWord]
  cases heard b u with
  | none => rfl
  | some command =>
    obtain ⟨cmd, args⟩ := command
    simp only [Handlers.handle]
    split
    · exact flag_halt _ false s.now
    · split
      · exact flag_resume
      · exact flag_quietly (h.quietly cmd args s)

theorem flag_step {e : Event} (hstep : Steps app h b s e t) :
    flag loads t = flagAfter (wordOf app b e) (flag loads s) := by
  cases hstep with
  | request r => exact flag_handle r
  | update sending u => exact flag_receive sending u
  | cli w => exact flag_obeyed (cliWord w) s
  | own hown => exact flag_quietly hown

/-- Who is not let in changes nothing. -/
theorem unheeded_step {e : Event} (hstep : Steps app h b s e t) (hnot : ¬ Heeded app b e) : t = s := by
  cases hstep with
  | request r => rw [Web.App.handle_refused hnot]
  | update sending u => rw [receive_stranger hnot]
  | cli w => exact absurd trivial hnot
  | own hown => exact absurd trivial hnot

/-! ### Runs -/

variable {events : List Event}

theorem flag_run (hrun : (surfaces app h b).Run s events t) :
    flag loads t = flagAfter (lastWord app b events) (flag loads s) := by
  induction hrun with
  | nil s => rfl
  | @cons s mid t e events hstep _ ih =>
    rw [ih, flag_step hstep, lastWord, lastWord, List.filterMap_cons]
    cases wordOf app b e with
    | none => rfl
    | some w =>
      simp only [List.getLast?_cons]
      cases (events.filterMap (wordOf app b)).getLast? <;> rfl

/-- What strangers send may as well not have been sent. -/
theorem heeded_run (hrun : (surfaces app h b).Run s events t) :
    (surfaces app h b).Run s (events.filter fun e => Heeded app b e) t := by
  induction hrun with
  | nil s => exact .nil s
  | @cons s mid t e events hstep _ ih =>
    by_cases he : Heeded app b e
    · rw [List.filter_cons_of_pos (by simpa using he)]
      exact .cons hstep ih
    · rw [List.filter_cons_of_neg (by simpa using he)]
      exact unheeded_step hstep he ▸ ih

/-- **Who may stop and start trading.** In every run of the dashboard, the chat, the command line and
the runner's own threads, the permanent halt is on file exactly when the last word from a request
with the token, the configured chat or the command line was a halt, and then no gate passes at any
time; the run without what anybody else sent is a run to the same end; and what they are answered
tells them nothing. -/
theorem remote_control (hfresh : Fresh s.state) (hrun : (surfaces app h b).Run s events t) :
    (flag loads t = true ↔ ∃ reason, lastWord app b events = some (.halt reason)) ∧
      (∀ reason, lastWord app b events = some (.halt reason) →
        ∀ now, isHalted loads t.state now = true) ∧
      (surfaces app h b).Run s (events.filter fun e => Heeded app b e) t ∧
      (∀ r, ¬ app.Admits r → ∀ s s', (app.handle r s).2 = (app.handle r s').2) ∧
      ∀ u, u.chat ≠ b.chatId → ∀ sending s s',
        (receive h b sending u s).2 = (receive h b sending u s').2 := by
  have hstart : flag loads s = false := by
    unfold flag getState
    rw [hfresh.halted]
    rfl
  have hflag : flag loads t = flagAfter (lastWord app b events) false := hstart ▸ flag_run hrun
  have hiff : flag loads t = true ↔ ∃ reason, lastWord app b events = some (.halt reason) := by
    rw [hflag]
    cases lastWord app b events with
    | none => simp [flagAfter]
    | some w => cases w <;> simp [flagAfter, Word.isHalt]
  refine ⟨hiff, fun reason hlast now => ?_, heeded_run hrun, fun r hr s s' => ?_, ?_⟩
  · have hon : flag loads t = true := hiff.mpr ⟨reason, hlast⟩
    unfold flag at hon
    rw [isHalted, hon, Bool.true_or]
  · rw [Web.App.handle_refused hr, Web.App.handle_refused hr]
  · intro u hchat sending s s'
    rw [receive_stranger hchat, receive_stranger hchat]

end

/-! ### A night -/

/-- A dashboard that shows the rate it had, and writes the one it has looked up. -/
def rateApp (fx : Decimal) : Web.App (Option Decimal) where
  token := "s3cret"
  runner := true
  look _ s := ({ s with store := { s.store with lastUsdKrw := some fx } }, s.store.lastUsdKrw)
  tokenSet := by decide
  looks _ s := ⟨{ s.store with lastUsdKrw := some fx }, s.state, rfl, fun _ _ => rfl⟩

/-- `/rebalance` as far as its gate: the mark of the account is written and the cycle is checked. -/
def gated (snapshot : AccountSnapshot) (s : Desk) : Desk × Verdict :=
  let store := s.store.recordEquity s.risk.brokerName
    ⟨snapshot.equityKrw, snapshot.cashKrw, snapshot.positionValueKrw, snapshot.usdKrw⟩ s.now
  let (state, verdict) := checkCycle noJson s.risk store s.state s.now snapshot
  ({ s with store := store, state := state }, verdict)

theorem gated_quietly (snapshot : AccountSnapshot) (s : Desk) : Quietly noJson s (gated snapshot s).1 := by
  let marked : Desk := { s with
    store := s.store.recordEquity s.risk.brokerName
      ⟨snapshot.equityKrw, snapshot.cashKrw, snapshot.positionValueKrw, snapshot.usdKrw⟩ s.now }
  have hmark : (system noJson).step s (s.entry .write) marked :=
    @Halts.Steps.write noJson s marked.store s.state fun _ _ => rfl
  have hcheck : (system noJson).step marked
      (marked.entry (.check (checkCycle noJson s.risk marked.store s.state s.now snapshot).2))
      (gated snapshot s).1 := .check snapshot rfl
  refine ⟨_, .cons hmark (.cons hcheck (.nil _)), fun e he => ?_⟩
  rcases List.mem_cons.mp he with rfl | he
  · trivial
  · rw [List.mem_singleton.mp he]
    trivial

/-- Handlers that answer, and `/rebalance` on an account of a million. -/
def rebalancing : Handlers noJson where
  other cmd _ s :=
    if cmd = "rebalance" then ((gated (.allCash 1000000) s).1, .ok "") else (s, .ok "")
  quietly cmd args s := by
    by_cases hcmd : cmd = "rebalance"
    · rw [if_pos hcmd]
      exact gated_quietly (.allCash 1000000) s
    · rw [if_neg hcmd]
      exact ⟨[], .nil s, nofun⟩

/-- A cycle and a halt from the chat; a resume with the wrong token, and one from another chat; a
second cycle and a look at the dashboard. -/
def attacked : List Event :=
  [.update (TelegramNotifier.texted 6 42 "/rebalance"),
    .update (TelegramNotifier.texted 7 42 "/halt fire"), .request ⟨.resume, some "guess", none⟩,
    .update (TelegramNotifier.texted 8 13 "/resume"),
    .update (TelegramNotifier.texted 9 42 "/rebalance"),
    .request ⟨.view .dashboard, some "s3cret", none⟩, .own]

theorem remote_control_attacked :
    ∃ t, (surfaces (rateApp 1400) rebalancing (bot "42" id)).Run newDesk attacked t ∧
      ∀ now, isHalted noJson t.state now = true := by
  have hrun : (surfaces (rateApp 1400) rebalancing (bot "42" id)).Run newDesk attacked _ :=
    .cons (.update none _) (.cons (.update none _) (.cons (.request _) (.cons (.update none _)
      (.cons (.update none _) (.cons (.request _) (.cons (.own ⟨[], .nil _, nofun⟩) (.nil _)))))))
  refine ⟨_, hrun, (remote_control ⟨rfl, rfl⟩ hrun).2.1 "fire" ?_⟩
  decide +kernel

end Tqt.Remote
