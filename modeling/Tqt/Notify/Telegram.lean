import Tqt.Data.State
import Tqt.Foundation.Feed
import Tqt.Foundation.Lts

/-! Remote commands over Telegram.

`poll_once` acknowledges an update by moving the offset behind it before anything is done
with it, so an answer that raises in the middle of a batch loses the rest of the batch only
until the next poll. What the loop has processed is at every moment a front part of
Telegram's updates (`Done.step`), and the handlers were invoked for those of it that are
commands from the configured chat, once each and in order (`commands_once`). -/
namespace Tqt

/-- What `poll_once` reads of a message; Telegram always sends some of it. -/
structure Message where
  chat : Option ℤ := none
  text : Option String := none
deriving DecidableEq, Repr

structure Update where
  updateId : ℤ
  message : Option Message := none
  editedMessage : Option Message := none
deriving DecidableEq, Repr

namespace Update

/-- `update.get("message") or update.get("edited_message") or {}` -/
def msg (u : Update) : Message := (u.message.or u.editedMessage).getD {}

/-- `str((msg.get("chat") or {}).get("id", ""))` -/
def chat (u : Update) : String := (u.msg.chat.map toString).getD ""

/-- `(msg.get("text") or "").strip()` -/
def text (u : Update) : String := strip (u.msg.text.getD "")

end Update

/-- `str.split`, at runs of blanks. -/
def splitBlanks (s : String) : List String :=
  ((s.toList.splitOnP isSpace).filter (· ≠ [])).map String.ofList

/-- What a handler or a request raises, by the exception's type and text. -/
structure Raised where
  type : String
  text : String
deriving DecidableEq, Repr

/-- What one update meets: how its handler ends, and what sending an answer raises. -/
structure Circumstances where
  handler : String → List String → Except Raised String
  sending : Option Raised := none

/-- What the bot does, in order. -/
inductive ChatEffect where
  | invoke (u : Update) (cmd : String) (args : List String)
  | send (text : String)
  | sendPre (title block : String)
  | ignore (chat text : String)
deriving DecidableEq, Repr

/-- The updates whose handler was invoked. -/
def invoked (effects : List ChatEffect) : List Update :=
  effects.filterMap fun
    | .invoke u _ _ => some u
    | _ => none

theorem invoked_append (effects more : List ChatEffect) :
    invoked (effects ++ more) = invoked effects ++ invoked more :=
  List.filterMap_append

/-- The notifier and the handlers it is given: the chat, the names of the commands, and
`str.lower`. -/
structure TelegramNotifier where
  chatId : String
  commands : List String
  lower : String → String

namespace TelegramNotifier
variable (bot : TelegramNotifier)

/-- `parts[0].lstrip("/").split("@")[0].lower()` -/
def command (first : String) : String :=
  bot.lower (String.ofList ((first.toList.dropWhile (· = '/')).takeWhile (· ≠ '@')))

def unknownCommand (cmd : String) : String :=
  let known := ", ".intercalate ((bot.commands.mergeSort (· ≤ ·)).map ("/" ++ ·))
  s!"알 수 없는 명령: /{cmd}\n사용 가능: {known}"

/-- The text of a handler's answer, or of what it raised. -/
def replyOf : Except Raised String → String
  | .ok reply => reply
  | .error exc =>
    let type := exc.type
    let text := exc.text
    s!"명령 처리 중 오류: {type}: {text}"

/-- An answer is on its way, or raises. -/
def sent (env : Circumstances) (handled : Bool) : Except Raised Bool :=
  match env.sending with
  | some exc => .error exc
  | none => .ok handled

/-- The body of the loop over a batch: whether the update counts as handled, or what raised. -/
def process (env : Circumstances) (u : Update) : List ChatEffect × Except Raised Bool :=
  if u.text = "" then ([], .ok false)
  else if u.chat ≠ bot.chatId then
    ([.ignore u.chat (String.ofList (u.text.toList.take 40))], .ok false)
  else
    match splitBlanks u.text with
    | [] => ([], .error ⟨"IndexError", "list index out of range"⟩)
    | first :: args =>
      let cmd := bot.command first
      if cmd ∈ bot.commands then
        let reply := replyOf (env.handler cmd args)
        if reply = "" then ([.invoke u cmd args], .ok true)
        else if '\n' ∈ reply.toList then
          ([.invoke u cmd args, .sendPre ("/" ++ cmd) reply], sent env true)
        else ([.invoke u cmd args, .send reply], sent env true)
      else ([.send (bot.unknownCommand cmd)], sent env false)

/-- What a poll leaves: the offset, what it did, and the number handled or what raised. -/
structure Polled where
  offset : Option ℤ
  effects : List ChatEffect := []
  result : Except Raised (Option ℕ)

/-- The loop over a batch, with the number handled so far. -/
def processAll (env : Update → Circumstances) (offset : Option ℤ) (handled : ℕ) :
    List Update → Polled
  | [] => { offset := offset, result := .ok (some handled) }
  | u :: rest =>
    let (effects, result) := bot.process (env u) u
    match result with
    | .error exc => { offset := some (u.updateId + 1), effects := effects, result := .error exc }
    | .ok counted =>
      let after :=
        processAll env (some (u.updateId + 1)) (if counted then handled + 1 else handled) rest
      { after with effects := effects ++ after.effects }

/-- `poll_once`; no batch is a request that failed. -/
def pollOnce (env : Update → Circumstances) (offset : Option ℤ) (batch : Option (List Update)) :
    Polled :=
  match batch with
  | none => { offset := offset, result := .ok none }
  | some updates => bot.processAll env offset 0 updates

/-- `run_command_loop` between two iterations. -/
structure CommandLoop where
  offset : Option ℤ := none
  failures : ℕ := 0
  effects : List ChatEffect := []

/-- One iteration, with the seconds it waits at its end. -/
def iterate (env : Update → Circumstances) (batch : Option (List Update)) (loop : CommandLoop) :
    CommandLoop × Option ℕ :=
  let polled := bot.pollOnce env loop.offset batch
  let effects := loop.effects ++ polled.effects
  match polled.result with
  | .ok (some _) => ({ offset := polled.offset, failures := 0, effects := effects }, none)
  | _ =>
    let failures := loop.failures + 1
    ({ offset := polled.offset, failures := failures, effects := effects },
      some (min (2 ^ min failures 6) 60))

/-! ### The loop and Telegram -/

/-- A text from the configured chat that names a command. -/
def Addressed (u : Update) : Prop :=
  u.text ≠ "" ∧ u.chat = bot.chatId ∧
    ((splitBlanks u.text).head?.any fun first => bot.command first ∈ bot.commands) = true

instance (u : Update) : Decidable (bot.Addressed u) :=
  inferInstanceAs (Decidable (_ ∧ _ ∧ _))

structure State where
  updates : List Update := []
  loop : CommandLoop := {}

inductive Event where
  | arrive (u : Update)
  | poll (env : Update → Circumstances) (batch : Option (List Update))

inductive Steps : State → Event → State → Prop where
  | arrive {s : State} (u : Update) : (∀ v ∈ s.updates, v.updateId < u.updateId) →
      Steps s (.arrive u) { s with updates := s.updates ++ [u] }
  /-- The request fails, or is answered with any number of the first pending updates. -/
  | poll {s : State} (env : Update → Circumstances) (batch : Option (List Update)) :
      (∀ updates ∈ batch, updates <+: Feed.pending Update.updateId s.loop.offset s.updates) →
      Steps s (.poll env batch) { s with loop := (bot.iterate env batch s.loop).1 }

def system : Lts State Event := ⟨bot.Steps⟩

/-! ### One update, one batch -/

theorem invoked_process (env : Circumstances) (u : Update) :
    invoked (bot.process env u).1 = [u].filter fun u => bot.Addressed u := by
  unfold process
  by_cases htext : u.text = ""
  · simp [htext, Addressed, invoked]
  by_cases hchat : u.chat = bot.chatId
  · rw [if_neg htext, if_neg (not_not.mpr hchat)]
    cases hsplit : splitBlanks u.text with
    | nil => simp [Addressed, hsplit, invoked]
    | cons first args =>
      by_cases hcmd : bot.command first ∈ bot.commands
      · have haddressed : bot.Addressed u := by simp [Addressed, hsplit, htext, hchat, hcmd]
        simp only [if_pos hcmd, List.filter_singleton, haddressed, decide_true]
        split
        · rfl
        · split <;> rfl
      · simp [Addressed, hsplit, hcmd, invoked]
  · simp [htext, hchat, Addressed, invoked]

/-- A batch is processed from the front, to its end or to the update whose answer raised; the
offset is behind what was processed. -/
theorem processAll_front (env : Update → Circumstances) (offset : Option ℤ) (handled : ℕ)
    (batch : List Update) :
    ∃ front, front <+: batch ∧
      (bot.processAll env offset handled batch).offset = Feed.behind Update.updateId front offset ∧
      invoked (bot.processAll env offset handled batch).effects =
        front.filter fun u => bot.Addressed u := by
  induction batch generalizing offset handled with
  | nil => exact ⟨[], List.prefix_rfl, rfl, rfl⟩
  | cons u rest ih =>
    have hone := bot.invoked_process (env u) u
    cases hresult : (bot.process (env u) u).2 with
    | error exc =>
      refine ⟨[u], List.prefix_append [u] rest, ?_, ?_⟩
      · simp only [processAll, hresult]
        rfl
      · simp only [processAll, hresult]
        exact hone
    | ok counted =>
      obtain ⟨front, hfront, hoffset, heffects⟩ :=
        ih (some (u.updateId + 1)) (if counted then handled + 1 else handled)
      refine ⟨u :: front, List.cons_prefix_cons.mpr ⟨rfl, hfront⟩, ?_, ?_⟩
      · simp only [processAll, hresult]
        rw [hoffset]
        unfold Feed.behind
        rw [List.getLast?_cons]
        cases front.getLast? <;> simp
      · simp only [processAll, hresult]
        rw [invoked_append, hone, heffects, ← List.filter_append]
        rfl

/-! ### Runs -/

/-- The loop has processed `front`, a front part of the updates. -/
structure Done (front : List Update) (s : State) : Prop where
  read : Feed.Read Update.updateId front s.updates s.loop.offset
  handled : invoked s.loop.effects = front.filter fun u => bot.Addressed u

/-- What an iteration keeps and adds, however its poll ends. -/
theorem iterate_poll (env : Update → Circumstances) (batch : Option (List Update))
    (loop : CommandLoop) :
    (bot.iterate env batch loop).1.offset = (bot.pollOnce env loop.offset batch).offset ∧
      (bot.iterate env batch loop).1.effects =
        loop.effects ++ (bot.pollOnce env loop.offset batch).effects := by
  unfold iterate
  simp only
  split <;> exact ⟨rfl, rfl⟩

variable {bot}

/-- **One step** processes some of the first updates that were pending. -/
theorem Done.step {s t : State} {a : Event} {front : List Update} (h : bot.Done front s)
    (hstep : bot.system.step s a t) : ∃ more, bot.Done (front ++ more) t := by
  cases hstep with
  | arrive u hnew =>
    refine ⟨[], ?_⟩
    rw [List.append_nil]
    exact ⟨h.read.arrive hnew, h.handled⟩
  | poll env batch hbatch =>
    obtain ⟨hoffset, heffects⟩ := bot.iterate_poll env batch s.loop
    cases batch with
    | none =>
      refine ⟨[], ?_⟩
      rw [List.append_nil]
      refine ⟨?_, ?_⟩
      · rw [hoffset]
        exact h.read
      · rw [heffects, invoked_append, h.handled]
        exact List.append_nil _
    | some updates =>
      obtain ⟨more, hfront, hmoved, hinvoked⟩ := bot.processAll_front env s.loop.offset 0 updates
      refine ⟨more, ?_, ?_⟩
      · rw [hoffset]
        show Feed.Read _ _ _ (bot.processAll env s.loop.offset 0 updates).offset
        rw [hmoved]
        exact h.read.advance (hfront.trans (hbatch updates rfl))
      · rw [heffects, invoked_append, h.handled, List.filter_append]
        exact congrArg (_ ++ ·) hinvoked

theorem done_run {s : State} {events : List Event} (hrun : bot.system.Run {} events s) :
    ∃ front, bot.Done front s := by
  have hstart : ∃ front, bot.Done front {} := ⟨[], Feed.Read.start, rfl⟩
  refine Lts.Run.invariant (fun s a t (hs : ∃ front, bot.Done front s) hstep => ?_) hrun hstart
  obtain ⟨front, hfront⟩ := hs
  obtain ⟨more, hmore⟩ := hfront.step hstep
  exact ⟨front ++ more, hmore⟩

/-- A moment in the middle of a batch: the effects until then, and those that follow. -/
theorem Done.mem_until {s : State} {front : List Update} (h : bot.Done front s)
    {log : List ChatEffect} (hlog : log <+: s.loop.effects) {u v : Update} (hu : u ∈ invoked log)
    (hv : v ∈ s.updates) (hlt : v.updateId < u.updateId) (haddressed : bot.Addressed v) :
    v ∈ invoked log := by
  obtain ⟨later, hsplit⟩ := hlog
  have hhandled := h.handled
  rw [← hsplit, invoked_append] at hhandled
  have hfront : u ∈ front := by
    apply List.mem_of_mem_filter
    rw [← hhandled]
    exact List.mem_append_left _ hu
  have hv' : v ∈ invoked log ++ invoked later := by
    rw [hhandled]
    exact List.mem_filter.mpr ⟨h.read.mem_of_lt hfront hv hlt, decide_eq_true haddressed⟩
  rcases List.mem_append.mp hv' with hv' | hv'
  · exact hv'
  · have hsorted : (invoked log ++ invoked later).Pairwise fun a b => a.updateId < b.updateId := by
      rw [hhandled]
      exact (h.read.sorted.sublist h.read.isPrefix.sublist).filter _
    exact absurd ((List.pairwise_append.mp hsorted).2.2 u hu v hv') hlt.not_gt

/-- **Remote commands run once**: in every run, the handlers are invoked in the order of the
updates and at most once for each; at every moment, what precedes an update that was handled
and is a command from the configured chat has been handled; and no other chat's update is. -/
theorem commands_once {s : State} {events : List Event} (hrun : bot.system.Run {} events s) :
    ((invoked s.loop.effects).Pairwise fun u v => u.updateId < v.updateId) ∧
      (∀ log, log <+: s.loop.effects → ∀ u ∈ invoked log, ∀ v ∈ s.updates,
        v.updateId < u.updateId → bot.Addressed v → v ∈ invoked log) ∧
      ∀ u ∈ invoked s.loop.effects, u.chat = bot.chatId := by
  obtain ⟨front, hdone⟩ := done_run hrun
  refine ⟨?_, fun log hlog u hu v hv hlt ha => hdone.mem_until hlog hu hv hlt ha, fun u hu => ?_⟩
  · rw [hdone.handled]
    exact (hdone.read.sorted.sublist hdone.read.isPrefix.sublist).filter _
  · rw [hdone.handled] at hu
    have haddressed : bot.Addressed u := of_decide_eq_true (List.mem_filter.mp hu).2
    exact haddressed.2.1

/-! ### Two commands -/

def pager : TelegramNotifier := ⟨"42", ["halt", "resume"], id⟩

def texted (id chat : ℤ) (text : String) : Update :=
  { updateId := id, message := some ⟨some chat, some text⟩ }

/-- Handlers that answer; whether the answer can be sent. -/
def answering (sending : Option Raised) (_ : Update) : Circumstances :=
  { handler := fun _ _ => .ok "done", sending := sending }

/-- `/halt`, `/resume` and a stranger's `/resume`; sending the first answer raises, the next
poll fails, and the one after it gets the other two. -/
def interrupted : List Event :=
  [.arrive (texted 7 42 "/halt"), .arrive (texted 8 42 "/resume"), .arrive (texted 9 13 "/resume"),
    .poll (answering (some ⟨"ConnectError", "down"⟩))
      (some [texted 7 42 "/halt", texted 8 42 "/resume"]),
    .poll (answering none) none,
    .poll (answering none) (some [texted 8 42 "/resume", texted 9 13 "/resume"])]

theorem commands_once_interrupted :
    ∃ s, pager.system.Run {} interrupted s ∧
      invoked s.loop.effects = [texted 7 42 "/halt", texted 8 42 "/resume"] ∧
      ((invoked s.loop.effects).Pairwise fun u v => u.updateId < v.updateId) := by
  have hrun : pager.system.Run {} interrupted _ :=
    .cons (.arrive _ (by decide)) (.cons (.arrive _ (by decide +kernel))
      (.cons (.arrive _ (by decide +kernel)) (.cons (.poll _ _ (by decide +kernel))
        (.cons (.poll _ _ (by decide +kernel)) (.cons (.poll _ _ (by decide +kernel)) (.nil _))))))
  refine ⟨_, hrun, ?_, (commands_once hrun).1⟩
  decide +kernel

end TelegramNotifier
end Tqt
