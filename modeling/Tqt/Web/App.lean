import Tqt.Risk.Halts

/-! The dashboard's requests.

Every route but the liveness probe depends on `auth`, so a request without the token is answered
before anything of the store is read (`handle_refused`). Of the others, two write: `/halt` and
`/resume`, and only where a runner is attached. What the pages show is the parameter `γ`. -/
namespace Tqt

/-- What an operator asks of the switch. -/
inductive Word where
  | halt (reason : String)
  | resume
deriving DecidableEq, Repr

def Word.isHalt : Word → Bool
  | .halt _ => true
  | .resume => false

namespace Web
open Halts

inductive View where
  | dashboard
  | apiState
  | apiCurve
deriving DecidableEq, Repr

/-- The routes. FastAPI takes an empty form field for a missing one. -/
inductive Route where
  | view (v : View)
  | halt (reason : Option String)
  | resume
  | healthz
deriving DecidableEq, Repr

structure Request where
  route : Route
  token : Option String := none
  cookie : Option String := none
deriving DecidableEq, Repr

inductive Answer (γ : Type) where
  /-- The page, and the token that its cookie sets. -/
  | page (content : γ) (cookie : String)
  | json (content : γ)
  | redirect (url : String)
  | ok
  | refused (status : ℕ) (detail : String)
  /-- An exception that nothing catches. -/
  | raised (type : String)

/-- `secrets.compare_digest` of two strings: it raises where one is not ASCII. -/
def compareDigest (a b : String) : Option Bool :=
  if a.toList.all (·.toNat < 128) && b.toList.all (·.toNat < 128) then some (a == b) else none

/-- The app: its token, whether a runner is attached, and what a view shows. Looking at the account
writes the exchange rate to the store, and nothing of the kill switch. -/
structure App (γ : Type) where
  token : String
  runner : Bool
  look : View → Desk → Desk × γ
  tokenSet : token ≠ ""
  looks : ∀ v s, ∃ store state, (look v s).1 = { s with store := store, state := state } ∧
    ∀ key ∈ switchKeys, state.get? key = s.state.get? key

/-- The token that `create_app` takes from the settings, or its `RuntimeError`. -/
def dashboardToken (token : String) : Except String { token : String // token ≠ "" } :=
  if h : token = "" then
    .error ("TQT_DASHBOARD_TOKEN is not set. The dashboard shows account balances " ++
      "and exposes a kill switch, so it refuses to run unauthenticated. " ++
      "Generate one with: openssl rand -hex 24")
  else .ok ⟨token, h⟩

namespace App
variable {γ : Type} (app : App γ)

/-- `token or cookie or ""`. -/
def supplied (r : Request) : String :=
  ((r.token.filter (· ≠ "")).or (r.cookie.filter (· ≠ ""))).getD ""

/-- The token that was supplied, or what `auth` raises. -/
def auth (r : Request) : Except (Answer γ) String :=
  match compareDigest (supplied r) app.token with
  | none => .error (.raised "TypeError")
  | some false => .error (.refused 401 "invalid or missing token")
  | some true => .ok (supplied r)

def noRunner : Answer γ := .refused 503 "no runner attached; start with `tqt run --dashboard`"

/-- `reason: str = Form(default="dashboard")`. -/
def reasonOf (reason : Option String) : String := (reason.filter (· ≠ "")).getD "dashboard"

/-- A route, once its request is let in. -/
def serve (token : String) (route : Route) (s : Desk) : Desk × Answer γ × List String :=
  match route with
  | .view v =>
    let (after, content) := app.look v s
    (after, if v = .dashboard then .page content token else .json content, [])
  | .halt reason =>
    if app.runner then
      let text := reasonOf reason
      ({ s with state := Halts.halt (.given ("dashboard: " ++ text)) false s.now s.state },
        .redirect "/", ["🛑 대시보드에서 거래 중단: " ++ text])
    else (s, noRunner, [])
  | .resume =>
    if app.runner then
      ({ s with state := Halts.resume s.state }, .redirect "/", ["▶️ 대시보드에서 거래 재개"])
    else (s, .refused 503 "no runner attached", [])
  | .healthz => (s, .ok, [])

/-- One request: the desk after it, its answer, and what is sent to the operator's channels. -/
def handle (r : Request) (s : Desk) : Desk × Answer γ × List String :=
  if r.route = .healthz then (s, .ok, [])
  else
    match app.auth r with
    | .error answer => (s, answer, [])
    | .ok token => app.serve token r.route s

/-- The request carries the token. -/
def Admits (r : Request) : Prop := compareDigest (supplied r) app.token = some true

instance (r : Request) : Decidable (app.Admits r) :=
  inferInstanceAs (Decidable (_ = _))

/-- What a request asks of the switch, if it is let in and there is a runner. -/
def word (r : Request) : Option Word :=
  if app.Admits r ∧ app.runner then
    match r.route with
    | .halt reason => some (.halt ("dashboard: " ++ reasonOf reason))
    | .resume => some .resume
    | _ => none
  else none

variable {app}

theorem auth_admitted {r : Request} (h : app.Admits r) : app.auth r = .ok (supplied r) := by
  rw [auth, h]

variable (app) in
/-- What is answered to a request that is not let in. -/
def refusal (r : Request) : Answer γ :=
  match app.auth r with
  | .error answer => answer
  | .ok _ => .ok

/-- **A request without the token** changes nothing, reaches no channel, and is answered the same
whatever there is to see. -/
theorem handle_refused {r : Request} (h : ¬ app.Admits r) (s : Desk) :
    app.handle r s = (s, if r.route = .healthz then .ok else app.refusal r, []) := by
  unfold handle
  by_cases hroute : r.route = .healthz
  · rw [if_pos hroute, if_pos hroute]
  · rw [if_neg hroute, if_neg hroute, refusal]
    cases hauth : app.auth r with
    | error answer => rfl
    | ok token =>
      unfold auth at hauth
      split at hauth
      · cases hauth
      · cases hauth
      · next hadmits => exact absurd hadmits h

end App
end Web
end Tqt
