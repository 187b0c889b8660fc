import Tqt.Universe

/-! Typed errors of the Toss API.

`fromResponse` maps a status and a body onto the classes of the source; `retryable` is
what a class, and for two of them the code, says about a bare retry. -/
namespace Tqt

inductive ErrorClass where
  | base
  | transport
  | auth
  | ipBlocked
  | forbidden
  | notFound
  | conflict
  | rateLimit
  | orderRejected
  | server
deriving DecidableEq, Repr

structure TossError where
  kind : ErrorClass
  message : String
  status : Option ℕ := none
  code : Option String := none
  requestId : Option String := none
  retryAfter : Option Decimal := none
deriving DecidableEq

namespace TossError

/-- Whether a bare retry could plausibly succeed. -/
def retryable (e : TossError) : Bool :=
  match e.kind with
  | .transport => true
  | .auth => e.code == some "expired-token" || e.code == some "invalid-token"
  | .rateLimit => true
  | .server => e.code != some "maintenance"
  | _ => false

/-- `str(exc)`. -/
def text (e : TossError) : String :=
  let bits := [(e.status.map fun s => "HTTP " ++ toString s).getD "", e.code.getD "", e.message]
  let out := " ".intercalate (bits.filter (· ≠ ""))
  match e.requestId with
  | some rid => if rid = "" then out else out ++ " (requestId=" ++ rid ++ ")"
  | none => out

end TossError

/-- What is read of a response: its status, of an error envelope the code and the message,
of the headers the request id and `Retry-After`, and of a success the result. -/
structure Response (ρ : Type) where
  status : ℕ
  code : Option String := none
  message : Option String := none
  requestId : Option String := none
  retryAfter : Option Decimal := none
  result : Option ρ := none

/-- The class an error status and its code map to. -/
def errorClass (status : ℕ) (code : Option String) : ErrorClass :=
  if status = 403 then if code = some "edge-blocked" then .ipBlocked else .forbidden
  else if status = 429 then .rateLimit
  else if 500 ≤ status then .server
  else if status = 400 ∧ code = some "account-header-required" then .forbidden
  else if status = 401 then .auth
  else if status = 404 then .notFound
  else if status = 409 then .conflict
  else if status = 422 then .orderRejected
  else .base

/-- Only a 429 keeps its `Retry-After`. -/
def fromResponse {ρ : Type} (r : Response ρ) : TossError where
  kind := errorClass r.status r.code
  message := match r.message with
    | some m => if m = "" then "Toss API returned HTTP " ++ toString r.status else m
    | none => "Toss API returned HTTP " ++ toString r.status
  status := some r.status
  code := r.code
  requestId := r.requestId
  retryAfter := if errorClass r.status r.code = .rateLimit then r.retryAfter else none

end Tqt
