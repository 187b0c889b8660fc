import Tqt.Toss.Client

/-! What a call that is not idempotent sends again.

`requestLog` is the loop of `_request` with the replies to what it sent. A transport failure ends
such a call, but a status is retried by its class alone: a 5xx and an in-flight conflict lead to
another attempt (`handle_again_iff`), and neither says that nothing was done (`Unclear`).
`repeatsSafely_iff` says exactly when a call gets by without meeting one of these. -/
namespace Tqt.TossClient

section
variable {ρ : Type}

/-- The loop of `_request` with the replies to the requests it sent, in order. -/
def requestLogFrom (idempotent : Bool) (net : ℕ → Attempt ρ) :
    ℕ → ℕ → List (Reply ρ) × Except TossError (Option ρ)
  | left, attempt =>
    match net attempt with
    | .blocked e => ([], .error e)
    | .sent reply =>
      match handle idempotent reply, left with
      | .done result, _ => ([reply], .ok result)
      | .fail e, _ => ([reply], .error e)
      | .again e, 0 => ([reply], .error e)
      | .again _, left + 1 =>
        let rest := requestLogFrom idempotent net left (attempt + 1)
        (reply :: rest.1, rest.2)

def requestLog (maxRetries : ℕ) (idempotent : Bool) (net : ℕ → Attempt ρ) :
    List (Reply ρ) × Except TossError (Option ρ) :=
  requestLogFrom idempotent net maxRetries 1

/-- A reply that shows that the server refused without acting. -/
def Refusal : Reply ρ → Prop
  | .transport _ => False
  | .response r =>
    r.status = 401 ∧ (r.code = some "expired-token" ∨ r.code = some "invalid-token") ∨ r.status = 429

/-- A reply that leaves open what the server did, and that is retried. -/
def Unclear : Reply ρ → Prop
  | .transport _ => False
  | .response r =>
    500 ≤ r.status ∧ r.code ≠ some "maintenance" ∨
      r.status = 409 ∧ r.code = some "request-in-progress"

/-- Whatever was sent after a reply was sent after a refusal. -/
def RepeatsSafely (log : List (Reply ρ)) : Prop :=
  ∀ front reply back, log = front ++ reply :: back → back ≠ [] → Refusal reply

/-- The first reply that is no refusal is not unclear, or it is the last attempt's, or the next
attempt is blocked. -/
def ClearFrom (net : ℕ → Attempt ρ) (left attempt : ℕ) : Prop :=
  ∀ k < left, (∀ j < k, ∃ reply, net (attempt + j) = .sent reply ∧ Refusal reply) →
    ∀ reply, net (attempt + k) = .sent reply → Unclear reply →
      ∃ e, net (attempt + k + 1) = .blocked e

end

section
variable {ρ : Type} {idempotent : Bool} {net : ℕ → Attempt ρ}

/-! ### The log -/

theorem requestLogFrom_snd (left attempt : ℕ) :
    (requestLogFrom idempotent net left attempt).2 = requestFrom idempotent net left attempt := by
  induction left generalizing attempt with
  | zero =>
    unfold requestLogFrom requestFrom
    cases net attempt with
    | blocked e => rfl
    | sent reply =>
      simp only
      cases handle idempotent reply <;> rfl
  | succ left ih =>
    unfold requestLogFrom requestFrom
    cases net attempt with
    | blocked e => rfl
    | sent reply =>
      simp only
      cases handle idempotent reply with
      | done result => rfl
      | fail e => rfl
      | again e => exact ih (attempt + 1)

/-- The log is one of `_request`. -/
theorem requestLog_snd (maxRetries : ℕ) :
    (requestLog maxRetries idempotent net).2 = request maxRetries idempotent net :=
  requestLogFrom_snd maxRetries 1

theorem requestLogFrom_blocked {e : TossError} {attempt : ℕ} (hnet : net attempt = .blocked e)
    (left : ℕ) : requestLogFrom idempotent net left attempt = ([], .error e) := by
  unfold requestLogFrom
  rw [hnet]

/-- The last attempt, or one whose reply ends the call, is the last thing sent. -/
theorem requestLogFrom_last {reply : Reply ρ} {left attempt : ℕ} (hnet : net attempt = .sent reply)
    (hlast : left = 0 ∨ ∀ e, handle idempotent reply ≠ .again e) :
    (requestLogFrom idempotent net left attempt).1 = [reply] := by
  unfold requestLogFrom
  rw [hnet]
  simp only
  cases hdecision : handle idempotent reply with
  | done result => rfl
  | fail e => rfl
  | again e =>
    rcases hlast with rfl | hlast
    · rfl
    · exact absurd hdecision (hlast e)

theorem requestLogFrom_again {reply : Reply ρ} {e : TossError} {left attempt : ℕ}
    (hnet : net attempt = .sent reply) (hagain : handle idempotent reply = .again e) :
    (requestLogFrom idempotent net (left + 1) attempt).1 =
      reply :: (requestLogFrom idempotent net left (attempt + 1)).1 := by
  conv_lhs => unfold requestLogFrom
  rw [hnet]
  simp only [hagain]

theorem requestLogFrom_eq_nil {left attempt : ℕ} :
    (requestLogFrom idempotent net left attempt).1 = [] ↔ ∃ e, net attempt = .blocked e := by
  constructor
  · intro hnil
    cases hnet : net attempt with
    | blocked e => exact ⟨e, rfl⟩
    | sent reply =>
      cases left with
      | zero => rw [requestLogFrom_last hnet (.inl rfl)] at hnil; cases hnil
      | succ left =>
        cases hdecision : handle idempotent reply with
        | again e => rw [requestLogFrom_again hnet hdecision] at hnil; cases hnil
        | done result =>
          rw [requestLogFrom_last hnet (.inr fun e he => by rw [hdecision] at he; cases he)] at hnil
          cases hnil
        | fail e =>
          rw [requestLogFrom_last hnet (.inr fun e he => by rw [hdecision] at he; cases he)] at hnil
          cases hnil
  · rintro ⟨e, hnet⟩
    rw [requestLogFrom_blocked hnet]

/-! ### What is retried -/

/-- An error status is retried after a refusal and when it is unclear. -/
theorem retried_iff {r : Response ρ} (hstatus : ¬ r.status < 400) :
    ((fromResponse r).retryable || transientConflict (fromResponse r)) = true ↔
      Refusal (.response r) ∨ Unclear (.response r) := by
  obtain ⟨status, code, message, requestId, retryAfter, result⟩ := r
  simp only [fromResponse, TossError.retryable, transientConflict, Refusal, Unclear]
  unfold errorClass
  grind

/-- **What is tried again**: after refusals, as it should be, and after unclear replies. -/
theorem handle_again_iff {reply : Reply ρ} :
    (∃ e, handle false reply = .again e) ↔ Refusal reply ∨ Unclear reply := by
  cases reply with
  | transport detail => simp [handle, Refusal, Unclear]
  | response r =>
    simp only [handle]
    by_cases hok : r.status < 400
    · rw [if_pos hok]
      simp only [Refusal, Unclear]
      constructor
      · rintro ⟨e, he⟩
        cases he
      · omega
    · rw [if_neg hok, ← retried_iff hok]
      split
      · next hagain => exact ⟨fun _ => hagain, fun _ => ⟨_, rfl⟩⟩
      · next hfail =>
        refine ⟨?_, fun hagain => absurd hagain hfail⟩
        rintro ⟨e, he⟩
        cases he

theorem Refusal.not_unclear {reply : Reply ρ} (h : Refusal reply) : ¬ Unclear reply := by
  cases reply with
  | transport detail => exact h.elim
  | response r =>
    rintro (⟨hserver, -⟩ | ⟨hconflict, -⟩)
    · rcases h with ⟨h, -⟩ | h <;> omega
    · rcases h with ⟨h, -⟩ | h <;> omega

theorem RepeatsSafely.nil : RepeatsSafely ([] : List (Reply ρ)) := by
  intro front reply back h
  cases front <;> cases h

theorem repeatsSafely_cons {reply : Reply ρ} {log : List (Reply ρ)} :
    RepeatsSafely (reply :: log) ↔ (log ≠ [] → Refusal reply) ∧ RepeatsSafely log := by
  constructor
  · intro h
    refine ⟨h [] reply log rfl, fun front r back hlog hback => ?_⟩
    exact h (reply :: front) r back (by rw [hlog, List.cons_append]) hback
  · rintro ⟨hhead, htail⟩ front r back hlog hback
    cases front with
    | nil => cases hlog; exact hhead hback
    | cons x front => cases hlog; exact htail front r back rfl hback

/-! ### When a call repeats safely -/

theorem clearFrom_succ {left attempt : ℕ} :
    ClearFrom net (left + 1) attempt ↔
      (∀ reply, net attempt = .sent reply → Unclear reply → ∃ e, net (attempt + 1) = .blocked e) ∧
        ((∃ reply, net attempt = .sent reply ∧ Refusal reply) → ClearFrom net left (attempt + 1)) := by
  have hshift (k : ℕ) : attempt + 1 + k = attempt + (k + 1) := by omega
  constructor
  · intro h
    refine ⟨h 0 (Nat.succ_pos left) fun j hj => absurd hj (Nat.not_lt_zero j), ?_⟩
    intro hrefused k hk hbefore
    rw [hshift k]
    refine h (k + 1) (Nat.succ_lt_succ hk) fun j hj => ?_
    cases j with
    | zero => exact hrefused
    | succ j => rw [← hshift j]; exact hbefore j (Nat.lt_of_succ_lt_succ hj)
  · rintro ⟨hfirst, hrest⟩ k hk hbefore
    cases k with
    | zero => exact hfirst
    | succ k =>
      have hrefused := hbefore 0 (Nat.succ_pos k)
      have h := hrest hrefused k (Nat.lt_of_succ_lt_succ hk)
      rw [hshift k] at h
      refine h fun j hj => ?_
      rw [hshift j]
      exact hbefore (j + 1) (Nat.succ_lt_succ hj)

/-- The loop from one attempt on, at every number of attempts left. -/
theorem repeatsSafely_from_iff (left attempt : ℕ) :
    RepeatsSafely (requestLogFrom false net left attempt).1 ↔ ClearFrom net left attempt := by
  induction left generalizing attempt with
  | zero =>
    refine iff_of_true ?_ fun k hk => absurd hk (Nat.not_lt_zero k)
    cases hnet : net attempt with
    | blocked e => rw [requestLogFrom_blocked hnet]; exact RepeatsSafely.nil
    | sent reply =>
      rw [requestLogFrom_last hnet (.inl rfl), repeatsSafely_cons]
      exact ⟨fun h => absurd rfl h, RepeatsSafely.nil⟩
  | succ left ih =>
    rw [clearFrom_succ, ← ih]
    cases hnet : net attempt with
    | blocked e =>
      rw [requestLogFrom_blocked hnet]
      exact iff_of_true RepeatsSafely.nil ⟨nofun, nofun⟩
    | sent reply =>
      by_cases hagain : ∃ e, handle false reply = .again e
      · obtain ⟨e, he⟩ := hagain
        rw [requestLogFrom_again hnet he, repeatsSafely_cons]
        rcases handle_again_iff.mp ⟨e, he⟩ with hrefused | hunclear
        · refine ⟨fun h => ⟨?_, fun _ => h.2⟩, fun h => ⟨fun _ => hrefused, h.2 ⟨reply, rfl, hrefused⟩⟩⟩
          rintro _ ⟨⟩ hunclear
          exact absurd hunclear hrefused.not_unclear
        · -- what follows an unclear reply is a repetition, so nothing may follow it
          have hnotRefused : ¬ Refusal reply := fun hrefused => hrefused.not_unclear hunclear
          constructor
          · rintro ⟨hhead, -⟩
            refine ⟨fun r _ _ => ?_, fun ⟨r, hr, hrefused⟩ => ?_⟩
            · exact requestLogFrom_eq_nil.mp (not_not.mp fun hne => hnotRefused (hhead hne))
            · cases hr
              exact absurd hrefused hnotRefused
          · rintro ⟨hblocked, -⟩
            rw [requestLogFrom_eq_nil.mpr (hblocked reply rfl hunclear)]
            exact ⟨fun h => absurd rfl h, RepeatsSafely.nil⟩
      · rw [requestLogFrom_last hnet (.inr fun e he => hagain ⟨e, he⟩)]
        rw [handle_again_iff, not_or] at hagain
        refine iff_of_true ?_ ⟨?_, ?_⟩
        · rw [repeatsSafely_cons]
          exact ⟨fun h => absurd rfl h, RepeatsSafely.nil⟩
        · rintro _ ⟨⟩ hunclear
          exact absurd hunclear hagain.2
        · rintro ⟨_, ⟨⟩, hrefused⟩
          exact absurd hrefused hagain.1

/-- **Exactly when a call that is not idempotent repeats safely**: nothing is sent after a reply
that is no refusal, unless it is a 5xx other than maintenance or an in-flight conflict, met while
attempts are left and the next one can go out. -/
theorem repeatsSafely_iff (maxRetries : ℕ) (net : ℕ → Attempt ρ) :
    RepeatsSafely (requestLog maxRetries false net).1 ↔ ClearFrom net maxRetries 1 :=
  repeatsSafely_from_iff maxRetries 1

end

/-- A cancellation answered with a 502 is sent again. -/
theorem bad_gateway_resent :
    (requestLog 4 false fun attempt =>
      if attempt = 1 then .sent (.response { status := 502 })
      else .sent (.response ({ status := 200, result := some "A-1" } : Response String))).1.length = 2 ∧
      ¬ ∀ (maxRetries : ℕ) (net : ℕ → Attempt String),
        RepeatsSafely (requestLog maxRetries false net).1 := by
  let net : ℕ → Attempt String := fun attempt =>
    if attempt = 1 then .sent (.response { status := 502 })
    else .sent (.response { status := 200, result := some "A-1" })
  refine ⟨rfl, fun hall => ?_⟩
  have hrefused : Refusal (.response { status := 502 } : Reply String) :=
    hall 4 net [] (.response { status := 502 })
      [.response { status := 200, result := some "A-1" }] rfl (List.cons_ne_nil _ _)
  simp [Refusal] at hrefused

end Tqt.TossClient
