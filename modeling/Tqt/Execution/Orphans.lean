import Tqt.Execution.Live
import Tqt.Toss.AtMostOnce

/-! Orders the ledger does not know.

A submission meets a schedule: for every attempt, whether the exchange accepts the order
sooner or later and what the client sees. The exchange keeps one order per client order
id. `no_orphan_iff` says exactly which schedules leave an order without a row: those
where some attempt is accepted and none is answered with the success. -/
namespace Tqt
open TossClient

/-- What becomes of one attempt. A lost response is an accepted one that ends in a
transport error. -/
inductive Delivery where
  | blocked (e : TossError)
  | sent (accepted : Bool) (reply : Reply OrderAck)

namespace Delivery

def seen : Delivery → Attempt OrderAck
  | .blocked e => .blocked e
  | .sent _ reply => .sent reply

def accepted : Delivery → Bool
  | .blocked _ => false
  | .sent accepted _ => accepted

/-- The client sees a success. -/
def success : Delivery → Bool
  | .sent _ (.response r) => r.status < 400
  | _ => false

/-- The client tries again, if it has an attempt left. -/
def retried : Delivery → Bool
  | .blocked _ => false
  | .sent _ reply =>
    match handle true reply with
    | .again _ => true
    | _ => false

end Delivery

/-- A success names the order, which the exchange then holds. -/
def Lawful (id : String) (net : ℕ → Delivery) : Prop :=
  ∀ n accepted r, net n = .sent accepted (.response r) → r.status < 400 →
    accepted = true ∧ ∃ ack, r.result = some ack ∧ ack.orderId = id

/-- Attempt `n` is made, counting from `attempt` with `left` attempts after it. -/
def ReachedFrom (net : ℕ → Delivery) (left attempt n : ℕ) : Prop :=
  attempt ≤ n ∧ n ≤ attempt + left ∧ ∀ k, attempt ≤ k → k < n → (net k).retried

def Reached (maxRetries : ℕ) (net : ℕ → Delivery) (n : ℕ) : Prop :=
  ReachedFrom net maxRetries 1 n

/-- The exchange accepts a request with the client order id `key`. -/
def place (key id : String) (orders : List (String × String)) : List (String × String) :=
  if ordersOf key orders = [] then orders ++ [(key, id)] else orders

/-- The exchange after the attempts of one call. -/
def exchangeFrom (key id : String) (net : ℕ → Delivery) :
    ℕ → ℕ → List (String × String) → List (String × String)
  | left, attempt, orders =>
    let orders := if (net attempt).accepted then place key id orders else orders
    match left with
    | 0 => orders
    | left + 1 =>
      if (net attempt).retried then exchangeFrom key id net left (attempt + 1) orders else orders

/-- Every order that is new at the exchange has its row. -/
def NoOrphan (before after : List (String × String)) (st : Store) : Prop :=
  ∀ e ∈ after, e ∉ before →
    ∃ row, st.orders.get? (.live, e.2) = some row ∧ row.clientOrderId = some e.1

/-! ### The attempts that are made -/

section
variable {net : ℕ → Delivery}

theorem reachedFrom_zero {attempt n : ℕ} : ReachedFrom net 0 attempt n ↔ n = attempt := by
  constructor
  · intro h
    obtain ⟨hge, hle, -⟩ := h
    omega
  · intro h
    subst h
    exact ⟨le_rfl, by omega, fun k hk hlt => by omega⟩

theorem reachedFrom_succ {left attempt n : ℕ} :
    ReachedFrom net (left + 1) attempt n ↔
      n = attempt ∨ (net attempt).retried ∧ ReachedFrom net left (attempt + 1) n := by
  constructor
  · intro h
    obtain ⟨hge, hle, hall⟩ := h
    rcases eq_or_lt_of_le hge with heq | hlt
    · exact .inl heq.symm
    · exact .inr ⟨hall attempt le_rfl hlt, hlt, by omega, fun k hk => hall k (by omega)⟩
  · intro h
    rcases h with rfl | ⟨hretried, hge, hle, hall⟩
    · exact ⟨le_rfl, by omega, fun k hk hlt => by omega⟩
    · refine ⟨by omega, by omega, fun k hk hlt => ?_⟩
      rcases eq_or_lt_of_le hk with heq | hlt'
      · exact heq ▸ hretried
      · exact hall k hlt' hlt

/-- Some attempt that is made has the property. -/
theorem exists_reachedFrom_succ {P : ℕ → Prop} {left attempt : ℕ} :
    (∃ n, ReachedFrom net (left + 1) attempt n ∧ P n) ↔
      P attempt ∨ (net attempt).retried ∧ ∃ n, ReachedFrom net left (attempt + 1) n ∧ P n := by
  constructor
  · intro h
    obtain ⟨n, hn, hp⟩ := h
    rcases reachedFrom_succ.mp hn with rfl | ⟨hretried, hn⟩
    · exact .inl hp
    · exact .inr ⟨hretried, n, hn, hp⟩
  · intro h
    rcases h with hp | ⟨hretried, n, hn, hp⟩
    · exact ⟨attempt, reachedFrom_succ.mpr (.inl rfl), hp⟩
    · exact ⟨n, reachedFrom_succ.mpr (.inr ⟨hretried, hn⟩), hp⟩

theorem exists_reachedFrom_zero {P : ℕ → Prop} {attempt : ℕ} :
    (∃ n, ReachedFrom net 0 attempt n ∧ P n) ↔ P attempt := by
  simp [reachedFrom_zero]

/-- What the client makes of a reply, in terms of the schedule. -/
theorem handle_spec (accepted : Bool) (reply : Reply OrderAck) :
    match handle true reply with
    | .done result => (Delivery.sent accepted reply).success = true ∧
        (Delivery.sent accepted reply).retried = false ∧
        ∃ r, reply = .response r ∧ r.status < 400 ∧ r.result = result
    | .fail _ => (Delivery.sent accepted reply).success = false ∧
        (Delivery.sent accepted reply).retried = false
    | .again _ => (Delivery.sent accepted reply).success = false ∧
        (Delivery.sent accepted reply).retried = true := by
  cases reply with
  | transport detail => exact ⟨rfl, rfl⟩
  | response r =>
    simp only [handle, Delivery.success, Delivery.retried]
    by_cases hs : r.status < 400
    · simp [hs]
    · by_cases hagain : (fromResponse r).retryable || transientConflict (fromResponse r)
      · simp [hs, hagain]
      · simp [hs, hagain]

variable (net) in
/-- What one attempt leads to: the loop returns, it raises, or it tries again. -/
theorem requestFrom_attempt (left attempt : ℕ) :
    (∃ accepted r, net attempt = .sent accepted (.response r) ∧ r.status < 400 ∧
        requestFrom true (fun n => (net n).seen) left attempt = .ok r.result) ∨
      ((net attempt).success = false ∧ (net attempt).retried = false ∧
        ∃ e, requestFrom true (fun n => (net n).seen) left attempt = .error e) ∨
      ((net attempt).success = false ∧ (net attempt).retried = true ∧
        match left with
        | 0 => ∃ e, requestFrom true (fun n => (net n).seen) 0 attempt = .error e
        | left + 1 => requestFrom true (fun n => (net n).seen) (left + 1) attempt =
            requestFrom true (fun n => (net n).seen) left (attempt + 1)) := by
  have hloop := requestFrom.eq_def true (fun n => (net n).seen) left attempt
  cases hd : net attempt with
  | blocked e =>
    simp only [hd, Delivery.seen] at hloop
    exact .inr (.inl ⟨rfl, rfl, e, hloop⟩)
  | sent accepted reply =>
    have hspec := handle_spec accepted reply
    simp only [hd, Delivery.seen] at hloop
    cases hh : handle true reply with
    | done result =>
      simp only [hh] at hloop hspec
      obtain ⟨-, -, r, rfl, hs, rfl⟩ := hspec
      exact .inl ⟨accepted, r, rfl, hs, hloop⟩
    | fail e =>
      simp only [hh] at hloop hspec
      exact .inr (.inl ⟨hspec.1, hspec.2, e, hloop⟩)
    | again e =>
      simp only [hh] at hloop hspec
      refine .inr (.inr ⟨hspec.1, hspec.2, ?_⟩)
      cases left with
      | zero => exact ⟨e, hloop⟩
      | succ left => exact hloop

variable (net) in
/-- **The loop on its schedule**: it returns what a success it reaches carries, and raises where
it reaches none. -/
theorem requestFrom_cases (left attempt : ℕ) :
    (∃ n accepted r, ReachedFrom net left attempt n ∧ net n = .sent accepted (.response r) ∧
        r.status < 400 ∧ requestFrom true (fun n => (net n).seen) left attempt = .ok r.result) ∨
      (¬ ∃ n, ReachedFrom net left attempt n ∧ (net n).success) ∧
        ∃ e, requestFrom true (fun n => (net n).seen) left attempt = .error e := by
  induction left generalizing attempt with
  | zero =>
    rw [exists_reachedFrom_zero]
    rcases requestFrom_attempt net 0 attempt with
      ⟨accepted, r, hnet, hs, hloop⟩ | ⟨hno, -, hloop⟩ | ⟨hno, -, hloop⟩
    · exact .inl ⟨attempt, accepted, r, reachedFrom_zero.mpr rfl, hnet, hs, hloop⟩
    · exact .inr ⟨by simp [hno], hloop⟩
    · exact .inr ⟨by simp [hno], hloop⟩
  | succ left ih =>
    rw [exists_reachedFrom_succ]
    rcases requestFrom_attempt net (left + 1) attempt with
      ⟨accepted, r, hnet, hs, hloop⟩ | ⟨hno, hlast, hloop⟩ | ⟨hno, hagain, hloop⟩
    · exact .inl ⟨attempt, accepted, r, reachedFrom_succ.mpr (.inl rfl), hnet, hs, hloop⟩
    · exact .inr ⟨by simp [hno, hlast], hloop⟩
    · rw [hloop]
      rcases ih (attempt + 1) with ⟨n, accepted, r, hn, hrest⟩ | ⟨hnone, hrest⟩
      · exact .inl ⟨n, accepted, r, reachedFrom_succ.mpr (.inr ⟨hagain, hn⟩), hrest⟩
      · exact .inr ⟨by simp [hno, hnone], hrest⟩

/-! ### The exchange -/

section
variable {key id : String}

/-- At most the one order of the call is there under its client order id. -/
def Only (key id : String) (orders : List (String × String)) : Prop :=
  ∀ e ∈ ordersOf key orders, e = (key, id)

theorem mem_place {orders : List (String × String)} (h : Only key id orders)
    {e : String × String} : e ∈ place key id orders ↔ e ∈ orders ∨ e = (key, id) := by
  unfold place
  split
  · simp
  · next hne =>
    obtain ⟨e', he'⟩ := List.exists_mem_of_ne_nil _ hne
    have hin : (key, id) ∈ orders := h e' he' ▸ (mem_ordersOf.mp he').1
    constructor
    · exact .inl
    · intro he
      rcases he with he | rfl
      · exact he
      · exact hin

theorem Only.place {orders : List (String × String)} (h : Only key id orders) :
    Only key id (place key id orders) := by
  intro e he
  obtain ⟨hmem, hkey⟩ := mem_ordersOf.mp he
  rcases (mem_place h).mp hmem with hmem | rfl
  · exact h e (mem_ordersOf.mpr ⟨hmem, hkey⟩)
  · rfl

theorem mem_exchangeFrom {left attempt : ℕ} {orders : List (String × String)}
    (h : Only key id orders) {e : String × String} :
    e ∈ exchangeFrom key id net left attempt orders ↔
      e ∈ orders ∨ e = (key, id) ∧ ∃ n, ReachedFrom net left attempt n ∧ (net n).accepted := by
  induction left generalizing attempt orders with
  | zero =>
    rw [exists_reachedFrom_zero]
    unfold exchangeFrom
    by_cases ha : (net attempt).accepted <;> simp [ha, mem_place h]
  | succ left ih =>
    rw [exists_reachedFrom_succ]
    unfold exchangeFrom
    have hnext : Only key id (if (net attempt).accepted then place key id orders else orders) := by
      split
      · exact h.place
      · exact h
    by_cases ha : (net attempt).accepted <;> by_cases hr : (net attempt).retried
    all_goals
      simp only [ha, if_true, if_false, Bool.false_eq_true] at hnext
      simp only [ha, hr, if_true, if_false, Bool.false_eq_true, ih hnext, mem_place h]
      tauto

end
end

/-! ### One submission -/

section
variable (b : LiveBroker) (maxRetries : ℕ) (st : Store) (now : Instant) (intent : OrderIntent)
  (uuid : String) (sellable : Except TossError Decimal) (polls : ℕ → Except TossError Order)
  (net : ℕ → Delivery) (id : String)

/-- What the client is answered where its attempts meet `net`. -/
def answers : Answers where
  sellable := sellable
  attempts := fun n => (net n).seen
  polls := polls

/-- The order passes the checks that come before any request. -/
def Sends : Prop :=
  ∃ sent body, b.prepare intent sellable = .ok sent ∧
    orderBody (b.newOrder intent ("tqt-" ++ uuid) sent) ("tqt-" ++ uuid) = .ok body

/-- The exchange after a submission. -/
def exchangeAfter (orders : List (String × String)) : List (String × String) :=
  match b.prepare intent sellable with
  | .error _ => orders
  | .ok sent =>
    match orderBody (b.newOrder intent ("tqt-" ++ uuid) sent) ("tqt-" ++ uuid) with
    | .error _ => orders
    | .ok body => exchangeFrom body.clientOrderId id net maxRetries 1 orders

variable {b maxRetries st now intent uuid sellable polls net id}

theorem orderBody_client {sent : Option Decimal × Option Decimal} {body : OrderRequest}
    (h : orderBody (b.newOrder intent ("tqt-" ++ uuid) sent) ("tqt-" ++ uuid) = .ok body) :
    body.clientOrderId = "tqt-" ++ uuid := by
  unfold orderBody at h
  split at h
  · cases h
  split at h
  · cases h
  split at h
  · cases h
  split at h
  · cases h
  cases h
  simp [LiveBroker.newOrder, Option.filter]

/-- A submission that sends nothing changes neither the exchange nor the store. -/
theorem not_sends (h : ¬ Sends b intent uuid sellable) (orders : List (String × String)) :
    exchangeAfter b maxRetries intent uuid sellable net id orders = orders := by
  unfold exchangeAfter
  cases hprep : b.prepare intent sellable with
  | error e => rfl
  | ok sent =>
    simp only
    cases hbody : orderBody (b.newOrder intent ("tqt-" ++ uuid) sent) ("tqt-" ++ uuid) with
    | error e => rfl
    | ok body => exact absurd ⟨sent, body, hprep, hbody⟩ h

theorem mem_exchangeAfter (hsends : Sends b intent uuid sellable)
    {orders : List (String × String)} (hfresh : ordersOf ("tqt-" ++ uuid) orders = [])
    {e : String × String} :
    e ∈ exchangeAfter b maxRetries intent uuid sellable net id orders ↔
      e ∈ orders ∨ e = ("tqt-" ++ uuid, id) ∧ ∃ n, Reached maxRetries net n ∧ (net n).accepted := by
  obtain ⟨sent, body, hprep, hbody⟩ := hsends
  have honly : Only ("tqt-" ++ uuid) id orders := by
    intro e he
    rw [hfresh] at he
    cases he
  unfold exchangeAfter
  simp only [hprep, hbody, orderBody_client hbody]
  exact mem_exchangeFrom honly

/-- The row of the order is there exactly where some attempt is answered with a success. -/
theorem row_iff (hlawful : Lawful id net) (hsends : Sends b intent uuid sellable)
    (hledger : ∀ k row, st.orders.get? k = some row → row.clientOrderId ≠ some ("tqt-" ++ uuid)) :
    (∃ row, (b.submit maxRetries st now intent uuid (answers sellable polls net)).2.orders.get?
        (.live, id) = some row ∧ row.clientOrderId = some ("tqt-" ++ uuid)) ↔
      ∃ n, Reached maxRetries net n ∧ (net n).success := by
  obtain ⟨sent, body, hprep, hbody⟩ := hsends
  have hcreate : createOrder maxRetries (b.newOrder intent ("tqt-" ++ uuid) sent) ("tqt-" ++ uuid)
      (answers sellable polls net).attempts =
      created (requestFrom true (fun n => (net n).seen) maxRetries 1) :=
    createOrder_of_body hbody
  have hsent := b.submit_cases maxRetries st now intent uuid (answers sellable polls net)
  rw [show (answers sellable polls net).sellable = sellable from rfl, hprep] at hsent
  obtain ⟨error, herror, -⟩ | ⟨sent', hsent, hrest⟩ := hsent
  · cases herror
  cases hsent
  rw [hcreate] at hrest
  rcases requestFrom_cases net maxRetries 1 with ⟨n, accepted, r, hn, hnet, hs, hreq⟩ | ⟨hnone, e, hreq⟩
  · -- Some success is reached: its ack is recorded.
    obtain ⟨-, ack, hack, rfl⟩ := hlawful n accepted r hnet hs
    rw [hreq, hack] at hrest
    obtain ⟨message, hraised, -⟩ | ⟨e, herror, -⟩ | ⟨ack', result, st', hack', hsettle, hsubmit⟩ := hrest
    · cases hraised
    · cases herror
    cases hack'
    have hclient := LiveBroker.settleOrder_client intent ack.orderId
      (answers sellable polls net).polls now
      (LiveBroker.recordSubmission ack.orderId
        (LiveBroker.submissionRow intent ("tqt-" ++ uuid) sent now) st) (.live, ack.orderId)
    rw [hsettle, LiveBroker.recordSubmission, Dict.get?_insert_self] at hclient
    obtain ⟨row, hrow, hrowClient⟩ := Option.map_eq_some_iff.mp hclient
    rw [hsubmit]
    refine iff_of_true ⟨row, hrow, hrowClient⟩ ⟨n, hn, ?_⟩
    simp [hnet, Delivery.success, hs]
  · -- None is: the call gives up and the store is as it was.
    rw [hreq] at hrest
    obtain ⟨message, hraised, -⟩ | ⟨e', -, hsubmit⟩ | ⟨ack, _, _, hack, -⟩ := hrest
    · cases hraised
    · rw [hsubmit]
      refine iff_of_false ?_ hnone
      intro h
      obtain ⟨row, hrow, hclient⟩ := h
      exact hledger _ row hrow hclient
    · cases hack

/-- **Exactly when a submission leaves no order behind that the ledger does not know**: it
sends nothing, or some attempt is answered with the success, or no attempt it makes is
accepted. -/
theorem no_orphan_iff (hlawful : Lawful id net) {orders : List (String × String)}
    (hfresh : ordersOf ("tqt-" ++ uuid) orders = [])
    (hledger : ∀ k row, st.orders.get? k = some row → row.clientOrderId ≠ some ("tqt-" ++ uuid)) :
    NoOrphan orders (exchangeAfter b maxRetries intent uuid sellable net id orders)
        (b.submit maxRetries st now intent uuid (answers sellable polls net)).2 ↔
      ¬ Sends b intent uuid sellable ∨ (∃ n, Reached maxRetries net n ∧ (net n).success) ∨
        ∀ n, Reached maxRetries net n → (net n).accepted = false := by
  by_cases hsends : Sends b intent uuid sellable
  · have hnew : ("tqt-" ++ uuid, id) ∉ orders := by
      intro hmem
      have hin := mem_ordersOf.mpr ⟨hmem, rfl⟩
      rw [hfresh] at hin
      cases hin
    simp only [hsends, not_true_eq_false, false_or]
    constructor
    · intro hno
      by_cases hacc : ∃ n, Reached maxRetries net n ∧ (net n).accepted
      · have hrow := hno _ ((mem_exchangeAfter hsends hfresh).mpr (.inr ⟨rfl, hacc⟩)) hnew
        exact .inl ((row_iff hlawful hsends hledger).mp hrow)
      · refine .inr fun n hn => ?_
        by_contra ha
        exact hacc ⟨n, hn, by simpa using ha⟩
    · intro hcover e he hbefore
      rcases (mem_exchangeAfter hsends hfresh).mp he with he | ⟨rfl, n, hn, hacc⟩
      · exact absurd he hbefore
      · rcases hcover with hsuccess | hnone
        · exact (row_iff hlawful hsends hledger).mpr hsuccess
        · rw [hnone n hn] at hacc
          cases hacc
  · refine iff_of_true ?_ (.inl hsends)
    rw [not_sends hsends]
    exact fun e he hbefore => absurd he hbefore

end

/-! ### Lost responses -/

def buyTen : OrderIntent := .market "069500" .BUY 10 "" ""

/-- Every request reaches the exchange; every response before attempt `n` is lost. -/
def lostBefore (n k : ℕ) : Delivery :=
  if k < n then .sent true (.transport "timeout")
  else .sent true (.response { status := 200, result := some { orderId := "A-1" } })

theorem lostBefore_lawful (n : ℕ) : Lawful "A-1" (lostBefore n) := by
  intro k accepted r hk hs
  unfold lostBefore at hk
  split at hk <;> cases hk
  exact ⟨rfl, _, rfl, rfl⟩

def noPolls : ℕ → Except TossError Order := fun _ => .error { kind := .server, message := "" }

/-- One lost response: the second attempt is answered, and the row is written. -/
theorem no_orphan_second_attempt :
    NoOrphan [] (exchangeAfter {} 4 buyTen "1" (.ok 0) (lostBefore 2) "A-1" [])
      (LiveBroker.submit {} 4 {} ⟨⟨2026, 8, 17⟩, 0⟩ buyTen "1"
        (answers (.ok 0) noPolls (lostBefore 2))).2 := by
  refine (no_orphan_iff (lostBefore_lawful 2) rfl (fun k row hrow => by cases hrow)).mpr
    (.inr (.inl ⟨2, ⟨by decide, by decide, fun k hk hlt => ?_⟩, rfl⟩))
  rw [show k = 1 by omega]
  rfl

/-- With `max_retries = 4` the fifth lost response ends the call: the exchange holds the
order and the ledger does not know it. -/
theorem lost_responses_orphan :
    ¬ NoOrphan [] (exchangeAfter {} 4 buyTen "1" (.ok 0) (lostBefore 6) "A-1" [])
      (LiveBroker.submit {} 4 {} ⟨⟨2026, 8, 17⟩, 0⟩ buyTen "1"
        (answers (.ok 0) noPolls (lostBefore 6))).2 := by
  intro hno
  have hafter : exchangeAfter {} 4 buyTen "1" (.ok 0) (lostBefore 6) "A-1" [] = [("tqt-1", "A-1")] := by
    decide +kernel
  obtain ⟨row, hrow, -⟩ := hno ("tqt-1", "A-1") (by rw [hafter]; simp) (by simp)
  have hstore : (LiveBroker.submit {} 4 {} ⟨⟨2026, 8, 17⟩, 0⟩ buyTen "1"
      (answers (.ok 0) noPolls (lostBefore 6))).2.orders = ∅ := rfl
  rw [hstore] at hrow
  cases hrow

end Tqt
