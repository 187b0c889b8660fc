import Tqt.Foundation.Lts
import Tqt.Toss.Client

/-! One `create_order` call against a lossy network.

A `Wire` is the client, the requests and the replies on their way, and the exchange. Any
message may be lost, and a request may be processed long after the client has given
it up. All that is assumed of the exchange is that it keeps one order per client order
id (`Keyed`, `Processed`) and that a success names that order. `Sound` holds along every
run; `create_order_at_most_once` reads the contract of the call off it. -/
namespace Tqt.TossClient

inductive Phase where
  /-- So many attempts have been made; the next one may start. -/
  | ready (attempts : ℕ)
  /-- The request of this attempt is out. -/
  | waiting (attempt : ℕ)
  | acked (ack : OrderAck)
  | failed (e : TossError)
  | raised

structure Wire where
  phase : Phase := .ready 0
  sent : List OrderRequest := []
  inflight : List (ℕ × OrderRequest) := []
  replies : List (ℕ × Response OrderAck) := []
  /-- The orders of the exchange, by client order id. -/
  orders : List (String × String)

/-- The orders under one client order id. -/
def ordersOf (key : String) (orders : List (String × String)) : List (String × String) :=
  orders.filter fun e => e.1 = key

/-- One order per client order id. -/
def Keyed (orders : List (String × String)) : Prop :=
  ∀ key, (ordersOf key orders).length ≤ 1

/-- A success carries the id of the order. -/
def Carries (id : String) (r : Response OrderAck) : Prop :=
  r.status < 400 → ∃ ack, r.result = some ack ∧ ack.orderId = id

/-- The exchange processes a request. The first one it accepts creates the order; to later
ones with the same client order id it answers with that order, or with an error. -/
inductive Processed (orders : List (String × String)) (req : OrderRequest) :
    Response OrderAck → List (String × String) → Prop where
  | create {r : Response OrderAck} (id : String) :
      (∀ e ∈ orders, e.1 ≠ req.clientOrderId) → Carries id r →
      Processed orders req r (orders ++ [(req.clientOrderId, id)])
  | known {r : Response OrderAck} {id : String} :
      (req.clientOrderId, id) ∈ orders → Carries id r → Processed orders req r orders
  | refuse {r : Response OrderAck} : 400 ≤ r.status → Processed orders req r orders

inductive Event where
  | blocked (e : TossError)
  | send
  | process
  | loseRequest
  | loseReply
  | transport (detail : String)
  | receive (r : Response OrderAck)

/-- What the loop does with its decision about attempt `attempt`. -/
def settle (maxRetries attempt : ℕ) : Decision OrderAck → Phase
  | .done (some ack) => .acked ack
  | .done none => .raised
  | .fail e => .failed e
  | .again e => if maxRetries < attempt then .failed e else .ready attempt

section
variable (maxRetries : ℕ) (body : OrderRequest)

inductive Steps : Wire → Event → Wire → Prop where
  /-- The token or the account lookup raises. -/
  | blocked {w : Wire} {n : ℕ} (e : TossError) :
      w.phase = .ready n → Steps w (.blocked e) { w with phase := .failed e }
  | send {w : Wire} {n : ℕ} :
      w.phase = .ready n →
      Steps w .send { w with
        phase := .waiting (n + 1)
        sent := w.sent ++ [body]
        inflight := w.inflight ++ [(n + 1, body)] }
  | process {w : Wire} {front back : List (ℕ × OrderRequest)} {n : ℕ} {req : OrderRequest}
      {r : Response OrderAck} {orders : List (String × String)} :
      w.inflight = front ++ (n, req) :: back → Processed w.orders req r orders →
      Steps w .process { w with
        inflight := front ++ back
        replies := w.replies ++ [(n, r)]
        orders := orders }
  | loseRequest {w : Wire} {front back : List (ℕ × OrderRequest)} {x : ℕ × OrderRequest} :
      w.inflight = front ++ x :: back →
      Steps w .loseRequest { w with inflight := front ++ back }
  | loseReply {w : Wire} {front back : List (ℕ × Response OrderAck)} {x : ℕ × Response OrderAck} :
      w.replies = front ++ x :: back → Steps w .loseReply { w with replies := front ++ back }
  /-- The connection fails or times out while the client waits. -/
  | transport {w : Wire} {n : ℕ} (detail : String) :
      w.phase = .waiting n →
      Steps w (.transport detail) { w with
        phase := settle maxRetries n (handle true (.transport detail)) }
  /-- The reply to the request the client waits for. -/
  | receive {w : Wire} {n : ℕ} {r : Response OrderAck} :
      w.phase = .waiting n → (n, r) ∈ w.replies →
      Steps w (.receive r) { w with
        phase := settle maxRetries n (handle true (.response r)) }

def wireSystem : Lts Wire Event := ⟨Steps maxRetries body⟩

/-! ### The invariant -/

/-- The attempts behind a phase, and that they are within the budget. -/
def Phase.Within (phase : Phase) (sent : ℕ) : Prop :=
  match phase with
  | .ready n => sent = n ∧ n ≤ maxRetries
  | .waiting n => sent = n ∧ n ≤ maxRetries + 1 ∧ 0 < n
  | _ => sent ≤ maxRetries + 1

structure Sound (orders₀ : List (String × String)) (w : Wire) : Prop where
  budget : w.phase.Within maxRetries w.sent.length
  same : ∀ b ∈ w.sent, b = body
  inflight : ∀ x ∈ w.inflight, x.2 = body
  placed : w.orders = orders₀ ∨ ordersOf body.clientOrderId orders₀ = [] ∧
    ∃ id, w.orders = orders₀ ++ [(body.clientOrderId, id)]
  replies : ∀ x ∈ w.replies, x.2.status < 400 →
    ∃ ack, x.2.result = some ack ∧ (body.clientOrderId, ack.orderId) ∈ w.orders
  acked : ∀ ack, w.phase = .acked ack → (body.clientOrderId, ack.orderId) ∈ w.orders

end

section
variable {maxRetries : ℕ} {body : OrderRequest} {orders₀ : List (String × String)}

/-- Taking one message out leaves only messages that were there. -/
theorem mem_of_mem_around {α : Type} {front back : List α} {x y : α} (h : y ∈ front ++ back) :
    y ∈ front ++ x :: back := by
  rcases List.mem_append.mp h with h | h
  · exact List.mem_append_left _ h
  · exact List.mem_append_right _ (List.mem_cons_of_mem _ h)

theorem Sound.start : Sound maxRetries body orders₀ { orders := orders₀ } :=
  ⟨⟨rfl, Nat.zero_le _⟩, by simp, by simp, .inl rfl, by simp, by simp⟩

theorem Phase.Within.le {phase : Phase} {sent : ℕ} (h : phase.Within maxRetries sent) :
    sent ≤ maxRetries + 1 := by
  cases phase <;> simp only [Phase.Within] at h <;> omega

/-- Settling an attempt stays within the budget. -/
theorem settle_within {n sent : ℕ} (h : sent = n ∧ n ≤ maxRetries + 1 ∧ 0 < n) (d : Decision OrderAck) :
    (settle maxRetries n d).Within maxRetries sent := by
  cases d with
  | done result => cases result <;> simp only [settle, Phase.Within] <;> omega
  | fail e => simp only [settle, Phase.Within]; omega
  | again e =>
    rw [settle]
    split
    · simp only [Phase.Within]; omega
    · simp only [Phase.Within]; omega

@[simp] theorem mem_ordersOf {key : String} {orders : List (String × String)}
    {e : String × String} : e ∈ ordersOf key orders ↔ e ∈ orders ∧ e.1 = key := by
  simp [ordersOf]

/-- What processing one more request of the call does to the orders. -/
theorem Sound.processed {w : Wire} (h : Sound maxRetries body orders₀ w)
    {r : Response OrderAck} {orders : List (String × String)}
    (hp : Processed w.orders body r orders) :
    (orders = orders₀ ∨ ordersOf body.clientOrderId orders₀ = [] ∧
      ∃ id, orders = orders₀ ++ [(body.clientOrderId, id)]) ∧
      (∀ e ∈ w.orders, e ∈ orders) ∧
      (r.status < 400 →
        ∃ ack, r.result = some ack ∧ (body.clientOrderId, ack.orderId) ∈ orders) := by
  cases hp with
  | create id hnone hcarries =>
    have hnew : w.orders = orders₀ := by
      rcases h.placed with hw | ⟨-, id', hw⟩
      · exact hw
      · exact absurd rfl (hnone (body.clientOrderId, id') (hw ▸ by simp))
    refine ⟨.inr ⟨?_, id, by rw [hnew]⟩, fun e he => List.mem_append_left _ he, fun hs => ?_⟩
    · exact List.filter_eq_nil_iff.mpr fun e he => by simpa using hnone e (hnew ▸ he)
    · obtain ⟨ack, hack, rfl⟩ := hcarries hs
      exact ⟨ack, hack, by simp⟩
  | @known id hmem hcarries =>
    refine ⟨h.placed, fun e he => he, fun hs => ?_⟩
    obtain ⟨ack, hack, rfl⟩ := hcarries hs
    exact ⟨ack, hack, hmem⟩
  | refuse hstatus => exact ⟨h.placed, fun e he => he, fun hs => by omega⟩

/-- **One step.** -/
theorem Sound.step {w w' : Wire} {a : Event} (h : Sound maxRetries body orders₀ w)
    (hstep : (wireSystem maxRetries body).step w a w') : Sound maxRetries body orders₀ w' := by
  cases hstep with
  | blocked e hphase =>
    exact ⟨h.budget.le, h.same, h.inflight, h.placed, h.replies, nofun⟩
  | @send n hphase =>
    have hbudget := h.budget
    rw [hphase] at hbudget
    refine ⟨?_, ?_, ?_, h.placed, h.replies, nofun⟩
    · show (w.sent ++ [body]).length = n + 1 ∧ n + 1 ≤ maxRetries + 1 ∧ 0 < n + 1
      rw [List.length_append, List.length_singleton, hbudget.1]
      exact ⟨rfl, Nat.succ_le_succ hbudget.2, Nat.succ_pos n⟩
    · intro b hb
      rcases List.mem_append.mp hb with hb | hb
      · exact h.same b hb
      · exact List.mem_singleton.mp hb
    · intro x hx
      rcases List.mem_append.mp hx with hx | hx
      · exact h.inflight x hx
      · rw [List.mem_singleton.mp hx]
  | @process front back n req r orders hin hp =>
    have hreq : req = body := h.inflight (n, req) (hin ▸ by simp)
    subst hreq
    obtain ⟨hplaced, hkept, hreply⟩ := h.processed hp
    refine ⟨h.budget, h.same, ?_, hplaced, ?_, fun ack hack => hkept _ (h.acked ack hack)⟩
    · exact fun x hx => h.inflight x (hin ▸ mem_of_mem_around hx)
    · intro x hx hs
      rcases List.mem_append.mp hx with hx | hx
      · obtain ⟨ack, hack, hid⟩ := h.replies x hx hs
        exact ⟨ack, hack, hkept _ hid⟩
      · rw [List.mem_singleton.mp hx] at hs ⊢
        exact hreply hs
  | loseRequest hin =>
    exact ⟨h.budget, h.same, fun x hx => h.inflight x (hin ▸ mem_of_mem_around hx), h.placed,
      h.replies, h.acked⟩
  | loseReply hin =>
    exact ⟨h.budget, h.same, h.inflight, h.placed,
      fun x hx => h.replies x (hin ▸ mem_of_mem_around hx), h.acked⟩
  | @transport n detail hphase =>
    have hbudget := h.budget
    rw [hphase] at hbudget
    refine ⟨settle_within hbudget (handle true (.transport detail)), h.same, h.inflight, h.placed,
      h.replies, ?_⟩
    intro ack hack
    simp only [handle, if_true, settle] at hack
    split at hack <;> cases hack
  | @receive n r hphase hr =>
    have hbudget := h.budget
    rw [hphase] at hbudget
    refine ⟨settle_within hbudget (handle true (.response r)), h.same, h.inflight, h.placed,
      h.replies, ?_⟩
    intro ack hack
    have hreply := h.replies (n, r) hr
    simp only [handle] at hack
    by_cases hs : r.status < 400
    · obtain ⟨ack', hack', hid⟩ := hreply hs
      simp only at hack'
      rw [if_pos hs, hack'] at hack
      cases hack
      exact hid
    · rw [if_neg hs] at hack
      split at hack
      · rw [settle] at hack
        split at hack <;> cases hack
      · cases hack

theorem Sound.run {w w' : Wire} {events : List Event}
    (hrun : (wireSystem maxRetries body).Run w events w') (h : Sound maxRetries body orders₀ w) :
    Sound maxRetries body orders₀ w' :=
  hrun.invariant (fun _ _ _ hs hstep => hs.step hstep) h

/-! ### The wire and the loop -/

/-- What is left of `_request` in each phase, if its attempts meet `net`. -/
def Phase.rest (maxRetries : ℕ) (net : ℕ → Attempt OrderAck) :
    Phase → Except TossError (Option OrderAck)
  | .ready n => requestFrom true net (maxRetries - n) (n + 1)
  | .waiting n => requestFrom true net (maxRetries + 1 - n) n
  | .acked ack => .ok (some ack)
  | .failed e => .error e
  | .raised => .ok none

/-- The client sees on this step what `net` says of the attempt. -/
def Follows (net : ℕ → Attempt OrderAck) (w : Wire) : Event → Prop
  | .blocked e => ∀ n, w.phase = .ready n → net (n + 1) = .blocked e
  | .send => ∀ n, w.phase = .ready n → ∃ reply, net (n + 1) = .sent reply
  | .transport detail => ∀ n, w.phase = .waiting n → net n = .sent (.transport detail)
  | .receive r => ∀ n, w.phase = .waiting n → net n = .sent (.response r)
  | _ => True

theorem rest_settle {net : ℕ → Attempt OrderAck} {n : ℕ} {reply : Reply OrderAck}
    (hn : 0 < n ∧ n ≤ maxRetries + 1) (hnet : net n = .sent reply) :
    (Phase.waiting n).rest maxRetries net =
      (settle maxRetries n (handle true reply)).rest maxRetries net := by
  rw [Phase.rest]
  unfold requestFrom
  rw [hnet]
  simp only
  cases handle true reply with
  | done result => cases result <;> rfl
  | fail e => rfl
  | again e =>
    rw [settle]
    by_cases hlast : maxRetries < n
    · have hleft : maxRetries + 1 - n = 0 := by omega
      rw [if_pos hlast, hleft]
      rfl
    · obtain ⟨left, hleft⟩ : ∃ left, maxRetries + 1 - n = left + 1 := ⟨maxRetries - n, by omega⟩
      have hrest : maxRetries - n = left := by omega
      rw [if_neg hlast, hleft, Phase.rest, hrest]

theorem rest_step {net : ℕ → Attempt OrderAck} {w w' : Wire} {a : Event}
    (hw : w.phase.Within maxRetries w.sent.length) (hfollows : Follows net w a)
    (hstep : (wireSystem maxRetries body).step w a w') :
    w.phase.rest maxRetries net = w'.phase.rest maxRetries net := by
  cases hstep with
  | blocked e hphase =>
    rw [hphase, Phase.rest]
    unfold requestFrom
    rw [hfollows _ hphase]
    rfl
  | @send n hphase =>
    rw [hphase, Phase.rest]
    show _ = requestFrom true net (maxRetries + 1 - (n + 1)) (n + 1)
    rw [Nat.add_sub_add_right]
  | process _ _ => rfl
  | loseRequest _ => rfl
  | loseReply _ => rfl
  | @transport n detail hphase =>
    rw [hphase] at hw ⊢
    exact rest_settle ⟨hw.2.2, hw.2.1⟩ (hfollows n hphase)
  | @receive n r hphase _ =>
    rw [hphase] at hw ⊢
    exact rest_settle ⟨hw.2.2, hw.2.1⟩ (hfollows n hphase)

/-- **The client of the wire is the loop of `_request`**: where its attempts meet `net`, every
phase it reaches is as far as the loop has come on `net`. -/
theorem wire_request {net : ℕ → Attempt OrderAck} {w : Wire} {events : List Event}
    (hrun : ((wireSystem maxRetries body).restrict (Follows net)).Run { orders := orders₀ } events
      w) : request maxRetries true net = w.phase.rest maxRetries net := by
  let reached : Wire → Prop := fun w => Sound maxRetries body orders₀ w ∧
    request maxRetries true net = w.phase.rest maxRetries net
  have hgo : reached w := by
    refine Lts.Run.invariant ?_ hrun ⟨Sound.start, rfl⟩
    intro s a t hs hstep
    obtain ⟨hsound, hrest⟩ := hs
    obtain ⟨hfollows, hstep⟩ := hstep
    exact ⟨hsound.step hstep, hrest.trans (rest_step hsound.budget hfollows hstep)⟩
  exact hgo.2

/-- What `create_order` answers, in every phase the wire reaches. -/
theorem createOrder_wire {o : NewOrder} {uuid : String} {net : ℕ → Attempt OrderAck} {w : Wire}
    {events : List Event} (hbody : orderBody o uuid = .ok body)
    (hrun : ((wireSystem maxRetries body).restrict (Follows net)).Run { orders := orders₀ } events
      w) : createOrder maxRetries o uuid net = created (w.phase.rest maxRetries net) := by
  rw [createOrder_of_body hbody, wire_request hrun]

/-! ### After the last word -/

/-- The call is over. -/
def Phase.Over : Phase → Prop
  | .ready _ => False
  | .waiting _ => False
  | _ => True

/-- A refusal that no retry can turn: 422, 403, 404, a 409 that is not an in-flight
duplicate, a 401 that is not about the token's age. -/
def Final (r : Response OrderAck) : Prop :=
  r.status = 422 ∨ r.status = 403 ∨ r.status = 404 ∨
    r.status = 409 ∧ r.code ≠ some "request-in-progress" ∨
    r.status = 401 ∧ r.code ≠ some "expired-token" ∧ r.code ≠ some "invalid-token"

theorem handle_final {r : Response OrderAck} (h : Final r) :
    handle true (.response r) = .fail (fromResponse r) := by
  obtain ⟨status, code, message, requestId, retryAfter, result⟩ := r
  have hclass : ¬ status < 400 ∧
      (TossError.retryable (fromResponse ⟨status, code, message, requestId, retryAfter, result⟩) ||
        transientConflict
          (fromResponse ⟨status, code, message, requestId, retryAfter, result⟩)) = false := by
    rcases h with rfl | rfl | rfl | ⟨rfl, hcode⟩ | ⟨rfl, hexpired, hinvalid⟩
    · simp [fromResponse, errorClass, TossError.retryable, transientConflict]
    · by_cases hedge : code = some "edge-blocked" <;>
        simp [fromResponse, errorClass, TossError.retryable, transientConflict, hedge]
    · simp [fromResponse, errorClass, TossError.retryable, transientConflict]
    · simp [fromResponse, errorClass, TossError.retryable, transientConflict, hcode]
    · simp [fromResponse, errorClass, TossError.retryable, transientConflict, hexpired, hinvalid]
  simp only [handle]
  rw [if_neg hclass.1, if_neg (by simp [hclass.2])]

/-- Nothing reopens a call that is over. -/
theorem over_step {w w' : Wire} {a : Event} (h : w.phase.Over)
    (hstep : (wireSystem maxRetries body).step w a w') : a ≠ .send ∧ w'.phase.Over := by
  cases hstep with
  | blocked e hphase => exact absurd h (by rw [hphase]; exact id)
  | send hphase => exact absurd h (by rw [hphase]; exact id)
  | process _ _ => exact ⟨nofun, h⟩
  | loseRequest _ => exact ⟨nofun, h⟩
  | loseReply _ => exact ⟨nofun, h⟩
  | transport detail hphase => exact absurd h (by rw [hphase]; exact id)
  | receive hphase _ => exact absurd h (by rw [hphase]; exact id)

theorem over_run {w w' : Wire} {events : List Event} (h : w.phase.Over)
    (hrun : (wireSystem maxRetries body).Run w events w') : .send ∉ events := by
  induction hrun with
  | nil w => simp
  | cons hstep _ ih =>
    obtain ⟨hne, hover⟩ := over_step h hstep
    exact fun hmem => (List.mem_cons.mp hmem).elim (fun heq => hne heq.symm) (ih hover)

/-- An order of the call is the only one under its client order id. -/
theorem Sound.unique {w : Wire} (h : Sound maxRetries body orders₀ w) (hkeyed : Keyed orders₀) :
    (ordersOf body.clientOrderId w.orders).length ≤ 1 := by
  rcases h.placed with hw | ⟨hnone, id, hw⟩
  · rw [hw]
    exact hkeyed body.clientOrderId
  · rw [hw, ordersOf, List.filter_append]
    show (ordersOf body.clientOrderId orders₀ ++ _).length ≤ 1
    rw [hnone]
    simp

/-- **At most once.** Whatever the network does to one `create_order` call, and however late
a request is processed: it sends at most `max_retries + 1` requests, all with the one
body; the exchange keeps at most one order under its client order id, and nothing else
of what it holds changes; an ack names exactly that order; and after a final refusal
nothing more is sent. -/
theorem create_order_at_most_once {w : Wire} {events : List Event} (hkeyed : Keyed orders₀)
    (hrun : (wireSystem maxRetries body).Run { orders := orders₀ } events w) :
    w.sent.length ≤ maxRetries + 1 ∧ (∀ b ∈ w.sent, b = body) ∧
      (w.orders = orders₀ ∨ ∃ id, w.orders = orders₀ ++ [(body.clientOrderId, id)]) ∧
      (ordersOf body.clientOrderId w.orders).length ≤ 1 ∧
      (∀ ack, w.phase = .acked ack →
        ordersOf body.clientOrderId w.orders = [(body.clientOrderId, ack.orderId)]) ∧
      ∀ front r back, events = front ++ .receive r :: back → Final r → .send ∉ back := by
  have hsound := Sound.run hrun Sound.start
  have hunique := hsound.unique hkeyed
  refine ⟨hsound.budget.le, hsound.same, hsound.placed.imp id And.right, hunique, ?_, ?_⟩
  · intro ack hack
    have hmem : (body.clientOrderId, ack.orderId) ∈ ordersOf body.clientOrderId w.orders :=
      mem_ordersOf.mpr ⟨hsound.acked ack hack, rfl⟩
    match ordersOf body.clientOrderId w.orders, hmem, hunique with
    | [e], hmem, _ => rw [List.mem_singleton.mp hmem]
  · intro front r back hsplit hfinal
    subst hsplit
    obtain ⟨u, -, hrest⟩ := hrun.split
    cases hrest with
    | cons hstep hback =>
      refine over_run ?_ hback
      cases hstep with
      | receive hphase hr =>
        show (settle maxRetries _ (handle true (.response r))).Over
        rw [handle_final hfinal]
        trivial

end

/-- A market order of ten shares, answered on the second attempt after the first reply is
lost. -/
def tenShares : OrderRequest where
  symbol := "069500"
  side := .BUY
  orderType := .MARKET
  clientOrderId := "tqt-1"
  quantity := some 10

def accepted : Response OrderAck where
  status := 200
  result := some { orderId := "A-1" }

theorem create_order_at_most_once_lost_reply :
    ∃ w : Wire, w.phase = .acked { orderId := "A-1" } ∧ w.sent.length = 2 ∧
      ordersOf "tqt-1" w.orders = [("tqt-1", "A-1")] := by
  have hkeyed : Keyed [] := fun key => Nat.zero_le 1
  have hcarries : Carries "A-1" accepted := fun _ => ⟨_, rfl, rfl⟩
  have hrun : (wireSystem 4 tenShares).Run { orders := [] }
      [.send, .process, .loseReply, .transport "timeout", .send, .process, .receive accepted]
      { phase := .acked { orderId := "A-1" }
        sent := [tenShares, tenShares]
        replies := [(2, accepted)]
        orders := [("tqt-1", "A-1")] } := by
    refine .cons (.send rfl) <|
      .cons (.process (show _ = [] ++ (1, tenShares) :: [] from rfl)
        (.create "A-1" (by simp) hcarries)) <|
      .cons (.loseReply (show _ = [] ++ (1, accepted) :: [] from rfl)) <|
      .cons (.transport "timeout" rfl) <| .cons (.send rfl) <|
      .cons (.process (show _ = [] ++ (2, tenShares) :: [] from rfl)
        (.known (List.mem_singleton.mpr rfl) hcarries)) ?_
    exact .cons (.receive rfl (List.mem_singleton.mpr rfl)) (.nil _)
  exact ⟨_, rfl, rfl, (create_order_at_most_once hkeyed hrun).2.2.2.2.1 _ rfl⟩

end Tqt.TossClient
