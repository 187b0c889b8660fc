import Tqt.Execution.Live

/-! The live ledger against the order history.

Two writers share it. `submit` writes the outcome of an order that a poll of its own
reports terminal: the row and, where something filled, a fill. `syncOrders` writes the
outcome of an order that became terminal later: the row. The row of every order agrees
with the exchange after a sync (`submits_row`), and the fills are what the submissions
alone left (`submits_fills`), which is short of the orders that filled later
(`ledger_catches_up_iff`). -/
namespace Tqt
open TossClient

/-- One call of `submit` and what the API answers in it. -/
structure Submission where
  now : Instant
  intent : OrderIntent
  uuid : String
  api : Answers

/-- What the exchange reports as the average price of an order. -/
def Order.averageFilledPrice (o : Order) : Option Decimal :=
  o.execution.bind Execution.averageFilledPrice

namespace LiveBroker

/-- The order a call has acknowledged. -/
def acked (b : LiveBroker) (maxRetries : ℕ) (c : Submission) : Option String :=
  match b.prepare c.intent c.api.sellable with
  | .error _ => none
  | .ok sent =>
    match createOrder maxRetries (b.newOrder c.intent ("tqt-" ++ c.uuid) sent) ("tqt-" ++ c.uuid)
        c.api.attempts with
    | .ack ack => some ack.orderId
    | _ => none

/-- A run of calls. -/
def submits (b : LiveBroker) (maxRetries : ℕ) (calls : List Submission) (st : Store) : Store :=
  calls.foldl (fun st c => (b.submit maxRetries st c.now c.intent c.uuid c.api).2) st

/-- The fills recorded for an order. -/
def fillsOf (orderId : String) (st : Store) : List FillRow :=
  st.fills.filter fun f => f.broker = .live ∧ f.orderId = orderId

/-- One of the polls reports the order terminal, and none before it fails. -/
def SeenTerminal (polls : ℕ → Except TossError Order) : Prop :=
  ∃ n < fillPollAttempts, (∃ o, polls n = .ok o ∧ o.isTerminal) ∧ ∀ m < n, ∃ o, polls m = .ok o

/-- What the exchange keeps to. Every acknowledgement names an order of its own; `final` is
an order once it is terminal, and from then on the order does not change: a poll or the
history that shows it terminal shows `final`. -/
structure Reports (b : LiveBroker) (maxRetries : ℕ) (calls : List Submission)
    (final : String → Order) (history : List Order) : Prop where
  distinct : (calls.filterMap (b.acked maxRetries)).Nodup
  named : ∀ c ∈ calls, ∀ id, b.acked maxRetries c = some id → (final id).orderId = id
  terminal : ∀ c ∈ calls, ∀ id, b.acked maxRetries c = some id → (final id).isTerminal
  polled : ∀ c ∈ calls, ∀ id, b.acked maxRetries c = some id →
    ∀ n o, c.api.polls n = .ok o → o.isTerminal → o = final id
  listed : ∀ c ∈ calls, ∀ id, b.acked maxRetries c = some id → final id ∈ history
  unchanged : ∀ c ∈ calls, ∀ id, b.acked maxRetries c = some id →
    ∀ o ∈ history, o.orderId = id → o = final id

/-- The ledger has the order as the exchange has it. -/
structure InLedger (o : Order) (st : Store) : Prop where
  row : ∃ row, st.orders.get? (.live, o.orderId) = some row ∧ row.status = o.status ∧
    row.filledQuantity = o.filledQuantity ∧ row.avgFillPrice = o.averageFilledPrice
  filled : 0 < o.filledQuantity →
    ∃ f, fillsOf o.orderId st = [f] ∧ f.quantity = o.filledQuantity
  unfilled : ¬ 0 < o.filledQuantity → fillsOf o.orderId st = []

/-! ### The polls -/

theorem awaitFillFrom_some {polls : ℕ → Except TossError Order} {left k : ℕ} {o : Order}
    (h : awaitFillFrom polls left k = some o) : ∃ n, polls n = .ok o ∧ o.isTerminal := by
  induction left generalizing k with
  | zero => cases h
  | succ left ih =>
    unfold awaitFillFrom at h
    cases hpoll : polls k with
    | error e => simp [hpoll] at h
    | ok order =>
      simp only [hpoll] at h
      split at h
      · next hterm =>
        cases h
        exact ⟨k, hpoll, hterm⟩
      · exact ih h

/-- Looking ahead from `k`: either at once, or from the next number on. -/
theorem exists_ahead_succ {P Q : ℕ → Prop} {left k : ℕ} :
    (∃ n < left + 1, P (k + n) ∧ ∀ m < n, Q (k + m)) ↔
      P k ∨ Q k ∧ ∃ n < left, P (k + 1 + n) ∧ ∀ m < n, Q (k + 1 + m) := by
  constructor
  · rintro ⟨n, hn, hP, hQ⟩
    cases n with
    | zero => exact .inl hP
    | succ n =>
      refine .inr ⟨hQ 0 n.succ_pos, n, Nat.lt_of_succ_lt_succ hn, ?_, ?_⟩
      · rwa [Nat.add_right_comm]
      · intro m hm
        rw [Nat.add_right_comm]
        exact hQ (m + 1) (Nat.succ_lt_succ hm)
  · rintro (hP | ⟨hQk, n, hn, hP, hQ⟩)
    · exact ⟨0, left.succ_pos, hP, fun m hm => absurd hm m.not_lt_zero⟩
    · refine ⟨n + 1, Nat.succ_lt_succ hn, ?_, ?_⟩
      · rwa [Nat.add_right_comm] at hP
      · intro m hm
        cases m with
        | zero => exact hQk
        | succ m =>
          have hnext := hQ m (Nat.lt_of_succ_lt_succ hm)
          rwa [Nat.add_right_comm] at hnext

theorem awaitFillFrom_isSome (polls : ℕ → Except TossError Order) (left k : ℕ) :
    (awaitFillFrom polls left k).isSome ↔
      ∃ n < left, (∃ o, polls (k + n) = .ok o ∧ o.isTerminal) ∧
        ∀ m < n, ∃ o, polls (k + m) = .ok o := by
  induction left generalizing k with
  | zero => simp [awaitFillFrom]
  | succ left ih =>
    rw [exists_ahead_succ (P := fun n => ∃ o, polls n = .ok o ∧ o.isTerminal)
      (Q := fun n => ∃ o, polls n = .ok o), ← ih]
    rw [awaitFillFrom]
    cases hpoll : polls k with
    | error e => simp
    | ok order =>
      simp only
      split
      · next hterm => simp [hterm]
      · next hterm => simp [hterm]

theorem awaitFill_isSome (polls : ℕ → Except TossError Order) :
    (awaitFill polls).isSome ↔ SeenTerminal polls := by
  rw [awaitFill, awaitFillFrom_isSome]
  simp only [Nat.zero_add]
  rfl

/-! ### One call -/

section
variable {b : LiveBroker} {maxRetries : ℕ} {c : Submission} {id : String} (st : Store)

/-- A call without an acknowledgement leaves the store alone; one with it records the order
and settles it. -/
theorem submit_store (b : LiveBroker) (maxRetries : ℕ) (c : Submission) :
    (b.acked maxRetries c = none ∧
      (b.submit maxRetries st c.now c.intent c.uuid c.api).2 = st) ∨
    ∃ id row, b.acked maxRetries c = some id ∧ row.status = "SUBMITTED" ∧
      (b.submit maxRetries st c.now c.intent c.uuid c.api).2 =
        (settleOrder c.intent id c.api.polls c.now (recordSubmission id row st)).2 := by
  unfold acked
  rcases b.submit_cases maxRetries st c.now c.intent c.uuid c.api with
    ⟨_, hprep, h⟩ | ⟨sent, hprep, ⟨_, hcreate, h⟩ | ⟨_, hcreate, h⟩ | ⟨ack, _, _, hcreate, hsettle, h⟩⟩
  · exact .inl ⟨by rw [hprep], by rw [h]⟩
  · exact .inl ⟨by simp only [hprep, hcreate], by rw [h]⟩
  · exact .inl ⟨by simp only [hprep, hcreate], by rw [h]⟩
  · refine .inr ⟨ack.orderId, submissionRow c.intent ("tqt-" ++ c.uuid) sent c.now, ?_, rfl, ?_⟩
    · simp only [hprep, hcreate]
    · rw [h, hsettle]

theorem fillOf_orderId {intent : OrderIntent} {o : Order} {now : Instant} {f : FillRow}
    (h : f ∈ (fillOf intent o now).toList) : f.broker = .live ∧ f.orderId = o.orderId := by
  unfold fillOf at h
  split at h
  · simp at h
  · split at h
    · simp at h
    · split at h
      · simp only [Option.toList_some, List.mem_singleton] at h
        subst h
        exact ⟨rfl, rfl⟩
      · simp at h

/-- The fills of an order after another order's outcome, or its own, is recorded. -/
theorem fillsOf_recordFinal (intent : OrderIntent) (o : Order) (now : Instant) (st : Store)
    (id : String) :
    fillsOf id (recordFinal intent o now st) =
      fillsOf id st ++ if o.orderId = id then (fillOf intent o now).toList else [] := by
  unfold fillsOf recordFinal
  rw [List.filter_append]
  congr 1
  split
  · next heq =>
    apply List.filter_eq_self.mpr
    intro f hf
    obtain ⟨hlive, hid⟩ := fillOf_orderId hf
    exact decide_eq_true ⟨hlive, hid.trans heq⟩
  · next hne =>
    apply List.filter_eq_nil_iff.mpr
    intro f hf
    obtain ⟨-, hid⟩ := fillOf_orderId hf
    simp only [decide_eq_true_eq]
    exact fun h => hne (hid.symm.trans h.2)

/-- A call leaves the rows of another order alone. -/
theorem submit_other (hpolled : ∀ id', b.acked maxRetries c = some id' →
      ∀ n o, c.api.polls n = .ok o → o.isTerminal → o.orderId = id')
    (hne : b.acked maxRetries c ≠ some id) :
    (b.submit maxRetries st c.now c.intent c.uuid c.api).2.orders.get? (.live, id) =
        st.orders.get? (.live, id) ∧
      fillsOf id (b.submit maxRetries st c.now c.intent c.uuid c.api).2 = fillsOf id st := by
  rcases submit_store st b maxRetries c with ⟨-, h⟩ | ⟨id', row, hack, -, h⟩
  · rw [h]
    exact ⟨rfl, rfl⟩
  · have hid : id' ≠ id := fun heq => hne (heq ▸ hack)
    have hrow : (recordSubmission id' row st).orders.get? (.live, id) = st.orders.get? (.live, id) :=
      Dict.get?_insert_of_ne _ _ fun heq => hid (Prod.mk.inj heq).2.symm
    rw [h]
    unfold settleOrder
    cases hpoll : awaitFill c.api.polls with
    | none => exact ⟨hrow, rfl⟩
    | some o =>
      obtain ⟨n, hn, hterm⟩ := awaitFillFrom_some hpoll
      have ho : o.orderId ≠ id := hpolled id' hack n o hn hterm ▸ hid
      simp only
      rw [get?_recordFinal, if_neg fun heq => ho (Prod.mk.inj heq).2.symm, fillsOf_recordFinal,
        if_neg ho, List.append_nil]
      exact ⟨hrow, rfl⟩

/-- A row that says what the exchange says, where a zero price is no price. -/
def Stands (o : Order) (row : OrderRow) : Prop :=
  row.status = o.status ∧ row.filledQuantity = o.filledQuantity ∧
    row.avgFillPrice = truthy o.averageFilledPrice

/-- What a call leaves of its own order: a row still as submitted or as in the end, and the
fill where a poll showed the end. -/
theorem submit_own {o : Order} (hack : b.acked maxRetries c = some id) (hname : o.orderId = id)
    (hpolled : ∀ n o', c.api.polls n = .ok o' → o'.isTerminal → o' = o) :
    (∃ row, (b.submit maxRetries st c.now c.intent c.uuid c.api).2.orders.get? (.live, id) =
        some row ∧ (row.status = "SUBMITTED" ∨ Stands o row)) ∧
      fillsOf id (b.submit maxRetries st c.now c.intent c.uuid c.api).2 =
        fillsOf id st ++
          if (awaitFill c.api.polls).isSome then (fillOf c.intent o c.now).toList else [] := by
  rcases submit_store st b maxRetries c with ⟨hnone, -⟩ | ⟨id', row, hack', hstatus, h⟩
  · rw [hack] at hnone
    cases hnone
  · rw [hack] at hack'
    cases hack'
    have hrow : (recordSubmission id row st).orders.get? (.live, id) = some row :=
      Dict.get?_insert_self _ _ _
    rw [h]
    unfold settleOrder
    cases hpoll : awaitFill c.api.polls with
    | none => exact ⟨⟨row, hrow, .inl hstatus⟩, (List.append_nil _).symm⟩
    | some final =>
      obtain ⟨n, hn, hterm⟩ := awaitFillFrom_some hpoll
      obtain rfl := hpolled n final hn hterm
      simp only
      rw [get?_recordFinal, if_pos (by rw [hname]), hrow, fillsOf_recordFinal, if_pos hname]
      exact ⟨⟨finalRow final c.now row, rfl, .inr ⟨rfl, rfl, rfl⟩⟩, rfl⟩

end

/-! ### A run of calls -/

section
variable {b : LiveBroker} {maxRetries : ℕ} {calls : List Submission} {final : String → Order}
  {history : List Order} {c : Submission} {id : String} (st : Store)

/-- Calls for other orders leave the rows of an order alone. -/
theorem submits_other (hpolled : ∀ c ∈ calls, ∀ id', b.acked maxRetries c = some id' →
      ∀ n o, c.api.polls n = .ok o → o.isTerminal → o.orderId = id')
    (hne : ∀ c ∈ calls, b.acked maxRetries c ≠ some id) :
    (b.submits maxRetries calls st).orders.get? (.live, id) = st.orders.get? (.live, id) ∧
      fillsOf id (b.submits maxRetries calls st) = fillsOf id st := by
  induction calls generalizing st with
  | nil => exact ⟨rfl, rfl⟩
  | cons c rest ih =>
    obtain ⟨hrow, hfills⟩ := submit_other st (hpolled c List.mem_cons_self)
      (hne c List.mem_cons_self)
    obtain ⟨hrow', hfills'⟩ := ih (b.submit maxRetries st c.now c.intent c.uuid c.api).2
      (fun c' hc' => hpolled c' (List.mem_cons_of_mem _ hc'))
      (fun c' hc' => hne c' (List.mem_cons_of_mem _ hc'))
    exact ⟨hrow'.trans hrow, hfills'.trans hfills⟩

theorem Reports.names (h : Reports b maxRetries calls final history) (hc : c ∈ calls)
    (hack : b.acked maxRetries c = some id) (n : ℕ) (o : Order) (hpoll : c.api.polls n = .ok o)
    (hterm : o.isTerminal) : o.orderId = id := by
  rw [h.polled c hc id hack n o hpoll hterm]
  exact h.named c hc id hack

/-- What a run leaves of the order one of its calls placed. -/
theorem submits_own (h : Reports b maxRetries calls final history) (hc : c ∈ calls)
    (hack : b.acked maxRetries c = some id) :
    (∃ row, (b.submits maxRetries calls st).orders.get? (.live, id) = some row ∧
        (row.status = "SUBMITTED" ∨ Stands (final id) row)) ∧
      fillsOf id (b.submits maxRetries calls st) =
        fillsOf id st ++ if (awaitFill c.api.polls).isSome
          then (fillOf c.intent (final id) c.now).toList else [] := by
  obtain ⟨front, back, rfl⟩ := List.append_of_mem hc
  -- the acknowledgements are distinct, so the calls around this one are about other orders
  have hdistinct := h.distinct
  rw [List.filterMap_append, List.filterMap_cons_some hack, List.nodup_middle,
    List.nodup_cons] at hdistinct
  have hother : ∀ c' ∈ front ++ back, b.acked maxRetries c' ≠ some id := by
    intro c' hc' hack'
    apply hdistinct.1
    rw [← List.filterMap_append]
    exact List.mem_filterMap.mpr ⟨c', hc', hack'⟩
  have hnames : ∀ c' ∈ front ++ c :: back, ∀ id', b.acked maxRetries c' = some id' →
      ∀ n o, c'.api.polls n = .ok o → o.isTerminal → o.orderId = id' :=
    fun c' hc' id' hack' => h.names hc' hack'
  obtain ⟨-, hfront⟩ := submits_other st
    (fun c' hc' => hnames c' (List.mem_append_left _ hc'))
    (fun c' hc' => hother c' (List.mem_append_left _ hc'))
  obtain ⟨⟨row, hrow, hstands⟩, hown⟩ := submit_own (b.submits maxRetries front st) hack
    (h.named c hc id hack) (h.polled c hc id hack)
  obtain ⟨hback, hbackFills⟩ := submits_other
    (b.submit maxRetries (b.submits maxRetries front st) c.now c.intent c.uuid c.api).2
    (fun c' hc' => hnames c' (List.mem_append_right _ (List.mem_cons_of_mem _ hc')))
    (fun c' hc' => hother c' (List.mem_append_right _ hc'))
  have hsplit : b.submits maxRetries (front ++ c :: back) st = b.submits maxRetries back
      (b.submit maxRetries (b.submits maxRetries front st) c.now c.intent c.uuid c.api).2 := by
    rw [submits, List.foldl_append]
    rfl
  rw [hsplit]
  exact ⟨⟨row, hback.trans hrow, hstands⟩, by rw [hbackFills, hown, hfront]⟩

end

/-! ### The sync -/

section
variable (now : Instant) {o : Order} (st : Store)

theorem syncOrder_other {id : String} (h : o.orderId ≠ id) :
    (syncOrder now st o).orders.get? (.live, id) = st.orders.get? (.live, id) :=
  syncOrder_of_ne fun heq => h (Prod.mk.inj heq).2.symm

/-- The skip on an equal status is harmless where a row with that status says the rest too. -/
theorem syncOrder_own
    (h : ∀ row, st.orders.get? (.live, o.orderId) = some row → row.status = o.status →
      Stands o row) :
    ∃ row, (syncOrder now st o).orders.get? (.live, o.orderId) = some row ∧ Stands o row := by
  unfold syncOrder
  cases hrow : st.orders.get? (.live, o.orderId) with
  | none => exact ⟨historyRow o now, Dict.get?_insert_self _ _ _, rfl, rfl, rfl⟩
  | some row =>
    simp only
    split
    · next heq => exact ⟨row, hrow, h row hrow heq⟩
    · exact ⟨reconciledRow o now row, Dict.get?_insert_self _ _ _, rfl, rfl, rfl⟩

/-- A row that stands keeps standing. -/
theorem syncOrders_keep {history : List Order}
    (hsame : ∀ o' ∈ history, o'.orderId = o.orderId → o' = o)
    (h : ∃ row, st.orders.get? (.live, o.orderId) = some row ∧ Stands o row) :
    ∃ row, (syncOrders now history st).orders.get? (.live, o.orderId) = some row ∧
      Stands o row := by
  induction history generalizing st with
  | nil => exact h
  | cons o' rest ih =>
    apply ih (syncOrder now st o') fun o'' ho'' => hsame o'' (List.mem_cons_of_mem _ ho'')
    by_cases hid : o'.orderId = o.orderId
    · obtain rfl : o' = o := hsame o' List.mem_cons_self hid
      obtain ⟨row, hrow, hstands⟩ := h
      apply syncOrder_own
      intro row' hrow' _
      rw [hrow] at hrow'
      cases hrow'
      exact hstands
    · rwa [syncOrder_other now st hid]

/-- After a sync over a history that has the order, its row stands. -/
theorem syncOrders_row {history : List Order}
    (hsame : ∀ o' ∈ history, o'.orderId = o.orderId → o' = o) (hmem : o ∈ history)
    (h : ∀ row, st.orders.get? (.live, o.orderId) = some row → row.status = o.status →
      Stands o row) :
    ∃ row, (syncOrders now history st).orders.get? (.live, o.orderId) = some row ∧
      Stands o row := by
  induction history generalizing st with
  | nil => cases hmem
  | cons o' rest ih =>
    have hrest : ∀ o'' ∈ rest, o''.orderId = o.orderId → o'' = o :=
      fun o'' ho'' => hsame o'' (List.mem_cons_of_mem _ ho'')
    by_cases hid : o'.orderId = o.orderId
    · obtain rfl : o' = o := hsame o' List.mem_cons_self hid
      exact syncOrders_keep now (syncOrder now st o') hrest (syncOrder_own now st h)
    · have hne : o ≠ o' := fun heq => hid (heq ▸ rfl)
      apply ih (syncOrder now st o') hrest ((List.mem_cons.mp hmem).resolve_left hne)
      rwa [syncOrder_other now st hid]

/-- A sync records no fill. -/
theorem syncOrders_fills (history : List Order) :
    (syncOrders now history st).fills = st.fills := by
  induction history generalizing st with
  | nil => rfl
  | cons o rest ih =>
    refine (ih (syncOrder now st o)).trans ?_
    unfold syncOrder
    split
    · rfl
    · split <;> rfl

end

/-! ### The ledger -/

/-- The average price is not a zero, and where something filled it is there and a poll of the
order's own submission showed the order terminal. -/
def Recordable (c : Submission) (o : Order) : Prop :=
  o.averageFilledPrice ≠ some 0 ∧
    (0 < o.filledQuantity → SeenTerminal c.api.polls ∧ o.averageFilledPrice ≠ none)

theorem truthy_eq_self (x : Option Decimal) : truthy x = x ↔ x ≠ some 0 := by
  cases x with
  | none => simp [truthy]
  | some px => simp [truthy, Option.filter_some]

theorem fillOf_unfilled (intent : OrderIntent) (now : Instant) {o : Order}
    (h : ¬ 0 < o.filledQuantity) : fillOf intent o now = none := by
  unfold fillOf
  unfold Order.filledQuantity at h
  cases hex : o.execution with
  | none => rfl
  | some ex =>
    simp only [hex] at h ⊢
    cases truthy ex.averageFilledPrice with
    | none => rfl
    | some px => exact if_neg h

theorem fillOf_unpriced (intent : OrderIntent) (now : Instant) {o : Order}
    (h : o.averageFilledPrice = none) : fillOf intent o now = none := by
  unfold fillOf
  unfold Order.averageFilledPrice at h
  cases hex : o.execution with
  | none => rfl
  | some ex =>
    have hpx : ex.averageFilledPrice = none := by simpa [hex] using h
    simp [hpx, truthy]

theorem fillOf_filled (intent : OrderIntent) (now : Instant) {o : Order}
    (hpos : 0 < o.filledQuantity) (hprice : o.averageFilledPrice ≠ none)
    (hzero : o.averageFilledPrice ≠ some 0) :
    ∃ f, fillOf intent o now = some f ∧ f.quantity = o.filledQuantity := by
  unfold fillOf
  unfold Order.filledQuantity at hpos ⊢
  unfold Order.averageFilledPrice at hprice hzero
  cases hex : o.execution with
  | none => simp [hex] at hprice
  | some ex =>
    simp only [hex, Option.bind_some] at hpos hprice hzero ⊢
    obtain ⟨px, hpx⟩ := Option.ne_none_iff_exists'.mp hprice
    rw [(truthy_eq_self _).mpr hzero, hpx]
    simp only [if_pos hpos]
    exact ⟨_, rfl, rfl⟩

section
variable {b : LiveBroker} {maxRetries : ℕ} {calls : List Submission} {final : String → Order}
  {history : List Order} {c : Submission} {id : String}

/-- Pending rows are overwritten by the sync; the others stand already. -/
theorem synced_row (h : Reports b maxRetries calls final history) (hc : c ∈ calls)
    (hack : b.acked maxRetries c = some id) (st : Store) (now : Instant) :
    ∃ row, (syncOrders now history (b.submits maxRetries calls st)).orders.get?
        (.live, (final id).orderId) = some row ∧ Stands (final id) row := by
  have hname : (final id).orderId = id := h.named c hc id hack
  have hsubmitted : (final id).status ≠ "SUBMITTED" := by
    have hterm := h.terminal c hc id hack
    intro heq
    rw [Order.isTerminal, heq] at hterm
    exact absurd hterm (by decide)
  obtain ⟨⟨row, hrow, hstands⟩, -⟩ := submits_own st h hc hack
  apply syncOrders_row now _ _ (h.listed c hc id hack)
  · intro row' hrow' heq
    rw [hname, hrow] at hrow'
    cases hrow'
    exact hstands.resolve_left fun hs => hsubmitted (heq.symm.trans hs)
  · intro o ho heq
    exact h.unchanged c hc id hack o ho (heq.trans hname)

/-- The fills are those of the submissions. -/
theorem synced_fills (h : Reports b maxRetries calls final history) (hc : c ∈ calls)
    (hack : b.acked maxRetries c = some id) {st : Store} (hnew : fillsOf id st = []) (now : Instant) :
    fillsOf (final id).orderId (syncOrders now history (b.submits maxRetries calls st)) =
      if (awaitFill c.api.polls).isSome then (fillOf c.intent (final id) c.now).toList else [] := by
  have hfills := (submits_own st h hc hack).2
  rw [hnew, List.nil_append] at hfills
  rw [fillsOf, syncOrders_fills, h.named c hc id hack]
  exact hfills

/-- **The ledger after any run of submissions and a sync.** Of every order the exchange
acknowledged it has the status, the quantity, the price and the one fill, exactly where
nothing filled or the submission itself saw the order end. -/
theorem ledger_catches_up_iff (h : Reports b maxRetries calls final history) (hc : c ∈ calls)
    (hack : b.acked maxRetries c = some id) (st : Store) (hnew : fillsOf id st = [])
    (now : Instant) :
    InLedger (final id) (syncOrders now history (b.submits maxRetries calls st)) ↔
      Recordable c (final id) := by
  obtain ⟨row, hrow, hstatus, hquantity, hprice⟩ := synced_row h hc hack st now
  have hfills := synced_fills h hc hack hnew now
  constructor
  · rintro ⟨⟨row', hrow', -, -, hprice'⟩, hfilled, -⟩
    rw [hrow] at hrow'
    cases hrow'
    refine ⟨(truthy_eq_self _).mp (hprice.symm.trans hprice'), fun hpos => ?_⟩
    obtain ⟨f, hf, -⟩ := hfilled hpos
    rw [hfills] at hf
    constructor
    · rw [← awaitFill_isSome]
      by_contra hunseen
      rw [if_neg hunseen] at hf
      cases hf
    · intro hnone
      rw [fillOf_unpriced _ _ hnone] at hf
      split at hf <;> cases hf
  · rintro ⟨hzero, hseen⟩
    refine ⟨⟨row, hrow, hstatus, hquantity, hprice.trans ((truthy_eq_self _).mpr hzero)⟩, ?_, ?_⟩
    · intro hpos
      obtain ⟨hterm, hpriced⟩ := hseen hpos
      obtain ⟨f, hf, hquantity⟩ := fillOf_filled c.intent c.now hpos hpriced hzero
      rw [hfills, if_pos ((awaitFill_isSome _).mpr hterm), hf]
      exact ⟨f, rfl, hquantity⟩
    · intro hnot
      rw [hfills, fillOf_unfilled _ _ hnot]
      exact ite_self _

end

/-! ### An order that fills after the polls -/

def resting (id : String) : Order where
  orderId := id
  symbol := "069500"
  side := .BUY
  orderType := .MARKET
  status := "PENDING"
  quantity := 10
  currency := .KRW
  orderedAt := ⟨⟨2026, 8, 17⟩, 0⟩

def bought (id : String) : Order :=
  { resting id with
    status := "FILLED"
    execution := some { filledQuantity := 10, averageFilledPrice := some 50000 } }

def marketTen : OrderIntent := .market "069500" .BUY 10 "" ""

/-- A purchase that fills before poll `n`. -/
def boughtBefore (n : ℕ) (id : String) : Submission where
  now := ⟨⟨2026, 8, 17⟩, 0⟩
  intent := marketTen
  uuid := id
  api :=
    { sellable := .ok 0
      attempts := fun _ => .sent (.response { status := 200, result := some { orderId := id } })
      polls := fun k => .ok (if k < n then resting id else bought id) }

theorem boughtBefore_acked (n : ℕ) (id : String) :
    acked {} 4 (boughtBefore n id) = some id := by
  have hprep : prepare {} marketTen (.ok 0) = .ok (some 10, none) := by decide +kernel
  unfold acked boughtBefore
  simp only [hprep]
  rfl

theorem boughtBefore_polled {n k : ℕ} {id : String} {o : Order}
    (hpoll : (boughtBefore n id).api.polls k = .ok o) (hterm : o.isTerminal) : o = bought id := by
  have ho : (if k < n then resting id else bought id) = o := Except.ok.inj hpoll
  split at ho
  · subst ho
    simp [Order.isTerminal, resting, terminalOrderStatuses] at hterm
  · exact ho.symm

/-- One order that fills at once and one that fills after the polls of its submission. -/
theorem reports_two : Reports {} 4 [boughtBefore 0 "A-1", boughtBefore 5 "A-2"] bought
    [bought "A-1", bought "A-2"] where
  distinct := by decide
  named := by
    intro c hc id hack
    rfl
  terminal := by
    intro c hc id hack
    rfl
  polled := by
    intro c hc id hack n o hpoll hterm
    simp only [List.mem_cons, List.not_mem_nil, or_false] at hc
    obtain rfl | rfl := hc <;> cases hack <;> exact boughtBefore_polled hpoll hterm
  listed := by
    intro c hc id hack
    simp only [List.mem_cons, List.not_mem_nil, or_false] at hc
    obtain rfl | rfl := hc <;> cases hack
    · exact List.mem_cons_self
    · exact List.mem_cons_of_mem _ List.mem_cons_self
  unchanged := by
    intro c hc id hack o ho heq
    simp only [List.mem_cons, List.not_mem_nil, or_false] at ho
    obtain rfl | rfl := ho <;> cases heq <;> rfl

/-- The ledger has the order that filled at once, and not the other. -/
theorem ledger_catches_up_two :
    InLedger (bought "A-1") (syncOrders ⟨⟨2026, 8, 18⟩, 0⟩ [bought "A-1", bought "A-2"]
        (submits {} 4 [boughtBefore 0 "A-1", boughtBefore 5 "A-2"] {})) ∧
      ¬ InLedger (bought "A-2") (syncOrders ⟨⟨2026, 8, 18⟩, 0⟩ [bought "A-1", bought "A-2"]
        (submits {} 4 [boughtBefore 0 "A-1", boughtBefore 5 "A-2"] {})) := by
  constructor
  · refine (ledger_catches_up_iff reports_two List.mem_cons_self (boughtBefore_acked 0 "A-1") {} rfl
      ⟨⟨2026, 8, 18⟩, 0⟩).mpr ⟨by decide +kernel, fun _ => ⟨?_, by decide +kernel⟩⟩
    exact ⟨0, by decide, ⟨bought "A-1", rfl, rfl⟩, fun m hm => (by cases hm)⟩
  · intro h
    have hrecordable := (ledger_catches_up_iff reports_two
      (List.mem_cons_of_mem _ List.mem_cons_self) (boughtBefore_acked 5 "A-2") {} rfl
      ⟨⟨2026, 8, 18⟩, 0⟩).mp h
    obtain ⟨n, hn, ⟨o, ho, hterm⟩, -⟩ := (hrecordable.2 (by decide +kernel)).1
    have ho' : o = resting "A-2" := (Except.ok.inj (ho.symm.trans (congrArg _ (if_pos hn))))
    subst ho'
    exact absurd hterm (by decide)

/-- The order that filled later is FILLED in its row and has no fill. -/
theorem late_fill_missing :
    Reports {} 4 [boughtBefore 0 "A-1", boughtBefore 5 "A-2"] bought [bought "A-1", bought "A-2"] ∧
      acked {} 4 (boughtBefore 5 "A-2") = some "A-2" ∧ 0 < (bought "A-2").filledQuantity ∧
      fillsOf "A-2" (syncOrders ⟨⟨2026, 8, 18⟩, 0⟩ [bought "A-1", bought "A-2"]
        (submits {} 4 [boughtBefore 0 "A-1", boughtBefore 5 "A-2"] {})) = [] ∧
      ¬ InLedger (bought "A-2") (syncOrders ⟨⟨2026, 8, 18⟩, 0⟩ [bought "A-1", bought "A-2"]
        (submits {} 4 [boughtBefore 0 "A-1", boughtBefore 5 "A-2"] {})) := by
  have hnone : fillsOf "A-2" (syncOrders ⟨⟨2026, 8, 18⟩, 0⟩ [bought "A-1", bought "A-2"]
      (submits {} 4 [boughtBefore 0 "A-1", boughtBefore 5 "A-2"] {})) = [] := by decide +kernel
  refine ⟨reports_two, boughtBefore_acked 5 "A-2", by decide +kernel, hnone, fun h => ?_⟩
  obtain ⟨f, hf, -⟩ := h.filled (by decide +kernel)
  have hf' : fillsOf "A-2" _ = [f] := hf
  rw [hnone] at hf'
  cases hf'

end LiveBroker
end Tqt
