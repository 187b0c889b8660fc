import Tqt.Execution.Live
import Tqt.Foundation.Sweep

/-! Reconciling the ledger with the pages of the order history.

`iterOrders` hands out the orders page by page, `syncLedger` writes each as it comes and counts the
rows it wrote. An order has its turn once, and its turn touches its own row only, so after a sync
every order that was fetched has its row with the status of the exchange, and nothing else has
changed (`syncLedger_reconciles`). Another sync over the same history finds nothing to do. -/
namespace Tqt

/-- What `GET /api/v1/orders` is asked. -/
structure OrdersRequest where
  status : String
  symbol : Option Symbol := none
  fromDate : Option String := none
  toDate : Option String := none
  cursor : Option String
  limit : ℕ

structure OrdersPage where
  orders : List Order := []
  nextCursor : Option String := none
  hasNext : Bool := false

/-- What `list_orders` gives for the `n`-th page of a call. -/
abbrev OrderSource := ℕ → OrdersRequest → Except TossError OrdersPage

namespace TossClient

/-- The loop of `iter_orders` with `left` pages to go: the orders it yields, and the error that
ends it, if one does. -/
def iterOrdersFrom (ask : OrderSource) (status : String) (limit : ℕ) :
    ℕ → ℕ → Option String → List Order × Option TossError
  | 0, _, _ => ([], none)
  | left + 1, n, cursor =>
    match ask n { status, cursor, limit } with
    | .error e => ([], some e)
    | .ok page =>
      if ¬ page.hasNext ∨ page.nextCursor.getD "" = "" then (page.orders, none)
      else
        let rest := iterOrdersFrom ask status limit left (n + 1) page.nextCursor
        (page.orders ++ rest.1, rest.2)

def iterOrders (ask : OrderSource) (status : String := "CLOSED") (limit : ℕ := 100)
    (maxPages : ℕ := 50) : List Order × Option TossError :=
  iterOrdersFrom ask status limit maxPages 0 none

end TossClient

namespace LiveBroker
open TossClient

/-- The row of the order is there, with the status of the exchange. -/
def Current (st : Store) (o : Order) : Prop :=
  ∃ row, st.orders.get? (.live, o.orderId) = some row ∧ row.status = o.status

instance (st : Store) (o : Order) : Decidable (Current st o) :=
  decidable_of_iff ((st.orders.get? (.live, o.orderId)).any fun row => row.status = o.status)
    (by simp [Current, Option.any_eq_true])

/-- The body of the loop of `sync_orders`: one order and the time it is written, the ledger and
the number of rows written so far. -/
def reconcile (acc : Store × ℕ) (read : Order × Instant) : Store × ℕ :=
  (syncOrder read.2 acc.1 read.1, if Current acc.1 read.1 then acc.2 else acc.2 + 1)

/-- The orders of a sync, each with the time it is written. -/
def stamped (now : ℕ → Instant) (orders : List Order) : List (Order × Instant) :=
  orders.zipIdx.map fun x => (x.1, now x.2)

/-- The closed orders `sync_orders` fetches. -/
def fetched (ask : OrderSource) : List Order × Option TossError := iterOrders ask "CLOSED" 100 5

/-- `sync_orders`: the number of rows it wrote, or what it raises, and the ledger it leaves. -/
def syncLedger (now : ℕ → Instant) (ask : OrderSource) (st : Store) : Except TossError ℕ × Store :=
  let (orders, failed) := fetched ask
  let (st', updated) := (stamped now orders).foldl reconcile (st, 0)
  (match failed with
    | some e => .error e
    | none => .ok updated, st')

/-- What a row keeps when its order is reconciled. -/
structure SameOrder (row row' : OrderRow) : Prop where
  submittedAt : row'.submittedAt = row.submittedAt
  clientOrderId : row'.clientOrderId = row.clientOrderId
  strategy : row'.strategy = row.strategy
  reason : row'.reason = row.reason
  quantity : row'.quantity = row.quantity
  side : row'.side = row.side

/-- What a sync over these orders does to the ledger. -/
structure Reconciles (orders : List Order) (st st' : Store) : Prop where
  /-- Every order has exactly one row, with the status of the exchange. -/
  row : ∀ o ∈ orders, ∃ row, (st'.orders.entries.filter fun e => e.1 = (.live, o.orderId)) =
    [((.live, o.orderId), row)] ∧ row.status = o.status
  others : ∀ key, key ∉ orders.map (fun o => (BrokerName.live, o.orderId)) →
    st'.orders.get? key = st.orders.get? key
  known : ∀ key row, st.orders.get? key = some row →
    ∃ row', st'.orders.get? key = some row' ∧ SameOrder row row'
  rest : ∃ table, st' = { st with orders := table }

/-! ### One order -/

section
variable {st : Store} {o : Order}

theorem SameOrder.refl (row : OrderRow) : SameOrder row row := ⟨rfl, rfl, rfl, rfl, rfl, rfl⟩

/-- The row of an order after its turn. -/
theorem syncOrder_current (now : Instant) :
    ∃ row', (syncOrder now st o).orders.get? (.live, o.orderId) = some row' ∧ row'.status = o.status ∧
      ∀ row, st.orders.get? (.live, o.orderId) = some row → SameOrder row row' := by
  unfold syncOrder
  cases hrow : st.orders.get? (.live, o.orderId) with
  | none =>
    refine ⟨historyRow o now, Dict.get?_insert_self _ _ _, rfl, fun row h => ?_⟩
    cases h
  | some row =>
    simp only
    split
    · next hstatus =>
      refine ⟨row, hrow, hstatus, fun row' h => ?_⟩
      cases h
      exact .refl row
    · refine ⟨reconciledRow o now row, Dict.get?_insert_self _ _ _, rfl, fun row' h => ?_⟩
      cases h
      exact ⟨rfl, rfl, rfl, rfl, rfl, rfl⟩

theorem syncOrder_rest (now : Instant) : ∃ table, syncOrder now st o = { st with orders := table } := by
  unfold syncOrder
  split
  · exact ⟨_, rfl⟩
  · split
    · exact ⟨st.orders, rfl⟩
    · exact ⟨_, rfl⟩

/-- An order whose row is up to date is passed over. -/
theorem reconcile_current {acc : Store × ℕ} {read : Order × Instant} (h : Current acc.1 read.1) :
    reconcile acc read = acc := by
  obtain ⟨row, hrow, hstatus⟩ := h
  have hcurrent : Current acc.1 read.1 := ⟨row, hrow, hstatus⟩
  unfold reconcile syncOrder
  rw [if_pos hcurrent, hrow]
  simp only [hstatus, if_true]

theorem reconcile_local : Local reconcile (fun read => ((.live, read.1.orderId) : BrokerName × String))
    fun acc key => acc.1.orders.get? key :=
  fun _ _ _ hkey => syncOrder_of_ne hkey

end

/-! ### The history -/

section
variable {orders : List Order}

theorem stamped_map (now : ℕ → Instant) (orders : List Order) :
    (stamped now orders).map Prod.fst = orders := by
  rw [stamped, List.map_map]
  exact List.zipIdx_map_fst 0 orders

theorem stamped_keys (now : ℕ → Instant) (orders : List Order) :
    ((stamped now orders).map fun read => ((.live, read.1.orderId) : BrokerName × String)) =
      orders.map fun o => (.live, o.orderId) := by
  conv_rhs => rw [← stamped_map now orders, List.map_map]
  rfl

/-- With one time for all of them the rows are those of `syncOrders`. -/
theorem reconciled_store (now : Instant) (orders : List Order) (acc : Store × ℕ) :
    ((stamped (fun _ => now) orders).foldl reconcile acc).1 = syncOrders now orders acc.1 := by
  have hreads (reads : List (Order × Instant)) (hnow : ∀ read ∈ reads, read.2 = now) (acc : Store × ℕ) :
      (reads.foldl reconcile acc).1 = syncOrders now (reads.map Prod.fst) acc.1 := by
    induction reads generalizing acc with
    | nil => rfl
    | cons read rest ih =>
      rw [List.foldl_cons, ih fun r hr => hnow r (List.mem_cons_of_mem read hr), reconcile,
        hnow read List.mem_cons_self]
      rfl
  rw [hreads, stamped_map]
  intro read hread
  obtain ⟨_, -, rfl⟩ := List.mem_map.mp hread
  rfl

theorem reconciled_rest (reads : List (Order × Instant)) (acc : Store × ℕ) :
    ∃ table, (reads.foldl reconcile acc).1 = { acc.1 with orders := table } := by
  induction reads generalizing acc with
  | nil => exact ⟨acc.1.orders, rfl⟩
  | cons read rest ih =>
    obtain ⟨first, hfirst⟩ : ∃ first, syncOrder read.2 acc.1 read.1 = { acc.1 with orders := first } :=
      syncOrder_rest read.2
    obtain ⟨table, htable⟩ := ih (reconcile acc read)
    refine ⟨table, ?_⟩
    rw [List.foldl_cons, htable, reconcile, hfirst]

/-- A history that is up to date is passed over. -/
theorem reconciled_current {reads : List (Order × Instant)} {acc : Store × ℕ}
    (h : ∀ read ∈ reads, Current acc.1 read.1) : reads.foldl reconcile acc = acc := by
  induction reads with
  | nil => rfl
  | cons read rest ih =>
    rw [List.foldl_cons, reconcile_current (h read List.mem_cons_self)]
    exact ih fun r hr => h r (List.mem_cons_of_mem read hr)

/-- **One pass over a history** that has each order once. -/
theorem reconciles (hdistinct : (orders.map Order.orderId).Nodup) (now : ℕ → Instant) (st : Store) :
    Reconciles orders st ((stamped now orders).foldl reconcile (st, 0)).1 := by
  have hkeys : ((stamped now orders).map fun read =>
      ((.live, read.1.orderId) : BrokerName × String)).Nodup := by
    rw [stamped_keys]
    exact List.Nodup.of_map Prod.snd (by rwa [List.map_map])
  have hrow : ∀ o ∈ orders, ∃ row',
      ((stamped now orders).foldl reconcile (st, 0)).1.orders.get? (.live, o.orderId) = some row' ∧
        row'.status = o.status ∧
        ∀ row, st.orders.get? (.live, o.orderId) = some row → SameOrder row row' := by
    intro o ho
    rw [← stamped_map now orders] at ho
    obtain ⟨read, hread, rfl⟩ := List.mem_map.mp ho
    obtain ⟨front, back, hsplit⟩ := List.append_of_mem hread
    rw [hsplit] at hkeys ⊢
    obtain ⟨hstart, hend⟩ := reconcile_local.turn hkeys (st, 0)
    simp only at hstart hend
    rw [hend, ← hstart]
    exact syncOrder_current read.2
  have hothers : ∀ key, key ∉ orders.map (fun o => (BrokerName.live, o.orderId)) →
      ((stamped now orders).foldl reconcile (st, 0)).1.orders.get? key = st.orders.get? key := by
    intro key hkey
    rw [← stamped_keys now orders] at hkey
    exact reconcile_local.foldl _ hkey (st, 0)
  refine ⟨fun o ho => ?_, hothers, fun key row hknown => ?_, reconciled_rest _ _⟩
  · obtain ⟨row', hrow', hstatus, -⟩ := hrow o ho
    exact ⟨row', Dict.filter_key_eq hrow', hstatus⟩
  · by_cases hkey : key ∈ orders.map fun o => (BrokerName.live, o.orderId)
    · obtain ⟨o, ho, rfl⟩ := List.mem_map.mp hkey
      obtain ⟨row', hrow', -, hsame⟩ := hrow o ho
      exact ⟨row', hrow', hsame row hknown⟩
    · exact ⟨row, (hothers key hkey).trans hknown, .refl row⟩

end

/-- **Reconciliation is idempotent and local.** -/
theorem syncLedger_reconciles (now now' : ℕ → Instant) {ask ask' : OrderSource} (st : Store)
    (hdistinct : ((fetched ask).1.map Order.orderId).Nodup) (hsame : fetched ask' = fetched ask) :
    Reconciles (fetched ask).1 st (syncLedger now ask st).2 ∧
      (syncLedger now' ask' (syncLedger now ask st).2).2 = (syncLedger now ask st).2 ∧
      ((fetched ask).2 = none → (syncLedger now' ask' (syncLedger now ask st).2).1 = .ok 0) := by
  have hreconciles : Reconciles (fetched ask).1 st (syncLedger now ask st).2 :=
    reconciles hdistinct now st
  generalize (syncLedger now ask st).2 = after at hreconciles ⊢
  have hagain : (stamped now' (fetched ask).1).foldl reconcile (after, 0) = (after, 0) := by
    refine reconciled_current fun read hread => ?_
    have ho : read.1 ∈ (fetched ask).1 := by
      rw [← stamped_map now' (fetched ask).1]
      exact List.mem_map_of_mem hread
    obtain ⟨row, hrow, hstatus⟩ := hreconciles.row read.1 ho
    have hentry := List.mem_singleton_self ((BrokerName.live, read.1.orderId), row)
    rw [← hrow] at hentry
    exact ⟨row, (Dict.get?_eq_some _ _ _).mpr (List.mem_filter.mp hentry).1, hstatus⟩
  have hledger : syncLedger now' ask' after =
      (match (fetched ask).2 with
        | some e => .error e
        | none => .ok 0, after) := by
    unfold syncLedger
    rw [hsame]
    simp only [hagain]
  rw [hledger]
  exact ⟨hreconciles, rfl, fun hok => by rw [hok]⟩

/-- A closed order of ten shares. -/
def closed (id : String) : Order where
  orderId := id
  symbol := "069500"
  side := .BUY
  orderType := .MARKET
  status := "FILLED"
  quantity := 10
  currency := .KRW
  orderedAt := ⟨⟨2026, 8, 18⟩, 0⟩

/-- Two pages of one order each. -/
def twoPages : OrderSource := fun n _ =>
  if n = 0 then .ok { orders := [closed "A-1"], nextCursor := some "A-1", hasNext := true }
  else .ok { orders := [closed "A-2"] }

/-- The first of the two orders is known as it was submitted. -/
def submittedLedger : Store where
  orders := Dict.ofList
    [((.live, "A-1"), { historyRow (closed "A-1") ⟨⟨2026, 8, 18⟩, 0⟩ with status := "SUBMITTED" })]

def nextDay : ℕ → Instant := fun _ => ⟨⟨2026, 8, 19⟩, 0⟩

/-- Both orders are written, and a second sync finds nothing to do. -/
theorem syncLedger_reconciles_twoPages :
    (syncLedger nextDay twoPages submittedLedger).1 = .ok 2 ∧
      Reconciles [closed "A-1", closed "A-2"] submittedLedger
        (syncLedger nextDay twoPages submittedLedger).2 ∧
      (syncLedger nextDay twoPages (syncLedger nextDay twoPages submittedLedger).2).1 = .ok 0 := by
  have hnodup : ((fetched twoPages).1.map Order.orderId).Nodup := by decide
  obtain ⟨hreconciles, -, hnone⟩ := syncLedger_reconciles nextDay nextDay submittedLedger hnodup rfl
  exact ⟨rfl, hreconciles, hnone rfl⟩

end LiveBroker
end Tqt
