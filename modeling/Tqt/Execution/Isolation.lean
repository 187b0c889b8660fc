import Tqt.Execution.Live
import Tqt.Execution.PaperSteps
import Tqt.Foundation.Noninterference
import Tqt.Risk

/-! Paper and live records in one store.

Every statement of the two brokers names its own broker: what stands in the store under one
name is a function of that broker's operations (`ledgers_isolated`). The operations are as
fine as the source's statements and transactions: a submit on paper reads and commits, a
reset deletes and funds, and a reconciliation is one step for each order of the history. -/
namespace Tqt

/-- What the store holds under one broker's name. -/
structure BrokerRows where
  orders : Dict String OrderRow
  fills : List FillRow
  positions : Dict Symbol PositionRow
  cash : Dict Currency Decimal
  equity : Dict Instant EquityRow

namespace Store

def rows (st : Store) (broker : BrokerName) : BrokerRows where
  orders := st.orders.row broker
  fills := st.fills.filter fun f => f.broker = broker
  positions := st.positions.row broker
  cash := st.cash.row broker
  equity := st.equity.row broker

/-- `equity_curve`: the newest marks of the broker, oldest first. -/
def equityCurve (st : Store) (broker : BrokerName) (limit : ℕ) :
    List ((BrokerName × Instant) × EquityRow) :=
  (((st.equity.entries.filter fun e => e.1.1 = broker).mergeSort
    fun e e' => e'.1.2 ≤ e.1.2).take limit).reverse

end Store

open PaperBroker LiveBroker

inductive LedgerOp where
  | read (pb : PaperBroker) (m : Market) (intent : OrderIntent)
  | commit (index : ℕ)
  | wipe
  | fund (starting : Decimal)
  | refresh (m : Market)
  | mark (broker : BrokerName) (row : EquityRow) (now : Instant)
  | recordSubmission (orderId : String) (row : OrderRow)
  | recordFinal (intent : OrderIntent) (final : Order) (now : Instant)
  | syncOrder (now : Instant) (order : Order)

namespace LedgerOp

def owner : LedgerOp → BrokerName
  | .mark broker _ _ => broker
  | .recordSubmission _ _ | .recordFinal _ _ _ | .syncOrder _ _ => .live
  | _ => .paper

end LedgerOp

/-- The store, and the submits on paper that have read. -/
structure SharedLedger where
  store : Store
  pending : List PendingSubmit := []

namespace SharedLedger

def exec (s : SharedLedger) : LedgerOp → SharedLedger
  | .read pb m intent =>
    let prepared := pb.prepare m intent s.store
    match prepared.2 with
    | .ready p => ⟨prepared.1, s.pending ++ [p]⟩
    | .failed _ => ⟨prepared.1, s.pending⟩
  | .commit index =>
    match s.pending[index]? with
    | some p => ⟨(PaperBroker.commit p s.store).1, s.pending.eraseIdx index⟩
    | none => s
  | .wipe => ⟨PaperBroker.wipe s.store, s.pending⟩
  | .fund starting => ⟨ensureCash starting s.store, s.pending⟩
  | .refresh m => ⟨(refreshFx m s.store).1, s.pending⟩
  | .mark broker row now => ⟨s.store.recordEquity broker row now, s.pending⟩
  | .recordSubmission orderId row => ⟨LiveBroker.recordSubmission orderId row s.store, s.pending⟩
  | .recordFinal intent final now => ⟨LiveBroker.recordFinal intent final now s.store, s.pending⟩
  | .syncOrder now order => ⟨LiveBroker.syncOrder now s.store order, s.pending⟩

/-- What a broker's operations depend on and change: its rows, and on paper the last rate and
the submits on their way. -/
def view (broker : BrokerName) (s : SharedLedger) : BrokerRows × Option (Option Decimal × List PendingSubmit) :=
  (s.store.rows broker,
    match broker with
    | .paper => some (s.store.lastUsdKrw, s.pending)
    | .live => none)

/-! ### The rows of one broker -/

section
variable {st st' : Store}

/-- The same rows, and the same rate. -/
structure Agree (broker : BrokerName) (st st' : Store) : Prop where
  rows : st.rows broker = st'.rows broker
  rate : broker = .paper → st.lastUsdKrw = st'.lastUsdKrw

theorem Agree.orders {broker : BrokerName} (h : Agree broker st st') :
    st.orders.row broker = st'.orders.row broker := congrArg BrokerRows.orders h.rows

theorem Agree.fills {broker : BrokerName} (h : Agree broker st st') :
    (st.fills.filter fun f => f.broker = broker) = st'.fills.filter fun f => f.broker = broker :=
  congrArg BrokerRows.fills h.rows

theorem Agree.positions {broker : BrokerName} (h : Agree broker st st') :
    st.positions.row broker = st'.positions.row broker := congrArg BrokerRows.positions h.rows

theorem Agree.cash {broker : BrokerName} (h : Agree broker st st') :
    st.cash.row broker = st'.cash.row broker := congrArg BrokerRows.cash h.rows

theorem Agree.equity {broker : BrokerName} (h : Agree broker st st') :
    st.equity.row broker = st'.equity.row broker := congrArg BrokerRows.equity h.rows

theorem Agree.of_tables {broker : BrokerName} (horders : st.orders.row broker = st'.orders.row broker)
    (hfills : (st.fills.filter fun f => f.broker = broker) = st'.fills.filter fun f => f.broker = broker)
    (hpositions : st.positions.row broker = st'.positions.row broker)
    (hcash : st.cash.row broker = st'.cash.row broker)
    (hequity : st.equity.row broker = st'.equity.row broker)
    (hrate : broker = .paper → st.lastUsdKrw = st'.lastUsdKrw) : Agree broker st st' := by
  refine ⟨?_, hrate⟩
  unfold Store.rows
  rw [horders, hfills, hpositions, hcash, hequity]

theorem Agree.refl (broker : BrokerName) (st : Store) : Agree broker st st := ⟨rfl, fun _ => rfl⟩

/-- A lookup under the broker's name. -/
theorem Agree.get?_orders {broker : BrokerName} (h : Agree broker st st') (id : String) :
    st.orders.get? (broker, id) = st'.orders.get? (broker, id) := by
  rw [← Dict.get?_row, h.orders, Dict.get?_row]

theorem Agree.get?_positions {broker : BrokerName} (h : Agree broker st st') (sym : Symbol) :
    st.positions.get? (broker, sym) = st'.positions.get? (broker, sym) := by
  rw [← Dict.get?_row, h.positions, Dict.get?_row]

theorem Agree.get?_cash {broker : BrokerName} (h : Agree broker st st') (currency : Currency) :
    st.cash.get? (broker, currency) = st'.cash.get? (broker, currency) := by
  rw [← Dict.get?_row, h.cash, Dict.get?_row]

theorem paper_ne_live : BrokerName.paper ≠ .live := by decide

/-! ### Paper -/

theorem refreshFx_silent (m : Market) (st : Store) : Agree .live (refreshFx m st).1 st := by
  unfold refreshFx
  split <;> exact ⟨rfl, nofun⟩

theorem Agree.refreshFx (h : Agree .paper st st') (m : Market) :
    Agree .paper (refreshFx m st).1 (PaperBroker.refreshFx m st').1 ∧
      (PaperBroker.refreshFx m st).2 = (PaperBroker.refreshFx m st').2 := by
  unfold PaperBroker.refreshFx
  split
  · exact ⟨⟨h.rows, fun _ => rfl⟩, rfl⟩
  · exact ⟨h, by rw [h.rate rfl]⟩

theorem prepare_silent (pb : PaperBroker) (m : Market) (intent : OrderIntent) (st : Store) :
    Agree .live (pb.prepare m intent st).1 st := by
  have hrate : Agree .live (fxFor m intent st).1 st := by
    unfold fxFor
    split
    · exact refreshFx_silent m st
    · exact .refl .live st
  rcases prepare_cases pb m intent st with ⟨hprepare, -⟩ | ⟨px, source, hprice, hpx⟩
  · rw [hprepare]
    exact .refl .live st
  · rw [prepare_priced hprice hpx]
    exact hrate

/-- What a submit reads, and what it leaves, depends on the paper rows. -/
theorem Agree.prepare (h : Agree .paper st st') (pb : PaperBroker) (m : Market) (intent : OrderIntent) :
    Agree .paper (pb.prepare m intent st).1 (pb.prepare m intent st').1 ∧
      (pb.prepare m intent st).2 = (pb.prepare m intent st').2 := by
  have hrate : Agree .paper (fxFor m intent st).1 (fxFor m intent st').1 ∧
      (fxFor m intent st).2 = (fxFor m intent st').2 := by
    unfold fxFor
    split
    · exact h.refreshFx m
    · exact ⟨h, rfl⟩
  have hpositions : PaperBroker.positions (fxFor m intent st).1 =
      PaperBroker.positions (fxFor m intent st').1 := by
    unfold PaperBroker.positions
    rw [hrate.1.positions]
  have hcash : PaperBroker.cash (fxFor m intent st).1 = PaperBroker.cash (fxFor m intent st').1 := by
    unfold PaperBroker.cash Dict.getD
    rw [hrate.1.get?_cash]
  unfold PaperBroker.prepare
  cases executionPrice m intent with
  | mk px source =>
    cases px with
    | none => exact ⟨h, rfl⟩
    | some px =>
      by_cases hpx : px ≤ 0
      · simp only [if_pos hpx]
        exact ⟨h, trivial⟩
      · simp only [if_neg hpx]
        refine ⟨hrate.1, ?_⟩
        rw [hrate.2]
        exact planned_congr hcash (by rw [hpositions]) px source _

theorem writePending_silent (p : PendingSubmit) (st : Store) : Agree .live (writePending p st) st := by
  apply Agree.of_tables
  · exact Dict.row_insert_of_ne _ paper_ne_live _ _
  · show ((st.fills ++ [p.trade.fillRow]).filter _) = _
    rw [List.filter_append]
    exact List.append_nil _
  · show (if _ then st.positions.erase _ else st.positions.insert _ _).row .live = _
    split
    · exact Dict.row_erase_of_ne _ paper_ne_live _
    · exact Dict.row_insert_of_ne _ paper_ne_live _ _
  · show (if _ then st.cash.insert _ _ else st.cash).row .live = _
    split
    · exact Dict.row_insert_of_ne _ paper_ne_live _ _
    · rfl
  · rfl
  · intro h
    cases h

theorem Agree.writePending (h : Agree .paper st st') (p : PendingSubmit) :
    Agree .paper (writePending p st) (PaperBroker.writePending p st') := by
  apply Agree.of_tables
  · show (st.orders.insert _ _).row .paper = (st'.orders.insert _ _).row .paper
    rw [Dict.row_insert_self, Dict.row_insert_self, h.orders]
  · show (st.fills ++ [_]).filter _ = (st'.fills ++ [_]).filter _
    rw [List.filter_append, List.filter_append, h.fills]
  · show (if _ then st.positions.erase _ else st.positions.insert _ (rowOf _ _ _ (st.positions.get? _))).row
      .paper = (if _ then st'.positions.erase _ else st'.positions.insert _
        (rowOf _ _ _ (st'.positions.get? _))).row .paper
    rw [h.get?_positions]
    split
    · rw [Dict.row_erase_self, Dict.row_erase_self, h.positions]
    · rw [Dict.row_insert_self, Dict.row_insert_self, h.positions]
  · show (if (st.cash.get? _).isSome then st.cash.insert _ _ else st.cash).row .paper =
      (if (st'.cash.get? _).isSome then st'.cash.insert _ _ else st'.cash).row .paper
    rw [h.get?_cash]
    split
    · rw [Dict.row_insert_self, Dict.row_insert_self, h.cash]
    · exact h.cash
  · exact h.equity
  · exact h.rate

theorem commit_silent (p : PendingSubmit) (st : Store) : Agree .live (commit p st).1 st := by
  unfold commit
  split
  · exact .refl .live st
  · exact writePending_silent p st

theorem Agree.commit (h : Agree .paper st st') (p : PendingSubmit) :
    Agree .paper (commit p st).1 (PaperBroker.commit p st').1 := by
  unfold PaperBroker.commit
  rw [h.get?_orders]
  split
  · exact h
  · exact h.writePending p

/-- A filter on the name keeps all rows of another name. -/
theorem row_filter_ne {κ ν : Type} [DecidableEq κ] (d : Dict (BrokerName × κ) ν) :
    (d.filter fun k _ => k.1 ≠ .paper).row .live = d.row .live := by
  rw [Dict.row_filter]
  apply Dict.ext_entries
  simp [Dict.filter]

theorem wipe_silent (st : Store) : Agree .live (wipe st) st := by
  apply Agree.of_tables
  · exact row_filter_ne _
  · show (st.fills.filter _).filter _ = _
    rw [List.filter_filter]
    apply List.filter_congr
    intro f _
    cases f.broker <;> decide
  · exact row_filter_ne _
  · exact row_filter_ne _
  · exact row_filter_ne _
  · intro h
    cases h

theorem Agree.wipe (h : Agree .paper st st') : Agree .paper (wipe st) (PaperBroker.wipe st') := by
  apply Agree.of_tables
  · show (st.orders.filter _).row .paper = (st'.orders.filter _).row .paper
    rw [Dict.row_filter, Dict.row_filter, h.orders]
  · show (st.fills.filter _).filter _ = (st'.fills.filter _).filter _
    rw [List.filter_comm, List.filter_comm _ _ st'.fills, h.fills]
  · show (st.positions.filter _).row .paper = (st'.positions.filter _).row .paper
    rw [Dict.row_filter, Dict.row_filter, h.positions]
  · show (st.cash.filter _).row .paper = (st'.cash.filter _).row .paper
    rw [Dict.row_filter, Dict.row_filter, h.cash]
  · show (st.equity.filter _).row .paper = (st'.equity.filter _).row .paper
    rw [Dict.row_filter, Dict.row_filter, h.equity]
  · exact h.rate

theorem ensureCash_silent (starting : Decimal) (st : Store) : Agree .live (ensureCash starting st) st :=
  .of_tables rfl rfl rfl (Dict.row_setDefault_of_ne _ paper_ne_live _ _) rfl nofun

theorem Agree.ensureCash (h : Agree .paper st st') (starting : Decimal) :
    Agree .paper (ensureCash starting st) (PaperBroker.ensureCash starting st') := by
  refine .of_tables h.orders h.fills h.positions ?_ h.equity h.rate
  show (st.cash.setDefault _ _).row .paper = (st'.cash.setDefault _ _).row .paper
  rw [Dict.row_setDefault_self, Dict.row_setDefault_self, h.cash]

/-! ### Equity marks -/

theorem mark_silent {broker other : BrokerName} (hne : broker ≠ other) (row : EquityRow) (now : Instant)
    (st : Store) : Agree other (st.recordEquity broker row now) st :=
  .of_tables rfl rfl rfl rfl (Dict.row_insert_of_ne _ hne _ _) fun _ => rfl

theorem Agree.mark {broker : BrokerName} (h : Agree broker st st') (row : EquityRow) (now : Instant) :
    Agree broker (st.recordEquity broker row now) (st'.recordEquity broker row now) := by
  refine .of_tables h.orders h.fills h.positions h.cash ?_ h.rate
  show (st.equity.insert _ _).row broker = (st'.equity.insert _ _).row broker
  rw [Dict.row_insert_self, Dict.row_insert_self, h.equity]

/-! ### Live -/

theorem live_ne_paper : BrokerName.live ≠ .paper := by decide

/-- An order row of the live broker is written. -/
theorem liveOrder_silent (orderId : String) (row : OrderRow) (st : Store) :
    Agree .paper { st with orders := st.orders.insert (.live, orderId) row } st :=
  .of_tables (Dict.row_insert_of_ne _ live_ne_paper _ _) rfl rfl rfl rfl fun _ => rfl

theorem Agree.liveOrder (h : Agree .live st st') (orderId : String) (row : OrderRow) :
    Agree .live { st with orders := st.orders.insert (.live, orderId) row }
      { st' with orders := st'.orders.insert (.live, orderId) row } := by
  refine .of_tables ?_ h.fills h.positions h.cash h.equity nofun
  show (st.orders.insert _ _).row .live = (st'.orders.insert _ _).row .live
  rw [Dict.row_insert_self, Dict.row_insert_self, h.orders]

/-- A fill is of the live broker. -/
theorem fillOf_live (intent : OrderIntent) (final : Order) (now : Instant) :
    ∀ f ∈ (fillOf intent final now).toList, f.broker = .live := by
  intro f hf
  rw [Option.mem_toList] at hf
  unfold fillOf at hf
  split at hf
  · cases hf
  · split at hf
    · cases hf
    · split at hf
      · cases hf
        rfl
      · cases hf

theorem liveFills_silent (intent : OrderIntent) (final : Order) (now : Instant) (st : Store) :
    Agree .paper { st with fills := st.fills ++ (fillOf intent final now).toList } st := by
  refine .of_tables rfl ?_ rfl rfl rfl fun _ => rfl
  show (st.fills ++ (fillOf intent final now).toList).filter _ = _
  have hnone : ((fillOf intent final now).toList.filter fun f => f.broker = .paper) = [] := by
    rw [List.filter_eq_nil_iff]
    intro f hf
    rw [fillOf_live intent final now f hf]
    decide
  rw [List.filter_append, hnone, List.append_nil]

theorem Agree.liveFills (h : Agree .live st st') (fills : List FillRow) :
    Agree .live { st with fills := st.fills ++ fills } { st' with fills := st'.fills ++ fills } := by
  refine .of_tables h.orders ?_ h.positions h.cash h.equity nofun
  show (st.fills ++ _).filter _ = (st'.fills ++ _).filter _
  rw [List.filter_append, List.filter_append, h.fills]

theorem Agree.trans {broker : BrokerName} {st'' : Store} (h : Agree broker st st')
    (h' : Agree broker st' st'') : Agree broker st st'' :=
  ⟨h.rows.trans h'.rows, fun hb => (h.rate hb).trans (h'.rate hb)⟩

theorem recordFinal_silent (intent : OrderIntent) (final : Order) (now : Instant) (st : Store) :
    Agree .paper (recordFinal intent final now st) st := by
  unfold recordFinal
  cases st.orders.get? (.live, final.orderId) with
  | none => exact liveFills_silent intent final now st
  | some row =>
    exact (liveFills_silent intent final now
      { st with orders := st.orders.insert (.live, final.orderId) (finalRow final now row) }).trans
        (liveOrder_silent _ _ st)

theorem Agree.recordFinal (h : Agree .live st st') (intent : OrderIntent) (final : Order) (now : Instant) :
    Agree .live (recordFinal intent final now st) (LiveBroker.recordFinal intent final now st') := by
  unfold LiveBroker.recordFinal
  rw [h.get?_orders]
  cases st'.orders.get? (.live, final.orderId) with
  | none => exact h.liveFills _
  | some row => exact (h.liveOrder final.orderId (finalRow final now row)).liveFills _

theorem syncOrder_silent (now : Instant) (st : Store) (o : Order) : Agree .paper (syncOrder now st o) st := by
  unfold syncOrder
  split
  · exact liveOrder_silent _ _ st
  · split
    · exact .refl .paper st
    · exact liveOrder_silent _ _ st

theorem Agree.syncOrder (h : Agree .live st st') (now : Instant) (o : Order) :
    Agree .live (syncOrder now st o) (LiveBroker.syncOrder now st' o) := by
  unfold LiveBroker.syncOrder
  rw [h.get?_orders]
  split
  · exact h.liveOrder _ _
  · split
    · exact h
    · exact h.liveOrder _ _

end

/-! ### All of them -/

theorem view_eq {broker : BrokerName} {s t : SharedLedger} :
    view broker s = view broker t ↔
      Agree broker s.store t.store ∧ (broker = .paper → s.pending = t.pending) := by
  cases broker with
  | paper =>
    simp only [view, Prod.mk.injEq, Option.some.injEq]
    constructor
    · intro h
      obtain ⟨hrows, hrate, hpending⟩ := h
      exact ⟨⟨hrows, fun _ => hrate⟩, fun _ => hpending⟩
    · intro h
      obtain ⟨⟨hrows, hrate⟩, hpending⟩ := h
      exact ⟨hrows, hrate rfl, hpending trivial⟩
  | live =>
    simp only [view, Prod.mk.injEq, and_true]
    exact ⟨fun hrows => ⟨⟨hrows, nofun⟩, nofun⟩, fun h => h.1.rows⟩

/-- An operation on paper does not show in the live view. -/
theorem paper_silent (s : SharedLedger) {a : LedgerOp} (ha : a.owner = .paper) :
    view .live (exec s a) = view .live s := by
  rw [view_eq]
  refine ⟨?_, nofun⟩
  cases a with
  | read pb m intent =>
    have hprepare := prepare_silent pb m intent s.store
    simp only [exec]
    split <;> exact hprepare
  | commit index =>
    simp only [exec]
    split
    · exact commit_silent _ _
    · exact .refl .live _
  | wipe => exact wipe_silent _
  | fund starting => exact ensureCash_silent _ _
  | refresh m => exact refreshFx_silent _ _
  | mark broker row now =>
    cases ha
    exact mark_silent paper_ne_live _ _ _
  | recordSubmission orderId row => cases ha
  | recordFinal intent final now => cases ha
  | syncOrder now order => cases ha

theorem live_silent (s : SharedLedger) {a : LedgerOp} (ha : a.owner = .live) :
    view .paper (exec s a) = view .paper s := by
  rw [view_eq]
  cases a with
  | mark broker row now =>
    cases ha
    exact ⟨mark_silent live_ne_paper _ _ _, fun _ => rfl⟩
  | recordSubmission orderId row => exact ⟨liveOrder_silent _ _ _, fun _ => rfl⟩
  | recordFinal intent final now => exact ⟨recordFinal_silent _ _ _ _, fun _ => rfl⟩
  | syncOrder now order => exact ⟨syncOrder_silent _ _ _, fun _ => rfl⟩
  | _ => cases ha

/-- An operation on paper acts on the paper view. -/
theorem paper_consistent {s t : SharedLedger} (h : view .paper s = view .paper t) {a : LedgerOp}
    (ha : a.owner = .paper) : view .paper (exec s a) = view .paper (exec t a) := by
  rw [view_eq] at h ⊢
  obtain ⟨h, hpending⟩ := h
  have hpending := hpending rfl
  cases a with
  | read pb m intent =>
    obtain ⟨hstore, hprepared⟩ := h.prepare pb m intent
    simp only [exec, hprepared, hpending]
    split <;> exact ⟨hstore, fun _ => rfl⟩
  | commit index =>
    simp only [exec, hpending]
    split
    · exact ⟨h.commit _, fun _ => rfl⟩
    · exact ⟨h, fun _ => hpending⟩
  | wipe => exact ⟨h.wipe, fun _ => hpending⟩
  | fund starting => exact ⟨h.ensureCash _, fun _ => hpending⟩
  | refresh m => exact ⟨(h.refreshFx m).1, fun _ => hpending⟩
  | mark broker row now =>
    cases ha
    exact ⟨h.mark _ _, fun _ => hpending⟩
  | recordSubmission orderId row => cases ha
  | recordFinal intent final now => cases ha
  | syncOrder now order => cases ha

theorem live_consistent {s t : SharedLedger} (h : view .live s = view .live t) {a : LedgerOp}
    (ha : a.owner = .live) : view .live (exec s a) = view .live (exec t a) := by
  rw [view_eq] at h ⊢
  refine ⟨?_, nofun⟩
  cases a with
  | mark broker row now =>
    cases ha
    exact h.1.mark _ _
  | recordSubmission orderId row => exact h.1.liveOrder _ _
  | recordFinal intent final now => exact h.1.recordFinal _ _ _
  | syncOrder now order => exact h.1.syncOrder _ _
  | _ => cases ha

theorem isolated : Isolated exec LedgerOp.owner view where
  silent := by
    intro broker s a hne
    cases ha : a.owner with
    | paper =>
      cases broker with
      | paper => exact absurd ha hne
      | live => exact paper_silent s ha
    | live =>
      cases broker with
      | paper => exact live_silent s ha
      | live => exact absurd ha hne
  consistent := by
    intro s t a h
    cases ha : a.owner with
    | paper =>
      rw [ha] at h
      exact paper_consistent h ha
    | live =>
      rw [ha] at h
      exact live_consistent h ha

/-! ### What is read of the rows -/

theorem ordersToday_rows {rm : RiskManager} {st st' : Store}
    (h : st.rows rm.brokerName = st'.rows rm.brokerName) (now : Instant) :
    rm.ordersToday st now = rm.ordersToday st' now := by
  have hsplit : ∀ u : Store, rm.ordersToday u now = (((u.rows rm.brokerName).orders.entries.map
      fun e => ((rm.brokerName, e.1), e.2)).filter fun e => e.2.submittedAt.date = now.date).length := by
    intro u
    rw [show (u.rows rm.brokerName).orders = u.orders.row rm.brokerName from rfl, ← Dict.filter_entries, List.filter_filter]
    unfold RiskManager.ordersToday
    simp only [Bool.decide_and, Bool.and_comm]
  rw [hsplit, hsplit, h]

theorem equityCurve_rows {broker : BrokerName} {st st' : Store} (h : st.rows broker = st'.rows broker)
    (limit : ℕ) : st.equityCurve broker limit = st'.equityCurve broker limit := by
  unfold Store.equityCurve
  rw [Dict.filter_entries, Dict.filter_entries, show st.equity.row broker = st'.equity.row broker from
    congrArg BrokerRows.equity h]

theorem firstEquityOfDay_rows {broker : BrokerName} {st st' : Store}
    (h : st.rows broker = st'.rows broker) (day : Date) :
    st.firstEquityOfDay broker day = st'.firstEquityOfDay broker day := by
  have hsplit : ∀ u : Store, u.equityOn broker day = (((u.rows broker).equity.entries.map
      fun e => ((broker, e.1), e.2)).filter fun e => e.1.2.date = day) := by
    intro u
    rw [show (u.rows broker).equity = u.equity.row broker from rfl, ← Dict.filter_entries, List.filter_filter]
    unfold Store.equityOn
    simp only [Bool.decide_and, Bool.and_comm]
  unfold Store.firstEquityOfDay
  rw [hsplit, hsplit, h]

/-- **Paper and live are isolated**: after any interleaving of operations of the two, the rows of
one, that a risk manager of its watches, are those that its own operations alone produce, and
so are its order count of the day, its equity curve and its first mark of a day. -/
theorem ledgers_isolated (rm : RiskManager) (ops : List LedgerOp) (s : SharedLedger) :
    (ops.foldl exec s).store.rows rm.brokerName =
        ((ops.filter fun a => a.owner = rm.brokerName).foldl exec s).store.rows rm.brokerName ∧
      (∀ now, rm.ordersToday (ops.foldl exec s).store now =
        rm.ordersToday ((ops.filter fun a => a.owner = rm.brokerName).foldl exec s).store now) ∧
      (∀ limit, (ops.foldl exec s).store.equityCurve rm.brokerName limit =
        ((ops.filter fun a => a.owner = rm.brokerName).foldl exec s).store.equityCurve
          rm.brokerName limit) ∧
      ∀ day, (ops.foldl exec s).store.firstEquityOfDay rm.brokerName day =
        ((ops.filter fun a => a.owner = rm.brokerName).foldl exec s).store.firstEquityOfDay
          rm.brokerName day := by
  have hview := isolated.view_foldl rm.brokerName ops (s := s) rfl
  have hrows := congrArg Prod.fst hview
  exact ⟨hrows, ordersToday_rows hrows, equityCurve_rows hrows, firstEquityOfDay_rows hrows⟩

/-- A call on paper is its reads and, if they come to a trade, its transaction. -/
theorem exec_submit (s : SharedLedger) (hidle : s.pending = []) (pb : PaperBroker) (m : Market)
    (intent : OrderIntent) : (([.read pb m intent, .commit 0] : List LedgerOp).foldl exec s).store =
      (pb.attempt m intent s.store).1 := by
  rw [attempt_eq]
  simp only [List.foldl_cons, List.foldl_nil, exec]
  cases pb.prepare m intent s.store with
  | mk st prepared =>
    cases prepared with
    | failed why => simp [hidle]
    | ready p =>
      simp only [hidle, List.nil_append, List.getElem?_cons_zero]
      split <;> rfl

/-- A reset is its two steps. -/
theorem exec_reset (s : SharedLedger) (starting : Decimal) :
    (([.wipe, .fund starting] : List LedgerOp).foldl exec s).store = reset starting s.store := rfl

/-- A reconciliation is one step for each order. -/
theorem exec_syncOrders (s : SharedLedger) (now : Instant) (history : List Order) :
    ((history.map (LedgerOp.syncOrder now)).foldl exec s).store = syncOrders now history s.store := by
  induction history generalizing s with
  | nil => rfl
  | cons order rest ih => exact ih _

end SharedLedger
end Tqt
