import Tqt.Execution.Isolation
import Tqt.Execution.PaperShared
import Tqt.Foundation.Transactions

/-! The ledger under crashes.

The writes of the two brokers, statement by statement as they are sent: a submit on paper is one
transaction over four tables, a reset one over five and a statement behind it. Processes come and
go at any statement. On paper every order on file has its fill and every fill its order at every
moment (`Matched`), whoever writes beside; and while the calls on paper do not overlap, the
account is what the calls that got to their end leave, one after another (`crash_consistent`). A
reset that was cut off is finished by the next start. -/
namespace Tqt
open PaperBroker

/-! ### Statements -/

namespace PaperBroker

/-- `_set_cash`. -/
def setCash (amount : Decimal) (st : Store) : Store :=
  { st with
    cash := if (st.cash.get? (.paper, .KRW)).isSome
      then st.cash.insert (.paper, .KRW) amount else st.cash }

def insertOrder (key : BrokerName × String) (row : OrderRow) (st : Store) : Option Store :=
  if (st.orders.get? key).isSome then none else some { st with orders := st.orders.insert key row }

def insertFill (row : FillRow) (st : Store) : Store := { st with fills := st.fills ++ [row] }

/-- The row `_ensure_cash` inserts. -/
def insertCash (starting : Decimal) (st : Store) : Option Store :=
  if (st.cash.get? (.paper, .KRW)).isSome then none
  else some { st with cash := st.cash.insert (.paper, .KRW) starting }

def deleteOrders (st : Store) : Store :=
  { st with orders := st.orders.filter fun k _ => k.1 ≠ .paper }

def deleteFills (st : Store) : Store :=
  { st with fills := st.fills.filter fun f => f.broker ≠ .paper }

def deletePositions (st : Store) : Store :=
  { st with positions := st.positions.filter fun k _ => k.1 ≠ .paper }

def deleteEquity (st : Store) : Store :=
  { st with equity := st.equity.filter fun k _ => k.1 ≠ .paper }

def deleteCash (st : Store) : Store :=
  { st with cash := st.cash.filter fun k _ => k.1 ≠ .paper }

end PaperBroker

namespace LiveBroker

/-- The UPDATE of `_record_final`. -/
def updateOrder (final : Order) (now : Instant) (st : Store) : Store :=
  { st with
    orders := match st.orders.get? (.live, final.orderId) with
      | some row => st.orders.insert (.live, final.orderId) (finalRow final now row)
      | none => st.orders }

/-- The INSERT … ON CONFLICT DO UPDATE of `sync_orders`. -/
def upsertOrder (now : Instant) (o : Order) (st : Store) : Store :=
  { st with
    orders := st.orders.insert (.live, o.orderId)
      (((st.orders.get? (.live, o.orderId)).map (reconciledRow o now)).getD (historyRow o now)) }

end LiveBroker

/-- What the brokers write: the rate, a trade, the two halves of a reset, a mark, and what the live
broker records. -/
inductive LedgerWrite where
  | rate (fx : Decimal)
  | trade (r : PaperBroker.Reading)
  | wipe
  | fund (starting : Decimal)
  | mark (broker : BrokerName) (row : EquityRow) (now : Instant)
  | recordSubmission (orderId : String) (row : OrderRow)
  | recordFinal (intent : OrderIntent) (final : Order) (now : Instant)
  | syncOrder (now : Instant) (order : Order)

namespace LedgerWrite

/-- A statement that does not raise. -/
def always (f : Store → Store) (st : Store) : Option Store := some (f st)

def write : LedgerWrite → DbWrite Store
  | .rate fx => .single (always fun st => { st with lastUsdKrw := some fx })
  | .trade r =>
    let t := r.pending.trade
    .atomic [always (setCash (r.pending.cash + t.cashKrw)),
      always (writePosition (positionAfter t r.pending.held) t.intent.strategy t.now),
      insertOrder (.paper, t.orderId) t.orderRow, always (insertFill t.fillRow)]
  | .wipe =>
    .atomic [always deleteOrders, always deleteFills, always deletePositions, always deleteEquity,
      always deleteCash]
  | .fund starting => .single (insertCash starting)
  | .mark broker row now => .single (always fun st => st.recordEquity broker row now)
  | .recordSubmission orderId row => .single (always (LiveBroker.recordSubmission orderId row))
  | .recordFinal intent final now =>
    .atomic (always (LiveBroker.updateOrder final now) ::
      (LiveBroker.fillOf intent final now).toList.map fun row => always (insertFill row))
  | .syncOrder now order => .single (always (LiveBroker.upsertOrder now order))

/-- It is a part of a call on the paper account. -/
def account : LedgerWrite → Bool
  | .trade _ | .wipe | .fund _ => true
  | _ => false

/-- The call that is done when this is written. -/
def call : LedgerWrite → Option Call
  | .trade r => some r.call
  | .fund starting => some (.reset starting)
  | _ => none

variable {st st' : Store}

/-- **A trade's transaction** is the commit of the submit. -/
theorem trade_effect (r : PaperBroker.Reading) (h : (LedgerWrite.trade r).write.effect st = some st') :
    PaperBroker.commit r.pending st = (st', true) := by
  have horders : insertOrder (.paper, r.pending.trade.orderId) r.pending.trade.orderRow
      (writePosition (positionAfter r.pending.trade r.pending.held) r.pending.trade.intent.strategy
        r.pending.trade.now (setCash (r.pending.cash + r.pending.trade.cashKrw) st)) =
      if (st.orders.get? (.paper, r.pending.trade.orderId)).isSome then none
      else some { writePosition (positionAfter r.pending.trade r.pending.held)
        r.pending.trade.intent.strategy r.pending.trade.now
        (setCash (r.pending.cash + r.pending.trade.cashKrw) st) with
          orders := st.orders.insert (.paper, r.pending.trade.orderId) r.pending.trade.orderRow } := rfl
  have heffect : (insertOrder (.paper, r.pending.trade.orderId) r.pending.trade.orderRow
      (writePosition (positionAfter r.pending.trade r.pending.held) r.pending.trade.intent.strategy
        r.pending.trade.now (setCash (r.pending.cash + r.pending.trade.cashKrw) st))).bind
      (fun st => some (insertFill r.pending.trade.fillRow st)) = some st' := h
  rw [horders] at heffect
  unfold PaperBroker.commit
  split at heffect
  · cases heffect
  · next hnew =>
    rw [if_neg hnew]
    cases heffect
    rfl

/-- **The transaction of a reset** wipes the account. -/
theorem wipe_effect : LedgerWrite.wipe.write.effect st = some (PaperBroker.wipe st) := rfl

theorem fund_effect {starting : Decimal} (h : (LedgerWrite.fund starting).write.effect st = some st') :
    st.cash.get? (.paper, .KRW) = none ∧ st' = ensureCash starting st := by
  have hinsert : insertCash starting st = some st' := h
  unfold insertCash at hinsert
  split at hinsert
  · cases hinsert
  · next hnone =>
    cases hinsert
    refine ⟨by simpa using hnone, ?_⟩
    unfold ensureCash Dict.setDefault
    rw [if_neg hnone]

/-- The transaction of a final state is `_record_final`. -/
theorem final_effect (intent : OrderIntent) (final : Order) (now : Instant) :
    (LedgerWrite.recordFinal intent final now).write.effect st =
      some (LiveBroker.recordFinal intent final now st) := by
  have heffect : (LedgerWrite.recordFinal intent final now).write.effect st =
      statements ((LiveBroker.fillOf intent final now).toList.map fun row => always (insertFill row))
        (LiveBroker.updateOrder final now st) := rfl
  rw [heffect]
  unfold LiveBroker.recordFinal
  cases LiveBroker.fillOf intent final now with
  | none =>
    rw [Option.toList_none, List.append_nil]
    rfl
  | some row => rfl

theorem same_of_agree (h : SharedLedger.Agree .paper st' st) : Shared.SameAccount st' st ∧
    (st'.fills.filter fun f => f.broker = .paper) = st.fills.filter fun f => f.broker = .paper :=
  ⟨⟨h.get?_cash .KRW, h.get?_positions, h.get?_orders⟩, h.fills⟩

/-- What is not of a call on paper leaves the paper account, its orders and its fills alone. -/
theorem other_effect {p : LedgerWrite} (hp : p.account = false) (h : p.write.effect st = some st') :
    Shared.SameAccount st' st ∧
      (st'.fills.filter fun f => f.broker = .paper) = st.fills.filter fun f => f.broker = .paper := by
  cases p with
  | rate fx =>
    cases h
    exact ⟨⟨rfl, fun _ => rfl, fun _ => rfl⟩, rfl⟩
  | mark broker row now =>
    cases h
    exact ⟨⟨rfl, fun _ => rfl, fun _ => rfl⟩, rfl⟩
  | recordSubmission orderId row =>
    cases h
    exact same_of_agree (SharedLedger.liveOrder_silent orderId row st)
  | recordFinal intent final now =>
    rw [final_effect] at h
    cases h
    exact same_of_agree (SharedLedger.recordFinal_silent intent final now st)
  | syncOrder now order =>
    cases h
    exact same_of_agree (SharedLedger.liveOrder_silent order.orderId _ st)
  | _ => cases hp

end LedgerWrite

/-! ### Orders and fills -/

/-- The fill of an order on paper. -/
structure FillOf (id : String) (row : OrderRow) (f : FillRow) : Prop where
  broker : f.broker = .paper
  order : f.orderId = id
  symbol : f.symbol = row.symbol
  side : f.side = row.side
  quantity : f.quantity = row.filledQuantity
  price : row.avgFillPrice = some f.price
  commission : row.commission = some f.commission
  currency : f.currency = row.currency
  strategy : f.strategy = row.strategy

/-- Every order on paper has exactly one fill, its own, and every fill on paper its order. -/
def Matched (st : Store) : Prop :=
  ∀ id, List.Forall₂ (FillOf id) (st.orders.get? (.paper, id)).toList
    ((st.fills.filter fun f => f.broker = .paper).filter fun f => f.orderId = id)

section
variable {st st' : Store}

theorem Matched.commit (h : Matched st) {p : PendingSubmit}
    (hcommit : PaperBroker.commit p st = (st', true)) : Matched st' := by
  unfold PaperBroker.commit at hcommit
  split at hcommit
  · cases hcommit
  · next hnew =>
    cases hcommit
    intro id
    have hone : (p.trade.fillRow.broker = .paper) := rfl
    show List.Forall₂ _ ((st.orders.insert (.paper, p.trade.orderId) p.trade.orderRow).get? _).toList
      (((st.fills ++ [p.trade.fillRow]).filter _).filter _)
    rw [List.filter_append, List.filter_append, List.filter_cons_of_pos (by simp [hone]), List.filter_nil]
    by_cases hid : id = p.trade.orderId
    · subst hid
      have hnone : st.orders.get? (.paper, p.trade.orderId) = none := by simpa using hnew
      have hold := h p.trade.orderId
      rw [hnone] at hold
      rw [List.forall₂_nil_left_iff.mp hold, Dict.get?_insert_self, List.nil_append,
        List.filter_cons_of_pos (by simp [Trade.fillRow]), List.filter_nil]
      exact .cons ⟨rfl, rfl, rfl, rfl, rfl, rfl, rfl, rfl, rfl⟩ .nil
    · rw [Dict.get?_insert_of_ne _ _ (by simp [hid]),
        List.filter_cons_of_neg (by simp [Trade.fillRow, Ne.symm hid]), List.filter_nil,
        List.append_nil]
      exact h id

theorem Matched.wipe (st : Store) : Matched (PaperBroker.wipe st) := by
  intro id
  have hnone : (PaperBroker.wipe st).orders.get? (.paper, id) = none := by
    show (st.orders.filter _).get? _ = none
    rw [Dict.get?_filter]
    cases st.orders.get? (.paper, id) <;> simp
  have hfills : ((PaperBroker.wipe st).fills.filter fun f => f.broker = .paper) = [] := by
    show (st.fills.filter _).filter _ = []
    rw [List.filter_filter, List.filter_eq_nil_iff]
    intro f _
    simp
  rw [hnone, hfills]
  exact .nil

/-- **Every whole write** keeps orders and fills together. -/
theorem Matched.effect {p : LedgerWrite} (heffect : p.write.effect st = some st') (h : Matched st) :
    Matched st' := by
  cases hp : p.account with
  | false =>
    obtain ⟨hsame, hfills⟩ := LedgerWrite.other_effect hp heffect
    intro id
    rw [hfills, hsame.orders]
    exact h id
  | true =>
    cases p with
    | trade r => exact h.commit (LedgerWrite.trade_effect r heffect)
    | wipe =>
      rw [LedgerWrite.wipe_effect] at heffect
      cases heffect
      exact .wipe st
    | fund starting =>
      obtain ⟨-, rfl⟩ := LedgerWrite.fund_effect heffect
      exact h
    | _ => cases hp

end

/-! ### Calls that do not overlap -/

section
variable {ι : Type*}

/-- `_ensure_cash` has been made. -/
def Funded (st : Store) : Prop := (st.cash.get? (.paper, .KRW)).isSome = true

/-- A reset has deleted the account and not funded it yet. -/
structure Emptied (st : Store) : Prop where
  cash : st.cash.get? (.paper, .KRW) = none
  positions : ∀ sym, st.positions.get? (.paper, sym) = none
  orders : ∀ id, st.orders.get? (.paper, id) = none

/-- No call on paper is on its way. -/
def Calls.Quiet (c : Calls ι Store LedgerWrite) : Prop :=
  ∀ i, ∀ p ∈ c.todo i, p.account = false

/-- The calls on paper, when they do not overlap: a submit on a funded account that has read its
trade, a reset, and the start of a broker that finds no cash. What else is written may come at any
time. -/
inductive OneAtATime (c : Calls ι Store LedgerWrite) : List LedgerWrite → Prop where
  | other {todo : List LedgerWrite} : (∀ p ∈ todo, p.account = false) → OneAtATime c todo
  | submit (r : PaperBroker.Reading) (rates : List Decimal) : c.Quiet → Funded c.store →
      (r.pb.prepare r.m r.intent c.store).2 = .ready r.pending →
      OneAtATime c (rates.map .rate ++ [.trade r])
  | reset (starting : Decimal) : c.Quiet → OneAtATime c [.wipe, .fund starting]
  | start (starting : Decimal) : c.Quiet → ¬ Funded c.store → OneAtATime c [.fund starting]

/-- What a call on paper that is on its way has still to write. -/
inductive OnItsWay (st : Store) : List LedgerWrite → Prop where
  | submit {rates : List LedgerWrite} {r : PaperBroker.Reading} :
      (∀ p ∈ rates, p.account = false) → r.Valid →
      st.cash.get? (.paper, .KRW) = some r.pending.cash →
      (positions st).get? r.pending.trade.symbol = r.pending.held →
      OnItsWay st (rates ++ [.trade r])
  | reset (starting : Decimal) : OnItsWay st [.wipe, .fund starting]
  | fund (starting : Decimal) : Emptied st → OnItsWay st [.fund starting]

/-- A part of a call on paper is still to be written. -/
def Busy (todo : List LedgerWrite) : Prop := ∃ p ∈ todo, p.account = true

theorem not_busy_nil : ¬ Busy [] := by
  rintro ⟨p, hp, -⟩
  cases hp

/-- The account is what the calls that are done leave, and at most one is on its way. -/
structure Accounted (s₀ : Store) (c : Calls ι Store LedgerWrite) : Prop where
  done : ∃ u, replay (c.log.filterMap LedgerWrite.call) s₀ = some u ∧
    (Funded c.store → Shared.SameAccount c.store u)
  emptied : ¬ Funded c.store → Emptied c.store
  alone : ∀ i j, Busy (c.todo i) → Busy (c.todo j) → i = j
  onItsWay : ∀ i, Busy (c.todo i) → OnItsWay c.store (c.todo i)

variable {c : Calls ι Store LedgerWrite} {s₀ st st' : Store}

/-- The same account has the same calls on their way. -/
theorem OnItsWay.same {todo : List LedgerWrite} (h : OnItsWay st todo)
    (hsame : Shared.SameAccount st' st) : OnItsWay st' todo := by
  cases h with
  | submit hrates hvalid hcash hheld =>
    exact .submit hrates hvalid (hsame.cash.trans hcash) ((hsame.held _).trans hheld)
  | reset starting => exact .reset starting
  | fund starting hemptied =>
    exact .fund starting ⟨hsame.cash.trans hemptied.cash,
      fun sym => (hsame.positions sym).trans (hemptied.positions sym),
      fun id => (hsame.orders id).trans (hemptied.orders id)⟩

/-- What a call on paper writes next, and what is behind it. -/
theorem OnItsWay.head {p : LedgerWrite} {rest : List LedgerWrite} (h : OnItsWay st (p :: rest))
    (hp : p.account = true) :
    (∃ r, p = .trade r ∧ rest = [] ∧ r.Valid ∧ st.cash.get? (.paper, .KRW) = some r.pending.cash ∧
        (positions st).get? r.pending.trade.symbol = r.pending.held) ∨
      (∃ starting, p = .wipe ∧ rest = [.fund starting]) ∨
      ∃ starting, p = .fund starting ∧ rest = [] := by
  generalize hall : p :: rest = todo at h
  cases h with
  | @submit rates r hrates hvalid hcash hheld =>
    cases rates with
    | nil =>
      cases hall
      exact .inl ⟨r, rfl, rfl, hvalid, hcash, hheld⟩
    | cons q rates =>
      cases hall
      rw [hrates p List.mem_cons_self] at hp
      cases hp
  | reset starting =>
    cases hall
    exact .inr (.inl ⟨starting, rfl, rfl⟩)
  | fund starting hemptied =>
    cases hall
    exact .inr (.inr ⟨starting, rfl, rfl⟩)

/-- The rate is written before the trade. -/
theorem OnItsWay.tail {p : LedgerWrite} {rest : List LedgerWrite} (h : OnItsWay st (p :: rest))
    (hp : p.account = false) : OnItsWay st rest := by
  generalize hall : p :: rest = todo at h
  cases h with
  | @submit rates r hrates hvalid hcash hheld =>
    cases rates with
    | nil =>
      cases hall
      cases hp
    | cons q rates =>
      cases hall
      exact .submit (fun q hq => hrates q (List.mem_cons_of_mem _ hq)) hvalid hcash hheld
  | reset starting =>
    cases hall
    cases hp
  | fund starting hemptied =>
    cases hall
    cases hp

theorem not_funded : ¬ Funded st ↔ st.cash.get? (.paper, .KRW) = none := by
  unfold Funded
  cases st.cash.get? (.paper, .KRW) <;> simp

theorem emptied_wipe (st : Store) : Emptied (PaperBroker.wipe st) := by
  refine ⟨?_, fun sym => ?_, fun id => ?_⟩
  · show (st.cash.filter _).get? _ = none
    rw [Dict.get?_filter]
    cases st.cash.get? (.paper, .KRW) <;> simp
  · show (st.positions.filter _).get? _ = none
    rw [Dict.get?_filter]
    cases st.positions.get? (.paper, sym) <;> simp
  · show (st.orders.filter _).get? _ = none
    rw [Dict.get?_filter]
    cases st.orders.get? (.paper, id) <;> simp

theorem call_other {p : LedgerWrite} (hp : p.account = false) : p.call = none := by
  cases p with
  | trade r => cases hp
  | fund starting => cases hp
  | _ => rfl

variable [DecidableEq ι]

/-- One session's writes and the store have changed, and the others' calls stand as they did. -/
theorem Accounted.update (h : Accounted s₀ c) {i : ι} {todo log : List LedgerWrite} {store : Store}
    (hdone : ∃ u, replay (log.filterMap LedgerWrite.call) s₀ = some u ∧
      (Funded store → Shared.SameAccount store u))
    (hemptied : ¬ Funded store → Emptied store)
    (hown : Busy todo → OnItsWay store todo ∧ ∀ j, j ≠ i → ¬ Busy (c.todo j))
    (hothers : ∀ j, j ≠ i → Busy (c.todo j) → OnItsWay store (c.todo j)) :
    Accounted s₀ ⟨store, Function.update c.todo i todo, log⟩ := by
  have hat (j : ι) : Busy (Function.update c.todo i todo j) ↔
      if j = i then Busy todo else Busy (c.todo j) := by
    rw [Function.update_apply]
    split <;> rfl
  have halone (j k : ι) (hj : Busy (Function.update c.todo i todo j))
      (hk : Busy (Function.update c.todo i todo k)) : j = k := by
    rw [hat] at hj hk
    split at hj <;> split at hk
    · next hji hki => rw [hji, hki]
    · next hki => exact absurd hk ((hown hj).2 k hki)
    · next hji _ => exact absurd hj ((hown hk).2 j hji)
    · exact h.alone j k hj hk
  have hway (j : ι) (hj : Busy (Function.update c.todo i todo j)) :
      OnItsWay store (Function.update c.todo i todo j) := by
    rw [hat] at hj
    rw [Function.update_apply]
    split at hj
    · next hji =>
      rw [if_pos hji]
      exact (hown hj).1
    · next hji =>
      rw [if_neg hji]
      exact hothers j hji hj
  exact ⟨hdone, hemptied, halone, hway⟩

theorem Accounted.called (h : Accounted s₀ c) (i : ι) {todo : List LedgerWrite}
    (hmade : OneAtATime c todo) : Accounted s₀ (c.called i todo) := by
  have hquiet (hquiet : c.Quiet) (j : ι) : ¬ Busy (c.todo j) := by
    rintro ⟨p, hp, haccount⟩
    rw [hquiet j p hp] at haccount
    cases haccount
  cases hmade with
  | other hother =>
    refine h.update h.done h.emptied ?_ fun j _ => h.onItsWay j
    rintro ⟨p, hp, haccount⟩
    rw [hother p hp] at haccount
    cases haccount
  | submit r rates hnone hfunded hready =>
    obtain ⟨-, hintent, -, hheld, hcash⟩ := prepare_ready hready
    obtain ⟨amount, hamount⟩ := Option.isSome_iff_exists.mp hfunded
    have hread : c.store.cash.get? (.paper, .KRW) = some r.pending.cash := by
      rw [hcash, PaperBroker.cash, Dict.getD, hamount]
      rfl
    have hrates : ∀ p ∈ rates.map LedgerWrite.rate, p.account = false := by
      intro p hp
      obtain ⟨fx, -, rfl⟩ := List.mem_map.mp hp
      rfl
    have hsymbol : r.pending.trade.symbol = r.intent.symbol := congrArg OrderIntent.symbol hintent
    exact h.update h.done h.emptied
      (fun _ => ⟨.submit hrates ⟨c.store, hready⟩ hread (by rw [hsymbol, hheld]),
        fun j _ => hquiet hnone j⟩)
      fun j _ hj => absurd hj (hquiet hnone j)
  | reset starting hnone =>
    exact h.update h.done h.emptied (fun _ => ⟨.reset starting, fun j _ => hquiet hnone j⟩)
      fun j _ hj => absurd hj (hquiet hnone j)
  | start starting hnone hunfunded =>
    exact h.update h.done h.emptied
      (fun _ => ⟨.fund starting (h.emptied hunfunded), fun j _ => hquiet hnone j⟩)
      fun j _ hj => absurd hj (hquiet hnone j)

theorem Accounted.abandoned (h : Accounted s₀ c) (i : ι) : Accounted s₀ (c.called i []) :=
  h.update h.done h.emptied (fun hbusy => absurd hbusy not_busy_nil) fun j _ => h.onItsWay j

/-- A write that is not of a call on paper. -/
theorem Accounted.wrote_other (h : Accounted s₀ c) {i : ι} {p : LedgerWrite}
    {rest : List LedgerWrite} (htodo : c.todo i = p :: rest) (hp : p.account = false)
    (hsame : Shared.SameAccount st' c.store) :
    Accounted s₀ (c.wrote i p rest st') := by
  have hfunded : Funded st' ↔ Funded c.store := by rw [Funded, Funded, hsame.cash]
  obtain ⟨u, hreplay, haccount⟩ := h.done
  refine h.update ⟨u, ?_, fun hf => hsame.trans (haccount (hfunded.mp hf))⟩ (fun hf => ?_) ?_
    fun j _ hj => (h.onItsWay j hj).same hsame
  · rw [List.filterMap_append, List.filterMap_cons_none (call_other hp), List.filterMap_nil,
      List.append_nil]
    exact hreplay
  · have hemptied := h.emptied fun hf' => hf (hfunded.mpr hf')
    exact ⟨hsame.cash.trans hemptied.cash, fun sym => (hsame.positions sym).trans (hemptied.positions sym),
      fun id => (hsame.orders id).trans (hemptied.orders id)⟩
  · intro hrest
    have hi : Busy (c.todo i) := by
      obtain ⟨q, hq, haccount⟩ := hrest
      exact ⟨q, by rw [htodo]; exact List.mem_cons_of_mem p hq, haccount⟩
    refine ⟨?_, fun j hj hother => hj (h.alone j i hother hi)⟩
    have hway := h.onItsWay i hi
    rw [htodo] at hway
    exact (hway.tail hp).same hsame

/-- **Every whole write** leaves an account that the calls done so far account for. -/
theorem Accounted.wrote (h : Accounted s₀ c) {i : ι} {p : LedgerWrite} {rest : List LedgerWrite}
    (htodo : c.todo i = p :: rest) (heffect : p.write.effect c.store = some st') :
    Accounted s₀ (c.wrote i p rest st') := by
  cases hp : p.account with
  | false => exact h.wrote_other htodo hp (LedgerWrite.other_effect hp heffect).1
  | true =>
    have hi : Busy (c.todo i) := ⟨p, by rw [htodo]; exact List.mem_cons_self, hp⟩
    have hothers (j : ι) (hj : j ≠ i) : ¬ Busy (c.todo j) := fun hbusy => hj (h.alone j i hbusy hi)
    have hway := h.onItsWay i hi
    rw [htodo] at hway
    obtain ⟨u, hreplay, haccount⟩ := h.done
    rcases hway.head hp with ⟨r, rfl, rfl, hvalid, hcash, hheld⟩ | ⟨starting, rfl, rfl⟩ |
      ⟨starting, rfl, rfl⟩
    · have hfunded : Funded c.store := by
        rw [Funded, hcash]
        rfl
      have hcommit := LedgerWrite.trade_effect r heffect
      have hstill : Funded st' := by
        unfold PaperBroker.commit at hcommit
        split at hcommit
        · cases hcommit
        · cases hcommit
          rw [Funded, Shared.cash_writePending]
          exact hfunded
      obtain ⟨u', hone, hsame⟩ := Shared.replay_commit hvalid hcash hheld hcommit (haccount hfunded)
      refine h.update ⟨u', ?_, fun _ => hsame⟩ (fun hf => absurd hstill hf)
        (fun hbusy => absurd hbusy not_busy_nil) fun j hj hbusy => absurd hbusy (hothers j hj)
      rw [List.filterMap_append, Shared.replay_append, hreplay, Option.bind_some]
      exact hone
    · rw [LedgerWrite.wipe_effect] at heffect
      cases heffect
      have hemptied := emptied_wipe c.store
      refine h.update ⟨u, ?_, fun hf => absurd hf (not_funded.mpr hemptied.cash)⟩ (fun _ => hemptied)
        (fun _ => ⟨.fund starting hemptied, hothers⟩) fun j hj hbusy => absurd hbusy (hothers j hj)
      rw [List.filterMap_append, List.filterMap_cons_none rfl, List.filterMap_nil, List.append_nil]
      exact hreplay
    · obtain ⟨hcash, rfl⟩ := LedgerWrite.fund_effect heffect
      have hemptied := h.emptied (not_funded.mpr hcash)
      have hfunded : Funded (ensureCash starting c.store) := by
        show ((c.store.cash.setDefault _ _).get? _).isSome = true
        rw [Dict.get?_setDefault, if_pos rfl]
        rfl
      refine h.update ⟨PaperBroker.reset starting u, ?_, fun _ =>
          Shared.fund_wiped hcash hemptied.positions hemptied.orders u⟩ (fun hf => absurd hfunded hf)
        (fun hbusy => absurd hbusy not_busy_nil) fun j hj hbusy => absurd hbusy (hothers j hj)
      rw [List.filterMap_append, Shared.replay_append, hreplay]
      rfl

/-- Sessions that make such calls. -/
def ledgerProgram (admits : Calls ι Store LedgerWrite → ι → List LedgerWrite → Prop) :
    Program ι Store LedgerWrite := ⟨LedgerWrite.write, admits⟩

/-- Nobody has anything to write. -/
structure AtRest (s : Sessions ι Store LedgerWrite) : Prop where
  transaction : s.transaction = none
  todo : ∀ i, s.calls.todo i = []
  log : s.calls.log = []

omit [DecidableEq ι] in
theorem AtRest.accounted {s : Sessions ι Store LedgerWrite} (h : AtRest s)
    (hfunded : Funded s.calls.store) : Accounted s.calls.store s.calls := by
  have hnone (i : ι) : ¬ Busy (s.calls.todo i) := by
    rw [h.todo i]
    exact not_busy_nil
  refine ⟨⟨s.calls.store, ?_, fun _ => .refl _⟩, fun hf => absurd hfunded hf,
    fun i j hi _ => absurd hi (hnone i), fun i hi => absurd hi (hnone i)⟩
  rw [h.log]
  rfl

/-- **No crash leaves a half-written ledger.** Whatever sessions write, and whatever stops at which
statement, on paper every order on file has its fill and every fill its order. While the calls on
paper do not overlap, the account on file is what the calls that got to their end leave, made one
after another; after a reset that was cut off it is empty, until a start has funded it. -/
theorem crash_consistent {admits : Calls ι Store LedgerWrite → ι → List LedgerWrite → Prop}
    {s t : Sessions ι Store LedgerWrite} {events : List (SessionEvent ι LedgerWrite)}
    (hrest : AtRest s) (hmatched : Matched s.calls.store)
    (hrun : (ledgerProgram admits).sessions.Run s events t) :
    Matched t.calls.store ∧
      ((∀ c i todo, admits c i todo → OneAtATime c todo) → Funded s.calls.store →
        ∃ u, replay (t.calls.log.filterMap LedgerWrite.call) s.calls.store = some u ∧
          (Funded t.calls.store → Shared.SameAccount t.calls.store u) ∧
          (¬ Funded t.calls.store → Emptied t.calls.store)) := by
  have hsound : (ledgerProgram admits).Sound s := by
    intro w hw
    rw [hrest.transaction] at hw
    cases hw
  refine ⟨Program.stored_invariant (fun p _ _ heffect h => h.effect heffect) hrun hsound hmatched,
    fun hadmits hfunded => ?_⟩
  obtain ⟨-, labels, hwhole⟩ := Program.run_whole hrun hsound
  have haccounted : Accounted s.calls.store t.calls := by
    refine hwhole.invariant (fun c a c' h hstep => ?_) (hrest.accounted hfunded)
    cases hstep with
    | call hidle hmade => exact h.called _ (hadmits _ _ _ hmade)
    | write htodo heffect => exact h.wrote htodo heffect
    | abandon i => exact h.abandoned i
  obtain ⟨u, hreplay, hsame⟩ := haccounted.done
  exact ⟨u, hreplay, hsame, haccounted.emptied⟩

/-- A buy is cut off with half of its transaction sent, and a reset behind its transaction; the next
start funds the account. -/
def cutOff : List (SessionEvent Unit LedgerWrite) :=
  [.call () [.trade (Shared.buying 10 "paper-1")], .statement (), .statement (), .statement (), .crash ()] ++
    ([.call () [.wipe, .fund 500000]] ++ List.replicate 7 (.statement ()) ++ [.crash ()] ++
      [.call () [.fund 300000], .statement ()])

theorem crash_consistent_cut :
    ∃ t : Sessions Unit Store LedgerWrite,
      (ledgerProgram fun c _ todo => OneAtATime c todo).sessions.Run
        ⟨⟨Shared.funded, fun _ => [], []⟩, none⟩ cutOff t ∧
      Matched t.calls.store ∧ ∃ u,
        replay [.reset 300000] Shared.funded = some u ∧ Shared.SameAccount t.calls.store u := by
  let program : Program Unit Store LedgerWrite := ledgerProgram fun c _ todo => OneAtATime c todo
  let rest : Calls Unit Store LedgerWrite := ⟨Shared.funded, fun _ => [], []⟩
  let afterBuy : Calls Unit Store LedgerWrite :=
    (rest.called () [.trade (Shared.buying 10 "paper-1")]).called () []
  have hquiet : rest.Quiet := fun _ _ h => nomatch h
  have hquiet' : afterBuy.Quiet := fun _ _ h => nomatch h
  have hcall : OneAtATime rest [.trade (Shared.buying 10 "paper-1")] :=
    .submit (Shared.buying 10 "paper-1") [] hquiet rfl (congrArg Prod.snd Shared.prepare_ten)
  have hbuy : program.sessions.Run ⟨rest, none⟩ [.call () [.trade (Shared.buying 10 "paper-1")],
      .statement (), .statement (), .statement (), .crash ()] ⟨afterBuy, none⟩ := by
    refine .cons (.call rfl hcall) ?_
    refine .cons (.begin rfl rfl) ?_
    refine .cons (.next rfl) ?_
    refine .cons (.next rfl) ?_
    exact .cons (.crash ()) (.nil _)
  let wiped : Calls Unit Store LedgerWrite :=
    (((afterBuy.called () [.wipe, .fund 500000]).wrote () .wipe [.fund 500000]
      (PaperBroker.wipe Shared.funded)).called () [])
  have hreset : program.sessions.Run ⟨afterBuy, none⟩
      ([.call () [.wipe, .fund 500000]] ++ List.replicate 7 (.statement ()) ++ [.crash ()])
      ⟨wiped, none⟩ := by
    refine .cons (.call rfl (.reset 500000 hquiet')) ?_
    refine .cons (.begin rfl rfl) ?_
    refine .cons (.next rfl) (.cons (.next rfl) (.cons (.next rfl) (.cons (.next rfl) ?_)))
    refine .cons (.next rfl) ?_
    refine .cons (.commit rfl) ?_
    exact .cons (.crash ()) (.nil _)
  have hquiet'' : wiped.Quiet := fun _ _ h => nomatch h
  have hnone : ¬ Funded wiped.store := not_funded.mpr (emptied_wipe _).cash
  have hstart : program.sessions.Run ⟨wiped, none⟩ [.call () [.fund 300000], .statement ()]
      ⟨(wiped.called () [.fund 300000]).wrote () (.fund 300000) []
        (ensureCash 300000 (PaperBroker.wipe Shared.funded)), none⟩ := by
    refine .cons (.call rfl (.start 300000 hquiet'' hnone)) ?_
    exact .cons (.single rfl rfl rfl) (.nil _)
  have hrun := hbuy.append (hreset.append hstart)
  have hrest : AtRest ⟨rest, none⟩ := ⟨rfl, fun _ => rfl, rfl⟩
  have hmatched : Matched rest.store := fun _ => .nil
  obtain ⟨hboth, haccount⟩ := crash_consistent hrest hmatched hrun
  obtain ⟨u, hreplay, hsame, -⟩ := haccount (fun _ _ _ h => h) rfl
  exact ⟨_, hrun, hboth, u, hreplay, hsame rfl⟩

end
end Tqt
