import Tqt.Execution.Isolation

/-! A reset of the paper account.

`reset` deletes the paper rows of every table and funds the account anew. What the account does
afterwards is what it would do in a store that never had any of them: of the past there remain the
last exchange rate, which the state table keeps for a lookup that fails, and the submits that had
read the account before it was wiped (`reset_forgets`). The live rows and the kill switch, which a
trader may have reset the account to get rid of, stay. -/
namespace Tqt
open PaperBroker LiveBroker

namespace SharedLedger

/-! ### The kill switch -/

theorem prepare_switch (pb : PaperBroker) (m : Market) (intent : OrderIntent) (st : Store) :
    (pb.prepare m intent st).1.killSwitch = st.killSwitch := by
  have hrate : (fxFor m intent st).1.killSwitch = st.killSwitch := by
    unfold fxFor
    split
    · exact refreshFx_switch m st
    · rfl
  rcases prepare_cases pb m intent st with ⟨hprepare, -⟩ | ⟨px, source, hprice, hpx⟩
  · rw [hprepare]
  · rw [prepare_priced hprice hpx]
    exact hrate

/-- No operation of a broker touches the switch. -/
theorem exec_switch (s : SharedLedger) (a : LedgerOp) :
    (exec s a).store.killSwitch = s.store.killSwitch := by
  cases a with
  | read pb m intent =>
    have hprepare := prepare_switch pb m intent s.store
    simp only [exec]
    split <;> exact hprepare
  | commit index =>
    simp only [exec]
    split
    · next p _ =>
      show (commit p s.store).1.killSwitch = _
      unfold commit
      split <;> rfl
    · rfl
  | refresh m => exact refreshFx_switch m s.store
  | recordFinal intent final now =>
    show (recordFinal intent final now s.store).killSwitch = _
    unfold recordFinal
    cases s.store.orders.get? (.live, final.orderId) <;> rfl
  | syncOrder now order =>
    show (syncOrder now s.store order).killSwitch = _
    unfold syncOrder
    split
    · rfl
    · split <;> rfl
  | _ => rfl

theorem foldl_switch (ops : List LedgerOp) (s : SharedLedger) :
    (ops.foldl exec s).store.killSwitch = s.store.killSwitch := by
  induction ops generalizing s with
  | nil => rfl
  | cons a rest ih => rw [List.foldl_cons, ih, exec_switch]

/-! ### The rows -/

/-- Deleting a broker's rows leaves it none. -/
theorem row_filter_self {κ ν : Type} [DecidableEq κ] (d : Dict (BrokerName × κ) ν) :
    (d.filter fun k _ => k.1 ≠ .paper).row .paper = (∅ : Dict (BrokerName × κ) ν).row .paper := by
  rw [Dict.row_filter]
  apply Dict.ext_entries
  have hempty : (∅ : Dict (BrokerName × κ) ν).entries = [] := rfl
  simp [Dict.filter, Dict.row, hempty]

/-- A store in which the paper account has never been opened. -/
def unopened (rate : Option Decimal) : Store := { lastUsdKrw := rate }

theorem wipe_agrees (st : Store) : Agree .paper (wipe st) (unopened st.lastUsdKrw) := by
  refine .of_tables (row_filter_self _) ?_ (row_filter_self _) (row_filter_self _) (row_filter_self _)
    fun _ => rfl
  show (st.fills.filter _).filter _ = []
  rw [List.filter_filter, List.filter_eq_nil_iff]
  intro f _
  simp

/-- **After a reset**, its wipe and its funding next to each other, the paper account does what a new
one does, given the last rate and the submits that had read, down to the order count of a day, the
equity curve and the first mark of a day that its risk manager reads; the live ledger and the kill
switch are as if there had been no reset. -/
theorem reset_forgets (s : SharedLedger) (before after : List LedgerOp) (starting : Decimal) :
    let past := before.foldl exec s
    let now := (before ++ ([.wipe, .fund starting] : List LedgerOp) ++ after).foldl exec s
    let anew := (.fund starting :: after.filter fun a => a.owner = .paper).foldl exec
      ⟨unopened past.store.lastUsdKrw, past.pending⟩
    view .paper now = view .paper anew ∧
      view .live now = view .live ((before ++ after).foldl exec s) ∧
      now.store.killSwitch = s.store.killSwitch ∧
      ∀ rm : RiskManager, rm.brokerName = .paper →
        (∀ time, rm.ordersToday now.store time = rm.ordersToday anew.store time) ∧
        (∀ limit, now.store.equityCurve .paper limit = anew.store.equityCurve .paper limit) ∧
        ∀ day, now.store.firstEquityOfDay .paper day = anew.store.firstEquityOfDay .paper day := by
  intro past now anew
  have hnow : now = after.foldl exec (([.wipe, .fund starting] : List LedgerOp).foldl exec past) := by
    simp only [now, List.foldl_append]
    rfl
  have hpaper : view .paper now = view .paper anew := by
    rw [hnow]
    refine isolated.view_foldl .paper after (view_eq.mpr ⟨?_, fun _ => rfl⟩)
    exact (wipe_agrees past.store).ensureCash starting
  have hlive : view .live now = view .live ((before ++ after).foldl exec s) := by
    have hsame : view .live (([.wipe, .fund starting] : List LedgerOp).foldl exec past) =
        view .live past :=
      (isolated.silent .live _ (.fund starting) nofun).trans (isolated.silent .live past .wipe nofun)
    rw [hnow, List.foldl_append, isolated.view_foldl .live after hsame,
      isolated.view_foldl .live after (rfl : view .live past = _)]
  refine ⟨hpaper, hlive, foldl_switch _ s, fun rm hrm => ?_⟩
  have hrows : now.store.rows .paper = anew.store.rows .paper := congrArg Prod.fst hpaper
  exact ⟨ordersToday_rows (hrm ▸ hrows), equityCurve_rows hrows, firstEquityOfDay_rows hrows⟩

end SharedLedger
end Tqt
