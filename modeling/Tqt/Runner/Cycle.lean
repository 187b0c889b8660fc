import Tqt.Foundation.Context
import Tqt.Foundation.Lts
import Tqt.Risk
import Tqt.Runner.Plan

/-! A cycle as a sequence of steps.

`_cycle` holds the runner's lock, so one cycle runs at a time; everything else may
happen between any two of its steps: the operator halts or resumes, the clock moves,
the exchange fills orders, another thread writes the store. What the cycle carries
from step to step is its `Phase`. Both brokers drive the same steps: a `BrokerModel`
says what a snapshot may show and what a submission may do, and promises that neither
touches the kill switch. -/
namespace Tqt

/-- A broker and what lies behind it, `β` being the state of the latter. -/
structure BrokerModel (β : Type) where
  name : BrokerName
  snapshot : β → Store → AccountSnapshot → Store → Prop
  submit : β → Store → Instant → OrderIntent → β → Store → OrderResult → Prop
  evolve : β → β → Prop
  snapshot_switch : ∀ {b st snap st'}, snapshot b st snap st' → st'.killSwitch = st.killSwitch
  submit_switch : ∀ {b st now intent b' st' result},
    submit b st now intent b' st' result → st'.killSwitch = st.killSwitch

namespace Runner

/-- Where a cycle is. The snapshot is the one its next check will read. -/
inductive Phase where
  | idle
  | gating (snapshot : AccountSnapshot)
  | planning (snapshot : AccountSnapshot)
  | ordering (snapshot : AccountSnapshot) (orders : List (OrderIntent × Decimal))
  | submitting (snapshot : AccountSnapshot) (intent : OrderIntent)
      (rest : List (OrderIntent × Decimal))
  | waiting (snapshot : AccountSnapshot) (intent : OrderIntent)
      (rest : List (OrderIntent × Decimal))
  | refreshing (rest : List (OrderIntent × Decimal))

/-- Before `check_cycle` has answered. -/
def Phase.beforeGate : Phase → Prop
  | .idle => True
  | .gating _ => True
  | _ => False

structure System (β : Type) where
  broker : β
  store : Store
  risk : RiskManager
  now : Instant
  phase : Phase := .idle

/-- The steps, by what an observer sees of them. -/
inductive Step where
  | begin (snapshot : AccountSnapshot)
  | gate
  | skip
  | plan (targets : Dict Symbol Decimal) (markets : List Country) (prices : Symbol → Option Decimal)
  | check
  | submit (intent : OrderIntent)
  | answer (result : OrderResult)
  | refresh
  | finish
  | abort
  | halt (reason : HaltReason)
  | resume
  | tick
  | exchange
  | write

def markOf (snap : AccountSnapshot) : EquityRow where
  equityKrw := snap.equityKrw
  cashKrw := snap.cashKrw
  positionsKrw := snap.positionValueKrw
  usdKrw := snap.usdKrw

section
variable {β : Type} (B : BrokerModel β)

inductive Steps : System β → Step → System β → Prop where
  /-- Clear the caches, look at the account and record the equity mark. -/
  | begin {s : System β} {snap : AccountSnapshot} {st : Store} :
      s.phase = .idle → B.snapshot s.broker s.store snap st →
      Steps s (.begin snap) { s with
        store := st.recordEquity B.name (markOf snap) s.now
        risk := s.risk.clearCache
        phase := .gating snap }
  /-- `check_cycle`, the only place where the kill switch is read. -/
  | gate {s : System β} {snap : AccountSnapshot} {st : Store} {verdict : Verdict} :
      s.phase = .gating snap → s.risk.checkCycle s.store s.now snap = (st, verdict) →
      Steps s .gate { s with
        store := st
        phase := if verdict = .allow then .planning snap else .idle }
  /-- No market is open, no rebalance is due or there are no targets. -/
  | skip {s : System β} {snap : AccountSnapshot} :
      s.phase = .planning snap → Steps s .skip { s with phase := .idle }
  | plan {s : System β} {snap : AccountSnapshot} (targets : Dict Symbol Decimal)
      (markets : List Country) (prices : Symbol → Option Decimal) :
      s.phase = .planning snap →
      Steps s (.plan targets markets prices)
        { s with phase := .ordering snap (buildIntentsIn Context.fix targets snap markets prices) }
  /-- `check_order`, against the snapshot the loop carries. -/
  | check {s : System β} {snap : AccountSnapshot} {intent : OrderIntent} {price : Decimal}
      {rest : List (OrderIntent × Decimal)} {risk : RiskManager} {verdict : Verdict}
      (ask : Symbol → Option (List String)) :
      s.phase = .ordering snap ((intent, price) :: rest) →
      s.risk.checkOrder s.store s.now snap ask intent (some price) = (risk, verdict) →
      Steps s .check { s with
        risk := risk
        phase := if verdict = .allow then .submitting snap intent rest else .ordering snap rest }
  /-- `broker.submit` begins. -/
  | submit {s : System β} {snap : AccountSnapshot} {intent : OrderIntent}
      {rest : List (OrderIntent × Decimal)} :
      s.phase = .submitting snap intent rest →
      Steps s (.submit intent) { s with phase := .waiting snap intent rest }
  /-- `broker.submit` returns. -/
  | answer {s : System β} {snap : AccountSnapshot} {intent : OrderIntent}
      {rest : List (OrderIntent × Decimal)} {b : β} {st : Store} {result : OrderResult} :
      s.phase = .waiting snap intent rest →
      B.submit s.broker s.store s.now intent b st result →
      Steps s (.answer result) { s with
        broker := b
        store := st
        phase := if result.ok ∧ 0 < result.filledQuantity then .refreshing rest
          else .ordering snap rest }
  | refresh {s : System β} {rest : List (OrderIntent × Decimal)} {snap : AccountSnapshot}
      {st : Store} :
      s.phase = .refreshing rest → B.snapshot s.broker s.store snap st →
      Steps s .refresh { s with store := st, phase := .ordering snap rest }
  | finish {s : System β} {snap : AccountSnapshot} :
      s.phase = .ordering snap [] → Steps s .finish { s with phase := .idle }
  /-- An exception leaves `_cycle` and releases the lock. -/
  | abort {s : System β} : Steps s .abort { s with phase := .idle }
  /-- `/halt`, from the Telegram or the dashboard thread. -/
  | halt {s : System β} (reason : HaltReason) :
      Steps s (.halt reason) { s with store := RiskManager.halt reason false s.now s.store }
  | resume {s : System β} : Steps s .resume { s with store := RiskManager.resume s.store }
  | tick {s : System β} {now : Instant} : s.now ≤ now → Steps s .tick { s with now := now }
  | exchange {s : System β} {b : β} : B.evolve s.broker b → Steps s .exchange { s with broker := b }
  /-- Any other write to the store. -/
  | write {s : System β} {st : Store} :
      st.killSwitch = s.store.killSwitch → Steps s .write { s with store := st }

def cycleSystem : Lts (System β) Step := ⟨Steps B⟩

end
end Runner
end Tqt
