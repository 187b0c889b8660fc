import Tqt.Execution.Exchange
import Tqt.Execution.PaperLedger
import Tqt.Runner.Cycle

/-! The two brokers as the runner meets them.

The paper broker's account is the store itself and it fills at once. Behind the live
broker is the exchange: its snapshot shows the holdings and the buying power, not the
open orders, and a submission leaves one more open order there where some attempt of
its request is accepted. -/
namespace Tqt

/-- The account in the store, marked to whatever the market answers. -/
def paperModel (pb : PaperBroker) : BrokerModel Unit where
  name := .paper
  snapshot _ st snap st' := ∃ m marks, PaperBroker.snapshot m st marks = (st', snap)
  submit _ st now intent _ st' result := ∃ m, m.now = now ∧ pb.submit m intent st = (st', some result)
  evolve _ _ := True
  snapshot_switch := by
    intro _ st snap st' h
    obtain ⟨m, marks, h⟩ := h
    have := PaperBroker.refreshFx_switch m st
    cases h
    exact this
  submit_switch := by
    intro _ st now intent _ st' result h
    obtain ⟨m, -, h⟩ := h
    have := pb.submit_switch m intent st
    rw [h] at this
    exact this

section
variable (b : LiveBroker) (maxRetries : ℕ)

/-- The exchange sooner or later accepts the order of a submission. -/
def Accepted (intent : OrderIntent) (uuid : String) (sellable : Except TossError Decimal)
    (net : ℕ → Delivery) : Prop :=
  Sends b intent uuid sellable ∧ ∃ n, Reached maxRetries net n ∧ (net n).accepted

/-- `submit` against the exchange. What it sends rests there once it is accepted, and may
fill or close before the call returns. -/
def LiveSubmits (e : Exchange) (st : Store) (now : Instant) (intent : OrderIntent)
    (e' : Exchange) (st' : Store) (result : OrderResult) : Prop :=
  ∃ uuid sellable polls net id, Lawful id net ∧
    b.submit maxRetries st now intent uuid (answers sellable polls net) = (.returned result, st') ∧
    (¬ Accepted b maxRetries intent uuid sellable net ∧ Relation.ReflTransGen Exchange.Evolve e e' ∨
      Accepted b maxRetries intent uuid sellable net ∧ ∃ o price, o.symbol = intent.symbol ∧
        o.side = intent.side ∧ b.prepare intent sellable = .ok (some o.remaining, price) ∧
        Relation.ReflTransGen Exchange.Evolve (e.place o) e')

/-- FX is held fixed; the buying power is whatever the API answers. -/
def liveModel (fx : Decimal) : BrokerModel Exchange where
  name := .live
  snapshot e st snap st' := st' = st ∧ ∃ krw usd, snap = LiveBroker.snapshot e.items fx krw usd
  submit := LiveSubmits b maxRetries
  evolve := Exchange.Evolve
  snapshot_switch h := by rw [h.1]
  submit_switch := by
    intro e st now intent e' st' result h
    obtain ⟨uuid, sellable, polls, net, id, -, h, -⟩ := h
    have := b.submit_switch maxRetries st now intent uuid (answers sellable polls net)
    rw [h] at this
    exact this

variable {b maxRetries}

/-- A submission adds at most what its intent asks for. -/
theorem LiveSubmits.bought_le {e e' : Exchange} {st st' : Store} {now : Instant}
    {intent : OrderIntent} {result : OrderResult} {qty : Decimal}
    (h : LiveSubmits b maxRetries e st now intent e' st' result)
    (hqty : intent.quantity = some qty) (hpos : 0 < qty) (x : Symbol) :
    e'.bought x ≤ e.bought x + if intent.symbol = x ∧ intent.side = .BUY then qty else 0 := by
  obtain ⟨uuid, sellable, polls, net, id, -, -, hnot | hyes⟩ := h
  · have := Exchange.evolves_bought_le (x := x) hnot.2
    split <;> linarith
  · obtain ⟨-, o, price, hsym, hside, hprep, hevolves⟩ := hyes
    obtain ⟨requested, hreq, hle⟩ := LiveBroker.prepare_le hprep
    rw [hqty] at hreq
    cases hreq
    have := Exchange.evolves_bought_le (x := x) hevolves
    rw [Exchange.place_bought, hsym, hside] at this
    have := hle hpos.le
    by_cases hown : intent.symbol = x ∧ intent.side = .BUY
    · rw [if_pos hown] at *
      linarith
    · rw [if_neg hown] at *
      linarith

end
end Tqt
