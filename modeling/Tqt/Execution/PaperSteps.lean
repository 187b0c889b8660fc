import Tqt.Execution.PaperLedger

/-! A paper submit in two steps: its reads, and its transaction.

The transaction writes amounts that were computed from the reads, whatever stands in the
store by then (`writePending`). On a store that nobody has touched in between it is the
attempt of one call (`attempt_eq`), and what the reads come to depends only on the cash,
the symbol's position and the quotes (`prepare_congr`). -/
namespace Tqt

/-- A submit between its reads and its transaction: the trade, and the position and the cash
it read. -/
structure PendingSubmit where
  trade : Trade
  held : Option Position
  cash : Decimal

/-- What the reads come to. -/
inductive Prepared where
  | failed (error : String)
  | ready (p : PendingSubmit)

namespace PaperBroker

section
variable (pb : PaperBroker) (m : Market) (intent : OrderIntent) (st : Store)

/-- The quantity and the cost, checked against the position and the cash that are read. -/
def planned (px : Decimal) (source : String) (fx : Decimal) : Prepared :=
  let held := (positions st).get? intent.symbol
  match sizeOf intent px held with
  | .error why => .failed why
  | .ok qty =>
    let t := tradeOf pb m intent px source fx qty
    if intent.side = .BUY ∧ cash st < t.grossKrw + t.costKrw then .failed (insufficient t st)
    else .ready ⟨t, held, cash st⟩

/-- `submit` before its transaction. -/
def prepare : Store × Prepared :=
  match executionPrice m intent with
  | (none, _) => (st, .failed "no market price available")
  | (some px, source) =>
    if px ≤ 0 then (st, .failed "no market price available")
    else
      let rate := fxFor m intent st
      (rate.1, planned pb m intent rate.1 px source rate.2)

/-- What the transaction writes: the cash and the position that follow from the reads. -/
def writePending (p : PendingSubmit) (st : Store) : Store :=
  let t := p.trade
  let st' := writePosition (positionAfter t p.held) t.intent.strategy t.now st
  { st' with
    cash := if (st.cash.get? (.paper, .KRW)).isSome
      then st.cash.insert (.paper, .KRW) (p.cash + t.cashKrw) else st.cash
    orders := st.orders.insert (.paper, t.orderId) t.orderRow
    fills := st.fills ++ [t.fillRow] }

/-- The transaction, and whether it committed: on a duplicate order id it is rolled back. -/
def commit (p : PendingSubmit) (st : Store) : Store × Bool :=
  if (st.orders.get? (.paper, p.trade.orderId)).isSome then (st, false)
  else (writePending p st, true)

/-- The transaction of `reset`. -/
def wipe (st : Store) : Store :=
  { st with
    orders := st.orders.filter fun k _ => k.1 ≠ .paper
    fills := st.fills.filter fun f => f.broker ≠ .paper
    positions := st.positions.filter fun k _ => k.1 ≠ .paper
    equity := st.equity.filter fun k _ => k.1 ≠ .paper
    cash := st.cash.filter fun k _ => k.1 ≠ .paper }

theorem reset_eq (starting : Decimal) (st : Store) : reset starting st = ensureCash starting (wipe st) :=
  rfl

end

section
variable {pb : PaperBroker} {m : Market} {intent : OrderIntent} {st : Store} {p : PendingSubmit}

theorem planned_ready {px fx : Decimal} {source : String}
    (h : planned pb m intent st px source fx = .ready p) :
    p.trade.intent = intent ∧ p.trade.fx = fx ∧ p.held = (positions st).get? intent.symbol ∧
      p.cash = cash st := by
  unfold planned at h
  simp only at h
  split at h
  · cases h
  · split at h
    · cases h
    · cases h
      exact ⟨rfl, rfl, rfl, rfl⟩

/-- Of the store, the reads see the cash and the symbol's position. -/
theorem planned_congr {u : Store} (hcash : cash u = cash st)
    (hheld : (positions u).get? intent.symbol = (positions st).get? intent.symbol) (px : Decimal)
    (source : String) (fx : Decimal) :
    planned pb m intent u px source fx = planned pb m intent st px source fx := by
  unfold planned insufficient
  rw [hheld, hcash]

theorem prepare_priced {px : Decimal} {source : String}
    (hprice : executionPrice m intent = (some px, source)) (hpx : ¬ px ≤ 0) (pb : PaperBroker)
    (st : Store) : pb.prepare m intent st =
      ((fxFor m intent st).1, planned pb m intent (fxFor m intent st).1 px source (fxFor m intent st).2) := by
  unfold prepare
  simp only [hprice, if_neg hpx]

/-- There is a price to trade at, or there is none and nothing is read. -/
theorem prepare_cases (pb : PaperBroker) (m : Market) (intent : OrderIntent) (st : Store) :
    (pb.prepare m intent st = (st, .failed "no market price available") ∧
        pb.attempt m intent st = (st, .failed "no market price available")) ∨
      ∃ px source, executionPrice m intent = (some px, source) ∧ ¬ px ≤ 0 := by
  unfold prepare attempt
  cases hprice : executionPrice m intent with
  | mk px source =>
    cases px with
    | none => exact .inl ⟨rfl, rfl⟩
    | some px =>
      by_cases hpx : px ≤ 0
      · simp only [if_pos hpx]
        exact .inl ⟨trivial, trivial⟩
      · exact .inr ⟨px, source, rfl, hpx⟩

theorem fxFor_read (m : Market) (intent : OrderIntent) (st : Store) :
    positions (fxFor m intent st).1 = positions st ∧ cash (fxFor m intent st).1 = cash st := by
  have hsame := fxFor_same m intent st
  unfold positions cash
  rw [hsame.positions, hsame.cash]
  exact ⟨rfl, rfl⟩

/-- **What the reads can come to**: nothing, or a trade at the rate that was read. The ledger
is as it was. -/
theorem prepare_ready (h : (pb.prepare m intent st).2 = .ready p) :
    (pb.prepare m intent st).1 = (fxFor m intent st).1 ∧ p.trade.intent = intent ∧
      p.trade.fx = (fxFor m intent st).2 ∧ p.held = (positions st).get? intent.symbol ∧
      p.cash = cash st := by
  rcases prepare_cases pb m intent st with ⟨hprepare, -⟩ | ⟨px, source, hprice, hpx⟩
  · rw [hprepare] at h
    cases h
  · rw [prepare_priced hprice hpx] at h ⊢
    obtain ⟨hintent, hfx, hheld, hread⟩ := planned_ready h
    obtain ⟨hpositions, hcash⟩ := fxFor_read m intent st
    rw [hpositions] at hheld
    rw [hcash] at hread
    exact ⟨rfl, hintent, hfx, hheld, hread⟩

theorem prepare_same (pb : PaperBroker) (m : Market) (intent : OrderIntent) (st : Store) :
    SameLedger st (pb.prepare m intent st).1 := by
  rcases prepare_cases pb m intent st with ⟨hprepare, -⟩ | ⟨px, source, hprice, hpx⟩
  · rw [hprepare]
    exact ⟨rfl, rfl, rfl, rfl⟩
  · rw [prepare_priced hprice hpx]
    exact fxFor_same m intent st

/-- On the store it was read from, the transaction books the trade. -/
theorem write_eq_book (t : Trade) (st : Store) :
    writePending ⟨t, (positions st).get? t.symbol, cash st⟩ st = book t st := rfl

/-- A call is its reads and its transaction. -/
theorem attempt_eq (pb : PaperBroker) (m : Market) (intent : OrderIntent) (st : Store) :
    pb.attempt m intent st =
      match pb.prepare m intent st with
      | (st', .failed why) => (st', .failed why)
      | (st', .ready p) =>
        if (commit p st').2 then ((commit p st').1, .traded p.trade) else ((commit p st').1, .raised) := by
  rcases prepare_cases pb m intent st with ⟨hprepare, hattempt⟩ | ⟨px, source, hprice, hpx⟩
  · rw [hprepare, hattempt]
  · rw [prepare_priced hprice hpx]
    unfold attempt
    simp only [hprice, if_neg hpx]
    generalize (fxFor m intent st).1 = st'
    generalize (fxFor m intent st).2 = fx
    cases hsize : sizeOf intent px ((positions st').get? intent.symbol) with
    | error why => simp only [planned, hsize]
    | ok qty =>
      by_cases hcash : intent.side = .BUY ∧ cash st' <
          (tradeOf pb m intent px source fx qty).grossKrw + (tradeOf pb m intent px source fx qty).costKrw
      · simp only [planned, hsize, if_pos hcash]
      · simp only [planned, hsize, if_neg hcash, commit]
        split
        · rfl
        · rw [← write_eq_book]
          rfl

end
end PaperBroker
end Tqt
