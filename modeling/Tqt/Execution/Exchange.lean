import Tqt.Execution.Live
import Tqt.Execution.Orphans

/-! The exchange behind the live broker.

The account's holdings and its open orders. What happens to them between two calls of
the bot is `Evolve`: an open order fills, wholly or in part, or closes. An order that
rests at the exchange is not in the holdings, so `bought` counts both; nothing that
happens at the exchange raises it. -/
namespace Tqt

/-- An open order, by what is left of it. -/
structure OpenOrder where
  symbol : Symbol
  side : Side
  remaining : Decimal
  positive : 0 < remaining

structure Exchange where
  items : List HoldingItem := []
  openOrders : List OpenOrder := []

namespace Exchange

/-- The quantity of a symbol that the account shows. -/
def held (items : List HoldingItem) (x : Symbol) : Decimal :=
  match (LiveBroker.positionsOf items).get? x with
  | some pos => pos.quantity
  | none => 0

/-- The quantity of a symbol that is on order. -/
def onOrder (x : Symbol) (orders : List OpenOrder) : Decimal :=
  (orders.map fun o => if o.symbol = x ∧ o.side = .BUY then o.remaining else 0).sum

/-- Held, or on its way. -/
def bought (e : Exchange) (x : Symbol) : Decimal := held e.items x + onOrder x e.openOrders

def place (e : Exchange) (o : OpenOrder) : Exchange :=
  { e with openOrders := e.openOrders ++ [o] }

/-- A fill of `q` moves that much of the order's symbol, and of nothing else. -/
def Moves (items items' : List HoldingItem) (o : OpenOrder) (q : Decimal) : Prop :=
  ∀ x, held items' x = held items x +
    if x = o.symbol then (match o.side with | .BUY => q | .SELL => -q) else 0

inductive Evolve : Exchange → Exchange → Prop where
  | fill {e : Exchange} {front back : List OpenOrder} {o : OpenOrder} {items : List HoldingItem} :
      e.openOrders = front ++ o :: back → Moves e.items items o o.remaining →
      Evolve e { items := items, openOrders := front ++ back }
  | partFill {e : Exchange} {front back : List OpenOrder} {o : OpenOrder}
      {items : List HoldingItem} {q : Decimal} (hq : 0 < q) (hpart : q < o.remaining) :
      e.openOrders = front ++ o :: back → Moves e.items items o q →
      Evolve e
        { items := items
          openOrders := front ++
            { o with remaining := o.remaining - q, positive := sub_pos.mpr hpart } :: back }
  /-- Cancelled, rejected or expired. -/
  | close {e : Exchange} {front back : List OpenOrder} {o : OpenOrder} :
      e.openOrders = front ++ o :: back →
      Evolve e { e with openOrders := front ++ back }

/-! ### What is bought -/

variable {x : Symbol}

theorem onOrder_append (first second : List OpenOrder) :
    onOrder x (first ++ second) = onOrder x first + onOrder x second := by
  rw [onOrder, List.map_append, List.sum_append]
  rfl

theorem onOrder_cons (o : OpenOrder) (rest : List OpenOrder) :
    onOrder x (o :: rest) =
      (if o.symbol = x ∧ o.side = .BUY then o.remaining else 0) + onOrder x rest := by
  rw [onOrder, List.map_cons, List.sum_cons]
  rfl

/-- What a fill adds to the holdings it takes from the orders. -/
theorem moved_le (o : OpenOrder) {q : Decimal} (hq : 0 < q) :
    (if x = o.symbol then (match o.side with | .BUY => q | .SELL => -q) else 0) ≤
      if o.symbol = x ∧ o.side = .BUY then q else 0 := by
  by_cases hx : x = o.symbol
  · subst hx
    cases hside : o.side
    · simp
    · simpa using hq.le
  · rw [if_neg hx, if_neg fun h => hx h.1.symm]

/-- Fills turn what is on order into what is held; nothing else at the exchange adds to
either. -/
theorem Evolve.bought_le {e e' : Exchange} (h : Evolve e e') : e'.bought x ≤ e.bought x := by
  cases h with
  | @fill front back o items horders hmoves =>
    have hmove := moved_le (x := x) o o.positive
    show held items x + onOrder x (front ++ back) ≤ held e.items x + onOrder x e.openOrders
    rw [horders, hmoves x, onOrder_append, onOrder_append, onOrder_cons]
    linarith
  | @partFill front back o items q hq hpart horders hmoves =>
    have hmove := moved_le (x := x) o hq
    show held items x + onOrder x (front ++ _ :: back) ≤ held e.items x + onOrder x e.openOrders
    rw [horders, hmoves x, onOrder_append, onOrder_append, onOrder_cons, onOrder_cons]
    by_cases hown : o.symbol = x ∧ o.side = .BUY
    · rw [if_pos hown] at hmove
      rw [if_pos hown, if_pos hown]
      linarith
    · rw [if_neg hown] at hmove
      rw [if_neg hown, if_neg hown]
      linarith
  | @close front back o horders =>
    have : 0 ≤ if o.symbol = x ∧ o.side = .BUY then o.remaining else 0 := by
      split
      · exact o.positive.le
      · exact le_rfl
    show held e.items x + onOrder x (front ++ back) ≤ held e.items x + onOrder x e.openOrders
    rw [horders, onOrder_append, onOrder_append, onOrder_cons]
    linarith

theorem evolves_bought_le {e e' : Exchange} (h : Relation.ReflTransGen Evolve e e') :
    e'.bought x ≤ e.bought x := by
  induction h with
  | refl => exact le_rfl
  | tail _ hstep ih => exact hstep.bought_le.trans ih

theorem place_bought (e : Exchange) (o : OpenOrder) :
    (e.place o).bought x =
      e.bought x + if o.symbol = x ∧ o.side = .BUY then o.remaining else 0 := by
  show held e.items x + onOrder x (e.openOrders ++ [o]) = held e.items x + onOrder x e.openOrders + _
  rw [onOrder_append, onOrder_cons, ← add_assoc]
  show _ + _ + (_ + (0 : Decimal)) = _
  rw [add_zero]

end Exchange
end Tqt
