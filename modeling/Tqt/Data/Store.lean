import Tqt.Calendar
import Tqt.Universe
import Tqt.Foundation.Dict
import Mathlib.Data.List.MinMax

/-! The SQLite store, table by table.

A table with a primary key is a dictionary on that key, so a row can neither be
duplicated nor lose its key. `INSERT OR REPLACE` is `Dict.insert`. Timestamps are
instants; a `LIKE 'YYYY-MM-DD%'` on a timestamp compares its UTC date. The bot's
key-value state appears as the values the program keeps there. -/
namespace Tqt

inductive BrokerName where
  | paper
  | live
deriving DecidableEq, Repr

/-- A row of `orders`, keyed by broker and order id. -/
structure OrderRow where
  clientOrderId : Option String := none
  strategy : String := ""
  symbol : Symbol
  side : Side
  orderType : OrderType
  quantity : Decimal
  price : Option Decimal := none
  currency : Currency
  status : String
  filledQuantity : Decimal := 0
  avgFillPrice : Option Decimal := none
  commission : Option Decimal := none
  tax : Option Decimal := none
  submittedAt : Instant
  updatedAt : Instant
  reason : String := ""
deriving DecidableEq, Repr

/-- A row of `fills`, in the order of its auto-assigned id. -/
structure FillRow where
  broker : BrokerName
  orderId : String
  symbol : Symbol
  side : Side
  quantity : Decimal
  price : Decimal
  commission : Decimal
  tax : Decimal
  currency : Currency
  filledAt : Instant
  strategy : String
deriving DecidableEq, Repr

/-- A row of `positions`, keyed by broker and symbol. -/
structure PositionRow where
  quantity : Decimal
  avgPrice : Decimal
  currency : Currency
  strategy : String := ""
  openedAt : Instant
  updatedAt : Instant
deriving DecidableEq, Repr

/-- A row of `equity`, keyed by broker and timestamp. -/
structure EquityRow where
  equityKrw : Decimal
  cashKrw : Decimal
  positionsKrw : Decimal
  usdKrw : Decimal
deriving DecidableEq, Repr

/-- Why trading is stopped: the text a person gave, or what an automatic stop reports. -/
inductive HaltReason where
  | given (text : String)
  | dailyLoss (loss limit : Decimal)
  | orderBudget (used limit : ℤ)
deriving DecidableEq, Repr

/-- The state keys `halted`, `halted_for_date` and `halt_reason`. -/
structure KillSwitch where
  halted : Bool := false
  haltedForDate : Option Date := none
  haltReason : HaltReason := .given ""
deriving DecidableEq, Repr

structure Store where
  orders : Dict (BrokerName × String) OrderRow := ∅
  fills : List FillRow := []
  positions : Dict (BrokerName × Symbol) PositionRow := ∅
  cash : Dict (BrokerName × Currency) Decimal := ∅
  equity : Dict (BrokerName × Instant) EquityRow := ∅
  killSwitch : KillSwitch := {}
  lastUsdKrw : Option Decimal := none

namespace Store

/-- `record_equity`, stamped with `utcnow()`. A second mark in the same second replaces
the first. -/
def recordEquity (st : Store) (broker : BrokerName) (row : EquityRow) (now : Instant) : Store :=
  { st with equity := st.equity.insert (broker, now) row }

/-- The marks of one broker stamped on one UTC date. -/
def equityOn (st : Store) (broker : BrokerName) (day : Date) :
    List ((BrokerName × Instant) × EquityRow) :=
  st.equity.entries.filter fun e => e.1.1 = broker ∧ e.1.2.date = day

/-- `first_equity_of_day`: the earliest of them. -/
def firstEquityOfDay (st : Store) (broker : BrokerName) (day : Date) : Option Decimal :=
  ((st.equityOn broker day).argmin fun e => e.1.2).map fun e => e.2.equityKrw

theorem mem_equityOn {st : Store} {broker : BrokerName} {day : Date}
    {e : (BrokerName × Instant) × EquityRow} :
    e ∈ st.equityOn broker day ↔
      st.equity.get? e.1 = some e.2 ∧ e.1.1 = broker ∧ e.1.2.date = day := by
  simp only [equityOn, List.mem_filter, decide_eq_true_eq]
  rw [Dict.get?_eq_some]

/-- A mark of the day that no other mark of that day precedes is the baseline. -/
theorem firstEquityOfDay_eq {st : Store} {broker : BrokerName} {t : Instant} {row : EquityRow}
    (hrow : st.equity.get? (broker, t) = some row)
    (hfirst : ∀ t' row', st.equity.get? (broker, t') = some row' → t'.date = t.date → t ≤ t') :
    st.firstEquityOfDay broker t.date = some row.equityKrw := by
  have hmem : ((broker, t), row) ∈ st.equityOn broker t.date := mem_equityOn.mpr ⟨hrow, rfl, rfl⟩
  cases hmin : (st.equityOn broker t.date).argmin fun e => e.1.2 with
  | none =>
    rw [List.argmin_eq_none] at hmin
    rw [hmin] at hmem
    cases hmem
  | some e =>
    obtain ⟨hget, hbroker, hdate⟩ := mem_equityOn.mp (List.argmin_mem hmin)
    obtain ⟨⟨b, t'⟩, row'⟩ := e
    simp only at hget hbroker hdate
    subst hbroker
    have heq : t' = t := le_antisymm (List.le_of_mem_argmin hmem hmin) (hfirst t' row' hget hdate)
    subst heq
    rw [hrow] at hget
    cases hget
    rw [firstEquityOfDay, hmin]
    rfl

end Store
end Tqt
