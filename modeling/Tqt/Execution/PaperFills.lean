import Tqt.Data.Store
import Mathlib.Algebra.Order.Field.Basic
import Mathlib.Tactic.Linarith
import Mathlib.Tactic.Ring

/-! What the fills of the paper account add up to.

The quantity and the cash that a list of fills moves, and the prices a symbol was bought
at since its position was last flat. A blended average lies between two of these
(`Among.blend`). -/
namespace Tqt
namespace PaperBroker

def paperFills (st : Store) : List FillRow := st.fills.filter fun f => f.broker = .paper

/-- The quantity a fill moves. -/
def filled (f : FillRow) : Decimal :=
  match f.side with
  | .BUY => f.quantity
  | .SELL => -f.quantity

/-- BUY minus SELL quantities of a symbol. -/
def netFilled (sym : Symbol) (fills : List FillRow) : Decimal :=
  (fills.map fun f => if f.symbol = sym then filled f else 0).sum

/-- The cash in KRW a fill moves at the rate it was converted at. -/
def cashMoved (e : FillRow × Decimal) : Decimal :=
  match e.1.side with
  | .BUY => -((e.1.price * e.1.quantity + (e.1.commission + e.1.tax)) * e.2)
  | .SELL => (e.1.price * e.1.quantity - (e.1.commission + e.1.tax)) * e.2

/-- One more fill: the quantity held, and the prices bought at since it was last zero. -/
def flatStep (sym : Symbol) (s : Decimal × List Decimal) (f : FillRow) : Decimal × List Decimal :=
  if f.symbol = sym then
    match f.side with
    | .BUY => (s.1 + f.quantity, f.price :: s.2)
    | .SELL => (s.1 - f.quantity, if s.1 - f.quantity ≤ 0 then [] else s.2)
  else s

def sinceFlat (sym : Symbol) (fills : List FillRow) : Decimal × List Decimal :=
  fills.foldl (flatStep sym) (0, [])

/-- The prices a symbol was bought at since its position was last flat. -/
def boughtAt (sym : Symbol) (fills : List FillRow) : List Decimal := (sinceFlat sym fills).2

/-- Between the lowest and the highest of some prices. -/
def Among (x : Decimal) (prices : List Decimal) : Prop :=
  ∃ lo ∈ prices, ∃ hi ∈ prices, lo ≤ x ∧ x ≤ hi

theorem netFilled_snoc (sym : Symbol) (fills : List FillRow) (f : FillRow) :
    netFilled sym (fills ++ [f]) = netFilled sym fills + if f.symbol = sym then filled f else 0 := by
  simp [netFilled]

theorem sinceFlat_snoc (sym : Symbol) (fills : List FillRow) (f : FillRow) :
    sinceFlat sym (fills ++ [f]) = flatStep sym (sinceFlat sym fills) f := by
  simp [sinceFlat]

theorem sinceFlat_quantity (sym : Symbol) (fills : List FillRow) :
    (sinceFlat sym fills).1 = netFilled sym fills := by
  induction fills using List.reverseRecOn with
  | nil => rfl
  | append_singleton fills f ih =>
    rw [sinceFlat_snoc, netFilled_snoc, flatStep, ← ih]
    by_cases h : f.symbol = sym
    · rw [if_pos h, if_pos h]
      cases hs : f.side <;> simp [filled, hs, sub_eq_add_neg]
    · rw [if_neg h, if_neg h, add_zero]

/-- A mean of two prices with positive weights lies between them. -/
theorem Among.blend {a px q qty : Decimal} {prices : List Decimal} (hq : 0 ≤ q) (hqty : 0 < qty)
    (h : 0 < q → Among a prices) :
    Among ((a * q + px * qty) / (q + qty)) (px :: prices) := by
  have hsum : 0 < q + qty := by linarith
  rcases lt_or_eq_of_le hq with hpos | hzero
  · obtain ⟨lo, hlo, hi, hhi, hle, hge⟩ := h hpos
    have hmin : min lo px ∈ px :: prices := by
      rcases min_choice lo px with hm | hm <;> rw [hm]
      · exact List.mem_cons_of_mem _ hlo
      · exact List.mem_cons_self ..
    have hmax : max hi px ∈ px :: prices := by
      rcases max_choice hi px with hm | hm <;> rw [hm]
      · exact List.mem_cons_of_mem _ hhi
      · exact List.mem_cons_self ..
    refine ⟨_, hmin, _, hmax, ?_, ?_⟩
    · rw [le_div_iff₀ hsum]
      calc min lo px * (q + qty) = min lo px * q + min lo px * qty := by ring
        _ ≤ a * q + px * qty := add_le_add
          (mul_le_mul_of_nonneg_right ((min_le_left _ _).trans hle) hq)
          (mul_le_mul_of_nonneg_right (min_le_right _ _) hqty.le)
    · rw [div_le_iff₀ hsum]
      calc a * q + px * qty ≤ max hi px * q + max hi px * qty := add_le_add
            (mul_le_mul_of_nonneg_right (hge.trans (le_max_left _ _)) hq)
            (mul_le_mul_of_nonneg_right (le_max_right _ _) hqty.le)
        _ = max hi px * (q + qty) := by ring
  · -- The first purchase: the average is its price.
    subst hzero
    have heq : (a * 0 + px * qty) / (0 + qty) = px := by
      rw [mul_zero, zero_add, zero_add, mul_div_assoc, div_self hqty.ne', mul_one]
    exact ⟨px, List.mem_cons_self .., px, List.mem_cons_self .., heq.ge, heq.le⟩

end PaperBroker
end Tqt
