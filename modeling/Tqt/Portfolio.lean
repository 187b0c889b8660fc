import Tqt.Backtest.Engine
import Tqt.Universe

/-! The blended target book.

`PortfolioPlan.targetWeights` folds the decisions of the allocations into one map and
scales it down to full investment. What it computes is said without the fold in
`targetWeights_getD`: a symbol's target is the weighted sum of what the allocations
that decided want of it (`wanted`), over the larger of one and all they want (`gross`).
An allocation that failed wants zero of everything. With the roundings of the arithmetic the
same is `targetWeightsIn` (`targetWeightsIn_getD`), exact without them
(`targetWeightsIn_exact`). -/
namespace Tqt

/-- One (sleeve, strategy, weight). The strategy answers a price table and a date with
its weights and its explanation, or raises. -/
structure Allocation where
  sleeve : Sleeve
  strategyKey : String
  weight : Decimal
  strategy : Frame → Date → Option (Dict Symbol Decimal × String)

def Allocation.name (a : Allocation) : String := a.sleeve.key ++ ":" ++ a.strategyKey

/-- The allocations, with what `__post_init__` enforces. -/
structure PortfolioPlan where
  allocations : List Allocation
  rebalance : String := "monthly"
  nonempty : allocations ≠ []
  unlevered : (allocations.map Allocation.weight).sum ≤ 10001 / 10000
  nonneg : ∀ a ∈ allocations, 0 ≤ a.weight

/-- `closes.loc[: asof]`. -/
def Frame.upTo (f : Frame) (asof : Date) : Frame where
  columns := f.columns
  rows := f.rows.filter fun r => r.1 ≤ asof
  sorted := f.sorted.filter _

/-- `BuyAndHold.target_weights`: the risk assets with a price, in equal parts. -/
def buyAndHold (sleeve : Sleeve) (closes : Frame) (_asof : Date) :
    Option (Dict Symbol Decimal × String) :=
  let available := sleeve.riskSymbols.filter fun sym =>
    sym ∈ closes.columns ∧ closes.rows.any fun row => (row.2 sym).isSome
  if available = [] then some (∅, "")
  else some (Dict.ofList (available.map fun sym => (sym, 1 / (available.length : Decimal))),
    "equal weight " ++ toString available.length ++ " assets")

/-- The local price data: a table for any list of symbols (`store.load_frame`). -/
abbrev LocalData := List Symbol → Frame

namespace Allocation

/-- The body of the loop in `target_weights`: the weights, or why there are none. -/
def decide (a : Allocation) (data : LocalData) (asof : Option Date) :
    Except String (Dict Symbol Decimal × String) :=
  let closes := data a.sleeve.symbols
  if closes.isEmpty then .error "no data"
  else
    let closes := match asof with
      | some day => closes.upTo day
      | none => closes
    match closes.isEmpty, closes.index.getLast? with
    | false, some stamp =>
      match a.strategy closes stamp with
      | none => .error "strategy error"
      | some (weights, reason) =>
        .ok (weights, if reason = "" then "no reason given" else reason)
    | _, _ => .error "no data before asof"

/-- What the allocation decided; nothing if it failed. -/
def decision (a : Allocation) (data : LocalData) (asof : Option Date) : Dict Symbol Decimal :=
  match a.decide data asof with
  | .ok (weights, _) => weights
  | .error _ => ∅

/-- It wants something: its strategy answered, and not with an empty map. -/
def Decides (a : Allocation) (data : LocalData) (asof : Option Date) : Prop :=
  (a.decision data asof).entries ≠ []

instance (a : Allocation) (data : LocalData) (asof : Option Date) :
    Decidable (a.Decides data asof) :=
  inferInstanceAs (Decidable ((a.decision data asof).entries ≠ []))

end Allocation

namespace PortfolioPlan

/-- `combined[sym] = combined.get(sym, 0) + w * alloc.weight`, over one decision. -/
def blend (weight : Decimal) (combined : Dict Symbol Decimal) (targets : Dict Symbol Decimal) :
    Dict Symbol Decimal :=
  targets.entries.foldl (fun c e => c.insert e.1 (c.getD e.1 0 + e.2 * weight)) combined

def combine (allocations : List Allocation) (data : LocalData) (asof : Option Date) :
    Dict Symbol Decimal :=
  allocations.foldl (fun c a => blend a.weight c (a.decision data asof)) ∅

/-- Blended target weights across every sleeve, scaled down to full investment. -/
def targetWeights (plan : PortfolioPlan) (data : LocalData) (asof : Option Date) :
    Dict Symbol Decimal :=
  let combined := combine plan.allocations data asof
  if 1 < combined.total then combined.mapValues fun _ w => w * (1 / combined.total) else combined

/-- Each allocation's explanation, under its name. -/
def targetReasons (plan : PortfolioPlan) (data : LocalData) (asof : Option Date) :
    Dict String String :=
  plan.allocations.foldl (fun reasons a =>
    reasons.insert a.name (match a.decide data asof with
      | .ok (_, reason) => reason
      | .error why => why)) ∅

/-! ### With roundings -/

section Rounded
variable (fl : Decimal → Decimal)

/-- `combined[sym] = combined.get(sym, 0) + w * alloc.weight`, over one decision; `fl` is applied to
the result of every operation. -/
def blendIn (weight : Decimal) (combined targets : Dict Symbol Decimal) : Dict Symbol Decimal :=
  targets.entries.foldl
    (fun c e => c.insert e.1 (fl (c.getD e.1 0 + fl (e.2 * weight)))) combined

def combineIn (allocations : List Allocation) (data : LocalData) (asof : Option Date) :
    Dict Symbol Decimal :=
  allocations.foldl (fun c a => blendIn fl a.weight c (a.decision data asof)) ∅

/-- `sum(combined.values())` -/
def grossIn (allocations : List Allocation) (data : LocalData) (asof : Option Date) : Decimal :=
  ((combineIn fl allocations data asof).entries.map Prod.snd).foldl (fun total w => fl (total + w)) 0

/-- Scaled down where everything together is more than one. -/
def scaledIn (total w : Decimal) : Decimal := if 1 < total then fl (w * fl (1 / total)) else w

/-- `target_weights` as the code computes it. -/
def targetWeightsIn (plan : PortfolioPlan) (data : LocalData) (asof : Option Date) :
    Dict Symbol Decimal :=
  (combineIn fl plan.allocations data asof).mapValues fun _ w =>
    scaledIn fl (grossIn fl plan.allocations data asof) w

/-- What the allocations that name a symbol want of it, in their order. -/
def wantedIn (allocations : List Allocation) (data : LocalData) (asof : Option Date) (sym : Symbol) :
    Decimal :=
  allocations.foldl (fun c a =>
    match (a.decision data asof).get? sym with
    | some w => fl (c + fl (w * a.weight))
    | none => c) 0

theorem getD_foldl_blendIn (weight : Decimal) (entries : List (Symbol × Decimal))
    (hnodup : (entries.map Prod.fst).Nodup) (combined : Dict Symbol Decimal) (sym : Symbol) :
    (entries.foldl (fun c e => c.insert e.1 (fl (c.getD e.1 0 + fl (e.2 * weight)))) combined).getD sym 0 =
      match entries.lookup sym with
      | some w => fl (combined.getD sym 0 + fl (w * weight))
      | none => combined.getD sym 0 := by
  induction entries generalizing combined with
  | nil => rfl
  | cons e rest ih =>
    obtain ⟨k, w⟩ := e
    simp only [List.map_cons, List.nodup_cons] at hnodup
    rw [List.foldl_cons, ih hnodup.2, Dict.getD_insert, List.lookup_cons]
    by_cases h : sym = k
    · subst h
      have hnone : rest.lookup sym = none := by
        cases hl : rest.lookup sym with
        | none => rfl
        | some v =>
          have := (Dict.lookup_eq_some rest hnodup.2 sym v).mp hl
          exact absurd (List.mem_map_of_mem (f := Prod.fst) this) hnodup.1
      simp [hnone]
    · simp [h, beq_eq_false_iff_ne.mpr h]

end Rounded

/-! ### What the fold computes -/

/-- What the allocations want of a symbol, weighted. -/
def wanted (allocations : List Allocation) (data : LocalData) (asof : Option Date)
    (sym : Symbol) : Decimal :=
  (allocations.map fun a => (a.decision data asof).getD sym 0 * a.weight).sum

/-- What they want of everything. -/
def gross (allocations : List Allocation) (data : LocalData) (asof : Option Date) : Decimal :=
  (allocations.map fun a => (a.decision data asof).total * a.weight).sum

theorem getD_blend (weight : Decimal) (combined targets : Dict Symbol Decimal) (sym : Symbol) :
    (blend weight combined targets).getD sym 0 =
      combined.getD sym 0 + targets.getD sym 0 * weight := by
  refine (getD_foldl_blendIn id weight targets.entries targets.nodup combined sym).trans ?_
  rw [Dict.getD, Dict.getD, Dict.get?, Dict.get?]
  cases targets.entries.lookup sym with
  | none => simp
  | some w => rfl

theorem total_blend (weight : Decimal) (combined targets : Dict Symbol Decimal) :
    (blend weight combined targets).total = combined.total + targets.total * weight := by
  unfold blend Dict.total
  induction targets.entries generalizing combined with
  | nil => simp
  | cons e rest ih =>
    rw [List.foldl_cons, ih]
    have hadd := Dict.total_add combined e.1 (e.2 * weight)
    rw [Dict.total, Dict.total] at hadd
    rw [hadd, List.map_cons, List.sum_cons]
    ring

theorem getD_combine (allocations : List Allocation) (data : LocalData) (asof : Option Date)
    (sym : Symbol) :
    (combine allocations data asof).getD sym 0 = wanted allocations data asof sym := by
  have hfold : ∀ (l : List Allocation) (c : Dict Symbol Decimal),
      (l.foldl (fun c a => blend a.weight c (a.decision data asof)) c).getD sym 0 =
        c.getD sym 0 + wanted l data asof sym := by
    intro l
    induction l with
    | nil => simp [wanted]
    | cons a rest ih =>
      intro c
      rw [List.foldl_cons, ih, getD_blend, wanted, wanted, List.map_cons, List.sum_cons, add_assoc]
  rw [combine, hfold, Dict.getD_empty, zero_add]

theorem total_combine (allocations : List Allocation) (data : LocalData) (asof : Option Date) :
    (combine allocations data asof).total = gross allocations data asof := by
  have hfold : ∀ (l : List Allocation) (c : Dict Symbol Decimal),
      (l.foldl (fun c a => blend a.weight c (a.decision data asof)) c).total =
        c.total + gross l data asof := by
    intro l
    induction l with
    | nil => simp [gross]
    | cons a rest ih =>
      intro c
      rw [List.foldl_cons, ih, total_blend, gross, gross, List.map_cons, List.sum_cons, add_assoc]
  rw [combine, hfold, Dict.total_empty, zero_add]

/-- **A symbol's target**: what is wanted of it, scaled to full investment. -/
theorem targetWeights_getD (plan : PortfolioPlan) (data : LocalData) (asof : Option Date)
    (sym : Symbol) :
    (plan.targetWeights data asof).getD sym 0 =
      wanted plan.allocations data asof sym / max 1 (gross plan.allocations data asof) := by
  simp only [targetWeights, total_combine]
  split
  · next h =>
    rw [max_eq_right h.le, ← getD_combine]
    simp only [Dict.getD, Dict.get?_mapValues]
    cases (combine plan.allocations data asof).get? sym with
    | none => simp
    | some w => simp [div_eq_mul_inv]
  · next h =>
    rw [max_eq_left (not_lt.mp h), div_one, getD_combine]

/-! ### What the rounded fold computes -/

section Rounded
variable (fl : Decimal → Decimal)

theorem getD_combineIn (allocations : List Allocation) (data : LocalData) (asof : Option Date)
    (sym : Symbol) :
    (combineIn fl allocations data asof).getD sym 0 = wantedIn fl allocations data asof sym := by
  have hfold : ∀ (l : List Allocation) (c : Dict Symbol Decimal),
      (l.foldl (fun c a => blendIn fl a.weight c (a.decision data asof)) c).getD sym 0 =
        l.foldl (fun c a =>
          match (a.decision data asof).get? sym with
          | some w => fl (c + fl (w * a.weight))
          | none => c) (c.getD sym 0) := by
    intro l
    induction l with
    | nil => exact fun c => rfl
    | cons a rest ih =>
      intro c
      rw [List.foldl_cons, ih, List.foldl_cons, blendIn,
        getD_foldl_blendIn fl a.weight _ (a.decision data asof).nodup]
      rfl
  rw [combineIn, hfold, Dict.getD_empty, wantedIn]

/-- **A symbol's target** as it is computed. -/
theorem targetWeightsIn_getD (h0 : fl 0 = 0) (plan : PortfolioPlan) (data : LocalData)
    (asof : Option Date) (sym : Symbol) :
    (plan.targetWeightsIn fl data asof).getD sym 0 =
      scaledIn fl (grossIn fl plan.allocations data asof) (wantedIn fl plan.allocations data asof sym) := by
  have hzero : scaledIn fl (grossIn fl plan.allocations data asof) 0 = 0 := by
    unfold scaledIn
    split
    · rw [zero_mul, h0]
    · rfl
  rw [targetWeightsIn, ← getD_combineIn, Dict.getD, Dict.getD, Dict.get?_mapValues]
  cases (combineIn fl plan.allocations data asof).get? sym with
  | none => exact hzero.symm
  | some w => rfl

theorem blendIn_ne_nil {weight : Decimal} {combined targets : Dict Symbol Decimal}
    (h : combined.entries ≠ [] ∨ targets.entries ≠ []) :
    (blendIn fl weight combined targets).entries ≠ [] := by
  unfold blendIn
  generalize targets.entries = entries at h
  induction entries generalizing combined with
  | nil => simpa using h
  | cons e rest ih =>
    refine ih (.inl ?_)
    intro hnil
    have := (Dict.mem_keys_insert combined e.1 (fl (combined.getD e.1 0 + fl (e.2 * weight))) e.1).mpr
      (.inl rfl)
    rw [Dict.keys, hnil] at this
    cases this

/-- A book is empty exactly when nothing was decided. -/
theorem combineIn_ne_nil_iff (allocations : List Allocation) (data : LocalData) (asof : Option Date) :
    (combineIn fl allocations data asof).entries ≠ [] ↔ ∃ a ∈ allocations, a.Decides data asof := by
  have hfold : ∀ (l : List Allocation) (c : Dict Symbol Decimal),
      (l.foldl (fun c a => blendIn fl a.weight c (a.decision data asof)) c).entries ≠ [] ↔
        c.entries ≠ [] ∨ ∃ a ∈ l, a.Decides data asof := by
    intro l
    induction l with
    | nil => simp
    | cons a rest ih =>
      intro c
      have hblend : (blendIn fl a.weight c (a.decision data asof)).entries ≠ [] ↔
          c.entries ≠ [] ∨ a.Decides data asof := by
        refine ⟨fun h => ?_, blendIn_ne_nil fl⟩
        by_contra hnone
        obtain ⟨hc, hempty⟩ := not_or.mp hnone
        apply h
        rw [blendIn, not_not.mp hempty, List.foldl_nil, not_not.mp hc]
      rw [List.foldl_cons, ih, hblend, List.exists_mem_cons_iff, or_assoc]
  rw [combineIn, hfold, or_iff_right]
  exact fun h => h rfl

/-- Without a decision the book is empty. -/
theorem targetWeightsIn_ne_nil_iff (plan : PortfolioPlan) (data : LocalData) (asof : Option Date) :
    (plan.targetWeightsIn fl data asof).entries ≠ [] ↔ ∃ a ∈ plan.allocations, a.Decides data asof := by
  rw [← combineIn_ne_nil_iff fl, targetWeightsIn]
  simp [Dict.mapValues]

/-- Without roundings it is the exact book. -/
theorem targetWeightsIn_exact (plan : PortfolioPlan) (data : LocalData) (asof : Option Date) :
    plan.targetWeightsIn id data asof = plan.targetWeights data asof := by
  have hgross : grossIn id plan.allocations data asof = (combine plan.allocations data asof).total := by
    rw [grossIn, Dict.total, List.sum_eq_foldl]
    rfl
  have hcombine : combineIn id plan.allocations data asof = combine plan.allocations data asof := rfl
  simp only [targetWeightsIn, targetWeights, scaledIn, hgross, hcombine]
  split
  · rfl
  · exact Dict.ext_entries (List.map_id _)

end Rounded

end PortfolioPlan
end Tqt
