import Tqt.Runner.Cycle
import Tqt.Runner.Thresholds

/-! What a cycle may still submit.

The planner reads the snapshot and nothing else: a cycle has an order for a symbol to submit
when the symbol is exposed in the account it looked at (`exposed_iff_pending`). From its plan
on, a cycle only works off what it planned: no step adds to `pending` (`pending_step`), so
whatever it submits was pending when it began (`submitted_pending`). -/
namespace Tqt.Runner

section
variable (targets : Dict Symbol Decimal) (markets : List Country) (prices : Symbol → Option Decimal)

/-- What a cycle may still submit. -/
def pending : Phase → List OrderIntent
  | .idle => []
  | .gating snap => (buildIntentsIn Context.fix targets snap markets prices).map Prod.fst
  | .planning snap => (buildIntentsIn Context.fix targets snap markets prices).map Prod.fst
  | .ordering _ orders => orders.map Prod.fst
  | .submitting _ intent rest => intent :: rest.map Prod.fst
  | .waiting _ intent rest => intent :: rest.map Prod.fst
  | .refreshing rest => rest.map Prod.fst

/-- A step of the cycle under way, with the targets, markets and quotes held fixed. -/
def OneCycle {β : Type} (_ : System β) : Step → Prop
  | .begin _ => False
  | .plan T M P => T = targets ∧ M = markets ∧ P = prices
  | _ => True

/-! ### What the planner orders -/

/-- **The planner reads the snapshot and nothing else.** -/
theorem exposed_iff_pending (snapshot : AccountSnapshot) (x : Symbol) (side : Side) :
    Exposed (targets.getD x 0) snapshot markets prices x side ↔
      ∃ intent ∈ pending targets markets prices (.planning snapshot),
        intent.symbol = x ∧ intent.side = side := by
  simp only [exposed_iff, pending, List.mem_map, exists_exists_and_eq_and]

theorem pending_sized (snapshot : AccountSnapshot) :
    ∀ i ∈ pending targets markets prices (.planning snapshot), ∃ q, i.quantity = some q ∧ 0 < q := by
  intro i hi
  obtain ⟨⟨intent, price⟩, hmem, rfl⟩ := List.mem_map.mp hi
  obtain ⟨-, symbol, drift, -, hplan⟩ := (mem_buildIntentsIn ..).mp hmem
  exact (planSymbolIn_planned hplan).positive

/-! ### What a step leaves to submit -/

variable {targets markets prices}

/-- Within a cycle nothing is added to what it may still submit. -/
theorem pending_step {β : Type} {B : BrokerModel β} {s t : System β} {a : Step}
    (hok : OneCycle targets markets prices s a) (hstep : Steps B s a t) :
    (pending targets markets prices t.phase).Sublist (pending targets markets prices s.phase) := by
  cases hstep with
  | begin _ _ => exact hok.elim
  | @gate snap st verdict hphase hcheck =>
    rw [hphase]
    show (pending targets markets prices (if verdict = .allow then .planning snap else .idle)).Sublist _
    split
    · exact List.Sublist.refl _
    · exact List.nil_sublist _
  | skip hphase => exact List.nil_sublist _
  | plan T M P hphase =>
    obtain ⟨rfl, rfl, rfl⟩ := hok
    rw [hphase]
    exact List.Sublist.refl _
  | @check snap intent price rest risk verdict ask hphase hcheck =>
    rw [hphase]
    show (pending targets markets prices
      (if verdict = .allow then .submitting snap intent rest else .ordering snap rest)).Sublist _
    split
    · exact List.Sublist.refl _
    · exact List.sublist_cons_self _ _
  | submit hphase =>
    rw [hphase]
    exact List.Sublist.refl _
  | @answer snap intent rest b st result hphase hsubmit =>
    rw [hphase]
    show (pending targets markets prices
      (if result.ok ∧ 0 < result.filledQuantity then .refreshing rest else .ordering snap rest)).Sublist _
    split <;> exact List.sublist_cons_self _ _
  | refresh hphase _ =>
    rw [hphase]
    exact List.Sublist.refl _
  | finish hphase => exact List.nil_sublist _
  | abort => exact List.nil_sublist _
  | halt _ => exact List.Sublist.refl _
  | resume => exact List.Sublist.refl _
  | tick _ => exact List.Sublist.refl _
  | exchange _ => exact List.Sublist.refl _
  | write _ => exact List.Sublist.refl _

theorem pending_run {β : Type} {B : BrokerModel β} {s t : System β} {steps : List Step}
    (hrun : ((cycleSystem B).restrict (OneCycle targets markets prices)).Run s steps t) :
    (pending targets markets prices t.phase).Sublist (pending targets markets prices s.phase) := by
  induction hrun with
  | nil s => exact List.Sublist.refl _
  | cons hstep _ ih => exact ih.trans (pending_step hstep.1 hstep.2)

/-- What is submitted was pending. -/
theorem submitted_pending {β : Type} {B : BrokerModel β} {s t : System β} {steps : List Step}
    (hrun : ((cycleSystem B).restrict (OneCycle targets markets prices)).Run s steps t)
    {intent : OrderIntent} (hmem : .submit intent ∈ steps) :
    intent ∈ pending targets markets prices s.phase := by
  obtain ⟨front, back, rfl⟩ := List.append_of_mem hmem
  obtain ⟨u, hfront, hrest⟩ := hrun.split
  apply (pending_run hfront).subset
  cases hrest with
  | cons hstep _ =>
    cases hstep.2 with
    | submit hphase =>
      rw [hphase]
      exact List.mem_cons_self

end
end Tqt.Runner
