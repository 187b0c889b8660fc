import Mathlib.Data.List.Forall2
import Mathlib.Data.List.Induction
import Mathlib.Data.List.Sort

/-! One pass over a list of tasks.

Tasks sorted by a key come in the order of their keys (`pairwise_sortBy`). A task touches nothing
but its own key (`Local`), so in a pass over tasks with distinct keys it finds its key as it was at
the start and leaves it as it is at the end (`Local.turn`). What the tasks write down one entry
each, at most, is a list that follows some of them in their order (`foldl_log`). -/
namespace Tqt
variable {α β κ ν φ : Type*}

theorem pairwise_sortBy [LinearOrder κ] (key : α → κ) (l : List α) :
    (l.insertionSort fun a b => key a ≤ key b).Pairwise fun a b => key a ≤ key b := by
  have : Std.Total fun a b => key a ≤ key b := ⟨fun a b => le_total (key a) (key b)⟩
  have : IsTrans α fun a b => key a ≤ key b := ⟨fun _ _ _ => le_trans⟩
  exact List.pairwise_insertionSort _ l

/-- A step changes nothing that is seen under another key than its own. -/
def Local (step : β → α → β) (key : α → κ) (view : β → κ → ν) : Prop :=
  ∀ b i k, k ≠ key i → view (step b i) k = view b k

namespace Local
variable {step : β → α → β} {key : α → κ} {view : β → κ → ν} (h : Local step key view)
include h

theorem foldl {k : κ} (l : List α) (hk : k ∉ l.map key) (b : β) :
    view (l.foldl step b) k = view b k := by
  induction l generalizing b with
  | nil => rfl
  | cons i rest ih =>
    rw [List.map_cons, List.mem_cons, not_or] at hk
    rw [List.foldl_cons, ih hk.2, h b i k hk.1]

/-- **A task's turn**: its key is as it was, and stays as the task leaves it. -/
theorem turn {front back : List α} {i : α} (hnodup : ((front ++ i :: back).map key).Nodup) (b : β) :
    view (front.foldl step b) (key i) = view b (key i) ∧
      view ((front ++ i :: back).foldl step b) (key i) =
        view (step (front.foldl step b) i) (key i) := by
  rw [List.map_append, List.map_cons, List.nodup_middle, List.nodup_cons, List.mem_append,
    not_or] at hnodup
  refine ⟨h.foldl front hnodup.1.1 b, ?_⟩
  rw [List.foldl_append, List.foldl_cons, h.foldl back hnodup.1.2]

end Local

/-- The entries of a pass follow tasks of it, in their order. -/
theorem foldl_log {step : β → α → β} {log : β → List φ} {Of : φ → α → Prop} (l : List α) (b : β)
    (h : ∀ front i back, l = front ++ i :: back →
      log (step (front.foldl step b) i) = log (front.foldl step b) ∨
        ∃ f, log (step (front.foldl step b) i) = log (front.foldl step b) ++ [f] ∧ Of f i) :
    ∃ entries tasks, log (l.foldl step b) = log b ++ entries ∧ tasks.Sublist l ∧
      List.Forall₂ Of entries tasks := by
  induction l using List.reverseRecOn with
  | nil => exact ⟨[], [], (List.append_nil _).symm, List.Sublist.slnil, .nil⟩
  | append_singleton l i ih =>
    obtain ⟨entries, tasks, hlog, hsub, hof⟩ := ih fun front j back hl =>
      h front j (back ++ [i]) (by rw [hl, List.append_assoc, List.cons_append])
    rw [List.foldl_append, List.foldl_cons, List.foldl_nil]
    rcases h l i [] rfl with hsame | ⟨f, hnew, hf⟩
    · exact ⟨entries, tasks, hsame.trans hlog, hsub.trans (List.sublist_append_left l [i]), hof⟩
    · refine ⟨entries ++ [f], tasks ++ [i], ?_, hsub.append_right [i], ?_⟩
      · rw [hnew, hlog, List.append_assoc]
      · exact List.rel_append hof (.cons hf .nil)

/-- Each entry is one of its task. -/
theorem exists_of_forall₂ {Of : φ → α → Prop} {entries : List φ} {tasks : List α}
    (hof : List.Forall₂ Of entries tasks) {f : φ} (hf : f ∈ entries) : ∃ i ∈ tasks, Of f i := by
  induction hof with
  | nil => cases hf
  | @cons g i entries tasks hg _ ih =>
    rcases List.mem_cons.mp hf with rfl | hf
    · exact ⟨i, List.mem_cons_self, hg⟩
    · obtain ⟨j, hj, hfj⟩ := ih hf
      exact ⟨j, List.mem_cons_of_mem i hj, hfj⟩

/-- Entries that follow tasks come in the order of the tasks. -/
theorem pairwise_of_forall₂ {Of : φ → α → Prop} {R : α → α → Prop} {S : φ → φ → Prop}
    {entries : List φ} {tasks : List α} (hof : List.Forall₂ Of entries tasks) (htasks : tasks.Pairwise R)
    (h : ∀ {f g i j}, Of f i → Of g j → R i j → S f g) : entries.Pairwise S := by
  induction hof with
  | nil => exact .nil
  | @cons f i entries tasks hf hrest ih =>
    obtain ⟨hfirst, htasks⟩ := List.pairwise_cons.mp htasks
    refine List.pairwise_cons.mpr ⟨fun g hg => ?_, ih htasks⟩
    obtain ⟨j, hj, hgj⟩ := exists_of_forall₂ hrest hg
    exact h hf hgj (hfirst j hj)

end Tqt
