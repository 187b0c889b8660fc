import Mathlib.Data.List.Basic

/-! Noninterference between the owners of operations on one state.

Each operation belongs to an owner and each owner has a view of the state. Where an
operation leaves the other owners' views alone and acts on its own owner's view as a
function of that view only, an owner's view after any interleaving is the one its own
operations alone produce (`Isolated.view_foldl`). -/
namespace Tqt

/-- Operations of one owner do not show in the view of another. -/
structure Isolated {σ α ι : Type*} {V : ι → Type*} (exec : σ → α → σ) (owner : α → ι)
    (view : (i : ι) → σ → V i) : Prop where
  silent : ∀ i s a, owner a ≠ i → view i (exec s a) = view i s
  consistent : ∀ s t a, view (owner a) s = view (owner a) t →
    view (owner a) (exec s a) = view (owner a) (exec t a)

namespace Isolated
variable {σ α ι : Type*} {V : ι → Type*} {exec : σ → α → σ} {owner : α → ι}
  {view : (i : ι) → σ → V i}

/-- **The other owners' operations may as well not happen.** -/
theorem view_foldl [DecidableEq ι] (h : Isolated exec owner view) (i : ι) (ops : List α) {s t : σ}
    (hview : view i s = view i t) :
    view i (ops.foldl exec s) = view i ((ops.filter fun a => owner a = i).foldl exec t) := by
  induction ops generalizing s t with
  | nil => exact hview
  | cons a rest ih =>
    by_cases ha : owner a = i
    · subst ha
      rw [List.filter_cons_of_pos (by simp), List.foldl_cons, List.foldl_cons]
      exact ih (h.consistent s t a hview)
    · rw [List.filter_cons_of_neg (by simp [ha]), List.foldl_cons]
      exact ih ((h.silent i s a ha).trans hview)

end Isolated
end Tqt
