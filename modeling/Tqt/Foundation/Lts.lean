import Mathlib.Logic.Relation

/-! Labelled transition systems and their runs.

A run lists the labels of the steps it took. What one step preserves a run preserves
(`Run.invariant`); a condition on the steps taken is a system of its own
(`restrict`), so that "in every run whose steps all meet the condition" is a
statement about the runs of that system. -/
namespace Tqt

structure Lts (σ α : Type*) where
  step : σ → α → σ → Prop

namespace Lts
variable {σ α : Type*} {M : Lts σ α}

inductive Run (M : Lts σ α) : σ → List α → σ → Prop where
  | nil (s : σ) : Run M s [] s
  | cons {s t u : σ} {a : α} {labels : List α} :
      M.step s a t → Run M t labels u → Run M s (a :: labels) u

theorem Run.append {s t u : σ} {first second : List α} (h : M.Run s first t)
    (h' : M.Run t second u) : M.Run s (first ++ second) u := by
  induction h with
  | nil s => exact h'
  | cons hs _ ih => exact .cons hs (ih h')

theorem Run.snoc {s t u : σ} {labels : List α} {a : α} (h : M.Run s labels t)
    (hs : M.step t a u) : M.Run s (labels ++ [a]) u :=
  h.append (.cons hs (.nil u))

/-- A run over a concatenation passes through a state in between. -/
theorem Run.split {s u : σ} {first second : List α} (h : M.Run s (first ++ second) u) :
    ∃ t, M.Run s first t ∧ M.Run t second u := by
  induction first generalizing s with
  | nil => exact ⟨s, .nil s, h⟩
  | cons a rest ih =>
    cases h with
    | cons hs hrest =>
      obtain ⟨t, ht, hu⟩ := ih hrest
      exact ⟨t, .cons hs ht, hu⟩

/-- A property of states that every step preserves holds at the end of every run
that starts with it. -/
theorem Run.invariant {Inv : σ → Prop} (preserved : ∀ s a t, Inv s → M.step s a t → Inv t)
    {s t : σ} {labels : List α} (h : M.Run s labels t) (hs : Inv s) : Inv t := by
  induction h with
  | nil s => exact hs
  | cons hstep _ ih => exact ih (preserved _ _ _ hs hstep)

/-- The steps taken in states where `ok` allows their label. -/
def restrict (M : Lts σ α) (ok : σ → α → Prop) : Lts σ α :=
  ⟨fun s a t => ok s a ∧ M.step s a t⟩

theorem Run.of_restrict {ok : σ → α → Prop} {s t : σ} {labels : List α}
    (h : (M.restrict ok).Run s labels t) : M.Run s labels t := by
  induction h with
  | nil s => exact .nil s
  | cons hs _ ih => exact .cons hs.2 ih

theorem Run.weaken {ok ok' : σ → α → Prop} (h : ∀ s a, ok s a → ok' s a) {s t : σ}
    {labels : List α} (hrun : (M.restrict ok).Run s labels t) :
    (M.restrict ok').Run s labels t := by
  induction hrun with
  | nil s => exact .nil s
  | cons hs _ ih => exact .cons ⟨h _ _ hs.1, hs.2⟩ ih

/-- A condition on the steps that an invariant turns into another one. -/
theorem Run.strengthen {ok ok' : σ → α → Prop} {Inv : σ → Prop}
    (preserved : ∀ s a t, Inv s → (M.restrict ok).step s a t → Inv t)
    (h : ∀ s a, Inv s → ok s a → ok' s a) {s t : σ} {labels : List α}
    (hrun : (M.restrict ok).Run s labels t) (hs : Inv s) : (M.restrict ok').Run s labels t := by
  induction hrun with
  | nil s => exact .nil s
  | cons hstep _ ih =>
    exact .cons ⟨h _ _ hs hstep.1, hstep.2⟩ (ih (preserved _ _ _ hs hstep))

end Lts
end Tqt
