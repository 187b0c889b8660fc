import Mathlib.Data.List.Basic

/-! The changes in a sequence of observations.

`changes` lists the neighbours that differ, as they came. One more observation adds the step from
the last one, if it is one (`changes_snoc`), and the changes lead from the first observation to
the last without a gap (`changes_path`). -/
namespace Tqt
variable {α : Type*}

/-- These steps lead from `a` to `b`. -/
def Path : α → List (α × α) → α → Prop
  | a, [], b => a = b
  | a, step :: rest, b => a = step.1 ∧ step.1 ≠ step.2 ∧ Path step.2 rest b

theorem Path.append {a b c : α} {first second : List (α × α)} (h : Path a first b)
    (h' : Path b second c) : Path a (first ++ second) c := by
  induction first generalizing a with
  | nil =>
    cases h
    exact h'
  | cons step rest ih => exact ⟨h.1, h.2.1, ih h.2.2⟩

section
variable [DecidableEq α]

/-- The step from `a` to `b`, if it is one. -/
def change (a b : α) : List (α × α) := if a = b then [] else [(a, b)]

def changes : List α → List (α × α)
  | [] => []
  | [_] => []
  | a :: b :: rest => change a b ++ changes (b :: rest)

theorem changes_snoc (l : List α) (a b : α) :
    changes (l ++ [a] ++ [b]) = changes (l ++ [a]) ++ change a b := by
  induction l with
  | nil => simp [changes]
  | cons x rest ih =>
    cases rest with
    | nil => simp [changes]
    | cons y rest =>
      simp only [List.cons_append, changes, List.append_assoc] at ih ⊢
      rw [ih]

/-- One more observation. -/
theorem changes_append (l : List α) (b : α) :
    changes (l ++ [b]) = changes l ++ l.getLast?.elim [] fun a => change a b := by
  rcases List.eq_nil_or_concat l with rfl | ⟨init, a, rfl⟩
  · rfl
  · rw [List.concat_eq_append, changes_snoc, List.getLast?_concat, Option.elim_some]

theorem path_change (a b : α) : Path a (change a b) b := by
  unfold change
  split
  · next h => exact h
  · next h => exact ⟨rfl, h, rfl⟩

theorem changes_path (a : α) (l : List α) :
    Path a (changes (a :: l)) ((a :: l).getLast (List.cons_ne_nil a l)) := by
  induction l generalizing a with
  | nil => rfl
  | cons b rest ih =>
    rw [List.getLast_cons (List.cons_ne_nil b rest)]
    exact (path_change a b).append (ih b)

end
end Tqt
