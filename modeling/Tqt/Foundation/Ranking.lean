import Mathlib.Data.List.Count
import Mathlib.Data.List.Sort

/-! The front of a ranking.

In a list that is ranked by a relation, the first `k` entries stand in it to all the others.
A property that what ranks lower inherits is none of the first `k`'s when few enough entries
have it (`not_of_mem_take`): an entry in front that had it would pass it to the whole rest. -/
namespace Tqt
variable {α : Type*} {l : List α} {k : ℕ} {a b : α}

theorem rel_of_mem_take {R : α → α → Prop} (hranked : l.Pairwise R) (ha : a ∈ l.take k)
    (hb : b ∈ l.drop k) : R a b := by
  rw [← List.take_append_drop k l, List.pairwise_append] at hranked
  exact hranked.2.2 a ha b hb

theorem not_of_mem_take {P : α → Prop} [DecidablePred P] (hinherits : l.Pairwise fun a b => P a → P b)
    (hfew : l.countP P + k ≤ l.length) (ha : a ∈ l.take k) : ¬ P a := by
  intro hP
  have hrest : (l.drop k).countP P = (l.drop k).length :=
    List.countP_eq_length.mpr fun b hb => decide_eq_true (rel_of_mem_take hinherits ha hb hP)
  have hfront : 0 < (l.take k).countP P := List.countP_pos_iff.mpr ⟨a, ha, decide_eq_true hP⟩
  have hsplit : l.countP P = (l.take k).countP P + (l.drop k).countP P := by
    rw [← List.countP_append, List.take_append_drop]
  rw [hrest, List.length_drop] at hsplit
  omega

/-! ### Ranks -/

section Ranks
variable [LinearOrder α]

/-- In a list from the greatest down, an entry is among the first `k` when fewer than `k` are greater. -/
theorem mem_take_iff_countP (h : l.Pairwise (· > ·)) (ha : a ∈ l) :
    a ∈ l.take k ↔ l.countP (a < ·) < k := by
  induction l generalizing k with
  | nil => cases ha
  | cons b rest ih =>
    obtain ⟨hlt, hrest⟩ := List.pairwise_cons.mp h
    cases k with
    | zero => simp
    | succ k =>
      rw [List.take_succ_cons, List.mem_cons, List.countP_cons]
      rcases List.mem_cons.mp ha with rfl | ha
      · have hnone : rest.countP (a < ·) = 0 :=
          List.countP_eq_zero.mpr fun c hc => by simpa using (hlt c hc).le
        simp [hnone]
      · have hab : a < b := hlt a ha
        rw [ih hrest ha, if_pos (decide_eq_true hab)]
        constructor
        · rintro (heq | hlt)
          · exact absurd heq hab.ne
          · omega
        · exact fun hlt => .inr (by omega)

/-- **The top of a list**: the entries with fewer than `k` greater ones. -/
theorem mem_take_insertionSort_iff (h : l.Nodup) (k : ℕ) (a : α) :
    a ∈ (l.insertionSort (· ≥ ·)).take k ↔ a ∈ l ∧ l.countP (a < ·) < k := by
  have hperm := List.perm_insertionSort (· ≥ ·) l
  have hsorted : (l.insertionSort (· ≥ ·)).Pairwise (· > ·) :=
    ((List.pairwise_insertionSort (· ≥ ·) l).and (hperm.nodup_iff.mpr h)).imp
      fun hab => lt_of_le_of_ne hab.1 (Ne.symm hab.2)
  rw [← hperm.countP_eq, ← hperm.mem_iff]
  constructor
  · intro htake
    have hmem := List.mem_of_mem_take htake
    exact ⟨hmem, (mem_take_iff_countP hsorted hmem).mp htake⟩
  · exact fun hboth => (mem_take_iff_countP hsorted hboth.1).mpr hboth.2

end Ranks

end Tqt
