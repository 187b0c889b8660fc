import Mathlib.Data.List.Nodup
import Mathlib.Order.Lattice

/-! The last element of each group of a list.

`lastOfEach key l` keeps, for every key that occurs in `l`, the last element that has
it. On a list whose keys never decrease, whether an element is kept depends on its
successor alone (`mem_lastOfEach_next`): the rest of the list may be anything. -/
namespace Tqt
variable {α κ : Type*} [DecidableEq κ]

def lastOfEach (key : α → κ) : List α → List α
  | [] => []
  | a :: rest =>
    if rest.any fun b => key b = key a then lastOfEach key rest else a :: lastOfEach key rest

theorem mem_of_mem_lastOfEach {key : α → κ} {l : List α} {a : α} (h : a ∈ lastOfEach key l) :
    a ∈ l := by
  induction l with
  | nil => exact h
  | cons b rest ih =>
    unfold lastOfEach at h
    split at h
    · exact List.mem_cons_of_mem b (ih h)
    · rcases List.mem_cons.mp h with rfl | h
      · exact List.mem_cons_self ..
      · exact List.mem_cons_of_mem b (ih h)

/-- Skipping what precedes an element, if it does not occur there. -/
theorem mem_lastOfEach_append {key : α → κ} {front : List α} {l : List α} {a : α}
    (h : a ∉ front) : a ∈ lastOfEach key (front ++ l) ↔ a ∈ lastOfEach key l := by
  induction front with
  | nil => rfl
  | cons b rest ih =>
    simp only [List.mem_cons, not_or] at h
    rw [List.cons_append, lastOfEach]
    split
    · exact ih h.2
    · rw [List.mem_cons, ih h.2, or_iff_right h.1]

/-- An element that occurs once is kept exactly when no later one has its key. -/
theorem mem_lastOfEach_split {key : α → κ} {front back : List α} {a : α} (hf : a ∉ front)
    (hb : a ∉ back) : a ∈ lastOfEach key (front ++ a :: back) ↔ ∀ b ∈ back, key b ≠ key a := by
  rw [mem_lastOfEach_append hf, lastOfEach]
  by_cases h : back.any fun b => key b = key a
  · rw [if_pos h]
    simp only [List.any_eq_true, decide_eq_true_eq] at h
    obtain ⟨b, hm, hk⟩ := h
    exact ⟨fun ha => absurd (mem_of_mem_lastOfEach ha) hb, fun hall => absurd hk (hall b hm)⟩
  · rw [if_neg h]
    simp only [List.any_eq_true, decide_eq_true_eq, not_exists, not_and] at h
    exact ⟨fun _ => h, fun _ => List.mem_cons_self ..⟩

/-- With keys that never decrease, the successor decides. -/
theorem mem_lastOfEach_next [LinearOrder κ] {key : α → κ} {front back : List α} {a b : α}
    (hn : (front ++ a :: b :: back).Nodup)
    (hs : (front ++ a :: b :: back).Pairwise fun x y => key x ≤ key y) :
    a ∈ lastOfEach key (front ++ a :: b :: back) ↔ key b ≠ key a := by
  obtain ⟨-, hn', hd⟩ := List.nodup_append.mp hn
  have hf : a ∉ front := fun hm => hd a hm a (List.mem_cons_self ..) rfl
  rw [mem_lastOfEach_split hf (List.nodup_cons.mp hn').1]
  obtain ⟨-, hs', -⟩ := List.pairwise_append.mp hs
  simp only [List.pairwise_cons] at hs'
  constructor
  · intro h
    exact h b (List.mem_cons_self ..)
  · intro hne c hc
    have hab : key a < key b := lt_of_le_of_ne (hs'.1 b (List.mem_cons_self ..)) (Ne.symm hne)
    rcases List.mem_cons.mp hc with rfl | hc
    · exact hne
    · exact ne_of_gt (lt_of_lt_of_le hab (hs'.2.1 c hc))

/-- Keys that tell the elements of the list apart alike keep the same ones. -/
theorem lastOfEach_congr {κ' : Type*} [DecidableEq κ'] {key : α → κ} {key' : α → κ'} {l : List α}
    (h : ∀ a ∈ l, ∀ b ∈ l, key a = key b ↔ key' a = key' b) :
    lastOfEach key l = lastOfEach key' l := by
  induction l with
  | nil => rfl
  | cons a rest ih =>
    have hrest := ih fun x hx y hy => h x (List.mem_cons_of_mem a hx) y (List.mem_cons_of_mem a hy)
    have hany : (rest.any fun b => key b = key a) = rest.any fun b => key' b = key' a := by
      rw [Bool.eq_iff_iff]
      simp only [List.any_eq_true, decide_eq_true_eq]
      exact exists_congr fun b => and_congr_right fun hb =>
        h b (List.mem_cons_of_mem a hb) a (List.mem_cons_self ..)
    rw [lastOfEach, lastOfEach, hany, hrest]

end Tqt
