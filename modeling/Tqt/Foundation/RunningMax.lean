import Mathlib.Data.List.Basic
import Mathlib.Order.Lattice

/-! Running maxima, and the two sides of an entry of a sorted list.

The running maximum at an index is the greatest entry up to it (`getElem?_runningMax`). In a
list whose keys increase, the entries up to a key it has are a front part of it
(`filter_le_eq_take`) and those from that key on are the rest (`filter_ge_eq_drop`). -/
namespace Tqt

section
variable {α : Type*} [LinearOrder α]

def runningMaxFrom (top : α) : List α → List α
  | [] => []
  | a :: rest => max top a :: runningMaxFrom (max top a) rest

def runningMax : List α → List α
  | [] => []
  | a :: rest => a :: runningMaxFrom a rest

theorem length_runningMaxFrom (top : α) (l : List α) : (runningMaxFrom top l).length = l.length := by
  induction l generalizing top with
  | nil => rfl
  | cons a rest ih => rw [runningMaxFrom, List.length_cons, List.length_cons, ih]

theorem length_runningMax (l : List α) : (runningMax l).length = l.length := by
  cases l with
  | nil => rfl
  | cons a rest => rw [runningMax, List.length_cons, List.length_cons, length_runningMaxFrom]

theorem getElem?_runningMaxFrom {l : List α} {i : ℕ} (h : i < l.length) (top : α) :
    (runningMaxFrom top l)[i]? = some ((l.take (i + 1)).foldl max top) := by
  induction l generalizing top i with
  | nil => exact absurd h (Nat.not_lt_zero i)
  | cons a rest ih =>
    cases i with
    | zero => simp [runningMaxFrom]
    | succ i =>
      rw [runningMaxFrom, List.getElem?_cons_succ, List.take_succ_cons, List.foldl_cons]
      exact ih (Nat.lt_of_succ_lt_succ h) (max top a)

theorem getElem?_runningMax {l : List α} {i : ℕ} (h : i < l.length) :
    (runningMax l)[i]? = (l.take (i + 1)).max? := by
  cases l with
  | nil => exact absurd h (Nat.not_lt_zero i)
  | cons a rest =>
    rw [runningMax, List.take_succ_cons, List.max?_cons']
    cases i with
    | zero => simp
    | succ i =>
      rw [List.getElem?_cons_succ]
      exact getElem?_runningMaxFrom (Nat.lt_of_succ_lt_succ h) a

end

section
variable {α κ : Type*} [LinearOrder κ] {key : α → κ} {l : List α} {a : α} {j : ℕ}

theorem key_le_of_mem_take (hs : l.Pairwise fun a b => key a < key b) (ha : l[j]? = some a) {b : α}
    (hb : b ∈ l.take (j + 1)) : key b ≤ key a := by
  rw [List.take_add_one, ha, List.mem_append] at hb
  rcases hb with hb | hb
  · obtain ⟨hj, rfl⟩ := List.getElem?_eq_some_iff.mp ha
    have hsplit := List.take_append_drop j l
    rw [← hsplit, List.pairwise_append] at hs
    have hdrop : l[j] ∈ l.drop j := by
      rw [List.drop_eq_getElem_cons hj]
      exact List.mem_cons_self ..
    exact (hs.2.2 b hb _ hdrop).le
  · simp only [Option.toList_some, List.mem_singleton] at hb
    exact (congrArg key hb).le

theorem lt_key_of_mem_drop (hs : l.Pairwise fun a b => key a < key b) (ha : l[j]? = some a) {b : α}
    (hb : b ∈ l.drop (j + 1)) : key a < key b := by
  obtain ⟨hj, rfl⟩ := List.getElem?_eq_some_iff.mp ha
  have hsplit := List.take_append_drop (j + 1) l
  rw [← hsplit, List.pairwise_append] at hs
  have htake : l[j] ∈ l.take (j + 1) := by
    rw [List.take_add_one, ha]
    exact List.mem_append_right _ (List.mem_singleton_self _)
  exact hs.2.2 _ htake b hb

theorem filter_le_eq_take (hs : l.Pairwise fun a b => key a < key b) (ha : l[j]? = some a) :
    l.filter (fun b => key b ≤ key a) = l.take (j + 1) := by
  conv_lhs => rw [← List.take_append_drop (j + 1) l]
  rw [List.filter_append, List.filter_eq_self.mpr, List.filter_eq_nil_iff.mpr, List.append_nil]
  · intro b hb
    simpa using lt_key_of_mem_drop hs ha hb
  · intro b hb
    simpa using key_le_of_mem_take hs ha hb

theorem filter_ge_eq_drop (hs : l.Pairwise fun a b => key a < key b) (ha : l[j]? = some a) :
    l.filter (fun b => key a ≤ key b) = l.drop j := by
  obtain ⟨hj, hja⟩ := List.getElem?_eq_some_iff.mp ha
  have hcut : l = l.take j ++ l.drop j := (List.take_append_drop j l).symm
  have hlt : ∀ b ∈ l.take j, ∀ c ∈ l.drop j, key b < key c := by
    rw [hcut, List.pairwise_append] at hs
    exact hs.2.2
  have hhead : l.drop j = a :: l.drop (j + 1) := by rw [List.drop_eq_getElem_cons hj, hja]
  conv_lhs => rw [hcut]
  rw [List.filter_append, List.filter_eq_nil_iff.mpr, List.filter_eq_self.mpr, List.nil_append]
  · intro b hb
    rw [hhead, List.mem_cons] at hb
    rcases hb with rfl | hb
    · simp
    · simpa using (lt_key_of_mem_drop hs ha hb).le
  · intro b hb
    simpa using hlt b hb a (by rw [hhead]; exact List.mem_cons_self ..)

/-- A key is looked up at its entry. -/
theorem find?_key_eq [DecidableEq κ] (hs : l.Pairwise fun a b => key a < key b)
    (ha : l[j]? = some a) :
    l.find? (fun b => key b = key a) = some a := by
  obtain ⟨hj, hja⟩ := List.getElem?_eq_some_iff.mp ha
  rw [List.find?_eq_some_iff_getElem]
  refine ⟨by simp, j, hj, hja, fun i hi => ?_⟩
  have hlt : key l[i] < key l[j] := List.pairwise_iff_getElem.mp hs i j (by omega) hj hi
  rw [hja] at hlt
  simpa using hlt.ne

end
end Tqt
