import Mathlib.Data.List.Basic
import Mathlib.Data.Set.Basic
import Mathlib.Order.Bounds.Basic

/-! A history that grows at its new end, read backwards in pages.

The times of a history are listed newest first. The next page holds the newest of the times
older than a cursor, and the last of them is the cursor of the page after it: the pages are
one front part of what the history was at the first of them (`older_getLast_take`), whatever
has appeared meanwhile (`older_of_suffix`). What is held of a history has no gap when no
time between two held ones is missing (`Gapless`). Adding the newest times keeps that exactly
when they reach down to what is held (`Gapless.union_take_iff`). -/
namespace Tqt.History

variable {τ : Type*} [LinearOrder τ] {history grown : List τ} {held : Set τ}

/-- The times before the cursor; all of them when there is none yet. -/
def older (cursor : Option τ) (history : List τ) : List τ :=
  history.filter fun t => cursor.all (t < ·)

def Gapless (history : List τ) (held : Set τ) : Prop :=
  ∀ t ∈ history, ∀ a ∈ held, ∀ b ∈ held, a ≤ t → t ≤ b → t ∈ held

theorem older_none (history : List τ) : older none history = history := by
  unfold older
  simp

theorem mem_older {cursor : Option τ} {t : τ} :
    t ∈ older cursor history ↔ t ∈ history ∧ ∀ c, cursor = some c → t < c := by
  simp [older, Option.all_eq_true]

theorem older_pairwise (h : history.Pairwise (· > ·)) (cursor : Option τ) :
    (older cursor history).Pairwise (· > ·) := h.filter _

section
variable (hsorted : history.Pairwise (· > ·))
include hsorted

theorem lt_of_mem_drop {n : ℕ} {t u : τ} (ht : t ∈ history.take n) (hu : u ∈ history.drop n) :
    u < t := by
  rw [← List.take_append_drop n history, List.pairwise_append] at hsorted
  exact hsorted.2.2 t ht u hu

theorem mem_take_of_le {n : ℕ} {t u : τ} (ht : t ∈ history.take n) (hu : u ∈ history) (hle : t ≤ u) :
    u ∈ history.take n := by
  rw [← List.take_append_drop n history, List.mem_append] at hu
  rcases hu with hu | hu
  · exact hu
  · exact absurd (lt_of_mem_drop hsorted ht hu) hle.not_gt

theorem getLast_le {c t : τ} (hc : history.getLast? = some c) (ht : t ∈ history) : c ≤ t := by
  obtain ⟨init, rfl⟩ := List.getLast?_eq_some_iff.mp hc
  rw [List.mem_append, List.mem_singleton] at ht
  rcases ht with ht | rfl
  · exact ((List.pairwise_append.mp hsorted).2.2 t ht c (List.mem_singleton_self c)).le
  · exact le_rfl

/-- The times after the first `n` are those before the last of them. -/
theorem filter_lt_getLast_take {n : ℕ} {c : τ} (hc : (history.take n).getLast? = some c) :
    history.filter (· < c) = history.drop n := by
  have hnew : ∀ t ∈ history.take n, ¬ decide (t < c) = true := by
    intro t ht
    simpa using getLast_le (hsorted.sublist (List.take_sublist n history)) hc ht
  have hold : ∀ t ∈ history.drop n, decide (t < c) = true := by
    intro t ht
    simpa using lt_of_mem_drop hsorted (List.mem_of_getLast? hc) ht
  conv_lhs => rw [← List.take_append_drop n history]
  rw [List.filter_append, List.filter_eq_nil_iff.mpr hnew, List.filter_eq_self.mpr hold,
    List.nil_append]

/-- The page after the first `n` of the times before the cursor goes on behind them. -/
theorem older_getLast_take {cursor : Option τ} {n : ℕ} {c : τ}
    (hc : ((older cursor history).take n).getLast? = some c) :
    older (some c) history = (older cursor history).drop n := by
  have hbefore := (mem_older.mp (List.mem_of_mem_take (List.mem_of_getLast? hc))).2
  rw [← filter_lt_getLast_take (older_pairwise hsorted cursor) hc, older, older, List.filter_filter]
  apply List.filter_congr
  intro t _
  cases hcursor : cursor with
  | none => simp
  | some c' =>
    have hlt : t < c → t < c' := fun ht => ht.trans (hbefore c' hcursor)
    simpa using hlt

theorem countP_drop_eq_zero {n : ℕ} {t u : τ} (ht : t ∈ history.take n) (htu : t ≤ u) :
    (history.drop n).countP (u < ·) = 0 := by
  rw [List.countP_eq_zero]
  intro v hv
  simpa using (lt_of_mem_drop hsorted ht hv).le.trans htu

/-- The times after `u` are among the newest `n` exactly when they are at most that many. -/
theorem countP_le_iff {n : ℕ} {u : τ} :
    history.countP (u < ·) ≤ n ↔ ∀ t ∈ history, u < t → t ∈ history.take n := by
  induction history generalizing n with
  | nil => simp
  | cons v rest ih =>
    obtain ⟨hv, hrest⟩ := List.pairwise_cons.mp hsorted
    by_cases huv : u < v
    · rw [List.countP_cons_of_pos (by simpa using huv)]
      cases n with
      | zero =>
        refine iff_of_false (Nat.not_succ_le_zero _) fun h => ?_
        exact List.not_mem_nil (h v List.mem_cons_self huv)
      | succ n =>
        rw [Nat.succ_le_succ_iff, ih hrest, List.take_succ_cons, List.forall_mem_cons]
        have hne : ∀ t ∈ rest, t ≠ v := fun t ht => (hv t ht).ne
        constructor
        · intro h
          exact ⟨fun _ => List.mem_cons_self, fun t ht hut => List.mem_cons_of_mem v (h t ht hut)⟩
        · intro h t ht hut
          exact (List.mem_cons.mp (h.2 t ht hut)).resolve_left (hne t ht)
    · have hnone : ∀ t ∈ v :: rest, ¬ u < t := by
        intro t ht hut
        rcases List.mem_cons.mp ht with rfl | ht
        · exact huv hut
        · exact huv (hut.trans (hv t ht))
      rw [List.countP_eq_zero.mpr (by simpa using hnone)]
      exact iff_of_true (Nat.zero_le n) fun t ht hut => absurd hut (hnone t ht)

end

/-- Times that appear at the new end are not before an old one. -/
theorem older_of_suffix (hsorted : grown.Pairwise (· > ·)) (hgrown : history <:+ grown) {c : τ}
    (hc : c ∈ history) : older (some c) grown = older (some c) history := by
  obtain ⟨fresh, rfl⟩ := hgrown
  have hfresh : ∀ t ∈ fresh, ¬ ((some c).all (t < ·)) = true := by
    intro t ht
    simpa using ((List.pairwise_append.mp hsorted).2.2 t ht c hc).le
  rw [older, List.filter_append, List.filter_eq_nil_iff.mpr hfresh, List.nil_append, older]

theorem Gapless.grow (h : Gapless history held) (hheld : ∀ t ∈ held, t ∈ history)
    (hsorted : grown.Pairwise (· > ·)) (hgrown : history <:+ grown) : Gapless grown held := by
  obtain ⟨fresh, rfl⟩ := hgrown
  intro t ht a ha b hb hat htb
  rcases List.mem_append.mp ht with ht | ht
  · exact absurd ((List.pairwise_append.mp hsorted).2.2 t ht b (hheld b hb)) htb.not_gt
  · exact h t ht a ha b hb hat htb

/-- The newest times of a history have no gap. -/
theorem gapless_take (hsorted : history.Pairwise (· > ·)) (n : ℕ) :
    Gapless history {t | t ∈ history.take n} :=
  fun _ ht _ ha _ _ hat _ => mem_take_of_le hsorted ha ht hat

/-- **Topping up**: with the newest `n` times added, nothing is missing between what is held
exactly when those after the newest held one are at most `n`. -/
theorem Gapless.union_take_iff (h : Gapless history held) (hsorted : history.Pairwise (· > ·))
    {newest : τ} (hnewest : IsGreatest held newest) {n : ℕ} (hn : 0 < n) :
    Gapless history (held ∪ {t | t ∈ history.take n}) ↔ history.countP (newest < ·) ≤ n := by
  rw [countP_le_iff hsorted]
  constructor
  · intro hgapless t ht hlt
    obtain ⟨first, rest, rfl⟩ := List.exists_cons_of_ne_nil (List.ne_nil_of_mem ht)
    obtain ⟨n, rfl⟩ := Nat.exists_eq_add_of_lt hn
    have hfirst : first ∈ (first :: rest).take (0 + n + 1) := List.mem_cons_self
    have hle : t ≤ first := by
      rcases List.mem_cons.mp ht with rfl | ht
      · exact le_rfl
      · exact ((List.pairwise_cons.mp hsorted).1 t ht).le
    rcases hgapless t ht newest (.inl hnewest.1) first (.inr hfirst) hlt.le hle with hheld | htake
    · exact absurd (hnewest.2 hheld) hlt.not_ge
    · exact htake
  · intro hreach t ht a ha b hb hat htb
    rcases ha with ha | ha
    · rcases le_or_gt t newest with hle | hlt
      · exact .inl (h t ht a ha newest hnewest.1 hat hle)
      · exact .inr (hreach t ht hlt)
    · exact .inr (mem_take_of_le hsorted ha ht hat)

end Tqt.History
