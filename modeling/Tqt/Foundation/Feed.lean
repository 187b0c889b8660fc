import Mathlib.Data.List.Basic
import Mathlib.Order.Lattice
import Mathlib.Tactic.Linarith

/-! Reading a growing feed by an offset.

A feed lists its entries by increasing number. A reader asks for the entries from its offset
on, gets some of the first ones, and moves the offset behind the last one it has read. What
it has read is then always a front part of the feed, whatever arrives meanwhile
(`Read.pending_eq`, `Read.advance`, `Read.arrive`). -/
namespace Tqt.Feed

variable {α : Type*} (number : α → ℤ)

/-- The entries that are not before the offset; all of them when there is none yet. -/
def pending (offset : Option ℤ) (feed : List α) : List α :=
  feed.filter fun a => offset.all fun o => o ≤ number a

/-- The offset behind the last of the entries. -/
def behind (entries : List α) (offset : Option ℤ) : Option ℤ :=
  (entries.getLast?.map fun a => number a + 1).or offset

/-- The reader has read `front`, a front part of the feed, and stands behind it. -/
structure Read (front feed : List α) (offset : Option ℤ) : Prop where
  sorted : feed.Pairwise fun a b => number a < number b
  isPrefix : front <+: feed
  offset : offset = behind number front none

variable {number} {front feed : List α} {offset : Option ℤ}

theorem Read.start : Read number ([] : List α) [] none := ⟨.nil, List.prefix_rfl, rfl⟩

theorem behind_append (first second : List α) :
    behind number (first ++ second) none = behind number second (behind number first none) := by
  unfold behind
  rw [List.getLast?_append]
  cases second.getLast? <;> simp

theorem Read.pending_eq (h : Read number front feed offset) {rest : List α}
    (hfeed : feed = front ++ rest) : pending number offset feed = rest := by
  have hsorted := h.sorted
  rw [hfeed, List.pairwise_append] at hsorted
  obtain ⟨hfront, -, hbetween⟩ := hsorted
  unfold pending
  rw [hfeed, List.filter_append]
  rcases List.eq_nil_or_concat front with rfl | ⟨init, last, rfl⟩
  · rw [h.offset]
    simp [behind]
  · have hoffset : offset = some (number last + 1) := by
      rw [h.offset]
      simp [behind]
    rw [List.concat_eq_append, List.pairwise_append] at hfront
    have hold : ∀ a ∈ init.concat last, ¬ (offset.all fun o => decide (o ≤ number a)) = true := by
      intro a ha
      rw [List.concat_eq_append, List.mem_append, List.mem_singleton] at ha
      have hle : number a ≤ number last := by
        rcases ha with ha | rfl
        · exact (hfront.2.2 a ha last (List.mem_singleton_self last)).le
        · exact le_rfl
      simp only [hoffset, Option.all_some, decide_eq_true_eq]
      omega
    have hnew : ∀ a ∈ rest, (offset.all fun o => decide (o ≤ number a)) = true := by
      intro a ha
      have hlt := hbetween last (by simp) a ha
      simp only [hoffset, Option.all_some, decide_eq_true_eq]
      omega
    rw [List.filter_eq_nil_iff.mpr hold, List.filter_eq_self.mpr hnew, List.nil_append]

/-- The reader has read some of the first entries that it had not. -/
theorem Read.advance (h : Read number front feed offset) {entries : List α}
    (hentries : entries <+: pending number offset feed) :
    Read number (front ++ entries) feed (behind number entries offset) := by
  obtain ⟨rest, hfeed⟩ := h.isPrefix
  rw [h.pending_eq hfeed.symm] at hentries
  refine ⟨h.sorted, ?_, ?_⟩
  · rw [← hfeed]
    exact (List.prefix_append_right_inj front).mpr hentries
  · rw [behind_append, h.offset]

/-- An entry arrives, with a number above all others. -/
theorem Read.arrive (h : Read number front feed offset) {a : α}
    (ha : ∀ b ∈ feed, number b < number a) : Read number front (feed ++ [a]) offset := by
  refine ⟨?_, h.isPrefix.trans (List.prefix_append ..), h.offset⟩
  rw [List.pairwise_append]
  refine ⟨h.sorted, List.pairwise_singleton _ a, fun b hb c hc => ?_⟩
  rw [List.mem_singleton.mp hc]
  exact ha b hb

/-- An entry before one that was read has been read. -/
theorem Read.mem_of_lt (h : Read number front feed offset) {a b : α} (ha : a ∈ front) (hb : b ∈ feed)
    (hlt : number b < number a) : b ∈ front := by
  obtain ⟨rest, hfeed⟩ := h.isPrefix
  rw [← hfeed, List.mem_append] at hb
  rcases hb with hb | hb
  · exact hb
  · have hsorted := h.sorted
    rw [← hfeed, List.pairwise_append] at hsorted
    exact absurd (hsorted.2.2 a ha b hb) hlt.not_gt

end Tqt.Feed
