import Mathlib.Algebra.Order.Floor.Ring
import Mathlib.Data.Rat.Floor
import Mathlib.Tactic.Linarith
import Mathlib.Tactic.Ring

/-! Truncation towards zero and whole numbers in an ordered field.

`truncate` is the conversion to an integer that drops the fraction. On
non-negative numbers it is the largest whole number below (`truncate_le`,
`le_truncate`); sums, differences, minima and absolute values of whole numbers are
whole, which is all a share count ever goes through. Cutting the distance to a number leaves what
cutting the number does, or one more (`sub_truncate`). -/
namespace Tqt
variable {α : Type*} [Field α] [LinearOrder α] [IsStrictOrderedRing α] [FloorRing α]

/-- Drop the fraction: round towards zero. -/
def truncate (x : α) : α := if 0 ≤ x then (⌊x⌋ : α) else (⌈x⌉ : α)

/-- A number without a fraction. -/
def Whole (x : α) : Prop := ∃ n : ℤ, x = n

omit [IsStrictOrderedRing α] in
theorem truncate_whole (x : α) : Whole (truncate x) := by
  unfold truncate
  split
  · exact ⟨_, rfl⟩
  · exact ⟨_, rfl⟩

theorem Whole.truncate_eq {x : α} (h : Whole x) : truncate x = x := by
  obtain ⟨n, rfl⟩ := h
  simp [truncate]

omit [IsStrictOrderedRing α] in
theorem truncate_le {x : α} (h : 0 ≤ x) : truncate x ≤ x := by
  rw [truncate, if_pos h]
  exact Int.floor_le x

theorem truncate_nonpos {x : α} (h : x ≤ 0) : truncate x ≤ 0 := by
  unfold truncate
  split
  · next h0 =>
    have : x = 0 := le_antisymm h h0
    simp [this]
  · exact_mod_cast Int.ceil_le.mpr (by simpa using h)

/-- Nothing whole fits between the truncation and the number. -/
theorem le_truncate {x y : α} (hy : Whole y) (h : y ≤ x) (hx : 0 ≤ x) : y ≤ truncate x := by
  obtain ⟨n, rfl⟩ := hy
  rw [truncate, if_pos hx]
  exact_mod_cast Int.le_floor.mpr h

theorem truncate_pos {x : α} : 0 < truncate x ↔ 1 ≤ x := by
  constructor
  · intro h
    have hx : 0 ≤ x := by
      by_contra hneg
      exact absurd h (not_lt.mpr (truncate_nonpos (le_of_not_ge hneg)))
    rw [truncate, if_pos hx] at h
    have : (1 : ℤ) ≤ ⌊x⌋ := by exact_mod_cast h
    calc (1 : α) = ((1 : ℤ) : α) := by simp
      _ ≤ x := Int.le_floor.mp this
  · intro h
    have h0 : (0 : α) ≤ x := le_trans zero_le_one h
    exact lt_of_lt_of_le zero_lt_one (le_truncate ⟨1, by simp⟩ h h0)

instance (x : ℚ) : Decidable (Whole x) :=
  decidable_of_iff (x.den = 1)
    ⟨fun h => ⟨x.num, (Rat.den_eq_one_iff x).mp h |>.symm⟩, fun ⟨n, hn⟩ => by rw [hn, Rat.den_intCast]⟩

namespace Whole

omit [IsStrictOrderedRing α] [FloorRing α] [LinearOrder α] in
theorem zero : Whole (0 : α) := ⟨0, by simp⟩

omit [IsStrictOrderedRing α] [FloorRing α] [LinearOrder α] in
theorem add {x y : α} (hx : Whole x) (hy : Whole y) : Whole (x + y) := by
  obtain ⟨n, rfl⟩ := hx
  obtain ⟨m, rfl⟩ := hy
  exact ⟨n + m, by simp⟩

omit [IsStrictOrderedRing α] [FloorRing α] [LinearOrder α] in
theorem sub {x y : α} (hx : Whole x) (hy : Whole y) : Whole (x - y) := by
  obtain ⟨n, rfl⟩ := hx
  obtain ⟨m, rfl⟩ := hy
  exact ⟨n - m, by simp⟩

omit [FloorRing α] in
theorem abs {x : α} (hx : Whole x) : Whole |x| := by
  obtain ⟨n, rfl⟩ := hx
  exact ⟨|n|, by simp⟩

omit [IsStrictOrderedRing α] [FloorRing α] in
theorem min {x y : α} (hx : Whole x) (hy : Whole y) : Whole (Min.min x y) := by
  rcases min_choice x y with h | h
  · rw [h]; exact hx
  · rw [h]; exact hy

omit [FloorRing α] in
/-- Two whole numbers less than one apart are the same. -/
theorem eq_of_lt {x y : α} (hx : Whole x) (hy : Whole y) (hle : x ≤ y) (hlt : y < x + 1) : x = y := by
  obtain ⟨n, rfl⟩ := hx
  obtain ⟨m, rfl⟩ := hy
  norm_cast at hle hlt ⊢
  omega

omit [FloorRing α] in
theorem one_le {x : α} (hx : Whole x) (h : 0 < x) : 1 ≤ x := by
  obtain ⟨n, rfl⟩ := hx
  norm_cast at h ⊢

end Whole

omit [IsStrictOrderedRing α] in
/-- The next whole number is above. -/
theorem lt_truncate_add_one {x : α} (h : 0 ≤ x) : x < truncate x + 1 := by
  rw [truncate, if_pos h]
  exact Int.lt_floor_add_one x

/-- A whole number less the whole distance down to `x`: the one below `x` or the next. -/
theorem sub_truncate {x q : α} (hq : Whole q) (h0 : 0 ≤ x) (h : x ≤ q) :
    q - truncate (q - x) = truncate x ∨ q - truncate (q - x) = truncate x + 1 := by
  have hgap := sub_nonneg.mpr h
  have hlow := truncate_le hgap
  have hhigh := lt_truncate_add_one hgap
  have hx := truncate_le h0
  have hx' := lt_truncate_add_one h0
  have hkept : Whole (q - truncate (q - x)) := hq.sub (truncate_whole _)
  rcases lt_or_ge (q - truncate (q - x)) (truncate x + 1) with hlt | hge
  · exact .inl ((truncate_whole x).eq_of_lt hkept (by linarith) hlt).symm
  · have hone : Whole (truncate x + 1) := (truncate_whole x).add ⟨1, by simp⟩
    exact .inr (hone.eq_of_lt hkept hge (by linarith)).symm

end Tqt
