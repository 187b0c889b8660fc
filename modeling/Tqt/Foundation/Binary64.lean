import Tqt.Foundation.Rounding

/-! Binary floating point: doubles as the rationals they stand for.

A double has 53 binary digits and no unit below `2 ^ -1074`. A rational becomes the nearest one,
ties to even (`round`), off by half a unit at most and not at all where it is a double itself
(`abs_round_sub_le`, `round_eq_self`); from `2 ^ 1024` on it becomes an infinity, and `float64` has
no value. -/
namespace Tqt.Binary64

/-- The unit in the last place of the doubles next to a number. -/
def ulp (x : ℚ) : ℚ := 2 ^ max (Int.log 2 |x| - 52) (-1074)

/-- The nearest double, ties to even, as long as the exponent has room. -/
def round (x : ℚ) : ℚ := roundHalfEven (x / ulp x) * ulp x

/-- `float(x)`; nothing for an infinity. -/
def float64 (x : ℚ) : Option ℚ := if |round x| < 2 ^ 1024 then some (round x) else none

/-- A double, if its exponent is not too large. -/
def IsDouble (x : ℚ) : Prop := ∃ m e : ℤ, |m| < 2 ^ 53 ∧ -1074 ≤ e ∧ x = m * 2 ^ e

variable {x y : ℚ}

theorem ulp_pos (x : ℚ) : 0 < ulp x := zpow_pos (by norm_num) _

/-- Rounding is off by half a unit at most. -/
theorem abs_round_sub_le (x : ℚ) : |round x - x| ≤ ulp x / 2 := by
  have hu := ulp_pos x
  have hhalf := abs_roundHalfEven_sub_le_half (x / ulp x)
  have hscaled : round x - x = (roundHalfEven (x / ulp x) - x / ulp x) * ulp x := by
    rw [round, sub_mul, div_mul_cancel₀ x hu.ne']
  rw [hscaled, abs_mul, abs_of_pos hu]
  linarith [mul_le_mul_of_nonneg_right hhalf hu.le]

/-- A double is left as it is. -/
theorem round_eq_self (h : IsDouble x) : round x = x := by
  obtain ⟨m, e, hm, he, rfl⟩ := h
  rcases eq_or_ne m 0 with rfl | hne
  · have hzero : roundHalfEven 0 = 0 := by exact_mod_cast roundHalfEven_intCast 0
    simp [round, hzero]
  -- Its own unit is a multiple of the one it is rounded to.
  have hlt : |(m : ℚ) * 2 ^ e| < 2 ^ (e + 53) := by
    have hcast : ((|m| : ℤ) : ℚ) < 2 ^ 53 := by exact_mod_cast hm
    have hpow : (0 : ℚ) < 2 ^ e := zpow_pos (by norm_num) e
    rw [abs_mul, abs_of_pos hpow, ← Int.cast_abs, zpow_add₀ (by norm_num), mul_comm]
    exact mul_lt_mul_of_pos_left hcast hpow
  have hpos : 0 < |(m : ℚ) * 2 ^ e| :=
    abs_pos.mpr (mul_ne_zero (by exact_mod_cast hne) (zpow_pos (by norm_num) e).ne')
  have hlog : Int.log 2 |(m : ℚ) * 2 ^ e| < e + 53 := by
    refine (Int.lt_zpow_iff_log_lt (b := 2) (by norm_num) hpos).mp ?_
    exact_mod_cast hlt
  obtain ⟨k, hk⟩ := Int.eq_ofNat_of_zero_le
    (show 0 ≤ e - max (Int.log 2 |(m : ℚ) * 2 ^ e| - 52) (-1074) by omega)
  have hunits : (m : ℚ) * 2 ^ e / ulp (m * 2 ^ e) = ((m * 2 ^ k : ℤ) : ℚ) := by
    rw [div_eq_iff (ulp_pos _).ne', ulp]
    push_cast
    rw [mul_assoc, ← zpow_natCast, ← zpow_add₀ (by norm_num), ← hk, sub_add_cancel]
  rw [round, hunits, roundHalfEven_intCast, ← hunits, div_mul_cancel₀ _ (ulp_pos _).ne']

theorem float64_eq_some : float64 x = some y ↔ round x = y ∧ |y| < 2 ^ 1024 := by
  unfold float64
  constructor
  · intro h
    split at h
    · next hlt =>
      cases h
      exact ⟨rfl, hlt⟩
    · cases h
  · rintro ⟨rfl, hlt⟩
    exact if_pos hlt

theorem float64_of_isDouble (h : IsDouble x) (hx : |x| < 2 ^ 1024) : float64 x = some x :=
  float64_eq_some.mpr ⟨round_eq_self h, hx⟩

/-- A fifth is rounded up in the last of its digits. -/
example : float64 (1 / 5) = some (3602879701896397 / 2 ^ 54) := by decide +kernel

end Tqt.Binary64
