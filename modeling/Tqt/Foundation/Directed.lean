import Tqt.Foundation.Rounding

/-! A rounding behind a nearest one.

A number is rounded to a unit first, half to even, and then up or down to a whole one. The first
step can carry it over a whole number, and then the second rounds to the wrong side. It keeps the
side exactly where the number is whole or far enough from the whole number it could be carried to
(`le_ceil_round_iff`, `floor_round_le_iff`). Rounded to the nearest whole number instead, it can be
carried to the half between two, and from there to the farther one (`abs_round_round_le_iff`). -/
namespace Tqt.Rounding

/-- Rounded to the unit `u` first, a number is still rounded up: it is whole, or more than half a
unit above a whole number, or half of one above an odd one. -/
def StaysAbove (u x : ℚ) : Prop :=
  Whole x ∨ u / 2 < Int.fract x ∨ u = 1 ∧ Int.fract x = 1 / 2 ∧ ⌊x⌋ % 2 = 1

/-- Rounded to the unit `u` first, a number is still rounded down: it is more than half a unit
below the next whole number, or half of one below an odd one. -/
def StaysBelow (u x : ℚ) : Prop :=
  u / 2 < 1 - Int.fract x ∨ u = 1 ∧ Int.fract x = 1 / 2 ∧ ⌊x⌋ % 2 = 0

/-- Rounded to the unit `u` first, a number is still rounded to a nearest whole one: the unit is
one, or the number is more than half a unit from the half between two whole ones, or half a tenth
where that is the unit, or not on the odd one's side of it. -/
def StaysNearest (u x : ℚ) : Prop :=
  let d := Int.fract x - 1 / 2
  u = 1 ∨ u / 2 < |d| ∨ u = 1 / 10 ∧ |d| = u / 2 ∨ if ⌊x⌋ % 2 = 0 then d ≤ 0 else 0 ≤ d

instance (u x : ℚ) : Decidable (StaysAbove u x) :=
  inferInstanceAs (Decidable (Whole x ∨ u / 2 < Int.fract x ∨
    u = 1 ∧ Int.fract x = 1 / 2 ∧ ⌊x⌋ % 2 = 1))

instance (u x : ℚ) : Decidable (StaysBelow u x) :=
  inferInstanceAs (Decidable (u / 2 < 1 - Int.fract x ∨ u = 1 ∧ Int.fract x = 1 / 2 ∧ ⌊x⌋ % 2 = 0))

instance (u x : ℚ) : Decidable (StaysNearest u x) :=
  inferInstanceAs (Decidable (u = 1 ∨ u / 2 < |Int.fract x - 1 / 2| ∨
    u = 1 / 10 ∧ |Int.fract x - 1 / 2| = u / 2 ∨
    if ⌊x⌋ % 2 = 0 then Int.fract x - 1 / 2 ≤ 0 else 0 ≤ Int.fract x - 1 / 2))

variable {x u : ℚ} {k : ℕ}

/-- Only in the unit one is a whole number an odd number of units. -/
theorem odd_units_iff (n : ℤ) (k : ℕ) : n * 10 ^ k % 2 = 1 ↔ k = 0 ∧ n % 2 = 1 := by
  cases k with
  | zero => simp
  | succ k =>
    have hten : n * 10 ^ (k + 1) = 2 * (n * 10 ^ k * 5) := by ring
    rw [hten]
    omega

theorem unit_eq_one_iff (hu : u = 1 / 10 ^ k) : u = 1 ↔ k = 0 := by
  rw [hu, one_div, inv_eq_one]
  constructor
  · intro h
    by_contra hk
    exact (one_lt_pow₀ (by norm_num : (1 : ℚ) < 10) hk).ne' h
  · rintro rfl
    exact pow_zero 10

/-! ### In units -/

section
variable {n : ℤ} (hpos : 0 < n) (z : ℤ)
include hpos

theorem le_ceil_div_iff (hx : ¬ Whole x) : x ≤ ⌈(z : ℚ) / n⌉ ↔ ⌊x⌋ * n + 1 ≤ z := by
  have hn : (0 : ℚ) < n := by exact_mod_cast hpos
  have hfloor : (⌊x⌋ : ℚ) < x := lt_of_le_of_ne (Int.floor_le x) fun h => hx ⟨⌊x⌋, h.symm⟩
  have hnext := Int.lt_floor_add_one x
  have hceil : x ≤ ⌈(z : ℚ) / n⌉ ↔ ⌊x⌋ < ⌈(z : ℚ) / n⌉ := by
    constructor
    · intro h
      exact_mod_cast hfloor.trans_le h
    · intro h
      have hle : (⌊x⌋ : ℚ) + 1 ≤ ⌈(z : ℚ) / n⌉ := by exact_mod_cast h
      exact hnext.le.trans hle
  rw [hceil, Int.lt_ceil, lt_div_iff₀ hn, Int.add_one_le_iff]
  exact_mod_cast Iff.rfl

theorem floor_div_le_iff : (⌊(z : ℚ) / n⌋ : ℚ) ≤ x ↔ ¬ (⌊x⌋ + 1) * n ≤ z := by
  have hn : (0 : ℚ) < n := by exact_mod_cast hpos
  rw [← Int.le_floor, not_le, ← Int.lt_add_one_iff, Int.floor_lt, div_lt_iff₀ hn]
  push_cast
  exact_mod_cast Iff.rfl

end

section
variable (hu : u = 1 / 10 ^ k)
include hu

theorem units_eq (y : ℚ) : y / u = y * ((10 ^ k : ℤ) : ℚ) ∧ y * u = y / ((10 ^ k : ℤ) : ℚ) := by
  rw [hu]
  push_cast
  constructor
  · rw [div_div_eq_mul_div, div_one]
  · rw [mul_one_div]

/-- Half a unit, counted in units. -/
theorem half_unit_iff (y : ℚ) : (1 / 2 < y * ((10 ^ k : ℤ) : ℚ) ↔ u / 2 < y) ∧
    (1 / 2 = y * ((10 ^ k : ℤ) : ℚ) ↔ u / 2 = y) := by
  have hpos : 0 < u := by rw [hu]; positivity
  rw [← (units_eq hu y).1, lt_div_iff₀ hpos, eq_div_iff hpos.ne', one_div_mul_eq_div]
  exact ⟨Iff.rfl, Iff.rfl⟩

/-- **Rounded up behind a nearest rounding.** -/
theorem le_ceil_round_iff : x ≤ ⌈(roundHalfEven (x / u) : ℚ) * u⌉ ↔ StaysAbove u x := by
  have hpos : (0 : ℤ) < 10 ^ k := by positivity
  rw [(units_eq hu x).1, (units_eq hu _).2]
  by_cases hwhole : Whole x
  · refine iff_of_true ?_ (.inl hwhole)
    obtain ⟨n, rfl⟩ := hwhole
    rw [← Int.cast_mul, roundHalfEven_intCast, Int.cast_mul, mul_div_cancel_right₀, Int.ceil_intCast]
    exact_mod_cast hpos.ne'
  · -- Half a unit above the whole number below, and a tie only where that is an odd number of units.
    rw [le_ceil_div_iff hpos _ hwhole, le_roundHalfEven_iff, StaysAbove, or_iff_right hwhole]
    have hparity : (⌊x⌋ * 10 ^ k + 1) % 2 = 0 ↔ u = 1 ∧ ⌊x⌋ % 2 = 1 := by
      rw [unit_eq_one_iff hu, ← odd_units_iff]
      omega
    obtain ⟨hlt, heq⟩ := half_unit_iff hu (Int.fract x)
    have hsplit : x * ((10 ^ k : ℤ) : ℚ) - ((⌊x⌋ * 10 ^ k + 1 : ℤ) - 1 / 2) =
        Int.fract x * ((10 ^ k : ℤ) : ℚ) - 1 / 2 := by
      rw [Int.fract]
      push_cast
      ring
    rw [← sub_pos, hsplit, sub_pos, hlt, hparity, eq_comm, ← sub_eq_zero, hsplit, sub_eq_zero,
      eq_comm, heq]
    refine or_congr_right ⟨fun ⟨hhalf, hone, hodd⟩ => ⟨hone, ?_, hodd⟩,
      fun ⟨hone, hhalf, hodd⟩ => ⟨?_, hone, hodd⟩⟩
    · rw [← hhalf, hone]
    · rw [hhalf, hone]

/-- **Rounded down behind a nearest rounding.** -/
theorem floor_round_le_iff : (⌊(roundHalfEven (x / u) : ℚ) * u⌋ : ℚ) ≤ x ↔ StaysBelow u x := by
  have hpos : (0 : ℤ) < 10 ^ k := by positivity
  rw [(units_eq hu x).1, (units_eq hu _).2, floor_div_le_iff hpos, le_roundHalfEven_iff, StaysBelow]
  -- Half a unit below the whole number above, and a tie only where that is an odd number of units.
  have hparity : ((⌊x⌋ + 1) * 10 ^ k) % 2 = 0 ↔ ¬ (u = 1 ∧ ⌊x⌋ % 2 = 0) := by
    have hnext : (⌊x⌋ + 1) % 2 = 1 ↔ ⌊x⌋ % 2 = 0 := by omega
    rw [unit_eq_one_iff hu, ← hnext, ← odd_units_iff]
    generalize (⌊x⌋ + 1) * 10 ^ k = units
    omega
  obtain ⟨hlt, heq⟩ := half_unit_iff hu (1 - Int.fract x)
  have hsplit : ((((⌊x⌋ + 1) * 10 ^ k : ℤ) : ℚ) - 1 / 2) - x * ((10 ^ k : ℤ) : ℚ) =
      (1 - Int.fract x) * ((10 ^ k : ℤ) : ℚ) - 1 / 2 := by
    rw [Int.fract]
    push_cast
    ring
  rw [← sub_neg, hsplit, sub_neg, ← sub_eq_zero, hsplit, sub_eq_zero, eq_comm, heq, hparity, not_or,
    not_and, not_not, not_lt, le_iff_lt_or_eq, hlt, heq]
  constructor
  · rintro ⟨hlt | hhalf, htie⟩
    · exact .inl hlt
    · obtain ⟨hone, heven⟩ := htie hhalf
      exact .inr ⟨hone, by rw [hone] at hhalf; linarith, heven⟩
  · rintro (hlt | ⟨hone, hhalf, heven⟩)
    · exact ⟨.inl hlt, fun heq => absurd heq hlt.ne⟩
    · exact ⟨.inr (by rw [hone, hhalf]; norm_num), fun _ => ⟨hone, heven⟩⟩

end

/-! ### To the nearest -/

/-- No integer is nearer than one at most half away. -/
theorem nearest_of_half {n : ℤ} (h : |(n : ℚ) - x| ≤ 1 / 2) (m : ℤ) : |(n : ℚ) - x| ≤ |(m : ℚ) - x| := by
  rcases eq_or_ne m n with rfl | hne
  · exact le_rfl
  · have hgap : (1 : ℚ) ≤ |(m : ℚ) - n| := by exact_mod_cast Int.one_le_abs (sub_ne_zero.mpr hne)
    have htriangle := abs_sub_le (m : ℚ) x n
    rw [abs_sub_comm x] at htriangle
    linarith

theorem unit_eq_tenth_iff (hu : u = 1 / 10 ^ (k + 1)) : u = 1 / 10 ↔ k = 0 := by
  have hscale : u = 1 / 10 ↔ u * 10 = 1 := by
    rw [eq_div_iff (by norm_num)]
  rw [hscale, unit_eq_one_iff (k := k)]
  rw [hu, pow_succ]
  field_simp

section
variable (hu : u = 1 / 10 ^ (k + 1))
include hu

/-- The half between two whole numbers, counted in units. -/
theorem middle_eq (n : ℤ) : ((n : ℚ) + 1 / 2) / u = (((2 * n + 1) * 5 * 10 ^ k : ℤ) : ℚ) := by
  rw [hu, div_div_eq_mul_div, div_one, pow_succ]
  push_cast
  ring

theorem middle_odd_iff (n : ℤ) : (2 * n + 1) * 5 * 10 ^ k % 2 = 1 ↔ u = 1 / 10 := by
  rw [odd_units_iff, unit_eq_tenth_iff hu]
  omega

/-- Which side of the half a number is rounded to. -/
theorem middle_lt_iff : ((2 * ⌊x⌋ + 1) * 5 * 10 ^ k < roundHalfEven (x / u) ↔
      u / 2 < Int.fract x - 1 / 2 ∨ u = 1 / 10 ∧ u / 2 = Int.fract x - 1 / 2) ∧
    ((2 * ⌊x⌋ + 1) * 5 * 10 ^ k ≤ roundHalfEven (x / u) ↔
      -(u / 2) < Int.fract x - 1 / 2 ∨ u ≠ 1 / 10 ∧ -(u / 2) = Int.fract x - 1 / 2) := by
  have hpos : 0 < u := by rw [hu]; positivity
  have hodd := middle_odd_iff hu ⌊x⌋
  have hunits : x / u = (((2 * ⌊x⌋ + 1) * 5 * 10 ^ k : ℤ) : ℚ) + (Int.fract x - 1 / 2) / u := by
    rw [← middle_eq hu, ← add_div, Int.fract]
    congr 1
    ring
  generalize (2 * ⌊x⌋ + 1) * 5 * 10 ^ k = middle at hodd hunits ⊢
  have hlt (c : ℚ) : c < (Int.fract x - 1 / 2) / u ↔ c * u < Int.fract x - 1 / 2 := lt_div_iff₀ hpos
  have heq (c : ℚ) : c = (Int.fract x - 1 / 2) / u ↔ c * u = Int.fract x - 1 / 2 := eq_div_iff hpos.ne'
  have hhalf : (1 / 2 : ℚ) * u = u / 2 := by ring
  constructor
  · rw [← Int.add_one_le_iff, le_roundHalfEven_iff, hunits]
    have hsub : ((middle + 1 : ℤ) : ℚ) - 1 / 2 = middle + 1 / 2 := by push_cast; ring
    rw [hsub, add_lt_add_iff_left, add_right_inj, hlt, heq, hhalf, and_comm, ← hodd]
    refine or_congr_right (and_congr_left' ?_)
    omega
  · rw [le_roundHalfEven_iff, hunits]
    have hsub : (middle : ℚ) - 1 / 2 = middle + -(1 / 2) := by ring
    rw [hsub, add_lt_add_iff_left, add_right_inj, hlt, heq, neg_mul, hhalf, and_comm, ne_eq, ← hodd]
    refine or_congr_right (and_congr_left' ?_)
    omega

/-- Twice rounded, a number is still next to itself. -/
theorem round_round_bounds : ⌊x⌋ ≤ roundHalfEven ((roundHalfEven (x / u) : ℚ) * u) ∧
    roundHalfEven ((roundHalfEven (x / u) : ℚ) * u) ≤ ⌊x⌋ + 1 := by
  have hpos : 0 < u := by rw [hu]; positivity
  have hkeep (n : ℤ) : roundHalfEven ((roundHalfEven ((n : ℚ) / u) : ℚ) * u) = n := by
    rw [(units_eq hu _).1, ← Int.cast_mul, roundHalfEven_intCast, (units_eq hu _).2, Int.cast_mul,
      mul_div_cancel_right₀ _ (by positivity), roundHalfEven_intCast]
  have hmono {y z : ℚ} (h : y ≤ z) : roundHalfEven ((roundHalfEven (y / u) : ℚ) * u) ≤
      roundHalfEven ((roundHalfEven (z / u) : ℚ) * u) := by
    refine roundHalfEven_mono (mul_le_mul_of_nonneg_right ?_ hpos.le)
    exact_mod_cast roundHalfEven_mono (div_le_div_of_nonneg_right h hpos.le)
  have hlower := hmono (Int.floor_le x)
  have hupper := hmono (show x ≤ ((⌊x⌋ + 1 : ℤ) : ℚ) by push_cast; exact (Int.lt_floor_add_one x).le)
  rw [hkeep] at hlower hupper
  exact ⟨hlower, hupper⟩

/-- Where a number goes when it is rounded twice. -/
theorem round_round_up_iff : ⌊x⌋ + 1 ≤ roundHalfEven ((roundHalfEven (x / u) : ℚ) * u) ↔
    if ⌊x⌋ % 2 = 0 then u / 2 < Int.fract x - 1 / 2 ∨ u = 1 / 10 ∧ u / 2 = Int.fract x - 1 / 2
    else -(u / 2) < Int.fract x - 1 / 2 ∨ u ≠ 1 / 10 ∧ -(u / 2) = Int.fract x - 1 / 2 := by
  have hpos : 0 < u := by rw [hu]; positivity
  obtain ⟨habove, hat⟩ := middle_lt_iff hu (x := x)
  have hmiddle := middle_eq hu ⌊x⌋
  have hsub : ((⌊x⌋ + 1 : ℤ) : ℚ) - 1 / 2 = ⌊x⌋ + 1 / 2 := by push_cast; ring
  rw [le_roundHalfEven_iff, hsub, ← div_lt_iff₀ hpos, ← div_eq_iff hpos.ne', hmiddle, Int.cast_lt,
    Int.cast_inj]
  generalize (2 * ⌊x⌋ + 1) * 5 * 10 ^ k = middle at habove hat
  split
  · next heven =>
    rw [← habove]
    omega
  · next hodd =>
    rw [← hat]
    omega

end

/-- **Rounded to the nearest behind a nearest rounding.** -/
theorem abs_round_round_le_iff (hu : u = 1 / 10 ^ k) :
    |(roundHalfEven ((roundHalfEven (x / u) : ℚ) * u) : ℚ) - x| ≤ 1 / 2 ↔ StaysNearest u x := by
  cases k with
  | zero =>
    have hone := (unit_eq_one_iff hu).mpr rfl
    refine iff_of_true ?_ (.inl hone)
    rw [hone, div_one, mul_one, roundHalfEven_intCast]
    exact abs_roundHalfEven_sub_le_half x
  | succ k =>
    have hpos : 0 < u := by rw [hu]; positivity
    have hne : u ≠ 1 := fun h => absurd ((unit_eq_one_iff hu).mp h) k.succ_ne_zero
    obtain ⟨hlower, hupper⟩ := round_round_bounds hu (x := x)
    have hup := round_round_up_iff hu (x := x)
    have hx := Int.floor_add_fract x
    generalize roundHalfEven ((roundHalfEven (x / u) : ℚ) * u) = n at hlower hupper hup ⊢
    unfold StaysNearest
    dsimp only
    rw [or_iff_right hne]
    have hdist (n : ℤ) : (n : ℚ) - x = (n - ⌊x⌋ : ℤ) - Int.fract x := by
      rw [Int.fract]
      push_cast
      ring
    rw [hdist]
    generalize hd : Int.fract x - 1 / 2 = d at hup ⊢
    obtain rfl | rfl : n = ⌊x⌋ ∨ n = ⌊x⌋ + 1 := by omega
    · rw [sub_self, Int.cast_zero, zero_sub, abs_neg, abs_of_nonneg (Int.fract_nonneg x), ← sub_nonpos, hd]
      have hdown := hup.not.mp (by omega)
      split at hdown <;> rcases abs_cases d with ⟨habs, hsign⟩ | ⟨habs, hsign⟩ <;> rw [habs] <;> grind
    · rw [add_sub_cancel_left, Int.cast_one, abs_of_nonneg (sub_nonneg.mpr (Int.fract_lt_one x).le)]
      have hle : 1 - Int.fract x ≤ 1 / 2 ↔ 0 ≤ d := by
        rw [← hd]
        constructor <;> intro h <;> linarith
      have hup := hup.mp le_rfl
      rw [hle]
      split at hup <;> rcases abs_cases d with ⟨habs, hsign⟩ | ⟨habs, hsign⟩ <;> rw [habs] <;> grind
end Tqt.Rounding
