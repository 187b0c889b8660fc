import Mathlib.Data.Int.Log
import Mathlib.Data.Rat.Floor
import Mathlib.Tactic.Linarith
import Mathlib.Tactic.NormNum
import Tqt.Foundation.Whole

/-! Decimal numbers rounded to so many significant digits, ties to even.

A rounding is monotone, so the numbers that it takes to a bound or above are those of a
`Cut`: all from some bound on, with or without it. For the nearest integer that bound lies
half a unit below (`Cut.mem_nearest`), for so many significant digits half a unit in the last
of them (`Cut.mem_roundTo`). What a chain of roundings reaches is read off by pulling the
bound back through them one by one. -/
namespace Tqt

/-- The nearest integer, ties to even, as `decimal` rounds. -/
def roundHalfEven (x : ℚ) : ℤ :=
  let r := x - ⌊x⌋
  if r < 1 / 2 ∨ r = 1 / 2 ∧ ⌊x⌋ % 2 = 0 then ⌊x⌋ else ⌊x⌋ + 1

/-- What rounds to `k` or above: all above half a unit below it, which itself does for an
even `k`. -/
theorem le_roundHalfEven_iff {k : ℤ} {x : ℚ} :
    k ≤ roundHalfEven x ↔ (k : ℚ) - 1 / 2 < x ∨ (k : ℚ) - 1 / 2 = x ∧ k % 2 = 0 := by
  have hfloor := Int.floor_le x
  have hnext := Int.lt_floor_add_one x
  unfold roundHalfEven
  dsimp only
  rcases lt_trichotomy k (⌊x⌋ + 1) with hlt | rfl | hgt
  · have hk : (k : ℚ) ≤ ⌊x⌋ := by exact_mod_cast Int.lt_add_one_iff.mp hlt
    refine iff_of_true ?_ (.inl (by linarith))
    split <;> omega
  · push_cast
    split
    · next hdown =>
      refine iff_of_false (by omega) ?_
      rintro (h | ⟨h, heven⟩) <;> rcases hdown with hdown | ⟨hhalf, hfloorEven⟩
      · linarith
      · linarith
      · linarith
      · omega
    · next hup =>
      refine iff_of_true le_rfl ?_
      rw [not_or, not_and, not_lt] at hup
      rcases hup.1.lt_or_eq with hlt | heq
      · exact .inl (by linarith)
      · exact .inr ⟨by linarith, by have := hup.2 heq.symm; omega⟩
  · have hk : (⌊x⌋ : ℚ) + 1 + 1 ≤ k := by exact_mod_cast hgt
    refine iff_of_false ?_ ?_
    · split <;> omega
    · rintro (h | ⟨h, -⟩) <;> linarith

@[simp] theorem roundHalfEven_intCast (n : ℤ) : roundHalfEven n = n := by
  apply le_antisymm
  · by_contra h
    rcases le_roundHalfEven_iff.mp (Int.add_one_le_of_lt (not_le.mp h)) with hlt | ⟨heq, -⟩
    · push_cast at hlt
      linarith
    · push_cast at heq
      linarith
  · exact le_roundHalfEven_iff.mpr (.inl (by linarith))

theorem roundHalfEven_mono {x y : ℚ} (h : x ≤ y) : roundHalfEven x ≤ roundHalfEven y := by
  rw [le_roundHalfEven_iff]
  rcases le_roundHalfEven_iff.mp (le_refl (roundHalfEven x)) with hlt | ⟨heq, heven⟩
  · exact .inl (hlt.trans_le h)
  · rcases h.eq_or_lt with rfl | hlt
    · exact .inr ⟨heq, heven⟩
    · exact .inl (heq.trans_lt hlt)

theorem roundHalfEven_nonneg {x : ℚ} (h : 0 ≤ x) : 0 ≤ roundHalfEven x := by
  rw [← roundHalfEven_intCast 0]
  exact roundHalfEven_mono (by exact_mod_cast h)

/-- Half to even on the digits that are cut off. -/
theorem roundHalfEven_natCast_div (c : ℕ) {u : ℕ} (hu : 0 < u) :
    roundHalfEven (c / u) =
      ((if u < 2 * (c % u) ∨ (2 * (c % u) = u ∧ c / u % 2 = 1) then c / u + 1 else c / u : ℕ) : ℤ) := by
  have hpos : (0 : ℚ) < u := by exact_mod_cast hu
  have hrest : (c : ℚ) / u - (c / u : ℕ) = (c % u : ℕ) / u := by
    have hcast : (c : ℚ) = (c / u : ℕ) * u + (c % u : ℕ) := by exact_mod_cast (Nat.div_add_mod' c u).symm
    rw [eq_div_iff hpos.ne', sub_mul, div_mul_cancel₀ _ hpos.ne']
    linarith
  have hfloor : ⌊(c : ℚ) / u⌋ = (c / u : ℕ) := by
    rw [Rat.floor_natCast_div_natCast]
    rfl
  have hhalf : ((c % u : ℕ) : ℚ) / u < 1 / 2 ↔ 2 * (c % u) < u := by
    rw [div_lt_div_iff₀ hpos two_pos, one_mul, mul_comm]
    exact_mod_cast Iff.rfl
  have htie : ((c % u : ℕ) : ℚ) / u = 1 / 2 ↔ 2 * (c % u) = u := by
    rw [div_eq_div_iff hpos.ne' two_ne_zero, one_mul, mul_comm]
    exact_mod_cast Iff.rfl
  unfold roundHalfEven
  dsimp only
  simp only [hfloor, Int.cast_natCast, hrest, hhalf, htie]
  split <;> split <;> omega

/-- No integer is nearer. -/
theorem abs_roundHalfEven_sub_le (x : ℚ) (k : ℤ) : |roundHalfEven x - x| ≤ |k - x| := by
  have hat := le_roundHalfEven_iff.mp (le_refl (roundHalfEven x))
  have habove : ¬ roundHalfEven x + 1 ≤ roundHalfEven x := by omega
  rw [le_roundHalfEven_iff, not_or, not_lt] at habove
  push_cast at habove
  have hlo : (roundHalfEven x : ℚ) - 1 / 2 ≤ x := by
    rcases hat with hat | ⟨hat, -⟩ <;> linarith
  have hhi : x ≤ roundHalfEven x + 1 / 2 := by linarith [habove.1]
  rcases lt_trichotomy k (roundHalfEven x) with hlt | rfl | hgt
  · have hk : (k : ℚ) + 1 ≤ roundHalfEven x := by exact_mod_cast hlt
    rw [abs_of_nonpos (by linarith : (k : ℚ) - x ≤ 0), abs_le]
    constructor <;> linarith
  · exact le_rfl
  · have hk : (roundHalfEven x : ℚ) + 1 ≤ k := by exact_mod_cast hgt
    rw [abs_of_nonneg (by linarith : 0 ≤ (k : ℚ) - x), abs_le]
    constructor <;> linarith

theorem abs_roundHalfEven_sub_le_half (x : ℚ) : |roundHalfEven x - x| ≤ 1 / 2 := by
  refine (abs_roundHalfEven_sub_le x (round x)).trans ?_
  rw [abs_sub_comm]
  exact abs_sub_round x

theorem roundHalfEven_neg (x : ℚ) : roundHalfEven (-x) = -roundHalfEven x := by
  have hat := le_roundHalfEven_iff.mp (le_refl (roundHalfEven x))
  have habove : ¬ roundHalfEven x + 1 ≤ roundHalfEven x := by omega
  rw [le_roundHalfEven_iff, not_or, not_lt, not_and] at habove
  push_cast at habove
  apply le_antisymm
  · by_contra h
    rcases le_roundHalfEven_iff.mp (Int.add_one_le_of_lt (not_le.mp h)) with hlt | ⟨heq, heven⟩
    · push_cast at hlt
      rcases hat with hat | ⟨hat, -⟩ <;> linarith
    · push_cast at heq
      rcases hat with hat | ⟨-, hat⟩
      · linarith
      · omega
  · rw [le_roundHalfEven_iff]
    push_cast
    rcases habove.1.lt_or_eq with hlt | heq
    · exact .inl (by linarith)
    · have hodd := habove.2 (by linarith)
      exact .inr ⟨by linarith, by omega⟩

namespace Rounding

/-- The unit of the last of `p` digits of a number. -/
def unit (p : ℕ) (x : ℚ) : ℚ := 10 ^ (Int.log 10 |x| + 1 - p)

/-- The nearest number of `p` significant digits, ties to even. -/
def roundTo (p : ℕ) (x : ℚ) : ℚ := roundHalfEven (x / unit p x) * unit p x

/-- A number of at most `p` significant digits. -/
def Digits (p : ℕ) (x : ℚ) : Prop := ∃ m e : ℤ, |m| ≤ 10 ^ p ∧ x = m * 10 ^ e

variable {p : ℕ} {x y : ℚ}

theorem unit_pos (p : ℕ) (x : ℚ) : 0 < unit p x := zpow_pos (by norm_num) _

theorem roundTo_neg (p : ℕ) (x : ℚ) : roundTo p (-x) = -roundTo p x := by
  rw [roundTo, roundTo, unit, abs_neg, ← unit, neg_div, roundHalfEven_neg]
  push_cast
  ring

/-- A whole number of units is left as it is. -/
theorem roundTo_eq_self {n : ℤ} (h : x = n * unit p x) : roundTo p x = x := by
  have hdiv : x / unit p x = n := by rw [div_eq_iff (unit_pos p x).ne', ← h]
  rw [roundTo, hdiv, roundHalfEven_intCast, ← h]

theorem zpow_log_le (hx : 0 < x) : (10 : ℚ) ^ Int.log 10 x ≤ x := by
  exact_mod_cast Int.zpow_log_le_self (b := 10) (by norm_num) hx

theorem lt_zpow_log (x : ℚ) : x < (10 : ℚ) ^ (Int.log 10 x + 1) := by
  exact_mod_cast Int.lt_zpow_succ_log_self (b := 10) (by norm_num) x

theorem log_zpow (n : ℤ) : Int.log 10 ((10 : ℚ) ^ n) = n := by
  exact_mod_cast Int.log_zpow (R := ℚ) (b := 10) (by norm_num) n

theorem pow_mul_unit (p : ℕ) (x : ℚ) : (10 : ℚ) ^ p * unit p x = 10 ^ (Int.log 10 |x| + 1) := by
  rw [unit, ← zpow_natCast, ← zpow_add₀ (by norm_num)]
  congr 1
  ring

theorem abs_round_le (p : ℕ) (x : ℚ) : |roundHalfEven (x / unit p x)| ≤ 10 ^ p := by
  have hdiv : |x / unit p x| ≤ ((10 ^ p : ℤ) : ℚ) := by
    push_cast
    rw [abs_div, abs_of_pos (unit_pos p x), div_le_iff₀ (unit_pos p x), pow_mul_unit]
    exact (lt_zpow_log |x|).le
  obtain ⟨hlo, hhi⟩ := abs_le.mp hdiv
  rw [← Int.cast_neg] at hlo
  rw [abs_le]
  exact ⟨(roundHalfEven_intCast _).symm.trans_le (roundHalfEven_mono hlo),
    (roundHalfEven_mono hhi).trans_eq (roundHalfEven_intCast _)⟩

theorem digits_roundTo (p : ℕ) (x : ℚ) : Digits p (roundTo p x) :=
  ⟨_, _, abs_round_le p x, rfl⟩

/-- Rounding is off by half a unit at most. -/
theorem abs_roundTo_sub_le (p : ℕ) (x : ℚ) : |roundTo p x - x| ≤ unit p x / 2 := by
  have hu := unit_pos p x
  have hhalf := abs_roundHalfEven_sub_le_half (x / unit p x)
  have hscaled : roundTo p x - x = (roundHalfEven (x / unit p x) - x / unit p x) * unit p x := by
    rw [roundTo, sub_mul, div_mul_cancel₀ x hu.ne']
  rw [hscaled, abs_mul, abs_of_pos hu]
  linarith [mul_le_mul_of_nonneg_right hhalf hu.le]

theorem roundTo_nonpos (p : ℕ) (hx : x ≤ 0) : roundTo p x ≤ 0 := by
  have hround := roundHalfEven_mono (div_nonpos_of_nonpos_of_nonneg hx (unit_pos p x).le)
  rw [← Int.cast_zero, roundHalfEven_intCast] at hround
  exact mul_nonpos_of_nonpos_of_nonneg (by exact_mod_cast hround) (unit_pos p x).le

section
variable (hp : 0 < p)
include hp

theorem pow_pred_mul_unit (x : ℚ) : ((10 ^ (p - 1) : ℤ) : ℚ) * unit p x = 10 ^ Int.log 10 |x| := by
  push_cast
  rw [unit, ← zpow_natCast, ← zpow_add₀ (by norm_num)]
  congr 1
  omega

/-- The unit against the number. -/
theorem pow_pred_mul_unit_le (hx : x ≠ 0) : (10 : ℚ) ^ (p - 1) * unit p x ≤ |x| := by
  have hunit := pow_pred_mul_unit hp x
  push_cast at hunit
  rw [hunit]
  exact zpow_log_le (abs_pos.mpr hx)

theorem roundTo_zpow (n : ℤ) : roundTo p (10 ^ n) = (10 : ℚ) ^ n := by
  apply roundTo_eq_self (n := 10 ^ (p - 1))
  rw [pow_pred_mul_unit hp, abs_of_pos (zpow_pos (by norm_num) n), log_zpow]

theorem roundTo_le_zpow {n : ℤ} (h : x ≤ 10 ^ n) : roundTo p x ≤ 10 ^ n := by
  rcases h.eq_or_lt with rfl | hlt
  · exact (roundTo_zpow hp n).le
  rcases le_or_gt x 0 with hx | hx
  · exact (roundTo_nonpos p hx).trans (zpow_pos (by norm_num) n).le
  · have hlog : Int.log 10 x + 1 ≤ n := by
      by_contra hgt
      have hle : (10 : ℚ) ^ n ≤ 10 ^ Int.log 10 x := zpow_le_zpow_right₀ (by norm_num) (by omega)
      linarith [zpow_log_le hx]
    have hround : (roundHalfEven (x / unit p x) : ℚ) ≤ 10 ^ p := by
      exact_mod_cast (le_abs_self _).trans (abs_round_le p x)
    calc roundTo p x ≤ 10 ^ p * unit p x := mul_le_mul_of_nonneg_right hround (unit_pos p x).le
      _ = 10 ^ (Int.log 10 x + 1) := by rw [pow_mul_unit, abs_of_pos hx]
      _ ≤ 10 ^ n := zpow_le_zpow_right₀ (by norm_num) hlog

theorem zpow_le_roundTo {n : ℤ} (h : (10 : ℚ) ^ n ≤ x) : 10 ^ n ≤ roundTo p x := by
  have hx : 0 < x := (zpow_pos (by norm_num) n).trans_le h
  have hlog : n ≤ Int.log 10 x := by
    rw [← log_zpow n]
    exact Int.log_mono_right (zpow_pos (by norm_num) n) h
  have hscale := pow_pred_mul_unit hp x
  rw [abs_of_pos hx] at hscale
  have hdiv : ((10 ^ (p - 1) : ℤ) : ℚ) ≤ x / unit p x := by
    rw [le_div_iff₀ (unit_pos p x), hscale]
    exact zpow_log_le hx
  have hround : ((10 ^ (p - 1) : ℤ) : ℚ) ≤ roundHalfEven (x / unit p x) := by
    exact_mod_cast (roundHalfEven_intCast _).symm.trans_le (roundHalfEven_mono hdiv)
  calc (10 : ℚ) ^ n ≤ 10 ^ Int.log 10 x := zpow_le_zpow_right₀ (by norm_num) hlog
    _ = ((10 ^ (p - 1) : ℤ) : ℚ) * unit p x := hscale.symm
    _ ≤ roundTo p x := mul_le_mul_of_nonneg_right hround (unit_pos p x).le

theorem roundTo_pos : 0 < roundTo p x ↔ 0 < x := by
  constructor
  · intro h
    by_contra hx
    exact (roundTo_nonpos p (not_lt.mp hx)).not_gt h
  · exact fun hx => (zpow_pos (by norm_num) _).trans_le (zpow_le_roundTo hp (zpow_log_le hx))

theorem roundTo_eq_zero : roundTo p x = 0 ↔ x = 0 := by
  constructor
  · intro h
    rcases lt_trichotomy x 0 with hneg | hzero | hpos
    · have hround := (roundTo_pos hp).mpr (neg_pos.mpr hneg)
      rw [roundTo_neg, h, neg_zero] at hround
      exact absurd hround (lt_irrefl 0)
    · exact hzero
    · exact absurd h ((roundTo_pos hp).mpr hpos).ne'
  · rintro rfl
    exact roundTo_eq_self (n := 0) (by simp)

/-- Between two powers of ten the unit is the same, up to the upper one. -/
theorem roundTo_of_decade {e : ℤ} (hlo : (10 : ℚ) ^ (e + p - 1) ≤ x) (hhi : x ≤ 10 ^ (e + p)) :
    roundTo p x = roundHalfEven (x / 10 ^ e) * 10 ^ e := by
  have hx : 0 < x := (zpow_pos (by norm_num) _).trans_le hlo
  rcases hhi.eq_or_lt with rfl | hlt
  · have hdiv : (10 : ℚ) ^ (e + p) / 10 ^ e = ((10 ^ p : ℤ) : ℚ) := by
      push_cast
      rw [← zpow_sub₀ (by norm_num), ← zpow_natCast]
      congr 1
      ring
    rw [roundTo_zpow hp, hdiv, roundHalfEven_intCast, ← hdiv, div_mul_cancel₀]
    exact (zpow_pos (by norm_num) e).ne'
  · have hlog : Int.log 10 x = e + p - 1 := by
      apply le_antisymm
      · have hupper : Int.log 10 x < e + p := by
          refine (Int.lt_zpow_iff_log_lt (b := 10) (by norm_num) hx).mp ?_
          exact_mod_cast hlt
        omega
      · rw [← log_zpow (e + p - 1)]
        exact Int.log_mono_right (zpow_pos (by norm_num) _) hlo
    have hunit : unit p x = 10 ^ e := by
      rw [unit, abs_of_pos hx, hlog]
      congr 1
      ring
    rw [roundTo, hunit]

theorem roundTo_of_digits (h : Digits p x) : roundTo p x = x := by
  obtain ⟨m, e, hm, hx⟩ := h
  rcases eq_or_ne x 0 with rfl | hne
  · exact roundTo_eq_self (n := 0) (by simp)
  have hle : |x| ≤ 10 ^ (e + p) := by
    have hcast : ((|m| : ℤ) : ℚ) ≤ 10 ^ p := by exact_mod_cast hm
    have hpow : (0 : ℚ) < 10 ^ e := zpow_pos (by norm_num) e
    rw [hx, abs_mul, abs_of_pos hpow, ← Int.cast_abs, zpow_add₀ (by norm_num), zpow_natCast, mul_comm]
    exact mul_le_mul_of_nonneg_left hcast hpow.le
  rcases hle.eq_or_lt with heq | hlt
  · rcases abs_choice x with hpos | hneg
    · rw [hpos] at heq
      rw [heq, roundTo_zpow hp]
    · rw [hneg] at heq
      rw [← neg_neg x, roundTo_neg, heq, roundTo_zpow hp]
  · have hlog : Int.log 10 |x| < e + p := by
      refine (Int.lt_zpow_iff_log_lt (b := 10) (by norm_num) (abs_pos.mpr hne)).mp ?_
      exact_mod_cast hlt
    obtain ⟨k, hk⟩ := Int.eq_ofNat_of_zero_le (show 0 ≤ e - (Int.log 10 |x| + 1 - p) by omega)
    apply roundTo_eq_self (n := m * 10 ^ k)
    push_cast
    rw [unit, mul_assoc, ← zpow_natCast, ← zpow_add₀ (by norm_num), ← hk, sub_add_cancel, ← hx]

end

end Rounding

/-- All numbers from a bound on, with the bound itself when the cut is closed. -/
structure Cut where
  bound : ℚ
  closed : Bool
deriving DecidableEq, Repr

namespace Cut
open Rounding

def Mem (c : Cut) (x : ℚ) : Prop := c.bound < x ∨ c.bound = x ∧ c.closed = true

instance (c : Cut) (x : ℚ) : Decidable (c.Mem x) :=
  inferInstanceAs (Decidable (c.bound < x ∨ c.bound = x ∧ c.closed = true))

/-- The first integer of the cut. -/
def first (c : Cut) : ℤ := if c.closed then ⌈c.bound⌉ else ⌊c.bound⌋ + 1

def scale (u : ℚ) (c : Cut) : Cut := ⟨c.bound * u, c.closed⟩

/-- What has its nearest integer in the cut. -/
def nearest (c : Cut) : Cut := ⟨c.first - 1 / 2, c.first % 2 == 0⟩

/-- The exponent of the unit in which numbers at the bound are rounded to `p` digits. -/
def exponent (p : ℕ) (c : Cut) : ℤ :=
  if c.closed then Int.clog 10 c.bound - p else Int.log 10 c.bound + 1 - p

/-- What has its rounding to `p` digits in the cut. -/
def unround (p : ℕ) (c : Cut) : Cut :=
  scale (10 ^ c.exponent p) (nearest (scale (10 ^ (-c.exponent p)) c))

variable {c : Cut} {p : ℕ} {x y u : ℚ}

theorem Mem.mono (h : c.Mem x) (hxy : x ≤ y) : c.Mem y := by
  rcases h with h | ⟨h, hclosed⟩
  · exact .inl (h.trans_le hxy)
  · rcases hxy.eq_or_lt with rfl | hlt
    · exact .inr ⟨h, hclosed⟩
    · exact .inl (h.trans_lt hlt)

theorem mem_intCast {n : ℤ} : c.Mem n ↔ c.first ≤ n := by
  unfold Mem first
  split
  · next hclosed => rw [Int.ceil_le, le_iff_lt_or_eq, hclosed, eq_self_iff_true, and_true]
  · next hopen =>
    rw [Int.add_one_le_iff, Int.floor_lt]
    exact or_iff_left fun h => hopen h.2

theorem mem_scale (hu : 0 < u) : (scale u c).Mem x ↔ c.Mem (x / u) := by
  unfold Mem scale
  rw [lt_div_iff₀ hu, eq_div_iff hu.ne']

theorem mem_nearest : (nearest c).Mem x ↔ c.Mem (roundHalfEven x) := by
  rw [mem_intCast, le_roundHalfEven_iff, Mem, nearest, beq_iff_eq]

theorem mem_unround_iff : (c.unround p).Mem x ↔
    c.Mem (roundHalfEven (x / 10 ^ c.exponent p) * 10 ^ c.exponent p) := by
  rw [unround, mem_scale (zpow_pos (by norm_num) _), mem_nearest, mem_scale (zpow_pos (by norm_num) _),
    zpow_neg, div_inv_eq_mul]

theorem mem_upper (p : ℕ) (c : Cut) : c.Mem (10 ^ (c.exponent p + p)) := by
  unfold exponent Mem
  split
  · next hclosed =>
    have hle : c.bound ≤ 10 ^ Int.clog 10 c.bound := by
      exact_mod_cast Int.self_le_zpow_clog (b := 10) (by norm_num) c.bound
    rw [sub_add_cancel]
    rcases hle.eq_or_lt with heq | hlt
    · exact .inr ⟨heq, hclosed⟩
    · exact .inl hlt
  · rw [sub_add_cancel]
    exact .inl (lt_zpow_log c.bound)

theorem not_mem_lower (p : ℕ) (hc : 0 < c.bound) : ¬ c.Mem (10 ^ (c.exponent p + p - 1)) := by
  unfold exponent Mem
  split
  · have hlt : (10 : ℚ) ^ (Int.clog 10 c.bound - 1) < c.bound := by
      exact_mod_cast Int.zpow_pred_clog_lt_self (b := 10) (by norm_num) hc
    rw [sub_add_cancel]
    rintro (h | ⟨h, -⟩)
    · exact h.not_gt hlt
    · exact h.not_gt hlt
  · next hopen =>
    rw [sub_add_cancel, add_sub_cancel_right]
    rintro (h | ⟨-, h⟩)
    · exact h.not_ge (zpow_log_le hc)
    · exact hopen h

/-- **What a rounding reaches**: the cut before it. -/
theorem mem_unround (hp : 0 < p) (hc : 0 < c.bound) : (c.unround p).Mem x ↔ c.Mem (roundTo p x) := by
  have hpow : (0 : ℚ) < 10 ^ c.exponent p := zpow_pos (by norm_num) _
  have hupper : ((10 ^ p : ℤ) : ℚ) * 10 ^ c.exponent p = 10 ^ (c.exponent p + p) := by
    push_cast
    rw [← zpow_natCast, ← zpow_add₀ (by norm_num), add_comm]
  have hlower : ((10 ^ (p - 1) : ℤ) : ℚ) * 10 ^ c.exponent p = 10 ^ (c.exponent p + p - 1) := by
    push_cast
    rw [← zpow_natCast, ← zpow_add₀ (by norm_num)]
    congr 1
    omega
  rw [mem_unround_iff]
  rcases le_total x (10 ^ (c.exponent p + p - 1)) with hlo | hlo
  · -- Below the decade of the bound nothing reaches it.
    refine iff_of_false (fun h => not_mem_lower p hc (h.mono ?_))
      fun h => not_mem_lower p hc (h.mono (roundTo_le_zpow hp hlo))
    rw [← hlower] at hlo ⊢
    have hround := roundHalfEven_mono ((div_le_iff₀ hpow).mpr hlo)
    rw [roundHalfEven_intCast] at hround
    exact mul_le_mul_of_nonneg_right (by exact_mod_cast hround) hpow.le
  rcases le_total x (10 ^ (c.exponent p + p)) with hhi | hhi
  · rw [roundTo_of_decade hp hlo hhi]
  · refine iff_of_true ((mem_upper p c).mono ?_) ((mem_upper p c).mono (zpow_le_roundTo hp hhi))
    rw [← hupper] at hhi ⊢
    have hround := roundHalfEven_mono ((le_div_iff₀ hpow).mpr hhi)
    rw [roundHalfEven_intCast] at hround
    exact mul_le_mul_of_nonneg_right (by exact_mod_cast hround) hpow.le

/-- A rounding does not cross a number that it leaves as it is. -/
theorem le_roundTo (hp : 0 < p) {n : ℚ} (hn : Digits p n) (hpos : 0 < n) (hle : n ≤ x) :
    n ≤ roundTo p x := by
  have hmem : (unround p ⟨n, true⟩).Mem n := by
    rw [mem_unround hp hpos, roundTo_of_digits hp hn]
    exact .inr ⟨rfl, rfl⟩
  rcases (mem_unround hp hpos).mp (hmem.mono hle) with hlt | ⟨heq, -⟩
  · exact hlt.le
  · exact heq.le

theorem roundTo_le (hp : 0 < p) {n : ℚ} (hn : Digits p n) (hpos : 0 < n) (hle : x ≤ n) :
    roundTo p x ≤ n := by
  by_contra hgt
  have hmem : (unround p ⟨n, false⟩).Mem x := (mem_unround hp hpos).mpr (.inl (not_le.mp hgt))
  rcases (mem_unround hp hpos).mp (hmem.mono hle) with hlt | ⟨-, hclosed⟩
  · rw [roundTo_of_digits hp hn] at hlt
    exact lt_irrefl n hlt
  · cases hclosed

theorem unround_bound_pos (hp : 0 < p) (hc : 0 < c.bound) : 0 < (c.unround p).bound := by
  have hnot : ¬ (c.unround p).Mem (10 ^ (c.exponent p + p - 1)) := by
    rw [mem_unround hp hc, roundTo_zpow hp]
    exact not_mem_lower p hc
  have hle : ¬ (c.unround p).bound < 10 ^ (c.exponent p + p - 1) := fun h => hnot (.inl h)
  exact (zpow_pos (by norm_num) _).trans_le (not_lt.mp hle)

end Cut
end Tqt
