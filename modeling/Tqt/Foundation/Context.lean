import Tqt.Foundation.Decimal
import Tqt.Foundation.Rounding

/-! The default context of `decimal`, on values.

A result has at most 28 digits: quotients, products and sums are rounded to them, half to
even, and an integer that needs more is an `InvalidOperation`, here `none`. On a sign, a
coefficient and an exponent it is `DecimalTuple.fix` (`DecimalTuple.toRat_fix`). -/
namespace Tqt
open Rounding

namespace Context

def precision : ℕ := 28

/-- The result of an operation whose exact value is `x`. -/
def fix (x : ℚ) : ℚ := roundTo precision x

/-- `x.quantize(Decimal(1), rounding)` -/
def quantize (rounding : ℚ → ℚ) (x : ℚ) : Option ℚ :=
  if |rounding x| < 10 ^ precision then some (rounding x) else none

/-- `x % t` -/
def remainder (x t : ℚ) : Option ℚ :=
  (quantize truncate (x / t)).map fun n => fix (x - n * t)

theorem precision_pos : 0 < precision := by decide

theorem fix_of_digits {x : ℚ} (h : Digits precision x) : fix x = x :=
  roundTo_of_digits precision_pos h

theorem fix_fix (x : ℚ) : fix (fix x) = fix x := fix_of_digits (digits_roundTo precision x)

theorem fix_neg (x : ℚ) : fix (-x) = -fix x := roundTo_neg precision x

theorem fix_intCast {n : ℤ} (h : |n| ≤ 10 ^ precision) : fix n = n :=
  fix_of_digits ⟨n, 0, h, by simp⟩

theorem fix_eq_zero {x : ℚ} : fix x = 0 ↔ x = 0 := roundTo_eq_zero precision_pos

theorem fix_pos {x : ℚ} : 0 < fix x ↔ 0 < x := roundTo_pos precision_pos

/-- A coefficient of more than 28 digits loses the `k` last ones. -/
theorem fix_scaled {c k : ℕ} (e : ℤ) (hlo : 10 ^ (27 + k) ≤ c) (hhi : c < 10 ^ (28 + k)) :
    fix (c * 10 ^ e) = roundHalfEven (c / (10 ^ k : ℕ)) * 10 ^ (e + k) := by
  have hten : (0 : ℚ) < 10 ^ e := zpow_pos (by norm_num) e
  have hpow (n : ℕ) : (10 : ℚ) ^ (e + n) = (10 ^ n : ℕ) * 10 ^ e := by
    push_cast
    rw [zpow_add₀ (by norm_num), zpow_natCast, mul_comm]
  have hlower : (10 : ℚ) ^ (e + k + precision - 1) ≤ c * 10 ^ e := by
    have hexponent : e + k + precision - 1 = e + (27 + k : ℕ) := by
      unfold precision
      omega
    rw [hexponent, hpow]
    exact mul_le_mul_of_nonneg_right (by exact_mod_cast hlo) hten.le
  have hupper : c * 10 ^ e ≤ (10 : ℚ) ^ (e + k + precision) := by
    have hexponent : e + k + precision = e + (28 + k : ℕ) := by
      unfold precision
      omega
    rw [hexponent, hpow]
    exact mul_le_mul_of_nonneg_right (by exact_mod_cast hhi.le) hten.le
  rw [fix, roundTo_of_decade precision_pos hlower hupper, hpow,
    mul_div_mul_right _ _ hten.ne']

end Context

namespace DecimalTuple

theorem fix_sign_mul (x : DecimalTuple) (a : ℚ) : Context.fix (x.sign * a) = x.sign * Context.fix a := by
  unfold sign
  split
  · rw [neg_one_mul, neg_one_mul, Context.fix_neg]
  · rw [one_mul, one_mul]

/-- Rounding the digits is rounding the value. -/
theorem toRat_fix (x : DecimalTuple) : x.fix.toRat = Context.fix x.toRat := by
  have hlength : x.coefficient < 10 ^ x.digits.length := lt_pow_length x.coefficient
  have hvalue : Context.fix x.toRat = x.sign * Context.fix (x.coefficient * 10 ^ x.exponent) :=
    fix_sign_mul x _
  rw [hvalue]
  unfold fix
  dsimp only
  split
  · next hfits =>
    have hsmall : x.coefficient < 10 ^ precision :=
      hlength.trans_le (Nat.pow_le_pow_right (by norm_num) (Nat.sub_eq_zero_iff_le.mp hfits))
    have hdigits : Rounding.Digits Context.precision (x.coefficient * 10 ^ x.exponent) := by
      refine ⟨x.coefficient, x.exponent, ?_, by norm_cast⟩
      rw [Nat.abs_cast]
      exact_mod_cast hsmall.le
    rw [Context.fix_of_digits hdigits, toRat]
  · next hexcess =>
    obtain ⟨k, hk⟩ := Nat.exists_eq_add_of_lt (Nat.sub_ne_zero_iff_lt.mp hexcess)
    have hlower : 10 ^ (27 + (k + 1)) ≤ x.coefficient :=
      pow_le_of_length (by omega) (by show _ < x.digits.length; unfold precision at hk; omega)
    have hupper : x.coefficient < 10 ^ (28 + (k + 1)) := by
      rwa [hk] at hlength
    have hexcess : x.digits.length - precision = k + 1 := by omega
    have hcarried (r : ℕ) : toRat (if r = 10 ^ precision then
          { x with coefficient := 10 ^ (precision - 1), exponent := x.exponent + (k + 1 : ℕ) + 1 }
        else { x with coefficient := r, exponent := x.exponent + (k + 1 : ℕ) }) =
        x.sign * (((r : ℕ) : ℤ) * 10 ^ (x.exponent + (k + 1 : ℕ))) := by
      split
      · next hcarry =>
        have hten : (10 : ℚ) ≠ 0 := by norm_num
        rw [toRat, hcarry, zpow_add_one₀ hten]
        unfold precision
        push_cast
        show x.sign * _ = _
        ring
      · rfl
    rw [hexcess, Context.fix_scaled _ hlower hupper, roundHalfEven_natCast_div _ (by positivity)]
    exact hcarried _

end DecimalTuple
end Tqt
