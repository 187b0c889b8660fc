import Mathlib.Data.List.DropRight
import Mathlib.Data.Rat.Defs
import Mathlib.Algebra.Order.Ring.Rat
import Mathlib.Algebra.Order.Field.Power
import Mathlib.Tactic.FieldSimp
import Mathlib.Tactic.Linarith
import Mathlib.Tactic.Ring

/-! Decimal numbers and their positional texts.

A finite decimal is a sign, a coefficient and an exponent; many of them have one value.
Normalizing rounds to the context's 28 digits and strips the trailing zeros, which picks
one of them (`Fits.normalize`, `Normal.eq`). A positional text, digits with a point and no
exponent, is read back with the value it was written for (`parse_positional`). The limits
of the exponent, a million either way, are not modelled. -/
namespace Tqt

structure DecimalTuple where
  negative : Bool := false
  coefficient : ℕ
  exponent : ℤ := 0
deriving DecidableEq, Repr

namespace DecimalTuple

def sign (x : DecimalTuple) : ℚ := if x.negative then -1 else 1

def toRat (x : DecimalTuple) : ℚ := x.sign * (x.coefficient * 10 ^ x.exponent)

/-- The digits that the default context keeps. -/
def precision : ℕ := 28

def digits (x : DecimalTuple) : List Char := Nat.toDigits 10 x.coefficient

/-- Rounded to the context's precision, ties to the even digit. -/
def fix (x : DecimalTuple) : DecimalTuple :=
  let excess := x.digits.length - precision
  if excess = 0 then x
  else
    let unit := 10 ^ excess
    let kept := x.coefficient / unit
    let rest := x.coefficient % unit
    let rounded := if unit < 2 * rest ∨ (2 * rest = unit ∧ kept % 2 = 1) then kept + 1 else kept
    if rounded = 10 ^ precision then
      { x with coefficient := 10 ^ (precision - 1), exponent := x.exponent + excess + 1 }
    else { x with coefficient := rounded, exponent := x.exponent + excess }

/-- The digits without the zeros at the end. -/
def stripZeros (x : DecimalTuple) : DecimalTuple :=
  let kept := x.digits.rdropWhile (· = '0')
  { x with
    coefficient := Nat.ofDigitChars 10 kept 0
    exponent := x.exponent + (x.digits.length - kept.length : ℕ) }

def normalize (x : DecimalTuple) : DecimalTuple :=
  let fixed := x.fix
  if fixed.coefficient = 0 then { fixed with exponent := 0 } else fixed.stripZeros

/-- The characters of `format(x, "f")` after the sign. -/
def positionalBody (x : DecimalTuple) : List Char :=
  let point := x.digits.length + x.exponent
  if 0 ≤ x.exponent then x.digits ++ List.replicate x.exponent.toNat '0'
  else if point ≤ 0 then '0' :: '.' :: (List.replicate (-point).toNat '0' ++ x.digits)
  else x.digits.take point.toNat ++ '.' :: x.digits.drop point.toNat

/-- The characters of `format(x, "f")`; a zero has no zeros behind it. -/
def positionalChars (x : DecimalTuple) : List Char :=
  let body :=
    if x.coefficient = 0 ∧ 0 < x.exponent then positionalBody { x with exponent := 0 }
    else x.positionalBody
  if x.negative then '-' :: body else body

/-- `format(x, "f")`. -/
def positional (x : DecimalTuple) : String := String.ofList x.positionalChars

/-- The unsigned part of a positional text. -/
def parseBody (negative : Bool) (body : List Char) : Option DecimalTuple :=
  let whole := body.takeWhile Char.isDigit
  match body.dropWhile Char.isDigit with
  | [] => if whole = [] then none else some ⟨negative, Nat.ofDigitChars 10 whole 0, 0⟩
  | '.' :: fraction =>
    if whole ++ fraction = [] ∨ ¬ fraction.all Char.isDigit then none
    else some ⟨negative, Nat.ofDigitChars 10 (whole ++ fraction) 0, -fraction.length⟩
  | _ => none

def parseChars : List Char → Option DecimalTuple
  | '-' :: body => parseBody true body
  | body => parseBody false body

/-- The constructor on a positional text. -/
def parse (text : String) : Option DecimalTuple := parseChars text.toList

/-- One or more digits. -/
def Digits (l : List Char) : Prop := l ≠ [] ∧ ∀ c ∈ l, c.isDigit = true

/-- An optional sign, digits, and possibly a point and more digits. -/
def Positional (text : String) : Prop :=
  ∃ sign whole fraction, text.toList = sign ++ (whole ++ fraction) ∧ (sign = [] ∨ sign = ['-']) ∧
    Digits whole ∧ (fraction = [] ∨ ∃ more, fraction = '.' :: more ∧ Digits more)

/-- At most 28 significant digits, whatever zeros follow them. -/
def Fits (x : DecimalTuple) : Prop := ∃ c k, x.coefficient = c * 10 ^ k ∧ c < 10 ^ precision

example : (normalize ⟨true, 1234500, -3⟩).positional = "-1234.5" := by decide
example : (normalize ⟨false, 15, 3⟩).positional = "15000" := by decide
example : (normalize ⟨false, 50, -6⟩).positional = "0.00005" := by decide

/-! ### Digits -/

theorem isDigit_digits (x : DecimalTuple) : ∀ c ∈ x.digits, c.isDigit = true :=
  fun _ hc => Nat.isDigit_of_mem_toDigits (by omega) le_rfl hc

theorem digits_ne_nil (x : DecimalTuple) : x.digits ≠ [] := Nat.toDigits_ne_nil

theorem ofDigitChars_digits (x : DecimalTuple) : Nat.ofDigitChars 10 x.digits 0 = x.coefficient :=
  Nat.ofDigitChars_ten_toDigits

theorem ofDigitChars_concat (l : List Char) (c : Char) :
    Nat.ofDigitChars 10 (l ++ [c]) 0 = 10 * Nat.ofDigitChars 10 l 0 + (c.toNat - 48) := by
  rw [Nat.ofDigitChars_append, Nat.ofDigitChars_cons, Nat.ofDigitChars_nil]
  rfl

/-- The zeros at the end are a power of ten. -/
theorem ofDigitChars_rdropWhile (l : List Char) :
    Nat.ofDigitChars 10 l 0 = Nat.ofDigitChars 10 (l.rdropWhile (· = '0')) 0 *
      10 ^ (l.length - (l.rdropWhile (· = '0')).length) := by
  induction l using List.reverseRecOn with
  | nil => rfl
  | append_singleton l c ih =>
    by_cases hc : c = '0'
    · rw [List.rdropWhile_concat, if_pos (decide_eq_true hc), ofDigitChars_concat, hc]
      have hlength := (List.rdropWhile_prefix (fun c : Char => decide (c = '0')) l).length_le
      rw [List.length_append, List.length_singleton, Nat.sub_add_comm hlength, pow_succ]
      show 10 * Nat.ofDigitChars 10 l 0 + 0 = _
      rw [ih]
      ring
    · rw [List.rdropWhile_concat, if_neg (by simp [hc]), Nat.sub_self, pow_zero, mul_one]

/-- Digits that do not end in a zero are no multiple of ten. -/
theorem not_dvd_rdropWhile {l : List Char} (hl : ∀ c ∈ l, c.isDigit = true)
    (hne : l.rdropWhile (· = '0') ≠ []) : ¬ 10 ∣ Nat.ofDigitChars 10 (l.rdropWhile (· = '0')) 0 := by
  have hlast := List.rdropWhile_last_not _ _ hne
  have hdigit := hl _ ((List.rdropWhile_prefix _ l).subset (List.getLast_mem hne))
  rw [← List.dropLast_append_getLast hne, ofDigitChars_concat]
  generalize (l.rdropWhile (· = '0')).getLast hne = c at hlast hdigit
  simp only [decide_eq_true_eq] at hlast
  have hbounds : 48 ≤ c.toNat ∧ c.toNat ≤ 57 := by
    simp only [Char.isDigit, Bool.and_eq_true, decide_eq_true_eq, UInt32.le_iff_toNat_le] at hdigit
    exact hdigit
  have hzero : c.toNat ≠ 48 := fun h => hlast (Char.toNat_inj.mp h)
  omega

/-! ### Normal forms -/

theorem lt_pow_length (n : ℕ) : n < 10 ^ (Nat.toDigits 10 n).length :=
  (Nat.length_toDigits_le_iff (by omega) Nat.length_toDigits_pos).mp le_rfl

theorem pow_le_of_length {n k : ℕ} (hk : 0 < k) (h : k < (Nat.toDigits 10 n).length) : 10 ^ k ≤ n := by
  by_contra hlt
  have hle := (Nat.length_toDigits_le_iff (by omega) hk).mpr (not_le.mp hlt)
  omega

/-- What would be rounded away is zeros. -/
theorem Fits.dvd {x : DecimalTuple} (h : x.Fits) :
    10 ^ (x.digits.length - precision) ∣ x.coefficient := by
  obtain ⟨c, k, hx, hc⟩ := h
  rcases Nat.eq_zero_or_pos (x.digits.length - precision) with hzero | hexcess
  · simp [hzero]
  have hprecision : precision = 28 := rfl
  have hlow : 10 ^ (x.digits.length - 1) ≤ x.coefficient := by
    apply pow_le_of_length
    · omega
    · show x.digits.length - 1 < x.digits.length
      omega
  have hhigh : x.coefficient < 10 ^ (precision + k) := by
    rw [hx, pow_add]
    exact Nat.mul_lt_mul_of_pos_right hc (by positivity)
  have hlt : x.digits.length - 1 < precision + k :=
    (Nat.pow_lt_pow_iff_right (by omega)).mp (hlow.trans_lt hhigh)
  rw [hx]
  exact (pow_dvd_pow 10 (by omega)).mul_left c

/-- A coefficient with enough zeros at its end is cut, not rounded. -/
theorem Fits.fix_eq {x : DecimalTuple} (h : x.Fits) :
    x.fix = ⟨x.negative, x.coefficient / 10 ^ (x.digits.length - precision),
      x.exponent + (x.digits.length - precision : ℕ)⟩ := by
  rcases Nat.eq_zero_or_pos (x.digits.length - precision) with hzero | hexcess
  · simp [fix, hzero]
  have hrest := Nat.mod_eq_zero_of_dvd h.dvd
  have hunit : 0 < 10 ^ (x.digits.length - precision) := by positivity
  have hkept : x.coefficient / 10 ^ (x.digits.length - precision) < 10 ^ precision := by
    rw [Nat.div_lt_iff_lt_mul hunit, ← pow_add]
    refine (lt_pow_length x.coefficient).trans_eq (congrArg _ ?_)
    show x.digits.length = _
    omega
  have hexact : ¬ (10 ^ (x.digits.length - precision) < 2 * 0 ∨
      2 * 0 = 10 ^ (x.digits.length - precision) ∧
        x.coefficient / 10 ^ (x.digits.length - precision) % 2 = 1) := by omega
  unfold fix
  simp only [hrest, if_neg hexcess.ne', if_neg hexact, if_neg hkept.ne]

/-- The value, with the zeros of the coefficient in the exponent. -/
theorem toRat_shift (negative : Bool) (coefficient k : ℕ) (exponent : ℤ) :
    toRat ⟨negative, coefficient * 10 ^ k, exponent⟩ = toRat ⟨negative, coefficient, exponent + k⟩ := by
  unfold toRat sign
  rw [zpow_add₀ (by norm_num), zpow_natCast]
  push_cast
  ring

/-- A normal form: no zeros at the end, and one zero only of each sign. -/
structure Normal (x : DecimalTuple) : Prop where
  zero : x.coefficient = 0 → x.exponent = 0
  stripped : x.coefficient ≠ 0 → ¬ 10 ∣ x.coefficient

/-- **Normalizing** what fits keeps the value. -/
theorem Fits.normalize {x : DecimalTuple} (h : x.Fits) :
    x.normalize.Normal ∧ x.normalize.negative = x.negative ∧ x.normalize.toRat = x.toRat := by
  have hfix := h.fix_eq
  have hvalue : x.fix.toRat = x.toRat := by
    rw [hfix, ← toRat_shift, Nat.div_mul_cancel h.dvd]
  have hsign : x.fix.negative = x.negative := by rw [hfix]
  unfold DecimalTuple.normalize
  by_cases hzero : x.fix.coefficient = 0
  · simp only [if_pos hzero]
    refine ⟨⟨fun _ => rfl, fun hne => absurd hzero hne⟩, hsign, ?_⟩
    rw [← hvalue]
    simp [toRat, hzero]
  · simp only [if_neg hzero]
    have hcoefficient : x.fix.coefficient = _ := (ofDigitChars_digits x.fix).symm.trans
      (ofDigitChars_rdropWhile x.fix.digits)
    have hstripped : x.fix.stripZeros.coefficient ≠ 0 := by
      intro hnone
      apply hzero
      rw [hcoefficient]
      exact Nat.mul_eq_zero.mpr (.inl hnone)
    refine ⟨⟨fun h => absurd h hstripped, fun _ => ?_⟩, hsign, ?_⟩
    · refine not_dvd_rdropWhile x.fix.isDigit_digits fun hnil => hstripped ?_
      show Nat.ofDigitChars 10 (x.fix.digits.rdropWhile (· = '0')) 0 = 0
      rw [hnil]
      rfl
    · rw [← hvalue]
      show toRat ⟨_, Nat.ofDigitChars 10 (x.fix.digits.rdropWhile (· = '0')) 0, _⟩ = _
      rw [← toRat_shift, ← hcoefficient]

/-! ### Texts -/

/-- The shape of the text after the sign, and what its digits say. -/
theorem positionalBody_spec (x : DecimalTuple) :
    (Digits x.positionalBody ∧ 0 ≤ x.exponent ∧
      Nat.ofDigitChars 10 x.positionalBody 0 = x.coefficient * 10 ^ x.exponent.toNat) ∨
    ∃ whole more, x.positionalBody = whole ++ '.' :: more ∧ Digits whole ∧ Digits more ∧
      Nat.ofDigitChars 10 (whole ++ more) 0 = x.coefficient ∧ (more.length : ℤ) = -x.exponent := by
  have hzeros : ∀ (n : ℕ), ∀ c ∈ List.replicate n '0', c.isDigit = true := by
    intro n c hc
    rw [List.eq_of_mem_replicate hc]
    rfl
  have hpos := List.length_pos_of_ne_nil x.digits_ne_nil
  unfold positionalBody
  simp only
  by_cases hexp : 0 ≤ x.exponent
  · left
    rw [if_pos hexp]
    refine ⟨⟨by simp [x.digits_ne_nil], fun c hc => ?_⟩, hexp, ?_⟩
    · rcases List.mem_append.mp hc with hc | hc
      · exact x.isDigit_digits c hc
      · exact hzeros _ c hc
    · rw [Nat.ofDigitChars_append, ofDigitChars_digits, Nat.ofDigitChars_replicate_zero, mul_comm]
  · right
    rw [if_neg hexp]
    by_cases hpoint : x.digits.length + x.exponent ≤ 0
    · rw [if_pos hpoint]
      refine ⟨['0'], _, rfl, ⟨by simp, by simp⟩, ⟨by simp [x.digits_ne_nil], fun c hc => ?_⟩, ?_, ?_⟩
      · rcases List.mem_append.mp hc with hc | hc
        · exact hzeros _ c hc
        · exact x.isDigit_digits c hc
      · rw [List.singleton_append, Nat.ofDigitChars_cons, Nat.ofDigitChars_append,
          Nat.ofDigitChars_replicate_zero]
        exact x.ofDigitChars_digits
      · rw [List.length_append, List.length_replicate]
        omega
    · rw [if_neg hpoint]
      refine ⟨_, _, rfl, ⟨?_, fun c hc => ?_⟩, ⟨?_, fun c hc => ?_⟩, ?_, ?_⟩
      · apply List.ne_nil_of_length_pos
        rw [List.length_take]
        omega
      · exact x.isDigit_digits c (List.mem_of_mem_take hc)
      · apply List.ne_nil_of_length_pos
        rw [List.length_drop]
        omega
      · exact x.isDigit_digits c (List.mem_of_mem_drop hc)
      · rw [List.take_append_drop]
        exact x.ofDigitChars_digits
      · rw [List.length_drop]
        omega

theorem parseBody_whole {l : List Char} (h : Digits l) (negative : Bool) :
    parseBody negative l = some ⟨negative, Nat.ofDigitChars 10 l 0, 0⟩ := by
  unfold parseBody
  rw [List.takeWhile_eq_self_iff.mpr h.2, List.dropWhile_eq_nil_iff.mpr h.2]
  exact if_neg h.1

theorem parseBody_point {whole more : List Char} (hwhole : Digits whole) (hmore : Digits more)
    (negative : Bool) : parseBody negative (whole ++ '.' :: more) =
      some ⟨negative, Nat.ofDigitChars 10 (whole ++ more) 0, -more.length⟩ := by
  have hpoint : ¬ '.'.isDigit = true := by decide
  unfold parseBody
  rw [List.takeWhile_append_of_pos hwhole.2, List.dropWhile_append_of_pos hwhole.2,
    List.takeWhile_cons_of_neg hpoint, List.dropWhile_cons_of_neg hpoint, List.append_nil]
  have hok : ¬ (whole ++ more = [] ∨ ¬ more.all Char.isDigit = true) := by
    rw [not_or, not_not]
    exact ⟨by simp [hwhole.1], List.all_eq_true.mpr hmore.2⟩
  exact if_neg hok

theorem parseChars_signed {negative : Bool} {body : List Char} (h : ∀ rest, body ≠ '-' :: rest) :
    parseChars (if negative then '-' :: body else body) = parseBody negative body := by
  cases negative with
  | true => rfl
  | false =>
    unfold parseChars
    split
    · next heq => exact absurd heq (h _)
    · rfl

/-- A text that starts with a digit starts with no sign. -/
theorem not_signed {whole : List Char} (h : Digits whole) (more rest : List Char) :
    whole ++ more ≠ '-' :: rest := by
  obtain ⟨hne, hall⟩ := h
  cases whole with
  | nil => exact absurd rfl hne
  | cons c tail =>
    rintro ⟨⟩
    exact absurd (hall '-' (List.mem_cons_self ..)) (by decide)

/-- What the text after the sign is read as. -/
theorem parseBody_positional (x : DecimalTuple) (negative : Bool) :
    ∃ y, parseBody negative x.positionalBody = some y ∧ y.negative = negative ∧
      (y.coefficient : ℚ) * 10 ^ y.exponent = x.coefficient * 10 ^ x.exponent := by
  rcases x.positionalBody_spec with ⟨hdigits, hexp, hvalue⟩ | ⟨whole, more, hbody, hwhole, hmore, hvalue, hlen⟩
  · refine ⟨_, parseBody_whole hdigits negative, rfl, ?_⟩
    rw [hvalue, zpow_zero, mul_one, ← Int.toNat_of_nonneg hexp, zpow_natCast, Int.toNat_natCast]
    push_cast
    rfl
  · refine ⟨_, by rw [hbody, parseBody_point hwhole hmore], rfl, ?_⟩
    simp only [hvalue, hlen, neg_neg]

theorem positionalBody_shape (x : DecimalTuple) : ∃ whole fraction,
    x.positionalBody = whole ++ fraction ∧ Digits whole ∧
      (fraction = [] ∨ ∃ more, fraction = '.' :: more ∧ Digits more) := by
  rcases x.positionalBody_spec with ⟨hdigits, -, -⟩ | ⟨whole, more, hbody, hwhole, hmore, -, -⟩
  · exact ⟨_, [], (List.append_nil _).symm, hdigits, .inl rfl⟩
  · exact ⟨whole, '.' :: more, hbody, hwhole, .inr ⟨more, rfl, hmore⟩⟩

/-- The decimal whose digits a text has after its sign: a zero counts for no power of ten. -/
theorem positionalChars_eq (x : DecimalTuple) : ∃ z : DecimalTuple,
    x.positionalChars = (if x.negative then '-' :: z.positionalBody else z.positionalBody) ∧
      (z.coefficient : ℚ) * 10 ^ z.exponent = x.coefficient * 10 ^ x.exponent := by
  unfold positionalChars
  by_cases h : x.coefficient = 0 ∧ 0 < x.exponent
  · simp only [if_pos h]
    exact ⟨_, rfl, by simp [h.1]⟩
  · simp only [if_neg h]
    exact ⟨x, rfl, rfl⟩

/-- **The text is plain.** -/
theorem positional_positional (x : DecimalTuple) : Positional x.positional := by
  obtain ⟨z, hchars, -⟩ := x.positionalChars_eq
  obtain ⟨whole, fraction, hbody, hwhole, hfraction⟩ := z.positionalBody_shape
  refine ⟨if x.negative then ['-'] else [], whole, fraction, ?_, ?_, hwhole, hfraction⟩
  · rw [positional, String.toList_ofList, hchars, hbody]
    split <;> rfl
  · cases x.negative <;> simp

/-- **The text is read back** with the sign and the value. -/
theorem parse_positional (x : DecimalTuple) :
    ∃ y, parse x.positional = some y ∧ y.toRat = x.toRat := by
  obtain ⟨z, hchars, hz⟩ := x.positionalChars_eq
  obtain ⟨whole, fraction, hbody, hwhole, -⟩ := z.positionalBody_shape
  obtain ⟨y, hy, hsign, hvalue⟩ := z.parseBody_positional x.negative
  refine ⟨y, ?_, ?_⟩
  · rw [parse, positional, String.toList_ofList, hchars, parseChars_signed, hy]
    rw [hbody]
    exact not_signed hwhole fraction
  · unfold toRat sign
    rw [hsign, hvalue, hz]

/-! ### One text for each value -/

theorem coefficient_eq {c c' : ℕ} {e e' : ℤ} (hc : ¬ 10 ∣ c) (hle : e ≤ e')
    (h : (c : ℚ) * 10 ^ e = c' * 10 ^ e') : c = c' ∧ e = e' := by
  obtain ⟨k, rfl⟩ := Int.le.dest hle
  rw [zpow_add₀ (by norm_num), zpow_natCast] at h
  have hpos : (0 : ℚ) < 10 ^ e := zpow_pos (by norm_num) e
  have hcast : (c : ℚ) = c' * 10 ^ k := by
    apply mul_right_cancel₀ hpos.ne'
    rw [h]
    ring
  have hnat : c = c' * 10 ^ k := by exact_mod_cast hcast
  cases k with
  | zero => simp [hnat]
  | succ k =>
    refine absurd ?_ hc
    rw [hnat, pow_succ, ← mul_assoc]
    exact dvd_mul_left 10 _

theorem abs_toRat (x : DecimalTuple) : |x.toRat| = x.coefficient * 10 ^ x.exponent := by
  have hmagnitude : (0 : ℚ) ≤ x.coefficient * 10 ^ x.exponent :=
    mul_nonneg (Nat.cast_nonneg _) (zpow_nonneg (by norm_num) _)
  unfold toRat sign
  split
  · rw [neg_one_mul, abs_neg, abs_of_nonneg hmagnitude]
  · rw [one_mul, abs_of_nonneg hmagnitude]

theorem negative_iff {x : DecimalTuple} (hne : x.toRat ≠ 0) : x.negative = true ↔ x.toRat < 0 := by
  have hpos := abs_pos.mpr hne
  rw [abs_toRat] at hpos
  unfold toRat sign
  cases x.negative with
  | true => simpa using hpos
  | false => simpa using hpos.le

/-- **Two normal forms of one value**, not zero, are the same. -/
theorem Normal.eq {x y : DecimalTuple} (hx : x.Normal) (hy : y.Normal) (hne : x.toRat ≠ 0)
    (h : x.toRat = y.toRat) : x = y := by
  have hnonzero : ∀ z : DecimalTuple, z.toRat ≠ 0 → z.coefficient ≠ 0 := by
    intro z hz hzero
    exact hz (by simp [toRat, hzero])
  have hx' := hx.stripped (hnonzero x hne)
  have hy' := hy.stripped (hnonzero y (h ▸ hne))
  have hsign : x.negative = y.negative := by
    rw [Bool.eq_iff_iff, negative_iff hne, negative_iff (h ▸ hne), h]
  have hmagnitude : (x.coefficient : ℚ) * 10 ^ x.exponent = y.coefficient * 10 ^ y.exponent := by
    rw [← abs_toRat, ← abs_toRat, h]
  have heq : x.coefficient = y.coefficient ∧ x.exponent = y.exponent := by
    rcases le_total x.exponent y.exponent with hle | hle
    · exact coefficient_eq hx' hle hmagnitude
    · obtain ⟨hc, he⟩ := coefficient_eq hy' hle hmagnitude.symm
      exact ⟨hc.symm, he.symm⟩
  cases x
  cases y
  simp only [mk.injEq]
  exact ⟨hsign, heq.1, heq.2⟩

end DecimalTuple
end Tqt
