import Tqt.Foundation.Directed
import Tqt.Tick.Grid

/-! Which prices stay as aggressive as they were meant to be.

A BUY is meant to round up and a SELL down. A US price is rounded to the nearest cent whatever the
side, so half of all prices go the wrong way. A Korean price is rounded to the side, after its
quotient by the tick has been rounded to the 28 digits of the context: the wrong way only within
half a unit in the last of them (`asAggressive_iff`). Above 10^28 won the product is rounded as
well, which for an ETF is to the nearest multiple of ten. -/
namespace Tqt
open Rounding

/-- An order at `sent` is at least as aggressive as one at `price`. -/
def AsAggressive (side : Side) (price sent : Decimal) : Prop :=
  match side with
  | .BUY => price ≤ sent
  | .SELL => sent ≤ price

/-- Rounded to the unit `u` before it is rounded to its side, a number keeps its side. -/
def Stays (side : Side) (u x : Decimal) : Prop :=
  match side with
  | .BUY => StaysAbove u x
  | .SELL => StaysBelow u x

/-- Rounded to the nearest multiple of five and that to the nearest of ten, half to even, a price
keeps its side: by what it is above a multiple of twenty. -/
def StaysOnTens (side : Side) (price : Decimal) : Prop :=
  let y := 20 * Int.fract (price / 20)
  match side with
  | .BUY => y = 0 ∨ 15 / 2 ≤ y ∧ y ≤ 10 ∨ 25 / 2 < y
  | .SELL => y < 15 / 2 ∨ 10 ≤ y ∧ y ≤ 25 / 2

/-- The first number that rounds to more than 28 digits. -/
def overflow : Decimal := 10 ^ 28 - 1 / 2

/-- When rounding to a tick keeps the side. Above all digits nothing is returned. -/
def KeepsSide (country : Country) (isEtf : Bool) (side : Side) (price : Decimal) : Prop :=
  match country with
  | .US => overflow ≤ price * 100 ∨ Stays side 1 (price * 100)
  | .KR =>
    let x := price / tickSize price isEtf
    overflow ≤ x ∨
      if isEtf ∧ 10 ^ 28 < price then StaysOnTens side price else Stays side (unit 28 x) x

/-! ### The digits of the context -/

section
variable {x : Decimal}

theorem le_roundHalfEven_overflow : (10 ^ 28 : ℤ) ≤ roundHalfEven x ↔ overflow ≤ x := by
  rw [le_roundHalfEven_iff, le_iff_lt_or_eq, overflow]
  push_cast
  exact or_congr_right (and_iff_left (by decide))

/-- In the decade below 10^28 the context rounds to whole numbers. -/
theorem fix_of_big (hlo : 10 ^ 27 ≤ x) (hhi : x ≤ 10 ^ 28) : Context.fix x = roundHalfEven x := by
  have h := roundTo_of_decade (p := 28) (x := x) (e := 0) (by norm_num) (by exact_mod_cast hlo)
    (by exact_mod_cast hhi)
  rw [zpow_zero, div_one, mul_one] at h
  exact h

/-- Below 10^28 the unit is one or a part of it. -/
theorem unit_of_small (h0 : 0 ≤ x) (hx : x < 10 ^ 28) : ∃ k : ℕ, unit 28 x = 1 / 10 ^ k := by
  have hlog : Int.log 10 x < 28 := by
    rcases h0.eq_or_lt with rfl | hpos
    · rw [Int.log_zero_right]
      norm_num
    · refine (Int.lt_zpow_iff_log_lt (b := 10) (by norm_num) hpos).mp ?_
      exact_mod_cast hx
  obtain ⟨k, hk⟩ := Int.eq_ofNat_of_zero_le (show 0 ≤ 27 - Int.log 10 x by omega)
  refine ⟨k, ?_⟩
  rw [unit, abs_of_nonneg h0, one_div, ← zpow_natCast, ← zpow_neg]
  congr 1
  push_cast
  omega

theorem fix_nonneg (h0 : 0 ≤ x) : 0 ≤ Context.fix x := by
  rcases h0.eq_or_lt with rfl | hpos
  · exact (Context.fix_eq_zero.mpr rfl).ge
  · exact (Context.fix_pos.mpr hpos).le

theorem snap_intCast (side : Option Side) {n : ℤ} (h0 : 0 ≤ n) : Context.snap side n = n := by
  obtain ⟨m, hm, hfloor, hceil⟩ := snap_eq side (x := (n : Decimal)) (by exact_mod_cast h0)
  rw [Int.floor_intCast] at hfloor
  rw [Int.ceil_intCast] at hceil
  rw [hm, le_antisymm hceil hfloor]

/-- What a rounded quotient is snapped to has too many digits exactly from the overflow on. -/
theorem snap_overflow (side : Option Side) (h0 : 0 ≤ x) :
    10 ^ 28 ≤ Context.snap side (Context.fix x) ↔ overflow ≤ x := by
  obtain ⟨n, hn, hfloor, hceil⟩ := snap_eq side (fix_nonneg h0)
  rcases le_total x (10 ^ 27) with hlow | hlow
  · have hfix : Context.fix x ≤ 10 ^ 27 := by
      exact_mod_cast roundTo_le_zpow Context.precision_pos (n := 27) (by exact_mod_cast hlow)
    have hle : n ≤ 10 ^ 27 := hceil.trans (Int.ceil_le.mpr (by exact_mod_cast hfix))
    have hcast : (n : Decimal) ≤ 10 ^ 27 := by exact_mod_cast hle
    rw [hn, overflow]
    exact iff_of_false (by linarith) (by linarith)
  rcases le_total x (10 ^ 28) with hhigh | hhigh
  · rw [fix_of_big hlow hhigh, snap_intCast side (roundHalfEven_nonneg h0), ← le_roundHalfEven_overflow]
    exact_mod_cast Iff.rfl
  · have hfix : 10 ^ 28 ≤ Context.fix x := by
      exact_mod_cast zpow_le_roundTo Context.precision_pos (n := 28) (by exact_mod_cast hhigh)
    have hle : 10 ^ 28 ≤ n := (Int.le_floor.mpr (by exact_mod_cast hfix)).trans hfloor
    rw [hn, overflow]
    exact iff_of_true (by exact_mod_cast hle) (by linarith)

/-- `quantize` of a rounded quotient. -/
theorem quantize_snap (side : Option Side) (h0 : 0 ≤ x) :
    Context.quantize (Context.snap side) (Context.fix x) =
      if overflow ≤ x then none else some (Context.snap side (Context.fix x)) := by
  obtain ⟨n, hn, hfloor, -⟩ := snap_eq side (fix_nonneg h0)
  have hn0 : 0 ≤ Context.snap side (Context.fix x) := by
    rw [hn]
    exact_mod_cast (Int.floor_nonneg.mpr (fix_nonneg h0)).trans hfloor
  unfold Context.quantize
  rw [abs_of_nonneg hn0, Context.precision]
  by_cases hover : overflow ≤ x
  · rw [if_neg (not_lt.mpr ((snap_overflow side h0).mpr hover)), if_pos hover]
  · rw [if_pos (not_le.mp fun h => hover ((snap_overflow side h0).mp h)), if_neg hover]

/-- The multiple that a quotient is snapped to, rounded first, is next to the quotient. -/
theorem snap_fix_eq (side : Option Side) (h0 : 0 ≤ x) (hx : x ≤ 10 ^ 28) :
    ∃ n : ℤ, Context.snap side (Context.fix x) = n ∧ ⌊x⌋ ≤ n ∧ n ≤ ⌈x⌉ := by
  have hdigits {n : ℤ} (hn0 : 0 ≤ n) (hn : n ≤ 10 ^ 28) : Digits Context.precision n :=
    ⟨n, 0, by rwa [abs_of_nonneg hn0], by rw [zpow_zero, mul_one]⟩
  have hceil28 : ⌈x⌉ ≤ 10 ^ 28 := Int.ceil_le.mpr (by exact_mod_cast hx)
  have hlower : (⌊x⌋ : Decimal) ≤ Context.fix x := by
    rcases (Int.floor_nonneg.mpr h0).eq_or_lt with hzero | hpos
    · rw [← hzero]
      exact_mod_cast fix_nonneg h0
    · exact Cut.le_roundTo Context.precision_pos
        (hdigits hpos.le ((Int.floor_le_ceil x).trans hceil28)) (by exact_mod_cast hpos) (Int.floor_le x)
  have hupper : Context.fix x ≤ ⌈x⌉ := by
    rcases h0.eq_or_lt with rfl | hpos
    · rw [Context.fix_eq_zero.mpr rfl, Int.ceil_zero, Int.cast_zero]
    · have hceil0 : 0 < ⌈x⌉ := Int.ceil_pos.mpr hpos
      exact Cut.roundTo_le Context.precision_pos (hdigits hceil0.le hceil28) (by exact_mod_cast hceil0)
        (Int.le_ceil x)
  obtain ⟨n, hn, hfloor, hceil⟩ := snap_eq side (fix_nonneg h0)
  exact ⟨n, hn, (Int.le_floor.mpr hlower).trans hfloor, hceil.trans (Int.ceil_le.mpr hupper)⟩

end

/-! ### Korean prices -/

section
variable {price : Decimal} {isEtf : Bool}

theorem tickSize_stock_top (h : 500000 ≤ price) : tickSize price false = 1000 := by
  have hnot {bound : Decimal} (hbound : bound ≤ 500000) : ¬ price < bound := not_lt.mpr (hbound.trans h)
  unfold tickSize krxStockTicks
  simp [hnot (show (2000 : Decimal) ≤ 500000 by norm_num), hnot (show (5000 : Decimal) ≤ 500000 by norm_num),
    hnot (show (20000 : Decimal) ≤ 500000 by norm_num), hnot (show (50000 : Decimal) ≤ 500000 by norm_num),
    hnot (show (200000 : Decimal) ≤ 500000 by norm_num), hnot (show (500000 : Decimal) ≤ 500000 from le_rfl)]

theorem tickSize_etf_top (h : 2000 ≤ price) : tickSize price true = 5 := by
  unfold tickSize krxEtfTicks
  simp [not_lt.mpr h]

/-- Up to 10^28, and for a stock above it, a multiple of the tick is returned. -/
theorem roundToTick_kr (side : Option Side) (h0 : 0 ≤ price)
    (hx : price / tickSize price isEtf < overflow) (hexact : ¬ (isEtf ∧ 10 ^ 28 < price)) :
    Context.roundToTick price .KR isEtf side =
      some (Context.snap side (Context.fix (price / tickSize price isEtf)) * tickSize price isEtf) := by
  have hdiv := div_nonneg h0 (tickSize_pos price isEtf).le
  have hx28 : price / tickSize price isEtf ≤ 10 ^ 28 := by
    unfold overflow at hx
    linarith
  obtain ⟨n, hn, hfloor, hceil⟩ := snap_fix_eq side hdiv hx28
  rcases le_or_gt price (10 ^ 28) with hsmall | hbig
  · rw [(roundToTick_of h0 hsmall hn hfloor hceil).1, hn]
  · -- A stock in the top band: the product has the digits of the multiple.
    have hstock : isEtf = false := by
      rw [← Bool.not_eq_true]
      exact fun hetf => hexact ⟨hetf, hbig⟩
    subst hstock
    have htick : tickSize price false = 1000 := tickSize_stock_top (by linarith)
    have hsnap := quantize_snap side hdiv
    rw [if_neg (not_le.mpr hx), hn] at hsnap
    rw [htick] at hsnap hfloor hceil hx28
    have hlow : (500 : ℤ) ≤ n := (Int.le_floor.mpr (by push_cast; linarith)).trans hfloor
    have hhigh : n ≤ 10 ^ 28 := hceil.trans (Int.ceil_le.mpr (by exact_mod_cast hx28))
    have hfix : Context.fix ((n : Decimal) * 1000) = n * 1000 := by
      refine Context.fix_of_digits ⟨n, 3, ?_, by norm_num⟩
      rwa [abs_of_nonneg (by omega)]
    have hagain : tickSize ((n : Decimal) * 1000) false = 1000 := by
      refine tickSize_stock_top ?_
      have hcast : (500 : Decimal) ≤ n := by exact_mod_cast hlow
      linarith
    rw [hn, htick]
    unfold Context.roundToTick
    simp only [htick, hsnap, Option.bind_eq_bind, Option.bind_some, hfix, hagain, if_true]
    rfl

/-- The price of an ETF above 10^28 is rounded twice. -/
theorem roundToTick_etf (side : Option Side) (hbig : 10 ^ 28 < price) (hx : price / 5 < overflow) :
    Context.roundToTick price .KR true side =
      some ((roundHalfEven ((roundHalfEven (price / 5) : Decimal) / 2) : Decimal) * 10) := by
  have htick : tickSize price true = 5 := tickSize_etf_top (by linarith)
  have hx27 : 2 * 10 ^ 27 ≤ price / 5 := by linarith
  have hx28 : price / 5 ≤ 10 ^ 28 := by
    unfold overflow at hx
    linarith
  have hlow : (2 * 10 ^ 27 : ℤ) ≤ roundHalfEven (price / 5) :=
    le_roundHalfEven_iff.mpr (.inl (by push_cast; linarith))
  have hhigh : roundHalfEven (price / 5) ≤ 10 ^ 28 := by
    have h := roundHalfEven_mono (show price / 5 ≤ ((10 ^ 28 : ℤ) : Decimal) by push_cast; exact hx28)
    rwa [roundHalfEven_intCast] at h
  have hsnap : Context.quantize (Context.snap side) (Context.fix (price / 5)) =
      some (roundHalfEven (price / 5) : Decimal) := by
    rw [quantize_snap side (by linarith), if_neg (not_le.mpr hx), fix_of_big (by linarith) hx28,
      snap_intCast side (by omega)]
  generalize roundHalfEven (price / 5) = m at hlow hhigh hsnap ⊢
  have hm : (2 * 10 ^ 27 : Decimal) ≤ m := by exact_mod_cast hlow
  have hm' : (m : Decimal) ≤ 10 ^ 28 := by exact_mod_cast hhigh
  have hfix : Context.fix ((m : Decimal) * 5) = roundHalfEven ((m : Decimal) / 2) * 10 := by
    have h := roundTo_of_decade Context.precision_pos (x := (m : Decimal) * 5) (e := 1)
      (by norm_num [Context.precision]; linarith) (by norm_num [Context.precision]; linarith)
    rw [zpow_one, show (m : Decimal) * 5 / 10 = m / 2 by ring] at h
    exact h
  have hagain : tickSize (roundHalfEven ((m : Decimal) / 2) * 10) true = 5 := by
    have h : (10 ^ 27 : ℤ) ≤ roundHalfEven ((m : Decimal) / 2) :=
      le_roundHalfEven_iff.mpr (.inl (by push_cast; linarith))
    have hcast : (10 ^ 27 : Decimal) ≤ roundHalfEven ((m : Decimal) / 2) := by exact_mod_cast h
    exact tickSize_etf_top (by linarith)
  unfold Context.roundToTick
  simp only [htick, hsnap, Option.bind_eq_bind, Option.bind_some, hfix, hagain, if_true]
  rfl

theorem roundToTick_overflow (side : Option Side) (h0 : 0 ≤ price)
    (hx : overflow ≤ price / tickSize price isEtf) :
    Context.roundToTick price .KR isEtf side = none := by
  unfold Context.roundToTick
  dsimp only
  rw [quantize_snap side (div_nonneg h0 (tickSize_pos price isEtf).le), if_pos hx]
  rfl

end

/-! ### Twice to a multiple -/

theorem roundHalfEven_even_add (k : ℤ) (z : Decimal) :
    roundHalfEven (((2 * k : ℤ) : Decimal) + z) = 2 * k + roundHalfEven z := by
  unfold roundHalfEven
  dsimp only
  rw [Int.floor_intCast_add, Int.cast_add, add_sub_add_left_eq_sub]
  have hparity : (2 * k + ⌊z⌋) % 2 = ⌊z⌋ % 2 := by omega
  rw [hparity]
  split <;> omega

/-- Where a price rounded twice comes to, by what it is above a multiple of twenty. -/
theorem round_twice (y : Decimal) (h0 : 0 ≤ y) (h20 : y < 20) :
    roundHalfEven ((roundHalfEven (y / 5) : Decimal) / 2) =
      if y < 15 / 2 then 0 else if y ≤ 25 / 2 then 1 else 2 := by
  have hfirst0 : 0 ≤ roundHalfEven (y / 5) := le_roundHalfEven_iff.mpr (.inl (by push_cast; linarith))
  have hfirst2 : 2 ≤ roundHalfEven (y / 5) ↔ ¬ y < 15 / 2 := by
    rw [le_roundHalfEven_iff, and_iff_left (by decide), ← le_iff_lt_or_eq, not_lt]
    push_cast
    constructor <;> intro h <;> linarith
  have hfirst3 : 3 ≤ roundHalfEven (y / 5) ↔ ¬ y ≤ 25 / 2 := by
    rw [le_roundHalfEven_iff, or_iff_left (by simp), not_le]
    push_cast
    constructor <;> intro h <;> linarith
  have hfirst5 : ¬ 5 ≤ roundHalfEven (y / 5) := by
    rw [le_roundHalfEven_iff, or_iff_left (by simp), not_lt]
    push_cast
    linarith
  generalize roundHalfEven (y / 5) = m at hfirst0 hfirst2 hfirst3 hfirst5 ⊢
  -- Half of 1 and half of 3 are ties, and go to 0 and 2.
  have hhalf : roundHalfEven ((m : Decimal) / 2) = if m < 2 then 0 else if m < 3 then 1 else 2 := by
    obtain rfl | rfl | rfl | rfl | rfl : m = 0 ∨ m = 1 ∨ m = 2 ∨ m = 3 ∨ m = 4 := by omega
    all_goals decide +kernel
  have hlow : m < 2 ↔ y < 15 / 2 := by rw [← not_le, hfirst2, not_not]
  have hmiddle : m < 3 ↔ y ≤ 25 / 2 := by rw [← not_le, hfirst3, not_not]
  rw [hhalf]
  simp only [hlow, hmiddle]

/-- A multiple of twenty comes through both roundings. -/
theorem round_twice_add (k : ℤ) (y : Decimal) :
    roundHalfEven ((roundHalfEven ((20 * k + y) / 5) : Decimal) / 2) =
      2 * k + roundHalfEven ((roundHalfEven (y / 5) : Decimal) / 2) := by
  have hfifth : (20 * k + y) / 5 = ((2 * (2 * k) : ℤ) : Decimal) + y / 5 := by
    push_cast
    ring
  have hhalf : ((2 * (2 * k) + roundHalfEven (y / 5) : ℤ) : Decimal) / 2 =
      ((2 * k : ℤ) : Decimal) + (roundHalfEven (y / 5) : Decimal) / 2 := by
    push_cast
    ring
  rw [hfifth, roundHalfEven_even_add, hhalf, roundHalfEven_even_add]

/-- **When a price rounded twice keeps its side.** -/
theorem staysOnTens_iff (side : Side) (price : Decimal) :
    AsAggressive side price ((roundHalfEven ((roundHalfEven (price / 5) : Decimal) / 2) : Decimal) * 10) ↔
      StaysOnTens side price := by
  have hy0 : 0 ≤ 20 * Int.fract (price / 20) := mul_nonneg (by norm_num) (Int.fract_nonneg _)
  have hy20 : 20 * Int.fract (price / 20) < 20 := by linarith [Int.fract_lt_one (price / 20)]
  have hprice : price = 20 * ⌊price / 20⌋ + 20 * Int.fract (price / 20) := by
    rw [← mul_add, Int.floor_add_fract]
    ring
  unfold StaysOnTens
  dsimp only
  generalize 20 * Int.fract (price / 20) = y at hy0 hy20 hprice ⊢
  generalize ⌊price / 20⌋ = k at hprice
  subst hprice
  rw [round_twice_add, round_twice y hy0 hy20]
  -- Compared with nothing, ten or twenty above the multiple.
  have hcompare (n : ℤ) : ((2 * k + n : ℤ) : Decimal) * 10 = 20 * k + 10 * n := by
    push_cast
    ring
  rw [hcompare]
  cases side
  · unfold AsAggressive
    dsimp only
    rw [add_le_add_iff_left]
    split
    · grind
    · split <;> grind
  · unfold AsAggressive
    dsimp only
    rw [add_le_add_iff_left]
    split
    · grind
    · split <;> grind

/-! ### When a price keeps its side -/

theorem asAggressive_mul (side : Side) (price sent : Decimal) {t : Decimal} (ht : 0 < t) :
    AsAggressive side price (sent * t) ↔ AsAggressive side (price / t) sent := by
  cases side
  · exact (div_le_iff₀ ht).symm
  · exact (le_div_iff₀ ht).symm

/-- Snapped to a side behind a nearest rounding. -/
theorem asAggressive_snap {x u : Decimal} {k : ℕ} (hu : u = 1 / 10 ^ k) (side : Side)
    (h0 : 0 ≤ (roundHalfEven (x / u) : Decimal) * u) :
    AsAggressive side x (Context.snap (some side) (roundHalfEven (x / u) * u)) ↔ Stays side u x := by
  cases side
  · have hsnap : Context.snap (some .BUY) (roundHalfEven (x / u) * u) =
        ⌈(roundHalfEven (x / u) : Decimal) * u⌉ := if_pos h0
    rw [hsnap]
    exact le_ceil_round_iff hu
  · have hsnap : Context.snap (some .SELL) (roundHalfEven (x / u) * u) =
        ⌊(roundHalfEven (x / u) : Decimal) * u⌋ := if_pos h0
    rw [hsnap]
    exact floor_round_le_iff hu

/-- A price in cents, rounded to whole ones whatever the side. -/
theorem asAggressive_cents (side : Side) {x : Decimal} (h0 : 0 ≤ x) :
    AsAggressive side x (roundHalfEven x) ↔ Stays side 1 x := by
  have hround := roundHalfEven_nonneg h0
  have h := asAggressive_snap (x := x) (u := 1) (k := 0) (by norm_num) side
  rw [div_one, mul_one, snap_intCast _ hround] at h
  exact h (by exact_mod_cast hround)

theorem roundToTick_us {price : Decimal} (h0 : 0 < price) (isEtf : Bool) (side : Option Side) :
    Context.roundToTick price .US isEtf side =
      if overflow ≤ price * 100 then none
      else some ((roundHalfEven (price * 100) : Decimal) / 100) := by
  have hround : 0 ≤ roundHalfEven (price * 100) := roundHalfEven_nonneg (by positivity)
  have hdigits : |(roundHalfEven (price * 100) : Decimal)| < 10 ^ Context.precision ↔
      ¬ overflow ≤ price * 100 := by
    rw [abs_of_nonneg (by exact_mod_cast hround), ← le_roundHalfEven_overflow, not_le]
    exact_mod_cast Iff.rfl
  unfold Context.roundToTick Context.quantize
  dsimp only
  rw [ite_congr (propext hdigits) (fun _ => rfl) (fun _ => rfl), ite_not]
  split <;> rfl

/-- **Exactly when rounding to a tick keeps the side**, or returns nothing. -/
theorem asAggressive_iff {price : Decimal} (h0 : 0 < price) (country : Country) (isEtf : Bool)
    (side : Side) :
    (∀ sent, Context.roundToTick price country isEtf (some side) = some sent →
      AsAggressive side price sent) ↔ KeepsSide country isEtf side price := by
  cases country with
  | US =>
    rw [roundToTick_us h0]
    unfold KeepsSide
    dsimp only
    split
    · next hover => exact iff_of_true (fun sent hsent => nomatch hsent) (.inl hover)
    · next hover =>
      rw [or_iff_right hover, ← asAggressive_cents side (by positivity)]
      simp only [Option.some_inj, forall_eq']
      rw [div_eq_mul_inv, asAggressive_mul side price _ (by norm_num), div_inv_eq_mul]
  | KR =>
    have ht := tickSize_pos price isEtf
    have hdiv : 0 < price / tickSize price isEtf := div_pos h0 ht
    unfold KeepsSide
    dsimp only
    by_cases hover : overflow ≤ price / tickSize price isEtf
    · rw [roundToTick_overflow _ h0.le hover]
      exact iff_of_true (fun sent hsent => nomatch hsent) (.inl hover)
    rw [or_iff_right hover]
    split
    · next hbig =>
      obtain ⟨hetf, hbig⟩ := hbig
      subst hetf
      rw [tickSize_etf_top (by linarith)] at hover
      rw [roundToTick_etf _ hbig (not_le.mp hover), ← staysOnTens_iff]
      exact ⟨fun h => h _ rfl, fun h sent hsent => (Option.some.inj hsent) ▸ h⟩
    · next hexact =>
      rw [roundToTick_kr _ h0.le (not_le.mp hover) hexact]
      simp only [Option.some_inj, forall_eq']
      obtain ⟨k, hk⟩ := unit_of_small hdiv.le (by unfold overflow at hover; linarith)
      rw [asAggressive_mul side price _ ht]
      exact asAggressive_snap hk side (fix_nonneg hdiv.le)

end Tqt
