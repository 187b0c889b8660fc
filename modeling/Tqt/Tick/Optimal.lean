import Tqt.Tick.Aggressive

/-! When a Korean price is rounded to the best valid one.

The multiple of the tick that is taken is next to the price, so for a side it is the best one
exactly where it is on that side of the price, and without a side where it is at most half a tick
away. Up to 10^28 won, and for a stock above it, that is a condition on the quotient of price and
tick, which is rounded to the 28 digits of the context before it is rounded to a whole number
(`optimal_iff`); with at most 28 digits it always holds (`roundToTick_optimal`). -/
namespace Tqt
open Rounding

/-- What rounding a price to a tick is for. -/
def Optimal (isEtf : Bool) (price : Decimal) : Prop :=
  (∃ r, Context.roundToTick price .KR isEtf (some .BUY) = some r ∧
    IsLeast {y | price ≤ y ∧ AcceptedTick isEtf y} r) ∧
  (∃ r, Context.roundToTick price .KR isEtf (some .SELL) = some r ∧
    IsGreatest {y | y ≤ price ∧ AcceptedTick isEtf y} r) ∧
  ∃ r, Context.roundToTick price .KR isEtf none = some r ∧ AcceptedTick isEtf r ∧
    ∀ y, AcceptedTick isEtf y → |r - price| ≤ |y - price|

/-- The quotient of price and tick keeps both sides and the nearest when it is rounded to 28 digits
first. The price of an ETF above 10^28 is rounded to tens. -/
def SnapsWell (isEtf : Bool) (price : Decimal) : Prop :=
  let x := price / tickSize price isEtf
  x < overflow ∧
    if isEtf ∧ 10 ^ 28 < price then Whole (price / 10)
    else StaysAbove (unit 28 x) x ∧ StaysBelow (unit 28 x) x ∧ StaysNearest (unit 28 x) x

instance (isEtf : Bool) (price : Decimal) : Decidable (SnapsWell isEtf price) :=
  let snaps (x : Decimal) : Decidable (x < overflow ∧
      if isEtf ∧ 10 ^ 28 < price then Whole (price / 10)
      else StaysAbove (unit 28 x) x ∧ StaysBelow (unit 28 x) x ∧ StaysNearest (unit 28 x) x) :=
    inferInstance
  snaps (price / tickSize price isEtf)

section
variable {isEtf : Bool} {price : Decimal}

theorem tickSize_top (h : 500000 ≤ price) : tickSize price isEtf = topTick isEtf := by
  cases isEtf with
  | false => exact tickSize_stock_top h
  | true => exact tickSize_etf_top (by linarith)

/-- A multiple next to the quotient is accepted, if it has at most 28 digits. -/
theorem acceptedTick_mul (h0 : 0 ≤ price) {n : ℤ} (hfloor : ⌊price / tickSize price isEtf⌋ ≤ n)
    (hceil : n ≤ ⌈price / tickSize price isEtf⌉) (hn : n < 10 ^ 28) :
    AcceptedTick isEtf (n * tickSize price isEtf) := by
  have hpos := tickSize_pos price isEtf
  have hgrid := onTick_mul h0 hfloor hceil
  have hn0 : 0 ≤ n := (Int.floor_nonneg.mpr (div_nonneg h0 hpos.le)).trans hfloor
  rcases le_or_gt price (10 ^ 28) with hsmall | hbig
  · exact acceptedTick_of_onTick hgrid (mul_nonneg (by exact_mod_cast hn0) hpos.le)
      (mul_tick_le h0 hsmall hceil).2
  · -- Both prices are in the top band.
    have htop : tickSize price isEtf = topTick isEtf := tickSize_top (by linarith)
    have hthousand : topTick isEtf ≤ 1000 := by cases isEtf <;> norm_num [topTick]
    have hagain : tickSize (n * tickSize price isEtf) isEtf = tickSize price isEtf := by
      have hbelow : price / tickSize price isEtf - 1 ≤ n :=
        (Int.sub_one_lt_floor _).le.trans (by exact_mod_cast hfloor)
      have hmul := mul_le_mul_of_nonneg_right hbelow hpos.le
      rw [sub_mul, div_mul_cancel₀ _ hpos.ne', one_mul] at hmul
      rw [tickSize_top (by rw [htop] at hmul ⊢; linarith), htop]
    refine acceptedTick_iff.mpr ⟨hgrid, ?_⟩
    rw [hagain, mul_div_cancel_right₀ _ hpos.ne', Whole.truncate_eq ⟨n, rfl⟩, abs_of_nonneg]
    · exact_mod_cast hn
    · exact_mod_cast hn0

/-! ### One side at a time -/

section
variable (h0 : 0 ≤ price) (hx : price / tickSize price isEtf < overflow)
  (hexact : ¬ (isEtf ∧ 10 ^ 28 < price))
include h0 hx hexact

/-- What is returned. -/
theorem snapped (side : Option Side) : ∃ n : ℤ,
    Context.roundToTick price .KR isEtf side = some (n * tickSize price isEtf) ∧
      AcceptedTick isEtf (n * tickSize price isEtf) ∧
      Context.snap side (Context.fix (price / tickSize price isEtf)) = n ∧
      ⌊price / tickSize price isEtf⌋ ≤ n ∧ n ≤ ⌈price / tickSize price isEtf⌉ := by
  have hdiv := div_nonneg h0 (tickSize_pos price isEtf).le
  have hx28 : price / tickSize price isEtf ≤ 10 ^ 28 := by
    unfold overflow at hx
    linarith
  obtain ⟨n, hn, hfloor, hceil⟩ := snap_fix_eq side hdiv hx28
  have hdigits : n < 10 ^ 28 := by
    have hlt := not_le.mp fun h => hx.not_ge ((snap_overflow side hdiv).mp h)
    rw [hn] at hlt
    exact_mod_cast hlt
  refine ⟨n, ?_, acceptedTick_mul h0 hfloor hceil hdigits, hn, hfloor, hceil⟩
  rw [roundToTick_kr side h0 hx hexact, hn]

theorem buy_optimal_iff : (∃ r, Context.roundToTick price .KR isEtf (some .BUY) = some r ∧
      IsLeast {y | price ≤ y ∧ AcceptedTick isEtf y} r) ↔
    Stays .BUY (unit 28 (price / tickSize price isEtf)) (price / tickSize price isEtf) := by
  have ht := tickSize_pos price isEtf
  have hdiv := div_nonneg h0 ht.le
  obtain ⟨n, hround, haccepted, hn, -, hceil⟩ := snapped h0 hx hexact (some .BUY)
  obtain ⟨k, hk⟩ := unit_of_small hdiv (by unfold overflow at hx; linarith)
  rw [← asAggressive_snap hk .BUY (fix_nonneg hdiv), ← asAggressive_mul .BUY price _ ht]
  change _ ↔ AsAggressive .BUY price (Context.snap (some .BUY) (Context.fix _) * _)
  rw [hn, hround]
  constructor
  · rintro ⟨r, hr, hleast⟩
    cases hr
    exact hleast.1.1
  · intro hside
    refine ⟨_, rfl, ⟨hside, haccepted⟩, fun y hy => ?_⟩
    have hcast : (n : Decimal) ≤ ⌈price / tickSize price isEtf⌉ := by exact_mod_cast hceil
    exact (mul_le_mul_of_nonneg_right hcast ht.le).trans
      ((isLeast_ceil h0).2 ⟨hy.1, (acceptedTick_iff.mp hy.2).1⟩)

theorem sell_optimal_iff : (∃ r, Context.roundToTick price .KR isEtf (some .SELL) = some r ∧
      IsGreatest {y | y ≤ price ∧ AcceptedTick isEtf y} r) ↔
    Stays .SELL (unit 28 (price / tickSize price isEtf)) (price / tickSize price isEtf) := by
  have ht := tickSize_pos price isEtf
  have hdiv := div_nonneg h0 ht.le
  obtain ⟨n, hround, haccepted, hn, hfloor, -⟩ := snapped h0 hx hexact (some .SELL)
  obtain ⟨k, hk⟩ := unit_of_small hdiv (by unfold overflow at hx; linarith)
  rw [← asAggressive_snap hk .SELL (fix_nonneg hdiv), ← asAggressive_mul .SELL price _ ht]
  change _ ↔ AsAggressive .SELL price (Context.snap (some .SELL) (Context.fix _) * _)
  rw [hn, hround]
  constructor
  · rintro ⟨r, hr, hgreatest⟩
    cases hr
    exact hgreatest.1.1
  · intro hside
    refine ⟨_, rfl, ⟨hside, haccepted⟩, fun y hy => ?_⟩
    have hcast : (⌊price / tickSize price isEtf⌋ : Decimal) ≤ n := by exact_mod_cast hfloor
    exact ((isGreatest_floor h0).2 ⟨hy.1, (acceptedTick_iff.mp hy.2).1⟩).trans
      (mul_le_mul_of_nonneg_right hcast ht.le)

theorem nearest_optimal_iff : (∃ r, Context.roundToTick price .KR isEtf none = some r ∧
      AcceptedTick isEtf r ∧ ∀ y, AcceptedTick isEtf y → |r - price| ≤ |y - price|) ↔
    StaysNearest (unit 28 (price / tickSize price isEtf)) (price / tickSize price isEtf) := by
  have ht := tickSize_pos price isEtf
  have hdiv := div_nonneg h0 ht.le
  obtain ⟨n, hround, haccepted, hn, -, -⟩ := snapped h0 hx hexact none
  obtain ⟨k, hk⟩ := unit_of_small hdiv (by unfold overflow at hx; linarith)
  have hn' : roundHalfEven ((roundHalfEven (price / tickSize price isEtf /
      unit 28 (price / tickSize price isEtf)) : Decimal) * unit 28 (price / tickSize price isEtf)) = n :=
    Int.cast_inj.mp hn
  have hscale (m : ℤ) : |(m : Decimal) * tickSize price isEtf - price| =
      |m - price / tickSize price isEtf| * tickSize price isEtf := by
    rw [← abs_of_pos ht, ← abs_mul, abs_of_pos ht, sub_mul, div_mul_cancel₀ price ht.ne']
  rw [← abs_round_round_le_iff hk, hn', hround]
  constructor
  · rintro ⟨r, hr, -, hbest⟩
    cases hr
    -- Against the multiple nearest to the quotient itself.
    obtain ⟨m, hm, hfloor, hceil⟩ := snap_eq none hdiv
    have hm : roundHalfEven (price / tickSize price isEtf) = m := Int.cast_inj.mp hm
    have hdigits : m < 10 ^ 28 := by
      rw [← hm]
      exact not_le.mp fun h => hx.not_ge (le_roundHalfEven_overflow.mp h)
    have hle := hbest _ (acceptedTick_mul h0 hfloor hceil hdigits)
    rw [hscale, hscale, ← hm] at hle
    exact (le_of_mul_le_mul_right hle ht).trans (abs_roundHalfEven_sub_le_half _)
  · intro hhalf
    exact ⟨_, rfl, haccepted, fun y hy => nearest_tick h0 (nearest_of_half hhalf) (acceptedTick_iff.mp hy).1⟩

end

/-! ### An ETF above all digits of won -/

/-- Every side gives the same price there. -/
theorem etf_optimal_iff (hbig : 10 ^ 28 < price) (hx : price / tickSize price true < overflow) :
    Optimal true price ↔ Whole (price / 10) := by
  have htick : tickSize price true = 5 := tickSize_etf_top (by linarith)
  rw [htick] at hx
  constructor
  · rintro ⟨⟨r, hr, hleast⟩, ⟨r', hr', hgreatest⟩, -⟩
    rw [roundToTick_etf _ hbig hx] at hr hr'
    cases hr
    cases hr'
    exact ⟨_, (div_eq_iff (by norm_num)).mpr (le_antisymm hleast.1.1 hgreatest.1.1)⟩
  · rintro ⟨j, hj⟩
    have hprice : price = j * 10 := (div_eq_iff (by norm_num)).mp hj
    have hfifth : price / 5 = ((2 * j : ℤ) : Decimal) := by
      rw [hprice]
      push_cast
      ring
    have hround (side : Option Side) : Context.roundToTick price .KR true side = some price := by
      have hhalf : ((2 * j : ℤ) : Decimal) / 2 = (j : ℤ) := by push_cast; ring
      rw [roundToTick_etf side hbig hx, hfifth, roundHalfEven_intCast, hhalf, roundHalfEven_intCast,
        ← hprice]
    have haccepted : AcceptedTick true price := by
      rw [acceptedTick_iff, onTick_iff, htick]
      refine ⟨⟨_, hfifth⟩, ?_⟩
      rw [Whole.truncate_eq ⟨_, hfifth⟩, abs_of_nonneg (by linarith)]
      unfold overflow at hx
      unfold Context.precision
      linarith
    exact ⟨⟨price, hround _, ⟨le_rfl, haccepted⟩, fun y hy => hy.1⟩,
      ⟨price, hround _, ⟨le_rfl, haccepted⟩, fun y hy => hy.1⟩,
      price, hround _, haccepted, fun y _ => by rw [sub_self, abs_zero]; exact abs_nonneg _⟩

end

/-- **Exactly when tick rounding is exact.** -/
theorem optimal_iff {price : Decimal} (h0 : 0 ≤ price) (isEtf : Bool) :
    Optimal isEtf price ↔ SnapsWell isEtf price := by
  unfold SnapsWell
  dsimp only
  by_cases hover : overflow ≤ price / tickSize price isEtf
  · refine iff_of_false ?_ fun h => h.1.not_ge hover
    rintro ⟨⟨r, hr, -⟩, -, -⟩
    rw [roundToTick_overflow _ h0 hover] at hr
    cases hr
  have hx := not_le.mp hover
  rw [and_iff_right hx]
  split
  · next hbig =>
    obtain ⟨hetf, hbig⟩ := hbig
    subst hetf
    exact etf_optimal_iff hbig hx
  · next hexact =>
    unfold Optimal
    rw [buy_optimal_iff h0 hx hexact, sell_optimal_iff h0 hx hexact, nearest_optimal_iff h0 hx hexact]
    rfl

/-- A price with a fraction, below a bound of its band: a BUY crosses into the band above. With 29
nines after the point a price is too close to one won. -/
theorem optimal_iff_crossing : Optimal false (499950 + 3 / 4) ∧
    ¬ Optimal false (1 - 1 / 10 ^ 29) := by
  rw [optimal_iff (by norm_num), optimal_iff (by norm_num)]
  decide +kernel

/-- 29 nines: the quotient is rounded to 1 before the SELL rounds down, and the order is placed
above its price. -/
theorem sell_rounded_up : ¬ ∀ (isEtf : Bool) (price : Decimal), 0 ≤ price → Optimal isEtf price := by
  intro hall
  obtain ⟨-, ⟨r, hround, hgreatest⟩, -⟩ := hall false (1 - 1 / 10 ^ 29) (by norm_num)
  have hone : Context.roundToTick (1 - 1 / 10 ^ 29) .KR false (some .SELL) = some 1 := by
    decide +kernel
  rw [hone] at hround
  cases hround
  have hle := hgreatest.1.1
  norm_num at hle

/-- **Tick rounding is exact** for a price whose quotient by its tick has at most 28 digits. -/
theorem roundToTick_optimal {price : Decimal} {isEtf : Bool} (h0 : 0 ≤ price) (hbig : price ≤ 10 ^ 28)
    (hdigits : Digits Context.precision (price / tickSize price isEtf)) : Optimal isEtf price := by
  have hdiv := div_nonneg h0 (tickSize_pos price isEtf).le
  have hx : price / tickSize price isEtf < overflow := by
    have hle : price / tickSize price isEtf ≤ 2 * 10 ^ 27 := div_tick_le hbig
    unfold overflow
    linarith
  have hexact : ¬ (isEtf ∧ 10 ^ 28 < price) := fun h => h.2.not_ge hbig
  obtain ⟨k, hk⟩ := unit_of_small hdiv (by unfold overflow at hx; linarith)
  have hfix := Context.fix_of_digits hdigits
  unfold Context.fix roundTo Context.precision at hfix
  unfold Optimal
  rw [buy_optimal_iff h0 hx hexact, sell_optimal_iff h0 hx hexact, nearest_optimal_iff h0 hx hexact,
    ← abs_round_round_le_iff hk]
  refine ⟨(le_ceil_round_iff hk).mp ?_, (floor_round_le_iff hk).mp ?_, ?_⟩
  · rw [hfix]
    exact Int.le_ceil _
  · rw [hfix]
    exact Int.floor_le _
  · rw [hfix]
    exact abs_roundHalfEven_sub_le_half _

end Tqt
