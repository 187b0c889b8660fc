import Tqt.Foundation.Bands
import Tqt.Foundation.Context
import Tqt.Tick

/-! Which tick a price is rounded to.

Every bound of the KRX tables is a multiple of the ticks on both its sides (`krx_aligned`),
so the tick of the price's own band finds the best valid price and snapping once more moves
nothing. `Context.roundToTick` is the function in the arithmetic of the source. Where the
quotient of price and tick fits the 28 digits of the context it is the exact `roundToTick`
(`roundToTick_eq`). -/
namespace Tqt

namespace Context

/-- The rounding of `quantize` that `side` asks for. -/
def snap : Option Side → Decimal → Decimal
  | some .BUY => roundUp
  | some .SELL => truncate
  | none => fun x => roundHalfEven x

/-- `ROUND_UP if side == "BUY" else ROUND_DOWN` -/
def resnap : Option Side → Decimal → Decimal
  | some .BUY => roundUp
  | _ => truncate

/-- `round_to_tick`; `none` is an `InvalidOperation`. -/
def roundToTick (price : Decimal) (country : Country) (isEtf : Bool) (side : Option Side) :
    Option Decimal :=
  match country with
  | .US => (quantize (fun x => roundHalfEven x) (price * 100)).map (· / 100)
  | .KR => do
    let t := tickSize price isEtf
    let n ← quantize (snap side) (fix (price / t))
    let rounded := fix (n * t)
    let t2 := tickSize rounded isEtf
    if t2 = t then pure rounded
    else
      let n2 ← quantize (resnap side) (fix (rounded / t2))
      pure (fix (n2 * t2))

def isValidTick (price : Decimal) (country : Country) (isEtf : Bool) : Option Bool :=
  match country with
  | .US => (quantize (fun x => roundHalfEven x) (price * 100)).map fun n => price = n / 100
  | .KR => (remainder price (tickSize price isEtf)).map fun r => r = 0

end Context

/-- `is_valid_tick` accepts a KRX price. -/
def AcceptedTick (isEtf : Bool) (price : Decimal) : Prop :=
  Context.isValidTick price .KR isEtf = some true

/-! ### The tables -/

def krxTicks (isEtf : Bool) : List (Decimal × Decimal) := if isEtf then krxEtfTicks else krxStockTicks

def topTick (isEtf : Bool) : Decimal := if isEtf then 5 else 1000

theorem tickSize_eq (price : Decimal) (isEtf : Bool) :
    tickSize price isEtf = stepAt (krxTicks isEtf) (topTick isEtf) price := by
  unfold tickSize stepAt krxTicks
  cases (if isEtf then krxEtfTicks else krxStockTicks).find? fun band => price < band.1 with
  | none => rfl
  | some band => rfl

theorem krx_aligned (isEtf : Bool) : Aligned 0 (krxTicks isEtf) (topTick isEtf) := by
  cases isEtf <;> decide +kernel

theorem tickSize_cases (price : Decimal) (isEtf : Bool) :
    Whole (tickSize price isEtf) ∧
      (tickSize price isEtf = 1 ∧ price < 2000 ∨ 5 ≤ tickSize price isEtf) := by
  have htop : Whole (topTick isEtf) ∧ 5 ≤ topTick isEtf := by
    cases isEtf <;> decide +kernel
  have htable : ∀ band ∈ krxTicks isEtf,
      Whole band.2 ∧ (band.2 = 1 ∧ band.1 = 2000 ∨ 5 ≤ band.2) := by
    cases isEtf <;> decide +kernel
  rw [tickSize_eq]
  rcases stepAt_mem (krxTicks isEtf) (topTick isEtf) price with heq | ⟨band, hband, heq, hprice⟩
  · rw [heq]
    exact ⟨htop.1, .inr htop.2⟩
  · obtain ⟨hwhole, hlow | hhigh⟩ := htable band hband
    · rw [heq]
      exact ⟨hwhole, .inl ⟨hlow.1, hlow.2 ▸ hprice⟩⟩
    · rw [heq]
      exact ⟨hwhole, .inr hhigh⟩

theorem tickSize_pos (price : Decimal) (isEtf : Bool) : 0 < tickSize price isEtf := by
  obtain ⟨-, ⟨hone, -⟩ | hfive⟩ := tickSize_cases price isEtf
  · rw [hone]
    exact one_pos
  · linarith

/-- The prices that are a multiple of their tick. -/
def OnTick (isEtf : Bool) (price : Decimal) : Prop := OnGrid (krxTicks isEtf) (topTick isEtf) price

theorem onTick_iff {isEtf : Bool} {price : Decimal} :
    OnTick isEtf price ↔ Whole (price / tickSize price isEtf) := by
  rw [OnTick, OnGrid, tickSize_eq]

/-! ### Optimal, with the price's own tick -/

section
variable {isEtf : Bool} {price : Decimal}

theorem band_of (isEtf : Bool) (h0 : 0 ≤ price) :
    ∃ lo hi, Band (krxTicks isEtf) (topTick isEtf) price lo hi := by
  obtain ⟨lo, hi, -, b⟩ := (krx_aligned isEtf).band h0
  exact ⟨lo, hi, b⟩

theorem onTick_mul (h0 : 0 ≤ price) {n : ℤ} (hfloor : ⌊price / tickSize price isEtf⌋ ≤ n)
    (hceil : n ≤ ⌈price / tickSize price isEtf⌉) : OnTick isEtf (n * tickSize price isEtf) := by
  obtain ⟨lo, hi, b⟩ := band_of isEtf h0
  rw [tickSize_eq] at hfloor hceil ⊢
  exact b.onGrid_mul hfloor hceil

theorem isLeast_ceil (h0 : 0 ≤ price) : IsLeast {y | price ≤ y ∧ OnTick isEtf y}
    (⌈price / tickSize price isEtf⌉ * tickSize price isEtf) := by
  obtain ⟨lo, hi, b⟩ := band_of isEtf h0
  rw [tickSize_eq]
  exact b.isLeast_ceil

theorem isGreatest_floor (h0 : 0 ≤ price) : IsGreatest {y | y ≤ price ∧ OnTick isEtf y}
    (⌊price / tickSize price isEtf⌋ * tickSize price isEtf) := by
  obtain ⟨lo, hi, b⟩ := band_of isEtf h0
  rw [tickSize_eq]
  exact b.isGreatest_floor

theorem nearest_tick (h0 : 0 ≤ price) {n : ℤ}
    (hn : ∀ k : ℤ, |n - price / tickSize price isEtf| ≤ |k - price / tickSize price isEtf|)
    {y : Decimal} (hy : OnTick isEtf y) : |n * tickSize price isEtf - price| ≤ |y - price| := by
  obtain ⟨lo, hi, b⟩ := band_of isEtf h0
  rw [tickSize_eq] at hn ⊢
  exact b.nearest hn hy

end

/-! ### Within the digits of the context -/

section
variable {isEtf : Bool} {price : Decimal}

theorem div_tick_le (hbig : price ≤ 10 ^ 28) : price / tickSize price isEtf ≤ 2 * 10 ^ 27 := by
  rw [div_le_iff₀ (tickSize_pos price isEtf)]
  obtain ⟨-, ⟨hone, hlow⟩ | hfive⟩ := tickSize_cases price isEtf
  · rw [hone]
    linarith
  · linarith

theorem acceptedTick_iff : AcceptedTick isEtf price ↔
    OnTick isEtf price ∧ |truncate (price / tickSize price isEtf)| < 10 ^ Context.precision := by
  have hpos := tickSize_pos price isEtf
  have hzero : Context.fix (price - truncate (price / tickSize price isEtf) * tickSize price isEtf) = 0 ↔
      OnTick isEtf price := by
    rw [Context.fix_eq_zero, onTick_iff, sub_eq_zero, ← div_eq_iff hpos.ne']
    constructor
    · intro h
      rw [h]
      exact truncate_whole _
    · exact fun h => h.truncate_eq.symm
  unfold AcceptedTick Context.isValidTick Context.remainder Context.quantize
  dsimp only
  split
  · next hdigits => simp [hzero, hdigits]
  · next hdigits => simp [hdigits]

theorem acceptedTick_of_onTick (hgrid : OnTick isEtf price) (h0 : 0 ≤ price) (hbig : price ≤ 10 ^ 28) :
    AcceptedTick isEtf price := by
  refine acceptedTick_iff.mpr ⟨hgrid, ?_⟩
  rw [(onTick_iff.mp hgrid).truncate_eq, abs_of_nonneg (div_nonneg h0 (tickSize_pos price isEtf).le)]
  refine (div_tick_le hbig).trans_lt ?_
  norm_num [Context.precision]

theorem quantize_intCast {rounding : Decimal → Decimal} {x : Decimal} {n : ℤ}
    (hn : rounding x = n) (h0 : 0 ≤ n) (hle : (n : Decimal) ≤ 2 * 10 ^ 27) :
    Context.quantize rounding x = some (n : Decimal) := by
  rw [Context.quantize, hn, if_pos]
  rw [abs_of_nonneg (by exact_mod_cast h0)]
  refine hle.trans_lt ?_
  norm_num [Context.precision]

theorem fix_mul_tick {n : ℤ} (h0 : 0 ≤ n * tickSize price isEtf)
    (hle : n * tickSize price isEtf ≤ 10 ^ 28) :
    Context.fix (n * tickSize price isEtf) = n * tickSize price isEtf := by
  obtain ⟨k, hk⟩ := (tickSize_cases price isEtf).1
  rw [hk] at h0 hle ⊢
  have hcast : (n : Decimal) * k = ((n * k : ℤ) : Decimal) := by push_cast; rfl
  rw [hcast] at h0 hle ⊢
  apply Context.fix_intCast
  rw [abs_of_nonneg (by exact_mod_cast h0)]
  exact_mod_cast hle

theorem resnap_intCast (side : Option Side) (n : ℤ) : Context.resnap side n = n := by
  have hup : roundUp (n : Decimal) = n := by simp [roundUp]
  have hdown : truncate (n : Decimal) = n := Whole.truncate_eq ⟨n, rfl⟩
  rcases side with _ | side
  · exact hdown
  · cases side
    · exact hup
    · exact hdown

/-- A multiple of the tick next to the quotient is within the digits. -/
theorem mul_tick_le (h0 : 0 ≤ price) (hbig : price ≤ 10 ^ 28) {n : ℤ}
    (hceil : n ≤ ⌈price / tickSize price isEtf⌉) :
    (n : Decimal) ≤ 2 * 10 ^ 27 ∧ n * tickSize price isEtf ≤ 10 ^ 28 := by
  have htop : OnTick isEtf (10 ^ 28) := by
    rw [onTick_iff]
    cases isEtf <;> decide +kernel
  have hceil' : ⌈price / tickSize price isEtf⌉ ≤ 2 * 10 ^ 27 := by
    rw [Int.ceil_le]
    exact_mod_cast div_tick_le hbig
  have hcast : (n : Decimal) ≤ ⌈price / tickSize price isEtf⌉ := by exact_mod_cast hceil
  constructor
  · exact_mod_cast hceil.trans hceil'
  · exact (mul_le_mul_of_nonneg_right hcast (tickSize_pos price isEtf).le).trans
      ((isLeast_ceil h0).2 ⟨hbig, htop⟩)

/-- A price on the grid is a multiple of its own tick. -/
theorem exists_mul_tick (hgrid : OnTick isEtf price) (h0 : 0 ≤ price) :
    ∃ n : ℤ, 0 ≤ n ∧ price = n * tickSize price isEtf := by
  obtain ⟨n, hn⟩ := onTick_iff.mp hgrid
  have hpos := tickSize_pos price isEtf
  refine ⟨n, ?_, (div_eq_iff hpos.ne').mp hn⟩
  have hdiv := div_nonneg h0 hpos.le
  rw [hn] at hdiv
  exact_mod_cast hdiv

/-- Snapping a price of the grid once more moves nothing. -/
theorem resnap_onTick (hgrid : OnTick isEtf price) (h0 : 0 ≤ price) (hbig : price ≤ 10 ^ 28)
    (side : Option Side) : ∃ n : ℤ, price = n * tickSize price isEtf ∧
      Context.quantize (Context.resnap side) (Context.fix (price / tickSize price isEtf)) =
        some (n : Decimal) := by
  obtain ⟨n, hn0, hn⟩ := exists_mul_tick hgrid h0
  have hdiv : price / tickSize price isEtf = n := (div_eq_iff (tickSize_pos price isEtf).ne').mpr hn
  have hle : (n : Decimal) ≤ 2 * 10 ^ 27 := hdiv ▸ div_tick_le hbig
  have hfix : Context.fix (n : Decimal) = n := by
    apply Context.fix_intCast
    rw [abs_of_nonneg hn0]
    have hcast : n ≤ 2 * 10 ^ 27 := by exact_mod_cast hle
    refine hcast.trans ?_
    norm_num [Context.precision]
  refine ⟨n, hn, ?_⟩
  rw [hdiv, hfix]
  exact quantize_intCast (resnap_intCast side n) hn0 hle

/-- What is returned, when the multiple that is snapped to is next to the quotient. -/
theorem roundToTick_of (h0 : 0 ≤ price) (hbig : price ≤ 10 ^ 28)
    {side : Option Side} {n : ℤ} (hn : Context.snap side (Context.fix (price / tickSize price isEtf)) = n)
    (hfloor : ⌊price / tickSize price isEtf⌋ ≤ n) (hceil : n ≤ ⌈price / tickSize price isEtf⌉) :
    Context.roundToTick price .KR isEtf side = some (n * tickSize price isEtf) ∧
      AcceptedTick isEtf (n * tickSize price isEtf) := by
  have hpos := tickSize_pos price isEtf
  have hgrid := onTick_mul h0 hfloor hceil
  have hn0 : 0 ≤ n := (Int.floor_nonneg.mpr (div_nonneg h0 hpos.le)).trans hfloor
  have hround0 : 0 ≤ n * tickSize price isEtf := mul_nonneg (by exact_mod_cast hn0) hpos.le
  obtain ⟨hnle, hround⟩ := mul_tick_le h0 hbig hceil
  refine ⟨?_, acceptedTick_of_onTick hgrid hround0 hround⟩
  unfold Context.roundToTick
  dsimp only
  rw [quantize_intCast hn hn0 hnle]
  dsimp only [Option.bind_eq_bind, Option.bind_some]
  rw [fix_mul_tick hround0 hround]
  split
  · rfl
  · obtain ⟨m, hm, hquantize⟩ := resnap_onTick hgrid hround0 hround side
    rw [hquantize]
    dsimp only [Option.bind_some]
    rw [fix_mul_tick (hm ▸ hround0) (hm ▸ hround), ← hm]
    rfl

/-- What `quantize` gives is next to the quotient. -/
theorem snap_eq (side : Option Side) {x : Decimal} (h0 : 0 ≤ x) :
    ∃ n : ℤ, Context.snap side x = n ∧ ⌊x⌋ ≤ n ∧ n ≤ ⌈x⌉ := by
  rcases side with _ | side
  · have hfloor := roundHalfEven_mono (Int.floor_le x)
    have hceil := roundHalfEven_mono (Int.le_ceil x)
    rw [roundHalfEven_intCast] at hfloor hceil
    exact ⟨roundHalfEven x, rfl, hfloor, hceil⟩
  · cases side
    · exact ⟨⌈x⌉, if_pos h0, Int.floor_le_ceil x, le_rfl⟩
    · exact ⟨⌊x⌋, if_pos h0, le_rfl, Int.floor_le_ceil x⟩

/-- Without the digits of the context it is the same multiple. -/
theorem roundToTick_mul (h0 : 0 ≤ price) {side : Option Side} {n : ℤ}
    (hn : Context.snap side (price / tickSize price isEtf) = n)
    (hfloor : ⌊price / tickSize price isEtf⌋ ≤ n) (hceil : n ≤ ⌈price / tickSize price isEtf⌉) :
    roundToTick price .KR isEtf side = n * tickSize price isEtf := by
  obtain ⟨m, hm⟩ := onTick_iff.mp (onTick_mul h0 hfloor hceil)
  have hpos := tickSize_pos (n * tickSize price isEtf) isEtf
  have hresnap := resnap_intCast side m
  have hround : roundToTick price .KR isEtf side =
      (let rounded := Context.snap side (price / tickSize price isEtf) * tickSize price isEtf
       if tickSize rounded isEtf = tickSize price isEtf then rounded
       else Context.resnap side (rounded / tickSize rounded isEtf) * tickSize rounded isEtf) := by
    rcases side with _ | side
    · rfl
    · cases side <;> rfl
  rw [hround, hn]
  dsimp only
  split
  · rfl
  · rw [hm, hresnap, ← hm, div_mul_cancel₀ _ hpos.ne']

/-- Where the quotient fits the context, its digits change nothing. -/
theorem roundToTick_eq (h0 : 0 ≤ price) (hbig : price ≤ 10 ^ 28)
    (hdigits : Rounding.Digits Context.precision (price / tickSize price isEtf)) (side : Option Side) :
    Context.roundToTick price .KR isEtf side = some (roundToTick price .KR isEtf side) := by
  obtain ⟨n, hn, hfloor, hceil⟩ := snap_eq side (div_nonneg h0 (tickSize_pos price isEtf).le)
  rw [roundToTick_mul h0 hn hfloor hceil]
  exact (roundToTick_of h0 hbig ((congrArg _ (Context.fix_of_digits hdigits)).trans hn) hfloor hceil).1

end

end Tqt
