import Mathlib.Order.Bounds.Basic
import Tqt.Foundation.Whole

/-! Grids whose step depends on the band a value lies in.

Where the bound of each band lies on the grid of the band below and of the band above it
(`Aligned`), no step of a band leads across its bounds: between a value and any point of the
whole grid lies a multiple of the value's own step (`Band.exists_up`, `Band.exists_down`).
So rounding with that step alone gives the best point of the whole grid (`Band.isLeast_ceil`,
`Band.isGreatest_floor`, `Band.nearest`). -/
namespace Tqt

section
variable {α : Type*} [Field α] [LinearOrder α]

/-- The step at a value: that of the first band whose upper bound it is below, else `top`. -/
def stepAt (bands : List (α × α)) (top y : α) : α :=
  match bands.find? fun band => y < band.1 with
  | some band => band.2
  | none => top

def OnGrid (bands : List (α × α)) (top y : α) : Prop := Whole (y / stepAt bands top y)

/-- Bands one after the other from `lo` on, each bound on the grids of both its bands. -/
def Aligned : α → List (α × α) → α → Prop
  | lo, [], top => 0 < top ∧ Whole (lo / top)
  | lo, (hi, step) :: rest, top =>
    0 < step ∧ lo < hi ∧ Whole (lo / step) ∧ Whole (hi / step) ∧ Aligned hi rest top

instance instDecidableAligned [DecidablePred (Whole : α → Prop)] :
    (lo : α) → (bands : List (α × α)) → (top : α) → Decidable (Aligned lo bands top)
  | lo, [], top => inferInstanceAs (Decidable (0 < top ∧ Whole (lo / top)))
  | lo, (hi, step) :: rest, top =>
    have := instDecidableAligned hi rest top
    inferInstanceAs (Decidable
      (0 < step ∧ lo < hi ∧ Whole (lo / step) ∧ Whole (hi / step) ∧ Aligned hi rest top))

/-- The band of a value reaches from `lo` to `hi`, or is the open one. -/
structure Band (bands : List (α × α)) (top x lo : α) (hi : Option α) : Prop where
  pos : 0 < stepAt bands top x
  lower : lo ≤ x
  lowerWhole : Whole (lo / stepAt bands top x)
  same : ∀ y, lo ≤ y → (∀ u, hi = some u → y < u) → stepAt bands top y = stepAt bands top x
  upper : ∀ u, hi = some u → x < u ∧ Whole (u / stepAt bands top x) ∧ OnGrid bands top u

variable {bands rest : List (α × α)} {top x y lo hi step : α} {upper : Option α}

omit [Field α] in
theorem stepAt_cons_of_lt (h : y < hi) : stepAt ((hi, step) :: rest) top y = step := by
  simp [stepAt, h]

omit [Field α] in
theorem stepAt_cons_of_le (h : hi ≤ y) : stepAt ((hi, step) :: rest) top y = stepAt rest top y := by
  simp [stepAt, not_lt.mpr h]

omit [Field α] in
theorem stepAt_mem (bands : List (α × α)) (top y : α) :
    stepAt bands top y = top ∨ ∃ band ∈ bands, stepAt bands top y = band.2 ∧ y < band.1 := by
  unfold stepAt
  split
  · next band hfind =>
    exact .inr ⟨band, List.mem_of_find?_eq_some hfind, rfl, by simpa using List.find?_some hfind⟩
  · exact .inl rfl

theorem whole_div_iff {s : α} (hs : 0 < s) : Whole (y / s) ↔ ∃ k : ℤ, y = k * s := by
  unfold Whole
  simp only [div_eq_iff hs.ne']

theorem Aligned.onGrid (h : Aligned lo bands top) : OnGrid bands top lo := by
  cases bands with
  | nil => exact h.2
  | cons band rest =>
    obtain ⟨-, hlt, hwhole, -⟩ := h
    unfold OnGrid
    rwa [stepAt_cons_of_lt hlt]

theorem Aligned.band (h : Aligned lo bands top) (hx : lo ≤ x) :
    ∃ l u, lo ≤ l ∧ Band bands top x l u := by
  induction bands generalizing lo with
  | nil => exact ⟨lo, none, le_rfl, h.1, hx, h.2, fun _ _ _ => rfl, nofun⟩
  | cons band rest ih =>
    obtain ⟨hi, step⟩ := band
    obtain ⟨hpos, hlt, hlower, hupper, hrest⟩ := h
    rcases lt_or_ge x hi with hxhi | hxhi
    · have hstep : stepAt ((hi, step) :: rest) top x = step := stepAt_cons_of_lt hxhi
      refine ⟨lo, some hi, le_rfl, ?_, hx, ?_, fun y _ hy => ?_, ?_⟩
      · rwa [hstep]
      · rwa [hstep]
      · rw [hstep, stepAt_cons_of_lt (hy hi rfl)]
      · rintro _ ⟨⟩
        refine ⟨hxhi, by rwa [hstep], ?_⟩
        have hgrid := hrest.onGrid
        unfold OnGrid at hgrid ⊢
        rwa [stepAt_cons_of_le le_rfl]
    · obtain ⟨l, u, hl, hband⟩ := ih hrest hxhi
      have hstep : stepAt ((hi, step) :: rest) top x = stepAt rest top x := stepAt_cons_of_le hxhi
      refine ⟨l, u, hlt.le.trans hl, ?_, hband.lower, ?_, fun y hy hyu => ?_, fun v hv => ?_⟩
      · rw [hstep]
        exact hband.pos
      · rw [hstep]
        exact hband.lowerWhole
      · rw [hstep, stepAt_cons_of_le (hl.trans hy)]
        exact hband.same y hy hyu
      · obtain ⟨hxv, hwhole, hgrid⟩ := hband.upper v hv
        refine ⟨hxv, by rwa [hstep], ?_⟩
        unfold OnGrid at hgrid ⊢
        rwa [stepAt_cons_of_le (hxhi.trans hxv.le)]

section
variable (b : Band bands top x lo upper)
include b

/-- From a value up to a point of the grid there is a multiple of the value's step. -/
theorem Band.exists_up (hy : OnGrid bands top y) (hxy : x ≤ y) :
    ∃ k : ℤ, x ≤ k * stepAt bands top x ∧ k * stepAt bands top x ≤ y := by
  by_cases hbelow : ∀ u, upper = some u → y < u
  · unfold OnGrid at hy
    rw [b.same y (b.lower.trans hxy) hbelow, whole_div_iff b.pos] at hy
    obtain ⟨k, hk⟩ := hy
    exact ⟨k, hxy.trans_eq hk, hk.ge⟩
  · push Not at hbelow
    obtain ⟨u, hu, huy⟩ := hbelow
    obtain ⟨hxu, hwhole, -⟩ := b.upper u hu
    obtain ⟨k, hk⟩ := (whole_div_iff b.pos).mp hwhole
    exact ⟨k, hxu.le.trans_eq hk, hk.ge.trans huy⟩

theorem Band.exists_down (hy : OnGrid bands top y) (hyx : y ≤ x) :
    ∃ k : ℤ, k * stepAt bands top x ≤ x ∧ y ≤ k * stepAt bands top x := by
  rcases le_or_gt lo y with hlo | hlo
  · unfold OnGrid at hy
    rw [b.same y hlo fun u hu => hyx.trans_lt (b.upper u hu).1, whole_div_iff b.pos] at hy
    obtain ⟨k, hk⟩ := hy
    exact ⟨k, hk.ge.trans hyx, hk.le⟩
  · obtain ⟨k, hk⟩ := (whole_div_iff b.pos).mp b.lowerWhole
    exact ⟨k, hk.ge.trans b.lower, hlo.le.trans_eq hk⟩

end
end

section
variable {α : Type*} [Field α] [LinearOrder α] [IsStrictOrderedRing α] [FloorRing α]
  {bands : List (α × α)} {top x y lo : α} {hi : Option α}

namespace Band
variable (b : Band bands top x lo hi)
include b

/-- The multiples of the step next to a value lie on the grid. -/
theorem onGrid_mul {n : ℤ} (hfloor : ⌊x / stepAt bands top x⌋ ≤ n) (hceil : n ≤ ⌈x / stepAt bands top x⌉) :
    OnGrid bands top (n * stepAt bands top x) := by
  have hlower : lo ≤ n * stepAt bands top x := by
    obtain ⟨k, hk⟩ := b.lowerWhole
    have hkn : k ≤ n := by
      refine (Int.le_floor.mpr ?_).trans hfloor
      rw [← hk]
      exact div_le_div_of_nonneg_right b.lower b.pos.le
    rw [← div_le_iff₀ b.pos, hk]
    exact_mod_cast hkn
  have hstep (hbelow : ∀ u, hi = some u → n * stepAt bands top x < u) :
      OnGrid bands top (n * stepAt bands top x) := by
    unfold OnGrid
    rw [b.same _ hlower hbelow, mul_div_cancel_right₀ _ b.pos.ne']
    exact ⟨n, rfl⟩
  cases hi with
  | none => exact hstep nofun
  | some u =>
    obtain ⟨hxu, ⟨k, hk⟩, hgrid⟩ := b.upper u rfl
    have hnk : n ≤ k := by
      refine hceil.trans (Int.ceil_le.mpr ?_)
      rw [← hk]
      exact div_le_div_of_nonneg_right hxu.le b.pos.le
    have hle : n * stepAt bands top x ≤ u := by
      rw [← le_div_iff₀ b.pos, hk]
      exact_mod_cast hnk
    rcases hle.eq_or_lt with heq | hlt
    · rwa [heq]
    · refine hstep ?_
      rintro _ ⟨⟩
      exact hlt

/-- Rounding up gives the least point of the grid that is not below. -/
theorem isLeast_ceil :
    IsLeast {y | x ≤ y ∧ OnGrid bands top y} (⌈x / stepAt bands top x⌉ * stepAt bands top x) := by
  refine ⟨⟨?_, b.onGrid_mul (Int.floor_le_ceil _) le_rfl⟩, ?_⟩
  · rw [← div_le_iff₀ b.pos]
    exact Int.le_ceil _
  · rintro y ⟨hxy, hy⟩
    obtain ⟨k, hxk, hky⟩ := b.exists_up hy hxy
    refine le_trans (mul_le_mul_of_nonneg_right ?_ b.pos.le) hky
    exact_mod_cast Int.ceil_le.mpr ((div_le_iff₀ b.pos).mpr hxk)

/-- Rounding down gives the greatest point of the grid that is not above. -/
theorem isGreatest_floor :
    IsGreatest {y | y ≤ x ∧ OnGrid bands top y} (⌊x / stepAt bands top x⌋ * stepAt bands top x) := by
  refine ⟨⟨?_, b.onGrid_mul le_rfl (Int.floor_le_ceil _)⟩, ?_⟩
  · rw [← le_div_iff₀ b.pos]
    exact Int.floor_le _
  · rintro y ⟨hyx, hy⟩
    obtain ⟨k, hkx, hyk⟩ := b.exists_down hy hyx
    refine hyk.trans (mul_le_mul_of_nonneg_right ?_ b.pos.le)
    exact_mod_cast Int.le_floor.mpr ((le_div_iff₀ b.pos).mpr hkx)

omit [FloorRing α] in
/-- The nearest multiple of the step is a nearest point of the grid. -/
theorem nearest {n : ℤ} (hn : ∀ k : ℤ, |n - x / stepAt bands top x| ≤ |k - x / stepAt bands top x|)
    (hy : OnGrid bands top y) : |n * stepAt bands top x - x| ≤ |y - x| := by
  have hscale (k : ℤ) : |(k : α) * stepAt bands top x - x| =
      |k - x / stepAt bands top x| * stepAt bands top x := by
    rw [← abs_of_pos b.pos, ← abs_mul, abs_of_pos b.pos, sub_mul, div_mul_cancel₀ x b.pos.ne']
  have hbest (k : ℤ) : |(n : α) * stepAt bands top x - x| ≤ |(k : α) * stepAt bands top x - x| := by
    rw [hscale, hscale]
    exact mul_le_mul_of_nonneg_right (hn k) b.pos.le
  rcases le_total x y with hxy | hyx
  · obtain ⟨k, hxk, hky⟩ := b.exists_up hy hxy
    refine (hbest k).trans ?_
    rw [abs_of_nonneg (sub_nonneg.mpr hxk), abs_of_nonneg (sub_nonneg.mpr hxy)]
    linarith
  · obtain ⟨k, hkx, hyk⟩ := b.exists_down hy hyx
    refine (hbest k).trans ?_
    rw [abs_of_nonpos (sub_nonpos.mpr hkx), abs_of_nonpos (sub_nonpos.mpr hyx)]
    linarith

end Band
end
end Tqt
