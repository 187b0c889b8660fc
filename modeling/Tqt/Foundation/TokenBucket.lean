import Mathlib.Algebra.Order.Field.Basic
import Mathlib.Tactic.Linarith

/-! Lazily refilled token buckets.

A bucket holds its tokens as of `updated`; whoever looks at it refills it first. Its
`level` is an upper bound on what it can give: the tokens, and what has been earned
since `updated` at a rate of at most `ρ`. Time raises the level at `ρ`, taking tokens
lowers it by what is taken, and nothing else raises it. -/
namespace Tqt

structure TokenBucket (K : Type*) where
  tokens : K
  updated : K

namespace TokenBucket
variable {K : Type*} [Field K] [LinearOrder K]

/-- The bucket brought up to `now`. -/
def refill (capacity rate now : K) (b : TokenBucket K) : TokenBucket K where
  tokens := min capacity (b.tokens + max (now - b.updated) 0 * rate)
  updated := now

def take (n : K) (b : TokenBucket K) : TokenBucket K := { b with tokens := b.tokens - n }

def clamp (limit : K) (b : TokenBucket K) : TokenBucket K :=
  { b with tokens := min b.tokens limit }

/-- Emptied; refilling starts at `updated`. -/
def drain (updated : K) : TokenBucket K where
  tokens := 0
  updated := updated

/-- A refill that leaves fewer tokens than fit has kept all that was earned. -/
theorem refill_tokens_of_lt {capacity rate now : K} {b : TokenBucket K}
    (h : (b.refill capacity rate now).tokens < capacity) :
    (b.refill capacity rate now).tokens = b.tokens + max (now - b.updated) 0 * rate := by
  apply min_eq_right
  rcases min_lt_iff.mp h with hlt | hlt
  · exact absurd hlt (lt_irrefl capacity)
  · exact hlt.le

def level (ρ now : K) (b : TokenBucket K) : K := max b.tokens 0 + ρ * max (now - b.updated) 0

variable [IsStrictOrderedRing K] {ρ now : K}

theorem level_nonneg (hρ : 0 ≤ ρ) (b : TokenBucket K) : 0 ≤ b.level ρ now :=
  add_nonneg (le_max_right _ _) (mul_nonneg hρ (le_max_right _ _))

/-- Time. -/
theorem level_later (hρ : 0 ≤ ρ) {later : K} (h : now ≤ later) (b : TokenBucket K) :
    b.level ρ later ≤ b.level ρ now + ρ * (later - now) := by
  have hmax : max (later - b.updated) 0 ≤ max (now - b.updated) 0 + (later - now) := by
    refine max_le ?_ ?_
    · linarith [le_max_left (now - b.updated) 0]
    · linarith [le_max_right (now - b.updated) 0]
  have hmul := mul_le_mul_of_nonneg_left hmax hρ
  rw [mul_add] at hmul
  unfold level
  linarith

theorem level_refill {rate : K} (hρ : 0 ≤ ρ) (hrate : rate ≤ ρ) (capacity : K)
    (b : TokenBucket K) : (b.refill capacity rate now).level ρ now ≤ b.level ρ now := by
  have hearned : max (now - b.updated) 0 * rate ≤ ρ * max (now - b.updated) 0 := by
    rw [mul_comm]
    exact mul_le_mul_of_nonneg_right hrate (le_max_right _ _)
  show max (min capacity (b.tokens + max (now - b.updated) 0 * rate)) 0 + ρ * max (now - now) 0 ≤ _
  rw [sub_self, max_self, mul_zero, add_zero]
  refine max_le ((min_le_right _ _).trans ?_) (level_nonneg hρ b)
  exact add_le_add (le_max_left _ _) hearned

theorem level_take {n : K} {b : TokenBucket K} (h : n ≤ b.tokens) :
    (b.take n).level ρ now + n ≤ b.level ρ now := by
  have htokens : max (b.tokens - n) 0 + n ≤ max b.tokens 0 := by
    rw [max_eq_left (sub_nonneg.mpr h), sub_add_cancel]
    exact le_max_left _ _
  show max (b.tokens - n) 0 + ρ * max (now - b.updated) 0 + n ≤ _
  unfold level
  linarith

theorem level_clamp (limit : K) (b : TokenBucket K) :
    (b.clamp limit).level ρ now ≤ b.level ρ now :=
  add_le_add (max_le_max (min_le_left _ _) le_rfl) le_rfl

theorem level_drain (b : TokenBucket K) : (drain b.updated).level ρ now ≤ b.level ρ now :=
  add_le_add ((max_self (0 : K)).trans_le (le_max_right _ _)) le_rfl

/-- Refilling that starts later gives nothing until then. -/
theorem level_drain_later {updated : K} (h : now ≤ updated) :
    (drain updated).level ρ now = 0 := by
  show max 0 0 + ρ * max (now - updated) 0 = 0
  rw [max_self, max_eq_right (sub_nonpos.mpr h), mul_zero, add_zero]

end TokenBucket
end Tqt
