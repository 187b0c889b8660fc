import Tqt.Toss.RateLimit
import Mathlib.Algebra.Order.Archimedean.Basic
import Mathlib.Data.Rat.Floor

/-! A waiting call of `acquire` ends.

The loop has no counter. From its second iteration on, at least the shortest sleep has passed
since the bucket was brought up to date, so every iteration that does not end the call earns
`leastGain` or more, whatever the limit is by then (`tryAcquire_gains`): the bucket holds as
many tokens as are asked for, and the rate has a floor. So what is missing is used up
(`acquireFrom_ends`). The loop is the call's own steps in the system of threads
(`acquireFrom_run`). -/
namespace Tqt

/-- What a call meets while nobody else calls: the clock when the bucket is looked up and at the
first iteration, the wall clock at each iteration, and by how much each sleep is overrun. -/
structure Waits where
  made : ℚ
  start : ℚ
  wall : ℕ → ℚ
  late : ℕ → ℚ
  made_le : made ≤ start
  late_nonneg : ∀ k, 0 ≤ late k

/-- The shortest sleep. -/
def leastSleep : ℚ := 5 / 1000

/-- What the lowest rate earns in the shortest sleep. -/
def leastGain : ℚ := leastSleep * (5 / 100)

theorem leastGain_pos : 0 < leastGain := by norm_num [leastGain, leastSleep]

namespace Bucket
variable (safety : ℚ) (env : Waits) (n : ℚ)

/-- The loop of `acquire` from its `k`-th iteration on: what it has waited in the end, and what
the bucket is then. -/
def acquireFrom : ℕ → ℕ → ℚ → ℚ → Bucket → Option (ℚ × Bucket)
  | 0, _, _, _, _ => none
  | fuel + 1, k, now, waited, b =>
    match b.tryAcquire safety (env.wall k) now n with
    | (b', none) => some (waited, b')
    | (b', some sleep) => acquireFrom fuel (k + 1) (now + sleep + env.late k) (waited + sleep) b'

section
variable {safety env n} {wall now : ℚ} {b b' : Bucket}

theorem acquireFrom_succ (fuel k : ℕ) (waited : ℚ) :
    b.acquireFrom safety env n (fuel + 1) k now waited =
      match b.tryAcquire safety (env.wall k) now n with
      | (b', none) => some (waited, b')
      | (b', some sleep) =>
        b'.acquireFrom safety env n fuel (k + 1) (now + sleep + env.late k) (waited + sleep) :=
  (rfl)

theorem acquireFrom_granted {k : ℕ} (h : b.tryAcquire safety (env.wall k) now n = (b', none))
    (fuel : ℕ) (waited : ℚ) :
    b.acquireFrom safety env n (fuel + 1) k now waited = some (waited, b') := by
  rw [acquireFrom_succ, h]

theorem acquireFrom_sleeps {k : ℕ} {sleep : ℚ}
    (h : b.tryAcquire safety (env.wall k) now n = (b', some sleep)) (fuel : ℕ) (waited : ℚ) :
    b.acquireFrom safety env n (fuel + 1) k now waited =
      b'.acquireFrom safety env n fuel (k + 1) (now + sleep + env.late k) (waited + sleep) := by
  rw [acquireFrom_succ, h]

/-- An iteration that goes to sleep has looked at the clock, and sleeps long enough. -/
theorem tryAcquire_sleeps {sleep : ℚ} (h : b.tryAcquire safety wall now n = (b', some sleep)) :
    b' = b.brought safety wall now n ∧ b'.tokens < n ∧ b'.updated = now ∧ leastSleep ≤ sleep := by
  unfold tryAcquire at h
  simp only at h
  split at h
  · cases h
  · next hlt =>
    cases h
    exact ⟨rfl, not_le.mp hlt, rfl, le_max_right _ _⟩

/-- **Progress**: an iteration a sleep later either has the tokens or has earned some. -/
theorem tryAcquire_gains {sleep : ℚ} (h : b.tryAcquire safety wall now n = (b', some sleep))
    (hslept : b.updated + leastSleep ≤ now) : b.tokens + leastGain ≤ b'.tokens := by
  obtain ⟨rfl, hlt, -, -⟩ := tryAcquire_sleeps h
  have hroom : (b.brought safety wall now n).tokens < max (b.capacity wall) n :=
    lt_of_lt_of_le hlt (le_max_right _ _)
  have helapsed : leastSleep ≤ max (now - b.updated) 0 :=
    le_trans (by linarith) (le_max_left _ _)
  have hrate : 5 / 100 ≤ b.rate safety wall := le_max_right _ _
  have hearned : leastGain ≤ max (now - b.updated) 0 * b.rate safety wall :=
    mul_le_mul helapsed hrate (by norm_num) (le_trans (by norm_num [leastSleep]) helapsed)
  have htokens : (b.brought safety wall now n).tokens =
      b.tokens + max (now - b.updated) 0 * b.rate safety wall :=
    TokenBucket.refill_tokens_of_lt hroom
  rw [htokens]
  linarith

/-- After a sleep, as many iterations as it takes to earn what is missing, and one more. -/
theorem acquireFrom_slept (fuel k : ℕ) (waited : ℚ) (hslept : b.updated + leastSleep ≤ now)
    (henough : n ≤ b.tokens + leastGain * fuel) :
    ∃ result, b.acquireFrom safety env n (fuel + 1) k now waited = some result := by
  induction fuel generalizing k now waited b with
  | zero =>
    cases htry : b.tryAcquire safety (env.wall k) now n with
    | mk b' outcome =>
      cases outcome with
      | none => exact ⟨_, acquireFrom_granted htry 0 waited⟩
      | some sleep =>
        have hgain := tryAcquire_gains htry hslept
        have hlt := (tryAcquire_sleeps htry).2.1
        have hpos := leastGain_pos
        rw [Nat.cast_zero, mul_zero, add_zero] at henough
        exact absurd henough (not_le.mpr (by linarith))
  | succ fuel ih =>
    cases htry : b.tryAcquire safety (env.wall k) now n with
    | mk b' outcome =>
      cases outcome with
      | none => exact ⟨_, acquireFrom_granted htry (fuel + 1) waited⟩
      | some sleep =>
        have hgain := tryAcquire_gains htry hslept
        obtain ⟨-, -, hupdated, hsleep⟩ := tryAcquire_sleeps htry
        have hlate := env.late_nonneg k
        rw [acquireFrom_sleeps htry]
        apply ih
        · rw [hupdated]
          linarith
        · rw [Nat.cast_succ] at henough
          linarith

/-- **The loop ends**, from any bucket. -/
theorem acquireFrom_ends (env : Waits) (b : Bucket) (safety n now waited : ℚ) :
    ∃ fuel result, b.acquireFrom safety env n fuel 0 now waited = some result := by
  cases htry : b.tryAcquire safety (env.wall 0) now n with
  | mk b' outcome =>
    cases outcome with
    | none => exact ⟨1, (waited, b'), acquireFrom_granted htry 0 waited⟩
    | some sleep =>
      obtain ⟨-, -, hupdated, hsleep⟩ := tryAcquire_sleeps htry
      have hlate := env.late_nonneg 0
      -- The first iteration may earn nothing; from then on the missing tokens are finitely many gains.
      obtain ⟨m, hm⟩ := exists_nat_gt ((n - b'.tokens) / leastGain)
      have henough : n ≤ b'.tokens + leastGain * m := by
        have := (div_lt_iff₀ leastGain_pos).mp hm
        linarith
      obtain ⟨result, hresult⟩ := acquireFrom_slept m 1 (waited + sleep)
        (show b'.updated + leastSleep ≤ now + sleep + env.late 0 by rw [hupdated]; linarith) henough
      refine ⟨m + 2, result, ?_⟩
      rw [acquireFrom_sleeps htry]
      exact hresult

end
end Bucket

namespace RateLimiter

/-! ### The call -/

/-- `acquire` while nobody else calls, for so many iterations at most: what it has waited, and
the limiter then. -/
def acquire (name : String) (n : ℚ) (env : Waits) (fuel : ℕ) (lim : RateLimiter) :
    Option (ℚ × RateLimiter) :=
  let lim := lim.register name env.made
  (lim.buckets.get? name).bind fun b =>
    (b.acquireFrom lim.safety env n fuel 0 env.start 0).map fun (waited, b') =>
      (waited, { lim.set name b' with waitedSeconds := lim.waitedSeconds + waited })

/-! ### As steps of the system -/

/-- `m` iterations from the `k`-th on that all go to sleep, the clock moving on after each. -/
def sleeps (name : String) (n : ℚ) (env : Waits) (k m : ℕ) : List Event :=
  (List.range' k m).flatMap fun i => [.wait name n (env.wall i), .tick]

/-- By how much the sleeps of these iterations are overrun together. -/
def overrun (env : Waits) (k m : ℕ) : ℚ := ((List.range' k m).map env.late).sum

theorem overrun_succ (env : Waits) (k m : ℕ) :
    overrun env k (m + 1) = env.late k + overrun env (k + 1) m := rfl

section
variable {front back : List Call} {c : Call} {s : State} {b b' : Bucket}

/-- **The loop is a run of the system**: the call's own iterations, the clock moving on between
them, end with its tokens taken, its wait on the books and nothing else touched. -/
theorem acquireFrom_run (env : Waits) (fuel k : ℕ) {result : ℚ × Bucket}
    (hcalls : s.calls = front ++ c :: back) (hb : s.limiter.buckets.get? c.group = some b)
    (hloop : b.acquireFrom s.limiter.safety env c.tokens fuel k s.now c.waited = some result) :
    ∃ m t,
      b.acquireFrom s.limiter.safety env c.tokens (m + 1) k s.now c.waited = some result ∧
      system.Run s
        (sleeps c.group c.tokens env k m ++
          [.acquired c.group c.tokens (env.wall (k + m)) t.now]) t ∧
      t.calls = front ++ back ∧ t.now = s.now + (result.1 - c.waited) + overrun env k m ∧
      t.limiter = { s.limiter.set c.group result.2 with
        waitedSeconds := s.limiter.waitedSeconds + result.1 } := by
  induction fuel generalizing k s c b with
  | zero => cases hloop
  | succ fuel ih =>
    cases htry : b.tryAcquire s.limiter.safety (env.wall k) s.now c.tokens with
    | mk b' outcome =>
      cases outcome with
      | none =>
        rw [Bucket.acquireFrom_granted htry] at hloop
        cases hloop
        have hstep := Steps.acquired (env.wall k) hcalls hb htry
        refine ⟨0, ⟨{ s.limiter.set c.group b' with
            waitedSeconds := s.limiter.waitedSeconds + c.waited }, s.now, front ++ back⟩,
          Bucket.acquireFrom_granted htry 0 _, .cons hstep (.nil _), rfl, ?_, rfl⟩
        simp [overrun]
      | some sleep =>
        rw [Bucket.acquireFrom_sleeps htry] at hloop
        have hstep := Steps.wait (env.wall k) hcalls hb htry
        obtain ⟨-, -, -, hsleep⟩ := Bucket.tryAcquire_sleeps htry
        have hlate := env.late_nonneg k
        have hpos : 0 < leastSleep := by norm_num [leastSleep]
        have hlater : s.now ≤ s.now + sleep + env.late k := by linarith
        obtain ⟨m, t, hm, hrun, hc, hnow, hlim⟩ :=
          ih (k + 1) (s := ⟨s.limiter.set c.group b', s.now + sleep + env.late k,
              front ++ { c with waited := c.waited + sleep } :: back⟩)
            (c := { c with waited := c.waited + sleep }) rfl (Dict.get?_insert_self _ _ _) hloop
        rw [Nat.add_right_comm] at hrun
        refine ⟨m + 1, t, ?_, .cons hstep (.cons (.tick hlater) hrun), hc, ?_, ?_⟩
        · rw [Bucket.acquireFrom_sleeps htry]
          exact hm
        · rw [hnow, overrun_succ]
          ring
        · rw [hlim]
          simp only [set, Dict.insert_insert]

end

/-- **A waiting acquire always ends**: from any state of the limiter, for any number of tokens,
however the limits change meanwhile. After `m` sleeps the call takes its tokens; in the system of
threads these are its own steps, the others standing still, and the clock is then later by what
it has slept and overslept. -/
theorem acquire_ends (lim : RateLimiter) (name : String) (n : ℚ) (env : Waits) (calls : List Call) :
    ∃ m waited lim' now, lim.acquire name n env (m + 1) = some (waited, lim') ∧
      now = env.start + waited + overrun env 0 m ∧
      system.Run ⟨lim, env.made, calls⟩
        ([.register name, .begin name n, .tick] ++ sleeps name n env 0 m ++
          [.acquired name n (env.wall m) now])
        ⟨lim', now, calls⟩ := by
  obtain ⟨b, hb⟩ : ∃ b, (lim.register name env.made).buckets.get? name = some b := by
    rw [register, Dict.get?_setDefault, if_pos rfl]
    exact ⟨_, rfl⟩
  obtain ⟨fuel, result, hends⟩ :=
    b.acquireFrom_ends env (lim.register name env.made).safety n env.start 0
  obtain ⟨m, t, hm, hrun, hcalls, hnow, hlim⟩ :=
    acquireFrom_run (s := ⟨lim.register name env.made, env.start, calls ++ [⟨name, n, 0⟩]⟩)
      (c := ⟨name, n, 0⟩) env fuel 0 rfl hb hends
  have hacquire : lim.acquire name n env (m + 1) = some (result.1, t.limiter) := by
    simp only [acquire, hb, Option.bind_some, hm, Option.map_some, hlim]
  rw [sub_zero] at hnow
  rw [List.append_nil] at hcalls
  obtain ⟨lim', now, calls'⟩ := t
  obtain rfl : calls' = calls := hcalls
  rw [Nat.zero_add] at hrun
  refine ⟨m, result.1, lim', now, hacquire, hnow, ?_⟩
  exact .cons (.register name) (.cons (.begin name n hb) (.cons (.tick env.made_le) hrun))

end RateLimiter
end Tqt
