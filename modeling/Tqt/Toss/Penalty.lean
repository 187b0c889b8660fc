import Tqt.Toss.RateLimit
import Mathlib.Tactic.Ring

/-! What a bucket has given, and how long a penalty lasts.

In any run whose refills stay at or below a rate `ρ`, what a group has granted and what
its bucket still could are together at most what it could at the start, plus `ρ` for each
second (`granted_le`). A penalty empties the bucket, so the tokens of a later grant were
all earned after it: the penalty lasts as long as earning them takes, whatever
`retry_after` said (`penalty_honoured`, `penalty_cut_short`). -/
namespace Tqt.RateLimiter

/-- The tokens a group has granted. -/
def granted (g : String) : List Event → ℚ
  | [] => 0
  | .acquired name n _ _ :: rest => (if name = g then n else 0) + granted g rest
  | _ :: rest => granted g rest

/-- Iterations on the group refill at most at `ρ`. -/
def Slow (g : String) (ρ : ℚ) (s : State) : Event → Prop
  | .wait name _ wall => name = g →
    ∀ b, s.limiter.buckets.get? g = some b → b.rate s.limiter.safety wall ≤ ρ
  | .acquired name _ wall _ => name = g →
    ∀ b, s.limiter.buckets.get? g = some b → b.rate s.limiter.safety wall ≤ ρ
  | _ => True

section
variable {g : String} {ρ : ℚ}

theorem Slow.mono {ρ' : ℚ} (hle : ρ ≤ ρ') {s : State} {a : Event} (h : Slow g ρ s a) :
    Slow g ρ' s a := by
  cases a with
  | wait name n wall => exact fun hname b hb => (h hname b hb).trans hle
  | acquired name n wall time => exact fun hname b hb => (h hname b hb).trans hle
  | _ => trivial

/-! ### What an operation does to the level -/

section
variable {safety wall now n : ℚ} {b b' : Bucket}

theorem level_brought (hρ : 0 ≤ ρ) (hrate : b.rate safety wall ≤ ρ) :
    (b.brought safety wall now n).level ρ now ≤ b.level ρ now :=
  TokenBucket.level_refill hρ hrate _ _

theorem level_wait (hρ : 0 ≤ ρ) (hrate : b.rate safety wall ≤ ρ) {sleep : ℚ}
    (h : b.tryAcquire safety wall now n = (b', some sleep)) : b'.level ρ now ≤ b.level ρ now := by
  rw [tryAcquire_some h]
  exact level_brought hρ hrate

theorem level_acquired (hρ : 0 ≤ ρ) (hrate : b.rate safety wall ≤ ρ)
    (h : b.tryAcquire safety wall now n = (b', none)) :
    n + b'.level ρ now ≤ b.level ρ now := by
  obtain ⟨hn, htake⟩ := tryAcquire_none h
  rw [htake, add_comm]
  exact (TokenBucket.level_take hn).trans (level_brought hρ hrate)

theorem level_penalize (hρ : 0 ≤ ρ) (retryAfter : Option ℚ) :
    (b.penalize now retryAfter).level ρ now ≤ b.level ρ now := by
  unfold Bucket.penalize
  cases retryAfter with
  | none => exact TokenBucket.level_drain b.toTokenBucket
  | some r =>
    by_cases hr : 0 < r
    · simp only [if_pos hr]
      rw [TokenBucket.level_drain_later (by linarith)]
      exact TokenBucket.level_nonneg hρ b.toTokenBucket
    · simp only [if_neg hr]
      exact TokenBucket.level_drain b.toTokenBucket

theorem level_penalized {r : ℚ} (hr : 0 < r) : (b.penalize now (some r)).level ρ now = 0 := by
  unfold Bucket.penalize
  simp only [if_pos hr]
  exact TokenBucket.level_drain_later (by linarith)

theorem level_observe (header : Option ℚ) :
    (b.observeHeaders safety header).level ρ now ≤ b.level ρ now := by
  unfold Bucket.observeHeaders
  cases header with
  | none => exact le_rfl
  | some l =>
    by_cases hl : l ≤ 0
    · simp only [if_pos hl]
      exact le_rfl
    · simp only [if_neg hl]
      exact TokenBucket.level_clamp _ b.toTokenBucket

end

/-! ### Runs -/

/-- What the group could give, with what it gave, is within the budget `c`. -/
def Within (g : String) (ρ c given : ℚ) (s : State) : Prop :=
  ∃ b, s.limiter.buckets.get? g = some b ∧ given + b.level ρ s.now ≤ c

/-- Another group's bucket is written, or the group's own with no higher level. -/
theorem Within.set {c given : ℚ} {s : State} {name : String} {b : Bucket}
    (h : Within g ρ c given s) (hb : s.limiter.buckets.get? name = some b) (b' : Bucket)
    (spent waited : ℚ) (calls : List Call)
    (hlevel : name = g → spent + b'.level ρ s.now ≤ b.level ρ s.now) :
    Within g ρ c (given + if name = g then spent else 0)
      { limiter := { s.limiter.set name b' with waitedSeconds := waited }, now := s.now, calls := calls } := by
  obtain ⟨own, hown, hle⟩ := h
  by_cases hname : name = g
  · subst hname
    rw [hb] at hown
    cases hown
    refine ⟨b', Dict.get?_insert_self _ _ _, ?_⟩
    rw [if_pos rfl]
    have := hlevel rfl
    show given + spent + b'.level ρ s.now ≤ c
    linarith
  · refine ⟨own, ?_, ?_⟩
    · show (s.limiter.buckets.insert name b').get? g = some own
      rw [Dict.get?_insert_of_ne _ _ (Ne.symm hname)]
      exact hown
    · rw [if_neg hname, add_zero]
      exact hle

theorem Within.keep {c given : ℚ} {s : State} {name : String} {b : Bucket}
    (h : Within g ρ c given s) (hb : s.limiter.buckets.get? name = some b) (b' : Bucket)
    (waited : ℚ) (calls : List Call)
    (hlevel : name = g → b'.level ρ s.now ≤ b.level ρ s.now) :
    Within g ρ c (given + 0)
      { limiter := { s.limiter.set name b' with waitedSeconds := waited }, now := s.now, calls := calls } := by
  have hset := h.set hb b' 0 waited calls fun hname => by
    rw [zero_add]
    exact hlevel hname
  rwa [ite_self] at hset

/-- **One step** spends what it grants and earns at most `ρ` for each second. -/
theorem Within.step {c given : ℚ} {s t : State} {a : Event} (hρ : 0 ≤ ρ)
    (h : Within g ρ c given s) (hslow : Slow g ρ s a) (hstep : system.step s a t) :
    Within g ρ (c + ρ * (t.now - s.now)) (given + granted g [a]) t := by
  have hsame : c + ρ * (s.now - s.now) = c := by rw [sub_self, mul_zero, add_zero]
  cases hstep with
  | @tick later hlater =>
    obtain ⟨b, hb, hle⟩ := h
    refine ⟨b, hb, ?_⟩
    have := TokenBucket.level_later hρ hlater b.toTokenBucket
    show given + 0 + b.level ρ later ≤ c + ρ * (later - s.now)
    linarith
  | register name =>
    obtain ⟨b, hb, hle⟩ := h
    refine ⟨b, ?_, ?_⟩
    · show (s.limiter.buckets.setDefault _ _).get? g = some b
      rw [Dict.get?_setDefault]
      split
      · next hg => rw [← hg, hb, Option.getD_some]
      · exact hb
    · show given + 0 + b.level ρ s.now ≤ c + ρ * (s.now - s.now)
      rw [hsame, add_zero]
      exact hle
  | begin name n hb =>
    obtain ⟨b, hb, hle⟩ := h
    refine ⟨b, hb, ?_⟩
    show given + 0 + b.level ρ s.now ≤ c + ρ * (s.now - s.now)
    rw [hsame, add_zero]
    exact hle
  | @wait front back call b b' sleep wall hcalls hb htry =>
    rw [hsame]
    exact h.keep hb _ _ _ fun hname => level_wait hρ (hslow hname b (hname ▸ hb)) htry
  | @acquired front back call b b' wall hcalls hb htry =>
    rw [hsame]
    show Within g ρ c (given + ((if call.group = g then call.tokens else 0) + 0)) _
    rw [add_zero]
    exact h.set hb _ _ _ _ fun hname => level_acquired hρ (hslow hname b (hname ▸ hb)) htry
  | penalize name retryAfter hb =>
    rw [hsame]
    exact h.keep hb _ _ _ fun _ => level_penalize hρ retryAfter
  | observe name header hb =>
    rw [hsame]
    exact h.keep hb _ _ _ fun _ => level_observe header

theorem granted_append (g : String) (first second : List Event) :
    granted g (first ++ second) = granted g first + granted g second := by
  induction first with
  | nil => rw [List.nil_append, granted, zero_add]
  | cons a rest ih =>
    cases a <;> simp only [List.cons_append, granted, ih]
    ring

theorem Within.run {c given : ℚ} {u v : State} {events : List Event} (hρ : 0 ≤ ρ)
    (hrun : (system.restrict (Slow g ρ)).Run u events v) (h : Within g ρ c given u) :
    Within g ρ (c + ρ * (v.now - u.now)) (given + granted g events) v := by
  induction hrun generalizing c given with
  | nil s =>
    rw [sub_self, mul_zero, add_zero, granted, add_zero]
    exact h
  | @cons s t v a rest hstep _ ih =>
    have hnext := ih (h.step hρ hstep.1 hstep.2)
    rw [show c + ρ * (t.now - s.now) + ρ * (v.now - t.now) = c + ρ * (v.now - s.now) by ring,
      add_assoc, ← granted_append] at hnext
    exact hnext

/-- **What a group grants** in a run: at most what its bucket could give at the start, and
`ρ` for each second. -/
theorem granted_le {u v : State} {events : List Event} (hρ : 0 ≤ ρ)
    (hrun : (system.restrict (Slow g ρ)).Run u events v) {b : Bucket}
    (hb : u.limiter.buckets.get? g = some b) :
    granted g events ≤ b.level ρ u.now + ρ * (v.now - u.now) := by
  have hstart : Within g ρ (b.level ρ u.now) 0 u := ⟨b, hb, (zero_add _).le⟩
  obtain ⟨b', -, hle⟩ := hstart.run hρ hrun
  have hlevel : 0 ≤ b'.level ρ v.now := TokenBucket.level_nonneg hρ b'.toTokenBucket
  linarith

end

/-! ### Penalties -/

/-- No call asks the group for fewer than `q` tokens, and at its rate `q` tokens take `r`
seconds or more. -/
def Patient (g : String) (r q : ℚ) (s : State) (a : Event) : Prop :=
  Slow g (q / r) s a ∧
    match a with
    | .acquired name n _ _ => name = g → q ≤ n
    | _ => True

section
variable {g : String} {r q : ℚ}

theorem granted_nonneg (hq : 0 < q) {u v : State} {events : List Event}
    (hrun : (system.restrict (Patient g r q)).Run u events v) : 0 ≤ granted g events := by
  induction hrun with
  | nil s => exact le_rfl
  | @cons s t v a rest hstep _ ih =>
    cases a <;> try exact ih
    next name n wall time =>
      have hn : name = g → q ≤ n := hstep.1.2
      rw [granted]
      split
      · next hg => linarith [hn hg]
      · linarith

/-- **A penalty is honoured** in every run in which `retry_after` is not longer than the bucket
takes to earn the tokens asked for: whoever acquires after the penalty, and whatever
happens in between, does so `retry_after` later or later still. -/
theorem penalty_honoured (hr : 0 < r) (hq : 0 < q) {s u v : State} {events : List Event}
    (hstep : system.step s (.penalize g (some r)) u)
    (hrun : (system.restrict (Patient g r q)).Run u events v) {n wall time : ℚ}
    (hmem : .acquired g n wall time ∈ events) : s.now + r ≤ time := by
  obtain ⟨front, back, rfl⟩ := List.append_of_mem hmem
  rw [List.append_cons] at hrun
  obtain ⟨y, hfront, -⟩ := hrun.split
  obtain ⟨x, hx, hlast⟩ := hfront.split
  have hpos := granted_nonneg hq hx
  cases hlast with
  | cons hacq hnil =>
    cases hnil
    have hasked : q ≤ n := hacq.1.2 rfl
    have htime : time = y.now := by
      cases hacq.2
      rfl
    cases hstep with
    | @penalize b _ _ hb =>
      have hle := granted_le (div_nonneg hq.le hr.le) (hfront.weaken fun _ _ h => h.1)
        (Dict.get?_insert_self _ _ _)
      rw [level_penalized hr, granted_append, zero_add, htime.symm] at hle
      simp only [granted, if_true, add_zero] at hle
      -- `q` tokens were earned since the penalty, at `q / r` for each second.
      have hearned : q ≤ q / r * (time - s.now) := by linarith
      rw [div_mul_eq_mul_div, le_div_iff₀ hr] at hearned
      have := le_of_mul_le_mul_left hearned hq
      linarith

section
variable {b : Bucket} {safety wall now n : ℚ}

/-- After the penalty an iteration finds nothing and moves `updated` back to now. -/
theorem tryAcquire_penalized (hr : 0 < r) (hn : 0 < n) :
    ∃ sleep, (b.penalize now (some r)).tryAcquire safety wall now n =
      ({ b with tokens := 0, updated := now }, some sleep) := by
  have hcap : 0 < max (b.capacity wall) n := lt_of_lt_of_le hn (le_max_right _ _)
  have hbrought : (b.penalize now (some r)).brought safety wall now n =
      { b with tokens := 0, updated := now } := by
    unfold Bucket.penalize Bucket.brought TokenBucket.refill TokenBucket.drain
    simp only [if_pos hr]
    rw [max_eq_right (by linarith : now - (now + r) ≤ 0), zero_mul, add_zero]
    exact congrArg (fun x => ({ b with tokens := x, updated := now } : Bucket)) (min_eq_right hcap.le)
  unfold Bucket.tryAcquire
  simp only [hbrought]
  rw [if_neg (not_le.mpr hn)]
  exact ⟨_, rfl⟩

/-- From then on it earns the tokens in `n / rate` seconds. -/
theorem tryAcquire_earned (hn : 0 < n) :
    ∃ b', ({ b with tokens := 0, updated := now } : Bucket).tryAcquire safety wall
      (now + n / b.rate safety wall) n = (b', none) := by
  have hrate : 0 < b.rate safety wall := rate_pos
  have hbrought : (({ b with tokens := 0, updated := now } : Bucket).brought safety wall
      (now + n / b.rate safety wall) n).tokens = n := by
    show min (max (b.capacity wall) n)
      (0 + max (now + n / b.rate safety wall - now) 0 * b.rate safety wall) = n
    rw [zero_add, add_sub_cancel_left, max_eq_left (div_nonneg hn.le hrate.le),
      div_mul_cancel₀ _ hrate.ne']
    exact min_eq_right (le_max_right _ _)
  unfold Bucket.tryAcquire
  simp only
  rw [if_pos hbrought.ge]
  exact ⟨_, rfl⟩

end

/-- And only then: where `retry_after` is longer, two callers are enough to cut it short. The
first one sleeps, which loses the penalty, and the second one finds the tokens. -/
theorem penalty_cut_short (hr : 0 < r) {s : State} {b : Bucket} {n wall : ℚ}
    (hb : s.limiter.buckets.get? g = some b) (hn : 0 < n)
    (hlong : n < r * b.rate s.limiter.safety wall) :
    ∃ u v events time, system.step s (.penalize g (some r)) u ∧ system.Run u events v ∧
      .acquired g n wall time ∈ events ∧ time < s.now + r := by
  have hrate : 0 < b.rate s.limiter.safety wall := rate_pos
  have hwait : ∃ sleep, (b.penalize s.now (some r)).tryAcquire s.limiter.safety wall s.now n =
      ({ b with tokens := 0, updated := s.now }, some sleep) := tryAcquire_penalized hr hn
  obtain ⟨sleep, hwait⟩ := hwait
  have hearned : ∃ b', ({ b with tokens := 0, updated := s.now } : Bucket).tryAcquire
      s.limiter.safety wall (s.now + n / b.rate s.limiter.safety wall) n = (b', none) :=
    tryAcquire_earned hn
  obtain ⟨b', hearned⟩ := hearned
  refine ⟨_, _, [.begin g n, .begin g n, .wait g n wall, .tick, .acquired g n wall _],
    s.now + n / b.rate s.limiter.safety wall, .penalize g (some r) hb,
    .cons (.begin g n (Dict.get?_insert_self _ _ _)) <|
    .cons (.begin g n (Dict.get?_insert_self _ _ _)) <|
    .cons (.wait wall (show _ = s.calls ++ ⟨g, n, 0⟩ :: [⟨g, n, 0⟩] by simp)
      (Dict.get?_insert_self _ _ _) hwait) <|
    .cons (.tick ?_) <|
    .cons (.acquired wall (show _ = (s.calls ++ [⟨g, n, 0 + sleep⟩]) ++ ⟨g, n, 0⟩ :: [] by simp)
      (Dict.get?_insert_self _ _ _) hearned) (.nil _), by simp, ?_⟩
  · show s.now ≤ s.now + n / b.rate s.limiter.safety wall
    linarith [div_nonneg hn.le hrate.le]
  · have := (div_lt_iff₀ hrate).mpr hlong
    linarith

end

/-! ### One caller -/

/-- The bucket of `ORDER` when the limiter is made at time zero. -/
def orderBucket : Bucket where
  group := groupOf "ORDER"
  tokens := 10
  updated := 0

def orderState : State where
  limiter := { buckets := Dict.insert ∅ "ORDER" orderBucket }
  now := 0

def midday : ℚ := 12 * 3600

theorem orderBucket_rate : orderBucket.rate safetyFactor midday = 17 / 2 := by decide +kernel

/-- Called at the penalty, `acquire` sleeps the 2/17 s that a token takes and returns. -/
theorem order_run {r : ℚ} (hr : 0 < r) :
    ∃ u v, system.step orderState (.penalize "ORDER" (some r)) u ∧
      (system.restrict (Patient "ORDER" (2 / 17) 1)).Run u [.begin "ORDER" 1,
        .wait "ORDER" 1 midday, .tick, .acquired "ORDER" 1 midday (2 / 17)] v := by
  have hrate : orderBucket.rate safetyFactor midday ≤ 1 / (2 / 17) := by
    rw [orderBucket_rate]
    norm_num
  have hwait : ∃ sleep, (orderBucket.penalize 0 (some r)).tryAcquire safetyFactor midday 0 1 =
      ({ orderBucket with tokens := 0, updated := 0 }, some sleep) :=
    tryAcquire_penalized hr one_pos
  obtain ⟨sleep, hwait⟩ := hwait
  have hearned : ∃ b', ({ orderBucket with tokens := 0, updated := 0 } : Bucket).tryAcquire
      safetyFactor midday (0 + 1 / orderBucket.rate safetyFactor midday) 1 = (b', none) :=
    tryAcquire_earned one_pos
  rw [orderBucket_rate, show (0 : ℚ) + 1 / (17 / 2) = 2 / 17 by norm_num] at hearned
  obtain ⟨b', hearned⟩ := hearned
  refine ⟨_, _, .penalize "ORDER" (some r) (Dict.get?_insert_self _ _ _),
    .cons ⟨⟨trivial, trivial⟩, .begin "ORDER" 1 (Dict.get?_insert_self _ _ _)⟩ <|
    .cons ⟨⟨fun _ b hb => ?_, trivial⟩, .wait midday (show _ = [] ++ ⟨"ORDER", 1, 0⟩ :: [] from rfl)
      (Dict.get?_insert_self _ _ _) hwait⟩ <|
    .cons ⟨⟨trivial, trivial⟩, .tick (show (0 : ℚ) ≤ 2 / 17 by norm_num)⟩ <|
    .cons ⟨⟨fun _ b hb => ?_, fun _ => le_rfl⟩,
      .acquired midday (show _ = [] ++ ⟨"ORDER", 1, 0 + sleep⟩ :: [] from rfl)
        (Dict.get?_insert_self _ _ _) hearned⟩ (.nil _)⟩
  · cases (Dict.get?_insert_self _ _ _).symm.trans hb
    exact hrate
  · cases (Dict.get?_insert_self _ _ _).symm.trans hb
    exact hrate

/-- A penalty of 0.1 s is over before a token is earned. -/
theorem penalty_honoured_tenth :
    ∃ u v events, system.step orderState (.penalize "ORDER" (some (1 / 10))) u ∧
      system.Run u events v ∧ .acquired "ORDER" 1 midday (2 / 17) ∈ events ∧
      orderState.now + 1 / 10 ≤ 2 / 17 := by
  obtain ⟨u, v, hstep, hrun⟩ := order_run (r := 1 / 10) (by norm_num)
  refine ⟨u, v, _, hstep, hrun.of_restrict, by simp, ?_⟩
  exact penalty_honoured (by norm_num) one_pos hstep
    (hrun.weaken fun s a h => ⟨h.1.mono (by norm_num), h.2⟩) (n := 1) (List.mem_of_getLast? rfl)

/-- `penalize("ORDER", 5)` at time zero: `acquire` is called then and returns at 2/17. -/
theorem penalty_lost :
    ∃ u v, system.step orderState (.penalize "ORDER" (some 5)) u ∧
      system.Run u [.begin "ORDER" 1, .wait "ORDER" 1 midday, .tick,
        .acquired "ORDER" 1 midday (2 / 17)] v ∧ ¬ (orderState.now + 5 ≤ 2 / 17) := by
  obtain ⟨u, v, hstep, hrun⟩ := order_run (r := 5) (by norm_num)
  refine ⟨u, v, hstep, hrun.of_restrict, ?_⟩
  show ¬ ((0 : ℚ) + 5 ≤ 2 / 17)
  norm_num

end Tqt.RateLimiter
