import Tqt.Toss.Window

/-! What a group lets through over any stretch of time.

Whatever the server hints and however it penalizes, the tokens of a bucket stay between
none and the burst allowance, and no refill is faster than at the documented limit less the
margin (`Sound.step`, `Sound.slow`). So a stretch of time sees the allowance of its first
grant and what is earned until its last one, and no more (`throughput`).

A header `inf` or `nan` is for every comparison of the source one above all limits, so a
number that is large enough stands for it. -/
namespace Tqt

theorem tps_nonneg (g : String) : 0 ≤ (groupOf g).tps := by
  unfold groupOf
  cases h : groups.find? fun group => group.name = g with
  | none => exact zero_le_one
  | some group =>
    have hall : ∀ group ∈ groups, 0 ≤ group.tps := by decide +kernel
    exact hall group (List.mem_of_find?_eq_some h)

theorem limitAt_flat {group : Group} (hflat : group.peakWindow = none) (wall : ℚ) :
    group.limitAt wall = group.tps := by
  unfold Group.limitAt
  rw [hflat]
  cases group.peakTps <;> rfl

/-! ### One bucket -/

namespace Bucket
open RateLimiter

/-- A group's bucket, as any operations on it leave it. -/
structure Sound (g : String) (b : Bucket) : Prop where
  group : b.group = groupOf g
  nonneg : 0 ≤ b.tokens
  le : b.tokens ≤ max (groupOf g).tps 1

section
variable {g : String} {b b' : Bucket} {wall now : ℚ}

/-- A hint only lowers the limit. -/
theorem Sound.limit_le (hflat : (groupOf g).peakWindow = none) (h : b.Sound g) :
    b.limit wall ≤ (groupOf g).tps := by
  have hdocumented : b.group.limitAt wall = (groupOf g).tps := by
    rw [h.group]
    exact limitAt_flat hflat wall
  unfold limit
  rw [hdocumented]
  split
  · split
    · exact le_rfl
    · exact min_le_left _ _
  · exact le_rfl

theorem Sound.rate_le (hflat : (groupOf g).peakWindow = none) (h : b.Sound g) :
    b.rate safetyFactor wall ≤ max (17 / 20 * (groupOf g).tps) (1 / 20) := by
  refine max_le_max ?_ (by norm_num)
  have hsafety : safetyFactor = 17 / 20 := by
    unfold safetyFactor
    norm_num
  rw [hsafety, mul_comm]
  exact mul_le_mul_of_nonneg_left (h.limit_le hflat) (by norm_num)

theorem Sound.brought_le (hflat : (groupOf g).peakWindow = none) (h : b.Sound g) (safety : ℚ) :
    (b.brought safety wall now 1).tokens ≤ max (groupOf g).tps 1 := by
  refine (min_le_left _ _).trans ?_
  exact max_le (max_le_max (h.limit_le hflat) le_rfl) (le_max_right _ _)

theorem Sound.brought (hflat : (groupOf g).peakWindow = none) (h : b.Sound g) (safety : ℚ) :
    (b.brought safety wall now 1).Sound g := by
  refine ⟨h.group, le_min ?_ ?_, h.brought_le hflat safety⟩
  · exact zero_le_one.trans (le_max_right _ _)
  · exact add_nonneg h.nonneg (mul_nonneg (le_max_right _ _) rate_pos.le)

theorem Sound.tryAcquire (hflat : (groupOf g).peakWindow = none) (h : b.Sound g) {safety : ℚ}
    {sleep : Option ℚ} (htry : b.tryAcquire safety wall now 1 = (b', sleep)) : b'.Sound g := by
  have hbrought : (b.brought safety wall now 1).Sound g := h.brought hflat safety
  cases sleep with
  | some sleep =>
    rw [tryAcquire_some htry]
    exact hbrought
  | none =>
    obtain ⟨hone, htake⟩ := tryAcquire_none htry
    have htokens : b'.tokens = (b.brought safety wall now 1).tokens - 1 := by
      rw [htake]
      rfl
    refine ⟨(tryAcquire_frame htry).1.trans h.group, ?_, ?_⟩
    · rw [htokens]
      linarith
    · rw [htokens]
      linarith [hbrought.le]

theorem Sound.penalize (h : b.Sound g) (retryAfter : Option ℚ) :
    (b.penalize now retryAfter).Sound g :=
  ⟨h.group, le_rfl, zero_le_one.trans (le_max_right _ _)⟩

theorem Sound.observeHeaders (h : b.Sound g) (header : Option ℚ) :
    (b.observeHeaders safetyFactor header).Sound g := by
  unfold Bucket.observeHeaders
  cases header with
  | none => exact h
  | some l =>
    by_cases hl : l ≤ 0
    · simp only [if_pos hl]
      exact h
    · simp only [if_neg hl]
      have hclamp : 0 ≤ l * safetyFactor := mul_nonneg (not_le.mp hl).le (by decide +kernel)
      exact ⟨h.group, le_min h.nonneg hclamp, (min_le_left _ _).trans h.le⟩

end

end Bucket

namespace RateLimiter

/-! ### All of them -/

def Event.grantedWithin (g : String) (start stop : ℚ) : Event → Bool
  | .acquired name _ _ time => name = g ∧ start ≤ time ∧ time ≤ stop
  | _ => false

/-- How often the group granted a call from `start` to `stop`, both included. -/
def grantsWithin (g : String) (start stop : ℚ) (events : List Event) : ℕ :=
  events.countP fun a => a.grantedWithin g start stop

/-- A limiter that nobody has called. -/
def started (now : ℚ) : State where
  limiter := {}
  now := now

structure Sound (g : String) (s : State) : Prop where
  safety : s.limiter.safety = safetyFactor
  bucket : ∀ b, s.limiter.buckets.get? g = some b → b.Sound g

section
variable {g : String}

theorem started_sound (now : ℚ) : Sound g (started now) := by
  refine ⟨rfl, fun b hb => ?_⟩
  have hb' : (∅ : Dict String Bucket).get? g = some b := hb
  rw [Dict.get?_empty] at hb'
  cases hb'

theorem Sound.set {s : State} (h : Sound g s) {name : String} {b' : Bucket}
    (hsound : name = g → b'.Sound g) (now waited : ℚ) (calls : List Call) :
    Sound g
      { limiter := { s.limiter.set name b' with waitedSeconds := waited }, now := now, calls := calls } := by
  refine ⟨h.safety, fun own hown => ?_⟩
  have hown' : (s.limiter.buckets.insert name b').get? g = some own := hown
  by_cases hname : name = g
  · subst hname
    rw [Dict.get?_insert_self] at hown'
    cases hown'
    exact hsound rfl
  · rw [Dict.get?_insert_of_ne _ _ (Ne.symm hname)] at hown'
    exact h.bucket own hown'

/-- **One step** leaves the bucket between empty and full. -/
theorem Sound.step (hflat : (groupOf g).peakWindow = none) {s t : State} {a : Event} (h : Sound g s)
    (hstep : (system.restrict (ByOne g)).step s a t) : Sound g t := by
  obtain ⟨hone, hstep⟩ := hstep
  cases hstep with
  | tick hlater => exact ⟨h.safety, h.bucket⟩
  | register name =>
    refine ⟨h.safety, fun b hb => ?_⟩
    have hb' : (s.limiter.buckets.setDefault name _).get? g = some b := hb
    rw [Dict.get?_setDefault] at hb'
    split at hb'
    · next hname =>
      subst hname
      cases hold : s.limiter.buckets.get? g with
      | none =>
        rw [hold] at hb'
        cases hb'
        exact ⟨rfl, tps_nonneg g, le_max_left _ _⟩
      | some own =>
        rw [hold] at hb'
        cases hb'
        exact h.bucket own hold
    · exact h.bucket b hb'
  | begin name n hb => exact ⟨h.safety, h.bucket⟩
  | @wait front back call b b' sleep wall hcalls hb htry =>
    refine h.set (fun hname => ?_) _ _ _
    rw [show call.tokens = 1 from hone hname] at htry
    exact (h.bucket b (hname ▸ hb)).tryAcquire hflat htry
  | @acquired front back call b b' wall hcalls hb htry =>
    refine h.set (fun hname => ?_) _ _ _
    rw [show call.tokens = 1 from hone hname] at htry
    exact (h.bucket b (hname ▸ hb)).tryAcquire hflat htry
  | @penalize b name retryAfter hb =>
    refine h.set (fun hname => ?_) s.now s.limiter.waitedSeconds s.calls
    exact (h.bucket b (hname ▸ hb)).penalize retryAfter
  | @observe b name header hb =>
    refine h.set (fun hname => ?_) s.now s.limiter.waitedSeconds s.calls
    rw [h.safety]
    exact (h.bucket b (hname ▸ hb)).observeHeaders header

theorem Sound.run (hflat : (groupOf g).peakWindow = none) {s t : State} {events : List Event}
    (h : Sound g s) (hrun : (system.restrict (ByOne g)).Run s events t) : Sound g t :=
  hrun.invariant (fun _ _ _ hs hstep => hs.step hflat hstep) h

theorem Sound.slow (hflat : (groupOf g).peakWindow = none) {s : State} (h : Sound g s) (a : Event) :
    Slow g (max (17 / 20 * (groupOf g).tps) (1 / 20)) s a := by
  have hrate : ∀ (wall : ℚ) (b : Bucket), s.limiter.buckets.get? g = some b →
      b.rate s.limiter.safety wall ≤ max (17 / 20 * (groupOf g).tps) (1 / 20) := by
    intro wall b hb
    rw [h.safety]
    exact (h.bucket b hb).rate_le hflat
  cases a with
  | wait name n wall => exact fun _ => hrate wall
  | acquired name n wall time => exact fun _ => hrate wall
  | _ => trivial

theorem Event.grants_of_grantedWithin {a : Event} {start stop : ℚ}
    (h : a.grantedWithin g start stop = true) : ∃ time, a.grants g time ∧ start ≤ time ∧ time ≤ stop := by
  cases a with
  | acquired name n wall time =>
    simp only [Event.grantedWithin, decide_eq_true_eq] at h
    obtain ⟨rfl, hstart, hstop⟩ := h
    exact ⟨time, ⟨n, wall, rfl⟩, hstart, hstop⟩
  | _ => cases h

/-- A grant leaves at most the allowance less its token. -/
theorem Sound.within (hflat : (groupOf g).peakWindow = none) {u w : State} {a : Event} {time : ℚ}
    (hu : Sound g u) (ha : a.grants g time) (hstep : (system.restrict (ByOne g)).step u a w) (ρ : ℚ) :
    w.now = time ∧ Within g ρ (max (groupOf g).tps 1 - 1) 0 w := by
  obtain ⟨n, wall, rfl⟩ := ha
  obtain ⟨b, hb⟩ : ∃ b, u.limiter.buckets.get? g = some b := by
    cases hstep.2 with
    | acquired wall hcalls hb htry => exact ⟨_, hb⟩
  obtain ⟨hnow, -, b', hb', hle⟩ := within_acquired hb hstep ρ
  have hfound : found u b wall ≤ max (groupOf g).tps 1 := (hu.bucket b hb).brought_le hflat _
  exact ⟨hnow, b', hb', hle.trans (by linarith)⟩

theorem grantsWithin_le (hflat : (groupOf g).peakWindow = none) {s v : State} {events : List Event}
    (hs : Sound g s) (hrun : (system.restrict (ByOne g)).Run s events v) {start stop : ℚ}
    (hle : start ≤ stop) :
    grantsWithin g start stop events ≤
      max (groupOf g).tps 1 + max (17 / 20 * (groupOf g).tps) (1 / 20) * (stop - start) := by
  have hρ : 0 ≤ max (17 / 20 * (groupOf g).tps) (1 / 20) := le_max_of_le_right (by norm_num)
  have hone : 1 ≤ max (groupOf g).tps 1 := le_max_right _ _
  have hearned := mul_nonneg hρ (sub_nonneg.mpr hle)
  rcases Nat.eq_zero_or_pos (grantsWithin g start stop events) with hnone | hsome
  · rw [hnone, Nat.cast_zero]
    linarith
  obtain ⟨front, a, back, rfl, hfront, hfirst⟩ := exists_first hsome
  have hcount : grantsWithin g start stop (front ++ a :: back) = grantsWithin g start stop back + 1 := by
    unfold grantsWithin
    rw [List.countP_append, hfront, List.countP_cons_of_pos hfirst, zero_add]
  rw [hcount, Nat.cast_add, Nat.cast_one]
  obtain ⟨u, hu, hrest⟩ := hrun.split
  obtain ⟨first, hgrant, hstart, -⟩ := Event.grants_of_grantedWithin hfirst
  cases hrest with
  | @cons _ w _ _ _ hstep hback =>
    have hsu := hs.run hflat hu
    obtain ⟨rfl, hwithin⟩ := hsu.within hflat hgrant hstep (max (17 / 20 * (groupOf g).tps) (1 / 20))
    rcases Nat.eq_zero_or_pos (grantsWithin g start stop back) with hzero | hmore
    · rw [hzero, Nat.cast_zero]
      linarith
    · have hpaced := hback.strengthen (fun _ _ _ hs hstep => hs.step hflat hstep)
        (fun _ a hs hbyOne => And.intro (hs.slow hflat a) hbyOne) (hsu.step hflat hstep)
      obtain ⟨last, ⟨-, hstop⟩, hlast⟩ :=
        grants_last hρ (fun _ => Event.grants_of_grantedWithin) hpaced hwithin hmore
      have hspan := mul_le_mul_of_nonneg_left (show last - w.now ≤ stop - start by linarith) hρ
      unfold grantsWithin
      linarith

end

/-- **Throughput**: in every run of single acquires, server hints and penalties on a group
without a peak window, by whichever threads, the bucket holds between none and `max L 1` tokens,
and a stretch of time sees at most `max L 1` grants and `max (17/20 · L) (1/20)` more a second. -/
theorem throughput {g : String} (hflat : (groupOf g).peakWindow = none) {now : ℚ} {s : State}
    {events : List Event} (hrun : (system.restrict (ByOne g)).Run (started now) events s) :
    (∀ b, s.limiter.buckets.get? g = some b → 0 ≤ b.tokens ∧ b.tokens ≤ max (groupOf g).tps 1) ∧
      ∀ start stop, start ≤ stop → grantsWithin g start stop events ≤
        max (groupOf g).tps 1 + max (17 / 20 * (groupOf g).tps) (1 / 20) * (stop - start) := by
  have hstart : Sound g (started now) := started_sound now
  refine ⟨fun b hb => ?_, fun start stop hle => grantsWithin_le hflat hstart hrun hle⟩
  obtain ⟨-, hnonneg, hle⟩ := (hstart.run hflat hrun).bucket b hb
  exact ⟨hnonneg, hle⟩

/-- A call, a hint of two requests per second and a penalty in the first second of `MARKET_INFO`. -/
theorem throughput_market_info :
    ∃ s, (system.restrict (ByOne "MARKET_INFO")).Run (started 0)
        [.register "MARKET_INFO", .begin "MARKET_INFO" 1, .acquired "MARKET_INFO" 1 0 0,
          .observe "MARKET_INFO" (some 2), .penalize "MARKET_INFO" (some 5)] s ∧
      (∀ b, s.limiter.buckets.get? "MARKET_INFO" = some b →
        0 ≤ b.tokens ∧ b.tokens ≤ max (groupOf "MARKET_INFO").tps 1) ∧
      ∀ start stop, start ≤ stop → grantsWithin "MARKET_INFO" start stop
          [.register "MARKET_INFO", .begin "MARKET_INFO" 1, .acquired "MARKET_INFO" 1 0 0,
            .observe "MARKET_INFO" (some 2), .penalize "MARKET_INFO" (some 5)] ≤
        max (groupOf "MARKET_INFO").tps 1 +
          max (17 / 20 * (groupOf "MARKET_INFO").tps) (1 / 20) * (stop - start) := by
  have hfound : 1 ≤ found (opened "MARKET_INFO")
      { group := groupOf "MARKET_INFO", tokens := (groupOf "MARKET_INFO").tps, updated := 0 } 0 := by
    decide +kernel
  obtain ⟨b, htry, -, -⟩ := tryAcquire_found hfound
  obtain ⟨t, hcall, -, hb⟩ := acquire_now (opened_bucket "MARKET_INFO") htry
  have hregister : (system.restrict (ByOne "MARKET_INFO")).step (started 0)
      (.register "MARKET_INFO") (opened "MARKET_INFO") := ⟨trivial, .register _⟩
  have hafter : (system.restrict (ByOne "MARKET_INFO")).Run t
      [.observe "MARKET_INFO" (some 2), .penalize "MARKET_INFO" (some 5)] _ :=
    .cons ⟨trivial, .observe _ (some 2) hb⟩
      (.cons ⟨trivial, .penalize _ (some 5) (Dict.get?_insert_self _ _ _)⟩ (.nil _))
  have hrun := Lts.Run.cons hregister ((hcall.weaken fun _ _ h => h.byOne).append hafter)
  have hflat : (groupOf "MARKET_INFO").peakWindow = none := by decide +kernel
  exact ⟨_, hrun, throughput hflat hrun⟩

end RateLimiter
end Tqt
