import Tqt.Toss.Penalty

/-! How many calls a group lets through in a second.

The refill rate carries the safety margin, the burst allowance does not: a bucket holds up
to the documented limit `L` and earns `17/20 · L` on top of it in a second. A second in
which the first call finds at most `1 + 3/20 · L` tokens sees at most `L` of them granted, and
from any fuller bucket more than `L` can be (`window_limit`). Only for one request per
second is no bucket ever fuller. -/
namespace Tqt.RateLimiter

def Event.grantedIn (g : String) (start stop : ℚ) : Event → Bool
  | .acquired name _ _ time => name = g ∧ start ≤ time ∧ time < stop
  | _ => false

/-- How often the group granted a call from `start` on and before `stop`. -/
def grantsIn (g : String) (start stop : ℚ) (events : List Event) : ℕ :=
  events.countP fun a => a.grantedIn g start stop

/-- A documented limit that is the same at every hour. -/
def Constant (g : String) (L : ℚ) : Prop := ∀ wall, (groupOf g).limitAt wall = L

/-- No server hint has reached the group. -/
structure Unhinted (g : String) (s : State) : Prop where
  safety : s.limiter.safety = safetyFactor
  bucket : ∀ b, s.limiter.buckets.get? g = some b → b.group = groupOf g ∧ b.serverLimit = none

/-- `acquire(g)` asks for one token. Other groups do as they like. -/
def ByOne (g : String) (_ : State) : Event → Prop
  | .begin name n => name = g → n = 1
  | .wait name n _ => name = g → n = 1
  | .acquired name n _ _ => name = g → n = 1
  | _ => True

/-- `acquire(g)` asks for one token, and no server hint comes. Other groups do as they like. -/
def Single (g : String) (_ : State) : Event → Prop
  | .begin name n => name = g → n = 1
  | .wait name n _ => name = g → n = 1
  | .acquired name n _ _ => name = g → n = 1
  | .observe name header => name = g → header = none
  | _ => True

section
variable {g : String} {L : ℚ}

theorem grantsIn_append (start stop : ℚ) (first second : List Event) :
    grantsIn g start stop (first ++ second) =
      grantsIn g start stop first + grantsIn g start stop second :=
  List.countP_append ..

theorem grantsIn_cons (start stop : ℚ) (a : Event) (rest : List Event) :
    grantsIn g start stop (a :: rest) =
      (if a.grantedIn g start stop then 1 else 0) + grantsIn g start stop rest := by
  unfold grantsIn
  rw [List.countP_cons, add_comm]

/-! ### The bucket of a constant limit -/

section
variable {b : Bucket} {safety wall now n : ℚ}

theorem tryAcquire_frame {b' : Bucket} {sleep : Option ℚ}
    (h : b.tryAcquire safety wall now n = (b', sleep)) :
    b'.group = b.group ∧ b'.serverLimit = b.serverLimit := by
  unfold Bucket.tryAcquire at h
  simp only at h
  split at h <;> cases h <;> exact ⟨rfl, rfl⟩

theorem limit_unhinted (hconst : Constant g L) (hgroup : b.group = groupOf g)
    (hserver : b.serverLimit = none) : b.limit wall = L := by
  unfold Bucket.limit
  rw [hserver, hgroup]
  exact hconst wall

theorem rate_unhinted (hL : 1 ≤ L) (hlimit : b.limit wall = L) :
    b.rate safetyFactor wall = 17 / 20 * L := by
  have hsafety : L * safetyFactor = 17 / 20 * L := by
    unfold safetyFactor
    ring
  unfold Bucket.rate
  rw [hlimit, hsafety]
  apply max_eq_left
  linarith

theorem capacity_unhinted (hL : 1 ≤ L) (hlimit : b.limit wall = L) : b.capacity wall = L := by
  unfold Bucket.capacity
  rw [hlimit, max_eq_left hL]

end

/-- A bucket that is written back with the same group and hint. -/
theorem Unhinted.set {s : State} (h : Unhinted g s) {name : String} {b : Bucket} (b' : Bucket)
    (hb : s.limiter.buckets.get? name = some b)
    (hsame : name = g → b'.group = b.group ∧ b'.serverLimit = b.serverLimit) (now waited : ℚ)
    (calls : List Call) :
    Unhinted g
      { limiter := { s.limiter.set name b' with waitedSeconds := waited }, now := now, calls := calls } := by
  refine ⟨h.safety, fun own hown => ?_⟩
  have hown' : (s.limiter.buckets.insert name b').get? g = some own := hown
  by_cases hname : name = g
  · subst hname
    rw [Dict.get?_insert_self] at hown'
    cases hown'
    obtain ⟨hgroup, hserver⟩ := h.bucket b hb
    obtain ⟨hg, hl⟩ := hsame rfl
    exact ⟨hg.trans hgroup, hl.trans hserver⟩
  · rw [Dict.get?_insert_of_ne _ _ (Ne.symm hname)] at hown'
    exact h.bucket own hown'

theorem Unhinted.step {s t : State} {a : Event} (h : Unhinted g s)
    (hstep : (system.restrict (Single g)).step s a t) : Unhinted g t := by
  obtain ⟨hsingle, hstep⟩ := hstep
  cases hstep with
  | tick hlater => exact ⟨h.safety, h.bucket⟩
  | register name =>
    refine ⟨h.safety, fun b hb => ?_⟩
    have hb' : (s.limiter.buckets.setDefault name _).get? g = some b := hb
    rw [Dict.get?_setDefault] at hb'
    split at hb'
    · next hname =>
      subst hname
      cases hold : s.limiter.buckets.get? g with
      | none =>
        rw [hold] at hb'
        cases hb'
        exact ⟨rfl, rfl⟩
      | some own =>
        rw [hold] at hb'
        cases hb'
        exact h.bucket own hold
    · exact h.bucket b hb'
  | begin name n hb => exact ⟨h.safety, h.bucket⟩
  | @wait front back call b b' sleep wall hcalls hb htry =>
    exact h.set b' hb (fun _ => tryAcquire_frame htry) _ _ _
  | @acquired front back call b b' wall hcalls hb htry =>
    exact h.set b' hb (fun _ => tryAcquire_frame htry) _ _ _
  | @penalize b name retryAfter hb =>
    exact h.set (b.penalize s.now retryAfter) hb (fun _ => ⟨rfl, rfl⟩) s.now s.limiter.waitedSeconds s.calls
  | observe name header hb =>
    refine h.set _ hb (fun hname => ?_) s.now s.limiter.waitedSeconds s.calls
    have hnone : header = none := hsingle hname
    rw [hnone]
    exact ⟨rfl, rfl⟩

theorem Unhinted.run {s t : State} {events : List Event} (h : Unhinted g s)
    (hrun : (system.restrict (Single g)).Run s events t) : Unhinted g t :=
  hrun.invariant (fun _ _ _ hs hstep => hs.step hstep) h

/-- The rate is the limit less the margin, whoever looks. -/
theorem Unhinted.slow {s : State} (hconst : Constant g L) (hL : 1 ≤ L) (h : Unhinted g s)
    (a : Event) : Slow g (17 / 20 * L) s a := by
  have hrate : ∀ (wall : ℚ) (b : Bucket), s.limiter.buckets.get? g = some b →
      b.rate s.limiter.safety wall ≤ 17 / 20 * L := by
    intro wall b hb
    obtain ⟨hgroup, hserver⟩ := h.bucket b hb
    rw [h.safety]
    exact (rate_unhinted hL (limit_unhinted hconst hgroup hserver)).le
  cases a with
  | wait name n wall => exact fun _ => hrate wall
  | acquired name n wall time => exact fun _ => hrate wall
  | _ => trivial

/-! ### Never more than the limit -/

theorem Single.byOne {s : State} {a : Event} (h : Single g s a) : ByOne g s a := by
  cases a with
  | observe name header => trivial
  | _ => exact h

theorem ByOne.granted_nonneg {s : State} {a : Event} (h : ByOne g s a) : 0 ≤ granted g [a] := by
  cases a with
  | acquired name n wall time =>
    have hone : name = g → n = 1 := h
    rw [granted, granted, add_zero]
    split
    · next hname => exact (hone hname).symm ▸ zero_le_one
    · exact le_rfl
  | _ => exact le_rfl

/-- The event is a grant of the group, at this time. -/
def Event.grants (g : String) (time : ℚ) (a : Event) : Prop := ∃ n wall, a = .acquired g n wall time

theorem Event.grants_of_grantedIn {a : Event} {start stop : ℚ} (h : a.grantedIn g start stop = true) :
    ∃ time, a.grants g time ∧ start ≤ time ∧ time < stop := by
  cases a with
  | acquired name n wall time =>
    simp only [Event.grantedIn, decide_eq_true_eq] at h
    obtain ⟨rfl, hstart, hstop⟩ := h
    exact ⟨time, ⟨n, wall, rfl⟩, hstart, hstop⟩
  | _ => cases h

theorem ByOne.granted_eq {s : State} {a : Event} (h : ByOne g s a) {time : ℚ} (ha : a.grants g time) :
    granted g [a] = 1 := by
  obtain ⟨n, wall, rfl⟩ := ha
  rw [granted, granted, add_zero, if_pos rfl]
  exact h rfl

/-- A grant takes no time. -/
theorem now_of_grants {s t : State} {a : Event} (hstep : system.step s a t) {time : ℚ}
    (ha : a.grants g time) : s.now = time ∧ t.now = time := by
  obtain ⟨n, wall, rfl⟩ := ha
  cases hstep with
  | acquired wall hcalls hb htry => exact ⟨rfl, rfl⟩

/-- **The grants of a run**, of whichever kind `p`, were paid for by the time of the last one:
with the tokens at the start of the run and what they earned until then. -/
theorem grants_last {ρ : ℚ} (hρ : 0 ≤ ρ) {p : Event → Bool}
    {T : ℚ → Prop} (hp : ∀ a, p a = true → ∃ time, a.grants g time ∧ T time) {u v : State}
    {events : List Event}
    (hrun : (system.restrict fun s a => Slow g ρ s a ∧ ByOne g s a).Run u events v) {c given : ℚ}
    (h : Within g ρ c given u) (hpos : 0 < events.countP p) :
    ∃ time, T time ∧ given + events.countP p ≤ c + ρ * (time - u.now) := by
  induction hrun generalizing c given with
  | nil s => simp at hpos
  | @cons s t v a rest hstep _ ih =>
    have hnext := h.step hρ hstep.1.1 hstep.2
    rw [List.countP_cons] at hpos ⊢
    rcases Nat.eq_zero_or_pos (rest.countP p) with hzero | hmore
    · -- The last of them: its token was there.
      have ha : p a = true := by
        by_contra hno
        simp [hzero, hno] at hpos
      obtain ⟨time, htime, hT⟩ := hp a ha
      obtain ⟨hnow, hnow'⟩ := now_of_grants hstep.2 htime
      obtain ⟨b, -, hle⟩ := hnext
      have hlevel : 0 ≤ b.level ρ t.now := TokenBucket.level_nonneg hρ b.toTokenBucket
      rw [hstep.1.2.granted_eq htime, hnow, hnow', sub_self, mul_zero, add_zero] at hle
      rw [hnow'] at hlevel
      refine ⟨time, hT, ?_⟩
      rw [hzero, if_pos ha, hnow, sub_self, mul_zero, add_zero]
      push_cast
      linarith
    · obtain ⟨time, hT, hle⟩ := ih hnext hmore
      refine ⟨time, hT, ?_⟩
      rw [show c + ρ * (t.now - s.now) + ρ * (time - t.now) = c + ρ * (time - s.now) by ring] at hle
      have hone : ((if p a = true then 1 else 0 : ℕ) : ℚ) ≤ granted g [a] := by
        split
        · next ha =>
          obtain ⟨_, htime, -⟩ := hp a ha
          rw [hstep.1.2.granted_eq htime, Nat.cast_one]
        · exact hstep.1.2.granted_nonneg
      push_cast at hone ⊢
      linarith

/-- **A run** grants before `stop` only what the tokens at its start and what they earn until
then pay for. -/
theorem grants_lt (hconst : Constant g L) (hL : 1 ≤ L) {u v : State} {events : List Event}
    (hrun : (system.restrict (Single g)).Run u events v) (hu : Unhinted g u)
    {c given start stop : ℚ} (h : Within g (17 / 20 * L) c given u)
    (hpos : 0 < grantsIn g start stop events) :
    given + grantsIn g start stop events < c + 17 / 20 * L * (stop - u.now) := by
  have hρ : 0 < 17 / 20 * L := by linarith
  have hpaced := hrun.strengthen (fun _ _ _ hs hstep => hs.step hstep)
    (fun _ a hs hsingle => And.intro (hs.slow hconst hL a) hsingle.byOne) hu
  obtain ⟨time, ⟨-, hstop⟩, hle⟩ :=
    grants_last hρ.le (fun a => Event.grants_of_grantedIn) hpaced h hpos
  have hearned : 17 / 20 * L * (time - u.now) < 17 / 20 * L * (stop - u.now) :=
    mul_lt_mul_of_pos_left (by linarith) hρ
  exact hle.trans_lt (by linarith)

/-- What an iteration for one token would find in the bucket. -/
def found (s : State) (b : Bucket) (wall : ℚ) : ℚ := (b.brought s.limiter.safety wall s.now 1).tokens

theorem found_le (hconst : Constant g L) (hL : 1 ≤ L) {s : State} {b : Bucket} (hs : Unhinted g s)
    (hb : s.limiter.buckets.get? g = some b) (wall : ℚ) : found s b wall ≤ L := by
  obtain ⟨hgroup, hserver⟩ := hs.bucket b hb
  refine (min_le_left _ _).trans_eq ?_
  rw [capacity_unhinted hL (limit_unhinted hconst hgroup hserver), max_eq_left hL]

/-- After the first grant the bucket holds one token less than it was found with. -/
theorem within_acquired {u w : State} {n wall time : ℚ} {b : Bucket}
    (hb : u.limiter.buckets.get? g = some b)
    (hstep : (system.restrict (ByOne g)).step u (.acquired g n wall time) w) (ρ : ℚ) :
    w.now = time ∧ 1 ≤ found u b wall ∧ Within g ρ (found u b wall - 1) 0 w := by
  obtain ⟨hone, hstep⟩ := hstep
  cases hstep with
  | @acquired front back call own b' _ hcalls hown htry =>
    rw [hb] at hown
    cases hown
    rw [show call.tokens = 1 from hone rfl] at htry
    obtain ⟨hn, htake⟩ := tryAcquire_none htry
    refine ⟨rfl, hn, b', Dict.get?_insert_self _ _ _, ?_⟩
    rw [htake]
    show 0 + (max (found u b wall - 1) 0 + ρ * max (u.now - u.now) 0) ≤ _
    rw [max_eq_left (sub_nonneg.mpr (show 1 ≤ found u b wall from hn)), sub_self, max_self, mul_zero,
      add_zero, zero_add]

end

/-- The state in which a grant is made is one in which the group's bucket holds few tokens. -/
def Modest (g : String) (bound : ℚ) (s : State) : Event → Prop
  | .acquired _ _ wall _ => ∀ b, s.limiter.buckets.get? g = some b → found s b wall ≤ bound
  | _ => True

/-- The first grant of the window `[start, start + 1)` in a run from `s` to `v`, if there is one,
finds at most `bound` tokens. -/
def OpensWith (g : String) (start bound : ℚ) (s : State) (events : List Event) (v : State) : Prop :=
  ∀ front a back u w, events = front ++ a :: back → (system.restrict (Single g)).Run s front u →
    (system.restrict (Single g)).step u a w → (system.restrict (Single g)).Run w back v →
    grantsIn g start (start + 1) front = 0 → a.grantedIn g start (start + 1) = true → Modest g bound u a

theorem exists_first {p : Event → Bool} {events : List Event} (h : 0 < events.countP p) :
    ∃ front a back, events = front ++ a :: back ∧ front.countP p = 0 ∧ p a = true := by
  induction events with
  | nil => simp at h
  | cons a rest ih =>
    by_cases ha : p a = true
    · exact ⟨[], a, rest, rfl, rfl, ha⟩
    · rw [List.countP_cons_of_neg ha] at h
      obtain ⟨front, first, back, rfl, hfront, hfirst⟩ := ih h
      refine ⟨a :: front, first, back, rfl, ?_, hfirst⟩
      rw [List.countP_cons_of_neg ha, hfront]

/-- **A second whose first grant finds few tokens** sees at most `L` grants. -/
theorem grantsIn_le {g : String} {L : ℕ} (hconst : Constant g L) (hL : 1 ≤ L) {s v : State}
    {events : List Event} (hs : Unhinted g s) (hrun : (system.restrict (Single g)).Run s events v)
    {start : ℚ} (hopens : OpensWith g start (1 + 3 / 20 * L) s events v) :
    grantsIn g start (start + 1) events ≤ L := by
  have hL' : (1 : ℚ) ≤ L := by exact_mod_cast hL
  rcases Nat.eq_zero_or_pos (grantsIn g start (start + 1) events) with hnone | hsome
  · omega
  obtain ⟨front, a, back, rfl, hfront, hfirst⟩ :
      ∃ front a back, events = front ++ a :: back ∧ grantsIn g start (start + 1) front = 0 ∧
        a.grantedIn g start (start + 1) = true := exists_first hsome
  obtain ⟨u, hu, hrest⟩ := hrun.split
  cases hrest with
  | @cons _ w _ _ _ hstep hback =>
    have hmodest := hopens front a back u w rfl hu hstep hback hfront hfirst
    rw [grantsIn_append, grantsIn_cons, hfront, if_pos hfirst, zero_add]
    cases a with
    | acquired name n wall time =>
      simp only [Event.grantedIn, decide_eq_true_eq] at hfirst
      obtain ⟨rfl, hstart, -⟩ := hfirst
      obtain ⟨b, hb⟩ : ∃ b, u.limiter.buckets.get? name = some b := by
        cases hstep.2 with
        | acquired wall hcalls hb htry => exact ⟨_, hb⟩
      obtain ⟨hnow, -, hwithin⟩ := within_acquired hb ⟨hstep.1.byOne, hstep.2⟩ (17 / 20 * L)
      have hfound := hmodest b hb
      rcases Nat.eq_zero_or_pos (grantsIn name start (start + 1) back) with hzero | hmore
      · omega
      · have hlt := grants_lt hconst hL' hback ((hs.run hu).step hstep) hwithin hmore
        have hearned : 17 / 20 * (L : ℚ) * (start + 1 - w.now) ≤ 17 / 20 * L :=
          mul_le_of_le_one_right (by linarith) (by linarith)
        have hless : (grantsIn name start (start + 1) back : ℚ) < L := by linarith
        have hless' : grantsIn name start (start + 1) back < L := by exact_mod_cast hless
        omega
    | _ => cases hfirst

/-! ### More than the limit, from a fuller bucket -/

section
variable {g : String} {L : ℚ}

/-- A thread that calls and finds a token. -/
theorem acquire_now {s : State} {b b' : Bucket} {wall : ℚ} (hb : s.limiter.buckets.get? g = some b)
    (htry : b.tryAcquire s.limiter.safety wall s.now 1 = (b', none)) :
    ∃ t, (system.restrict (Single g)).Run s [.begin g 1, .acquired g 1 wall s.now] t ∧
      t.now = s.now ∧ t.limiter.buckets.get? g = some b' := by
  refine ⟨_, .cons ⟨fun _ => rfl, .begin g 1 hb⟩ (.cons ⟨fun _ => rfl, .acquired wall
    (show _ = s.calls ++ ⟨g, 1, 0⟩ :: [] from rfl) hb htry⟩ (.nil _)), rfl, ?_⟩
  exact Dict.get?_insert_self _ _ _

/-- A bucket that is found with a token grants it. -/
theorem tryAcquire_found {s : State} {b : Bucket} {wall : ℚ} (h : 1 ≤ found s b wall) :
    ∃ b', b.tryAcquire s.limiter.safety wall s.now 1 = (b', none) ∧
      b'.tokens = found s b wall - 1 ∧ b'.updated = s.now := by
  unfold Bucket.tryAcquire
  simp only
  rw [if_pos (show 1 ≤ (b.brought s.limiter.safety wall s.now 1).tokens from h)]
  exact ⟨_, rfl, rfl, rfl⟩

/-- What a bucket that was just brought up to date is found with after `δ` seconds. -/
theorem found_later (hconst : Constant g L) (hL : 1 ≤ L) {s : State} {b : Bucket} (wall : ℚ)
    (hs : Unhinted g s) (hb : s.limiter.buckets.get? g = some b) (hupdated : b.updated = s.now)
    {δ : ℚ} (hδ : 0 ≤ δ) :
    found { s with now := s.now + δ } b wall = min L (b.tokens + δ * (17 / 20 * L)) := by
  obtain ⟨hgroup, hserver⟩ := hs.bucket b hb
  have hlimit : b.limit wall = L := limit_unhinted hconst hgroup hserver
  show min (max (b.capacity wall) 1)
    (b.tokens + max (s.now + δ - b.updated) 0 * b.rate s.limiter.safety wall) = _
  rw [hs.safety, rate_unhinted hL hlimit, capacity_unhinted hL hlimit, max_eq_left hL, hupdated,
    add_sub_cancel_left, max_eq_left hδ]

/-- Waiting until the tokens at hand are `max x 1`. -/
theorem earned_one {ρ x : ℚ} (hρ : 0 < ρ) : x + max ((1 - x) / ρ) 0 * ρ = max x 1 := by
  rcases le_total x 1 with hx | hx
  · rw [max_eq_left (div_nonneg (by linarith) hρ.le), div_mul_cancel₀ _ hρ.ne', max_eq_right hx]
    ring
  · rw [max_eq_right (div_nonpos_of_nonpos_of_nonneg (by linarith) hρ.le), max_eq_left hx]
    ring

/-- One round: wait until a token is there, and take it. -/
theorem acquire_round (hconst : Constant g L) (hL : 1 ≤ L) {s : State} {b : Bucket}
    (hs : Unhinted g s) (hb : s.limiter.buckets.get? g = some b) (hupdated : b.updated = s.now)
    (hcap : b.tokens ≤ L) (time : ℚ)
    (htime : time = s.now + max ((1 - b.tokens) / (17 / 20 * L)) 0) :
    ∃ t b', (system.restrict (Single g)).Run s [.tick, .begin g 1, .acquired g 1 0 time] t ∧
      t.limiter.buckets.get? g = some b' ∧ t.now = time ∧ b'.updated = time ∧
      b'.tokens = max b.tokens 1 - 1 := by
  have hρ : 0 < 17 / 20 * L := by linarith
  have hδ : 0 ≤ max ((1 - b.tokens) / (17 / 20 * L)) 0 := le_max_right _ _
  have hfound := found_later hconst hL 0 hs hb hupdated hδ
  rw [earned_one hρ, min_eq_right (max_le hcap hL), ← htime] at hfound
  have hone : 1 ≤ found { s with now := time } b 0 := by
    rw [hfound]
    exact le_max_right _ _
  obtain ⟨b', htry, htaken, hwhen⟩ := tryAcquire_found hone
  have hcall : ∃ t, (system.restrict (Single g)).Run { s with now := time }
      [.begin g 1, .acquired g 1 0 time] t ∧ t.now = time ∧ t.limiter.buckets.get? g = some b' :=
    acquire_now (s := { s with now := time }) hb htry
  obtain ⟨t, hrun, hnow, hb'⟩ := hcall
  refine ⟨t, b', .cons ⟨trivial, .tick ?_⟩ hrun, hb', hnow, hwhen, ?_⟩
  · rw [htime]
    exact le_add_of_nonneg_right hδ
  · rw [htaken, hfound]

/-- The round counts once in a window that it ends in. -/
theorem grantsIn_round {start stop time : ℚ} (rest : List Event) (hstart : start ≤ time)
    (hstop : time < stop) :
    grantsIn g start stop (.tick :: .begin g 1 :: .acquired g 1 0 time :: rest) =
      1 + grantsIn g start stop rest := by
  rw [grantsIn_cons, grantsIn_cons, grantsIn_cons]
  simp [Event.grantedIn, hstart, hstop]

/-- When the `k + 1` tokens are earned: one by the end of a round, and the others after it. -/
theorem earned_succ {ρ x : ℚ} (hρ : 0 < ρ) (k : ℕ) :
    max ((1 - x) / ρ) 0 + max ((k - (max x 1 - 1)) / ρ) 0 ≤ max ((((k + 1 : ℕ) : ℚ) - x) / ρ) 0 := by
  push_cast
  rcases le_total x 1 with hx | hx
  · rw [max_eq_right hx, max_eq_left (div_nonneg (by linarith) hρ.le), sub_self, sub_zero,
      max_eq_left (div_nonneg (Nat.cast_nonneg k) hρ.le), ← add_div]
    refine (div_le_div_of_nonneg_right ?_ hρ.le).trans (le_max_left _ _)
    linarith
  · rw [max_eq_left hx, max_eq_right (div_nonpos_of_nonpos_of_nonneg (by linarith) hρ.le), zero_add]
    apply max_le_max _ le_rfl
    apply div_le_div_of_nonneg_right _ hρ.le
    linarith

/-- **Calls as fast as they are granted**: the tokens at hand, and the others as they are earned. -/
theorem grants_run (hconst : Constant g L) (hL : 1 ≤ L) (k : ℕ) {s : State} {b : Bucket}
    (hs : Unhinted g s) (hb : s.limiter.buckets.get? g = some b) (hupdated : b.updated = s.now)
    (hcap : b.tokens ≤ L) {start stop : ℚ} (hstart : start ≤ s.now)
    (hstop : s.now + max ((k - b.tokens) / (17 / 20 * L)) 0 < stop) :
    ∃ events t, (system.restrict (Single g)).Run s events t ∧ k ≤ grantsIn g start stop events := by
  have hρ : 0 < 17 / 20 * L := by linarith
  induction k generalizing s b with
  | zero => exact ⟨[], s, .nil s, Nat.zero_le _⟩
  | succ k ih =>
    obtain ⟨t, b', hround, hb', hnow, hupdated', htokens⟩ :=
      acquire_round hconst hL hs hb hupdated hcap _ rfl
    have hearned := earned_succ (x := b.tokens) hρ k
    have hδ : 0 ≤ max ((1 - b.tokens) / (17 / 20 * L)) 0 := le_max_right _ _
    have hmore : 0 ≤ max ((k - (max b.tokens 1 - 1)) / (17 / 20 * L)) 0 := le_max_right _ _
    have hcap' : b'.tokens ≤ L := by
      rw [htokens]
      linarith [max_le hcap hL]
    have hstop' : t.now + max ((k - b'.tokens) / (17 / 20 * L)) 0 < stop := by
      rw [htokens, hnow]
      linarith
    obtain ⟨events, v, hrun, hk⟩ := ih (hs.run hround) hb' (hupdated'.trans hnow.symm) hcap'
      (by linarith) hstop'
    refine ⟨_, v, hround.append hrun, ?_⟩
    rw [List.cons_append, List.cons_append, List.cons_append, List.nil_append,
      grantsIn_round _ (by linarith) (by linarith)]
    omega

end

/-- **More than the limit** is granted within a second, if the calls come. -/
theorem lt_grantsIn {g : String} {L : ℕ} (hconst : Constant g L) (hL : 1 ≤ L) {u : State}
    {b : Bucket} (wall : ℚ) (hu : Unhinted g u) (hb : u.limiter.buckets.get? g = some b)
    (hfound : 1 + 3 / 20 * L < found u b wall) :
    ∃ events v, (system.restrict (Single g)).Run u events v ∧
      L < grantsIn g u.now (u.now + 1) events := by
  have hL' : (1 : ℚ) ≤ L := by exact_mod_cast hL
  have hρ : 0 < 17 / 20 * (L : ℚ) := by linarith
  obtain ⟨b', htry, htokens, hupdated⟩ := tryAcquire_found (show 1 ≤ found u b wall by linarith)
  obtain ⟨t, hfirst, hnow, hb'⟩ := acquire_now hb htry
  have hcap : b'.tokens ≤ L := by
    rw [htokens]
    linarith [found_le hconst hL' hu hb wall]
  have hstop : t.now + max ((L - b'.tokens) / (17 / 20 * L)) 0 < u.now + 1 := by
    rw [hnow, htokens, add_lt_add_iff_left, max_lt_iff]
    refine ⟨?_, one_pos⟩
    rw [div_lt_one hρ]
    linarith
  obtain ⟨events, v, hrun, hk⟩ := grants_run hconst hL' L (hu.run hfirst) hb'
    (hupdated.trans hnow.symm) hcap hnow.ge hstop
  have hgrant : Event.grantedIn g u.now (u.now + 1) (.acquired g 1 wall u.now) = true := by
    simp [Event.grantedIn]
  refine ⟨_, v, hfirst.append hrun, ?_⟩
  rw [List.cons_append, List.cons_append, List.nil_append, grantsIn_cons, grantsIn_cons, if_pos hgrant]
  omega

/-- Where the first grant of a run is known, it alone has to find few tokens. -/
theorem opensWith_of_first {g : String} {start bound : ℚ} {s v : State} {front back : List Event}
    {a : Event} (hnone : grantsIn g start (start + 1) front = 0)
    (hgrant : a.grantedIn g start (start + 1) = true)
    (hfirst : ∀ u w, (system.restrict (Single g)).Run s front u → (system.restrict (Single g)).step u a w →
      Modest g bound u a) :
    OpensWith g start bound s (front ++ a :: back) v := by
  intro front' a' back' u w hsplit hrun hstep _ hnone' hgrant'
  -- A grant before the first one would be counted.
  have hlater {x : Event} {l rest : List Event} (hx : x.grantedIn g start (start + 1) = true)
      (hzero : grantsIn g start (start + 1) (l ++ x :: rest) = 0) : False := by
    rw [grantsIn, List.countP_eq_zero] at hzero
    exact hzero x (List.mem_append_right _ List.mem_cons_self) hx
  rcases List.append_eq_append_iff.mp hsplit with ⟨mid, rfl, hmid⟩ | ⟨mid, rfl, hmid⟩
  · cases mid with
    | nil =>
      rw [List.append_nil] at hrun
      cases hmid
      exact hfirst u w hrun hstep
    | cons x rest =>
      cases hmid
      exact (hlater hgrant hnone').elim
  · cases mid with
    | nil =>
      rw [List.append_nil] at hfirst
      cases hmid
      exact hfirst u w hrun hstep
    | cons x rest =>
      cases hmid
      exact (hlater hgrant' hnone).elim

/-- **The limit is kept** in every second that opens with few tokens in the bucket, and in a
second that opens with more it can be broken. -/
theorem window_limit {g : String} {L : ℕ} (hconst : Constant g L) (hL : 1 ≤ L) :
    (∀ s events v, Unhinted g s → (system.restrict (Single g)).Run s events v → ∀ start,
      OpensWith g start (1 + 3 / 20 * L) s events v → grantsIn g start (start + 1) events ≤ L) ∧
    (∀ u b wall, Unhinted g u → u.limiter.buckets.get? g = some b →
      1 + 3 / 20 * L < found u b wall → ∃ events v, (system.restrict (Single g)).Run u events v ∧
        L < grantsIn g u.now (u.now + 1) events) :=
  ⟨fun _ _ _ hs hrun _ hopens => grantsIn_le hconst hL hs hrun hopens,
    fun _ _ wall hu hb hfound => lt_grantsIn hconst hL wall hu hb hfound⟩

/-! ### A limiter that was just made -/

/-- The group is registered at time zero, with a full bucket. -/
def opened (g : String) : State where
  limiter := ({} : RateLimiter).register g 0
  now := 0

theorem opened_bucket (g : String) :
    (opened g).limiter.buckets.get? g =
      some { group := groupOf g, tokens := (groupOf g).tps, updated := 0 } := by
  show ((∅ : Dict String Bucket).setDefault g _).get? g = _
  rw [Dict.get?_setDefault, if_pos rfl, Dict.get?_empty, Option.getD_none]

theorem opened_unhinted (g : String) : Unhinted g (opened g) := by
  refine ⟨rfl, fun b hb => ?_⟩
  rw [opened_bucket] at hb
  cases hb
  exact ⟨rfl, rfl⟩

theorem market_info : groupOf "MARKET_INFO" = ⟨"MARKET_INFO", 3, none, none⟩ := by decide +kernel

theorem market_info_constant : Constant "MARKET_INFO" (3 : ℕ) := by
  intro wall
  rw [market_info]
  rfl

/-- Calls at these times, each of them granted at once. -/
def burst (g : String) (times : List ℚ) : List Event :=
  times.flatMap fun time => [.tick, .begin g 1, .acquired g 1 0 time]

/-- An empty bucket at time zero, as after all its requests at once. -/
def drained (g : String) : State where
  limiter := { buckets := Dict.insert ∅ g { group := groupOf g, tokens := 0, updated := 0 } }
  now := 0

theorem drained_bucket (g : String) :
    (drained g).limiter.buckets.get? g = some { group := groupOf g, tokens := 0, updated := 0 } :=
  Dict.get?_insert_self ..

theorem drained_unhinted (g : String) : Unhinted g (drained g) := by
  refine ⟨rfl, fun b hb => ?_⟩
  rw [drained_bucket] at hb
  cases hb
  exact ⟨rfl, rfl⟩

/-- A grant is dated by the clock. -/
theorem acquired_now {s w : State} {g : String} {n wall time : ℚ}
    (h : Steps s (.acquired g n wall time) w) : s.now = time := by
  generalize hlabel : Event.acquired g n wall time = a at h
  cases h with
  | acquired _ _ _ _ =>
    cases hlabel
    rfl
  | _ => cases hlabel

/-- The first token comes after 20/51 s, and then there is no other. -/
theorem drained_opensWith {back : List Event} {v : State} :
    OpensWith "MARKET_INFO" 0 (1 + 3 / 20 * (3 : ℕ)) (drained "MARKET_INFO")
      ([.tick, .begin "MARKET_INFO" 1] ++ .acquired "MARKET_INFO" 1 0 (20 / 51) :: back) v := by
  refine opensWith_of_first rfl (by decide +kernel) fun u w hrun hstep b hb => ?_
  obtain ⟨-, hstep⟩ := hstep
  have hnow : u.now = 20 / 51 := acquired_now hstep
  have hlimiter : u.limiter = (drained "MARKET_INFO").limiter := by
    cases hrun with
    | cons htick hrun =>
      cases hrun with
      | cons hbegin hrun =>
        cases hrun
        obtain ⟨-, htick⟩ := htick
        obtain ⟨-, hbegin⟩ := hbegin
        cases htick
        cases hbegin
        rfl
  rw [hlimiter, drained_bucket] at hb
  cases hb
  have hfound := found_later market_info_constant (by norm_num) 0 (drained_unhinted "MARKET_INFO")
    (drained_bucket _) rfl (show (0 : ℚ) ≤ 20 / 51 by norm_num)
  have hsame : found u { group := groupOf "MARKET_INFO", tokens := 0, updated := 0 } 0 =
      found { drained "MARKET_INFO" with now := (drained "MARKET_INFO").now + 20 / 51 }
        { group := groupOf "MARKET_INFO", tokens := 0, updated := 0 } 0 := by
    rw [found, found, hlimiter, hnow]
    norm_num [drained]
  rw [hsame, hfound]
  norm_num

/-- `MARKET_INFO`, three requests per second: in a second that opens with an empty bucket, and in
the first second of a full one. -/
theorem window_limit_drained :
    (∃ v, (system.restrict (Single "MARKET_INFO")).Run (drained "MARKET_INFO")
        (burst "MARKET_INFO" [20 / 51, 40 / 51]) v ∧
      grantsIn "MARKET_INFO" 0 (0 + 1) (burst "MARKET_INFO" [20 / 51, 40 / 51]) ≤ 3) ∧
    ∃ events v, (system.restrict (Single "MARKET_INFO")).Run (opened "MARKET_INFO") events v ∧
      3 < grantsIn "MARKET_INFO" 0 (0 + 1) events := by
  have hL : (1 : ℚ) ≤ (3 : ℕ) := by norm_num
  constructor
  · have hs := drained_unhinted "MARKET_INFO"
    obtain ⟨s₁, b₁, h₁, hb₁, hnow₁, hup₁, htok₁⟩ := acquire_round market_info_constant hL hs
      (drained_bucket _) rfl (by norm_num) (20 / 51) (by norm_num [drained])
    norm_num at htok₁
    obtain ⟨s₂, -, h₂, -, -, -, -⟩ := acquire_round market_info_constant hL (hs.run h₁) hb₁
      (hup₁.trans hnow₁.symm) (by norm_num [htok₁]) (40 / 51) (by norm_num [htok₁, hnow₁])
    have hrun : (system.restrict (Single "MARKET_INFO")).Run (drained "MARKET_INFO")
        (burst "MARKET_INFO" [20 / 51, 40 / 51]) s₂ := h₁.append h₂
    exact ⟨s₂, hrun, (window_limit market_info_constant (by norm_num)).1 _ _ s₂ hs hrun 0 drained_opensWith⟩
  · apply (window_limit market_info_constant (by norm_num)).2 _ _ 0 (opened_unhinted _) (opened_bucket _)
    decide +kernel

/-- Four calls of a group that is documented with three per second, the last one after
20/51 s: all four are granted. -/
theorem market_info_burst :
    Constant "MARKET_INFO" (3 : ℕ) ∧
      (∃ v, (system.restrict (Single "MARKET_INFO")).Run (opened "MARKET_INFO")
        (burst "MARKET_INFO" [0, 0, 0, 20 / 51]) v) ∧
      ¬ grantsIn "MARKET_INFO" 0 (0 + 1) (burst "MARKET_INFO" [0, 0, 0, 20 / 51]) ≤ 3 := by
  have hconst := market_info_constant
  have hL : (1 : ℚ) ≤ (3 : ℕ) := by norm_num
  have hs := opened_unhinted "MARKET_INFO"
  have htps : (groupOf "MARKET_INFO").tps = 3 := by
    rw [market_info]
  refine ⟨hconst, ?_, by decide +kernel⟩
  obtain ⟨s₁, b₁, h₁, hb₁, hnow₁, hup₁, htok₁⟩ := acquire_round hconst hL hs
    (opened_bucket _) rfl (by norm_num [htps]) 0 (by norm_num [htps, opened])
  norm_num [htps] at htok₁
  have hs₁ := hs.run h₁
  obtain ⟨s₂, b₂, h₂, hb₂, hnow₂, hup₂, htok₂⟩ := acquire_round hconst hL hs₁ hb₁
    (hup₁.trans hnow₁.symm) (by norm_num [htok₁]) 0 (by norm_num [htok₁, hnow₁])
  norm_num [htok₁] at htok₂
  have hs₂ := hs₁.run h₂
  obtain ⟨s₃, b₃, h₃, hb₃, hnow₃, hup₃, htok₃⟩ := acquire_round hconst hL hs₂ hb₂
    (hup₂.trans hnow₂.symm) (by norm_num [htok₂]) 0 (by norm_num [htok₂, hnow₂])
  norm_num [htok₂] at htok₃
  have hs₃ := hs₂.run h₃
  obtain ⟨s₄, -, h₄, -, -, -, -⟩ := acquire_round hconst hL hs₃ hb₃
    (hup₃.trans hnow₃.symm) (by norm_num [htok₃]) (20 / 51) (by norm_num [htok₃, hnow₃])
  exact ⟨s₄, h₁.append (h₂.append (h₃.append h₄))⟩

end Tqt.RateLimiter
