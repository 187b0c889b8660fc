import Tqt.Foundation.Lts
import Tqt.Toss.Client
import Mathlib.Algebra.Order.Ring.Rat
import Mathlib.Logic.Function.Basic

/-! The bearer token and the requests that share it.

`token` and `invalidate` are what `TokenManager` does under its lock. Around them are the
requests of any number of threads: each reads the token, sends, and when the answer is that the
token is expired or invalid drops whatever is cached and tries again. The system counts what
comes of one moment from which the server rejects all tokens issued so far. A request that read
its token before and is answered after another one has been issued drops that one
(`stale_answer_drops`). As long as no token is issued while such a request is out, nothing is
dropped but what was rejected and the expiry costs one token (`one_reissue`). -/
namespace Tqt

/-- The cache; tokens are of any type. -/
structure TokenManager (τ : Type) where
  token : Option τ := none
  expiresAt : ℚ := 0
  margin : ℚ := 300
  issuedCount : ℕ := 0

/-- What the token endpoint answers: a token and `expires_in`, or what `_issue_locked` raises. -/
abbrev TokenReply (τ : Type) := Except TossError (τ × Option ℚ)

namespace TokenManager
variable {τ : Type} (m : TokenManager τ)

/-- `invalidate` -/
def invalidate : TokenManager τ := { m with token := none, expiresAt := 0 }

/-- The cached token while it is not about to expire. -/
def fresh (now : ℚ) : Option τ := m.token.filter fun _ => now < m.expiresAt - m.margin

/-- `_issue_locked`; `now` is the clock when the answer is there. -/
def issue (reply : TokenReply τ) (now : ℚ) : Except TossError τ × TokenManager τ :=
  match reply with
  | .error e => (.error e, m)
  | .ok (t, expiresIn) =>
    (.ok t, { m with
      token := some t
      expiresAt := now + (expiresIn.filter (· ≠ 0)).getD 3600
      issuedCount := m.issuedCount + 1 })

/-- `token`: the answer of the endpoint is asked for when nothing fresh is cached. -/
def read (now : ℚ) (reply : TokenReply τ) (later : ℚ) : Except TossError τ × TokenManager τ :=
  match m.fresh now with
  | some t => (.ok t, m)
  | none => m.issue reply later

theorem token_of_fresh {m : TokenManager τ} {now : ℚ} {t : τ} (h : m.fresh now = some t) :
    m.token = some t :=
  (Option.filter_eq_some_iff.mp h).1

theorem read_of_stale {m : TokenManager τ} {now : ℚ} (h : m.fresh now = none)
    (reply : TokenReply τ) (later : ℚ) : m.read now reply later = m.issue reply later := by
  rw [read, h]

theorem token_of_issued {m : TokenManager τ} {now : ℚ} (h : m.fresh now = none) (t : τ)
    (expiresIn : Option ℚ) (later : ℚ) : (m.read now (.ok (t, expiresIn)) later).2.token = some t := by
  rw [read_of_stale h, issue]

theorem token_of_failed {m : TokenManager τ} {now : ℚ} (h : m.fresh now = none) (e : TossError)
    (later : ℚ) : (m.read now (.error e) later).2.token = m.token := by
  rw [read_of_stale h, issue]

end TokenManager

namespace Tokens

/-! ### The system

A token is known by how many were issued before it. -/

/-- Where a request is, with the number of its attempt. -/
inductive Phase where
  | idle
  | ready (attempt : ℕ)
  | holding (attempt token : ℕ)
  | rejected (attempt token : ℕ)
deriving DecidableEq

/-- The manager, the clock, the server and the requests. `cutoff` is there once the moment has
come. What the expiry has come to is on record: for every token that was dropped the one that had
been rejected, and how many were issued for want of one that the server accepts. -/
structure State (θ : Type) where
  manager : TokenManager ℕ := {}
  now : ℚ := 0
  issued : ℕ := 0
  cutoff : Option ℕ := none
  phase : θ → Phase
  drops : List (ℕ × ℕ) := []
  replacements : ℕ := 0

inductive Event (θ : Type) where
  | tick
  | expire
  | begin (t : θ)
  | cached (t : θ) (token : ℕ)
  | issued (t : θ) (token : ℕ)
  | failed (t : θ)
  | rejected (t : θ) (token : ℕ)
  | again (t : θ)
  | ended (t : θ)
  | invalidated (t : θ) (token : ℕ)
  | raised (t : θ)

variable {θ : Type}

/-- After the moment, with nothing cached that the server accepts. -/
def State.Wanting (s : State θ) : Prop := ∃ c ∈ s.cutoff, ∀ k ∈ s.manager.token, k < c

instance (s : State θ) : Decidable s.Wanting :=
  inferInstanceAs (Decidable (∃ c ∈ s.cutoff, ∀ k ∈ s.manager.token, k < c))

section
variable [DecidableEq θ] (maxRetries : ℕ)

def State.set (s : State θ) (t : θ) (p : Phase) : State θ :=
  { s with phase := Function.update s.phase t p }

inductive Steps : State θ → Event θ → State θ → Prop where
  | tick {s : State θ} {now : ℚ} : s.now ≤ now → Steps s .tick { s with now := now }
  /-- The server rejects from now on what it has issued so far. -/
  | expire {s : State θ} : s.cutoff = none → Steps s .expire { s with cutoff := some s.issued }
  | begin {s : State θ} (t : θ) : s.phase t = .idle → Steps s (.begin t) (s.set t (.ready 1))
  | cached {s : State θ} {a k : ℕ} (t : θ) :
      s.phase t = .ready a → s.manager.fresh s.now = some k →
      Steps s (.cached t k) (s.set t (.holding a k))
  | issued {s : State θ} {a : ℕ} {later : ℚ} (t : θ) (expiresIn : Option ℚ) :
      s.phase t = .ready a → s.manager.fresh s.now = none → s.now ≤ later →
      Steps s (.issued t s.issued)
        { s.set t (.holding a s.issued) with
          manager := (s.manager.read s.now (.ok (s.issued, expiresIn)) later).2
          now := later
          issued := s.issued + 1
          replacements := s.replacements + if s.Wanting then 1 else 0 }
  /-- The request for a token fails, with or without one being issued; `token` raises. -/
  | failed {s : State θ} {a : ℕ} {later : ℚ} (t : θ) (e : TossError) (lost : Bool) :
      s.phase t = .ready a → s.manager.fresh s.now = none → s.now ≤ later →
      Steps s (.failed t)
        { s.set t .idle with
          manager := (s.manager.read s.now (.error e) later).2
          now := later
          issued := if lost then s.issued + 1 else s.issued }
  /-- 401 `expired-token` or `invalid-token`. -/
  | rejected {s : State θ} {a k c : ℕ} (t : θ) :
      s.phase t = .holding a k → s.cutoff = some c → k < c →
      Steps s (.rejected t k) (s.set t (.rejected a k))
  /-- The answer is lost, or another error that is worth a retry. -/
  | again {s : State θ} {a k : ℕ} (t : θ) :
      s.phase t = .holding a k → a ≤ maxRetries → Steps s (.again t) (s.set t (.ready (a + 1)))
  | ended {s : State θ} {a k : ℕ} (t : θ) :
      s.phase t = .holding a k → Steps s (.ended t) (s.set t .idle)
  | invalidated {s : State θ} {a k : ℕ} (t : θ) :
      s.phase t = .rejected a k → a ≤ maxRetries →
      Steps s (.invalidated t k)
        { s.set t (.ready (a + 1)) with
          manager := s.manager.invalidate
          drops := (s.manager.token.map fun d => (k, d)).toList ++ s.drops }
  /-- No attempt is left. -/
  | raised {s : State θ} {a k : ℕ} (t : θ) :
      s.phase t = .rejected a k → maxRetries < a → Steps s (.raised t) (s.set t .idle)

def system : Lts (State θ) (Event θ) := ⟨Steps maxRetries⟩

end

def start : State θ := { phase := fun _ => .idle }

/-- One expiry, one re-issue: nothing newer is dropped than what was rejected, and one token at
most is issued for the expiry, one exactly once a request has it. -/
structure OneReissue (s : State θ) : Prop where
  keeps : ∀ e ∈ s.drops, e.2 ≤ e.1
  atMost : s.replacements ≤ 1
  exactly : ∀ t a k c, s.cutoff = some c → s.phase t = .holding a k → c ≤ k → s.replacements = 1

/-- A request that has read a token which the server rejects, or may come to reject, with an
attempt left to handle the answer. -/
def Phase.Outstanding (maxRetries : ℕ) (cutoff : Option ℕ) (p : Phase) (k : ℕ) : Prop :=
  ∃ a, a ≤ maxRetries ∧ ((p = .holding a k ∧ ∀ c, cutoff = some c → k < c) ∨ p = .rejected a k)

/-- A token is issued only when no such request is out. -/
def Clear (maxRetries : ℕ) (s : State θ) : Event θ → Prop
  | .issued _ _ => ∀ t k, ¬ (s.phase t).Outstanding maxRetries s.cutoff k
  | _ => True

/-! ### What every run keeps -/

/-- The token of a request. -/
def Phase.token : Phase → Option ℕ
  | .holding _ k => some k
  | .rejected _ k => some k
  | _ => none

/-- Nothing is known that was not issued, and what is rejected was issued before the moment. -/
structure Sound (s : State θ) : Prop where
  held : ∀ t k, (s.phase t).token = some k → k < s.issued
  cached : ∀ k, s.manager.token = some k → k < s.issued
  cutoff : ∀ c, s.cutoff = some c → c ≤ s.issued
  rejected : ∀ t a k, s.phase t = .rejected a k → ∃ c, s.cutoff = some c ∧ k < c

theorem start_sound : Sound (start : State θ) :=
  ⟨fun _ _ h => (by cases h), fun _ h => (by cases h), fun _ h => (by cases h),
    fun _ _ _ h => (by cases h)⟩

/-- More tokens have been issued, and one of them may be cached. -/
theorem Sound.grow {s : State θ} (h : Sound s) {m : TokenManager ℕ} {now : ℚ}
    {issued replacements : ℕ} {drops : List (ℕ × ℕ)} (hissued : s.issued ≤ issued)
    (hcached : ∀ k, m.token = some k → k < issued) :
    Sound { s with
      manager := m, now := now, issued := issued, drops := drops, replacements := replacements } where
  held := fun t k hk => (h.held t k hk).trans_le hissued
  cached := hcached
  cutoff := fun c hc => (h.cutoff c hc).trans hissued
  rejected := h.rejected

section
variable [DecidableEq θ] {maxRetries : ℕ} {s u : State θ} {t : θ} {p : Phase}

/-- A request moves on. -/
theorem set_phase (q : Phase → Prop) (hp : q p) (hs : ∀ t', q (s.phase t')) (t' : θ) :
    q ((s.set t p).phase t') := by
  unfold State.set
  simp only [Function.update_apply]
  split
  · exact hp
  · exact hs t'

theorem Sound.set (h : Sound s) (t : θ) (hheld : ∀ k, p.token = some k → k < s.issued)
    (hrejected : ∀ a k, p = .rejected a k → ∃ c, s.cutoff = some c ∧ k < c) :
    Sound (s.set t p) where
  held := set_phase (fun p => ∀ k, p.token = some k → k < s.issued) hheld h.held
  cached := h.cached
  cutoff := h.cutoff
  rejected := set_phase (fun p => ∀ a k, p = .rejected a k → ∃ c, s.cutoff = some c ∧ k < c)
    hrejected h.rejected

/-- A request that holds nothing. -/
theorem Sound.setFree (h : Sound s) (t : θ) (hfree : p.token = none) : Sound (s.set t p) := by
  apply h.set
  · intro k hk
    rw [hfree] at hk
    cases hk
  · rintro a k rfl
    cases hfree

theorem Sound.step {a : Event θ} (h : Sound s) (hstep : (system maxRetries).step s a u) : Sound u := by
  cases hstep with
  | tick _ => exact ⟨h.held, h.cached, h.cutoff, h.rejected⟩
  | expire hnone =>
    refine ⟨h.held, h.cached, fun c hc => (Option.some.inj hc).ge, fun t a k hk => ?_⟩
    obtain ⟨c, hc, -⟩ := h.rejected t a k hk
    rw [hnone] at hc
    cases hc
  | begin t _ => exact h.setFree t rfl
  | cached t _ hfresh =>
    refine h.set t (fun k' hk' => ?_) fun _ _ heq => (by cases heq)
    cases hk'
    exact h.cached _ (TokenManager.token_of_fresh hfresh)
  | issued t expiresIn _ hstale _ =>
    have htoken := TokenManager.token_of_issued hstale s.issued expiresIn
    refine (h.grow (Nat.le_succ _) fun k hk => ?_).set t (fun k hk => ?_) fun _ _ heq => (by cases heq)
    · rw [htoken] at hk
      cases hk
      exact Nat.lt_succ_self _
    · cases hk
      exact Nat.lt_succ_self _
  | failed t e lost _ hstale _ =>
    have hissued : s.issued ≤ if lost then s.issued + 1 else s.issued := by split <;> omega
    refine (h.grow hissued fun k hk => ?_).setFree t rfl
    rw [TokenManager.token_of_failed hstale] at hk
    exact (h.cached k hk).trans_le hissued
  | rejected t hp hc hlt =>
    refine h.set t (fun k' hk' => ?_) fun _ _ heq => ?_
    · cases hk'
      exact h.held t _ (by rw [hp]; rfl)
    · cases heq
      exact ⟨_, hc, hlt⟩
  | again t _ _ => exact h.setFree t rfl
  | ended t _ => exact h.setFree t rfl
  | invalidated t _ _ => exact (h.grow le_rfl fun k hk => (by cases hk)).setFree t rfl
  | raised t _ _ => exact h.setFree t rfl

end

/-! ### What the condition keeps

No request that is out holds an older token than the cached one, so the token that replaces the
rejected ones is never dropped. -/

structure Guarded (maxRetries : ℕ) (s : State θ) : Prop where
  newest : ∀ t k, (s.phase t).Outstanding maxRetries s.cutoff k → ∀ d, s.manager.token = some d → d ≤ k
  keeps : ∀ e ∈ s.drops, e.2 ≤ e.1
  before : s.cutoff = none → s.replacements = 0
  after : ∀ c, s.cutoff = some c →
    (s.replacements = 0 ∧ (∀ k, s.manager.token = some k → k < c) ∧
        ∀ t a k, s.phase t = .holding a k → k < c) ∨
      (s.replacements = 1 ∧ ∃ k, s.manager.token = some k ∧ c ≤ k)

theorem start_guarded (maxRetries : ℕ) : Guarded maxRetries (start : State θ) :=
  ⟨fun _ _ _ _ h => (by cases h), fun _ h => (by cases h), fun _ => rfl, fun _ h => (by cases h)⟩

theorem Guarded.oneReissue {maxRetries : ℕ} {s : State θ} (h : Guarded maxRetries s) : OneReissue s where
  keeps := h.keeps
  atMost := by
    cases hcutoff : s.cutoff with
    | none => rw [h.before hcutoff]; exact Nat.zero_le 1
    | some c =>
      rcases h.after c hcutoff with ⟨hzero, -⟩ | ⟨hone, -⟩
      · rw [hzero]
        exact Nat.zero_le 1
      · exact hone.le
  exactly := by
    intro t a k c hc hp hle
    rcases h.after c hc with ⟨-, -, hheld⟩ | ⟨hone, -⟩
    · exact absurd hle (not_le.mpr (hheld t a k hp))
    · exact hone

theorem Phase.Outstanding.token {maxRetries : ℕ} {cutoff : Option ℕ} {p : Phase} {k : ℕ}
    (h : p.Outstanding maxRetries cutoff k) : p.token = some k := by
  obtain ⟨a, -, ⟨rfl, -⟩ | rfl⟩ := h
  · rfl
  · rfl

/-- Only the cached token counts of the manager. -/
theorem Guarded.congr {maxRetries : ℕ} {s : State θ} (h : Guarded maxRetries s) {m : TokenManager ℕ}
    {now : ℚ} {issued : ℕ} (htoken : m.token = s.manager.token) :
    Guarded maxRetries { s with manager := m, now := now, issued := issued } where
  newest := by
    rw [htoken]
    exact h.newest
  keeps := h.keeps
  before := h.before
  after := by
    rw [htoken]
    exact h.after

/-- The moment: every token that is known becomes one that is rejected. -/
theorem Guarded.expire {maxRetries : ℕ} {s : State θ} (h : Guarded maxRetries s)
    (hsound : Sound s) (hnone : s.cutoff = none) :
    Guarded maxRetries { s with cutoff := some s.issued } where
  newest := by
    rintro t k ⟨a, ha, hp⟩
    refine h.newest t k ⟨a, ha, hp.imp_left fun hholding => ⟨hholding.1, fun c hc => ?_⟩⟩
    rw [hnone] at hc
    cases hc
  keeps := h.keeps
  before := fun hc => (by cases hc)
  after := by
    intro c hc
    cases hc
    exact .inl ⟨h.before hnone, hsound.cached, fun t a k hp => hsound.held t k (by rw [hp]; rfl)⟩

section
variable [DecidableEq θ] {maxRetries : ℕ} {s u : State θ} {p : Phase}

theorem Guarded.set (h : Guarded maxRetries s) (t : θ)
    (hnewest : ∀ k, p.Outstanding maxRetries s.cutoff k → ∀ d, s.manager.token = some d → d ≤ k)
    (hheld : ∀ a k, p = .holding a k → s.manager.token = some k) :
    Guarded maxRetries (s.set t p) where
  newest := set_phase (fun p => ∀ k, p.Outstanding maxRetries s.cutoff k →
    ∀ d, s.manager.token = some d → d ≤ k) hnewest h.newest
  keeps := h.keeps
  before := h.before
  after := by
    intro c hc
    rcases h.after c hc with ⟨hzero, hcached, hbelow⟩ | hone
    · exact .inl ⟨hzero, hcached, set_phase (fun p => ∀ a k, p = .holding a k → k < c)
        (fun a k heq => hcached k (hheld a k heq)) hbelow⟩
    · exact .inr hone

theorem Guarded.setFree (h : Guarded maxRetries s) (t : θ) (hfree : p.token = none) :
    Guarded maxRetries (s.set t p) := by
  apply h.set
  · intro k hk
    rw [hk.token] at hfree
    cases hfree
  · rintro a k rfl
    cases hfree

/-- The new token is the only one that is out. -/
theorem Guarded.issued (h : Guarded maxRetries s) (hsound : Sound s) (t : θ) (a : ℕ)
    {m : TokenManager ℕ} {now : ℚ} (htoken : m.token = some s.issued)
    (hclear : ∀ t k, ¬ (s.phase t).Outstanding maxRetries s.cutoff k) :
    Guarded maxRetries { s.set t (.holding a s.issued) with
      manager := m, now := now, issued := s.issued + 1,
      replacements := s.replacements + if s.Wanting then 1 else 0 } where
  newest := by
    refine set_phase (fun p => ∀ k, p.Outstanding maxRetries s.cutoff k →
      ∀ d, m.token = some d → d ≤ k) ?_ fun t' k hk => absurd hk (hclear t' k)
    intro k hk d hd
    rw [htoken] at hd
    cases hd
    exact (Option.some.inj hk.token).le
  keeps := h.keeps
  before := by
    intro hnone
    have hnot : ¬ s.Wanting := by
      rintro ⟨c, hc, -⟩
      rw [show s.cutoff = none from hnone] at hc
      cases hc
    show s.replacements + _ = 0
    rw [if_neg hnot, h.before hnone]
  after := by
    intro c hc
    have hcutoff : s.cutoff = some c := hc
    refine .inr ⟨?_, s.issued, htoken, hsound.cutoff c hcutoff⟩
    show s.replacements + _ = 1
    rcases h.after c hcutoff with ⟨hzero, hcached, -⟩ | ⟨hone, k, hk, hle⟩
    · rw [hzero, if_pos ⟨c, hcutoff, hcached⟩]
    · have hnot : ¬ s.Wanting := by
        rintro ⟨c', hc', hbelow⟩
        rw [hcutoff] at hc'
        cases hc'
        exact absurd hle (not_le.mpr (hbelow k hk))
      rw [hone, if_neg hnot]

/-- What a rejected request drops was rejected with it. -/
theorem Guarded.invalidated (h : Guarded maxRetries s) (hsound : Sound s) {t : θ} {a k : ℕ}
    (hp : s.phase t = .rejected a k) (ha : a ≤ maxRetries) :
    Guarded maxRetries { s.set t (.ready (a + 1)) with
      manager := s.manager.invalidate
      drops := (s.manager.token.map fun d => (k, d)).toList ++ s.drops } where
  newest := fun _ _ _ d hd => (by cases hd)
  keeps := by
    intro e he
    rcases List.mem_append.mp he with he | he
    · rw [Option.mem_toList, Option.map_eq_some_iff] at he
      obtain ⟨d, hd, rfl⟩ := he
      exact h.newest t k ⟨a, ha, .inr hp⟩ d hd
    · exact h.keeps e he
  before := h.before
  after := by
    intro c hc
    rcases h.after c hc with ⟨hzero, -, hbelow⟩ | ⟨-, d, hd, hle⟩
    · exact .inl ⟨hzero, fun k hk => (by cases hk), set_phase (fun p => ∀ a k, p = .holding a k → k < c)
        (fun _ _ heq => (by cases heq)) hbelow⟩
    · have hdk : d ≤ k := h.newest t k ⟨a, ha, .inr hp⟩ d hd
      obtain ⟨c', hc', hlt⟩ := hsound.rejected t a k hp
      rw [show s.cutoff = some c from hc] at hc'
      cases hc'
      omega

theorem Guarded.step {a : Event θ} (h : Guarded maxRetries s) (hsound : Sound s)
    (hclear : Clear maxRetries s a) (hstep : (system maxRetries).step s a u) : Guarded maxRetries u := by
  cases hstep with
  | tick _ => exact h.congr rfl
  | expire hnone => exact h.expire hsound hnone
  | begin t _ => exact h.setFree t rfl
  | cached t _ hfresh =>
    have htoken := TokenManager.token_of_fresh hfresh
    refine h.set t (fun k' hk' d hd => ?_) fun a' k' heq => ?_
    · rw [htoken] at hd
      cases hd
      exact (Option.some.inj hk'.token).le
    · cases heq
      exact htoken
  | issued t expiresIn _ hstale _ =>
    exact h.issued hsound t _ (TokenManager.token_of_issued hstale s.issued expiresIn _) hclear
  | failed t e lost _ hstale _ =>
    exact (h.setFree t rfl).congr (TokenManager.token_of_failed hstale e _)
  | rejected t hp hc hlt =>
    refine h.set t (fun k' hk' d hd => ?_) fun _ _ heq => (by cases heq)
    obtain ⟨_, ha, ⟨heq, -⟩ | heq⟩ := hk'
    · cases heq
    · cases heq
      refine h.newest t _ ⟨_, ha, .inl ⟨hp, fun c' hc' => ?_⟩⟩ d hd
      rw [hc] at hc'
      cases hc'
      exact hlt
  | again t _ _ => exact h.setFree t rfl
  | ended t _ => exact h.setFree t rfl
  | invalidated t hp ha => exact h.invalidated hsound hp ha
  | raised t _ _ => exact h.setFree t rfl

/-- **One expiry, one re-issue**, in every run whose tokens are issued while no request is out
that read an older one. -/
theorem one_reissue (maxRetries : ℕ) {events : List (Event θ)} {s : State θ}
    (hrun : ((system maxRetries).restrict (Clear maxRetries)).Run start events s) : OneReissue s := by
  have hstart : Sound (start : State θ) ∧ Guarded maxRetries (start : State θ) :=
    ⟨start_sound, start_guarded maxRetries⟩
  have hstep : ∀ (s : State θ) a u, (Sound s ∧ Guarded maxRetries s) →
      ((system maxRetries).restrict (Clear maxRetries)).step s a u →
      Sound u ∧ Guarded maxRetries u := by
    rintro s a u ⟨hsound, hguarded⟩ ⟨hclear, hstep⟩
    exact ⟨hsound.step hstep, hguarded.step hsound hclear hstep⟩
  exact (hrun.invariant hstep hstart).2.oneReissue

/-! ### Stale answers -/

/-- A request that is answered 401 drops what is cached by then. -/
theorem invalidated_drops {t : θ} {a k d : ℕ} (hp : s.phase t = .rejected a k) (ha : a ≤ maxRetries)
    (htoken : s.manager.token = some d) (hnewer : k < d) :
    ∃ u, (system maxRetries).Run s [.invalidated t k] u ∧ ¬ OneReissue u := by
  refine ⟨_, .cons (.invalidated t hp ha) (.nil _), fun h => ?_⟩
  have hdrop := h.keeps (k, d) (by rw [htoken]; exact List.mem_cons_self ..)
  exact absurd hdrop (not_le.mpr hnewer)

/-- A request that the server rejects does the same. -/
theorem rejected_drops {t : θ} {a k c d : ℕ} (hp : s.phase t = .holding a k) (ha : a ≤ maxRetries)
    (hc : s.cutoff = some c) (hlt : k < c) (htoken : s.manager.token = some d) (hnewer : k < d) :
    ∃ events u, (system maxRetries).Run s events u ∧ ¬ OneReissue u := by
  have hphase : (s.set t (.rejected a k)).phase t = .rejected a k := Function.update_self ..
  obtain ⟨u, hrun, hbad⟩ := invalidated_drops (s := s.set t (.rejected a k)) hphase ha htoken hnewer
  exact ⟨_, u, .cons (.rejected t hp hc hlt) hrun, hbad⟩

/-- A request that is out may be rejected, if need be after the moment has come. -/
theorem outstanding_drops {t : θ} {k d : ℕ} (hs : Sound s)
    (hout : (s.phase t).Outstanding maxRetries s.cutoff k) (htoken : s.manager.token = some d)
    (hnewer : k < d) : ∃ events u, (system maxRetries).Run s events u ∧ ¬ OneReissue u := by
  have hissued : k < s.issued := hs.held t k hout.token
  obtain ⟨a, ha, ⟨hp, hbelow⟩ | hp⟩ := hout
  · cases hcutoff : s.cutoff with
    | none =>
      have hmoment : ({ s with cutoff := some s.issued } : State θ).phase t = .holding a k := hp
      obtain ⟨events, u, hrun, hbad⟩ := rejected_drops hmoment ha rfl hissued htoken hnewer
      exact ⟨_, u, .cons (.expire hcutoff) hrun, hbad⟩
    | some c => exact rejected_drops hp ha hcutoff (hbelow c hcutoff) htoken hnewer
  · obtain ⟨u, hrun, hbad⟩ := invalidated_drops hp ha htoken hnewer
    exact ⟨_, u, hrun, hbad⟩

/-- **The condition leaves nothing out**: a token that is issued while an older one is out can be
dropped by the answer to it. -/
theorem stale_answer_drops {t : θ} {k : ℕ} (hs : Sound s)
    (hstep : (system maxRetries).step s (.issued t k) u)
    (hstale : ¬ Clear maxRetries s (.issued t k)) :
    ∃ events v, (system maxRetries).Run u events v ∧ ¬ OneReissue v := by
  simp only [Clear, not_forall, not_not] at hstale
  obtain ⟨t', k', hout⟩ := hstale
  have hu : Sound u := hs.step hstep
  cases hstep with
  | @issued a later _ expiresIn hp hnone _ =>
    have hne : t' ≠ t := by
      rintro rfl
      rw [hp] at hout
      cases hout.token
    have hnewer : k' < s.issued := hs.held t' k' hout.token
    have hphase : (s.set t (.holding a s.issued)).phase t' = s.phase t' :=
      Function.update_of_ne hne _ _
    rw [← hphase] at hout
    exact outstanding_drops hu hout (TokenManager.token_of_issued hnone s.issued expiresIn later)
      hnewer

end

/-! ### Two requests -/

/-- Requests that hold no token are not out. -/
theorem not_outstanding {maxRetries : ℕ} {s : State θ} (h : ∀ t, (s.phase t).token = none) (t : θ)
    (k : ℕ) : ¬ (s.phase t).Outstanding maxRetries s.cutoff k := by
  intro hout
  have htoken := hout.token
  rw [h t] at htoken
  cases htoken

/-- Both handle the rejection before one of them asks for a new token. -/
def orderly : List (Event Bool) :=
  [.begin false, .issued false 0, .begin true, .cached true 0, .expire, .rejected false 0,
    .rejected true 0, .invalidated false 0, .invalidated true 0, .issued false 1, .cached true 1]

theorem orderly_reissues_once :
    ∃ s, ((system 4).restrict (Clear 4)).Run (start : State Bool) orderly s ∧ OneReissue s := by
  have hrun : ∃ s, ((system 4).restrict (Clear 4)).Run (start : State Bool) orderly s :=
    ⟨_, .cons ⟨trivial, .begin false rfl⟩ <|
      .cons ⟨not_outstanding (by decide), .issued false none rfl rfl le_rfl⟩ <|
      .cons ⟨trivial, .begin true rfl⟩ <| .cons ⟨trivial, .cached true rfl (by decide +kernel)⟩ <|
      .cons ⟨trivial, .expire rfl⟩ <| .cons ⟨trivial, .rejected false rfl rfl (by decide)⟩ <|
      .cons ⟨trivial, .rejected true rfl rfl (by decide)⟩ <|
      .cons ⟨trivial, .invalidated false rfl (by decide)⟩ <|
      .cons ⟨trivial, .invalidated true rfl (by decide)⟩ <|
      .cons ⟨not_outstanding (by decide), .issued false none rfl rfl le_rfl⟩ <|
      .cons ⟨trivial, .cached true rfl (by decide +kernel)⟩ <| .nil _⟩
  obtain ⟨s, hrun⟩ := hrun
  exact ⟨s, hrun, one_reissue 4 hrun⟩

/-- One of them has its new token when the other one handles the rejection, and drops it. -/
def crossed : List (Event Bool) :=
  [.begin false, .issued false 0, .begin true, .cached true 0, .expire, .rejected false 0,
    .rejected true 0, .invalidated false 0, .issued false 1, .invalidated true 0, .issued true 2]

theorem crossed_reissues_twice :
    ∃ s, (system 4).Run (start : State Bool) crossed s ∧
      (0, 1) ∈ s.drops ∧ s.replacements = 2 ∧ ¬ OneReissue s := by
  have hrun : ∃ s, (system 4).Run (start : State Bool) crossed s ∧
      (0, 1) ∈ s.drops ∧ s.replacements = 2 :=
    ⟨_, .cons (.begin false rfl) <| .cons (.issued false none rfl rfl le_rfl) <|
      .cons (.begin true rfl) <| .cons (.cached true rfl (by decide +kernel)) <| .cons (.expire rfl) <|
      .cons (.rejected false rfl rfl (by decide)) <| .cons (.rejected true rfl rfl (by decide)) <|
      .cons (.invalidated false rfl (by decide)) <| .cons (.issued false none rfl rfl le_rfl) <|
      .cons (.invalidated true rfl (by decide)) <| .cons (.issued true none rfl rfl le_rfl) <|
      .nil _, by decide +kernel, by decide +kernel⟩
  obtain ⟨s, hrun, hdrop, htwice⟩ := hrun
  refine ⟨s, hrun, hdrop, htwice, fun h => ?_⟩
  have honce := h.atMost
  omega

end Tokens
end Tqt
