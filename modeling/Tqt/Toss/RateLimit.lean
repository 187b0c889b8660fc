import Tqt.Foundation.Dict
import Tqt.Foundation.Lts
import Tqt.Foundation.TokenBucket
import Mathlib.Data.Rat.Defs
import Mathlib.Algebra.Order.Ring.Rat

/-! Token-bucket rate limiting, one bucket per API group.

Floats are rationals here. `tryAcquire`, `observeHeaders` and `penalize` are what the
source does under the bucket's lock; the threads around them are the system at the end,
where any call may be between any two of its iterations while others run and the clock
moves on. A wall-clock time is in seconds since midnight in Korea. -/
namespace Tqt

/-- A documented rate-limit group; `peakTps` applies inside `peakWindow`. -/
structure Group where
  name : String
  tps : ℚ
  peakTps : Option ℚ := none
  peakWindow : Option (ℚ × ℚ) := none
deriving DecidableEq

def Group.limitAt (g : Group) (wall : ℚ) : ℚ :=
  match g.peakTps, g.peakWindow with
  | some peak, some (start, stop) => if start ≤ wall ∧ wall ≤ stop then peak else g.tps
  | _, _ => g.tps

def openWindow : ℚ × ℚ := (9 * 3600, 9 * 3600 + 600)

/-- The published table, in requests per second. -/
def groups : List Group :=
  [⟨"AUTH", 5, none, none⟩, ⟨"ACCOUNT", 1, none, none⟩, ⟨"ASSET", 5, none, none⟩,
    ⟨"STOCK", 5, none, none⟩, ⟨"STOCK_ALL", 1, none, none⟩,
    ⟨"STOCK_TRADING_TREND", 10, none, none⟩, ⟨"MARKET_INFO", 3, none, none⟩,
    ⟨"MARKET_DATA", 15, none, none⟩, ⟨"MARKET_DATA_CHART", 20, none, none⟩,
    ⟨"RANKING", 5, none, none⟩, ⟨"MARKET_INDICATOR_PRICE", 10, none, none⟩,
    ⟨"MARKET_INDICATOR", 10, none, none⟩, ⟨"MARKET_INDICATOR_CHART", 5, none, none⟩,
    ⟨"ORDER", 10, some 10, some openWindow⟩, ⟨"ORDER_HISTORY", 5, none, none⟩,
    ⟨"ORDER_INFO", 6, some 3, some openWindow⟩, ⟨"CONDITIONAL_ORDER", 5, none, none⟩,
    ⟨"CONDITIONAL_ORDER_HISTORY", 10, none, none⟩]

/-- An unknown group gets one request per second. -/
def groupOf (name : String) : Group :=
  (groups.find? fun g => g.name = name).getD ⟨name, 1, none, none⟩

structure Bucket extends TokenBucket ℚ where
  group : Group
  serverLimit : Option ℚ := none

def safetyFactor : ℚ := 85 / 100

namespace Bucket
variable (safety wall : ℚ) (b : Bucket)

/-- The limit in force, after peak window and server hints. -/
def limit : ℚ :=
  match b.serverLimit with
  | some l => if l = 0 then b.group.limitAt wall else min (b.group.limitAt wall) l
  | none => b.group.limitAt wall

/-- Refill rate in tokens per second. -/
def rate : ℚ := max (b.limit wall * safety) (5 / 100)

/-- The burst allowance; never below one token. -/
def capacity : ℚ := max (b.limit wall) 1

/-- The bucket as an iteration of `acquire` for `n` tokens first brings it up to date. -/
def brought (now n : ℚ) : Bucket :=
  { b with
    toTokenBucket := b.toTokenBucket.refill (max (b.capacity wall) n) (b.rate safety wall) now }

/-- One iteration of `acquire`: the tokens are taken, or it sleeps for so long. -/
def tryAcquire (now n : ℚ) : Bucket × Option ℚ :=
  let b' := b.brought safety wall now n
  if n ≤ b'.tokens then ({ b' with toTokenBucket := b'.toTokenBucket.take n }, none)
  else (b', some (max ((n - b'.tokens) / b.rate safety wall) (5 / 1000)))

/-- `observe_headers`, once the header is parsed; `none` is no header or not a number. -/
def observeHeaders (header : Option ℚ) : Bucket :=
  match header with
  | none => b
  | some l =>
    if l ≤ 0 then b
    else
      { b with
        toTokenBucket := b.toTokenBucket.clamp (l * safety)
        serverLimit := some l }

/-- `penalize`: empty the bucket and push `updated` into the future. -/
def penalize (now : ℚ) (retryAfter : Option ℚ) : Bucket :=
  { b with
    toTokenBucket := TokenBucket.drain <|
      match retryAfter with
      | some r => if 0 < r then now + r else b.updated
      | none => b.updated }

end Bucket

structure RateLimiter where
  safety : ℚ := safetyFactor
  buckets : Dict String Bucket := ∅
  waitedSeconds : ℚ := 0

namespace RateLimiter

/-- `_bucket`: the bucket of a group is made, full, when it is first asked for. -/
def register (name : String) (now : ℚ) (lim : RateLimiter) : RateLimiter :=
  { lim with
    buckets := lim.buckets.setDefault name
      { group := groupOf name, tokens := (groupOf name).tps, updated := now } }

def set (name : String) (b : Bucket) (lim : RateLimiter) : RateLimiter :=
  { lim with buckets := lim.buckets.insert name b }

/-! ### The threads -/

/-- A thread inside `acquire`. -/
structure Call where
  group : String
  tokens : ℚ
  waited : ℚ := 0

structure State where
  limiter : RateLimiter
  now : ℚ
  calls : List Call := []

/-- The steps, by what an observer sees of them. `wait` and `acquired` are the iterations of
`acquire`: the ones that go to sleep and the last one. -/
inductive Event where
  | tick
  | register (group : String)
  | begin (group : String) (tokens : ℚ)
  | wait (group : String) (tokens wall : ℚ)
  | acquired (group : String) (tokens wall time : ℚ)
  | penalize (group : String) (retryAfter : Option ℚ)
  | observe (group : String) (header : Option ℚ)

inductive Steps : State → Event → State → Prop where
  | tick {s : State} {now : ℚ} : s.now ≤ now → Steps s .tick { s with now := now }
  /-- `_bucket`, which every operation starts with. -/
  | register {s : State} (name : String) :
      Steps s (.register name) { s with limiter := s.limiter.register name s.now }
  | begin {s : State} {b : Bucket} (name : String) (n : ℚ) :
      s.limiter.buckets.get? name = some b →
      Steps s (.begin name n) { s with calls := s.calls ++ [⟨name, n, 0⟩] }
  | wait {s : State} {front back : List Call} {c : Call} {b b' : Bucket} {sleep : ℚ} (wall : ℚ) :
      s.calls = front ++ c :: back → s.limiter.buckets.get? c.group = some b →
      b.tryAcquire s.limiter.safety wall s.now c.tokens = (b', some sleep) →
      Steps s (.wait c.group c.tokens wall)
        { s with
          limiter := s.limiter.set c.group b'
          calls := front ++ { c with waited := c.waited + sleep } :: back }
  | acquired {s : State} {front back : List Call} {c : Call} {b b' : Bucket} (wall : ℚ) :
      s.calls = front ++ c :: back → s.limiter.buckets.get? c.group = some b →
      b.tryAcquire s.limiter.safety wall s.now c.tokens = (b', none) →
      Steps s (.acquired c.group c.tokens wall s.now)
        { s with
          limiter := { s.limiter.set c.group b' with
            waitedSeconds := s.limiter.waitedSeconds + c.waited }
          calls := front ++ back }
  | penalize {s : State} {b : Bucket} (name : String) (retryAfter : Option ℚ) :
      s.limiter.buckets.get? name = some b →
      Steps s (.penalize name retryAfter)
        { s with limiter := s.limiter.set name (b.penalize s.now retryAfter) }
  | observe {s : State} {b : Bucket} (name : String) (header : Option ℚ) :
      s.limiter.buckets.get? name = some b →
      Steps s (.observe name header)
        { s with limiter := s.limiter.set name (b.observeHeaders s.limiter.safety header) }

def system : Lts State Event := ⟨Steps⟩

/-! ### What an iteration can do -/

section
variable {safety wall now n : ℚ} {b b' : Bucket}

/-- An iteration that ends the call found the tokens. -/
theorem tryAcquire_none (h : b.tryAcquire safety wall now n = (b', none)) :
    n ≤ (b.brought safety wall now n).tokens ∧
      b'.toTokenBucket = (b.brought safety wall now n).toTokenBucket.take n := by
  unfold Bucket.tryAcquire at h
  simp only at h
  split at h
  · next hn =>
    cases h
    exact ⟨hn, rfl⟩
  · cases h

theorem tryAcquire_some {sleep : ℚ} (h : b.tryAcquire safety wall now n = (b', some sleep)) :
    b' = b.brought safety wall now n := by
  unfold Bucket.tryAcquire at h
  simp only at h
  split at h <;> cases h
  rfl

theorem rate_pos : 0 < b.rate safety wall :=
  lt_of_lt_of_le (by norm_num) (le_max_right _ _)

end
end RateLimiter
end Tqt
