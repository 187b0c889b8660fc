import Mathlib.Logic.Function.Basic
import Tqt.Foundation.Lts

/-! Threads under one lock.

A process acts on a state that is shared and on a place of its own. When every thread runs the
process only while it holds the lock, and lets go of the lock at rest, the threads together do what
one process does: the place of the one process is the holder's (`Process.view`), and a run of the
threads is a run of the process with the names of the threads erased (`run_refines`). What one
process never does, any number of threads never do.

Labels that are the environment's happen at any time. They neither move a process nor depend on
where it is. -/
namespace Tqt

structure Process (σ π α : Type*) where
  step : σ → π → α → σ → π → Prop
  idle : π
  ambient : α → Prop
  unseen : ∀ {s p a s' p'}, ambient a → step s p a s' p' → p' = p ∧ ∀ q, step s q a s' q

/-- The shared state, who holds the lock, and where each thread is. -/
structure Threads (ι σ π : Type*) where
  shared : σ
  holder : Option ι := none
  place : ι → π

inductive ThreadEvent (ι α : Type*) where
  | acquire (i : ι)
  | release (i : ι)
  | own (i : ι) (a : α)
  | ambient (a : α)

namespace ThreadEvent
variable {ι α : Type*}

/-- The lock changes hands. -/
def isLock : ThreadEvent ι α → Bool
  | .acquire _ => true
  | .release _ => true
  | _ => false

/-- What is seen of the event without the lock and the names. -/
def label : ThreadEvent ι α → Option α
  | .own _ a => some a
  | .ambient a => some a
  | _ => none

end ThreadEvent

/-- What happened since the lock changed hands, latest first. -/
def turn {ι α : Type*} (events : List (ThreadEvent ι α)) : List (ThreadEvent ι α) :=
  events.reverse.takeWhile fun e => !e.isLock

theorem turn_snoc {ι α : Type*} (events : List (ThreadEvent ι α)) (e : ThreadEvent ι α) :
    turn (events ++ [e]) = if e.isLock then [] else e :: turn events := by
  rw [turn, List.reverse_append, List.reverse_singleton, List.singleton_append, List.takeWhile_cons]
  cases e.isLock <;> rfl

namespace Process
variable {ι σ π α : Type*} (P : Process σ π α)

/-- One process. -/
def lts : Lts (σ × π) α := ⟨fun x a y => P.step x.1 x.2 a y.1 y.2⟩

/-- The one process that the threads amount to. -/
def view (s : Threads ι σ π) : σ × π := (s.shared, s.holder.elim P.idle s.place)

theorem view_held {P : Process σ π α} {s : Threads ι σ π} {i : ι} (h : s.holder = some i) :
    P.view s = (s.shared, s.place i) := by
  rw [view, h]
  rfl

/-- Who does not hold the lock is at rest. -/
def Exclusive (s : Threads ι σ π) : Prop := ∀ i, s.holder ≠ some i → s.place i = P.idle

/-- At most one thread is not at rest. -/
theorem Exclusive.unique {P : Process σ π α} {s : Threads ι σ π} (h : P.Exclusive s) {i j : ι}
    (hi : s.place i ≠ P.idle) (hj : s.place j ≠ P.idle) : i = j := by
  have hholds {k : ι} (hk : s.place k ≠ P.idle) : s.holder = some k :=
    not_not.mp fun hne => hk (h k hne)
  exact Option.some.inj ((hholds hi).symm.trans (hholds hj))

/-- Since the lock changed hands, only its holder has moved. -/
def TurnOf (log : List (ThreadEvent ι α)) (s : Threads ι σ π) : Prop :=
  ∀ i a, .own i a ∈ turn log → s.holder = some i

variable [DecidableEq ι]

inductive Steps : Threads ι σ π → ThreadEvent ι α → Threads ι σ π → Prop where
  | acquire {s : Threads ι σ π} (i : ι) : s.holder = none →
      Steps s (.acquire i) { s with holder := some i }
  | release {s : Threads ι σ π} (i : ι) : s.holder = some i → s.place i = P.idle →
      Steps s (.release i) { s with holder := none }
  | own {s : Threads ι σ π} (i : ι) {a : α} {shared : σ} {p : π} : s.holder = some i →
      ¬ P.ambient a → P.step s.shared (s.place i) a shared p →
      Steps s (.own i a) { s with shared := shared, place := Function.update s.place i p }
  | ambient {s : Threads ι σ π} {a : α} {shared : σ} {p : π} : P.ambient a →
      P.step s.shared p a shared p → Steps s (.ambient a) { s with shared := shared }

/-- Any number of threads. -/
def threads (ι : Type*) [DecidableEq ι] : Lts (Threads ι σ π) (ThreadEvent ι α) := ⟨P.Steps⟩

variable {P} {s t : Threads ι σ π}

/-- **One event** of the threads is a step of the one process, or only the lock's. -/
theorem Exclusive.step (h : P.Exclusive s) {e : ThreadEvent ι α} (hstep : P.Steps s e t) :
    P.Exclusive t ∧ P.lts.Run (P.view s) e.label.toList (P.view t) := by
  cases hstep with
  | acquire i hfree =>
    have hrest : s.place i = P.idle := h i (by rw [hfree]; nofun)
    refine ⟨fun j _ => h j (by rw [hfree]; nofun), ?_⟩
    have hview : P.view { s with holder := some i } = P.view s := by
      rw [view, view, hfree]
      exact Prod.ext rfl hrest
    rw [hview]
    exact .nil _
  | release i hheld hrest =>
    have hview : P.view { s with holder := none } = P.view s := by
      rw [view, view, hheld]
      exact Prod.ext rfl hrest.symm
    refine ⟨fun j _ => ?_, hview ▸ .nil _⟩
    by_cases hj : j = i
    · rw [hj]
      exact hrest
    · exact h j (by rw [hheld]; exact fun heq => hj (Option.some.inj heq).symm)
  | own i hheld hown hstep =>
    refine ⟨fun j hj => ?_, .cons ?_ (.nil _)⟩
    · have hne : j ≠ i := fun heq => hj (heq ▸ hheld)
      exact (Function.update_of_ne hne _ _).trans (h j hj)
    · unfold view
      rw [hheld]
      simpa [lts] using hstep
  | ambient hambient hstep =>
    have hview : P.lts.step (P.view s) _ (P.view { s with shared := _ }) :=
      (P.unseen hambient hstep).2 _
    exact ⟨h, .cons hview (.nil _)⟩

/-- **The threads refine the process.** -/
theorem run_refines {events : List (ThreadEvent ι α)} (hrun : (P.threads ι).Run s events t)
    (h : P.Exclusive s) : P.Exclusive t ∧ P.lts.Run (P.view s) (events.filterMap (·.label)) (P.view t) := by
  induction hrun with
  | nil s => exact ⟨h, .nil _⟩
  | @cons s mid t e events hstep _ ih =>
    obtain ⟨hmid, hone⟩ := h.step hstep
    obtain ⟨ht, hrest⟩ := ih hmid
    refine ⟨ht, ?_⟩
    have hlabels : (e :: events).filterMap (·.label) =
        e.label.toList ++ events.filterMap (·.label) := by
      rw [List.filterMap_cons]
      cases e.label <;> rfl
    rw [hlabels]
    exact hone.append hrest

/-- **A thread that has the lock can do what the process can**: each run is one of the threads. -/
theorem run_of_process {i : ι} {x y : σ × π} {labels : List α} (hrun : P.lts.Run x labels y)
    (hheld : s.holder = some i) (hview : P.view s = x) :
    ∃ events t, (P.threads ι).Run s events t ∧ events.filterMap (·.label) = labels ∧ P.view t = y := by
  induction hrun generalizing s with
  | nil x => exact ⟨[], s, .nil s, rfl, hview⟩
  | @cons x mid y a labels hstep _ ih =>
    obtain ⟨shared, p⟩ := mid
    obtain rfl : (s.shared, s.place i) = x := (view_held hheld).symm.trans hview
    by_cases ha : P.ambient a
    · obtain rfl : p = s.place i := (P.unseen ha hstep).1
      have hmid : P.view { s with shared := shared } = (shared, s.place i) := view_held hheld
      obtain ⟨events, t, hevents, hlabels, ht⟩ := ih (s := { s with shared := shared }) hheld hmid
      exact ⟨.ambient a :: events, t, .cons (.ambient ha hstep) hevents, congrArg (a :: ·) hlabels, ht⟩
    · let mid : Threads ι σ π := { s with shared := shared, place := Function.update s.place i p }
      have hmid : P.view mid = (shared, p) :=
        (view_held (s := mid) hheld).trans (congrArg (shared, ·) (Function.update_self i p s.place))
      obtain ⟨events, t, hevents, hlabels, ht⟩ := ih (s := mid) hheld hmid
      exact ⟨.own i a :: events, t, .cons (.own i hheld ha hstep) hevents,
        congrArg (a :: ·) hlabels, ht⟩

/-- **The threads and the process have the same runs**, from a moment when the lock is free. -/
theorem run_iff [Nonempty ι] (hfree : s.holder = none) (h : P.Exclusive s) {labels : List α}
    {y : σ × π} : P.lts.Run (s.shared, P.idle) labels y ↔
      ∃ events t, (P.threads ι).Run s events t ∧ events.filterMap (·.label) = labels ∧ P.view t = y := by
  have hview : P.view s = (s.shared, P.idle) := by
    rw [view, hfree]
    rfl
  constructor
  · intro hrun
    obtain ⟨i⟩ := ‹Nonempty ι›
    have htake : P.Steps s (.acquire i) { s with holder := some i } := .acquire i hfree
    have hheld : P.view { s with holder := some i } = (s.shared, P.idle) := by
      have hrest : s.place i = P.idle := h i (by rw [hfree]; nofun)
      exact Prod.ext rfl hrest
    obtain ⟨events, t, hevents, hlabels, ht⟩ := run_of_process hrun rfl hheld
    exact ⟨.acquire i :: events, t, .cons htake hevents, hlabels, ht⟩
  · rintro ⟨events, t, hrun, rfl, rfl⟩
    have hmerged := (run_refines hrun h).2
    rwa [hview] at hmerged

theorem TurnOf.step {log : List (ThreadEvent ι α)} (h : TurnOf log s) {e : ThreadEvent ι α}
    (hstep : P.Steps s e t) : TurnOf (log ++ [e]) t := by
  intro j b hmem
  rw [turn_snoc] at hmem
  cases hstep with
  | acquire i hfree => cases hmem
  | release i hheld hrest => cases hmem
  | own i hheld hown hstep =>
    rcases List.mem_cons.mp hmem with heq | hmem
    · cases heq
      exact hheld
    · exact h j b hmem
  | ambient hambient hstep =>
    rcases List.mem_cons.mp hmem with heq | hmem
    · cases heq
    · exact h j b hmem

end Process
end Tqt
