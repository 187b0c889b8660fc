import Tqt.Foundation.Mutex
import Tqt.Runner.KillSwitch

/-! The scheduler's threads and the operator's.

`cycle` runs under the runner's lock: the scheduler's jobs for Korea and the United States, the
Telegram thread's `/rebalance` and a caller of their own share one account, one kill switch and one
order budget, and each carries its own snapshot through its own cycle. Behind the lock they amount
to one cycle after the other (`cycles_serialized`), so that what is proved of `cycleSystem` holds of
any number of threads. The operator's words, the clock and the exchange wait for no lock. -/
namespace Tqt.Runner

/-- What the threads share. -/
structure Shared (β : Type) where
  broker : β
  store : Store
  risk : RiskManager
  now : Instant

/-- A thread's view of the runner while it is at `phase`. -/
def Shared.within {β : Type} (s : Shared β) (phase : Phase) : System β where
  broker := s.broker
  store := s.store
  risk := s.risk
  now := s.now
  phase := phase

def System.shared {β : Type} (s : System β) : Shared β := ⟨s.broker, s.store, s.risk, s.now⟩

/-- The steps that no cycle takes. -/
def Step.isAmbient : Step → Prop
  | .halt _ => True
  | .resume => True
  | .tick => True
  | .exchange => True
  | .write => True
  | _ => False

section
variable {β : Type} (B : BrokerModel β)

/-- One call of `_cycle`. -/
def cycleProcess : Process (Shared β) Phase Step where
  step s p a s' p' := Steps B (s.within p) a (s'.within p')
  idle := .idle
  ambient := Step.isAmbient
  unseen := by
    rintro s p a ⟨broker', store', risk', now'⟩ p' hambient hstep
    obtain ⟨t, ht⟩ : ∃ t, t = Shared.within ⟨broker', store', risk', now'⟩ p' :=
      ⟨_, rfl⟩
    rw [← ht] at hstep
    cases hstep with
    | halt reason =>
      cases ht
      exact ⟨rfl, fun q => Steps.halt (s := s.within q) reason⟩
    | resume =>
      cases ht
      exact ⟨rfl, fun q => Steps.resume (s := s.within q)⟩
    | tick hnow =>
      cases ht
      exact ⟨rfl, fun q => Steps.tick (s := s.within q) hnow⟩
    | exchange hevolve =>
      cases ht
      exact ⟨rfl, fun q => Steps.exchange (s := s.within q) hevolve⟩
    | write hswitch =>
      cases ht
      exact ⟨rfl, fun q => Steps.write (s := s.within q) hswitch⟩
    | _ => exact hambient.elim

variable {B}

theorem run_within {x y : Shared β × Phase} {steps : List Step}
    (hrun : (cycleProcess B).lts.Run x steps y) :
    (cycleSystem B).Run (x.1.within x.2) steps (y.1.within y.2) := by
  induction hrun with
  | nil x => exact .nil _
  | cons hstep _ ih => exact .cons hstep ih

theorem run_process {s t : System β} {steps : List Step} (hrun : (cycleSystem B).Run s steps t) :
    (cycleProcess B).lts.Run (s.shared, s.phase) steps (t.shared, t.phase) := by
  induction hrun with
  | nil s => exact .nil _
  | @cons s mid t a steps hstep _ ih =>
    have hone : (cycleProcess B).lts.step (s.shared, s.phase) a (mid.shared, mid.phase) := hstep
    exact .cons hone ih

/-- A cycle gets past its gate through its gate. -/
theorem gate_first {s t : System β} {a : Step} (hstep : Steps B s a t) (hown : ¬ a.isAmbient) :
    t.phase.beforeGate ∨ a = .gate ∨ ¬ s.phase.beforeGate := by
  cases hstep with
  | begin _ _ => exact .inl trivial
  | gate _ _ => exact .inr (.inl rfl)
  | skip _ => exact .inl trivial
  | plan _ _ _ hphase => exact .inr (.inr (hphase ▸ nofun))
  | check _ hphase _ => exact .inr (.inr (hphase ▸ nofun))
  | submit hphase => exact .inr (.inr (hphase ▸ nofun))
  | answer hphase _ => exact .inr (.inr (hphase ▸ nofun))
  | refresh hphase _ => exact .inr (.inr (hphase ▸ nofun))
  | finish _ => exact .inl trivial
  | abort => exact .inl trivial
  | halt _ => exact absurd trivial hown
  | resume => exact absurd trivial hown
  | tick _ => exact absurd trivial hown
  | exchange _ => exact absurd trivial hown
  | write _ => exact absurd trivial hown

theorem submit_past {s t : System β} {intent : OrderIntent} (hstep : Steps B s (.submit intent) t) :
    ¬ s.phase.beforeGate := by
  cases hstep with
  | submit hphase => exact hphase ▸ nofun

/-! ### Turns -/

section
variable {ι : Type}

/-- The runner as the cycle that has the lock sees it, or at rest. -/
def merged (s : Threads ι (Shared β) Phase) : System β :=
  s.shared.within (s.holder.elim .idle s.place)

/-- The threads and what they have done: who holds the lock has had its turn to itself, and has
passed its gate in it if it is past one. -/
structure TakingTurns (log : List (ThreadEvent ι Step)) (s : Threads ι (Shared β) Phase) : Prop where
  exclusive : (cycleProcess B).Exclusive s
  turn : Process.TurnOf log s
  gated : ∀ i, s.holder = some i → ¬ (s.place i).beforeGate → .own i .gate ∈ Tqt.turn log

/-- Nobody is in a cycle. -/
structure AtRest (s : Threads ι (Shared β) Phase) : Prop where
  free : s.holder = none
  idle : ∀ i, s.place i = .idle

theorem AtRest.takingTurns {s : Threads ι (Shared β) Phase} (h : AtRest s) : TakingTurns (B := B) [] s :=
  ⟨fun i _ => h.idle i, nofun, fun i hholder => by rw [h.free] at hholder; cases hholder⟩

variable [DecidableEq ι] {log : List (ThreadEvent ι Step)} {s t : Threads ι (Shared β) Phase}

theorem TakingTurns.step (h : TakingTurns (B := B) log s) {e : ThreadEvent ι Step}
    (hstep : (cycleProcess B).Steps s e t) : TakingTurns (B := B) (log ++ [e]) t := by
  refine ⟨(h.exclusive.step hstep).1, h.turn.step hstep, fun i hholder hpast => ?_⟩
  rw [turn_snoc]
  cases hstep with
  | acquire j hfree =>
    -- Whoever takes the lock is at rest.
    have hrest : s.place i = .idle := h.exclusive i (by rw [hfree]; nofun)
    simp only [hrest] at hpast
    exact absurd trivial hpast
  | release j hheld hrest => cases hholder
  | own j hheld hown hstep =>
    obtain rfl : j = i := Option.some.inj (hheld.symm.trans hholder)
    simp only [Function.update_self] at hpast
    rcases gate_first hstep hown with hbefore | rfl | hpast'
    · exact absurd hbefore hpast
    · exact List.mem_cons_self ..
    · exact List.mem_cons_of_mem _ (h.gated j hheld hpast')
  | ambient hambient hstep => exact List.mem_cons_of_mem _ (h.gated i hholder hpast)

theorem TakingTurns.run {events : List (ThreadEvent ι Step)}
    (hrun : ((cycleProcess B).threads ι).Run s events t) (h : TakingTurns (B := B) log s) :
    TakingTurns (B := B) (log ++ events) t := by
  induction hrun generalizing log with
  | nil s =>
    rw [List.append_nil]
    exact h
  | @cons s mid t e events hstep _ ih =>
    rw [show log ++ e :: events = log ++ [e] ++ events by simp]
    exact ih (h.step hstep)

end

/-- **Cycles do not interleave.** From a moment when no cycle is running, what any number of threads
do is what one cycle after the other does, and all of that. Never are two threads in a cycle, and an
order is submitted in a turn in which its thread has passed the gate and no other thread has moved. -/
theorem cycles_serialized {ι : Type} [DecidableEq ι] [Nonempty ι]
    {s : Threads ι (Shared β) Phase} (hrest : AtRest s) :
    (∀ steps u, (cycleSystem B).Run (merged s) steps u ↔ ∃ events t,
        ((cycleProcess B).threads ι).Run s events t ∧ events.filterMap (·.label) = steps ∧
          merged t = u) ∧
      ∀ events t, ((cycleProcess B).threads ι).Run s events t →
        (∀ i j, t.place i ≠ .idle → t.place j ≠ .idle → i = j) ∧
        ∀ front i intent back, events = front ++ .own i (.submit intent) :: back →
          .own i .gate ∈ turn front ∧ ∀ j a, .own j a ∈ turn front → j = i := by
  have hstart : TakingTurns (B := B) [] s := hrest.takingTurns
  have hmerged : merged s = s.shared.within .idle := by rw [merged, hrest.free, Option.elim_none]
  refine ⟨fun steps u => ?_, fun events t hrun => ⟨fun i j => ?_, ?_⟩⟩
  · rw [hmerged]
    constructor
    · intro hrun
      obtain ⟨events, t, hevents, hsteps, ht⟩ :=
        (Process.run_iff hrest.free hstart.exclusive).mp (run_process hrun)
      exact ⟨events, t, hevents, hsteps, congrArg (fun x => x.1.within x.2) ht⟩
    · rintro ⟨events, t, hevents, hsteps, rfl⟩
      exact run_within ((Process.run_iff hrest.free hstart.exclusive).mpr ⟨events, t, hevents, hsteps, rfl⟩)
  · exact (Process.run_refines hrun hstart.exclusive).1.unique
  · rintro front i intent back rfl
    obtain ⟨mid, hfront, hback⟩ := hrun.split
    have hturns : TakingTurns (B := B) front mid := .run hfront hstart
    cases hback with
    | cons hstep _ =>
      cases hstep with
      | own i hheld hown hstep =>
        refine ⟨hturns.gated i hheld (submit_past hstep), fun j a hmem => ?_⟩
        exact Option.some.inj ((hturns.turn j a hmem).symm.trans hheld)

end

/-! ### Two threads -/

/-- The scheduler's thread and Telegram's, before anything happened. -/
def twoThreads : Threads Bool (Shared Unit) Phase where
  shared := ⟨(), atRest.store, atRest.risk, atRest.now⟩
  place _ := .idle

/-- The operator halts while an order is being planned, and it is submitted all the same: some thread
can be at that, and where it is, it is alone. -/
theorem cycles_serialized_two :
    ∃ events t, ((cycleProcess pendingBroker).threads Bool).Run twoThreads events t ∧
      events.filterMap (·.label) = planning ++ [.halt (.given "stop"), .check, .submit tenShares] ∧
      ∀ i j, t.place i ≠ .idle → t.place j ≠ .idle → i = j := by
  obtain ⟨risk, hcheck⟩ := check_passes ⟨true, none, .given "stop"⟩
  have hrun : ∃ u, (cycleSystem pendingBroker).Run atRest
      (planning ++ [.halt (.given "stop"), .check, .submit tenShares]) u :=
    ⟨_, run_planned.of_restrict.append (.cons (.halt (.given "stop"))
      (.cons (.check (fun _ => none) rfl hcheck) (.cons (.submit rfl) (.nil _))))⟩
  obtain ⟨u, hrun⟩ := hrun
  have hrest : AtRest twoThreads := ⟨rfl, fun _ => rfl⟩
  obtain ⟨hiff, halone⟩ := cycles_serialized (B := pendingBroker) hrest
  obtain ⟨events, t, hevents, hsteps, -⟩ := (hiff _ u).mp hrun
  exact ⟨events, t, hevents, hsteps, (halone events t hevents).1⟩

end Tqt.Runner
