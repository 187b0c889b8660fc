import Tqt.Runner.Cycle

/-! The kill switch under interleaving.

`check_cycle` reads the switch once, before the orders of a cycle; `check_order` does
not read it again. A halt that lands before the gate has answered holds back every
later submission until the next resume (`no_submit_while_halted`); one that lands
after it holds back none of the cycle's remaining orders (`halt_ignored`). -/
namespace Tqt.Runner

/-- Whether the operator's last word is a halt. -/
def haltStep (halted : Bool) : Step → Bool
  | .halt _ => true
  | .resume => false
  | _ => halted

def haltedAfter (steps : List Step) : Bool := steps.foldl haltStep false

/-- No halt lands while a cycle is past its gate. -/
def haltsBeforeGate {β : Type} (s : System β) : Step → Prop
  | .halt _ => s.phase.beforeGate
  | _ => True

section
variable {β : Type} {B : BrokerModel β}

/-- The operator's halt is on file, and the cycle, if any, has still to read it. -/
structure Held (s : System β) : Prop where
  switch : s.store.killSwitch.halted = true
  gate : s.phase.beforeGate

theorem not_beforeGate {s : System β} {p : Phase} (h : s.phase = p) (hp : ¬ p.beforeGate) :
    ¬ Held s :=
  fun hheld => hp (h ▸ hheld.gate)

/-- A halted gate does not pass. -/
theorem Held.gate_idle {s : System β} {snap : AccountSnapshot} {st : Store} {verdict : Verdict}
    (h : Held s) (hcheck : s.risk.checkCycle s.store s.now snap = (st, verdict)) :
    verdict ≠ .allow ∧ st.killSwitch.halted = true := by
  constructor
  · rcases s.risk.checkCycle_cases s.store s.now snap with ⟨-, hhalted, -⟩ | ⟨st', why, heq, -⟩
    · simp [RiskManager.isHalted, h.switch] at hhalted
    · rw [hcheck] at heq
      cases heq
      nofun
  · have := s.risk.checkCycle_halted s.store s.now snap
    rw [hcheck] at this
    exact this.trans h.switch

/-- **One step**: a halt on file stays on file, and ahead of the gate, until the resume. -/
theorem held_step {halted : Bool} {s t : System β} {a : Step} (h : halted = true → Held s)
    (hok : haltsBeforeGate s a) (hstep : Steps B s a t) : haltStep halted a = true → Held t := by
  cases hstep with
  | begin hphase hsnap =>
    intro hhalt
    obtain ⟨hswitch, -⟩ := h hhalt
    exact ⟨by rw [← hswitch, ← B.snapshot_switch hsnap]; rfl, trivial⟩
  | gate hphase hcheck =>
    intro hhalt
    obtain ⟨hrefuse, hswitch⟩ := (h hhalt).gate_idle hcheck
    refine ⟨hswitch, ?_⟩
    simp only [hrefuse, if_false]
    trivial
  | skip hphase => exact fun hhalt => absurd (h hhalt) (not_beforeGate hphase nofun)
  | plan _ _ _ hphase => exact fun hhalt => absurd (h hhalt) (not_beforeGate hphase nofun)
  | check _ hphase _ => exact fun hhalt => absurd (h hhalt) (not_beforeGate hphase nofun)
  | submit hphase => exact fun hhalt => absurd (h hhalt) (not_beforeGate hphase nofun)
  | answer hphase _ => exact fun hhalt => absurd (h hhalt) (not_beforeGate hphase nofun)
  | refresh hphase _ => exact fun hhalt => absurd (h hhalt) (not_beforeGate hphase nofun)
  | finish hphase => exact fun hhalt => absurd (h hhalt) (not_beforeGate hphase nofun)
  | abort => exact fun hhalt => ⟨(h hhalt).switch, trivial⟩
  | halt reason => exact fun _ => ⟨rfl, hok⟩
  | resume => nofun
  | tick _ => exact fun hhalt => ⟨(h hhalt).switch, (h hhalt).gate⟩
  | exchange _ => exact fun hhalt => ⟨(h hhalt).switch, (h hhalt).gate⟩
  | write hswitch => exact fun hhalt => ⟨by rw [hswitch]; exact (h hhalt).switch, (h hhalt).gate⟩

theorem held_run {halted : Bool} {s t : System β} {steps : List Step}
    (hrun : ((cycleSystem B).restrict haltsBeforeGate).Run s steps t)
    (h : halted = true → Held s) : steps.foldl haltStep halted = true → Held t := by
  induction hrun generalizing halted with
  | nil s => exact h
  | cons hstep _ ih => exact ih (held_step h hstep.1 hstep.2)

/-- **No submission begins while the operator's last word is a halt**, in every run in which
no halt lands between a cycle's gate and its last order. -/
theorem no_submit_while_halted {s t u : System β} {steps : List Step} {intent : OrderIntent}
    (hrun : ((cycleSystem B).restrict haltsBeforeGate).Run s steps t)
    (hsubmit : (cycleSystem B).step t (.submit intent) u) : haltedAfter steps = false := by
  by_contra hhalt
  have hstart : false = true → Held s := nofun
  have hheld : Held t := held_run hrun hstart (by simpa [haltedAfter] using hhalt)
  cases hsubmit with
  | submit hphase => exact not_beforeGate hphase nofun hheld

/-- Wherever an order is ready, a halt does not stop it. -/
theorem halt_then_submit {s : System β} {snap : AccountSnapshot} {intent : OrderIntent}
    {rest : List (OrderIntent × Decimal)} (h : s.phase = .submitting snap intent rest)
    (reason : HaltReason) : ∃ t, (cycleSystem B).Run s [.halt reason, .submit intent] t :=
  ⟨_, .cons (.halt reason) (.cons (.submit h) (.nil _))⟩

end

/-! ### A halt in the order loop -/

/-- A broker with a million in cash that leaves every order pending. -/
def pendingBroker : BrokerModel Unit where
  name := .paper
  snapshot _ st snap st' := snap = .allCash 1000000 ∧ st' = st
  submit _ st _ intent _ st' result := st' = st ∧
    result = { ok := true, symbol := intent.symbol, side := intent.side, status := "PENDING" }
  evolve _ _ := True
  snapshot_switch h := by rw [h.2]
  submit_switch h := by rw [h.1]

def atRest : System Unit where
  broker := ()
  store := {}
  risk := { brokerName := .paper }
  now := ⟨⟨2026, 8, 17⟩, 20000⟩

def tenShares : OrderIntent := makeIntent "069500" .BUY 10 (1 / 10) 0

/-- The cycle's first three steps. -/
def planning : List Step :=
  [.begin (.allCash 1000000), .gate, .plan (Dict.ofList [("069500", 1 / 10)]) [.KR] fun _ => some 10000]

/-- A cycle that has planned one order. -/
def planned : System Unit :=
  { atRest with
    store := atRest.store.recordEquity .paper (markOf (.allCash 1000000)) atRest.now
    phase := .ordering (.allCash 1000000) [(tenShares, 10000)] }

theorem run_planned :
    ((cycleSystem pendingBroker).restrict haltsBeforeGate).Run atRest planning planned := by
  have hcheck : atRest.risk.checkCycle planned.store atRest.now (.allCash 1000000) =
      (planned.store, .allow) := RiskManager.checkCycle_allow (by decide +kernel)
  have hplan : buildIntentsIn Context.fix (Dict.ofList [("069500", 1 / 10)]) (.allCash 1000000) [.KR]
      (fun _ => some 10000) = [(tenShares, 10000)] := by
    decide +kernel
  have hlast := Steps.plan (B := pendingBroker) (s := { planned with phase := .planning (.allCash 1000000) })
    (Dict.ofList [("069500", 1 / 10)]) [.KR] (fun _ => some 10000) rfl
  rw [hplan] at hlast
  exact .cons ⟨trivial, .begin rfl ⟨rfl, rfl⟩⟩
    (.cons ⟨trivial, .gate rfl hcheck⟩ (.cons ⟨trivial, hlast⟩ (.nil _)))

/-- The order passes its check whatever the kill switch says. -/
theorem check_passes (switch : KillSwitch) :
    ∃ risk, planned.risk.checkOrder { planned.store with killSwitch := switch } planned.now
      (.allCash 1000000) (fun _ => none) tenShares (some 10000) = (risk, .allow) := by
  have hv : (planned.risk.checkOrder planned.store planned.now
      (.allCash 1000000) (fun _ => none) tenShares (some 10000)).2 = .allow := by
    decide +kernel
  exact ⟨_, Prod.ext rfl hv⟩

/-- The gate passes, the operator halts, and the cycle submits its order all the same. -/
theorem halt_ignored :
    ∃ t, (cycleSystem pendingBroker).Run atRest
        (planning ++ [.halt (.given "stop"), .check, .submit tenShares]) t ∧
      haltedAfter (planning ++ [.halt (.given "stop"), .check]) = true := by
  obtain ⟨risk, hcheck⟩ := check_passes ⟨true, none, .given "stop"⟩
  exact ⟨_, run_planned.of_restrict.append (.cons (.halt (.given "stop"))
    (.cons (.check (fun _ => none) rfl hcheck) (.cons (.submit rfl) (.nil _)))), rfl⟩

/-- Halted and resumed before its gate, the cycle submits. -/
theorem no_submit_while_halted_resumed :
    ∃ t u, ((cycleSystem pendingBroker).restrict haltsBeforeGate).Run atRest
        ([.halt (.given "stop"), .resume] ++ planning ++ [.check]) t ∧
      (cycleSystem pendingBroker).step t (.submit tenShares) u ∧
      haltedAfter ([.halt (.given "stop"), .resume] ++ planning ++ [.check]) = false := by
  obtain ⟨risk, hcheck⟩ := check_passes {}
  have hrun : ((cycleSystem pendingBroker).restrict haltsBeforeGate).Run atRest
      ([.halt (.given "stop"), .resume] ++ planning ++ [.check])
      { planned with risk := risk, phase := .submitting (.allCash 1000000) tenShares [] } :=
    .cons ⟨trivial, .halt (.given "stop")⟩ (.cons ⟨trivial, .resume⟩ (run_planned.append
      (.cons ⟨trivial, .check (fun _ => none) rfl hcheck⟩ (.nil _))))
  exact ⟨_, _, hrun, .submit rfl, no_submit_while_halted hrun (.submit rfl)⟩

end Tqt.Runner
