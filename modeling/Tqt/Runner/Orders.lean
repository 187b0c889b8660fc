import Tqt.Runner.Brokers

/-! The order loop of a cycle, on the paper broker.

`placeOrders` is the loop of `_cycle`: check, submit, and look at the account again after
a fill. What the outside answers on the way is one `Turn` for each symbol. The loop does
nothing that the steps of a cycle do not do (`placeOrders_run`). -/
namespace Tqt.Runner

/-- What the clock, the warnings and the market answer while one order is handled. -/
structure Turn where
  checked : Instant
  ask : Symbol → Option (List String)
  market : Market
  later : Market
  marks : Option (List (Symbol × Decimal))

/-- What became of an order. -/
inductive Handled where
  | blocked (why : Refusal)
  | answered (result : OrderResult)
  | raised

/-- What the loop carries. -/
structure Loop where
  store : Store
  risk : RiskManager
  snapshot : AccountSnapshot

section
variable (pb : PaperBroker)

/-- The body of the loop. -/
def placeOrder (turn : Turn) (s : Loop) (order : OrderIntent × Decimal) : Loop × Handled :=
  match s.risk.checkOrder s.store turn.checked s.snapshot turn.ask order.1 (some order.2) with
  | (risk, .refuse why) => ({ s with risk := risk }, .blocked why)
  | (risk, .allow) =>
    match pb.submit turn.market order.1 s.store with
    | (st, none) => ({ s with store := st, risk := risk }, .raised)
    | (st, some result) =>
      if result.ok ∧ 0 < result.filledQuantity then
        let seen := PaperBroker.snapshot turn.later st turn.marks
        (⟨seen.1, risk, seen.2⟩, .answered result)
      else ({ s with store := st, risk := risk }, .answered result)

/-- The loop; an exception ends it. -/
def placeOrders (turn : Symbol → Turn) : Loop → List (OrderIntent × Decimal) → Loop × List Handled
  | s, [] => (s, [])
  | s, order :: rest =>
    match placeOrder pb (turn order.1.symbol) s order with
    | (s', .raised) => (s', [.raised])
    | (s', handled) =>
      let out := placeOrders turn s' rest
      (out.1, handled :: out.2)

/-! ### The loop and the steps of a cycle -/

/-- The results that were reported. -/
def Handled.result? : Handled → Option OrderResult
  | .answered result => some result
  | _ => none

def Step.result? : Step → Option OrderResult
  | .answer result => some result
  | _ => none

/-- The clock does not run backwards. -/
def InOrder (turn : Symbol → Turn) : Instant → List (OrderIntent × Decimal) → Prop
  | _, [] => True
  | now, order :: rest =>
    now ≤ (turn order.1.symbol).checked ∧
      (turn order.1.symbol).checked ≤ (turn order.1.symbol).market.now ∧
      InOrder turn (turn order.1.symbol).market.now rest

/-- The loop with these orders left, as a state of the cycle. -/
def Loop.system (s : Loop) (now : Instant) (orders : List (OrderIntent × Decimal)) : System Unit where
  broker := ()
  store := s.store
  risk := s.risk
  now := now
  phase := .ordering s.snapshot orders

variable {pb}

/-- One turn of the loop. -/
theorem placeOrder_run {turn : Turn} {s s' : Loop} {order : OrderIntent × Decimal}
    {handled : Handled} {now : Instant} (rest : List (OrderIntent × Decimal))
    (hchecked : now ≤ turn.checked) (hnow : turn.checked ≤ turn.market.now)
    (h : placeOrder pb turn s order = (s', handled)) :
    ∃ steps t, (cycleSystem (paperModel pb)).Run (s.system now (order :: rest)) steps t ∧
      steps.filterMap Step.result? = handled.result?.toList ∧ t.store = s'.store ∧
      (handled ≠ .raised → t = s'.system turn.market.now rest) := by
  obtain ⟨intent, price⟩ := order
  have htick : (cycleSystem (paperModel pb)).Run (s.system now ((intent, price) :: rest)) [.tick]
      (s.system turn.checked ((intent, price) :: rest)) := .cons (.tick hchecked) (.nil _)
  unfold placeOrder at h
  cases hcheck : s.risk.checkOrder s.store turn.checked s.snapshot turn.ask intent (some price) with
  | mk risk verdict =>
    simp only [hcheck] at h
    have hafter := htick.snoc (.check turn.ask rfl hcheck)
    cases verdict with
    | refuse why =>
      cases h
      exact ⟨_, _, hafter.snoc (.tick hnow), rfl, rfl, fun _ => rfl⟩
    | allow =>
      have hsent : (cycleSystem (paperModel pb)).Run (s.system now ((intent, price) :: rest))
          [.tick, .check, .submit intent, .tick]
          { s.system turn.market.now rest with
            risk := risk
            phase := .waiting s.snapshot intent rest } :=
        (hafter.snoc (.submit rfl)).snoc (.tick hnow)
      cases hsub : pb.submit turn.market intent s.store with
      | mk st result =>
        simp only [hsub] at h
        cases result with
        | none =>
          cases h
          -- the rate that was looked up stays remembered
          have hswitch := pb.submit_switch turn.market intent s.store
          rw [hsub] at hswitch
          exact ⟨_, _, hsent.snoc (.write hswitch), rfl, rfl, fun hraised => absurd rfl hraised⟩
        | some result =>
          simp only at h
          have hanswered := hsent.snoc (.answer (b := ()) rfl ⟨turn.market, rfl, hsub⟩)
          by_cases hfilled : result.ok ∧ 0 < result.filledQuantity
          · rw [if_pos hfilled] at h hanswered
            cases h
            exact ⟨_, _, hanswered.snoc (.refresh rfl ⟨turn.later, turn.marks, rfl⟩), rfl, rfl,
              fun _ => rfl⟩
          · rw [if_neg hfilled] at h hanswered
            cases h
            exact ⟨_, _, hanswered, rfl, rfl, fun _ => rfl⟩

/-- **The loop is a run of the cycle's steps**: it leaves the store that the run leaves, and
reports the results that the run answers. -/
theorem placeOrders_run {turn : Symbol → Turn} {s : Loop} {orders : List (OrderIntent × Decimal)}
    {now : Instant} (h : InOrder turn now orders) :
    ∃ steps t, (cycleSystem (paperModel pb)).Run (s.system now orders) steps t ∧
      steps.filterMap Step.result? = (placeOrders pb turn s orders).2.filterMap Handled.result? ∧
      t.store = (placeOrders pb turn s orders).1.store := by
  induction orders generalizing s now with
  | nil => exact ⟨[], _, .nil _, rfl, rfl⟩
  | cons order rest ih =>
    obtain ⟨hchecked, hnow, hrest⟩ := h
    cases hplace : placeOrder pb (turn order.1.symbol) s order with
    | mk s' handled =>
      obtain ⟨steps, t, hrun, hresults, hstore, hnext⟩ := placeOrder_run rest hchecked hnow hplace
      obtain ⟨steps', t', hrun', hresults', hstore'⟩ := ih (s := s') hrest
      have hon : handled ≠ .raised →
          (cycleSystem (paperModel pb)).Run (s.system now (order :: rest)) (steps ++ steps') t' :=
        fun hok => hrun.append (hnext hok ▸ hrun')
      unfold placeOrders
      rw [hplace]
      cases handled with
      | raised => exact ⟨steps, t, hrun, hresults, hstore⟩
      | blocked why =>
        refine ⟨_, _, hon nofun, ?_, hstore'⟩
        rw [List.filterMap_append, hresults, hresults']
        rfl
      | answered result =>
        refine ⟨_, _, hon nofun, ?_, hstore'⟩
        rw [List.filterMap_append, hresults, hresults']
        rfl

end
end Tqt.Runner
