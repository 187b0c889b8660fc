import Tqt.Runner.Brokers
import Tqt.Runner.Pending

/-! Open orders and the next cycle.

The planner compares targets with holdings; an order that still rests at the exchange is
in neither. `exposed_iff` says when a snapshot makes it order a symbol in a direction,
and `no_duplicate_order` that two cycles never have more of a symbol held or on order
than the first one planned, as long as no symbol with an open order is exposed when the
second one looks at the account. Where one is, the order is repeated
(`duplicate_order`). -/
namespace Tqt.Runner
open TossClient

/-! ### Held or on order -/

/-- The quantity of a symbol that some intents buy. -/
def buyQuantity (x : Symbol) (intents : List OrderIntent) : Decimal :=
  (intents.map fun i => if i.symbol = x ∧ i.side = .BUY then i.quantity.getD 0 else 0).sum

theorem buyQuantity_sublist (x : Symbol) {l l' : List OrderIntent} (h : l.Sublist l')
    (hsized : ∀ i ∈ l', ∃ q, i.quantity = some q ∧ 0 < q) : buyQuantity x l ≤ buyQuantity x l' := by
  apply (h.map _).sum_le_sum
  intro y hy
  obtain ⟨i, hi, rfl⟩ := List.mem_map.mp hy
  obtain ⟨q, hq, hpos⟩ := hsized i hi
  split
  · rw [hq]
    exact hpos.le
  · exact le_rfl

/-- Nothing to buy. -/
theorem buyQuantity_eq_zero {x : Symbol} {l : List OrderIntent}
    (h : ∀ i ∈ l, ¬ (i.symbol = x ∧ i.side = .BUY)) : buyQuantity x l = 0 := by
  apply List.sum_eq_zero
  intro y hy
  obtain ⟨i, hi, rfl⟩ := List.mem_map.mp hy
  rw [if_neg (h i hi)]

section
variable {targets : Dict Symbol Decimal} {markets : List Country} {prices : Symbol → Option Decimal}
  {b : LiveBroker} {maxRetries : ℕ} {fx : Decimal} {x : Symbol}

/-- Held, on order, or still to be bought by the cycle under way. -/
def spoken (targets : Dict Symbol Decimal) (markets : List Country)
    (prices : Symbol → Option Decimal) (x : Symbol) (s : System Exchange) : Decimal :=
  s.broker.bought x + buyQuantity x (pending targets markets prices s.phase)

def Sized (targets : Dict Symbol Decimal) (markets : List Country)
    (prices : Symbol → Option Decimal) (s : System Exchange) : Prop :=
  ∀ i ∈ pending targets markets prices s.phase, ∃ q, i.quantity = some q ∧ 0 < q

/-- **One step** of a cycle, or of the exchange, adds to none of it. -/
theorem spoken_step {s t : System Exchange} {a : Step} (hok : OneCycle targets markets prices s a)
    (hsized : Sized targets markets prices s) (hstep : Steps (liveModel b maxRetries fx) s a t) :
    spoken targets markets prices x t ≤ spoken targets markets prices x s := by
  have hsub := pending_step hok hstep
  have hbuy := buyQuantity_sublist x hsub hsized
  cases hstep with
  | @answer snap intent rest e st result hphase hsubmit =>
    obtain ⟨q, hq, hpos⟩ := hsized intent (by rw [hphase]; exact List.mem_cons_self)
    have hbought := LiveSubmits.bought_le hsubmit hq hpos x
    have hleft : pending targets markets prices
        (if result.ok ∧ 0 < result.filledQuantity then .refreshing rest else .ordering snap rest) =
        rest.map Prod.fst := by split <;> rfl
    have hbefore : buyQuantity x (pending targets markets prices s.phase) =
        (if intent.symbol = x ∧ intent.side = .BUY then q else 0) +
          buyQuantity x (rest.map Prod.fst) := by
      rw [hphase]
      show buyQuantity x (intent :: rest.map Prod.fst) = _
      rw [buyQuantity, List.map_cons, List.sum_cons, hq]
      rfl
    show e.bought x + buyQuantity x (pending targets markets prices _) ≤ _
    rw [hleft, spoken, hbefore]
    linarith
  | exchange hevolve => exact add_le_add hevolve.bought_le le_rfl
  | begin _ _ => exact hok.elim
  | _ => exact add_le_add le_rfl hbuy

theorem Sized.run {s t : System Exchange} {steps : List Step}
    (hrun : ((cycleSystem (liveModel b maxRetries fx)).restrict
      (OneCycle targets markets prices)).Run s steps t)
    (hsized : Sized targets markets prices s) : Sized targets markets prices t :=
  fun i hi => hsized i ((pending_run hrun).subset hi)

theorem bought_le_spoken {s : System Exchange} (hsized : Sized targets markets prices s) :
    s.broker.bought x ≤ spoken targets markets prices x s :=
  le_add_of_nonneg_right (buyQuantity_sublist x (List.nil_sublist _) hsized)

theorem spoken_run {s t : System Exchange} {steps : List Step}
    (hrun : ((cycleSystem (liveModel b maxRetries fx)).restrict
      (OneCycle targets markets prices)).Run s steps t)
    (hsized : Sized targets markets prices s) :
    spoken targets markets prices x t ≤ spoken targets markets prices x s := by
  induction hrun with
  | nil s => exact le_rfl
  | cons hstep _ ih =>
    have hnext := hsized.run (.cons hstep (.nil _))
    exact (ih hnext).trans (spoken_step hstep.1 hsized hstep.2)

/-- What a cycle has spoken for when it begins: what is there, and what it will plan. -/
theorem spoken_begin {s t : System Exchange} {snap : AccountSnapshot}
    (hstep : Steps (liveModel b maxRetries fx) s (.begin snap) t) :
    spoken targets markets prices x t = s.broker.bought x +
      buyQuantity x (pending targets markets prices (.planning snap)) := by
  cases hstep with
  | begin _ _ => rfl

theorem sized_begin {s t : System Exchange} {snap : AccountSnapshot}
    (hstep : Steps (liveModel b maxRetries fx) s (.begin snap) t) :
    Sized targets markets prices t := by
  cases hstep with
  | begin _ _ => exact pending_sized targets markets prices snap

/-- Until the next cycle begins, no more is held or on order than the cycle planned. -/
theorem bought_run {s t u : System Exchange} {snap : AccountSnapshot} {steps : List Step}
    (hbegin : Steps (liveModel b maxRetries fx) s (.begin snap) t)
    (hrun : ((cycleSystem (liveModel b maxRetries fx)).restrict
      (OneCycle targets markets prices)).Run t steps u) :
    u.broker.bought x ≤ s.broker.bought x +
      buyQuantity x (pending targets markets prices (.planning snap)) := by
  have hsized : Sized targets markets prices t := sized_begin hbegin
  calc u.broker.bought x
      ≤ spoken targets markets prices x u := bought_le_spoken (hsized.run hrun)
    _ ≤ spoken targets markets prices x t := spoken_run hrun hsized
    _ = _ := spoken_begin hbegin

/-- **No duplicate order.** Two successive cycles on the live broker, with targets, markets and
quotes held fixed and the exchange filling whenever it likes: if no symbol with an order
still open is exposed in that order's direction when the second cycle looks at the
account, then the second cycle submits nothing more in that direction, and what is held
or on order of the symbol never exceeds what was there when the first cycle began and what
that cycle planned to buy. Up to the second cycle that bound holds of every symbol. -/
theorem no_duplicate_order {s₀ s₁ s₂ s₃ s₄ : System Exchange} {snap₁ snap₂ : AccountSnapshot}
    {first second : List Step}
    (hbegin₁ : (cycleSystem (liveModel b maxRetries fx)).step s₀ (.begin snap₁) s₁)
    (hfirst : ((cycleSystem (liveModel b maxRetries fx)).restrict
      (OneCycle targets markets prices)).Run s₁ first s₂)
    (hbegin₂ : (cycleSystem (liveModel b maxRetries fx)).step s₂ (.begin snap₂) s₃)
    (hsecond : ((cycleSystem (liveModel b maxRetries fx)).restrict
      (OneCycle targets markets prices)).Run s₃ second s₄)
    (hopen : ∀ o ∈ s₂.broker.openOrders, ¬ Exposed (targets.getD o.symbol 0) snap₂ markets prices o.symbol o.side) :
    (∀ x front u, ((cycleSystem (liveModel b maxRetries fx)).restrict
        (OneCycle targets markets prices)).Run s₁ front u →
      u.broker.bought x ≤ s₀.broker.bought x +
        buyQuantity x (pending targets markets prices (.planning snap₁))) ∧
    ∀ o ∈ s₂.broker.openOrders,
      (∀ intent, .submit intent ∈ second → ¬ (intent.symbol = o.symbol ∧ intent.side = o.side)) ∧
      (o.side = .BUY → s₄.broker.bought o.symbol ≤ s₀.broker.bought o.symbol +
        buyQuantity o.symbol (pending targets markets prices (.planning snap₁))) := by
  refine ⟨fun x front u hrun => bought_run hbegin₁ hrun, fun o ho => ?_⟩
  have hnone : ∀ i ∈ pending targets markets prices (.planning snap₂),
      ¬ (i.symbol = o.symbol ∧ i.side = o.side) :=
    fun i hi heq => hopen o ho
      ((exposed_iff_pending targets markets prices snap₂ o.symbol o.side).mpr ⟨i, hi, heq⟩)
  refine ⟨fun intent hmem => ?_, fun hside => ?_⟩
  · have hpending := submitted_pending hsecond hmem
    cases hbegin₂ with
    | begin _ _ => exact hnone intent hpending
  · rw [hside] at hnone
    have hlast : s₄.broker.bought o.symbol ≤ s₂.broker.bought o.symbol + 0 :=
      buyQuantity_eq_zero hnone ▸ bought_run hbegin₂ hsecond
    rw [add_zero] at hlast
    exact hlast.trans (bought_run hbegin₁ hfirst)

end

/-! ### Two cycles -/

/-- The order of the cycles below: a tenth of a million, at 10000 a share. -/
def topUp : OrderIntent := makeIntent "069500" .BUY 10 (1 / 10) 0

def topUpOpen : OpenOrder where
  symbol := "069500"
  side := .BUY
  remaining := 10
  positive := by norm_num

def tenthTarget : Dict Symbol Decimal := Dict.ofList [("069500", 1 / 10)]

def tenThousand : Symbol → Option Decimal := fun _ => some 10000

/-- Accepted and acknowledged at once, under this order id. -/
def answered (id : String) : ℕ → Delivery :=
  fun _ => .sent true (.response { status := 200, result := some { orderId := id } })

def stillPending (id : String) : ℕ → Except TossError Order :=
  fun _ => .ok
    { orderId := id, symbol := "069500", side := .BUY, orderType := .MARKET, status := "PENDING",
      quantity := 10, currency := .KRW, orderedAt := ⟨⟨2026, 8, 17⟩, 20000⟩ }

/-- The live system at rest, in the afternoon of one day. -/
def liveAt (e : Exchange) (st : Store) : System Exchange where
  broker := e
  store := st
  risk := { brokerName := .live }
  now := ⟨⟨2026, 8, 17⟩, 20000⟩

def topUpRow (uuid : String) : OrderRow :=
  LiveBroker.submissionRow topUp ("tqt-" ++ uuid) (some 10, none) ⟨⟨2026, 8, 17⟩, 20000⟩

theorem topUp_prepared : LiveBroker.prepare {} topUp (.ok 0) = .ok (some 10, none) := by
  have hwhole : wholeInKr "069500" 10 = 10 := by decide +kernel
  have hten : ¬ ((10 : Decimal) ≤ 0) := by norm_num
  simp [LiveBroker.prepare, LiveBroker.limitPrice, topUp, makeIntent, OrderIntent.market, hwhole, hten]

theorem topUp_pending (e : Exchange) (st : Store) (uuid id : String) :
    LiveSubmits {} 4 e st ⟨⟨2026, 8, 17⟩, 20000⟩ topUp (e.place topUpOpen)
      (LiveBroker.recordSubmission id (topUpRow uuid) st) (LiveBroker.pendingResult topUp id) := by
  have hbody : ∃ body, orderBody (LiveBroker.newOrder {} topUp ("tqt-" ++ uuid) (some 10, none))
      ("tqt-" ++ uuid) = .ok body := ⟨_, rfl⟩
  obtain ⟨body, hbody⟩ := hbody
  refine ⟨uuid, .ok 0, stillPending id, answered id, id, ?_, ?_, .inr ⟨⟨?_, ?_⟩, ?_⟩⟩
  · intro n accepted r hn hs
    cases hn
    exact ⟨rfl, _, rfl, rfl⟩
  · unfold LiveBroker.submit
    simp only [answers, topUp_prepared, createOrder_of_body hbody]
    rfl
  · exact ⟨_, body, topUp_prepared, hbody⟩
  · exact ⟨1, ⟨le_rfl, by omega, fun k hk hlt => by omega⟩, rfl⟩
  · exact ⟨topUpOpen, none, rfl, rfl, topUp_prepared, .refl⟩

def topUpSteps (id : String) : List Step :=
  [.gate, .plan tenthTarget [.KR] tenThousand, .check, .submit topUp,
    .answer (LiveBroker.pendingResult topUp id), .finish]

/-- The store after the equity mark of such a cycle. -/
def marked (st : Store) : Store :=
  st.recordEquity .live (markOf (.allCash 1000000)) ⟨⟨2026, 8, 17⟩, 20000⟩

/-- A cycle on the live broker looks at the account. -/
theorem live_begin {e : Exchange} {st : Store} {risk : RiskManager} {snap : AccountSnapshot}
    (hrisk : risk.clearCache = { brokerName := .live })
    (hsnap : (liveModel {} 4 1400).snapshot e st snap st) :
    Steps (liveModel {} 4 1400) { liveAt e st with risk := risk } (.begin snap)
      { liveAt e (st.recordEquity .live (markOf snap) ⟨⟨2026, 8, 17⟩, 20000⟩) with
        phase := .gating snap } := by
  have hbegin := Steps.begin (B := liveModel {} 4 1400)
    (s := { liveAt e st with risk := risk }) rfl hsnap
  rw [show ({ liveAt e st with risk := risk } : System Exchange).risk.clearCache =
    { brokerName := .live } from hrisk] at hbegin
  exact hbegin

/-- Where the gate and the check pass, a cycle on an account that shows a million in cash and
no holdings places the order and leaves it pending. -/
theorem cycle_tops_up {e : Exchange} (he : e.items = []) (st : Store) {risk : RiskManager}
    (hrisk : risk.clearCache = { brokerName := .live }) (uuid id : String)
    (hgate : (({ brokerName := .live } : RiskManager).checkCycle (marked st)
      ⟨⟨2026, 8, 17⟩, 20000⟩ (.allCash 1000000)).2 = .allow)
    (hcheck : (({ brokerName := .live } : RiskManager).checkOrder (marked st)
      ⟨⟨2026, 8, 17⟩, 20000⟩ (.allCash 1000000) (fun _ => none) topUp (some 10000)).2 = .allow) :
    ∃ s risk', Steps (liveModel {} 4 1400) { liveAt e st with risk := risk }
        (.begin (.allCash 1000000)) s ∧
      ((cycleSystem (liveModel {} 4 1400)).restrict
        (OneCycle tenthTarget [.KR] tenThousand)).Run s (topUpSteps id)
        { liveAt (e.place topUpOpen)
            (LiveBroker.recordSubmission id (topUpRow uuid) (marked st)) with risk := risk' } ∧
      risk'.clearCache = { brokerName := .live } := by
  have hplan : buildIntentsIn Context.fix tenthTarget (.allCash 1000000) [.KR] tenThousand = [(topUp, 10000)] := by
    decide +kernel
  have hsnap : (liveModel {} 4 1400).snapshot e st (.allCash 1000000) st :=
    ⟨rfl, 1000000, .error { kind := .server, message := "" }, by rw [he]; rfl⟩
  have hgated := RiskManager.checkCycle_allow hgate
  have hplanned := Steps.plan (B := liveModel {} 4 1400)
    (s := { liveAt e (marked st) with phase := .planning (.allCash 1000000) })
    tenthTarget [.KR] tenThousand rfl
  rw [hplan] at hplanned
  have hrisked := RiskManager.clearCache_checkOrder { brokerName := .live } (marked st)
    ⟨⟨2026, 8, 17⟩, 20000⟩ (.allCash 1000000) (fun _ => none) topUp (some 10000)
  generalize hout : RiskManager.checkOrder { brokerName := .live } (marked st)
    ⟨⟨2026, 8, 17⟩, 20000⟩ (.allCash 1000000) (fun _ => none) topUp (some 10000) = out at hcheck hrisked
  obtain ⟨risk', verdict⟩ := out
  simp only at hcheck
  subst hcheck
  exact ⟨_, risk', live_begin hrisk hsnap,
    .cons ⟨trivial, .gate rfl hgated⟩ <| .cons ⟨⟨rfl, rfl, rfl⟩, hplanned⟩ <|
    .cons ⟨trivial, .check (fun _ => none) rfl hout⟩ <| .cons ⟨trivial, .submit rfl⟩ <|
    .cons ⟨trivial, .answer rfl (topUp_pending e (marked st) uuid id)⟩ <|
    .cons ⟨trivial, .finish rfl⟩ (.nil _), hrisked⟩

/-- The store after the first cycle. -/
def firstStore : Store := LiveBroker.recordSubmission "A-1" (topUpRow "1") (marked {})

/-- The first cycle, on an empty book. -/
theorem first_cycle :
    ∃ s risk, Steps (liveModel {} 4 1400) (liveAt {} {}) (.begin (.allCash 1000000)) s ∧
      ((cycleSystem (liveModel {} 4 1400)).restrict
        (OneCycle tenthTarget [.KR] tenThousand)).Run s (topUpSteps "A-1")
        { liveAt { openOrders := [topUpOpen] } firstStore with risk := risk } ∧
      risk.clearCache = { brokerName := .live } :=
  cycle_tops_up (e := {}) rfl {} rfl "1" "A-1" (by decide +kernel) (by decide +kernel)

/-- Ten shares are on order when the second cycle looks, and it orders ten more. -/
theorem duplicate_order :
    ∃ s₁ s₂ s₃ s₄ second,
      Steps (liveModel {} 4 1400) (liveAt {} {}) (.begin (.allCash 1000000)) s₁ ∧
      ((cycleSystem (liveModel {} 4 1400)).restrict
        (OneCycle tenthTarget [.KR] tenThousand)).Run s₁ (topUpSteps "A-1") s₂ ∧
      Steps (liveModel {} 4 1400) s₂ (.begin (.allCash 1000000)) s₃ ∧
      ((cycleSystem (liveModel {} 4 1400)).restrict
        (OneCycle tenthTarget [.KR] tenThousand)).Run s₃ second s₄ ∧
      topUpOpen ∈ s₂.broker.openOrders ∧ .submit topUp ∈ second ∧
      (topUp.symbol = topUpOpen.symbol ∧ topUp.side = topUpOpen.side) ∧
      buyQuantity "069500" (pending tenthTarget [.KR] tenThousand (.planning (.allCash 1000000))) = 10 ∧
      s₄.broker.bought "069500" = 20 := by
  obtain ⟨s₁, risk, hbegin₁, hfirst, hrisk⟩ := first_cycle
  obtain ⟨s₃, risk', hbegin₂, hsecond, -⟩ :=
    cycle_tops_up (e := { openOrders := [topUpOpen] }) rfl firstStore hrisk "2" "A-2"
      (by decide +kernel) (by decide +kernel)
  refine ⟨s₁, _, s₃, _, _, hbegin₁, hfirst, hbegin₂, hsecond, List.mem_singleton.mpr rfl, ?_,
    ⟨rfl, rfl⟩, by decide +kernel, ?_⟩
  · simp [topUpSteps]
  · show Exchange.bought { openOrders := [topUpOpen, topUpOpen] } "069500" = 20
    decide +kernel

/-- Nine of the ten have filled. -/
def nineFilled : Exchange where
  items := [⟨"069500", .KRW, 9, 10000, 10000⟩]
  openOrders := [{ topUpOpen with
    remaining := topUpOpen.remaining - 9
    positive := by norm_num [topUpOpen] }]

theorem nine_fill : Exchange.Evolve { openOrders := [topUpOpen] } nineFilled := by
  have hmoves : Exchange.Moves [] nineFilled.items topUpOpen 9 := by
    intro x
    have hget : (LiveBroker.positionsOf nineFilled.items).get? x =
        if x = "069500" then some ⟨"069500", 9, 10000, .KRW⟩ else none := by
      have hpositions : LiveBroker.positionsOf nineFilled.items =
          Dict.insert ∅ "069500" ⟨"069500", 9, 10000, .KRW⟩ := rfl
      rw [hpositions, Dict.get?_insert]
      rfl
    unfold Exchange.held
    rw [hget]
    by_cases hx : x = "069500"
    · simp [hx, topUpOpen, LiveBroker.positionsOf, LiveBroker.owned, Dict.ofList]
    · simp [hx, topUpOpen, LiveBroker.positionsOf, LiveBroker.owned, Dict.ofList]
  exact .partFill (by norm_num) (by norm_num [topUpOpen])
    (show _ = [] ++ topUpOpen :: [] from rfl) hmoves

/-- The account then: what the last share costs is held back from the buying power. -/
def nineShown : AccountSnapshot :=
  LiveBroker.snapshot nineFilled.items 1400 900000 (.error { kind := .server, message := "" })

def nineStore : Store :=
  firstStore.recordEquity .live (markOf nineShown) ⟨⟨2026, 8, 17⟩, 20000⟩

/-- The drift is under 1%: the second cycle plans nothing. -/
theorem cycle_after_fill {risk : RiskManager} (hrisk : risk.clearCache = { brokerName := .live }) :
    ∃ s t, Steps (liveModel {} 4 1400) { liveAt nineFilled firstStore with risk := risk }
        (.begin nineShown) s ∧
      ((cycleSystem (liveModel {} 4 1400)).restrict (OneCycle tenthTarget [.KR] tenThousand)).Run s
        [.gate, .plan tenthTarget [.KR] tenThousand, .finish] t := by
  have hnothing : buildIntentsIn Context.fix tenthTarget nineShown [.KR] tenThousand = [] := by decide +kernel
  have hgated : RiskManager.checkCycle { brokerName := .live } nineStore
      ⟨⟨2026, 8, 17⟩, 20000⟩ nineShown = (nineStore, .allow) :=
    RiskManager.checkCycle_allow (by decide +kernel)
  have hsnap : (liveModel {} 4 1400).snapshot nineFilled firstStore nineShown firstStore :=
    ⟨rfl, 900000, _, rfl⟩
  have hplanned := Steps.plan (B := liveModel {} 4 1400)
    (s := { liveAt nineFilled nineStore with phase := .planning nineShown })
    tenthTarget [.KR] tenThousand rfl
  rw [hnothing] at hplanned
  exact ⟨_, _, live_begin hrisk hsnap, .cons ⟨trivial, .gate rfl hgated⟩ <|
    .cons ⟨⟨rfl, rfl, rfl⟩, hplanned⟩ <| .cons ⟨trivial, .finish rfl⟩ (.nil _)⟩

theorem no_duplicate_order_nine_filled :
    ∃ (s₄ : System Exchange) (second : List Step), ∀ o ∈ nineFilled.openOrders,
      (∀ intent, .submit intent ∈ second → ¬ (intent.symbol = o.symbol ∧ intent.side = o.side)) ∧
      (o.side = .BUY → s₄.broker.bought o.symbol ≤ Exchange.bought {} o.symbol +
        buyQuantity o.symbol (pending tenthTarget [.KR] tenThousand (.planning (.allCash 1000000)))) := by
  obtain ⟨s₁, risk, hbegin₁, hfirst, hrisk⟩ := first_cycle
  obtain ⟨s₃, s₄, hbegin₂, hsecond⟩ := cycle_after_fill hrisk
  have hopen : ∀ o ∈ nineFilled.openOrders,
      ¬ Exposed (tenthTarget.getD o.symbol 0) nineShown [.KR] tenThousand o.symbol o.side := by
    intro o ho hexposed
    obtain ⟨intent, hmem, -⟩ := (exposed_iff_pending _ _ _ _ _ _).mp hexposed
    rw [pending, show buildIntentsIn Context.fix tenthTarget nineShown [.KR] tenThousand = [] by decide +kernel] at hmem
    cases hmem
  have hfill := Steps.exchange (B := liveModel {} 4 1400)
    (s := { liveAt { openOrders := [topUpOpen] } firstStore with risk := risk }) nine_fill
  have hok : OneCycle tenthTarget [.KR] tenThousand
      { liveAt { openOrders := [topUpOpen] } firstStore with risk := risk } .exchange := trivial
  have hfilled := hfirst.snoc ⟨hok, hfill⟩
  exact ⟨s₄, _, (no_duplicate_order hbegin₁ hfilled hbegin₂ hsecond hopen).2⟩

end Tqt.Runner
