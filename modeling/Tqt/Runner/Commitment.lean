import Tqt.Runner.Cycle

/-! What a cycle commits.

A cycle looks at the account again after a fill, not after an order that stays pending: the
next BUY is checked against cash that the pending one has already spoken for. A run is
therefore tallied: what its BUYs have bought, what of them is still pending, what its
SELLs have brought in. The cash covers it all as long as every BUY that is submitted
beside pending ones fits in the snapshot with them (`cycle_within_cash`); a check alone
promises that only where none is pending. -/
namespace Tqt.Runner

/-- What an order is worth in KRW at a price and a rate. -/
def notionalAt (fx : Decimal) (intent : OrderIntent) (price : Decimal) : Decimal :=
  match intent.orderAmount with
  | some amount => amount * fxAt fx intent.symbol
  | none => price * intent.quantity.getD 0 * fxAt fx intent.symbol

theorem notionalKrw_eq (snap : AccountSnapshot) (intent : OrderIntent) (price : Decimal) :
    RiskManager.notionalKrw snap intent (some price) = notionalAt snap.usdKrw intent price := rfl

/-- The notionals, in KRW at the prices that were checked, of what a cycle has ordered. -/
structure Tally where
  price : Decimal := 0
  bought : Decimal := 0
  waiting : Decimal := 0
  sold : Decimal := 0
deriving DecidableEq

namespace Tally

/-- An order that is not rejected has filled whole, or is pending. -/
def answered (fx : Decimal) (tally : Tally) (intent : OrderIntent) (result : OrderResult) : Tally :=
  if result.ok = false then tally
  else match intent.side with
    | .BUY =>
      if 0 < result.filledQuantity then
        { tally with bought := tally.bought + notionalAt fx intent tally.price }
      else { tally with waiting := tally.waiting + notionalAt fx intent tally.price }
    | .SELL =>
      if 0 < result.filledQuantity then
        { tally with sold := tally.sold + notionalAt fx intent tally.price }
      else tally

def step (fx : Decimal) (phase : Phase) (tally : Tally) : Step → Tally
  | .check =>
    match phase with
    | .ordering _ ((_, price) :: _) => { tally with price := price }
    | _ => tally
  | .answer result =>
    match phase with
    | .waiting _ intent _ => tally.answered fx intent result
    | _ => tally
  | _ => tally

end Tally

section
variable {β : Type} (B : BrokerModel β) (fx start : Decimal)

/-- The snapshot shows the rate, and no more than the cash at the start with what has been
reported filled. -/
structure Shows (tally : Tally) (snap : AccountSnapshot) : Prop where
  rate : snap.usdKrw = fx
  cash : snap.cashKrw ≤ start + tally.sold - tally.bought

/-- The steps of one cycle, with its tally. Orders that fill do so whole, at the price that was
checked and without charges, so this is the cash that a snapshot may show. -/
def tallied : Lts (System β × Tally) Step :=
  ⟨fun s a t => Steps B s.1 a t.1 ∧ t.2 = s.2.step fx s.1.phase a ∧
    match a with
    | .begin _ => False
    | .refresh => ∀ snap rest, t.1.phase = .ordering snap rest → Shows fx start t.2 snap
    | _ => True⟩

/-- A BUY that is submitted while others are pending fits in the snapshot with them. -/
def Fits (s : System β × Tally) : Step → Prop
  | .submit intent => s.2.waiting ≠ 0 → intent.side = .BUY →
      ∀ snap rest, s.1.phase = .submitting snap intent rest →
        notionalAt fx intent s.2.price + s.2.waiting ≤ snap.cashKrw
  | _ => True

/-- No order is worth less than nothing. -/
def Worthwhile (orders : List (OrderIntent × Decimal)) : Prop :=
  ∀ order ∈ orders, 0 ≤ notionalAt fx order.1 order.2

/-- What the loop knows of the cash, wherever it is. -/
def Covered (tally : Tally) : Phase → Prop
  | .idle => True
  | .ordering snap orders => Shows fx start tally snap ∧ Worthwhile fx orders
  | .submitting snap intent rest => Shows fx start tally snap ∧
      0 ≤ notionalAt fx intent tally.price ∧
      (intent.side = .BUY → notionalAt fx intent tally.price ≤ snap.cashKrw) ∧ Worthwhile fx rest
  | .waiting snap intent rest => Shows fx start tally snap ∧
      0 ≤ notionalAt fx intent tally.price ∧
      (intent.side = .BUY → notionalAt fx intent tally.price + tally.waiting ≤ snap.cashKrw) ∧
      Worthwhile fx rest
  | .refreshing rest => Worthwhile fx rest
  | _ => False

structure Within (s : System β × Tally) : Prop where
  total : s.2.bought + s.2.waiting ≤ start + s.2.sold
  pending : 0 ≤ s.2.waiting
  covered : Covered fx start s.2 s.1.phase

variable {B} {fx start} {s t : System β × Tally}

/-- A step that leaves the phase, or goes to rest. -/
theorem Within.same (h : Within fx start s) (htally : t.2 = s.2)
    (hphase : t.1.phase = s.1.phase ∨ t.1.phase = .idle) : Within fx start t := by
  obtain ⟨htotal, hpending, hcovered⟩ := h
  rw [← htally] at htotal hpending hcovered
  refine ⟨htotal, hpending, ?_⟩
  rcases hphase with hsame | hidle
  · exact hsame ▸ hcovered
  · rw [hidle]
    trivial

/-- A check that passes a BUY has seen the cash for it. -/
theorem checked_cash {rm rm' : RiskManager} {st : Store} {now : Instant} {snap : AccountSnapshot}
    {ask : Symbol → Option (List String)} {intent : OrderIntent} {price : Decimal}
    (h : rm.checkOrder st now snap ask intent (some price) = (rm', .allow))
    (hbuy : intent.side = .BUY) : notionalAt snap.usdKrw intent price ≤ snap.cashKrw := by
  have hallow : (rm.checkOrder st now snap ask intent (some price)).2 = .allow := by rw [h]
  rw [RiskManager.checkOrder_buy_iff _ _ _ _ _ _ hbuy, notionalKrw_eq] at hallow
  exact hallow.2.2.2.2.1

/-- What an answer adds stays within the cash that the order was submitted against. -/
theorem Within.answered {snap : AccountSnapshot} {intent : OrderIntent}
    {rest : List (OrderIntent × Decimal)} (h : Within fx start s)
    (hphase : s.1.phase = .waiting snap intent rest) (result : OrderResult) :
    (s.2.answered fx intent result).bought + (s.2.answered fx intent result).waiting ≤
        start + (s.2.answered fx intent result).sold ∧
      0 ≤ (s.2.answered fx intent result).waiting ∧
      Covered fx start (s.2.answered fx intent result)
        (if result.ok ∧ 0 < result.filledQuantity then .refreshing rest else .ordering snap rest) := by
  obtain ⟨htotal, hpending, hcovered⟩ := h
  rw [hphase] at hcovered
  obtain ⟨⟨hrate, hcash⟩, hworth, hbuy, hrest⟩ := hcovered
  by_cases hfilled : result.ok = true ∧ 0 < result.filledQuantity
  · obtain ⟨hok, hquantity⟩ := hfilled
    rw [if_pos ⟨hok, hquantity⟩, Tally.answered, if_neg (by simp [hok])]
    cases hside : intent.side with
    | BUY =>
      have hfits := hbuy hside
      simp only [if_pos hquantity]
      exact ⟨by linarith, hpending, hrest⟩
    | SELL =>
      simp only [if_pos hquantity]
      exact ⟨by linarith, hpending, hrest⟩
  · rw [if_neg hfilled, Tally.answered]
    cases hok : result.ok with
    | false =>
      rw [if_pos rfl]
      exact ⟨htotal, hpending, ⟨hrate, hcash⟩, hrest⟩
    | true =>
      have hquantity : ¬ 0 < result.filledQuantity := fun hpos => hfilled ⟨hok, hpos⟩
      rw [if_neg (by decide)]
      cases hside : intent.side with
      | BUY =>
        have hfits := hbuy hside
        simp only [if_neg hquantity]
        exact ⟨by linarith, by linarith, ⟨hrate, hcash⟩, hrest⟩
      | SELL =>
        simp only [if_neg hquantity]
        exact ⟨htotal, hpending, ⟨hrate, hcash⟩, hrest⟩

/-- **One step** keeps the cycle within its cash. -/
theorem Within.step {a : Step} (h : Within fx start s) (hfits : Fits fx s a)
    (hstep : (tallied B fx start).step s a t) : Within fx start t := by
  obtain ⟨s, tally⟩ := s
  obtain ⟨t, tally'⟩ := t
  obtain ⟨hstep, htally, hlabel⟩ := hstep
  simp only at hstep htally
  have hcovered := h.covered
  cases hstep with
  | begin _ _ => exact hlabel.elim
  | gate hphase _ =>
    rw [show s.phase = _ from hphase] at hcovered
    exact hcovered.elim
  | skip hphase => exact h.same htally (.inr rfl)
  | plan _ _ _ hphase =>
    rw [show s.phase = _ from hphase] at hcovered
    exact hcovered.elim
  | @check snap intent price rest risk verdict ask hphase hcheck =>
    rw [show s.phase = _ from hphase] at hcovered
    obtain ⟨hshows, hworth⟩ := hcovered
    simp only [Tally.step, hphase] at htally
    subst htally
    refine ⟨h.total, h.pending, ?_⟩
    have hshows' : Shows fx start { tally with price := price } snap := ⟨hshows.rate, hshows.cash⟩
    by_cases hallow : verdict = .allow
    · subst hallow
      rw [if_pos rfl]
      refine ⟨hshows', hworth _ (List.mem_cons_self ..), fun hbuy => ?_,
        fun o ho => hworth o (List.mem_cons_of_mem _ ho)⟩
      exact hshows.rate ▸ checked_cash hcheck hbuy
    · rw [if_neg hallow]
      exact ⟨hshows', fun o ho => hworth o (List.mem_cons_of_mem _ ho)⟩
  | @submit snap intent rest hphase =>
    rw [show s.phase = _ from hphase] at hcovered
    obtain ⟨hshows, hworth, hbuy, hrest⟩ := hcovered
    obtain rfl : tally' = tally := htally
    refine ⟨h.total, h.pending, hshows, hworth, fun hside => ?_, hrest⟩
    by_cases hnone : tally'.waiting = 0
    · rw [hnone, add_zero]
      exact hbuy hside
    · exact hfits hnone hside snap rest hphase
  | @answer snap intent rest b st result hphase _ =>
    simp only [Tally.step, hphase] at htally
    subst htally
    obtain ⟨htotal, hpending, hnext⟩ := h.answered hphase result
    exact ⟨htotal, hpending, hnext⟩
  | @refresh rest snap st hphase _ =>
    rw [show s.phase = _ from hphase] at hcovered
    obtain rfl : tally' = tally := htally
    exact ⟨h.total, h.pending, hlabel snap rest rfl, hcovered⟩
  | finish _ => exact h.same htally (.inr rfl)
  | abort => exact h.same htally (.inr rfl)
  | halt _ => exact h.same htally (.inl rfl)
  | resume => exact h.same htally (.inl rfl)
  | tick _ => exact h.same htally (.inl rfl)
  | exchange _ => exact h.same htally (.inl rfl)
  | write _ => exact h.same htally (.inl rfl)

/-- **A cycle stays within its cash**: the BUYs it has had accepted, filled or pending, are
worth no more than the cash at its start with the proceeds of its filled SELLs, in every
run in which no BUY is submitted beside pending ones that it does not fit in with. -/
theorem cycle_within_cash {steps : List Step} {snap : AccountSnapshot}
    {orders : List (OrderIntent × Decimal)} (hphase : s.1.phase = .ordering snap orders)
    (hcash : snap.cashKrw = start) (hrate : snap.usdKrw = fx) (htally : s.2 = {})
    (horders : Worthwhile fx orders) (hstart : 0 ≤ start)
    (hrun : ((tallied B fx start).restrict (Fits fx)).Run s steps t) :
    t.2.bought + t.2.waiting ≤ start + t.2.sold := by
  have hs : Within fx start s := by
    refine ⟨?_, ?_, ?_⟩
    · rw [htally]
      show 0 + 0 ≤ start + 0
      linarith
    · rw [htally]
    · rw [hphase, htally]
      refine ⟨⟨hrate, ?_⟩, horders⟩
      show snap.cashKrw ≤ start + 0 - 0
      linarith
  exact (hrun.invariant (fun _ _ _ h hstep => h.step hstep.1 hstep.2) hs).total

/-- Where a BUY does not fit in with the pending ones, and the snapshot shows all the cash there
is, its being accepted takes the cycle beyond its cash. -/
theorem pending_overcommits {snap : AccountSnapshot} {intent : OrderIntent}
    {rest : List (OrderIntent × Decimal)} {b : β} {st : Store} {result : OrderResult}
    (hphase : s.1.phase = .submitting snap intent rest) (hbuy : intent.side = .BUY)
    (hshows : snap.cashKrw = start + s.2.sold - s.2.bought)
    (hover : snap.cashKrw < notionalAt fx intent s.2.price + s.2.waiting)
    (hanswer : B.submit s.1.broker s.1.store s.1.now intent b st result)
    (hpending : result.ok = true ∧ ¬ 0 < result.filledQuantity) :
    ∃ t, (tallied B fx start).Run s [.submit intent, .answer result] t ∧
      ¬ t.2.bought + t.2.waiting ≤ start + t.2.sold := by
  obtain ⟨s, tally⟩ := s
  have hafter : tally.answered fx intent result =
      { tally with waiting := tally.waiting + notionalAt fx intent tally.price } := by
    rw [Tally.answered, if_neg (by simp [hpending.1]), hbuy]
    simp only [if_neg hpending.2]
  have hsend : (tallied B fx start).step (s, tally) (.submit intent)
      ({ s with phase := .waiting snap intent rest }, tally) := ⟨.submit hphase, rfl, trivial⟩
  have hreply := Steps.answer (B := B) (s := { s with phase := .waiting snap intent rest }) rfl hanswer
  refine ⟨(_, tally.answered fx intent result),
    .cons hsend (.cons ⟨hreply, rfl, trivial⟩ (.nil _)), ?_⟩
  rw [hafter]
  simp only at hshows hover ⊢
  linarith

end

/-- What the planner orders is worth something. -/
theorem buildIntentsIn_worthwhile (targets : Dict Symbol Decimal) (snap : AccountSnapshot)
    (markets : List Country) (prices : Symbol → Option Decimal) (hrate : 0 < snap.usdKrw) :
    Worthwhile snap.usdKrw (buildIntentsIn Context.fix targets snap markets prices) := by
  intro order hmem
  obtain ⟨intent, price⟩ := order
  obtain ⟨-, symbol, drift, -, hplan⟩ := (mem_buildIntentsIn ..).mp hmem
  have hplanned := planSymbolIn_planned hplan
  obtain ⟨qty, hqty, hpos⟩ := hplanned.positive
  have hnotional : notionalAt snap.usdKrw intent price = price * qty * fxAt snap.usdKrw intent.symbol := by
    rw [notionalAt, hplanned.byQuantity, hqty]
    rfl
  rw [hnotional]
  exact (mul_pos (mul_pos hplanned.priced.2 hpos) (fxAt_pos hrate _)).le

/-! ### A sale and two buys that stay pending -/

/-- Seventy shares at 10,000 beside 300,000 in cash. -/
def seventyHeld : AccountSnapshot where
  cashKrw := 300000
  positions := Dict.ofList [("069500", ⟨"069500", 70, 10000, .KRW⟩)]
  usdKrw := 1400
  prices := Dict.ofList [("069500", 10000)]

/-- Forty of them are to make way for two stocks. -/
def shifted : List (OrderIntent × Decimal) :=
  buildIntentsIn Context.fix (Dict.ofList [("069500", 3 / 10), ("005930", 1 / 5), ("000660", 1 / 5)]) seventyHeld
    [.KR] fun _ => some 10000

def fortyOut : OrderIntent := makeIntent "069500" .SELL 40 (3 / 10) (7 / 10)

def twentyIn (x : Symbol) : OrderIntent := makeIntent x .BUY 20 (1 / 5) 0

theorem shifted_eq : shifted =
    [(fortyOut, 10000), (twentyIn "000660", 10000), (twentyIn "005930", 10000)] := by
  decide +kernel

def leftPending (intent : OrderIntent) : OrderResult :=
  { ok := true, symbol := intent.symbol, side := intent.side, status := "PENDING" }

/-- A broker that leaves every order pending. -/
def restingBroker : BrokerModel Unit where
  name := .live
  snapshot _ st snap st' := snap = seventyHeld ∧ st' = st
  submit _ st _ intent _ st' result := st' = st ∧ result = leftPending intent
  evolve _ _ := True
  snapshot_switch h := by rw [h.2]
  submit_switch h := by rw [h.1]

/-- The loop over some orders, with the account as it was at its start. -/
def resting (orders : List (OrderIntent × Decimal)) : System Unit where
  broker := ()
  store := {}
  risk := { brokerName := .live, hasClient := false }
  now := ⟨⟨2026, 8, 17⟩, 20000⟩
  phase := .ordering seventyHeld orders

theorem resting_check {intent : OrderIntent} {price : Decimal} {rest : List (OrderIntent × Decimal)}
    (tally : Tally) (hallow : ((resting []).risk.checkOrder {} (resting []).now seventyHeld
      (fun _ => none) intent (some price)).2 = .allow) :
    (tallied restingBroker 1400 300000).step (resting ((intent, price) :: rest), tally) .check
      ({ resting [] with phase := .submitting seventyHeld intent rest },
        { tally with price := price }) := by
  have hsame : ((resting []).risk.checkOrder {} (resting []).now seventyHeld (fun _ => none) intent
      (some price)).1 = (resting []).risk := by
    rcases RiskManager.checkOrder_risk (resting []).risk {} (resting []).now seventyHeld
      (fun _ => none) intent (some price) with h | h <;> exact h
  exact ⟨.check (s := resting ((intent, price) :: rest)) (fun _ => none) rfl (Prod.ext hsame hallow),
    rfl, trivial⟩

/-- One order, checked, submitted and left pending. -/
theorem resting_turn (intent : OrderIntent) (price : Decimal) (rest : List (OrderIntent × Decimal))
    (tally : Tally) (hfits : tally.waiting ≠ 0 → intent.side = .BUY →
      notionalAt 1400 intent price + tally.waiting ≤ 300000)
    (hallow : ((resting []).risk.checkOrder {} (resting []).now seventyHeld (fun _ => none) intent
      (some price)).2 = .allow) :
    ((tallied restingBroker 1400 300000).restrict (Fits 1400)).Run
      (resting ((intent, price) :: rest), tally)
      [.check, .submit intent, .answer (leftPending intent)]
      (resting rest, ({ tally with price := price } : Tally).answered 1400 intent
        (leftPending intent)) := by
  have hanswer := Steps.answer (B := restingBroker)
    (s := { resting [] with phase := .waiting seventyHeld intent rest }) (b := ()) rfl ⟨rfl, rfl⟩
  rw [if_neg (fun hand => absurd hand.2 (lt_irrefl 0))] at hanswer
  have hsend : ((tallied restingBroker 1400 300000).restrict (Fits 1400)).step
      ({ resting [] with phase := .submitting seventyHeld intent rest },
        { tally with price := price }) (.submit intent)
      ({ resting [] with phase := .waiting seventyHeld intent rest },
        { tally with price := price }) := by
    refine ⟨?_, .submit rfl, rfl, trivial⟩
    intro hwaiting hbuy snap rest' hphase
    cases hphase
    exact hfits hwaiting hbuy
  exact .cons ⟨trivial, resting_check tally hallow⟩ (.cons hsend
    (.cons ⟨trivial, hanswer, rfl, trivial⟩ (.nil _)))

/-- The sale and the first buy: 200,000 of the 300,000 are committed. -/
theorem two_pending : ((tallied restingBroker 1400 300000).restrict (Fits 1400)).Run
    (resting shifted, {})
    ([.check, .submit fortyOut, .answer (leftPending fortyOut)] ++
      [.check, .submit (twentyIn "000660"), .answer (leftPending (twentyIn "000660"))])
    (resting [(twentyIn "005930", 10000)], ⟨10000, 0, 200000, 0⟩) := by
  have hsale := resting_turn fortyOut 10000
    [(twentyIn "000660", 10000), (twentyIn "005930", 10000)] {} (fun hne => absurd rfl hne) (by decide +kernel)
  have hbuy := resting_turn (twentyIn "000660") 10000 [(twentyIn "005930", 10000)]
    ⟨10000, 0, 0, 0⟩ (fun hne => absurd rfl hne) (by decide +kernel)
  have hafter : Tally.answered 1400 ⟨10000, 0, 0, 0⟩ (twentyIn "000660")
      (leftPending (twentyIn "000660")) = ⟨10000, 0, 200000, 0⟩ := by
    decide +kernel
  rw [shifted_eq]
  rw [hafter] at hbuy
  exact hsale.append hbuy

/-- The loop when the forty are planned. -/
def shiftStart : System Unit × Tally := (resting shifted, {})

theorem seventyHeld_cash : seventyHeld.cashKrw = 300000 := rfl

theorem cycle_within_cash_two_pending : ∃ t steps,
    (tallied restingBroker 1400 300000).Run shiftStart steps t ∧
      t.2.waiting = 200000 ∧ t.2.bought + t.2.waiting ≤ 300000 + t.2.sold := by
  have hphase : shiftStart.1.phase = .ordering seventyHeld shifted := rfl
  have hrate : seventyHeld.usdKrw = 1400 := rfl
  have htally : shiftStart.2 = {} := rfl
  have horders : Worthwhile 1400 shifted :=
    buildIntentsIn_worthwhile _ seventyHeld _ _ (by norm_num [seventyHeld])
  exact ⟨_, _, two_pending.of_restrict, rfl,
    cycle_within_cash hphase seventyHeld_cash hrate htally horders (by norm_num) two_pending⟩

/-- The second buy passes its check against the same 300,000: 400,000 are committed, and
nothing has been sold. -/
theorem pending_buys_overcommit : ∃ t steps,
    (tallied restingBroker 1400 300000).Run shiftStart steps t ∧
      seventyHeld.cashKrw = 300000 ∧ ¬ t.2.bought + t.2.waiting ≤ 300000 + t.2.sold := by
  have hchecked := two_pending.of_restrict.snoc (resting_check ⟨10000, 0, 200000, 0⟩
    (show ((resting []).risk.checkOrder {} (resting []).now seventyHeld (fun _ => none)
      (twentyIn "005930") (some 10000)).2 = .allow by decide +kernel))
  have hanswer : restingBroker.submit () {} (resting []).now (twentyIn "005930") () {}
      (leftPending (twentyIn "005930")) := ⟨rfl, rfl⟩
  have hover : seventyHeld.cashKrw < notionalAt 1400 (twentyIn "005930") 10000 + 200000 := by
    decide +kernel
  have hshows : seventyHeld.cashKrw = 300000 + 0 - 0 := by norm_num [seventyHeld]
  have hpending : (leftPending (twentyIn "005930")).ok = true ∧
      ¬ 0 < (leftPending (twentyIn "005930")).filledQuantity :=
    ⟨rfl, lt_irrefl (0 : Decimal)⟩
  obtain ⟨t, hrun, hbeyond⟩ := pending_overcommits (B := restingBroker)
    (s := ({ resting [] with phase := .submitting seventyHeld (twentyIn "005930") [] },
      ⟨10000, 0, 200000, 0⟩)) rfl rfl hshows hover hanswer hpending
  exact ⟨t, _, hchecked.append hrun, seventyHeld_cash, hbeyond⟩

end Tqt.Runner
