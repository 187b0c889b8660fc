import Tqt.Runner.Budget
import Tqt.Runner.Orders

/-! A plan and the cash for it.

The planner sizes a BUY by its weight alone; the paper broker charges the fill and refuses
it where the cash does not cover both. In a market that stands still, all the BUYs of a
plan made for an all-cash account are filled exactly when the cash covers their outlays,
charges included (`funded_plan_iff`). A fully invested plan without whole-share slack is
refused (`funded_plan_unbought`) where the backtester trims. -/
namespace Tqt.Runner

/-- What buying a quantity at the quote costs, charges included. -/
def outlay (pb : PaperBroker) (quote : Symbol → Decimal) (fx : Decimal) (x : Symbol)
    (qty : Decimal) : Decimal :=
  quote x * qty * fxAt fx x +
    (pb.costModel.costOf .BUY (countryOf x) (quote x) qty (pb.etfSymbols.contains x) false).total *
      fxAt fx x

/-- What the whole shares of every weight of at least 1% cost together. -/
def planOutlay (pb : PaperBroker) (quote : Symbol → Decimal) (fx : Decimal)
    (targets : Dict Symbol Decimal) (cash : Decimal) : Decimal :=
  (targets.entries.map fun e =>
    if e.2 < band then 0
    else outlay pb quote fx e.1 (wholeInKr e.1 (e.2 * cash / (quote e.1 * fxAt fx e.1)))).sum

/-- A market that stands still: last price, best ask and marks are the quote, the rate is
`fx`, and no stock has a warning. -/
structure Steady (quote : Symbol → Decimal) (fx : Decimal) (turn : Symbol → Turn) : Prop where
  ask : ∀ x book, (turn x).market.book = some book → book.1 = none ∨ book.1 = some (quote x)
  last : ∀ x, (turn x).market.last = some (quote x)
  rate : ∀ x, (turn x).market.fx = some fx
  rate_later : ∀ x, (turn x).later.fx = some fx
  marks : ∀ x prices, (turn x).marks = some prices → ∀ e ∈ prices, e.2 = quote e.1
  unwarned : ∀ x y, ((turn x).ask y).getD [] = []
  quote_pos : ∀ x, 0 < quote x
  rate_pos : 0 < fx

/-- A BUY as the planner makes it: whole shares in Korea, at the quote. -/
structure PlannedBuy (quote : Symbol → Decimal) (qty : Decimal) (order : OrderIntent × Decimal) :
    Prop where
  side : order.1.side = .BUY
  quantity : order.1.quantity = some qty
  amount : order.1.orderAmount = none
  price : order.2 = quote order.1.symbol
  positive : 0 < qty
  whole : wholeInKr order.1.symbol qty = qty

/-- The order was filled, whole and at its price. -/
def Filled (order : OrderIntent × Decimal) : Handled → Prop
  | .answered result => result.ok = true ∧ result.symbol = order.1.symbol ∧
      result.side = order.1.side ∧ some result.filledQuantity = order.1.quantity ∧
      result.fillPrice = some order.2
  | _ => False

section
variable {pb : PaperBroker} {quote : Symbol → Decimal} {fx : Decimal} {turn : Symbol → Turn}

/-- The outlay is the price and its charges at the buy rates. -/
theorem outlay_eq (x : Symbol) {qty : Decimal} (hquote : 0 < quote x) (hqty : 0 ≤ qty) :
    outlay pb quote fx x qty = quote x * qty * fxAt fx x * (1 +
      (pb.costModel.commissionRate (countryOf x) + pb.costModel.fxRate (countryOf x))) := by
  rw [outlay, CostModel.costOf_buy_total, abs_of_nonneg (mul_nonneg hquote.le hqty)]
  ring

theorem outlay_zero (hs : Steady quote fx turn) (x : Symbol) : outlay pb quote fx x 0 = 0 := by
  rw [outlay_eq x (hs.quote_pos x) le_rfl]
  ring

variable (pb) in
theorem notional_le_outlay (hfx : 0 < fx) (x : Symbol) {qty : Decimal} (hquote : 0 < quote x)
    (hqty : 0 ≤ qty) : quote x * qty * fxAt fx x ≤ outlay pb quote fx x qty := by
  rw [outlay_eq x hquote hqty]
  have hrates := add_nonneg (pb.costModel.commissionRate_nonneg (countryOf x))
    (pb.costModel.fxRate_nonneg (countryOf x))
  exact le_mul_of_one_le_right
    (mul_nonneg (mul_nonneg hquote.le hqty) (fxAt_pos hfx x).le) (by linarith)

theorem outlay_nonneg (hfx : 0 < fx) (x : Symbol) {qty : Decimal} (hquote : 0 < quote x)
    (hqty : 0 ≤ qty) : 0 ≤ outlay pb quote fx x qty :=
  (mul_nonneg (mul_nonneg hquote.le hqty) (fxAt_pos hfx x).le).trans
    (notional_le_outlay pb hfx x hquote hqty)

/-! ### The broker's answer -/

/-- A BUY pays the quote. -/
theorem Steady.executionPrice (h : Steady quote fx turn) {intent : OrderIntent}
    (hbuy : intent.side = .BUY) :
    (PaperBroker.executionPrice (turn intent.symbol).market intent).1 = some (quote intent.symbol) := by
  have hne : quote intent.symbol ≠ 0 := (h.quote_pos _).ne'
  unfold PaperBroker.executionPrice
  rw [hbuy, h.last]
  cases hbook : (turn intent.symbol).market.book with
  | none => rfl
  | some book =>
    rcases h.ask intent.symbol book hbook with hask | hask
    · simp [hask]
    · simp [hask, Option.filter_some, hne]

theorem Steady.fxFor (h : Steady quote fx turn) (intent : OrderIntent) (st : Store) :
    (PaperBroker.fxFor (turn intent.symbol).market intent st).2 = fxAt fx intent.symbol := by
  unfold PaperBroker.fxFor fxAt PaperBroker.refreshFx
  rw [h.rate]
  split <;> rfl

variable (pb) in
/-- The trade of a planned BUY. -/
theorem Steady.attempt (h : Steady quote fx turn) {order : OrderIntent × Decimal} {qty : Decimal}
    (ho : PlannedBuy quote qty order) {st : Store}
    (hfresh : st.orders.get? (.paper, (turn order.1.symbol).market.orderId) = none) :
    ∃ t : Trade, t.intent = order.1 ∧ t.qty = qty ∧ t.px = quote order.1.symbol ∧
      t.orderId = (turn order.1.symbol).market.orderId ∧ t.now = (turn order.1.symbol).market.now ∧
      t.grossKrw + t.costKrw = outlay pb quote fx order.1.symbol qty ∧
      pb.attempt (turn order.1.symbol).market order.1 st =
        if PaperBroker.cash st < outlay pb quote fx order.1.symbol qty then
          ((PaperBroker.fxFor (turn order.1.symbol).market order.1 st).1,
            .failed (PaperBroker.insufficient t (PaperBroker.fxFor (turn order.1.symbol).market
              order.1 st).1))
        else (PaperBroker.book t (PaperBroker.fxFor (turn order.1.symbol).market order.1 st).1,
          .traded t) := by
  obtain ⟨intent, price⟩ := order
  obtain ⟨hbuy, hqty, hamount, -, hpos, hwhole⟩ := ho
  simp only at hbuy hqty hamount hwhole hfresh ⊢
  have hsame := PaperBroker.fxFor_same (turn intent.symbol).market intent st
  have hrate := h.fxFor intent st
  have hpx := h.executionPrice hbuy
  generalize hexec : PaperBroker.executionPrice (turn intent.symbol).market intent = exec at hpx
  obtain ⟨px, source⟩ := exec
  simp only at hpx
  subst hpx
  generalize hfx : PaperBroker.fxFor (turn intent.symbol).market intent st = rate at hsame hrate
  obtain ⟨st', fx'⟩ := rate
  simp only at hsame hrate
  subst hrate
  have hsize : ∀ held, PaperBroker.sizeOf intent (quote intent.symbol) held = .ok qty := by
    intro held
    simp [PaperBroker.sizeOf, hqty, hwhole, hbuy, not_le.mpr hpos]
  have hcash : PaperBroker.cash st' = PaperBroker.cash st := by
    rw [PaperBroker.cash, hsame.cash, PaperBroker.cash]
  have horder : (st'.orders.get? (.paper, (turn intent.symbol).market.orderId)).isSome = false := by
    rw [hsame.orders, hfresh]
    rfl
  have hnet : (PaperBroker.tradeOf pb (turn intent.symbol).market intent (quote intent.symbol) source
      (fxAt fx intent.symbol) qty).grossKrw + (PaperBroker.tradeOf pb (turn intent.symbol).market
        intent (quote intent.symbol) source (fxAt fx intent.symbol) qty).costKrw =
      outlay pb quote fx intent.symbol qty := by
    rw [outlay, ← hbuy]
    rfl
  refine ⟨PaperBroker.tradeOf pb (turn intent.symbol).market intent (quote intent.symbol) source
    (fxAt fx intent.symbol) qty, rfl, rfl, rfl, rfl, rfl, hnet, ?_⟩
  unfold PaperBroker.attempt
  rw [hexec]
  simp only [hfx, hsize, not_le.mpr (h.quote_pos intent.symbol), if_false, hbuy, true_and]
  rw [hnet, hcash]
  split
  · rfl
  · rw [if_neg]
    rw [show (PaperBroker.tradeOf pb (turn intent.symbol).market intent (quote intent.symbol) source
      (fxAt fx intent.symbol) qty).orderId = (turn intent.symbol).market.orderId from rfl, horder]
    decide

/-! ### One turn of the loop -/

/-- The loop carries the account that is in the store, no order left is for a symbol that is
held, and the limits leave room for all of them. -/
structure Ready (quote : Symbol → Decimal) (fx : Decimal) (turn : Symbol → Turn)
    (orders : List (OrderIntent × Decimal)) (s : Loop) : Prop where
  cash_eq : s.snapshot.cashKrw = PaperBroker.cash s.store
  positions_eq : s.snapshot.positions = PaperBroker.positions s.store
  rate_eq : s.snapshot.usdKrw = fx
  marks : ∀ x price, s.snapshot.prices.get? x = some price → 0 ≤ price
  cash_row : (s.store.cash.get? (.paper, .KRW)).isSome
  average : ∀ x row, s.store.positions.get? (.paper, x) = some row → 0 ≤ row.avgPrice
  unheld : ∀ order ∈ orders, s.store.positions.get? (.paper, order.1.symbol) = none
  fresh : ∀ order ∈ orders,
    s.store.orders.get? (.paper, (turn order.1.symbol).market.orderId) = none
  broker : s.risk.brokerName = .paper
  weight : 1 ≤ s.risk.settings.maxPositionWeight
  gross : 1 ≤ s.risk.settings.maxGrossExposure
  budget : ∀ day, ((recorded s.store .paper day).length : ℤ) + orders.length ≤
    s.risk.settings.maxOrdersPerDay
  unwarned : ∀ x reasons, s.risk.warningCache.get? x = some reasons → reasons = []

variable {orders rest : List (OrderIntent × Decimal)} {order : OrderIntent × Decimal} {s : Loop}
  {qty : Decimal}

theorem Ready.position_nonneg (h : Ready quote fx turn orders s) (hfx : 0 < fx) :
    0 ≤ s.snapshot.positionValueKrw := by
  apply List.sum_nonneg
  intro value hvalue
  obtain ⟨⟨x, pos⟩, hmem, rfl⟩ := List.mem_map.mp hvalue
  have hget := (Dict.get?_eq_some _ _ _).mpr hmem
  rw [h.positions_eq, PaperBroker.get?_positions, Option.map_eq_some_iff] at hget
  obtain ⟨row, hrow, rfl⟩ := hget
  rw [Option.filter_eq_some_iff, decide_eq_true_eq] at hrow
  have hmark : 0 ≤ s.snapshot.prices.getD x row.avgPrice :=
    s.snapshot.prices.getD_property x (h.average x row hrow.1) h.marks
  have hworth : 0 ≤ s.snapshot.prices.getD x row.avgPrice * row.quantity :=
    mul_nonneg hmark hrow.2.le
  unfold AccountSnapshot.valueKrw
  simp only
  split
  · exact mul_nonneg hworth (h.rate_eq ▸ hfx.le)
  · exact hworth

/-- The check leaves no warning behind. -/
theorem unwarned_check {rm : RiskManager} {ask : Symbol → Option (List String)} {x : Symbol}
    (hask : ∀ y, (ask y).getD [] = [])
    (hcache : ∀ y reasons, rm.warningCache.get? y = some reasons → reasons = []) :
    (rm.buyWarnings ask x).2 = [] ∧
      ∀ y reasons, (rm.buyWarnings ask x).1.warningCache.get? y = some reasons → reasons = [] := by
  unfold RiskManager.buyWarnings
  split
  · split
    · next reasons hget => exact ⟨hcache x reasons hget, hcache⟩
    · refine ⟨hask x, ?_⟩
      intro y reasons hget
      exact rm.warningCache.insert_property (P := fun reasons => reasons = []) (hask x) hcache hget
  · exact ⟨rfl, hcache⟩

/-- **A planned BUY passes its check exactly when the cash covers its price.** -/
theorem Ready.check_iff (h : Ready quote fx turn orders s) (hs : Steady quote fx turn)
    (ho : PlannedBuy quote qty order) (hmem : order ∈ orders) :
    (s.risk.checkOrder s.store (turn order.1.symbol).checked s.snapshot (turn order.1.symbol).ask
        order.1 (some order.2)).2 = .allow ↔
      quote order.1.symbol * qty * fxAt fx order.1.symbol ≤ PaperBroker.cash s.store := by
  have hnotional : RiskManager.notionalKrw s.snapshot order.1 (some order.2) =
      quote order.1.symbol * qty * fxAt fx order.1.symbol := by
    rw [RiskManager.notionalKrw, ho.amount, ho.quantity, ho.price, ← h.rate_eq]
    rfl
  have hpos : 0 < quote order.1.symbol * qty * fxAt fx order.1.symbol :=
    mul_pos (mul_pos (hs.quote_pos _) ho.positive) (fxAt_pos hs.rate_pos _)
  have hexposure : RiskManager.exposureKrw s.snapshot order.1.symbol = 0 := by
    rw [RiskManager.exposureKrw, h.positions_eq, PaperBroker.get?_positions, h.unheld order hmem]
    rfl
  have hvalue := h.position_nonneg hs.rate_pos
  have hequity : s.snapshot.equityKrw = PaperBroker.cash s.store + s.snapshot.positionValueKrw := by
    rw [AccountSnapshot.equityKrw, h.cash_eq]
  rw [RiskManager.checkOrder_buy_iff _ _ _ _ _ _ ho.side, hnotional, hexposure, hequity, h.cash_eq,
    zero_add]
  generalize quote order.1.symbol * qty * fxAt fx order.1.symbol = notional at hpos ⊢
  constructor
  · intro hall
    exact hall.2.2.2.2.1
  · intro hcash
    have hpositive : 0 < PaperBroker.cash s.store + s.snapshot.positionValueKrw := by linarith
    refine ⟨hpositive, ?_, ?_, ?_, hcash, (unwarned_check (hs.unwarned _) h.unwarned).1⟩
    · have hlength : (1 : ℤ) ≤ orders.length := by exact_mod_cast List.length_pos_of_mem hmem
      have hbudget := h.budget (turn order.1.symbol).checked.date
      rw [RiskManager.remainingOrderBudget, ordersToday_eq, h.broker]
      omega
    · have hlimit : 1 ≤ s.risk.weightLimitFor order.1.symbol := by
        unfold RiskManager.weightLimitFor
        split
        · exact h.weight.trans (le_max_right _ _)
        · exact h.weight
      exact ((div_le_one hpositive).mpr (by linarith)).trans hlimit
    · exact ((div_le_one hpositive).mpr (by linarith)).trans h.gross

/-- The account after a planned BUY is filled. -/
theorem book_bought {t : Trade} {st : Store} (hside : t.side = .BUY)
    (hrow : (st.cash.get? (.paper, .KRW)).isSome)
    (hnone : st.positions.get? (.paper, t.symbol) = none) (hpx : 0 ≤ t.px) (hqty : 0 < t.qty) :
    PaperBroker.cash (PaperBroker.book t st) = PaperBroker.cash st - (t.grossKrw + t.costKrw) ∧
      ((PaperBroker.book t st).cash.get? (.paper, .KRW)).isSome ∧
      ∀ x row, (PaperBroker.book t st).positions.get? (.paper, x) = some row →
        x = t.symbol ∧ 0 ≤ row.avgPrice ∨ x ≠ t.symbol ∧ st.positions.get? (.paper, x) = some row := by
  have hcash : (PaperBroker.book t st).cash =
      st.cash.insert (.paper, .KRW) (PaperBroker.cash st + t.cashKrw) := by
    unfold PaperBroker.book
    rw [if_pos hrow]
  refine ⟨?_, ?_, ?_⟩
  · rw [PaperBroker.cash, hcash, Dict.getD, Dict.get?_insert_self, Option.getD_some, Trade.cashKrw,
      hside]
    ring
  · rw [hcash, Dict.get?_insert_self]
    rfl
  · intro x row hget
    rw [PaperBroker.get?_book] at hget
    by_cases hx : x = t.symbol
    · rw [if_pos hx] at hget
      have hheld : (PaperBroker.positions st).get? t.symbol = none := by
        rw [PaperBroker.get?_positions, hnone]
        rfl
      rw [hheld, hnone] at hget
      have hafter : PaperBroker.positionAfter t none = ⟨t.symbol, t.qty, t.px, t.currency⟩ := by
        simp [PaperBroker.positionAfter, hside, hqty.ne']
      rw [hafter, if_neg (not_le.mpr hqty)] at hget
      cases hget
      exact .inl ⟨hx, hpx⟩
    · rw [if_neg hx] at hget
      exact .inr ⟨hx, hget⟩

/-- The loop after a fill. -/
theorem Ready.filled (h : Ready quote fx turn (order :: rest) s) (hs : Steady quote fx turn)
    {t : Trade} {st : Store} {risk : RiskManager} (hside : t.side = .BUY)
    (hsymbol : t.symbol = order.1.symbol) (hpx : 0 ≤ t.px) (hqty : 0 < t.qty)
    (hid : t.orderId = (turn order.1.symbol).market.orderId)
    (hsame : PaperBroker.SameLedger s.store st)
    (hother : ∀ other ∈ rest, other.1.symbol ≠ order.1.symbol ∧
      (turn other.1.symbol).market.orderId ≠ (turn order.1.symbol).market.orderId)
    (hsettings : risk.settings = s.risk.settings ∧ risk.brokerName = s.risk.brokerName)
    (hunwarned : ∀ x reasons, risk.warningCache.get? x = some reasons → reasons = []) :
    let seen := PaperBroker.snapshot (turn order.1.symbol).later (PaperBroker.book t st)
      (turn order.1.symbol).marks
    Ready quote fx turn rest ⟨seen.1, risk, seen.2⟩ ∧
      PaperBroker.cash seen.1 = PaperBroker.cash s.store - (t.grossKrw + t.costKrw) := by
  have hrow : (st.cash.get? (.paper, .KRW)).isSome := hsame.cash ▸ h.cash_row
  have hnone : st.positions.get? (.paper, t.symbol) = none := by
    rw [hsame.positions, hsymbol]
    exact h.unheld order (List.mem_cons_self ..)
  obtain ⟨hcash, hcashrow, hrows⟩ := book_bought hside hrow hnone hpx hqty
  have hcash' : PaperBroker.cash st = PaperBroker.cash s.store := by
    rw [PaperBroker.cash, hsame.cash, PaperBroker.cash]
  have horders : (PaperBroker.book t st).orders =
      s.store.orders.insert (.paper, t.orderId) t.orderRow := by
    rw [← hsame.orders]
    rfl
  have hstamps : StampsOne .paper t.now s.store (PaperBroker.book t st) := .of_insert horders rfl
  unfold PaperBroker.snapshot PaperBroker.refreshFx
  rw [hs.rate_later]
  refine ⟨?_, hcash.trans (by rw [hcash'])⟩
  refine ⟨rfl, rfl, rfl, ?_, hcashrow, ?_, ?_, ?_, ?_, ?_, ?_, ?_, hunwarned⟩
  · intro x price hprice
    simp only at hprice
    split at hprice
    · cases hprice
    · refine Dict.ofList_property (P := fun price => 0 ≤ price) ?_ hprice
      intro e he
      cases hmarks : (turn order.1.symbol).marks with
      | none => simp [hmarks] at he
      | some prices =>
        rw [hmarks] at he
        rw [hs.marks _ prices hmarks e he]
        exact (hs.quote_pos e.1).le
  · intro x row hget
    rcases hrows x row hget with ⟨-, havg⟩ | ⟨-, hold⟩
    · exact havg
    · exact h.average x row (hsame.positions ▸ hold)
  · intro other hmem
    cases hget : (PaperBroker.book t st).positions.get? (.paper, other.1.symbol) with
    | none => rfl
    | some row =>
      rcases hrows _ row hget with ⟨heq, -⟩ | ⟨-, hold⟩
      · exact absurd (heq.trans hsymbol) (hother other hmem).1
      · rw [hsame.positions, h.unheld other (List.mem_cons_of_mem _ hmem)] at hold
        cases hold
  · intro other hmem
    show (PaperBroker.book t st).orders.get? _ = none
    have hne : ((BrokerName.paper, (turn other.1.symbol).market.orderId) : BrokerName × String) ≠
        (.paper, t.orderId) := fun heq => (hother other hmem).2 ((Prod.mk.inj heq).2.trans hid)
    rw [horders, Dict.get?_insert_of_ne _ _ hne]
    exact h.fresh other (List.mem_cons_of_mem _ hmem)
  · exact hsettings.2.trans h.broker
  · exact hsettings.1 ▸ h.weight
  · exact hsettings.1 ▸ h.gross
  · intro day
    have hone := hstamps.recorded_le day
    have hbudget := h.budget day
    rw [List.length_cons] at hbudget
    show ((recorded (PaperBroker.book t st) .paper day).length : ℤ) + _ ≤ risk.settings.maxOrdersPerDay
    rw [hsettings.1]
    split at hone <;> omega

/-- **One turn**: a planned BUY is filled exactly when the cash covers its outlay, which it
then pays. -/
theorem placeOrder_buy (h : Ready quote fx turn (order :: rest) s) (hs : Steady quote fx turn)
    (ho : PlannedBuy quote qty order)
    (hother : ∀ other ∈ rest, other.1.symbol ≠ order.1.symbol ∧
      (turn other.1.symbol).market.orderId ≠ (turn order.1.symbol).market.orderId)
    {s' : Loop} {handled : Handled}
    (hplace : placeOrder pb (turn order.1.symbol) s order = (s', handled)) :
    if outlay pb quote fx order.1.symbol qty ≤ PaperBroker.cash s.store then
      Filled order handled ∧ Ready quote fx turn rest s' ∧
        PaperBroker.cash s'.store = PaperBroker.cash s.store - outlay pb quote fx order.1.symbol qty
    else ¬ Filled order handled := by
  have hcheck := h.check_iff hs ho (List.mem_cons_self ..)
  have hcover := notional_le_outlay pb hs.rate_pos order.1.symbol
    (hs.quote_pos order.1.symbol) ho.positive.le
  have hfresh := h.fresh order (List.mem_cons_self ..)
  obtain ⟨t, hintent, hqty, hpx, hid, hnow, hnet, hattempt⟩ := hs.attempt pb ho hfresh
  have hrisk := s.risk.checkOrder_risk s.store (turn order.1.symbol).checked s.snapshot
    (turn order.1.symbol).ask order.1 (some order.2)
  unfold placeOrder at hplace
  cases hout : s.risk.checkOrder s.store (turn order.1.symbol).checked s.snapshot
      (turn order.1.symbol).ask order.1 (some order.2) with
  | mk risk verdict =>
    rw [hout] at hcheck hrisk
    simp only [hout] at hplace
    have hunwarned : ∀ x reasons, risk.warningCache.get? x = some reasons → reasons = [] := by
      rcases hrisk with rfl | rfl
      · exact h.unwarned
      · exact (unwarned_check (hs.unwarned _) h.unwarned).2
    by_cases hfits : outlay pb quote fx order.1.symbol qty ≤ PaperBroker.cash s.store
    · rw [if_pos hfits]
      obtain rfl : verdict = .allow := hcheck.mpr (hcover.trans hfits)
      rw [if_neg (not_lt.mpr hfits)] at hattempt
      simp only [PaperBroker.submit, hattempt] at hplace
      have hpos : 0 < t.qty := hqty.symm ▸ ho.positive
      have hfilled : t.result.ok ∧ 0 < t.result.filledQuantity := ⟨rfl, hpos⟩
      rw [if_pos hfilled] at hplace
      cases hplace
      have hsymbol : t.symbol = order.1.symbol := congrArg OrderIntent.symbol hintent
      have hside : t.side = order.1.side := congrArg OrderIntent.side hintent
      obtain ⟨hready, hcash⟩ := h.filled hs (hside.trans ho.side) hsymbol
        (hpx ▸ (hs.quote_pos _).le) hpos hid
        (PaperBroker.fxFor_same (turn order.1.symbol).market order.1 s.store) hother
        (checkOrder_settings hout) hunwarned
      refine ⟨⟨rfl, hsymbol, hside, ?_, ?_⟩, hready, hcash.trans (by rw [hnet])⟩
      · rw [ho.quantity, ← hqty]
        rfl
      · rw [ho.price, ← hpx]
        rfl
    · rw [if_neg hfits]
      rw [if_pos (not_le.mp hfits)] at hattempt
      cases verdict with
      | refuse why =>
        cases hplace
        exact id
      | allow =>
        simp only [PaperBroker.submit, hattempt] at hplace
        rw [if_neg (by simp)] at hplace
        cases hplace
        exact fun hfilled => absurd hfilled.1 (by simp)

/-! ### The whole plan -/

/-- The outlay of an order. -/
def orderOutlay (pb : PaperBroker) (quote : Symbol → Decimal) (fx : Decimal)
    (order : OrderIntent × Decimal) : Decimal :=
  outlay pb quote fx order.1.symbol (order.1.quantity.getD 0)

/-- **A list of BUYs is filled exactly when the cash covers them all.** -/
theorem placeOrders_buys (hs : Steady quote fx turn) (h : Ready quote fx turn orders s)
    (hbuys : ∀ order ∈ orders, PlannedBuy quote (order.1.quantity.getD 0) order)
    (hdistinct : orders.Pairwise fun order other => other.1.symbol ≠ order.1.symbol ∧
      (turn other.1.symbol).market.orderId ≠ (turn order.1.symbol).market.orderId)
    (hcash : 0 ≤ PaperBroker.cash s.store) :
    List.Forall₂ Filled orders (placeOrders pb turn s orders).2 ↔
      (orders.map (orderOutlay pb quote fx)).sum ≤ PaperBroker.cash s.store := by
  induction orders generalizing s with
  | nil => simpa [placeOrders] using hcash
  | cons order rest ih =>
    obtain ⟨hother, hrest⟩ := List.pairwise_cons.mp hdistinct
    have hbuy := hbuys order (List.mem_cons_self ..)
    have hbuys' : ∀ o ∈ rest, PlannedBuy quote (o.1.quantity.getD 0) o :=
      fun o ho => hbuys o (List.mem_cons_of_mem _ ho)
    rw [List.map_cons, List.sum_cons]
    cases hplace : placeOrder pb (turn order.1.symbol) s order with
    | mk s' handled =>
      have hturn := placeOrder_buy h hs hbuy hother hplace
      unfold placeOrders
      rw [hplace]
      split at hturn
      · next hfits =>
        obtain ⟨hfilled, hready, hpaid⟩ := hturn
        have hleft : 0 ≤ PaperBroker.cash s'.store := by
          rw [hpaid]
          exact sub_nonneg.mpr hfits
        have hnext := ih hready hbuys' hrest hleft
        rw [hpaid] at hnext
        cases handled with
        | answered result =>
          simp only [List.forall₂_cons, hfilled, true_and, hnext]
          show _ ↔ outlay pb quote fx order.1.symbol (order.1.quantity.getD 0) + _ ≤ _
          constructor <;> intro hle <;> linarith
        | blocked why => exact hfilled.elim
        | raised => exact hfilled.elim
      · next hshort =>
        have hnonneg : 0 ≤ (rest.map (orderOutlay pb quote fx)).sum := by
          apply List.sum_nonneg
          intro cost hcost
          obtain ⟨o, ho, rfl⟩ := List.mem_map.mp hcost
          exact outlay_nonneg hs.rate_pos _ (hs.quote_pos _) (hbuys' o ho).positive.le
        have hmore : ¬ orderOutlay pb quote fx order + (rest.map (orderOutlay pb quote fx)).sum ≤
            PaperBroker.cash s.store := by
          intro hle
          exact hshort ((le_add_of_nonneg_right hnonneg).trans hle)
        refine iff_of_false ?_ hmore
        intro hall
        cases handled with
        | answered result => exact hturn (List.forall₂_cons.mp hall).1
        | blocked why => exact hturn (List.forall₂_cons.mp hall).1
        | raised => exact hturn (List.forall₂_cons.mp hall).1

/-! ### What is planned for an all-cash account -/

/-- The BUYs of a forced cycle with all markets open. -/
def planFor (quote : Symbol → Decimal) (targets : Dict Symbol Decimal) (s : Loop) :
    List (OrderIntent × Decimal) :=
  buildIntents targets s.snapshot [.KR, .US] fun x => some (quote x)

/-- An all-cash account when the orders are planned, limits of 1, an order budget for all of
them, and an order id of its own for each. -/
structure AllCash (quote : Symbol → Decimal) (fx : Decimal) (turn : Symbol → Turn)
    (targets : Dict Symbol Decimal) (cash : Decimal) (s : Loop) : Prop where
  cash_row : s.store.cash.get? (.paper, .KRW) = some cash
  flat : ∀ x, s.store.positions.get? (.paper, x) = none
  seen : ∃ m marks, m.fx = some fx ∧ s.snapshot = (PaperBroker.snapshot m s.store marks).2
  fresh : ∀ x, s.store.orders.get? (.paper, (turn x).market.orderId) = none
  ids : Function.Injective fun x => (turn x).market.orderId
  broker : s.risk.brokerName = .paper
  weight : s.risk.settings.maxPositionWeight = 1
  gross : s.risk.settings.maxGrossExposure = 1
  budget : ∀ day, ((recorded s.store .paper day).length : ℤ) + (planFor quote targets s).length ≤
    s.risk.settings.maxOrdersPerDay
  cache : s.risk.warningCache = ∅

variable {targets : Dict Symbol Decimal} {cash : Decimal}

theorem AllCash.positions_eq (h : AllCash quote fx turn targets cash s) :
    PaperBroker.positions s.store = ∅ := by
  apply Dict.eq_empty
  intro x
  rw [PaperBroker.get?_positions, h.flat]
  rfl

theorem AllCash.snapshot_eq (h : AllCash quote fx turn targets cash s) :
    s.snapshot = ⟨cash, ∅, fx, ∅⟩ := by
  obtain ⟨m, marks, hfx, hseen⟩ := h.seen
  rw [hseen]
  unfold PaperBroker.snapshot PaperBroker.refreshFx
  rw [hfx, h.positions_eq, PaperBroker.cash, Dict.getD, h.cash_row]
  rfl

/-- What is planned for one symbol of an all-cash account. -/
theorem planSymbol_allCash (hs : Steady quote fx turn) (x : Symbol)
    (hwant : 0 ≤ targets.getD x 0) :
    planSymbol targets ⟨cash, ∅, fx, ∅⟩ [.KR, .US] (fun x => some (quote x)) x =
      if targets.getD x 0 < band ∨
          wholeInKr x (targets.getD x 0 * cash / (quote x * fxAt fx x)) ≤ 0 then none
      else some (targets.getD x 0, makeIntent x .BUY
        (wholeInKr x (targets.getD x 0 * cash / (quote x * fxAt fx x))) (targets.getD x 0) 0,
        quote x) := by
  have hequity : (⟨cash, ∅, fx, ∅⟩ : AccountSnapshot).equityKrw = cash := by
    show cash + 0 = cash
    ring
  have hheld : held ⟨cash, ∅, fx, ∅⟩ x = 0 := by
    unfold held AccountSnapshot.weights
    split <;> rfl
  have hmarket : countryOf x ∈ [Country.KR, Country.US] := by cases countryOf x <;> simp
  have hquantity : quantityFor ⟨cash, ∅, fx, ∅⟩ x (targets.getD x 0) (quote x) =
      wholeInKr x (targets.getD x 0 * cash / (quote x * fxAt fx x)) := by
    rw [quantityFor, hequity, abs_of_nonneg hwant]
    rfl
  unfold planSymbol
  simp only [hheld, sub_zero, hmarket, not_true_eq_false, false_or, abs_of_nonneg hwant, hquantity,
    not_le.mpr (hs.quote_pos x)]
  by_cases hband : targets.getD x 0 < band
  · simp [hband]
  · have hup : 0 < targets.getD x 0 := lt_of_lt_of_le band_pos (not_lt.mp hband)
    by_cases hqty : wholeInKr x (targets.getD x 0 * cash / (quote x * fxAt fx x)) ≤ 0
    · simp [hband, hqty]
    · simp [hband, hqty, hup]

/-- A sum over what is planned, symbol by symbol. -/
theorem sum_filterMap {α β : Type} (f : α → Option β) (g : β → Decimal) (l : List α) :
    ((l.filterMap f).map g).sum = (l.map fun a => (f a).elim 0 g).sum := by
  induction l with
  | nil => rfl
  | cons a rest ih =>
    rw [List.map_cons, List.sum_cons, ← ih, List.filterMap_cons]
    cases f a with
    | none => simp
    | some b => simp

/-- The symbols of the book, where nothing is held. -/
theorem symbolsOf_perm (targets : Dict Symbol Decimal) (cash fx : Decimal) :
    (symbolsOf targets ⟨cash, ∅, fx, ∅⟩).Perm targets.keys := by
  have hkeys : targets.keys ++ (∅ : Dict Symbol Position).keys = targets.keys :=
    List.append_nil _
  have hsorted : (symbolsOf targets ⟨cash, ∅, fx, ∅⟩).Perm
      (targets.keys ++ (∅ : Dict Symbol Position).keys).dedup := List.perm_insertionSort _ _
  rwa [hkeys, show targets.keys.dedup = targets.keys from targets.nodup.dedup] at hsorted

theorem AllCash.planned (h : AllCash quote fx turn targets cash s) (hs : Steady quote fx turn)
    (hcash : 0 < cash) (hweights : ∀ x, 0 ≤ targets.getD x 0) :
    (planFor quote targets s).Perm ((targets.keys.filterMap (planSymbol targets ⟨cash, ∅, fx, ∅⟩
      [.KR, .US] fun x => some (quote x))).map Prod.snd) ∧
    ∀ order ∈ planFor quote targets s, PlannedBuy quote (order.1.quantity.getD 0) order := by
  have hequity : (⟨cash, ∅, fx, ∅⟩ : AccountSnapshot).equityKrw = cash := by
    show cash + 0 = cash
    ring
  have hperm : (planFor quote targets s).Perm ((targets.keys.filterMap (planSymbol targets
      ⟨cash, ∅, fx, ∅⟩ [.KR, .US] fun x => some (quote x))).map Prod.snd) := by
    rw [planFor, h.snapshot_eq, buildIntents, if_neg (by rw [hequity]; exact not_le.mpr hcash)]
    exact ((List.perm_insertionSort _ _).trans ((symbolsOf_perm targets cash fx).filterMap _)).map _
  refine ⟨hperm, fun order hmem => ?_⟩
  obtain ⟨planned, hplanned, rfl⟩ := List.mem_map.mp (hperm.subset hmem)
  obtain ⟨x, -, hx⟩ := List.mem_filterMap.mp hplanned
  rw [planSymbol_allCash hs x (hweights x)] at hx
  split at hx
  · cases hx
  · next hbuy =>
    cases hx
    rw [not_or, not_le] at hbuy
    refine ⟨rfl, rfl, rfl, rfl, hbuy.2, ?_⟩
    exact wholeInKr_wholeInKr _ _

theorem AllCash.distinct (h : AllCash quote fx turn targets cash s) (hs : Steady quote fx turn)
    (hcash : 0 < cash) (hweights : ∀ x, 0 ≤ targets.getD x 0) :
    (planFor quote targets s).Pairwise fun order other => other.1.symbol ≠ order.1.symbol ∧
      (turn other.1.symbol).market.orderId ≠ (turn order.1.symbol).market.orderId := by
  have hsymbols : ((planFor quote targets s).map fun order => order.1.symbol).Nodup := by
    rw [((h.planned hs hcash hweights).1.map _).nodup_iff, List.map_map]
    refine List.Nodup.map_on ?_ (targets.nodup.filterMap ?_)
    · intro a ha b hb hsymbol
      obtain ⟨x, -, hx⟩ := List.mem_filterMap.mp ha
      obtain ⟨y, -, hy⟩ := List.mem_filterMap.mp hb
      have hxy : x = y := ((planSymbol_planned hx).intent_symbol.symm.trans hsymbol).trans
        (planSymbol_planned hy).intent_symbol
      subst hxy
      exact Option.some.inj (hx.symm.trans hy)
    · intro x y b hx hy
      exact (planSymbol_planned hx).intent_symbol.symm.trans (planSymbol_planned hy).intent_symbol
  rw [List.Nodup, List.pairwise_map] at hsymbols
  exact hsymbols.imp fun hne => ⟨hne.symm, fun heq => hne.symm (h.ids heq)⟩

/-- The orders planned cost what the weights ask for. -/
theorem AllCash.outlay_eq (h : AllCash quote fx turn targets cash s) (hs : Steady quote fx turn)
    (hcash : 0 < cash) (hweights : ∀ x, 0 ≤ targets.getD x 0) :
    ((planFor quote targets s).map (orderOutlay pb quote fx)).sum =
      planOutlay pb quote fx targets cash := by
  rw [((h.planned hs hcash hweights).1.map _).sum_eq, List.map_map, sum_filterMap, planOutlay,
    Dict.keys, List.map_map]
  apply congrArg List.sum
  apply List.map_congr_left
  intro e he
  have hwant : targets.getD e.1 0 = e.2 := by
    rw [Dict.getD, (Dict.get?_eq_some _ _ _).mpr he]
    rfl
  have hnonneg : 0 ≤ e.2 := hwant ▸ hweights e.1
  show (planSymbol targets ⟨cash, ∅, fx, ∅⟩ [.KR, .US] (fun x => some (quote x)) e.1).elim 0 _ = _
  rw [planSymbol_allCash hs e.1 (hweights e.1), hwant]
  by_cases hband : e.2 < band
  · rw [if_pos (.inl hband), if_pos hband]
    rfl
  · by_cases hqty : wholeInKr e.1 (e.2 * cash / (quote e.1 * fxAt fx e.1)) ≤ 0
    · have hexact : wholeInKr e.1 (e.2 * cash / (quote e.1 * fxAt fx e.1)) = 0 :=
        le_antisymm hqty (wholeInKr_nonneg (div_nonneg (mul_nonneg hnonneg hcash.le)
          (mul_nonneg (hs.quote_pos _).le (fxAt_pos hs.rate_pos _).le)) e.1)
      rw [if_pos (.inr hqty), if_neg hband, hexact, outlay_zero hs]
      rfl
    · rw [if_neg (by rw [not_or]; exact ⟨hband, hqty⟩), if_neg hband]
      rfl

end

/-- Without cash there is nothing to plan and nothing to pay. -/
theorem AllCash.broke (pb : PaperBroker) {quote : Symbol → Decimal} {fx : Decimal}
    {turn : Symbol → Turn} {targets : Dict Symbol Decimal} {s : Loop}
    (h : AllCash quote fx turn targets 0 s) (hs : Steady quote fx turn) :
    planFor quote targets s = [] ∧ planOutlay pb quote fx targets 0 = 0 := by
  constructor
  · rw [planFor, h.snapshot_eq]
    exact if_pos (add_zero (0 : Decimal)).le
  · apply List.sum_eq_zero
    intro cost hcost
    obtain ⟨e, -, rfl⟩ := List.mem_map.mp hcost
    have hnothing : wholeInKr e.1 (e.2 * 0 / (quote e.1 * fxAt fx e.1)) = 0 := by
      rw [mul_zero, zero_div]
      exact le_antisymm (wholeInKr_le le_rfl _) (wholeInKr_nonneg le_rfl _)
    rw [hnothing, outlay_zero hs, ite_self]

/-- **A plan is executable exactly when the cash covers its outlay.** In a market that stands
still, every BUY that the planner makes for an all-cash account passes its check and is
filled, or the whole shares of its weights cost more than there is once charged. -/
theorem funded_plan_iff (pb : PaperBroker) {quote : Symbol → Decimal} {fx : Decimal}
    {turn : Symbol → Turn} {targets : Dict Symbol Decimal} {cash : Decimal} {s : Loop}
    (hs : Steady quote fx turn) (h : AllCash quote fx turn targets cash s) (hcash : 0 ≤ cash)
    (hweights : ∀ x, 0 ≤ targets.getD x 0) :
    List.Forall₂ Filled (planFor quote targets s)
        (placeOrders pb turn s (planFor quote targets s)).2 ↔
      planOutlay pb quote fx targets cash ≤ cash := by
  rcases hcash.eq_or_lt with rfl | hcash
  · obtain ⟨hplan, hfree⟩ := h.broke pb hs
    simp [hplan, hfree, placeOrders]
  have hstart : PaperBroker.cash s.store = cash := by
    rw [PaperBroker.cash, Dict.getD, h.cash_row]
    rfl
  have hready : Ready quote fx turn (planFor quote targets s) s := by
    have hseen := h.snapshot_eq
    refine ⟨?_, ?_, ?_, ?_, ?_, ?_, fun _ _ => h.flat _, fun _ _ => h.fresh _, h.broker,
      h.weight.ge, h.gross.ge, h.budget, ?_⟩
    · rw [hseen, hstart]
    · rw [hseen, h.positions_eq]
    · rw [hseen]
    · intro x price hprice
      rw [hseen] at hprice
      cases hprice
    · rw [h.cash_row]
      rfl
    · intro x row hrow
      rw [h.flat] at hrow
      cases hrow
    · intro x reasons hget
      rw [h.cache] at hget
      cases hget
  rw [placeOrders_buys hs hready (h.planned hs hcash hweights).2 (h.distinct hs hcash hweights)
    (hstart.symm ▸ hcash.le), h.outlay_eq hs hcash hweights, hstart]

/-! ### All in, and half of it -/

/-- A quiet market at 10,000 a share; an order's id is its symbol. -/
def quiet (x : Symbol) : Turn where
  checked := ⟨⟨2026, 8, 17⟩, 20000⟩
  ask := fun _ => none
  market := ⟨none, some 10000, some 1400, x, ⟨⟨2026, 8, 17⟩, 20000⟩⟩
  later := ⟨none, some 10000, some 1400, x, ⟨⟨2026, 8, 17⟩, 20000⟩⟩
  marks := none

/-- A million in cash and limits of 1. -/
def millionLoop : Loop where
  store := PaperBroker.ensureCash 1000000 {}
  risk := { brokerName := .paper, settings := { maxPositionWeight := 1, maxGrossExposure := 1 } }
  snapshot := .allCash 1000000

theorem quiet_steady : Steady (fun _ => 10000) 1400 quiet where
  ask := fun _ _ hbook => by cases hbook
  last := fun _ => rfl
  rate := fun _ => rfl
  rate_later := fun _ => rfl
  marks := fun _ _ hmarks => by cases hmarks
  unwarned := fun _ _ => rfl
  quote_pos := fun _ => by norm_num
  rate_pos := by norm_num

theorem million_allCash {targets : Dict Symbol Decimal}
    (hfew : (planFor (fun _ => 10000) targets millionLoop).length ≤ 40) :
    AllCash (fun _ => 10000) 1400 quiet targets 1000000 millionLoop where
  cash_row := rfl
  flat := fun _ => rfl
  seen := ⟨(quiet "").later, none, rfl, rfl⟩
  fresh := fun _ => rfl
  ids := fun _ _ h => h
  broker := rfl
  weight := rfl
  gross := rfl
  budget := by
    intro day
    show (0 : ℤ) + ((planFor (fun _ => 10000) targets millionLoop).length : ℤ) ≤ 40
    omega
  cache := rfl

/-- Half of the million in one ETF: fifty shares are bought. -/
theorem funded_plan_iff_half :
    List.Forall₂ Filled (planFor (fun _ => 10000) (Dict.ofList [("069500", 1 / 2)]) millionLoop)
      (placeOrders {} quiet millionLoop
        (planFor (fun _ => 10000) (Dict.ofList [("069500", 1 / 2)]) millionLoop)).2 := by
  have hweights : ∀ x, 0 ≤ (Dict.ofList [("069500", (1 / 2 : Decimal))]).getD x 0 := by
    intro x
    refine Dict.getD_property _ x le_rfl ?_
    intro k v hget
    exact Dict.ofList_property (P := fun w => 0 ≤ w) (by decide +kernel) hget
  exact (funded_plan_iff {} quiet_steady (million_allCash (by decide +kernel)) (by norm_num)
    hweights).mpr (by decide +kernel)

theorem filled_ok {orders : List (OrderIntent × Decimal)} {handled : List Handled}
    (h : List.Forall₂ Filled orders handled) :
    (handled.filterMap Handled.result?).all OrderResult.ok = true := by
  induction h with
  | nil => rfl
  | @cons order handled _ _ hfilled _ ih =>
    cases handled with
    | answered result => simp [Handled.result?, hfilled.1, ih]
    | blocked why => exact hfilled.elim
    | raised => exact hfilled.elim

/-- The whole of it: the order for a hundred shares passes its check, the cash does not cover
its commission, and nothing is bought. -/
theorem funded_plan_unbought :
    Steady (fun _ => 10000) 1400 quiet ∧
      AllCash (fun _ => 10000) 1400 quiet (Dict.ofList [("069500", 1)]) 1000000 millionLoop ∧
      (Dict.ofList [("069500", (1 : Decimal))]).total ≤ 1 ∧
      ¬ List.Forall₂ Filled (planFor (fun _ => 10000) (Dict.ofList [("069500", 1)]) millionLoop)
        (placeOrders {} quiet millionLoop
          (planFor (fun _ => 10000) (Dict.ofList [("069500", 1)]) millionLoop)).2 ∧
      ((placeOrders {} quiet millionLoop (planFor (fun _ => 10000)
        (Dict.ofList [("069500", 1)]) millionLoop)).2.filterMap Handled.result?).map
          OrderResult.error = [some "insufficient paper cash: need 1,000,150 have 1,000,000"] := by
  refine ⟨quiet_steady, million_allCash (by decide +kernel), by decide +kernel, ?_, by decide +kernel⟩
  intro hall
  have hrefused : ((placeOrders {} quiet millionLoop (planFor (fun _ => 10000)
      (Dict.ofList [("069500", 1)]) millionLoop)).2.filterMap Handled.result?).all
        OrderResult.ok = false := by
    decide +kernel
  rw [filled_ok hall] at hrefused
  cases hrefused

end Tqt.Runner
