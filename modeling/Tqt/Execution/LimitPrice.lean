import Tqt.Execution.Live
import Tqt.Tick.Aggressive

/-! The price a live LIMIT order is sent at.

`submit` rounds the price of the intent to a tick with the side of the order, and that rounding says
it keeps the order at least as aggressive as it was meant. For a US symbol the side is not looked
at: half of all prices between two cents are sent at the worse one (`buy_rounded_down`). The
property holds exactly where the rounding happens to keep the side, or where the order is refused
for its quantity whatever the price (`neverLessAggressive_iff`). -/
namespace Tqt.LiveBroker

/-- The price `submit` hands to `create_order`, in the arithmetic of the source; `none` is an
`InvalidOperation`. -/
def limitPriceIn (b : LiveBroker) (intent : OrderIntent) : Option (Option Decimal) :=
  match intent.orderType, intent.price with
  | .LIMIT, some p =>
    (Context.roundToTick p (countryOf intent.symbol) (b.etfSymbols.contains intent.symbol)
      (some intent.side)).map some
  | _, _ => some intent.price

/-- The quantity and the price `submit` hands to `create_order`, if it gets there. -/
def handed (b : LiveBroker) (intent : OrderIntent) (answer : Except TossError Decimal) :
    Option (Option Decimal × Option Decimal) :=
  match b.prepare intent answer with
  | .error _ => none
  | .ok sent => (b.limitPriceIn intent).map fun price => (sent.1, price)

/-- Every order that is sent is at least as aggressive as its intent, whatever is sellable. -/
def NeverLessAggressive (b : LiveBroker) (intent : OrderIntent) (price : Decimal) : Prop :=
  ∀ answer sent, b.handed intent answer = some sent →
    ∃ r, sent.2 = some r ∧ AsAggressive intent.side price r

/-- Less than one Korean share is asked for. -/
def NothingLeft (intent : OrderIntent) : Prop :=
  countryOf intent.symbol = .KR ∧ ∃ requested, intent.quantity = some requested ∧ requested < 1

/-- The digits of the context change nothing about the price. -/
def Exact (b : LiveBroker) (intent : OrderIntent) (price : Decimal) : Prop :=
  match countryOf intent.symbol with
  | .US => price * 100 < overflow
  | .KR => price ≤ 10 ^ 28 ∧ Rounding.Digits Context.precision
      (price / tickSize price (b.etfSymbols.contains intent.symbol))

section
variable {b : LiveBroker} {intent : OrderIntent} {price : Decimal}

theorem limitPriceIn_limit (hlimit : intent.orderType = .LIMIT) (hprice : intent.price = some price) :
    b.limitPriceIn intent =
      (Context.roundToTick price (countryOf intent.symbol) (b.etfSymbols.contains intent.symbol)
        (some intent.side)).map some := by
  unfold limitPriceIn
  rw [hlimit, hprice]

/-- Within the digits of the context what is handed over is what was prepared. -/
theorem handed_eq (hpos : 0 < price) (hprice : intent.price = some price) (hexact : Exact b intent price)
    (answer : Except TossError Decimal) : b.handed intent answer = (b.prepare intent answer).toOption := by
  have hround : Context.roundToTick price (countryOf intent.symbol)
      (b.etfSymbols.contains intent.symbol) (some intent.side) =
        some (roundToTick price (countryOf intent.symbol) (b.etfSymbols.contains intent.symbol)
          (some intent.side)) := by
    unfold Exact at hexact
    cases hcountry : countryOf intent.symbol <;> rw [hcountry] at hexact <;> dsimp only at hexact
    case US =>
      rw [roundToTick_us hpos, if_neg (not_le.mpr hexact)]
      rfl
    case KR => exact roundToTick_eq hpos.le hexact.1 hexact.2 _
  have hlimitPrice : b.limitPriceIn intent = some (b.limitPrice intent) := by
    unfold limitPriceIn limitPrice
    rw [hprice]
    cases hkind : intent.orderType with
    | LIMIT =>
      dsimp only
      rw [hround]
      rfl
    | MARKET => rfl
  have hprepared {sent : Option Decimal × Option Decimal} (h : b.prepare intent answer = .ok sent) :
      sent.2 = b.limitPrice intent := by
    unfold prepare at h
    grind
  unfold handed
  cases h : b.prepare intent answer with
  | error => rfl
  | ok sent =>
    rw [hlimitPrice, ← hprepared h]
    rfl

/-- Some order is sent, unless it has no whole share. -/
theorem exists_prepared_iff :
    (∃ answer sent, b.prepare intent answer = .ok sent) ↔ ¬ NothingLeft intent := by
  have hzero {requested : Decimal} (hkr : countryOf intent.symbol = .KR) :
      wholeInKr intent.symbol requested ≤ 0 ↔ requested < 1 := by
    rw [← not_lt, wholeInKr_pos_iff hkr, not_le]
  constructor
  · rintro ⟨answer, sent, hsent⟩ ⟨hkr, requested, hqty, hfew⟩
    unfold prepare at hsent
    rw [hqty] at hsent
    dsimp only at hsent
    rw [if_pos ⟨hkr, (hzero hkr).mpr hfew⟩] at hsent
    cases hsent
  · intro h
    refine ⟨.ok 1, ?_⟩
    unfold prepare
    cases hqty : intent.quantity with
    | none => exact ⟨_, rfl⟩
    | some requested =>
      have hleft : ¬ (countryOf intent.symbol = .KR ∧ wholeInKr intent.symbol requested ≤ 0) :=
        fun hnone => h ⟨hnone.1, requested, hqty, (hzero hnone.1).mp hnone.2⟩
      dsimp only
      rw [if_neg hleft]
      cases intent.side with
      | BUY => exact ⟨_, rfl⟩
      | SELL => exact ⟨_, if_neg (show ¬ sellable (.ok 1) ≤ 0 by decide +kernel)⟩

/-- **Exactly when a limit order keeps its side.** -/
theorem neverLessAggressive_iff (b : LiveBroker) (hlimit : intent.orderType = .LIMIT)
    (hprice : intent.price = some price) (hpos : 0 < price) :
    NeverLessAggressive b intent price ↔ NothingLeft intent ∨
      KeepsSide (countryOf intent.symbol) (b.etfSymbols.contains intent.symbol) intent.side price := by
  rw [← asAggressive_iff hpos, or_iff_not_imp_left, ← exists_prepared_iff (b := b)]
  constructor
  · rintro h ⟨answer, sent, hsent⟩ r hr
    have hhanded : b.handed intent answer = some (sent.1, some r) := by
      unfold handed
      rw [hsent, limitPriceIn_limit hlimit hprice, hr]
      rfl
    obtain ⟨r', hr', hside⟩ := h answer _ hhanded
    cases hr'
    exact hside
  · intro h answer sent hhanded
    unfold handed at hhanded
    cases hsent : b.prepare intent answer with
    | error =>
      rw [hsent] at hhanded
      cases hhanded
    | ok prepared =>
      rw [hsent, limitPriceIn_limit hlimit hprice] at hhanded
      dsimp only at hhanded
      rw [Option.map_map] at hhanded
      obtain ⟨r, hr, rfl⟩ := Option.map_eq_some_iff.mp hhanded
      exact ⟨r, rfl, h ⟨answer, prepared, hsent⟩ r hr⟩

end

def buyApple (price : Decimal) : OrderIntent :=
  { OrderIntent.market "AAPL" .BUY 1 "" "" with
    orderType := .LIMIT
    price := some price
    priced := by simp }

/-- Above half a cent the order is sent at the cent above. -/
theorem neverLessAggressive_up : NeverLessAggressive {} (buyApple (10 + 6 / 1000)) (10 + 6 / 1000) ∧
    handed {} (buyApple (10 + 6 / 1000)) (.ok 0) = some (some 1, some (10 + 1 / 100)) := by
  have hkeeps : KeepsSide .US false .BUY (10 + 6 / 1000) :=
    .inr (.inr (.inl (by decide +kernel)))
  exact ⟨(neverLessAggressive_iff {} rfl rfl (by norm_num)).mpr (.inr hkeeps), by decide +kernel⟩

/-- Below half a cent the order is sent at the cent below: it will not be filled at its price. -/
theorem buy_rounded_down : handed {} (buyApple (10 + 4 / 1000)) (.ok 0) = some (some 1, some 10) ∧
    ¬ ∀ (b : LiveBroker) (intent : OrderIntent) (price : Decimal), intent.orderType = .LIMIT →
      intent.price = some price → 0 < price → NeverLessAggressive b intent price := by
  have hsent : handed {} (buyApple (10 + 4 / 1000)) (.ok 0) = some (some 1, some 10) := by decide +kernel
  refine ⟨hsent, fun hall => ?_⟩
  obtain ⟨r, hr, hside⟩ := hall {} (buyApple (10 + 4 / 1000)) (10 + 4 / 1000) rfl rfl (by norm_num) _ _ hsent
  cases hr
  exact absurd (show (10 + 4 / 1000 : Decimal) ≤ 10 from hside) (by norm_num)

end Tqt.LiveBroker
