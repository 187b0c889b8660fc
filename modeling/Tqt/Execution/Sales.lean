import Tqt.Execution.Live

/-! The quantity of a live sale.

`submit` cuts the request to whole shares, refuses what is left of less than one, and trims the
rest to what is sellable. The trim cuts to whole shares once more and nothing looks at the
result: where less than one Korean share is sellable a sale of none is sent (`zero_sold`). That
is the only way a sale goes wrong (`sellsWell_iff`). -/
namespace Tqt.LiveBroker

/-- A quantity that a sale may be sent with. -/
structure Sellable (symbol : Symbol) (requested avail qty : Decimal) : Prop where
  positive : 0 < qty
  asked : qty ≤ requested
  covered : qty ≤ avail
  whole : countryOf symbol = .KR → Whole qty

/-- Every sale that is handed to `create_order` has such a quantity, and where there is none
`submit` answers that it failed, whatever the order endpoint would have said. -/
structure SellsWell (b : LiveBroker) (intent : OrderIntent) (requested : Decimal)
    (answer : Except TossError Decimal) : Prop where
  sent : ∀ out, b.prepare intent answer = .ok out →
    ∃ qty, out.1 = some qty ∧ Sellable intent.symbol requested (sellable answer) qty
  refused : (∀ qty, ¬ Sellable intent.symbol requested (sellable answer) qty) →
    ∃ result, result.ok = false ∧ ∀ maxRetries st now uuid attempts polls,
      b.submit maxRetries st now intent uuid ⟨answer, attempts, polls⟩ = (.returned result, st)

section
variable {b : LiveBroker} {intent : OrderIntent} {requested : Decimal}
  {answer : Except TossError Decimal}

theorem prepare_sell (hside : intent.side = .SELL) (hqty : intent.quantity = some requested) :
    b.prepare intent answer =
      if countryOf intent.symbol = .KR ∧ wholeInKr intent.symbol requested ≤ 0 then
        .error "quantity rounds to zero"
      else if sellable answer ≤ 0 then .error "sellable quantity is 0"
      else .ok (some (trim intent.symbol (wholeInKr intent.symbol requested) (sellable answer)),
        b.limitPrice intent) := by
  unfold prepare
  simp only [hqty, hside]

/-- A trimmed sale of at least one share, in Korea, is one of whole shares. -/
theorem trim_sellable {symbol : Symbol} {requested avail : Decimal} (hrequested : 0 < requested)
    (havail : 0 < avail) (hone : countryOf symbol = .KR → 1 ≤ requested ∧ 1 ≤ avail) :
    Sellable symbol requested avail (trim symbol (wholeInKr symbol requested) avail) := by
  have hpos {qty : Decimal} (hqty : 0 < qty) (hkr : countryOf symbol = .KR → 1 ≤ qty) :
      0 < wholeInKr symbol qty := by
    by_cases hmarket : countryOf symbol = .KR
    · exact one_pos.trans_le (one_le_wholeInKr symbol (hkr hmarket))
    · rwa [wholeInKr, if_neg hmarket]
  unfold trim
  split
  · next hlt =>
    have hle := wholeInKr_le havail.le symbol
    refine ⟨hpos havail fun hkr => (hone hkr).2, ?_, hle, fun hkr => wholeInKr_whole hkr avail⟩
    exact hle.trans (hlt.le.trans (wholeInKr_le hrequested.le symbol))
  · next hle =>
    exact ⟨hpos hrequested fun hkr => (hone hkr).1, wholeInKr_le hrequested.le symbol, not_lt.mp hle,
      fun hkr => wholeInKr_whole hkr requested⟩

theorem submit_of_error {error : String} (h : b.prepare intent answer = .error error)
    (maxRetries : ℕ) (st : Store) (now : Instant) (uuid : String)
    (attempts : ℕ → TossClient.Attempt TossClient.OrderAck) (polls : ℕ → Except TossError Order) :
    b.submit maxRetries st now intent uuid ⟨answer, attempts, polls⟩ =
      (.returned (refused intent error), st) := by
  unfold submit
  simp only [h]

/-- **Exactly when a sale is well formed**: unless at least one Korean share is asked for and some
but less than one is sellable. -/
theorem sellsWell_iff (b : LiveBroker) (hside : intent.side = .SELL)
    (hqty : intent.quantity = some requested) (hpos : 0 < requested)
    (answer : Except TossError Decimal) :
    SellsWell b intent requested answer ↔
      ¬ (countryOf intent.symbol = .KR ∧ 1 ≤ requested ∧ 0 < sellable answer ∧ sellable answer < 1) := by
  constructor
  · rintro h ⟨hkr, hone, havail, hfew⟩
    have hwhole := one_le_wholeInKr intent.symbol hone
    have hzero : wholeInKr intent.symbol (sellable answer) ≤ 0 := by
      rw [← not_lt, wholeInKr_pos_iff hkr]
      exact hfew.not_ge
    have hprepare : b.prepare intent answer =
        .ok (some (wholeInKr intent.symbol (sellable answer)), b.limitPrice intent) := by
      rw [prepare_sell hside hqty, if_neg fun hnone => (one_pos.trans_le hwhole).not_ge hnone.2,
        if_neg havail.not_ge, trim, if_pos (hfew.trans_le hwhole)]
    obtain ⟨qty, hsent, hsellable⟩ := h.sent _ hprepare
    cases hsent
    exact hsellable.positive.not_ge hzero
  · intro h
    have hsent : ∀ out, b.prepare intent answer = .ok out →
        ∃ qty, out.1 = some qty ∧ Sellable intent.symbol requested (sellable answer) qty := by
      intro out hout
      rw [prepare_sell hside hqty] at hout
      split at hout
      · cases hout
      · next hrounds =>
        split at hout
        · cases hout
        · next havail =>
          cases hout
          have havail := not_le.mp havail
          refine ⟨_, rfl, trim_sellable hpos havail fun hkr => ?_⟩
          have hone : 1 ≤ requested := by
            rw [not_and, not_le, wholeInKr_pos_iff hkr] at hrounds
            exact hrounds hkr
          exact ⟨hone, not_lt.mp fun hfew => h ⟨hkr, hone, havail, hfew⟩⟩
    refine ⟨hsent, fun hnone => ?_⟩
    cases hprepare : b.prepare intent answer with
    | error error => exact ⟨refused intent error, rfl, submit_of_error hprepare⟩
    | ok out =>
      obtain ⟨qty, -, hsellable⟩ := hsent out hprepare
      exact absurd hsellable (hnone qty)

end

def sellFive : OrderIntent := .market "005930" .SELL 5 "" ""

/-- Of five shares three and a half are sellable: three are sold. -/
theorem sellsWell_three : SellsWell {} sellFive 5 (.ok (7 / 2)) ∧
    prepare {} sellFive (.ok (7 / 2)) = .ok (some 3, none) :=
  ⟨(sellsWell_iff {} rfl rfl (by norm_num) _).mpr (by decide +kernel), by decide +kernel⟩

/-- Half a share is sellable: a sale of none is sent. -/
theorem zero_sold : prepare {} sellFive (.ok (1 / 2)) = .ok (some 0, none) ∧
    ¬ ∀ (b : LiveBroker) (intent : OrderIntent) (requested : Decimal) (answer : Except TossError Decimal),
      intent.side = .SELL → intent.quantity = some requested → 0 < requested →
      (∀ avail, answer = .ok avail → 0 ≤ avail) → SellsWell b intent requested answer := by
  have hzero : prepare {} sellFive (.ok (1 / 2)) = .ok (some 0, none) := by decide +kernel
  refine ⟨hzero, fun hall => ?_⟩
  have hwell : SellsWell {} sellFive 5 (.ok (1 / 2)) := by
    refine hall {} sellFive 5 (.ok (1 / 2)) rfl rfl (by norm_num) fun avail havail => ?_
    cases havail
    norm_num
  obtain ⟨qty, hsent, hsellable⟩ := hwell.sent _ hzero
  cases hsent
  exact lt_irrefl _ hsellable.positive

end Tqt.LiveBroker
