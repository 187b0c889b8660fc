import Tqt.Runner.Thresholds

/-! A sleeve without a decision.

An allocation that fails contributes nothing to the book, and the planner reads a
missing target as zero. So the holdings of its sleeve are kept only where the account is not
far enough from the book for a sale (`Spared`); `undecided_kept_iff` says that this is the
only protection they have, and `undecided_sold` is a run where they are sold. A
backtest of the same allocation keeps them (`Backtester.decide_undecided`). -/
namespace Tqt

namespace Runner
open Context

/-- The orders of a cycle: none if no strategy produced targets. -/
def cycleIntents (plan : PortfolioPlan) (data : LocalData) (snapshot : AccountSnapshot)
    (markets : List Country) (prices : Symbol → Option Decimal) : List (OrderIntent × Decimal) :=
  let targets := plan.targetWeightsIn fix data none
  if targets.entries = [] then [] else buildIntentsIn fix targets snapshot markets prices

/-- The symbol belongs to the sleeve of `a` and to no other sleeve of the plan. -/
def OnlyIn (plan : PortfolioPlan) (a : Allocation) (symbol : Symbol) : Prop :=
  symbol ∈ a.sleeve.symbols ∧
    ∀ b ∈ plan.allocations, symbol ∈ b.sleeve.symbols → b.sleeve.key = a.sleeve.key

section
variable (plan : PortfolioPlan) (data : LocalData) (snapshot : AccountSnapshot)
  (markets : List Country) (prices : Symbol → Option Decimal)

/-- How far a held weight exceeds what the allocations that decided want of the symbol. -/
def excess (symbol : Symbol) : Decimal :=
  heldIn fix snapshot symbol -
    PortfolioPlan.scaledIn fix (PortfolioPlan.grossIn fix plan.allocations data none)
      (PortfolioPlan.wantedIn fix plan.allocations data none symbol)

/-- The account gives no reason to sell: it is worth nothing, the market is closed, there is
no share to sell, the excess is under 1%, or there is no quote at which it is a share's worth. -/
def Spared (symbol : Symbol) (pos : Position) : Prop :=
  snapshot.equityIn fix ≤ 0 ∨ countryOf symbol ∉ markets ∨ wholeInKr symbol pos.quantity ≤ 0 ∨
    ¬ wide.Mem (excess plan data snapshot symbol) ∨
    ∀ price, prices symbol = some price → 0 < price → snapshot.fxOf symbol ≤ 0 ∨
      countryOf symbol = .KR ∧
        ¬ (worthShare price (snapshot.equityIn fix)).Mem (excess plan data snapshot symbol)

variable {plan data snapshot markets prices}

theorem spared_iff {symbol : Symbol} {pos : Position}
    (hpos : snapshot.positions.get? symbol = some pos) :
    Spared plan data snapshot markets prices symbol pos ↔
      ¬ Exposed ((plan.targetWeightsIn fix data none).getD symbol 0) snapshot markets prices symbol
        .SELL := by
  have hzero : fix 0 = 0 := fix_eq_zero.mpr rfl
  have hgap : gap ((plan.targetWeightsIn fix data none).getD symbol 0) (heldIn fix snapshot symbol) .SELL =
      excess plan data snapshot symbol := by
    rw [PortfolioPlan.targetWeightsIn_getD fix hzero]
    rfl
  constructor
  · intro h hexposed
    obtain ⟨hequity, hmarket, hwide, ⟨price, hp, hprice, hfx, hworth⟩, hheld⟩ := hexposed
    obtain ⟨pos', hpos', hshare⟩ := hheld rfl
    obtain rfl : pos = pos' := Option.some.inj (hpos.symm.trans hpos')
    rw [hgap] at hwide hworth
    rcases h with h | h | h | h | h
    · exact hequity.not_ge h
    · exact h hmarket
    · exact hshare.not_ge h
    · exact h hwide
    · rcases h price hp hprice with hrate | ⟨hkr, hless⟩
      · exact hfx.not_ge hrate
      · exact hless (hworth hkr)
  · intro h
    by_contra hnot
    simp only [Spared, not_or, not_le, not_not, not_forall, not_and, exists_prop] at hnot
    obtain ⟨hequity, hmarket, hshare, hwide, price, hp, hprice, hfx, hworth⟩ := hnot
    rw [← hgap] at hwide hworth
    exact h ⟨hequity, hmarket, hwide, ⟨price, hp, hprice, hfx, hworth⟩, fun _ => ⟨pos, hpos, hshare⟩⟩

/-- A held symbol is sold in a cycle exactly when it is not spared. -/
theorem sold_iff {symbol : Symbol} {pos : Position} (hpos : snapshot.positions.get? symbol = some pos)
    (hother : ∃ b ∈ plan.allocations, b.Decides data none) :
    (∃ order ∈ cycleIntents plan data snapshot markets prices,
        order.1.symbol = symbol ∧ order.1.side = .SELL) ↔
      ¬ Spared plan data snapshot markets prices symbol pos := by
  have htargets := (plan.targetWeightsIn_ne_nil_iff fix data none).mpr hother
  rw [spared_iff hpos, not_not, exposed_iff]
  simp only [cycleIntents, htargets, if_false]

variable (plan data snapshot markets prices)

/-- **A sleeve without a decision keeps its holdings exactly when each of them is spared.**
In a cycle in which some allocation decides, whatever the plan, the data and the account. -/
theorem undecided_kept_iff (hother : ∃ b ∈ plan.allocations, b.Decides data none) :
    (∀ a ∈ plan.allocations, ¬ a.Decides data none →
        ∀ symbol pos, snapshot.positions.get? symbol = some pos → OnlyIn plan a symbol →
          ∀ order ∈ cycleIntents plan data snapshot markets prices,
            order.1.symbol = symbol → order.1.side ≠ .SELL) ↔
      ∀ a ∈ plan.allocations, ¬ a.Decides data none →
        ∀ symbol pos, snapshot.positions.get? symbol = some pos → OnlyIn plan a symbol →
          Spared plan data snapshot markets prices symbol pos := by
  refine forall₂_congr fun a _ => forall_congr' fun _ => forall₂_congr fun symbol pos =>
    forall_congr' fun hpos => forall_congr' fun _ => ?_
  have hsold : (∃ order ∈ cycleIntents plan data snapshot markets prices,
      order.1.symbol = symbol ∧ order.1.side = .SELL) ↔
        ¬ Spared plan data snapshot markets prices symbol pos := sold_iff hpos hother
  constructor
  · intro hkeep
    by_contra hspared
    obtain ⟨order, hmem, hsym, hside⟩ := hsold.mpr hspared
    exact hkeep order hmem hsym hside
  · intro hspared order hmem hsym hside
    exact hsold.mp ⟨order, hmem, hsym, hside⟩ hspared

end

/-! ### A partial failure -/

/-- Half the capital each; only the first sleeve has been synced. -/
def halfSynced : PortfolioPlan where
  allocations :=
    [⟨krGlobal, "buy-and-hold", 1 / 2, buyAndHold krGlobal⟩,
      ⟨krLargeCap, "buy-and-hold", 1 / 2, buyAndHold krLargeCap⟩]
  nonempty := nofun
  unlevered := by norm_num
  nonneg := by
    intro a ha
    rcases List.mem_cons.mp ha with rfl | ha
    · norm_num
    · rw [List.mem_singleton.mp ha]
      norm_num

/-- One close of one ETF. -/
def oneClose : LocalData := fun symbols =>
  if "069500" ∈ symbols then
    ⟨["069500"], [(⟨2026, 7, 31⟩, fun _ => some 10000)], List.pairwise_singleton _ _⟩
  else ⟨[], [], .nil⟩

/-- Fifty shares in each sleeve at 10,000, no cash. -/
def halfAndHalf : AccountSnapshot where
  cashKrw := 0
  positions := Dict.ofList
    [("005930", ⟨"005930", 50, 10000, .KRW⟩), ("069500", ⟨"069500", 50, 10000, .KRW⟩)]
  usdKrw := 1400

theorem synced_decides : ∃ b ∈ halfSynced.allocations, b.Decides oneClose none :=
  ⟨_, List.mem_cons_self .., by decide +kernel⟩

theorem unsynced_undecided : ∃ a ∈ halfSynced.allocations,
    ¬ a.Decides oneClose none ∧ OnlyIn halfSynced a "005930" := by
  refine ⟨_, List.mem_cons_of_mem _ (List.mem_singleton_self _), by decide +kernel,
    by decide +kernel, ?_⟩
  intro b hb
  rcases List.mem_cons.mp hb with rfl | hb
  · decide +kernel
  · rw [List.mem_singleton.mp hb]
    exact fun _ => rfl

/-- One share at 10,000 beside twice as much cash. -/
def thirdHeld : AccountSnapshot where
  cashKrw := 20000
  positions := Dict.ofList [("005930", ⟨"005930", 1, 10000, .KRW⟩)]
  usdKrw := 1400

/-- A weight of a third, rounded down, is worth less than the share it comes from. -/
theorem undecided_kept_third :
    (cycleIntents halfSynced oneClose thirdHeld [.KR] fun _ => some 10000) ≠ [] ∧
      ∀ order ∈ cycleIntents halfSynced oneClose thirdHeld [.KR] (fun _ => some 10000),
        order.1.symbol = "005930" → order.1.side ≠ .SELL := by
  obtain ⟨a, ha, hdecides, honly⟩ := unsynced_undecided
  have hspared : Spared halfSynced oneClose thirdHeld [.KR] (fun _ => some 10000) "005930"
      ⟨"005930", 1, 10000, .KRW⟩ := by
    refine .inr (.inr (.inr (.inr fun price hp _ => .inr ⟨rfl, ?_⟩)))
    obtain rfl : 10000 = price := Option.some.inj hp
    decide +kernel
  refine ⟨by decide +kernel, (undecided_kept_iff halfSynced oneClose thirdHeld [.KR]
    (fun _ => some 10000) synced_decides).mpr ?_ a ha hdecides "005930" _ rfl honly⟩
  intro b _ _ symbol pos hpos _
  have hget : thirdHeld.positions.get? symbol =
      if symbol = "005930" then some ⟨"005930", 1, 10000, .KRW⟩ else none :=
    Dict.get?_insert ∅ "005930" _ symbol
  rw [hget] at hpos
  split at hpos
  · next heq =>
    subst heq
    obtain rfl := Option.some.inj hpos
    exact hspared
  · cases hpos

/-- With the market open, the whole holding of the sleeve without data is sold. -/
theorem undecided_sold :
    (∃ a ∈ halfSynced.allocations, ¬ a.Decides oneClose none ∧ OnlyIn halfSynced a "005930") ∧
      (∃ b ∈ halfSynced.allocations, b.Decides oneClose none) ∧
      (cycleIntents halfSynced oneClose halfAndHalf [.KR] fun _ => some 10000).any fun order =>
        order.1.symbol = "005930" ∧ order.1.side = .SELL ∧ order.1.quantity = some 50 :=
  ⟨unsynced_undecided, synced_decides, by decide +kernel⟩

end Runner
end Tqt
