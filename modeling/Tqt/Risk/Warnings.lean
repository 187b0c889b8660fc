import Tqt.Foundation.Memo
import Tqt.Risk

/-! The warnings of a cycle.

A symbol's warnings are looked up once and kept until the cache is cleared, and a lookup that fails is
kept as no warnings. So the first buy of a symbol that gets as far as the lookup decides for the
whole cycle: if it was held back for a warning none passes, and if it passed none is held back for
one, whatever the exchange announces meanwhile (`warnings_settled`). -/
namespace Tqt.RiskManager

/-- A check of an order, with everything it reads. -/
structure Check where
  store : Store
  now : Instant
  snapshot : AccountSnapshot
  ask : Symbol → Option (List String)
  intent : OrderIntent
  price : Option Decimal

namespace Check
variable (rm : RiskManager) (c : Check)

def run : RiskManager × Verdict := rm.checkOrder c.store c.now c.snapshot c.ask c.intent c.price

/-- What it asks for, if it gets there: a failed lookup is an answer too. -/
def call : Memo.Call Symbol (List String) := .ask c.intent.symbol (some ((c.ask c.intent.symbol).getD []))

end Check

/-- The warnings of a buy are a lookup that is kept. -/
theorem buyWarnings_memo {rm : RiskManager} (hclient : rm.hasClient = true)
    (ask : Symbol → Option (List String)) (symbol : Symbol) :
    (rm.buyWarnings ask symbol).1.warningCache =
        Memo.step rm.warningCache (.ask symbol (some ((ask symbol).getD []))) ∧
      some (rm.buyWarnings ask symbol).2 =
        Memo.reply rm.warningCache symbol (some ((ask symbol).getD [])) := by
  unfold buyWarnings
  rw [if_pos hclient]
  cases hget : rm.warningCache.get? symbol with
  | none => simp [Memo.step, Memo.reply, hget]
  | some reasons => simp [Memo.step, Memo.reply, hget]

/-- A check leaves the client alone. -/
theorem run_hasClient (rm : RiskManager) (c : Check) : (c.run rm).1.hasClient = rm.hasClient := by
  have hclear := rm.clearCache_checkOrder c.store c.now c.snapshot c.ask c.intent c.price
  have hclient := congrArg RiskManager.hasClient hclear
  exact hclient

/-- **One check** looks up the warnings of its symbol or leaves them alone. -/
theorem run_memo {rm : RiskManager} (hclient : rm.hasClient = true) (c : Check) :
    (c.run rm).1.warningCache = rm.warningCache ∨
      (c.run rm).1.warningCache = Memo.step rm.warningCache c.call := by
  rcases rm.checkOrder_risk c.store c.now c.snapshot c.ask c.intent c.price with h | h
  · exact .inl (congrArg RiskManager.warningCache h)
  · exact .inr ((congrArg RiskManager.warningCache h).trans (buyWarnings_memo hclient c.ask _).1)

/-- The verdict of a buy that gets to the lookup. -/
def verdictOf (symbol : Symbol) : List String → Verdict
  | [] => .allow
  | blocked => .refuse (.warnings symbol blocked)

theorem verdictOf_injective (symbol : Symbol) {a b : List String}
    (h : verdictOf symbol a = verdictOf symbol b) : a = b := by
  cases a <;> cases b <;> simp_all [verdictOf]

theorem verdictOf_ne_allow {symbol : Symbol} {reasons : List String} (h : reasons ≠ []) :
    verdictOf symbol reasons ≠ .allow := by
  cases reasons with
  | nil => exact absurd rfl h
  | cons reason rest => exact nofun

theorem verdictOf_warnings {symbol symbol' : Symbol} {reasons reasons' : List String}
    (h : verdictOf symbol reasons = .refuse (.warnings symbol' reasons')) :
    symbol = symbol' ∧ reasons = reasons' := by
  cases reasons with
  | nil => cases h
  | cons reason rest =>
    cases h
    exact ⟨rfl, rfl⟩

/-- A buy is refused for something else, or its warnings decide. -/
theorem run_buy (rm : RiskManager) {c : Check} (hbuy : c.intent.side = .BUY) :
    (∃ why, c.run rm = (rm, .refuse why) ∧ ∀ symbol reasons, why ≠ .warnings symbol reasons) ∨
      c.run rm = ((rm.buyWarnings c.ask c.intent.symbol).1,
        verdictOf c.intent.symbol (rm.buyWarnings c.ask c.intent.symbol).2) := by
  unfold Check.run checkOrder
  rw [hbuy]
  split
  · exact .inl ⟨_, rfl, nofun⟩
  split
  · exact .inl ⟨_, rfl, nofun⟩
  unfold checkBuy
  simp only
  split
  · exact .inl ⟨_, rfl, nofun⟩
  split
  · exact .inl ⟨_, rfl, nofun⟩
  split
  · exact .inl ⟨_, rfl, nofun⟩
  · right
    generalize rm.buyWarnings c.ask c.intent.symbol = out
    obtain ⟨rm', _ | _⟩ := out <;> rfl

/-- A buy that is refused for warnings has some. -/
theorem run_refused {rm : RiskManager} {c : Check} (hbuy : c.intent.side = .BUY) {symbol : Symbol}
    {reasons : List String} (h : (c.run rm).2 = .refuse (.warnings symbol reasons)) :
    reasons ≠ [] ∧ (c.run rm).2 = verdictOf c.intent.symbol reasons := by
  rcases run_buy rm hbuy with ⟨why, heq, hwhy⟩ | heq
  · rw [heq] at h
    exact absurd (Verdict.refuse.inj h) (hwhy _ _)
  · rw [heq] at h ⊢
    obtain ⟨-, hreasons⟩ := verdictOf_warnings h
    refine ⟨?_, congrArg (verdictOf _) hreasons⟩
    rintro rfl
    rw [hreasons] at h
    cases h

/-! ### A cycle -/

/-- The checks of a cycle, one after the other. -/
def cycle (rm : RiskManager) (checks : List Check) : RiskManager :=
  checks.foldl (fun rm c => (c.run rm).1) rm

theorem cycle_hasClient (rm : RiskManager) (checks : List Check) :
    (rm.cycle checks).hasClient = rm.hasClient := by
  induction checks generalizing rm with
  | nil => rfl
  | cons c rest ih => exact (ih (c.run rm).1).trans (run_hasClient rm c)

/-- Without a client no buy is held back for a warning. -/
theorem run_clientless {rm : RiskManager} (hclient : rm.hasClient = false) {c : Check}
    (hbuy : c.intent.side = .BUY) (symbol : Symbol) (reasons : List String) :
    (c.run rm).2 ≠ .refuse (.warnings symbol reasons) := by
  have hnone : (rm.buyWarnings c.ask c.intent.symbol).2 = [] := by
    rw [buyWarnings, if_neg (by simp [hclient])]
  intro hrefused
  rcases run_buy rm hbuy with ⟨why, heq, hwhy⟩ | heq
  · rw [heq] at hrefused
    exact hwhy _ _ (Verdict.refuse.inj hrefused)
  · rw [heq, hnone] at hrefused
    cases hrefused

/-- What was looked up stays for the cycle. -/
theorem cycle_kept {rm : RiskManager} (hclient : rm.hasClient = true) (checks : List Check)
    {symbol : Symbol} {reasons : List String} (h : rm.warningCache.get? symbol = some reasons) :
    (rm.cycle checks).warningCache.get? symbol = some reasons := by
  induction checks generalizing rm with
  | nil => exact h
  | cons c rest ih =>
    refine ih ((run_hasClient rm c).trans hclient) ?_
    rcases run_memo hclient c with heq | heq
    · rw [heq, h]
    · rw [heq]
      have hone : .clear ∉ [c.call] := fun hmem => nomatch List.mem_singleton.mp hmem
      exact Memo.get?_kept hone h

/-- A buy that got to the lookup has left its answer. -/
theorem run_settles {rm : RiskManager} (hclient : rm.hasClient = true) {c : Check}
    (hbuy : c.intent.side = .BUY) {reasons : List String}
    (hverdict : (c.run rm).2 = verdictOf c.intent.symbol reasons) :
    (c.run rm).1.warningCache.get? c.intent.symbol = some reasons := by
  obtain ⟨hcache, hreply⟩ := buyWarnings_memo hclient c.ask c.intent.symbol
  rcases run_buy rm hbuy with ⟨why, heq, hwhy⟩ | heq
  · rw [heq] at hverdict
    cases reasons with
    | nil => cases hverdict
    | cons reason rest => exact absurd (Verdict.refuse.inj hverdict) (hwhy _ _)
  · rw [heq] at hverdict ⊢
    rw [hcache, Memo.get?_ask, ← hreply, verdictOf_injective _ hverdict]

/-- What is settled decides the buys that follow. -/
theorem run_settled {rm : RiskManager} (hclient : rm.hasClient = true) {c : Check}
    (hbuy : c.intent.side = .BUY) {reasons : List String}
    (h : rm.warningCache.get? c.intent.symbol = some reasons) :
    (c.run rm).2 = verdictOf c.intent.symbol reasons ∨
      ∃ why, (c.run rm).2 = .refuse why ∧ ∀ symbol reasons, why ≠ .warnings symbol reasons := by
  rcases run_buy rm hbuy with ⟨why, heq, hwhy⟩ | heq
  · exact .inr ⟨why, congrArg Prod.snd heq, hwhy⟩
  · have hreply := (buyWarnings_memo hclient c.ask c.intent.symbol).2
    rw [Memo.reply, h] at hreply
    left
    rw [heq, Option.some.inj hreply]

/-- **The first lookup settles a symbol for the cycle**: however many checks come before and between,
on whatever accounts and with whatever the exchange answers, once a buy of the symbol has passed no
later one is held back for a warning; and once one was held back none passes, and the reasons are the
first ones. -/
theorem warnings_settled {rm : RiskManager} (before more : List Check)
    {c c' : Check} (hbuy : c.intent.side = .BUY) (hbuy' : c'.intent.side = .BUY)
    (hsame : c'.intent.symbol = c.intent.symbol) :
    let first := c.run (rm.cycle before)
    let later := c'.run (first.1.cycle more)
    (first.2 = .allow → ∀ symbol reasons, later.2 ≠ .refuse (.warnings symbol reasons)) ∧
      ∀ symbol reasons, first.2 = .refuse (.warnings symbol reasons) →
        later.2 ≠ .allow ∧
          ∀ symbol' reasons', later.2 = .refuse (.warnings symbol' reasons') → reasons' = reasons := by
  intro first later
  have hclient₁ : (rm.cycle before).hasClient = rm.hasClient := cycle_hasClient rm before
  have hclient₂ : first.1.hasClient = rm.hasClient := (run_hasClient _ c).trans hclient₁
  have hclient₃ : (first.1.cycle more).hasClient = rm.hasClient := (cycle_hasClient _ more).trans hclient₂
  cases hclient : rm.hasClient with
  | false =>
    exact ⟨fun _ => run_clientless (hclient₃.trans hclient) hbuy',
      fun symbol reasons hrefused =>
        absurd hrefused (run_clientless (hclient₁.trans hclient) hbuy symbol reasons)⟩
  | true =>
    have hlater (reasons : List String) (hfirst : first.2 = verdictOf c.intent.symbol reasons) :
        later.2 = verdictOf c'.intent.symbol reasons ∨
          ∃ why, later.2 = .refuse why ∧ ∀ symbol reasons, why ≠ .warnings symbol reasons := by
      have hheld := cycle_kept (hclient₂.trans hclient) more (run_settles (hclient₁.trans hclient) hbuy hfirst)
      rw [← hsame] at hheld
      exact run_settled (hclient₃.trans hclient) hbuy' hheld
    constructor
    · intro hallow symbol reasons hrefused
      rcases hlater [] hallow with hpass | ⟨why, heq, hwhy⟩
      · rw [hpass] at hrefused
        cases hrefused
      · rw [heq] at hrefused
        exact hwhy _ _ (Verdict.refuse.inj hrefused)
    · intro symbol reasons hrefused
      obtain ⟨hsome, hfirst⟩ := run_refused hbuy hrefused
      rcases hlater _ hfirst with hheld | ⟨why, heq, hwhy⟩
      · rw [hheld]
        exact ⟨verdictOf_ne_allow hsome, fun symbol' reasons' h => (verdictOf_warnings h).2.symm⟩
      · rw [heq]
        exact ⟨nofun, fun symbol' reasons' h => absurd (Verdict.refuse.inj h) (hwhy _ _)⟩

/-- A buy of one share of a tenth of a million in cash, and what the exchange says of warnings. -/
def oneShare (symbol : Symbol) (answer : Option (List String)) : Check where
  store := {}
  now := ⟨⟨2026, 7, 31⟩, 3600⟩
  snapshot := .allCash 1000000
  ask := fun _ => answer
  intent := .market symbol .BUY 1 "" ""
  price := some 100000

/-- After a buy of another symbol the lookup fails and the buy passes; later the exchange has a
warning, and it passes again. Where the exchange has the warning first the buy is held back, and
is held back again when the exchange has dropped it. -/
theorem warnings_settled_failing :
    let others := [oneShare "005930" (some ["정리매매"])]
    let start : RiskManager := RiskManager.cycle { brokerName := .live } others
    (((oneShare "069500" none).run start).2 = .allow ∧ ∀ symbol reasons,
      ((oneShare "069500" (some ["정리매매"])).run
        (((oneShare "069500" none).run start).1.cycle others)).2 ≠ .refuse (.warnings symbol reasons)) ∧
      ((oneShare "069500" (some ["정리매매"])).run start).2 = .refuse (.warnings "069500" ["정리매매"]) ∧
        ((oneShare "069500" none).run
          (((oneShare "069500" (some ["정리매매"])).run start).1.cycle others)).2 ≠ .allow := by
  intro others start
  have hallow : ((oneShare "069500" none).run start).2 = .allow := by decide +kernel
  have hrefused : ((oneShare "069500" (some ["정리매매"])).run start).2 =
      .refuse (.warnings "069500" ["정리매매"]) := by
    decide +kernel
  refine ⟨⟨hallow, ?_⟩, hrefused, ?_⟩
  · exact (@warnings_settled { brokerName := .live } others others (oneShare "069500" none)
      (oneShare "069500" (some ["정리매매"])) rfl rfl rfl).1 hallow
  · exact ((@warnings_settled { brokerName := .live } others others
      (oneShare "069500" (some ["정리매매"])) (oneShare "069500" none) rfl rfl rfl).2 _ _ hrefused).1

end Tqt.RiskManager
