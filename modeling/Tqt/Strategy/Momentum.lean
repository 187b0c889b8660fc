import Tqt.Strategy.Base

/-! The four strategies, and why no book of theirs needs leverage.

Each of them spreads one unit: equal parts for what it picks, the rest for a safe asset
(`Shares`). A plan adds up what its allocations want, weighted, and scales it down where it
comes to more than one, so that no condition on overlapping sleeves or on the total of the
plan's own weights is needed (`targets_unlevered`). -/
namespace Tqt

/-- `f"{x:+.1%}"` with one digit after the point, `f"{x:+.2%}"` with two. -/
def signedPercent (digits : ℕ) (x : Decimal) : String :=
  let scaled := (roundHalfEven (|x| * 100 * 10 ^ digits)).toNat
  let fraction := toString (scaled % 10 ^ digits)
  (if x < 0 then "-" else "+") ++ toString (scaled / 10 ^ digits) ++ "." ++
    "".pushn '0' (digits - fraction.length) ++ fraction ++ "%"

/-- `", ".join(f"{s}:{r:+...%}" for r, s in picked)`. -/
def describeScores (digits : ℕ) (picked : List Score) : String :=
  ", ".intercalate (picked.map fun s => (ofLex s).2 ++ ":" ++ signedPercent digits (ofLex s).1)

/-- Every symbol of `picked` at the weight `each`. -/
def equalWeights (picked : List Symbol) (each : Decimal) : Dict Symbol Decimal :=
  Dict.ofList (picked.map fun sym => (sym, each))

section
variable (sleeve : Sleeve) (closes : Frame)

/-- The best `n` scores, highest first. -/
def top (scores : List Score) (n : ℕ) : List Score := (scores.insertionSort (· ≥ ·)).take n

/-- `scores[:n]` of the ranking; a negative bound counts from the end. -/
def sliceTo (scores : List Score) : ℤ → List Score
  | .ofNat n => top scores n
  | .negSucc k => top scores (scores.length - (k + 1))

/-- Looking back for a return raises for some risk asset. -/
def lookbackRaises (lookback : ℤ) : Bool :=
  sleeve.riskSymbols.any fun sym =>
    sym ∈ closes.columns ∧ returnOver (closes.series sym) lookback = none

/-- `DualMomentum.target_weights`. -/
def dualMomentum (lookback topN : ℤ) (minMomentum : Decimal) :
    Option (Dict Symbol Decimal × String) :=
  let scores := sleeve.scores closes fun series => (returnOver series lookback).join
  if lookbackRaises sleeve closes lookback then none
  else if scores = [] then some (∅, "insufficient history")
  else
    let picked := (sliceTo scores topN).filter fun s => minMomentum < (ofLex s).1
    let weights := equalWeights (picked.map fun s => (ofLex s).2) (1 / topN)
    let held := describeScores 1 picked
    some (weights.update (sleeve.safeWeights closes (1 - weights.total)),
      toString lookback ++ "d momentum -> " ++
        if picked = [] then "none (all below floor)" else held)

/-- `_breadth_threshold`; a third of the assets is never halfway between two integers. -/
def breadthThreshold (explicit : Option ℤ) (nAssets : ℕ) : ℤ :=
  match explicit with
  | some b => if b = 0 then max 1 ((nAssets + 1) / 3 : ℕ) else b
  | none => max 1 ((nAssets + 1) / 3 : ℕ)

/-- `VAA.target_weights`. -/
def vaa (topN : ℤ) (breadthB : Option ℤ) : Option (Dict Symbol Decimal × String) :=
  let scores := sleeve.scores closes momentum13612w
  if scores = [] then some (∅, "insufficient history")
  else
    let threshold := breadthThreshold breadthB scores.length
    let negative := scores.countP fun s => (ofLex s).1 ≤ 0
    if threshold ≤ negative then
      some (sleeve.safeWeights closes 1, "breadth: " ++ toString negative ++ "/" ++
        toString scores.length ++ " negative (B=" ++ toString threshold ++ ") -> defensive")
    else
      let picked := sliceTo scores topN
      -- Nothing picked is a division by zero.
      if picked = [] then none
      else some (equalWeights (picked.map fun s => (ofLex s).2) (1 / picked.length),
        "offensive: " ++ describeScores 2 picked)

/-- `series.iloc[-n:].mean()`; `-0` is the whole series. -/
def movingAverage (series : List Decimal) (n : ℕ) : Decimal :=
  let window := if n = 0 then series else series.drop (series.length - n)
  window.sum / window.length

/-- Whether the last close is above its moving average; nothing where asking for it raises. -/
def inTrend (series : List Decimal) (smaDays : ℕ) : Option Bool :=
  if series.length < smaDays then some false
  else (back series 0).map fun last => movingAverage series smaDays < last

/-- `inTrend` for any number of days: a negative one leaves out the first days instead, and the
mean of no days is above nothing. -/
def aboveAverage (series : List Decimal) : ℤ → Option Bool
  | .ofNat smaDays => inTrend series smaDays
  | .negSucc k => (back series 0).map fun last =>
    let window := series.drop (k + 1)
    decide (window ≠ [] ∧ window.sum / window.length < last)

/-- `FaberTiming.target_weights`. -/
def faberTiming (smaDays : ℤ) : Option (Dict Symbol Decimal × String) :=
  let candidates := sleeve.riskSymbols.filter (· ∈ closes.columns)
  if candidates = [] then some (∅, "")
  else if candidates.any fun sym => aboveAverage (closes.series sym) smaDays = none then none
  else
    let up := candidates.filter fun sym => aboveAverage (closes.series sym) smaDays = some true
    let weights := equalWeights up (1 / candidates.length)
    some (weights.update (sleeve.safeWeights closes (1 - weights.total)),
      toString up.length ++ "/" ++ toString candidates.length ++ " above " ++ toString smaDays ++
        "d SMA")

end

/-! ### The registry -/

/-- A strategy of the registry with its parameters. -/
inductive StrategyParams where
  | buyAndHold (rebalance : String)
  | dualMomentum (lookback topN : ℤ) (minMomentum : Decimal)
  | vaa (topN : ℤ) (breadthB : Option ℤ)
  | faber (smaDays : ℤ)

namespace StrategyParams

def key : StrategyParams → String
  | .buyAndHold _ => "buy-and-hold"
  | .dualMomentum .. => "dual-momentum"
  | .vaa .. => "vaa"
  | .faber _ => "faber"

/-- `build_strategy(key, sleeve, **params).target_weights`. -/
def targetWeights (p : StrategyParams) (sleeve : Sleeve) (closes : Frame) (asof : Date) :
    Option (Dict Symbol Decimal × String) :=
  match p with
  | .buyAndHold _ => Tqt.buyAndHold sleeve closes asof
  | .dualMomentum lookback topN floor => Tqt.dualMomentum sleeve closes lookback topN floor
  | .vaa topN breadthB => Tqt.vaa sleeve closes topN breadthB
  | .faber smaDays => faberTiming sleeve closes smaDays

/-- `rebalance_dates` of the strategy: only a yearly buy-and-hold has its own. -/
def rebalanceDates (p : StrategyParams) (index : List Date) : List Date :=
  match p with
  | .buyAndHold rebalance =>
    if rebalance = "Y" ∧ index ≠ [] then yearEndDates index else monthEndDates index
  | _ => monthEndDates index

/-- `Allocation(sleeve_key, strategy_key, weight, params)`. -/
def allocate (p : StrategyParams) (sleeve : Sleeve) (weight : Decimal) : Allocation :=
  ⟨sleeve, p.key, weight, p.targetWeights sleeve⟩

/-- No asset is given a negative share. -/
def Counts : StrategyParams → Prop
  | .dualMomentum _ topN _ => 0 ≤ topN
  | _ => True

/-- The parameters count something. -/
def InRange : StrategyParams → Prop
  | .buyAndHold _ => True
  | .dualMomentum lookback topN _ => 1 ≤ lookback ∧ 1 ≤ topN
  | .vaa topN _ => 1 ≤ topN
  | .faber smaDays => 1 ≤ smaDays

end StrategyParams

/-! ### What they return -/

section
variable {sleeve : Sleeve} {closes : Frame}

theorem sliceTo_natCast (scores : List Score) (n : ℕ) : sliceTo scores n = top scores n := rfl

theorem aboveAverage_natCast (series : List Decimal) (smaDays : ℕ) :
    aboveAverage series smaDays = inTrend series smaDays := rfl

theorem lookbackRaises_natCast (lookback : ℕ) : lookbackRaises sleeve closes lookback = false := by
  refine List.any_eq_false.mpr fun sym _ => ?_
  rw [returnOver_natCast]
  simp

/-- Some of the best, however many. -/
theorem sliceTo_eq (scores : List Score) (n : ℤ) : ∃ m, sliceTo scores n = top scores m := by
  cases n with
  | ofNat n => exact ⟨n, rfl⟩
  | negSucc k => exact ⟨_, rfl⟩

theorem mem_symbols_of_risk {sym : Symbol} (h : sym ∈ sleeve.riskSymbols) : sym ∈ sleeve.symbols := by
  obtain ⟨asset, hasset, rfl⟩ := List.mem_map.mp h
  exact List.mem_map_of_mem (List.mem_append_left _ hasset)

theorem top_length (scores : List Score) (n : ℕ) : (top scores n).length ≤ n := by
  rw [top, List.length_take]
  exact min_le_left _ _

/-- Only risk assets are picked. -/
theorem mem_top {score : List Decimal → Option Decimal} {n : ℕ} {s : Score}
    (h : s ∈ top (sleeve.scores closes score) n) : (ofLex s).2 ∈ sleeve.symbols := by
  have hmem := (List.mem_insertionSort _).mp (List.mem_of_mem_take h)
  obtain ⟨sym, hsym, hscore⟩ := List.mem_filterMap.mp hmem
  split at hscore
  · cases hscore
  · obtain ⟨r, -, rfl⟩ := Option.map_eq_some_iff.mp hscore
    exact mem_symbols_of_risk hsym

/-- Parts of one unit. -/
theorem parts_le_one {k n : ℕ} (h : k ≤ n) : (k : Decimal) * (1 / n) ≤ 1 := by
  have hk : (k : Decimal) ≤ n := by exact_mod_cast h
  rw [mul_one_div]
  exact div_le_one_of_le₀ hk (Nat.cast_nonneg n)

theorem part_nonneg (n : ℕ) : (0 : Decimal) ≤ 1 / n := one_div_nonneg.mpr (Nat.cast_nonneg n)

/-- At most `n` symbols of the sleeve, each an `n`-th. -/
theorem Shares.parts {symbols : List Symbol} {n : ℕ} (hlen : symbols.length ≤ n)
    (hsub : ∀ sym ∈ symbols, sym ∈ sleeve.symbols) :
    Shares sleeve 1 (equalWeights symbols (1 / n)) :=
  (Shares.equal symbols (part_nonneg n) hsub).mono (parts_le_one hlen)

theorem buyAndHold_shares (asof : Date) :
    ∃ weights reason, buyAndHold sleeve closes asof = some (weights, reason) ∧
      Shares sleeve 1 weights := by
  unfold buyAndHold
  simp only
  split
  · exact ⟨_, _, rfl, .empty zero_le_one⟩
  · refine ⟨_, _, rfl, Shares.parts le_rfl fun sym hsym => ?_⟩
    exact mem_symbols_of_risk (List.mem_of_mem_filter hsym)

/-- What dual momentum returns, if it gives no negative shares; with a lookback back in time it
returns. -/
theorem dualMomentum_shares (lookback topN : ℤ) (minMomentum : Decimal) :
    (∀ weights reason, dualMomentum sleeve closes lookback topN minMomentum = some (weights, reason) →
      0 ≤ topN → Shares sleeve 1 weights) ∧
      (0 ≤ lookback → ∃ weights reason,
        dualMomentum sleeve closes lookback topN minMomentum = some (weights, reason)) := by
  unfold dualMomentum
  simp only
  split
  · next hraises =>
    refine ⟨?_, ?_⟩
    · intro weights reason h
      cases h
    · intro hback
      obtain ⟨n, rfl⟩ := Int.eq_ofNat_of_zero_le hback
      rw [lookbackRaises_natCast] at hraises
      cases hraises
  · split
    · refine ⟨?_, fun _ => ⟨_, _, rfl⟩⟩
      intro weights reason h _
      cases h
      exact .empty zero_le_one
    · refine ⟨?_, fun _ => ⟨_, _, rfl⟩⟩
      intro weights reason h hcounts
      cases h
      obtain ⟨n, rfl⟩ := Int.eq_ofNat_of_zero_le hcounts
      rw [Int.cast_natCast, sliceTo_natCast]
      refine Shares.parked (Shares.parts ?_ ?_) le_rfl closes
      · rw [List.length_map]
        exact (List.length_filter_le _ _).trans (top_length _ _)
      · intro sym hsym
        obtain ⟨s, hs, rfl⟩ := List.mem_map.mp hsym
        exact mem_top (List.mem_of_mem_filter hs)

/-- What VAA returns; with something to pick it returns. -/
theorem vaa_shares (topN : ℤ) (breadthB : Option ℤ) :
    (∀ weights reason, vaa sleeve closes topN breadthB = some (weights, reason) →
      Shares sleeve 1 weights) ∧
      (1 ≤ topN → ∃ weights reason, vaa sleeve closes topN breadthB = some (weights, reason)) := by
  unfold vaa
  simp only
  split
  · refine ⟨?_, fun _ => ⟨_, _, rfl⟩⟩
    intro weights reason h
    cases h
    exact .empty zero_le_one
  · next hscores =>
    split
    · refine ⟨?_, fun _ => ⟨_, _, rfl⟩⟩
      intro weights reason h
      cases h
      exact .safe closes
    · split
      · next hpicked =>
        refine ⟨?_, ?_⟩
        · intro weights reason h
          cases h
        · intro htop
          -- There are scores, and at least one of them is taken.
          obtain ⟨n, rfl⟩ := Int.eq_ofNat_of_zero_le (zero_le_one.trans htop)
          rw [sliceTo_natCast] at hpicked
          have hlen := congrArg List.length hpicked
          rw [top, List.length_take, List.length_insertionSort, List.length_nil] at hlen
          have := List.length_pos_iff.mpr hscores
          omega
      · refine ⟨?_, fun _ => ⟨_, _, rfl⟩⟩
        intro weights reason h
        cases h
        refine .parts (List.length_map _).le fun sym hsym => ?_
        obtain ⟨s, hs, rfl⟩ := List.mem_map.mp hsym
        obtain ⟨m, hm⟩ := sliceTo_eq (sleeve.scores closes momentum13612w) topN
        exact mem_top (hm ▸ hs)

theorem last_ne_none {series : List Decimal} (h : 0 < series.length) : back series 0 ≠ none := by
  rw [back, List.getElem?_eq_getElem (by rwa [List.length_reverse])]
  exact Option.some_ne_none _

theorem inTrend_isSome {series : List Decimal} {smaDays : ℕ} (h : 1 ≤ smaDays) :
    inTrend series smaDays ≠ none := by
  unfold inTrend
  split
  · exact Option.some_ne_none _
  · next hlen =>
    rw [Ne, Option.map_eq_none_iff]
    exact last_ne_none (by omega)

/-- What Faber returns; with a window of a day or more it returns. -/
theorem faber_shares (smaDays : ℤ) :
    (∀ weights reason, faberTiming sleeve closes smaDays = some (weights, reason) →
      Shares sleeve 1 weights) ∧
      (1 ≤ smaDays → ∃ weights reason, faberTiming sleeve closes smaDays = some (weights, reason)) := by
  unfold faberTiming
  simp only
  split
  · refine ⟨?_, fun _ => ⟨_, _, rfl⟩⟩
    intro weights reason h
    cases h
    exact .empty zero_le_one
  · split
    · next hraises =>
      refine ⟨?_, ?_⟩
      · intro weights reason h
        cases h
      · intro hdays
        simp only [List.any_eq_true, decide_eq_true_eq] at hraises
        obtain ⟨sym, -, hnone⟩ := hraises
        obtain ⟨n, rfl⟩ := Int.eq_ofNat_of_zero_le (zero_le_one.trans hdays)
        exact absurd hnone (inTrend_isSome (by exact_mod_cast hdays))
    · refine ⟨?_, fun _ => ⟨_, _, rfl⟩⟩
      intro weights reason h
      cases h
      refine .parked (.parts (List.length_filter_le _ _) fun sym hsym => ?_) le_rfl closes
      exact mem_symbols_of_risk (List.mem_of_mem_filter (List.mem_of_mem_filter hsym))

theorem StrategyParams.InRange.counts {p : StrategyParams} (h : p.InRange) : p.Counts := by
  cases p with
  | dualMomentum lookback topN floor => exact zero_le_one.trans h.2
  | buyAndHold rebalance => trivial
  | vaa topN breadthB => trivial
  | faber smaDays => trivial

/-- **A strategy** that gives no negative shares spreads one unit over symbols of its sleeve whenever
it answers, and with parameters in range it answers. -/
theorem targetWeights_shares (p : StrategyParams) (sleeve : Sleeve) (closes : Frame) (asof : Date) :
    (∀ weights reason, p.targetWeights sleeve closes asof = some (weights, reason) → p.Counts →
      Shares sleeve 1 weights) ∧
      (p.InRange → ∃ weights reason, p.targetWeights sleeve closes asof = some (weights, reason)) := by
  cases p with
  | buyAndHold rebalance =>
    obtain ⟨weights, reason, heq, hshares⟩ := @buyAndHold_shares sleeve closes asof
    refine ⟨?_, fun _ => ⟨weights, reason, heq⟩⟩
    intro weights' reason' heq' _
    cases heq.symm.trans heq'
    exact hshares
  | dualMomentum lookback topN floor =>
    obtain ⟨hshares, hsome⟩ := dualMomentum_shares lookback topN floor
    exact ⟨hshares, fun hrange => hsome (zero_le_one.trans hrange.1)⟩
  | vaa topN breadthB =>
    obtain ⟨hshares, hsome⟩ := vaa_shares topN breadthB
    exact ⟨fun weights reason h _ => hshares weights reason h, hsome⟩
  | faber smaDays =>
    obtain ⟨hshares, hsome⟩ := faber_shares smaDays
    exact ⟨fun weights reason h _ => hshares weights reason h, hsome⟩

end

/-! ### The plan -/

/-- The allocation's strategy is one of the registry that gives no negative shares, where it does
not fail. -/
def Allocation.Registered (a : Allocation) : Prop :=
  ∃ p : StrategyParams, p.Counts ∧ ∀ closes asof,
    a.strategy closes asof = none ∨ a.strategy closes asof = p.targetWeights a.sleeve closes asof

theorem StrategyParams.registered (p : StrategyParams) (hcounts : p.Counts) (sleeve : Sleeve)
    (weight : Decimal) : (p.allocate sleeve weight).Registered :=
  ⟨p, hcounts, fun _ _ => .inr rfl⟩

/-- What an allocation decides is an answer of its strategy. -/
theorem Allocation.decide_ok {a : Allocation} {data : LocalData} {asof : Option Date}
    {weights : Dict Symbol Decimal} {reason : String}
    (h : a.decide data asof = .ok (weights, reason)) :
    ∃ closes stamp reason, a.strategy closes stamp = some (weights, reason) := by
  unfold Allocation.decide at h
  simp only at h
  split at h
  · cases h
  · split at h
    · split at h
      · cases h
      · next heq =>
        cases h
        exact ⟨_, _, _, heq⟩
    · cases h

theorem Allocation.Registered.decision_nonneg {a : Allocation} (h : a.Registered) (data : LocalData)
    (asof : Option Date) {sym : Symbol} {w : Decimal} (hw : (a.decision data asof).get? sym = some w) :
    0 ≤ w := by
  obtain ⟨p, hcounts, hp⟩ := h
  unfold Allocation.decision at hw
  split at hw
  · next weights reason hok =>
    obtain ⟨closes, stamp, reason', hanswer⟩ := Allocation.decide_ok hok
    rcases hp closes stamp with hnone | hbuilt
    · rw [hnone] at hanswer
      cases hanswer
    · rw [hbuilt] at hanswer
      exact ((targetWeights_shares p a.sleeve closes stamp).1 _ _ hanswer hcounts).nonneg sym w hw
  · cases hw

namespace PortfolioPlan

theorem blend_nonneg {weight : Decimal} {combined targets : Dict Symbol Decimal} (hweight : 0 ≤ weight)
    (htargets : ∀ sym w, targets.get? sym = some w → 0 ≤ w)
    (hcombined : ∀ sym w, combined.get? sym = some w → 0 ≤ w) :
    ∀ sym w, (blend weight combined targets).get? sym = some w → 0 ≤ w := by
  have hentries : ∀ e ∈ targets.entries, 0 ≤ e.2 := fun e he =>
    htargets e.1 e.2 ((Dict.get?_eq_some _ _ _).mpr he)
  unfold blend
  generalize targets.entries = entries at hentries
  induction entries generalizing combined with
  | nil => exact hcombined
  | cons e rest ih =>
    refine ih (fun sym w => ?_) fun e' he' => hentries e' (List.mem_cons_of_mem e he')
    refine combined.insert_property (P := fun w => 0 ≤ w) ?_ hcombined
    exact add_nonneg (combined.getD_property e.1 le_rfl hcombined)
      (mul_nonneg (hentries e (List.mem_cons_self ..)) hweight)

theorem combine_nonneg (allocations : List Allocation) (data : LocalData) (asof : Option Date)
    (hweight : ∀ a ∈ allocations, 0 ≤ a.weight) (hreg : ∀ a ∈ allocations, a.Registered) :
    ∀ sym w, (combine allocations data asof).get? sym = some w → 0 ≤ w := by
  have hfold : ∀ (l : List Allocation) (c : Dict Symbol Decimal), (∀ a ∈ l, a ∈ allocations) →
      (∀ sym w, c.get? sym = some w → 0 ≤ w) →
      ∀ sym w, (l.foldl (fun c a => blend a.weight c (a.decision data asof)) c).get? sym = some w →
        0 ≤ w := by
    intro l
    induction l with
    | nil => exact fun _ _ hc => hc
    | cons a rest ih =>
      intro c hsub hc
      have ha := hsub a (List.mem_cons_self ..)
      exact ih _ (fun b hb => hsub b (List.mem_cons_of_mem a hb)) (blend_nonneg (hweight a ha)
        (fun _ _ hw => (hreg a ha).decision_nonneg data asof hw) hc)
  exact hfold allocations ∅ (fun _ ha => ha) nofun

/-- **A book**: nothing negative, at most one together, and what the allocations want of each
symbol where that comes to no more than one. -/
theorem targetWeights_unlevered (plan : PortfolioPlan) (data : LocalData) (asof : Option Date)
    (hreg : ∀ a ∈ plan.allocations, a.Registered) :
    (∀ sym w, (plan.targetWeights data asof).get? sym = some w → 0 ≤ w) ∧
      (plan.targetWeights data asof).total ≤ 1 ∧
      (gross plan.allocations data asof ≤ 1 → ∀ sym,
        (plan.targetWeights data asof).getD sym 0 = wanted plan.allocations data asof sym) := by
  have hcombine := combine_nonneg plan.allocations data asof plan.nonneg hreg
  refine ⟨?_, ?_, fun hgross sym => ?_⟩
  · unfold targetWeights
    simp only
    split
    · next hmore =>
      intro sym w hw
      rw [Dict.get?_mapValues] at hw
      obtain ⟨w₀, hw₀, rfl⟩ := Option.map_eq_some_iff.mp hw
      exact mul_nonneg (hcombine sym w₀ hw₀) (one_div_nonneg.mpr (by linarith))
    · exact hcombine
  · unfold targetWeights
    simp only
    split
    · next hmore =>
      rw [Dict.total_mapValues_mul, mul_one_div, div_self (by linarith)]
    · next hless => exact not_lt.mp hless
  · rw [targetWeights_getD, max_eq_left hgross, div_one]

end PortfolioPlan

/-- **Targets never need leverage.** -/
theorem targets_unlevered :
    (∀ (p : StrategyParams) (sleeve : Sleeve) (closes : Frame) (asof : Date), p.InRange →
      ∃ weights reason, p.targetWeights sleeve closes asof = some (weights, reason) ∧
        Shares sleeve 1 weights) ∧
    ∀ (plan : PortfolioPlan) (data : LocalData) (asof : Option Date),
      (∀ a ∈ plan.allocations, a.Registered) →
      (∀ sym w, (plan.targetWeights data asof).get? sym = some w → 0 ≤ w) ∧
        (plan.targetWeights data asof).total ≤ 1 ∧
        (PortfolioPlan.gross plan.allocations data asof ≤ 1 → ∀ sym,
          (plan.targetWeights data asof).getD sym 0 =
            PortfolioPlan.wanted plan.allocations data asof sym) := by
  refine ⟨fun p sleeve closes asof hrange => ?_, fun plan data asof hreg =>
    plan.targetWeights_unlevered data asof hreg⟩
  obtain ⟨hshares, hsome⟩ := targetWeights_shares p sleeve closes asof
  obtain ⟨weights, reason, heq⟩ := hsome hrange
  exact ⟨weights, reason, heq, hshares weights reason heq hrange.counts⟩

/-! ### The built-in plan -/

/-- `DEFAULT_PLAN`. -/
def defaultPlan : PortfolioPlan where
  allocations :=
    [(StrategyParams.faber 200).allocate krGlobal (1 / 2),
      (StrategyParams.dualMomentum 252 2 0).allocate krGlobal (1 / 4),
      (StrategyParams.buyAndHold "Y").allocate usGlobal (1 / 4)]
  nonempty := List.cons_ne_nil _ _
  unlevered := by norm_num [StrategyParams.allocate]
  nonneg := by norm_num [StrategyParams.allocate]

theorem defaultPlan_registered : ∀ a ∈ defaultPlan.allocations, a.Registered := by
  intro a ha
  simp only [defaultPlan, List.mem_cons, List.not_mem_nil, or_false] at ha
  rcases ha with rfl | rfl | rfl
  · exact (StrategyParams.faber 200).registered trivial _ _
  · exact (StrategyParams.dualMomentum 252 2 0).registered (show (0 : ℤ) ≤ 2 by decide) _ _
  · exact (StrategyParams.buyAndHold "Y").registered trivial _ _

/-- One close of everything. -/
def everything (symbols : List Symbol) : Frame :=
  ⟨symbols, [(⟨2026, 7, 31⟩, fun _ => some 100)], List.pairwise_singleton _ _⟩

/-- A day of prices is history enough for equal weights alone: the quarter of the third sleeve,
in four parts. -/
theorem targets_unlevered_default :
    (∃ weights reason, (StrategyParams.vaa 1 none).targetWeights usGlobal
        (everything usGlobal.symbols) ⟨2026, 7, 31⟩ = some (weights, reason) ∧
      Shares usGlobal 1 weights) ∧
    (defaultPlan.targetWeights everything none).total ≤ 1 ∧
    (defaultPlan.targetWeights everything none).getD "SPY" 0 = 1 / 16 := by
  refine ⟨targets_unlevered.1 _ usGlobal _ _ (show 1 ≤ 1 from le_rfl), ?_⟩
  obtain ⟨-, htotal, hplain⟩ := targets_unlevered.2 defaultPlan everything none defaultPlan_registered
  refine ⟨htotal, ?_⟩
  rw [hplain (by decide +kernel)]
  decide +kernel

/-- Two closes of everything, the second one higher. -/
def rising (symbols : List Symbol) : Frame where
  columns := symbols
  rows := [(⟨2026, 7, 30⟩, fun _ => some 100), (⟨2026, 7, 31⟩, fun _ => some 110)]
  sorted := by decide

/-- A plan that `__post_init__` accepts: its one weight is 1. -/
def shortingPlan : PortfolioPlan where
  allocations := [(StrategyParams.dualMomentum 1 (-1) 0).allocate usGlobal 1]
  nonempty := List.cons_ne_nil _ _
  unlevered := by norm_num [StrategyParams.allocate]
  nonneg := by norm_num [StrategyParams.allocate]

/-- With a `top_n` of -1 all picked assets but the last get a weight of -1 each, and the safe asset
what is then left of one. The total is one, so nothing is scaled. -/
theorem negative_weights :
    (shortingPlan.targetWeights rising none).get? "SPY" = some (-1) ∧
      ¬ ∀ (plan : PortfolioPlan) (data : LocalData) (asof : Option Date),
        (∀ a ∈ plan.allocations, ∃ p : StrategyParams, ∃ sleeve weight, a = p.allocate sleeve weight) →
        ∀ sym w, (plan.targetWeights data asof).get? sym = some w → 0 ≤ w := by
  have hshort : (shortingPlan.targetWeights rising none).get? "SPY" = some (-1) := by decide +kernel
  refine ⟨hshort, fun hall => ?_⟩
  have hnonneg := hall shortingPlan rising none (fun a ha => ⟨_, _, _, List.mem_singleton.mp ha⟩)
    "SPY" (-1) hshort
  norm_num at hnonneg

end Tqt
