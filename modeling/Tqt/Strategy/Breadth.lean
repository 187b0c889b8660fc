import Tqt.Foundation.Context
import Tqt.Foundation.Ranking
import Tqt.Strategy.Momentum

/-! What VAA buys when it stays offensive.

The breadth test counts the assets that do not rise, the selection takes the top of a ranking.
They meet in a count: with fewer than `B` assets that do not rise, the first `n - B + 1` of the
ranking all do (`picked_rises`). The weights are equal, each the quotient of one and their number
in the context's digits (`vaaIn`): they come to one as far as that quotient is exact
(`vaa_offensive`). -/
namespace Tqt
open Context

section
variable (fl : Decimal → Decimal) (sleeve : Sleeve) (closes : Frame)

/-- `VAA.target_weights`, with `fl` applied to the result of the division. -/
def vaaIn (topN : ℕ) (breadthB : Option ℤ) : Option (Dict Symbol Decimal × String) :=
  let scores := sleeve.scores closes momentum13612w
  if scores = [] then some (∅, "insufficient history")
  else
    let threshold := breadthThreshold breadthB scores.length
    let negative := scores.countP fun s => (ofLex s).1 ≤ 0
    if threshold ≤ negative then
      some (sleeve.safeWeights closes 1, "breadth: " ++ toString negative ++ "/" ++
        toString scores.length ++ " negative (B=" ++ toString threshold ++ ") -> defensive")
    else
      let picked := top scores topN
      if picked = [] then none
      else some (equalWeights (picked.map fun s => (ofLex s).2) (fl (1 / picked.length)),
        "offensive: " ++ describeScores 2 picked)

theorem vaaIn_exact (topN : ℕ) (breadthB : Option ℤ) :
    vaaIn id sleeve closes topN breadthB = vaa sleeve closes topN breadthB := rfl

/-- The assets that have a score, with it. -/
def momentumScores : List Score := sleeve.scores closes momentum13612w

/-- There are scores, and breadth has not broken down. -/
def Offensive (breadthB : Option ℤ) : Prop :=
  momentumScores sleeve closes ≠ [] ∧
    ((momentumScores sleeve closes).countP fun s => (ofLex s).1 ≤ 0 : ℕ) <
      breadthThreshold breadthB (momentumScores sleeve closes).length

instance (breadthB : Option ℤ) : Decidable (Offensive sleeve closes breadthB) :=
  inferInstanceAs (Decidable (_ ∧ _))

/-- How many assets can be picked without one that does not rise: `n - B + 1`. -/
def offensiveSlots (breadthB : Option ℤ) : ℤ :=
  (momentumScores sleeve closes).length -
    breadthThreshold breadthB (momentumScores sleeve closes).length + 1

/-- The asset is scored. -/
def Scored (sym : Symbol) (m : Decimal) : Prop :=
  sym ∈ sleeve.riskSymbols ∧ sym ∈ closes.columns ∧ momentum13612w (closes.series sym) = some m

/-- Nothing that falls is bought, and nothing that ranks lower. -/
structure BuysTheBest (weights : Dict Symbol Decimal) : Prop where
  rising : ∀ sym w, weights.get? sym = some w → ∃ m, Scored sleeve closes sym m ∧ 0 < m
  best : ∀ sym w m other m', weights.get? sym = some w → Scored sleeve closes sym m →
    weights.get? other = none → Scored sleeve closes other m' → m' ≤ m

end

/-! ### Equal weights -/

theorem get?_equalWeights (symbols : List Symbol) (each : Decimal) (sym : Symbol) :
    (equalWeights symbols each).get? sym = if sym ∈ symbols then some each else none :=
  Dict.get?_ofList_map symbols each sym

/-- Different symbols at one weight. -/
theorem total_equalWeights {symbols : List Symbol} (each : Decimal) (hnodup : symbols.Nodup) :
    (equalWeights symbols each).total = symbols.length * each := by
  rw [equalWeights, Dict.total_ofList_map each hnodup, nsmul_eq_mul]

/-! ### The ranking -/

section
variable {sleeve : Sleeve} {closes : Frame}

theorem mem_momentumScores {sym : Symbol} {m : Decimal} :
    toLex (m, sym) ∈ momentumScores sleeve closes ↔ Scored sleeve closes sym m := by
  unfold momentumScores Sleeve.scores Scored
  rw [List.mem_filterMap]
  constructor
  · rintro ⟨sym', hrisk, hscore⟩
    split at hscore
    · cases hscore
    · next hcolumn =>
      obtain ⟨m', hm, heq⟩ := Option.map_eq_some_iff.mp hscore
      cases heq
      exact ⟨hrisk, not_not.mp hcolumn, hm⟩
  · rintro ⟨hrisk, hcolumn, hm⟩
    refine ⟨sym, hrisk, ?_⟩
    rw [if_neg (not_not.mpr hcolumn), hm, Option.map_some]

theorem ranked_pairwise (scores : List Score) :
    (scores.insertionSort (· ≥ ·)).Pairwise fun a b => (ofLex b).1 ≤ (ofLex a).1 := by
  refine (List.pairwise_insertionSort (· ≥ ·) scores).imp fun {a b} hab => ?_
  rcases Prod.Lex.le_iff.mp hab with hlt | ⟨heq, -⟩
  · exact hlt.le
  · exact heq.le

/-- Fewer than `B` assets do not rise, so the first `n - B + 1` do. -/
theorem picked_rises {breadthB : Option ℤ} {topN : ℕ} (hoffensive : Offensive sleeve closes breadthB)
    (hslots : topN ≤ offensiveSlots sleeve closes breadthB) {s : Score}
    (hs : s ∈ top (momentumScores sleeve closes) topN) : 0 < (ofLex s).1 := by
  have hperm := List.perm_insertionSort (· ≥ ·) (momentumScores sleeve closes)
  have hinherits : ((momentumScores sleeve closes).insertionSort (· ≥ ·)).Pairwise
      fun a b => (ofLex a).1 ≤ 0 → (ofLex b).1 ≤ 0 :=
    (ranked_pairwise _).imp fun hba ha => hba.trans ha
  have hfew : ((momentumScores sleeve closes).insertionSort (· ≥ ·)).countP
      (fun s => (ofLex s).1 ≤ 0) + topN ≤
        ((momentumScores sleeve closes).insertionSort (· ≥ ·)).length := by
    rw [hperm.countP_eq, hperm.length_eq]
    have hbreadth := hoffensive.2
    unfold offensiveSlots at hslots
    omega
  exact not_le.mp (not_of_mem_take (P := fun s : Score => (ofLex s).1 ≤ 0) hinherits hfew hs)

theorem topN_le_length {breadthB : Option ℤ} {topN : ℕ} (hoffensive : Offensive sleeve closes breadthB)
    (hslots : topN ≤ offensiveSlots sleeve closes breadthB) :
    topN ≤ (momentumScores sleeve closes).length := by
  have hfew := hoffensive.2
  unfold offensiveSlots at hslots
  omega

theorem length_top {scores : List Score} {topN : ℕ} (h : topN ≤ scores.length) :
    (top scores topN).length = topN := by
  rw [top, List.length_take, List.length_insertionSort, min_eq_left h]

/-- A symbol that occurs once in the sleeve is picked once at most. -/
theorem nodup_picked (hnodup : sleeve.riskSymbols.Nodup) (topN : ℕ) :
    ((top (momentumScores sleeve closes) topN).map fun s => (ofLex s).2).Nodup := by
  have hscores : ((momentumScores sleeve closes).map fun s => (ofLex s).2).Nodup := by
    refine List.Nodup.sublist ?_ hnodup
    unfold momentumScores Sleeve.scores
    generalize sleeve.riskSymbols = symbols
    induction symbols with
    | nil => exact List.Sublist.slnil
    | cons sym rest ih =>
      rw [List.filterMap_cons]
      split
      · exact ih.cons sym
      · next s hs =>
        split at hs
        · cases hs
        · obtain ⟨m, -, rfl⟩ := Option.map_eq_some_iff.mp hs
          exact ih.cons_cons sym
  have hperm := (List.perm_insertionSort (· ≥ ·) (momentumScores sleeve closes)).map
    fun s => (ofLex s).2
  exact (hperm.nodup_iff.mpr hscores).sublist ((List.take_sublist _ _).map _)

/-! ### What is bought -/

/-- The offensive branch: the top of the ranking, in equal parts. -/
theorem vaaIn_of_offensive (fl : Decimal → Decimal) {breadthB : Option ℤ} {topN : ℕ}
    (hoffensive : Offensive sleeve closes breadthB) (hpos : 1 ≤ topN)
    (hslots : topN ≤ offensiveSlots sleeve closes breadthB) :
    ∃ reason, vaaIn fl sleeve closes topN breadthB =
      some (equalWeights ((top (momentumScores sleeve closes) topN).map fun s => (ofLex s).2)
        (fl (1 / topN)), reason) := by
  have hlength := length_top (topN_le_length hoffensive hslots)
  have hpicked : top (momentumScores sleeve closes) topN ≠ [] := by
    rw [← List.length_pos_iff, hlength]
    exact hpos
  have hbreadth : ¬ breadthThreshold breadthB (momentumScores sleeve closes).length ≤
      ((momentumScores sleeve closes).countP fun s => (ofLex s).1 ≤ 0 : ℕ) := not_le.mpr hoffensive.2
  refine ⟨"offensive: " ++ describeScores 2 (top (momentumScores sleeve closes) topN), ?_⟩
  have hsome := hoffensive.1
  unfold vaaIn
  unfold momentumScores at hlength hpicked hbreadth hsome ⊢
  simp only
  rw [if_neg hsome, if_neg hbreadth, if_neg hpicked, hlength]

/-- The top of the ranking is bought and what is left is not higher. -/
theorem buysTheBest_top {breadthB : Option ℤ} {topN : ℕ} (each : Decimal)
    (hoffensive : Offensive sleeve closes breadthB)
    (hslots : topN ≤ offensiveSlots sleeve closes breadthB) :
    BuysTheBest sleeve closes
      (equalWeights ((top (momentumScores sleeve closes) topN).map fun s => (ofLex s).2) each) := by
  have hheld : ∀ sym w, (equalWeights ((top (momentumScores sleeve closes) topN).map
      fun s => (ofLex s).2) each).get? sym = some w →
      ∃ m, toLex (m, sym) ∈ top (momentumScores sleeve closes) topN := by
    intro sym w hw
    rw [get?_equalWeights] at hw
    split at hw
    · next hmem =>
      obtain ⟨s, hs, rfl⟩ := List.mem_map.mp hmem
      exact ⟨(ofLex s).1, hs⟩
    · cases hw
  have hscored : ∀ {m sym}, toLex (m, sym) ∈ top (momentumScores sleeve closes) topN →
      Scored sleeve closes sym m := fun hm =>
    mem_momentumScores.mp ((List.mem_insertionSort _).mp (List.mem_of_mem_take hm))
  constructor
  · intro sym w hw
    obtain ⟨m, hm⟩ := hheld sym w hw
    exact ⟨m, hscored hm, picked_rises hoffensive hslots hm⟩
  · intro sym w m other m' hw hsym hother hlow
    obtain ⟨m₀, hm₀⟩ := hheld sym w hw
    have hsame : m₀ = m := Option.some.inj ((hscored hm₀).2.2.symm.trans hsym.2.2)
    -- What is not held is behind the top of the ranking.
    have hmem := (List.mem_insertionSort (· ≥ ·)).mpr (mem_momentumScores.mpr hlow)
    rw [← List.take_append_drop topN ((momentumScores sleeve closes).insertionSort (· ≥ ·)),
      List.mem_append] at hmem
    rcases hmem with hfront | hback
    · have hpicked : other ∈ (top (momentumScores sleeve closes) topN).map fun s => (ofLex s).2 :=
        List.mem_map.mpr ⟨_, hfront, rfl⟩
      rw [get?_equalWeights, if_pos hpicked] at hother
      cases hother
    · have hrank := rel_of_mem_take (ranked_pairwise _) hm₀ hback
      exact hsame ▸ hrank

theorem vaaIn_buysTheBest (fl : Decimal → Decimal) {topN : ℕ} {breadthB : Option ℤ}
    (hoffensive : Offensive sleeve closes breadthB) (hpos : 1 ≤ topN)
    (hslots : topN ≤ offensiveSlots sleeve closes breadthB) :
    ∃ weights reason, vaaIn fl sleeve closes topN breadthB = some (weights, reason) ∧
      BuysTheBest sleeve closes weights ∧
      (∀ sym w, weights.get? sym = some w → w = fl (1 / topN)) ∧
      (sleeve.riskSymbols.Nodup → weights.total = topN * fl (1 / topN)) := by
  obtain ⟨reason, hanswer⟩ := vaaIn_of_offensive fl hoffensive hpos hslots
  refine ⟨_, reason, hanswer, buysTheBest_top _ hoffensive hslots, ?_, ?_⟩
  · intro sym w hw
    rw [get?_equalWeights] at hw
    split at hw
    · exact (Option.some.inj hw).symm
    · cases hw
  · intro hnodup
    rw [total_equalWeights _ (nodup_picked hnodup topN), List.length_map,
      length_top (topN_le_length hoffensive hslots)]

/-! ### What the weights come to -/

/-- Equal parts in the context's digits: one up to half a unit of the last digit, and one exactly
when the part has no more digits. -/
theorem equalParts {k : ℕ} (hk : 1 ≤ k) :
    |k * fix (1 / k) - 1| ≤ 5 / 10 ^ 28 ∧
      (k * fix (1 / k) = 1 ↔ Rounding.Digits precision (1 / k)) := by
  have hpos : (0 : Decimal) < k := by exact_mod_cast hk
  have hpart : (0 : Decimal) < 1 / k := one_div_pos.mpr hpos
  have hone : (k : Decimal) * (1 / k) = 1 := mul_one_div_cancel hpos.ne'
  constructor
  · have herror := Rounding.abs_roundTo_sub_le precision (1 / (k : Decimal))
    have hunit := Rounding.pow_pred_mul_unit_le precision_pos hpart.ne'
    rw [abs_of_pos hpart] at hunit
    have hscale : (k : Decimal) * fix (1 / k) - 1 = k * (fix (1 / k) - 1 / k) := by
      rw [mul_sub, hone]
    have hscaled : (k : Decimal) * (10 ^ (precision - 1) * Rounding.unit precision (1 / k)) ≤ 1 :=
      (mul_le_mul_of_nonneg_left hunit hpos.le).trans_eq hone
    rw [hscale, abs_mul, abs_of_pos hpos]
    calc (k : Decimal) * |fix (1 / k) - 1 / k|
        ≤ k * (Rounding.unit precision (1 / k) / 2) := mul_le_mul_of_nonneg_left herror hpos.le
      _ = k * (10 ^ (precision - 1) * Rounding.unit precision (1 / k)) * (5 / 10 ^ 28) := by
          rw [precision]
          ring
      _ ≤ 1 * (5 / 10 ^ 28) := mul_le_mul_of_nonneg_right hscaled (by positivity)
      _ = 5 / 10 ^ 28 := one_mul _
  · constructor
    · intro htotal
      have hexact : fix (1 / (k : Decimal)) = 1 / k :=
        mul_left_cancel₀ hpos.ne' (htotal.trans hone.symm)
      rw [← hexact]
      exact Rounding.digits_roundTo _ _
    · intro hdigits
      rw [fix_of_digits hdigits, hone]

/-- **VAA never buys a falling asset.** Whenever it stays offensive, what it holds rises, nothing
that is not held ranks higher, and the weights are equal. In a sleeve that lists no asset twice
they come to one: exactly if the division is exact, and in the context's digits up to rounding. -/
theorem vaa_offensive (sleeve : Sleeve) (closes : Frame) {topN : ℕ}
    (hoffensive : Offensive sleeve closes none) (hpos : 1 ≤ topN)
    (hslots : topN ≤ offensiveSlots sleeve closes none) :
    (∃ weights reason, vaaIn fix sleeve closes topN none = some (weights, reason) ∧
      BuysTheBest sleeve closes weights ∧
      (∀ sym w, weights.get? sym = some w → w = fix (1 / topN)) ∧
      (sleeve.riskSymbols.Nodup → |weights.total - 1| ≤ 5 / 10 ^ 28 ∧
        (weights.total = 1 ↔ Rounding.Digits precision (1 / topN)))) ∧
    ∃ weights reason, vaa sleeve closes topN none = some (weights, reason) ∧
      BuysTheBest sleeve closes weights ∧
      (sleeve.riskSymbols.Nodup → weights.total = 1) := by
  constructor
  · obtain ⟨weights, reason, hanswer, hbest, heach, htotal⟩ :=
      vaaIn_buysTheBest fix hoffensive hpos hslots
    refine ⟨weights, reason, hanswer, hbest, heach, fun hnodup => ?_⟩
    rw [htotal hnodup]
    exact equalParts hpos
  · obtain ⟨weights, reason, hanswer, hbest, -, htotal⟩ :=
      vaaIn_buysTheBest id hoffensive hpos hslots
    refine ⟨weights, reason, hanswer, hbest, fun hnodup => ?_⟩
    rw [htotal hnodup]
    exact mul_one_div_cancel (by exact_mod_cast (Nat.one_le_iff_ne_zero.mp hpos))

end

/-! ### A year of closes that rise -/

/-- As many monthly closes as a score needs, one above the other. -/
def risingCloses (symbols : List Symbol) : Frame where
  columns := symbols
  rows := (List.range 253).map fun i => (⟨2000 + i / 12, i % 12 + 1, 1⟩, fun _ => some (100 + i))
  sorted := by
    rw [List.pairwise_map]
    refine List.pairwise_lt_range.imp fun {i j} hij => ?_
    rw [Date.lt_iff]
    simp only
    omega

/-- Three assets to pick from. -/
def threeAssets : Sleeve := ⟨"three", [⟨"SPY", .US, true⟩, ⟨"EFA", .US, true⟩, ⟨"EEM", .US, true⟩], []⟩

theorem threeAssets_offensive :
    Offensive threeAssets (risingCloses threeAssets.riskSymbols) none ∧
      ((3 : ℕ) : ℤ) ≤ offensiveSlots threeAssets (risingCloses threeAssets.riskSymbols) none := by
  decide +kernel

/-- The best of the three is bought with everything. -/
theorem vaa_offensive_one :
    ∃ weights reason,
      vaaIn fix threeAssets (risingCloses threeAssets.riskSymbols) 1 none = some (weights, reason) ∧
      BuysTheBest threeAssets (risingCloses threeAssets.riskSymbols) weights ∧
      weights.total = 1 := by
  obtain ⟨hoffensive, hslots⟩ := threeAssets_offensive
  obtain ⟨⟨weights, reason, hanswer, hbest, -, htotal⟩, -⟩ :=
    vaa_offensive threeAssets _ hoffensive le_rfl (le_trans (by norm_num) hslots)
  have hone : Rounding.Digits precision (1 / ((1 : ℕ) : Decimal)) := ⟨1, 0, by decide, by norm_num⟩
  exact ⟨weights, reason, hanswer, hbest, (htotal (by decide)).2.mpr hone⟩

/-- An asset that is listed twice. -/
def oneAssetTwice : Sleeve := ⟨"twice", [⟨"SPY", .US, true⟩, ⟨"SPY", .US, true⟩], []⟩

/-- Three thirds of 28 digits are not one, and an asset that is picked twice is weighted once. -/
theorem vaa_not_one :
    (¬ (Offensive threeAssets (risingCloses threeAssets.riskSymbols) none → 1 ≤ 3 →
      ((3 : ℕ) : ℤ) ≤ offensiveSlots threeAssets (risingCloses threeAssets.riskSymbols) none →
      ∃ weights reason,
        vaaIn fix threeAssets (risingCloses threeAssets.riskSymbols) 3 none = some (weights, reason) ∧
        BuysTheBest threeAssets (risingCloses threeAssets.riskSymbols) weights ∧
        weights.total = 1)) ∧
    ¬ (Offensive oneAssetTwice (risingCloses oneAssetTwice.riskSymbols) none → 1 ≤ 2 →
      ((2 : ℕ) : ℤ) ≤ offensiveSlots oneAssetTwice (risingCloses oneAssetTwice.riskSymbols) none →
      ∃ weights reason,
        vaaIn fix oneAssetTwice (risingCloses oneAssetTwice.riskSymbols) 2 none =
          some (weights, reason) ∧
        BuysTheBest oneAssetTwice (risingCloses oneAssetTwice.riskSymbols) weights ∧
        weights.total = 1) := by
  constructor
  · intro h
    obtain ⟨hoffensive, hslots⟩ := threeAssets_offensive
    obtain ⟨weights, reason, hanswer, -, hone⟩ := h hoffensive (by decide) hslots
    obtain ⟨weights', reason', hanswer', -, -, htotal⟩ :=
      vaaIn_buysTheBest fix hoffensive (by decide) hslots
    rw [hanswer] at hanswer'
    cases hanswer'
    rw [htotal (by decide)] at hone
    exact absurd hone (by decide +kernel)
  · intro h
    obtain ⟨weights, reason, hanswer, -, hone⟩ := h (by decide +kernel) (by decide) (by decide +kernel)
    have hhalf : (vaaIn fix oneAssetTwice (risingCloses oneAssetTwice.riskSymbols) 2 none).map
        (fun answer => answer.1.total) = some (1 / 2) := by
      decide +kernel
    rw [hanswer, Option.map_some, hone] at hhalf
    exact absurd (Option.some.inj hhalf) (by norm_num)

end Tqt
