import Tqt.Foundation.Binary64
import Tqt.Strategy.Breadth

/-! What dual momentum and the moving average hold.

Dual momentum sorts and cuts, the moving average filters; what comes out is said here as a rule on
one asset at a time. An asset is held when its return is above the floor and fewer than `topN`
assets rank before it, or when it closes above its average; every held asset has the same share, and
one safe asset has all of the rest, the best of those with a history (`rules_followed`).

Returns and averages are doubles in the source and shares and rests are decimals of 28 digits, so
that three thirds leave something for the safe asset. The rules are stated for any such `Arithmetic`:
an asset is ranked and compared by its return as it is computed. -/
namespace Tqt

/-! ### The strategies in some arithmetic -/

/-- The operations as they are computed: a Decimal operation from its exact result, the change from
one close to another as a return, the mean of a window. -/
structure Arithmetic where
  decimal : Decimal → Decimal
  change : Decimal → Decimal → Decimal
  mean : List Decimal → Decimal

/-- Without rounding. -/
def exactly : Arithmetic := ⟨id, fun last past => last / past - 1, fun window => window.sum / window.length⟩

section
variable (ar : Arithmetic)

/-- `total_return`, for a lookback that is not negative. -/
def totalReturnIn (series : List Decimal) (lookback : ℕ) : Option Decimal :=
  match back series 0, back series lookback with
  | some last, some past => if past ≤ 0 then none else some (ar.change last past)
  | _, _ => none

/-- Whether the last close is above its moving average; nothing where asking for it raises. -/
def inTrendIn (series : List Decimal) (smaDays : ℕ) : Option Bool :=
  if series.length < smaDays then some false
  else (back series 0).map fun last =>
    ar.mean (if smaDays = 0 then series else series.drop (series.length - smaDays)) < last

/-- What a safe asset made over the lookback. -/
def safeReturn (closes : Frame) (sym : Symbol) : Option Decimal :=
  match back (closes.series sym) 0, back (closes.series sym) Sleeve.safeLookback with
  | some last, some past => some (ar.change last past)
  | _, _ => none

/-- `sum(values, Decimal(0))`. -/
def sumIn (values : List Decimal) : Decimal := values.foldl (fun invested w => ar.decimal (invested + w)) 0

variable (sleeve : Sleeve) (closes : Frame)

/-- The safe assets that have a column. -/
def safeCandidates : List Symbol := sleeve.safeSymbols.filter (· ∈ closes.columns)

/-- The safe assets that have a history, by their returns. -/
def safeScoresIn : List Score :=
  (safeCandidates sleeve closes).filterMap fun sym =>
    (safeReturn ar closes sym).map fun r => toLex (r, sym)

/-- The safe asset that takes the rest. -/
def safest : Option Symbol :=
  match (safeScoresIn ar sleeve closes).max? with
  | some s => some (ofLex s).2
  | none => (safeCandidates sleeve closes).head?

/-- `_safe_weights`. -/
def safeWeightsIn (weight : Decimal) : Dict Symbol Decimal :=
  if weight ≤ 0 then ∅
  else (safest ar sleeve closes).elim ∅ fun best => Dict.ofList [(best, weight)]

/-- `DualMomentum.target_weights`, for a lookback and a number of assets that are not negative. -/
def dualMomentumIn (lookback topN : ℕ) (minMomentum : Decimal) :
    Option (Dict Symbol Decimal × String) :=
  let scores := sleeve.scores closes (totalReturnIn ar · lookback)
  if scores = [] then some (∅, "insufficient history")
  else
    let picked := (top scores topN).filter fun s => minMomentum < (ofLex s).1
    let weights := equalWeights (picked.map fun s => (ofLex s).2) (ar.decimal (1 / topN))
    let invested := sumIn ar (weights.entries.map Prod.snd)
    let held := describeScores 1 picked
    some (weights.update (safeWeightsIn ar sleeve closes (ar.decimal (1 - invested))),
      toString lookback ++ "d momentum -> " ++
        if picked = [] then "none (all below floor)" else held)

/-- `FaberTiming.target_weights`, for a number of days that is not negative. -/
def faberTimingIn (smaDays : ℕ) : Option (Dict Symbol Decimal × String) :=
  let candidates := sleeve.riskSymbols.filter (· ∈ closes.columns)
  if candidates = [] then some (∅, "")
  else if candidates.any fun sym => inTrendIn ar (closes.series sym) smaDays = none then none
  else
    let up := candidates.filter fun sym => inTrendIn ar (closes.series sym) smaDays = some true
    let weights := equalWeights up (ar.decimal (1 / candidates.length))
    let invested := sumIn ar (weights.entries.map Prod.snd)
    some (weights.update (safeWeightsIn ar sleeve closes (ar.decimal (1 - invested))),
      toString up.length ++ "/" ++ toString candidates.length ++ " above " ++ toString smaDays ++
        "d SMA")

end

/-! ### Without rounding -/

theorem sumIn_exactly (values : List Decimal) : sumIn exactly values = values.sum := by
  rw [List.sum_eq_foldl]
  rfl

theorem safeWeights_eq (sleeve : Sleeve) (closes : Frame) (weight : Decimal) :
    safeWeightsIn exactly sleeve closes weight = sleeve.safeWeights closes weight := by
  have hscores : safeScoresIn exactly sleeve closes =
      Sleeve.safeScores closes (safeCandidates sleeve closes) := by
    unfold safeScoresIn Sleeve.safeScores
    congr 1
    funext sym
    rw [safeReturn]
    cases back (closes.series sym) 0 with
    | none => rfl
    | some last =>
      cases back (closes.series sym) Sleeve.safeLookback with
      | none => rfl
      | some past => rfl
  have hcandidates : sleeve.safeSymbols.filter (· ∈ closes.columns) = safeCandidates sleeve closes := rfl
  unfold Sleeve.safeWeights safeWeightsIn safest
  rw [hscores, hcandidates]
  generalize safeCandidates sleeve closes = candidates
  split
  · rfl
  · cases candidates with
    | nil => rfl
    | cons first rest =>
      dsimp only
      cases (Sleeve.safeScores closes (first :: rest)).max? with
      | some s => rfl
      | none => rfl

theorem dualMomentumIn_exactly (sleeve : Sleeve) (closes : Frame) (lookback topN : ℕ)
    (floor : Decimal) :
    dualMomentumIn exactly sleeve closes lookback topN floor =
      dualMomentum sleeve closes lookback topN floor := by
  have hreturns : (totalReturnIn exactly · lookback) =
      fun series => (returnOver series lookback).join := rfl
  unfold dualMomentumIn dualMomentum
  rw [lookbackRaises_natCast]
  simp only [hreturns, sumIn_exactly, safeWeights_eq, sliceTo_natCast, Int.cast_natCast, Dict.total,
    Bool.false_eq_true, if_false]
  rfl

theorem faberTimingIn_exactly (sleeve : Sleeve) (closes : Frame) (smaDays : ℕ) :
    faberTimingIn exactly sleeve closes smaDays = faberTiming sleeve closes smaDays := by
  have htrend (series : List Decimal) : inTrendIn exactly series smaDays =
      aboveAverage series smaDays := rfl
  unfold faberTimingIn faberTiming
  simp only [htrend, sumIn_exactly, safeWeights_eq, Dict.total]
  rfl

section
variable (ar : Arithmetic) (sleeve : Sleeve) (closes : Frame)

/-! ### The rules -/

/-- What `n` equal shares leave of one. -/
def leftOver (n : ℕ) (each : Decimal) : Decimal :=
  ar.decimal (1 - sumIn ar (List.replicate n each))

/-- Dual momentum holds the asset: its return clears the floor, and fewer than `topN` rank before it. -/
def dualHolds (lookback topN : ℕ) (floor : Decimal) (sym : Symbol) : Bool :=
  decide (sym ∈ closes.columns) && (totalReturnIn ar (closes.series sym) lookback).any fun r =>
    decide (floor < r ∧
      (sleeve.scores closes (totalReturnIn ar · lookback)).countP (toLex (r, sym) < ·) < topN)

/-- The moving average holds the asset: it closes above it. -/
def faberHolds (smaDays : ℕ) (sym : Symbol) : Bool :=
  decide (sym ∈ closes.columns ∧ inTrendIn ar (closes.series sym) smaDays = some true)

/-- Weights by a rule: `each` for every risk asset it holds, and what is left of one in the safest
asset, if there is one. -/
structure FollowsRule (holds : Symbol → Bool) (each rest : Decimal) (weights : Dict Symbol Decimal) :
    Prop where
  risk : ∀ sym ∈ sleeve.riskSymbols, weights.get? sym = if holds sym then some each else none
  safe : ∀ sym ∈ sleeve.safeSymbols, weights.get? sym =
    if safest ar sleeve closes = some sym ∧ 0 < rest then some rest else none
  nothing_else : ∀ sym ∉ sleeve.symbols, weights.get? sym = none

/-- The best of the safe assets that have a history; the first of them all where none has. -/
structure BestSafe (sym : Symbol) : Prop where
  candidate : sym ∈ safeCandidates sleeve closes
  best : ∀ other ∈ safeCandidates sleeve closes, ∀ r, safeReturn ar closes other = some r →
    ∃ own, safeReturn ar closes sym = some own ∧ r ≤ own

end

section
variable {ar : Arithmetic} {sleeve : Sleeve} {closes : Frame}

/-! ### The safe asset -/

theorem mem_safeScores {sym : Symbol} {r : Decimal} :
    toLex (r, sym) ∈ safeScoresIn ar sleeve closes ↔
      sym ∈ safeCandidates sleeve closes ∧ safeReturn ar closes sym = some r := by
  rw [safeScoresIn, List.mem_filterMap]
  constructor
  · rintro ⟨sym', hsym', hscore⟩
    obtain ⟨r', hr, heq⟩ := Option.map_eq_some_iff.mp hscore
    cases heq
    exact ⟨hsym', hr⟩
  · rintro ⟨hsym, hr⟩
    exact ⟨sym, hsym, by rw [hr, Option.map_some]⟩

theorem safest_best {sym : Symbol} (h : safest ar sleeve closes = some sym) : BestSafe ar sleeve closes sym := by
  unfold safest at h
  split at h
  · next s hmax =>
    cases h
    obtain ⟨hmem, hown⟩ := mem_safeScores.mp (List.max?_mem hmax)
    refine ⟨hmem, fun other hother r hr => ⟨(ofLex s).1, hown, ?_⟩⟩
    have hle := (List.max?_le_iff hmax).mp le_rfl _ (mem_safeScores.mpr ⟨hother, hr⟩)
    rcases Prod.Lex.le_iff.mp hle with hlt | ⟨heq, -⟩
    · exact hlt.le
    · exact heq.le
  · next hnone =>
    refine ⟨List.mem_of_mem_head? h, fun other hother r hr => ?_⟩
    -- Nothing has a history.
    have hscored := mem_safeScores.mpr ⟨hother, hr⟩
    rw [List.max?_eq_none_iff.mp hnone] at hscored
    cases hscored

/-! ### Held and parked -/

/-- No asset is listed twice, so a risk asset is no safe one. -/
theorem risk_apart (hnodup : sleeve.symbols.Nodup) :
    sleeve.riskSymbols.Nodup ∧ sleeve.riskSymbols.Disjoint sleeve.safeSymbols := by
  have hsplit : sleeve.symbols = sleeve.riskSymbols ++ sleeve.safeSymbols := List.map_append
  rw [hsplit] at hnodup
  exact ⟨hnodup.of_append_left, List.disjoint_of_nodup_append hnodup⟩

theorem mem_symbols {sym : Symbol} :
    sym ∈ sleeve.symbols ↔ sym ∈ sleeve.riskSymbols ∨ sym ∈ sleeve.safeSymbols := by
  have hsplit : sleeve.symbols = sleeve.riskSymbols ++ sleeve.safeSymbols := List.map_append
  rw [hsplit, List.mem_append]

theorem get?_parked (weights : Dict Symbol Decimal) (best : Option Symbol) (rest : Decimal)
    (sym : Symbol) :
    (weights.update (if rest ≤ 0 then ∅ else best.elim ∅ fun b => Dict.ofList [(b, rest)])).get? sym =
      if best = some sym ∧ 0 < rest then some rest else weights.get? sym := by
  by_cases hrest : rest ≤ 0
  · rw [if_pos hrest, if_neg fun h => not_lt.mpr hrest h.2]
    rfl
  · rw [if_neg hrest]
    cases best with
    | none => rfl
    | some b =>
      show (weights.insert b rest).get? sym = _
      rw [Dict.get?_insert]
      simp only [Option.some.injEq, not_le.mp hrest, and_true, eq_comm]

theorem values_equalWeights {symbols : List Symbol} (each : Decimal) (hnodup : symbols.Nodup) :
    (equalWeights symbols each).entries.map Prod.snd = List.replicate symbols.length each := by
  refine List.eq_replicate_iff.mpr ⟨?_, fun w hw => ?_⟩
  · have hkeys : (equalWeights symbols each).keys.Perm symbols := by
      refine (List.perm_ext_iff_of_nodup (equalWeights symbols each).nodup hnodup).mpr fun sym => ?_
      show sym ∈ (equalWeights symbols each).keys ↔ _
      rw [Dict.mem_keys]
      simp only [get?_equalWeights, Option.ite_none_right_eq_some, exists_and_left]
      exact and_iff_left ⟨each, rfl⟩
    rw [List.length_map, ← hkeys.length_eq, Dict.keys, List.length_map]
  · obtain ⟨⟨sym, w⟩, hmem, rfl⟩ := List.mem_map.mp hw
    have hget := (Dict.get?_eq_some _ _ _).mpr hmem
    rw [get?_equalWeights] at hget
    split at hget
    · exact (Option.some.inj hget).symm
    · cases hget

/-- The rest of one goes on top of the held assets. -/
theorem followsRule_parked (hnodup : sleeve.symbols.Nodup) (ar : Arithmetic)
    {held : List Symbol} {holds : Symbol → Bool} (each : Decimal)
    (hheld : ∀ sym, sym ∈ held ↔ sym ∈ sleeve.riskSymbols ∧ holds sym = true) (hdistinct : held.Nodup) :
    FollowsRule ar sleeve closes holds each (leftOver ar (sleeve.riskSymbols.countP holds) each)
      ((equalWeights held each).update (safeWeightsIn ar sleeve closes
        (ar.decimal (1 - sumIn ar ((equalWeights held each).entries.map Prod.snd))))) := by
  obtain ⟨hrisk, hapart⟩ := risk_apart hnodup
  have hcount : held.length = sleeve.riskSymbols.countP holds := by
    rw [List.countP_eq_length_filter]
    refine ((List.perm_ext_iff_of_nodup hdistinct (hrisk.filter _)).mpr fun sym => ?_).length_eq
    rw [hheld, List.mem_filter]
  have hout {sym : Symbol} (h : sym ∉ sleeve.riskSymbols) : (equalWeights held each).get? sym = none := by
    rw [get?_equalWeights, if_neg fun hmem => h ((hheld sym).mp hmem).1]
  have hin {sym : Symbol} (h : sym ∈ sleeve.riskSymbols) :
      (equalWeights held each).get? sym = if holds sym then some each else none := by
    rw [get?_equalWeights]
    simp only [hheld, h, true_and]
  have hrest : ar.decimal (1 - sumIn ar ((equalWeights held each).entries.map Prod.snd)) =
      leftOver ar (sleeve.riskSymbols.countP holds) each := by
    rw [values_equalWeights each hdistinct, hcount, leftOver]
  rw [hrest, safeWeightsIn]
  have hupdate (sym : Symbol) := get?_parked (equalWeights held each) (safest ar sleeve closes)
    (leftOver ar (sleeve.riskSymbols.countP holds) each) sym
  have hsafest {sym : Symbol} (h : safest ar sleeve closes = some sym) : sym ∈ sleeve.safeSymbols :=
    List.mem_of_mem_filter (safest_best h).candidate
  constructor
  · intro sym hsym
    rw [hupdate, if_neg fun h => hapart hsym (hsafest h.1), hin hsym]
  · intro sym hsym
    rw [hupdate, hout fun hmem => hapart hmem hsym]
  · intro sym hsym
    obtain ⟨hnotRisk, hnotSafe⟩ := not_or.mp (mt mem_symbols.mpr hsym)
    rw [hupdate, if_neg fun h => hnotSafe (hsafest h.1), hout hnotRisk]

/-! ### The strategies -/

theorem mem_scores {score : List Decimal → Option Decimal} {sym : Symbol} {r : Decimal} :
    toLex (r, sym) ∈ sleeve.scores closes score ↔
      sym ∈ sleeve.riskSymbols ∧ sym ∈ closes.columns ∧ score (closes.series sym) = some r := by
  unfold Sleeve.scores
  rw [List.mem_filterMap]
  constructor
  · rintro ⟨sym', hrisk, hscore⟩
    split at hscore
    · cases hscore
    · next hcolumn =>
      obtain ⟨r', hr, heq⟩ := Option.map_eq_some_iff.mp hscore
      cases heq
      exact ⟨hrisk, not_not.mp hcolumn, hr⟩
  · rintro ⟨hrisk, hcolumn, hr⟩
    refine ⟨sym, hrisk, ?_⟩
    rw [if_neg (not_not.mpr hcolumn), hr, Option.map_some]

/-- A symbol that is listed once has one score at most. -/
theorem nodup_scores (hrisk : sleeve.riskSymbols.Nodup) (score : List Decimal → Option Decimal) :
    ((sleeve.scores closes score).map fun s => (ofLex s).2).Nodup := by
  refine hrisk.sublist ?_
  unfold Sleeve.scores
  generalize sleeve.riskSymbols = symbols
  induction symbols with
  | nil => exact List.Sublist.slnil
  | cons sym rest ih =>
    rw [List.filterMap_cons]
    split
    · exact ih.cons sym
    · next s hs =>
      split at hs
      · cases hs
      · obtain ⟨m, -, rfl⟩ := Option.map_eq_some_iff.mp hs
        exact ih.cons_cons sym

/-- What dual momentum picks is what its rule holds. -/
theorem mem_picked (hrisk : sleeve.riskSymbols.Nodup) (lookback topN : ℕ) (floor : Decimal)
    (sym : Symbol) :
    sym ∈ ((top (sleeve.scores closes (totalReturnIn ar · lookback)) topN).filter fun s =>
        floor < (ofLex s).1).map (fun s => (ofLex s).2) ↔
      sym ∈ sleeve.riskSymbols ∧ dualHolds ar sleeve closes lookback topN floor sym = true := by
  have hscores : (sleeve.scores closes (totalReturnIn ar · lookback)).Nodup :=
    (nodup_scores hrisk (totalReturnIn ar · lookback)).of_map
  rw [List.mem_map]
  constructor
  · rintro ⟨s, hs, rfl⟩
    obtain ⟨htop, hfloor⟩ := List.mem_filter.mp hs
    obtain ⟨hmem, hahead⟩ := (mem_take_insertionSort_iff hscores topN s).mp htop
    obtain ⟨hsym, hcolumn, hr⟩ : (ofLex s).2 ∈ sleeve.riskSymbols ∧ (ofLex s).2 ∈ closes.columns ∧
        totalReturnIn ar (closes.series (ofLex s).2) lookback = some (ofLex s).1 := mem_scores.mp hmem
    refine ⟨hsym, ?_⟩
    unfold dualHolds
    rw [hr, decide_eq_true hcolumn, Bool.true_and]
    exact decide_eq_true ⟨of_decide_eq_true hfloor, hahead⟩
  · rintro ⟨hsym, hholds⟩
    obtain ⟨hcolumn, hholds⟩ := Bool.and_eq_true_iff.mp hholds
    obtain ⟨r, hr, hrule⟩ := (Option.any_eq_true _ _).mp hholds
    obtain ⟨hfloor, hahead⟩ := of_decide_eq_true hrule
    refine ⟨toLex (r, sym), List.mem_filter.mpr ⟨?_, decide_eq_true hfloor⟩, rfl⟩
    exact (mem_take_insertionSort_iff hscores topN _).mpr
      ⟨mem_scores.mpr ⟨hsym, of_decide_eq_true hcolumn, hr⟩, hahead⟩

theorem dualMomentum_follows (hnodup : sleeve.symbols.Nodup) (ar : Arithmetic)
    (lookback topN : ℕ) (floor : Decimal)
    (hscores : sleeve.scores closes (totalReturnIn ar · lookback) ≠ []) :
    ∃ weights reason, dualMomentumIn ar sleeve closes lookback topN floor = some (weights, reason) ∧
      FollowsRule ar sleeve closes (dualHolds ar sleeve closes lookback topN floor) (ar.decimal (1 / topN))
        (leftOver ar (sleeve.riskSymbols.countP (dualHolds ar sleeve closes lookback topN floor))
          (ar.decimal (1 / topN))) weights := by
  obtain ⟨hrisk, -⟩ := risk_apart hnodup
  unfold dualMomentumIn
  simp only
  rw [if_neg hscores]
  refine ⟨_, _, rfl, followsRule_parked hnodup ar _ (mem_picked hrisk lookback topN floor) ?_⟩
  have hperm := (List.perm_insertionSort (· ≥ ·) (sleeve.scores closes (totalReturnIn ar · lookback))).map
    fun s => (ofLex s).2
  refine (hperm.nodup_iff.mpr (nodup_scores hrisk _)).sublist ?_
  exact (List.filter_sublist.trans (List.take_sublist _ _)).map _

theorem inTrendIn_isSome {series : List Decimal} {smaDays : ℕ} (h : 1 ≤ smaDays) :
    inTrendIn ar series smaDays ≠ none := by
  unfold inTrendIn
  split
  · exact Option.some_ne_none _
  · next hlen =>
    rw [Ne, Option.map_eq_none_iff]
    exact last_ne_none (by omega)

theorem faberTiming_follows (hnodup : sleeve.symbols.Nodup) (ar : Arithmetic) {smaDays : ℕ}
    (hdays : 1 ≤ smaDays) (hcandidates : (sleeve.riskSymbols.filter (· ∈ closes.columns)) ≠ []) :
    ∃ weights reason, faberTimingIn ar sleeve closes smaDays = some (weights, reason) ∧
      FollowsRule ar sleeve closes (faberHolds ar closes smaDays)
        (ar.decimal (1 / (sleeve.riskSymbols.filter (· ∈ closes.columns)).length))
        (leftOver ar (sleeve.riskSymbols.countP (faberHolds ar closes smaDays))
          (ar.decimal (1 / (sleeve.riskSymbols.filter (· ∈ closes.columns)).length))) weights := by
  obtain ⟨hrisk, -⟩ := risk_apart hnodup
  have hnone : ¬ ((sleeve.riskSymbols.filter (· ∈ closes.columns)).any fun sym =>
      inTrendIn ar (closes.series sym) smaDays = none) = true := by
    rw [List.any_eq_true]
    rintro ⟨sym, -, hraises⟩
    exact inTrendIn_isSome hdays (of_decide_eq_true hraises)
  unfold faberTimingIn
  simp only
  rw [if_neg hcandidates, if_neg hnone]
  refine ⟨_, _, rfl, followsRule_parked hnodup ar _ (fun sym => ?_) ((hrisk.filter _).filter _)⟩
  rw [List.mem_filter, List.mem_filter, faberHolds, decide_eq_true_eq, decide_eq_true_eq,
    decide_eq_true_eq, and_assoc]

theorem safest_eq_none : safest ar sleeve closes = none ↔ safeCandidates sleeve closes = [] := by
  unfold safest
  split
  · next s hmax =>
    refine ⟨nofun, fun hempty => ?_⟩
    rw [safeScoresIn, hempty] at hmax
    cases hmax
  · exact List.head?_eq_none_iff

end

/-- **The strategies hold what their rules say.** In a sleeve that lists no asset twice, dual momentum
gives a `topN`-th to the assets whose return clears the floor with fewer than `topN` ranking before
them, the moving average gives an equal share to the assets that close above it, and to no other
risk asset; what that leaves of one is in a single safe asset, and none that has a history made more
than it. Without a safe asset to go to, the rest stays cash. All of it in the context's digits, or
in any others. -/
theorem rules_followed {sleeve : Sleeve} (hnodup : sleeve.symbols.Nodup) (closes : Frame)
    (ar : Arithmetic) :
    (∀ lookback topN floor, sleeve.scores closes (totalReturnIn ar · lookback) ≠ [] →
      ∃ weights reason, dualMomentumIn ar sleeve closes lookback topN floor = some (weights, reason) ∧
        FollowsRule ar sleeve closes (dualHolds ar sleeve closes lookback topN floor) (ar.decimal (1 / topN))
          (leftOver ar (sleeve.riskSymbols.countP (dualHolds ar sleeve closes lookback topN floor))
            (ar.decimal (1 / topN))) weights) ∧
      (∀ smaDays, 1 ≤ smaDays → (sleeve.riskSymbols.filter (· ∈ closes.columns)) ≠ [] →
        ∃ weights reason, faberTimingIn ar sleeve closes smaDays = some (weights, reason) ∧
          FollowsRule ar sleeve closes (faberHolds ar closes smaDays)
            (ar.decimal (1 / (sleeve.riskSymbols.filter (· ∈ closes.columns)).length))
            (leftOver ar (sleeve.riskSymbols.countP (faberHolds ar closes smaDays))
              (ar.decimal (1 / (sleeve.riskSymbols.filter (· ∈ closes.columns)).length))) weights) ∧
      (∀ sym, safest ar sleeve closes = some sym → BestSafe ar sleeve closes sym) ∧
      (safest ar sleeve closes = none ↔ safeCandidates sleeve closes = []) :=
  ⟨fun lookback topN floor => dualMomentum_follows hnodup ar lookback topN floor,
    fun _ hdays => faberTiming_follows hnodup ar hdays, fun _ => safest_best, safest_eq_none⟩

/-- A year that ends with one of two risk assets up. -/
def oneUp : Frame where
  columns := ["SPY", "EFA", "SHY", "IEF"]
  rows := [(⟨2026, 7, 30⟩, fun _ => some 100),
    (⟨2026, 7, 31⟩, fun sym => some (if sym = "SPY" then 110 else 90))]
  sorted := by decide

/-- A sleeve with two risk assets and two safe ones. -/
def twoAndTwo : Sleeve :=
  ⟨"two", [⟨"SPY", .US, true⟩, ⟨"EFA", .US, true⟩], [⟨"SHY", .US, false⟩, ⟨"IEF", .US, false⟩]⟩

/-- Doubles and decimals of 28 digits. -/
def sourceDigits : Arithmetic where
  decimal := Context.fix
  change last past := Binary64.round (Binary64.round (last / past) - 1)
  mean window :=
    Binary64.round (window.foldl (fun sum close => Binary64.round (sum + close)) 0 / window.length)

/-- A tenth up is more than a floor of a tenth in doubles: a third of the sleeve in the asset that
is up, and the other two thirds, to the last of 28 digits, in the first safe asset, as neither has
half a year of closes. -/
theorem rules_followed_third :
    ∃ weights reason, dualMomentumIn sourceDigits twoAndTwo oneUp 1 3 (Binary64.round (1 / 10)) =
        some (weights, reason) ∧
      weights.get? "SPY" = some (3333333333333333333333333333 / 10 ^ 28) ∧
      weights.get? "EFA" = none ∧
      weights.get? "SHY" = some (6666666666666666666666666667 / 10 ^ 28) ∧
      weights.get? "IEF" = none := by
  have hnodup : twoAndTwo.symbols.Nodup := by decide
  obtain ⟨hdual, -⟩ := rules_followed hnodup oneUp sourceDigits
  obtain ⟨weights, reason, hanswer, hrule⟩ := hdual 1 3 (Binary64.round (1 / 10)) (by decide +kernel)
  refine ⟨weights, reason, hanswer, ?_, ?_, ?_, ?_⟩
  · rw [hrule.risk "SPY" (by decide)]
    decide +kernel
  · rw [hrule.risk "EFA" (by decide)]
    decide +kernel
  · rw [hrule.safe "SHY" (by decide)]
    decide +kernel
  · rw [hrule.safe "IEF" (by decide)]
    decide +kernel

end Tqt
