import Tqt.Strategy.Momentum

/-! What the strategies look at.

Every score is a ratio of two recent closes, and every trend compares a close with an average of
recent closes. So a strategy sees of a series only its last prices, as many as its parameters
reach back (`memory`), and of these only their shape: what a later split or a change of currency
multiplies cancels (`targets_by_shape`). That is so of exact quotients and averages; those of
doubles may differ in their last digit. -/
namespace Tqt

/-! ### Recent prices -/

/-- The last `n + 1` prices, newest first. -/
def recent (n : ℕ) (series : List Decimal) : List Decimal := series.reverse.take (n + 1)

/-- The last `n + 1` prices are the same up to a factor. -/
def SameShape (n : ℕ) (a b : List Decimal) : Prop :=
  ∃ c, 0 < c ∧ recent n b = (recent n a).map (c * ·)

section Series
variable {n : ℕ} {a b : List Decimal}

theorem SameShape.rescaled (n : ℕ) (a : List Decimal) {c : Decimal} (hc : 0 < c) :
    SameShape n a (a.map (c * ·)) := by
  refine ⟨c, hc, ?_⟩
  rw [recent, recent, ← List.map_reverse, List.map_take]

theorem back_recent {k : ℕ} (hk : k ≤ n) (series : List Decimal) :
    back series k = (recent n series)[k]? := by
  rw [back, recent, List.getElem?_take_of_lt (Nat.lt_succ_of_le hk)]

/-- One factor for every price within reach. -/
theorem SameShape.back (h : SameShape n a b) :
    ∃ c, 0 < c ∧ ∀ k ≤ n, Tqt.back b k = (Tqt.back a k).map (c * ·) := by
  obtain ⟨c, hc, hrecent⟩ := h
  refine ⟨c, hc, fun k hk => ?_⟩
  rw [back_recent hk, back_recent hk, hrecent, List.getElem?_map]

theorem SameShape.short_iff (h : SameShape n a b) {m : ℕ} (hm : m ≤ n + 1) :
    b.length < m ↔ a.length < m := by
  obtain ⟨c, -, hrecent⟩ := h
  have hlen := congrArg List.length hrecent
  simp only [recent, List.length_map, List.length_take, List.length_reverse] at hlen
  omega

/-- The factor cancels in a return. -/
theorem SameShape.totalReturn (h : SameShape n a b) {lookback : ℕ} (hlook : lookback ≤ n) :
    Tqt.totalReturn b lookback = Tqt.totalReturn a lookback := by
  obtain ⟨c, hc, hback⟩ := h.back
  unfold Tqt.totalReturn
  rw [hback 0 (Nat.zero_le n), hback lookback hlook]
  cases Tqt.back a 0 with
  | none => rfl
  | some last =>
    cases Tqt.back a lookback with
    | none => rfl
    | some past =>
      have hsign : c * past ≤ 0 ↔ past ≤ 0 := by
        rw [← not_lt, ← not_lt, mul_pos_iff_of_pos_left hc]
      simp only [Option.map_some, hsign, mul_div_mul_left _ _ hc.ne']

theorem SameShape.momentum13612w (h : SameShape n a b) (hn : 252 ≤ n) :
    Tqt.momentum13612w b = Tqt.momentum13612w a := by
  unfold Tqt.momentum13612w
  rw [h.totalReturn (show 21 ≤ n by omega), h.totalReturn (show 63 ≤ n by omega),
    h.totalReturn (show 126 ≤ n by omega), h.totalReturn hn]

/-- The window of a moving average is within reach. -/
theorem window_recent {m : ℕ} (hm : m ≤ n + 1) (series : List Decimal) :
    series.drop (series.length - m) = ((recent n series).take m).reverse := by
  rw [recent, List.take_take, min_eq_left hm, List.take_reverse, List.reverse_reverse]

/-- The average has the factor of the prices. -/
theorem SameShape.inTrend (h : SameShape n a b) {smaDays : ℕ} (hpos : 1 ≤ smaDays)
    (hm : smaDays ≤ n + 1) : Tqt.inTrend b smaDays = Tqt.inTrend a smaDays := by
  have hshort := h.short_iff hm
  obtain ⟨c, hc, hrecent⟩ := h
  have hsum (l : List Decimal) : (l.map (c * ·)).sum = c * l.sum := by
    simpa using List.sum_map_mul_left l id c
  have haverage : movingAverage b smaDays = c * movingAverage a smaDays := by
    have hzero := Nat.one_le_iff_ne_zero.mp hpos
    unfold movingAverage
    rw [if_neg hzero, if_neg hzero, window_recent hm, window_recent hm, hrecent, ← List.map_take,
      ← List.map_reverse]
    dsimp only
    rw [hsum, List.length_map, mul_div_assoc]
  have hlast : Tqt.back b 0 = (Tqt.back a 0).map (c * ·) := by
    rw [back_recent (Nat.zero_le n), back_recent (Nat.zero_le n), hrecent, List.getElem?_map]
  unfold Tqt.inTrend
  simp only [hshort, haverage, hlast]
  split
  · rfl
  · rw [Option.map_map]
    refine Option.map_congr fun last _ => ?_
    show decide (c * movingAverage a smaDays < c * last) = _
    rw [decide_eq_decide, mul_lt_mul_iff_right₀ hc]

/-- There is a price or there is none. -/
theorem SameShape.nil_iff (h : SameShape n a b) : b = [] ↔ a = [] := by
  have hshort := h.short_iff (m := 1) (by omega)
  rw [Nat.lt_one_iff, Nat.lt_one_iff, List.length_eq_zero_iff, List.length_eq_zero_iff] at hshort
  exact hshort

end Series

/-! ### Tables that look alike -/

/-- Two tables with the same symbols of a sleeve, each with recent prices of the same shape. -/
structure Alike (sleeve : Sleeve) (n : ℕ) (f g : Frame) : Prop where
  columns : ∀ sym ∈ sleeve.symbols, sym ∈ g.columns ↔ sym ∈ f.columns
  shape : ∀ sym ∈ sleeve.symbols, SameShape n (f.series sym) (g.series sym)

section Tables
variable {sleeve : Sleeve} {n : ℕ} {f g : Frame}

theorem mem_symbols_of_safe {sym : Symbol} (h : sym ∈ sleeve.safeSymbols) : sym ∈ sleeve.symbols := by
  obtain ⟨asset, hasset, rfl⟩ := List.mem_map.mp h
  exact List.mem_map_of_mem (List.mem_append_right _ hasset)

theorem Alike.scores (h : Alike sleeve n f g) {score : List Decimal → Option Decimal}
    (hscore : ∀ a b, SameShape n a b → score b = score a) :
    sleeve.scores g score = sleeve.scores f score := by
  refine List.filterMap_congr fun sym hsym => ?_
  have hmem := mem_symbols_of_risk hsym
  simp only [h.columns sym hmem, hscore _ _ (h.shape sym hmem)]

theorem Alike.safeScores (h : Alike sleeve n f g) (hn : Sleeve.safeLookback ≤ n)
    {candidates : List Symbol} (hsub : ∀ sym ∈ candidates, sym ∈ sleeve.symbols) :
    Sleeve.safeScores g candidates = Sleeve.safeScores f candidates := by
  refine List.filterMap_congr fun sym hsym => ?_
  obtain ⟨c, hc, hback⟩ := (h.shape sym (hsub sym hsym)).back
  rw [hback 0 (Nat.zero_le n), hback Sleeve.safeLookback hn]
  cases back (f.series sym) 0 with
  | none => rfl
  | some last =>
    cases back (f.series sym) Sleeve.safeLookback with
    | none => rfl
    | some past => simp only [Option.map_some, mul_div_mul_left _ _ hc.ne']

theorem Alike.safeWeights (h : Alike sleeve n f g) (hn : Sleeve.safeLookback ≤ n) (weight : Decimal) :
    sleeve.safeWeights g weight = sleeve.safeWeights f weight := by
  have hcandidates : (sleeve.safeSymbols.filter (· ∈ g.columns)) =
      sleeve.safeSymbols.filter (· ∈ f.columns) :=
    List.filter_congr fun sym hsym => by simp only [h.columns sym (mem_symbols_of_safe hsym)]
  have hscores : Sleeve.safeScores g (sleeve.safeSymbols.filter (· ∈ f.columns)) =
      Sleeve.safeScores f (sleeve.safeSymbols.filter (· ∈ f.columns)) :=
    h.safeScores hn fun sym hsym => mem_symbols_of_safe (List.mem_of_mem_filter hsym)
  unfold Sleeve.safeWeights
  simp only [hcandidates, hscores]

end Tables

/-! ### The strategies -/

namespace StrategyParams

/-- How many bars back the strategy looks. -/
def memory : StrategyParams → ℕ
  | .buyAndHold _ => 0
  | .dualMomentum lookback _ _ => max lookback.toNat Sleeve.safeLookback
  | .vaa _ _ => 252
  | .faber smaDays => max (smaDays.toNat - 1) Sleeve.safeLookback

end StrategyParams

section Strategies
variable {sleeve : Sleeve} {n : ℕ} {f g : Frame}

/-- A print of a symbol is an entry of its series. -/
theorem series_ne_nil (f : Frame) (sym : Symbol) :
    (f.rows.any fun row => (row.2 sym).isSome) = true ↔ f.series sym ≠ [] := by
  unfold Frame.series
  rw [Ne, List.filterMap_eq_nil_iff, List.any_eq_true]
  simp only [not_forall, ← Option.isSome_iff_ne_none, exists_prop]

theorem Alike.buyAndHold (h : Alike sleeve n f g) (asof asof' : Date) :
    Tqt.buyAndHold sleeve g asof' = Tqt.buyAndHold sleeve f asof := by
  have havailable : (sleeve.riskSymbols.filter fun sym =>
      sym ∈ g.columns ∧ g.rows.any fun row => (row.2 sym).isSome) =
      sleeve.riskSymbols.filter fun sym =>
        sym ∈ f.columns ∧ f.rows.any fun row => (row.2 sym).isSome := by
    refine List.filter_congr fun sym hsym => ?_
    have hmem := mem_symbols_of_risk hsym
    simp only [series_ne_nil, h.columns sym hmem, Ne, (h.shape sym hmem).nil_iff]
  unfold Tqt.buyAndHold
  simp only [havailable]

theorem Alike.dualMomentum {lookback : ℕ} {topN : ℤ} {floor : Decimal}
    (h : Alike sleeve (max lookback Sleeve.safeLookback) f g) :
    Tqt.dualMomentum sleeve g lookback topN floor = Tqt.dualMomentum sleeve f lookback topN floor := by
  have hscores : sleeve.scores g (totalReturn · lookback) = sleeve.scores f (totalReturn · lookback) :=
    h.scores fun _ _ hshape => hshape.totalReturn (le_max_left _ _)
  unfold Tqt.dualMomentum
  rw [lookbackRaises_natCast, lookbackRaises_natCast]
  simp only [returnOver_natCast, Option.join_some, hscores, h.safeWeights (le_max_right _ _)]
  rfl

theorem Alike.vaa {topN : ℤ} {breadthB : Option ℤ} (h : Alike sleeve 252 f g) :
    Tqt.vaa sleeve g topN breadthB = Tqt.vaa sleeve f topN breadthB := by
  have hscores : sleeve.scores g momentum13612w = sleeve.scores f momentum13612w :=
    h.scores fun _ _ hshape => hshape.momentum13612w le_rfl
  unfold Tqt.vaa
  simp only [hscores, h.safeWeights (show 126 ≤ 252 by omega)]

theorem Alike.faber {smaDays : ℕ} (hpos : 1 ≤ smaDays)
    (h : Alike sleeve (max (smaDays - 1) Sleeve.safeLookback) f g) :
    faberTiming sleeve g smaDays = faberTiming sleeve f smaDays := by
  have hcandidates : (sleeve.riskSymbols.filter (· ∈ g.columns)) =
      sleeve.riskSymbols.filter (· ∈ f.columns) :=
    List.filter_congr fun sym hsym => by simp only [h.columns sym (mem_symbols_of_risk hsym)]
  have htrend : ∀ sym ∈ sleeve.riskSymbols.filter (· ∈ f.columns),
      aboveAverage (g.series sym) smaDays = aboveAverage (f.series sym) smaDays := by
    intro sym hsym
    have hwindow : smaDays ≤ max (smaDays - 1) Sleeve.safeLookback + 1 := by omega
    rw [aboveAverage_natCast, aboveAverage_natCast]
    exact (h.shape sym (mem_symbols_of_risk (List.mem_of_mem_filter hsym))).inTrend hpos hwindow
  have hraises : ((sleeve.riskSymbols.filter (· ∈ f.columns)).any fun sym =>
      decide (aboveAverage (g.series sym) smaDays = none)) =
      (sleeve.riskSymbols.filter (· ∈ f.columns)).any fun sym =>
        decide (aboveAverage (f.series sym) smaDays = none) := by
    rw [Bool.eq_iff_iff, List.any_eq_true, List.any_eq_true]
    exact exists_congr fun sym => and_congr_right fun hsym => by rw [htrend sym hsym]
  have hup : ((sleeve.riskSymbols.filter (· ∈ f.columns)).filter fun sym =>
      decide (aboveAverage (g.series sym) smaDays = some true)) =
      (sleeve.riskSymbols.filter (· ∈ f.columns)).filter fun sym =>
        decide (aboveAverage (f.series sym) smaDays = some true) :=
    List.filter_congr fun sym hsym => by rw [htrend sym hsym]
  unfold faberTiming
  simp only [hcandidates, hraises, hup, h.safeWeights (le_max_right _ _)]

/-- **A strategy sees the shape of the recent prices.** -/
theorem targetWeights_alike (p : StrategyParams) (hrange : p.InRange)
    (h : Alike sleeve p.memory f g) (asof asof' : Date) :
    p.targetWeights sleeve g asof' = p.targetWeights sleeve f asof := by
  cases p with
  | buyAndHold rebalance => exact h.buyAndHold asof asof'
  | dualMomentum lookback topN floor =>
    obtain ⟨n, rfl⟩ := Int.eq_ofNat_of_zero_le (zero_le_one.trans hrange.1)
    exact h.dualMomentum
  | vaa topN breadthB => exact h.vaa
  | faber smaDays =>
    obtain ⟨n, rfl⟩ := Int.eq_ofNat_of_zero_le (zero_le_one.trans hrange)
    exact h.faber (Int.ofNat_le.mp hrange)

end Strategies

/-! ### The plan -/

/-- `closes.loc[: asof]`, or all of it. -/
def Frame.asOf (f : Frame) : Option Date → Frame
  | some day => f.upTo day
  | none => f

/-- No strategy looks at the date it is asked for. -/
theorem targetWeights_date (p : StrategyParams) (sleeve : Sleeve) (closes : Frame) (asof asof' : Date) :
    p.targetWeights sleeve closes asof = p.targetWeights sleeve closes asof' := by
  cases p <;> rfl

namespace Allocation

/-- Its strategy is this one of the registry. -/
def Runs (a : Allocation) (p : StrategyParams) : Prop := a.strategy = p.targetWeights a.sleeve

/-- What the allocation decides on the table up to the date. -/
def decideOn (a : Allocation) (closes : Frame) : Except String (Dict Symbol Decimal × String) :=
  match closes.isEmpty, closes.index.getLast? with
  | false, some stamp =>
    match a.strategy closes stamp with
    | none => .error "strategy error"
    | some (weights, reason) =>
      .ok (weights, if reason = "" then "no reason given" else reason)
  | _, _ => .error "no data before asof"

theorem decide_eq (a : Allocation) (data : LocalData) (asof : Option Date) :
    a.decide data asof = if (data a.sleeve.symbols).isEmpty then .error "no data"
      else a.decideOn ((data a.sleeve.symbols).asOf asof) := by
  cases asof <;> rfl

/-- A table that is not empty has a last date, and which one does not matter. -/
theorem decideOn_eq {a : Allocation} {p : StrategyParams} (hp : a.Runs p) (closes : Frame)
    (stamp : Date) : a.decideOn closes =
      if closes.isEmpty then .error "no data before asof"
      else match p.targetWeights a.sleeve closes stamp with
        | none => .error "strategy error"
        | some (weights, reason) => .ok (weights, if reason = "" then "no reason given" else reason) := by
  unfold decideOn
  cases hempty : closes.isEmpty with
  | true => rfl
  | false =>
    have hrows : closes.index ≠ [] := by
      intro hnil
      have hnone : closes.rows = [] := List.map_eq_nil_iff.mp hnil
      simp [Frame.isEmpty, hnone] at hempty
    obtain ⟨last, hlast⟩ := Option.ne_none_iff_exists'.mp (mt List.getLast?_eq_none_iff.mp hrows)
    rw [hlast, hp, targetWeights_date p a.sleeve closes stamp last]
    rfl

/-- The tables of two stores look alike to the allocation. -/
structure Sees (a : Allocation) (p : StrategyParams) (f g : Frame) (asof asof' : Option Date) :
    Prop where
  any : g.isEmpty = f.isEmpty
  before : (g.asOf asof').isEmpty = (f.asOf asof).isEmpty
  alike : Alike a.sleeve p.memory (f.asOf asof) (g.asOf asof')

theorem decide_alike {a : Allocation} {p : StrategyParams} (hp : a.Runs p) (hrange : p.InRange)
    {data data' : LocalData} {asof asof' : Option Date}
    (h : a.Sees p (data a.sleeve.symbols) (data' a.sleeve.symbols) asof asof') :
    a.decide data' asof' = a.decide data asof := by
  have hsame := targetWeights_alike p hrange h.alike ⟨0, 0, 0⟩ ⟨0, 0, 0⟩
  rw [decide_eq, decide_eq, decideOn_eq hp _ ⟨0, 0, 0⟩, decideOn_eq hp _ ⟨0, 0, 0⟩, h.any, h.before,
    hsame]

end Allocation

/-- The table with the prices of each symbol multiplied. -/
def Frame.rescale (c : Symbol → Decimal) (f : Frame) : Frame where
  columns := f.columns
  rows := f.rows.map fun row => (row.1, fun sym => (row.2 sym).map (c sym * ·))
  sorted := by
    rw [List.pairwise_map]
    exact f.sorted

theorem series_rescale (c : Symbol → Decimal) (f : Frame) (sym : Symbol) :
    (f.rescale c).series sym = (f.series sym).map (c sym * ·) := by
  unfold Frame.series Frame.rescale
  rw [List.filterMap_map, List.map_filterMap]
  rfl

theorem asOf_rescale (c : Symbol → Decimal) (f : Frame) (asof : Option Date) :
    ((f.rescale c).asOf asof).rows = ((f.asOf asof).rescale c).rows ∧
      ((f.rescale c).asOf asof).columns = (f.asOf asof).columns := by
  cases asof with
  | none => exact ⟨rfl, rfl⟩
  | some day =>
    refine ⟨?_, rfl⟩
    show (f.rows.map _).filter _ = (f.rows.filter _).map _
    rw [List.filter_map]
    rfl

/-- Multiplied prices look alike. -/
theorem rescale_sees (a : Allocation) (p : StrategyParams) {c : Symbol → Decimal}
    (hc : ∀ sym, 0 < c sym) (f : Frame) (asof : Option Date) : a.Sees p f (f.rescale c) asof asof := by
  obtain ⟨hrows, hcolumns⟩ := asOf_rescale c f asof
  refine ⟨?_, ?_, fun sym _ => by rw [hcolumns], fun sym _ => ?_⟩
  · simp [Frame.isEmpty, Frame.rescale]
  · rw [Frame.isEmpty, hrows, hcolumns]
    simp [Frame.isEmpty, Frame.rescale]
  · have hseries : ((f.rescale c).asOf asof).series sym = ((f.asOf asof).series sym).map (c sym * ·) := by
      rw [← series_rescale, Frame.series, hrows]
      rfl
    rw [hseries]
    exact SameShape.rescaled _ _ (hc sym)

namespace PortfolioPlan

/-- The same decisions make the same book, with the same reasons. -/
theorem targets_congr {plan : PortfolioPlan} {data data' : LocalData} {asof asof' : Option Date}
    (h : ∀ a ∈ plan.allocations, a.decide data' asof' = a.decide data asof) :
    plan.targetWeights data' asof' = plan.targetWeights data asof ∧
      plan.targetReasons data' asof' = plan.targetReasons data asof := by
  have hcombine : combine plan.allocations data' asof' = combine plan.allocations data asof :=
    List.foldl_ext _ _ _ fun c a ha => by rw [Allocation.decision, Allocation.decision, h a ha]
  refine ⟨?_, List.foldl_ext _ _ _ fun reasons a ha => by rw [h a ha]⟩
  unfold targetWeights
  rw [hcombine]

end PortfolioPlan

/-- **Targets depend on the shape of recent prices alone**: two stores whose tables look alike to
every allocation, over as many bars as its strategy looks back, give the same book for the same
reasons; so multiplying all prices of any symbol, as a split does, changes neither. -/
theorem targets_by_shape (plan : PortfolioPlan) (params : Allocation → StrategyParams)
    (hparams : ∀ a ∈ plan.allocations, a.Runs (params a) ∧ (params a).InRange) :
    (∀ (data data' : LocalData) (asof asof' : Option Date),
      (∀ a ∈ plan.allocations,
        a.Sees (params a) (data a.sleeve.symbols) (data' a.sleeve.symbols) asof asof') →
      plan.targetWeights data' asof' = plan.targetWeights data asof ∧
        plan.targetReasons data' asof' = plan.targetReasons data asof) ∧
    ∀ (data : LocalData) (asof : Option Date) (c : Symbol → Decimal), (∀ sym, 0 < c sym) →
      plan.targetWeights (fun symbols => (data symbols).rescale c) asof =
          plan.targetWeights data asof ∧
        plan.targetReasons (fun symbols => (data symbols).rescale c) asof =
          plan.targetReasons data asof := by
  refine ⟨fun data data' asof asof' hsees => ?_, fun data asof c hc => ?_⟩
  · refine PortfolioPlan.targets_congr fun a ha => ?_
    obtain ⟨hruns, hrange⟩ := hparams a ha
    exact Allocation.decide_alike hruns hrange (hsees a ha)
  · refine PortfolioPlan.targets_congr fun a ha => ?_
    obtain ⟨hruns, hrange⟩ := hparams a ha
    exact Allocation.decide_alike hruns hrange (rescale_sees a (params a) hc (data a.sleeve.symbols) asof)

/-- The built-in plan, with its parameters. -/
def defaultParams (a : Allocation) : StrategyParams :=
  if a.strategyKey = "faber" then .faber 200
  else if a.strategyKey = "dual-momentum" then .dualMomentum 252 2 0
  else .buyAndHold "Y"

/-- A split of everything leaves the default plan where it was. -/
theorem targets_by_shape_default :
    defaultPlan.targetWeights (fun symbols => (everything symbols).rescale fun _ => 1 / 50) none =
      defaultPlan.targetWeights everything none := by
  refine ((targets_by_shape defaultPlan defaultParams ?_).2 everything none _ ?_).1
  · intro a ha
    simp only [defaultPlan, List.mem_cons, List.not_mem_nil, or_false] at ha
    rcases ha with rfl | rfl | rfl
    · exact ⟨rfl, show 1 ≤ 200 by omega⟩
    · exact ⟨rfl, show 1 ≤ 252 ∧ 1 ≤ 2 by omega⟩
    · exact ⟨rfl, trivial⟩
  · intro _
    norm_num

end Tqt
