import Tqt.Portfolio
import Mathlib.Data.Prod.Lex
import Mathlib.Data.String.Basic

/-! What the strategies share: the series of a symbol, its returns, and the safe asset.

Floats are rationals here, so that a comparison of returns or averages is exact where the source
compares doubles. That weights are shares of one unit does not rest on how a comparison comes out;
which assets are picked does. -/
namespace Tqt

def Sleeve.safeSymbols (s : Sleeve) : List Symbol := s.safe.map Asset.symbol

/-- `closes[sym].dropna()`, oldest first. -/
def Frame.series (f : Frame) (sym : Symbol) : List Decimal := f.rows.filterMap fun row => row.2 sym

/-- `series.iloc[-1 - k]`; nothing where that raises. -/
def back (series : List Decimal) (k : ℕ) : Option Decimal := series.reverse[k]?

/-- Simple total return over `lookback` bars, or nothing if history is short. -/
def totalReturn (series : List Decimal) (lookback : ℕ) : Option Decimal :=
  match back series 0, back series lookback with
  | some last, some past => if past ≤ 0 then none else some (last / past - 1)
  | _, _ => none

/-- `total_return` for any integer; the outer nothing is an `IndexError`. A negative lookback counts
from the front. -/
def returnOver (series : List Decimal) : ℤ → Option (Option Decimal)
  | .ofNat lookback => some (totalReturn series lookback)
  | .negSucc k => series[k]?.map fun past =>
    if past ≤ 0 then none else (back series 0).map fun last => last / past - 1

theorem returnOver_natCast (series : List Decimal) (lookback : ℕ) :
    returnOver series lookback = some (totalReturn series lookback) := rfl

/-- Keller's 13612W score: a weighted blend of 1/3/6/12-month returns. -/
def momentum13612w (series : List Decimal) : Option Decimal :=
  match totalReturn series 21, totalReturn series 63, totalReturn series 126,
    totalReturn series 252 with
  | some r1, some r3, some r6, some r12 => some ((12 * r1 + 4 * r3 + 2 * r6 + 1 * r12) / 19)
  | _, _, _, _ => none

/-- A score with its symbol, ordered as a tuple. -/
abbrev Score := Decimal ×ₗ Symbol

namespace Sleeve

/-- The scores of the risk assets that have one. -/
def scores (sleeve : Sleeve) (closes : Frame) (score : List Decimal → Option Decimal) : List Score :=
  sleeve.riskSymbols.filterMap fun sym =>
    if sym ∉ closes.columns then none
    else (score (closes.series sym)).map fun r => toLex (r, sym)

def safeLookback : ℕ := 126

/-- What the safe assets made over the lookback, where their history reaches that far. -/
def safeScores (closes : Frame) (candidates : List Symbol) : List Score :=
  candidates.filterMap fun sym =>
    match back (closes.series sym) 0, back (closes.series sym) safeLookback with
    | some last, some past => some (toLex (last / past - 1, sym))
    | _, _ => none

/-- `_safe_weights`: park `weight` in the best-performing available safe asset. -/
def safeWeights (sleeve : Sleeve) (closes : Frame) (weight : Decimal) : Dict Symbol Decimal :=
  if weight ≤ 0 then ∅
  else
    let candidates := sleeve.safeSymbols.filter (· ∈ closes.columns)
    match candidates with
    | [] => ∅
    | first :: _ =>
      let best := match (safeScores closes candidates).max? with
        | some s => (ofLex s).2
        | none => first
      Dict.ofList [(best, weight)]

end Sleeve

/-! ### Shares of a sleeve -/

/-- Weights of symbols of the sleeve, none negative, `cap` at most together. -/
structure Shares (sleeve : Sleeve) (cap : Decimal) (weights : Dict Symbol Decimal) : Prop where
  nonneg : ∀ sym w, weights.get? sym = some w → 0 ≤ w
  inside : ∀ sym w, weights.get? sym = some w → sym ∈ sleeve.symbols
  total_le : weights.total ≤ cap

section
variable {sleeve : Sleeve} {cap : Decimal} {weights : Dict Symbol Decimal}

theorem Shares.empty (h : 0 ≤ cap) : Shares sleeve cap ∅ := ⟨nofun, nofun, h⟩

theorem Shares.mono {cap' : Decimal} (h : Shares sleeve cap weights) (hle : cap ≤ cap') :
    Shares sleeve cap' weights :=
  ⟨h.nonneg, h.inside, h.total_le.trans hle⟩

/-- A weight more, or in place of another one. -/
theorem Shares.insert {sym : Symbol} {w : Decimal} (h : Shares sleeve cap weights)
    (hsym : sym ∈ sleeve.symbols) (hw : 0 ≤ w) : Shares sleeve (cap + w) (weights.insert sym w) := by
  refine ⟨fun sym' w' h' => weights.insert_property (P := fun w => 0 ≤ w) hw h.nonneg h', ?_, ?_⟩
  · intro sym' w' h'
    rw [Dict.get?_insert] at h'
    split at h'
    · next heq => exact heq ▸ hsym
    · exact h.inside sym' w' h'
  · have hold : 0 ≤ weights.getD sym 0 := weights.getD_property sym le_rfl h.nonneg
    rw [Dict.total_insert]
    linarith [h.total_le]

theorem Shares.foldl (symbols : List Symbol) {each : Decimal} (h : Shares sleeve cap weights)
    (heach : 0 ≤ each) (hsub : ∀ sym ∈ symbols, sym ∈ sleeve.symbols) :
    Shares sleeve (cap + symbols.length * each)
      ((symbols.map fun sym => (sym, each)).foldl (fun d e => d.insert e.1 e.2) weights) := by
  induction symbols generalizing cap weights with
  | nil => simpa using h
  | cons sym rest ih =>
    have hrest := ih (h.insert (hsub sym (List.mem_cons_self ..)) heach) fun sym' hm =>
      hsub sym' (List.mem_cons_of_mem sym hm)
    refine hrest.mono (le_of_eq ?_)
    rw [List.length_cons]
    push_cast
    ring

/-- The same weight for each of some symbols. -/
theorem Shares.equal (symbols : List Symbol) {each : Decimal} (heach : 0 ≤ each)
    (hsub : ∀ sym ∈ symbols, sym ∈ sleeve.symbols) :
    Shares sleeve (symbols.length * each) (Dict.ofList (symbols.map fun sym => (sym, each))) :=
  ((Shares.empty le_rfl).foldl symbols heach hsub).mono (zero_add _).le

/-- The safe asset takes what it is given, or nothing does. -/
theorem safeWeights_cases (sleeve : Sleeve) (closes : Frame) (weight : Decimal) :
    sleeve.safeWeights closes weight = ∅ ∨ 0 < weight ∧ ∃ best ∈ sleeve.symbols,
      sleeve.safeWeights closes weight = Dict.ofList [(best, weight)] := by
  unfold Sleeve.safeWeights
  split
  · exact .inl rfl
  · next hw =>
    simp only
    split
    · exact .inl rfl
    · next first rest hcandidates =>
      have hsafe : ∀ sym ∈ sleeve.safeSymbols.filter (· ∈ closes.columns), sym ∈ sleeve.symbols := by
        intro sym hsym
        obtain ⟨asset, hasset, rfl⟩ := List.mem_map.mp (List.mem_of_mem_filter hsym)
        exact List.mem_map_of_mem (List.mem_append_right _ hasset)
      refine .inr ⟨not_le.mp hw, _, ?_, rfl⟩
      split
      · next best hbest =>
        have hmem := List.max?_mem hbest
        simp only [Sleeve.safeScores, List.mem_filterMap] at hmem
        obtain ⟨sym, hsym, hscore⟩ := hmem
        split at hscore
        · cases hscore
          exact hsafe sym hsym
        · cases hscore
      · exact hsafe first (hcandidates ▸ List.mem_cons_self ..)

/-- Everything in the safe asset. -/
theorem Shares.safe (closes : Frame) : Shares sleeve 1 (sleeve.safeWeights closes 1) := by
  rcases safeWeights_cases sleeve closes 1 with hnone | ⟨hpos, best, hbest, hone⟩
  · rw [hnone]
    exact .empty zero_le_one
  · rw [hone]
    exact ((Shares.empty le_rfl).insert hbest hpos.le).mono (zero_add _).le

/-- Weights and what is left of them, in the safe asset: all of it at most. -/
theorem Shares.parked (h : Shares sleeve cap weights) (hcap : cap ≤ 1) (closes : Frame) :
    Shares sleeve 1 (weights.update (sleeve.safeWeights closes (1 - weights.total))) := by
  rcases safeWeights_cases sleeve closes (1 - weights.total) with hnone | ⟨hpos, best, hbest, hone⟩
  · rw [hnone]
    exact h.mono hcap
  · rw [hone]
    have hexact : Shares sleeve weights.total weights := ⟨h.nonneg, h.inside, le_rfl⟩
    exact (hexact.insert hbest hpos.le).mono (by linarith)

end
end Tqt
