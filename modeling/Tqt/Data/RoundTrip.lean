import Tqt.Data.State

/-! Which state values come back as they were written.

The row keeps no mark of whether its text is a text of its own or JSON. Flags, nulls and
containers are always told right; a text is taken for JSON when, without the blanks around
it, it is a literal, or opens like a container or a quoted text and decodes. So `"true"`
comes back as a flag, and every other text comes back (`roundTrip_iff`). -/
namespace Tqt

/-- What `json.dumps` makes of a container: bracketed, and undone by `json.loads`. -/
structure Dumped (loads : String → Option StateValue) (dumped : String) (v : StateValue) : Prop where
  bracketed : ∃ inner, dumped.toList = '{' :: inner ++ ['}'] ∨ dumped.toList = '[' :: inner ++ [']']
  loads : loads dumped = some v

/-- Texts, flags, null, and the containers that JSON has; no bare numbers. -/
def StateValue.Native (loads : String → Option StateValue) (v : StateValue) : Prop :=
  match v with
  | .other dumped _ _ => Dumped loads dumped v
  | _ => True

/-- The text is taken for JSON. -/
def Misread (loads : String → Option StateValue) (s : String) : Prop :=
  strip s ∈ ["true", "false", "null"] ∨ (opensJson (strip s) = true ∧ (loads (strip s)).isSome = true)

/-- A text that JSON quotes is shorter than its quotation. -/
def Quotes (loads : String → Option StateValue) : Prop :=
  ∀ quoted s, loads quoted = some (.text s) → s.length < quoted.length

theorem length_strip_le (s : String) : (strip s).length ≤ s.length := by
  have hfront := (List.dropWhile_suffix isSpace (l := s.toList)).length_le
  have hback := (List.dropWhile_suffix isSpace (l := (s.toList.dropWhile isSpace).reverse)).length_le
  rw [List.length_reverse] at hback
  rw [← String.length_toList, ← String.length_toList, strip, String.toList_ofList,
    List.length_reverse]
  exact hback.trans hfront

/-- No blank at either end. -/
theorem strip_eq_of_ends {s : String} {first last : Char} {inner : List Char}
    (hs : s.toList = first :: inner ++ [last]) (hfirst : isSpace first = false)
    (hlast : isSpace last = false) : strip s = s := by
  have hfront : s.toList.dropWhile isSpace = s.toList := by
    rw [hs, List.cons_append, List.dropWhile_cons_of_neg (by simp [hfirst])]
  have hback : s.toList.reverse.dropWhile isSpace = s.toList.reverse := by
    rw [hs, List.reverse_append, List.reverse_singleton, List.singleton_append,
      List.dropWhile_cons_of_neg (by simp [hlast])]
  rw [strip, hfront, hback, List.reverse_reverse, String.ofList_toList]

section
variable {loads : String → Option StateValue}

/-- A container comes back. -/
theorem decode_dumped {dumped : String} {v : StateValue} (h : Dumped loads dumped v) :
    decode loads dumped = v := by
  have hopen : strip dumped = dumped ∧ opensJson dumped = true := by
    obtain ⟨inner, hcurly | hsquare⟩ := h.bracketed
    · exact ⟨strip_eq_of_ends hcurly (by decide) (by decide), by simp [opensJson, hcurly, jsonOpeners]⟩
    · exact ⟨strip_eq_of_ends hsquare (by decide) (by decide), by simp [opensJson, hsquare, jsonOpeners]⟩
  have hne : ∀ literal : String, opensJson literal = false → dumped ≠ literal := by
    rintro literal hclosed rfl
    rw [hopen.2] at hclosed
    cases hclosed
  simp only [decode, hopen.1, hopen.2, if_true, h.loads, Option.getD_some]
  rw [if_neg (hne "true" (by decide)), if_neg (hne "false" (by decide)), if_neg (hne "null" (by decide))]

/-- A text comes back unless it is taken for JSON. -/
theorem decode_text (hquotes : Quotes loads) (s : String) :
    decode loads s = .text s ↔ ¬ Misread loads s := by
  unfold decode Misread
  simp only [List.mem_cons, List.not_mem_nil, or_false]
  by_cases htrue : strip s = "true"
  · simp [htrue]
  by_cases hfalse : strip s = "false"
  · simp [hfalse]
  by_cases hnull : strip s = "null"
  · simp [hnull]
  rw [if_neg htrue, if_neg hfalse, if_neg hnull]
  by_cases hopen : opensJson (strip s) = true
  · rw [if_pos hopen]
    cases hloads : loads (strip s) with
    | none => simp [htrue, hfalse, hnull]
    | some v =>
      have hne : v ≠ .text s := by
        rintro rfl
        have hlt := hquotes _ _ hloads
        exact absurd hlt (not_lt.mpr (length_strip_le s))
      simp [hne, hopen]
  · simp [htrue, hfalse, hnull, hopen]

/-- **State comes back** as it was written, and no other key with it changes, exactly when it is
not a text that is taken for JSON. -/
theorem roundTrip_iff (hquotes : Quotes loads) {v : StateValue} (hv : v.Native loads) (key : String)
    (default : StateValue) (state : StateTable) :
    (getState loads key default (setState key v state) = v ∧ ∀ other default', other ≠ key →
      getState loads other default' (setState key v state) = getState loads other default' state) ↔
    ∀ s, v = .text s → ¬ Misread loads s := by
  have hothers : ∀ other default', other ≠ key →
      getState loads other default' (setState key v state) = getState loads other default' state :=
    fun other default' hne => getState_setState_of_ne loads hne default' v state
  rw [and_iff_left hothers, getState, setState, Dict.get?_insert_self]
  show decode loads v.payload = v ↔ _
  cases v with
  | text s =>
    rw [show (StateValue.text s).payload = s from rfl, decode_text hquotes]
    simp
  | flag b => simp [decode_flag]
  | null => simp [show decode loads StateValue.null.payload = .null from rfl]
  | other dumped shown truth =>
    have hdecode : decode loads dumped = .other dumped shown truth := decode_dumped hv
    simp [StateValue.payload, hdecode]

end

/-! ### A decoder that knows one object -/

/-- `{"a": 1}`. -/
def sampleObject : StateValue := .other "\x7b\"a\": 1\x7d" "\x7b'a': 1\x7d" true

def sampleLoads (s : String) : Option StateValue :=
  if s = "\x7b\"a\": 1\x7d" then some sampleObject else none

theorem sampleLoads_quotes : Quotes sampleLoads := by
  intro quoted s h
  unfold sampleLoads at h
  split at h <;> cases h

theorem sampleObject_native : sampleObject.Native sampleLoads := by
  show Dumped sampleLoads _ sampleObject
  exact ⟨⟨"\"a\": 1".toList, .inl (by decide)⟩, by decide⟩

/-- The object comes back. -/
theorem roundTrip_object :
    getState sampleLoads "dict" .null (setState "dict" sampleObject ∅) = sampleObject ∧
      ∀ other default', other ≠ "dict" →
        getState sampleLoads other default' (setState "dict" sampleObject ∅) =
          getState sampleLoads other default' ∅ := by
  refine (roundTrip_iff sampleLoads_quotes sampleObject_native "dict" .null ∅).mpr ?_
  rintro s ⟨⟩

/-- A halt reason of `true`. -/
theorem text_true_misread :
    ¬ (getState sampleLoads "halt_reason" .null (setState "halt_reason" (.text "true") ∅) = .text "true" ∧
      ∀ other default', other ≠ "halt_reason" →
        getState sampleLoads other default' (setState "halt_reason" (.text "true") ∅) =
          getState sampleLoads other default' ∅) := by
  rintro ⟨h, -⟩
  revert h
  decide

end Tqt
