import Tqt.Calendar
import Tqt.Foundation.Dict

/-! The key-value state of the store, as text.

`set_state` stores a text as it is and anything else as JSON. `get_state` guesses from the
text what it was: literals, containers and quoted texts are decoded, every other text is
handed back as it stands. What the bot writes there itself comes back unchanged: a flag
(`getState_flag`), and a text that is empty or a date (`getState_plain`). -/
namespace Tqt

/-- A value of a state key. Of a container, or of a number: the texts that `json.dumps` and
`str` make of it, and its truth. -/
inductive StateValue where
  | text (s : String)
  | flag (b : Bool)
  | null
  | other (dumped shown : String) (truth : Bool)
deriving DecidableEq, Repr

namespace StateValue

/-- `bool(value)`. -/
def truth : StateValue → Bool
  | .text s => s ≠ ""
  | .flag b => b
  | .null => false
  | .other _ _ b => b

/-- `str(value)`. -/
def shown : StateValue → String
  | .text s => s
  | .flag b => if b then "True" else "False"
  | .null => "None"
  | .other _ s _ => s

/-- What `set_state` stores: `value if isinstance(value, str) else json.dumps(value)`. -/
def payload : StateValue → String
  | .text s => s
  | .flag b => if b then "true" else "false"
  | .null => "null"
  | .other s _ _ => s

end StateValue

/-- `str.isspace`. -/
def isSpace (c : Char) : Bool :=
  let n := c.toNat
  (9 ≤ n && n ≤ 13) || (28 ≤ n && n ≤ 32) || n == 0x85 || n == 0xa0 || n == 0x1680 ||
    (0x2000 ≤ n && n ≤ 0x200a) || n == 0x2028 || n == 0x2029 || n == 0x202f || n == 0x205f ||
    n == 0x3000

/-- `str.strip`. -/
def strip (s : String) : String :=
  String.ofList ((s.toList.dropWhile isSpace).reverse.dropWhile isSpace).reverse

/-- The rows of `state`. -/
abbrev StateTable := Dict String String

def setState (key : String) (value : StateValue) (state : StateTable) : StateTable :=
  state.insert key value.payload

/-- The first character of a container or of a quoted text. -/
def jsonOpeners : List Char := ['{', '[', '"']

/-- `stripped[:1] in ("{", "[", '"')`. -/
def opensJson (s : String) : Bool := s.toList.head?.any fun c => c ∈ jsonOpeners

section
variable (loads : String → Option StateValue)

/-- `loads` is `json.loads` on a container or a quoted text, `none` a `ValueError`. -/
def decode (raw : String) : StateValue :=
  let stripped := strip raw
  if stripped = "true" then .flag true
  else if stripped = "false" then .flag false
  else if stripped = "null" then .null
  else if opensJson stripped then (loads stripped).getD (.text raw)
  else .text raw

def getState (key : String) (default : StateValue) (state : StateTable) : StateValue :=
  match state.get? key with
  | none => default
  | some raw => decode loads raw

/-! ### Reading back -/

theorem strip_eq {s : String} (h : ∀ c ∈ s.toList, isSpace c = false) : strip s = s := by
  have hnone : ∀ l : List Char, (∀ c ∈ l, isSpace c = false) → l.dropWhile isSpace = l := by
    intro l hl
    cases l with
    | nil => rfl
    | cons c rest => rw [List.dropWhile_cons_of_neg (by simp [hl c (List.mem_cons_self ..)])]
  rw [strip, hnone _ h, hnone _ fun c hc => h c (List.mem_reverse.mp hc), List.reverse_reverse,
    String.ofList_toList]

/-- The characters of a date. -/
def Plain (s : String) : Prop := ∀ c ∈ s.toList, c.isDigit = true ∨ c = '-'

theorem plain_empty : Plain "" := by
  intro c hc
  simp at hc

theorem not_isSpace {c : Char} (h : c.isDigit = true ∨ c = '-') : isSpace c = false := by
  rcases h with h | rfl
  · simp only [Char.isDigit, Bool.and_eq_true, decide_eq_true_eq, UInt32.le_iff_toNat_le] at h
    change 48 ≤ c.val.toNat ∧ c.val.toNat ≤ 57 at h
    simp only [isSpace, Char.toNat, Bool.or_eq_false_iff, Bool.and_eq_false_iff,
      decide_eq_false_iff_not, beq_eq_false_iff_ne]
    omega
  · rfl

/-- Nothing is read into a plain text. -/
theorem decode_plain {s : String} (h : Plain s) : decode loads s = .text s := by
  have hstrip : strip s = s := strip_eq fun c hc => not_isSpace (h c hc)
  have hlit : ∀ lit : String, ∀ c ∈ lit.toList, ¬ (c.isDigit = true ∨ c = '-') → s ≠ lit := by
    intro lit c hc hnot heq
    subst heq
    exact hnot (h c hc)
  have hopen : opensJson s = false := by
    unfold opensJson
    cases hs : s.toList with
    | nil => rfl
    | cons c rest =>
      have hc := h c (by rw [hs]; exact List.mem_cons_self ..)
      simp only [List.head?_cons, Option.any_some, decide_eq_false_iff_not]
      intro hmem
      simp only [jsonOpeners, List.mem_cons, List.not_mem_nil, or_false] at hmem
      rcases hmem with rfl | rfl | rfl <;> exact absurd hc (by decide)
  simp only [decode, hstrip]
  rw [if_neg (hlit "true" 't' (by decide) (by decide)),
    if_neg (hlit "false" 'f' (by decide) (by decide)),
    if_neg (hlit "null" 'n' (by decide) (by decide)), hopen]
  rfl

theorem decode_flag (b : Bool) : decode loads (StateValue.flag b).payload = .flag b := by
  cases b <;> rfl

/-- **A flag comes back as it was written.** -/
@[simp] theorem getState_flag (key : String) (default : StateValue) (b : Bool) (state : StateTable) :
    getState loads key default (setState key (.flag b) state) = .flag b := by
  rw [getState, setState, Dict.get?_insert_self]
  exact decode_flag loads b

/-- **So does a plain text.** -/
theorem getState_plain {s : String} (h : Plain s) (key : String) (default : StateValue)
    (state : StateTable) : getState loads key default (setState key (.text s) state) = .text s := by
  rw [getState, setState, Dict.get?_insert_self]
  exact decode_plain loads h

/-- Writing one key leaves the others alone. -/
theorem getState_setState_of_ne {key other : String} (h : key ≠ other) (default value : StateValue)
    (state : StateTable) :
    getState loads key default (setState other value state) = getState loads key default state := by
  rw [getState, setState, Dict.get?_insert_of_ne _ _ h, getState]

end

/-! ### Dates as text -/

/-- A number in at least `width` digits. -/
def padded (width n : ℕ) : List Char := (Nat.toDigits 10 n).leftpad width '0'

/-- `strftime("%Y-%m-%d")`. -/
def Date.iso (d : Date) : String :=
  String.ofList (padded 4 d.year ++ '-' :: (padded 2 d.month ++ '-' :: padded 2 d.day))

theorem isDigit_padded {width n : ℕ} {c : Char} (h : c ∈ padded width n) : c.isDigit = true := by
  rw [padded, List.leftpad, List.mem_append] at h
  rcases h with h | h
  · rw [List.eq_of_mem_replicate h]
    rfl
  · exact Nat.isDigit_of_mem_toDigits (by omega) le_rfl h

theorem dash_not_mem_padded (width n : ℕ) : '-' ∉ padded width n := by
  intro h
  exact absurd (isDigit_padded h) (by decide)

theorem padded_injective (width : ℕ) : Function.Injective (padded width) := by
  intro m n h
  have hvalue : ∀ k, Nat.ofDigitChars 10 (padded width k) 0 = k := by
    intro k
    rw [padded, List.leftpad, Nat.ofDigitChars_append, Nat.ofDigitChars_replicate_zero, mul_zero,
      Nat.ofDigitChars_ten_toDigits]
  rw [← hvalue m, h, hvalue n]

theorem Date.iso_plain (d : Date) : Plain d.iso := by
  intro c hc
  simp only [Date.iso, String.toList_ofList, List.mem_append, List.mem_cons] at hc
  rcases hc with hc | rfl | hc | rfl | hc
  · exact .inl (isDigit_padded hc)
  · exact .inr rfl
  · exact .inl (isDigit_padded hc)
  · exact .inr rfl
  · exact .inl (isDigit_padded hc)

/-- What stands before the first dash, and what after it. -/
theorem split_dash {front front' back back' : List Char} (hfront : '-' ∉ front)
    (hfront' : '-' ∉ front') (h : front ++ '-' :: back = front' ++ '-' :: back') :
    front = front' ∧ back = back' := by
  induction front generalizing front' with
  | nil =>
    cases front' with
    | nil =>
      cases h
      exact ⟨rfl, rfl⟩
    | cons c rest =>
      cases h
      exact absurd (List.mem_cons_self ..) hfront'
  | cons c rest ih =>
    cases front' with
    | nil =>
      cases h
      exact absurd (List.mem_cons_self ..) hfront
    | cons c' rest' =>
      rw [List.mem_cons, not_or] at hfront hfront'
      obtain ⟨rfl, htail⟩ := List.cons.inj h
      obtain ⟨rfl, rfl⟩ := ih hfront.2 hfront'.2 htail
      exact ⟨rfl, rfl⟩

/-- **A date can be told from its text.** -/
theorem Date.iso_injective : Function.Injective Date.iso := by
  intro a b h
  have hchars := congrArg String.toList h
  simp only [Date.iso, String.toList_ofList] at hchars
  obtain ⟨hyear, hrest⟩ := split_dash (dash_not_mem_padded 4 _) (dash_not_mem_padded 4 _) hchars
  obtain ⟨hmonth, hday⟩ := split_dash (dash_not_mem_padded 2 _) (dash_not_mem_padded 2 _) hrest
  cases a
  cases b
  simp only [Date.mk.injEq]
  exact ⟨padded_injective 4 hyear, padded_injective 2 hmonth, padded_injective 2 hday⟩

theorem Date.iso_ne_empty (d : Date) : d.iso ≠ "" := by
  intro h
  have hchars := congrArg String.toList h
  simp [Date.iso] at hchars

example : (Date.mk 2026 8 7).iso = "2026-08-07" := by decide

end Tqt
