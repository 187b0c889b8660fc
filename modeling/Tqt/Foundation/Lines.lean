import Mathlib.Data.List.Basic

/-! The lines of a text, each with its end, as Python's `str.splitlines(keepends=True)` cuts
them.

Nothing is lost (`flatten_lines`), no line is empty (`ne_nil_of_mem_lines`), and a text that
has no line end in it is one line (`lines_eq_singleton`). -/
namespace Tqt

/-- The characters that end a line: the line feed and carriage return, vertical tab, form feed,
the three separators from U+001C, next line, and the line and paragraph separators. -/
def isLineEnd (c : Char) : Bool :=
  c.toNat ∈ [0x0a, 0x0b, 0x0c, 0x0d, 0x1c, 0x1d, 0x1e, 0x85, 0x2028, 0x2029]

/-- A carriage return and the line feed behind it are one end. -/
def lines : List Char → List (List Char)
  | [] => []
  | '\r' :: '\n' :: rest => ['\r', '\n'] :: lines rest
  | c :: rest =>
    if isLineEnd c then [c] :: lines rest
    else
      match lines rest with
      | [] => [[c]]
      | line :: more => (c :: line) :: more

/-- `str.splitlines(keepends=True)` -/
def splitlines (text : String) : List String := (lines text.toList).map String.ofList

theorem flatten_lines (text : List Char) : (lines text).flatten = text := by
  fun_induction lines text with
  | case1 => rfl
  | case2 rest ih => simp [ih]
  | case3 c rest _ _ ih => simp [ih]
  | case4 c rest _ _ hnil ih =>
    rw [hnil] at ih
    simp [← ih]
  | case5 c rest _ _ line more hcons ih =>
    rw [hcons] at ih
    simp [← ih]

theorem ne_nil_of_mem_lines {text line : List Char} (h : line ∈ lines text) : line ≠ [] := by
  fun_induction lines text with
  | case1 => simp at h
  | case2 rest ih =>
    rcases List.mem_cons.mp h with rfl | h
    · simp
    · exact ih h
  | case3 c rest _ _ ih =>
    rcases List.mem_cons.mp h with rfl | h
    · simp
    · exact ih h
  | case4 c rest _ _ hnil ih =>
    rw [List.mem_singleton.mp h]
    simp
  | case5 c rest _ _ first more hcons ih =>
    rcases List.mem_cons.mp h with rfl | h
    · simp
    · exact ih (by rw [hcons]; exact List.mem_cons_of_mem first h)

theorem lines_eq_singleton {text : List Char} (hne : text ≠ [])
    (h : ∀ c ∈ text, isLineEnd c = false) : lines text = [text] := by
  fun_induction lines text with
  | case1 => exact absurd rfl hne
  | case2 rest ih => exact absurd (h '\r' (List.mem_cons_self ..)) (by decide)
  | case3 c rest _ hend ih => rw [h c (List.mem_cons_self ..)] at hend; cases hend
  | case4 c rest _ _ hnil ih =>
    have hrest : rest = [] := by rw [← flatten_lines rest, hnil]; rfl
    rw [hrest]
  | case5 c rest _ _ line more hcons ih =>
    have hrest : rest ≠ [] := by
      rintro rfl
      cases hcons
    rw [ih hrest fun d hd => h d (List.mem_cons_of_mem c hd)] at hcons
    obtain ⟨rfl, rfl⟩ := List.cons.inj hcons
    rfl

/-! ### On strings -/

theorem join_splitlines (text : String) : String.join (splitlines text) = text := by
  apply String.toList_injective
  rw [String.toList_join, splitlines, List.flatMap_map]
  simp only [String.toList_ofList, List.flatMap_id']
  exact flatten_lines text.toList

theorem length_pos_of_mem_splitlines {text line : String} (h : line ∈ splitlines text) :
    1 ≤ line.length := by
  obtain ⟨chars, hm, rfl⟩ := List.mem_map.mp h
  rw [String.length_ofList]
  exact List.length_pos_of_ne_nil (ne_nil_of_mem_lines hm)

theorem length_le_of_mem_splitlines {text line : String} (h : line ∈ splitlines text) :
    line.length ≤ text.length := by
  obtain ⟨chars, hm, rfl⟩ := List.mem_map.mp h
  have hsub := List.sublist_flatten_of_mem hm
  rw [flatten_lines] at hsub
  rw [String.length_ofList, ← String.length_toList]
  exact hsub.length_le

theorem splitlines_eq_singleton {text : String} (hne : text ≠ "")
    (h : ∀ c ∈ text.toList, isLineEnd c = false) : splitlines text = [text] := by
  have hnil : text.toList ≠ [] := by simpa using hne
  rw [splitlines, lines_eq_singleton hnil h, List.map_singleton, String.ofList_toList]

example : lines "a\r\n\nb".toList = ["a\r\n".toList, "\n".toList, "b".toList] := by decide

end Tqt
