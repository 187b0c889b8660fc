import Tqt.Foundation.Lines
import Tqt.Notify.Base

/-! Long messages, cut at their line ends.

Telegram and Discord take a message of a limited length, so `send` posts a long text in
chunks. The chunks are always the text (`join_chunksOf`); they are within the limit exactly
when every line is (`chunksOf_within_iff`), since a line is never cut. A line that does not
fit is posted whole, and when it is the first one an empty message goes before it, which
Telegram's loop takes for the end (`TelegramNotifier.send_loses_alert`). -/
namespace Tqt

def Level.emoji : Level → String
  | info => "ℹ️"
  | trade => "💱"
  | warn => "⚠️"
  | error => "🚨"

/-- The loop over the lines: the chunks that are complete, and the one being filled. -/
def chunksFrom (size : ℕ) (out : List String) (cur : String) : List String → List String
  | [] => if cur ≠ "" then out ++ [cur] else out
  | line :: rest =>
    if cur.length + line.length > size then chunksFrom size (out ++ [cur]) line rest
    else chunksFrom size out (cur ++ line) rest

/-- `_chunks`, which both channels have. -/
def chunksOf (text : String) (size : ℕ) : List String :=
  if text.length ≤ size then [text] else chunksFrom size [] "" (splitlines text)

/-- A message that a limit of `size` characters lets through. -/
def WithinLimit (size : ℕ) (message : String) : Prop := 1 ≤ message.length ∧ message.length ≤ size

instance (size : ℕ) (message : String) : Decidable (WithinLimit size message) :=
  inferInstanceAs (Decidable (1 ≤ message.length ∧ message.length ≤ size))

/-- What is complete stays as it is. -/
theorem chunksFrom_eq_append (size : ℕ) (out : List String) (cur : String) (rest : List String) :
    chunksFrom size out cur rest = out ++ chunksFrom size [] cur rest := by
  induction rest generalizing out cur with
  | nil =>
    unfold chunksFrom
    split <;> simp
  | cons line rest ih =>
    simp only [chunksFrom]
    split
    · rw [ih, ih ([] ++ [cur]), List.append_assoc, List.nil_append]
    · exact ih out _

/-! ### Nothing is lost -/

theorem join_chunksFrom (size : ℕ) (out : List String) (cur : String) (rest : List String) :
    String.join (chunksFrom size out cur rest) = String.join out ++ cur ++ String.join rest := by
  induction rest generalizing out cur with
  | nil =>
    unfold chunksFrom
    split
    · simp
    · next h => simp [not_not.mp h]
  | cons line rest ih =>
    unfold chunksFrom
    split <;> rw [ih] <;> simp [String.append_assoc]

theorem join_chunksOf (text : String) (size : ℕ) : String.join (chunksOf text size) = text := by
  unfold chunksOf
  split
  · simp
  · rw [join_chunksFrom, join_splitlines]
    simp

/-! ### The limit -/

section
variable {size : ℕ} {out : List String} {cur : String} {rest : List String}

theorem mem_chunksFrom_of_mem {chunk : String} (h : chunk ∈ out) :
    chunk ∈ chunksFrom size out cur rest := by
  rw [chunksFrom_eq_append]
  exact List.mem_append_left _ h

/-- Lines that fit are packed into chunks that do: a chunk is closed only by a line it has no
room for, so it is not empty. -/
theorem withinLimit_chunksFrom (hout : ∀ chunk ∈ out, WithinLimit size chunk)
    (hcur : cur.length ≤ size) (hrest : ∀ line ∈ rest, line.length ≤ size) :
    ∀ chunk ∈ chunksFrom size out cur rest, WithinLimit size chunk := by
  induction rest generalizing out cur with
  | nil =>
    unfold chunksFrom
    split
    · next hne =>
      intro chunk h
      rcases List.mem_append.mp h with h | h
      · exact hout chunk h
      · rw [List.mem_singleton.mp h]
        exact ⟨Nat.pos_of_ne_zero (by simpa using hne), hcur⟩
    · exact hout
  | cons line rest ih =>
    have hline := hrest line (List.mem_cons_self ..)
    have hmore := fun l hl => hrest l (List.mem_cons_of_mem line hl)
    unfold chunksFrom
    split
    · next hfull =>
      refine ih ?_ hline hmore
      intro chunk h
      rcases List.mem_append.mp h with h | h
      · exact hout chunk h
      · rw [List.mem_singleton.mp h]
        exact ⟨by omega, hcur⟩
    · exact ih hout (by rw [String.length_append]; omega) hmore

/-- A line is never cut: some chunk is at least as long. -/
theorem exists_chunk_length_le (size : ℕ) (out : List String) {s : String} (hs : s ∈ cur :: rest)
    (hne : s ≠ "") : ∃ chunk ∈ chunksFrom size out cur rest, s.length ≤ chunk.length := by
  induction rest generalizing out cur s with
  | nil =>
    obtain rfl := List.mem_singleton.mp hs
    refine ⟨s, ?_, Nat.le_refl _⟩
    rw [chunksFrom, if_pos hne]
    exact List.mem_append_right out (List.mem_singleton_self s)
  | cons line rest ih =>
    unfold chunksFrom
    split
    · rcases List.mem_cons.mp hs with rfl | hs
      · exact ⟨s, mem_chunksFrom_of_mem (List.mem_append_right out (List.mem_singleton_self s)),
          Nat.le_refl _⟩
      · exact ih _ hs hne
    · -- What was in the chunk and the line that joins it are no longer than the two together.
      have hjoined : ∀ t ∈ [cur, line], t ≠ "" → t.length ≤ (cur ++ line).length ∧ cur ++ line ≠ "" := by
        intro t ht htne
        have hpos : 1 ≤ t.length := Nat.pos_of_ne_zero (by simpa using htne)
        have hle : t.length ≤ (cur ++ line).length := by
          rw [String.length_append]
          simp only [List.mem_cons, List.not_mem_nil, or_false] at ht
          rcases ht with rfl | rfl <;> omega
        refine ⟨hle, fun he => ?_⟩
        rw [he, String.length_empty] at hle
        omega
      by_cases hsplit : s ∈ [cur, line]
      · obtain ⟨hle, hne'⟩ := hjoined s hsplit hne
        obtain ⟨chunk, hm, hlen⟩ := ih out (List.mem_cons_self ..) hne'
        exact ⟨chunk, hm, Nat.le_trans hle hlen⟩
      · have hrest : s ∈ rest := by
          simp only [List.mem_cons, List.not_mem_nil, or_false, not_or] at hs hsplit
          tauto
        exact ih out (List.mem_cons_of_mem _ hrest) hne

end

theorem chunksOf_within_iff (text : String) (size : ℕ) :
    (text ≠ "" → ∀ chunk ∈ chunksOf text size, WithinLimit size chunk) ↔
      ∀ line ∈ splitlines text, line.length ≤ size := by
  by_cases hshort : text.length ≤ size
  · rw [chunksOf, if_pos hshort]
    constructor
    · intro _ line h
      exact Nat.le_trans (length_le_of_mem_splitlines h) hshort
    · intro _ hne chunk h
      rw [List.mem_singleton.mp h]
      exact ⟨Nat.pos_of_ne_zero (by simpa using hne), hshort⟩
  · have hne : text ≠ "" := by
      rintro rfl
      exact hshort (Nat.zero_le size)
    rw [chunksOf, if_neg hshort]
    constructor
    · intro h line hl
      have hpos := length_pos_of_mem_splitlines hl
      obtain ⟨chunk, hm, hle⟩ := exists_chunk_length_le size []
        (List.mem_cons_of_mem "" hl) (by rintro rfl; simp at hpos)
      exact Nat.le_trans hle (h hne chunk hm).2
    · intro h _
      exact withinLimit_chunksFrom (by simp) (Nat.zero_le size) h

/-- A first line that does not fit is posted whole, behind an empty message. -/
theorem chunksOf_of_long_first {text line : String} {rest : List String} {size : ℕ}
    (hlines : splitlines text = line :: rest) (hlong : size < line.length) :
    ∃ more, chunksOf text size = "" :: more := by
  have hle := length_le_of_mem_splitlines (hlines ▸ List.mem_cons_self ..)
  rw [chunksOf, if_neg (by omega), hlines, chunksFrom, if_pos (by simpa using hlong),
    chunksFrom_eq_append]
  exact ⟨_, rfl⟩

/-- What cutting a text is for: nothing is lost, and every piece of a text is a message. -/
def Splits (text : String) (size : ℕ) (chunks : List String) : Prop :=
  String.join chunks = text ∧ (text ≠ "" → ∀ chunk ∈ chunks, WithinLimit size chunk)

theorem splits_chunksOf_iff (text : String) (size : ℕ) :
    Splits text size (chunksOf text size) ↔ ∀ line ∈ splitlines text, line.length ≤ size := by
  unfold Splits
  rw [and_iff_right (join_chunksOf text size)]
  exact chunksOf_within_iff text size

/-! ### The channels

Posting a message answers a status or raises. -/

abbrev Post := String → Except String ℕ

/-- `html.escape` -/
def htmlEscape (text : String) : String :=
  String.join <| text.toList.map fun
    | '&' => "&amp;"
    | '<' => "&lt;"
    | '>' => "&gt;"
    | '"' => "&quot;"
    | '\'' => "&#x27;"
    | c => String.singleton c

namespace TelegramNotifier

/-- Telegram's own limit is 4096. -/
def maxMessage : ℕ := 4000

def chunks (text : String) (size : ℕ) : List String := chunksOf text size

def body (text : String) (level : Level) : String := level.emoji ++ " " ++ htmlEscape text

/-- The loop of `send`: it returns at the first message that is refused. -/
def postChunks (post : Post) : List String → List String × SendOutcome
  | [] => ([], .returned true)
  | chunk :: rest =>
    match post chunk with
    | .error exc => ([chunk], .raised exc)
    | .ok status =>
      if status ≠ 200 then ([chunk], .returned false)
      else
        let (posted, outcome) := postChunks post rest
        (chunk :: posted, outcome)

/-- What is posted, and what `send` comes to. -/
def send (post : Post) (text : String) (level : Level) : List String × SendOutcome :=
  postChunks post (chunks (body text level) maxMessage)

theorem postChunks_of_accepted {post : Post} {cs : List String} (h : ∀ c ∈ cs, post c = .ok 200) :
    postChunks post cs = (cs, .returned true) := by
  induction cs with
  | nil => rfl
  | cons c rest ih =>
    rw [postChunks, h c (List.mem_cons_self ..)]
    simp [ih fun d hd => h d (List.mem_cons_of_mem c hd)]

end TelegramNotifier

namespace DiscordNotifier

/-- Discord's own limit is 2000. -/
def maxContent : ℕ := 1900

def chunks (text : String) (size : ℕ) : List String := chunksOf text size

def body (text : String) (level : Level) : String := level.emoji ++ " " ++ text

/-- The loop of `send`: it goes on behind a message that is refused. -/
def postChunks (post : Post) (ok : Bool) : List String → List String × SendOutcome
  | [] => ([], .returned ok)
  | chunk :: rest =>
    match post chunk with
    | .error exc => ([chunk], .raised exc)
    | .ok status =>
      let (posted, outcome) := postChunks post (ok && (status = 200 || status = 204)) rest
      (chunk :: posted, outcome)

def send (post : Post) (text : String) (level : Level) : List String × SendOutcome :=
  postChunks post true (chunks (body text level) maxContent)

theorem postChunks_of_accepted {post : Post} {cs : List String} (h : ∀ c ∈ cs, post c = .ok 204) :
    postChunks post true cs = (cs, .returned true) := by
  induction cs with
  | nil => rfl
  | cons c rest ih =>
    rw [postChunks, h c (List.mem_cons_self ..)]
    simp [ih fun d hd => h d (List.mem_cons_of_mem c hd)]

end DiscordNotifier

theorem Level.emoji_ne (level : Level) (rest : String) : level.emoji ++ " " ++ rest ≠ "" := by
  intro h
  have hlength := congrArg String.length h
  rw [String.length_append, String.length_append, String.length_empty] at hlength
  have : " ".length = 1 := rfl
  omega

/-- **Both channels cut a text into messages** that are it and are within the limit exactly
when none of its lines, each with its end, is longer than the limit. -/
theorem channels_split_iff (text : String) (size : ℕ) :
    (Splits text size (TelegramNotifier.chunks text size) ∧
      Splits text size (DiscordNotifier.chunks text size)) ↔
    ∀ line ∈ splitlines text, line.length ≤ size := by
  have h := splits_chunksOf_iff text size
  exact ⟨fun hboth => h.mp hboth.1, fun hlines => ⟨h.mpr hlines, h.mpr hlines⟩⟩

/-- One line. -/
def lineOf (n : ℕ) : String := String.ofList (List.replicate n 'x')

theorem length_lineOf (n : ℕ) : (lineOf n).length = n := by
  rw [lineOf, String.length_ofList, List.length_replicate]

theorem lineOf_ne {n : ℕ} (h : 0 < n) : lineOf n ≠ "" := by
  intro he
  have hlength := length_lineOf n
  rw [he, String.length_empty] at hlength
  omega

theorem splitlines_lineOf {n : ℕ} (h : 0 < n) : splitlines (lineOf n) = [lineOf n] := by
  apply splitlines_eq_singleton (lineOf_ne h)
  intro c hc
  rw [lineOf, String.toList_ofList] at hc
  rw [List.eq_of_mem_replicate hc]
  rfl

/-- A line of 4001 characters goes out behind an empty message. -/
theorem longLine_not_split :
    ¬ (1 ≤ TelegramNotifier.maxMessage →
      Splits (lineOf 4001) TelegramNotifier.maxMessage
          (TelegramNotifier.chunks (lineOf 4001) TelegramNotifier.maxMessage) ∧
        Splits (lineOf 4001) TelegramNotifier.maxMessage
          (DiscordNotifier.chunks (lineOf 4001) TelegramNotifier.maxMessage)) := by
  intro h
  have hlong : TelegramNotifier.maxMessage < (lineOf 4001).length := by
    rw [length_lineOf, TelegramNotifier.maxMessage]
    omega
  obtain ⟨more, hempty⟩ := chunksOf_of_long_first (splitlines_lineOf (by omega)) hlong
  have hfirst : "" ∈ TelegramNotifier.chunks (lineOf 4001) TelegramNotifier.maxMessage := by
    rw [TelegramNotifier.chunks, hempty]
    exact List.mem_cons_self ..
  have hpos := ((h (by decide)).1.2 (lineOf_ne (by omega)) "" hfirst).1
  rw [String.length_empty] at hpos
  omega

/-! ### What is delivered -/

section
variable {post : Post} {text : String} {level : Level}

/-- A text whose lines fit is delivered whole. -/
theorem TelegramNotifier.send_delivers
    (hpost : ∀ message, WithinLimit maxMessage message → post message = .ok 200)
    (hlines : ∀ line ∈ splitlines (body text level), line.length ≤ maxMessage) :
    ∃ posted, send post text level = (posted, .returned true) ∧
      String.join posted = body text level := by
  obtain ⟨hjoin, hwithin⟩ := (splits_chunksOf_iff _ _).mpr hlines
  refine ⟨_, postChunks_of_accepted fun c hc => hpost c ?_, hjoin⟩
  exact hwithin (Level.emoji_ne level _) c hc

theorem DiscordNotifier.send_delivers
    (hpost : ∀ message, WithinLimit maxContent message → post message = .ok 204)
    (hlines : ∀ line ∈ splitlines (body text level), line.length ≤ maxContent) :
    ∃ posted, send post text level = (posted, .returned true) ∧
      String.join posted = body text level := by
  obtain ⟨hjoin, hwithin⟩ := (splits_chunksOf_iff _ _).mpr hlines
  refine ⟨_, postChunks_of_accepted fun c hc => hpost c ?_, hjoin⟩
  exact hwithin (Level.emoji_ne level _) c hc

/-- **An alert is lost**: when its first line does not fit, Telegram is handed the empty
message, refuses it, and is handed nothing else. -/
theorem TelegramNotifier.send_loses_alert {line : String} {rest : List String} {status : ℕ}
    (hpost : post "" = .ok status) (hrefused : status ≠ 200)
    (hlines : splitlines (body text level) = line :: rest) (hlong : maxMessage < line.length) :
    send post text level = ([""], .returned false) := by
  obtain ⟨more, hempty⟩ := chunksOf_of_long_first hlines hlong
  rw [send, chunks, hempty, postChunks, hpost]
  simp [hrefused]

end
end Tqt
