import Tqt.Foundation.Dict

/-! Lookups that are kept.

A table asks its source for a key it does not hold, keeps an answer and keeps no failure, until it
is cleared. So what it holds of a key is the first answer since it was last cleared
(`get?_foldl_step`), whatever the source says later; and between two clearings the source answers
for a key at most once (`answers_le_one`). -/
namespace Tqt.Memo
variable {κ ν : Type*} [DecidableEq κ]

/-- A key that is asked for, with what the source would answer now; or a clearing. -/
inductive Call (κ ν : Type*) where
  | ask (k : κ) (answer : Option ν)
  | clear

def step (table : Dict κ ν) : Call κ ν → Dict κ ν
  | .ask k answer =>
    match table.get? k, answer with
    | none, some v => table.insert k v
    | _, _ => table
  | .clear => ∅

/-- What a caller gets for a key. -/
def reply (table : Dict κ ν) (k : κ) (answer : Option ν) : Option ν := (table.get? k).or answer

/-- What the calls say of a key, the first answer counting. -/
def told (k : κ) (known : Option ν) : Call κ ν → Option ν
  | .ask k' answer => if k' = k then known.or answer else known
  | .clear => none

theorem get?_step (table : Dict κ ν) (c : Call κ ν) (k : κ) :
    (step table c).get? k = told k (table.get? k) c := by
  cases c with
  | clear => rfl
  | ask k' answer =>
    simp only [step, told]
    by_cases hk : k' = k
    · subst hk
      rw [if_pos rfl]
      cases hget : table.get? k' with
      | some w => simp [hget]
      | none =>
        cases answer with
        | none => simp [hget]
        | some v => simp
    · rw [if_neg hk]
      split
      · exact Dict.get?_insert_of_ne _ _ (Ne.symm hk)
      · rfl

/-- **What is held is what was said first.** -/
theorem get?_foldl_step (calls : List (Call κ ν)) (table : Dict κ ν) (k : κ) :
    (calls.foldl step table).get? k = calls.foldl (told k) (table.get? k) := by
  induction calls generalizing table with
  | nil => rfl
  | cons c rest ih => rw [List.foldl_cons, List.foldl_cons, ih, get?_step]

/-- Having asked, the table holds the reply. -/
theorem get?_ask (table : Dict κ ν) (k : κ) (answer : Option ν) :
    (step table (.ask k answer)).get? k = reply table k answer := by
  rw [get?_step, told, if_pos rfl, reply]

/-- What is held stays, as long as nothing is cleared. -/
theorem get?_kept {calls : List (Call κ ν)} (hcalls : .clear ∉ calls) {table : Dict κ ν} {k : κ} {v : ν}
    (h : table.get? k = some v) : (calls.foldl step table).get? k = some v := by
  rw [get?_foldl_step, h]
  induction calls with
  | nil => rfl
  | cons c rest ih =>
    obtain ⟨hc, hrest⟩ := not_or.mp (mt List.mem_cons.mpr hcalls)
    have hkeep : told k (some v) c = some v := by
      cases c with
      | clear => exact absurd rfl hc
      | ask k' answer =>
        simp only [told]
        split <;> rfl
    rw [List.foldl_cons, hkeep]
    exact ih hrest

/-- Whether a call makes the source answer for a key. -/
def Answered (k : κ) (table : Dict κ ν) : Call κ ν → Prop
  | .ask k' answer => k' = k ∧ table.get? k = none ∧ answer.isSome = true
  | .clear => False

instance (k : κ) (table : Dict κ ν) : DecidablePred (Answered k table)
  | .ask .. => inferInstanceAs (Decidable (_ ∧ _ ∧ _))
  | .clear => inferInstanceAs (Decidable False)

/-- How often it does. -/
def answers (k : κ) : Dict κ ν → List (Call κ ν) → ℕ
  | _, [] => 0
  | table, c :: rest => (if Answered k table c then 1 else 0) + answers k (step table c) rest

/-- Once it is held, the source is not asked. -/
theorem answers_eq_zero {calls : List (Call κ ν)} (hcalls : .clear ∉ calls) {table : Dict κ ν} {k : κ}
    {v : ν} (h : table.get? k = some v) : answers k table calls = 0 := by
  induction calls generalizing table with
  | nil => rfl
  | cons c rest ih =>
    obtain ⟨hc, hrest⟩ := not_or.mp (mt List.mem_cons.mpr hcalls)
    have hheld : (step table c).get? k = some v := get?_kept (List.mem_singleton.not.mpr hc) h
    have hquiet : ¬ Answered k table c := by
      cases c with
      | clear => exact id
      | ask k' answer => exact fun hans => absurd (h.symm.trans hans.2.1) (Option.some_ne_none v)
    rw [answers, if_neg hquiet, ih hrest hheld]

/-- **The source answers for a key at most once** between two clearings. -/
theorem answers_le_one {calls : List (Call κ ν)} (hcalls : .clear ∉ calls) (table : Dict κ ν) (k : κ) :
    answers k table calls ≤ 1 := by
  induction calls generalizing table with
  | nil => exact Nat.zero_le 1
  | cons c rest ih =>
    obtain ⟨-, hrest⟩ := not_or.mp (mt List.mem_cons.mpr hcalls)
    by_cases hans : Answered k table c
    · cases c with
      | clear => exact hans.elim
      | ask k' answer =>
        obtain ⟨rfl, hnone, hsome⟩ := hans
        obtain ⟨v, rfl⟩ := Option.isSome_iff_exists.mp hsome
        have hheld : (step table (.ask k' (some v))).get? k' = some v := by
          rw [get?_ask, reply, hnone]
          rfl
        rw [answers, answers_eq_zero hrest hheld]
        split <;> omega
    · rw [answers, if_neg hans, Nat.zero_add]
      exact ih hrest _

end Tqt.Memo
