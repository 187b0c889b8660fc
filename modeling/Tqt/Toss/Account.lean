import Tqt.Toss.Errors
import Mathlib.Data.List.Nodup
import Mathlib.Data.List.Perm.Basic

/-! The account that a client trades in.

`resolve_account_seq` takes the first account whose digits end in the configured number, or
which that number ends in; an account without digits is among these. So the account with the
number itself is chosen exactly when none of the others stands before it
(`resolvesRight_iff`): `Foreign` accounts are those that would be taken for it. -/
namespace Tqt

structure Account where
  accountNo : String
  accountSeq : ℤ
  accountType : String
deriving DecidableEq, Repr

/-- `str.endswith` -/
def endswith (s suffix : String) : Bool := suffix.toList.isSuffixOf s.toList

theorem endswith_self (s : String) : endswith s s = true :=
  List.isSuffixOf_iff_suffix.mpr List.suffix_rfl

/-- `_normalize_account` -/
def normalizeAccount (v : String) : String := String.ofList (v.toList.filter Char.isDigit)

section
variable (isdigit : Char → Bool)

/-- The digits of an account number; `isdigit` is `str.isdigit`. -/
def Account.digits (a : Account) : String := String.ofList (a.accountNo.toList.filter isdigit)

/-- A number that is configured as the API writes it, or with other marks between the digits, is
the account's. -/
theorem digits_eq_normalizeAccount {a : Account} {v : String}
    (hascii : ∀ c ∈ a.accountNo.toList, isdigit c = c.isDigit)
    (hsame : v.toList.filter Char.isDigit = a.accountNo.toList.filter Char.isDigit) :
    a.digits isdigit = normalizeAccount v := by
  rw [Account.digits, normalizeAccount, hsame, List.filter_congr hascii]

namespace TossClient
variable (wanted : String)

/-- One's digits end in the other's. -/
def comparable (a : Account) : Bool :=
  endswith (a.digits isdigit) wanted || endswith wanted (a.digits isdigit)

def noAccount : TossError where
  kind := .base
  message := "No brokerage (종합매매) account found on this Toss login. " ++
    "Open one in the Toss app before trading."

/-- The sequence of the account that trades; `wanted` is the configured number. -/
def resolveAccountSeq (accounts : List Account) : Except TossError ℤ :=
  match accounts with
  | [] => .error noAccount
  | first :: _ =>
    if wanted ≠ "" then
      match accounts.find? (comparable isdigit wanted) with
      | some acc => .ok acc.accountSeq
      | none => .ok first.accountSeq
    else .ok first.accountSeq

/-- `account_seq`: what is configured or known already needs no lookup. -/
def accountSeq (known : Option ℤ) (accounts : List Account) : Except TossError ℤ :=
  match known with
  | some seq => .ok seq
  | none => resolveAccountSeq isdigit wanted accounts

/-- The account has the configured number. -/
def Exact (a : Account) : Prop := a.digits isdigit = wanted

instance (a : Account) : Decidable (Exact isdigit wanted a) :=
  inferInstanceAs (Decidable (a.digits isdigit = wanted))

/-- The right account is chosen, and in every order of the list the same one. -/
structure ResolvesRight (accounts : List Account) : Prop where
  chosen : (∃ a ∈ accounts, Exact isdigit wanted a) →
    ∃ a ∈ accounts, Exact isdigit wanted a ∧
      resolveAccountSeq isdigit wanted accounts = .ok a.accountSeq
  unordered : (accounts.map (Account.digits isdigit)).Nodup →
    (∃ a ∈ accounts, Exact isdigit wanted a) →
    ∀ reordered : List Account, reordered.Perm accounts →
      resolveAccountSeq isdigit wanted reordered = resolveAccountSeq isdigit wanted accounts

/-- An account that can be compared with the number, but has no sequence of an account that has
the number. -/
def Foreign (accounts : List Account) (a : Account) : Prop :=
  comparable isdigit wanted a = true ∧
    ∀ b ∈ accounts, Exact isdigit wanted b → b.accountSeq ≠ a.accountSeq

/-- Foreign accounts stand behind others, and with distinct numbers there are none. -/
structure KeepsApart (accounts : List Account) : Prop where
  behind : ∀ front a back, accounts = front ++ a :: back → Foreign isdigit wanted accounts a →
    ∃ b ∈ front, comparable isdigit wanted b = true ∧ ¬ Foreign isdigit wanted accounts b
  none : (accounts.map (Account.digits isdigit)).Nodup →
    ∀ a ∈ accounts, ¬ Foreign isdigit wanted accounts a

end TossClient
end

namespace TossClient
variable {isdigit : Char → Bool} {wanted : String} {accounts : List Account} {a : Account}

theorem Exact.comparable (h : Exact isdigit wanted a) :
    TossClient.comparable isdigit wanted a = true := by
  unfold TossClient.comparable
  rw [show a.digits isdigit = wanted from h, endswith_self, Bool.or_self]

/-- With a number, the first comparable account is chosen. -/
theorem resolveAccountSeq_of_find? (hwanted : wanted ≠ "")
    (h : accounts.find? (comparable isdigit wanted) = some a) :
    resolveAccountSeq isdigit wanted accounts = .ok a.accountSeq := by
  cases accounts with
  | nil => cases h
  | cons first rest => simp only [resolveAccountSeq, if_pos hwanted, h]

/-- When some account has the number, the chosen one can be compared with it. -/
theorem exists_find? (hexact : ∃ a ∈ accounts, Exact isdigit wanted a) :
    ∃ c ∈ accounts, comparable isdigit wanted c = true ∧
      accounts.find? (comparable isdigit wanted) = some c := by
  obtain ⟨a, ha, he⟩ := hexact
  cases hfind : accounts.find? (comparable isdigit wanted) with
  | none => exact absurd he.comparable (List.find?_eq_none.mp hfind a ha)
  | some c => exact ⟨c, List.mem_of_find?_eq_some hfind, List.find?_some hfind, rfl⟩

/-- An account that is not foreign has the sequence of one with the number. -/
theorem exists_exact_of_not_foreign (hc : comparable isdigit wanted a = true)
    (h : ¬ Foreign isdigit wanted accounts a) :
    ∃ b ∈ accounts, Exact isdigit wanted b ∧ b.accountSeq = a.accountSeq := by
  by_contra hnone
  exact h ⟨hc, fun b hb he hseq => hnone ⟨b, hb, he, hseq⟩⟩

theorem KeepsApart.chosen (h : KeepsApart isdigit wanted accounts) (hwanted : wanted ≠ "")
    (hexact : ∃ a ∈ accounts, Exact isdigit wanted a) :
    ∃ b ∈ accounts, Exact isdigit wanted b ∧
      resolveAccountSeq isdigit wanted accounts = .ok b.accountSeq := by
  obtain ⟨c, -, hc, hfind⟩ := exists_find? hexact
  have hnot : ¬ Foreign isdigit wanted accounts c := by
    intro hforeign
    obtain ⟨-, front, back, hsplit, hbefore⟩ := List.find?_eq_some_iff_append.mp hfind
    obtain ⟨b, hb, hcomparable, -⟩ := h.behind front c back hsplit hforeign
    simpa [hcomparable] using hbefore b hb
  obtain ⟨b, hb, he, hseq⟩ := exists_exact_of_not_foreign hc hnot
  exact ⟨b, hb, he, by rw [resolveAccountSeq_of_find? hwanted hfind, hseq]⟩

/-- With distinct numbers every order has the one account with the number, and nothing that is
taken for it. -/
theorem KeepsApart.perm (h : KeepsApart isdigit wanted accounts)
    (hnodup : (accounts.map (Account.digits isdigit)).Nodup) {reordered : List Account}
    (hperm : reordered.Perm accounts) : KeepsApart isdigit wanted reordered := by
  have hnone : ∀ a ∈ reordered, ¬ Foreign isdigit wanted reordered a := by
    rintro a ha ⟨hc, hforeign⟩
    exact h.none hnodup a (hperm.mem_iff.mp ha)
      ⟨hc, fun b hb => hforeign b (hperm.mem_iff.mpr hb)⟩
  constructor
  · intro front a back hsplit hforeign
    exact absurd hforeign (hnone a (by rw [hsplit]; simp))
  · intro _
    exact hnone

theorem KeepsApart.unordered (h : KeepsApart isdigit wanted accounts) (hwanted : wanted ≠ "")
    (hnodup : (accounts.map (Account.digits isdigit)).Nodup)
    (hexact : ∃ a ∈ accounts, Exact isdigit wanted a) {reordered : List Account}
    (hperm : reordered.Perm accounts) :
    resolveAccountSeq isdigit wanted reordered = resolveAccountSeq isdigit wanted accounts := by
  obtain ⟨b, hb, he, hchosen⟩ := h.chosen hwanted hexact
  obtain ⟨a, ha, hea⟩ := hexact
  obtain ⟨b', hb', he', hchosen'⟩ :=
    (h.perm hnodup hperm).chosen hwanted ⟨a, hperm.mem_iff.mpr ha, hea⟩
  have hsame : b' = b :=
    List.inj_on_of_nodup_map hnodup (hperm.mem_iff.mp hb') hb (Eq.trans he' (Eq.symm he))
  rw [hchosen, hchosen', hsame]

theorem ResolvesRight.behind (h : ResolvesRight isdigit wanted accounts) (hwanted : wanted ≠ "")
    (hexact : ∃ a ∈ accounts, Exact isdigit wanted a) {front back : List Account}
    (hsplit : accounts = front ++ a :: back) (hforeign : Foreign isdigit wanted accounts a) :
    ∃ b ∈ front, comparable isdigit wanted b = true ∧ ¬ Foreign isdigit wanted accounts b := by
  obtain ⟨e, he, hee, hchosen⟩ := h.chosen hexact
  obtain ⟨c, -, hc, hfind⟩ := exists_find? hexact
  rw [resolveAccountSeq_of_find? hwanted hfind] at hchosen
  have hseq : c.accountSeq = e.accountSeq := Except.ok.inj hchosen
  have hown : ¬ Foreign isdigit wanted accounts c := fun hf => hf.2 e he hee hseq.symm
  -- The chosen one is the first that is comparable, and `a` is not the chosen one.
  rw [hsplit, List.find?_append] at hfind
  cases hfront : front.find? (comparable isdigit wanted) with
  | none =>
    rw [hfront, Option.none_or, List.find?_cons, hforeign.1] at hfind
    cases hfind
    exact absurd hforeign hown
  | some b =>
    rw [hfront, Option.some_or] at hfind
    cases hfind
    exact ⟨c, List.mem_of_find?_eq_some hfront, hc, hown⟩

theorem ResolvesRight.not_foreign (h : ResolvesRight isdigit wanted accounts) (hwanted : wanted ≠ "")
    (hexact : ∃ a ∈ accounts, Exact isdigit wanted a)
    (hnodup : (accounts.map (Account.digits isdigit)).Nodup) (ha : a ∈ accounts) :
    ¬ Foreign isdigit wanted accounts a := by
  intro hforeign
  obtain ⟨e, he, hee, hchosen⟩ := h.chosen hexact
  have hfirst : resolveAccountSeq isdigit wanted (a :: accounts.erase a) = .ok a.accountSeq := by
    apply resolveAccountSeq_of_find? hwanted
    rw [List.find?_cons, hforeign.1]
  have hsame := h.unordered hnodup hexact _ (List.perm_cons_erase ha).symm
  rw [hfirst, hchosen] at hsame
  exact hforeign.2 e he hee (Except.ok.inj hsame).symm

/-- **The right account is chosen** exactly when no account that only shares an ending with the
number, or has no digits, can be taken for the one that has it. -/
theorem resolvesRight_iff (isdigit : Char → Bool) {wanted : String} (hwanted : wanted ≠ "")
    (accounts : List Account) :
    ResolvesRight isdigit wanted accounts ↔
      ((∃ a ∈ accounts, Exact isdigit wanted a) → KeepsApart isdigit wanted accounts) := by
  constructor
  · intro h hexact
    exact ⟨fun front a back hsplit => h.behind hwanted hexact hsplit, fun hnodup a =>
      h.not_foreign hwanted hexact hnodup⟩
  · intro h
    exact ⟨fun hexact => (h hexact).chosen hwanted hexact, fun hnodup hexact reordered =>
      (h hexact).unordered hwanted hnodup hexact⟩

/-- Two accounts whose numbers have nothing to do with each other. -/
def unrelated : List Account :=
  [⟨"987-65-432109", 2, "BROKERAGE"⟩, ⟨"123-45-678901", 1, "BROKERAGE"⟩]

theorem unrelated_resolves : ResolvesRight Char.isDigit "12345678901" unrelated := by
  refine (resolvesRight_iff Char.isDigit (by decide) unrelated).mpr fun _ => ?_
  have hnone : ∀ a ∈ unrelated, ¬ Foreign Char.isDigit "12345678901" unrelated a := by
    intro a ha hforeign
    simp only [unrelated, List.mem_cons, List.not_mem_nil, or_false] at ha
    rcases ha with rfl | rfl
    · exact absurd hforeign.1 (by decide)
    · exact hforeign.2 _ (List.mem_cons_of_mem _ (List.mem_cons_self ..)) (by decide) rfl
  constructor
  · intro front a back hsplit hforeign
    exact absurd hforeign (hnone a (by rw [hsplit]; simp))
  · intro _
    exact hnone

/-- An account whose number is the end of the configured one stands first. -/
def overlapping : List Account :=
  [⟨"678901", 2, "BROKERAGE"⟩, ⟨"123-45-678901", 1, "BROKERAGE"⟩]

theorem overlapping_misresolved :
    ¬ (overlapping ≠ [] → "12345678901".toList.all Char.isDigit = true →
      "12345678901" ≠ "" → ResolvesRight Char.isDigit "12345678901" overlapping) := by
  intro h
  obtain ⟨a, ha, he, hchosen⟩ := (h (by decide) (by decide) (by decide)).chosen
    ⟨⟨"123-45-678901", 1, "BROKERAGE"⟩, by decide, by decide⟩
  have htaken : resolveAccountSeq Char.isDigit "12345678901" overlapping = .ok 2 := by rfl
  rw [htaken] at hchosen
  simp only [overlapping, List.mem_cons, List.not_mem_nil, or_false] at ha
  rcases ha with rfl | rfl
  · exact absurd he (by decide)
  · exact absurd (Except.ok.inj hchosen) (by decide)

end TossClient
end Tqt
