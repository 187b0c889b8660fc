import Mathlib.Data.List.Nodup
import Mathlib.Algebra.BigOperators.Group.List.Basic
import Mathlib.Algebra.BigOperators.Ring.List
import Mathlib.Tactic.Abel

/-! Finite maps that remember insertion order.

Entries are listed in the order their keys were first inserted, and no key occurs
twice: the second fact is a field, so no map without it can be built. Replacing the
value of a key keeps its place, which is what makes the order of a later stable sort
a function of the map. -/
namespace Tqt

structure Dict (κ ν : Type*) where
  entries : List (κ × ν)
  nodup : (entries.map Prod.fst).Nodup

namespace Dict
variable {κ ν μ : Type*}

def empty : Dict κ ν := ⟨[], List.nodup_nil⟩

instance : EmptyCollection (Dict κ ν) := ⟨empty⟩

def keys (d : Dict κ ν) : List κ := d.entries.map Prod.fst

theorem ext_entries {d d' : Dict κ ν} (h : d.entries = d'.entries) : d = d' := by
  cases d
  cases d'
  cases h
  rfl

/-- Keep the entries that satisfy `p`, in order. -/
def filter (d : Dict κ ν) (p : κ → ν → Bool) : Dict κ ν where
  entries := d.entries.filter fun e => p e.1 e.2
  nodup := d.nodup.sublist (List.filter_sublist.map Prod.fst)

theorem filter_filter (d : Dict κ ν) (p : κ → ν → Bool) : (d.filter p).filter p = d.filter p := by
  unfold filter
  simp

def mapValues (d : Dict κ ν) (f : κ → ν → μ) : Dict κ μ where
  entries := d.entries.map fun e => (e.1, f e.1 e.2)
  nodup := by simpa [Function.comp_def] using d.nodup

/-! ### Lookup -/

section Lookup
variable [DecidableEq κ]

def get? (d : Dict κ ν) (k : κ) : Option ν := d.entries.lookup k

def getD (d : Dict κ ν) (k : κ) (v : ν) : ν := (d.get? k).getD v

theorem lookup_eq_some (l : List (κ × ν)) (h : (l.map Prod.fst).Nodup) (k : κ) (v : ν) :
    l.lookup k = some v ↔ (k, v) ∈ l := by
  induction l with
  | nil => simp
  | cons e rest ih =>
    obtain ⟨k', v'⟩ := e
    simp only [List.map_cons, List.nodup_cons] at h
    by_cases hk : k = k'
    · subst hk
      have hrest : (k, v) ∉ rest := fun hm => h.1 (List.mem_map_of_mem (f := Prod.fst) hm)
      simp [hrest, eq_comm]
    · have hb : (k == k') = false := beq_eq_false_iff_ne.mpr hk
      simp [List.lookup_cons, hb, hk, ih h.2]

theorem get?_eq_some (d : Dict κ ν) (k : κ) (v : ν) :
    d.get? k = some v ↔ (k, v) ∈ d.entries :=
  lookup_eq_some d.entries d.nodup k v

/-- A key has exactly one entry. -/
theorem filter_key_eq {d : Dict κ ν} {k : κ} {v : ν} (h : d.get? k = some v) :
    (d.entries.filter fun e => e.1 = k) = [(k, v)] := by
  obtain ⟨front, back, hsplit⟩ := List.append_of_mem ((d.get?_eq_some k v).mp h)
  have hnodup := d.nodup
  rw [hsplit, List.map_append, List.map_cons, List.nodup_middle, List.nodup_cons, List.mem_append,
    not_or] at hnodup
  have hnone {l : List (κ × ν)} (hl : k ∉ l.map Prod.fst) : (l.filter fun e => e.1 = k) = [] :=
    List.filter_eq_nil_iff.mpr fun e he hkey =>
      hl (List.mem_map.mpr ⟨e, he, of_decide_eq_true hkey⟩)
  rw [hsplit, List.filter_append, List.filter_cons_of_pos (by simp), hnone hnodup.1.1,
    hnone hnodup.1.2, List.nil_append]

theorem mem_keys (d : Dict κ ν) (k : κ) : k ∈ d.keys ↔ ∃ v, d.get? k = some v := by
  simp only [keys, List.mem_map, Prod.exists, exists_and_right, exists_eq_right, get?_eq_some]

theorem get?_eq_none (d : Dict κ ν) (k : κ) : d.get? k = none ↔ k ∉ d.keys := by
  rw [mem_keys]
  cases h : d.get? k <;> simp

@[simp] theorem get?_empty (k : κ) : (∅ : Dict κ ν).get? k = none := rfl

theorem eq_empty {d : Dict κ ν} (h : ∀ k, d.get? k = none) : d = ∅ := by
  have hkeys : d.keys = [] := List.eq_nil_iff_forall_not_mem.mpr fun k => (d.get?_eq_none k).mp (h k)
  obtain ⟨entries, hnodup⟩ := d
  obtain rfl : entries = [] := List.map_eq_nil_iff.mp hkeys
  rfl

theorem get?_filter (d : Dict κ ν) (p : κ → ν → Bool) (k : κ) :
    (d.filter p).get? k = (d.get? k).filter (p k) := by
  apply Option.ext
  intro v
  rw [get?_eq_some]
  simp only [filter, List.mem_filter, Option.filter_eq_some_iff, get?_eq_some]

theorem get?_mapValues (d : Dict κ ν) (f : κ → ν → μ) (k : κ) :
    (d.mapValues f).get? k = (d.get? k).map (f k) := by
  apply Option.ext
  intro v
  rw [get?_eq_some]
  simp only [mapValues, List.mem_map, Prod.mk.injEq, Prod.exists, Option.map_eq_some_iff,
    get?_eq_some]
  constructor
  · intro h
    obtain ⟨k', w, hm, rfl, rfl⟩ := h
    exact ⟨w, hm, rfl⟩
  · intro h
    obtain ⟨w, hm, rfl⟩ := h
    exact ⟨k, w, hm, rfl, rfl⟩

/-! ### Insertion -/

/-- Replace the value of `k` where it stands, or append it. -/
def put (k : κ) (v : ν) : List (κ × ν) → List (κ × ν)
  | [] => [(k, v)]
  | e :: rest => if e.1 = k then (k, v) :: rest else e :: put k v rest

theorem put_cons (k : κ) (v : ν) (e : κ × ν) (rest : List (κ × ν)) :
    put k v (e :: rest) = if e.1 = k then (k, v) :: rest else e :: put k v rest := rfl

theorem mem_keys_put (k : κ) (v : ν) (l : List (κ × ν)) (k' : κ) :
    k' ∈ (put k v l).map Prod.fst ↔ k' = k ∨ k' ∈ l.map Prod.fst := by
  induction l with
  | nil => simp [put]
  | cons e rest ih =>
    unfold put
    split
    · next h =>
      subst h
      simp
    · simp only [List.map_cons, List.mem_cons, ih]
      tauto

theorem put_nodup (k : κ) (v : ν) (l : List (κ × ν)) (h : (l.map Prod.fst).Nodup) :
    ((put k v l).map Prod.fst).Nodup := by
  induction l with
  | nil => simp [put]
  | cons e rest ih =>
    simp only [List.map_cons, List.nodup_cons] at h
    unfold put
    split
    · next he =>
      subst he
      simpa using h
    · next he =>
      simp only [List.map_cons, List.nodup_cons, mem_keys_put, not_or]
      exact ⟨⟨he, h.1⟩, ih h.2⟩

theorem lookup_put (k : κ) (v : ν) (l : List (κ × ν)) (k' : κ) :
    (put k v l).lookup k' = if k' = k then some v else l.lookup k' := by
  induction l with
  | nil =>
    by_cases h : k' = k <;> simp [put, List.lookup_cons, h, beq_eq_false_iff_ne.mpr]
  | cons e rest ih =>
    obtain ⟨k₀, v₀⟩ := e
    unfold put
    split
    · next he =>
      simp only at he
      subst he
      by_cases h : k' = k₀ <;> simp [List.lookup_cons, h, beq_eq_false_iff_ne.mpr]
    · next he =>
      simp only [List.lookup_cons, ih]
      by_cases h₀ : k' = k₀
      · subst h₀
        simp [he]
      · simp [beq_eq_false_iff_ne.mpr h₀]

theorem put_eq_self {k : κ} {v : ν} {l : List (κ × ν)} (h : l.lookup k = some v) : put k v l = l := by
  induction l with
  | nil => cases h
  | cons e rest ih =>
    obtain ⟨k', v'⟩ := e
    rw [put_cons]
    by_cases hk : k = k'
    · subst hk
      rw [List.lookup_cons_self] at h
      cases h
      rw [if_pos rfl]
    · rw [List.lookup_cons, beq_eq_false_iff_ne.mpr hk] at h
      rw [if_neg (Ne.symm hk), ih h]

theorem put_put (k : κ) (v w : ν) (l : List (κ × ν)) : put k w (put k v l) = put k w l := by
  induction l with
  | nil => simp [put]
  | cons e rest ih =>
    rw [put_cons, put_cons]
    by_cases he : e.1 = k
    · rw [if_pos he, if_pos he, put_cons, if_pos rfl]
    · rw [if_neg he, if_neg he, put_cons, if_neg he, ih]

def insert (d : Dict κ ν) (k : κ) (v : ν) : Dict κ ν :=
  ⟨put k v d.entries, put_nodup k v d.entries d.nodup⟩

/-- Insert only where the key is missing. -/
def setDefault (d : Dict κ ν) (k : κ) (v : ν) : Dict κ ν :=
  if (d.get? k).isSome then d else d.insert k v

def erase (d : Dict κ ν) (k : κ) : Dict κ ν := d.filter fun k' _ => k' != k

/-- Insert the pairs from left to right; a later pair replaces an earlier one. -/
def ofList (l : List (κ × ν)) : Dict κ ν := l.foldl (fun d e => d.insert e.1 e.2) ∅

/-- Insert the entries of `e`, in order. -/
def update (d e : Dict κ ν) : Dict κ ν := e.entries.foldl (fun d x => d.insert x.1 x.2) d

/-- Inserting what is there changes nothing. -/
theorem insert_eq_self {d : Dict κ ν} {k : κ} {v : ν} (h : d.get? k = some v) : d.insert k v = d :=
  ext_entries (put_eq_self h)

/-- The last insertion under a key is the one that counts. -/
theorem insert_insert (d : Dict κ ν) (k : κ) (v w : ν) : (d.insert k v).insert k w = d.insert k w :=
  ext_entries (put_put k v w d.entries)

theorem get?_insert (d : Dict κ ν) (k : κ) (v : ν) (k' : κ) :
    (d.insert k v).get? k' = if k' = k then some v else d.get? k' :=
  lookup_put k v d.entries k'

@[simp] theorem get?_insert_self (d : Dict κ ν) (k : κ) (v : ν) :
    (d.insert k v).get? k = some v := by
  simp [get?_insert]

theorem get?_insert_of_ne (d : Dict κ ν) {k k' : κ} (v : ν) (h : k' ≠ k) :
    (d.insert k v).get? k' = d.get? k' := by
  simp [get?_insert, h]

theorem mem_keys_insert (d : Dict κ ν) (k : κ) (v : ν) (k' : κ) :
    k' ∈ (d.insert k v).keys ↔ k' = k ∨ k' ∈ d.keys :=
  mem_keys_put k v d.entries k'

theorem get?_erase (d : Dict κ ν) (k k' : κ) :
    (d.erase k).get? k' = if k' = k then none else d.get? k' := by
  rw [erase, get?_filter]
  by_cases h : k' = k
  · subst h
    cases d.get? k' <;> simp
  · cases hd : d.get? k' <;> simp [h]

theorem get?_setDefault (d : Dict κ ν) (k : κ) (v : ν) (k' : κ) :
    (d.setDefault k v).get? k' = if k' = k then some ((d.get? k).getD v) else d.get? k' := by
  unfold setDefault
  cases hd : d.get? k with
  | none => simp [get?_insert]
  | some w =>
    by_cases h : k' = k
    · subst h
      simp [hd]
    · simp [h]

/-- What is filtered out may as well not be inserted. -/
theorem filter_insert_of_not (d : Dict κ ν) {p : κ → ν → Bool} {k : κ} (hk : ∀ v, p k v = false)
    (v : ν) : (d.insert k v).filter p = d.filter p := by
  have hput : ∀ l : List (κ × ν), (put k v l).filter (fun e => p e.1 e.2) =
      l.filter fun e => p e.1 e.2 := by
    intro l
    induction l with
    | nil => simp [put, hk]
    | cons e rest ih =>
      unfold put
      split
      · next he =>
        rw [List.filter_cons_of_neg (by simp [hk]), List.filter_cons_of_neg (by simp [he, hk])]
      · rw [List.filter_cons, List.filter_cons, ih]
  unfold filter insert
  simp only [hput]

/-- Filling in a default for each of some keys. -/
theorem get?_foldl_setDefault (keys : List κ) (d : Dict κ ν) (v : ν) (k : κ) :
    (keys.foldl (fun d k => d.setDefault k v) d).get? k =
      if k ∈ keys then some (d.getD k v) else d.get? k := by
  induction keys generalizing d with
  | nil => simp
  | cons k₀ rest ih =>
    rw [List.foldl_cons, ih]
    by_cases h₀ : k = k₀
    · subst h₀
      simp [get?_setDefault, getD]
    · simp [get?_setDefault, getD, h₀]

/-- Giving each of some keys its value. -/
theorem get?_foldl_insert (keys : List κ) (d : Dict κ ν) (f : κ → ν) (k : κ) :
    ((keys.map fun k => (k, f k)).foldl (fun d e => d.insert e.1 e.2) d).get? k =
      if k ∈ keys then some (f k) else d.get? k := by
  induction keys generalizing d with
  | nil => simp
  | cons k₀ rest ih =>
    rw [List.map_cons, List.foldl_cons, ih, get?_insert]
    by_cases hrest : k ∈ rest
    · simp [hrest]
    · by_cases h₀ : k = k₀
      · simp [h₀]
      · simp [hrest, h₀]

theorem get?_ofList_keys (keys : List κ) (f : κ → ν) (k : κ) :
    (ofList (keys.map fun k => (k, f k))).get? k = if k ∈ keys then some (f k) else none :=
  get?_foldl_insert keys ∅ f k

theorem get?_ofList_map (keys : List κ) (v : ν) (k : κ) :
    (ofList (keys.map fun k => (k, v))).get? k = if k ∈ keys then some v else none :=
  get?_ofList_keys keys (fun _ => v) k

/-! ### Values through a function -/

omit [DecidableEq κ] in
theorem keys_mapValues (d : Dict κ ν) (f : κ → ν → μ) : (d.mapValues f).keys = d.keys := by
  unfold keys mapValues
  rw [List.map_map]
  rfl

omit [DecidableEq κ] in
theorem mapValues_mapValues {ρ : Type*} (d : Dict κ ν) (f : κ → ν → μ) (g : κ → μ → ρ) :
    (d.mapValues f).mapValues g = d.mapValues fun k v => g k (f k v) := by
  apply ext_entries
  exact List.map_map ..

omit [DecidableEq κ] in
theorem mapValues_filter (d : Dict κ ν) (f : κ → ν → μ) {p : κ → μ → Bool} {q : κ → ν → Bool}
    (h : ∀ k v, p k (f k v) = q k v) : (d.mapValues f).filter p = (d.filter q).mapValues f := by
  apply ext_entries
  show (d.entries.map _).filter _ = (d.entries.filter _).map _
  rw [List.filter_map]
  congr 1
  exact List.filter_congr fun e _ => h e.1 e.2

theorem mapValues_insert (d : Dict κ ν) (f : κ → ν → μ) (k : κ) (v : ν) :
    (d.insert k v).mapValues f = (d.mapValues f).insert k (f k v) := by
  apply ext_entries
  show (put k v d.entries).map _ = put k (f k v) (d.entries.map _)
  induction d.entries with
  | nil => rfl
  | cons e rest ih =>
    rw [List.map_cons, put_cons, put_cons]
    split
    · rfl
    · rw [List.map_cons, ih]

theorem mapValues_setDefault (d : Dict κ ν) (f : κ → ν → μ) (k : κ) (v : ν) :
    (d.setDefault k v).mapValues f = (d.mapValues f).setDefault k (f k v) := by
  unfold setDefault
  rw [get?_mapValues, Option.isSome_map]
  split
  · rfl
  · exact d.mapValues_insert f k v

/-! ### Lookup with a default -/

theorem getD_insert (d : Dict κ ν) (k : κ) (v : ν) (k' : κ) (w : ν) :
    (d.insert k v).getD k' w = if k' = k then v else d.getD k' w := by
  unfold getD
  rw [get?_insert]
  split <;> rfl

@[simp] theorem getD_empty (k : κ) (w : ν) : (∅ : Dict κ ν).getD k w = w := rfl

/-- What holds of the default and of every value holds of every lookup. -/
theorem getD_property (d : Dict κ ν) {P : ν → Prop} (k : κ) {w : ν} (hw : P w)
    (h : ∀ k v, d.get? k = some v → P v) : P (d.getD k w) := by
  unfold getD
  cases hd : d.get? k with
  | none => exact hw
  | some v => exact h k v hd

/-- What holds of every value holds after an insertion of such a value. -/
theorem insert_property (d : Dict κ ν) {P : ν → Prop} {k : κ} {v : ν} (hv : P v)
    (h : ∀ k v, d.get? k = some v → P v) {k' : κ} {v' : ν}
    (h' : (d.insert k v).get? k' = some v') : P v' := by
  rw [get?_insert] at h'
  split at h'
  · cases h'
    exact hv
  · exact h k' v' h'

/-- What holds of every value listed holds of every value found. -/
theorem ofList_property {P : ν → Prop} {l : List (κ × ν)} (h : ∀ e ∈ l, P e.2) {k : κ} {v : ν}
    (hget : (ofList l).get? k = some v) : P v := by
  have hfold : ∀ d : Dict κ ν, (∀ k v, d.get? k = some v → P v) →
      ∀ k v, (l.foldl (fun d e => d.insert e.1 e.2) d).get? k = some v → P v := by
    clear hget
    induction l with
    | nil => exact fun _ hd => hd
    | cons e rest ih =>
      intro d hd
      refine ih (fun e' he' => h e' (List.mem_cons_of_mem _ he')) (d.insert e.1 e.2) ?_
      intro k v hkv
      exact d.insert_property (h e (List.mem_cons_self ..)) hd hkv
  exact hfold ∅ (fun k v hkv => by cases hkv) k v hget

/-! ### One row of a two-key map -/

/-- The entries whose first key is `a`. -/
def row {α : Type*} [DecidableEq α] (d : Dict (α × κ) ν) (a : α) : Dict κ ν where
  entries := d.entries.filterMap fun e => if e.1.1 = a then some (e.1.2, e.2) else none
  nodup := by
    have hnodup := d.nodup
    rw [List.Nodup, List.pairwise_map] at hnodup ⊢
    refine hnodup.filterMap _ fun e e' hne x hx y hy hxy => hne ?_
    simp only [Option.ite_none_right_eq_some, Option.some.injEq] at hx hy
    obtain ⟨ha, rfl⟩ := hx
    obtain ⟨ha', rfl⟩ := hy
    exact Prod.ext (ha.trans ha'.symm) hxy

theorem get?_row {α : Type*} [DecidableEq α] (d : Dict (α × κ) ν) (a : α) (k : κ) :
    (d.row a).get? k = d.get? (a, k) := by
  ext v
  rw [get?_eq_some, get?_eq_some]
  simp only [row, List.mem_filterMap, Option.ite_none_right_eq_some, Option.some.injEq,
    Prod.mk.injEq]
  constructor
  · intro h
    obtain ⟨⟨⟨a', k'⟩, v'⟩, hm, rfl, rfl, rfl⟩ := h
    exact hm
  · intro hm
    exact ⟨((a, k), v), hm, rfl, rfl, rfl⟩

section Row
variable {α : Type*} [DecidableEq α] (d : Dict (α × κ) ν) {a : α}

/-- The row of an insertion: its own, or another's. -/
theorem row_insert_self (a : α) (k : κ) (v : ν) : (d.insert (a, k) v).row a = (d.row a).insert k v := by
  apply ext_entries
  show (put (a, k) v d.entries).filterMap _ = put k v (d.entries.filterMap _)
  induction d.entries with
  | nil => simp [put]
  | cons e rest ih =>
    obtain ⟨⟨a', k'⟩, v'⟩ := e
    rw [put_cons]
    by_cases ha : a' = a
    · subst ha
      by_cases hk : k' = k
      · subst hk
        simp [put_cons]
      · simp [hk, put_cons, ih]
    · simp [ha, ih]

theorem row_insert_of_ne {b : α} (h : b ≠ a) (k : κ) (v : ν) :
    (d.insert (b, k) v).row a = d.row a := by
  apply ext_entries
  show (put (b, k) v d.entries).filterMap _ = d.entries.filterMap _
  induction d.entries with
  | nil => simp [put, h]
  | cons e rest ih =>
    obtain ⟨⟨a', k'⟩, v'⟩ := e
    rw [put_cons]
    by_cases he : (a', k') = (b, k)
    · cases he
      simp [h]
    · rw [if_neg he, List.filterMap_cons, List.filterMap_cons, ih]

omit [DecidableEq κ] in
/-- The row of a filtered map: as it was, or with a filter of its own. -/
theorem row_filter (p : α × κ → ν → Bool) :
    (d.filter p).row a = (d.row a).filter fun k v => p (a, k) v := by
  apply ext_entries
  show (d.entries.filter _).filterMap _ = (d.entries.filterMap _).filter _
  induction d.entries with
  | nil => rfl
  | cons e rest ih =>
    obtain ⟨⟨a', k'⟩, v'⟩ := e
    by_cases ha : a' = a
    · subst ha
      by_cases hp : p (a', k') v' = true <;> simp [hp, ih]
    · by_cases hp : p (a', k') v' = true <;> simp [hp, ha, ih]

theorem row_erase_self (a : α) (k : κ) : (d.erase (a, k)).row a = (d.row a).erase k := by
  unfold erase
  rw [row_filter]
  apply ext_entries
  apply List.filter_congr
  intro e _
  rw [Bool.eq_iff_iff]
  simp

theorem row_erase_of_ne {b : α} (h : b ≠ a) (k : κ) : (d.erase (b, k)).row a = d.row a := by
  rw [erase, row_filter]
  apply ext_entries
  simp [filter, h.symm]

theorem row_setDefault_self (a : α) (k : κ) (v : ν) :
    (d.setDefault (a, k) v).row a = (d.row a).setDefault k v := by
  unfold setDefault
  rw [get?_row]
  split
  · rfl
  · exact d.row_insert_self a k v

theorem row_setDefault_of_ne {b : α} (h : b ≠ a) (k : κ) (v : ν) :
    (d.setDefault (b, k) v).row a = d.row a := by
  unfold setDefault
  split
  · rfl
  · exact d.row_insert_of_ne h k v

omit [DecidableEq κ] in
/-- The entries under a first key are those of its row. -/
theorem filter_entries (a : α) :
    (d.entries.filter fun e => e.1.1 = a) = (d.row a).entries.map fun e => ((a, e.1), e.2) := by
  show _ = (d.entries.filterMap _).map _
  induction d.entries with
  | nil => rfl
  | cons e rest ih =>
    obtain ⟨⟨a', k'⟩, v'⟩ := e
    by_cases ha : a' = a
    · subst ha
      simp [ih]
    · simp [ha, ih]

end Row

end Lookup

/-! ### Sums -/

section Sums
variable [AddCommGroup ν]

def total (d : Dict κ ν) : ν := (d.entries.map Prod.snd).sum

@[simp] theorem total_empty : (∅ : Dict κ ν).total = 0 := rfl

theorem sum_put [DecidableEq κ] (k : κ) (v : ν) (l : List (κ × ν)) :
    ((put k v l).map Prod.snd).sum = (l.map Prod.snd).sum - (l.lookup k).getD 0 + v := by
  induction l with
  | nil => simp [put]
  | cons e rest ih =>
    obtain ⟨k₀, v₀⟩ := e
    unfold put
    by_cases h : k₀ = k
    · subst h
      simp only [if_true, List.map_cons, List.sum_cons, List.lookup_cons_self, Option.getD_some]
      abel
    · have hb : (k == k₀) = false := beq_eq_false_iff_ne.mpr (Ne.symm h)
      simp only [h, if_false, List.map_cons, List.sum_cons, ih, List.lookup_cons, hb]
      abel

theorem total_insert [DecidableEq κ] (d : Dict κ ν) (k : κ) (v : ν) :
    (d.insert k v).total = d.total - d.getD k 0 + v :=
  sum_put k v d.entries

/-- Adding to one value adds to the total. -/
theorem total_add [DecidableEq κ] (d : Dict κ ν) (k : κ) (v : ν) :
    (d.insert k (d.getD k 0 + v)).total = d.total + v := by
  rw [total_insert]
  abel

/-- New keys count once each. -/
theorem total_foldl_insert [DecidableEq κ] {keys : List κ} (v : ν) (hnodup : keys.Nodup)
    {d : Dict κ ν} (hnew : ∀ k ∈ keys, d.get? k = none) :
    ((keys.map fun k => (k, v)).foldl (fun d e => d.insert e.1 e.2) d).total =
      d.total + keys.length • v := by
  induction keys generalizing d with
  | nil => simp
  | cons k rest ih =>
    obtain ⟨hk, hrest⟩ := List.nodup_cons.mp hnodup
    have hgetD : d.getD k 0 = 0 := by
      rw [getD, hnew k (List.mem_cons_self ..), Option.getD_none]
    have hnew' : ∀ k' ∈ rest, (d.insert k v).get? k' = none := by
      intro k' hk'
      rw [get?_insert_of_ne _ _ (by rintro rfl; exact hk hk')]
      exact hnew k' (List.mem_cons_of_mem k hk')
    rw [List.map_cons, List.foldl_cons, ih hrest hnew', total_insert, hgetD, List.length_cons,
      succ_nsmul]
    abel

theorem total_ofList_map [DecidableEq κ] {keys : List κ} (v : ν) (hnodup : keys.Nodup) :
    (ofList (keys.map fun k => (k, v))).total = keys.length • v := by
  have h := total_foldl_insert v hnodup (d := ∅) fun k _ => get?_empty k
  rwa [total_empty, zero_add] at h

/-- A sum with a weight per key, after a value was replaced. -/
theorem sum_map_put [DecidableEq κ] {α : Type*} (f : κ → α → ν) (k : κ) (v : α)
    (l : List (κ × α)) :
    ((put k v l).map fun e => f e.1 e.2).sum =
      (l.map fun e => f e.1 e.2).sum - ((l.lookup k).map (f k)).getD 0 + f k v := by
  induction l with
  | nil => simp [put]
  | cons e rest ih =>
    obtain ⟨k₀, v₀⟩ := e
    unfold put
    by_cases h : k₀ = k
    · subst h
      simp only [if_true, List.map_cons, List.sum_cons, List.lookup_cons_self, Option.map_some,
        Option.getD_some]
      abel
    · have hb : (k == k₀) = false := beq_eq_false_iff_ne.mpr (Ne.symm h)
      simp only [h, if_false, List.map_cons, List.sum_cons, ih, List.lookup_cons, hb]
      abel

/-- The same, after a key was dropped. -/
theorem sum_map_erase [DecidableEq κ] {α : Type*} (f : κ → α → ν) (k : κ) (d : Dict κ α) :
    ((d.erase k).entries.map fun e => f e.1 e.2).sum =
      (d.entries.map fun e => f e.1 e.2).sum - ((d.get? k).map (f k)).getD 0 := by
  obtain ⟨l, hnodup⟩ := d
  show ((l.filter fun e => e.1 != k).map fun e => f e.1 e.2).sum =
    (l.map fun e => f e.1 e.2).sum - ((l.lookup k).map (f k)).getD 0
  induction l with
  | nil => simp
  | cons e rest ih =>
    obtain ⟨k₀, v₀⟩ := e
    obtain ⟨hnew, hrest⟩ := List.nodup_cons.mp hnodup
    by_cases h : k₀ = k
    · subst h
      have hkept : (rest.filter fun e => e.1 != k₀) = rest :=
        List.filter_eq_self.mpr fun e he =>
          bne_iff_ne.mpr fun heq => hnew (List.mem_map.mpr ⟨e, he, heq⟩)
      simp [hkept]
    · have hb : (k == k₀) = false := beq_eq_false_iff_ne.mpr (Ne.symm h)
      rw [List.filter_cons, if_pos (bne_iff_ne.mpr h), List.map_cons, List.map_cons, List.sum_cons,
        List.sum_cons, ih hrest, List.lookup_cons, hb]
      abel

/-- Entries of value zero do not count. -/
theorem sum_map_filter {α : Type*} (f : κ → α → ν) (p : κ → α → Bool) (l : List (κ × α))
    (h : ∀ e ∈ l, p e.1 e.2 = false → f e.1 e.2 = 0) :
    ((l.filter fun e => p e.1 e.2).map fun e => f e.1 e.2).sum = (l.map fun e => f e.1 e.2).sum := by
  induction l with
  | nil => rfl
  | cons e rest ih =>
    have hrest := ih fun e' he => h e' (List.mem_cons_of_mem e he)
    rw [List.filter_cons]
    cases hp : p e.1 e.2 with
    | true => rw [if_pos rfl, List.map_cons, List.map_cons, List.sum_cons, List.sum_cons, hrest]
    | false =>
      rw [if_neg Bool.false_ne_true, hrest, List.map_cons, List.sum_cons,
        h e (List.mem_cons_self ..) hp, zero_add]

/-- Scaling every value scales the total. -/
theorem total_mapValues_mul {R : Type*} [Ring R] (d : Dict κ R) (c : R) :
    (d.mapValues fun _ v => v * c).total = d.total * c := by
  unfold total mapValues
  rw [List.map_map]
  exact List.sum_map_mul_right ..

end Sums
end Dict
end Tqt
