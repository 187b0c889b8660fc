import Mathlib.Logic.Function.Basic
import Tqt.Foundation.Lts

/-! Transactions, for sessions that can stop at any statement.

A call is a list of writes, and a write is one statement or several in a transaction. Sessions
send their statements one at a time and in any order; a transaction works on a copy until it
commits, a statement that raises rolls it back and ends the call, and a session can die at any
moment (`Program.sessions`). What is stored is what whole writes leave, one after another
(`Program.whole`): the two systems reach the same states (`run_iff`), so that what every whole
write keeps holds at every moment (`stored_invariant`). -/
namespace Tqt

/-- One statement on its own, or several in a transaction; `none` is a statement that raises. -/
inductive DbWrite (σ : Type*) where
  | single (f : σ → Option σ)
  | atomic (fs : List (σ → Option σ))

/-- The statements, one after the other. -/
def statements {σ : Type*} (fs : List (σ → Option σ)) (s : σ) : Option σ :=
  fs.foldlM (fun s f => f s) s

theorem statements_append {σ : Type*} (fs gs : List (σ → Option σ)) (s : σ) :
    statements (fs ++ gs) s = (statements fs s).bind (statements gs) :=
  List.foldlM_append

/-- What a write does as a whole. -/
def DbWrite.effect {σ : Type*} : DbWrite σ → σ → Option σ
  | .single f => f
  | .atomic fs => statements fs

/-- What is stored, what each session's call has still to write, and the writes that have taken
effect, in order. -/
structure Calls (ι σ π : Type*) where
  store : σ
  todo : ι → List π
  log : List π := []

/-- The session in a transaction, its copy, and the statements that are left. -/
structure Transaction (ι σ : Type*) where
  session : ι
  copy : σ
  left : List (σ → Option σ)

structure Sessions (ι σ π : Type*) where
  calls : Calls ι σ π
  transaction : Option (Transaction ι σ) := none

inductive CallEvent (ι π : Type*) where
  | call (i : ι) (todo : List π)
  | write (i : ι) (p : π)
  | abandon (i : ι)

inductive SessionEvent (ι π : Type*) where
  | call (i : ι) (todo : List π)
  | statement (i : ι)
  | crash (i : ι)

/-- What the writes of a program do, and which calls a session may make on what it reads. -/
structure Program (ι σ π : Type*) where
  write : π → DbWrite σ
  admits : Calls ι σ π → ι → List π → Prop

namespace Calls
variable {ι σ π : Type*} [DecidableEq ι]

def called (c : Calls ι σ π) (i : ι) (todo : List π) : Calls ι σ π :=
  { c with todo := Function.update c.todo i todo }

def wrote (c : Calls ι σ π) (i : ι) (p : π) (rest : List π) (store : σ) : Calls ι σ π :=
  ⟨store, Function.update c.todo i rest, c.log ++ [p]⟩

end Calls

namespace Program
variable {ι σ π : Type*} [DecidableEq ι] (P : Program ι σ π)

/-- A write at a time. -/
inductive WholeSteps : Calls ι σ π → CallEvent ι π → Calls ι σ π → Prop where
  | call {c : Calls ι σ π} {i : ι} {todo : List π} : c.todo i = [] → P.admits c i todo →
      WholeSteps c (.call i todo) (c.called i todo)
  | write {c : Calls ι σ π} {i : ι} {p : π} {rest : List π} {store : σ} : c.todo i = p :: rest →
      (P.write p).effect c.store = some store → WholeSteps c (.write i p) (c.wrote i p rest store)
  | abandon {c : Calls ι σ π} (i : ι) : WholeSteps c (.abandon i) (c.called i [])

def whole : Lts (Calls ι σ π) (CallEvent ι π) := ⟨P.WholeSteps⟩

/-- A statement at a time. Nobody else writes while a transaction is open. -/
inductive Steps : Sessions ι σ π → SessionEvent ι π → Sessions ι σ π → Prop where
  | call {s : Sessions ι σ π} {i : ι} {todo : List π} : s.calls.todo i = [] →
      P.admits s.calls i todo → Steps s (.call i todo) { s with calls := s.calls.called i todo }
  | single {c : Calls ι σ π} {i : ι} {p : π} {rest : List π} {f : σ → Option σ} {store : σ} :
      c.todo i = p :: rest → P.write p = .single f → f c.store = some store →
      Steps ⟨c, none⟩ (.statement i) ⟨c.wrote i p rest store, none⟩
  | fail {c : Calls ι σ π} {i : ι} {p : π} {rest : List π} {f : σ → Option σ} :
      c.todo i = p :: rest → P.write p = .single f → f c.store = none →
      Steps ⟨c, none⟩ (.statement i) ⟨c.called i [], none⟩
  | begin {c : Calls ι σ π} {i : ι} {p : π} {rest : List π} {fs : List (σ → Option σ)} :
      c.todo i = p :: rest → P.write p = .atomic fs →
      Steps ⟨c, none⟩ (.statement i) ⟨c, some ⟨i, c.store, fs⟩⟩
  | next {c : Calls ι σ π} {i : ι} {copy copy' : σ} {f : σ → Option σ} {fs : List (σ → Option σ)} :
      f copy = some copy' →
      Steps ⟨c, some ⟨i, copy, f :: fs⟩⟩ (.statement i) ⟨c, some ⟨i, copy', fs⟩⟩
  | rollback {c : Calls ι σ π} {i : ι} {copy : σ} {f : σ → Option σ} {fs : List (σ → Option σ)} :
      f copy = none → Steps ⟨c, some ⟨i, copy, f :: fs⟩⟩ (.statement i) ⟨c.called i [], none⟩
  | commit {c : Calls ι σ π} {i : ι} {p : π} {rest : List π} {copy : σ} : c.todo i = p :: rest →
      Steps ⟨c, some ⟨i, copy, []⟩⟩ (.statement i) ⟨c.wrote i p rest copy, none⟩
  | crash {s : Sessions ι σ π} (i : ι) :
      Steps s (.crash i) ⟨s.calls.called i [], s.transaction.filter fun t => t.session ≠ i⟩

def sessions : Lts (Sessions ι σ π) (SessionEvent ι π) := ⟨P.Steps⟩

/-- An open transaction is a part of its session's next write, over what is stored. -/
def Sound (s : Sessions ι σ π) : Prop :=
  ∀ t, s.transaction = some t → ∃ p rest done, s.calls.todo t.session = p :: rest ∧
    P.write p = .atomic (done ++ t.left) ∧ statements done s.calls.store = some t.copy

variable {P} {c c' : Calls ι σ π} {s t : Sessions ι σ π}

omit [DecidableEq ι] in
theorem Sound.closed (c : Calls ι σ π) : P.Sound ⟨c, none⟩ := nofun

/-- Another session's call leaves the open transaction as it is. -/
theorem Sound.called (h : P.Sound s) {i : ι} {todo : List π} {kept : Option (Transaction ι σ)}
    (hkept : ∀ t, kept = some t → s.transaction = some t ∧ t.session ≠ i) :
    P.Sound ⟨s.calls.called i todo, kept⟩ := by
  intro t ht
  obtain ⟨hopen, hne⟩ := hkept t ht
  obtain ⟨p, rest, done, htodo, hwrite, hdone⟩ := h t hopen
  exact ⟨p, rest, done, (Function.update_of_ne hne _ _).trans htodo, hwrite, hdone⟩

/-- **A statement** is a write when it is the last one of it, and otherwise does not show. -/
theorem Sound.step (h : P.Sound s) {e : SessionEvent ι π} (hstep : P.Steps s e t) :
    P.Sound t ∧ ∃ labels, P.whole.Run s.calls labels t.calls := by
  cases hstep with
  | call hrest hadmits =>
    refine ⟨h.called fun w hw => ⟨hw, ?_⟩, _, .cons (.call hrest hadmits) (.nil _)⟩
    rintro rfl
    obtain ⟨p, rest, done, htodo, -⟩ := h w hw
    rw [hrest] at htodo
    cases htodo
  | @single c i p rest f store htodo hwrite hf =>
    have heffect : (P.write p).effect c.store = some store := by
      rw [hwrite]
      exact hf
    exact ⟨.closed _, _, .cons (.write htodo heffect) (.nil _)⟩
  | @fail c i p rest f htodo hwrite hf => exact ⟨.closed _, _, .cons (.abandon i) (.nil _)⟩
  | @begin c i p rest fs htodo hwrite =>
    refine ⟨?_, [], .nil _⟩
    rintro _ ⟨⟩
    exact ⟨p, rest, [], htodo, hwrite, rfl⟩
  | @next c i copy copy' f fs hf =>
    obtain ⟨p, rest, done, htodo, hwrite, hdone⟩ := h _ rfl
    refine ⟨?_, [], .nil _⟩
    rintro _ ⟨⟩
    refine ⟨p, rest, done ++ [f], htodo, ?_, ?_⟩
    · rw [hwrite, List.append_assoc, List.singleton_append]
    · rw [statements_append, hdone]
      show (f copy).bind pure = some copy'
      rw [hf]
      rfl
  | @rollback c i copy f fs hf => exact ⟨.closed _, _, .cons (.abandon i) (.nil _)⟩
  | @commit c i p rest copy htodo =>
    obtain ⟨p', rest', done, htodo', hwrite, hdone⟩ := h _ rfl
    obtain ⟨rfl, rfl⟩ := List.cons.inj (htodo.symm.trans htodo')
    have heffect : (P.write p).effect c.store = some copy := by
      rw [hwrite, List.append_nil]
      exact hdone
    exact ⟨.closed _, _, .cons (.write htodo heffect) (.nil _)⟩
  | crash i =>
    refine ⟨h.called fun w hw => ?_, _, .cons (.abandon i) (.nil _)⟩
    obtain ⟨hopen, hne⟩ := Option.filter_eq_some_iff.mp hw
    exact ⟨hopen, of_decide_eq_true hne⟩

/-- **What is stored is what whole writes leave**, whatever stops where. -/
theorem run_whole {events : List (SessionEvent ι π)} (hrun : P.sessions.Run s events t)
    (h : P.Sound s) : P.Sound t ∧ ∃ labels, P.whole.Run s.calls labels t.calls := by
  induction hrun with
  | nil s => exact ⟨h, [], .nil _⟩
  | cons hstep _ ih =>
    obtain ⟨hmid, first, hfirst⟩ := h.step hstep
    obtain ⟨ht, second, hsecond⟩ := ih hmid
    exact ⟨ht, first ++ second, hfirst.append hsecond⟩

/-- The statements of an open transaction, and its commit. -/
theorem run_transaction {i : ι} {p : π} {rest : List π} (htodo : c.todo i = p :: rest)
    {fs : List (σ → Option σ)} {copy store : σ} (h : statements fs copy = some store) :
    ∃ events, P.sessions.Run ⟨c, some ⟨i, copy, fs⟩⟩ events ⟨c.wrote i p rest store, none⟩ := by
  induction fs generalizing copy with
  | nil =>
    cases h
    exact ⟨_, .cons (.commit htodo) (.nil _)⟩
  | cons f fs ih =>
    obtain ⟨copy', hf, hrest⟩ := Option.bind_eq_some_iff.mp h
    obtain ⟨events, hrun⟩ := ih hrest
    exact ⟨_, .cons (.next hf) hrun⟩

/-- **Whole writes can be made** statement by statement. -/
theorem run_statements {labels : List (CallEvent ι π)} (hrun : P.whole.Run c labels c') :
    ∃ events, P.sessions.Run ⟨c, none⟩ events ⟨c', none⟩ := by
  induction hrun with
  | nil c => exact ⟨[], .nil _⟩
  | @cons c mid c' a labels hstep _ ih =>
    obtain ⟨events, hrest⟩ := ih
    suffices hone : ∃ first, P.sessions.Run ⟨c, none⟩ first ⟨mid, none⟩ by
      obtain ⟨first, hfirst⟩ := hone
      exact ⟨first ++ events, hfirst.append hrest⟩
    cases hstep with
    | call hidle hadmits => exact ⟨_, .cons (.call hidle hadmits) (.nil _)⟩
    | @write i p rest store htodo heffect =>
      cases hwrite : P.write p with
      | single f =>
        rw [hwrite] at heffect
        exact ⟨_, .cons (.single htodo hwrite heffect) (.nil _)⟩
      | atomic fs =>
        rw [hwrite] at heffect
        obtain ⟨events, hrun⟩ := run_transaction (P := P) htodo heffect
        exact ⟨_, .cons (.begin htodo hwrite) hrun⟩
    | abandon i => exact ⟨_, .cons (.crash i) (.nil _)⟩

/-- **Statement by statement and write by write** the same states are reached. -/
theorem run_iff : (∃ events, P.sessions.Run ⟨c, none⟩ events ⟨c', none⟩) ↔
    ∃ labels, P.whole.Run c labels c' :=
  ⟨fun ⟨_, hrun⟩ => (run_whole hrun (.closed c)).2, fun ⟨_, hrun⟩ => run_statements hrun⟩

/-! ### What is stored -/

/-- What every whole write keeps holds of what is stored at every moment. -/
theorem stored_invariant {Inv : σ → Prop}
    (kept : ∀ p store store', (P.write p).effect store = some store' → Inv store → Inv store')
    {events : List (SessionEvent ι π)} (hrun : P.sessions.Run s events t) (hs : P.Sound s)
    (h : Inv s.calls.store) : Inv t.calls.store := by
  obtain ⟨-, labels, hwhole⟩ := run_whole hrun hs
  have hstep : ∀ c a c', Inv c.store → P.whole.step c a c' → Inv c'.store := by
    intro c a c' hc hstep
    cases hstep with
    | call hidle hadmits => exact hc
    | write htodo heffect => exact kept _ _ _ heffect hc
    | abandon i => exact hc
  exact hwhole.invariant hstep h

end Program
end Tqt
