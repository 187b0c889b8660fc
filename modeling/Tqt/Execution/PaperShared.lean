import Tqt.Execution.PaperSteps
import Tqt.Foundation.Lts
import Mathlib.Data.List.Permutation

/-! Several paper brokers on one database.

A submit reads, and its transaction writes what follows from the reads; a reset deletes in
one transaction and funds the account again after it. Steps of any number of calls
interleave (`Shared.system`). Where every transaction finds the cash row and the position
as its call read them, the account is that of the calls made one after another
(`serializable`); where one does not, an update in between is lost. -/
namespace Tqt.PaperBroker

/-- A call made on its own, with the quotes and the rate it was answered. -/
inductive Call where
  | submit (pb : PaperBroker) (m : Market) (intent : OrderIntent)
  | reset (starting : Decimal)

/-- The calls one after another; `none` where a submit does not trade. -/
def replay : List Call → Store → Option Store
  | [], st => some st
  | .submit pb m intent :: rest, st =>
    match pb.attempt m intent st with
    | (st', .traded _) => replay rest st'
    | _ => none
  | .reset starting :: rest, st => replay rest (reset starting st)

/-- A submit that has read. -/
structure Reading where
  pb : PaperBroker
  m : Market
  intent : OrderIntent
  pending : PendingSubmit

/-- The quotes, with this rate for the dollar. -/
def atRate (m : Market) (fx : Decimal) : Market := { m with fx := some fx }

/-- The submit on its own, at the rate that it read. -/
def Reading.call (r : Reading) : Call := .submit r.pb (atRate r.m r.pending.trade.fx) r.intent

/-- The submit read what it is about to write. -/
def Reading.Valid (r : Reading) : Prop :=
  ∃ st, (r.pb.prepare r.m r.intent st).2 = .ready r.pending

namespace Shared

/-- The database, the submits that have read, the resets that have deleted, and the calls that
are done, submits that did not return ok left out. -/
structure State where
  store : Store
  reading : List Reading := []
  wiped : List Decimal := []
  done : List Call := []

inductive Event where
  | read (pb : PaperBroker) (m : Market) (intent : OrderIntent)
  | commit (r : Reading)
  | rollback (r : Reading)
  | wipe (starting : Decimal)
  | fund (starting : Decimal)

inductive Steps : State → Event → State → Prop where
  | read {s : State} {pb : PaperBroker} {m : Market} {intent : OrderIntent} {st : Store}
      {p : PendingSubmit} : pb.prepare m intent s.store = (st, .ready p) →
      Steps s (.read pb m intent)
        { s with store := st, reading := s.reading ++ [⟨pb, m, intent, p⟩] }
  | refuse {s : State} {pb : PaperBroker} {m : Market} {intent : OrderIntent} {st : Store}
      {why : String} : pb.prepare m intent s.store = (st, .failed why) →
      Steps s (.read pb m intent) { s with store := st }
  | commit {s : State} {front back : List Reading} {r : Reading} {st : Store} :
      s.reading = front ++ r :: back → PaperBroker.commit r.pending s.store = (st, true) →
      Steps s (.commit r)
        { s with store := st, reading := front ++ back, done := s.done ++ [r.call] }
  | rollback {s : State} {front back : List Reading} {r : Reading} {st : Store} :
      s.reading = front ++ r :: back → PaperBroker.commit r.pending s.store = (st, false) →
      Steps s (.rollback r) { s with store := st, reading := front ++ back }
  | wipe {s : State} (starting : Decimal) :
      Steps s (.wipe starting)
        { s with store := PaperBroker.wipe s.store, wiped := s.wiped ++ [starting] }
  | fund {s : State} {front back : List Decimal} {starting : Decimal} :
      s.wiped = front ++ starting :: back →
      Steps s (.fund starting)
        { s with
          store := ensureCash starting s.store
          wiped := front ++ back
          done := s.done ++ [.reset starting] }

def system : Lts State Event := ⟨Steps⟩

/-- A transaction finds the cash row and the position as its call read them. -/
def Unmoved (s : State) : Event → Prop
  | .commit r => s.store.cash.get? (.paper, .KRW) = some r.pending.cash ∧
      (positions s.store).get? r.pending.trade.symbol = r.pending.held
  | _ => True

/-- The same cash, positions and orders on paper. -/
structure SameAccount (s t : Store) : Prop where
  cash : s.cash.get? (.paper, .KRW) = t.cash.get? (.paper, .KRW)
  positions : ∀ sym, s.positions.get? (.paper, sym) = t.positions.get? (.paper, sym)
  orders : ∀ id, s.orders.get? (.paper, id) = t.orders.get? (.paper, id)

/-! ### What a step does to an account -/

section
variable {s t u : Store}

theorem SameAccount.refl (s : Store) : SameAccount s s := ⟨rfl, fun _ => rfl, fun _ => rfl⟩

theorem SameAccount.trans (h : SameAccount s t) (h' : SameAccount t u) : SameAccount s u :=
  ⟨h.cash.trans h'.cash, fun sym => (h.positions sym).trans (h'.positions sym),
    fun id => (h.orders id).trans (h'.orders id)⟩

theorem SameAccount.symm (h : SameAccount s t) : SameAccount t s :=
  ⟨h.cash.symm, fun sym => (h.positions sym).symm, fun id => (h.orders id).symm⟩

theorem SameAccount.of_ledger (h : SameLedger s t) : SameAccount t s :=
  ⟨by rw [h.cash], fun sym => by rw [h.positions], fun id => by rw [h.orders]⟩

theorem SameAccount.held (h : SameAccount s t) (sym : Symbol) :
    (PaperBroker.positions s).get? sym = (PaperBroker.positions t).get? sym := by
  rw [get?_positions, get?_positions, h.positions]

/-- A transaction writes the same over the same account. -/
theorem SameAccount.write (h : SameAccount s t) (p : PendingSubmit) :
    SameAccount (writePending p s) (writePending p t) := by
  refine ⟨?_, fun sym => ?_, fun id => ?_⟩
  · show (if (s.cash.get? (.paper, .KRW)).isSome then _ else s.cash).get? _ =
      (if (t.cash.get? (.paper, .KRW)).isSome then _ else t.cash).get? _
    rw [h.cash]
    split
    · rw [Dict.get?_insert_self, Dict.get?_insert_self]
    · exact h.cash
  · show (writePosition _ _ _ s).positions.get? _ = (writePosition _ _ _ t).positions.get? _
    unfold writePosition
    simp only
    rw [h.positions]
    split
    · rw [Dict.get?_erase, Dict.get?_erase, h.positions]
    · rw [Dict.get?_insert, Dict.get?_insert, h.positions]
  · show (s.orders.insert _ _).get? _ = (t.orders.insert _ _).get? _
    rw [Dict.get?_insert, Dict.get?_insert, h.orders]

/-! ### A call on its own -/

theorem replay_append (first second : List Call) (st : Store) :
    replay (first ++ second) st = (replay first st).bind (replay second) := by
  induction first generalizing st with
  | nil => rfl
  | cons c rest ih =>
    cases c with
    | submit pb m intent =>
      simp only [List.cons_append, replay]
      split
      · exact ih _
      · rfl
    | reset starting => exact ih _

/-- At its own rate, a submit reads the same wherever the cash and its position are the same. -/
theorem prepare_again {r : Reading} (hr : r.Valid) (hcash : PaperBroker.cash u = r.pending.cash)
    (hheld : (PaperBroker.positions u).get? r.pending.trade.symbol = r.pending.held) :
    ∃ u', r.pb.prepare (atRate r.m r.pending.trade.fx) r.intent u = (u', .ready r.pending) ∧
      SameAccount u' u := by
  obtain ⟨st, hst⟩ := hr
  obtain ⟨-, hintent, hfx, hread, hpaid⟩ := prepare_ready hst
  have hrate : (fxFor (atRate r.m r.pending.trade.fx) r.intent u).2 = r.pending.trade.fx := by
    unfold fxFor at hfx ⊢
    split
    · rfl
    · next hkr =>
      rw [if_neg hkr] at hfx
      exact hfx.symm
  rw [show r.pending.trade.symbol = r.intent.symbol from congrArg OrderIntent.symbol hintent] at hheld
  refine ⟨(fxFor (atRate r.m r.pending.trade.fx) r.intent u).1, ?_,
    SameAccount.of_ledger (fxFor_same _ r.intent u)⟩
  rcases prepare_cases r.pb r.m r.intent st with ⟨hnone, -⟩ | ⟨px, source, hprice, hpx⟩
  · rw [hnone] at hst
    cases hst
  · rw [prepare_priced hprice hpx] at hst
    have hprice' : executionPrice (atRate r.m r.pending.trade.fx) r.intent = (some px, source) := hprice
    rw [prepare_priced hprice' hpx, hrate, ← hst, ← hfx]
    refine congrArg _ (planned_congr ?_ ?_ px source _)
    · rw [(fxFor_read _ r.intent u).2, (fxFor_read r.m r.intent st).2, hcash, hpaid]
    · rw [(fxFor_read _ r.intent u).1, (fxFor_read r.m r.intent st).1, hheld, hread]

/-- **A transaction that finds what its call read** writes what the call would have written on
its own, here and now. -/
theorem replay_commit {r : Reading} (hr : r.Valid)
    (hcash : s.cash.get? (.paper, .KRW) = some r.pending.cash)
    (hheld : (PaperBroker.positions s).get? r.pending.trade.symbol = r.pending.held)
    (hcommit : PaperBroker.commit r.pending s = (t, true)) (hu : SameAccount s u) :
    ∃ u', replay [r.call] u = some u' ∧ SameAccount t u' := by
  have hcash' : PaperBroker.cash u = r.pending.cash := by
    rw [PaperBroker.cash, Dict.getD, ← hu.cash, hcash, Option.getD_some]
  obtain ⟨u', hprepare, hsame⟩ := prepare_again hr hcash' ((hu.held _).symm.trans hheld)
  have hsu' : SameAccount s u' := hu.trans hsame.symm
  have horder : (s.orders.get? (.paper, r.pending.trade.orderId)).isSome = false ∧
      writePending r.pending s = t := by
    unfold PaperBroker.commit at hcommit
    split at hcommit
    · cases hcommit
    · next hfresh =>
      cases hcommit
      exact ⟨by simpa using hfresh, rfl⟩
  refine ⟨writePending r.pending u', ?_, ?_⟩
  · have hattempt := attempt_eq r.pb (atRate r.m r.pending.trade.fx) r.intent u
    rw [hprepare] at hattempt
    simp only [PaperBroker.commit, ← hsu'.orders, horder.1] at hattempt
    simp only [replay, Reading.call, hattempt]
    rfl
  · rw [← horder.2]
    exact hsu'.write r.pending

/-- A second reset leaves nothing of the first. -/
theorem reset_reset (first second : Decimal) (st : Store) :
    reset second (reset first st) = reset second st := by
  have hcash : ∀ d : Dict (BrokerName × Currency) Decimal,
      ((d.filter fun k _ => k.1 ≠ .paper).setDefault (.paper, .KRW) first).filter
        (fun k _ => decide (k.1 ≠ .paper)) = d.filter fun k _ => k.1 ≠ .paper := by
    intro d
    unfold Dict.setDefault
    split
    · exact d.filter_filter _
    · rw [Dict.filter_insert_of_not _ (by simp), Dict.filter_filter]
  simp only [reset, ensureCash, hcash, Dict.filter_filter, List.filter_filter, Bool.and_self]

/-- Funding an account that was wiped resets it. -/
theorem fund_wiped {starting : Decimal} (hcash : s.cash.get? (.paper, .KRW) = none)
    (hpositions : ∀ sym, s.positions.get? (.paper, sym) = none)
    (horders : ∀ id, s.orders.get? (.paper, id) = none) (u : Store) :
    SameAccount (ensureCash starting s) (reset starting u) := by
  refine ⟨?_, fun sym => ?_, fun id => ?_⟩
  · show (s.cash.setDefault _ _).get? _ = ((u.cash.filter _).setDefault _ _).get? _
    rw [Dict.get?_setDefault, Dict.get?_setDefault, Dict.get?_filter, hcash]
    cases u.cash.get? (.paper, .KRW) <;> simp
  · show s.positions.get? _ = (u.positions.filter _).get? _
    rw [Dict.get?_filter, hpositions]
    cases u.positions.get? (.paper, sym) <;> simp
  · show s.orders.get? _ = (u.orders.filter _).get? _
    rw [Dict.get?_filter, horders]
    cases u.orders.get? (.paper, id) <;> simp

end

/-! ### Runs -/

/-- The calls that are done, in an order in which they can be made one after another. While
the cash row is there, the account is what they leave; while a reset has deleted it, the
account is empty. A reset that others have funded for goes before any of them. -/
structure Serial (s₀ : Store) (s : State) (serial : List Call) (u : Store) : Prop where
  perm : serial.Perm s.done
  replayed : replay serial s₀ = some u
  valid : ∀ r ∈ s.reading, r.Valid
  account : (s.store.cash.get? (.paper, .KRW)).isSome = true → SameAccount s.store u
  empty : s.store.cash.get? (.paper, .KRW) = none → s.wiped ≠ [] ∧
    (∀ sym, s.store.positions.get? (.paper, sym) = none) ∧
      ∀ id, s.store.orders.get? (.paper, id) = none
  covered : (s.store.cash.get? (.paper, .KRW)).isSome = true → s.wiped ≠ [] →
    ∃ starting, .reset starting ∈ serial

section
variable {s₀ u : Store} {s t : State} {serial : List Call}

/-- The store changes in nothing but the rate, and readings come and go. -/
theorem Serial.keep (h : Serial s₀ s serial u) {st : Store} (hsame : SameLedger s.store st)
    {reading : List Reading} (hreading : ∀ r ∈ reading, r.Valid) :
    Serial s₀ { s with store := st, reading := reading } serial u := by
  refine ⟨h.perm, h.replayed, hreading, fun hcash => ?_, fun hcash => ?_, fun hcash => ?_⟩
  · rw [show st.cash = s.store.cash from hsame.cash] at hcash
    exact (SameAccount.of_ledger hsame).trans (h.account hcash)
  · rw [show st.cash = s.store.cash from hsame.cash] at hcash
    obtain ⟨hwiped, hpositions, horders⟩ := h.empty hcash
    refine ⟨hwiped, ?_, ?_⟩
    · rw [show st.positions = s.store.positions from hsame.positions]
      exact hpositions
    · rw [show st.orders = s.store.orders from hsame.orders]
      exact horders
  · rw [show st.cash = s.store.cash from hsame.cash] at hcash
    exact h.covered hcash

theorem Serial.valid_rest (h : Serial s₀ s serial u) {front back : List Reading} {r : Reading}
    (hreading : s.reading = front ++ r :: back) : r.Valid ∧ ∀ r' ∈ front ++ back, r'.Valid := by
  have hall := h.valid
  rw [hreading] at hall
  refine ⟨hall r (by simp), fun r' hr' => hall r' ?_⟩
  rcases List.mem_append.mp hr' with hr' | hr'
  · exact List.mem_append_left _ hr'
  · exact List.mem_append_right _ (List.mem_cons_of_mem r hr')

theorem cash_writePending (p : PendingSubmit) (st : Store) :
    ((writePending p st).cash.get? (.paper, .KRW)).isSome =
      (st.cash.get? (.paper, .KRW)).isSome := by
  show ((if (st.cash.get? (.paper, .KRW)).isSome then _ else st.cash).get? _).isSome = _
  split
  · next hcash => rw [Dict.get?_insert_self, hcash]; rfl
  · rfl

theorem Serial.commit (h : Serial s₀ s serial u) {front back : List Reading} {r : Reading} {st : Store}
    (hunmoved : Unmoved s (.commit r)) (hreading : s.reading = front ++ r :: back)
    (hcommit : PaperBroker.commit r.pending s.store = (st, true)) :
    ∃ u', Serial s₀ { s with store := st, reading := front ++ back, done := s.done ++ [r.call] }
      (serial ++ [r.call]) u' := by
  obtain ⟨hcash, hheld⟩ := hunmoved
  obtain ⟨hvalid, hrest⟩ := h.valid_rest hreading
  have hsome : (s.store.cash.get? (.paper, .KRW)).isSome = true := by rw [hcash]; rfl
  obtain ⟨u', hreplay, hsame⟩ := replay_commit hvalid hcash hheld hcommit (h.account hsome)
  have hsome' : (st.cash.get? (.paper, .KRW)).isSome = true := by
    unfold PaperBroker.commit at hcommit
    split at hcommit
    · cases hcommit
    · cases hcommit
      rw [cash_writePending, hsome]
  refine ⟨u', h.perm.append_right _, ?_, hrest, fun _ => hsame, fun hnone => ?_, fun _ hwiped => ?_⟩
  · rw [replay_append, h.replayed, Option.bind_some, hreplay]
  · rw [show st.cash.get? (.paper, .KRW) = none from hnone] at hsome'
    cases hsome'
  · obtain ⟨starting, hmem⟩ := h.covered hsome hwiped
    exact ⟨starting, List.mem_append_left _ hmem⟩

theorem Serial.wipe (h : Serial s₀ s serial u) (starting : Decimal) :
    Serial s₀ { s with store := PaperBroker.wipe s.store, wiped := s.wiped ++ [starting] } serial u := by
  have hcash : (PaperBroker.wipe s.store).cash.get? (.paper, .KRW) = none := by
    show (s.store.cash.filter _).get? _ = none
    rw [Dict.get?_filter]
    cases s.store.cash.get? (.paper, .KRW) <;> simp
  refine ⟨h.perm, h.replayed, h.valid, fun hsome => ?_, fun _ => ⟨by simp, fun sym => ?_, fun id => ?_⟩,
    fun hsome => ?_⟩
  · rw [hcash] at hsome
    cases hsome
  · show (s.store.positions.filter _).get? _ = none
    rw [Dict.get?_filter]
    cases s.store.positions.get? (.paper, sym) <;> simp
  · show (s.store.orders.filter _).get? _ = none
    rw [Dict.get?_filter]
    cases s.store.orders.get? (.paper, id) <;> simp
  · rw [hcash] at hsome
    cases hsome

/-- A reset that finds the account funded took place before one that is done. -/
theorem replay_covered {starting other : Decimal} {front back : List Call} :
    replay (front ++ .reset starting :: .reset other :: back) s₀ =
      replay (front ++ .reset other :: back) s₀ := by
  rw [replay_append, replay_append]
  congr 1
  funext st
  show replay back (reset other (reset starting st)) = replay back (reset other st)
  rw [reset_reset]

theorem Serial.fund (h : Serial s₀ s serial u) {front back : List Decimal} {starting : Decimal}
    (hwiped : s.wiped = front ++ starting :: back) :
    ∃ serial' u', Serial s₀
      { s with store := ensureCash starting s.store, wiped := front ++ back,
               done := s.done ++ [.reset starting] } serial' u' := by
  have hne : s.wiped ≠ [] := by simp [hwiped]
  cases hcash : s.store.cash.get? (.paper, .KRW) with
  | none =>
    obtain ⟨-, hpositions, horders⟩ := h.empty hcash
    have hsome : ((ensureCash starting s.store).cash.get? (.paper, .KRW)).isSome = true := by
      show ((s.store.cash.setDefault _ _).get? _).isSome = true
      rw [Dict.get?_setDefault, if_pos rfl]
      rfl
    refine ⟨serial ++ [.reset starting], reset starting u, h.perm.append_right _, ?_, h.valid,
      fun _ => fund_wiped hcash hpositions horders u, fun hnone => ?_, fun _ _ => ⟨starting, by simp⟩⟩
    · rw [replay_append, h.replayed]
      rfl
    · rw [show (ensureCash starting s.store).cash.get? (.paper, .KRW) = none from hnone] at hsome
      cases hsome
  | some amount =>
    have hsome : (s.store.cash.get? (.paper, .KRW)).isSome = true := by rw [hcash]; rfl
    have hfunded : ensureCash starting s.store = s.store := by
      unfold ensureCash Dict.setDefault
      rw [if_pos hsome]
    obtain ⟨other, hmem⟩ := h.covered hsome hne
    obtain ⟨before, after, rfl⟩ := List.append_of_mem hmem
    refine ⟨before ++ .reset starting :: .reset other :: after, u, ?_, ?_, h.valid, ?_, ?_, ?_⟩
    · exact List.perm_middle.trans
        ((List.perm_append_singleton _ _).symm.trans (h.perm.append_right _))
    · rw [replay_covered, h.replayed]
    · intro _
      show SameAccount (ensureCash starting s.store) u
      rw [hfunded]
      exact h.account hsome
    · intro hnone
      have hnone' : (ensureCash starting s.store).cash.get? (.paper, .KRW) = none := hnone
      rw [hfunded, hcash] at hnone'
      cases hnone'
    · intro _ _
      exact ⟨other, by simp⟩

/-- **One step** leaves an account that calls one after another leave. -/
theorem Serial.step {a : Event} (h : Serial s₀ s serial u)
    (hstep : (system.restrict Unmoved).step s a t) : ∃ serial' u', Serial s₀ t serial' u' := by
  obtain ⟨hunmoved, hstep⟩ := hstep
  cases hstep with
  | @read pb m intent st p hprepare =>
    refine ⟨serial, u, h.keep ?_ ?_⟩
    · have hsame := prepare_same pb m intent s.store
      rwa [hprepare] at hsame
    · intro r hr
      rcases List.mem_append.mp hr with hr | hr
      · exact h.valid r hr
      · rw [List.mem_singleton.mp hr]
        exact ⟨s.store, by rw [hprepare]⟩
  | @refuse pb m intent st why hprepare =>
    have hsame := prepare_same pb m intent s.store
    rw [hprepare] at hsame
    exact ⟨serial, u, h.keep hsame h.valid⟩
  | @commit front back r st hreading hcommit =>
    exact ⟨_, h.commit hunmoved hreading hcommit⟩
  | @rollback front back r st hreading hcommit =>
    have hst : st = s.store := by
      unfold PaperBroker.commit at hcommit
      split at hcommit <;> cases hcommit
      rfl
    rw [hst]
    exact ⟨serial, u, h.keep ⟨rfl, rfl, rfl, rfl⟩ (h.valid_rest hreading).2⟩
  | wipe starting => exact ⟨serial, u, h.wipe starting⟩
  | fund hwiped => exact h.fund hwiped

/-- An account that is funded, and no call on its way. -/
theorem Serial.start (hfunded : (s₀.cash.get? (.paper, .KRW)).isSome = true) :
    Serial s₀ ⟨s₀, [], [], []⟩ [] s₀ := by
  refine ⟨List.Perm.refl _, rfl, fun r hr => absurd hr List.not_mem_nil, fun _ => .refl s₀,
    fun hnone => ?_, fun _ hne => absurd rfl hne⟩
  rw [show s₀.cash.get? (.paper, .KRW) = none from hnone] at hfunded
  cases hfunded

end

/-- **No update is lost** in a run whose transactions all find the cash row and the position as
their calls read them: when every reset is over, cash, positions and orders are those of the
calls that are done, made one after another in some order. -/
theorem serializable {s₀ : Store} (hfunded : (s₀.cash.get? (.paper, .KRW)).isSome = true)
    {events : List Event} {t : State} (hrun : (system.restrict Unmoved).Run ⟨s₀, [], [], []⟩ events t)
    (hover : t.wiped = []) :
    ∃ serial u, serial.Perm t.done ∧ replay serial s₀ = some u ∧ SameAccount t.store u := by
  have hstart : ∃ serial u, Serial s₀ ⟨s₀, [], [], []⟩ serial u := ⟨[], s₀, .start hfunded⟩
  obtain ⟨serial, u, h⟩ := Lts.Run.invariant
    (fun s a t (hs : ∃ serial u, Serial s₀ s serial u) hstep => by
      obtain ⟨serial, u, h⟩ := hs
      exact h.step hstep) hrun hstart
  refine ⟨serial, u, h.perm, h.replayed, h.account ?_⟩
  cases hcash : t.store.cash.get? (.paper, .KRW) with
  | some amount => rfl
  | none => exact absurd hover (h.empty hcash).1

/-! ### Two buys -/

def funded : Store := PaperBroker.reset 1000000 {}

/-- A buy at 10,000 KRW that has read the funded account. -/
def buying (qty : Decimal) (orderId : String) : Reading where
  pb := {}
  m := quoted 10000 orderId
  intent := marketOrder .BUY qty
  pending :=
    { trade := tradeOf {} (quoted 10000 orderId) (marketOrder .BUY qty) 10000 "book" 1 qty
      held := none
      cash := 1000000 }

theorem prepare_buying {qty : Decimal} {orderId : String}
    (hsize : sizeOf (marketOrder .BUY qty) 10000 none = .ok qty)
    (hcash : (buying qty orderId).pending.trade.grossKrw + (buying qty orderId).pending.trade.costKrw ≤
      1000000) :
    ({} : PaperBroker).prepare (quoted 10000 orderId) (marketOrder .BUY qty) funded =
      (funded, .ready (buying qty orderId).pending) := by
  have hprice : executionPrice (quoted 10000 orderId) (marketOrder .BUY qty) = (some 10000, "book") := by
    rfl
  rw [prepare_priced hprice (by norm_num)]
  have hkr : ¬ countryOf (marketOrder .BUY qty).symbol = .US :=
    show ¬ countryOf "069500" = .US by decide
  rw [fxFor, if_neg hkr]
  have hheld : (positions funded).get? (marketOrder .BUY qty).symbol = none := rfl
  have hread : PaperBroker.cash funded = 1000000 := rfl
  unfold planned
  simp only [hheld, hsize]
  rw [if_neg fun hpoor => absurd hpoor.2 (not_lt.mpr (hcash.trans_eq hread.symm)), hread]
  rfl

theorem prepare_ten : ({} : PaperBroker).prepare (quoted 10000 "paper-1") (marketOrder .BUY 10) funded =
    (funded, .ready (buying 10 "paper-1").pending) :=
  prepare_buying (by decide +kernel) (by decide +kernel)

theorem prepare_twenty :
    ({} : PaperBroker).prepare (quoted 10000 "paper-2") (marketOrder .BUY 20) funded =
      (funded, .ready (buying 20 "paper-2").pending) :=
  prepare_buying (by decide +kernel) (by decide +kernel)

theorem commit_fresh (p : PendingSubmit) (st : Store)
    (h : (st.orders.get? (.paper, p.trade.orderId)).isSome = false) :
    PaperBroker.commit p st = (writePending p st, true) := by
  rw [PaperBroker.commit, if_neg (by simp [h])]

/-- Between the reads of a buy and its transaction the account is reset to the same amount. -/
theorem serializable_buy_reset :
    ∃ t, (system.restrict Unmoved).Run ⟨funded, [], [], []⟩
        [.read {} (quoted 10000 "paper-1") (marketOrder .BUY 10), .wipe 1000000, .fund 1000000,
          .commit (buying 10 "paper-1")] t ∧ t.wiped = [] ∧
      ∃ serial u, serial.Perm t.done ∧ replay serial funded = some u ∧ SameAccount t.store u := by
  let again : Store := ensureCash 1000000 (PaperBroker.wipe funded)
  have hunmoved : Unmoved ⟨again, [buying 10 "paper-1"], [], [.reset 1000000]⟩
      (.commit (buying 10 "paper-1")) := ⟨rfl, rfl⟩
  have hcommit := commit_fresh (buying 10 "paper-1").pending again (by decide +kernel)
  have hrun : (system.restrict Unmoved).Run ⟨funded, [], [], []⟩
      [.read {} (quoted 10000 "paper-1") (marketOrder .BUY 10), .wipe 1000000, .fund 1000000,
        .commit (buying 10 "paper-1")] _ :=
    .cons ⟨trivial, .read prepare_ten⟩ (.cons ⟨trivial, .wipe 1000000⟩
      (.cons ⟨trivial, @Steps.fund _ [] [] _ rfl⟩
        (.cons ⟨hunmoved, @Steps.commit _ [] [] _ _ rfl hcommit⟩ (.nil _))))
  exact ⟨_, hrun, rfl, serializable rfl hrun rfl⟩

/-- Both buys read before either transaction: the second one overwrites the first. The account
ends with twenty shares, and either order of the two with thirty. -/
theorem buy_lost :
    ∃ t, system.Run ⟨funded, [], [], []⟩
        [.read {} (quoted 10000 "paper-1") (marketOrder .BUY 10),
          .read {} (quoted 10000 "paper-2") (marketOrder .BUY 20),
          .commit (buying 10 "paper-1"), .commit (buying 20 "paper-2")] t ∧ t.wiped = [] ∧
      ¬ ∃ serial u, serial.Perm t.done ∧ replay serial funded = some u ∧
        (t.store.cash.get? (.paper, .KRW) = u.cash.get? (.paper, .KRW) ∧
          ∀ sym, t.store.positions.get? (.paper, sym) = u.positions.get? (.paper, sym)) := by
  have hfirst := commit_fresh (buying 10 "paper-1").pending funded (by decide +kernel)
  have hsecond := commit_fresh (buying 20 "paper-2").pending
    (writePending (buying 10 "paper-1").pending funded) (by decide +kernel)
  refine ⟨_, .cons (.read prepare_ten) (.cons (.read prepare_twenty)
    (.cons (@Steps.commit _ [] [buying 20 "paper-2"] _ _ rfl hfirst)
      (.cons (@Steps.commit _ [] [] _ _ rfl hsecond) (.nil _)))), rfl, ?_⟩
  rintro ⟨serial, u, hperm, hreplay, -, hpositions⟩
  have hlost : quantityOf (writePending (buying 20 "paper-2").pending
      (writePending (buying 10 "paper-1").pending funded)) "069500" = 20 := by decide +kernel
  have hu : quantityOf u "069500" = 20 := by
    have hrow := hpositions "069500"
    rw [← hlost, quantityOf, quantityOf, ← hrow]
  have hthirty : (replay serial funded).map (fun st => quantityOf st "069500") = some 30 := by
    rcases List.perm_pair.mp hperm with rfl | rfl <;> decide +kernel
  rw [hreplay, Option.map_some, hu] at hthirty
  revert hthirty
  decide +kernel

end Shared
end Tqt.PaperBroker
