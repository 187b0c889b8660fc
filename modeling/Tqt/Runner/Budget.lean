import Tqt.Runner.Duplicates

/-! The order budget.

`check_order` counts the day's rows before the order is sent, and the broker stamps its row
when it writes it, maybe after midnight. What makes the count a bound is the lock: from a
check to its submission nothing else submits, and no row is stamped ahead of the clock, so
a new day starts with none (`Budgeted`). Both brokers record one row a submission at most
(`Clerk`). -/
namespace Tqt.Runner

/-- When the row of a key was submitted, if there is one. -/
def stamp (st : Store) (key : BrokerName × String) : Option Instant :=
  (st.orders.get? key).map OrderRow.submittedAt

/-- The keys of a broker's rows that were submitted on a UTC date. -/
def recorded (st : Store) (broker : BrokerName) (day : Date) : List (BrokerName × String) :=
  (st.orders.entries.filter fun e => e.1.1 = broker ∧ e.2.submittedAt.date = day).map Prod.fst

/-- No row comes, goes or is stamped anew. -/
def SameStamps (st st' : Store) : Prop := ∀ key, stamp st' key = stamp st key

/-- At most one row is stamped, with the time `now`. -/
def StampsOne (broker : BrokerName) (now : Instant) (st st' : Store) : Prop :=
  ∃ id, (∀ key, key ≠ (broker, id) → stamp st' key = stamp st key) ∧
    (stamp st' (broker, id) = stamp st (broker, id) ∨ stamp st' (broker, id) = some now)

/-- How a broker keeps the orders table. -/
structure Clerk {β : Type} (B : BrokerModel β) : Prop where
  snapshot : ∀ {b st snap st'}, B.snapshot b st snap st' → SameStamps st st'
  submit : ∀ {b st now intent b' st' result},
    B.submit b st now intent b' st' result → StampsOne B.name now st st'

/-! ### Counting rows -/

section
variable {st st' : Store} {broker : BrokerName} {day : Date}

theorem ordersToday_eq (rm : RiskManager) (st : Store) (now : Instant) :
    rm.ordersToday st now = (recorded st rm.brokerName now.date).length := by
  rw [recorded, List.length_map]
  rfl

theorem mem_recorded (key : BrokerName × String) :
    key ∈ recorded st broker day ↔ key.1 = broker ∧ ∃ t, stamp st key = some t ∧ t.date = day := by
  simp only [recorded, stamp, List.mem_map, List.mem_filter, decide_eq_true_eq, Option.map_eq_some_iff]
  constructor
  · intro h
    obtain ⟨⟨key', row⟩, ⟨hmem, hbroker, hday⟩, rfl⟩ := h
    exact ⟨hbroker, _, ⟨row, (Dict.get?_eq_some _ _ _).mpr hmem, rfl⟩, hday⟩
  · intro h
    obtain ⟨hbroker, _, ⟨row, hget, rfl⟩, hday⟩ := h
    exact ⟨(key, row), ⟨(Dict.get?_eq_some _ _ _).mp hget, hbroker, hday⟩, rfl⟩

theorem recorded_nodup (st : Store) (broker : BrokerName) (day : Date) :
    (recorded st broker day).Nodup :=
  st.orders.nodup.sublist (List.filter_sublist.map Prod.fst)

theorem SameStamps.recorded_le (h : SameStamps st st') (broker : BrokerName) (day : Date) :
    (recorded st' broker day).length ≤ (recorded st broker day).length := by
  refine (List.subperm_of_subset (recorded_nodup st' broker day) fun key hkey => ?_).length_le
  rw [mem_recorded] at hkey ⊢
  rw [← h key]
  exact hkey

/-- A submission adds a row at most, and to the day of its stamp. -/
theorem StampsOne.recorded_le {now : Instant} (h : StampsOne broker now st st') (day : Date) :
    (recorded st' broker day).length ≤
      (recorded st broker day).length + if day = now.date then 1 else 0 := by
  obtain ⟨id, hother, hown⟩ := h
  have hold : ∀ key ∈ recorded st' broker day,
      key ∈ recorded st broker day ∨ key = (broker, id) ∧ day = now.date := by
    intro key hkey
    rw [mem_recorded] at hkey ⊢
    obtain ⟨hbroker, t, hstamp, hdate⟩ := hkey
    by_cases hkey : key = (broker, id)
    · subst hkey
      rcases hown with hsame | hnow
      · exact .inl ⟨hbroker, t, hsame ▸ hstamp, hdate⟩
      · rw [hnow] at hstamp
        cases hstamp
        exact .inr ⟨rfl, hdate.symm⟩
    · exact .inl ⟨hbroker, t, hother key hkey ▸ hstamp, hdate⟩
  have hnodup := recorded_nodup st' broker day
  by_cases hday : day = now.date
  · rw [if_pos hday, ← List.length_cons (a := (broker, id))]
    refine (List.subperm_of_subset hnodup fun key hkey => ?_).length_le
    rcases hold key hkey with hk | ⟨rfl, -⟩
    · exact List.mem_cons_of_mem _ hk
    · exact List.mem_cons_self ..
  · rw [if_neg hday, add_zero]
    refine (List.subperm_of_subset hnodup fun key hkey => ?_).length_le
    rcases hold key hkey with hk | ⟨-, hd⟩
    · exact hk
    · exact absurd hd hday

end

theorem sameStamps_of_orders {st st' : Store} (h : st'.orders = st.orders) : SameStamps st st' := by
  intro key
  rw [stamp, h, stamp]

/-! ### The run -/

/-- The steps, where other writes to the store leave the stamps of the orders alone. -/
def ledgerSystem {β : Type} (B : BrokerModel β) : Lts (System β) Step :=
  ⟨fun s a t => Steps B s a t ∧ (a = .write → SameStamps s.store t.store)⟩

/-- A check has passed and the order is still to be recorded. -/
def Phase.cleared : Phase → Prop
  | .submitting .. => True
  | .waiting .. => True
  | _ => False

/-- The limit; a negative one admits as many orders as zero does. -/
def limitOf (settings : Settings) : ℤ := max settings.maxOrdersPerDay 0

/-- The budget is kept, and there is room for an order that has been cleared. -/
structure Budgeted {β : Type} (B : BrokerModel β) (settings : Settings) (s : System β) : Prop where
  settings_eq : s.risk.settings = settings
  broker_eq : s.risk.brokerName = B.name
  past : ∀ id t, stamp s.store (B.name, id) = some t → t ≤ s.now
  kept : ∀ day, ((recorded s.store B.name day).length : ℤ) ≤ limitOf settings
  room : s.phase.cleared →
    ((recorded s.store B.name s.now.date).length : ℤ) < settings.maxOrdersPerDay

section
variable {β : Type} {B : BrokerModel β} {settings : Settings}

/-- Nothing about the orders changes, and no order is cleared. -/
theorem Budgeted.same {s t : System β} (h : Budgeted B settings s)
    (hsame : SameStamps s.store t.store) (hsettings : t.risk.settings = s.risk.settings)
    (hbroker : t.risk.brokerName = s.risk.brokerName) (hnow : t.now = s.now)
    (hphase : t.phase.cleared → s.phase.cleared) : Budgeted B settings t := by
  refine ⟨hsettings.trans h.settings_eq, hbroker.trans h.broker_eq, ?_, ?_, ?_⟩
  · intro id time hstamp
    rw [hsame] at hstamp
    rw [hnow]
    exact h.past id time hstamp
  · intro day
    have := hsame.recorded_le B.name day
    have := h.kept day
    omega
  · intro hcleared
    have := hsame.recorded_le B.name s.now.date
    have := h.room (hphase hcleared)
    rw [hnow]
    omega

/-- A day that has not begun has no rows. -/
theorem recorded_later {s : System β} {later : Instant} (h : Budgeted B settings s)
    (hlater : s.now ≤ later) (hday : later.date ≠ s.now.date) :
    recorded s.store B.name later.date = [] := by
  rw [List.eq_nil_iff_forall_not_mem]
  intro key hkey
  obtain ⟨hbroker, t, hstamp, hdate⟩ := (mem_recorded key).mp hkey
  obtain ⟨broker, id⟩ := key
  simp only at hbroker
  subst hbroker
  have hpast := h.past id t hstamp
  rw [Instant.le_iff] at hpast hlater
  have hbefore : t.date ≤ s.now.date := hpast.elim le_of_lt fun he => he.1.le
  have hafter : s.now.date ≤ later.date := hlater.elim le_of_lt fun he => he.1.le
  rw [hdate] at hbefore
  exact hday (le_antisymm hbefore hafter)

/-- An order that passes its check has room. -/
theorem room_of_allow {rm rm' : RiskManager} {st : Store} {now : Instant} {snap : AccountSnapshot}
    {ask : Symbol → Option (List String)} {intent : OrderIntent} {price : Option Decimal}
    (h : rm.checkOrder st now snap ask intent price = (rm', .allow)) :
    ((recorded st rm.brokerName now.date).length : ℤ) < rm.settings.maxOrdersPerDay := by
  unfold RiskManager.checkOrder at h
  split at h
  · cases h
  · split at h
    · cases h
    · next hbudget =>
      rw [RiskManager.remainingOrderBudget, ordersToday_eq] at hbudget
      omega

/-- A check keeps the settings and the broker's name. -/
theorem checkOrder_settings {rm rm' : RiskManager} {st : Store} {now : Instant}
    {snap : AccountSnapshot} {ask : Symbol → Option (List String)} {intent : OrderIntent}
    {price : Option Decimal} {verdict : Verdict}
    (h : rm.checkOrder st now snap ask intent price = (rm', verdict)) :
    rm'.settings = rm.settings ∧ rm'.brokerName = rm.brokerName := by
  have hclear := rm.clearCache_checkOrder st now snap ask intent price
  rw [h] at hclear
  have hsettings := congrArg RiskManager.settings hclear
  have hbroker := congrArg RiskManager.brokerName hclear
  exact ⟨hsettings, hbroker⟩

/-- The gate leaves the orders alone. -/
theorem checkCycle_orders {rm : RiskManager} {st st' : Store} {now : Instant}
    {snap : AccountSnapshot} {verdict : Verdict} (h : rm.checkCycle st now snap = (st', verdict)) :
    st'.orders = st.orders := by
  rcases rm.checkCycle_cases st now snap with ⟨heq, -⟩ | ⟨st₁, why, heq, switch, rfl, -⟩
  · rw [h] at heq
    cases heq
    rfl
  · rw [h] at heq
    cases heq
    rfl

/-- The order a check made room for is recorded. -/
theorem Budgeted.record {s t : System β} (h : Budgeted B settings s) (hcleared : s.phase.cleared)
    (hone : StampsOne B.name s.now s.store t.store) (hrisk : t.risk = s.risk) (hnow : t.now = s.now)
    (hphase : ¬ t.phase.cleared) : Budgeted B settings t := by
  have hroom := h.room hcleared
  refine ⟨hrisk ▸ h.settings_eq, hrisk ▸ h.broker_eq, ?_, ?_, fun hc => absurd hc hphase⟩
  · intro id time hstamp
    rw [hnow]
    obtain ⟨id', hother, hown⟩ := hone
    by_cases hid : id = id'
    · subst hid
      rcases hown with hsame | hstamped
      · exact h.past id time (hsame ▸ hstamp)
      · rw [hstamped] at hstamp
        cases hstamp
        exact le_rfl
    · refine h.past id time ?_
      rw [← hother _ fun heq => hid (Prod.mk.inj heq).2]
      exact hstamp
  · intro day
    have hadd := hone.recorded_le day
    have hkept := h.kept day
    unfold limitOf at hkept ⊢
    by_cases hday : day = s.now.date
    · subst hday
      rw [if_pos rfl] at hadd
      omega
    · rw [if_neg hday] at hadd
      omega

/-- The clock moves: a new day has all of its budget. -/
theorem Budgeted.later {s : System β} {now : Instant} (h : Budgeted B settings s)
    (hlater : s.now ≤ now) : Budgeted B settings { s with now := now } := by
  refine ⟨h.settings_eq, h.broker_eq, fun id t hstamp => (h.past id t hstamp).trans hlater, h.kept, ?_⟩
  intro hcleared
  have hroom := h.room hcleared
  show ((recorded s.store B.name now.date).length : ℤ) < _
  by_cases hday : now.date = s.now.date
  · rw [hday]
    exact hroom
  · rw [recorded_later h hlater hday, List.length_nil]
    omega

/-- **One step** keeps the budget. -/
theorem Budgeted.step {s t : System β} {a : Step} (hB : Clerk B) (h : Budgeted B settings s)
    (hstep : (ledgerSystem B).step s a t) : Budgeted B settings t := by
  obtain ⟨hstep, hwrite⟩ := hstep
  cases hstep with
  | begin hphase hsnap => exact h.same (fun key => hB.snapshot hsnap key) rfl rfl rfl nofun
  | @gate snap st verdict hphase hcheck =>
    refine h.same (sameStamps_of_orders (checkCycle_orders hcheck)) rfl rfl rfl ?_
    intro hcleared
    by_cases hallow : verdict = .allow <;> simp [hallow, Phase.cleared] at hcleared
  | skip hphase => exact h.same (fun _ => rfl) rfl rfl rfl nofun
  | plan _ _ _ hphase => exact h.same (fun _ => rfl) rfl rfl rfl nofun
  | @check snap intent price rest risk verdict ask hphase hcheck =>
    obtain ⟨hsettings, hbroker⟩ := checkOrder_settings hcheck
    refine ⟨hsettings.trans h.settings_eq, hbroker.trans h.broker_eq, h.past, h.kept, ?_⟩
    intro hcleared
    by_cases hallow : verdict = .allow
    · rw [hallow] at hcheck
      have hroom := room_of_allow hcheck
      rw [h.broker_eq, h.settings_eq] at hroom
      exact hroom
    · simp [hallow, Phase.cleared] at hcleared
  | submit hphase => exact h.same (fun _ => rfl) rfl rfl rfl fun _ => hphase ▸ trivial
  | @answer snap intent rest b st result hphase hsub =>
    refine h.record (hphase ▸ trivial) (hB.submit hsub) rfl rfl fun hcleared => ?_
    by_cases hfilled : result.ok ∧ 0 < result.filledQuantity <;>
      simp [hfilled, Phase.cleared] at hcleared
  | refresh hphase hsnap => exact h.same (hB.snapshot hsnap) rfl rfl rfl nofun
  | finish hphase => exact h.same (fun _ => rfl) rfl rfl rfl nofun
  | abort => exact h.same (fun _ => rfl) rfl rfl rfl nofun
  | halt reason => exact h.same (fun _ => rfl) rfl rfl rfl id
  | resume => exact h.same (fun _ => rfl) rfl rfl rfl id
  | tick hlater => exact h.later hlater
  | exchange _ => exact h.same (fun _ => rfl) rfl rfl rfl id
  | write _ => exact h.same (hwrite rfl) rfl rfl rfl id

end

/-- A store without orders, and no cycle under way. -/
theorem Budgeted.start {β : Type} {B : BrokerModel β} {settings : Settings} {s : System β}
    (hsettings : s.risk.settings = settings) (hbroker : s.risk.brokerName = B.name)
    (horders : s.store.orders = ∅) (hphase : s.phase = .idle) : Budgeted B settings s := by
  refine ⟨hsettings, hbroker, ?_, ?_, fun hcleared => absurd hcleared (by simp [hphase, Phase.cleared])⟩
  · intro id t hstamp
    rw [stamp, horders] at hstamp
    cases hstamp
  · intro day
    rw [recorded, horders]
    exact le_max_right _ _

/-- A run without other writes. -/
theorem ledger_run {β : Type} {B : BrokerModel β} {s t : System β} {steps : List Step}
    (hrun : (cycleSystem B).Run s steps t) (hwrite : .write ∉ steps) :
    (ledgerSystem B).Run s steps t := by
  induction hrun with
  | nil s => exact .nil s
  | cons hstep _ ih =>
    rw [List.mem_cons, not_or] at hwrite
    exact .cons ⟨hstep, fun h => absurd h.symm hwrite.1⟩ (ih hwrite.2)

/-! ### The two brokers -/

/-- Writing one row. -/
theorem StampsOne.of_insert {st st' : Store} {broker : BrokerName} {id : String} {row : OrderRow}
    {now : Instant} (horders : st'.orders = st.orders.insert (broker, id) row)
    (hrow : row.submittedAt = now) : StampsOne broker now st st' := by
  refine ⟨id, ?_, .inr ?_⟩
  · intro key hkey
    rw [stamp, horders, Dict.get?_insert_of_ne _ _ hkey, stamp]
  · rw [stamp, horders, Dict.get?_insert_self, Option.map_some, hrow]

theorem StampsOne.of_same {st st' : Store} {broker : BrokerName} {now : Instant}
    (h : SameStamps st st') : StampsOne broker now st st' :=
  ⟨"", fun key _ => h key, .inl (h _)⟩

theorem StampsOne.trans_same {st st' st'' : Store} {broker : BrokerName} {now : Instant}
    (h : StampsOne broker now st st') (h' : SameStamps st' st'') : StampsOne broker now st st'' := by
  obtain ⟨id, hother, hown⟩ := h
  exact ⟨id, fun key hkey => (h' key).trans (hother key hkey),
    hown.imp (fun hsame => (h' _).trans hsame) fun hnow => (h' _).trans hnow⟩

theorem paper_clerk (pb : PaperBroker) : Clerk (paperModel pb) where
  snapshot := by
    intro _ st snap st' h
    obtain ⟨m, marks, h⟩ := h
    cases h
    apply sameStamps_of_orders
    unfold PaperBroker.refreshFx
    split <;> rfl
  submit := by
    intro _ st now intent _ st' result h
    obtain ⟨m, rfl, h⟩ := h
    have hrate := (PaperBroker.fxFor_same m intent st).orders
    have hcases := pb.attempt_cases m intent st rfl
    unfold PaperBroker.submit at h
    generalize pb.attempt m intent st = outcome at h hcases
    rcases hcases with hidle | ⟨t, hfeasible, rfl⟩
    · have hsame : SameStamps st outcome.1 := sameStamps_of_orders hidle.same.orders
      rcases outcome with ⟨st₁, why | _ | t⟩
      · cases h
        exact .of_same hsame
      · cases h
      · exact absurd rfl (hidle.untraded t)
    · cases h
      obtain ⟨px, source, qty, rfl⟩ := hfeasible.made
      generalize hmade : PaperBroker.tradeOf pb m intent px source _ qty = t
      have hstamp : t.orderRow.submittedAt = m.now := hmade ▸ rfl
      have horders : (PaperBroker.book t (PaperBroker.fxFor m intent st).1).orders =
          st.orders.insert (.paper, t.orderId) t.orderRow := by
        rw [← hrate]
        rfl
      exact .of_insert horders hstamp

/-- What became of an order is written over its row, the stamp apart. -/
theorem recordFinal_stamps (intent : OrderIntent) (final : Order) (now : Instant) (st : Store) :
    SameStamps st (LiveBroker.recordFinal intent final now st) := by
  intro key
  rw [stamp, LiveBroker.get?_recordFinal, stamp]
  split
  · rw [Option.map_map]
    rfl
  · rfl

theorem live_clerk (b : LiveBroker) (maxRetries : ℕ) (fx : Decimal) :
    Clerk (liveModel b maxRetries fx) where
  snapshot := by
    intro _ st snap st' h
    exact sameStamps_of_orders (congrArg Store.orders h.1)
  submit := by
    intro _ st now intent _ st' result h
    obtain ⟨uuid, sellable, polls, net, id, -, h, -⟩ := h
    rcases b.submit_cases maxRetries st now intent uuid (answers sellable polls net) with
      ⟨_, -, hcall⟩ | ⟨sent, -, ⟨_, -, hcall⟩ | ⟨_, -, hcall⟩ | ⟨ack, result', st₁, -, hsettle, hcall⟩⟩
    all_goals rw [h] at hcall
    · cases hcall
      exact .of_same fun _ => rfl
    · cases hcall
    · cases hcall
      exact .of_same fun _ => rfl
    · cases hcall
      have hfirst : StampsOne .live now st (LiveBroker.recordSubmission ack.orderId
          (LiveBroker.submissionRow intent ("tqt-" ++ uuid) sent now) st) := .of_insert rfl rfl
      refine hfirst.trans_same ?_
      unfold LiveBroker.settleOrder at hsettle
      cases hpoll : LiveBroker.awaitFill (answers sellable polls net).polls with
      | none =>
        rw [hpoll] at hsettle
        cases hsettle
        exact fun _ => rfl
      | some final =>
        rw [hpoll] at hsettle
        cases hsettle
        exact recordFinal_stamps intent final now _

/-- **The order budget** in every run of either broker: on no UTC date does it record more
orders than the limit, whatever the cycles want and whatever becomes of their orders. -/
theorem order_budget (settings : Settings) :
    (∀ (pb : PaperBroker) (s t : System Unit) (steps : List Step),
      Budgeted (paperModel pb) settings s → (ledgerSystem (paperModel pb)).Run s steps t →
      ∀ day, ((recorded t.store .paper day).length : ℤ) ≤ limitOf settings) ∧
    ∀ (b : LiveBroker) (maxRetries : ℕ) (fx : Decimal) (s t : System Exchange) (steps : List Step),
      Budgeted (liveModel b maxRetries fx) settings s →
      (ledgerSystem (liveModel b maxRetries fx)).Run s steps t →
      ∀ day, ((recorded t.store .live day).length : ℤ) ≤ limitOf settings := by
  constructor
  · intro pb s t steps hs hrun
    exact (hrun.invariant (fun _ _ _ h hstep => h.step (paper_clerk pb) hstep) hs).kept
  · intro b maxRetries fx s t steps hs hrun
    exact (hrun.invariant (fun _ _ _ h hstep => h.step (live_clerk b maxRetries fx) hstep) hs).kept

/-! ### One order a day -/

/-- A paper account with a million, allowed a single order a day. -/
def oneOrderADay : System Unit where
  broker := ()
  store := PaperBroker.ensureCash 1000000 {}
  risk := { brokerName := .paper, settings := { maxOrdersPerDay := 1 } }
  now := ⟨⟨2026, 8, 17⟩, 20000⟩

/-- The market of its order. -/
def tenThousandLast : Market where
  book := none
  last := some 10000
  fx := none
  orderId := "P-1"
  now := ⟨⟨2026, 8, 17⟩, 20000⟩

/-- The store of its cycle, with the mark. -/
def oneOrderStore : Store :=
  oneOrderADay.store.recordEquity .paper (markOf (.allCash 1000000)) oneOrderADay.now

/-- Its cycle. -/
theorem one_order_run : ∃ t steps, (ledgerSystem (paperModel {})).Run oneOrderADay steps t ∧
    (recorded t.store .paper ⟨2026, 8, 17⟩).length = 1 := by
  have hsnap : (paperModel {}).snapshot () oneOrderADay.store (.allCash 1000000) oneOrderADay.store :=
    ⟨tenThousandLast, none, rfl⟩
  have hgate : oneOrderADay.risk.checkCycle oneOrderStore oneOrderADay.now (.allCash 1000000) =
      (oneOrderStore, .allow) := RiskManager.checkCycle_allow (by decide +kernel)
  have hplan : buildIntentsIn Context.fix tenthTarget (.allCash 1000000) [.KR] tenThousand = [(topUp, 10000)] := by
    decide +kernel
  have hplanned := Steps.plan (B := paperModel {})
    (s := { oneOrderADay with store := oneOrderStore, phase := .planning (.allCash 1000000) })
    tenthTarget [.KR] tenThousand rfl
  rw [hplan] at hplanned
  have hallow : (oneOrderADay.risk.checkOrder oneOrderStore oneOrderADay.now (.allCash 1000000)
      (fun _ => none) topUp (some 10000)).2 = .allow := by
    decide +kernel
  obtain ⟨risk, hcheck⟩ : ∃ risk, oneOrderADay.risk.checkOrder oneOrderStore oneOrderADay.now
      (.allCash 1000000) (fun _ => none) topUp (some 10000) = (risk, .allow) :=
    ⟨_, Prod.ext rfl hallow⟩
  have hsome : (PaperBroker.submit {} tenThousandLast topUp oneOrderStore).2.isSome := by decide +kernel
  obtain ⟨result, hresult⟩ := Option.isSome_iff_exists.mp hsome
  have hrun := Lts.Run.cons (M := cycleSystem (paperModel {})) (s := oneOrderADay) (.begin rfl hsnap) <|
    .cons (.gate rfl hgate) <| .cons hplanned <|
    .cons (.check (fun _ => none) rfl hcheck) <| .cons (.submit rfl) <|
    .cons (.answer (b := ()) rfl ⟨tenThousandLast, rfl, Prod.ext rfl hresult⟩) (.nil _)
  have hone : (recorded (PaperBroker.submit {} tenThousandLast topUp oneOrderStore).1 .paper
      ⟨2026, 8, 17⟩).length = 1 := by
    decide +kernel
  exact ⟨_, _, ledger_run hrun (by simp), hone⟩

/-- On paper the limit is reached; live, one order of forty is recorded. -/
theorem order_budget_reached :
    (∃ t : System Unit, (recorded t.store .paper ⟨2026, 8, 17⟩).length = 1 ∧
      ∀ day, ((recorded t.store .paper day).length : ℤ) ≤ 1) ∧
    ∃ t : System Exchange, (recorded t.store .live ⟨2026, 8, 17⟩).length = 1 ∧
      ∀ day, ((recorded t.store .live day).length : ℤ) ≤ 40 := by
  constructor
  · obtain ⟨t, steps, hrun, hone⟩ := one_order_run
    exact ⟨t, hone, (order_budget { maxOrdersPerDay := 1 }).1 {} _ t steps
      (.start rfl rfl rfl rfl) hrun⟩
  · obtain ⟨s, risk, hbegin, hcycle, -⟩ := first_cycle
    have hrun := ledger_run (Lts.Run.cons (M := cycleSystem (liveModel {} 4 1400)) hbegin
      hcycle.of_restrict) (by simp [topUpSteps])
    have hone : (recorded firstStore .live ⟨2026, 8, 17⟩).length = 1 := by decide +kernel
    exact ⟨_, hone, (order_budget {}).2 {} 4 1400 _ _ _ (.start rfl rfl rfl rfl) hrun⟩

end Tqt.Runner
