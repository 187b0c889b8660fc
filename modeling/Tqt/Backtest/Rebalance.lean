import Tqt.Backtest.Costs
import Tqt.Calendar
import Tqt.Foundation.Dict
import Mathlib.Data.List.Sort

/-! One rebalance of the backtester.

`rebalance` works off the desired quantities in order of the change they ask for, sells
first, and books at most one fill per symbol. What a single symbol can do to the batch
is said once, in `trade_cases`: nothing, or one booked fill that the cash covers if it
is a buy and the holding covers if it is a sale (`Booked`). -/
namespace Tqt

structure Fill where
  date : Date
  symbol : Symbol
  side : Side
  quantity : Decimal
  price : Decimal
  cost : TradeCost
  reason : String
deriving DecidableEq, Repr

/-- The signed quantity a fill moves. -/
def Fill.signed (f : Fill) : Decimal :=
  match f.side with
  | .BUY => f.quantity
  | .SELL => -f.quantity

structure BacktestConfig where
  initialCash : Decimal := 1000000
  country : Country := .KR
  etfSymbols : List Symbol := []
  allowFractional : Option Bool := none
  rebalanceBand : Decimal := 1 / 100
  minOrderValue : Option Decimal := none
  costModel : CostModel := CostModel.defaults

namespace BacktestConfig

def dustThreshold (cfg : BacktestConfig) : Decimal :=
  match cfg.minOrderValue with
  | some v => v
  | none => if cfg.country = .KR then 5000 else 5

def fractional (cfg : BacktestConfig) : Bool :=
  match cfg.allowFractional with
  | some b => b
  | none => cfg.country == .US

/-- Whether a buy in this sleeve also incurs an FX conversion cost. -/
def chargesFx (cfg : BacktestConfig) (cm : CostModel) : Bool :=
  cfg.country == .US && cm.chargeFxOnUsTrades

end BacktestConfig

namespace Backtest

/-! ### One rebalance -/

/-- The running state of `_rebalance`'s loop. -/
structure Batch where
  cash : Decimal
  positions : Dict Symbol Decimal
  fills : List Fill := []
  cost : TradeCost := {}
  traded : Decimal := 0

/-- Book a fill: cash, position, cost, turnover and the fill itself. -/
def Batch.book (b : Batch) (f : Fill) : Batch where
  cash := match f.side with
    | .BUY => b.cash - (f.price * f.quantity + f.cost.total)
    | .SELL => b.cash + (f.price * f.quantity - f.cost.total)
  positions := b.positions.insert f.symbol (match f.side with
    | .BUY => b.positions.getD f.symbol 0 + f.quantity
    | .SELL => b.positions.getD f.symbol 0 - f.quantity)
  fills := b.fills ++ [f]
  cost := b.cost + f.cost
  traded := b.traded + f.price * f.quantity

section Rebalance
variable (cfg : BacktestConfig) (prices : Symbol → Option Decimal) (equity : Decimal)
  (date : Date) (reason : String)

/-- Share count of a target at current prices; zero if it cannot be traded. -/
def desiredQuantity (sym : Symbol) (weight : Decimal) : Decimal :=
  match prices sym with
  | some px =>
    if px ≤ 0 ∨ weight ≤ 0 then 0
    else if cfg.fractional then equity * weight / px else truncate (equity * weight / px)
  | none => 0

/-- Every target at its share count; anything held but not targeted goes to zero. -/
def desired (targets positions : Dict Symbol Decimal) : Dict Symbol Decimal :=
  positions.keys.foldl (fun d sym => d.setDefault sym 0)
    (targets.mapValues (desiredQuantity cfg prices equity))

/-- Sells first: they release the cash the buys need. -/
def ordered (targets positions : Dict Symbol Decimal) : List (Symbol × Decimal) :=
  (desired cfg prices equity targets positions).entries.insertionSort fun a b =>
    a.2 - positions.getD a.1 0 ≤ b.2 - positions.getD b.1 0

/-- Slippage moves the fill price against us. -/
def fillPrice (side : Side) (refPx : Decimal) : Decimal :=
  match side with
  | .BUY => refPx * (1 + cfg.costModel.slippageRate cfg.country)
  | .SELL => refPx * (1 - cfg.costModel.slippageRate cfg.country)

def makeFill (side : Side) (sym : Symbol) (refPx quantity : Decimal) : Fill where
  date := date
  symbol := sym
  side := side
  quantity := quantity
  price := fillPrice cfg side refPx
  cost := cfg.costModel.costOf side cfg.country (fillPrice cfg side refPx) quantity
    (cfg.etfSymbols.contains sym) false
  reason := reason

/-- The price per share with every charge on it, for scaling a buy down to the cash. -/
def affordablePrice (fillPx : Decimal) : Decimal :=
  let px := fillPx * (1 + cfg.costModel.commissionRate cfg.country)
  if cfg.chargesFx cfg.costModel then px * (1 + cfg.costModel.fxSpreadRate) else px

def affordableQuantity (cash fillPx : Decimal) : Decimal :=
  let maxQty := if 0 < affordablePrice cfg fillPx then cash / affordablePrice cfg fillPx else 0
  if cfg.fractional then maxQty else truncate maxQty

/-- The quantity a buy fills: all of it, what the cash allows, or none. -/
def buyQuantity (cash : Decimal) (sym : Symbol) (refPx quantity : Decimal) : Option Decimal :=
  let whole := makeFill cfg date reason .BUY sym refPx quantity
  if cash < whole.price * quantity + whole.cost.total then
    let trimmed := affordableQuantity cfg cash whole.price
    if trimmed ≤ 0 ∨ whole.price * trimmed < cfg.dustThreshold then none else some trimmed
  else some quantity

/-- The loop body: bring one symbol to its desired quantity, if it is worth a trade. -/
def trade (b : Batch) (order : Symbol × Decimal) : Batch :=
  let sym := order.1
  let held := b.positions.getD sym 0
  let delta := order.2 - held
  match prices sym with
  | none => b
  | some refPx =>
    if delta = 0 ∨ refPx ≤ 0 then b
    else if refPx * |delta| < cfg.dustThreshold then b
    else if 0 < equity ∧ refPx * |delta| / equity < cfg.rebalanceBand ∧ 0 < held then b
    else if 0 < delta then
      match buyQuantity cfg date reason b.cash sym refPx |delta| with
      | none => b
      | some qty => b.book (makeFill cfg date reason .BUY sym refPx qty)
    else if min |delta| held ≤ 0 then b
    else b.book (makeFill cfg date reason .SELL sym refPx (min |delta| held))

def rebalance (cash : Decimal) (positions targets : Dict Symbol Decimal) : Batch :=
  let b := (ordered cfg prices equity targets positions).foldl
    (trade cfg prices equity date reason) { cash, positions }
  { b with positions := b.positions.filter fun _ q => 0 < q }

/-! ### What a batch can book -/

theorem fillPrice_buy_pos {refPx : Decimal} (h : 0 < refPx) : 0 < fillPrice cfg .BUY refPx :=
  mul_pos h (by linarith [cfg.costModel.slippageRate_nonneg cfg.country])

theorem affordablePrice_eq (fillPx : Decimal) :
    affordablePrice cfg fillPx = fillPx * ((1 + cfg.costModel.commissionRate cfg.country) *
      (1 + cfg.costModel.fxRate cfg.country)) := by
  simp only [affordablePrice, BacktestConfig.chargesFx, CostModel.fxRate, Bool.and_eq_true,
    beq_iff_eq]
  split <;> ring

theorem le_affordablePrice {fillPx : Decimal} (h : 0 ≤ fillPx) :
    fillPx ≤ affordablePrice cfg fillPx := by
  rw [affordablePrice_eq]
  have hc := cfg.costModel.commissionRate_nonneg cfg.country
  have hf := cfg.costModel.fxRate_nonneg cfg.country
  exact le_mul_of_one_le_right h (one_le_mul_of_one_le_of_one_le (by linarith) (by linarith))

/-- What a buy of `qty` needs, as a multiple of the affordable price. -/
theorem need_le (sym : Symbol) {refPx qty : Decimal} (hp : 0 < refPx) (hq : 0 ≤ qty) :
    let f := makeFill cfg date reason .BUY sym refPx qty
    f.price * qty + f.cost.total ≤ qty * affordablePrice cfg (fillPrice cfg .BUY refPx) := by
  intro f
  calc f.price * qty + f.cost.total
      ≤ f.price * qty * ((1 + cfg.costModel.commissionRate cfg.country) *
          (1 + cfg.costModel.fxRate cfg.country)) :=
        cfg.costModel.buy_total_le_affordable cfg.country _ (fillPrice_buy_pos cfg hp).le hq
    _ = qty * affordablePrice cfg f.price := by
        rw [affordablePrice_eq]
        ring

/-- A positive trimmed quantity costs at most the cash at the affordable price. -/
theorem affordableQuantity_le {cash refPx : Decimal} (hp : 0 < refPx)
    (hq : 0 < affordableQuantity cfg cash (fillPrice cfg .BUY refPx)) :
    affordableQuantity cfg cash (fillPrice cfg .BUY refPx) *
      affordablePrice cfg (fillPrice cfg .BUY refPx) ≤ cash := by
  have hfill := fillPrice_buy_pos cfg hp
  have hprice : 0 < affordablePrice cfg (fillPrice cfg .BUY refPx) :=
    lt_of_lt_of_le hfill (le_affordablePrice cfg hfill.le)
  apply (le_div_iff₀ hprice).mp
  unfold affordableQuantity at hq ⊢
  rw [if_pos hprice] at hq ⊢
  by_cases hfr : cfg.fractional = true
  · rw [if_pos hfr]
  · rw [if_neg hfr] at hq ⊢
    exact truncate_le (zero_le_one.trans (truncate_pos.mp hq))

/-- What the cash allows of an order it does not cover is less than the order. -/
theorem affordableQuantity_lt {cash refPx qty : Decimal} {sym : Symbol} (hp : 0 < refPx) (hq : 0 ≤ qty)
    (hneed : cash < (makeFill cfg date reason .BUY sym refPx qty).price * qty +
      (makeFill cfg date reason .BUY sym refPx qty).cost.total)
    (hpos : 0 < affordableQuantity cfg cash (fillPrice cfg .BUY refPx)) :
    affordableQuantity cfg cash (fillPrice cfg .BUY refPx) < qty := by
  have hlt := lt_of_le_of_lt (affordableQuantity_le cfg hp hpos)
    (lt_of_lt_of_le hneed (need_le cfg date reason sym hp hq))
  have hfill := fillPrice_buy_pos cfg hp
  exact lt_of_mul_lt_mul_right hlt (hfill.le.trans (le_affordablePrice cfg hfill.le))

/-- A fill the loop may book for `order` on top of `b`. -/
structure Booked (b : Batch) (order : Symbol × Decimal) (f : Fill) : Prop where
  made : ∃ refPx, prices order.1 = some refPx ∧ 0 < refPx ∧
    f = makeFill cfg date reason f.side order.1 refPx f.quantity
  positive : 0 < f.quantity
  direction : if f.side = .BUY then b.positions.getD order.1 0 < order.2
    else order.2 < b.positions.getD order.1 0
  bounded : f.quantity ≤ |order.2 - b.positions.getD order.1 0|
  affordable : f.side = .BUY → f.price * f.quantity + f.cost.total ≤ b.cash
  covered : f.side = .SELL → f.quantity ≤ b.positions.getD order.1 0
  whole : cfg.fractional = false → Whole order.2 → Whole (b.positions.getD order.1 0) →
    Whole f.quantity

theorem Booked.date_eq {b : Batch} {order : Symbol × Decimal} {f : Fill}
    (h : Booked cfg prices date reason b order f) : f.date = date := by
  obtain ⟨_, _, _, hf⟩ := h.made
  rw [hf]
  rfl

theorem Booked.symbol {b : Batch} {order : Symbol × Decimal} {f : Fill}
    (h : Booked cfg prices date reason b order f) : f.symbol = order.1 := by
  obtain ⟨_, _, _, hf⟩ := h.made
  rw [hf]
  rfl

/-- A buy scaled down to the cash. -/
theorem trimmed_booked {b : Batch} {order : Symbol × Decimal} {refPx : Decimal}
    (hpx : prices order.1 = some refPx) (hp : 0 < refPx)
    (hd : 0 < order.2 - b.positions.getD order.1 0)
    (hneed : b.cash <
      (makeFill cfg date reason .BUY order.1 refPx |order.2 - b.positions.getD order.1 0|).price *
          |order.2 - b.positions.getD order.1 0| +
        (makeFill cfg date reason .BUY order.1 refPx
          |order.2 - b.positions.getD order.1 0|).cost.total)
    (hq : 0 < affordableQuantity cfg b.cash (fillPrice cfg .BUY refPx)) :
    Booked cfg prices date reason b order (makeFill cfg date reason .BUY order.1 refPx
      (affordableQuantity cfg b.cash (fillPrice cfg .BUY refPx))) := by
  have hcash := affordableQuantity_le cfg hp hq
  refine ⟨⟨refPx, hpx, hp, rfl⟩, hq, by simpa [makeFill] using hd, ?_, ?_, by simp [makeFill], ?_⟩
  · show affordableQuantity cfg b.cash (fillPrice cfg .BUY refPx) ≤ _
    exact (affordableQuantity_lt cfg date reason hp (abs_nonneg _) hneed hq).le
  · intro _
    exact (need_le cfg date reason order.1 hp hq.le).trans hcash
  · intro hfr _ _
    show Whole (affordableQuantity cfg b.cash (fillPrice cfg .BUY refPx))
    rw [affordableQuantity, if_neg (by simp [hfr])]
    exact truncate_whole _

theorem buy_booked {b : Batch} {order : Symbol × Decimal} {refPx qty : Decimal}
    (hpx : prices order.1 = some refPx) (hp : 0 < refPx)
    (hd : 0 < order.2 - b.positions.getD order.1 0)
    (h : buyQuantity cfg date reason b.cash order.1 refPx
      |order.2 - b.positions.getD order.1 0| = some qty) :
    Booked cfg prices date reason b order (makeFill cfg date reason .BUY order.1 refPx qty) := by
  unfold buyQuantity at h
  simp only at h
  split at h
  · next hneed =>
    -- The cash does not cover the whole order: it is scaled down or dropped.
    split at h
    · cases h
    · next hdust =>
      have hqty : affordableQuantity cfg b.cash (fillPrice cfg .BUY refPx) = qty := by
        simpa [makeFill] using h
      subst hqty
      have hpos : 0 < affordableQuantity cfg b.cash (fillPrice cfg .BUY refPx) := by
        by_contra hle
        exact hdust (Or.inl (not_lt.mp hle))
      exact trimmed_booked cfg prices date reason hpx hp hd hneed hpos
  · next hneed =>
    cases h
    exact ⟨⟨refPx, hpx, hp, rfl⟩, abs_pos.mpr (ne_of_gt hd), by simpa [makeFill] using hd, le_rfl,
      fun _ => not_lt.mp hneed, by simp [makeFill], fun _ hw hh => (hw.sub hh).abs⟩

theorem sell_booked {b : Batch} {order : Symbol × Decimal} {refPx : Decimal}
    (hpx : prices order.1 = some refPx) (hp : 0 < refPx)
    (hd : order.2 - b.positions.getD order.1 0 < 0)
    (hq : 0 < min |order.2 - b.positions.getD order.1 0| (b.positions.getD order.1 0)) :
    Booked cfg prices date reason b order (makeFill cfg date reason .SELL order.1 refPx
      (min |order.2 - b.positions.getD order.1 0| (b.positions.getD order.1 0))) :=
  ⟨⟨refPx, hpx, hp, rfl⟩, hq, by simpa [makeFill] using hd, min_le_left _ _, by simp [makeFill],
    fun _ => min_le_right _ _, fun _ hw hh => (hw.sub hh).abs.min hh⟩

/-- **What one symbol can do to the batch**: nothing, or one booked fill. -/
theorem trade_cases (b : Batch) (order : Symbol × Decimal) :
    trade cfg prices equity date reason b order = b ∨
      ∃ f, Booked cfg prices date reason b order f ∧
        trade cfg prices equity date reason b order = b.book f := by
  unfold trade
  simp only
  cases hpx : prices order.1 with
  | none => exact .inl rfl
  | some refPx =>
    simp only
    split
    · exact .inl rfl
    · next hskip =>
      simp only [not_or, not_le] at hskip
      split
      · exact .inl rfl
      · split
        · exact .inl rfl
        · by_cases hd : 0 < order.2 - b.positions.getD order.1 0
          · rw [if_pos hd]
            cases hbuy : buyQuantity cfg date reason b.cash order.1 refPx
                |order.2 - b.positions.getD order.1 0| with
            | none => exact .inl rfl
            | some qty =>
              exact .inr ⟨_, buy_booked cfg prices date reason hpx hskip.2 hd hbuy, rfl⟩
          · rw [if_neg hd]
            split
            · exact .inl rfl
            · next hq =>
              have hneg := lt_of_le_of_ne (not_lt.mp hd) hskip.1
              exact .inr ⟨_, sell_booked cfg prices date reason hpx hskip.2 hneg (not_le.mp hq), rfl⟩

/-- What every booked fill preserves holds after any list of orders. -/
theorem trades_induction {P : Batch → Prop} (orders : List (Symbol × Decimal))
    (preserved : ∀ b order f, order ∈ orders → P b → Booked cfg prices date reason b order f →
      P (b.book f)) (b : Batch) (h : P b) :
    P (orders.foldl (trade cfg prices equity date reason) b) := by
  induction orders generalizing b with
  | nil => exact h
  | cons order rest ih =>
    apply ih fun b' o f ho => preserved b' o f (List.mem_cons_of_mem order ho)
    rcases trade_cases cfg prices equity date reason b order with hb | ⟨f, hf, hb⟩
    · rw [hb]
      exact h
    · rw [hb]
      exact preserved b order f (List.mem_cons_self ..) h hf

/-- Every fill of a rebalance carries its date. -/
theorem rebalance_date {cash : Decimal} {positions targets : Dict Symbol Decimal} {f : Fill}
    (h : f ∈ (rebalance cfg prices equity date reason cash positions targets).fills) :
    f.date = date := by
  refine trades_induction cfg prices equity date reason
    (P := fun b => ∀ f ∈ b.fills, f.date = date) _ (fun b _ f _ hb hf g hg => ?_)
    { cash, positions } (by simp) f h
  rcases List.mem_append.mp hg with hg | hg
  · exact hb g hg
  · rw [List.mem_singleton.mp hg]
    exact hf.date_eq

end Rebalance

end Backtest
end Tqt
