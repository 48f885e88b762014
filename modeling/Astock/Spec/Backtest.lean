import Astock.Spec.Adjust
import Astock.Spec.TradingRules

/-!
# The backtesting engine

`crates/backtest/src/{data,strategy,engine}.rs`: a strategy is asked for orders at each bar, with the
bars up to it, and each order gets one execution attempt under the trading rules. Shares are `u32`,
whose arithmetic wraps, as in the release profile. A run that gives nothing does not return: it
divides by zero, or it never leaves a loop.
-/

namespace Astock

open Float64 Sorted

/-! ## Prices -/

/-- A bar of the backtester: `data::Bar`. -/
structure Bar (F : Type) where
  date : ℤ
  openPrice : F
  close : F
  high : F
  low : F
  volume : F
  amount : Option F
  suspended : Bool
  deriving DecidableEq

/-- `Bar::flat`. -/
def Bar.flat {F : Type} [Float64 F] (date : ℤ) (price : F) : Bar F where
  date := date
  openPrice := price
  close := price
  high := price
  low := price
  volume := lit 0
  amount := none
  suspended := false

inductive BacktestError (F : Type)
  | emptySeries (symbol : String)
  | unsortedDates (symbol : String) (index : ℕ)
  | nonPositiveCash (cash : F)
  | unknownSymbol (symbol : String)
  deriving DecidableEq

/-- A price history: bars of strictly increasing dates. -/
structure PriceSeries (F : Type) where
  symbol : String
  bars : List (Bar F)
  sorted : bars.Pairwise fun a b => a.date < b.date

/-- The first bar that is not after the bar before it. -/
def unsortedIndex {F : Type} : ℕ → List (Bar F) → Option ℕ
  | i, a :: b :: rest => if b.date ≤ a.date then some (i + 1) else unsortedIndex (i + 1) (b :: rest)
  | _, _ => none

theorem sorted_of_unsortedIndex {F : Type} {bars : List (Bar F)} : ∀ {i : ℕ},
    unsortedIndex i bars = none → bars.Pairwise fun a b => a.date < b.date := by
  induction bars with
  | nil => intro i _; exact .nil
  | cons a rest ih =>
    intro i h
    cases rest with
    | nil => exact List.pairwise_singleton _ _
    | cons b rest =>
      rw [unsortedIndex] at h
      split at h
      · cases h
      · rename_i hab
        have hrest := ih h
        refine List.pairwise_cons.2 ⟨fun c hc => ?_, hrest⟩
        rcases List.mem_cons.1 hc with rfl | hc
        · omega
        · have := (List.pairwise_cons.1 hrest).1 c hc
          omega

namespace PriceSeries

variable {F : Type}

/-- `PriceSeries::new`. -/
def new (symbol : String) (bars : List (Bar F)) : Except (BacktestError F) (PriceSeries F) :=
  if bars.isEmpty then .error (.emptySeries symbol)
  else
    match h : unsortedIndex 0 bars with
    | some index => .error (.unsortedDates symbol index)
    | none => .ok { symbol := symbol, bars := bars, sorted := sorted_of_unsortedIndex h }

/-- The first `n` bars. -/
def take (series : PriceSeries F) (n : ℕ) : PriceSeries F where
  symbol := series.symbol
  bars := series.bars.take n
  sorted := series.sorted.sublist (List.take_sublist _ _)

@[simp] theorem take_bars (series : PriceSeries F) (n : ℕ) :
    (series.take n).bars = series.bars.take n := rfl

end PriceSeries

/-! ## Strategies -/

inductive Qty
  | shares (q : UInt32)
  | max
  deriving DecidableEq, Repr

inductive Side
  | buy
  | sell
  deriving DecidableEq, Repr

structure Order where
  side : Side
  qty : Qty
  reason : String
  deriving DecidableEq, Repr

def Order.buy (qty : Qty) : Order where
  side := .buy
  qty := qty
  reason := ""

def Order.sell (qty : Qty) : Order where
  side := .sell
  qty := qty
  reason := ""

structure PositionSnapshot (F : Type) where
  shares : UInt32
  sellable : UInt32
  avgCost : F
  cash : F
  deriving DecidableEq

structure StrategyContext (F : Type) where
  bars : List (Bar F)
  current : ℕ
  position : PositionSnapshot F
  deriving DecidableEq

/-- A strategy: a state machine that is asked once for each bar. -/
structure Strategy (F σ : Type) where
  onBar : σ → StrategyContext F → ℕ → σ × List Order

/-! ## Configuration and results -/

inductive ExecutionPolicy
  | nextOpen
  | nextClose
  | sameClose
  deriving DecidableEq, Repr

inductive AdjustmentPolicy
  | raw
  | qfqAsOf
  deriving DecidableEq, Repr

structure EngineConfig (F : Type) where
  symbol : String
  initialCash : F
  execution : ExecutionPolicy
  adjustment : AdjustmentPolicy
  corporateActions : List (CorporateAction F)
  slippageBps : F
  isSt : Bool

structure Fill (F : Type) where
  date : ℤ
  side : TradeSide
  shares : UInt32
  price : F
  amount : F
  fees : TradeCost F
  reason : String
  cashAfter : F
  deriving DecidableEq

inductive RejectReason
  | limitUp
  | limitDown
  | suspended
  | t1Restriction
  | noPosition
  | insufficientCash
  | belowMinLot
  deriving DecidableEq, Repr

structure Rejection where
  date : ℤ
  side : Side
  qty : Qty
  reason : RejectReason
  deriving DecidableEq, Repr

structure EquityPoint (F : Type) where
  date : ℤ
  cash : F
  shares : UInt32
  close : F
  marketValue : F
  feesCum : F
  equity : F
  deriving DecidableEq

structure BacktestResult (F : Type) where
  equity : List (EquityPoint F) := []
  trades : List (Fill F) := []
  rejections : List Rejection := []
  adjustmentWarnings : List (AdjustWarning F) := []

structure Portfolio (F : Type) where
  cash : F
  shares : UInt32
  sellable : UInt32
  costBasis : F
  feesCum : F
  deriving DecidableEq

/-- What an execution attempt works on. -/
structure Account (F : Type) where
  pf : Portfolio F
  result : BacktestResult F

variable {F : Type} [Float64 F]

/-- An engine is made of valid parts: positive cash, and the board of its symbol. -/
structure BacktestEngine (F : Type) [Float64 F] where
  rules : RuleSet F
  board : BoardRules F
  config : EngineConfig F
  funded : ¬config.initialCash ≤ lit 0
  resolved : rules.forSymbol config.symbol = some board

def BacktestEngine.new (rules : RuleSet F) (config : EngineConfig F) :
    Except (BacktestError F) (BacktestEngine F) :=
  if h : config.initialCash ≤ lit 0 then .error (.nonPositiveCash config.initialCash)
  else
    match hb : rules.forSymbol config.symbol with
    | none => .error (.unknownSymbol config.symbol)
    | some board =>
      .ok { rules := rules, board := board, config := config, funded := h, resolved := hb }

def Portfolio.snapshot (pf : Portfolio F) : PositionSnapshot F where
  shares := pf.shares
  sellable := pf.sellable
  avgCost := if 0 < pf.shares then pf.costBasis / ofU32 pf.shares else lit 0
  cash := pf.cash

omit [Float64 F] in
/-- The order is dropped. -/
def Account.reject (a : Account F) (date : ℤ) (order : Order) (reason : RejectReason) : Account F :=
  { a with result.rejections := a.result.rejections ++
      [{ date := date, side := order.side, qty := order.qty, reason := reason }] }

/-! ## Execution attempts -/

/-- `EPS`, the tolerance of the gates. -/
def eps : F := lit (1 / 10 ^ 9)

/-- The close that the price limits of a bar refer to; the first bar has only its open. -/
def preClose (bars : List (Bar F)) : ℕ → Option F
  | 0 => bars[0]?.map Bar.openPrice
  | t + 1 => bars[t]?.map Bar.close

namespace BacktestEngine

variable (e : BacktestEngine F)

/-- The largest valid lot that does not exceed `shares`. -/
def roundLot (shares : UInt32) : Option UInt32 :=
  if shares < e.board.minLot then some 0
  else if e.board.lotStep = 0 then none
  else some (e.board.minLot + (shares - e.board.minLot) / e.board.lotStep * e.board.lotStep)

/-- The lots that a buy order asks for. -/
def buySize (cash : F) (qty : Qty) (price : F) : Option (Except RejectReason UInt32) :=
  match qty with
  | .shares q => if q < e.board.minLot then some (.error .belowMinLot) else (e.roundLot q).map .ok
  | .max => (e.roundLot (quotient cash price)).map .ok

/-- Shrink by one lot step until cash covers amount and fees. A loop that is not done after as many
rounds as there are `u32` never is. -/
def fitLots (cash : F) (date : ℤ) (price : F) :
    ℕ → UInt32 → Option (Option (UInt32 × F × TradeCost F))
  | 0, _ => none
  | rounds + 1, shares =>
    let amount := ofU32 shares * price
    let fees := e.rules.tradeCostAt .buy amount (some e.board.market) date
    if amount + fees.total ≤ cash + eps then some (some (shares, amount, fees))
    else if shares < e.board.minLot + e.board.lotStep then some none
    else fitLots cash date price rounds (shares - e.board.lotStep)

/-- The shares that a buy order gets, with their amount and fees. -/
def fitBuy (cash : F) (qty : Qty) (date : ℤ) (price : F) :
    Option (Except RejectReason (UInt32 × F × TradeCost F)) :=
  (e.buySize cash qty price).bind fun
    | .error reason => some (.error reason)
    | .ok shares =>
      if shares < e.board.minLot then some (.error .insufficientCash)
      else (e.fitLots cash date price (2 ^ 32) shares).map fun
        | some fitted => .ok fitted
        | none => .error .insufficientCash

def executeBuy (order : Order) (a : Account F) (bar : Bar F) (price : F) : Option (Account F) :=
  (e.fitBuy a.pf.cash order.qty bar.date price).map fun
    | .error reason => a.reject bar.date order reason
    | .ok (shares, amount, fees) =>
      let pf := { a.pf with
        cash := a.pf.cash - (amount + fees.total)
        shares := a.pf.shares + shares
        costBasis := a.pf.costBasis + amount
        feesCum := a.pf.feesCum + fees.total }
      { pf := pf
        result.equity := a.result.equity
        result.trades := a.result.trades ++
          [{ date := bar.date, side := .buy, shares := shares, price := price, amount := amount,
             fees := fees, reason := order.reason, cashAfter := pf.cash }]
        result.rejections := a.result.rejections
        result.adjustmentWarnings := a.result.adjustmentWarnings }

/-- Oversized requests are clamped to what may be sold. -/
def sellSize (sellable : UInt32) : Qty → UInt32
  | .shares q => min q sellable
  | .max => sellable

def executeSell (order : Order) (a : Account F) (bar : Bar F) (price : F) : Account F :=
  if a.pf.shares = 0 then a.reject bar.date order .noPosition
  else if a.pf.sellable = 0 then a.reject bar.date order .t1Restriction
  else
    let shares := sellSize a.pf.sellable order.qty
    if shares = 0 then a.reject bar.date order .t1Restriction
    else
      let amount := ofU32 shares * price
      let fees := e.rules.tradeCostAt .sell amount (some e.board.market) bar.date
      let avg := a.pf.costBasis / ofU32 a.pf.shares
      let left := a.pf.shares - shares
      let pf : Portfolio F := {
        cash := a.pf.cash + (amount - fees.total)
        shares := left
        sellable := a.pf.sellable - shares
        costBasis := if left = 0 then lit 0 else a.pf.costBasis - avg * ofU32 shares
        feesCum := a.pf.feesCum + fees.total }
      { pf := pf
        result.equity := a.result.equity
        result.trades := a.result.trades ++
          [{ date := bar.date, side := .sell, shares := shares, price := price, amount := amount,
             fees := fees, reason := order.reason, cashAfter := pf.cash }]
        result.rejections := a.result.rejections
        result.adjustmentWarnings := a.result.adjustmentWarnings }

/-- Adverse slippage, as a fraction. -/
def slip : F := e.config.slippageBps / lit 10000

def executeOne (bars : List (Bar F)) (t : ℕ) (rawPrice : F) (a : Account F) (order : Order) :
    Option (Account F) := do
  let bar ← bars[t]?
  if bar.suspended then some (a.reject bar.date order .suspended)
  else
    let close ← preClose bars t
    match order.side with
    | .buy =>
      if e.board.limitUpPrice close e.config.isSt - eps ≤ rawPrice then
        some (a.reject bar.date order .limitUp)
      else e.executeBuy order a bar (rawPrice * (lit 1 + e.slip))
    | .sell =>
      if rawPrice ≤ e.board.limitDownPrice close e.config.isSt + eps then
        some (a.reject bar.date order .limitDown)
      else some (e.executeSell order a bar (rawPrice * (lit 1 - e.slip)))

def executeAll (bars : List (Bar F)) (t : ℕ) (rawPrice : F) (orders : List Order) (a : Account F) :
    Option (Account F) :=
  orders.foldlM (e.executeOne bars t rawPrice) a

end BacktestEngine

/-! ## What the strategy sees -/

omit [Float64 F] in
/-- The bar as `action_factors` reads it. -/
def Bar.toCore (b : Bar F) : CoreBar F :=
  .new b.date b.openPrice b.close b.high b.low b.volume .lots

def Bar.rescale (b : Bar F) (mult : F) : Bar F :=
  { b with
    openPrice := b.openPrice * mult
    close := b.close * mult
    high := b.high * mult
    low := b.low * mult }

/-- Same-date actions are folded into one multiplier. -/
def foldFactor (folded : List (ℤ × F)) (factor : ℤ × F) : List (ℤ × F) :=
  match folded.getLast? with
  | some last =>
    if last.1 = factor.1 then folded.dropLast ++ [(last.1, last.2 * factor.2)] else folded ++ [factor]
  | none => folded ++ [factor]

/-- The multipliers whose dates have arrived go into the pending one. -/
def takeDue (date : ℤ) (pendingMult : F) : List (ℤ × F) → F × List (ℤ × F)
  | [] => (pendingMult, [])
  | mult :: rest =>
    if mult.1 ≤ date then takeDue date (pendingMult * mult.2) rest else (pendingMult, mult :: rest)

/-! ## The run -/

/-- The state of the loop over the bars. -/
structure Walk (F σ : Type) where
  account : Account F
  /-- Orders of the bar before. -/
  pending : List Order
  lastClose : F
  visible : List (Bar F)
  /-- The multipliers that have not been folded in. -/
  multipliers : List (ℤ × F)
  pendingMult : F
  strategy : σ

variable {σ : Type}

/-- The visible bars are anchored at this bar. -/
def Walk.reanchor (w : Walk F σ) (bar : Bar F) : Walk F σ :=
  let (mult, rest) := takeDue bar.date w.pendingMult w.multipliers
  if mult != lit 1 then
    { w with
      visible := w.visible.map (·.rescale mult) ++ [bar]
      multipliers := rest
      pendingMult := lit 1 }
  else { w with visible := w.visible ++ [bar], multipliers := rest, pendingMult := mult }

/-- The end-of-day mark: suspended bars keep the last good close. -/
def Walk.mark (w : Walk F σ) (bar : Bar F) : Walk F σ :=
  let lastClose := if bar.suspended then w.lastClose else bar.close
  let pf := w.account.pf
  let marketValue := ofU32 pf.shares * lastClose
  { w with
    lastClose := lastClose
    account.result.equity := w.account.result.equity ++
      [{ date := bar.date, cash := pf.cash, shares := pf.shares, close := lastClose,
         marketValue := marketValue, feesCum := pf.feesCum, equity := pf.cash + marketValue }] }

namespace BacktestEngine

variable (e : BacktestEngine F) (S : Strategy F σ)

/-- The multipliers of the corporate actions, with the warnings, under `QfqAsOf`. -/
def multipliers (bars : List (Bar F)) : List (ℤ × F) × List (AdjustWarning F) :=
  match e.config.adjustment, bars.getLast? with
  | .qfqAsOf, some last =>
    let (factors, warnings) :=
      actionFactors (bars.map Bar.toCore) e.config.corporateActions last.date none
    (factors.foldl foldFactor [], warnings)
  | _, _ => ([], [])

def start (bars : List (Bar F)) (first : Bar F) (s : σ) : Walk F σ where
  account := {
    pf := {
      cash := e.config.initialCash
      shares := 0
      sellable := 0
      costBasis := lit 0
      feesCum := lit 0 }
    result.adjustmentWarnings := (e.multipliers bars).2 }
  pending := []
  lastClose := first.close
  visible := []
  multipliers := (e.multipliers bars).1
  pendingMult := lit 1
  strategy := s

def barsForCtx (bars : List (Bar F)) (visible : List (Bar F)) (t : ℕ) : List (Bar F) :=
  match e.config.adjustment with
  | .raw => bars.take (t + 1)
  | .qfqAsOf => visible.take (t + 1)

def ctx (bars : List (Bar F)) (t : ℕ) (w : Walk F σ) : StrategyContext F where
  bars := e.barsForCtx bars w.visible t
  current := t
  position := w.account.pf.snapshot

/-- Everything held was bought before this bar; under `QfqAsOf` the visible bars are anchored at
it. -/
def openBar (bar : Bar F) (w : Walk F σ) : Walk F σ :=
  let w := { w with account.pf.sellable := w.account.pf.shares }
  match e.config.adjustment with
  | .raw => w
  | .qfqAsOf => w.reanchor bar

/-- Decide and fill, in the order of the policy. -/
def trade (bars : List (Bar F)) (t : ℕ) (bar : Bar F) (w : Walk F σ) : Option (Walk F σ) :=
  match e.config.execution with
  | .nextOpen => do
    let account ←
      if 0 < t then e.executeAll bars t bar.openPrice w.pending w.account else some w.account
    let w := { w with account := account }
    let (s, orders) := S.onBar w.strategy (e.ctx bars t w) t
    some { w with strategy := s, pending := orders }
  | .nextClose => do
    let (s, orders) := S.onBar w.strategy (e.ctx bars t w) t
    let account ←
      if 0 < t then e.executeAll bars t bar.close w.pending w.account else some w.account
    some { w with account := account, strategy := s, pending := orders }
  | .sameClose => do
    let (s, orders) := S.onBar w.strategy (e.ctx bars t w) t
    let account ← e.executeAll bars t bar.close orders w.account
    some { w with account := account, strategy := s }

/-- One round of the loop over the bars. -/
def onBar (bars : List (Bar F)) (t : ℕ) (w : Walk F σ) : Option (Walk F σ) := do
  let bar ← bars[t]?
  let w ← e.trade S bars t bar (e.openBar bar w)
  some (w.mark bar)

/-- The state after the first `t` bars. -/
def walk (bars : List (Bar F)) (first : Bar F) (s : σ) : ℕ → Option (Walk F σ)
  | 0 => some (e.start bars first s)
  | t + 1 => (walk bars first s t).bind (e.onBar S bars t)

/-- `BacktestEngine::run`, with the state that the strategy is left in. -/
def run (series : PriceSeries F) (s : σ) :
    Option (Except (BacktestError F) (BacktestResult F × σ)) :=
  match series.bars with
  | [] => some (.error (.emptySeries series.symbol))
  | first :: rest =>
    (e.walk S (first :: rest) first s (rest.length + 1)).map fun w =>
      .ok (w.account.result, w.strategy)

end BacktestEngine

/-! ## Round trips -/

structure RoundTrip (F : Type) where
  entryDate : ℤ
  exitDate : ℤ
  shares : UInt32
  pnl : F
  returnPct : F
  deriving DecidableEq

/-- An open lot: its date, its cost per share with fees, and the shares that remain of it. -/
structure Lot (F : Type) where
  date : ℤ
  cost : F
  shares : UInt32

/-- The loop that closes lots with a sell, from the oldest on. A lot that is not used up leaves
nothing to close. -/
def closeLots (exitDate : ℤ) (net : F) (remaining : UInt32) :
    List (Lot F) → List (RoundTrip F) × List (Lot F)
  | [] => ([], [])
  | lot :: rest =>
    if remaining = 0 then ([], lot :: rest)
    else
      let taken := min remaining lot.shares
      let pnl := ofU32 taken * (net - lot.cost)
      let trip : RoundTrip F := {
        entryDate := lot.date
        exitDate := exitDate
        shares := taken
        pnl := pnl
        returnPct := pnl / (ofU32 taken * lot.cost) }
      if lot.shares - taken = 0 then
        let (trips, lots) := closeLots exitDate net (remaining - taken) rest
        (trip :: trips, lots)
      else ([trip], { lot with shares := lot.shares - taken } :: rest)

/-- One round of the loop over the fills. -/
def matchFill (state : List (RoundTrip F) × List (Lot F)) (fill : Fill F) :
    List (RoundTrip F) × List (Lot F) :=
  match fill.side with
  | .buy =>
    let perShare := fill.price + fill.fees.total / ofU32 fill.shares
    (state.1, state.2 ++ [{ date := fill.date, cost := perShare, shares := fill.shares }])
  | .sell =>
    let perShareNet := fill.price - fill.fees.total / ofU32 fill.shares
    let (trips, lots) := closeLots fill.date perShareNet fill.shares state.2
    (state.1 ++ trips, lots)

/-- `round_trips`: buys and sells are matched first-in first-out. -/
def roundTrips (fills : List (Fill F)) : List (RoundTrip F) := (fills.foldl matchFill ([], [])).1

end Astock
