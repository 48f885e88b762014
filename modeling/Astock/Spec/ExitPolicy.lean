import Astock.Spec.Backtest

/-!
# Exit policies

`crates/trading-rules/src/exit.rs`: the average true range, the structural stop, the staged take profit and
the trailing stop. `crates/backtest/src/exit.rs`: the policy made of them, which wraps a strategy. A
constructor that panics gives nothing.
-/

namespace Astock

open Float64

/-- What exit rules ask of `f64` besides arithmetic. -/
class ExitFloat (F : Type) extends FixedFloat F where
  isFinite : F → Bool
  /-- `format!("{}", x)`. -/
  display : F → String
  /-- `x.floor() as u32`. -/
  floorU32 : F → UInt32

instance ExitFloat.exact : ExitFloat ℚ where
  isFinite _ := true
  display := F64.exactDisplay
  floorU32 x := UInt32.ofNat (min ⌊x⌋.toNat u32Max)

variable {F : Type} [ExitFloat F]

/-! ## Average true range -/

structure Ohlc (F : Type) where
  high : F
  low : F
  close : F

def trueRange (high low : F) : Option F → F
  | some close => max (max (high - low) (FixedFloat.abs (high - close))) (FixedFloat.abs (low - close))
  | none => high - low

structure WilderAtr (F : Type) where
  period : ℕ
  seen : ℕ
  trSum : F
  atr : Option F
  prevClose : Option F

namespace WilderAtr

def new (period : ℕ) : WilderAtr F where
  period := period
  seen := 0
  trSum := lit 0
  atr := none
  prevClose := none

/-- `update`; what it returns is the new average, and none before the `period`th bar. -/
def update (a : WilderAtr F) (bar : Ohlc F) : WilderAtr F × Option F :=
  let tr := trueRange bar.high bar.low a.prevClose
  let seen := a.seen + 1
  if seen < a.period then
    ({ a with prevClose := some bar.close, seen := seen, trSum := a.trSum + tr }, none)
  else
    let atr :=
      if seen = a.period then (a.trSum + tr) / lit a.period
      else (a.atr.getD (lit 0) * lit (a.period - 1 : ℕ) + tr) / lit a.period
    ({ a with prevClose := some bar.close, seen := seen, atr := some atr }, some atr)

end WilderAtr

/-- `wilder_atr`. -/
def wilderAtr (bars : List (Ohlc F)) (period : ℕ) : Option F :=
  (bars.foldl (fun state bar => state.1.update bar) ((WilderAtr.new period : WilderAtr F), none)).2

/-! ## Rules of one position -/

/-- The entry price and the stop, which is below it. -/
structure RMultiple (F : Type) [ExitFloat F] where
  entryPrice : F
  initialStop : F
  finite : ExitFloat.isFinite entryPrice && ExitFloat.isFinite initialStop
  positive : lit 0 < initialStop
  below : initialStop < entryPrice

namespace RMultiple

def new (entryPrice initialStop : F) : Option (RMultiple F) :=
  if h : (ExitFloat.isFinite entryPrice && ExitFloat.isFinite initialStop) ∧ lit 0 < initialStop ∧
      initialStop < entryPrice then
    some ⟨entryPrice, initialStop, h.1, h.2.1, h.2.2⟩
  else none

def riskPerShare (rm : RMultiple F) : F := rm.entryPrice - rm.initialStop

def targetPrice (rm : RMultiple F) (r : F) : F := rm.entryPrice + r * rm.riskPerShare

end RMultiple

structure ScaleOutStage (F : Type) where
  r : F
  ratio : F

inductive ScaleOutConfigError
  | empty
  | nonPositiveR
  | notAscending
  | badRatio
  | ratiosExceedOne
  deriving DecidableEq, Repr

structure ScaledTakeProfit (F : Type) where
  stages : List (ScaleOutStage F)
  next : ℕ

namespace ScaledTakeProfit

/-- The checks on the stages after one with `r`, and the sum of the ratios. -/
def check : Option F → F → List (ScaleOutStage F) → Except ScaleOutConfigError F
  | _, sum, [] => .ok sum
  | last, sum, stage :: stages =>
    if !ExitFloat.isFinite stage.r || stage.r ≤ lit 0 then .error .nonPositiveR
    else if last.any (stage.r ≤ ·) then .error .notAscending
    else if !ExitFloat.isFinite stage.ratio || stage.ratio ≤ lit 0 || lit 1 < stage.ratio then .error .badRatio
    else check (some stage.r) (sum + stage.ratio) stages

def new (stages : List (ScaleOutStage F)) : Except ScaleOutConfigError (ScaledTakeProfit F) :=
  if stages.isEmpty then .error .empty
  else
    match check none (lit 0) stages with
    | .error error => .error error
    | .ok sum => if lit 1 + lit (1 / 10 ^ 9) < sum then .error .ratiosExceedOne else .ok ⟨stages, 0⟩

/-- `on_price`. -/
def onPrice (tp : ScaledTakeProfit F) (rm : RMultiple F) (observed : F) :
    ScaledTakeProfit F × Option (ScaleOutStage F) :=
  match tp.stages[tp.next]? with
  | none => (tp, none)
  | some stage =>
    if rm.targetPrice stage.r ≤ observed then ({ tp with next := tp.next + 1 }, some stage) else (tp, none)

end ScaledTakeProfit

structure StructuralStop (F : Type) where
  price : F

namespace StructuralStop

/-- The stop is only ever raised. -/
def raise (stop : StructuralStop F) (candidate : F) : StructuralStop F :=
  if ExitFloat.isFinite candidate ∧ stop.price < candidate then ⟨candidate⟩ else stop

def check (stop : StructuralStop F) (openPrice low : F) : Option F :=
  if low < stop.price then some (min openPrice stop.price) else none

end StructuralStop

structure PeakTrailingStop (F : Type) where
  atrMult : F
  peak : F
  entryGate : Option F

namespace PeakTrailingStop

/-- A tracker whose peak starts at the entry price, with the entry gate if it is wanted. -/
def new (atrMult entryPrice : F) (gate : Bool) : PeakTrailingStop F where
  atrMult := atrMult
  peak := entryPrice
  entryGate := if gate then some entryPrice else none

def stopLevel (trail : PeakTrailingStop F) (atr : F) : F := trail.peak - trail.atrMult * atr

def update (trail : PeakTrailingStop F) (close atr : F) : PeakTrailingStop F × Option F :=
  let trail := if trail.peak < close then { trail with peak := close } else trail
  let level := trail.stopLevel atr
  (trail, if trail.entryGate.all (· < level) ∧ close ≤ level then some level else none)

end PeakTrailingStop

/-! ## The policy -/

inductive InitialStop (F : Type)
  | atrMultiple (k : F)
  | recentLow (n : ℕ)
  | fixedFraction (f : F)

/-- A configuration that passes the assertions of `ExitPolicy::new`. -/
structure ExitPolicyConfig (F : Type) [ExitFloat F] where
  initialStop : InitialStop F
  atrPeriod : ℕ
  scaleOut : List (ScaleOutStage F)
  breakevenAfterPartial : Bool
  trailingAtrMult : Option F
  trailingEntryGate : Bool
  scaleOut_valid : scaleOut.isEmpty || (ScaledTakeProfit.new scaleOut).isOk
  initialStop_valid : ∀ k, initialStop = .atrMultiple k → ExitFloat.isFinite k ∧ lit 0 < k
  trailing_valid : ∀ k, trailingAtrMult = some k → ExitFloat.isFinite k ∧ lit 0 < k
  period_pos : 1 ≤ atrPeriod

/-- What is frozen of a position. -/
structure OpenState (F : Type) [ExitFloat F] where
  rm : RMultiple F
  entryShares : UInt32
  stop : StructuralStop F
  takeProfit : Option (ScaledTakeProfit F)
  trailing : Option (PeakTrailingStop F)

structure ExitPolicy (F : Type) [ExitFloat F] where
  config : ExitPolicyConfig F
  atr : WilderAtr F
  openState : Option (OpenState F)

/-- The lowest low of the last `n` visible bars. -/
def recentLow (bars : List (Bar F)) (n : ℕ) : Option F :=
  match (bars.drop (bars.length - max n 1)).map (·.low) with
  | [] => none
  | low :: lows => some (lows.foldl min low)

namespace ExitPolicy

def new (config : ExitPolicyConfig F) : ExitPolicy F where
  config := config
  atr := .new config.atrPeriod
  openState := none

/-- `open_position`. -/
def openPosition (config : ExitPolicyConfig F) (ctx : StrategyContext F) (entryPrice : F)
    (entryShares : UInt32) (atrNow : Option F) : Option (OpenState F) :=
  let stopPrice := match config.initialStop with
    | .atrMultiple k => match atrNow with
      | some atr => some (entryPrice - k * atr)
      | none => recentLow ctx.bars ctx.bars.length
    | .recentLow n => recentLow ctx.bars n
    | .fixedFraction f => some (entryPrice * (lit 1 - f))
  stopPrice.bind fun stopPrice => (RMultiple.new entryPrice stopPrice).map fun rm =>
    { rm := rm
      entryShares := entryShares
      stop := ⟨stopPrice⟩
      takeProfit := if config.scaleOut.isEmpty then none else some ⟨config.scaleOut, 0⟩
      trailing := config.trailingAtrMult.map fun k => .new k entryPrice config.trailingEntryGate }

def stopReason (stop : StructuralStop F) (low fillRef : F) : String :=
  "structural stop " ++ FixedFloat.fixed 4 stop.price ++ " hit (low " ++ FixedFloat.fixed 4 low ++
    "), fill ref " ++ FixedFloat.fixed 4 fillRef

def scaleOutReason (rm : RMultiple F) (stage : ScaleOutStage F) (high : F) : String :=
  ExitFloat.display stage.r ++ "R scale-out " ++ FixedFloat.fixed 0 (stage.ratio * lit 100) ++ "% at target " ++
    FixedFloat.fixed 4 (rm.targetPrice stage.r) ++ " (high " ++ FixedFloat.fixed 4 high ++ ")"

def trailReason (trail : PeakTrailingStop F) (close level : F) : String :=
  "peak trailing stop: close " ++ FixedFloat.fixed 4 close ++ " <= peak " ++ FixedFloat.fixed 4 trail.peak ++
    " - ATR trail " ++ FixedFloat.fixed 4 level

/-- The trailing stop after a bar, and the level that it hits. -/
def trail (state : OpenState F) (close : F) : Option F → Option (PeakTrailingStop F) × Option F
  | none => (state.trailing, none)
  | some atr => match state.trailing with
    | none => (none, none)
    | some tracker => (some (tracker.update close atr).1, (tracker.update close atr).2)

/-- The shares of a scale-out leg. -/
def legShares (entryShares : UInt32) (stage : ScaleOutStage F) : UInt32 :=
  max (ExitFloat.floorU32 (ofU32 entryShares * stage.ratio)) 1

/-- What `on_bar` does with a position whose entry is frozen. -/
def evaluate (config : ExitPolicyConfig F) (state : OpenState F) (bar : Bar F) (atrNow : Option F) :
    OpenState F × List Order :=
  let trailed := trail state bar.close atrNow
  let state := { state with trailing := trailed.1 }
  match state.stop.check bar.openPrice bar.low with
  | some fillRef =>
    (state, [{ side := .sell, qty := .max, reason := stopReason state.stop bar.low fillRef }])
  | none =>
    match state.takeProfit.map (·.onPrice state.rm bar.high) with
    | some (tp, some stage) =>
      ({ state with
          takeProfit := some tp
          stop := if config.breakevenAfterPartial then state.stop.raise state.rm.entryPrice else state.stop },
        [{ side := .sell
           qty := .shares (legShares state.entryShares stage)
           reason := scaleOutReason state.rm stage bar.high }])
    | _ =>
      match trailed.2, trailed.1 with
      | some level, some tracker =>
        (state, [{ side := .sell, qty := .max, reason := trailReason tracker bar.close level }])
      | _, _ => (state, [])

/-- `on_bar`, with the bar that the context ends at. -/
def onBar (policy : ExitPolicy F) (ctx : StrategyContext F) (bar : Bar F) : ExitPolicy F × List Order :=
  let (atr, atrNow) := policy.atr.update ⟨bar.high, bar.low, bar.close⟩
  let policy := { policy with atr := atr }
  if ctx.position.shares = 0 then ({ policy with openState := none }, [])
  else match policy.openState with
    | none =>
      ({ policy with
          openState := openPosition policy.config ctx ctx.position.avgCost ctx.position.shares atrNow }, [])
    | some state =>
      let (state, orders) := evaluate policy.config state bar atrNow
      ({ policy with openState := some state }, orders)

end ExitPolicy

/-- `ExitManaged`: the orders of the policy replace those of the strategy. Every context that the engine
builds ends at a bar. -/
def exitManaged {σ : Type} (inner : Strategy F σ) : Strategy F (σ × ExitPolicy F) where
  onBar s ctx t :=
    match ctx.bars[ctx.current]? with
    | none => (s, [])
    | some bar =>
      let (policy, exits) := s.2.onBar ctx bar
      if exits.isEmpty then
        let (inner', orders) := inner.onBar s.1 ctx t
        ((inner', policy), orders)
      else ((s.1, policy), exits)

end Astock
