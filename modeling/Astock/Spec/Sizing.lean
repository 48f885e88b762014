import Astock.Lib.Float64

/-!
# Position sizing

`risk_order_ceiling` of `crates/trading-rules/src/exit.rs`: the largest order in whole lots that
every constraint permits. Numbers are any `SizingFloat`, and counts of shares any `ShareCount`: the
wrapping 32 bits of the source, or counts without a limit.
-/

namespace Astock.Sizing

open Float64

/-- What position sizing asks of `f64` besides arithmetic. -/
class SizingFloat (F : Type) extends Float64 F, Min F where
  isFinite : F → Bool
  abs : F → F

instance SizingFloat.exact : SizingFloat ℚ where
  isFinite _ := true
  abs x := |x|

/-- Counts of shares. -/
class ShareCount (F N : Type) extends Mul N, Sub N where
  ofU32 : UInt32 → N
  toNat : N → ℕ
  /-- `n as f64`. -/
  toFloat : N → F
  /-- `(x / y).floor().max(0.0)`, converted to a count. -/
  quotient : F → F → N
  /-- How often a loop that takes something off a count can run. -/
  rounds : N → ℕ

instance ShareCount.u32 {F : Type} [Float64 F] : ShareCount F UInt32 where
  ofU32 := id
  toNat := UInt32.toNat
  toFloat := Float64.ofU32
  quotient := Float64.quotient
  rounds _ := 2 ^ 32

instance ShareCount.unbounded : ShareCount ℚ ℕ where
  ofU32 := UInt32.toNat
  toNat := id
  toFloat n := n
  quotient x y := ⌊x / y⌋.toNat
  rounds n := n + 1

/-! ## Inputs -/

structure SizingInputs (F : Type) where
  price : F
  equity : F
  cash : F
  currentPositionValue : F
  totalMarketValue : F
  stopDistancePerShare : F
  avgDailyVolumeShares : Option F

structure SizingConstraints (F : Type) where
  perTradeRiskPct : F
  totalPositionCapPct : F
  singleNameCapPct : F
  liquidityParticipationPct : Option F
  lotSize : UInt32
  buyFeeRate : F
  buyMinFee : F
  cashReservePct : Option F

inductive BindingConstraint
  | invalidInputs
  | perTradeRiskBudget
  | stopDistance
  | totalExposure
  | singleName
  | liquidity
  | cash
  | cashAfterFees
  | cashReserveAfterFees
  deriving DecidableEq, Repr

/-- The order that the source derives: as declared. -/
def BindingConstraint.rank : BindingConstraint → ℕ
  | invalidInputs => 0
  | perTradeRiskBudget => 1
  | stopDistance => 2
  | totalExposure => 3
  | singleName => 4
  | liquidity => 5
  | cash => 6
  | cashAfterFees => 7
  | cashReserveAfterFees => 8

structure SizingResult (F N : Type) where
  shares : N
  gross : F
  binding : List BindingConstraint

/-! ## The caps -/

variable {F N : Type} [SizingFloat F] (inputs : SizingInputs F) (cons : SizingConstraints F)

/-- `f64::clamp`. -/
def clamp (x lo hi : F) : F := if x < lo then lo else if hi < x then hi else x

/-- The inputs are degenerate. -/
def Invalid : Prop :=
  SizingFloat.isFinite inputs.price = false ∨ SizingFloat.isFinite inputs.equity = false ∨
    SizingFloat.isFinite inputs.cash = false ∨
    SizingFloat.isFinite inputs.stopDistancePerShare = false ∨ inputs.price ≤ lit 0 ∨
    inputs.equity ≤ lit 0 ∨ inputs.cash < lit 0 ∨ inputs.stopDistancePerShare ≤ lit 0 ∨
    cons.lotSize = 0

instance : Decidable (Invalid inputs cons) := by
  unfold Invalid
  infer_instance

/-- The first of the caps. -/
def riskBudget : F :=
  let riskCny := max (cons.perTradeRiskPct * inputs.equity) (lit 0)
  let lossPct := inputs.stopDistancePerShare / inputs.price
  max (riskCny / lossPct) (lit 0)

/-- The liquidity cap, if it is configured. -/
def liquidityCap : List (BindingConstraint × F) :=
  match cons.liquidityParticipationPct, inputs.avgDailyVolumeShares with
  | some part, some vol => [(.liquidity, max (part * vol * inputs.price) (lit 0))]
  | _, _ => []

/-- The other caps, in the order of the source. -/
def otherCaps : List (BindingConstraint × F) :=
  let riskCny := max (cons.perTradeRiskPct * inputs.equity) (lit 0)
  [(.stopDistance, max (riskCny / inputs.stopDistancePerShare) (lit 0) * inputs.price),
    (.totalExposure,
      max (cons.totalPositionCapPct * inputs.equity - inputs.totalMarketValue) (lit 0)),
    (.singleName,
      max (cons.singleNameCapPct * inputs.equity - inputs.currentPositionValue) (lit 0)),
    (.cash, max inputs.cash (lit 0))] ++
  liquidityCap inputs cons

def caps : List (BindingConstraint × F) :=
  (.perTradeRiskBudget, riskBudget inputs cons) :: otherCaps inputs cons

/-- The least cap. The fold of the source starts from infinity, which the first cap replaces: no cap
is NaN. -/
def grossLimit : F := ((otherCaps inputs cons).map Prod.snd).foldl min (riskBudget inputs cons)

/-- The caps that are as low as the least, to `1e-7`. -/
def bindingCaps : List BindingConstraint :=
  ((caps inputs cons).filter fun cap =>
    SizingFloat.abs (cap.2 - grossLimit inputs cons) ≤ lit (1 / 10 ^ 7)).map Prod.fst

/-! ## Fees and cash -/

def estFee (gross : F) : F := max (gross * cons.buyFeeRate) cons.buyMinFee

/-- Cost and fee are above cash. -/
def overCash (gross : F) : Prop :=
  inputs.cash + lit (1 / 10 ^ 9) < gross + estFee cons gross

/-- The trade would breach the cash reserve. -/
def belowReserve (gross : F) : Prop :=
  match cons.cashReservePct with
  | none => False
  | some reservePct =>
    let fee := estFee cons gross
    let equityAfter := max (inputs.equity - fee) (lit 0)
    let cashAfter := inputs.cash - gross - fee
    let reserveNeeded := clamp reservePct (lit 0) (lit 1) * equityAfter
    cashAfter + lit (1 / 10 ^ 9) < reserveNeeded

instance (gross : F) : Decidable (overCash inputs cons gross) := by
  unfold overCash
  infer_instance

instance (gross : F) : Decidable (belowReserve inputs cons gross) := by
  unfold belowReserve
  split <;> infer_instance

/-! ## The order -/

variable [DecidableEq N] [ShareCount F N]

/-- The loop that drops one lot at a time, with what it was reduced for: cash, or the reserve. -/
def shrink : ℕ → N → Bool → Bool → Option (N × Bool × Bool)
  | 0, _, _, _ => none
  | rounds + 1, shares, forCash, forReserve =>
    if shares = ShareCount.ofU32 F 0 then some (shares, forCash, forReserve)
    else
      let gross := ShareCount.toFloat shares * inputs.price
      if overCash inputs cons gross then
        shrink rounds (shares - ShareCount.ofU32 F cons.lotSize) true forReserve
      else if belowReserve inputs cons gross then
        shrink rounds (shares - ShareCount.ofU32 F cons.lotSize) forCash true
      else some (shares, forCash, forReserve)

variable (N) in
omit [DecidableEq N] in
/-- The gross limit in whole lots. -/
def lots : N :=
  ShareCount.quotient (grossLimit inputs cons / inputs.price) (ofU32 cons.lotSize)

/-- The binding constraints after the loop, before they are sorted. -/
def reducedBinding (binding : List BindingConstraint) (forCash forReserve : Bool) :
    List BindingConstraint :=
  if forCash || forReserve then
    (if forCash then [.cashAfterFees] else []) ++
      (if forReserve then [.cashReserveAfterFees] else [])
  else binding

variable (N) in
/-- `risk_order_ceiling`; without a value where the loop does not end. -/
def riskOrderCeiling : Option (SizingResult F N) :=
  if Invalid inputs cons then
    some { shares := ShareCount.ofU32 F 0, gross := lit 0, binding := [.invalidInputs] }
  else
    let start : N := lots N inputs cons * ShareCount.ofU32 F cons.lotSize
    (shrink inputs cons (ShareCount.rounds F start) start false false).map
      fun (shares, forCash, forReserve) =>
        let binding := reducedBinding (bindingCaps inputs cons) forCash forReserve
        { shares := shares
          gross := ShareCount.toFloat shares * inputs.price
          binding := (binding.insertionSort fun a b => a.rank ≤ b.rank).destutter (· ≠ ·) }

end Astock.Sizing
