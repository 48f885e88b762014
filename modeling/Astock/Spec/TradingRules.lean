import Astock.Lib.Float64
import Astock.Lib.Text

/-!
# Trading rules

`crates/trading-rules/src/{lib,model}.rs`: the boards, with their lots and price limits, and the fees
of a trade at a date. The rules are data of a file.
-/

namespace Astock

open Float64

variable {F : Type} [Float64 F]

/-! ## Boards -/

structure BoardRule (F : Type) where
  id : String
  name : String
  market : String
  prefixes : List String
  priceLimitPct : F
  stPriceLimitPct : F
  ipoNoLimitDays : UInt32
  minLot : UInt32
  lotStep : UInt32
  tPlus1 : Bool

/-- The rules of a board resolved for a symbol. -/
structure BoardRules (F : Type) where
  boardId : String
  boardName : String
  market : String
  minLot : UInt32
  lotStep : UInt32
  tPlus1 : Bool
  ipoNoLimitDays : UInt32
  regularLimitPct : F
  stPriceLimitPct : F
  deriving DecidableEq

def BoardRules.fromRule (rule : BoardRule F) : BoardRules F where
  boardId := rule.id
  boardName := rule.name
  market := rule.market
  minLot := rule.minLot
  lotStep := rule.lotStep
  tPlus1 := rule.tPlus1
  ipoNoLimitDays := rule.ipoNoLimitDays
  regularLimitPct := rule.priceLimitPct
  stPriceLimitPct := rule.stPriceLimitPct

/-- Round to 2 decimal places. -/
def round2 (x : F) : F := Float64.round (x * lit 100) / lit 100

namespace BoardRules

variable (board : BoardRules F)

def priceLimitPct (isSt : Bool) : F := if isSt then board.stPriceLimitPct else board.regularLimitPct

def limitUpPrice (prevClose : F) (isSt : Bool) : F :=
  round2 (prevClose * (lit 1 + board.priceLimitPct isSt))

def limitDownPrice (prevClose : F) (isSt : Bool) : F :=
  round2 (prevClose * (lit 1 - board.priceLimitPct isSt))

/-- `u32::is_multiple_of`: only zero is a multiple of zero. -/
def isMultipleOf (n step : UInt32) : Bool := if step = 0 then n = 0 else n % step = 0

def isValidLot (shares : UInt32) : Bool :=
  board.minLot ≤ shares && isMultipleOf (shares - board.minLot) board.lotStep

end BoardRules

/-! ## Fees -/

inductive FeeKind
  | commission
  | stampTax
  | transferFee
  deriving DecidableEq, Repr

inductive TradeSide
  | buy
  | sell
  deriving DecidableEq, Repr

inductive FeeSide
  | buy
  | sell
  | both
  deriving DecidableEq, Repr

def FeeSide.covers : FeeSide → TradeSide → Bool
  | both, _ => true
  | buy, side => side = .buy
  | sell, side => side = .sell

structure FeeRule (F : Type) where
  kind : FeeKind
  rate : F
  side : FeeSide
  minFee : Option F
  markets : List String
  effectiveDate : ℤ

/-- The fees of one trade. -/
structure TradeCost (F : Type) where
  commission : F
  stampTax : F
  transferFee : F
  total : F
  deriving DecidableEq

/-- `TradeCost::default`. -/
def TradeCost.zero : TradeCost F where
  commission := lit 0
  stampTax := lit 0
  transferFee := lit 0
  total := lit 0

structure RuleSet (F : Type) where
  boards : List (BoardRule F)
  fees : List (FeeRule F)

/-- `normalize_symbol`: the code without the decorations of the exchange. -/
def normalizeSymbol (symbol : String) : String :=
  String.ofList (((Text.trim symbol).toList.takeWhile (· ≠ '.')).dropWhile fun c =>
    ('a' ≤ c && c ≤ 'z') || ('A' ≤ c && c ≤ 'Z'))

/-- The best board so far, with the length of its prefix. -/
def betterBoard (code : String) (board : BoardRule F) (best : Option (BoardRule F × ℕ))
    (word : String) : Option (BoardRule F × ℕ) :=
  if Text.startsWith code word ∧ best.all (fun b => b.2 < word.utf8ByteSize) then
    some (board, word.utf8ByteSize)
  else best

namespace RuleSet

variable (rules : RuleSet F)

/-- `RuleSet::for_symbol`: the board of the longest prefix. -/
def forSymbol (symbol : String) : Option (BoardRules F) :=
  let code := normalizeSymbol symbol
  let best := rules.boards.foldl (fun best board =>
    board.prefixes.foldl (betterBoard code board) best) none
  best.map fun b => .fromRule b.1

/-- One round of the loop of `fees_at`: the latest entry of each kind stays. -/
def selectFee (date : ℤ) (market : Option String) (selected : List (FeeRule F)) (fee : FeeRule F) :
    List (FeeRule F) :=
  if date < fee.effectiveDate then selected
  else if !(fee.markets.isEmpty || market.any (fee.markets.contains ·)) then selected
  else
    match selected.find? (·.kind = fee.kind) with
    | some existing =>
      if existing.effectiveDate < fee.effectiveDate then
        selected.map fun f => if f.kind = fee.kind then fee else f
      else selected
    | none => selected ++ [fee]

def feesAt (date : ℤ) (market : Option String) : List (FeeRule F) :=
  rules.fees.foldl (selectFee date market) []

/-- One round of the loop of `trade_cost_at`. -/
def addFee (side : TradeSide) (amount : F) (cost : TradeCost F) (fee : FeeRule F) : TradeCost F :=
  if !fee.side.covers side then cost
  else
    let value := amount * fee.rate
    let value := match fee.minFee with
      | some minFee => max value minFee
      | none => value
    match fee.kind with
    | .commission => { cost with commission := cost.commission + value }
    | .stampTax => { cost with stampTax := cost.stampTax + value }
    | .transferFee => { cost with transferFee := cost.transferFee + value }

def tradeCostAt (side : TradeSide) (amount : F) (market : Option String) (date : ℤ) : TradeCost F :=
  let cost := (rules.feesAt date market).foldl (addFee side amount) .zero
  { cost with total := cost.commission + cost.stampTax + cost.transferFee }

end RuleSet

end Astock
