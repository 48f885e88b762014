import Astock.Lib.AnalyticFloat
import Astock.Lib.Prog

/-!
# The calculation language

`crates/compute/src/lib.rs`: programs over series of observations are validated and evaluated with a
fuel meter. An evaluation is a program over the fuel used so far. It is left with an error of the
source, or with `panic` where an index, a slice or a subtraction of the source is out of range; the
length of a vector and the counters of the source are natural numbers, because their limits stop
them long before they would wrap.

The fingerprint, which is the digest of a serialised program, is a parameter.
-/

namespace Astock.Compute

open Prog Float64 AnalyticFloat

def languageVersion : UInt8 := 1
def maxInputs : ℕ := 32
def maxSeriesLen : ℕ := 5000
def maxTotalInputPoints : ℕ := 100000
def maxBindings : ℕ := 64
def maxOutputs : ℕ := 32
def maxAstNodes : ℕ := 1024
def maxAstDepth : ℕ := 32
def maxFuel : ℕ := 5000000

/-- A map with its keys in order. -/
structure BTreeMap (V : Type) where
  entries : List (String × V)
  ordered : (entries.map Prod.fst).Pairwise (· < ·)

/-- Closed expression set for the v1 language. -/
inductive Expr (F : Type)
  | scalar (value : F)
  | var (name : String)
  | add (left right : Expr F)
  | sub (left right : Expr F)
  | mul (left right : Expr F)
  | div (left right : Expr F)
  | neg (input : Expr F)
  | abs (input : Expr F)
  | clip (input : Expr F) (min max : F)
  | lag (input : Expr F) (periods : ℕ)
  | diff (input : Expr F)
  | returns (input : Expr F)
  | logReturns (input : Expr F)
  | cumulativeReturn (input : Expr F)
  | sma (input : Expr F) (window : ℕ)
  | ema (input : Expr F) (window : ℕ)
  | rollingStd (input : Expr F) (window : ℕ) (annualization : Option F)
  | zscore (input : Expr F) (window : ℕ)
  | rsi (input : Expr F) (window : ℕ)
  | tail (input : Expr F) (count : ℕ)
  | mean (input : Expr F)
  | std (input : Expr F)
  | sum (input : Expr F)
  | min (input : Expr F)
  | max (input : Expr F)
  | last (input : Expr F)
  | count (input : Expr F)
  | correlation (left right : Expr F)
  | maxDrawdown (input : Expr F)

structure Binding (F : Type) where
  name : String
  expr : Expr F

/-- One calculation program. -/
structure Program (F : Type) where
  version : UInt8
  inputs : BTreeMap (List (Option F))
  bindings : List (Binding F)
  outputs : BTreeMap (Expr F)

inductive ComputedValue (F : Type)
  | scalar (value : Option F)
  | series (values : List (Option F))
  deriving DecidableEq

structure Execution (F : Type) where
  language : String
  languageVersion : UInt8
  programSha256 : String
  fuelUsed : ℕ
  outputs : List (String × ComputedValue F)
  semantics : List String

inductive ComputeError
  | invalid (text : String)
  | unknownVariable (name : String)
  | type (text : String)
  | limit (text : String)
  | fingerprint (text : String)
  deriving DecidableEq, Repr

/-- How an evaluation ends without a value. -/
inductive Stop
  | error (e : ComputeError)
  | panic
  deriving DecidableEq, Repr

variable {F : Type} [AnalyticFloat F]

/-! ## Validation -/

/-- Leave with an error when a check does not pass. -/
def failIf (c : Prop) [Decidable c] (e : ComputeError) : Except ComputeError Unit :=
  if c then throw e else pure ()

/-- The checks read bytes; a byte that is not ASCII passes none of them, as its character does
here. -/
def validateName (name : String) : Except ComputeError Unit :=
  match name.toList with
  | [] => throw (.invalid "calculation identifiers must not be empty")
  | first :: rest =>
    failIf (64 < name.utf8ByteSize || !(first.isAlpha || first == '_') ||
        !rest.all fun c => c.isAlphanum || c == '_')
      (.invalid s!"\x60{name}\x60 is not a valid calculation identifier")

def validateWindow (window : ℕ) : Except ComputeError Unit :=
  failIf (¬(1 ≤ window ∧ window ≤ maxSeriesLen))
    (.limit s!"rolling window must be between 1 and {maxSeriesLen}")

/-- `!value.is_finite() || value.abs() > 1e100` -/
def unreasonable (value : F) : Bool := !isFinite value || decide (lit (10 ^ 100) < abs value)

/-- The number of nodes seen, or what is wrong with the expression. -/
def validateExpr : Expr F → (depth nodes : ℕ) → Except ComputeError ℕ
  | expr, depth, nodes => do
    let nodes := nodes + 1
    failIf (maxAstNodes < nodes) (.limit s!"AST exceeds {maxAstNodes} nodes")
    failIf (maxAstDepth < depth) (.limit s!"AST exceeds depth {maxAstDepth}")
    match expr with
    | .scalar value =>
      failIf (unreasonable value) (.invalid "scalar must be finite and reasonably bounded")
      return nodes
    | .var name =>
      validateName name
      return nodes
    | .add left right | .sub left right | .mul left right | .div left right
    | .correlation left right =>
      let nodes ← validateExpr left (depth + 1) nodes
      validateExpr right (depth + 1) nodes
    | .neg input | .abs input | .diff input | .returns input | .logReturns input
    | .cumulativeReturn input | .mean input | .std input | .sum input | .min input | .max input
    | .last input | .count input | .maxDrawdown input => validateExpr input (depth + 1) nodes
    | .clip input min max =>
      failIf (!isFinite min || !isFinite max || decide (max < min))
        (.invalid "clip bounds must be finite and ordered")
      validateExpr input (depth + 1) nodes
    | .lag input periods =>
      failIf (maxSeriesLen < periods) (.limit s!"lag cannot exceed {maxSeriesLen} periods")
      validateExpr input (depth + 1) nodes
    | .sma input window | .ema input window | .zscore input window | .rsi input window =>
      validateWindow window
      validateExpr input (depth + 1) nodes
    | .rollingStd input window annualization =>
      validateWindow window
      failIf (annualization.any fun value =>
          !isFinite value || decide (value ≤ lit 0) || decide (lit 100000 < value))
        (.invalid "annualization must be finite and between 0 and 100000")
      validateExpr input (depth + 1) nodes
    | .tail input count =>
      failIf (count = 0 ∨ maxSeriesLen < count)
        (.limit s!"tail count must be between 1 and {maxSeriesLen}")
      validateExpr input (depth + 1) nodes

/-- The loop over the inputs: their names, after the total number of points is checked. -/
def validateInputs (totalPoints : ℕ) :
    List (String × List (Option F)) → Except ComputeError (List String)
  | [] => pure []
  | (name, values) :: rest => do
    validateName name
    failIf (values.isEmpty || decide (maxSeriesLen < values.length))
      (.limit s!"input \x60{name}\x60 must contain 1-{maxSeriesLen} observations")
    let totalPoints := totalPoints + values.length
    failIf (maxTotalInputPoints < totalPoints)
      (.limit s!"inputs exceed {maxTotalInputPoints} total observations")
    failIf ((values.filterMap id).any unreasonable)
      (.invalid s!"input \x60{name}\x60 contains a non-finite or unreasonable value")
    let names ← validateInputs totalPoints rest
    return name :: names

def validateBindings (names : List String) : List (Binding F) → Except ComputeError Unit
  | [] => pure ()
  | binding :: rest => do
    validateName binding.name
    failIf (binding.name ∈ names)
      (.invalid s!"variable \x60{binding.name}\x60 is declared more than once")
    validateBindings (binding.name :: names) rest

/-- The loops over the expressions of bindings and outputs. -/
def validateExprs (nodes : ℕ) : List (Expr F) → Except ComputeError ℕ
  | [] => pure nodes
  | expr :: rest => do
    let nodes ← validateExpr expr 1 nodes
    validateExprs nodes rest

def validate (program : Program F) : Except ComputeError Unit := do
  failIf (program.version ≠ languageVersion)
    (.invalid s!"version must be {languageVersion}")
  failIf (maxInputs < program.inputs.entries.length)
    (.limit s!"at most {maxInputs} input series are allowed")
  failIf (maxBindings < program.bindings.length)
    (.limit s!"at most {maxBindings} bindings are allowed")
  failIf (program.outputs.entries.isEmpty || decide (maxOutputs < program.outputs.entries.length))
    (.limit s!"outputs must contain 1-{maxOutputs} values")
  let names ← validateInputs 0 program.inputs.entries
  validateBindings names program.bindings
  program.outputs.entries.forM fun output => validateName output.1
  let nodes ← validateExprs 0 (program.bindings.map Binding.expr)
  let _ ← validateExprs nodes (program.outputs.entries.map Prod.snd)

/-! ## Operations on series

`none` is a panic. -/

/-- `a - b` on `usize`. -/
def checkedSub (a b : ℕ) : Option ℕ := if b ≤ a then some (a - b) else none

/-- `&values[start..stop]` -/
def slice {α : Type} (values : List α) (start stop : ℕ) : Option (List α) :=
  if start ≤ stop ∧ stop ≤ values.length then some ((values.take stop).drop start) else none

/-- `destination[start..].clone_from_slice(source)` -/
def cloneFromSlice {α : Type} (destination : List α) (start : ℕ) (source : List α) :
    Option (List α) := do
  let part ← slice destination start destination.length
  if part.length = source.length then some (destination.take start ++ source) else none

def finite (value : F) : Option F := if isFinite value then some value else none

/-- `value.clamp(min, max)` -/
def clamp (value min max : F) : Option F :=
  if min ≤ max then
    let value := if value < min then min else value
    some (if max < value then max else value)
  else none

def zipNumber (left right : Option F) (operation : F → F → Option F) : Option F := do
  operation (← left) (← right)

/-- `values.windows(2)` are the pairs of neighbours. -/
def pairChange (values : List (Option F)) (operation : F → F → Option F) : List (Option F) :=
  if values.isEmpty then []
  else none :: (values.zip values.tail).map fun (previous, current) => do
    let previous ← previous
    let current ← current
    operation current previous

def lag (values : List (Option F)) (periods : ℕ) : Option (List (Option F)) :=
  let output := List.replicate values.length none
  if periods < values.length then do
    let kept ← checkedSub values.length periods
    cloneFromSlice output periods (← slice values 0 kept)
  else some output

/-- The sums of `rolling_with_current`. -/
structure Moments (F : Type) where
  sum : F
  sumSq : F
  missing : ℕ

def Moments.enter (m : Moments F) : Option F → Moments F
  | some value => { m with sum := m.sum + value, sumSq := m.sumSq + value * value }
  | none => { m with missing := m.missing + 1 }

def Moments.leave (m : Moments F) : Option F → Option (Moments F)
  | some value => some { m with sum := m.sum - value, sumSq := m.sumSq - value * value }
  | none => do
    let missing ← checkedSub m.missing 1
    some { m with missing }

/-- The observation that leaves the window, once it is full. -/
def Moments.slide (m : Moments F) (values : List (Option F)) (window index : ℕ) :
    Option (Moments F) :=
  if window ≤ index then do
    let left ← checkedSub index window
    m.leave (← values[left]?)
  else some m

/-- The loop of `rolling_with_current` from an index on. -/
def rollingFrom (values : List (Option F)) (window : ℕ) (operation : F → F → F → ℕ → Option F)
    (index : ℕ) (m : Moments F) : List (Option F) → Option (List (Option F))
  | [] => some []
  | value :: rest => do
    let m ← (m.enter value).slide values window index
    let output := if window ≤ index + 1 ∧ m.missing = 0 then
      value.bind fun current => operation current m.sum m.sumSq window
    else none
    return output :: (← rollingFrom values window operation (index + 1) m rest)

def rollingWithCurrent (values : List (Option F)) (window : ℕ)
    (operation : F → F → F → ℕ → Option F) : Option (List (Option F)) :=
  rollingFrom values window operation 0 { sum := lit 0, sumSq := lit 0, missing := 0 } values

def rolling (values : List (Option F)) (window : ℕ) (operation : F → F → ℕ → Option F) :
    Option (List (Option F)) :=
  rollingWithCurrent values window fun _ sum sumSq window => operation sum sumSq window

def variance (sum sumSq : F) (count : ℕ) : F :=
  max (sumSq / lit count - powi (sum / lit count) 2) (lit 0)

/-- The loop of `CumulativeReturn`. -/
def wealthFrom (wealth : F) : List (Option F) → List (Option F)
  | [] => []
  | some value :: rest =>
    if lit (-1) < value then
      let wealth := wealth * (lit 1 + value)
      finite (wealth - lit 1) :: wealthFrom wealth rest
    else none :: wealthFrom wealth rest
  | none :: rest => none :: wealthFrom wealth rest

/-- The loop of `Ema`. -/
def emaFrom (alpha : F) (current : Option F) : List (Option F) → List (Option F)
  | [] => []
  | none :: rest => none :: emaFrom alpha current rest
  | some value :: rest =>
    let current := match current with
      | none => some value
      | some previous => finite (alpha * value + (lit 1 - alpha) * previous)
    current :: emaFrom alpha current rest

/-- The gain and the loss between two observations. -/
def move (previous current : Option F) : Option F × Option F :=
  match previous, current with
  | some previous, some current =>
    let change := current - previous
    (some (max change (lit 0)), some (max (-change) (lit 0)))
  | _, _ => (none, none)

/-- An iteration of the first loop of `rsi`. -/
def moveAt (values : List (Option F)) (index : ℕ) : Option (Option F × Option F) := do
  return move (← values[← checkedSub index 1]?) (← values[index]?)

/-- A value of the index, from an average gain and an average loss. -/
def strength : Option F → Option F → Option F
  | some gain, some loss =>
    if loss == lit 0 then some (if gain == lit 0 then lit 50 else lit 100)
    else some (lit 100 - lit 100 / (lit 1 + gain / loss))
  | _, _ => none

/-- An iteration of the last loop of `rsi`. -/
def strengthAt (rollingGains rollingLosses : List (Option F)) (index : ℕ) : Option (Option F) := do
  let before ← checkedSub index 1
  return strength (← rollingGains[before]?) (← rollingLosses[before]?)

/-- The average gains and losses of `rsi`, from the second observation on. -/
def averageMoves (values : List (Option F)) (window : ℕ) :
    Option (List (Option F) × List (Option F)) := do
  let moves ← (List.range' 1 (values.length - 1)).mapM (moveAt values)
  let gains := none :: moves.map Prod.fst
  let losses := none :: moves.map Prod.snd
  let rollingGains ← rolling (← slice gains 1 gains.length) window fun sum _ window =>
    some (sum / lit window)
  let rollingLosses ← rolling (← slice losses 1 losses.length) window fun sum _ window =>
    some (sum / lit window)
  return (rollingGains, rollingLosses)

def rsi (values : List (Option F)) (window : ℕ) : Option (List (Option F)) :=
  if values.length ≤ window then some (List.replicate values.length none)
  else do
    let (rollingGains, rollingLosses) ← averageMoves values window
    let output ←
      (List.range' window (values.length - window)).mapM (strengthAt rollingGains rollingLosses)
    return List.replicate window none ++ output

def sumOf (values : List F) : F := values.foldl (· + ·) (lit 0)

/-- `Iterator::reduce` -/
def reduceWith (operation : F → F → F) : List F → Option F
  | [] => none
  | first :: rest => some (rest.foldl operation first)

def correlation (pairs : List (F × F)) : Option F :=
  if pairs.length < 2 then none
  else
    let count : F := lit pairs.length
    let meanLeft := sumOf (pairs.map Prod.fst) / count
    let meanRight := sumOf (pairs.map Prod.snd) / count
    let covariance :=
      sumOf (pairs.map fun pair => (pair.1 - meanLeft) * (pair.2 - meanRight)) / count
    let varianceLeft := sumOf (pairs.map fun pair => powi (pair.1 - meanLeft) 2) / count
    let varianceRight := sumOf (pairs.map fun pair => powi (pair.2 - meanRight) 2) / count
    let denominator := sqrt (varianceLeft * varianceRight)
    if denominator == lit 0 then none else finite (covariance / denominator)

/-- The variables of the loop of `MaxDrawdown`. -/
structure Drawdown (F : Type) where
  peak : Option F
  worst : F
  observed : Bool

def Drawdown.observe (s : Drawdown F) (value : F) : Drawdown F :=
  let peak := match s.peak with
    | none => value
    | some current => max current value
  if peak == lit 0 then { s with peak := some peak }
  else { peak := some peak, worst := min s.worst (value / peak - lit 1), observed := true }

def maxDrawdown (values : List F) : Option F :=
  let s := values.foldl Drawdown.observe { peak := none, worst := lit 0, observed := false }
  if s.observed then some s.worst else none

/-! ## Evaluation -/

def ComputedValue.cost : ComputedValue F → ℕ
  | scalar _ => 1
  | series values => values.length.max 1

/-- `Fuel::consume` -/
def consume (amount : ℕ) : Prog ℕ Stop Unit := do
  modify fun used => used + amount.max 1
  guardOr ((← get) ≤ maxFuel) (.error (.limit s!"program consumed more than {maxFuel} fuel units"))

/-- What panics ends the evaluation. -/
def orPanic {α : Type} : Option α → Prog ℕ Stop α
  | some a => pure a
  | none => throw .panic

abbrev Env (F : Type) := String → Option (ComputedValue F)

def Env.insert (env : Env F) (name : String) (value : ComputedValue F) : Env F :=
  Function.update env name (some value)

/-- `eval_series`, given the evaluation of its expression. -/
def evalSeries (value : Prog ℕ Stop (ComputedValue F)) (operation : String) :
    Prog ℕ Stop (List (Option F)) := do
  match ← value with
  | .series values => pure values
  | .scalar _ => throw (.error (.type s!"{operation} requires a series"))

/-- `value.and_then(operation)`, for an operation that can panic. -/
def andThen (operation : F → Option (Option F)) : Option F → Option (Option F)
  | some value => operation value
  | none => some none

def unary (value : Prog ℕ Stop (ComputedValue F)) (operation : F → Option (Option F)) :
    Prog ℕ Stop (ComputedValue F) := do
  let value ← value
  consume value.cost
  match value with
  | .scalar value => return .scalar (← orPanic (andThen operation value))
  | .series values => return .series (← orPanic (values.mapM (andThen operation)))

def binary (left right : Prog ℕ Stop (ComputedValue F)) (operation : F → F → Option F) :
    Prog ℕ Stop (ComputedValue F) := do
  let left ← left
  let right ← right
  consume (left.cost.max right.cost)
  match left, right with
  | .scalar left, .scalar right => return .scalar (zipNumber left right operation)
  | .series values, .scalar right =>
    return .series (values.map fun left => zipNumber left right operation)
  | .scalar left, .series values =>
    return .series (values.map fun right => zipNumber left right operation)
  | .series left, .series right =>
    guardOr (left.length = right.length)
      (.error (.type "binary series operands must have equal lengths"))
    return .series ((left.zip right).map fun (left, right) => zipNumber left right operation)

/-- The shape of the operators on one series: its values are paid for one by one. -/
def pointwise (value : Prog ℕ Stop (ComputedValue F)) (operation : String)
    (body : List (Option F) → Option (List (Option F))) : Prog ℕ Stop (ComputedValue F) := do
  let values ← evalSeries value operation
  consume values.length
  return .series (← orPanic (body values))

def reduce (value : Prog ℕ Stop (ComputedValue F)) (operation : String)
    (reducer : List F → Option F) : Prog ℕ Stop (ComputedValue F) := do
  let values ← evalSeries value operation
  consume values.length
  return .scalar ((reducer (values.filterMap id)).bind finite)

/-- `Evaluator::eval` -/
def eval (env : Env F) : Expr F → Prog ℕ Stop (ComputedValue F)
  | .scalar value => do
    consume 1
    return .scalar (some value)
  | .var name => do
    match env name with
    | none => throw (.error (.unknownVariable name))
    | some value => do
      consume value.cost
      return value
  | .add left right => binary (eval env left) (eval env right) fun a b => finite (a + b)
  | .sub left right => binary (eval env left) (eval env right) fun a b => finite (a - b)
  | .mul left right => binary (eval env left) (eval env right) fun a b => finite (a * b)
  | .div left right => binary (eval env left) (eval env right) fun a b =>
    if b == lit 0 then none else finite (a / b)
  | .neg input => unary (eval env input) fun value => some (finite (-value))
  | .abs input => unary (eval env input) fun value => some (finite (AnalyticFloat.abs value))
  | .clip input min max => unary (eval env input) fun value => (clamp value min max).map some
  | .lag input periods => pointwise (eval env input) "lag" fun values => lag values periods
  | .diff input => pointwise (eval env input) "diff" fun values =>
    some (pairChange values fun current previous => finite (current - previous))
  | .returns input => pointwise (eval env input) "returns" fun values =>
    some (pairChange values fun current previous =>
      if previous == lit 0 then none else finite (current / previous - lit 1))
  | .logReturns input => pointwise (eval env input) "log_returns" fun values =>
    some (pairChange values fun current previous =>
      if current ≤ lit 0 ∨ previous ≤ lit 0 then none else finite (ln (current / previous)))
  | .cumulativeReturn input => pointwise (eval env input) "cumulative_return" fun values =>
    some (wealthFrom (lit 1) values)
  | .sma input window => pointwise (eval env input) "sma" fun values =>
    rolling values window fun sum _ window => finite (sum / lit window)
  | .ema input window => pointwise (eval env input) "ema" fun values =>
    some (emaFrom (lit 2 / (lit window + lit 1)) none values)
  | .rollingStd input window annualization => pointwise (eval env input) "rolling_std" fun values =>
    let multiplier := sqrt (annualization.getD (lit 1))
    rolling values window fun sum sumSq window =>
      finite (sqrt (variance sum sumSq window) * multiplier)
  | .zscore input window => pointwise (eval env input) "zscore" fun values =>
    rollingWithCurrent values window fun current sum sumSq window =>
      let std := sqrt (variance sum sumSq window)
      if std == lit 0 then none else finite ((current - sum / lit window) / std)
  | .rsi input window => pointwise (eval env input) "rsi" fun values => rsi values window
  | .tail input count => do
    let values ← evalSeries (eval env input) "tail"
    consume (Nat.min count values.length)
    return .series (← orPanic (slice values (values.length - count) values.length))
  | .mean input => reduce (eval env input) "mean" fun values =>
    if values.isEmpty then none else finite (sumOf values / lit values.length)
  | .std input => reduce (eval env input) "std" fun values =>
    if values.isEmpty then none
    else finite (sqrt (variance (sumOf values) (sumOf (values.map fun value => value * value))
      values.length))
  | .sum input => reduce (eval env input) "sum" fun values =>
    if values.isEmpty then none else some (sumOf values)
  | .min input => reduce (eval env input) "min" (reduceWith Min.min)
  | .max input => reduce (eval env input) "max" (reduceWith Max.max)
  | .last input => reduce (eval env input) "last" List.getLast?
  | .count input => reduce (eval env input) "count" fun values => some (lit values.length)
  | .correlation left right => do
    let left ← evalSeries (eval env left) "correlation"
    let right ← evalSeries (eval env right) "correlation"
    guardOr (left.length = right.length)
      (.error (.type "correlation series must have equal lengths"))
    consume left.length
    return .scalar (correlation ((left.zip right).filterMap fun (left, right) => do
      return (← left, ← right)))
  | .maxDrawdown input => do
    let values ← evalSeries (eval env input) "max_drawdown"
    consume values.length
    return .scalar (maxDrawdown (values.filterMap id))

/-! ## Execution -/

/-- The environment of the inputs. -/
def inputsEnv : List (String × List (Option F)) → Env F → Env F
  | [], env => env
  | (name, values) :: rest, env => inputsEnv rest (env.insert name (.series values))

def evalBindings (env : Env F) : List (Binding F) → Prog ℕ Stop (Env F)
  | [] => pure env
  | binding :: rest => do
    let value ← eval env binding.expr
    evalBindings (env.insert binding.name value) rest

def evalOutputs (env : Env F) :
    List (String × Expr F) → Prog ℕ Stop (List (String × ComputedValue F))
  | [] => pure []
  | (name, expression) :: rest => do
    let value ← eval env expression
    let outputs ← evalOutputs env rest
    return (name, value) :: outputs

/-- The inputs, the bindings and the outputs, in this order. -/
def evaluate (program : Program F) : Prog ℕ Stop (List (String × ComputedValue F)) := do
  let env ← evalBindings (inputsEnv program.inputs.entries fun _ => none) program.bindings
  evalOutputs env program.outputs.entries

def semantics : List String :=
  ["all series operations are oldest-to-newest",
    "missing observations propagate through point operations",
    "rolling windows require a complete finite window",
    "std and correlation use population moments",
    "division by zero and undefined numeric results become null",
    "no filesystem, network, clock, random, process or arbitrary code access"]

/-- Validate and execute one program with the fixed v1 resource limits. -/
def execute (fingerprint : Program F → Except ComputeError String) (program : Program F) :
    Except Stop (Execution F) := do
  (validate program).mapError .error
  let digest ← (fingerprint program).mapError .error
  match exec (evaluate program) 0 with
  | (.error stop, _) => throw stop
  | (.ok outputs, used) =>
    return {
      language := "astock-finance-calc"
      languageVersion
      programSha256 := digest
      fuelUsed := used
      outputs
      semantics }

end Astock.Compute
