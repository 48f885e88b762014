import Astock.Lib.Pool
import Astock.Spec.Breaker

/-!
# The calls of the market-data hub

`crates/market-data/src/hub.rs`. A call is a `Flow`: what it does to the circuits and
gates, one operation at a time, and what it waits for. Any number of calls are in
flight, and the operations of one may fall between any two of another. The answers of
providers, the persisted snapshot and the security master come from outside.

No flow is dropped on the way: each runs inside a shared future that the hub's in-flight
table keeps.
-/

namespace Astock

inductive Source
  | tencent
  | sina
  | eastMoney
  | tushare
  | tdx
  | joinQuant
  deriving DecidableEq, Repr

structure Fetched (α : Type) where
  data : α
  source : Source
  fetchedAt : ℤ

structure Quote where
  name : String
  turnover : Option Float

structure MarketBreadth where
  up : ℕ
  down : ℕ
  flat : ℕ
  total : ℕ
  deriving DecidableEq

/-- The semaphores, each with one permit. -/
inductive Gate
  | enrichment
  | fundFlow
  deriving DecidableEq

/-- What a call tells a circuit. -/
inductive Report
  | success
  | failure (err : DataError)
  | trip

/-- A call that returns an `α`. An attempt that a timeout cuts short answers `none`. -/
inductive Flow (Bar Point α : Type) : Type
  | done (a : α)
  /-- `breakers.allow_request(name)`; `again` marks the check after the wait at a gate. -/
  | allow (again : Bool) (name : String) (next : Bool → Flow Bar Point α)
  | report (name : String) (r : Report) (next : Flow Bar Point α)
  | acquire (gate : Gate) (next : Flow Bar Point α)
  | release (gate : Gate) (next : Flow Bar Point α)
  | kline (provider : String) (next : Except DataError (Fetched (List Bar)) → Flow Bar Point α)
  | quote (provider : String) (next : Except DataError (Fetched Quote) → Flow Bar Point α)
  /-- `eastmoney.quote`, asked outside the chain. -/
  | supplement (next : Except DataError (Fetched Quote) → Flow Bar Point α)
  /-- `tdx.all_a_shares`, asked outside the chain. What it lists goes to the security master. -/
  | shareList (next : Flow Bar Point α)
  /-- `eastmoney.enrich` changes the bars in place. -/
  | enrich (bars : List Bar) (next : List Bar × Option (Except DataError ℕ) → Flow Bar Point α)
  | fundFlow (next : Option (Except DataError (Fetched (List Point))) → Flow Bar Point α)
  | breadth (provider : String) (next : Except DataError (Fetched MarketBreadth) → Flow Bar Point α)
  | lastGood (next : Option (Fetched MarketBreadth) → Flow Bar Point α)
  /-- The name that the security master has for the symbol. -/
  | knownName (next : Option String → Flow Bar Point α)

namespace Flow

variable {Bar Point α β : Type}

def bind : Flow Bar Point α → (α → Flow Bar Point β) → Flow Bar Point β
  | done a, f => f a
  | allow again name next, f => allow again name fun b => bind (next b) f
  | report name r next, f => report name r (bind next f)
  | acquire gate next, f => acquire gate (bind next f)
  | release gate next, f => release gate (bind next f)
  | kline provider next, f => kline provider fun r => bind (next r) f
  | quote provider next, f => quote provider fun r => bind (next r) f
  | supplement next, f => supplement fun r => bind (next r) f
  | shareList next, f => shareList (bind next f)
  | enrich bars next, f => enrich bars fun r => bind (next r) f
  | fundFlow next, f => fundFlow fun r => bind (next r) f
  | breadth provider next, f => breadth provider fun r => bind (next r) f
  | lastGood next, f => lastGood fun r => bind (next r) f
  | knownName next, f => knownName fun r => bind (next r) f

instance : Monad (Flow Bar Point) where
  pure := done
  bind := bind

def allowRequest (name : String) : Flow Bar Point Bool := allow false name done

/-- The same check, made again after the wait at a gate. -/
def allowAgain (name : String) : Flow Bar Point Bool := allow true name done

def onSuccess (name : String) : Flow Bar Point Unit := report name .success (done ())

def onFailure (name : String) (err : DataError) : Flow Bar Point Unit :=
  report name (.failure err) (done ())

def trip (name : String) : Flow Bar Point Unit := report name .trip (done ())

end Flow

section Calls

variable {Bar Point : Type}

open Flow

/-! ## The failover chain -/

/-- The loop over the chain that `fetch_base_kline` and `fetch_quote` share: the first usable
answer, or what kept each provider from giving one. -/
def failover {α : Type} (ask : String → Flow Bar Point (Except DataError α)) (usable : α → Bool)
    (unsupported : String → List String) :
    List String → List String → Flow Bar Point (Except (List String) α)
  | [], failures => pure (.error failures)
  | name :: chain, failures => do
    if !(← allowRequest name) then
      failover ask usable unsupported chain (failures ++ [name ++ ": circuit open"])
    else
      match ← ask name with
      | .ok f =>
        onSuccess name
        if usable f then
          pure (.ok f)
        else
          failover ask usable unsupported chain (failures ++ [name ++ ": empty"])
      | .error (.noProvider _) =>
        -- neither a success nor a failure is reported
        failover ask usable unsupported chain (failures ++ unsupported name)
      | .error e =>
        onFailure name e
        failover ask usable unsupported chain (failures ++ [name ++ ": " ++ e.message])

/-- With ten bars or more, the bars are validated. -/
def fetchBaseKline (filterValidBars : List Bar → List Bar) (chain : List String) :
    Flow Bar Point (Except DataError (Fetched (List Bar))) := do
  match ← failover (fun name => .kline name .done) (fun f => !f.data.isEmpty)
      (fun name => [name ++ ": unsupported period/adjust"]) chain [] with
  | .error failures => pure (.error (.allFailed "kline" ("; ".intercalate failures)))
  | .ok fetched =>
    if fetched.data.length < 10 then
      pure (.ok fetched)
    else
      pure (.ok { fetched with data := filterValidBars fetched.data })

/-- A quote that EastMoney did not answer itself is completed from EastMoney, whose circuit
hears of it without having been asked. -/
def supplementQuote (out : Fetched Quote) : Flow Bar Point (Fetched Quote) := do
  if out.source ≠ .eastMoney ∧ (out.data.turnover.isNone ∨ out.data.name = "") then
    match ← .supplement .done with
    | .ok fetched =>
      onSuccess "eastmoney"
      let turnover := out.data.turnover.or fetched.data.turnover
      pure { out with data := { out.data with turnover } }
    | .error e =>
      onFailure "eastmoney" e
      pure out
  else
    pure out

/-- A symbol that the security master does not have is first looked for in the share list of
TDX, whose circuit is not asked. -/
def fetchQuote (chain : List String) : Flow Bar Point (Except DataError (Fetched Quote)) := do
  match ← failover (fun name => .quote name .done) (fun _ => true) (fun _ => []) chain [] with
  | .error failures => pure (.error (.allFailed "quote" ("; ".intercalate failures)))
  | .ok out =>
    if (← .knownName .done).isNone then
      .shareList (.done ())
    let out ← supplementQuote out
    match ← .knownName .done with
    | some name => pure (.ok { out with data := { out.data with name } })
    | none => pure (.ok out)

/-! ## Gated calls -/

def enrichKline (bars : List Bar) : Flow Bar Point (List Bar) := do
  if bars.isEmpty then
    pure bars
  else if !(← allowRequest "eastmoney_enrichment") then
    pure bars
  else
    .acquire .enrichment (.done ())
    -- the caller ahead may have opened the circuit
    if !(← allowAgain "eastmoney_enrichment") then
      .release .enrichment (.done bars)
    else
      let (bars, outcome) ← .enrich bars .done
      match outcome with
      | some (.ok _) => onSuccess "eastmoney_enrichment"
      | some (.error _) => trip "eastmoney_enrichment"
      | none => trip "eastmoney_enrichment"
      .release .enrichment (.done bars)

def circuitOpen : DataError :=
  .allFailed "fund_flow_daily" "eastmoney: circuit open after an unresponsive probe"

def fetchFundFlowDaily (symbol : String) :
    Flow Bar Point (Except DataError (Fetched (List Point))) := do
  if !(← allowRequest "eastmoney_fund_flow") then
    pure (.error circuitOpen)
  else
    .acquire .fundFlow (.done ())
    if !(← allowAgain "eastmoney_fund_flow") then
      .release .fundFlow (.done (.error circuitOpen))
    else
      match ← .fundFlow .done with
      | some (.ok fetched) => do
        onSuccess "eastmoney_fund_flow"
        .release .fundFlow (.done (.ok fetched))
      | some (.error e) => do
        onFailure "eastmoney_fund_flow" e
        .release .fundFlow (.done (.error e))
      | none => do
        trip "eastmoney_fund_flow"
        .release .fundFlow (.done (.error (.timeout ("eastmoney fund flow " ++ symbol))))

/-! ## Market breadth -/

def validateMarketBreadth (breadth : MarketBreadth) : Except DataError Unit :=
  let counted := breadth.up + breadth.down + breadth.flat
  if breadth.total ≠ counted then
    .error (.parse "market breadth" ("total " ++ toString breadth.total ++
      " does not match up/down/flat sum " ++ toString counted))
  else if breadth.total < 4000 then
    .error (.empty ("market breadth incomplete: only " ++ toString breadth.total ++ " stocks"))
  else
    .ok ()

/-- One source of `fetch_market_breadth`: its snapshot, or what kept it from giving one. -/
def breadthFrom (circuit provider label : String) :
    Flow Bar Point (Except String (Fetched MarketBreadth)) := do
  if ← allowRequest circuit then
    match ← .breadth provider .done with
    | .ok fetched =>
      match validateMarketBreadth fetched.data with
      | .ok () =>
        onSuccess circuit
        pure (.ok fetched)
      | .error e =>
        trip circuit
        pure (.error (label ++ " validation: " ++ e.message))
    | .error e =>
      trip circuit
      pure (.error (label ++ " retries exhausted: " ++ e.message))
  else
    pure (.error (label ++ ": circuit open"))

def fetchMarketBreadth : Flow Bar Point (Except DataError (Fetched MarketBreadth)) := do
  match ← breadthFrom "eastmoney_market_breadth" "eastmoney" "eastmoney" with
  | .ok fetched => pure (.ok fetched)
  | .error eastmoney =>
    match ← breadthFrom "tdx_market_breadth" "tdx" "tdx" with
    | .ok fetched => pure (.ok fetched)
    | .error tdx =>
      match ← .lastGood .done with
      | some snapshot => pure (.ok snapshot)
      | none => pure (.error (.allFailed "market_breadth" ("; ".intercalate [eastmoney, tdx])))

/-! ## The hub -/

inductive Call (Bar : Type)
  | baseKline
  | enrichKline (bars : List Bar)
  | fundFlowDaily (symbol : String)
  | marketBreadth
  | quote

def Call.flow (filterValidBars : List Bar → List Bar) (chain : List String) :
    Call Bar → Flow Bar Point Unit
  | .baseKline => do let _ ← fetchBaseKline filterValidBars chain
  | .enrichKline bars => do let _ ← Astock.enrichKline bars
  | .fundFlowDaily symbol => do let _ ← fetchFundFlowDaily symbol
  | .marketBreadth => do let _ ← fetchMarketBreadth
  | .quote => do let _ ← fetchQuote chain

/-- What the calls share. -/
structure Inner where
  now : ℕ
  breakers : CircuitBreaker
  permits : Gate → ℕ

/-- What the outside answers, whatever a call waits for. -/
structure Answer (Bar Point : Type) where
  kline : Except DataError (Fetched (List Bar)) := .error (.noProvider "kline")
  quote : Except DataError (Fetched Quote) := .error (.noProvider "quote")
  enrich : List Bar × Option (Except DataError ℕ) := ([], none)
  fundFlow : Option (Except DataError (Fetched (List Point))) := none
  breadth : Except DataError (Fetched MarketBreadth) := .error (.noProvider "market_breadth")
  lastGood : Option (Fetched MarketBreadth) := none
  knownName : Option String := none

def Report.apply (name : String) (now : ℕ) (b : CircuitBreaker) : Report → CircuitBreaker
  | .success => b.onSuccess name
  | .failure e => b.onFailure now name e
  | .trip => b.trip now name

/-- The next operation of a flow. A flow that waits at a gate without a permit stays. -/
def Flow.act (answer : Answer Bar Point) (s : Inner) :
    Flow Bar Point Unit → Inner × Option (Flow Bar Point Unit)
  | .done _ => (s, none)
  | .allow _ name next =>
    let r := s.breakers.allowRequest s.now name
    ({ s with breakers := r.2 }, some (next r.1))
  | .report name r next => ({ s with breakers := r.apply name s.now s.breakers }, some next)
  | .acquire gate next =>
    if 0 < s.permits gate then
      ({ s with permits := Function.update s.permits gate (s.permits gate - 1) }, some next)
    else
      (s, some (.acquire gate next))
  | .release gate next =>
    ({ s with permits := Function.update s.permits gate (s.permits gate + 1) }, some next)
  | .kline _ next => (s, some (next answer.kline))
  | .quote _ next => (s, some (next answer.quote))
  | .supplement next => (s, some (next answer.quote))
  | .shareList next => (s, some next)
  | .enrich _ next => (s, some (next answer.enrich))
  | .fundFlow next => (s, some (next answer.fundFlow))
  | .breadth _ next => (s, some (next answer.breadth))
  | .lastGood next => (s, some (next answer.lastGood))
  | .knownName next => (s, some (next answer.knownName))

/-- The calls in flight over the shared state; time passes from outside. -/
def hub (filterValidBars : List Bar → List Bar) (chain : List String) :
    Pool.System Inner (Flow Bar Point Unit) ℕ (Call Bar) (Answer Bar Point) where
  env := fun elapsed s => { s with now := s.now + elapsed }
  spawn := Call.flow filterValidBars chain
  act := Flow.act

/-- `Inner::new`, and the optional providers marked as configured or not. -/
def Inner.new (config : BreakerConfig) (available : List (String × Bool)) (now : ℕ) : Inner where
  now := now
  breakers := available.foldl (fun b p => b.setAvailable p.1 p.2) (.new config)
  permits := fun _ => 1

end Calls

end Astock
