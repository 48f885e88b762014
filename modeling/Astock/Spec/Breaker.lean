import Mathlib.Tactic

/-!
# Circuit breakers

`crates/market-data/src/breaker.rs`: one circuit for each provider. An open circuit
refuses requests until its cooldown has elapsed; then the first caller becomes the
probe, and the circuit is half open until a report about the provider comes in.
Times are nanoseconds.
-/

namespace Astock

inductive DataError
  | network (host message : String)
  | timeout (on : String)
  | wafBlocked (what : String)
  | empty (upstream : String)
  | parse (upstream message : String)
  | rateLimited (upstream : String)
  | noProvider (op : String)
  | invalidSymbol (symbol : String)
  | allFailed (op details : String)
  deriving DecidableEq, Repr

/-- The `Display` of the error. -/
def DataError.message : DataError → String
  | network host message => "network error on " ++ host ++ ": " ++ message
  | timeout on => "timeout on " ++ on
  | wafBlocked what => "blocked by WAF: " ++ what
  | empty upstream => "empty data from " ++ upstream
  | parse upstream message => "parse error from " ++ upstream ++ ": " ++ message
  | rateLimited upstream => "rate limited by " ++ upstream
  | noProvider op => "no provider available for operation " ++ op
  | invalidSymbol symbol => "invalid symbol: " ++ symbol
  | allFailed op details => "all providers failed for " ++ op ++ ": " ++ details

/-- `Duration::from_secs`. -/
def seconds (n : ℕ) : ℕ := n * 10 ^ 9

structure BreakerConfig where
  cooldown : ℕ := seconds 600
  maxCooldown : ℕ := seconds 3600
  failureThreshold : ℕ := 3

inductive CircuitState
  | closed
  | open
  | halfOpen
  deriving DecidableEq, Repr

structure Circuit where
  state : CircuitState
  consecutiveFailures : ℕ
  openedAt : Option ℕ
  cooldown : ℕ
  available : Bool
  deriving DecidableEq, Repr

def Circuit.closed (cooldown : ℕ) : Circuit where
  state := .closed
  consecutiveFailures := 0
  openedAt := none
  cooldown := cooldown
  available := true

/-- How a failure affects a closed circuit. -/
inductive FailureKind
  | trip
  | count
  | ignore
  deriving DecidableEq

def classify : DataError → FailureKind
  | .wafBlocked _ => .trip
  | .network _ _ | .timeout _ | .rateLimited _ => .count
  | _ => .ignore

namespace Circuit

/-- `opened_at.map(|t| t.elapsed()).unwrap_or(cooldown)`. -/
def elapsed (c : Circuit) (now : ℕ) : ℕ := (c.openedAt.map fun t => now - t).getD c.cooldown

def allowRequest (now : ℕ) (c : Circuit) : Bool × Circuit :=
  if !c.available then
    (false, c)
  else
    match c.state with
    | .closed => (true, c)
    | .halfOpen => (false, c)
    | .open =>
      if c.cooldown ≤ c.elapsed now then
        (true, { c with state := .halfOpen })
      else
        (false, c)

def onSuccess (config : BreakerConfig) (c : Circuit) : Circuit :=
  { c with
    state := .closed, consecutiveFailures := 0, openedAt := none, cooldown := config.cooldown }

def trip (now : ℕ) (c : Circuit) : Circuit :=
  { c with state := .open, openedAt := some now, consecutiveFailures := 0 }

def onFailure (config : BreakerConfig) (now : ℕ) (err : DataError) (c : Circuit) : Circuit :=
  if c.state = .halfOpen then
    -- the probe failed: open again, with exponential backoff
    { c with
      cooldown := min (c.cooldown * 2) config.maxCooldown
      state := .open, openedAt := some now, consecutiveFailures := 0 }
  else
    match classify err with
    | .trip => c.trip now
    | .count =>
      let failures := c.consecutiveFailures + 1
      if config.failureThreshold ≤ failures then
        { c with state := .open, openedAt := some now, consecutiveFailures := 0 }
      else
        { c with consecutiveFailures := failures }
    | .ignore => c

end Circuit

/-- The circuit of each provider. `circuit(name)` registers a name at its first use, with a
closed circuit. -/
structure CircuitBreaker where
  config : BreakerConfig
  circuits : String → Circuit

namespace CircuitBreaker

def new (config : BreakerConfig) : CircuitBreaker where
  config := config
  circuits := fun _ => .closed config.cooldown

/-- `self.circuit(name)`, changed by `f`. -/
def update (b : CircuitBreaker) (name : String) (f : Circuit → Circuit) : CircuitBreaker :=
  { b with circuits := fun n => if n = name then f (b.circuits n) else b.circuits n }

def setAvailable (b : CircuitBreaker) (name : String) (available : Bool) : CircuitBreaker :=
  b.update name fun c => { c with available }

def allowRequest (now : ℕ) (name : String) (b : CircuitBreaker) : Bool × CircuitBreaker :=
  (((b.circuits name).allowRequest now).1, b.update name fun c => (c.allowRequest now).2)

def onSuccess (name : String) (b : CircuitBreaker) : CircuitBreaker :=
  b.update name (.onSuccess b.config)

def trip (now : ℕ) (name : String) (b : CircuitBreaker) : CircuitBreaker :=
  b.update name (.trip now)

def onFailure (now : ℕ) (name : String) (err : DataError) (b : CircuitBreaker) : CircuitBreaker :=
  b.update name (.onFailure b.config now err)

def state (b : CircuitBreaker) (name : String) : CircuitState := (b.circuits name).state

end CircuitBreaker

end Astock
