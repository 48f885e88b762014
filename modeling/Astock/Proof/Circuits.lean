import Astock.Spec.Hub

/-!
# Half-open circuits

A half-open circuit waits for a report, so a call that leaves it without one leaves it
half open for good.

* `Owes`, `Repays`: what a call still has to report; **every call reports to each
  circuit that let it through, unless a provider answers that it does not support the
  request, or the check after a gate is refused** (`Call.flow_repays`).
* `quiet_of_reported`: so when neither meets a half-open circuit, **no circuit is half
  open when no call is in flight, and each gives its next probe after its cooldown.**
* `unsupportedQuote_stuck`: a quote call that probes Tencent's circuit closes it for good.
-/

namespace Astock

variable {Bar Point α β : Type} {name : String} {now : ℕ}

/-! ## What one operation does to a circuit -/

namespace Circuit

variable {c : Circuit}

/-- **A refusal** leaves the circuit as it was. -/
theorem allowRequest_refused (h : (c.allowRequest now).1 = false) : (c.allowRequest now).2 = c := by
  unfold allowRequest at h ⊢
  split at h
  · rename_i hc; rw [if_pos hc]
  · rename_i hc
    rw [if_neg hc]
    split at h
    · simp at h
    · rfl
    · split at h
      · simp at h
      · rename_i hcool; rw [if_neg hcool]

/-- **A probe after the cooldown**: an available circuit that is not half open lets the next
request through. -/
theorem allowRequest_cooled (havail : c.available = true) (hstate : c.state ≠ .halfOpen)
    (hcool : ∀ t, c.openedAt = some t → t + c.cooldown ≤ now) : (c.allowRequest now).1 = true := by
  unfold allowRequest
  rw [if_neg (by simp [havail])]
  cases hs : c.state with
  | closed => rfl
  | halfOpen => exact absurd hs hstate
  | «open» =>
    have helapsed : c.cooldown ≤ c.elapsed now := by
      unfold elapsed
      cases ht : c.openedAt with
      | none => exact le_refl _
      | some t =>
        have hle := hcool t ht
        show c.cooldown ≤ now - t
        omega
    simp [helapsed]

theorem onFailure_state (config : BreakerConfig) (err : DataError) :
    (c.onFailure config now err).state ≠ .halfOpen := by
  unfold onFailure
  by_cases hs : c.state = .halfOpen
  · simp [hs]
  · rw [if_neg hs]
    cases classify err with
    | trip => simp [trip]
    | count => dsimp only; split <;> simp [hs]
    | ignore => exact hs

end Circuit

namespace CircuitBreaker

variable {b : CircuitBreaker} {k : String}

theorem state_update_of_ne (f : Circuit → Circuit) (h : k ≠ name) :
    (b.update name f).state k = b.state k := by simp [update, state, h]

theorem state_update_self (f : Circuit → Circuit) :
    (b.update name f).state name = (f (b.circuits name)).state := by simp [update, state]

/-- **After a report** no circuit is half open that was not, and this one is not. -/
theorem report_halfOpen (r : Report) (h : (r.apply name now b).state k = .halfOpen) :
    k ≠ name ∧ b.state k = .halfOpen := by
  have hne : k ≠ name := by
    rintro rfl
    cases r with
    | success => simp [Report.apply, onSuccess, state_update_self, Circuit.onSuccess] at h
    | failure e =>
      rw [Report.apply, onFailure, state_update_self] at h
      exact Circuit.onFailure_state _ _ h
    | trip => simp [Report.apply, trip, state_update_self, Circuit.trip] at h
  refine ⟨hne, ?_⟩
  cases r with
  | success => rwa [Report.apply, onSuccess, state_update_of_ne _ hne] at h
  | failure e => rwa [Report.apply, onFailure, state_update_of_ne _ hne] at h
  | trip => rwa [Report.apply, trip, state_update_of_ne _ hne] at h

/-- After a check, a circuit that is half open was so before, or let the request through. -/
theorem allow_halfOpen (h : (b.allowRequest now name).2.state k = .halfOpen) :
    b.state k = .halfOpen ∨ k = name ∧ (b.allowRequest now name).1 = true := by
  unfold allowRequest at h ⊢
  by_cases hk : k = name
  · subst hk
    cases hallowed : ((b.circuits k).allowRequest now).1 with
    | true => exact .inr ⟨rfl, rfl⟩
    | false =>
      rw [state_update_self, Circuit.allowRequest_refused hallowed] at h
      exact .inl h
  · rw [state_update_of_ne _ hk] at h
    exact .inl h

end CircuitBreaker

/-! ## What a call owes -/

/-- The answer says that the provider does not support the request. -/
def Unsupported {α : Type} : Except DataError α → Prop
  | .error (.noProvider _) => True
  | _ => False

instance {α : Type} : ∀ r : Except DataError α, Decidable (Unsupported r)
  | .ok _ | .error (.network _ _) | .error (.timeout _) | .error (.wafBlocked _)
  | .error (.empty _) | .error (.parse _ _) | .error (.rateLimited _)
  | .error (.invalidSymbol _) | .error (.allFailed _ _) => isFalse id
  | .error (.noProvider _) => isTrue trivial

namespace Flow

/-- Whatever the outside answers, the flow reports to the circuit, unless its provider does
not support the request, or the check after a gate is refused. -/
def Owes (circuit : String) : Flow Bar Point α → Prop
  | done _ => False
  | allow again name next =>
    if again = true ∧ name = circuit then Owes circuit (next true) else ∀ b, Owes circuit (next b)
  | report name _ next => name = circuit ∨ Owes circuit next
  | acquire _ next | release _ next | shareList next => Owes circuit next
  | kline name next => ∀ r, name = circuit ∧ Unsupported r ∨ Owes circuit (next r)
  | quote name next => ∀ r, name = circuit ∧ Unsupported r ∨ Owes circuit (next r)
  | supplement next => ∀ r, Owes circuit (next r)
  | enrich _ next => ∀ r, Owes circuit (next r)
  | fundFlow next => ∀ r, Owes circuit (next r)
  | breadth _ next => ∀ r, Owes circuit (next r)
  | lastGood next => ∀ r, Owes circuit (next r)
  | knownName next => ∀ r, Owes circuit (next r)

/-- From each circuit that lets the flow through on, the flow owes it a report. -/
def Repays : Flow Bar Point α → Prop
  | done _ => True
  | allow _ name next => Owes name (next true) ∧ ∀ b, Repays (next b)
  | report _ _ next | acquire _ next | release _ next | shareList next => Repays next
  | kline _ next => ∀ r, Repays (next r)
  | quote _ next => ∀ r, Repays (next r)
  | supplement next => ∀ r, Repays (next r)
  | enrich _ next => ∀ r, Repays (next r)
  | fundFlow next => ∀ r, Repays (next r)
  | breadth _ next => ∀ r, Repays (next r)
  | lastGood next => ∀ r, Repays (next r)
  | knownName next => ∀ r, Repays (next r)

theorem Owes.bind {circuit : String} {x : Flow Bar Point α} {f : α → Flow Bar Point β}
    (h : Owes circuit x) : Owes circuit (x >>= f) := by
  show Owes circuit (Flow.bind x f)
  induction x with
  | done a => exact absurd h id
  | allow again name next ih =>
    unfold Owes at h
    unfold Flow.bind Owes
    by_cases hc : again = true ∧ name = circuit
    · rw [if_pos hc] at h ⊢; exact ih true h
    · rw [if_neg hc] at h ⊢; exact fun b => ih b (h b)
  | report name r next ih => exact h.imp id ih
  | acquire gate next ih | release gate next ih => exact ih h
  | shareList next ih => exact ih h
  | kline provider next ih | quote provider next ih => exact fun r => (h r).imp id (ih r)
  | enrich bars next ih => exact fun r => ih r (h r)
  | breadth provider next ih => exact fun r => ih r (h r)
  | supplement next ih | fundFlow next ih | lastGood next ih | knownName next ih =>
    exact fun r => ih r (h r)

/-- **Calls in sequence** repay when each does. -/
theorem Repays.bind {x : Flow Bar Point α} {f : α → Flow Bar Point β} (hx : Repays x)
    (hf : ∀ a, Repays (f a)) : Repays (x >>= f) := by
  show Repays (Flow.bind x f)
  induction x with
  | done a => exact hf a
  | allow again name next ih => exact ⟨(hx.1).bind, fun b => ih b (hx.2 b)⟩
  | report name r next ih => exact ih hx
  | acquire gate next ih | release gate next ih => exact ih hx
  | shareList next ih => exact ih hx
  | kline provider next ih | quote provider next ih => exact fun r => ih r (hx r)
  | enrich bars next ih => exact fun r => ih r (hx r)
  | breadth provider next ih => exact fun r => ih r (hx r)
  | supplement next ih | fundFlow next ih | lastGood next ih | knownName next ih =>
    exact fun r => ih r (hx r)

end Flow

open Flow

/-! ## The calls repay -/

theorem repays_pure (a : α) : Repays (pure a : Flow Bar Point α) := trivial

/-- A check with a way on for either answer. -/
theorem repays_allow {again : Bool} {f : Bool → Flow Bar Point β} (howes : Owes name (f true))
    (hf : ∀ b, Repays (f b)) : Repays (allow again name .done >>= f) := ⟨howes, hf⟩

/-- A question about one provider. -/
structure Asks (ask : String → Flow Bar Point (Except DataError α)) : Prop where
  repays : ∀ name, Repays (ask name)
  /-- The way on owes what it owes for every answer but the one that the provider does not
  support the request. -/
  owes : ∀ name (f : Except DataError α → Flow Bar Point (Except (List String) α)),
    (∀ r, Unsupported r ∨ Owes name (f r)) → Owes name (ask name >>= f)

theorem asks_kline : Asks fun name =>
    (.kline name .done : Flow Bar Point (Except DataError (Fetched (List Bar)))) where
  repays := fun _ _ => trivial
  owes := fun _ _ h r => (h r).imp (fun hr => ⟨rfl, hr⟩) id

theorem asks_quote : Asks fun name =>
    (.quote name .done : Flow Bar Point (Except DataError (Fetched Quote))) where
  repays := fun _ _ => trivial
  owes := fun _ _ h r => (h r).imp (fun hr => ⟨rfl, hr⟩) id

theorem failover_repays {ask : String → Flow Bar Point (Except DataError α)} (hask : Asks ask)
    (usable : α → Bool) (unsupported : String → List String) (chain failures : List String) :
    Repays (failover ask usable unsupported chain failures) := by
  induction chain generalizing failures with
  | nil => exact repays_pure _
  | cons name chain ih =>
    refine repays_allow ?_ fun b => ?_
    · -- let through, the provider is asked, and its circuit hears of the answer
      refine hask.owes name _ fun r => ?_
      cases r with
      | ok f => exact .inr (.inl rfl)
      | error e =>
        cases e with
        | noProvider op => exact .inl trivial
        | _ => exact .inr (.inl rfl)
    · cases b with
      | false => exact ih _
      | true =>
        refine (hask.repays name).bind fun r => ?_
        cases r with
        | ok f =>
          show Repays (if usable f = true then _ else _)
          split
          · exact repays_pure _
          · exact ih _
        | error e => cases e <;> exact ih _

theorem fetchBaseKline_repays (filterValidBars : List Bar → List Bar) (chain : List String) :
    Repays (fetchBaseKline filterValidBars chain : Flow Bar Point _) := by
  refine (failover_repays asks_kline _ _ chain []).bind fun r => ?_
  cases r with
  | error failures => exact repays_pure _
  | ok fetched =>
    show Repays (if _ then _ else _)
    split <;> exact repays_pure _

theorem supplementQuote_repays (out : Fetched Quote) :
    Repays (supplementQuote out : Flow Bar Point _) := by
  unfold supplementQuote
  split
  · intro r
    cases r <;> trivial
  · exact repays_pure out

theorem fetchQuote_repays (chain : List String) :
    Repays (fetchQuote chain : Flow Bar Point _) := by
  refine (failover_repays asks_quote _ _ chain []).bind fun r => ?_
  cases r with
  | error failures => exact repays_pure _
  | ok out =>
    intro known
    cases known
    all_goals
      refine (supplementQuote_repays out).bind fun named => ?_
      intro name
      cases name <;> exact repays_pure _

/-- **A gated call** repays when it reports once it is through both checks: a refusal of the
second is left to the circuit. -/
theorem repays_gated {gate : Gate} {refused : Flow Bar Point α} {next : Bool → Flow Bar Point α}
    (hrefused : Repays refused) (hnext : ∀ b, Repays (next b)) (howes : Owes name (next true)) :
    Repays (.allow false name fun b =>
      if (!b) = true then refused else .acquire gate (.allow true name next)) := by
  refine ⟨?_, fun b => ?_⟩
  · show (if _ then _ else _)
    rwa [if_pos ⟨rfl, rfl⟩]
  · cases b with
    | false => exact hrefused
    | true => exact ⟨howes, hnext⟩

theorem enrichKline_repays (bars : List Bar) :
    Repays (Astock.enrichKline bars : Flow Bar Point _) := by
  unfold Astock.enrichKline
  split
  · trivial
  · refine repays_gated trivial (fun b => ?_) ?_
    · cases b with
      | false => trivial
      | true => rintro ⟨bars, _ | _ | _⟩ <;> trivial
    · rintro ⟨bars, _ | _ | _⟩ <;> exact .inl rfl

theorem fetchFundFlowDaily_repays (symbol : String) :
    Repays (fetchFundFlowDaily symbol : Flow Bar Point _) := by
  refine repays_gated trivial (fun b => ?_) ?_
  · cases b with
    | false => trivial
    | true => rintro (_ | _ | _) <;> trivial
  · rintro (_ | _ | _) <;> exact .inl rfl

theorem breadthFrom_repays (circuit provider label : String) :
    Repays (breadthFrom circuit provider label : Flow Bar Point _) := by
  refine repays_allow (fun r => ?_) fun b => ?_
  · cases r with
    | error e => exact .inl rfl
    | ok fetched =>
      dsimp only [Flow.bind]
      cases validateMarketBreadth fetched.data <;> exact .inl rfl
  · cases b with
    | false => trivial
    | true =>
      intro r
      cases r with
      | error e => trivial
      | ok fetched =>
        dsimp only [Flow.bind]
        cases validateMarketBreadth fetched.data <;> trivial

theorem fetchMarketBreadth_repays : Repays (fetchMarketBreadth : Flow Bar Point _) := by
  refine (breadthFrom_repays _ _ _).bind fun eastmoney => ?_
  cases eastmoney with
  | ok fetched => trivial
  | error eastmoney =>
    refine (breadthFrom_repays _ _ _).bind fun tdx => ?_
    cases tdx with
    | ok fetched => trivial
    | error tdx =>
      intro snapshot
      cases snapshot <;> trivial

/-- **Every call repays.** -/
theorem Call.flow_repays (filterValidBars : List Bar → List Bar) (chain : List String) (call : Call Bar) :
    Repays (call.flow filterValidBars chain : Flow Bar Point Unit) := by
  have hdone {α : Type} (_ : α) : Repays (pure () : Flow Bar Point Unit) := repays_pure ()
  cases call with
  | baseKline => exact (fetchBaseKline_repays filterValidBars chain).bind hdone
  | enrichKline bars => exact (enrichKline_repays bars).bind hdone
  | fundFlowDaily symbol => exact (fetchFundFlowDaily_repays symbol).bind hdone
  | marketBreadth => exact fetchMarketBreadth_repays.bind hdone
  | quote => exact (fetchQuote_repays chain).bind hdone

/-! ## Runs of the hub -/

/-- The step does not end what a half-open circuit waits for: no provider answers that it
does not support the request while its circuit is half open, and no check after a gate
finds its circuit half open. -/
def Flow.Spares (answer : Answer Bar Point) (s : Inner) : Flow Bar Point Unit → Prop
  | .allow true name _ => s.breakers.state name ≠ .halfOpen
  | .kline name _ => Unsupported answer.kline → s.breakers.state name ≠ .halfOpen
  | .quote name _ => Unsupported answer.quote → s.breakers.state name ≠ .halfOpen
  | _ => True

instance (answer : Answer Bar Point) (s : Inner) :
    ∀ t : Flow Bar Point Unit, Decidable (t.Spares answer s)
  | .allow true name _ => inferInstanceAs (Decidable (s.breakers.state name ≠ .halfOpen))
  | .kline name _ =>
    inferInstanceAs (Decidable (Unsupported answer.kline → s.breakers.state name ≠ .halfOpen))
  | .quote name _ =>
    inferInstanceAs (Decidable (Unsupported answer.quote → s.breakers.state name ≠ .halfOpen))
  | .done _ | .allow false _ _ | .report _ _ _ | .acquire _ _ | .release _ _ | .supplement _
  | .shareList _ | .enrich _ _ | .fundFlow _ | .breadth _ _ | .lastGood _ | .knownName _ =>
    isTrue trivial

def HalfOpen (s : Inner) (name : String) : Prop := s.breakers.state name = .halfOpen

/-- **What a half-open circuit waits for is owed**: a step that spares it reports, or still
owes its report. -/
theorem act_owes (answer : Answer Bar Point) (s : Inner) (t : Flow Bar Point Unit) (ht : Repays t)
    (hspares : t.Spares answer s) (k : String) (hk : HalfOpen (t.act answer s).1 k) :
    (∃ t', (t.act answer s).2 = some t' ∧ Owes k t') ∨ HalfOpen s k ∧ ¬ Owes k t := by
  by_cases howes : Owes k t
  · left
    cases t with
    | done a => exact absurd howes id
    | allow again name next =>
      refine ⟨_, rfl, ?_⟩
      unfold Owes at howes
      by_cases hagain : again = true ∧ name = k
      · obtain ⟨rfl, rfl⟩ := hagain
        rw [if_pos ⟨rfl, rfl⟩] at howes
        rcases CircuitBreaker.allow_halfOpen hk with hbefore | ⟨-, hallowed⟩
        · exact absurd hbefore hspares
        · rwa [hallowed]
      · rw [if_neg hagain] at howes
        exact howes _
    | report name r next =>
      obtain ⟨hne, -⟩ := CircuitBreaker.report_halfOpen r hk
      exact ⟨next, rfl, howes.resolve_left fun heq => hne heq.symm⟩
    | acquire gate next =>
      by_cases hpermit : 0 < s.permits gate
      · exact ⟨next, by simp [Flow.act, hpermit], howes⟩
      · exact ⟨.acquire gate next, by simp [Flow.act, hpermit], howes⟩
    | release gate next => exact ⟨next, rfl, howes⟩
    | shareList next => exact ⟨next, rfl, howes⟩
    | kline name next =>
      refine ⟨_, rfl, (howes answer.kline).resolve_left fun h => ?_⟩
      obtain ⟨rfl, hun⟩ := h
      exact hspares hun hk
    | quote name next =>
      refine ⟨_, rfl, (howes answer.quote).resolve_left fun h => ?_⟩
      obtain ⟨rfl, hun⟩ := h
      exact hspares hun hk
    | enrich bars next => exact ⟨_, rfl, howes _⟩
    | breadth provider next => exact ⟨_, rfl, howes _⟩
    | supplement next | fundFlow next | lastGood next | knownName next => exact ⟨_, rfl, howes _⟩
  · -- what this flow does not owe was half open before, unless the flow took it just now
    have hbefore : HalfOpen s k ∨ ∃ t', (t.act answer s).2 = some t' ∧ Owes k t' := by
      cases t with
      | allow again name next =>
        rcases CircuitBreaker.allow_halfOpen hk with hbefore | ⟨rfl, hallowed⟩
        · exact .inl hbefore
        · refine .inr ⟨_, rfl, ?_⟩
          rw [hallowed]
          exact ht.1
      | report name r next => exact .inl (CircuitBreaker.report_halfOpen r hk).2
      | acquire gate next =>
        left
        by_cases hpermit : 0 < s.permits gate
        · simp only [Flow.act, hpermit, if_true] at hk; exact hk
        · simp only [Flow.act, hpermit, if_false] at hk; exact hk
      | _ => exact .inl hk
    rcases hbefore with hbefore | hnow
    · exact .inr ⟨hbefore, howes⟩
    · exact .inl hnow

theorem act_repays (answer : Answer Bar Point) (s : Inner) (t : Flow Bar Point Unit)
    (ht : Repays t) : ∀ t', (t.act answer s).2 = some t' → Repays t' := by
  intro t' h
  cases t with
  | done a => simp [Flow.act] at h
  | allow again name next => obtain rfl := Option.some.inj h; exact ht.2 _
  | report name r next => obtain rfl := Option.some.inj h; exact ht
  | acquire gate next =>
    by_cases hpermit : 0 < s.permits gate
    · simp only [Flow.act, hpermit, if_true, Option.some.injEq] at h
      exact h ▸ ht
    · simp only [Flow.act, hpermit, if_false, Option.some.injEq] at h
      exact h ▸ ht
  | release gate next => obtain rfl := Option.some.inj h; exact ht
  | shareList next => obtain rfl := Option.some.inj h; exact ht
  | kline name next | quote name next | breadth name next =>
    obtain rfl := Option.some.inj h; exact ht _
  | enrich bars next => obtain rfl := Option.some.inj h; exact ht _
  | supplement next | fundFlow next | lastGood next | knownName next =>
    obtain rfl := Option.some.inj h; exact ht _

/-- **The hub lends half-open circuits** to the calls that owe them a report. -/
theorem hub_lends (filterValidBars : List Bar → List Bar) (chain : List String) :
    Pool.Lends (hub filterValidBars chain :
      Pool.System Inner (Flow Bar Point Unit) ℕ (Call Bar) (Answer Bar Point))
      HalfOpen (fun t k => Owes k t) Repays Flow.Spares where
  env := fun _ _ _ h => h
  spawn := Call.flow_repays filterValidBars chain
  stays := act_repays
  step := act_owes

theorem new_state (config : BreakerConfig) (available : List (String × Bool)) (now : ℕ)
    (name : String) : (Inner.new config available now).breakers.state name = .closed := by
  have hset : ∀ (l : List (String × Bool)) (b : CircuitBreaker), b.state name = .closed →
      (l.foldl (fun b p => b.setAvailable p.1 p.2) b).state name = .closed := by
    intro l
    induction l with
    | nil => intro b hb; exact hb
    | cons p l ih =>
      intro b hb
      refine ih _ ?_
      show (b.update p.1 fun c => { c with available := p.2 }).state name = .closed
      by_cases hne : name = p.1
      · rw [hne, CircuitBreaker.state_update_self, ← hne]
        exact hb
      · rw [CircuitBreaker.state_update_of_ne _ hne]
        exact hb
  exact hset available _ rfl

/-- The hub before its first call. -/
def idleHub (config : BreakerConfig) (available : List (String × Bool)) (now : ℕ) :
    Pool Inner (Flow Bar Point Unit) where
  shared := .new config available now
  threads := []

/-- No circuit is half open, and each available one lets the next request through once its
cooldown has elapsed. -/
def Unstuck (s : Inner) : Prop :=
  ∀ name, s.breakers.state name ≠ .halfOpen ∧
    ((s.breakers.circuits name).available = true → ∀ now,
      (∀ t, (s.breakers.circuits name).openedAt = some t →
        t + (s.breakers.circuits name).cooldown ≤ now) →
      (s.breakers.allowRequest now name).1 = true)

/-- **No circuit is stuck** when no call is in flight, in every run in which no half-open
circuit meets an answer that its provider does not support the request, or a check after
a gate. -/
theorem unstuck_of_spared (config : BreakerConfig) (available : List (String × Bool)) (start : ℕ)
    (filterValidBars : List Bar → List Bar) (chain : List String)
    (moves : List (Pool.Move ℕ (Call Bar) (Answer Bar Point)))
    (hspares : Run.Along (Pool.next (hub filterValidBars chain)) (Pool.Guarded Flow.Spares)
      (idleHub config available start) moves)
    (hquiet : (Run.run (Pool.next (hub filterValidBars chain)) (idleHub config available start)
      moves).threads = []) :
    Unstuck (Run.run (Pool.next (hub filterValidBars chain)) (idleHub config available start)
      moves).shared := by
  have hidle : Pool.Sound HalfOpen (fun t k => Owes k t) Repays
      (idleHub config available start : Pool Inner (Flow Bar Point Unit)) := by
    refine ⟨fun t ht => by simp [idleHub] at ht, fun name hname => ?_⟩
    have hclosed := new_state config available start name
    exact absurd (hname.symm.trans hclosed) (by decide)
  intro name
  have hstate := ((hub_lends filterValidBars chain).run_leased moves hspares hidle).quiet hquiet name
  exact ⟨hstate, fun havail now hcool => Circuit.allowRequest_cooled havail hstate hcool⟩

/-! ## The call that leaves a circuit half open -/

/-- The providers of the hub. -/
def defaultChain : List String := ["tencent", "sina", "tdx", "eastmoney"]

/-- The optional providers, none configured. -/
def unconfigured : List (String × Bool) := [("tushare", false), ("iwencai", false), ("joinquant", false)]

/-- Tencent's challenge page; Sina answers with a bar. -/
def blocked : Answer Unit Unit where
  kline := .error (.wafBlocked "tencent kline sh600519")

def answered : Answer Unit Unit where
  kline := .ok { data := [()], source := .sina, fetchedAt := 0 }
  quote := .ok { data := { name := "600519", turnover := some 0 }, source := .tdx, fetchedAt := 0 }

/-- The challenge page opens Tencent's circuit; after the cooldown, a quote call is let through
as its probe, and Tencent has no quotes. -/
def unsupportedQuote : List (Pool.Move ℕ (Call Unit) (Answer Unit Unit)) :=
  [.start .baseKline] ++ List.replicate 3 (.step 0 blocked) ++ List.replicate 4 (.step 0 answered) ++
    [.env (seconds 600), .start .quote] ++ List.replicate 4 (.step 0 {}) ++
    List.replicate 7 (.step 0 answered)

theorem unsupportedQuote_stuck :
    ¬ ∀ (config : BreakerConfig) (available : List (String × Bool)) (start : ℕ)
      (filterValidBars : List Unit → List Unit) (chain : List String)
      (moves : List (Pool.Move ℕ (Call Unit) (Answer Unit Unit))),
      (Run.run (Pool.next (hub filterValidBars chain)) (idleHub config available start)
        moves).threads = [] →
      Unstuck (Run.run (Pool.next (hub filterValidBars chain)) (idleHub config available start)
        moves).shared := by
  intro h
  have hended : (Run.run (Pool.next (hub id defaultChain)) (idleHub {} unconfigured 0)
      unsupportedQuote).threads.length = 0 := by decide
  have hunstuck := h {} unconfigured 0 id defaultChain unsupportedQuote
    (List.eq_nil_of_length_eq_zero hended) "tencent"
  exact hunstuck.1 (by decide)

/-- The same outage, and then a kline call that Tencent answers. -/
def probed : List (Pool.Move ℕ (Call Unit) (Answer Unit Unit)) :=
  [.start .baseKline] ++ List.replicate 3 (.step 0 blocked) ++ List.replicate 4 (.step 0 answered) ++
    [.env (seconds 600), .start .baseKline] ++ List.replicate 4 (.step 0 answered)

theorem probed_unstuck : Unstuck
    (Run.run (Pool.next (hub id defaultChain)) (idleHub {} unconfigured 0) probed).shared := by
  have hended : (Run.run (Pool.next (hub id defaultChain)) (idleHub {} unconfigured 0)
      probed).threads.length = 0 := by decide
  exact unstuck_of_spared {} unconfigured 0 id defaultChain probed (by decide)
    (List.eq_nil_of_length_eq_zero hended)

end Astock
