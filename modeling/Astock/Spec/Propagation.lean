import Astock.Lib.Search
import Astock.Spec.Graph

/-!
# Event propagation

`Engine::propagate` of `crates/graph/src/engine.rs`: a search from the subject of an
event through the supply-chain graph. A node is visited with the state it is reached in,
a price direction or the sign of a business impact, and keeps the state of its first
visit.
-/

namespace Astock

structure Event (F : Type) where
  title : String
  subject : String
  magnitude : Option F := none
  direction : ℤ

/-- The state carried by a visited node. -/
inductive PropagationState
  /-- The price is expected to move in this direction. -/
  | price (d : ℤ)
  /-- The business is expected to benefit or suffer; `pass` is the price direction that
  caused it. -/
  | prosperity (sign : ℤ) (pass : Option ℤ)
  deriving DecidableEq, Repr

inductive ImpactDirection
  | benefit
  | harm
  deriving DecidableEq, Repr

def ImpactDirection.label : ImpactDirection → String
  | benefit => "受益"
  | harm => "受损"

def ImpactDirection.fromSign (sign : ℤ) : ImpactDirection := if 0 ≤ sign then benefit else harm

structure Step (F : Type) where
  node : Node
  edge : Edge F
  note : String
  /-- The impact when the node is an impacted company. -/
  impact : Option ℤ

structure ImpactEntry (F : Type) where
  nodeId : String
  code : String
  name : String
  direction : ImpactDirection
  hop : ℕ
  logicChain : String
  expectedLagDays : ℕ
  magnitudeEstimate : Option F
  confidence : F
  provenance : List (String × String)

structure ImpactReport (F : Type) where
  eventTitle : String
  subject : Node
  summary : String
  primaryBenefit : List (ImpactEntry F)
  primaryHarm : List (ImpactEntry F)
  secondaryBenefit : List (ImpactEntry F)
  secondaryHarm : List (ImpactEntry F)
  /-- Three hops and more. -/
  potential : List (ImpactEntry F)
  disclaimer : String

/-- A frontier item: a node and how it was reached. -/
structure Frontier (F : Type) where
  node : Node
  state : PropagationState
  hop : ℕ
  steps : List (Step F)
  confidence : F
  weight : F
  lagDays : ℕ

variable {F : Type}

/-- Whether traversing `edge` from `node` reaches `other`, the note of the transition and the
state at `other`. -/
def transition (node : Node) (state : PropagationState) (edge : Edge F) (other : Node)
    (companySubject : Bool) : Option (String × PropagationState) :=
  let incoming := edge.dst = node.id ∧ edge.src = other.id
  let outgoing := edge.src = node.id ∧ edge.dst = other.id
  if ¬ incoming ∧ ¬ outgoing then
    none
  else
    match state with
    | .price d =>
      let dirWord := if 0 < d then "上升" else "回落"
      match edge.relation, decide incoming with
      | .produces, true => some ("自产" ++ node.name, .prosperity d (some d))
      | .consumes, true =>
        some ("采购" ++ node.name ++ "，成本" ++ dirWord, .prosperity (-d) (some d))
      | .substitutes, true => some (node.name ++ "的替代品，需求转移", .price d)
      | .exposedTo, true => some ("对" ++ node.name ++ "有风险敞口", .prosperity d none)
      | _, _ => none
    | .prosperity s pass =>
      match edge.relation, decide incoming, decide outgoing with
      | .belongsTo, true, false =>
        -- groups expand to their members
        if node.kind = .industry ∨ node.kind = .segment then
          some ("属于" ++ node.name ++ "板块", .prosperity s none)
        else none
      | .produces, false, true =>
        match pass with
        | some d => some (if 0 < d then "成本传导提价" else "成本传导降价", .price d)
        | none => if s < 0 then some ("供给收缩，提价压力", .price 1) else none
      | .supplies, true, false | .customerOf, false, true =>
        some ("是" ++ node.name ++ "的供应商", .prosperity s none)
      | .supplies, false, true | .customerOf, true, false =>
        -- customers only inherit harm
        if s < 0 then some ("是" ++ node.name ++ "的客户", .prosperity s none) else none
      | .competes, _, _ =>
        if companySubject then some ("与" ++ node.name ++ "竞争", .prosperity (-s) none) else none
      | _, _, _ => none

/-- The hops that a step takes: one for a company, one for a substitute. -/
def hopCost (edge : Edge F) (next : Node) : ℕ :=
  (if next.kind = .company then 1 else 0) + if edge.relation = .substitutes then 1 else 0

def renderChain [F64 F] (subject : Node) (event : Event F) (steps : List (Step F)) : String :=
  let arrow := if 0 < event.direction then "↑" else "↓"
  let chain := match event.magnitude with
    | some m => subject.name ++ arrow ++ F64.round (F64.mul (F64.abs m) (F64.lit 100)) ++ "%"
    | none => subject.name ++ arrow
  steps.foldl (fun chain step => match step.impact with
    | some sign => chain ++ " → " ++ step.node.name ++ "（" ++ step.note ++ "，" ++
        (ImpactDirection.fromSign sign).label ++ "）"
    | none => chain ++ " → " ++ step.node.name ++ "（" ++ step.note ++ "）") chain

/-- The seed state by the kind of the subject. -/
def seedState (subject : Node) (direction : ℤ) : PropagationState :=
  match subject.kind with
  | .commodity | .material | .product => .price direction
  | .industry | .segment | .policy | .region | .company => .prosperity direction none

def seed [F64 F] (subject : Node) (direction : ℤ) : Frontier F where
  node := subject
  state := seedState subject direction
  hop := 0
  steps := []
  confidence := F64.lit 1
  weight := F64.lit 1
  lagDays := 0

/-- What one link leads to within the hop limit. -/
def advance [F64 F] (adjacency : Adjacency F) (maxHops : ℕ) (companySubject : Bool)
    (cur : Frontier F) (link : Edge F × String) : Option (Frontier F) := do
  let (edge, otherId) := link
  let next ← adjacency.nodes otherId
  let (note, nextSt) ← transition cur.node cur.state edge next companySubject
  let nextHop := cur.hop + hopCost edge next
  if maxHops < nextHop then
    none
  else
    let impact := match nextSt with
      | .prosperity sign _ => if next.kind = .company then some sign else none
      | .price _ => none
    some {
      node := next, state := nextSt, hop := nextHop
      steps := cur.steps ++ [{ node := next, edge, note, impact }]
      confidence := F64.mul cur.confidence edge.confidence
      weight := F64.mul cur.weight edge.weight
      lagDays := cur.lagDays + edge.relation.lagDays }

/-- The items that the links of a frontier item lead to, whether visited or not. -/
def expand [F64 F] (adjacency : Adjacency F) (maxHops : ℕ) (companySubject : Bool)
    (cur : Frontier F) : List (Frontier F) :=
  (adjacency.links cur.node.id).filterMap (advance adjacency maxHops companySubject cur)

/-- The entry of a visited node when it is an impacted company. -/
def impactEntry [F64 F] (subject : Node) (event : Event F) (item : Frontier F) :
    Option (ImpactEntry F) :=
  match item.state with
  | .price _ => none
  | .prosperity sign _ =>
    if item.node.kind = .company then
      some {
        nodeId := item.node.id
        code := item.node.code.getD ""
        name := item.node.name
        direction := .fromSign sign
        hop := item.hop
        logicChain := renderChain subject event item.steps
        expectedLagDays := item.lagDays
        magnitudeEstimate := event.magnitude.map fun m => F64.mul (F64.abs m) item.weight
        confidence := F64.mul item.confidence (F64.powi (F64.lit (8 / 10)) item.hop)
        provenance := item.steps.map fun step => (step.edge.sourceName, step.edge.sourceUrl) }
    else none

/-- By hop, then confidence downwards, then code. -/
def ImpactEntry.rankLe [F64 F] (a b : ImpactEntry F) : Bool :=
  ((compare a.hop b.hop).then ((F64.totalCmp b.confidence a.confidence).then
    (compareOfLessAndEq a.code b.code))).isLE

def disclaimer : String :=
  "影响方向、幅度与滞后天数均为基于公开产业链关系的粗略启发式估计，不构成投资建议；置信度随传导层级按 0.8 逐跳衰减。"

/-- The visits of the search: a node is pushed once, at its first visit, so there are as many
steps as nodes at most. -/
def visits [F64 F] (adjacency : Adjacency F) (nodes : List Node) (maxHops : ℕ) (subject : Node)
    (direction : ℤ) : Search.State (Frontier F) :=
  Search.run (fun item => item.node.id) (expand adjacency maxHops (subject.kind = .company))
    (nodes.length + 1) (Search.start (seed subject direction))

def propagate [F64 F] (g : GraphStore F) (now : ℤ) (maxHops : ℕ) (event : Event F) :
    Except GraphError (ImpactReport F) := do
  match g.findNode event.subject with
  | none => throw (.notFound event.subject)
  | some subject =>
    if event.direction ≠ 1 ∧ event.direction ≠ -1 then
      throw (.invalid ("event direction must be +1 or -1, got " ++ toString event.direction))
    let found := visits (g.adjacency now) g.allNodes maxHops subject event.direction
    -- an entry is made for each visit but that of the subject
    let entries := (found.seen.tail.filterMap (impactEntry subject event)).mergeSort ImpactEntry.rankLe
    let bucket (hop : ℕ) (direction : ImpactDirection) :=
      entries.filter fun entry => entry.hop = hop ∧ entry.direction = direction
    let primaryBenefit := bucket 1 .benefit
    let primaryHarm := bucket 1 .harm
    let secondaryBenefit := bucket 2 .benefit
    let secondaryHarm := bucket 2 .harm
    let potential := entries.filter fun entry => entry.hop ≠ 1 ∧ entry.hop ≠ 2
    pure {
      eventTitle := event.title
      subject
      summary := "事件「" ++ event.title ++ "」影响 " ++ toString (primaryBenefit.length +
          primaryHarm.length + secondaryBenefit.length + secondaryHarm.length + potential.length) ++
        " 家公司：一级受益 " ++ toString primaryBenefit.length ++ "、一级受损 " ++
        toString primaryHarm.length ++ "、二级受益 " ++ toString secondaryBenefit.length ++
        "、二级受损 " ++ toString secondaryHarm.length ++ "、潜在映射 " ++ toString potential.length
      primaryBenefit, primaryHarm, secondaryBenefit, secondaryHarm, potential
      disclaimer }

end Astock
