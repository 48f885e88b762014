import Astock.Lib.Best
import Astock.Lib.Loop
import Astock.Lib.UnionFind
import Astock.Spec.Graph

/-!
# Graph analytics

`pagerank`, `connected_components` and `label_propagation` of `crates/graph/src/analysis.rs`, over a list of nodes and
a list of edges. An index out of range and a division by zero leave no result; ranks are computed
exactly, in any ordered field.
-/

namespace Astock

variable {F K : Type}

/-- The index of the node with an id; of several such nodes the last one counts. -/
def nodeIndex (nodes : List Node) (id : String) : Option ℕ :=
  (nodes.zipIdx.reverse.find? fun entry => entry.1.id = id).map Prod.snd

/-- The indices of the ends of an edge; an edge with an end that is not listed is ignored. -/
def edgeEnds (nodes : List Node) (edge : Edge F) : Option (ℕ × ℕ) :=
  match nodeIndex nodes edge.src, nodeIndex nodes edge.dst with
  | some s, some d => some (s, d)
  | _, _ => none

/-! ## PageRank -/

structure RankLinks where
  outDegree : List ℕ
  /-- For each node, the sources of the edges that point at it. -/
  incoming : List (List ℕ)

def RankLinks.add (links : RankLinks) (s d : ℕ) : Option RankLinks := do
  let degree ← links.outDegree[s]?
  let outDegree ← Checked.store links.outDegree s (degree + 1)
  let sources ← links.incoming[d]?
  let incoming ← Checked.store links.incoming d (sources ++ [s])
  some { outDegree, incoming }

def rankLinks (nodes : List Node) (edges : List (Edge F)) : Option RankLinks :=
  edges.foldlM (fun links edge => match edgeEnds nodes edge with
    | some (s, d) => links.add s d
    | none => some links)
    { outDegree := List.replicate nodes.length 0, incoming := List.replicate nodes.length [] }

section Rank

variable [Field K] [LinearOrder K]

def divide (a b : K) : Option K := if b = 0 then none else some (a / b)

/-- The rank of the nodes without outgoing edges. -/
def danglingRank (links : RankLinks) (rank : List K) : Option K :=
  rank.zipIdx.foldlM (fun sum (r, i) => do
    let degree ← links.outDegree[i]?
    some (if degree = 0 then sum + r else sum)) 0

/-- What the sources of a node pass on to it. -/
def incomingRank (links : RankLinks) (rank : List K) (sources : List ℕ) : Option K :=
  sources.foldlM (fun (sum : K) (s : ℕ) => do
    let r ← rank[s]?
    let degree ← links.outDegree[s]?
    let share ← divide r degree
    some (sum + share)) 0

/-- One iteration: the next ranks and their distance from the last ones. -/
def rankStep (links : RankLinks) (base damping : K) (rank : List K) : Option (List K × K) := do
  let dangling ← danglingRank links rank
  let uniform ← divide (damping * dangling) (rank.length : K)
  let next ← links.incoming.mapM fun sources => do
    let sum ← incomingRank links rank sources
    some (base + uniform + damping * sum)
  some (next, (List.zipWith (fun a b => |a - b|) next rank).sum)

def rankLoop (links : RankLinks) (base damping tolerance : K) : ℕ → List K → Option (List K)
  | 0, rank => some rank
  | iterations + 1, rank => do
    let (next, delta) ← rankStep links base damping rank
    if delta < tolerance then some next else rankLoop links base damping tolerance iterations next

def pagerank (nodes : List Node) (edges : List (Edge F)) (damping tolerance : K)
    (maxIterations : ℕ) : Option (List (String × K)) := do
  if nodes.length = 0 then
    some []
  else
    let links ← rankLinks nodes edges
    let base ← divide (1 - damping) (nodes.length : K)
    let first ← divide 1 (nodes.length : K)
    let rank ← rankLoop links base damping tolerance maxIterations
      (List.replicate nodes.length first)
    nodes.zipIdx.mapM fun (node, i) => do
      let r ← rank[i]?
      some (node.id, r)

end Rank

/-! ## Connected components -/

/-- Larger components first, then in the order of their members. -/
def componentLe (a b : List String) : Prop :=
  b.length < a.length ∨ a.length = b.length ∧ a ≤ b
deriving Decidable

/-- The forest after the edges. -/
def unionEdges (nodes : List Node) (edges : List (Edge F)) : Option (List ℕ) :=
  edges.foldlM (fun parent edge => match edgeEnds nodes edge with
    | some (a, b) => UnionFind.join parent a b
    | none => some parent) (List.range nodes.length)

/-- The ids of the nodes by their roots. -/
def groupByRoot (parent : List ℕ) (nodes : List Node) :
    Option (List ℕ × List (ℕ × List String)) :=
  nodes.zipIdx.foldlM (fun (parent, groups) (node, i) => do
    let (parent, root) ← UnionFind.find parent i
    some (parent, Table.entry root [] (· ++ [node.id]) groups)) (parent, [])

def connectedComponents (nodes : List Node) (edges : List (Edge F)) :
    Option (List (List String)) := do
  let parent ← unionEdges nodes edges
  let (_, groups) ← groupByRoot parent nodes
  some ((groups.map fun group => group.2.insertionSort (· ≤ ·)).insertionSort componentLe)

/-! ## Label propagation -/

/-- The neighbours of a node, once for each end of an edge that is there. -/
def neighbors (edges : List (Edge F)) (id : String) : List String :=
  edges.flatMap fun edge =>
    (if edge.src = id then [edge.dst] else []) ++ (if edge.dst = id then [edge.src] else [])

/-- The label of every node that is listed. -/
abbrev Labels := String → Option String

/-- The labels of the neighbours of a node. -/
def votes (edges : List (Edge F)) (labels : Labels) (id : String) : List String :=
  (neighbors edges id).filterMap labels

/-- A label that occurs more often, or as often and is smaller. -/
def outvotes (votes : List String) (a b : String) : Bool :=
  votes.count b < votes.count a || (votes.count b == votes.count a && a < b)

/-- Most frequent label; ties → smallest label. -/
def bestLabel (votes : List String) : Option String := Best.pick (outvotes votes) votes.dedup

/-- A node adopts the most frequent label of its neighbours; whether a label has changed. -/
def labelStep (edges : List (Edge F)) (state : Labels × Bool) (id : String) : Labels × Bool :=
  match bestLabel (votes edges state.1 id) with
  | some label =>
    if state.1 id ≠ some label then (Function.update state.1 id (some label), true) else state
  | none => state

/-- The rounds, until one changes nothing. -/
def labelLoop (edges : List (Edge F)) (order : List String) : ℕ → Labels → Labels
  | 0, labels => labels
  | rounds + 1, labels =>
    let (labels, changed) := order.foldl (labelStep edges) (labels, false)
    if changed then labelLoop edges order rounds labels else labels

/-- The order in which a round visits the nodes. -/
def labelOrder (nodes : List Node) : List String := (nodes.map Node.id).insertionSort (· ≤ ·)

/-- Every node starts with its own id as label. -/
def ownLabels (nodes : List Node) : Labels := fun id => if id ∈ nodes.map Node.id then some id else none

def labelPropagation (nodes : List Node) (edges : List (Edge F)) (maxRounds : ℕ) : Labels :=
  labelLoop edges (labelOrder nodes) maxRounds (ownLabels nodes)

end Astock

/-!
## Traversal of the graph

`paths_from` and `subgraph` of `crates/graph/src/store.rs`: two breadth-first searches from a
resolved node, in both directions of the edges. A loop that does not end within a turn for each
node leaves no result.
-/

namespace Astock

variable {F : Type}

/-- The nodes from the start to a node found, and the edges between them. -/
structure PathChain (F : Type) where
  nodes : List Node
  edges : List (Edge F)

structure Subgraph (F : Type) where
  nodes : List Node
  edges : List (Edge F)

def adjacencyNode (adjacency : Adjacency F) (id : String) : Node :=
  (adjacency.nodes id).getD { id, kind := .segment, name := id }

/-! ### Paths -/

structure PathSearch (F : Type) where
  visited : List String
  queue : List (PathChain F)
  out : List (PathChain F)

/-- Follow one link of the last node of a chain. -/
def PathSearch.visit (adjacency : Adjacency F) (chain : PathChain F) (s : PathSearch F)
    (link : Edge F × String) : PathSearch F :=
  let (edge, nextId) := link
  if nextId ∈ s.visited then s
  else
    let nextChain : PathChain F := {
      nodes := chain.nodes ++ [adjacencyNode adjacency nextId]
      edges := chain.edges ++ [edge] }
    { visited := s.visited ++ [nextId]
      queue := s.queue ++ [nextChain]
      out := s.out ++ [nextChain] }

/-- One turn of the queue; a chain without nodes would panic. -/
def PathSearch.turn (adjacency : Adjacency F) (maxHops : ℕ) (s : PathSearch F) :
    Loop.Turn (PathSearch F) :=
  match s.queue with
  | [] => .done
  | chain :: queue =>
    let s := { s with queue }
    if maxHops ≤ chain.edges.length then .again s
    else match chain.nodes.getLast? with
      | none => .panic
      | some here => .again ((adjacency.links here.id).foldl (visit adjacency chain) s)

def pathsFrom (g : GraphStore F) (now : ℤ) (subject : String) (maxHops : ℕ) :
    Option (Except GraphError (List (PathChain F))) :=
  match g.findNode subject with
  | none => some (.error (.notFound subject))
  | some start => do
    let found ← Loop.run (PathSearch.turn (g.adjacency now) maxHops) (g.nodes.length + 1)
      { visited := [start.id], queue := [{ nodes := [start], edges := [] }], out := [] }
    some (.ok found.out)

/-! ### Neighbourhoods -/

structure DepthSearch where
  depth : List (String × ℕ)
  queue : List String

def DepthSearch.contains (s : DepthSearch) (id : String) : Bool := id ∈ s.depth.map Prod.fst

def DepthSearch.visit (d : ℕ) (s : DepthSearch) (nextId : String) : DepthSearch :=
  if s.contains nextId then s
  else { depth := s.depth ++ [(nextId, d + 1)], queue := s.queue ++ [nextId] }

/-- One turn of the queue; an id without a depth would panic. -/
def DepthSearch.turn (adjacency : Adjacency F) (hops : ℕ) (s : DepthSearch) :
    Loop.Turn DepthSearch :=
  match s.queue with
  | [] => .done
  | id :: queue =>
    let s := { s with queue }
    match Table.find Prod.fst id s.depth with
    | none => .panic
    | some (_, d) =>
      if hops ≤ d then .again s
      else .again (((adjacency.links id).map Prod.snd).foldl (visit d) s)

/-- The nodes around `center`, ordered by id, and the edges between them in the order of their row
ids. -/
def subgraph (g : GraphStore F) (now : ℤ) (center : String) (hops : ℕ) :
    Option (Except GraphError (Subgraph F)) :=
  match g.findNode center with
  | none => some (.error (.notFound center))
  | some centerNode => do
    let found ← Loop.run (DepthSearch.turn (g.adjacency now) hops) (g.nodes.length + 1)
      { depth := [(centerNode.id, 0)], queue := [centerNode.id] }
    let nodes := found.depth.map fun entry => adjacencyNode (g.adjacency now) entry.1
    some (.ok {
      nodes := nodes.insertionSort fun a b => a.id ≤ b.id
      edges := (g.allEdges now).filter fun e => found.contains e.src ∧ found.contains e.dst })

end Astock
