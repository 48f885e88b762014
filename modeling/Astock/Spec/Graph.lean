import Astock.Lib.F64
import Astock.Lib.Json
import Astock.Lib.Table
import Mathlib.Data.String.Basic
import Mathlib.Data.List.Sort

/-!
# The supply-chain graph

The data model of `crates/graph` (`model.rs`, `bitemporal.rs`), its tables, and what
`store.rs` reads from the current projection: nodes, edges and the adjacency index.
Times are unix seconds.
-/

namespace Astock

inductive NodeKind
  | company
  | product
  | segment
  | material
  | commodity
  | industry
  | region
  | policy
  deriving DecidableEq, Repr

inductive Relation
  | supplies
  | customerOf
  | competes
  | substitutes
  | exposedTo
  | belongsTo
  | produces
  | consumes
  deriving DecidableEq, Repr

/-- The stored form. -/
def Relation.asStr : Relation → String
  | supplies => "supplies"
  | customerOf => "customer_of"
  | competes => "competes"
  | substitutes => "substitutes"
  | exposedTo => "exposed_to"
  | belongsTo => "belongs_to"
  | produces => "produces"
  | consumes => "consumes"

def Relation.lagDays : Relation → ℕ
  | produces => 5
  | consumes => 30
  | supplies | customerOf => 45
  | competes => 3
  | substitutes => 20
  | belongsTo => 2
  | exposedTo => 10

structure Node where
  id : String
  kind : NodeKind
  name : String
  code : Option String := none
  metadata : Json := .null
  deriving DecidableEq

structure Edge (F : Type) where
  src : String
  dst : String
  relation : Relation
  weight : F
  sourceName : String
  sourceUrl : String := ""
  confidence : F
  validFrom : ℤ := 0
  validTo : Option ℤ := none
  deriving DecidableEq

/-! ## Evidence revisions -/

inductive EvidenceSourceType
  | annualReport
  | prospectus
  | investorResearch
  | tender
  | contract
  | patent
  | regulatoryApproval
  | capacityDisclosure
  | research
  | manual
  | legacy
  deriving DecidableEq, Repr

def EvidenceSourceType.revalidationDays : EvidenceSourceType → ℤ
  | annualReport | prospectus => 400
  | investorResearch | research => 90
  | tender | contract => 180
  | patent | regulatoryApproval => 730
  | capacityDisclosure => 365
  | manual | legacy => 180

def EvidenceSourceType.decayHalfLifeDays : EvidenceSourceType → ℤ
  | annualReport | prospectus => 730
  | investorResearch | research => 180
  | tender | contract => 365
  | patent | regulatoryApproval => 1460
  | capacityDisclosure => 730
  | manual | legacy => 365

inductive RelationStatus
  | candidate
  | verified
  | active
  | stale
  | contradicted
  | expired
  | revoked
  deriving DecidableEq, Repr

def RelationStatus.asStr : RelationStatus → String
  | candidate => "candidate"
  | verified => "verified"
  | active => "active"
  | stale => "stale"
  | contradicted => "contradicted"
  | expired => "expired"
  | revoked => "revoked"

def RelationStatus.visibleInActiveGraph : RelationStatus → Bool
  | verified | active | stale => true
  | _ => false

/-- A row of `graph_edge_identities`; an absent scope is the empty text. -/
structure IdentityRow where
  identityId : String
  src : String
  dst : String
  relation : Relation
  productScope : String
  regionScope : String
  createdAt : ℤ
  deriving DecidableEq

/-- A row of `graph_edge_revisions`. -/
structure RevisionRow (F : Type) where
  revisionId : String
  identityId : String
  revisionNo : ℕ
  weight : F
  confidence : F
  disclosedShare : Option F
  sourceType : EvidenceSourceType
  sourceName : String
  sourceUrl : String
  evidenceVersion : String
  status : RelationStatus
  validFrom : ℤ
  validTo : Option ℤ
  observedAt : ℤ
  recordedAt : ℤ
  supersededAt : Option ℤ
  revalidateAfter : ℤ
  decayHalfLifeDays : ℤ
  supersedesRevisionId : Option String
  metadata : Json
  deriving DecidableEq

/-- A row of `graph_entity_merges`; nothing ever supersedes one. -/
structure EntityMergeRevision where
  mergeId : String
  fromNodeId : String
  toNodeId : String
  validFrom : ℤ
  validTo : Option ℤ
  recordedAt : ℤ
  supersededAt : Option ℤ
  reason : String
  deriving DecidableEq

/-- A row of `graph_snapshot_records`. -/
structure SnapshotRecord where
  snapshotId : String
  businessTime : ℤ
  knowledgeTime : ℤ
  revisionIds : List String
  mergeIds : List String
  createdAt : ℤ
  deriving DecidableEq

/-- The tables of the graph. `edges` is the current projection `graph_edges`, in the order of
its row ids. -/
structure GraphStore (F : Type) where
  nodes : List Node := []
  edges : List (Edge F) := []
  identities : List IdentityRow := []
  revisions : List (RevisionRow F) := []
  merges : List EntityMergeRevision := []
  snapshots : List SnapshotRecord := []

/-- The errors of the crate; the message of `storage` is that of the storage layer. -/
inductive GraphError
  | storage (message : String)
  | invalid (message : String)
  | notFound (what : String)
  deriving DecidableEq

/-! ## Reading the projection -/

variable {F : Type}

namespace GraphStore

def node (g : GraphStore F) (id : String) : Option Node := Table.find Node.id id g.nodes

/-- All nodes, ordered by id. -/
def allNodes (g : GraphStore F) : List Node := g.nodes.insertionSort fun a b => a.id ≤ b.id

/-- The edges that are valid now. -/
def allEdges (g : GraphStore F) (now : ℤ) : List (Edge F) :=
  g.edges.filter fun edge => edge.validFrom ≤ now ∧ ∀ validTo ∈ edge.validTo, now < validTo

/-- A node id, a company code, or an exact name. -/
def findNode (g : GraphStore F) (query : String) : Option Node :=
  let query := Text.trim query
  (g.node query).or (g.allNodes.find? fun n => n.code = some query ∨ n.name = query)

end GraphStore

/-- The nodes by id, and the edges at each node with the node at the other end. -/
structure Adjacency (F : Type) where
  nodes : String → Option Node
  links : String → List (Edge F × String)

/-- An edge is listed at its source, then at its target; dangling edges are skipped. -/
def buildAdjacency (nodes : List Node) (edges : List (Edge F)) : Adjacency F where
  nodes := fun id => Table.find Node.id id nodes
  links := fun id => edges.flatMap fun edge =>
    if (Table.find Node.id edge.src nodes).isNone ∨ (Table.find Node.id edge.dst nodes).isNone then
      []
    else
      (if edge.src = id then [(edge, edge.dst)] else []) ++
        if edge.dst = id then [(edge, edge.src)] else []

def GraphStore.adjacency (g : GraphStore F) (now : ℤ) : Adjacency F :=
  buildAdjacency g.allNodes (g.allEdges now)

end Astock
