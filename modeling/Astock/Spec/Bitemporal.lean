import Astock.Lib.Bitemporal
import Astock.Lib.Machine
import Astock.Lib.Prog
import Astock.Lib.Run
import Astock.Spec.Graph
import Mathlib.Data.Prod.Lex

/-!
# Relation revisions and graph snapshots

`crates/graph/src/bitemporal.rs`, and the functions of `store.rs` that write the graph. A call
runs alone; a database job of several statements is a transaction.

`digest n text` stands for the first `n` hexadecimal digits of the SHA-256 of a text.
-/

namespace Astock

open Prog Bitemporal

variable {F : Type}

/-! ## Revisions -/

def EvidenceSourceType.infer (sourceName : String) : EvidenceSourceType :=
  let has := Text.contains sourceName
  if has "年报" || has "年度报告" then .annualReport
  else if has "招股" then .prospectus
  else if has "调研" then .investorResearch
  else if has "招标" || has "中标" then .tender
  else if has "合同" then .contract
  else if has "专利" then .patent
  else if has "批文" || has "许可" then .regulatoryApproval
  else if has "产能" then .capacityDisclosure
  else .manual

/-- The `Debug` text. -/
def RelationStatus.debug : RelationStatus → String
  | candidate => "Candidate"
  | verified => "Verified"
  | active => "Active"
  | stale => "Stale"
  | contradicted => "Contradicted"
  | expired => "Expired"
  | revoked => "Revoked"

structure EdgeRevisionInput (F : Type) where
  edge : Edge F
  productScope : Option String := none
  regionScope : Option String := none
  disclosedShare : Option F := none
  sourceType : EvidenceSourceType
  evidenceVersion : String
  status : RelationStatus
  observedAt : ℤ
  recordedAt : ℤ
  supersedesRevisionId : Option String := none
  metadata : Json := .null

/-- The evidence version is a digest of the source and the relation. -/
def EdgeRevisionInput.fromEdge (digest : ℕ → String → String) (edge : Edge F) (recordedAt : ℤ) :
    EdgeRevisionInput F where
  edge := edge
  disclosedShare := some edge.weight
  sourceType := .infer edge.sourceName
  evidenceVersion := digest 64 (edge.sourceName ++ "|" ++ edge.sourceUrl ++ "|" ++ edge.src ++ "|" ++
    edge.dst ++ "|" ++ edge.relation.asStr ++ "|" ++ toString edge.validFrom)
  status := .active
  observedAt := recordedAt
  recordedAt := recordedAt
  metadata := .obj [("projection", .str "legacy_graph_edges")]

/-- A revision joined with its identity. -/
structure EdgeRevision (F : Type) extends RevisionRow F where
  src : String
  dst : String
  relation : Relation
  productScope : Option String
  regionScope : Option String
  deriving DecidableEq

def RevisionRow.stamp (row : RevisionRow F) : Stamp :=
  ⟨row.validFrom, row.validTo, row.recordedAt, row.supersededAt⟩

def RevisionRow.supersede (recordedAt : ℤ) (row : RevisionRow F) : RevisionRow F :=
  { row with supersededAt := (row.stamp.supersede recordedAt).supersededAt }

def EntityMergeRevision.stamp (row : EntityMergeRevision) : Stamp :=
  ⟨row.validFrom, row.validTo, row.recordedAt, row.supersededAt⟩

/-- The columns that are unique together. -/
def IdentityRow.unique (row : IdentityRow) : String × String × Relation × String × String :=
  (row.src, row.dst, row.relation, row.productScope, row.regionScope)

def EdgeRevision.rank (revision : EdgeRevision F) : ℤ ×ₗ ℤ ×ₗ ℤ ×ₗ ℕ :=
  toLex (revision.validFrom, toLex (revision.observedAt, toLex (revision.recordedAt,
    revision.revisionNo)))

/-- The join of a revision with its identity. -/
def IdentityRow.join (identity : IdentityRow) (row : RevisionRow F) : EdgeRevision F :=
  { row with
    src := identity.src
    dst := identity.dst
    relation := identity.relation
    productScope := if identity.productScope = "" then none else some identity.productScope
    regionScope := if identity.regionScope = "" then none else some identity.regionScope }

/-- The order of `ORDER BY identity_id,valid_from,observed_at,recorded_at,revision_no`. -/
def EdgeRevision.position (revision : EdgeRevision F) : String ×ₗ ℤ ×ₗ ℤ ×ₗ ℤ ×ₗ ℕ :=
  toLex (revision.identityId, revision.rank)

namespace GraphStore

def identityOf (g : GraphStore F) (identityId : String) : Option IdentityRow :=
  Table.find IdentityRow.identityId identityId g.identities

/-- `REVISION_SELECT`. -/
def joined (g : GraphStore F) (row : RevisionRow F) : Option (EdgeRevision F) :=
  (g.identityOf row.identityId).map fun identity => identity.join row

def selectRevision (g : GraphStore F) (revisionId : String) : Option (EdgeRevision F) :=
  (Table.find RevisionRow.revisionId revisionId g.revisions).bind g.joined

/-- The revisions valid at the business time and known at the knowledge time. -/
def loadAsOfRevisions (g : GraphStore F) (businessTime knowledgeTime : ℤ) : List (EdgeRevision F) :=
  ((asOf RevisionRow.stamp businessTime knowledgeTime g.revisions).filterMap
    g.joined).insertionSort fun a b => a.position ≤ b.position

def loadAsOfMerges (g : GraphStore F) (businessTime knowledgeTime : ℤ) : List EntityMergeRevision :=
  (asOf EntityMergeRevision.stamp businessTime knowledgeTime g.merges).insertionSort
    fun a b => toLex (a.recordedAt, a.mergeId) ≤ toLex (b.recordedAt, b.mergeId)

end GraphStore

section Revisions

variable [F64 F]

def validateRevisionInput (input : EdgeRevisionInput F) : Except GraphError Unit := do
  if Text.trim input.edge.sourceName = "" ∨ Text.trim input.evidenceVersion = "" then
    throw (.invalid "关系修订必须包含来源与证据版本")
  if !F64.inUnit input.edge.weight || !F64.inUnit input.edge.confidence ||
      input.disclosedShare.any (!F64.inUnit ·) then
    throw (.invalid "关系权重、置信度或占比超出 0..=1")
  if (∃ validTo ∈ input.edge.validTo, validTo ≤ input.edge.validFrom) ∨ input.recordedAt < 0 ∨
      input.observedAt < 0 ∨ input.recordedAt < input.observedAt then
    throw (.invalid "业务有效期或系统观测时间无效")

def identityHash (digest : ℕ → String → String) (input : EdgeRevisionInput F) : String :=
  "edge:" ++ digest 32 (input.edge.src ++ "|" ++ input.edge.dst ++ "|" ++
    input.edge.relation.asStr ++ "|" ++ input.productScope.getD "" ++ "|" ++
    input.regionScope.getD "")

def EdgeRevisionInput.identity (digest : ℕ → String → String) (input : EdgeRevisionInput F) :
    IdentityRow where
  identityId := identityHash digest input
  src := input.edge.src
  dst := input.edge.dst
  relation := input.edge.relation
  productScope := input.productScope.getD ""
  regionScope := input.regionScope.getD ""
  createdAt := input.recordedAt

def revisionHash (digest : ℕ → String → String) (identityId : String)
    (input : EdgeRevisionInput F) : String :=
  "edge-rev:" ++ digest 40 (identityId ++ "|" ++ input.evidenceVersion ++ "|" ++
    toString input.edge.validFrom ++ "|" ++ toString (input.edge.validTo.getD i64Max) ++ "|" ++
    toString input.observedAt ++ "|" ++ input.status.debug ++ "|" ++
    toString (F64.toBits input.edge.weight) ++ "|" ++
    toString (F64.toBits input.edge.confidence) ++ "|" ++
    toString ((input.disclosedShare.map F64.toBits).getD 0) ++ "|" ++ input.edge.sourceName ++
    "|" ++ input.edge.sourceUrl ++ "|" ++
    Text.debugOption Text.debug input.supersedesRevisionId ++ "|" ++ input.metadata.toText)

/-- The row that an input is recorded as. -/
def EdgeRevisionInput.row (input : EdgeRevisionInput F) (revisionId identityId : String)
    (revisionNo : ℕ) : RevisionRow F where
  revisionId := revisionId
  identityId := identityId
  revisionNo := revisionNo
  weight := input.edge.weight
  confidence := input.edge.confidence
  disclosedShare := input.disclosedShare
  sourceType := input.sourceType
  sourceName := input.edge.sourceName
  sourceUrl := input.edge.sourceUrl
  evidenceVersion := input.evidenceVersion
  status := input.status
  validFrom := input.edge.validFrom
  validTo := input.edge.validTo
  observedAt := input.observedAt
  recordedAt := input.recordedAt
  supersededAt := none
  revalidateAfter := saturate
    (input.recordedAt + saturate (input.sourceType.revalidationDays * 86400))
  decayHalfLifeDays := input.sourceType.decayHalfLifeDays
  supersedesRevisionId := input.supersedesRevisionId
  metadata := input.metadata

end Revisions

/-! ## Writing -/

/-- A call on the graph. -/
abbrev GraphProg (F : Type) := Prog (GraphStore F) GraphError

namespace GraphStore

def addIdentity (g : GraphStore F) (row : IdentityRow) : GraphStore F :=
  { g with identities := g.identities ++ [row] }

def addRevision (g : GraphStore F) (row : RevisionRow F) : GraphStore F :=
  { g with revisions := g.revisions ++ [row] }

/-- `UPDATE graph_edge_revisions SET superseded_at=?2 WHERE revision_id=?1` of a row that is not superseded before. -/
def supersede (g : GraphStore F) (revisionId : String) (recordedAt : ℤ) : GraphStore F :=
  { g with
    revisions := Table.update RevisionRow.revisionId revisionId (·.supersede recordedAt) g.revisions }

def addMerge (g : GraphStore F) (row : EntityMergeRevision) : GraphStore F :=
  { g with merges := g.merges ++ [row] }

def addSnapshot (g : GraphStore F) (row : SnapshotRecord) : GraphStore F :=
  { g with snapshots := g.snapshots ++ [row] }

def putNode (g : GraphStore F) (node : Node) : GraphStore F :=
  { g with nodes := Table.upsert Node.id node g.nodes }

/-- `graph_edge_upsert`: keyed by the ends and the relation. -/
def putEdge (g : GraphStore F) (edge : Edge F) : GraphStore F :=
  { g with
    edges := Table.upsert (fun e : Edge F => (e.src, e.dst, e.relation)) edge g.edges }

/-- `SELECT COALESCE(MAX(revision_no),0)+1`. -/
def nextRevisionNo (g : GraphStore F) (identityId : String) : ℕ :=
  ((g.revisions.filter (·.identityId = identityId)).map (·.revisionNo)).max?.getD 0 + 1

end GraphStore

def upsertNode (node : Node) : GraphProg F Unit := do
  if node.kind = .company then
    match node.code with
    | some code =>
      guardOr (code.utf8ByteSize = 6 && code.toList.all Char.isDigit)
        (.invalid ("company node " ++ node.id ++ " needs a 6-digit code"))
    | none => throw (.invalid ("company node " ++ node.id ++ " needs a 6-digit code"))
  modify (·.putNode node)

/-- The first of two nodes that does not exist is reported. -/
def requireNodes (first second : String) : GraphProg F Unit := do
  let g ← get
  guardOr (g.node first).isSome (.notFound first)
  guardOr (g.node second).isSome (.notFound second)

section Writing

variable [F64 F] (digest : ℕ → String → String)

/-- The identity with the ends, relation and scopes of the input, inserted when there is none. -/
def ensureIdentity (input : EdgeRevisionInput F) : GraphProg F String := do
  let g ← get
  let row := input.identity digest
  match Table.find IdentityRow.unique row.unique g.identities with
  | some existing => pure existing.identityId
  | none =>
    guardOr (g.identityOf row.identityId).isNone
      (.storage "sqlite error: UNIQUE constraint failed: graph_edge_identities.identity_id")
    set (g.addIdentity row)
    pure row.identityId

/-- A revision is superseded from the time its correction is recorded, which the table does not
let be before its own. -/
def supersedePrevious (input : EdgeRevisionInput F) (identityId : String) : GraphProg F Unit := do
  match input.supersedesRevisionId with
  | none => pure ()
  | some previous =>
    let g ← get
    match (Table.find RevisionRow.revisionId previous g.revisions).filter
        (·.identityId = identityId) with
    | none => throw (.storage ("invalid data: superseded revision " ++ previous ++
        " does not belong to identity " ++ identityId))
    | some row =>
      guardOr (decide ((∃ t ∈ row.supersededAt, t ≤ input.recordedAt) ∨
          row.recordedAt ≤ input.recordedAt))
        (.storage "sqlite error: CHECK constraint failed: superseded_at IS NULL OR superseded_at >= recorded_at")
      set (g.supersede previous input.recordedAt)

/-- The transaction of `record_revision_at`. -/
def insertRevision (input : EdgeRevisionInput F) : GraphProg F (EdgeRevision F) := do
  let identityId ← ensureIdentity digest input
  let revisionId := revisionHash digest identityId input
  match (← get).selectRevision revisionId with
  | some existing => pure existing
  | none =>
    let revisionNo := (← get).nextRevisionNo identityId
    supersedePrevious input identityId
    modify (·.addRevision (input.row revisionId identityId revisionNo))
    match (← get).selectRevision revisionId with
    | some saved => pure saved
    | none => throw (.storage "invalid data: saved graph revision missing")

def recordRevisionAt (input : EdgeRevisionInput F) : GraphProg F (EdgeRevision F) := do
  match validateRevisionInput input with
  | .error e => throw e
  | .ok () =>
    requireNodes input.edge.src input.edge.dst
    atomically (insertRevision digest input)

/-- Record a revision at the time `now`. -/
def recordRevision (now : ℤ) (input : EdgeRevisionInput F) : GraphProg F (EdgeRevision F) :=
  recordRevisionAt digest
    { input with
      recordedAt := now
      observedAt :=
        if input.observedAt ≤ 0 ∨ now < input.observedAt then now else input.observedAt }

/-- The current projection of a revision: a relation that does not hold any more ended when that
was recorded. -/
def EdgeRevisionInput.projection (input : EdgeRevisionInput F) : Edge F :=
  { input.edge with
    validTo :=
      match input.status with
      | .contradicted | .expired | .revoked => some input.recordedAt
      | _ => input.edge.validTo }

/-- Persist a revision and refresh the current projection. -/
def upsertRevisionAt (input : EdgeRevisionInput F) : GraphProg F (EdgeRevision F) := do
  let saved ← recordRevisionAt digest input
  modify (·.putEdge input.projection)
  pure saved

def upsertEdge (now : ℤ) (edge : Edge F) : GraphProg F Unit := do
  let ends := edge.src ++ " -> " ++ edge.dst
  guardOr (F64.inUnit edge.weight) (.invalid
    ("edge weight " ++ F64.display edge.weight ++ " out of range 0..=1 (" ++ ends ++ ")"))
  guardOr (F64.inUnit edge.confidence) (.invalid
    ("edge confidence " ++ F64.display edge.confidence ++ " out of range 0..=1 (" ++ ends ++ ")"))
  guardOr (Text.trim edge.sourceName ≠ "")
    (.invalid ("edge " ++ ends ++ " has no provenance (source_name)"))
  requireNodes edge.src edge.dst
  let _ ← upsertRevisionAt digest (.fromEdge digest edge now)

end Writing

/-- Record that one node is another. -/
def recordEntityMergeAt (digest : ℕ → String → String) (fromNodeId toNodeId : String)
    (validFrom : ℤ) (validTo : Option ℤ) (recordedAt : ℤ) (reason : String) :
    GraphProg F EntityMergeRevision := do
  guardOr (fromNodeId ≠ toNodeId && Text.trim reason ≠ "")
    (.invalid "实体合并目标必须不同且理由不能为空")
  guardOr (validTo.all (validFrom < ·) && 0 ≤ recordedAt) (.invalid "实体合并时间区间无效")
  requireNodes fromNodeId toNodeId
  let saved : EntityMergeRevision := {
    mergeId := "merge:" ++ digest 32 (fromNodeId ++ "|" ++ toNodeId ++ "|" ++
      toString validFrom ++ "|" ++ Text.debugOption toString validTo ++ "|" ++
      toString recordedAt ++ "|" ++ reason)
    fromNodeId := fromNodeId
    toNodeId := toNodeId
    validFrom := validFrom
    validTo := validTo
    recordedAt := recordedAt
    supersededAt := none
    reason := Text.trim reason }
  -- INSERT OR IGNORE
  modify fun g => if (Table.find EntityMergeRevision.mergeId saved.mergeId g.merges).isSome then g
    else g.addMerge saved
  pure saved

/-! ## Snapshots -/

structure SnapshotEdge (F : Type) where
  revisionId : String
  identityId : String
  revisionNo : ℕ
  src : String
  originalSrc : String
  dst : String
  originalDst : String
  relation : Relation
  productScope : Option String
  regionScope : Option String
  weight : F
  disclosedShare : Option F
  confidence : F
  effectiveConfidence : F
  sourceType : EvidenceSourceType
  sourceName : String
  sourceUrl : String
  evidenceVersion : String
  status : RelationStatus
  validFrom : ℤ
  validTo : Option ℤ
  observedAt : ℤ
  recordedAt : ℤ
  revalidateAfter : ℤ
  deriving DecidableEq

structure GraphSnapshot (F : Type) where
  snapshotId : String
  businessTime : ℤ
  knowledgeTime : ℤ
  nodes : List Node
  edges : List (SnapshotEdge F)
  revisionIds : List String
  mergeIds : List String
  staleCount : ℕ
  excludedCount : ℕ
  deriving DecidableEq

/-- The loop of `resolve_merge`: it follows the merges until it meets a node again, 16 times at
most. -/
def resolveLoop (merges : String → Option String) : ℕ → List String → String → String
  | 0, _, current => current
  | fuel + 1, seen, current =>
    match merges current with
    | none => current
    | some next =>
      if current ∈ seen ∨ 16 < seen.length + 1 then current
      else resolveLoop merges fuel (current :: seen) next

/-- A round adds a node to those seen, so there are 17 at most. -/
def resolveMerge (id : String) (merges : String → Option String) : String :=
  resolveLoop merges 17 [] id

/-- The map of the merges; the last one of a node counts. -/
def mergeMap (merges : List EntityMergeRevision) (fromNodeId : String) : Option String :=
  (Table.find EntityMergeRevision.fromNodeId fromNodeId merges.reverse).map (·.toNodeId)

/-- Keep a revision if it is of higher rank than the one kept for its identity. -/
def keepLatest (selected : List (EdgeRevision F)) (revision : EdgeRevision F) :
    List (EdgeRevision F) :=
  let old := Table.find (fun r : EdgeRevision F => r.identityId) revision.identityId selected
  if old.all (·.rank < revision.rank) then
    Table.insertOrdered (fun r : EdgeRevision F => r.identityId) revision selected
  else selected

/-- The revision of highest rank for each identity, in the order of the identities. -/
def selectLatest (revisions : List (EdgeRevision F)) : List (EdgeRevision F) :=
  revisions.foldl keepLatest []

/-- A relation in need of a recheck at the knowledge time is stale. -/
def EdgeRevision.statusAt (revision : EdgeRevision F) (knowledgeTime : ℤ) : RelationStatus :=
  if (revision.status = .active ∨ revision.status = .verified) ∧
      revision.revalidateAfter ≤ knowledgeTime then .stale
  else revision.status

def snapshotHash (digest : ℕ → String → String) (businessTime knowledgeTime : ℤ)
    (revisionIds mergeIds : List String) : String :=
  "graph-snapshot:" ++ digest 40 (toString businessTime ++ "|" ++ toString knowledgeTime ++ "|" ++
    String.intercalate "," revisionIds ++ "|" ++ String.intercalate "," mergeIds)

/-- The ids of the nodes that the edges end at. -/
def endpointIds (edges : List (SnapshotEdge F)) : List String :=
  edges.flatMap fun edge => [edge.src, edge.dst]

section Snapshots

variable [F64 F]

/-- The confidence of a revision halves with every half-life of its evidence. -/
def EdgeRevision.effectiveConfidence (revision : EdgeRevision F) (knowledgeTime : ℤ) : F :=
  let ageDays := F64.div (F64.lit (max (saturate (knowledgeTime - revision.observedAt)) 0 : ℤ))
    (F64.lit 86400)
  F64.clamp (F64.mul revision.confidence (F64.powf (F64.lit (1 / 2))
    (F64.div ageDays (F64.lit (max revision.decayHalfLifeDays 1 : ℤ))))) (F64.lit 0) (F64.lit 1)

def EdgeRevision.snapshotEdge (revision : EdgeRevision F) (knowledgeTime : ℤ)
    (merges : String → Option String) : SnapshotEdge F where
  revisionId := revision.revisionId
  identityId := revision.identityId
  revisionNo := revision.revisionNo
  src := resolveMerge revision.src merges
  originalSrc := revision.src
  dst := resolveMerge revision.dst merges
  originalDst := revision.dst
  relation := revision.relation
  productScope := revision.productScope
  regionScope := revision.regionScope
  weight := revision.weight
  disclosedShare := revision.disclosedShare
  confidence := revision.confidence
  effectiveConfidence := revision.effectiveConfidence knowledgeTime
  sourceType := revision.sourceType
  sourceName := revision.sourceName
  sourceUrl := revision.sourceUrl
  evidenceVersion := revision.evidenceVersion
  status := revision.statusAt knowledgeTime
  validFrom := revision.validFrom
  validTo := revision.validTo
  observedAt := revision.observedAt
  recordedAt := revision.recordedAt
  revalidateAfter := revision.revalidateAfter

/-- The snapshot of revisions and merges, over the current nodes. -/
def buildSnapshot (digest : ℕ → String → String) (businessTime knowledgeTime : ℤ)
    (revisions : List (EdgeRevision F)) (merges : List EntityMergeRevision) (allNodes : List Node) :
    GraphSnapshot F :=
  let selected := selectLatest revisions
  let visible := selected.filter fun r => (r.statusAt knowledgeTime).visibleInActiveGraph
  let edges := (visible.map fun r => r.snapshotEdge knowledgeTime (mergeMap merges)).insertionSort
    fun a b => a.identityId ≤ b.identityId
  let revisionIds := (selected.map (·.revisionId)).insertionSort (· ≤ ·)
  let mergeIds := (merges.map (·.mergeId)).insertionSort (· ≤ ·)
  { snapshotId := snapshotHash digest businessTime knowledgeTime revisionIds mergeIds
    businessTime := businessTime
    knowledgeTime := knowledgeTime
    nodes := (allNodes.filter (·.id ∈ endpointIds edges)).insertionSort fun a b => a.id ≤ b.id
    edges := edges
    revisionIds := revisionIds
    mergeIds := mergeIds
    staleCount := (selected.filter (·.statusAt knowledgeTime = .stale)).length
    excludedCount :=
      (selected.filter fun r => !(r.statusAt knowledgeTime).visibleInActiveGraph).length }

def GraphStore.snapshotAt (g : GraphStore F) (digest : ℕ → String → String)
    (businessTime knowledgeTime : ℤ) : GraphSnapshot F :=
  buildSnapshot digest businessTime knowledgeTime (g.loadAsOfRevisions businessTime knowledgeTime)
    (g.loadAsOfMerges businessTime knowledgeTime) g.allNodes

/-- What was valid at one time, as known at another. The clocks of the snapshot are kept. -/
def graphAsOf (digest : ℕ → String → String) (now businessTime knowledgeTime : ℤ) :
    GraphProg F (GraphSnapshot F) := do
  guardOr (0 ≤ businessTime && 0 ≤ knowledgeTime) (.invalid "图谱时间不能为负数")
  let snapshot := (← get).snapshotAt digest businessTime knowledgeTime
  -- INSERT OR IGNORE
  modify fun g =>
    if (Table.find SnapshotRecord.snapshotId snapshot.snapshotId g.snapshots).isSome then g
    else g.addSnapshot {
      snapshotId := snapshot.snapshotId
      businessTime := businessTime
      knowledgeTime := knowledgeTime
      revisionIds := snapshot.revisionIds
      mergeIds := snapshot.mergeIds
      createdAt := now }
  pure snapshot

/-- Replay a snapshot by its id. -/
def graphSnapshot (digest : ℕ → String → String) (now : ℤ) (snapshotId : String) :
    GraphProg F (Option (GraphSnapshot F)) := do
  match Table.find SnapshotRecord.snapshotId snapshotId (← get).snapshots with
  | none => pure none
  | some clocks =>
    let snapshot ← graphAsOf digest now clocks.businessTime clocks.knowledgeTime
    guardOr (snapshot.snapshotId = snapshotId) (.invalid
      ("快照 " ++ snapshotId ++ " 已无法按相同输入重建，数据库存在回溯写入"))
    pure (some snapshot)

/-- The recheck of a relation that is taken to hold is due. -/
def EdgeRevision.due (revision : EdgeRevision F) (knowledgeTime : ℤ) : Bool :=
  revision.revalidateAfter ≤ knowledgeTime &&
    (revision.status = .active || revision.status = .verified || revision.status = .stale)

/-- The relations to recheck, in the order of their identities. A revision that is not due is passed
over before the latest one of its identity is kept. -/
def GraphStore.revalidationDue (g : GraphStore F) (knowledgeTime : ℤ) : List (EdgeRevision F) :=
  selectLatest ((g.loadAsOfRevisions knowledgeTime knowledgeTime).filter (·.due knowledgeTime))

/-! ## Runs -/

inductive GraphCall (F : Type) where
  | upsertNode (node : Node)
  | upsertEdge (now : ℤ) (edge : Edge F)
  | upsertRevisionAt (input : EdgeRevisionInput F)
  | recordRevision (now : ℤ) (input : EdgeRevisionInput F)
  | recordRevisionAt (input : EdgeRevisionInput F)
  | recordEntityMergeAt (fromNodeId toNodeId : String) (validFrom : ℤ) (validTo : Option ℤ)
      (recordedAt : ℤ) (reason : String)
  | graphAsOf (now businessTime knowledgeTime : ℤ)
  | graphSnapshot (now : ℤ) (snapshotId : String)

def GraphCall.prog (digest : ℕ → String → String) : GraphCall F → GraphProg F Unit
  | upsertNode node => Astock.upsertNode node
  | upsertEdge now edge => Astock.upsertEdge digest now edge
  | upsertRevisionAt input => do let _ ← Astock.upsertRevisionAt digest input
  | recordRevision now input => do let _ ← Astock.recordRevision digest now input
  | recordRevisionAt input => do let _ ← Astock.recordRevisionAt digest input
  | recordEntityMergeAt fromNodeId toNodeId validFrom validTo recordedAt reason => do
    let _ ← Astock.recordEntityMergeAt digest fromNodeId toNodeId validFrom validTo recordedAt reason
  | graphAsOf now businessTime knowledgeTime => do
    let _ ← Astock.graphAsOf digest now businessTime knowledgeTime
  | graphSnapshot now snapshotId => do let _ ← Astock.graphSnapshot digest now snapshotId

/-- When the call records a relation or a merge, if it does. -/
def GraphCall.recordedAt : GraphCall F → Option ℤ
  | upsertEdge now _ | recordRevision now _ => some now
  | upsertRevisionAt input | recordRevisionAt input => some input.recordedAt
  | recordEntityMergeAt _ _ _ _ recordedAt _ => some recordedAt
  | upsertNode _ | graphAsOf _ _ _ | graphSnapshot _ _ => none

/-- The graph after a call. -/
def GraphStore.after (digest : ℕ → String → String) (g : GraphStore F) (call : GraphCall F) :
    GraphStore F :=
  (exec (call.prog digest) g).2

/-- The graphs that calls lead to from an empty database. -/
def GraphStore.Reachable (digest : ℕ → String → String) (g : GraphStore F) : Prop :=
  ∃ calls : List (GraphCall F), g = Run.run (GraphStore.after digest) {} calls

end Snapshots

end Astock
