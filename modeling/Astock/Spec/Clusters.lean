import Astock.Lib.F64
import Astock.Spec.NewsArchive

/-!
# Event clusters

`crates/news-intelligence/src/lib.rs` over the tables of `crates/storage/src/db.rs`: archived
revisions are members of clusters, one event each. `assign_revision`, `manual_merge` and
`manual_split` run one at a time, under a lock; `news_agent_evidence_link` cites a revision for a
conclusion of the agent.

The texts of explanations, the table of decisions and the times of rows that nothing here reads are
left out. The similarity of two revisions and the captures of the fact pattern are given from
outside.
-/

namespace Astock

inductive DocumentRelationship
  | firstPublication
  | reprint
  | summary
  | followUp
  | commentary
  | correction
  | retraction
  | duplicateFetch
  deriving DecidableEq, Repr

/-- `matches!(relationship, Correction | Retraction)`. -/
def DocumentRelationship.corrects : DocumentRelationship → Bool
  | .correction | .retraction => true
  | _ => false

/-- The value of `event_clusters.status`. -/
inductive ClusterStatus
  | active
  | merged
  | empty
  deriving DecidableEq, Repr

/-- What `refresh_cluster` computes for a row of `event_clusters`. -/
structure ClusterSummary (F : Type) where
  canonicalTitle : String
  eventTimeUtc : Option ℤ
  firstSeenTimeUtc : ℤ
  primaryRevisionId : String
  firstSourceId : String
  independentSources : ℕ
  evidenceDiversity : F
  latestRevisionId : String
  conflictFields : List String
  deriving DecidableEq

structure EventCluster (F : Type) where
  clusterId : String
  summary : ClusterSummary F
  status : ClusterStatus
  mergedIntoClusterId : Option String
  deriving DecidableEq

/-- A row of `event_cluster_members`; its explanation has the score of the row. -/
structure EventClusterMember (F : Type) where
  clusterId : String
  revisionId : String
  relationship : DocumentRelationship
  mergeScore : F
  active : Bool
  createdAt : ℤ
  deriving DecidableEq

/-- A row of `event_fact_conflicts`. -/
structure EventFactConflict where
  clusterId : String
  fieldName : String
  values : List String
  authoritativeRevisionId : Option String
  status : String
  deriving DecidableEq, Repr

/-- A row of `agent_evidence_refs`. -/
structure EvidenceRef where
  taskId : String
  conclusionKey : String
  revisionId : String
  deriving DecidableEq, Repr

/-- A row of `agent_conclusion_reviews`. -/
structure AgentConclusionReview where
  taskId : String
  conclusionKey : String
  triggeringRevision : String
  triggerRelation : DocumentRelationship
  status : String
  deriving DecidableEq, Repr

/-- What the clusters read of an archived revision. -/
structure CitedRevision where
  revision : DocumentRevision
  sourceId : String
  deriving DecidableEq

/-- The tables, each in the order in which its rows were inserted. -/
structure NewsEvents (F : Type) where
  archive : NewsArchive := {}
  clusters : List (EventCluster F) := []
  members : List (EventClusterMember F) := []
  conflicts : List EventFactConflict := []
  evidenceRefs : List EvidenceRef := []
  reviews : List AgentConclusionReview := []

/-! ## Reading texts -/

/-- The words that the fact pattern takes for a key. -/
def factKeys : List String :=
  ["营收", "营业收入", "净利润", "回购", "增持", "减持", "持股", "目标价", "成交价", "发行价", "产量", "销量"]

/-- A match of the fact pattern: its groups `key` and `value`, and the whole of it. -/
structure FactCapture where
  key : {k : String // k ∈ factKeys}
  value : String
  matched : String

/-- The Unicode tables and the regular expressions that the texts are read with. -/
structure TextReader where
  /-- `char::is_alphanumeric`. -/
  alphanumeric : Char → Bool
  /-- `FACT.captures_iter(text)`. -/
  factCaptures : String → List FactCapture

/-- What `compare_fingerprints` decides about two revisions. -/
structure PairDecision (F : Type) where
  merge : Bool
  relationship : DocumentRelationship
  score : F

/-- `text.contains(word)` for any of the words. -/
def containsAny (text : String) (words : List String) : Bool := words.any fun word => Text.contains text word

/-- `BTreeSet::insert`. -/
def insertSet (x : String) (set : List String) : List String := Table.insertOrdered id x set

def extractFacts (reader : TextReader) (text : String) : List (String × List String) :=
  (reader.factCaptures text).foldl (fun facts capture =>
    let normalized :=
      if Text.startsWith capture.value "+" || Text.startsWith capture.value "-" then
        capture.value
      else if containsAny capture.matched ["下降", "减少", "下调", "亏损", "减持"] then
        "-" ++ capture.value
      else if containsAny capture.matched ["增长", "增加", "上调", "盈利", "增持"] then
        "+" ++ capture.value
      else
        capture.value
    Table.entry capture.key.val [] (insertSet normalized) facts) []

/-- Whether a text is about good news or bad. -/
def direction (text : String) : Option ℤ :=
  match containsAny text ["增长", "增持", "上调", "中标", "回购", "盈利", "利好"],
      containsAny text ["下降", "减持", "下调", "亏损", "处罚", "终止", "利空"] with
  | true, false => some 1
  | false, true => some (-1)
  | _, _ => none

/-- Whether `normalize_title` leaves nothing of the title. -/
def blankTitle (reader : TextReader) (title : String) : Bool :=
  !(title.toList.filter fun c => c ≠ '【' && c ≠ '】').any fun c =>
    reader.alphanumeric c || (0x4e00 ≤ c.toNat && c.toNat ≤ 0x9fff)

def classifyRelationship (reader : TextReader) (revision : DocumentRevision)
    (fallback : DocumentRelationship) : DocumentRelationship :=
  let text := revision.title ++ " " ++ revision.factualSummary
  if containsAny text ["撤回", "作废", "取消原公告"] then .retraction
  else if containsAny text ["更正", "修订", "勘误", "以此为准"] then .correction
  else if containsAny text ["评论", "解读", "点评", "观点"] then .commentary
  else if containsAny text ["摘要", "一图看懂", "要点"] then .summary
  else if blankTitle reader revision.title then .followUp
  else fallback

/-- The bytes `A` to `Z` in lower case. -/
def toAsciiLowercase (s : String) : String :=
  String.ofList (s.toList.map fun c => if 'A' ≤ c ∧ c ≤ 'Z' then Char.ofNat (c.toNat + 32) else c)

def authorityRank (sourceId : String) : ℕ :=
  let lower := toAsciiLowercase sourceId
  if Text.contains lower "official" || Text.contains lower "exchange" ||
      Text.contains lower "cninfo" then 0
  else if Text.contains lower "licensed" then 1
  else 2

/-! ## Conflicts -/

/-- `min_by_key`: the first of the smallest. -/
def minByKey {α : Type} (key : α → ℕ) : List α → Option α
  | [] => none
  | a :: rest =>
    match minByKey key rest with
    | none => some a
    | some b => if key b < key a then some b else some a

/-- The revision of the most authoritative source that has any of the options. -/
def authoritativeRevision (revisions : List CitedRevision) (options : List (String × List String)) :
    Option String :=
  (minByKey (fun r => authorityRank r.sourceId) (revisions.filter fun r =>
    options.any fun option => option.2.contains r.revision.revisionId)).map (·.revision.revisionId)

/-- For each field, the values that the revisions have for it, and which have each. -/
def factValues (reader : TextReader) (revisions : List CitedRevision) :
    List (String × List (String × List String)) :=
  revisions.foldl (fun values r =>
    (extractFacts reader (r.revision.title ++ " " ++ r.revision.factualSummary)).foldl
      (fun values field => field.2.foldl (fun values fact =>
        Table.entry field.1 [] (Table.entry fact [] (· ++ [r.revision.revisionId])) values) values)
      values) []

def directionValues (revisions : List CitedRevision) : List (String × List String) :=
  revisions.foldl (fun directions r =>
    match direction (r.revision.title ++ " " ++ r.revision.factualSummary) with
    | some d => Table.entry (toString d) [] (· ++ [r.revision.revisionId]) directions
    | none => directions) []

def openConflict (clusterId : String) (revisions : List CitedRevision) (field : String)
    (options : List (String × List String)) : EventFactConflict where
  clusterId := clusterId
  fieldName := field
  values := options.map (·.1)
  authoritativeRevisionId := authoritativeRevision revisions options
  status := "open"

/-- A field with more than one value is in conflict, and so is the direction. -/
def detectConflicts (reader : TextReader) (clusterId : String) (revisions : List CitedRevision) :
    List EventFactConflict :=
  let conflicts := ((factValues reader revisions).filter fun field => 1 < field.2.length).map
    fun field => openConflict clusterId revisions field.1 field.2
  let directions := directionValues revisions
  if 1 < directions.length then
    conflicts ++ [openConflict clusterId revisions "direction" directions]
  else
    conflicts

/-! ## Queries -/

/-- `news_archive_revision`. -/
def NewsArchive.revision (s : NewsArchive) (revisionId : String) : Option ArchivedNewsRevision :=
  s.joined.find? fun r => r.revision.revisionId = revisionId

/-- `news_archive_all_revisions`: the newest first. -/
def NewsArchive.allRevisions (s : NewsArchive) (limit : ℕ) : List ArchivedNewsRevision :=
  (s.joined.reverse.insertionSort fun a b =>
    b.revision.revisionTimeUtc ≤ a.revision.revisionTimeUtc).take (min (max limit 1) 100000)

namespace NewsEvents

variable {F : Type}

def cited (s : NewsEvents F) (revisionId : String) : Option CitedRevision :=
  (s.archive.revision revisionId).map fun r => { revision := r.revision, sourceId := r.document.sourceId }

def cluster (s : NewsEvents F) (clusterId : String) : Option (EventCluster F) :=
  Table.find (·.clusterId) clusterId s.clusters

/-- A unique index admits one active membership of a revision. -/
def memberForRevision (s : NewsEvents F) (revisionId : String) : Option (EventClusterMember F) :=
  s.members.find? fun m => m.revisionId = revisionId && m.active

/-- The active rows of a cluster, as they were inserted. -/
def activeRows (clusterId : String) (members : List (EventClusterMember F)) :
    List (EventClusterMember F) :=
  members.filter fun m => m.clusterId = clusterId && m.active

/-- The active rows of a cluster, `ORDER BY created_at, rowid`. -/
def membersOf (s : NewsEvents F) (clusterId : String) : List (EventClusterMember F) :=
  (activeRows clusterId s.members).insertionSort fun a b => a.createdAt ≤ b.createdAt

def conflictsOf (s : NewsEvents F) (clusterId : String) : List EventFactConflict :=
  s.conflicts.filter fun row => row.clusterId = clusterId

end NewsEvents

structure EventClusterDetail (F : Type) where
  cluster : EventCluster F
  members : List (EventClusterMember F)
  revisions : List CitedRevision
  conflicts : List EventFactConflict

namespace NewsEvents

variable {F : Type}

def clusterDetail (s : NewsEvents F) (clusterId : String) : Except String (EventClusterDetail F) :=
  match s.cluster clusterId with
  | none => .error s!"未知事件簇 {clusterId}"
  | some cluster => .ok {
      cluster := cluster
      members := s.membersOf clusterId
      revisions := (s.membersOf clusterId).filterMap fun m => s.cited m.revisionId
      conflicts := (s.conflictsOf clusterId).insertionSort fun a b => a.fieldName ≤ b.fieldName }

/-! ## Writes -/

/-- `INSERT OR IGNORE INTO event_clusters`. -/
def createCluster [F64 F] (clusterId : String) (revision : CitedRevision) (s : NewsEvents F) :
    NewsEvents F :=
  match s.cluster clusterId with
  | some _ => s
  | none => { s with clusters := s.clusters ++ [{
      clusterId := clusterId
      summary := {
        canonicalTitle := revision.revision.title
        eventTimeUtc := revision.revision.eventTime.utc.or revision.revision.publishTime.utc
        firstSeenTimeUtc := revision.revision.firstSeenTimeUtc
        primaryRevisionId := revision.revision.revisionId
        firstSourceId := revision.sourceId
        independentSources := 1
        evidenceDiversity := F64.lit 1
        latestRevisionId := revision.revision.revisionId
        conflictFields := [] }
      status := .active
      mergedIntoClusterId := none }] }

def insertMember (m : EventClusterMember F) (s : NewsEvents F) : NewsEvents F :=
  { s with members := s.members ++ [m] }

/-- `UPDATE event_cluster_members SET active=0` where the row meets a condition. -/
def deactivate (p : EventClusterMember F → Bool) (members : List (EventClusterMember F)) :
    List (EventClusterMember F) :=
  members.map fun m => if p m && m.active then { m with active := false } else m

/-- Order by first-seen time, then by revision time. -/
def earlier (a b : CitedRevision) : Prop :=
  a.revision.firstSeenTimeUtc < b.revision.firstSeenTimeUtc ∨
    a.revision.firstSeenTimeUtc = b.revision.firstSeenTimeUtc ∧
      a.revision.revisionTimeUtc ≤ b.revision.revisionTimeUtc

instance : DecidableRel earlier := fun _ _ => inferInstanceAs (Decidable (_ ∨ _))

/-- The summary of revisions that are sorted by time. -/
def summarize [F64 F] (conflicts : List EventFactConflict) (first : CitedRevision)
    (revisions : List CitedRevision) : ClusterSummary F :=
  let sources := (revisions.map (·.sourceId)).dedup
  let latest := revisions.getLast?.getD first
  let primary := (revisions.find? fun r => authorityRank r.sourceId = 0).getD first
  { canonicalTitle := primary.revision.title
    eventTimeUtc :=
      (revisions.filterMap fun r => r.revision.eventTime.utc.or r.revision.publishTime.utc).min?
    firstSeenTimeUtc := first.revision.firstSeenTimeUtc
    primaryRevisionId := primary.revision.revisionId
    firstSourceId := first.sourceId
    independentSources := sources.length
    evidenceDiversity := F64.clamp (F64.div (F64.lit sources.length) (F64.lit revisions.length))
      (F64.lit 0) (F64.lit 1)
    latestRevisionId := latest.revision.revisionId
    conflictFields := conflicts.map (·.fieldName) }

/-- What `refresh_cluster` computes from the active members: the summary and the conflict rows. -/
def computed [F64 F] (reader : TextReader) (s : NewsEvents F) (clusterId : String) :
    Option (ClusterSummary F × List EventFactConflict) :=
  let revisions := ((s.membersOf clusterId).filterMap fun m => s.cited m.revisionId).insertionSort earlier
  match revisions.head? with
  | none => none
  | some first =>
    let conflicts := detectConflicts reader clusterId revisions
    some (summarize conflicts first revisions, conflicts)

def refreshCluster [F64 F] (reader : TextReader) (clusterId : String) (s : NewsEvents F) :
    Except String (EventClusterDetail F) × NewsEvents F :=
  if s.membersOf clusterId = [] then
    let s := { s with
      clusters := Table.update (·.clusterId) clusterId (fun c => { c with status := .empty }) s.clusters }
    (s.clusterDetail clusterId, s)
  else
    match s.computed reader clusterId with
    | none => (.error "事件簇没有修订", s)
    | some (summary, conflicts) =>
      -- the primary key of the conflict rows
      if (conflicts.map (·.fieldName)).Nodup then
        let s := { s with
          clusters := Table.update (·.clusterId) clusterId (fun c => { c with summary }) s.clusters
          conflicts := (s.conflicts.filter fun row => row.clusterId ≠ clusterId) ++ conflicts }
        (s.clusterDetail clusterId, s)
      else
        (.error "UNIQUE constraint failed: event_fact_conflicts.cluster_id, event_fact_conflicts.field_name", s)

/-- `INSERT OR IGNORE INTO agent_conclusion_reviews`. -/
def insertReview (row : AgentConclusionReview) (reviews : List AgentConclusionReview) :
    List AgentConclusionReview :=
  if reviews.any fun r => r.taskId = row.taskId && r.conclusionKey = row.conclusionKey &&
      r.triggeringRevision = row.triggeringRevision then
    reviews
  else
    reviews ++ [row]

/-- The conclusions that cite another active member of the cluster. -/
def dependentConclusions (s : NewsEvents F) (clusterId triggeringRevision : String) :
    List (String × String) :=
  ((s.evidenceRefs.filter fun r => r.revisionId ≠ triggeringRevision &&
    s.members.any fun m => m.revisionId = r.revisionId && m.active && m.clusterId = clusterId).map
      fun r => (r.taskId, r.conclusionKey)).dedup

def markDependentConclusions (clusterId triggeringRevision : String)
    (relationship : DocumentRelationship) (s : NewsEvents F) : NewsEvents F :=
  let rows := (s.dependentConclusions clusterId triggeringRevision).map fun conclusion =>
    ({ taskId := conclusion.1
       conclusionKey := conclusion.2
       triggeringRevision := triggeringRevision
       triggerRelation := relationship
       status := "pending_review" } : AgentConclusionReview)
  { s with reviews := rows.foldl (fun reviews row => insertReview row reviews) s.reviews }

end NewsEvents

/-! ## Calls -/

/-- What an assignment answers; the score is that of its explanation. -/
structure ClusterAssignment (F : Type) where
  clusterId : String
  revisionId : String
  relationship : DocumentRelationship
  independentSources : ℕ
  score : F
  deriving DecidableEq

/-- `compare_fingerprints` under the configuration of a clusterer. -/
abbrev Comparison (F : Type) := ArchivedNewsRevision → ArchivedNewsRevision → PairDecision F

namespace NewsEvents

section Calls

variable {F : Type} [F64 F] (sha : Bytes → String) (reader : TextReader)

def clusterIdFor (revisionId : String) : String := "evt:" ++ Text.takeChars 24 (sha (bytes revisionId))

/-- Of the revisions that are in a cluster, the one that matches best: its cluster, and the
decision. -/
def bestMatch (compare : Comparison F) (s : NewsEvents F) (revision : ArchivedNewsRevision) :
    Option (String × PairDecision F) :=
  (s.archive.allRevisions 5000).foldl (fun best candidate =>
    if candidate.revision.revisionId = revision.revision.revisionId then best
    else
      match s.memberForRevision candidate.revision.revisionId with
      | none => best
      | some m =>
        let decision := compare revision candidate
        if decision.merge && best.all fun previous => F64.lt previous.2.score decision.score then
          some (m.clusterId, decision)
        else
          best) none

/-- Where a revision goes that is in no cluster: that of its best match, or one of its own. -/
def assignTarget (compare : Comparison F) (s : NewsEvents F) (revision : ArchivedNewsRevision) :
    String × DocumentRelationship × F :=
  match s.bestMatch compare revision with
  | some (clusterId, decision) =>
    (clusterId, classifyRelationship reader revision.revision decision.relationship, decision.score)
  | none => (clusterIdFor sha revision.revision.revisionId, .firstPublication, F64.lit 1)

def assignRevision (compare : Comparison F) (now : ℤ) (revisionId : String) (s : NewsEvents F) :
    Except String (ClusterAssignment F) × NewsEvents F :=
  match s.memberForRevision revisionId with
  | some existing =>
    match s.cluster existing.clusterId with
    | none => (.error s!"聚类 {existing.clusterId} 缺少主记录", s)
    | some cluster => (.ok {
        clusterId := existing.clusterId
        revisionId := existing.revisionId
        relationship := existing.relationship
        independentSources := cluster.summary.independentSources
        score := existing.mergeScore }, s)
  | none =>
    match s.archive.revision revisionId with
    | none => (.error s!"未知资讯修订 {revisionId}", s)
    | some revision =>
      let target := s.assignTarget sha reader compare revision
      let s :=
        if (s.bestMatch compare revision).isSome then s
        else s.createCluster target.1
          { revision := revision.revision, sourceId := revision.document.sourceId }
      let s := s.insertMember {
        clusterId := target.1
        revisionId := revision.revision.revisionId
        relationship := target.2.1
        mergeScore := target.2.2
        active := true
        createdAt := now }
      match s.refreshCluster reader target.1 with
      | (.error message, s) => (.error message, s)
      | (.ok detail, s) =>
        let s :=
          if target.2.1.corrects then
            s.markDependentConclusions target.1 revision.revision.revisionId target.2.1
          else s
        (.ok {
          clusterId := target.1
          revisionId := revision.revision.revisionId
          relationship := target.2.1
          independentSources := detail.cluster.summary.independentSources
          score := target.2.2 }, s)

/-- One member is moved: its row in the old cluster ends, and the new one gets a row. -/
def moveMember (fromId toId : String) (now : ℤ) (m : EventClusterMember F)
    (members : List (EventClusterMember F)) : List (EventClusterMember F) :=
  deactivate (fun x => x.clusterId = fromId && x.revisionId = m.revisionId) members ++
    [{ m with clusterId := toId, mergeScore := F64.lit 1, active := true, createdAt := now }]

/-- All members are moved; `clock` reads the time for each. -/
def moveMembers (fromId toId : String) (clock : ℕ → ℤ) (moved members : List (EventClusterMember F)) :
    List (EventClusterMember F) :=
  moved.zipIdx.foldl (fun members m => moveMember fromId toId (clock m.2) m.1 members) members

def manualMerge (clock : ℕ → ℤ) (fromId toId reason : String) (s : NewsEvents F) :
    Except String (EventClusterDetail F) × NewsEvents F :=
  if fromId = toId ∨ Text.trim reason = "" then (.error "人工合并目标或理由无效", s)
  else
    match s.clusterDetail fromId, s.clusterDetail toId with
    | .error message, _ => (.error message, s)
    | .ok _, .error message => (.error message, s)
    | .ok source, .ok _ =>
      let s := { s with
        members := moveMembers fromId toId clock source.members s.members
        clusters := Table.update (·.clusterId) fromId
          (fun c => { c with status := .merged, mergedIntoClusterId := some toId }) s.clusters }
      s.refreshCluster reader toId

/-- The cluster that a split makes. -/
def splitTarget (clock : ℕ → ℤ) (revisionId : String) : String :=
  clusterIdFor sha revisionId ++ "-manual-" ++ toString (clock 0)

def manualSplit (clock : ℕ → ℤ) (revisionId reason : String) (s : NewsEvents F) :
    Except String (EventClusterDetail F) × NewsEvents F :=
  if Text.trim reason = "" then (.error "人工拆分理由不能为空", s)
  else
    match s.memberForRevision revisionId, s.cited revisionId with
    | none, _ => (.error "该修订尚未进入事件簇", s)
    | some _, none => (.error "资讯修订不存在", s)
    | some old, some revision =>
      let target := splitTarget sha clock revisionId
      let s := s.createCluster target revision
      let row : EventClusterMember F := {
        clusterId := target
        revisionId := revisionId
        relationship := .firstPublication
        mergeScore := F64.lit 1
        active := true
        createdAt := clock 1 }
      let s := { s with members := deactivate (fun m => m.revisionId = revisionId) s.members ++ [row] }
      match s.refreshCluster reader old.clusterId with
      | (.error message, s) => (.error message, s)
      | (.ok _, s) => s.refreshCluster reader target

/-- `news_agent_evidence_link`: the revision has to be archived. -/
def agentEvidenceLink (taskId conclusionKey revisionId : String) (s : NewsEvents F) :
    Except String Unit × NewsEvents F :=
  let row : EvidenceRef := { taskId, conclusionKey, revisionId }
  if s.evidenceRefs.contains row then (.ok (), s)
  else if s.archive.revisions.any fun r => r.revisionId = revisionId then
    (.ok (), { s with evidenceRefs := s.evidenceRefs ++ [row] })
  else (.error "FOREIGN KEY constraint failed", s)

end Calls

end NewsEvents

/-- A call, with what it is given and the times that it reads. -/
inductive NewsCall (F : Type)
  | archive (call : UpsertCall)
  | assign (compare : Comparison F) (now : ℤ) (revisionId : String)
  | merge (clock : ℕ → ℤ) (fromId toId reason : String)
  | split (clock : ℕ → ℤ) (revisionId reason : String)
  | cite (taskId conclusionKey revisionId : String)

/-- The tables after a call. -/
def NewsEvents.after {F : Type} [F64 F] (sha : Bytes → String) (reader : TextReader) (s : NewsEvents F) :
    NewsCall F → NewsEvents F
  | .archive call => { s with archive := s.archive.after sha call }
  | .assign compare now revisionId => (s.assignRevision sha reader compare now revisionId).2
  | .merge clock fromId toId reason => (s.manualMerge reader clock fromId toId reason).2
  | .split clock revisionId reason => (s.manualSplit sha reader clock revisionId reason).2
  | .cite taskId conclusionKey revisionId => (s.agentEvidenceLink taskId conclusionKey revisionId).2

end Astock
