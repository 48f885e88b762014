import Astock.Spec.RelationStore

/-!
# Review and publication of relations

`review`, `publish`, `retract`, `agent_relations` and `reviewed_annotations` of
`crates/relation-extraction/src/lib.rs`, and the runs of the store's calls.
-/

namespace Astock

open Prog

variable {F : Type}

/-- The review status that a decision leads to; other decisions are refused. -/
def reviewStatusOf : String → Option ReviewStatus
  | "accepted" => some .accepted
  | "modified" => some .modified
  | "merge_entity" => some .mergeEntity
  | "rejected" => some .rejected
  | "confidential" => some .confidential
  | "non_inferable" => some .nonInferable
  | _ => none

/-- What a review writes into the row of its candidate. -/
def CandidateRow.reviewed (request : RelationReviewRequest) (status : ReviewStatus)
    (subjectText objectText : String) (subject subjectParent object objectParent : Option String)
    (now : ℤ) (row : CandidateRow) : CandidateRow :=
  { row with
    subjectText := subjectText
    objectText := objectText
    relation := request.relation.getD row.relation
    productText := request.productText.or row.productText
    subjectEntityId := subject
    objectEntityId := object
    subjectParentEntityId := subjectParent
    objectParentEntityId := objectParent
    reviewStatus := status
    confidential := request.confidential || status = .confidential
    nonInferable := request.nonInferable || status = .nonInferable
    candidateVersion := row.candidateVersion + 1
    updatedAt := now
    -- an accepted candidate is raised to the threshold if it is validated
    confidenceBps := if row.validationStatus = .validated ∧ status.accepting then
      max row.confidenceBps 8500 else row.confidenceBps }

/-- The transaction of a review. -/
def recordReview (row : CandidateRow) (review : CandidateReview) : RelationProg F Unit := do
  let s ← get
  guardOr (!s.candidates.any fun c => c.candidateId ≠ row.candidateId ∧ row.collides c)
    (.storage "sqlite error: UNIQUE constraint failed: relation_candidates")
  set { s with
    candidates := Table.update CandidateRow.candidateId row.candidateId (fun _ => row) s.candidates
    reviews := s.reviews ++ [review] }

section

variable [F64 F] (reader : RelationReader) (digest : ℕ → String → String)

/-- What a published candidate is recorded as. -/
def publishedRevision (env : RelationEnv) (candidate : RelationCandidate) (detail : SourceDocumentDetail)
    (version : SourceVersion) (src dst : String) : EdgeRevisionInput F :=
  let (validFrom, validTo) := relationBusinessInterval reader candidate.reportPeriod version.publishedAt
  let share : Option F := candidate.shareBps.map fun value => F64.div (F64.lit (value : ℚ)) (F64.lit 10000)
  let source := (candidate.evidence.head?.map (·.sourceVersionId)).getD ""
  { edge :=
      { src := src
        dst := dst
        relation := candidate.relation.graphRelation
        weight := share.getD (F64.lit (7 / 10))
        sourceName := "人工审核关系 · " ++ source
        sourceUrl := detail.canonicalUrl
        confidence := F64.div (F64.lit (candidate.confidenceBps : ℚ)) (F64.lit 10000)
        validFrom := validFrom
        validTo := validTo }
    productScope := candidate.productText
    regionScope := candidate.region
    disclosedShare := share
    sourceType := candidate.documentKind.graphSourceType
    evidenceVersion := candidate.sourceVersionId
    status := .active
    observedAt := min (version.publishedAt.getD version.fetchedAt) env.now
    recordedAt := env.now
    supersedesRevisionId := none
    metadata := .obj [("candidate_id", .str candidate.candidateId),
      ("report_period", (candidate.reportPeriod.map Json.str).getD .null),
      ("review_status", .str candidate.reviewStatus.token)] }

/-- `a|b|c`: the ends and the relation of a projection. -/
def projectionKeyOf (src dst : String) (relation : Relation) : String :=
  src ++ "|" ++ dst ++ "|" ++ relation.asStr

def insertPublication (publication : RelationPublication) : RelationProg F Unit := do
  let s ← get
  guardOr (!s.publications.any fun p => p.publicationId = publication.publicationId ∨
      p.candidateId = publication.candidateId ∧ p.publicationVersion = publication.publicationVersion)
    (.storage "sqlite error: UNIQUE constraint failed: relation_publications")
  set { s with publications := s.publications ++ [publication] }

/-- What makes a candidate fit for publication. -/
def publishable (candidate : RelationCandidate) : Except RelationError Unit :=
  if !candidate.reviewStatus.accepting then .error (.invalid "候选尚未通过人工审核")
  else if candidate.confidential || candidate.nonInferable ||
      candidate.disclosureMode = .anonymousCustomer then
    .error (.invalid "保密、匿名或不可推断关系不能发布")
  else if candidate.confidenceBps < agentConfidenceThresholdBps then
    .error (.invalid "候选置信度低于高置信发布阈值 85%")
  else .ok ()

/-- The graph part of a publication: the two nodes and the revision. -/
def projectCandidate (env : RelationEnv) (candidate : RelationCandidate) (src dst : Node) :
    RelationProg F Unit := do
  onGraph (upsertNode src)
  onGraph (upsertNode dst)
  let detail ← liftRelation (env.readDocument candidate.sourceVersionId)
  match detail.version with
  | none => throw (.invalid "来源版本不存在，不能发布关系")
  | some version =>
    let _ ← onGraph (upsertRevisionAt digest
      (publishedRevision reader env candidate detail version src.id dst.id))

def publish (env : RelationEnv) (candidateId : String) : RelationProg F PublicationResult := do
  match (← get).candidate candidateId with
  | none => throw (.notFound candidateId)
  | some candidate =>
    liftRelation (publishable candidate)
    let (src, dst) ← liftRelation (projectionNodes digest candidate.toCandidateRow env.entities)
    projectCandidate reader digest env candidate src dst
    let projectionKey := projectionKeyOf src.id dst.id candidate.relation.graphRelation
    match (← get).activePublication candidateId with
    | some publication =>
      return ⟨candidateId, some publication.publicationId, some projectionKey, "published",
        "该候选已经发布，本次为幂等复用"⟩
    | none =>
      let publicationId := "relpub:" ++ digest 28 (candidateId ++ "|" ++ toString candidate.candidateVersion)
      insertPublication {
        publicationId := publicationId
        candidateId := candidateId
        projectionKey := projectionKey
        publicationVersion := candidate.candidateVersion
        published := true
        publishedAt := env.now
        retractedAt := none
        retractionReason := none }
      return ⟨candidateId, some publicationId, some projectionKey, "published",
        "已发布到关系图；原始候选、证据和审核记录保持独立可回放"⟩

/-- A request without a reviewer or a reason, with a test label for training, or with an unknown
decision is refused. -/
def checkReview (request : RelationReviewRequest) : Except RelationError ReviewStatus :=
  if Text.trim request.reason = "" ∨ Text.trim request.reviewer = "" then
    .error (.invalid "审核人和审核理由不能为空")
  else if request.trainingEligible ∧ request.datasetSplit = some "test" then
    .error (.invalid "测试集审核结果不能标为训练可用，防止训练/测试泄漏")
  else
    match reviewStatusOf request.decision with
    | none => .error (.invalid "未知审核决定")
    | some status => .ok status

/-- The row of a candidate after a review, or why it is refused. -/
def reviewedRow (env : RelationEnv) (request : RelationReviewRequest) (status : ReviewStatus)
    (current : CandidateRow) : Except RelationError CandidateRow :=
  let subjectText := Text.trim (request.subjectText.getD current.subjectText)
  let objectText := Text.trim (request.objectText.getD current.objectText)
  if subjectText = "" ∨ objectText = "" then .error (.invalid "主体与对象不能为空")
  else
    match request.mergedEntityId.filter fun id =>
      (Table.find EntityRecord.entityId id env.entities).isNone with
    | some id => .error (.invalid ("合并目标实体不存在于主数据：" ++ id))
    | none =>
      let subject := request.mergedEntityId.or
        ((resolveEntity reader subjectText env.entities).map (·.entityId))
      let object := (resolveEntity reader objectText env.entities).map (·.entityId)
      .ok (current.reviewed request status subjectText objectText subject
        (subject.bind fun id => listedParentId id env.entities) object
        (object.bind fun id => listedParentId id env.entities) env.now)

def review (env : RelationEnv) (request : RelationReviewRequest) : RelationProg F PublicationResult := do
  let status ← liftRelation (checkReview request)
  match (← get).candidate request.candidateId with
  | none => throw (.notFound request.candidateId)
  | some current =>
    let row ← liftRelation (reviewedRow reader env request status current.toCandidateRow)
    recordReview row {
      candidateId := request.candidateId
      decision := request.decision
      reviewer := Text.trim request.reviewer
      reason := Text.trim request.reason
      mergedEntityId := request.mergedEntityId
      datasetSplit := request.datasetSplit
      trainingEligible := request.trainingEligible
      reviewedAt := env.now }
    if request.publish && status.accepting then publish reader digest env request.candidateId
    else
      return ⟨request.candidateId, none, none, status.token, "审核结果已写入不可变审计记录；尚未发布到关系图"⟩

/-- A publication after its retraction. -/
def RelationPublication.retracted (now : ℤ) (reason : String) (publication : RelationPublication) :
    RelationPublication :=
  { publication with
    published := false
    retractedAt := some now
    retractionReason := some (Text.trim reason) }

/-- What revokes the relation of a candidate in the graph: a revision over the current edge. -/
def revokedRevision (env : RelationEnv) (reason : String) (publicationId : String)
    (candidate : RelationCandidate) (edge : Edge F) (previous : Option String) : EdgeRevisionInput F where
  edge :=
    { edge with
      validFrom := (relationBusinessInterval reader candidate.reportPeriod none).1
      validTo := none
      sourceName := "关系撤回 · " ++ reason }
  productScope := candidate.productText
  regionScope := candidate.region
  disclosedShare := candidate.shareBps.map fun value => F64.div (F64.lit (value : ℚ)) (F64.lit 10000)
  sourceType := .manual
  evidenceVersion := "retraction:" ++ publicationId
  status := .revoked
  observedAt := env.now
  recordedAt := env.now
  supersedesRevisionId := previous
  metadata := .obj [("candidate_id", .str candidate.candidateId), ("reason", .str reason)]

/-- The graph part of a retraction: the edge of the projection, if there is one, is revoked. -/
def revokeProjection (env : RelationEnv) (reason : String) (publication : RelationPublication)
    (candidate : RelationCandidate) : RelationProg F Unit := do
  match publication.projectionKey.toList.splitOn '|' with
  | [src, dst, relation] =>
    match ((← get).graph.allEdges env.now).find? fun edge =>
        edge.src.toList = src ∧ edge.dst.toList = dst ∧ edge.relation.asStr.toList = relation with
    | none => pure ()
    | some edge =>
      let snapshot ← onGraph (graphAsOf digest env.now env.now env.now)
      let previous := (snapshot.edges.find? fun row => row.src = edge.src ∧ row.dst = edge.dst ∧
        row.relation = edge.relation ∧ row.productScope = candidate.productText).map (·.revisionId)
      let _ ← onGraph (upsertRevisionAt digest
        (revokedRevision reader env reason publication.publicationId candidate edge previous))
  | _ => pure ()

/-- Without another publication for the projection, the graph is revoked as well. -/
def revokeUnsupported (env : RelationEnv) (reason : String) (publication : RelationPublication)
    (activeSupports : ℕ) : RelationProg F Unit :=
  if activeSupports = 0 then do
    match (← get).candidate publication.candidateId with
    | none => throw (.notFound publication.candidateId)
    | some candidate => revokeProjection reader digest env reason publication candidate
  else pure ()

def retract (env : RelationEnv) (candidateId reason : String) : RelationProg F PublicationResult := do
  guardOr (Text.trim reason ≠ "") (.invalid "撤回理由不能为空")
  match (← get).activePublication candidateId with
  | none => throw (.invalid "候选没有有效发布记录")
  | some publication =>
    modify fun s => { s with
      publications := Table.update RelationPublication.publicationId publication.publicationId
        (·.retracted env.now reason) s.publications }
    let activeSupports := ((← get).publications.filter fun p =>
      p.projectionKey = publication.projectionKey ∧ p.published = true).length
    revokeUnsupported reader digest env reason publication activeSupports
    return ⟨candidateId, some publication.publicationId, some publication.projectionKey, "retracted",
      if activeSupports = 0 then "已撤回最后一条有效证据，关系图投影已失效"
      else "已撤回该证据；仍有 " ++ toString activeSupports ++ " 条独立有效发布支持关系投影"⟩

end

/-! ## Exports -/

namespace RelationStore

/-- The `WHERE` clause of `agent_relations`. -/
def agentVisible (s : RelationStore F) (query : String) (c : CandidateRow) : Bool :=
  let raw := Text.trim query
  let like (text : String) := Text.like (("%" ++ raw ++ "%").toList) text.toList
  s.publications.any (fun p => p.candidateId = c.candidateId ∧ p.published = true) &&
    8500 ≤ c.confidenceBps && !c.confidential && !c.nonInferable && c.reviewStatus.accepting &&
    (like c.subjectText || like c.objectText || c.productText.any like ||
      c.subjectEntityId = some raw || c.objectEntityId = some raw ||
      c.subjectParentEntityId = some raw || c.objectParentEntityId = some raw)

/-- `agent_relations`: what the agent sees for a query. -/
def agentRelations (s : RelationStore F) (query : String) (limit : ℕ) : List RelationCandidate :=
  let rows := (s.candidates.filter (s.agentVisible query)).insertionSort fun a b =>
    b.confidenceBps < a.confidenceBps ∨ a.confidenceBps = b.confidenceBps ∧ b.updatedAt ≤ a.updatedAt
  (rows.take (max 1 (min limit 100))).filterMap fun row => s.candidate row.candidateId

/-- The annotation of a candidate, when both ends are known. -/
def annotate (c : RelationCandidate) : Option RelationAnnotation :=
  match c.subjectEntityId, c.objectEntityId, c.evidence.head? with
  | some subject, some object, some evidence =>
    some ⟨subject, object, c.relation, evidence.segmentId, evidence.spanStart, evidence.spanEnd⟩
  | _, _, _ => none

/-- The candidates that an export is made of, with their annotations. -/
def reviewedCandidates (s : RelationStore F) (split : String) (forTraining : Bool) :
    List (RelationCandidate × RelationAnnotation) :=
  let rows := (s.candidates.filter fun c => c.reviewStatus.accepting && s.reviews.any fun r =>
    r.candidateId = c.candidateId && r.datasetSplit = some split && (!forTraining || r.trainingEligible))
  (rows.insertionSort fun a b => a.candidateId ≤ b.candidateId).filterMap fun row =>
    (s.candidate row.candidateId).bind fun c => (annotate c).map fun a => (c, a)

/-- `reviewed_annotations`. -/
def reviewedAnnotations (s : RelationStore F) (datasetSplit : String) (forTraining : Bool) :
    Except RelationError (List RelationAnnotation) :=
  let split := Text.trim datasetSplit
  if split ∉ ["train", "dev", "test"] then .error (.invalid "数据集切分只能是 train/dev/test")
  else if forTraining ∧ split = "test" then .error (.invalid "test 标注禁止导出到训练集")
  else .ok ((s.reviewedCandidates split forTraining).map Prod.snd)

end RelationStore

/-! ## Runs -/

inductive RelationCall
  | extractSource (sourceVersionId : String) (documentKind : DocumentKind)
      (modelId modelVersion : Option String) (models : List ModelRelationCandidate)
  | review (request : RelationReviewRequest)
  | publish (candidateId : String)
  | retract (candidateId reason : String)

section

variable [F64 F] (reader : RelationReader) (digest : ℕ → String → String)

def RelationCall.prog (env : RelationEnv) : RelationCall → RelationProg F Unit
  | extractSource sourceVersionId documentKind modelId modelVersion models => do
    let _ ← Astock.extractSource reader digest env sourceVersionId documentKind modelId modelVersion models
  | review request => do let _ ← Astock.review reader digest env request
  | publish candidateId => do let _ ← Astock.publish reader digest env candidateId
  | retract candidateId reason => do let _ ← Astock.retract reader digest env candidateId reason

/-- The store after a call. -/
def RelationStore.after (s : RelationStore F) (call : RelationEnv × RelationCall) : RelationStore F :=
  (exec (call.2.prog reader digest call.1) s).2

end

end Astock
