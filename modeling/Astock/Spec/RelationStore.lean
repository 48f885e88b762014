import Astock.Spec.Bitemporal
import Astock.Spec.Relations

/-!
# Relations under review

The `RelationExtractionStore` of `crates/relation-extraction/src/lib.rs`: extraction runs, the review
of their candidates, and the publication of reviewed candidates to the graph. A call runs alone; each
of its database jobs is a transaction, and the graph is written in jobs of its own.

What another part of the application decides is given to each call: the time, the entities and the
source documents. Texts of a review or a publication that nothing reads are left out.
-/

namespace Astock

open Prog

variable {F : Type}

structure ExtractionRun where
  runId : String
  sourceVersionId : String
  documentKind : DocumentKind
  extractorKind : String
  modelId : Option String
  modelVersion : Option String
  schemaVersion : String
  inputHash : String
  completed : Bool
  candidateCount : ℕ
  validationErrors : ℕ
  startedAt : ℤ
  completedAt : Option ℤ
  deriving DecidableEq, Repr

/-- A row of `relation_candidate_evidence`. -/
structure CandidateEvidence where
  candidateId : String
  evidence : RelationEvidence
  createdAt : ℤ
  deriving DecidableEq, Repr

/-- A row of `relation_candidate_reviews`. -/
structure CandidateReview where
  candidateId : String
  decision : String
  reviewer : String
  reason : String
  mergedEntityId : Option String
  datasetSplit : Option String
  trainingEligible : Bool
  reviewedAt : ℤ
  deriving DecidableEq, Repr

/-- A row of `relation_publications`. -/
structure RelationPublication where
  publicationId : String
  candidateId : String
  projectionKey : String
  publicationVersion : ℕ
  published : Bool
  publishedAt : ℤ
  retractedAt : Option ℤ
  retractionReason : Option String
  deriving DecidableEq, Repr

/-- The tables, each in the order in which its rows were inserted, and the graph. -/
structure RelationStore (F : Type) where
  runs : List ExtractionRun := []
  candidates : List CandidateRow := []
  evidence : List CandidateEvidence := []
  reviews : List CandidateReview := []
  publications : List RelationPublication := []
  graph : GraphStore F := {}

/-- What a call finds outside of these tables. -/
structure RelationEnv where
  now : ℤ
  entities : List EntityRecord
  readDocument : String → Except RelationError SourceDocumentDetail

structure ExtractionRunDetail where
  run : ExtractionRun
  sourceTitle : Option String
  sourceUrl : String
  candidates : List RelationCandidate
  diagnostics : List String

structure RelationReviewRequest where
  candidateId : String
  decision : String
  reviewer : String
  reason : String
  subjectText : Option String := none
  objectText : Option String := none
  relation : Option RelationType := none
  productText : Option String := none
  mergedEntityId : Option String := none
  confidential : Bool := false
  nonInferable : Bool := false
  publish : Bool := false
  datasetSplit : Option String := none
  trainingEligible : Bool := false

structure PublicationResult where
  candidateId : String
  publicationId : Option String
  projectionKey : Option String
  status : String
  note : String
  deriving DecidableEq, Repr

structure RelationAnnotation where
  subjectEntityId : String
  objectEntityId : String
  relation : RelationType
  segmentId : String
  spanStart : ℕ
  spanEnd : ℕ
  deriving DecidableEq, Repr

abbrev RelationProg (F : Type) := Prog (RelationStore F) RelationError

def liftRelation {α : Type} : Except RelationError α → RelationProg F α
  | .ok a => pure a
  | .error e => throw e

/-- A call on the graph. -/
def onGraph {α : Type} (x : GraphProg F α) : RelationProg F α := fun s =>
  let r := exec x s.graph
  (r.1.mapError .graph, { s with graph := r.2 })

/-! ## Reading -/

namespace RelationStore

/-- `ORDER BY created_at,evidence_id`. -/
def evidenceFor (s : RelationStore F) (candidateId : String) : List RelationEvidence :=
  ((s.evidence.filter (·.candidateId = candidateId)).insertionSort fun a b =>
    toLex (a.createdAt, a.evidence.evidenceId) ≤ toLex (b.createdAt, b.evidence.evidenceId)).map (·.evidence)

/-- The publication of the candidate that holds. -/
def activePublication (s : RelationStore F) (candidateId : String) : Option RelationPublication :=
  ((s.publications.filter fun p => p.candidateId = candidateId ∧ p.published = true).insertionSort
    fun a b => b.publicationVersion ≤ a.publicationVersion).head?

/-- A row with its evidence and its publication. -/
def hydrate (s : RelationStore F) (row : CandidateRow) : RelationCandidate :=
  let c : RelationCandidate :=
    { row with
      published := (s.activePublication row.candidateId).isSome
      eligibleForAgent := false
      evidence := s.evidenceFor row.candidateId }
  { c with eligibleForAgent := c.eligible }

def candidate (s : RelationStore F) (candidateId : String) : Option RelationCandidate :=
  (Table.find CandidateRow.candidateId candidateId s.candidates).map s.hydrate

/-- The rows in the order of `created_at,candidate_id`. -/
def ordered (rows : List CandidateRow) : List CandidateRow :=
  rows.insertionSort fun a b => toLex (a.createdAt, a.candidateId) ≤ toLex (b.createdAt, b.candidateId)

def candidatesForRun (s : RelationStore F) (runId : String) : List RelationCandidate :=
  (ordered (s.candidates.filter (·.runId = runId))).map s.hydrate

def allCandidates (s : RelationStore F) : List RelationCandidate := (ordered s.candidates).map s.hydrate

end RelationStore

/-- The end of a relation that evidence is compared by. -/
def CandidateRow.subjectKey (c : CandidateRow) : Option String := c.subjectParentEntityId.or c.subjectEntityId

def CandidateRow.objectKey (c : CandidateRow) : Option String := c.objectParentEntityId.or c.objectEntityId

/-! ## Extraction -/

def relationSchemaVersion : String := "supply-chain-relation-v1"

section

variable (reader : RelationReader) (digest : ℕ → String → String)

/-- `serde_json::to_string` of a candidate. -/
def ModelRelationCandidate.toJson (model : ModelRelationCandidate) : Json :=
  let text (s : Option String) : Json := (s.map Json.str).getD .null
  .obj [("subject_text", .str model.subjectText), ("object_text", .str model.objectText),
    ("relation", .str model.relation.token), ("product_text", text model.productText),
    ("amount_text", text model.amountText), ("share_bps", (model.shareBps.map Json.ofNat).getD .null),
    ("report_period", text model.reportPeriod), ("region", text model.region),
    ("evidence", .obj [("segment_id", .str model.evidence.segmentId),
      ("span_start", .ofNat model.evidence.spanStart), ("span_end", .ofNat model.evidence.spanEnd),
      ("quote_original", .str model.evidence.quoteOriginal)]),
    ("confidence_bps", .ofNat model.confidenceBps),
    ("consortium_members", .arr (model.consortiumMembers.map Json.str))]

def extractionHash (detail : SourceDocumentDetail) (models : List ModelRelationCandidate) : String :=
  digest 64 ((detail.version.map (·.extractedHash)).getD "" ++ "|" ++
    (Json.arr (models.map (·.toJson))).toText)

namespace RelationStore

def findExistingRun (s : RelationStore F) (source extractor : String) (modelId modelVersion : Option String)
    (inputHash : String) : Option String :=
  (s.runs.find? fun run => run.sourceVersionId = source ∧ run.extractorKind = extractor ∧
    run.modelId = modelId ∧ run.modelVersion = modelVersion ∧
    run.schemaVersion = relationSchemaVersion ∧ run.inputHash = inputHash ∧ run.completed = true).map (·.runId)

end RelationStore

/-- Absent model columns do not collide in the unique key. -/
def ExtractionRun.collides (a b : ExtractionRun) : Bool :=
  a.runId = b.runId ∨ a.sourceVersionId = b.sourceVersionId ∧ a.extractorKind = b.extractorKind ∧
    a.modelId = b.modelId ∧ a.modelId.isSome ∧ a.modelVersion = b.modelVersion ∧
    a.modelVersion.isSome ∧ a.schemaVersion = b.schemaVersion ∧ a.inputHash = b.inputHash

def insertRun (run : ExtractionRun) : RelationProg F Unit := do
  guardOr (!(← get).runs.any run.collides)
    (.storage "sqlite error: UNIQUE constraint failed: relation_extraction_runs")
  modify fun s => { s with runs := s.runs ++ [run] }

/-- The unique key of candidates besides their id; an absent product does not collide. -/
def CandidateRow.collides (a b : CandidateRow) : Bool :=
  a.runId = b.runId ∧ a.subjectText = b.subjectText ∧ a.objectText = b.objectText ∧
    a.relation = b.relation ∧ a.productText = b.productText ∧ a.productText.isSome ∧
    a.sourceVersionId = b.sourceVersionId

/-- The row is refused by a key of `relation_candidate_evidence`. -/
def CandidateEvidence.collides (a b : CandidateEvidence) : Bool :=
  a.evidence.evidenceId = b.evidence.evidenceId ∨ a.candidateId = b.candidateId ∧
    a.evidence.sourceVersionId = b.evidence.sourceVersionId ∧
    a.evidence.segmentId = b.evidence.segmentId ∧ a.evidence.spanStart = b.evidence.spanStart ∧
    a.evidence.spanEnd = b.evidence.spanEnd ∧ a.evidence.polarity = b.evidence.polarity

/-- One transaction: the row of a candidate and its own evidence. -/
def persistCandidate (row : CandidateRow) (evidence : RelationEvidence) : RelationProg F Unit := do
  let s ← get
  guardOr (!s.candidates.any fun c => c.candidateId = row.candidateId ∨ row.collides c)
    (.storage "sqlite error: UNIQUE constraint failed: relation_candidates")
  let own : CandidateEvidence := ⟨row.candidateId, evidence, row.createdAt⟩
  guardOr (!s.evidence.any own.collides)
    (.storage "sqlite error: UNIQUE constraint failed: relation_candidate_evidence")
  set { s with candidates := s.candidates ++ [row], evidence := s.evidence ++ [own] }

/-- What the evidence of another candidate says about a candidate, if their ends are the same. -/
def relatedPolarity (candidate other : CandidateRow) : Option Polarity :=
  if other.candidateId = candidate.candidateId ∨ other.sourceVersionId = candidate.sourceVersionId then none
  else if candidate.subjectKey ≠ other.subjectKey ∨ candidate.objectKey ≠ other.objectKey then none
  else some (if other.relation = candidate.relation then .supports else .conflicts)

/-- The evidence of the other candidates, as evidence about a candidate. -/
def linkedEvidence (candidate : RelationCandidate) (all : List RelationCandidate) : List RelationEvidence :=
  all.flatMap fun other =>
    match relatedPolarity candidate.toCandidateRow other.toCandidateRow with
    | none => []
    | some polarity => other.evidence.map fun evidence =>
      { evidence with
        evidenceId := "relev:" ++ digest 28 (candidate.candidateId ++ "|" ++ evidence.evidenceId ++ "|" ++
          match polarity with
          | .supports => "supports"
          | .conflicts => "conflicts")
        polarity := polarity }

/-- The independent groups of the evidence of one polarity. -/
def evidenceGroups (polarity : Polarity) (linked : List RelationEvidence) : List String :=
  ((linked.filter (·.polarity = polarity)).map (·.independentGroup)).dedup

/-- `INSERT OR IGNORE INTO relation_candidate_evidence`. -/
def insertEvidence (rows : List CandidateEvidence) (new : CandidateEvidence) : List CandidateEvidence :=
  if rows.any new.collides then rows else rows ++ [new]

/-- The row of a candidate after its evidence was compared with that of other sources. -/
def CandidateRow.reconciled (now : ℤ) (linked : List RelationEvidence) (row : CandidateRow) : CandidateRow :=
  let supports := evidenceGroups .supports linked
  let conflicts := evidenceGroups .conflicts linked
  let bonus := min (supports.length * 200) 800
  { row with
    confidenceBps := min (row.confidenceBps + bonus) (if row.proposedByModel then 8400 else 9800)
    validationStatus := if conflicts = [] then row.validationStatus else .needsReview
    validation := row.validation ++
      (if supports = [] then [] else [⟨"独立材料交叉支持", true, "另有 " ++ toString supports.length ++
        " 组独立来源支持同一实体、方向和关系类型"⟩]) ++
      (if conflicts = [] then [] else [⟨"独立材料关系冲突", false, "另有 " ++ toString conflicts.length ++
        " 组独立来源对同一实体对给出不同关系，必须人工解释口径/时点"⟩])
    updatedAt := now }

/-- One transaction of `reconcile_run_evidence`. -/
def reconcileCandidate (now : ℤ) (all : List RelationCandidate) (s : RelationStore F)
    (candidate : RelationCandidate) : RelationStore F :=
  let linked := linkedEvidence digest candidate all
  if candidate.subjectKey = none ∨ candidate.objectKey = none ∨ linked = [] then s
  else
    { s with
      evidence := linked.foldl (fun rows e => insertEvidence rows ⟨candidate.candidateId, e, now⟩) s.evidence
      candidates := Table.update CandidateRow.candidateId candidate.candidateId (·.reconciled now linked)
        s.candidates }

/-- The candidates are read before the first of them is changed. -/
def reconcileRunEvidence (now : ℤ) (runId : String) (s : RelationStore F) : RelationStore F :=
  (s.candidatesForRun runId).foldl (reconcileCandidate digest now s.allCandidates) s

def finishRun (now : ℤ) (runId : String) (s : RelationStore F) : RelationStore F :=
  let mine := s.candidates.filter (·.runId = runId)
  { s with
    runs := Table.update ExtractionRun.runId runId (fun run => { run with
      completed := true
      candidateCount := mine.length
      validationErrors := (mine.filter (·.validationStatus ≠ .validated)).length
      completedAt := some now }) s.runs }

def runDetail (env : RelationEnv) (runId : String) : RelationProg F ExtractionRunDetail := do
  match Table.find ExtractionRun.runId runId (← get).runs with
  | none => throw (.notFound runId)
  | some run =>
    let source ← liftRelation (env.readDocument run.sourceVersionId)
    let candidates := (← get).candidatesForRun runId
    return { run := run
             sourceTitle := source.version.bind (·.title)
             sourceUrl := source.canonicalUrl
             candidates := candidates
             diagnostics := [
               "共扫描 " ++ toString source.segments.length ++ " 个可定位段落",
               "生成 " ++ toString candidates.length ++ " 个候选，其中 " ++ toString run.validationErrors ++
                 " 个需要人工补充映射或证据",
               "模型只负责结构化候选；原文 span、实体层级、金额比例和发布权限均由确定性规则复核",
               "未审核、低于 85% 置信度、匿名客户、保密或不可推断候选不会进入 Agent 高置信结论"] }

/-- The drafts of a run become candidates one by one. -/
def persistDrafts (env : RelationEnv) (runId sourceVersionId : String) (documentKind : DocumentKind)
    (detail : SourceDocumentDetail) : List CandidateDraft → RelationProg F Unit
  | [] => pure ()
  | draft :: rest => do
    let (row, evidence) ← liftRelation
      (validateDraft reader digest runId sourceVersionId documentKind draft detail env.entities env.now)
    persistCandidate row evidence
    persistDrafts env runId sourceVersionId documentKind detail rest

/-- A new run, from its row to its result. -/
def runDrafts (env : RelationEnv) (run : ExtractionRun) (detail : SourceDocumentDetail)
    (drafts : List CandidateDraft) : RelationProg F ExtractionRunDetail := do
  insertRun run
  persistDrafts reader digest env run.runId run.sourceVersionId run.documentKind detail drafts
  modify (reconcileRunEvidence digest env.now run.runId)
  modify (finishRun env.now run.runId)
  runDetail env run.runId

def extractSource (env : RelationEnv) (sourceVersionId : String) (documentKind : DocumentKind)
    (modelId modelVersion : Option String) (models : List ModelRelationCandidate) :
    RelationProg F ExtractionRunDetail := do
  guardOr (Text.trim sourceVersionId ≠ "") (.invalid "source_version_id 不能为空")
  let detail ← liftRelation (env.readDocument sourceVersionId)
  guardOr (detail.accessStatus = "verified" && detail.version.isSome)
    (.invalid "来源正文尚未核验，不能从搜索摘要或访问失败页面抽取关系")
  guardOr (!detail.segments.isEmpty) (.invalid "来源没有可定位的正文段落")
  let inputHash := extractionHash digest detail models
  let extractorKind := if models = [] then "zh-disclosure-rules-v1" else "model_candidates_plus_rules"
  match (← get).findExistingRun sourceVersionId extractorKind modelId modelVersion inputHash with
  | some runId => runDetail env runId
  | none =>
    runDrafts reader digest env {
        runId := "relrun:" ++ digest 28 (sourceVersionId ++ "|" ++ extractorKind ++ "|" ++ inputHash ++
          "|" ++ toString env.now)
        sourceVersionId := sourceVersionId
        documentKind := documentKind
        extractorKind := extractorKind
        modelId := modelId
        modelVersion := modelVersion
        schemaVersion := relationSchemaVersion
        inputHash := inputHash
        completed := false
        candidateCount := 0
        validationErrors := 0
        startedAt := env.now
        completedAt := none }
      detail
      (deduplicateDrafts reader
        (deterministicDrafts reader detail documentKind env.entities ++ models.flatMap modelDrafts))

end

end Astock
