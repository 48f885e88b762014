import Astock.Lib.Table
import Astock.Spec.Graph

/-!
# Relation candidates

`crates/relation-extraction/src/lib.rs`: how drafts of relations come out of the segments of a
source, and how a draft becomes a candidate with its checks.

The matches of the crate's regular expressions are given by a `RelationReader`; `digest n text`
stands for the first `n` hexadecimal digits of the SHA-256 of a text.
-/

namespace Astock

inductive DocumentKind
  | annualReport
  | semiAnnualReport
  | prospectus
  | investorRelations
  | productManual
  | tender
  | majorContract
  | patent
  | regulatoryApproval
  | capacityEia
  | customsIndustry
  | other
  deriving DecidableEq, Repr

def DocumentKind.graphSourceType : DocumentKind → EvidenceSourceType
  | annualReport | semiAnnualReport => .annualReport
  | prospectus => .prospectus
  | investorRelations => .investorResearch
  | tender => .tender
  | majorContract => .contract
  | patent => .patent
  | regulatoryApproval => .regulatoryApproval
  | capacityEia => .capacityDisclosure
  | productManual | customsIndustry | other => .research

inductive RelationType
  | supplies
  | customerOf
  | produces
  | consumes
  | wonBid
  | contractWith
  | patentFor
  | approvedFor
  | capacityFor
  deriving DecidableEq, Repr

def RelationType.token : RelationType → String
  | supplies => "supplies"
  | customerOf => "customer_of"
  | produces => "produces"
  | consumes => "consumes"
  | wonBid => "won_bid"
  | contractWith => "contract_with"
  | patentFor => "patent_for"
  | approvedFor => "approved_for"
  | capacityFor => "capacity_for"

def RelationType.graphRelation : RelationType → Relation
  | customerOf => .customerOf
  | produces | patentFor | approvedFor | capacityFor => .produces
  | consumes => .consumes
  | supplies | wonBid | contractWith => .supplies

inductive DisclosureMode
  | named
  | consortiumMember
  | anonymousCustomer
  deriving DecidableEq, Repr

inductive ValidationStatus
  | validated
  | needsReview
  deriving DecidableEq, Repr

inductive ReviewStatus
  | pendingReview
  | accepted
  | modified
  | mergeEntity
  | rejected
  | confidential
  | nonInferable
  deriving DecidableEq, Repr

/-- `accepted`, `modified` or `merge_entity`. -/
def ReviewStatus.accepting : ReviewStatus → Bool
  | accepted | modified | mergeEntity => true
  | _ => false

def ReviewStatus.token : ReviewStatus → String
  | pendingReview => "pending_review"
  | accepted => "accepted"
  | modified => "modified"
  | mergeEntity => "merge_entity"
  | rejected => "rejected"
  | confidential => "confidential"
  | nonInferable => "non_inferable"

inductive Polarity
  | supports
  | conflicts
  deriving DecidableEq, Repr

structure CandidateEvidenceInput where
  segmentId : String
  spanStart : ℕ
  spanEnd : ℕ
  quoteOriginal : String
  deriving DecidableEq, Repr

structure ModelRelationCandidate where
  subjectText : String
  objectText : String
  relation : RelationType
  productText : Option String
  amountText : Option String
  shareBps : Option ℕ
  reportPeriod : Option String
  region : Option String
  evidence : CandidateEvidenceInput
  confidenceBps : ℕ
  consortiumMembers : List String := []
  deriving DecidableEq, Repr

structure RelationEvidence where
  evidenceId : String
  sourceVersionId : String
  segmentId : String
  pageNumber : Option ℕ
  paragraphIndex : ℕ
  spanStart : ℕ
  spanEnd : ℕ
  quoteOriginal : String
  independentGroup : String
  polarity : Polarity
  deriving DecidableEq, Repr

structure ValidationCheck where
  field : String
  passed : Bool
  detail : String
  deriving DecidableEq, Repr

/-- A row of `relation_candidates`. -/
structure CandidateRow where
  candidateId : String
  runId : String
  sourceVersionId : String
  documentKind : DocumentKind
  subjectText : String
  objectText : String
  relation : RelationType
  productText : Option String
  amountText : Option String
  shareBps : Option ℕ
  reportPeriod : Option String
  region : Option String
  subjectEntityId : Option String
  objectEntityId : Option String
  subjectParentEntityId : Option String
  objectParentEntityId : Option String
  disclosureMode : DisclosureMode
  confidenceBps : ℕ
  validationStatus : ValidationStatus
  validation : List ValidationCheck
  reviewStatus : ReviewStatus
  confidential : Bool
  nonInferable : Bool
  candidateVersion : ℕ
  proposedByModel : Bool
  createdAt : ℤ
  updatedAt : ℤ
  deriving DecidableEq, Repr

/-- A candidate as it is read: its row, its evidence and its publication. -/
structure RelationCandidate extends CandidateRow where
  published : Bool
  eligibleForAgent : Bool
  evidence : List RelationEvidence
  deriving DecidableEq, Repr

structure EntityRecord where
  entityId : String
  entityType : String
  canonicalName : String
  listedCode : Option String
  parentEntityId : Option String
  names : List String
  deriving DecidableEq, Repr

structure CandidateDraft where
  model : ModelRelationCandidate
  proposedByModel : Bool
  disclosureMode : DisclosureMode
  deriving DecidableEq, Repr

structure SourceSegment where
  segmentId : String
  pageNumber : Option ℕ
  paragraphIndex : ℕ
  text : String
  deriving DecidableEq, Repr

structure SourceVersion where
  extractedHash : String
  title : Option String
  publishedAt : Option ℤ
  fetchedAt : ℤ
  deriving DecidableEq, Repr

/-- What `read_document` tells about a source version. -/
structure SourceDocumentDetail where
  sourceDocumentId : String
  canonicalUrl : String
  accessStatus : String
  version : Option SourceVersion
  segments : List SourceSegment
  deriving DecidableEq, Repr

inductive RelationError
  | storage (message : String)
  | source (message : String)
  | graph (error : GraphError)
  | invalid (message : String)
  | notFound (what : String)
  deriving DecidableEq

/-- The regular expressions of the crate and `char::to_lowercase`. -/
structure RelationReader where
  lowercase : Char → List Char
  /-- `TOP_CUSTOMER.is_match`. -/
  topCustomer : String → Bool
  /-- The group `product` of `PRODUCT_CAPTURE`. -/
  productCapture : String → Option String
  /-- The text that `AMOUNT` finds. -/
  amount : String → Option String
  /-- The value that `PERCENT` finds, in basis points between 0 and 10000. -/
  percent : String → Option ℕ
  /-- The text that `PERIOD` finds. -/
  period : String → Option String

section

variable (reader : RelationReader) (digest : ℕ → String → String)

/-! ## Entities -/

def normalizeName (value : String) : String :=
  String.ofList ((value.toList.filter fun c =>
    !Text.isWhiteSpace c && c ∉ ['（', '）', '(', ')', '，', ',', '。']).flatMap reader.lowercase)

/-- The only entity with the name. -/
def resolveEntity (text : String) (entities : List EntityRecord) : Option EntityRecord :=
  match entities.filter fun entity =>
    entity.names.any fun name => normalizeName reader name = normalizeName reader text with
  | [entity] => some entity
  | _ => none

/-- The walk of `listed_parent_id`; each round sees another entity. -/
def listedParentLoop (entities : List EntityRecord) : ℕ → List String → EntityRecord → Option String
  | 0, _, _ => none
  | fuel + 1, seen, current =>
    if current.entityId ∈ seen then none
    else if current.listedCode.isSome then some current.entityId
    else
      (current.parentEntityId.bind fun parent => Table.find EntityRecord.entityId parent entities).bind
        (listedParentLoop entities fuel (current.entityId :: seen))

/-- The entity itself or the nearest entity above it that is listed. -/
def listedParentId (id : String) (entities : List EntityRecord) : Option String :=
  (Table.find EntityRecord.entityId id entities).bind (listedParentLoop entities (entities.length + 1) [])

/-- A place where an entity is named. -/
structure Mention where
  start : ℕ
  stop : ℕ
  name : String
  deriving DecidableEq, Repr

/-- `entity_mentions`: the longest name at each place, each entity once. -/
def entityMentions (text : String) (entities : List EntityRecord) : List Mention :=
  let found := entities.flatMap fun entity => entity.names.flatMap fun name =>
    if name.length < 2 then []
    else (Text.matchIndices name.toList 0 0 text.toList).map fun start =>
      ⟨start, start + name.length, entity.canonicalName⟩
  let ordered := found.insertionSort fun a b =>
    a.start < b.start ∨ a.start = b.start ∧ b.stop - b.start ≤ a.stop - a.start
  ordered.foldl (fun kept item =>
    if kept.any (fun old => old.start ≤ item.start && item.stop ≤ old.stop) then kept
    else if kept.any (fun old => old.name == item.name) then kept
    else kept ++ [item]) []

def isAnonymous (value : String) : Bool :=
  ["未披露客户", "客户一", "客户二", "客户三", "客户四", "客户五", "第一大客户", "第二大客户",
    "前五大客户"].any (Text.contains value)

/-! ## Drafts -/

def ruleDraft (segment : SourceSegment) (subject object : String) (relation : RelationType)
    (product : Option String) (mode : DisclosureMode) (confidence : ℕ) : CandidateDraft where
  model :=
    { subjectText := subject
      objectText := object
      relation := relation
      productText := product
      amountText := reader.amount segment.text
      shareBps := reader.percent segment.text
      reportPeriod := reader.period segment.text
      region := none
      evidence := ⟨segment.segmentId, 0, segment.text.utf8ByteSize, segment.text⟩
      confidenceBps := confidence }
  proposedByModel := false
  disclosureMode := mode

/-- The relation that the words of a segment stand for. -/
def segmentRelation (text : String) : Option RelationType :=
  let has := Text.contains text
  if has "中标" then some .wonBid
  else if has "签订" && (has "合同" || has "协议") then some .contractWith
  else if has "供应" || has "销售给" then some .supplies
  else if has "采购" then some .consumes
  else if has "专利" then some .patentFor
  else if has "获批" || has "批准" then some .approvedFor
  else if has "产能" || has "投产" then some .capacityFor
  else if has "生产" || has "产品" then some .produces
  else none

/-- The drafts of a relation between the entities that a segment names. -/
def relationDrafts (segment : SourceSegment) (kind : DocumentKind) (text : String)
    (mentions : List Mention) (relation : RelationType) : List CandidateDraft :=
  match mentions with
  | [] => []
  | [subject] =>
    match ((reader.productCapture text).map (Text.trimMatches (· ∈ ['，', '。', '；', '、']))).filter
        (2 ≤ ·.length) with
    | none => []
    | some product =>
      [ruleDraft reader segment subject.name product relation (some product) .named
        (if kind ∈ [.annualReport, .prospectus, .tender, .majorContract] then 8800 else 8600)]
  | first :: second :: rest =>
    let consortium := Text.contains text "联合体"
    let object := (second :: rest).getLastD second
    let suppliers :=
      if consortium && relation = .wonBid then (first :: second :: rest).dropLast else [first]
    (suppliers.filter fun subject => subject.name ≠ object.name).map fun subject =>
      ruleDraft reader segment subject.name object.name relation none
        (if consortium then .consortiumMember else .named) 9000

def segmentDrafts (kind : DocumentKind) (entities : List EntityRecord) (segment : SourceSegment) :
    List CandidateDraft :=
  let text := Text.trim segment.text
  if text = "" then []
  else
    let mentions := entityMentions text entities
    let anonymous :=
      if reader.topCustomer text then mentions.head?.toList.map fun subject =>
        ruleDraft reader segment subject.name "未披露客户" .supplies none .anonymousCustomer 8700
      else []
    match segmentRelation text with
    | none => anonymous
    | some relation => anonymous ++ relationDrafts reader segment kind text mentions relation

def deterministicDrafts (detail : SourceDocumentDetail) (kind : DocumentKind)
    (entities : List EntityRecord) : List CandidateDraft :=
  detail.segments.flatMap (segmentDrafts reader kind entities)

/-- The drafts of a proposal of the model: one for each member of a consortium. -/
def modelDrafts (model : ModelRelationCandidate) : List CandidateDraft :=
  if model.consortiumMembers = [] then [⟨model, true, .named⟩]
  else model.consortiumMembers.map fun member =>
    ⟨{ model with subjectText := member, consortiumMembers := [] }, true, .consortiumMember⟩

def CandidateDraft.key (d : CandidateDraft) : String :=
  normalizeName reader d.model.subjectText ++ "|" ++ normalizeName reader d.model.objectText ++ "|" ++
    d.model.relation.token ++ "|" ++ d.model.evidence.segmentId ++ "|" ++
    toString d.model.evidence.spanStart

/-- The first draft of each key. -/
def deduplicateDrafts (drafts : List CandidateDraft) : List CandidateDraft :=
  drafts.foldl (fun kept d => if kept.any (fun old => old.key reader = d.key reader) then kept
    else kept ++ [d]) []

/-! ## Validation -/

/-- The checks of a draft, each with the field that it is about. -/
def validationChecks (draft : CandidateDraft) (segment : Option SourceSegment)
    (entities : List EntityRecord) : List ValidationCheck :=
  let model := draft.model
  let evidenceValid := segment.any fun segment =>
    Text.slice segment.text model.evidence.spanStart model.evidence.spanEnd =
      some model.evidence.quoteOriginal
  let subject := resolveEntity reader model.subjectText entities
  let object := resolveEntity reader model.objectText entities
  let anonymous := isAnonymous model.objectText || draft.disclosureMode = .anonymousCustomer
  let shareValid := model.shareBps.all (· ≤ 10000)
  let periodValid := model.reportPeriod.all fun period => (reader.period period).isSome
  [⟨"原文证据", evidenceValid,
      if evidenceValid then "quote 与不可变段落的 UTF-8 span 完全一致" else "quote/span 无法在指定段落复现"⟩,
    ⟨"主体实体", subject.isSome,
      match subject with
      | none => "未在证券主数据、公司别名或子公司层级中唯一命中"
      | some v => model.subjectText ++ " → " ++ v.canonicalName⟩,
    ⟨"对象实体", object.isSome || anonymous || model.productText.isSome,
      if anonymous then "公告依法匿名披露，不允许反推客户身份"
      else match object with
        | none => if model.productText.isSome then "对象作为产品节点保留" else "未在实体主数据中唯一命中"
        | some v => model.objectText ++ " → " ++ v.canonicalName⟩,
    ⟨"金额/比例单位", shareValid,
      if shareValid then "原单位保留，比例在 0%～100% 范围" else "比例超出 100%，未自动修正"⟩,
    ⟨"报告期", periodValid,
      if periodValid then "报告期格式可复核或来源未披露" else "报告期格式无法确定"⟩] ++
    if draft.disclosureMode = .consortiumMember then
      [⟨"联合体拆分", true, "联合体成员逐一建候选，不把牵头方关系复制给未披露成员"⟩]
    else []

/-- `validate_draft`: the row of a candidate and its own evidence. -/
def validateDraft (runId sourceVersionId : String) (documentKind : DocumentKind)
    (draft : CandidateDraft) (detail : SourceDocumentDetail) (entities : List EntityRecord) (now : ℤ) :
    Except RelationError (CandidateRow × RelationEvidence) :=
  let model := draft.model
  let found := Table.find SourceSegment.segmentId model.evidence.segmentId detail.segments
  let checks := validationChecks reader draft found entities
  let subject := (resolveEntity reader model.subjectText entities).map (·.entityId)
  let object := (resolveEntity reader model.objectText entities).map (·.entityId)
  let anonymous := isAnonymous model.objectText || draft.disclosureMode = .anonymousCustomer
  match found with
  | none => .error (.invalid ("证据段落不存在：" ++ model.evidence.segmentId))
  | some segment =>
    let candidateId := "relcand:" ++ digest 28 (runId ++ "|" ++ model.subjectText ++ "|" ++
      model.objectText ++ "|" ++ model.relation.token ++ "|" ++ model.evidence.segmentId ++ "|" ++
      toString model.evidence.spanStart)
    .ok (
      { candidateId := candidateId
        runId := runId
        sourceVersionId := sourceVersionId
        documentKind := documentKind
        subjectText := model.subjectText
        objectText := model.objectText
        relation := model.relation
        productText := model.productText
        amountText := model.amountText
        shareBps := model.shareBps
        reportPeriod := model.reportPeriod
        region := model.region
        subjectEntityId := subject
        objectEntityId := object
        subjectParentEntityId := subject.bind fun id => listedParentId id entities
        objectParentEntityId := object.bind fun id => listedParentId id entities
        disclosureMode := if anonymous then .anonymousCustomer else draft.disclosureMode
        -- a proposal of the model stays below the threshold of the agent
        confidenceBps := min (if draft.proposedByModel then min model.confidenceBps 8400
          else model.confidenceBps) 10000
        validationStatus := if checks.all (·.passed) then .validated else .needsReview
        validation := checks
        reviewStatus := .pendingReview
        confidential := false
        nonInferable := anonymous
        candidateVersion := 1
        proposedByModel := draft.proposedByModel
        createdAt := now
        updatedAt := now },
      { evidenceId := "relev:" ++ digest 28 (candidateId ++ "|" ++ model.evidence.segmentId ++ "|" ++
          toString model.evidence.spanStart)
        sourceVersionId := sourceVersionId
        segmentId := segment.segmentId
        pageNumber := segment.pageNumber
        paragraphIndex := segment.paragraphIndex
        spanStart := model.evidence.spanStart
        spanEnd := model.evidence.spanEnd
        quoteOriginal := model.evidence.quoteOriginal
        independentGroup := detail.sourceDocumentId
        polarity := .supports })

/-! ## Projection -/

/-- The first day of a year, in seconds since 1970. -/
def yearStart (year : ℤ) : ℤ :=
  let leaps (y : ℤ) : ℤ := y / 4 - y / 100 + y / 400
  ((year - 1970) * 365 + (leaps (year - 1) - leaps 1969)) * 86400

/-- `parse::<i32>` of four digits. -/
def parseYear (text : String) : Option ℤ :=
  if text ≠ "" ∧ text.toList.all Char.isDigit then
    some (text.toList.foldl (fun n c => n * 10 + ((c.toNat - '0'.toNat : ℕ) : ℤ)) 0)
  else none

/-- The year of the report period, or from the publication on. -/
def relationBusinessInterval (period : Option String) (publishedAt : Option ℤ) : ℤ × Option ℤ :=
  let year := period.bind fun value =>
    ((reader.period value).bind fun matched => Text.slice matched 0 4).bind parseYear
  match year with
  | some year => (yearStart year, some (yearStart (year + 1)))
  | none => (publishedAt.getD 0, none)

def projectionNode (entityId product : Option String) (fallback : String)
    (entities : List EntityRecord) : Except RelationError Node :=
  let entity := entityId.bind fun id => Table.find EntityRecord.entityId id entities
  let named : Option Node := entity.bind fun entity =>
    let metadata := Json.obj [("research_entity_id", .str entity.entityId)]
    match entity.listedCode with
    | some code => some ⟨"company:" ++ code, .company, entity.canonicalName, some code, metadata⟩
    | none =>
      if entity.entityType = "product" then
        some ⟨entity.entityId, .product, entity.canonicalName, none, metadata⟩
      else if entity.entityType = "commodity" then
        some ⟨entity.entityId, .commodity, entity.canonicalName, none, metadata⟩
      else none
  match named, product.filter (Text.trim · ≠ "") with
  | some node, _ => .ok node
  | none, some name => .ok ⟨"product:" ++ digest 16 name, .product, name, none,
      Json.obj [("created_from_reviewed_relation", .bool true)]⟩
  | none, none => .error (.invalid (fallback ++ " 无法映射为上市公司或产品节点"))

/-- The nodes at the two ends of a candidate's relation. -/
def projectionNodes (candidate : CandidateRow) (entities : List EntityRecord) :
    Except RelationError (Node × Node) := do
  let src ← projectionNode digest (candidate.subjectParentEntityId.or candidate.subjectEntityId) none
    candidate.subjectText entities
  let dst ← projectionNode digest (candidate.objectParentEntityId.or candidate.objectEntityId)
    candidate.productText candidate.objectText entities
  return (src, dst)

/-! ## Eligibility -/

def agentConfidenceThresholdBps : ℕ := 8500

/-- `eligible_for_agent`. -/
def RelationCandidate.eligible (c : RelationCandidate) : Bool :=
  c.published && agentConfidenceThresholdBps ≤ c.confidenceBps && c.validationStatus = .validated &&
    c.reviewStatus.accepting && !c.confidential && !c.nonInferable && !c.evidence.isEmpty

end

end Astock
