import Astock.Lib.Kernel
import Astock.Lib.Loop
import Astock.Lib.Table
import Astock.Lib.Text
import Mathlib.Data.Prod.Lex
import Mathlib.Data.String.Basic

/-!
# Entity linking

`crates/entity-linking/src/lib.rs`: the listed companies that accepted relations lead to from an entity, the
index of names, and the links from a text to entities.

Confidences of relations are compared and never computed with, so their type is any linear order with a `1`;
scores are also added. The entities are the rows of a map by `entity_id`, and a set of ids is a list.
-/

namespace Astock.Linking

inductive EntityKind
  | legalEntity
  | listedSecurity
  | subsidiary
  | brand
  | person
  | product
  | industry
  | commodity
  | region
  | policy
  deriving DecidableEq, Repr

structure EntityName where
  text : String
  nameType : String
  validFrom : Option ℤ
  validTo : Option ℤ

structure ResearchEntity where
  entityId : String
  canonicalName : String
  listedCode : Option String
  kind : EntityKind
  parentEntityId : Option String
  names : List EntityName
  contextTerms : List String
  validFrom : Option ℤ
  validTo : Option ℤ

structure EntityRelation (F : Type) where
  fromEntityId : String
  toEntityId : String
  relationType : String
  confidence : F
  status : String

structure RelatedListedEntity (F : Type) where
  entityId : String
  code : String
  name : String
  relationPath : List String
  confidence : F
  eligibleForAgent : Bool

/-- An entry of the queue. -/
structure Visit (F : Type) where
  current : String
  path : List String
  confidence : F
  depth : ℕ

structure RelatedState (F : Type) where
  results : List (RelatedListedEntity F)
  visited : List String
  queue : List (Visit F)

/-- `map.entry(key).or_insert(row)`. -/
def orInsert {α : Type} (key : α → String) (rows : List α) (row : α) : List α :=
  if (Table.find key (key row) rows).isSome then rows else Table.insertOrdered key row rows

variable {F : Type} [LinearOrder F]

/-- The relation is followed from an entity. -/
def EntityRelation.leaves (relation : EntityRelation F) (current : String) : Bool :=
  relation.status = "accepted" && (relation.fromEntityId = current || relation.toEntityId = current)

/-- Where it leads to. -/
def EntityRelation.next (relation : EntityRelation F) (current : String) : String :=
  if relation.fromEntityId = current then relation.toEntityId else relation.fromEntityId

/-- The entry that following a relation makes. -/
def Visit.follow (visit : Visit F) (relation : EntityRelation F) : Visit F where
  current := relation.next visit.current
  path := visit.path ++ [relation.relationType]
  confidence := min visit.confidence relation.confidence
  depth := visit.depth + 1

section

variable (entities : List ResearchEntity) (relations : List (EntityRelation F)) (relationThreshold : F)

/-- The row of a visited entity, if it is listed. -/
def listedRow (visit : Visit F) : Option (RelatedListedEntity F) :=
  (Table.find ResearchEntity.entityId visit.current entities).bind fun entity =>
    entity.listedCode.map fun code =>
      { entityId := entity.entityId
        code := code
        name := entity.canonicalName
        relationPath := visit.path
        confidence := visit.confidence
        eligibleForAgent := relationThreshold ≤ visit.confidence }

/-- The body of the inner loop. -/
def meet (visit : Visit F) (state : RelatedState F) (relation : EntityRelation F) : RelatedState F :=
  let next := visit.follow relation
  let results := match listedRow entities relationThreshold next with
    | some row => orInsert RelatedListedEntity.entityId state.results row
    | none => state.results
  if next.current ∈ state.visited then { state with results := results }
  else { results := results, visited := next.current :: state.visited, queue := state.queue ++ [next] }

def relatedTurn (state : RelatedState F) : Loop.Turn (RelatedState F) :=
  match state.queue with
  | [] => .done
  | visit :: queue =>
    if 2 ≤ visit.depth then .again { state with queue := queue }
    else .again ((relations.filter (·.leaves visit.current)).foldl
      (meet entities relationThreshold visit) { state with queue := queue })

/-- The entry for the start. -/
def startVisit (F : Type) [One F] (start : String) : Visit F := ⟨start, [], 1, 0⟩

/-- `related_listed`, within a number of turns of its loop. -/
def relatedListed [One F] (turns : ℕ) (start : String) : Option (List (RelatedListedEntity F)) :=
  (Loop.run (relatedTurn entities relations relationThreshold) turns
    ⟨[], [start], [startVisit F start]⟩).map (·.results)

end

/-! ## The index of names -/

/-- The Unicode tables of the standard library. -/
structure Unicode where
  isAlphanumeric : Char → Bool
  /-- `char::to_lowercase`. -/
  lowerChar : Char → List Char
  /-- `str::to_lowercase`, which also reads the neighbours of a sigma. -/
  lower : String → String
  lower_ne : ∀ s, s ≠ "" → lower s ≠ ""

structure IndexedName where
  entityId : String
  normalized : List Char
  name : EntityName

structure EntityIndex (F : Type) where
  entities : List ResearchEntity
  names : List IndexedName
  relations : List (EntityRelation F)

/-- `str::len`. -/
def byteLength (cs : List Char) : ℕ := (cs.map Char.utf8Size).sum

section

variable (unicode : Unicode)

def normalizeName (value : String) : List Char :=
  (value.toList.filter unicode.isAlphanumeric).flatMap unicode.lowerChar

def pushName (names : List EntityName) (text nameType : String) (validFrom validTo : Option ℤ) :
    List EntityName :=
  if Text.trim text = "" ∨ names.any (fun name => normalizeName unicode name.text = normalizeName unicode text) then
    names
  else names ++ [⟨Text.trim text, nameType, validFrom, validTo⟩]

/-- An entity with its canonical name and its code among its names. -/
def withNames (entity : ResearchEntity) : ResearchEntity :=
  let names := pushName unicode entity.names entity.canonicalName "canonical" entity.validFrom entity.validTo
  { entity with
    names := match entity.listedCode with
      | some code => pushName unicode names code "security_code" entity.validFrom entity.validTo
      | none => names }

/-- The names of an entity that are not blank. -/
def indexedNames (entity : ResearchEntity) : List IndexedName :=
  entity.names.filterMap fun name =>
    if normalizeName unicode name.text = [] then none
    else some ⟨entity.entityId, normalizeName unicode name.text, name⟩

/-- `rebuild_names`: the longest names first. -/
def rebuildNames {F : Type} (index : EntityIndex F) : EntityIndex F :=
  let entities := index.entities.map (withNames unicode)
  { index with
    entities := entities
    names := (entities.flatMap (indexedNames unicode)).insertionSort fun left right =>
      byteLength right.normalized < byteLength left.normalized ∨
        byteLength right.normalized = byteLength left.normalized ∧ left.entityId ≤ right.entityId }

/-! ## Places of names -/

/-- Bytes `start..stop` of the text. -/
structure Place where
  start : ℕ
  stop : ℕ
  deriving DecidableEq, Repr

def Place.length (place : Place) : ℕ := place.stop - place.start

/-- The second place stands in the way of the first. -/
def Place.covers (existing row : Place) : Prop :=
  row.start < existing.stop ∧ existing.start < row.stop ∧ row.length < existing.length

instance : DecidableRel Place.covers := fun _ _ => inferInstanceAs (Decidable (_ ∧ _ ∧ _))

/-- `haystack.match_indices(needle)`, for a needle that is not empty, as bytes. -/
def occurrences (haystack needle : String) : List Place :=
  (Text.matchIndices needle.toList 0 0 haystack.toList).map fun i =>
    ⟨byteLength (haystack.toList.take i), byteLength (haystack.toList.take i) + byteLength needle.toList⟩

/-- `context_hits`. -/
def contextHits (entity : ResearchEntity) (text : String) : ℕ :=
  entity.contextTerms.countP fun term => term ≠ "" && Text.contains text (unicode.lower term)

/-- A name of one character is not looked for without a term of the context. -/
def skipped {F : Type} (index : EntityIndex F) (haystack : String) (indexed : IndexedName) : Bool :=
  (unicode.lower indexed.name.text).length = 1 &&
    (Table.find ResearchEntity.entityId indexed.entityId index.entities).all fun entity =>
      contextHits unicode entity haystack = 0

/-- The key of a row of `found`: the place and the mention. -/
abbrev SpanKey : Type := ℕ ×ₗ ℕ ×ₗ String

def spanKey (place : Place) (mention : String) : SpanKey := toLex (place.start, toLex (place.stop, mention))

structure SpanMatches where
  place : Place
  mention : String
  names : List IndexedName

/-- `found.entry(key).or_default().push(indexed)`. -/
def addMatch (found : List SpanMatches) (place : Place) (mention : String) (indexed : IndexedName) :
    List SpanMatches :=
  let key := fun row : SpanMatches => spanKey row.place row.mention
  match Table.find key (spanKey place mention) found with
  | some row => Table.insertOrdered key { row with names := row.names ++ [indexed] } found
  | none => Table.insertOrdered key ⟨place, mention, [indexed]⟩ found

/-- The text at a place, or else the match in the lower-cased text. -/
def mentionAt (text : String) (place : Place) (matched : String) : String :=
  (Text.slice text place.start place.stop).getD matched

/-- The first loop of `link_text`. -/
def foundSpans {F : Type} (index : EntityIndex F) (text : String) : List SpanMatches :=
  let haystack := unicode.lower text
  index.names.foldl (fun found indexed =>
    if skipped unicode index haystack indexed then found
    else
      let needle := unicode.lower indexed.name.text
      (occurrences haystack needle).foldl (fun found place =>
        addMatch found place (mentionAt text place needle) indexed) found) []

/-- The matches that are kept: in order of their start, longer ones first, those that no longer one before
them overlaps. -/
def keptSpans {F : Type} (index : EntityIndex F) (text : String) : List SpanMatches :=
  Kernel.pass (fun existing row => existing.place.covers row.place)
    ((foundSpans unicode index text).insertionSort fun left right =>
      left.place.start < right.place.start ∨
        left.place.start = right.place.start ∧ right.place.length ≤ left.place.length)

end

/-! ## Links -/

/-- What scores ask of `f64`. -/
class ScoreFloat (F : Type) extends LinearOrder F, One F, Add F, Sub F, Mul F where
  lit : ℚ → F

instance ScoreFloat.exact : ScoreFloat ℚ where
  lit := id

inductive LinkStatus
  | accepted
  | pendingReview
  | rejected
  deriving DecidableEq, Repr

structure LinkerConfig (F : Type) where
  linkerVersion : String
  acceptanceThreshold : F
  relationThreshold : F

structure LinkCandidate (F : Type) where
  entityId : String
  canonicalName : String
  entityKind : EntityKind
  listedCode : Option String
  matchedNameType : String
  score : F
  reasons : List String
  relatedListed : List (RelatedListedEntity F)

structure DocumentEntityLink (F : Type) where
  linkId : String
  revisionId : String
  spanStart : ℕ
  spanEnd : ℕ
  spanText : String
  candidates : List (LinkCandidate F)
  finalEntityId : Option String
  finalEntityName : Option String
  finalEntityKind : Option EntityKind
  listedCode : Option String
  confidence : F
  reasons : List String
  linkerVersion : String
  evidenceRevisionId : String
  status : LinkStatus
  proposedByModel : Bool
  eligibleForAgent : Bool

def validAt (validFrom validTo : Option ℤ) : Option ℤ → Bool
  | none => validFrom.isNone && validTo.isNone
  | some time => validFrom.all (· ≤ time) && validTo.all (time ≤ ·)

/-- The score of a name by its type, and the reason. -/
def nameScore : String → ℚ × String
  | "security_code" => (1, "证券代码精确命中")
  | "legal_name" => (98 / 100, "法定全称精确命中")
  | "canonical" => (90 / 100, "主数据名称或正式简称命中")
  | "short_name" => (90 / 100, "主数据名称或正式简称命中")
  | "former_name" => (90 / 100, "证券历史名称命中")
  | "english_name" => (88 / 100, "已登记英文名命中")
  | "brand_name" => (86 / 100, "已登记品牌名命中")
  | "model_candidate" => (60 / 100, "模型仅提出候选，必须人工审核")
  | _ => (86 / 100, "已登记别名命中")

section

variable {F : Type} [ScoreFloat F] (unicode : Unicode) (digest : String → String)

open ScoreFloat

/-- `candidate_for`. A queue of relations holds each entity once, which bounds the turns. -/
def candidateFor (index : EntityIndex F) (entity : ResearchEntity) (name : EntityName) (text : String)
    (eventTime : Option ℤ) (ambiguity : ℕ) (config : LinkerConfig F) : LinkCandidate F :=
  let (score, reason) := nameScore name.nameType
  let (score, reasons) : F × List String :=
    if validAt name.validFrom name.validTo eventTime then (lit score, [reason])
    else (min (lit score) (lit (54 / 100)), [reason, "名称在文档事件时间已不处于有效期"])
  let hits := contextHits unicode entity (unicode.lower text)
  let (score, reasons) : F × List String :=
    if 0 < hits then
      (min (score + lit (8 / 100) * lit (min hits 2)) 1,
        reasons ++ ["上下文命中 " ++ toString hits ++ " 个主体特征词"])
    else if 1 < ambiguity then
      (min score (lit (65 / 100)), reasons ++ ["该名称对应多个主体，正文缺少可消歧上下文"])
    else (score, reasons)
  { entityId := entity.entityId
    canonicalName := entity.canonicalName
    entityKind := entity.kind
    listedCode := entity.listedCode
    matchedNameType := name.nameType
    score := score
    reasons := reasons ++
      if entity.parentEntityId.isSome then ["该主体是独立子公司，不自动等同于母公司"] else []
    relatedListed := (relatedListed index.entities index.relations config.relationThreshold
      (2 * index.relations.length + 2) entity.entityId).getD [] }

/-- The candidates of a match, one for each entity, the best first. -/
def candidatesOf (index : EntityIndex F) (text : String) (eventTime : Option ℤ) (config : LinkerConfig F)
    (names : List IndexedName) : List (LinkCandidate F) :=
  let byEntity := names.foldl (orInsert IndexedName.entityId) []
  (byEntity.filterMap fun indexed =>
    (Table.find ResearchEntity.entityId indexed.entityId index.entities).map fun entity =>
      candidateFor unicode index entity indexed.name text eventTime byEntity.length config).insertionSort
    fun left right => right.score < left.score ∨ right.score = left.score ∧ left.entityId ≤ right.entityId

/-- `make_link`. -/
def makeLink (revisionId : String) (row : SpanMatches) (candidates : List (LinkCandidate F)) (confidence : F)
    (status : LinkStatus) (proposedByModel : Bool) (config : LinkerConfig F) : DocumentEntityLink F :=
  let best := candidates.head?
  let finalEntityId := best.map (·.entityId)
  { linkId := "el:" ++ Text.takeChars 24 (digest ("|".intercalate [revisionId, toString row.place.start,
      toString row.place.stop, finalEntityId.getD "", config.linkerVersion, toString proposedByModel]))
    revisionId := revisionId
    spanStart := row.place.start
    spanEnd := row.place.stop
    spanText := row.mention
    candidates := candidates
    finalEntityId := finalEntityId
    finalEntityName := best.map (·.canonicalName)
    finalEntityKind := best.map (·.entityKind)
    listedCode := best.bind (·.listedCode)
    confidence := confidence
    reasons := (best.map (·.reasons)).getD []
    linkerVersion := config.linkerVersion
    evidenceRevisionId := revisionId
    status := status
    proposedByModel := proposedByModel
    eligibleForAgent := status = .accepted && config.acceptanceThreshold ≤ confidence && !proposedByModel &&
      Text.trim revisionId ≠ "" }

/-- The link of a match that is kept. -/
def linkOf (index : EntityIndex F) (revisionId text : String) (eventTime : Option ℤ) (config : LinkerConfig F)
    (proposedByModel : Bool) (row : SpanMatches) : Option (DocumentEntityLink F) :=
  let ambiguity := (row.names.foldl (orInsert IndexedName.entityId) []).length
  match candidatesOf unicode index text eventTime config row.names with
  | [] => none
  | best :: rest =>
    let margin := (rest.head?.map fun next => best.score - next.score).getD 1
    let confidence := if 1 < ambiguity ∧ margin < lit (8 / 100) then min best.score (lit (69 / 100)) else best.score
    let status :=
      if !proposedByModel && config.acceptanceThreshold ≤ confidence then LinkStatus.accepted else .pendingReview
    some (makeLink digest revisionId row (best :: rest) confidence status proposedByModel config)

def linkText (index : EntityIndex F) (revisionId text : String) (eventTime : Option ℤ) (config : LinkerConfig F)
    (proposedByModel : Bool) : List (DocumentEntityLink F) :=
  (keptSpans unicode index text).filterMap
    (linkOf unicode digest index revisionId text eventTime config proposedByModel)

end

end Astock.Linking
