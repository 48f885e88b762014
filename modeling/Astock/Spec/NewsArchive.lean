import Astock.Lib.Table
import Astock.Lib.Text

/-!
# The news archive

`crates/storage/src/news_archive.rs`: source documents and their immutable revisions. An upsert is
one transaction. `sha` stands for the hexadecimal SHA-256 of some bytes; a raw snapshot is stored
compressed, which the model leaves out, as it does the table of fetch observations, which no query
here reads.
-/

namespace Astock

abbrev Bytes := List UInt8

def bytes (s : String) : Bytes := s.toUTF8.toList

structure EvidenceTimestamp where
  utc : Option ℤ
  original : Option String
  deriving DecidableEq, Repr

structure NewsObservationInput where
  providerId : String
  fetchedAt : ℤ
  parseStatus : String
  rawEvidence : Option Bytes
  deriving DecidableEq, Repr

structure NewsArchiveInput where
  canonicalUrl : String
  sourceId : String
  sourceName : String
  license : String
  contentType : String
  language : String
  parserVersion : String
  title : String
  factualSummary : String
  rawSnapshot : Option Bytes
  rawSnapshotPermitted : Bool
  eventTime : EvidenceTimestamp
  publishTime : EvidenceTimestamp
  firstSeenTimeUtc : ℤ
  revisionTime : EvidenceTimestamp
  retentionClass : String
  observation : NewsObservationInput
  deriving DecidableEq, Repr

structure NewsArchiveUpsert where
  documentId : String
  revisionId : String
  insertedRevision : Bool
  supersedesRevisionId : Option String
  deriving DecidableEq, Repr

inductive NewsArchiveClock
  | event
  | publish
  | firstSeen
  | revision
  deriving DecidableEq, Repr

/-- A row of `source_documents`. -/
structure SourceDocument where
  documentId : String
  canonicalUrl : String
  sourceId : String
  sourceName : String
  license : String
  contentType : String
  language : String
  parserVersion : String
  contentHash : String
  currentRevisionId : Option String
  firstSeenTimeUtc : ℤ
  lastObservedAt : ℤ
  retentionClass : String
  deriving DecidableEq, Repr

/-- A row of `document_revisions`. -/
structure DocumentRevision where
  revisionId : String
  documentId : String
  revisionHash : String
  title : String
  factualSummary : String
  rawSnapshot : Option Bytes
  rawSnapshotHash : Option String
  supersedesRevisionId : Option String
  eventTime : EvidenceTimestamp
  publishTime : EvidenceTimestamp
  firstSeenTimeUtc : ℤ
  revisionTimeUtc : ℤ
  revisionTimeOriginal : Option String
  deriving DecidableEq, Repr

/-- The tables, each in the order in which its rows were inserted. -/
structure NewsArchive where
  documents : List SourceDocument := []
  revisions : List DocumentRevision := []

/-! ## Validation -/

def maxUrlBytes : ℕ := 4 * 1024

def maxTitleBytes : ℕ := 8 * 1024

def maxSummaryBytes : ℕ := 128 * 1024

def maxRawBytes : ℕ := 2 * 1024 * 1024

def NewsObservationInput.validate (input : NewsObservationInput) : Except String Unit :=
  if Text.trim input.providerId = "" ∨ Text.trim input.parseStatus = "" then
    .error "观测来源和解析状态不能为空"
  else if input.rawEvidence.any fun raw => maxRawBytes < raw.length then
    .error "失败原始证据超过 2 MiB"
  else .ok ()

/-- The fields that may not be blank. -/
def NewsArchiveInput.visible (input : NewsArchiveInput) : List (String × String) :=
  [("canonical_url", input.canonicalUrl), ("source_id", input.sourceId),
    ("source_name", input.sourceName), ("license", input.license),
    ("content_type", input.contentType), ("language", input.language),
    ("parser_version", input.parserVersion), ("title", input.title),
    ("retention_class", input.retentionClass)]

def NewsArchiveInput.validate (input : NewsArchiveInput) : Except String Unit :=
  match input.visible.find? fun field => Text.trim field.2 = "" with
  | some field => .error s!"{field.1} 不能为空"
  | none =>
    if maxUrlBytes < input.canonicalUrl.utf8ByteSize then .error "canonical_url 过长"
    else if maxTitleBytes < input.title.utf8ByteSize ∨
        maxSummaryBytes < input.factualSummary.utf8ByteSize then
      .error "标题或事实摘要超过归档上限"
    else if input.rawSnapshot.any fun raw => maxRawBytes < raw.length then
      .error "原始快照超过 2 MiB"
    else input.observation.validate

/-! ## Identity -/

section Upsert

variable (sha : Bytes → String)

def documentIdOf (sourceId canonicalUrl : String) : String :=
  "doc:" ++ sha (bytes sourceId ++ [0] ++ bytes canonicalUrl)

def contentHashOf (title factualSummary : String) (rawSnapshotHash : Option String) : String :=
  sha (bytes title ++ [0] ++ bytes factualSummary ++ [0] ++ bytes (rawSnapshotHash.getD ""))

def revisionHashOf (parserVersion contentHash : String) : String :=
  sha (bytes parserVersion ++ [0] ++ bytes contentHash)

def revisionIdOf (documentId revisionHash : String) : String :=
  "rev:" ++ sha (bytes documentId ++ [0] ++ bytes revisionHash)

namespace NewsArchiveInput

variable (input : NewsArchiveInput)

/-- The snapshot that may be kept. -/
def permittedRaw : Option Bytes := if input.rawSnapshotPermitted then input.rawSnapshot else none

def documentId : String := documentIdOf sha input.sourceId input.canonicalUrl

def contentHash : String :=
  contentHashOf sha input.title input.factualSummary (input.permittedRaw.map sha)

def revisionHash : String := revisionHashOf sha input.parserVersion (input.contentHash sha)

def revisionId : String := revisionIdOf sha (input.documentId sha) (input.revisionHash sha)

/-- The first-seen time of the input, or the time of the call. -/
def seenAt (now : ℤ) : ℤ := if input.firstSeenTimeUtc ≤ 0 then now else input.firstSeenTimeUtc

end NewsArchiveInput

/-! ## Upsert -/

namespace NewsArchive

def document (s : NewsArchive) (documentId : String) : Option SourceDocument :=
  Table.find (·.documentId) documentId s.documents

/-- The row that the input gives to `source_documents`: a document that is there keeps its address,
its content hash, its current revision and its first-seen time. -/
def observed (now : ℤ) (input : NewsArchiveInput) (existing : Option SourceDocument) :
    SourceDocument where
  documentId := input.documentId sha
  canonicalUrl := (existing.map (·.canonicalUrl)).getD input.canonicalUrl
  sourceId := (existing.map (·.sourceId)).getD input.sourceId
  sourceName := input.sourceName
  license := input.license
  contentType := input.contentType
  language := input.language
  parserVersion := input.parserVersion
  contentHash := (existing.map (·.contentHash)).getD (input.contentHash sha)
  currentRevisionId := existing.bind (·.currentRevisionId)
  firstSeenTimeUtc := (existing.map (·.firstSeenTimeUtc)).getD (input.seenAt now)
  lastObservedAt := input.observation.fetchedAt
  retentionClass := input.retentionClass

/-- The revision that the input would add. -/
def candidate (now : ℤ) (input : NewsArchiveInput) (existing : Option SourceDocument) :
    DocumentRevision where
  revisionId := input.revisionId sha
  documentId := input.documentId sha
  revisionHash := input.revisionHash sha
  title := input.title
  factualSummary := input.factualSummary
  rawSnapshot := input.permittedRaw
  rawSnapshotHash := input.permittedRaw.map sha
  supersedesRevisionId := existing.bind (·.currentRevisionId)
  eventTime := input.eventTime
  publishTime := input.publishTime
  -- a revision of a known document is first seen when the document was
  firstSeenTimeUtc := (existing.map (·.firstSeenTimeUtc)).getD (input.seenAt now)
  revisionTimeUtc := input.revisionTime.utc.getD now
  revisionTimeOriginal := input.revisionTime.original

/-- `INSERT OR IGNORE INTO document_revisions`: a revision whose id, or whose hash in its document,
is there is not added. -/
def hasRevision (s : NewsArchive) (row : DocumentRevision) : Bool :=
  s.revisions.any fun r => r.revisionId = row.revisionId ||
    (r.documentId = row.documentId && r.revisionHash = row.revisionHash)

def upsert (now : ℤ) (input : NewsArchiveInput) (s : NewsArchive) :
    Except String NewsArchiveUpsert × NewsArchive :=
  match input.validate with
  | .error message => (.error message, s)
  | .ok () =>
    let documentId := input.documentId sha
    let existing := s.document documentId
    let row := candidate sha now input existing
    let documents := Table.upsert (·.documentId) (observed sha now input existing) s.documents
    let inserted := !s.hasRevision row
    let s' :=
      if inserted then
        { documents := Table.update (·.documentId) documentId
            (fun d => { d with
              currentRevisionId := some row.revisionId
              contentHash := input.contentHash sha }) documents
          revisions := s.revisions ++ [row] }
      else { documents := documents, revisions := s.revisions }
    (.ok { documentId := documentId
           revisionId := row.revisionId
           insertedRevision := inserted
           supersedesRevisionId := row.supersedesRevisionId }, s')

end NewsArchive

/-- A call of `news_archive_upsert`, with the time of the call. -/
structure UpsertCall where
  now : ℤ
  input : NewsArchiveInput

/-- The archive after a call. -/
def NewsArchive.after (s : NewsArchive) (call : UpsertCall) : NewsArchive :=
  (s.upsert sha call.now call.input).2

end Upsert

/-! ## Queries -/

/-- A revision with its document. -/
structure ArchivedNewsRevision where
  document : SourceDocument
  revision : DocumentRevision
  deriving DecidableEq, Repr

/-- The clock that a replay is filtered and sorted by. -/
def NewsArchiveClock.read (clock : NewsArchiveClock) (r : DocumentRevision) : ℤ :=
  match clock with
  | .event => (r.eventTime.utc.or r.publishTime.utc).getD r.firstSeenTimeUtc
  | .publish => r.publishTime.utc.getD r.firstSeenTimeUtc
  | .firstSeen => r.firstSeenTimeUtc
  | .revision => r.revisionTimeUtc

namespace NewsArchive

/-- The join of both tables, in the order of the revisions. -/
def joined (s : NewsArchive) : List ArchivedNewsRevision :=
  s.revisions.filterMap fun revision =>
    (s.document revision.documentId).map fun document => { document, revision }

/-- The revision time of the newest revision of a document that is visible at a cutoff. -/
def newestVisible (s : NewsArchive) (cutoff : ℤ) (documentId : String) : Option ℤ :=
  ((s.revisions.filter fun r => r.documentId = documentId ∧ r.firstSeenTimeUtc ≤ cutoff ∧
    r.revisionTimeUtc ≤ cutoff).map (·.revisionTimeUtc)).max?

def asOf (s : NewsArchive) (cutoff : ℤ) (clock : NewsArchiveClock) (limit : ℕ) :
    List ArchivedNewsRevision :=
  ((s.joined.filter fun row =>
    row.revision.firstSeenTimeUtc ≤ cutoff ∧ row.revision.revisionTimeUtc ≤ cutoff ∧
      clock.read row.revision ≤ cutoff ∧
      some row.revision.revisionTimeUtc = s.newestVisible cutoff row.revision.documentId
    ).insertionSort fun a b => clock.read b.revision ≤ clock.read a.revision).take
      (min (max limit 1) 100000)

end NewsArchive

end Astock
