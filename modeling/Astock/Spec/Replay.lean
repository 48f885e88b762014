import Astock.Spec.Clusters

/-!
# Offline replay

`replay_documents` of `crates/news-intelligence/src/lib.rs`: labelled documents are put into
clusters without a store. The digest of the input and the texts of the explanations are left out.
-/

namespace Astock

structure LabeledDocument where
  id : String
  title : String
  summary : String
  url : String
  sourceId : String
  eventTimeUtc : Option ℤ
  firstSeenTimeUtc : ℤ
  group : String
  deriving DecidableEq, Repr

def clusterModelVersion : String := "zh-fin-event-v1"

/-- What a replay answers for a document; the score is that of its explanation. -/
structure ReplayAssignment (F : Type) where
  documentId : String
  eventClusterId : String
  relationship : DocumentRelationship
  score : F
  deriving DecidableEq

namespace LabeledDocument

/-- `labeled_revision`. -/
def labeledRevision (sha : Bytes → String) (document : LabeledDocument) : ArchivedNewsRevision where
  document := {
    documentId := document.id
    canonicalUrl := document.url
    sourceId := document.sourceId
    sourceName := document.sourceId
    license := "fixture"
    contentType := "news"
    language := "zh-CN"
    parserVersion := clusterModelVersion
    contentHash := sha (bytes document.summary)
    currentRevisionId := some document.id
    firstSeenTimeUtc := document.firstSeenTimeUtc
    lastObservedAt := document.firstSeenTimeUtc
    retentionClass := "fixture" }
  revision := {
    revisionId := document.id
    documentId := document.id
    revisionHash := sha (bytes document.title)
    title := document.title
    factualSummary := document.summary
    rawSnapshot := none
    rawSnapshotHash := none
    supersedesRevisionId := none
    eventTime := { utc := document.eventTimeUtc, original := none }
    publishTime := { utc := some document.firstSeenTimeUtc, original := none }
    firstSeenTimeUtc := document.firstSeenTimeUtc
    revisionTimeUtc := document.firstSeenTimeUtc
    revisionTimeOriginal := none }

/-- The order of `(document.first_seen_time_utc, document.id.as_str())`. -/
def before (a b : LabeledDocument) : Prop :=
  a.firstSeenTimeUtc < b.firstSeenTimeUtc ∨ a.firstSeenTimeUtc = b.firstSeenTimeUtc ∧ a.id ≤ b.id

instance : DecidableRel before := fun _ _ => inferInstanceAs (Decidable (_ ∨ _))

end LabeledDocument

/-! ## Fingerprints -/

/-- What the features of a fingerprint are computed from, but for its content hash. -/
structure FingerprintText where
  title : String
  summary : String
  url : String
  eventTimeUtc : Option ℤ
  deriving DecidableEq, Repr

structure DocumentFingerprint where
  text : FingerprintText
  contentHash : String
  deriving DecidableEq, Repr

/-- `fingerprint_revision`. -/
def fingerprintRevision (revision : ArchivedNewsRevision) : DocumentFingerprint where
  text := {
    title := revision.revision.title
    summary := revision.revision.factualSummary
    url := revision.document.canonicalUrl
    eventTimeUtc := revision.revision.eventTime.utc.or revision.revision.publishTime.utc }
  contentHash := revision.document.contentHash

/-- The fingerprint that a replay takes of a document. -/
def LabeledDocument.fingerprint (sha : Bytes → String) (document : LabeledDocument) :
    DocumentFingerprint where
  text := {
    title := document.title
    summary := document.summary
    url := document.url
    eventTimeUtc := document.eventTimeUtc }
  contentHash := sha (bytes document.summary)

/-- `same_content`. -/
def sameContent (left right : DocumentFingerprint) : Bool :=
  left.contentHash ≠ "" && left.contentHash = right.contentHash

/-- How two texts are judged, given whether their content is the same. -/
abbrev Similarity (F : Type) := FingerprintText → FingerprintText → Bool → PairDecision F

/-- `compare_fingerprints`. -/
def compareFingerprints {F : Type} (judge : Similarity F) (left right : DocumentFingerprint) :
    PairDecision F :=
  judge left.text right.text (sameContent left right)

/-- The comparison that assignments make. -/
def compareRevisions {F : Type} (judge : Similarity F) : Comparison F := fun revision candidate =>
  compareFingerprints judge (fingerprintRevision revision) (fingerprintRevision candidate)

/-! ## The replay -/

section Replay

variable {F : Type} [F64 F] (sha : Bytes → String) (reader : TextReader) (judge : Similarity F)

/-- `decision` against the best so far: a greater score, or the same one and a smaller id. -/
def replayBetter (previous : LabeledDocument) (decision : PairDecision F)
    (bestDocument : LabeledDocument) (bestDecision : PairDecision F) : Bool :=
  F64.lt bestDecision.score decision.score ||
    (F64.le decision.score bestDecision.score && F64.le bestDecision.score decision.score &&
      previous.id < bestDocument.id)

/-- The earlier document that matches best, with the decision. -/
def replayBest (current : LabeledDocument) (earlier : List (LabeledDocument × ReplayAssignment F)) :
    Option ((LabeledDocument × ReplayAssignment F) × PairDecision F) :=
  earlier.foldl (fun best previous =>
    let decision := compareFingerprints judge (current.fingerprint sha) (previous.1.fingerprint sha)
    if decision.merge && best.all fun b => replayBetter previous.1 decision b.1.1 b.2 then
      some (previous, decision)
    else best) none

def replayAssignment (current : LabeledDocument)
    (earlier : List (LabeledDocument × ReplayAssignment F)) : ReplayAssignment F :=
  match replayBest sha judge current earlier with
  | some (previous, decision) => {
      documentId := current.id
      eventClusterId := previous.2.eventClusterId
      relationship :=
        classifyRelationship reader (current.labeledRevision sha).revision decision.relationship
      score := decision.score }
  | none => {
      documentId := current.id
      eventClusterId := NewsEvents.clusterIdFor sha current.id
      relationship := .firstPublication
      score := F64.lit 1 }

/-- The documents that are left are assigned in order. -/
def replayFrom (earlier : List (LabeledDocument × ReplayAssignment F)) :
    List LabeledDocument → List (LabeledDocument × ReplayAssignment F)
  | [] => earlier
  | current :: rest =>
    replayFrom (earlier ++ [(current, replayAssignment sha reader judge current earlier)]) rest

def replayDocuments (documents : List LabeledDocument) : List (ReplayAssignment F) :=
  (replayFrom sha reader judge [] (documents.insertionSort LabeledDocument.before)).map (·.2)

end Replay

end Astock
