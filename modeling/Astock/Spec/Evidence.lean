import Astock.Lib.Json

/-!
# Registering evidence

`crates/engine/src/agent_context.rs`: every scalar of a tool result becomes a fact with an
identifier of its own, and the result carries the list of them under `evidence_registry`.
SHA-256 is a parameter: `digest n text` is the first `n` digits of the hash of `text`.
-/

namespace Astock

def maxEvidenceFacts : ℕ := 3000

structure EvidenceFact where
  evidenceId : String
  path : String
  value : Json
  source : String
  observedAt : Option String
  sourceVersionId : Option String
  qualityBlocking : Bool
  deriving DecidableEq

/-- A fact as it is serialised. -/
def EvidenceFact.toJson (fact : EvidenceFact) : Json :=
  .ofFields [("evidence_id", .str fact.evidenceId), ("path", .str fact.path),
    ("value", fact.value), ("source", .str fact.source),
    ("observed_at", .ofOption .str fact.observedAt),
    ("source_version_id", .ofOption .str fact.sourceVersionId),
    ("quality_blocking", .bool fact.qualityBlocking)]

/-- What a fact takes over from the objects around it. -/
structure EvidenceMetadata where
  source : Option String := none
  observedAt : Option String := none
  sourceVersionId : Option String := none
  qualityBlocking : Bool := false
  deriving DecidableEq

/-- The text of the first key that has one. -/
def metadataText (object : List (String × Json)) (keys : List String) : Option String :=
  keys.findSome? fun key => (object.lookup key).bind Json.asStr

def scalarFact : Json → Bool
  | .num _ | .bool _ => true
  | .str text => text ≠ "" && text.length ≤ 160
  | _ => false

def escapePointerChar (c : Char) : List Char :=
  if c = '~' then ['~', '0'] else if c = '/' then ['~', '1'] else [c]

/-- A key as one token of a JSON pointer. -/
def escapePointer (value : String) : String := String.ofList (value.toList.flatMap escapePointerChar)

def sourceKeys : List String := ["source", "provider", "provider_id"]

def observedKeys : List String :=
  ["retrieved_at", "fetched_at", "observed_at", "published_at", "trade_date", "date"]

def versionKeys : List String := ["source_version_id", "revision_id"]

/-- A flag of an object, `false` when it is missing. -/
def flag (object : List (String × Json)) (key : String) : Bool :=
  ((object.lookup key).bind Json.asBool).getD false

/-- The metadata inside an object. -/
def EvidenceMetadata.within (inherited : EvidenceMetadata) (object : List (String × Json)) :
    EvidenceMetadata where
  source := (metadataText object sourceKeys).or inherited.source
  observedAt := (metadataText object observedKeys).or inherited.observedAt
  sourceVersionId := (metadataText object versionKeys).or inherited.sourceVersionId
  qualityBlocking :=
    inherited.qualityBlocking || flag object "blocking" || flag object "quality_blocking"

/-- The fact of a scalar. -/
def scalarEvidence (digest : ℕ → String → String) (scope path : String)
    (inherited : EvidenceMetadata) (value : Json) : EvidenceFact :=
  let digest := digest 24 (scope ++ "|" ++ path ++ "|" ++ value.toText)
  { evidenceId := "evf_" ++ digest
    path
    value
    source := inherited.source.getD "engine"
    observedAt := inherited.observedAt
    sourceVersionId := inherited.sourceVersionId.or (some ("field:" ++ digest))
    qualityBlocking := inherited.qualityBlocking }

section

variable (digest : ℕ → String → String) (scope : String)

mutual
def collectEvidenceFacts (value : Json) (path : String) (inherited : EvidenceMetadata)
    (facts : List EvidenceFact) : List EvidenceFact :=
  if maxEvidenceFacts ≤ facts.length then facts
  else match value with
    | .obj fields => collectFields fields path (inherited.within fields) facts
    | .arr items => collectItems items 0 path inherited facts
    | value =>
      if scalarFact value then facts ++ [scalarEvidence digest scope path inherited value]
      else facts
/-- The loop over the fields of an object. -/
def collectFields (fields : List (String × Json)) (path : String) (metadata : EvidenceMetadata)
    (facts : List EvidenceFact) : List EvidenceFact :=
  match fields with
  | [] => facts
  | (key, child) :: rest =>
    if key = "evidence_registry" then collectFields rest path metadata facts
    else
      let facts := collectEvidenceFacts child (path ++ "/" ++ escapePointer key) metadata facts
      if maxEvidenceFacts ≤ facts.length then facts else collectFields rest path metadata facts
/-- The loop over the items of an array, from `index` on. Each item may add its share of what is
left: what it adds beyond that is dropped again. -/
def collectItems (items : List Json) (index : ℕ) (path : String) (inherited : EvidenceMetadata)
    (facts : List EvidenceFact) : List EvidenceFact :=
  match items with
  | [] => facts
  | child :: rest =>
    let fairShare := (maxEvidenceFacts - facts.length) / (rest.length + 1)
    let before := facts.length
    let facts := (collectEvidenceFacts child (path ++ "/" ++ toString index) inherited facts).take
      (min (before + fairShare) maxEvidenceFacts)
    if maxEvidenceFacts ≤ facts.length then facts
    else collectItems rest (index + 1) path inherited facts
end

/-- The object under `evidence_registry`. -/
structure EvidenceRegistry where
  scope : String
  facts : List EvidenceFact
  truncated : Bool
  deriving DecidableEq

def EvidenceRegistry.toJson (registry : EvidenceRegistry) : Json :=
  .ofFields [("version", .str "astock-field-evidence/v1"), ("scope", .str registry.scope),
    ("facts", .arr (registry.facts.map EvidenceFact.toJson)),
    ("truncated", .bool registry.truncated)]

/-- The registry of a payload. -/
def evidenceRegistry (payload : Json) : EvidenceRegistry :=
  let facts := collectEvidenceFacts digest scope payload "" {} []
  { scope, facts, truncated := facts.length = maxEvidenceFacts }

/-- Only an object takes a registry. -/
def attachEvidenceRegistry (payload : Json) : Json :=
  match payload with
  | .obj root =>
    .obj (Json.setField "evidence_registry" (evidenceRegistry digest scope payload).toJson root)
  | payload => payload

end

end Astock
