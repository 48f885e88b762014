import Astock.Lib.Table
import Astock.Spec.Evidence
import Astock.Spec.ReportDraft

/-!
# The evidence catalog

`crates/agent-runtime/src/catalog.rs`: a task collects the facts that its tool
results register. One walk over a result records what each object asserts; a
fact is attributed by looking its path up in that index, one segment shorter
until something is found.
-/

namespace Astock

open Report (EvidenceDescriptor)

def maxCatalogEntries : ℕ := 40000

def maxTitleChars : ℕ := 200

/-! ## Attribution -/

/-- What an enclosing object asserts about the facts beneath it. -/
structure Attribution where
  symbol : Option String := none
  documentTitle : Option String := none
  publishedAt : Option String := none
  unit : Option String := none
  deriving DecidableEq

namespace Attribution

/-- The first text under one of the keys, trimmed, that is neither blank nor too long. -/
def text (object : List (String × Json)) (keys : List String) (max : ℕ) : Option String :=
  (((keys.filterMap fun key => object.lookup key).filterMap Json.asStr).map Text.trim).find? fun value =>
    value ≠ "" && value.length ≤ max

/-- A symbol is six ASCII digits. -/
def symbolOf (object : List (String × Json)) : Option String :=
  ((object.lookup "symbol").bind Json.asStr).filter fun value =>
    value.utf8ByteSize = 6 && value.toList.all Char.isDigit

def titleOf (object : List (String × Json)) : Option String :=
  text object ["title", "headline"] maxTitleChars

def publishedAtOf (object : List (String × Json)) : Option String :=
  text object ["published_at", "publish_time", "pub_time"] 40

def unitOf (object : List (String × Json)) : Option String := text object ["unit", "currency"] 20

/-- Merge an object's own fields over what it inherited. -/
def extended (self : Attribution) (object : List (String × Json)) : Attribution where
  symbol := (symbolOf object).or self.symbol
  documentTitle := (titleOf object).or self.documentTitle
  publishedAt := (publishedAtOf object).or self.publishedAt
  unit := (unitOf object).or self.unit

def isEmpty (self : Attribution) : Bool := self = {}

end Attribution

/-- The attributions of the objects that change something, by the path of the object. -/
abbrev AttributionIndex := List (String × Attribution)

mutual
def collectAttribution (value : Json) (path : String) (inherited : Attribution)
    (out : AttributionIndex) : AttributionIndex :=
  match value with
  | .obj object =>
    let attribution := inherited.extended object
    collectAttributionFields object path attribution
      (if attribution ≠ inherited ∧ !attribution.isEmpty then
        Table.insertOrdered Prod.fst (path, attribution) out
      else out)
  | .arr items => collectAttributionItems items 0 path inherited out
  | _ => out
/-- The loop over the fields of an object. -/
def collectAttributionFields (fields : List (String × Json)) (path : String)
    (attribution : Attribution) (out : AttributionIndex) : AttributionIndex :=
  match fields with
  | [] => out
  | (key, child) :: rest =>
    collectAttributionFields rest path attribution
      (if key = "evidence_registry" then out
      else collectAttribution child (path ++ "/" ++ escapePointer key) attribution out)
/-- The loop over the items of an array, from `index` on. -/
def collectAttributionItems (items : List Json) (index : ℕ) (path : String)
    (inherited : Attribution) (out : AttributionIndex) : AttributionIndex :=
  match items with
  | [] => out
  | child :: rest =>
    collectAttributionItems rest (index + 1) path inherited
      (collectAttribution child (path ++ "/" ++ toString index) inherited out)
end

/-- `&path[..cut]` for `cut = path.rfind('/')`. -/
def beforeLastSlash (path : String) : Option String :=
  match path.toList.reverse.dropWhile (· ≠ '/') with
  | [] => none
  | _ :: rest => some (String.ofList rest.reverse)

theorem beforeLastSlash_length {path parent : String} (h : beforeLastSlash path = some parent) :
    parent.length < path.length := by
  unfold beforeLastSlash at h
  split at h
  · simp at h
  · rename_i c rest heq
    obtain rfl := Option.some.inj h
    have hle := (List.dropWhile_suffix (fun c => decide (c ≠ '/')) (l := path.toList.reverse)).length_le
    rw [heq] at hle
    simp only [List.length_cons, List.length_reverse, String.length_toList] at hle
    rw [String.length_ofList, List.length_reverse]
    omega

/-- Resolve a fact's attribution by longest path prefix. -/
def attributionFor (path : String) (index : AttributionIndex) : Option Attribution :=
  match Table.find Prod.fst path index with
  | some found => some found.2
  | none =>
    match _h : beforeLastSlash path with
    | some candidate => attributionFor candidate index
    | none => (Table.find Prod.fst "" index).map Prod.snd
termination_by path.length
decreasing_by exact beforeLastSlash_length _h

/-- The index of a tool result; the root carries what the call itself established. -/
def attributionIndex (result : Json) (fallbackSymbol : Option String) : AttributionIndex :=
  let root : Attribution := { symbol := fallbackSymbol }
  collectAttribution result "" root (if !root.isEmpty then [("", root)] else [])

/-! ## Registered facts -/

/-- One evidence row as the Engine registered it. -/
structure RawFact where
  evidenceId : String
  path : String
  value : Json
  source : String
  observedAt : Option String
  sourceVersionId : Option String
  qualityBlocking : Bool
  deriving DecidableEq

/-- An `Option<String>` with `#[serde(default)]`; the outer `none` is an error. -/
def readOptionalText : Option Json → Option (Option String)
  | none | some .null => some none
  | some (.str text) => some (some text)
  | some _ => none

/-- A `bool` with `#[serde(default)]`. -/
def readFlag : Option Json → Option Bool
  | none => some false
  | some (.bool b) => some b
  | some _ => none

/-- The fields of a fact, in order; the last three have defaults. -/
def RawFact.read (evidenceId path value source observedAt sourceVersionId qualityBlocking :
    Option Json) : Option RawFact := do
  let evidenceId ← evidenceId.bind Json.asStr
  let path ← path.bind Json.asStr
  let value ← value
  let source ← source.bind Json.asStr
  let observedAt ← readOptionalText observedAt
  let sourceVersionId ← readOptionalText sourceVersionId
  let qualityBlocking ← readFlag qualityBlocking
  some { evidenceId, path, value, source, observedAt, sourceVersionId, qualityBlocking }

/-- `serde_json::from_value::<RawFact>`: a struct is read from an object, or from an
array of its fields. -/
def RawFact.ofJson : Json → Option RawFact
  | .obj object => RawFact.read (object.lookup "evidence_id") (object.lookup "path")
      (object.lookup "value") (object.lookup "source") (object.lookup "observed_at")
      (object.lookup "source_version_id") (object.lookup "quality_blocking")
  | .arr items =>
    if items.length ≤ 7 then
      RawFact.read items[0]? items[1]? items[2]? items[3]? items[4]? items[5]? items[6]?
    else none
  | _ => none

/-- The rows of the registry of an object. -/
def registryRows (object : List (String × Json)) : List Json :=
  (((object.lookup "evidence_registry").bind fun registry => registry.get? "facts").bind
    Json.asArray).getD []

mutual
def collectFacts : Json → List RawFact
  | .obj object => (registryRows object).filterMap RawFact.ofJson ++ collectFactsFields object
  | .arr items => collectFactsItems items
  | _ => []
def collectFactsFields : List (String × Json) → List RawFact
  | [] => []
  | (key, child) :: rest =>
    (if key ≠ "evidence_registry" then collectFacts child else []) ++ collectFactsFields rest
def collectFactsItems : List Json → List RawFact
  | [] => []
  | child :: rest => collectFacts child ++ collectFactsItems rest
end

/-! ## The catalog -/

mutual
/-- A document with its zeros unsigned: `-0.0 == 0.0` for two `f64`. -/
def unsignedZero : Json → Json
  | .num (.float text) => .num (.float (if text = "-0.0" then "0.0" else text))
  | .arr items => .arr (unsignedZeroItems items)
  | .obj fields => .obj (unsignedZeroFields fields)
  | value => value
def unsignedZeroItems : List Json → List Json
  | [] => []
  | item :: rest => unsignedZero item :: unsignedZeroItems rest
def unsignedZeroFields : List (String × Json) → List (String × Json)
  | [] => []
  | (key, value) :: rest => (key, unsignedZero value) :: unsignedZeroFields rest
end

/-- Do two registrations of the same identifier disagree about the world? -/
def materiallyDisagrees (left right : RawFact) : Bool :=
  unsignedZero left.value ≠ unsignedZero right.value || left.source ≠ right.source ||
    left.path ≠ right.path || left.qualityBlocking ≠ right.qualityBlocking ||
    left.sourceVersionId ≠ right.sourceVersionId

/-- `left > right` for two `Option<String>`. -/
def laterText : Option String → Option String → Bool
  | some _, none => true
  | some left, some right => right < left
  | none, _ => false

/-- Evidence identifiers accumulated for one task. The three maps are rows in the order
of their identifiers. -/
structure EvidenceCatalog where
  descriptors : List EvidenceDescriptor := []
  raw : List RawFact := []
  conflictingVariants : List RawFact := []
  dropped : ℕ := 0

namespace EvidenceCatalog

def descriptor (c : EvidenceCatalog) (id : String) : Option EvidenceDescriptor :=
  Table.find EvidenceDescriptor.evidenceId id c.descriptors

def fact (c : EvidenceCatalog) (id : String) : Option RawFact :=
  Table.find RawFact.evidenceId id c.raw

/-- `self.descriptors.get_mut(id)`, followed by an assignment. -/
def editDescriptor (c : EvidenceCatalog) (id : String)
    (f : EvidenceDescriptor → EvidenceDescriptor) : EvidenceCatalog :=
  { c with descriptors := Table.update EvidenceDescriptor.evidenceId id f c.descriptors }

/-- The descriptor of a fact that is registered for the first time. -/
def describe (fact : RawFact) (attribution : Option Attribution) : EvidenceDescriptor where
  evidenceId := fact.evidenceId
  source := fact.source
  symbol := attribution.bind (·.symbol)
  field := some fact.path
  value := some fact.value
  unit := attribution.bind (·.unit)
  observedAt := fact.observedAt
  publishedAt := attribution.bind (·.publishedAt)
  documentTitle := attribution.bind (·.documentTitle)
  documentLocation := none
  qualityBlocking := fact.qualityBlocking
  conflicting := false

/-- A fact whose identifier is in the catalog. -/
def registerAgain (c : EvidenceCatalog) (existing fact : RawFact) : EvidenceCatalog :=
  if materiallyDisagrees existing fact then
    { c.editDescriptor fact.evidenceId fun d => { d with conflicting := true } with
      conflictingVariants :=
        if (Table.find RawFact.evidenceId fact.evidenceId c.conflictingVariants).isSome then
          c.conflictingVariants
        else Table.insertOrdered RawFact.evidenceId fact c.conflictingVariants }
  else if laterText fact.observedAt existing.observedAt then
    { c.editDescriptor fact.evidenceId fun d => { d with observedAt := fact.observedAt } with
      raw := Table.insertOrdered RawFact.evidenceId fact c.raw }
  else c

/-- A fact whose identifier is new. -/
def registerNew (c : EvidenceCatalog) (index : AttributionIndex) (fact : RawFact) :
    EvidenceCatalog :=
  if maxCatalogEntries ≤ c.descriptors.length then { c with dropped := c.dropped + 1 }
  else
    { c with
      descriptors := Table.insertOrdered EvidenceDescriptor.evidenceId
        (describe fact (attributionFor fact.path index)) c.descriptors
      raw := Table.insertOrdered RawFact.evidenceId fact c.raw }

/-- One fact of a tool result. A malformed identifier is not admitted. -/
def register (index : AttributionIndex) (c : EvidenceCatalog) (fact : RawFact) : EvidenceCatalog :=
  if !Text.startsWith fact.evidenceId "evf_" || 80 < fact.evidenceId.utf8ByteSize then c
  else
    match c.fact fact.evidenceId with
    | some existing => c.registerAgain existing fact
    | none => c.registerNew index fact

/-- Absorb one tool result. -/
def ingest (c : EvidenceCatalog) (result : Json) (fallbackSymbol : Option String) :
    EvidenceCatalog :=
  (collectFacts result).foldl (register (attributionIndex result fallbackSymbol)) c

end EvidenceCatalog

end Astock
