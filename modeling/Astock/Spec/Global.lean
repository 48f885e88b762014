import Astock.Lib.Loop
import Astock.Lib.Json
import Astock.Lib.Prog
import Astock.Lib.Sorted
import Astock.Lib.Table
import Astock.Lib.Text
import Mathlib.Data.String.Basic

/-!
# Global intelligence

`crates/global-intelligence/src/lib.rs`: the conversion of currencies in fixed point, and the store of
observations. The documents and entities that an observation refers to are given to each call;
`digest` stands for `short_hash`.
-/

namespace Astock.Global

open Prog

inductive Error
  | storage (message : String)
  | invalidConversion (message : String)
  | invalidEvidence (message : String)
  deriving DecidableEq, Repr

/-! ## Conversion -/

/-- `i128` holds the number. -/
def FitsI128 (n : ℤ) : Prop := -2 ^ 127 ≤ n ∧ n < 2 ^ 127

instance (n : ℤ) : Decidable (FitsI128 n) := inferInstanceAs (Decidable (_ ∧ _))

/-- What a build makes of the exact result of an unchecked `i128` operation; `none` is a panic. -/
abbrev Build := ℤ → Option ℤ

/-- A build with overflow checks. -/
def checked : Build := fun n => if FitsI128 n then some n else none

/-- A build without them. -/
def wrapping : Build := fun n => some (n.bmod (2 ^ 128))

def checkedMul (a b : ℤ) : Option ℤ := if FitsI128 (a * b) then some (a * b) else none

/-- `i128` division, which panics in every build. -/
def div (a b : ℤ) : Option ℤ := if b = 0 ∨ a = -2 ^ 127 ∧ b = -1 then none else some (a.tdiv b)

/-- `i64::try_from`. -/
def tryFrom (n : ℤ) : Except Error Int64 :=
  if -2 ^ 63 ≤ n ∧ n < 2 ^ 63 then .ok (Int64.ofInt n) else .error (.invalidConversion "结果超出 i64")

/-- Fixed-point currency conversion; `none` is a panic. -/
def convertCurrencyScaled (build : Build)
    (amountScaled amountScale rateScaled rateScale outputScale : Int64) : Option (Except Error Int64) :=
  if amountScale.toInt ≤ 0 ∨ rateScale.toInt ≤ 0 ∨ outputScale.toInt ≤ 0 ∨ rateScaled.toInt < 0 then
    some (.error (.invalidConversion "scale 必须为正数且汇率不得为负"))
  else
    match (checkedMul amountScaled.toInt rateScaled.toInt).bind (checkedMul · outputScale.toInt) with
    | none => some (.error (.invalidConversion "固定点乘法溢出"))
    | some numerator => do
      let denominator ← build (amountScale.toInt * rateScale.toInt)
      let half ← div denominator 2
      let sum ← if 0 ≤ numerator then build (numerator + half) else build (numerator - half)
      let rounded ← div sum denominator
      return tryFrom rounded

/-! ## Observations -/

structure ObservationInput where
  documentId : String
  entityId : Option String
  indicatorCode : String
  period : String
  valueScaled : Option ℤ
  scale : ℤ
  valueText : Option String
  unitOriginal : String
  currencyOriginal : Option String
  releasedAtUtc : ℤ
  revisionNo : ℕ
  replacesObservationId : Option String
  sourceVersionId : String
  deriving DecidableEq, Repr

/-- A row of `global_observations`. -/
structure Observation where
  observationId : String
  input : ObservationInput
  createdAt : ℤ
  deriving DecidableEq, Repr

/-- The columns of the unique key. -/
def ObservationInput.key (o : ObservationInput) : String × String × String × ℕ :=
  (o.documentId, o.indicatorCode, o.period, o.revisionNo)

def Observation.key (o : Observation) : String × String × String × ℕ := o.input.key

/-- What a call finds outside of the observations. -/
structure Env where
  now : ℤ
  /-- `primary_verified` of the document with this id and source version. -/
  verified : String → String → Option Bool
  entities : List String

abbrev Store := List Observation

section

variable (digest : String → String)

def ObservationInput.id (o : ObservationInput) : String :=
  "gobs:" ++ digest (o.documentId ++ "|" ++ o.indicatorCode ++ "|" ++ o.period ++ "|" ++
    toString o.revisionNo)

def ObservationInput.row (env : Env) (o : ObservationInput) : Observation := ⟨o.id digest, o, env.now⟩

end

/-- `ON CONFLICT .. DO UPDATE`: the columns that are set. -/
def Observation.updated (old new : Observation) : Observation :=
  { old with
    input := { old.input with
      valueScaled := new.input.valueScaled
      valueText := new.input.valueText
      releasedAtUtc := new.input.releasedAtUtc
      sourceVersionId := new.input.sourceVersionId } }

/-- The row can be inserted: its id is free and what it refers to is there. -/
def insertable (env : Env) (rows : Store) (row : Observation) : Bool :=
  !rows.any (·.observationId = row.observationId) && row.input.entityId.all (· ∈ env.entities) &&
    row.input.replacesObservationId.all fun id =>
      rows.any (·.observationId = id) || id = row.observationId

/-- `GlobalStore::ingest_observation`. -/
def ingestObservation (digest : String → String) (env : Env) (input : ObservationInput) :
    Prog Store Error String := do
  guardOr (0 < input.scale && Text.trim input.sourceVersionId ≠ "")
    (.invalidEvidence "观测值必须声明正数 scale 与 source_version_id")
  guardOr (env.verified input.documentId input.sourceVersionId = some true)
    (.storage "观测值只能引用已归档的官方数据版本")
  let rows ← get
  let row := input.row digest env
  guardOr (rows.any (·.key = row.key) || insertable env rows row)
    (.storage "sqlite error: constraint failed: global_observations")
  set (Table.upsertWith Observation.key Observation.updated row rows)
  return input.id digest

end Astock.Global

/-!
## Transmission paths

`crates/global-intelligence/src/lib.rs`: the paths of active relations from an overseas entity to A-share
securities.

A `HashMap` of entities is a function to what it holds, and a `HashSet` of ids a list.
-/

namespace Astock.Global

structure GlobalEntity where
  entityId : String
  entityType : String
  legalName : String
  nameZh : Option String
  jurisdiction : String
  identifiers : Json
  aliases : List String
  translationStatus : String

/-- A row of `global_relations`, with its `CHECK` on the confidence. -/
structure GlobalRelation where
  relationId : String
  srcEntityId : String
  dstEntityId : String
  relationType : String
  direction : String
  confidenceBps : UInt16
  evidenceDocumentId : String
  evidenceSourceVersionId : String
  evidenceQuoteOriginal : String
  evidenceQuoteZh : Option String
  evidenceLocation : Json
  observedAt : ℤ
  validFrom : ℤ
  validTo : Option ℤ
  confidence_le : confidenceBps.toNat ≤ 10000

structure TransmissionPath where
  pathId : String
  entities : List GlobalEntity
  relations : List GlobalRelation
  pathConfidenceBps : UInt16
  targetAShareCode : String

/-- An entry of the frontier. -/
structure Reached where
  current : String
  entities : List GlobalEntity
  relations : List GlobalRelation
  confidence : UInt16
  visited : List String

def GlobalEntity.isShare (entity : GlobalEntity) : Bool := entity.entityType = "a_share_security"

/-- `identifiers.get("code").and_then(Value::as_str).unwrap_or_default()`. -/
def GlobalEntity.code (entity : GlobalEntity) : String :=
  match entity.identifiers.get? "code" with
  | some (.str code) => code
  | _ => ""

/-- `((u32::from(confidence) * u32::from(relation.confidence_bps)) / 10_000) as u16`. -/
def nextConfidence (confidence : UInt16) (relation : GlobalRelation) : UInt16 :=
  (confidence.toUInt32 * relation.confidenceBps.toUInt32 / 10000).toUInt16

section

variable (shortHash : String → String) (entities : String → Option GlobalEntity)
  (relations : List GlobalRelation) (maxDepth : ℕ)

def pathId (relations : List GlobalRelation) : String :=
  "gpath:" ++ shortHash (String.intercalate "|" (relations.map (·.relationId)))

/-- What a relation from the current entity leads to: a path, or another entry of the frontier. -/
def follow (reached : Reached) (relation : GlobalRelation) : Option (TransmissionPath ⊕ Reached) :=
  if relation.dstEntityId ∈ reached.visited then none
  else match entities relation.dstEntityId with
    | none => none
    | some nextEntity =>
      let nextEntities := reached.entities ++ [nextEntity]
      let nextRelations := reached.relations ++ [relation]
      let confidence := nextConfidence reached.confidence relation
      if nextEntity.isShare then
        some <| .inl
          { pathId := pathId shortHash nextRelations
            entities := nextEntities
            relations := nextRelations
            pathConfidenceBps := confidence
            targetAShareCode := nextEntity.code }
      else
        some <| .inr
          { current := relation.dstEntityId
            entities := nextEntities
            relations := nextRelations
            confidence := confidence
            visited := relation.dstEntityId :: reached.visited }

/-- What an entry of the frontier leads to. -/
def expand (reached : Reached) : List (TransmissionPath ⊕ Reached) :=
  if maxDepth ≤ reached.relations.length then []
  else (relations.filter (·.srcEntityId = reached.current)).filterMap (follow shortHash entities reached)

def start (root : String) (rootEntity : GlobalEntity) : Reached := ⟨root, [rootEntity], [], 10000, [root]⟩

/-- By confidence, the highest first, then by id. -/
def TransmissionPath.order (path : TransmissionPath) : ℕᵒᵈ ×ₗ String :=
  toLex (OrderDual.toDual path.pathConfidenceBps.toNat, path.pathId)

/-- `build_paths`, within a number of turns of its loop. -/
def buildPaths (turns : ℕ) (root : String) : Option (List TransmissionPath) :=
  match entities root with
  | none => some []
  | some rootEntity =>
    (Loop.run (Branching.turn (expand shortHash entities relations maxDepth)) turns
      ⟨[start root rootEntity], []⟩).map fun state =>
        Sorted.sortByKey TransmissionPath.order state.output

end

/-- A relation with the status of its row. -/
structure StoredRelation where
  relation : GlobalRelation
  status : String

def StoredRelation.activeAt (asOf : ℤ) (row : StoredRelation) : Bool :=
  row.status = "active" && row.relation.validFrom ≤ asOf && row.relation.validTo.all (asOf < ·)

/-- `transmission_paths`, over the rows of both tables. -/
def transmissionPaths (shortHash : String → String) (turns : ℕ) (entityRows : List GlobalEntity)
    (relationRows : List StoredRelation) (root : String) (asOf : ℤ) (maxDepth : ℕ) :
    Option (List TransmissionPath) :=
  buildPaths shortHash (Table.find GlobalEntity.entityId · entityRows)
    ((relationRows.filter (·.activeAt asOf)).map (·.relation)) (max 1 (min maxDepth 8)) turns root

end Astock.Global
