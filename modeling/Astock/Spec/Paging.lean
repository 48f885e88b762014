import Astock.Lib.Machine
import Astock.Lib.Keyset
import Astock.Spec.StoreCalls
import Mathlib.Data.Prod.Lex
import Mathlib.Data.String.Basic

/-!
# Reading the store page by page

`list_effects` and `load_task` of `crates/engine/src/event_store.rs`. Both read one
row more than a page holds, to tell whether there is a next page, and hand out a
cursor for it: the key of the last effect shown, or the sequence number of the
earliest event shown.
-/

namespace Astock

/-- `astock_protocol::MAX_PAGE_SIZE`. -/
def maxPageSize : ℕ := 500

/-- `limit.clamp(1, MAX_PAGE_SIZE)`. -/
def clampLimit (limit : ℕ) : ℕ := max 1 (min limit maxPageSize)

/-- What `validate_identity` accepts, or its complaint. -/
def checkIdentity (value name : String) : Except String Unit :=
  if ValidIdentity value then .ok () else .error (StoreError.identity name).message

/-! ## Effects -/

/-- The order of `ORDER BY caused_by_seq ASC, effect_id ASC`. -/
def EffectRow.position (row : EffectRow) : ℤ ×ₗ String := toLex (row.causedBySeq, row.effectId)

structure EffectPage where
  items : List EffectRow
  nextAfterCausedBySeq : Option ℤ
  nextAfterEffectId : Option String
  deriving DecidableEq

/-- The rows of the query of `list_effects`, at most `count`. -/
def EngineStore.effectsAfter (s : EngineStore) (taskId : String) (afterSeq : ℤ)
    (afterEffectId : String) (count : ℕ) : List EffectRow :=
  ((s.effects.filter fun row => row.taskId = taskId ∧
    (afterSeq < row.causedBySeq ∨ row.causedBySeq = afterSeq ∧ afterEffectId < row.effectId)
    ).insertionSort fun a b => a.position ≤ b.position).take count

def listEffects (s : EngineStore) (taskId : String) (limit : ℕ) (after : Option (ℤ × String)) :
    Except String EffectPage := do
  checkIdentity taskId "task_id"
  let limit := clampLimit limit
  let (afterSeq, afterEffectId) := after.getD (-1, "")
  if afterSeq < -1 then
    throw "after_caused_by_seq must be at least -1"
  if afterEffectId ≠ "" then
    checkIdentity afterEffectId "after_effect_id"
  let items := s.effectsAfter taskId afterSeq afterEffectId (limit + 1)
  if limit < items.length then
    let items := items.take limit
    pure {
      items
      nextAfterCausedBySeq := items.getLast?.map (·.causedBySeq)
      nextAfterEffectId := items.getLast?.map (·.effectId) }
  else
    pure { items, nextAfterCausedBySeq := none, nextAfterEffectId := none }

/-! ## Events -/

structure LoadedTask where
  task : TaskRow
  events : List EventRow
  eventsTruncated : Bool
  nextBeforeSeq : Option ℤ
  deriving DecidableEq

/-- The rows of the query of `load_task`, latest first, at most `count`. -/
def EngineStore.eventsBefore (s : EngineStore) (taskId : String) (beforeSeq : ℤ) (count : ℕ) :
    List EventRow :=
  ((s.events.filter fun row => row.taskId = taskId ∧ row.seq < beforeSeq).insertionSort
    fun a b => b.seq ≤ a.seq).take count

def loadTask (s : EngineStore) (taskId : String) (eventLimit : ℕ) (eventBeforeSeq : Option ℤ) :
    Except String LoadedTask := do
  checkIdentity taskId "task_id"
  let limit := clampLimit eventLimit
  match s.taskOf taskId with
  | none => throw StoreError.taskNotFound.message
  | some task =>
    let events := s.eventsBefore task.taskId (eventBeforeSeq.getD i64Max) (limit + 1)
    if limit < events.length then
      let events := events.take limit
      pure {
        task, events := events.reverse, eventsTruncated := true
        nextBeforeSeq := events.getLast?.map (·.seq) }
    else
      pure { task, events := events.reverse, eventsTruncated := false, nextBeforeSeq := none }

/-! ## Walks -/

/-- Follow the cursors of `list_effects`, each request served from the next of the
given stores. With the pages comes whether the walk has ended. -/
def walkEffects (taskId : String) (limit : ℕ) :
    Option (ℤ × String) → List EngineStore → Except String (List (List EffectRow) × Bool)
  | _, [] => .ok ([], false)
  | after, s :: rest => do
    let page ← listEffects s taskId limit after
    match page.nextAfterCausedBySeq, page.nextAfterEffectId with
    | some seq, some effectId => do
      let (pages, ended) ← walkEffects taskId limit (some (seq, effectId)) rest
      pure (page.items :: pages, ended)
    | _, _ => pure ([page.items], true)

/-- Follow `next_before_seq` backwards. -/
def walkEvents (taskId : String) (limit : ℕ) :
    Option ℤ → List EngineStore → Except String (List (List EventRow) × Bool)
  | _, [] => .ok ([], false)
  | before, s :: rest => do
    let loaded ← loadTask s taskId limit before
    match loaded.nextBeforeSeq with
    | some seq => do
      let (pages, ended) ← walkEvents taskId limit (some seq) rest
      pure (loaded.events :: pages, ended)
    | none => pure ([loaded.events], true)

/-- The stores that requests meet, when the given calls are made before each. -/
def EngineStore.history (P : Platform) (s : EngineStore) : List (List StoreCall) → List EngineStore
  | [] => []
  | cs :: rest => s.afterAll P cs :: history P (s.afterAll P cs) rest

/-- The size of the largest database file that SQLite keeps. -/
def maxDatabaseBytes : ℕ := 281474976710656

/-- Each event takes at least one byte of the database. -/
def EngineStore.Fits (s : EngineStore) : Prop := s.events.length ≤ maxDatabaseBytes

instance (s : EngineStore) : Decidable s.Fits := inferInstanceAs (Decidable (_ ≤ _))

end Astock
