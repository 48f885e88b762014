import Astock.Lib.Run
import Astock.Lib.Table

/-!
# The bar store and its cache

`crates/storage/src/timeseries.rs` with `load_bars`, `merge_and_write_bars` and `cleanup` of
`crates/storage/src/lib.rs`: one file for each key, and a cache of what was read from them. File
work runs on a thread pool, so calls interleave between a read, a write and what they do to the
cache. A path is the list of its components; files are replaced by a rename. The clock counts
steps, and only dates them.
-/

namespace Astock

variable {F : Type}

structure BarKey where
  symbol : String
  period : String
  adjust : String
  deriving DecidableEq, Repr

/-- A trading day, as its number. -/
structure BarRow (F : Type) where
  date : ℤ
  openPrice : F
  high : F
  low : F
  close : F
  volume : F
  amount : Option F
  turnover : Option F
  source : String
  fetchedAt : ℤ
  deriving DecidableEq, Repr

/-! ## Paths -/

def sanitizeComponent (raw : String) : String :=
  String.ofList (raw.toList.map fun c =>
    if c.isAlphanum || c = '.' || c = '_' || c = '-' then c else '_')

/-- Where a path leads from a directory. -/
def resolvePath (dir components : List String) : List String :=
  components.foldl (fun path c =>
    if c = "" ∨ c = "." then path else if c = ".." then path.dropLast else path ++ [c]) dir

def barPath (root : List String) (key : BarKey) : List String :=
  resolvePath root [sanitizeComponent key.symbol, sanitizeComponent key.period,
    sanitizeComponent key.adjust ++ ".parquet"]

/-- The key of the cache. -/
def BarKey.cacheKey (key : BarKey) : String := key.symbol ++ "|" ++ key.period ++ "|" ++ key.adjust

/-! ## Calls -/

/-- Rows are keyed by date, new rows override old ones, and the result is sorted. -/
def mergeBars (loaded newBars : List (BarRow F)) : List (BarRow F) :=
  Table.insertAll BarRow.date newBars (Table.insertAll BarRow.date loaded [])

inductive LoadPhase (F : Type)
  | lookup
  | read
  | insert (readAt : ℕ) (rows : List (BarRow F))
  | returned (time : ℕ) (rows : List (BarRow F))
  deriving DecidableEq, Repr

/-- A call of `load_bars`. -/
structure BarLoad (F : Type) where
  key : BarKey
  startedAt : ℕ
  phase : LoadPhase F := .lookup
  deriving DecidableEq, Repr

inductive MergePhase (F : Type)
  | read
  | replace (loaded : List (BarRow F))
  | invalidate (replacedAt count : ℕ)
  | returned (replacedAt time count : ℕ)
  deriving DecidableEq, Repr

/-- A call of `merge_and_write_bars`. -/
structure BarMerge (F : Type) where
  key : BarKey
  newBars : List (BarRow F)
  startedAt : ℕ
  phase : MergePhase F := .read
  deriving DecidableEq, Repr

/-- A call of `cleanup` that is over its target: one that is not leaves files and bars alone. -/
structure BarCleanup where
  removed : List (ℕ × List String) := []
  returned : Bool := false
  deriving DecidableEq, Repr

structure BarStore (F : Type) where
  clock : ℕ := 0
  files : List String → Option (List (BarRow F)) := fun _ => none
  cache : String → Option (List (BarRow F)) := fun _ => none
  loads : List (BarLoad F) := []
  merges : List (BarMerge F) := []
  cleanups : List BarCleanup := []

inductive BarMove (F : Type)
  | load (key : BarKey)
  /-- The next step of a load; where it puts what it read, a full cache gives up `evicted`. -/
  | stepLoad (i : ℕ) (evicted : Option String)
  | merge (key : BarKey) (newBars : List (BarRow F))
  | stepMerge (i : ℕ)
  | cleanup
  /-- A cleanup removes a file that it found under the root. -/
  | remove (i : ℕ) (path : List String)
  | clear (i : ℕ)
  deriving DecidableEq, Repr

namespace BarStore

/-- What is read from a file: nothing when it is absent. -/
def contents (s : BarStore F) (path : List String) : List (BarRow F) := (s.files path).getD []

def setLoad (s : BarStore F) (i : ℕ) (phase : LoadPhase F) : BarStore F :=
  { s with loads := s.loads.modify i fun c => { c with phase := phase } }

def setMerge (s : BarStore F) (i : ℕ) (phase : MergePhase F) : BarStore F :=
  { s with merges := s.merges.modify i fun c => { c with phase := phase } }

def setCleanup (s : BarStore F) (i : ℕ) (cleanup : BarCleanup) : BarStore F :=
  { s with cleanups := s.cleanups.set i cleanup }

def setFile (s : BarStore F) (path : List String) (rows : Option (List (BarRow F))) : BarStore F :=
  { s with files := Function.update s.files path rows }

def setCache (s : BarStore F) (key : String) (rows : Option (List (BarRow F))) : BarStore F :=
  { s with cache := Function.update s.cache key rows }

def evict (s : BarStore F) : Option String → BarStore F
  | some key => s.setCache key none
  | none => s

def stepLoad (root : List String) (s : BarStore F) (i : ℕ) (c : BarLoad F) (evicted : Option String) :
    BarStore F :=
  match c.phase with
  | .lookup =>
    match s.cache c.key.cacheKey with
    | some rows => s.setLoad i (.returned s.clock rows)
    | none => s.setLoad i .read
  | .read => s.setLoad i (.insert s.clock (s.contents (barPath root c.key)))
  | .insert _ rows =>
    ((s.evict evicted).setCache c.key.cacheKey (some rows)).setLoad i (.returned s.clock rows)
  | .returned _ _ => s

def stepMerge (root : List String) (s : BarStore F) (i : ℕ) (c : BarMerge F) : BarStore F :=
  match c.phase with
  | .read => s.setMerge i (.replace (s.contents (barPath root c.key)))
  | .replace loaded =>
    let merged := mergeBars loaded c.newBars
    (s.setFile (barPath root c.key) (some merged)).setMerge i (.invalidate s.clock merged.length)
  | .invalidate replacedAt count =>
    (s.setCache c.key.cacheKey none).setMerge i (.returned replacedAt s.clock count)
  | .returned _ _ _ => s

def act (root : List String) (s : BarStore F) : BarMove F → BarStore F
  | .load key => { s with loads := s.loads ++ [{ key := key, startedAt := s.clock }] }
  | .stepLoad i evicted =>
    match s.loads[i]? with
    | some c => s.stepLoad root i c evicted
    | none => s
  | .merge key newBars =>
    { s with merges := s.merges ++ [{ key := key, newBars := newBars, startedAt := s.clock }] }
  | .stepMerge i =>
    match s.merges[i]? with
    | some c => s.stepMerge root i c
    | none => s
  | .cleanup => { s with cleanups := s.cleanups ++ [{}] }
  | .remove i path =>
    match s.cleanups[i]? with
    | some c =>
      if c.returned = false ∧ root <+: path then
        (s.setFile path none).setCleanup i { c with removed := c.removed ++ [(s.clock, path)] }
      else s
    | none => s
  | .clear i =>
    match s.cleanups[i]? with
    | some c =>
      if c.returned = false then
        { s with cache := fun _ => none }.setCleanup i { c with returned := true }
      else s
    | none => s

def step (root : List String) (s : BarStore F) (move : BarMove F) : BarStore F :=
  { s.act root move with clock := s.clock + 1 }

end BarStore

end Astock
