import Astock.Lib.Run
import Astock.Spec.Global

/-!
# Reading observations back

The conflict branch of the upsert sets the value of an observation and leaves its scale, its unit and its
currency.

* `ingest_cases`: a call changes nothing, or it puts its row into the table.
* `denotes_updated_iff`: when a stored row that takes a new value denotes what was ingested.
* `readsLatest_ingest_iff`: when the table still reads back after a call.
* `observations_read_back_iff`: **every observation reads back as ingested** over a run, exactly if every
  call for a stored key declares the unit, the currency and the scale of the row.
-/

namespace Astock.Global

open Prog Run

variable {digest : String → String} {env : Env} {input : ObservationInput} {rows rows' : Store}
  {old : Observation} {history : List ObservationInput}

/-- The quantity that an observation stands for. -/
def ObservationInput.quantity (o : ObservationInput) : Option ℚ :=
  o.valueScaled.map fun (value : ℤ) => (value : ℚ) / o.scale

/-- A stored row denotes what was ingested. -/
structure Observation.Denotes (row : Observation) (input : ObservationInput) : Prop where
  quantity : row.input.quantity = input.quantity
  unit : row.input.unitOriginal = input.unitOriginal
  currency : row.input.currencyOriginal = input.currencyOriginal
  released : row.input.releasedAtUtc = input.releasedAtUtc

/-- The latest of the ingested observations with a key. -/
def latest (k : String × String × String × ℕ) (history : List ObservationInput) : Option ObservationInput :=
  (history.filter fun o => o.key = k).getLast?

/-- Every key reads back what was ingested for it last. -/
def ReadsLatest (rows : Store) (history : List ObservationInput) : Prop :=
  ∀ k input, latest k history = some input →
    ∃ row, Table.find Observation.key k rows = some row ∧ row.Denotes input

/-- What is stored for the key was declared in the same unit, currency and scale; the scale does not matter
for a value that is missing or zero. -/
def Agrees (rows : Store) (input : ObservationInput) : Prop :=
  ∀ old, Table.find Observation.key input.key rows = some old →
    old.input.unitOriginal = input.unitOriginal ∧ old.input.currencyOriginal = input.currencyOriginal ∧
      (input.valueScaled = none ∨ input.valueScaled = some 0 ∨ old.input.scale = input.scale)

/-! ## One call -/

/-- **A call** is refused and changes nothing, or it puts its row into the table. -/
theorem ingest_cases (digest : String → String) (env : Env) (input : ObservationInput) (rows : Store) :
    (∃ e, exec (ingestObservation digest env input) rows = (.error e, rows)) ∨
      0 < input.scale ∧ exec (ingestObservation digest env input) rows = (.ok (input.id digest),
        Table.upsertWith Observation.key Observation.updated (input.row digest env) rows) := by
  unfold ingestObservation
  rw [exec_guardOr_bind]
  split
  · next hdeclared =>
    rw [exec_guardOr_bind]
    split
    · rw [exec_bind_ok (exec_get rows), exec_guardOr_bind]
      split
      · exact .inr ⟨of_decide_eq_true (Bool.and_eq_true_iff.1 hdeclared).1, rfl⟩
      · exact .inl ⟨_, rfl⟩
    · exact .inl ⟨_, rfl⟩
  · exact .inl ⟨_, rfl⟩

theorem key_updated (old new : Observation) (h : old.key = new.key) : (old.updated new).key = new.key := h

theorem denotes_row : (input.row digest env).Denotes input := ⟨rfl, rfl, rfl, rfl⟩

/-- A value stands for the same quantity in two scales only if it is zero. -/
theorem quantity_eq_iff {value a b : ℤ} (ha : 0 < a) (hb : 0 < b) :
    (value : ℚ) / a = value / b ↔ value = 0 ∨ a = b := by
  have ha' : (a : ℚ) ≠ 0 := Int.cast_ne_zero.2 ha.ne'
  have hb' : (b : ℚ) ≠ 0 := Int.cast_ne_zero.2 hb.ne'
  rw [div_eq_div_iff ha' hb', mul_comm (value : ℚ) b, mul_comm (value : ℚ) a, mul_eq_mul_right_iff,
    Int.cast_eq_zero, Int.cast_inj]
  constructor
  · rintro (h | h)
    · exact .inr h.symm
    · exact .inl h
  · rintro (h | h)
    · exact .inr h
    · exact .inl h.symm

/-- **A stored row that takes a new value** denotes what was ingested exactly if both were declared alike. -/
theorem denotes_updated_iff (hold : 0 < old.input.scale) (hscale : 0 < input.scale) :
    (old.updated (input.row digest env)).Denotes input ↔
      old.input.unitOriginal = input.unitOriginal ∧ old.input.currencyOriginal = input.currencyOriginal ∧
        (input.valueScaled = none ∨ input.valueScaled = some 0 ∨ old.input.scale = input.scale) := by
  have hquantity : (old.updated (input.row digest env)).input.quantity = input.quantity ↔
      (input.valueScaled = none ∨ input.valueScaled = some 0 ∨ old.input.scale = input.scale) := by
    show input.valueScaled.map (fun (value : ℤ) => (value : ℚ) / old.input.scale) =
      input.valueScaled.map (fun (value : ℤ) => (value : ℚ) / input.scale) ↔ _
    cases input.valueScaled with
    | none => exact ⟨fun _ => .inl rfl, fun _ => rfl⟩
    | some value =>
      rw [Option.map_some, Option.map_some, Option.some_inj, quantity_eq_iff hold hscale]
      simp
  constructor
  · intro h
    exact ⟨h.unit, h.currency, hquantity.1 h.quantity⟩
  · rintro ⟨hunit, hcurrency, h⟩
    exact ⟨hquantity.2 h, hunit, hcurrency, rfl⟩

/-! ## A run of calls -/

theorem latest_snoc (k : String × String × String × ℕ) : latest k (history ++ [input]) =
    if input.key = k then some input else latest k history := by
  have hone : [input].filter (fun o => o.key = k) = if input.key = k then [input] else [] := by
    by_cases h : input.key = k
    · simp [h]
    · simp [h]
  unfold latest
  rw [List.filter_append, hone]
  split
  · rw [List.getLast?_append]
    rfl
  · rw [List.append_nil]

/-- The declared scales of the stored rows are positive. -/
def ScalesOK (rows : Store) : Prop := ∀ row ∈ rows, 0 < row.input.scale

theorem ScalesOK.upsert (h : ScalesOK rows) (hscale : 0 < input.scale) :
    ScalesOK (Table.upsertWith Observation.key Observation.updated (input.row digest env) rows) := by
  intro row hrow
  rcases (Table.mem_upsertWith key_updated).1 hrow with rfl | ⟨hrow, -⟩
  · cases hfind : Table.find Observation.key (input.row digest env).key rows with
    | none =>
      rw [Table.merged_of_none hfind]
      exact hscale
    | some old =>
      rw [Table.merged_of_some hfind]
      exact h old (Table.mem_of_find hfind)
  · exact h row hrow

/-- **After a call** every key still reads back exactly if the call agrees with what is stored for its key. -/
theorem readsLatest_ingest_iff (hrows : ScalesOK rows) (hreads : ReadsLatest rows history)
    (hscale : 0 < input.scale) :
    ReadsLatest (Table.upsertWith Observation.key Observation.updated (input.row digest env) rows)
      (history ++ [input]) ↔ Agrees rows input := by
  have hself := Table.find_upsertWith_self key_updated (input.row digest env) rows
  have hmerged : (Table.merged Observation.key Observation.updated (input.row digest env) rows).Denotes input ↔
      Agrees rows input := by
    unfold Agrees
    cases hfind : Table.find Observation.key input.key rows with
    | none =>
      rw [Table.merged_of_none hfind]
      exact ⟨fun _ _ h => absurd h.symm (Option.some_ne_none _), fun _ => denotes_row⟩
    | some old =>
      rw [Table.merged_of_some hfind, denotes_updated_iff (hrows old (Table.mem_of_find hfind)) hscale]
      exact ⟨fun h _ heq => Option.some_inj.1 heq ▸ h, fun h => h old rfl⟩
  rw [← hmerged]
  constructor
  · intro h
    obtain ⟨row, hrow, hdenotes⟩ := h input.key input (by rw [latest_snoc, if_pos rfl])
    rw [← Option.some_inj.1 (hself.symm.trans hrow)] at hdenotes
    exact hdenotes
  · intro h k input' hlatest
    rw [latest_snoc] at hlatest
    by_cases hk : input.key = k
    · rw [if_pos hk] at hlatest
      cases hlatest
      exact ⟨_, hk ▸ hself, h⟩
    · -- another key keeps its row
      rw [if_neg hk] at hlatest
      have hne : k ≠ (input.row digest env).key := fun heq => hk heq.symm
      rw [Table.find_upsertWith_of_ne key_updated hne]
      exact hreads k input' hlatest

/-- The table and the successful calls so far. -/
def ingested (digest : String → String) (s : Store × List ObservationInput) (call : Env × ObservationInput) :
    Store × List ObservationInput :=
  let r := exec (ingestObservation digest call.1 call.2) s.1
  (r.2, if r.1.isOk then s.2 ++ [call.2] else s.2)

/-- A call succeeds only if it agrees with what is stored for its key. -/
def SucceedsInAgreement (digest : String → String) (s : Store × List ObservationInput)
    (call : Env × ObservationInput) : Prop :=
  (exec (ingestObservation digest call.1 call.2) s.1).1.isOk = true → Agrees s.1 call.2

/-- **Observations read back as ingested**: after every call of a run, every key denotes the latest
successful call for it, exactly if each successful call agrees with what is stored for its key. -/
theorem observations_read_back_iff (digest : String → String) (calls : List (Env × ObservationInput)) :
    Along (ingested digest) (fun s call =>
        ReadsLatest (ingested digest s call).1 (ingested digest s call).2) ([], []) calls ↔
      Along (ingested digest) (SucceedsInAgreement digest) ([], []) calls := by
  have hcases : ∀ (s : Store × List ObservationInput) (call : Env × ObservationInput),
      ScalesOK s.1 ∧ ReadsLatest s.1 s.2 → ScalesOK (ingested digest s call).1 ∧
        (ReadsLatest (ingested digest s call).1 (ingested digest s call).2 ↔
          SucceedsInAgreement digest s call) := by
    rintro ⟨rows, history⟩ ⟨env, input⟩ ⟨hscales, hreads⟩
    unfold ingested SucceedsInAgreement
    rcases ingest_cases digest env input rows with ⟨e, hexec⟩ | ⟨hscale, hexec⟩
    · simp only [hexec]
      exact ⟨hscales, fun _ h => absurd h Bool.false_ne_true, fun _ => hreads⟩
    · simp only [hexec]
      refine ⟨hscales.upsert hscale, ?_⟩
      refine (readsLatest_ingest_iff hscales hreads hscale).trans ?_
      exact ⟨fun h _ => h, fun h => h rfl⟩
  refine along_iff (I := fun s => ScalesOK s.1 ∧ ReadsLatest s.1 s.2) ?_ ?_ calls _ ⟨?_, ?_⟩
  · exact fun s call hok hs => ⟨(hcases s call hs).1, hok⟩
  · exact fun s call hs => (hcases s call hs).2
  · exact fun _ h => absurd h List.not_mem_nil
  · exact fun _ _ h => by cases h

private def archived : Env := ⟨100, fun _ _ => some true, []⟩

private def gdp (value scale : ℤ) : Env × ObservationInput :=
  (archived, ⟨"d", none, "gdp", "2024", some value, scale, none, "percent", none, 50, 1, none, "v"⟩)

/-- The value 12.34 is corrected to 12.345 with a finer scale, and is read as 123.45. -/
theorem corrected_in_another_scale : ¬ ∀ (digest : String → String) (calls : List (Env × ObservationInput)),
    Along (ingested digest) (fun s call =>
      ReadsLatest (ingested digest s call).1 (ingested digest s call).2) ([], []) calls := by
  intro h
  have hreads := (h id [gdp 1234 100, gdp 12345 1000]).2.1
  obtain ⟨row, hrow, hdenotes⟩ := hreads ("d", "gdp", "2024", 1) (gdp 12345 1000).2 (by decide)
  have hstored : (Table.find Observation.key ("d", "gdp", "2024", 1)
      (ingested id (ingested id ([], []) (gdp 1234 100)) (gdp 12345 1000)).1).map (·.input.quantity) =
        some (some (12345 / 100)) := by
    decide +kernel
  rw [hrow, Option.map_some, hdenotes.quantity] at hstored
  exact absurd hstored (by decide +kernel)

end Astock.Global
