import Astock.Lib.Prog
import Astock.Spec.ReportGate

/-!
# What the publication gate lets through

* `passed_iff`: a report passes exactly when every figure is supported on its own line and every
  citation can be relied on.
* `collectRegistries_eq`: the registries of a context are its registrations, one by one.
* `supported_perm`: the order of the registrations does not count.
* `gate_sound`: both for a whole request.
-/

namespace Astock.Report

variable {F : Type} [PrintedFloat F] {reader : FigureReader F}

/-- The lines that the verifier reads. -/
def reportLines (report : String) : List String := Text.lines (Text.trim report)

/-- A fact that a report can cite. -/
structure Citable (fact : EvidenceFact) : Prop where
  unblocked : fact.qualityBlocking = false
  /-- Only a calculation needs no time, version and source. -/
  traced : fact.source ≠ "astock-compute" →
    isMissing fact.observedAt = false ∧ isMissing fact.sourceVersionId = false ∧
      Text.trim fact.source ≠ ""

variable (reader) in
/-- **What a published report promises.** -/
structure Supported (context : ReportContext) (report : String) : Prop where
  figures : ∀ line ∈ reportLines report, ∀ numeral ∈ reader.financialNumerals line,
    ∃ id ∈ citations line, ∃ fact, context.get id = some fact ∧
      factSupportsNumeral reader fact numeral = true
  cited : ∀ line ∈ reportLines report, ∀ id ∈ citations line,
    id ∉ context.registryConflicts ∧ ∃ fact, context.get id = some fact ∧ Citable fact
  distinct : minimumCitations context ≤ ((reportLines report).flatMap citations).dedup.length
  stated : ∃ line ∈ reportLines report, reader.financialNumerals line ≠ []

/-! ## The verdict -/

theorem citationFinding_eq_nil {context : ReportContext} {id : String} :
    citationFinding context id = [] ↔
      id ∉ context.registryConflicts ∧ ∃ fact, context.get id = some fact ∧ Citable fact := by
  rw [citationFinding]
  by_cases hconflict : id ∈ context.registryConflicts
  · simp [hconflict]
  rw [if_neg hconflict]
  cases hget : context.get id with
  | none => simp
  | some fact =>
    have hclear : (∃ fact', some fact = some fact' ∧ Citable fact') ↔ Citable fact := by simp
    simp only [hclear, hconflict, not_false_eq_true, true_and]
    split
    · rename_i hblocking
      exact ⟨(fun h => nomatch h), fun h => absurd hblocking (by simp [h.unblocked])⟩
    rename_i hblocking
    have hunblocked : fact.qualityBlocking = false := by simpa using hblocking
    split
    · rename_i hderived
      exact ⟨fun _ => ⟨hunblocked, fun hsource => absurd hderived hsource⟩, fun _ => rfl⟩
    rename_i hsource
    split
    · rename_i htime
      exact ⟨(fun h => nomatch h), fun h => absurd htime (by simp [(h.traced hsource).1])⟩
    rename_i htime
    split
    · rename_i hversion
      exact ⟨(fun h => nomatch h), fun h => absurd hversion (by simp [(h.traced hsource).2.1])⟩
    rename_i hversion
    split
    · rename_i hblank
      exact ⟨(fun h => nomatch h), fun h => absurd hblank (h.traced hsource).2.2⟩
    · rename_i hblank
      refine ⟨fun _ => ⟨hunblocked, fun _ => ⟨?_, ?_, hblank⟩⟩, fun _ => rfl⟩
      · simpa using htime
      · simpa using hversion

theorem numericFindings_eq_nil {context : ReportContext} {index : ℕ} {line : String} :
    numericFindings reader context index line = [] ↔
      ∀ numeral ∈ reader.financialNumerals line, ∃ id ∈ citations line,
        ∃ fact, context.get id = some fact ∧ factSupportsNumeral reader fact numeral = true := by
  rw [numericFindings]
  by_cases hclaims : reader.financialNumerals line = []
  · simp [hclaims]
  simp only [if_neg hclaims]
  by_cases hids : citations line = []
  · rw [if_pos hids]
    refine ⟨(fun h => nomatch h), fun h => ?_⟩
    obtain ⟨numeral, hnumeral⟩ := List.exists_mem_of_ne_nil _ hclaims
    obtain ⟨id, hid, -⟩ := h numeral hnumeral
    rw [hids] at hid
    cases hid
  · simp only [if_neg hids, List.map_eq_nil_iff, List.filter_eq_nil_iff]
    refine forall₂_congr fun numeral _ => ?_
    simp [Option.any_eq_true]

theorem lineFindings_eq_nil {context : ReportContext} {lines : List String} :
    lineFindings reader context lines = [] ↔ ∀ line ∈ lines,
      (∀ id ∈ citations line, citationFinding context id = []) ∧
        ∀ numeral ∈ reader.financialNumerals line, ∃ id ∈ citations line,
          ∃ fact, context.get id = some fact ∧ factSupportsNumeral reader fact numeral = true := by
  rw [lineFindings, List.flatten_eq_nil_iff]
  constructor
  · intro h line hline
    obtain ⟨index, hindex, rfl⟩ := List.mem_iff_getElem.1 hline
    have hnil := h _ (List.mem_mapIdx.2 ⟨index, hindex, rfl⟩)
    rw [List.append_eq_nil_iff, List.flatMap_eq_nil_iff] at hnil
    exact ⟨hnil.1, numericFindings_eq_nil.1 hnil.2⟩
  · intro h findings hfindings
    obtain ⟨index, hindex, rfl⟩ := List.mem_mapIdx.1 hfindings
    obtain ⟨hcited, hfigures⟩ := h _ (List.getElem_mem hindex)
    rw [List.append_eq_nil_iff, List.flatMap_eq_nil_iff]
    exact ⟨hcited, numericFindings_eq_nil.2 hfigures⟩

/-- **A report passes exactly when it keeps the promise.** -/
theorem passed_iff {context : ReportContext} {report : String} {v : Verification}
    (h : verify reader context report = .ok v) : v.passed = true ↔ Supported reader context report := by
  rw [verify] at h
  split at h
  · cases h
  obtain rfl := Except.ok.inj h
  simp only [List.isEmpty_iff, List.append_eq_nil_iff, ite_eq_right_iff, List.cons_ne_self, imp_false,
    lineFindings_eq_nil, Nat.not_lt]
  have hstated : (¬ ((reportLines report).map fun line => (reader.financialNumerals line).length).sum = 0) ↔
      ∃ line ∈ reportLines report, reader.financialNumerals line ≠ [] := by
    simp [List.sum_eq_zero_iff]
  constructor
  · rintro ⟨⟨hlines, hdistinct⟩, hnonzero⟩
    refine ⟨fun line hline => (hlines line hline).2, fun line hline id hid => ?_, hdistinct,
      hstated.1 hnonzero⟩
    exact citationFinding_eq_nil.1 ((hlines line hline).1 id hid)
  · intro hsupported
    refine ⟨⟨fun line hline => ⟨fun id hid => ?_, hsupported.figures line hline⟩, hsupported.distinct⟩,
      hstated.2 hsupported.stated⟩
    exact citationFinding_eq_nil.2 (hsupported.cited line hline id hid)

/-! ## The registries of a context -/

mutual
/-- The facts that the registries of a document register, in their order. -/
def registrations : Json → List EvidenceFact
  | .obj fields =>
    (registryRows (.obj fields)).filterMap EvidenceFact.ofJson ++ registrationsChildren fields
  | .arr items => registrationsEach items
  | _ => []
def registrationsChildren : List (String × Json) → List EvidenceFact
  | [] => []
  | (key, child) :: rest =>
    (if key = "evidence_registry" then [] else registrations child) ++ registrationsChildren rest
def registrationsEach : List Json → List EvidenceFact
  | [] => []
  | child :: rest => registrations child ++ registrationsEach rest
end

/-- One registration. -/
def registerFact : Registries → EvidenceFact → Registries :=
  Registry.register EvidenceFact.evidenceId asserts observedAt isRegistrable

theorem foldl_registerRow (rows : List Json) :
    ∀ r : Registries, rows.foldl registerRow r =
      (rows.filterMap EvidenceFact.ofJson).foldl registerFact r := by
  induction rows with
  | nil => exact fun _ => rfl
  | cons row rows ih =>
    intro r
    rw [List.foldl_cons, ih, registerRow]
    cases h : EvidenceFact.ofJson row with
    | none => rw [List.filterMap_cons_none h]
    | some fact => rw [List.filterMap_cons_some h, List.foldl_cons]; rfl

mutual
/-- **The registries of a context** are its registrations, one by one. -/
theorem collectRegistries_eq : ∀ (value : Json) (r : Registries),
    collectRegistries value r = (registrations value).foldl registerFact r
  | .obj fields, r => by
    rw [collectRegistries, registrations, List.foldl_append, foldl_registerRow,
      collectChildren_eq]
  | .arr items, r => by rw [collectRegistries, registrations, collectEach_eq]
  | .null, r => rfl
  | .bool _, r => rfl
  | .num _, r => rfl
  | .str _, r => rfl
theorem collectChildren_eq : ∀ (fields : List (String × Json)) (r : Registries),
    collectChildren fields r = (registrationsChildren fields).foldl registerFact r
  | [], r => rfl
  | (key, child) :: rest, r => by
    rw [collectChildren, registrationsChildren, List.foldl_append, collectChildren_eq rest]
    split
    · rfl
    · rw [collectRegistries_eq child r]
theorem collectEach_eq : ∀ (items : List Json) (r : Registries),
    collectEach items r = (registrationsEach items).foldl registerFact r
  | [], r => rfl
  | child :: rest, r => by
    rw [collectEach, registrationsEach, List.foldl_append, collectEach_eq rest,
      collectRegistries_eq child r]
end

theorem collectRegistries_sums (context : Json) :
    Registry.Sums EvidenceFact.evidenceId asserts observedAt isRegistrable (registrations context)
      (collectRegistries context {}) := by
  rw [collectRegistries_eq]
  exact Registry.sums _

/-! ## The order of the registrations -/

theorem observedAt_inj {f g : EvidenceFact} (h : observedAt f = observedAt g) :
    f.observedAt = g.observedAt := by
  rw [observedAt, observedAt] at h
  cases hf : f.observedAt <;> cases hg : g.observedAt <;> simp_all

theorem Citable.congr {f g : EvidenceFact} (hf : Citable f) (hasserts : asserts g = asserts f)
    (htime : observedAt g = observedAt f) : Citable g := by
  have hsource : g.source = f.source := congrArg Assertion.source hasserts
  have hblocking : g.qualityBlocking = f.qualityBlocking := congrArg Assertion.qualityBlocking hasserts
  have hversion : g.sourceVersionId = f.sourceVersionId := congrArg Assertion.sourceVersionId hasserts
  refine ⟨hblocking.trans hf.unblocked, fun hderived => ?_⟩
  rw [hsource, hversion, observedAt_inj htime]
  rw [hsource] at hderived
  exact hf.traced hderived

variable (reader) in
/-- A negative zero supports what a zero does. -/
def SignlessZero : Prop :=
  ∀ numeral : ReportNumeral F, numeral.supportedBy (reader.asF64 (.float "-0.0")) =
    numeral.supportedBy (reader.asF64 (.float "0.0"))

theorem supportedBy_unsignZero (hzero : SignlessZero reader) (numeral : ReportNumeral F) (n : Number) :
    numeral.supportedBy (reader.asF64 (unsignZero n)) = numeral.supportedBy (reader.asF64 n) := by
  rw [unsignZero.eq_def]
  split
  · exact (hzero numeral).symm
  · rfl

theorem factSupportsNumeral_congr (hzero : SignlessZero reader) {f g : EvidenceFact}
    (hasserts : asserts g = asserts f) (numeral : ReportNumeral F) :
    factSupportsNumeral reader g numeral = factSupportsNumeral reader f numeral := by
  have hpath : g.path = f.path := congrArg Assertion.path hasserts
  have hvalue : compared g.value = compared f.value := congrArg Assertion.value hasserts
  rw [factSupportsNumeral, factSupportsNumeral, hpath]
  cases hg : g.value <;> cases hf : f.value <;> rw [hg, hf] at hvalue <;>
    simp only [compared, reduceCtorEq, Json.num.injEq, Json.str.injEq] at hvalue <;> try rfl
  · rename_i m n
    have h := congrArg (fun n => numeral.supportedBy (reader.asF64 n)) hvalue
    simp only [supportedBy_unsignZero hzero] at h
    exact h
  · rw [hvalue]

/-- **The promise does not depend on the order of the registrations.** -/
theorem supported_perm (hzero : SignlessZero reader) {payload : VerifyReportPayload} {context : Json}
    (hperm : (registrations payload.context).Perm (registrations context))
    (h : Supported reader payload.researchContext payload.report) :
    Supported reader { payload with context }.researchContext payload.report := by
  have hsums := collectRegistries_sums payload.context
  have hsums' := collectRegistries_sums context
  have hkept : ∀ {id fact}, id ∉ payload.researchContext.registryConflicts →
      payload.researchContext.get id = some fact →
      ∃ fact', { payload with context }.researchContext.get id = some fact' ∧
        asserts fact' = asserts fact ∧ observedAt fact' = observedAt fact :=
    fun hclear hget => Registry.kept_perm hsums hsums' hperm hclear hget
  refine ⟨fun line hline numeral hnumeral => ?_, fun line hline id hid => ?_, h.distinct, h.stated⟩
  · obtain ⟨id, hid, fact, hget, hsupports⟩ := h.figures line hline numeral hnumeral
    obtain ⟨fact', hget', hasserts, -⟩ := hkept (h.cited line hline id hid).1 hget
    exact ⟨id, hid, fact', hget', (factSupportsNumeral_congr hzero hasserts numeral).trans hsupports⟩
  · obtain ⟨hclear, fact, hget, hcitable⟩ := h.cited line hline id hid
    obtain ⟨fact', hget', hasserts, htime⟩ := hkept hclear hget
    have hclear' := fun hk => hclear ((Registry.mem_conflicts_perm hsums hsums' hperm).2 hk)
    exact ⟨hclear', fact', hget', hcitable.congr hasserts htime⟩

/-! ## The gate -/

theorem verify_of_verifyReport {payload : VerifyReportPayload} {v : Verification}
    (h : verifyReport reader payload = .ok v) :
    verify reader payload.researchContext payload.report = .ok v := by
  rw [verifyReport] at h
  obtain ⟨w, hw, h⟩ := Prog.except_bind_ok h
  split at h
  · cases h
  · split at h
    · cases h
    · obtain rfl := Except.ok.inj h
      exact hw

/-- **The gate is sound.** What passes is supported by facts that the context registers, and whether
a report passes does not depend on the order of the registrations. -/
theorem gate_sound (reader : FigureReader F) (hzero : SignlessZero reader) :
    (∀ payload v, verifyReport reader payload = .ok v → v.passed = true →
      Supported reader payload.researchContext payload.report) ∧
    (∀ (payload : VerifyReportPayload) id fact, payload.researchContext.get id = some fact →
      fact ∈ registrations payload.context ∧ fact.evidenceId = id) ∧
    ∀ (payload : VerifyReportPayload) context v w,
      (registrations payload.context).Perm (registrations context) →
      verifyReport reader payload = .ok v →
      verifyReport reader { payload with context } = .ok w → v.passed = w.passed := by
  refine ⟨fun payload v hv hpassed => ?_, fun payload id fact hget => ?_,
    fun payload context v w hperm hv hw => ?_⟩
  · exact (passed_iff (verify_of_verifyReport hv)).1 hpassed
  · obtain ⟨hmem, hkey, -⟩ := (collectRegistries_sums payload.context).sound id fact hget
    exact ⟨hmem, hkey⟩
  · have hv := passed_iff (verify_of_verifyReport hv)
    have hw := passed_iff (verify_of_verifyReport hw)
    rw [Bool.eq_iff_iff, hv, hw]
    exact ⟨supported_perm hzero hperm, supported_perm hzero hperm.symm⟩

/-- A reader that finds one price. -/
def priceReader : FigureReader ℚ where
  financialNumerals line := if Text.contains line "12.34元" then [⟨"12.34", 617 / 50, none⟩] else []
  asF64
    | .posInt n => n
    | .negInt n => -(n + 1)
    | .float text => if text = "12.34" then 617 / 50 else 0
  parseF64 _ := none

def priceTask : TaskSpec where
  objective := "估值"
  securityUniverse := ["000001"]
  asOf := "2026-08-25T10:00:00+08:00"
  researchStart := "2025-08-25"
  researchEnd := "2026-08-25"
  investmentHorizon := "三个月"
  comparisonBenchmark := "000300"
  outputType := "memo"
  evidenceRequirement := "standard"

/-- A registration of a value at a time. -/
def priceFact (id : String) (value : Json) (time : String) : Json :=
  EvidenceFact.toJson ⟨id, "/quote", value, "tdx", some time, some "v1", false⟩

/-- Four facts, one of them seen twice. -/
def priceContext : Json :=
  .ofFields [("task_spec", priceTask.toJson), ("evidence_registry", .ofFields [("facts", .arr [
    priceFact "evf_price" (.num (.float "12.34")) "10:00",
    priceFact "evf_code" (.str "000001") "10:00", priceFact "evf_date" (.str "2026-08-25") "10:00",
    priceFact "evf_price" (.num (.float "12.34")) "10:01",
    priceFact "evf_volume" (.num (.posInt 123400)) "10:00"])])]

def quotedPayload : VerifyReportPayload where
  report := "收盘价12.34元【E:evf_price】【E:evf_code】【E:evf_date】【E:evf_volume】"
  context := priceContext
  taskSpec := priceTask

theorem gate_sound_price :
    verifyReport priceReader quotedPayload = .ok ⟨true, [], 4, 1, 4⟩ ∧
      Supported priceReader quotedPayload.researchContext quotedPayload.report := by
  have hrun : verifyReport priceReader quotedPayload = .ok ⟨true, [], 4, 1, 4⟩ := by decide +kernel
  exact ⟨hrun, (gate_sound priceReader fun _ => rfl).1 quotedPayload _ hrun rfl⟩

end Astock.Report
