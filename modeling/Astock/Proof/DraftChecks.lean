import Astock.Spec.ReaderForm

/-!
# What validation refuses

`Accepted` collects what a draft without problems keeps and both printed forms rely on: every claim
is placed, every placement resolves, and every reference names a number.

* `accepted_of_validateDraft`: a draft without problems is accepted.
* `mem_printedClaims`: the claims that are printed are the claims of the draft.
-/

namespace Astock.Report

variable {F : Type} [PrintedFloat F] {reader : FigureReader F}
variable {registry : String → Option EvidenceDescriptor} {taskSymbols : List String}
variable {draft : VerifiedReportDraft F}

/-- What an accepted draft keeps. -/
structure Accepted (draft : VerifiedReportDraft F) : Prop where
  unique : (draft.claims.map (·.id)).Nodup
  placed : ∀ claim ∈ draft.claims, ∃ part ∈ draft.sections, claim.id ∈ part.claimIds
  resolves : ∀ part ∈ draft.sections, ∀ id ∈ part.claimIds, id ∈ draft.claims.map (·.id)
  /-- A claim references the numbers that it declares. -/
  declares : ∀ claim ∈ draft.claims, ∀ label ∈ placeholderLabels claim.statement,
    ∃ item ∈ claim.numericItems, item.label = label
  /-- A text of the report references numbers that are declared in one way. -/
  settles : ∀ text ∈ draft.title :: reportLevelProse draft, ∀ label ∈ placeholderLabels text,
    label ∈ (reportLevelNumbers draft).map Prod.fst

/-- Identifiers among which none is repeated. -/
theorem duplicateIds_eq_nil : ∀ {ids seen : List String},
    duplicateIds seen ids = [] ↔ ids.Nodup ∧ ∀ id ∈ ids, id ∉ seen
  | [], seen => by simp [duplicateIds]
  | id :: ids, seen => by
    rw [duplicateIds]
    by_cases hid : id ∈ seen
    · rw [if_pos hid]
      exact iff_of_false (List.cons_ne_nil _ _) fun h => h.2 id List.mem_cons_self hid
    · rw [if_neg hid, duplicateIds_eq_nil, List.nodup_cons]
      constructor
      · rintro ⟨hnodup, hseen⟩
        refine ⟨⟨fun hmem => hseen id hmem List.mem_cons_self, hnodup⟩, fun id' hmem => ?_⟩
        rcases List.mem_cons.1 hmem with rfl | hmem
        · exact hid
        · exact fun h => hseen id' hmem (List.mem_cons_of_mem _ h)
      · rintro ⟨⟨hfresh, hnodup⟩, hseen⟩
        refine ⟨hnodup, fun id' hmem h => ?_⟩
        rcases List.mem_cons.1 h with rfl | h
        · exact hfresh hmem
        · exact hseen id' (List.mem_cons_of_mem _ hmem) h

omit [PrintedFloat F] in
/-- Every claim is placed and every placement resolves. -/
theorem validatePlacement_eq_nil (h : validatePlacement draft = []) :
    (∀ claim ∈ draft.claims, ∃ part ∈ draft.sections, claim.id ∈ part.claimIds) ∧
      ∀ part ∈ draft.sections, ∀ id ∈ part.claimIds, id ∈ draft.claims.map (·.id) := by
  obtain ⟨hresolves, hplaced⟩ := List.append_eq_nil_iff.1 h
  constructor
  · intro claim hclaim
    have hid : claim.id ∈ draft.claims.map (·.id) := List.mem_map_of_mem hclaim
    have hmem := List.filter_eq_nil_iff.1 (List.map_eq_nil_iff.1 hplaced) _ hid
    rw [decide_eq_true_eq, not_not] at hmem
    exact List.mem_flatMap.1 hmem
  · intro part hpart id hid
    have hnil := List.flatMap_eq_nil_iff.1 hresolves part hpart
    have hmem := List.filter_eq_nil_iff.1 (List.map_eq_nil_iff.1 hnil) _ hid
    rwa [decide_eq_true_eq, not_not] at hmem

/-- A claim without problems declares the numbers that it references. -/
theorem validateClaim_eq_nil {claim : Claim F}
    (h : validateClaim reader registry taskSymbols claim = []) :
    ∀ label ∈ placeholderLabels claim.statement, ∃ item ∈ claim.numericItems, item.label = label := by
  intro label hlabel
  have hunknown := (List.append_eq_nil_iff.1 h).2
  have hany := List.filter_eq_nil_iff.1 (List.map_eq_nil_iff.1 hunknown) label hlabel
  rw [Bool.not_eq_true', Bool.not_eq_false, List.any_eq_true] at hany
  obtain ⟨item, hitem, heq⟩ := hany
  exact ⟨item, hitem, of_decide_eq_true heq⟩

/-- A field without problems references numbers that are declared in one way. -/
theorem checkReferences_eq_nil {field text : String} (h : checkReferences draft field text = []) :
    ∀ label ∈ placeholderLabels text, label ∈ (reportLevelNumbers draft).map Prod.fst := by
  intro label hlabel
  have hnone := List.filterMap_eq_nil_iff.1 h label hlabel
  split_ifs at hnone with _ hmem
  exact hmem

/-- The texts that are checked are the texts that the forms print. -/
theorem validateFreeText_eq_nil (h : validateFreeText reader registry draft = []) :
    ∀ text ∈ draft.title :: reportLevelProse draft, ∀ label ∈ placeholderLabels text,
      label ∈ (reportLevelNumbers draft).map Prod.fst := by
  rw [validateFreeText, List.append_eq_nil_iff, List.append_eq_nil_iff, List.append_eq_nil_iff] at h
  have hchecked := List.flatMap_eq_nil_iff.1 h.1.1.1
  intro text htext
  have hfield : ∃ field, (field, text) ∈ ("title", draft.title) ::
      ("executive_summary", draft.executiveSummary) :: uncertaintyField draft ++
        limitationFields draft := by
    rw [reportLevelProse, List.cons_append, List.mem_cons, List.mem_cons, List.mem_append] at htext
    rcases htext with rfl | rfl | hmem | hmem
    · exact ⟨_, List.mem_cons_self⟩
    · exact ⟨_, List.mem_cons_of_mem _ List.mem_cons_self⟩
    · refine ⟨"overall_uncertainty", List.mem_append_left _ ?_⟩
      exact List.mem_cons_of_mem _ (List.mem_cons_of_mem _ (List.mem_map_of_mem hmem))
    · obtain ⟨index, hindex, rfl⟩ := List.mem_iff_getElem.1 hmem
      refine ⟨s!"limitations[{index}]", List.mem_append_right _ ?_⟩
      exact List.mem_mapIdx.2 ⟨index, hindex, rfl⟩
  obtain ⟨field, hmem⟩ := hfield
  exact checkReferences_eq_nil (hchecked _ hmem)

/-- **A draft without problems is accepted.** -/
theorem accepted_of_validateDraft (h : validateDraft reader registry taskSymbols draft = []) :
    Accepted draft := by
  rw [validateDraft] at h
  simp only [List.append_eq_nil_iff] at h
  obtain ⟨⟨⟨⟨_, hids⟩, hplacement⟩, hclaims⟩, htext⟩ := h
  obtain ⟨hplaced, hresolves⟩ := validatePlacement_eq_nil hplacement
  exact {
    unique := (duplicateIds_eq_nil.1 (List.map_eq_nil_iff.1 hids)).1
    placed := hplaced
    resolves := hresolves
    declares := fun claim hclaim => validateClaim_eq_nil (List.flatMap_eq_nil_iff.1 hclaims claim hclaim)
    settles := validateFreeText_eq_nil htext }

/-- A claim is printed in the sections that place it. -/
theorem mem_sectionClaims (h : Accepted draft) {part : ReportSection} {claim : Claim F} :
    claim ∈ sectionClaims draft part ↔ claim ∈ draft.claims ∧ claim.id ∈ part.claimIds := by
  rw [sectionClaims, List.mem_filterMap]
  constructor
  · rintro ⟨id, hid, hfind⟩
    have hclaim := List.mem_of_find?_eq_some hfind
    have heq : claim.id = id := Table.key_of_find hfind
    exact ⟨hclaim, heq ▸ hid⟩
  · rintro ⟨hclaim, hid⟩
    exact ⟨claim.id, hid, Table.find_of_mem h.unique hclaim⟩

/-- **The claims that are printed are the claims of the draft.** -/
theorem mem_printedClaims (h : Accepted draft) {claim : Claim F} :
    claim ∈ printedClaims draft ↔ claim ∈ draft.claims := by
  rw [printedClaims, List.mem_flatMap]
  constructor
  · rintro ⟨part, -, hmem⟩
    exact ((mem_sectionClaims h).1 hmem).1
  · intro hclaim
    obtain ⟨part, hpart, hid⟩ := h.placed claim hclaim
    exact ⟨part, hpart, (mem_sectionClaims h).2 ⟨hclaim, hid⟩⟩

/-- A number of the report is a number of a claim. -/
theorem mem_reportLevelNumbers {entry : String × NumericItem F}
    (h : entry ∈ reportLevelNumbers draft) : entry.2 ∈ draft.items := by
  have hstep : ∀ (items : List (NumericItem F)) (state : List (String × NumericItem F) × List String),
      (∀ entry ∈ state.1, entry.2 ∈ draft.items) → (∀ item ∈ items, item ∈ draft.items) →
      ∀ entry ∈ (items.foldl resolveItem state).1, entry.2 ∈ draft.items := by
    intro items
    induction items with
    | nil => exact fun state hstate _ => hstate
    | cons item items ih =>
      intro state hstate hitems
      refine ih _ ?_ fun item' hmem => hitems item' (List.mem_cons_of_mem _ hmem)
      have hupsert : ∀ entry ∈ Table.upsert Prod.fst (item.label, item) state.1,
          entry.2 ∈ draft.items := by
        intro entry hmem
        rcases Table.mem_upsert.1 hmem with rfl | ⟨hmem, -⟩
        · exact hitems item List.mem_cons_self
        · exact hstate entry hmem
      rw [resolveItem]
      split
      · split
        · exact hstate
        · exact hupsert
      · exact hupsert
  have hmem := (List.mem_filter.1 h).1
  exact hstep draft.items ([], []) (fun _ h => absurd h List.not_mem_nil) (fun _ h => h) entry hmem

/-- A reader that finds no figures. -/
def noFigures : FigureReader ℚ where
  financialNumerals _ := []
  asF64 _ := 0
  parseF64 _ := none

end Astock.Report
