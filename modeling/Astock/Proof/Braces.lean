import Astock.Proof.ReaderForm

/-!
# References in print

The scanner that collects references, the one that strips them and the one that fills them in pass
over the same spans. What is left of the braces of a text is a brace that is never closed, and what
the renderer prints as it stands: headings, assumptions and the uncertainty of a claim
(`references_resolved`).
-/

namespace Astock.Report

variable {F : Type} [PrintedFloat F] {registry : String → Option EvidenceDescriptor}
variable {draft : VerifiedReportDraft F}

theorem shows_brace {text : String} : Shows ['{'] text ↔ '{' ∈ text.toList := List.singleton_infix_iff ..

theorem foreign_brace : Foreign ['{'] := foreign_words "\x7b" (by decide)

/-- The braces of what is printed in place of a text are those that are never closed in it. -/
theorem brace_mem_substituteNumbers {text : String} {numbers : List (String × F × Option String)}
    (hplain : PlainDisplay F)
    (hunits : ∀ number ∈ numbers, ∀ unit ∈ number.2.2, '{' ∉ unit.toList)
    (hresolved : ∀ label ∈ placeholderLabels text, label ∈ numbers.map Prod.fst) :
    '{' ∈ (substituteNumbers text numbers).toList ↔ Spans.Unclosed '{' '}' text.toList := by
  rw [← Spans.inl_mem_spans (by decide), substituteNumbers, String.toList_ofList, List.mem_flatMap]
  constructor
  · rintro ⟨piece, hpiece, hmem⟩
    cases piece with
    | inl c =>
      have hc : '{' = c := List.mem_singleton.1 hmem
      exact hc ▸ hpiece
    | inr label =>
      exfalso
      dsimp only at hmem
      cases hfind : numbers.find? fun number => number.1 = Text.trim (String.ofList label) with
      | some number =>
        obtain ⟨name, value, unit⟩ := number
        rw [hfind] at hmem
        dsimp only at hmem
        rw [String.toList_append, List.mem_append] at hmem
        rcases hmem with hmem | hmem
        · exact absurd (hplain value _ hmem) (by decide)
        · cases unit with
          | none => exact absurd hmem (by decide)
          | some unit => exact hunits _ (List.mem_of_find?_eq_some hfind) unit rfl hmem
      | none =>
        rw [hfind] at hmem
        dsimp only at hmem
        have hne : Text.trim (String.ofList label) ≠ "" := by
          intro hempty
          rw [hempty] at hmem
          exact absurd hmem (by decide)
        have hlabel : Text.trim (String.ofList label) ∈ placeholderLabels text := by
          refine List.mem_filter.2 ⟨List.mem_map.2 ⟨label, ?_, rfl⟩, decide_eq_true hne⟩
          exact List.mem_filterMap.2 ⟨.inr label, hpiece, rfl⟩
        obtain ⟨number, hnumber, hname⟩ := List.mem_map.1 (hresolved _ hlabel)
        exact of_decide_eq_false (Bool.eq_false_of_not_eq_true
          (List.find?_eq_none.1 hfind number hnumber)) hname
  · exact fun hmem => ⟨.inl '{', hmem, List.mem_singleton_self _⟩

/-- The braces that the checks leave in a draft. -/
structure BracesClosed (draft : VerifiedReportDraft F) : Prop where
  prose : ∀ text ∈ draft.title :: reportLevelProse draft, ¬ Spans.Unclosed '{' '}' text.toList
  statement : ∀ claim ∈ draft.claims, ¬ Spans.Unclosed '{' '}' claim.statement.toList
  heading : ∀ part ∈ draft.sections, '{' ∉ part.heading.toList
  assumption : ∀ claim ∈ draft.claims, ∀ text ∈ claim.assumptions, '{' ∉ text.toList
  uncertainty : ∀ claim ∈ draft.claims, ∀ text ∈ claim.uncertainty, '{' ∉ text.toList

/-- Opening braces in what a draft declares. -/
structure PlainItems (draft : VerifiedReportDraft F) : Prop where
  label : ∀ item ∈ draft.items, '{' ∉ item.label.toList
  unit : ∀ item ∈ draft.items, ∀ unit ∈ item.unit, '{' ∉ unit.toList

/-- The texts of the report that reference numbers. -/
theorem brace_mem_report (hplain : PlainDisplay F) (h : Accepted draft) (hitems : PlainItems draft) :
    ∀ text ∈ draft.title :: reportLevelProse draft,
      '{' ∈ (substituteNumbers text (reportNumbers draft)).toList ↔
        Spans.Unclosed '{' '}' text.toList := by
  intro text htext
  apply brace_mem_substituteNumbers hplain
  · intro number hnumber unit hunit
    obtain ⟨entry, hentry, rfl⟩ := List.mem_map.1 hnumber
    exact hitems.unit entry.2 (mem_reportLevelNumbers hentry) unit hunit
  · intro label hlabel
    rw [reportNumbers, List.map_map]
    exact h.settles text htext label hlabel

/-- The statements, which reference the numbers of their own claims. -/
theorem brace_mem_statement (hplain : PlainDisplay F) (h : Accepted draft) (hitems : PlainItems draft) :
    ∀ claim ∈ draft.claims,
      '{' ∈ (substituteNumbers claim.statement (declaredNumbers claim)).toList ↔
        Spans.Unclosed '{' '}' claim.statement.toList := by
  intro claim hclaim
  apply brace_mem_substituteNumbers hplain
  · intro number hnumber unit hunit
    obtain ⟨item, hitem, rfl⟩ := List.mem_map.1 hnumber
    exact hitems.unit item (List.mem_flatMap.2 ⟨claim, hclaim, hitem⟩) unit hunit
  · intro label hlabel
    obtain ⟨item, hitem, rfl⟩ := h.declares claim hclaim label hlabel
    exact List.mem_map.2 ⟨(item.label, item.value, item.unit), List.mem_map_of_mem hitem, rfl⟩

/-- A blank text has no brace in it. -/
theorem brace_not_mem_of_blank {text : String} (h : Text.trim text = "") : '{' ∉ text.toList := by
  rw [← shows_brace, ← foreign_brace.trim, h, shows_brace]
  decide

/-- **The prose of the report is without braces** when the checks leave none in the draft. -/
theorem fields_closed (hplain : PlainDisplay F) (h : Accepted draft) (hitems : PlainItems draft) :
    (∀ field ∈ renderedFields draft, '{' ∉ field.toList) ↔ BracesClosed draft := by
  have htrim : ∀ text, '{' ∉ (Text.trim text).toList ↔ '{' ∉ text.toList := fun text => by
    rw [← shows_brace, foreign_brace.trim, shows_brace]
  have hreport := brace_mem_report hplain h hitems
  have hstatement := brace_mem_statement hplain h hitems
  have hsummary : draft.executiveSummary ∈ draft.title :: reportLevelProse draft :=
    List.mem_cons_of_mem _ List.mem_cons_self
  have hoverall : ∀ text ∈ draft.overallUncertainty, text ∈ draft.title :: reportLevelProse draft :=
    fun text htext => by simp [reportLevelProse, Option.mem_def.1 htext]
  have hlimitation : ∀ text ∈ draft.limitations, text ∈ draft.title :: reportLevelProse draft :=
    fun text htext => by simp [reportLevelProse, htext]
  rw [forall_renderedFields h]
  constructor
  · intro each
    refine ⟨fun text htext => ?_, fun claim hclaim => ?_, each.heading, each.assumption,
      each.uncertainty⟩
    · rw [← hreport text htext]
      rw [reportLevelProse, List.cons_append, List.mem_cons, List.mem_cons, List.mem_append] at htext
      rcases htext with rfl | rfl | htext | htext
      · exact each.title
      · by_cases hblank : Text.trim draft.executiveSummary = ""
        · rw [hreport _ hsummary]
          exact Spans.not_unclosed_of_not_mem (brace_not_mem_of_blank hblank)
        · exact (htrim _).1 (each.summary hblank)
      · exact (htrim _).1 (each.overall text (Option.mem_toList.1 htext))
      · exact each.limitation text htext
    · rw [← hstatement claim hclaim]
      exact (htrim _).1 (each.statement claim hclaim)
  · intro hclosed
    have hprose : ∀ text ∈ draft.title :: reportLevelProse draft,
        '{' ∉ (substituteNumbers text (reportNumbers draft)).toList :=
      fun text htext => (hreport text htext).not.2 (hclosed.prose text htext)
    exact {
      title := hprose _ List.mem_cons_self
      summary := fun _ => (htrim _).2 (hprose _ hsummary)
      heading := hclosed.heading
      statement := fun claim hclaim =>
        (htrim _).2 ((hstatement claim hclaim).not.2 (hclosed.statement claim hclaim))
      assumption := hclosed.assumption
      uncertainty := hclosed.uncertainty
      overall := fun text htext => (htrim _).2 (hprose text (hoverall text htext))
      limitation := fun text htext => hprose text (hlimitation text htext) }

/-- **References are resolved in print.** The prose of the report shows no opening brace exactly
when the checks leave none in the draft, and then no other part of the report does but an operation
or the label of a piece of evidence. -/
theorem references_resolved (reader : FigureReader F)
    (registry : String → Option EvidenceDescriptor) (taskSymbols : List String)
    (draft : VerifiedReportDraft F) (hplain : PlainDisplay F) (hitems : PlainItems draft)
    (hvalid : validateDraft reader registry taskSymbols draft = []) :
    ((∀ field ∈ renderedFields draft, '{' ∉ field.toList) ↔ BracesClosed draft) ∧
      ('{' ∈ (markdown registry draft).toList ↔ (∃ field ∈ renderedFields draft, '{' ∈ field.toList) ∨
        (∃ claim ∈ draft.claims, ∃ item ∈ ownLineItems claim, ∃ operation ∈ item.provenance.operation,
          '{' ∈ operation.toList) ∨
        ∃ claim ∈ draft.claims, ∃ id ∈ claim.referenced,
          '{' ∈ (((registry id).map EvidenceDescriptor.displayLabel).getD "未知来源").toList) := by
  have h := accepted_of_validateDraft hvalid
  refine ⟨fields_closed hplain h hitems, ?_⟩
  have hshows : Shows ['{'] (markdown registry draft) ↔
      (∃ field ∈ renderedFields draft, Shows ['{'] field) ∨
        ∃ detail ∈ renderedDetails registry draft, Shows ['{'] detail :=
    markdown_shows foreign_brace hplain
  rw [exists_renderedDetails h] at hshows
  simp only [shows_brace] at hshows
  rw [hshows]
  refine or_congr_right (or_congr_left ⟨?_, ?_⟩)
  · rintro ⟨claim, hclaim, item, hitem, text, htext, hmem⟩
    have hdraft : item ∈ draft.items :=
      List.mem_flatMap.2 ⟨claim, hclaim, (List.mem_filter.1 hitem).1⟩
    rw [NumericItem.texts, List.cons_append, List.mem_cons, List.mem_append] at htext
    rcases htext with rfl | htext | htext
    · exact absurd hmem (hitems.label item hdraft)
    · exact absurd hmem (hitems.unit item hdraft text (Option.mem_toList.1 htext))
    · exact ⟨claim, hclaim, item, hitem, text, Option.mem_toList.1 htext, hmem⟩
  · rintro ⟨claim, hclaim, item, hitem, operation, hoperation, hmem⟩
    refine ⟨claim, hclaim, item, hitem, operation, ?_, hmem⟩
    exact List.mem_cons_of_mem _ (List.mem_append_right _ (Option.mem_toList.2 hoperation))

/-- A scenario whose assumption references the number that it declares. -/
def referencedAssumption : VerifiedReportDraft ℚ where
  title := "情景分析"
  executiveSummary := ""
  sections := [⟨"利润情景", ["growth"]⟩]
  claims := [{
    id := "growth"
    kind := .scenario
    statement := "利润随增速变化"
    numericItems := [⟨15, some "%", "增速", .userAssumption⟩]
    assumptions := ["\x7b增速\x7d维持不变"] }]

theorem assumption_unresolved :
    ¬ ∀ (reader : FigureReader ℚ) (registry : String → Option EvidenceDescriptor)
      (taskSymbols : List String) (draft : VerifiedReportDraft ℚ), PlainItems draft →
      validateDraft reader registry taskSymbols draft = [] →
      ∀ field ∈ renderedFields draft, '{' ∉ field.toList := by
  intro h
  have hitems : PlainItems referencedAssumption := ⟨by decide, by decide⟩
  have hfield : "\x7b增速\x7d维持不变" ∈ renderedFields referencedAssumption := by decide
  exact h noFigures (fun _ => none) [] referencedAssumption hitems (by decide) _ hfield
    (by decide)

/-- A scenario that references its number in its statement, where references are resolved. -/
def referencedStatement : VerifiedReportDraft ℚ where
  title := "情景分析"
  executiveSummary := "增速\x7b增速\x7d"
  sections := [⟨"利润情景", ["growth"]⟩]
  claims := [{
    id := "growth"
    kind := .scenario
    statement := "增速\x7b增速\x7d"
    numericItems := [⟨15, some "%", "增速", .userAssumption⟩]
    assumptions := ["增速维持不变"] }]

theorem references_resolved_scenario :
    validateDraft noFigures (fun _ => none) [] referencedStatement = [] ∧
      ((∀ field ∈ renderedFields referencedStatement, '{' ∉ field.toList) ↔
        BracesClosed referencedStatement) := by
  have hvalid : validateDraft noFigures (fun _ => none) [] referencedStatement = [] := by
    decide
  exact ⟨hvalid, (references_resolved noFigures (fun _ => none) [] referencedStatement
    plainDisplay_exact ⟨by decide, by decide⟩ hvalid).1⟩

end Astock.Report
