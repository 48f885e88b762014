import Astock.Proof.DraftChecks

/-!
# Declared numbers in print

Both forms leave a number out of its own line when the statement of its claim references its label,
and both print the first number with that label in its place. So a number is lost when another
number of the claim has its label and comes first (`numbers_printed`).
-/

namespace Astock.Report

variable {F : Type} [PrintedFloat F] {draft : VerifiedReportDraft F} {claim : Claim F}
variable {item : NumericItem F}

/-- The number that stands for a label in the statement of its claim. -/
def shownAt (claim : Claim F) (label : String) : Option (NumericItem F) :=
  Table.find NumericItem.label label claim.numericItems

/-- What is printed for a piece of a statement. -/
def printedPiece (claim : Claim F) : Char ⊕ List Char → String
  | .inl c => String.ofList [c]
  | .inr body =>
    let label := Text.trim (String.ofList body)
    ((shownAt claim label).map NumericItem.token).getD label

/-- A statement is printed with the numbers of its claim in place of its references. -/
theorem substituteNumbers_eq (claim : Claim F) (text : String) :
    substituteNumbers text (declaredNumbers claim) =
      String.join ((Spans.spans ['{'] '}' text.toList).map (printedPiece claim)) := by
  apply String.toList_injective
  rw [substituteNumbers, String.toList_ofList, String.toList_join, List.flatMap_map]
  congr 1
  funext piece
  cases piece with
  | inl c => exact String.toList_ofList.symm
  | inr body =>
    dsimp only [printedPiece]
    have hfind : (declaredNumbers claim).find? (fun number => number.1 = Text.trim (String.ofList body)) =
        (shownAt claim (Text.trim (String.ofList body))).map fun item =>
          (item.label, item.value, item.unit) := List.find?_map ..
    rw [hfind]
    cases shownAt claim (Text.trim (String.ofList body)) <;> rfl

/-- The value of a number stands in the statement of its claim, in place of a reference to it. -/
def ShownInline (claim : Claim F) (item : NumericItem F) : Prop :=
  item.label ∈ placeholderLabels claim.statement ∧
    ∃ shown, shownAt claim item.label = some shown ∧
      PrintedFloat.display shown.value = PrintedFloat.display item.value

/-- A number reaches the reader and the verifier. -/
structure Accounted (registry : String → Option EvidenceDescriptor) (draft : VerifiedReportDraft F)
    (claim : Claim F) (item : NumericItem F) : Prop where
  inReport : claimBlocks draft claim <:+: markdownBlocks draft
  inForm : .ofClaim claim ∈ formLines draft
  /-- The reader finds its value in the statement or on its own line. -/
  shown : ShownInline claim item ∨ .number item ∈ claimBlocks draft claim
  /-- The verifier finds its value in the statement or behind it. -/
  sent : ShownInline claim item ∨ itemLine (placeholderLabels claim.statement) item =
    itemText item ++ citeAll item.provenance.referencedEvidence
  /-- Both read the same statement. -/
  same : ∃ marks, (Block.prose claim).text registry draft = "- " ++ claimProse claim ++ marks
  /-- The statement is printed with the numbers that stand for its references. -/
  filled : claimProse claim = "【" ++ claim.kind.displayLabel ++ "】" ++
    Text.trim (String.join ((Spans.spans ['{'] '}' claim.statement.toList).map (printedPiece claim)))
  /-- The line of the claim has the number's citations behind its place. -/
  cited : ∃ front rest, claimLine claim =
    claimProse claim ++ front ++ itemLine (placeholderLabels claim.statement) item ++ rest ∧
      ∃ value, itemLine (placeholderLabels claim.statement) item =
        value ++ citeAll item.provenance.referencedEvidence

/-- Numbers of a claim with a label that its statement references are written alike. -/
def SharedLabelsAgree (draft : VerifiedReportDraft F) : Prop :=
  ∀ claim ∈ draft.claims, ∀ item ∈ claim.numericItems, item.label ∈ placeholderLabels claim.statement →
    ∀ other ∈ claim.numericItems, other.label = item.label →
      PrintedFloat.display other.value = PrintedFloat.display item.value

/-- The blocks of a claim stand together in the report. -/
theorem claimBlocks_infix (h : Accepted draft) (hclaim : claim ∈ draft.claims) :
    claimBlocks draft claim <:+: markdownBlocks draft := by
  obtain ⟨part, hpart, hid⟩ := h.placed claim hclaim
  have hmem : claim ∈ sectionClaims draft part := (mem_sectionClaims h).2 ⟨hclaim, hid⟩
  have hsection : claimBlocks draft claim <:+: sectionBlocks draft part :=
    (List.infix_of_mem_flatten (List.mem_map_of_mem hmem)).trans
      ⟨[.heading part.heading], [.blank], by rw [sectionBlocks, List.flatMap_def]; rfl⟩
  have hsections : sectionBlocks draft part <:+: draft.sections.flatMap (sectionBlocks draft) :=
    List.infix_of_mem_flatten (List.mem_map_of_mem hpart)
  refine (hsection.trans hsections).trans ?_
  rw [markdownBlocks, List.append_assoc, List.append_assoc]
  exact List.infix_append _ _ _

theorem ofClaim_mem_formLines (h : Accepted draft) (hclaim : claim ∈ draft.claims) :
    .ofClaim claim ∈ formLines draft := by
  obtain ⟨part, hpart, hid⟩ := h.placed claim hclaim
  refine List.mem_append_right _ (List.mem_flatMap.2 ⟨part, hpart, List.mem_cons_of_mem _ ?_⟩)
  exact List.mem_map_of_mem ((mem_sectionClaims h).2 ⟨hclaim, hid⟩)

/-- A number has a line of its own when the statement does not reference its label. -/
theorem number_mem_claimBlocks (hitem : item ∈ claim.numericItems) :
    .number item ∈ claimBlocks draft claim ↔ item.label ∉ placeholderLabels claim.statement := by
  have hconflicts : (.number item : Block F) ∉
      if numbersFor (referenceOrder draft) claim.disclosedConflicts = [] then []
      else [.conflicts claim.disclosedConflicts] := by
    split_ifs <;> simp
  rw [claimBlocks]
  simp [hconflicts, ownLineItems, hitem]

/-- The citations of a number stand behind its place in the line of its claim. -/
theorem claimLine_cites (hitem : item ∈ claim.numericItems) :
    ∃ front rest, claimLine claim =
      claimProse claim ++ front ++ itemLine (placeholderLabels claim.statement) item ++ rest ∧
        ∃ value, itemLine (placeholderLabels claim.statement) item =
          value ++ citeAll item.provenance.referencedEvidence := by
  obtain ⟨before, after, hsplit⟩ := List.append_of_mem hitem
  refine ⟨String.join (before.map (itemLine (placeholderLabels claim.statement))),
    String.join (after.map (itemLine (placeholderLabels claim.statement))) ++
      citeAll claim.evidenceIds, ?_, ⟨_, rfl⟩⟩
  rw [claimLine, hsplit, List.map_append, List.map_cons, String.join_append, String.join_cons]
  simp only [String.append_assoc]

/-- **No declared number is lost** exactly when the numbers of a claim that share a referenced label
are written alike. -/
theorem numbers_printed (reader : FigureReader F) (registry : String → Option EvidenceDescriptor)
    (taskSymbols : List String) (draft : VerifiedReportDraft F)
    (hvalid : validateDraft reader registry taskSymbols draft = []) :
    (∀ claim ∈ draft.claims, ∀ item ∈ claim.numericItems, Accounted registry draft claim item) ↔
      SharedLabelsAgree draft := by
  have h := accepted_of_validateDraft hvalid
  constructor
  · intro hall claim hclaim item hitem hlabel other hother heq
    have hfirst : ∀ number ∈ claim.numericItems, number.label = item.label →
        ∃ shown, shownAt claim item.label = some shown ∧
          PrintedFloat.display shown.value = PrintedFloat.display number.value := by
      intro number hnumber hname
      rcases (hall claim hclaim number hnumber).shown with hinline | hline
      · exact hname ▸ hinline.2
      · exact absurd (hname ▸ hlabel) ((number_mem_claimBlocks hnumber).1 hline)
    obtain ⟨shown, hshown, hitemValue⟩ := hfirst item hitem rfl
    obtain ⟨shown', hshown', hotherValue⟩ := hfirst other hother heq
    rw [hshown, Option.some.injEq] at hshown'
    rw [← hitemValue, ← hotherValue, hshown']
  · intro hagree claim hclaim item hitem
    have hcase : ShownInline claim item ∨ item.label ∉ placeholderLabels claim.statement := by
      by_cases hlabel : item.label ∈ placeholderLabels claim.statement
      · have hsome : (shownAt claim item.label).isSome :=
          List.find?_isSome.2 ⟨item, hitem, decide_eq_true rfl⟩
        obtain ⟨shown, hshown⟩ := Option.isSome_iff_exists.1 hsome
        refine .inl ⟨hlabel, shown, hshown, ?_⟩
        exact hagree claim hclaim item hitem hlabel shown (Table.mem_of_find hshown)
          (Table.key_of_find hshown)
      · exact .inr hlabel
    exact {
      inReport := claimBlocks_infix h hclaim
      inForm := ofClaim_mem_formLines h hclaim
      shown := hcase.imp_right (number_mem_claimBlocks hitem).2
      sent := hcase.imp_right fun hlabel => by rw [itemLine, if_neg hlabel]
      same := ⟨citationMarks (numbersFor (referenceOrder draft) claim.evidenceIds) ++ "\n", by
        unfold Block.text
        simp only [claimProse, ← String.append_assoc]
        rfl⟩
      filled := by rw [claimProse, substituteNumbers_eq]
      cited := claimLine_cites hitem }

/-- Two growth rates under one label, which the statement references. -/
def twoRates (first second : ℚ) : VerifiedReportDraft ℚ where
  title := "情景分析"
  executiveSummary := ""
  sections := [⟨"利润情景", ["growth"]⟩]
  claims := [{
    id := "growth"
    kind := .scenario
    statement := "利润增速为\x7b增速\x7d"
    numericItems := [⟨first, some "%", "增速", .userAssumption⟩, ⟨second, some "%", "增速", .userAssumption⟩] }]

theorem second_rate_lost :
    ¬ ∀ (reader : FigureReader ℚ) (registry : String → Option EvidenceDescriptor)
      (taskSymbols : List String) (draft : VerifiedReportDraft ℚ),
      validateDraft reader registry taskSymbols draft = [] →
      ∀ claim ∈ draft.claims, ∀ item ∈ claim.numericItems, Accounted registry draft claim item := by
  intro h
  have hlost := h noFigures (fun _ => none) [] (twoRates 15 20) (by decide) _ List.mem_cons_self
    ⟨20, some "%", "增速", .userAssumption⟩ (List.mem_cons_of_mem _ List.mem_cons_self)
  rcases hlost.shown with ⟨-, shown, hshown, hvalue⟩ | hline
  · have hfirst : shown = ⟨15, some "%", "增速", .userAssumption⟩ := (Option.some.inj hshown).symm
    exact absurd (hfirst ▸ hvalue) (by decide)
  · exact absurd hline (by decide)

theorem numbers_printed_rates :
    validateDraft noFigures (fun _ => none) [] (twoRates 15 15) = [] ∧
      ((∀ claim ∈ (twoRates 15 15).claims, ∀ item ∈ claim.numericItems,
        Accounted (fun _ => none) (twoRates 15 15) claim item) ↔ SharedLabelsAgree (twoRates 15 15)) := by
  have hvalid : validateDraft noFigures (fun _ => none) [] (twoRates 15 15) = [] := by decide
  exact ⟨hvalid, numbers_printed noFigures (fun _ => none) [] (twoRates 15 15) hvalid⟩

end Astock.Report
