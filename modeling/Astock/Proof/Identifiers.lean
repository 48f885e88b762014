import Astock.Proof.ReaderForm

/-!
# What the reader must not see

The renderer prints no identifier and no citation of the verifier form by itself: identifiers reach
it as numbers. Validation looks for figures in the prose of a draft, not for identifiers, so a text
of the draft that contains one is printed (`identifiers_hidden`).
-/

namespace Astock.Report

variable {F : Type} [PrintedFloat F] {registry : String → Option EvidenceDescriptor}
variable {draft : VerifiedReportDraft F} {word : List Char}

/-- A text without canonical identifiers and citations of the verifier form. -/
def Clean (text : String) : Prop :=
  containsInternalIdentifier text = false ∧ Text.contains text "【E:" = false

instance (text : String) : Decidable (Clean text) := inferInstanceAs (Decidable (_ ∧ _))

theorem clean_iff {text : String} :
    Clean text ↔ ¬ Shows "evf_".toList text ∧ ¬ Shows "【E:".toList text := by
  rw [Clean, containsInternalIdentifier, ← Bool.not_eq_true, ← Bool.not_eq_true, Text.contains_iff,
    Text.contains_iff, Shows, Shows]

/-! ## The labels of evidence -/

/-- The labels of a piece of evidence. -/
def EvidenceDescriptor.labels (descriptor : EvidenceDescriptor) : List String :=
  descriptor.source :: descriptor.documentTitle.toList ++ descriptor.documentLocation.toList ++
    descriptor.field.toList

theorem sourceDisplayName_shows (hw : Foreign word) {source : String}
    (h : Shows word (sourceDisplayName source)) : Shows word source := by
  unfold sourceDisplayName at h
  split at h
  case h_6 => exact absurd h (hw.plain (by decide))
  case h_13 => exact h
  all_goals exact absurd h (hw.frame (hw.apartOf (by decide)))

theorem leafOf_shows {field : String} (h : Shows word (leafOf field)) : Shows word field := by
  rw [Shows, leafOf, String.toList_ofList] at h
  exact h.trans (List.rtakeWhile_suffix _ _).isInfix

theorem friendlyField_shows (hw : Foreign word) {field : String}
    (h : Shows word (friendlyField field)) : Shows word field := by
  unfold friendlyField at h
  split at h
  all_goals first
    | exact absurd h (hw.frame (hw.apartOf (by decide)))
    | exact leafOf_shows h

theorem mem_of_nonempty {label : Option String} {text : String} (h : nonempty label = some text) :
    text ∈ label :=
  (Option.filter_eq_some_iff.1 h).1

/-- Where the label of a piece of evidence has a word that its own labels do not have. -/
theorem displayLabel_shows (hw : Foreign word) {descriptor : EvidenceDescriptor}
    (hlabels : ∀ label ∈ descriptor.labels, ¬ Shows word label) :
    Shows word descriptor.displayLabel ↔ descriptor.isCalculation = false ∧
      nonempty descriptor.documentLocation = none ∧ ∃ stamp ∈ descriptor.stamp, Shows word stamp := by
  have hsource : ¬ Shows word (sourceDisplayName descriptor.source) := fun h =>
    hlabels _ (by simp [EvidenceDescriptor.labels]) (sourceDisplayName_shows hw h)
  have htitle : ∀ text, (nonempty descriptor.documentTitle).or
      ((nonempty descriptor.field).map friendlyField) = some text → ¬ Shows word text := by
    intro text htext h
    rcases Option.or_eq_some_iff.1 htext with htext | ⟨-, htext⟩
    · exact hlabels text (by simp [EvidenceDescriptor.labels, Option.mem_def.1 (mem_of_nonempty htext)]) h
    · obtain ⟨field, hfield, rfl⟩ := Option.map_eq_some_iff.1 htext
      refine hlabels field ?_ (friendlyField_shows hw h)
      simp [EvidenceDescriptor.labels, Option.mem_def.1 (mem_of_nonempty hfield)]
  have hlocation : ∀ text, nonempty descriptor.documentLocation = some text → ¬ Shows word text :=
    fun text htext => hlabels text
      (by simp [EvidenceDescriptor.labels, Option.mem_def.1 (mem_of_nonempty htext)])
  rw [EvidenceDescriptor.displayLabel]
  cases hcalc : descriptor.isCalculation with
  | true =>
    rw [if_pos rfl]
    exact iff_of_false (hw.frame (hw.apartOf (by decide))) fun h => absurd h.1 (by decide)
  | false =>
    rw [if_neg (by decide), hw.intercalate (hw.apartOf (by decide)) (by decide), and_iff_right rfl]
    constructor
    · rintro ⟨text, htext, hshows⟩
      rw [EvidenceDescriptor.labelParts, List.cons_append, List.mem_cons, List.mem_append] at htext
      rcases htext with rfl | htext | htext
      · exact absurd hshows hsource
      · exact absurd hshows (htitle text (Option.mem_toList.1 htext))
      · rcases Option.or_eq_some_iff.1 (Option.mem_toList.1 htext) with htext | ⟨hnone, htext⟩
        · exact absurd hshows (hlocation text htext)
        · exact ⟨hnone, text, htext, hshows⟩
    · rintro ⟨hnone, stamp, hstamp, hshows⟩
      refine ⟨stamp, List.mem_append_right _ (Option.mem_toList.2 ?_), hshows⟩
      exact Option.or_eq_some_iff.2 (.inr ⟨hnone, hstamp⟩)

/-! ## The texts of a draft -/

/-- The labels in a registry are clean. -/
def CleanLabels (registry : String → Option EvidenceDescriptor) : Prop :=
  ∀ id, ∀ descriptor ∈ registry id, ∀ label ∈ descriptor.labels, Clean label

/-- What validation leaves to the draft: its texts are clean, and so are the times that stand in
the labels of its evidence. -/
structure CleanTexts (registry : String → Option EvidenceDescriptor) (draft : VerifiedReportDraft F) :
    Prop where
  fields : EachField draft Clean
  numbers : ∀ claim ∈ draft.claims, ∀ item ∈ ownLineItems claim, ∀ text ∈ item.texts, Clean text
  stamps : ∀ claim ∈ draft.claims, ∀ id ∈ claim.referenced, ∀ descriptor ∈ registry id,
    descriptor.isCalculation = false → nonempty descriptor.documentLocation = none →
      ∀ stamp ∈ descriptor.stamp, Clean stamp

theorem foreign_identifier : Foreign "evf_".toList := foreign_words "evf_" (by decide)

theorem foreign_citation : Foreign "【E:".toList := foreign_words "【E:" (by decide)

/-- The report is clean when its prose and its labels are. -/
theorem clean_markdown (hplain : PlainDisplay F) :
    Clean (markdown registry draft) ↔ (∀ field ∈ renderedFields draft, Clean field) ∧
      ∀ detail ∈ renderedDetails registry draft, Clean detail := by
  simp only [clean_iff, markdown_shows foreign_identifier hplain,
    markdown_shows foreign_citation hplain, not_or, not_exists, not_and, imp_and, forall_and]
  exact and_and_and_comm

/-- The label of a piece of evidence with clean labels is clean when its time is. -/
theorem clean_displayLabel (hlabels : CleanLabels registry) (id : String) :
    Clean (((registry id).map EvidenceDescriptor.displayLabel).getD "未知来源") ↔
      ∀ descriptor ∈ registry id, descriptor.isCalculation = false →
        nonempty descriptor.documentLocation = none → ∀ stamp ∈ descriptor.stamp, Clean stamp := by
  cases hid : registry id with
  | none => exact iff_of_true (by decide) fun _ h => absurd h (by simp)
  | some descriptor =>
    have hclean := hlabels id descriptor hid
    have hidentifier := displayLabel_shows foreign_identifier fun label hmem =>
      (clean_iff.1 (hclean label hmem)).1
    have hcitation := displayLabel_shows foreign_citation fun label hmem =>
      (clean_iff.1 (hclean label hmem)).2
    rw [Option.map_some, Option.getD_some, clean_iff, hidentifier, hcitation]
    constructor
    · rintro ⟨hno, hno'⟩ _ heq hcalc hlocation stamp hstamp
      cases heq
      exact clean_iff.2 ⟨fun h => hno ⟨hcalc, hlocation, stamp, hstamp, h⟩,
        fun h => hno' ⟨hcalc, hlocation, stamp, hstamp, h⟩⟩
    · intro hstamps
      exact ⟨fun ⟨hcalc, hlocation, stamp, hstamp, h⟩ =>
          (clean_iff.1 (hstamps descriptor rfl hcalc hlocation stamp hstamp)).1 h,
        fun ⟨hcalc, hlocation, stamp, hstamp, h⟩ =>
          (clean_iff.1 (hstamps descriptor rfl hcalc hlocation stamp hstamp)).2 h⟩

/-- **Only its texts bring a machine identity into the report.** The report of an accepted draft
shows neither an identifier nor a citation of the verifier form exactly when its texts do not. -/
theorem identifiers_hidden (reader : FigureReader F)
    (registry : String → Option EvidenceDescriptor) (taskSymbols : List String)
    (draft : VerifiedReportDraft F) (hplain : PlainDisplay F) (hlabels : CleanLabels registry)
    (hvalid : validateDraft reader registry taskSymbols draft = []) :
    Clean (markdown registry draft) ↔ CleanTexts registry draft := by
  have h := accepted_of_validateDraft hvalid
  have hdetails : (∀ detail ∈ renderedDetails registry draft, Clean detail) ↔
      (∀ claim ∈ draft.claims, ∀ item ∈ ownLineItems claim, ∀ text ∈ item.texts, Clean text) ∧
        ∀ claim ∈ draft.claims, ∀ id ∈ claim.referenced,
          Clean (((registry id).map EvidenceDescriptor.displayLabel).getD "未知来源") := by
    have hnot : ¬ (∃ detail ∈ renderedDetails registry draft, ¬ Clean detail) ↔ _ :=
      not_congr (exists_renderedDetails h fun text => ¬ Clean text)
    simpa only [not_exists, not_and, not_not, not_or] using hnot
  rw [clean_markdown hplain, forall_renderedFields h, hdetails]
  simp only [clean_displayLabel hlabels]
  exact ⟨fun ⟨hfields, hnumbers, hstamps⟩ => ⟨hfields, hnumbers, hstamps⟩,
    fun hclean => ⟨hclean.fields, hclean.numbers, hclean.stamps⟩⟩

/-- The evidence of a price. -/
def priceRegistry (id : String) : Option EvidenceDescriptor :=
  if id = "evf_price" then
    some { evidenceId := id, source := "tencent", field := some "/quote/last",
           observedAt := some "2026-08-25T10:00:00+08:00" }
  else none

/-- A price, referenced in the statement of its claim, under a given title. -/
def pricedDraft (title : String) : VerifiedReportDraft ℚ where
  title := title
  executiveSummary := ""
  sections := [⟨"行情", ["price"]⟩]
  claims := [{
    id := "price"
    kind := .observedFact
    statement := "最新价为\x7b最新价\x7d"
    evidenceIds := ["evf_price"]
    numericItems := [⟨12, some "元", "最新价", .observed "evf_price"⟩] }]

theorem cleanLabels_price : CleanLabels priceRegistry := by
  intro id descriptor hid
  rw [priceRegistry] at hid
  split_ifs at hid with heq
  · subst heq
    obtain rfl := Option.some.inj (Option.mem_def.1 hid)
    decide
  · exact absurd hid (by simp)

theorem title_leaks :
    ¬ ∀ (reader : FigureReader ℚ) (registry : String → Option EvidenceDescriptor)
      (taskSymbols : List String) (draft : VerifiedReportDraft ℚ), CleanLabels registry →
      validateDraft reader registry taskSymbols draft = [] → Clean (markdown registry draft) := by
  intro h
  have hclean := h noFigures priceRegistry [] (pricedDraft "evf_price解读") cleanLabels_price
    (by decide +kernel)
  exact absurd hclean.1 (by decide +kernel)

theorem identifiers_hidden_price :
    validateDraft noFigures priceRegistry [] (pricedDraft "行情解读") = [] ∧
      (Clean (markdown priceRegistry (pricedDraft "行情解读")) ↔
        CleanTexts priceRegistry (pricedDraft "行情解读")) := by
  have hvalid : validateDraft noFigures priceRegistry [] (pricedDraft "行情解读") = [] := by
    decide
  exact ⟨hvalid, identifiers_hidden noFigures priceRegistry [] (pricedDraft "行情解读")
    plainDisplay_exact cleanLabels_price hvalid⟩

end Astock.Report
