import Astock.Lib.Token
import Astock.Proof.DraftChecks

/-!
# What the investor is shown

The frame of the report (marks, labels, numbered citations) has no identifier, no citation of the
verifier form and no brace in it. A word that is foreign to the frame is therefore printed exactly
where a text of the draft, or the label of a piece of evidence, brings it in (`markdown_shows`).
-/

namespace Astock.Report

/-! ## Words foreign to the frame -/

/-- A text has a word in it. -/
def Shows (word : List Char) (text : String) : Prop := word <:+: text.toList

/-- The characters that the renderer adds: digits, ideographs and marks. -/
def isFrame (c : Char) : Bool :=
  c.isDigit || 0x4E00 ≤ c.toNat && c.toNat ≤ 0x9FFF ||
    ['#', '-', ' ', '\n', '：', '（', '）', '】', '·', '[', ']'].contains c

/-- The characters in which numbers are written. -/
def isPlain (c : Char) : Bool := c.isAlphanum || c == '.' || c == '-'

/-- A word that the frame cannot bring in, on its own or with what stands beside it. -/
structure Foreign (word : List Char) : Prop where
  apart : ∀ c ∈ word, ¬ isFrame c
  kinds : ∀ kind : ClaimKind, ¬ Shows word ("- 【" ++ kind.displayLabel)
  printed : ∃ c ∈ word, ¬ isPlain c
  spaces : ∀ c ∈ word, ¬ Text.isWhiteSpace c

/-- The words that no reader should see, and the brace of a reference. -/
theorem foreign_words : ∀ word ∈ ["evf_", "【E:", "\x7b"], Foreign word.toList := by
  intro word hword
  have hkinds : ∀ kind : ClaimKind, ∀ word ∈ ["evf_", "【E:", "\x7b"],
      ¬ word.toList <:+: ("- 【" ++ kind.displayLabel).toList := by
    intro kind
    cases kind <;> decide
  have hchars : ∀ word ∈ ["evf_", "【E:", "\x7b"], (∀ c ∈ word.toList, ¬ isFrame c) ∧
      (∃ c ∈ word.toList, ¬ isPlain c) ∧ ∀ c ∈ word.toList, ¬ Text.isWhiteSpace c := by
    decide
  obtain ⟨hapart, hprinted, hspaces⟩ := hchars word hword
  exact ⟨hapart, fun kind => hkinds kind word hword, hprinted, hspaces⟩

variable {word : List Char}

theorem Foreign.ne_nil (hw : Foreign word) : word ≠ [] := by
  obtain ⟨c, hc, -⟩ := hw.printed
  exact List.ne_nil_of_mem hc

/-- A text of the frame. -/
theorem Foreign.apartOf (hw : Foreign word) {text : String} (h : ∀ c ∈ text.toList, isFrame c) :
    Token.Apart word text.toList :=
  fun c hc hword => hw.apart c hword (h c hc)

/-- A text in the characters of a number does not have the word. -/
theorem Foreign.plain (hw : Foreign word) {text : String} (h : ∀ c ∈ text.toList, isPlain c) :
    ¬ Shows word text := by
  intro hin
  obtain ⟨c, hc, hplain⟩ := hw.printed
  exact hplain (h c (hin.subset hc))

theorem Foreign.frame (hw : Foreign word) {text : String} (h : Token.Apart word text.toList) :
    ¬ Shows word text :=
  h.not_infix hw.ne_nil

/-- A text of the frame behind another text. -/
theorem Foreign.behind (hw : Foreign word) {text : String} (h : Token.Apart word text.toList)
    (front : String) : Shows word (front ++ text) ↔ Shows word front := by
  rw [Shows, String.toList_append]
  exact h.behind hw.ne_nil

/-- A text of the frame in front of another text. -/
theorem Foreign.front (hw : Foreign word) {text : String} (h : Token.Apart word text.toList)
    (rest : String) : Shows word (text ++ rest) ↔ Shows word rest := by
  rw [Shows, String.toList_append]
  exact h.front hw.ne_nil

/-- A text of the frame between two texts. -/
theorem shows_between {text : String} (h : Token.Apart word text.toList) (hne : text ≠ "")
    (front rest : String) :
    Shows word (front ++ text ++ rest) ↔ Shows word front ∨ Shows word rest := by
  rw [Shows, String.toList_append, String.toList_append, List.append_assoc]
  exact h.between fun hnil => hne (String.toList_eq_nil_iff.1 hnil)

/-- White space around a text does not matter. -/
theorem Foreign.trim (hw : Foreign word) (text : String) :
    Shows word (Text.trim text) ↔ Shows word text := by
  rw [Shows, Text.trim, String.toList_ofList, Token.infix_rdropWhile hw.ne_nil hw.spaces,
    Token.infix_dropWhile hw.ne_nil hw.spaces]
  rfl

/-- A word in texts with a text of the frame between them stands in one of them. -/
theorem Foreign.intercalate (hw : Foreign word) {text : String}
    (h : Token.Apart word text.toList) (hne : text ≠ "") :
    ∀ parts : List String, Shows word (text.intercalate parts) ↔ ∃ part ∈ parts, Shows word part
  | [] => by simp [Shows, hw.ne_nil]
  | [part] => by simp [Shows]
  | part :: next :: parts => by
    rw [String.intercalate_cons_cons, shows_between h hne,
      hw.intercalate h hne (next :: parts)]
    exact (List.exists_mem_cons_iff ..).symm

/-! ## What a block shows -/

variable {F : Type} [PrintedFloat F] {registry : String → Option EvidenceDescriptor}
variable {draft : VerifiedReportDraft F}

/-- A number on its own line, apart from its value. -/
def NumericItem.texts (item : NumericItem F) : List String :=
  item.label :: item.unit.toList ++ item.provenance.operation.toList

/-- The prose of a block. -/
def Block.fields (draft : VerifiedReportDraft F) : Block F → List String
  | .title => [substituteNumbers draft.title (reportNumbers draft)]
  | .summary => [Text.trim (substituteNumbers draft.executiveSummary (reportNumbers draft))]
  | .prose claim => [Text.trim (substituteNumbers claim.statement (declaredNumbers claim))]
  | .heading text | .assumption text | .uncertainty text => [text]
  | .overallUncertainty text => [Text.trim (substituteNumbers text (reportNumbers draft))]
  | .limitation text => [substituteNumbers text (reportNumbers draft)]
  | .number _ | .conflicts _ | .blank | .limitationsHeading | .referencesHeading
  | .reference _ _ => []

/-- The labels in a block. -/
def Block.details (registry : String → Option EvidenceDescriptor) : Block F → List String
  | .number item => item.texts
  | .reference _ id => [((registry id).map EvidenceDescriptor.displayLabel).getD "未知来源"]
  | _ => []

/-- The numbers of a type are written in the characters of numbers. -/
def PlainDisplay (F : Type) [PrintedFloat F] : Prop :=
  ∀ value : F, ∀ c ∈ (PrintedFloat.display value).toList, isPlain c

theorem plainDisplay_exact : PlainDisplay ℚ := by
  intro value c hc
  rcases PrintedFloat.mem_exactDisplay hc with h | rfl | rfl
  · simp [isPlain, Char.isAlphanum, h]
  · rfl
  · rfl

theorem mem_toString_nat {n : ℕ} {c : Char} (h : c ∈ (toString n).toList) : c.isDigit := by
  have hdigits : (toString n).toList = Nat.toDigits 10 n := Nat.toList_repr
  rw [hdigits] at h
  exact Nat.isDigit_of_mem_toDigits (by decide) (by decide) h

/-- Numbered citations belong to the frame. -/
theorem bracketed_frame (numbers : List ℕ) : ∀ c ∈ (bracketed numbers).toList, isFrame c := by
  intro c hc
  rw [bracketed, String.toList_join] at hc
  obtain ⟨text, htext, hc⟩ := List.mem_flatMap.1 hc
  obtain ⟨n, -, rfl⟩ := List.mem_map.1 htext
  rw [String.toList_append, String.toList_append, List.mem_append, List.mem_append] at hc
  rcases hc with (hc | hc) | hc
  · exact (by decide : ∀ c ∈ "[".toList, isFrame c) c hc
  · simp [isFrame, mem_toString_nat hc]
  · exact (by decide : ∀ c ∈ "]".toList, isFrame c) c hc

theorem citationMarks_frame (numbers : List ℕ) :
    ∀ c ∈ (citationMarks numbers).toList, isFrame c := by
  rw [citationMarks]
  split
  · decide
  · intro c hc
    rw [String.toList_append, List.mem_append] at hc
    rcases hc with hc | hc
    · exact (by decide : ∀ c ∈ " ".toList, isFrame c) c hc
    · exact bracketed_frame numbers c hc

omit [PrintedFloat F] in
theorem displayLabel_frame (provenance : NumericProvenance F) :
    ∀ c ∈ provenance.displayLabel.toList, isFrame c := by
  unfold NumericProvenance.displayLabel
  split <;> decide

theorem trustLabel_frame (descriptor : EvidenceDescriptor) :
    ∀ c ∈ descriptor.trustLabel.toList, isFrame c := by
  unfold EvidenceDescriptor.trustLabel
  split_ifs <;> decide

/-- A number on its own line shows its label, its unit and its operation. -/
theorem number_shows (hw : Foreign word) (hplain : PlainDisplay F) (item : NumericItem F) :
    Shows word ((Block.number item).text registry draft) ↔ ∃ text ∈ item.texts, Shows word text := by
  have hmarks : ∀ numbers, Token.Apart word (citationMarks numbers).toList :=
    fun numbers => hw.apartOf (citationMarks_frame numbers)
  have hend : Token.Apart word "）\n".toList := hw.apartOf (by decide)
  have hlabel : Shows word ("    - " ++ item.label ++ "：" ++ PrintedFloat.display item.value) ↔
      Shows word item.label := by
    rw [shows_between (hw.apartOf (by decide)) (by decide), hw.front (hw.apartOf (by decide))]
    exact or_iff_left (hw.plain (hplain item.value))
  have hunit : Shows word ("    - " ++ item.label ++ "：" ++ PrintedFloat.display item.value ++
      (item.unit.map (" " ++ ·)).getD "") ↔ Shows word item.label ∨ ∃ u ∈ item.unit, Shows word u := by
    cases hunit : item.unit with
    | none =>
      rw [Option.map_none, Option.getD_none, hw.behind (hw.apartOf (by decide)), hlabel]
      simp
    | some u =>
      rw [Option.map_some, Option.getD_some, ← String.append_assoc,
        shows_between (hw.apartOf (by decide)) (by decide), hlabel]
      simp
  have hkind : ∀ front, Shows word (front ++ "（" ++ item.provenance.displayLabel) ↔ Shows word front := by
    intro front
    rw [hw.behind (hw.apartOf (displayLabel_frame item.provenance)), hw.behind (hw.apartOf (by decide))]
  have htexts : (∃ text ∈ item.texts, Shows word text) ↔ (Shows word item.label ∨
      ∃ u ∈ item.unit, Shows word u) ∨ ∃ o ∈ item.provenance.operation, Shows word o := by
    simp [NumericItem.texts, or_and_right, exists_or, or_assoc]
  unfold Block.text
  rw [hw.behind hend, hw.behind (hmarks _), htexts]
  cases hop : item.provenance.operation with
  | none =>
    rw [Option.map_none, Option.getD_none, hw.behind (hw.apartOf (by decide)), hkind, hunit]
    simp
  | some operation =>
    rw [Option.map_some, Option.getD_some, ← String.append_assoc,
      shows_between (hw.apartOf (by decide)) (by decide), hkind, hunit]
    simp

/-- **A block shows a word where its prose or its labels do.** -/
theorem block_shows (hw : Foreign word) (hplain : PlainDisplay F) (block : Block F) :
    Shows word (block.text registry draft) ↔
      (∃ field ∈ block.fields draft, Shows word field) ∨
        ∃ detail ∈ block.details registry, Shows word detail := by
  have hmarks : ∀ numbers, Token.Apart word (citationMarks numbers).toList :=
    fun numbers => hw.apartOf (citationMarks_frame numbers)
  have hframe : ∀ {front rest : String}, (∀ c ∈ front.toList, isFrame c) →
      (∀ c ∈ rest.toList, isFrame c) → ∀ text, Shows word (front ++ text ++ rest) ↔ Shows word text := by
    intro front rest hfront hrest text
    rw [hw.behind (hw.apartOf hrest), hw.front (hw.apartOf hfront)]
  cases block with
  | number item => simpa [Block.fields, Block.details] using number_shows hw hplain item
  | summary =>
    unfold Block.text
    dsimp only
    rw [hw.behind (hw.apartOf (by decide))]
    simp [Block.fields, Block.details]
  | title | heading | assumption | uncertainty | overallUncertainty | limitation =>
    unfold Block.text
    dsimp only
    rw [hframe (by decide) (by decide)]
    simp [Block.fields, Block.details]
  | prose claim =>
    have hkind : ¬ Shows word ("- 【" ++ claim.kind.displayLabel) := hw.kinds claim.kind
    unfold Block.text
    rw [hw.behind (hw.apartOf (by decide)), hw.behind (hmarks _),
      shows_between (hw.apartOf (by decide)) (by decide), or_iff_right hkind]
    simp [Block.fields, Block.details]
  | conflicts ids =>
    have hin : ¬ Shows word ((Block.conflicts ids : Block F).text registry draft) := by
      unfold Block.text
      rw [hw.behind (hw.apartOf (by decide)), hw.front (hw.apartOf (by decide))]
      exact hw.frame (hw.apartOf (bracketed_frame _))
    simpa [Block.fields, Block.details] using hin
  | blank | limitationsHeading | referencesHeading =>
    refine iff_of_false (hw.frame (hw.apartOf ?_)) (by simp [Block.fields, Block.details])
    unfold Block.text
    dsimp only
    decide
  | reference n id =>
    have htrust : ∀ c ∈ (((registry id).map EvidenceDescriptor.trustLabel).getD "证据不足").toList,
        isFrame c := by
      cases registry id with
      | none => decide
      | some descriptor => exact trustLabel_frame descriptor
    unfold Block.text
    rw [hw.behind (hw.apartOf (by decide)), hw.behind (hw.apartOf htrust),
      hw.behind (hw.apartOf (by decide)), hw.front]
    · simp [Block.fields, Block.details]
    · refine hw.apartOf fun c hc => ?_
      rw [String.toList_append, String.toList_append, List.mem_append, List.mem_append] at hc
      rcases hc with (hc | hc) | hc
      · exact (by decide : ∀ c ∈ "[".toList, isFrame c) c hc
      · simp [isFrame, mem_toString_nat hc]
      · exact (by decide : ∀ c ∈ "] ".toList, isFrame c) c hc

/-- A block ends its line. -/
theorem block_ends (block : Block F) :
    ∃ line, (block.text registry draft).toList = line ++ ['\n'] := by
  have hends : ∀ (front : String) {rest : String}, (∃ line, rest.toList = line ++ ['\n']) →
      ∃ line, (front ++ rest).toList = line ++ ['\n'] := by
    rintro front rest ⟨line, hline⟩
    exact ⟨front.toList ++ line, by rw [String.toList_append, hline, List.append_assoc]⟩
  cases block with
  | title | heading | summary | overallUncertainty => exact hends _ ⟨['\n'], rfl⟩
  | limitationsHeading => exact ⟨"## 局限性\n".toList, by unfold Block.text; dsimp only; rfl⟩
  | referencesHeading => exact ⟨"## 证据\n".toList, by unfold Block.text; dsimp only; rfl⟩
  | blank => exact ⟨[], by unfold Block.text; dsimp only; rfl⟩
  | number item => exact hends _ ⟨['）'], rfl⟩
  | prose | assumption | uncertainty | conflicts | limitation | reference => exact hends _ ⟨[], rfl⟩

/-- The texts that the frame surrounds: the prose of the report. -/
def renderedFields (draft : VerifiedReportDraft F) : List String :=
  (markdownBlocks draft).flatMap (Block.fields draft)

/-- The labels of the numbers on their own lines and of the references. -/
def renderedDetails (registry : String → Option EvidenceDescriptor) (draft : VerifiedReportDraft F) :
    List String :=
  (markdownBlocks draft).flatMap (Block.details registry)

/-- **The report shows a word foreign to its frame where its prose or its labels do.** -/
theorem markdown_shows (hw : Foreign word) (hplain : PlainDisplay F) :
    Shows word (markdown registry draft) ↔
      (∃ field ∈ renderedFields draft, Shows word field) ∨
        ∃ detail ∈ renderedDetails registry draft, Shows word detail := by
  have hnewline : '\n' ∉ word := fun hmem => hw.spaces _ hmem rfl
  have hlines : ∀ line ∈ ((markdownBlocks draft).map (Block.text registry draft)).map String.toList,
      ∃ a, ∃ c, line = a ++ [c] ∧ c ∉ word := by
    intro line hline
    rw [List.map_map] at hline
    obtain ⟨block, -, rfl⟩ := List.mem_map.1 hline
    have hends : ∃ line, (block.text registry draft).toList = line ++ ['\n'] := block_ends block
    obtain ⟨line, hline⟩ := hends
    exact ⟨line, '\n', hline, hnewline⟩
  rw [Shows, markdown, String.toList_join, List.flatMap_def, Token.infix_flatten hw.ne_nil hlines,
    List.map_map]
  constructor
  · rintro ⟨line, hline, hshows⟩
    obtain ⟨block, hblock, rfl⟩ := List.mem_map.1 hline
    refine ((block_shows hw hplain block).1 hshows).imp ?_ ?_
    · rintro ⟨field, hfield, hin⟩
      exact ⟨field, List.mem_flatMap.2 ⟨block, hblock, hfield⟩, hin⟩
    · rintro ⟨detail, hdetail, hin⟩
      exact ⟨detail, List.mem_flatMap.2 ⟨block, hblock, hdetail⟩, hin⟩
  · rintro (⟨field, hfield, hin⟩ | ⟨detail, hdetail, hin⟩)
    · obtain ⟨block, hblock, hfield⟩ := List.mem_flatMap.1 hfield
      exact ⟨_, List.mem_map_of_mem hblock, (block_shows hw hplain block).2 (.inl ⟨field, hfield, hin⟩)⟩
    · obtain ⟨block, hblock, hdetail⟩ := List.mem_flatMap.1 hdetail
      exact ⟨_, List.mem_map_of_mem hblock, (block_shows hw hplain block).2 (.inr ⟨detail, hdetail, hin⟩)⟩

/-! ## The texts of a draft -/

/-- The prose of a claim. -/
def Claim.fields (claim : Claim F) : List String :=
  Text.trim (substituteNumbers claim.statement (declaredNumbers claim)) ::
    claim.assumptions ++ claim.uncertainty.toList

theorem claimBlocks_fields (claim : Claim F) :
    (claimBlocks draft claim).flatMap (Block.fields draft) = claim.fields := by
  have hnumbers : ((ownLineItems claim).map Block.number).flatMap (Block.fields draft) = [] :=
    List.flatMap_eq_nil_iff.2 fun block hblock => by
      obtain ⟨item, -, rfl⟩ := List.mem_map.1 hblock
      rfl
  rw [claimBlocks, Claim.fields]
  simp only [List.flatMap_append, List.flatMap_cons, hnumbers]
  split_ifs <;> simp [Block.fields, List.flatMap_map]

omit [PrintedFloat F] in
theorem claimBlocks_details (claim : Claim F) :
    (claimBlocks draft claim).flatMap (Block.details registry) =
      (ownLineItems claim).flatMap NumericItem.texts := by
  rw [claimBlocks]
  split_ifs <;> simp [Block.details, List.flatMap_map]

theorem sectionBlocks_fields (part : ReportSection) :
    (sectionBlocks draft part).flatMap (Block.fields draft) =
      part.heading :: (sectionClaims draft part).flatMap Claim.fields := by
  simp [sectionBlocks, List.flatMap_assoc, claimBlocks_fields, Block.fields]

theorem sectionBlocks_details (part : ReportSection) :
    (sectionBlocks draft part).flatMap (Block.details registry) =
      (sectionClaims draft part).flatMap fun claim =>
        (ownLineItems claim).flatMap NumericItem.texts := by
  simp [sectionBlocks, List.flatMap_assoc, claimBlocks_details, Block.details]

/-- **The prose of the report, in order.** -/
theorem renderedFields_eq : renderedFields draft =
    substituteNumbers draft.title (reportNumbers draft) ::
      (if Text.trim draft.executiveSummary = "" then []
      else [Text.trim (substituteNumbers draft.executiveSummary (reportNumbers draft))]) ++
      (draft.sections.flatMap fun part =>
        part.heading :: (sectionClaims draft part).flatMap Claim.fields) ++
      draft.overallUncertainty.toList.map
        (fun text => Text.trim (substituteNumbers text (reportNumbers draft))) ++
      draft.limitations.map (substituteNumbers · (reportNumbers draft)) := by
  have hreferences : ((referenceOrder draft).mapIdx fun index id =>
      (Block.reference (index + 1) id : Block F)).flatMap (Block.fields draft) = [] :=
    List.flatMap_eq_nil_iff.2 fun block hblock => by
      obtain ⟨index, _, rfl⟩ := List.mem_mapIdx.1 hblock
      rfl
  have hsections : (draft.sections.flatMap (sectionBlocks draft)).flatMap (Block.fields draft) =
      draft.sections.flatMap fun part =>
        part.heading :: (sectionClaims draft part).flatMap Claim.fields := by
    rw [List.flatMap_assoc]
    exact congrArg (List.flatMap · draft.sections) (funext sectionBlocks_fields)
  have hlimitations : (if draft.limitations = [] then []
      else .limitationsHeading :: draft.limitations.map .limitation ++ [.blank]).flatMap
        (Block.fields draft) = draft.limitations.map (substituteNumbers · (reportNumbers draft)) := by
    split_ifs with h
    · rw [h]
      rfl
    · rw [List.flatMap_append, List.flatMap_cons, List.flatMap_map]
      simp [Block.fields, List.map_eq_flatMap]
  have hrest : (if referenceOrder draft = [] then []
      else .referencesHeading :: (referenceOrder draft).mapIdx fun index id =>
        (Block.reference (index + 1) id : Block F)).flatMap (Block.fields draft) = [] := by
    split_ifs
    · rfl
    · rw [List.flatMap_cons, hreferences]
      rfl
  have hfront : (.title :: (if Text.trim draft.executiveSummary = "" then [] else [.summary]) :
      List (Block F)).flatMap (Block.fields draft) =
      substituteNumbers draft.title (reportNumbers draft) ::
        if Text.trim draft.executiveSummary = "" then []
        else [Text.trim (substituteNumbers draft.executiveSummary (reportNumbers draft))] := by
    split_ifs <;> rfl
  have hoverall : (draft.overallUncertainty.toList.map .overallUncertainty).flatMap
      (Block.fields draft) = draft.overallUncertainty.toList.map
        fun text => Text.trim (substituteNumbers text (reportNumbers draft)) := by
    rw [List.flatMap_map]
    exact (List.map_eq_flatMap ..).symm
  rw [renderedFields, markdownBlocks]
  simp only [List.flatMap_append, hfront, hsections, hoverall, hlimitations, hrest, List.append_nil]

theorem flatMap_mapIdx {α β γ : Type} {g : β → List γ} {k : α → γ} {f : ℕ → α → β}
    (h : ∀ n a, g (f n a) = [k a]) (l : List α) : (l.mapIdx f).flatMap g = l.map k := by
  induction l generalizing f with
  | nil => rfl
  | cons a l ih =>
    rw [List.mapIdx_cons, List.flatMap_cons, h, ih fun n => h (n + 1)]
    rfl

/-- **The labels of the report, in order.** -/
theorem renderedDetails_eq : renderedDetails registry draft =
    (printedClaims draft).flatMap (fun claim => (ownLineItems claim).flatMap NumericItem.texts) ++
      (referenceOrder draft).map fun id =>
        ((registry id).map EvidenceDescriptor.displayLabel).getD "未知来源" := by
  have hsections : (draft.sections.flatMap (sectionBlocks draft)).flatMap (Block.details registry) =
      (printedClaims draft).flatMap fun claim => (ownLineItems claim).flatMap NumericItem.texts := by
    rw [List.flatMap_assoc, printedClaims, List.flatMap_assoc]
    exact congrArg (List.flatMap · draft.sections) (funext sectionBlocks_details)
  have hlimitations : (if draft.limitations = [] then []
      else .limitationsHeading :: draft.limitations.map .limitation ++ [.blank] : List (Block F)).flatMap
        (Block.details registry) = [] := by
    split_ifs
    · rfl
    · simp [Block.details, List.flatMap_map]
  have hrest : (if referenceOrder draft = [] then []
      else .referencesHeading :: (referenceOrder draft).mapIdx fun index id =>
        (Block.reference (index + 1) id : Block F)).flatMap (Block.details registry) =
      (referenceOrder draft).map fun id =>
        ((registry id).map EvidenceDescriptor.displayLabel).getD "未知来源" := by
    split_ifs with h
    · rw [h]
      rfl
    · have hheading : (Block.referencesHeading : Block F).details registry = [] := rfl
      rw [List.flatMap_cons, hheading, List.nil_append]
      refine flatMap_mapIdx ?_ _
      exact fun _ _ => rfl
  rw [renderedDetails, markdownBlocks]
  simp only [List.flatMap_append, hsections, hlimitations, hrest, List.append_nil]
  have hsummary : (.title :: (if Text.trim draft.executiveSummary = "" then [] else [.summary]) :
      List (Block F)).flatMap (Block.details registry) = [] := by
    split_ifs <;> rfl
  have hoverall : (draft.overallUncertainty.toList.map .overallUncertainty : List (Block F)).flatMap
      (Block.details registry) = [] := by
    simp [Block.details, List.flatMap_map]
  rw [hsummary, hoverall, List.nil_append, List.append_nil]

/-- What is to hold of every text that the report prints as prose. -/
structure EachField (draft : VerifiedReportDraft F) (P : String → Prop) : Prop where
  title : P (substituteNumbers draft.title (reportNumbers draft))
  summary : Text.trim draft.executiveSummary ≠ "" →
    P (Text.trim (substituteNumbers draft.executiveSummary (reportNumbers draft)))
  heading : ∀ part ∈ draft.sections, P part.heading
  statement : ∀ claim ∈ draft.claims,
    P (Text.trim (substituteNumbers claim.statement (declaredNumbers claim)))
  assumption : ∀ claim ∈ draft.claims, ∀ text ∈ claim.assumptions, P text
  uncertainty : ∀ claim ∈ draft.claims, ∀ text ∈ claim.uncertainty, P text
  overall : ∀ text ∈ draft.overallUncertainty,
    P (Text.trim (substituteNumbers text (reportNumbers draft)))
  limitation : ∀ text ∈ draft.limitations, P (substituteNumbers text (reportNumbers draft))

theorem forall_renderedFields (h : Accepted draft) (P : String → Prop) :
    (∀ field ∈ renderedFields draft, P field) ↔ EachField draft P := by
  have hfield : ∀ {claim : Claim F} {field : String}, claim ∈ draft.claims → field ∈ claim.fields →
      field ∈ renderedFields draft := by
    intro claim field hclaim hfield
    obtain ⟨part, hpart, hmem⟩ := List.mem_flatMap.1 ((mem_printedClaims h).2 hclaim)
    rw [renderedFields_eq]
    refine List.mem_append_left _ (List.mem_append_left _ (List.mem_append_right _ ?_))
    exact List.mem_flatMap.2 ⟨part, hpart, List.mem_cons_of_mem _ (List.mem_flatMap.2 ⟨claim, hmem, hfield⟩)⟩
  constructor
  · intro hall
    exact {
      title := hall _ (by simp [renderedFields_eq])
      summary := fun hsummary => hall _ (by simp [renderedFields_eq, hsummary])
      heading := fun part hpart => hall _ (by
        rw [renderedFields_eq]
        refine List.mem_append_left _ (List.mem_append_left _ (List.mem_append_right _ ?_))
        exact List.mem_flatMap.2 ⟨part, hpart, List.mem_cons_self⟩)
      statement := fun claim hclaim => hall _ (hfield hclaim List.mem_cons_self)
      assumption := fun claim hclaim text htext => hall _ (hfield hclaim
        (List.mem_cons_of_mem _ (List.mem_append_left _ htext)))
      uncertainty := fun claim hclaim text htext => hall _ (hfield hclaim
        (List.mem_cons_of_mem _ (List.mem_append_right _ (Option.mem_toList.2 htext))))
      overall := fun text htext => hall _ (by
        rw [renderedFields_eq]
        refine List.mem_append_left _ (List.mem_append_right _ ?_)
        exact List.mem_map.2 ⟨text, Option.mem_toList.2 htext, rfl⟩)
      limitation := fun text htext => hall _ (by
        rw [renderedFields_eq]
        exact List.mem_append_right _ (List.mem_map.2 ⟨text, htext, rfl⟩)) }
  · intro each field hmem
    rw [renderedFields_eq, List.mem_append, List.mem_append, List.mem_append, List.mem_cons] at hmem
    rcases hmem with (((rfl | hmem) | hmem) | hmem) | hmem
    · exact each.title
    · split_ifs at hmem with hsummary
      · exact absurd hmem List.not_mem_nil
      · rw [List.mem_singleton] at hmem
        exact hmem ▸ each.summary hsummary
    · obtain ⟨part, hpart, hmem⟩ := List.mem_flatMap.1 hmem
      rcases List.mem_cons.1 hmem with rfl | hmem
      · exact each.heading part hpart
      · obtain ⟨claim, hclaim, hmem⟩ := List.mem_flatMap.1 hmem
        have hdraft := ((mem_sectionClaims h).1 hclaim).1
        rcases List.mem_cons.1 hmem with rfl | hmem
        · exact each.statement claim hdraft
        · rcases List.mem_append.1 hmem with hmem | hmem
          · exact each.assumption claim hdraft field hmem
          · exact each.uncertainty claim hdraft field (Option.mem_toList.1 hmem)
    · obtain ⟨text, htext, rfl⟩ := List.mem_map.1 hmem
      exact each.overall text (Option.mem_toList.1 htext)
    · obtain ⟨text, htext, rfl⟩ := List.mem_map.1 hmem
      exact each.limitation text htext

/-- An identifier is numbered when a claim leans on it. -/
theorem mem_referenceOrder (h : Accepted draft) {id : String} :
    id ∈ referenceOrder draft ↔ ∃ claim ∈ draft.claims, id ∈ claim.referenced := by
  have hnote : ∀ (ids order : List String), id ∈ ids.foldl note order ↔ id ∈ order ∨ id ∈ ids := by
    intro ids
    induction ids with
    | nil => simp
    | cons id' ids ih =>
      intro order
      rw [List.foldl_cons, ih, note, List.mem_cons]
      split_ifs with hmem
      · constructor
        · exact Or.imp_right .inr
        · rintro (h | rfl | h)
          exacts [.inl h, .inl hmem, .inr h]
      · rw [List.mem_append, List.mem_singleton, or_assoc]
  rw [referenceOrder, hnote, List.mem_flatMap]
  simp [mem_printedClaims h]

/-- The labels of the report are those of the numbers on their own lines and of the references. -/
theorem exists_renderedDetails (h : Accepted draft) (P : String → Prop) :
    (∃ detail ∈ renderedDetails registry draft, P detail) ↔
      (∃ claim ∈ draft.claims, ∃ item ∈ ownLineItems claim, ∃ text ∈ item.texts, P text) ∨
      ∃ claim ∈ draft.claims, ∃ id ∈ claim.referenced,
        P (((registry id).map EvidenceDescriptor.displayLabel).getD "未知来源") := by
  rw [renderedDetails_eq]
  constructor
  · rintro ⟨text, hmem, hP⟩
    rcases List.mem_append.1 hmem with hmem | hmem
    · obtain ⟨claim, hclaim, hmem⟩ := List.mem_flatMap.1 hmem
      obtain ⟨item, hitem, htext⟩ := List.mem_flatMap.1 hmem
      exact .inl ⟨claim, (mem_printedClaims h).1 hclaim, item, hitem, text, htext, hP⟩
    · obtain ⟨id, hid, rfl⟩ := List.mem_map.1 hmem
      obtain ⟨claim, hclaim, hid⟩ := (mem_referenceOrder h).1 hid
      exact .inr ⟨claim, hclaim, id, hid, hP⟩
  · rintro (⟨claim, hclaim, item, hitem, text, htext, hP⟩ | ⟨claim, hclaim, id, hid, hP⟩)
    · refine ⟨text, List.mem_append_left _ (List.mem_flatMap.2 ⟨claim, ?_, ?_⟩), hP⟩
      · exact (mem_printedClaims h).2 hclaim
      · exact List.mem_flatMap.2 ⟨item, hitem, htext⟩
    · have hmem := (mem_referenceOrder h).2 ⟨claim, hclaim, hid⟩
      exact ⟨_, List.mem_append_right _ (List.mem_map_of_mem hmem), hP⟩

end Astock.Report
