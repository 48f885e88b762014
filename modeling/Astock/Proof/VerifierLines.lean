import Astock.Lib.LineMap
import Astock.Proof.DraftChecks
import Astock.Spec.ReportVerifier

/-!
# Claim lines and verifier lines

`render_verifier_form` numbers what it prints; the verifier trims the printed text, cuts it into
lines and numbers those. `lines_agree` says for which drafts the numbers are the same.
-/

namespace Astock.Report

variable {F : Type} [PrintedFloat F] {draft : VerifiedReportDraft F}

/-! ## What is printed -/

/-- The texts that the verifier form prints, with the claims for which they are printed. -/
def verifierPieces (draft : VerifiedReportDraft F) : List (List Char × Option String) :=
  (formLines draft).map fun line => ((line.text draft).toList, line.owner)

/-- The index entries of lines behind the first `n`. -/
def indexFrom : ℕ → List (FormLine F) → List (ℕ × String)
  | _, [] => []
  | n, line :: lines => line.owner.toList.map ((n + 1, ·)) ++ indexFrom (n + 1) lines

theorem foldl_push (lines : List (FormLine F)) : ∀ form : VerifierForm,
    let done := lines.foldl (fun form line => form.push (line.text draft) line.owner) form
    done.out = form.out ++ String.join (lines.map fun line => line.text draft ++ "\n") ∧
      done.index = form.index ++ indexFrom form.lineNumber lines := by
  induction lines with
  | nil => simp [indexFrom]
  | cons line lines ih =>
    intro form
    obtain ⟨hout, hindex⟩ := ih (form.push (line.text draft) line.owner)
    refine ⟨?_, ?_⟩
    · rw [List.foldl_cons, hout, List.map_cons, String.join_cons]
      simp only [VerifierForm.push, String.append_assoc]
    · rw [List.foldl_cons, hindex, indexFrom]
      simp only [VerifierForm.push, List.append_assoc]

/-- The verifier form is what was printed, line by line. -/
theorem map_fst_tagged : (Lines.tagged '\n' (verifierPieces draft)).map Prod.fst =
    (verifierMarkdown draft).toList := by
  have hout : verifierMarkdown draft =
      "" ++ String.join ((formLines draft).map fun line => line.text draft ++ "\n") :=
    (foldl_push (formLines draft) {}).1
  rw [hout, String.empty_append, String.toList_join, List.flatMap_map, Lines.tagged, List.map_flatMap,
    verifierPieces, List.flatMap_map]
  refine congrArg (List.flatMap · (formLines draft)) (funext fun line => ?_)
  rw [Lines.map_fst_taggedLine, String.toList_append]
  rfl

/-- The index holds the owner of every line. -/
theorem lookup_indexFrom (n : ℕ) : ∀ (k : ℕ) (lines : List (FormLine F)),
    (indexFrom k lines).lookup (k + n + 1) = (lines[n]?).bind FormLine.owner := by
  have hlate : ∀ (lines : List (FormLine F)) (k j : ℕ), j ≤ k → (indexFrom k lines).lookup j = none := by
    intro lines
    induction lines with
    | nil => exact fun _ _ _ => rfl
    | cons line lines ih =>
      intro k j hj
      rw [indexFrom, List.lookup_append, ih (k + 1) j (by omega), Option.or_none]
      cases line.owner with
      | none => rfl
      | some id =>
        have hne : (j == k + 1) = false := beq_false_of_ne (by omega)
        simp [List.lookup_cons, hne]
  induction n with
  | zero =>
    intro k lines
    cases lines with
    | nil => rfl
    | cons line lines =>
      rw [indexFrom, List.lookup_append, hlate lines (k + 1) _ (by omega), Option.or_none,
        List.getElem?_cons_zero, Option.bind_some]
      cases line.owner with
      | none => rfl
      | some id => simp [List.lookup_cons]
  | succ n ih =>
    intro k lines
    cases lines with
    | nil => rfl
    | cons line lines =>
      have hshift : k + (n + 1) + 1 = (k + 1) + n + 1 := by omega
      rw [indexFrom, List.lookup_append, hshift, ih (k + 1) lines, List.getElem?_cons_succ]
      cases line.owner with
      | none => rfl
      | some id =>
        have hne : (k + 1 + n + 1 == k + 1) = false := beq_false_of_ne (by omega)
        simp [List.lookup_cons, hne]

/-- `verifier_line_claims` maps the number of a line to the claim for which it was printed. -/
theorem verifierLineClaims_eq (n : ℕ) :
    verifierLineClaims draft (n + 1) = ((verifierPieces draft)[n]?).bind Prod.snd := by
  have hindex : (renderVerifierForm draft).index = [] ++ indexFrom 0 (formLines draft) :=
    (foldl_push (formLines draft) {}).2
  have hlookup := lookup_indexFrom n 0 (formLines draft)
  rw [Nat.zero_add] at hlookup
  rw [verifierLineClaims, hindex, List.nil_append, hlookup, verifierPieces, List.getElem?_map,
    Option.bind_map]
  rfl

/-! ## What is read -/

/-- The lines that the verifier reads, each character with the claim for which it was printed. -/
def verifierLines (draft : VerifiedReportDraft F) : List (List (Char × Option String)) :=
  Lines.readLines '\n' Text.isWhiteSpace (verifierPieces draft)

/-- A line as the verifier reads it. -/
def lineRead (line : List (Char × Option String)) : String :=
  String.ofList (Text.lineText (line.map Prod.fst))

/-- These are the lines of the report that is submitted. -/
theorem verifierLines_read :
    (verifierLines draft).map lineRead = Text.lines (Text.trim (verifierMarkdown draft)) := by
  rw [Text.lines, Text.toList_trim, ← map_fst_tagged, Lines.map_trim, Lines.map_split, List.map_map]
  rfl

/-- Every line that the verifier reads under the number of a claim's line is that line, up to white
space at its end, and all others have nothing of a claim in them. -/
def LinesAgree (draft : VerifiedReportDraft F) : Prop :=
  ∀ n : ℕ, match verifierLineClaims draft (n + 1) with
    | some id => ∃ line ∈ (verifierLines draft)[n]?, (∀ x ∈ line, x.2 = some id) ∧
        ∃ claim ∈ draft.claims, claim.id = id ∧
          (lineRead line).toList.rdropWhile Text.isWhiteSpace =
            (claimLine claim).toList.rdropWhile Text.isWhiteSpace
    | none => ∀ line ∈ (verifierLines draft)[n]?, ∀ x ∈ line, x.2 = none

/-- The claim with an identifier, as the verifier form prints it. -/
def claimText (draft : VerifiedReportDraft F) (id : String) : List Char :=
  ((Table.find Claim.id id draft.claims).map claimLine).getD "" |>.toList

theorem claimLine_cons (claim : Claim F) : ∃ rest, (claimLine claim).toList = '【' :: rest := by
  rw [claimLine, claimProse]
  simp only [String.append_assoc]
  rw [String.toList_append]
  exact ⟨_, rfl⟩

/-- A line is printed for a claim that the draft defines. -/
theorem ofClaim_find {claim : Claim F} (h : .ofClaim claim ∈ formLines draft) :
    Table.find Claim.id claim.id draft.claims = some claim := by
  rw [formLines, List.cons_append, List.mem_cons, List.mem_append] at h
  rcases h with h | h | h
  · exact absurd h (by simp)
  · obtain ⟨text, -, h⟩ := List.mem_map.1 h
    exact absurd h (by simp)
  · obtain ⟨part, -, h⟩ := List.mem_flatMap.1 h
    rcases List.mem_cons.1 h with h | h
    · exact absurd h (by simp)
    · obtain ⟨found, hfound, heq⟩ := List.mem_map.1 h
      cases heq
      obtain ⟨id, -, hfind⟩ := List.mem_filterMap.1 hfound
      have hid : claim.id = id := Table.key_of_find hfind
      rw [hid]
      exact hfind

theorem owned_verifierPieces :
    Lines.Owned Text.isWhiteSpace (claimText draft) (verifierPieces draft) := by
  intro piece hpiece id hid
  obtain ⟨line, hline, rfl⟩ := List.mem_map.1 hpiece
  cases line with
  | heading | prose => exact absurd hid (by simp [FormLine.owner])
  | ofClaim claim =>
    cases hid
    have hfind := ofClaim_find hline
    obtain ⟨rest, hrest⟩ := claimLine_cons claim
    have htext : claimText draft claim.id = (claimLine claim).toList := by
      rw [claimText, hfind]
      rfl
    exact ⟨htext.symm, '【', rest, htext.trans hrest, by decide⟩

/-- A text with an owner is the line of a claim. -/
theorem verifierPieces_owned {n : ℕ} {piece : List Char × Option String} {id : String}
    (hpiece : (verifierPieces draft)[n]? = some piece) (hid : piece.2 = some id) :
    ∃ claim ∈ draft.claims, claim.id = id ∧ piece.1 = (claimLine claim).toList := by
  obtain ⟨line, hline, rfl⟩ := List.mem_map.1 (List.mem_of_getElem? hpiece)
  cases line with
  | heading | prose => exact absurd hid (by simp [FormLine.owner])
  | ofClaim claim =>
    cases hid
    exact ⟨claim, Table.mem_of_find (ofClaim_find hline), rfl, rfl⟩

theorem rdropWhile_lineRead (line : List (Char × Option String)) :
    (lineRead line).toList.rdropWhile Text.isWhiteSpace =
      (line.map Prod.fst).rdropWhile Text.isWhiteSpace := by
  rw [lineRead, String.toList_ofList, Text.rdropWhile_lineText]

/-- The numbers agree when the printed texts keep the lines of the claims where they are. -/
theorem linesAgree_iff (h : Accepted draft) :
    LinesAgree draft ↔ Lines.Aligned '\n' Text.isWhiteSpace (verifierPieces draft) := by
  rw [← Lines.agree_iff (by decide) owned_verifierPieces, Lines.agree_iff_getElem, LinesAgree]
  refine forall_congr' fun n => ?_
  rw [verifierLineClaims_eq]
  cases hpiece : (verifierPieces draft)[n]? with
  | none => simp [verifierLines]
  | some piece =>
    rw [Option.bind_some]
    cases hid : piece.2 with
    | none => simp [verifierLines, hid]
    | some id =>
      obtain ⟨claim, hclaim, rfl, htext⟩ := verifierPieces_owned hpiece hid
      have hline : ∀ line, Lines.IsLine Text.isWhiteSpace piece line ↔
          (∀ x ∈ line, x.2 = some claim.id) ∧ ∃ claim' ∈ draft.claims, claim'.id = claim.id ∧
            (lineRead line).toList.rdropWhile Text.isWhiteSpace =
              (claimLine claim').toList.rdropWhile Text.isWhiteSpace := by
        intro line
        rw [Lines.IsLine, hid, htext]
        refine and_congr_right fun _ => ⟨fun heq => ⟨claim, hclaim, rfl, ?_⟩, ?_⟩
        · rw [rdropWhile_lineRead]
          exact heq (Option.some_ne_none _)
        · rintro ⟨claim', hclaim', hsame, heq⟩ -
          rw [← rdropWhile_lineRead, heq, List.inj_on_of_nodup_map h.unique hclaim' hclaim hsame]
      simp only [Option.mem_def, Option.some.injEq, forall_eq', reduceCtorEq, false_implies,
        and_true, hid, ne_eq, not_false_eq_true, true_implies, hline]
      rfl

/-! ## Findings -/

/-- The number of the line that a finding is about. -/
def Finding.line : Finding → Option ℕ
  | .numericClaimWithoutEvidence line | .numericClaimNotReproduced line _ _ => some line
  | _ => none

/-- The code of a finding ends at the first colon. -/
theorem splitCode_append (code detail : String) (h : ':' ∉ code.toList) :
    splitCode (code ++ ":" ++ detail) = (code, some detail) := by
  have htext : (code ++ ":" ++ detail).toList = code.toList ++ ':' :: detail.toList := by
    rw [String.toList_append, String.toList_append, List.append_assoc]
    rfl
  have hcode : ∀ c ∈ code.toList, decide (c ≠ ':') = true :=
    fun c hc => decide_eq_true fun heq => h (heq ▸ hc)
  rw [splitCode, htext, List.span_eq_takeWhile_dropWhile, List.takeWhile_append_of_pos hcode,
    List.dropWhile_append_of_pos hcode]
  simp

/-- A number is read back from its digits. -/
theorem parseUsize_toDigits {n : ℕ} (h : n < 2 ^ 64) : parseUsize (Nat.toDigits 10 n) = some n := by
  have hdigits : ∀ c ∈ Nat.toDigits 10 n, c.isDigit := fun c hc =>
    Nat.isDigit_of_mem_toDigits (by decide) (by decide) hc
  have hsign : ∀ digits, Nat.toDigits 10 n = '+' :: digits → False := fun digits heq =>
    absurd (hdigits '+' (heq ▸ List.mem_cons_self)) (by decide)
  have hne : Nat.toDigits 10 n ≠ [] := Nat.toDigits_ne_nil
  have hvalid : Nat.toDigits 10 n ≠ [] ∧ (Nat.toDigits 10 n).all Char.isDigit = true ∧
      Nat.ofDigitChars 10 (Nat.toDigits 10 n) 0 < 2 ^ 64 := by
    rw [Nat.ofDigitChars_ten_toDigits]
    exact ⟨hne, List.all_eq_true.2 hdigits, h⟩
  rw [parseUsize]
  · rw [if_pos hvalid, Nat.ofDigitChars_ten_toDigits]
  · exact hsign

/-- A finding about a line is looked up under the number of that line. -/
theorem claimForFinding_line {finding : Finding} {n : ℕ} (hline : finding.line = some n)
    (h : n < 2 ^ 64) (lineClaims : ℕ → Option String) :
    claimForFinding (splitCode finding.text).2 lineClaims = lineClaims n := by
  have hdigits : ∀ c ∈ Nat.toDigits 10 n, decide (c ≠ ':') = true := fun c hc =>
    decide_eq_true fun heq => absurd (heq ▸ Nat.isDigit_of_mem_toDigits (by decide) (by decide) hc)
      (by decide)
  have hnumber : (toString n).toList = Nat.toDigits 10 n := Nat.toList_repr
  have hdetail : ∀ rest : String, (rest = "" ∨ ∃ more, rest = ":" ++ more) →
      claimForFinding (some ("line_" ++ toString n ++ rest)) lineClaims = lineClaims n := by
    intro rest hrest
    have htake : ("line_" ++ toString n ++ rest).toList.takeWhile (· ≠ ':') =
        'l' :: 'i' :: 'n' :: 'e' :: '_' :: Nat.toDigits 10 n := by
      have hrest : rest.toList.takeWhile (· ≠ ':') = [] := by
        rcases hrest with rfl | ⟨more, rfl⟩
        · rfl
        · rw [String.toList_append]
          rfl
      rw [String.toList_append, String.toList_append, hnumber, List.append_assoc,
        List.takeWhile_append_of_pos (by decide), List.takeWhile_append_of_pos hdigits, hrest,
        List.append_nil]
      rfl
    rw [claimForFinding]
    dsimp only [bind, Option.bind]
    rw [htake]
    show (parseUsize (Nat.toDigits 10 n)).bind lineClaims = lineClaims n
    rw [parseUsize_toDigits h, Option.bind_some]
  cases finding with
  | numericClaimWithoutEvidence line =>
    cases hline
    have hlit : "numeric_claim_without_evidence:line_" =
        "numeric_claim_without_evidence" ++ ":" ++ "line_" := by decide
    have htext : (Finding.numericClaimWithoutEvidence n).text =
        "numeric_claim_without_evidence" ++ ":" ++ ("line_" ++ toString n ++ "") := by
      rw [String.append_empty, ← String.append_assoc, ← hlit]
      rfl
    rw [htext, splitCode_append _ _ (by decide)]
    exact hdetail "" (.inl rfl)
  | numericClaimNotReproduced line negative raw =>
    cases hline
    have hlit : "numeric_claim_not_reproduced:line_" =
        "numeric_claim_not_reproduced" ++ ":" ++ "line_" := by decide
    have htext : (Finding.numericClaimNotReproduced n negative raw).text =
        "numeric_claim_not_reproduced" ++ ":" ++
          ("line_" ++ toString n ++ (":" ++ ((if negative then "-" else "") ++ raw))) := by
      simp only [← String.append_assoc]
      rw [← hlit]
      rfl
    rw [htext, splitCode_append _ _ (by decide)]
    exact hdetail _ (.inr ⟨_, rfl⟩)
  | _ => exact absurd hline (Option.some_ne_none n).symm

theorem citationFinding_line {context : ReportContext} {id : String} :
    ∀ finding ∈ citationFinding context id, finding.line = none := by
  have hone : ∀ {finding : Finding}, finding.line = none → ∀ found ∈ [finding], found.line = none := by
    intro finding hnone found hfound
    rw [List.mem_singleton.1 hfound]
    exact hnone
  have hempty : ∀ found ∈ ([] : List Finding), found.line = none := fun _ h => absurd h List.not_mem_nil
  rw [citationFinding]
  split_ifs
  · exact hone rfl
  · split
    · exact hone rfl
    · split_ifs
      exacts [hone rfl, hempty, hone rfl, hone rfl, hone rfl, hempty]

theorem numericFindings_line {reader : FigureReader F} {context : ReportContext} {index : ℕ}
    {line : String} :
    ∀ finding ∈ numericFindings reader context index line, finding.line = some (index + 1) := by
  intro finding hmem
  rw [numericFindings] at hmem
  split_ifs at hmem
  · exact absurd hmem List.not_mem_nil
  · rw [List.mem_singleton.1 hmem]
    rfl
  · obtain ⟨numeral, -, rfl⟩ := List.mem_map.1 hmem
    rfl

/-- A finding about a line is about one of the lines that are read. -/
theorem line_of_mem_findings {reader : FigureReader F} {context : ReportContext} {v : Verification}
    (hverify : verify reader context (verifierMarkdown draft) = .ok v) {finding : Finding}
    (hmem : finding ∈ v.findings) {n : ℕ} (hline : finding.line = some n) :
    ∃ index, n = index + 1 ∧ index < (verifierLines draft).length ∧
      (verifierLines draft).length ≤ maxReportChars := by
  have hlines : (verifierLines draft).length =
      (Text.lines (Text.trim (verifierMarkdown draft))).length := by
    rw [← verifierLines_read, List.length_map]
  rw [verify] at hverify
  dsimp only at hverify
  by_cases hsize : Text.trim (verifierMarkdown draft) = "" ∨
      maxReportChars < (Text.trim (verifierMarkdown draft)).length
  · rw [if_pos hsize] at hverify
    exact absurd hverify (by simp)
  rw [if_neg hsize] at hverify
  rw [not_or, not_lt] at hsize
  have hv := (Except.ok.inj hverify).symm
  rw [hv] at hmem
  dsimp only at hmem
  have hlong : (verifierLines draft).length ≤ maxReportChars := by
    rw [hlines, Text.lines, List.length_map]
    exact (Lines.length_split_le _).trans hsize.2
  rw [List.mem_append, List.mem_append] at hmem
  rcases hmem with (hmem | hmem) | hmem
  · obtain ⟨found, hfound, hmem⟩ := List.mem_flatten.1 hmem
    obtain ⟨index, hindex, rfl⟩ := List.mem_mapIdx.1 hfound
    refine ⟨index, ?_, lt_of_lt_of_eq hindex hlines.symm, hlong⟩
    rcases List.mem_append.1 hmem with hmem | hmem
    · obtain ⟨id, -, hmem⟩ := List.mem_flatMap.1 hmem
      rw [citationFinding_line finding hmem] at hline
      exact absurd hline (Option.some_ne_none n).symm
    · rw [numericFindings_line finding hmem] at hline
      exact (Option.some.inj hline).symm
  · split_ifs at hmem
    · have hnone : finding.line = none := by rw [List.mem_singleton.1 hmem]; rfl
      rw [hnone] at hline
      exact absurd hline (Option.some_ne_none n).symm
    · exact absurd hmem List.not_mem_nil
  · split_ifs at hmem
    · have hnone : finding.line = none := by rw [List.mem_singleton.1 hmem]; rfl
      rw [hnone] at hline
      exact absurd hline (Option.some_ne_none n).symm
    · exact absurd hmem List.not_mem_nil

/-- **Claim lines and verifier lines agree** exactly when the line breaks of the printed texts keep
the lines of the claims where they are. Every finding about a line is looked up under the number of
the line for which it was raised. -/
theorem lines_agree (reader : FigureReader F) (registry : String → Option EvidenceDescriptor)
    (taskSymbols : List String) (draft : VerifiedReportDraft F)
    (hvalid : validateDraft reader registry taskSymbols draft = []) :
    (LinesAgree draft ↔ Lines.Aligned '\n' Text.isWhiteSpace (verifierPieces draft)) ∧
      ∀ context v, verify reader context (verifierMarkdown draft) = .ok v →
        ∀ finding ∈ v.findings, ∀ n, finding.line = some n →
          (∃ index, n = index + 1 ∧ index < (verifierLines draft).length) ∧
            claimForFinding (splitCode finding.text).2 (verifierLineClaims draft) =
              verifierLineClaims draft n := by
  refine ⟨linesAgree_iff (accepted_of_validateDraft hvalid), ?_⟩
  intro context v hverify finding hmem n hline
  obtain ⟨index, rfl, hindex, hlong⟩ := line_of_mem_findings hverify hmem hline
  have hsmall : index + 1 < 2 ^ 64 :=
    lt_of_le_of_lt (Nat.succ_le_of_lt (hindex.trans_le hlong)) (by decide)
  exact ⟨⟨index, rfl, hindex⟩, claimForFinding_line hline hsmall _⟩

/-- A scenario under a title. -/
def titledScenario (title : String) : VerifiedReportDraft ℚ where
  title := title
  executiveSummary := ""
  sections := [⟨"情景", ["growth"]⟩]
  claims := [{ id := "growth", kind := .scenario, statement := "增速维持", assumptions := ["需求不变"] }]

theorem titled_line_shifts :
    ¬ ∀ (reader : FigureReader ℚ) (registry : String → Option EvidenceDescriptor)
      (taskSymbols : List String) (draft : VerifiedReportDraft ℚ),
      validateDraft reader registry taskSymbols draft = [] → LinesAgree draft := by
  intro h
  have hagree := h noFigures (fun _ => none) [] (titledScenario "甲\n乙") (by decide) 2
  have hclaim : verifierLineClaims (titledScenario "甲\n乙") 3 = some "growth" := by decide
  rw [hclaim] at hagree
  obtain ⟨line, hline, howner, -⟩ := hagree
  have hread : (verifierLines (titledScenario "甲\n乙"))[2]? =
      some [('情', none), ('景', none), ('\n', none)] := by decide
  rw [hread] at hline
  cases hline
  exact absurd (howner _ List.mem_cons_self) (by decide)

theorem lines_agree_scenario :
    validateDraft noFigures (fun _ => none) [] (titledScenario "情景分析") = [] ∧
      (LinesAgree (titledScenario "情景分析") ↔
        Lines.Aligned '\n' Text.isWhiteSpace (verifierPieces (titledScenario "情景分析"))) := by
  have hvalid : validateDraft noFigures (fun _ => none) [] (titledScenario "情景分析") = [] := by
    decide
  exact ⟨hvalid, (lines_agree noFigures (fun _ => none) [] (titledScenario "情景分析") hvalid).1⟩

end Astock.Report
