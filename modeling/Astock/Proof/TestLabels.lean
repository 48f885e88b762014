import Astock.Lib.Run
import Astock.Proof.RelationSteps

/-!
# Test labels and the training export

The split and the training flag belong to the rows of reviews; the export is per candidate.

* `exported_iff`: what the training export takes, in terms of rows.
* `labels_apart_iff`: a call keeps test labels out of the training export exactly if it is no accepting
  review that leaves its candidate with a test label and a label for training.
* `testLabels_apart`: the same for whole runs.
-/

namespace Astock

open Run

variable {F : Type} {reader : RelationReader} {digest : ℕ → String → String} {env : RelationEnv}
  {s s' : RelationStore F}

/-- The candidate was reviewed with the split. -/
def ReviewedAs (s : RelationStore F) (id split : String) : Prop :=
  ∃ r ∈ s.reviews, r.candidateId = id ∧ r.datasetSplit = some split

/-- The candidate was reviewed for training. -/
def Trainable (s : RelationStore F) (id : String) : Prop :=
  ∃ r ∈ s.reviews, r.candidateId = id ∧ r.trainingEligible = true ∧
    (r.datasetSplit = some "train" ∨ r.datasetSplit = some "dev")

/-- The candidate is part of what `reviewed_annotations` returns for training. -/
def Exported (s : RelationStore F) (split : String) (c : RelationCandidate) : Prop :=
  (s.reviewedAnnotations split true).isOk = true ∧
    ∃ a, (c, a) ∈ s.reviewedCandidates (Text.trim split) true

/-- No candidate that was ever reviewed with the split `test` is exported for training. -/
def TestLabelsApart (s : RelationStore F) : Prop :=
  ∀ split c, Exported s split c → ¬ ReviewedAs s c.candidateId "test"

/-- The rows that a training export takes. -/
def ForTraining (s : RelationStore F) (row : CandidateRow) : Prop :=
  row ∈ s.candidates ∧ row.reviewStatus.accepting = true ∧ row.subjectEntityId.isSome ∧
    row.objectEntityId.isSome ∧ Trainable s row.candidateId

theorem annotate_isSome {c : RelationCandidate} : (RelationStore.annotate c).isSome ↔
    c.subjectEntityId.isSome ∧ c.objectEntityId.isSome ∧ c.evidence ≠ [] := by
  unfold RelationStore.annotate
  cases c.subjectEntityId <;> cases c.objectEntityId <;> cases c.evidence <;> simp

/-- The splits that the training export accepts. -/
theorem reviewedAnnotations_ok {split : String} : (s.reviewedAnnotations split true).isOk = true ↔
    Text.trim split = "train" ∨ Text.trim split = "dev" := by
  unfold RelationStore.reviewedAnnotations
  simp only
  by_cases hknown : Text.trim split ∈ ["train", "dev", "test"]
  · rw [if_neg (not_not.2 hknown)]
    by_cases htest : Text.trim split = "test"
    · rw [if_pos ⟨trivial, htest⟩, htest]
      decide
    · rw [if_neg fun h => htest h.2]
      simp only [List.mem_cons, List.not_mem_nil, or_false] at hknown
      exact iff_of_true rfl (hknown.imp_right fun h => h.resolve_right htest)
  · rw [if_pos hknown]
    simp only [List.mem_cons, List.not_mem_nil, or_false, not_or] at hknown
    exact iff_of_false (by decide) (by simp [hknown])

/-- **The training export** consists of the accepted candidates that were reviewed for training and
whose ends are known. -/
theorem exported_iff (hs : TablesOK s) (c : RelationCandidate) : (∃ split, Exported s split c) ↔
    ∃ row, ForTraining s row ∧ c = s.hydrate row := by
  have hsome : ∀ row ∈ s.candidates, (RelationStore.annotate (s.hydrate row)).isSome ↔
      row.subjectEntityId.isSome ∧ row.objectEntityId.isSome := by
    intro row hrow
    rw [annotate_isSome]
    exact ⟨fun h => ⟨h.1, h.2.1⟩, fun h => ⟨h.1, h.2, hs.evidenceFor_ne_nil hrow⟩⟩
  constructor
  · rintro ⟨split, hok, a, hmem⟩
    unfold RelationStore.reviewedCandidates at hmem
    obtain ⟨row, hrow, hget⟩ := List.mem_filterMap.1 hmem
    obtain ⟨hrow, hfacts⟩ := List.mem_filter.1 ((List.mem_insertionSort _).1 hrow)
    rw [hs.candidate hrow, Option.bind_some, Option.map_eq_some_iff] at hget
    obtain ⟨a', ha', heq⟩ := hget
    obtain ⟨rfl, rfl⟩ := Prod.mk.inj heq
    simp only [Bool.and_eq_true, List.any_eq_true, decide_eq_true_eq, Bool.not_true, Bool.false_or]
      at hfacts
    obtain ⟨haccepting, r, hr, ⟨hid, hsplit⟩, htraining⟩ := hfacts
    obtain ⟨hsubject, hobject⟩ := (hsome row hrow).1 (by rw [ha']; rfl)
    refine ⟨row, ⟨hrow, haccepting, hsubject, hobject, r, hr, hid, htraining, ?_⟩, rfl⟩
    rw [hsplit]
    exact (reviewedAnnotations_ok.1 hok).imp (congrArg some) (congrArg some)
  · rintro ⟨row, ⟨hrow, haccepting, hsubject, hobject, r, hr, hid, htraining, hsplit⟩, rfl⟩
    obtain ⟨split, hsome', htrim⟩ : ∃ split, r.datasetSplit = some split ∧
        (Text.trim split = split ∧ (split = "train" ∨ split = "dev")) := by
      rcases hsplit with h | h
      · exact ⟨"train", h, by decide, .inl rfl⟩
      · exact ⟨"dev", h, by decide, .inr rfl⟩
    obtain ⟨a, ha⟩ := Option.isSome_iff_exists.1 ((hsome row hrow).2 ⟨hsubject, hobject⟩)
    refine ⟨split, reviewedAnnotations_ok.2 (by rw [htrim.1]; exact htrim.2), a, ?_⟩
    rw [htrim.1]
    unfold RelationStore.reviewedCandidates
    refine List.mem_filterMap.2 ⟨row, (List.mem_insertionSort _).2 (List.mem_filter.2 ⟨hrow, ?_⟩), ?_⟩
    · simp only [Bool.and_eq_true, List.any_eq_true, decide_eq_true_eq, Bool.not_true, Bool.false_or]
      exact ⟨haccepting, r, hr, ⟨hid, hsome'⟩, htraining⟩
    · rw [hs.candidate hrow, Option.bind_some, ha]
      rfl

/-- The separation in terms of rows. -/
theorem apart_iff (hs : TablesOK s) : TestLabelsApart s ↔
    ∀ row, ForTraining s row → ¬ ReviewedAs s row.candidateId "test" := by
  constructor
  · intro h row hrow
    obtain ⟨split, hexported⟩ := (exported_iff hs _).2 ⟨row, hrow, rfl⟩
    exact h split _ hexported
  · intro h split c hexported
    obtain ⟨row, hrow, rfl⟩ := (exported_iff hs c).1 ⟨split, hexported⟩
    exact h row hrow

/-! ## Reviews -/

/-- The review is one for training. -/
def RelationReviewRequest.trains (request : RelationReviewRequest) : Prop :=
  request.trainingEligible = true ∧ (request.datasetSplit = some "train" ∨ request.datasetSplit = some "dev")

/-- When a call keeps test labels apart: if it is a review that is not refused, accepts the candidate
and knows both ends, then the labels of the candidate with the new one are not both for training and
for testing. -/
def LabelsUnmixed (reader : RelationReader) (s : RelationStore F) (call : RelationEnv × RelationCall) : Prop :=
  match call.2 with
  | .review request => ∀ row, ReviewedTo reader call.1 request s row → row.reviewStatus.accepting = true →
      row.subjectEntityId.isSome → row.objectEntityId.isSome →
        Trainable s request.candidateId ∨ request.trains →
          ¬ (ReviewedAs s request.candidateId "test" ∨ request.datasetSplit = some "test")
  | _ => True

/-- A review that is recorded is the only one that could be. -/
theorem ReviewedTo.unique {request : RelationReviewRequest} {row row' : CandidateRow}
    (h : ReviewedTo reader env request s row) (h' : ReviewedTo reader env request s row') : row' = row := by
  obtain ⟨status, c, hstatus, hc, hrow, -⟩ := h
  obtain ⟨status', c', hstatus', hc', hrow', -⟩ := h'
  rw [hstatus] at hstatus'
  rw [hc] at hc'
  cases hstatus'
  cases hc'
  rw [hrow] at hrow'
  cases hrow'
  rfl

theorem reviewedAs_append {r : CandidateReview} {id split : String} (h : s'.reviews = s.reviews ++ [r]) :
    ReviewedAs s' id split ↔ ReviewedAs s id split ∨ r.candidateId = id ∧ r.datasetSplit = some split := by
  unfold ReviewedAs
  rw [h]
  simp only [List.mem_append, List.mem_singleton, or_and_right, exists_or, exists_eq_left]

theorem trainable_append {r : CandidateReview} {id : String} (h : s'.reviews = s.reviews ++ [r]) :
    Trainable s' id ↔ Trainable s id ∨ r.candidateId = id ∧ r.trainingEligible = true ∧
      (r.datasetSplit = some "train" ∨ r.datasetSplit = some "dev") := by
  unfold Trainable
  rw [h]
  simp only [List.mem_append, List.mem_singleton, or_and_right, exists_or, exists_eq_left]

theorem reviewedAs_same {id split : String} (h : s'.reviews = s.reviews) :
    ReviewedAs s' id split ↔ ReviewedAs s id split := by
  unfold ReviewedAs
  rw [h]

/-- The rows of an export do not change with what is not reviewed. -/
theorem forTraining_same (hc : s'.candidates = s.candidates) (hr : s'.reviews = s.reviews)
    {row : CandidateRow} : ForTraining s' row ↔ ForTraining s row := by
  unfold ForTraining Trainable
  rw [hc, hr]

/-- **A recorded review** keeps test labels apart exactly if it does not mix them. -/
theorem recorded_apart_iff {request : RelationReviewRequest} {row : CandidateRow}
    (hs : ∀ row, ForTraining s row → ¬ ReviewedAs s row.candidateId "test")
    (hto : ReviewedTo reader env request s row) :
    (∀ row', ForTraining (s.recording row (request.recorded env)) row' →
        ¬ ReviewedAs (s.recording row (request.recorded env)) row'.candidateId "test") ↔
      LabelsUnmixed reader s (env, .review request) := by
  obtain ⟨hid, c, hc, hcid, -⟩ := hto.row
  have happend : (s.recording row (request.recorded env)).reviews = s.reviews ++ [request.recorded env] := rfl
  have hrow : row ∈ (s.recording row (request.recorded env)).candidates :=
    List.mem_map.2 ⟨c, hc, if_pos (hcid.trans hid.symm)⟩
  constructor
  · intro h row' hto' haccepting hsubject hobject htrain htest
    obtain rfl := hto.unique hto'
    refine h row' ⟨hrow, haccepting, hsubject, hobject, ?_⟩ ?_
    · rw [trainable_append happend, hid]
      exact htrain.imp_right fun htrains => ⟨rfl, htrains⟩
    · rw [reviewedAs_append happend, hid]
      exact htest.imp_right fun hsplit => ⟨rfl, hsplit⟩
  · rintro hunmixed row' ⟨hmem, haccepting, hsubject, hobject, htrain⟩ htest
    rw [trainable_append happend] at htrain
    rw [reviewedAs_append happend] at htest
    rcases mem_recording hmem with rfl | ⟨hold, hother⟩
    · rw [hid] at htrain htest
      exact hunmixed row' hto haccepting hsubject hobject (htrain.imp_right fun h => h.2)
        (htest.imp_right fun h => h.2)
    · -- the labels of another candidate are as before
      have hne : (request.recorded env).candidateId ≠ row'.candidateId := fun heq =>
        hother (heq.symm.trans hid.symm)
      exact hs row' ⟨hold, haccepting, hsubject, hobject, htrain.resolve_right fun h => hne h.1⟩
        (htest.resolve_right fun h => hne h.1)

/-- **One call** keeps test labels apart exactly if it does not mix them. -/
theorem labels_apart_iff [F64 F] (hs : TablesOK s) (hapart : TestLabelsApart s)
    (call : RelationEnv × RelationCall) :
    TestLabelsApart (s.after reader digest call) ↔ LabelsUnmixed reader s call := by
  obtain ⟨env, call⟩ := call
  have hstep : RelationStep reader env s call (s.after reader digest (env, call)) := relation_step hs call
  rw [apart_iff (hs.step hstep)]
  rw [apart_iff hs] at hapart
  generalize s.after reader digest (env, call) = t at hstep ⊢
  have hkept : t.candidates = s.candidates → t.reviews = s.reviews →
      ∀ row, ForTraining t row → ¬ ReviewedAs t row.candidateId "test" := by
    intro hc hr row hrow
    rw [reviewedAs_same hr]
    exact hapart row ((forTraining_same hc hr).1 hrow)
  cases hstep with
  | extracted h =>
    refine iff_of_true (fun row hrow => ?_) trivial
    obtain ⟨hmem, haccepting, hsubject, hobject, htrain⟩ := hrow
    rw [reviewedAs_same h.reviews]
    rcases h.added row hmem with hold | ⟨hpending, -⟩
    · have htrain' : Trainable s row.candidateId := by
        unfold Trainable at htrain
        rw [h.reviews] at htrain
        exact htrain
      exact hapart row ⟨hold, haccepting, hsubject, hobject, htrain'⟩
    · rw [hpending] at haccepting
      cases haccepting
  | reviewRefused hrefused h =>
    exact iff_of_true (hkept h.candidates h.reviews) fun row hto => absurd hto (hrefused row)
  | reviewed hto h =>
    rw [← recorded_apart_iff hapart hto]
    exact forall_congr' fun row => imp_congr (forTraining_same h.candidates h.reviews)
      (not_congr (reviewedAs_same h.reviews))
  | reviewPublished hto _ h =>
    obtain ⟨_, _, -, -, -, -, -, -, h⟩ := h
    rw [← recorded_apart_iff hapart hto]
    exact forall_congr' fun row => imp_congr (forTraining_same h.candidates h.reviews)
      (not_congr (reviewedAs_same h.reviews))
  | unpublished h => exact iff_of_true (hkept h.candidates h.reviews) trivial
  | published h =>
    obtain ⟨_, _, -, -, -, -, -, -, h⟩ := h
    exact iff_of_true (hkept h.candidates h.reviews) trivial
  | unretracted h => exact iff_of_true (hkept h.candidates h.reviews) trivial
  | retracted _ h => exact iff_of_true (hkept h.candidates h.reviews) trivial

/-- **Test labels stay apart** along a run, exactly if no call of it mixes them. -/
theorem testLabels_apart [F64 F] (reader : RelationReader) (digest : ℕ → String → String)
    (calls : List (RelationEnv × RelationCall)) :
    Along (RelationStore.after reader digest) (fun s call => TestLabelsApart (s.after reader digest call))
        ({} : RelationStore F) calls ↔
      Along (RelationStore.after reader digest) (LabelsUnmixed reader) ({} : RelationStore F) calls := by
  have hempty : TestLabelsApart ({} : RelationStore F) := by
    rw [apart_iff tablesOK_empty]
    exact fun row hrow => absurd hrow.1 List.not_mem_nil
  refine along_iff (fun s call hkept (hs : TablesOK s ∧ TestLabelsApart s) => ?_)
    (fun s call hs => labels_apart_iff hs.1 hs.2 call) calls {} ⟨tablesOK_empty, hempty⟩
  exact ⟨hs.1.step (relation_step hs.1 call.2), hkept⟩

section

private def plainReader : RelationReader where
  lowercase := fun c => [c.toLower]
  topCustomer := fun _ => false
  productCapture := fun _ => none
  amount := fun _ => none
  percent := fun _ => none
  period := fun _ => none

private def labelEnv : RelationEnv where
  now := 100
  entities := [⟨"e1", "listed_security", "AA", some "600001", none, ["AA"]⟩,
    ⟨"e2", "listed_security", "BB", some "600002", none, ["BB"]⟩]
  readDocument := fun _ => .ok ⟨"doc", "url", "verified", some ⟨"text", none, none, 50⟩,
    [⟨"seg", none, 0, "AA供应BB"⟩]⟩

private def extraction : RelationEnv × RelationCall :=
  (labelEnv, .extractSource "src" .annualReport none none [])

private def labelled : String :=
  ((RelationStore.after plainReader (fun _ text => text) ({} : RelationStore ℚ) extraction).candidates.map
    (·.candidateId)).headD ""

private def labelling (split : String) (training : Bool) : RelationEnv × RelationCall :=
  (labelEnv, .review {
    candidateId := labelled
    decision := "accepted"
    reviewer := "r"
    reason := "x"
    datasetSplit := some split
    trainingEligible := training })

/-- A candidate is reviewed for the test set and then once more for training: the training export
contains it. -/
theorem testLabel_exported : ¬ ∀ calls : List (RelationEnv × RelationCall),
    Along (RelationStore.after plainReader fun _ text => text)
      (fun s call => TestLabelsApart (s.after plainReader (fun _ text => text) call))
      ({} : RelationStore ℚ) calls := by
  intro h
  have hrun := (h [extraction, labelling "test" false, labelling "train" true]).2.2.1
  have hfound : ∃ x ∈ (run (RelationStore.after plainReader fun _ text => text) ({} : RelationStore ℚ)
      [extraction, labelling "test" false, labelling "train" true]).reviewedCandidates (Text.trim "train") true,
      ∃ r ∈ (run (RelationStore.after plainReader fun _ text => text) ({} : RelationStore ℚ)
        [extraction, labelling "test" false, labelling "train" true]).reviews,
        r.candidateId = x.1.candidateId ∧ r.datasetSplit = some "test" := by
    decide
  obtain ⟨⟨c, a⟩, hmem, htest⟩ := hfound
  exact hrun "train" c ⟨reviewedAnnotations_ok.2 (.inl (by decide +kernel)), a, hmem⟩ htest

end

end Astock
