import Astock.Lib.Run
import Astock.Proof.RelationSteps

/-!
# Extraction runs

A run stores one candidate for each of its drafts, each in a transaction of its own. The drafts are told
apart by their place in the source, the rows of a run by what they state; so a document that states the
same twice stops its run halfway.

* `admits_persisted`: what a stored draft changes for the drafts after it.
* `persistDrafts_ok`, `persistDrafts_ok_inv`: the drafts are stored exactly if the tables admit each of
  them and no two stand in each other's way.
* `runDrafts_done`, `runDrafts_refused`, `runDrafts_half`: the three ends of a new run.
* `extraction_whole_iff`: when an extraction is all or nothing.
-/

namespace Astock

open Prog Run

variable {F : Type} {reader : RelationReader} {digest : ℕ → String → String} {env : RelationEnv}
  {s s' : RelationStore F}

/-! ## Drafts and their rows -/

/-- The id that a draft gets as a candidate of a run. -/
def CandidateDraft.candidateId (digest : ℕ → String → String) (runId : String) (d : CandidateDraft) : String :=
  "relcand:" ++ digest 28 (runId ++ "|" ++ d.model.subjectText ++ "|" ++ d.model.objectText ++ "|" ++
    d.model.relation.token ++ "|" ++ d.model.evidence.segmentId ++ "|" ++
    toString d.model.evidence.spanStart)

/-- The id of the evidence that a draft brings along. -/
def CandidateDraft.evidenceId (digest : ℕ → String → String) (runId : String) (d : CandidateDraft) : String :=
  "relev:" ++ digest 28 (d.candidateId digest runId ++ "|" ++ d.model.evidence.segmentId ++ "|" ++
    toString d.model.evidence.spanStart)

/-- Two drafts state the same of the same ends and the same named product. -/
def CandidateDraft.SameStatement (d e : CandidateDraft) : Prop :=
  d.model.subjectText = e.model.subjectText ∧ d.model.objectText = e.model.objectText ∧
    d.model.relation = e.model.relation ∧ d.model.productText = e.model.productText ∧
    d.model.productText.isSome = true

/-- The drafts of an extraction. -/
def sourceDrafts (reader : RelationReader) (env : RelationEnv) (detail : SourceDocumentDetail)
    (kind : DocumentKind) (models : List ModelRelationCandidate) : List CandidateDraft :=
  deduplicateDrafts reader
    (deterministicDrafts reader detail kind env.entities ++ models.flatMap modelDrafts)

/-- The evidence of a draft names a segment of the document. -/
def InDocument (detail : SourceDocumentDetail) (segmentId : String) : Prop :=
  ∃ segment ∈ detail.segments, segment.segmentId = segmentId

/-- What `validate_draft` gives for a draft. -/
structure DraftRow (digest : ℕ → String → String) (runId source : String) (d : CandidateDraft)
    (row : CandidateRow) (evidence : RelationEvidence) : Prop where
  candidateId : row.candidateId = d.candidateId digest runId
  evidenceId : evidence.evidenceId = d.evidenceId digest runId
  run : row.runId = runId
  source : row.sourceVersionId = source
  subjectText : row.subjectText = d.model.subjectText
  objectText : row.objectText = d.model.objectText
  relation : row.relation = d.model.relation
  productText : row.productText = d.model.productText

theorem inDocument_iff {detail : SourceDocumentDetail} {id : String} :
    InDocument detail id ↔ (Table.find SourceSegment.segmentId id detail.segments).isSome = true := by
  rw [Option.isSome_iff_ne_none, Ne, Table.find_eq_none]
  unfold InDocument
  push Not
  rfl

theorem validateDraft_ok {runId source : String} {kind : DocumentKind} {d : CandidateDraft}
    {detail : SourceDocumentDetail} {entities : List EntityRecord} {now : ℤ}
    (h : InDocument detail d.model.evidence.segmentId) : ∃ row evidence,
      validateDraft reader digest runId source kind d detail entities now = .ok (row, evidence) := by
  obtain ⟨segment, hfind⟩ := Option.isSome_iff_exists.1 (inDocument_iff.1 h)
  unfold validateDraft
  simp only [hfind]
  exact ⟨_, _, rfl⟩

theorem validateDraft_spec {runId source : String} {kind : DocumentKind} {d : CandidateDraft}
    {detail : SourceDocumentDetail} {entities : List EntityRecord} {now : ℤ} {row : CandidateRow}
    {evidence : RelationEvidence}
    (h : validateDraft reader digest runId source kind d detail entities now = .ok (row, evidence)) :
    InDocument detail d.model.evidence.segmentId ∧ DraftRow digest runId source d row evidence := by
  unfold validateDraft at h
  simp only at h
  split at h
  · cases h
  · next segment hfind =>
    injection h with h
    obtain ⟨rfl, rfl⟩ := Prod.mk.inj h
    refine ⟨inDocument_iff.2 (by rw [hfind]; rfl), ?_⟩
    exact ⟨rfl, rfl, rfl, rfl, rfl, rfl, rfl, rfl⟩

theorem mem_deduplicateDrafts {drafts : List CandidateDraft} {d : CandidateDraft}
    (h : d ∈ deduplicateDrafts reader drafts) : d ∈ drafts := by
  have hfold : ∀ (rest kept : List CandidateDraft), d ∈ rest.foldl (fun kept d =>
      if kept.any (fun old => old.key reader = d.key reader) then kept else kept ++ [d]) kept →
        d ∈ kept ∨ d ∈ rest := by
    intro rest
    induction rest with
    | nil => intro kept hd; exact .inl hd
    | cons x rest ih =>
      intro kept hd
      rcases ih _ hd with hd | hd
      · simp only at hd
        split at hd
        · exact .inl hd
        · rcases List.mem_append.1 hd with hd | hd
          · exact .inl hd
          · exact .inr (List.mem_cons.2 (.inl (List.mem_singleton.1 hd)))
      · exact .inr (List.mem_cons_of_mem _ hd)
  exact (hfold drafts [] h).resolve_left List.not_mem_nil

/-- A draft of the rules names the segment that it was read in. -/
theorem segmentDrafts_segment {kind : DocumentKind} {entities : List EntityRecord} {segment : SourceSegment}
    {d : CandidateDraft} (h : d ∈ segmentDrafts reader kind entities segment) :
    d.model.evidence.segmentId = segment.segmentId := by
  have hrelation : ∀ (text : String) (mentions : List Mention) (relation : RelationType),
      d ∈ relationDrafts reader segment kind text mentions relation →
        d.model.evidence.segmentId = segment.segmentId := by
    intro text mentions relation hd
    unfold relationDrafts at hd
    split at hd
    · cases hd
    · split at hd
      · cases hd
      · rw [List.mem_singleton.1 hd]
        rfl
    · obtain ⟨_, -, rfl⟩ := List.mem_map.1 hd
      rfl
  have hanonymous : ∀ mentions : List Mention, d ∈ (if reader.topCustomer (Text.trim segment.text) then
      mentions.head?.toList.map fun subject =>
        ruleDraft reader segment subject.name "未披露客户" .supplies none .anonymousCustomer 8700
      else []) → d.model.evidence.segmentId = segment.segmentId := by
    intro mentions hd
    split at hd
    · obtain ⟨_, -, rfl⟩ := List.mem_map.1 hd
      rfl
    · cases hd
  unfold segmentDrafts at h
  simp only at h
  split at h
  · cases h
  · split at h
    · exact hanonymous _ h
    · rcases List.mem_append.1 h with h | h
      · exact hanonymous _ h
      · exact hrelation _ _ _ h

theorem modelDrafts_segment {model : ModelRelationCandidate} {d : CandidateDraft}
    (h : d ∈ modelDrafts model) : d.model.evidence.segmentId = model.evidence.segmentId := by
  unfold modelDrafts at h
  split at h
  · rw [List.mem_singleton.1 h]
  · obtain ⟨_, -, rfl⟩ := List.mem_map.1 h
    rfl

/-- **The drafts** name segments of the document, if the candidates of the model do. -/
theorem sourceDrafts_inDocument {detail : SourceDocumentDetail} {kind : DocumentKind}
    {models : List ModelRelationCandidate} (h : ∀ m ∈ models, InDocument detail m.evidence.segmentId) :
    ∀ d ∈ sourceDrafts reader env detail kind models, InDocument detail d.model.evidence.segmentId := by
  intro d hd
  rcases List.mem_append.1 (mem_deduplicateDrafts hd) with hd | hd
  · obtain ⟨segment, hsegment, hd⟩ := List.mem_flatMap.1 hd
    exact ⟨segment, hsegment, (segmentDrafts_segment hd).symm⟩
  · obtain ⟨model, hmodel, hd⟩ := List.mem_flatMap.1 hd
    rw [modelDrafts_segment hd]
    exact h model hmodel

/-! ## Storing drafts -/

/-- The ids of runs are theirs alone, and evidence is that of a stored candidate. -/
structure KeysOK (s : RelationStore F) : Prop where
  runIds : (s.runs.map (·.runId)).Nodup
  owned : ∀ e ∈ s.evidence, e.candidateId ∈ s.candidates.map (·.candidateId)

/-- A row of a run states what a draft does. -/
def CandidateRow.States (runId source : String) (c : CandidateRow) (d : CandidateDraft) : Prop :=
  c.runId = runId ∧ d.model.subjectText = c.subjectText ∧ d.model.objectText = c.objectText ∧
    d.model.relation = c.relation ∧ d.model.productText = c.productText ∧
    d.model.productText.isSome = true ∧ c.sourceVersionId = source

/-- The tables admit a draft as a candidate of a run. -/
structure Admits (digest : ℕ → String → String) (runId source : String) (s : RelationStore F)
    (d : CandidateDraft) : Prop where
  ids : ∀ c ∈ s.candidates, c.candidateId ≠ d.candidateId digest runId
  statements : ∀ c ∈ s.candidates, ¬ c.States runId source d
  evidenceIds : ∀ e ∈ s.evidence, e.evidence.evidenceId ≠ d.evidenceId digest runId

/-- Two drafts can be stored in one run. -/
structure Apart (digest : ℕ → String → String) (runId : String) (d e : CandidateDraft) : Prop where
  ids : d.candidateId digest runId ≠ e.candidateId digest runId
  statements : ¬ e.SameStatement d
  evidenceIds : d.evidenceId digest runId ≠ e.evidenceId digest runId

/-- The store with one more candidate. -/
def RelationStore.persisted (s : RelationStore F) (row : CandidateRow) (evidence : RelationEvidence) :
    RelationStore F :=
  { s with
    candidates := s.candidates ++ [row]
    evidence := s.evidence ++ [⟨row.candidateId, evidence, row.createdAt⟩] }

section

variable {runId source : String} {kind : DocumentKind} {detail : SourceDocumentDetail}
  {d e : CandidateDraft} {row : CandidateRow} {evidence : RelationEvidence}

theorem KeysOK.persisted (hs : KeysOK s) : KeysOK (s.persisted row evidence) := by
  refine ⟨hs.runIds, fun e he => ?_⟩
  show e.candidateId ∈ (s.candidates ++ [row]).map (·.candidateId)
  rw [List.map_append, List.mem_append]
  rcases List.mem_append.1 he with he | he
  · exact .inl (hs.owned e he)
  · rw [List.mem_singleton.1 he]
    exact .inr (List.mem_singleton_self _)

/-- **After a draft was stored**, those are admitted that were before and are apart from it. -/
theorem admits_persisted (hrow : DraftRow digest runId source d row evidence) :
    Admits digest runId source (s.persisted row evidence) e ↔
      Admits digest runId source s e ∧ Apart digest runId d e := by
  have hstates : row.States runId source e ↔ e.SameStatement d := by
    unfold CandidateRow.States CandidateDraft.SameStatement
    rw [hrow.run, hrow.source, hrow.subjectText, hrow.objectText, hrow.relation, hrow.productText]
    simp only [true_and, and_true]
  constructor
  · intro h
    have hlast := List.mem_append_right s.candidates (List.mem_singleton_self row)
    refine ⟨⟨fun c hc => h.ids c (List.mem_append_left _ hc),
      fun c hc => h.statements c (List.mem_append_left _ hc),
      fun x hx => h.evidenceIds x (List.mem_append_left _ hx)⟩, ?_, ?_, ?_⟩
    · exact hrow.candidateId ▸ h.ids row hlast
    · exact fun hsame => h.statements row hlast (hstates.2 hsame)
    · exact hrow.evidenceId ▸ h.evidenceIds _ (List.mem_append_right _ (List.mem_singleton_self _))
  · rintro ⟨h, hapart⟩
    refine ⟨fun c hc => ?_, fun c hc => ?_, fun x hx => ?_⟩
    · rcases List.mem_append.1 hc with hc | hc
      · exact h.ids c hc
      · rw [List.mem_singleton.1 hc, hrow.candidateId]
        exact hapart.ids
    · rcases List.mem_append.1 hc with hc | hc
      · exact h.statements c hc
      · rw [List.mem_singleton.1 hc, hstates]
        exact hapart.statements
    · rcases List.mem_append.1 hx with hx | hx
      · exact h.evidenceIds x hx
      · rw [List.mem_singleton.1 hx]
        show evidence.evidenceId ≠ _
        rw [hrow.evidenceId]
        exact hapart.evidenceIds

/-- A draft is admitted exactly if no key refuses its row or its evidence. -/
theorem admits_iff (hs : KeysOK s) (hrow : DraftRow digest runId source d row evidence) :
    Admits digest runId source s d ↔
      (s.candidates.any fun c => c.candidateId = row.candidateId ∨ row.collides c) = false ∧
        s.evidence.any (CandidateEvidence.collides ⟨row.candidateId, evidence, row.createdAt⟩) = false := by
  have hstates : ∀ c : CandidateRow, row.collides c = true ↔ c.States runId source d := by
    intro c
    unfold CandidateRow.collides CandidateRow.States
    rw [hrow.run, hrow.source, hrow.subjectText, hrow.objectText, hrow.relation, hrow.productText,
      decide_eq_true_eq, eq_comm (a := runId), eq_comm (a := source)]
  simp only [List.any_eq_false, decide_eq_true_eq, not_or, hstates, hrow.candidateId]
  constructor
  · intro h
    refine ⟨fun c hc => ⟨h.ids c hc, h.statements c hc⟩, fun x hx hcollides => ?_⟩
    unfold CandidateEvidence.collides at hcollides
    rw [decide_eq_true_eq] at hcollides
    rcases hcollides with hid | ⟨hid, -⟩
    · exact h.evidenceIds x hx (hid.symm.trans hrow.evidenceId)
    · -- the other key of evidence starts with its candidate, and that one is new
      obtain ⟨c, hc, hcid⟩ := List.mem_map.1 (hs.owned x hx)
      exact h.ids c hc (hcid.trans hid.symm)
  · rintro ⟨hrows, hown⟩
    refine ⟨fun c hc => (hrows c hc).1, fun c hc => (hrows c hc).2, fun x hx hid => hown x hx ?_⟩
    exact decide_eq_true (.inl (hrow.evidenceId.trans hid.symm))

theorem persistCandidate_admitted (hs : KeysOK s) (hrow : DraftRow digest runId source d row evidence)
    (h : Admits digest runId source s d) :
    exec (persistCandidate row evidence) s = (.ok (), s.persisted row evidence) := by
  obtain ⟨hcandidates, hown⟩ := (admits_iff hs hrow).1 h
  unfold persistCandidate
  rw [exec_bind_ok (exec_get s), exec_guardOr_bind, hcandidates, exec_guardOr_bind, hown]
  rfl

theorem persistCandidate_refused (hs : KeysOK s) (hrow : DraftRow digest runId source d row evidence)
    (h : ¬ Admits digest runId source s d) :
    ∃ e, exec (persistCandidate row evidence) s = (.error e, s) := by
  rw [admits_iff hs hrow, not_and, Bool.not_eq_false] at h
  unfold persistCandidate
  rw [exec_bind_ok (exec_get s), exec_guardOr_bind]
  split
  · next hfree =>
    rw [Bool.not_eq_true'] at hfree
    rw [exec_guardOr_bind, h hfree]
    exact ⟨_, rfl⟩
  · exact ⟨_, rfl⟩

theorem persistCandidate_runs (row : CandidateRow) (evidence : RelationEvidence) (s : RelationStore F) :
    (exec (persistCandidate row evidence) s).2.runs = s.runs := by
  unfold persistCandidate
  rw [exec_bind_ok (exec_get s), exec_guardOr_bind]
  split
  · rw [exec_guardOr_bind]
    split
    · rfl
    · rfl
  · rfl

/-! ### One after another -/

/-- What tells the stored candidates of the runs apart. -/
def CandidateRow.place (c : CandidateRow) : String × String := (c.candidateId, c.runId)

/-- **The drafts are stored** one by one, if the tables admit each and no two are in each other's way. -/
theorem persistDrafts_ok : ∀ (drafts : List CandidateDraft) {s : RelationStore F}, KeysOK s →
    (∀ d ∈ drafts, InDocument detail d.model.evidence.segmentId) →
    (∀ d ∈ drafts, Admits digest runId source s d) → drafts.Pairwise (Apart digest runId) →
    ∃ s', exec (persistDrafts reader digest env runId source kind detail drafts) s = (.ok (), s') ∧
      s'.runs = s.runs ∧ s'.candidates.map (·.place) =
        s.candidates.map (·.place) ++ drafts.map fun d => (d.candidateId digest runId, runId) := by
  intro drafts
  induction drafts with
  | nil =>
    intro s _ _ _ _
    exact ⟨s, rfl, rfl, (List.append_nil _).symm⟩
  | cons d rest ih =>
    intro s hs hlocated hadmits hapart
    obtain ⟨row, evidence, hvalid⟩ : ∃ row evidence, validateDraft reader digest runId source kind d detail
        env.entities env.now = .ok (row, evidence) := validateDraft_ok (hlocated d List.mem_cons_self)
    have hrow := (validateDraft_spec hvalid).2
    obtain ⟨hfirst, hrest⟩ := List.pairwise_cons.1 hapart
    have hstored := persistCandidate_admitted hs hrow (hadmits d List.mem_cons_self)
    obtain ⟨s', hexec, hruns, hplaces⟩ := ih (s := s.persisted row evidence) hs.persisted
      (fun e he => hlocated e (List.mem_cons_of_mem _ he))
      (fun e he => (admits_persisted hrow).2 ⟨hadmits e (List.mem_cons_of_mem _ he), hfirst e he⟩) hrest
    refine ⟨s', ?_, hruns, ?_⟩
    · unfold persistDrafts
      rw [exec_bind, exec_liftRelation, hvalid]
      exact (exec_bind_ok hstored).trans hexec
    · have hplace : row.place = (d.candidateId digest runId, runId) :=
        congrArg₂ Prod.mk hrow.candidateId hrow.run
      rw [hplaces]
      show (s.candidates ++ [row]).map (·.place) ++ _ = _
      rw [List.map_append, List.append_assoc, List.map_cons, List.map_nil, hplace]
      rfl

/-- **Drafts that were stored** were admitted, each of them, and are apart. -/
theorem persistDrafts_ok_inv : ∀ (drafts : List CandidateDraft) {s s' : RelationStore F}, KeysOK s →
    exec (persistDrafts reader digest env runId source kind detail drafts) s = (.ok (), s') →
    (∀ d ∈ drafts, InDocument detail d.model.evidence.segmentId) ∧
      (∀ d ∈ drafts, Admits digest runId source s d) ∧ drafts.Pairwise (Apart digest runId) := by
  intro drafts
  induction drafts with
  | nil =>
    intro s s' _ _
    exact ⟨fun _ hd => absurd hd List.not_mem_nil, fun _ hd => absurd hd List.not_mem_nil, .nil⟩
  | cons d rest ih =>
    intro s s' hs hexec
    unfold persistDrafts at hexec
    obtain ⟨⟨row, evidence⟩, s₁, hvalid, hexec⟩ := bind_ok_inv hexec
    rw [exec_liftRelation] at hvalid
    obtain ⟨hdraft, rfl⟩ := Prod.mk.inj hvalid
    obtain ⟨hlocated, hrow⟩ := validateDraft_spec hdraft
    obtain ⟨_, s₂, hstored, hexec⟩ := bind_ok_inv hexec
    by_cases hadmits : Admits digest runId source s d
    · have hfirst := persistCandidate_admitted hs hrow hadmits
      rw [hfirst] at hstored
      obtain ⟨-, rfl⟩ := Prod.mk.inj hstored
      obtain ⟨hlocateds, hall, hapart⟩ := ih hs.persisted hexec
      have hboth := fun e he => (admits_persisted hrow).1 (hall e he)
      refine ⟨List.forall_mem_cons.2 ⟨hlocated, hlocateds⟩,
        List.forall_mem_cons.2 ⟨hadmits, fun e he => (hboth e he).1⟩,
        List.pairwise_cons.2 ⟨fun e he => (hboth e he).2, hapart⟩⟩
    · obtain ⟨error, hrefused⟩ := persistCandidate_refused hs hrow hadmits
      rw [hrefused] at hstored
      cases hstored

/-- Storing drafts leaves the runs alone, also when it stops halfway. -/
theorem persistDrafts_runs (drafts : List CandidateDraft) : Steps (fun s s' => s'.runs = s.runs)
    (persistDrafts (F := F) reader digest env runId source kind detail drafts) := by
  have hrefl : ∀ s : RelationStore F, s.runs = s.runs := fun _ => rfl
  have htrans : ∀ s t u : RelationStore F, t.runs = s.runs → u.runs = t.runs → u.runs = s.runs :=
    fun _ _ _ h h' => h'.trans h
  induction drafts with
  | nil => exact steps_pure hrefl ()
  | cons d rest ih =>
    unfold persistDrafts
    refine steps_bind htrans (fun s => (liftRelation_same _ s).runs) fun candidate => ?_
    exact steps_bind htrans (fun s => persistCandidate_runs _ _ s) fun _ => ih

/-! ## The ends of a run -/

/-- Reconciling changes neither the runs nor what tells the candidates apart. -/
theorem reconcileRun_places (digest : ℕ → String → String) (runId : String) (now : ℤ) (s : RelationStore F) :
    (reconcileRunEvidence digest now runId s).runs = s.runs ∧
      (reconcileRunEvidence digest now runId s).candidates.map (·.place) = s.candidates.map (·.place) := by
  have hfold : ∀ (candidates : List RelationCandidate) (t : RelationStore F),
      (candidates.foldl (reconcileCandidate digest now s.allCandidates) t).runs = t.runs ∧
        (candidates.foldl (reconcileCandidate digest now s.allCandidates) t).candidates.map (·.place) =
          t.candidates.map (·.place) := by
    intro candidates
    induction candidates with
    | nil => intro t; exact ⟨rfl, rfl⟩
    | cons c rest ih =>
      intro t
      have hone : (reconcileCandidate digest now s.allCandidates t c).runs = t.runs ∧
          (reconcileCandidate digest now s.allCandidates t c).candidates.map (·.place) =
            t.candidates.map (·.place) := by
        unfold reconcileCandidate
        simp only
        split
        · exact ⟨rfl, rfl⟩
        · exact ⟨rfl, Table.map_update CandidateRow.place fun _ => rfl⟩
      obtain ⟨hruns, hplaces⟩ := ih (reconcileCandidate digest now s.allCandidates t c)
      exact ⟨hruns.trans hone.1, hplaces.trans hone.2⟩
  exact hfold _ s

theorem exec_runDetail {run : ExtractionRun} {read : SourceDocumentDetail}
    (hfind : Table.find ExtractionRun.runId runId s.runs = some run)
    (hread : env.readDocument run.sourceVersionId = .ok read) :
    ∃ result, exec (runDetail env runId) s = (.ok result, s) ∧ result.run = run ∧
      result.candidates = s.candidatesForRun runId := by
  unfold runDetail
  rw [exec_bind_ok (exec_get s), hfind]
  simp only [exec_bind, exec_liftRelation, hread, exec_get]
  exact ⟨_, rfl, rfl, rfl⟩

end

/-- The store with the row of a new run. -/
def RelationStore.begun (s : RelationStore F) (run : ExtractionRun) : RelationStore F :=
  { s with runs := s.runs ++ [run] }

/-- The row of a run that was finished. -/
def ExtractionRun.finished (now : ℤ) (candidateCount validationErrors : ℕ) (run : ExtractionRun) :
    ExtractionRun :=
  { run with
    completed := true
    candidateCount := candidateCount
    validationErrors := validationErrors
    completedAt := some now }

/-- The ids of the stored candidates of a run. -/
def RelationStore.storedIds (s : RelationStore F) (runId : String) : List String :=
  (s.candidates.filter (·.runId = runId)).map (·.candidateId)

/-- A run holds one candidate for each draft. -/
def OnePerDraft (digest : ℕ → String → String) (s : RelationStore F) (runId : String)
    (drafts : List CandidateDraft) : Prop :=
  (s.storedIds runId).Perm (drafts.map (·.candidateId digest runId))

/-- The drafts can all be stored in a new run: each names a segment of the document, no two state the
same of the same ends and product, and the ids that are made for them are free. -/
structure Storable (digest : ℕ → String → String) (s : RelationStore F) (runId : String)
    (detail : SourceDocumentDetail) (drafts : List CandidateDraft) : Prop where
  segments : ∀ d ∈ drafts, InDocument detail d.model.evidence.segmentId
  statements : drafts.Pairwise fun d e => ¬ e.SameStatement d
  ids : (drafts.map (·.candidateId digest runId)).Nodup
  evidenceIds : (drafts.map (·.evidenceId digest runId)).Nodup
  newIds : ∀ d ∈ drafts, d.candidateId digest runId ∉ s.candidates.map (·.candidateId)
  newEvidenceIds : ∀ d ∈ drafts, d.evidenceId digest runId ∉ s.evidence.map (·.evidence.evidenceId)

/-- **In a store without candidates of the run**, these are the conditions of the tables. -/
theorem storable_iff {runId source : String} {detail : SourceDocumentDetail} {drafts : List CandidateDraft}
    (hfresh : ∀ c ∈ s.candidates, c.runId ≠ runId) : Storable digest s runId detail drafts ↔
      (∀ d ∈ drafts, InDocument detail d.model.evidence.segmentId) ∧
        (∀ d ∈ drafts, Admits digest runId source s d) ∧ drafts.Pairwise (Apart digest runId) := by
  constructor
  · intro h
    refine ⟨h.segments, fun d hd => ⟨fun c hc hid => ?_, fun c hc hstates => hfresh c hc hstates.1,
      fun e he hid => ?_⟩, ?_⟩
    · exact h.newIds d hd (hid ▸ List.mem_map_of_mem hc)
    · exact h.newEvidenceIds d hd (List.mem_map.2 ⟨e, he, hid⟩)
    · have hids := List.pairwise_map.1 h.ids
      have hevidence := List.pairwise_map.1 h.evidenceIds
      exact ((hids.and h.statements).and hevidence).imp fun hboth => ⟨hboth.1.1, hboth.1.2, hboth.2⟩
  · rintro ⟨hsegments, hadmits, hapart⟩
    refine ⟨hsegments, hapart.imp (·.statements), List.pairwise_map.2 (hapart.imp (·.ids)),
      List.pairwise_map.2 (hapart.imp (·.evidenceIds)), fun d hd hmem => ?_, fun d hd hmem => ?_⟩
    · obtain ⟨c, hc, hid⟩ := List.mem_map.1 hmem
      exact (hadmits d hd).ids c hc hid
    · obtain ⟨e, he, hid⟩ := List.mem_map.1 hmem
      exact (hadmits d hd).evidenceIds e he hid

theorem storable_begun {run : ExtractionRun} {runId : String} {detail : SourceDocumentDetail}
    {drafts : List CandidateDraft} :
    Storable digest (s.begun run) runId detail drafts ↔ Storable digest s runId detail drafts :=
  ⟨fun h => ⟨h.segments, h.statements, h.ids, h.evidenceIds, h.newIds, h.newEvidenceIds⟩,
    fun h => ⟨h.segments, h.statements, h.ids, h.evidenceIds, h.newIds, h.newEvidenceIds⟩⟩

theorem storedIds_eq (runId : String) : s.storedIds runId =
    ((s.candidates.map (·.place)).filter (·.2 = runId)).map (·.1) := by
  unfold RelationStore.storedIds CandidateRow.place
  rw [List.filter_map, List.map_map]
  rfl

section

variable {run : ExtractionRun} {detail : SourceDocumentDetail} {drafts : List CandidateDraft}

/-- The candidates of a run that no stored run collides with are yet to come. -/
theorem fresh_of_free (hs : TablesOK s) (hfree : s.runs.any run.collides = false) :
    ∀ c ∈ s.candidates, c.runId ≠ run.runId := by
  intro c hc heq
  obtain ⟨r, hr, hid⟩ := List.mem_map.1 (hs.runs c hc)
  rw [List.any_eq_false] at hfree
  exact hfree r hr (decide_eq_true (.inl (heq.symm.trans hid.symm)))

theorem exec_insertRun (run : ExtractionRun) (hfree : s.runs.any run.collides = false) :
    exec (insertRun run) s = (.ok (), s.begun run) := by
  unfold insertRun
  rw [exec_bind_ok (exec_get s), exec_guardOr_bind, hfree]
  rfl

theorem not_mem_runIds (hfree : s.runs.any run.collides = false) : ∀ r ∈ s.runs, r.runId ≠ run.runId := by
  intro r hr hid
  rw [List.any_eq_false] at hfree
  exact hfree r hr (decide_eq_true (.inl hid.symm))

theorem KeysOK.begun (hs : KeysOK s) (hfree : s.runs.any run.collides = false) : KeysOK (s.begun run) :=
  ⟨Table.nodup_append_key hs.runIds (not_mem_runIds hfree), hs.owned⟩

/-- A run is refused by the key of a stored one. -/
theorem runDrafts_refused (htaken : s.runs.any run.collides = true) :
    ∃ e, exec (runDrafts reader digest env run detail drafts) s = (.error e, s) := by
  have hinsert : ∃ e, exec (insertRun run) s = (.error e, s) := by
    unfold insertRun
    rw [exec_bind_ok (exec_get s), exec_guardOr_bind, htaken]
    exact ⟨_, rfl⟩
  obtain ⟨e, hinsert⟩ := hinsert
  exact ⟨e, exec_bind_error hinsert⟩

/-- **A run is left halfway** when its drafts cannot all be stored. -/
theorem runDrafts_half (hs : TablesOK s) (hkeys : KeysOK s) (hfree : s.runs.any run.collides = false)
    (hnot : ¬ Storable digest s run.runId detail drafts) : ∃ e s',
      exec (runDrafts reader digest env run detail drafts) s = (.error e, s') ∧
        s'.runs = s.runs ++ [run] := by
  have hruns : (exec (persistDrafts reader digest env run.runId run.sourceVersionId run.documentKind detail
      drafts) (s.begun run)).2.runs = s.runs ++ [run] := persistDrafts_runs drafts _
  rcases hexec : exec (persistDrafts reader digest env run.runId run.sourceVersionId run.documentKind detail
    drafts) (s.begun run) with ⟨e | _, s'⟩
  · rw [hexec] at hruns
    refine ⟨e, s', ?_, hruns⟩
    unfold runDrafts
    rw [exec_bind_ok (exec_insertRun run hfree), exec_bind_error hexec]
  · have hstored := persistDrafts_ok_inv drafts (hkeys.begun hfree) hexec
    have hfresh : ∀ c ∈ (s.begun run).candidates, c.runId ≠ run.runId :=
      fun c hc => fresh_of_free hs hfree c hc
    exact absurd (storable_begun.1 ((storable_iff hfresh).2 hstored)) hnot

/-- The run is the last one, and it is the one that is finished. -/
theorem finishRun_runs {rest : List ExtractionRun} (now : ℤ) (hruns : s.runs = rest ++ [run])
    (hfree : ∀ r ∈ rest, r.runId ≠ run.runId) : ∃ candidateCount validationErrors,
    (finishRun now run.runId s).runs = rest ++ [run.finished now candidateCount validationErrors] := by
  have hlast : ∀ f : ExtractionRun → ExtractionRun,
      Table.update ExtractionRun.runId run.runId f s.runs = rest ++ [f run] := by
    intro f
    have hrest := @Table.update_of_not_mem _ _ _ ExtractionRun.runId run.runId rest f hfree
    unfold Table.update at hrest ⊢
    rw [hruns, List.map_append, hrest, List.map_cons, List.map_nil, if_pos rfl]
  have hfinished : ∀ n m, Table.update ExtractionRun.runId run.runId (·.finished now n m) s.runs =
      rest ++ [run.finished now n m] := fun n m => hlast _
  exact ⟨_, _, hfinished _ _⟩

/-- **A run is completed** with one candidate for each draft, when they can be stored. -/
theorem runDrafts_done (hs : TablesOK s) (hkeys : KeysOK s) (hfree : s.runs.any run.collides = false)
    (hread : env.readDocument run.sourceVersionId = .ok detail)
    (h : Storable digest s run.runId detail drafts) : ∃ result s' candidateCount validationErrors,
      exec (runDrafts reader digest env run detail drafts) s = (.ok result, s') ∧
        result.run.runId = run.runId ∧ result.candidates = s'.candidatesForRun run.runId ∧
        OnePerDraft digest s' run.runId drafts ∧
        s'.runs = s.runs ++ [run.finished env.now candidateCount validationErrors] := by
  have hfresh : ∀ c ∈ (s.begun run).candidates, c.runId ≠ run.runId :=
    fun c hc => fresh_of_free hs hfree c hc
  obtain ⟨hsegments, hadmits, hapart⟩ := (storable_iff hfresh).1 (storable_begun.2 h)
  obtain ⟨s₁, hpersist, hruns₁, hplaces₁⟩ := persistDrafts_ok drafts (hkeys.begun hfree) hsegments hadmits hapart
  obtain ⟨hruns₂, hplaces₂⟩ := reconcileRun_places digest run.runId env.now s₁
  obtain ⟨n, m, hruns₃⟩ := finishRun_runs env.now (hruns₂.trans hruns₁) (not_mem_runIds hfree)
  have hfind : Table.find ExtractionRun.runId run.runId
      (finishRun env.now run.runId (reconcileRunEvidence digest env.now run.runId s₁)).runs =
        some (run.finished env.now n m) := by
    have hnone := (Table.find_eq_none ExtractionRun.runId).2 (not_mem_runIds hfree)
    rw [hruns₃, Table.find_append, hnone]
    show Table.find ExtractionRun.runId run.runId [run.finished env.now n m] = _
    unfold Table.find
    exact List.find?_cons_of_pos (decide_eq_true (rfl : (run.finished env.now n m).runId = run.runId))
  obtain ⟨result, hdetail, hrun, hcandidates⟩ := exec_runDetail hfind hread
  refine ⟨result, _, n, m, ?_, (congrArg ExtractionRun.runId hrun).trans rfl, hcandidates, ?_, hruns₃⟩
  · unfold runDrafts
    rw [exec_bind_ok (exec_insertRun run hfree), exec_bind_ok hpersist, exec_bind_ok (exec_modify _ _),
      exec_bind_ok (exec_modify _ _)]
    exact hdetail
  · -- the candidates of the run are the rows that were added, in the order of the drafts
    have hnew : (s.candidates.map (·.place)).filter (·.2 = run.runId) = [] := by
      refine List.filter_eq_nil_iff.2 fun place hplace => ?_
      obtain ⟨c, hc, rfl⟩ := List.mem_map.1 hplace
      exact fun hrun => hfresh c hc (of_decide_eq_true hrun)
    have hown : (drafts.map fun d => (d.candidateId digest run.runId, run.runId)).filter
        (·.2 = run.runId) = drafts.map fun d => (d.candidateId digest run.runId, run.runId) := by
      refine List.filter_eq_self.2 fun place hplace => ?_
      obtain ⟨d, -, rfl⟩ := List.mem_map.1 hplace
      exact decide_eq_true rfl
    have hids : (finishRun env.now run.runId (reconcileRunEvidence digest env.now run.runId s₁)).storedIds
        run.runId = drafts.map (·.candidateId digest run.runId) := by
      rw [storedIds_eq]
      show ((((reconcileRunEvidence digest env.now run.runId s₁).candidates.map (·.place)).filter
        (·.2 = run.runId)).map (·.1)) = _
      rw [hplaces₂, hplaces₁, List.filter_append]
      show (List.filter _ (s.candidates.map (·.place)) ++ _).map _ = _
      rw [hnew, hown, List.nil_append, List.map_map]
      rfl
    unfold OnePerDraft
    rw [hids]

end

/-! ## Keys over a run of calls -/

theorem KeysOK.same (hs : KeysOK s) (h : SameTables s s') : KeysOK s' := by
  refine ⟨h.runs ▸ hs.runIds, ?_⟩
  rw [h.evidence, h.candidates]
  exact hs.owned

theorem persistDrafts_keys {runId source : String} {kind : DocumentKind} {detail : SourceDocumentDetail}
    (drafts : List CandidateDraft) : Triple (KeysOK (F := F))
      (persistDrafts reader digest env runId source kind detail drafts) (fun _ => KeysOK) fun _ => KeysOK := by
  induction drafts with
  | nil => exact triple_pure fun _ h => h
  | cons d rest ih =>
    unfold persistDrafts
    refine triple_lift (fun candidate hvalid => ?_) fun _ _ _ h => h
    obtain ⟨row, evidence⟩ := candidate
    refine triple_bind (Q := fun _ => KeysOK) (fun s hs => ?_) fun _ => ih
    have hrow := (validateDraft_spec hvalid).2
    by_cases hadmits : Admits digest runId source s d
    · rw [persistCandidate_admitted hs hrow hadmits]
      exact hs.persisted
    · obtain ⟨e, hrefused⟩ := persistCandidate_refused hs hrow hadmits
      rw [hrefused]
      exact hs

theorem mem_foldl_insertEvidence {id : String} {now : ℤ} (linked : List RelationEvidence) :
    ∀ {rows : List CandidateEvidence} {e : CandidateEvidence},
      e ∈ linked.foldl (fun rows e => insertEvidence rows ⟨id, e, now⟩) rows →
        e ∈ rows ∨ e.candidateId = id := by
  induction linked with
  | nil => intro rows e he; exact .inl he
  | cons new rest ih =>
    intro rows e he
    rcases ih he with he | he
    · have hone : e ∈ insertEvidence rows ⟨id, new, now⟩ := he
      unfold insertEvidence at hone
      split at hone
      · exact .inl hone
      · rcases List.mem_append.1 hone with he | he
        · exact .inl he
        · exact .inr (by rw [List.mem_singleton.1 he])
    · exact .inr he

theorem KeysOK.reconcile (digest : ℕ → String → String) (hs : KeysOK s) {candidate : RelationCandidate}
    (hmem : candidate.candidateId ∈ s.candidates.map (·.candidateId)) (now : ℤ)
    (all : List RelationCandidate) : KeysOK (reconcileCandidate digest now all s candidate) ∧
      (reconcileCandidate digest now all s candidate).candidates.map (·.candidateId) =
        s.candidates.map (·.candidateId) := by
  unfold reconcileCandidate
  simp only
  split
  · exact ⟨hs, rfl⟩
  · have hids : (Table.update CandidateRow.candidateId candidate.candidateId
        (·.reconciled now (linkedEvidence digest candidate all)) s.candidates).map (·.candidateId) =
          s.candidates.map (·.candidateId) := Table.map_key_update CandidateRow.candidateId fun _ => rfl
    refine ⟨⟨hs.runIds, fun e he => ?_⟩, hids⟩
    rw [hids]
    rcases mem_foldl_insertEvidence _ he with he | he
    · exact hs.owned e he
    · exact he ▸ hmem

theorem KeysOK.reconcileRun (digest : ℕ → String → String) (hs : KeysOK s) (now : ℤ) (runId : String) :
    KeysOK (reconcileRunEvidence digest now runId s) := by
  have hfold : ∀ (candidates : List RelationCandidate) (t : RelationStore F), KeysOK t →
      (∀ c ∈ candidates, c.candidateId ∈ t.candidates.map (·.candidateId)) →
        KeysOK (candidates.foldl (reconcileCandidate digest now s.allCandidates) t) := by
    intro candidates
    induction candidates with
    | nil => intro t ht _; exact ht
    | cons c rest ih =>
      intro t ht hmem
      obtain ⟨hkeys, hids⟩ := ht.reconcile digest (hmem c List.mem_cons_self) now s.allCandidates
      exact ih _ hkeys fun d hd => hids ▸ hmem d (List.mem_cons_of_mem _ hd)
  refine hfold _ s hs fun c hc => ?_
  obtain ⟨row, hrow, rfl⟩ := List.mem_map.1 hc
  exact List.mem_map_of_mem (List.mem_filter.1 ((List.mem_insertionSort _).1 hrow)).1

theorem KeysOK.finish (hs : KeysOK s) (now : ℤ) (runId : String) : KeysOK (finishRun now runId s) := by
  have hruns : (finishRun now runId s).runs.map (·.runId) = s.runs.map (·.runId) :=
    Table.map_key_update ExtractionRun.runId fun _ => rfl
  exact ⟨hruns ▸ hs.runIds, hs.owned⟩

theorem runDrafts_keys (run : ExtractionRun) (detail : SourceDocumentDetail) (drafts : List CandidateDraft) :
    Triple (KeysOK (F := F)) (runDrafts reader digest env run detail drafts) (fun _ => KeysOK)
      fun _ => KeysOK := by
  unfold runDrafts
  refine triple_bind (Q := fun _ => KeysOK) (fun s hs => ?_) fun _ => ?_
  · cases hfree : s.runs.any run.collides with
    | false =>
      rw [exec_insertRun run hfree]
      exact hs.begun hfree
    | true =>
      unfold insertRun
      rw [exec_bind_ok (exec_get s), exec_guardOr_bind, hfree]
      exact hs
  · refine triple_bind (persistDrafts_keys drafts) fun _ => ?_
    refine triple_each fun s hs => triple_modify_eq (triple_modify_eq ?_)
    have hdone := (hs.reconcileRun digest env.now run.runId).finish env.now run.runId
    exact ((runDetail_same run.runId).triple _).conseq (fun _ h => h) (fun _ _ h => h ▸ hdone)
      fun _ _ h => h ▸ hdone

theorem extract_keys (source : String) (kind : DocumentKind) (modelId modelVersion : Option String)
    (models : List ModelRelationCandidate) : Triple (KeysOK (F := F))
      (extractSource reader digest env source kind modelId modelVersion models) (fun _ => KeysOK)
      fun _ => KeysOK := by
  unfold extractSource
  refine triple_guardOr (fun _ => ?_) fun _ _ h => h
  refine triple_lift (fun detail _ => ?_) fun _ _ _ h => h
  refine triple_guardOr (fun _ => ?_) fun _ _ h => h
  refine triple_guardOr (fun _ => ?_) fun _ _ h => h
  refine triple_read fun s₀ => ?_
  split
  · refine triple_each fun s hs => ?_
    exact ((runDetail_same _).triple s).conseq (fun _ h => h) (fun _ _ h => h ▸ hs) fun _ _ h => h ▸ hs
  · exact runDrafts_keys _ detail _

/-- **Every call** keeps the ids of runs apart and the evidence owned. -/
theorem KeysOK.step [F64 F] (htables : TablesOK s) (hs : KeysOK s) (call : RelationCall) :
    KeysOK (s.after reader digest (env, call)) := by
  have hstep : RelationStep reader env s call (s.after reader digest (env, call)) := relation_step htables call
  have hrecording : ∀ (row : CandidateRow) (r : CandidateReview), KeysOK (s.recording row r) := by
    intro row r
    refine ⟨hs.runIds, fun e he => ?_⟩
    rw [recording_ids]
    exact hs.owned e he
  have hadded : ∀ {t t' : RelationStore F} {id : String}, KeysOK t → PublicationAdded t id t' → KeysOK t' := by
    rintro t t' id ht ⟨c, p, -, -, -, -, -, -, hsame⟩
    exact KeysOK.same (s := { t with publications := t.publications ++ [p] }) ⟨ht.runIds, ht.owned⟩ hsame
  have hretracting : ∀ p reason, KeysOK (s.retracting env.now reason p) := fun _ _ => ⟨hs.runIds, hs.owned⟩
  cases hstep with
  | extracted _ => exact triple_drop (extract_keys _ _ _ _ _) (fun _ _ h => h) (fun _ _ h => h) hs
  | reviewRefused _ h => exact hs.same h
  | reviewed _ h => exact (hrecording _ _).same h
  | reviewPublished _ _ h => exact hadded (hrecording _ _) h
  | unpublished h => exact hs.same h
  | published h => exact hadded hs h
  | unretracted h => exact hs.same h
  | retracted _ h => exact (hretracting _ _).same h

/-- What holds of the tables after any run of calls. -/
theorem run_tables [F64 F] (reader : RelationReader) (digest : ℕ → String → String)
    (calls : List (RelationEnv × RelationCall)) :
    TablesOK (run (RelationStore.after reader digest) ({} : RelationStore F) calls) ∧
      KeysOK (run (RelationStore.after reader digest) ({} : RelationStore F) calls) := by
  have hempty : KeysOK ({} : RelationStore F) := ⟨List.nodup_nil, fun _ he => absurd he List.not_mem_nil⟩
  refine run_invariant (I := fun s => TablesOK s ∧ KeysOK s) ?_ calls {} ⟨tablesOK_empty, hempty⟩
  rintro s ⟨env, call⟩ ⟨htables, hkeys⟩
  have hstep : RelationStep reader env s call (s.after reader digest (env, call)) := relation_step htables call
  exact ⟨htables.step hstep, hkeys.step htables call⟩

/-! ## All or nothing -/

/-- The arguments of `extract_source`. -/
structure Extraction where
  sourceVersionId : String
  documentKind : DocumentKind
  modelId : Option String
  modelVersion : Option String
  models : List ModelRelationCandidate

/-- A verified document with segments. -/
def AcceptedSource (env : RelationEnv) (sourceVersionId : String) (detail : SourceDocumentDetail) : Prop :=
  Text.trim sourceVersionId ≠ "" ∧ env.readDocument sourceVersionId = .ok detail ∧
    detail.accessStatus = "verified" ∧ detail.version.isSome = true ∧ detail.segments.isEmpty = false

namespace Extraction

def prog (reader : RelationReader) (digest : ℕ → String → String) (env : RelationEnv) (x : Extraction) :
    RelationProg F ExtractionRunDetail :=
  extractSource reader digest env x.sourceVersionId x.documentKind x.modelId x.modelVersion x.models

def extractorKind (x : Extraction) : String :=
  if x.models = [] then "zh-disclosure-rules-v1" else "model_candidates_plus_rules"

/-- The row with which a new run begins. -/
def newRun (digest : ℕ → String → String) (env : RelationEnv) (detail : SourceDocumentDetail)
    (x : Extraction) : ExtractionRun where
  runId := "relrun:" ++ digest 28 (x.sourceVersionId ++ "|" ++ x.extractorKind ++ "|" ++
    extractionHash digest detail x.models ++ "|" ++ toString env.now)
  sourceVersionId := x.sourceVersionId
  documentKind := x.documentKind
  extractorKind := x.extractorKind
  modelId := x.modelId
  modelVersion := x.modelVersion
  schemaVersion := relationSchemaVersion
  inputHash := extractionHash digest detail x.models
  completed := false
  candidateCount := 0
  validationErrors := 0
  startedAt := env.now
  completedAt := none

def drafts (reader : RelationReader) (env : RelationEnv) (detail : SourceDocumentDetail) (x : Extraction) :
    List CandidateDraft := sourceDrafts reader env detail x.documentKind x.models

/-- The completed run of the same input. -/
def existing (digest : ℕ → String → String) (s : RelationStore F) (detail : SourceDocumentDetail)
    (x : Extraction) : Option String :=
  s.findExistingRun x.sourceVersionId x.extractorKind x.modelId x.modelVersion
    (extractionHash digest detail x.models)

/-- The candidates of the model name segments of the document. -/
def Names (detail : SourceDocumentDetail) (x : Extraction) : Prop :=
  ∀ m ∈ x.models, InDocument detail m.evidence.segmentId

/-- The call gives a run with one candidate for each draft, and the call repeated gives that run. -/
def Complete (reader : RelationReader) (digest : ℕ → String → String) (env : RelationEnv)
    (s : RelationStore F) (detail : SourceDocumentDetail) (x : Extraction) : Prop :=
  ∃ result s', exec (x.prog reader digest env) s = (.ok result, s') ∧
    result.candidates = s'.candidatesForRun result.run.runId ∧
    OnePerDraft digest s' result.run.runId (x.drafts reader env detail) ∧
    ∀ env', env'.readDocument = env.readDocument → ∃ again,
      exec (x.prog reader digest env') s' = (.ok again, s') ∧ again.run.runId = result.run.runId

/-- After an error, no run and no candidate of the call is left. -/
def NothingLeft (reader : RelationReader) (digest : ℕ → String → String) (env : RelationEnv)
    (s : RelationStore F) (x : Extraction) : Prop :=
  ∀ e s', exec (x.prog reader digest env) s = (.error e, s') →
    s'.runs = s.runs ∧ s'.candidates = s.candidates

/-- The call is total and leaves nothing halfway. -/
def Whole (reader : RelationReader) (digest : ℕ → String → String) (env : RelationEnv)
    (s : RelationStore F) (x : Extraction) : Prop :=
  (∀ detail, AcceptedSource env x.sourceVersionId detail → x.Names detail →
    x.Complete reader digest env s detail) ∧ x.NothingLeft reader digest env s

/-- The state and a document let the call through: the completed run of the input has one candidate for
each draft, or a new run can begin and all its drafts can be stored. -/
def Passes (reader : RelationReader) (digest : ℕ → String → String) (env : RelationEnv)
    (s : RelationStore F) (detail : SourceDocumentDetail) (x : Extraction) : Prop :=
  match x.existing digest s detail with
  | some runId => x.Names detail → OnePerDraft digest s runId (x.drafts reader env detail)
  | none =>
    (x.Names detail → s.runs.any (x.newRun digest env detail).collides = false) ∧
      (s.runs.any (x.newRun digest env detail).collides = true ∨
        Storable digest s (x.newRun digest env detail).runId detail (x.drafts reader env detail))

variable {x : Extraction} {detail : SourceDocumentDetail}

theorem exec_prog (h : AcceptedSource env x.sourceVersionId detail) : exec (x.prog reader digest env) s =
    match x.existing digest s detail with
    | some runId => exec (runDetail env runId) s
    | none => exec (runDrafts reader digest env (x.newRun digest env detail) detail
        (x.drafts reader env detail)) s := by
  obtain ⟨hid, hread, hstatus, hversion, hsegments⟩ := h
  unfold prog extractSource
  rw [exec_guardOr_bind, if_pos (decide_eq_true hid), exec_bind, exec_liftRelation, hread]
  simp only [exec_guardOr_bind, hstatus, hversion, hsegments, decide_true, Bool.and_self, Bool.not_false,
    if_true]
  rw [exec_bind_ok (exec_get s)]
  unfold existing extractorKind
  cases s.findExistingRun x.sourceVersionId (if x.models = [] then "zh-disclosure-rules-v1" else
    "model_candidates_plus_rules") x.modelId x.modelVersion (extractionHash digest detail x.models) with
  | some runId => rfl
  | none => rfl

/-- **An extraction that is not accepted** changes nothing. -/
theorem exec_prog_refused (h : ∀ detail, ¬ AcceptedSource env x.sourceVersionId detail) :
    ∃ e, exec (x.prog reader digest env) s = (.error e, s) := by
  unfold prog extractSource
  rw [exec_guardOr_bind]
  split
  · next hid =>
    rw [exec_bind, exec_liftRelation]
    cases hread : env.readDocument x.sourceVersionId with
    | error e => exact ⟨e, rfl⟩
    | ok detail =>
      simp only [exec_guardOr_bind]
      split
      · next hverified =>
        obtain ⟨hstatus, hversion⟩ := Bool.and_eq_true_iff.1 hverified
        split
        · next hsegments =>
          rw [Bool.not_eq_true'] at hsegments
          exact absurd ⟨of_decide_eq_true hid, hread, of_decide_eq_true hstatus, hversion, hsegments⟩ (h detail)
        · exact ⟨_, rfl⟩
      · exact ⟨_, rfl⟩
  · exact ⟨_, rfl⟩

/-- A call that finds the completed run of its input gives that run. -/
theorem exec_prog_existing (hkeys : KeysOK s) (h : AcceptedSource env x.sourceVersionId detail) {runId : String}
    (hexisting : x.existing digest s detail = some runId) : ∃ result,
      exec (x.prog reader digest env) s = (.ok result, s) ∧ result.run.runId = runId ∧
        result.candidates = s.candidatesForRun runId := by
  rw [exec_prog h, hexisting]
  unfold existing RelationStore.findExistingRun at hexisting
  obtain ⟨run, hfound, rfl⟩ := Option.map_eq_some_iff.1 hexisting
  have hkey := List.find?_some hfound
  simp only [decide_eq_true_eq] at hkey
  have hread : env.readDocument run.sourceVersionId = .ok detail := hkey.1 ▸ h.2.1
  have hfind := @Table.find_of_mem _ _ _ ExtractionRun.runId _ _ hkeys.runIds (List.mem_of_find?_eq_some hfound)
  obtain ⟨result, hexec, hrun, hcandidates⟩ := exec_runDetail hfind hread
  exact ⟨result, hexec, congrArg ExtractionRun.runId hrun, hcandidates⟩

/-- A call on a document that is read the same is accepted the same. -/
theorem accepted_congr {env' : RelationEnv} (hread : env'.readDocument = env.readDocument)
    (h : AcceptedSource env x.sourceVersionId detail) : AcceptedSource env' x.sourceVersionId detail := by
  unfold AcceptedSource
  rw [hread]
  exact h

/-- A run that was finished is found again for its input. -/
theorem existing_finished {now : ℤ} {n m : ℕ} (hnone : x.existing digest s detail = none)
    (hruns : s'.runs = s.runs ++ [(x.newRun digest env detail).finished now n m]) :
    x.existing digest s' detail = some (x.newRun digest env detail).runId := by
  unfold existing RelationStore.findExistingRun at hnone ⊢
  rw [hruns, List.find?_append, Option.map_eq_none_iff.1 hnone, Option.none_or]
  have hkey : (x.newRun digest env detail).sourceVersionId = x.sourceVersionId := rfl
  rw [List.find?_cons_of_pos]
  · rfl
  · exact decide_eq_true ⟨hkey, rfl, rfl, rfl, rfl, rfl, rfl⟩

/-- **A new run** is refused by the key of a stored one, left halfway, or complete. -/
theorem prog_new (reader : RelationReader) (htables : TablesOK s) (hkeys : KeysOK s) (h : AcceptedSource env x.sourceVersionId detail)
    (hnone : x.existing digest s detail = none) :
    (s.runs.any (x.newRun digest env detail).collides = true ∧
      ∃ e, exec (x.prog reader digest env) s = (.error e, s)) ∨
    s.runs.any (x.newRun digest env detail).collides = false ∧
      (¬ Storable digest s (x.newRun digest env detail).runId detail (x.drafts reader env detail) ∧
        (∃ e s', exec (x.prog reader digest env) s = (.error e, s') ∧ s'.runs ≠ s.runs) ∨
      Storable digest s (x.newRun digest env detail).runId detail (x.drafts reader env detail) ∧
        x.Complete reader digest env s detail) := by
  have hprog : exec (x.prog reader digest env) s = exec (runDrafts reader digest env
      (x.newRun digest env detail) detail (x.drafts reader env detail)) s := by
    rw [exec_prog h, hnone]
  rw [hprog]
  cases hfree : s.runs.any (x.newRun digest env detail).collides with
  | true => exact .inl ⟨rfl, runDrafts_refused hfree⟩
  | false =>
    refine .inr ⟨rfl, ?_⟩
    by_cases hstorable : Storable digest s (x.newRun digest env detail).runId detail (x.drafts reader env detail)
    · obtain ⟨result, s', n, m, hexec, hrun, hcandidates, hone, hruns⟩ :=
        runDrafts_done htables hkeys hfree h.2.1 hstorable
      have hkept : Triple KeysOK (x.prog reader digest env) (fun _ => KeysOK (F := F)) fun _ => KeysOK :=
        extract_keys x.sourceVersionId x.documentKind x.modelId x.modelVersion x.models
      have hkeys' : KeysOK s' := hkept.ok hkeys (hprog.trans hexec)
      have hexisting := existing_finished hnone hruns
      refine .inr ⟨hstorable, result, s', hprog.trans hexec, hrun ▸ hcandidates, hrun ▸ hone,
        fun env' hread => ?_⟩
      obtain ⟨again, hagain, hrun', -⟩ := exec_prog_existing hkeys' (accepted_congr hread h) hexisting
      exact ⟨again, hagain, hrun'.trans hrun.symm⟩
    · obtain ⟨e, s', hexec, hruns⟩ := runDrafts_half htables hkeys hfree hstorable
      refine .inl ⟨hstorable, e, s', hexec, fun heq => ?_⟩
      rw [hruns] at heq
      exact absurd (List.append_right_eq_self.1 heq) (List.cons_ne_nil _ _)

/-- The completed run of the input is given again: it is complete if it holds one candidate for each
draft. -/
theorem whole_existing (hkeys : KeysOK s) (h : AcceptedSource env x.sourceVersionId detail) {runId : String}
    (hexisting : x.existing digest s detail = some runId) :
    (x.Names detail → x.Complete reader digest env s detail) ∧ x.NothingLeft reader digest env s ↔
      (x.Names detail → OnePerDraft digest s runId (x.drafts reader env detail)) := by
  obtain ⟨result, hexec, hrun, hcandidates⟩ : ∃ result, exec (x.prog reader digest env) s = (.ok result, s) ∧
      result.run.runId = runId ∧ result.candidates = s.candidatesForRun runId :=
    exec_prog_existing hkeys h hexisting
  have hnothing : x.NothingLeft reader digest env s := by
    intro e s' herror
    rw [hexec] at herror
    cases herror
  have hcomplete : x.Complete reader digest env s detail ↔
      OnePerDraft digest s runId (x.drafts reader env detail) := by
    constructor
    · rintro ⟨result', s', hexec', -, hone, -⟩
      rw [hexec] at hexec'
      cases hexec'
      exact hrun ▸ hone
    · intro hone
      refine ⟨result, s, hexec, hrun ▸ hcandidates, hrun ▸ hone, fun env' hread => ?_⟩
      obtain ⟨again, hagain, hrun', -⟩ := exec_prog_existing hkeys (accepted_congr hread h) hexisting
      exact ⟨again, hagain, hrun'.trans hrun.symm⟩
  rw [hcomplete]
  exact ⟨fun hboth => hboth.1, fun hone => ⟨hone, hnothing⟩⟩

/-- A new run is all or nothing if it is refused at once or its drafts can be stored. -/
theorem whole_new (htables : TablesOK s) (hkeys : KeysOK s) (h : AcceptedSource env x.sourceVersionId detail)
    (hnone : x.existing digest s detail = none) :
    (x.Names detail → x.Complete reader digest env s detail) ∧ x.NothingLeft reader digest env s ↔
      (x.Names detail → s.runs.any (x.newRun digest env detail).collides = false) ∧
        (s.runs.any (x.newRun digest env detail).collides = true ∨
          Storable digest s (x.newRun digest env detail).runId detail (x.drafts reader env detail)) := by
  rcases prog_new reader htables hkeys h hnone with
    ⟨htaken, e, hexec⟩ | ⟨hfree, ⟨hnot, e, s', hexec, hruns⟩ | ⟨hstorable, hcomplete⟩⟩
  · constructor
    · rintro ⟨hall, -⟩
      refine ⟨fun hnames => ?_, .inl htaken⟩
      obtain ⟨result, s', hok, -⟩ := hall hnames
      rw [hexec] at hok
      cases hok
    · rintro ⟨hall, -⟩
      refine ⟨fun hnames => ?_, fun e' s' herror => ?_⟩
      · rw [hall hnames] at htaken
        cases htaken
      · rw [hexec] at herror
        cases herror
        exact ⟨rfl, rfl⟩
  · constructor
    · rintro ⟨-, hnothing⟩
      exact absurd (hnothing e s' hexec).1 hruns
    · rintro ⟨-, htaken | hstorable⟩
      · rw [hfree] at htaken
        cases htaken
      · exact absurd hstorable hnot
  · obtain ⟨result, s', hok, -⟩ := id hcomplete
    have hnothing : x.NothingLeft reader digest env s := by
      intro e t herror
      rw [hok] at herror
      cases herror
    exact ⟨fun _ => ⟨fun _ => hfree, .inr hstorable⟩, fun _ => ⟨fun _ => hcomplete, hnothing⟩⟩

/-- **An extraction is all or nothing** exactly if nothing hinders it. -/
theorem whole_iff (htables : TablesOK s) (hkeys : KeysOK s) :
    x.Whole reader digest env s ↔
      ∀ detail, AcceptedSource env x.sourceVersionId detail → x.Passes reader digest env s detail := by
  by_cases haccepted : ∃ detail, AcceptedSource env x.sourceVersionId detail
  · obtain ⟨detail, h⟩ := haccepted
    have honly : ∀ detail', AcceptedSource env x.sourceVersionId detail' → detail' = detail := by
      intro detail' h'
      have hread := h'.2.1
      rw [h.2.1] at hread
      exact (Except.ok.inj hread).symm
    have hwhole : x.Whole reader digest env s ↔
        (x.Names detail → x.Complete reader digest env s detail) ∧ x.NothingLeft reader digest env s := by
      refine ⟨fun hall => ⟨hall.1 detail h, hall.2⟩, fun hone => ⟨fun detail' h' => ?_, hone.2⟩⟩
      rw [honly detail' h']
      exact hone.1
    have hpasses : (∀ detail, AcceptedSource env x.sourceVersionId detail → x.Passes reader digest env s detail) ↔
        x.Passes reader digest env s detail := by
      refine ⟨fun hall => hall detail h, fun hone detail' h' => ?_⟩
      rw [honly detail' h']
      exact hone
    rw [hwhole, hpasses]
    unfold Passes
    cases hexisting : x.existing digest s detail with
    | some runId => exact whole_existing hkeys h hexisting
    | none => exact whole_new htables hkeys h hexisting
  · obtain ⟨e, hexec⟩ : ∃ e, exec (x.prog reader digest env) s = (.error e, s) :=
      exec_prog_refused fun detail h => haccepted ⟨detail, h⟩
    constructor
    · exact fun _ detail h => absurd ⟨detail, h⟩ haccepted
    · refine fun _ => ⟨fun detail h => absurd ⟨detail, h⟩ haccepted, fun e' s' hexec' => ?_⟩
      rw [hexec] at hexec'
      cases hexec'
      exact ⟨rfl, rfl⟩

end Extraction

/-- **After any calls**, an extraction is total and leaves nothing halfway exactly if its document passes:
above all, if no two of its drafts state the same of the same ends and product. -/
theorem extraction_whole_iff [F64 F] (reader : RelationReader) (digest : ℕ → String → String)
    (calls : List (RelationEnv × RelationCall)) (env : RelationEnv) (x : Extraction) :
    x.Whole reader digest env (run (RelationStore.after reader digest) ({} : RelationStore F) calls) ↔
      ∀ detail, AcceptedSource env x.sourceVersionId detail →
        x.Passes reader digest env (run (RelationStore.after reader digest) ({} : RelationStore F) calls)
          detail := by
  obtain ⟨htables, hkeys⟩ := run_tables (F := F) reader digest calls
  exact Extraction.whole_iff htables hkeys

section

/-- Of the two paragraphs below, the product that is made. -/
private def productReader : RelationReader where
  lowercase := fun c => [c.toLower]
  topCustomer := fun _ => false
  productCapture := fun _ => some "XX"
  amount := fun _ => none
  percent := fun _ => none
  period := fun _ => none

private def twoParagraphs : SourceDocumentDetail :=
  ⟨"doc", "url", "verified", some ⟨"text", none, none, 50⟩,
    [⟨"p1", none, 0, "AA生产XX"⟩, ⟨"p2", none, 1, "AA生产XX"⟩]⟩

private def saidTwice : RelationEnv where
  now := 100
  entities := [⟨"e1", "listed_security", "AA", some "600001", none, ["AA"]⟩]
  readDocument := fun _ => .ok twoParagraphs

/-- Two paragraphs name the same product of the same company. The second draft is refused by the key of
candidates; the run stays as it began, with the candidate of the first paragraph. -/
theorem said_twice_left_halfway : ¬ ∀ (reader : RelationReader) (digest : ℕ → String → String)
    (calls : List (RelationEnv × RelationCall)) (env : RelationEnv) (x : Extraction),
    x.Whole reader digest env (run (RelationStore.after reader digest) ({} : RelationStore ℚ) calls) := by
  intro h
  have hwhole := h productReader (fun _ text => text) [] saidTwice ⟨"v", .annualReport, none, none, []⟩
  have hleft : (exec (Extraction.prog productReader (fun _ text => text) saidTwice
      ⟨"v", .annualReport, none, none, []⟩) ({} : RelationStore ℚ)).1.isOk = false ∧
      (exec (Extraction.prog productReader (fun _ text => text) saidTwice
        ⟨"v", .annualReport, none, none, []⟩) ({} : RelationStore ℚ)).2.candidates.length = 1 := by
    decide
  rcases hexec : exec (Extraction.prog productReader (fun _ text => text) saidTwice
    ⟨"v", .annualReport, none, none, []⟩) ({} : RelationStore ℚ) with ⟨e | result, s'⟩
  · rw [hexec] at hleft
    have hnone : s'.candidates = [] := (hwhole.2 e s' hexec).2
    rw [hnone] at hleft
    cases hleft.2
  · rw [hexec] at hleft
    cases hleft.1

end

end Astock
