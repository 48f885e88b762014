import Astock.Spec.RelationReview

/-!
# What the calls on relations do

One lemma for each call, in terms of the tables of the store.

* `extract_grown`: an extraction adds rows that wait for review and leaves every other row alone.
* `publish_cases`: a publication writes the graph and adds a publication of its candidate at most.
* `review_cases`: a review is refused, or it is recorded in the row of its candidate and in the table
  of reviews, and a publication may follow.
* `retract_cases`: a retraction marks a publication and writes the graph.
* `TablesOK`: the keys and references that every call keeps.
-/

namespace Astock

open Prog

variable {F : Type} {reader : RelationReader} {digest : ℕ → String → String} {env : RelationEnv}
  {s s' : RelationStore F}

/-- All but the graph is as before. -/
structure SameTables (s s' : RelationStore F) : Prop where
  runs : s'.runs = s.runs
  candidates : s'.candidates = s.candidates
  evidence : s'.evidence = s.evidence
  reviews : s'.reviews = s.reviews
  publications : s'.publications = s.publications

theorem SameTables.refl (s : RelationStore F) : SameTables s s := ⟨rfl, rfl, rfl, rfl, rfl⟩

theorem SameTables.trans (s t u : RelationStore F) (h : SameTables s t) (h' : SameTables t u) :
    SameTables s u where
  runs := h'.runs.trans h.runs
  candidates := h'.candidates.trans h.candidates
  evidence := h'.evidence.trans h.evidence
  reviews := h'.reviews.trans h.reviews
  publications := h'.publications.trans h.publications

theorem onGraph_same {α : Type} (x : GraphProg F α) : Steps SameTables (onGraph x) :=
  fun _ => ⟨rfl, rfl, rfl, rfl, rfl⟩

theorem liftRelation_same {α : Type} (x : Except RelationError α) :
    Steps (SameTables (F := F)) (liftRelation x) := by
  cases x with
  | error e => exact steps_throw SameTables.refl e
  | ok a => exact steps_pure SameTables.refl a

theorem exec_liftRelation {α : Type} (x : Except RelationError α) (s : RelationStore F) :
    exec (liftRelation x) s = (x, s) := by
  cases x <;> rfl

/-- What is read of a candidate does not depend on the graph. -/
theorem SameTables.candidate (h : SameTables s s') (id : String) : s'.candidate id = s.candidate id := by
  unfold RelationStore.candidate RelationStore.hydrate RelationStore.activePublication
    RelationStore.evidenceFor
  rw [h.candidates, h.evidence, h.publications]

theorem SameTables.activePublication (h : SameTables s s') (id : String) :
    s'.activePublication id = s.activePublication id := by
  unfold RelationStore.activePublication
  rw [h.publications]

/-! ## Publication -/

section

variable [F64 F]

theorem projectCandidate_same (candidate : RelationCandidate) (src dst : Node) :
    Steps (SameTables (F := F)) (projectCandidate reader digest env candidate src dst) := by
  unfold projectCandidate
  refine steps_bind SameTables.trans (onGraph_same _) fun _ => ?_
  refine steps_bind SameTables.trans (onGraph_same _) fun _ => ?_
  refine steps_bind SameTables.trans (liftRelation_same _) fun detail => ?_
  cases detail.version with
  | none => exact steps_throw SameTables.refl _
  | some version =>
    exact steps_bind SameTables.trans (onGraph_same _) fun _ => steps_pure SameTables.refl _

theorem revokeProjection_same (reason : String) (publication : RelationPublication)
    (candidate : RelationCandidate) :
    Steps (SameTables (F := F)) (revokeProjection reader digest env reason publication candidate) := by
  unfold revokeProjection
  split
  · refine steps_get fun s => ?_
    split
    · exact steps_pure SameTables.refl _
    · refine steps_bind SameTables.trans (onGraph_same _) fun _ => ?_
      exact steps_bind SameTables.trans (onGraph_same _) fun _ => steps_pure SameTables.refl _
  · exact steps_pure SameTables.refl _

theorem revokeUnsupported_same (reason : String) (publication : RelationPublication) (n : ℕ) :
    Steps (SameTables (F := F)) (revokeUnsupported reader digest env reason publication n) := by
  unfold revokeUnsupported
  split
  · refine steps_get fun s => ?_
    cases s.candidate publication.candidateId with
    | none => exact steps_throw SameTables.refl _
    | some c => exact revokeProjection_same reason publication c
  · exact steps_pure SameTables.refl _

end

/-- **A fallible computation** that does not touch the state lets the rest run or leaves at once. -/
theorem triple_lift {α β : Type} {x : Except RelationError α} {f : α → RelationProg F β}
    {P : RelationStore F → Prop} {Q : β → RelationStore F → Prop} {E : RelationError → RelationStore F → Prop}
    (hf : ∀ a, x = .ok a → Triple P (f a) Q E) (he : ∀ e, x = .error e → ∀ s, P s → E e s) :
    Triple P (liftRelation x >>= f) Q E := by
  intro s hs
  rw [exec_bind, exec_liftRelation]
  cases x with
  | error e => exact he e rfl s hs
  | ok a => exact hf a rfl s hs

theorem candidate_id {id : String} {c : RelationCandidate} (h : s.candidate id = some c) :
    c.candidateId = id ∧ c.toCandidateRow ∈ s.candidates := by
  unfold RelationStore.candidate at h
  obtain ⟨row, hfind, rfl⟩ := Option.map_eq_some_iff.1 h
  exact ⟨Table.key_of_find hfind, Table.mem_of_find hfind⟩

section

variable [F64 F]

/-- One publication was added, of a candidate that is fit for it and was not published. -/
def PublicationAdded (s : RelationStore F) (id : String) (t : RelationStore F) : Prop :=
  ∃ c p, s.candidate id = some c ∧ publishable c = .ok () ∧ s.activePublication id = none ∧
    p.candidateId = id ∧ p.publicationVersion = c.candidateVersion ∧ p.published = true ∧
    SameTables { s with publications := s.publications ++ [p] } t

/-- **A publication** leaves all tables but the graph alone, or adds one publication. -/
theorem publishCandidate_spec (id : String) (s : RelationStore F) :
    Triple (· = s) (publish reader digest env id)
      (fun _ t => SameTables s t ∨ PublicationAdded s id t) fun _ t => SameTables s t := by
  unfold publish
  refine triple_get_eq ?_
  cases hc : s.candidate id with
  | none => exact triple_throw fun t ht => ht ▸ SameTables.refl s
  | some c =>
    refine triple_lift (fun _ hfit => ?_) fun _ _ t ht => ht ▸ SameTables.refl s
    refine triple_lift (fun ends _ => ?_) fun _ _ t ht => ht ▸ SameTables.refl s
    refine triple_bind ((projectCandidate_same c ends.1 ends.2).triple s) fun _ => ?_
    refine triple_each fun t hsame => triple_get_eq ?_
    rw [hsame.activePublication]
    cases hactive : s.activePublication id with
    | some p =>
      refine triple_pure fun u hu => .inl ?_
      subst hu
      exact hsame
    | none =>
      unfold insertPublication
      refine triple_bind (Q := fun _ => PublicationAdded s id) ?_ fun _ => triple_pure fun u hu => .inr hu
      refine triple_get_eq (triple_guardOr (fun _ => ?_) fun _ u hu => hu ▸ hsame)
      have hadded : ∀ p : RelationPublication, p.candidateId = id →
          p.publicationVersion = c.candidateVersion → p.published = true →
          PublicationAdded s id { t with publications := t.publications ++ [p] } := by
        intro p hid hversion hpublished
        refine ⟨c, p, hc, hfit, hactive, hid, hversion, hpublished, ?_⟩
        exact ⟨hsame.runs, hsame.candidates, hsame.evidence, hsame.reviews,
          congrArg (· ++ [p]) hsame.publications⟩
      intro u _
      exact hadded _ rfl rfl rfl

/-- The store after a publication was marked as retracted. -/
def RelationStore.retracting (s : RelationStore F) (now : ℤ) (reason : String) (p : RelationPublication) :
    RelationStore F :=
  { s with
    publications := Table.update RelationPublication.publicationId p.publicationId
      (·.retracted now reason) s.publications }

/-- **A retraction** marks a publication of the candidate that holds; it is refused when there is
none. -/
theorem retract_spec (id reason : String) (s : RelationStore F) :
    Triple (· = s) (retract reader digest env id reason)
      (fun _ t => ∃ p, s.activePublication id = some p ∧ SameTables (s.retracting env.now reason p) t)
      fun _ t => SameTables s t ∨
        ∃ p, s.activePublication id = some p ∧ SameTables (s.retracting env.now reason p) t := by
  unfold retract
  refine triple_guardOr (fun _ => ?_) fun _ t ht => .inl (ht ▸ SameTables.refl s)
  refine triple_get_eq ?_
  cases hp : s.activePublication id with
  | none => exact triple_throw fun t ht => .inl (ht ▸ SameTables.refl s)
  | some p =>
    have hmarked : ∀ t, SameTables (s.retracting env.now reason p) t →
        ∃ p', some p = some p' ∧ SameTables (s.retracting env.now reason p') t := fun t ht => ⟨p, rfl, ht⟩
    refine triple_modify_eq (triple_get_eq ?_)
    refine triple_bind (Q := fun _ t => SameTables (s.retracting env.now reason p) t) ?_
      fun _ => triple_pure hmarked
    refine ((revokeUnsupported_same reason p _).triple _).conseq (fun _ h => h) (fun _ _ h => h) ?_
    exact fun _ t h => .inr (hmarked t h)

/-! ## Review -/

/-- The row that a review writes, when it is not refused. -/
def ReviewedTo (reader : RelationReader) (env : RelationEnv) (request : RelationReviewRequest)
    (s : RelationStore F) (row : CandidateRow) : Prop :=
  ∃ status c, checkReview request = .ok status ∧ s.candidate request.candidateId = some c ∧
    reviewedRow reader env request status c.toCandidateRow = .ok row ∧
      (s.candidates.any fun d => d.candidateId ≠ row.candidateId ∧ row.collides d) = false

/-- The row of a review. -/
def RelationReviewRequest.recorded (env : RelationEnv) (request : RelationReviewRequest) : CandidateReview where
  candidateId := request.candidateId
  decision := request.decision
  reviewer := Text.trim request.reviewer
  reason := Text.trim request.reason
  mergedEntityId := request.mergedEntityId
  datasetSplit := request.datasetSplit
  trainingEligible := request.trainingEligible
  reviewedAt := env.now

/-- The store after a review was recorded. -/
def RelationStore.recording (s : RelationStore F) (row : CandidateRow) (review : CandidateReview) :
    RelationStore F :=
  { s with
    candidates := Table.update CandidateRow.candidateId row.candidateId (fun _ => row) s.candidates
    reviews := s.reviews ++ [review] }

/-- **A review** is refused, or it is recorded; a publication of the candidate may follow. -/
theorem review_spec (request : RelationReviewRequest) (s : RelationStore F) :
    Triple (· = s) (review reader digest env request)
      (fun _ t => ∃ row, ReviewedTo reader env request s row ∧
        (SameTables (s.recording row (request.recorded env)) t ∨ request.publish = true ∧
          PublicationAdded (s.recording row (request.recorded env)) request.candidateId t))
      fun _ t => SameTables s t ∧ (∀ row, ¬ ReviewedTo reader env request s row) ∨
        ∃ row, ReviewedTo reader env request s row ∧ request.publish = true ∧
          SameTables (s.recording row (request.recorded env)) t := by
  unfold review
  refine triple_lift (fun status hstatus => ?_) fun e herror t ht => .inl ⟨ht ▸ SameTables.refl s, ?_⟩
  · refine triple_get_eq ?_
    cases hc : s.candidate request.candidateId with
    | none =>
      refine triple_throw fun t ht => .inl ⟨ht ▸ SameTables.refl s, ?_⟩
      rintro row ⟨status', c, -, hc', -⟩
      rw [hc] at hc'
      cases hc'
    | some c =>
      refine triple_lift (fun row hrow => ?_) fun e herror t ht => .inl ⟨ht ▸ SameTables.refl s, ?_⟩
      · unfold recordReview
        refine triple_bind (Q := fun _ t => ReviewedTo reader env request s row ∧
          t = s.recording row (request.recorded env)) ?_ fun _ => ?_
        · refine triple_get_eq (triple_guardOr (fun hfree => ?_) fun htaken t ht => ?_)
          · rw [Bool.not_eq_true'] at hfree
            exact fun t _ => ⟨⟨status, c, hstatus, hc, hrow, hfree⟩, rfl⟩
          · refine .inl ⟨ht ▸ SameTables.refl s, ?_⟩
            rintro row' ⟨status', c', hstatus', hc', hrow', hfree⟩
            rw [hstatus] at hstatus'
            rw [hc] at hc'
            cases hstatus'
            cases hc'
            rw [hrow] at hrow'
            cases hrow'
            rw [hfree] at htaken
            cases htaken
        · refine triple_pure_pre fun hto => ?_
          cases hpublish : request.publish && status.accepting with
          | false => exact triple_pure fun t ht => ⟨row, hto, .inl (ht ▸ SameTables.refl _)⟩
          | true =>
            have hwanted := (Bool.and_eq_true_iff.1 hpublish).1
            refine (publishCandidate_spec request.candidateId _).conseq (fun _ h => h) (fun _ t ht => ⟨row, hto, ?_⟩)
              fun _ t ht => .inr ⟨row, hto, hwanted, ht⟩
            exact ht.imp_right fun hadded => ⟨hwanted, hadded⟩
      · rintro row ⟨status', c', hstatus', hc', hrow, -⟩
        rw [hstatus] at hstatus'
        rw [hc] at hc'
        cases hstatus'
        cases hc'
        rw [herror] at hrow
        cases hrow
  · rintro row ⟨status, -, hstatus, -⟩
    rw [herror] at hstatus
    cases hstatus

end

/-! ## Extraction -/

/-- The keys and references of the tables. -/
structure TablesOK (s : RelationStore F) : Prop where
  ids : (s.candidates.map (·.candidateId)).Nodup
  evidenced : ∀ c ∈ s.candidates, ∃ e ∈ s.evidence, e.candidateId = c.candidateId
  runs : ∀ c ∈ s.candidates, c.runId ∈ s.runs.map (·.runId)
  published : ∀ p ∈ s.publications, p.candidateId ∈ s.candidates.map (·.candidateId)

/-- Rows that wait for review were added, all others are as before. -/
structure Grown (s₀ s : RelationStore F) : Prop where
  reviews : s.reviews = s₀.reviews
  publications : s.publications = s₀.publications
  graph : s.graph = s₀.graph
  kept : ∀ c ∈ s₀.candidates, c ∈ s.candidates
  added : ∀ c ∈ s.candidates, c ∈ s₀.candidates ∨
    c.reviewStatus = .pendingReview ∧ c.candidateId ∉ s₀.candidates.map (·.candidateId)
  tables : TablesOK s

theorem Grown.refl {s : RelationStore F} (hs : TablesOK s) : Grown s s :=
  ⟨rfl, rfl, rfl, fun _ hc => hc, fun _ hc => .inl hc, hs⟩

theorem Grown.of_eq {s₀ : RelationStore F} (hs₀ : TablesOK s₀) : ∀ s, s = s₀ → Grown s₀ s := by
  intro s hs
  subst hs
  exact Grown.refl hs₀

theorem Grown.mem_ids {s₀ s : RelationStore F} (h : Grown s₀ s) {id : String}
    (hid : id ∈ s₀.candidates.map (·.candidateId)) : id ∈ s.candidates.map (·.candidateId) := by
  obtain ⟨c, hc, rfl⟩ := List.mem_map.1 hid
  exact List.mem_map_of_mem (h.kept c hc)

theorem validateDraft_row {runId source : String} {kind : DocumentKind} {draft : CandidateDraft}
    {detail : SourceDocumentDetail} {entities : List EntityRecord} {now : ℤ}
    {row : CandidateRow} {evidence : RelationEvidence}
    (h : validateDraft reader digest runId source kind draft detail entities now = .ok (row, evidence)) :
    row.runId = runId ∧ row.reviewStatus = .pendingReview := by
  unfold validateDraft at h
  simp only at h
  split at h
  · cases h
  · injection h with h
    obtain ⟨rfl, -⟩ := Prod.mk.inj h
    exact ⟨rfl, rfl⟩

/-- **A candidate is persisted** as a row of its run, with its evidence. -/
theorem Grown.persist {s₀ s : RelationStore F} (h : Grown s₀ s) {row : CandidateRow}
    {evidence : RelationEvidence} (hrun : row.runId ∈ s.runs.map (·.runId))
    (hpending : row.reviewStatus = .pendingReview)
    (hfree : ∀ c ∈ s.candidates, c.candidateId ≠ row.candidateId) :
    Grown s₀ { s with
      candidates := s.candidates ++ [row]
      evidence := s.evidence ++ [⟨row.candidateId, evidence, row.createdAt⟩] } := by
  have hnew : row.candidateId ∉ s.candidates.map (·.candidateId) := by
    intro hmem
    obtain ⟨c, hc, heq⟩ := List.mem_map.1 hmem
    exact hfree c hc heq
  refine ⟨h.reviews, h.publications, h.graph, fun c hc => List.mem_append_left _ (h.kept c hc), ?_, ?_⟩
  · intro c hc
    rcases List.mem_append.1 hc with hc | hc
    · exact h.added c hc
    · rw [List.mem_singleton.1 hc]
      exact .inr ⟨hpending, fun hmem => hnew (h.mem_ids hmem)⟩
  · refine ⟨?_, ?_, ?_, fun p hp => ?_⟩
    · exact Table.nodup_append_key h.tables.ids hfree
    · intro c hc
      rcases List.mem_append.1 hc with hc | hc
      · obtain ⟨e, he, hid⟩ := h.tables.evidenced c hc
        exact ⟨e, List.mem_append_left _ he, hid⟩
      · rw [List.mem_singleton.1 hc]
        exact ⟨_, List.mem_append_right _ (List.mem_singleton_self _), rfl⟩
    · intro c hc
      rcases List.mem_append.1 hc with hc | hc
      · exact h.tables.runs c hc
      · rw [List.mem_singleton.1 hc]
        exact hrun
    · show p.candidateId ∈ (s.candidates ++ [row]).map (·.candidateId)
      rw [List.map_append]
      exact List.mem_append_left _ (h.tables.published p hp)

theorem persistDrafts_grown {s₀ : RelationStore F} {runId source : String} {kind : DocumentKind}
    {detail : SourceDocumentDetail} : ∀ drafts : List CandidateDraft,
    Triple (fun s => runId ∈ s.runs.map (·.runId) ∧ Grown s₀ s)
      (persistDrafts reader digest env runId source kind detail drafts)
      (fun _ s => runId ∈ s.runs.map (·.runId) ∧ Grown s₀ s)
      fun _ s => runId ∈ s.runs.map (·.runId) ∧ Grown s₀ s := by
  intro drafts
  induction drafts with
  | nil => exact triple_pure fun _ h => h
  | cons draft rest ih =>
    unfold persistDrafts
    refine triple_lift (fun candidate hvalid => ?_) fun _ _ s h => h
    obtain ⟨row, evidence⟩ := candidate
    obtain ⟨hrun, hpending⟩ := validateDraft_row hvalid
    refine triple_bind (Q := fun _ s => runId ∈ s.runs.map (·.runId) ∧ Grown s₀ s) ?_ fun _ => ih
    refine triple_each fun s hs => ?_
    unfold persistCandidate
    refine triple_get_eq (triple_guardOr (fun hfree => ?_) fun _ t ht => ht ▸ hs)
    refine triple_guardOr (fun _ => ?_) fun _ t ht => ht ▸ hs
    rw [Bool.not_eq_true', List.any_eq_false] at hfree
    intro t _
    refine ⟨hs.1, hs.2.persist (by rw [hrun]; exact hs.1) hpending fun c hc heq => ?_⟩
    exact hfree c hc (decide_eq_true (.inl heq))

theorem mem_insertEvidence {rows : List CandidateEvidence} {e new : CandidateEvidence} (he : e ∈ rows) :
    e ∈ insertEvidence rows new := by
  unfold insertEvidence
  split
  · exact he
  · exact List.mem_append_left _ he

theorem foldl_insertEvidence_mem {id : String} {now : ℤ} (linked : List RelationEvidence) :
    ∀ {rows : List CandidateEvidence} {e : CandidateEvidence}, e ∈ rows →
      e ∈ linked.foldl (fun rows e => insertEvidence rows ⟨id, e, now⟩) rows := by
  induction linked with
  | nil => intro rows e he; exact he
  | cons new rest ih =>
    intro rows e he
    exact ih (mem_insertEvidence he)

/-- **Reconciling** a candidate of the run changes its row alone. -/
theorem Grown.reconcile {s₀ s : RelationStore F} (h : Grown s₀ s) {candidate : RelationCandidate}
    (hnew : candidate.candidateId ∉ s₀.candidates.map (·.candidateId)) (now : ℤ)
    (all : List RelationCandidate) : Grown s₀ (reconcileCandidate digest now all s candidate) := by
  unfold reconcileCandidate
  simp only
  split
  · exact h
  · have hids : (Table.update CandidateRow.candidateId candidate.candidateId
        (·.reconciled now (linkedEvidence digest candidate all)) s.candidates).map (·.candidateId) =
          s.candidates.map (·.candidateId) := Table.map_key_update CandidateRow.candidateId fun _ => rfl
    have hrow : ∀ c ∈ Table.update CandidateRow.candidateId candidate.candidateId
        (·.reconciled now (linkedEvidence digest candidate all)) s.candidates,
        c ∈ s.candidates ∨ ∃ d ∈ s.candidates, d.candidateId = candidate.candidateId ∧
          c.candidateId = d.candidateId ∧ c.runId = d.runId ∧ c.reviewStatus = d.reviewStatus := by
      intro c hc
      obtain ⟨d, hd, rfl⟩ := List.mem_map.1 hc
      by_cases hid : d.candidateId = candidate.candidateId
      · rw [if_pos hid]
        exact .inr ⟨d, hd, hid, rfl, rfl, rfl⟩
      · rw [if_neg hid]
        exact .inl hd
    refine ⟨h.reviews, h.publications, h.graph, fun c hc => ?_, fun c hc => ?_, ?_⟩
    · refine List.mem_map.2 ⟨c, h.kept c hc, if_neg fun hid => hnew ?_⟩
      exact hid ▸ List.mem_map_of_mem hc
    · rcases hrow c hc with hc | ⟨d, hd, hid, hcd, -, hstatus⟩
      · exact h.added c hc
      · rcases h.added d hd with hold | ⟨hpending, hfresh⟩
        · exact absurd (List.mem_map_of_mem hold) (hid ▸ hnew)
        · exact .inr ⟨hstatus.trans hpending, hcd ▸ hfresh⟩
    · refine ⟨hids ▸ h.tables.ids, fun c hc => ?_, fun c hc => ?_, fun p hp => ?_⟩
      · have hevidence : ∃ e ∈ s.evidence, e.candidateId = c.candidateId := by
          rcases hrow c hc with hc | ⟨d, hd, -, hcd, -, -⟩
          · exact h.tables.evidenced c hc
          · rw [hcd]
            exact h.tables.evidenced d hd
        obtain ⟨e, he, hid⟩ := hevidence
        exact ⟨e, foldl_insertEvidence_mem _ he, hid⟩
      · rcases hrow c hc with hc | ⟨d, hd, -, -, hrun, -⟩
        · exact h.tables.runs c hc
        · rw [hrun]
          exact h.tables.runs d hd
      · exact hids ▸ h.tables.published p hp

/-- The candidates of a run that is new are new. -/
theorem Grown.run_new {s₀ s : RelationStore F} (h : Grown s₀ s) {runId : String}
    (hfresh : ∀ c ∈ s₀.candidates, c.runId ≠ runId) :
    ∀ candidate ∈ s.candidatesForRun runId,
      candidate.candidateId ∉ s₀.candidates.map (·.candidateId) := by
  intro candidate hmem
  unfold RelationStore.candidatesForRun RelationStore.ordered at hmem
  obtain ⟨row, hrow, rfl⟩ := List.mem_map.1 hmem
  obtain ⟨hrow, hrun⟩ := List.mem_filter.1 ((List.mem_insertionSort _).1 hrow)
  rw [decide_eq_true_eq] at hrun
  rcases h.added row hrow with hold | ⟨-, hnew⟩
  · exact absurd hrun (hfresh row hold)
  · exact hnew

theorem Grown.reconcileRun {s₀ s : RelationStore F} (h : Grown s₀ s) {runId : String}
    (hfresh : ∀ c ∈ s₀.candidates, c.runId ≠ runId) (now : ℤ) :
    Grown s₀ (reconcileRunEvidence digest now runId s) := by
  have hfold : ∀ candidates : List RelationCandidate,
      (∀ c ∈ candidates, c.candidateId ∉ s₀.candidates.map (·.candidateId)) →
        ∀ t, Grown s₀ t → Grown s₀ (candidates.foldl (reconcileCandidate digest now s.allCandidates) t) := by
    intro candidates
    induction candidates with
    | nil => intro _ t ht; exact ht
    | cons c rest ih =>
      intro hnew t ht
      exact ih (fun d hd => hnew d (List.mem_cons_of_mem _ hd)) _
        (ht.reconcile (hnew c List.mem_cons_self) now _)
  exact hfold _ (h.run_new hfresh) s h

theorem Grown.finish {s₀ s : RelationStore F} (h : Grown s₀ s) (now : ℤ) (runId : String) :
    Grown s₀ (finishRun now runId s) := by
  refine ⟨h.reviews, h.publications, h.graph, h.kept, h.added, h.tables.ids, h.tables.evidenced, ?_,
    h.tables.published⟩
  intro c hc
  have hruns : (finishRun now runId s).runs.map (·.runId) = s.runs.map (·.runId) :=
    Table.map_key_update ExtractionRun.runId fun _ => rfl
  rw [hruns]
  exact h.tables.runs c hc

theorem runDetail_same (runId : String) : Steps Eq (runDetail (F := F) env runId) := by
  unfold runDetail
  have htrans : ∀ s t u : RelationStore F, s = t → t = u → s = u := fun _ _ _ => Eq.trans
  refine steps_get fun s => ?_
  cases Table.find ExtractionRun.runId runId s.runs with
  | none => exact steps_throw (fun _ => rfl) _
  | some run =>
    refine steps_bind htrans ?_ fun source => steps_get fun _ => steps_pure (fun _ => rfl) _
    cases env.readDocument run.sourceVersionId with
    | error e => exact steps_throw (fun _ => rfl) e
    | ok source => exact steps_pure (fun _ => rfl) source

theorem runDetail_grown {s₀ s : RelationStore F} (hs : Grown s₀ s) (runId : String) :
    Triple (· = s) (runDetail env runId) (fun _ => Grown s₀) fun _ => Grown s₀ :=
  ((runDetail_same runId).triple s).conseq (fun _ h => h) (fun _ _ h => h ▸ hs) fun _ _ h => h ▸ hs

/-- **A new run** adds rows of its own. -/
theorem runDrafts_grown {s₀ : RelationStore F} (hs₀ : TablesOK s₀) (run : ExtractionRun)
    (detail : SourceDocumentDetail) (drafts : List CandidateDraft) :
    Triple (· = s₀) (runDrafts reader digest env run detail drafts) (fun _ => Grown s₀)
      fun _ => Grown s₀ := by
  unfold runDrafts insertRun
  refine triple_bind (Q := fun _ s => s₀.runs.any run.collides = false ∧
    s = { s₀ with runs := s₀.runs ++ [run] }) ?_ fun _ => triple_pure_pre fun hfree => ?_
  · refine triple_get_eq (triple_guardOr (fun hfree => ?_) fun _ => Grown.of_eq hs₀)
    rw [Bool.not_eq_true'] at hfree
    exact triple_modify_last ⟨hfree, rfl⟩
  · have hfresh : ∀ c ∈ s₀.candidates, c.runId ≠ run.runId := by
      intro c hc heq
      obtain ⟨r, hr, hid⟩ := List.mem_map.1 (hs₀.runs c hc)
      rw [List.any_eq_false] at hfree
      exact hfree r hr (decide_eq_true (.inl (heq.symm.trans hid.symm)))
    have hgrown : Grown s₀ { s₀ with runs := s₀.runs ++ [run] } := by
      refine ⟨rfl, rfl, rfl, fun _ hc => hc, fun _ hc => .inl hc, hs₀.ids, hs₀.evidenced, ?_,
        hs₀.published⟩
      intro c hc
      rw [List.map_append]
      exact List.mem_append_left _ (hs₀.runs c hc)
    have hmem : run.runId ∈ (s₀.runs ++ [run]).map (·.runId) := by
      rw [List.map_append]
      exact List.mem_append_right _ (List.mem_singleton_self _)
    refine triple_bind (Q := fun _ => Grown s₀) ?_ fun _ => triple_each fun s hs => ?_
    · refine (persistDrafts_grown drafts).conseq (fun s hs => ?_) (fun _ _ h => h.2) fun _ _ h => h.2
      subst hs
      exact ⟨hmem, hgrown⟩
    · refine triple_modify_eq (triple_modify_eq ?_)
      exact runDetail_grown ((hs.reconcileRun hfresh env.now).finish env.now run.runId) run.runId

/-- **An extraction** adds rows that wait for review and leaves every other row alone, also when it
is cut short by an error. -/
theorem extract_grown {s₀ : RelationStore F} (hs₀ : TablesOK s₀) (source : String) (kind : DocumentKind)
    (modelId modelVersion : Option String) (models : List ModelRelationCandidate) :
    Triple (· = s₀) (extractSource reader digest env source kind modelId modelVersion models)
      (fun _ => Grown s₀) fun _ => Grown s₀ := by
  have hstart := Grown.of_eq hs₀
  unfold extractSource
  refine triple_guardOr (fun _ => ?_) fun _ => hstart
  refine triple_lift (fun detail _ => ?_) fun _ _ => hstart
  refine triple_guardOr (fun _ => ?_) fun _ => hstart
  refine triple_guardOr (fun _ => ?_) fun _ => hstart
  refine triple_get_eq ?_
  split
  · exact runDetail_grown (Grown.refl hs₀) _
  · exact runDrafts_grown hs₀ _ detail _

/-! ## Calls -/

/-- What a call on the store does. -/
inductive RelationStep (reader : RelationReader) (env : RelationEnv) (s : RelationStore F) :
    RelationCall → RelationStore F → Prop
  | extracted {source kind modelId modelVersion models s'} (h : Grown s s') :
      RelationStep reader env s (.extractSource source kind modelId modelVersion models) s'
  | reviewRefused {request s'} (hrefused : ∀ row, ¬ ReviewedTo reader env request s row)
      (h : SameTables s s') : RelationStep reader env s (.review request) s'
  | reviewed {request row s'} (hto : ReviewedTo reader env request s row)
      (h : SameTables (s.recording row (request.recorded env)) s') :
      RelationStep reader env s (.review request) s'
  | reviewPublished {request row s'} (hto : ReviewedTo reader env request s row)
      (hwanted : request.publish = true)
      (h : PublicationAdded (s.recording row (request.recorded env)) request.candidateId s') :
      RelationStep reader env s (.review request) s'
  | unpublished {id s'} (h : SameTables s s') : RelationStep reader env s (.publish id) s'
  | published {id s'} (h : PublicationAdded s id s') : RelationStep reader env s (.publish id) s'
  | unretracted {id reason s'} (h : SameTables s s') : RelationStep reader env s (.retract id reason) s'
  | retracted {id reason p s'} (hp : s.activePublication id = some p)
      (h : SameTables (s.retracting env.now reason p) s') :
      RelationStep reader env s (.retract id reason) s'

/-- What holds after both exits of a program holds after it is run for its effect. -/
theorem triple_drop {α : Type} {x : RelationProg F α} {P : RelationStore F → Prop}
    {Q : α → RelationStore F → Prop} {E : RelationError → RelationStore F → Prop}
    {R : RelationStore F → Prop} (h : Triple P x Q E) (hQ : ∀ a t, Q a t → R t)
    (hE : ∀ e t, E e t → R t) (hs : P s) : R (exec (do let _ ← x) s).2 := by
  have hx : Triple P (do let _ ← x) (fun _ => R) fun _ => R :=
    triple_bind (h.conseq (fun _ h => h) hQ hE) fun _ => triple_pure fun _ h => h
  exact hx.state hs

/-- **Each call** is such a step. -/
theorem relation_step [F64 F] (hs : TablesOK s) (call : RelationCall) :
    RelationStep reader env s call (s.after reader digest (env, call)) := by
  unfold RelationStore.after
  cases call with
  | extractSource source kind modelId modelVersion models =>
    exact triple_drop (extract_grown hs source kind modelId modelVersion models)
      (fun _ _ h => .extracted h) (fun _ _ h => .extracted h) rfl
  | review request =>
    refine triple_drop (review_spec request s) (fun _ t h => ?_) (fun _ t h => ?_) rfl
    · obtain ⟨row, hto, hsame | ⟨hwanted, hadded⟩⟩ := h
      · exact .reviewed hto hsame
      · exact .reviewPublished hto hwanted hadded
    · rcases h with ⟨hsame, hrefused⟩ | ⟨row, hto, -, hsame⟩
      · exact .reviewRefused hrefused hsame
      · exact .reviewed hto hsame
  | publish id =>
    refine triple_drop (publishCandidate_spec id s) (fun _ t h => ?_) (fun _ t h => .unpublished h) rfl
    exact h.elim .unpublished .published
  | retract id reason =>
    refine triple_drop (retract_spec id reason s) (fun _ t h => ?_) (fun _ t h => ?_) rfl
    · obtain ⟨p, hp, hsame⟩ := h
      exact .retracted hp hsame
    · rcases h with hsame | ⟨p, hp, hsame⟩
      · exact .unretracted hsame
      · exact .retracted hp hsame

/-! ## Keys and references -/

theorem TablesOK.same (hs : TablesOK s) (h : SameTables s s') : TablesOK s' where
  ids := h.candidates ▸ hs.ids
  evidenced := by
    rw [h.candidates, h.evidence]
    exact hs.evidenced
  runs := by
    rw [h.candidates, h.runs]
    exact hs.runs
  published := by
    rw [h.candidates, h.publications]
    exact hs.published

/-- What a review leaves alone in the row of its candidate. -/
theorem reviewedRow_same {request : RelationReviewRequest} {status : ReviewStatus} {c row : CandidateRow}
    (h : reviewedRow reader env request status c = .ok row) :
    row.candidateId = c.candidateId ∧ row.runId = c.runId ∧ row.validationStatus = c.validationStatus ∧
      row.reviewStatus = status := by
  unfold reviewedRow at h
  simp only at h
  split at h
  · cases h
  · split at h
    · cases h
    · cases h
      exact ⟨rfl, rfl, rfl, rfl⟩

/-- The row that a review writes is that of its candidate. -/
theorem ReviewedTo.row {request : RelationReviewRequest} {row : CandidateRow}
    (h : ReviewedTo reader env request s row) : row.candidateId = request.candidateId ∧
      ∃ c ∈ s.candidates, c.candidateId = request.candidateId ∧ row.runId = c.runId ∧
        row.validationStatus = c.validationStatus := by
  obtain ⟨status, c, -, hc, hrow, -⟩ := h
  obtain ⟨hid, hmem⟩ := candidate_id hc
  obtain ⟨hrowid, hrun, hvalid, -⟩ := reviewedRow_same hrow
  exact ⟨hrowid.trans hid, c.toCandidateRow, hmem, hid, hrun, hvalid⟩

/-- The rows after a review: that of the candidate is replaced. -/
theorem mem_recording {row c : CandidateRow} {r : CandidateReview}
    (hc : c ∈ (s.recording row r).candidates) :
    c = row ∨ c ∈ s.candidates ∧ c.candidateId ≠ row.candidateId := by
  obtain ⟨d, hd, rfl⟩ := List.mem_map.1 hc
  by_cases hid : d.candidateId = row.candidateId
  · rw [if_pos hid]
    exact .inl rfl
  · rw [if_neg hid]
    exact .inr ⟨hd, hid⟩

theorem recording_ids (row : CandidateRow) (r : CandidateReview) :
    (s.recording row r).candidates.map (·.candidateId) = s.candidates.map (·.candidateId) := by
  unfold RelationStore.recording Table.update
  rw [List.map_map]
  refine List.map_congr_left fun c _ => ?_
  by_cases hid : c.candidateId = row.candidateId
  · simp [hid]
  · simp [hid]

theorem TablesOK.recording (hs : TablesOK s) {request : RelationReviewRequest} {row : CandidateRow}
    (hto : ReviewedTo reader env request s row) (r : CandidateReview) : TablesOK (s.recording row r) := by
  obtain ⟨hid, c, hc, hcid, hrun, -⟩ := hto.row
  refine ⟨(congrArg List.Nodup (recording_ids row r)).mpr hs.ids, fun d hd => ?_, fun d hd => ?_,
    fun p hp => ?_⟩
  · rcases mem_recording hd with rfl | ⟨hd, -⟩
    · obtain ⟨e, he, heid⟩ := hs.evidenced c hc
      exact ⟨e, he, heid.trans (hcid.trans hid.symm)⟩
    · exact hs.evidenced d hd
  · rcases mem_recording hd with rfl | ⟨hd, -⟩
    · rw [hrun]
      exact hs.runs c hc
    · exact hs.runs d hd
  · rw [recording_ids]
    exact hs.published p hp

theorem TablesOK.publication (hs : TablesOK s) {id : String} (h : PublicationAdded s id s') :
    TablesOK s' := by
  obtain ⟨c, p, hc, -, -, hid, -, -, hsame⟩ := h
  have hadded : TablesOK { s with publications := s.publications ++ [p] } := by
    refine ⟨hs.ids, hs.evidenced, hs.runs, fun q hq => ?_⟩
    rcases List.mem_append.1 hq with hq | hq
    · exact hs.published q hq
    · obtain ⟨hcid, hmem⟩ := candidate_id hc
      rw [List.mem_singleton.1 hq, hid, ← hcid]
      exact List.mem_map_of_mem hmem
  exact hadded.same hsame

/-- A publication after a retraction is one that was there, with the same candidate; it holds only if
it did. -/
theorem mem_retracting {now : ℤ} {reason : String} {p q : RelationPublication}
    (hq : q ∈ (s.retracting now reason p).publications) : ∃ q₀ ∈ s.publications,
      q.candidateId = q₀.candidateId ∧ q.projectionKey = q₀.projectionKey ∧
        (q.published = true → q = q₀ ∧ q₀.publicationId ≠ p.publicationId) := by
  obtain ⟨q₀, hq₀, rfl⟩ := List.mem_map.1 hq
  by_cases hid : q₀.publicationId = p.publicationId
  · rw [if_pos hid]
    exact ⟨q₀, hq₀, rfl, rfl, fun h => absurd h Bool.false_ne_true⟩
  · rw [if_neg hid]
    exact ⟨q₀, hq₀, rfl, rfl, fun _ => ⟨rfl, hid⟩⟩

theorem TablesOK.retracting (hs : TablesOK s) (now : ℤ) (reason : String) (p : RelationPublication) :
    TablesOK (s.retracting now reason p) := by
  refine ⟨hs.ids, hs.evidenced, hs.runs, fun q hq => ?_⟩
  obtain ⟨q₀, hq₀, hid, -, -⟩ := mem_retracting hq
  rw [hid]
  exact hs.published q₀ hq₀

/-- **The keys and references** are kept by every call. -/
theorem TablesOK.step {call : RelationCall} (hs : TablesOK s) (h : RelationStep reader env s call s') :
    TablesOK s' := by
  cases h with
  | extracted h => exact h.tables
  | reviewRefused _ h => exact hs.same h
  | reviewed hto h => exact (hs.recording hto _).same h
  | reviewPublished hto _ h => exact (hs.recording hto _).publication h
  | unpublished h => exact hs.same h
  | published h => exact hs.publication h
  | unretracted h => exact hs.same h
  | retracted _ h => exact (hs.retracting _ _ _).same h

theorem tablesOK_empty : TablesOK ({} : RelationStore F) where
  ids := List.nodup_nil
  evidenced := fun _ hc => absurd hc List.not_mem_nil
  runs := fun _ hc => absurd hc List.not_mem_nil
  published := fun _ hp => absurd hp List.not_mem_nil

/-- A row is found under its id. -/
theorem TablesOK.candidate (hs : TablesOK s) {row : CandidateRow} (hrow : row ∈ s.candidates) :
    s.candidate row.candidateId = some (s.hydrate row) := by
  have hfind := @Table.find_of_mem _ _ _ CandidateRow.candidateId _ _ hs.ids hrow
  unfold RelationStore.candidate
  rw [hfind]
  rfl

theorem TablesOK.evidenceFor_ne_nil (hs : TablesOK s) {row : CandidateRow} (hrow : row ∈ s.candidates) :
    s.evidenceFor row.candidateId ≠ [] := by
  obtain ⟨e, he, hid⟩ := hs.evidenced row hrow
  have hmem : e.evidence ∈ s.evidenceFor row.candidateId := by
    refine List.mem_map_of_mem ((List.mem_insertionSort _).2 (List.mem_filter.2 ⟨he, ?_⟩))
    exact decide_eq_true hid
  exact List.ne_nil_of_mem hmem

end Astock
