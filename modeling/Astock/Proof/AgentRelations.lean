import Astock.Lib.Run
import Astock.Proof.RelationSteps

/-!
# What the agent sees of the relations

`agent_relations` filters the rows by itself; `eligible_for_agent` also asks for their validation.

* `agentVisible_eligible`: a visible row is eligible if it is validated.
* `publishedValidated_step`: a call that publishes nothing but validated candidates keeps the published
  candidates validated.
* `agent_sees_eligible`: what the agent sees in a run of such calls is eligible.
-/

namespace Astock

open Run

variable {F : Type} {reader : RelationReader} {digest : ℕ → String → String} {env : RelationEnv}
  {s s' : RelationStore F}

/-- Whatever the agent asks for, it sees eligible candidates. -/
def AgentSeesEligible (s : RelationStore F) : Prop :=
  ∀ query limit, ∀ c ∈ s.agentRelations query limit, c.eligibleForAgent = true

/-- The candidates that a publication holds for are validated. -/
def PublishedValidated (s : RelationStore F) : Prop :=
  ∀ p ∈ s.publications, p.published = true → ∀ c ∈ s.candidates, c.candidateId = p.candidateId →
    c.validationStatus = .validated

/-- When a call publishes validated candidates alone. -/
def PublishesValidated (reader : RelationReader) (s : RelationStore F) (call : RelationEnv × RelationCall) :
    Prop :=
  match call.2 with
  | .publish id => ∀ c, s.candidate id = some c → publishable c = .ok () → c.validationStatus = .validated
  | .review request => request.publish = true → ∀ row, ReviewedTo reader call.1 request s row →
      publishable (s.hydrate row) = .ok () → row.validationStatus = .validated
  | _ => True

/-! ## Visible rows -/

theorem activePublication_isSome {id : String} : (s.activePublication id).isSome = true ↔
    ∃ p ∈ s.publications, p.candidateId = id ∧ p.published = true := by
  unfold RelationStore.activePublication
  rw [List.isSome_head?, ← List.isEmpty_eq_false_iff, List.isEmpty_eq_false_iff_exists_mem]
  simp only [List.mem_insertionSort, List.mem_filter, decide_eq_true_eq]

/-- **A visible row** is eligible if it is validated. -/
theorem agentVisible_eligible (hs : TablesOK s) {row : CandidateRow} (hrow : row ∈ s.candidates)
    {query : String} (hvisible : s.agentVisible query row = true)
    (hvalid : row.validationStatus = .validated) : (s.hydrate row).eligibleForAgent = true := by
  unfold RelationStore.agentVisible at hvisible
  simp only [Bool.and_eq_true, List.any_eq_true, decide_eq_true_eq] at hvisible
  obtain ⟨⟨⟨⟨⟨⟨p, hp, hid, hpublished⟩, hconfidence⟩, hconfidential⟩, hinferable⟩, haccepting⟩, -⟩ := hvisible
  have hactive : (s.activePublication row.candidateId).isSome = true :=
    activePublication_isSome.2 ⟨p, hp, hid, hpublished⟩
  have hevidence : (s.evidenceFor row.candidateId).isEmpty = false :=
    List.isEmpty_eq_false_iff.2 (hs.evidenceFor_ne_nil hrow)
  unfold RelationStore.hydrate RelationCandidate.eligible
  simp only [hactive, hconfidential, hinferable, haccepting, hevidence, hvalid, Bool.and_eq_true,
    decide_eq_true_eq, and_true, true_and, Bool.not_false]
  exact hconfidence

/-- **The agent's answer** is eligible while the published candidates are validated. -/
theorem agentSeesEligible_of_validated (hs : TablesOK s) (hvalid : PublishedValidated s) :
    AgentSeesEligible s := by
  intro query limit c hc
  unfold RelationStore.agentRelations at hc
  obtain ⟨row, hmem, hget⟩ := List.mem_filterMap.1 hc
  obtain ⟨hrow, hvisible⟩ := List.mem_filter.1 ((List.mem_insertionSort _).1 (List.mem_of_mem_take hmem))
  rw [hs.candidate hrow] at hget
  cases hget
  refine agentVisible_eligible hs hrow hvisible ?_
  unfold RelationStore.agentVisible at hvisible
  simp only [Bool.and_eq_true, List.any_eq_true, decide_eq_true_eq] at hvisible
  obtain ⟨⟨⟨⟨⟨⟨p, hp, hid, hpublished⟩, -⟩, -⟩, -⟩, -⟩, -⟩ := hvisible
  exact hvalid p hp hpublished row hrow hid.symm

/-! ## Calls -/

theorem PublishedValidated.same (hs : PublishedValidated s) (h : SameTables s s') :
    PublishedValidated s' := by
  unfold PublishedValidated
  rw [h.publications, h.candidates]
  exact hs

theorem PublishedValidated.grown (hs : PublishedValidated s) (htables : TablesOK s) (h : Grown s s') :
    PublishedValidated s' := by
  intro p hp hpublished c hc hid
  rw [h.publications] at hp
  rcases h.added c hc with hold | ⟨-, hnew⟩
  · exact hs p hp hpublished c hold hid
  · -- a new row has an id that no publication refers to
    exact absurd (hid ▸ htables.published p hp) hnew

theorem PublishedValidated.recording (hs : PublishedValidated s) {request : RelationReviewRequest}
    {row : CandidateRow} (hto : ReviewedTo reader env request s row) (r : CandidateReview) :
    PublishedValidated (s.recording row r) := by
  intro p hp hpublished c hc hid
  rcases mem_recording hc with rfl | ⟨hold, -⟩
  · obtain ⟨hrowid, d, hd, hdid, -, hstatus⟩ := hto.row
    rw [hstatus]
    exact hs p hp hpublished d hd (hdid.trans (hrowid.symm.trans hid))
  · exact hs p hp hpublished c hold hid

theorem PublishedValidated.publication (hs : PublishedValidated s) (htables : TablesOK s) {id : String}
    (h : PublicationAdded s id s')
    (hvalid : ∀ c, s.candidate id = some c → publishable c = .ok () → c.validationStatus = .validated) :
    PublishedValidated s' := by
  obtain ⟨c, p, hc, hfit, -, hid, -, -, hsame⟩ := h
  refine PublishedValidated.same ?_ hsame
  intro q hq hpublished d hd hdid
  rcases List.mem_append.1 hq with hq | hq
  · exact hs q hq hpublished d hd hdid
  · rw [List.mem_singleton.1 hq, hid] at hdid
    have hfound : s.candidate id = some (s.hydrate d) := hdid ▸ htables.candidate hd
    rw [hfound] at hc
    cases hc
    exact hvalid _ hfound hfit

theorem PublishedValidated.retracting (hs : PublishedValidated s) (now : ℤ) (reason : String)
    (p : RelationPublication) : PublishedValidated (s.retracting now reason p) := by
  intro q hq hpublished c hc hid
  obtain ⟨q₀, hq₀, -, -, heq⟩ := mem_retracting hq
  obtain ⟨rfl, -⟩ := heq hpublished
  exact hs q hq₀ hpublished c hc hid

/-- **One call** that publishes validated candidates alone keeps the published ones validated. -/
theorem publishedValidated_step (htables : TablesOK s) (hs : PublishedValidated s) {call : RelationCall}
    (hok : PublishesValidated reader s (env, call)) (h : RelationStep reader env s call s') :
    PublishedValidated s' := by
  cases h with
  | extracted h => exact hs.grown htables h
  | reviewRefused _ h => exact hs.same h
  | reviewed hto h => exact (hs.recording hto _).same h
  | @reviewPublished request row _ hto hwanted h =>
    refine (hs.recording hto _).publication (htables.recording hto _) h fun c hc hfit => ?_
    obtain ⟨hid, d, hd, hdid, -⟩ := hto.row
    have hmem : row ∈ (s.recording row (request.recorded env)).candidates :=
      List.mem_map.2 ⟨d, hd, if_pos (hdid.trans hid.symm)⟩
    have hfound := (htables.recording hto (request.recorded env)).candidate hmem
    rw [hid, hc] at hfound
    cases hfound
    exact hok hwanted row hto hfit
  | unpublished h => exact hs.same h
  | published h => exact hs.publication htables h hok
  | unretracted h => exact hs.same h
  | retracted _ h => exact (hs.retracting _ _ _).same h

/-- **The agent sees eligible candidates alone** after every call of a run, if each of its calls
publishes validated candidates alone. -/
theorem agent_sees_eligible [F64 F] (reader : RelationReader) (digest : ℕ → String → String)
    (calls : List (RelationEnv × RelationCall))
    (hok : Along (RelationStore.after reader digest) (PublishesValidated reader) ({} : RelationStore F) calls) :
    Along (RelationStore.after reader digest) (fun s call => AgentSeesEligible (s.after reader digest call))
      ({} : RelationStore F) calls := by
  have hempty : PublishedValidated ({} : RelationStore F) := fun p hp => absurd hp List.not_mem_nil
  have hkept : ∀ (s : RelationStore F) call, PublishesValidated reader s call →
      TablesOK s ∧ PublishedValidated s →
        TablesOK (s.after reader digest call) ∧ PublishedValidated (s.after reader digest call) := by
    rintro s ⟨env, call⟩ hok ⟨htables, hs⟩
    have hstep : RelationStep reader env s call (s.after reader digest (env, call)) :=
      relation_step htables call
    exact ⟨htables.step hstep, publishedValidated_step htables hs hok hstep⟩
  refine along_of_invariant hkept (fun s call hok hs => ?_) calls {} hok ⟨tablesOK_empty, hempty⟩
  obtain ⟨htables, hvalid⟩ := hkept s call hok hs
  exact agentSeesEligible_of_validated htables hvalid

section

private def wordReader : RelationReader where
  lowercase := fun c => [c.toLower]
  topCustomer := fun _ => false
  productCapture := fun _ => none
  amount := fun _ => none
  percent := fun _ => none
  period := fun _ => none

private def twoSources : RelationEnv where
  now := 100
  entities := [⟨"e1", "listed_security", "AA", some "600001", none, ["AA"]⟩,
    ⟨"e2", "listed_security", "BB", some "600002", none, ["BB"]⟩]
  readDocument := fun source => .ok ⟨"doc", "url", "verified", some ⟨"text", none, none, 50⟩,
    [⟨"seg", none, 0, if source = "a" then "AA供应BB" else "AA采购BB"⟩]⟩

private def reading (source : String) : RelationEnv × RelationCall :=
  (twoSources, .extractSource source .annualReport none none [])

private def drawn (sources : List String) : RelationStore ℚ :=
  run (RelationStore.after wordReader fun _ text => text) {} (sources.map reading)

/-- The last of the candidates is accepted and published. -/
private def accepting (sources : List String) : RelationEnv × RelationCall :=
  (twoSources, .review {
    candidateId := ((drawn sources).candidates.map (·.candidateId)).getLastD ""
    decision := "accepted"
    reviewer := "r"
    reason := "x"
    publish := true })

/-- A candidate of one source is published: it is validated. -/
theorem agent_sees_eligible_one_source : Along (RelationStore.after wordReader fun _ text => text)
    (fun s call => AgentSeesEligible (s.after wordReader (fun _ text => text) call))
    ({} : RelationStore ℚ) [reading "a", accepting ["a"]] := by
  refine agent_sees_eligible wordReader (fun _ text => text) _ ⟨trivial, ?_, trivial⟩
  intro _ row hto _
  obtain ⟨-, c, hc, -, -, hstatus⟩ := hto.row
  have hvalid : ∀ c ∈ (drawn ["a"]).candidates, c.validationStatus = .validated := by decide +kernel
  rw [hstatus]
  exact hvalid c hc

/-- Two sources contradict each other, so the candidate of the second needs a review of its validation.
It is accepted and published all the same, and the agent sees it. -/
theorem unvalidated_seen : ¬ ∀ calls : List (RelationEnv × RelationCall),
    Along (RelationStore.after wordReader fun _ text => text)
      (fun s call => AgentSeesEligible (s.after wordReader (fun _ text => text) call))
      ({} : RelationStore ℚ) calls := by
  intro h
  have hseen := (h [reading "a", reading "b", accepting ["a", "b"]]).2.2.1 "" 10
  -- the state is written out, as `Along` gives it
  have hfound : ∃ c ∈ (((({} : RelationStore ℚ).after wordReader (fun _ text => text) (reading "a")).after
      wordReader (fun _ text => text) (reading "b")).after wordReader (fun _ text => text)
        (accepting ["a", "b"])).agentRelations "" 10, c.eligibleForAgent = false := by
    decide +kernel
  obtain ⟨c, hc, hineligible⟩ := hfound
  rw [hseen c hc] at hineligible
  cases hineligible

end

end Astock
