import Astock.Proof.ClusterSteps

/-!
# Corrections and the conclusions that they reach

A conclusion cites a revision; later a correction becomes a member of a cluster that this revision is in.

* `Reached`: since an earlier state, each such correction has a review row for the conclusion.
* `Prompt`: the condition on one call. Assigning the correction extends the review rows; the other ways
  in which the two can meet do not.
* `corrections_reach_iff`: a call keeps the review rows complete exactly if it meets the condition.
* `corrections_reach`: the same for whole runs.
-/

namespace Astock

open NewsEvents Run

variable {F : Type} {sha : Bytes → String} {reader : TextReader} {s₁ s t : NewsEvents F}

/-- The conclusion of a citation has a review row that the revision triggered. -/
def Reviewed (s : NewsEvents F) (ref : EvidenceRef) (trigger : String) : Prop :=
  ∃ row ∈ s.reviews, row.taskId = ref.taskId ∧ row.conclusionKey = ref.conclusionKey ∧
    row.triggeringRevision = trigger

/-- The revision is not a member of the cluster. -/
def Outside (s : NewsEvents F) (revisionId clusterId : String) : Prop :=
  ∀ m ∈ actives s.members, m.revisionId = revisionId → m.clusterId ≠ clusterId

/-- Each correction that became a member of its cluster after `s₁` is reviewed for the conclusions that
cite another member, and did in `s₁`. -/
def Reached (s₁ s : NewsEvents F) : Prop :=
  ∀ r ∈ actives s.members, r.relationship.corrects = true → Outside s₁ r.revisionId r.clusterId →
    ∀ m ∈ actives s.members, m.clusterId = r.clusterId → m.revisionId ≠ r.revisionId →
      ∀ ref ∈ s₁.evidenceRefs, ref.revisionId = m.revisionId → Reviewed s ref r.revisionId

/-- The corrections that became members of the cluster after `s₁` are reviewed for the conclusions that
cite the revision, and did in `s₁`. -/
def ReviewedIn (s₁ s : NewsEvents F) (clusterId revisionId : String) : Prop :=
  ∀ r ∈ actives s.members, r.clusterId = clusterId → r.revisionId ≠ revisionId →
    r.relationship.corrects = true → Outside s₁ r.revisionId clusterId →
      ∀ ref ∈ s₁.evidenceRefs, ref.revisionId = revisionId → Reviewed s ref r.revisionId

/-- When a call leaves no conclusion behind: the corrections of the cluster that a revision is assigned or
split to are reviewed for the conclusions that cite it, and those of two clusters that are merged for the
conclusions that cite members of either. -/
def Prompt [F64 F] (sha : Bytes → String) (reader : TextReader) (s₁ s : NewsEvents F) : NewsCall F → Prop
  | .assign compare _ id => ∀ revision, s.Assigns id revision →
      ReviewedIn s₁ s (s.assignTarget sha reader compare revision).1 id
  | .merge _ fromId toId reason => s.Merges fromId toId reason →
      ∀ r ∈ actives s.members, (r.clusterId = fromId ∨ r.clusterId = toId) →
        r.relationship.corrects = true → Outside s₁ r.revisionId toId →
          ∀ m ∈ actives s.members, (m.clusterId = fromId ∨ m.clusterId = toId) →
            m.revisionId ≠ r.revisionId → ∀ ref ∈ s₁.evidenceRefs, ref.revisionId = m.revisionId →
              Reviewed s ref r.revisionId
  | .split clock id reason => ∀ old revision, s.Splits id reason old revision →
      ReviewedIn s₁ s (splitTarget sha clock id) id
  | _ => True

/-! ## Review rows -/

theorem exists_insertReview {row : AgentConclusionReview} {reviews : List AgentConclusionReview}
    {p : AgentConclusionReview → Prop}
    (hp : ∀ a b : AgentConclusionReview, a.taskId = b.taskId → a.conclusionKey = b.conclusionKey →
      a.triggeringRevision = b.triggeringRevision → p a → p b) :
    (∃ r ∈ insertReview row reviews, p r) ↔ (∃ r ∈ reviews, p r) ∨ p row := by
  unfold insertReview
  split
  · rename_i hthere
    obtain ⟨old, hold, hkey⟩ := List.any_eq_true.1 hthere
    simp only [Bool.and_eq_true, decide_eq_true_eq] at hkey
    exact ⟨.inl, fun h => h.elim id fun hrow =>
      ⟨old, hold, hp row old hkey.1.1.symm hkey.1.2.symm hkey.2.symm hrow⟩⟩
  · simp only [List.mem_append, List.mem_singleton, or_and_right, exists_or, exists_eq_left]

/-- Rows whose key is there already are not inserted, which loses no key. -/
theorem exists_foldl_insertReview {p : AgentConclusionReview → Prop}
    (hp : ∀ a b : AgentConclusionReview, a.taskId = b.taskId → a.conclusionKey = b.conclusionKey →
      a.triggeringRevision = b.triggeringRevision → p a → p b) (rows : List AgentConclusionReview) :
    ∀ reviews : List AgentConclusionReview,
      (∃ r ∈ rows.foldl (fun reviews row => insertReview row reviews) reviews, p r) ↔
        (∃ r ∈ reviews, p r) ∨ ∃ r ∈ rows, p r := by
  induction rows with
  | nil =>
    intro reviews
    simp
  | cons row rest ih =>
    intro reviews
    rw [List.foldl_cons, ih, exists_insertReview hp, or_assoc, List.exists_mem_cons_iff]

theorem mem_dependentConclusions {clusterId trigger : String} {conclusion : String × String} :
    conclusion ∈ s.dependentConclusions clusterId trigger ↔ ∃ ref ∈ s.evidenceRefs,
      ref.revisionId ≠ trigger ∧ (ref.taskId, ref.conclusionKey) = conclusion ∧
        ∃ m ∈ actives s.members, m.revisionId = ref.revisionId ∧ m.clusterId = clusterId := by
  unfold dependentConclusions actives
  simp only [List.mem_dedup, List.mem_map, List.mem_filter, Bool.and_eq_true, decide_eq_true_eq,
    List.any_eq_true]
  constructor
  · rintro ⟨ref, ⟨href, hne, m, hm, ⟨hid, hactive⟩, hcluster⟩, heq⟩
    exact ⟨ref, href, hne, heq, m, ⟨hm, hactive⟩, hid, hcluster⟩
  · rintro ⟨ref, href, hne, heq, m, ⟨hm, hactive⟩, hid, hcluster⟩
    exact ⟨ref, ⟨href, hne, m, hm, ⟨hid, hactive⟩, hcluster⟩, heq⟩

/-- **Marking** adds the rows that the revision triggers for the dependent conclusions. -/
theorem reviewed_mark {clusterId trigger id : String} {relationship : DocumentRelationship}
    {ref : EvidenceRef} : Reviewed (s.markDependentConclusions clusterId trigger relationship) ref id ↔
      Reviewed s ref id ∨ trigger = id ∧
        (ref.taskId, ref.conclusionKey) ∈ s.dependentConclusions clusterId trigger := by
  unfold Reviewed markDependentConclusions
  simp only
  rw [exists_foldl_insertReview]
  · refine or_congr_right ?_
    simp only [List.mem_map]
    constructor
    · rintro ⟨row, ⟨conclusion, hmem, rfl⟩, htask, hkey, htrigger⟩
      refine ⟨htrigger, ?_⟩
      rw [← htask, ← hkey]
      exact hmem
    · rintro ⟨htrigger, hmem⟩
      exact ⟨_, ⟨_, hmem, rfl⟩, rfl, rfl, htrigger⟩
  · rintro a b htask hkey htrigger ⟨h1, h2, h3⟩
    exact ⟨htask.symm.trans h1, hkey.symm.trans h2, htrigger.symm.trans h3⟩

/-! ## Calls -/

/-- **One revision** becomes a member: what is left to review are the conclusions that cite it, if its
own arrival is marked. -/
theorem reached_one_iff {row : EventClusterMember F}
    (hactive : ∀ m, m ∈ actives t.members ↔ m ∈ actives s.members ∧ m.revisionId ≠ row.revisionId ∨ m = row)
    (hreviewed : ∀ ref id, id ≠ row.revisionId → (Reviewed t ref id ↔ Reviewed s ref id))
    (hmarked : row.relationship.corrects = true → Outside s₁ row.revisionId row.clusterId →
      ∀ m ∈ actives s.members, m.clusterId = row.clusterId → m.revisionId ≠ row.revisionId →
        ∀ ref ∈ s₁.evidenceRefs, ref.revisionId = m.revisionId → Reviewed t ref row.revisionId)
    (hs : Reached s₁ s) : Reached s₁ t ↔ ReviewedIn s₁ s row.clusterId row.revisionId := by
  constructor
  · intro h r hr hcluster hne hcorrects hjoined ref href hcites
    rw [← hreviewed ref r.revisionId hne]
    exact h r ((hactive r).2 (.inl ⟨hr, hne⟩)) hcorrects (hcluster ▸ hjoined) row ((hactive row).2 (.inr rfl))
      hcluster.symm hne.symm ref href hcites
  · intro h r hr hcorrects hjoined m hm hcluster hne ref href hcites
    rcases (hactive r).1 hr with ⟨hr, hrow⟩ | rfl
    · rw [hreviewed ref r.revisionId hrow]
      rcases (hactive m).1 hm with ⟨hm, -⟩ | rfl
      · exact hs r hr hcorrects hjoined m hm hcluster hne ref href hcites
      · exact h r hr hcluster.symm hrow hcorrects (hcluster.symm ▸ hjoined) ref href hcites
    · rcases (hactive m).1 hm with ⟨hm, hnew⟩ | rfl
      · exact hmarked hcorrects hjoined m hm hcluster hnew ref href hcites
      · exact absurd rfl hne

theorem mem_actives_single {target : String} {row : EventClusterMember F} (h : Relocated s t target [row])
    (m : EventClusterMember F) :
    m ∈ actives t.members ↔ m ∈ actives s.members ∧ m.revisionId ≠ row.revisionId ∨ m = row := by
  rw [mem_actives_relocated h, List.mem_singleton]
  refine or_congr_left (and_congr_right fun _ => not_congr ?_)
  exact List.mem_singleton

theorem reviewed_congr (h : t.reviews = s.reviews) {ref : EvidenceRef} {id : String} :
    Reviewed t ref id ↔ Reviewed s ref id := by
  unfold Reviewed
  rw [h]

/-- Nothing became a member after a state itself. -/
theorem reached_refl (s : NewsEvents F) : Reached s s :=
  fun r hr _ hjoined => absurd rfl (hjoined r hr rfl)

section

variable [F64 F]

/-- The review rows after an assignment. -/
theorem reviewed_assigning (hs : ClustersOK s) {compare : Comparison F} {now : ℤ} {id : String}
    {revision : ArchivedNewsRevision} (h : s.Assigns id revision) {ref : EvidenceRef} {trigger : String} :
    Reviewed (s.assigning sha reader compare now revision) ref trigger ↔ Reviewed s ref trigger ∨
      (s.assignTarget sha reader compare revision).2.1.corrects = true ∧
        revision.revision.revisionId = trigger ∧ ∃ cited ∈ s.evidenceRefs,
          cited.revisionId ≠ trigger ∧ cited.taskId = ref.taskId ∧ cited.conclusionKey = ref.conclusionKey ∧
            ∃ m ∈ actives (s.joining sha reader compare now revision).members,
              m.revisionId = cited.revisionId ∧
                m.clusterId = (s.assignTarget sha reader compare revision).1 := by
  have hrel := @joining_relocated _ sha reader _ _ hs compare now _ _ h
  have hbefore : ∀ trigger, Reviewed ((s.joining sha reader compare now revision).refreshed reader
      (s.assignTarget sha reader compare revision).1) ref trigger ↔ Reviewed s ref trigger := fun _ =>
    reviewed_congr ((refreshed_reviews _).trans hrel.reviews)
  unfold NewsEvents.assigning
  simp only
  cases hcorrects : (s.assignTarget sha reader compare revision).2.1.corrects with
  | false =>
    rw [if_neg Bool.false_ne_true, hbefore]
    exact ⟨.inl, fun hboth => hboth.resolve_right fun hnew => Bool.false_ne_true hnew.1⟩
  | true =>
    rw [if_pos rfl, reviewed_mark, hbefore]
    refine or_congr_right ?_
    rw [mem_dependentConclusions, refreshed_evidenceRefs, refreshed_members, hrel.evidenceRefs]
    constructor
    · rintro ⟨rfl, cited, hcited, hne, heq, hmember⟩
      exact ⟨rfl, rfl, cited, hcited, hne, congrArg Prod.fst heq, congrArg Prod.snd heq, hmember⟩
    · rintro ⟨-, rfl, cited, hcited, hne, htask, hkey, hmember⟩
      exact ⟨rfl, cited, hcited, hne, Prod.ext htask hkey, hmember⟩

/-- **An assignment** marks the conclusions that cite the other members, if it is that of a correction. -/
theorem assigning_reached_iff (hs : ClustersOK s) (hrefs : s₁.evidenceRefs ⊆ s.evidenceRefs)
    (hreached : Reached s₁ s) {compare : Comparison F} {now : ℤ} {id : String}
    {revision : ArchivedNewsRevision} (h : s.Assigns id revision) :
    Reached s₁ (s.assigning sha reader compare now revision) ↔
      ReviewedIn s₁ s (s.assignTarget sha reader compare revision).1 id := by
  have hrel := @joining_relocated _ sha reader _ _ hs compare now _ _ h
  obtain ⟨reviews, heq⟩ := @assigning_eq _ sha reader s _ compare now revision
  have hmembers : (s.assigning sha reader compare now revision).members =
      (s.joining sha reader compare now revision).members := by
    rw [heq]
    exact refreshed_members _
  have hactive := mem_actives_single hrel
  rw [← hmembers] at hactive
  rw [← h.revisionId]
  refine reached_one_iff hactive (fun ref trigger hne => ?_) ?_ hreached
  · rw [reviewed_assigning hs h]
    exact ⟨fun hboth => hboth.resolve_right fun hnew => hne hnew.2.1.symm, .inl⟩
  · intro hcorrects _ m hm hcluster hne ref href hcites
    rw [reviewed_assigning hs h]
    have hmember : m ∈ actives (s.joining sha reader compare now revision).members := by
      rw [← hmembers]
      exact (hactive m).2 (.inl ⟨hm, hne⟩)
    refine .inr ⟨hcorrects, rfl, ref, hrefs href, ?_, rfl, rfl, m, hmember, hcites.symm, hcluster⟩
    rw [hcites]
    exact hne

/-- **A split** marks nothing. -/
theorem splitting_reached_iff (hs : ClustersOK s) (hreached : Reached s₁ s) {clock : ℕ → ℤ}
    {id reason : String} {old : EventClusterMember F} {revision : CitedRevision}
    (h : s.Splits id reason old revision) :
    Reached s₁ (((s.splitting sha clock id revision).refreshed reader old.clusterId).refreshed reader
        (splitTarget sha clock id)) ↔ ReviewedIn s₁ s (splitTarget sha clock id) id := by
  have hrel := @splitting_relocated _ sha _ _ hs clock _ _ _ _ h
  refine @reached_one_iff _ _ _ _ (splitRow sha clock id) (fun m => ?_) (fun ref trigger _ => ?_) nofun hreached
  · rw [refreshed_members, refreshed_members]
    exact mem_actives_single hrel m
  · exact reviewed_congr ((refreshed_reviews _).trans ((refreshed_reviews _).trans hrel.reviews))

/-- The members of the target of a merge were members of either cluster. -/
theorem mem_merged (hs : ClustersOK s) {clock : ℕ → ℤ} {fromId toId reason : String}
    (h : s.Merges fromId toId reason) {m : EventClusterMember F}
    (hm : m ∈ actives (s.merging clock fromId toId).members) :
    m.clusterId ≠ toId ∧ m ∈ actives s.members ∨ m.clusterId = toId ∧
      ∃ m₀ ∈ actives s.members, (m₀.clusterId = fromId ∨ m₀.clusterId = toId) ∧
        m.revisionId = m₀.revisionId ∧ m.relationship = m₀.relationship := by
  have hrel := @merging_relocated _ _ _ hs clock _ _ _ h
  rcases (mem_actives_relocated hrel).1 hm with ⟨hold, -⟩ | hnew
  · by_cases hid : m.clusterId = toId
    · exact .inr ⟨hid, m, hold, .inr hid, rfl, rfl⟩
    · exact .inl ⟨hid, hold⟩
  · obtain ⟨hcluster, -, m₀, hm₀, hrevision, hrelationship⟩ := mem_mergedRows hnew
    obtain ⟨hold, hfrom⟩ := mem_membersOf.1 hm₀
    exact .inr ⟨hcluster, m₀, hold, .inl hfrom, hrevision, hrelationship⟩

/-- The members of either cluster are members of the target after a merge. -/
theorem exists_merged (hs : ClustersOK s) {clock : ℕ → ℤ} {fromId toId reason : String}
    (h : s.Merges fromId toId reason) {m₀ : EventClusterMember F} (hm₀ : m₀ ∈ actives s.members)
    (hcluster : m₀.clusterId = fromId ∨ m₀.clusterId = toId) :
    ∃ m ∈ actives (s.merging clock fromId toId).members, m.clusterId = toId ∧
      m.revisionId = m₀.revisionId ∧ m.relationship = m₀.relationship := by
  have hrel := @merging_relocated _ _ _ hs clock _ _ _ h
  rcases hcluster with hfrom | hto
  · obtain ⟨n, hn⟩ := List.getElem?_of_mem (mem_membersOf.2 ⟨hm₀, hfrom⟩)
    have hrow : m₀.movedTo toId (clock n) ∈ s.mergedRows clock fromId toId :=
      List.mem_map.2 ⟨(m₀, n), List.mem_zipIdx_iff_getElem?.2 hn, rfl⟩
    exact ⟨_, (mem_actives_relocated hrel).2 (.inr hrow), rfl, rfl, rfl⟩
  · refine ⟨m₀, (mem_actives_relocated hrel).2 (.inl ⟨hm₀, fun hmoved => ?_⟩), hto, rfl, rfl⟩
    rw [revisionIds_mergedRows] at hmoved
    obtain ⟨m', hm', heq⟩ := List.mem_map.1 hmoved
    obtain ⟨hactive, hfrom⟩ := mem_membersOf.1 hm'
    rw [active_unique hs hactive hm₀ heq] at hfrom
    exact h.1 (hfrom.symm.trans hto)

/-- **A merge** marks nothing. -/
theorem merging_reached_iff (hs : ClustersOK s) (hreached : Reached s₁ s) {clock : ℕ → ℤ}
    {fromId toId reason : String} (h : s.Merges fromId toId reason) :
    Reached s₁ ((s.merging clock fromId toId).refreshed reader toId) ↔
      ∀ r ∈ actives s.members, (r.clusterId = fromId ∨ r.clusterId = toId) →
        r.relationship.corrects = true → Outside s₁ r.revisionId toId →
          ∀ m ∈ actives s.members, (m.clusterId = fromId ∨ m.clusterId = toId) →
            m.revisionId ≠ r.revisionId → ∀ ref ∈ s₁.evidenceRefs, ref.revisionId = m.revisionId →
              Reviewed s ref r.revisionId := by
  have hreviewed : ∀ ref trigger, Reviewed ((s.merging clock fromId toId).refreshed reader toId) ref trigger ↔
      Reviewed s ref trigger := fun _ _ => reviewed_congr (refreshed_reviews _)
  unfold Reached
  simp only [refreshed_members, hreviewed]
  constructor
  · intro hall r hr hrcluster hcorrects hjoined m hm hmcluster hne ref href hcites
    obtain ⟨r', hr', hr'cluster, hrid, hrrel⟩ := @exists_merged _ _ _ hs clock _ _ _ h _ hr hrcluster
    obtain ⟨m', hm', hm'cluster, hmid, -⟩ := @exists_merged _ _ _ hs clock _ _ _ h _ hm hmcluster
    rw [← hrid]
    refine hall r' hr' (hrrel ▸ hcorrects) ?_ m' hm' (hm'cluster.trans hr'cluster.symm) ?_ ref href
      (hcites.trans hmid.symm)
    · rw [hrid, hr'cluster]
      exact hjoined
    · rw [hrid, hmid]
      exact hne
  · intro hall r hr hcorrects hjoined m hm hcluster hne ref href hcites
    rcases mem_merged hs h hr with ⟨hrother, hrold⟩ | ⟨hrto, r₀, hr₀, hr₀cluster, hrid, hrrel⟩
    · rcases mem_merged hs h hm with ⟨-, hmold⟩ | ⟨hmto, -⟩
      · exact hreached r hrold hcorrects hjoined m hmold hcluster hne ref href hcites
      · exact absurd (hcluster.symm.trans hmto) hrother
    · rcases mem_merged hs h hm with ⟨hmother, -⟩ | ⟨-, m₀, hm₀, hm₀cluster, hmid, -⟩
      · exact absurd (hcluster.trans hrto) hmother
      · rw [hrid, hrto] at hjoined
        rw [hrid, hmid] at hne
        rw [hrid]
        exact hall r₀ hr₀ hr₀cluster (hrrel ▸ hcorrects) hjoined m₀ hm₀ hm₀cluster hne ref href
          (hcites.trans hmid)

/-- Citations stay. -/
theorem evidenceRefs_step (hs : ClustersOK s) (call : NewsCall F) :
    s.evidenceRefs ⊆ (s.after sha reader call).evidenceRefs := by
  have hstep : ClusterStep sha reader s call (s.after sha reader call) := cluster_step hs call
  generalize s.after sha reader call = t at hstep ⊢
  cases hstep with
  | archived _ => exact List.Subset.refl _
  | cited refs h => exact h
  | assignRefused _ => exact List.Subset.refl _
  | @assigned compare now id revision h =>
    obtain ⟨reviews, heq⟩ := @assigning_eq _ sha reader s _ compare now revision
    rw [heq]
    show s.evidenceRefs ⊆ (NewsEvents.refreshed _ _ _).evidenceRefs
    rw [refreshed_evidenceRefs, (joining_relocated hs h).evidenceRefs]
    exact List.Subset.refl _
  | mergeRefused _ => exact List.Subset.refl _
  | merged h =>
    rw [refreshed_evidenceRefs]
    exact List.Subset.refl _
  | splitRefused _ => exact List.Subset.refl _
  | split h =>
    rw [refreshed_evidenceRefs, refreshed_evidenceRefs, (splitting_relocated hs h).evidenceRefs]
    exact List.Subset.refl _

/-- **One call** leaves no conclusion behind exactly if it meets the condition. -/
theorem corrections_reach_iff (hs : ClustersOK s) (hrefs : s₁.evidenceRefs ⊆ s.evidenceRefs)
    (hreached : Reached s₁ s) (call : NewsCall F) :
    Reached s₁ (s.after sha reader call) ↔ Prompt sha reader s₁ s call := by
  have hstep : ClusterStep sha reader s call (s.after sha reader call) := cluster_step hs call
  generalize s.after sha reader call = t at hstep ⊢
  cases hstep with
  | archived _ => exact iff_of_true hreached trivial
  | cited _ _ => exact iff_of_true hreached trivial
  | assignRefused h => exact iff_of_true hreached fun revision hassigns => absurd hassigns (h revision)
  | @assigned compare now id revision h =>
    rw [assigning_reached_iff hs hrefs hreached h]
    constructor
    · intro hreviewed revision' h'
      have heq := h.2.symm.trans h'.2
      cases heq
      exact hreviewed
    · intro hcond
      exact hcond revision h
  | mergeRefused h => exact iff_of_true hreached fun hmerges => absurd hmerges h
  | merged h =>
    rw [merging_reached_iff hs hreached h]
    exact ⟨fun hcond _ => hcond, fun hcond => hcond h⟩
  | splitRefused h => exact iff_of_true hreached fun old revision hsplits => absurd hsplits (h old revision)
  | split h =>
    rw [splitting_reached_iff hs hreached h]
    exact ⟨fun hcond _ _ _ => hcond, fun hcond => hcond _ _ h⟩

/-- **Corrections reach the conclusions** that cite another member since before: after any start of a
run, in all that follows, exactly if each later call meets the condition. -/
theorem corrections_reach (sha : Bytes → String) (reader : TextReader) (start later : List (NewsCall F)) :
    Along (NewsEvents.after sha reader)
        (fun s call => Reached (run (NewsEvents.after sha reader) {} start) (s.after sha reader call))
        (run (NewsEvents.after sha reader) {} start) later ↔
      Along (NewsEvents.after sha reader)
        (Prompt sha reader (run (NewsEvents.after sha reader) {} start))
        (run (NewsEvents.after sha reader) {} start) later := by
  have hok : ClustersOK (run (NewsEvents.after sha reader) ({} : NewsEvents F) start) :=
    run_invariant (fun s call (hs : ClustersOK s) => hs.step (cluster_step hs call)) start {} clustersOK_empty
  generalize run (NewsEvents.after sha reader) ({} : NewsEvents F) start = s₁ at hok ⊢
  refine along_iff (fun s call hkept (hs : ClustersOK s ∧ s₁.evidenceRefs ⊆ s.evidenceRefs ∧ Reached s₁ s) => ?_)
    (fun s call hs => corrections_reach_iff hs.1 hs.2.1 hs.2.2 call) later s₁
    ⟨hok, List.Subset.refl _, reached_refl s₁⟩
  exact ⟨hs.1.step (cluster_step hs.1 call), List.Subset.trans hs.2.1 (evidenceRefs_step hs.1 call), hkept⟩

end

section

/-- A stand-in for the digest that is short. -/
private def checksum (b : Bytes) : String :=
  toString (b.foldl (fun n x => (31 * n + x.toNat) % 65521) 7)

private def markedText : TextReader where
  alphanumeric := fun _ => true
  factCaptures := fun _ => []

/-- A revision matches what is titled `A`. -/
private def likeA : Comparison ℚ := fun _ other => ⟨decide (other.revision.title = "A"), .followUp, 1⟩

private def unlike : Comparison ℚ := fun _ _ => ⟨false, .followUp, 0⟩

private def noticeOf (title : String) : UpsertCall := announcement title "x" none 100

private def idOf (title : String) : String := (noticeOf title).input.revisionId checksum

/-- A report and its correction are in one cluster, and a revision that a conclusion cites in another. -/
private def citedApart : List (NewsCall ℚ) :=
  [.archive (noticeOf "A"), .archive (noticeOf "更正"), .archive (noticeOf "M"), .assign unlike 101 (idOf "A"),
    .assign likeA 102 (idOf "更正"), .assign unlike 103 (idOf "M"), .cite "task" "key" (idOf "M")]

private def mergeOfA : NewsCall ℚ :=
  .merge (fun _ => 104) (clusterIdFor checksum (idOf "A")) (clusterIdFor checksum (idOf "M")) "r"

private def citedStore : NewsEvents ℚ := run (NewsEvents.after checksum markedText) {} citedApart

private def mergedStore : NewsEvents ℚ := citedStore.after checksum markedText mergeOfA

/-- The clusters are merged, and the conclusion has no review. -/
theorem merged_correction_unreached : ¬ ∀ start later : List (NewsCall ℚ),
    Along (NewsEvents.after checksum markedText)
      (fun s call => Reached (run (NewsEvents.after checksum markedText) {} start)
        (s.after checksum markedText call))
      (run (NewsEvents.after checksum markedText) {} start) later := by
  intro h
  have hreached : Reached citedStore mergedStore := (h citedApart [mergeOfA]).1
  have hfound : ∃ r ∈ actives mergedStore.members, r.relationship.corrects = true ∧
      (∀ x ∈ actives citedStore.members, x.revisionId = r.revisionId → x.clusterId ≠ r.clusterId) ∧
      ∃ m ∈ actives mergedStore.members, m.clusterId = r.clusterId ∧ m.revisionId ≠ r.revisionId ∧
        ∃ ref ∈ citedStore.evidenceRefs, ref.revisionId = m.revisionId ∧ mergedStore.reviews.length = 0 := by
    decide +kernel
  obtain ⟨r, hr, hcorrects, hjoined, m, hm, hcluster, hne, ref, href, hcites, hnone⟩ := hfound
  obtain ⟨row, hrow, -⟩ := hreached r hr hcorrects hjoined m hm hcluster hne ref href hcites
  rw [List.eq_nil_of_length_eq_zero hnone] at hrow
  cases hrow

end

end Astock
