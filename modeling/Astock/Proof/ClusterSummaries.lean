import Astock.Proof.ClusterSteps

/-!
# What is stored of a cluster

* `ClusterKept`: the row of a cluster and its conflict rows are what its active members give.
* `kept_refreshed_iff`: what a refresh makes of them.
* `clusters_consistent_iff`: a call keeps all clusters consistent exactly if it takes no cluster up again
  that was given up, and empties none with conflict rows.
* `clusters_consistent`: the same for whole runs.
-/

namespace Astock

open NewsEvents Run

variable {F : Type} {sha : Bytes → String} {reader : TextReader} {s t : NewsEvents F}

/-- No conflict row of the cluster is open. -/
def NoOpenConflict (s : NewsEvents F) (clusterId : String) : Prop :=
  ∀ row ∈ s.conflictsOf clusterId, row.status ≠ "open"

/-- What a refresh of the cluster needs to leave it kept. -/
structure Refreshable (s : NewsEvents F) (c : EventCluster F) : Prop where
  emptied : s.membersOf c.clusterId = [] → NoOpenConflict s c.clusterId
  active : s.membersOf c.clusterId ≠ [] → c.status = .active

/-- **One membership.** -/
theorem active_once (hs : ClustersOK s) : ∀ m ∈ s.members,
    (s.members.filter fun x => x.revisionId = m.revisionId && x.active).length = 1 := by
  intro m hm
  have hcount : ((revisionIds (actives s.members)).filter fun id => id = m.revisionId).length = 1 := by
    have hcount := List.count_eq_one_of_mem hs.single (hs.assigned m hm)
    rw [List.count_eq_length_filter] at hcount
    rw [← hcount]
    congr 2
  unfold revisionIds actives at hcount
  rw [List.filter_map, List.length_map, List.filter_filter] at hcount
  exact hcount

theorem conflictsOf_relocated {target : String} {rows : List (EventClusterMember F)}
    (h : Relocated s t target rows) (clusterId : String) : t.conflictsOf clusterId = s.conflictsOf clusterId := by
  unfold conflictsOf
  rw [h.conflicts]

/-- The cluster that revisions enter can be refreshed exactly if it is active. -/
theorem refreshable_target {target : String} {rows : List (EventClusterMember F)} (h : Relocated s t target rows)
    (hrows : rows ≠ []) {c : EventCluster F} (hid : c.clusterId = target) :
    Refreshable t c ↔ c.status = .active := by
  obtain ⟨m, hm⟩ := List.exists_mem_of_ne_nil rows hrows
  have hmem : m ∈ t.membersOf c.clusterId :=
    mem_membersOf.2 ⟨(mem_actives_relocated h).2 (.inr hm), (h.placed m hm).1.trans hid.symm⟩
  have hne := List.ne_nil_of_mem hmem
  exact ⟨fun hr => hr.active hne, fun hactive => ⟨fun hnil => absurd hnil hne, fun _ => hactive⟩⟩

section

variable [F64 F]

/-- A cluster without active members is given up; of one with active members, the row has what is
computed from them. -/
structure ClusterKept (reader : TextReader) (s : NewsEvents F) (c : EventCluster F) : Prop where
  emptied : s.membersOf c.clusterId = [] →
    (c.status = .empty ∨ c.status = .merged) ∧ NoOpenConflict s c.clusterId
  computed : s.membersOf c.clusterId ≠ [] → c.status = .active ∧
    s.computed reader c.clusterId = some (c.summary, s.conflictsOf c.clusterId)

/-- Each revision that was assigned has one active row, and every cluster is kept. -/
structure ClustersConsistent (reader : TextReader) (s : NewsEvents F) : Prop where
  once : ∀ m ∈ s.members, (s.members.filter fun x => x.revisionId = m.revisionId && x.active).length = 1
  kept : ∀ c ∈ s.clusters, ClusterKept reader s c

/-- When a call keeps the clusters consistent: the target of an assignment or a split is not stored as
given up; a merge of members leaves no open conflict behind, and its target is active; a split that takes
the last member of a cluster leaves no open conflict behind. -/
def KeepsClusters (sha : Bytes → String) (reader : TextReader) (s : NewsEvents F) : NewsCall F → Prop
  | .assign compare _ id => ∀ revision, s.Assigns id revision → ∀ c ∈ s.clusters,
      c.clusterId = (s.assignTarget sha reader compare revision).1 → c.status = .active
  | .merge _ fromId toId reason => s.Merges fromId toId reason → s.membersOf fromId ≠ [] →
      NoOpenConflict s fromId ∧ ∀ c ∈ s.clusters, c.clusterId = toId → c.status = .active
  | .split clock id reason => ∀ old revision, s.Splits id reason old revision →
      (∀ c ∈ s.clusters, c.clusterId = splitTarget sha clock id → c.status = .active) ∧
        (splitTarget sha clock id ≠ old.clusterId →
          (∀ m ∈ s.membersOf old.clusterId, m.revisionId = id) → NoOpenConflict s old.clusterId)
  | _ => True

/-! ## Refreshing -/

/-- A cluster is kept with the members, the archive and the conflict rows of it. -/
theorem clusterKept_congr {c : EventCluster F} (hmembers : t.membersOf c.clusterId = s.membersOf c.clusterId)
    (hcited : ∀ m ∈ s.membersOf c.clusterId, t.cited m.revisionId = s.cited m.revisionId)
    (hconflicts : t.conflictsOf c.clusterId = s.conflictsOf c.clusterId) :
    ClusterKept reader t c ↔ ClusterKept reader s c := by
  have hcomputed : t.computed reader c.clusterId = s.computed reader c.clusterId := by
    unfold NewsEvents.computed
    rw [hmembers, List.filterMap_congr hcited]
  have hopen : NoOpenConflict t c.clusterId ↔ NoOpenConflict s c.clusterId := by
    unfold NoOpenConflict
    rw [hconflicts]
  constructor
  · rintro ⟨hempty, hactive⟩
    rw [hmembers, hopen] at hempty
    rw [hmembers, hcomputed, hconflicts] at hactive
    exact ⟨hempty, hactive⟩
  · rintro ⟨hempty, hactive⟩
    rw [← hmembers, ← hopen] at hempty
    rw [← hmembers, ← hcomputed, ← hconflicts] at hactive
    exact ⟨hempty, hactive⟩

theorem computed_rows {clusterId : String} {result : ClusterSummary F × List EventFactConflict}
    (h : s.computed reader clusterId = some result) : ∀ row ∈ result.2, row.clusterId = clusterId := by
  have hdetected : ∀ revisions : List CitedRevision, ∀ row ∈ detectConflicts reader clusterId revisions,
      row.clusterId = clusterId := by
    intro revisions row hrow
    unfold detectConflicts at hrow
    simp only at hrow
    split at hrow
    · rcases List.mem_append.1 hrow with hrow | hrow
      · obtain ⟨field, -, rfl⟩ := List.mem_map.1 hrow
        rfl
      · rw [List.mem_singleton.1 hrow]
        rfl
    · obtain ⟨field, -, rfl⟩ := List.mem_map.1 hrow
      rfl
  unfold NewsEvents.computed at h
  simp only at h
  split at h
  · cases h
  · cases h
    exact hdetected _

theorem conflictsOf_refreshed_other {clusterId other : String} (hne : other ≠ clusterId) :
    (s.refreshed reader clusterId).conflictsOf other = s.conflictsOf other := by
  unfold NewsEvents.refreshed conflictsOf
  cases hcomputed : s.computed reader clusterId with
  | none => rfl
  | some result =>
    show (_ ++ result.2).filter _ = _
    rw [List.filter_append, List.filter_filter]
    have hnew : (result.2.filter fun row => row.clusterId = other) = [] := by
      refine List.filter_eq_nil_iff.2 fun row hrow => ?_
      rw [decide_eq_true_eq, computed_rows hcomputed row hrow]
      exact hne.symm
    rw [hnew, List.append_nil]
    refine List.filter_congr fun row _ => ?_
    by_cases hid : row.clusterId = other
    · simp [hid, hne]
    · simp [hid]

theorem conflictsOf_refreshed_self {clusterId : String} {result : ClusterSummary F × List EventFactConflict}
    (h : s.computed reader clusterId = some result) :
    (s.refreshed reader clusterId).conflictsOf clusterId = result.2 := by
  unfold NewsEvents.refreshed conflictsOf
  rw [h]
  show (_ ++ result.2).filter _ = _
  rw [List.filter_append, List.filter_filter]
  have hold : (s.conflicts.filter fun row => decide (row.clusterId = clusterId) && decide (row.clusterId ≠ clusterId)) =
      [] := List.filter_eq_nil_iff.2 fun row _ => by simp
  rw [hold, List.nil_append]
  exact List.filter_eq_self.2 fun row hrow => decide_eq_true (computed_rows h row hrow)

theorem membersOf_refreshed (clusterId other : String) :
    (s.refreshed reader clusterId).membersOf other = s.membersOf other :=
  membersOf_congr (by rw [refreshed_members])

theorem cited_refreshed (clusterId id : String) : (s.refreshed reader clusterId).cited id = s.cited id := by
  unfold cited
  rw [refreshed_archive]

/-- A refresh rewrites the row of its cluster, which is then kept if it can be. -/
theorem refreshed_row (hs : ClustersOK s) (clusterId : String) : ∃ f : EventCluster F → EventCluster F,
    (s.refreshed reader clusterId).clusters = Table.update (·.clusterId) clusterId f s.clusters ∧
      (∀ c, (f c).clusterId = c.clusterId) ∧
      ∀ c, c.clusterId = clusterId → (ClusterKept reader (s.refreshed reader clusterId) (f c) ↔ Refreshable s c) := by
  have hcomputed' : (s.refreshed reader clusterId).computed reader clusterId = s.computed reader clusterId := by
    unfold NewsEvents.computed
    rw [membersOf_refreshed, List.filterMap_congr fun m _ => cited_refreshed _ _]
  cases hcomputed : s.computed reader clusterId with
  | none =>
    have hnil := (computed_eq_none hs).1 hcomputed
    refine ⟨fun c => { c with status := .empty }, ?_, fun _ => rfl, ?_⟩
    · unfold NewsEvents.refreshed
      rw [hcomputed]
    · rintro c rfl
      have hconflicts : (s.refreshed reader c.clusterId).conflictsOf c.clusterId = s.conflictsOf c.clusterId := by
        unfold NewsEvents.refreshed
        rw [hcomputed]
        rfl
      have hopen : NoOpenConflict (s.refreshed reader c.clusterId) c.clusterId ↔ NoOpenConflict s c.clusterId := by
        unfold NoOpenConflict
        rw [hconflicts]
      have hnil' := (@membersOf_refreshed _ reader s _ c.clusterId c.clusterId).trans hnil
      constructor
      · intro h
        exact ⟨fun _ => hopen.1 (h.emptied hnil').2, fun hne => absurd hnil hne⟩
      · intro h
        exact ⟨fun _ => ⟨.inl rfl, hopen.2 (h.emptied hnil)⟩, fun hne => absurd hnil' hne⟩
  | some result =>
    have hne : s.membersOf clusterId ≠ [] := by
      intro hnil
      rw [(computed_eq_none hs).2 hnil] at hcomputed
      cases hcomputed
    have hne' : (s.refreshed reader clusterId).membersOf clusterId ≠ [] := by
      rw [membersOf_refreshed]
      exact hne
    refine ⟨fun c => { c with summary := result.1 }, ?_, fun _ => rfl, ?_⟩
    · unfold NewsEvents.refreshed
      rw [hcomputed]
    · rintro c rfl
      have hrows := conflictsOf_refreshed_self hcomputed
      constructor
      · intro h
        exact ⟨fun hnil => absurd hnil hne, fun _ => (h.computed hne').1⟩
      · intro h
        refine ⟨fun hnil => absurd hnil hne', fun _ => ⟨h.active hne, ?_⟩⟩
        show (s.refreshed reader c.clusterId).computed reader c.clusterId = some (result.1,
          (s.refreshed reader c.clusterId).conflictsOf c.clusterId)
        rw [hcomputed', hcomputed, hrows]

/-- **A refresh** leaves the other clusters as they were kept, and its own kept if it can be. -/
theorem kept_refreshed_iff (hs : ClustersOK s) (clusterId : String) (P : String → Prop) :
    (∀ c ∈ (s.refreshed reader clusterId).clusters, P c.clusterId →
        ClusterKept reader (s.refreshed reader clusterId) c) ↔
      ∀ c ∈ s.clusters, P c.clusterId →
        (c.clusterId = clusterId → Refreshable s c) ∧ (c.clusterId ≠ clusterId → ClusterKept reader s c) := by
  have hother : ∀ c : EventCluster F, c.clusterId ≠ clusterId →
      (ClusterKept reader (s.refreshed reader clusterId) c ↔ ClusterKept reader s c) := fun c hne =>
    clusterKept_congr (membersOf_refreshed _ _) (fun _ _ => cited_refreshed _ _) (conflictsOf_refreshed_other hne)
  obtain ⟨f, hclusters, hkey, hself⟩ := @refreshed_row _ reader _ _ hs clusterId
  rw [hclusters]
  unfold Table.update
  rw [List.forall_mem_map]
  refine forall₂_congr fun c _ => ?_
  by_cases hid : c.clusterId = clusterId
  · rw [if_pos hid, hkey, hself c hid]
    exact imp_congr_right fun _ => ⟨fun h => ⟨fun _ => h, fun hne => absurd hid hne⟩, fun h => h.1 hid⟩
  · rw [if_neg hid, hother c hid]
    exact imp_congr_right fun _ => ⟨fun h => ⟨fun heq => absurd heq hid, fun _ => h⟩, fun h => h.2 hid⟩

/-! ## Calls -/

/-- A cluster that no revision enters or leaves is kept as it was. -/
theorem kept_relocated {target : String} {rows : List (EventClusterMember F)} (h : Relocated s t target rows)
    {c : EventCluster F} (htarget : c.clusterId ≠ target)
    (hother : ∀ m ∈ actives s.members, m.clusterId = c.clusterId → m.revisionId ∉ revisionIds rows) :
    ClusterKept reader t c ↔ ClusterKept reader s c :=
  clusterKept_congr (membersOf_congr (activeRows_relocated h htarget hother)) (fun _ _ => h.cited _)
    (conflictsOf_relocated h _)

/-- What holds of an active cluster with the id holds of all stored clusters if it did. -/
theorem created_forall {clusterId : String} {revision : CitedRevision} {Q : EventCluster F → Prop}
    (hnew : ∀ c : EventCluster F, c.clusterId = clusterId → c.status = .active → Q c) :
    (∀ c ∈ (s.createCluster clusterId revision).clusters, Q c) ↔ ∀ c ∈ s.clusters, Q c := by
  rcases createCluster_cases clusterId revision s with ⟨-, h⟩ | ⟨-, c, hid, hactive, h⟩
  · rw [h]
  · rw [h]
    show (∀ d ∈ s.clusters ++ [c], Q d) ↔ _
    rw [List.forall_mem_append]
    refine and_iff_left ?_
    intro d hd
    rw [List.mem_singleton.1 hd]
    exact hnew c hid hactive

/-- **An assignment** keeps the clusters exactly if its target is not given up. -/
theorem assigning_kept_iff (hs : ClustersOK s) (hkept : ∀ c ∈ s.clusters, ClusterKept reader s c)
    {compare : Comparison F} {now : ℤ} {id : String} {revision : ArchivedNewsRevision}
    (h : s.Assigns id revision) :
    (∀ c ∈ (s.assigning sha reader compare now revision).clusters,
        ClusterKept reader (s.assigning sha reader compare now revision) c) ↔
      ∀ c ∈ s.clusters, c.clusterId = (s.assignTarget sha reader compare revision).1 → c.status = .active := by
  have hrel := @joining_relocated _ sha reader _ _ hs compare now _ _ h
  obtain ⟨reviews, heq⟩ := @assigning_eq _ sha reader s _ compare now revision
  have hreviews : ∀ c, ClusterKept reader (s.assigning sha reader compare now revision) c ↔
      ClusterKept reader ((s.joining sha reader compare now revision).refreshed reader
        (s.assignTarget sha reader compare revision).1) c := by
    intro c
    rw [heq]
    exact clusterKept_congr rfl (fun _ _ => rfl) rfl
  have hclusters : (s.assigning sha reader compare now revision).clusters =
      ((s.joining sha reader compare now revision).refreshed reader
        (s.assignTarget sha reader compare revision).1).clusters := by
    rw [heq]
  have hfresh : ∀ m ∈ actives s.members,
      m.revisionId ∉ revisionIds [s.joiningRow sha reader compare now revision] := by
    intro m hm hmem
    have hid : m.revisionId = revision.revision.revisionId := List.mem_singleton.1 hmem
    exact memberForRevision_none h.1 (h.revisionId ▸ hid ▸ List.mem_map_of_mem hm)
  have hrefresh := @kept_refreshed_iff _ reader _ _ (hs.relocated hrel)
    (s.assignTarget sha reader compare revision).1 fun _ => True
  simp only [forall_const] at hrefresh
  rw [hclusters, forall₂_congr fun c _ => hreviews c, hrefresh]
  show (∀ c ∈ (s.createCluster _ _).clusters, _) ↔ _
  rw [created_forall]
  · refine forall₂_congr fun c hc => ?_
    by_cases hid : c.clusterId = (s.assignTarget sha reader compare revision).1
    · rw [refreshable_target hrel (List.cons_ne_nil _ _) hid]
      exact ⟨fun hboth => hboth.1, fun hactive => ⟨hactive, fun hne => absurd hid hne⟩⟩
    · refine iff_of_true ⟨fun heq => absurd heq hid, fun _ => ?_⟩ fun heq => absurd heq hid
      exact (kept_relocated hrel hid fun m hm _ => hfresh m hm).2 (hkept c hc)
  · intro c hid hactive
    exact ⟨fun _ => (refreshable_target hrel (List.cons_ne_nil _ _) hid).2 hactive, fun hne => absurd hid hne⟩

/-- **A merge** keeps the clusters exactly if it moves nothing, or leaves no open conflict behind and
its target is active. -/
theorem merging_kept_iff (hs : ClustersOK s) (hkept : ∀ c ∈ s.clusters, ClusterKept reader s c)
    {clock : ℕ → ℤ} {fromId toId reason : String} (h : s.Merges fromId toId reason) :
    (∀ c ∈ ((s.merging clock fromId toId).refreshed reader toId).clusters,
        ClusterKept reader ((s.merging clock fromId toId).refreshed reader toId) c) ↔
      (s.membersOf fromId ≠ [] →
        NoOpenConflict s fromId ∧ ∀ c ∈ s.clusters, c.clusterId = toId → c.status = .active) := by
  have hrel := @merging_relocated _ _ _ hs clock _ _ _ h
  obtain ⟨hne, -, hfrom, -⟩ := h
  have hempty : (s.merging clock fromId toId).membersOf fromId = [] := by
    refine List.eq_nil_iff_forall_not_mem.2 fun m hm => ?_
    obtain ⟨hactive, hcluster⟩ := mem_membersOf.1 hm
    rcases (mem_actives_relocated hrel).1 hactive with ⟨hold, hstays⟩ | hnew
    · rw [revisionIds_mergedRows] at hstays
      exact hstays (List.mem_map_of_mem (mem_membersOf.2 ⟨hold, hcluster⟩))
    · exact hne (hcluster.symm.trans (hrel.placed m hnew).1)
  have hleft : ∀ c : EventCluster F, c.clusterId = fromId → (ClusterKept reader (s.merging clock fromId toId)
      { c with status := .merged, mergedIntoClusterId := some toId } ↔ NoOpenConflict s fromId) := by
    rintro c rfl
    exact ⟨fun hk => (hk.emptied hempty).2, fun hno => ⟨fun _ => ⟨.inr rfl, hno⟩, fun hfull => absurd hempty hfull⟩⟩
  have hother : ∀ c ∈ s.clusters, c.clusterId ≠ fromId → c.clusterId ≠ toId →
      ClusterKept reader (s.merging clock fromId toId) c := by
    intro c hc hnotFrom hnotTo
    refine (kept_relocated hrel hnotTo fun m hm hid hmoved => hnotFrom ?_).2 (hkept c hc)
    rw [revisionIds_mergedRows] at hmoved
    obtain ⟨m', hm', heq⟩ := List.mem_map.1 hmoved
    obtain ⟨hactive, hcluster⟩ := mem_membersOf.1 hm'
    rw [active_unique hs hactive hm heq] at hcluster
    exact hid.symm.trans hcluster
  have hrefresh := @kept_refreshed_iff _ reader _ _ (hs.relocated hrel) toId fun _ => True
  simp only [forall_const] at hrefresh
  rw [hrefresh]
  show (∀ c ∈ Table.update EventCluster.clusterId fromId (fun c => { c with
    status := .merged, mergedIntoClusterId := some toId }) s.clusters, _) ↔ _
  have hrow : ∀ c ∈ s.clusters, (let c' := if c.clusterId = fromId then { c with
        status := .merged, mergedIntoClusterId := some toId } else c
      (c'.clusterId = toId → Refreshable (s.merging clock fromId toId) c') ∧
        (c'.clusterId ≠ toId → ClusterKept reader (s.merging clock fromId toId) c')) ↔
      (c.clusterId = fromId → NoOpenConflict s fromId) ∧
        (c.clusterId = toId → Refreshable (s.merging clock fromId toId) c) := by
    intro c hc
    by_cases hidFrom : c.clusterId = fromId
    · rw [if_pos hidFrom]
      have hidTo : c.clusterId ≠ toId := fun heq => hne (hidFrom.symm.trans heq)
      show (c.clusterId = toId → _) ∧ (c.clusterId ≠ toId → _) ↔ _
      rw [hleft c hidFrom]
      exact ⟨fun hboth => ⟨fun _ => hboth.2 hidTo, fun heq => absurd heq hidTo⟩,
        fun hboth => ⟨fun heq => absurd heq hidTo, fun _ => hboth.1 hidFrom⟩⟩
    · rw [if_neg hidFrom]
      exact ⟨fun hboth => ⟨fun heq => absurd heq hidFrom, hboth.1⟩,
        fun hboth => ⟨hboth.2, hother c hc hidFrom⟩⟩
  unfold Table.update
  rw [List.forall_mem_map, forall₂_congr hrow]
  obtain ⟨source, hsource, hsourceId⟩ := List.mem_map.1 hfrom
  by_cases hnil : s.membersOf fromId = []
  · -- nothing is moved, so the target has the members that it had
    have hrows : s.mergedRows clock fromId toId = [] := by
      unfold NewsEvents.mergedRows
      rw [hnil]
      rfl
    have hactives : actives (s.merging clock fromId toId).members = actives s.members := by
      rw [hrel.active, hrows, List.append_nil]
      exact List.filter_eq_self.2 fun m _ => rfl
    have hsame : (s.merging clock fromId toId).membersOf toId = s.membersOf toId := by
      refine membersOf_congr ?_
      rw [activeRows_eq, activeRows_eq, hactives]
    refine iff_of_true (fun c hc => ⟨?_, ?_⟩) fun hfull => absurd hnil hfull
    · rintro rfl
      exact ((hkept c hc).emptied hnil).2
    · rintro rfl
      exact ⟨fun hgone => ((hkept c hc).emptied (hsame.symm.trans hgone)).2,
        fun hfull => ((hkept c hc).computed fun hgone => hfull (hsame.trans hgone)).1⟩
  · have hrows : s.mergedRows clock fromId toId ≠ [] := by
      intro hgone
      have hids := revisionIds_mergedRows (s := s) clock fromId toId
      rw [hgone] at hids
      exact hnil (List.map_eq_nil_iff.1 hids.symm)
    constructor
    · intro hall _
      exact ⟨(hall source hsource).1 hsourceId,
        fun c hc hid => (refreshable_target hrel hrows hid).1 ((hall c hc).2 hid)⟩
    · intro hboth c hc
      exact ⟨fun _ => (hboth hnil).1, fun hid => (refreshable_target hrel hrows hid).2 ((hboth hnil).2 c hc hid)⟩

/-- A refresh leaves the status of a cluster with members. -/
theorem refreshed_active (hs : ClustersOK s) {clusterId other : String} (hfull : s.membersOf other ≠ []) :
    (∀ c ∈ (s.refreshed reader clusterId).clusters, c.clusterId = other → c.status = .active) ↔
      ∀ c ∈ s.clusters, c.clusterId = other → c.status = .active := by
  unfold NewsEvents.refreshed
  cases hcomputed : s.computed reader clusterId with
  | none =>
    have hne : clusterId ≠ other := by
      rintro rfl
      exact hfull ((computed_eq_none hs).1 hcomputed)
    show (∀ c ∈ Table.update _ _ _ _, _) ↔ _
    unfold Table.update
    rw [List.forall_mem_map]
    refine forall₂_congr fun c _ => ?_
    by_cases hid : c.clusterId = clusterId
    · rw [if_pos hid]
      exact iff_of_true (fun heq => absurd (hid.symm.trans heq) hne) fun heq => absurd (hid.symm.trans heq) hne
    · rw [if_neg hid]
  | some result =>
    show (∀ c ∈ Table.update _ _ _ _, _) ↔ _
    unfold Table.update
    rw [List.forall_mem_map]
    refine forall₂_congr fun c _ => ?_
    by_cases hid : c.clusterId = clusterId
    · rw [if_pos hid]
    · rw [if_neg hid]

/-- **A split** keeps the clusters exactly if its target is not given up, and if it leaves no open
conflict in a cluster that it empties. -/
theorem splitting_kept_iff (hs : ClustersOK s) (hkept : ∀ c ∈ s.clusters, ClusterKept reader s c)
    {clock : ℕ → ℤ} {id reason : String} {old : EventClusterMember F} {revision : CitedRevision}
    (h : s.Splits id reason old revision) :
    (∀ c ∈ (((s.splitting sha clock id revision).refreshed reader old.clusterId).refreshed reader
          (splitTarget sha clock id)).clusters,
        ClusterKept reader (((s.splitting sha clock id revision).refreshed reader old.clusterId).refreshed reader
          (splitTarget sha clock id)) c) ↔
      (∀ c ∈ s.clusters, c.clusterId = splitTarget sha clock id → c.status = .active) ∧
        (splitTarget sha clock id ≠ old.clusterId →
          (∀ m ∈ s.membersOf old.clusterId, m.revisionId = id) → NoOpenConflict s old.clusterId) := by
  have hrel := @splitting_relocated _ sha _ _ hs clock _ _ _ _ h
  have hu := hs.relocated hrel
  obtain ⟨hold, hrevision⟩ := memberForRevision_some h.2.1
  have hrow : (splitRow sha clock id : EventClusterMember F) ∈
      (s.splitting sha clock id revision).membersOf (splitTarget sha clock id) :=
    mem_membersOf.2 ⟨(mem_actives_relocated hrel).2 (.inr (List.mem_singleton_self _)), rfl⟩
  have hfull := List.ne_nil_of_mem hrow
  have hclusters : (s.splitting sha clock id revision).clusters =
      (s.createCluster (splitTarget sha clock id) revision).clusters := rfl
  have hrows : revisionIds [(splitRow sha clock id : EventClusterMember F)] = [id] := rfl
  generalize s.splitting sha clock id revision = u at *
  generalize splitTarget sha clock id = target at *
  have hfirst := @kept_refreshed_iff _ reader _ _ hu old.clusterId (· ≠ target)
  have hsecond := @kept_refreshed_iff _ reader (u.refreshed reader old.clusterId) _
    (hu.refreshed old.clusterId) target
    fun _ => True
  simp only [forall_const] at hsecond
  rw [hsecond, forall₂_and, hfirst, hclusters]
  refine and_congr ?_ ?_
  · -- the target has the member that was split off
    have hrefreshable : ∀ c : EventCluster F, c.clusterId = target →
        (Refreshable (u.refreshed reader old.clusterId) c ↔ c.status = .active) := by
      rintro c rfl
      have hfull' : (u.refreshed reader old.clusterId).membersOf c.clusterId ≠ [] := by
        rw [membersOf_refreshed]
        exact hfull
      exact ⟨fun hr => hr.active hfull', fun hactive => ⟨fun hnil => absurd hnil hfull', fun _ => hactive⟩⟩
    rw [forall₂_congr fun c _ => forall_congr' fun hid => hrefreshable c hid, refreshed_active hu hfull, hclusters]
    exact created_forall fun c _ hactive _ => hactive
  · rw [created_forall fun c hid _ hne => absurd hid hne]
    have hemptied : target ≠ old.clusterId → (u.membersOf old.clusterId = [] ↔
        ∀ m ∈ s.membersOf old.clusterId, m.revisionId = id) := by
      intro hne
      constructor
      · intro hnil m hm
        by_contra hid
        obtain ⟨hactive, hcluster⟩ := mem_membersOf.1 hm
        have hstays : m ∈ u.membersOf old.clusterId := by
          refine mem_membersOf.2 ⟨(mem_actives_relocated hrel).2 (.inl ⟨hactive, ?_⟩), hcluster⟩
          rw [hrows, List.mem_singleton]
          exact hid
        rw [hnil] at hstays
        cases hstays
      · intro hsole
        refine List.eq_nil_iff_forall_not_mem.2 fun m hm => ?_
        obtain ⟨hactive, hcluster⟩ := mem_membersOf.1 hm
        rcases (mem_actives_relocated hrel).1 hactive with ⟨hbefore, hstays⟩ | hnew
        · rw [hrows, List.mem_singleton] at hstays
          exact hstays (hsole m (mem_membersOf.2 ⟨hbefore, hcluster⟩))
        · exact hne ((hrel.placed m hnew).1.symm.trans hcluster)
    have hopen : NoOpenConflict u old.clusterId ↔ NoOpenConflict s old.clusterId := by
      unfold NoOpenConflict
      rw [conflictsOf_relocated hrel]
    have hother : ∀ c ∈ s.clusters, c.clusterId ≠ target → c.clusterId ≠ old.clusterId →
        ClusterKept reader u c := by
      intro c hc htarget hnotOld
      refine (kept_relocated hrel htarget fun m hm hid hmoved => hnotOld ?_).2 (hkept c hc)
      rw [hrows, List.mem_singleton] at hmoved
      rw [← hid, active_unique hs hm hold (hmoved.trans hrevision.symm)]
    constructor
    · intro hall hne hsole
      obtain ⟨c, hc, hid⟩ := List.mem_map.1 (mem_clusters_of_active hs hold)
      have hrefreshable := (hall c hc (hid ▸ hne.symm)).1 hid
      rw [← hopen, ← hid]
      exact hrefreshable.emptied (hid ▸ (hemptied hne).2 hsole)
    · intro hcond c hc htarget
      refine ⟨fun hid => ⟨fun hnil => ?_, fun _ => ?_⟩, hother c hc htarget⟩
      · rw [hid] at hnil htarget ⊢
        exact hopen.2 (hcond htarget.symm ((hemptied htarget.symm).1 hnil))
      · exact ((hkept c hc).computed (List.ne_nil_of_mem (mem_membersOf.2 ⟨hold, hid.symm⟩))).1

theorem consistent_iff_kept (hs : ClustersOK s) :
    ClustersConsistent reader s ↔ ∀ c ∈ s.clusters, ClusterKept reader s c :=
  ⟨fun h => h.kept, fun h => ⟨active_once hs, h⟩⟩

/-- **One call** keeps the clusters consistent exactly if it meets the condition. -/
theorem clusters_consistent_iff (hs : ClustersOK s) (hconsistent : ClustersConsistent reader s)
    (call : NewsCall F) :
    ClustersConsistent reader (s.after sha reader call) ↔ KeepsClusters sha reader s call := by
  have hstep : ClusterStep sha reader s call (s.after sha reader call) := cluster_step hs call
  have hkept := hconsistent.kept
  rw [consistent_iff_kept (hs.step hstep)]
  generalize s.after sha reader call = t at hstep ⊢
  cases hstep with
  | archived call =>
    refine iff_of_true (fun c hc => (clusterKept_congr (s := s)
      (t := { s with archive := s.archive.after sha call }) rfl (fun m hm => ?_) rfl).2 (hkept c hc)) trivial
    obtain ⟨cited, hcited⟩ := Option.isSome_iff_exists.1
      (hs.cited m (List.mem_filter.1 (mem_membersOf.1 hm).1).1)
    rw [cited_after hs.owned hcited, hcited]
  | cited refs _ =>
    exact iff_of_true (fun c hc => (clusterKept_congr (s := s) (t := { s with evidenceRefs := refs }) rfl
      (fun _ _ => rfl) rfl).2 (hkept c hc)) trivial
  | assignRefused h => exact iff_of_true hkept fun revision hassigns => absurd hassigns (h revision)
  | @assigned compare now id revision h =>
    rw [assigning_kept_iff hs hkept h]
    constructor
    · intro hactive revision' h'
      have heq := h.2.symm.trans h'.2
      cases heq
      exact hactive
    · intro hcond
      exact hcond revision h
  | mergeRefused h => exact iff_of_true hkept fun hmerges => absurd hmerges h
  | merged h =>
    rw [merging_kept_iff hs hkept h]
    exact ⟨fun hcond _ => hcond, fun hcond => hcond h⟩
  | splitRefused h => exact iff_of_true hkept fun old revision hsplits => absurd hsplits (h old revision)
  | @split clock id reason old revision h =>
    rw [splitting_kept_iff hs hkept h]
    constructor
    · intro hcond old' revision' h'
      have heq := h.2.1.symm.trans h'.2.1
      cases heq
      exact hcond
    · intro hcond
      exact hcond old revision h

/-- **The clusters stay consistent** along a run, exactly if each of its calls meets the condition. -/
theorem clusters_consistent (sha : Bytes → String) (reader : TextReader) (calls : List (NewsCall F)) :
    Along (NewsEvents.after sha reader) (fun s call => ClustersConsistent reader (s.after sha reader call))
        ({} : NewsEvents F) calls ↔
      Along (NewsEvents.after sha reader) (KeepsClusters sha reader) ({} : NewsEvents F) calls := by
  have hempty : ClustersConsistent reader ({} : NewsEvents F) :=
    ⟨fun _ hm => absurd hm List.not_mem_nil, fun _ hc => absurd hc List.not_mem_nil⟩
  refine along_iff (fun s call hkept (hs : ClustersOK s ∧ ClustersConsistent reader s) => ?_)
    (fun s call hs => clusters_consistent_iff hs.1 hs.2 call) calls {} ⟨clustersOK_empty, hempty⟩
  exact ⟨hs.1.step (cluster_step hs.1 call), hkept⟩

end

section

private def plainText : TextReader where
  alphanumeric := fun _ => true
  factCaptures := fun _ => []

private def apart : Comparison ℚ := fun _ _ => ⟨false, .followUp, 0⟩

private def firstNotice : UpsertCall := announcement "A" "x" none 100

private def firstNoticeId : String := firstNotice.input.revisionId latin

/-- The only member of a cluster is split off and merged back. -/
private def splitAndBack : List (NewsCall ℚ) :=
  [.archive firstNotice, .assign apart 101 firstNoticeId, .split (fun _ => 102) firstNoticeId "r",
    .merge (fun _ => 103) (splitTarget latin (fun _ => 102) firstNoticeId) (clusterIdFor latin firstNoticeId) "r"]

/-- The cluster has a member again, and is still stored as empty. -/
theorem member_of_empty_cluster : ¬ ∀ calls : List (NewsCall ℚ),
    Along (NewsEvents.after latin plainText)
      (fun s call => ClustersConsistent plainText (s.after latin plainText call)) {} calls := by
  intro h
  have hfinal := (h splitAndBack).2.2.2.1
  have hfound : ∃ c ∈ (run (NewsEvents.after latin plainText) ({} : NewsEvents ℚ) splitAndBack).clusters,
      (run (NewsEvents.after latin plainText) ({} : NewsEvents ℚ) splitAndBack).membersOf c.clusterId ≠ [] ∧
        c.status = .empty := by
    decide +kernel
  obtain ⟨c, hc, hfull, hstatus⟩ := hfound
  have hactive := ((hfinal.kept c hc).computed hfull).1
  rw [hstatus] at hactive
  cases hactive

end

end Astock
