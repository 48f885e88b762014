import Astock.Lib.Run
import Astock.Proof.PointInTime
import Astock.Spec.Clusters

/-!
# What the calls on clusters do

* `ClustersOK`: the keys and references of the tables; each revision that was ever a member is an active
  member of one cluster.
* `Relocated`: revisions were made members of a cluster. Every call that changes members does this, and
  then refreshes the clusters it changed.
* `refreshCluster_eq`: refreshing never fails.
-/

namespace Astock

open NewsEvents

variable {F : Type} {sha : Bytes → String} {reader : TextReader} {s t : NewsEvents F}

/-! ## The names of conflicts -/

section

variable {κ α : Type}

/-- The keys of a map are some of the given ones, each once. -/
def KeyedBy (keys : List κ) (rows : List (κ × α)) : Prop :=
  (rows.map Prod.fst).Nodup ∧ rows.map Prod.fst ⊆ keys

theorem KeyedBy.nil (keys : List κ) : KeyedBy keys ([] : List (κ × α)) :=
  ⟨List.nodup_nil, List.nil_subset _⟩

theorem KeyedBy.entry [DecidableEq κ] [LE κ] [DecidableLE κ] {keys : List κ} {rows : List (κ × α)} (h : KeyedBy keys rows) {k : κ} (hk : k ∈ keys)
    (d : α) (f : α → α) : KeyedBy keys (Table.entry k d f rows) := by
  refine ⟨Table.nodup_insertOrdered h.1, fun k' hk' => ?_⟩
  rcases Table.mem_map_entry.1 hk' with rfl | hold
  · exact hk
  · exact h.2 hold

end

theorem extractFacts_keyed (reader : TextReader) (text : String) :
    KeyedBy factKeys (extractFacts reader text) := by
  unfold extractFacts
  exact List.foldlRecOn _ _ (KeyedBy.nil _) fun _ h capture _ => h.entry capture.key.2 _ _

theorem factValues_keyed (reader : TextReader) (revisions : List CitedRevision) :
    KeyedBy factKeys (factValues reader revisions) := by
  unfold factValues
  refine List.foldlRecOn _ _ (KeyedBy.nil _) fun values h r _ => ?_
  refine List.foldlRecOn _ _ h fun values h field hfield => ?_
  refine List.foldlRecOn _ _ h fun values h fact _ => h.entry ?_ _ _
  exact (extractFacts_keyed reader _).2 (List.mem_map_of_mem hfield)

/-- **Each field is in conflict once.** -/
theorem detectConflicts_nodup (reader : TextReader) (clusterId : String) (revisions : List CitedRevision) :
    ((detectConflicts reader clusterId revisions).map (·.fieldName)).Nodup := by
  have hkeyed := factValues_keyed reader revisions
  have hfields : (((factValues reader revisions).filter fun field => 1 < field.2.length).map
      fun field => openConflict clusterId revisions field.1 field.2).map (·.fieldName) =
        ((factValues reader revisions).filter fun field => 1 < field.2.length).map Prod.fst := by
    rw [List.map_map]
    rfl
  have hsub := List.filter_sublist (l := factValues reader revisions) (p := fun field => 1 < field.2.length)
  have hnodup := hkeyed.1.sublist (hsub.map Prod.fst)
  unfold detectConflicts
  simp only
  split
  · rw [List.map_append, hfields]
    refine List.nodup_append.2 ⟨hnodup, List.nodup_singleton _, ?_⟩
    rintro name hname _ hdirection rfl
    have hkey : name ∈ factKeys := hkeyed.2 ((hsub.map Prod.fst).subset hname)
    rw [List.mem_singleton.1 hdirection] at hkey
    have hother : "direction" ∉ factKeys := by decide
    exact hother hkey
  · rw [hfields]
    exact hnodup

/-! ## Cited revisions -/

/-- The documents keep their sources. -/
theorem source_after {archive : NewsArchive} {call : UpsertCall} {documentId : String} {d : SourceDocument}
    (h : archive.document documentId = some d) : ∃ d', (archive.after sha call).document documentId = some d' ∧
      d'.sourceId = d.sourceId := by
  cases hvalid : call.input.validate with
  | error message =>
    refine ⟨d, ?_, rfl⟩
    unfold NewsArchive.after NewsArchive.upsert
    rw [hvalid]
    exact h
  | ok =>
    by_cases hid : documentId = call.input.documentId sha
    · subst hid
      have hsource : (archive.written sha call).sourceId = d.sourceId := by
        unfold NewsArchive.written NewsArchive.observed
        rw [h]
        rfl
      rcases after_cases sha archive call hvalid with ⟨-, -, hd⟩ | ⟨-, -, hd⟩
      · exact ⟨_, hd, hsource⟩
      · exact ⟨_, hd, hsource⟩
    · exact ⟨d, (document_after_other hvalid hid).trans h, rfl⟩

theorem revision_eq_bind {archive : NewsArchive} (howned : Owned archive) (id : String) :
    archive.revision id = (Table.find DocumentRevision.revisionId id archive.revisions).bind fun r =>
      (archive.document r.documentId).map fun d => { document := d, revision := r } := by
  have hjoin : ∀ rows ⊆ archive.revisions, ((rows.filterMap fun revision =>
      (archive.document revision.documentId).map fun document =>
        ({ document, revision } : ArchivedNewsRevision)).find? fun r => r.revision.revisionId = id) =
      (Table.find DocumentRevision.revisionId id rows).bind fun r =>
        (archive.document r.documentId).map fun d => { document := d, revision := r } := by
    intro rows hrows
    induction rows with
    | nil => rfl
    | cons r rows ih =>
      obtain ⟨d, hd, -⟩ := howned.document r (hrows List.mem_cons_self)
      have hrest := ih fun x hx => hrows (List.mem_cons_of_mem _ hx)
      unfold Table.find at hrest ⊢
      simp only [List.filterMap_cons, hd, Option.map_some, List.find?_cons]
      by_cases hid : r.revisionId = id
      · simp only [hid, decide_true, Option.bind_some, hd, Option.map_some]
      · simp only [hid, decide_false]
        exact hrest
  exact hjoin archive.revisions (List.Subset.refl _)

theorem cited_eq_some (howned : Owned s.archive) {id : String} {c : CitedRevision} :
    s.cited id = some c ↔ Table.find DocumentRevision.revisionId id s.archive.revisions = some c.revision ∧
      ∃ d, s.archive.document c.revision.documentId = some d ∧ d.sourceId = c.sourceId := by
  unfold cited
  rw [revision_eq_bind howned, Option.map_eq_some_iff]
  constructor
  · rintro ⟨r, hr, rfl⟩
    obtain ⟨revision, hfind, hmap⟩ := Option.bind_eq_some_iff.1 hr
    obtain ⟨d, hd, rfl⟩ := Option.map_eq_some_iff.1 hmap
    exact ⟨hfind, d, hd, rfl⟩
  · rintro ⟨hfind, d, hd, hsource⟩
    refine ⟨⟨d, c.revision⟩, ?_, ?_⟩
    · rw [hfind, Option.bind_some, hd]
      rfl
    · cases c
      subst hsource
      rfl

/-- **What is cited of a revision** stays as it is in the archive. -/
theorem cited_after (howned : Owned s.archive) {call : UpsertCall} {id : String} {c : CitedRevision}
    (h : s.cited id = some c) : cited { s with archive := s.archive.after sha call } id = some c := by
  have howned' : Owned ({ s with archive := s.archive.after sha call } : NewsEvents F).archive :=
    howned.after call
  rw [cited_eq_some howned] at h
  obtain ⟨hfind, d, hd, hsource⟩ := h
  obtain ⟨d', hd', hsource'⟩ := @source_after sha s.archive call _ _ hd
  refine (cited_eq_some howned').2 ⟨?_, d', hd', hsource'.trans hsource⟩
  rcases revisions_after sha s.archive call with hsame | ⟨-, -, hadded⟩
  · rw [hsame]
    exact hfind
  · rw [hadded, Table.find_append, hfind]
    rfl

/-! ## Active rows -/

/-- The active rows of a table of members. -/
def actives (members : List (EventClusterMember F)) : List (EventClusterMember F) :=
  members.filter (·.active)

/-- The revisions of rows. -/
def revisionIds (members : List (EventClusterMember F)) : List String := members.map (·.revisionId)

theorem activeRows_eq (clusterId : String) (members : List (EventClusterMember F)) :
    activeRows clusterId members = (actives members).filter fun m => m.clusterId = clusterId := by
  unfold activeRows actives
  rw [List.filter_filter]

theorem actives_append (a b : List (EventClusterMember F)) : actives (a ++ b) = actives a ++ actives b :=
  List.filter_append _ _

theorem actives_deactivate (p : EventClusterMember F → Bool) (members : List (EventClusterMember F)) :
    actives (deactivate p members) = (actives members).filter fun m => !p m := by
  unfold actives deactivate
  induction members with
  | nil => rfl
  | cons m rest ih =>
    rw [List.map_cons, List.filter_cons, List.filter_cons, ih]
    cases hactive : m.active <;> cases hp : p m <;> simp [hactive, hp]

theorem mem_deactivate {p : EventClusterMember F → Bool} {members : List (EventClusterMember F)}
    {m : EventClusterMember F} (h : m ∈ deactivate p members) : ∃ m₀ ∈ members,
      m.clusterId = m₀.clusterId ∧ m.revisionId = m₀.revisionId := by
  obtain ⟨m₀, hm₀, rfl⟩ := List.mem_map.1 h
  refine ⟨m₀, hm₀, ?_⟩
  split
  · exact ⟨rfl, rfl⟩
  · exact ⟨rfl, rfl⟩

theorem mem_membersOf {clusterId : String} {m : EventClusterMember F} :
    m ∈ s.membersOf clusterId ↔ m ∈ actives s.members ∧ m.clusterId = clusterId := by
  unfold membersOf
  rw [List.mem_insertionSort, activeRows_eq, List.mem_filter, decide_eq_true_eq]

theorem membersOf_congr {clusterId : String}
    (h : activeRows clusterId t.members = activeRows clusterId s.members) :
    t.membersOf clusterId = s.membersOf clusterId := by
  unfold membersOf
  rw [h]

/-- The row of a member that was moved. -/
def EventClusterMember.movedTo [F64 F] (toId : String) (now : ℤ) (m : EventClusterMember F) :
    EventClusterMember F :=
  { m with clusterId := toId, mergeScore := F64.lit 1, active := true, createdAt := now }

/-- **A merge** moves the rows of the given members. -/
theorem actives_moveMembers [F64 F] {fromId toId : String} (hne : toId ≠ fromId) (clock : ℕ → ℤ)
    (moved : List (EventClusterMember F)) : ∀ (n : ℕ) (members : List (EventClusterMember F)),
    actives ((moved.zipIdx n).foldl (fun members m => moveMember fromId toId (clock m.2) m.1 members) members) =
      ((actives members).filter fun x => !(x.clusterId = fromId && x.revisionId ∈ revisionIds moved)) ++
        (moved.zipIdx n).map fun m => m.1.movedTo toId (clock m.2) := by
  induction moved with
  | nil =>
    intro n members
    simp [revisionIds]
  | cons m rest ih =>
    intro n members
    rw [List.zipIdx_cons, List.foldl_cons, ih]
    unfold moveMember
    rw [actives_append, actives_deactivate, List.filter_append, List.filter_filter, List.append_assoc]
    congr 1
    · refine List.filter_congr fun x _ => ?_
      unfold revisionIds
      by_cases hfrom : x.clusterId = fromId
      · by_cases hm : x.revisionId = m.revisionId <;> simp [hfrom, hm]
      · simp [hfrom]
    · -- the new row is in another cluster, so the later moves leave it
      simp [actives, EventClusterMember.movedTo, hne]

/-! ## Relocations -/

/-- Revisions were made members of a cluster; what is stored of the clusters may have changed, too. -/
structure Relocated (s t : NewsEvents F) (target : String) (rows : List (EventClusterMember F)) : Prop where
  archive : t.archive = s.archive
  evidenceRefs : t.evidenceRefs = s.evidenceRefs
  reviews : t.reviews = s.reviews
  conflicts : t.conflicts = s.conflicts
  ids : (t.clusters.map (·.clusterId)).Nodup
  kept : s.clusters.map (·.clusterId) ⊆ t.clusters.map (·.clusterId)
  stored : target ∈ t.clusters.map (·.clusterId)
  active : actives t.members =
    ((actives s.members).filter fun m => m.revisionId ∉ revisionIds rows) ++ rows
  placed : ∀ m ∈ rows, m.clusterId = target ∧ (s.cited m.revisionId).isSome
  single : (revisionIds rows).Nodup
  members : ∀ m ∈ t.members, ∃ m₀ ∈ s.members ++ rows,
    m.clusterId = m₀.clusterId ∧ m.revisionId = m₀.revisionId

/-- The keys and references of the tables, and one active row for each revision that has rows. -/
structure ClustersOK (s : NewsEvents F) : Prop where
  owned : Owned s.archive
  ids : (s.clusters.map (·.clusterId)).Nodup
  single : (revisionIds (actives s.members)).Nodup
  assigned : ∀ m ∈ s.members, m.revisionId ∈ revisionIds (actives s.members)
  clusters : ∀ m ∈ s.members, m.clusterId ∈ s.clusters.map (·.clusterId)
  cited : ∀ m ∈ s.members, (s.cited m.revisionId).isSome

theorem Relocated.cited {target : String} {rows : List (EventClusterMember F)}
    (h : Relocated s t target rows) (id : String) : t.cited id = s.cited id := by
  unfold NewsEvents.cited
  rw [h.archive]

/-- **Relocations** keep the keys and references. -/
theorem ClustersOK.relocated (hs : ClustersOK s) {target : String} {rows : List (EventClusterMember F)}
    (h : Relocated s t target rows) : ClustersOK t where
  owned := h.archive ▸ hs.owned
  ids := h.ids
  single := by
    rw [h.active]
    unfold revisionIds
    rw [List.map_append]
    refine List.nodup_append.2 ⟨hs.single.sublist (List.filter_sublist.map _), h.single, ?_⟩
    rintro id hold _ hnew rfl
    obtain ⟨m, hm, rfl⟩ := List.mem_map.1 hold
    exact of_decide_eq_true (List.mem_filter.1 hm).2 hnew
  assigned := by
    have hcases : ∀ id ∈ revisionIds (actives s.members) ++ revisionIds rows,
        id ∈ revisionIds (actives t.members) := by
      intro id hid
      rw [h.active]
      unfold revisionIds at hid ⊢
      rw [List.map_append, List.mem_append]
      by_cases hnew : id ∈ rows.map (·.revisionId)
      · exact .inr hnew
      · obtain ⟨m, hm, rfl⟩ := List.mem_map.1 ((List.mem_append.1 hid).resolve_right hnew)
        exact .inl (List.mem_map_of_mem (List.mem_filter.2 ⟨hm, decide_eq_true hnew⟩))
    intro m hm
    obtain ⟨m₀, hm₀, -, hid⟩ := h.members m hm
    rw [hid]
    refine hcases _ (List.mem_append.2 ?_)
    rcases List.mem_append.1 hm₀ with hold | hnew
    · exact .inl (hs.assigned m₀ hold)
    · exact .inr (List.mem_map_of_mem hnew)
  clusters := by
    intro m hm
    obtain ⟨m₀, hm₀, hid, -⟩ := h.members m hm
    rw [hid]
    rcases List.mem_append.1 hm₀ with hold | hnew
    · exact h.kept (hs.clusters m₀ hold)
    · rw [(h.placed m₀ hnew).1]
      exact h.stored
  cited := by
    intro m hm
    obtain ⟨m₀, hm₀, -, hid⟩ := h.members m hm
    rw [h.cited, hid]
    rcases List.mem_append.1 hm₀ with hold | hnew
    · exact hs.cited m₀ hold
    · exact (h.placed m₀ hnew).2

theorem mem_actives_relocated {target : String} {rows : List (EventClusterMember F)}
    (h : Relocated s t target rows) {m : EventClusterMember F} : m ∈ actives t.members ↔
      m ∈ actives s.members ∧ m.revisionId ∉ revisionIds rows ∨ m ∈ rows := by
  rw [h.active, List.mem_append, List.mem_filter, decide_eq_true_eq]

/-- A cluster that no revision enters or leaves has the same active rows. -/
theorem activeRows_relocated {target clusterId : String} {rows : List (EventClusterMember F)}
    (h : Relocated s t target rows) (htarget : clusterId ≠ target)
    (hother : ∀ m ∈ actives s.members, m.clusterId = clusterId → m.revisionId ∉ revisionIds rows) :
    activeRows clusterId t.members = activeRows clusterId s.members := by
  rw [activeRows_eq, activeRows_eq, h.active, List.filter_append, List.filter_filter]
  have hrows : (rows.filter fun m => m.clusterId = clusterId) = [] := by
    refine List.filter_eq_nil_iff.2 fun m hm => ?_
    rw [decide_eq_true_eq, (h.placed m hm).1]
    exact htarget.symm
  rw [hrows, List.append_nil]
  refine List.filter_congr fun m hm => ?_
  by_cases hid : m.clusterId = clusterId
  · simp [hid, hother m hm hid]
  · simp [hid]

/-! ## Refreshing -/

theorem active_unique (hs : ClustersOK s) {m m' : EventClusterMember F} (hm : m ∈ actives s.members)
    (hm' : m' ∈ actives s.members) (h : m.revisionId = m'.revisionId) : m = m' :=
  List.inj_on_of_nodup_map hs.single hm hm' h

theorem clusterDetail_ok {clusterId : String} (h : clusterId ∈ s.clusters.map (·.clusterId)) :
    ∃ detail, s.clusterDetail clusterId = .ok detail := by
  obtain ⟨c, hc, hid⟩ := List.mem_map.1 h
  unfold clusterDetail NewsEvents.cluster
  cases hfind : Table.find EventCluster.clusterId clusterId s.clusters with
  | none => exact absurd hid ((Table.find_eq_none _).1 hfind c hc)
  | some cluster => exact ⟨_, rfl⟩

section

variable [F64 F]

/-- The store after a cluster was refreshed. -/
def NewsEvents.refreshed (reader : TextReader) (clusterId : String) (s : NewsEvents F) : NewsEvents F :=
  match s.computed reader clusterId with
  | none => { s with
      clusters := Table.update (·.clusterId) clusterId (fun c => { c with status := .empty }) s.clusters }
  | some (summary, conflicts) => { s with
      clusters := Table.update (·.clusterId) clusterId (fun c => { c with summary }) s.clusters
      conflicts := (s.conflicts.filter fun row => row.clusterId ≠ clusterId) ++ conflicts }

theorem refreshed_members (clusterId : String) : (s.refreshed reader clusterId).members = s.members := by
  unfold NewsEvents.refreshed
  split <;> rfl

theorem refreshed_archive (clusterId : String) : (s.refreshed reader clusterId).archive = s.archive := by
  unfold NewsEvents.refreshed
  split <;> rfl

theorem refreshed_evidenceRefs (clusterId : String) :
    (s.refreshed reader clusterId).evidenceRefs = s.evidenceRefs := by
  unfold NewsEvents.refreshed
  split <;> rfl

theorem refreshed_reviews (clusterId : String) : (s.refreshed reader clusterId).reviews = s.reviews := by
  unfold NewsEvents.refreshed
  split <;> rfl

theorem refreshed_ids (clusterId : String) :
    (s.refreshed reader clusterId).clusters.map (·.clusterId) = s.clusters.map (·.clusterId) := by
  unfold NewsEvents.refreshed
  split
  · exact Table.map_key_update EventCluster.clusterId fun _ => rfl
  · exact Table.map_key_update EventCluster.clusterId fun _ => rfl

theorem ClustersOK.refreshed (hs : ClustersOK s) (clusterId : String) :
    ClustersOK (s.refreshed reader clusterId) := by
  have hcited : ∀ id, (s.refreshed reader clusterId).cited id = s.cited id := by
    intro id
    unfold NewsEvents.cited
    rw [refreshed_archive]
  refine ⟨?_, ?_, ?_, ?_, ?_, ?_⟩
  · rw [refreshed_archive]
    exact hs.owned
  · rw [refreshed_ids]
    exact hs.ids
  · rw [refreshed_members]
    exact hs.single
  · rw [refreshed_members]
    exact hs.assigned
  · rw [refreshed_members, refreshed_ids]
    exact hs.clusters
  · rw [refreshed_members]
    intro m hm
    rw [hcited]
    exact hs.cited m hm

/-- Nothing is computed exactly for a cluster without active members. -/
theorem computed_eq_none (hs : ClustersOK s) {clusterId : String} :
    s.computed reader clusterId = none ↔ s.membersOf clusterId = [] := by
  have hrevisions : ((s.membersOf clusterId).filterMap fun m => s.cited m.revisionId).insertionSort earlier = [] ↔
      s.membersOf clusterId = [] := by
    rw [← List.length_eq_zero_iff, List.length_insertionSort, List.length_eq_zero_iff,
      List.filterMap_eq_nil_iff]
    constructor
    · intro hnone
      refine List.eq_nil_iff_forall_not_mem.2 fun m hm => ?_
      have hcited := hs.cited m (List.mem_filter.1 (mem_membersOf.1 hm).1).1
      rw [hnone m hm] at hcited
      cases hcited
    · intro hnil m hm
      rw [hnil] at hm
      cases hm
  rw [← hrevisions]
  unfold computed
  simp only
  cases ((s.membersOf clusterId).filterMap fun m => s.cited m.revisionId).insertionSort earlier with
  | nil => exact iff_of_true rfl rfl
  | cons first rest => exact iff_of_false nofun nofun

/-- The names of computed conflicts differ. -/
theorem computed_nodup {clusterId : String} {summary : ClusterSummary F} {conflicts : List EventFactConflict}
    (h : s.computed reader clusterId = some (summary, conflicts)) : (conflicts.map (·.fieldName)).Nodup := by
  unfold computed at h
  simp only at h
  split at h
  · cases h
  · cases h
    exact detectConflicts_nodup reader clusterId _

/-- **Refreshing** a cluster that is stored never fails. -/
theorem refreshCluster_eq (hs : ClustersOK s) {clusterId : String}
    (hid : clusterId ∈ s.clusters.map (·.clusterId)) :
    ∃ detail, s.refreshCluster reader clusterId = (.ok detail, s.refreshed reader clusterId) := by
  have hid' : clusterId ∈ (s.refreshed reader clusterId).clusters.map (·.clusterId) := by
    rw [refreshed_ids]
    exact hid
  obtain ⟨detail, hdetail⟩ := clusterDetail_ok hid'
  refine ⟨detail, ?_⟩
  unfold refreshCluster
  cases hcomputed : s.computed reader clusterId with
  | none =>
    have hrefreshed : s.refreshed reader clusterId = { s with
        clusters := Table.update (·.clusterId) clusterId (fun c => { c with status := .empty }) s.clusters } := by
      unfold NewsEvents.refreshed
      rw [hcomputed]
    rw [if_pos ((computed_eq_none hs).1 hcomputed), ← hrefreshed]
    exact Prod.ext hdetail rfl
  | some result =>
    obtain ⟨summary, conflicts⟩ := result
    have hrefreshed : s.refreshed reader clusterId = { s with
        clusters := Table.update (·.clusterId) clusterId (fun c => { c with summary }) s.clusters
        conflicts := (s.conflicts.filter fun row => row.clusterId ≠ clusterId) ++ conflicts } := by
      unfold NewsEvents.refreshed
      rw [hcomputed]
    have hmembers : s.membersOf clusterId ≠ [] := by
      intro hnil
      rw [(computed_eq_none hs).2 hnil] at hcomputed
      cases hcomputed
    rw [if_neg hmembers]
    simp only
    rw [if_pos (computed_nodup hcomputed), ← hrefreshed]
    exact Prod.ext hdetail rfl

end

/-! ## Calls -/

theorem memberForRevision_some {id : String} {m : EventClusterMember F} (h : s.memberForRevision id = some m) :
    m ∈ actives s.members ∧ m.revisionId = id := by
  unfold memberForRevision at h
  have hp := List.find?_some h
  simp only [Bool.and_eq_true, decide_eq_true_eq] at hp
  exact ⟨List.mem_filter.2 ⟨List.mem_of_find?_eq_some h, hp.2⟩, hp.1⟩

theorem memberForRevision_none {id : String} (h : s.memberForRevision id = none) :
    id ∉ revisionIds (actives s.members) := by
  intro hid
  obtain ⟨m, hm, rfl⟩ := List.mem_map.1 hid
  obtain ⟨hmem, hactive⟩ := List.mem_filter.1 hm
  unfold memberForRevision at h
  have hnot := List.find?_eq_none.1 h m hmem
  simp only [decide_true, hactive, Bool.and_self, not_true_eq_false] at hnot

theorem mem_clusters_of_active (hs : ClustersOK s) {m : EventClusterMember F} (hm : m ∈ actives s.members) :
    m.clusterId ∈ s.clusters.map (·.clusterId) :=
  hs.clusters m (List.mem_filter.1 hm).1

/-- The revision is archived and in no cluster. -/
def NewsEvents.Assigns (s : NewsEvents F) (id : String) (revision : ArchivedNewsRevision) : Prop :=
  s.memberForRevision id = none ∧ s.archive.revision id = some revision

theorem NewsEvents.Assigns.revisionId {id : String} {revision : ArchivedNewsRevision} (h : s.Assigns id revision) :
    revision.revision.revisionId = id := by
  have hp := List.find?_some h.2
  exact of_decide_eq_true hp

theorem revisionIds_membersOf_nodup (hs : ClustersOK s) (clusterId : String) :
    (revisionIds (s.membersOf clusterId)).Nodup := by
  have hperm := (List.perm_insertionSort (fun a b : EventClusterMember F => a.createdAt ≤ b.createdAt)
    (activeRows clusterId s.members)).map (·.revisionId)
  refine hperm.nodup_iff.2 ?_
  rw [activeRows_eq]
  exact hs.single.sublist (List.filter_sublist.map _)

theorem agentEvidenceLink_eq (taskId conclusionKey revisionId : String) : ∃ refs, s.evidenceRefs ⊆ refs ∧
    (s.agentEvidenceLink taskId conclusionKey revisionId).2 = { s with evidenceRefs := refs } := by
  unfold agentEvidenceLink
  simp only
  split
  · exact ⟨s.evidenceRefs, List.Subset.refl _, rfl⟩
  · split
    · exact ⟨_, List.subset_append_left _ _, rfl⟩
    · exact ⟨s.evidenceRefs, List.Subset.refl _, rfl⟩

section

variable [F64 F]

/-- A cluster is created unless it is there. -/
theorem createCluster_cases (clusterId : String) (revision : CitedRevision) (s : NewsEvents F) :
    clusterId ∈ s.clusters.map (·.clusterId) ∧ s.createCluster clusterId revision = s ∨
      clusterId ∉ s.clusters.map (·.clusterId) ∧ ∃ c : EventCluster F, c.clusterId = clusterId ∧
        c.status = .active ∧
        s.createCluster clusterId revision = { s with clusters := s.clusters ++ [c] } := by
  unfold createCluster
  cases hfind : s.cluster clusterId with
  | some c => exact .inl ⟨List.mem_map.2 ⟨c, Table.mem_of_find hfind, Table.key_of_find hfind⟩, rfl⟩
  | none =>
    refine .inr ⟨fun hmem => ?_, _, rfl, rfl, rfl⟩
    obtain ⟨c, hc, hid⟩ := List.mem_map.1 hmem
    exact (Table.find_eq_none _).1 hfind c hc hid

/-- Creating a cluster changes nothing but the clusters. -/
theorem createCluster_same (clusterId : String) (revision : CitedRevision) (s : NewsEvents F) :
    s.createCluster clusterId revision =
      { s with clusters := (s.createCluster clusterId revision).clusters } := by
  rcases createCluster_cases clusterId revision s with ⟨-, h⟩ | ⟨-, c, -, -, h⟩
  · rw [h]
  · rw [h]

theorem createCluster_ids (hs : ClustersOK s) (clusterId : String) (revision : CitedRevision) :
    ((s.createCluster clusterId revision).clusters.map (·.clusterId)).Nodup ∧
      s.clusters.map (·.clusterId) ⊆ (s.createCluster clusterId revision).clusters.map (·.clusterId) ∧
      clusterId ∈ (s.createCluster clusterId revision).clusters.map (·.clusterId) := by
  rcases createCluster_cases clusterId revision s with ⟨hmem, h⟩ | ⟨hnew, c, hid, -, h⟩
  · rw [h]
    exact ⟨hs.ids, List.Subset.refl _, hmem⟩
  · rw [h]
    refine ⟨Table.nodup_append_key hs.ids fun d hd heq => hnew ?_, ?_, ?_⟩
    · exact hid ▸ heq ▸ List.mem_map_of_mem hd
    · rw [List.map_append]
      exact List.subset_append_left _ _
    · rw [List.map_append, List.map_singleton, hid]
      exact List.mem_append_right _ (List.mem_singleton_self _)

/-- The row of a revision that is assigned. -/
def NewsEvents.joiningRow (sha : Bytes → String) (reader : TextReader) (compare : Comparison F) (now : ℤ)
    (revision : ArchivedNewsRevision) (s : NewsEvents F) : EventClusterMember F where
  clusterId := (s.assignTarget sha reader compare revision).1
  revisionId := revision.revision.revisionId
  relationship := (s.assignTarget sha reader compare revision).2.1
  mergeScore := (s.assignTarget sha reader compare revision).2.2
  active := true
  createdAt := now

/-- A revision is made a member of its target. -/
def NewsEvents.joining (sha : Bytes → String) (reader : TextReader) (compare : Comparison F) (now : ℤ)
    (revision : ArchivedNewsRevision) (s : NewsEvents F) : NewsEvents F :=
  (s.createCluster (s.assignTarget sha reader compare revision).1
    { revision := revision.revision, sourceId := revision.document.sourceId }).insertMember
      (s.joiningRow sha reader compare now revision)

theorem joining_relocated (hs : ClustersOK s) {compare : Comparison F} {now : ℤ} {id : String}
    {revision : ArchivedNewsRevision} (h : s.Assigns id revision) :
    Relocated s (s.joining sha reader compare now revision) (s.assignTarget sha reader compare revision).1
      [s.joiningRow sha reader compare now revision] := by
  obtain ⟨hids, hkept, hstored⟩ := createCluster_ids hs (s.assignTarget sha reader compare revision).1
    { revision := revision.revision, sourceId := revision.document.sourceId }
  have hjoining : s.joining sha reader compare now revision = { s with
      clusters := (s.createCluster (s.assignTarget sha reader compare revision).1
        { revision := revision.revision, sourceId := revision.document.sourceId }).clusters
      members := s.members ++ [s.joiningRow sha reader compare now revision] } := by
    unfold NewsEvents.joining insertMember
    rw [createCluster_same]
  have hfresh : revision.revision.revisionId ∉ revisionIds (actives s.members) := by
    rw [h.revisionId]
    exact memberForRevision_none h.1
  rw [hjoining]
  refine ⟨rfl, rfl, rfl, rfl, hids, hkept, hstored, ?_, ?_, List.nodup_singleton _, ?_⟩
  · rw [actives_append]
    congr 1
    refine (List.filter_eq_self.2 fun m hm => ?_).symm
    rw [decide_eq_true_eq]
    refine fun hmem => hfresh ?_
    have heq : m.revisionId = revision.revision.revisionId := List.mem_singleton.1 hmem
    exact heq ▸ List.mem_map_of_mem hm
  · intro m hm
    rw [List.mem_singleton.1 hm]
    refine ⟨rfl, ?_⟩
    show (s.cited revision.revision.revisionId).isSome
    unfold NewsEvents.cited
    rw [h.revisionId, h.2]
    rfl
  · intro m hm
    exact ⟨m, hm, rfl, rfl⟩

/-- The best match of a revision is in the cluster of a member. -/
theorem bestMatch_active {compare : Comparison F} {revision : ArchivedNewsRevision} {clusterId : String}
    {decision : PairDecision F} (h : s.bestMatch compare revision = some (clusterId, decision)) :
    ∃ m ∈ actives s.members, m.clusterId = clusterId := by
  have hall : ∀ best ∈ s.bestMatch compare revision, ∃ m ∈ actives s.members, m.clusterId = best.1 := by
    unfold bestMatch
    refine List.foldlRecOn (motive := fun found : Option (String × PairDecision F) => ∀ best ∈ found,
      ∃ m ∈ actives s.members, m.clusterId = best.1) _ _ (fun best hbest => by cases hbest)
      fun best ih candidate _ => ?_
    split
    · exact ih
    · split
      · exact ih
      · rename_i m hm
        intro found hfound
        simp only at hfound
        split at hfound
        · cases hfound
          exact ⟨m, (memberForRevision_some hm).1, rfl⟩
        · exact ih found hfound
  exact hall _ h

/-- The store after a revision was assigned. -/
def NewsEvents.assigning (sha : Bytes → String) (reader : TextReader) (compare : Comparison F) (now : ℤ)
    (revision : ArchivedNewsRevision) (s : NewsEvents F) : NewsEvents F :=
  let target := s.assignTarget sha reader compare revision
  let joined := (s.joining sha reader compare now revision).refreshed reader target.1
  if target.2.1.corrects then
    joined.markDependentConclusions target.1 revision.revision.revisionId target.2.1
  else joined

/-- **An assignment** of a revision that is archived and in no cluster never fails. -/
theorem assignRevision_eq (hs : ClustersOK s) {compare : Comparison F} {now : ℤ} {id : String}
    {revision : ArchivedNewsRevision} (h : s.Assigns id revision) :
    ∃ sources, s.assignRevision sha reader compare now id = (.ok {
      clusterId := (s.assignTarget sha reader compare revision).1
      revisionId := revision.revision.revisionId
      relationship := (s.assignTarget sha reader compare revision).2.1
      independentSources := sources
      score := (s.assignTarget sha reader compare revision).2.2 },
      s.assigning sha reader compare now revision) := by
  have hrel := @joining_relocated _ sha reader _ _ hs compare now _ _ h
  obtain ⟨detail, hdetail⟩ := @refreshCluster_eq _ reader _ _ (hs.relocated hrel) _ hrel.stored
  refine ⟨detail.cluster.summary.independentSources, ?_⟩
  have hcreated : (if (s.bestMatch compare revision).isSome then s
      else s.createCluster (s.assignTarget sha reader compare revision).1
        { revision := revision.revision, sourceId := revision.document.sourceId }).insertMember
          (s.joiningRow sha reader compare now revision) = s.joining sha reader compare now revision := by
    unfold NewsEvents.joining
    cases hbest : s.bestMatch compare revision with
    | none => rfl
    | some best =>
      -- the cluster of a match is there, so creating it changes nothing
      obtain ⟨m, hm, hcluster⟩ := bestMatch_active hbest
      have htarget : (s.assignTarget sha reader compare revision).1 = best.1 := by
        unfold assignTarget
        rw [hbest]
      have hmem := mem_clusters_of_active hs hm
      rw [hcluster] at hmem
      rw [Option.isSome_some, if_pos rfl, htarget]
      rcases createCluster_cases best.1
        { revision := revision.revision, sourceId := revision.document.sourceId } s with ⟨-, hsame⟩ | ⟨hnew, -⟩
      · rw [hsame]
      · exact absurd hmem hnew
  unfold assignRevision
  rw [h.1, h.2]
  dsimp only
  erw [hcreated]
  rw [hdetail]
  rfl

/-- A merge that is not refused. -/
def NewsEvents.Merges (s : NewsEvents F) (fromId toId reason : String) : Prop :=
  fromId ≠ toId ∧ Text.trim reason ≠ "" ∧ fromId ∈ s.clusters.map (·.clusterId) ∧
    toId ∈ s.clusters.map (·.clusterId)

/-- The members of a cluster are made members of another one. -/
def NewsEvents.merging (clock : ℕ → ℤ) (fromId toId : String) (s : NewsEvents F) : NewsEvents F :=
  { s with
    members := moveMembers fromId toId clock (s.membersOf fromId) s.members
    clusters := Table.update (·.clusterId) fromId
      (fun c => { c with status := .merged, mergedIntoClusterId := some toId }) s.clusters }

/-- The rows that a merge adds. -/
def NewsEvents.mergedRows (clock : ℕ → ℤ) (fromId toId : String) (s : NewsEvents F) :
    List (EventClusterMember F) :=
  (s.membersOf fromId).zipIdx.map fun m => m.1.movedTo toId (clock m.2)

theorem revisionIds_mergedRows (clock : ℕ → ℤ) (fromId toId : String) :
    revisionIds (s.mergedRows clock fromId toId) = revisionIds (s.membersOf fromId) := by
  unfold revisionIds NewsEvents.mergedRows
  rw [List.map_map]
  show (s.membersOf fromId).zipIdx.map ((·.revisionId) ∘ Prod.fst) = _
  rw [← List.map_map, List.zipIdx_map_fst]

theorem mem_mergedRows {clock : ℕ → ℤ} {fromId toId : String} {m : EventClusterMember F}
    (h : m ∈ s.mergedRows clock fromId toId) : m.clusterId = toId ∧ m.active = true ∧
      ∃ m₀ ∈ s.membersOf fromId, m.revisionId = m₀.revisionId ∧ m.relationship = m₀.relationship := by
  obtain ⟨⟨m₀, n⟩, hm₀, rfl⟩ := List.mem_map.1 h
  exact ⟨rfl, rfl, m₀, List.fst_mem_of_mem_zipIdx hm₀, rfl, rfl⟩

theorem mem_moveMembers {fromId toId : String} {clock : ℕ → ℤ} {moved members : List (EventClusterMember F)} :
    ∀ m ∈ moveMembers fromId toId clock moved members,
      ∃ m₀ ∈ members ++ moved.zipIdx.map fun x => x.1.movedTo toId (clock x.2),
        m.clusterId = m₀.clusterId ∧ m.revisionId = m₀.revisionId := by
  unfold moveMembers
  refine List.foldlRecOn (motive := fun rows : List (EventClusterMember F) => ∀ m ∈ rows,
    ∃ m₀ ∈ members ++ moved.zipIdx.map fun x => x.1.movedTo toId (clock x.2),
      m.clusterId = m₀.clusterId ∧ m.revisionId = m₀.revisionId) _ _
    (fun m hm => ⟨m, List.mem_append_left _ hm, rfl, rfl⟩) fun rows ih x hx m hm => ?_
  unfold moveMember at hm
  rcases List.mem_append.1 hm with hm | hm
  · obtain ⟨m₁, hm₁, hcluster, hid⟩ := mem_deactivate hm
    obtain ⟨m₀, hm₀, hcluster₀, hid₀⟩ := ih m₁ hm₁
    exact ⟨m₀, hm₀, hcluster.trans hcluster₀, hid.trans hid₀⟩
  · rw [List.mem_singleton.1 hm]
    exact ⟨_, List.mem_append_right _ (List.mem_map_of_mem hx), rfl, rfl⟩

theorem merging_relocated (hs : ClustersOK s) {clock : ℕ → ℤ} {fromId toId reason : String}
    (h : s.Merges fromId toId reason) :
    Relocated s (s.merging clock fromId toId) toId (s.mergedRows clock fromId toId) := by
  obtain ⟨hne, -, -, hto⟩ := h
  have hids : (s.merging clock fromId toId).clusters.map (·.clusterId) = s.clusters.map (·.clusterId) :=
    Table.map_key_update EventCluster.clusterId fun _ => rfl
  refine ⟨rfl, rfl, rfl, rfl, hids ▸ hs.ids, hids ▸ List.Subset.refl _, hids ▸ hto, ?_, ?_, ?_, ?_⟩
  · show actives (moveMembers fromId toId clock (s.membersOf fromId) s.members) = _
    unfold moveMembers
    rw [actives_moveMembers hne.symm clock (s.membersOf fromId) 0 s.members]
    congr 1
    refine List.filter_congr fun m hm => ?_
    rw [revisionIds_mergedRows]
    by_cases hmoved : m.revisionId ∈ revisionIds (s.membersOf fromId)
    · -- a moved revision has no other active row than that of the cluster
      obtain ⟨m', hm', heq⟩ := List.mem_map.1 hmoved
      obtain ⟨hactive, hfrom⟩ := mem_membersOf.1 hm'
      rw [active_unique hs hactive hm heq] at hfrom
      simp [hfrom, hmoved]
    · simp [hmoved]
  · intro m hm
    obtain ⟨hcluster, -, m₀, hm₀, hid, -⟩ := mem_mergedRows hm
    refine ⟨hcluster, ?_⟩
    rw [hid]
    exact hs.cited m₀ (List.mem_filter.1 (mem_membersOf.1 hm₀).1).1
  · rw [revisionIds_mergedRows]
    exact revisionIds_membersOf_nodup hs fromId
  · exact mem_moveMembers

/-- **A merge** that is not refused never fails. -/
theorem manualMerge_eq (hs : ClustersOK s) {clock : ℕ → ℤ} {fromId toId reason : String}
    (h : s.Merges fromId toId reason) :
    (s.manualMerge reader clock fromId toId reason).2 = (s.merging clock fromId toId).refreshed reader toId := by
  have hrel := @merging_relocated _ _ _ hs clock _ _ _ h
  obtain ⟨_, hrefresh⟩ := @refreshCluster_eq _ reader _ _ (hs.relocated hrel) _ hrel.stored
  obtain ⟨hne, hreason, hfrom, hto⟩ := h
  obtain ⟨source, hsource⟩ := clusterDetail_ok hfrom
  obtain ⟨_, htarget⟩ := clusterDetail_ok hto
  have hmembers : source.members = s.membersOf fromId := by
    unfold clusterDetail at hsource
    split at hsource
    · cases hsource
    · cases hsource
      rfl
  unfold manualMerge
  rw [if_neg (not_or.2 ⟨hne, hreason⟩), hsource, htarget]
  simp only [hmembers]
  show (NewsEvents.refreshCluster reader toId (s.merging clock fromId toId)).2 = _
  rw [hrefresh]

theorem manualMerge_refused {clock : ℕ → ℤ} {fromId toId reason : String}
    (h : ¬ s.Merges fromId toId reason) : (s.manualMerge reader clock fromId toId reason).2 = s := by
  have hstored : ∀ {id : String} {detail : EventClusterDetail F}, s.clusterDetail id = .ok detail →
      id ∈ s.clusters.map (·.clusterId) := by
    intro id detail hdetail
    unfold clusterDetail at hdetail
    cases hfind : s.cluster id with
    | none =>
      rw [hfind] at hdetail
      cases hdetail
    | some c => exact List.mem_map.2 ⟨c, Table.mem_of_find hfind, Table.key_of_find hfind⟩
  unfold manualMerge
  split
  · rfl
  · rename_i hvalid
    obtain ⟨hne, hreason⟩ := not_or.1 hvalid
    cases hfrom : s.clusterDetail fromId with
    | error message => rfl
    | ok source =>
      cases hto : s.clusterDetail toId with
      | error message => rfl
      | ok target => exact absurd ⟨hne, hreason, hstored hfrom, hstored hto⟩ h

/-- A split that is not refused, of a revision that is a member with the row `old`. -/
def NewsEvents.Splits (s : NewsEvents F) (id reason : String) (old : EventClusterMember F)
    (revision : CitedRevision) : Prop :=
  Text.trim reason ≠ "" ∧ s.memberForRevision id = some old ∧ s.cited id = some revision

def NewsEvents.splitRow (sha : Bytes → String) (clock : ℕ → ℤ) (id : String) : EventClusterMember F where
  clusterId := splitTarget sha clock id
  revisionId := id
  relationship := .firstPublication
  mergeScore := F64.lit 1
  active := true
  createdAt := clock 1

/-- A member is made the member of a cluster of its own. -/
def NewsEvents.splitting (sha : Bytes → String) (clock : ℕ → ℤ) (id : String) (revision : CitedRevision)
    (s : NewsEvents F) : NewsEvents F :=
  { s.createCluster (splitTarget sha clock id) revision with
    members := deactivate (fun m => m.revisionId = id) s.members ++ [splitRow sha clock id] }

theorem splitting_relocated (hs : ClustersOK s) {clock : ℕ → ℤ} {id reason : String}
    {old : EventClusterMember F} {revision : CitedRevision} (h : s.Splits id reason old revision) :
    Relocated s (s.splitting sha clock id revision) (splitTarget sha clock id) [splitRow sha clock id] := by
  obtain ⟨hids, hkept, hstored⟩ := createCluster_ids hs (splitTarget sha clock id) revision
  have hsplitting : s.splitting sha clock id revision = { s with
      clusters := (s.createCluster (splitTarget sha clock id) revision).clusters
      members := deactivate (fun m => m.revisionId = id) s.members ++ [splitRow sha clock id] } := by
    unfold NewsEvents.splitting
    rw [createCluster_same]
  rw [hsplitting]
  refine ⟨rfl, rfl, rfl, rfl, hids, hkept, hstored, ?_, ?_, List.nodup_singleton _, ?_⟩
  · rw [actives_append, actives_deactivate]
    congr 1
    refine List.filter_congr fun m _ => ?_
    simp [revisionIds, NewsEvents.splitRow]
  · intro m hm
    rw [List.mem_singleton.1 hm]
    refine ⟨rfl, ?_⟩
    show (s.cited id).isSome
    rw [h.2.2]
    rfl
  · intro m hm
    rcases List.mem_append.1 hm with hm | hm
    · obtain ⟨m₀, hm₀, hsame⟩ := mem_deactivate hm
      exact ⟨m₀, List.mem_append_left _ hm₀, hsame⟩
    · exact ⟨m, List.mem_append_right _ hm, rfl, rfl⟩

/-- **A split** that is not refused never fails. -/
theorem manualSplit_eq (hs : ClustersOK s) {clock : ℕ → ℤ} {id reason : String}
    {old : EventClusterMember F} {revision : CitedRevision} (h : s.Splits id reason old revision) :
    (s.manualSplit sha reader clock id reason).2 =
      ((s.splitting sha clock id revision).refreshed reader old.clusterId).refreshed reader
        (splitTarget sha clock id) := by
  have hrel := @splitting_relocated _ sha _ _ hs clock _ _ _ _ h
  have hold : old.clusterId ∈ (s.splitting sha clock id revision).clusters.map (·.clusterId) :=
    hrel.kept (mem_clusters_of_active hs (memberForRevision_some h.2.1).1)
  obtain ⟨_, hfirst⟩ := @refreshCluster_eq _ reader _ _ (hs.relocated hrel) _ hold
  have hstored : splitTarget sha clock id ∈
      ((s.splitting sha clock id revision).refreshed reader old.clusterId).clusters.map (·.clusterId) := by
    rw [refreshed_ids]
    exact hrel.stored
  obtain ⟨_, hsecond⟩ := @refreshCluster_eq _ reader _ _ ((hs.relocated hrel).refreshed old.clusterId) _ hstored
  have hsplitting : { s.createCluster (splitTarget sha clock id) revision with
      members := deactivate (fun m => m.revisionId = id)
        (s.createCluster (splitTarget sha clock id) revision).members ++ [splitRow sha clock id] } =
      s.splitting sha clock id revision := by
    unfold NewsEvents.splitting
    rw [createCluster_same]
  unfold manualSplit
  rw [if_neg h.1, h.2.1, h.2.2]
  dsimp only
  erw [hsplitting]
  rw [hfirst]
  simp only
  rw [hsecond]

theorem manualSplit_refused {clock : ℕ → ℤ} {id reason : String}
    (h : ∀ old revision, ¬ s.Splits id reason old revision) :
    (s.manualSplit sha reader clock id reason).2 = s := by
  unfold manualSplit
  split
  · rfl
  · rename_i hreason
    cases hmember : s.memberForRevision id with
    | none => rfl
    | some old =>
      cases hcited : s.cited id with
      | none => rfl
      | some revision => exact absurd ⟨hreason, hmember, hcited⟩ (h old revision)

/-- What a call does. -/
inductive ClusterStep (sha : Bytes → String) (reader : TextReader) (s : NewsEvents F) :
    NewsCall F → NewsEvents F → Prop
  | archived (call : UpsertCall) :
      ClusterStep sha reader s (.archive call) { s with archive := s.archive.after sha call }
  | cited {taskId conclusionKey revisionId} (refs : List EvidenceRef) (h : s.evidenceRefs ⊆ refs) :
      ClusterStep sha reader s (.cite taskId conclusionKey revisionId) { s with evidenceRefs := refs }
  | assignRefused {compare now id} (h : ∀ revision, ¬ s.Assigns id revision) :
      ClusterStep sha reader s (.assign compare now id) s
  | assigned {compare now id revision} (h : s.Assigns id revision) :
      ClusterStep sha reader s (.assign compare now id) (s.assigning sha reader compare now revision)
  | mergeRefused {clock fromId toId reason} (h : ¬ s.Merges fromId toId reason) :
      ClusterStep sha reader s (.merge clock fromId toId reason) s
  | merged {clock fromId toId reason} (h : s.Merges fromId toId reason) :
      ClusterStep sha reader s (.merge clock fromId toId reason)
        ((s.merging clock fromId toId).refreshed reader toId)
  | splitRefused {clock id reason} (h : ∀ old revision, ¬ s.Splits id reason old revision) :
      ClusterStep sha reader s (.split clock id reason) s
  | split {clock id reason old revision} (h : s.Splits id reason old revision) :
      ClusterStep sha reader s (.split clock id reason)
        (((s.splitting sha clock id revision).refreshed reader old.clusterId).refreshed reader
          (splitTarget sha clock id))

theorem assignRevision_refused {compare : Comparison F} {now : ℤ} {id : String}
    (h : ∀ revision, ¬ s.Assigns id revision) : (s.assignRevision sha reader compare now id).2 = s := by
  unfold assignRevision
  cases hmember : s.memberForRevision id with
  | some existing =>
    simp only
    cases s.cluster existing.clusterId <;> rfl
  | none =>
    cases hrevision : s.archive.revision id with
    | none => rfl
    | some revision => exact absurd ⟨hmember, hrevision⟩ (h revision)

/-- **Each call** is such a step. -/
theorem cluster_step (hs : ClustersOK s) (call : NewsCall F) :
    ClusterStep sha reader s call (s.after sha reader call) := by
  cases call with
  | archive call => exact .archived call
  | assign compare now id =>
    by_cases h : ∃ revision, s.Assigns id revision
    · obtain ⟨revision, h⟩ := h
      obtain ⟨_, heq⟩ := @assignRevision_eq _ sha reader _ _ hs compare now _ _ h
      show ClusterStep sha reader s _ (s.assignRevision sha reader compare now id).2
      rw [heq]
      exact .assigned h
    · have hrefused := not_exists.1 h
      show ClusterStep sha reader s _ (s.assignRevision sha reader compare now id).2
      rw [assignRevision_refused hrefused]
      exact .assignRefused hrefused
  | merge clock fromId toId reason =>
    by_cases h : s.Merges fromId toId reason
    · show ClusterStep sha reader s _ (s.manualMerge reader clock fromId toId reason).2
      rw [manualMerge_eq hs h]
      exact .merged h
    · show ClusterStep sha reader s _ (s.manualMerge reader clock fromId toId reason).2
      rw [manualMerge_refused h]
      exact .mergeRefused h
  | split clock id reason =>
    by_cases h : ∃ old revision, s.Splits id reason old revision
    · obtain ⟨old, revision, h⟩ := h
      show ClusterStep sha reader s _ (s.manualSplit sha reader clock id reason).2
      rw [manualSplit_eq hs h]
      exact .split h
    · have hrefused : ∀ old revision, ¬ s.Splits id reason old revision := fun old revision hsplits =>
        h ⟨old, revision, hsplits⟩
      show ClusterStep sha reader s _ (s.manualSplit sha reader clock id reason).2
      rw [manualSplit_refused hrefused]
      exact .splitRefused hrefused
  | cite taskId conclusionKey revisionId =>
    obtain ⟨refs, hrefs, heq⟩ := @agentEvidenceLink_eq _ s taskId conclusionKey revisionId
    show ClusterStep sha reader s _ (s.agentEvidenceLink taskId conclusionKey revisionId).2
    rw [heq]
    exact .cited refs hrefs

/-- The tables but the reviews of conclusions are as before. -/
theorem ClustersOK.with_reviews (hs : ClustersOK s) (reviews : List AgentConclusionReview) :
    ClustersOK { s with reviews := reviews } :=
  ⟨hs.owned, hs.ids, hs.single, hs.assigned, hs.clusters, hs.cited⟩

/-- An assignment relocates the revision, refreshes its cluster and marks conclusions at most. -/
theorem assigning_eq (compare : Comparison F) (now : ℤ) (revision : ArchivedNewsRevision) :
    ∃ reviews, s.assigning sha reader compare now revision =
      { (s.joining sha reader compare now revision).refreshed reader
          (s.assignTarget sha reader compare revision).1 with reviews := reviews } := by
  unfold NewsEvents.assigning
  simp only
  split
  · exact ⟨_, rfl⟩
  · exact ⟨_, rfl⟩

/-- **The keys and references** are kept by every call. -/
theorem ClustersOK.step (hs : ClustersOK s) {call : NewsCall F} (h : ClusterStep sha reader s call t) :
    ClustersOK t := by
  cases h with
  | archived call =>
    refine ⟨hs.owned.after call, hs.ids, hs.single, hs.assigned, hs.clusters, fun m hm => ?_⟩
    obtain ⟨c, hc⟩ := Option.isSome_iff_exists.1 (hs.cited m hm)
    rw [cited_after hs.owned hc]
    rfl
  | cited refs _ => exact ⟨hs.owned, hs.ids, hs.single, hs.assigned, hs.clusters, hs.cited⟩
  | assignRefused _ => exact hs
  | @assigned compare now _ revision h =>
    obtain ⟨reviews, heq⟩ := @assigning_eq _ sha reader s _ compare now revision
    rw [heq]
    exact ((hs.relocated (joining_relocated hs h)).refreshed _).with_reviews reviews
  | mergeRefused _ => exact hs
  | merged h => exact (hs.relocated (merging_relocated hs h)).refreshed _
  | splitRefused _ => exact hs
  | split h => exact ((hs.relocated (splitting_relocated hs h)).refreshed _).refreshed _

end

theorem clustersOK_empty : ClustersOK ({} : NewsEvents F) where
  owned := ⟨fun _ hr => absurd hr List.not_mem_nil⟩
  ids := List.nodup_nil
  single := List.nodup_nil
  assigned := fun _ hm => absurd hm List.not_mem_nil
  clusters := fun _ hm => absurd hm List.not_mem_nil
  cited := fun _ hm => absurd hm List.not_mem_nil

end Astock
