import Astock.Proof.RevisionOrder

/-!
# The review queue

The queue passes over the revisions that are not due and keeps the latest of the others, where a
snapshot keeps the latest and then looks at its status.

* `mem_revalidationDue`: what is queued.
* `queue_agrees_iff`: the queue and the snapshot agree exactly when no revision that is due is followed
  by one that is not.
-/

namespace Astock

open Prog Bitemporal

variable {F : Type} {digest : ℕ → String → String} {g : GraphStore F} {k : ℤ} {r r' : EdgeRevision F}

/-- A revision is queued when it is due and none of its identity that is due is of a higher rank. -/
theorem mem_revalidationDue (hg : g.WF digest) : r ∈ g.revalidationDue k ↔
    (r ∈ g.history ∧ r.stamp.Seen k k ∧ r.due k) ∧
      ∀ r' ∈ g.history, r'.stamp.Seen k k → r'.due k → r'.identityId = r.identityId →
        r'.rank ≤ r.rank := by
  have hload : ∀ x : EdgeRevision F, x ∈ (g.loadAsOfRevisions k k).filter (·.due k) ↔
      x ∈ g.history ∧ x.stamp.Seen k k ∧ x.due k := by
    intro x
    rw [List.mem_filter, mem_load, and_assoc]
  unfold GraphStore.revalidationDue
  rw [mem_selectLatest (load_inj hg fun x hx => ((hload x).1 hx).1), hload]
  refine and_congr_right fun _ => ⟨fun h r' hmem hseen hdue => h r' ((hload r').2 ⟨hmem, hseen, hdue⟩),
    fun h r' hr' => ?_⟩
  obtain ⟨hmem, hseen, hdue⟩ := (hload r').1 hr'
  exact h r' hmem hseen hdue

/-- An identity with a revision that is due has one in the queue. -/
theorem exists_queued (hmem : r ∈ g.history) (hseen : r.stamp.Seen k k) (hdue : r.due k) :
    ∃ r' ∈ g.revalidationDue k, r'.identityId = r.identityId :=
  (keepsLatest_selectLatest _).covers r (List.mem_filter.2 ⟨mem_load.2 ⟨hmem, hseen⟩, hdue⟩)

/-- An identity with a revision that is known and valid has one that counts. -/
theorem exists_current (hg : g.WF digest) (hmem : r ∈ g.history) (hseen : r.stamp.Seen k k) :
    ∃ r', g.Current k k r' ∧ r'.identityId = r.identityId := by
  obtain ⟨r', hr', hid⟩ := (keepsLatest_selectLatest _).covers r (mem_load.2 ⟨hmem, hseen⟩)
  exact ⟨r', (mem_selected hg).1 hr', hid⟩

theorem GraphStore.Current.unique (hg : g.WF digest) (h : g.Current k k r) (h' : g.Current k k r')
    (hid : r.identityId = r'.identityId) : r = r' := by
  refine history_inj hg h.mem h'.mem hid (le_antisymm ?_ ?_)
  · exact h'.latest r h.mem h.seen hid
  · exact h.latest r' h'.mem h'.seen hid.symm

/-- The queue holds the revisions that count and are due. -/
def GraphStore.QueueAgrees (g : GraphStore F) (k : ℤ) : Prop :=
  ∀ r, r ∈ g.revalidationDue k ↔ g.Current k k r ∧ r.due k

/-- No revision that is due is followed by one that is not: the one of the highest rank of its identity
is due too. -/
def GraphStore.NoneFollowed (g : GraphStore F) (k : ℤ) : Prop :=
  ∀ r ∈ g.history, r.stamp.Seen k k → r.due k →
    ∀ r', g.Current k k r' → r'.identityId = r.identityId → r'.due k

theorem queueAgrees_iff (hg : g.WF digest) : g.QueueAgrees k ↔ g.NoneFollowed k := by
  constructor
  · intro hagrees r hmem hseen hdue r' hr' hid
    obtain ⟨queued, hqueued, hidq⟩ := exists_queued hmem hseen hdue
    obtain ⟨hcurrent, hdueq⟩ := (hagrees queued).1 hqueued
    obtain rfl := hr'.unique hg hcurrent (hid.trans hidq.symm)
    exact hdueq
  · intro hnone r
    rw [mem_revalidationDue hg]
    constructor
    · rintro ⟨⟨hmem, hseen, hdue⟩, hlatest⟩
      -- the one that counts is due, so it is not above the one in the queue
      obtain ⟨r', hr', hid⟩ := exists_current hg hmem hseen
      have hdue' := hnone r hmem hseen hdue r' hr' hid
      have hle := hlatest r' hr'.mem hr'.seen hdue' hid
      have hge := hr'.latest r hmem hseen hid.symm
      obtain rfl := history_inj hg hmem hr'.mem hid.symm (le_antisymm hge hle)
      exact ⟨hr', hdue⟩
    · rintro ⟨hcurrent, hdue⟩
      exact ⟨⟨hcurrent.mem, hcurrent.seen, hdue⟩,
        fun r' hmem hseen _ hid => hcurrent.latest r' hmem hseen hid⟩

theorem history_revisionId_inj (hg : g.WF digest) (hr : r ∈ g.history) (hr' : r' ∈ g.history)
    (hid : r.revisionId = r'.revisionId) : r = r' := by
  obtain ⟨row, hrow, hjoin⟩ := mem_graph_history.1 hr
  obtain ⟨row', hrow', hjoin'⟩ := mem_graph_history.1 hr'
  have hrows : row = row' := by
    refine List.inj_on_of_nodup_map hg.revisions hrow hrow' ?_
    obtain ⟨i, -, rfl⟩ := Option.map_eq_some_iff.1 hjoin
    obtain ⟨i', -, rfl⟩ := Option.map_eq_some_iff.1 hjoin'
    exact hid
  rw [hrows, hjoin'] at hjoin
  exact (Option.some.inj hjoin).symm

variable [F64 F]

/-- The revisions that a snapshot of `k` and `k` selects are those that count. -/
theorem mem_revisionIds (hg : g.WF digest) (hr : r ∈ g.history) :
    r.revisionId ∈ (g.snapshotAt digest k k).revisionIds ↔ g.Current k k r := by
  unfold GraphStore.snapshotAt buildSnapshot
  dsimp only
  rw [List.mem_insertionSort, List.mem_map]
  constructor
  · rintro ⟨r', hr', hid⟩
    have hcurrent := (mem_selected hg).1 hr'
    rwa [← history_revisionId_inj hg hcurrent.mem hr hid]
  · exact fun h => ⟨r, (mem_selected hg).2 h, rfl⟩

/-- **The queue and the graph agree** exactly when no revision that is due is followed by one of a
higher rank that is not. What the queue is compared with is what the graph of the same time selects. -/
theorem queue_agrees_iff (digest : ℕ → String → String) (g : GraphStore F) (hg : g.Reachable digest)
    (k : ℤ) : (g.QueueAgrees k ↔ g.NoneFollowed k) ∧
      ∀ now snapshot, (exec (graphAsOf digest now k k) g).1 = .ok snapshot →
        ∀ r ∈ g.history, r.revisionId ∈ snapshot.revisionIds ↔ g.Current k k r := by
  have hwf := reachable_wf hg
  refine ⟨queueAgrees_iff hwf, fun now snapshot h r hr => ?_⟩
  obtain ⟨-, -, rfl⟩ := graphAsOf_ok h
  exact mem_revisionIds hwf hr

/-- The report of 2025 follows that of 2024, which was not superseded. -/
def sales2025 : GraphStore ℚ := Run.run (GraphStore.after salesDigest) {}
  [.upsertNode supplier, .upsertNode customer, .upsertRevisionAt (annualSales "2024" 100 120 130),
    .upsertRevisionAt (annualSales "2025" 200 220 230)]

theorem sales2024_queue_agrees : sales2024.QueueAgrees 130 ↔ sales2024.NoneFollowed 130 :=
  (queue_agrees_iff salesDigest sales2024 ⟨_, rfl⟩ 130).1

/-- A year after the first report it is queued, though the second one is fresh. -/
theorem followed_report_queued :
    ¬ ∀ (g : GraphStore ℚ) (_ : g.Reachable salesDigest) (k : ℤ), g.QueueAgrees k := by
  intro h
  let k : ℤ := 130 + EvidenceSourceType.annualReport.revalidationDays * 86400
  have hqueued : ∃ r ∈ sales2025.revalidationDue k, ∃ r' ∈ sales2025.loadAsOfRevisions k k,
      r'.identityId = r.identityId ∧ ¬ r'.rank ≤ r.rank := by decide +kernel
  obtain ⟨r, hr, r', hr', hid, hrank⟩ := hqueued
  obtain ⟨hcurrent, -⟩ := (h sales2025 ⟨_, rfl⟩ k r).1 hr
  obtain ⟨hmem, hseen⟩ := mem_load.1 hr'
  exact hrank (hcurrent.latest r' hmem hseen hid)

end Astock
