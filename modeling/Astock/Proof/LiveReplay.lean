import Astock.Lib.Best
import Astock.Lib.Run
import Astock.Spec.Replay
import Astock.Proof.ClusterSteps

/-!
# Live clustering and its replay

* `bestMatch_eq`, `replayBest_eq`: both searches keep the best of their contenders, and decide
  equal scores in their own ways.
* `Mirrors`: the members of the store are the assignments of the replay so far.
* `live_replays`: **the live assignments are those of the replay**, as long as the earlier documents
  that match best are of one cluster and give one relationship.
-/

namespace Astock

open NewsArchive NewsEvents Run

variable {F : Type} [F64 F] {sha : Bytes → String} {reader : TextReader} {s t : NewsEvents F}
  {judge : Similarity F} {call : LabeledDocument → UpsertCall} {documents : List LabeledDocument}

/-! ## Contenders -/

/-- What a candidate offers to a revision: its cluster, when the revision matches it. -/
def NewsEvents.contender (compare : Comparison F) (s : NewsEvents F)
    (revision candidate : ArchivedNewsRevision) : Option (String × PairDecision F) :=
  if candidate.revision.revisionId = revision.revision.revisionId then none
  else
    match s.memberForRevision candidate.revision.revisionId with
    | none => none
    | some m =>
      if (compare revision candidate).merge then some (m.clusterId, compare revision candidate)
      else none

theorem bestMatch_eq (compare : Comparison F) (s : NewsEvents F) (revision : ArchivedNewsRevision) :
    s.bestMatch compare revision = Best.pick (fun a b => F64.lt b.2.score a.2.score)
      ((s.archive.allRevisions 5000).filterMap (s.contender compare revision)) := by
  unfold bestMatch Best.pick
  rw [List.foldl_filterMap]
  congr 1
  funext best candidate
  unfold NewsEvents.contender
  by_cases hself : candidate.revision.revisionId = revision.revision.revisionId
  · simp [hself]
  · rw [if_neg hself, if_neg hself]
    cases s.memberForRevision candidate.revision.revisionId with
    | none => rfl
    | some m => cases hmerge : (compare revision candidate).merge <;> simp [hmerge]

/-- What an earlier document offers in a replay. -/
def replayContender (sha : Bytes → String) (judge : Similarity F) (current : LabeledDocument)
    (previous : LabeledDocument × ReplayAssignment F) :
    Option ((LabeledDocument × ReplayAssignment F) × PairDecision F) :=
  let decision := compareFingerprints judge (current.fingerprint sha) (previous.1.fingerprint sha)
  if decision.merge then some (previous, decision) else none

theorem replayBest_eq (current : LabeledDocument)
    (earlier : List (LabeledDocument × ReplayAssignment F)) :
    replayBest sha judge current earlier = Best.pick (fun a b => replayBetter a.1.1 a.2 b.1.1 b.2)
      (earlier.filterMap (replayContender sha judge current)) := by
  unfold replayBest Best.pick
  rw [List.foldl_filterMap]
  congr 1
  funext best previous
  unfold replayContender
  generalize compareFingerprints judge (current.fingerprint sha) (previous.1.fingerprint sha) = decision
  cases hmerge : decision.merge <;> simp [hmerge]

section

variable [LinearOrder F]

theorem lt_eq (hle : ∀ a b : F, F64.le a b = decide (a ≤ b)) (a b : F) :
    F64.lt a b = decide (a < b) := by
  unfold F64.lt
  rw [hle, hle, Bool.eq_iff_iff, decide_eq_true_eq, lt_iff_le_not_ge]
  simp only [Bool.and_eq_true, Bool.not_eq_true', decide_eq_true_eq, decide_eq_false_iff_not]

theorem live_improves (hle : ∀ a b : F, F64.le a b = decide (a ≤ b)) :
    Best.Improves (fun c : String × PairDecision F => c.2.score)
      (fun a b => F64.lt b.2.score a.2.score) where
  up := fun a b h => by
    rw [lt_eq hle, decide_eq_true_eq] at h
    exact h.le
  down := fun a b h => by
    rw [lt_eq hle, decide_eq_false_iff_not] at h
    exact not_lt.1 h

theorem replay_improves (hle : ∀ a b : F, F64.le a b = decide (a ≤ b)) :
    Best.Improves (fun c : (LabeledDocument × ReplayAssignment F) × PairDecision F => c.2.score)
      (fun a b => replayBetter a.1.1 a.2 b.1.1 b.2) where
  up := fun a b h => by
    unfold replayBetter at h
    rw [lt_eq hle, hle, hle] at h
    simp only [Bool.or_eq_true, Bool.and_eq_true, decide_eq_true_eq] at h
    rcases h with h | h
    · exact h.le
    · exact h.1.2
  down := fun a b h => by
    unfold replayBetter at h
    rw [lt_eq hle] at h
    simp only [Bool.or_eq_false_iff, decide_eq_false_iff_not] at h
    exact not_lt.1 h.1

end

/-! ## Recording -/

/-- What is archived of a document by the call that is its first. -/
def UpsertCall.archived (sha : Bytes → String) (call : UpsertCall) : ArchivedNewsRevision where
  document := { observed sha call.now call.input none with
    currentRevisionId := some (call.input.revisionId sha)
    contentHash := call.input.contentHash sha }
  revision := candidate sha call.now call.input none

/-- The documents are archived as one revision each, whose id is that of the document. -/
structure ArchivedOnce (sha : Bytes → String) (call : LabeledDocument → UpsertCall)
    (documents : List LabeledDocument) : Prop where
  ids : (documents.map (·.id)).Nodup
  valid : ∀ d ∈ documents, (call d).input.validate = .ok ()
  revisionId : ∀ d ∈ documents, (call d).input.revisionId sha = d.id
  single : ∀ d ∈ documents, ∀ e ∈ documents,
    (call d).input.documentId sha = (call e).input.documentId sha → d = e

/-- The archive holds these documents. -/
structure ArchiveOf (sha : Bytes → String) (call : LabeledDocument → UpsertCall)
    (recorded : List LabeledDocument) (archive : NewsArchive) : Prop where
  owned : Owned archive
  revisions : archive.revisions = recorded.map fun d => ((call d).archived sha).revision
  document : ∀ d ∈ recorded,
    archive.document ((call d).input.documentId sha) = some ((call d).archived sha).document
  others : ∀ id, (∀ d ∈ recorded, (call d).input.documentId sha ≠ id) → archive.document id = none

theorem ArchiveOf.joined {recorded : List LabeledDocument} {archive : NewsArchive}
    (h : ArchiveOf sha call recorded archive) :
    archive.joined = recorded.map fun d => (call d).archived sha := by
  unfold NewsArchive.joined
  rw [h.revisions, List.filterMap_map, ← List.filterMap_eq_map]
  refine List.filterMap_congr fun d hd => ?_
  have hdocument := h.document d hd
  show (archive.document ((call d).input.documentId sha)).map _ = _
  rw [hdocument]
  rfl

/-- **Recording a document** adds it to the archive. -/
theorem ArchiveOf.after {documents recorded : List LabeledDocument} {archive : NewsArchive}
    (harchived : ArchivedOnce sha call documents) (h : ArchiveOf sha call recorded archive)
    (hsub : recorded ⊆ documents) {d : LabeledDocument} (hd : d ∈ documents) (hnew : d ∉ recorded) :
    ArchiveOf sha call (recorded ++ [d]) (archive.after sha (call d)) := by
  have hapart : ∀ e ∈ recorded, (call e).input.documentId sha ≠ (call d).input.documentId sha :=
    fun e he heq => hnew (harchived.single e (hsub he) d hd heq ▸ he)
  have hnone : archive.document ((call d).input.documentId sha) = none := h.others _ hapart
  have hproposed : archive.proposed sha (call d) = ((call d).archived sha).revision := by
    unfold NewsArchive.proposed
    rw [hnone]
    rfl
  have hwritten : archive.written sha (call d) = observed sha (call d).now (call d).input none := by
    unfold NewsArchive.written
    rw [hnone]
  have hother : ∀ id, id ≠ (call d).input.documentId sha →
      (archive.after sha (call d)).document id = archive.document id := fun id hid =>
    document_after_other (harchived.valid d hd) hid
  rcases after_cases sha archive (call d) (harchived.valid d hd) with
    ⟨hhas, -, -⟩ | ⟨-, hrevisions, hdocument⟩
  · -- a stored revision with this id or of this document would be of another document
    obtain ⟨r, hr, hsame⟩ := List.any_eq_true.1 hhas
    rw [h.revisions] at hr
    obtain ⟨e, he, rfl⟩ := List.mem_map.1 hr
    rw [hproposed] at hsame
    simp only [Bool.or_eq_true, Bool.and_eq_true, decide_eq_true_eq] at hsame
    rcases hsame with hid | ⟨hdoc, -⟩
    · have hid : (call e).input.revisionId sha = (call d).input.revisionId sha := hid
      rw [harchived.revisionId e (hsub he), harchived.revisionId d hd] at hid
      have heq := List.inj_on_of_nodup_map harchived.ids (hsub he) hd hid
      exact absurd (heq ▸ he) hnew
    · exact absurd hdoc (hapart e he)
  · refine ⟨h.owned.after (call d), ?_, fun e he => ?_, fun id hid => ?_⟩
    · rw [hrevisions, h.revisions, hproposed, List.map_append]
      rfl
    · rcases List.mem_append.1 he with he | he
      · rw [hother _ (hapart e he)]
        exact h.document e he
      · rw [List.mem_singleton.1 he, hdocument, hwritten]
        rfl
    · rw [hother id (hid d (List.mem_append_right _ List.mem_cons_self)).symm]
      exact h.others id fun e he => hid e (List.mem_append_left _ he)

theorem archiveOf_empty : ArchiveOf sha call [] {} where
  owned := ⟨fun _ hr => absurd hr List.not_mem_nil⟩
  revisions := rfl
  document := fun _ hd => absurd hd List.not_mem_nil
  others := fun _ _ => rfl

/-- What is archived of a document has its title, its summary, its address and its time, and two of
these have the same content as the documents have. -/
structure Agrees (sha : Bytes → String) (call : LabeledDocument → UpsertCall)
    (documents : List LabeledDocument) : Prop where
  title : ∀ d ∈ documents, (call d).input.title = d.title
  summary : ∀ d ∈ documents, (call d).input.factualSummary = d.summary
  url : ∀ d ∈ documents, (call d).input.canonicalUrl = d.url
  eventTime : ∀ d ∈ documents, (call d).input.eventTime.utc = d.eventTimeUtc
  content : ∀ d ∈ documents, ∀ e ∈ documents,
    sameContent (fingerprintRevision ((call d).archived sha)) (fingerprintRevision ((call e).archived sha)) =
      sameContent (d.fingerprint sha) (e.fingerprint sha)

omit [F64 F] in
/-- **The comparisons agree** on documents that have a time. -/
theorem Agrees.compare (h : Agrees sha call documents)
    (htimed : ∀ d ∈ documents, d.eventTimeUtc.isSome) {d e : LabeledDocument} (hd : d ∈ documents)
    (he : e ∈ documents) :
    compareRevisions judge ((call d).archived sha) ((call e).archived sha) =
      compareFingerprints judge (d.fingerprint sha) (e.fingerprint sha) := by
  have htext : ∀ x ∈ documents,
      (fingerprintRevision ((call x).archived sha)).text = (x.fingerprint sha).text := by
    intro x hx
    show FingerprintText.mk (call x).input.title (call x).input.factualSummary
      (call x).input.canonicalUrl ((call x).input.eventTime.utc.or (call x).input.publishTime.utc) = _
    obtain ⟨time, htime⟩ := Option.isSome_iff_exists.1 (htimed x hx)
    rw [h.title x hx, h.summary x hx, h.url x hx, h.eventTime x hx, htime, Option.some_or]
    unfold LabeledDocument.fingerprint
    rw [htime]
  unfold compareRevisions compareFingerprints
  rw [htext d hd, htext e he, h.content d hd e he]

/-- **The relationships agree.** -/
theorem Agrees.classify (h : Agrees sha call documents) {d : LabeledDocument} (hd : d ∈ documents)
    (fallback : DocumentRelationship) :
    classifyRelationship reader ((call d).archived sha).revision fallback =
      classifyRelationship reader (d.labeledRevision sha).revision fallback := by
  have htitle : ((call d).archived sha).revision.title = (d.labeledRevision sha).revision.title :=
    h.title d hd
  have hsummary : ((call d).archived sha).revision.factualSummary =
      (d.labeledRevision sha).revision.factualSummary := h.summary d hd
  unfold classifyRelationship
  rw [htitle, hsummary]

/-! ## The live run -/

/-- What is compared of an assignment. -/
def ClusterAssignment.answer (a : ClusterAssignment F) : String × String × DocumentRelationship × F :=
  (a.revisionId, a.clusterId, a.relationship, a.score)

def ReplayAssignment.answer (a : ReplayAssignment F) : String × String × DocumentRelationship × F :=
  (a.documentId, a.eventClusterId, a.relationship, a.score)

theorem replayAssignment_documentId (current : LabeledDocument)
    (earlier : List (LabeledDocument × ReplayAssignment F)) :
    (replayAssignment sha reader judge current earlier).documentId = current.id := by
  unfold replayAssignment
  split
  · rfl
  · rfl

/-- Documents are recorded, and then one is assigned. -/
structure LiveStep where
  recorded : List LabeledDocument
  now : ℤ
  document : LabeledDocument

namespace NewsEvents

/-- The store after documents were recorded. -/
def recording (sha : Bytes → String) (reader : TextReader) (call : LabeledDocument → UpsertCall)
    (s : NewsEvents F) (documents : List LabeledDocument) : NewsEvents F :=
  run (fun s d => s.after sha reader (.archive (call d))) s documents

def liveStep (sha : Bytes → String) (reader : TextReader) (judge : Similarity F)
    (call : LabeledDocument → UpsertCall) (s : NewsEvents F) (step : LiveStep) :
    Except String (ClusterAssignment F) × NewsEvents F :=
  (s.recording sha reader call step.recorded).assignRevision sha reader (compareRevisions judge) step.now
    step.document.id

/-- What the assignments answer. -/
def liveAnswers (sha : Bytes → String) (reader : TextReader) (judge : Similarity F)
    (call : LabeledDocument → UpsertCall) :
    NewsEvents F → List LiveStep → List (Except String (ClusterAssignment F))
  | _, [] => []
  | s, step :: rest =>
    (s.liveStep sha reader judge call step).1 ::
      liveAnswers sha reader judge call (s.liveStep sha reader judge call step).2 rest

end NewsEvents

/-- The documents are assigned in the order of the replay, each recorded once and before it is
assigned. -/
structure Schedules (documents : List LabeledDocument) (steps : List LiveStep) : Prop where
  order : steps.map (·.document) = documents.insertionSort LabeledDocument.before
  recorded : (steps.flatMap (·.recorded)).Perm documents
  inTime : Along (fun recorded (step : LiveStep) => recorded ++ step.recorded)
    (fun recorded step => step.document ∈ recorded ++ step.recorded) [] steps

/-- The members of the store are the assignments of the replay so far. -/
structure Mirrors (sha : Bytes → String) (call : LabeledDocument → UpsertCall) (s : NewsEvents F)
    (recorded : List LabeledDocument) (earlier : List (LabeledDocument × ReplayAssignment F)) : Prop where
  ok : ClustersOK s
  archive : ArchiveOf sha call recorded s.archive
  members : (actives s.members).map (fun m => (m.revisionId, m.clusterId)) =
    earlier.map fun p => (p.1.id, p.2.eventClusterId)
  recorded : ∀ p ∈ earlier, p.1 ∈ recorded

/-- **Recording** keeps the members. -/
theorem Mirrors.recording (hcall : ArchivedOnce sha call documents)
    {earlier : List (LabeledDocument × ReplayAssignment F)} (batch : List LabeledDocument) :
    ∀ {s : NewsEvents F} {recorded : List LabeledDocument}, Mirrors sha call s recorded earlier →
      recorded ++ batch ⊆ documents → (recorded ++ batch).Nodup →
      Mirrors sha call (s.recording sha reader call batch) (recorded ++ batch) earlier := by
  induction batch with
  | nil =>
    intro s recorded h _ _
    rw [List.append_nil]
    exact h
  | cons d batch ih =>
    intro s recorded h hsub hnodup
    have hassoc : recorded ++ d :: batch = recorded ++ [d] ++ batch := by simp
    rw [hassoc] at hsub hnodup ⊢
    have hd : d ∈ documents := hsub (by simp)
    have hnew : d ∉ recorded := by
      intro hmem
      have happ := List.nodup_append.1 (List.nodup_append.1 hnodup).1
      exact happ.2.2 d hmem d (List.mem_singleton_self _) rfl
    have hok : ClustersOK (s.after sha reader (.archive (call d))) := h.ok.step (cluster_step h.ok _)
    refine ih ⟨hok, h.archive.after hcall (fun x hx => hsub ?_) hd hnew, h.members, fun p hp => ?_⟩
      hsub hnodup
    · exact List.mem_append_left _ (List.mem_append_left _ hx)
    · exact List.mem_append_left _ (h.recorded p hp)

/-! ## One assignment -/

section

variable {recorded : List LabeledDocument} {earlier : List (LabeledDocument × ReplayAssignment F)}
  {current : LabeledDocument}

/-- The ids tell the documents apart. -/
theorem ArchivedOnce.eq_of_id (h : ArchivedOnce sha call documents) {d e : LabeledDocument}
    (hd : d ∈ documents) (he : e ∈ documents) (hid : d.id = e.id) : d = e :=
  List.inj_on_of_nodup_map h.ids hd he hid

omit [F64 F] in
/-- An earlier document is an active member. -/
theorem Mirrors.member_iff (h : Mirrors sha call s recorded earlier) {id clusterId : String} :
    (∃ m, s.memberForRevision id = some m ∧ m.clusterId = clusterId) ↔
      ∃ p ∈ earlier, p.1.id = id ∧ p.2.eventClusterId = clusterId := by
  have hpair : (∃ m ∈ actives s.members, m.revisionId = id ∧ m.clusterId = clusterId) ↔
      ∃ p ∈ earlier, p.1.id = id ∧ p.2.eventClusterId = clusterId := by
    have hmem : (id, clusterId) ∈ (actives s.members).map (fun m => (m.revisionId, m.clusterId)) ↔
        (id, clusterId) ∈ earlier.map fun p => (p.1.id, p.2.eventClusterId) := by rw [h.members]
    simpa only [List.mem_map, Prod.mk.injEq] using hmem
  rw [← hpair]
  constructor
  · rintro ⟨m, hm, hcluster⟩
    exact ⟨m, (memberForRevision_some hm).1, (memberForRevision_some hm).2, hcluster⟩
  · rintro ⟨m, hm, rfl, hcluster⟩
    cases hfind : s.memberForRevision m.revisionId with
    | none => exact absurd (List.mem_map_of_mem hm) (memberForRevision_none hfind)
    | some m' =>
      obtain ⟨hm', hid⟩ := memberForRevision_some hfind
      refine ⟨m', rfl, ?_⟩
      rw [active_unique h.ok hm' hm hid]
      exact hcluster

/-- What the archived revisions offer to a revision. -/
def NewsEvents.contenders (judge : Similarity F) (s : NewsEvents F) (revision : ArchivedNewsRevision) :
    List (String × PairDecision F) :=
  s.archive.joined.filterMap (s.contender (compareRevisions judge) revision)

omit [F64 F] in
/-- **The contenders are those of the replay.** -/
theorem Mirrors.mem_contenders (hcall : ArchivedOnce sha call documents)
    (hagrees : Agrees sha call documents) (htimed : ∀ d ∈ documents, d.eventTimeUtc.isSome)
    (h : Mirrors sha call s recorded earlier) (hsub : recorded ⊆ documents) (hcurrent : current ∈ recorded)
    (hnew : ∀ p ∈ earlier, p.1 ≠ current) {c : String × PairDecision F} :
    c ∈ s.contenders judge ((call current).archived sha) ↔
      ∃ r ∈ earlier.filterMap (replayContender sha judge current), (r.1.2.eventClusterId, r.2) = c := by
  have hid : ∀ d ∈ recorded, ((call d).archived sha).revision.revisionId = d.id := fun d hd =>
    hcall.revisionId d (hsub hd)
  unfold NewsEvents.contenders
  rw [h.archive.joined, List.filterMap_map, List.mem_filterMap]
  simp only [List.mem_filterMap, Function.comp_apply]
  constructor
  · rintro ⟨d, hd, hoffer⟩
    unfold NewsEvents.contender at hoffer
    rw [hid d hd, hid current hcurrent, hagrees.compare htimed (hsub hcurrent) (hsub hd)] at hoffer
    split at hoffer
    · cases hoffer
    · split at hoffer
      · cases hoffer
      · rename_i m hm
        split at hoffer
        · rename_i hmerge
          obtain ⟨p, hp, hpid, hpcluster⟩ := h.member_iff.1 ⟨m, hm, rfl⟩
          have hdoc : p.1 = d := hcall.eq_of_id (hsub (h.recorded p hp)) (hsub hd) hpid
          refine ⟨(p, compareFingerprints judge (current.fingerprint sha) (p.1.fingerprint sha)),
            ⟨p, hp, ?_⟩, ?_⟩
          · unfold replayContender
            rw [hdoc]
            exact if_pos hmerge
          · rw [hpcluster, hdoc]
            exact Option.some.inj hoffer
        · cases hoffer
  · rintro ⟨r, ⟨p, hp, hoffer⟩, rfl⟩
    have hrecorded := h.recorded p hp
    unfold replayContender at hoffer
    simp only at hoffer
    split at hoffer
    · rename_i hmerge
      cases hoffer
      refine ⟨p.1, hrecorded, ?_⟩
      obtain ⟨m, hm, hcluster⟩ := h.member_iff.2 ⟨p, hp, rfl, rfl⟩
      have hne : p.1.id ≠ current.id := fun heq =>
        hnew p hp (hcall.eq_of_id (hsub hrecorded) (hsub hcurrent) heq)
      unfold NewsEvents.contender
      rw [hid p.1 hrecorded, hid current hcurrent, if_neg hne, hm,
        hagrees.compare htimed (hsub hcurrent) (hsub hrecorded)]
      simp only
      rw [if_pos hmerge, hcluster]
    · cases hoffer

/-- The listing leaves nothing out of a small archive. -/
theorem mem_allRevisions {archive : NewsArchive} (h : archive.revisions.length ≤ 5000)
    {r : ArchivedNewsRevision} : r ∈ archive.allRevisions 5000 ↔ r ∈ archive.joined := by
  unfold NewsArchive.allRevisions
  rw [List.take_of_length_le, List.mem_insertionSort, List.mem_reverse]
  rw [List.length_insertionSort, List.length_reverse]
  exact (List.length_filterMap_le _ _).trans h

variable [LinearOrder F]

/-- The revisions that match best are in one cluster, and give one relationship. -/
def NewsEvents.Undisputed (reader : TextReader) (judge : Similarity F) (s : NewsEvents F)
    (revision : ArchivedNewsRevision) : Prop :=
  ∀ a b, Best.IsBest (fun c => c.2.score) (s.contenders judge revision) a →
    Best.IsBest (fun c => c.2.score) (s.contenders judge revision) b →
      a.1 = b.1 ∧ classifyRelationship reader revision.revision a.2.relationship =
        classifyRelationship reader revision.revision b.2.relationship

/-- **The target** of an assignment is that of the replay. -/
theorem Mirrors.target (hle : ∀ a b : F, F64.le a b = decide (a ≤ b))
    (hcall : ArchivedOnce sha call documents) (hagrees : Agrees sha call documents)
    (htimed : ∀ d ∈ documents, d.eventTimeUtc.isSome) (h : Mirrors sha call s recorded earlier)
    (hsub : recorded ⊆ documents) (hcurrent : current ∈ recorded) (hnew : ∀ p ∈ earlier, p.1 ≠ current)
    (hfew : s.archive.revisions.length ≤ 5000)
    (hclear : s.Undisputed reader judge ((call current).archived sha)) :
    s.assignTarget sha reader (compareRevisions judge) ((call current).archived sha) =
      ((replayAssignment sha reader judge current earlier).eventClusterId,
        (replayAssignment sha reader judge current earlier).relationship,
        (replayAssignment sha reader judge current earlier).score) := by
  have hcontenders : ∀ c, c ∈ s.contenders judge ((call current).archived sha) ↔
      ∃ r ∈ earlier.filterMap (replayContender sha judge current), (r.1.2.eventClusterId, r.2) = c :=
    fun _ => h.mem_contenders hcall hagrees htimed hsub hcurrent hnew
  have hlisted : ∀ c, c ∈ (s.archive.allRevisions 5000).filterMap
      (s.contender (compareRevisions judge) ((call current).archived sha)) ↔
        c ∈ s.contenders judge ((call current).archived sha) := by
    intro c
    unfold NewsEvents.contenders
    simp only [List.mem_filterMap, mem_allRevisions hfew]
  unfold assignTarget replayAssignment
  rw [bestMatch_eq, replayBest_eq]
  cases hreplay : Best.pick (fun a b => replayBetter a.1.1 a.2 b.1.1 b.2)
      (earlier.filterMap (replayContender sha judge current)) with
  | none =>
    -- nothing matches on either side
    have hnone : (s.archive.allRevisions 5000).filterMap
        (s.contender (compareRevisions judge) ((call current).archived sha)) = [] := by
      refine List.eq_nil_iff_forall_not_mem.2 fun c hc => ?_
      obtain ⟨r, hr, -⟩ := (hcontenders c).1 ((hlisted c).1 hc)
      rw [Best.pick_eq_none_iff.1 hreplay] at hr
      cases hr
    rw [hnone]
    show (clusterIdFor sha ((call current).archived sha).revision.revisionId, _, _) = _
    rw [show ((call current).archived sha).revision.revisionId = current.id from
      hcall.revisionId current (hsub hcurrent)]
  | some r =>
    have hr := (replay_improves hle).isBest hreplay
    have hrmem := (hcontenders (r.1.2.eventClusterId, r.2)).2 ⟨r, hr.mem, rfl⟩
    -- the match of the replay is one of the best here
    have hrbest : Best.IsBest (fun c : String × PairDecision F => c.2.score)
        (s.contenders judge ((call current).archived sha)) (r.1.2.eventClusterId, r.2) := by
      refine ⟨hrmem, fun c hc => ?_⟩
      obtain ⟨r', hr', rfl⟩ := (hcontenders c).1 hc
      exact hr.max r' hr'
    cases hlive : Best.pick (fun a b => F64.lt b.2.score a.2.score)
        ((s.archive.allRevisions 5000).filterMap
          (s.contender (compareRevisions judge) ((call current).archived sha))) with
    | none =>
      have hmem := (hlisted _).2 hrmem
      rw [Best.pick_eq_none_iff.1 hlive] at hmem
      cases hmem
    | some c =>
      have hcbest := ((live_improves hle).isBest hlive).congr fun x => (hlisted x).symm
      obtain ⟨hcluster, hrelationship⟩ := hclear c _ hcbest hrbest
      have hscore : c.2.score = r.2.score :=
        le_antisymm (hrbest.max c hcbest.mem) (hcbest.max _ hrbest.mem)
      simp only
      rw [hcluster, hrelationship, hscore, hagrees.classify (hsub hcurrent)]

/-- **An assignment** answers what the replay does, and the members mirror the replay after it. -/
theorem Mirrors.assigned (hle : ∀ a b : F, F64.le a b = decide (a ≤ b))
    (hcall : ArchivedOnce sha call documents) (hagrees : Agrees sha call documents)
    (htimed : ∀ d ∈ documents, d.eventTimeUtc.isSome) (h : Mirrors sha call s recorded earlier)
    (hsub : recorded ⊆ documents) (hcurrent : current ∈ recorded) (hnew : ∀ p ∈ earlier, p.1 ≠ current)
    (hfew : s.archive.revisions.length ≤ 5000)
    (hclear : ∀ revision, s.archive.revision current.id = some revision → s.Undisputed reader judge revision)
    (now : ℤ) :
    (s.assignRevision sha reader (compareRevisions judge) now current.id).1.map ClusterAssignment.answer =
      .ok (replayAssignment sha reader judge current earlier).answer ∧
    Mirrors sha call (s.assignRevision sha reader (compareRevisions judge) now current.id).2 recorded
      (earlier ++ [(current, replayAssignment sha reader judge current earlier)]) := by
  have hdoc := hsub hcurrent
  have hid : ((call current).archived sha).revision.revisionId = current.id := hcall.revisionId current hdoc
  have hassigns : s.Assigns current.id ((call current).archived sha) := by
    constructor
    · cases hfind : s.memberForRevision current.id with
      | none => rfl
      | some m =>
        obtain ⟨p, hp, hpid, -⟩ := h.member_iff.1 ⟨m, hfind, rfl⟩
        exact absurd (hcall.eq_of_id (hsub (h.recorded p hp)) hdoc hpid) (hnew p hp)
    · cases hfind : s.archive.revision current.id with
      | none =>
        have hmem : (call current).archived sha ∈ s.archive.joined := by
          rw [h.archive.joined]
          exact List.mem_map_of_mem hcurrent
        exact absurd (decide_eq_true hid) (List.find?_eq_none.1 hfind _ hmem)
      | some r =>
        have hmem := List.mem_of_find?_eq_some hfind
        rw [h.archive.joined] at hmem
        obtain ⟨d, hd, rfl⟩ := List.mem_map.1 hmem
        have hfound := List.find?_some hfind
        have hrevision : (call d).input.revisionId sha = current.id := of_decide_eq_true hfound
        rw [hcall.revisionId d (hsub hd)] at hrevision
        rw [hcall.eq_of_id (hsub hd) hdoc hrevision]
  have htarget := h.target hle hcall hagrees htimed hsub hcurrent hnew hfew (hclear _ hassigns.2)
  have hrel := @joining_relocated _ sha reader _ _ h.ok (compareRevisions judge) now _ _ hassigns
  obtain ⟨sources, heq⟩ := @assignRevision_eq _ sha reader _ _ h.ok (compareRevisions judge) now _ _ hassigns
  have hstep : ClusterStep sha reader s (.assign (compareRevisions judge) now current.id)
      (s.assigning sha reader (compareRevisions judge) now ((call current).archived sha)) := .assigned hassigns
  obtain ⟨reviews, hafter⟩ := @assigning_eq _ sha reader s _ (compareRevisions judge) now
    ((call current).archived sha)
  rw [heq, hid]
  refine ⟨?_, h.ok.step hstep, ?_, ?_, fun p hp => ?_⟩
  · unfold ReplayAssignment.answer
    rw [htarget, replayAssignment_documentId]
    rfl
  · rw [hafter]
    show ArchiveOf sha call recorded (NewsEvents.refreshed _ _ _).archive
    rw [refreshed_archive, hrel.archive]
    exact h.archive
  · rw [hafter]
    show (actives (NewsEvents.refreshed _ _ _).members).map _ = _
    have hkept : (actives s.members).filter (fun m => m.revisionId ∉
        revisionIds [s.joiningRow sha reader (compareRevisions judge) now ((call current).archived sha)]) =
          actives s.members := by
      refine List.filter_eq_self.2 fun m hm => decide_eq_true fun hmem => ?_
      have hsame : m.revisionId = current.id := (List.mem_singleton.1 hmem).trans hid
      exact memberForRevision_none hassigns.1 (hsame ▸ List.mem_map_of_mem hm)
    rw [refreshed_members, hrel.active, hkept, List.map_append, List.map_append, h.members]
    show _ ++ [(((call current).archived sha).revision.revisionId,
      (s.assignTarget sha reader (compareRevisions judge) ((call current).archived sha)).1)] = _
    rw [htarget, hid]
    rfl
  · rcases List.mem_append.1 hp with hp | hp
    · exact h.recorded p hp
    · rw [List.mem_singleton.1 hp]
      exact hcurrent

end

/-! ## The run -/

section

variable [LinearOrder F]

/-- When the document is assigned, the archive is small and the best matches are undisputed. -/
structure ClearChoice (sha : Bytes → String) (reader : TextReader) (judge : Similarity F)
    (call : LabeledDocument → UpsertCall) (s : NewsEvents F) (step : LiveStep) : Prop where
  few : (s.recording sha reader call step.recorded).archive.revisions.length ≤ 5000
  clear : ∀ revision,
    (s.recording sha reader call step.recorded).archive.revision step.document.id = some revision →
      (s.recording sha reader call step.recorded).Undisputed reader judge revision

/-- **The rest of a run** answers what the rest of the replay does. -/
theorem Mirrors.replays (hle : ∀ a b : F, F64.le a b = decide (a ≤ b))
    (hcall : ArchivedOnce sha call documents) (hagrees : Agrees sha call documents)
    (htimed : ∀ d ∈ documents, d.eventTimeUtc.isSome) (steps : List LiveStep) :
    ∀ {s : NewsEvents F} {recorded : List LabeledDocument}
      {earlier : List (LabeledDocument × ReplayAssignment F)}, Mirrors sha call s recorded earlier →
      recorded ++ steps.flatMap (·.recorded) ⊆ documents →
      (recorded ++ steps.flatMap (·.recorded)).Nodup →
      (earlier.map (·.1) ++ steps.map (·.document)).Nodup →
      Along (fun recorded (step : LiveStep) => recorded ++ step.recorded)
        (fun recorded step => step.document ∈ recorded ++ step.recorded) recorded steps →
      Along (fun s step => (s.liveStep sha reader judge call step).2)
        (ClearChoice sha reader judge call) s steps →
      (earlier.map fun p => Except.ok p.2.answer) ++
          (s.liveAnswers sha reader judge call steps).map (·.map ClusterAssignment.answer) =
        (replayFrom sha reader judge earlier (steps.map (·.document))).map fun p => .ok p.2.answer := by
  induction steps with
  | nil =>
    intro s recorded earlier _ _ _ _ _ _
    exact List.append_nil _
  | cons step steps ih =>
    intro s recorded earlier h hsub hnodup hdocuments hintime hclear
    rw [List.flatMap_cons, ← List.append_assoc] at hsub hnodup
    obtain ⟨hdocument, hintime⟩ := hintime
    obtain ⟨⟨hfew, hundisputed⟩, hclear⟩ := hclear
    have hbatch : Mirrors sha call (s.recording sha reader call step.recorded) (recorded ++ step.recorded)
        earlier :=
      h.recording hcall step.recorded (fun x hx => hsub (List.mem_append_left _ hx))
        (List.nodup_append.1 hnodup).1
    have hnew : ∀ p ∈ earlier, p.1 ≠ step.document := fun p hp =>
      (List.nodup_append.1 hdocuments).2.2 p.1 (List.mem_map_of_mem hp) step.document List.mem_cons_self
    obtain ⟨hanswer, hmirrors⟩ := hbatch.assigned hle hcall hagrees htimed
      (fun x hx => hsub (List.mem_append_left _ hx)) hdocument hnew hfew hundisputed step.now
    have hrest := ih hmirrors hsub hnodup (by
      rw [List.map_append, List.append_assoc]
      exact hdocuments) hintime hclear
    rw [List.map_append, List.append_assoc] at hrest
    rw [List.map_cons, replayFrom, ← hrest]
    have hhead : (s.liveStep sha reader judge call step).1.map ClusterAssignment.answer =
        .ok (replayAssignment sha reader judge step.document earlier).answer := hanswer
    show _ ++ ((s.liveStep sha reader judge call step).1.map ClusterAssignment.answer :: _) = _
    rw [hhead]
    rfl

/-- **The live assignments are those of the replay** in every run of documents that have a time, as long
as the best matches are undisputed and the archive is small. -/
theorem live_replays (hle : ∀ a b : F, F64.le a b = decide (a ≤ b)) (reader : TextReader)
    (hcall : ArchivedOnce sha call documents) (hagrees : Agrees sha call documents)
    (htimed : ∀ d ∈ documents, d.eventTimeUtc.isSome) {steps : List LiveStep}
    (hschedule : Schedules documents steps)
    (hclear : Along (fun s step => (s.liveStep sha reader judge call step).2)
      (ClearChoice sha reader judge call) {} steps) :
    (liveAnswers sha reader judge call {} steps).map (·.map ClusterAssignment.answer) =
      (replayDocuments sha reader judge documents).map fun a => .ok a.answer := by
  have hnodup : documents.Nodup := hcall.ids.of_map _
  have hstart : Mirrors sha call ({} : NewsEvents F) [] [] :=
    ⟨clustersOK_empty, archiveOf_empty, rfl, fun _ hp => absurd hp List.not_mem_nil⟩
  have hrun := hstart.replays hle hcall hagrees htimed steps hschedule.recorded.subset
    (hschedule.recorded.nodup_iff.2 hnodup) (by
      rw [hschedule.order]
      exact (List.perm_insertionSort _ _).nodup_iff.2 hnodup) hschedule.inTime hclear
  rw [hschedule.order] at hrun
  unfold replayDocuments
  rw [List.map_map]
  exact hrun

end

section

/-- One match at most is undisputed. -/
theorem clearChoice_of_single [LinearOrder F] {step : LiveStep}
    (hfew : (s.recording sha reader call step.recorded).archive.revisions.length ≤ 5000)
    (hsingle : ((s.recording sha reader call step.recorded).archive.revision step.document.id).all
      fun revision =>
        ((s.recording sha reader call step.recorded).contenders judge revision).length ≤ 1) :
    ClearChoice sha reader judge call s step := by
  refine ⟨hfew, fun revision hrevision a b ha hb => ?_⟩
  rw [hrevision, Option.all_some, decide_eq_true_eq] at hsingle
  have heq : a = b := by
    obtain ⟨i, hi, rfl⟩ := List.getElem_of_mem ha.mem
    obtain ⟨j, hj, rfl⟩ := List.getElem_of_mem hb.mem
    congr 1
    omega
  rw [heq]
  exact ⟨rfl, rfl⟩

/-- A stand-in for the digest that is short. -/
private def remainder (b : Bytes) : String :=
  toString (b.foldl (fun n x => (31 * n + x.toNat) % 65521) 7)

private def wordText : TextReader where
  alphanumeric := fun _ => true
  factCaptures := fun _ => []

/-- What is titled `C` matches everything. -/
private def likeAll : Similarity ℚ := fun left _ _ => ⟨decide (left.title = "C"), .followUp, 1⟩

/-- What is titled `C` matches what is titled `B`. -/
private def likeB : Similarity ℚ := fun left right _ =>
  ⟨decide (left.title = "C" ∧ right.title = "B"), .followUp, 1⟩

private def labeledOf (title : String) (t : ℤ) (id : String) : LabeledDocument where
  id := id
  title := title
  summary := title
  url := title
  sourceId := "official"
  eventTimeUtc := some 0
  firstSeenTimeUtc := t
  group := "g"

private def callOf (d : LabeledDocument) : UpsertCall where
  now := 100
  input := { (announcement d.title d.summary (some d.firstSeenTimeUtc) d.firstSeenTimeUtc).input with
    canonicalUrl := d.url
    eventTime := { utc := d.eventTimeUtc, original := none } }

private def docA : LabeledDocument := labeledOf "A" 2 "rev:34967"

private def docB : LabeledDocument := labeledOf "B" 1 "rev:15807"

private def docC : LabeledDocument := labeledOf "C" 3 "rev:30811"

private def labeledDocuments : List LabeledDocument := [docA, docB, docC]

private def liveSteps : List LiveStep :=
  [⟨labeledDocuments, 101, docB⟩, ⟨[], 102, docA⟩, ⟨[], 103, docC⟩]

private theorem documents_archived : ArchivedOnce remainder callOf labeledDocuments :=
  ⟨by decide +kernel, by decide +kernel, by decide +kernel, by decide +kernel⟩

private theorem documents_agree : Agrees remainder callOf labeledDocuments :=
  ⟨by decide, by decide, by decide, by decide, by decide +kernel⟩

private theorem documents_scheduled : Schedules labeledDocuments liveSteps :=
  ⟨by decide, List.Perm.refl _, by decide⟩

theorem single_match_replays :
    (liveAnswers remainder wordText likeB callOf {} liveSteps).map (·.map ClusterAssignment.answer) =
      (replayDocuments remainder wordText likeB labeledDocuments).map fun a => .ok a.answer :=
  live_replays (fun _ _ => rfl) wordText documents_archived documents_agree (by decide)
    documents_scheduled
    ⟨clearChoice_of_single (by decide +kernel) (by decide +kernel),
      clearChoice_of_single (by decide +kernel) (by decide +kernel),
      clearChoice_of_single (by decide +kernel) (by decide +kernel), trivial⟩

/-- The first two documents are in clusters of their own and match the third equally: the assignment
takes the newer, and the replay the one with the smaller id. -/
theorem tied_matches_differ : ¬ ∀ (sha : Bytes → String) (reader : TextReader) (judge : Similarity ℚ)
    (call : LabeledDocument → UpsertCall) (documents : List LabeledDocument) (steps : List LiveStep),
    ArchivedOnce sha call documents → Agrees sha call documents → Schedules documents steps →
      (liveAnswers sha reader judge call {} steps).map (·.map ClusterAssignment.answer) =
        (replayDocuments sha reader judge documents).map fun a => .ok a.answer := by
  intro h
  have hsame := h remainder wordText likeAll callOf labeledDocuments liveSteps documents_archived
    documents_agree documents_scheduled
  have hlive : ((liveAnswers remainder wordText likeAll callOf {} liveSteps).map
      (·.map ClusterAssignment.answer)).map (·.toOption.map (·.2.1)) =
        [docB, docA, docA].map fun d => some (clusterIdFor remainder d.id) := by
    decide +kernel
  have hreplay : ((replayDocuments remainder wordText likeAll labeledDocuments).map
      fun a => (.ok a.answer : Except String _)).map (·.toOption.map (·.2.1)) =
        [docB, docA, docB].map fun d => some (clusterIdFor remainder d.id) := by
    decide +kernel
  rw [hsame, hreplay] at hlive
  exact absurd hlive (by decide +kernel)

end

end Astock
