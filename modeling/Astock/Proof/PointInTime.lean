import Astock.Lib.Best
import Astock.Proof.CurrentRevision

/-!
# Replaying the archive at a point in time

* `map_asOf`: what a replay answers, as a selection of the stored revisions.
* `Timely`: a revision of a known document is not dated back before it was observed, and has a
  revision time of its own, unless a revision outranks it at every cutoff.
* `replay_timely`: **in every sequence of timely upserts, no replay looks ahead**: it answers what
  it answered when nothing after its cutoff had been observed.
-/

namespace Astock

open NewsArchive Latest

variable {sha : Bytes → String} {s : NewsArchive} {call : UpsertCall} {cutoff : ℤ}
  {clock : NewsArchiveClock}

/-- The revision can be seen at the cutoff. -/
def DocumentRevision.Visible (cutoff : ℤ) (r : DocumentRevision) : Prop :=
  r.firstSeenTimeUtc ≤ cutoff ∧ r.revisionTimeUtc ≤ cutoff

instance (cutoff : ℤ) : DecidablePred (DocumentRevision.Visible cutoff) :=
  fun _ => inferInstanceAs (Decidable (_ ∧ _))

/-- The latest visible revision of its document. -/
abbrev LatestAt (cutoff : ℤ) (s : NewsArchive) (r : DocumentRevision) : Prop :=
  IsLatest DocumentRevision.documentId DocumentRevision.revisionTimeUtc
    (DocumentRevision.Visible cutoff) s.revisions r

/-! ## What a replay selects -/

theorem newestVisible_iff {r : DocumentRevision} (hr : r ∈ s.revisions) (hseen : r.Visible cutoff) :
    some r.revisionTimeUtc = s.newestVisible cutoff r.documentId ↔ LatestAt cutoff s r := by
  unfold newestVisible
  rw [eq_comm, List.max?_eq_some_iff]
  constructor
  · rintro ⟨-, hmax⟩
    refine ⟨hseen, fun r' hr' hseen' hgroup => hmax _ (List.mem_map_of_mem (List.mem_filter.2 ⟨hr', ?_⟩))⟩
    exact decide_eq_true ⟨hgroup, hseen'⟩
  · rintro ⟨-, hlatest⟩
    refine ⟨List.mem_map_of_mem (List.mem_filter.2 ⟨hr, decide_eq_true ⟨rfl, hseen⟩⟩), fun t ht => ?_⟩
    obtain ⟨r', hr', rfl⟩ := List.mem_map.1 ht
    obtain ⟨hmem, hfilter⟩ := List.mem_filter.1 hr'
    obtain ⟨hgroup, hseen'⟩ := of_decide_eq_true hfilter
    exact hlatest r' hmem hseen' hgroup

/-- What upserts keep: each revision has its document, and was first seen when this was. -/
structure Owned (s : NewsArchive) : Prop where
  document : ∀ r ∈ s.revisions, ∃ d, s.document r.documentId = some d ∧
    d.firstSeenTimeUtc = r.firstSeenTimeUtc

theorem map_joined (h : Owned s) : s.joined.map (·.revision) = s.revisions := by
  have hjoin : ∀ rows ⊆ s.revisions, (rows.filterMap fun revision =>
      (s.document revision.documentId).map fun document =>
        ({ document, revision } : ArchivedNewsRevision)).map (·.revision) = rows := by
    intro rows hrows
    induction rows with
    | nil => rfl
    | cons r rows ih =>
      obtain ⟨d, hd, -⟩ := h.document r (hrows List.mem_cons_self)
      rw [List.filterMap_cons, hd]
      show r :: List.map _ _ = r :: rows
      rw [ih fun x hx => hrows (List.mem_cons_of_mem _ hx)]
  exact hjoin s.revisions (List.Subset.refl _)

/-- The revisions that a replay answers, before they are sorted. -/
def selected (cutoff : ℤ) (clock : NewsArchiveClock) (s : NewsArchive) : List DocumentRevision :=
  (s.revisions.filter fun r => LatestAt cutoff s r).filter fun r => clock.read r ≤ cutoff

/-- **A replay** answers the latest visible revisions, sorted by its clock. -/
theorem map_asOf (h : Owned s) (limit : ℕ) :
    (s.asOf cutoff clock limit).map (·.revision) =
      ((selected cutoff clock s).insertionSort fun a b => clock.read b ≤ clock.read a).take
        (min (max limit 1) 100000) := by
  unfold NewsArchive.asOf
  rw [List.map_take]
  have hsort : ∀ rows : List ArchivedNewsRevision,
      (rows.insertionSort fun a b => clock.read b.revision ≤ clock.read a.revision).map (·.revision) =
        (rows.map (·.revision)).insertionSort fun a b => clock.read b ≤ clock.read a := fun rows =>
    List.map_insertionSort _ _ _ rows fun _ _ _ _ => Iff.rfl
  rw [hsort]
  congr 2
  have hfilter : (s.joined.filter fun row =>
      row.revision.firstSeenTimeUtc ≤ cutoff ∧ row.revision.revisionTimeUtc ≤ cutoff ∧
        clock.read row.revision ≤ cutoff ∧
        some row.revision.revisionTimeUtc = s.newestVisible cutoff row.revision.documentId).map
          (·.revision) =
      (s.joined.map (·.revision)).filter fun r => r.firstSeenTimeUtc ≤ cutoff ∧
        r.revisionTimeUtc ≤ cutoff ∧ clock.read r ≤ cutoff ∧
        some r.revisionTimeUtc = s.newestVisible cutoff r.documentId := by
    rw [List.filter_map]
    rfl
  rw [hfilter, map_joined h]
  unfold selected
  rw [List.filter_filter]
  refine List.filter_congr fun r hr => ?_
  rw [← Bool.decide_and, decide_eq_decide]
  constructor
  · rintro ⟨hfirst, hrevision, hclock, hnewest⟩
    exact ⟨hclock, (newestVisible_iff hr ⟨hfirst, hrevision⟩).1 hnewest⟩
  · rintro ⟨hclock, hlatest⟩
    exact ⟨hlatest.1.1, hlatest.1.2, hclock, (newestVisible_iff hr hlatest.1).2 hlatest⟩

/-! ## What an upsert leaves -/

theorem document_after_other {documentId : String} (hvalid : call.input.validate = .ok ())
    (hother : documentId ≠ call.input.documentId sha) :
    (s.after sha call).document documentId = s.document documentId := by
  have hupsert : Table.find SourceDocument.documentId documentId
      (Table.upsert SourceDocument.documentId (s.written sha call) s.documents) =
        s.document documentId := Table.find_upsert_of_ne hother
  unfold NewsArchive.after NewsArchive.upsert
  rw [hvalid]
  show NewsArchive.document (if _ then _ else _) documentId = _
  split
  · have hupdate := @Table.find_update_of_ne _ _ _ SourceDocument.documentId
      (call.input.documentId sha) documentId
      (Table.upsert SourceDocument.documentId (s.written sha call) s.documents)
      (fun d => { d with
        currentRevisionId := some (call.input.revisionId sha)
        contentHash := call.input.contentHash sha }) (fun _ => rfl) hother
    exact hupdate.trans hupsert
  · exact hupsert

/-- An upsert that is refused, or that brings no new revision, adds no row; another one adds its
revision. -/
theorem revisions_after (sha : Bytes → String) (s : NewsArchive) (call : UpsertCall) :
    (s.after sha call).revisions = s.revisions ∨
      call.input.validate = .ok () ∧ s.hasRevision (s.proposed sha call) = false ∧
        (s.after sha call).revisions = s.revisions ++ [s.proposed sha call] := by
  cases hvalid : call.input.validate with
  | error message =>
    left
    unfold NewsArchive.after NewsArchive.upsert
    rw [hvalid]
  | ok =>
    rcases after_cases sha s call hvalid with ⟨-, hsame, -⟩ | ⟨hnew, hadded, -⟩
    · exact .inl hsame
    · exact .inr ⟨rfl, hnew, hadded⟩

/-- The document of an upsert stays first seen when it was, or is first seen with the upsert. -/
theorem firstSeen_after (hvalid : call.input.validate = .ok ()) :
    ∃ d, (s.after sha call).document (call.input.documentId sha) = some d ∧
      d.firstSeenTimeUtc = (s.proposed sha call).firstSeenTimeUtc := by
  rcases after_cases sha s call hvalid with ⟨-, -, hdocument⟩ | ⟨-, -, hdocument⟩
  · exact ⟨_, hdocument, rfl⟩
  · exact ⟨_, hdocument, rfl⟩

theorem Owned.after (h : Owned s) (call : UpsertCall) : Owned (s.after sha call) := by
  cases hvalid : call.input.validate with
  | error message =>
    unfold NewsArchive.after NewsArchive.upsert
    rw [hvalid]
    exact h
  | ok =>
    obtain ⟨d', hd', hseen'⟩ := @firstSeen_after sha s call hvalid
    have hold : ∀ r ∈ s.revisions, ∃ d, (s.after sha call).document r.documentId = some d ∧
        d.firstSeenTimeUtc = r.firstSeenTimeUtc := by
      intro r hr
      obtain ⟨d, hd, hseen⟩ := h.document r hr
      by_cases hid : r.documentId = call.input.documentId sha
      · refine ⟨d', by rw [hid]; exact hd', ?_⟩
        rw [hid] at hd
        rw [hseen', ← hseen]
        unfold NewsArchive.proposed candidate
        rw [hd]
        rfl
      · exact ⟨d, (document_after_other hvalid hid).trans hd, hseen⟩
    refine ⟨fun r hr => ?_⟩
    rcases revisions_after sha s call with hsame | ⟨-, -, hadded⟩
    · rw [hsame] at hr
      exact hold r hr
    · rw [hadded] at hr
      rcases List.mem_append.1 hr with hr | hr
      · exact hold r hr
      · rw [List.mem_singleton.1 hr]
        exact ⟨d', hd', hseen'⟩

/-! ## Timely upserts -/

/-- Of the document's revisions, one is later than `v` and was in force when the document was first
seen: it outranks a revision of time `v` in every replay that shows the document. -/
def OutrankedAt (s : NewsArchive) (documentId : String) (v : ℤ) : Prop :=
  ∃ r ∈ s.revisions, r.documentId = documentId ∧ v < r.revisionTimeUtc ∧
    r.revisionTimeUtc ≤ r.firstSeenTimeUtc

/-- A new revision of a known document is dated when it was observed or later, or observed with the
document, and no other revision has its time; or else one outranks it. -/
def Timely (sha : Bytes → String) (s : NewsArchive) (call : UpsertCall) : Prop :=
  call.input.validate = .ok () → s.hasRevision (s.proposed sha call) = false →
    ∀ d ∈ s.document (call.input.documentId sha),
      OutrankedAt s (call.input.documentId sha) (call.input.revisionTime.utc.getD call.now) ∨
      ((call.input.observation.fetchedAt ≤ call.input.revisionTime.utc.getD call.now ∨
        call.input.observation.fetchedAt = d.firstSeenTimeUtc) ∧
        ∀ r ∈ s.revisions, r.documentId = call.input.documentId sha →
          r.revisionTimeUtc ≠ call.input.revisionTime.utc.getD call.now)

instance (s : NewsArchive) (call : UpsertCall) : Decidable (Timely sha s call) :=
  have : ∀ documentId v, Decidable (OutrankedAt s documentId v) := fun _ _ =>
    inferInstanceAs (Decidable (∃ r ∈ s.revisions, _))
  have : ∀ documentId (p : SourceDocument → Prop) [DecidablePred p],
      Decidable (∀ d ∈ s.document documentId, p d) := fun documentId _ _ =>
    inferInstanceAs (Decidable (∀ d ∈ (s.document documentId), _))
  inferInstanceAs (Decidable (_ → _ → _))

/-- Both times that the caller passes are the time of the observation. -/
def UpsertCall.ObservedAt (call : UpsertCall) (t : ℤ) : Prop :=
  0 < t ∧ call.input.firstSeenTimeUtc = t ∧ call.input.observation.fetchedAt = t

instance (call : UpsertCall) (t : ℤ) : Decidable (call.ObservedAt t) :=
  inferInstanceAs (Decidable (_ ∧ _ ∧ _))

/-- What timely upserts keep: revisions of one document with the same time are outranked. -/
structure Untied (s : NewsArchive) : Prop where
  owned : Owned s
  distinct : (s.revisions.map (·.revisionId)).Nodup
  ties : ∀ r ∈ s.revisions, ∀ r' ∈ s.revisions, r ≠ r' → r.documentId = r'.documentId →
    r.revisionTimeUtc = r'.revisionTimeUtc → OutrankedAt s r.documentId r.revisionTimeUtc

theorem proposed_firstSeen (hdocument : s.document (call.input.documentId sha) = none)
    {t : ℤ} (hcall : call.ObservedAt t) : (s.proposed sha call).firstSeenTimeUtc = t := by
  obtain ⟨hpos, hseen, -⟩ := hcall
  unfold NewsArchive.proposed candidate NewsArchiveInput.seenAt
  rw [hdocument, hseen]
  exact if_neg (by omega)

theorem OutrankedAt.outranked (h : Owned s) {r : DocumentRevision} {documentId : String}
    {d : SourceDocument} (hd : s.document documentId = some d) (hr : r.documentId = documentId)
    (hseen : r.firstSeenTimeUtc = d.firstSeenTimeUtc)
    (htop : OutrankedAt s documentId r.revisionTimeUtc) :
    Outranked DocumentRevision.documentId DocumentRevision.revisionTimeUtc
      (DocumentRevision.Visible cutoff) s.revisions r := by
  rintro ⟨hfirst, -⟩
  obtain ⟨top, hmem, hgroup, hlt, hle⟩ := htop
  obtain ⟨d', hd', hseen'⟩ := h.document top hmem
  rw [hgroup, hd] at hd'
  obtain rfl := Option.some.inj hd'
  exact ⟨top, hmem, hgroup.trans hr.symm, ⟨by omega, by omega⟩, hlt⟩

/-- **A timely upsert after the cutoff** changes no replay. -/
theorem selected_after {t : ℤ} (h : Owned s) (hcall : call.ObservedAt t) (hafter : cutoff < t)
    (htimely : Timely sha s call) :
    selected cutoff clock (s.after sha call) = selected cutoff clock s := by
  rcases revisions_after sha s call with hsame | ⟨hvalid, hnew, hadded⟩
  · unfold selected LatestAt
    simp only [hsame]
  · have hquiet : ¬ DocumentRevision.Visible cutoff (s.proposed sha call) ∨
        Outranked DocumentRevision.documentId DocumentRevision.revisionTimeUtc
          (DocumentRevision.Visible cutoff) s.revisions (s.proposed sha call) := by
      cases hdocument : s.document (call.input.documentId sha) with
      | none =>
        -- a new document is first seen after the cutoff
        have hfirst := proposed_firstSeen hdocument hcall
        exact .inl fun hseen => absurd hseen.1 (by omega)
      | some d =>
        have hinherited : (s.proposed sha call).firstSeenTimeUtc = d.firstSeenTimeUtc := by
          unfold NewsArchive.proposed candidate
          rw [hdocument]
          rfl
        have hfetched := hcall.2.2
        rcases htimely hvalid hnew d hdocument with htop | ⟨hdated | hfirst, -⟩
        · exact .inr (htop.outranked h hdocument rfl hinherited)
        · have htime : (s.proposed sha call).revisionTimeUtc =
            call.input.revisionTime.utc.getD call.now := rfl
          exact .inl fun hseen => absurd hseen.2 (by omega)
        · exact .inl fun hseen => absurd hseen.1 (by omega)
    unfold selected LatestAt
    simp only [hadded]
    rw [Latest.filter_append hquiet]

theorem OutrankedAt.after {documentId : String} {v : ℤ} (h : OutrankedAt s documentId v) :
    OutrankedAt (s.after sha call) documentId v := by
  obtain ⟨r, hr, htop⟩ := h
  refine ⟨r, ?_, htop⟩
  rcases revisions_after sha s call with hsame | ⟨-, -, hadded⟩
  · rw [hsame]
    exact hr
  · rw [hadded]
    exact List.mem_append_left _ hr

theorem Untied.after (h : Untied s) (htimely : Timely sha s call) : Untied (s.after sha call) := by
  rcases revisions_after sha s call with hsame | ⟨hvalid, hnew, hadded⟩
  · refine ⟨h.owned.after call, by rw [hsame]; exact h.distinct, fun r hr r' hr' hne hgroup htime => ?_⟩
    rw [hsame] at hr hr'
    exact (h.ties r hr r' hr' hne hgroup htime).after
  · have hfresh : ∀ r ∈ s.revisions, r.revisionId ≠ (s.proposed sha call).revisionId := by
      intro r hr hid
      have hhas : s.hasRevision (s.proposed sha call) = true :=
        List.any_eq_true.2 ⟨r, hr, by simp [hid]⟩
      rw [hnew] at hhas
      simp at hhas
    -- an older revision with the time of the new one is outranked, and so is the new one
    have htie : ∀ r ∈ s.revisions, r.documentId = call.input.documentId sha →
        r.revisionTimeUtc = (s.proposed sha call).revisionTimeUtc →
        OutrankedAt s r.documentId r.revisionTimeUtc := by
      intro r hr hgroup htime
      obtain ⟨d, hd, -⟩ := h.owned.document r hr
      rw [hgroup] at hd
      rcases htimely hvalid hnew d hd with htop | ⟨-, hother⟩
      · rw [hgroup, htime]
        exact htop
      · exact absurd htime (hother r hr hgroup)
    refine ⟨h.owned.after call, ?_, fun r hr r' hr' hne hgroup htime => ?_⟩
    · rw [hadded, List.map_append, List.nodup_append]
      refine ⟨h.distinct, List.nodup_singleton _, fun a ha b hb => ?_⟩
      obtain ⟨r, hr, rfl⟩ := List.mem_map.1 ha
      rw [List.map_singleton, List.mem_singleton] at hb
      rw [hb]
      exact hfresh r hr
    · rw [hadded] at hr hr'
      rcases List.mem_append.1 hr with hr | hr
      · rcases List.mem_append.1 hr' with hr' | hr'
        · exact (h.ties r hr r' hr' hne hgroup htime).after
        · rw [List.mem_singleton.1 hr'] at hgroup htime
          exact (htie r hr hgroup htime).after
      · rcases List.mem_append.1 hr' with hr' | hr'
        · rw [List.mem_singleton.1 hr] at hgroup htime ⊢
          have htop : OutrankedAt (s.after sha call) r'.documentId r'.revisionTimeUtc :=
            (htie r' hr' hgroup.symm htime.symm).after
          rwa [← hgroup, ← htime] at htop
        · exact absurd ((List.mem_singleton.1 hr).trans (List.mem_singleton.1 hr').symm) hne

/-! ## Replays -/

/-- A revision that is outranked is not selected. -/
theorem Untied.selected_nodup (h : Untied s) :
    ((selected cutoff clock s).map (·.documentId)).Nodup := by
  have hrows : s.revisions.Nodup := h.distinct.of_map _
  have hmem : ∀ r ∈ selected cutoff clock s, r ∈ s.revisions ∧ LatestAt cutoff s r := by
    intro r hr
    obtain ⟨hr, -⟩ := List.mem_filter.1 hr
    obtain ⟨hr, hlatest⟩ := List.mem_filter.1 hr
    exact ⟨hr, of_decide_eq_true hlatest⟩
  refine List.Nodup.map_on (fun r hr r' hr' hgroup => ?_) ((hrows.filter _).filter _)
  obtain ⟨hr, hlatest⟩ := hmem r hr
  obtain ⟨hr', hlatest'⟩ := hmem r' hr'
  refine latest_unique hr hr' hlatest hlatest' hgroup fun hne htime => ?_
  obtain ⟨d, hd, hseen⟩ := h.owned.document r hr
  exact (h.ties r hr r' hr' hne hgroup htime).outranked h.owned hd rfl hseen.symm

/-- **What a replay may show**: what it showed when nothing after its cutoff had been observed, and
one revision of each document. -/
structure NoLookAhead (s known : NewsArchive) (cutoff : ℤ) (limit : ℕ) : Prop where
  same : ∀ clock, (s.asOf cutoff clock limit).map (·.revision.revisionId) =
    (known.asOf cutoff clock limit).map (·.revision.revisionId)
  known : ∀ clock, ∀ row ∈ s.asOf cutoff clock limit, row.revision ∈ known.revisions
  single : ∀ clock, ((s.asOf cutoff clock limit).map (·.revision.documentId)).Nodup

instance (s known : NewsArchive) (cutoff : ℤ) (limit : ℕ) :
    Decidable (∀ clock, (s.asOf cutoff clock limit).map (·.revision.revisionId) =
      (known.asOf cutoff clock limit).map (·.revision.revisionId)) :=
  decidable_of_iff (∀ clock ∈ [NewsArchiveClock.event, .publish, .firstSeen, .revision],
      (s.asOf cutoff clock limit).map (·.revision.revisionId) =
        (known.asOf cutoff clock limit).map (·.revision.revisionId))
    ⟨fun h clock => h clock (by cases clock <;> simp), fun h clock _ => h clock⟩

/-- The calls whose observation is not after the cutoff. -/
def upTo (cutoff : ℤ) (calls : List UpsertCall) : List UpsertCall :=
  calls.filter fun call => call.input.observation.fetchedAt ≤ cutoff

theorem selected_mem {r : DocumentRevision} (h : r ∈ selected cutoff clock s) : r ∈ s.revisions :=
  List.mem_of_mem_filter (List.mem_of_mem_filter h)

/-- **Upserts after the cutoff**, one after the other, change no replay. -/
theorem selected_run {calls : List UpsertCall} (h : Untied s)
    (hcalls : ∀ call ∈ calls, call.ObservedAt call.input.observation.fetchedAt ∧
      cutoff < call.input.observation.fetchedAt)
    (htimely : Run.Along (NewsArchive.after sha) (Timely sha) s calls) :
    selected cutoff clock (Run.run (NewsArchive.after sha) s calls) = selected cutoff clock s := by
  induction calls generalizing s with
  | nil => rfl
  | cons call calls ih =>
    obtain ⟨hobserved, hafter⟩ := hcalls call List.mem_cons_self
    obtain ⟨hfirst, hrest⟩ := htimely
    rw [Run.run_cons, ih (h.after hfirst) (fun c hc => hcalls c (List.mem_cons_of_mem _ hc)) hrest]
    exact selected_after h.owned hobserved hafter hfirst

theorem Untied.run {calls : List UpsertCall} (h : Untied s)
    (htimely : Run.Along (NewsArchive.after sha) (Timely sha) s calls) :
    Untied (Run.run (NewsArchive.after sha) s calls) :=
  Run.run_invariant_along (fun _ _ hok hs => hs.after hok) calls s htimely h

theorem untied_empty : Untied {} :=
  ⟨⟨fun _ hr => absurd hr List.not_mem_nil⟩, List.nodup_nil, fun _ hr => absurd hr List.not_mem_nil⟩

theorem upTo_append {calls : List UpsertCall}
    (hsorted : (calls.map (·.input.observation.fetchedAt)).Pairwise (· ≤ ·)) :
    calls = upTo cutoff calls ++ calls.filter fun call => cutoff < call.input.observation.fetchedAt := by
  unfold upTo
  induction calls with
  | nil => rfl
  | cons call calls ih =>
    rw [List.map_cons, List.pairwise_cons] at hsorted
    obtain ⟨hfirst, hrest⟩ := hsorted
    by_cases hcall : call.input.observation.fetchedAt ≤ cutoff
    · have hnot : ¬ cutoff < call.input.observation.fetchedAt := not_lt.2 hcall
      simp only [List.filter_cons, hcall, hnot, decide_true, decide_false, if_true]
      exact congrArg (call :: ·) (ih hrest)
    · -- all calls from here on are after the cutoff
      have hafter : ∀ c ∈ call :: calls, cutoff < c.input.observation.fetchedAt := by
        intro c hc
        rcases List.mem_cons.1 hc with rfl | hc
        · omega
        · have := hfirst _ (List.mem_map_of_mem hc)
          omega
      have hnone : (call :: calls).filter (fun c => c.input.observation.fetchedAt ≤ cutoff) = [] :=
        List.filter_eq_nil_iff.2 fun c hc => by simpa using hafter c hc
      have hall : (call :: calls).filter (fun c => cutoff < c.input.observation.fetchedAt) =
          call :: calls := List.filter_eq_self.2 fun c hc => decide_eq_true (hafter c hc)
      rw [hnone, hall, List.nil_append]

/-- **Replays do not look ahead** in any sequence of timely upserts with non-decreasing observation
times. -/
theorem replay_timely (sha : Bytes → String) (calls : List UpsertCall)
    (hcalls : ∀ call ∈ calls, call.ObservedAt call.input.observation.fetchedAt)
    (hsorted : (calls.map (·.input.observation.fetchedAt)).Pairwise (· ≤ ·))
    (htimely : Run.Along (NewsArchive.after sha) (Timely sha) {} calls) (cutoff : ℤ) (limit : ℕ) :
    NoLookAhead (Run.run (NewsArchive.after sha) {} calls)
      (Run.run (NewsArchive.after sha) {} (upTo cutoff calls)) cutoff limit := by
  set late := calls.filter fun call => cutoff < call.input.observation.fetchedAt with hlate
  have hsplit : calls = upTo cutoff calls ++ late := upTo_append hsorted
  have huntied := untied_empty.run htimely
  rw [hsplit, Run.along_append] at htimely
  have hknown := untied_empty.run htimely.1
  have hselected : ∀ clock, selected cutoff clock (Run.run (NewsArchive.after sha) {} calls) =
      selected cutoff clock (Run.run (NewsArchive.after sha) {} (upTo cutoff calls)) := by
    intro clock
    have hrun : Run.run (NewsArchive.after sha) {} calls =
        Run.run (NewsArchive.after sha) (Run.run (NewsArchive.after sha) {} (upTo cutoff calls)) late := by
      rw [← Run.run_append, ← hsplit]
    rw [hrun]
    refine selected_run hknown (fun call hcall => ?_) htimely.2
    rw [hlate] at hcall
    obtain ⟨hcall, hafter⟩ := List.mem_filter.1 hcall
    exact ⟨hcalls call hcall, of_decide_eq_true hafter⟩
  have hanswer := fun clock => @map_asOf _ cutoff clock huntied.owned limit
  have hby : ∀ (s : NewsArchive) (clock : NewsArchiveClock) (f : DocumentRevision → String),
      (s.asOf cutoff clock limit).map (fun row => f row.revision) =
        ((s.asOf cutoff clock limit).map (·.revision)).map f := by
    intro s clock f
    rw [List.map_map]
    rfl
  refine ⟨fun clock => ?_, fun clock row hrow => ?_, fun clock => ?_⟩
  · rw [hby _ clock (·.revisionId), hby _ clock (·.revisionId), hanswer, map_asOf hknown.owned,
      hselected]
  · have hmem : row.revision ∈ _ := List.mem_map_of_mem hrow
    rw [hanswer, hselected] at hmem
    have hsort := List.mem_of_mem_take hmem
    rw [List.mem_insertionSort] at hsort
    exact selected_mem hsort
  · rw [hby _ clock (·.documentId), hanswer]
    have hperm := (List.perm_insertionSort (fun a b => clock.read b ≤ clock.read a)
      (selected cutoff clock (Run.run (NewsArchive.after sha) {} calls))).map (·.documentId)
    exact ((List.take_sublist _ _).map _).nodup (hperm.nodup_iff.2 huntied.selected_nodup)

/-- A correction dated when it was observed. -/
theorem correction_replayed : NoLookAhead
    (Run.run (NewsArchive.after latin) {}
      [announcement "A" "a" (some 2000) 2000, announcement "B" "b" (some 2200) 2200])
    (Run.run (NewsArchive.after latin) {} (upTo 2100
      [announcement "A" "a" (some 2000) 2000, announcement "B" "b" (some 2200) 2200]))
    2100 10 :=
  replay_timely latin _ (by decide +kernel) (by decide +kernel) (by decide +kernel) 2100 10

/-- **A correction dated back**: a replay between its date and its observation shows it. -/
theorem backdated_shown :
    ¬ ∀ (sha : Bytes → String) (calls : List UpsertCall), Function.Injective sha →
      (∀ call ∈ calls, call.ObservedAt call.input.observation.fetchedAt) →
      (calls.map (·.input.observation.fetchedAt)).Pairwise (· ≤ ·) → ∀ (cutoff : ℤ) (limit : ℕ),
      (Run.run (NewsArchive.after sha) {} calls).revisions.length < limit →
      NoLookAhead (Run.run (NewsArchive.after sha) {} calls)
        (Run.run (NewsArchive.after sha) {} (upTo cutoff calls)) cutoff limit := by
  intro h
  have hsame := (h latin [announcement "A" "a" (some 2000) 2000,
    announcement "B" "b" (some 2100) 2200] latin_injective (by decide)
    (by decide +kernel) 2100 10 (by decide +kernel)).same
  exact absurd hsame (by decide +kernel)

end Astock
