import Astock.Lib.Prog
import Astock.Lib.Run
import Astock.Spec.Disclosures

/-!
# Mirrors and primary sources

What an accepted ingest does to the tables, and when it keeps a mirror from passing for a primary
source.

* `ingest_stored`: the rows of disclosures and of sources after an accepted ingest.
* `Registered`: what every run keeps: the ids are distinct, a source row has its disclosure, and a
  disclosure that counts as verified has a version that a primary source supplied.
* `authority_kept_iff`: an ingest tells mirrors from primary sources exactly if it brings no version
  past a primary one, does not verify what only mirrors supplied, and its entry point is free.
* `mirrors_never_primary`: the same for whole runs.
-/

namespace Astock

open Run

variable {sha lower : String → String} {db db' : DisclosureStore} {input : DisclosureInput}
  {o : IngestOutcome} {s : Ingestion}

/-! ## What an accepted ingest does -/

namespace DisclosureStore

/-- The rows after the prior announcement has been marked as cancelled. -/
def cancelledRows (input : DisclosureInput) (prior : Option String) (id : String)
    (rows : List Disclosure) : List Disclosure :=
  match prior with
  | some p => if input.status = .cancelled then
      Table.update Disclosure.disclosureId p (markCancelled id) rows else rows
  | none => rows

theorem upsertSecurity_frame (id : String) (security : DisclosureSecurity) :
    (upsertSecurity id db security).disclosures = db.disclosures ∧
      (upsertSecurity id db security).sources = db.sources := by
  unfold upsertSecurity
  split <;> exact ⟨rfl, rfl⟩

theorem foldl_upsertSecurity_frame (id : String) (securities : List DisclosureSecurity) :
    (securities.foldl (upsertSecurity id) db).disclosures = db.disclosures ∧
      (securities.foldl (upsertSecurity id) db).sources = db.sources := by
  induction securities generalizing db with
  | nil => exact ⟨rfl, rfl⟩
  | cons security rest ih =>
    obtain ⟨hd, hs⟩ := @upsertSecurity_frame db id security
    exact ⟨ih.1.trans hd, ih.2.trans hs⟩

theorem upsertAttachment_frame {new : DisclosureAttachment} (h : db.upsertAttachment new = .ok db') :
    db'.disclosures = db.disclosures ∧ db'.sources = db.sources := by
  unfold upsertAttachment at h
  split at h
  · cases h
    exact ⟨rfl, rfl⟩
  · split at h
    · cases h
    · cases h
      exact ⟨rfl, rfl⟩

theorem foldlM_upsertAttachment_frame {row : DisclosureAttachmentInput → DisclosureAttachment}
    {attachments : List DisclosureAttachmentInput}
    (h : attachments.foldlM (fun db a => db.upsertAttachment (row a)) db = .ok db') :
    db'.disclosures = db.disclosures ∧ db'.sources = db.sources := by
  induction attachments generalizing db with
  | nil =>
    cases h
    exact ⟨rfl, rfl⟩
  | cons a rest ih =>
    rw [List.foldlM_cons] at h
    obtain ⟨mid, hmid, hrest⟩ := Prog.except_bind_ok h
    obtain ⟨hd, hs⟩ := upsertAttachment_frame hmid
    exact ⟨(ih hrest).1.trans hd, (ih hrest).2.trans hs⟩

theorem insertSource_disclosures (new : DisclosureSource) :
    (db.insertSource new).disclosures = db.disclosures := by
  unfold insertSource
  split <;> rfl

/-- The disclosures after the upsert: found again, or new. -/
theorem upsertDisclosure_cases {new : Disclosure} (h : db.upsertDisclosure new = .ok db') :
    db'.sources = db.sources ∧
      (new.disclosureId ∈ db.disclosures.map (·.disclosureId) ∧
          db'.disclosures = Table.update Disclosure.disclosureId new.disclosureId
            (seenAgain new) db.disclosures ∨
        new.disclosureId ∉ db.disclosures.map (·.disclosureId) ∧
          db'.disclosures = db.disclosures ++ [new]) := by
  unfold upsertDisclosure at h
  split at h
  next old hfind =>
    cases h
    refine ⟨rfl, .inl ⟨?_, rfl⟩⟩
    rw [← Table.key_of_find hfind]
    exact List.mem_map_of_mem (Table.mem_of_find hfind)
  next hfind =>
    rw [Table.find_eq_none] at hfind
    split at h
    · cases h
    · cases h
      refine ⟨rfl, .inr ⟨fun hmem => ?_, rfl⟩⟩
      obtain ⟨d, hd, heq⟩ := List.mem_map.1 hmem
      exact hfind d hd heq

/-- **An accepted ingest.** The disclosure is found again or new, the prior announcement is marked,
and the entry point is registered unless a key refuses it. -/
theorem ingest_stored (h : db.ingest sha lower input = .ok (o, db')) :
    o.disclosureId = input.disclosureId sha lower ∧
      db'.sources = (if db.sourceTaken (input.sourceRow sha lower) then db.sources
        else db.sources ++ [input.sourceRow sha lower]) ∧
      ∃ rows, db'.disclosures = cancelledRows input (db.priorOf sha lower input)
          (input.disclosureId sha lower) rows ∧
        (input.disclosureId sha lower ∈ db.disclosures.map (·.disclosureId) ∧
            rows = Table.update Disclosure.disclosureId (input.disclosureId sha lower)
              (seenAgain (input.row sha lower (db.priorOf sha lower input)))
              db.disclosures ∨
          input.disclosureId sha lower ∉ db.disclosures.map (·.disclosureId) ∧
            rows = db.disclosures ++ [input.row sha lower (db.priorOf sha lower input)]) := by
  unfold ingest at h
  split at h
  · cases h
  obtain ⟨stored, hstored, h⟩ := Prog.except_bind_ok h
  obtain ⟨filed, hfiled, h⟩ := Prog.except_bind_ok h
  injection h with h
  obtain ⟨rfl, rfl⟩ := Prod.mk.inj h
  obtain ⟨hsources, hrows⟩ := upsertDisclosure_cases hstored
  obtain ⟨hlist, hlists⟩ := @foldl_upsertSecurity_frame stored (input.disclosureId sha lower)
    input.cleaned.securities
  obtain ⟨hfd, hfs⟩ := foldlM_upsertAttachment_frame hfiled
  rw [insertSource_disclosures, hlist] at hfd
  have hinsert : (DisclosureStore.insertSource (input.cleaned.securities.foldl
      (upsertSecurity (input.disclosureId sha lower)) stored) (input.sourceRow sha lower)).sources =
      if db.sourceTaken (input.sourceRow sha lower) then db.sources
        else db.sources ++ [input.sourceRow sha lower] := by
    have htaken : (input.cleaned.securities.foldl (upsertSecurity (input.disclosureId sha lower))
        stored).sourceTaken (input.sourceRow sha lower) = db.sourceTaken (input.sourceRow sha lower) := by
      unfold sourceTaken
      rw [hlists, hsources]
    unfold insertSource
    rw [htaken]
    split
    · rw [hlists, hsources]
    · rw [hlists, hsources]
  refine ⟨rfl, ?_, stored.disclosures, ?_, hrows⟩
  · rw [← hinsert, ← hfs]
    cases db.priorOf sha lower input with
    | none => rfl
    | some p => by_cases hc : input.status = .cancelled <;> simp only [hc, if_true, if_false, cancel]
  · unfold cancelledRows
    cases db.priorOf sha lower input with
    | none => exact hfd
    | some p => by_cases hc : input.status = .cancelled <;> simp only [hc, if_true, if_false, cancel, hfd]

theorem seenAgain_id (new old : Disclosure) : (seenAgain new old).disclosureId = old.disclosureId := rfl

theorem markCancelled_id (id : String) (d : Disclosure) : (markCancelled id d).disclosureId = d.disclosureId :=
  rfl

/-! ## Versions and primary entry points -/

/-- The stored version of a disclosure. -/
def versionOf (db : DisclosureStore) (id : String) : Option String :=
  (Table.find Disclosure.disclosureId id db.disclosures).bind (·.sourceVersionId)

/-- The disclosure has an entry point of a primary source. -/
def HasPrimary (db : DisclosureStore) (id : String) : Prop :=
  ∃ r ∈ db.sources, r.disclosureId = id ∧ r.isPrimary = true

theorem primaryVerified_iff {d : Disclosure} :
    (db.hydrateItem d).primaryVerified = true ↔ db.HasPrimary d.disclosureId ∧ d.sourceVersionId.isSome := by
  unfold hydrateItem HasPrimary
  simp only [Bool.and_eq_true, List.any_eq_true, List.mem_filter,
    decide_eq_true_eq, and_assoc]

theorem versionOf_row (hids : (db.disclosures.map (·.disclosureId)).Nodup) {d : Disclosure}
    (hd : d ∈ db.disclosures) : db.versionOf d.disclosureId = d.sourceVersionId := by
  have hfind := @Table.find_of_mem _ _ _ Disclosure.disclosureId _ _ hids hd
  unfold versionOf
  rw [hfind]
  rfl

theorem find_cancelledRows (prior : Option String) (id x : String) (rows : List Disclosure) :
    (Table.find Disclosure.disclosureId x (cancelledRows input prior id rows)).bind (·.sourceVersionId) =
      (Table.find Disclosure.disclosureId x rows).bind (·.sourceVersionId) := by
  cases prior with
  | none => rfl
  | some p =>
    by_cases hc : input.status = .cancelled
    · simp only [cancelledRows, if_pos hc]
      by_cases hx : x = p
      · subst hx
        rw [Table.find_update_self (markCancelled_id id)]
        cases Table.find Disclosure.disclosureId x rows <;> rfl
      · rw [Table.find_update_of_ne (markCancelled_id id) hx]
    · simp only [cancelledRows, if_neg hc]

theorem map_cancelledRows (prior : Option String) (id : String) (rows : List Disclosure) :
    (cancelledRows input prior id rows).map (·.disclosureId) = rows.map (·.disclosureId) := by
  cases prior with
  | none => rfl
  | some p =>
    by_cases hc : input.status = .cancelled
    · simp only [cancelledRows, if_pos hc]
      exact Table.map_key_update Disclosure.disclosureId (markCancelled_id id)
    · simp only [cancelledRows, if_neg hc]

/-- The ids after an accepted ingest. -/
theorem ids_after (h : db.ingest sha lower input = .ok (o, db')) :
    db'.disclosures.map (·.disclosureId) =
      if input.disclosureId sha lower ∈ db.disclosures.map (·.disclosureId) then
        db.disclosures.map (·.disclosureId)
      else db.disclosures.map (·.disclosureId) ++ [input.disclosureId sha lower] := by
  obtain ⟨-, -, rows, hdb, ⟨hmem, rfl⟩ | ⟨hmem, rfl⟩⟩ := ingest_stored h
  · rw [hdb, map_cancelledRows, if_pos hmem]
    exact Table.map_key_update Disclosure.disclosureId (seenAgain_id _)
  · rw [hdb, map_cancelledRows, if_neg hmem, List.map_append]
    rfl

/-- **Versions.** An ingest replaces the version of its own disclosure if it brings one. -/
theorem versionOf_after (h : db.ingest sha lower input = .ok (o, db')) (x : String) :
    db'.versionOf x = if x = input.disclosureId sha lower then
      input.sourceVersionId.or (db.versionOf x) else db.versionOf x := by
  obtain ⟨-, -, rows, hdb, hrows⟩ := ingest_stored h
  unfold versionOf
  rw [hdb, find_cancelledRows]
  rcases hrows with ⟨hmem, rfl⟩ | ⟨hmem, rfl⟩
  · by_cases hx : x = input.disclosureId sha lower
    · subst hx
      rw [if_pos rfl, Table.find_update_self (seenAgain_id _)]
      obtain ⟨d, hd⟩ : ∃ d, Table.find Disclosure.disclosureId (input.disclosureId sha lower)
          db.disclosures = some d := by
        rw [← Option.isSome_iff_exists, ← not_not (a := _ = true), Option.not_isSome_iff_eq_none,
          Table.find_eq_none]
        intro hnone
        obtain ⟨d, hd, heq⟩ := List.mem_map.1 hmem
        exact hnone d hd heq
      rw [hd]
      rfl
    · rw [if_neg hx, Table.find_update_of_ne (seenAgain_id _) hx]
  · rw [Table.find_append]
    by_cases hx : x = input.disclosureId sha lower
    · subst hx
      have hnone : Table.find Disclosure.disclosureId (input.disclosureId sha lower) db.disclosures =
          none := by
        rw [Table.find_eq_none]
        exact fun d hd heq => hmem (heq ▸ List.mem_map_of_mem hd)
      rw [if_pos rfl, hnone]
      simp [Table.find, DisclosureInput.row]
    · have hnone : Table.find Disclosure.disclosureId x
          [input.row sha lower (db.priorOf sha lower input)] = none := by
        rw [Table.find_eq_none]
        intro d hd heq
        rw [List.mem_singleton.1 hd] at heq
        exact hx heq.symm
      rw [if_neg hx, hnone, Option.or_none]

/-- **Entry points.** A row of a primary source is added only by an ingest of one. -/
theorem hasPrimary_after (h : db.ingest sha lower input = .ok (o, db')) (x : String) :
    db'.HasPrimary x ↔ db.HasPrimary x ∨ x = input.disclosureId sha lower ∧
      input.authority.isPrimary = true ∧ db.sourceTaken (input.sourceRow sha lower) = false := by
  obtain ⟨-, hsources, -⟩ := ingest_stored h
  unfold HasPrimary
  rw [hsources]
  cases htaken : db.sourceTaken (input.sourceRow sha lower) with
  | true =>
    rw [if_pos rfl]
    exact ⟨Or.inl, fun h => h.elim id fun h => absurd h.2.2 (by decide)⟩
  | false =>
    rw [if_neg (by decide)]
    constructor
    · rintro ⟨r, hr, hid, hprimary⟩
      rcases List.mem_append.1 hr with hr | hr
      · exact .inl ⟨r, hr, hid, hprimary⟩
      · rw [List.mem_singleton.1 hr] at hid hprimary
        exact .inr ⟨hid.symm, hprimary, rfl⟩
    · rintro (⟨r, hr, hid, hprimary⟩ | ⟨rfl, hprimary, -⟩)
      · exact ⟨r, List.mem_append_left _ hr, hid, hprimary⟩
      · exact ⟨_, List.mem_append_right _ (List.mem_singleton_self _), rfl, hprimary⟩

end DisclosureStore

/-! ## Mirrors against primary sources -/

/-- An accepted ingest of a primary source brought this version of the disclosure. -/
def SuppliedByPrimary (sha lower : String → String) (accepted : List DisclosureInput) (id version : String) :
    Prop :=
  ∃ i ∈ accepted, i.authority.isPrimary = true ∧ i.disclosureId sha lower = id ∧
    i.sourceVersionId = some version

instance (sha lower : String → String) (accepted : List DisclosureInput) (id version : String) :
    Decidable (SuppliedByPrimary sha lower accepted id version) :=
  inferInstanceAs (Decidable (∃ i ∈ accepted, _))

/-- What an ingest owes: a disclosure is reported as verified only with a version that a primary
source supplied; an ingest by a mirror changes no verification and replaces no version of a primary
source; an accepted ingest leaves a source row of its entry point. -/
structure AuthorityKept (sha lower : String → String) (s : Ingestion) (input : DisclosureInput) : Prop where
  verified : ∀ d ∈ (s.after sha lower input).db.disclosures,
    ((s.after sha lower input).db.hydrateItem d).primaryVerified = true →
      ∃ v ∈ d.sourceVersionId,
        SuppliedByPrimary sha lower (s.after sha lower input).accepted d.disclosureId v
  mirror : input.authority.isPrimary = false → ∀ d ∈ s.db.disclosures,
    ∃ d' ∈ (s.after sha lower input).db.disclosures, d'.disclosureId = d.disclosureId ∧
      ((s.after sha lower input).db.hydrateItem d').primaryVerified = (s.db.hydrateItem d).primaryVerified ∧
      ∀ v ∈ d.sourceVersionId, SuppliedByPrimary sha lower s.accepted d.disclosureId v →
        d'.sourceVersionId = some v
  entry : (s.db.ingest sha lower input).isOk = true → ∃ r ∈ (s.after sha lower input).db.sources,
    r.disclosureId = input.disclosureId sha lower ∧ r.providerId = input.providerId ∧
      r.originalUrl = input.originalUrl

/-- When an ingest keeps that. -/
structure BringsNoDoubt (sha lower : String → String) (s : Ingestion) (input : DisclosureInput) : Prop where
  /-- A mirror brings no version, or the stored one, or the disclosure has neither a primary entry
  point nor a version of a primary source. -/
  mirror : input.authority.isPrimary = false → ∀ v ∈ input.sourceVersionId,
    s.db.versionOf (input.disclosureId sha lower) = some v ∨
      ¬ s.db.HasPrimary (input.disclosureId sha lower) ∧
        ∀ w ∈ s.db.versionOf (input.disclosureId sha lower),
          ¬ SuppliedByPrimary sha lower s.accepted (input.disclosureId sha lower) w
  /-- A primary source without a version meets no version that only mirrors supplied, or its entry
  point is registered already. -/
  primary : input.authority.isPrimary = true → input.sourceVersionId = none →
    s.db.sourceTaken (input.sourceRow sha lower) = false →
      ∀ w ∈ s.db.versionOf (input.disclosureId sha lower),
        SuppliedByPrimary sha lower s.accepted (input.disclosureId sha lower) w
  /-- The keys of the entry point are free, or taken by its own row. -/
  entry : s.db.sourceTaken (input.sourceRow sha lower) = true → ∃ r ∈ s.db.sources,
    r.disclosureId = input.disclosureId sha lower ∧ r.providerId = input.providerId ∧
      r.originalUrl = input.originalUrl

/-- What the ingests keep. -/
structure Registered (sha lower : String → String) (s : Ingestion) : Prop where
  ids : (s.db.disclosures.map (·.disclosureId)).Nodup
  owned : ∀ r ∈ s.db.sources, r.disclosureId ∈ s.db.disclosures.map (·.disclosureId)
  verified : ∀ id, s.db.HasPrimary id → ∀ v ∈ s.db.versionOf id, SuppliedByPrimary sha lower s.accepted id v

theorem Ingestion.after_ok (h : s.db.ingest sha lower input = .ok (o, db')) :
    s.after sha lower input = ⟨db', s.accepted ++ [input]⟩ := by
  unfold Ingestion.after
  rw [h]

theorem Ingestion.after_error {e : DisclosureError} (h : s.db.ingest sha lower input = .error e) :
    s.after sha lower input = s := by
  unfold Ingestion.after
  rw [h]

theorem supplied_append {accepted : List DisclosureInput} {id v : String} :
    SuppliedByPrimary sha lower (accepted ++ [input]) id v ↔ SuppliedByPrimary sha lower accepted id v ∨
      input.authority.isPrimary = true ∧ input.disclosureId sha lower = id ∧
        input.sourceVersionId = some v := by
  unfold SuppliedByPrimary
  constructor
  · rintro ⟨i, hi, hfacts⟩
    rcases List.mem_append.1 hi with hi | hi
    · exact .inl ⟨i, hi, hfacts⟩
    · rw [List.mem_singleton.1 hi] at hfacts
      exact .inr hfacts
  · rintro (⟨i, hi, hfacts⟩ | hfacts)
    · exact ⟨i, List.mem_append_left _ hi, hfacts⟩
    · exact ⟨input, List.mem_append_right _ (List.mem_singleton_self _), hfacts⟩

namespace DisclosureStore

/-- What is reported of the rows, as a fact about ids. -/
theorem verified_rows_iff (hids : (db.disclosures.map (·.disclosureId)).Nodup) {P : String → String → Prop} :
    (∀ d ∈ db.disclosures, (db.hydrateItem d).primaryVerified = true →
        ∃ v ∈ d.sourceVersionId, P d.disclosureId v) ↔
      ∀ id, db.HasPrimary id → ∀ v ∈ db.versionOf id, P id v := by
  constructor
  · intro h id hprimary v hv
    unfold versionOf at hv
    obtain ⟨d, hfind, hd⟩ := Option.bind_eq_some_iff.1 hv
    have hid : d.disclosureId = id := Table.key_of_find hfind
    obtain ⟨w, hw, hP⟩ := h d (Table.mem_of_find hfind)
      (primaryVerified_iff.2 ⟨hid ▸ hprimary, by rw [hd]; rfl⟩)
    have heq : v = w := Option.some.inj (hd.symm.trans hw)
    rw [heq, ← hid]
    exact hP
  · intro h d hd hverified
    obtain ⟨hprimary, hsome⟩ := primaryVerified_iff.1 hverified
    obtain ⟨v, hv⟩ := Option.isSome_iff_exists.1 hsome
    exact ⟨v, hv, h _ hprimary v ((versionOf_row hids hd).trans hv)⟩

theorem ids_nodup_after (hids : (db.disclosures.map (·.disclosureId)).Nodup)
    (h : db.ingest sha lower input = .ok (o, db')) : (db'.disclosures.map (·.disclosureId)).Nodup := by
  rw [ids_after h]
  split
  · exact hids
  next hmem => exact List.nodup_append.2 ⟨hids, List.nodup_singleton _, fun a ha b hb heq =>
      hmem (List.mem_singleton.1 hb ▸ heq ▸ ha)⟩

theorem mem_ids_after (h : db.ingest sha lower input = .ok (o, db')) {x : String}
    (hx : x ∈ db.disclosures.map (·.disclosureId)) : x ∈ db'.disclosures.map (·.disclosureId) := by
  rw [ids_after h]
  split
  · exact hx
  · exact List.mem_append_left _ hx

end DisclosureStore

/-- The rows of an ingest's own entry point after it. -/
theorem entry_after (h : s.db.ingest sha lower input = .ok (o, db')) :
    (∃ r ∈ db'.sources, r.disclosureId = input.disclosureId sha lower ∧ r.providerId = input.providerId ∧
        r.originalUrl = input.originalUrl) ↔
      (s.db.sourceTaken (input.sourceRow sha lower) = true → ∃ r ∈ s.db.sources,
        r.disclosureId = input.disclosureId sha lower ∧ r.providerId = input.providerId ∧
          r.originalUrl = input.originalUrl) := by
  obtain ⟨-, hsources, -⟩ := DisclosureStore.ingest_stored h
  rw [hsources]
  cases s.db.sourceTaken (input.sourceRow sha lower) with
  | true => simp only [if_true, forall_const]
  | false =>
    refine ⟨fun _ h => absurd h (by decide), fun _ => ⟨input.sourceRow sha lower, ?_, rfl, rfl, rfl⟩⟩
    exact List.mem_append_right _ (List.mem_singleton_self _)

/-- What an accepted ingest owes, as facts about ids. -/
theorem authorityKept_ids (hs : Registered sha lower s) (h : s.db.ingest sha lower input = .ok (o, db')) :
    AuthorityKept sha lower s input ↔
      (∀ x, db'.HasPrimary x → ∀ v ∈ db'.versionOf x,
          SuppliedByPrimary sha lower (s.accepted ++ [input]) x v) ∧
        (input.authority.isPrimary = false → ∀ x ∈ s.db.disclosures.map (·.disclosureId),
          (db'.HasPrimary x ∧ (db'.versionOf x).isSome ↔ s.db.HasPrimary x ∧ (s.db.versionOf x).isSome) ∧
            ∀ v ∈ s.db.versionOf x, SuppliedByPrimary sha lower s.accepted x v →
              db'.versionOf x = some v) ∧
        ∃ r ∈ db'.sources, r.disclosureId = input.disclosureId sha lower ∧
          r.providerId = input.providerId ∧ r.originalUrl = input.originalUrl := by
  have hids' := DisclosureStore.ids_nodup_after hs.ids h
  have hok : (s.db.ingest sha lower input).isOk = true := by rw [h]; rfl
  have hafter := Ingestion.after_ok h
  constructor
  · intro hkept
    have hverified := hkept.verified
    have hmirror := hkept.mirror
    have hentry := hkept.entry hok
    rw [hafter] at hverified hmirror hentry
    refine ⟨(DisclosureStore.verified_rows_iff hids').1 hverified, fun hm x hx => ?_, hentry⟩
    obtain ⟨d, hd, rfl⟩ := List.mem_map.1 hx
    obtain ⟨d', hd', hid, hsame, hversion⟩ := hmirror hm d hd
    have hv := DisclosureStore.versionOf_row hs.ids hd
    have hv' := DisclosureStore.versionOf_row hids' hd'
    rw [hid] at hv'
    rw [hv, hv', ← DisclosureStore.primaryVerified_iff, ← hsame, DisclosureStore.primaryVerified_iff, hid]
    exact ⟨Iff.rfl, hversion⟩
  · rintro ⟨hverified, hmirror, hentry⟩
    refine ⟨?_, ?_, ?_⟩
    · rw [hafter]
      exact (DisclosureStore.verified_rows_iff hids').2 hverified
    · intro hm d hd
      rw [hafter]
      have hmem : d.disclosureId ∈ s.db.disclosures.map (·.disclosureId) := List.mem_map_of_mem hd
      obtain ⟨hsame, hversion⟩ := hmirror hm _ hmem
      obtain ⟨d', hd', hid⟩ := List.mem_map.1 (DisclosureStore.mem_ids_after h hmem)
      have hv := DisclosureStore.versionOf_row hs.ids hd
      have hv' := DisclosureStore.versionOf_row hids' hd'
      rw [hid] at hv'
      rw [hv, hv'] at hsame
      rw [hv, hv'] at hversion
      refine ⟨d', hd', hid, ?_, hversion⟩
      rw [Bool.eq_iff_iff, DisclosureStore.primaryVerified_iff, DisclosureStore.primaryVerified_iff, hid]
      exact hsame
    · intro _
      rw [hafter]
      exact hentry

/-- **One accepted ingest** keeps primary sources apart from mirrors exactly if it brings no doubt. -/
theorem authority_kept_iff (hs : Registered sha lower s)
    (h : s.db.ingest sha lower input = .ok (o, db')) :
    AuthorityKept sha lower s input ↔ BringsNoDoubt sha lower s input := by
  rw [authorityKept_ids hs h, entry_after h]
  have hversion := DisclosureStore.versionOf_after h
  have hprimary := DisclosureStore.hasPrimary_after h
  have hversion' := hversion (input.disclosureId sha lower)
  have hprimary' := hprimary (input.disclosureId sha lower)
  rw [if_pos rfl] at hversion'
  constructor
  · rintro ⟨hverified, hmirror, hentry⟩
    refine ⟨fun hm v hv => ?_, fun hp hnone htaken w hw => ?_, hentry⟩
    · rw [Option.mem_def.1 hv, Option.some_or] at hversion'
      by_cases hsame : s.db.versionOf (input.disclosureId sha lower) = some v
      · exact .inl hsame
      · refine .inr ⟨fun hhas => ?_, fun w hw hsupplied => ?_⟩
        · obtain ⟨r, hr, hrid, -⟩ := id hhas
          have hmem := hs.owned r hr
          rw [hrid] at hmem
          obtain ⟨hiff, hkeep⟩ := hmirror hm _ hmem
          -- the disclosure is verified now, so it was before, with a version that a primary supplied
          have hold := (hiff.1 ⟨hprimary'.2 (.inl hhas), by rw [hversion']; rfl⟩).2
          obtain ⟨w, hw⟩ := Option.isSome_iff_exists.1 hold
          have hkept := hkeep w hw (hs.verified _ hhas w hw)
          exact hsame (by rw [hw, ← hkept, hversion'])
        · have hmem : input.disclosureId sha lower ∈ s.db.disclosures.map (·.disclosureId) := by
            unfold DisclosureStore.versionOf at hw
            obtain ⟨d, hfind, -⟩ := Option.bind_eq_some_iff.1 hw
            rw [← Table.key_of_find hfind]
            exact List.mem_map_of_mem (Table.mem_of_find hfind)
          have hkept := (hmirror hm _ hmem).2 w hw hsupplied
          exact hsame (by rw [Option.mem_def.1 hw, ← hkept, hversion'])
    · rw [hnone, Option.none_or] at hversion'
      have hsupplied := hverified _ (hprimary'.2 (.inr ⟨rfl, hp, htaken⟩)) w (by rw [hversion']; exact hw)
      rcases supplied_append.1 hsupplied with hold | ⟨-, -, hnew⟩
      · exact hold
      · rw [hnone] at hnew
        cases hnew
  · intro hdoubt
    refine ⟨fun x hhas v hv => supplied_append.2 ?_, fun hm x hx => ?_, hdoubt.entry⟩
    · by_cases hx : x = input.disclosureId sha lower
      · subst hx
        rw [hversion'] at hv
        cases hp : input.authority.isPrimary with
        | false =>
          have hhas : s.db.HasPrimary (input.disclosureId sha lower) :=
            (hprimary'.1 hhas).resolve_right fun hnew => absurd (hp.symm.trans hnew.2.1) (by decide)
          cases hbrought : input.sourceVersionId with
          | none =>
            rw [hbrought, Option.none_or] at hv
            exact .inl (hs.verified _ hhas v hv)
          | some w =>
            rw [hbrought, Option.some_or] at hv
            rcases hdoubt.mirror hp w hbrought with hsame | ⟨hnot, -⟩
            · exact .inl (hs.verified _ hhas v (hsame.trans hv))
            · exact absurd hhas hnot
        | true =>
          cases hbrought : input.sourceVersionId with
          | none =>
            rw [hbrought, Option.none_or] at hv
            rcases hprimary'.1 hhas with hold | ⟨-, -, htaken⟩
            · exact .inl (hs.verified _ hold v hv)
            · exact .inl (hdoubt.primary hp hbrought htaken v hv)
          | some w =>
            rw [hbrought, Option.some_or] at hv
            exact .inr ⟨rfl, rfl, hv⟩
      · rw [hversion x, if_neg hx] at hv
        exact .inl (hs.verified x (((hprimary x).1 hhas).resolve_right fun hnew => hx hnew.1) v hv)
    · have hsame : db'.HasPrimary x ↔ s.db.HasPrimary x :=
        (hprimary x).trans (or_iff_left fun hnew => absurd (hm.symm.trans hnew.2.1) (by decide))
      rw [hsame]
      by_cases hx : x = input.disclosureId sha lower
      · subst hx
        cases hbrought : input.sourceVersionId with
        | none =>
          rw [hversion', hbrought, Option.none_or]
          exact ⟨Iff.rfl, fun v hv _ => hv⟩
        | some w =>
          rw [hversion', hbrought, Option.some_or]
          rcases hdoubt.mirror hm w hbrought with hold | ⟨hnot, hunsupplied⟩
          · rw [hold]
            exact ⟨Iff.rfl, fun v hv _ => hv⟩
          · exact ⟨iff_of_false (fun h => hnot h.1) (fun h => hnot h.1),
              fun v hv hsupplied => absurd hsupplied (hunsupplied v hv)⟩
      · rw [hversion x, if_neg hx]
        exact ⟨Iff.rfl, fun v hv _ => hv⟩

theorem Registered.start : Registered sha lower {} where
  ids := List.nodup_nil
  owned := fun _ hr => absurd hr List.not_mem_nil
  verified := fun _ hhas => absurd hhas fun ⟨_, hr, _⟩ => absurd hr List.not_mem_nil

/-- An ingest that keeps primary sources apart leaves the tables registered. -/
theorem Registered.step (hs : Registered sha lower s) (hkept : AuthorityKept sha lower s input) :
    Registered sha lower (s.after sha lower input) := by
  cases h : s.db.ingest sha lower input with
  | error e =>
    rw [Ingestion.after_error h]
    exact hs
  | ok result =>
    obtain ⟨o, db'⟩ := result
    have hverified := ((authorityKept_ids hs h).1 hkept).1
    rw [Ingestion.after_ok h]
    refine ⟨DisclosureStore.ids_nodup_after hs.ids h, fun r hr => ?_, hverified⟩
    obtain ⟨-, hsources, -⟩ := DisclosureStore.ingest_stored h
    have hmem : r ∈ s.db.sources ∨ r = input.sourceRow sha lower := by
      simp only [hsources] at hr
      split at hr
      · exact .inl hr
      · exact (List.mem_append.1 hr).imp_right List.mem_singleton.1
    rcases hmem with hr | rfl
    · exact DisclosureStore.mem_ids_after h (hs.owned r hr)
    · show input.disclosureId sha lower ∈ db'.disclosures.map (·.disclosureId)
      rw [DisclosureStore.ids_after h]
      split
      · assumption
      · exact List.mem_append_right _ (List.mem_singleton_self _)

/-- A refused ingest changes nothing. -/
theorem authority_kept_refused (hs : Registered sha lower s) {e : DisclosureError}
    (h : s.db.ingest sha lower input = .error e) : AuthorityKept sha lower s input := by
  refine ⟨?_, fun _ d hd => ⟨d, ?_, rfl, ?_, fun v hv _ => hv⟩, fun hok => ?_⟩
  · rw [Ingestion.after_error h]
    exact (DisclosureStore.verified_rows_iff hs.ids).2 hs.verified
  · rw [Ingestion.after_error h]
    exact hd
  · rw [Ingestion.after_error h]
  · rw [h] at hok
    cases hok

/-- **Mirrors are never primary** along a run, exactly if no accepted ingest of it brings doubt. -/
theorem mirrors_never_primary (sha lower : String → String) (inputs : List DisclosureInput) :
    Along (Ingestion.after sha lower) (AuthorityKept sha lower) {} inputs ↔
      Along (Ingestion.after sha lower) (fun s input => (s.db.ingest sha lower input).isOk = true →
        BringsNoDoubt sha lower s input) {} inputs := by
  refine along_iff (fun s input hkept (hs : Registered sha lower s) => hs.step hkept) ?_ inputs {}
    Registered.start
  intro s input hs
  cases h : s.db.ingest sha lower input with
  | error e =>
    refine iff_of_true (authority_kept_refused hs h) fun hok => ?_
    cases hok
  | ok result => exact (authority_kept_iff hs h).trans ⟨fun hdoubt _ => hdoubt, fun hdoubt => hdoubt rfl⟩

section

private def exchangeNotice : DisclosureInput where
  providerId := "sse"
  providerName := "SSE"
  authority := .exchange
  entryKind := "index"
  upstreamId := none
  originalUrl := "sse/1"
  title := "Contract"
  publishedAt := some 0
  publicationPrecision := "second"
  firstSeenAt := 10
  latencyMs := none
  securities := [⟨"600001", "A", "SSE"⟩]
  attachments := []
  sourceVersionId := none
  extractionStatus := "parsed"
  reviewReason := none

/-- An exchange lists an announcement without an archived version; a mirror then brings one. -/
theorem mirror_verifies : ¬ ∀ inputs : List DisclosureInput,
    Along (Ingestion.after id String.toLower) (AuthorityKept id String.toLower) {} inputs := by
  intro h
  have hrun := h [exchangeNotice, { exchangeNotice with
    providerId := "mirror", authority := .mirrorDiscovery, originalUrl := "mirror/1",
    sourceVersionId := some "copy" }]
  exact absurd hrun.2.1.verified (by decide +kernel)

end

end Astock
