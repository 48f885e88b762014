import Astock.Proof.DisclosureSources
import Mathlib.Logic.Relation

/-!
# Revision and cancellation links

An ingest looks the prior announcement up anew each time. The link to it is written once, with the
row; the mark on it is written at every ingest of a cancellation.

* `row_after`: what an accepted ingest does to the links of a row.
* `Linked`: what every run keeps whose cancellations stay in order: links lead to stored
  disclosures, a revision to one that was ingested before it, a cancelled one to a later one.
* `links_kept_iff`: an ingest keeps the links in order, and a repeated one leaves them alone, exactly
  if a cancellation that is stored already finds none to mark but those it came after, and when it is
  repeated those it has marked.
* `links_in_order`: the same for whole runs.
-/

namespace Astock

open Run

variable {sha lower : String → String} {db db' : DisclosureStore} {input : DisclosureInput}
  {o : IngestOutcome} {s : Ingestion}

/-- What links a disclosure to others, and its status. -/
def Disclosure.links (d : Disclosure) : String × DisclosureStatus × Option String × Option String :=
  (d.disclosureId, d.status, d.revisionOf, d.cancelledBy)

/-- The place of the first accepted ingest of a disclosure. -/
def firstIngest (sha lower : String → String) (accepted : List DisclosureInput) (id : String) : ℕ :=
  accepted.findIdx fun i => i.disclosureId sha lower = id

/-- The links of a new row. -/
theorem row_links (prior : Option String) : (input.row sha lower prior).disclosureId =
    input.disclosureId sha lower ∧ (input.row sha lower prior).revisionOf = prior ∧
      (input.row sha lower prior).cancelledBy = none := ⟨rfl, rfl, rfl⟩

namespace DisclosureStore

/-- The prior announcement is stored, under another id. -/
theorem priorOf_stored {p : String} (h : db.priorOf sha lower input = some p) :
    p ∈ db.disclosures.map (·.disclosureId) ∧ p ≠ input.disclosureId sha lower := by
  unfold priorOf at h
  split at h
  · unfold findPriorRevision at h
    obtain ⟨d, hfind, rfl⟩ := Option.map_eq_some_iff.1 h
    have hmem := (List.mem_insertionSort _).1 (List.mem_of_find?_eq_some hfind)
    obtain ⟨hd, hfacts⟩ := List.mem_filter.1 hmem
    rw [decide_eq_true_eq] at hfacts
    exact ⟨List.mem_map_of_mem hd, hfacts.2⟩
  · cases h

theorem mem_cancelledRows {prior : Option String} {id : String} {rows : List Disclosure} {d' : Disclosure}
    (h : d' ∈ cancelledRows input prior id rows) : ∃ d ∈ rows, d'.disclosureId = d.disclosureId ∧
      d'.revisionOf = d.revisionOf ∧ (d'.cancelledBy = d.cancelledBy ∨
        input.status = .cancelled ∧ prior = some d.disclosureId ∧ d'.cancelledBy = some id) := by
  cases prior with
  | none => exact ⟨d', h, rfl, rfl, .inl rfl⟩
  | some p =>
    by_cases hc : input.status = .cancelled
    · simp only [cancelledRows, if_pos hc] at h
      obtain ⟨d, hd, hd'⟩ := List.mem_map.1 h
      by_cases hp : d.disclosureId = p
      · rw [if_pos hp] at hd'
        subst hd'
        exact ⟨d, hd, rfl, rfl, .inr ⟨hc, by rw [hp], rfl⟩⟩
      · rw [if_neg hp] at hd'
        subst hd'
        exact ⟨d, hd, rfl, rfl, .inl rfl⟩
    · simp only [cancelledRows, if_neg hc] at h
      exact ⟨d', h, rfl, rfl, .inl rfl⟩

/-- **A row after an ingest.** It keeps its id and what it revises; its mark is the old one or names
the cancellation that was ingested. A new row is not marked. -/
theorem row_after (h : db.ingest sha lower input = .ok (o, db')) {d' : Disclosure}
    (hd' : d' ∈ db'.disclosures) :
    (∃ d ∈ db.disclosures, d'.disclosureId = d.disclosureId ∧ d'.revisionOf = d.revisionOf ∧
        (d'.cancelledBy = d.cancelledBy ∨ input.status = .cancelled ∧
          db.priorOf sha lower input = some d.disclosureId ∧
            d'.cancelledBy = some (input.disclosureId sha lower))) ∨
      input.disclosureId sha lower ∉ db.disclosures.map (·.disclosureId) ∧
        d'.disclosureId = input.disclosureId sha lower ∧ d'.revisionOf = db.priorOf sha lower input ∧
          d'.cancelledBy = none := by
  obtain ⟨-, -, rows, hdb, hrows⟩ := ingest_stored h
  rw [hdb] at hd'
  obtain ⟨x, hx, hid, hrevision, hmark⟩ := mem_cancelledRows hd'
  rcases hrows with ⟨-, rfl⟩ | ⟨hnew, rfl⟩
  · obtain ⟨d, hd, hseen⟩ := List.mem_map.1 hx
    have hlinks : x.disclosureId = d.disclosureId ∧ x.revisionOf = d.revisionOf ∧
        x.cancelledBy = d.cancelledBy := by
      split at hseen
      · subst hseen
        exact ⟨rfl, rfl, rfl⟩
      · subst hseen
        exact ⟨rfl, rfl, rfl⟩
    obtain ⟨hxid, hxrevision, hxmark⟩ := hlinks
    rw [hxid, hxmark] at hmark
    exact .inl ⟨d, hd, hid.trans hxid, hrevision.trans hxrevision, hmark⟩
  · rcases List.mem_append.1 hx with hx | hx
    · exact .inl ⟨x, hx, hid, hrevision, hmark⟩
    · obtain ⟨hrowid, hrowrevision, hrowmark⟩ := @row_links sha lower input (db.priorOf sha lower input)
      rw [List.mem_singleton.1 hx, hrowid] at hid
      rw [List.mem_singleton.1 hx, hrowrevision] at hrevision
      rw [List.mem_singleton.1 hx, hrowid, hrowmark] at hmark
      refine .inr ⟨hnew, hid, hrevision, ?_⟩
      rcases hmark with hmark | ⟨-, hprior, -⟩
      · exact hmark
      · exact absurd rfl (priorOf_stored hprior).2

/-- An ingest of a cancellation marks the prior announcement. -/
theorem marked_after (h : db.ingest sha lower input = .ok (o, db')) (hc : input.status = .cancelled)
    {p : String} (hp : db.priorOf sha lower input = some p) :
    ∃ d' ∈ db'.disclosures, d'.disclosureId = p ∧ d'.cancelledBy = some (input.disclosureId sha lower) := by
  obtain ⟨-, -, rows, hdb, hrows⟩ := ingest_stored h
  have hmem : p ∈ rows.map (·.disclosureId) := by
    rcases hrows with ⟨-, rfl⟩ | ⟨-, rfl⟩
    · have hids := @Table.map_key_update _ _ _ (input.disclosureId sha lower) db.disclosures
        Disclosure.disclosureId _ (seenAgain_id (input.row sha lower (db.priorOf sha lower input)))
      rw [hids]
      exact (priorOf_stored hp).1
    · rw [List.map_append]
      exact List.mem_append_left _ (priorOf_stored hp).1
  obtain ⟨d, hd, hid⟩ := List.mem_map.1 hmem
  have hmark : ∀ id, (markCancelled id d).cancelledBy = some id := fun _ => rfl
  refine ⟨markCancelled _ d, ?_, (markCancelled_id _ d).trans hid, hmark _⟩
  rw [hdb, hp]
  simp only [cancelledRows, if_pos hc]
  exact List.mem_map.2 ⟨d, hd, by rw [if_pos hid]⟩

/-- **A repeated ingest** leaves the links alone when the prior announcement is marked already. -/
theorem links_after (hids : (db.disclosures.map (·.disclosureId)).Nodup)
    (h : db.ingest sha lower input = .ok (o, db'))
    (hstored : input.disclosureId sha lower ∈ db.disclosures.map (·.disclosureId))
    (hmarked : input.status = .cancelled → ∀ p ∈ db.priorOf sha lower input,
      ∃ d ∈ db.disclosures, d.disclosureId = p ∧ d.cancelledBy = some (input.disclosureId sha lower)) :
    db'.disclosures.map Disclosure.links = db.disclosures.map Disclosure.links := by
  obtain ⟨-, -, rows, hdb, hrows⟩ := ingest_stored h
  obtain ⟨-, rfl⟩ := hrows.resolve_right fun hnew => hnew.1 hstored
  have hseen : ∀ r ∈ db.disclosures, Disclosure.links (if r.disclosureId = input.disclosureId sha lower
      then seenAgain (input.row sha lower (db.priorOf sha lower input)) r else r) = r.links := by
    intro r _
    split <;> rfl
  rw [hdb]
  cases hp : db.priorOf sha lower input with
  | none =>
    simp only [cancelledRows, Table.update, List.map_map]
    exact List.map_congr_left fun r hr => by rw [← hseen r hr, hp]; rfl
  | some p =>
    by_cases hc : input.status = .cancelled
    · obtain ⟨d, hd, hid, hmark⟩ := hmarked hc p hp
      simp only [cancelledRows, if_pos hc, Table.update, List.map_map]
      refine List.map_congr_left fun r hr => ?_
      rw [← hseen r hr, hp]
      simp only [Function.comp_apply]
      by_cases hrp : r.disclosureId = p
      · have hne : r.disclosureId ≠ input.disclosureId sha lower :=
          hrp ▸ (priorOf_stored hp).2
        have hrd : r = d := List.inj_on_of_nodup_map hids hr hd (hrp.trans hid.symm)
        rw [if_neg hne, if_pos hrp, hrd]
        unfold Disclosure.links markCancelled
        rw [hmark]
      · have hkept : (if r.disclosureId = input.disclosureId sha lower then
            seenAgain (input.row sha lower (some p)) r else r).disclosureId = r.disclosureId := by
          split <;> rfl
        have hnot : ¬ (if r.disclosureId = input.disclosureId sha lower then
            seenAgain (input.row sha lower (some p)) r else r).disclosureId = p := fun h =>
          hrp (hkept.symm.trans h)
        rw [if_neg hnot]
    · simp only [cancelledRows, if_neg hc, Table.update, List.map_map]
      exact List.map_congr_left fun r hr => by rw [← hseen r hr, hp]; rfl

end DisclosureStore

/-! ## Links and the order of ingestion -/

/-- A disclosure revises another. -/
def RevisionOf (db : DisclosureStore) (id prior : String) : Prop :=
  ∃ d ∈ db.disclosures, d.disclosureId = id ∧ d.revisionOf = some prior

/-- What an ingest owes: a disclosure that is cancelled was first ingested before what cancels it;
what a disclosure revises was first ingested before it, so the revisions have no cycle; repeating an
input that was ingested leaves every status and link as it is. -/
structure LinksKept (sha lower : String → String) (s : Ingestion) (input : DisclosureInput) : Prop where
  cancelled : ∀ d ∈ (s.after sha lower input).db.disclosures, ∀ c ∈ d.cancelledBy,
    firstIngest sha lower (s.after sha lower input).accepted d.disclosureId <
      firstIngest sha lower (s.after sha lower input).accepted c
  revised : ∀ d ∈ (s.after sha lower input).db.disclosures, ∀ p ∈ d.revisionOf,
    firstIngest sha lower (s.after sha lower input).accepted p <
      firstIngest sha lower (s.after sha lower input).accepted d.disclosureId
  acyclic : ∀ id, ¬ Relation.TransGen (RevisionOf (s.after sha lower input).db) id id
  repeated : input ∈ s.accepted → (s.after sha lower input).db.disclosures.map Disclosure.links =
    s.db.disclosures.map Disclosure.links

/-- When an ingest keeps that: a cancellation whose disclosure is stored already finds no prior
announcement, or one that was first ingested before it and, when the input is repeated, is marked by
it already. -/
def MarksInOrder (sha lower : String → String) (s : Ingestion) (input : DisclosureInput) : Prop :=
  input.status = .cancelled → input.disclosureId sha lower ∈ s.db.disclosures.map (·.disclosureId) →
    ∀ p ∈ s.db.priorOf sha lower input,
      firstIngest sha lower s.accepted p < firstIngest sha lower s.accepted (input.disclosureId sha lower) ∧
        (input ∈ s.accepted → ∃ d ∈ s.db.disclosures, d.disclosureId = p ∧
          d.cancelledBy = some (input.disclosureId sha lower))

/-- What such ingests keep. -/
structure Linked (sha lower : String → String) (s : Ingestion) : Prop where
  ids : (s.db.disclosures.map (·.disclosureId)).Nodup
  ingested : ∀ id, id ∈ s.db.disclosures.map (·.disclosureId) ↔
    ∃ i ∈ s.accepted, i.disclosureId sha lower = id
  stored : ∀ d ∈ s.db.disclosures,
    (∀ p ∈ d.revisionOf, p ∈ s.db.disclosures.map (·.disclosureId)) ∧
      ∀ c ∈ d.cancelledBy, c ∈ s.db.disclosures.map (·.disclosureId)
  cancelled : ∀ d ∈ s.db.disclosures, ∀ c ∈ d.cancelledBy,
    firstIngest sha lower s.accepted d.disclosureId < firstIngest sha lower s.accepted c
  revised : ∀ d ∈ s.db.disclosures, ∀ p ∈ d.revisionOf,
    firstIngest sha lower s.accepted p < firstIngest sha lower s.accepted d.disclosureId

theorem Linked.start : Linked sha lower {} where
  ids := List.nodup_nil
  ingested := fun _ => iff_of_false List.not_mem_nil fun ⟨_, hi, _⟩ => absurd hi List.not_mem_nil
  stored := fun _ hd => absurd hd List.not_mem_nil
  cancelled := fun _ hd => absurd hd List.not_mem_nil
  revised := fun _ hd => absurd hd List.not_mem_nil

/-- A stored disclosure was ingested at some place, which later ingests do not move. -/
theorem Linked.firstIngest_lt (hs : Linked sha lower s) {id : String}
    (hid : id ∈ s.db.disclosures.map (·.disclosureId)) :
    firstIngest sha lower s.accepted id < s.accepted.length := by
  obtain ⟨i, hi, heq⟩ := (hs.ingested id).1 hid
  exact List.findIdx_lt_length_of_exists ⟨i, hi, decide_eq_true heq⟩

theorem Linked.firstIngest_append (hs : Linked sha lower s) {id : String}
    (hid : id ∈ s.db.disclosures.map (·.disclosureId)) :
    firstIngest sha lower (s.accepted ++ [input]) id = firstIngest sha lower s.accepted id := by
  have hlt := hs.firstIngest_lt hid
  unfold firstIngest at hlt ⊢
  rw [List.findIdx_append, if_pos hlt]

/-- A new disclosure is the last one. -/
theorem Linked.firstIngest_new (hs : Linked sha lower s)
    (hnew : input.disclosureId sha lower ∉ s.db.disclosures.map (·.disclosureId)) :
    firstIngest sha lower (s.accepted ++ [input]) (input.disclosureId sha lower) = s.accepted.length := by
  have hnone : ∀ i ∈ s.accepted, decide (i.disclosureId sha lower = input.disclosureId sha lower) = false := by
    intro i hi
    exact decide_eq_false fun heq => hnew ((hs.ingested _).2 ⟨i, hi, heq⟩)
  have hlen : s.accepted.findIdx (fun i => decide (i.disclosureId sha lower = input.disclosureId sha lower)) =
      s.accepted.length := List.findIdx_eq_length.2 hnone
  unfold firstIngest
  rw [List.findIdx_append, hlen, if_neg (lt_irrefl _)]
  simp

/-- What an accepted ingest keeps whatever it marks. -/
theorem Linked.revised_after (hs : Linked sha lower s) (h : s.db.ingest sha lower input = .ok (o, db')) :
    ∀ d' ∈ db'.disclosures, ∀ p ∈ d'.revisionOf,
      firstIngest sha lower (s.accepted ++ [input]) p <
        firstIngest sha lower (s.accepted ++ [input]) d'.disclosureId := by
  intro d' hd' p hp
  rcases DisclosureStore.row_after h hd' with ⟨d, hd, hid, hrevision, -⟩ | ⟨hnew, hid, hrevision, -⟩
  · rw [hrevision] at hp
    rw [hid, hs.firstIngest_append ((hs.stored d hd).1 p hp),
      hs.firstIngest_append (List.mem_map_of_mem hd)]
    exact hs.revised d hd p hp
  · rw [hrevision] at hp
    have hstored := (DisclosureStore.priorOf_stored hp).1
    rw [hid, hs.firstIngest_append hstored, hs.firstIngest_new hnew]
    exact hs.firstIngest_lt hstored

theorem Linked.stored_after (hs : Linked sha lower s) (h : s.db.ingest sha lower input = .ok (o, db')) :
    ∀ d' ∈ db'.disclosures, (∀ p ∈ d'.revisionOf, p ∈ db'.disclosures.map (·.disclosureId)) ∧
      ∀ c ∈ d'.cancelledBy, c ∈ db'.disclosures.map (·.disclosureId) := by
  have hself : input.disclosureId sha lower ∈ db'.disclosures.map (·.disclosureId) := by
    rw [DisclosureStore.ids_after h]
    split
    · assumption
    · exact List.mem_append_right _ (List.mem_singleton_self _)
  intro d' hd'
  rcases DisclosureStore.row_after h hd' with ⟨d, hd, -, hrevision, hmark⟩ | ⟨-, -, hrevision, hmark⟩
  · refine ⟨fun p hp => ?_, fun c hc => ?_⟩
    · rw [hrevision] at hp
      exact DisclosureStore.mem_ids_after h ((hs.stored d hd).1 p hp)
    · rcases hmark with hmark | ⟨-, -, hmark⟩
      · rw [hmark] at hc
        exact DisclosureStore.mem_ids_after h ((hs.stored d hd).2 c hc)
      · rw [hmark] at hc
        rw [← Option.some.inj hc]
        exact hself
  · refine ⟨fun p hp => ?_, fun c hc => ?_⟩
    · rw [hrevision] at hp
      exact DisclosureStore.mem_ids_after h (DisclosureStore.priorOf_stored hp).1
    · rw [hmark] at hc
      cases hc

/-- Links that lead to what was ingested before have no cycle. -/
theorem acyclic_of_revised {rank : String → ℕ}
    (h : ∀ d ∈ db.disclosures, ∀ p ∈ d.revisionOf, rank p < rank d.disclosureId) (id : String) :
    ¬ Relation.TransGen (RevisionOf db) id id := by
  have hless : ∀ a b, Relation.TransGen (RevisionOf db) a b → rank b < rank a := by
    intro a b hab
    induction hab with
    | single hlink =>
      obtain ⟨d, hd, rfl, hp⟩ := hlink
      exact h d hd _ hp
    | tail _ hlink ih =>
      obtain ⟨d, hd, rfl, hp⟩ := hlink
      exact (h d hd _ hp).trans ih
  exact fun hcycle => absurd (hless id id hcycle) (lt_irrefl _)

/-- **One accepted ingest** keeps the links in order exactly if it marks in order. -/
theorem links_kept_iff (hs : Linked sha lower s) (h : s.db.ingest sha lower input = .ok (o, db')) :
    LinksKept sha lower s input ↔ MarksInOrder sha lower s input := by
  have hafter := Ingestion.after_ok h
  constructor
  · intro hkept hc hstored p hp
    have hp' : s.db.priorOf sha lower input = some p := hp
    obtain ⟨d', hd', hid, hmark⟩ := DisclosureStore.marked_after h hc hp'
    have hpstored := (DisclosureStore.priorOf_stored hp').1
    refine ⟨?_, fun hrepeat => ?_⟩
    · have horder := hkept.cancelled
      rw [hafter] at horder
      have hlt := horder d' hd' _ hmark
      rw [hid, hs.firstIngest_append hpstored, hs.firstIngest_append hstored] at hlt
      exact hlt
    · have hsame := hkept.repeated hrepeat
      rw [hafter] at hsame
      have hmem : d'.links ∈ s.db.disclosures.map Disclosure.links := hsame ▸ List.mem_map_of_mem hd'
      obtain ⟨d, hd, hlinks⟩ := List.mem_map.1 hmem
      unfold Disclosure.links at hlinks
      simp only [Prod.mk.injEq] at hlinks
      exact ⟨d, hd, hlinks.1.trans hid, hlinks.2.2.2.trans hmark⟩
  · intro hmarks
    have hrevised := hs.revised_after h
    refine ⟨?_, ?_, ?_, fun hrepeat => ?_⟩
    · rw [hafter]
      intro d' hd' c hcancel
      rcases DisclosureStore.row_after h hd' with ⟨d, hd, hid, -, hmark | ⟨hc, hprior, hmark⟩⟩ |
        ⟨-, -, -, hmark⟩
      · rw [hmark] at hcancel
        rw [hid, hs.firstIngest_append (List.mem_map_of_mem hd),
          hs.firstIngest_append ((hs.stored d hd).2 c hcancel)]
        exact hs.cancelled d hd c hcancel
      · rw [hmark] at hcancel
        rw [hid, ← Option.some.inj hcancel, hs.firstIngest_append (List.mem_map_of_mem hd)]
        by_cases hstored : input.disclosureId sha lower ∈ s.db.disclosures.map (·.disclosureId)
        · rw [hs.firstIngest_append hstored]
          exact (hmarks hc hstored _ hprior).1
        · rw [hs.firstIngest_new hstored]
          exact hs.firstIngest_lt (List.mem_map_of_mem hd)
      · rw [hmark] at hcancel
        cases hcancel
    · rw [hafter]
      exact hrevised
    · rw [hafter]
      exact acyclic_of_revised hrevised
    · rw [hafter]
      have hstored := (hs.ingested _).2 ⟨input, hrepeat, rfl⟩
      exact DisclosureStore.links_after hs.ids h hstored fun hc p hp => (hmarks hc hstored p hp).2 hrepeat

/-- An ingest that keeps the links in order leads to such a state again. -/
theorem Linked.step (hs : Linked sha lower s) (hkept : LinksKept sha lower s input) :
    Linked sha lower (s.after sha lower input) := by
  cases h : s.db.ingest sha lower input with
  | error e =>
    rw [Ingestion.after_error h]
    exact hs
  | ok result =>
    obtain ⟨o, db'⟩ := result
    have hcancelled := hkept.cancelled
    rw [Ingestion.after_ok h] at hcancelled ⊢
    refine ⟨DisclosureStore.ids_nodup_after hs.ids h, fun id => ?_, hs.stored_after h, hcancelled,
      hs.revised_after h⟩
    have hingested := hs.ingested id
    show id ∈ db'.disclosures.map (·.disclosureId) ↔ ∃ i ∈ s.accepted ++ [input], i.disclosureId sha lower = id
    rw [DisclosureStore.ids_after h]
    simp only [List.mem_append, List.mem_singleton, or_and_right, exists_or, exists_eq_left]
    rw [← hingested]
    split
    next hmem => exact ⟨Or.inl, fun h => h.elim (fun h => h) fun heq => heq ▸ hmem⟩
    next hmem => rw [List.mem_append, List.mem_singleton, eq_comm (a := id)]

/-- A refused ingest changes nothing. -/
theorem links_kept_refused (hs : Linked sha lower s) {e : DisclosureError}
    (h : s.db.ingest sha lower input = .error e) : LinksKept sha lower s input := by
  refine ⟨?_, ?_, ?_, fun _ => ?_⟩
  · rw [Ingestion.after_error h]
    exact hs.cancelled
  · rw [Ingestion.after_error h]
    exact hs.revised
  · rw [Ingestion.after_error h]
    exact acyclic_of_revised hs.revised
  · rw [Ingestion.after_error h]

/-- **Links in order** along a run, exactly if every accepted ingest of it marks in order. -/
theorem links_in_order (sha lower : String → String) (inputs : List DisclosureInput) :
    Along (Ingestion.after sha lower) (LinksKept sha lower) {} inputs ↔
      Along (Ingestion.after sha lower) (fun s input => (s.db.ingest sha lower input).isOk = true →
        MarksInOrder sha lower s input) {} inputs := by
  refine along_iff (fun s input hkept (hs : Linked sha lower s) => hs.step hkept) ?_ inputs {} Linked.start
  intro s input hs
  cases h : s.db.ingest sha lower input with
  | error e =>
    refine iff_of_true (links_kept_refused hs h) fun hok => ?_
    cases hok
  | ok result => exact (links_kept_iff hs h).trans ⟨fun hmarks _ => hmarks, fun hmarks => hmarks rfl⟩

/-- New inputs arrive in the order in which they were first seen; earlier ones may come again. -/
def Arriving (inputs : List DisclosureInput) : Prop :=
  ∀ n (h : n < inputs.length), inputs[n] ∉ inputs.take n →
    ∀ i ∈ inputs.take n, i.firstSeenAt ≤ inputs[n].firstSeenAt

instance (inputs : List DisclosureInput) : Decidable (Arriving inputs) :=
  inferInstanceAs (Decidable (∀ n (_ : n < inputs.length), _))

section

private def notice : DisclosureInput where
  providerId := "sse"
  providerName := "SSE"
  authority := .exchange
  entryKind := "index"
  upstreamId := none
  originalUrl := "sse/1"
  title := "A"
  publishedAt := some 0
  publicationPrecision := "second"
  firstSeenAt := 10
  latencyMs := none
  securities := [⟨"600001", "A", "SSE"⟩]
  attachments := []
  sourceVersionId := none
  extractionStatus := "parsed"
  reviewReason := none

private def cancellation : DisclosureInput :=
  { notice with originalUrl := "sse/2", title := "A取消", firstSeenAt := 20 }

private def laterNotice : DisclosureInput :=
  { notice with originalUrl := "sse/3", publishedAt := some 86400, firstSeenAt := 30 }

/-- An announcement is cancelled, a new one comes out under the same title, and the page with the
cancellation is polled again: the new announcement is marked as cancelled. -/
theorem newNotice_cancelled : ¬ ∀ inputs : List DisclosureInput, Arriving inputs →
    Along (Ingestion.after id String.toLower) (LinksKept id String.toLower) {} inputs := by
  intro h
  have hrun := h [notice, cancellation, laterNotice, cancellation] (by decide)
  have hmem : cancellation ∈ (run (Ingestion.after id String.toLower) {}
      [notice, cancellation, laterNotice]).accepted := by decide +kernel
  exact absurd (hrun.2.2.2.1.repeated hmem) (by decide +kernel)

end

end Astock
