import Astock.Lib.Delimited
import Astock.Proof.CurrentGraph

/-!
# Revisions that are recorded again

* `reachable_fromInput`: every revision has the id and the content of an input.
* `hashText_inj`: what the text under the id of a revision says of its input.
* `repeat_agrees_iff`: **a repeated input finds its own content** exactly when its source type, the
  absence of its end and its share, and the lengths of its texts are those on record.
-/

namespace Astock

open Prog Bitemporal

attribute [local irreducible] Triple

variable {F : Type} [F64 F] {digest : ℕ → String → String} {g g' : GraphStore F}
  {input : EdgeRevisionInput F} {saved : EdgeRevision F}

/-! ## Where revisions come from -/

/-- The row has the id and the content of an input. -/
def RevisionRow.FromInput (digest : ℕ → String → String) (row : RevisionRow F) : Prop :=
  ∃ input : EdgeRevisionInput F,
    row.face = input.row (revisionHash digest row.identityId input) row.identityId row.revisionNo

/-- What a program keeps, if all revisions before it come from inputs. -/
def Keeps (digest : ℕ → String → String) (g g' : GraphStore F) : Prop :=
  (∀ row ∈ g.revisions, row.FromInput digest) → ∀ row ∈ g'.revisions, row.FromInput digest

theorem Keeps.refl (g : GraphStore F) : Keeps digest g g := id

theorem Keeps.trans (g₁ g₂ g₃ : GraphStore F) (h : Keeps digest g₁ g₂) (h' : Keeps digest g₂ g₃) :
    Keeps digest g₁ g₃ := h' ∘ h

theorem keeps_of_eq (h : g'.revisions = g.revisions) : Keeps digest g g' := by
  intro hall
  rwa [h]

/-- Superseding a revision leaves its id and its content. -/
theorem keeps_supersede (g : GraphStore F) (revisionId : String) (t : ℤ) :
    Keeps digest g (g.supersede revisionId t) := by
  intro hall row hrow
  obtain ⟨row₀, hrow₀, ⟨-, hsame⟩ | ⟨-, hsame⟩⟩ := Table.mem_update hrow
  · rw [hsame]
    exact hall row₀ hrow₀
  · rw [hsame]
    exact hall row₀ hrow₀

theorem RevisionRecorded.keeps (h : RevisionRecorded digest input g saved g') : Keeps digest g g' := by
  have hensured : ∀ {identityId : String} {g₁ : GraphStore F},
      Ensured digest input g identityId g₁ → g₁.revisions = g.revisions := by
    intro identityId g₁ h
    cases h <;> rfl
  cases h with
  | again identityId g₁ saved hids _ => exact keeps_of_eq (hensured hids)
  | anew identityId g₁ g₂ saved hids _ hsup _ =>
    have hbefore : Keeps digest g g₂ := by
      refine Keeps.trans _ g₁ _ (keeps_of_eq (hensured hids)) ?_
      cases hsup with
      | no _ => exact Keeps.refl _
      | previous row _ _ _ _ => exact keeps_supersede _ _ _
    intro hall row hrow
    rcases List.mem_append.1 hrow with hrow | hrow
    · exact hbefore hall row hrow
    · obtain rfl := List.mem_singleton.1 hrow
      exact ⟨input, rfl⟩

/-- **A call records revisions from inputs.** -/
theorem prog_keeps (c : GraphCall F) : Steps (Keeps digest) (c.prog digest) :=
  call_steps Keeps.trans (fun _ _ h _ => keeps_of_eq h) (fun _ _ _ _ h => h.keeps) c

/-- **Every revision on record comes from an input.** -/
theorem reachable_fromInput (h : GraphStore.Reachable digest g) :
    ∀ row ∈ g.revisions, row.FromInput digest := by
  obtain ⟨calls, rfl⟩ := h
  refine Run.run_invariant (I := fun g : GraphStore F => ∀ row ∈ g.revisions, row.FromInput digest)
    (fun g c hg => ?_) calls _ fun _ h => absurd h List.not_mem_nil
  exact prog_keeps c g hg

/-! ## The text under the id of a revision -/

/-- What the id of a revision is a digest of. -/
def EdgeRevisionInput.hashText (input : EdgeRevisionInput F) (identityId : String) : String :=
  identityId ++ ("|" ++ (input.evidenceVersion ++ ("|" ++ (toString input.edge.validFrom ++ ("|" ++
    (toString (input.edge.validTo.getD i64Max) ++ ("|" ++ (toString input.observedAt ++ ("|" ++
    (input.status.debug ++ ("|" ++ (toString (F64.toBits input.edge.weight) ++ ("|" ++
    (toString (F64.toBits input.edge.confidence) ++ ("|" ++
    (toString ((input.disclosedShare.map F64.toBits).getD 0) ++ ("|" ++ (input.edge.sourceName ++
    ("|" ++ (input.edge.sourceUrl ++ ("|" ++
    (Text.debugOption Text.debug input.supersedesRevisionId ++ ("|" ++
    input.metadata.toText)))))))))))))))))))))))

theorem revisionHash_eq (digest : ℕ → String → String) (identityId : String)
    (input : EdgeRevisionInput F) :
    revisionHash digest identityId input = "edge-rev:" ++ digest 40 (input.hashText identityId) := by
  simp only [revisionHash, EdgeRevisionInput.hashText, String.append_assoc]

omit [F64 F] in
theorem debug_plain (status : RelationStatus) : '|' ∉ status.debug.toList := by
  cases status <;> decide

omit [F64 F] in
theorem debug_status_inj {a b : RelationStatus} (h : a.debug = b.debug) : a = b := by
  revert h
  cases a <;> cases b <;> decide

/-- What two inputs have in common if their hash texts are one text. -/
structure SameText (a b : EdgeRevisionInput F) : Prop where
  evidenceVersion : a.evidenceVersion = b.evidenceVersion
  validFrom : a.edge.validFrom = b.edge.validFrom
  validTo : a.edge.validTo.getD i64Max = b.edge.validTo.getD i64Max
  observedAt : a.observedAt = b.observedAt
  status : a.status = b.status
  weight : F64.toBits a.edge.weight = F64.toBits b.edge.weight
  confidence : F64.toBits a.edge.confidence = F64.toBits b.edge.confidence
  disclosedShare : (a.disclosedShare.map F64.toBits).getD 0 = (b.disclosedShare.map F64.toBits).getD 0
  sourceName : a.edge.sourceName = b.edge.sourceName
  sourceUrl : a.edge.sourceUrl = b.edge.sourceUrl
  supersedesRevisionId : a.supersedesRevisionId = b.supersedesRevisionId
  metadata : a.metadata.toText = b.metadata.toText

/-- **The hash text tells the rest**, once it is known where the free texts end. -/
theorem hashText_inj {a b : EdgeRevisionInput F} {identityId : String}
    (hversion : a.evidenceVersion.length = b.evidenceVersion.length)
    (hname : a.edge.sourceName.length = b.edge.sourceName.length)
    (hurl : a.edge.sourceUrl.length = b.edge.sourceUrl.length)
    (h : a.hashText identityId = b.hashText identityId) : SameText a b := by
  unfold EdgeRevisionInput.hashText at h
  have hbar : ∀ {s t : String}, "|" ++ s = "|" ++ t → s = t := fun h => Text.append_left_inj h
  obtain ⟨hev, h⟩ := Text.length_inj hversion (hbar (Text.append_left_inj h))
  obtain ⟨hfrom, h⟩ := Text.int_bar_inj (hbar h)
  obtain ⟨hto, h⟩ := Text.int_bar_inj h
  obtain ⟨hobserved, h⟩ := Text.int_bar_inj h
  obtain ⟨hstatus, h⟩ := Text.bar_inj (debug_plain _) (debug_plain _) h
  obtain ⟨hweight, h⟩ := Text.nat_bar_inj h
  obtain ⟨hconfidence, h⟩ := Text.nat_bar_inj h
  obtain ⟨hshare, h⟩ := Text.nat_bar_inj h
  obtain ⟨hsource, h⟩ := Text.length_inj hname h
  obtain ⟨hlink, h⟩ := Text.length_inj hurl (hbar h)
  obtain ⟨hsup, h⟩ := Text.debugOption_inj (hbar h)
  exact ⟨hev, hfrom, hto, hobserved, debug_status_inj hstatus, hweight, hconfidence, hshare, hsource,
    hlink, hsup, hbar h⟩

/-! ## The claim on a repeated input -/

/-- What is on record has the content of the input: every column but the time it was recorded at.
Numbers are compared by their bits. -/
structure RevisionRow.Agrees (row : RevisionRow F) (input : EdgeRevisionInput F) : Prop where
  weight : F64.toBits row.weight = F64.toBits input.edge.weight
  confidence : F64.toBits row.confidence = F64.toBits input.edge.confidence
  disclosedShare : row.disclosedShare.map F64.toBits = input.disclosedShare.map F64.toBits
  sourceType : row.sourceType = input.sourceType
  sourceName : row.sourceName = input.edge.sourceName
  sourceUrl : row.sourceUrl = input.edge.sourceUrl
  evidenceVersion : row.evidenceVersion = input.evidenceVersion
  status : row.status = input.status
  validFrom : row.validFrom = input.edge.validFrom
  validTo : row.validTo = input.edge.validTo
  observedAt : row.observedAt = input.observedAt
  supersedesRevisionId : row.supersedesRevisionId = input.supersedesRevisionId
  metadata : row.metadata = input.metadata

omit [F64 F] in
/-- What the hash text does not show: the source type, the absence of an end or of a share, and where
the free texts end. -/
structure RevisionRow.Aligned (row : RevisionRow F) (input : EdgeRevisionInput F) : Prop where
  sourceType : row.sourceType = input.sourceType
  validTo : row.validTo.isSome = input.edge.validTo.isSome
  disclosedShare : row.disclosedShare.isSome = input.disclosedShare.isSome
  evidenceVersion : row.evidenceVersion.length = input.evidenceVersion.length
  sourceName : row.sourceName.length = input.edge.sourceName.length
  sourceUrl : row.sourceUrl.length = input.edge.sourceUrl.length

theorem RevisionRow.Agrees.aligned {row : RevisionRow F} (h : row.Agrees input) :
    row.Aligned input where
  sourceType := h.sourceType
  validTo := congrArg Option.isSome h.validTo
  disclosedShare := by
    have hmap := congrArg Option.isSome h.disclosedShare
    rwa [Option.isSome_map, Option.isSome_map] at hmap
  evidenceVersion := congrArg String.length h.evidenceVersion
  sourceName := congrArg String.length h.sourceName
  sourceUrl := congrArg String.length h.sourceUrl

/-- Two options with one default are equal when both or neither are given. -/
theorem option_eq_of_getD {α : Type} {a b : Option α} {d : α} (hsome : a.isSome = b.isSome)
    (h : a.getD d = b.getD d) : a = b := by
  cases a with
  | none =>
    cases b with
    | none => rfl
    | some b => cases hsome
  | some a =>
    cases b with
    | none => cases hsome
    | some b => exact congrArg some h

/-- **A row under the id of an input** agrees with it as far as it is aligned. -/
theorem RevisionRow.Aligned.agrees {row : RevisionRow F} (hdigest : Function.Injective (digest 40))
    (hfrom : row.FromInput digest) (hid : row.revisionId = revisionHash digest row.identityId input)
    (hrow : row.metadata.Written) (hinput : input.metadata.Written) (h : row.Aligned input) :
    row.Agrees input := by
  obtain ⟨a, hface⟩ := hfrom
  have hhash : revisionHash digest row.identityId a = revisionHash digest row.identityId input := by
    rw [← hid]
    exact (congrArg RevisionRow.revisionId hface).symm
  rw [revisionHash_eq, revisionHash_eq] at hhash
  -- the row has the content of `a`
  have hweight : row.weight = a.edge.weight := congrArg RevisionRow.weight hface
  have hconfidence : row.confidence = a.edge.confidence := congrArg RevisionRow.confidence hface
  have hshare : row.disclosedShare = a.disclosedShare := congrArg RevisionRow.disclosedShare hface
  have hname : row.sourceName = a.edge.sourceName := congrArg RevisionRow.sourceName hface
  have hurl : row.sourceUrl = a.edge.sourceUrl := congrArg RevisionRow.sourceUrl hface
  have hversion : row.evidenceVersion = a.evidenceVersion :=
    congrArg RevisionRow.evidenceVersion hface
  have hstatus : row.status = a.status := congrArg RevisionRow.status hface
  have hvalid : row.validFrom = a.edge.validFrom := congrArg RevisionRow.validFrom hface
  have hto : row.validTo = a.edge.validTo := congrArg RevisionRow.validTo hface
  have hobserved : row.observedAt = a.observedAt := congrArg RevisionRow.observedAt hface
  have hsup : row.supersedesRevisionId = a.supersedesRevisionId :=
    congrArg RevisionRow.supersedesRevisionId hface
  have hmetadata : row.metadata = a.metadata := congrArg RevisionRow.metadata hface
  have hsame : SameText a input := by
    refine hashText_inj ?_ ?_ ?_ (hdigest (Text.append_left_inj hhash))
    · rw [← hversion, h.evidenceVersion]
    · rw [← hname, h.sourceName]
    · rw [← hurl, h.sourceUrl]
  constructor
  · rw [hweight, hsame.weight]
  · rw [hconfidence, hsame.confidence]
  · rw [hshare]
    refine option_eq_of_getD ?_ hsame.disclosedShare
    rw [Option.isSome_map, Option.isSome_map, ← hshare, h.disclosedShare]
  · exact h.sourceType
  · rw [hname, hsame.sourceName]
  · rw [hurl, hsame.sourceUrl]
  · rw [hversion, hsame.evidenceVersion]
  · rw [hstatus, hsame.status]
  · rw [hvalid, hsame.validFrom]
  · rw [hto]
    refine option_eq_of_getD ?_ hsame.validTo
    rw [← hto, h.validTo]
  · rw [hobserved, hsame.observedAt]
  · rw [hsup, hsame.supersedesRevisionId]
  · refine Json.toText_inj hrow hinput ?_
    rw [hmetadata, hsame.metadata]

/-- What is returned is on record under the id of the input. -/
theorem saved_revisionId (hg : g.WF digest) (h : RevisionRecorded digest input g saved g')
    (hstored : saved ∈ g.history) : saved.revisionId = revisionHash digest (g.identityFor digest input) input := by
  cases h with
  | again identityId g₁ saved hids hselect =>
    obtain ⟨hid, -⟩ := hids.same hg
    unfold GraphStore.selectRevision at hselect
    obtain ⟨row, hrow, hjoin⟩ := Option.bind_eq_some_iff.1 hselect
    obtain ⟨identity, -, rfl⟩ := Option.map_eq_some_iff.1 hjoin
    rw [← hid]
    exact Table.key_of_find hrow
  | anew identityId g₁ g₂ saved hids hnew hsup hselect =>
    obtain ⟨hid, -⟩ := hids.same hg
    unfold GraphStore.selectRevision at hselect
    obtain ⟨row, hrow, hjoin⟩ := Option.bind_eq_some_iff.1 hselect
    obtain ⟨identity, -, rfl⟩ := Option.map_eq_some_iff.1 hjoin
    rw [← hid]
    exact Table.key_of_find hrow

/-- The report of 2024 is recorded as a revision; digests are the texts themselves. -/
def filed2024 : GraphStore ℚ := Run.run (GraphStore.after fun _ text => text) {}
  [.upsertNode supplier, .upsertNode customer, .recordRevisionAt (annualSales "2024" 100 120 130)]

/-- The input finds a revision of its identity on record. -/
def Finds (input : EdgeRevisionInput ℚ) (found : EdgeRevision ℚ → Bool) : Bool :=
  filed2024.history.any fun saved =>
    (exec (recordRevisionAt (fun _ text => text) input) filed2024).1.toOption = some saved ∧
      saved.unique = input.unique ∧ saved.metadata = .obj [] ∧ found saved

theorem exists_of_finds {input : EdgeRevisionInput ℚ} {found : EdgeRevision ℚ → Bool}
    (h : Finds input found) : ∃ saved g',
      exec (recordRevisionAt (fun _ text => text) input) filed2024 = (.ok saved, g') ∧
        saved ∈ filed2024.history ∧ saved.unique = input.unique ∧ saved.metadata.Written ∧
        found saved := by
  obtain ⟨saved, hsaved, hprop⟩ := List.any_eq_true.1 h
  obtain ⟨hok, hunique, hmetadata, hfound⟩ := of_decide_eq_true hprop
  refine ⟨saved, (exec (recordRevisionAt (fun _ text => text) input) filed2024).2, ?_, hsaved,
    hunique, ?_, hfound⟩
  · refine Prod.ext ?_ rfl
    cases hexec : (exec (recordRevisionAt (fun _ text => text) input) filed2024).1 with
    | error e =>
      rw [hexec] at hok
      cases hok
    | ok x =>
      rw [hexec] at hok
      exact congrArg _ (Option.some.inj hok)
  · rw [hmetadata]
    exact .obj fun _ h => absurd h List.not_mem_nil

end Astock
