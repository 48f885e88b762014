import Astock.Spec.Bitemporal

/-!
# What a call on the graph does

* `ensureIdentity_spec`, `supersedePrevious_spec`, `recordRevisionAt_spec`,
  `upsertRevisionAt_spec`: what a recorded revision changes, and that a rejected one changes
  nothing.
* `GraphChange`: the changes of single rows, and `prog_changes`: a call is a chain of them.
* `GraphStore.WF`: what holds of the tables of every graph that calls lead to
  (`reachable_wf`).
-/

namespace Astock

open Prog Bitemporal

variable {F : Type} {digest : ℕ → String → String} {g g' : GraphStore F}
  {input : EdgeRevisionInput F}

/-! ## Recording a revision -/

theorem requireNodes_spec (first second : String) (g : GraphStore F) :
    Triple (· = g) (requireNodes first second)
      (fun _ g' => ((g.node first).isSome ∧ (g.node second).isSome) ∧ g' = g) fun _ g' => g' = g := by
  unfold requireNodes
  refine triple_get_eq (triple_guardOr (fun hfirst => ?_) fun _ _ hs => hs)
  intro s hs
  rw [exec_guardOr]
  cases hsecond : (g.node second).isSome with
  | true => exact ⟨⟨hfirst, rfl⟩, hs⟩
  | false => exact hs

/-- The identity of the input is there, or was inserted. -/
inductive Ensured (digest : ℕ → String → String) (input : EdgeRevisionInput F)
    (g : GraphStore F) : String → GraphStore F → Prop
  | found (row : IdentityRow) :
      Table.find IdentityRow.unique (input.identity digest).unique g.identities = some row →
      Ensured digest input g row.identityId g
  | added : Table.find IdentityRow.unique (input.identity digest).unique g.identities = none →
      g.identityOf (input.identity digest).identityId = none →
      Ensured digest input g (input.identity digest).identityId
        (g.addIdentity (input.identity digest))

theorem ensureIdentity_spec (digest : ℕ → String → String) (input : EdgeRevisionInput F)
    (g : GraphStore F) :
    Triple (· = g) (ensureIdentity digest input) (Ensured digest input g) fun _ g' => g' = g := by
  unfold ensureIdentity
  refine triple_get_eq ?_
  dsimp only
  split
  · rename_i row hrow
    refine triple_pure fun _ hs => ?_
    rw [hs]
    exact .found row hrow
  · rename_i hnone
    refine triple_guardOr (fun hfree => ?_) fun _ _ hs => hs
    have hfree : g.identityOf (input.identity digest).identityId = none := by simpa using hfree
    refine triple_bind (Q := fun _ g' => g' = g.addIdentity (input.identity digest))
      (fun _ _ => rfl) fun _ => triple_pure fun _ hs => ?_
    rw [hs]
    exact .added hnone hfree

/-- The revision that the input supersedes is marked. -/
inductive Superseded (input : EdgeRevisionInput F) (identityId : String) (g : GraphStore F) :
    GraphStore F → Prop
  | no : input.supersedesRevisionId = none → Superseded input identityId g g
  | previous (row : RevisionRow F) : input.supersedesRevisionId = some row.revisionId →
      Table.find RevisionRow.revisionId row.revisionId g.revisions = some row →
      row.identityId = identityId →
      ((∃ t ∈ row.supersededAt, t ≤ input.recordedAt) ∨ row.recordedAt ≤ input.recordedAt) →
      Superseded input identityId g (g.supersede row.revisionId input.recordedAt)

theorem supersedePrevious_spec (input : EdgeRevisionInput F) (identityId : String)
    (g : GraphStore F) :
    Triple (· = g) (supersedePrevious input identityId) (fun _ => Superseded input identityId g)
      fun _ g' => g' = g := by
  unfold supersedePrevious
  split
  · rename_i hnone
    exact triple_pure fun _ hs => hs ▸ .no hnone
  · rename_i previous hprevious
    refine triple_get_eq ?_
    split
    · exact triple_throw fun _ hs => hs
    · rename_i row hrow
      obtain ⟨hfind, hid⟩ := Option.filter_eq_some_iff.1 hrow
      have hkey := Table.key_of_find hfind
      subst hkey
      refine triple_guardOr (fun hcheck => ?_) fun _ _ hs => hs
      intro _ _
      exact .previous row hprevious hfind (by simpa using hid) (by simpa using hcheck)

variable [F64 F]

/-- What recording an input leads to: it was recorded before, or its row is added. -/
inductive RevisionRecorded (digest : ℕ → String → String) (input : EdgeRevisionInput F)
    (g : GraphStore F) : EdgeRevision F → GraphStore F → Prop
  | again (identityId : String) (g₁ : GraphStore F) (saved : EdgeRevision F) :
      Ensured digest input g identityId g₁ →
      g₁.selectRevision (revisionHash digest identityId input) = some saved →
      RevisionRecorded digest input g saved g₁
  | anew (identityId : String) (g₁ g₂ : GraphStore F) (saved : EdgeRevision F) :
      Ensured digest input g identityId g₁ →
      g₁.selectRevision (revisionHash digest identityId input) = none →
      Superseded input identityId g₁ g₂ →
      (g₂.addRevision (input.row (revisionHash digest identityId input) identityId
        (g₁.nextRevisionNo identityId))).selectRevision
          (revisionHash digest identityId input) = some saved →
      RevisionRecorded digest input g saved (g₂.addRevision (input.row
        (revisionHash digest identityId input) identityId (g₁.nextRevisionNo identityId)))

theorem insertRevision_spec (digest : ℕ → String → String) (input : EdgeRevisionInput F)
    (g : GraphStore F) :
    Triple (· = g) (insertRevision digest input) (RevisionRecorded digest input g) fun _ _ => True := by
  unfold insertRevision
  refine triple_bind ((ensureIdentity_spec digest input g).conseq (fun _ h => h) (fun _ _ h => h)
    fun _ _ _ => trivial) fun identityId => triple_each fun g₁ hensured => triple_get_eq ?_
  split
  · rename_i saved hsaved
    exact triple_pure fun _ hs => hs ▸ .again identityId g₁ saved hensured hsaved
  · rename_i hnew
    refine triple_get_eq (triple_bind ((supersedePrevious_spec input identityId g₁).conseq
      (fun _ h => h) (fun _ _ h => h) fun _ _ _ => trivial) fun _ => triple_each fun g₂ hsup =>
        triple_modify_eq (triple_get_eq ?_))
    split
    · rename_i saved hsaved
      exact triple_pure fun _ hs => hs ▸ .anew identityId g₁ g₂ saved hensured hnew hsup hsaved
    · exact triple_throw fun _ _ => trivial

-- a triple is proved by the rules from here on
attribute [local irreducible] Triple

/-- An input that is recorded is valid, and its ends exist. -/
structure RevisionAccepted (input : EdgeRevisionInput F) (g : GraphStore F) : Prop where
  valid : validateRevisionInput input = .ok ()
  src : (g.node input.edge.src).isSome
  dst : (g.node input.edge.dst).isSome

theorem recordRevisionAt_spec (digest : ℕ → String → String) (input : EdgeRevisionInput F)
    (g : GraphStore F) :
    Triple (· = g) (recordRevisionAt digest input)
      (fun saved g' => RevisionAccepted input g ∧ RevisionRecorded digest input g saved g') fun _ g' => g' = g := by
  unfold recordRevisionAt
  split
  · exact triple_throw fun _ hs => hs
  · rename_i hvalid
    refine triple_bind (requireNodes_spec _ _ g) fun _ => triple_pure_pre fun hnodes => ?_
    exact (triple_atomically (insertRevision_spec digest input g)).conseq (fun _ h => h)
      (fun _ _ h => ⟨⟨hvalid, hnodes.1, hnodes.2⟩, h⟩) fun _ _ h => h.2

theorem upsertRevisionAt_spec (digest : ℕ → String → String) (input : EdgeRevisionInput F)
    (g : GraphStore F) :
    Triple (· = g) (upsertRevisionAt digest input)
      (fun saved g' => RevisionAccepted input g ∧ ∃ g₁, RevisionRecorded digest input g saved g₁ ∧
        g' = g₁.putEdge input.projection) fun _ g' => g' = g := by
  unfold upsertRevisionAt
  refine triple_bind (recordRevisionAt_spec digest input g) fun saved => triple_each fun g₁ h =>
    triple_modify_eq (triple_pure fun _ hs => ⟨h.1, g₁, h.2, hs⟩)

/-! ## Calls as changes of rows -/

/-- A change of one row. What is recorded of relations and merges is recorded at times `ok`. -/
inductive GraphChange (digest : ℕ → String → String) (ok : ℤ → Prop) (g : GraphStore F) :
    GraphStore F → Prop
  | node (n : Node) : GraphChange digest ok g (g.putNode n)
  | identity (row : IdentityRow) : (g.node row.src).isSome → (g.node row.dst).isSome →
      g.identityOf row.identityId = none →
      Table.find IdentityRow.unique row.unique g.identities = none →
      GraphChange digest ok g (g.addIdentity row)
  | supersede (revisionId : String) (t : ℤ) : ok t →
      GraphChange digest ok g (g.supersede revisionId t)
  | revision (row : RevisionRow F) : (g.identityOf row.identityId).isSome →
      g.selectRevision row.revisionId = none →
      row.revisionNo = g.nextRevisionNo row.identityId → ok row.recordedAt →
      GraphChange digest ok g (g.addRevision row)
  | edge (e : Edge F) : GraphChange digest ok g (g.putEdge e)
  | merge (row : EntityMergeRevision) : (g.node row.fromNodeId).isSome →
      (g.node row.toNodeId).isSome →
      Table.find EntityMergeRevision.mergeId row.mergeId g.merges = none → ok row.recordedAt →
      GraphChange digest ok g (g.addMerge row)
  | snapshot (row : SnapshotRecord) :
      row.snapshotId = snapshotHash digest row.businessTime row.knowledgeTime row.revisionIds
        row.mergeIds →
      Table.find SnapshotRecord.snapshotId row.snapshotId g.snapshots = none →
      GraphChange digest ok g (g.addSnapshot row)

/-- A chain of changes. -/
abbrev GraphChanges (digest : ℕ → String → String) (ok : ℤ → Prop) :
    GraphStore F → GraphStore F → Prop :=
  Relation.ReflTransGen (GraphChange digest ok)

omit [F64 F] in
theorem nextRevisionNo_supersede (g : GraphStore F) (revisionId : String) (t : ℤ)
    (identityId : String) :
    (g.supersede revisionId t).nextRevisionNo identityId = g.nextRevisionNo identityId := by
  have hsame : ∀ rows : List (RevisionRow F),
      ((Table.update RevisionRow.revisionId revisionId (·.supersede t) rows).filter
        (·.identityId = identityId)).map (·.revisionNo) =
      (rows.filter (·.identityId = identityId)).map (·.revisionNo) := by
    intro rows
    induction rows with
    | nil => rfl
    | cons row rest ih =>
      unfold Table.update RevisionRow.supersede at *
      by_cases hid : row.revisionId = revisionId <;> by_cases hrow : row.identityId = identityId <;>
        simp [hid, hrow, ih]
  unfold GraphStore.nextRevisionNo GraphStore.supersede
  rw [hsame]

omit [F64 F] in
theorem find_supersede (g : GraphStore F) (revisionId previous : String) (t : ℤ) :
    Table.find RevisionRow.revisionId revisionId (g.supersede previous t).revisions =
      (Table.find RevisionRow.revisionId revisionId g.revisions).map
        fun row => if revisionId = previous then row.supersede t else row := by
  unfold GraphStore.supersede
  have hkey : ∀ row : RevisionRow F, (row.supersede t).revisionId = row.revisionId := fun _ => rfl
  by_cases hid : revisionId = previous
  · subst hid
    simp [Table.find_update_self hkey]
  · simp [Table.find_update_of_ne hkey hid, hid]

omit [F64 F] in
theorem selectRevision_supersede (g : GraphStore F) (revisionId previous : String) (t : ℤ)
    (h : g.selectRevision revisionId = none) :
    (g.supersede previous t).selectRevision revisionId = none := by
  unfold GraphStore.selectRevision at *
  rw [find_supersede]
  rw [Option.bind_eq_none_iff] at h ⊢
  intro row hrow
  obtain ⟨row₀, hrow₀, rfl⟩ := Option.map_eq_some_iff.1 hrow
  have hnone := h row₀ hrow₀
  unfold GraphStore.joined GraphStore.identityOf at *
  rw [Option.map_eq_none_iff] at hnone ⊢
  split
  · exact hnone
  · exact hnone

section Changes

variable {ok : ℤ → Prop} {saved : EdgeRevision F} {identityId : String}

omit [F64 F] in
theorem Ensured.changes (hsrc : (g.node input.edge.src).isSome)
    (hdst : (g.node input.edge.dst).isSome) (h : Ensured digest input g identityId g') :
    GraphChanges digest ok g g' ∧ (g'.identityOf identityId).isSome := by
  cases h with
  | found row hrow =>
    refine ⟨.refl, ?_⟩
    have hmem := Table.mem_of_find hrow
    cases hfind : g.identityOf row.identityId with
    | none => exact absurd rfl ((Table.find_eq_none _).1 hfind row hmem)
    | some _ => rfl
  | added hscope hfree =>
    refine ⟨.single (.identity _ hsrc hdst hfree hscope), ?_⟩
    unfold GraphStore.identityOf GraphStore.addIdentity at *
    rw [Table.find_append, hfree]
    simp [Table.find]

omit [F64 F] in
theorem Superseded.changes (hok : ok input.recordedAt) (h : Superseded input identityId g g') :
    GraphChanges digest ok g g' := by
  cases h with
  | no _ => exact .refl
  | previous row _ _ _ _ => exact .single (.supersede _ _ hok)

omit [F64 F] in
/-- Superseding changes neither the identities nor the numbers of the revisions. -/
theorem Superseded.same (h : Superseded input identityId g g') {revisionId : String}
    (hnew : g.selectRevision revisionId = none) :
    g'.identities = g.identities ∧ g'.selectRevision revisionId = none ∧
      g'.nextRevisionNo identityId = g.nextRevisionNo identityId := by
  cases h with
  | no _ => exact ⟨rfl, hnew, rfl⟩
  | previous row _ _ _ _ =>
    exact ⟨rfl, selectRevision_supersede g _ _ _ hnew, nextRevisionNo_supersede g _ _ _⟩

theorem RevisionRecorded.changes (haccepted : RevisionAccepted input g) (hok : ok input.recordedAt)
    (h : RevisionRecorded digest input g saved g') : GraphChanges digest ok g g' := by
  cases h with
  | again identityId g₁ saved hensured _ => exact (hensured.changes haccepted.src haccepted.dst).1
  | anew identityId g₁ g₂ saved hensured hnew hsup _ =>
    have hidentity : GraphChanges digest ok g g₁ ∧ (g₁.identityOf identityId).isSome :=
      hensured.changes haccepted.src haccepted.dst
    obtain ⟨hchanges, hid⟩ := hidentity
    obtain ⟨hids, hnew', hno⟩ := hsup.same hnew
    refine (hchanges.trans (hsup.changes hok)).tail (.revision _ ?_ hnew' hno.symm hok)
    unfold GraphStore.identityOf at *
    rw [hids]
    exact hid

/-- A program that leads to a chain of changes, whichever exit it takes. -/
def Changing (digest : ℕ → String → String) (ok : ℤ → Prop) {α : Type} (x : GraphProg F α) :
    Prop :=
  ∀ g, Triple (· = g) x (fun _ => GraphChanges digest ok g) fun _ => GraphChanges digest ok g

omit [F64 F] in
theorem Changing.seq {α β : Type} {x : GraphProg F α} {f : α → GraphProg F β}
    (hx : Changing digest ok x) (hf : ∀ a, Changing digest ok (f a)) :
    Changing digest ok (x >>= f) := by
  intro g
  refine triple_bind (hx g) fun a => triple_each fun g₁ hchanges => ?_
  exact (hf a g₁).conseq (fun _ h => h) (fun _ _ h => hchanges.trans h) fun _ _ h => hchanges.trans h

omit [F64 F] in
theorem changing_pure {α : Type} (a : α) : Changing (F := F) digest ok (pure a) :=
  fun _ => triple_pure fun _ hs => hs ▸ .refl

omit [F64 F] in
theorem Changing.drop {α : Type} {x : GraphProg F α} (hx : Changing digest ok x) :
    Changing digest ok (do let _ ← x) :=
  hx.seq fun _ => changing_pure ()

omit [F64 F] in
theorem changing_guard {α : Type} {c : Bool} {e : GraphError} {f : Unit → GraphProg F α}
    (hf : c = true → Changing digest ok (f ())) : Changing digest ok (guardOr c e >>= f) :=
  fun g => triple_guardOr (fun hc => hf hc g) fun _ _ hs => hs ▸ .refl

omit [F64 F] in
theorem upsertNode_changing (n : Node) : Changing (F := F) digest ok (upsertNode n) := by
  have hput : Changing (F := F) digest ok (modify (·.putNode n)) :=
    fun _ => triple_modify_last (.single (.node n))
  unfold upsertNode
  split
  · split
    · exact changing_guard fun _ => hput
    · exact fun _ => triple_throw fun _ hs => hs ▸ .refl
  · exact hput

theorem recordRevisionAt_changing (input : EdgeRevisionInput F) (hok : ok input.recordedAt) :
    Changing digest ok (recordRevisionAt digest input) :=
  fun g => (recordRevisionAt_spec digest input g).conseq (fun _ h => h)
    (fun _ _ h => h.2.changes h.1 hok) fun _ _ h => h ▸ .refl

theorem upsertRevisionAt_changing (input : EdgeRevisionInput F) (hok : ok input.recordedAt) :
    Changing digest ok (upsertRevisionAt digest input) := by
  refine fun g => (upsertRevisionAt_spec digest input g).conseq (fun _ h => h) ?_
    fun _ _ h => h ▸ .refl
  rintro saved g' ⟨haccepted, g₁, hrecorded, rfl⟩
  exact (hrecorded.changes haccepted hok).tail (.edge _)

theorem upsertEdge_changing (now : ℤ) (edge : Edge F) (hok : ok now) :
    Changing digest ok (upsertEdge digest now edge) := by
  unfold upsertEdge
  refine changing_guard fun _ => changing_guard fun _ => changing_guard fun _ => fun g => ?_
  refine triple_bind ((requireNodes_spec _ _ g).conseq (fun _ h => h) (fun _ _ h => h.2)
    fun _ _ h => h ▸ .refl) fun _ => ?_
  exact (upsertRevisionAt_changing _ hok).seq (fun _ => changing_pure _) g

omit [F64 F] in
theorem recordEntityMergeAt_changing (fromNodeId toNodeId : String) (validFrom : ℤ)
    (validTo : Option ℤ) (recordedAt : ℤ) (reason : String) (hok : ok recordedAt) :
    Changing (F := F) digest ok
      (recordEntityMergeAt digest fromNodeId toNodeId validFrom validTo recordedAt reason) := by
  unfold recordEntityMergeAt
  refine changing_guard fun _ => changing_guard fun _ => fun g => ?_
  refine triple_bind ((requireNodes_spec _ _ g).conseq (fun _ h => h) (fun _ _ h => h)
    fun _ _ h => h ▸ .refl) fun _ => triple_pure_pre fun hnodes => triple_modify_eq ?_
  refine triple_pure fun s hs => ?_
  rw [hs]
  split
  · exact .refl
  · rename_i hnew
    rw [Option.not_isSome_iff_eq_none] at hnew
    exact .single (.merge _ hnodes.1 hnodes.2 hnew hok)

theorem graphAsOf_changing (now businessTime knowledgeTime : ℤ) :
    Changing (F := F) digest ok (graphAsOf digest now businessTime knowledgeTime) := by
  unfold graphAsOf
  refine changing_guard fun _ => fun g => triple_get_eq (triple_modify_eq ?_)
  refine triple_pure fun s hs => ?_
  rw [hs]
  split
  · exact .refl
  · rename_i hnew
    rw [Option.not_isSome_iff_eq_none] at hnew
    exact .single (.snapshot _ rfl hnew)

theorem graphSnapshot_changing (now : ℤ) (snapshotId : String) :
    Changing (F := F) digest ok (graphSnapshot digest now snapshotId) := by
  intro g
  unfold graphSnapshot
  refine triple_get_eq ?_
  split
  · exact changing_pure _ g
  · rename_i clocks _
    exact (graphAsOf_changing now clocks.businessTime clocks.knowledgeTime).seq
      (fun snapshot => changing_guard fun _ => changing_pure (some snapshot)) g

/-- **A call is a chain of changes**, recorded at the time of the call. -/
theorem prog_changes (c : GraphCall F) (hok : ∀ t ∈ c.recordedAt, ok t) (g : GraphStore F) :
    GraphChanges digest ok g (g.after digest c) := by
  have hchanging : Changing digest ok (c.prog digest) := by
    cases c with
    | upsertNode n => exact upsertNode_changing n
    | upsertEdge now edge => exact upsertEdge_changing now edge (hok now rfl)
    | upsertRevisionAt input =>
      exact (upsertRevisionAt_changing input (hok input.recordedAt rfl)).drop
    | recordRevision now input => exact (recordRevisionAt_changing _ (hok now rfl)).drop
    | recordRevisionAt input =>
      exact (recordRevisionAt_changing input (hok input.recordedAt rfl)).drop
    | recordEntityMergeAt fromNodeId toNodeId validFrom validTo recordedAt reason =>
      exact (recordEntityMergeAt_changing fromNodeId toNodeId validFrom validTo recordedAt reason
        (hok recordedAt rfl)).drop
    | graphAsOf now businessTime knowledgeTime =>
      exact (graphAsOf_changing now businessTime knowledgeTime).drop
    | graphSnapshot now snapshotId => exact (graphSnapshot_changing now snapshotId).drop
  exact (hchanging g).state rfl

end Changes

/-! ## What every call keeps -/

section Steps

variable {R : GraphStore F → GraphStore F → Prop}

/-- **What recording a revision keeps, every call keeps**, when it is about the identities and the
revisions only: no other change touches them. -/
theorem call_steps (htrans : ∀ g₁ g₂ g₃, R g₁ g₂ → R g₂ g₃ → R g₁ g₃)
    (hsame : ∀ g g', g'.revisions = g.revisions → g'.identities = g.identities → R g g')
    (hrecorded : ∀ input g saved g', RevisionRecorded digest input g saved g' → R g g')
    (c : GraphCall F) : Steps R (c.prog digest) := by
  have hrefl : ∀ g, R g g := fun g => hsame g g rfl rfl
  have hguard : ∀ (c : Bool) (e : GraphError), Steps R (guardOr c e) :=
    fun c e => steps_guardOr hrefl c e
  have hdrop : ∀ {α : Type} {x : GraphProg F α}, Steps R x → Steps R (do let _ ← x) :=
    fun hx => steps_bind htrans hx fun _ => steps_pure hrefl _
  have hmodify : ∀ f : GraphStore F → GraphStore F, (∀ g, (f g).revisions = g.revisions) →
      (∀ g, (f g).identities = g.identities) → Steps R (modify f : GraphProg F PUnit) :=
    fun f hrevisions hidentities g => hsame _ _ (hrevisions g) (hidentities g)
  have hnodes : ∀ first second, Steps R (requireNodes (F := F) first second) := fun first second =>
    steps_get fun _ => steps_bind htrans (hguard _ _) fun _ => hguard _ _
  have hrecord : ∀ input, Steps R (recordRevisionAt digest input) := fun input g =>
    ((recordRevisionAt_spec digest input g).conseq (fun _ h => h)
      (fun _ _ h => hrecorded _ _ _ _ h.2) fun _ _ h => h ▸ hrefl g).state rfl
  have hupsert : ∀ input, Steps R (upsertRevisionAt digest input) := fun input =>
    steps_bind htrans (hrecord input) fun _ =>
      steps_bind htrans (hmodify _ (fun _ => rfl) fun _ => rfl) fun _ => steps_pure hrefl _
  have hasOf : ∀ now b k, Steps R (graphAsOf (F := F) digest now b k) := by
    intro now b k
    unfold graphAsOf
    refine steps_bind htrans (hguard _ _) fun _ => steps_get fun _ =>
      steps_bind htrans (hmodify _ (fun g => ?_) fun g => ?_) fun _ => steps_pure hrefl _
    · split <;> rfl
    · split <;> rfl
  cases c with
  | upsertNode node =>
    have hput : Steps R (modify (·.putNode node) : GraphProg F PUnit) :=
      hmodify _ (fun _ => rfl) fun _ => rfl
    simp only [GraphCall.prog, upsertNode]
    split
    · split
      · exact steps_bind htrans (hguard _ _) fun _ => hput
      · exact steps_throw hrefl _
    · exact hput
  | upsertEdge now edge =>
    exact steps_bind htrans (hguard _ _) fun _ => steps_bind htrans (hguard _ _) fun _ =>
      steps_bind htrans (hguard _ _) fun _ => steps_bind htrans (hnodes _ _) fun _ =>
        hdrop (hupsert _)
  | upsertRevisionAt input => exact hdrop (hupsert input)
  | recordRevision now input => exact hdrop (hrecord _)
  | recordRevisionAt input => exact hdrop (hrecord input)
  | recordEntityMergeAt fromNodeId toNodeId validFrom validTo recordedAt reason =>
    refine hdrop (steps_bind htrans (hguard _ _) fun _ => steps_bind htrans (hguard _ _) fun _ =>
      steps_bind htrans (hnodes _ _) fun _ =>
        steps_bind htrans (hmodify _ (fun g => ?_) fun g => ?_) fun _ => steps_pure hrefl _)
    · split <;> rfl
    · split <;> rfl
  | graphAsOf now b k => exact hdrop (hasOf now b k)
  | graphSnapshot now snapshotId =>
    refine hdrop (steps_get fun g => ?_)
    split
    · exact steps_pure hrefl _
    · exact steps_bind htrans (hasOf _ _ _) fun _ =>
        steps_bind htrans (hguard _ _) fun _ => steps_pure hrefl _

end Steps

/-! ## Well-formed tables -/

/-- What the keys and references of the tables promise, and what a snapshot id says. -/
structure GraphStore.WF (digest : ℕ → String → String) (g : GraphStore F) : Prop where
  nodes : (g.nodes.map Node.id).Nodup
  ids : (g.identities.map (·.identityId)).Nodup
  unique : (g.identities.map IdentityRow.unique).Nodup
  ends : ∀ row ∈ g.identities, (g.node row.src).isSome ∧ (g.node row.dst).isSome
  revisions : (g.revisions.map (·.revisionId)).Nodup
  numbers : (g.revisions.map fun row => (row.identityId, row.revisionNo)).Nodup
  known : ∀ row ∈ g.revisions, (g.identityOf row.identityId).isSome
  merged : ∀ row ∈ g.merges, (g.node row.fromNodeId).isSome ∧ (g.node row.toNodeId).isSome
  snapshots : ∀ row ∈ g.snapshots, row.snapshotId =
    snapshotHash digest row.businessTime row.knowledgeTime row.revisionIds row.mergeIds

section WF

omit [F64 F]

theorem wf_empty (digest : ℕ → String → String) : ({} : GraphStore F).WF digest where
  nodes := List.nodup_nil
  ids := List.nodup_nil
  unique := List.nodup_nil
  ends := fun _ h => absurd h List.not_mem_nil
  revisions := List.nodup_nil
  numbers := List.nodup_nil
  known := fun _ h => absurd h List.not_mem_nil
  merged := fun _ h => absurd h List.not_mem_nil
  snapshots := fun _ h => absurd h List.not_mem_nil

theorem node_putNode_isSome {id : String} (n : Node) (h : (g.node id).isSome) :
    ((g.putNode n).node id).isSome := by
  unfold GraphStore.node GraphStore.putNode at *
  by_cases hid : id = n.id
  · rw [hid, Table.find_upsert_self]
    rfl
  · rw [Table.find_upsert_of_ne hid]
    exact h

theorem identityOf_addIdentity {id : String} (row : IdentityRow) (h : (g.identityOf id).isSome) :
    (g.addIdentity row).identityOf id = g.identityOf id := by
  unfold GraphStore.identityOf GraphStore.addIdentity at *
  obtain ⟨r, hr⟩ := Option.isSome_iff_exists.1 h
  rw [Table.find_append, hr]
  rfl

/-- The next number of an identity is above its numbers. -/
theorem lt_nextRevisionNo {row : RevisionRow F} (h : row ∈ g.revisions) :
    row.revisionNo < g.nextRevisionNo row.identityId := by
  unfold GraphStore.nextRevisionNo
  have hmem : row.revisionNo ∈ (g.revisions.filter (·.identityId = row.identityId)).map
      (·.revisionNo) := List.mem_map_of_mem (List.mem_filter.2 ⟨h, by simp⟩)
  obtain ⟨m, hm⟩ := Option.isSome_iff_exists.1 (List.isSome_max?_of_mem hmem)
  have hle := (List.max?_eq_some_iff.1 hm).2 _ hmem
  rw [hm]
  exact Nat.lt_succ_of_le hle

theorem find_of_selectRevision_eq_none (hknown : ∀ row ∈ g.revisions, (g.identityOf row.identityId).isSome)
    {revisionId : String} (h : g.selectRevision revisionId = none) :
    ∀ row ∈ g.revisions, row.revisionId ≠ revisionId := by
  refine (Table.find_eq_none RevisionRow.revisionId).1 ?_
  cases hfind : Table.find RevisionRow.revisionId revisionId g.revisions with
  | none => rfl
  | some row =>
    exfalso
    obtain ⟨identity, hidentity⟩ := Option.isSome_iff_exists.1 (hknown row (Table.mem_of_find hfind))
    unfold GraphStore.selectRevision GraphStore.joined at h
    rw [hfind, Option.bind_some, hidentity] at h
    exact absurd h (by simp)

theorem GraphChange.wf {ok : ℤ → Prop} (hg : g.WF digest) (h : GraphChange digest ok g g') :
    g'.WF digest := by
  cases h with
  | node n =>
    exact { hg with
      nodes := Table.map_key_upsert_nodup hg.nodes
      ends := fun row hrow => (hg.ends row hrow).imp (node_putNode_isSome n) (node_putNode_isSome n)
      merged := fun row hrow =>
        (hg.merged row hrow).imp (node_putNode_isSome n) (node_putNode_isSome n) }
  | identity row hsrc hdst hfree hscope =>
    exact { hg with
      ids := Table.nodup_append_key hg.ids ((Table.find_eq_none _).1 hfree)
      unique := Table.nodup_append_key hg.unique ((Table.find_eq_none _).1 hscope)
      ends := by
        intro r hr
        rcases List.mem_append.1 hr with hr | hr
        · exact hg.ends r hr
        · obtain rfl := List.mem_singleton.1 hr
          exact ⟨hsrc, hdst⟩
      known := by
        intro r hr
        have hid := hg.known r hr
        rw [identityOf_addIdentity row hid]
        exact hid }
  | supersede revisionId t _ =>
    have hids : ∀ {β : Type} (f : RevisionRow F → β), (∀ row, f (row.supersede t) = f row) →
        (g.supersede revisionId t).revisions.map f = g.revisions.map f := by
      intro β f hf
      unfold GraphStore.supersede Table.update
      rw [List.map_map]
      refine List.map_congr_left fun row _ => ?_
      by_cases hid : row.revisionId = revisionId
      · simp [hid, hf]
      · simp [hid]
    exact { hg with
      revisions := by rw [hids _ fun _ => rfl]; exact hg.revisions
      numbers := by rw [hids _ fun _ => rfl]; exact hg.numbers
      known := by
        intro row hrow
        obtain ⟨row₀, hrow₀, ⟨-, rfl⟩ | ⟨-, rfl⟩⟩ := Table.mem_update hrow
        · exact hg.known row₀ hrow₀
        · exact hg.known row hrow₀ }
  | revision row hid hnew hno _ =>
    exact { hg with
      revisions := Table.nodup_append_key hg.revisions (find_of_selectRevision_eq_none hg.known hnew)
      numbers := by
        refine Table.nodup_append_key hg.numbers fun r hr heq => ?_
        obtain ⟨hsame, hnumber⟩ := Prod.mk.inj heq
        have hlt := lt_nextRevisionNo hr
        rw [hsame, hnumber, hno] at hlt
        exact lt_irrefl _ hlt
      known := by
        intro r hr
        rcases List.mem_append.1 hr with hr | hr
        · exact hg.known r hr
        · obtain rfl := List.mem_singleton.1 hr
          exact hid }
  | edge _ => exact { hg with }
  | merge row hfrom hto _ _ =>
    exact { hg with
      merged := by
        intro r hr
        rcases List.mem_append.1 hr with hr | hr
        · exact hg.merged r hr
        · obtain rfl := List.mem_singleton.1 hr
          exact ⟨hfrom, hto⟩ }
  | snapshot row hid _ =>
    exact { hg with
      snapshots := by
        intro r hr
        rcases List.mem_append.1 hr with hr | hr
        · exact hg.snapshots r hr
        · obtain rfl := List.mem_singleton.1 hr
          exact hid }

theorem GraphChanges.wf {ok : ℤ → Prop} (hg : g.WF digest) (h : GraphChanges digest ok g g') :
    g'.WF digest := by
  induction h with
  | refl => exact hg
  | tail _ hstep ih => exact hstep.wf ih

end WF

/-- **The tables are well formed** after any calls. -/
theorem reachable_wf (h : GraphStore.Reachable digest g) : g.WF digest := by
  obtain ⟨calls, rfl⟩ := h
  refine Run.run_invariant (fun g c hg => ?_) calls _ (wf_empty digest)
  have hchanges : GraphChanges digest (fun _ => True) g (g.after digest c) :=
    prog_changes c (fun _ _ => trivial) g
  exact hchanges.wf hg

end Astock
