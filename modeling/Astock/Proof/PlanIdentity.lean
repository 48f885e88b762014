import Astock.Proof.PlanRuns

/-!
# The identity of plan steps

* `StepIdentity`: what an accepted mutation keeps of the steps.
* `identity_iff`: every accepted mutation keeps it, unless it is a reorder that names a step twice.
* `plan_identity`: so does every run of accepted mutations.
-/

namespace Astock.Plan

variable {plan : Plan} {steps pre post : List PlanStep} {s step : PlanStep} {m : PlanMutation}
  {id reason e : String} {into : List PlanStep} {order : List String}

/-- The step a mutation changes. -/
def target : PlanMutation → Option String
  | .start id | .complete id | .degrade id _ | .block id _ | .remove id _ | .retry id _
  | .split id _ _ => some id
  | .add _ _ | .reorder _ => none

/-- A mutation that drops or splits a step, with its reason. -/
def Drops (m : PlanMutation) (id reason : String) : Prop :=
  m = .remove id reason ∨ ∃ into, m = .split id into reason

/-- What an accepted mutation keeps of the steps. -/
structure StepIdentity (before : List PlanStep) (m : PlanMutation) (after : List PlanStep) :
    Prop where
  distinct : (ids after).Nodup
  kept : ∀ id ∈ ids before, id ∈ ids after
  untouched : ∀ s ∈ before, s.id ∉ target m → s ∈ after
  dropped : ∀ id reason, Drops m id reason →
    ∃ s ∈ after, s.id = id ∧ s.status = .removed ∧ s.note = some reason
  reorder : ∀ order, m = .reorder order → before.Perm after ∧
    ∃ named, ids named = order ∧ after = named ++ before.filter fun s => s.id ∉ order

def Accepted (plan : Plan) (m : PlanMutation) : Prop := (plan.apply m).1 = .ok ()

/-- A reorder names each step at most once. -/
def NamesOnce : PlanMutation → Prop
  | .reorder order => order.Nodup
  | _ => True

theorem edit_of_accepted (h : Accepted plan m) :
    edit plan.steps m = (.ok (), (plan.after m).steps) := by
  unfold Accepted after apply at *
  split at h
  next hedit => rw [hedit]
  next => cases h

/-! ## Reordering -/

/-- The steps that an order names. -/
def named (steps : List PlanStep) (order : List String) : List PlanStep :=
  order.filterMap fun id => Table.find PlanStep.id id steps

theorem reordered_eq : reordered steps order =
    named steps order ++ steps.filter fun s => s.id ∉ order := by
  simp only [reordered, getElem?_position, named]

theorem ids_named (h : ∀ id ∈ order, id ∈ ids steps) : ids (named steps order) = order := by
  induction order with
  | nil => rfl
  | cons id order ih =>
    obtain ⟨s, hs⟩ : ∃ s, Table.find PlanStep.id id steps = some s := by
      refine Option.ne_none_iff_exists'.1 fun hnone => ?_
      obtain ⟨s, hs, heq⟩ := List.mem_map.1 (h id List.mem_cons_self)
      exact (Table.find_eq_none _).1 hnone s hs heq
    have ih := ih fun id hid => h id (List.mem_cons_of_mem _ hid)
    rw [named, List.filterMap_cons, hs]
    exact congrArg₂ List.cons (Table.key_of_find hs) ih

theorem mem_named (hd : (ids steps).Nodup) (h : ∀ id ∈ order, id ∈ ids steps) :
    s ∈ named steps order ↔ s ∈ steps ∧ s.id ∈ order := by
  rw [named, List.mem_filterMap]
  constructor
  · rintro ⟨id, hid, hs⟩
    exact ⟨Table.mem_of_find hs, (Table.key_of_find hs).symm ▸ hid⟩
  · rintro ⟨hs, hid⟩
    exact ⟨s.id, hid, Table.find_of_mem hd hs⟩

/-- **A reorder permutes the steps** when it names each at most once. -/
theorem perm_reordered (hd : (ids steps).Nodup) (h : ∀ id ∈ order, id ∈ ids steps)
    (hone : order.Nodup) : steps.Perm (reordered steps order) := by
  have hnamed : (named steps order).Nodup := by
    refine List.Nodup.of_map PlanStep.id ?_
    rw [← ids, ids_named h]
    exact hone
  have hsteps : steps.Nodup := List.Nodup.of_map PlanStep.id hd
  have hnodup : (reordered steps order).Nodup := by
    rw [reordered_eq]
    refine hnamed.append (hsteps.filter _) fun t ht ht' => ?_
    have hmem := ((mem_named hd h).1 ht).2
    simpa [hmem] using (List.mem_filter.1 ht').2
  refine (List.perm_ext_iff_of_nodup hsteps hnodup).2 fun t => ?_
  rw [reordered_eq, List.mem_append, mem_named hd h, List.mem_filter, decide_eq_true_eq]
  tauto

theorem identity_reorder (hd : (ids steps).Nodup) (h : ∀ id ∈ order, id ∈ ids steps) :
    StepIdentity steps (.reorder order) (reordered steps order) ↔ order.Nodup := by
  constructor
  · intro hid
    have hdistinct := hid.distinct
    rw [reordered_eq, ids, List.map_append, ← ids, ids_named h] at hdistinct
    exact (List.nodup_append.1 hdistinct).1
  · intro hone
    have hperm := perm_reordered hd h hone
    exact {
      distinct := (hperm.map PlanStep.id).nodup_iff.1 hd
      kept := fun id hmem => (hperm.map PlanStep.id).mem_iff.1 hmem
      untouched := fun t ht _ => hperm.mem_iff.1 ht
      dropped := by rintro id reason (hm | ⟨into, hm⟩) <;> cases hm
      reorder := by
        rintro order' hm
        obtain rfl := PlanMutation.reorder.inj hm
        exact ⟨hperm, named steps order, ids_named h, reordered_eq⟩ }

/-! ## The other mutations -/

theorem identity_add (hd : (ids steps).Nodup) (hnew : step.id ∉ ids steps) (why : Option String) :
    StepIdentity steps (.add step why) (steps ++ [step]) where
  distinct := by
    rw [ids, List.map_append, ← ids]
    refine hd.append (List.nodup_singleton _) fun id hid hid' => ?_
    exact hnew (List.mem_singleton.1 hid' ▸ hid)
  kept := fun id hid => by
    rw [ids, List.map_append]
    exact List.mem_append_left _ hid
  untouched := fun t ht _ => List.mem_append_left _ ht
  dropped := by rintro id reason (hm | ⟨into, hm⟩) <;> cases hm
  reorder := fun order hm => by cases hm

/-- An edit in place: the step keeps its identifier, and all others stay. -/
theorem identity_edit (hd : (ids (pre ++ s :: post)).Nodup) {s' : PlanStep} (hid : s'.id = s.id)
    (htarget : target m = some s.id)
    (hdrop : ∀ id reason, Drops m id reason → id = s.id ∧ s'.status = .removed ∧
      s'.note = some reason) :
    StepIdentity (pre ++ s :: post) m (pre ++ s' :: post) := by
  have hids : ids (pre ++ s' :: post) = ids (pre ++ s :: post) := by simp [ids, hid]
  exact {
    distinct := hids ▸ hd
    kept := fun id hmem => hids ▸ hmem
    untouched := fun t ht hne => by
      rcases List.mem_append.1 ht with ht | ht
      · exact List.mem_append_left _ ht
      · rcases List.mem_cons.1 ht with rfl | ht
        · exact absurd htarget hne
        · exact List.mem_append_right _ (List.mem_cons_of_mem _ ht)
    dropped := fun id reason hm => by
      obtain ⟨rfl, hstatus, hnote⟩ := hdrop id reason hm
      exact ⟨s', by simp, hid, hstatus, hnote⟩
    reorder := fun order hm => by
      rw [hm] at htarget
      cases htarget }

theorem identity_editStep (hd : (ids steps).Nodup) {f : PlanStep → PlanStep}
    {after : List PlanStep} (h : editStep steps id f = (.ok (), after)) (hf : ∀ s, (f s).id = s.id)
    (htarget : target m = some id)
    (hdrop : ∀ id reason, Drops m id reason → ∀ s, (f s).status = .removed ∧
      (f s).note = some reason) : StepIdentity steps m after := by
  rcases editStep_cases steps id f with ⟨-, e, heq⟩ | ⟨pre, s, post, rfl, rfl, -, heq⟩
  · cases (Prod.mk.inj (heq.symm.trans h)).1
  · obtain rfl := (Prod.mk.inj (heq.symm.trans h)).2
    refine identity_edit hd (hf s) htarget fun id' reason hm => ⟨?_, hdrop id' reason hm s⟩
    rcases hm with rfl | ⟨into, rfl⟩
    · exact Option.some.inj htarget
    · exact Option.some.inj htarget

theorem identity_split (hd : (ids steps).Nodup) {after : List PlanStep}
    (h : splitStep steps id into reason = (.ok (), after)) :
    StepIdentity steps (.split id into reason) after := by
  rcases splitStep_cases steps id into reason with
    ⟨-, e, heq⟩ | ⟨pre, s, post, rfl, rfl, -, -, ⟨hfresh, heq⟩ | ⟨_, _, _, _, _, _, _, _, heq⟩⟩
  · cases (Prod.mk.inj (heq.symm.trans h)).1
  · obtain rfl := (Prod.mk.inj (heq.symm.trans h)).2
    -- the edit in place first, then the children
    have hedit : StepIdentity (pre ++ s :: post) (.split s.id into reason)
        (pre ++ replaced s reason :: post) := by
      refine identity_edit hd rfl rfl fun id' reason' hm => ?_
      rcases hm with hm | ⟨_, hm⟩
      · cases hm
      · obtain ⟨rfl, -, rfl⟩ := PlanMutation.split.inj hm
        exact ⟨rfl, rfl, rfl⟩
    have hperm : (pre ++ replaced s reason :: (into ++ post)).Perm
        (into ++ (pre ++ replaced s reason :: post)) := by
      have hswap : ((pre ++ [replaced s reason]) ++ into).Perm (into ++ (pre ++ [replaced s reason])) :=
        List.perm_append_comm
      simpa using hswap.append_right post
    have hsub : ∀ t ∈ pre ++ replaced s reason :: post,
        t ∈ pre ++ replaced s reason :: (into ++ post) :=
      fun t ht => hperm.mem_iff.2 (List.mem_append_right _ ht)
    exact {
      distinct := by
        refine (hperm.map PlanStep.id).nodup_iff.2 ?_
        rw [List.map_append]
        refine hfresh.1.append hedit.distinct fun id hid hid' => ?_
        obtain ⟨child, hchild, rfl⟩ := List.mem_map.1 hid
        refine hfresh.2 child hchild ?_
        simpa [ids, replaced] using hid'
      kept := fun id hid => by
        obtain ⟨t, ht, rfl⟩ := List.mem_map.1 (hedit.kept id hid)
        exact List.mem_map_of_mem (hsub t ht)
      untouched := fun t ht hne => hsub t (hedit.untouched t ht hne)
      dropped := fun id' reason' hm => by
        obtain ⟨t, ht, hprops⟩ := hedit.dropped id' reason' hm
        exact ⟨t, hsub t ht, hprops⟩
      reorder := fun order hm => by cases hm }
  · cases (Prod.mk.inj (heq.symm.trans h)).1

/-- **An accepted mutation keeps the identity of the steps** exactly when it is not a reorder that
names a step twice. -/
theorem identity_iff (hd : (ids plan.steps).Nodup) (h : Accepted plan m) :
    StepIdentity plan.steps m (plan.after m).steps ↔ NamesOnce m := by
  have hedit := edit_of_accepted h
  generalize (plan.after m).steps = after at *
  rw [edit.eq_def] at hedit
  cases m with
  | add step why =>
    simp only at hedit
    split at hedit
    · cases (Prod.mk.inj hedit).1
    next hnew =>
      obtain rfl := (Prod.mk.inj hedit).2
      exact iff_of_true (identity_add hd (fun hmem => hnew (isSome_position.2 hmem)) why) trivial
  | start id =>
    refine iff_of_true (identity_editStep hd hedit (fun _ => rfl) rfl ?_) trivial
    rintro id' reason (hm | ⟨into, hm⟩) <;> cases hm
  | complete id =>
    refine iff_of_true (identity_editStep hd hedit (fun _ => rfl) rfl ?_) trivial
    rintro id' reason (hm | ⟨into, hm⟩) <;> cases hm
  | degrade id why =>
    refine iff_of_true (identity_editStep hd hedit (fun _ => rfl) rfl ?_) trivial
    rintro id' reason (hm | ⟨into, hm⟩) <;> cases hm
  | block id why =>
    refine iff_of_true (identity_editStep hd hedit (fun _ => rfl) rfl ?_) trivial
    rintro id' reason (hm | ⟨into, hm⟩) <;> cases hm
  | remove id why =>
    refine iff_of_true (identity_editStep hd hedit (fun _ => rfl) rfl ?_) trivial
    rintro id' reason (hm | ⟨into, hm⟩)
    · obtain ⟨-, rfl⟩ := PlanMutation.remove.inj hm
      exact fun _ => ⟨rfl, rfl⟩
    · cases hm
  | retry id why =>
    refine iff_of_true (identity_editStep hd hedit (fun _ => rfl) rfl ?_) trivial
    rintro id' reason (hm | ⟨into, hm⟩) <;> cases hm
  | split id into why => exact iff_of_true (identity_split hd hedit) trivial
  | reorder order =>
    simp only at hedit
    split at hedit
    · cases (Prod.mk.inj hedit).1
    next hall =>
      obtain rfl := (Prod.mk.inj hedit).2
      exact identity_reorder hd (requireAll_ok.1 hall)

/-! ## Runs -/

/-- A run of mutations keeps the identity of the steps, from each state to the next and from the
first to the last. -/
def KeepsIdentity (start : Plan) (ms : List PlanMutation) : Prop :=
  Run.Along after (fun plan m => StepIdentity plan.steps m (plan.after m).steps) start ms ∧
    (ids (Run.run after start ms).steps).Nodup ∧
    ∀ id ∈ ids start.steps, id ∈ ids (Run.run after start ms).steps

theorem keepsIdentity_of_along {ms : List PlanMutation} {start : Plan} (hd : (ids start.steps).Nodup)
    (h : Run.Along after (fun plan m => StepIdentity plan.steps m (plan.after m).steps) start ms) :
    KeepsIdentity start ms := by
  induction ms generalizing start with
  | nil => exact ⟨trivial, hd, fun _ => id⟩
  | cons m ms ih =>
    obtain ⟨-, hlast, hkept⟩ := ih h.1.distinct h.2
    exact ⟨h, hlast, fun id hid => hkept id (h.1.kept id hid)⟩

/-- **Steps keep their identity** along a run of accepted mutations exactly when no reorder names a
step twice. -/
theorem plan_identity {start : Plan} (hd : (ids start.steps).Nodup) {ms : List PlanMutation}
    (h : Run.Along after Accepted start ms) :
    KeepsIdentity start ms ↔ ∀ m ∈ ms, NamesOnce m := by
  refine Iff.trans ⟨fun hkeeps => hkeeps.1, keepsIdentity_of_along hd⟩ ?_
  induction ms generalizing start with
  | nil => exact iff_of_true trivial fun _ hm => absurd hm List.not_mem_nil
  | cons m ms ih =>
    have hone := identity_iff hd h.1
    rw [List.forall_mem_cons, Run.Along, hone]
    exact and_congr_right fun hm => ih (hone.2 hm).distinct h.2

theorem plan_identity_reordered : KeepsIdentity { steps := [step1, step2] }
    [.reorder ["step-2", "step-1"], .remove "step-1" "answered"] := by
  have hrun : Run.Along after Accepted { steps := [step1, step2] }
      [.reorder ["step-2", "step-1"], .remove "step-1" "answered"] := ⟨rfl, rfl, trivial⟩
  refine (plan_identity (by decide) hrun).2 ?_
  simp [NamesOnce]

/-- A reorder that names a step twice lists it twice. -/
theorem repeated_name_duplicates : ¬ ∀ (start : Plan) (ms : List PlanMutation),
    (ids start.steps).Nodup → Run.Along after Accepted start ms → KeepsIdentity start ms := by
  intro h
  have hrun := h { steps := [step1, step2] } [.reorder ["step-1", "step-1"]] (by decide)
    ⟨rfl, trivial⟩
  exact absurd hrun.2.1 (by decide)

end Astock.Plan
