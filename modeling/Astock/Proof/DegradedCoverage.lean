import Astock.Proof.PlanRuns

/-!
# Degraded coverage

A step that was degraded, and not retried since, is to stay marked: it is not done, and it carries the
reason of its last degradation.

* `find_edit`: what a mutation does to the step with an identifier.
* `visible_iff`: a call keeps the coverage visible exactly when it spares the degraded steps.
* `degraded_stays_visible`: runs.
-/

namespace Astock.Plan

variable {plan : Plan} {steps : List PlanStep} {s step : PlanStep} {m : PlanMutation}
  {id target reason r : String} {into : List PlanStep} {order : List String}

/-! ## The step with an identifier -/

/-- The step that an identifier stands for, the first that has it. -/
abbrev find (id : String) (steps : List PlanStep) : Option PlanStep := Table.find PlanStep.id id steps

theorem find_append (pre post : List PlanStep) :
    find id (pre ++ post) = (find id pre).or (find id post) := Table.find_append pre post

theorem find_cons (s : PlanStep) (steps : List PlanStep) :
    find id (s :: steps) = if s.id = id then some s else find id steps := by
  by_cases hs : s.id = id
  · rw [if_pos hs]
    exact List.find?_cons_of_pos (by simpa using hs)
  · rw [if_neg hs]
    exact List.find?_cons_of_neg (by simpa using hs)

theorem find_some_iff_mem : (find id steps).isSome ↔ id ∈ ids steps := by
  rw [← not_iff_not, Bool.not_eq_true, Option.isSome_eq_false_iff, Option.isNone_iff_eq_none,
    Table.find_eq_none, ids, List.mem_map]
  simp

/-- An edit of one step changes that step. -/
theorem find_editStep {f : PlanStep → PlanStep} (hf : ∀ s, (f s).id = s.id) (steps : List PlanStep)
    (target : String) : find id (editStep steps target f).2 =
      (find id steps).map fun s => if id = target then f s else s := by
  rcases editStep_cases steps target f with ⟨habsent, e, heq⟩ | ⟨pre, s, post, rfl, hs, hpre, heq⟩
  · rw [heq]
    by_cases hid : id = target
    · have hnone : find id steps = none := by
        rw [← Option.not_isSome_iff_eq_none, find_some_iff_mem, hid]
        exact habsent
      rw [hnone, Option.map_none]
    · simp only [if_neg hid, Option.map_id']
  · rw [heq]
    by_cases hid : id = target
    · subst hid
      have hbefore : find id (pre ++ s :: post) = some s := find_at hs hpre
      have hafter : find id (pre ++ f s :: post) = some (f s) := find_at ((hf s).trans hs) hpre
      rw [hbefore, hafter, Option.map_some, if_pos rfl]
    · have hne : s.id ≠ id := fun h => hid (h.symm.trans hs)
      have hne' : (f s).id ≠ id := by rwa [hf]
      simp only [if_neg hid, Option.map_id']
      rw [find_append, find_append, find_cons, find_cons, if_neg hne, if_neg hne']

/-- What a mutation makes of a step of the plan. -/
def written (id : String) (s : PlanStep) : PlanMutation → PlanStep
  | .start target => if id = target then { s with status := .active } else s
  | .complete target => if id = target then { s with status := .done, note := none } else s
  | .degrade target reason =>
    if id = target then { s with status := .degraded, note := some reason } else s
  | .block target reason =>
    if id = target then { s with status := .blocked, note := some reason } else s
  | .remove target reason => if id = target then replaced s reason else s
  | .retry target reason =>
    if id = target then { s with status := .active, attempts := s.attempts + 1, note := some reason }
    else s
  | .split target into reason => if id = target ∧ into ≠ [] then replaced s reason else s
  | .add _ _ | .reorder _ => s

/-- Children with other identifiers do not come before a step. -/
theorem find_children {pre post front : List PlanStep} {s s' : PlanStep} (hs : s'.id = s.id)
    (hfront : ∀ c ∈ front, c.id ∉ ids (pre ++ s :: post)) (hid : id ∈ ids (pre ++ s :: post)) :
    find id (pre ++ s' :: (front ++ post)) =
      if id = s.id ∧ id ∉ ids pre then some s' else find id (pre ++ s :: post) := by
  have hnone : find id front = none := by
    refine (Table.find_eq_none _).2 fun c hc heq => hfront c hc ?_
    rwa [heq]
  cases hpre : find id pre with
  | some t =>
    have hmem : id ∈ ids pre := find_some_iff_mem.1 (by rw [hpre]; rfl)
    rw [if_neg fun h => h.2 hmem, find_append, find_append, hpre, Option.some_or, Option.some_or]
  | none =>
    have hnot : id ∉ ids pre := fun h => by
      rw [← find_some_iff_mem, hpre] at h
      cases h
    by_cases hsid : s.id = id
    · rw [if_pos ⟨hsid.symm, hnot⟩]
      exact find_at (hs.trans hsid) hnot
    · have hsid' : s'.id ≠ id := fun h => hsid (hs.symm.trans h)
      rw [if_neg fun h => hsid h.1.symm]
      rw [find_append, find_append, hpre, Option.none_or, Option.none_or, find_cons, find_cons,
        if_neg hsid, if_neg hsid', find_append, hnone, Option.none_or]

theorem find_split (hfind : find id steps = some s) (target : String) (into : List PlanStep)
    (reason : String) :
    find id (splitStep steps target into reason).2 = some (written id s (.split target into reason)) := by
  have hid : id ∈ ids steps := find_some_iff_mem.1 (by rw [hfind]; rfl)
  have hplaced : ∀ pre t post front, steps = pre ++ t :: post → t.id = target → target ∉ ids pre →
      into ≠ [] → (∀ c ∈ front, c.id ∉ ids steps) →
      find id (pre ++ replaced t reason :: (front ++ post)) =
        some (written id s (.split target into reason)) := by
    rintro pre t post front rfl rfl hpre hinto hfront
    have hkey : (replaced t reason).id = t.id := rfl
    rw [find_children hkey hfront hid, hfind, written]
    by_cases htarget : id = t.id
    · have hhere : find t.id (pre ++ t :: post) = some t := find_at rfl hpre
      rw [htarget, hhere] at hfind
      rw [if_pos ⟨htarget, htarget ▸ hpre⟩, if_pos ⟨htarget, hinto⟩, Option.some.inj hfind]
    · rw [if_neg fun h => htarget h.1, if_neg fun h => htarget h.1]
  rcases splitStep_cases steps target into reason with ⟨hno, e, heq⟩ |
      ⟨pre, t, post, hsteps, ht, hpre, hinto, ⟨hfresh, heq⟩ | ⟨front, c, rest, e, -, -, -, hnew, heq⟩⟩
  · rw [heq, hfind, written, if_neg]
    rintro ⟨rfl, hinto⟩
    exact hno.elim hinto fun h => h hid
  · rw [heq]
    exact hplaced pre t post into hsteps ht hpre hinto hfresh.2
  · rw [heq]
    exact hplaced pre t post front hsteps ht hpre hinto hnew

theorem find_filter (p : String → Bool) (hp : p id = true) (steps : List PlanStep) :
    find id (steps.filter fun s => p s.id) = find id steps := by
  induction steps with
  | nil => rfl
  | cons t steps ih =>
    by_cases ht : t.id = id
    · simp [find, Table.find, ht, hp]
    · cases hpt : p t.id
      · simpa [find, Table.find, ht, hpt] using ih
      · simpa [find, Table.find, ht, hpt] using ih

theorem find_reordered (steps : List PlanStep) (order : List String) :
    find id (reordered steps order) = find id steps := by
  -- a named step is put first, as the step that its name stands for
  have hnamed : ∀ order : List String, find id (order.filterMap fun t => (position steps t).bind (steps[·]?)) =
      if id ∈ order then find id steps else none := by
    intro order
    induction order with
    | nil => rfl
    | cons t order ih =>
      rw [List.filterMap_cons, getElem?_position]
      cases ht : Table.find PlanStep.id t steps with
      | none =>
        rw [ih]
        by_cases hid : id = t
        · subst hid
          rw [if_pos List.mem_cons_self, find, ht, ite_self]
        · simp [hid]
      | some s =>
        have hkey : s.id = t := Table.key_of_find ht
        by_cases hid : id = t
        · subst hid
          show find id (s :: _) = _
          rw [find_cons, if_pos hkey, if_pos List.mem_cons_self]
          exact ht.symm
        · have hne : s.id ≠ id := fun h => hid (h.symm.trans hkey)
          show find id (s :: _) = _
          rw [find_cons, if_neg hne, ih]
          simp [hid]
  rw [reordered, find_append, hnamed]
  by_cases hid : id ∈ order
  · rw [if_pos hid]
    have hrest : find id (steps.filter fun s => s.id ∉ order) = none := by
      refine (Table.find_eq_none _).2 fun s hs heq => ?_
      have := (List.mem_filter.1 hs).2
      rw [heq] at this
      simp [hid] at this
    rw [hrest, Option.or_none]
  · rw [if_neg hid, Option.none_or]
    exact find_filter (fun t => t ∉ order) (by simpa using hid) steps

/-- **What a mutation makes of a step**, also one that is refused halfway. -/
theorem find_edit (hfind : find id steps = some s) (m : PlanMutation) :
    find id (edit steps m).2 = some (written id s m) := by
  have hstep : ∀ (target : String) (f : PlanStep → PlanStep), (∀ s, (f s).id = s.id) →
      find id (editStep steps target f).2 = some (if id = target then f s else s) := by
    intro target f hf
    rw [find_editStep hf, hfind, Option.map_some]
  cases m with
  | add step reason =>
    rw [edit]
    split
    · exact hfind
    · rw [find_append, hfind]
      rfl
  | start target => exact hstep target _ fun _ => rfl
  | complete target => exact hstep target _ fun _ => rfl
  | degrade target reason => exact hstep target _ fun _ => rfl
  | block target reason => exact hstep target _ fun _ => rfl
  | remove target reason => exact hstep target _ fun _ => rfl
  | retry target reason => exact hstep target _ fun _ => rfl
  | split target into reason => exact find_split hfind target into reason
  | reorder order =>
    rw [edit]
    split
    · exact hfind
    · exact (find_reordered steps order).trans hfind

/-! ## Degradations on record -/

/-- The degradation of a step that is open after a mutation that went through. -/
def degraded (id : String) (current : Option String) : PlanMutation → Option String
  | .degrade target reason => if target = id then some reason else current
  | .retry target _ => if target = id then none else current
  | _ => current

/-- The reason of the last degradation of a step on record that no retry of it follows. -/
def degradation (id : String) (history : List PlanMutation) : Option String :=
  history.foldl (degraded id) none

/-- A call is refused and leaves the plan as it was, or the record tells of it. -/
theorem after_cases (plan : Plan) (m : PlanMutation) : plan.after m = plan ∨
    ∀ id, degradation id (plan.after m).history = degraded id (degradation id plan.history) m := by
  have hrecorded : (plan.after m).history = plan.history ++ [m] →
      ∀ id, degradation id (plan.after m).history = degraded id (degradation id plan.history) m := by
    intro h id
    rw [h, degradation, List.foldl_append]
    rfl
  rcases after_history plan m with h | ⟨e, he⟩
  · exact .inr (hrecorded h)
  · cases m with
    | split target into reason =>
      -- it may have got halfway, but it is not on record
      have hsame : (plan.after (.split target into reason)).history = plan.history := by
        unfold after apply at *
        split at he
        · cases he
        · rfl
      exact .inr fun id => by rw [hsame]; rfl
    | _ => exact .inl (atomic_iff.2 trivial e he)

/-- **Degraded coverage is visible**: a step whose last degradation no retry follows is not done, and
carries the reason of that degradation. -/
def CoverageVisible (plan : Plan) : Prop :=
  ∀ id reason, degradation id plan.history = some reason →
    ∃ s, find id plan.steps = some s ∧ s.status ≠ .done ∧ s.note = some reason

/-- The mutation does not write over the mark of a degraded step: it does not complete one, and it
does not block, remove or split one for another reason. -/
def Spares (plan : Plan) : PlanMutation → Prop
  | .complete id => degradation id plan.history = none
  | .block id reason | .remove id reason => ∀ r ∈ degradation id plan.history, r = reason
  | .split id into reason => into = [] ∨ ∀ r ∈ degradation id plan.history, r = reason
  | _ => True

/-- A degraded step after a mutation other than a degradation or a retry of it. -/
theorem find_after (hvisible : CoverageVisible plan) (hopen : degradation id plan.history = some r) :
    ∃ s, s.status ≠ .done ∧ s.note = some r ∧ find id (plan.after m).steps = some (written id s m) := by
  obtain ⟨s, hfind, hdone, hnote⟩ := hvisible id r hopen
  refine ⟨s, hdone, hnote, ?_⟩
  rw [after_steps]
  exact find_edit hfind m

/-- What is neither a degradation nor a retry of a step leaves its degradation on record. -/
theorem degradation_after (hm : ∀ current, degraded id current m = current) :
    degradation id (plan.after m).history = degradation id plan.history := by
  rcases after_cases plan m with hsame | hrecord
  · rw [hsame]
  · rw [hrecord, hm]

theorem after_degrade_absent (hfind : find id plan.steps = none) :
    plan.after (.degrade id reason) = plan := by
  have habsent : id ∉ ids plan.steps := by
    rw [← find_some_iff_mem, hfind]
    exact Bool.false_ne_true
  rcases editStep_cases plan.steps id
      (fun step => { step with status := .degraded, note := some reason }) with
    ⟨-, e, heq⟩ | ⟨pre, s, post, hsteps, hs, -, -⟩
  · rw [Plan.after, apply, edit, heq]
  · exact absurd (List.mem_map.2 ⟨s, by rw [hsteps]; simp, hs⟩) habsent

/-- **A call that spares the degraded steps** keeps the coverage visible. -/
theorem CoverageVisible.after (hvisible : CoverageVisible plan) (hm : Spares plan m) :
    CoverageVisible (plan.after m) := by
  rcases after_cases plan m with hsame | hrecord
  · rwa [hsame]
  intro id r hopen
  rw [hrecord] at hopen
  have hkeep : degradation id plan.history = some r → (∀ s, s.status ≠ .done → s.note = some r →
      (written id s m).status ≠ .done ∧ (written id s m).note = some r) →
      ∃ s, find id (plan.after m).steps = some s ∧ s.status ≠ .done ∧ s.note = some r := by
    intro hold hwritten
    obtain ⟨s, hdone, hnote, hfind⟩ := find_after (m := m) hvisible hold
    exact ⟨_, hfind, hwritten s hdone hnote⟩
  -- a mutation of another step changes nothing; one of this step is looked at
  cases m with
  | add step why => exact hkeep hopen fun s hdone hnote => ⟨hdone, hnote⟩
  | reorder order => exact hkeep hopen fun s hdone hnote => ⟨hdone, hnote⟩
  | start target =>
    refine hkeep hopen fun s hdone hnote => ?_
    rw [written]
    split
    · exact ⟨by simp, hnote⟩
    · exact ⟨hdone, hnote⟩
  | complete target =>
    refine hkeep hopen fun s hdone hnote => ?_
    have hother : id ≠ target := by
      rintro rfl
      have hnone : degradation id plan.history = none := hm
      have hsome : degradation id plan.history = some r := hopen
      rw [hnone] at hsome
      cases hsome
    rw [written, if_neg hother]
    exact ⟨hdone, hnote⟩
  | degrade target reason =>
    by_cases htarget : target = id
    · subst htarget
      cases hfind : find target plan.steps with
      | none =>
        rw [after_degrade_absent hfind] at hrecord ⊢
        exact hvisible target r ((hrecord target).trans hopen)
      | some s =>
        rw [degraded, if_pos rfl] at hopen
        have hafter := find_edit hfind (.degrade target reason)
        rw [written, if_pos rfl] at hafter
        rw [after_steps]
        exact ⟨_, hafter, by simp, hopen⟩
    · rw [degraded, if_neg htarget] at hopen
      refine hkeep hopen fun s hdone hnote => ?_
      rw [written, if_neg (Ne.symm htarget)]
      exact ⟨hdone, hnote⟩
  | retry target reason =>
    by_cases htarget : target = id
    · rw [degraded, if_pos htarget] at hopen
      cases hopen
    · rw [degraded, if_neg htarget] at hopen
      refine hkeep hopen fun s hdone hnote => ?_
      rw [written, if_neg (Ne.symm htarget)]
      exact ⟨hdone, hnote⟩
  | block target reason =>
    refine hkeep hopen fun s hdone hnote => ?_
    rw [written]
    split
    next htarget =>
      subst htarget
      have hreason : r = reason := hm r hopen
      exact ⟨by simp, by rw [hreason]⟩
    next => exact ⟨hdone, hnote⟩
  | remove target reason =>
    refine hkeep hopen fun s hdone hnote => ?_
    rw [written]
    split
    next htarget =>
      subst htarget
      have hreason : r = reason := hm r hopen
      exact ⟨by simp [replaced], by rw [replaced, hreason]⟩
    next => exact ⟨hdone, hnote⟩
  | split target into reason =>
    refine hkeep hopen fun s hdone hnote => ?_
    rw [written]
    split
    next htarget =>
      obtain ⟨rfl, hinto⟩ := htarget
      have hreason : r = reason := (hm.resolve_left hinto) r hopen
      exact ⟨by simp [replaced], by rw [replaced, hreason]⟩
    next => exact ⟨hdone, hnote⟩

/-- **A call keeps the coverage visible** exactly when it spares the degraded steps. -/
theorem visible_iff (hvisible : CoverageVisible plan) :
    CoverageVisible (plan.after m) ↔ Spares plan m := by
  refine ⟨fun hafter => ?_, hvisible.after⟩
  -- what the call makes of a degraded step is marked, when the call is no degradation or retry of it
  have hmarked : ∀ id r, (∀ current, degraded id current m = current) →
      degradation id plan.history = some r →
      ∃ s, (written id s m).status ≠ .done ∧ (written id s m).note = some r := by
    intro id r hother hopen
    obtain ⟨s, -, -, hfind⟩ := find_after (m := m) hvisible hopen
    obtain ⟨s', hfind', hdone, hnote⟩ := hafter id r ((degradation_after hother).trans hopen)
    obtain rfl := Option.some.inj (hfind.symm.trans hfind')
    exact ⟨s, hdone, hnote⟩
  have hreason : ∀ id reason r, (∀ current, degraded id current m = current) →
      (∀ s, (written id s m).note = some reason) → r ∈ degradation id plan.history → r = reason := by
    intro id reason r hother hnote hopen
    obtain ⟨s, -, hmark⟩ := hmarked id r hother hopen
    exact Option.some.inj (hmark.symm.trans (hnote s))
  cases m with
  | complete target =>
    cases hopen : degradation target plan.history with
    | none => exact hopen
    | some r =>
      obtain ⟨s, hdone, -⟩ := hmarked target r (fun _ => rfl) hopen
      rw [written, if_pos rfl] at hdone
      exact absurd rfl hdone
  | block target reason =>
    exact fun r => hreason target reason r (fun _ => rfl) fun s => by rw [written, if_pos rfl]
  | remove target reason =>
    exact fun r => hreason target reason r (fun _ => rfl) fun s => by rw [written, if_pos rfl]; rfl
  | split target into reason =>
    by_cases hinto : into = []
    · exact .inl hinto
    · refine .inr fun r => hreason target reason r (fun _ => rfl) fun s => ?_
      rw [written, if_pos ⟨rfl, hinto⟩]
      rfl
  | _ => trivial

/-! ## Runs -/

/-- **Degraded coverage stays visible** in every run whose calls spare the degraded steps, whatever the
plan starts with, and a call that does not spare them hides it. -/
theorem degraded_stays_visible (plan : Plan) (m : PlanMutation) (steps : List PlanStep)
    (ms : List PlanMutation) :
    (CoverageVisible plan → (CoverageVisible (plan.after m) ↔ Spares plan m)) ∧
      (Run.Along after Spares { steps } ms → CoverageVisible (Run.run after { steps } ms)) := by
  refine ⟨visible_iff, fun hms => ?_⟩
  have hstart : CoverageVisible { steps } := fun id reason hopen => by cases hopen
  exact Run.run_invariant_along (fun plan m hm h => h.after hm) ms _ hms hstart

def newsUnavailable : PlanMutation := .degrade "step-2" "two news sources unavailable"

theorem degraded_stays_visible_retried : CoverageVisible (Run.run after { steps := [step1, step2] }
    [newsUnavailable, .start "step-2", .complete "step-1", .retry "step-2" "sources are back",
      .complete "step-2"]) :=
  (degraded_stays_visible { steps := [step1] } newsUnavailable _ _).2
    ⟨trivial, trivial, rfl, trivial, rfl, trivial⟩

/-- A degraded step is completed as if nothing had been missing. -/
theorem degraded_step_completed : ¬ ∀ ms, CoverageVisible (Run.run after { steps := [step1, step2] } ms) := by
  intro h
  obtain ⟨s, hfind, hdone, -⟩ := h [newsUnavailable, .complete "step-2"] "step-2" _ rfl
  have hcompleted : find "step-2" (Run.run after { steps := [step1, step2] }
      [newsUnavailable, .complete "step-2"]).steps = some { step2 with status := .done } := by decide
  obtain rfl := Option.some.inj (hcompleted.symm.trans hfind)
  exact hdone rfl

end Astock.Plan
