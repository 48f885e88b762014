import Astock.Lib.Run
import Astock.Lib.Table
import Astock.Spec.Plan

/-!
# Runs of a plan

* `editStep_cases`, `insertChildren_cases`, `splitStep_cases`: what an edit leaves behind, also when
  it is refused.
* `atomic_iff`: a call that is refused leaves the plan as it was, unless it is a split that finds a
  taken identifier among its children.
* `apply_ok`: what an accepted mutation does to the steps.
-/

namespace Astock.Plan

variable {plan : Plan} {steps pre post : List PlanStep} {s step : PlanStep} {m : PlanMutation}
  {id reason e : String} {into : List PlanStep} {order : List String}

def ids (steps : List PlanStep) : List String := steps.map PlanStep.id

/-! ## Positions -/

/-- The first step with an identifier. -/
theorem position_some {i : ℕ} (h : position steps id = some i) :
    ∃ pre s post, steps = pre ++ s :: post ∧ pre.length = i ∧ s.id = id ∧ id ∉ ids pre := by
  induction steps generalizing i with
  | nil => cases h
  | cons t steps ih =>
    rw [position, List.findIdx?_cons] at h
    by_cases ht : t.id = id
    · rw [if_pos (by simpa using ht)] at h
      obtain rfl := Option.some.inj h
      exact ⟨[], t, steps, rfl, rfl, ht, List.not_mem_nil⟩
    · rw [if_neg (by simpa using ht)] at h
      obtain ⟨j, hj, rfl⟩ := Option.map_eq_some_iff.1 h
      obtain ⟨pre, s, post, rfl, rfl, hs, hpre⟩ := ih hj
      refine ⟨t :: pre, s, post, rfl, rfl, hs, ?_⟩
      rintro (_ | ⟨_, hmem⟩)
      · exact ht rfl
      · exact hpre hmem

theorem position_none : position steps id = none ↔ id ∉ ids steps := by
  rw [position, List.findIdx?_eq_none_iff, ids, List.mem_map]
  constructor
  · rintro h ⟨s, hs, rfl⟩
    simpa using h s hs
  · intro h s hs
    simpa using fun heq => h ⟨s, hs, heq⟩

theorem isSome_position : (position steps id).isSome ↔ id ∈ ids steps := by
  rw [← not_iff_not, ← position_none]
  simp

/-- The step at the position of an identifier is the first one that has it. -/
theorem getElem?_position : (position steps id).bind (steps[·]?) = Table.find PlanStep.id id steps := by
  induction steps with
  | nil => rfl
  | cons t steps ih =>
    rw [position, List.findIdx?_cons, Table.find, List.find?_cons]
    by_cases ht : t.id = id
    · simp [ht]
    · rw [Table.find] at ih
      simp only [ht, decide_false, ← ih, position]
      cases List.findIdx? (fun step => decide (step.id = id)) steps <;> rfl

theorem requireAll_ok : (requireAll steps order = .ok ()) ↔ ∀ id ∈ order, id ∈ ids steps := by
  induction order with
  | nil => simp [requireAll]
  | cons id order ih =>
    rw [requireAll, require, List.forall_mem_cons, ← ih]
    cases hpos : position steps id with
    | none => simp [position_none.1 hpos]
    | some i =>
      have hmem : id ∈ ids steps := isSome_position.1 (by rw [hpos]; rfl)
      simp [hmem]

/-! ## Edits of one step -/

theorem modify_at (pre post : List PlanStep) (s : PlanStep) (f : PlanStep → PlanStep) :
    (pre ++ s :: post).modify pre.length f = pre ++ f s :: post := by
  induction pre with
  | nil => rfl
  | cons t pre ih => rw [List.cons_append, List.length_cons, List.modify_succ_cons, ih]; rfl

theorem insertIdx_at (pre post : List PlanStep) (s : PlanStep) :
    (pre ++ post).insertIdx pre.length s = pre ++ s :: post := by
  induction pre with
  | nil => rfl
  | cons t pre ih => rw [List.cons_append, List.length_cons, List.insertIdx_succ_cons, ih]; rfl

/-- **One step is edited**, the first with its identifier, or the plan is left alone. -/
theorem editStep_cases (steps : List PlanStep) (id : String) (f : PlanStep → PlanStep) :
    (id ∉ ids steps ∧ ∃ e, editStep steps id f = (.error e, steps)) ∨
    ∃ pre s post, steps = pre ++ s :: post ∧ s.id = id ∧ id ∉ ids pre ∧
      editStep steps id f = (.ok (), pre ++ f s :: post) := by
  unfold editStep require
  cases hpos : position steps id with
  | none => exact .inl ⟨position_none.1 hpos, _, rfl⟩
  | some i =>
    obtain ⟨pre, s, post, rfl, rfl, hs, hpre⟩ := position_some hpos
    exact .inr ⟨pre, s, post, rfl, hs, hpre, by simp only [modify_at]⟩

/-! ## Splits -/

/-- New steps whose identifiers are distinct and not taken. -/
def Fresh (steps into : List PlanStep) : Prop :=
  (ids into).Nodup ∧ ∀ child ∈ into, child.id ∉ ids steps

/-- **The children go in one after the other**, up to the first whose identifier is taken. -/
theorem insertChildren_cases (pre post : List PlanStep) (s : PlanStep) :
    ∀ (into done : List PlanStep),
    (Fresh (pre ++ s :: (done ++ post)) into ∧
      insertChildren pre.length into done.length (pre ++ s :: (done ++ post)) =
        (.ok (), pre ++ s :: (done ++ into ++ post))) ∨
    ∃ front child rest, into = front ++ child :: rest ∧
      child.id ∈ ids (pre ++ s :: (done ++ front ++ post)) ∧
      ¬ Fresh (pre ++ s :: (done ++ post)) into ∧
      (∀ c ∈ front, c.id ∉ ids (pre ++ s :: (done ++ post))) ∧
      insertChildren pre.length into done.length (pre ++ s :: (done ++ post)) =
        (.error (duplicateStep child.id), pre ++ s :: (done ++ front ++ post))
  | [], done => by
    refine .inl ⟨⟨List.nodup_nil, fun _ h => absurd h List.not_mem_nil⟩, ?_⟩
    rw [insertChildren, List.append_nil]
  | child :: into, done => by
    by_cases htaken : child.id ∈ ids (pre ++ s :: (done ++ post))
    · refine .inr ⟨[], child, into, rfl, by simpa using htaken, ?_, by simp, ?_⟩
      · exact fun h => h.2 child List.mem_cons_self htaken
      · rw [insertChildren, if_pos (isSome_position.2 htaken), List.append_nil]
    · have hins : (pre ++ s :: (done ++ post)).insertIdx (pre.length + 1 + done.length) child =
          pre ++ s :: ((done ++ [child]) ++ post) := by
        have h := insertIdx_at (pre ++ s :: done) post child
        rw [List.length_append, List.length_cons, add_comm done.length 1, ← add_assoc] at h
        simpa using h
      have hids : ∀ x, x ∈ ids (pre ++ s :: (done ++ [child] ++ post)) ↔
          x = child.id ∨ x ∈ ids (pre ++ s :: (done ++ post)) := by
        intro x
        simp only [ids, List.map_append, List.map_cons, List.map_nil, List.mem_append,
          List.mem_cons, List.not_mem_nil, or_false]
        tauto
      have hfresh : Fresh (pre ++ s :: (done ++ post)) (child :: into) ↔
          Fresh (pre ++ s :: (done ++ [child] ++ post)) into := by
        simp only [Fresh, hids, show ids (child :: into) = child.id :: ids into from rfl,
          List.nodup_cons, List.forall_mem_cons, not_or]
        constructor
        · rintro ⟨⟨hne, hnd⟩, -, hall⟩
          exact ⟨hnd, fun c hc => ⟨fun h => hne (h ▸ List.mem_map_of_mem hc), hall c hc⟩⟩
        · rintro ⟨hnd, hall⟩
          refine ⟨⟨?_, hnd⟩, htaken, fun c hc => (hall c hc).2⟩
          rintro hmem
          obtain ⟨c, hc, heq⟩ := List.mem_map.1 hmem
          exact (hall c hc).1 heq
      have hrun : insertChildren pre.length (child :: into) done.length (pre ++ s :: (done ++ post)) =
          insertChildren pre.length into (done ++ [child]).length
            (pre ++ s :: (done ++ [child] ++ post)) := by
        rw [insertChildren, if_neg fun h => htaken (isSome_position.1 h), hins, List.length_append]
        rfl
      rw [hrun, hfresh]
      rcases insertChildren_cases pre post s into (done ++ [child]) with ⟨hok, heq⟩ |
          ⟨front, c, rest, rfl, hc, hnot, hfront, heq⟩
      · refine .inl ⟨hok, heq.trans ?_⟩
        simp
      · refine .inr ⟨child :: front, c, rest, rfl, ?_, hnot, ?_, heq.trans ?_⟩
        · simpa using hc
        · rw [List.forall_mem_cons]
          exact ⟨htaken, fun t ht hmem => hfront t ht ((hids _).2 (.inr hmem))⟩
        · simp

/-- A step that a split has replaced. -/
def replaced (s : PlanStep) (reason : String) : PlanStep :=
  { s with status := .removed, note := some reason }

/-- **What a split leaves behind**: nothing when it has no children or no step to split; the whole
edit; or the replaced step and the children in front of the first that is refused. -/
theorem splitStep_cases (steps : List PlanStep) (id : String) (into : List PlanStep)
    (reason : String) :
    ((into = [] ∨ id ∉ ids steps) ∧ ∃ e, splitStep steps id into reason = (.error e, steps)) ∨
    ∃ pre s post, steps = pre ++ s :: post ∧ s.id = id ∧ id ∉ ids pre ∧ into ≠ [] ∧
      ((Fresh steps into ∧ splitStep steps id into reason =
          (.ok (), pre ++ replaced s reason :: (into ++ post))) ∨
        ∃ front child rest e, into = front ++ child :: rest ∧ ¬ Fresh steps into ∧
          child.id ∈ ids (pre ++ s :: (front ++ post)) ∧ (∀ c ∈ front, c.id ∉ ids steps) ∧
          splitStep steps id into reason =
            (.error e, pre ++ replaced s reason :: (front ++ post))) := by
  unfold splitStep require
  by_cases hinto : into = []
  · exact .inl ⟨.inl hinto, _, if_pos hinto⟩
  · rw [if_neg hinto]
    cases hpos : position steps id with
    | none => exact .inl ⟨.inr (position_none.1 hpos), _, rfl⟩
    | some i =>
      obtain ⟨pre, s, post, rfl, rfl, hs, hpre⟩ := position_some hpos
      -- replacing a step keeps its identifier
      have hids : ∀ more, ids (pre ++ replaced s reason :: more) = ids (pre ++ s :: more) := by
        intro more
        simp [ids, replaced]
      have hfresh : Fresh (pre ++ replaced s reason :: post) into ↔
          Fresh (pre ++ s :: post) into := by
        rw [Fresh, Fresh, hids]
      refine .inr ⟨pre, s, post, rfl, hs, hpre, hinto, ?_⟩
      simp only [modify_at]
      have hcases := insertChildren_cases pre post (replaced s reason) into []
      simp only [List.nil_append, List.length_nil, hfresh] at hcases
      rcases hcases with ⟨hok, heq⟩ | ⟨front, c, rest, hfront, hc, hnot, hnew, heq⟩
      · exact .inl ⟨hok, heq⟩
      · exact .inr ⟨front, c, rest, _, hfront, hnot, hids _ ▸ hc, by rwa [hids] at hnew, heq⟩

/-! ## Refused mutations -/

/-- A call that is refused leaves the plan as it was. -/
def Atomic (plan : Plan) (m : PlanMutation) : Prop :=
  ∀ e, (plan.apply m).1 = .error e → plan.after m = plan

/-- A split replaces its step and inserts its children only when it goes through: it has no children
or no step to split, its children have new and distinct identifiers, or it is refused at the first
child and its step has been removed before, for the same reason. -/
def WholeSplit (steps : List PlanStep) : PlanMutation → Prop
  | .split id into reason =>
    into = [] ∨ id ∉ ids steps ∨ Fresh steps into ∨
      ((∀ child ∈ into.head?, child.id ∈ ids steps) ∧
        ∀ s ∈ Table.find PlanStep.id id steps, s.status = .removed ∧ s.note = some reason)
  | _ => True

theorem find_at (hs : s.id = id) (hpre : id ∉ ids pre) :
    Table.find PlanStep.id id (pre ++ s :: post) = some s := by
  have hnone : Table.find PlanStep.id id pre = none :=
    (Table.find_eq_none _).2 fun t ht heq => hpre (List.mem_map.2 ⟨t, ht, heq⟩)
  rw [Table.find_append, hnone, Option.none_or, Table.find, List.find?_cons_of_pos (by simpa using hs)]

theorem atomic_of_edit (h : ∀ e steps', edit plan.steps m = (.error e, steps') →
    steps' = plan.steps) : Atomic plan m := by
  intro e herr
  unfold after apply at *
  split at herr
  · cases herr
  next e' steps' hedit =>
    show ({ steps := steps', history := plan.history } : Plan) = plan
    rw [h e' steps' hedit]

theorem edit_steps_of_atomic (h : Atomic plan m) {steps' : List PlanStep}
    (hedit : edit plan.steps m = (.error e, steps')) : steps' = plan.steps := by
  have hafter := h e (by rw [apply, hedit])
  rw [after, apply, hedit] at hafter
  exact congrArg Plan.steps hafter

theorem atomic_of_editStep (f : PlanStep → PlanStep)
    (h : edit plan.steps m = editStep plan.steps id f) : Atomic plan m := by
  refine atomic_of_edit fun e steps' hedit => ?_
  rw [h] at hedit
  rcases editStep_cases plan.steps id f with ⟨-, e', heq⟩ | ⟨pre, s, post, -, -, -, heq⟩
  · exact (Prod.mk.inj (heq.symm.trans hedit)).2.symm
  · cases (Prod.mk.inj (heq.symm.trans hedit)).1

theorem split_atomic_iff : Atomic plan (.split id into reason) ↔
    WholeSplit plan.steps (.split id into reason) := by
  obtain ⟨steps, history⟩ := plan
  rcases splitStep_cases steps id into reason with
    ⟨hnone, e, heq⟩ | ⟨pre, s, post, rfl, hs, hpre, hinto, ⟨hfresh, heq⟩ |
      ⟨front, c, rest, e, rfl, hnot, hc, hnew, heq⟩⟩
  · refine ⟨fun _ => hnone.imp_right .inl, fun _ => atomic_of_edit fun e' steps' hedit => ?_⟩
    exact (Prod.mk.inj (heq.symm.trans hedit)).2.symm
  · refine ⟨fun _ => .inr (.inr (.inl hfresh)), fun _ => atomic_of_edit fun e' steps' hedit => ?_⟩
    cases (Prod.mk.inj (heq.symm.trans hedit)).1
  · have hid : id ∈ ids (pre ++ s :: post) := List.mem_map.2 ⟨s, by simp, hs⟩
    have hfind : Table.find PlanStep.id id (pre ++ s :: post) = some s := find_at hs hpre
    constructor
    · intro h
      have hsteps := edit_steps_of_atomic h heq
      have htail := List.cons.inj (List.append_cancel_left hsteps)
      -- the plan has its old length, so no child went in
      have hlength := congrArg List.length htail.2
      rw [List.length_append] at hlength
      obtain rfl := List.length_eq_zero_iff.1 (show front.length = 0 by omega)
      refine .inr (.inr (.inr ⟨?_, ?_⟩))
      · rintro child hchild
        obtain rfl := Option.some.inj hchild
        exact hc
      · rintro t ht
        obtain rfl := Option.some.inj (hfind.symm.trans ht)
        rw [← htail.1]
        exact ⟨rfl, rfl⟩
    · rintro (h | h | h | ⟨hhead, hremoved⟩)
      · exact absurd h hinto
      · exact absurd hid h
      · exact absurd h hnot
      · refine atomic_of_edit fun e' steps' hedit => ?_
        obtain ⟨-, rfl⟩ := Prod.mk.inj (heq.symm.trans hedit)
        obtain ⟨hstatus, hnote⟩ := hremoved s hfind
        cases front with
        | nil => rw [List.nil_append, replaced, ← hstatus, ← hnote]
        | cons t front => exact absurd (hhead t rfl) (hnew t List.mem_cons_self)
/-- **A refused call leaves the plan as it was** exactly when it is not a split that got halfway. -/
theorem atomic_iff : Atomic plan m ↔ WholeSplit plan.steps m := by
  cases m with
  | add step reason =>
    refine ⟨fun _ => trivial, fun _ => atomic_of_edit fun e steps' hedit => ?_⟩
    rw [edit] at hedit
    split at hedit
    · exact (Prod.mk.inj hedit).2.symm
    · cases (Prod.mk.inj hedit).1
  | start id => exact ⟨fun _ => trivial, fun _ => atomic_of_editStep _ rfl⟩
  | complete id => exact ⟨fun _ => trivial, fun _ => atomic_of_editStep _ rfl⟩
  | degrade id reason => exact ⟨fun _ => trivial, fun _ => atomic_of_editStep _ rfl⟩
  | block id reason => exact ⟨fun _ => trivial, fun _ => atomic_of_editStep _ rfl⟩
  | remove id reason => exact ⟨fun _ => trivial, fun _ => atomic_of_editStep _ rfl⟩
  | retry id reason => exact ⟨fun _ => trivial, fun _ => atomic_of_editStep _ rfl⟩
  | split id into reason => exact split_atomic_iff
  | reorder order =>
    refine ⟨fun _ => trivial, fun _ => atomic_of_edit fun e steps' hedit => ?_⟩
    rw [edit] at hedit
    split at hedit
    · exact (Prod.mk.inj hedit).2.symm
    · cases (Prod.mk.inj hedit).1

/-! ## The recorded history -/

theorem after_steps : (plan.after m).steps = (edit plan.steps m).2 := by
  unfold after apply
  split
  next hedit => rw [hedit]
  next hedit => rw [hedit]

/-- A call is recorded, or refused. -/
theorem after_history (plan : Plan) (m : PlanMutation) : (plan.after m).history = plan.history ++ [m] ∨
    ∃ e, (plan.apply m).1 = .error e := by
  unfold after apply
  split
  · exact .inl rfl
  next e _ _ => exact .inr ⟨e, rfl⟩

/-- The mutations recorded since `start`, applied to its steps, give the steps of `plan`. -/
def Replays (start plan : Plan) : Prop :=
  ∃ recorded, plan.history = start.history ++ recorded ∧
    (Run.run after start recorded).steps = plan.steps

/-- One call keeps the history in step with the plan, unless it leaves a trace of a refused split. -/
theorem Replays.after {start plan : Plan} (h : Replays start plan) (hm : WholeSplit plan.steps m) :
    Replays start (plan.after m) := by
  obtain ⟨recorded, hhistory, hsteps⟩ := h
  rcases after_history plan m with hok | ⟨e, herr⟩
  · refine ⟨recorded ++ [m], ?_, ?_⟩
    · rw [hok, hhistory, List.append_assoc]
    · rw [Run.run_append, Run.run_cons, Run.run_nil, after_steps, hsteps, after_steps]
  · rw [atomic_iff.2 hm e herr]
    exact ⟨recorded, hhistory, hsteps⟩

/-- **Refused mutations leave no trace**, call by call, and the history replays, unless a split is
refused halfway. -/
theorem mutations_atomic (plan start : Plan) (m : PlanMutation) (ms : List PlanMutation) :
    (Atomic plan m ↔ WholeSplit plan.steps m) ∧
      (Run.Along after (fun plan m => WholeSplit plan.steps m) start ms →
        Replays start (Run.run after start ms)) := by
  refine ⟨atomic_iff, fun hms => ?_⟩
  exact Run.run_invariant_along (fun plan m hm h => h.after hm) ms start hms
    ⟨[], (List.append_nil _).symm, rfl⟩

def step1 : PlanStep := { id := "step-1", title := "Quote" }

def step2 : PlanStep := { id := "step-2", title := "Disclosures" }

/-- A split whose second child has the identifier of another step. -/
def halfSplit : PlanMutation := .split "step-1" [{ id := "step-1a", title := "Price" }, step2] "finer"

theorem mutations_atomic_refused_start :
    Replays { steps := [step1] } (Run.run after { steps := [step1] } [.start "step-2", .start "step-1"]) :=
  (mutations_atomic { steps := [step1] } _ halfSplit _).2 ⟨trivial, trivial, trivial⟩

theorem refused_split_traced :
    ¬ ((∀ plan m, Atomic plan m) ∧ ∀ start ms, Replays start (Run.run after start ms)) := by
  intro h
  have hsteps := congrArg Plan.steps (h.1 { steps := [step1, step2] } halfSplit _ rfl)
  exact absurd hsteps (by decide)

end Astock.Plan
