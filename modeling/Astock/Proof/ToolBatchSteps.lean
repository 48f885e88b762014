import Astock.Proof.FinalizeSteps

/-!
# What a batch of tool calls does

A batch carries three things through its phases: the effects of the calls that are
still to be finished, the calls that have a result, and the view.

* `prepareAll_spec`: preparation refuses a call or opens an effect for it.
* `executeAll_spec`: whichever call finishes first, each is finished once.
* `executeTools_spec`: **a batch ends the task, or answers each call once.**
-/

namespace Astock

open Prog
open scoped List

variable {A : AgentRuntime} {t : String} {budget : ℕ} {opened : List String} {v : View}

/-- Completing an effect closes it. -/
theorem completeEffect_closes (id status : String) (result : Json) :
    Triple (Live t budget (id :: opened) v) (A.completeEffect id status result)
      (fun _ => Live t budget opened v) (Stopped t budget) := by
  refine (completeEffect_live id status result).conseq (fun _ h => h) (fun _ _ h => ?_) fun _ _ h => h
  refine h.weaken fun x hx => ?_
  obtain ⟨hmem, hne⟩ := List.mem_filter.1 hx
  exact (List.mem_cons.1 hmem).resolve_left (by simpa using hne)

/-! ## Preparation -/

/-- The call is answered, or its effect is open. -/
def PreparedCall.Fits (t : String) (budget : ℕ) (opened : List String) (v : View)
    (call : ModelToolCall) (w : World A.reports.Catalog) : PreparedCall → Prop
  | .rejected completed => completed.callId = call.id ∧ Live t budget opened v w
  | .prepared tool => tool.call.id = call.id ∧ Live t budget (tool.effectId :: opened) v w

theorem refuseCall_spec (call : ModelToolCall) (message : String) :
    Triple (Live t budget opened v) (A.refuseCall call message)
      (fun p w => p.Fits t budget opened v call w) (Stopped t budget) :=
  triple_bind (record_live rfl) fun _ => triple_pure fun _ h => ⟨rfl, h⟩

theorem refuseUnknown_spec (call : ModelToolCall) :
    Triple (Live t budget opened v) (A.refuseUnknown call)
      (fun p w => p.Fits t budget opened v call w) (Stopped t budget) := by
  refine triple_bind (modifyRun_live fun _ => ⟨rfl, rfl, rfl⟩) fun _ => triple_read fun _ => ?_
  refine triple_ite (fun _ => ?_) fun _ => refuseCall_spec call _
  exact triple_bind (strike_live (.gaveUp _)) fun _ => throw_live _

theorem scheduleCall_spec (call : ModelToolCall) (definition : ToolDefinition) (arguments : Json) :
    Triple (Live t budget opened v) (A.scheduleCall call definition arguments)
      (fun p w => p.Fits t budget opened v call w) (Stopped t budget) :=
  triple_bind (record_live rfl) fun _ => triple_bind (beginEffect_live _ _) fun _ =>
    triple_bind (record_live rfl) fun _ => triple_pure fun _ h => ⟨rfl, h⟩

theorem prepareCall_spec (call : ModelToolCall) :
    Triple (Live t budget opened v) (A.prepareCall call)
      (fun p w => p.Fits t budget opened v call w) (Stopped t budget) := by
  unfold AgentRuntime.prepareCall
  split
  · exact refuseUnknown_spec call
  · split
    · exact refuseCall_spec call _
    · exact scheduleCall_spec call _ _

/-- **Preparation** answers or opens each call. -/
theorem prepareAll_spec (calls : List ModelToolCall) :
    Triple (Live t budget opened v) (A.prepareAll calls)
      (fun p w => (p.1.map (·.callId) ++ p.2.map (·.call.id)).Perm (calls.map (·.id)) ∧
        Live t budget (p.2.map (·.effectId) ++ opened) v w) (Stopped t budget) := by
  induction calls generalizing opened with
  | nil => exact triple_pure fun _ h => ⟨List.Perm.refl _, h⟩
  | cons call rest ih =>
    refine triple_bind (prepareCall_spec call) fun p => ?_
    cases p with
    | rejected completed =>
      refine triple_pure_pre fun hid => triple_bind ih fun q => triple_pure fun w h => ?_
      refine ⟨?_, h.2⟩
      rw [List.map_cons, List.map_cons, hid, List.cons_append]
      exact h.1.cons _
    | prepared tool =>
      refine triple_pure_pre fun hid => triple_bind ih fun q => triple_pure fun w h => ?_
      refine ⟨?_, h.2.weaken fun x hx => ?_⟩
      · rw [List.map_cons, List.map_cons, hid]
        exact List.perm_middle.trans (h.1.cons _)
      · simpa [or_assoc, or_left_comm] using hx

/-! ## Engine calls -/

theorem failExecution_spec (tool : PreparedTool) (message : String) (retryable : Bool) :
    Triple (Live t budget (tool.effectId :: opened) v) (A.failExecution tool message retryable)
      (fun completed w => completed.callId = tool.call.id ∧ Live t budget opened v w)
      (Stopped t budget) :=
  triple_bind (completeEffect_closes _ _ _) fun _ =>
    triple_bind (record_live rfl) fun _ => triple_pure fun _ h => ⟨rfl, h⟩

theorem recordEvidence_live (callId : String) (ids : List String) :
    Triple (Live t budget opened v) (A.recordEvidence callId ids)
      (fun _ => Live t budget opened v) (Stopped t budget) :=
  triple_ite (fun _ => triple_pure fun _ h => h) fun _ => record_live rfl

theorem succeedExecution_spec (task : RuntimeTask) (tool : PreparedTool) (value : Json) :
    Triple (Live t budget (tool.effectId :: opened) v) (A.succeedExecution task tool value)
      (fun completed w => completed.callId = tool.call.id ∧ Live t budget opened v w)
      (Stopped t budget) := by
  refine triple_bind (completeEffect_closes _ _ _) fun _ => ?_
  refine triple_bind (modifyRun_live fun _ => ⟨rfl, rfl, rfl⟩) fun _ => ?_
  refine triple_bind (record_live rfl) fun _ => triple_bind (recordEvidence_live _ _) fun _ => ?_
  refine triple_bind (modifyRun_live fun _ => ⟨rfl, rfl, rfl⟩) fun _ => ?_
  refine triple_pure fun _ h => ⟨?_, h⟩
  unfold CompletedTool.success CompletedTool.successBounded
  rfl

theorem settleExecution_spec (task : RuntimeTask) (tool : PreparedTool)
    (result : Option (Except String Json)) :
    Triple (Live t budget (tool.effectId :: opened) v) (A.settleExecution task tool result)
      (fun completed w => completed.callId = tool.call.id ∧ Live t budget opened v w)
      (Stopped t budget) := by
  unfold AgentRuntime.settleExecution
  split
  · exact triple_ite (fun _ => failExecution_spec tool _ _) fun _ => succeedExecution_spec task tool _
  · exact failExecution_spec tool _ _
  · exact failExecution_spec tool _ _

/-- The call that finishes first is one of the remaining. -/
theorem nextFinished_lt (now : ℕ) (first : PreparedTool) (rest : List PreparedTool) :
    A.nextFinished now (first :: rest) < (first :: rest).length := by
  have hpos : 0 < min (max A.config.maxParallelTools 1) (first :: rest).length := by
    simp only [List.length_cons]; omega
  exact lt_of_lt_of_le (Nat.mod_lt _ hpos) (min_le_right _ _)

/-- **Engine calls** finish in any order, each once. -/
theorem executeAll_spec (task : RuntimeTask) {n : ℕ} {remaining : List PreparedTool}
    (hn : n = remaining.length) :
    Triple (Live t budget (remaining.map (·.effectId) ++ opened) v) (A.executeAll task n remaining)
      (fun completed w => (completed.map (·.callId)).Perm (remaining.map (·.call.id)) ∧
        Live t budget opened v w) (Stopped t budget) := by
  induction n generalizing remaining with
  | zero =>
    rw [List.length_eq_zero_iff.1 hn.symm]
    exact triple_pure fun _ h => ⟨List.Perm.refl _, h⟩
  | succ n ih =>
    cases remaining with
    | nil => simp at hn
    | cons first rest =>
      rw [AgentRuntime.executeAll]
      refine triple_bind tick_live fun now => ?_
      have hi := nextFinished_lt (A := A) now first rest
      have htool : (first :: rest).getD (A.nextFinished now (first :: rest)) first
          = (first :: rest)[A.nextFinished now (first :: rest)] := by
        rw [List.getD_eq_getElem?_getD, List.getElem?_eq_getElem hi]; rfl
      simp only [htool]
      have hperm := List.getElem_cons_eraseIdx_perm hi
      have hlen := List.length_eraseIdx_of_lt hi
      generalize (first :: rest)[A.nextFinished now (first :: rest)] = tool at hperm
      generalize (first :: rest).eraseIdx (A.nextFinished now (first :: rest)) = others at hperm hlen
      refine triple_bind ensureActive_live fun _ => ?_
      refine triple_bind (Q := fun c w => c.callId = tool.call.id ∧
        Live t budget (others.map (·.effectId) ++ opened) v w)
        ((settleExecution_spec task tool _).conseq (fun w h => ?_) (fun _ _ h => h)
          fun _ _ h => h) fun c => triple_pure_pre fun hid => ?_
      · -- the remaining effects are that of the call and the others
        refine h.weaken fun x hx => ?_
        rcases List.mem_append.1 hx with hx | hx
        · exact List.mem_append_left _ ((hperm.map (·.effectId)).mem_iff.2 hx)
        · exact List.mem_cons_of_mem _ (List.mem_append_right _ hx)
      · refine triple_bind (ih (by rw [hlen, ← hn]; rfl)) fun cs => triple_pure fun w h => ?_
        refine ⟨?_, h.2⟩
        rw [List.map_cons, hid]
        exact (h.1.cons _).trans (hperm.map fun tool : PreparedTool => tool.call.id)

/-! ## Runtime calls -/

theorem searchEvidence_spec (tool : PreparedTool) :
    Triple (Live t budget (tool.effectId :: opened) v) (A.searchEvidence tool)
      (fun completed w => completed.callId = tool.call.id ∧ Live t budget opened v w)
      (Stopped t budget) :=
  triple_read fun _ => triple_bind (completeEffect_closes _ _ _) fun _ =>
    triple_bind (record_live rfl) fun _ => triple_pure fun _ h => ⟨rfl, h⟩

/-- The task is over, or the call is answered and the view settled. -/
def Submitted.Fits (t : String) (budget : ℕ) (opened : List String) (v : View) (id : String)
    (w : World A.reports.Catalog) : Submitted → Prop
  | .published _ => Ended t budget w
  | .refused completed exhausted => completed.callId = id ∧
    ∃ v', ((Settled v' ∧ v'.dialogue = v.dialogue) ∧
      (exhausted = none → Unexhausted v.reports → Unexhausted v'.reports)) ∧ Live t budget opened v' w

/-- **A report that passed is published**, whatever else is open. -/
theorem publish_spec (tool : PreparedTool) (rendered : A.reports.Rendered) {opened₁ : List String}
    {v₁ : View} (hpub : Publishable v₁) :
    Triple (Live t budget opened₁ v₁) (A.publish tool rendered)
      (fun s w => s.Fits t budget opened v tool.call.id w) (Stopped t budget) :=
  triple_bind (completeEffect_live _ _ _) fun _ => triple_bind (strike_live .accepted) fun _ =>
    triple_bind (record_live rfl) fun _ => triple_bind (completeRun_spec hpub _) fun _ =>
      triple_pure fun _ h => h

theorem refuseReport_spec (tool : PreparedTool) (result : Json) (message : String) (retryable : Bool)
    (response : Json) (exhausted : Option String) {v₁ : View} (hset : Settled v₁)
    (hd : v₁.dialogue = v.dialogue)
    (hun : exhausted = none → Unexhausted v.reports → Unexhausted v₁.reports) :
    Triple (Live t budget (tool.effectId :: opened) v₁)
      (A.refuseReport tool result message retryable response exhausted)
      (fun s w => s.Fits t budget opened v tool.call.id w) (Stopped t budget) :=
  triple_bind (completeEffect_closes _ _ _) fun _ => triple_bind (record_live rfl) fun _ =>
    triple_pure fun _ h => ⟨rfl, v₁, ⟨⟨hset, hd⟩, hun⟩, h⟩

theorem submitReport_spec (task : RuntimeTask) (tool : PreparedTool) (hset : Settled v) :
    Triple (Live t budget (tool.effectId :: opened) v) (A.submitReport task tool)
      (fun s w => s.Fits t budget opened v tool.call.id w) (Stopped t budget) := by
  refine triple_bind (finalizeReport_spec task tool.arguments hset) fun outcome => ?_
  refine triple_exists fun v₁ => triple_pure_pre fun ⟨hfits, hd⟩ => ?_
  cases outcome with
  | published rendered => exact publish_spec tool rendered hfits
  | repair response => exact refuseReport_spec tool _ _ _ _ _ hfits.1 hd fun _ => hfits.2
  | exhausted response reason =>
    exact refuseReport_spec tool _ _ _ _ _ hfits hd fun hnone => by simp at hnone

/-- The task is over, or the calls with the given ids are answered, each once. -/
def ToolBatch.Fits (t : String) (budget : ℕ) (dialogue : List Obs) (ids : List String)
    (w : World A.reports.Catalog) (batch : ToolBatch) : Prop :=
  match batch.published with
  | some _ => Ended t budget w
  | none => ∃ v', ((Settled v' ∧ v'.dialogue = dialogue) ∧
      (batch.finalizationExhausted = none → Unexhausted v'.reports) ∧
      ∃ completed : List CompletedTool, batch.messages = completed.map (·.intoMessage) ∧
        (completed.map (·.callId)).Perm ids) ∧ Live t budget [] v' w

/-- Calls that were answered before. -/
theorem ToolBatch.Fits.after {w : World A.reports.Catalog} {batch : ToolBatch}
    {dialogue : List Obs} {ids ids' : List String} (h : batch.Fits t budget dialogue ids w) (before : List CompletedTool)
    (hids : (before.map (·.callId) ++ ids).Perm ids') :
    ToolBatch.Fits t budget dialogue ids' w
      { batch with messages := before.map (·.intoMessage) ++ batch.messages } := by
  unfold ToolBatch.Fits at h ⊢
  simp only
  split at h
  · exact h
  · obtain ⟨v', ⟨hv, hun, completed, hmsg, hperm⟩, hlive⟩ := h
    refine ⟨v', ⟨hv, hun, before ++ completed, by rw [hmsg, List.map_append], ?_⟩, hlive⟩
    rw [List.map_append]
    exact (hperm.append_left _).trans hids

/-- **Runtime calls** are served in order until a report is published. -/
theorem serveAll_spec (task : RuntimeTask) (exhausted : Option String) (tools : List PreparedTool)
    (hset : Settled v) (hun : exhausted = none → Unexhausted v.reports) :
    Triple (Live t budget (tools.map (·.effectId)) v) (A.serveAll task exhausted tools)
      (fun batch w => batch.Fits t budget v.dialogue (tools.map (·.call.id)) w) (Stopped t budget) := by
  induction tools generalizing exhausted v with
  | nil => exact triple_pure fun _ h => ⟨v, ⟨⟨hset, rfl⟩, hun, [], rfl, List.Perm.refl _⟩, h⟩
  | cons tool rest ih =>
    refine triple_bind ensureActive_live fun _ => ?_
    refine triple_ite (fun _ => ?_) fun _ => triple_ite (fun _ => ?_) fun _ => ?_
    · refine triple_bind (searchEvidence_spec tool) fun completed => triple_pure_pre fun hid => ?_
      refine triple_bind (ih exhausted hset hun) fun batch => triple_pure fun w h => ?_
      exact h.after [completed] (by simp [hid])
    · refine triple_bind (submitReport_spec task tool hset) fun submitted => ?_
      cases submitted with
      | published outcome => exact triple_pure fun _ h => h
      | refused completed reason =>
        refine triple_pure_pre fun hid => triple_exists fun v₁ => triple_pure_pre fun hv => ?_
        obtain ⟨⟨hset₁, hd⟩, hun₁⟩ := hv
        refine triple_bind (ih (reason.or exhausted) hset₁ fun hnone => ?_) fun batch =>
          triple_pure fun w h => ?_
        · obtain ⟨hreason, hexh⟩ := Option.or_eq_none_iff.1 hnone
          exact hun₁ hreason (hun hexh)
        · rw [← hd]
          exact h.after [completed] (by simp [hid])
    · exact triple_bind (strike_live (.gaveUp _)) fun _ => throw_live _

/-- **A batch** ends the task, or answers each call once. -/
theorem executeTools_spec (task : RuntimeTask) (calls : List ModelToolCall) (hset : Settled v)
    (hun : Unexhausted v.reports) :
    Triple (Live t budget [] v) (A.executeTools task calls)
      (fun batch w => batch.Fits t budget v.dialogue (calls.map (·.id)) w) (Stopped t budget) := by
  refine triple_bind (prepareAll_spec calls) fun p => triple_pure_pre fun hprepared => ?_
  obtain ⟨rejected, prepared⟩ := p
  set engineCalls := prepared.filter (·.definition.handler ≠ .runtime) with hengine
  set runtimeCalls := prepared.filter (·.definition.handler = .runtime) with hruntime
  set sorted := runtimeCalls.insertionSort (·.call.index ≤ ·.call.index) with hsorted
  have hsplit : (engineCalls ++ sorted).Perm prepared := by
    have hperm := List.filter_append_perm
      (fun tool : PreparedTool => decide (tool.definition.handler ≠ .runtime)) prepared
    refine ((List.perm_insertionSort _ _).append_left _).trans (List.Perm.trans ?_ hperm)
    rw [hengine, hruntime]
    simp
  have hexecute : Triple (Live t budget (engineCalls.map (·.effectId) ++ sorted.map (·.effectId)) v)
      (A.executeAll task engineCalls.length engineCalls)
      (fun completed w => (completed.map (·.callId)).Perm (engineCalls.map (·.call.id)) ∧
        Live t budget (sorted.map (·.effectId)) v w) (Stopped t budget) := executeAll_spec task rfl
  refine triple_bind (hexecute.conseq (fun w h => h.weaken ?_) (fun _ _ h => h) fun _ _ h => h)
    fun executed => triple_pure_pre fun hexecuted => ?_
  · rw [List.append_nil, ← List.map_append]
    exact (hsplit.map _).symm.subset
  refine triple_bind (serveAll_spec task none _ hset fun _ => hun) fun batch =>
    triple_pure fun w h => h.after _ ?_
  calc ((rejected ++ executed).insertionSort (·.index ≤ ·.index)).map (·.callId)
        ++ sorted.map (·.call.id)
      ~ (rejected ++ executed).map (·.callId) ++ sorted.map (·.call.id) :=
        ((List.perm_insertionSort _ _).map _).append_right _
    _ ~ rejected.map (·.callId) ++ (engineCalls.map (·.call.id) ++ sorted.map (·.call.id)) := by
        rw [List.map_append, List.append_assoc]
        exact (hexecuted.append_right _).append_left _
    _ ~ rejected.map (·.callId) ++ prepared.map (·.call.id) := by
        rw [← List.map_append]
        exact (hsplit.map _).append_left _
    _ ~ calls.map (·.id) := hprepared

end Astock
