import Mathlib.Data.List.TakeWhile
import Astock.Proof.ToolBatchSteps

/-!
# What the loop of a task does

* `Ready messages v`: between rounds no verdict was exhausted, the view is settled
  and `messages` answers every turn so far.
* `rounds_spec`: every round starts ready, and leaves the task ready, `Ended` or
  `Stopped`.
* `executeLoop_spec`: **the loop ends with a published report, or stops with an
  error that says why.**
-/

namespace Astock

open Prog

variable {A : AgentRuntime} {t : String} {budget : ℕ} {v : View}

/-! ## The conversation -/

section Conversation

variable {dialogue : List Obs} {messages extra asked : List Message} {text : String}
  {calls : List ModelToolCall}

/-- Where an element stands in a list with one more at its end. -/
theorem snoc_eq_append_cons {α : Type} {l before after : List α} {x y : α}
    (h : l ++ [y] = before ++ x :: after) :
    (before = l ∧ x = y ∧ after = []) ∨ ∃ after', after = after' ++ [y] ∧ l = before ++ x :: after' := by
  rcases List.eq_nil_or_concat after with rfl | ⟨after', z, rfl⟩
  · obtain ⟨hl, hy⟩ := List.append_inj' h rfl
    exact .inl ⟨hl.symm, (List.singleton_inj.1 hy).symm, rfl⟩
  · rw [List.concat_eq_append, ← List.cons_append, ← List.append_assoc] at h
    obtain ⟨hl, hy⟩ := List.append_inj' h rfl
    exact .inr ⟨after', by rw [List.singleton_inj.1 hy]; simp, hl⟩

/-- Messages that bring no tool result before the next message of the assistant. -/
def NoResult (extra : List Message) : Prop :=
  (extra.takeWhile (·.role ≠ .assistant)).filter (·.role = .tool) = []

theorem Answered.extend (h : Answered asked text calls messages) (hextra : NoResult extra) :
    Answered asked text calls (messages ++ extra) := by
  obtain ⟨rest, rfl, hperm⟩ := h
  refine ⟨rest ++ extra, by simp, ?_⟩
  rw [List.takeWhile_append]
  split
  · rename_i hall
    rw [(List.takeWhile_prefix _).eq_of_length hall] at hperm
    rw [List.filter_append, hextra, List.append_nil]
    exact hperm
  · exact hperm

theorem AnswersAll.extend (h : AnswersAll dialogue messages) (hextra : NoResult extra) :
    AnswersAll dialogue (messages ++ extra) := by
  intro before text calls after heq
  obtain ⟨asked, hasked, hans⟩ := h before text calls after heq
  exact ⟨asked, hasked, hans.extend hextra⟩

/-- A request asks nothing of the messages. -/
theorem AnswersAll.request (h : AnswersAll dialogue messages) (asked : List Message) :
    AnswersAll (dialogue ++ [.request asked]) messages := by
  intro before text calls after heq
  rcases snoc_eq_append_cons heq with ⟨-, hx, -⟩ | ⟨after', -, hd⟩
  · simp at hx
  · exact h before text calls after' hd

/-- A turn asks for the results of its calls. -/
theorem AnswersAll.turn (h : AnswersAll dialogue messages)
    (hasked : dialogue.getLast? = some (.request messages)) {results : List Message}
    (hresults : Answered messages text calls (messages ++ turnMessage text calls :: results)) :
    AnswersAll (dialogue ++ [.turn text calls]) (messages ++ turnMessage text calls :: results) := by
  intro before text' calls' after heq
  rcases snoc_eq_append_cons heq with ⟨rfl, hx, -⟩ | ⟨after', -, hd⟩
  · obtain ⟨rfl, rfl⟩ : text' = text ∧ calls' = calls := by simpa using hx
    exact ⟨messages, hasked, hresults⟩
  · exact h.extend (by simp [NoResult, turnMessage]) before text' calls' after' hd

theorem RequestsOK.request (h : RequestsOK dialogue) (hans : AnswersAll dialogue messages) :
    RequestsOK (dialogue ++ [.request messages]) := by
  intro before asked after heq
  rcases snoc_eq_append_cons heq with ⟨rfl, hx, -⟩ | ⟨after', -, hd⟩
  · obtain rfl : asked = messages := by simpa using hx
    exact hans
  · exact h before asked after' hd

theorem RequestsOK.turn (h : RequestsOK dialogue) (text : String) (calls : List ModelToolCall) :
    RequestsOK (dialogue ++ [.turn text calls]) := by
  intro before asked after heq
  rcases snoc_eq_append_cons heq with ⟨-, hx, -⟩ | ⟨after', -, hd⟩
  · simp at hx
  · exact h before asked after' hd

/-- The results of a batch, and instructions after them, answer the turn. -/
theorem answered_results {completed : List CompletedTool} {instructions : List Message}
    (hperm : (completed.map (·.callId)).Perm (calls.map (·.id)))
    (hins : ∀ m ∈ instructions, m.role = .system) :
    Answered asked text calls (asked ++ turnMessage text calls ::
      (completed.map (·.intoMessage) ++ instructions)) := by
  refine ⟨_, rfl, ?_⟩
  have hrole : ∀ m ∈ completed.map (·.intoMessage), m.role = .tool := by
    intro m hm
    obtain ⟨c, -, rfl⟩ := List.mem_map.1 hm
    rfl
  have hall : ∀ m ∈ completed.map (·.intoMessage) ++ instructions, decide (m.role ≠ .assistant) = true := by
    intro m hm
    rcases List.mem_append.1 hm with hm | hm
    · simp [hrole m hm]
    · simp [hins m hm]
  have hresults : (completed.map (·.intoMessage) ++ instructions).filter (·.role = .tool)
      = completed.map (·.intoMessage) := by
    rw [List.filter_append, List.filter_eq_self.2 fun m hm => by simp [hrole m hm],
      List.filter_eq_nil_iff.2 fun m hm => by simp [hins m hm], List.append_nil]
  rw [List.takeWhile_eq_self_iff.2 hall, hresults, List.map_map]
  have hids := hperm.map some
  rw [List.map_map, List.map_map] at hids
  exact hids

end Conversation

/-! ## Model turns -/

section Turns

theorem selectModel_live :
    Triple (Live t budget [] v) A.selectModel (fun _ => Live t budget [] v) (Stopped t budget) := by
  refine triple_bind (beginEffect_live _ _) fun effectId => triple_bind (race_live _) fun selection => ?_
  split
  · exact failWith_live _ _ _
  · exact failWith_live _ _ _
  · exact failWith_live _ _ _
  · exact triple_bind (completeEffect_closes _ _ _) fun _ => triple_pure fun _ h => h

variable {effectId : String}

theorem nextChunk_live :
    Triple (Live t budget [effectId] v) (A.nextChunk effectId) (fun _ => Live t budget [effectId] v)
      (Stopped t budget) := by
  refine triple_bind ensureActive_live fun _ => triple_bind (race_live _) fun next => ?_
  split
  · exact failWith_live _ _ _
  · exact failWith_live _ _ _
  · exact triple_pure fun _ h => h
  · exact failWith_live _ _ _
  · exact triple_pure fun _ h => h

theorem absorb_live (acc : TurnAcc) (chunk : ModelChunk) :
    Triple (Live t budget [effectId] v) (A.absorb effectId acc chunk)
      (fun _ => Live t budget [effectId] v) (Stopped t budget) := by
  cases chunk with
  | textDelta delta =>
    refine triple_ite (fun _ => triple_pure fun _ h => h) fun _ =>
      triple_ite (fun _ => failWith_live _ _ _) fun _ => ?_
    exact triple_bind (record_live rfl) fun _ => triple_pure fun _ h => h
  | toolCallDelta index id name arguments =>
    refine triple_ite (fun _ => failWith_live _ _ _) fun _ => ?_
    split
    · exact failWith_live _ _ _
    · exact triple_ite (fun _ => failWith_live _ _ _) fun _ => triple_pure fun _ h => h
  | finished reason => exact triple_pure fun _ h => h

theorem readStream_live (left : ℕ) (acc : TurnAcc) :
    Triple (Live t budget [effectId] v) (A.readStream effectId left acc)
      (fun _ => Live t budget [effectId] v) (Stopped t budget) := by
  induction left generalizing acc with
  | zero =>
    refine triple_bind nextChunk_live fun chunk => ?_
    cases chunk with
    | none => exact triple_pure fun _ h => h
    | some _ => exact failWith_live _ _ _
  | succ left ih =>
    refine triple_bind nextChunk_live fun chunk => ?_
    cases chunk with
    | none => exact triple_pure fun _ h => h
    | some chunk => exact triple_bind (absorb_live acc chunk) fun acc => ih acc

theorem connect_live (request : ModelRequest) :
    Triple (Live t budget [effectId] v) (A.connect effectId request)
      (fun _ => Live t budget [effectId] v) (Stopped t budget) := by
  refine triple_bind (race_live _) fun connection => ?_
  split
  · exact failWith_live _ _ _
  · exact failWith_live _ _ _
  · exact failWith_live _ _ _
  · exact triple_pure fun _ h => h

theorem closeTurn_live (acc : TurnAcc) :
    Triple (Live t budget [effectId] v) (A.closeTurn effectId acc) (fun _ => Live t budget [] v)
      (Stopped t budget) := by
  unfold AgentRuntime.closeTurn
  split
  · exact failWith_live _ _ _
  · refine triple_ite (fun _ => ?_) fun _ => ?_ <;>
      exact triple_bind (completeEffect_closes _ _ _) fun _ => triple_pure fun _ h => h

end Turns

/-! ## Rounds -/

section Rounds

variable {messages : List Message}

/-- What holds between rounds. -/
structure Ready (messages : List Message) (v : View) : Prop where
  settled : Settled v
  unexhausted : Unexhausted v.reports
  answers : AnswersAll v.dialogue messages

/-- A ready task whose last request holds the messages. -/
def Asked (messages : List Message) (v : View) : Prop :=
  Ready messages v ∧ v.dialogue.getLast? = some (.request messages)

theorem Ready.extend (h : Ready messages v) {extra : List Message} (hextra : NoResult extra) :
    Ready (messages ++ extra) v := ⟨h.settled, h.unexhausted, h.answers.extend hextra⟩

/-- A request keeps a ready task ready. -/
theorem Ready.request (h : Ready messages v) : Asked messages (v.note (.request messages)) := by
  have hreports : (v.note (.request messages)).reports = v.reports := List.append_nil _
  have hdialogue : (v.note (.request messages)).dialogue = v.dialogue ++ [.request messages] := rfl
  refine ⟨⟨?_, hreports ▸ h.unexhausted, ?_⟩, ?_⟩
  · rw [Settled, hreports]; exact h.settled
  · rw [hdialogue]; exact h.answers.request messages
  · rw [hdialogue]; simp

theorem Sound.request (hs : Sound budget v) (h : AnswersAll v.dialogue messages) :
    Sound budget (v.note (.request messages)) := by
  have hreports : (v.note (.request messages)).reports = v.reports := List.append_nil _
  exact ⟨hs.allowance, hreports ▸ hs.exhausted, hreports ▸ hs.bounded, hs.requests.request h⟩

theorem Sound.turn (hs : Sound budget v) (text : String) (calls : List ModelToolCall) :
    Sound budget (v.note (.turn text calls)) := by
  have hreports : (v.note (.turn text calls)).reports = v.reports := List.append_nil _
  exact ⟨hs.allowance, hreports ▸ hs.exhausted, hreports ▸ hs.bounded, hs.requests.turn text calls⟩

theorem attemptTurn_spec (model : String) (round : ℕ) (tools : List ToolDefinition)
    (h : Ready messages v) :
    Triple (Live t budget [] v) (A.attemptTurn model round tools messages)
      (fun _ => Live t budget [] (v.note (.request messages))) (Stopped t budget) := by
  refine triple_each fun w hw => ?_
  refine triple_bind (Q := fun _ => Live t budget [] (v.note (.request messages))) ?_ fun _ => ?_
  · rintro _ rfl
    exact hw.note (fun _ _ heq => by simp at heq) (hw.2.2.sound.request h.answers)
  refine triple_bind (beginEffect_live _ _) fun effectId => ?_
  refine triple_bind (connect_live _) fun _ => triple_bind (readStream_live _ _) fun acc => ?_
  exact closeTurn_live acc

/-- **A turn of the model**, which answers the messages it comes with. -/
theorem takeTurn_spec (model : String) (round : ℕ) (tools : List ToolDefinition) (left : ℕ)
    (h : Ready messages v) :
    Triple (Live t budget [] v) (A.takeTurn model round tools left messages)
      (fun p w => ∃ v', Asked p.2 v' ∧ Live t budget [] v' w) (Stopped t budget) := by
  induction left generalizing messages v with
  | zero =>
    refine triple_bind (attemptTurn_spec model round tools h) fun turn => ?_
    cases turn with
    | some turn => exact triple_pure fun _ hw => ⟨_, h.request, hw⟩
    | none => exact triple_bind (record_live rfl) fun _ => throw_live _
  | succ left ih =>
    refine triple_bind (attemptTurn_spec model round tools h) fun turn => ?_
    cases turn with
    | some turn => exact triple_pure fun _ hw => ⟨_, h.request, hw⟩
    | none =>
      refine triple_bind (record_live rfl) fun _ => ih ?_
      split
      · exact h.request.1.extend rfl
      · exact h.request.1

/-- What a round leaves the task with. -/
def RoundEnd (t : String) (budget : ℕ) (w : World A.reports.Catalog) :
    RunOutcome ⊕ List Message → Prop
  | .inl _ => Ended t budget w
  | .inr messages => ∃ v, Ready messages v ∧ Live t budget [] v w

theorem toolRound_spec (task : RuntimeTask) (round : ℕ) (text : String) (calls : List ModelToolCall)
    (h : Asked messages v) :
    Triple (Live t budget [] v) (A.toolRound task round messages text calls)
      (fun r w => RoundEnd t budget w r) (Stopped t budget) := by
  refine triple_bind (modifyRun_live fun _ => ⟨rfl, rfl, rfl⟩) fun _ => triple_each fun w hw => ?_
  have hreports : (v.note (.turn text calls)).reports = v.reports := List.append_nil _
  refine triple_bind (Q := fun _ => Live t budget [] (v.note (.turn text calls))) ?_ fun _ => ?_
  · rintro _ rfl
    exact hw.note (fun _ _ heq => by simp at heq) (hw.2.2.sound.turn text calls)
  refine triple_bind (executeTools_spec task calls ?_ (hreports ▸ h.1.unexhausted)) fun batch => ?_
  · rw [Settled, hreports]; exact h.1.settled
  refine triple_each fun w₁ hfits => ?_
  unfold ToolBatch.Fits at hfits
  cases hpub : batch.published with
  | some outcome =>
    rw [hpub] at hfits
    rintro _ rfl
    exact hfits
  | none =>
    rw [hpub] at hfits
    obtain ⟨v', ⟨⟨hset, hd⟩, hun, completed, hmsg, hperm⟩, hlive⟩ := hfits
    cases hexh : batch.finalizationExhausted with
    | some reason => rintro _ rfl; exact hlive.quit _
    | none =>
      rintro _ rfl
      refine ⟨v', ⟨hset, hun hexh, ?_⟩, hlive⟩
      have hmessages : messages ++ [turnMessage text calls] ++ batch.messages ++
          (if round = A.researchLimit then [budgetInstruction] else [])
          = messages ++ turnMessage text calls :: (completed.map (·.intoMessage) ++
            if round = A.researchLimit then [budgetInstruction] else []) := by
        rw [hmsg]; simp
      rw [hd, hmessages]
      refine h.1.answers.turn h.2 (answered_results hperm fun m hm => ?_)
      split at hm
      · rw [List.mem_singleton.1 hm]; rfl
      · simp at hm

theorem proseRound_spec (text : String) (h : Ready messages v) :
    Triple (Live t budget [] v) (A.proseRound messages text)
      (fun r w => RoundEnd t budget w r) (Stopped t budget) := by
  refine triple_ite (fun _ => ?_) fun _ => ?_
  · exact triple_bind (completeRun_spec (fun _ => h.unexhausted) text) fun _ =>
      triple_pure fun _ hw => hw
  refine triple_bind (recordRejection_live _) fun verdict => triple_pure_pre ?_
  rintro rfl
  refine triple_ite (fun _ => throw_live _) fun hretry => ?_
  refine triple_bind (modifyRun_live fun _ => ⟨rfl, rfl, rfl⟩) fun _ => triple_pure fun _ hw => ?_
  have hdialogue : (v.reject ("free-form-turn:" ++ Text.takeChars 512 text)).dialogue = v.dialogue :=
    List.append_nil _
  refine ⟨_, ⟨Settled.reject _ fun hheed => (h.settled hheed).trans (Nat.le_succ _), ?_, ?_⟩, hw⟩
  · exact unexhausted_append.2 ⟨h.unexhausted, unexhausted_verdict.2 (by simpa using hretry)⟩
  · rw [hdialogue]
    exact h.answers.extend rfl

theorem modelRound_spec (task : RuntimeTask) (model : String) (round : ℕ) (h : Ready messages v) :
    Triple (Live t budget [] v) (A.modelRound task model round messages)
      (fun r w => RoundEnd t budget w r) (Stopped t budget) := by
  refine triple_bind (Q := fun _ => Live t budget [] v) ?_ fun _ => ?_
  · exact triple_bind ensureActive_live fun _ =>
      triple_bind (modifyRun_live fun _ => ⟨rfl, rfl, rfl⟩) fun _ => record_live rfl
  refine triple_bind (takeTurn_spec model round _ _ h) fun p => triple_exists fun v' => ?_
  refine triple_pure_pre fun hasked => ?_
  obtain ⟨⟨text, calls⟩, messages'⟩ := p
  exact triple_ite (fun _ => proseRound_spec text hasked.1) fun _ =>
    toolRound_spec task round text calls hasked

/-- **The rounds of a task**, from a ready one. -/
theorem rounds_spec (task : RuntimeTask) (model : String) (left : ℕ) (h : Ready messages v) :
    Triple (Live t budget [] v) (A.rounds task model left messages) (fun _ => Ended t budget)
      (Stopped t budget) := by
  induction left generalizing messages v with
  | zero => exact throw_live _
  | succ left ih =>
    refine triple_bind (modelRound_spec task model _ h) fun result => ?_
    cases result with
    | inl outcome => exact triple_pure fun _ hw => hw
    | inr messages' => exact triple_exists fun v' => triple_pure_pre fun hready => ih hready

theorem startPlanning_live (task : RuntimeTask) :
    Triple (Live t budget [] v) (A.startPlanning task) (fun _ => Live t budget [] v)
      (Stopped t budget) := by
  refine triple_read fun _ => triple_bind (record_live rfl) fun _ => ?_
  refine triple_bind (record_live rfl) fun _ => ?_
  refine triple_bind (modifyRun_live fun _ => ⟨rfl, rfl, rfl⟩) fun _ => ?_
  exact triple_bind (record_live rfl) fun _ => record_live rfl

/-- **The loop of a task** ends with a published report, or stops. -/
theorem executeLoop_spec (task : RuntimeTask) (h : ∀ messages, Ready messages v) :
    Triple (Live t budget [] v) (A.executeLoop task) (fun _ => Ended t budget) (Stopped t budget) :=
  triple_bind (startPlanning_live task) fun _ => triple_bind selectModel_live fun model =>
    rounds_spec task model _ (h _)

end Rounds

end Astock
