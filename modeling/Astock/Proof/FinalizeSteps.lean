import Astock.Proof.RunSteps

/-!
# What handling a submitted report does

* `Settled`: at most as many drafts were validated as attempts are counted. It
  holds between submissions, and a draft that was handled while an attempt
  remained keeps the count within the budget.
* `finalizeReport_spec`: **a submission is published only while no verdict was
  exhausted, or one was not heeded**; otherwise the views are settled again.
-/

namespace Astock

open Prog

/-! ## The ledger -/

namespace FinalizationLedger

variable {ledger : FinalizationLedger} {fingerprint : String}

@[simp] theorem recordRejection_maxAttempts :
    (ledger.recordRejection fingerprint).1.maxAttempts = ledger.maxAttempts := by
  unfold recordRejection; simp only; split_ifs <;> rfl

@[simp] theorem recordRejection_attempts :
    (ledger.recordRejection fingerprint).1.attempts = ledger.attempts + 1 := by
  unfold recordRejection; simp only; split_ifs <;> rfl

@[simp] theorem recordRejection_seen :
    (ledger.recordRejection fingerprint).1.seen = fingerprint :: ledger.seen := by
  unfold recordRejection; simp only; split_ifs <;> rfl

theorem recordRejection_isExhausted :
    (ledger.recordRejection fingerprint).2.isExhausted = true ↔
      ledger.maxAttempts ≤ ledger.attempts + 1 ∨ 2 < ledger.seen.count fingerprint + 1 := by
  unfold recordRejection
  simp only
  split_ifs with hrepeat hspent
  · exact iff_of_true rfl (.inr hrepeat)
  · exact iff_of_true rfl (.inl hspent)
  · exact iff_of_false (by simp [RepairVerdict.isExhausted]) (by tauto)

/-- **A ledger is spent once a verdict was exhausted, and not before.** -/
theorem recordRejection_spent :
    (ledger.recordRejection fingerprint).1.Spent ↔
      ledger.Spent ∨ (ledger.recordRejection fingerprint).2.isExhausted = true := by
  rw [recordRejection_isExhausted]
  unfold Spent
  rw [recordRejection_maxAttempts, recordRejection_attempts, recordRejection_seen]
  constructor
  · rintro (hspent | ⟨f, hf, hcount⟩)
    · exact .inr (.inl hspent)
    · by_cases heq : f = fingerprint
      · rw [heq, List.count_cons_self] at hcount
        exact .inr (.inr hcount)
      · rw [List.count_cons_of_ne (Ne.symm heq)] at hcount
        exact .inl (.inr ⟨f, (List.mem_cons.1 hf).resolve_left heq, hcount⟩)
  · rintro ((hspent | ⟨f, hf, hcount⟩) | hspent | hrepeat)
    · exact .inl (by omega)
    · exact .inr ⟨f, List.mem_cons_of_mem _ hf, lt_of_lt_of_le hcount (List.count_le_count_cons)⟩
    · exact .inl hspent
    · exact .inr ⟨fingerprint, List.mem_cons_self, by rw [List.count_cons_self]; exact hrepeat⟩

theorem new_not_spent (maxAttempts : ℕ) : ¬ (new maxAttempts).Spent := by
  simp [Spent, new]

end FinalizationLedger

/-! ## Views -/

section Views

variable {budget : ℕ} {v : View} {fingerprint : String}

/-- The view after a rejected submission. -/
def View.reject (v : View) (fingerprint : String) : View :=
  View.note { v with ledger := (v.ledger.recordRejection fingerprint).1 }
    (.verdict (v.ledger.recordRejection fingerprint).2)

/-- As many attempts are counted as drafts were validated. -/
def Settled (v : View) : Prop := Heeded v.reports → validatedCount v.reports ≤ v.ledger.attempts

theorem heeded_of_append {reports obs : List Obs} (h : Heeded (reports ++ obs)) : Heeded reports :=
  fun ledger hmem => h ledger (List.mem_append_left _ hmem)

theorem unexhausted_append {reports obs : List Obs} :
    Unexhausted (reports ++ obs) ↔ Unexhausted reports ∧ Unexhausted obs := by
  simp only [Unexhausted, List.mem_append, not_or]
  exact ⟨fun h => ⟨fun a r => (h a r).1, fun a r => (h a r).2⟩, fun h a r => ⟨h.1 a r, h.2 a r⟩⟩

theorem unexhausted_verdict {verdict : RepairVerdict} :
    Unexhausted [.verdict verdict] ↔ verdict.isExhausted = false := by
  cases verdict <;> simp [Unexhausted, RepairVerdict.isExhausted]

theorem validatedCount_note (v : View) (o : Obs) :
    validatedCount (v.note o).reports = validatedCount v.reports + if o.isValidated then 1 else 0 := by
  cases o <;> simp [View.note, validatedCount, Obs.isReport, Obs.isValidated, List.filter_cons]

theorem Sound.reject (h : Sound budget v) (fingerprint : String) :
    Sound budget (v.reject fingerprint) := by
  refine ⟨?_, ?_, fun hheed => ?_, ?_⟩
  · exact (FinalizationLedger.recordRejection_maxAttempts).trans h.allowance
  · show (v.ledger.recordRejection fingerprint).1.Spent ↔ ¬ Unexhausted (v.reports ++ [_])
    rw [FinalizationLedger.recordRejection_spent, h.exhausted, unexhausted_append,
      unexhausted_verdict]
    cases (v.ledger.recordRejection fingerprint).2.isExhausted <;> simp
  · rw [View.reject, validatedCount_note]
    exact h.bounded (heeded_of_append hheed)
  · simpa [View.reject, View.note, Obs.isDialogue] using h.requests

/-- A submission is about to be handled. -/
theorem Sound.submit (h : Sound budget v) : Sound budget (v.note (.submission v.ledger)) := by
  refine ⟨h.allowance, ?_, fun hheed => ?_, ?_⟩
  · have hexh := h.exhausted
    simpa [View.note, Obs.isReport, Unexhausted] using hexh
  · rw [validatedCount_note]
    exact h.bounded (heeded_of_append hheed)
  · simpa [View.note, Obs.isDialogue] using h.requests

/-- A draft is checked against the contract, of a submission handled while an attempt
remained. -/
theorem Sound.validated (h : Sound budget v) (hset : Settled v)
    (hspent : Heeded v.reports → ¬ v.ledger.Spent) : Sound budget (v.note .validated) := by
  refine ⟨h.allowance, ?_, fun hheed => ?_, ?_⟩
  · have hexh := h.exhausted
    simpa [View.note, Obs.isReport, Unexhausted] using hexh
  · have hheed := heeded_of_append hheed
    have hcount := hset hheed
    have hleft : v.ledger.attempts < v.ledger.maxAttempts := by
      by_contra hle
      exact hspent hheed (.inl (by omega))
    have hallow := h.allowance
    rw [validatedCount_note]
    show _ + 1 ≤ budget
    omega
  · simpa [View.note, Obs.isDialogue] using h.requests

/-- Counting a rejection makes up for one draft not yet counted. -/
theorem Settled.reject (fingerprint : String)
    (hcount : Heeded v.reports → validatedCount v.reports ≤ v.ledger.attempts + 1) :
    Settled (v.reject fingerprint) := fun hheed => by
  rw [View.reject, validatedCount_note]
  show _ ≤ (v.ledger.recordRejection fingerprint).1.attempts
  rw [FinalizationLedger.recordRejection_attempts]
  exact hcount (heeded_of_append hheed)

/-- What an answer to a submission says about the view it leaves. -/
def Finalization.Fits {R : Type} (v v' : View) : Finalization R → Prop
  | .published _ => Publishable v'
  | .repair _ => Settled v' ∧ (Unexhausted v.reports → Unexhausted v'.reports)
  | .exhausted _ _ => Settled v'

/-- The answer to a rejected submission fits, with at most one draft not yet counted. -/
theorem answer_fits {R : Type} {v₁ : View} (fingerprint : String) (response : Json) (reason : String)
    (hcount : Heeded v₁.reports → validatedCount v₁.reports ≤ v₁.ledger.attempts + 1)
    (hun : Unexhausted v.reports → Unexhausted v₁.reports) :
    Finalization.Fits v (v₁.reject fingerprint)
      ((v₁.ledger.recordRejection fingerprint).2.answer response reason : Finalization R) := by
  have hset : Settled (v₁.reject fingerprint) := Settled.reject fingerprint hcount
  cases hverdict : (v₁.ledger.recordRejection fingerprint).2 with
  | retry attempt remaining unchanged =>
    refine ⟨hset, fun h => ?_⟩
    show Unexhausted (v₁.reports ++ [.verdict (v₁.ledger.recordRejection fingerprint).2])
    rw [hverdict]
    exact unexhausted_append.2 ⟨hun h, unexhausted_verdict.2 rfl⟩
  | exhausted attempt reason => exact hset

end Views

/-! ## Steps -/

section Steps

variable {A : AgentRuntime} {t : String} {budget : ℕ} {opened : List String} {v v₁ : View}

/-- The answer to a submission, which leaves the conversation alone. -/
def Handled (t : String) (budget : ℕ) (opened : List String) (v : View)
    (outcome : Finalization A.reports.Rendered) (w : World A.reports.Catalog) : Prop :=
  ∃ v', (outcome.Fits v v' ∧ v'.dialogue = v.dialogue) ∧ Live t budget opened v' w

theorem recordRejection_live (fingerprint : String) :
    Triple (Live t budget opened v) (A.recordRejection fingerprint)
      (fun verdict w => verdict = (v.ledger.recordRejection fingerprint).2 ∧
        Live t budget opened (v.reject fingerprint) w) (Stopped t budget) := by
  intro w h
  have hfin := h.2.1
  refine ⟨by rw [← hfin], ?_⟩
  refine h.observed (o := .verdict (w.run.finalization.recordRejection fingerprint).2)
    (fun _ _ heq => by simp at heq) ?_ ?_ ?_ ?_ (by rw [View.reject, ← hfin]; rfl)
    (h.2.2.sound.reject fingerprint) <;> rfl

/-- Answering a rejected submission, after which nothing is changed. -/
theorem answer_spec (fingerprint : String) (response : Json) (reason : String)
    (hcount : Heeded v₁.reports → validatedCount v₁.reports ≤ v₁.ledger.attempts + 1)
    (hun : Unexhausted v.reports → Unexhausted v₁.reports) (hd : v₁.dialogue = v.dialogue)
    {w : World A.reports.Catalog} (h : Live t budget opened (v₁.reject fingerprint) w) :
    Handled t budget opened v
      ((v₁.ledger.recordRejection fingerprint).2.answer response reason) w := by
  refine ⟨_, ⟨answer_fits fingerprint response reason hcount hun, ?_⟩, h⟩
  rw [← hd]
  exact List.append_nil _

theorem rejectUndecodable_spec (arguments : Json) (error : String)
    (hcount : Heeded v₁.reports → validatedCount v₁.reports ≤ v₁.ledger.attempts + 1)
    (hun : Unexhausted v.reports → Unexhausted v₁.reports) (hd : v₁.dialogue = v.dialogue) :
    Triple (Live t budget opened v₁) (A.rejectUndecodable arguments error)
      (Handled t budget opened v) (Stopped t budget) := by
  refine triple_bind (recordRejection_live _) fun verdict => triple_pure_pre ?_
  rintro rfl
  exact triple_read fun _ => triple_pure fun _ h => answer_spec _ _ _ hcount hun hd h

theorem rejectInvalid_spec (draft : A.reports.Draft) (problems : List A.reports.Problem)
    (hcount : Heeded v₁.reports → validatedCount v₁.reports ≤ v₁.ledger.attempts + 1)
    (hun : Unexhausted v.reports → Unexhausted v₁.reports) (hd : v₁.dialogue = v.dialogue) :
    Triple (Live t budget opened v₁) (A.rejectInvalid draft problems)
      (Handled t budget opened v) (Stopped t budget) := by
  refine triple_bind (recordRejection_live _) fun verdict => triple_pure_pre ?_
  rintro rfl
  refine triple_bind (recordAll_live ?_) fun _ => ?_
  · intro event hevent
    obtain ⟨problem, -, rfl⟩ := List.mem_map.1 hevent
    rfl
  · exact triple_read fun _ => triple_pure fun _ h => answer_spec _ _ _ hcount hun hd h

theorem rejectUnverified_spec (draft : A.reports.Draft) (findings : List String)
    (hcount : Heeded v₁.reports → validatedCount v₁.reports ≤ v₁.ledger.attempts + 1)
    (hun : Unexhausted v.reports → Unexhausted v₁.reports) (hd : v₁.dialogue = v.dialogue) :
    Triple (Live t budget opened v₁) (A.rejectUnverified draft findings)
      (Handled t budget opened v) (Stopped t budget) := by
  refine triple_bind (recordAll_live ?_) fun _ => ?_
  · intro event hevent
    obtain ⟨code, -, rfl⟩ := List.mem_map.1 hevent
    rfl
  refine triple_bind (recordRejection_live _) fun verdict => triple_pure_pre ?_
  rintro rfl
  exact triple_pure fun _ h => answer_spec _ _ _ hcount hun hd h

theorem giveUpVerification_spec {α : Type} {Q : α → World A.reports.Catalog → Prop}
    (effectId message reason : String) :
    Triple (Live t budget opened v) (A.giveUpVerification effectId message reason) Q
      (Stopped t budget) :=
  triple_bind (completeEffect_live _ _ _) fun _ =>
    triple_bind (strike_live (.gaveUp _)) fun _ => throw_live _

theorem verifyCanonicalReport_live (task : RuntimeTask) (draft : A.reports.Draft)
    (rendered : A.reports.Rendered) :
    Triple (Live t budget opened v) (A.verifyCanonicalReport task draft rendered)
      (fun _ => Live t budget opened v) (Stopped t budget) := by
  unfold AgentRuntime.verifyCanonicalReport AgentRuntime.verificationSpec
  refine triple_read fun _ => triple_bind (Q := fun _ => Live t budget opened v) ?_ fun spec => ?_
  · exact triple_bind tick_live fun _ => triple_pure fun _ h => h
  refine triple_bind (beginEffect_live _ _) fun effectId => triple_bind tick_live fun now => ?_
  split
  · refine triple_bind (completeEffect_live _ _ _) fun _ => triple_pure fun w h => ?_
    -- the verification's own effect is complete again
    exact h.weaken fun id hid => by
      obtain ⟨hmem, hne⟩ := List.mem_filter.1 hid
      exact (List.mem_cons.1 hmem).resolve_left (by simpa using hne)
  · exact giveUpVerification_spec _ _ _
  · exact giveUpVerification_spec _ _ _

theorem verifyDraft_spec (task : RuntimeTask) (draft : A.reports.Draft)
    (rendered : A.reports.Rendered) (hpub : Publishable v₁)
    (hcount : Heeded v₁.reports → validatedCount v₁.reports ≤ v₁.ledger.attempts + 1)
    (hun : Unexhausted v.reports → Unexhausted v₁.reports) (hd : v₁.dialogue = v.dialogue) :
    Triple (Live t budget opened v₁) (A.verifyDraft task draft rendered)
      (Handled t budget opened v) (Stopped t budget) := by
  refine triple_bind (modifyRun_live fun _ => ⟨rfl, rfl, rfl⟩) fun _ => ?_
  refine triple_bind (record_live rfl) fun _ => ?_
  refine triple_bind (verifyCanonicalReport_live task draft rendered) fun verification => ?_
  refine triple_ite (fun _ => ?_) fun _ => ?_
  · exact triple_pure fun _ h => ⟨v₁, ⟨hpub, hd⟩, h⟩
  · exact rejectUnverified_spec draft _ hcount hun hd

/-- **Handling a submission.** -/
theorem finalizeReport_spec (task : RuntimeTask) (arguments : Json) (hset : Settled v) :
    Triple (Live t budget opened v) (A.finalizeReport task arguments)
      (Handled t budget opened v) (Stopped t budget) := by
  unfold AgentRuntime.finalizeReport
  refine triple_each fun w h => triple_get_eq ?_
  have hfin := h.2.1
  have hsound := h.2.2.sound
  rw [hfin]
  set v₁ := v.note (.submission v.ledger) with hv₁
  have hspent : Heeded v₁.reports → ¬ v.ledger.Spent := fun hheed =>
    hheed v.ledger (List.mem_append_right _ (List.mem_singleton_self _))
  have hset₁ : Settled v₁ := fun hheed => by
    rw [hv₁, validatedCount_note]
    exact hset (heeded_of_append hheed)
  have hun₁ : Unexhausted v.reports → Unexhausted v₁.reports := fun hun =>
    unexhausted_append.2 ⟨hun, by simp [Unexhausted, Obs.isReport]⟩
  have hd₁ : v₁.dialogue = v.dialogue := List.append_nil _
  refine triple_bind (Q := fun _ => Live t budget opened v₁) ?_ fun _ => ?_
  · rintro _ rfl
    exact h.note (fun _ _ heq => by simp at heq) hsound.submit
  split
  · refine rejectUndecodable_spec arguments _ (fun hheed => ?_) hun₁ hd₁
    exact (hset₁ hheed).trans (Nat.le_succ _)
  · rename_i draft _
    set v₂ := v₁.note .validated with hv₂
    have hcount : Heeded v₂.reports → validatedCount v₂.reports ≤ v₂.ledger.attempts + 1 :=
      fun hheed => by
        rw [hv₂, validatedCount_note]
        exact Nat.succ_le_succ (hset₁ (heeded_of_append hheed))
    have hun₂ : Unexhausted v.reports → Unexhausted v₂.reports := fun hun =>
      unexhausted_append.2 ⟨hun₁ hun, by simp [Unexhausted, Obs.isReport]⟩
    have hd₂ : v₂.dialogue = v.dialogue := (List.append_nil _).trans hd₁
    have hpub : Publishable v₂ := fun hheed => by
      -- an attempt remained, so no verdict was exhausted
      have hno := mt hsound.exhausted.2 (hspent (heeded_of_append hheed))
      exact hun₂ (not_not.1 hno)
    refine triple_bind (observe_live (fun _ _ heq => by simp at heq)
      (hsound.submit.validated hset₁ hspent)) fun _ => ?_
    refine triple_ite (fun _ => ?_) fun _ => ?_
    · exact rejectInvalid_spec draft _ hcount hun₂ hd₂
    · exact verifyDraft_spec task draft _ hpub hcount hun₂ hd₂

end Steps

end Astock
