import Astock.Proof.Branching

/-!
# When a branch returns

A stored session is any JSON document, and `trim_session_for_branch` indexes it
by key for writing. Everything before that index answers a document it cannot
read with an error; the index itself unwinds on an array, a string, a number or
a boolean.

* `branchConversation_returns`: no unwinding on a document that takes keys.
* `totalAndAtomic_iff`: the calls that unwind, exactly.
-/

namespace Astock

open Prog

variable {s : EngineStore} {now : ℤ}

/-- The documents a key can be written into. -/
def TakesKeys (j : Json) : Prop := j.isObject = true ∨ j = .null

theorem TakesKeys.set {j : Json} (h : TakesKeys j) (key : String) (v : Json) :
    ∃ j', j.set key v = some j' ∧ TakesKeys j' := by
  cases j with
  | obj fields => exact ⟨_, rfl, .inl rfl⟩
  | null => exact ⟨_, rfl, .inl rfl⟩
  | _ => rcases h with h | h <;> simp [Json.isObject] at h

/-- A document that answers a key with a string is one that takes keys. -/
theorem takesKeys_of_get {j : Json} (key : String) (h : j.get key ≠ .null) : TakesKeys j := by
  cases j with
  | obj fields => exact .inl rfl
  | _ => exact absurd rfl h

/-- An error that is not an unwinding panic, whatever the rows are. -/
def NoPanic (e : StoreError) (_ : EngineStore) : Prop := ∀ text, e ≠ .panic text

/-! ## The parts of a branch -/

theorem messagesOf_returns {session : Json} (h : TakesKeys session) :
    Triple (· = s) (messagesOf session) (fun _ s' => s' = s) NoPanic := by
  unfold messagesOf
  split
  · split
    · exact triple_pure fun _ hs => hs
    · exact triple_throw fun _ _ _ => by simp
  · split
    · exact triple_pure fun _ hs => hs
    · exact triple_throw fun _ _ _ => by simp
  · -- a document without keys: excluded
    rename_i hobj hnull
    rcases h with h | h
    · cases session with
      | obj fields => exact absurd rfl (hobj fields)
      | _ => simp [Json.isObject] at h
    · exact absurd h hnull

theorem assign_returns {session : Json} (h : TakesKeys session) (key : String) (v : Json) :
    Triple (· = s) (assign session key v) (fun j s' => TakesKeys j ∧ s' = s) NoPanic := by
  obtain ⟨j, hj, hkeys⟩ := h.set key v
  unfold assign
  rw [hj]
  exact triple_pure fun _ hs => ⟨hkeys, hs⟩

theorem assignAll_returns (fields : List (String × Json)) : ∀ {session : Json}, TakesKeys session →
    Triple (· = s) (assignAll session fields) (fun j s' => TakesKeys j ∧ s' = s) NoPanic := by
  induction fields with
  | nil => intro session h; exact triple_pure fun _ hs => ⟨h, hs⟩
  | cons f rest ih =>
    intro session h
    exact triple_bind (assign_returns h f.1 f.2) fun j => triple_pure_pre fun hj => ih hj

theorem trimSessionForBranch_returns {session : Json} (h : TakesKeys session)
    (messageId newConversationId title : String) (now : ℤ) :
    Triple (· = s) (trimSessionForBranch session messageId newConversationId title now)
      (fun j s' => TakesKeys j ∧ s' = s) NoPanic := by
  unfold trimSessionForBranch
  refine triple_bind (messagesOf_returns h) fun messages => ?_
  split
  · exact triple_throw fun _ _ _ => by simp
  · exact assignAll_returns _ h

/-- A checkpoint is read out of the session, so a session that names one takes
keys; without a checkpoint the session is not read at all. -/
theorem checkpointOrigin_returns (session : Json) (input : BranchConversation) :
    Triple (· = s) (checkpointOrigin session input)
      (fun _ s' => ((input.checkpointTaskId = none ∧ input.checkpointAcceptedSeq = none) ∨
        (TakesKeys session)) ∧ s' = s) NoPanic := by
  unfold checkpointOrigin
  split
  · rename_i h₁ h₂
    exact triple_pure fun _ hs => ⟨.inl ⟨h₁, h₂⟩, hs⟩
  · rename_i taskId acceptedSeq _ _
    refine triple_guardOr (fun _ => ?_) fun _ _ _ _ => by simp
    refine triple_guardOr (fun _ => ?_) fun _ _ _ _ => by simp
    refine triple_guardOr (fun hsession => ?_) fun _ _ _ _ => by simp
    have hkeys : TakesKeys session := by
      simp only [Bool.and_eq_true, decide_eq_true_eq] at hsession
      refine takesKeys_of_get "task" fun hnull => ?_
      have hid := hsession.1
      rw [hnull] at hid
      simp [Json.get, Json.asStr] at hid
    refine triple_get_eq ?_
    split
    · refine triple_guardOr (fun _ => ?_) fun _ _ _ _ => by simp
      exact triple_pure fun _ hs => ⟨.inr hkeys, hs⟩
    · exact triple_throw fun _ _ _ => by simp
  · exact triple_throw fun _ _ _ => by simp

theorem recordOrigin_returns {session : Json} (h : TakesKeys session) (origin : Option Json) :
    Triple (· = s) (recordOrigin session origin) (fun j s' => TakesKeys j ∧ s' = s) NoPanic := by
  cases origin with
  | none => exact triple_pure fun _ hs => ⟨h, hs⟩
  | some o => exact assign_returns h _ _

/-! ## The calls that unwind -/

/-- A call whose checks all pass and that names no checkpoint, on a live source
whose session takes no keys. -/
structure UnwindingCall (s : EngineStore) (input : BranchConversation) : Prop where
  sourceId : ValidIdentity input.sourceConversationId
  newId : ValidIdentity input.newConversationId
  messageId : ValidIdentity input.messageId
  title : Text.trim input.title ≠ "" ∧ (Text.trim input.title).utf8ByteSize ≤ 240
  noCheckpoint : input.checkpointTaskId = none ∧ input.checkpointAcceptedSeq = none
  document : ∃ source, s.conversationOf input.sourceConversationId = some source ∧
    ¬ TakesKeys source.sessionJson

/-- **A branch returns** on every other call. -/
theorem branchConversation_returns (input : BranchConversation) (h : ¬ UnwindingCall s input) :
    Triple (· = s) (branchConversation now input) (fun _ _ => True) NoPanic := by
  unfold branchConversation
  refine triple_validateIdentity (fun hsource => ?_) fun _ _ => by simp
  refine triple_validateIdentity (fun hnew => ?_) fun _ _ => by simp
  refine triple_validateIdentity (fun hmessage => ?_) fun _ _ => by simp
  unfold validateTitle
  refine triple_bind (Q := fun title s' => (title ≠ "" ∧ title.utf8ByteSize ≤ 240) ∧
    title = Text.trim input.title ∧ s' = s) ?_ fun title => triple_pure_pre fun htitle =>
      triple_pure_pre fun ht => ?_
  · refine triple_guardOr (fun hc => ?_) fun _ _ _ _ => by simp
    exact triple_pure fun _ hs => ⟨by simpa using hc, rfl, hs⟩
  subst ht
  refine triple_bind (Q := fun _ _ => True) ?_ fun _ => ?_
  · refine (triple_atomically (Q := fun _ _ => True) (F := fun e => NoPanic e s)
      (triple_get_eq ?_)).conseq (fun _ hs => hs) (fun _ _ h => h) fun _ _ he => he.1
    split
    · exact triple_throw fun _ _ _ => by simp
    · rename_i source hfound
      refine triple_bind (checkpointOrigin_returns _ input) fun origin =>
        triple_pure_pre fun hcase => ?_
      -- only a session nothing has read yet can take no keys
      have hkeys : TakesKeys source.sessionJson := by
        rcases hcase with hnone | hkeys
        · by_contra hdoc
          exact h ⟨hsource, hnew, hmessage, htitle, hnone, source, hfound, hdoc⟩
        · exact hkeys
      refine triple_bind (trimSessionForBranch_returns hkeys _ _ _ _) fun j =>
        triple_pure_pre fun hj => ?_
      refine triple_bind (recordOrigin_returns hj origin) fun session => triple_pure_pre fun _ => ?_
      unfold encodeSession insertConversation
      refine triple_bind (Q := fun _ s' => s' = s) ?_ fun _ => triple_get_eq ?_
      · refine triple_guardOr (fun _ => ?_) fun _ _ _ _ => by simp
        exact triple_pure fun _ hs => hs
      · refine triple_guardOr (fun _ => ?_) fun _ _ _ _ => by simp
        exact fun _ _ => trivial
  · unfold readConversation
    refine triple_read fun s₁ => ?_
    split
    · exact triple_pure fun _ _ => trivial
    · exact triple_throw fun _ _ _ => by simp

/-- **A branch unwinds** on those calls: the document is indexed for writing. -/
theorem branchConversation_unwinds {input : BranchConversation} (h : UnwindingCall s input) :
    ∃ text, (exec (branchConversation now input) s).1 = .error (.panic text) := by
  obtain ⟨source, hfound, hdoc⟩ := h.document
  have htitle : exec (validateTitle input.title) s = (.ok (Text.trim input.title), s) := by
    unfold validateTitle
    rw [exec_guardOr_bind, if_pos (by simpa using h.title), exec_pure]
  have horigin : exec (checkpointOrigin source.sessionJson input) s = (.ok none, s) := by
    unfold checkpointOrigin
    rw [h.noCheckpoint.1, h.noCheckpoint.2]
    rfl
  have hmessages : ∃ text, exec (messagesOf source.sessionJson) s = (.error (.panic text), s) := by
    unfold messagesOf
    split
    · rename_i heq; exact absurd (.inl (by rw [heq]; rfl)) hdoc
    · rename_i heq; exact absurd (.inr heq) hdoc
    · exact ⟨_, rfl⟩
  obtain ⟨text, hmessages⟩ := hmessages
  have htrim : exec (trimSessionForBranch source.sessionJson input.messageId
      input.newConversationId (Text.trim input.title) now) s = (.error (.panic text), s) := by
    unfold trimSessionForBranch
    exact exec_bind_error hmessages
  refine ⟨text, ?_⟩
  unfold branchConversation
  rw [exec_validateIdentity_bind h.sourceId, exec_validateIdentity_bind h.newId,
    exec_validateIdentity_bind h.messageId, exec_bind_ok htitle]
  -- the transaction is left where the session is trimmed
  refine congrArg Prod.fst (exec_bind_error (?_ : _ = (Except.error (StoreError.panic text), s)))
  rw [exec_atomically, exec_bind_ok (exec_get s), hfound]
  dsimp only
  rw [exec_bind_ok horigin, exec_bind_error htrim]

/-- A call that returns, and leaves every row as it was when it returns an error. -/
def TotalAndAtomic (s : EngineStore) (now : ℤ) (input : BranchConversation) : Prop :=
  (∀ text, (exec (branchConversation now input) s).1 ≠ .error (.panic text)) ∧
    ∀ e s', exec (branchConversation now input) s = (.error e, s') → s' = s

/-- **When a branch is total and atomic.** -/
theorem totalAndAtomic_iff (s : EngineStore) (now : ℤ) (input : BranchConversation) :
    TotalAndAtomic s now input ↔ ¬ UnwindingCall s input := by
  constructor
  · rintro ⟨hreturns, -⟩ hcall
    obtain ⟨text, htext⟩ : ∃ text, (exec (branchConversation now input) s).1 = .error (.panic text) :=
      branchConversation_unwinds hcall
    exact hreturns text htext
  · intro hcall
    refine ⟨fun text htext => ?_, fun e s' he => ?_⟩
    · rcases hr : exec (branchConversation now input) s with ⟨e | r, s'⟩
      · have hno := (branchConversation_returns input hcall).error rfl hr
        rw [hr] at htext
        exact hno text (Except.error.inj htext)
      · rw [hr] at htext; simp at htext
    · exact (branchConversation_spec input).error rfl he

/-- A conversation whose session is an empty array. -/
def arraySession : List StoreCall := [.saveConversation 0 {
  conversationId := "source", title := "Source", session := .arr [] }]

/-- The store after saving it. -/
def arrayStore : EngineStore := EngineStore.afterAll (.inOrder id) {} arraySession

/-- A branch of it. -/
def arrayBranch : BranchConversation where
  sourceConversationId := "source"
  newConversationId := "branch"
  messageId := "m-1"
  title := "Branch"
  checkpointTaskId := none
  checkpointAcceptedSeq := none

/-- Saving an array and branching from it unwinds. -/
theorem arrayBranch_unwinds :
    ¬ ∀ (P : Platform) (s : EngineStore), EngineStore.Reachable P s →
      ∀ (now : ℤ) (input : BranchConversation), TotalAndAtomic s now input := by
  intro h
  have htotal := h (.inOrder id) arrayStore ⟨arraySession, rfl⟩ 0 arrayBranch
  refine (totalAndAtomic_iff _ _ _).1 htotal ?_
  have hsource : (arrayStore.conversationOf "source").map (·.sessionJson) = some (.arr []) := by
    decide
  obtain ⟨source, hfound, hsession⟩ := Option.map_eq_some_iff.1 hsource
  refine ⟨by decide, by decide, by decide, by decide, ⟨rfl, rfl⟩,
    source, hfound, ?_⟩
  rw [hsession]
  rintro (hobj | hnull)
  · simp [Json.isObject] at hobj
  · simp at hnull

end Astock
