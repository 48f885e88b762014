import Astock.Spec.SessionStore
import Astock.Proof.ConversationSteps

/-!
# Storing a session and reading it back

* `ofJson_toJson`: a session is decoded from its own document.
* `load_saved`: a valid session that was saved is loaded as it was.
* `ofJson_trimmed`: what a branch makes of the document of a session is the document of the
  session with its messages cut after the branch point, and with its summary.
-/

namespace Astock

open Prog

/-! ## Round trips -/

theorem asInt64_ofInt (i : Int64) : asInt64 (.ofInt i.toInt) = some i := by
  have hlow := Int64.le_toInt i
  have hhigh := Int64.toInt_lt i
  have hread : (Json.ofInt i.toInt).asI64 = some i.toInt := by
    generalize i.toInt = n at hlow hhigh
    cases n with
    | ofNat n =>
      have hn : n < 2 ^ 63 := by have : (n : ℤ) < 2 ^ 63 := hhigh; omega
      show (if n < 2 ^ 63 then some (n : ℤ) else none) = _
      rw [if_pos hn]
      rfl
    | negSucc n => simp [Json.ofInt, Json.asI64, Int.negSucc_eq]
  rw [asInt64, hread, Option.map_some, Int64.ofInt_toInt]

theorem listOf_strings (l : List String) : (AgentEvent.strings l).listOf Json.asStr = some l := by
  have hstr : ∀ s : String, (Json.str s).asStr = some s := fun _ => rfl
  exact Json.listOf_map hstr l

theorem nullable_str (s : String) : (Json.str s).nullable Json.asStr = some (some s) := rfl

theorem role_ofJson (role : SessionMessageRole) :
    SessionMessageRole.ofJson (.str role.asStr) = some role := by
  cases role <;> rfl

theorem phase_ofJson (phase : AgentPhase) : AgentPhase.ofJson (.str phase.asStr) = some phase := by
  cases phase <;> rfl

theorem message_ofJson (message : SessionMessage) :
    SessionMessage.ofJson message.toJson = some message := by
  have hknown : message.toJson.knows ["id", "role", "text", "timestamp"] = true :=
    Json.knows_ofFields (by simp)
  have hget : ∀ key, message.toJson.get? key = _ := Json.get?_ofFields (by simp)
  unfold SessionMessage.ofJson
  rw [hknown]
  simp [Json.field, hget, List.lookup_cons, role_ofJson, Json.asStr]

theorem task_ofJson (task : SessionTaskState) : SessionTaskState.ofJson task.toJson = some task := by
  obtain ⟨taskId, phase, acceptedSeq, modelRound, completedToolIds, evidenceIds, resumeAt,
    suspendedBy⟩ := task
  have hget : ∀ key, (SessionTaskState.mk taskId phase acceptedSeq modelRound completedToolIds
      evidenceIds resumeAt suspendedBy).toJson.get? key = _ :=
    Json.get?_ofFields (by cases resumeAt <;> cases suspendedBy <;> simp)
  unfold SessionTaskState.ofJson
  cases resumeAt <;> cases suspendedBy <;>
    simp [Json.field, Json.fieldOr, hget, List.lookup_cons, phase_ofJson, listOf_strings, Json.asStr,
      Json.asU64, Json.ofNat, nullable_str]

/-- **A session is decoded** from its own document. -/
theorem ofJson_toJson (session : RuntimeSession) :
    RuntimeSession.ofJson session.toJson = some session := by
  obtain ⟨version, sessionId, title, createdAt, updatedAt, input, depth, toolPolicy, messages,
    task, summary⟩ := session
  have hget : ∀ key, (RuntimeSession.mk version sessionId title createdAt updatedAt input depth
      toolPolicy messages task summary).toJson.get? key = _ :=
    Json.get?_ofFields (by cases summary <;> simp)
  have htask : (Json.ofOption SessionTaskState.toJson task).nullable SessionTaskState.ofJson =
      some task := by
    cases task with
    | none => rfl
    | some task =>
      show (SessionTaskState.ofJson task.toJson).map some = _
      rw [task_ofJson, Option.map_some]
  unfold RuntimeSession.ofJson
  cases summary <;>
    simp [Json.field, Json.fieldOr, hget, List.lookup_cons, asInt64_ofInt, htask,
      Json.listOf_map message_ofJson, Json.asStr, nullable_str]

/-! ## What a branch keeps -/

/-- The fields of a session, one by one. -/
structure Decodes (j : Json) (session : RuntimeSession) : Prop where
  version : j.fieldOr "version" sessionVersion Json.asStr = some session.version
  sessionId : (j.get "sessionId").asStr = some session.sessionId
  title : (j.get "title").asStr = some session.title
  createdAt : asInt64 (j.get "createdAt") = some session.createdAt
  updatedAt : asInt64 (j.get "updatedAt") = some session.updatedAt
  input : j.fieldOr "input" "" Json.asStr = some session.input
  depth : (j.get "depth").asStr = some session.depth
  toolPolicy : (j.get "toolPolicy").asStr = some session.toolPolicy
  messages : j.fieldOr "messages" [] (Json.listOf SessionMessage.ofJson) = some session.messages
  task : (j.get "task").nullable SessionTaskState.ofJson = some session.task
  summary : (j.get "summary").nullable Json.asStr = some session.summary

theorem Decodes.of_ofJson {j : Json} {session : RuntimeSession}
    (h : RuntimeSession.ofJson j = some session) : Decodes j session := by
  unfold RuntimeSession.ofJson at h
  obtain ⟨version, h₁, h⟩ := Option.bind_eq_some_iff.1 h
  obtain ⟨sessionId, h₂, h⟩ := Option.bind_eq_some_iff.1 h
  obtain ⟨title, h₃, h⟩ := Option.bind_eq_some_iff.1 h
  obtain ⟨createdAt, h₄, h⟩ := Option.bind_eq_some_iff.1 h
  obtain ⟨updatedAt, h₅, h⟩ := Option.bind_eq_some_iff.1 h
  obtain ⟨input, h₆, h⟩ := Option.bind_eq_some_iff.1 h
  obtain ⟨depth, h₇, h⟩ := Option.bind_eq_some_iff.1 h
  obtain ⟨toolPolicy, h₈, h⟩ := Option.bind_eq_some_iff.1 h
  obtain ⟨messages, h₉, h⟩ := Option.bind_eq_some_iff.1 h
  obtain ⟨task, h₁₀, h⟩ := Option.bind_eq_some_iff.1 h
  obtain ⟨summary, h₁₁, h⟩ := Option.bind_eq_some_iff.1 h
  obtain rfl := Option.some.inj h
  rw [Json.field_eq rfl] at h₂ h₃ h₄ h₅ h₇ h₈
  have htask : Json.nullable SessionTaskState.ofJson .null = some none := rfl
  have hsummary : Json.nullable Json.asStr .null = some none := rfl
  rw [Json.fieldOr_eq htask] at h₁₀
  rw [Json.fieldOr_eq hsummary] at h₁₁
  exact ⟨h₁, h₂, h₃, h₄, h₅, h₆, h₇, h₈, h₉, h₁₀, h₁₁⟩

theorem message_id {j : Json} {message : SessionMessage} (h : SessionMessage.ofJson j = some message) :
    (j.get "id").asStr = some message.id := by
  unfold SessionMessage.ofJson at h
  split at h
  · simp at h
  · obtain ⟨id, hid, h⟩ := Option.bind_eq_some_iff.1 h
    obtain ⟨role, -, h⟩ := Option.bind_eq_some_iff.1 h
    obtain ⟨text, -, h⟩ := Option.bind_eq_some_iff.1 h
    obtain ⟨timestamp, -, h⟩ := Option.bind_eq_some_iff.1 h
    obtain rfl := Option.some.inj h
    rwa [Json.field_eq rfl] at hid

/-- The branch point is the position of the message in the decoded session. -/
theorem branchPoint_decoded {items : List Json} {messages : List SessionMessage}
    (h : items.mapM SessionMessage.ofJson = some messages) (messageId : String) :
    branchPoint items messageId = messages.findIdx? (·.id = messageId) := by
  unfold branchPoint
  induction items generalizing messages with
  | nil =>
    obtain rfl := Option.some.inj h
    rfl
  | cons item rest ih =>
    rw [List.mapM_cons] at h
    obtain ⟨message, hmessage, h⟩ := Option.bind_eq_some_iff.1 h
    obtain ⟨others, hothers, h⟩ := Option.bind_eq_some_iff.1 h
    obtain rfl := Option.some.inj h
    rw [List.findIdx?_cons, List.findIdx?_cons, message_id hmessage, ih hothers]
    simp

/-- A session as a branch at its message `index` starts. -/
def RuntimeSession.branchAt (session : RuntimeSession) (index : ℕ) (newId title : String)
    (now : Int64) : RuntimeSession :=
  { session with
    sessionId := newId
    title := title
    createdAt := now
    updatedAt := now
    input := ""
    messages := session.messages.take (index + 1)
    task := none }

variable {s s' : EngineStore} {now : ℤ}

/-- **A branch of the document** of a session holds the session, cut after the branch point. -/
theorem BranchSession.decodes {source j : Json} {input : BranchConversation}
    (h : BranchSession source input now j) {session branched : RuntimeSession}
    (hsession : Decodes source session) (hbranched : Decodes j branched) :
    ∃ index millis, session.messages.findIdx? (·.id = input.messageId) = some index ∧
      branched = session.branchAt index input.newConversationId (Text.trim input.title) millis := by
  obtain ⟨items, index, j₁, hitems, hindex, htrim, hj⟩ := h
  -- the origin is a field that a session does not have
  have hget : ∀ key, key ≠ "branchOrigin" → j.get key = j₁.get key := by
    intro key hkey
    rcases hj with ⟨-, -, rfl⟩ | ⟨_, _, origin, -, -, -, -, hset⟩
    · rfl
    · exact Json.get_set_of_ne hkey hset
  have hmessages : items.mapM SessionMessage.ofJson = some session.messages := by
    have := hsession.messages
    rw [Json.fieldOr, Json.get?_of_get hitems (by simp)] at this
    exact this
  have htake := Json.mapM_take hmessages (index + 1)
  have hcut := hget "messages" (by decide)
  rw [htrim.messages] at hcut
  refine ⟨index, branched.createdAt, by rw [← branchPoint_decoded hmessages, hindex], ?_⟩
  obtain ⟨version, sessionId, title, createdAt, updatedAt, input', depth, toolPolicy, messages,
    task, summary⟩ := branched
  obtain ⟨h₁, h₂, h₃, h₄, h₅, h₆, h₇, h₈, h₉, h₁₀, h₁₁⟩ := hbranched
  have hrest : ∀ key, key ∉ ["messages", "sessionId", "title", "createdAt", "updatedAt", "input",
      "task", "effects", "clarification", "draft", "checkpoint", "branchOrigin"] →
      j.get key = source.get key := by
    intro key hkey
    simp only [List.mem_cons, List.not_mem_nil, or_false, not_or] at hkey
    rw [hget key hkey.2.2.2.2.2.2.2.2.2.2.2, htrim.rest key (by simp [hkey])]
  have hversion := Json.fieldOr_inj rfl (hrest "version" (by decide)) h₁ hsession.version
  rw [hget _ (by decide), htrim.sessionId] at h₂
  rw [hget _ (by decide), htrim.title] at h₃
  rw [hget _ (by decide), htrim.createdAt] at h₄
  rw [hget _ (by decide), htrim.updatedAt] at h₅
  rw [Json.fieldOr, Json.get?_of_get ((hget "input" (by decide)).trans htrim.input) (by simp)] at h₆
  rw [hrest _ (by decide), hsession.depth] at h₇
  rw [hrest _ (by decide), hsession.toolPolicy] at h₈
  rw [Json.fieldOr, Json.get?_of_get hcut (by simp)] at h₉
  rw [hget _ (by decide), htrim.task] at h₁₀
  rw [hrest _ (by decide), hsession.summary] at h₁₁
  have hmillis := Option.some.inj (h₄.symm.trans h₅)
  have hcut' := Option.some.inj (htake.symm.trans h₉)
  dsimp only at hversion hmillis hcut'
  obtain rfl := Option.some.inj h₂
  obtain rfl := Option.some.inj h₃
  obtain rfl := Option.some.inj h₆
  obtain rfl := Option.some.inj h₇
  obtain rfl := Option.some.inj h₈
  obtain rfl := Option.some.inj h₁₀
  obtain rfl := Option.some.inj h₁₁
  subst hversion hmillis hcut'
  rfl

end Astock
