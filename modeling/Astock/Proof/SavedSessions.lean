import Mathlib
import Astock.Spec.SessionTurn
import Astock.Proof.SessionJson
import Astock.Proof.Endings

/-!
# Opening a saved session again

* `complaint_pushMessage`: a message keeps a session valid exactly when the session has room.
* `load_saved`: a valid session that was saved is loaded as it was.
* `saves_valid_iff`: every session that a turn saves is valid exactly when the session has room
  for the report of every completion that the turn handles.
* `saved_reopens`: in every sequence of such turns, every saved session can be opened again.
-/

namespace Astock

open Prog

attribute [local irreducible] Triple

/-! ## Valid sessions -/

/-- What validation asks of a session. -/
structure RuntimeSession.Valid (session : RuntimeSession) : Prop where
  sessionId : idComplaint session.sessionId "session_id" = none
  version : session.version = sessionVersion
  title : ¬ (Text.trim session.title = "" ∨ 240 < session.title.utf8ByteSize)
  count : session.messages.length ≤ maxSessionMessages
  messages : ∀ message ∈ session.messages, message.complaint = none
  text : session.textChars ≤ maxSessionTextChars
  summary : (session.summary.any fun s => Text.trim s = "" || maxSessionSummaryChars < s.length) = false

theorem validate_iff {session : RuntimeSession} : session.validate = .ok () ↔ session.Valid := by
  have hcomplaint : session.validate = .ok () ↔ session.complaint = none := by
    unfold RuntimeSession.validate
    cases session.complaint <;> simp
  rw [hcomplaint]
  unfold RuntimeSession.complaint
  constructor
  · intro h
    simp only [Option.or_eq_none_iff] at h
    obtain ⟨hid, h⟩ := h
    by_cases hversion : session.version ≠ sessionVersion
    · simp [hversion] at h
    rw [if_neg hversion] at h
    by_cases htitle : Text.trim session.title = "" ∨ 240 < session.title.utf8ByteSize
    · simp [htitle] at h
    rw [if_neg htitle] at h
    by_cases hcount : maxSessionMessages < session.messages.length
    · simp [hcount] at h
    rw [if_neg hcount, Option.or_eq_none_iff, List.findSome?_eq_none_iff] at h
    obtain ⟨hmessages, h⟩ := h
    by_cases htext : maxSessionTextChars < session.textChars
    · simp [htext] at h
    rw [if_neg htext] at h
    refine ⟨hid, not_not.1 hversion, htitle, not_lt.1 hcount, hmessages, not_lt.1 htext, ?_⟩
    by_contra hsummary
    rw [Bool.not_eq_false] at hsummary
    simp [hsummary] at h
  · rintro ⟨hid, hversion, htitle, hcount, hmessages, htext, hsummary⟩
    have hnone : session.messages.findSome? SessionMessage.complaint = none :=
      List.findSome?_eq_none_iff.2 hmessages
    rw [hid, if_neg (not_not.2 hversion), if_neg htitle, if_neg (not_lt.2 hcount), hnone,
      if_neg (not_lt.2 htext), hsummary]
    rfl

theorem idComplaint_uuid (id : Uuid) (name : String) : idComplaint id.text name = none := by
  obtain ⟨text, hsize, hchars⟩ := id
  unfold idComplaint
  rw [if_neg]
  rintro (rfl | hlong | hcontrol)
  · simp at hsize
  · dsimp only at hlong
    omega
  · obtain ⟨c, hc, hctrl⟩ := List.any_eq_true.1 hcontrol
    -- a control character is neither a letter nor a digit
    have hplain := hchars c hc
    unfold Text.isControl at hctrl
    simp only [Bool.or_eq_true, Bool.and_eq_true, decide_eq_true_eq] at hctrl
    have hcode : 32 ≤ c.toNat ∧ c.toNat < 127 := by
      rcases hplain with halnum | rfl
      · simp only [Char.isAlphanum, Char.isAlpha, Char.isUpper, Char.isLower, Char.isDigit,
          Bool.or_eq_true, Bool.and_eq_true, decide_eq_true_eq, UInt32.le_iff_toNat_le,
          ge_iff_le] at halnum
        change ((65 ≤ c.toNat ∧ c.toNat ≤ 90) ∨ (97 ≤ c.toNat ∧ c.toNat ≤ 122)) ∨
          (48 ≤ c.toNat ∧ c.toNat ≤ 57) at halnum
        omega
      · decide
    omega

/-- The session has room for a message. -/
structure RuntimeSession.Room (session : RuntimeSession) (text : String) : Prop where
  count : session.messages.length < maxSessionMessages
  chars : session.textChars + text.length ≤ maxSessionTextChars
  text : Text.trim text ≠ ""

theorem textChars_pushMessage (stamp : Stamp) (role : SessionMessageRole) (text : String)
    (session : RuntimeSession) :
    (session.pushMessage stamp role text).textChars = session.textChars + text.length := by
  simp [RuntimeSession.textChars, RuntimeSession.pushMessage]

/-- **A message keeps a session valid** exactly when the session has room for it. -/
theorem valid_pushMessage {session : RuntimeSession} (h : session.Valid) (stamp : Stamp)
    (role : SessionMessageRole) (text : String) :
    (session.pushMessage stamp role text).Valid ↔ session.Room text := by
  have hlength : (session.pushMessage stamp role text).messages.length =
      session.messages.length + 1 := by simp [RuntimeSession.pushMessage]
  have hmessage : ∀ timestamp, (SessionMessage.mk stamp.id.text role text timestamp).complaint = none ↔
      Text.trim text ≠ "" := by
    intro timestamp
    unfold SessionMessage.complaint
    rw [idComplaint_uuid]
    simp
  constructor
  · intro hpushed
    have hcount := hpushed.count
    have htext := hpushed.text
    rw [textChars_pushMessage] at htext
    refine ⟨by omega, htext, (hmessage stamp.timestamp).1 (hpushed.messages _ ?_)⟩
    exact List.mem_append_right _ List.mem_cons_self
  · rintro ⟨hcount, hchars, htext⟩
    refine { h with count := by omega, messages := ?_, text := ?_ }
    · intro message hmem
      rcases List.mem_append.1 hmem with hmem | hmem
      · exact h.messages message hmem
      · rw [List.mem_singleton.1 hmem]
        exact (hmessage stamp.timestamp).2 htext
    · rw [textChars_pushMessage]
      exact hchars

/-! ## Loading what was saved -/

variable {s s' : EngineStore} {now : ℤ}

/-- A save that succeeds leaves the session in the row of its conversation. -/
theorem saveConversation_row (input : SaveConversation) :
    Triple (· = s) (saveConversation now input)
      (fun _ s' => ValidIdentity input.conversationId ∧
        ∃ row, s'.conversationOf input.conversationId = some row ∧ row.sessionJson = input.session)
      (fun _ _ => True) := by
  have hread : ∀ s₁ : EngineStore,
      (∀ row ∈ s₁.conversations, row.conversationId = input.conversationId →
        row.sessionJson = input.session) → ValidIdentity input.conversationId →
      Triple (· = s₁) (readConversation input.conversationId)
        (fun _ s' => ValidIdentity input.conversationId ∧
          ∃ row, s'.conversationOf input.conversationId = some row ∧ row.sessionJson = input.session)
        (fun _ _ => True) := by
    intro s₁ hrows hid
    refine (readConversation_spec _).conseq (fun _ h => h) ?_ fun _ _ _ => trivial
    rintro _ _ ⟨rfl, row, hrow, rfl⟩
    have hkey := List.find?_some hrow
    simp only [decide_eq_true_eq] at hkey
    exact ⟨hid, row, hrow, hrows row (List.mem_of_find?_eq_some hrow) hkey.1⟩
  unfold saveConversation
  refine triple_validateIdentity (fun hid => ?_) fun _ => trivial
  refine triple_validateTitle ?_ fun _ => trivial
  refine triple_encodeSession ?_ fun _ => trivial
  refine triple_get_eq ?_
  split
  · refine triple_set_eq (hread _ (fun row hrow hkey => ?_) hid)
    obtain ⟨old, -, rfl⟩ := List.mem_map.1 hrow
    by_cases hold : old.conversationId = input.conversationId
    · rw [if_pos hold]
    · rw [if_neg hold] at hkey
      exact absurd hkey hold
  · rename_i hnew
    refine triple_set_eq (hread _ (fun row hrow hkey => ?_) hid)
    rcases List.mem_append.1 hrow with hold | hadded
    · refine absurd ?_ hnew
      exact List.any_eq_true.2 ⟨row, hold, by simpa using hkey⟩
    · rw [List.mem_singleton.1 hadded]

/-- **A valid session that was saved is loaded** as it was. -/
theorem load_saved {session : RuntimeSession} (h : session.Valid) {r : StoredConversation}
    (hsave : exec (saveConversation now session.saveInput) s = (.ok r, s')) :
    ∃ stored, SessionManager.load s' session.sessionId = .ok stored ∧ stored.session = session := by
  obtain ⟨hid, row, hrow, hjson⟩ := (saveConversation_row session.saveInput).ok rfl hsave
  have hid : ValidIdentity session.sessionId := hid
  have hread : exec (loadConversation session.sessionId) s' = (.ok row.stored, s') := by
    unfold loadConversation validateIdentity readConversation
    rw [exec_guardOr_bind, if_pos (decide_eq_true hid), exec_bind_ok (exec_get s'),
      show s'.conversationOf session.sessionId = some row from hrow]
    rfl
  have hdecode : RuntimeSession.ofJson row.stored.session = some session := by
    rw [show row.stored.session = session.toJson from hjson]
    exact ofJson_toJson session
  refine ⟨{ conversationId := row.stored.conversationId
            title := row.stored.title
            session
            parentConversationId := row.stored.parentConversationId
            branchFromMessageId := row.stored.branchFromMessageId }, ?_, rfl⟩
  unfold SessionManager.load SessionManager.validateId
  rw [h.sessionId, hread, decodeStored, hdecode]
  show (session.validate >>= fun _ => _) = _
  rw [validate_iff.2 h]
  rfl

/-! ## Handling events -/

variable {session : RuntimeSession} {clock : TurnClock}

/-- Nothing but the messages, the task and the time of a session matters to its validity. -/
theorem Valid.congr {session session' : RuntimeSession} (h : session.Valid)
    (hid : session'.sessionId = session.sessionId) (hversion : session'.version = session.version)
    (htitle : session'.title = session.title) (hmessages : session'.messages = session.messages)
    (hsummary : session'.summary = session.summary) : session'.Valid where
  sessionId := hid ▸ h.sessionId
  version := hversion ▸ h.version
  title := htitle ▸ h.title
  count := hmessages ▸ h.count
  messages := hmessages ▸ h.messages
  text := by
    have := h.text
    unfold RuntimeSession.textChars at this ⊢
    rwa [hmessages]
  summary := hsummary ▸ h.summary

/-- An event keeps the session of a turn valid, unless it brings a report that finds no room. -/
theorem valid_applySessionEvent (hvalid : session.Valid) (htask : session.task.isSome = true)
    (stamp : Stamp) (event : AgentEvent) :
    (applySessionEvent stamp session event).Valid ↔
      ∀ report ∈ event.report, session.Room report := by
  obtain ⟨task, htask⟩ := Option.isSome_iff_exists.1 htask
  unfold applySessionEvent
  rw [htask]
  dsimp only
  have hupdated : ({ session with task := some (task.apply event) } : RuntimeSession).Valid :=
    Valid.congr hvalid rfl rfl rfl rfl rfl
  cases hreport : event.report with
  | none =>
    refine iff_of_true (Valid.congr hupdated rfl rfl rfl rfl rfl) fun report h => ?_
    simp at h
  | some report =>
    have hpush := valid_pushMessage hupdated stamp .agent report
    constructor
    · intro h report' heq
      obtain rfl := Option.some.inj heq
      have hroom := hpush.1 (Valid.congr h rfl rfl rfl rfl rfl)
      exact ⟨hroom.count, hroom.chars, hroom.text⟩
    · intro h
      have hroom := h report rfl
      exact Valid.congr (hpush.2 ⟨hroom.count, hroom.chars, hroom.text⟩) rfl rfl rfl rfl rfl

theorem task_applySessionEvent (htask : session.task.isSome = true) (stamp : Stamp)
    (event : AgentEvent) : (applySessionEvent stamp session event).task.isSome = true := by
  obtain ⟨task, htask⟩ := Option.isSome_iff_exists.1 htask
  unfold applySessionEvent
  rw [htask]
  cases event.report with
  | none => rfl
  | some report => rfl

instance (session : RuntimeSession) (text : String) : Decidable (session.Room text) :=
  decidable_of_iff (session.messages.length < maxSessionMessages ∧
      session.textChars + text.length ≤ maxSessionTextChars ∧ Text.trim text ≠ "")
    ⟨fun h => ⟨h.1, h.2.1, h.2.2⟩, fun h => ⟨h.count, h.chars, h.text⟩⟩

/-- The session has room for the report of every completion among the events. -/
def RoomAlong (clock : TurnClock) (n : ℕ) (session : RuntimeSession) : List AgentEvent → Prop
  | [] => True
  | event :: rest =>
    (∀ report ∈ event.report, session.Room report) ∧
      RoomAlong clock (n + 1) (applySessionEvent (clock.handled n) session event) rest

instance RoomAlong.decidable (clock : TurnClock) : ∀ (n : ℕ) (session : RuntimeSession)
    (events : List AgentEvent), Decidable (RoomAlong clock n session events)
  | _, _, [] => isTrue trivial
  | n, session, event :: rest =>
    have := RoomAlong.decidable clock (n + 1) (applySessionEvent (clock.handled n) session event) rest
    inferInstanceAs (Decidable (_ ∧ _))

/-- As long as there is room for a report, there is room for a message. -/
theorem RoomAlong.count {events : List AgentEvent} : ∀ {n : ℕ} {session : RuntimeSession},
    RoomAlong clock n session events → session.task.isSome = true →
    (∃ event ∈ events, event.report.isSome = true) →
    session.messages.length < maxSessionMessages := by
  induction events with
  | nil => rintro n session - - ⟨event, hmem, -⟩; simp at hmem
  | cons event rest ih =>
    intro n session h htask hreport
    cases hevent : event.report with
    | some report => exact (h.1 report hevent).count
    | none =>
      obtain ⟨later, hmem, hlater⟩ := hreport
      rcases List.mem_cons.1 hmem with rfl | hmem
      · simp [hevent] at hlater
      have hrest := ih h.2 (task_applySessionEvent htask _ event) ⟨later, hmem, hlater⟩
      obtain ⟨task, htask⟩ := Option.isSome_iff_exists.1 htask
      unfold applySessionEvent at hrest
      rw [htask, hevent] at hrest
      exact hrest

/-- **What is saved along the events is valid** exactly when every report finds room. -/
theorem savedAlong_valid_iff (events : List AgentEvent) : ∀ (n : ℕ) {session : RuntimeSession},
    session.Valid → session.task.isSome = true →
    ((∀ saved ∈ savedAlong clock n session events, saved.Valid) ↔
      RoomAlong clock n session events) := by
  induction events with
  | nil => intro n session _ _; simp [savedAlong, RoomAlong]
  | cons event rest ih =>
    intro n session hvalid htask
    have hnext := valid_applySessionEvent hvalid htask (clock.handled n) event
    have htask' := task_applySessionEvent htask (clock.handled n) event
    simp only [savedAlong, RoomAlong, List.mem_append]
    constructor
    · intro h
      have hafter : (applySessionEvent (clock.handled n) session event).Valid := by
        by_cases htext : event.isText = true
        · -- a piece of text brings no report
          refine hnext.2 fun report hreport => ?_
          cases event <;> simp [AgentEvent.isText] at htext
          simp [AgentEvent.report] at hreport
        · exact h _ (.inl (by rw [if_neg htext]; exact List.mem_singleton_self _))
      exact ⟨hnext.1 hafter, (ih (n + 1) hafter htask').1 fun saved hsaved => h saved (.inr hsaved)⟩
    · rintro ⟨hroom, hrest⟩ saved hsaved
      have hafter := hnext.2 hroom
      rcases hsaved with hsaved | hsaved
      · split at hsaved
        · simp at hsaved
        · rw [List.mem_singleton.1 hsaved]
          exact hafter
      · exact (ih (n + 1) hafter htask').2 hrest saved hsaved

theorem sessionAfter_valid (events : List AgentEvent) : ∀ (n : ℕ) {session : RuntimeSession},
    session.Valid → session.task.isSome = true → RoomAlong clock n session events →
    (sessionAfter clock n session events).Valid := by
  induction events with
  | nil => intro n session hvalid _ _; exact hvalid
  | cons event rest ih =>
    intro n session hvalid htask hroom
    exact ih (n + 1) ((valid_applySessionEvent hvalid htask (clock.handled n) event).2 hroom.1)
      (task_applySessionEvent htask (clock.handled n) event) hroom.2

/-! ## Turns -/

/-- Whenever a completion reaches the turn, the session has room for its report. -/
def SessionTurn.HasRoom (turn : SessionTurn) (session : RuntimeSession) : Prop :=
  match turn.prepare session with
  | .error _ => True
  | .ok (prepared, task) => RoomAlong turn.clock 0 prepared (turn.events task)

instance (turn : SessionTurn) (session : RuntimeSession) : Decidable (turn.HasRoom session) := by
  unfold SessionTurn.HasRoom
  split <;> infer_instance

/-- What a turn saves first is valid. -/
theorem prepareTurn_ok {taskId : String} {task task' : RuntimeTask} {prepared : RuntimeSession}
    (h : prepareTurn clock taskId session task = .ok (prepared, task')) :
    prepared.Valid ∧ prepared.task = some (.new taskId) ∧ session.Valid ∧ task'.validate = .ok () := by
  unfold prepareTurn at h
  obtain ⟨_, hvalid, h⟩ := except_bind_ok h
  obtain ⟨_, -, h⟩ := except_bind_ok h
  obtain ⟨_, htask, h⟩ := except_bind_ok h
  obtain ⟨_, hprepared, h⟩ := except_bind_ok h
  obtain ⟨rfl, rfl⟩ := Prod.mk.inj (Except.ok.inj h)
  exact ⟨validate_iff.1 hprepared, rfl, validate_iff.1 hvalid, htask⟩

/-- **Every session that a turn saves is valid** exactly when there is room for its report. -/
theorem saves_valid_iff (turn : SessionTurn) (session : RuntimeSession) :
    (∀ saved ∈ turn.saves session, saved.Valid) ↔ turn.HasRoom session := by
  unfold SessionTurn.saves SessionTurn.HasRoom
  cases hprepare : turn.prepare session with
  | error e => simp
  | ok p =>
    obtain ⟨prepared, task⟩ := p
    obtain ⟨hvalid, htask, -, -⟩ := prepareTurn_ok hprepare
    have htask : prepared.task.isSome = true := by rw [htask]; rfl
    have halong : (∀ saved ∈ savedAlong turn.clock 0 prepared (turn.events task), saved.Valid) ↔
        RoomAlong turn.clock 0 prepared (turn.events task) :=
      savedAlong_valid_iff (turn.events task) 0 hvalid htask
    constructor
    · intro h
      refine halong.1 fun saved hsaved => h saved ?_
      exact List.mem_cons_of_mem _ (List.mem_append_left _ hsaved)
    · intro hroom saved hsaved
      rcases List.mem_cons.1 hsaved with rfl | hsaved
      · exact hvalid
      rcases List.mem_append.1 hsaved with hsaved | hsaved
      · exact halong.2 hroom saved hsaved
      · split at hsaved
        · rw [List.mem_singleton.1 hsaved]
          exact sessionAfter_valid _ 0 hvalid htask hroom
        · simp at hsaved

/-- The sessions of a sequence of turns, each of which meets a condition: a turn goes on from any
session that was saved. -/
inductive SavedBy (ok : SessionTurn → RuntimeSession → Prop) (start : RuntimeSession) :
    RuntimeSession → Prop
  | start : SavedBy ok start start
  | turn {session saved : RuntimeSession} (turn : SessionTurn) (h : SavedBy ok start session)
      (hok : ok turn session) (hsaved : saved ∈ turn.saves session) : SavedBy ok start saved

/-- **A saved session can be opened again** in every sequence of turns whose reports find room,
and a turn that is refused has saved nothing. -/
theorem saved_reopens {start session : RuntimeSession} (hstart : start.validate = .ok ())
    (h : SavedBy SessionTurn.HasRoom start session) :
    session.validate = .ok () ∧
      (∀ (s s' : EngineStore) (now : ℤ) (r : StoredConversation),
        exec (saveConversation now session.saveInput) s = (.ok r, s') →
          ∃ stored, SessionManager.load s' session.sessionId = .ok stored ∧ stored.session = session) ∧
      ∀ turn : SessionTurn,
        (∀ error, turn.prepare session = .error error → turn.saves session = []) ∧
          ∀ prepared task, turn.prepare session = .ok (prepared, task) → task.validate = .ok () := by
  have hvalid : session.Valid := by
    induction h with
    | start => exact validate_iff.1 hstart
    | turn turn _ hok hsaved _ => exact (saves_valid_iff turn _).2 hok _ hsaved
  refine ⟨validate_iff.2 hvalid, fun s s' now r hsave => load_saved hvalid hsave,
    fun turn => ⟨fun error herror => ?_, fun prepared task hok => (prepareTurn_ok hok).2.2.2⟩⟩
  unfold SessionTurn.saves
  rw [herror]

/-! ## A session at the limit -/

attribute [local irreducible] SessionTurn.HasRoom SessionTurn.saves

def sampleStamp : Stamp where
  id := ⟨"00000000-0000-4000-8000-000000000001", by decide +kernel⟩
  timestamp := "1970-01-01T00:00:00+00:00"
  now := 0

/-- A turn that publishes a report. -/
def publishingTurn (history : List Message) : SessionTurn where
  runtime := published
  store := {}
  taskId := sampleStamp.id
  task := { sampleTask with history }
  clock := { refreshed := 0, pushed := sampleStamp, handled := fun _ => sampleStamp }
  handles := 100

def emptySession : RuntimeSession := .new sampleStamp.id 0 "balanced" "full"

/-- A turn that publishes a report and brings a history of its own. -/
def owningTurn : SessionTurn := publishingTurn [.text .user "q"]

/-- What the two turns do, each by one evaluation of its run. -/
theorem publishingTurn_runs :
    ((publishingTurn []).HasRoom emptySession ∧
        ∃ saved ∈ (publishingTurn []).saves emptySession, saved.messages.length = 2) ∧
      ∃ event ∈ owningTurn.events owningTurn.task, event.report.isSome = true := by
  constructor
  · decide +kernel
  · decide +kernel

theorem emptySession_reopens :
    ∃ saved ∈ (publishingTurn []).saves emptySession, saved.messages.length = 2 ∧
      saved.validate = .ok () ∧
      (∀ (s s' : EngineStore) (now : ℤ) (r : StoredConversation),
        exec (saveConversation now saved.saveInput) s = (.ok r, s') →
          ∃ stored, SessionManager.load s' saved.sessionId = .ok stored ∧ stored.session = saved) ∧
      ∀ turn : SessionTurn,
        (∀ error, turn.prepare saved = .error error → turn.saves saved = []) ∧
          ∀ prepared task, turn.prepare saved = .ok (prepared, task) → task.validate = .ok () := by
  obtain ⟨hroom, saved, hsaved, hlength⟩ := publishingTurn_runs.1
  have hstart : emptySession.validate = .ok () := by decide +kernel
  exact ⟨saved, hsaved, hlength, saved_reopens hstart (.turn (publishingTurn []) .start hroom hsaved)⟩

/-- A session with some equal messages. -/
def longSession (n : ℕ) : RuntimeSession :=
  { emptySession with
    messages := List.replicate n
      { id := sampleStamp.id.text, role := .user, text := "q", timestamp := "" } }

theorem textChars_longSession (n : ℕ) : (longSession n).textChars = n := by
  have hq : "q".length = 1 := rfl
  unfold longSession RuntimeSession.textChars
  rw [List.map_replicate, List.sum_replicate]
  simp only [hq, smul_eq_mul, mul_one]

theorem longSession_valid {n : ℕ} (h : n ≤ maxSessionMessages) : (longSession n).Valid where
  sessionId := idComplaint_uuid sampleStamp.id "session_id"
  version := rfl
  title := show ¬ (Text.trim RuntimeSession.untitled = "" ∨
      240 < RuntimeSession.untitled.utf8ByteSize) by decide +kernel
  count := by
    unfold longSession
    rw [List.length_replicate]
    exact h
  messages := fun message hmem => by
    rw [List.eq_of_mem_replicate hmem]
    decide +kernel
  text := by
    have hlimits : maxSessionMessages ≤ maxSessionTextChars := by decide
    rw [textChars_longSession]
    omega
  summary := rfl

theorem longSession_room : (longSession 999).Room (Text.trim sampleTask.objective) where
  count := by
    unfold longSession
    rw [List.length_replicate]
    decide
  chars := by
    rw [textChars_longSession]
    decide +kernel
  text := by decide +kernel

/-- A session to which a turn has pushed its question. -/
def RuntimeSession.asked (clock : TurnClock) (taskId : String) (task : RuntimeTask)
    (session : RuntimeSession) : RuntimeSession :=
  { session.pushMessage clock.pushed .user (Text.trim task.objective) with
    input := ""
    depth := task.depth
    toolPolicy := task.toolPolicy
    task := some (.new taskId) }

theorem asked_valid {task : RuntimeTask} (hvalid : session.Valid)
    (hroom : session.Room (Text.trim task.objective)) (taskId : String) :
    (session.asked clock taskId task).Valid :=
  Valid.congr ((valid_pushMessage hvalid clock.pushed .user _).2 hroom) rfl rfl rfl rfl rfl

/-- **When a turn starts**: the titled session is given to the task, and the question is pushed. -/
theorem prepareTurn_eq {task task' : RuntimeTask} {titled given : RuntimeSession} {taskId : String}
    (hvalid : session.Valid) (htask : task.validate = .ok ())
    (htitle : session.ensureTitle task.objective = titled)
    (hhistory : withHistory clock.refreshed titled task = (given, task'))
    (htask' : task'.validate = .ok ()) (hgiven : given.Valid)
    (hroom : given.Room (Text.trim task'.objective)) :
    prepareTurn clock taskId session task = .ok (given.asked clock taskId task', task') := by
  have hprepared : (given.asked clock taskId task').validate = .ok () :=
    validate_iff.2 (asked_valid hgiven hroom taskId)
  unfold RuntimeSession.asked at hprepared
  unfold prepareTurn RuntimeSession.asked
  simp only [validate_iff.2 hvalid, htask, htitle, hhistory, htask', hprepared]
  rfl

theorem withHistory_own {task : RuntimeTask} (hown : task.history.isEmpty = false) (now : Int64) :
    withHistory now session task = (session, task) := by
  unfold withHistory
  rw [hown]
  rfl

/-- The turn fills a session of 999 messages. -/
theorem owningTurn_prepare :
    ∃ prepared, owningTurn.prepare (longSession 999) = .ok (prepared, owningTurn.task) ∧
      prepared.task.isSome = true ∧ prepared.messages.length = maxSessionMessages := by
  have htask : owningTurn.task.validate = .ok () := by decide +kernel
  have htitle : (longSession 999).ensureTitle owningTurn.task.objective = longSession 999 := rfl
  have hvalid : (longSession 999).Valid := longSession_valid (by decide)
  refine ⟨_, prepareTurn_eq hvalid htask htitle (withHistory_own rfl _) htask hvalid
    longSession_room, rfl, ?_⟩
  unfold RuntimeSession.asked RuntimeSession.pushMessage longSession
  rw [List.length_append, List.length_replicate]
  rfl

attribute [local irreducible] owningTurn

/-- **The report of a turn is saved** in a session that cannot be opened again. -/
theorem longSession_lost :
    ¬ ∀ start session : RuntimeSession, start.validate = .ok () →
      SavedBy (fun _ _ => True) start session → session.validate = .ok () := by
  intro h
  have hvalid : (longSession 999).Valid := longSession_valid (by decide)
  have hall : ∀ saved ∈ owningTurn.saves (longSession 999), saved.Valid := fun saved hsaved =>
    validate_iff.1 (h _ saved (validate_iff.2 hvalid) (.turn owningTurn .start trivial hsaved))
  have hroom := (saves_valid_iff owningTurn _).1 hall
  obtain ⟨prepared, hprepare, htask, hlength⟩ := owningTurn_prepare
  unfold SessionTurn.HasRoom at hroom
  rw [hprepare] at hroom
  have hcount := RoomAlong.count hroom htask publishingTurn_runs.2
  rw [hlength] at hcount
  exact lt_irrefl _ hcount

end Astock
