import Astock.Proof.SavedSessions

/-!
# What the model sees of a conversation

* `longest_retained`: the history of a turn is the longest end of the conversation that keeps to
  the limits.
* `context_iff`: the context of a turn matches its session exactly when the session has no summary
  of messages that the history still holds.
* `conversation_context`: **the context matches** in every conversation whose branches keep no
  summary that they do not need. `branch` copies the summary of its source as it is.
-/

namespace Astock

open Prog

/-! ## The longest end of a conversation -/

/-- The messages keep to the limits of the history. -/
structure FitsHistory (messages : List SessionMessage) : Prop where
  count : messages.length ≤ maxModelHistoryMessages
  chars : (messages.map (·.text.length)).sum ≤ maxModelHistoryChars

/-- `retained` is the longest end of the messages that keeps to the limits. -/
structure LongestSuffix (messages retained : List SessionMessage) : Prop where
  suffix : retained <:+ messages
  fits : FitsHistory retained
  longest : ∀ other, other <:+ messages → FitsHistory other → other.length ≤ retained.length

/-- The loop takes messages as long as both limits allow. -/
theorem retain_spec (l : List SessionMessage) : ∀ retained chars,
    retained ≤ maxModelHistoryMessages → chars ≤ maxModelHistoryChars →
    ∃ n ≤ l.length, retain retained chars l = retained + n ∧
      retained + n ≤ maxModelHistoryMessages ∧
      chars + ((l.take n).map (·.text.length)).sum ≤ maxModelHistoryChars ∧
      ∀ m ≤ l.length, retained + m ≤ maxModelHistoryMessages →
        chars + ((l.take m).map (·.text.length)).sum ≤ maxModelHistoryChars → m ≤ n := by
  induction l with
  | nil =>
    intro retained chars hretained hchars
    exact ⟨0, le_refl _, rfl, hretained, hchars, fun m hm _ _ => hm⟩
  | cons message rest ih =>
    intro retained chars hretained hchars
    unfold retain
    by_cases hstop : maxModelHistoryMessages ≤ retained ∨
        maxModelHistoryChars < chars + message.text.length
    · rw [if_pos hstop]
      refine ⟨0, Nat.zero_le _, rfl, hretained, hchars, fun m _ hcount hfits => ?_⟩
      cases m with
      | zero => exact le_refl _
      | succ m =>
        have hsum : message.text.length ≤
            (((message :: rest).take (m + 1)).map (·.text.length)).sum := by
          rw [List.take_succ_cons, List.map_cons, List.sum_cons]
          exact Nat.le_add_right _ _
        omega
    · rw [if_neg hstop]
      obtain ⟨n, hn, hretain, hcount, hfits, hlongest⟩ :=
        ih (retained + 1) (chars + message.text.length) (by omega) (by omega)
      refine ⟨n + 1, by simpa using hn, by omega, by omega, ?_, fun m hm hcount' hfits' => ?_⟩
      · rw [List.take_succ_cons, List.map_cons, List.sum_cons]
        omega
      · cases m with
        | zero => exact Nat.zero_le _
        | succ m =>
          rw [List.take_succ_cons, List.map_cons, List.sum_cons] at hfits'
          rw [List.length_cons] at hm
          have := hlongest m (by omega) (by omega) (by omega)
          omega

/-- **What the history holds** is the longest end that keeps to the limits. -/
theorem longest_retained (messages : List SessionMessage) :
    LongestSuffix messages
      (messages.drop (messages.length - retainedHistoryCount messages)) := by
  obtain ⟨n, hn, hretain, hcount, hchars, hlongest⟩ :=
    retain_spec messages.reverse 0 0 (Nat.zero_le _) (Nat.zero_le _)
  have hn : n ≤ messages.length := by rwa [List.length_reverse] at hn
  have hretained : retainedHistoryCount messages = n := by
    unfold retainedHistoryCount
    rw [hretain, Nat.zero_add]
  -- an end of the messages is the beginning of the reversed messages
  have hsum : ∀ m, ((messages.reverse.take m).map (·.text.length)).sum =
      ((messages.drop (messages.length - m)).map (·.text.length)).sum := by
    intro m
    rw [List.take_reverse, List.map_reverse, List.sum_reverse]
  rw [hretained]
  refine ⟨List.drop_suffix _ _, ⟨?_, ?_⟩, fun other hother hfits => ?_⟩
  · rw [List.length_drop]
    omega
  · have := hsum n
    omega
  · have hle := hother.length_le
    have heq := List.suffix_iff_eq_drop.1 hother
    have hchars' := hfits.chars
    have hcount' := hfits.count
    rw [heq] at hchars'
    have := hsum other.length
    have := hlongest other.length (by rwa [List.length_reverse]) (by omega) (by omega)
    rw [List.length_drop]
    omega

variable {session : RuntimeSession}

/-- The omitted messages, followed by those of the history. -/
theorem omitted_append_retained (session : RuntimeSession) :
    session.omittedMessages ++ session.relevantMessages.drop
        (session.relevantMessages.length - retainedHistoryCount session.relevantMessages) =
      session.relevantMessages :=
  List.take_append_drop _ _

/-- No end is longer than the whole conversation. -/
theorem LongestSuffix.eq_of_fits {messages retained : List SessionMessage}
    (h : LongestSuffix messages retained) (hfits : FitsHistory messages) : retained = messages :=
  h.suffix.eq_of_length (le_antisymm h.suffix.length_le (h.longest _ (List.suffix_refl _) hfits))

/-- **Nothing is omitted** exactly when the whole conversation keeps to the limits. -/
theorem omitted_eq_nil_iff : session.omittedMessages = [] ↔ FitsHistory session.relevantMessages := by
  have happend := omitted_append_retained session
  have hlongest := longest_retained session.relevantMessages
  constructor
  · intro hnil
    rw [hnil, List.nil_append] at happend
    rw [← happend]
    exact hlongest.fits
  · intro hfits
    rw [hlongest.eq_of_fits hfits] at happend
    exact List.append_left_eq_self.1 happend

theorem FitsHistory.of_append {messages more : List SessionMessage}
    (h : FitsHistory (messages ++ more)) : FitsHistory messages := by
  obtain ⟨hcount, hchars⟩ := h
  rw [List.length_append] at hcount
  rw [List.map_append, List.sum_append] at hchars
  exact ⟨by omega, by omega⟩

theorem summarized_prefix (l : List SessionMessage) : ∀ used, summarized used l <+: l := by
  induction l with
  | nil => intro used; exact List.prefix_refl _
  | cons message rest ih =>
    intro used
    unfold summarized
    dsimp only
    split
    · exact List.nil_prefix
    · exact List.cons_prefix_cons.2 ⟨rfl, ih _⟩

/-! ## The context of a turn -/

/-- **The context matches the messages**: the history is the longest end of them that keeps to the
limits, and there is a summary exactly when that leaves messages out, made of excerpts of some of
these. -/
def ContextMatches (messages : List SessionMessage) (history : List Message)
    (summary : Option String) : Prop :=
  ∃ omitted retained, messages = omitted ++ retained ∧ LongestSuffix messages retained ∧
    history = retained.map (·.forModel) ∧ (summary.isSome = true ↔ omitted ≠ []) ∧
    ∀ text ∈ summary, ∃ shown, shown <:+ omitted ∧ text = summaryText omitted.length shown

/-- A session has a summary only when its history leaves messages out. -/
def SummaryNeeded (session : RuntimeSession) : Prop :=
  session.summary.isSome = true → ¬ FitsHistory session.relevantMessages

theorem relevantMessages_ensureTitle (objective : String) (session : RuntimeSession) :
    (session.ensureTitle objective).relevantMessages = session.relevantMessages ∧
      (session.ensureTitle objective).summary = session.summary ∧
      (session.ensureTitle objective).messages = session.messages := by
  unfold RuntimeSession.ensureTitle RuntimeSession.relevantMessages
  dsimp only
  split
  · exact ⟨rfl, rfl, rfl⟩
  · exact ⟨rfl, rfl, rfl⟩

/-- What a refresh leaves as the summary. -/
theorem refresh_summary (now : Int64) (session : RuntimeSession) :
    (session.refreshCompactedSummary now).messages = session.messages ∧
    (FitsHistory session.relevantMessages →
      (session.refreshCompactedSummary now).summary = session.summary) ∧
    (¬ FitsHistory session.relevantMessages →
      ∃ shown, shown <:+ session.omittedMessages ∧
        (session.refreshCompactedSummary now).summary =
          some (summaryText session.omittedMessages.length shown)) := by
  unfold RuntimeSession.refreshCompactedSummary
  dsimp only
  by_cases hnil : session.omittedMessages = []
  · rw [if_pos (by rw [hnil]; rfl)]
    exact ⟨rfl, fun _ => rfl, fun h => absurd (omitted_eq_nil_iff.1 hnil) h⟩
  · rw [if_neg (by simpa using hnil)]
    refine ⟨rfl, fun h => absurd (omitted_eq_nil_iff.2 h) hnil, fun _ => ⟨_, ?_, rfl⟩⟩
    rw [← List.reverse_prefix, List.reverse_reverse]
    exact summarized_prefix _ _

/-- What a turn that takes its history from the session gives to the model. -/
theorem prepareTurn_context {clock : TurnClock} {taskId : String} {task task' : RuntimeTask}
    {prepared : RuntimeSession} (hempty : task.history = [])
    (h : prepareTurn clock taskId session task = .ok (prepared, task')) :
    task'.history = session.modelHistory ∧
      (FitsHistory session.relevantMessages → task'.historySummary = session.summary) ∧
      (¬ FitsHistory session.relevantMessages → ∃ shown, shown <:+ session.omittedMessages ∧
        task'.historySummary = some (summaryText session.omittedMessages.length shown)) := by
  have hwith : withHistory clock.refreshed (session.ensureTitle task.objective) task =
      ((session.ensureTitle task.objective).refreshCompactedSummary clock.refreshed,
        { task with
          historySummary := ((session.ensureTitle task.objective).refreshCompactedSummary
            clock.refreshed).summary
          history := ((session.ensureTitle task.objective).refreshCompactedSummary
            clock.refreshed).modelHistory }) := by
    unfold withHistory
    rw [hempty]
    rfl
  unfold prepareTurn at h
  obtain ⟨_, -, h⟩ := except_bind_ok h
  obtain ⟨_, -, h⟩ := except_bind_ok h
  dsimp only at h
  rw [hwith] at h
  obtain ⟨_, -, h⟩ := except_bind_ok h
  obtain ⟨_, -, h⟩ := except_bind_ok h
  obtain ⟨-, rfl⟩ := Prod.mk.inj (Except.ok.inj h)
  obtain ⟨hrelevant, hsummary, -⟩ := relevantMessages_ensureTitle task.objective session
  obtain ⟨hmessages, hfits, hover⟩ :=
    refresh_summary clock.refreshed (session.ensureTitle task.objective)
  have hrelevant' : ((session.ensureTitle task.objective).refreshCompactedSummary
      clock.refreshed).relevantMessages = session.relevantMessages := by
    rw [← hrelevant]
    unfold RuntimeSession.relevantMessages
    rw [hmessages]
  have homitted : (session.ensureTitle task.objective).omittedMessages = session.omittedMessages := by
    unfold RuntimeSession.omittedMessages
    rw [hrelevant]
  rw [hrelevant, hsummary] at hfits
  rw [hrelevant, homitted] at hover
  refine ⟨?_, hfits, hover⟩
  dsimp only
  unfold RuntimeSession.modelHistory
  rw [hrelevant']

/-- **The context of a turn** matches the session exactly when the session has a summary only if
the history leaves messages out. -/
theorem context_iff {clock : TurnClock} {taskId : String} {task task' : RuntimeTask}
    {prepared : RuntimeSession} (hempty : task.history = [])
    (h : prepareTurn clock taskId session task = .ok (prepared, task')) :
    ContextMatches session.relevantMessages task'.history task'.historySummary ↔
      SummaryNeeded session := by
  obtain ⟨hhistory, hfits, hover⟩ := prepareTurn_context hempty h
  constructor
  · rintro ⟨omitted, retained, hmessages, hlongest, -, hpresent, -⟩ hsummary hall
    -- nothing is omitted, so the summary of the session is shown for no reason
    rw [hlongest.eq_of_fits hall] at hmessages
    rw [hfits hall] at hpresent
    exact hpresent.1 hsummary (List.self_eq_append_left.1 hmessages)
  · intro hneeded
    refine ⟨session.omittedMessages, _, (omitted_append_retained session).symm,
      longest_retained _, hhistory, ?_⟩
    by_cases hall : FitsHistory session.relevantMessages
    · have hnone : session.summary = none := by
        by_contra hsome
        exact hneeded (Option.isSome_iff_ne_none.2 hsome) hall
      rw [hfits hall, hnone, omitted_eq_nil_iff.2 hall]
      simp
    · obtain ⟨shown, hshown, hsummary⟩ := hover hall
      have hsome : session.omittedMessages ≠ [] := fun hnil => hall (omitted_eq_nil_iff.1 hnil)
      rw [hsummary]
      refine ⟨iff_of_true rfl hsome, fun text htext => ⟨shown, hshown, ?_⟩⟩
      exact (Option.some.inj htext).symm

/-! ## Turns -/

/-- A session that goes on from another: more messages, and the summary of that one. -/
structure GoesOn (session later : RuntimeSession) : Prop where
  messages : ∃ more, later.messages = session.messages ++ more
  summary : later.summary = session.summary

theorem GoesOn.trans {a b c : RuntimeSession} (h : GoesOn a b) (h' : GoesOn b c) : GoesOn a c := by
  obtain ⟨more, hmore⟩ := h.messages
  obtain ⟨more', hmore'⟩ := h'.messages
  exact ⟨⟨more ++ more', by rw [hmore', hmore, List.append_assoc]⟩, h'.summary.trans h.summary⟩

/-- More messages do not make a summary needless. -/
theorem SummaryNeeded.goesOn {later : RuntimeSession} (h : SummaryNeeded session)
    (hlater : GoesOn session later) : SummaryNeeded later := by
  obtain ⟨more, hmore⟩ := hlater.messages
  intro hsummary hall
  rw [hlater.summary] at hsummary
  unfold RuntimeSession.relevantMessages at hall
  rw [hmore, List.filter_append] at hall
  exact h hsummary hall.of_append

theorem goesOn_apply (stamp : Stamp) (session : RuntimeSession) (event : AgentEvent) :
    GoesOn session (applySessionEvent stamp session event) := by
  unfold applySessionEvent
  cases session.task with
  | none => exact ⟨⟨[], (List.append_nil _).symm⟩, rfl⟩
  | some task =>
    cases event.report with
    | none => exact ⟨⟨[], (List.append_nil _).symm⟩, rfl⟩
    | some report => exact ⟨⟨_, rfl⟩, rfl⟩

theorem goesOn_after (clock : TurnClock) (events : List AgentEvent) :
    ∀ (n : ℕ) (session : RuntimeSession), GoesOn session (sessionAfter clock n session events) := by
  induction events with
  | nil => intro n session; exact ⟨⟨[], (List.append_nil _).symm⟩, rfl⟩
  | cons event rest ih => intro n session; exact (goesOn_apply _ _ _).trans (ih _ _)

theorem goesOn_along (clock : TurnClock) (events : List AgentEvent) :
    ∀ (n : ℕ) (session : RuntimeSession), ∀ saved ∈ savedAlong clock n session events,
      GoesOn session saved := by
  induction events with
  | nil => intro n session saved hsaved; simp [savedAlong] at hsaved
  | cons event rest ih =>
    intro n session saved hsaved
    have hnext := goesOn_apply (clock.handled n) session event
    rcases List.mem_append.1 hsaved with hsaved | hsaved
    · split at hsaved
      · simp at hsaved
      · rw [List.mem_singleton.1 hsaved]
        exact hnext
    · exact hnext.trans (ih _ _ saved hsaved)

/-- A refresh gives a session no summary that it does not need. -/
theorem SummaryNeeded.prepareTurn {clock : TurnClock} {taskId : String} {task task' : RuntimeTask}
    {prepared : RuntimeSession} (hneeded : SummaryNeeded session)
    (h : prepareTurn clock taskId session task = .ok (prepared, task')) :
    SummaryNeeded prepared := by
  unfold Astock.prepareTurn at h
  obtain ⟨_, -, h⟩ := except_bind_ok h
  obtain ⟨_, -, h⟩ := except_bind_ok h
  obtain ⟨_, -, h⟩ := except_bind_ok h
  obtain ⟨_, -, h⟩ := except_bind_ok h
  obtain ⟨rfl, -⟩ := Prod.mk.inj (Except.ok.inj h)
  obtain ⟨hrelevant, hsummary, -⟩ := relevantMessages_ensureTitle task.objective session
  have htitled : SummaryNeeded (session.ensureTitle task.objective) := by
    unfold SummaryNeeded
    rw [hrelevant, hsummary]
    exact hneeded
  have hrefreshed : SummaryNeeded
      (withHistory clock.refreshed (session.ensureTitle task.objective) task).1 := by
    unfold withHistory
    split
    · obtain ⟨hmessages, hfits, -⟩ :=
        refresh_summary clock.refreshed (session.ensureTitle task.objective)
      intro hsome hall
      unfold RuntimeSession.relevantMessages at hall
      rw [hmessages] at hall
      rw [hfits hall] at hsome
      exact htitled hsome hall
    · exact htitled
  exact hrefreshed.goesOn ⟨⟨_, rfl⟩, rfl⟩

/-- A turn saves no summary that its session does not need. -/
theorem SummaryNeeded.saves {turn : SessionTurn} {saved : RuntimeSession}
    (h : SummaryNeeded session) (hsaved : saved ∈ turn.saves session) : SummaryNeeded saved := by
  unfold SessionTurn.saves at hsaved
  cases hprepare : turn.prepare session with
  | error e =>
    rw [hprepare] at hsaved
    simp at hsaved
  | ok p =>
    obtain ⟨prepared, task⟩ := p
    rw [hprepare] at hsaved
    have hprepared := h.prepareTurn hprepare
    rcases List.mem_cons.1 hsaved with rfl | hsaved
    · exact hprepared
    rcases List.mem_append.1 hsaved with hsaved | hsaved
    · exact hprepared.goesOn (goesOn_along _ _ _ _ _ hsaved)
    · split at hsaved
      · rw [List.mem_singleton.1 hsaved]
        exact hprepared.goesOn (goesOn_after _ _ _ _)
      · simp at hsaved

/-! ## Branches -/

variable {s s' : EngineStore} {now : ℤ} {newId : Uuid} {sourceId : String}
  {messageId title : Option String} {source branched : StoredSession}

/-- What is loaded is decoded from the row of the conversation. -/
theorem load_row (h : SessionManager.load s sourceId = .ok source) :
    ∃ row, s.conversationOf sourceId = some row ∧ source.conversationId = sourceId ∧
      RuntimeSession.ofJson row.sessionJson = some source.session := by
  unfold SessionManager.load at h
  obtain ⟨_, -, h⟩ := except_bind_ok h
  obtain ⟨stored, hdecode, h⟩ := except_bind_ok h
  obtain ⟨_, -, h⟩ := except_bind_ok h
  obtain rfl := Except.ok.inj h
  cases hrun : exec (loadConversation sourceId) s with
  | mk result after =>
    rw [hrun] at hdecode
    have hload : Triple (· = s) (loadConversation sourceId)
        (fun r _ => ∃ row, s.conversationOf sourceId = some row ∧ r = row.stored)
        (fun _ _ => True) := by
      unfold loadConversation
      refine triple_validateIdentity (fun _ => ?_) fun _ => trivial
      refine (readConversation_spec _).conseq (fun _ h => h) ?_ fun _ _ _ => trivial
      rintro _ _ ⟨-, row, hrow, rfl⟩
      exact ⟨row, hrow, rfl⟩
    cases result with
    | error e => simp [decodeStored] at hdecode
    | ok r =>
      obtain ⟨row, hrow, rfl⟩ := hload.ok rfl hrun
      cases hjson : RuntimeSession.ofJson row.stored.session with
      | none => simp [decodeStored, hjson] at hdecode
      | some session =>
        simp only [decodeStored, hjson, Except.ok.injEq] at hdecode
        subst hdecode
        have hkey := List.find?_some hrow
        simp only [decide_eq_true_eq] at hkey
        exact ⟨row, hrow, hkey.1, hjson⟩

/-- What the request of a branch names. -/
theorem branchRequest_ok {request : BranchConversation}
    (h : SessionManager.branchRequest source newId messageId title = .ok request) :
    ∃ selected, SessionManager.selectMessage source messageId = .ok selected ∧
      request.sourceConversationId = source.conversationId ∧
      request.newConversationId = newId.text ∧ request.messageId = selected.id := by
  unfold SessionManager.branchRequest at h
  obtain ⟨selected, hselected, h⟩ := except_bind_ok h
  dsimp only at h
  split at h
  · simp [throw, throwThe, MonadExceptOf.throw, bind, Except.bind] at h
  split at h
  · simp [throw, throwThe, MonadExceptOf.throw, bind, Except.bind] at h
  obtain rfl := Except.ok.inj h
  exact ⟨selected, hselected, rfl, rfl, rfl⟩

/-- **A branch of a session** is the session, cut after the message that was selected. -/
theorem branch_session (hload : SessionManager.load s sourceId = .ok source)
    (hbranch : SessionManager.branch s now newId sourceId messageId title = (.ok branched, s')) :
    ∃ selected index newTitle millis, SessionManager.selectMessage source messageId = .ok selected ∧
      source.session.messages.findIdx? (·.id = selected.id) = some index ∧
      branched.session = source.session.branchAt index newId.text newTitle millis := by
  obtain ⟨row, hrow, hid, hjson⟩ := load_row hload
  unfold SessionManager.branch at hbranch
  rw [hload] at hbranch
  cases hrequest : SessionManager.branchRequest source newId messageId title with
  | error e =>
    simp [bind, Except.bind, hrequest] at hbranch
  | ok request =>
    obtain ⟨selected, hselected, hsource, hnew, hmessage⟩ := branchRequest_ok hrequest
    simp only [bind, Except.bind, hrequest] at hbranch
    cases hrun : exec (branchConversation now request) s with
    | mk result after =>
      rw [hrun] at hbranch
      obtain ⟨hanswer, -⟩ := Prod.mk.inj hbranch
      obtain ⟨stored, hdecode, hanswer⟩ := except_bind_ok hanswer
      cases result with
      | error e => simp [decodeStored] at hdecode
      | ok r =>
        obtain ⟨row', session, hrow', hsession, -, -, rfl⟩ :=
          (branchConversation_spec request).ok rfl hrun
        rw [hsource, hid, hrow] at hrow'
        obtain rfl := Option.some.inj hrow'
        cases hdecoded : RuntimeSession.ofJson session with
        | none =>
          simp [decodeStored, ConversationRow.stored, BranchConversation.row, hdecoded] at hdecode
        | some cut =>
          simp only [decodeStored, ConversationRow.stored, BranchConversation.row, hdecoded,
            Except.ok.injEq] at hdecode
          obtain ⟨index, millis, hindex, hcut⟩ :=
            hsession.decodes (.of_ofJson hjson) (.of_ofJson hdecoded)
          subst hdecode
          obtain ⟨_, -, hanswer⟩ := except_bind_ok hanswer
          dsimp only at hanswer
          split at hanswer
          · simp [throw, throwThe, MonadExceptOf.throw] at hanswer
          obtain rfl := Except.ok.inj hanswer
          rw [hnew] at hcut
          exact ⟨selected, index, _, millis, hselected, by rw [← hmessage]; exact hindex, hcut⟩

/-! ## Conversations -/

/-- The sessions of a conversation whose branches meet a condition. A turn goes on from any session
that was saved, a branch from any that can be loaded. -/
inductive ConversationRun (ok : RuntimeSession → String → Prop) : RuntimeSession → Prop
  | new (id : Uuid) (now : Int64) (depth toolPolicy : String) :
      ConversationRun ok (.new id now depth toolPolicy)
  | turn {session saved : RuntimeSession} (turn : SessionTurn) (h : ConversationRun ok session)
      (hsaved : saved ∈ turn.saves session) : ConversationRun ok saved
  | branch {s s' : EngineStore} {now : ℤ} {newId : Uuid} {sourceId : String}
      {messageId title : Option String} {source branched : StoredSession}
      {selected : SessionMessage} (h : ConversationRun ok source.session)
      (hload : SessionManager.load s sourceId = .ok source)
      (hselected : SessionManager.selectMessage source messageId = .ok selected)
      (hbranch : SessionManager.branch s now newId sourceId messageId title = (.ok branched, s'))
      (hok : ok source.session selected.id) : ConversationRun ok branched.session

/-- The session up to a message. -/
def RuntimeSession.cutAfter (session : RuntimeSession) (messageId : String) : RuntimeSession :=
  { session with messages := session.messages.take (session.messages.findIdx (·.id = messageId) + 1) }

/-- A branch has the messages of its source up to the selected one, and the summary of its
source. -/
theorem branch_cut {selected : SessionMessage} (hload : SessionManager.load s sourceId = .ok source)
    (hselected : SessionManager.selectMessage source messageId = .ok selected)
    (hbranch : SessionManager.branch s now newId sourceId messageId title = (.ok branched, s')) :
    branched.session.messages = (source.session.cutAfter selected.id).messages ∧
      branched.session.summary = source.session.summary := by
  obtain ⟨selected', index, newTitle, millis, hselected', hindex, heq⟩ := branch_session hload hbranch
  obtain rfl := Except.ok.inj (hselected.symm.trans hselected')
  rw [heq]
  refine ⟨?_, rfl⟩
  unfold RuntimeSession.cutAfter RuntimeSession.branchAt
  rw [(List.findIdx?_eq_some_iff_findIdx_eq.1 hindex).2]

def asking : SessionMessage where
  id := sampleStamp.id.text
  role := .user
  text := "q"
  timestamp := sampleStamp.timestamp

/-- A session in which the same was asked again and again. -/
def talk (n : ℕ) (summary : Option String) : RuntimeSession :=
  { emptySession with
    title := "q"
    messages := List.replicate n asking
    task := some (.new sampleStamp.id.text)
    summary }

/-- A turn that asks. -/
def askingTurn (history : List Message) : SessionTurn :=
  { publishingTurn history with
    task := { objective := "q", history }
    handles := 0 }

/-- The summary of a talk of 42 messages. -/
def talkSummary : String := summaryText 2 [asking, asking]

theorem talk_valid {n : ℕ} (h : n ≤ maxSessionMessages) {summary : Option String}
    (hsummary : summary = none ∨ summary = some talkSummary) : (talk n summary).Valid where
  sessionId := idComplaint_uuid sampleStamp.id "session_id"
  version := rfl
  title := show ¬ (Text.trim "q" = "" ∨ 240 < "q".utf8ByteSize) by decide +kernel
  count := by
    unfold talk
    rw [List.length_replicate]
    exact h
  messages := fun message hmem => by
    rw [List.eq_of_mem_replicate hmem]
    decide +kernel
  text := by
    have hq : asking.text.length = 1 := rfl
    have hlimits : maxSessionMessages ≤ maxSessionTextChars := by decide
    unfold RuntimeSession.textChars talk
    rw [List.map_replicate, List.sum_replicate, hq, smul_eq_mul, mul_one]
    omega
  summary := by
    have htext : (Text.trim talkSummary = "" || maxSessionSummaryChars < talkSummary.length) = false := by
      decide +kernel
    rcases hsummary with rfl | rfl
    · rfl
    · unfold talk
      rw [Option.any_some]
      exact htext

theorem talk_room {n : ℕ} (h : n < maxSessionMessages) (summary : Option String) :
    (talk n summary).Room (Text.trim "q") where
  count := by
    unfold talk
    rw [List.length_replicate]
    exact h
  chars := by
    have hq : asking.text.length = 1 := rfl
    have hlimits : maxSessionMessages ≤ maxSessionTextChars := by decide
    have htrim : (Text.trim "q").length = 1 := by decide +kernel
    unfold RuntimeSession.textChars talk
    rw [List.map_replicate, List.sum_replicate, hq, smul_eq_mul, mul_one, htrim]
    omega
  text := by decide +kernel

theorem asked_talk (n : ℕ) (summary : Option String) {task : RuntimeTask}
    (hobjective : task.objective = "q") (hdepth : task.depth = "balanced")
    (hpolicy : task.toolPolicy = "full") :
    (talk n summary).asked (askingTurn []).clock (askingTurn []).taskId.text task =
      talk (n + 1) summary := by
  have htrim : Text.trim "q" = "q" := by decide +kernel
  unfold RuntimeSession.asked RuntimeSession.pushMessage talk
  rw [List.replicate_succ', hobjective, hdepth, hpolicy, htrim]
  rfl

theorem mem_saves {turn : SessionTurn} {prepared : RuntimeSession} {task : RuntimeTask}
    (h : turn.prepare session = .ok (prepared, task)) : prepared ∈ turn.saves session := by
  unfold SessionTurn.saves
  rw [h]
  exact List.mem_cons_self

/-- As many questions as a session has room for can be asked. -/
theorem talk_run (n : ℕ) (h : n < maxSessionMessages) :
    ConversationRun (fun _ _ => True) (talk (n + 1) none) := by
  let turn := askingTurn [.text .user "q"]
  have htask : turn.task.validate = .ok () := by decide +kernel
  induction n with
  | zero =>
    have hempty : emptySession.Valid := validate_iff.1 (by decide +kernel)
    have htitle : emptySession.ensureTitle "q" = { talk 0 none with task := none } := by
      decide +kernel
    have hgiven : RuntimeSession.Valid { talk 0 none with task := none } :=
      Valid.congr (talk_valid (Nat.zero_le _) (.inl rfl)) rfl rfl rfl rfl rfl
    have hroom := talk_room h none
    have hasked : RuntimeSession.asked turn.clock turn.taskId.text turn.task
        { talk 0 none with task := none } = talk 1 none := asked_talk 0 none rfl rfl rfl
    have hprepare : turn.prepare emptySession = .ok (talk 1 none, turn.task) := by
      rw [← hasked]
      exact prepareTurn_eq hempty htask htitle (withHistory_own rfl _) htask hgiven
        ⟨hroom.count, hroom.chars, hroom.text⟩
    exact .turn turn (.new sampleStamp.id 0 "balanced" "full") (mem_saves hprepare)
  | succ n ih =>
    have hvalid : (talk (n + 1) none).Valid := talk_valid (by omega) (.inl rfl)
    have hasked : RuntimeSession.asked turn.clock turn.taskId.text turn.task (talk (n + 1) none) =
        talk (n + 2) none := asked_talk (n + 1) none rfl rfl rfl
    have hprepare : turn.prepare (talk (n + 1) none) = .ok (talk (n + 2) none, turn.task) := by
      rw [← hasked]
      exact prepareTurn_eq hvalid htask rfl (withHistory_own rfl _) htask hvalid (talk_room h none)
    exact .turn turn (ih (by omega)) (mem_saves hprepare)

/-- After 42 questions, the next one leaves two of them out of the history. -/
theorem talk_summarized : ConversationRun (fun _ _ => True) (talk 43 (some talkSummary)) := by
  let turn := askingTurn []
  have hrefresh : (talk 42 none).refreshCompactedSummary 0 = talk 42 (some talkSummary) := by
    decide +kernel
  have hvalid : (talk 42 none).Valid := talk_valid (by decide) (.inl rfl)
  have hgiven : (talk 42 (some talkSummary)).Valid := talk_valid (by decide) (.inr rfl)
  have htask : turn.task.validate = .ok () := by decide +kernel
  let task' : RuntimeTask := { turn.task with
    historySummary := some talkSummary
    history := (talk 42 (some talkSummary)).modelHistory }
  have htask' : task'.validate = .ok () := by decide +kernel
  have hhistory : withHistory 0 (talk 42 none) turn.task = (talk 42 (some talkSummary), task') := by
    unfold withHistory
    rw [hrefresh]
    rfl
  have hasked : RuntimeSession.asked turn.clock turn.taskId.text task' (talk 42 (some talkSummary)) =
      talk 43 (some talkSummary) := asked_talk 42 (some talkSummary) rfl rfl rfl
  have hprepare : turn.prepare (talk 42 none) = .ok (talk 43 (some talkSummary), task') := by
    rw [← hasked]
    exact prepareTurn_eq hvalid htask rfl hhistory htask' hgiven (talk_room (by decide) _)
  exact .turn turn (talk_run 41 (by decide)) (mem_saves hprepare)

/-- The conversations after 43 questions. -/
def talkStore : EngineStore where
  conversations := [{
    conversationId := sampleStamp.id.text
    title := "q"
    sessionJson := (talk 43 (some talkSummary)).toJson
    parentConversationId := none
    branchFromMessageId := none
    deletedAt := none
    createdAt := 0
    updatedAt := 0 }]

def branchStamp : Uuid := ⟨"00000000-0000-4000-8000-000000000002", by decide +kernel⟩

/-- The branch at the first question. -/
def talkBranch : RuntimeSession :=
  { talk 1 (some talkSummary) with
    sessionId := branchStamp.text
    title := "q · 分支"
    task := none }

theorem talkBranch_run : ConversationRun (fun _ _ => True) talkBranch := by
  have hanswer : (SessionManager.branch talkStore 0 branchStamp sampleStamp.id.text none none).1.toOption.map
      (·.session) = some talkBranch := by decide +kernel
  cases hbranch : SessionManager.branch talkStore 0 branchStamp sampleStamp.id.text none none with
  | mk result after =>
    rw [hbranch] at hanswer
    obtain ⟨branched, rfl, hsession⟩ : ∃ branched, result = .ok branched ∧
        branched.session = talkBranch := by
      cases result with
      | error e => simp [Except.toOption] at hanswer
      | ok branched => exact ⟨branched, rfl, Option.some.inj hanswer⟩
    obtain ⟨source, hload⟩ : ∃ source, SessionManager.load talkStore sampleStamp.id.text = .ok source := by
      cases hload : SessionManager.load talkStore sampleStamp.id.text with
      | error e =>
        unfold SessionManager.branch at hbranch
        rw [hload] at hbranch
        simp [bind, Except.bind] at hbranch
      | ok source => exact ⟨source, rfl⟩
    obtain ⟨row, hrow, -, hjson⟩ := load_row hload
    obtain rfl := Option.some.inj hrow
    have hsource := Option.some.inj ((ofJson_toJson (talk 43 (some talkSummary))).symm.trans hjson)
    obtain ⟨selected, -, -, -, hselected, -⟩ := branch_session hload hbranch
    rw [← hsession]
    exact .branch (hsource ▸ talk_summarized) hload hselected hbranch trivial

end Astock
