/-
# What a step does to the log

One lemma for each handler that says what it does to the log, to the tasks of the
persistence worker, to the messages that wait for an entry to be persisted
(`OutstandingMessageType::AppendLog`) and to the `Ok` answers.  There are four kinds of
steps:

* `KeepsEntries` : the log stays, and at most votes are handed to the persistence worker;
* `StoresEntry` : a follower appends the entry of a request and registers its answer;
* `AppendsOwn` : a leader appends an entry of its own;
* `Truncates` : a follower cuts its log.

They are assembled for `accept` and for the parts of `time_step` at the end.  The
persistence channel is taken to be open; what happens otherwise is a matter of the callers.
-/
import Kraft.LogFile
import Kraft.Node
import Kraft.Replies
import Kraft.Requests

namespace Kraft

open SharedState StateMachine

variable {s s' s₁ : SharedState}

/-- The callback that waits for the entry registered under a message id. -/
def appendLogOf (messages : HashMap OutstandingMessage) (id : ℕ) : Option Callback :=
  match messages.lookup id with
  | some ⟨_, _, .appendLog callback⟩ => some callback
  | _ => none

/-- The callbacks answered with `Ok`. -/
def okAnswers (s : SharedState) : List Callback :=
  s.callbackResponses.filterMap fun answer =>
    if answer.2 = .appendEntries .ok then some answer.1 else none

/-! ## Messages that wait for an entry -/

/-- The entry that waits once a message is registered. -/
theorem appendLogOf_insert (messages : HashMap OutstandingMessage) (id id' : ℕ)
    (msg : OutstandingMessage) :
    appendLogOf (messages.insert id msg) id' =
      if id' = id then (match msg.messageType with | .appendLog callback => some callback | _ => none)
      else appendLogOf messages id' := by
  unfold appendLogOf
  by_cases h : id' = id
  · subst h
    rw [AList.lookup_insert, if_pos rfl]
    obtain ⟨_, _, type⟩ := msg
    cases type <;> rfl
  · rw [AList.lookup_insert_ne h, if_neg h]

/-- The entries that wait once a message is removed. -/
theorem appendLogOf_erase (messages : HashMap OutstandingMessage) (id id' : ℕ) :
    appendLogOf (messages.erase id) id' = if id' = id then none else appendLogOf messages id' := by
  unfold appendLogOf
  by_cases h : id' = id
  · subst h
    rw [AList.lookup_erase, if_pos rfl]
  · rw [AList.lookup_erase_ne h, if_neg h]

/-- `FewerWaiting s s'`: every message that waits for an entry in `s'` did so in `s`. -/
def FewerWaiting (s s' : SharedState) : Prop :=
  ∀ id callback, appendLogOf s'.outstandingMessages id = some callback →
    appendLogOf s.outstandingMessages id = some callback

namespace FewerWaiting

variable {s s' : SharedState}

theorem of_eq (h : s'.outstandingMessages = s.outstandingMessages) : FewerWaiting s s' :=
  fun _ _ hwait => h ▸ hwait

theorem trans {s₂ s₃ : SharedState} (h₁ : FewerWaiting s₁ s₂) (h₂ : FewerWaiting s₂ s₃) :
    FewerWaiting s₁ s₃ :=
  fun id callback hwait => h₁ id callback (h₂ id callback hwait)

/-- A registered message of another kind hides what waited under its id. -/
theorem of_insert {id : ℕ} {msg : OutstandingMessage}
    (h : s'.outstandingMessages = s.outstandingMessages.insert id msg)
    (htype : ∀ callback, msg.messageType ≠ .appendLog callback) : FewerWaiting s s' := by
  intro id' callback hwait
  rw [h, appendLogOf_insert] at hwait
  split_ifs at hwait with hid
  · obtain ⟨_, _, type⟩ := msg
    cases type with
    | appendLog other => exact absurd rfl (htype other)
    | _ => cases hwait
  · exact hwait

/-- One message fewer. -/
theorem of_erase {id : ℕ} (h : s'.outstandingMessages = s.outstandingMessages.erase id) :
    FewerWaiting s s' := by
  intro id' callback hwait
  rw [h, appendLogOf_erase] at hwait
  split_ifs at hwait
  exact hwait

end FewerWaiting

/-! ## The kinds of steps -/

/-- What every step keeps. -/
structure LogFrame (s s' : SharedState) : Prop where
  persistenceOpen : s'.persistenceOpen = s.persistenceOpen
  persistenceResponse : s'.persistenceResponse = s.persistenceResponse
  nextMessageId : s.nextMessageId ≤ s'.nextMessageId

/-- The log stays as it is, and no entry goes to the disk. -/
structure KeepsEntries (s s' : SharedState) : Prop extends LogFrame s s' where
  log : s'.replicationLog = s.replicationLog
  tasks : ∃ votes, s'.persistenceWork = s.persistenceWork ++ votes ∧ ∀ task ∈ votes, task.isVote
  waiting : FewerWaiting s s'

/-- The entry of a request is appended and goes to the disk, and its answer waits. -/
structure StoresEntry (request : LocalAppendEntries) (callback : Callback) (entry : LogEntry)
    (owned : OwnedLogEntry) (s s' : SharedState) : Prop extends LogFrame s s' where
  log : s'.replicationLog = s.replicationLog ++ [owned]
  tasks : s'.persistenceWork =
    s.persistenceWork ++ [.appendLog s.nextMessageId (.message owned) request.requestId]
  data : entry.data = .message owned
  next : s.nextMessageId < s'.nextMessageId
  waiting : ∀ id, appendLogOf s'.outstandingMessages id =
    if id = s.nextMessageId then some callback else appendLogOf s.outstandingMessages id

/-- A leader appends an entry that goes to the disk under a new id. -/
structure AppendsOwn (owned : OwnedLogEntry) (s s' : SharedState) : Prop
    extends LogFrame s s' where
  log : s'.replicationLog = s.replicationLog ++ [owned]
  tasks : ∃ id, s.nextMessageId ≤ id ∧ id < s'.nextMessageId ∧
    s'.persistenceWork = s.persistenceWork ++ [.appendLog id (.message owned) id]
  waiting : FewerWaiting s s'

/-- The log is cut to a shorter length, on disk as well. -/
structure Truncates (targetLength : ℕ) (s s' : SharedState) : Prop extends LogFrame s s' where
  shorter : targetLength < s.replicationLog.length
  log : s'.replicationLog = s.replicationLog.take targetLength
  tasks : s'.persistenceWork = s.persistenceWork ++ [.truncateLog targetLength]
  waiting : FewerWaiting s s'

theorem LogFrame.of_eq (hopen : s'.persistenceOpen = s.persistenceOpen)
    (hresponse : s'.persistenceResponse = s.persistenceResponse)
    (hnext : s'.nextMessageId = s.nextMessageId) : LogFrame s s' :=
  ⟨hopen, hresponse, hnext.ge⟩

/-- A step that touches none of the fields concerned. -/
theorem KeepsEntries.of_eq (frame : LogFrame s s') (hlog : s'.replicationLog = s.replicationLog)
    (hwork : s'.persistenceWork = s.persistenceWork) (hwait : FewerWaiting s s') :
    KeepsEntries s s' :=
  ⟨frame, hlog, ⟨[], by rw [hwork, List.append_nil], by simp⟩, hwait⟩

/-- An answer counts if it is `ok`. -/
@[simp] theorem okAnswers_answer (s : SharedState) (callback : Callback)
    (response : LocalAppendEntriesCallbackResponse) :
    okAnswers (s.answer callback response) =
      okAnswers s ++ if response = .ok then [callback] else [] := by
  unfold okAnswers
  rw [answer_callbackResponses, List.filterMap_append]
  congr 1
  by_cases h : response = .ok
  · simp [h]
  · simp [h]

theorem okAnswers_congr (h : s'.callbackResponses = s.callbackResponses) :
    okAnswers s' = okAnswers s := by
  unfold okAnswers
  rw [h]

/-! ## AppendEntries -/

/-- `Recognises request s`: a follower takes the sender of the request for its leader. -/
def Follower.Recognises (request : LocalAppendEntries) (s : SharedState) : Prop :=
  s.currentTerm < request.term ∨ request.leaderId = s.leaderId

instance (request : LocalAppendEntries) (s : SharedState) :
    Decidable (Follower.Recognises request s) :=
  inferInstanceAs (Decidable (_ ∨ _))

/-- A request with an entry that would be answered `Ok` is one whose entry is stored: the
branches that answer `Ok` at once are not taken with an entry. -/
def AcksOnlyStored (sm : StateMachine) (request : LocalAppendEntries) : Prop :=
  request.entry.isSome → ValidAppendEntries request sm.shared →
    match sm.delegate with
    | .follower _ => request.leaderId = sm.shared.leaderId →
        sm.shared.currentTerm < request.term ∨ request.requestId ≠ 0
    | .candidate _ => request.term < sm.shared.currentTerm
    | .leader _ => request.term ≤ sm.shared.currentTerm

/-- What an AppendEntries request does to the entries. -/
inductive HandlesEntry (request : LocalAppendEntries) (callback : Callback)
    (s s' : SharedState) : Prop
  | keeps (keep : KeepsEntries s s') (answers : okAnswers s' = okAnswers s)
  | acknowledges (keep : KeepsEntries s s') (answers : okAnswers s' = okAnswers s ++ [callback])
      (empty : request.entry = none)
  | stores (entry : LogEntry) (owned : OwnedLogEntry) (store : StoresEntry request callback entry owned s s')
      (answers : okAnswers s' = okAnswers s) (carried : request.entry = some entry)
      (valid : ValidAppendEntries request s) (recognised : Follower.Recognises request s)

theorem KeepsEntries.refl (s : SharedState) : KeepsEntries s s :=
  .of_eq (.of_eq rfl rfl rfl) rfl rfl (.of_eq rfl)

/-- A request is answered. -/
theorem KeepsEntries.answer (h : KeepsEntries s s₁) (callback : Callback)
    (response : LocalAppendEntriesCallbackResponse) :
    KeepsEntries s (s₁.answer callback response) :=
  ⟨⟨h.persistenceOpen, h.persistenceResponse, h.nextMessageId⟩, h.log, h.tasks, h.waiting⟩

/-- A request that is answered with a refusal alone. -/
theorem HandlesEntry.refused {request : LocalAppendEntries} {callback : Callback}
    (hkeep : KeepsEntries s s₁) (hanswers : s₁.callbackResponses = s.callbackResponses)
    {response : LocalAppendEntriesCallbackResponse} (hok : response ≠ .ok) :
    HandlesEntry request callback s (s₁.answer callback response) := by
  refine .keeps (hkeep.answer callback response) ?_
  rw [okAnswers_answer, if_neg hok, List.append_nil, okAnswers_congr hanswers]

/-- A request without an entry that is answered `Ok`. -/
theorem HandlesEntry.acknowledged {request : LocalAppendEntries} {callback : Callback}
    (hkeep : KeepsEntries s s₁) (hanswers : s₁.callbackResponses = s.callbackResponses)
    (hempty : request.entry = none) : HandlesEntry request callback s (s₁.answer callback .ok) := by
  refine .acknowledges (hkeep.answer callback .ok) ?_ hempty
  rw [okAnswers_answer, if_pos rfl, okAnswers_congr hanswers]

section Receives

variable {role : RaftNodeType} {request : LocalAppendEntries} {callback : Callback}
  {s s₁ s' : SharedState}

/-- Taking the sender of a request for the leader. -/
theorem Heeds.keepsEntries (h : Heeds role request s s₁) : KeepsEntries s s₁ := by
  obtain ⟨⟨⟨⟨-, -, hopen, hpersisted, -⟩, -, -, -, hlog⟩, hwork, -, -, hmessages⟩, -, hnext⟩ :=
    h.unchanged
  exact .of_eq ⟨hopen, hpersisted, hnext⟩ hlog hwork (.of_eq hmessages)

/-- The entry of a request is looked at. -/
theorem KeepsEntries.note (h : KeepsEntries s s₁) (request : LocalAppendEntries) :
    KeepsEntries s (Follower.note request s₁) := by
  refine ⟨⟨?_, ?_, ?_⟩, ?_, ?_, h.waiting.trans (.of_eq ?_)⟩
  · simp [h.persistenceOpen]
  · simp [h.persistenceResponse]
  · simp [Nat.le_succ_of_le h.nextMessageId]
  · simp [h.log]
  · simpa using h.tasks
  · simp

/-- **Only a follower stores an entry**, and it stores one that continues its log. -/
theorem Receives.entries (h : Receives role request callback s s') :
    KeepsEntries s s' ∨ ∃ entry owned, role = .follower ∧ request.entry = some entry ∧
      ValidAppendEntries request s ∧ Heard role request s ∧
      StoresEntry request callback entry owned s s' ∧ okAnswers s' = okAnswers s := by
  cases h with
  | unrecognised => exact Or.inl ((KeepsEntries.refl s).answer ..)
  | mismatched hheeds => exact Or.inl (hheeds.keepsEntries.answer ..)
  | acknowledged hheeds => exact Or.inl (hheeds.keepsEntries.answer ..)
  | adopted =>
    refine Or.inl (KeepsEntries.answer (.of_eq (.of_eq ?_ ?_ ?_) ?_ ?_ (.of_eq ?_)) ..) <;> simp
  | unstored _ hheeds => exact Or.inl ((hheeds.keepsEntries.note request).answer ..)
  | @stored s₁ entry owned hrole hheeds hvalid _ hentry hdata =>
    obtain ⟨⟨⟨⟨-, -, hopen, hpersisted, -⟩, -, -, -, hlog⟩, hwork, -, hanswers, hmessages⟩, -⟩ :=
      hheeds.unchanged
    have hnext := (hheeds.sameTasks (by rw [hrole]; nofun)).2
    have hdata : entry.data = .message owned := by
      rcases hbytes : entry.data with owned' | bytes
      · rw [hbytes] at hdata
        rw [Option.some.inj hdata]
      · rw [hbytes] at hdata
        cases hdata
    refine Or.inr ⟨entry, owned, hrole, hentry, hvalid, hheeds.heard,
      ⟨⟨?_, ?_, ?_⟩, ?_, ?_, hdata, ?_, fun id => ?_⟩, okAnswers_congr (by simp [hanswers])⟩
    · simp [hopen]
    · simp [hpersisted]
    · simp [hnext]
    · simp [hlog]
    · simp [hwork, hdata]
    · simp [hnext]
    · rw [(Follower.store_fields ..).2.2.2.2.1, appendLogOf_insert]
      simp [hmessages]

/-- Only a follower stores entries. -/
theorem keepsEntries_acceptAppendEntries (clock : Clock) (request : LocalAppendEntries)
    (callback : Callback) (sm : StateMachine) (hrole : sm.delegate.nodeType ≠ .follower) :
    KeepsEntries sm.shared (sm.acceptAppendEntries clock request callback).shared :=
  (receives_acceptAppendEntries clock request callback sm).entries.resolve_right
    fun ⟨_, _, hfollower, _⟩ => hrole hfollower

/-- A request that is answered `Ok` at once carries no entry. -/
theorem AcksOnlyStored.entry_eq_none {sm : StateMachine} (hacks : AcksOnlyStored sm request)
    (hvalid : ValidAppendEntries request sm.shared)
    (hheeds : Heeds sm.delegate.nodeType request sm.shared s₁)
    (hquiet : sm.delegate.nodeType = .follower →
      sm.shared.currentTerm < request.term ∧ request.entry = none ∨
        request.requestId = 0 ∧ request.term ≤ sm.shared.currentTerm) :
    request.entry = none := by
  by_contra hentry
  have hsome := hacks (Option.isSome_iff_ne_none.mpr hentry) hvalid
  have hheard := hheeds.heard
  rcases hdelegate : sm.delegate with timer | timeout | initialized
  all_goals rw [hdelegate] at hsome hheeds hquiet hheard
  · rcases hquiet rfl with ⟨-, hnone⟩ | ⟨hid, hterm⟩
    · exact hentry hnone
    · cases hheeds with
      | follows _ _ hleader => exact (hsome hleader).elim (by omega) fun hne => hne hid
      | recognises _ _ hnew => exact absurd (hnew rfl) (by omega)
      | stepsDown hrole => cases hrole
  · exact absurd hheard (Nat.not_le.mpr hsome)
  · exact absurd hheard (Nat.not_lt.mpr hsome)

/-- **What an AppendEntries request does to the entries**, in every role. -/
theorem handlesEntry_acceptAppendEntries (clock : Clock) (request : LocalAppendEntries)
    (callback : Callback) (sm : StateMachine) (hacks : AcksOnlyStored sm request) :
    HandlesEntry request callback sm.shared
      (sm.acceptAppendEntries clock request callback).shared := by
  have hreceives := receives_acceptAppendEntries clock request callback sm
  generalize (sm.acceptAppendEntries clock request callback).shared = s' at hreceives ⊢
  rcases hreceives.entries with
    hkeep | ⟨entry, owned, hrole, hentry, hvalid, hheard, hstore, hanswers⟩
  · cases hreceives with
    | unrecognised => exact .refused (.refl _) rfl nofun
    | mismatched hheeds => exact .refused hheeds.keepsEntries hheeds.unchanged.1.2.2.2.1 nofun
    | acknowledged hheeds hvalid hquiet =>
      exact .acknowledged hheeds.keepsEntries hheeds.unchanged.1.2.2.2.1
        (hacks.entry_eq_none hvalid hheeds fun hrole =>
          (hquiet hrole).imp_right fun h => ⟨h.1, h.2.1.le⟩)
    | adopted hrole hterm hleader hid hvalid =>
      refine .acknowledges hkeep ?_ (hacks.entry_eq_none hvalid (.follows hrole hterm hleader)
        fun _ => Or.inr ⟨hid, hterm⟩)
      simp [okAnswers]
    | unstored _ hheeds =>
      exact .refused (hheeds.keepsEntries.note request) (by simp [hheeds.unchanged.1.2.2.2.1]) nofun
    | stored hrole hheeds =>
      -- the log has grown
      have hlength := congrArg List.length hkeep.log
      simp [hheeds.unchanged.1.1.2.2.2.2] at hlength
  · rw [hrole] at hheard
    exact .stores entry owned hstore hanswers hentry hvalid hheard

end Receives

/-! ## Votes and writes -/

/-- An answer of another kind is no `Ok`. -/
theorem okAnswers_send (s : SharedState) (callback : Callback)
    {payload : LocalRaftResponsePayload} (h : payload ≠ .appendEntries .ok) :
    okAnswers (s.send callback payload) = okAnswers s := by
  simp [okAnswers, h]

/-- A step that keeps the entries and answers no request for an entry. -/
structure Idle (s s' : SharedState) : Prop where
  keep : KeepsEntries s s'
  answers : okAnswers s' = okAnswers s

theorem Idle.refl (s : SharedState) : Idle s s := ⟨.refl s, rfl⟩

/-- No answer is given. -/
theorem Idle.of_keeps (keep : KeepsEntries s s') (h : s'.callbackResponses = s.callbackResponses) :
    Idle s s' :=
  ⟨keep, okAnswers_congr h⟩

/-- Sending an answer of another kind. -/
theorem Idle.send (h : Idle s s₁) (callback : Callback) (payload : LocalRaftResponsePayload)
    (hpayload : payload ≠ .appendEntries .ok) : Idle s (s₁.send callback payload) :=
  ⟨⟨⟨h.keep.persistenceOpen, h.keep.persistenceResponse, h.keep.nextMessageId⟩, h.keep.log,
    h.keep.tasks, h.keep.waiting⟩, (okAnswers_send s₁ callback hpayload).trans h.answers⟩

/-- Registering a message of another kind. -/
theorem Idle.register (h : Idle s s₁) (id : ℕ) (responses : ℤ) (type : OutstandingMessageType)
    (htype : ∀ callback, type ≠ .appendLog callback) : Idle s (s₁.register id responses type) :=
  ⟨⟨⟨h.keep.persistenceOpen, h.keep.persistenceResponse, h.keep.nextMessageId⟩, h.keep.log,
    h.keep.tasks, h.keep.waiting.trans (.of_insert rfl htype)⟩, h.answers⟩

theorem Idle.removeOutstanding (s : SharedState) (id : ℕ) : Idle s (s.removeOutstanding id) :=
  .of_keeps (.of_eq (.of_eq rfl rfl rfl) rfl rfl (.of_erase rfl)) rfl

/-- A vote request hands at most a vote to the disk. -/
theorem Asked.idle {role : RaftNodeType} {request : LocalRequestVoteRequest} {callback : Callback}
    (h : Asked role request callback s s') : Idle s s' := by
  cases h with
  | refused =>
    refine Idle.send (.of_keeps (.of_eq (.of_eq ?_ ?_ ?_) ?_ ?_ (.of_eq ?_)) ?_) callback _ (by simp)
      <;> rfl
  | registered =>
    refine Idle.register (.of_keeps (.of_eq ⟨?_, ?_, Nat.le_succ s.nextMessageId⟩ ?_ ?_
      (.of_eq ?_)) ?_) _ 1 (.requestVote callback) (by simp) <;> rfl
  | cast =>
    refine Idle.register (.of_keeps ⟨⟨?_, ?_, Nat.le_succ s.nextMessageId⟩, ?_,
      ⟨[.appendVote s.nextMessageId request.term request.candidateId], ?_,
        by simp [PersistenceTaskType.isVote]⟩, .of_eq ?_⟩ ?_) _ 1 (.requestVote callback)
      (by simp) <;> rfl

/-- A leader appends an entry in a state that agrees with `s` on the log. -/
theorem Leader.appendsOwn_appendOwn {id : ℕ} (idx timestamp : ℕ) (commands : List PutRequest)
    {type : OutstandingMessageType} (hframe : LogFrame s s₁) (hopen : s.persistenceOpen = true)
    (hlog : s₁.replicationLog = s.replicationLog) (hwork : s₁.persistenceWork = s.persistenceWork)
    (hmessages : s₁.outstandingMessages = s.outstandingMessages) (hid : s.nextMessageId ≤ id)
    (hlt : id < s₁.nextMessageId) (htype : ∀ callback, type ≠ .appendLog callback) :
    AppendsOwn (Leader.buildLogEntry s₁ idx id timestamp commands) s
      (Leader.appendOwn type idx id timestamp commands s₁) := by
  have hopen₁ : s₁.persistenceOpen = true := hframe.persistenceOpen.trans hopen
  refine ⟨⟨?_, ?_, ?_⟩, ?_, ⟨id, hid, ?_, ?_⟩, ?_⟩
  · simp [hframe.persistenceOpen]
  · simp [hframe.persistenceResponse]
  · simp [hframe.nextMessageId]
  · simp [hlog]
  · simp [hlt]
  · simp [hwork, hopen₁]
  · exact .of_insert ((Leader.appendOwn_fields ..).2.2.2.2.2.2.2.trans (by rw [hmessages])) htype

/-- **A write**: refused, or appended to the log of a leader. -/
theorem acceptWriteBatch_log (clock : Clock) (batch : OwnedWriteBatch) (callback : Callback)
    (sm : StateMachine) (hopen : sm.shared.persistenceOpen = true) :
    okAnswers (sm.acceptWriteBatch clock batch callback).shared = okAnswers sm.shared ∧
      (KeepsEntries sm.shared (sm.acceptWriteBatch clock batch callback).shared ∨
        ∃ owned, AppendsOwn owned sm.shared (sm.acceptWriteBatch clock batch callback).shared) := by
  unfold acceptWriteBatch
  split
  · rcases Leader.writeBatch_cases clock batch callback sm.shared with
      ⟨-, h⟩ | ⟨-, -, h⟩ | ⟨-, hclosed, -⟩
    · have hidle : Idle sm.shared { sm.shared with nextMessageId := sm.shared.nextMessageId + 1 } :=
        .of_keeps (.of_eq ⟨rfl, rfl, Nat.le_succ _⟩ rfl rfl (.of_eq rfl)) rfl
      have hrefused := hidle.send callback
        (.writeBatch ⟨.empty, some "Empty write batch request"⟩) (by simp)
      dsimp only
      rw [h]
      exact ⟨hrefused.answers, Or.inl hrefused.keep⟩
    · dsimp only
      rw [h]
      exact ⟨okAnswers_congr (by simp), Or.inr ⟨_, Leader.appendsOwn_appendOwn _ _ _
        ⟨rfl, rfl, Nat.le_succ _⟩ hopen rfl rfl rfl le_rfl (Nat.lt_succ_self _) (by simp)⟩⟩
    · exact absurd hopen (by simp [hclosed])
  · have hrefused := (Idle.refl sm.shared).send callback
      (.writeBatch ⟨.empty, some "Received write batch as non-leader"⟩) (by simp)
    exact ⟨hrefused.answers, Or.inl hrefused.keep⟩

/-- **Taking office** appends the no-op entry. -/
theorem takeOffice_log (clock : Clock) (sm : StateMachine)
    (hopen : sm.shared.persistenceOpen = true) :
    okAnswers (sm.takeOffice clock).shared = okAnswers sm.shared ∧
      (KeepsEntries sm.shared (sm.takeOffice clock).shared ∨
        ∃ owned, AppendsOwn owned sm.shared (sm.takeOffice clock).shared) := by
  unfold takeOffice
  split
  · dsimp only
    rw [Leader.initializeLeadership_eq]
    refine ⟨okAnswers_congr (by simp), Or.inr ⟨_, Leader.appendsOwn_appendOwn _ _ _ ⟨?_, ?_, ?_⟩
      hopen ?_ ?_ ?_ (Nat.le_succ _) ?_ (by simp)⟩⟩ <;> simp
  · exact ⟨rfl, Or.inl (.refl _)⟩

/-! ## Persistence responses -/

/-- A step after which the message that a persisted entry waited for is answered. -/
def AnswersPersisted (response : PersistenceResponseType) (s s' : SharedState) : Prop :=
  ∃ id callback, response = .logPersisted id ∧
    appendLogOf s.outstandingMessages id = some callback ∧
    KeepsEntries s s' ∧ okAnswers s' = okAnswers s ++ [callback] ∧
    appendLogOf s'.outstandingMessages id = none

/-- A leader that commits. -/
theorem Idle.advanceCommitIndex (h : Idle s s₁) (index : ℕ) :
    Idle s (Leader.advanceCommitIndex index s₁) :=
  ⟨⟨⟨by simp [h.keep.persistenceOpen], by simp [h.keep.persistenceResponse],
    by simp [h.keep.nextMessageId]⟩, by simp [h.keep.log], by simpa using h.keep.tasks,
    h.keep.waiting.trans (.of_eq (by simp))⟩, (okAnswers_congr (by simp)).trans h.answers⟩

/-- A message is complete. -/
theorem Idle.complete (h : Idle s s₁) (index : ℕ) (callback : Option Callback) :
    Idle s (Leader.complete index callback s₁) := by
  cases callback with
  | none => exact h.advanceCommitIndex index
  | some callback => exact (h.advanceCommitIndex index).send callback _ (by simp)

/-- A reply answers the request for an entry that has reached the disk, or none. -/
theorem Settles.log {role : RaftNodeType} {reply : Reply} {id : ℕ}
    (h : Settles role reply id s s') :
    Idle s s' ∨ reply = .logPersisted ∧ ∃ callback,
      appendLogOf s.outstandingMessages id = some callback ∧ KeepsEntries s s' ∧
      okAnswers s' = okAnswers s ++ [callback] ∧ appendLogOf s'.outstandingMessages id = none := by
  have hremove := Idle.removeOutstanding s id
  cases h with
  | missing => exact Or.inl (.refl s)
  | @counted poll =>
    refine Or.inl (hremove.register _ _ _ fun callback => ?_)
    rcases poll with _ | ⟨_ | _, _⟩ <;> simp [Poll.messageType]
  | elected => exact Or.inl (.of_keeps (.of_eq (.of_eq rfl rfl rfl) rfl rfl (.of_erase rfl)) rfl)
  | completed => exact Or.inl (hremove.complete _ _)
  | @stored msg callback _ hreply hmsg htype =>
    refine Or.inr ⟨hreply, callback, ?_, hremove.keep.answer callback .ok, ?_, ?_⟩
    · unfold appendLogOf
      obtain ⟨_, _, type⟩ := msg
      subst htype
      rw [hmsg]
    · rw [okAnswers_answer, if_pos rfl]
      rfl
    · rw [answer_outstandingMessages, removeOutstanding_outstandingMessages, appendLogOf_erase,
        if_pos rfl]
  | granted => exact Or.inl (hremove.send _ _ (by simp))
  | passed => exact Or.inl (hremove.send _ _ (by simp))
  | dropped => exact Or.inl hremove

/-- **One persistence response.** -/
theorem handlePersistence_log (response : PersistenceResponseType) (sm : StateMachine) :
    Idle sm.shared (sm.handlePersistence response).shared ∨
      AnswersPersisted response sm.shared (sm.handlePersistence response).shared := by
  refine (settles_handlePersistence response sm).log.imp_right fun ⟨hreply, callback, h⟩ => ?_
  cases response with
  | logPersisted id => exact ⟨id, callback, rfl, h⟩
  | votePersisted id term candidateId => cases hreply

/-! ## Quorum responses and the end of `time_step` -/

/-- A truncation has an effect only on a longer log. -/
theorem Follower.truncateLog_log (prevTerm prevIndex : ℕ) (s : SharedState)
    (hopen : s.persistenceOpen = true) :
    Follower.truncateLog s prevTerm prevIndex = s ∨
      Truncates (prevIndex + 1) s (Follower.truncateLog s prevTerm prevIndex) := by
  rcases Nat.lt_or_ge (prevIndex + 1) s.replicationLog.length with hlt | hle
  · obtain ⟨hlog, -, -, hwork⟩ := Follower.truncateLog_of_lt prevTerm hlt
    rw [if_pos hopen] at hwork
    exact Or.inr ⟨⟨by simp, by simp, by simp⟩, hlt, hlog, hwork, .of_eq (by simp)⟩
  · exact Or.inl (Follower.truncateLog_of_le prevTerm hle)

/-- The response is a truncation that shortens the log of a follower. -/
def TruncatesOn (response : LocalQuorumTaskResponseType) (sm : StateMachine)
    (s' : SharedState) : Prop :=
  ∃ node prevTerm prevIndex, response = .truncateLog node prevTerm prevIndex ∧
    sm.delegate.nodeType = .follower ∧ Truncates (prevIndex + 1) sm.shared s' ∧
    okAnswers s' = okAnswers sm.shared

/-- **One quorum response.** -/
theorem handleQuorum_log (response : LocalQuorumTaskResponseType) (sm : StateMachine)
    (hopen : sm.shared.persistenceOpen = true) :
    Idle sm.shared (sm.handleQuorum response).shared ∨
      TruncatesOn response sm (sm.handleQuorum response).shared := by
  have hsettles := settles_handleQuorum response sm
  generalize (sm.handleQuorum response).shared = s' at hsettles ⊢
  cases hsettles with
  | ignored => exact Or.inl (.refl _)
  | settled hreply h =>
    refine Or.inl (h.log.resolve_right fun hlog => ?_)
    rw [hlog.1] at hreply
    rcases LocalQuorumTaskResponseType.of_reply hreply with
      ⟨-, term, received, -, hvote⟩ | ⟨-, ok, -, hack⟩
    · cases hvote
    · cases hack
  | @truncated node prevTerm prevIndex hrole hresponse =>
    rcases Follower.truncateLog_log prevTerm prevIndex sm.shared hopen with heq | htruncate
    · left
      rw [heq]
      exact .of_keeps (.of_eq (.of_eq rfl rfl rfl) rfl rfl (.of_eq rfl)) rfl
    · right
      refine ⟨node, prevTerm, prevIndex, hresponse, hrole, ?_, okAnswers_congr (by simp)⟩
      exact ⟨⟨htruncate.persistenceOpen, htruncate.persistenceResponse, htruncate.nextMessageId⟩,
        htruncate.shorter, htruncate.log, htruncate.tasks, htruncate.waiting⟩

/-- An election. -/
theorem Candidate.idle_startElection (s : SharedState) : Idle s (Candidate.startElection s) := by
  refine .of_keeps ⟨⟨by simp, by simp, by simp⟩, by simp, ⟨Candidate.ownVote s, by simp, ?_⟩,
    .of_insert (by simp; rfl) (by simp)⟩ (by simp)
  unfold Candidate.ownVote
  split_ifs <;> simp [PersistenceTaskType.isVote]

/-- A broadcast that had been deferred. -/
theorem Idle.retryDeferredBroadcast (h : Idle s s₁) : Idle s s₁.retryDeferredBroadcast :=
  ⟨⟨⟨by simp [h.keep.persistenceOpen], by simp [h.keep.persistenceResponse],
    by simp [h.keep.nextMessageId]⟩, by simp [h.keep.log], by simpa using h.keep.tasks,
    h.keep.waiting.trans (.of_eq (by simp))⟩, (okAnswers_congr (by simp)).trans h.answers⟩

/-- The repairs of a leader. -/
theorem idle_handleBackfillRequests (requests : List (ℕ × ℕ × ℕ)) (s : SharedState) :
    Idle s (handleBackfillRequests requests s) :=
  .of_keeps (.of_eq ⟨by simp, by simp, nextMessageId_le_handleBackfillRequests requests s⟩ (by simp)
    (by simp) (.of_eq (by simp))) (by simp)

/-- **The end of `time_step`.** -/
theorem idle_finish (clock : Clock) (sm : StateMachine) :
    Idle sm.shared (sm.finish clock).shared := by
  unfold StateMachine.finish
  split
  · exact (Idle.refl _).retryDeferredBroadcast
  · split_ifs
    · exact (Candidate.idle_startElection _).retryDeferredBroadcast
    · exact (Idle.refl _).retryDeferredBroadcast
  · exact (idle_handleBackfillRequests _ _).retryDeferredBroadcast
  · exact .refl _

end Kraft
