/-
# The way of a vote

A vote passes through several stations.  `AppendVote` hands it to the persistence worker,
which writes a row of `votes.csv` and reports `VotePersisted`; the report is matched by its
message id with a registered request and answered on the request's callback.  On the other
side a candidate counts the answers under the message id of its election.

Message ids are what holds this together, so the development follows the use a process
makes of each of its ids (`IdUse`): an id is taken once, for the vote for a peer, for a
request a follower has only noted, for an election, or for something that is no vote.

* `VoteFrame` : what a handler that answers no vote does to ids, tasks and messages;
* `handlePersistence_ballots`, `handleQuorum_ballots` : what one response does.
-/
import Kraft.NodeVotes

namespace Kraft

open SharedState StateMachine

/-! ## Ids -/

/-- What a message id was taken for. -/
inductive IdUse
  | unused
  /-- the vote for a peer -/
  | vote (callback : Callback) (term candidateId : ℕ)
  /-- a vote request that a follower has registered without voting -/
  | ask (callback : Callback)
  /-- an election of the node -/
  | election (term : ℕ)
  | other

variable {use : ℕ → IdUse} {next next' : ℕ} {first : IdUse} {callback : Callback}
  {s s' s₁ : SharedState} {msg : OutstandingMessage} {role : RaftNodeType} {persistence : Bool}

/-- The kind of an outstanding message agrees with the use of its id. -/
def IdUse.Fits (use : IdUse) (type : OutstandingMessageType) : Prop :=
  match type with
  | .requestVote callback => use = .ask callback ∨ ∃ term c, use = .vote callback term c
  | .candidateElection _ _ => ∃ term, use = .election term
  | .appendLog _ | .writeBatch .. | .noOp .. => use = .other

/-- The vote agrees with the use of its id. -/
def IdUse.FitsVote (use : IdUse) (identity term candidateId : ℕ) : Prop :=
  (∃ callback, use = .vote callback term candidateId) ∨
    (use = .election term ∧ candidateId = identity)

/-- The ids of a task are used for what the task is about. -/
def TaskFits (use : ℕ → IdUse) (identity : ℕ) : PersistenceTaskType → Prop
  | .appendVote id term candidateId => (use id).FitsVote identity term candidateId
  | .appendLog id _ _ => use id = .other
  | .truncateLog _ => True

/-- The same for a response. -/
def ResponseFits (use : ℕ → IdUse) (identity : ℕ) : PersistenceResponseType → Prop
  | .votePersisted id term candidateId => (use id).FitsVote identity term candidateId
  | .logPersisted id => use id = .other

/-- The ids from `next` to `next'` are taken, the first of them for `first`. -/
def takeIds (use : ℕ → IdUse) (next next' : ℕ) (first : IdUse) : ℕ → IdUse := fun id =>
  if id < next then use id
  else if next' ≤ id then .unused
  else if id = next then first
  else .other

/-- Ids taken before keep their use. -/
theorem takeIds_of_lt {id : ℕ} (h : id < next) : takeIds use next next' first id = use id :=
  if_pos h

/-- Ids beyond those taken are unused. -/
theorem takeIds_of_ge {id : ℕ} (hnext : next ≤ next') (h : next' ≤ id) :
    takeIds use next next' first id = .unused := by
  rw [takeIds, if_neg (by omega), if_pos h]

/-- The first id that is taken. -/
theorem takeIds_first (h : next < next') : takeIds use next next' first next = first := by
  rw [takeIds, if_neg (lt_irrefl next), if_neg (Nat.not_le.mpr h), if_pos rfl]

/-! ## Votes on their way -/

/-- The votes reported as persisted. -/
def persistedVotes (responses : List PersistenceResponseType) : List (ℕ × ℕ) :=
  responses.filterMap fun
    | .votePersisted _ term candidateId => some (term, candidateId)
    | .logPersisted _ => none

/-- The vote that an answer on a callback grants. -/
def grantOf : Callback × LocalRaftResponsePayload → Option (ℕ × ℕ)
  | (.pending member _ (.vote _ term), .requestVote true) => some (term, member)
  | _ => none

/-- The votes granted and not yet sent. -/
def grantedVotes (answers : List (Callback × LocalRaftResponsePayload)) : List (ℕ × ℕ) :=
  answers.filterMap grantOf

/-- The callbacks on which a vote was granted. -/
def grantedCallbacks (answers : List (Callback × LocalRaftResponsePayload)) : List Callback :=
  answers.filterMap fun answer => if answer.2 = .requestVote true then some answer.1 else none

/-- The rows of `votes.csv` as pairs. -/
def rowVotes (rows : List VoteRow) : List (ℕ × ℕ) :=
  rows.map fun row => (row.term, row.candidateId)

@[simp] theorem persistedVotes_append (r₁ r₂ : List PersistenceResponseType) :
    persistedVotes (r₁ ++ r₂) = persistedVotes r₁ ++ persistedVotes r₂ :=
  List.filterMap_append

@[simp] theorem grantedVotes_append (a₁ a₂ : List (Callback × LocalRaftResponsePayload)) :
    grantedVotes (a₁ ++ a₂) = grantedVotes a₁ ++ grantedVotes a₂ :=
  List.filterMap_append

@[simp] theorem grantedCallbacks_append (a₁ a₂ : List (Callback × LocalRaftResponsePayload)) :
    grantedCallbacks (a₁ ++ a₂) = grantedCallbacks a₁ ++ grantedCallbacks a₂ :=
  List.filterMap_append

/-- The votes in one answer. -/
theorem grantedVotes_singleton (a : Callback × LocalRaftResponsePayload) :
    grantedVotes [a] = (grantOf a).toList := by
  unfold grantedVotes
  rw [List.filterMap_cons, List.filterMap_nil]
  cases grantOf a <;> rfl

/-- Only a granted vote is one. -/
theorem grantOf_eq_none {payload : LocalRaftResponsePayload} (h : payload ≠ .requestVote true) :
    grantOf (callback, payload) = none := by
  unfold grantOf
  split
  · next heq => exact absurd (congrArg Prod.snd heq) h
  · rfl

/-- The callbacks tell which votes were granted. -/
theorem grantedVotes_eq (answers : List (Callback × LocalRaftResponsePayload)) :
    grantedVotes answers =
      (grantedCallbacks answers).filterMap fun callback => grantOf (callback, .requestVote true) := by
  unfold grantedVotes grantedCallbacks
  rw [List.filterMap_filterMap]
  congr 1
  funext ⟨callback, payload⟩
  by_cases hgrant : payload = .requestVote true
  · simp [hgrant]
  · simp [hgrant, grantOf_eq_none hgrant]

/-! ## Handlers that answer no vote -/

/-- A handler takes ids, the first of them for `first`, registers messages and hands out
tasks that fit, and grants no vote. -/
structure VoteFrame (first : IdUse) (s s' : SharedState) : Prop where
  identity : s'.identity = s.identity
  quorumSize : s'.quorumSize = s.quorumSize
  persistenceResponse : s'.persistenceResponse = s.persistenceResponse
  quorumResponse : s'.quorumResponse = s.quorumResponse
  grants : grantedCallbacks s'.callbackResponses = grantedCallbacks s.callbackResponses
  nextMessageId : s.nextMessageId ≤ s'.nextMessageId
  messages : ∀ id msg, s'.outstandingMessages.lookup id = some msg →
    s.outstandingMessages.lookup id = some msg ∨
      (s.nextMessageId ≤ id ∧ ∀ use, (takeIds use s.nextMessageId s'.nextMessageId first id).Fits
        msg.messageType) ∧
        ∀ done votes, msg.messageType = .candidateElection done votes → done = false ∧ votes = 1
  tasks : ∃ new, s'.persistenceWork = s.persistenceWork ++ new ∧ ∀ task ∈ new, ∀ use,
    TaskFits (takeIds use s.nextMessageId s'.nextMessageId first) s.identity task

namespace VoteFrame

/-- Nothing concerned changes. -/
theorem of_eq (hsetup : s.SameSetup s')
    (hgrants : grantedCallbacks s'.callbackResponses = grantedCallbacks s.callbackResponses)
    (hnext : s.nextMessageId ≤ s'.nextMessageId)
    (hmessages : s'.outstandingMessages = s.outstandingMessages)
    (hwork : s'.persistenceWork = s.persistenceWork) : VoteFrame first s s' :=
  ⟨hsetup.1, hsetup.2.1, hsetup.2.2.2.1, hsetup.2.2.2.2, hgrants, hnext,
    fun _ _ h => Or.inl (hmessages ▸ h), [], by rw [hwork, List.append_nil], by simp⟩

theorem refl (first : IdUse) (s : SharedState) : VoteFrame first s s :=
  of_eq (by simp) rfl le_rfl rfl rfl

end VoteFrame

/-- A refused or answered request adds no grant. -/
theorem grantedCallbacks_send (s : SharedState) (callback : Callback)
    {payload : LocalRaftResponsePayload} (h : payload ≠ .requestVote true) :
    grantedCallbacks (s.send callback payload).callbackResponses =
      grantedCallbacks s.callbackResponses := by
  have hnone : grantedCallbacks [(callback, payload)] = [] := by
    simp [grantedCallbacks, h]
  rw [send_callbackResponses, grantedCallbacks_append, hnone, List.append_nil]

/-- The use of an id that was taken. -/
theorem takeIds_taken {id : ℕ} (h : next ≤ id) (h' : id < next') :
    takeIds use next next' first id = if id = next then first else .other := by
  rw [takeIds, if_neg (by omega), if_neg (by omega)]

/-- A message registered under a new id. -/
theorem lookup_insert_cases {messages : HashMap OutstandingMessage} {id id' : ℕ}
    {msg' : OutstandingMessage} (h : (messages.insert id msg).lookup id' = some msg') :
    messages.lookup id' = some msg' ∨ (id' = id ∧ msg' = msg) := by
  by_cases hid : id' = id
  · subst hid
    rw [AList.lookup_insert] at h
    exact Or.inr ⟨rfl, (Option.some.inj h).symm⟩
  · rw [AList.lookup_insert_ne hid] at h
    exact Or.inl h

namespace VoteFrame

/-- One message is registered under the first id taken or under a later one. -/
theorem of_insert {id : ℕ} {new : List PersistenceTaskType} (hsetup : s.SameSetup s')
    (hgrants : s'.callbackResponses = s.callbackResponses) (hle : s.nextMessageId ≤ id)
    (hlt : id < s'.nextMessageId)
    (hmessages : s'.outstandingMessages = s.outstandingMessages.insert id msg)
    (hfits : (if id = s.nextMessageId then first else .other).Fits msg.messageType)
    (hinitial : ∀ done votes, msg.messageType = .candidateElection done votes →
      done = false ∧ votes = 1) (hwork : s'.persistenceWork = s.persistenceWork ++ new)
    (htasks : ∀ task ∈ new, ∀ use,
      use id = (if id = s.nextMessageId then first else .other) → TaskFits use s.identity task) :
    VoteFrame first s s' := by
  refine ⟨hsetup.1, hsetup.2.1, hsetup.2.2.2.1, hsetup.2.2.2.2, by rw [hgrants], hle.trans hlt.le,
    fun id' msg' hlookup => ?_, new, hwork, fun task hmem use => ?_⟩
  · rw [hmessages] at hlookup
    rcases lookup_insert_cases hlookup with hold | ⟨rfl, rfl⟩
    · exact Or.inl hold
    · exact Or.inr ⟨⟨hle, fun use => by rwa [takeIds_taken hle hlt]⟩, hinitial⟩
  · exact htasks task hmem _ (takeIds_taken hle hlt)

/-- A deferred broadcast concerns no vote. -/
theorem retryDeferredBroadcast (h : VoteFrame first s s₁) :
    VoteFrame first s s₁.retryDeferredBroadcast := by
  obtain ⟨new, hwork, htasks⟩ := h.tasks
  refine ⟨by simp [h.identity], by simp [h.quorumSize], by simp [h.persistenceResponse],
    by simp [h.quorumResponse], by simp [h.grants], by simp [h.nextMessageId], ?_, new,
    by simp [hwork], by simpa using htasks⟩
  simpa using h.messages

end VoteFrame

/-- An AppendEntries request that is answered at once. -/
theorem voteFrame_answer (h : VoteFrame first s s₁) (callback : Callback)
    (response : LocalAppendEntriesCallbackResponse) :
    VoteFrame first s (s₁.answer callback response) :=
  ⟨h.identity, h.quorumSize, h.persistenceResponse, h.quorumResponse,
    (grantedCallbacks_send s₁ callback (by simp)).trans h.grants, h.nextMessageId, h.messages, h.tasks⟩

/-- Taking the sender of a request for the leader. -/
theorem Heeds.voteFrame {request : LocalAppendEntries} (h : Heeds role request s s₁) :
    VoteFrame .other s s₁ := by
  obtain ⟨⟨⟨hsetup, -⟩, hwork, -, hanswers, hmessages⟩, -, hnext⟩ := h.unchanged
  exact .of_eq hsetup (by rw [hanswers]) hnext hmessages hwork

/-- **An AppendEntries request** takes its id for no vote. -/
theorem Receives.voteFrame {request : LocalAppendEntries}
    (h : Receives role request callback s s') : VoteFrame .other s s' := by
  cases h with
  | unrecognised => exact voteFrame_answer (.refl _ _) callback _
  | mismatched hheeds => exact voteFrame_answer hheeds.voteFrame callback _
  | acknowledged hheeds => exact voteFrame_answer hheeds.voteFrame callback _
  | adopted =>
    refine voteFrame_answer (.of_eq ?_ ?_ ?_ ?_ ?_) callback _ <;> simp
  | unstored _ hheeds =>
    obtain ⟨⟨⟨hsetup, -⟩, hwork, -, hanswers, hmessages⟩, -, hnext⟩ := hheeds.unchanged
    refine voteFrame_answer (.of_eq ?_ ?_ ?_ ?_ ?_) callback _ <;> simp [*]
    omega
  | stored hrole hheeds =>
    obtain ⟨⟨⟨hsetup, -⟩, hwork, -, hanswers, hmessages⟩, -⟩ := hheeds.unchanged
    have hnext := (hheeds.sameTasks (by rw [hrole]; nofun)).2
    refine .of_insert (by simp [hsetup]) (by simp [hanswers]) le_rfl (by simp [hnext])
      (by simp [hmessages]; rfl) (by simp [IdUse.Fits]) (by simp) (by simp [hwork]; rfl) ?_
    intro task hmem use huse
    obtain rfl := List.mem_singleton.mp hmem
    simpa [TaskFits] using huse

/-- **A RequestVote request**: a follower that accepts it only registers it, the other roles
vote. -/
theorem Asked.voteFrame {request : LocalRequestVoteRequest} (h : Asked role request callback s s') :
    VoteFrame (if role = .follower then .ask callback
      else .vote callback request.term request.candidateId) s s' := by
  cases h with
  | registered hrole =>
    rw [if_pos hrole]
    exact .of_insert ⟨rfl, rfl, rfl, rfl, rfl⟩ rfl le_rfl (Nat.lt_succ_self _) rfl
      (by rw [if_pos rfl]; exact Or.inl rfl) (by simp) (List.append_nil _).symm (by simp)
  | cast hrole =>
    rw [if_neg hrole]
    refine .of_insert ⟨rfl, rfl, rfl, rfl, rfl⟩ rfl le_rfl (Nat.lt_succ_self _) rfl
      (by rw [if_pos rfl]; exact Or.inr ⟨_, _, rfl⟩) (by simp) rfl ?_
    intro task hmem use huse
    obtain rfl := List.mem_singleton.mp hmem
    rw [if_pos rfl] at huse
    exact Or.inl ⟨callback, huse⟩
  | refused =>
    exact .of_eq (by simp) (grantedCallbacks_send s callback (by simp)) le_rfl rfl rfl

/-- Starting an election. -/
theorem Candidate.voteFrame_startElection (s : SharedState) :
    VoteFrame (.election s.nextTerm) s (Candidate.startElection s) := by
  have hfits : (if s.nextMessageId = s.nextMessageId then IdUse.election s.nextTerm
      else .other).Fits (.candidateElection false 1) := by
    rw [if_pos rfl]
    exact ⟨_, rfl⟩
  have hinitial : ∀ done votes, OutstandingMessageType.candidateElection false 1 =
      .candidateElection done votes → done = false ∧ votes = 1 := by
    intro done votes heq
    injection heq with hdone hvotes
    exact ⟨hdone.symm, hvotes.symm⟩
  refine .of_insert (by simp) (by simp) le_rfl (by simp) (by simp; rfl) hfits hinitial
    (by simp; rfl) fun task hmem use huse => ?_
  rw [if_pos rfl] at huse
  unfold Candidate.ownVote at hmem
  split_ifs at hmem
  · obtain rfl := List.mem_singleton.mp hmem
    exact Or.inr ⟨huse, rfl⟩
  · cases hmem

/-- A leader appends an entry under an id it has taken. -/
theorem Leader.voteFrame_appendOwn (idx timestamp : ℕ) {id : ℕ} (commands : List PutRequest)
    {type : OutstandingMessageType} (hsetup : s.SameSetup s₁)
    (hanswers : s₁.callbackResponses = s.callbackResponses) (hle : s.nextMessageId ≤ id)
    (hlt : id < s₁.nextMessageId) (hmessages : s₁.outstandingMessages = s.outstandingMessages)
    (htype : IdUse.other.Fits type) (hno : ∀ done votes, type ≠ .candidateElection done votes)
    (hwork : s₁.persistenceWork = s.persistenceWork) :
    VoteFrame .other s (Leader.appendOwn type idx id timestamp commands s₁) := by
  refine .of_insert (by simp [hsetup]) (by simp [hanswers]) hle (by simpa using hlt)
    (by simp [hmessages]; rfl)
    (by rwa [ite_self]) (fun done votes heq => absurd heq (hno done votes))
    (by simp [hwork]; rfl) fun task hmem use huse => ?_
  rw [ite_self] at huse
  split_ifs at hmem
  · obtain rfl := List.mem_singleton.mp hmem
    exact huse
  · cases hmem

/-- A batch of writes takes an id for its entry. -/
theorem Leader.voteFrame_writeBatch (clock : Clock) (batch : OwnedWriteBatch)
    (callback : Callback) (s : SharedState) :
    VoteFrame .other s (Leader.writeBatch clock batch callback s) := by
  rcases Leader.writeBatch_cases clock batch callback s with ⟨-, h⟩ | ⟨-, -, h⟩ | ⟨-, -, h⟩
  · rw [h]
    exact .of_eq (by simp) (grantedCallbacks_send _ callback (by simp)) (Nat.le_succ _) rfl rfl
  · rw [h]
    exact Leader.voteFrame_appendOwn _ _ _ ⟨rfl, rfl, rfl, rfl, rfl⟩ rfl le_rfl
      (Nat.lt_succ_self _) rfl rfl nofun rfl
  · rw [h]
    exact .of_eq (by simp) (grantedCallbacks_send _ callback (by simp)) (Nat.le_succ _) rfl rfl

/-- So does the no-op entry of a leader. -/
theorem Leader.voteFrame_initializeLeadership (clock : Clock) (s : SharedState) :
    VoteFrame .other s (Leader.initializeLeadership clock s) := by
  rw [Leader.initializeLeadership_eq]
  exact Leader.voteFrame_appendOwn _ _ _ (by simp) (by simp) (Nat.le_succ _) (by simp) (by simp)
    rfl nofun (by simp)

/-- Repairs concern no vote. -/
theorem voteFrame_handleBackfillRequests (requests : List (ℕ × ℕ × ℕ)) (s : SharedState) :
    VoteFrame .other s (handleBackfillRequests requests s) :=
  .of_eq (by simp) (by simp) (nextMessageId_le_handleBackfillRequests requests s) (by simp)
    (by simp)

/-- **A request**, in every role; a vote is one for the sender of the request. -/
theorem voteFrame_accept (clock : Clock) (message : LocalRaftMessage) (sm : StateMachine) :
    ∃ first, VoteFrame first sm.shared (sm.accept clock message).shared ∧
      (∀ callback term c, first = .vote callback term c → message.callback = callback ∧
        ∃ request, message.payload = .requestVote request ∧ request.term = term ∧
          request.candidateId = c) ∧
      ∀ term, first ≠ .election term := by
  obtain ⟨payload, callback⟩ := message
  unfold StateMachine.accept
  cases payload with
  | requestVote request =>
    refine ⟨_, (asked_acceptRequestVote request callback sm).voteFrame, fun callback' term c heq => ?_,
      fun term heq => ?_⟩
    · split_ifs at heq
      injection heq with hcallback hterm hc
      exact ⟨hcallback, request, rfl, hterm, hc⟩
    · split_ifs at heq
  | appendEntries request =>
    exact ⟨.other, (receives_acceptAppendEntries clock request callback sm).voteFrame,
      by rintro _ _ _ ⟨⟩, by rintro _ ⟨⟩⟩
  | getRaftState =>
    refine ⟨.other, ?_, by rintro _ _ _ ⟨⟩, by rintro _ ⟨⟩⟩
    exact .of_eq (by simp) (grantedCallbacks_send sm.shared callback (by simp)) le_rfl rfl rfl
  | writeBatch batch =>
    refine ⟨.other, ?_, by rintro _ _ _ ⟨⟩, by rintro _ ⟨⟩⟩
    unfold StateMachine.acceptWriteBatch
    dsimp only
    split
    · exact Leader.voteFrame_writeBatch clock batch callback sm.shared
    · exact .of_eq (by simp) (grantedCallbacks_send sm.shared callback (by simp)) le_rfl rfl rfl

/-- A node takes office. -/
theorem voteFrame_takeOffice (clock : Clock) (sm : StateMachine) :
    VoteFrame .other sm.shared (sm.takeOffice clock).shared := by
  unfold StateMachine.takeOffice
  split
  · exact Leader.voteFrame_initializeLeadership clock sm.shared
  · exact .refl _ _

/-- **The end of `time_step`**: an election takes the next id. -/
theorem voteFrame_finish (clock : Clock) (sm : StateMachine) :
    ∃ first, VoteFrame first sm.shared (sm.finish clock).shared ∧
      (∀ callback term c, first ≠ .vote callback term c) ∧
      (sm.startsElection clock .finish = true → first = .election sm.shared.nextTerm ∧
        sm.shared.nextMessageId < (sm.finish clock).shared.nextMessageId) ∧
      ∀ term, first = .election term → sm.startsElection clock .finish = true ∧
        term = sm.shared.nextTerm ∧ (sm.finish clock).shared.termVotes.lookup term ≠ none := by
  have hturns := turns_runPart clock .finish sm
  change Turns clock sm .finish (sm.finish clock).shared at hturns
  generalize (sm.finish clock).shared = s' at hturns ⊢
  cases hturns with
  | settled hpart => simp at hpart
  | stood hstarts =>
    refine ⟨_, (Candidate.voteFrame_startElection _).retryDeferredBroadcast,
      fun _ _ _ heq => (nomatch heq), fun _ => ⟨rfl, by simp⟩, fun term heq => ?_⟩
    obtain rfl := IdUse.election.inj heq
    exact ⟨hstarts, rfl, by simp⟩
  | idle hno =>
    exact ⟨.other, .refl _ _, fun _ _ _ heq => (nomatch heq), by simp [hno], fun _ heq => nomatch heq⟩
  | retried hno =>
    exact ⟨.other, (VoteFrame.refl _ _).retryDeferredBroadcast, fun _ _ _ heq => (nomatch heq),
      by simp [hno], fun _ heq => nomatch heq⟩
  | repaired hrole =>
    exact ⟨.other, (voteFrame_handleBackfillRequests _ _).retryDeferredBroadcast,
      fun _ _ _ heq => (nomatch heq), by simp [startsElection_of_role sm (by rw [hrole]; simp) clock],
      fun _ heq => nomatch heq⟩

/-! ## One response -/

/-- The messages of `s'` are messages of `s`, up to the counters of a write or a no-op
entry. -/
def KeepsKinds (s s' : SharedState) : Prop :=
  ∀ id msg, s'.outstandingMessages.lookup id = some msg →
    ∃ old, s.outstandingMessages.lookup id = some old ∧
      (old = msg ∨ IdUse.other.Fits old.messageType ∧ IdUse.other.Fits msg.messageType)

/-- What a response leaves alone. -/
structure ResponseFrame (s s' : SharedState) : Prop where
  identity : s'.identity = s.identity
  quorumSize : s'.quorumSize = s.quorumSize
  termVotes : s'.termVotes = s.termVotes
  nextMessageId : s'.nextMessageId = s.nextMessageId
  persistenceResponse : s'.persistenceResponse = s.persistenceResponse
  quorumResponse : s'.quorumResponse = s.quorumResponse
  tasks : ∃ new, s'.persistenceWork = s.persistenceWork ++ new ∧
    ∀ task ∈ new, ∃ target, task = .truncateLog target

/-- What a response for the message `id` does to the votes: nothing, a vote is granted,
which only a persistence response does, or the counters of an undecided election move on by
`count`. -/
inductive BallotStep (persistence : Bool) (id : ℕ) (count : Bool × ℕ → Bool × ℕ) (s s' : SharedState) : Prop
  | idle (grants : grantedCallbacks s'.callbackResponses = grantedCallbacks s.callbackResponses)
      (messages : KeepsKinds s s')
  | grants (msg : OutstandingMessage) (callback : Callback) (isPersistence : persistence = true)
      (registered : s.outstandingMessages.lookup id = some msg)
      (type : msg.messageType = .requestVote callback)
      (grants : grantedCallbacks s'.callbackResponses = grantedCallbacks s.callbackResponses ++ [callback])
      (messages : KeepsKinds s s')
  | counts (tally : Bool × ℕ) (election : electionOf s.outstandingMessages id = some tally)
      (undecided : ¬ (s.quorumSize ≤ (count tally).2 ∧ (count tally).1 = true))
      (grants : grantedCallbacks s'.callbackResponses = grantedCallbacks s.callbackResponses)
      (messages : ∀ id' msg, s'.outstandingMessages.lookup id' = some msg →
        (id' ≠ id ∧ s.outstandingMessages.lookup id' = some msg) ∨
          (id' = id ∧ msg.messageType = .candidateElection (count tally).1 (count tally).2))

/-- No message is added. -/
theorem KeepsKinds.of_fewer
    (h : ∀ id msg, s'.outstandingMessages.lookup id = some msg →
      s.outstandingMessages.lookup id = some msg) : KeepsKinds s s' :=
  fun id msg hlookup => ⟨msg, h id msg hlookup, Or.inl rfl⟩

theorem KeepsKinds.of_erase {id : ℕ} (h : s'.outstandingMessages = s.outstandingMessages.erase id) :
    KeepsKinds s s' :=
  .of_fewer fun _ _ hlookup => (HashMap.lookup_of_erase (h ▸ hlookup)).2

/-- A write or no-op is registered again with other counters. -/
theorem KeepsKinds.of_register {id : ℕ} {old new : OutstandingMessage}
    (hold : s.outstandingMessages.lookup id = some old)
    (h : s'.outstandingMessages = (s.outstandingMessages.erase id).insert id new)
    (hkind : IdUse.other.Fits old.messageType) (hkind' : IdUse.other.Fits new.messageType) :
    KeepsKinds s s' := by
  intro id' msg hlookup
  rw [h] at hlookup
  rcases lookup_insert_cases hlookup with hlookup | ⟨rfl, rfl⟩
  · exact ⟨msg, (HashMap.lookup_of_erase hlookup).2, Or.inl rfl⟩
  · exact ⟨old, hold, Or.inr ⟨hkind, hkind'⟩⟩

/-- An election is registered again. -/
theorem BallotStep.of_register {id : ℕ} {count : Bool × ℕ → Bool × ℕ} {old : OutstandingMessage}
    (tally : Bool × ℕ) {responses : ℤ} (hold : s.outstandingMessages.lookup id = some old)
    (htype : old.messageType = .candidateElection tally.1 tally.2)
    (hundecided : ¬ (s.quorumSize ≤ (count tally).2 ∧ (count tally).1 = true))
    (hanswers : s'.callbackResponses = s.callbackResponses)
    (h : s'.outstandingMessages = (s.outstandingMessages.erase id).insert id
      ⟨id, responses, .candidateElection (count tally).1 (count tally).2⟩) :
    BallotStep persistence id count s s' := by
  refine .counts tally ?_ hundecided (by rw [hanswers]) fun id' msg hlookup => ?_
  · unfold electionOf
    obtain ⟨_, _, type⟩ := old
    subst htype
    rw [hold]
  · rw [h] at hlookup
    rcases lookup_insert_cases hlookup with hlookup | ⟨rfl, rfl⟩
    · exact Or.inl (HashMap.lookup_of_erase hlookup)
    · exact Or.inr ⟨rfl, rfl⟩

/-- A registered message is removed. -/
theorem BallotStep.of_erase {id id' : ℕ} {count : Bool × ℕ → Bool × ℕ}
    (hanswers : s'.callbackResponses = s.callbackResponses)
    (h : s'.outstandingMessages = s.outstandingMessages.erase id') :
    BallotStep persistence id count s s' :=
  .idle (by rw [hanswers]) (.of_erase h)

theorem BallotStep.refl (id : ℕ) (count : Bool × ℕ → Bool × ℕ) (s : SharedState) :
    BallotStep persistence id count s s :=
  .idle rfl (.of_fewer fun _ _ h => h)

/-- A registered vote request is granted. -/
theorem BallotStep.of_grant {id : ℕ} (count : Bool × ℕ → Bool × ℕ)
    (hmsg : s.outstandingMessages.lookup id = some msg)
    (htype : msg.messageType = .requestVote callback) :
    BallotStep true id count s ((s.removeOutstanding id).send callback (.requestVote true)) :=
  .grants msg callback rfl hmsg htype (by
    rw [send_callbackResponses, grantedCallbacks_append, removeOutstanding_callbackResponses]
    rfl) (.of_erase rfl)

/-- A reply to the message `id`; a vote that is received is one for an election. -/
theorem Settles.ballots {reply : Reply} {id : ℕ} {count : Bool × ℕ → Bool × ℕ}
    (h : Settles role reply id s s') (hpersistence : persistence = !reply.toResponse.isAnswer)
    (hcount : reply.role = .candidate → ∀ tally : Bool × ℕ, count tally =
      (tally.1 || !reply.toResponse.isAnswer, tally.2 + reply.toResponse.granted))
    (hreceived : ∀ term, reply = .vote term true → ∀ msg, s.outstandingMessages.lookup id = some msg →
      ∃ done votes, msg.messageType = .candidateElection done votes) :
    BallotStep persistence id count s s' := by
  cases h with
  | missing => exact .refl id count s
  | @counted poll r r' hpoll hreply hrespond =>
    obtain ⟨hrole, number, hmsg⟩ := hpoll
    cases poll with
    | election =>
      obtain ⟨hstored, hgrants, hundecided⟩ := Countdown.Record.of_waiting hrespond
      have htally : count (r.stored, r.grants) = (r'.stored, r'.grants) := by
        rw [hcount (hreply.trans hrole.symm), hstored, hgrants]
      refine .of_register (r.stored, r.grants) hmsg rfl ?_ rfl (by rw [htally]; rfl)
      rwa [htally]
    | entry callback index =>
      refine .idle rfl (.of_register hmsg rfl ?_ ?_) <;> cases callback <;> rfl
  | elected => exact .of_erase rfl rfl
  | @completed callback =>
    refine .idle ?_ (.of_erase (by simp; rfl))
    cases callback with
    | none => simp [Leader.complete, Leader.completeNoop]
    | some callback => exact (grantedCallbacks_send _ callback (by simp)).trans (by simp)
  | stored => exact .idle (grantedCallbacks_send (s.removeOutstanding id) _ (by simp)) (.of_erase rfl)
  | granted hreply hmsg htype =>
    rw [hreply] at hpersistence
    subst hpersistence
    exact .of_grant count hmsg htype
  | @passed msg callback term received hreply hmsg htype =>
    -- a refusal is passed on
    have hrefused : received = false := by
      by_contra htrue
      rw [Bool.not_eq_false] at htrue
      obtain ⟨done, votes, helection⟩ := hreceived term (by rw [hreply, htrue]) msg hmsg
      rw [helection] at htype
      rcases htype with htype | htype <;> cases htype
    refine .idle (grantedCallbacks_send (s.removeOutstanding id) callback ?_) (.of_erase rfl)
    simp [hrefused]
  | dropped => exact .of_erase rfl rfl

/-- **One persistence response.** -/
theorem handlePersistence_ballots (response : PersistenceResponseType) (sm : StateMachine) :
    BallotStep true response.reply.1 (fun tally => (true, tally.2)) sm.shared
      (sm.handlePersistence response).shared := by
  have hsettles := settles_handlePersistence response sm
  cases response with
  | logPersisted id => exact hsettles.ballots rfl nofun nofun
  | votePersisted id term candidateId =>
    refine hsettles.ballots rfl (fun _ tally => ?_) nofun
    show (true, tally.2) = (tally.1 || true, tally.2 + 0)
    simp

/-- How an election counts the answer to a vote request. -/
def countVote (received : Bool) (tally : Bool × ℕ) : Bool × ℕ :=
  (tally.1, if received then tally.2 + 1 else tally.2)

/-- The message id and the way an election counts a quorum response. -/
def LocalQuorumTaskResponseType.count : LocalQuorumTaskResponseType → ℕ × (Bool × ℕ → Bool × ℕ)
  | .requestVoteResponse id _ received => (id, countVote received)
  | .appendEntries id _ => (id, fun tally => tally)
  | _ => (0, fun tally => tally)

/-- **One quorum response.** -/
theorem handleQuorum_ballots (response : LocalQuorumTaskResponseType) (sm : StateMachine)
    (hgranted : ∀ id term, response = .requestVoteResponse id term true → ∀ msg,
      sm.shared.outstandingMessages.lookup id = some msg →
        ∃ done votes, msg.messageType = .candidateElection done votes) :
    BallotStep false response.count.1 response.count.2 sm.shared
      (sm.handleQuorum response).shared := by
  have hsettles := settles_handleQuorum response sm
  generalize (sm.handleQuorum response).shared = s' at hsettles ⊢
  cases hsettles with
  | ignored => exact .refl _ _ _
  | truncated => exact .idle (by simp) (.of_fewer fun id msg h => by simpa using h)
  | settled hreply h =>
    rcases LocalQuorumTaskResponseType.of_reply hreply with
      ⟨-, term, received, rfl, rfl⟩ | ⟨-, ok, rfl, rfl⟩
    · refine h.ballots rfl (fun _ tally => ?_) fun term' hvote => ?_
      · cases received <;> simp [LocalQuorumTaskResponseType.count, countVote, Reply.toResponse,
          Countdown.Response.isAnswer, Countdown.Response.granted]
      · obtain ⟨rfl, rfl⟩ := Reply.vote.inj hvote
        exact hgranted _ _ rfl
    · refine h.ballots rfl (fun hanswer => ?_) fun _ hvote => ?_
      · cases hanswer
      · cases hvote

/-- A reply leaves the rest alone. -/
theorem Settles.responseFrame {reply : Reply} {id : ℕ} (h : Settles role reply id s s') :
    ResponseFrame s s' := by
  obtain ⟨⟨⟨hidentity, hquorum, -, hpersisted, hresponse⟩, -⟩, hwork, hnext, -, hvotes⟩ := h.unchanged
  exact ⟨hidentity, hquorum, hvotes, hnext, hpersisted, hresponse, [],
    by rw [hwork, List.append_nil], by simp⟩

/-- A response of the persistence worker. -/
theorem responseFrame_handlePersistence (response : PersistenceResponseType) (sm : StateMachine) :
    ResponseFrame sm.shared (sm.handlePersistence response).shared :=
  (settles_handlePersistence response sm).responseFrame

/-- A response of a quorum worker. -/
theorem responseFrame_handleQuorum (response : LocalQuorumTaskResponseType) (sm : StateMachine) :
    ResponseFrame sm.shared (sm.handleQuorum response).shared := by
  have hsettles := settles_handleQuorum response sm
  generalize (sm.handleQuorum response).shared = s' at hsettles ⊢
  cases hsettles with
  | ignored => exact ⟨rfl, rfl, rfl, rfl, rfl, rfl, [], by simp, by simp⟩
  | settled _ h => exact h.responseFrame
  | @truncated _ prevTerm prevIndex =>
    obtain ⟨new, hwork, hnew⟩ := Follower.persistenceWork_truncateLog sm.shared prevTerm prevIndex
    exact ⟨by simp, by simp, by simp, by simp, by simp, by simp, new, hwork,
      fun task hmem => ⟨_, hnew task hmem⟩⟩

end Kraft
