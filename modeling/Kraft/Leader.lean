/-
# The leader role

`raft/leader/`: becoming leader, client writes, counting of acknowledgements, and the
repair of followers that answered with the end of another log.
-/
import Kraft.Candidate

namespace Kraft

namespace Leader

/-! ## Appending entries (`write_batch.rs`) -/

/-- The entry the leader builds after its cached end of log. -/
def buildLogEntry (s : SharedState) (idx messageId timestamp : ℕ) (commands : List PutRequest) :
    OwnedLogEntry where
  index := idx
  term := s.currentTerm
  prevLogIndex := s.lastLogIndex
  prevLogTerm := s.lastLogTerm
  messageId := messageId
  timestamp := timestamp
  commands := commands

/-- Appends an entry built by `buildLogEntry` and notes the start of a term. -/
@[simps] def appendEntry (s : SharedState) (entry : OwnedLogEntry) : SharedState :=
  { s with
    replicationLog := s.replicationLog ++ [entry]
    replicationLogTermStarts :=
      if s.lastLogTerm ≠ s.currentTerm then
        s.replicationLogTermStarts.insert s.currentTerm s.replicationLog.length
      else s.replicationLogTermStarts }

/-- `dispatch_to_quorum`. -/
@[simp] def dispatchToQuorum (messageId : ℕ) (entry : OwnedLogEntry) (s : SharedState) : SharedState :=
  s.pushToQuorum (.appendEntries messageId entry s.commitIndex)

/-- `register_outstanding_message` and `register_noop_outstanding_message`. -/
@[simp] def registerOutstanding (messageId : ℕ) (type : OutstandingMessageType) (s : SharedState) :
    SharedState :=
  s.register messageId (1 + s.quorumWorkerTasks.length) type

/-- `update_volatile_state`. -/
@[simps] def updateVolatileState (idx : ℕ) (s : SharedState) : SharedState :=
  { s with lastLogTerm := s.currentTerm, nextLogIndex := idx + 1, lastLogIndex := idx }

/-- The last lines of both appends: the entry goes to the quorum workers, its message is
registered, and the cached end of log moves to it. -/
def announce (idx messageId : ℕ) (entry : OwnedLogEntry) (type : OutstandingMessageType)
    (s : SharedState) : SharedState :=
  updateVolatileState idx (registerOutstanding messageId type (dispatchToQuorum messageId entry s))

/-- `send_error_response`. -/
@[simp] def sendErrorResponse (errorMsg : String) (callback : Callback) (s : SharedState) : SharedState :=
  s.send callback (.writeBatch ⟨.empty, some errorMsg⟩)

/-- `RaftLeaderStateDelegate::write_batch`.  When the persistence channel is closed the
entry stays in the log although the batch is refused. -/
def writeBatch (clock : Clock) (batch : OwnedWriteBatch) (callback : Callback) (s : SharedState) :
    SharedState :=
  let id := s.nextMessageId
  let idx := s.nextLogIndex
  let s := { s with nextMessageId := id + 1 }
  if batch.requests = [] then sendErrorResponse "Empty write batch request" callback s
  else
    let entry := buildLogEntry s idx id clock.now batch.requests
    let s := appendEntry s entry
    if s.persistenceOpen then
      let s := s.persist (.appendLog id entry.asBytes id)
      announce idx id entry (.writeBatch false 0 callback idx) s
    else sendErrorResponse "Failed to queue persistence task" callback s

/-! ## Taking and leaving office (`mod.rs`) -/

/-- The no-op entry of `initialize_leadership`; a closed persistence channel is only
logged. -/
def appendNoop (clock : Clock) (s : SharedState) : SharedState :=
  let id := s.nextMessageId
  let idx := s.nextLogIndex
  let s := { s with nextMessageId := id + 1 }
  let entry := buildLogEntry s idx id clock.now []
  let s := appendEntry s entry
  let s := if s.persistenceOpen then s.persist (.appendLog id entry.asBytes id) else s
  announce idx id entry (.noOp false 0 idx) s

/-- `initialize_leadership`. -/
def initializeLeadership (clock : Clock) (s : SharedState) : SharedState :=
  let id := s.nextMessageId
  let s := { s with nextMessageId := id + 1, nextLogIndex := s.replicationLog.length }
  let s := s.pushToQuorum
    (.startHeartbeats id s.currentTerm s.lastLogTerm s.lastLogIndex s.commitIndex)
  let s := if 0 < s.commitIndex then s.broadcastCommittedEntries s.commitIndex else s
  appendNoop clock s

/-- `handle_new_leader`: as in the candidate, an entry of the request is not stored. -/
def handleNewLeader (request : LocalAppendEntries) (callback : Callback) (s : SharedState) :
    SharedState :=
  let s := s.recogniseLeader request.term request.leaderId
  let id := s.nextMessageId
  let s := { s with nextMessageId := id + 1 }
  let s := s.pushToQuorum (.stopHeartbeats id)
  if ValidAppendEntries request s then s.answer callback .ok
  else s.answerWantedPreviousEntry callback

/-- `RaftLeaderStateDelegate::append_entries`; the flag says whether the node steps
down. -/
def appendEntries (request : LocalAppendEntries) (callback : Callback) (s : SharedState) :
    Bool × SharedState :=
  if s.currentTerm < request.term then (true, handleNewLeader request callback s)
  else (false, s.answer callback .unrecognizedLeader)

/-- `RaftLeaderStateDelegate::request_vote`. -/
def requestVote (request : LocalRequestVoteRequest) (callback : Callback) (s : SharedState) :
    SharedState :=
  s.voteFor request callback

/-! ## Counting acknowledgements (`outstanding.rs`) -/

/-- The commit part of `complete_write_batch` and `complete_noop`. -/
def advanceCommitIndex (index : ℕ) (s : SharedState) : SharedState :=
  if s.commitIndex < index then
    ((s.storeCommitIndex index).broadcastCommittedEntries index).pushToQuorum
      (.updateCommitIndex index)
  else s

/-- `complete_write_batch`. -/
def completeWriteBatch (index : ℕ) (callback : Callback) (s : SharedState) : SharedState :=
  (advanceCommitIndex index s).send callback (.writeBatch ⟨.empty, none⟩)

/-- `complete_noop`. -/
def completeNoop (index : ℕ) (s : SharedState) : SharedState := advanceCommitIndex index s

/-- `handle_log_persisted`. -/
def handleLogPersisted (id : ℕ) (s : SharedState) : SharedState :=
  match s.outstandingMessages.lookup id with
  | some msg =>
    let s := s.removeOutstanding id
    let responses := msg.outstandingResponses - 1
    match msg.messageType with
    | .writeBatch _ quorumAcks callback index =>
      if s.quorumSize ≤ quorumAcks then completeWriteBatch index callback s
      else s.register id responses (.writeBatch true quorumAcks callback index)
    | .requestVote callback => s.send callback (.requestVote true)
    | .noOp _ quorumAcks index =>
      if s.quorumSize ≤ quorumAcks then completeNoop index s
      else s.register id responses (.noOp true quorumAcks index)
    | _ => s
  | none => s

/-- `handle_append_entries_response`. -/
def handleAppendEntriesResponse (id : ℕ) (s : SharedState) : SharedState :=
  match s.outstandingMessages.lookup id with
  | some msg =>
    let s := s.removeOutstanding id
    let responses := msg.outstandingResponses - 1
    match msg.messageType with
    | .writeBatch persistenceDone quorumAcks callback index =>
      if s.quorumSize ≤ quorumAcks + 1 ∧ persistenceDone then completeWriteBatch index callback s
      else if 0 < responses then
        s.register id responses (.writeBatch persistenceDone (quorumAcks + 1) callback index)
      else s
    | .noOp persistenceDone quorumAcks index =>
      if s.quorumSize ≤ quorumAcks + 1 ∧ persistenceDone then completeNoop index s
      else if 0 < responses then
        s.register id responses (.noOp persistenceDone (quorumAcks + 1) index)
      else s
    | _ => s
  | none => s

/-- The body of the loop of `process_persistence_responses`; `VotePersisted` is handled as
in the follower. -/
def handlePersistence (response : PersistenceResponseType) (s : SharedState) : SharedState :=
  match response with
  | .logPersisted id => handleLogPersisted id s
  | .votePersisted id _ _ => Follower.handleVotePersisted id s

/-- The body of the loop of `process_quorum_responses`, except for `BackfillLog`, which is
only noted there. -/
def handleQuorum (response : LocalQuorumTaskResponseType) (s : SharedState) : SharedState :=
  match response with
  | .appendEntries id _ => handleAppendEntriesResponse id s
  | _ => s

/-! ## Repairing followers (`replication.rs`) -/

/-- `get_quorum_worker_index`. -/
def getQuorumWorkerIndex (quorumNodeId identity : ℕ) : ℕ :=
  if quorumNodeId = 0 then 0
  else if identity < quorumNodeId then quorumNodeId - 2
  else quorumNodeId - 1

/-- Pushes a task on one quorum worker's queue. -/
@[simps] def pushToWorker (k : ℕ) (task : LocalQuorumWorkerTaskType) (s : SharedState) : SharedState :=
  { s with quorumWorkerTasks := s.quorumWorkerTasks.modify k (· ++ [task]) }

/-- `send_truncate_signal`. -/
def sendTruncateSignal (quorumNodeId prevTerm lastIndexForTerm : ℕ) (s : SharedState) :
    SharedState :=
  let k := getQuorumWorkerIndex quorumNodeId s.identity
  if k < s.quorumWorkerTasks.length then
    let id := s.nextMessageId
    pushToWorker k (.truncateLog id prevTerm lastIndexForTerm) { s with nextMessageId := id + 1 }
  else s

/-- `handle_follower_ahead`. -/
def handleFollowerAhead (quorumNodeId : ℕ) (s : SharedState) : SharedState :=
  let ourLastIndex := s.replicationLog.length - 1
  let ourLastTerm := (s.replicationLog.getLast?.map (·.term)).getD 0
  sendTruncateSignal quorumNodeId ourLastTerm ourLastIndex s

/-- The backward walk of `handle_term_mismatch`: the last position below `truncateTo` whose
entry has the given term. -/
def findTermBelow (log : List OwnedLogEntry) (term : ℕ) : ℕ → Option ℕ
  | 0 => none
  | truncateTo + 1 =>
    match log[truncateTo]? with
    | some entry => if entry.term = term then some truncateTo else findTermBelow log term truncateTo
    | none => findTermBelow log term truncateTo

/-- `handle_term_mismatch`. -/
def handleTermMismatch (quorumNodeId lastLogTerm lastLogIndex : ℕ) (s : SharedState) :
    SharedState :=
  match findTermBelow s.replicationLog lastLogTerm lastLogIndex with
  | some truncateTo => sendTruncateSignal quorumNodeId lastLogTerm truncateTo s
  | none => sendTruncateSignal quorumNodeId 0 0 s

/-- `send_backfill_data`. -/
def sendBackfillData (quorumNodeId lastLogTerm lastLogIndex : ℕ) (s : SharedState) :
    SharedState :=
  let startIndex := if lastLogTerm = 0 then 0 else lastLogIndex + 1
  let k := getQuorumWorkerIndex quorumNodeId s.identity
  if k < s.quorumWorkerTasks.length then
    pushToWorker k (.backfillLog (s.replicationLog.drop startIndex)) s
  else s

/-- `handle_backfill_request`. -/
def handleBackfillRequest (quorumNodeId lastLogTerm lastLogIndex : ℕ) (s : SharedState) :
    SharedState :=
  match s.replicationLog[lastLogIndex]? with
  | none => handleFollowerAhead quorumNodeId s
  | some entry =>
    if entry.term ≠ lastLogTerm ∧ lastLogTerm ≠ 0 then
      handleTermMismatch quorumNodeId lastLogTerm lastLogIndex s
    else sendBackfillData quorumNodeId lastLogTerm lastLogIndex s

/-! ## What the functions leave alone -/

/-- The term, the votes and the commit index. -/
@[simp] abbrev SameOffice (s s' : SharedState) : Prop :=
  s.SameSetup s' ∧ s.SameStanding s' ∧ s'.commitIndex = s.commitIndex

/-! ## What appending an entry does -/

/-- The end of both appends: the entry is built and appended, queued for the disk if the channel is
open, and announced. -/
def appendOwn (type : OutstandingMessageType) (idx id timestamp : ℕ) (commands : List PutRequest)
    (s : SharedState) : SharedState :=
  let entry := buildLogEntry s idx id timestamp commands
  let s := appendEntry s entry
  let s := if s.persistenceOpen then s.persist (.appendLog id entry.asBytes id) else s
  announce idx id entry type s

@[simp] theorem appendOwn_fields (type : OutstandingMessageType) (idx id timestamp : ℕ)
    (commands : List PutRequest) (s : SharedState) :
    (s.SameSetup (appendOwn type idx id timestamp commands s) ∧
      s.SameStanding (appendOwn type idx id timestamp commands s) ∧
      s.SameCommit (appendOwn type idx id timestamp commands s) ∧
      (appendOwn type idx id timestamp commands s).callbackResponses = s.callbackResponses ∧
      (appendOwn type idx id timestamp commands s).nextMessageId = s.nextMessageId) ∧
    (appendOwn type idx id timestamp commands s).lastLogIndex = idx ∧
    (appendOwn type idx id timestamp commands s).lastLogTerm = s.currentTerm ∧
    (appendOwn type idx id timestamp commands s).nextLogIndex = idx + 1 ∧
    (appendOwn type idx id timestamp commands s).replicationLog =
      s.replicationLog ++ [buildLogEntry s idx id timestamp commands] ∧
    (appendOwn type idx id timestamp commands s).persistenceWork = s.persistenceWork ++
      (if s.persistenceOpen then
        [.appendLog id (.message (buildLogEntry s idx id timestamp commands)) id] else []) ∧
    (appendOwn type idx id timestamp commands s).quorumWorkerTasks = s.quorumWorkerTasks.map
      (· ++ [.appendEntries id (buildLogEntry s idx id timestamp commands) s.commitIndex]) ∧
    (appendOwn type idx id timestamp commands s).outstandingMessages =
      s.outstandingMessages.insert id ⟨id, 1 + s.quorumWorkerTasks.length, type⟩ := by
  unfold appendOwn
  dsimp only
  split_ifs <;> simp_all [announce, OwnedLogEntry.asBytes]

/-- The state in which a new leader appends its no-op entry: the heartbeats are started and what is
committed is broadcast. -/
def prepareNoop (s : SharedState) : SharedState :=
  let started := ({ s with
    nextMessageId := s.nextMessageId + 1
    nextLogIndex := s.replicationLog.length }).pushToQuorum
      (.startHeartbeats s.nextMessageId s.currentTerm s.lastLogTerm s.lastLogIndex s.commitIndex)
  { (if 0 < started.commitIndex then started.broadcastCommittedEntries started.commitIndex
      else started) with nextMessageId := s.nextMessageId + 2 }

@[simp] theorem prepareNoop_fields (s : SharedState) :
    (SameOffice s (prepareNoop s) ∧
      (prepareNoop s).publishedCommitIndex = s.publishedCommitIndex ∧
      (prepareNoop s).callbackResponses = s.callbackResponses ∧
      (prepareNoop s).persistenceWork = s.persistenceWork ∧
      (prepareNoop s).outstandingMessages = s.outstandingMessages ∧
      (prepareNoop s).lastLogIndex = s.lastLogIndex ∧
      (prepareNoop s).lastLogTerm = s.lastLogTerm ∧
      (prepareNoop s).replicationLog = s.replicationLog) ∧
    (prepareNoop s).nextMessageId = s.nextMessageId + 2 ∧
    (prepareNoop s).quorumWorkerTasks = s.quorumWorkerTasks.map
      (· ++ [.startHeartbeats s.nextMessageId s.currentTerm s.lastLogTerm s.lastLogIndex
        s.commitIndex]) := by
  unfold prepareNoop
  dsimp only
  split_ifs <;> simp

/-- The entry that a leader builds in a state with the same term and end of log. -/
@[simp] theorem buildLogEntry_congr (s : SharedState) (idx id timestamp : ℕ)
    (commands : List PutRequest) :
    (∀ next, buildLogEntry { s with nextMessageId := next } idx id timestamp commands =
      buildLogEntry s idx id timestamp commands) ∧
    buildLogEntry (prepareNoop s) idx id timestamp commands =
      buildLogEntry s idx id timestamp commands := by
  simp [buildLogEntry]

/-- **Taking office** appends the no-op entry at the end of the log. -/
theorem initializeLeadership_eq (clock : Clock) (s : SharedState) :
    initializeLeadership clock s = appendOwn (.noOp false 0 s.replicationLog.length)
      s.replicationLog.length (s.nextMessageId + 1) clock.now [] (prepareNoop s) := by
  have hnoop : ∀ s₁ : SharedState, s₁.nextMessageId = s.nextMessageId + 1 →
      s₁.nextLogIndex = s.replicationLog.length → appendNoop clock s₁ =
        appendOwn (.noOp false 0 s.replicationLog.length) s.replicationLog.length
          (s.nextMessageId + 1) clock.now [] { s₁ with nextMessageId := s.nextMessageId + 2 } := by
    intro s₁ hid hidx
    unfold appendNoop appendOwn
    rw [hid, hidx]
  unfold initializeLeadership prepareNoop
  refine hnoop _ ?_ ?_
  · split_ifs <;> simp
  · split_ifs <;> simp

/-- **A write** is refused, or appended, or, when the channel is closed, both. -/
theorem writeBatch_cases (clock : Clock) (batch : OwnedWriteBatch) (callback : Callback)
    (s : SharedState) :
    batch.requests = [] ∧ writeBatch clock batch callback s =
        { s with nextMessageId := s.nextMessageId + 1 }.send callback
          (.writeBatch ⟨.empty, some "Empty write batch request"⟩) ∨
      batch.requests ≠ [] ∧ s.persistenceOpen = true ∧ writeBatch clock batch callback s =
        appendOwn (.writeBatch false 0 callback s.nextLogIndex) s.nextLogIndex s.nextMessageId
          clock.now batch.requests { s with nextMessageId := s.nextMessageId + 1 } ∨
      batch.requests ≠ [] ∧ s.persistenceOpen = false ∧ writeBatch clock batch callback s =
        (appendEntry { s with nextMessageId := s.nextMessageId + 1 }
          (buildLogEntry s s.nextLogIndex s.nextMessageId clock.now batch.requests)).send callback
            (.writeBatch ⟨.empty, some "Failed to queue persistence task"⟩) := by
  unfold writeBatch
  by_cases hempty : batch.requests = []
  · exact Or.inl ⟨hempty, if_pos hempty⟩
  · by_cases hopen : s.persistenceOpen = true
    · exact Or.inr (Or.inl ⟨hempty, hopen, by simp [hempty, hopen, appendOwn]⟩)
    · exact Or.inr (Or.inr ⟨hempty, by simpa using hopen,
        (if_neg hempty).trans (if_neg hopen)⟩)

/-- Where a batch goes. -/
theorem lastLogIndex_writeBatch (clock : Clock) (batch : OwnedWriteBatch) (callback : Callback)
    (s : SharedState) : (writeBatch clock batch callback s).lastLogIndex =
      if batch.requests ≠ [] ∧ s.persistenceOpen = true then s.nextLogIndex
      else s.lastLogIndex := by
  rcases writeBatch_cases clock batch callback s with
    ⟨hempty, h⟩ | ⟨hbatch, hopen, h⟩ | ⟨-, hclosed, h⟩
  · simp [h, hempty]
  · simp [h, hbatch, hopen]
  · simp [h, hclosed]

@[simp] theorem writeBatch_unchanged (clock : Clock) (batch : OwnedWriteBatch)
    (callback : Callback) (s : SharedState) :
    SameOffice s (writeBatch clock batch callback s) := by
  rcases writeBatch_cases clock batch callback s with ⟨-, h⟩ | ⟨-, -, h⟩ | ⟨-, -, h⟩ <;> simp [h]

@[simp] theorem initializeLeadership_unchanged (clock : Clock) (s : SharedState) :
    SameOffice s (initializeLeadership clock s) ∧
    (initializeLeadership clock s).callbackResponses = s.callbackResponses := by
  simp [initializeLeadership_eq]

/-! ## What the functions leave alone -/

/-- The standing, the log and what is sent to the disk. -/
@[simp] abbrev SameButCommits (s s' : SharedState) : Prop :=
  (s.SameSetup s' ∧ s.SameStanding s' ∧ s.SameLog s') ∧
    s'.persistenceWork = s.persistenceWork ∧ s'.nextMessageId = s.nextMessageId

@[simp] theorem advanceCommitIndex_unchanged (index : ℕ) (s : SharedState) :
    SameButCommits s (advanceCommitIndex index s) ∧
    (advanceCommitIndex index s).callbackResponses = s.callbackResponses ∧
    (advanceCommitIndex index s).outstandingMessages = s.outstandingMessages := by
  unfold advanceCommitIndex
  split_ifs <;> simp

@[simp] theorem commitIndex_advanceCommitIndex (index : ℕ) (s : SharedState) :
    (advanceCommitIndex index s).commitIndex = max s.commitIndex index := by
  unfold advanceCommitIndex
  split_ifs with hlt
  · simp [Nat.le_of_lt hlt]
  · omega

@[simp] theorem handleAppendEntriesResponse_unchanged (id : ℕ) (s : SharedState) :
    SameButCommits s (handleAppendEntriesResponse id s) := by
  unfold handleAppendEntriesResponse completeWriteBatch completeNoop
  split
  · dsimp only
    split
    · split_ifs <;> simp
    · split_ifs <;> simp
    · simp
  · simp

/-- Everything but the queues of the quorum workers and the ids of messages. -/
@[simp] abbrev SameButRepairs (s s' : SharedState) : Prop :=
  (SameOffice s s' ∧ s.SameLog s' ∧ s.SameCommit s') ∧ s'.persistenceWork = s.persistenceWork ∧
    s'.callbackResponses = s.callbackResponses ∧ s'.outstandingMessages = s.outstandingMessages

@[simp] theorem sendTruncateSignal_unchanged (node term index : ℕ) (s : SharedState) :
    SameButRepairs s (sendTruncateSignal node term index s) := by
  unfold sendTruncateSignal
  dsimp only
  split_ifs <;> simp

@[simp] theorem handleBackfillRequest_unchanged (node term index : ℕ) (s : SharedState) :
    SameButRepairs s (handleBackfillRequest node term index s) := by
  unfold handleBackfillRequest handleFollowerAhead handleTermMismatch sendBackfillData
  dsimp only
  split
  · simp
  · split_ifs
    · split <;> simp
    all_goals simp

theorem nextMessageId_le_handleBackfillRequest (node term index : ℕ) (s : SharedState) :
    s.nextMessageId ≤ (handleBackfillRequest node term index s).nextMessageId := by
  have hsignal : ∀ node term index, s.nextMessageId ≤
      (sendTruncateSignal node term index s).nextMessageId := by
    intro node term index
    unfold sendTruncateSignal
    dsimp only
    split_ifs
    · exact Nat.le_succ _
    · exact le_rfl
  unfold handleBackfillRequest handleFollowerAhead handleTermMismatch
    sendBackfillData
  dsimp only
  split
  · exact hsignal _ _ _
  · split_ifs
    · split <;> exact hsignal _ _ _
    all_goals exact le_rfl

end Leader

end Kraft
