/-
# The data a node handles

The values that travel between the parts of one node: log entries, the requests
the state machine accepts and the answers it gives, the tasks it hands to its
persistence worker and to its quorum workers, and what these workers report back.

* `OwnedLogEntry` is a Cap'n Proto message; the model keeps the fields it decodes
  to.  `EntryData` is a byte string received as the data of an entry: either the
  bytes of such a message or bytes that do not decode.
* `Callback` is the sending half of a one-shot channel.  Its receiving half is
  held by a pending task of a quorum worker or by the write proxy, and the
  callback names that holder.
* Terms, indices, message ids and node ids are natural numbers; the source keeps
  them in `u64` and `u32`.
* Tracing spans and the times and sizes that only feed metrics are left out.
-/
import Mathlib.Data.List.AList

namespace Kraft

/-- A map with numeric keys (`HashMap<u64, _>` of the source). -/
abbrev HashMap (α : Type) := AList (fun _ : ℕ => α)

/-- What is left when a key is removed. -/
theorem HashMap.lookup_of_erase {α : Type} {map : HashMap α} {id id' : ℕ} {x : α}
    (h : (map.erase id).lookup id' = some x) : id' ≠ id ∧ map.lookup id' = some x := by
  by_cases hid : id' = id
  · rw [hid, AList.lookup_erase] at h
    cases h
  · rw [AList.lookup_erase_ne hid] at h
    exact ⟨hid, h⟩

/-! ## Log entries -/

/-- `InternalPutRequest`: one client command. -/
structure PutRequest where
  id : String
  payload : List UInt8
  nodeId : ℕ
  deriving DecidableEq

/-- `OwnedLogEntry` (`InternalLogEntry` on the wire and on disk). -/
structure OwnedLogEntry where
  index : ℕ
  term : ℕ
  prevLogIndex : ℕ
  prevLogTerm : ℕ
  messageId : ℕ
  timestamp : ℕ
  commands : List PutRequest
  deriving DecidableEq

/-- The bytes of an entry as they arrive: a well-formed message, or bytes that
`OwnedLogEntry::from_bytes` refuses. -/
inductive EntryData
  | message (entry : OwnedLogEntry)
  | malformed (bytes : List UInt8)
  deriving DecidableEq

/-- `OwnedLogEntry::from_bytes`. -/
def OwnedLogEntry.fromBytes : EntryData → Option OwnedLogEntry
  | .message entry => some entry
  | .malformed _ => none

/-- `OwnedLogEntry::as_bytes`. -/
def OwnedLogEntry.asBytes (entry : OwnedLogEntry) : EntryData := .message entry

@[simp] theorem OwnedLogEntry.fromBytes_asBytes (entry : OwnedLogEntry) :
    OwnedLogEntry.fromBytes entry.asBytes = some entry := rfl

/-- `LogEntry` (`RemoteLogEntry` on the wire). -/
structure LogEntry where
  index : ℕ
  data : EntryData
  batchIndex : ℕ
  term : ℕ
  prevLogTerm : ℕ
  prevLogIndex : ℕ
  messageId : ℕ
  deriving DecidableEq

/-! ## Requests to the state machine -/

/-- `LocalRequestVoteRequest`. -/
structure LocalRequestVoteRequest where
  term : ℕ
  candidateId : ℕ
  lastLogIndex : ℕ
  lastLogTerm : ℕ
  deriving DecidableEq

/-- `LocalAppendEntries`. -/
structure LocalAppendEntries where
  term : ℕ
  leaderId : ℕ
  prevIndex : ℕ
  prevTerm : ℕ
  requestId : ℕ
  entry : Option LogEntry
  commitIndex : ℕ
  deriving DecidableEq

/-- `OwnedWriteBatch` (`InternalWriteBatch`). -/
structure OwnedWriteBatch where
  batchId : String
  requests : List PutRequest
  deriving DecidableEq

/-- `LocalRaftMessagePayload`. -/
inductive LocalRaftMessagePayload
  | requestVote (request : LocalRequestVoteRequest)
  | appendEntries (request : LocalAppendEntries)
  | getRaftState
  | writeBatch (batch : OwnedWriteBatch)
  deriving DecidableEq

/-- `PendingQuorumTaskEnum`: what a quorum worker remembers of a request it has
passed to the state machine. -/
inductive PendingQuorumTask
  | vote (requestId term : ℕ)
  | appendEntries (requestId logIndex term : ℕ)
  | putBatch (batchId : String)
  deriving DecidableEq

/-- A one-shot answer channel, named by who waits at its other end: the quorum
worker of `member` with a pending task, which numbers its channels, or a batch of the
write proxy. -/
inductive Callback
  | pending (member channel : ℕ) (task : PendingQuorumTask)
  | proxy (batch : ℕ)
  deriving DecidableEq

/-- `LocalRaftMessage`. -/
structure LocalRaftMessage where
  payload : LocalRaftMessagePayload
  callback : Callback
  deriving DecidableEq

/-! ## Answers of the state machine -/

/-- `LocalAppendEntriesCallbackResponse`. -/
inductive LocalAppendEntriesCallbackResponse
  | ok
  | unrecognizedLeader
  | wantedPreviousEntry (lastTerm lastIndex : ℕ)
  | truncateLog (prevTerm prevIndex : ℕ)
  deriving DecidableEq

/-- `RemoteResponseType`. -/
inductive RemoteResponseType
  | unspecified
  | ok
  | invalid
  deriving DecidableEq

/-- `InternalPutResponse`. -/
structure PutResponse where
  id : String
  responseType : RemoteResponseType
  message : String
  nodeId : ℕ
  batchId : String
  deriving DecidableEq

/-- `OwnedWriteBatchResponse` (`InternalWriteBatchResponse`). -/
structure OwnedWriteBatchResponse where
  responses : List PutResponse
  batchId : String
  deriving DecidableEq

/-- `build_owned_write_batch_response(|_| {})`: the response with nothing set. -/
def OwnedWriteBatchResponse.empty : OwnedWriteBatchResponse := ⟨[], ""⟩

/-- `WriteStatus`. -/
inductive WriteStatus
  | ok
  | internalServerError
  deriving DecidableEq

/-- `WriteResponse`: what a client's batch is answered with. -/
structure WriteResponse where
  message : OwnedWriteBatchResponse
  status : WriteStatus
  deriving DecidableEq

/-- `WriteResponse::error`. -/
def WriteResponse.error : WriteResponse := ⟨.empty, .internalServerError⟩

/-- `WriteResponse::success`. -/
def WriteResponse.success (message : OwnedWriteBatchResponse) : WriteResponse := ⟨message, .ok⟩

/-- `LocalRaftWriteBatchResponse`. -/
structure LocalRaftWriteBatchResponse where
  message : OwnedWriteBatchResponse
  err : Option String
  deriving DecidableEq

/-- `LocalRaftResponsePayload`. -/
inductive LocalRaftResponsePayload
  | none
  | requestVote (granted : Bool)
  | appendEntries (response : LocalAppendEntriesCallbackResponse)
  | raftState (leaderId : ℕ)
  | writeBatch (response : LocalRaftWriteBatchResponse)
  deriving DecidableEq

/-! ## The persistence worker's tasks -/

/-- `PersistenceTaskType`. -/
inductive PersistenceTaskType
  | appendVote (id term candidateId : ℕ)
  | appendLog (id : ℕ) (data : EntryData) (requestId : ℕ)
  | truncateLog (targetLength : ℕ)
  deriving DecidableEq

/-- `PersistenceResponseType`. -/
inductive PersistenceResponseType
  | votePersisted (id term candidateId : ℕ)
  | logPersisted (id : ℕ)
  deriving DecidableEq

/-! ## The quorum workers' tasks -/

/-- `LocalQuorumWorkerTaskType`; the callback of `WriteBatch` is that of a `WriteBatch` of
the write proxy. -/
inductive LocalQuorumWorkerTaskType
  | startHeartbeats (id term prevTerm prevLogIndex commitIndex : ℕ)
  | stopHeartbeats (id : ℕ)
  | requestVote (id term lastTerm lastIndex : ℕ)
  | appendEntries (id : ℕ) (entry : OwnedLogEntry) (commitIndex : ℕ)
  | backfillLog (data : List OwnedLogEntry)
  | writeBatch (batchId : String) (message : OwnedWriteBatch) (callback : ℕ)
  | truncateLog (id prevTerm prevIndex : ℕ)
  | updateCommitIndex (commitIndex : ℕ)
  deriving DecidableEq

/-- `LocalQuorumTaskResponseType`. -/
inductive LocalQuorumTaskResponseType
  | requestVoteResponse (id term : ℕ) (receivedVote : Bool)
  | appendEntries (id : ℕ) (ok : Bool)
  | backfillLog (quorumNodeId lastLogTerm lastLogIndex : ℕ)
  | truncateLog (quorumNodeId prevTerm prevIndex : ℕ)
  | truncateLogResponse (id : ℕ) (ok : Bool)
  deriving DecidableEq

/-! ## Messages between nodes -/

/-- `RemoteQuorumMessage`: what travels between the quorum workers of two nodes, without
the connection handshake. -/
inductive QuorumMessage
  | voteRequest (term candidateId lastLogIndex lastLogTerm requestId : ℕ)
  | voteResponse (voteGranted : Bool) (requestId term : ℕ)
  | appendEntriesRequest (request : LocalAppendEntries)
  | appendEntriesAcknowledge (lastLogTerm lastLogIndex requestId : ℕ) (ok : Bool)
  | putBatchRequest (batch : OwnedWriteBatch)
  | putBatchResponse (response : OwnedWriteBatchResponse)
  | truncateLogRequest (prevTerm prevIndex term leaderId requestId : ℕ)
  | truncateLogResponse (requestId : ℕ) (ok : Bool)
  deriving DecidableEq

/-! ## Outstanding messages -/

/-- `OutstandingMessageType`. -/
inductive OutstandingMessageType
  | requestVote (callback : Callback)
  | candidateElection (persistenceDone : Bool) (quorumVotes : ℕ)
  | appendLog (callback : Callback)
  | writeBatch (persistenceDone : Bool) (quorumAcks : ℕ) (callback : Callback) (index : ℕ)
  | noOp (persistenceDone : Bool) (quorumAcks : ℕ) (index : ℕ)
  deriving DecidableEq

/-- `OutstandingMessage`. -/
structure OutstandingMessage where
  id : ℕ
  outstandingResponses : ℤ
  messageType : OutstandingMessageType
  deriving DecidableEq

end Kraft
