/-
# The quorum worker

`quorum/quorum_worker/`: the thread that talks to one other member of the cluster.  It
turns the tasks of the state machine into messages, the member's requests into requests to
the state machine and the answers back into messages, and reports responses.

* The connection is not modelled: a message is sent, and may be lost on the way.
* `WorkerOutput` collects what a handler pushes to the shared queues and what it sends.
* `pending_append_entries` and the start times only feed metrics and are left out, and so
  is `next_index`, which nothing reads.
* `process_pending_task_responses` polls the callbacks of its pending tasks;
  `handlePendingTaskResponse` is what it does with an answer it finds.
* `Sends` and `Handles` list what a task and a message can make it do.
-/
import Kraft.Messages

namespace Kraft

/-- `OngoingBackfill`. -/
structure OngoingBackfill where
  fromTerm : ℕ
  fromIndex : ℕ
  deriving DecidableEq

/-- `QuorumWorker`, with the pending tasks its `run` keeps. -/
structure QuorumWorker where
  selfId : ℕ
  memberId : ℕ
  term : ℕ
  prevLogIndex : ℕ
  prevLogTerm : ℕ
  commitIndex : ℕ
  sendHeartbeats : Bool
  lastHeartbeat : ℕ
  ongoingBackfill : Option OngoingBackfill
  pendingWriteBatches : List (String × ℕ)
  /-- `pending_tasks`, each with the number of its callback channel -/
  pendingTasks : List (ℕ × PendingQuorumTask)
  nextChannel : ℕ
  deriving DecidableEq

/-- What a handler pushes and sends. -/
structure WorkerOutput where
  /-- to the state machine's `quorum_response` -/
  responses : List LocalQuorumTaskResponseType := []
  /-- to the state machine's `task_queue` -/
  requests : List LocalRaftMessage := []
  /-- to the other member -/
  messages : List QuorumMessage := []
  /-- to callbacks of the write proxy -/
  writeResponses : List (ℕ × WriteResponse) := []
  deriving DecidableEq

/-- The worker still connects the same two members. -/
def SameEnds (w w' : QuorumWorker) : Prop := w'.selfId = w.selfId ∧ w'.memberId = w.memberId

/-- It has the same picture of its leader as well. -/
structure SameView (w w' : QuorumWorker) : Prop where
  ends : SameEnds w w'
  term : w'.term = w.term
  prevLogIndex : w'.prevLogIndex = w.prevLogIndex
  prevLogTerm : w'.prevLogTerm = w.prevLogTerm
  commitIndex : w'.commitIndex = w.commitIndex

namespace QuorumWorker

/-- `QuorumWorker::new`. -/
def new (selfId memberId : ℕ) : QuorumWorker where
  selfId := selfId
  memberId := memberId
  term := 0
  prevLogIndex := 0
  prevLogTerm := 0
  commitIndex := 0
  sendHeartbeats := false
  lastHeartbeat := 0
  ongoingBackfill := none
  pendingWriteBatches := []
  pendingTasks := []
  nextChannel := 0

/-! ## Outbound -/

/-- `build_append_entries_message` with an entry. -/
def appendEntriesMessage (w : QuorumWorker) (requestId commitIndex : ℕ) (entry : OwnedLogEntry) :
    QuorumMessage :=
  .appendEntriesRequest
    { term := w.term
      leaderId := w.selfId
      prevIndex := entry.prevLogIndex
      prevTerm := entry.prevLogTerm
      requestId := requestId
      entry := some
        { index := entry.index
          data := entry.asBytes
          batchIndex := entry.index
          term := entry.term
          prevLogTerm := entry.prevLogTerm
          prevLogIndex := entry.prevLogIndex
          messageId := entry.messageId }
      commitIndex := commitIndex }

/-- `build_heartbeat_message` with request id 0. -/
def heartbeatMessage (w : QuorumWorker) : QuorumMessage :=
  .appendEntriesRequest
    { term := w.term
      leaderId := w.selfId
      prevIndex := w.prevLogIndex
      prevTerm := w.prevLogTerm
      requestId := 0
      entry := none
      commitIndex := w.commitIndex }

/-- `send_heartbeat_if_needed`: every 100 ms while heartbeats are on. -/
def sendHeartbeatIfNeeded (now : ℕ) (w : QuorumWorker) : QuorumWorker × WorkerOutput :=
  if w.sendHeartbeats = true ∧ 100 ≤ now - w.lastHeartbeat then
    ({ w with lastHeartbeat := now }, { messages := [w.heartbeatMessage] })
  else (w, {})

/-- `send_append_entries`. -/
def sendAppendEntries (now id : ℕ) (entry : OwnedLogEntry) (newCommitIndex : ℕ)
    (w : QuorumWorker) : QuorumWorker × WorkerOutput :=
  ({ w with
      prevLogTerm := entry.term
      prevLogIndex := entry.index
      commitIndex := newCommitIndex
      lastHeartbeat := now },
    { messages := [w.appendEntriesMessage id newCommitIndex entry] })

/-- `send_backfill_entries`: every entry is sent under the message id it was created
with. -/
def sendBackfillEntries (now : ℕ) (entries : List OwnedLogEntry) (w : QuorumWorker) :
    QuorumWorker × WorkerOutput :=
  if entries = [] then (w, {})
  else
    ({ w with ongoingBackfill := none, lastHeartbeat := now },
      { messages := entries.map fun entry =>
          w.appendEntriesMessage entry.messageId w.commitIndex entry })

/-- `build_put_batch_request_message`: payloads travel as text, and `utf8Lossy` is
`String::from_utf8_lossy` seen on bytes. -/
def putBatchOnWire (utf8Lossy : List UInt8 → List UInt8) (batch : OwnedWriteBatch) :
    OwnedWriteBatch :=
  ⟨batch.batchId, batch.requests.map fun r => { r with payload := utf8Lossy r.payload }⟩

/-- The body of `process_work_queue`: one task of the state machine. -/
def processTask (utf8Lossy : List UInt8 → List UInt8) (now : ℕ)
    (task : LocalQuorumWorkerTaskType) (w : QuorumWorker) : QuorumWorker × WorkerOutput :=
  match task with
  | .startHeartbeats _ term prevTerm prevLogIndex commitIndex =>
    ({ w with
        sendHeartbeats := true
        term := term
        prevLogTerm := prevTerm
        prevLogIndex := prevLogIndex
        commitIndex := commitIndex }, {})
  | .stopHeartbeats _ => ({ w with sendHeartbeats := false }, {})
  | .requestVote id term lastTerm lastIndex =>
    (w, { messages := [.voteRequest term w.selfId lastIndex lastTerm id] })
  | .appendEntries id entry commitIndex => w.sendAppendEntries now id entry commitIndex
  | .backfillLog data => w.sendBackfillEntries now data
  | .writeBatch batchId message callback =>
    ({ w with pendingWriteBatches :=
        (batchId, callback) :: w.pendingWriteBatches.filter (·.1 ≠ batchId) },
      { messages := [.putBatchRequest (putBatchOnWire utf8Lossy message)] })
  | .truncateLog _ prevTerm prevIndex =>
    (w, { messages := [.truncateLogRequest prevTerm prevIndex w.term w.selfId 0] })
  | .updateCommitIndex commitIndex => ({ w with commitIndex := commitIndex }, {})

/-! ## Inbound -/

/-- `on_append_entries_ack`: a refusal asks the state machine for a backfill unless one is
under way; an acknowledgement of a heartbeat is dropped. -/
def onAppendEntriesAck (lastLogTerm lastLogIndex requestId : ℕ) (ok : Bool) (w : QuorumWorker) :
    QuorumWorker × WorkerOutput :=
  if ok then
    if requestId ≠ 0 then (w, { responses := [.appendEntries requestId ok] }) else (w, {})
  else if w.ongoingBackfill = none then
    ({ w with ongoingBackfill := some ⟨lastLogTerm, lastLogIndex⟩ },
      { responses := [.backfillLog w.memberId lastLogTerm lastLogIndex] })
  else (w, {})

/-- `on_put_batch_response_capnp`: the waiting write proxy gets the response as a
success. -/
def onPutBatchResponse (response : OwnedWriteBatchResponse) (w : QuorumWorker) :
    QuorumWorker × WorkerOutput :=
  match w.pendingWriteBatches.lookup response.batchId with
  | some callback =>
    ({ w with pendingWriteBatches := w.pendingWriteBatches.filter (·.1 ≠ response.batchId) },
      { writeResponses := [(callback, .success response)] })
  | none => (w, {})

/-- Passes a request on to the state machine and remembers the task. -/
def passOn (payload : LocalRaftMessagePayload) (task : PendingQuorumTask) (w : QuorumWorker) :
    QuorumWorker × WorkerOutput :=
  ({ w with
      pendingTasks := w.pendingTasks ++ [(w.nextChannel, task)]
      nextChannel := w.nextChannel + 1 },
    { requests := [⟨payload, .pending w.memberId w.nextChannel task⟩] })

/-- `on_append_entries_request_capnp`. -/
def onAppendEntriesRequest (request : LocalAppendEntries) (w : QuorumWorker) :
    QuorumWorker × WorkerOutput :=
  let entryIndex := (request.entry.map (·.index)).getD 0
  let entryTerm := (request.entry.map (·.term)).getD 0
  w.passOn (.appendEntries request) (.appendEntries request.requestId entryIndex entryTerm)

/-- `on_truncate_log_request`: the truncation goes to the state machine without the term
of the leader that asked for it, and is confirmed at once. -/
def onTruncateLogRequest (prevTerm prevIndex _term _leaderId requestId : ℕ) (w : QuorumWorker) :
    QuorumWorker × WorkerOutput :=
  (w, { responses := [.truncateLog w.memberId prevTerm prevIndex]
        messages := [.truncateLogResponse requestId true] })

/-- `handle_inbound_message`. -/
def handleInboundMessage (message : QuorumMessage) (w : QuorumWorker) :
    QuorumWorker × WorkerOutput :=
  match message with
  | .voteResponse voteGranted requestId term =>
    (w, { responses := [.requestVoteResponse requestId term voteGranted] })
  | .appendEntriesAcknowledge lastLogTerm lastLogIndex requestId ok =>
    w.onAppendEntriesAck lastLogTerm lastLogIndex requestId ok
  | .putBatchResponse response => w.onPutBatchResponse response
  | .truncateLogResponse requestId ok =>
    ({ w with ongoingBackfill := none }, { responses := [.truncateLogResponse requestId ok] })
  | .appendEntriesRequest request => w.onAppendEntriesRequest request
  | .voteRequest term candidateId lastLogIndex lastLogTerm requestId =>
    w.passOn (.requestVote ⟨term, candidateId, lastLogIndex, lastLogTerm⟩) (.vote requestId term)
  | .putBatchRequest batch => w.passOn (.writeBatch batch) (.putBatch batch.batchId)
  | .truncateLogRequest prevTerm prevIndex term leaderId requestId =>
    w.onTruncateLogRequest prevTerm prevIndex term leaderId requestId

/-! ## Pending tasks -/

/-- `handle_pending_task_response`: the answer of the state machine becomes a message to
the member.  The `err` of a write batch answer is not part of the message. -/
def handlePendingTaskResponse (task : PendingQuorumTask) (payload : LocalRaftResponsePayload)
    (w : QuorumWorker) : WorkerOutput :=
  match payload, task with
  | .requestVote granted, .vote requestId term =>
    { messages := [.voteResponse granted requestId term] }
  | .appendEntries response, .appendEntries requestId logIndex term =>
    match response with
    | .ok => { messages := [.appendEntriesAcknowledge term logIndex requestId true] }
    | .unrecognizedLeader => { messages := [.appendEntriesAcknowledge term logIndex requestId false] }
    | .wantedPreviousEntry lastTerm lastIndex =>
      { messages := [.appendEntriesAcknowledge lastTerm lastIndex requestId false] }
    | .truncateLog prevTerm prevIndex =>
      { responses := [.truncateLog w.memberId prevTerm prevIndex]
        messages := [.appendEntriesAcknowledge prevTerm prevIndex requestId false] }
  | .writeBatch response, .putBatch batchId =>
    { messages := [.putBatchResponse ⟨response.message.responses, batchId⟩] }
  | _, _ => {}

/-! ## What a worker does -/

/-- A message that the worker sends for a task. -/
inductive Sends (utf8Lossy : List UInt8 → List UInt8) (w : QuorumWorker) :
    LocalQuorumWorkerTaskType → QuorumMessage → Prop
  | vote (id term lastTerm lastIndex : ℕ) : Sends utf8Lossy w
      (.requestVote id term lastTerm lastIndex) (.voteRequest term w.selfId lastIndex lastTerm id)
  | entry (id commitIndex : ℕ) (entry : OwnedLogEntry) : Sends utf8Lossy w
      (.appendEntries id entry commitIndex) (w.appendEntriesMessage id commitIndex entry)
  | backfill {data : List OwnedLogEntry} {entry : OwnedLogEntry} (hentry : entry ∈ data) :
      Sends utf8Lossy w (.backfillLog data)
        (w.appendEntriesMessage entry.messageId w.commitIndex entry)
  | batch (batchId : String) (batch : OwnedWriteBatch) (callback : ℕ) : Sends utf8Lossy w
      (.writeBatch batchId batch callback) (.putBatchRequest (putBatchOnWire utf8Lossy batch))
  | truncate (node prevTerm prevIndex : ℕ) : Sends utf8Lossy w (.truncateLog node prevTerm prevIndex)
      (.truncateLogRequest prevTerm prevIndex w.term w.selfId 0)

/-- What a task leaves alone: it is only turned into messages. -/
structure SameInbound (w : QuorumWorker) (result : QuorumWorker × WorkerOutput) : Prop where
  ends : SameEnds w result.1
  pendingTasks : result.1.pendingTasks = w.pendingTasks
  responses : result.2.responses = []
  requests : result.2.requests = []

/-- **A task.** -/
theorem processTask_sends (utf8Lossy : List UInt8 → List UInt8) (now : ℕ)
    (task : LocalQuorumWorkerTaskType) (w : QuorumWorker) :
    SameInbound w (w.processTask utf8Lossy now task) ∧
      ∀ m ∈ (w.processTask utf8Lossy now task).2.messages, Sends utf8Lossy w task m := by
  cases task with
  | backfillLog data =>
    show SameInbound w (w.sendBackfillEntries now data) ∧
      ∀ m ∈ (w.sendBackfillEntries now data).2.messages, _
    unfold sendBackfillEntries
    split_ifs
    · exact ⟨⟨⟨rfl, rfl⟩, rfl, rfl, rfl⟩, by simp⟩
    · refine ⟨⟨⟨rfl, rfl⟩, rfl, rfl, rfl⟩, fun m hm => ?_⟩
      obtain ⟨entry, hentry, rfl⟩ := List.mem_map.mp hm
      exact .backfill hentry
  | startHeartbeats | stopHeartbeats | updateCommitIndex =>
    exact ⟨⟨⟨rfl, rfl⟩, rfl, rfl, rfl⟩, by simp [processTask]⟩
  | _ =>
    refine ⟨⟨⟨rfl, rfl⟩, rfl, rfl, rfl⟩, fun m hm => ?_⟩
    obtain rfl := List.mem_singleton.mp hm
    constructor

/-- A heartbeat leaves the same alone. -/
theorem sendHeartbeatIfNeeded_same (now : ℕ) (w : QuorumWorker) :
    SameInbound w (w.sendHeartbeatIfNeeded now) := by
  unfold sendHeartbeatIfNeeded
  split_ifs <;> exact ⟨⟨rfl, rfl⟩, rfl, rfl, rfl⟩

/-- **What a worker does with a message.** -/
inductive Handles (w : QuorumWorker) : QuorumMessage → QuorumWorker × WorkerOutput → Prop
  | voteResponse (granted : Bool) (requestId term : ℕ) :
      Handles w (.voteResponse granted requestId term)
        (w, { responses := [.requestVoteResponse requestId term granted] })
  | acknowledged {lastLogTerm lastLogIndex requestId : ℕ} (hid : requestId ≠ 0) :
      Handles w (.appendEntriesAcknowledge lastLogTerm lastLogIndex requestId true)
        (w, { responses := [.appendEntries requestId true] })
  | refused {lastLogTerm lastLogIndex requestId : ℕ} (hnone : w.ongoingBackfill = none) :
      Handles w (.appendEntriesAcknowledge lastLogTerm lastLogIndex requestId false)
        ({ w with ongoingBackfill := some ⟨lastLogTerm, lastLogIndex⟩ },
          { responses := [.backfillLog w.memberId lastLogTerm lastLogIndex] })
  | written {response : OwnedWriteBatchResponse} (batches : List (String × ℕ)) (callback : ℕ) :
      Handles w (.putBatchResponse response) ({ w with pendingWriteBatches := batches },
        { writeResponses := [(callback, .success response)] })
  /-- an acknowledgement of a heartbeat, another refusal, or an answer that nobody awaits -/
  | dropped {message : QuorumMessage} (hack : ∀ lastLogTerm lastLogIndex requestId, message =
      .appendEntriesAcknowledge lastLogTerm lastLogIndex requestId true → requestId = 0) :
      Handles w message (w, {})
  | truncateLogResponse (requestId : ℕ) (ok : Bool) : Handles w (.truncateLogResponse requestId ok)
      ({ w with ongoingBackfill := none }, { responses := [.truncateLogResponse requestId ok] })
  | appendEntriesRequest (request : LocalAppendEntries) :
      Handles w (.appendEntriesRequest request) (w.onAppendEntriesRequest request)
  | voteRequest (term candidateId lastLogIndex lastLogTerm requestId : ℕ) :
      Handles w (.voteRequest term candidateId lastLogIndex lastLogTerm requestId)
        (w.passOn (.requestVote ⟨term, candidateId, lastLogIndex, lastLogTerm⟩)
          (.vote requestId term))
  | putBatchRequest (batch : OwnedWriteBatch) : Handles w (.putBatchRequest batch)
      (w.passOn (.writeBatch batch) (.putBatch batch.batchId))
  | truncateLogRequest (prevTerm prevIndex term leaderId requestId : ℕ) :
      Handles w (.truncateLogRequest prevTerm prevIndex term leaderId requestId)
        (w.onTruncateLogRequest prevTerm prevIndex term leaderId requestId)

theorem handles_handleInboundMessage (message : QuorumMessage) (w : QuorumWorker) :
    Handles w message (w.handleInboundMessage message) := by
  cases message with
  | appendEntriesAcknowledge lastLogTerm lastLogIndex requestId ok =>
    show Handles w _ (w.onAppendEntriesAck lastLogTerm lastLogIndex requestId ok)
    unfold onAppendEntriesAck
    split_ifs with hok hid hnone
    · subst hok
      exact .acknowledged hid
    · exact .dropped fun _ _ _ heq => by cases heq; exact not_not.mp hid
    · obtain rfl : ok = false := by simpa using hok
      exact .refused hnone
    · exact .dropped fun _ _ _ heq => by cases heq; exact absurd rfl hok
  | putBatchResponse response =>
    show Handles w _ (w.onPutBatchResponse response)
    unfold onPutBatchResponse
    split
    · exact .written ..
    · exact .dropped fun _ _ _ heq => by cases heq
  | _ => constructor

/-- No message changes the picture of the leader. -/
theorem sameView_handleInboundMessage (message : QuorumMessage) (w : QuorumWorker) :
    SameView w (w.handleInboundMessage message).1 := by
  have h := w.handles_handleInboundMessage message
  generalize w.handleInboundMessage message = result at h ⊢
  cases h <;> exact ⟨⟨rfl, rfl⟩, rfl, rfl, rfl, rfl⟩

end QuorumWorker

end Kraft
