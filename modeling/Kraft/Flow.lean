/-
# What travels between the nodes

A property of messages that holds wherever a message can be: in the task queues of a node, on
its way, among the requests and responses that wait at the node it was sent to.

* `Flow` is such a property of messages, with a property `channel` of a quorum worker and the
  tasks that wait for it that makes the worker send such messages only.
* `Carries` : all that waits in a process came from messages with the property, and its workers
  will send no others.  `Carries.step` and `Carries.receive` say that the process keeps to it
  if the events of its node hand such tasks to the workers.
* `World.Carries` is the same for the whole cluster, and `World.Carries.step` its step lemma.
-/
import Kraft.Wiring

namespace Kraft

open SharedState StateMachine

/-! ## Flows -/

/-- A heartbeat leaves the worker's picture of its leader alone. -/
theorem QuorumWorker.sameView_sendHeartbeatIfNeeded (now : ℕ) (w : QuorumWorker) :
    SameView w (w.sendHeartbeatIfNeeded now).1 := by
  unfold sendHeartbeatIfNeeded
  split_ifs <;> exact ⟨⟨rfl, rfl⟩, rfl, rfl, rfl, rfl⟩

/-- Messages that answer a message and say nothing of votes. -/
def QuorumMessage.isReply : QuorumMessage → Bool
  | .appendEntriesAcknowledge .. | .putBatchResponse _ | .truncateLogResponse .. => true
  | _ => false

/-- A property of messages, and of workers with their waiting tasks that makes them send such
messages only. -/
structure Flow where
  channel : QuorumWorker → List LocalQuorumWorkerTaskType → Prop
  message : QuorumMessage → Prop
  /-- A new worker has nothing to send. -/
  fresh : ∀ selfId memberId, channel (.new selfId memberId) []
  /-- Only the worker's picture of its leader matters. -/
  view : ∀ {w w' tasks}, SameView w w' → channel w tasks → channel w' tasks
  /-- The write proxy may hand in a batch. -/
  forward : ∀ {w tasks} (batchId : String) (batch : OwnedWriteBatch) (callback : ℕ),
    channel w tasks → channel w (tasks ++ [.writeBatch batchId batch callback])
  sends : ∀ {w task rest} (utf8Lossy : List UInt8 → List UInt8) (now : ℕ),
    channel w (task :: rest) → channel (w.processTask utf8Lossy now task).1 rest ∧
      ∀ m ∈ (w.processTask utf8Lossy now task).2.messages, message m
  heartbeat : ∀ {w tasks}, channel w tasks → message w.heartbeatMessage
  /-- A vote is answered under its request's id and term. -/
  vote : ∀ {term candidateId lastLogIndex lastLogTerm requestId} (granted : Bool),
    message (.voteRequest term candidateId lastLogIndex lastLogTerm requestId) →
      message (.voteResponse granted requestId term)
  reply : ∀ {m}, m.isReply = true → message m

namespace Flow

variable (F : Flow)

/-- A request to the state machine came with a message. -/
def request : LocalRaftMessagePayload → Prop
  | .appendEntries request => F.message (.appendEntriesRequest request)
  | .requestVote request => ∃ requestId, F.message
      (.voteRequest request.term request.candidateId request.lastLogIndex request.lastLogTerm
        requestId)
  | _ => True

/-- So did a task whose answer is awaited, -/
def pending : PendingQuorumTask → Prop
  | .vote requestId term => ∃ candidateId lastLogIndex lastLogTerm, F.message
      (.voteRequest term candidateId lastLogIndex lastLogTerm requestId)
  | _ => True

/-- and a vote that is reported to the state machine. -/
def response : LocalQuorumTaskResponseType → Prop
  | .requestVoteResponse id term receivedVote => F.message (.voteResponse receivedVote id term)
  | _ => True

/-- What a worker passes on. -/
theorem passOn {payload : LocalRaftMessagePayload} {task : PendingQuorumTask}
    (hpayload : F.request payload) (htask : F.pending task) (w : QuorumWorker) :
    (∀ r ∈ (w.passOn payload task).2.requests, F.request r.payload) ∧
      ∀ t ∈ (w.passOn payload task).1.pendingTasks, t ∈ w.pendingTasks ∨ F.pending t.2 := by
  refine ⟨fun r hr => ?_, fun t ht => ?_⟩
  · obtain rfl := List.mem_singleton.mp hr
    exact hpayload
  · rcases List.mem_append.mp ht with ht | ht
    · exact Or.inl ht
    · obtain rfl := List.mem_singleton.mp ht
      exact Or.inr htask

/-- What a worker does with a message. -/
theorem handleInboundMessage {m : QuorumMessage} (hm : F.message m) (w : QuorumWorker) :
    (∀ r ∈ (w.handleInboundMessage m).2.requests, F.request r.payload) ∧
    (∀ r ∈ (w.handleInboundMessage m).2.responses, F.response r) ∧
    (∀ m' ∈ (w.handleInboundMessage m).2.messages, F.message m') ∧
    ∀ t ∈ (w.handleInboundMessage m).1.pendingTasks, t ∈ w.pendingTasks ∨ F.pending t.2 := by
  have h := w.handles_handleInboundMessage m
  generalize w.handleInboundMessage m = result at h ⊢
  cases h with
  | voteRequest term candidateId lastLogIndex lastLogTerm requestId =>
    have hpending : F.pending (.vote requestId term) := ⟨candidateId, lastLogIndex, lastLogTerm, hm⟩
    have hrequest : F.request (.requestVote ⟨term, candidateId, lastLogIndex, lastLogTerm⟩) :=
      ⟨requestId, hm⟩
    obtain ⟨hrequests, htasks⟩ := F.passOn hrequest hpending w
    exact ⟨hrequests, by simp [QuorumWorker.passOn], by simp [QuorumWorker.passOn], htasks⟩
  | appendEntriesRequest request =>
    have hpending : F.pending (.appendEntries request.requestId
        ((request.entry.map (·.index)).getD 0) ((request.entry.map (·.term)).getD 0)) := trivial
    have hrequest : F.request (.appendEntries request) := hm
    obtain ⟨hrequests, htasks⟩ := F.passOn hrequest hpending w
    exact ⟨hrequests, by simp [QuorumWorker.onAppendEntriesRequest, QuorumWorker.passOn],
      by simp [QuorumWorker.onAppendEntriesRequest, QuorumWorker.passOn], htasks⟩
  | putBatchRequest batch =>
    have hpending : F.pending (.putBatch batch.batchId) := trivial
    have hrequest : F.request (.writeBatch batch) := trivial
    obtain ⟨hrequests, htasks⟩ := F.passOn hrequest hpending w
    exact ⟨hrequests, by simp [QuorumWorker.passOn], by simp [QuorumWorker.passOn], htasks⟩
  | voteResponse => exact ⟨by simp, by simpa [response] using hm, by simp, fun _ => Or.inl⟩
  | truncateLogRequest =>
    exact ⟨by simp [QuorumWorker.onTruncateLogRequest],
      by simp [QuorumWorker.onTruncateLogRequest, response],
      by simpa [QuorumWorker.onTruncateLogRequest] using F.reply rfl, fun _ => Or.inl⟩
  | _ => exact ⟨by simp, by simp [response], by simp, fun _ => Or.inl⟩

/-- What a worker does with an answer of the state machine. -/
theorem handlePendingTaskResponse {task : PendingQuorumTask} (htask : F.pending task)
    (payload : LocalRaftResponsePayload) (w : QuorumWorker) :
    (∀ r ∈ (w.handlePendingTaskResponse task payload).responses, F.response r) ∧
    ∀ m ∈ (w.handlePendingTaskResponse task payload).messages, F.message m := by
  unfold QuorumWorker.handlePendingTaskResponse
  split
  · obtain ⟨candidateId, lastLogIndex, lastLogTerm, hrequest⟩ := htask
    refine ⟨(fun _ hr => nomatch hr), fun m hm => ?_⟩
    obtain rfl := List.mem_singleton.mp hm
    exact F.vote _ hrequest
  · split <;> simpa [response] using F.reply rfl
  · simpa using F.reply rfl
  · simp

end Flow

/-! ## The responses that wait -/

/-- The state machine only takes responses from its queues. -/
structure FewerResponses (s s' : SharedState) : Prop where
  persistence : ∀ r ∈ s'.persistenceResponse, r ∈ s.persistenceResponse
  quorum : ∀ r ∈ s'.quorumResponse, r ∈ s.quorumResponse

namespace FewerResponses

theorem of_eq {s s' : SharedState} (hpersistence : s'.persistenceResponse = s.persistenceResponse)
    (hquorum : s'.quorumResponse = s.quorumResponse) : FewerResponses s s' :=
  ⟨fun _ hr => hpersistence ▸ hr, fun _ hr => hquorum ▸ hr⟩

theorem accept (clock : Clock) (message : LocalRaftMessage) (sm : StateMachine) :
    FewerResponses sm.shared (sm.accept clock message).shared := by
  obtain ⟨first, hframe, -⟩ := voteFrame_accept clock message sm
  exact .of_eq hframe.persistenceResponse hframe.quorumResponse

theorem runPart (clock : Clock) (part : TimeStepPart) (sm : StateMachine) :
    FewerResponses sm.shared (sm.runPart clock part).shared := by
  have hturns := turns_runPart clock part sm
  generalize (sm.runPart clock part).shared = s' at hturns ⊢
  cases hturns with
  | settled _ hpersistence hquorum h =>
    obtain ⟨⟨-, -, -, hpersistence', hquorum'⟩, -⟩ := h.unchanged.1
    refine ⟨?_, ?_⟩
    · rw [hpersistence']
      exact fun _ hr => hpersistence hr
    · rw [hquorum']
      exact fun _ hr => hquorum hr
  | ignored hquorum => exact ⟨fun _ hr => hr, fun r hr => hquorum hr⟩
  | truncated hquorum => exact ⟨fun r hr => by simpa using hr, fun r hr => hquorum (by simpa using hr)⟩
  | _ => exact .of_eq (by simp) (by simp)

end FewerResponses

/-- No event of the node itself brings it a response of a quorum worker. -/
theorem quorumResponse_step [Capnp] (p : Process) (event : ProcessEvent) (e : NodeEvent)
    (he : p.nodeEvent event = some e) :
    ∀ r ∈ (p.node.step e).shared.quorumResponse, r ∈ p.node.shared.quorumResponse := by
  cases e with
  | accept clock message => exact (FewerResponses.accept clock message p.node.machine).quorum
  | timeStep clock part => exact (FewerResponses.runPart clock part p.node.machine).quorum
  | respond response =>
    cases event with
    | accept clock =>
      obtain ⟨message, -, hmessage⟩ := Option.map_eq_some_iff.mp he
      cases hmessage
    | _ => cases he
  | processTask =>
    exact fun r hr => p.node.serves_processTask.unchanged.2.2.1 ▸ hr
  | flush =>
    exact fun r hr => p.node.serves_flush.unchanged.2.2.1 ▸ hr
  | restart clock written accepts => exact fun _ hr => nomatch hr

/-! ## Processes -/

/-- The tasks that wait for quorum worker `k`. -/
def Node.queue (n : Node) (k : ℕ) : List LocalQuorumWorkerTaskType :=
  (n.shared.quorumWorkerTasks[k]?).getD []

/-- The queues of a node that starts are empty. -/
theorem getD_replicate_nil (workers k : ℕ) :
    ((List.replicate workers ([] : List LocalQuorumWorkerTaskType))[k]?).getD [] = [] := by
  rcases hget : (List.replicate workers ([] : List LocalQuorumWorkerTaskType))[k]? with _ | tasks
  · rfl
  · exact (List.mem_replicate.mp (List.mem_of_getElem? hget)).2

/-- All that waits in the process belongs to the flow. -/
structure Carries (F : Flow) (p : Process) : Prop where
  channels : ∀ k w, p.workers[k]? = some w → F.channel w (p.node.queue k)
  pendings : ∀ w ∈ p.workers, ∀ t ∈ w.pendingTasks, F.pending t.2
  inbox : ∀ m ∈ p.inbox, F.request m.payload
  responses : ∀ r ∈ p.node.shared.quorumResponse, F.response r

namespace Carries

variable {F : Flow} {p : Process}

/-- A process that starts. -/
theorem start [Capnp] (cfg : AppConfig) (clock : Clock) (accepts : ℕ → Bool) :
    Carries F (Process.start cfg clock accepts) := by
  refine ⟨fun k w hw => ?_, fun w hw t ht => ?_, (fun _ hm => nomatch hm),
    (fun _ hr => nomatch hr)⟩
  · have hqueue : (Process.start cfg clock accepts).node.queue k = [] := getD_replicate_nil ..
    rw [hqueue]
    obtain ⟨peer, -, rfl⟩ := List.mem_map.mp (List.mem_of_getElem? hw)
    exact F.fresh ..
  · obtain ⟨peer, -, rfl⟩ := List.mem_map.mp hw
    cases ht

/-- The messages may be allowed more. -/
theorem mono {F' : Flow} (h : Carries F p)
    (hchannel : ∀ w tasks, F.channel w tasks → F'.channel w tasks)
    (hmessage : ∀ m, F.message m → F'.message m) : Carries F' p where
  channels k w hw := hchannel w _ (h.channels k w hw)
  pendings w hw t ht := by
    have hpending := h.pendings w hw t ht
    revert hpending
    cases t.2 with
    | vote requestId term =>
      rintro ⟨candidateId, lastLogIndex, lastLogTerm, hm⟩
      exact ⟨candidateId, lastLogIndex, lastLogTerm, hmessage _ hm⟩
    | _ => exact id
  inbox m hm := by
    have hrequest := h.inbox m hm
    revert hrequest
    cases m.payload with
    | requestVote request =>
      rintro ⟨requestId, hm⟩
      exact ⟨requestId, hmessage _ hm⟩
    | appendEntries request => exact hmessage _
    | _ => exact id
  responses r hr := by
    have hresponse := h.responses r hr
    revert hresponse
    cases r with
    | requestVoteResponse id term receivedVote => exact hmessage _
    | _ => exact id

/-- The node has made a step. -/
theorem of_node (h : Carries F p) {n : Node}
    (hqueue : ∀ k w, p.workers[k]? = some w → F.channel w (p.node.queue k) →
      F.channel w (n.queue k))
    (hresponses : ∀ r ∈ n.shared.quorumResponse, r ∈ p.node.shared.quorumResponse) :
    Carries F { p with node := n } where
  channels k w hw := hqueue k w hw (h.channels k w hw)
  pendings := h.pendings
  inbox := h.inbox
  responses r hr := h.responses r (hresponses r hr)

/-- A worker has acted; the node may have given it something. -/
theorem emit (h : Carries F p) {n : Node} {k : ℕ} {w : QuorumWorker}
    {result : QuorumWorker × WorkerOutput}
    (hqueue : ∀ j, k ≠ j → n.queue j = p.node.queue j)
    (hnode : n.shared.quorumResponse = p.node.shared.quorumResponse)
    (hw : p.workers[k]? = some w) (hchannel : F.channel result.1 (n.queue k))
    (hpending : ∀ t ∈ result.1.pendingTasks, t ∈ w.pendingTasks ∨ F.pending t.2)
    (hrequests : ∀ r ∈ result.2.requests, F.request r.payload)
    (hresponses : ∀ r ∈ result.2.responses, F.response r)
    (hmessages : ∀ m ∈ result.2.messages, F.message m) :
    Carries F ({ p with node := n }.emit k result).1 ∧
      ∀ packet ∈ ({ p with node := n }.emit k result).2, F.message packet.message := by
  refine ⟨⟨fun j w' hw' => ?_, fun w' hw' t ht => ?_, fun m hm => ?_, fun r hr => ?_⟩, ?_⟩
  · have hset : (p.workers.set k result.1)[j]? = some w' := hw'
    rw [List.getElem?_set] at hset
    split_ifs at hset with hk hlt
    · obtain rfl := Option.some.inj hset
      exact hk ▸ hchannel
    · have hsame : n.queue j = p.node.queue j := hqueue j hk
      show F.channel w' (n.queue j)
      rw [hsame]
      exact h.channels j w' hset
  · rcases List.mem_or_eq_of_mem_set hw' with hw' | rfl
    · exact h.pendings w' hw' t ht
    · exact (hpending t ht).elim (h.pendings w (List.mem_of_getElem? hw) t) id
  · exact (List.mem_append.mp hm).elim (h.inbox m) (hrequests m)
  · refine (List.mem_append.mp hr).elim (fun hr => h.responses r ?_) (hresponses r)
    rwa [← hnode]
  · intro packet hpacket
    obtain ⟨m, hm, rfl⟩ := List.mem_map.mp hpacket
    exact hmessages m hm

/-- **A message arrives.** -/
theorem receive (h : Carries F p) (src : ℕ) {message : QuorumMessage}
    (hmessage : F.message message) :
    Carries F (p.receive src message).1 ∧
      ∀ packet ∈ (p.receive src message).2, F.message packet.message := by
  unfold Process.receive
  split
  · next k hfind =>
    split
    · next w hw =>
      obtain ⟨hrequests, hresponses, hmessages, hpending⟩ := F.handleInboundMessage hmessage w
      exact h.emit (n := p.node) (fun _ _ => rfl) rfl hw
        (F.view (w.sameView_handleInboundMessage message) (h.channels k w hw))
        hpending hrequests hresponses hmessages
    · exact ⟨h, by simp⟩
  · exact ⟨h, by simp⟩

/-- A worker takes the task at the head of its queue. -/
theorem workerTask (h : Carries F p) (utf8Lossy : List UInt8 → List UInt8) (k now : ℕ) :
    Carries F (p.workerTask utf8Lossy k now).1 ∧
      ∀ packet ∈ (p.workerTask utf8Lossy k now).2, F.message packet.message := by
  unfold Process.workerTask
  split
  · next w task rest hw htasks =>
    have hk := (List.getElem?_eq_some_iff.mp htasks).1
    have hqueue : p.node.queue k = task :: rest := by rw [Node.queue, htasks, Option.getD_some]
    obtain ⟨hchannel, hmessages⟩ := F.sends utf8Lossy now (hqueue ▸ h.channels k w hw)
    obtain ⟨-, hpending, hresponses, hrequests⟩ := (w.processTask_sends utf8Lossy now task).1
    refine h.emit (fun j hj => ?_) rfl hw ?_ (fun t ht => Or.inl ?_) (by simp [hrequests])
      (by simp [hresponses]) hmessages
    · show ((p.node.shared.quorumWorkerTasks.set k rest)[j]?).getD [] = _
      rw [List.getElem?_set_ne hj]
      rfl
    · show F.channel _ (((p.node.shared.quorumWorkerTasks.set k rest)[k]?).getD [])
      rw [List.getElem?_set_self hk]
      exact hchannel
    · rwa [hpending] at ht
  · exact ⟨h, by simp⟩

/-- The heartbeat of a worker. -/
theorem heartbeat (h : Carries F p) (k now : ℕ) :
    Carries F (p.heartbeat k now).1 ∧
      ∀ packet ∈ (p.heartbeat k now).2, F.message packet.message := by
  unfold Process.heartbeat
  split
  · next w hw =>
    obtain ⟨-, -, hresponses, hrequests⟩ := w.sendHeartbeatIfNeeded_same now
    refine h.emit (n := p.node) (fun _ _ => rfl) rfl hw
      (F.view (w.sameView_sendHeartbeatIfNeeded now) (h.channels k w hw)) (fun t ht => Or.inl ?_)
      (by simp [hrequests]) (by simp [hresponses]) (fun m hm => ?_)
    · unfold QuorumWorker.sendHeartbeatIfNeeded at ht
      split_ifs at ht <;> exact ht
    · unfold QuorumWorker.sendHeartbeatIfNeeded at hm
      split_ifs at hm
      · obtain rfl := List.mem_singleton.mp hm
        exact F.heartbeat (h.channels k w hw)
      · cases hm
  · exact ⟨h, by simp⟩

/-- A worker sends the answer to a request of its peer. -/
theorem answer (h : Carries F p) (k j : ℕ) :
    Carries F (p.answer k j).1 ∧ ∀ packet ∈ (p.answer k j).2, F.message packet.message := by
  unfold Process.answer
  split
  · next w hw =>
    split
    · next channel task htask =>
      split
      · next payload hpayload =>
        have hpending := h.pendings w (List.mem_of_getElem? hw) _ (List.mem_of_getElem? htask)
        obtain ⟨hresponses, hmessages⟩ := F.handlePendingTaskResponse hpending payload w
        exact h.emit (fun _ _ => rfl) rfl hw
          (F.view (w := w) ⟨⟨rfl, rfl⟩, rfl, rfl, rfl, rfl⟩ (h.channels k w hw))
          (fun t ht => Or.inl (List.mem_of_mem_eraseIdx ht))
          (by simp [w.requests_handlePendingTaskResponse]) hresponses hmessages
      · exact ⟨h, by simp⟩
    · exact ⟨h, by simp⟩
  · exact ⟨h, by simp⟩

/-- The write proxy gives a batch to a worker. -/
theorem forward [Capnp] (h : Carries F p) (utf8Lossy : List UInt8 → List UInt8) (k : ℕ)
    (batchId : String) (batch : OwnedWriteBatch) (callback : ℕ) :
    Carries F (p.step utf8Lossy (.forward k batchId batch callback)).1 := by
  refine ⟨fun j w hw => ?_, h.pendings, h.inbox, h.responses⟩
  have hold := h.channels j w hw
  show F.channel w (((p.node.shared.quorumWorkerTasks.modify k
    (· ++ [.writeBatch batchId batch callback]))[j]?).getD [])
  revert hold
  unfold Node.queue
  rw [List.getElem?_modify]
  rcases p.node.shared.quorumWorkerTasks[j]? with _ | tasks
  · exact id
  · intro hold
    by_cases hj : k = j
    · simpa [hj] using F.forward batchId batch callback hold
    · simpa [hj] using hold

/-- A client's request is put into the inbox. -/
theorem enqueue (h : Carries F p) {m : LocalRaftMessage} (hm : F.request m.payload) :
    Carries F { p with inbox := p.inbox ++ [m] } :=
  { h with inbox := List.forall_mem_append.mpr ⟨h.inbox, List.forall_mem_singleton.mpr hm⟩ }

/-- A restart leaves nothing on its way. -/
theorem restart [Capnp] (utf8Lossy : List UInt8 → List UInt8) (clock : Clock) (written : ℕ)
    (accepts : ℕ → Bool) : Carries F (p.step utf8Lossy (.restart clock written accepts)).1 := by
  refine ⟨fun k w hw => ?_, fun w hw t ht => ?_, (fun _ hm => nomatch hm), (fun _ hr => nomatch hr)⟩
  · obtain ⟨old, -, rfl⟩ := List.mem_map.mp (List.mem_of_getElem? hw)
    have hempty : (p.node.step (.restart clock written accepts)).queue k = [] :=
      getD_replicate_nil ..
    show F.channel _ ((p.node.step (.restart clock written accepts)).queue k)
    rw [hempty]
    exact F.fresh ..
  · obtain ⟨old, -, rfl⟩ := List.mem_map.mp hw
    cases ht

/-- **An event of the process.**  The events of its node have to hand tasks of the flow to the
workers. -/
theorem step [Capnp] (h : Carries F p) (utf8Lossy : List UInt8 → List UInt8) (event : ProcessEvent)
    (hnode : ∀ e, p.nodeEvent event = some e → e.isRestart = false → ∀ k w,
      p.workers[k]? = some w → F.channel w (p.node.queue k) →
        F.channel w ((p.node.step e).queue k)) :
    Carries F (p.step utf8Lossy event).1 ∧
      ∀ packet ∈ (p.step utf8Lossy event).2, F.message packet.message := by
  have hsilent : ∀ {p' : Process}, Carries F p' →
      Carries F (p', ([] : List Packet)).1 ∧
        ∀ packet ∈ (p', ([] : List Packet)).2, F.message packet.message :=
    fun h => ⟨h, by simp⟩
  have hevent : ∀ e, p.nodeEvent event = some e → e.isRestart = false →
      Carries F { p with node := p.node.step e } := fun e he hrestart =>
    h.of_node (hnode e he hrestart) (quorumResponse_step p event e he)
  cases event with
  | accept clock =>
    refine hsilent ?_
    unfold Process.accept
    split
    · next message rest hinbox =>
      have hnext := hevent (.accept clock message)
        (by show p.inbox.head?.map _ = _; rw [hinbox]; rfl) rfl
      exact { hnext with inbox := fun m hm => h.inbox m (by rw [hinbox]; exact .tail _ hm) }
    · exact h
  | timeStep clock part => exact hsilent (hevent _ rfl rfl)
  | processTask => exact hsilent (hevent _ rfl rfl)
  | flush => exact hsilent (hevent _ rfl rfl)
  | workerTask k now => exact h.workerTask utf8Lossy k now
  | heartbeat k now => exact h.heartbeat k now
  | answer k j => exact h.answer k j
  | write batch callback => exact hsilent (h.enqueue trivial)
  | forward k batchId batch callback => exact hsilent (h.forward utf8Lossy k batchId batch callback)
  | askLeader callback => exact hsilent (h.enqueue trivial)
  | restart clock written accepts => exact hsilent (restart utf8Lossy clock written accepts)

end Carries

/-! ## The cluster -/

/-- The event of its node that a step of node `a` is. -/
def World.NodeStep (w : World) (label : Label) (a : ℕ) (e : NodeEvent) : Prop :=
  ∃ event, label = .act a event ∧ (w.process a).nodeEvent event = some e

theorem World.NodeStep.unique {w : World} {label : Label} {a b : ℕ} {e e' : NodeEvent}
    (h : w.NodeStep label a e) (h' : w.NodeStep label b e') : a = b ∧ e = e' := by
  obtain ⟨event, rfl, he⟩ := h
  obtain ⟨event', heq, he'⟩ := h'
  obtain ⟨rfl, rfl⟩ := Label.act.inj heq
  exact ⟨rfl, Option.some.inj (he.symm.trans he')⟩

/-- All processes carry the flow, and so do the messages between them. -/
structure World.Carries [ParsesSocketAddr] (C : Cluster) (F : Flow) (w : World) : Prop where
  processes : ∀ a ∈ C.members, Kraft.Carries F (w.process a)
  net : ∀ packet ∈ w.net, F.message packet.message

namespace World.Carries

variable [ParsesSocketAddr] {C : Cluster} {F : Flow} {w : World}

theorem start [Capnp] (clock : ℕ → Clock) (accepts : ℕ → ℕ → Bool) :
    World.Carries C F (World.start C clock accepts) :=
  ⟨fun a _ => Kraft.Carries.start (C.config a) (clock a) (accepts a),
    fun _ hpacket => nomatch hpacket⟩

theorem mono {F' : Flow} (h : World.Carries C F w)
    (hchannel : ∀ worker tasks, F.channel worker tasks → F'.channel worker tasks)
    (hmessage : ∀ m, F.message m → F'.message m) : World.Carries C F' w :=
  ⟨fun a ha => (h.processes a ha).mono hchannel hmessage,
    fun packet hpacket => hmessage _ (h.net packet hpacket)⟩

/-- A request that a node accepts came with a message. -/
theorem request_of_nodeStep (h : World.Carries C F w) {label : Label} {a : ℕ} (ha : a ∈ C.members)
    {e : NodeEvent} (he : w.NodeStep label a e) (clock : Clock) (message : LocalRaftMessage)
    (haccept : e = .accept clock message) : F.request message.payload := by
  subst haccept
  obtain ⟨event, rfl, hevent⟩ := he
  cases event with
  | accept clock' =>
    obtain ⟨m, hm, heq⟩ := Option.map_eq_some_iff.mp hevent
    obtain ⟨-, rfl⟩ := NodeEvent.accept.inj heq
    exact (h.processes a ha).inbox m (List.mem_of_mem_head? hm)
  | _ => cases hevent

theorem update (h : World.Carries C F w) {a : ℕ} {result : Process × List Packet}
    (hprocess : a ∈ C.members → Kraft.Carries F result.1)
    (hpackets : ∀ packet ∈ result.2, F.message packet.message) :
    World.Carries C F (w.update a result) where
  processes b hb := by
    by_cases hba : b = a
    · subst hba
      rw [World.process_update_self]
      exact hprocess hb
    · rw [World.process_update_of_ne w hba]
      exact h.processes b hb
  net packet hpacket := (List.mem_append.mp hpacket).elim (h.net packet) (hpackets packet)

/-- **A step of the cluster**, in which the node that acts hands tasks of the flow to its
workers. -/
theorem step [Capnp] (h : World.Carries C F w) (hconnected : Connected C w) (label : Label)
    (hnode : ∀ a ∈ C.members, ∀ e, w.NodeStep label a e → e.isRestart = false →
      ∀ k worker, (w.process a).workers[k]? = some worker →
        F.channel worker ((w.process a).node.queue k) →
          F.channel worker (((w.process a).node.step e).queue k)) :
    World.Carries C F (w.step C label) := by
  cases label with
  | act a event =>
    by_cases ha : a ∈ C.members
    · rw [World.step_act ha]
      obtain ⟨hprocess, hpackets⟩ := (h.processes a ha).step C.utf8Lossy event
        fun e he hrestart => hnode a ha e ⟨event, rfl, he⟩ hrestart
      exact h.update (fun _ => hprocess) hpackets
    · rw [World.step_act_of_notMem ha]
      exact h
  | deliver i =>
    rcases hpacket : w.net[i]? with _ | packet
    · rw [World.step_deliver_of_none hpacket]
      exact h
    · rw [World.step_deliver hpacket]
      have hmem := List.mem_of_getElem? hpacket
      have hdst := (hconnected.addressed packet hmem).dst
      obtain ⟨hprocess, hpackets⟩ := (h.processes packet.dst hdst).receive packet.src
        (h.net packet hmem)
      have herase : World.Carries C F { w with net := w.net.eraseIdx i } :=
        ⟨h.processes, fun packet hpacket => h.net packet (List.mem_of_mem_eraseIdx hpacket)⟩
      exact herase.update (fun _ => hprocess) hpackets
  | lose i =>
    exact ⟨h.processes, fun packet hpacket => h.net packet (List.mem_of_mem_eraseIdx hpacket)⟩

end World.Carries

/-- **Nodes in a step of the cluster**: one node makes an event of its own, or exchanges
something with its quorum workers; all others stay. -/
theorem World.node_step [Capnp] [ParsesSocketAddr] {C : Cluster} (w : World) (label : Label)
    (a : ℕ) :
    (∃ e, w.NodeStep label a e ∧ a ∈ C.members ∧
        ((w.step C label).process a).node = (w.process a).node.step e) ∨
      Exchanges (w.process a).node ((w.step C label).process a).node := by
  rcases World.process_step C w label a with ⟨event, rfl, ha, hstep⟩ | ⟨i, packet, -, -, -, hstep⟩ |
    hsame
  · rw [hstep]
    rcases Kraft.node_step C.utf8Lossy (w.process a) event with ⟨e, he, hnode⟩ | ⟨-, hexchange⟩
    · exact Or.inl ⟨e, ⟨event, rfl, he⟩, ha, hnode⟩
    · exact Or.inr hexchange
  · rw [hstep]
    exact Or.inr (node_receive ..)
  · rw [hsame]
    exact Or.inr (.refl _)

end Kraft
