/-
# Who talks to whom

The identity and the quorum size of a node never change, nor do the two members each of
its quorum workers connects.  `Wired` collects this for the process of node `a`, together
with what a request in its queue says about its sender, and `Addressed` says that a message
on its way connects two different members.  `Connected` holds them for the whole cluster,
and every step keeps it (`Connected.step`).
-/
import Kraft.VoteRecords
import Kraft.Cluster

namespace Kraft

open SharedState StateMachine

/-! ## What a process does to its node -/

/-- The event of the node in an event of its process, if there is one. -/
def Process.nodeEvent (p : Process) : ProcessEvent → Option NodeEvent
  | .accept clock => p.inbox.head?.map (.accept clock)
  | .timeStep clock part => some (.timeStep clock part)
  | .processTask => some .processTask
  | .flush => some .flush
  | .restart clock written accepts => some (.restart clock written accepts)
  | _ => none

/-- Between the events of a node only what it exchanges with its quorum workers changes. -/
def Exchanges (n n' : Node) : Prop :=
  ∃ responses answers tasks, n' = n.withShared { n.shared with
    quorumResponse := responses
    callbackResponses := answers
    quorumWorkerTasks := tasks } ∧ answers.Sublist n.shared.callbackResponses

theorem Exchanges.refl (n : Node) : Exchanges n n :=
  ⟨n.shared.quorumResponse, _, n.shared.quorumWorkerTasks, rfl, .refl _⟩

/-- **An event of a process is an event of its node, or an exchange with the quorum
workers.** -/
theorem node_step [Capnp] (utf8Lossy : List UInt8 → List UInt8) (p : Process)
    (event : ProcessEvent) :
    (∃ e, p.nodeEvent event = some e ∧ (p.step utf8Lossy event).1.node = p.node.step e) ∨
      p.nodeEvent event = none ∧ Exchanges p.node (p.step utf8Lossy event).1.node := by
  cases event with
  | accept clock =>
    obtain ⟨n, inbox, workers⟩ := p
    cases inbox with
    | nil => exact Or.inr ⟨rfl, .refl n⟩
    | cons message rest => exact Or.inl ⟨_, rfl, rfl⟩
  | timeStep clock part => exact Or.inl ⟨_, rfl, rfl⟩
  | processTask => exact Or.inl ⟨_, rfl, rfl⟩
  | flush => exact Or.inl ⟨_, rfl, rfl⟩
  | workerTask k now =>
    refine Or.inr ⟨rfl, ?_⟩
    show Exchanges p.node (p.workerTask utf8Lossy k now).1.node
    unfold Process.workerTask
    split
    · exact ⟨_, _, _, rfl, .refl _⟩
    · exact .refl p.node
  | heartbeat k now =>
    refine Or.inr ⟨rfl, ?_⟩
    show Exchanges p.node (p.heartbeat k now).1.node
    unfold Process.heartbeat
    split
    · exact ⟨_, _, _, rfl, .refl _⟩
    · exact .refl p.node
  | answer k j =>
    refine Or.inr ⟨rfl, ?_⟩
    show Exchanges p.node (p.answer k j).1.node
    unfold Process.answer
    split
    · split
      · split
        · exact ⟨_, _, _, rfl, List.eraseP_sublist⟩
        · exact .refl p.node
      · exact .refl p.node
    · exact .refl p.node
  | write batch callback => exact Or.inr ⟨rfl, .refl p.node⟩
  | forward k batchId batch callback => exact Or.inr ⟨rfl, _, _, _, rfl, .refl _⟩
  | askLeader callback => exact Or.inr ⟨rfl, .refl p.node⟩
  | restart clock written accepts => exact Or.inl ⟨_, rfl, rfl⟩

theorem node_receive (p : Process) (src : ℕ) (message : QuorumMessage) :
    Exchanges p.node (p.receive src message).1.node := by
  unfold Process.receive
  split
  · split
    · exact ⟨_, _, _, rfl, .refl _⟩
    · exact .refl p.node
  · exact .refl p.node

/-! ## Quorum workers -/

namespace QuorumWorker

theorem requests_handlePendingTaskResponse (task : PendingQuorumTask)
    (payload : LocalRaftResponsePayload) (w : QuorumWorker) :
    (w.handlePendingTaskResponse task payload).requests = [] := by
  unfold handlePendingTaskResponse
  split
  · rfl
  · split <;> rfl
  · rfl
  · rfl

end QuorumWorker

/-! ## Processes and messages -/

/-- The node a message names as its sender. -/
def QuorumMessage.signature : QuorumMessage → Option ℕ
  | .voteRequest _ candidateId _ _ _ => some candidateId
  | .appendEntriesRequest request => some request.leaderId
  | .truncateLogRequest _ _ _ leaderId _ => some leaderId
  | _ => none

/-- A request is answered to the node that it names, as what it is. -/
def AnswersSender (message : LocalRaftMessage) : Prop :=
  match message.payload with
  | .requestVote request => ∃ channel requestId,
      message.callback = .pending request.candidateId channel (.vote requestId request.term)
  | .appendEntries request => ∃ channel logIndex term,
      message.callback =
        .pending request.leaderId channel (.appendEntries request.requestId logIndex term)
  | _ => True

/-- A message connects two different members and names its sender. -/
structure Addressed (members : Finset ℕ) (packet : Packet) : Prop where
  src : packet.src ∈ members
  dst : packet.dst ∈ members
  ne : packet.src ≠ packet.dst
  signature : ∀ x ∈ packet.message.signature, x = packet.src

/-- The process is that of node `a`. -/
structure Wired (members : Finset ℕ) (a quorumSize : ℕ) (p : Process) : Prop where
  identity : p.node.shared.identity = a
  quorumSize : p.node.shared.quorumSize = quorumSize
  selfId : ∀ worker ∈ p.workers, worker.selfId = a
  memberId : ∀ worker ∈ p.workers, worker.memberId ∈ members ∧ worker.memberId ≠ a
  inbox : ∀ message ∈ p.inbox, AnswersSender message

namespace QuorumWorker

/-- A worker signs what it sends for a task, -/
theorem signature_processTask (utf8Lossy : List UInt8 → List UInt8) (now : ℕ)
    (task : LocalQuorumWorkerTaskType) (w : QuorumWorker) :
    ∀ message ∈ (w.processTask utf8Lossy now task).2.messages, ∀ x ∈ message.signature,
      x = w.selfId := by
  intro message hmessage x hx
  cases (w.processTask_sends utf8Lossy now task).2 message hmessage <;> cases hx <;> rfl

/-- and its heartbeats, -/
theorem signature_sendHeartbeatIfNeeded (now : ℕ) (w : QuorumWorker) :
    ∀ message ∈ (w.sendHeartbeatIfNeeded now).2.messages, ∀ x ∈ message.signature,
      x = w.selfId := by
  unfold sendHeartbeatIfNeeded
  split_ifs <;> simp [heartbeatMessage, QuorumMessage.signature]

/-- but no answers. -/
theorem signature_handlePendingTaskResponse (task : PendingQuorumTask)
    (payload : LocalRaftResponsePayload) (w : QuorumWorker) :
    ∀ message ∈ (w.handlePendingTaskResponse task payload).messages, message.signature = none := by
  unfold handlePendingTaskResponse
  split
  · simp [QuorumMessage.signature]
  · split <;> simp [QuorumMessage.signature]
  · simp [QuorumMessage.signature]
  · simp

theorem signature_handleInboundMessage (message : QuorumMessage) (w : QuorumWorker) :
    ∀ m ∈ (w.handleInboundMessage message).2.messages, m.signature = none := by
  have h := w.handles_handleInboundMessage message
  generalize w.handleInboundMessage message = result at h ⊢
  cases h <;> simp [onAppendEntriesRequest, passOn, onTruncateLogRequest, QuorumMessage.signature]

/-- A signed request is answered to its sender. -/
theorem answersSender_handleInboundMessage {message : QuorumMessage} {w : QuorumWorker}
    (hsigned : ∀ x ∈ message.signature, x = w.memberId) :
    ∀ m ∈ (w.handleInboundMessage message).2.requests, AnswersSender m := by
  intro m hm
  have h := w.handles_handleInboundMessage message
  generalize w.handleInboundMessage message = result at h hm
  cases h with
  | appendEntriesRequest request =>
    obtain rfl := List.mem_singleton.mp hm
    exact ⟨_, _, _, by rw [hsigned request.leaderId rfl]⟩
  | voteRequest term candidateId lastLogIndex lastLogTerm requestId =>
    obtain rfl := List.mem_singleton.mp hm
    exact ⟨_, _, by rw [hsigned candidateId rfl]⟩
  | putBatchRequest batch =>
    obtain rfl := List.mem_singleton.mp hm
    trivial
  | _ => cases hm

/-- A worker answers the requests it passes on itself. -/
theorem callback_handleInboundMessage (message : QuorumMessage) (w : QuorumWorker) (proxy : ℕ) :
    ∀ m ∈ (w.handleInboundMessage message).2.requests, m.callback ≠ .proxy proxy := by
  have h := w.handles_handleInboundMessage message
  generalize w.handleInboundMessage message = result at h ⊢
  cases h <;> simp [onAppendEntriesRequest, passOn, onTruncateLogRequest]

end QuorumWorker

/-- Nothing that arrives is answered to a write proxy. -/
theorem Process.inbox_receive {p : Process} {src : ℕ} {message : QuorumMessage}
    {m : LocalRaftMessage} (hm : m ∈ (p.receive src message).1.inbox) {proxy : ℕ}
    (hproxy : m.callback = .proxy proxy) : m ∈ p.inbox := by
  unfold Process.receive at hm
  split at hm
  · split at hm
    · next worker _ =>
      exact (List.mem_append.mp hm).resolve_right fun hm =>
        worker.callback_handleInboundMessage message proxy m hm hproxy
    · exact hm
  · exact hm

/-- **The inbox after an event**: what is answered to a write proxy was handed in by it. -/
theorem Process.inbox_step [Capnp] {utf8Lossy : List UInt8 → List UInt8} {p : Process}
    {event : ProcessEvent} {m : LocalRaftMessage} (hm : m ∈ (p.step utf8Lossy event).1.inbox)
    {proxy : ℕ} (hproxy : m.callback = .proxy proxy) : m ∈ p.inbox ∨ m.payload = .getRaftState ∨
      ∃ batch, event = .write batch proxy ∧ m.payload = .writeBatch batch := by
  have hsilent : ∀ {p' : Process} {k : ℕ} {result : QuorumWorker × WorkerOutput},
      result.2.requests = [] → (p'.emit k result).1.inbox = p'.inbox := by
    intro p' k result hrequests
    simp [Process.emit, hrequests]
  cases event with
  | accept clock =>
    change m ∈ (p.accept clock).inbox at hm
    unfold Process.accept at hm
    split at hm
    · next hinbox => exact Or.inl (hinbox ▸ List.mem_cons_of_mem _ hm)
    · exact Or.inl hm
  | workerTask k now =>
    change m ∈ (p.workerTask utf8Lossy k now).1.inbox at hm
    unfold Process.workerTask at hm
    split at hm
    · rw [hsilent (QuorumWorker.processTask_sends ..).1.requests] at hm
      exact Or.inl hm
    · exact Or.inl hm
  | heartbeat k now =>
    change m ∈ (p.heartbeat k now).1.inbox at hm
    unfold Process.heartbeat at hm
    split at hm
    · rw [hsilent (QuorumWorker.sendHeartbeatIfNeeded_same ..).requests] at hm
      exact Or.inl hm
    · exact Or.inl hm
  | answer k j =>
    change m ∈ (p.answer k j).1.inbox at hm
    unfold Process.answer at hm
    split at hm
    · split at hm
      · split at hm
        · rw [hsilent (QuorumWorker.requests_handlePendingTaskResponse ..)] at hm
          exact Or.inl hm
        · exact Or.inl hm
      · exact Or.inl hm
    · exact Or.inl hm
  | write batch callback =>
    rcases List.mem_append.mp hm with hm | hm
    · exact Or.inl hm
    · obtain rfl := List.mem_singleton.mp hm
      obtain rfl := Callback.proxy.inj hproxy
      exact Or.inr (Or.inr ⟨batch, rfl, rfl⟩)
  | askLeader callback =>
    rcases List.mem_append.mp hm with hm | hm
    · exact Or.inl hm
    · obtain rfl := List.mem_singleton.mp hm
      exact Or.inr (Or.inl rfl)
  | restart clock written accepts => cases hm
  | timeStep | processTask | flush | forward => exact Or.inl hm

namespace Wired

variable {members : Finset ℕ} {a quorumSize : ℕ} {p : Process}

/-- A process whose node has stepped. -/
theorem of_sameNode (h : Wired members a quorumSize p) {n : Node} (hnode : SameNode p.node n) :
    Wired members a quorumSize { p with node := n } :=
  { h with
    identity := hnode.identity.trans h.identity
    quorumSize := hnode.quorumSize.trans h.quorumSize }

theorem emit (h : Wired members a quorumSize p) {k : ℕ} {worker : QuorumWorker}
    {result : QuorumWorker × WorkerOutput} (hworker : worker ∈ p.workers)
    (hends : SameEnds worker result.1) (hrequests : ∀ m ∈ result.2.requests, AnswersSender m) :
    Wired members a quorumSize (p.emit k result).1 where
  identity := h.identity
  quorumSize := h.quorumSize
  selfId w hw := by
    rcases List.mem_or_eq_of_mem_set hw with hw | rfl
    · exact h.selfId w hw
    · exact hends.1.trans (h.selfId worker hworker)
  memberId w hw := by
    rcases List.mem_or_eq_of_mem_set hw with hw | rfl
    · exact h.memberId w hw
    · rw [hends.2]
      exact h.memberId worker hworker
  inbox m hm := by
    rcases List.mem_append.mp hm with hm | hm
    · exact h.inbox m hm
    · exact hrequests m hm

/-- What a worker sends goes from node `a` to its other member. -/
theorem addressed_emit (h : Wired members a quorumSize p) (ha : a ∈ members) {k : ℕ}
    {worker : QuorumWorker} {result : QuorumWorker × WorkerOutput} (hworker : worker ∈ p.workers)
    (hends : SameEnds worker result.1)
    (hsigned : ∀ message ∈ result.2.messages, ∀ x ∈ message.signature, x = worker.selfId) :
    ∀ packet ∈ (p.emit k result).2, Addressed members packet ∧ packet.src = a := by
  intro packet hpacket
  obtain ⟨message, hmessage, rfl⟩ := List.mem_map.mp hpacket
  have hself := hends.1.trans (h.selfId worker hworker)
  obtain ⟨hmember, hne⟩ := h.memberId worker hworker
  refine ⟨⟨?_, ?_, ?_, ?_⟩, hself⟩
  · rw [hself]
    exact ha
  · rw [hends.2]
    exact hmember
  · rw [hself, hends.2]
    exact hne.symm
  · intro x hx
    rw [hends.1]
    exact hsigned message hmessage x hx

/-- A worker takes the task at the head of its queue. -/
theorem workerTask (h : Wired members a quorumSize p) (ha : a ∈ members)
    (utf8Lossy : List UInt8 → List UInt8) (k now : ℕ) :
    Wired members a quorumSize (p.workerTask utf8Lossy k now).1 ∧
      ∀ packet ∈ (p.workerTask utf8Lossy k now).2, Addressed members packet ∧ packet.src = a := by
  unfold Process.workerTask
  split
  · next worker task rest hworker htasks =>
    have hmem : worker ∈ p.workers := List.mem_of_getElem? hworker
    have hnode := h.of_sameNode (n := p.node.withShared { p.node.shared with
      quorumWorkerTasks := p.node.shared.quorumWorkerTasks.set k rest }) ⟨rfl, rfl⟩
    refine ⟨hnode.emit hmem (worker.processTask_sends utf8Lossy now task).1.ends ?_,
      hnode.addressed_emit ha hmem (worker.processTask_sends utf8Lossy now task).1.ends
        (worker.signature_processTask utf8Lossy now task)⟩
    rw [(worker.processTask_sends utf8Lossy now task).1.requests]
    simp
  · exact ⟨h, by simp⟩

/-- The heartbeat of a worker. -/
theorem heartbeat (h : Wired members a quorumSize p) (ha : a ∈ members) (k now : ℕ) :
    Wired members a quorumSize (p.heartbeat k now).1 ∧
      ∀ packet ∈ (p.heartbeat k now).2, Addressed members packet ∧ packet.src = a := by
  unfold Process.heartbeat
  split
  · next worker hworker =>
    have hmem : worker ∈ p.workers := List.mem_of_getElem? hworker
    refine ⟨h.emit hmem (worker.sendHeartbeatIfNeeded_same now).ends ?_,
      h.addressed_emit ha hmem (worker.sendHeartbeatIfNeeded_same now).ends
        (worker.signature_sendHeartbeatIfNeeded now)⟩
    rw [(worker.sendHeartbeatIfNeeded_same now).requests]
    simp
  · exact ⟨h, by simp⟩

/-- A worker sends the answer to a request of its peer. -/
theorem answer (h : Wired members a quorumSize p) (ha : a ∈ members) (k j : ℕ) :
    Wired members a quorumSize (p.answer k j).1 ∧
      ∀ packet ∈ (p.answer k j).2, Addressed members packet ∧ packet.src = a := by
  unfold Process.answer
  split
  · next worker hworker =>
    have hmem : worker ∈ p.workers := List.mem_of_getElem? hworker
    split
    · next channel task htask =>
      split
      · next payload hpayload =>
        have hnode := h.of_sameNode (n := p.node.withShared { p.node.shared with
          callbackResponses := p.node.shared.callbackResponses.eraseP
            (·.1 = Callback.pending worker.memberId channel task) }) ⟨rfl, rfl⟩
        refine ⟨hnode.emit hmem ⟨rfl, rfl⟩ ?_, hnode.addressed_emit ha hmem ⟨rfl, rfl⟩ ?_⟩
        · rw [worker.requests_handlePendingTaskResponse]
          simp
        · intro message hmessage x hx
          rw [worker.signature_handlePendingTaskResponse task payload message hmessage] at hx
          cases hx
      · exact ⟨h, by simp⟩
    · exact ⟨h, by simp⟩
  · exact ⟨h, by simp⟩

/-- A client's request is put into the inbox. -/
theorem enqueue (h : Wired members a quorumSize p) {m : LocalRaftMessage} (hm : AnswersSender m) :
    Wired members a quorumSize { p with inbox := p.inbox ++ [m] } :=
  { h with inbox := List.forall_mem_append.mpr ⟨h.inbox, List.forall_mem_singleton.mpr hm⟩ }

/-- **Events of a process.** -/
theorem step [Capnp] (h : Wired members a quorumSize p) (ha : a ∈ members)
    (utf8Lossy : List UInt8 → List UInt8) (event : ProcessEvent) :
    Wired members a quorumSize (p.step utf8Lossy event).1 ∧
      ∀ packet ∈ (p.step utf8Lossy event).2, Addressed members packet ∧ packet.src = a := by
  have hsilent : ∀ {p' : Process}, Wired members a quorumSize p' →
      Wired members a quorumSize (p', ([] : List Packet)).1 ∧
        ∀ packet ∈ (p', ([] : List Packet)).2, Addressed members packet ∧ packet.src = a :=
    fun h => ⟨h, by simp⟩
  cases event with
  | accept clock =>
    refine hsilent ?_
    unfold Process.accept
    split
    · next message rest hinbox =>
      have hnode := h.of_sameNode (SameNode.step p.node (.accept clock message))
      exact { hnode with inbox := fun m hm => h.inbox m (by rw [hinbox]; exact .tail _ hm) }
    · exact h
  | timeStep clock part => exact hsilent (h.of_sameNode (SameNode.step p.node _))
  | processTask => exact hsilent (h.of_sameNode (SameNode.step p.node _))
  | flush => exact hsilent (h.of_sameNode (SameNode.step p.node _))
  | workerTask k now => exact h.workerTask ha utf8Lossy k now
  | heartbeat k now => exact h.heartbeat ha k now
  | answer k j => exact h.answer ha k j
  | write batch callback => exact hsilent (h.enqueue trivial)
  | forward k batchId batch callback => exact hsilent (h.of_sameNode ⟨rfl, rfl⟩)
  | askLeader callback => exact hsilent (h.enqueue trivial)
  | restart clock written accepts =>
    have hnode := h.of_sameNode (SameNode.step p.node (.restart clock written accepts))
    refine hsilent ⟨hnode.identity, hnode.quorumSize, ?_, ?_, by simp⟩
    · intro worker hworker
      obtain ⟨old, hold, rfl⟩ := List.mem_map.mp hworker
      exact h.selfId old hold
    · intro worker hworker
      obtain ⟨old, hold, rfl⟩ := List.mem_map.mp hworker
      exact h.memberId old hold

/-- **A message arrives.** -/
theorem receive (h : Wired members a quorumSize p) (ha : a ∈ members) {src : ℕ}
    {message : QuorumMessage} (hsigned : ∀ x ∈ message.signature, x = src) :
    Wired members a quorumSize (p.receive src message).1 ∧
      ∀ packet ∈ (p.receive src message).2, Addressed members packet ∧ packet.src = a := by
  unfold Process.receive
  split
  · next k hfind =>
    split
    · next worker hworker =>
      have hmem : worker ∈ p.workers := List.mem_of_getElem? hworker
      have hmember : worker.memberId = src := by
        obtain ⟨hlt, hsrc, -⟩ := List.findIdx?_eq_some_iff_getElem.mp hfind
        rw [List.getElem?_eq_getElem hlt] at hworker
        rw [← Option.some.inj hworker]
        exact of_decide_eq_true hsrc
      refine ⟨h.emit hmem (worker.sameView_handleInboundMessage message).ends
        (worker.answersSender_handleInboundMessage (hmember ▸ hsigned)),
        h.addressed_emit ha hmem (worker.sameView_handleInboundMessage message).ends ?_⟩
      intro m hm x hx
      rw [worker.signature_handleInboundMessage message m hm] at hx
      cases hx
    · exact ⟨h, by simp⟩
  · exact ⟨h, by simp⟩

end Wired

/-! ## The cluster -/

/-- All processes are wired, all messages addressed. -/
structure Connected [ParsesSocketAddr] (C : Cluster) (w : World) : Prop where
  wired : ∀ a ∈ C.members, Wired C.members a (C.config a).quorumSize (w.process a)
  addressed : ∀ packet ∈ w.net, Addressed C.members packet

namespace Connected

variable [ParsesSocketAddr] {C : Cluster} {w : World}

theorem start [Capnp] (clock : ℕ → Clock) (accepts : ℕ → ℕ → Bool) :
    Connected C (World.start C clock accepts) := by
  refine ⟨fun a ha => ?_, by simp [World.start]⟩
  have hid := C.nodeId a ha
  refine ⟨hid, rfl, ?_, ?_, by simp [World.start, Process.start]⟩
  · intro worker hworker
    obtain ⟨peer, -, rfl⟩ := List.mem_map.mp hworker
    exact hid
  · intro worker hworker
    obtain ⟨peer, hpeer, rfl⟩ := List.mem_map.mp hworker
    obtain ⟨node, hnode, rfl⟩ := List.mem_map.mp hpeer
    obtain ⟨hlisted, hne⟩ := List.mem_filter.mp hnode
    refine ⟨?_, hid ▸ of_decide_eq_true hne⟩
    rw [← C.agree a ha]
    exact Finset.mem_insert_of_mem (List.mem_toFinset.mpr (List.mem_map_of_mem hlisted))

theorem update (h : Connected C w) {a : ℕ} {result : Process × List Packet}
    (hwired : a ∈ C.members → Wired C.members a (C.config a).quorumSize result.1)
    (haddressed : ∀ packet ∈ result.2, Addressed C.members packet) :
    Connected C (w.update a result) where
  wired b hb := by
    by_cases hba : b = a
    · subst hba
      rw [World.process_update_self]
      exact hwired hb
    · rw [World.process_update_of_ne w hba]
      exact h.wired b hb
  addressed packet hpacket := by
    rcases List.mem_append.mp hpacket with hpacket | hpacket
    · exact h.addressed packet hpacket
    · exact haddressed packet hpacket

theorem eraseIdx (h : Connected C w) (i : ℕ) : Connected C { w with net := w.net.eraseIdx i } :=
  ⟨h.wired, fun packet hpacket => h.addressed packet (List.mem_of_mem_eraseIdx hpacket)⟩

/-- **Every step keeps the connections.** -/
theorem step [Capnp] (h : Connected C w) (label : Label) : Connected C (w.step C label) := by
  cases label with
  | act a event =>
    by_cases ha : a ∈ C.members
    · rw [World.step_act ha]
      obtain ⟨hwired, haddressed⟩ := (h.wired a ha).step ha C.utf8Lossy event
      exact h.update (fun _ => hwired) fun packet hpacket => (haddressed packet hpacket).1
    · rw [World.step_act_of_notMem ha]
      exact h
  | deliver i =>
    rcases hpacket : w.net[i]? with _ | packet
    · rw [World.step_deliver_of_none hpacket]
      exact h
    · rw [World.step_deliver hpacket]
      have haddr := h.addressed packet (List.mem_of_getElem? hpacket)
      obtain ⟨hwired, haddressed⟩ := (h.wired packet.dst haddr.dst).receive haddr.dst haddr.signature
      exact (h.eraseIdx i).update (fun _ => hwired) fun packet hpacket =>
        (haddressed packet hpacket).1
  | lose i => exact h.eraseIdx i

end Connected

end Kraft
