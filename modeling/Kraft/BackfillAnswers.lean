/-
# How a leader answers a backfill

A quorum worker whose peer refuses an entry asks the state machine for a backfill and sets
`ongoing_backfill`; until the flag is cleared it ignores further refusals.  What clears it is the
answer: entries that are sent, or the peer's confirmation of a truncation.

* `QueuesGrow` : a step of the state machine only adds to the queues of the quorum workers.
* `Staffed` : a process keeps one worker and one queue for each of its peers.
* `answers_handleBackfillRequests` : a request that the leader has noted is answered by a task that
  clears the flag or asks for a truncation, unless it names the leader's own last entry.
* `Node.Holds` : the answer is still at the node.  `Process.holds_step` : in an event of a process
  that goes on leading it stays there, clears the flag or becomes a truncation on its way.
-/
import Kraft.LogRepresentation
import Kraft.RepairExchange

namespace Kraft

open SharedState StateMachine

variable {k m : ℕ} {n : Node} {result : QuorumWorker × WorkerOutput}
  {P : LocalQuorumWorkerTaskType → Prop}

/-! ## Queues grow -/

/-- Tasks have been pushed on queues, and none was taken. -/
def QueuesGrow (s s' : SharedState) : Prop := ∃ new, Queued s s' new

namespace QueuesGrow

variable {s s₁ : SharedState}

theorem length (h : QueuesGrow s s₁) :
    s₁.quorumWorkerTasks.length = s.quorumWorkerTasks.length := by
  obtain ⟨new, hnew⟩ := h
  have hbounds : ∀ k, s₁.quorumWorkerTasks.length ≤ k ↔ s.quorumWorkerTasks.length ≤ k := by
    intro k
    rw [← List.getElem?_eq_none_iff, ← List.getElem?_eq_none_iff, hnew k, Option.map_eq_none_iff]
  exact le_antisymm ((hbounds _).mpr le_rfl) ((hbounds _).mp le_rfl)

/-- A task that waits goes on waiting. -/
theorem mem (h : QueuesGrow s s₁) {task : LocalQuorumWorkerTaskType}
    (htask : task ∈ (s.quorumWorkerTasks[k]?).getD []) :
    task ∈ (s₁.quorumWorkerTasks[k]?).getD [] := by
  obtain ⟨new, hnew⟩ := h
  rw [hnew k]
  rcases htasks : s.quorumWorkerTasks[k]? with _ | tasks
  · rw [htasks] at htask
    cases htask
  · rw [htasks] at htask
    exact List.mem_append_left _ htask

end QueuesGrow

/-- **A request.** -/
theorem queuesGrow_accept (clock : Clock) (message : LocalRaftMessage) (sm : StateMachine) :
    QueuesGrow sm.shared (sm.accept clock message).shared :=
  (hands_accept clock message sm).imp fun _ hnew => hnew.1

/-- **A part of `time_step`.** -/
theorem queuesGrow_runPart (clock : Clock) (sm : StateMachine) (part : TimeStepPart) :
    QueuesGrow sm.shared (sm.runPart clock part).shared :=
  (hands_runPart clock sm part).imp fun _ hnew => hnew.1

/-! ## Workers and queues of a process -/

/-- The process has one worker and one queue for each of its peers. -/
structure Staffed (peers : List ℕ) (p : Process) : Prop where
  workers : p.workers.map (·.memberId) = peers
  queues : p.node.shared.quorumWorkerTasks.length = peers.length

namespace Staffed

variable {peers : List ℕ} {p : Process}

/-- Every peer has its worker. -/
theorem worker (h : Staffed peers p) (hk : peers[k]? = some m) :
    ∃ worker, p.workers[k]? = some worker ∧ worker.memberId = m := by
  rw [← h.workers, List.getElem?_map] at hk
  exact Option.map_eq_some_iff.mp hk

theorem memberId (h : Staffed peers p) {worker : QuorumWorker}
    (hworker : p.workers[k]? = some worker) : peers[k]? = some worker.memberId := by
  rw [← h.workers, List.getElem?_map, hworker]
  rfl

theorem of_queues (h : Staffed peers p) {inbox : List LocalRaftMessage}
    (hqueues : n.shared.quorumWorkerTasks.length = p.node.shared.quorumWorkerTasks.length) :
    Staffed peers { p with node := n, inbox := inbox } :=
  ⟨h.workers, hqueues.trans h.queues⟩

/-- A worker has done something. -/
theorem emit (h : Staffed peers p) {worker : QuorumWorker} (hworker : p.workers[k]? = some worker)
    (hends : SameEnds worker result.1) : Staffed peers (p.emit k result).1 := by
  refine ⟨?_, h.queues⟩
  show (p.workers.set k result.1).map (·.memberId) = peers
  rw [List.map_set, h.workers, hends.2]
  refine List.ext_getElem? fun j => ?_
  rw [List.getElem?_set]
  split_ifs with hkj hlt
  · rw [← hkj, h.memberId hworker]
  · rw [← hkj, List.getElem?_eq_none (Nat.le_of_not_lt hlt)]
  · rfl

/-- The node acts. -/
theorem node [Capnp] (h : Staffed peers p) (e : NodeEvent) (inbox : List LocalRaftMessage) :
    Staffed peers { p with node := p.node.step e, inbox := inbox } := by
  refine h.of_queues ?_
  cases e with
  | accept clock message => exact (queuesGrow_accept clock message p.node.machine).length
  | timeStep clock part => exact (queuesGrow_runPart clock p.node.machine part).length
  | respond response => rfl
  | processTask =>
    obtain ⟨work, isOpen, responses, heq⟩ := Node.serves_processTask p.node
    exact congrArg (fun sm => sm.shared.quorumWorkerTasks.length) heq
  | flush =>
    obtain ⟨work, isOpen, responses, heq⟩ := Node.serves_flush p.node
    exact congrArg (fun sm => sm.shared.quorumWorkerTasks.length) heq
  | restart clock written accepts => exact List.length_replicate

/-- **Events of a process.** -/
theorem step [Capnp] (h : Staffed peers p) (utf8Lossy : List UInt8 → List UInt8)
    (event : ProcessEvent) : Staffed peers (p.step utf8Lossy event).1 := by
  cases event with
  | accept clock =>
    show Staffed peers (p.accept clock)
    unfold Process.accept
    split
    · exact h.node ..
    · exact h
  | timeStep clock part => exact h.node (.timeStep clock part) p.inbox
  | processTask => exact h.node .processTask p.inbox
  | flush => exact h.node .flush p.inbox
  | workerTask k now =>
    show Staffed peers (p.workerTask utf8Lossy k now).1
    unfold Process.workerTask
    split
    · next worker task rest hworker htasks =>
      have hnode : Staffed peers { p with node := p.node.withShared { p.node.shared with
          quorumWorkerTasks := p.node.shared.quorumWorkerTasks.set k rest } } :=
        h.of_queues List.length_set
      exact hnode.emit hworker (worker.processTask_sends utf8Lossy now task).1.ends
    · exact h
  | heartbeat k now =>
    show Staffed peers (p.heartbeat k now).1
    unfold Process.heartbeat
    split
    · next worker hworker => exact h.emit hworker (worker.sendHeartbeatIfNeeded_same now).ends
    · exact h
  | answer k j =>
    show Staffed peers (p.answer k j).1
    unfold Process.answer
    split
    · next worker hworker =>
      split
      · next channel task htask =>
        split
        · have hnode : Staffed peers { p with node := p.node.withShared { p.node.shared with
              callbackResponses := p.node.shared.callbackResponses.eraseP
                (·.1 = Callback.pending worker.memberId channel task) } } := h.of_queues rfl
          exact hnode.emit hworker ⟨rfl, rfl⟩
        · exact h
      · exact h
    · exact h
  | write batch callback => exact ⟨h.workers, h.queues⟩
  | forward k batchId batch callback =>
    refine h.of_queues ?_
    show (Leader.pushToWorker k _ p.node.shared).quorumWorkerTasks.length = _
    rw [Leader.pushToWorker_quorumWorkerTasks, List.length_modify]
  | askLeader callback => exact ⟨h.workers, h.queues⟩
  | restart clock written accepts =>
    refine ⟨?_, (h.node (.restart clock written accepts) []).queues⟩
    show (p.workers.map fun worker => QuorumWorker.new worker.selfId worker.memberId).map _ = peers
    rw [List.map_map, ← h.workers]
    rfl

/-- A message is handled by the worker for its sender. -/
theorem receive_eq (h : Staffed peers p) (hnodup : peers.Nodup) (hk : peers[k]? = some m)
    (message : QuorumMessage) : ∃ worker, p.workers[k]? = some worker ∧ worker.memberId = m ∧
      p.receive m message = p.emit k (worker.handleInboundMessage message) := by
  obtain ⟨worker, hworker, hmember⟩ := h.worker hk
  refine ⟨worker, hworker, hmember, ?_⟩
  have hfind : p.workers.findIdx? (·.memberId = m) = some k := by
    obtain ⟨hlt, hget⟩ := List.getElem?_eq_some_iff.mp hworker
    refine List.findIdx?_eq_some_iff_getElem.mpr ⟨hlt, by simp [hget, hmember], fun j hj => ?_⟩
    have hjlt : j < p.workers.length := hj.trans hlt
    have hpeer := h.memberId (List.getElem?_eq_getElem hjlt)
    simp only [Bool.not_eq_true, decide_eq_false_iff_not]
    intro heq
    have hlen : j < peers.length := (List.getElem?_eq_some_iff.mp hpeer).1
    have hjk : j = k := (List.getElem?_inj hlen hnodup).mp ((heq ▸ hpeer).trans hk.symm)
    omega
  unfold Process.receive
  rw [hfind]
  dsimp only
  rw [hworker]

/-- A message is received. -/
theorem receive (h : Staffed peers p) (src : ℕ) (message : QuorumMessage) :
    Staffed peers (p.receive src message).1 := by
  unfold Process.receive
  split
  · split
    · next worker hworker => exact h.emit hworker (worker.sameView_handleInboundMessage message).ends
    · exact h
  · exact h

end Staffed

/-! ## The answer at the node -/

/-- A log with this end ends, in term and index, as the given one does. -/
def EndsAt (log : List OwnedLogEntry) (term index : ℕ) : Prop :=
  term ≠ 0 ∧ index + 1 = log.length ∧ (log[index]?).map OwnedLogEntry.term = some term

instance (log : List OwnedLogEntry) (term index : ℕ) : Decidable (EndsAt log term index) :=
  inferInstanceAs (Decidable (_ ∧ _ ∧ _))

/-- The task answers a backfill: the worker clears the flag, or asks the peer to truncate. -/
def LocalQuorumWorkerTaskType.Answers : LocalQuorumWorkerTaskType → Prop
  | .backfillLog data => data ≠ []
  | .truncateLog .. => True
  | _ => False

/-- The leader answers with such a task unless the peer's log ends as the leader's does. -/
theorem answers_repairTask (id : ℕ) {log : List OwnedLogEntry} {term index : ℕ}
    (h : ¬ EndsAt log term index) : (repairTask id log term index).Answers := by
  unfold repairTask
  rcases hentry : log[index]? with _ | entry
  · trivial
  · dsimp only
    split_ifs with hmismatch hzero
    · rcases Leader.findTermBelow log term index with _ | truncateTo
      · trivial
      · trivial
    · intro hnil
      rw [List.drop_zero] at hnil
      rw [hnil] at hentry
      cases hentry
    · intro hnil
      refine h ⟨hzero, ?_, ?_⟩
      · have hlt := (List.getElem?_eq_some_iff.mp hentry).1
        have hle := List.drop_eq_nil_iff.mp hnil
        omega
      · rw [hentry, Option.map_some]
        exact congrArg some (by_contra fun hne => hmismatch ⟨hne, hzero⟩)

/-- **The requests that a leader has noted** are answered. -/
theorem answers_handleBackfillRequests {term index : ℕ} (requests : List (ℕ × ℕ × ℕ)) :
    ∀ s : SharedState, Leader.getQuorumWorkerIndex m s.identity = k →
      k < s.quorumWorkerTasks.length → (m, term, index) ∈ requests →
      ¬ EndsAt s.replicationLog term index →
        ∃ task, task.Answers ∧
          task ∈ ((handleBackfillRequests requests s).quorumWorkerTasks[k]?).getD [] := by
  induction requests with
  | nil => rintro s - - ⟨⟩
  | cons r rest ih =>
    intro s hroute hlt hmem hend
    have hgrow : QueuesGrow s (Leader.handleBackfillRequest r.1 r.2.1 r.2.2 s) :=
      (handleBackfillRequest_queued r.1 r.2.1 r.2.2 s).imp fun _ h => h.1
    rcases List.mem_cons.mp hmem with rfl | hmem
    · -- the task is there after this request, and goes on waiting
      have hassigns := assigns_handleBackfillRequest (hroute.symm ▸ hlt) term index
      rw [hroute] at hassigns
      have hgrows : QueuesGrow (Leader.handleBackfillRequest m term index s)
          (handleBackfillRequests rest (Leader.handleBackfillRequest m term index s)) :=
        (handleBackfillRequests_queued rest _).imp fun _ h => h.1
      refine ⟨_, answers_repairTask s.nextMessageId hend, hgrows.mem ?_⟩
      rw [hassigns.queue, List.getElem?_eq_getElem hlt]
      simp
    · exact ih _ (by simpa using hroute) (hgrow.length ▸ hlt) hmem (by simpa using hend)

/-- The answer to a backfill of member `m` is at the node: as a response, among the requests that
`time_step` has taken from the queue of responses, or as a task for worker `k`. -/
inductive Node.Holds (P : LocalQuorumWorkerTaskType → Prop) (n : Node) (k m : ℕ) : Prop
  | response (term index : ℕ) (waits : .backfillLog m term index ∈ n.shared.quorumResponse)
  | noted (term index : ℕ) (waits : (m, term, index) ∈ n.machine.backfillRequests)
  | queued (task : LocalQuorumWorkerTaskType) (answers : P task) (waits : task ∈ n.queue k)

/-- What is held stays held while the queues grow. -/
theorem Node.Holds.mono {n' : Node} (h : n.Holds P k m)
    (hresponse : ∀ r ∈ n.shared.quorumResponse, r ∈ n'.shared.quorumResponse)
    (hnoted : ∀ r ∈ n.machine.backfillRequests, r ∈ n'.machine.backfillRequests)
    (hqueue : ∀ task ∈ n.queue k, task ∈ n'.queue k) : n'.Holds P k m := by
  cases h with
  | response term index waits => exact .response term index (hresponse _ waits)
  | noted term index waits => exact .noted term index (hnoted _ waits)
  | queued task answers waits => exact .queued task answers (hqueue _ waits)

/-- A leader that goes on leading keeps the requests it has noted. -/
theorem backfillRequests_accept {clock : Clock} {message : LocalRaftMessage} {sm : StateMachine}
    (h : (sm.accept clock message).delegate.nodeType = .leader) :
    (sm.accept clock message).backfillRequests = sm.backfillRequests := by
  unfold StateMachine.accept at h ⊢
  split at h
  · unfold StateMachine.acceptRequestVote
    split <;> rfl
  · unfold StateMachine.acceptAppendEntries StateMachine.followIf at h ⊢
    split at h
    · rfl
    · split_ifs at h ⊢
      · simp [newFollower] at h
      · rfl
    · split_ifs at h ⊢
      · simp [newFollower] at h
      · rfl
  · rfl
  · unfold StateMachine.acceptWriteBatch
    split <;> rfl

/-- What the leader must not be asked: for the entries behind its own last one. -/
def Node.AnswersRequests (n : Node) (m : ℕ) : NodeEvent → Prop
  | .timeStep _ .finish => ∀ request ∈ n.machine.backfillRequests, request.1 = m →
      ¬ EndsAt n.shared.replicationLog request.2.1 request.2.2
  | _ => True

instance (n : Node) (m : ℕ) (e : NodeEvent) : Decidable (n.AnswersRequests m e) := by
  delta Node.AnswersRequests
  rcases e with _ | ⟨_, _ | _ | _ | _⟩ | _ | _ | _ | _ <;> infer_instance

/-- The request that a leader notes. -/
def LocalQuorumTaskResponseType.request : LocalQuorumTaskResponseType → List (ℕ × ℕ × ℕ)
  | .backfillLog node term index => [(node, term, index)]
  | _ => []

/-- A leader notes a request for entries. -/
theorem backfillRequests_handleQuorum (response : LocalQuorumTaskResponseType) {sm : StateMachine}
    (h : sm.delegate.nodeType = .leader) :
    (sm.handleQuorum response).backfillRequests = sm.backfillRequests ++ response.request := by
  obtain ⟨initialized, hrole⟩ := Delegate.nodeType_eq_leader h
  unfold StateMachine.handleQuorum
  rw [hrole]
  cases response with
  | backfillLog node term index => rfl
  | _ => exact (List.append_nil _).symm

theorem backfillRequests_handlePersistence (response : PersistenceResponseType) {sm : StateMachine}
    (h : sm.delegate.nodeType = .leader) :
    (sm.handlePersistence response).backfillRequests = sm.backfillRequests := by
  obtain ⟨initialized, hrole⟩ := Delegate.nodeType_eq_leader h
  unfold StateMachine.handlePersistence
  rw [hrole]

/-- The persistence worker takes nothing away. -/
theorem Node.Holds.serves {n' : Node} (h : n.Holds P k m)
    (hserves : Node.Serves n.machine n'.machine) : n'.Holds P k m := by
  obtain ⟨work, isOpen, responses, heq⟩ := hserves
  refine h.mono (fun r hr => ?_) (fun r hr => ?_) fun task htask => ?_
  · show r ∈ n'.machine.shared.quorumResponse
    rw [heq]
    exact hr
  · rw [heq]
    exact hr
  · show task ∈ (n'.machine.shared.quorumWorkerTasks[k]?).getD []
    rw [heq]
    exact htask

/-- A leader that takes a response from the queue notes it if it is a backfill. -/
theorem holds_popQuorum (hlead : n.machine.delegate.nodeType = .leader) (h : n.Holds P k m) :
    ({ n with machine := n.machine.popQuorum } : Node).Holds P k m := by
  rcases popQuorum_cases n.machine with heq | ⟨response, rest, hqueue, heq⟩
  · rw [heq]
    exact h
  · have hgrow : QueuesGrow n.shared n.machine.popQuorum.shared :=
      queuesGrow_runPart ⟨0, 0⟩ n.machine .popQuorum
    have hframe := responseFrame_handleQuorum response (n.machine.dropQuorum rest)
    have hresponses : n.machine.popQuorum.shared.quorumResponse = rest := by
      rw [heq]
      exact hframe.quorumResponse
    have hnoted : n.machine.popQuorum.backfillRequests =
        n.machine.backfillRequests ++ response.request := by
      rw [heq]
      exact backfillRequests_handleQuorum response hlead
    cases h with
    | response term index waits =>
      have waits : .backfillLog m term index ∈ n.machine.shared.quorumResponse := waits
      rw [hqueue] at waits
      rcases List.mem_cons.mp waits with rfl | waits
      · refine .noted term index ?_
        show _ ∈ n.machine.popQuorum.backfillRequests
        rw [hnoted]
        exact List.mem_append_right _ (List.mem_singleton.mpr rfl)
      · refine .response term index ?_
        show _ ∈ n.machine.popQuorum.shared.quorumResponse
        rw [hresponses]
        exact waits
    | noted term index waits =>
      refine .noted term index ?_
      show _ ∈ n.machine.popQuorum.backfillRequests
      rw [hnoted]
      exact List.mem_append_left _ waits
    | queued task answers waits => exact .queued task answers (hgrow.mem waits)

/-- A leader that ends its `time_step` answers what it has noted. -/
theorem holds_finish (clock : Clock)
    (hroute : Leader.getQuorumWorkerIndex m n.shared.identity = k)
    (hlt : k < n.shared.quorumWorkerTasks.length) (hlead : n.machine.delegate.nodeType = .leader)
    (hok : n.AnswersRequests m (.timeStep clock .finish)) (h : n.Holds (·.Answers) k m) :
    ({ n with machine := n.machine.finish clock } : Node).Holds (·.Answers) k m := by
  have hgrow : QueuesGrow n.shared (n.machine.finish clock).shared :=
    queuesGrow_runPart clock n.machine .finish
  obtain ⟨first, hframe, -⟩ := voteFrame_finish clock n.machine
  cases h with
  | response term index waits => exact .response term index (hframe.quorumResponse ▸ waits)
  | noted term index waits =>
    obtain ⟨initialized, hrole⟩ := Delegate.nodeType_eq_leader hlead
    cases initialized with
    | true =>
      obtain ⟨task, answers, hmem⟩ := answers_handleBackfillRequests n.machine.backfillRequests
        n.shared hroute hlt waits (hok _ waits rfl)
      refine .queued task answers ?_
      show task ∈ ((n.machine.finish clock).shared.quorumWorkerTasks[k]?).getD []
      unfold StateMachine.finish
      rw [hrole]
      simpa using hmem
    | false =>
      have hsame : n.machine.finish clock = n.machine := by
        unfold StateMachine.finish
        rw [hrole]
      rw [hsame]
      exact .noted term index waits
  | queued task answers waits => exact .queued task answers (hgrow.mem waits)

/-- **One event of a node that goes on leading.** -/
theorem holds_step [Capnp] (hroute : Leader.getQuorumWorkerIndex m n.shared.identity = k)
    (hlt : k < n.shared.quorumWorkerTasks.length) (hlead : n.machine.delegate.nodeType = .leader)
    {e : NodeEvent} (hlead' : (n.step e).machine.delegate.nodeType = .leader)
    (hok : n.AnswersRequests m e) (h : n.Holds (·.Answers) k m) :
    (n.step e).Holds (·.Answers) k m := by
  cases e with
  | accept clock message =>
    obtain ⟨first, hframe, -⟩ := voteFrame_accept clock message n.machine
    exact h.mono (fun r hr => hframe.quorumResponse ▸ hr)
      (fun r hr => backfillRequests_accept hlead' ▸ hr)
      fun task htask => (queuesGrow_accept clock message n.machine).mem htask
  | timeStep clock part =>
    cases part with
    | takeOffice =>
      refine h.mono (fun r hr => (voteFrame_takeOffice clock n.machine).quorumResponse ▸ hr)
        (fun r hr => ?_) fun task htask => (queuesGrow_runPart clock n.machine .takeOffice).mem htask
      show r ∈ (n.machine.takeOffice clock).backfillRequests
      unfold StateMachine.takeOffice
      split <;> exact hr
    | popPersistence =>
      have hgrow : QueuesGrow n.shared n.machine.popPersistence.shared :=
        queuesGrow_runPart clock n.machine .popPersistence
      show ({ n with machine := n.machine.popPersistence } : Node).Holds _ k m
      rcases popPersistence_cases n.machine with heq | ⟨response, rest, -, heq⟩
      · rw [heq]
        exact h
      · have hframe := responseFrame_handlePersistence response (n.machine.dropPersistence rest)
        have hnoted := @backfillRequests_handlePersistence response (n.machine.dropPersistence rest)
          hlead
        rw [heq] at hgrow ⊢
        exact h.mono (fun r hr => hframe.quorumResponse ▸ hr) (fun r hr => hnoted ▸ hr)
          fun task htask => hgrow.mem htask
    | popQuorum => exact holds_popQuorum hlead h
    | finish => exact holds_finish clock hroute hlt hlead hok h
  | respond response => exact h.mono (fun r hr => List.mem_append_left _ hr) (fun _ => id) fun _ => id
  | processTask => exact h.serves (Node.serves_processTask n)
  | flush => exact h.serves (Node.serves_flush n)
  | restart clock written accepts => cases hlead'

/-! ## The flag and the queue of a worker -/

/-- Worker `k` of the process has a backfill under way. -/
def Process.Flagged (p : Process) (k : ℕ) : Prop :=
  ∃ worker, p.workers[k]? = some worker ∧ worker.ongoingBackfill ≠ none

instance (p : Process) (k : ℕ) : Decidable (p.Flagged k) :=
  inferInstanceAs (Decidable (∃ worker ∈ p.workers[k]?, worker.ongoingBackfill ≠ none))

/-- A task sets no flag, and an answer that is no truncation clears it. -/
theorem QuorumWorker.ongoingBackfill_processTask (utf8Lossy : List UInt8 → List UInt8) (now : ℕ)
    (task : LocalQuorumWorkerTaskType) (w : QuorumWorker) :
    ((w.processTask utf8Lossy now task).1.ongoingBackfill ≠ none → w.ongoingBackfill ≠ none) ∧
      (task.Answers → (w.processTask utf8Lossy now task).1.ongoingBackfill = none ∨
        ∃ prevTerm prevIndex, .truncateLogRequest prevTerm prevIndex w.term w.selfId 0 ∈
          (w.processTask utf8Lossy now task).2.messages) := by
  cases task with
  | backfillLog data =>
    show ((w.sendBackfillEntries now data).1.ongoingBackfill ≠ none → _) ∧
      (data ≠ [] → (w.sendBackfillEntries now data).1.ongoingBackfill = none ∨ _)
    unfold sendBackfillEntries
    by_cases hdata : data = []
    · rw [if_pos hdata]
      exact ⟨id, fun h => absurd hdata h⟩
    · rw [if_neg hdata]
      exact ⟨fun h => absurd rfl h, fun _ => Or.inl rfl⟩
  | truncateLog id prevTerm prevIndex =>
    exact ⟨fun h => h, fun _ => Or.inr ⟨prevTerm, prevIndex, List.mem_singleton.mpr rfl⟩⟩
  | _ => exact ⟨fun h => h, fun h => h.elim⟩

namespace Process

variable {p : Process} {k : ℕ}

/-- What a worker pushes and sends leaves the flags of the others, and sets its own only if the
worker does. -/
theorem Flagged.of_emit {j : ℕ} {worker : QuorumWorker} (hworker : p.workers[j]? = some worker)
    (hflag : result.1.ongoingBackfill ≠ none → worker.ongoingBackfill ≠ none)
    (h : (p.emit j result).1.Flagged k) : p.Flagged k := by
  obtain ⟨worker', hworker', hset⟩ := h
  have hworker' : (p.workers.set j result.1)[k]? = some worker' := hworker'
  rw [List.getElem?_set] at hworker'
  split_ifs at hworker' with hjk hlt
  · obtain rfl := Option.some.inj hworker'
    exact ⟨worker, hjk ▸ hworker, hflag hset⟩
  · exact ⟨worker', hworker', hset⟩

/-- **Events of a process set no flag.** -/
theorem Flagged.of_step [Capnp] {utf8Lossy : List UInt8 → List UInt8} {event : ProcessEvent}
    (h : (p.step utf8Lossy event).1.Flagged k) : p.Flagged k := by
  cases event with
  | accept clock =>
    have h : (p.accept clock).Flagged k := h
    unfold Process.accept at h
    split at h <;> exact h
  | workerTask j now =>
    have h : (p.workerTask utf8Lossy j now).1.Flagged k := h
    unfold Process.workerTask at h
    split at h
    · next worker task rest hworker htasks =>
      exact Flagged.of_emit (p := { p with node := _ }) hworker
        (worker.ongoingBackfill_processTask utf8Lossy now task).1 h
    · exact h
  | heartbeat j now =>
    have h : (p.heartbeat j now).1.Flagged k := h
    unfold Process.heartbeat at h
    split at h
    · next worker hworker =>
      refine Flagged.of_emit hworker (fun hset => ?_) h
      unfold QuorumWorker.sendHeartbeatIfNeeded at hset
      split_ifs at hset <;> exact hset
    · exact h
  | answer j i =>
    have h : (p.answer j i).1.Flagged k := h
    unfold Process.answer at h
    split at h
    · next worker hworker =>
      split at h
      · split at h
        · exact Flagged.of_emit (p := { p with node := _ }) hworker (fun hset => hset) h
        · exact h
      · exact h
    · exact h
  | restart clock written accepts =>
    obtain ⟨worker, hworker, hset⟩ := h
    obtain ⟨old, -, rfl⟩ := List.mem_map.mp (List.mem_of_getElem? hworker)
    exact absurd rfl hset
  | _ => exact h

/-- What a worker pushes takes nothing away. -/
theorem holds_emit {j : ℕ} (h : p.node.Holds P k m) : (p.emit j result).1.node.Holds P k m :=
  h.mono (fun _ hr => List.mem_append_left _ hr) (fun _ => id) fun _ => id

/-- A worker takes its next task: if that was the answer, the flag is cleared, or the truncation is
on its way. -/
theorem holds_workerTask (utf8Lossy : List UInt8 → List UInt8) (j now : ℕ) {worker : QuorumWorker}
    (hworker : p.workers[k]? = some worker) (hmember : worker.memberId = m)
    (h : p.node.Holds (·.Answers) k m) :
    ¬ (p.workerTask utf8Lossy j now).1.Flagged k ∨
      (p.workerTask utf8Lossy j now).1.node.Holds (·.Answers) k m ∨
      ∃ prevTerm prevIndex term requestId, ⟨worker.selfId, m,
        .truncateLogRequest prevTerm prevIndex term worker.selfId requestId⟩ ∈
          (p.workerTask utf8Lossy j now).2 := by
  unfold Process.workerTask
  split
  · next worker' task rest hworker' htasks =>
    by_cases hother : ∀ t ∈ p.node.queue k, t.Answers → j = k → t ∈ rest
    · -- the answer does not depend on this task
      refine Or.inr (Or.inl (holds_emit ?_))
      cases h with
      | response term index waits => exact .response term index waits
      | noted term index waits => exact .noted term index waits
      | queued t answers waits =>
        refine .queued t answers ?_
        show t ∈ ((p.node.shared.quorumWorkerTasks.set j rest)[k]?).getD []
        rw [List.getElem?_set]
        split_ifs with hjk hlt
        · exact hother t waits answers hjk
        · rw [List.getElem?_eq_none (Nat.le_of_not_lt hlt)] at htasks
          cases htasks
        · exact waits
    · -- it is this task
      push Not at hother
      obtain ⟨t, waits, answers, rfl, hrest⟩ := hother
      unfold Node.queue at waits
      rw [htasks] at waits
      obtain rfl : t = task := (List.mem_cons.mp waits).resolve_right hrest
      obtain rfl : worker' = worker := Option.some.inj (hworker'.symm.trans hworker)
      rcases (worker'.ongoingBackfill_processTask utf8Lossy now t).2 answers with
        hnone | ⟨prevTerm, prevIndex, hmessage⟩
      · left
        rintro ⟨w, hw, hset⟩
        have hw : (p.workers.set j (worker'.processTask utf8Lossy now t).1)[j]? = some w := hw
        rw [List.getElem?_set_self (List.getElem?_eq_some_iff.mp hworker).1] at hw
        obtain rfl := Option.some.inj hw
        exact hset hnone
      · obtain ⟨hself, hmember'⟩ := (worker'.processTask_sends utf8Lossy now t).1.ends
        refine Or.inr (Or.inr ⟨prevTerm, prevIndex, worker'.term, 0,
          List.mem_map.mpr ⟨_, hmessage, ?_⟩⟩)
        rw [hself, hmember', hmember]
  · exact Or.inr (Or.inl h)

/-- **Events of a process that goes on leading.** -/
theorem holds_step [Capnp] (utf8Lossy : List UInt8 → List UInt8) {event : ProcessEvent}
    {worker : QuorumWorker} (hworker : p.workers[k]? = some worker)
    (hmember : worker.memberId = m)
    (hroute : Leader.getQuorumWorkerIndex m p.node.shared.identity = k)
    (hlt : k < p.node.shared.quorumWorkerTasks.length)
    (hlead : p.node.machine.delegate.nodeType = .leader)
    (hlead' : (p.step utf8Lossy event).1.node.machine.delegate.nodeType = .leader)
    (hok : ∀ e, p.nodeEvent event = some e → p.node.AnswersRequests m e)
    (h : p.node.Holds (·.Answers) k m) :
    ¬ (p.step utf8Lossy event).1.Flagged k ∨
      (p.step utf8Lossy event).1.node.Holds (·.Answers) k m ∨
      ∃ prevTerm prevIndex term requestId, ⟨worker.selfId, m,
        .truncateLogRequest prevTerm prevIndex term worker.selfId requestId⟩ ∈
          (p.step utf8Lossy event).2 := by
  have hnode : ∀ e, p.nodeEvent event = some e →
      (p.step utf8Lossy event).1.node = p.node.step e →
        (p.step utf8Lossy event).1.node.Holds (·.Answers) k m := by
    intro e he heq
    rw [heq] at hlead' ⊢
    exact Kraft.holds_step hroute hlt hlead hlead' (hok e he) h
  cases event with
  | workerTask j now => exact holds_workerTask utf8Lossy j now hworker hmember h
  | heartbeat j now =>
    refine Or.inr (Or.inl ?_)
    show (p.heartbeat j now).1.node.Holds _ k m
    unfold Process.heartbeat
    split
    · exact holds_emit h
    · exact h
  | answer j i =>
    refine Or.inr (Or.inl ?_)
    show (p.answer j i).1.node.Holds _ k m
    unfold Process.answer
    split
    · split
      · split
        · exact holds_emit (p := { p with node := _ }) (h.mono (fun _ => id) (fun _ => id) fun _ => id)
        · exact h
      · exact h
    · exact h
  | write batch callback => exact Or.inr (Or.inl h)
  | askLeader callback => exact Or.inr (Or.inl h)
  | forward j batchId batch callback =>
    refine Or.inr (Or.inl (h.mono (fun _ => id) (fun _ => id) fun task htask => ?_))
    have hgrow : QueuesGrow p.node.shared
        (Leader.pushToWorker j (.writeBatch batchId batch callback) p.node.shared) :=
      ⟨_, .pushToWorker j (.writeBatch batchId batch callback) p.node.shared⟩
    exact hgrow.mem htask
  | accept clock =>
    refine Or.inr (Or.inl ?_)
    rcases hinbox : p.inbox with _ | ⟨message, rest⟩
    · show (p.accept clock).node.Holds _ k m
      unfold Process.accept
      rw [hinbox]
      exact h
    · refine hnode (.accept clock message) (by simp [nodeEvent, hinbox]) ?_
      show (p.accept clock).node = _
      unfold Process.accept
      rw [hinbox]
  | timeStep clock part => exact Or.inr (Or.inl (hnode _ rfl rfl))
  | processTask => exact Or.inr (Or.inl (hnode _ rfl rfl))
  | flush => exact Or.inr (Or.inl (hnode _ rfl rfl))
  | restart clock written accepts => cases hlead'

end Process

end Kraft
