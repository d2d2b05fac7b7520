/-
# Election safety

At most one node ever enters the leader role with a given term, in every run of the cluster
that meets three conditions (`election_safety`):

* the quorum size of every node is a majority of the cluster, which by `majority_iff` means
  an odd number of nodes that all list themselves (or a single node);
* no node starts an election for a term it has already voted in;
* a vote that arrives is one for an election of the present process of the candidate, and
  not for one before a restart, whose message ids are used again.

Without the first of them two nodes of a cluster of two both lead term 1
(`two_leaders_of_term_one`).

The argument is the usual one, two majorities have a common voter, on top of `BallotInv`:
the answers on their way and those that have arrived are what a process has sent.
-/
import Mathlib.Algebra.BigOperators.Group.Finset.Piecewise
import Mathlib.Algebra.Order.BigOperators.Group.Finset
import Kraft.BallotInvariant
import Kraft.Wiring

namespace Kraft

open StateMachine

variable {a b term : ℕ} {message : QuorumMessage} {packet : Packet}

/-! ## The history of a run -/

/-- What has to be remembered of a run. -/
structure History where
  /-- the message ids and terms of the elections that the present process of a node has
  started -/
  elections : ℕ → List (ℕ × ℕ)
  /-- the votes that have arrived: voter, term, candidate -/
  received : List (ℕ × ℕ × ℕ)
  /-- the nodes that have entered the leader role, with their terms -/
  leaders : List (ℕ × ℕ)

/-- A world with its history. -/
structure Trace where
  world : World
  history : History

/-- The vote a message grants: voter, term, candidate. -/
def Packet.grant (packet : Packet) : Option (ℕ × ℕ × ℕ) :=
  match packet.message with
  | .voteResponse true _ term => some (packet.src, term, packet.dst)
  | _ => none

section Trace

variable [Capnp] [ParsesSocketAddr]

/-- The elections of the present process of a node after an event. -/
def electionsAfter (p : Process) (elections : List (ℕ × ℕ)) : ProcessEvent → List (ℕ × ℕ)
  | .timeStep clock part =>
    if p.node.machine.startsElection clock part then
      elections ++ [(p.node.shared.nextMessageId, p.node.shared.nextTerm)]
    else elections
  | .restart .. => []
  | _ => elections

/-- The terms a node has won after an event. -/
def wonAfter (p : Process) (won : ℕ → Prop) : ProcessEvent → ℕ → Prop
  | .timeStep _ part => fun term => won term ∨ p.node.machine.completedElection part = some term
  | _ => won

omit [Capnp] [ParsesSocketAddr] in
/-- An election that is won stays won. -/
theorem wonAfter_of_won {p : Process} {won : ℕ → Prop} (h : won term) (event : ProcessEvent) :
    wonAfter p won event term := by
  cases event with
  | timeStep clock part => exact Or.inl h
  | _ => exact h

/-- The node, if it enters the leader role, with its term. -/
def entersLeader (a : ℕ) (p p' : Process) : List (ℕ × ℕ) :=
  if p.node.machine.delegate.nodeType ≠ .leader ∧ p'.node.machine.delegate.nodeType = .leader then
    [(a, p'.node.shared.currentTerm)]
  else []

/-- The history after a step from `w` to `w'`. -/
def History.step (C : Cluster) (w w' : World) (h : History) : Label → History
  | .act a event =>
    if a ∈ C.members then
      { h with
        elections := Function.update h.elections a
          (electionsAfter (w.process a) (h.elections a) event)
        leaders := h.leaders ++ entersLeader a (w.process a) (w'.process a) }
    else h
  | .deliver i => { h with received := h.received ++ (w.net[i]?.bind Packet.grant).toList }
  | .lose _ => h

/-- One step. -/
def Trace.step (C : Cluster) (t : Trace) (label : Label) : Trace :=
  ⟨t.world.step C label, t.history.step C t.world (t.world.step C label) label⟩

/-- All nodes start on empty files. -/
def Trace.start (C : Cluster) (clock : ℕ → Clock) (accepts : ℕ → ℕ → Bool) : Trace :=
  ⟨World.start C clock accepts, ⟨fun _ => [], [], []⟩⟩

/-- The condition on a step: elections are for terms the node has not voted in, and votes
arrive for elections of the candidate's present process. -/
def ElectionLaw (t : Trace) : Label → Prop
  | .act a (.timeStep clock part) =>
    (t.world.process a).node.machine.startsElection clock part = true →
      (t.world.process a).node.shared.termVotes.lookup
        (t.world.process a).node.shared.nextTerm = none
  | .deliver i => ∀ packet ∈ t.world.net[i]?,
    match packet.message with
    | .voteResponse true requestId term => (requestId, term) ∈ t.history.elections packet.dst
    | _ => True
  | _ => True

instance (t : Trace) (label : Label) : Decidable (ElectionLaw t label) := by
  delta ElectionLaw
  rcases label with ⟨a, event⟩ | i | i
  · cases event <;> infer_instance
  · refine @Option.decidableForallMem _ _ (fun packet => ?_) _
    rcases packet.message with _ | ⟨_ | _, _, _⟩ | _ | _ <;> infer_instance
  · infer_instance

end Trace

/-! ## The votes of a process -/

theorem Packet.grant_eq_none {src dst : ℕ}
    (h : ∀ requestId term, message ≠ .voteResponse true requestId term) :
    (Packet.mk src dst message).grant = none := by
  unfold Packet.grant
  split
  · next hmessage => exact absurd hmessage (h _ _)
  · rfl

/-- A vote comes from its voter. -/
theorem Packet.src_of_grant {v : ℕ × ℕ × ℕ} (h : packet.grant = some v) : v.1 = packet.src := by
  unfold Packet.grant at h
  split at h
  · rw [← Option.some.inj h]
  · cases h

/-- A vote is sent to its candidate. -/
theorem Packet.dst_of_grant {v : ℕ × ℕ × ℕ} (h : packet.grant = some v) : v.2.2 = packet.dst := by
  unfold Packet.grant at h
  split at h
  · rw [← Option.some.inj h]
  · cases h

/-- A worker that sends no granted vote. -/
theorem grants_emit_eq_nil {result : QuorumWorker × WorkerOutput} (p : Process) (k : ℕ)
    (h : ∀ message ∈ result.2.messages, ∀ requestId term,
      message ≠ .voteResponse true requestId term) :
    (p.emit k result).2.filterMap Packet.grant = [] := by
  refine List.filterMap_eq_nil_iff.mpr fun packet hpacket => ?_
  obtain ⟨message, hmessage, rfl⟩ := List.mem_map.mp hpacket
  exact Packet.grant_eq_none (h message hmessage)

namespace QuorumWorker

/-- A worker grants no vote with a task, -/
theorem processTask_ne_grant (utf8Lossy : List UInt8 → List UInt8) (now : ℕ)
    (task : LocalQuorumWorkerTaskType) (w : QuorumWorker) :
    ∀ message ∈ (w.processTask utf8Lossy now task).2.messages, ∀ requestId term,
      message ≠ .voteResponse true requestId term := by
  intro message hmessage requestId term
  cases (w.processTask_sends utf8Lossy now task).2 message hmessage <;>
    simp [appendEntriesMessage]

/-- with a heartbeat, -/
theorem sendHeartbeatIfNeeded_ne_grant (now : ℕ) (w : QuorumWorker) :
    ∀ message ∈ (w.sendHeartbeatIfNeeded now).2.messages, ∀ requestId term,
      message ≠ .voteResponse true requestId term := by
  unfold sendHeartbeatIfNeeded
  split_ifs <;> simp [heartbeatMessage]

/-- or at once when a message arrives. -/
theorem handleInboundMessage_ne_grant (message : QuorumMessage) (w : QuorumWorker) :
    ∀ m ∈ (w.handleInboundMessage message).2.messages, ∀ requestId term,
      m ≠ .voteResponse true requestId term := by
  have h := w.handles_handleInboundMessage message
  generalize w.handleInboundMessage message = result at h ⊢
  cases h <;> simp [onAppendEntriesRequest, passOn, onTruncateLogRequest]

/-- Only an arriving vote is reported to the state machine as a vote. -/
theorem granted_handleInboundMessage {w : QuorumWorker} {id : ℕ}
    (hmem : .requestVoteResponse id term true ∈ (w.handleInboundMessage message).2.responses) :
    message = .voteResponse true id term ∧
      (w.handleInboundMessage message).2.responses = [.requestVoteResponse id term true] := by
  have h := w.handles_handleInboundMessage message
  generalize w.handleInboundMessage message = result at h hmem ⊢
  cases h with
  | voteResponse granted requestId term' =>
    cases List.mem_singleton.mp hmem
    exact ⟨rfl, rfl⟩
  | _ => simp [onAppendEntriesRequest, passOn, onTruncateLogRequest] at hmem

end QuorumWorker

/-- Nothing that is received is answered with a vote. -/
theorem grants_receive (p : Process) (src : ℕ) (message : QuorumMessage) :
    (p.receive src message).2.filterMap Packet.grant = [] := by
  unfold Process.receive
  split
  · split
    · next worker hworker =>
      exact grants_emit_eq_nil p _ (worker.handleInboundMessage_ne_grant message)
    · rfl
  · rfl

/-- The answer taken from a callback takes its vote with it. -/
theorem grantedVotes_eraseP {callback : Callback} {payload : LocalRaftResponsePayload}
    (v : ℕ × ℕ) : ∀ {answers : List (Callback × LocalRaftResponsePayload)},
      answers.lookup callback = some payload →
        (grantedVotes (answers.eraseP (·.1 = callback))).count v +
            (grantOf (callback, payload)).toList.count v = (grantedVotes answers).count v
  | [], h => by simp at h
  | (callback', payload') :: rest, h => by
    have hcons : ∀ l, grantedVotes ((callback', payload') :: l) =
        (grantOf (callback', payload')).toList ++ grantedVotes l := by
      intro l
      rw [← grantedVotes_singleton, ← grantedVotes_append]
      rfl
    by_cases heq : callback' = callback
    · subst heq
      simp only [List.lookup_cons_self, Option.some.injEq] at h
      subst h
      simp [hcons, Nat.add_comm]
    · have hne : (callback == callback') = false := by simpa using fun h => heq h.symm
      rw [List.lookup_cons, hne] at h
      have hrest := grantedVotes_eraseP v h
      rw [List.eraseP_cons_of_neg (by simpa using heq), hcons, hcons, List.count_append,
        List.count_append]
      omega

/-- An answer that is sent carries the vote it grants. -/
theorem QuorumWorker.grants_handlePendingTaskResponse (channel : ℕ) (task : PendingQuorumTask)
    (payload : LocalRaftResponsePayload) (w : QuorumWorker) :
    (w.handlePendingTaskResponse task payload).messages.filterMap
        (fun message => (Packet.mk w.selfId w.memberId message).grant) =
      (grantOf (.pending w.memberId channel task, payload)).toList.map fun v => (w.selfId, v) := by
  cases payload with
  | requestVote granted =>
    cases task with
    | vote requestId term => cases granted <;> rfl
    | _ => rfl
  | appendEntries response =>
    cases task with
    | appendEntries requestId logIndex term => cases response <;> rfl
    | _ => rfl
  | _ => cases task <;> rfl

/-- The answer to a peer is no vote for the node itself. -/
theorem QuorumWorker.handlePendingTaskResponse_ne_vote (task : PendingQuorumTask)
    (payload : LocalRaftResponsePayload) (w : QuorumWorker) (id term : ℕ) :
    .requestVoteResponse id term true ∉ (w.handlePendingTaskResponse task payload).responses := by
  unfold handlePendingTaskResponse
  split
  · simp
  · split <;> simp
  · simp
  · simp

namespace BallotInv

variable {use : ℕ → IdUse} {sent : ℕ × ℕ → ℕ} {received : ℕ → ℕ} {won : ℕ → Prop} {p : Process}

/-- A worker passes on no vote. -/
theorem emit (h : BallotInv use sent received won p.node) (k : ℕ)
    {result : QuorumWorker × WorkerOutput}
    (hresponses : ∀ id term, .requestVoteResponse id term true ∉ result.2.responses) :
    BallotInv use sent received won (p.emit k result).1.node :=
  h.arrive (fun id term hmem => absurd hmem (hresponses id term)) fun id term => by
    rw [List.count_eq_zero_of_not_mem (hresponses id term)]
    exact le_rfl

/-- Fewer answers have been sent than thought. -/
theorem mono_sent {n : Node} (h : BallotInv use sent received won n) {sent' : ℕ × ℕ → ℕ}
    (hle : ∀ v, sent' v ≤ sent v) : BallotInv use sent' received won n :=
  { h with spent := fun v => Nat.le_trans (Nat.add_le_add_left (hle v) _) (h.spent v) }

/-- More votes have been received than thought. -/
theorem mono_received {n : Node} (h : BallotInv use sent received won n) {received' : ℕ → ℕ}
    (hle : ∀ term, received term ≤ received' term) : BallotInv use sent received' won n := by
  refine { h with tally := fun id term msg done votes huse hlookup htype => ?_ }
  have htally := h.tally id term msg done votes huse hlookup htype
  have := hle term
  omega

/-- A worker that takes a task sends no vote. -/
theorem workerTask (h : BallotInv use sent received won p.node) (a : ℕ)
    (utf8Lossy : List UInt8 → List UInt8) (k now : ℕ) :
    BallotInv use (fun v => sent v +
      ((p.workerTask utf8Lossy k now).2.filterMap Packet.grant).count (a, v)) received won
        (p.workerTask utf8Lossy k now).1.node := by
  unfold Process.workerTask
  split
  · next worker task rest hworker htasks =>
    rw [grants_emit_eq_nil _ k (worker.processTask_ne_grant utf8Lossy now task)]
    refine BallotInv.emit ?_ k ?_
    · exact { h with }
    · rw [(worker.processTask_sends utf8Lossy now task).1.responses]
      simp
  · exact h

/-- Nor does a heartbeat. -/
theorem heartbeat (h : BallotInv use sent received won p.node) (a k now : ℕ) :
    BallotInv use (fun v => sent v + ((p.heartbeat k now).2.filterMap Packet.grant).count (a, v))
      received won (p.heartbeat k now).1.node := by
  unfold Process.heartbeat
  split
  · next worker hworker =>
    rw [grants_emit_eq_nil _ k (worker.sendHeartbeatIfNeeded_ne_grant now)]
    refine BallotInv.emit h k ?_
    rw [(worker.sendHeartbeatIfNeeded_same now).responses]
    simp
  · exact h

/-- An answer is sent as a vote if it grants one. -/
theorem sendAnswer (h : BallotInv use sent received won p.node) {members : Finset ℕ}
    {quorumSize : ℕ} (hwired : Wired members a quorumSize p) (k j : ℕ) :
    BallotInv use (fun v => sent v + ((p.answer k j).2.filterMap Packet.grant).count (a, v))
      received won (p.answer k j).1.node := by
  unfold Process.answer
  split
  · next worker hworker =>
    split
    · next channel task htask =>
      split
      · next payload hpayload =>
        have hself : worker.selfId = a := hwired.selfId worker (List.mem_of_getElem? hworker)
        refine BallotInv.emit ?_ k (worker.handlePendingTaskResponse_ne_vote task payload)
        refine h.answer fun v => ?_
        have herase := grantedVotes_eraseP v hpayload
        have hgrants : ∀ p : Process, (p.emit k ({ worker with
              pendingTasks := worker.pendingTasks.eraseIdx j },
            worker.handlePendingTaskResponse task payload)).2.filterMap Packet.grant =
              (grantOf (.pending worker.memberId channel task, payload)).toList.map
                fun v => (a, v) := by
          intro p
          rw [← hself, ← worker.grants_handlePendingTaskResponse channel task payload]
          exact List.filterMap_map
        rw [hgrants, List.count_map_of_injective _ _ (Prod.mk_right_injective a)]
        omega
      · exact h
    · exact h
  · exact h

/-- **Events of a process**: `sent` grows by the votes it sends. -/
theorem step [Capnp] {members : Finset ℕ} {quorumSize : ℕ} {elections : List (ℕ × ℕ)}
    (h : BallotInv use sent received won p.node) (hwired : Wired members a quorumSize p)
    (helections : ∀ e ∈ elections, use e.1 = .election e.2) (utf8Lossy : List UInt8 → List UInt8)
    (event : ProcessEvent) (hpositive : 1 ≤ p.node.shared.nextTerm)
    (hfresh : ∀ clock part, event = .timeStep clock part →
      p.node.machine.startsElection clock part = true →
        p.node.shared.termVotes.lookup p.node.shared.nextTerm = none)
    (hrows : ∀ term, won term → ∃ c, (term, c) ∈ rowVotes p.node.storage.voteRows) :
    ∃ use', BallotInv use'
        (fun v => sent v + ((p.step utf8Lossy event).2.filterMap Packet.grant).count (a, v))
        received (wonAfter p won event) (p.step utf8Lossy event).1.node ∧
      ∀ e ∈ electionsAfter p elections event, use' e.1 = .election e.2 := by
  have hkept : ∀ {use' : ℕ → IdUse}, KeepsUse use use' → ∀ e ∈ elections, use' e.1 = .election e.2 :=
    fun hext e he => (hext e.1 (by simp [helections e he])).trans (helections e he)
  cases event with
  | accept clock =>
    show ∃ use', BallotInv use' sent received won (p.accept clock).node ∧ _
    unfold Process.accept
    split
    · next message rest hinbox =>
      have hanswers : AnswersSender message := hwired.inbox message (by simp [hinbox])
      obtain ⟨use', hext, hinv⟩ := h.accept clock message fun request hpayload => by
        unfold AnswersSender at hanswers
        rw [hpayload] at hanswers
        exact hanswers
      exact ⟨use', hinv, hkept hext⟩
    · exact ⟨use, h, helections⟩
  | timeStep clock part =>
    obtain ⟨use', hext, hinv, hstarts⟩ := h.runPart clock part hpositive (hfresh clock part rfl)
    refine ⟨use', hinv, ?_⟩
    unfold electionsAfter
    dsimp only
    split_ifs with hstart
    · intro e he
      rcases List.mem_append.mp he with he | he
      · exact hkept hext e he
      · obtain rfl := List.mem_singleton.mp he
        exact hstarts hstart
    · exact hkept hext
  | processTask => exact ⟨use, h.processTask, helections⟩
  | flush => exact ⟨use, h.flush, helections⟩
  | workerTask k now => exact ⟨use, h.workerTask a utf8Lossy k now, helections⟩
  | heartbeat k now => exact ⟨use, h.heartbeat a k now, helections⟩
  | answer k j => exact ⟨use, h.sendAnswer hwired k j, helections⟩
  | write batch callback => exact ⟨use, h, helections⟩
  | forward k batchId batch callback => exact ⟨use, { h with }, helections⟩
  | askLeader callback => exact ⟨use, h, helections⟩
  | restart clock written accepts =>
    exact ⟨_, h.restart clock written accepts hrows, by simp [electionsAfter]⟩

/-- **A message arrives**: a vote must be one for an election of the process, and is counted
as received. -/
theorem receive (h : BallotInv use sent received won p.node) {received' : ℕ → ℕ} (src : ℕ)
    (helection : ∀ id term, message = .voteResponse true id term → use id = .election term)
    (hle : ∀ term, received term ≤ received' term)
    (hreceived : ∀ id term, message = .voteResponse true id term →
      received term + 1 ≤ received' term) :
    BallotInv use sent received' won (p.receive src message).1.node := by
  have hidle : BallotInv use sent received' won p.node := h.mono_received hle
  unfold Process.receive
  split
  · next k hfind =>
    split
    · next worker hworker =>
      refine h.arrive (fun id term hmem => ?_) fun id term => ?_
      · exact helection id term (QuorumWorker.granted_handleInboundMessage hmem).1
      · by_cases hmem : .requestVoteResponse id term true ∈
            (worker.handleInboundMessage message).2.responses
        · obtain ⟨hmessage, hresponses⟩ := QuorumWorker.granted_handleInboundMessage hmem
          rw [hresponses, List.count_singleton_self]
          exact hreceived id term hmessage
        · rw [List.count_eq_zero_of_not_mem hmem]
          exact hle term
    · exact hidle
  · exact hidle

end BallotInv

/-! ## Rows stay, and how a leader comes about -/

/-- The rows of votes only grow. -/
theorem rowVotes_subset_step [Capnp] (utf8Lossy : List UInt8 → List UInt8) (p : Process)
    (event : ProcessEvent) : rowVotes p.node.storage.voteRows ⊆
      rowVotes (p.step utf8Lossy event).1.node.storage.voteRows := by
  rcases node_step utf8Lossy p event with ⟨e, -, h⟩ | ⟨-, responses, answers, tasks, h, -⟩
  · rw [h]
    exact p.node.rowVotes_subset_step e
  · rw [h]
    exact List.Subset.refl _

/-- What is received leaves the disk as it is. -/
theorem storage_receive (p : Process) (src : ℕ) (message : QuorumMessage) :
    (p.receive src message).1.node.storage = p.node.storage := by
  obtain ⟨responses, answers, tasks, h, -⟩ := node_receive p src message
  rw [h]
  rfl

/-- A node becomes leader by an election that its state machine completes. -/
theorem mem_entersLeader [Capnp] {utf8Lossy : List UInt8 → List UInt8} {p : Process}
    {event : ProcessEvent} {l : ℕ × ℕ} (h : l ∈ entersLeader a p (p.step utf8Lossy event).1) :
    l.1 = a ∧ ∃ clock part, event = .timeStep clock part ∧
      p.node.machine.completedElection part = some l.2 := by
  unfold entersLeader at h
  split_ifs at h with henters
  · obtain rfl := List.mem_singleton.mp h
    refine ⟨rfl, ?_⟩
    rcases node_step utf8Lossy p event with ⟨e, he, hnode⟩ | ⟨-, responses, answers, tasks, hnode, -⟩
    · rw [hnode] at henters ⊢
      have hwon := completedElection_of_entersLeader henters.1 henters.2
      cases event with
      | timeStep clock part =>
        obtain rfl := Option.some.inj he
        exact ⟨clock, part, rfl, hwon⟩
      | accept clock =>
        obtain ⟨message, -, rfl⟩ := Option.map_eq_some_iff.mp he
        cases hwon
      | processTask =>
        obtain rfl := Option.some.inj he
        cases hwon
      | flush =>
        obtain rfl := Option.some.inj he
        cases hwon
      | restart clock written accepts =>
        obtain rfl := Option.some.inj he
        cases hwon
      | _ => cases he
    · rw [hnode] at henters
      exact absurd henters.2 henters.1
  · cases h

/-! ## The invariant of the cluster -/

/-- How many answers node `a` has sent for a vote: those on their way and those that have
arrived. -/
def Trace.sent (t : Trace) (a : ℕ) (v : ℕ × ℕ) : ℕ :=
  (t.world.net.filterMap Packet.grant ++ t.history.received).count (a, v)

/-- How many votes of a term have arrived at node `a`. -/
def Trace.receivedBy (t : Trace) (a term : ℕ) : ℕ := t.history.received.countP (·.2 = (term, a))

/-- The votes of node `a` on its disk. -/
def Trace.rows (t : Trace) (a : ℕ) : List (ℕ × ℕ) :=
  rowVotes (t.world.process a).node.storage.voteRows

/-- The invariant behind election safety. -/
structure ElectionInv [ParsesSocketAddr] (C : Cluster) (t : Trace) : Prop where
  connected : Connected C t.world
  ballots : ∀ a ∈ C.members, ∃ use,
    BallotInv use (t.sent a) (t.receivedBy a) (fun term => (a, term) ∈ t.history.leaders)
        (t.world.process a).node ∧
      ∀ e ∈ t.history.elections a, use e.1 = .election e.2
  nextTerm : ∀ a ∈ C.members, 1 ≤ (t.world.process a).node.shared.nextTerm
  voters : ∀ v ∈ t.history.received, v.1 ∈ C.members ∧ v.1 ≠ v.2.2
  leaders : ∀ l ∈ t.history.leaders, l.1 ∈ C.members ∧ 1 ≤ l.2 ∧
    (C.config l.1).quorumSize ≤ 1 + t.receivedBy l.1 l.2 ∧ (l.2, l.1) ∈ t.rows l.1
  onceEach : t.history.leaders.Nodup

section Steps

variable [Capnp] [ParsesSocketAddr] {C : Cluster} {t : Trace} {a : ℕ}

namespace Trace

theorem process_act_self (ha : a ∈ C.members) (event : ProcessEvent) :
    (t.step C (.act a event)).world.process a =
      ((t.world.process a).step C.utf8Lossy event).1 := by
  show (t.world.step C (.act a event)).process a = _
  rw [World.step_act ha, World.process_update_self]

theorem process_act_of_ne (ha : a ∈ C.members) (hb : b ≠ a) (event : ProcessEvent) :
    (t.step C (.act a event)).world.process b = t.world.process b := by
  show (t.world.step C (.act a event)).process b = _
  rw [World.step_act ha, World.process_update_of_ne _ hb]

theorem elections_act_self (ha : a ∈ C.members) (event : ProcessEvent) :
    (t.step C (.act a event)).history.elections a =
      electionsAfter (t.world.process a) (t.history.elections a) event := by
  show (History.step C t.world _ t.history (.act a event)).elections a = _
  rw [History.step, if_pos ha]
  exact Function.update_self ..

/-- The elections of the other nodes stay as they are. -/
theorem elections_act_of_ne (ha : a ∈ C.members) (hb : b ≠ a) (event : ProcessEvent) :
    (t.step C (.act a event)).history.elections b = t.history.elections b := by
  show (History.step C t.world _ t.history (.act a event)).elections b = _
  rw [History.step, if_pos ha]
  exact Function.update_of_ne hb ..

theorem received_act (event : ProcessEvent) :
    (t.step C (.act a event)).history.received = t.history.received := by
  show (History.step C t.world _ t.history (.act a event)).received = _
  unfold History.step
  dsimp only
  split_ifs <;> rfl

/-- A step adds the leader it makes. -/
theorem leaders_act (ha : a ∈ C.members) (event : ProcessEvent) :
    (t.step C (.act a event)).history.leaders = t.history.leaders ++
      entersLeader a (t.world.process a) ((t.world.process a).step C.utf8Lossy event).1 := by
  rw [← process_act_self ha]
  show (History.step C t.world _ t.history (.act a event)).leaders = _
  rw [History.step, if_pos ha]
  rfl

theorem receivedBy_act (event : ProcessEvent) (b : ℕ) :
    (t.step C (.act a event)).receivedBy b = t.receivedBy b := by
  unfold receivedBy
  rw [received_act]

/-- A step adds the votes it sends. -/
theorem sent_act (ha : a ∈ C.members) (event : ProcessEvent) (b : ℕ) (v : ℕ × ℕ) :
    (t.step C (.act a event)).sent b v = t.sent b v +
      (((t.world.process a).step C.utf8Lossy event).2.filterMap Packet.grant).count (b, v) := by
  have hnet : (t.step C (.act a event)).world.net =
      t.world.net ++ ((t.world.process a).step C.utf8Lossy event).2 := by
    show (t.world.step C (.act a event)).net = _
    rw [World.step_act ha, World.net_update]
  unfold sent
  rw [received_act, hnet, List.filterMap_append]
  simp only [List.count_append]
  omega

/-- The rows of every node only grow. -/
theorem rows_subset_act (ha : a ∈ C.members) (event : ProcessEvent) (b : ℕ) :
    t.rows b ⊆ (t.step C (.act a event)).rows b := by
  unfold rows
  by_cases hba : b = a
  · subst hba
    rw [process_act_self ha]
    exact rowVotes_subset_step C.utf8Lossy _ event
  · rw [process_act_of_ne ha hba]
    exact List.Subset.refl _

/-- A delivery adds the vote it carries. -/
theorem received_deliver {i : ℕ} (h : t.world.net[i]? = some packet) :
    (t.step C (.deliver i)).history.received = t.history.received ++ packet.grant.toList := by
  show t.history.received ++ (t.world.net[i]?.bind Packet.grant).toList = _
  rw [h]
  rfl

/-- A vote that arrives has been sent before. -/
theorem sent_deliver {i : ℕ} (h : t.world.net[i]? = some packet) (b : ℕ) (v : ℕ × ℕ) :
    (t.step C (.deliver i)).sent b v = t.sent b v := by
  obtain ⟨hlt, hi⟩ := List.getElem?_eq_some_iff.mp h
  have hnet : (t.step C (.deliver i)).world.net.filterMap Packet.grant =
      (t.world.net.eraseIdx i).filterMap Packet.grant := by
    show (t.world.step C (.deliver i)).net.filterMap _ = _
    rw [World.step_deliver h, World.net_update, List.filterMap_append, grants_receive,
      List.append_nil]
  have hperm : (t.world.net.filterMap Packet.grant).Perm
      (packet.grant.toList ++ (t.world.net.eraseIdx i).filterMap Packet.grant) := by
    have hcons := (List.getElem_cons_eraseIdx_perm hlt).symm.filterMap Packet.grant
    rw [hi, List.filterMap_cons] at hcons
    cases hgrant : packet.grant with
    | none => simpa [hgrant] using hcons
    | some v => simpa [hgrant] using hcons
  unfold sent
  rw [hnet, received_deliver h]
  simp only [List.count_append, hperm.count_eq]
  omega

/-- A delivery writes no row. -/
theorem rows_deliver (i b : ℕ) : (t.step C (.deliver i)).rows b = t.rows b := by
  unfold rows
  show rowVotes ((t.world.step C (.deliver i)).process b).node.storage.voteRows = _
  rcases hpacket : t.world.net[i]? with _ | packet
  · rw [World.step_deliver_of_none hpacket]
  · rw [World.step_deliver hpacket]
    by_cases hb : b = packet.dst
    · rw [hb, World.process_update_self, storage_receive]
    · rw [World.process_update_of_ne _ hb]

end Trace

end Steps

namespace ElectionInv

variable [Capnp] [ParsesSocketAddr] {C : Cluster} {t : Trace}

/-- No vote is cast at the start. -/
theorem start (clock : ℕ → Clock) (accepts : ℕ → ℕ → Bool) :
    ElectionInv C (Trace.start C clock accepts) := by
  constructor
  case connected => exact .start clock accepts
  case ballots =>
    intro a ha
    refine ⟨_, BallotInv.start _ _ _ _ _ _ ?_ ?_ ?_, by simp [Trace.start]⟩
    · simp [rowVotes]
    · simp [Trace.sent, Trace.start, World.start]
    · simp [Trace.start]
  case nextTerm => exact fun a ha => Nat.le_add_left 1 _
  case voters => simp [Trace.start]
  case leaders => simp [Trace.start]
  case onceEach => exact List.nodup_nil

/-- A node enters the leader role in a term that it has not led. -/
theorem of_entersLeader (h : ElectionInv C t) (ha : a ∈ C.members) {event : ProcessEvent}
    {l : ℕ × ℕ}
    (hl : l ∈ entersLeader a (t.world.process a)
      ((t.world.process a).step C.utf8Lossy event).1) :
    l.1 = a ∧ wonAfter (t.world.process a) (fun term => (a, term) ∈ t.history.leaders) event l.2 ∧
      1 ≤ l.2 ∧ l ∉ t.history.leaders ∧ (C.config a).quorumSize ≤ 1 + t.receivedBy a l.2 ∧
      (l.2, a) ∈ t.rows a := by
  obtain ⟨use, hballots, -⟩ := h.ballots a ha
  obtain ⟨hla, clock, part, rfl, hwon⟩ := mem_entersLeader hl
  obtain ⟨hquorum, hrow, -⟩ := hballots.completedElection clock hwon
  obtain ⟨hfresh, hpositive⟩ := hballots.completedElection_fresh hwon
  rw [(h.connected.wired a ha).quorumSize] at hquorum
  rw [(h.connected.wired a ha).identity] at hrow
  refine ⟨hla, Or.inr hwon, hpositive, fun hmem => hfresh ?_, hquorum, hrow⟩
  rw [← hla]
  exact hmem

/-- A thread of node `a` acts. -/
theorem act (h : ElectionInv C t) (ha : a ∈ C.members) {event : ProcessEvent}
    (hlaw : ElectionLaw t (.act a event)) : ElectionInv C (t.step C (.act a event)) := by
  obtain ⟨use, hballots, helections⟩ := h.ballots a ha
  have hpackets := ((h.connected.wired a ha).step ha C.utf8Lossy event).2
  constructor
  case connected => exact h.connected.step (.act a event)
  case ballots =>
    intro b hb
    rw [Trace.receivedBy_act, Trace.leaders_act ha]
    by_cases hba : b = a
    · subst hba
      obtain ⟨use', hinv, helections'⟩ :=
        hballots.step (h.connected.wired b hb) helections C.utf8Lossy event (h.nextTerm b hb)
          (by
            rintro clock part rfl
            exact hlaw)
          fun term hterm => ⟨b, (h.leaders _ hterm).2.2.2⟩
      refine ⟨use', ?_, ?_⟩
      · rw [Trace.process_act_self ha, funext (Trace.sent_act ha event b)]
        refine hinv.mono_won fun term hterm => ?_
        rcases List.mem_append.mp hterm with hterm | hterm
        · exact wonAfter_of_won hterm event
        · exact (h.of_entersLeader ha hterm).2.1
      · rw [Trace.elections_act_self ha]
        exact helections'
    · obtain ⟨use', hinv, helections'⟩ := h.ballots b hb
      refine ⟨use', ?_, ?_⟩
      · rw [Trace.process_act_of_ne ha hba, funext (Trace.sent_act ha event b)]
        refine (hinv.mono_sent fun v => ?_).mono_won fun term hterm => ?_
        · rw [List.count_eq_zero_of_not_mem, Nat.add_zero]
          intro hv
          obtain ⟨packet, hpacket, hgrant⟩ := List.mem_filterMap.mp hv
          exact hba ((Packet.src_of_grant hgrant).trans (hpackets packet hpacket).2)
        · refine (List.mem_append.mp hterm).resolve_right fun hterm => hba ?_
          exact (h.of_entersLeader ha hterm).1
      · rw [Trace.elections_act_of_ne ha hba]
        exact helections'
  case nextTerm =>
    intro b hb
    by_cases hba : b = a
    · subst hba
      rw [Trace.process_act_self ha]
      rcases node_step C.utf8Lossy (t.world.process b) event with ⟨e, -, heq⟩ | ⟨-, _, _, _, heq, -⟩
      · rw [heq]
        exact one_le_nextTerm_step (h.nextTerm b hb)
      · rw [heq]
        exact h.nextTerm b hb
    · rw [Trace.process_act_of_ne ha hba]
      exact h.nextTerm b hb
  case voters =>
    rw [Trace.received_act]
    exact h.voters
  case leaders =>
    intro l hl
    rw [Trace.leaders_act ha] at hl
    rw [Trace.receivedBy_act]
    rcases List.mem_append.mp hl with hl | hl
    · obtain ⟨hmem, hpositive, hquorum, hrow⟩ := h.leaders l hl
      exact ⟨hmem, hpositive, hquorum, Trace.rows_subset_act ha event l.1 hrow⟩
    · obtain ⟨hla, -, hpositive, -, hquorum, hrow⟩ := h.of_entersLeader ha hl
      rw [hla]
      exact ⟨ha, hpositive, hquorum, Trace.rows_subset_act ha event a hrow⟩
  case onceEach =>
    rw [Trace.leaders_act ha]
    refine List.Nodup.append h.onceEach ?_ fun l hold hl => (h.of_entersLeader ha hl).2.2.2.1 hold
    unfold entersLeader
    split_ifs
    · exact List.nodup_singleton _
    · exact List.nodup_nil

/-- A message arrives. -/
theorem deliver (h : ElectionInv C t) {i : ℕ} (hpacket : t.world.net[i]? = some packet)
    (hlaw : ElectionLaw t (.deliver i)) : ElectionInv C (t.step C (.deliver i)) := by
  have haddr := h.connected.addressed packet (List.mem_of_getElem? hpacket)
  have hlaw : ∀ id term, packet.message = .voteResponse true id term →
      (id, term) ∈ t.history.elections packet.dst := by
    intro id term hmessage
    have := hlaw packet hpacket
    rw [hmessage] at this
    exact this
  have hreceived := Trace.received_deliver hpacket (C := C)
  have hle : ∀ b term, t.receivedBy b term ≤ (t.step C (.deliver i)).receivedBy b term := by
    intro b term
    unfold Trace.receivedBy
    rw [hreceived, List.countP_append]
    exact Nat.le_add_right _ _
  constructor
  case connected => exact h.connected.step (.deliver i)
  case ballots =>
    intro b hb
    obtain ⟨use, hinv, helections⟩ := h.ballots b hb
    refine ⟨use, ?_, helections⟩
    rw [funext (Trace.sent_deliver hpacket b)]
    show BallotInv _ _ _ (fun term => (b, term) ∈ t.history.leaders)
      ((t.world.step C (.deliver i)).process b).node
    rw [World.step_deliver hpacket]
    by_cases hdst : b = packet.dst
    · subst hdst
      rw [World.process_update_self]
      refine hinv.receive packet.src (fun id term hmessage => ?_) (hle packet.dst)
        fun id term hmessage => ?_
      · exact helections _ (hlaw id term hmessage)
      · have hgrant : packet.grant = some (packet.src, term, packet.dst) := by
          unfold Packet.grant
          rw [hmessage]
        unfold Trace.receivedBy
        rw [hreceived, hgrant, List.countP_append]
        simp
    · rw [World.process_update_of_ne _ hdst]
      exact hinv.mono_received (hle b)
  case nextTerm =>
    intro b hb
    show 1 ≤ ((t.world.step C (.deliver i)).process b).node.shared.nextTerm
    rw [World.step_deliver hpacket]
    by_cases hdst : b = packet.dst
    · subst hdst
      rw [World.process_update_self]
      obtain ⟨_, _, _, heq, -⟩ := node_receive (t.world.process packet.dst) packet.src packet.message
      rw [heq]
      exact h.nextTerm _ hb
    · rw [World.process_update_of_ne _ hdst]
      exact h.nextTerm b hb
  case onceEach => exact h.onceEach
  case voters =>
    rw [hreceived]
    intro v hv
    rcases List.mem_append.mp hv with hv | hv
    · exact h.voters v hv
    · have hgrant : packet.grant = some v := Option.mem_toList.mp hv
      rw [Packet.src_of_grant hgrant, Packet.dst_of_grant hgrant]
      exact ⟨haddr.src, haddr.ne⟩
  case leaders =>
    intro l hl
    obtain ⟨hmem, hpositive, hquorum, hrow⟩ := h.leaders l hl
    refine ⟨hmem, hpositive, Nat.le_trans hquorum (Nat.add_le_add_left (hle l.1 l.2) 1), ?_⟩
    rw [Trace.rows_deliver]
    exact hrow

/-- A message is lost. -/
theorem lose (h : ElectionInv C t) (i : ℕ) : ElectionInv C (t.step C (.lose i)) where
  connected := h.connected.step (.lose i)
  ballots b hb := by
    obtain ⟨use, hinv, helections⟩ := h.ballots b hb
    refine ⟨use, hinv.mono_sent fun v => ?_, helections⟩
    have hsub := (List.eraseIdx_sublist t.world.net i).filterMap Packet.grant
    exact (hsub.append_right t.history.received).count_le (b, v)
  nextTerm := h.nextTerm
  voters := h.voters
  leaders := h.leaders
  onceEach := h.onceEach

/-- **Every admissible step keeps the invariant.** -/
theorem step (h : ElectionInv C t) {label : Label} (hlaw : ElectionLaw t label) :
    ElectionInv C (t.step C label) := by
  cases label with
  | act a event =>
    by_cases ha : a ∈ C.members
    · exact h.act ha hlaw
    · have hidle : t.step C (.act a event) = t := by
        unfold Trace.step History.step
        rw [World.step_act_of_notMem ha]
        simp only [if_neg ha]
      rw [hidle]
      exact h
  | deliver i =>
    rcases hpacket : t.world.net[i]? with _ | packet
    · have hidle : t.step C (.deliver i) = t := by
        unfold Trace.step History.step
        rw [World.step_deliver_of_none hpacket]
        simp [hpacket]
      rw [hidle]
      exact h
    · exact h.deliver hpacket hlaw
  | lose i => exact h.lose i

end ElectionInv

/-! ## Two majorities have a common voter -/

/-- Counting pairs by their first components. -/
theorem countP_snd_eq_sum {α β : Type} [DecidableEq α] [DecidableEq β] [BEq (α × β)]
    [LawfulBEq (α × β)] {s : Finset α} (y : β) :
    ∀ {l : List (α × β)}, (∀ v ∈ l, v.1 ∈ s) → l.countP (·.2 = y) = ∑ x ∈ s, l.count (x, y)
  | [], _ => by simp
  | (x, z) :: rest, h => by
    have hrest := countP_snd_eq_sum y fun v hv => h v (List.mem_cons_of_mem _ hv)
    have hx : x ∈ s := h (x, z) List.mem_cons_self
    rw [List.countP_cons, hrest]
    simp only [List.count_cons, Finset.sum_add_distrib, decide_eq_true_eq, beq_iff_eq,
      Prod.mk.injEq, Nat.add_left_cancel_iff]
    by_cases hz : z = y
    · simp only [hz, and_true]
      rw [Finset.sum_ite_eq, if_pos hx, if_pos trivial]
    · simp [hz]

theorem eq_of_countP_le_one {α : Type} {l : List α} {p : α → Bool} (h : l.countP p ≤ 1) {x y : α}
    (hx : x ∈ l) (hy : y ∈ l) (hpx : p x = true) (hpy : p y = true) : x = y := by
  have hx : x ∈ l.filter p := List.mem_filter.mpr ⟨hx, hpx⟩
  have hy : y ∈ l.filter p := List.mem_filter.mpr ⟨hy, hpy⟩
  rw [List.countP_eq_length_filter] at h
  match hl : l.filter p with
  | [] => simp [hl] at hx
  | [z] =>
    rw [hl] at hx hy
    exact (List.mem_singleton.mp hx).trans (List.mem_singleton.mp hy).symm
  | z :: z' :: rest => simp [hl] at h

/-- The members that have a vote on their disk. -/
def Trace.backers (members : Finset ℕ) (t : Trace) (v : ℕ × ℕ) : Finset ℕ :=
  members.filter fun b => v ∈ t.rows b

namespace ElectionInv

variable [ParsesSocketAddr] {C : Cluster} {t : Trace}

/-- No disk has two votes of one term. -/
theorem countP_rows_le_one (h : ElectionInv C t) (hb : b ∈ C.members) (term : ℕ) :
    (t.rows b).countP (·.1 = term) ≤ 1 := by
  obtain ⟨use, hinv, -⟩ := h.ballots b hb
  have honce := hinv.once term
  unfold votesFor at honce
  rw [List.countP_append] at honce
  exact Nat.le_trans (Nat.le_add_right _ _) honce

/-- A vote that has arrived is on the disk of its voter, and has arrived once. -/
theorem count_received_le (h : ElectionInv C t) (hb : b ∈ C.members) (term c : ℕ) :
    t.history.received.count (b, term, c) ≤ if b ≠ c ∧ (term, c) ∈ t.rows b then 1 else 0 := by
  by_cases hmem : (b, term, c) ∈ t.history.received
  · obtain ⟨use, hinv, -⟩ := h.ballots b hb
    have hsent : t.history.received.count (b, term, c) ≤ (t.rows b).count (term, c) := by
      have hspent := hinv.spent (term, c)
      unfold Trace.sent at hspent
      rw [List.count_append] at hspent
      exact Nat.le_trans (by omega) hspent
    have hrow : (term, c) ∈ t.rows b := by
      have := List.count_pos_iff.mpr hmem
      exact List.count_pos_iff.mp (by omega)
    rw [if_pos ⟨(h.voters _ hmem).2, hrow⟩]
    refine hsent.trans (Nat.le_trans ?_ (h.countP_rows_le_one hb term))
    refine List.countP_mono_left fun v _ hv => ?_
    rw [beq_iff_eq] at hv
    simp [hv]
  · rw [List.count_eq_zero_of_not_mem hmem]
    exact Nat.zero_le _

/-- **A leader has a quorum of voters.** -/
theorem quorumSize_le_backers (h : ElectionInv C t) (hleader : (a, term) ∈ t.history.leaders) :
    (C.config a).quorumSize ≤ (t.backers C.members (term, a)).card := by
  obtain ⟨ha, -, hquorum, hrow⟩ := h.leaders _ hleader
  have hself : a ∈ t.backers C.members (term, a) := Finset.mem_filter.mpr ⟨ha, hrow⟩
  have hreceived : t.receivedBy a term ≤ ((t.backers C.members (term, a)).erase a).card := by
    calc t.receivedBy a term
        = ∑ b ∈ C.members, t.history.received.count (b, term, a) :=
          countP_snd_eq_sum _ fun v hv => (h.voters v hv).1
      _ ≤ ∑ b ∈ C.members, if b ≠ a ∧ (term, a) ∈ t.rows b then 1 else 0 :=
          Finset.sum_le_sum fun b hb => h.count_received_le hb term a
      _ = ((t.backers C.members (term, a)).erase a).card := by
          rw [← Finset.card_filter]
          congr 1
          ext b
          simp only [Trace.backers, Finset.mem_filter, Finset.mem_erase]
          tauto
  rw [Finset.card_erase_of_mem hself] at hreceived
  have := Finset.card_pos.mpr ⟨a, hself⟩
  dsimp only at hquorum
  omega

/-- Two leaders of one term are one. -/
theorem leader_unique (h : ElectionInv C t)
    (hmajority : C.members.card = 1 ∨
      ∀ a ∈ C.members, C.members.card < 2 * (C.config a).quorumSize)
    (ha : (a, term) ∈ t.history.leaders) (hb : (b, term) ∈ t.history.leaders) : a = b := by
  have hmema := (h.leaders _ ha).1
  have hmemb := (h.leaders _ hb).1
  rcases hmajority with hone | hmajority
  · obtain ⟨x, hx⟩ := Finset.card_eq_one.mp hone
    rw [hx] at hmema hmemb
    exact (Finset.mem_singleton.mp hmema).trans (Finset.mem_singleton.mp hmemb).symm
  · have hqa := h.quorumSize_le_backers ha
    have hqb := h.quorumSize_le_backers hb
    have hna := hmajority a hmema
    have hnb := hmajority b hmemb
    obtain ⟨x, hx⟩ := Finset.inter_nonempty_of_card_lt_card_add_card
      (s := C.members) (t := t.backers C.members (term, a)) (u := t.backers C.members (term, b))
      (Finset.filter_subset _ _) (Finset.filter_subset _ _) (by omega)
    obtain ⟨hxa, hxb⟩ := Finset.mem_inter.mp hx
    obtain ⟨hxm, hrowa⟩ := Finset.mem_filter.mp hxa
    obtain ⟨-, hrowb⟩ := Finset.mem_filter.mp hxb
    have heq := eq_of_countP_le_one (h.countP_rows_le_one hxm term) hrowa hrowb (by simp) (by simp)
    exact congrArg Prod.snd heq

end ElectionInv

/-- **Election safety.**  If the quorum size of every node is a majority of the cluster, then
in every run whose elections are for terms the node has not voted in, and in which votes
arrive for elections of the candidate's present process, at most one node ever enters the
leader role with a given term. -/
theorem election_safety [Capnp] [ParsesSocketAddr] (C : Cluster)
    (hmajority : C.members.card = 1 ∨
      ∀ a ∈ C.members, C.members.card < 2 * (C.config a).quorumSize)
    (clock : ℕ → Clock) (accepts : ℕ → ℕ → Bool) (labels : List Label)
    (hrun : Runs.AllSteps (Trace.step C) ElectionLaw (Trace.start C clock accepts) labels)
    {a b term : ℕ}
    (ha : (a, term) ∈ (Runs.run (Trace.step C) (Trace.start C clock accepts)
      labels).history.leaders)
    (hb : (b, term) ∈ (Runs.run (Trace.step C) (Trace.start C clock accepts)
      labels).history.leaders) : a = b := by
  have hinv := hrun.invariant (ElectionInv C) (fun t label h hlaw => h.step hlaw)
    (ElectionInv.start clock accepts)
  exact hinv.leader_unique hmajority ha hb

/-- Node 1 of three is the only leader of term 1 after it has been elected. -/
theorem election_safety_node_one :
    letI := sampleCapnp
    letI := sampleAddresses
    (1, 1) ∈ (Runs.run (Trace.step clusterOfThree)
        (Trace.start clusterOfThree (fun _ => ⟨0, 0⟩) fun _ _ => true)
        electNodeOne).history.leaders ∧
      ∀ b, (b, 1) ∈ (Runs.run (Trace.step clusterOfThree)
        (Trace.start clusterOfThree (fun _ => ⟨0, 0⟩) fun _ _ => true)
        electNodeOne).history.leaders → 1 = b :=
  letI := sampleCapnp
  letI := sampleAddresses
  ⟨by decide, fun _ hb => election_safety clusterOfThree (by decide) _ _ electNodeOne (by decide)
    (by decide) hb⟩

/-- **Two leaders of one term.**  In a cluster of two the quorum size is 1, the own vote is
enough, and both nodes can be elected in term 1. -/
theorem two_leaders_of_term_one :
    ¬ ∀ (_ : Capnp) (_ : ParsesSocketAddr) (C : Cluster) (clock : ℕ → Clock)
      (accepts : ℕ → ℕ → Bool) (labels : List Label) (a b term : ℕ),
        (a, term) ∈ (Runs.run (Trace.step C) (Trace.start C clock accepts)
          labels).history.leaders →
        (b, term) ∈ (Runs.run (Trace.step C) (Trace.start C clock accepts)
          labels).history.leaders → a = b := by
  intro h
  have heq := h sampleCapnp sampleAddresses clusterOfTwo (fun _ => ⟨0, 0⟩) (fun _ _ => true)
    (standForElection 1 ++ standForElection 2) 1 2 1 (by decide) (by decide)
  cases heq

end Kraft
