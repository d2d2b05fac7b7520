/-
# Completed messages are replicated

When a leader completes a message, a majority of the cluster holds the entry of the message, in
every run that meets these conditions on acknowledgements (`commit_sound`):

* a node that answers `Ok` under the id of a message that is outstanding at the leader holds the
  leader's entry at the index of the message;
* an acknowledgement that arrives was sent for the message that now has its id, and is the first
  of its sender for that message;
* an entry that has been acknowledged is not truncated or lost in a restart as long as the message
  is outstanding, and a batch is appended at the end of the leader's log.

Nothing but the message id ties an acknowledgement to a message, and who sent it is not recorded, so
the argument counts the senders beside the tallies.  A candidate answers `Ok` without storing the
entry, and the leader then completes a message that no other node holds
(`completed_without_majority`).
-/
import Kraft.AckTallies
import Kraft.Wiring
import Kraft.LogRepresentation
import Kraft.LogSteps

namespace Kraft

open SharedState StateMachine

/-! ## Acknowledgements of a run -/

/-- The AppendEntries requests that a step answers with `Ok`: leader and request id. -/
def okAcks (s s' : SharedState) : List (ℕ × ℕ) :=
  ((okAnswers s').drop (okAnswers s).length).filterMap fun
    | .pending a _ (.appendEntries id _ _) => some (a, id)
    | _ => none

/-- What has to be remembered of the acknowledgements. -/
structure Acks where
  /-- for each node, the acknowledgements of its outstanding messages that were given to its present
  process: sender and message id -/
  given : ℕ → List (ℕ × ℕ)
  /-- those that have arrived -/
  arrived : ℕ → List (ℕ × ℕ)

/-- A world with its acknowledgements. -/
structure AckTrace where
  world : World
  acks : Acks

/-- The tally of message `id` of node `a`. -/
def World.tally (w : World) (a id : ℕ) : Option Tally :=
  tallyOf (w.shared a).outstandingMessages id

/-- The message that a packet acknowledges. -/
def Packet.ack (packet : Packet) : Option ℕ :=
  match packet.message with
  | .appendEntriesAcknowledge _ _ id true => if id ≠ 0 then some id else none
  | _ => none

/-- The process dies in the event. -/
def ProcessEvent.isRestart : ProcessEvent → Bool
  | .restart .. => true
  | _ => false

section Traces

variable [Capnp] [ParsesSocketAddr]

/-- The acknowledgements after a step of node `b` from `w` to `w'`. -/
def Acks.act (w w' : World) (b : ℕ) (event : ProcessEvent) (acks : Acks) : Acks where
  given a := (if event.isRestart ∧ a = b then [] else acks.given a) ++
    ((okAcks (w.shared b) (w'.shared b)).filter fun v =>
      v.1 = a ∧ a ≠ b ∧ (w.tally a v.2).isSome).map fun v => (b, v.2)
  arrived a := if event.isRestart ∧ a = b then [] else acks.arrived a

/-- The acknowledgements after the delivery of a message. -/
def Acks.deliver (w : World) (packet : Packet) (acks : Acks) : Acks :=
  { acks with
    arrived := Function.update acks.arrived packet.dst (acks.arrived packet.dst ++
      ((packet.ack.filter fun id => (w.tally packet.dst id).isSome).map
        fun id => (packet.src, id)).toList) }

/-- The acknowledgements after a step from `w` to `w'`. -/
def Acks.step (C : Cluster) (w w' : World) (acks : Acks) : Label → Acks
  | .act b event => if b ∈ C.members then acks.act w w' b event else acks
  | .deliver i =>
    match w.net[i]? with
    | some packet => acks.deliver w packet
    | none => acks
  | .lose _ => acks

/-- One step. -/
def AckTrace.step (C : Cluster) (t : AckTrace) (label : Label) : AckTrace :=
  ⟨t.world.step C label, t.acks.step C t.world (t.world.step C label) label⟩

/-- All nodes start on empty files. -/
def AckTrace.start (C : Cluster) (clock : ℕ → Clock) (accepts : ℕ → ℕ → Bool) : AckTrace :=
  ⟨World.start C clock accepts, ⟨fun _ => [], fun _ => []⟩⟩

end Traces

/-! ## The condition -/

/-- `P` holds for all positions at which node `b` has promised to hold an entry: those of its own
outstanding messages, and of those it has acknowledged. -/
def AckTrace.ForPromised [ParsesSocketAddr] (C : Cluster) (t : AckTrace) (b : ℕ) (P : ℕ → Prop) :
    Prop :=
  ∀ a ∈ C.members, ∀ id ∈ (t.world.shared a).outstandingMessages.keys,
    ∀ tally ∈ t.world.tally a id, a = b ∨ (b, id) ∈ t.acks.given a → P tally.index

/-- An event of node `b` keeps the entries it has promised to hold. -/
def AckTrace.KeepsPromises [Capnp] [ParsesSocketAddr] (C : Cluster) (t : AckTrace) (b : ℕ) :
    NodeEvent → Prop
  | .accept _ message => AppendsAtEnd (t.world.process b).node.machine message
  | .timeStep _ .popQuorum => ∀ prevIndex ∈ nextTruncation (t.world.process b).node.machine,
      t.ForPromised C b fun index => index ≤ prevIndex
  | .restart clock written accepts => t.ForPromised C b fun index =>
      ((t.world.process b).node.step (.restart clock written accepts)).shared.replicationLog[index]? =
        (t.world.shared b).replicationLog[index]?
  | _ => True

/-- The condition on a step. -/
def AckLaw [Capnp] [ParsesSocketAddr] (C : Cluster) (t : AckTrace) : Label → Prop
  | .act b event =>
    (∀ e ∈ (t.world.process b).nodeEvent event, t.KeepsPromises C b e) ∧
      ∀ v ∈ okAcks (t.world.shared b) ((t.world.step C (.act b event)).shared b),
        ∀ tally ∈ t.world.tally v.1 v.2,
          ((t.world.step C (.act b event)).shared b).replicationLog[tally.index]? =
            (t.world.shared v.1).replicationLog[tally.index]?
  | .deliver i => ∀ packet ∈ t.world.net[i]?, ∀ id ∈ packet.ack,
      id < (t.world.shared packet.dst).nextMessageId ∧
        ((t.world.tally packet.dst id).isSome →
          (packet.src, id) ∈ t.acks.given packet.dst ∧ (packet.src, id) ∉ t.acks.arrived packet.dst)
  | .lose _ => True

instance [ParsesSocketAddr] (C : Cluster) (t : AckTrace) (b : ℕ) (P : ℕ → Prop) [DecidablePred P] :
    Decidable (t.ForPromised C b P) :=
  inferInstanceAs (Decidable (∀ a ∈ _, ∀ id ∈ _, ∀ tally ∈ _, _ → _))

instance [Capnp] [ParsesSocketAddr] (C : Cluster) (t : AckTrace) (b : ℕ) (e : NodeEvent) :
    Decidable (t.KeepsPromises C b e) := by
  rcases e with _ | ⟨_, _ | _ | _ | _⟩ | _ | _ | _ | _ <;> unfold AckTrace.KeepsPromises <;>
    infer_instance

instance [Capnp] [ParsesSocketAddr] (C : Cluster) (t : AckTrace) :
    ∀ label, Decidable (AckLaw C t label)
  | .act .. => inferInstanceAs (Decidable (_ ∧ _))
  | .deliver _ => inferInstanceAs (Decidable (∀ packet ∈ _, ∀ id ∈ _, _ ∧ _))
  | .lose _ => inferInstanceAs (Decidable True)

/-! ## The responses of the quorum workers -/

/-- An acknowledgement that arrives is reported to the state machine, and nothing else is. -/
theorem QuorumWorker.acks_handleInboundMessage (src dst : ℕ) (message : QuorumMessage)
    (w : QuorumWorker) (id : ℕ) :
    (w.handleInboundMessage message).2.responses.countP (·.isAckOf id) =
      if (Packet.mk src dst message).ack = some id then 1 else 0 := by
  have h := w.handles_handleInboundMessage message
  generalize w.handleInboundMessage message = result at h ⊢
  cases h with
  | dropped hack =>
    have hnone : (Packet.mk src dst message).ack = none := by
      cases message with
      | appendEntriesAcknowledge lastLogTerm lastLogIndex requestId ok =>
        cases ok with
        | true => simp [Packet.ack, hack _ _ _ rfl]
        | false => rfl
      | _ => rfl
    simp [hnone]
  | acknowledged hid => simp [Packet.ack, LocalQuorumTaskResponseType.isAckOf, hid]
  | _ => simp [onAppendEntriesRequest, onTruncateLogRequest, passOn, Packet.ack,
      LocalQuorumTaskResponseType.isAckOf]

/-- The answers to requests report none. -/
theorem QuorumWorker.acks_handlePendingTaskResponse (task : PendingQuorumTask)
    (payload : LocalRaftResponsePayload) (w : QuorumWorker) (id : ℕ) :
    (w.handlePendingTaskResponse task payload).responses.countP (·.isAckOf id) = 0 := by
  unfold handlePendingTaskResponse
  split
  · rfl
  · split <;> simp [LocalQuorumTaskResponseType.isAckOf]
  · rfl
  · rfl

/-- What waits after a worker has acted. -/
theorem acksWaiting_emit (p : Process) (k : ℕ) (result : QuorumWorker × WorkerOutput) (id : ℕ) :
    acksWaiting (p.emit k result).1.node.shared id =
      acksWaiting p.node.shared id + result.2.responses.countP (·.isAckOf id) :=
  List.countP_append ..

theorem acksWaiting_receive_le (p : Process) (packet : Packet) (id : ℕ) :
    acksWaiting (p.receive packet.src packet.message).1.node.shared id ≤
      acksWaiting p.node.shared id + if packet.ack = some id then 1 else 0 := by
  unfold Process.receive
  split
  · split
    · next worker _ =>
      rw [acksWaiting_emit, worker.acks_handleInboundMessage packet.src packet.dst]
    · exact Nat.le_add_right ..
  · exact Nat.le_add_right ..

/-- Only the network brings acknowledgements. -/
theorem acksWaiting_exchange [Capnp] (utf8Lossy : List UInt8 → List UInt8) (p : Process)
    {event : ProcessEvent} (h : p.nodeEvent event = none) (id : ℕ) :
    acksWaiting (p.step utf8Lossy event).1.node.shared id = acksWaiting p.node.shared id := by
  cases event with
  | accept clock =>
    show acksWaiting (p.accept clock).node.shared id = _
    unfold Process.accept
    split
    · next hinbox => simp [Process.nodeEvent, hinbox] at h
    · rfl
  | workerTask k now =>
    show acksWaiting (p.workerTask utf8Lossy k now).1.node.shared id = _
    unfold Process.workerTask
    split
    · next worker task rest _ _ =>
      rw [acksWaiting_emit, (worker.processTask_sends utf8Lossy now task).1.responses]
      rfl
    · rfl
  | heartbeat k now =>
    show acksWaiting (p.heartbeat k now).1.node.shared id = _
    unfold Process.heartbeat
    split
    · next worker _ =>
      rw [acksWaiting_emit, (worker.sendHeartbeatIfNeeded_same now).responses]
      rfl
    · rfl
  | answer k j =>
    show acksWaiting (p.answer k j).1.node.shared id = _
    unfold Process.answer
    split
    · next worker _ =>
      split
      · split
        · rw [acksWaiting_emit, worker.acks_handlePendingTaskResponse]
          rfl
        · rfl
      · rfl
    · rfl
  | write batch callback => rfl
  | forward k batchId batch callback => rfl
  | askLeader callback => rfl
  | _ => cases h

/-! ## One event of a node -/

/-- An entry stays in the log of a node unless it is truncated or lost in a restart. -/
theorem Node.entry_step [Capnp] {n : Node} {e : NodeEvent} {i : ℕ} {entry : OwnedLogEntry}
    (hentry : n.shared.replicationLog[i]? = some entry)
    (htruncation : ∀ clock, e = .timeStep clock .popQuorum →
      ∀ prevIndex ∈ nextTruncation n.machine, i ≤ prevIndex)
    (hrestart : e.isRestart = true →
      (n.step e).shared.replicationLog[i]? = n.shared.replicationLog[i]?) :
    (n.step e).shared.replicationLog[i]? = some entry := by
  cases e with
  | accept clock message =>
    rcases accept_commit clock message n.machine with ⟨-, h⟩ | ⟨request, -, -, -, h⟩
    · exact h.advances.entry hentry
    · exact h.log ▸ hentry
  | timeStep clock part =>
    rcases runPart_commit clock n.machine part with ⟨-, h⟩ | ⟨prevIndex, rfl, hsome, h, -⟩
    · exact h.advances.entry hentry
    · have hi := htruncation clock rfl prevIndex hsome
      have hlog : (n.step (.timeStep clock .popQuorum)).shared.replicationLog =
        n.shared.replicationLog.take (prevIndex + 1) := h.log
      rw [hlog, List.getElem?_take_of_lt (by omega), hentry]
  | respond response => exact hentry
  | processTask => exact (Moves.of_serves n.serves_processTask).advances.entry hentry
  | flush => exact (Moves.of_serves n.serves_flush).advances.entry hentry
  | restart clock written accepts => exact (hrestart rfl).trans hentry

/-- What an event of a node does to its tallies. -/
theorem Node.tallyStep [Capnp] {n : Node} {e : NodeEvent} (hrestart : e.isRestart = false)
    (hrespond : ∀ response, e ≠ .respond response)
    (hend : ∀ clock message, e = .accept clock message → AppendsAtEnd n.machine message) :
    TallyStep n.machine (n.step e).machine := by
  have hserves : ∀ sm', Node.Serves n.machine sm' → TallyStep n.machine sm' := by
    rintro sm' ⟨work, isOpen, responses, rfl⟩
    exact KeepsTallies.tallyStep (.of_eq le_rfl rfl rfl)
  cases e with
  | accept clock message => exact tallyStep_accept clock (hend clock message rfl)
  | timeStep clock part => exact tallyStep_runPart clock n.machine part
  | respond response => exact absurd rfl (hrespond response)
  | processTask => exact hserves _ (Node.serves_processTask n)
  | flush => exact hserves _ (Node.serves_flush n)
  | restart clock written accepts => cases hrestart

/-! ## The invariant -/

/-- The messages of node `a`: those counted as acknowledgements have been given by different nodes,
which hold the entry. -/
structure CountInv [ParsesSocketAddr] (C : Cluster) (t : AckTrace) (a : ℕ) : Prop where
  used : ∀ id tally, t.world.tally a id = some tally → id < (t.world.shared a).nextMessageId
  fresh : ∀ id, (t.world.shared a).nextMessageId ≤ id → acksWaiting (t.world.shared a) id = 0
  senders : ∀ v ∈ t.acks.given a,
    v.1 ∈ C.members ∧ v.1 ≠ a ∧ v.2 < (t.world.shared a).nextMessageId
  given : ∀ v ∈ t.acks.arrived a, v ∈ t.acks.given a
  once : (t.acks.arrived a).Nodup
  counted : ∀ id tally, t.world.tally a id = some tally →
    tally.quorumAcks + acksWaiting (t.world.shared a) id ≤ (t.acks.arrived a).countP (·.2 = id)
  held : ∀ id tally, t.world.tally a id = some tally → ∃ entry,
    (t.world.shared a).replicationLog[tally.index]? = some entry ∧ entry.messageId = id ∧
      ∀ v ∈ t.acks.given a, v.2 = id →
        (t.world.shared v.1).replicationLog[tally.index]? = some entry

namespace CountInv

variable [ParsesSocketAddr] {C : Cluster} {t t' : AckTrace} {a : ℕ}

theorem start [Capnp] (clock : ℕ → Clock) (accepts : ℕ → ℕ → Bool) (a : ℕ) :
    CountInv C (AckTrace.start C clock accepts) a where
  used _ _ h := nomatch h
  fresh _ _ := rfl
  senders _ h := nomatch h
  given _ h := nomatch h
  once := List.nodup_nil
  counted _ _ h := nomatch h
  held _ _ h := nomatch h

/-- **The node makes a step**, and keeps the entries of its own messages; no acknowledgement is given
to it or arrives. -/
theorem act (h : CountInv C t a)
    (hstep : TallyStep (t.world.process a).node.machine (t'.world.process a).node.machine)
    (hgiven : t'.acks.given a = t.acks.given a) (harrived : t'.acks.arrived a = t.acks.arrived a)
    (hother : ∀ b, b ≠ a → t'.world.shared b = t.world.shared b)
    (hown : ∀ id tally entry, t.world.tally a id = some tally →
      (t.world.shared a).replicationLog[tally.index]? = some entry →
        (t'.world.shared a).replicationLog[tally.index]? = some entry) : CountInv C t' a := by
  have hnext : (t.world.shared a).nextMessageId ≤ (t'.world.shared a).nextMessageId :=
    hstep.nextMessageId
  -- no acknowledgement has arrived for an id that was free
  have hfree : ∀ id, (t.world.shared a).nextMessageId ≤ id → ∀ v ∈ t.acks.given a, v.2 ≠ id := by
    intro id hid v hv heq
    have := (h.senders v hv).2.2
    omega
  refine ⟨fun id tally' hid => ?_, fun id hid => ?_, fun v hv => ?_, ?_, ?_, fun id tally' hid => ?_,
    fun id tally' hid => ?_⟩
  · rcases hstep.tallies id tally' hid with ⟨tally, htally, -⟩ | ⟨-, -, hlt, -⟩
    · exact (h.used id tally htally).trans_le hnext
    · exact hlt
  · refine List.countP_eq_zero.mpr fun r hr hack => ?_
    have hzero := List.countP_eq_zero.mp (h.fresh id (hnext.trans hid)) r (hstep.responses r hr)
    exact hzero hack
  · rw [hgiven] at hv
    obtain ⟨hmem, hne, hlt⟩ := h.senders v hv
    exact ⟨hmem, hne, hlt.trans_le hnext⟩
  · rw [hgiven, harrived]
    exact h.given
  · rw [harrived]
    exact h.once
  · rw [harrived]
    rcases hstep.tallies id tally' hid with ⟨tally, htally, -, hle⟩ |
      ⟨-, hge, -, hacks, -, hresponse, -⟩
    · exact hle.trans (h.counted id tally htally)
    · have hzero : acksWaiting (t'.world.shared a) id = 0 := by
        unfold acksWaiting
        rw [hresponse]
        exact h.fresh id hge
      rw [hacks, hzero]
      exact Nat.zero_le _
  · rcases hstep.tallies id tally' hid with ⟨tally, htally, hindex, -⟩ |
      ⟨-, hge, -, -, hindex, -, timestamp, commands, hlog⟩
    · obtain ⟨entry, hentry, hmessage, hheld⟩ := h.held id tally htally
      rw [hindex]
      refine ⟨entry, hown id tally entry htally hentry, hmessage, fun v hv heq => ?_⟩
      rw [hgiven] at hv
      rw [hother v.1 (h.senders v hv).2.1]
      exact hheld v hv heq
    · refine ⟨Leader.buildLogEntry (t.world.shared a) (t.world.shared a).replicationLog.length id
        timestamp commands, ?_, rfl, fun v hv heq => ?_⟩
      · rw [hindex]
        show (t'.world.process a).node.machine.shared.replicationLog[_]? = _
        rw [hlog]
        exact List.getElem?_concat_length
      · rw [hgiven] at hv
        exact absurd heq (hfree id hge v hv)

/-- The messages of the node stay as they are, while other nodes may acknowledge them. -/
theorem observe (h : CountInv C t a) {new : List (ℕ × ℕ)}
    (hmessages : ∀ id, t'.world.tally a id = t.world.tally a id)
    (hnext : (t'.world.shared a).nextMessageId = (t.world.shared a).nextMessageId)
    (hwaiting : ∀ id, acksWaiting (t'.world.shared a) id = acksWaiting (t.world.shared a) id)
    (hlog : (t'.world.shared a).replicationLog = (t.world.shared a).replicationLog)
    (hgiven : t'.acks.given a = t.acks.given a ++ new)
    (harrived : t'.acks.arrived a = t.acks.arrived a)
    (hkept : ∀ id tally, t.world.tally a id = some tally → ∀ v ∈ t.acks.given a, v.2 = id →
      ∀ entry, (t.world.shared v.1).replicationLog[tally.index]? = some entry →
        (t'.world.shared v.1).replicationLog[tally.index]? = some entry)
    (hnew : ∀ v ∈ new, v.1 ∈ C.members ∧ v.1 ≠ a ∧ ∃ tally, t.world.tally a v.2 = some tally ∧
      (t'.world.shared v.1).replicationLog[tally.index]? =
        (t.world.shared a).replicationLog[tally.index]?) : CountInv C t' a := by
  refine ⟨fun id tally hid => ?_, fun id hid => ?_, fun v hv => ?_, fun v hv => ?_, ?_,
    fun id tally hid => ?_, fun id tally hid => ?_⟩
  · rw [hnext]
    exact h.used id tally (hmessages id ▸ hid)
  · rw [hwaiting]
    exact h.fresh id (hnext ▸ hid)
  · rw [hnext]
    rcases List.mem_append.mp (hgiven ▸ hv) with hv | hv
    · exact h.senders v hv
    · obtain ⟨hmem, hne, tally, htally, -⟩ := hnew v hv
      exact ⟨hmem, hne, h.used v.2 tally htally⟩
  · rw [hgiven]
    exact List.mem_append_left _ (h.given v (harrived ▸ hv))
  · rw [harrived]
    exact h.once
  · rw [hwaiting, harrived]
    exact h.counted id tally (hmessages id ▸ hid)
  · rw [hmessages] at hid
    obtain ⟨entry, hentry, hmessage, hheld⟩ := h.held id tally hid
    refine ⟨entry, hlog ▸ hentry, hmessage, fun v hv heq => ?_⟩
    rcases List.mem_append.mp (hgiven ▸ hv) with hv | hv
    · exact hkept id tally hid v hv heq entry (hheld v hv heq)
    · obtain ⟨-, -, tally', htally', hagree⟩ := hnew v hv
      obtain rfl : tally' = tally := Option.some.inj (htally'.symm.trans (heq ▸ hid))
      exact hagree.trans hentry

/-- **A message is delivered to another node**, or is lost. -/
theorem of_same (h : CountInv C t a)
    (hown : t'.world.shared a = t.world.shared a)
    (hlog : ∀ b, (t'.world.shared b).replicationLog = (t.world.shared b).replicationLog)
    (hgiven : t'.acks.given a = t.acks.given a) (harrived : t'.acks.arrived a = t.acks.arrived a) :
    CountInv C t' a := by
  refine h.observe (fun id => ?_) (by rw [hown]) (fun id => by rw [hown]) (by rw [hown])
    (hgiven.trans (List.append_nil _).symm) harrived ?_ (List.forall_mem_nil _)
  · unfold World.tally
    rw [hown]
  · intro id tally htally v hv heq entry hentry
    rw [hlog]
    exact hentry

/-- **An acknowledgement arrives**, the first of its sender for a message that has been acknowledged
by it. -/
theorem deliver (h : CountInv C t a) {new : List (ℕ × ℕ)}
    (hmessages : ∀ id, t'.world.tally a id = t.world.tally a id)
    (hnext : (t'.world.shared a).nextMessageId = (t.world.shared a).nextMessageId)
    (hfresh : ∀ id, (t.world.shared a).nextMessageId ≤ id → acksWaiting (t'.world.shared a) id = 0)
    (hwaiting : ∀ id tally, t.world.tally a id = some tally →
      acksWaiting (t'.world.shared a) id ≤
        acksWaiting (t.world.shared a) id + new.countP (·.2 = id))
    (hlog : ∀ b, (t'.world.shared b).replicationLog = (t.world.shared b).replicationLog)
    (hgiven : t'.acks.given a = t.acks.given a)
    (harrived : t'.acks.arrived a = t.acks.arrived a ++ new)
    (hsent : ∀ v ∈ new, v ∈ t.acks.given a) (honce : (t.acks.arrived a ++ new).Nodup) :
    CountInv C t' a := by
  refine ⟨fun id tally hid => ?_, fun id hid => hfresh id (hnext ▸ hid), fun v hv => ?_,
    fun v hv => ?_, harrived ▸ honce, fun id tally hid => ?_, fun id tally hid => ?_⟩
  · rw [hnext]
    exact h.used id tally (hmessages id ▸ hid)
  · rw [hnext]
    exact h.senders v (hgiven ▸ hv)
  · rw [hgiven]
    exact (List.mem_append.mp (harrived ▸ hv)).elim (h.given v) (hsent v)
  · rw [hmessages] at hid
    rw [harrived, List.countP_append]
    have hcounted := h.counted id tally hid
    have hle := hwaiting id tally hid
    omega
  · rw [hmessages] at hid
    obtain ⟨entry, hentry, hmessage, hheld⟩ := h.held id tally hid
    refine ⟨entry, hlog a ▸ hentry, hmessage, fun v hv heq => ?_⟩
    rw [hlog]
    exact hheld v (hgiven ▸ hv) heq

/-- **The node starts again**, with no message outstanding. -/
theorem restart (hmessages : ∀ id, t'.world.tally a id = none)
    (hwaiting : ∀ id, acksWaiting (t'.world.shared a) id = 0) (hgiven : t'.acks.given a = [])
    (harrived : t'.acks.arrived a = []) : CountInv C t' a where
  used id _ hid := nomatch (hmessages id).symm.trans hid
  fresh id _ := hwaiting id
  senders _ hv := nomatch hgiven ▸ hv
  given _ hv := nomatch harrived ▸ hv
  once := harrived ▸ List.nodup_nil
  counted id _ hid := nomatch (hmessages id).symm.trans hid
  held id _ hid := nomatch (hmessages id).symm.trans hid

end CountInv

/-! ## A step of the cluster -/

/-- The messages of all members are counted right. -/
def AckTrace.Counts [ParsesSocketAddr] (C : Cluster) (t : AckTrace) : Prop :=
  ∀ a ∈ C.members, CountInv C t a

/-- What an exchange with the quorum workers leaves alone. -/
theorem Exchanges.shared_eq {n n' : Node} (h : Exchanges n n') :
    n'.shared.outstandingMessages = n.shared.outstandingMessages ∧
      n'.shared.nextMessageId = n.shared.nextMessageId ∧
        n'.shared.replicationLog = n.shared.replicationLog := by
  obtain ⟨responses, answers, tasks, rfl, -⟩ := h
  exact ⟨rfl, rfl, rfl⟩

theorem World.mem_keys_of_tally {w : World} {a id : ℕ} {tally : Tally}
    (h : w.tally a id = some tally) : id ∈ (w.shared a).outstandingMessages.keys := by
  obtain ⟨message, hmessage, -⟩ := Option.bind_eq_some_iff.mp h
  exact AList.mem_keys.mp (AList.lookup_isSome.mp (Option.isSome_of_eq_some hmessage))

/-- The events of a node in the events of its process. -/
theorem Process.isRestart_of_nodeEvent {p : Process} {event : ProcessEvent} {e : NodeEvent}
    (h : p.nodeEvent event = some e) :
    e.isRestart = event.isRestart ∧ ∀ response, e ≠ .respond response := by
  cases event with
  | accept clock =>
    obtain ⟨message, -, rfl⟩ := Option.map_eq_some_iff.mp h
    exact ⟨rfl, fun _ => nofun⟩
  | timeStep clock part =>
    cases h
    exact ⟨rfl, fun _ => nofun⟩
  | processTask =>
    cases h
    exact ⟨rfl, fun _ => nofun⟩
  | flush =>
    cases h
    exact ⟨rfl, fun _ => nofun⟩
  | restart clock written accepts =>
    cases h
    exact ⟨rfl, fun _ => nofun⟩
  | _ => cases h

section Step

variable [Capnp] [ParsesSocketAddr] {C : Cluster} {t : AckTrace} {b : ℕ} {event : ProcessEvent}

/-- **The entries that a node has promised to hold stay in its log.** -/
theorem AckLaw.entry_act (hlaw : AckLaw C t (.act b event)) (hb : b ∈ C.members) {a id : ℕ}
    {tally : Tally} {entry : OwnedLogEntry} (ha : a ∈ C.members)
    (htally : t.world.tally a id = some tally) (hpromised : a = b ∨ (b, id) ∈ t.acks.given a)
    (hentry : (t.world.shared b).replicationLog[tally.index]? = some entry) :
    ((t.world.step C (.act b event)).shared b).replicationLog[tally.index]? = some entry := by
  have hkey := World.mem_keys_of_tally htally
  show (((t.world.step C (.act b event)).process b).node).shared.replicationLog[_]? = _
  rw [World.step_act hb, World.process_update_self]
  rcases node_step C.utf8Lossy (t.world.process b) event with ⟨e, he, hnode⟩ | ⟨-, hexchange⟩
  · have hkeeps := hlaw.1 e he
    rw [hnode]
    refine Node.entry_step hentry ?_ fun hrestart => ?_
    · rintro clock rfl prevIndex hprev
      exact hkeeps prevIndex hprev a ha id hkey tally htally hpromised
    · cases e with
      | restart clock written accepts => exact hkeeps a ha id hkey tally htally hpromised
      | _ => cases hrestart
  · rw [hexchange.shared_eq.2.2]
    exact hentry

/-- A restarted node has no outstanding messages. -/
theorem World.restarted (hb : b ∈ C.members) (w : World) (clock : Clock) (written : ℕ)
    (accepts : ℕ → Bool) (id : ℕ) :
    (w.step C (.act b (.restart clock written accepts))).tally b id = none ∧
      acksWaiting ((w.step C (.act b (.restart clock written accepts))).shared b) id = 0 := by
  unfold World.tally World.shared
  rw [World.step_act hb, World.process_update_self]
  exact ⟨rfl, rfl⟩

/-- **A step of the node itself.** -/
theorem CountInv.act_self (h : CountInv C t b) (hb : b ∈ C.members)
    (hlaw : AckLaw C t (.act b event)) : CountInv C (t.step C (.act b event)) b := by
  have hgiven : ((t.step C (.act b event)).acks).given b =
      if event.isRestart then [] else t.acks.given b := by
    simp [AckTrace.step, Acks.step, hb, Acks.act]
  have harrived : ((t.step C (.act b event)).acks).arrived b =
      if event.isRestart then [] else t.acks.arrived b := by
    simp [AckTrace.step, Acks.step, hb, Acks.act]
  have hother : ∀ a, a ≠ b → (t.step C (.act b event)).world.shared a = t.world.shared a := by
    intro a hab
    show ((t.world.step C (.act b event)).process a).node.shared = _
    rw [World.step_act hb, World.process_update_of_ne t.world hab]
  have hstep : ((t.step C (.act b event)).world.process b) =
      ((t.world.process b).step C.utf8Lossy event).1 := by
    show (t.world.step C (.act b event)).process b = _
    rw [World.step_act hb, World.process_update_self]
  by_cases hrestart : event.isRestart
  · rw [if_pos hrestart] at hgiven harrived
    cases event with
    | restart clock written accepts =>
      exact .restart (fun id => (World.restarted hb t.world clock written accepts id).1)
        (fun id => (World.restarted hb t.world clock written accepts id).2) hgiven harrived
    | _ => cases hrestart
  rw [if_neg hrestart] at hgiven harrived
  rcases node_step C.utf8Lossy (t.world.process b) event with ⟨e, he, hnode⟩ | ⟨hnone, hexchange⟩
  · refine h.act ?_ hgiven harrived hother fun id tally entry htally hentry =>
      hlaw.entry_act hb hb htally (Or.inl rfl) hentry
    rw [hstep, hnode]
    obtain ⟨hsame, hrespond⟩ := Process.isRestart_of_nodeEvent he
    refine Node.tallyStep (hsame.trans (Bool.eq_false_iff.mpr hrestart)) hrespond ?_
    rintro clock message rfl
    exact hlaw.1 _ he
  · obtain ⟨hmessages, hnext, hlog⟩ := hexchange.shared_eq
    rw [← hstep] at hmessages hnext hlog
    refine h.observe ?_ hnext ?_ hlog (hgiven.trans (List.append_nil _).symm) harrived ?_
      (List.forall_mem_nil _)
    · intro id
      unfold World.tally World.shared
      rw [hmessages]
    · intro id
      show acksWaiting ((t.step C (.act b event)).world.process b).node.shared id = _
      rw [hstep, acksWaiting_exchange C.utf8Lossy _ hnone]
    · intro id tally htally v hv heq entry hentry
      rw [hother v.1 (h.senders v hv).2.1]
      exact hentry

/-- **A step of another node**, which may acknowledge messages. -/
theorem CountInv.act_other {a : ℕ} (h : CountInv C t a) (ha : a ∈ C.members) (hb : b ∈ C.members)
    (hab : a ≠ b) (hlaw : AckLaw C t (.act b event)) : CountInv C (t.step C (.act b event)) a := by
  have hother : ∀ c, c ≠ b → (t.step C (.act b event)).world.shared c = t.world.shared c := by
    intro c hc
    show ((t.world.step C (.act b event)).process c).node.shared = _
    rw [World.step_act hb, World.process_update_of_ne t.world hc]
  have hgiven : ((t.step C (.act b event)).acks).given a = t.acks.given a ++
      ((okAcks (t.world.shared b) ((t.world.step C (.act b event)).shared b)).filter fun v =>
        v.1 = a ∧ a ≠ b ∧ (t.world.tally a v.2).isSome).map fun v => (b, v.2) := by
    simp [AckTrace.step, Acks.step, hb, Acks.act, hab]
  have harrived : ((t.step C (.act b event)).acks).arrived a = t.acks.arrived a := by
    simp [AckTrace.step, Acks.step, hb, Acks.act, hab]
  refine h.observe (fun id => ?_) ?_ (fun id => ?_) ?_ hgiven harrived ?_ ?_
  · unfold World.tally
    rw [hother a hab]
  · rw [hother a hab]
  · rw [hother a hab]
  · rw [hother a hab]
  · intro id tally htally v hv heq entry hentry
    by_cases hvb : v.1 = b
    · have hpromised : (b, id) ∈ t.acks.given a := by
        rw [← hvb, ← heq]
        exact hv
      rw [hvb] at hentry ⊢
      exact hlaw.entry_act hb ha htally (Or.inr hpromised) hentry
    · rw [hother v.1 hvb]
      exact hentry
  · intro v hv
    obtain ⟨ack, hack, rfl⟩ := List.mem_map.mp hv
    obtain ⟨hnew, hcond⟩ := List.mem_filter.mp hack
    obtain ⟨rfl, -, hsome⟩ := of_decide_eq_true hcond
    obtain ⟨tally, htally⟩ := Option.isSome_iff_exists.mp hsome
    exact ⟨hb, hab.symm, tally, htally, hlaw.2 ack hnew tally htally⟩

/-- Nodes only exchange something with their quorum workers when a message is delivered. -/
theorem World.exchanges_of_deliver (C : Cluster) (w : World) (i a : ℕ) :
    Exchanges (w.process a).node ((w.step C (.deliver i)).process a).node := by
  rcases World.process_step C w (.deliver i) a with ⟨event, heq, -⟩ | ⟨j, packet, -, -, -, hstep⟩ |
    hsame
  · cases heq
  · rw [hstep]
    exact node_receive ..
  · rw [hsame]
    exact .refl _

/-- **A message is delivered to the node.** -/
theorem CountInv.deliver_self {i : ℕ} {packet : Packet} (h : CountInv C t packet.dst)
    (hpacket : t.world.net[i]? = some packet) (hlaw : AckLaw C t (.deliver i)) :
    CountInv C (t.step C (.deliver i)) packet.dst := by
  have hshared := fun b => (World.exchanges_of_deliver C t.world i b).shared_eq
  have hwaiting : ∀ id, acksWaiting ((t.step C (.deliver i)).world.shared packet.dst) id ≤
      acksWaiting (t.world.shared packet.dst) id + if packet.ack = some id then 1 else 0 := by
    intro id
    show acksWaiting ((t.world.step C (.deliver i)).process packet.dst).node.shared id ≤ _
    rw [World.step_deliver hpacket, World.process_update_self]
    exact acksWaiting_receive_le ..
  have hacks : (t.step C (.deliver i)).acks = t.acks.deliver t.world packet := by
    simp [AckTrace.step, Acks.step, hpacket]
  have harrived : (t.step C (.deliver i)).acks.arrived packet.dst = t.acks.arrived packet.dst ++
      ((packet.ack.filter fun id => (t.world.tally packet.dst id).isSome).map
        fun id => (packet.src, id)).toList := by
    rw [hacks]
    exact Function.update_self ..
  have hack := hlaw packet hpacket
  have hnew : ∀ v ∈ ((packet.ack.filter fun id => (t.world.tally packet.dst id).isSome).map
      fun id => (packet.src, id)).toList,
      v ∈ t.acks.given packet.dst ∧ v ∉ t.acks.arrived packet.dst := by
    intro v hv
    obtain ⟨id, hid, rfl⟩ := Option.map_eq_some_iff.mp (Option.mem_toList.mp hv)
    obtain ⟨hid, htally⟩ := Option.filter_eq_some_iff.mp hid
    exact (hack id hid).2 htally
  refine h.deliver (fun id => ?_) (hshared packet.dst).2.1 (fun id hid => ?_)
    (fun id tally htally => ?_) (fun b => (hshared b).2.2) (by rw [hacks]; rfl) harrived
    (fun v hv => (hnew v hv).1) ?_
  · exact congrArg (tallyOf · id) (hshared packet.dst).1
  · have hle := hwaiting id
    rw [h.fresh id hid] at hle
    split_ifs at hle with hsome
    · exact absurd (hack id hsome).1 (by omega)
    · omega
  · refine (hwaiting id).trans ?_
    split_ifs with hsome
    · simp [hsome, htally, Option.filter]
    · exact Nat.le_add_right ..
  · refine List.nodup_append.mpr ⟨h.once, ?_, fun v hv v' hv' heq => ?_⟩
    · exact (Option.toList_nodup _)
    · exact (hnew v' hv').2 (heq ▸ hv)

/-- **Every step that meets the condition keeps the counts.** -/
theorem AckTrace.Counts.step (h : t.Counts C) {label : Label} (hlaw : AckLaw C t label) :
    (t.step C label).Counts C := by
  intro a ha
  cases label with
  | act b event =>
    by_cases hb : b ∈ C.members
    · by_cases hab : a = b
      · subst hab
        exact (h a ha).act_self ha hlaw
      · exact (h a ha).act_other ha hb hab hlaw
    · have hsame : t.step C (.act b event) = t := by
        simp [AckTrace.step, Acks.step, hb, World.step_act_of_notMem hb]
      rw [hsame]
      exact h a ha
  | deliver i =>
    rcases hpacket : t.world.net[i]? with _ | packet
    · have hsame : t.step C (.deliver i) = t := by
        simp [AckTrace.step, Acks.step, hpacket, World.step_deliver_of_none hpacket]
      rw [hsame]
      exact h a ha
    · by_cases hdst : a = packet.dst
      · subst hdst
        exact (h packet.dst ha).deliver_self hpacket hlaw
      · have hacks : (t.step C (.deliver i)).acks = t.acks.deliver t.world packet := by
          simp [AckTrace.step, Acks.step, hpacket]
        refine (h a ha).of_same ?_
          (fun b => (World.exchanges_of_deliver C t.world i b).shared_eq.2.2) ?_ ?_
        · show ((t.world.step C (.deliver i)).process a).node.shared = _
          rw [World.step_deliver hpacket, World.process_update_of_ne _ hdst]
        · rw [hacks]
          rfl
        · rw [hacks]
          exact Function.update_of_ne hdst ..
  | lose i => exact (h a ha).of_same rfl (fun _ => rfl) rfl rfl

end Step

/-! ## Majorities -/

/-- The nodes that hold an entry at a position of their logs. -/
def World.holders (w : World) (members : Finset ℕ) (index : ℕ) (entry : OwnedLogEntry) : Finset ℕ :=
  members.filter fun b => (w.shared b).replicationLog[index]? = some entry

/-- A message that is completed has as many acknowledgements as the quorum size asks for. -/
theorem acks_of_completedMessage {sm : StateMachine} {part : TimeStepPart} {id index : ℕ}
    (h : completedMessage sm part = some (id, index)) :
    ∃ tally, tallyOf sm.shared.outstandingMessages id = some tally ∧ tally.index = index ∧
      sm.shared.quorumSize ≤ tally.quorumAcks + acksWaiting sm.shared id := by
  unfold completedMessage at h
  split at h
  · split at h
    · obtain ⟨tally, htally, hdone⟩ := Option.bind_eq_some_iff.mp h
      obtain ⟨hquorum, heq⟩ := Option.ite_none_right_eq_some.mp hdone
      cases heq
      exact ⟨tally, htally, rfl, by omega⟩
    · cases h
  · split at h
    · next id' flag rest hresponses =>
      obtain ⟨tally, htally, hdone⟩ := Option.bind_eq_some_iff.mp h
      obtain ⟨⟨hquorum, -⟩, heq⟩ := Option.ite_none_right_eq_some.mp hdone
      cases heq
      have hwaiting : 0 < acksWaiting sm.shared id := by
        unfold acksWaiting
        rw [hresponses]
        exact List.countP_pos_iff.mpr ⟨_, List.mem_cons_self, decide_eq_true rfl⟩
      exact ⟨tally, htally, rfl, by omega⟩
    · cases h
  · cases h

/-- `⌈k / 2⌉` of the listed nodes and the node itself are a majority. -/
theorem Cluster.card_members_lt [ParsesSocketAddr] (C : Cluster) {a : ℕ} (ha : a ∈ C.members) :
    C.members.card < 2 * ((C.config a).quorumSize + 1) := by
  have hcard := AppConfig.card_members (C.accepted a ha)
  rw [C.agree a ha] at hcard
  unfold AppConfig.quorumSize
  split_ifs at hcard <;> omega

/-- The acknowledgements that have arrived are by different nodes, all of which meet `P` if those that
have given one do. -/
theorem CountInv.countP_arrived_le [ParsesSocketAddr] {C : Cluster} {t : AckTrace} {a id : ℕ}
    (h : CountInv C t a) {P : ℕ → Prop} [DecidablePred P]
    (hgiven : ∀ v ∈ t.acks.given a, v.2 = id → P v.1) :
    (t.acks.arrived a).countP (·.2 = id) ≤ ((C.members.filter P).erase a).card := by
  have hinj : ∀ v ∈ (t.acks.arrived a).filter (·.2 = id), ∀ v' ∈ (t.acks.arrived a).filter (·.2 = id),
      v.1 = v'.1 → v = v' := by
    intro v hv v' hv' heq
    have hid := of_decide_eq_true (List.mem_filter.mp hv).2
    have hid' := of_decide_eq_true (List.mem_filter.mp hv').2
    exact Prod.ext heq (hid.trans hid'.symm)
  have hnodup : (((t.acks.arrived a).filter (·.2 = id)).map Prod.fst).Nodup :=
    (h.once.filter _).map_on hinj
  rw [List.countP_eq_length_filter, ← List.length_map (f := Prod.fst),
    ← List.toFinset_card_of_nodup hnodup]
  refine Finset.card_le_card fun b hb => ?_
  obtain ⟨v, hv, rfl⟩ := List.mem_map.mp (List.mem_toFinset.mp hb)
  obtain ⟨harrived, hid⟩ := List.mem_filter.mp hv
  obtain ⟨hmem, hne, -⟩ := h.senders v (h.given v harrived)
  refine Finset.mem_erase.mpr ⟨hne, Finset.mem_filter.mpr ⟨hmem, ?_⟩⟩
  exact hgiven v (h.given v harrived) (of_decide_eq_true hid)

/-- **Commit soundness.**  In every run that meets the condition on acknowledgements, a strict
majority of the cluster, the leader included, holds the leader's entry for a message that the next
response completes. -/
theorem commit_sound [Capnp] [ParsesSocketAddr] (C : Cluster) (clock : ℕ → Clock)
    (accepts : ℕ → ℕ → Bool) (labels : List Label)
    (hrun : Runs.AllSteps (AckTrace.step C) (AckLaw C) (AckTrace.start C clock accepts) labels)
    {a : ℕ} (ha : a ∈ C.members) {part : TimeStepPart} {id index : ℕ}
    (hcompleted : completedMessage
      ((Runs.run (AckTrace.step C) (AckTrace.start C clock accepts) labels).world.process
        a).node.machine part = some (id, index)) :
    let w := (Runs.run (AckTrace.step C) (AckTrace.start C clock accepts) labels).world
    ∃ entry, (w.shared a).replicationLog[index]? = some entry ∧ entry.messageId = id ∧
      a ∈ w.holders C.members index entry ∧
        C.members.card < 2 * (w.holders C.members index entry).card := by
  intro w
  obtain ⟨hcounts, hconnected⟩ := hrun.invariant (fun t => t.Counts C ∧ Connected C t.world)
    (fun t label h hlaw => ⟨h.1.step hlaw, h.2.step label⟩)
    ⟨fun a _ => CountInv.start clock accepts a, Connected.start clock accepts⟩
  obtain ⟨tally, htally, rfl, hquorum⟩ := acks_of_completedMessage hcompleted
  obtain ⟨entry, hentry, hmessage, hheld⟩ := (hcounts a ha).held id tally htally
  have hself : a ∈ w.holders C.members tally.index entry := Finset.mem_filter.mpr ⟨ha, hentry⟩
  refine ⟨entry, hentry, hmessage, hself, ?_⟩
  have hmajority : (C.config a).quorumSize ≤ (w.holders C.members tally.index entry).card - 1 :=
    calc (C.config a).quorumSize
        = (w.shared a).quorumSize := (hconnected.wired a ha).quorumSize.symm
      _ ≤ tally.quorumAcks + acksWaiting (w.shared a) id := hquorum
      _ ≤ _ := (hcounts a ha).counted id tally htally
      _ ≤ ((w.holders C.members tally.index entry).erase a).card :=
          (hcounts a ha).countP_arrived_le hheld
      _ = _ := Finset.card_erase_of_mem hself
  have hcard := C.card_members_lt ha
  have hpos := Finset.card_pos.mpr ⟨a, hself⟩
  omega

/-- The no-op entry of the first leader, which the answer of node 3 completes. -/
theorem commit_sound_noop : letI := digitCapnp
    letI := sampleAddresses
    let w := (Runs.run (AckTrace.step clusterOfThree)
      (AckTrace.start clusterOfThree (fun _ => ⟨0, 0⟩) fun _ _ => true) noopEverywhere.dropLast).world
    completedMessage (w.process 1).node.machine .popQuorum = some (2, 0) ∧
      ∃ entry, (w.shared 1).replicationLog[0]? = some entry ∧ entry.messageId = 2 ∧
        1 ∈ w.holders clusterOfThree.members 0 entry ∧
          clusterOfThree.members.card < 2 * (w.holders clusterOfThree.members 0 entry).card :=
  ⟨by decide +kernel, @commit_sound digitCapnp sampleAddresses clusterOfThree (fun _ => ⟨0, 0⟩)
    (fun _ _ => true) noopEverywhere.dropLast (by decide +kernel) 1 (by decide) .popQuorum 2 0
    (by decide +kernel)⟩

/-- Candidate `b` answers the append of the leader's entry with `Ok`, and the leader counts it. -/
def acknowledgeAt (b now : ℕ) : List Label :=
  [.deliver 0, .act b (.accept ⟨now, 0⟩), .act b (.answer 0 0), .deliver 0, .part 1 now .popQuorum]

/-- Node 1 of three takes office, and sends its no-op entry to nodes 2 and 3, which are both
candidates. -/
def noopToCandidates : List Label :=
  officeOfNodeOne ++ storeAtLeader 1007 ++
    [.act 1 (.workerTask 0 1007), .act 1 (.workerTask 0 1007)] ++ acknowledgeAt 2 1008 ++
    [.part 3 1009 .finish, .act 1 (.workerTask 1 1009), .lose 0, .act 1 (.workerTask 1 1009),
      .act 1 (.workerTask 1 1009)] ++ acknowledgeAt 3 1010

/-- **A message is completed that no other node holds.**  Nodes 2 and 3 answer `Ok` as candidates,
and the no-op entry is committed with their logs empty. -/
theorem completed_without_majority : letI := digitCapnp
    letI := sampleAddresses
    let w := (Runs.run (AckTrace.step clusterOfThree)
      (AckTrace.start clusterOfThree (fun _ => ⟨0, 0⟩) fun _ _ => true) noopToCandidates.dropLast).world
    completedMessage (w.process 1).node.machine .popQuorum = some (2, 0) ∧
      (w.step clusterOfThree (.part 1 1010 .popQuorum)).tally 1 2 = none ∧
        (w.shared 1).replicationLog.length = 1 ∧ (w.shared 2).replicationLog = [] ∧
          (w.shared 3).replicationLog = [] := by
  decide +kernel

end Kraft
