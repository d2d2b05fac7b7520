/-
# Entries and heartbeats

A follower takes an `AppendEntries` message with request id 0 for a heartbeat.  The id of a
message that carries an entry is the id the entry was given when a leader made it, in whichever
life of whichever node.  Ids start at 0 with every process, but the first one is spent before
the process can lead: on the election that it wins.

* `SpendsIds` : a process that has taken no id has nothing registered, and does not lead.
* `entries_numbered` : no entry travels or waits under the id 0, in every run in which restarts
  read their log files to the end.
* `torn_entry_unnumbered` : torn bytes in a log file that join the next entry make an entry with
  the id 0, and a later life of the node sends it.
-/
import Kraft.EntrySets
import Kraft.VoteRecords

namespace Kraft

open SharedState StateMachine Storage

/-! ## The ids of a process -/

/-- A process that has taken no id has nothing registered, and does not lead. -/
structure SpendsIds (sm : StateMachine) : Prop where
  unregistered : sm.shared.nextMessageId = 0 → ∀ id, sm.shared.outstandingMessages.lookup id = none
  leads : sm.delegate.nodeType = .leader → sm.shared.nextMessageId ≠ 0

/-- A won election is registered. -/
theorem electionOf_of_completed {sm : StateMachine} {part : TimeStepPart} {term : ℕ}
    (h : sm.completedElection part = some term) :
    ∃ id tally, electionOf sm.shared.outstandingMessages id = some tally := by
  obtain ⟨-, id, -, -, ⟨-, r, ⟨-, number, hlookup⟩, -⟩, -⟩ := completedElection_eq_some_iff.mp h
  exact ⟨id, (r.stored, r.grants), by simp [electionOf, hlookup, Poll.messageType]⟩

/-- New messages are registered under new ids. -/
theorem VoteFrame.unregistered {first : IdUse} {s s' : SharedState} (h : VoteFrame first s s')
    (hnone : s.nextMessageId = 0 → ∀ id, s.outstandingMessages.lookup id = none)
    (hzero : s'.nextMessageId = 0) (id : ℕ) : s'.outstandingMessages.lookup id = none := by
  refine Option.eq_none_iff_forall_not_mem.mpr fun msg hlookup => ?_
  have hmono := h.nextMessageId
  rcases h.messages id msg hlookup with hold | ⟨⟨-, hfits⟩, -⟩
  · rw [hnone (by omega) id] at hold
    cases hold
  · have hunused := hfits fun _ => .unused
    rw [takeIds_of_ge hmono (by omega)] at hunused
    exact IdUse.not_fits_unused hunused

namespace SpendsIds

variable {sm sm' : StateMachine}

/-- Ids are only taken, and a node that comes to lead has won an election. -/
theorem of_le (h : SpendsIds sm) (hmono : sm.shared.nextMessageId ≤ sm'.shared.nextMessageId)
    (hnone : sm'.shared.nextMessageId = 0 → ∀ id, sm'.shared.outstandingMessages.lookup id = none)
    (hleads : sm'.delegate.nodeType = .leader → sm.delegate.nodeType = .leader ∨
      ∃ part term, sm.completedElection part = some term) : SpendsIds sm' := by
  refine ⟨hnone, fun hlead hzero => ?_⟩
  have hbefore : sm.shared.nextMessageId = 0 := by omega
  rcases hleads hlead with hlead | ⟨part, term, hwon⟩
  · exact h.leads hlead hbefore
  · obtain ⟨id, tally, helection⟩ := electionOf_of_completed hwon
    obtain ⟨msg, hlookup, -⟩ := lookup_of_electionOf helection
    rw [h.unregistered hbefore id] at hlookup
    cases hlookup

theorem accept (h : SpendsIds sm) (clock : Clock) (message : LocalRaftMessage) :
    SpendsIds (sm.accept clock message) := by
  obtain ⟨first, hframe, -⟩ := voteFrame_accept clock message sm
  exact h.of_le hframe.nextMessageId (hframe.unregistered h.unregistered)
    fun hlead => Or.inl (nodeType_accept hlead)

theorem runPart (h : SpendsIds sm) (clock : Clock) (part : TimeStepPart) :
    SpendsIds (sm.runPart clock part) := by
  have hleads : (sm.runPart clock part).delegate.nodeType = .leader →
      sm.delegate.nodeType = .leader ∨ ∃ part term, sm.completedElection part = some term := by
    intro hlead
    by_cases hrole : sm.delegate.nodeType = .leader
    · exact Or.inl hrole
    · exact Or.inr ⟨part, completedElection_of_leads hrole hlead⟩
  cases part with
  | takeOffice =>
    have hframe := voteFrame_takeOffice clock sm
    exact h.of_le hframe.nextMessageId (hframe.unregistered h.unregistered) hleads
  | popPersistence =>
    have hleads : sm.popPersistence.delegate.nodeType = .leader → _ := hleads
    show SpendsIds sm.popPersistence
    rcases popPersistence_cases sm with heq | ⟨response, rest, -, heq⟩
    · rw [heq]
      exact h
    · rw [heq] at hleads ⊢
      have hframe := responseFrame_handlePersistence response (sm.dropPersistence rest)
      refine h.of_le hframe.nextMessageId.ge (fun hzero id => ?_) hleads
      have hnone := h.unregistered (hframe.nextMessageId.symm.trans hzero) id
      exact (handlePersistence_ballots response (sm.dropPersistence rest)).lookup_eq_none hnone
  | popQuorum =>
    have hleads : sm.popQuorum.delegate.nodeType = .leader → _ := hleads
    show SpendsIds sm.popQuorum
    rcases popQuorum_cases sm with heq | ⟨response, rest, -, heq⟩
    · rw [heq]
      exact h
    · rw [heq] at hleads ⊢
      have hframe := responseFrame_handleQuorum response (sm.dropQuorum rest)
      refine h.of_le hframe.nextMessageId.ge (fun hzero id => ?_) hleads
      have hnone := h.unregistered (hframe.nextMessageId.symm.trans hzero)
      refine (handleQuorum_ballots response (sm.dropQuorum rest) ?_).lookup_eq_none (hnone id)
      rintro id' term - msg hlookup
      rw [hnone id'] at hlookup
      cases hlookup
  | finish =>
    obtain ⟨first, hframe, -⟩ := voteFrame_finish clock sm
    exact h.of_le hframe.nextMessageId (hframe.unregistered h.unregistered) hleads

/-- **One event of the node.** -/
theorem step [Capnp] {n : Node} (h : SpendsIds n.machine) (e : NodeEvent) :
    SpendsIds (n.step e).machine := by
  cases e with
  | accept clock message => exact h.accept clock message
  | timeStep clock part => exact h.runPart clock part
  | respond response => exact ⟨h.unregistered, h.leads⟩
  | processTask =>
    obtain ⟨work, isOpen, responses, heq⟩ := Node.serves_processTask n
    show SpendsIds n.processTask.machine
    rw [heq]
    exact ⟨h.unregistered, h.leads⟩
  | flush =>
    obtain ⟨work, isOpen, responses, heq⟩ := Node.serves_flush n
    show SpendsIds n.flush.machine
    rw [heq]
    exact ⟨h.unregistered, h.leads⟩
  | restart clock written accepts => exact ⟨fun _ _ => rfl, by rintro ⟨⟩⟩

end SpendsIds

/-! ## The cluster -/

/-- The entry has an id of its own. -/
def Numbered (entry : OwnedLogEntry) : Prop := entry.messageId ≠ 0

/-- A leader gives the entries that it appends such ids. -/
theorem SpendsIds.spreads_appends {sm sm' : StateMachine} (h : SpendsIds sm) {idx : ℕ}
    {first : List LocalQuorumWorkerTaskType} (hwithin : Within Numbered sm.shared.replicationLog)
    (happends : Appends idx first sm sm') (hfirst : ∀ task ∈ first, TaskOf Numbered task) :
    Spreads Numbered sm sm' := by
  obtain ⟨id, timestamp, commands, hid, hlog, hqueued⟩ := happends.entry
  refine .appends hwithin ?_ hlog hqueued hfirst
  have hpos := h.leads happends.role
  show id ≠ 0
  omega

/-- The request of a numbered entry has the entry's id. -/
theorem RequestOf.requestId_ne_zero {request : LocalAppendEntries} (h : RequestOf Numbered request)
    (hentry : request.entry ≠ none) : request.requestId ≠ 0 := by
  obtain ⟨entry, hentry⟩ := Option.ne_none_iff_exists'.mp hentry
  obtain ⟨owned, -, -, -, -, -, hid, howned⟩ := h entry hentry
  rw [hid]
  exact howned

/-- What the disk of a node that restarts must be like: `log.capnp` can be read to its end. -/
def RestartReads [Capnp] (n : Node) : NodeEvent → Prop
  | .restart _ written _ => ReadToEnd (n.storage.logFile ++ n.storage.logBuffer.take written)
  | _ => True

/-- **One event of a node** hands on numbered entries only. -/
theorem SpendsIds.spreadsIn [Capnp] {n : Node} (h : SpendsIds n.machine)
    (hwithin : NodeWithin Numbered n) (hnext : 1 ≤ n.shared.nextTerm) {e : NodeEvent}
    (hrestart : RestartReads n e)
    (hrequest : ∀ clock message, e = .accept clock message →
      (entryFlow Numbered).request message.payload) : n.SpreadsIn Numbered e := by
  cases e with
  | accept clock message =>
    have hdata := RequestOf.of_payload (hrequest clock message rfl)
    rcases accept_replication clock message n.machine hwithin.isOpen
        (fun request hpayload entry hentry =>
          (hdata request hpayload entry hentry).imp fun _ h => h.1) with
      hstays | ⟨request, entry, owned, hpayload, hstores⟩ | ⟨batch, -, hwrites⟩
    · exact .stays hwithin.log hnext hstays
    · exact .stores hwithin.log (hdata request hpayload) hstores
    · exact h.spreads_appends hwithin.log hwrites.toAppends (by simp)
  | timeStep clock part =>
    rcases runPart_replication clock n.machine part with hstays | ⟨-, hoffice⟩ |
      ⟨term, -, hwon⟩ | ⟨-, node, prevTerm, prevIndex, rest, -, hcut⟩
    · exact .stays hwithin.log hnext hstays
    · refine h.spreads_appends hwithin.log hoffice.toAppends fun task htask => ?_
      obtain rfl := List.mem_singleton.mp htask
      trivial
    · exact .wins hwithin.log hwon
    · exact .cuts hwithin.log hcut
  | restart clock written accepts => exact hrestart
  | _ => trivial

/-- A node that restarts can read its log file to the end. -/
def World.RestartReads [Capnp] (w : World) : Label → Prop
  | .act a (.restart clock written accepts) =>
    Kraft.RestartReads (w.process a).node (.restart clock written accepts)
  | _ => True

instance [Capnp] (w : World) : ∀ label, Decidable (w.RestartReads label)
  | .act _ (.restart ..) => inferInstanceAs (Decidable (Storage.ReadToEnd _))
  | .act _ (.accept _) | .act _ (.timeStep ..) | .act _ .processTask | .act _ .flush
  | .act _ (.workerTask ..) | .act _ (.heartbeat ..) | .act _ (.answer ..) | .act _ (.write ..)
  | .act _ (.forward ..) | .act _ (.askLeader _) | .deliver _ | .lose _ =>
    inferInstanceAs (Decidable True)

theorem World.RestartReads.of_nodeStep [Capnp] {w : World} {label : Label} (h : w.RestartReads label)
    {a : ℕ} {e : NodeEvent} (he : w.NodeStep label a e) : Kraft.RestartReads (w.process a).node e := by
  obtain ⟨event, rfl, hevent⟩ := he
  cases event with
  | restart clock written accepts =>
    obtain rfl := Option.some.inj hevent
    exact h
  | accept clock =>
    obtain ⟨message, -, rfl⟩ := Option.map_eq_some_iff.mp hevent
    trivial
  | timeStep clock part =>
    obtain rfl := Option.some.inj hevent
    trivial
  | processTask =>
    obtain rfl := Option.some.inj hevent
    trivial
  | flush =>
    obtain rfl := Option.some.inj hevent
    trivial
  | _ => cases hevent

section Cluster

variable [Capnp] [ParsesSocketAddr]

/-- An entry is not taken for a heartbeat: neither on its way nor where it waits to be accepted
does an `AppendEntries` request carry an entry under the request id 0. -/
structure World.EntriesNumbered (C : Cluster) (w : World) : Prop where
  sent : ∀ packet ∈ w.net, ∀ request, packet.message = .appendEntriesRequest request →
    request.entry ≠ none → request.requestId ≠ 0
  received : ∀ a ∈ C.members, ∀ message ∈ (w.process a).inbox, ∀ request,
    message.payload = .appendEntries request → request.entry ≠ none → request.requestId ≠ 0

/-- The invariant of a node. -/
structure NodeNumbered (n : Node) : Prop extends NodeWithin Numbered n where
  spends : SpendsIds n.machine
  nextTerm : 1 ≤ n.shared.nextTerm

/-- The invariant of the cluster. -/
structure ClusterNumbered (C : Cluster) (w : World) : Prop where
  connected : Connected C w
  flow : World.Carries C (entryFlow Numbered) w
  nodes : ∀ a ∈ C.members, NodeNumbered (w.process a).node

namespace ClusterNumbered

variable [LawfulCapnp] {C : Cluster} {w : World}

theorem start (clock : ℕ → Clock) (accepts : ℕ → ℕ → Bool) :
    ClusterNumbered C (World.start C clock accepts) where
  connected := .start clock accepts
  flow := .start clock accepts
  nodes _ _ := ⟨.start (within_nil _) .., ⟨fun _ _ => rfl, by rintro ⟨⟩⟩, Nat.le_add_left 1 _⟩

theorem node (h : ClusterNumbered C w) {label : Label} (hok : w.RestartReads label) {a : ℕ}
    (ha : a ∈ C.members) {e : NodeEvent} (he : w.NodeStep label a e) :
    NodeNumbered ((w.process a).node.step e) ∧ (e.isRestart = false →
      Hands Numbered (w.process a).node.shared ((w.process a).node.step e).shared) := by
  have hnode := h.nodes a ha
  obtain ⟨hwithin, hhands⟩ := hnode.toNodeWithin.step hnode.nextTerm (hnode.spends.spreadsIn
    hnode.toNodeWithin hnode.nextTerm (hok.of_nodeStep he) (h.flow.request_of_nodeStep ha he))
  exact ⟨⟨hwithin, hnode.spends.step e, one_le_nextTerm_step hnode.nextTerm⟩, hhands⟩

/-- **A step of the cluster.** -/
theorem step (h : ClusterNumbered C w) {label : Label} (hok : w.RestartReads label) :
    ClusterNumbered C (w.step C label) := by
  refine ⟨h.connected.step label, h.flow.step h.connected label ?_, fun a ha => ?_⟩
  · intro a ha e he hrestart k worker _ hchannel
    exact ((h.node hok ha he).2 hrestart).queue hchannel
  · rcases w.node_step (C := C) label a with ⟨e, he, -, hnode⟩ | hexchanges
    · rw [hnode]
      exact (h.node hok ha he).1
    · have hwithin := (h.nodes a ha).toNodeWithin.exchanges hexchanges
      have hspends := (h.nodes a ha).spends
      have hnext := (h.nodes a ha).nextTerm
      obtain ⟨responses, answers, tasks, heq, -⟩ := hexchanges
      rw [heq] at hwithin ⊢
      exact ⟨hwithin, ⟨hspends.unregistered, hspends.leads⟩, hnext⟩

end ClusterNumbered

theorem ClusterNumbered.entriesNumbered {C : Cluster} {w : World} (h : ClusterNumbered C w) : w.EntriesNumbered C := by
  constructor
  · intro packet hpacket request hmessage hentry
    have hflow := h.flow.net packet hpacket
    rw [hmessage] at hflow
    exact RequestOf.requestId_ne_zero hflow hentry
  · intro a ha message hmem request hpayload hentry
    have hrequest := RequestOf.of_payload ((h.flow.processes a ha).inbox message hmem)
    exact (hrequest request hpayload).requestId_ne_zero hentry

end Cluster

/-- **Entries are not taken for heartbeats**, in every run of the cluster in which restarts read
their log files to the end. -/
theorem entries_numbered [Capnp] [LawfulCapnp] [ParsesSocketAddr] (C : Cluster)
    (clock : ℕ → Clock) (accepts : ℕ → ℕ → Bool) (labels : List Label)
    (hrun : Runs.AllSteps (World.step C) World.RestartReads (World.start C clock accepts) labels) :
    (Runs.run (World.step C) (World.start C clock accepts) labels).EntriesNumbered C :=
  (hrun.invariant (ClusterNumbered C) (fun _ _ h hok => h.step hok)
    (.start clock accepts)).entriesNumbered

/-- Node 1 leads in three lives.  In the first it dies when `written` bytes of its no-op entry
are in the file, in the second when its entry is there as well.  In the third node 3, which has
an empty log, refuses the new entry, and node 1 sends what it has recovered. -/
def threeLives (written : ℕ) : List Label :=
  officeOfNodeOne ++ [.act 1 .processTask, .act 1 (.restart ⟨2000, 0⟩ written fun _ => true)] ++
    electAgain 3000 ++
    [.act 1 .processTask, .act 1 .flush, .act 1 (.restart ⟨4000, 0⟩ 0 fun _ => true)] ++
    electAgain 5000 ++ repairNodeThree

/-- The ids under which entries are on their way. -/
def World.entryIds (w : World) : List ℕ :=
  w.net.filterMap fun packet =>
    match packet.message with
    | .appendEntriesRequest request => request.entry.map fun _ => request.requestId
    | _ => none

theorem World.EntriesNumbered.zero_notMem [ParsesSocketAddr] {C : Cluster} {w : World}
    (h : w.EntriesNumbered C) : 0 ∉ w.entryIds := by
  intro hmem
  obtain ⟨packet, hpacket, hid⟩ := List.mem_filterMap.mp hmem
  split at hid
  · next request hmessage =>
    obtain ⟨entry, hentry, hzero⟩ := Option.map_eq_some_iff.mp hid
    exact h.sent packet hpacket request hmessage (by simp [hentry]) hzero
  · cases hid

/-- The first entry is in the file when the node dies: what it sends in its third life are the
three entries of its lives. -/
theorem entries_numbered_threeLives : letI := digitCapnp
    letI := sampleAddresses
    let w := Runs.run (World.step clusterOfThree)
      (World.start clusterOfThree (fun _ => ⟨0, 0⟩) fun _ _ => true) (threeLives 20)
    w.entryIds = [2, 2, 2] ∧ w.EntriesNumbered clusterOfThree :=
  ⟨by decide +kernel, @entries_numbered digitCapnp lawful_digitCapnp sampleAddresses clusterOfThree
    (fun _ => ⟨0, 0⟩) (fun _ _ => true) (threeLives 20) (by decide +kernel)⟩

/-- **An entry under the id 0.**  The node dies when the first four fields of its entry are in the
file.  With the fields of the next entry they make an entry with the id 0, which it sends. -/
theorem torn_entry_unnumbered :
    ¬ ∀ (_ : Capnp) (_ : LawfulCapnp) (_ : ParsesSocketAddr) (C : Cluster) (clock : ℕ → Clock)
      (accepts : ℕ → ℕ → Bool) (labels : List Label),
        (Runs.run (World.step C) (World.start C clock accepts) labels).EntriesNumbered C := by
  intro h
  have hnumbered := h digitCapnp lawful_digitCapnp sampleAddresses clusterOfThree (fun _ => ⟨0, 0⟩)
    (fun _ _ => true) (threeLives 5)
  refine @World.EntriesNumbered.zero_notMem sampleAddresses _ _ hnumbered ?_
  decide +kernel

end Kraft
