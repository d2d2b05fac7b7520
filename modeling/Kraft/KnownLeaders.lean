/-
# Leaders, and whom a node takes for one

A node keeps the leader that it knows in `leader_id`, next to `current_term`.  The write proxy sends
its batches there, and to its own state machine if the leader is the node itself.

* `leader_known` : in every run of the cluster, whatever is lost, delayed or restarted, a node has
  its own id there exactly if it leads, and the node that it takes for the leader of its term has
  been elected in that term.
* `leader_agreed` : where elections are safe, two nodes in the same term that know a leader know the
  same one.
* `leader_backed` : a leader has the votes of a quorum on their disks, for good.
* `entries_from_leaders` : an entry, in a log or on its way, is of a term in which a node was
  elected, and not ahead of the log of this node while it leads.

The terms of AppendEntries requests are those of offices: `officeFlow` is the flow of messages whose
sender has been elected in their term.  The exception is term 0, which a leader sends with a batch
that it takes before its first `time_step`.
-/
import Kraft.LeaderAppendOnly
import Kraft.LogMatching

namespace Kraft

open SharedState StateMachine

/-! ## What an event does to the leader that a node knows -/

/-- The AppendEntries request that an event accepts. -/
def NodeEvent.followed : NodeEvent → Option LocalAppendEntries
  | .accept _ ⟨.appendEntries request, _⟩ => some request
  | _ => none

/-- The node keeps its leader, follows the sender of `request`, or wins an election. -/
inductive KnowsStep (request : Option LocalAppendEntries) (sm sm' : StateMachine) : Prop
  | keeps (leaderId : sm'.shared.leaderId = sm.shared.leaderId)
      (currentTerm : sm'.shared.currentTerm = sm.shared.currentTerm)
      (role : sm'.delegate.nodeType = .leader ↔ sm.delegate.nodeType = .leader)
  | follows (followed : LocalAppendEntries) (accepted : request = some followed)
      (leaderId : sm'.shared.leaderId = followed.leaderId)
      (currentTerm : sm'.shared.currentTerm = followed.term)
      (role : sm'.delegate.nodeType ≠ .leader)
  | wins (role : sm.delegate.nodeType ≠ .leader) (role' : sm'.delegate.nodeType = .leader)
      (leaderId : sm'.shared.leaderId = sm.shared.identity)

/-- The node knows what it knew. -/
theorem KnowsStep.of_eq {request : Option LocalAppendEntries} {sm sm' : StateMachine}
    (hrole : sm'.delegate = sm.delegate) (hleader : sm'.shared.leaderId = sm.shared.leaderId)
    (hterm : sm'.shared.currentTerm = sm.shared.currentTerm) : KnowsStep request sm sm' :=
  .keeps hleader hterm (by rw [hrole])

/-- A node that takes the sender for its leader follows it. -/
theorem KnowsStep.of_heeds {role : RaftNodeType} {request : LocalAppendEntries}
    {sm sm' : StateMachine} {s₁ : SharedState} (h : Heeds role request sm.shared s₁)
    (hrole : role = sm.delegate.nodeType) (hrole' : sm'.delegate.nodeType = .follower)
    (hleader : sm'.shared.leaderId = s₁.leaderId)
    (hterm : sm'.shared.currentTerm = s₁.currentTerm) : KnowsStep (some request) sm sm' := by
  obtain ⟨hleader₁, hterm₁⟩ := h.standing
  have hfollows : sm.shared.currentTerm ≤ request.term → KnowsStep (some request) sm sm' :=
    fun hle => .follows request rfl (hleader.trans hleader₁)
      (hterm.trans (hterm₁.trans (max_eq_right hle))) (by rw [hrole']; simp)
  cases h with
  | follows hfollower =>
    refine .keeps hleader hterm ?_
    rw [hrole', ← hrole, hfollower]
  | recognises _ _ => exact hfollows (max_eq_right_iff.mp hterm₁.symm)
  | stepsDown _ hlt => exact hfollows hlt.le

/-- A request to append names the leader. -/
theorem knowsStep_acceptAppendEntries (clock : Clock) (request : LocalAppendEntries)
    (callback : Callback) (sm : StateMachine) :
    KnowsStep (some request) sm (sm.acceptAppendEntries clock request callback) := by
  have hrole := nodeType_acceptAppendEntries clock request callback sm
  have hreceives := receives_acceptAppendEntries clock request callback sm
  generalize sm.acceptAppendEntries clock request callback = sm' at hrole hreceives ⊢
  obtain ⟨delegate, s', requests⟩ := sm'
  dsimp only at hrole hreceives
  cases hreceives with
  | unrecognised hheard =>
    rcases hrole with ⟨hold, hfollower⟩ | ⟨-, hdelegate⟩
    · exact .keeps rfl rfl (by rw [hfollower, hold.resolve_left hheard])
    · exact .of_eq hdelegate rfl rfl
  | mismatched hheeds | acknowledged hheeds =>
    exact .of_heeds hheeds rfl (hrole.resolve_right fun hnot => hnot.1 hheeds.heard).2 rfl rfl
  | adopted hfollows hterm hleader =>
    have hheeds : Heeds sm.delegate.nodeType request sm.shared sm.shared :=
      .follows hfollows hterm hleader
    exact .of_heeds hheeds rfl (hrole.resolve_right fun hnot => hnot.1 hheeds.heard).2 (by simp)
      (by simp)
  | unstored _ hheeds | stored _ hheeds =>
    exact .of_heeds hheeds rfl (hrole.resolve_right fun hnot => hnot.1 hheeds.heard).2 (by simp)
      (by simp)

/-- A request. -/
theorem knowsStep_accept (clock : Clock) (message : LocalRaftMessage) (sm : StateMachine) :
    KnowsStep (NodeEvent.accept clock message).followed sm (sm.accept clock message) := by
  obtain ⟨payload, callback⟩ := message
  cases payload with
  | requestVote request =>
    have hasked := asked_acceptRequestVote request callback sm
    have hrole := delegate_acceptRequestVote request callback sm
    show KnowsStep none sm (sm.acceptRequestVote request callback)
    generalize sm.acceptRequestVote request callback = sm' at hasked hrole ⊢
    obtain ⟨delegate, s', requests⟩ := sm'
    cases hasked <;> exact .of_eq hrole rfl rfl
  | appendEntries request => exact knowsStep_acceptAppendEntries clock request callback sm
  | getRaftState => exact .of_eq rfl rfl rfl
  | writeBatch batch =>
    show KnowsStep none sm (sm.acceptWriteBatch clock batch callback)
    unfold acceptWriteBatch
    split <;> exact .of_eq rfl (by simp) (by simp)

/-! ### Responses -/

/-- A response elects a candidate, or changes nothing of this. -/
theorem KnowsStep.of_responds (clock : Clock) (sm : StateMachine) {part : TimeStepPart}
    (hpart : part = .popPersistence ∨ part = .popQuorum) :
    KnowsStep none sm (sm.runPart clock part) := by
  have hresponds := responds_runPart clock sm hpart
  have hdrop : (sm.dropReply part).delegate = sm.delegate ∧
      (sm.dropReply part).shared.identity = sm.shared.identity ∧
      sm.shared.SameStanding (sm.dropReply part).shared := by
    rcases hpart with rfl | rfl <;> simp [dropReply]
  generalize sm.runPart clock part = sm' at hresponds ⊢
  cases hresponds with
  | elects _ hrole => exact .wins (by rw [← hdrop.1, hrole]; simp) rfl hdrop.2.1
  | stays _ hdelegate hstanding =>
    exact .of_eq (hdelegate.trans hdrop.1) (hstanding.2.1.trans hdrop.2.2.2.1)
      (hstanding.1.trans hdrop.2.2.1)

/-- A part of `time_step`. -/
theorem knowsStep_runPart (clock : Clock) (part : TimeStepPart) (sm : StateMachine) :
    KnowsStep none sm (sm.runPart clock part) := by
  cases part with
  | takeOffice =>
    show KnowsStep none sm (sm.takeOffice clock)
    unfold takeOffice
    split
    · next hrole => exact .keeps (by simp) (by simp) (by simp [hrole])
    · exact .of_eq rfl rfl rfl
  | popPersistence => exact .of_responds clock sm (Or.inl rfl)
  | popQuorum => exact .of_responds clock sm (Or.inr rfl)
  | finish =>
    show KnowsStep none sm (sm.finish clock)
    unfold finish
    split
    · next timer hrole =>
      refine .keeps (by simp) (by simp) ?_
      rw [hrole]
      dsimp only
      split_ifs <;> simp [newCandidate]
    · next timeout hrole =>
      split_ifs
      · exact .keeps (by simp) (by simp) (by simp [hrole])
      · exact .keeps (by simp) (by simp) (by simp [hrole])
    · next hrole => exact .keeps (by simp) (by simp) (by simp [hrole])
    · exact .of_eq rfl rfl rfl

/-! ## Messages of offices -/

section Office

variable (Elected : ℕ → ℕ → Prop)

/-- Heartbeats start in a term in which the node was elected. -/
def OfficeTask (a : ℕ) : LocalQuorumWorkerTaskType → Prop
  | .startHeartbeats _ term _ _ _ => Elected a term
  | _ => True

/-- The sender was elected in the term of the message. -/
def OfficeMessage : QuorumMessage → Prop
  | .appendEntriesRequest request => request.term = 0 ∨ Elected request.leaderId request.term
  | _ => True

/-- What the worker sends for a task. -/
theorem officeMessage_processTask (utf8Lossy : List UInt8 → List UInt8) (now : ℕ)
    (task : LocalQuorumWorkerTaskType) {w : QuorumWorker}
    (h : w.term = 0 ∨ Elected w.selfId w.term) :
    ∀ m ∈ (w.processTask utf8Lossy now task).2.messages, OfficeMessage Elected m := by
  intro m hm
  cases (w.processTask_sends utf8Lossy now task).2 m hm with
  | entry | backfill => exact h
  | _ => trivial

/-- The worker goes on in its term, or in that of the office that begins. -/
theorem term_processTask (utf8Lossy : List UInt8 → List UInt8) (now : ℕ)
    {task : LocalQuorumWorkerTaskType} {w : QuorumWorker} (h : w.term = 0 ∨ Elected w.selfId w.term)
    (htask : OfficeTask Elected w.selfId task) :
    (w.processTask utf8Lossy now task).1.term = 0 ∨
      Elected w.selfId (w.processTask utf8Lossy now task).1.term := by
  cases task with
  | startHeartbeats id term prevTerm prevLogIndex commitIndex => exact Or.inr htask
  | backfillLog data =>
    show (w.sendBackfillEntries now data).1.term = 0 ∨
      Elected _ (w.sendBackfillEntries now data).1.term
    unfold QuorumWorker.sendBackfillEntries
    split_ifs <;> exact h
  | _ => exact h

/-- The flow of messages whose sender was elected in their term. -/
def officeFlow : Flow where
  channel w tasks := (w.term = 0 ∨ Elected w.selfId w.term) ∧
    ∀ task ∈ tasks, OfficeTask Elected w.selfId task
  message := OfficeMessage Elected
  fresh _ _ := ⟨Or.inl rfl, by simp⟩
  view hsame h := by
    rw [hsame.term, hsame.ends.1]
    exact h
  forward batchId batch callback h := by
    refine ⟨h.1, fun task htask => ?_⟩
    rcases List.mem_append.mp htask with hold | hnew
    · exact h.2 task hold
    · obtain rfl := List.mem_singleton.mp hnew
      trivial
  sends {w task rest} utf8Lossy now h := by
    refine ⟨?_, officeMessage_processTask Elected utf8Lossy now task h.1⟩
    rw [(w.processTask_sends utf8Lossy now task).1.ends.1]
    exact ⟨term_processTask Elected utf8Lossy now h.1 (h.2 task (.head _)),
      fun task' htask' => h.2 task' (.tail _ htask')⟩
  heartbeat h := h.1
  vote _ _ := trivial
  reply {m} h := by cases m <;> trivial

/-- The tasks that are handed to the quorum workers are those of the node's offices. -/
def HandsOffices (a : ℕ) (s s' : SharedState) : Prop :=
  ∃ new, Queued s s' new ∧ ∀ k, ∀ task ∈ new k, OfficeTask Elected a task

variable {Elected} {a : ℕ}

theorem HandsOffices.of_eq {s s' : SharedState} (h : s'.quorumWorkerTasks = s.quorumWorkerTasks) :
    HandsOffices Elected a s s' :=
  ⟨_, .of_eq h, by simp⟩

/-- A leader starts its heartbeats in its term. -/
theorem HandsOffices.of_hands {sm sm' : StateMachine} (h : HandsTasks sm sm')
    (helected : sm.delegate.nodeType = .leader → Elected a sm.shared.currentTerm) :
    HandsOffices Elected a sm.shared sm'.shared := by
  obtain ⟨new, hqueued, hnew⟩ := h
  refine ⟨new, hqueued, fun k task htask => ?_⟩
  cases task with
  | startHeartbeats id term prevTerm prevIndex commitIndex =>
    obtain ⟨hrole, rfl⟩ := hnew k _ htask _ _ _ _ _ rfl
    exact helected hrole
  | _ => trivial

/-- A node hands its workers its own offices only. -/
theorem Node.handsOffices_step [Capnp] {n : Node} {e : NodeEvent} (hrestart : e.isRestart = false)
    (helected : n.machine.delegate.nodeType = .leader → Elected a n.shared.currentTerm) :
    HandsOffices Elected a n.shared (n.step e).shared := by
  have hserves : ∀ {sm' : StateMachine}, Serves n.machine sm' →
      HandsOffices Elected a n.shared sm'.shared := by
    rintro sm' ⟨work, isOpen, responses, rfl⟩
    exact .of_eq rfl
  cases e with
  | accept clock message => exact .of_hands (hands_accept clock message n.machine) helected
  | timeStep clock part => exact .of_hands (hands_runPart clock n.machine part) helected
  | respond response => exact .of_eq rfl
  | processTask => exact hserves n.serves_processTask
  | flush => exact hserves n.serves_flush
  | restart clock written accepts => cases hrestart

/-- The tasks join those that wait. -/
theorem HandsOffices.queue {n n' : Node} (h : HandsOffices Elected a n.shared n'.shared) {k : ℕ}
    (hqueue : ∀ task ∈ n.queue k, OfficeTask Elected a task) :
    ∀ task ∈ n'.queue k, OfficeTask Elected a task := by
  obtain ⟨new, hqueued, hnew⟩ := h
  exact hqueued.forall_queue hqueue (hnew k)

end Office

/-! ## Requests in the inbox -/

/-- No AppendEntries request in the inbox names the node itself. -/
def NamesOthers (a : ℕ) (inbox : List LocalRaftMessage) : Prop :=
  ∀ message ∈ inbox, ∀ request, message.payload = .appendEntries request → request.leaderId ≠ a

/-- Of the messages that a worker handles, only an AppendEntries request becomes one of the node. -/
theorem QuorumWorker.signature_of_passedOn {message : QuorumMessage} {w : QuorumWorker}
    {m : LocalRaftMessage} (hm : m ∈ (w.handleInboundMessage message).2.requests)
    {request : LocalAppendEntries} (hrequest : m.payload = .appendEntries request) :
    message.signature = some request.leaderId := by
  cases message with
  | appendEntriesRequest received =>
    obtain rfl := List.mem_singleton.mp hm
    cases hrequest
    rfl
  | _ =>
    grind [handleInboundMessage, passOn, onAppendEntriesAck, onPutBatchResponse,
      onTruncateLogRequest]

namespace NamesOthers

variable {a : ℕ} {p : Process}

theorem append {inbox more : List LocalRaftMessage} (h : NamesOthers a inbox)
    (hmore : NamesOthers a more) : NamesOthers a (inbox ++ more) :=
  fun message hmessage => (List.mem_append.mp hmessage).elim (h message) (hmore message)

/-- A worker that gives no request. -/
theorem emit_of_silent (h : NamesOthers a p.inbox) {result : QuorumWorker × WorkerOutput}
    (hsilent : result.2.requests = []) (k : ℕ) : NamesOthers a (p.emit k result).1.inbox := by
  show NamesOthers a (p.inbox ++ result.2.requests)
  rw [hsilent, List.append_nil]
  exact h

/-- The events of a process put no AppendEntries request into its inbox. -/
theorem step [Capnp] (h : NamesOthers a p.inbox) (utf8Lossy : List UInt8 → List UInt8)
    (event : ProcessEvent) : NamesOthers a (p.step utf8Lossy event).1.inbox := by
  cases event with
  | accept clock =>
    show NamesOthers a (p.accept clock).inbox
    unfold Process.accept
    split
    · next message rest hinbox =>
      exact fun m hm => h m (hinbox ▸ .tail _ hm)
    · exact h
  | workerTask k now =>
    show NamesOthers a (p.workerTask utf8Lossy k now).1.inbox
    unfold Process.workerTask
    split
    · next worker task rest _ _ =>
      exact NamesOthers.emit_of_silent (p := { p with node := _ }) h
        (worker.processTask_sends utf8Lossy now task).1.requests k
    · exact h
  | heartbeat k now =>
    show NamesOthers a (p.heartbeat k now).1.inbox
    unfold Process.heartbeat
    split
    · next worker _ => exact h.emit_of_silent (worker.sendHeartbeatIfNeeded_same now).requests k
    · exact h
  | answer k j =>
    show NamesOthers a (p.answer k j).1.inbox
    unfold Process.answer
    split
    · split
      · split
        · exact NamesOthers.emit_of_silent (p := { p with node := _ }) h
            (QuorumWorker.requests_handlePendingTaskResponse ..) k
        · exact h
      · exact h
    · exact h
  | write batch callback =>
    refine h.append fun message hmessage request hrequest => ?_
    obtain rfl := List.mem_singleton.mp hmessage
    cases hrequest
  | askLeader callback =>
    refine h.append fun message hmessage request hrequest => ?_
    obtain rfl := List.mem_singleton.mp hmessage
    cases hrequest
  | restart clock written accepts => exact fun message hmessage => nomatch hmessage
  | _ => exact h

/-- A message brings the request that it carries. -/
theorem receive (h : NamesOthers a p.inbox) (src : ℕ) {message : QuorumMessage}
    (hmessage : ∀ x ∈ message.signature, x ≠ a) :
    NamesOthers a (p.receive src message).1.inbox := by
  unfold Process.receive
  split
  · split
    · refine h.append fun m hm request hrequest => ?_
      exact hmessage _ (QuorumWorker.signature_of_passedOn hm hrequest)
    · exact h
  · exact h

end NamesOthers

/-! ## A step of a node -/

/-- An event of the node. -/
theorem Node.knowsStep [Capnp] {n : Node} {e : NodeEvent} (hrestart : e.isRestart = false) :
    KnowsStep e.followed n.machine (n.step e).machine := by
  have hserves : ∀ {sm' : StateMachine}, Serves n.machine sm' → KnowsStep none n.machine sm' := by
    rintro sm' ⟨work, isOpen, responses, rfl⟩
    exact .of_eq rfl rfl rfl
  cases e with
  | accept clock message => exact knowsStep_accept clock message n.machine
  | timeStep clock part => exact knowsStep_runPart clock part n.machine
  | respond response => exact .of_eq rfl rfl rfl
  | processTask => exact hserves n.serves_processTask
  | flush => exact hserves n.serves_flush
  | restart clock written accepts => cases hrestart

/-- What node `a` knows of the leader is true. -/
structure Knows (Elected : ℕ → ℕ → Prop) (a : ℕ) (n : Node) : Prop where
  office : n.machine.delegate.nodeType = .leader → Elected a n.shared.currentTerm
  known : n.shared.leaderId ≠ 0 → n.shared.currentTerm ≠ 0 →
    Elected n.shared.leaderId n.shared.currentTerm
  own : a ≠ 0 → (n.machine.delegate.nodeType = .leader ↔ n.shared.leaderId = a)

namespace Knows

variable {Elected Elected' : ℕ → ℕ → Prop} {a : ℕ} {n n' : Node}

/-- More leaders are elected. -/
theorem mono (h : Knows Elected a n) (hmono : ∀ b term, Elected b term → Elected' b term) :
    Knows Elected' a n :=
  ⟨fun hlead => hmono _ _ (h.office hlead), fun hid hterm => hmono _ _ (h.known hid hterm), h.own⟩

/-- The node talks to its workers. -/
theorem exchange (h : Knows Elected a n) (hexchange : Exchanges n n') : Knows Elected a n' := by
  obtain ⟨responses, answers, tasks, rfl, -⟩ := hexchange
  exact ⟨h.office, h.known, h.own⟩

/-- A process that starts knows no leader. -/
theorem start [Capnp] (clock : Clock) (bytes : List UInt8) (rows : List VoteRow)
    (identity quorumSize workers : ℕ) (accepts : ℕ → Bool) :
    Knows Elected a (Node.start clock bytes rows identity quorumSize workers accepts) where
  office hlead := nomatch hlead
  known hid _ := absurd rfl hid
  own ha := ⟨fun hlead => (nomatch hlead), fun hid => absurd hid.symm ha⟩

/-- **An event of the node.**  The request that it follows is of an office of another node, and the
role that it enters is of an office of its own. -/
theorem step [Capnp] (h : Knows Elected a n) {e : NodeEvent} (hidentity : n.shared.identity = a)
    (hfollowed : ∀ request ∈ e.followed, request.leaderId ≠ a ∧
      (request.term = 0 ∨ Elected request.leaderId request.term))
    (henters : n.machine.delegate.nodeType ≠ .leader →
      (n.step e).machine.delegate.nodeType = .leader → Elected a (n.step e).shared.currentTerm) :
    Knows Elected a (n.step e) := by
  cases hrestart : e.isRestart with
  | true =>
    cases e with
    | restart clock written accepts => exact .start ..
    | _ => cases hrestart
  | false =>
    obtain ⟨hoffice, hknown, hown⟩ := h
    rcases Node.knowsStep (n := n) hrestart with ⟨hid, hterm, hrole⟩ |
      ⟨request, haccepted, hid, hterm, hrole⟩ | ⟨hrole, hrole', hid⟩
    · constructor <;> grind
    · -- the leader is the sender of the request, which is another node
      obtain ⟨hother, hsender⟩ := hfollowed request haccepted
      constructor <;> grind
    · have hself := henters hrole hrole'
      constructor <;> grind

end Knows

/-! ## The cluster -/

section Cluster

variable [ParsesSocketAddr] {C : Cluster}

/-- The node has entered the leader role with the term. -/
def Trace.Elected (t : Trace) (a term : ℕ) : Prop :=
  (a, term) ∈ t.history.leaders

/-- The invariant of the cluster. -/
structure KnownInv (C : Cluster) (t : Trace) : Prop where
  connected : Connected C t.world
  flow : World.Carries C (officeFlow t.Elected) t.world
  names : ∀ a ∈ C.members, NamesOthers a (t.world.process a).inbox
  nodes : ∀ a ∈ C.members, Knows t.Elected a (t.world.process a).node

namespace KnownInv

variable {t : Trace}

theorem start [Capnp] (clock : ℕ → Clock) (accepts : ℕ → ℕ → Bool) :
    KnownInv C (Trace.start C clock accepts) :=
  ⟨.start clock accepts, .start clock accepts, fun _ _ _ hmessage => (nomatch hmessage),
    fun _ _ => .start ..⟩

/-- A step of the cluster. -/
theorem names_step [Capnp] (h : KnownInv C t) (label : Label) {a : ℕ} (ha : a ∈ C.members) :
    NamesOthers a ((t.step C label).world.process a).inbox := by
  show NamesOthers a ((t.world.step C label).process a).inbox
  rcases World.process_step C t.world label a with ⟨event, -, -, hstep⟩ |
    ⟨i, packet, -, hpacket, hdst, hstep⟩ | hsame
  · rw [hstep]
    exact (h.names a ha).step C.utf8Lossy event
  · rw [hstep]
    have haddressed := h.connected.addressed packet (List.mem_of_getElem? hpacket)
    refine (h.names a ha).receive packet.src fun x hx => ?_
    rw [haddressed.signature x hx, ← hdst]
    exact haddressed.ne
  · rw [hsame]
    exact h.names a ha

/-- The request that an event follows is of an office of another node. -/
theorem followed_of_nodeStep (h : KnownInv C t) {label : Label} {a : ℕ} (ha : a ∈ C.members)
    {e : NodeEvent} (he : t.world.NodeStep label a e) :
    ∀ request ∈ e.followed, request.leaderId ≠ a ∧
      (request.term = 0 ∨ t.Elected request.leaderId request.term) := by
  intro request hrequest
  cases e with
  | accept clock message =>
    obtain ⟨payload, callback⟩ := message
    cases payload with
    | appendEntries followed =>
      obtain rfl := Option.some.inj hrequest
      refine ⟨?_, h.flow.request_of_nodeStep ha he clock _ rfl⟩
      obtain ⟨event, rfl, hevent⟩ := he
      cases event with
      | accept clock' =>
        obtain ⟨m, hm, heq⟩ := Option.map_eq_some_iff.mp hevent
        obtain ⟨-, rfl⟩ := NodeEvent.accept.inj heq
        exact h.names a ha _ (List.mem_of_mem_head? hm) followed rfl
      | _ => cases hevent
    | _ => cases hrequest
  | _ => cases hrequest

/-- **A step of the cluster.** -/
theorem step [Capnp] (h : KnownInv C t) (label : Label) : KnownInv C (t.step C label) := by
  have hmono : ∀ b term, t.Elected b term → (t.step C label).Elected b term := by
    intro b term hb
    unfold Trace.Elected
    rcases t.step_cases (C := C) label with ⟨_, _, _, _, _, _, hleaders⟩ | ⟨_, _, hleaders⟩
    · rw [hleaders]
      exact List.mem_append_left _ hb
    · rw [hleaders]
      exact hb
  have hflow : World.Carries C (officeFlow (t.step C label).Elected) t.world :=
    h.flow.mono
      (fun worker tasks hchannel => ⟨hchannel.1.imp_right (hmono _ _), fun task htask => by
        have := hchannel.2 task htask
        cases task with
        | startHeartbeats id term prevTerm prevLogIndex commitIndex => exact hmono _ _ this
        | _ => trivial⟩)
      (fun m hm => by
        cases m with
        | appendEntriesRequest request => exact Or.imp_right (hmono _ _) hm
        | _ => trivial)
  refine ⟨h.connected.step label, hflow.step h.connected label ?_,
    fun a ha => h.names_step label ha, ?_⟩
  · intro a ha e he hrestart k worker hworker hchannel
    have hself := (h.connected.wired a ha).selfId worker (List.mem_of_getElem? hworker)
    refine ⟨hchannel.1, HandsOffices.queue (Node.handsOffices_step hrestart fun hlead => ?_)
      hchannel.2⟩
    rw [hself]
    exact hmono _ _ ((h.nodes a ha).office hlead)
  · intro a ha
    rcases t.step_cases (C := C) label with ⟨b, hb, e, he, hnode, hother, hleaders⟩ |
      ⟨-, hnodes, -⟩
    · by_cases hab : a = b
      · subst hab
        rw [hnode]
        refine ((h.nodes a ha).mono hmono).step (h.connected.wired a ha).identity
          (fun request hrequest => (h.followed_of_nodeStep ha he request hrequest).imp_right
            (Or.imp_right (hmono _ _))) fun hrole hrole' => ?_
        unfold Trace.Elected
        rw [hleaders, entersLeader, hnode, if_pos ⟨hrole, hrole'⟩]
        exact List.mem_append_right _ (.head _)
      · rw [hother a hab]
        exact (h.nodes a ha).mono hmono
    · exact ((h.nodes a ha).mono hmono).exchange (hnodes a)

end KnownInv

end Cluster

/-- **The leader that a node knows**, in every run of the cluster: it is the node itself exactly if
the node leads, and it has been elected in the term that the node is in. -/
theorem leader_known [Capnp] [ParsesSocketAddr] (C : Cluster) (clock : ℕ → Clock)
    (accepts : ℕ → ℕ → Bool) (labels : List Label) {a : ℕ} (ha : a ∈ C.members)
    (hpositive : a ≠ 0) :
    let t := Runs.run (Trace.step C) (Trace.start C clock accepts) labels
    let n := (t.world.process a).node
    (n.machine.delegate.nodeType = .leader ↔ n.shared.leaderId = a) ∧
      (n.shared.leaderId ≠ 0 → n.shared.currentTerm ≠ 0 →
        (n.shared.leaderId, n.shared.currentTerm) ∈ t.history.leaders) := by
  have hinv := (Runs.allSteps_true (Trace.start C clock accepts) labels).invariant
    (KnownInv C) (fun t label h _ => h.step label) (.start clock accepts)
  exact ⟨(hinv.nodes a ha).own hpositive, (hinv.nodes a ha).known⟩

/-- Node 3 of three takes node 1 for the leader after its no-op entry has arrived. -/
theorem leader_known_noop : letI := unaryCapnp 0
    letI := sampleAddresses
    let t := Runs.run (Trace.step clusterOfThree)
      (Trace.start clusterOfThree (fun _ => ⟨0, 0⟩) fun _ _ => true) noopOfNodeOne
    let n := (t.world.process 3).node
    n.shared.leaderId = 1 ∧ (n.shared.leaderId, n.shared.currentTerm) ∈ t.history.leaders :=
  ⟨by decide, (@leader_known (unaryCapnp 0) sampleAddresses clusterOfThree (fun _ => ⟨0, 0⟩)
    (fun _ _ => true) noopOfNodeOne 3 (by decide) (by decide)).2 (by decide) (by decide)⟩

/-- **One leader for all**, where elections are safe: nodes that are in the same term and know a
leader know the same one. -/
theorem leader_agreed [Capnp] [ParsesSocketAddr] (C : Cluster)
    (hmajority : C.members.card = 1 ∨
      ∀ a ∈ C.members, C.members.card < 2 * (C.config a).quorumSize)
    (clock : ℕ → Clock) (accepts : ℕ → ℕ → Bool) (labels : List Label)
    (hrun : Runs.AllSteps (Trace.step C) ElectionLaw (Trace.start C clock accepts) labels)
    {a b : ℕ} (ha : a ∈ C.members) (hb : b ∈ C.members) :
    let w := (Runs.run (Trace.step C) (Trace.start C clock accepts) labels).world
    (w.process a).node.shared.currentTerm = (w.process b).node.shared.currentTerm →
      (w.process a).node.shared.currentTerm ≠ 0 → (w.process a).node.shared.leaderId ≠ 0 →
        (w.process b).node.shared.leaderId ≠ 0 →
          (w.process a).node.shared.leaderId = (w.process b).node.shared.leaderId := by
  intro w hterm hpositive hknowsa hknowsb
  have helection := hrun.invariant (ElectionInv C) (fun t label h hlaw => h.step hlaw)
    (ElectionInv.start clock accepts)
  have hknown := (Runs.allSteps_true (Trace.start C clock accepts) labels).invariant
    (KnownInv C) (fun t label h _ => h.step label) (.start clock accepts)
  have hleadera := (hknown.nodes a ha).known hknowsa hpositive
  have hleaderb := (hknown.nodes b hb).known hknowsb (hterm ▸ hpositive)
  rw [← hterm] at hleaderb
  exact helection.leader_unique hmajority hleadera hleaderb

/-- Nodes 1 and 3 then agree on node 1. -/
theorem leader_agreed_noop : letI := unaryCapnp 0
    letI := sampleAddresses
    let w := (Runs.run (Trace.step clusterOfThree)
      (Trace.start clusterOfThree (fun _ => ⟨0, 0⟩) fun _ _ => true) noopOfNodeOne).world
    (w.process 1).node.shared.currentTerm = 1 ∧
      (w.process 1).node.shared.leaderId = (w.process 3).node.shared.leaderId :=
  ⟨by decide, @leader_agreed (unaryCapnp 0) sampleAddresses clusterOfThree (by decide)
    (fun _ => ⟨0, 0⟩) (fun _ _ => true) noopOfNodeOne (by decide) 1 3 (by decide) (by decide)
    (by decide) (by decide) (by decide) (by decide)⟩

/-! ## Where leaders and entries come from -/

/-- **Votes on disk stand behind every leader**, whatever the quorum sizes are. -/
theorem leader_backed [Capnp] [ParsesSocketAddr] (C : Cluster) (clock : ℕ → Clock)
    (accepts : ℕ → ℕ → Bool) (labels : List Label)
    (hrun : Runs.AllSteps (Trace.step C) ElectionLaw (Trace.start C clock accepts) labels)
    {a term : ℕ} :
    let t := Runs.run (Trace.step C) (Trace.start C clock accepts) labels
    (a, term) ∈ t.history.leaders → a ∈ C.members ∧ 1 ≤ term ∧
      (C.config a).quorumSize ≤ (t.backers C.members (term, a)).card ∧
      ∀ b ∈ t.backers C.members (term, a), ∀ c, (term, c) ∈ t.rows b → c = a := by
  intro t ha
  have hinv := hrun.invariant (ElectionInv C) (fun t label h hlaw => h.step hlaw)
    (ElectionInv.start clock accepts)
  obtain ⟨hmember, hterm, -, -⟩ := hinv.leaders _ ha
  refine ⟨hmember, hterm, hinv.quorumSize_le_backers ha, fun b hb c hc => ?_⟩
  obtain ⟨hmem, hrow⟩ := Finset.mem_filter.mp hb
  have heq := eq_of_countP_le_one (hinv.countP_rows_le_one hmem term) hc hrow (by simp) (by simp)
  exact congrArg Prod.snd heq

/-- Nodes 1 and 3 back the leader of term 1. -/
theorem leader_backed_node_one : letI := sampleCapnp
    letI := sampleAddresses
    let t := Runs.run (Trace.step clusterOfThree)
      (Trace.start clusterOfThree (fun _ => ⟨0, 0⟩) fun _ _ => true) electNodeOne
    (1, 1) ∈ t.history.leaders ∧ 2 ≤ (t.backers clusterOfThree.members (1, 1)).card :=
  ⟨by decide, (@leader_backed sampleCapnp sampleAddresses clusterOfThree (fun _ => ⟨0, 0⟩)
    (fun _ _ => true) electNodeOne (by decide) 1 1 (by decide)).2.2.1⟩

/-- A member was elected in the term of the entry, and its log reaches beyond the entry as long as
it leads in this term. -/
def Trace.FromLeader [ParsesSocketAddr] (C : Cluster) (t : Trace) (entry : OwnedLogEntry) : Prop :=
  ∃ a ∈ C.members, (a, entry.term) ∈ t.history.leaders ∧
    ((t.world.process a).node.machine.Leads entry.term →
      entry.index < (t.world.process a).node.shared.replicationLog.length)

/-- **Entries come from leaders.** -/
theorem entries_from_leaders [Capnp] [LawfulCapnp] [ParsesSocketAddr] (C : Cluster)
    (hmajority : C.members.card = 1 ∨
      ∀ a ∈ C.members, C.members.card < 2 * (C.config a).quorumSize)
    (clock : ℕ → Clock) (accepts : ℕ → ℕ → Bool) (labels : List Label)
    (hrun : Runs.AllSteps (Trace.step C)
      (fun t label => ElectionLaw t label ∧ t.world.KeepsRepresentation label)
      (Trace.start C clock accepts) labels) :
    let t := Runs.run (Trace.step C) (Trace.start C clock accepts) labels
    (∀ b ∈ C.members, Within (t.FromLeader C) (t.world.process b).node.shared.replicationLog) ∧
      ∀ packet ∈ t.world.net, MessageOf (t.FromLeader C) packet.message := by
  intro t
  have hinv := hrun.invariant (MatchInv C) (fun t label h hok => h.step hmajority hok.1 hok.2)
    ⟨.start clock accepts, .start clock accepts, _, .start clock accepts⟩
  obtain ⟨E, hwritten⟩ := hinv.written
  refine ⟨fun b hb => (hwritten.nodes b hb).log.mono hwritten.origin, fun packet hpacket => ?_⟩
  obtain ⟨src, dst, message⟩ := packet
  have hmessage : MessageOf E message := hwritten.flow.net _ hpacket
  cases message with
  | appendEntriesRequest request =>
    intro entry hentry
    obtain ⟨owned, hdata, hindex, hterm, hprev, hprevTerm, hid, hE⟩ := hmessage entry hentry
    exact ⟨owned, hdata, hindex, hterm, hprev, hprevTerm, hid, hwritten.origin owned hE⟩
  | _ => exact hmessage

/-- The no-op entry of node 1 is in the log of node 3, and comes from a leader. -/
theorem entries_from_leaders_noop : letI := unaryCapnp 0
    letI := sampleAddresses
    let t := Runs.run (Trace.step clusterOfThree)
      (Trace.start clusterOfThree (fun _ => ⟨0, 0⟩) fun _ _ => true) noopOfNodeOne
    (t.world.process 3).node.shared.replicationLog.length = 1 ∧
      Within (t.FromLeader clusterOfThree) (t.world.process 3).node.shared.replicationLog :=
  ⟨by decide, (@entries_from_leaders (unaryCapnp 0) (lawful_unaryCapnp 0) sampleAddresses
    clusterOfThree (by decide) (fun _ => ⟨0, 0⟩) (fun _ _ => true) noopOfNodeOne (by decide)).1 3
    (by decide)⟩

end Kraft
