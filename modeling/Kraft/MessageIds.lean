/-
# Message ids of a process

`next_message_id` numbers the messages that a node waits for answers to, the entries that it appends
as leader, and the heartbeat and truncation tasks of its quorum workers.

What an operation registers does not depend on what is outstanding (`RegistersAlike`), so the
messages that an event registers are those it puts into an empty map (`Node.registers`).  `IdLog`
is a node with all ids under which it has registered messages or made entries in its process.

* `message_ids_fresh` : an id under which a message is registered is above all of these, and the
  counter is above it; so it is not in use, and all other records stay as they are.
* An answer only removes its message or counts it further (`Node.idStep`).
-/
import Kraft.Ballots
import Kraft.Requests

namespace Kraft

open SharedState StateMachine

variable {s s' : SharedState} {msg' : OutstandingMessage} {n : Node} {e : NodeEvent}

/-! ## What an operation registers -/

/-- The state with other outstanding messages. -/
def SharedState.withMessages (s : SharedState) (messages : HashMap OutstandingMessage) :
    SharedState :=
  { s with outstandingMessages := messages }

/-- A new message is registered under an id that is taken, or none. -/
def Registers (new : Option OutstandingMessage) (s s' : SharedState) : Prop :=
  s.nextMessageId ≤ s'.nextMessageId ∧
    match new with
    | none => s'.outstandingMessages = s.outstandingMessages
    | some msg => s.nextMessageId ≤ msg.id ∧ msg.id < s'.nextMessageId ∧
        s'.outstandingMessages = s.outstandingMessages.insert msg.id msg

/-- A message is registered if a condition holds, and none otherwise. -/
def RegistersIf (p : Prop) (msg : OutstandingMessage) (s s' : SharedState) : Prop :=
  (p → Registers (some msg) s s') ∧ (¬p → Registers none s s')

/-- The operation registers the same, whatever is outstanding. -/
def RegistersAlike (s : SharedState) (op : SharedState → SharedState) : Prop :=
  ∃ new, ∀ messages, Registers new (s.withMessages messages) (op (s.withMessages messages))

namespace RegistersAlike

variable {s : SharedState} {op op' : SharedState → SharedState}

/-- An operation that registers nothing. -/
theorem none (hnext : ∀ messages, s.nextMessageId ≤ (op (s.withMessages messages)).nextMessageId)
    (hmessages : ∀ messages, (op (s.withMessages messages)).outstandingMessages = messages) :
    RegistersAlike s op :=
  ⟨.none, fun messages => ⟨hnext messages, hmessages messages⟩⟩

/-- An operation that registers one message. -/
theorem some (msg : OutstandingMessage) (hle : s.nextMessageId ≤ msg.id)
    (hlt : ∀ messages, msg.id < (op (s.withMessages messages)).nextMessageId)
    (hmessages : ∀ messages, (op (s.withMessages messages)).outstandingMessages =
      messages.insert msg.id msg) : RegistersAlike s op :=
  ⟨.some msg, fun messages => ⟨hle.trans (hlt messages).le, hle, hlt messages, hmessages messages⟩⟩

/-- An operation that takes no part in this. -/
theorem of_eq (hnext : ∀ s', (op s').nextMessageId = s'.nextMessageId)
    (hmessages : ∀ s', (op s').outstandingMessages = s'.outstandingMessages) : RegistersAlike s op :=
  .none (fun messages => (hnext (s.withMessages messages)).ge)
    fun messages => hmessages (s.withMessages messages)

/-- A message is registered under a condition that does not depend on what is outstanding. -/
theorem of_registersIf (p : Prop) (msg : OutstandingMessage) (h : ∀ messages,
    RegistersIf p msg (s.withMessages messages) (op (s.withMessages messages))) :
    RegistersAlike s op := by
  by_cases hp : p
  · exact ⟨.some msg, fun messages => (h messages).1 hp⟩
  · exact ⟨.none, fun messages => (h messages).2 hp⟩

end RegistersAlike

/-! ## Requests -/

/-- A follower takes the entry of a request into its log. -/
def TakesEntry (role : RaftNodeType) (request : LocalAppendEntries) (s : SharedState) : Prop :=
  role = .follower ∧ Heard role request s ∧ ValidAppendEntries request s ∧
    (s.currentTerm < request.term ∨ request.requestId ≠ 0) ∧ s.persistenceOpen = true ∧
    ∃ entry ∈ request.entry, OwnedLogEntry.fromBytes entry.data ≠ none

/-- A stored entry waits for the disk, and no other request leaves a message. -/
theorem Receives.registersIf {role : RaftNodeType} {request : LocalAppendEntries}
    {callback : Callback} (h : Receives role request callback s s') :
    RegistersIf (TakesEntry role request s) ⟨s.nextMessageId, 1, .appendLog callback⟩ s s' := by
  have hnone : ∀ {s₁ : SharedState} {response : LocalAppendEntriesCallbackResponse},
      Heeds role request s s₁ → Registers none s (s₁.answer callback response) :=
    fun hheeds => ⟨hheeds.unchanged.2.2, hheeds.unchanged.1.2.2.2.2⟩
  cases h with
  | unrecognised hheard => exact ⟨fun htakes => absurd htakes.2.1 hheard, fun _ => ⟨le_rfl, rfl⟩⟩
  | mismatched hheeds hvalid =>
    exact ⟨fun htakes => absurd htakes.2.2.1 hvalid, fun _ => hnone hheeds⟩
  | acknowledged hheeds hvalid hquiet =>
    refine ⟨fun ⟨hrole, _, _, hid, _, entry, hentry, _⟩ => ?_, fun _ => hnone hheeds⟩
    rcases hquiet hrole with ⟨-, hempty⟩ | ⟨hzero, hterm, -⟩
    · rw [hempty] at hentry
      cases hentry
    · omega
  | adopted hrole hterm hleader hzero =>
    refine ⟨fun ⟨_, _, _, hid, _⟩ => by omega, fun _ => ⟨?_, ?_⟩⟩ <;> simp
  | unstored hrole hheeds hvalid hid hdata =>
    refine ⟨fun ⟨_, _, _, _, hopen, entry, hentry, hbytes⟩ => ?_, fun _ => ⟨?_, ?_⟩⟩
    · exact (hdata entry hentry).elim (absurd · hbytes) (by simp [hopen])
    · simp [Nat.le_succ_of_le hheeds.unchanged.2.2]
    · simp [hheeds.unchanged.1.2.2.2.2]
  | stored hrole hheeds hvalid hid hentry hdata hopen =>
    refine ⟨fun _ => ⟨?_, le_rfl, ?_, ?_⟩, fun hnot => absurd ⟨hrole, hheeds.heard, hvalid, hid,
      hopen, _, hentry, by simp [hdata]⟩ hnot⟩
    · simp [Nat.le_succ_of_le hheeds.unchanged.2.2]
    · simp [Nat.lt_succ_of_le hheeds.unchanged.2.2]
    · exact (Follower.store_fields ..).2.2.2.2.1.trans (by simp [hheeds.unchanged.1.2.2.2.2])

/-- A vote that is granted waits for the disk. -/
theorem Asked.registersIf {role : RaftNodeType} {request : LocalRequestVoteRequest}
    {callback : Callback} (h : Asked role request callback s s') :
    RegistersIf (shouldAcceptVote request.term request.lastLogTerm request.lastLogIndex s = true ∧
      (role ≠ .follower → s.persistenceOpen = true)) ⟨s.nextMessageId, 1, .requestVote callback⟩
      s s' := by
  have hsome : ∀ {s' : SharedState}, s'.nextMessageId = s.nextMessageId + 1 →
      s'.outstandingMessages = s.outstandingMessages.insert s.nextMessageId
        ⟨s.nextMessageId, 1, .requestVote callback⟩ →
      Registers (some ⟨s.nextMessageId, 1, .requestVote callback⟩) s s' :=
    fun hnext hmessages => ⟨by omega, le_rfl, hnext ▸ Nat.lt_succ_self _, hmessages⟩
  cases h with
  | registered hrole haccept =>
    exact ⟨fun _ => hsome rfl rfl, fun hnot => absurd ⟨haccept, absurd hrole⟩ hnot⟩
  | cast _ haccept hopen =>
    exact ⟨fun _ => hsome rfl rfl, fun hnot => absurd ⟨haccept, fun _ => hopen⟩ hnot⟩
  | refused hrefuse =>
    refine ⟨fun ⟨haccept, hopen⟩ => ?_, fun _ => ⟨le_rfl, rfl⟩⟩
    rcases hrefuse with hnot | ⟨hrole, hclosed⟩
    · simp [haccept] at hnot
    · simp [hopen hrole] at hclosed

/-! ## Entries and elections -/

section Entries

variable (clock : Clock) (s : SharedState)

/-- An entry of a leader is registered. -/
theorem Leader.registers_appendOwn {s₁ : SharedState} {type : OutstandingMessageType}
    {idx id timestamp : ℕ} {commands : List PutRequest}
    (hid : s.nextMessageId ≤ id) (hlt : id < s₁.nextMessageId)
    (hmessages : s₁.outstandingMessages = s.outstandingMessages) :
    Registers (some ⟨id, 1 + s₁.quorumWorkerTasks.length, type⟩) s
      (Leader.appendOwn type idx id timestamp commands s₁) := by
  refine ⟨?_, hid, ?_, ?_⟩
  · simp [hid.trans hlt.le]
  · simp [hlt]
  · exact (Leader.appendOwn_fields ..).2.2.2.2.2.2.2.trans (by rw [hmessages])

/-- A batch is registered if it is not empty and can be stored. -/
theorem Leader.registersIf_writeBatch (batch : OwnedWriteBatch) (callback : Callback) :
    RegistersIf (batch.requests ≠ [] ∧ s.persistenceOpen = true) ⟨s.nextMessageId,
      1 + s.quorumWorkerTasks.length, .writeBatch false 0 callback s.nextLogIndex⟩ s
      (Leader.writeBatch clock batch callback s) := by
  rcases Leader.writeBatch_cases clock batch callback s with
    ⟨hempty, h⟩ | ⟨hbatch, hopen, h⟩ | ⟨-, hclosed, h⟩
  · rw [h]
    exact ⟨fun hwrites => absurd hempty hwrites.1, fun _ => ⟨Nat.le_succ _, rfl⟩⟩
  · rw [h]
    exact ⟨fun _ => Leader.registers_appendOwn s le_rfl (Nat.lt_succ_self _) rfl,
      fun hnot => absurd ⟨hbatch, hopen⟩ hnot⟩
  · rw [h]
    exact ⟨fun hwrites => by simp [hwrites.2] at hclosed, fun _ => ⟨Nat.le_succ _, rfl⟩⟩

/-- The id of the heartbeats is taken before that of the no-op entry. -/
theorem Leader.registersAlike_initializeLeadership :
    RegistersAlike s (Leader.initializeLeadership clock) := by
  refine ⟨some ⟨s.nextMessageId + 1, 1 + s.quorumWorkerTasks.length,
    .noOp false 0 s.replicationLog.length⟩, fun messages => ?_⟩
  rw [Leader.initializeLeadership_eq]
  have hnoop := @Leader.registers_appendOwn (s.withMessages messages)
    (Leader.prepareNoop (s.withMessages messages)) (.noOp false 0 s.replicationLog.length)
    s.replicationLog.length (s.nextMessageId + 1) clock.now [] (Nat.le_succ _)
    (by simp [withMessages]) (by simp)
  simpa [withMessages] using hnoop

end Entries

/-! ## The parts of a step -/

section Parts

variable (clock : Clock) (sm : StateMachine)

/-- The state machine on another shared state. -/
def StateMachine.withShared (s : SharedState) : StateMachine := { sm with shared := s }

/-- A request. -/
theorem registersAlike_accept (message : LocalRaftMessage) :
    RegistersAlike sm.shared fun s => ((sm.withShared s).accept clock message).shared := by
  obtain ⟨payload, callback⟩ := message
  cases payload with
  | requestVote request =>
    exact .of_registersIf (shouldAcceptVote request.term request.lastLogTerm request.lastLogIndex
        sm.shared = true ∧ (sm.delegate.nodeType ≠ .follower → sm.shared.persistenceOpen = true))
      ⟨sm.shared.nextMessageId, 1, .requestVote callback⟩ fun messages =>
      (asked_acceptRequestVote request callback
        (sm.withShared (sm.shared.withMessages messages))).registersIf
  | appendEntries request =>
    exact .of_registersIf (TakesEntry sm.delegate.nodeType request sm.shared)
      ⟨sm.shared.nextMessageId, 1, .appendLog callback⟩ fun messages =>
      (receives_acceptAppendEntries clock request callback
        (sm.withShared (sm.shared.withMessages messages))).registersIf
  | getRaftState => exact .of_eq (fun _ => rfl) fun _ => rfl
  | writeBatch batch =>
    obtain ⟨delegate, s, backfillRequests⟩ := sm
    cases delegate with
    | leader initialized =>
      exact .of_registersIf (batch.requests ≠ [] ∧ s.persistenceOpen = true) ⟨s.nextMessageId,
          1 + s.quorumWorkerTasks.length, .writeBatch false 0 callback s.nextLogIndex⟩
        fun messages => Leader.registersIf_writeBatch clock (s.withMessages messages) batch callback
    | _ => exact .of_eq (fun _ => rfl) fun _ => rfl

/-- A leader takes office. -/
theorem registersAlike_takeOffice :
    RegistersAlike sm.shared fun s => ((sm.withShared s).takeOffice clock).shared := by
  obtain ⟨delegate, s, backfillRequests⟩ := sm
  rcases delegate with timer | timeout | _ | _
  · exact .of_eq (fun _ => rfl) fun _ => rfl
  · exact .of_eq (fun _ => rfl) fun _ => rfl
  · exact Leader.registersAlike_initializeLeadership clock s
  · exact .of_eq (fun _ => rfl) fun _ => rfl

/-- The end of `time_step`. -/
theorem registersAlike_finish :
    RegistersAlike sm.shared fun s => ((sm.withShared s).finish clock).shared := by
  obtain ⟨delegate, s, backfillRequests⟩ := sm
  rcases delegate with timer | timeout | _ | _
  · exact .of_eq (fun _ => by simp [StateMachine.withShared, finish])
      fun _ => by simp [StateMachine.withShared, finish]
  · by_cases hexpired : Candidate.timeoutExpired timeout clock.now = true
    · refine .some ⟨s.nextMessageId, s.quorumWorkerTasks.length + 1, .candidateElection false 1⟩
        le_rfl (fun messages => ?_) fun messages => ?_
      · simp [StateMachine.withShared, finish, hexpired, withMessages]
      · simp [StateMachine.withShared, finish, hexpired]
        rfl
    · exact .of_eq (fun _ => by simp [StateMachine.withShared, finish, hexpired])
        fun _ => by simp [StateMachine.withShared, finish, hexpired]
  · exact .of_eq (fun _ => rfl) fun _ => rfl
  · refine .none (fun messages => ?_) fun messages => ?_
    · have hle : s.nextMessageId ≤
          (handleBackfillRequests backfillRequests (s.withMessages messages)).nextMessageId :=
        nextMessageId_le_handleBackfillRequests backfillRequests (s.withMessages messages)
      simpa [StateMachine.withShared, finish] using hle
    · simp [StateMachine.withShared, finish, withMessages]

end Parts

/-! ## Responses -/

/-- It is the same message, possibly counted further. -/
def OutstandingMessage.Continues (msg msg' : OutstandingMessage) : Prop :=
  match msg.messageType, msg'.messageType with
  | .writeBatch _ _ callback index, .writeBatch _ _ callback' index' =>
    callback' = callback ∧ index' = index
  | .noOp _ _ index, .noOp _ _ index' => index' = index
  | .candidateElection .., .candidateElection .. => True
  | type, type' => type' = type

theorem OutstandingMessage.Continues.refl (msg : OutstandingMessage) : msg.Continues msg := by
  unfold OutstandingMessage.Continues
  split <;> simp_all

/-- No message is new. -/
def Continues (s s' : SharedState) : Prop :=
  ∀ id msg', s'.outstandingMessages.lookup id = some msg' →
    ∃ msg, s.outstandingMessages.lookup id = some msg ∧ msg.Continues msg'

namespace Continues

variable {s s' : SharedState} {id : ℕ}

theorem of_eq (h : s'.outstandingMessages = s.outstandingMessages) : Continues s s' :=
  fun _ msg hmsg => ⟨msg, h ▸ hmsg, .refl msg⟩

/-- A message is removed. -/
theorem remove (id : ℕ) (h : s'.outstandingMessages = s.outstandingMessages.erase id) :
    Continues s s' :=
  fun _ msg hmsg => ⟨msg, (HashMap.lookup_of_erase (h ▸ hmsg)).2, .refl msg⟩

/-- A message is counted further. -/
theorem count {msg : OutstandingMessage} (hmsg : s.outstandingMessages.lookup id = some msg)
    (hcontinues : msg.Continues msg')
    (h : s'.outstandingMessages = (s.outstandingMessages.erase id).insert id msg') :
    Continues s s' := by
  intro id' other hother
  rw [h] at hother
  by_cases hid : id' = id
  · rw [hid, AList.lookup_insert] at hother
    obtain rfl := Option.some.inj hother
    exact ⟨msg, hid ▸ hmsg, hcontinues⟩
  · rw [AList.lookup_insert_ne hid, AList.lookup_erase_ne hid] at hother
    exact ⟨other, hother, .refl other⟩

end Continues

/-- A poll that is counted is the same message. -/
theorem OutstandingMessage.continues_poll (poll : Poll) {msg : OutstandingMessage}
    {stored stored' : Bool} {grants grants' : ℕ}
    (h : msg.messageType = poll.messageType stored grants)
    (h' : msg'.messageType = poll.messageType stored' grants') : msg.Continues msg' := by
  unfold OutstandingMessage.Continues
  rw [h, h']
  rcases poll with _ | ⟨_ | callback, index⟩ <;> simp [Poll.messageType]

/-- A reply registers no new message. -/
theorem Settles.continues {role : RaftNodeType} {reply : Reply} {id : ℕ}
    (h : Settles role reply id s s') : Continues s s' := by
  rcases h.messages with heq | heq | ⟨poll, r, r', ⟨-, number, hmsg⟩, -, -, heq⟩
  · exact .of_eq heq
  · exact .remove id heq
  · exact .count hmsg (OutstandingMessage.continues_poll poll rfl rfl) heq

/-- **An iteration of a loop of `time_step`.** -/
theorem continues_runPart (clock : Clock) {part : TimeStepPart}
    (hpart : part = .popPersistence ∨ part = .popQuorum) (sm : StateMachine) :
    sm.shared.nextMessageId ≤ (sm.runPart clock part).shared.nextMessageId ∧
      Continues sm.shared (sm.runPart clock part).shared := by
  have hturns := turns_runPart clock part sm
  generalize (sm.runPart clock part).shared = s' at hturns ⊢
  cases hturns with
  | idle | ignored => exact ⟨le_rfl, .of_eq rfl⟩
  | settled _ _ _ h => exact ⟨h.unchanged.2.2.1.ge, h.continues⟩
  | truncated => exact ⟨by simp, .of_eq (by simp)⟩
  | _ => simp at hpart

/-! ## One event of the node -/

section Node

variable [Capnp]

/-- The node with nothing outstanding. -/
def Node.emptied (n : Node) : Node := n.withShared (n.shared.withMessages ∅)

/-- The ids under which an event registers new messages. -/
def Node.registers (n : Node) (e : NodeEvent) : List ℕ :=
  (n.emptied.step e).shared.outstandingMessages.keys

/-- What an event does to the outstanding messages. -/
inductive Node.IdStep (n : Node) (e : NodeEvent) : Prop
  | registers (msg : OutstandingMessage) (ids : n.registers e = [msg.id])
      (le : n.shared.nextMessageId ≤ msg.id) (lt : msg.id < (n.step e).shared.nextMessageId)
      (messages : (n.step e).shared.outstandingMessages =
        n.shared.outstandingMessages.insert msg.id msg)
  | continues (ids : n.registers e = [])
      (le : n.shared.nextMessageId ≤ (n.step e).shared.nextMessageId)
      (messages : Continues n.shared (n.step e).shared)

omit [Capnp] in
/-- Where nothing is outstanding, no answer is counted. -/
theorem Continues.keys_eq_nil (h : Continues s s') (hempty : s.outstandingMessages = ∅) :
    s'.outstandingMessages.keys = [] := by
  refine List.eq_nil_iff_forall_not_mem.mpr fun id hid => ?_
  obtain ⟨msg, hmsg⟩ := Option.isSome_iff_exists.mp (AList.lookup_isSome.mpr hid)
  obtain ⟨old, hold, -⟩ := h id msg hmsg
  rw [hempty, AList.lookup_empty] at hold
  cases hold

/-- An event that runs an operation. -/
theorem Node.IdStep.of_registersAlike {op : SharedState → SharedState}
    (h : RegistersAlike n.shared op)
    (hstep : ∀ messages, ((n.withShared (n.shared.withMessages messages)).step e).shared =
      op (n.shared.withMessages messages)) : n.IdStep e := by
  obtain ⟨new, hnew⟩ := h
  -- the same operation on the empty map shows what is registered, and on the node's own what becomes
  -- of the records that are there
  have hids : (n.registers e) = (op (n.shared.withMessages ∅)).outstandingMessages.keys :=
    congrArg (fun s : SharedState => s.outstandingMessages.keys) (hstep ∅)
  have hself : (n.step e).shared = op (n.shared.withMessages n.shared.outstandingMessages) :=
    hstep n.shared.outstandingMessages
  have hmine := hnew n.shared.outstandingMessages
  have hempty := hnew ∅
  rw [← hself] at hmine
  cases new with
  | none => exact .continues (by rw [hids, hempty.2]; rfl) hmine.1 (.of_eq hmine.2)
  | some msg =>
    exact .registers msg (by rw [hids, hempty.2.2.2]; rfl) hmine.2.1 hmine.2.2.1 hmine.2.2.2

/-- An event that only handles answers. -/
theorem Node.IdStep.of_continues
    (h : ∀ n' : Node, n'.shared.nextMessageId ≤ (n'.step e).shared.nextMessageId ∧
      Continues n'.shared (n'.step e).shared) : n.IdStep e :=
  .continues ((h n.emptied).2.keys_eq_nil rfl) (h n).1 (h n).2

omit [Capnp] in
/-- What the persistence worker does. -/
theorem continues_of_serves {sm sm' : StateMachine} (h : Node.Serves sm sm') :
    sm.shared.nextMessageId ≤ sm'.shared.nextMessageId ∧ Continues sm.shared sm'.shared := by
  obtain ⟨work, isOpen, responses, rfl⟩ := h
  exact ⟨le_rfl, .of_eq rfl⟩

/-- **One event.** -/
theorem Node.idStep (n : Node) (e : NodeEvent) (hrestart : e.isRestart = false) : n.IdStep e := by
  cases e with
  | accept clock message =>
    exact .of_registersAlike (registersAlike_accept clock n.machine message) fun _ => rfl
  | timeStep clock part =>
    cases part with
    | takeOffice => exact .of_registersAlike (registersAlike_takeOffice clock n.machine) fun _ => rfl
    | popPersistence =>
      exact .of_continues fun n' => continues_runPart clock (Or.inl rfl) n'.machine
    | popQuorum => exact .of_continues fun n' => continues_runPart clock (Or.inr rfl) n'.machine
    | finish => exact .of_registersAlike (registersAlike_finish clock n.machine) fun _ => rfl
  | respond response => exact .of_continues fun n' => ⟨le_rfl, .of_eq rfl⟩
  | processTask => exact .of_continues fun n' => continues_of_serves n'.serves_processTask
  | flush => exact .of_continues fun n' => continues_of_serves n'.serves_flush
  | restart clock written accepts => cases hrestart

namespace Node.IdStep

variable {n : Node} {e : NodeEvent} {id : ℕ}

theorem nextMessageId_le (h : n.IdStep e) :
    n.shared.nextMessageId ≤ (n.step e).shared.nextMessageId := by
  cases h with
  | registers msg ids le lt messages => omega
  | continues ids le messages => exact le

/-- An event registers one message at most. -/
theorem increasing (h : n.IdStep e) : (n.registers e).Pairwise (· < ·) := by
  cases h with
  | registers msg ids le lt messages =>
    rw [ids]
    exact List.pairwise_singleton _ _
  | continues ids le messages =>
    rw [ids]
    exact .nil

/-- It does so under an id that it takes. -/
theorem of_mem (h : n.IdStep e) (hid : id ∈ n.registers e) :
    n.shared.nextMessageId ≤ id ∧ id < (n.step e).shared.nextMessageId ∧
      ∃ msg : OutstandingMessage, (n.step e).shared.outstandingMessages =
        n.shared.outstandingMessages.insert id msg := by
  cases h with
  | registers msg ids le lt messages =>
    rw [ids] at hid
    obtain rfl := List.mem_singleton.mp hid
    exact ⟨le, lt, msg, messages⟩
  | continues ids le messages =>
    rw [ids] at hid
    cases hid

/-- All other messages are old. -/
theorem lookup (h : n.IdStep e)
    (hmsg : (n.step e).shared.outstandingMessages.lookup id = some msg') :
    id ∈ n.registers e ∨ ∃ msg, n.shared.outstandingMessages.lookup id = some msg ∧
      msg.Continues msg' := by
  cases h with
  | registers msg ids le lt messages =>
    by_cases hid : id = msg.id
    · exact Or.inl (by rw [ids, hid]; exact List.mem_singleton_self _)
    · rw [messages, AList.lookup_insert_ne hid] at hmsg
      exact Or.inr ⟨msg', hmsg, .refl msg'⟩
  | continues ids le messages => exact Or.inr (messages id msg' hmsg)

end Node.IdStep

/-! ## Ids of entries -/

/-- At most one entry is appended, of the current term and with an id that is taken. -/
def Stamps (s s' : SharedState) : Prop :=
  s'.replicationLog = s.replicationLog ∨ ∃ entry : OwnedLogEntry, entry.term = s.currentTerm ∧
    s.nextMessageId ≤ entry.messageId ∧ entry.messageId < s'.nextMessageId ∧
      s'.replicationLog = s.replicationLog ++ [entry]

omit [Capnp] in
/-- An entry of the leader. -/
theorem Leader.stamps_appendOwn {s₁ : SharedState} {id : ℕ} (type : OutstandingMessageType)
    (idx timestamp : ℕ) (commands : List PutRequest) (hterm : s₁.currentTerm = s.currentTerm)
    (hid : s.nextMessageId ≤ id) (hlt : id < s₁.nextMessageId)
    (hlog : s₁.replicationLog = s.replicationLog) :
    Stamps s (Leader.appendOwn type idx id timestamp commands s₁) :=
  Or.inr ⟨Leader.buildLogEntry s₁ idx id timestamp commands, hterm, hid,
    hlt.trans_eq (by simp), by simp [hlog]⟩

omit [Capnp] in
/-- A batch of writes. -/
theorem Leader.stamps_writeBatch (clock : Clock) (batch : OwnedWriteBatch) (callback : Callback)
    (s : SharedState) : Stamps s (Leader.writeBatch clock batch callback s) := by
  rcases Leader.writeBatch_cases clock batch callback s with ⟨-, h⟩ | ⟨-, -, h⟩ | ⟨-, -, h⟩
  · rw [h]
    exact Or.inl rfl
  · rw [h]
    exact stamps_appendOwn _ _ _ _ rfl le_rfl (Nat.lt_succ_self _) rfl
  · rw [h]
    exact Or.inr ⟨_, rfl, le_rfl, Nat.lt_succ_self _, rfl⟩

omit [Capnp] in
/-- The heartbeats take the first id of the office. -/
theorem Leader.stamps_initializeLeadership (clock : Clock) (s : SharedState) :
    Stamps s (Leader.initializeLeadership clock s) := by
  rw [Leader.initializeLeadership_eq]
  exact stamps_appendOwn _ _ _ _ (by simp) (Nat.le_succ _) (by simp) (by simp)

omit [Capnp] in
/-- A leader that steps down does not store the entry of the request. -/
theorem Receives.log_of_leader {request : LocalAppendEntries} {callback : Callback}
    (h : Receives .leader request callback s s') : s'.replicationLog = s.replicationLog := by
  cases h with
  | unrecognised => rfl
  | mismatched hheeds => exact hheeds.unchanged.1.1.2.2.2.2
  | acknowledged hheeds => exact hheeds.unchanged.1.1.2.2.2.2
  | adopted hrole => cases hrole
  | unstored hrole => cases hrole
  | stored hrole => cases hrole

omit [Capnp] in
/-- What a leader appends in a part of `time_step`. -/
theorem Leader.stamps_runPart (clock : Clock) (part : TimeStepPart) {sm : StateMachine}
    (hlead : sm.delegate.nodeType = .leader) : Stamps sm.shared (sm.runPart clock part).shared := by
  have hturns := turns_runPart clock part sm
  generalize (sm.runPart clock part).shared = s' at hturns ⊢
  cases hturns with
  | office => exact Leader.stamps_initializeLeadership clock sm.shared
  | settled _ _ _ h => exact Or.inl h.unchanged.1.2.2.2.2
  | truncated _ hrole =>
    rw [hrole] at hlead
    cases hlead
  | stood hstarts => simp [startsElection_of_role sm (by rw [hlead]; simp) clock] at hstarts
  | _ => exact Or.inl (by simp)

/-- What a leader appends. -/
theorem Node.stamps_step (hlead : n.machine.delegate.nodeType = .leader)
    (hrestart : e.isRestart = false) : Stamps n.shared (n.step e).shared := by
  -- the persistence worker does not touch the log
  have hserves : ∀ {sm' : StateMachine}, Serves n.machine sm' → Stamps n.shared sm'.shared := by
    rintro sm' ⟨work, isOpen, responses, rfl⟩
    exact Or.inl rfl
  cases e with
  | accept clock message =>
    obtain ⟨payload, callback⟩ := message
    cases payload with
    | requestVote request =>
      have hasked := asked_acceptRequestVote request callback n.machine
      change Stamps n.shared (n.machine.acceptRequestVote request callback).shared
      generalize (n.machine.acceptRequestVote request callback).shared = s' at hasked ⊢
      cases hasked <;> exact Or.inl rfl
    | appendEntries request =>
      have hreceives := receives_acceptAppendEntries clock request callback n.machine
      rw [hlead] at hreceives
      exact Or.inl hreceives.log_of_leader
    | getRaftState => exact Or.inl rfl
    | writeBatch batch =>
      show Stamps n.shared (n.machine.acceptWriteBatch clock batch callback).shared
      unfold acceptWriteBatch
      split
      · exact Leader.stamps_writeBatch clock batch callback n.shared
      · exact Or.inl rfl
  | timeStep clock part => exact Leader.stamps_runPart clock part hlead
  | respond response => exact Or.inl rfl
  | processTask => exact hserves n.serves_processTask
  | flush => exact hserves n.serves_flush
  | restart clock written accepts => cases hrestart

/-- The ids of the entries that the node makes in an event.  Only a leader makes entries. -/
def Node.stamps (n : Node) (e : NodeEvent) : List ℕ :=
  if n.machine.delegate.nodeType = .leader then
    ((n.step e).shared.replicationLog.drop n.shared.replicationLog.length).map (·.messageId)
  else []

/-- The ids of entries are taken in the step. -/
theorem Node.mem_stamps (hrestart : e.isRestart = false) {id : ℕ} (hid : id ∈ n.stamps e) :
    n.shared.nextMessageId ≤ id ∧ id < (n.step e).shared.nextMessageId := by
  unfold stamps at hid
  split_ifs at hid with hlead
  · rcases stamps_step hlead hrestart with hlog | ⟨entry, -, hle, hlt, hlog⟩
    · rw [hlog, List.drop_length] at hid
      cases hid
    · rw [hlog, List.drop_left] at hid
      obtain rfl := List.mem_singleton.mp hid
      exact ⟨hle, hlt⟩
  · cases hid

end Node

/-! ## The ids of a process -/

/-- A node with the ids under which it has registered messages and those it has given to entries,
since its process started. -/
structure IdLog where
  node : Node
  registered : List ℕ
  stamped : List ℕ

namespace IdLog

variable [Capnp]

/-- One event; a restart begins a new process. -/
def step (l : IdLog) (e : NodeEvent) : IdLog :=
  if e.isRestart then ⟨l.node.step e, [], []⟩
  else ⟨l.node.step e, l.registered ++ l.node.registers e, l.stamped ++ l.node.stamps e⟩

/-- The counter is above all ids that are in use, and they were taken in order. -/
structure Fresh (l : IdLog) : Prop where
  increasing : l.registered.Pairwise (· < ·)
  below : ∀ id ∈ l.registered ++ l.stamped, id < l.node.shared.nextMessageId
  outstanding : ∀ id msg, l.node.shared.outstandingMessages.lookup id = some msg →
    id ∈ l.registered

omit [Capnp] in
/-- Nothing is outstanding under an id that is not taken. -/
theorem Fresh.lookup_eq_none {l : IdLog} (h : l.Fresh) {id : ℕ}
    (hid : l.node.shared.nextMessageId ≤ id) :
    l.node.shared.outstandingMessages.lookup id = none := by
  rcases hlookup : l.node.shared.outstandingMessages.lookup id with _ | msg
  · rfl
  · have hlt := h.below id (List.mem_append_left _ (h.outstanding id msg hlookup))
    omega

/-- The process starts. -/
theorem fresh_start (clock : Clock) (logFile : List UInt8) (voteRows : List VoteRow)
    (identity quorumSize workers : ℕ) (accepts : ℕ → Bool) :
    Fresh ⟨Node.start clock logFile voteRows identity quorumSize workers accepts, [], []⟩ :=
  ⟨.nil, by simp, fun id msg hmsg => by cases hmsg⟩

/-- The ids of an event go on from the counter. -/
theorem Fresh.append {l : IdLog} (h : l.Fresh) (hrestart : e.isRestart = false) :
    Fresh ⟨l.node.step e, l.registered ++ l.node.registers e, l.stamped ++ l.node.stamps e⟩ := by
  have hstep := l.node.idStep e hrestart
  have hle := hstep.nextMessageId_le
  refine ⟨List.pairwise_append.mpr ⟨h.increasing, hstep.increasing, ?_⟩, ?_, ?_⟩
  · intro old hold id hid
    exact (h.below old (List.mem_append_left _ hold)).trans_le (hstep.of_mem hid).1
  · intro id hid
    rcases List.mem_append.mp hid with hid | hid <;> rcases List.mem_append.mp hid with hid | hid
    · exact (h.below id (List.mem_append_left _ hid)).trans_le hle
    · exact (hstep.of_mem hid).2.1
    · exact (h.below id (List.mem_append_right _ hid)).trans_le hle
    · exact (Node.mem_stamps hrestart hid).2
  · intro id msg hmsg
    rcases hstep.lookup hmsg with hid | ⟨old, hold, -⟩
    · exact List.mem_append_right _ hid
    · exact List.mem_append_left _ (h.outstanding id old hold)

/-- **One event.** -/
theorem Fresh.step {l : IdLog} (h : l.Fresh) (e : NodeEvent) : (l.step e).Fresh := by
  unfold IdLog.step
  split_ifs with hrestart
  · cases e with
    | restart clock written accepts => exact fresh_start ..
    | _ => cases hrestart
  · exact h.append (Bool.eq_false_iff.mpr hrestart)

end IdLog

/-- **No message id is used twice in a process.**  The ids under which a node registers messages
increase, and its counter is above them and above the ids that it has given to entries.  A message
that the next event registers has an id above all of these; nothing is outstanding under it, and
the record is added to those that are.  Every other record that is there after the event was there
before. -/
theorem message_ids_fresh [Capnp] (clock : Clock) (logFile : List UInt8) (voteRows : List VoteRow)
    (identity quorumSize workers : ℕ) (accepts : ℕ → Bool) (events : List NodeEvent) :
    let l := Runs.run IdLog.step
      ⟨Node.start clock logFile voteRows identity quorumSize workers accepts, [], []⟩ events
    l.registered.Pairwise (· < ·) ∧
    (∀ id ∈ l.registered ++ l.stamped, id < l.node.shared.nextMessageId) ∧
    ∀ e,
      (∀ id ∈ l.node.registers e,
        (∀ old ∈ l.registered ++ l.stamped, old < id) ∧
        id < (l.node.step e).shared.nextMessageId ∧
        l.node.shared.outstandingMessages.lookup id = none ∧
        ∃ msg, (l.node.step e).shared.outstandingMessages =
          l.node.shared.outstandingMessages.insert id msg) ∧
      ∀ id msg', (l.node.step e).shared.outstandingMessages.lookup id = some msg' →
        id ∈ l.node.registers e ∨
          ∃ msg, l.node.shared.outstandingMessages.lookup id = some msg ∧ msg.Continues msg' := by
  intro l
  have hfresh : l.Fresh := Runs.AllSteps.invariant IdLog.Fresh (fun _ e h _ => h.step e)
    (IdLog.fresh_start ..) (Runs.allSteps_true _ events)
  refine ⟨hfresh.increasing, hfresh.below, fun e => ?_⟩
  rcases hrestart : e.isRestart with _ | _
  · have hstep := l.node.idStep e hrestart
    refine ⟨fun id hid => ?_, fun id msg' hmsg => hstep.lookup hmsg⟩
    obtain ⟨hle, hlt, hinsert⟩ := hstep.of_mem hid
    exact ⟨fun old hold => (hfresh.below old hold).trans_le hle, hlt,
      hfresh.lookup_eq_none hle, hinsert⟩
  · -- a new process has no messages
    cases e with
    | restart clock written accepts =>
      exact ⟨fun id hid => (List.not_mem_nil hid).elim, fun id msg' hmsg => by cases hmsg⟩
    | _ => cases hrestart

/-- The election of node 1 has the id 0, the heartbeats of its office 1, and its no-op 2. -/
example : letI := sampleCapnp
    let l := Runs.run IdLog.step ⟨freshNode, [], []⟩
      (standForTermOne ++ receiveVote ++ [.timeStep ⟨5002, 0⟩ .takeOffice])
    l.registered = [0, 2] ∧ l.stamped = [2] ∧ l.node.shared.nextMessageId = 3 := by
  decide

end Kraft
