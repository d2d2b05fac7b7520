/-
# The acknowledgements of a message

A leader registers every entry it appends under a message id and counts the acknowledgements
that arrive for the id; with a quorum of them, and the entry on its own disk, the message is
complete.  The message outlives the leadership, and nothing but the id says what an
acknowledgement is for.

* `tallyOf` is what is registered under an id, `completedMessage` the message that the next
  response completes, and `runPart_completed` what its completion does to the commit index.
* `TallyStep` : what a step of the state machine does to the tallies.  Every tally after it was
  there before, with as many acknowledgements as it has taken from the queue, or it belongs to an
  entry that the step has appended.
-/
import Kraft.CommittedPrefix

namespace Kraft

open SharedState StateMachine

variable {s s' : SharedState} {sm : StateMachine}

/-! ## Tallies -/

/-- What a leader has counted for a write or a no-op entry. -/
structure Tally where
  persistenceDone : Bool
  quorumAcks : ℕ
  index : ℕ
  deriving DecidableEq

/-- The tally of a message. -/
def OutstandingMessageType.tally : OutstandingMessageType → Option Tally
  | .writeBatch persistenceDone quorumAcks _ index => some ⟨persistenceDone, quorumAcks, index⟩
  | .noOp persistenceDone quorumAcks index => some ⟨persistenceDone, quorumAcks, index⟩
  | _ => none

/-- The tally registered under a message id. -/
def tallyOf (messages : HashMap OutstandingMessage) (id : ℕ) : Option Tally :=
  (messages.lookup id).bind (·.messageType.tally)

/-- A response is the acknowledgement of a message. -/
def LocalQuorumTaskResponseType.isAckOf (id : ℕ) : LocalQuorumTaskResponseType → Bool
  | .appendEntries id' _ => id' = id
  | _ => false

/-- The acknowledgements of a message that wait to be counted. -/
def acksWaiting (s : SharedState) (id : ℕ) : ℕ := s.quorumResponse.countP (·.isAckOf id)

/-- The message `id` and its index, if it is complete once its entry is on the leader's disk. -/
def Tally.completedOnDisk (quorumSize id : ℕ) (tally : Tally) : Option (ℕ × ℕ) :=
  if quorumSize ≤ tally.quorumAcks then some (id, tally.index) else none

/-- The same for the next acknowledgement. -/
def Tally.completedByAck (quorumSize id : ℕ) (tally : Tally) : Option (ℕ × ℕ) :=
  if quorumSize ≤ tally.quorumAcks + 1 ∧ tally.persistenceDone then some (id, tally.index) else none

/-- The message that the next response in a queue completes, with its index, if the node is a
leader in office: the entry reaches the leader's disk with enough acknowledgements counted, or
the last missing acknowledgement arrives with the entry on disk. -/
def completedMessage (sm : StateMachine) (part : TimeStepPart) : Option (ℕ × ℕ) :=
  match sm.delegate, part with
  | .leader true, .popPersistence =>
    match sm.shared.persistenceResponse with
    | .logPersisted id :: _ => (tallyOf sm.shared.outstandingMessages id).bind
        (·.completedOnDisk sm.shared.quorumSize id)
    | _ => none
  | .leader true, .popQuorum =>
    match sm.shared.quorumResponse with
    | .appendEntries id _ :: _ => (tallyOf sm.shared.outstandingMessages id).bind
        (·.completedByAck sm.shared.quorumSize id)
    | _ => none
  | _, _ => none

/-- The tally of a registered message. -/
theorem tallyOf_of_lookup {messages : HashMap OutstandingMessage} {id : ℕ}
    {msg : OutstandingMessage} (h : messages.lookup id = some msg) :
    tallyOf messages id = msg.messageType.tally := by
  unfold tallyOf
  rw [h]
  rfl

theorem tallyOf_of_lookup_none {messages : HashMap OutstandingMessage} {id : ℕ}
    (h : messages.lookup id = none) : tallyOf messages id = none := by
  unfold tallyOf
  rw [h]
  rfl

/-- The tallies when a message is registered, -/
theorem tallyOf_insert (messages : HashMap OutstandingMessage) (id id' : ℕ)
    (msg : OutstandingMessage) : tallyOf (messages.insert id msg) id' =
      if id' = id then msg.messageType.tally else tallyOf messages id' := by
  by_cases h : id' = id
  · subst h
    rw [if_pos rfl, tallyOf_of_lookup (AList.lookup_insert _)]
  · rw [if_neg h, tallyOf, AList.lookup_insert_ne h]
    rfl

/-- and when one is removed. -/
theorem tallyOf_erase (messages : HashMap OutstandingMessage) (id id' : ℕ) :
    tallyOf (messages.erase id) id' = if id' = id then none else tallyOf messages id' := by
  by_cases h : id' = id
  · subst h
    rw [if_pos rfl, tallyOf_of_lookup_none (AList.lookup_erase _ _)]
  · rw [if_neg h, tallyOf, AList.lookup_erase_ne h]
    rfl

/-- The tally of an entry. -/
theorem SharedState.Polls.tallyOf {id index : ℕ} {role : RaftNodeType}
    {callback : Option Callback} {r : Countdown.Record}
    (h : s.Polls id role (.entry callback index) r) :
    tallyOf s.outstandingMessages id = some ⟨r.stored, r.grants, index⟩ := by
  obtain ⟨-, number, hmsg⟩ := h
  rw [tallyOf_of_lookup hmsg]
  cases callback <;> rfl

/-- A tally is what the leader counts. -/
theorem polls_of_tallyOf {id : ℕ} {tally : Tally}
    (h : Kraft.tallyOf s.outstandingMessages id = some tally) :
    ∃ callback r, s.Polls id .leader (.entry callback tally.index) r ∧
      r.stored = tally.persistenceDone ∧ r.grants = tally.quorumAcks := by
  obtain ⟨msg, hmsg, htally⟩ := Option.bind_eq_some_iff.mp h
  unfold OutstandingMessageType.tally at htally
  split at htally
  · next done acks callback index htype =>
    obtain rfl := Option.some.inj htally
    exact ⟨some callback, _, .of_lookup hmsg (.entry (some callback) index) htype, rfl, rfl⟩
  · next done acks index htype =>
    obtain rfl := Option.some.inj htally
    exact ⟨none, _, .of_lookup hmsg (.entry none index) htype, rfl, rfl⟩
  · cases htally

/-! ## Completing a message -/

/-- The commit index after the completion of a message. -/
theorem Leader.commitIndex_complete (index : ℕ) (callback : Option Callback) (s : SharedState) :
    (Leader.complete index callback s).commitIndex = max s.commitIndex index := by
  cases callback <;> exact Leader.commitIndex_advanceCommitIndex index s

/-- What the completion of a message leaves behind, if there is one. -/
structure Completes (completed : Option (ℕ × ℕ)) (s s' : SharedState) : Prop where
  idle : completed = none → s'.commitIndex = s.commitIndex
  commitIndex : ∀ id index, completed = some (id, index) →
    s'.commitIndex = max s.commitIndex index ∧ s'.outstandingMessages.lookup id = none

theorem Completes.of_eq (h : s'.commitIndex = s.commitIndex) : Completes none s s' :=
  ⟨fun _ => h, fun _ _ heq => nomatch heq⟩

/-- A complete message is removed and its index committed. -/
theorem Completes.of_advance {id index : ℕ} (hcommit : s'.commitIndex = max s.commitIndex index)
    (hgone : s'.outstandingMessages = s.outstandingMessages.erase id) :
    Completes (some (id, index)) s s' := by
  refine ⟨(fun h => nomatch h), fun id' index' heq => ?_⟩
  obtain ⟨rfl, rfl⟩ := Prod.mk.inj (Option.some.inj heq)
  exact ⟨hcommit, by rw [hgone, AList.lookup_erase]⟩

/-- The message that an outcome completes, with its index. -/
def completedAs (id index : ℕ) : Countdown.Outcome → Option (ℕ × ℕ)
  | .complete => some (id, index)
  | _ => none

/-- The report of the disk is a response of the library, -/
theorem Tally.completedOnDisk_eq (quorumSize id index : ℕ) (r : Countdown.Record) :
    Tally.completedOnDisk quorumSize id ⟨r.stored, r.grants, index⟩ =
      completedAs id index (r.respond quorumSize .stored) := by
  unfold Tally.completedOnDisk
  simp only [Countdown.Record.respond]
  split_ifs <;> rfl

/-- and so is an acknowledgement. -/
theorem Tally.completedByAck_eq (quorumSize id index : ℕ) (r : Countdown.Record) :
    Tally.completedByAck quorumSize id ⟨r.stored, r.grants, index⟩ =
      completedAs id index (r.respond quorumSize (.answer true)) := by
  unfold Tally.completedByAck
  simp only [Countdown.Record.respond, Bool.toNat_true]
  split_ifs <;> rfl

/-- **What a reply completes** at a leader, for either of its two counts. -/
theorem Settles.completes {reply : Reply} {id : ℕ} {completed : Tally → Option (ℕ × ℕ)}
    (h : Settles .leader reply id s s') (hreply : reply.role = .leader)
    (hcompleted : ∀ index (r : Countdown.Record), completed ⟨r.stored, r.grants, index⟩ =
      completedAs id index (r.respond s.quorumSize reply.toResponse)) :
    Completes ((tallyOf s.outstandingMessages id).bind completed) s s' := by
  rcases htally : tallyOf s.outstandingMessages id with _ | tally
  · refine .of_eq ?_
    cases h with
    | completed hpoll =>
      rw [hpoll.tallyOf] at htally
      cases htally
    | _ => rfl
  · obtain ⟨callback, r, hpoll, hstored, hgrants⟩ := polls_of_tallyOf htally
    have hbind : completed tally = completedAs id tally.index
        (r.respond s.quorumSize reply.toResponse) := by
      rw [← hcompleted, hstored, hgrants]
    rw [Option.bind_some, hbind]
    cases h with
    | completed hpoll' _ hrespond =>
      obtain ⟨heq, rfl⟩ := hpoll.unique hpoll'
      obtain ⟨rfl, rfl⟩ := Poll.entry.inj heq
      rw [hrespond]
      exact .of_advance (by simp [Leader.commitIndex_complete]) (by simp)
    | counted hpoll' _ hrespond =>
      obtain ⟨-, rfl⟩ := hpoll.unique hpoll'
      rw [hrespond]
      exact .of_eq rfl
    | dropped _ hlast =>
      rw [hlast _ _ hpoll hreply]
      exact .of_eq rfl
    | elected hpoll' => cases (hpoll.unique hpoll').1
    | stored hrole => exact absurd rfl hrole
    | missing hmsg =>
      rw [tallyOf_of_lookup_none hmsg] at htally
      cases htally
    | granted _ hmsg htype =>
      rw [tallyOf_of_lookup hmsg, htype] at htally
      cases htally
    | passed hvote =>
      rw [hvote] at hreply
      cases hreply

/-- **The commit index of a leader** changes when it completes a message, and becomes the index of
the message if that is higher. -/
theorem runPart_completed (clock : Clock) (hlead : sm.delegate.nodeType = .leader)
    (part : TimeStepPart) :
    Completes (completedMessage sm part) sm.shared (sm.runPart clock part).shared := by
  obtain ⟨initialized, hrole⟩ := Delegate.nodeType_eq_leader hlead
  have hcommits : ∀ {s' : SharedState}, Turns clock sm part s' →
      part ≠ .popPersistence → part ≠ .popQuorum → s'.commitIndex = sm.shared.commitIndex := by
    intro s' hturns hpersistence hquorum
    cases hturns with
    | settled hpart => exact (hpart.elim hpersistence hquorum).elim
    | _ => simp
  cases part with
  | takeOffice =>
    have hnone : completedMessage sm .takeOffice = none := by simp [completedMessage, hrole]
    rw [hnone]
    exact .of_eq (hcommits (turns_runPart clock .takeOffice sm) (by simp) (by simp))
  | finish =>
    have hnone : completedMessage sm .finish = none := by simp [completedMessage, hrole]
    rw [hnone]
    exact .of_eq (hcommits (turns_runPart clock .finish sm) (by simp) (by simp))
  | popPersistence =>
    show Completes _ sm.shared sm.popPersistence.shared
    unfold completedMessage popPersistence ready StateMachine.handlePersistence
    rw [hrole]
    rcases sm.shared.persistenceResponse with _ | ⟨response, rest⟩
    · cases initialized <;> exact .of_eq rfl
    · cases initialized with
      | false => exact .of_eq rfl
      | true =>
        cases response with
        | logPersisted id =>
          have h := (Leader.settles_handleLogPersisted id
            (sm.dropPersistence rest).shared).completes rfl (Tally.completedOnDisk_eq _ id)
          exact ⟨h.idle, h.commitIndex⟩
        | votePersisted id term candidateId => exact .of_eq (by simp [Leader.handlePersistence])
  | popQuorum =>
    show Completes _ sm.shared sm.popQuorum.shared
    unfold completedMessage popQuorum ready StateMachine.handleQuorum
    rw [hrole]
    rcases sm.shared.quorumResponse with _ | ⟨response, rest⟩
    · cases initialized <;> exact .of_eq rfl
    · cases initialized with
      | false => exact .of_eq rfl
      | true =>
        cases response with
        | appendEntries id ok =>
          have h := (Leader.settles_handleAppendEntriesResponse id
            (sm.dropQuorum rest).shared).completes rfl (Tally.completedByAck_eq _ id)
          exact ⟨h.idle, h.commitIndex⟩
        | _ => exact .of_eq rfl

/-! ## Steps without a new tally -/

/-- No message gets a tally or loses acknowledgements, and no response is taken. -/
structure KeepsTallies (s s' : SharedState) : Prop where
  nextMessageId : s.nextMessageId ≤ s'.nextMessageId
  quorumResponse : s'.quorumResponse = s.quorumResponse
  fewer : ∀ id tally, tallyOf s'.outstandingMessages id = some tally →
    tallyOf s.outstandingMessages id = some tally

namespace KeepsTallies

variable {s s₁ s₂ : SharedState}

/-- No tally is touched. -/
theorem of_eq (hnext : s.nextMessageId ≤ s₁.nextMessageId)
    (hresponse : s₁.quorumResponse = s.quorumResponse)
    (hmessages : s₁.outstandingMessages = s.outstandingMessages) : KeepsTallies s s₁ :=
  ⟨hnext, hresponse, fun _ _ h => hmessages ▸ h⟩

theorem refl (s : SharedState) : KeepsTallies s s := of_eq le_rfl rfl rfl

theorem trans (h₁ : KeepsTallies s s₁) (h₂ : KeepsTallies s₁ s₂) : KeepsTallies s s₂ :=
  ⟨h₁.nextMessageId.trans h₂.nextMessageId, h₂.quorumResponse.trans h₁.quorumResponse,
    fun id tally h => h₁.fewer id tally (h₂.fewer id tally h)⟩

/-- A message of another kind is registered. -/
theorem of_insert {id : ℕ} {msg : OutstandingMessage} (hnext : s.nextMessageId ≤ s₁.nextMessageId)
    (hresponse : s₁.quorumResponse = s.quorumResponse)
    (hmessages : s₁.outstandingMessages = s.outstandingMessages.insert id msg)
    (htype : msg.messageType.tally = none) : KeepsTallies s s₁ := by
  refine ⟨hnext, hresponse, fun id' tally h => ?_⟩
  rw [hmessages, tallyOf_insert, htype] at h
  split_ifs at h
  exact h

end KeepsTallies

/-- An AppendEntries request registers no entry of the node's own. -/
theorem Receives.keepsTallies {role : RaftNodeType} {request : LocalAppendEntries}
    {callback : Callback} (h : Receives role request callback s s') : KeepsTallies s s' := by
  have hheeds : ∀ {s₁}, Heeds role request s s₁ → KeepsTallies s s₁ := fun h₁ =>
    .of_eq h₁.unchanged.2.2 h₁.unchanged.1.1.1.2.2.2.2 h₁.unchanged.1.2.2.2.2
  cases h with
  | unrecognised => exact .of_eq le_rfl rfl rfl
  | mismatched h₁ => exact (hheeds h₁).trans (.of_eq le_rfl rfl rfl)
  | acknowledged h₁ => exact (hheeds h₁).trans (.of_eq le_rfl rfl rfl)
  | adopted => exact .of_eq (by simp) (by simp) (by simp)
  | unstored _ h₁ => exact (hheeds h₁).trans (.of_eq (by simp) (by simp) (by simp))
  | stored _ h₁ => exact (hheeds h₁).trans (.of_insert (by simp) (by simp) (by simp; rfl) rfl)

/-- A request for a vote. -/
theorem keepsTallies_acceptRequestVote (request : LocalRequestVoteRequest) (callback : Callback)
    (sm : StateMachine) : KeepsTallies sm.shared (sm.acceptRequestVote request callback).shared := by
  have hasked := asked_acceptRequestVote request callback sm
  generalize (sm.acceptRequestVote request callback).shared = s' at hasked ⊢
  cases hasked with
  | refused => exact .of_eq le_rfl rfl rfl
  | _ => exact .of_insert (Nat.le_succ _) rfl rfl rfl

/-- The end of `time_step`. -/
theorem keepsTallies_finish (clock : Clock) (sm : StateMachine) :
    KeepsTallies sm.shared (sm.finish clock).shared := by
  have hturns := turns_runPart clock .finish sm
  change Turns clock sm .finish (sm.finish clock).shared at hturns
  generalize (sm.finish clock).shared = s' at hturns ⊢
  cases hturns with
  | settled hpart => simp at hpart
  | stood => exact .of_insert (by simp) (by simp) (by simp; rfl) rfl
  | repaired =>
    exact .of_eq (by simpa using nextMessageId_le_handleBackfillRequests ..) (by simp) (by simp)
  | _ => exact .of_eq (by simp) (by simp) (by simp)

/-! ## One step -/

/-- A leader appends a batch at the end of its log. -/
def AppendsAtEnd (sm : StateMachine) (message : LocalRaftMessage) : Prop :=
  match sm.delegate, message.payload with
  | .leader _, .writeBatch batch =>
    batch.requests = [] ∨ sm.shared.nextLogIndex = sm.shared.replicationLog.length
  | _, _ => True

instance (sm : StateMachine) (message : LocalRaftMessage) : Decidable (AppendsAtEnd sm message) := by
  obtain ⟨_ | _ | _, _, _⟩ := sm <;> obtain ⟨_ | _ | _ | _, _⟩ := message <;>
    unfold AppendsAtEnd <;> infer_instance

/-- What a step, in which a leader may append an entry at the end of its log, does to the tallies. -/
structure TallyStep (sm sm' : StateMachine) : Prop where
  nextMessageId : sm.shared.nextMessageId ≤ sm'.shared.nextMessageId
  responses : ∀ r ∈ sm'.shared.quorumResponse, r ∈ sm.shared.quorumResponse
  tallies : ∀ id tally', tallyOf sm'.shared.outstandingMessages id = some tally' →
    (∃ tally, tallyOf sm.shared.outstandingMessages id = some tally ∧ tally'.index = tally.index ∧
        tally'.quorumAcks + acksWaiting sm'.shared id ≤
          tally.quorumAcks + acksWaiting sm.shared id) ∨
      (sm.delegate.nodeType = .leader ∧ sm.shared.nextMessageId ≤ id ∧
        id < sm'.shared.nextMessageId ∧ tally'.quorumAcks = 0 ∧
        tally'.index = sm.shared.replicationLog.length ∧
        sm'.shared.quorumResponse = sm.shared.quorumResponse ∧
        ∃ timestamp commands, sm'.shared.replicationLog = sm.shared.replicationLog ++
          [Leader.buildLogEntry sm.shared sm.shared.replicationLog.length id timestamp commands])

/-- A step that keeps the tallies counts none. -/
theorem KeepsTallies.tallyStep {sm' : StateMachine} (h : KeepsTallies sm.shared sm'.shared) :
    TallyStep sm sm' := by
  refine ⟨h.nextMessageId, fun r hr => h.quorumResponse ▸ hr, fun id tally hid => Or.inl ?_⟩
  refine ⟨tally, h.fewer id tally hid, rfl, ?_⟩
  unfold acksWaiting
  rw [h.quorumResponse]

/-- A leader appends an entry, in a state `s₁` that agrees with its own on what is counted. -/
theorem TallyStep.of_appendOwn {idx id timestamp : ℕ} {commands : List PutRequest}
    {type : OutstandingMessageType} {tally : Tally} {sm' : StateMachine} {s₁ : SharedState}
    (hshared : sm'.shared = Leader.appendOwn type idx id timestamp commands s₁)
    (hlead : sm.delegate.nodeType = .leader) (hidx : idx = sm.shared.replicationLog.length)
    (hbuild : ∀ idx id timestamp commands, Leader.buildLogEntry s₁ idx id timestamp commands =
      Leader.buildLogEntry sm.shared idx id timestamp commands)
    (hid : sm.shared.nextMessageId ≤ id) (hnext : s₁.nextMessageId = id + 1)
    (hresponse : s₁.quorumResponse = sm.shared.quorumResponse)
    (hmessages : s₁.outstandingMessages = sm.shared.outstandingMessages)
    (hlog : s₁.replicationLog = sm.shared.replicationLog) (htype : type.tally = some tally)
    (hacks : tally.quorumAcks = 0) (hindex : tally.index = idx) : TallyStep sm sm' := by
  subst hidx
  have hresponse' : sm'.shared.quorumResponse = sm.shared.quorumResponse := by
    simp [hshared, hresponse]
  have hnext' : sm'.shared.nextMessageId = id + 1 := by simp [hshared, hnext]
  refine ⟨by omega, fun r hr => hresponse' ▸ hr, fun id' tally' htally => ?_⟩
  have hinsert : sm'.shared.outstandingMessages = sm.shared.outstandingMessages.insert id
      ⟨id, 1 + s₁.quorumWorkerTasks.length, type⟩ := by simp [hshared, hmessages]
  rw [hinsert, tallyOf_insert, htype] at htally
  split_ifs at htally with hsame
  · obtain rfl := Option.some.inj htally
    refine Or.inr ⟨hlead, hsame ▸ hid, by omega, hacks, hindex, hresponse', timestamp, commands, ?_⟩
    simp [hshared, hlog, hbuild, hsame]
  · refine Or.inl ⟨tally', htally, rfl, ?_⟩
    unfold acksWaiting
    rw [hresponse']

/-- **An accepted request**: a leader registers a batch. -/
theorem tallyStep_accept (clock : Clock) {message : LocalRaftMessage}
    (hend : AppendsAtEnd sm message) : TallyStep sm (sm.accept clock message) := by
  unfold StateMachine.accept
  split
  · exact (keepsTallies_acceptRequestVote ..).tallyStep
  · exact (receives_acceptAppendEntries ..).keepsTallies.tallyStep
  · exact KeepsTallies.tallyStep (.of_eq le_rfl rfl rfl)
  · next batch hpayload =>
    unfold acceptWriteBatch
    split
    · next initialized hrole =>
      unfold AppendsAtEnd at hend
      rw [hrole, hpayload] at hend
      rcases Leader.writeBatch_cases clock batch message.callback sm.shared with
        ⟨-, h⟩ | ⟨hbatch, -, h⟩ | ⟨-, -, h⟩
      · rw [h]
        exact KeepsTallies.tallyStep (.of_eq (Nat.le_succ _) rfl rfl)
      · exact .of_appendOwn h (by rw [hrole]; rfl) (hend.resolve_left hbatch) (fun _ _ _ _ => rfl)
          le_rfl rfl rfl rfl rfl rfl rfl rfl
      · rw [h]
        exact KeepsTallies.tallyStep (.of_eq (Nat.le_succ _) rfl rfl)
    · exact KeepsTallies.tallyStep (.of_eq le_rfl rfl rfl)

/-- A new leader registers its no-op entry. -/
theorem tallyStep_takeOffice (clock : Clock) (sm : StateMachine) :
    TallyStep sm (sm.takeOffice clock) := by
  unfold takeOffice
  split
  · next hrole =>
    refine .of_appendOwn (Leader.initializeLeadership_eq clock sm.shared) (by rw [hrole]; rfl) rfl
      (by simp) (Nat.le_succ _) ?_ ?_ ?_ ?_ rfl rfl rfl <;> simp
  · exact KeepsTallies.tallyStep (.refl _)

/-- A tally after a reply was there before, and an acknowledgement adds one to its own. -/
theorem Settles.tally {role : RaftNodeType} {reply : Reply} {id id' : ℕ} {tally' : Tally}
    (h : Settles role reply id s s') (htally' : tallyOf s'.outstandingMessages id' = some tally') :
    ∃ tally, tallyOf s.outstandingMessages id' = some tally ∧ tally'.index = tally.index ∧
      tally'.quorumAcks ≤ tally.quorumAcks +
        if id' = id ∧ reply = .acknowledged then 1 else 0 := by
  rcases h.messages with heq | heq | ⟨poll, r, r', hpoll, hreply, hrespond, heq⟩
  · exact ⟨tally', heq ▸ htally', rfl, Nat.le_add_right ..⟩
  · rw [heq, tallyOf_erase] at htally'
    split_ifs at htally'
    exact ⟨tally', htally', rfl, Nat.le_add_right ..⟩
  · rw [heq, tallyOf_insert, tallyOf_erase] at htally'
    split_ifs at htally' with hid
    · subst hid
      cases poll with
      | election => cases htally'
      | entry callback index =>
        have hnew : tally' = ⟨r'.stored, r'.grants, index⟩ := by
          cases callback <;> exact (Option.some.inj htally').symm
        subst hnew
        refine ⟨_, hpoll.tallyOf, rfl, ?_⟩
        have hgrants := (Countdown.Record.of_waiting hrespond).2.1
        rw [← hpoll.1] at hreply
        cases reply with
        | logPersisted => simpa using (show r'.grants = r.grants from hgrants).le
        | acknowledged => simpa using (show r'.grants = r.grants + 1 from hgrants).le
        | _ => cases hreply
    · exact ⟨tally', htally', rfl, Nat.le_add_right ..⟩

/-- One persistence response. -/
theorem tallyStep_popPersistence (sm : StateMachine) : TallyStep sm sm.popPersistence := by
  rcases popPersistence_cases sm with heq | ⟨response, rest, -, heq⟩
  · rw [heq]
    exact KeepsTallies.tallyStep (.refl _)
  · have hsettles := settles_handlePersistence response (sm.dropPersistence rest)
    obtain ⟨⟨⟨-, -, -, -, hresponse⟩, -⟩, -, hnext, -⟩ := hsettles.unchanged
    rw [heq]
    refine ⟨hnext.ge, fun r hr => hresponse ▸ hr, fun id' tally' htally' => ?_⟩
    obtain ⟨tally, htally, hindex, hacks⟩ := hsettles.tally htally'
    rw [if_neg (by cases response <;> simp [PersistenceResponseType.reply])] at hacks
    refine Or.inl ⟨tally, htally, hindex, ?_⟩
    unfold acksWaiting
    rw [hresponse]
    exact Nat.add_le_add_right hacks _

/-- One quorum response. -/
theorem tallyStep_popQuorum (sm : StateMachine) : TallyStep sm sm.popQuorum := by
  rcases popQuorum_cases sm with heq | ⟨response, rest, hqueue, heq⟩
  · rw [heq]
    exact KeepsTallies.tallyStep (.refl _)
  · have hsettles := settles_handleQuorum response (sm.dropQuorum rest)
    rw [heq]
    generalize (sm.dropQuorum rest).handleQuorum response = sm' at hsettles ⊢
    obtain ⟨delegate, s', requests⟩ := sm'
    -- what is left in the queue was in it
    have hrest : s'.nextMessageId = sm.shared.nextMessageId → s'.quorumResponse = rest →
        (∀ id tally', tallyOf s'.outstandingMessages id = some tally' →
          ∃ tally, tallyOf sm.shared.outstandingMessages id = some tally ∧
            tally'.index = tally.index ∧ tally'.quorumAcks ≤ tally.quorumAcks +
              if response.isAckOf id then 1 else 0) → TallyStep sm ⟨delegate, s', requests⟩ := by
      intro hnext hresponse htallies
      refine ⟨hnext.ge, fun r hr => ?_, fun id tally' htally' => ?_⟩
      · rw [hqueue]
        exact .tail _ (hresponse ▸ hr)
      · obtain ⟨tally, htally, hindex, hacks⟩ := htallies id tally' htally'
        refine Or.inl ⟨tally, htally, hindex, ?_⟩
        unfold acksWaiting
        rw [show (⟨delegate, s', requests⟩ : StateMachine).shared.quorumResponse = rest from hresponse,
          hqueue, List.countP_cons]
        omega
    cases hsettles with
    | ignored => exact hrest rfl rfl fun id tally htally => ⟨tally, htally, rfl, Nat.le_add_right ..⟩
    | truncated =>
      refine hrest (by simp) (by simp) fun id tally htally => ?_
      exact ⟨tally, by simpa using htally, rfl, Nat.le_add_right ..⟩
    | settled hreply h =>
      obtain ⟨⟨⟨-, -, -, -, hresponse⟩, -⟩, -, hnext, -⟩ := h.unchanged
      refine hrest hnext hresponse fun id tally' htally' => ?_
      obtain ⟨tally, htally, hindex, hacks⟩ := h.tally htally'
      refine ⟨tally, htally, hindex, hacks.trans (Nat.add_le_add_left ?_ _)⟩
      split_ifs with hcounted hack
      · exact le_rfl
      · obtain ⟨rfl, rfl⟩ := hcounted
        rcases LocalQuorumTaskResponseType.of_reply hreply with
          ⟨-, term, received, -, hvote⟩ | ⟨-, ok, rfl, -⟩
        · cases hvote
        · simp [LocalQuorumTaskResponseType.isAckOf] at hack
      all_goals exact Nat.zero_le _

/-- **A part of `time_step`.** -/
theorem tallyStep_runPart (clock : Clock) (sm : StateMachine) (part : TimeStepPart) :
    TallyStep sm (sm.runPart clock part) := by
  cases part with
  | takeOffice => exact tallyStep_takeOffice clock sm
  | popPersistence => exact tallyStep_popPersistence sm
  | popQuorum => exact tallyStep_popQuorum sm
  | finish => exact (keepsTallies_finish clock sm).tallyStep

end Kraft
