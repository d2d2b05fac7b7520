/-
# The route of a client write

`transport/write_proxy/` with the hops of the quorum workers.  The write proxy combines
client batches into one, gives it to the state machine of its own node (local route) or,
through the quorum workers, to that of the leader (remote route), and fans the answer out
to the clients' callbacks.

* `LocalRoute` and `RemoteRoute` are the two ways back, from the answer of the state
  machine to what each client receives.
* `Accounts` : an event answers the message it is given, or one that waits.
* Neither way back looks at the `err` of the answer.  So a client is told `Ok` for a batch that the
  state machine has refused (`refused_write_told_ok`), and `client_success_iff` says when
  that cannot happen: the state machine takes the batch.
-/
import Kraft.Node
import Kraft.QuorumWorker
import Kraft.Replies
import Kraft.Requests

namespace Kraft

variable {callback : Callback} {batch : OwnedWriteBatch}

/-! ## The write proxy -/

/-- `WriteBatch`: the callback is named by a number. -/
structure WriteBatch where
  batchId : String
  message : OwnedWriteBatch
  callback : ℕ
  deriving DecidableEq

/-- `HashMap<String, Sender<WriteResponse>>`. -/
abbrev BatchCallbacks := AList (fun _ : String => ℕ)

/-- `prepare_batch_and_callbacks`: of two batches with the same id the later callback is
kept. -/
def prepareBatchAndCallbacks (batchId : String) (batches : List WriteBatch) :
    OwnedWriteBatch × BatchCallbacks :=
  (⟨batchId, batches.flatMap (·.message.requests)⟩,
    batches.foldl (fun callbacks batch => callbacks.insert batch.batchId batch.callback) ∅)

/-- `respond_to_batch_callbacks`: what is sent on each callback. -/
def respondToBatchCallbacks (response : OwnedWriteBatchResponse) (callbacks : BatchCallbacks) :
    List (ℕ × WriteResponse) :=
  callbacks.entries.map fun entry => (entry.2, .success ⟨response.responses, entry.1⟩)

/-- `WriteResponse::error()` on every callback. -/
def errorToBatchCallbacks (callbacks : BatchCallbacks) : List (ℕ × WriteResponse) :=
  callbacks.entries.map fun entry => (entry.2, .error)

/-- `handle_insert_completed`. -/
def handleInsertCompleted (payload : LocalRaftResponsePayload) (callbacks : BatchCallbacks) :
    List (ℕ × WriteResponse) :=
  match payload with
  | .writeBatch response => respondToBatchCallbacks response.message callbacks
  | _ => errorToBatchCallbacks callbacks

/-- `handle_local_write_response`; `none` if the callback was dropped. -/
def handleLocalWriteResponse (received : Option LocalRaftResponsePayload)
    (callbacks : BatchCallbacks) : List (ℕ × WriteResponse) :=
  match received with
  | some payload => handleInsertCompleted payload callbacks
  | none => []

/-- The end of `send_quorum_put_batch_and_handle_response`; the status of the received
response is not looked at. -/
def handleQuorumPutBatchResponse (received : Option WriteResponse)
    (callbacks : BatchCallbacks) : List (ℕ × WriteResponse) :=
  match received with
  | some response => respondToBatchCallbacks response.message callbacks
  | none => errorToBatchCallbacks callbacks

/-! ## The two ways back -/

/-- The remote route of a batch: the worker `leader` at the leader, which holds the pending
task, and the worker `origin` at the node of the write proxy, which waits for the
response. -/
structure RemoteHop (batchId : String) where
  leader : QuorumWorker
  origin : QuorumWorker
  waits : (origin.pendingWriteBatches.lookup batchId).isSome

/-- The route of a batch: through the own state machine or through two quorum workers. -/
inductive Route (batchId : String)
  | viaOwn
  | viaLeader (hop : RemoteHop batchId)

/-- The batch the state machine is given. -/
def Route.handOver {batchId : String} (route : Route batchId)
    (utf8Lossy : List UInt8 → List UInt8) (batch : OwnedWriteBatch) : OwnedWriteBatch :=
  match route with
  | .viaOwn => batch
  | .viaLeader _ => QuorumWorker.putBatchOnWire utf8Lossy batch

/-- What the clients receive for the answer of the state machine, `none` if its callback
was dropped.  On the remote route nothing is sent in that case. -/
def Route.deliver {batchId : String} (route : Route batchId)
    (received : Option LocalRaftResponsePayload) (callbacks : BatchCallbacks) :
    List (ℕ × WriteResponse) :=
  match route, received with
  | .viaOwn, received => handleLocalWriteResponse received callbacks
  | .viaLeader hop, some payload =>
    let messages := (hop.leader.handlePendingTaskResponse (.putBatch batchId) payload).messages
    let responses := messages.flatMap fun message =>
      (hop.origin.handleInboundMessage message).2.writeResponses
    responses.flatMap fun response => handleQuorumPutBatchResponse (some response.2) callbacks
  | .viaLeader _, none => []

/-- An answer to the write is passed to every client as a success, on both routes. -/
theorem Route.deliver_writeBatch {batchId : String} (route : Route batchId)
    (response : LocalRaftWriteBatchResponse) (callbacks : BatchCallbacks) :
    ∃ message, route.deliver (some (.writeBatch response)) callbacks =
      respondToBatchCallbacks message callbacks := by
  cases route with
  | viaOwn => exact ⟨response.message, rfl⟩
  | viaLeader hop =>
    obtain ⟨callback, hcallback⟩ := Option.isSome_iff_exists.mp hop.waits
    refine ⟨⟨response.message.responses, batchId⟩, ?_⟩
    simp [Route.deliver, QuorumWorker.handlePendingTaskResponse,
      QuorumWorker.handleInboundMessage, QuorumWorker.onPutBatchResponse, hcallback,
      handleQuorumPutBatchResponse, WriteResponse.success]

/-- Only an answer to the write reaches a client with status `Ok`. -/
theorem Route.writeBatch_of_ok {batchId : String} {route : Route batchId}
    {received : Option LocalRaftResponsePayload} {callbacks : BatchCallbacks}
    {delivery : ℕ × WriteResponse} (hmem : delivery ∈ route.deliver received callbacks)
    (hok : delivery.2.status = .ok) : ∃ response, received = some (.writeBatch response) := by
  have herror : ∀ delivery ∈ errorToBatchCallbacks callbacks, delivery.2.status ≠ .ok := by
    intro delivery hmem
    obtain ⟨entry, -, rfl⟩ := List.mem_map.mp hmem
    simp [WriteResponse.error]
  rcases received with _ | payload
  · cases route <;> simp [Route.deliver, handleLocalWriteResponse] at hmem
  · cases payload with
    | writeBatch response => exact ⟨response, rfl⟩
    | _ =>
      cases route with
      | viaOwn => exact absurd hok (herror delivery hmem)
      | viaLeader hop =>
        simp [Route.deliver, QuorumWorker.handlePendingTaskResponse] at hmem

/-- The callbacks of the combined batch are those of the batches, and there is one if there
is a batch. -/
theorem prepareBatchAndCallbacks_ne_empty (batchId : String) {batches : List WriteBatch}
    (h : batches ≠ []) : (prepareBatchAndCallbacks batchId batches).2.entries ≠ [] := by
  obtain ⟨init, last, rfl⟩ := List.eq_nil_or_concat batches |>.resolve_left h
  simp [prepareBatchAndCallbacks]

/-! ## Answers

`Accounts` says where the answers of an event come from.  `OnlyWritten callback s` says that the
request behind the callback is a write the state machine has taken: it waits as an outstanding write
batch, and any answer is a success. -/

/-- The callback an outstanding message answers. -/
def OutstandingMessageType.callback? : OutstandingMessageType → Option Callback
  | .requestVote callback => some callback
  | .candidateElection .. => none
  | .appendLog callback => some callback
  | .writeBatch _ _ callback _ => some callback
  | .noOp .. => none

/-- The write that an outstanding message waits for: its callback and the index of its entry. -/
def OutstandingMessageType.write? : OutstandingMessageType → Option (Callback × ℕ)
  | .writeBatch _ _ callback index => some (callback, index)
  | _ => none

theorem OutstandingMessageType.callback?_of_write {type : OutstandingMessageType} {index : ℕ}
    (h : type.write? = some (callback, index)) : type.callback? = some callback := by
  cases type with
  | writeBatch => exact congrArg (Option.map Prod.fst) h
  | _ => cases h

/-- A successful answer to a write. -/
def LocalRaftResponsePayload.isWritten : LocalRaftResponsePayload → Bool
  | .writeBatch response => response.err.isNone
  | _ => false

/-- A request is a write, and its entry is appended at `index`. -/
def AppendsWrite (message : LocalRaftMessage) (index : ℕ) (s s' : SharedState) : Prop :=
  ∃ batch entry, message.payload = .writeBatch batch ∧
    s'.replicationLog = s.replicationLog ++ [entry] ∧ entry.index = index ∧
    entry.commands = batch.requests

/-- **Where answers come from**, when a node goes from `s` to `s'` and may accept a request.  A
request is refused at once, or it waits as an outstanding message.  Only a write that has waited is
answered with a success, and then its entry is committed. -/
structure Accounts (message? : Option LocalRaftMessage) (s s' : SharedState) : Prop where
  answers : ∀ answer ∈ s'.callbackResponses, answer ∈ s.callbackResponses ∨
    (∃ message ∈ message?, answer.1 = message.callback ∧ answer.2.isWritten = false) ∨
    ∃ id msg, s.outstandingMessages.lookup id = some msg ∧
      msg.messageType.callback? = some answer.1 ∧
      answer.2.isWritten = msg.messageType.write?.isSome ∧
      ∀ write ∈ msg.messageType.write?, write.2 ≤ s'.commitIndex
  waits : ∀ id msg, s'.outstandingMessages.lookup id = some msg →
    (∃ old, s.outstandingMessages.lookup id = some old ∧
      msg.messageType.callback? = old.messageType.callback? ∧
      msg.messageType.write? = old.messageType.write?) ∨
    msg.messageType.callback? = none ∨
    ∃ message ∈ message?, msg.messageType.callback? = some message.callback ∧
      ∀ write ∈ msg.messageType.write?, AppendsWrite message write.2 s s'

namespace Accounts

variable {message? : Option LocalRaftMessage} {message : LocalRaftMessage} {s s' : SharedState}

/-- Nothing is answered, and nothing registered. -/
theorem of_eq (hanswers : s'.callbackResponses = s.callbackResponses)
    (hmessages : s'.outstandingMessages = s.outstandingMessages) : Accounts message? s s' where
  answers _ hanswer := Or.inl (hanswers ▸ hanswer)
  waits _ msg hmsg := Or.inl ⟨msg, hmessages ▸ hmsg, rfl, rfl⟩

/-- The request is refused. -/
theorem refuses {payload : LocalRaftResponsePayload} (hpayload : payload.isWritten = false)
    (hanswers : s'.callbackResponses = s.callbackResponses ++ [(message.callback, payload)])
    (hmessages : s'.outstandingMessages = s.outstandingMessages) :
    Accounts (some message) s s' where
  answers answer hanswer := by
    rcases List.mem_append.mp (hanswers ▸ hanswer) with hold | hnew
    · exact Or.inl hold
    · obtain rfl := List.mem_singleton.mp hnew
      exact Or.inr (Or.inl ⟨message, rfl, rfl, hpayload⟩)
  waits id msg hmsg := Or.inl ⟨msg, hmessages ▸ hmsg, rfl, rfl⟩

/-- A message is registered. -/
theorem registers {new : OutstandingMessage} (id : ℕ)
    (hanswers : s'.callbackResponses = s.callbackResponses)
    (hmessages : s'.outstandingMessages = s.outstandingMessages.insert id new)
    (hnew : new.messageType.callback? = none ∨
      ∃ message ∈ message?, new.messageType.callback? = some message.callback ∧
        ∀ write ∈ new.messageType.write?, AppendsWrite message write.2 s s') :
    Accounts message? s s' where
  answers answer hanswer := Or.inl (hanswers ▸ hanswer)
  waits id' msg hmsg := by
    rw [hmessages] at hmsg
    by_cases hid : id' = id
    · rw [hid, AList.lookup_insert] at hmsg
      obtain rfl := Option.some.inj hmsg
      exact Or.inr hnew
    · rw [AList.lookup_insert_ne hid] at hmsg
      exact Or.inl ⟨msg, hmsg, rfl, rfl⟩

/-- An outstanding message is taken out, and its callback may be answered. -/
theorem takes {msg : OutstandingMessage} {id : ℕ}
    (hmsg : s.outstandingMessages.lookup id = some msg)
    (hmessages : s'.outstandingMessages = s.outstandingMessages.erase id)
    (hanswers : s'.callbackResponses = s.callbackResponses ∨ ∃ callback payload,
      s'.callbackResponses = s.callbackResponses ++ [(callback, payload)] ∧
      msg.messageType.callback? = some callback ∧
      payload.isWritten = msg.messageType.write?.isSome ∧
      ∀ write ∈ msg.messageType.write?, write.2 ≤ s'.commitIndex) : Accounts message? s s' where
  answers answer hanswer := by
    rcases hanswers with heq | ⟨callback, payload, heq, hanswers⟩
    · exact Or.inl (heq ▸ hanswer)
    · rcases List.mem_append.mp (heq ▸ hanswer) with hold | hnew
      · exact Or.inl hold
      · obtain rfl := List.mem_singleton.mp hnew
        exact Or.inr (Or.inr ⟨id, msg, hmsg, hanswers⟩)
  waits id' other hother := Or.inl ⟨other, (HashMap.lookup_of_erase (hmessages ▸ hother)).2, rfl, rfl⟩

/-! ### The handlers -/

/-- An AppendEntries request, in any role. -/
theorem receives {role : RaftNodeType} {request : LocalAppendEntries}
    (h : Receives role request message.callback s s') : Accounts (some message) s s' := by
  cases h with
  | unrecognised => exact refuses rfl rfl rfl
  | mismatched hheeds | acknowledged hheeds =>
    have hunchanged := hheeds.unchanged.1.2.2.2
    exact refuses rfl (by simp [hunchanged]; rfl) (by simp [hunchanged])
  | adopted => exact refuses rfl (by simp; rfl) (by simp)
  | unstored _ hheeds =>
    have hunchanged := hheeds.unchanged.1.2.2.2
    exact refuses rfl (by simp [hunchanged]; rfl) (by simp [hunchanged])
  | stored _ hheeds =>
    have hunchanged := hheeds.unchanged.1.2.2.2
    refine registers s.nextMessageId (by simp [hunchanged])
      ((Follower.store_fields ..).2.2.2.2.1.trans (by simp [hunchanged]; rfl))
      (Or.inr ⟨message, rfl, rfl, fun _ hwrite => ?_⟩)
    cases hwrite

/-- A vote request, in any role. -/
theorem asked {role : RaftNodeType} {request : LocalRequestVoteRequest}
    (h : Asked role request message.callback s s') : Accounts (some message) s s' := by
  cases h with
  | registered | cast => exact registers _ rfl rfl (Or.inr ⟨message, rfl, rfl, nofun⟩)
  | refused => exact refuses rfl rfl rfl

/-- A write at a leader. -/
theorem writeBatch (clock : Clock) (hpayload : message.payload = .writeBatch batch) :
    Accounts (some message) s (Leader.writeBatch clock batch message.callback s) := by
  rcases Leader.writeBatch_cases clock batch message.callback s with
    ⟨-, heq⟩ | ⟨-, -, heq⟩ | ⟨-, -, heq⟩ <;> rw [heq]
  · exact refuses rfl rfl rfl
  · refine registers s.nextMessageId (by simp) (Leader.appendOwn_fields ..).2.2.2.2.2.2.2
      (Or.inr ⟨message, rfl, rfl, fun write hwrite => ?_⟩)
    obtain rfl := Option.some.inj hwrite
    exact ⟨batch, _, hpayload, (Leader.appendOwn_fields ..).2.2.2.2.1, rfl, rfl⟩
  · exact refuses rfl rfl rfl

/-- **A request is accepted.** -/
theorem accept (clock : Clock) (message : LocalRaftMessage) (sm : StateMachine) :
    Accounts (some message) sm.shared (sm.accept clock message).shared := by
  unfold StateMachine.accept
  split
  · exact asked (asked_acceptRequestVote ..)
  · exact receives (receives_acceptAppendEntries ..)
  · exact refuses rfl rfl rfl
  · next batch hpayload =>
    unfold StateMachine.acceptWriteBatch
    split
    · exact writeBatch clock hpayload
    · exact refuses rfl rfl rfl

/-- **A reply**, in any role. -/
theorem settles {role : RaftNodeType} {reply : Reply} {id : ℕ}
    (h : Settles role reply id s s') : Accounts message? s s' := by
  cases h with
  | missing => exact of_eq rfl rfl
  | @counted poll r r' hpoll =>
    obtain ⟨-, number, hmsg⟩ := hpoll
    refine ⟨fun _ hanswer => Or.inl hanswer, fun id' msg hlookup => Or.inl ?_⟩
    change ((s.outstandingMessages.erase id).insert id _).lookup id' = some msg at hlookup
    by_cases hid : id' = id
    · rw [hid, AList.lookup_insert] at hlookup
      obtain rfl := Option.some.inj hlookup
      refine ⟨_, hid ▸ hmsg, ?_, ?_⟩ <;> rcases poll with _ | ⟨_ | _, _⟩ <;> rfl
    · rw [AList.lookup_insert_ne hid] at hlookup
      exact ⟨msg, (HashMap.lookup_of_erase hlookup).2, rfl, rfl⟩
  | elected hpoll =>
    obtain ⟨-, number, hmsg⟩ := hpoll
    exact takes hmsg rfl (Or.inl rfl)
  | @completed callback index r hpoll =>
    obtain ⟨-, number, hmsg⟩ := hpoll
    cases callback with
    | none => exact takes hmsg (by simp) (Or.inl (by simp [Leader.complete, Leader.completeNoop]))
    | some callback =>
      refine takes hmsg (by simp) (Or.inr ⟨callback, .writeBatch ⟨.empty, none⟩, ?_, rfl, rfl, ?_⟩)
      · simp [Leader.complete, Leader.completeWriteBatch]
      · intro write hwrite
        obtain rfl := Option.some.inj hwrite
        show index ≤ (Leader.advanceCommitIndex index _).commitIndex
        rw [Leader.commitIndex_advanceCommitIndex]
        exact le_max_right ..
  | stored _ _ hmsg htype | granted _ hmsg htype =>
    exact takes hmsg rfl (Or.inr ⟨_, _, rfl, by rw [htype]; rfl, by rw [htype]; rfl,
      fun write hwrite => by rw [htype] at hwrite; cases hwrite⟩)
  | passed _ hmsg htype =>
    refine takes hmsg rfl (Or.inr ⟨_, _, rfl, ?_⟩)
    rcases htype with htype | htype <;>
      exact ⟨by rw [htype]; rfl, by rw [htype]; rfl, fun _ hw => by rw [htype] at hw; cases hw⟩
  | dropped hmsg => exact takes hmsg rfl (Or.inl rfl)

/-- **A part of `time_step`.** -/
theorem runPart (clock : Clock) (part : StateMachine.TimeStepPart) (sm : StateMachine) :
    Accounts none sm.shared (sm.runPart clock part).shared := by
  have hturns := turns_runPart clock part sm
  generalize (sm.runPart clock part).shared = s' at hturns ⊢
  cases hturns with
  | office =>
    rw [Leader.initializeLeadership_eq]
    exact registers _ (by simp) ((Leader.appendOwn_fields ..).2.2.2.2.2.2.2.trans (by simp; rfl))
      (Or.inl rfl)
  | settled _ _ _ h =>
    have haccounts : Accounts none _ _ := settles h
    exact ⟨haccounts.answers, haccounts.waits⟩
  | stood => exact registers _ (by simp) (by simp; rfl) (Or.inl rfl)
  | _ => exact of_eq (by simp) (by simp)

end Accounts

/-- The request that an event brings. -/
def NodeEvent.message? : NodeEvent → Option LocalRaftMessage
  | .accept _ message => some message
  | _ => none

/-- **An event of a node.** -/
theorem accounts_step [Capnp] (n : Node) (e : NodeEvent) :
    Accounts e.message? n.shared (n.step e).shared := by
  cases e with
  | accept clock message => exact .accept clock message n.machine
  | timeStep clock part => exact .runPart clock part n.machine
  | respond response => exact .of_eq rfl rfl
  | processTask =>
    obtain ⟨_, _, _, heq⟩ := Node.serves_processTask n
    exact .of_eq (congrArg (·.shared.callbackResponses) heq)
      (congrArg (·.shared.outstandingMessages) heq)
  | flush =>
    obtain ⟨_, _, _, heq⟩ := Node.serves_flush n
    exact .of_eq (congrArg (·.shared.callbackResponses) heq)
      (congrArg (·.shared.outstandingMessages) heq)
  | restart clock written accepts => exact ⟨nofun, nofun⟩

/-- No callback of the request is used but for the success of a write. -/
structure OnlyWritten (callback : Callback) (s : SharedState) : Prop where
  answers : ∀ answer ∈ s.callbackResponses, answer.1 = callback → answer.2.isWritten = true
  waits : ∀ id msg, s.outstandingMessages.lookup id = some msg →
    msg.messageType.callback? = some callback → msg.messageType.write?.isSome = true

/-- A callback that was never used. -/
structure FreshCallback (callback : Callback) (s : SharedState) : Prop where
  answers : ∀ answer ∈ s.callbackResponses, answer.1 ≠ callback
  waits : ∀ id msg, s.outstandingMessages.lookup id = some msg →
    msg.messageType.callback? ≠ some callback

/-- An event that brings no other request with the callback. -/
theorem OnlyWritten.step [Capnp] {n : Node} {e : NodeEvent} (h : OnlyWritten callback n.shared)
    (hother : ∀ clock message, e = .accept clock message → message.callback ≠ callback) :
    OnlyWritten callback (n.step e).shared := by
  have hmessage : ∀ message ∈ e.message?, message.callback ≠ callback := by
    intro message hmessage
    cases e with
    | accept clock => exact hother clock message (by rw [Option.some.inj hmessage])
    | _ => cases hmessage
  obtain ⟨hanswers, hwaits⟩ := accounts_step n e
  refine ⟨fun answer hanswer heq => ?_, fun id msg hmsg heq => ?_⟩
  · rcases hanswers answer hanswer with hold | ⟨message, hmem, hcallback, -⟩ |
      ⟨id, msg, hmsg, hcallback, hwritten, -⟩
    · exact h.answers answer hold heq
    · exact absurd (hcallback.symm.trans heq) (hmessage message hmem)
    · rw [hwritten]
      exact h.waits id msg hmsg (heq ▸ hcallback)
  · rcases hwaits id msg hmsg with ⟨old, hold, hcallback, hwrite⟩ | hnone |
      ⟨message, hmem, hcallback, -⟩
    · rw [hwrite]
      exact h.waits id old hold (hcallback ▸ heq)
    · rw [hnone] at heq
      cases heq
    · exact absurd (Option.some.inj (hcallback.symm.trans heq)) (hmessage message hmem)

/-! ## When a client's success is sound -/

/-- The state machine takes the batch: it leads, the batch is not empty, and the
persistence worker is there. -/
def StateMachine.TakesBatch (sm : StateMachine) (batch : OwnedWriteBatch) : Prop :=
  sm.delegate.nodeType = .leader ∧ batch.requests ≠ [] ∧ sm.shared.persistenceOpen = true

/-- A batch that is taken waits for its acknowledgements. -/
theorem StateMachine.onlyWritten_of_takesBatch {sm : StateMachine} (clock : Clock)
    (hfresh : FreshCallback callback sm.shared) (htakes : sm.TakesBatch batch) :
    OnlyWritten callback (sm.acceptWriteBatch clock batch callback).shared := by
  obtain ⟨hleader, hbatch, hopen⟩ := htakes
  unfold StateMachine.acceptWriteBatch
  split
  · rcases Leader.writeBatch_cases clock batch callback sm.shared with
      ⟨hempty, -⟩ | ⟨-, -, heq⟩ | ⟨-, hclosed, -⟩
    · exact absurd hempty hbatch
    · dsimp only
      rw [heq]
      refine ⟨fun answer hanswer hcallback => ?_, fun id msg hmsg hcallback => ?_⟩
      · exact absurd hcallback (hfresh.answers answer (by simpa using hanswer))
      · rw [(Leader.appendOwn_fields ..).2.2.2.2.2.2.2] at hmsg
        by_cases hid : id = sm.shared.nextMessageId
        · rw [hid, AList.lookup_insert] at hmsg
          obtain rfl := Option.some.inj hmsg
          rfl
        · rw [AList.lookup_insert_ne hid] at hmsg
          exact absurd hcallback (hfresh.waits id msg hmsg)
    · simp [hopen] at hclosed
  · next hnot =>
    cases hdelegate : sm.delegate with
    | leader initialized => exact absurd hdelegate (hnot initialized)
    | _ => simp [hdelegate] at hleader

/-- A batch that is not taken is refused at once. -/
theorem StateMachine.refused_of_not_takesBatch {sm : StateMachine} (clock : Clock)
    (callback : Callback) (hrefuses : ¬ sm.TakesBatch batch) :
    ∃ error, (callback, .writeBatch ⟨.empty, some error⟩) ∈
      (sm.acceptWriteBatch clock batch callback).shared.callbackResponses := by
  unfold StateMachine.acceptWriteBatch
  split
  · next initialized hleader =>
    rcases Leader.writeBatch_cases clock batch callback sm.shared with
      ⟨-, heq⟩ | ⟨hbatch, hopen, -⟩ | ⟨-, -, heq⟩
    · exact ⟨"Empty write batch request", by simp [heq]⟩
    · exact absurd ⟨by simp [hleader], hbatch, hopen⟩ hrefuses
    · exact ⟨"Failed to queue persistence task", by simp [heq]⟩
  · exact ⟨"Received write batch as non-leader", by simp⟩

/-- Whatever happens after the node is given the combined batch of some clients, and
whatever answer to it is then received: a client is told `Ok` only if that answer is a
success. -/
def ClientSuccessSound [Capnp] (n : Node) (clock : Clock) (callback : Callback)
    (utf8Lossy : List UInt8 → List UInt8) {batchId : String} (route : Route batchId)
    (batches : List WriteBatch) : Prop :=
  let prepared := prepareBatchAndCallbacks batchId batches
  let given := n.step
    (.accept clock ⟨.writeBatch (route.handOver utf8Lossy prepared.1), callback⟩)
  ∀ (events : List NodeEvent) (received : Option LocalRaftResponsePayload),
    (∀ e ∈ events, ∀ clock message, e = .accept clock message → message.callback ≠ callback) →
    (∀ payload ∈ received, (callback, payload) ∈ (given.run events).shared.callbackResponses) →
    ∀ delivery ∈ route.deliver received prepared.2, delivery.2.status = .ok →
      ∃ response, received = some (.writeBatch response) ∧ response.err = none

/-- A refused batch is reported to its clients as a success. -/
theorem not_clientSuccessSound [Capnp] {n : Node} {clock : Clock}
    {utf8Lossy : List UInt8 → List UInt8} {batchId : String} {route : Route batchId}
    {batches : List WriteBatch} (hclients : batches ≠ [])
    (hrefuses : ¬ n.machine.TakesBatch
      (route.handOver utf8Lossy (prepareBatchAndCallbacks batchId batches).1)) :
    ¬ ClientSuccessSound n clock callback utf8Lossy route batches := by
  intro hsound
  obtain ⟨error, herror⟩ := StateMachine.refused_of_not_takesBatch clock callback hrefuses
  obtain ⟨message, hdeliver⟩ := route.deliver_writeBatch ⟨.empty, some error⟩
    (prepareBatchAndCallbacks batchId batches).2
  obtain ⟨entry, hentry⟩ := List.exists_mem_of_ne_nil _
    (prepareBatchAndCallbacks_ne_empty batchId hclients)
  obtain ⟨response, hresponse, hnone⟩ := hsound [] (some (.writeBatch ⟨.empty, some error⟩))
    (by simp) (fun payload hpayload => Option.some.inj hpayload ▸ herror)
    (entry.2, .success ⟨message.responses, entry.1⟩)
    (by rw [hdeliver]; exact List.mem_map.mpr ⟨entry, hentry, rfl⟩) rfl
  injection hresponse with hresponse
  injection hresponse with hresponse
  rw [← hresponse] at hnone
  cases hnone

/-- A batch that is taken is only ever answered with its success. -/
theorem answer_of_takesBatch [Capnp] {n : Node} {clock : Clock} {events : List NodeEvent}
    {response : LocalRaftWriteBatchResponse} (hfresh : FreshCallback callback n.shared)
    (htakes : n.machine.TakesBatch batch)
    (hother : ∀ e ∈ events, ∀ clock message,
      e = .accept clock message → message.callback ≠ callback)
    (hmem : (callback, .writeBatch response) ∈
      ((n.step (.accept clock ⟨.writeBatch batch, callback⟩)).run events).shared.callbackResponses) :
    response.err = none := by
  have hall : Runs.AllSteps Node.step (fun _ e => True ∧ ∀ clock message,
      e = .accept clock message → message.callback ≠ callback)
      (n.step (.accept clock ⟨.writeBatch batch, callback⟩)) events :=
    (Runs.allSteps_true _ events).and_forall_mem hother
  have hend := Runs.AllSteps.invariant (fun n => OnlyWritten callback n.shared)
    (fun n e h he => h.step he.2)
    (StateMachine.onlyWritten_of_takesBatch clock hfresh htakes) hall
  have hwritten := hend.answers _ hmem rfl
  simpa [LocalRaftResponsePayload.isWritten] using hwritten

/-- **When a client's success is sound**: exactly if the state machine takes the combined
batch, unless there is no client. -/
theorem client_success_iff [Capnp] (n : Node) (clock : Clock) (callback : Callback)
    (utf8Lossy : List UInt8 → List UInt8) (batchId : String) (route : Route batchId)
    (batches : List WriteBatch) (hfresh : FreshCallback callback n.shared) :
    ClientSuccessSound n clock callback utf8Lossy route batches ↔
      batches = [] ∨ n.machine.TakesBatch
        (route.handOver utf8Lossy (prepareBatchAndCallbacks batchId batches).1) := by
  constructor
  · intro hsound
    by_contra hnot
    obtain ⟨hclients, hrefuses⟩ := not_or.mp hnot
    exact not_clientSuccessSound hclients hrefuses hsound
  · intro hcond events received hother hreceived delivery hmem hok
    obtain ⟨response, rfl⟩ := Route.writeBatch_of_ok hmem hok
    refine ⟨response, rfl, ?_⟩
    rcases hcond with rfl | htakes
    · -- without clients nothing is delivered
      obtain ⟨message, hdeliver⟩ := route.deliver_writeBatch response
        (prepareBatchAndCallbacks batchId []).2
      rw [hdeliver] at hmem
      cases hmem
    · exact answer_of_takesBatch hfresh htakes hother (hreceived _ rfl)

/-! ## Two writes -/

/-- A client's batch with one command. -/
def clientBatch : WriteBatch := ⟨"client", ⟨"client", [⟨"key", [1], 1⟩]⟩, 7⟩

/-- A write given to the elected leader is reported soundly. -/
theorem client_success_at_leader : letI := sampleCapnp
    ClientSuccessSound (freshNode.run (standForTermOne ++ receiveVote)) ⟨5003, 0⟩ (.proxy 0) id
      (.viaOwn : Route "combined") [clientBatch] :=
  letI := sampleCapnp
  (client_success_iff (freshNode.run (standForTermOne ++ receiveVote)) ⟨5003, 0⟩ (.proxy 0) id "combined" .viaOwn
    [clientBatch] ⟨by decide, fun _ _ hmsg => by cases hmsg⟩).mpr
    (Or.inr ⟨by decide, by decide, by decide⟩)

/-- The worker of node 2 for node 1, waiting for the answer to a forwarded batch. -/
def waitingWorker : QuorumWorker :=
  ((QuorumWorker.new 2 1).processTask id 0 (.writeBatch "combined" ⟨"combined", []⟩ 0)).1

/-- **A refused write is reported as a success**: node 2 still takes node 1 for the leader
and forwards a batch to it, but node 1 has been restarted and refuses. -/
theorem refused_write_told_ok : ¬ ∀ (_ : Capnp) (events : List NodeEvent) (clock : Clock)
    (callback : Callback) (utf8Lossy : List UInt8 → List UInt8) (batchId : String)
    (route : Route batchId) (batches : List WriteBatch),
    FreshCallback callback (freshNode.run events).shared →
      ClientSuccessSound (freshNode.run events) clock callback utf8Lossy route batches := by
  intro h
  let _ := sampleCapnp
  have hsound := h sampleCapnp
    (standForTermOne ++ receiveVote ++ [.restart ⟨5003, 0⟩ 0 (fun _ => true)]) ⟨5004, 0⟩
    (.pending 2 0 (.putBatch "combined")) id "combined"
    (.viaLeader ⟨.new 1 2, waitingWorker, by decide⟩) [clientBatch]
    ⟨by decide, fun _ _ hmsg => by cases hmsg⟩
  refine not_clientSuccessSound (List.cons_ne_nil _ _) ?_ hsound
  rintro ⟨hleader, -⟩
  revert hleader
  decide

end Kraft
