/-
# The state machine of one node

`StateMachineExecutorImpl` of `raft_sm.rs`: the role of the node (`Delegate`) over the
shared state, `accept` for one request, and `timeStep`.

`time_step` is a sequence of small parts: a new leader first takes office, then one loop
pops the persistence responses one by one, a second loop the quorum responses, and the
end of the function runs the repairs a leader has noted, the election timer and the
deferred broadcasts.  `TimeStepPart` names these parts, one iteration of a loop being one
part, and `timeStep_eq_parts` says that a whole `time_step` is a run of them.  Results
about runs are proved over the parts, so they also cover the responses that other threads
push while the loops are running.
-/
import Kraft.Leader

namespace Kraft

/-- `RaftNodeType`. -/
inductive RaftNodeType
  | follower
  | candidate
  | leader
  deriving DecidableEq

/-- `state_delegate`: the role with the fields its methods read. -/
inductive Delegate
  | follower (electionTimer : ElectionTimer)
  | candidate (initiateElectionTimeout : ℕ)
  | leader (initialized : Bool)
  deriving DecidableEq

/-- `get_node_type`. -/
@[simp] def Delegate.nodeType : Delegate → RaftNodeType
  | .follower _ => .follower
  | .candidate _ => .candidate
  | .leader _ => .leader

theorem Delegate.nodeType_eq_follower {delegate : Delegate} (h : delegate.nodeType = .follower) :
    ∃ timer, delegate = .follower timer := by
  cases delegate with
  | follower timer => exact ⟨timer, rfl⟩
  | _ => cases h

theorem Delegate.nodeType_eq_leader {delegate : Delegate} (h : delegate.nodeType = .leader) :
    ∃ initialized, delegate = .leader initialized := by
  cases delegate with
  | leader initialized => exact ⟨initialized, rfl⟩
  | _ => cases h

/-- `StateMachineExecutorImpl`.  `backfillRequests` is the local variable in which a
leader's `time_step` collects the repairs to make after its loops. -/
structure StateMachine where
  delegate : Delegate
  shared : SharedState
  backfillRequests : List (ℕ × ℕ × ℕ)

namespace StateMachine

/-- `RaftFollowerStateDelegate::new`. -/
def newFollower (clock : Clock) : Delegate := .follower (.reset clock)

/-- `RaftCandidateStateDelegate::new`. -/
def newCandidate : Delegate := .candidate 0

/-- `RaftLeaderStateDelegate::new`. -/
def newLeader : Delegate := .leader false

/-! ## `accept` -/

/-- Takes over the state a handler returns and becomes a follower if it says so. -/
def followIf (clock : Clock) (sm : StateMachine) (result : Bool × SharedState) : StateMachine :=
  if result.1 then ⟨newFollower clock, result.2, []⟩ else { sm with shared := result.2 }

/-- AppendEntries in the current role. -/
def acceptAppendEntries (clock : Clock) (request : LocalAppendEntries) (callback : Callback)
    (sm : StateMachine) : StateMachine :=
  match sm.delegate with
  | .follower _ =>
    { sm with
      delegate := newFollower clock
      shared := Follower.appendEntries request callback sm.shared }
  | .candidate _ => sm.followIf clock (Candidate.appendEntries request callback sm.shared)
  | .leader _ => sm.followIf clock (Leader.appendEntries request callback sm.shared)

/-- RequestVote in the current role; no role changes on it. -/
def acceptRequestVote (request : LocalRequestVoteRequest) (callback : Callback)
    (sm : StateMachine) : StateMachine :=
  match sm.delegate with
  | .follower _ => { sm with shared := Follower.requestVote request callback sm.shared }
  | .candidate _ => { sm with shared := Candidate.requestVote request callback sm.shared }
  | .leader _ => { sm with shared := Leader.requestVote request callback sm.shared }

/-- WriteBatch: only a leader takes it. -/
def acceptWriteBatch (clock : Clock) (batch : OwnedWriteBatch) (callback : Callback)
    (sm : StateMachine) : StateMachine :=
  match sm.delegate with
  | .leader _ => { sm with shared := Leader.writeBatch clock batch callback sm.shared }
  | _ =>
    { sm with
      shared := sm.shared.send callback
        (.writeBatch ⟨.empty, some "Received write batch as non-leader"⟩) }

/-- `StateMachineExecutorImpl::accept`. -/
def accept (clock : Clock) (message : LocalRaftMessage) (sm : StateMachine) : StateMachine :=
  match message.payload with
  | .requestVote request => sm.acceptRequestVote request message.callback
  | .appendEntries request => sm.acceptAppendEntries clock request message.callback
  | .getRaftState =>
    { sm with shared := sm.shared.send message.callback (.raftState sm.shared.leaderId) }
  | .writeBatch batch => sm.acceptWriteBatch clock batch message.callback

/-! ## The parts of `time_step` -/

/-- Takes over the state a candidate's handler returns and becomes leader if elected. -/
def leadIf (sm : StateMachine) (result : Bool × SharedState) : StateMachine :=
  if result.1 then ⟨newLeader, result.2, []⟩ else { sm with shared := result.2 }

theorem shared_leadIf (sm : StateMachine) (result : Bool × SharedState) :
    (sm.leadIf result).shared = result.2 := by
  unfold leadIf
  split_ifs <;> rfl

/-- A leader that has not yet taken office does so. -/
def takeOffice (clock : Clock) (sm : StateMachine) : StateMachine :=
  match sm.delegate with
  | .leader false =>
    { sm with delegate := .leader true, shared := Leader.initializeLeadership clock sm.shared }
  | _ => sm

/-- One persistence response, in the current role. -/
def handlePersistence (response : PersistenceResponseType) (sm : StateMachine) : StateMachine :=
  match sm.delegate with
  | .follower _ => { sm with shared := Follower.handlePersistence response sm.shared }
  | .candidate _ => sm.leadIf (Candidate.handlePersistence response sm.shared)
  | .leader _ => { sm with shared := Leader.handlePersistence response sm.shared }

/-- One quorum response, in the current role; a leader notes a backfill request. -/
def handleQuorum (response : LocalQuorumTaskResponseType) (sm : StateMachine) : StateMachine :=
  match sm.delegate with
  | .follower _ => { sm with shared := Follower.handleQuorum response sm.shared }
  | .candidate _ => sm.leadIf (Candidate.handleQuorum response sm.shared)
  | .leader _ =>
    { sm with
      shared := Leader.handleQuorum response sm.shared
      backfillRequests := match response with
        | .backfillLog node term index => sm.backfillRequests ++ [(node, term, index)]
        | _ => sm.backfillRequests }

/-- Whether the loops of `time_step` run: a leader takes office first. -/
def ready (sm : StateMachine) : Bool :=
  match sm.delegate with
  | .leader false => false
  | _ => true

/-- One iteration of `while let Some(task) = persistence_response.pop()`. -/
def popPersistence (sm : StateMachine) : StateMachine :=
  match sm.shared.persistenceResponse with
  | response :: rest =>
    if sm.ready then
      { sm with
        shared := { sm.shared with persistenceResponse := rest } }.handlePersistence response
    else sm
  | [] => sm

/-- One iteration of `while let Some(task) = quorum_response.pop()`. -/
def popQuorum (sm : StateMachine) : StateMachine :=
  match sm.shared.quorumResponse with
  | response :: rest =>
    if sm.ready then
      { sm with shared := { sm.shared with quorumResponse := rest } }.handleQuorum response
    else sm
  | [] => sm

/-- The state machine with the first persistence response taken from the queue. -/
abbrev dropPersistence (sm : StateMachine) (rest : List PersistenceResponseType) : StateMachine :=
  { sm with shared := { sm.shared with persistenceResponse := rest } }

/-- The state machine with the first quorum response taken from the queue. -/
abbrev dropQuorum (sm : StateMachine) (rest : List LocalQuorumTaskResponseType) : StateMachine :=
  { sm with shared := { sm.shared with quorumResponse := rest } }

/-- One iteration of the first loop. -/
theorem popPersistence_cases (sm : StateMachine) :
    sm.popPersistence = sm ∨ ∃ response rest,
      sm.shared.persistenceResponse = response :: rest ∧
        sm.popPersistence = (sm.dropPersistence rest).handlePersistence response := by
  rcases hqueue : sm.shared.persistenceResponse with _ | ⟨response, rest⟩
  · left
    unfold popPersistence
    rw [hqueue]
  · by_cases hready : sm.ready = true
    · refine Or.inr ⟨response, rest, rfl, ?_⟩
      unfold popPersistence
      simp [hqueue, hready]
    · left
      unfold popPersistence
      simp [hqueue, hready]

/-- One iteration of the second loop. -/
theorem popQuorum_cases (sm : StateMachine) :
    sm.popQuorum = sm ∨ ∃ response rest,
      sm.shared.quorumResponse = response :: rest ∧
        sm.popQuorum = (sm.dropQuorum rest).handleQuorum response := by
  rcases hqueue : sm.shared.quorumResponse with _ | ⟨response, rest⟩
  · left
    unfold popQuorum
    rw [hqueue]
  · by_cases hready : sm.ready = true
    · refine Or.inr ⟨response, rest, rfl, ?_⟩
      unfold popQuorum
      simp [hqueue, hready]
    · left
      unfold popQuorum
      simp [hqueue, hready]

/-- `handle_backfill_request` for every request the loop has collected. -/
def handleBackfillRequests (requests : List (ℕ × ℕ × ℕ)) (s : SharedState) : SharedState :=
  requests.foldl (fun s r => Leader.handleBackfillRequest r.1 r.2.1 r.2.2 s) s

@[simp] theorem handleBackfillRequests_unchanged (requests : List (ℕ × ℕ × ℕ))
    (s : SharedState) :
    Leader.SameButRepairs s (handleBackfillRequests requests s) := by
  induction requests generalizing s with
  | nil => simp [handleBackfillRequests]
  | cons r rest ih =>
    have hrest := ih (Leader.handleBackfillRequest r.1 r.2.1 r.2.2 s)
    simpa [handleBackfillRequests] using hrest

theorem nextMessageId_le_handleBackfillRequests (requests : List (ℕ × ℕ × ℕ)) :
    ∀ s : SharedState, s.nextMessageId ≤ (handleBackfillRequests requests s).nextMessageId := by
  induction requests with
  | nil => exact fun s => le_rfl
  | cons r rest ih =>
    exact fun s => Nat.le_trans (Leader.nextMessageId_le_handleBackfillRequest _ _ _ s) (ih _)

/-- What follows the two loops. -/
def finish (clock : Clock) (sm : StateMachine) : StateMachine :=
  match sm.delegate with
  | .follower timer =>
    { sm with
      delegate := if timer.expired clock then newCandidate else .follower timer
      shared := sm.shared.retryDeferredBroadcast }
  | .candidate timeout =>
    if Candidate.timeoutExpired timeout clock.now then
      { sm with
        delegate := .candidate (Candidate.nextElectionTimeout clock)
        shared := (Candidate.startElection sm.shared).retryDeferredBroadcast }
    else { sm with shared := sm.shared.retryDeferredBroadcast }
  | .leader true =>
    { sm with
      shared := (handleBackfillRequests sm.backfillRequests sm.shared).retryDeferredBroadcast
      backfillRequests := [] }
  | .leader false => sm

/-- The parts `time_step` is made of. -/
inductive TimeStepPart
  | takeOffice
  | popPersistence
  | popQuorum
  | finish
  deriving DecidableEq

/-- Runs one part. -/
def runPart (clock : Clock) (sm : StateMachine) : TimeStepPart → StateMachine
  | .takeOffice => sm.takeOffice clock
  | .popPersistence => sm.popPersistence
  | .popQuorum => sm.popQuorum
  | .finish => sm.finish clock

/-- Whether a part starts an election: the end of a candidate's `time_step`, after its
timeout. -/
def startsElection (sm : StateMachine) (clock : Clock) (part : TimeStepPart) : Bool :=
  match sm.delegate, part with
  | .candidate timeout, .finish => Candidate.timeoutExpired timeout clock.now
  | _, _ => false

/-- Only the end of `time_step` starts one. -/
theorem startsElection_of_ne {part : TimeStepPart} (hpart : part ≠ .finish) (clock : Clock)
    (sm : StateMachine) : sm.startsElection clock part = false := by
  unfold startsElection
  split
  · exact absurd rfl hpart
  · rfl

/-- Only a candidate starts one. -/
theorem startsElection_of_role (sm : StateMachine) (hrole : sm.delegate.nodeType ≠ .candidate)
    (clock : Clock) (part : TimeStepPart) : sm.startsElection clock part = false := by
  unfold startsElection
  split
  · next hdelegate => exact absurd (by rw [hdelegate]; rfl) hrole
  · rfl

/-- The election registered under a message id: whether the own vote is on disk, and the
votes counted. -/
def electionOf (messages : HashMap OutstandingMessage) (id : ℕ) : Option (Bool × ℕ) :=
  match messages.lookup id with
  | some ⟨_, _, .candidateElection persistenceDone quorumVotes⟩ =>
    some (persistenceDone, quorumVotes)
  | _ => none

/-- The record of an election. -/
theorem lookup_of_electionOf {messages : HashMap OutstandingMessage} {id : ℕ} {tally : Bool × ℕ}
    (h : electionOf messages id = some tally) :
    ∃ msg, messages.lookup id = some msg ∧
      msg.messageType = .candidateElection tally.1 tally.2 := by
  unfold electionOf at h
  split at h
  · next hlookup =>
    obtain rfl := Option.some.inj h
    exact ⟨_, hlookup, rfl⟩
  · cases h

/-- The term of the election that the next response in a queue completes, if the node is a
candidate and the response completes one: the own vote reaches the disk with enough votes
counted, or the last missing vote arrives with the own vote on disk. -/
def completedElection (sm : StateMachine) (part : TimeStepPart) : Option ℕ :=
  match sm.delegate, part with
  | .candidate _, .popPersistence =>
    match sm.shared.persistenceResponse with
    | .votePersisted id term _ :: _ =>
      match electionOf sm.shared.outstandingMessages id with
      | some (_, votes) => if sm.shared.quorumSize ≤ votes then some term else none
      | none => none
    | _ => none
  | .candidate _, .popQuorum =>
    match sm.shared.quorumResponse with
    | .requestVoteResponse id term receivedVote :: _ =>
      match electionOf sm.shared.outstandingMessages id with
      | some (persistenceDone, votes) =>
        if sm.shared.quorumSize ≤ (if receivedVote then votes + 1 else votes) ∧ persistenceDone
        then some term else none
      | none => none
    | _ => none
  | _, _ => none

/-! ## `time_step` -/

/-- The first loop, for at most `n` responses; the flag says that the node was elected and
`time_step` returns at once. -/
def persistenceLoop : ℕ → StateMachine → Bool × StateMachine
  | 0, sm => (false, sm)
  | n + 1, sm =>
    let next := sm.popPersistence
    if sm.delegate.nodeType = .candidate ∧ next.delegate.nodeType = .leader then (true, next)
    else persistenceLoop n next

/-- The second loop. -/
def quorumLoop : ℕ → StateMachine → Bool × StateMachine
  | 0, sm => (false, sm)
  | n + 1, sm =>
    let next := sm.popQuorum
    if sm.delegate.nodeType = .candidate ∧ next.delegate.nodeType = .leader then (true, next)
    else quorumLoop n next

/-- `StateMachineExecutorImpl::time_step` on the responses waiting when it is called. -/
def timeStep (clock : Clock) (sm : StateMachine) : StateMachine :=
  let sm := sm.takeOffice clock
  match persistenceLoop sm.shared.persistenceResponse.length sm with
  | (true, sm) => sm
  | (false, sm) =>
    match quorumLoop sm.shared.quorumResponse.length sm with
    | (true, sm) => sm
    | (false, sm) => sm.finish clock

/-- Runs a list of parts. -/
def runParts (clock : Clock) (parts : List TimeStepPart) (sm : StateMachine) : StateMachine :=
  parts.foldl (runPart clock) sm

theorem runParts_append (clock : Clock) (parts₁ parts₂ : List TimeStepPart) (sm : StateMachine) :
    runParts clock (parts₁ ++ parts₂) sm = runParts clock parts₂ (runParts clock parts₁ sm) :=
  List.foldl_append

/-- The first loop is a sequence of parts, -/
theorem persistenceLoop_eq_parts (clock : Clock) (n : ℕ) : ∀ sm : StateMachine,
    ∃ parts, (persistenceLoop n sm).2 = runParts clock parts sm := by
  induction n with
  | zero => exact fun sm => ⟨[], rfl⟩
  | succ n ih =>
    intro sm
    unfold persistenceLoop
    dsimp only
    split_ifs
    · exact ⟨[.popPersistence], rfl⟩
    · obtain ⟨parts, h⟩ := ih sm.popPersistence
      exact ⟨.popPersistence :: parts, h⟩

/-- and so is the second. -/
theorem quorumLoop_eq_parts (clock : Clock) (n : ℕ) : ∀ sm : StateMachine,
    ∃ parts, (quorumLoop n sm).2 = runParts clock parts sm := by
  induction n with
  | zero => exact fun sm => ⟨[], rfl⟩
  | succ n ih =>
    intro sm
    unfold quorumLoop
    dsimp only
    split_ifs
    · exact ⟨[.popQuorum], rfl⟩
    · obtain ⟨parts, h⟩ := ih sm.popQuorum
      exact ⟨.popQuorum :: parts, h⟩

/-- **A `time_step` is a run of its parts.** -/
theorem timeStep_eq_parts (clock : Clock) (sm : StateMachine) :
    ∃ parts, timeStep clock sm = runParts clock parts sm := by
  unfold timeStep
  dsimp only
  obtain ⟨parts₁, h₁⟩ := persistenceLoop_eq_parts clock
    (sm.takeOffice clock).shared.persistenceResponse.length (sm.takeOffice clock)
  split
  · next heq =>
    rw [heq] at h₁
    exact ⟨.takeOffice :: parts₁, h₁⟩
  · next sm₁ heq =>
    rw [heq] at h₁
    obtain ⟨parts₂, h₂⟩ := quorumLoop_eq_parts clock sm₁.shared.quorumResponse.length sm₁
    dsimp only at h₁
    split
    · next heq₂ =>
      rw [heq₂] at h₂
      refine ⟨.takeOffice :: (parts₁ ++ parts₂), ?_⟩
      show _ = runParts clock (parts₁ ++ parts₂) (sm.takeOffice clock)
      rw [runParts_append, ← h₁]
      exact h₂
    · next heq₂ =>
      rw [heq₂] at h₂
      refine ⟨.takeOffice :: (parts₁ ++ (parts₂ ++ [.finish])), ?_⟩
      show _ = runParts clock (parts₁ ++ (parts₂ ++ [.finish])) (sm.takeOffice clock)
      rw [runParts_append, runParts_append, ← h₁, ← h₂]
      rfl

end StateMachine

end Kraft
