/-
# The candidate role

`raft/candidate.rs`.  A handler that may change the role returns the new state with a
flag: `append_entries` says whether the node becomes a follower, the two response
handlers whether it was elected leader.  `ongoing_election`, which nothing reads, is left
out.
-/
import Kraft.Follower

namespace Kraft

/-- `request_vote` of the candidate and of the leader, which are the same code: the vote
is sent to the disk, remembered in `term_votes`, and answered once it is on disk. -/
def SharedState.voteFor (request : LocalRequestVoteRequest) (callback : Callback)
    (s : SharedState) : SharedState :=
  let s := s.raiseNextTerm request.term
  if shouldAcceptVote request.term request.lastLogTerm request.lastLogIndex s then
    let id := s.nextMessageId
    if s.persistenceOpen then
      let s := s.persist (.appendVote id request.term request.candidateId)
      let s := { s with
        termVotes := s.termVotes.insert request.term request.candidateId
        nextMessageId := id + 1 }
      s.register id 1 (.requestVote callback)
    else s.send callback (.requestVote false)
  else s.send callback (.requestVote false)

@[simp] theorem voteFor_unchanged (request : LocalRequestVoteRequest) (callback : Callback)
    (s : SharedState) :
    (s.SameSetup (s.voteFor request callback) ∧ s.SameLog (s.voteFor request callback)) ∧
    (s.voteFor request callback).currentTerm = s.currentTerm ∧
    (s.voteFor request callback).leaderId = s.leaderId ∧
    (s.voteFor request callback).commitIndex = s.commitIndex ∧
    (s.voteFor request callback).quorumWorkerTasks = s.quorumWorkerTasks := by
  unfold SharedState.voteFor
  dsimp only
  split_ifs <;> simp

namespace Candidate

/-- `RaftCandidateStateDelegate::request_vote`. -/
def requestVote (request : LocalRequestVoteRequest) (callback : Callback) (s : SharedState) :
    SharedState :=
  s.voteFor request callback

/-- `RaftCandidateStateDelegate::append_entries`.  A consecutive request is answered `Ok`
whether or not it carries an entry; the entry is not stored. -/
def appendEntries (request : LocalAppendEntries) (callback : Callback) (s : SharedState) :
    Bool × SharedState :=
  if s.currentTerm ≤ request.term then
    let s := s.recogniseLeader request.term request.leaderId
    if ValidAppendEntries request s then (true, s.answer callback .ok)
    else (true, s.answerWantedPreviousEntry callback)
  else (false, s.answer callback .unrecognizedLeader)

/-! ## The loops of `time_step` -/

/-- The state of a candidate that has won the election of `term`. -/
@[simps] def win (s : SharedState) (term : ℕ) : SharedState :=
  { s with leaderId := s.identity, currentTerm := term }

/-- `VotePersisted`: a vote for a peer is answered, the own vote completes an election
that already has its votes. -/
def handleVotePersisted (id term : ℕ) (s : SharedState) : Bool × SharedState :=
  match s.outstandingMessages.lookup id with
  | some msg =>
    let s := s.removeOutstanding id
    match msg.messageType with
    | .requestVote callback => (false, s.send callback (.requestVote true))
    | .candidateElection _ quorumVotes =>
      if s.quorumSize ≤ quorumVotes then (true, win s term)
      else (false, s.register id (msg.outstandingResponses - 1)
        (.candidateElection true quorumVotes))
    | _ => (false, s)
  | none => (false, s)

/-- The body of the first loop of `time_step`. -/
def handlePersistence (response : PersistenceResponseType) (s : SharedState) :
    Bool × SharedState :=
  match response with
  | .votePersisted id term _ => handleVotePersisted id term s
  | .logPersisted id => (false, Follower.handleLogPersisted id s)

/-- `RequestVoteResponse`: the vote is counted for the election registered under `id`, and
the term of the response becomes the term of a won election. -/
def handleVoteResponse (id term : ℕ) (receivedVote : Bool) (s : SharedState) :
    Bool × SharedState :=
  match s.outstandingMessages.lookup id with
  | some msg =>
    let s := s.removeOutstanding id
    let responses := msg.outstandingResponses - 1
    match msg.messageType with
    | .requestVote callback => (false, s.send callback (.requestVote receivedVote))
    | .candidateElection persistenceDone quorumVotes =>
      let newVotes := if receivedVote then quorumVotes + 1 else quorumVotes
      if s.quorumSize ≤ newVotes ∧ persistenceDone then (true, win s term)
      else if 0 < responses then
        (false, s.register id responses (.candidateElection persistenceDone newVotes))
      else (false, s)
    | .appendLog callback => (false, s.send callback (.requestVote receivedVote))
    | _ => (false, s)
  | none => (false, s)

/-- The body of the second loop of `time_step`. -/
def handleQuorum (response : LocalQuorumTaskResponseType) (s : SharedState) :
    Bool × SharedState :=
  match response with
  | .requestVoteResponse id term receivedVote => handleVoteResponse id term receivedVote s
  | _ => (false, s)

/-! ## Starting an election -/

/-- `timeout_expired`: the timeout has passed, or lies more than an hour ahead. -/
def timeoutExpired (initiateElectionTimeout now : ℕ) : Bool :=
  if now < initiateElectionTimeout then decide (3600000 < initiateElectionTimeout - now) else true

/-- The election `time_step` starts for `next_term`.  That `term_votes` already holds a
vote for that term is only logged. -/
def startElection (s : SharedState) : SharedState :=
  let id := s.nextMessageId
  let term := s.nextTerm
  let s := { s with nextMessageId := id + 1, nextTerm := term + 1 }
  let s := s.pushToQuorum (.requestVote id term s.lastLogTerm s.lastLogIndex)
  let s := if s.persistenceOpen then s.persist (.appendVote id term s.identity) else s
  let s := { s with termVotes := s.termVotes.insert term s.identity }
  s.register id (s.quorumWorkerTasks.length + 1) (.candidateElection false 1)

/-- The next election timeout, 500 to 2999 ms from now. -/
def nextElectionTimeout (clock : Clock) : ℕ := clock.now + (500 + clock.random % 2500)

/-! ## What the functions leave alone -/

/-- The votes that an election in `s` sends to the disk: its own, if the channel is open. -/
abbrev ownVote (s : SharedState) : List PersistenceTaskType :=
  if s.persistenceOpen then [.appendVote s.nextMessageId s.nextTerm s.identity] else []

@[simp] theorem startElection_fields (s : SharedState) :
    ((s.SameSetup (startElection s) ∧ s.SameLog (startElection s) ∧
        s.SameCommit (startElection s)) ∧
      (startElection s).currentTerm = s.currentTerm ∧
      (startElection s).leaderId = s.leaderId ∧
      (startElection s).callbackResponses = s.callbackResponses) ∧
    (startElection s).nextMessageId = s.nextMessageId + 1 ∧
    (startElection s).nextTerm = s.nextTerm + 1 ∧
    (startElection s).termVotes = s.termVotes.insert s.nextTerm s.identity ∧
    (startElection s).persistenceWork = s.persistenceWork ++ ownVote s ∧
    (startElection s).quorumWorkerTasks = s.quorumWorkerTasks.map
      (· ++ [.requestVote s.nextMessageId s.nextTerm s.lastLogTerm s.lastLogIndex]) ∧
    (startElection s).outstandingMessages = s.outstandingMessages.insert s.nextMessageId
      ⟨s.nextMessageId, s.quorumWorkerTasks.length + 1, .candidateElection false 1⟩ := by
  unfold startElection
  dsimp only
  split_ifs <;> simp_all

end Candidate

end Kraft
