/-
# The follower role

`raft/follower/`: handling of AppendEntries and vote requests, of persistence and
quorum responses, and the election timer.  The vote check `should_accept_vote` and the
consistency check `validate_append_entries`, which all roles share, are here as well.

Every function takes the shared state and returns the new one; an answer to a request is
a value added to `callbackResponses`.  `Clock` is what a function reads from outside:
the time and one random number.
-/
import Kraft.SharedState

namespace Kraft

/-- The wall clock and the random source at the moment a function runs. -/
structure Clock where
  now : ℕ
  random : ℕ

/-! ## Checks shared by the roles -/

/-- `should_accept_vote`; the candidate's `last_log_term` is an argument the source
never reads. -/
def shouldAcceptVote (term _lastLogTerm lastLogIndex : ℕ) (s : SharedState) : Bool :=
  if (s.termVotes.lookup term).isSome then false
  else if term ≤ s.currentTerm then false
  else if lastLogIndex < s.lastLogIndex then false
  else true

/-- `validate_append_entries`: the request continues the log as the cached end of log
describes it. -/
def ValidAppendEntries (request : LocalAppendEntries) (s : SharedState) : Prop :=
  request.prevIndex = s.lastLogIndex ∧ request.prevTerm = s.lastLogTerm

instance (request : LocalAppendEntries) (s : SharedState) :
    Decidable (ValidAppendEntries request s) :=
  inferInstanceAs (Decidable (_ ∧ _))

/-- First lines of every `request_vote`: `next_term` moves past the requested term. -/
def SharedState.raiseNextTerm (s : SharedState) (term : ℕ) : SharedState :=
  if s.nextTerm ≤ term then { s with nextTerm := term + 1 } else s

@[simp] theorem raiseNextTerm_unchanged (s : SharedState) (term : ℕ) :
    (s.SameSetup (s.raiseNextTerm term) ∧ s.SameLog (s.raiseNextTerm term) ∧
      s.SameTasks (s.raiseNextTerm term)) ∧
    (s.raiseNextTerm term).currentTerm = s.currentTerm ∧
    (s.raiseNextTerm term).leaderId = s.leaderId ∧
    (s.raiseNextTerm term).commitIndex = s.commitIndex ∧
    (s.raiseNextTerm term).callbackResponses = s.callbackResponses ∧
    (s.raiseNextTerm term).termVotes = s.termVotes ∧
    (s.raiseNextTerm term).outstandingMessages = s.outstandingMessages := by
  unfold SharedState.raiseNextTerm
  split_ifs <;> simp

/-! ## The election timer -/

/-- `ElectionTimer`. -/
structure ElectionTimer where
  electionTimeout : ℕ
  deriving DecidableEq

/-- `ElectionTimer::new` and `ElectionTimer::reset`: 600 to 1299 ms from now. -/
def ElectionTimer.reset (clock : Clock) : ElectionTimer :=
  ⟨clock.now + (600 + clock.random % 700)⟩

/-- `ElectionTimer::check_timeout`. -/
def ElectionTimer.expired (timer : ElectionTimer) (clock : Clock) : Bool :=
  decide (timer.electionTimeout < clock.now)

namespace Follower

/-! ## AppendEntries -/

/-- `update_commit_index`. -/
def updateCommitIndex (s : SharedState) (newCommitIndex : ℕ) : SharedState :=
  (s.storeCommitIndex newCommitIndex).broadcastCommittedEntries newCommitIndex

/-- First half of `apply_log_entry`: the cached end of log moves to the entry of the
request before the entry is looked at. -/
def cacheEntry (s : SharedState) (entry : LogEntry) : SharedState :=
  { s with
    lastLogIndex := entry.index
    lastLogTerm := entry.term
    replicationLogTermStarts :=
      if entry.prevLogTerm ≠ entry.term then
        s.replicationLogTermStarts.insert entry.term s.replicationLog.length
      else s.replicationLogTermStarts }

/-- Second half of `apply_log_entry`: the entry is validated, queued for the disk and
appended. -/
def storeEntry (id : ℕ) (data : EntryData) (request : LocalAppendEntries) (callback : Callback)
    (s : SharedState) : SharedState :=
  match OwnedLogEntry.fromBytes data with
  | none => s.answerWantedPreviousEntry callback
  | some owned =>
    if s.persistenceOpen then
      let s := s.persist (.appendLog id data request.requestId)
      let s := { s with replicationLog := s.replicationLog ++ [owned] }
      let s := if s.commitIndex < request.commitIndex then
        updateCommitIndex s request.commitIndex else s
      s.register id 1 (.appendLog callback)
    else s.answerWantedPreviousEntry callback

/-- `apply_log_entry`; a request without an entry has empty data. -/
def applyLogEntry (request : LocalAppendEntries) (callback : Callback) (s : SharedState) :
    SharedState :=
  let id := s.nextMessageId
  let s := { s with nextMessageId := id + 1 }
  match request.entry with
  | some entry => storeEntry id entry.data request callback (cacheEntry s entry)
  | none => storeEntry id (.malformed []) request callback s

/-- `handle_new_leader`. -/
def handleNewLeader (request : LocalAppendEntries) (callback : Callback) (s : SharedState) :
    SharedState :=
  let s := s.recogniseLeader request.term request.leaderId
  if ValidAppendEntries request s then
    if request.entry.isSome then applyLogEntry request callback s
    else s.answer callback .ok
  else s.answerWantedPreviousEntry callback

/-- `handle_heartbeat`. -/
def handleHeartbeat (request : LocalAppendEntries) (callback : Callback) (s : SharedState) :
    SharedState :=
  if ValidAppendEntries request s then
    let s := if s.commitIndex < request.commitIndex ∨ s.currentTerm ≠ request.term then
      updateCommitIndex s request.commitIndex else s
    s.answer callback .ok
  else s.answerWantedPreviousEntry callback

/-- `RaftFollowerStateDelegate::append_entries`.  Every path resets the election
timer. -/
def appendEntries (request : LocalAppendEntries) (callback : Callback) (s : SharedState) :
    SharedState :=
  if s.currentTerm < request.term then handleNewLeader request callback s
  else if request.leaderId = s.leaderId then
    if request.requestId = 0 then handleHeartbeat request callback s
    else if ValidAppendEntries request s then applyLogEntry request callback s
    else s.answerWantedPreviousEntry callback
  else s.answer callback .unrecognizedLeader

/-! ## Vote requests -/

/-- `RaftFollowerStateDelegate::request_vote`: an accepted request is registered, but no
vote is recorded and none is sent to the disk. -/
def requestVote (request : LocalRequestVoteRequest) (callback : Callback) (s : SharedState) :
    SharedState :=
  let s := s.raiseNextTerm request.term
  if shouldAcceptVote request.term request.lastLogTerm request.lastLogIndex s then
    { s with nextMessageId := s.nextMessageId + 1 }.register s.nextMessageId 1
      (.requestVote callback)
  else s.send callback (.requestVote false)

/-! ## The loops of `time_step` -/

/-- `truncate_log`. -/
def truncateLog (s : SharedState) (prevTerm prevIndex : ℕ) : SharedState :=
  let targetLength := prevIndex + 1
  if targetLength < s.replicationLog.length then
    let s := { s with
      replicationLog := s.replicationLog.take targetLength
      lastLogTerm := prevTerm
      lastLogIndex := prevIndex
      nextLogIndex := prevIndex + 1
      replicationLogTermStarts :=
        ⟨s.replicationLogTermStarts.entries.filter (fun start => start.2 ≤ prevIndex),
          s.replicationLogTermStarts.nodupKeys.sublist List.filter_sublist⟩ }
    if s.persistenceOpen then s.persist (.truncateLog targetLength) else s
  else s

/-- `handle_log_persisted`. -/
def handleLogPersisted (id : ℕ) (s : SharedState) : SharedState :=
  match s.outstandingMessages.lookup id with
  | some msg =>
    let s := s.removeOutstanding id
    match msg.messageType with
    | .appendLog callback => s.answer callback .ok
    | _ => s
  | none => s

/-- `handle_vote_persisted`. -/
def handleVotePersisted (id : ℕ) (s : SharedState) : SharedState :=
  match s.outstandingMessages.lookup id with
  | some msg =>
    let s := s.removeOutstanding id
    match msg.messageType with
    | .requestVote callback => s.send callback (.requestVote true)
    | _ => s
  | none => s

/-- The body of the first loop of `time_step`. -/
def handlePersistence (response : PersistenceResponseType) (s : SharedState) : SharedState :=
  match response with
  | .logPersisted id => handleLogPersisted id s
  | .votePersisted id _ _ => handleVotePersisted id s

/-- The body of the second loop of `time_step`. -/
def handleQuorum (response : LocalQuorumTaskResponseType) (s : SharedState) : SharedState :=
  match response with
  | .truncateLog _ prevTerm prevIndex => (truncateLog s prevTerm prevIndex).bumpVersion
  | _ => s

/-! ## What storing an entry does -/

/-- A stored entry brings the commit index of its request, if that is higher. -/
def adopt (index : ℕ) (s : SharedState) : SharedState :=
  if s.commitIndex < index then updateCommitIndex s index else s

/-- The state once the entry of a request is queued for the disk, appended and registered. -/
def store (id : ℕ) (data : EntryData) (owned : OwnedLogEntry) (request : LocalAppendEntries)
    (callback : Callback) (s : SharedState) : SharedState :=
  (adopt request.commitIndex { s.persist (.appendLog id data request.requestId) with
    replicationLog := s.replicationLog ++ [owned] }).register id 1 (.appendLog callback)

/-- The state in which the entry of a request is looked at: an id is taken and the cached end of
log has moved. -/
def note (request : LocalAppendEntries) (s : SharedState) : SharedState :=
  request.entry.elim { s with nextMessageId := s.nextMessageId + 1 }
    (cacheEntry { s with nextMessageId := s.nextMessageId + 1 })

@[simp] theorem updateCommitIndex_fields (s : SharedState) (index : ℕ) :
    ((s.SameSetup (updateCommitIndex s index) ∧ s.SameStanding (updateCommitIndex s index) ∧
        s.SameLog (updateCommitIndex s index) ∧ s.SameTasks (updateCommitIndex s index)) ∧
      (updateCommitIndex s index).replicationLogTermStarts = s.replicationLogTermStarts ∧
      (updateCommitIndex s index).callbackResponses = s.callbackResponses ∧
      (updateCommitIndex s index).outstandingMessages = s.outstandingMessages) ∧
    (updateCommitIndex s index).commitIndex = index ∧
    (updateCommitIndex s index).publishedCommitIndex = index := by
  simp [updateCommitIndex]

@[simp] theorem store_fields (id : ℕ) (data : EntryData) (owned : OwnedLogEntry)
    (request : LocalAppendEntries) (callback : Callback) (s : SharedState) :
    (s.SameSetup (store id data owned request callback s) ∧
      s.SameStanding (store id data owned request callback s)) ∧
    ((store id data owned request callback s).nextLogIndex = s.nextLogIndex ∧
      (store id data owned request callback s).quorumWorkerTasks = s.quorumWorkerTasks ∧
      (store id data owned request callback s).lastLogIndex = s.lastLogIndex ∧
      (store id data owned request callback s).lastLogTerm = s.lastLogTerm ∧
      (store id data owned request callback s).nextMessageId = s.nextMessageId ∧
      (store id data owned request callback s).callbackResponses = s.callbackResponses) ∧
    (store id data owned request callback s).replicationLog = s.replicationLog ++ [owned] ∧
    (store id data owned request callback s).persistenceWork =
      s.persistenceWork ++ [.appendLog id data request.requestId] ∧
    (store id data owned request callback s).outstandingMessages =
      s.outstandingMessages.insert id ⟨id, 1, .appendLog callback⟩ ∧
    (store id data owned request callback s).commitIndex =
      max s.commitIndex request.commitIndex := by
  unfold store adopt
  split_ifs with hcommit
  · have hmax := max_eq_right (Nat.le_of_lt hcommit)
    simp_all
  · have hmax := max_eq_left (Nat.le_of_not_lt hcommit)
    simp_all

@[simp] theorem note_fields (request : LocalAppendEntries) (s : SharedState) :
    (s.SameSetup (note request s) ∧ s.SameStanding (note request s)) ∧
    ((note request s).nextLogIndex = s.nextLogIndex ∧
      (note request s).quorumWorkerTasks = s.quorumWorkerTasks ∧
      (note request s).replicationLog = s.replicationLog ∧
      (note request s).persistenceWork = s.persistenceWork ∧
      (note request s).outstandingMessages = s.outstandingMessages ∧
      (note request s).callbackResponses = s.callbackResponses ∧ s.SameCommit (note request s)) ∧
    (note request s).nextMessageId = s.nextMessageId + 1 ∧
    (note request s).lastLogIndex = request.entry.elim s.lastLogIndex LogEntry.index ∧
    (note request s).lastLogTerm = request.entry.elim s.lastLogTerm LogEntry.term := by
  unfold note
  cases request.entry <;> simp [cacheEntry]

/-- An entry that decodes is stored. -/
theorem applyLogEntry_stored {request : LocalAppendEntries} {entry : LogEntry}
    {owned : OwnedLogEntry} {s : SharedState} (callback : Callback)
    (hentry : request.entry = some entry) (hdata : OwnedLogEntry.fromBytes entry.data = some owned)
    (hopen : s.persistenceOpen = true) :
    applyLogEntry request callback s =
      store s.nextMessageId entry.data owned request callback (note request s) := by
  unfold applyLogEntry storeEntry note
  simp only [hentry, hdata, cacheEntry, hopen, if_true]
  rfl

/-- What cannot be stored is answered with the end of the log, to which the cached one has moved. -/
theorem applyLogEntry_refused {request : LocalAppendEntries} {s : SharedState} (callback : Callback)
    (h : ∀ entry ∈ request.entry,
      OwnedLogEntry.fromBytes entry.data = none ∨ s.persistenceOpen = false) :
    applyLogEntry request callback s = (note request s).answerWantedPreviousEntry callback := by
  unfold applyLogEntry storeEntry note
  rcases hentry : request.entry with _ | entry
  · rfl
  · rcases hdata : OwnedLogEntry.fromBytes entry.data with _ | owned
    · simp [hdata]
    · have hclosed := (h entry hentry).resolve_left (by simp [hdata])
      simp [hdata, cacheEntry, hclosed]

/-! ## What the functions leave alone -/

@[simp] theorem requestVote_unchanged (request : LocalRequestVoteRequest) (callback : Callback)
    (s : SharedState) :
    (s.SameSetup (requestVote request callback s) ∧ s.SameLog (requestVote request callback s)) ∧
    (requestVote request callback s).currentTerm = s.currentTerm ∧
    (requestVote request callback s).leaderId = s.leaderId ∧
    (requestVote request callback s).commitIndex = s.commitIndex ∧
    (requestVote request callback s).termVotes = s.termVotes ∧
    (requestVote request callback s).persistenceWork = s.persistenceWork ∧
    (requestVote request callback s).quorumWorkerTasks = s.quorumWorkerTasks := by
  unfold requestVote
  dsimp only
  split_ifs <;> simp

/-- A log that is not longer than the target stays. -/
theorem truncateLog_of_le {s : SharedState} {prevIndex : ℕ} (prevTerm : ℕ)
    (h : s.replicationLog.length ≤ prevIndex + 1) : truncateLog s prevTerm prevIndex = s :=
  if_neg (Nat.not_lt.mpr h)

/-- A longer one is cut, in memory and on disk. -/
theorem truncateLog_of_lt {s : SharedState} {prevIndex : ℕ} (prevTerm : ℕ)
    (h : prevIndex + 1 < s.replicationLog.length) :
    (truncateLog s prevTerm prevIndex).replicationLog = s.replicationLog.take (prevIndex + 1) ∧
    (truncateLog s prevTerm prevIndex).lastLogTerm = prevTerm ∧
    (truncateLog s prevTerm prevIndex).lastLogIndex = prevIndex ∧
    (truncateLog s prevTerm prevIndex).persistenceWork = s.persistenceWork ++
      (if s.persistenceOpen then [.truncateLog (prevIndex + 1)] else []) := by
  unfold truncateLog
  dsimp only
  rw [if_pos h]
  split_ifs <;> simp

/-- Only truncations go to the disk. -/
theorem persistenceWork_truncateLog (s : SharedState) (prevTerm prevIndex : ℕ) :
    ∃ new, (truncateLog s prevTerm prevIndex).persistenceWork = s.persistenceWork ++ new ∧
      ∀ task ∈ new, task = .truncateLog (prevIndex + 1) := by
  rcases Nat.lt_or_ge (prevIndex + 1) s.replicationLog.length with hlt | hle
  · refine ⟨_, (truncateLog_of_lt prevTerm hlt).2.2.2, fun task hmem => ?_⟩
    split_ifs at hmem
    · exact List.mem_singleton.mp hmem
    · cases hmem
  · exact ⟨[], by rw [truncateLog_of_le prevTerm hle, List.append_nil], nofun⟩

@[simp] theorem truncateLog_unchanged (s : SharedState) (prevTerm prevIndex : ℕ) :
    s.SameSetup (truncateLog s prevTerm prevIndex) ∧
    s.SameStanding (truncateLog s prevTerm prevIndex) ∧
    s.SameCommit (truncateLog s prevTerm prevIndex) ∧
    (truncateLog s prevTerm prevIndex).quorumWorkerTasks = s.quorumWorkerTasks ∧
    (truncateLog s prevTerm prevIndex).callbackResponses = s.callbackResponses ∧
    (truncateLog s prevTerm prevIndex).nextMessageId = s.nextMessageId ∧
    (truncateLog s prevTerm prevIndex).outstandingMessages = s.outstandingMessages := by
  unfold truncateLog
  dsimp only
  split_ifs <;> simp

/-- Everything but the outstanding messages and the answers. -/
@[simp] abbrev SameButAnswers (s s' : SharedState) : Prop :=
  (s.SameSetup s' ∧ s.SameStanding s' ∧ s.SameLog s' ∧ s.SameTasks s') ∧
    s'.commitIndex = s.commitIndex

@[simp] theorem handleVotePersisted_unchanged (id : ℕ) (s : SharedState) :
    SameButAnswers s (handleVotePersisted id s) := by
  unfold handleVotePersisted
  split
  · dsimp only
    split <;> simp
  · simp

end Follower

end Kraft
