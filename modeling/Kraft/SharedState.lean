/-
# The state shared by the three roles

`SharedState` of `raft_sm.rs`, with its sub-records `server_state`,
`volatile_server_state` and `commit_state` laid out flat, and the functions that put
committed entries on the log-entry bus.

* Every queue is the list of the values waiting in it, oldest first.
* `persistenceWork` is the channel to the persistence worker; `persistenceOpen` is
  false once the worker has gone and `send` fails.
* `callbackResponses` holds the values sent on one-shot callbacks and not yet
  received.
* `Bus` is the log-entry bus: `accepts k` says whether the bus has room at the `k`-th
  attempt, so that a statement for every `accepts` covers every pattern of a full
  bus.  `sent` keeps each entry with the log position it was read from.

The result of broadcasting is stated once, as `Broadcasts`: nothing but the bus, the
version counter and the two broadcast markers changes, and every entry put on the bus
is the log's entry at a position up to the given commit index.
-/
import Mathlib.Tactic.Simps.Basic
import Kraft.Messages

namespace Kraft

/-! ## The log-entry bus -/

/-- The log-entry bus with all that was ever put on it. -/
structure Bus where
  sent : List (ℕ × OwnedLogEntry)
  attempts : ℕ
  accepts : ℕ → Bool

/-- A fresh bus. -/
def Bus.new (accepts : ℕ → Bool) : Bus := ⟨[], 0, accepts⟩

/-- `Bus::try_broadcast`: the entry is enqueued, or the bus is full and unchanged. -/
def Bus.tryBroadcast (bus : Bus) (position : ℕ) (entry : OwnedLogEntry) : Bool × Bus :=
  if bus.accepts bus.attempts then
    (true, { bus with sent := bus.sent ++ [(position, entry)], attempts := bus.attempts + 1 })
  else
    (false, { bus with attempts := bus.attempts + 1 })

/-! ## The state -/

/-- `SharedState`. -/
structure SharedState where
  -- server_state
  currentTerm : ℕ
  leaderId : ℕ
  -- volatile_server_state
  commitIndex : ℕ
  lastLogIndex : ℕ
  lastLogTerm : ℕ
  nextTerm : ℕ
  nextLogIndex : ℕ
  replicationLog : List OwnedLogEntry
  replicationLogTermStarts : HashMap ℕ
  lastBroadcastIndex : Option ℕ
  hasDeferredBroadcast : Bool
  -- commit_state, the atomics the query worker reads
  publishedCommitIndex : ℕ
  version : ℕ
  -- queues and channels
  persistenceWork : List PersistenceTaskType
  persistenceOpen : Bool
  persistenceResponse : List PersistenceResponseType
  quorumResponse : List LocalQuorumTaskResponseType
  quorumWorkerTasks : List (List LocalQuorumWorkerTaskType)
  callbackResponses : List (Callback × LocalRaftResponsePayload)
  logEntryBus : Bus
  -- votes and messages in progress
  identity : ℕ
  termVotes : HashMap ℕ
  nextMessageId : ℕ
  outstandingMessages : HashMap OutstandingMessage
  quorumSize : ℕ

namespace SharedState

/-! ## Frames

What a function leaves alone, as relations between the state before and the state after it.  They
unfold to equations of fields, so a frame of a function is a `simp` lemma on its fields. -/

/-- What the node is set up with, and the queues of responses, which only `time_step` empties. -/
@[simp] abbrev SameSetup (s s' : SharedState) : Prop :=
  s'.identity = s.identity ∧ s'.quorumSize = s.quorumSize ∧
    s'.persistenceOpen = s.persistenceOpen ∧ s'.persistenceResponse = s.persistenceResponse ∧
    s'.quorumResponse = s.quorumResponse

/-- The node's standing in the elections: terms, leader and votes. -/
@[simp] abbrev SameStanding (s s' : SharedState) : Prop :=
  s'.currentTerm = s.currentTerm ∧ s'.leaderId = s.leaderId ∧ s'.nextTerm = s.nextTerm ∧
    s'.termVotes = s.termVotes

/-- The log and its cached end. -/
@[simp] abbrev SameLog (s s' : SharedState) : Prop :=
  s'.lastLogIndex = s.lastLogIndex ∧ s'.lastLogTerm = s.lastLogTerm ∧
    s'.nextLogIndex = s.nextLogIndex ∧ s'.replicationLog = s.replicationLog

/-- The work for the disk and the other nodes. -/
@[simp] abbrev SameTasks (s s' : SharedState) : Prop :=
  s'.persistenceWork = s.persistenceWork ∧ s'.quorumWorkerTasks = s.quorumWorkerTasks ∧
    s'.nextMessageId = s.nextMessageId

/-- The commit index with its copy, the bus and the broadcast markers. -/
@[simp] abbrev SameCommit (s s' : SharedState) : Prop :=
  s'.commitIndex = s.commitIndex ∧ s'.publishedCommitIndex = s.publishedCommitIndex ∧
    s'.logEntryBus = s.logEntryBus ∧ s'.lastBroadcastIndex = s.lastBroadcastIndex ∧
    s'.hasDeferredBroadcast = s.hasDeferredBroadcast

/-! ## Small updates used by every role -/

/-- `callback.send(..)`. -/
@[simps] def send (s : SharedState) (callback : Callback) (payload : LocalRaftResponsePayload) :
    SharedState :=
  { s with callbackResponses := s.callbackResponses ++ [(callback, payload)] }

/-- Answers an AppendEntries request. -/
@[simps] def answer (s : SharedState) (callback : Callback)
    (response : LocalAppendEntriesCallbackResponse) : SharedState :=
  { s with callbackResponses := s.callbackResponses ++ [(callback, .appendEntries response)] }

/-- Answers an AppendEntries request with the end of the own log. -/
@[simp] def answerWantedPreviousEntry (s : SharedState) (callback : Callback) : SharedState :=
  s.answer callback (.wantedPreviousEntry s.lastLogTerm s.lastLogIndex)

/-- `commit_state.version.fetch_add(1)`. -/
@[simps] def bumpVersion (s : SharedState) : SharedState := { s with version := s.version + 1 }

/-- Registers an outstanding message under its id. -/
@[simps] def register (s : SharedState) (id : ℕ) (responses : ℤ) (type : OutstandingMessageType) :
    SharedState :=
  { s with outstandingMessages := s.outstandingMessages.insert id ⟨id, responses, type⟩ }

/-- `outstanding_messages.remove(&id)`: the state without the message. -/
@[simps] def removeOutstanding (s : SharedState) (id : ℕ) : SharedState :=
  { s with outstandingMessages := s.outstandingMessages.erase id }

/-- `persistence_work.send(..)` on an open channel. -/
@[simps] def persist (s : SharedState) (task : PersistenceTaskType) : SharedState :=
  { s with persistenceWork := s.persistenceWork ++ [task] }

/-- Pushes one task on the queue of every quorum worker. -/
@[simps] def pushToQuorum (s : SharedState) (task : LocalQuorumWorkerTaskType) : SharedState :=
  { s with quorumWorkerTasks := s.quorumWorkerTasks.map (· ++ [task]) }

/-- Stores a commit index in the state and in the shared atomics. -/
@[simps] def storeCommitIndex (s : SharedState) (index : ℕ) : SharedState :=
  { s with commitIndex := index, publishedCommitIndex := index, version := s.version + 1 }

/-- `server_state` and `next_term` on recognising the leader of a request. -/
@[simps] def recogniseLeader (s : SharedState) (term leaderId : ℕ) : SharedState :=
  { s with currentTerm := term, leaderId := leaderId, nextTerm := term + 1 }

/-! ## Broadcasting committed entries -/

/-- One entry while the bus is full: up to `remaining` attempts, with the version
counter bumped at every tenth failure. -/
def broadcastWithRetries (i : ℕ) (entry : OwnedLogEntry) :
    ℕ → SharedState → Bool × SharedState
  | 0, s => (false, s)
  | remaining + 1, s =>
    match s.logEntryBus.tryBroadcast i entry with
    | (true, bus) => (true, { s with logEntryBus := bus })
    | (false, bus) =>
      let s := { s with logEntryBus := bus }
      if remaining = 0 then (false, s)
      else broadcastWithRetries i entry remaining
        (if (100 - remaining) % 10 = 0 then s.bumpVersion else s)

/-- The `while idx <= new_absolute_commit_index` loop over the positions left. -/
def broadcastWhenBusFullLoop (newCommitIndex startIndex : ℕ) :
    List ℕ → SharedState → SharedState × ℕ
  | [], s => (s, newCommitIndex)
  | i :: rest, s =>
    match s.replicationLog[i]? with
    | some entry =>
      match broadcastWithRetries i entry 100 s with
      | (true, s) => broadcastWhenBusFullLoop newCommitIndex startIndex rest s
      | (false, s) => (s, if startIndex < i then i - 1 else startIndex)
    | none => (s, if startIndex < i then i - 1 else startIndex)

/-- `broadcast_committed_entries_when_bus_full`. -/
def broadcastCommittedEntriesWhenBusFull (s : SharedState) (newCommitIndex startIndex : ℕ) :
    SharedState × ℕ :=
  broadcastWhenBusFullLoop newCommitIndex startIndex
    (List.range' startIndex (newCommitIndex + 1 - startIndex)) s.bumpVersion

/-- The `for i in start_index..=new_commit_index` loop of
`broadcast_committed_entries`, with `last_broadcast_index` as accumulator. -/
def broadcastLoop (newCommitIndex : ℕ) : List ℕ → SharedState → ℕ → SharedState × ℕ
  | [], s, last => (s, last)
  | i :: rest, s, last =>
    match s.replicationLog[i]? with
    | some entry =>
      match s.logEntryBus.tryBroadcast i entry with
      | (true, bus) => broadcastLoop newCommitIndex rest { s with logEntryBus := bus } i
      | (false, bus) =>
        { s with logEntryBus := bus }.broadcastCommittedEntriesWhenBusFull newCommitIndex i
    | none => broadcastLoop newCommitIndex rest s last

/-- The position after the last one broadcast. -/
def nextBroadcastIndex (s : SharedState) : ℕ :=
  match s.lastBroadcastIndex with
  | some last => last + 1
  | none => 0

/-- `broadcast_committed_entries`.  The subtraction that only feeds a log line is left
out. -/
def broadcastCommittedEntries (s : SharedState) (newCommitIndex : ℕ) : SharedState :=
  let startIndex := s.nextBroadcastIndex
  if newCommitIndex < startIndex then s
  else
    let (s, last) := broadcastLoop newCommitIndex
      (List.range' startIndex (newCommitIndex + 1 - startIndex)) s 0
    { s with
      lastBroadcastIndex := some last
      hasDeferredBroadcast := decide (last < newCommitIndex)
      version := s.version + 1 }

/-- The loop of `retry_deferred_broadcast`; the flag says whether it ran to its end, the
number how many entries were broadcast. -/
def retryLoop : List ℕ → SharedState → ℕ → Bool × SharedState × ℕ
  | [], s, count => (true, s, count)
  | i :: rest, s, count =>
    match s.replicationLog[i]? with
    | some entry =>
      match s.logEntryBus.tryBroadcast i entry with
      | (true, bus) =>
        retryLoop rest { s with logEntryBus := bus, lastBroadcastIndex := some i } (count + 1)
      | (false, bus) => (false, { s with logEntryBus := bus }, count)
    | none => retryLoop rest s count

/-- `MAX_BROADCAST_PER_TIMESTEP`. -/
def maxBroadcastPerTimestep : ℕ := 5000

/-- `retry_deferred_broadcast`. -/
def retryDeferredBroadcast (s : SharedState) : SharedState :=
  if s.hasDeferredBroadcast then
    let startIndex := s.nextBroadcastIndex
    if s.commitIndex < startIndex then { s with hasDeferredBroadcast := false }
    else
      let endIndex := min s.commitIndex (startIndex + maxBroadcastPerTimestep - 1)
      match retryLoop (List.range' startIndex (endIndex + 1 - startIndex)) s 0 with
      | (false, s, _) => s
      | (true, s, count) =>
        let s := if s.lastBroadcastIndex = some s.commitIndex then
          { s with hasDeferredBroadcast := false } else s
        if 0 < count then s.bumpVersion else s
  else s

/-! ## What broadcasting does -/

/-- From `s` to `s'` only the bus, the version counter and the broadcast markers
changed, and what was added to the bus is the log's entries at positions up to `limit`. -/
structure Broadcasts (limit : ℕ) (s s' : SharedState) : Prop where
  frame : s' = { s with
    logEntryBus := s'.logEntryBus
    version := s'.version
    lastBroadcastIndex := s'.lastBroadcastIndex
    hasDeferredBroadcast := s'.hasDeferredBroadcast }
  added : ∃ new, s'.logEntryBus.sent = s.logEntryBus.sent ++ new ∧
    ∀ p ∈ new, p.1 ≤ limit ∧ s.replicationLog[p.1]? = some p.2

/-- Everything but the bus, the version counter and the broadcast markers. -/
@[simp] abbrev SameButBus (s s' : SharedState) : Prop :=
  (SameSetup s s' ∧ SameStanding s s' ∧ SameLog s s' ∧ SameTasks s s') ∧
    s'.commitIndex = s.commitIndex ∧ s'.publishedCommitIndex = s.publishedCommitIndex ∧
    s'.replicationLogTermStarts = s.replicationLogTermStarts ∧
    s'.callbackResponses = s.callbackResponses ∧ s'.outstandingMessages = s.outstandingMessages

theorem Broadcasts.unchanged {limit : ℕ} {s s' : SharedState} (h : Broadcasts limit s s') :
    SameButBus s s' := by
  rw [h.frame]
  simp

/-- A state that differs in version and markers only broadcasts nothing. -/
theorem Broadcasts.of_markers {limit : ℕ} {s s' : SharedState}
    (frame : s' = { s with
      logEntryBus := s'.logEntryBus
      version := s'.version
      lastBroadcastIndex := s'.lastBroadcastIndex
      hasDeferredBroadcast := s'.hasDeferredBroadcast })
    (bus : s'.logEntryBus.sent = s.logEntryBus.sent) : Broadcasts limit s s' :=
  ⟨frame, [], by rw [bus, List.append_nil], by simp⟩

theorem Broadcasts.trans {limit : ℕ} {s₁ s₂ s₃ : SharedState}
    (h₁ : Broadcasts limit s₁ s₂) (h₂ : Broadcasts limit s₂ s₃) : Broadcasts limit s₁ s₃ := by
  obtain ⟨new₁, hs₁, hn₁⟩ := h₁.added
  obtain ⟨new₂, hs₂, hn₂⟩ := h₂.added
  have hlog : s₂.replicationLog = s₁.replicationLog := by rw [h₁.frame]
  refine ⟨by rw [h₂.frame, h₁.frame], new₁ ++ new₂, ?_, ?_⟩
  · rw [hs₂, hs₁, List.append_assoc]
  · intro p hp
    rcases List.mem_append.mp hp with hp | hp
    · exact hn₁ p hp
    · exact hlog ▸ hn₂ p hp

/-- The version counter may be bumped first. -/
theorem Broadcasts.of_bumpVersion {limit : ℕ} {s s' : SharedState}
    (h : Broadcasts limit s.bumpVersion s') : Broadcasts limit s s' :=
  ⟨h.frame, h.added⟩

/-- One accepted attempt puts the log's entry at its position on the bus. -/
theorem Broadcasts.of_tryBroadcast {limit i : ℕ} {s : SharedState} {entry : OwnedLogEntry}
    {accepted : Bool} {bus : Bus} (hi : i ≤ limit) (hlog : s.replicationLog[i]? = some entry)
    (htry : s.logEntryBus.tryBroadcast i entry = (accepted, bus)) :
    Broadcasts limit s { s with logEntryBus := bus } := by
  unfold Bus.tryBroadcast at htry
  split at htry
  · obtain ⟨-, rfl⟩ := Prod.mk.inj htry
    exact ⟨rfl, [(i, entry)], rfl, by simpa using ⟨hi, hlog⟩⟩
  · obtain ⟨-, rfl⟩ := Prod.mk.inj htry
    exact .of_markers rfl rfl

theorem broadcasts_broadcastWithRetries {limit i : ℕ} {entry : OwnedLogEntry} (hi : i ≤ limit)
    (remaining : ℕ) : ∀ s : SharedState, s.replicationLog[i]? = some entry →
      Broadcasts limit s (broadcastWithRetries i entry remaining s).2 := by
  induction remaining with
  | zero => exact fun s _ => .of_markers rfl rfl
  | succ remaining ih =>
    intro s hlog
    unfold broadcastWithRetries
    split
    · next htry => exact .of_tryBroadcast hi hlog htry
    · next bus htry =>
      have hstep := Broadcasts.of_tryBroadcast hi hlog htry
      dsimp only
      split_ifs
      · exact hstep
      · exact hstep.trans (Broadcasts.of_bumpVersion (ih (bumpVersion _) hlog))
      · exact hstep.trans (ih _ hlog)

theorem broadcasts_broadcastWhenBusFullLoop (limit start : ℕ) (positions : List ℕ) :
    ∀ s : SharedState, (∀ i ∈ positions, i ≤ limit) →
      Broadcasts limit s (broadcastWhenBusFullLoop limit start positions s).1 := by
  induction positions with
  | nil => exact fun s _ => .of_markers rfl rfl
  | cons i rest ih =>
    intro s hle
    unfold broadcastWhenBusFullLoop
    split
    · next entry hlog =>
      have hstep := broadcasts_broadcastWithRetries (hle i (by simp)) 100 s hlog
      split
      · next s' htry =>
        rw [htry] at hstep
        exact hstep.trans (ih s' fun j hj => hle j (by simp [hj]))
      · next s' htry =>
        rw [htry] at hstep
        exact hstep
    · exact .of_markers rfl rfl

theorem broadcasts_broadcastLoop (limit : ℕ) (positions : List ℕ) :
    ∀ (s : SharedState) (last : ℕ), (∀ i ∈ positions, i ≤ limit) →
      Broadcasts limit s (broadcastLoop limit positions s last).1 := by
  induction positions with
  | nil => exact fun s _ _ => .of_markers rfl rfl
  | cons i rest ih =>
    intro s last hle
    unfold broadcastLoop
    split
    · next entry hlog =>
      split
      · next bus htry =>
        exact (Broadcasts.of_tryBroadcast (hle i (by simp)) hlog htry).trans
          (ih _ _ fun j hj => hle j (by simp [hj]))
      · next bus htry =>
        refine (Broadcasts.of_tryBroadcast (hle i (by simp)) hlog htry).trans ?_
        unfold broadcastCommittedEntriesWhenBusFull
        refine .of_bumpVersion (broadcasts_broadcastWhenBusFullLoop limit i _ _ ?_)
        intro j hj
        have := List.mem_range'_1.mp hj
        omega
    · exact ih s last fun j hj => hle j (by simp [hj])

/-- **What `broadcast_committed_entries` does.** -/
theorem broadcasts_broadcastCommittedEntries (s : SharedState) (newCommitIndex : ℕ) :
    Broadcasts newCommitIndex s (s.broadcastCommittedEntries newCommitIndex) := by
  unfold broadcastCommittedEntries
  dsimp only
  split_ifs
  · exact .of_markers rfl rfl
  · refine (broadcasts_broadcastLoop newCommitIndex _ s 0 ?_).trans (.of_markers rfl rfl)
    intro j hj
    have := List.mem_range'_1.mp hj
    omega

@[simp] theorem broadcastCommittedEntries_unchanged (s : SharedState) (c : ℕ) :
    SameButBus s (s.broadcastCommittedEntries c) :=
  (broadcasts_broadcastCommittedEntries s c).unchanged

theorem broadcasts_retryLoop (limit : ℕ) (positions : List ℕ) :
    ∀ (s : SharedState) (count : ℕ), (∀ i ∈ positions, i ≤ limit) →
      Broadcasts limit s (retryLoop positions s count).2.1 := by
  induction positions with
  | nil => exact fun s _ _ => .of_markers rfl rfl
  | cons i rest ih =>
    intro s count hle
    unfold retryLoop
    split
    · next entry hlog =>
      split
      · next bus htry =>
        refine Broadcasts.trans ?_ (ih _ _ fun j hj => hle j (by simp [hj]))
        exact (Broadcasts.of_tryBroadcast (hle i (by simp)) hlog htry).trans (.of_markers rfl rfl)
      · next bus htry => exact .of_tryBroadcast (hle i (by simp)) hlog htry
    · exact ih s count fun j hj => hle j (by simp [hj])

/-- **What `retry_deferred_broadcast` does.** -/
theorem broadcasts_retryDeferredBroadcast (s : SharedState) :
    Broadcasts s.commitIndex s s.retryDeferredBroadcast := by
  unfold retryDeferredBroadcast
  dsimp only
  split_ifs with hdef hlt
  · exact .of_markers rfl rfl
  · have hloop := broadcasts_retryLoop s.commitIndex (List.range' s.nextBroadcastIndex
      (min s.commitIndex (s.nextBroadcastIndex + maxBroadcastPerTimestep - 1) + 1
        - s.nextBroadcastIndex)) s 0 (fun j hj => by
          have := List.mem_range'_1.mp hj
          omega)
    split
    · next heq => rw [heq] at hloop; exact hloop
    · next heq =>
      rw [heq] at hloop
      refine hloop.trans ?_
      split_ifs <;> exact .of_markers rfl rfl
  · exact .of_markers rfl rfl

@[simp] theorem retryDeferredBroadcast_unchanged (s : SharedState) :
    SameButBus s s.retryDeferredBroadcast :=
  (broadcasts_retryDeferredBroadcast s).unchanged

end SharedState

end Kraft
