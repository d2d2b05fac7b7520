/-
# The stream of a leader in office

The leader from its first `time_step` on, and what it hands to its quorum worker for one
follower.  `LeaderEvent` lists what happens at a leader while it stays in office, with the
functions of the leader role (`Leader.react`; `runPart_eq_reacts` says that the parts of its
`time_step` are made of them).

* `Leader.Effect` : what an event does to the log, the commit index and the worker's queue.
* `Feeds` : the tasks waiting for the worker lead from the log the worker has been told of to the
  leader's log, each consecutive with the one before and with a commit index inside the log.
* `Feeds.react` : every event of a leader whose commit index stays inside its log keeps this.
-/
import Kraft.RepairExchange
import Kraft.ReplicationSteps

namespace Kraft

open SharedState

variable {s s' : SharedState}

/-! ## Events of a leader -/

/-- What happens at a leader in office. -/
inductive LeaderEvent
  /-- A client batch is accepted. -/
  | write (clock : Clock) (batch : OwnedWriteBatch) (callback : Callback)
  /-- A vote request is accepted. -/
  | vote (request : LocalRequestVoteRequest) (callback : Callback)
  /-- `time_step` takes a response of the persistence worker. -/
  | persisted (response : PersistenceResponseType)
  /-- `time_step` takes a response of a quorum worker. -/
  | responded (response : LocalQuorumTaskResponseType)
  /-- `time_step` handles a backfill request it has noted. -/
  | repair (node lastLogTerm lastLogIndex : ℕ)
  /-- `time_step` retries a deferred broadcast. -/
  | retry

namespace Leader

/-- One event. -/
def react (s : SharedState) : LeaderEvent → SharedState
  | .write clock batch callback => writeBatch clock batch callback s
  | .vote request callback => requestVote request callback s
  | .persisted response => handlePersistence response s
  | .responded response => handleQuorum response s
  | .repair node lastLogTerm lastLogIndex => handleBackfillRequest node lastLogTerm lastLogIndex s
  | .retry => s.retryDeferredBroadcast

theorem run_repairs (requests : List (ℕ × ℕ × ℕ)) : ∀ s : SharedState,
    Runs.run react s (requests.map fun r => .repair r.1 r.2.1 r.2.2) =
      StateMachine.handleBackfillRequests requests s := by
  induction requests with
  | nil => exact fun _ => rfl
  | cons r rest ih => exact fun s => ih _

/-- **The parts of a leader's `time_step`** are events of the leader, up to the response they
take from its queue. -/
theorem runPart_eq_reacts (clock : Clock) {sm : StateMachine} (hleads : sm.delegate = .leader true)
    (part : StateMachine.TimeStepPart) : ∃ persistence quorum events,
      (sm.runPart clock part).shared = Runs.run react
        { sm.shared with persistenceResponse := persistence, quorumResponse := quorum } events := by
  cases part with
  | takeOffice =>
    refine ⟨sm.shared.persistenceResponse, sm.shared.quorumResponse, [], ?_⟩
    simp [StateMachine.runPart, StateMachine.takeOffice, hleads]
  | popPersistence =>
    rcases sm.popPersistence_cases with heq | ⟨response, rest, -, heq⟩
    · exact ⟨sm.shared.persistenceResponse, sm.shared.quorumResponse, [],
        by rw [StateMachine.runPart, heq]; rfl⟩
    · refine ⟨rest, sm.shared.quorumResponse, [.persisted response], ?_⟩
      rw [StateMachine.runPart, heq, StateMachine.handlePersistence, hleads]
      rfl
  | popQuorum =>
    rcases sm.popQuorum_cases with heq | ⟨response, rest, -, heq⟩
    · exact ⟨sm.shared.persistenceResponse, sm.shared.quorumResponse, [],
        by rw [StateMachine.runPart, heq]; rfl⟩
    · refine ⟨sm.shared.persistenceResponse, rest, [.responded response], ?_⟩
      rw [StateMachine.runPart, heq]
      unfold StateMachine.handleQuorum
      simp only [hleads]
      rfl
  | finish =>
    refine ⟨sm.shared.persistenceResponse, sm.shared.quorumResponse,
      (sm.backfillRequests.map fun r => .repair r.1 r.2.1 r.2.2) ++ [.retry], ?_⟩
    rw [Runs.run_append, run_repairs, StateMachine.runPart, StateMachine.finish, hleads]
    rfl

/-- The index of the message that an event completes, if it completes one: the entry reaches the
disk with enough acknowledgements counted, or the last missing acknowledgement arrives. -/
def completedIndex (s : SharedState) : LeaderEvent → Option ℕ
  | .persisted (.logPersisted id) =>
    match (s.outstandingMessages.lookup id).map OutstandingMessage.messageType with
    | some (.writeBatch _ quorumAcks _ index) | some (.noOp _ quorumAcks index) =>
      if s.quorumSize ≤ quorumAcks then some index else none
    | _ => none
  | .responded (.appendEntries id _) =>
    match (s.outstandingMessages.lookup id).map OutstandingMessage.messageType with
    | some (.writeBatch persistenceDone quorumAcks _ index)
    | some (.noOp persistenceDone quorumAcks index) =>
      if s.quorumSize ≤ quorumAcks + 1 ∧ persistenceDone then some index else none
    | _ => none
  | _ => none

end Leader

/-! ## What an event does -/

/-- The tasks have been pushed on the queue of quorum worker `k`. -/
def Handed (k : ℕ) (tasks : List LocalQuorumWorkerTaskType) (s s' : SharedState) : Prop :=
  s'.quorumWorkerTasks[k]? = s.quorumWorkerTasks[k]?.map (· ++ tasks)

theorem Queued.handed {new : ℕ → List LocalQuorumWorkerTaskType} (h : Queued s s' new) (k : ℕ) :
    Handed k (new k) s s' := h k

theorem Handed.of_eq {k : ℕ} (h : s'.quorumWorkerTasks = s.quorumWorkerTasks) :
    Handed k [] s s' := (Queued.of_eq h).handed k

/-- A log with one more entry. -/
def RepairLog.push (f : RepairLog) (entry : OwnedLogEntry) : RepairLog :=
  ⟨f.log ++ [entry], entry.index, entry.term⟩

namespace Leader

/-- The leader appends an entry at position `idx` behind its cached end of log, and hands it to
the worker after the tasks `first`. -/
structure Extends (k idx : ℕ) (first : List LocalQuorumWorkerTaskType) (id : ℕ)
    (entry : OwnedLogEntry) (s s' : SharedState) : Prop where
  log : s'.repairLog = s.repairLog.push entry
  index : entry.index = idx
  message : entry.messageId = id
  term : entry.term = s.currentTerm
  prev : entry.prevLogIndex = s.lastLogIndex ∧ entry.prevLogTerm = s.lastLogTerm
  next : s'.nextLogIndex = idx + 1
  commit : s'.commitIndex = s.commitIndex
  queue : Handed k (first ++ [.appendEntries id entry s.commitIndex]) s s'

/-- The log stays, and the worker is handed tasks. -/
structure Keeps (k : ℕ) (tasks : List LocalQuorumWorkerTaskType) (s s' : SharedState) : Prop where
  log : s'.repairLog = s.repairLog
  next : s'.nextLogIndex = s.nextLogIndex
  queue : Handed k tasks s s'

/-- What an event does to the log, the commit index and the worker's queue. -/
inductive Effect (k : ℕ) (e : LeaderEvent) (s s' : SharedState) : Prop
  | append (entry : OwnedLogEntry)
      (h : Extends k s.nextLogIndex [] s.nextMessageId entry s s')
  | stay (h : Keeps k [] s s') (hcommit : s'.commitIndex = s.commitIndex)
  | commit (h : Keeps k [.updateCommitIndex s'.commitIndex] s s')
      (hcommit : s.commitIndex < s'.commitIndex) (hindex : completedIndex s e = some s'.commitIndex)
  | repair (task : LocalQuorumWorkerTaskType) (h : Keeps k [task] s s')
      (hcommit : s'.commitIndex = s.commitIndex) (htask : Repairs s.replicationLog task)
      (hnode : ∃ node lastLogTerm lastLogIndex, e = .repair node lastLogTerm lastLogIndex ∧
        getQuorumWorkerIndex node s.identity = k)

variable {k : ℕ}

theorem Keeps.of_eq (hlog : s'.repairLog = s.repairLog) (hnext : s'.nextLogIndex = s.nextLogIndex)
    (hqueue : s'.quorumWorkerTasks = s.quorumWorkerTasks) : Keeps k [] s s' :=
  ⟨hlog, hnext, .of_eq hqueue⟩

/-- An entry is appended in a state with the log of `s`. -/
theorem Extends.of_appendOwn {idx id timestamp : ℕ} {commands : List PutRequest}
    {first : List LocalQuorumWorkerTaskType} {s₁ : SharedState} (type : OutstandingMessageType)
    (hterm : s₁.currentTerm = s.currentTerm) (hcommit : s₁.commitIndex = s.commitIndex)
    (hlog : s₁.repairLog = s.repairLog) (hqueue : Handed k first s s₁) :
    Extends k idx first id (buildLogEntry s idx id timestamp commands) s
      (appendOwn type idx id timestamp commands s₁) := by
  obtain ⟨hentries, hindex, hlast⟩ := RepairLog.mk.inj hlog
  have hentry : buildLogEntry s₁ idx id timestamp commands =
      buildLogEntry s idx id timestamp commands := by
    simp [buildLogEntry, hterm, hindex, hlast]
  refine ⟨?_, rfl, rfl, rfl, ⟨rfl, rfl⟩, by simp, by simp [hcommit], ?_⟩
  · simp [SharedState.repairLog, RepairLog.push, hentries, hindex, hlast, hterm, buildLogEntry]
  · unfold Handed at hqueue ⊢
    simp [hqueue, hcommit, hentry, Function.comp_def]

/-- **Taking office**: the worker is told to start heartbeats at the end of the log, and is handed
the no-op entry. -/
theorem extends_initializeLeadership (clock : Clock) (s : SharedState) :
    ∃ entry, Extends k s.replicationLog.length [.startHeartbeats s.nextMessageId s.currentTerm
      s.lastLogTerm s.lastLogIndex s.commitIndex] (s.nextMessageId + 1) entry s
        (initializeLeadership clock s) := by
  rw [initializeLeadership_eq]
  exact ⟨_, .of_appendOwn _ (by simp) (by simp) (by simp [SharedState.repairLog])
    (by simp [Handed])⟩

theorem nextMessageId_initializeLeadership (clock : Clock) (s : SharedState) :
    (initializeLeadership clock s).nextMessageId = s.nextMessageId + 2 := by
  simp [initializeLeadership_eq]

/-- A batch. -/
theorem effect_writeBatch (clock : Clock) (batch : OwnedWriteBatch) (callback : Callback)
    (hopen : s.persistenceOpen = true) :
    Effect k (.write clock batch callback) s (writeBatch clock batch callback s) := by
  rcases writeBatch_cases clock batch callback s with ⟨-, h⟩ | ⟨-, -, h⟩ | ⟨-, hclosed, -⟩
  · rw [h]
    exact .stay (.of_eq rfl rfl rfl) rfl
  · rw [h]
    exact .append _ (.of_appendOwn _ rfl rfl rfl (.of_eq rfl))
  · simp [hopen] at hclosed

/-- A completed message. -/
theorem effect_advanceCommitIndex {e : LeaderEvent} {index : ℕ} {s₁ s₂ : SharedState}
    (hindex : completedIndex s e = some index) (hkeeps : Keeps k [] s s₁)
    (hcommit : s₁.commitIndex = s.commitIndex)
    (hsame : s₂.repairLog = (advanceCommitIndex index s₁).repairLog ∧
      s₂.nextLogIndex = (advanceCommitIndex index s₁).nextLogIndex ∧
      s₂.commitIndex = (advanceCommitIndex index s₁).commitIndex ∧
      s₂.quorumWorkerTasks = (advanceCommitIndex index s₁).quorumWorkerTasks) :
    Effect k e s s₂ := by
  obtain ⟨hlog, hnext, hcommit₂, hqueue⟩ := hsame
  have hkept := hkeeps.queue
  unfold Handed at hkept
  unfold advanceCommitIndex at hlog hnext hcommit₂ hqueue
  split_ifs at hlog hnext hcommit₂ hqueue with hless
  · have hstored : s₂.commitIndex = index := by simpa using hcommit₂
    refine .commit ⟨?_, ?_, ?_⟩ (by omega) (hstored ▸ hindex)
    · rw [hlog, ← hkeeps.log]
      simp [SharedState.repairLog]
    · rw [hnext, ← hkeeps.next]
      simp
    · unfold Handed
      rw [hqueue, hstored]
      simp [hkept]
  · exact .stay ⟨hlog.trans hkeeps.log, hnext.trans hkeeps.next, by
      unfold Handed
      rw [hqueue, hkept]⟩ (hcommit₂.trans hcommit)

/-- The index of a poll that a report completes. -/
theorem completedIndex_persisted {id index : ℕ} {callback : Option Callback}
    {r : Countdown.Record} (h : s.Polls id .leader (.entry callback index) r)
    (hrespond : r.respond s.quorumSize .stored = .complete) :
    completedIndex s (.persisted (.logPersisted id)) = some index := by
  have hquorum : s.quorumSize ≤ r.grants := by
    simp only [Countdown.Record.respond] at hrespond
    split_ifs at hrespond with hquorum
    exact hquorum
  obtain ⟨-, number, hmsg⟩ := h
  rw [completedIndex, hmsg]
  cases callback <;> exact if_pos hquorum

/-- The index of a poll that an acknowledgement completes. -/
theorem completedIndex_responded {id index : ℕ} {callback : Option Callback}
    {r : Countdown.Record} (h : s.Polls id .leader (.entry callback index) r)
    (hrespond : r.respond s.quorumSize (.answer true) = .complete) (ok : Bool) :
    completedIndex s (.responded (.appendEntries id ok)) = some index := by
  have hquorum : s.quorumSize ≤ r.grants + 1 ∧ r.stored = true := by
    simp only [Countdown.Record.respond, Bool.toNat_true] at hrespond
    split_ifs at hrespond with hquorum
    exact hquorum
  obtain ⟨-, number, hmsg⟩ := h
  rw [completedIndex, hmsg]
  cases callback <;> exact if_pos hquorum

/-- A reply to a leader. -/
theorem effect_settles {reply : Reply} {id : ℕ} {e : LeaderEvent}
    (h : Settles .leader reply id s s')
    (hindex : ∀ {callback index r}, reply.role = .leader →
      s.Polls id .leader (.entry callback index) r → r.respond s.quorumSize reply.toResponse = .complete →
        completedIndex s e = some index) : Effect k e s s' := by
  have hremove : Keeps k [] s (s.removeOutstanding id) := .of_eq rfl rfl rfl
  cases h with
  | elected hpoll => cases hpoll.1
  | @completed callback _ _ hpoll hreply hrespond =>
    refine effect_advanceCommitIndex (hindex hreply hpoll hrespond) hremove rfl ?_
    cases callback <;> exact ⟨rfl, rfl, rfl, rfl⟩
  | _ => exact .stay (.of_eq rfl rfl rfl) rfl

/-- A response of the persistence worker. -/
theorem effect_handlePersistence (response : PersistenceResponseType) (s : SharedState) :
    Effect k (.persisted response) s (handlePersistence response s) := by
  refine effect_settles (settles_handlePersistence response ⟨.leader true, s, []⟩) fun hreply => ?_
  cases response with
  | votePersisted id term candidate => cases hreply
  | logPersisted id => exact completedIndex_persisted

/-- A response of a quorum worker. -/
theorem effect_handleQuorum (response : LocalQuorumTaskResponseType) (s : SharedState) :
    Effect k (.responded response) s (handleQuorum response s) := by
  cases response with
  | appendEntries id ok =>
    exact effect_settles (settles_handleAppendEntriesResponse id s) fun _ hpoll hrespond =>
      completedIndex_responded hpoll hrespond ok
  | _ => exact .stay (.of_eq rfl rfl rfl) rfl

/-- A repair of a node's log concerns the queue of that node's worker. -/
def Signals (k node : ℕ) (s s' : SharedState) : Prop :=
  Handed k [] s s' ∨ getQuorumWorkerIndex node s.identity = k ∧
    ∃ task, Handed k [task] s s' ∧ Repairs s.replicationLog task

theorem signals_pushToWorker {node : ℕ} {task : LocalQuorumWorkerTaskType} {s₁ : SharedState}
    (htask : Repairs s.replicationLog task) (hqueue : s₁.quorumWorkerTasks = s.quorumWorkerTasks) :
    Signals k node s (pushToWorker (getQuorumWorkerIndex node s.identity) task s₁) := by
  have hpushed := ((Queued.pushToWorker (getQuorumWorkerIndex node s.identity) task s₁).congr hqueue
    rfl).handed k
  split_ifs at hpushed with hk
  · exact Or.inr ⟨hk, task, hpushed, htask⟩
  · exact Or.inl hpushed

theorem signals_sendTruncateSignal (node prevTerm prevIndex : ℕ) (s : SharedState) :
    Signals k node s (sendTruncateSignal node prevTerm prevIndex s) := by
  unfold sendTruncateSignal
  dsimp only
  split_ifs
  · exact signals_pushToWorker (Or.inl ⟨_, _, _, rfl⟩) rfl
  · exact Or.inl (.of_eq rfl)

theorem signals_handleBackfillRequest (node lastLogTerm lastLogIndex : ℕ) (s : SharedState) :
    Signals k node s (handleBackfillRequest node lastLogTerm lastLogIndex s) := by
  have hbackfill : Signals k node s (sendBackfillData node lastLogTerm lastLogIndex s) := by
    unfold sendBackfillData
    dsimp only
    by_cases hk : getQuorumWorkerIndex node s.identity < s.quorumWorkerTasks.length
    · rw [if_pos hk]
      exact signals_pushToWorker (Or.inr ⟨_, rfl⟩) rfl
    · rw [if_neg hk]
      exact Or.inl (.of_eq rfl)
  unfold handleBackfillRequest handleFollowerAhead handleTermMismatch
  dsimp only
  split
  · exact signals_sendTruncateSignal ..
  · split_ifs
    · split <;> exact signals_sendTruncateSignal ..
    · exact hbackfill

/-- **What an event of a leader does.** -/
theorem effect_react {s : SharedState} (hopen : s.persistenceOpen = true) (e : LeaderEvent) :
    Effect k e s (react s e) := by
  cases e with
  | write clock batch callback => exact effect_writeBatch clock batch callback hopen
  | vote request callback =>
    have hasked := @asked_voteFor .leader nofun request callback s
    change Effect k _ s (s.voteFor request callback)
    generalize s.voteFor request callback = s' at hasked ⊢
    cases hasked <;> exact .stay (.of_eq rfl rfl rfl) rfl
  | persisted response => exact effect_handlePersistence response s
  | responded response => exact effect_handleQuorum response s
  | repair node lastLogTerm lastLogIndex =>
    have hlog : (handleBackfillRequest node lastLogTerm lastLogIndex s).repairLog = s.repairLog := by
      simp [SharedState.repairLog]
    rcases signals_handleBackfillRequest node lastLogTerm lastLogIndex s with
      hqueue | ⟨hnode, task, hqueue, htask⟩
    · exact .stay ⟨hlog, by simp [react], hqueue⟩ (by simp [react])
    · exact .repair task ⟨hlog, by simp [react], hqueue⟩ (by simp [react]) htask
        ⟨_, _, _, rfl, hnode⟩
  | retry => refine .stay (.of_eq ?_ ?_ ?_) ?_ <;> simp [react, SharedState.repairLog]

/-- A leader's commit index does not fall. -/
theorem commitIndex_le_react (hopen : s.persistenceOpen = true) (e : LeaderEvent) :
    s.commitIndex ≤ (react s e).commitIndex := by
  rcases @effect_react 0 s hopen e with ⟨_, h⟩ | ⟨_, h⟩ | ⟨_, h, _⟩ | ⟨_, _, h, _, _⟩
  · exact h.commit.ge
  · exact h.ge
  · exact h.le
  · exact h.ge

/-- An event leaves term, name and persistence channel, and message ids grow. -/
theorem react_unchanged (s : SharedState) (e : LeaderEvent) :
    (react s e).currentTerm = s.currentTerm ∧ (react s e).identity = s.identity ∧
      (react s e).persistenceOpen = s.persistenceOpen ∧
      s.nextMessageId ≤ (react s e).nextMessageId := by
  cases e with
  | write clock batch callback =>
    dsimp only [react]
    rcases writeBatch_cases clock batch callback s with ⟨-, h⟩ | ⟨-, -, h⟩ | ⟨-, -, h⟩ <;>
      simp [h]
  | vote request callback =>
    have hasked := @asked_voteFor .leader nofun request callback s
    dsimp only [react, requestVote]
    generalize s.voteFor request callback = s' at hasked ⊢
    cases hasked <;> simp
  | persisted response =>
    have hsettles := settles_handlePersistence response ⟨.leader true, s, []⟩
    obtain ⟨⟨⟨hidentity, -, hopen, -⟩, -⟩, -, hnext, -⟩ := hsettles.unchanged
    exact ⟨(hsettles.sameStanding (by simp)).1, hidentity, hopen, hnext.ge⟩
  | responded response => cases response <;> simp [react, handleQuorum]
  | repair node lastLogTerm lastLogIndex =>
    exact ⟨by simp [react], by simp [react], by simp [react],
      nextMessageId_le_handleBackfillRequest ..⟩
  | retry => simp [react]

end Leader

/-! ## The worker's queue -/

namespace RepairLog

/-- The log a worker has been told of, after one more task. -/
def tell (f : RepairLog) : LocalQuorumWorkerTaskType → RepairLog
  | .appendEntries _ entry _ => f.push entry
  | _ => f

/-- A task of a leader in office fits what the worker has been told: it continues that log, and
its commit index lies inside it and is not beyond the leader's. -/
def Continues (term commitIndex : ℕ) (f : RepairLog) : LocalQuorumWorkerTaskType → Prop
  | .startHeartbeats _ newTerm prevTerm prevLogIndex newCommitIndex =>
    newTerm = term ∧ prevLogIndex = f.lastLogIndex ∧ prevTerm = f.lastLogTerm ∧
      newCommitIndex ≤ f.lastLogIndex ∧ newCommitIndex ≤ commitIndex
  | .appendEntries id entry newCommitIndex =>
    id ≠ 0 ∧ entry.prevLogIndex = f.lastLogIndex ∧ entry.prevLogTerm = f.lastLogTerm ∧
      f.lastLogIndex ≤ entry.index ∧ newCommitIndex ≤ f.lastLogIndex ∧ newCommitIndex ≤ commitIndex
  | .updateCommitIndex newCommitIndex =>
    newCommitIndex ≤ f.lastLogIndex ∧ newCommitIndex ≤ commitIndex
  | .truncateLog .. => True
  | .backfillLog _ => True
  | _ => False

theorem Continues.mono {term commitIndex commitIndex' : ℕ} (hle : commitIndex ≤ commitIndex')
    {f : RepairLog} {task : LocalQuorumWorkerTaskType} (h : Continues term commitIndex f task) :
    Continues term commitIndex' f task := by
  cases task <;> simp only [Continues] at h ⊢ <;> omega

end RepairLog

/-- The tasks waiting for the worker lead from the log it has been told of to the leader's. -/
structure Feeds (allowed : LocalQuorumWorkerTaskType → Prop) (k term : ℕ) (f : RepairLog)
    (s : SharedState) (tasks : List LocalQuorumWorkerTaskType) : Prop where
  queue : s.quorumWorkerTasks[k]? = some tasks
  fits : Runs.AllSteps RepairLog.tell
    (fun f task => f.Continues term s.commitIndex task ∧ allowed task) f tasks
  reaches : Runs.run RepairLog.tell f tasks = s.repairLog

/-- A leader in office: its next entry follows its last one, message ids are in use, and what it
has committed is in its log. -/
structure InOffice (term : ℕ) (s : SharedState) : Prop where
  term : s.currentTerm = term
  next : s.nextLogIndex = s.lastLogIndex + 1
  ids : 0 < s.nextMessageId
  commit : s.commitIndex ≤ s.lastLogIndex
  isOpen : s.persistenceOpen = true

/-- A leader that completes no message beyond its log has committed nothing beyond it. -/
theorem InOffice.commit_react {term : ℕ} (h : InOffice term s) {e : LeaderEvent}
    (hindex : ∀ index ∈ Leader.completedIndex s e, index ≤ s.lastLogIndex) :
    (Leader.react s e).commitIndex ≤ (Leader.react s e).lastLogIndex := by
  have hkept : ∀ {tasks}, Leader.Keeps 0 tasks s (Leader.react s e) →
      (Leader.react s e).lastLogIndex = s.lastLogIndex :=
    fun hkeeps => congrArg RepairLog.lastLogIndex hkeeps.log
  rcases @Leader.effect_react 0 s h.isOpen e with
    ⟨entry, heffect⟩ | ⟨hkeeps, hcommit⟩ | ⟨hkeeps, hcommit, hcompleted⟩ |
    ⟨task, hkeeps, hcommit, -, -⟩
  · have hlast : (Leader.react s e).lastLogIndex = s.nextLogIndex :=
      (congrArg RepairLog.lastLogIndex heffect.log).trans heffect.index
    rw [heffect.commit, hlast, h.next]
    exact h.commit.trans (Nat.le_succ _)
  · rw [hcommit, hkept hkeeps]
    exact h.commit
  · rw [hkept hkeeps]
    exact hindex _ hcompleted
  · rw [hcommit, hkept hkeeps]
    exact h.commit

namespace Feeds

variable {allowed : LocalQuorumWorkerTaskType → Prop} {k term : ℕ} {f : RepairLog}
  {s s' : SharedState} {tasks : List LocalQuorumWorkerTaskType}

/-- **The leader takes office** with nothing waiting for the worker. -/
theorem initializeLeadership (clock : Clock) (hqueue : s.quorumWorkerTasks[k]? = some [])
    (hopen : s.persistenceOpen = true) (hend : s.repairLog = RepairLog.ofLog s.replicationLog)
    (hcommit : s.commitIndex ≤ s.lastLogIndex)
    (hstart : ∀ id term prevTerm prevIndex commitIndex,
      allowed (.startHeartbeats id term prevTerm prevIndex commitIndex))
    (happend : ∀ entry commitIndex,
      (Leader.initializeLeadership clock s).replicationLog = s.replicationLog ++ [entry] →
        allowed (.appendEntries entry.messageId entry commitIndex)) :
    InOffice s.currentTerm (Leader.initializeLeadership clock s) ∧
      ∃ rest, Feeds allowed k s.currentTerm s.repairLog (Leader.initializeLeadership clock s)
        (.startHeartbeats s.nextMessageId s.currentTerm s.lastLogTerm s.lastLogIndex
          s.commitIndex :: rest) := by
  obtain ⟨entry, h⟩ := @Leader.extends_initializeLeadership k clock s
  have hlast : (Leader.initializeLeadership clock s).lastLogIndex = s.replicationLog.length :=
    (congrArg RepairLog.lastLogIndex h.log).trans h.index
  have hle : s.lastLogIndex ≤ s.replicationLog.length := by
    have hfst : s.lastLogIndex = (logEnd s.replicationLog).1 :=
      congrArg RepairLog.lastLogIndex hend
    rw [hfst, LeaderLogs.endOf_fst]
    exact Nat.sub_le _ _
  refine ⟨⟨by simp, by rw [h.next, hlast], ?_, ?_, by simpa using hopen⟩,
    [.appendEntries (s.nextMessageId + 1) entry s.commitIndex], ?_, ?_, h.log.symm⟩
  · rw [Leader.nextMessageId_initializeLeadership]
    omega
  · rw [h.commit, hlast]
    omega
  · rw [h.queue, hqueue, Option.map_some, List.nil_append, List.singleton_append]
  · rw [h.commit]
    refine ⟨⟨⟨rfl, rfl, rfl, hcommit, le_rfl⟩, hstart ..⟩,
      ⟨⟨by omega, h.prev.1, h.prev.2, h.index ▸ hle, hcommit, le_rfl⟩, h.message ▸ happend _ _ ?_⟩, trivial⟩
    exact congrArg RepairLog.log h.log

/-- More tasks behind the others. -/
theorem extend (h : Feeds allowed k term f s tasks) {new : List LocalQuorumWorkerTaskType}
    (hqueue : Handed k new s s') (hcommit : s.commitIndex ≤ s'.commitIndex)
    (hfits : Runs.AllSteps RepairLog.tell
      (fun f task => f.Continues term s'.commitIndex task ∧ allowed task) s.repairLog new)
    (hreaches : Runs.run RepairLog.tell s.repairLog new = s'.repairLog) :
    Feeds allowed k term f s' (tasks ++ new) := by
  refine ⟨?_, ?_, ?_⟩
  · rw [hqueue, h.queue, Option.map_some]
  · rw [Runs.allSteps_append, h.reaches]
    exact ⟨h.fits.mono fun _ _ hfit => ⟨hfit.1.mono hcommit, hfit.2⟩, hfits⟩
  · rw [Runs.run_append, h.reaches, hreaches]

/-- **An event of the leader** whose commit index stays inside its log. -/
theorem react (h : Feeds allowed k term f s tasks) (hoffice : InOffice term s) {e : LeaderEvent}
    (hcorrect : (Leader.react s e).commitIndex ≤ (Leader.react s e).lastLogIndex)
    (happend : ∀ entry commitIndex,
      (Leader.react s e).replicationLog = s.replicationLog ++ [entry] →
        allowed (.appendEntries entry.messageId entry commitIndex))
    (hupdate : ∀ commitIndex, allowed (.updateCommitIndex commitIndex))
    (hrepair : ∀ node lastLogTerm lastLogIndex, e = .repair node lastLogTerm lastLogIndex →
      Leader.getQuorumWorkerIndex node s.identity = k →
        ∀ task, Repairs s.replicationLog task → allowed task) :
    InOffice term (Leader.react s e) ∧ ∃ new, Feeds allowed k term f (Leader.react s e)
      (tasks ++ new) := by
  obtain ⟨hterm, -, hopen, hids⟩ := Leader.react_unchanged s e
  have hstays : ∀ {new}, Leader.Keeps k new s (Leader.react s e) →
      InOffice term (Leader.react s e) := by
    intro new hkeeps
    have hlast : (Leader.react s e).lastLogIndex = s.lastLogIndex :=
      congrArg RepairLog.lastLogIndex hkeeps.log
    exact ⟨hterm.trans hoffice.term, by rw [hkeeps.next, hlast, hoffice.next],
      hoffice.ids.trans_le hids, hcorrect, hopen.trans hoffice.isOpen⟩
  rcases Leader.effect_react hoffice.isOpen e with
    ⟨entry, heffect⟩ | ⟨hkeeps, hcommit⟩ | ⟨hkeeps, hcommit, hindex⟩ |
    ⟨task, hkeeps, hcommit, htask, node, lastTerm, lastIndex, rfl, hnode⟩
  · have hlog : (Leader.react s e).replicationLog = s.replicationLog ++ [entry] :=
      congrArg RepairLog.log heffect.log
    have hlast : (Leader.react s e).lastLogIndex = s.nextLogIndex :=
      (congrArg RepairLog.lastLogIndex heffect.log).trans heffect.index
    have hle : s.repairLog.lastLogIndex ≤ entry.index := by
      rw [heffect.index, hoffice.next]
      exact Nat.le_succ _
    refine ⟨⟨hterm.trans hoffice.term, by rw [heffect.next, hlast],
      hoffice.ids.trans_le hids, hcorrect, hopen.trans hoffice.isOpen⟩, _,
      h.extend heffect.queue heffect.commit.ge ⟨⟨?_, heffect.message ▸ happend _ _ hlog⟩, trivial⟩
        heffect.log.symm⟩
    exact ⟨hoffice.ids.ne', heffect.prev.1, heffect.prev.2, hle, hoffice.commit, heffect.commit.ge⟩
  · refine ⟨hstays hkeeps, _, h.extend hkeeps.queue hcommit.ge trivial ?_⟩
    exact hkeeps.log.symm
  · refine ⟨hstays hkeeps, _, h.extend hkeeps.queue hcommit.le ⟨⟨?_, hupdate _⟩, trivial⟩ ?_⟩
    · have hlast : (Leader.react s e).lastLogIndex = s.lastLogIndex :=
        congrArg RepairLog.lastLogIndex hkeeps.log
      exact ⟨hcorrect.trans hlast.le, le_rfl⟩
    · exact hkeeps.log.symm
  · have hallowed := hrepair node lastTerm lastIndex rfl hnode task htask
    refine ⟨hstays hkeeps, _, h.extend hkeeps.queue hcommit.ge ⟨⟨?_, hallowed⟩, trivial⟩ ?_⟩
    · rcases htask with ⟨id, prevTerm, prevIndex, rfl⟩ | ⟨start, rfl⟩ <;> trivial
    · rcases htask with ⟨id, prevTerm, prevIndex, rfl⟩ | ⟨start, rfl⟩ <;> exact hkeeps.log.symm

end Feeds

end Kraft
