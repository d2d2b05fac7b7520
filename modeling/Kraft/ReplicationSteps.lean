/-
# What a step does to replication

One lemma for `accept` and one for the parts of `time_step` that say what becomes of the log,
of the end of the log as the node has it cached, of the leader's next index, and of the queues
of the quorum workers.  A step is one of six kinds:

* `Stays` : the log stays, and the tasks handed to the quorum workers are `Routine`;
* `Stores` : a follower appends the entry of a request;
* `Writes` : a leader appends a batch;
* `TakesOffice` : a new leader tells its quorum workers and appends its no-op entry;
* `Wins` : a candidate is elected;
* `Cuts` : a follower truncates its log.

The persistence channel is taken to be open, and the entries of requests to be readable.
-/
import Kraft.LogSteps
import Kraft.NodeTerms

namespace Kraft

open SharedState StateMachine

variable {s s' : SharedState} {starts : Bool} {sm sm' : StateMachine}

/-! ## Queues -/

/-- The tasks `new k` have been pushed on the queue of quorum worker `k`. -/
def Queued (s s' : SharedState) (new : ℕ → List LocalQuorumWorkerTaskType) : Prop :=
  ∀ k, s'.quorumWorkerTasks[k]? = s.quorumWorkerTasks[k]?.map (· ++ new k)

namespace Queued

variable {s s₁ s₂ : SharedState}

/-- The queues stay as they are. -/
theorem of_eq (h : s₁.quorumWorkerTasks = s.quorumWorkerTasks) : Queued s s₁ fun _ => [] := by
  intro k
  simp [h]

/-- What two steps queue. -/
theorem trans {new₁ new₂ : ℕ → List LocalQuorumWorkerTaskType} (h₁ : Queued s s₁ new₁)
    (h₂ : Queued s₁ s₂ new₂) : Queued s s₂ fun k => new₁ k ++ new₂ k := by
  intro k
  rw [h₂ k, h₁ k, Option.map_map]
  congr 1
  funext queue
  exact List.append_assoc ..

/-- A task for every worker. -/
theorem pushToQuorum (s : SharedState) (task : LocalQuorumWorkerTaskType) :
    Queued s (s.pushToQuorum task) fun _ => [task] := by
  intro k
  simp

/-- A task for one worker. -/
theorem pushToWorker (j : ℕ) (task : LocalQuorumWorkerTaskType) (s : SharedState) :
    Queued s (Leader.pushToWorker j task s) fun k => if j = k then [task] else [] := by
  intro k
  rw [Leader.pushToWorker_quorumWorkerTasks, List.getElem?_modify]
  by_cases h : j = k
  · simp [h]
  · simp [h]

theorem congr {s₁' : SharedState} {new : ℕ → List LocalQuorumWorkerTaskType}
    (h : Queued s' s₁' new) (hs : s'.quorumWorkerTasks = s.quorumWorkerTasks)
    (hs₁ : s₁.quorumWorkerTasks = s₁'.quorumWorkerTasks) : Queued s s₁ new := by
  intro k
  rw [hs₁, h k, hs]

end Queued

/-! ## The kinds of steps -/

/-- The log and its cached end stay. -/
structure SameEnd (s s' : SharedState) : Prop where
  log : s'.replicationLog = s.replicationLog
  lastLogIndex : s'.lastLogIndex = s.lastLogIndex
  lastLogTerm : s'.lastLogTerm = s.lastLogTerm

theorem sameEnd_iff : SameEnd s s' ↔ s'.replicationLog = s.replicationLog ∧
    s'.lastLogIndex = s.lastLogIndex ∧ s'.lastLogTerm = s.lastLogTerm :=
  ⟨fun h => ⟨h.log, h.lastLogIndex, h.lastLogTerm⟩, fun h => ⟨h.1, h.2.1, h.2.2⟩⟩

/-- A task that goes to the quorum workers while the log stays: votes are asked for when an
election starts, entries are sent again by a leader in office, and the commit index told is
the new one. -/
def Routine (starts : Bool) (sm sm' : StateMachine) : LocalQuorumWorkerTaskType → Prop
  | .appendEntries .. => False
  | .startHeartbeats .. => False
  | .requestVote _ term lastTerm lastIndex => starts = true ∧ term = sm.shared.nextTerm ∧
      lastTerm = sm.shared.lastLogTerm ∧ lastIndex = sm.shared.lastLogIndex
  | .backfillLog data => sm.delegate = .leader true ∧ ∀ e ∈ data, e ∈ sm.shared.replicationLog
  | .updateCommitIndex commitIndex =>
      sm.delegate = .leader true ∧ commitIndex = sm'.shared.commitIndex
  | _ => True

/-- The log stays, and a leader goes on as before. -/
structure Stays (starts : Bool) (sm sm' : StateMachine) : Prop where
  same : SameEnd sm.shared sm'.shared
  leads : sm'.delegate.nodeType = .leader → sm'.delegate = sm.delegate ∧
    sm'.shared.currentTerm = sm.shared.currentTerm ∧
    sm'.shared.nextLogIndex = sm.shared.nextLogIndex
  queues : ∃ new, Queued sm.shared sm'.shared new ∧
    ∀ k, ∀ task ∈ new k, Routine starts sm sm' task

/-- A follower appends the entry of a request that continues its log. -/
structure Stores (request : LocalAppendEntries) (entry : LogEntry) (owned : OwnedLogEntry)
    (sm sm' : StateMachine) : Prop where
  carried : request.entry = some entry
  data : entry.data = .message owned
  valid : ValidAppendEntries request sm.shared
  recognised : Follower.Recognises request sm.shared
  role : sm.delegate.nodeType = .follower
  role' : sm'.delegate.nodeType = .follower
  log : sm'.shared.replicationLog = sm.shared.replicationLog ++ [owned]
  lastLogIndex : sm'.shared.lastLogIndex = entry.index
  lastLogTerm : sm'.shared.lastLogTerm = entry.term
  queues : sm'.shared.quorumWorkerTasks = sm.shared.quorumWorkerTasks

/-- A leader appends the entry that it builds at position `idx`, and hands it to its quorum
workers after the tasks `first`. -/
structure Appends (idx : ℕ) (first : List LocalQuorumWorkerTaskType) (sm sm' : StateMachine) :
    Prop where
  role : sm.delegate.nodeType = .leader
  currentTerm : sm'.shared.currentTerm = sm.shared.currentTerm
  lastLogIndex : sm'.shared.lastLogIndex = idx
  lastLogTerm : sm'.shared.lastLogTerm = sm.shared.currentTerm
  nextLogIndex : sm'.shared.nextLogIndex = idx + 1
  entry : ∃ id timestamp commands, sm.shared.nextMessageId ≤ id ∧
    sm'.shared.replicationLog = sm.shared.replicationLog ++
      [Leader.buildLogEntry sm.shared idx id timestamp commands] ∧
    Queued sm.shared sm'.shared fun _ => first ++ [.appendEntries id
      (Leader.buildLogEntry sm.shared idx id timestamp commands) sm.shared.commitIndex]

/-- A leader appends a batch. -/
structure Writes (sm sm' : StateMachine) : Prop
    extends Appends sm.shared.nextLogIndex [] sm sm' where
  role' : sm'.delegate = sm.delegate

/-- A new leader starts the heartbeats and appends its no-op entry. -/
structure TakesOffice (sm sm' : StateMachine) : Prop
    extends Appends sm.shared.replicationLog.length
      [.startHeartbeats sm.shared.nextMessageId sm.shared.currentTerm sm.shared.lastLogTerm
        sm.shared.lastLogIndex sm.shared.commitIndex] sm sm' where
  before : sm.delegate = .leader false
  after : sm'.delegate = .leader true

/-- A candidate is elected. -/
structure Wins (term : ℕ) (sm sm' : StateMachine) : Prop where
  role : sm.delegate.nodeType = .candidate
  role' : sm'.delegate = .leader false
  same : SameEnd sm.shared sm'.shared
  currentTerm : sm'.shared.currentTerm = term
  queues : sm'.shared.quorumWorkerTasks = sm.shared.quorumWorkerTasks

/-- A follower truncates its log after position `prevIndex`. -/
structure Cuts (prevTerm prevIndex : ℕ) (sm sm' : StateMachine) : Prop where
  role : sm.delegate.nodeType = .follower
  role' : sm'.delegate.nodeType = .follower
  longer : prevIndex + 1 < sm.shared.replicationLog.length
  log : sm'.shared.replicationLog = sm.shared.replicationLog.take (prevIndex + 1)
  lastLogIndex : sm'.shared.lastLogIndex = prevIndex
  lastLogTerm : sm'.shared.lastLogTerm = prevTerm
  queues : sm'.shared.quorumWorkerTasks = sm.shared.quorumWorkerTasks

/-! ## Requests -/

/-- A step that touches neither the log nor the role nor the queues. -/
theorem Stays.of_eq (hsame : SameEnd sm.shared sm'.shared) (hrole : sm'.delegate = sm.delegate)
    (hterm : sm'.shared.currentTerm = sm.shared.currentTerm)
    (hnext : sm'.shared.nextLogIndex = sm.shared.nextLogIndex)
    (hqueues : sm'.shared.quorumWorkerTasks = sm.shared.quorumWorkerTasks) : Stays starts sm sm' :=
  ⟨hsame, fun _ => ⟨hrole, hterm, hnext⟩, _, .of_eq hqueues, fun _ _ h => by simp at h⟩

/-- A step after which the node is no leader. -/
theorem Stays.of_not_leader (hsame : SameEnd sm.shared sm'.shared)
    (hrole : sm'.delegate.nodeType ≠ .leader)
    (hqueues : sm'.shared.quorumWorkerTasks = sm.shared.quorumWorkerTasks) : Stays starts sm sm' :=
  ⟨hsame, fun h => absurd h hrole, _, .of_eq hqueues, fun _ _ h => by simp at h⟩

/-- A response is taken from a queue first. -/
theorem Stays.of_drop (sm₁ : StateMachine) (hsame : SameEnd sm.shared sm₁.shared)
    (hrole : sm₁.delegate = sm.delegate) (hterm : sm₁.shared.currentTerm = sm.shared.currentTerm)
    (hnextTerm : sm₁.shared.nextTerm = sm.shared.nextTerm)
    (hnext : sm₁.shared.nextLogIndex = sm.shared.nextLogIndex)
    (hqueues : sm₁.shared.quorumWorkerTasks = sm.shared.quorumWorkerTasks)
    (h : Stays starts sm₁ sm') : Stays starts sm sm' := by
  obtain ⟨new, hqueued, htasks⟩ := h.queues
  refine ⟨⟨h.same.log.trans hsame.log, h.same.lastLogIndex.trans hsame.lastLogIndex,
    h.same.lastLogTerm.trans hsame.lastLogTerm⟩, fun hlead => ?_, new, hqueued.congr hqueues rfl,
    fun k task htask => ?_⟩
  · obtain ⟨hrole', hterm', hnext'⟩ := h.leads hlead
    exact ⟨hrole'.trans hrole, hterm'.trans hterm, hnext'.trans hnext⟩
  · have hroutine := htasks k task htask
    cases task <;> simp_all [Routine, hsame.log, hsame.lastLogIndex, hsame.lastLogTerm]

/-- A request for a vote leaves the log. -/
theorem stays_acceptRequestVote (request : LocalRequestVoteRequest) (callback : Callback)
    (sm : StateMachine) : Stays false sm (sm.acceptRequestVote request callback) := by
  have hrole := delegate_acceptRequestVote request callback sm
  have hasked := asked_acceptRequestVote request callback sm
  generalize sm.acceptRequestVote request callback = sm' at hrole hasked ⊢
  obtain ⟨delegate, s', requests⟩ := sm'
  cases hasked <;> exact .of_eq ⟨rfl, rfl, rfl⟩ hrole rfl rfl rfl

section AppendEntries

variable {role : RaftNodeType} {request : LocalAppendEntries} {callback : Callback}
  {s s₁ s' : SharedState}

/-- A leader that steps down stops its heartbeats. -/
theorem Heeds.queued (h : Heeds role request s s₁) :
    s₁.quorumWorkerTasks = s.quorumWorkerTasks ∨
      role = .leader ∧ Queued s s₁ fun _ => [.stopHeartbeats s.nextMessageId] := by
  cases h with
  | stepsDown hrole => exact Or.inr ⟨hrole, (Queued.pushToQuorum s _).congr rfl rfl⟩
  | _ => exact Or.inl rfl

/-- A request tells the quorum workers nothing else. -/
theorem Receives.queued (h : Receives role request callback s s') :
    s'.quorumWorkerTasks = s.quorumWorkerTasks ∨
      role = .leader ∧ Queued s s' fun _ => [.stopHeartbeats s.nextMessageId] := by
  cases h with
  | unrecognised => exact Or.inl rfl
  | mismatched hheeds => exact hheeds.queued
  | acknowledged hheeds => exact hheeds.queued
  | adopted => exact Or.inl (by simp)
  | unstored hrole hheeds => exact Or.inl (by simp [(hheeds.sameTasks (by rw [hrole]; simp)).1])
  | stored hrole hheeds => exact Or.inl (by simp [(hheeds.sameTasks (by rw [hrole]; simp)).1])

/-- A follower that leaves its log as it is. -/
theorem Receives.stays (h : Receives sm.delegate.nodeType request callback sm.shared sm'.shared)
    (hsame : SameEnd sm.shared sm'.shared) (hrole' : sm'.delegate.nodeType ≠ .leader) :
    Stays false sm sm' := by
  rcases h.queued with hqueues | ⟨-, hqueues⟩
  · exact .of_not_leader hsame hrole' hqueues
  · refine ⟨hsame, fun hlead => absurd hlead hrole', _, hqueues, fun k task htask => ?_⟩
    obtain rfl := List.mem_singleton.mp htask
    trivial

end AppendEntries

/-- **AppendEntries**, in every role. -/
theorem acceptAppendEntries_replication (clock : Clock) (request : LocalAppendEntries)
    (callback : Callback) (sm : StateMachine) (hopen : sm.shared.persistenceOpen = true)
    (hdata : ∀ entry ∈ request.entry, ∃ owned, entry.data = .message owned) :
    Stays false sm (sm.acceptAppendEntries clock request callback) ∨
      ∃ entry owned,
        Stores request entry owned sm (sm.acceptAppendEntries clock request callback) := by
  have hrole := nodeType_acceptAppendEntries clock request callback sm
  have hreceives := receives_acceptAppendEntries clock request callback sm
  generalize sm.acceptAppendEntries clock request callback = sm' at hrole hreceives ⊢
  obtain ⟨delegate, s', requests⟩ := sm'
  have hkeep := hreceives
  dsimp only at hrole hreceives
  cases hreceives with
  | unrecognised hheard =>
    rcases hrole with ⟨-, hfollower⟩ | ⟨-, hdelegate⟩
    · exact Or.inl (hkeep.stays ⟨rfl, rfl, rfl⟩ (by rw [hfollower]; simp))
    · exact Or.inl (.of_eq ⟨rfl, rfl, rfl⟩ hdelegate rfl rfl rfl)
  | mismatched hheeds | acknowledged hheeds =>
    have hfollower := (hrole.resolve_right fun hnot => hnot.1 hheeds.heard).2
    obtain ⟨⟨⟨-, hindex, hterm, -, hlog⟩, -⟩, -⟩ := hheeds.unchanged
    exact Or.inl (hkeep.stays ⟨hlog, hindex, hterm⟩ (by rw [hfollower]; simp))
  | adopted hfollows hterm hleader =>
    have hfollower := (hrole.resolve_right fun hnot =>
      hnot.1 (Heeds.follows hfollows hterm hleader).heard).2
    exact Or.inl (hkeep.stays (sameEnd_iff.mpr (by simp)) (by rw [hfollower]; simp))
  | unstored hfollows hheeds _ _ hrefused =>
    -- a readable entry would be stored
    have hnone : request.entry = none := Option.eq_none_iff_forall_ne_some.mpr fun entry hentry => by
      obtain ⟨owned, howned⟩ := hdata entry hentry
      have hread := hrefused entry hentry
      simp [howned, OwnedLogEntry.fromBytes, hopen] at hread
    have hfollower := (hrole.resolve_right fun hnot => hnot.1 hheeds.heard).2
    obtain ⟨⟨⟨-, hindex, hterm, -, hlog⟩, -⟩, -⟩ := hheeds.unchanged
    exact Or.inl (hkeep.stays (sameEnd_iff.mpr (by simp [hnone, hindex, hterm, hlog]))
      (by rw [hfollower]; simp))
  | @stored s₁ entry owned hfollows hheeds hvalid _ hentry hread =>
    have hfollower := (hrole.resolve_right fun hnot => hnot.1 hheeds.heard).2
    have hheard := hheeds.heard
    rw [hfollows] at hheard
    obtain ⟨owned', howned⟩ := hdata entry hentry
    obtain rfl : owned' = owned := by simpa [howned, OwnedLogEntry.fromBytes] using hread
    refine Or.inr ⟨entry, owned', hentry, howned, hvalid, hheard, hfollows, hfollower, ?_, ?_, ?_, ?_⟩
    · simp [hheeds.unchanged.1.1.2.2.2.2]
    · simp [hentry]
    · simp [hentry]
    · simp [(hheeds.sameTasks (by rw [hfollows]; simp)).1]

/-- A leader appends an entry in a state that agrees with the machine's on the log. -/
theorem Appends.of_appendOwn {idx id timestamp : ℕ} {commands : List PutRequest}
    {first : List LocalQuorumWorkerTaskType} {s₁ : SharedState} {delegate : Delegate}
    (type : OutstandingMessageType) (hrole : sm.delegate.nodeType = .leader)
    (hid : sm.shared.nextMessageId ≤ id) (hterm : s₁.currentTerm = sm.shared.currentTerm)
    (hcommit : s₁.commitIndex = sm.shared.commitIndex)
    (hlog : s₁.replicationLog = sm.shared.replicationLog)
    (hentry : Leader.buildLogEntry s₁ idx id timestamp commands =
      Leader.buildLogEntry sm.shared idx id timestamp commands)
    (hqueues : s₁.quorumWorkerTasks = sm.shared.quorumWorkerTasks.map (· ++ first)) :
    Appends idx first sm
      ⟨delegate, Leader.appendOwn type idx id timestamp commands s₁, sm.backfillRequests⟩ := by
  refine ⟨hrole, by simp [hterm], by simp, by simp [hterm], by simp, id, timestamp, commands,
    hid, by simp [hlog, hentry], fun k => ?_⟩
  rcases hk : sm.shared.quorumWorkerTasks[k]? with _ | tasks <;>
    simp [hqueues, hcommit, hentry, hk]

/-- A batch of writes is refused or appended. -/
theorem acceptWriteBatch_replication (clock : Clock) (batch : OwnedWriteBatch) (callback : Callback)
    (sm : StateMachine) (hopen : sm.shared.persistenceOpen = true) :
    Stays false sm (sm.acceptWriteBatch clock batch callback) ∨
      Writes sm (sm.acceptWriteBatch clock batch callback) := by
  unfold StateMachine.acceptWriteBatch
  split
  · next initialized hrole =>
    rcases Leader.writeBatch_cases clock batch callback sm.shared with
      ⟨-, heq⟩ | ⟨-, -, heq⟩ | ⟨-, hclosed, -⟩
    · rw [heq]
      exact Or.inl (.of_eq ⟨rfl, rfl, rfl⟩ rfl rfl rfl rfl)
    · rw [heq]
      exact Or.inr ⟨.of_appendOwn _ (by simp [hrole]) le_rfl rfl rfl rfl rfl (by simp), rfl⟩
    · simp [hopen] at hclosed
  · exact Or.inl (.of_eq ⟨rfl, rfl, rfl⟩ rfl rfl rfl rfl)

/-- **What an accepted request does to replication.** -/
theorem accept_replication (clock : Clock) (message : LocalRaftMessage) (sm : StateMachine)
    (hopen : sm.shared.persistenceOpen = true)
    (hdata : ∀ request, message.payload = .appendEntries request →
      ∀ entry ∈ request.entry, ∃ owned, entry.data = .message owned) :
    Stays false sm (sm.accept clock message) ∨
      (∃ request entry owned, message.payload = .appendEntries request ∧
        Stores request entry owned sm (sm.accept clock message)) ∨
      (∃ batch, message.payload = .writeBatch batch ∧ Writes sm (sm.accept clock message)) := by
  unfold StateMachine.accept
  split
  · next request hpayload => exact Or.inl (stays_acceptRequestVote request message.callback sm)
  · next request hpayload =>
    refine (acceptAppendEntries_replication clock request message.callback sm hopen
      (hdata request hpayload)).imp_right fun ⟨entry, owned, hstores⟩ => ?_
    exact Or.inl ⟨request, entry, owned, hpayload, hstores⟩
  · exact Or.inl (.of_eq ⟨rfl, rfl, rfl⟩ rfl rfl rfl rfl)
  · next batch hpayload =>
    exact (acceptWriteBatch_replication clock batch message.callback sm hopen).imp_right fun h =>
      Or.inr ⟨batch, hpayload, h⟩

/-! ## The parts of `time_step` -/

/-- The quorum workers are told nothing, or the new commit index. -/
def TellsCommit (s s' : SharedState) : Prop :=
  ∃ new, Queued s s' new ∧ ∀ k, ∀ task ∈ new k, task = .updateCommitIndex s'.commitIndex

/-- Nothing is told. -/
theorem TellsCommit.of_eq (h : s'.quorumWorkerTasks = s.quorumWorkerTasks) :
    TellsCommit s s' := ⟨_, .of_eq h, fun _ _ h => by simp at h⟩

theorem TellsCommit.congr {s₁ s₁' : SharedState} (h : TellsCommit s s₁)
    (hs : s.quorumWorkerTasks = s'.quorumWorkerTasks)
    (hs₁ : s₁'.quorumWorkerTasks = s₁.quorumWorkerTasks)
    (hcommit : s₁'.commitIndex = s₁.commitIndex) : TellsCommit s' s₁' := by
  obtain ⟨new, hqueued, htasks⟩ := h
  exact ⟨new, hqueued.congr hs hs₁, fun k task htask => by rw [hcommit]; exact htasks k task htask⟩

/-- A leader that commits tells the workers its commit index. -/
theorem Leader.tellsCommit_advanceCommitIndex (index : ℕ) (s : SharedState) :
    TellsCommit s (Leader.advanceCommitIndex index s) := by
  unfold Leader.advanceCommitIndex
  split_ifs
  · refine ⟨fun _ => [.updateCommitIndex index], ?_, by simp⟩
    exact (Queued.pushToQuorum _ (.updateCommitIndex index)).congr (by simp) rfl
  · exact .of_eq rfl

/-- So does a message that is settled. -/
theorem Settles.tellsCommit {role : RaftNodeType} {reply : Reply} {id : ℕ}
    (h : Settles role reply id s s') : TellsCommit s s' := by
  cases h with
  | @completed callback index =>
    have hcommit := Leader.tellsCommit_advanceCommitIndex index (s.removeOutstanding id)
    cases callback <;> exact hcommit.congr rfl rfl rfl
  | _ => exact .of_eq rfl

/-- A leader that only tells its commit index stays. -/
theorem Stays.of_tellsCommit (hsame : SameEnd sm.shared sm'.shared)
    (hrole : sm.delegate = .leader true) (hrole' : sm'.delegate = sm.delegate)
    (hterm : sm'.shared.currentTerm = sm.shared.currentTerm)
    (hnext : sm'.shared.nextLogIndex = sm.shared.nextLogIndex)
    (htells : TellsCommit sm.shared sm'.shared) : Stays starts sm sm' := by
  obtain ⟨new, hqueued, htasks⟩ := htells
  refine ⟨hsame, fun _ => ⟨hrole', hterm, hnext⟩, new, hqueued, fun k task htask => ?_⟩
  rw [htasks k task htask]
  exact ⟨hrole, rfl⟩

/-- The loops do nothing before a leader has taken office. -/
theorem pop_of_not_ready (h : ¬ sm.ready = true) : sm.popPersistence = sm ∧ sm.popQuorum = sm := by
  unfold popPersistence popQuorum
  refine ⟨?_, ?_⟩
  · split <;> simp [h]
  · split <;> simp [h]

/-- A leader that is ready is in office. -/
theorem delegate_of_ready {initialized : Bool} (h : sm.ready = true)
    (hrole : sm.delegate = .leader initialized) : sm.delegate = .leader true := by
  cases initialized with
  | true => exact hrole
  | false => simp [ready, hrole] at h

/-- A reply leaves the log alone, and tells the quorum workers at most the commit index. -/
theorem Stays.of_settles {reply : Reply} {id : ℕ}
    (h : Settles sm.delegate.nodeType reply id sm.shared sm'.shared) (hready : sm.ready = true)
    (hleads : sm.delegate.nodeType = .leader → sm'.delegate = sm.delegate)
    (hrole : sm.delegate.nodeType ≠ .leader → sm'.delegate.nodeType ≠ .leader) :
    Stays false sm sm' := by
  obtain ⟨⟨-, hindex, hterm, hnext, hlog⟩, -⟩ := h.unchanged
  by_cases hlead : sm.delegate.nodeType = .leader
  · obtain ⟨initialized, hdelegate⟩ := Delegate.nodeType_eq_leader hlead
    exact .of_tellsCommit ⟨hlog, hindex, hterm⟩ (delegate_of_ready hready hdelegate) (hleads hlead)
      (h.sameStanding (by rw [hlead]; simp)).1 hnext h.tellsCommit
  · exact .of_not_leader ⟨hlog, hindex, hterm⟩ (hrole hlead) (h.sameCommit hlead).2

/-- **One persistence response.** -/
theorem popPersistence_replication (sm : StateMachine) :
    Stays false sm sm.popPersistence ∨
      ∃ term, sm.completedElection .popPersistence = some term ∧ Wins term sm sm.popPersistence := by
  rcases hwon : sm.completedElection .popPersistence with _ | term
  · left
    by_cases hready : sm.ready = true
    · rcases popPersistence_cases sm with heq | ⟨response, rest, hqueue, heq⟩
      · rw [heq]
        exact .of_eq ⟨rfl, rfl, rfl⟩ rfl rfl rfl rfl
      · have hrole : sm.delegate.nodeType ≠ .leader →
            sm.popPersistence.delegate.nodeType ≠ .leader := by
          intro hrole hlead
          obtain ⟨term, hterm⟩ := completedElection_of_responds ⟨0, 0⟩ (Or.inl rfl) hrole hlead
          rw [hwon] at hterm
          cases hterm
        rw [heq] at hrole ⊢
        exact .of_drop (sm.dropPersistence rest) ⟨rfl, rfl, rfl⟩ rfl rfl rfl rfl rfl
          (.of_settles (settles_handlePersistence response (sm.dropPersistence rest)) hready
            (fun hlead => (responds_handlePersistence response _).delegate_eq (by rw [hlead]; simp))
            hrole)
    · rw [(pop_of_not_ready hready).1]
      exact .of_eq ⟨rfl, rfl, rfl⟩ rfl rfl rfl rfl
  · right
    obtain ⟨id, c, rest, done, votes, hrole, -, -, -, heq⟩ := popPersistence_of_completed hwon
    refine ⟨term, rfl, ?_⟩
    rw [heq]
    exact ⟨hrole, rfl, ⟨rfl, rfl, rfl⟩, rfl, rfl⟩

/-- A response of a quorum worker truncates the log or leaves it. -/
theorem handleQuorum_replication (response : LocalQuorumTaskResponseType) (sm : StateMachine)
    (hready : sm.ready = true) (hrole : sm.delegate.nodeType ≠ .leader →
      (sm.handleQuorum response).delegate.nodeType ≠ .leader) :
    Stays false sm (sm.handleQuorum response) ∨
      ∃ node prevTerm prevIndex, response = .truncateLog node prevTerm prevIndex ∧
        Cuts prevTerm prevIndex sm (sm.handleQuorum response) := by
  have hsettles := settles_handleQuorum response sm
  have hsame := (responds_handleQuorum response sm).delegate_eq
  generalize sm.handleQuorum response = sm' at *
  obtain ⟨delegate, s', requests⟩ := sm'
  cases hsettles with
  | ignored =>
    left
    by_cases hlead : sm.delegate.nodeType = .leader
    · exact .of_eq ⟨rfl, rfl, rfl⟩ (hsame (by rw [hlead]; simp)) rfl rfl rfl
    · exact .of_not_leader ⟨rfl, rfl, rfl⟩ (hrole hlead) rfl
  | settled _ h =>
    exact Or.inl (.of_settles h hready (fun hlead => hsame (by rw [hlead]; simp)) hrole)
  | @truncated node prevTerm prevIndex hfollower hresponse =>
    have hfollower' : delegate.nodeType = .follower := by
      rw [show delegate = sm.delegate from hsame (by rw [hfollower]; simp), hfollower]
    rcases Nat.lt_or_ge (prevIndex + 1) sm.shared.replicationLog.length with hlonger | hle
    · obtain ⟨hlog, hterm, hindex, -⟩ := Follower.truncateLog_of_lt prevTerm hlonger
      exact Or.inr ⟨node, prevTerm, prevIndex, hresponse, hfollower, hfollower', hlonger, hlog,
        hindex, hterm, by simp⟩
    · have heq := Follower.truncateLog_of_le prevTerm hle
      exact Or.inl (.of_not_leader (sameEnd_iff.mpr (by simp [heq])) (by rw [hfollower']; simp)
        (by simp))

/-- **One quorum response.** -/
theorem popQuorum_replication (sm : StateMachine) :
    Stays false sm sm.popQuorum ∨
      (∃ term, sm.completedElection .popQuorum = some term ∧ Wins term sm sm.popQuorum) ∨
      ∃ node prevTerm prevIndex rest,
        sm.shared.quorumResponse = .truncateLog node prevTerm prevIndex :: rest ∧
          Cuts prevTerm prevIndex sm sm.popQuorum := by
  rcases hwon : sm.completedElection .popQuorum with _ | term
  · by_cases hready : sm.ready = true
    · rcases popQuorum_cases sm with heq | ⟨response, rest, hqueue, heq⟩
      · rw [heq]
        exact Or.inl (.of_eq ⟨rfl, rfl, rfl⟩ rfl rfl rfl rfl)
      · have hrole : sm.delegate.nodeType ≠ .leader →
            sm.popQuorum.delegate.nodeType ≠ .leader := by
          intro hrole hlead
          obtain ⟨term, hterm⟩ := completedElection_of_responds ⟨0, 0⟩ (Or.inr rfl) hrole hlead
          rw [hwon] at hterm
          cases hterm
        rw [heq] at hrole ⊢
        rcases handleQuorum_replication response (sm.dropQuorum rest) hready hrole with
          hstays | ⟨node, prevTerm, prevIndex, rfl, hcuts⟩
        · exact Or.inl (.of_drop (sm.dropQuorum rest) ⟨rfl, rfl, rfl⟩ rfl rfl rfl rfl rfl hstays)
        · exact Or.inr (Or.inr ⟨node, prevTerm, prevIndex, rest, hqueue, hcuts.role, hcuts.role',
            hcuts.longer, hcuts.log, hcuts.lastLogIndex, hcuts.lastLogTerm, hcuts.queues⟩)
    · rw [(pop_of_not_ready hready).2]
      exact Or.inl (.of_eq ⟨rfl, rfl, rfl⟩ rfl rfl rfl rfl)
  · right; left
    obtain ⟨id, granted, rest, votes, hrole, -, -, -, heq⟩ := popQuorum_of_completed hwon
    refine ⟨term, rfl, ?_⟩
    rw [heq]
    exact ⟨hrole, rfl, ⟨rfl, rfl, rfl⟩, rfl, rfl⟩

/-- A leader that takes office. -/
theorem takeOffice_replication (clock : Clock) (sm : StateMachine) :
    sm.takeOffice clock = sm ∨ TakesOffice sm (sm.takeOffice clock) := by
  unfold StateMachine.takeOffice
  split
  · next hdelegate =>
    rw [Leader.initializeLeadership_eq]
    refine Or.inr ⟨.of_appendOwn _ ?_ ?_ ?_ ?_ ?_ ?_ ?_, hdelegate, rfl⟩ <;> simp [hdelegate]
  · exact Or.inl rfl

/-- What a leader that repairs a follower hands to a quorum worker. -/
def Repairs (log : List OwnedLogEntry) (task : LocalQuorumWorkerTaskType) : Prop :=
  (∃ id prevTerm prevIndex, task = .truncateLog id prevTerm prevIndex) ∨
    ∃ start, task = .backfillLog (log.drop start)

/-- A truncation is asked of one worker. -/
theorem sendTruncateSignal_queued (node prevTerm prevIndex : ℕ) (s : SharedState) :
    ∃ new, Queued s (Leader.sendTruncateSignal node prevTerm prevIndex s) new ∧
      ∀ k, ∀ task ∈ new k, Repairs s.replicationLog task := by
  unfold Leader.sendTruncateSignal
  dsimp only
  split_ifs
  · refine ⟨_, (Queued.pushToWorker _ _ _).congr rfl rfl, fun k task htask => ?_⟩
    split_ifs at htask
    · exact Or.inl ⟨_, _, _, List.mem_singleton.mp htask⟩
    · simp at htask
  · exact ⟨_, .of_eq rfl, fun _ _ h => by simp at h⟩

/-- A repair is handed to one worker. -/
theorem handleBackfillRequest_queued (node lastLogTerm lastLogIndex : ℕ) (s : SharedState) :
    ∃ new, Queued s (Leader.handleBackfillRequest node lastLogTerm lastLogIndex s) new ∧
      ∀ k, ∀ task ∈ new k, Repairs s.replicationLog task := by
  unfold Leader.handleBackfillRequest Leader.handleFollowerAhead Leader.handleTermMismatch
  dsimp only
  split
  · exact sendTruncateSignal_queued _ _ _ s
  · split_ifs
    · split <;> exact sendTruncateSignal_queued _ _ _ s
    all_goals
      unfold Leader.sendBackfillData
      dsimp only
      split_ifs
      all_goals first
        | exact ⟨_, .of_eq rfl, fun _ _ h => by simp at h⟩
        | refine ⟨_, Queued.pushToWorker _ _ _, fun k task htask => ?_⟩
          split_ifs at htask
          · exact Or.inr ⟨_, List.mem_singleton.mp htask⟩
          · simp at htask

/-- The tasks of a leader that repairs followers. -/
theorem handleBackfillRequests_queued (requests : List (ℕ × ℕ × ℕ)) : ∀ s : SharedState,
    ∃ new, Queued s (handleBackfillRequests requests s) new ∧
      ∀ k, ∀ task ∈ new k, Repairs s.replicationLog task := by
  induction requests with
  | nil => exact fun s => ⟨_, .of_eq rfl, fun _ _ h => by simp at h⟩
  | cons r rest ih =>
    intro s
    obtain ⟨new₁, hqueued₁, htasks₁⟩ := handleBackfillRequest_queued r.1 r.2.1 r.2.2 s
    obtain ⟨new₂, hqueued₂, htasks₂⟩ := ih (Leader.handleBackfillRequest r.1 r.2.1 r.2.2 s)
    refine ⟨_, hqueued₁.trans hqueued₂, fun k task htask => ?_⟩
    rcases List.mem_append.mp htask with htask | htask
    · exact htasks₁ k task htask
    · simpa using htasks₂ k task htask

/-- The end of `time_step`: an election may start, and a leader repairs followers. -/
theorem finish_replication (clock : Clock) (sm : StateMachine) :
    Stays (sm.startsElection clock .finish) sm (sm.finish clock) := by
  rcases hdelegate : sm.delegate with timer | timeout | initialized
  · have heq : sm.finish clock = { sm with
        delegate := if timer.expired clock then newCandidate else .follower timer
        shared := sm.shared.retryDeferredBroadcast } := by
      simp [StateMachine.finish, hdelegate]
    rw [heq]
    refine .of_not_leader (sameEnd_iff.mpr (by simp)) ?_ (by simp)
    dsimp only
    split_ifs <;> simp [newCandidate]
  · by_cases htimeout : Candidate.timeoutExpired timeout clock.now = true
    · have heq : sm.finish clock = { sm with
          delegate := .candidate (Candidate.nextElectionTimeout clock)
          shared := (Candidate.startElection sm.shared).retryDeferredBroadcast } := by
        simp [StateMachine.finish, hdelegate, htimeout]
      have hqueues := Queued.pushToQuorum sm.shared (.requestVote sm.shared.nextMessageId
        sm.shared.nextTerm sm.shared.lastLogTerm sm.shared.lastLogIndex)
      rw [heq]
      refine ⟨sameEnd_iff.mpr (by simp), by simp, _, hqueues.congr rfl ?_, fun k task htask => ?_⟩
      · simp
      · obtain rfl := List.mem_singleton.mp htask
        exact ⟨by simp [startsElection, hdelegate, htimeout], rfl, rfl, rfl⟩
    · have heq : sm.finish clock = { sm with shared := sm.shared.retryDeferredBroadcast } := by
        simp [StateMachine.finish, hdelegate, htimeout]
      rw [heq]
      exact .of_eq (sameEnd_iff.mpr (by simp)) rfl (by simp) (by simp) (by simp)
  · cases initialized with
    | true =>
      have heq : sm.finish clock = { sm with
          shared := (handleBackfillRequests sm.backfillRequests sm.shared).retryDeferredBroadcast
          backfillRequests := [] } := by
        simp [StateMachine.finish, hdelegate]
      obtain ⟨new, hqueued, htasks⟩ :=
        handleBackfillRequests_queued sm.backfillRequests sm.shared
      rw [heq]
      refine ⟨sameEnd_iff.mpr (by simp), fun _ => ⟨rfl, by simp, by simp⟩, new,
        hqueued.congr rfl (by simp), fun k task htask => ?_⟩
      rcases htasks k task htask with ⟨id, prevTerm, prevIndex, rfl⟩ | ⟨start, rfl⟩
      · trivial
      · exact ⟨hdelegate, fun e he => List.mem_of_mem_drop he⟩
    | false =>
      have heq : sm.finish clock = sm := by simp [StateMachine.finish, hdelegate]
      rw [heq]
      exact .of_eq ⟨rfl, rfl, rfl⟩ rfl rfl rfl rfl

/-- **What a part of `time_step` does to replication.** -/
theorem runPart_replication (clock : Clock) (sm : StateMachine) (part : TimeStepPart) :
    Stays (sm.startsElection clock part) sm (sm.runPart clock part) ∨
      (part = .takeOffice ∧ TakesOffice sm (sm.runPart clock part)) ∨
      (∃ term, sm.completedElection part = some term ∧ Wins term sm (sm.runPart clock part)) ∨
      (part = .popQuorum ∧ ∃ node prevTerm prevIndex rest,
        sm.shared.quorumResponse = .truncateLog node prevTerm prevIndex :: rest ∧
          Cuts prevTerm prevIndex sm (sm.runPart clock part)) := by
  have hstarts : part ≠ .finish → sm.startsElection clock part = false := by
    intro hpart
    unfold startsElection
    split
    · exact absurd rfl hpart
    · rfl
  cases part with
  | takeOffice =>
    rcases takeOffice_replication clock sm with heq | htakes
    · left
      rw [show sm.runPart clock .takeOffice = sm from heq]
      exact .of_eq ⟨rfl, rfl, rfl⟩ rfl rfl rfl rfl
    · exact Or.inr (Or.inl ⟨rfl, htakes⟩)
  | popPersistence =>
    rw [hstarts (by simp)]
    rcases popPersistence_replication sm with hstays | hwins
    · exact Or.inl hstays
    · exact Or.inr (Or.inr (Or.inl hwins))
  | popQuorum =>
    rw [hstarts (by simp)]
    rcases popQuorum_replication sm with hstays | hwins | hcuts
    · exact Or.inl hstays
    · exact Or.inr (Or.inr (Or.inl hwins))
    · exact Or.inr (Or.inr (Or.inr ⟨rfl, hcuts⟩))
  | finish => exact Or.inl (finish_replication clock sm)

/-! ## What is handed to the quorum workers -/

/-- Tasks are handed to the quorum workers, and heartbeats start in the term of a leader. -/
def HandsTasks (sm sm' : StateMachine) : Prop :=
  ∃ new, Queued sm.shared sm'.shared new ∧ ∀ k, ∀ task ∈ new k,
    ∀ id term prevTerm prevIndex commitIndex,
      task = .startHeartbeats id term prevTerm prevIndex commitIndex →
        sm.delegate.nodeType = .leader ∧ term = sm.shared.currentTerm

namespace HandsTasks

variable {sm sm' : StateMachine}

theorem of_eq (h : sm'.shared.quorumWorkerTasks = sm.shared.quorumWorkerTasks) : HandsTasks sm sm' :=
  ⟨_, .of_eq h, by simp⟩

/-- A node that stays hands on what it may. -/
theorem of_stays (h : Stays starts sm sm') : HandsTasks sm sm' := by
  obtain ⟨new, hqueued, hroutine⟩ := h.queues
  refine ⟨new, hqueued, fun k task htask id term prevTerm prevIndex commitIndex heq => ?_⟩
  subst heq
  exact (hroutine k _ htask).elim

end HandsTasks

/-- A request starts no heartbeats. -/
theorem hands_accept (clock : Clock) (message : LocalRaftMessage) (sm : StateMachine) :
    HandsTasks sm (sm.accept clock message) := by
  unfold StateMachine.accept
  split
  · exact .of_stays (stays_acceptRequestVote _ message.callback sm)
  · rcases (receives_acceptAppendEntries clock _ message.callback sm).queued with heq | ⟨-, hqueued⟩
    · exact .of_eq heq
    · exact ⟨_, hqueued, by simp⟩
  · exact .of_eq rfl
  · next batch _ =>
    unfold StateMachine.acceptWriteBatch
    split
    · rcases Leader.writeBatch_cases clock batch message.callback sm.shared with
        ⟨-, heq⟩ | ⟨-, -, heq⟩ | ⟨-, -, heq⟩
      · rw [heq]
        exact .of_eq rfl
      · refine ⟨fun _ => [.appendEntries sm.shared.nextMessageId (Leader.buildLogEntry sm.shared
          sm.shared.nextLogIndex sm.shared.nextMessageId clock.now batch.requests)
            sm.shared.commitIndex], fun k => ?_, by simp⟩
        simp [heq]
      · rw [heq]
        exact .of_eq rfl
    · exact .of_eq rfl

/-- Only a leader that takes office starts them. -/
theorem hands_runPart (clock : Clock) (sm : StateMachine) (part : TimeStepPart) :
    HandsTasks sm (sm.runPart clock part) := by
  rcases runPart_replication clock sm part with hstays | ⟨-, hoffice⟩ | ⟨term, -, hwins⟩ |
    ⟨-, _, _, _, _, -, hcuts⟩
  · exact .of_stays hstays
  · obtain ⟨id, timestamp, commands, -, -, hqueued⟩ := hoffice.entry
    refine ⟨_, hqueued, fun k task htask id term prevTerm prevIndex commitIndex heq => ?_⟩
    subst heq
    simp only [List.mem_append, List.mem_singleton, LocalQuorumWorkerTaskType.startHeartbeats.injEq,
      reduceCtorEq, or_false] at htask
    exact ⟨hoffice.role, htask.2.1⟩
  · exact .of_eq hwins.queues
  · exact .of_eq hcuts.queues

end Kraft
