/-
# Steady-state replication

A leader in office, its quorum worker for one follower, the messages between them and the
follower.  The follower starts with the leader's log and hears all messages in order.

* `Replication` is the system, `Replication.act` what happens besides deliveries.
* `RepairLog.Fits` : what the worker sends continues the log it has been told of.
* `InStep` : the messages under way lead from the follower's log to the log the worker has been
  told of, and the waiting tasks from there to the leader's log.
* `steady_state_replication` : the follower refuses nothing, its log is a prefix of the
  leader's, and its commit index stays inside its log and below the leader's, in every run in
  which no message that is completed has an index beyond the leader's log.
-/
import Kraft.Flow
import Kraft.LeaderStream

namespace Kraft

variable {commitIndex term : ℕ} {message : QuorumMessage}

/-! ## The system -/

/-- What happens at a follower besides requests of its leader. -/
inductive FollowerEvent
  /-- A vote request is accepted. -/
  | vote (request : LocalRequestVoteRequest) (callback : Callback)
  /-- `time_step` takes a response of the persistence worker. -/
  | persisted (response : PersistenceResponseType)
  /-- `time_step` retries a deferred broadcast. -/
  | retry

/-- One event of a follower. -/
def Follower.react (s : SharedState) : FollowerEvent → SharedState
  | .vote request callback => requestVote request callback s
  | .persisted response => handlePersistence response s
  | .retry => s.retryDeferredBroadcast

/-- Leader, worker and follower with the messages the worker has sent. -/
structure Replication extends RepairParties where
  wire : List QuorumMessage

/-- What happens besides deliveries. -/
inductive ReplicationEvent
  | lead (e : LeaderEvent)
  /-- The worker takes a task from its queue. -/
  | take (now : ℕ)
  /-- The worker looks at its heartbeat timer. -/
  | heartbeat (now : ℕ)
  | follow (e : FollowerEvent)

namespace Replication

/-- The worker sends the next task. -/
def take (utf8Lossy : List UInt8 → List UInt8) (now : ℕ) (c : Replication) : Replication :=
  match c.leader.quorumWorkerTasks[c.queue]? with
  | some (task :: rest) =>
    let sent := c.worker.processTask utf8Lossy now task
    { c with
      leader := { c.leader with quorumWorkerTasks := c.leader.quorumWorkerTasks.set c.queue rest }
      worker := sent.1
      wire := c.wire ++ sent.2.messages }
  | _ => c

/-- One event. -/
def act (utf8Lossy : List UInt8 → List UInt8) (c : Replication) : ReplicationEvent → Replication
  | .lead e => { c with leader := Leader.react c.leader e }
  | .take now => c.take utf8Lossy now
  | .heartbeat now =>
    let sent := c.worker.sendHeartbeatIfNeeded now
    { c with worker := sent.1, wire := c.wire ++ sent.2.messages }
  | .follow e => { c with follower := Follower.react c.follower e }

/-- The leader runs its first `time_step`.  What the worker had to do before, and its heartbeats
for an earlier leadership, are over when it starts heartbeats for this one. -/
def start (clock : Clock) (c : RepairParties) : Replication :=
  { leader := Leader.initializeLeadership clock
      { c.leader with quorumWorkerTasks := c.leader.quorumWorkerTasks.set c.queue [] }
    worker := { c.worker with sendHeartbeats := false }
    follower := c.follower
    wire := [] }

end Replication

/-! ## What the worker sends -/

namespace RepairLog

/-- The log of a follower that takes a message. -/
def hear (f : RepairLog) : QuorumMessage → RepairLog
  | .appendEntriesRequest ⟨_, _, _, _, _, some entry, _⟩ =>
    match OwnedLogEntry.fromBytes entry.data with
    | some owned => ⟨f.log ++ [owned], entry.index, entry.term⟩
    | none => f
  | _ => f

/-- The entry of a request, where it has one, goes behind the log. -/
def Carries (f : RepairLog) (request : LocalAppendEntries) : Prop :=
  match request.entry with
  | some entry => request.requestId ≠ 0 ∧ f.lastLogIndex ≤ entry.index ∧
      (OwnedLogEntry.fromBytes entry.data).isSome
  | none => request.requestId = 0

/-- A request of the leader fits the log: it continues it, and its commit index lies inside it
and is not beyond the leader's. -/
def Fits (term leaderId commitIndex : ℕ) (f : RepairLog) : QuorumMessage → Prop
  | .appendEntriesRequest request =>
    request.term = term ∧ request.leaderId = leaderId ∧ request.prevIndex = f.lastLogIndex ∧
      request.prevTerm = f.lastLogTerm ∧ request.commitIndex ≤ f.lastLogIndex ∧
      request.commitIndex ≤ commitIndex ∧ f.Carries request
  | _ => False

theorem Fits.mono {leaderId commitIndex' : ℕ} (hle : commitIndex ≤ commitIndex') {f : RepairLog}
    (h : Fits term leaderId commitIndex f message) : Fits term leaderId commitIndex' f message := by
  cases message with
  | appendEntriesRequest request =>
    obtain ⟨hterm, hleader, hindex, hprev, hlast, hcommit, hcarries⟩ := h
    exact ⟨hterm, hleader, hindex, hprev, hlast, hcommit.trans hle, hcarries⟩
  | _ => exact h.elim

end RepairLog

/-- The worker sends for a leader at the end of a log. -/
structure Tracks (term commitIndex : ℕ) (f : RepairLog) (w : QuorumWorker) : Prop where
  term : w.term = term
  prevLogIndex : w.prevLogIndex = f.lastLogIndex
  prevLogTerm : w.prevLogTerm = f.lastLogTerm
  inLog : w.commitIndex ≤ f.lastLogIndex
  commit : w.commitIndex ≤ commitIndex

theorem Tracks.mono {commitIndex' : ℕ} (hle : commitIndex ≤ commitIndex') {f : RepairLog}
    {w : QuorumWorker} (h : Tracks term commitIndex f w) : Tracks term commitIndex' f w :=
  ⟨h.term, h.prevLogIndex, h.prevLogTerm, h.inLog, h.commit.trans hle⟩

/-- The tasks of a leader that repairs nothing. -/
def Ordinary : LocalQuorumWorkerTaskType → Prop
  | .truncateLog .. => False
  | .backfillLog _ => False
  | _ => True

section Worker

variable {term commitIndex : ℕ} {f : RepairLog} {w : QuorumWorker}

/-- A heartbeat. -/
theorem Tracks.heartbeat (h : Tracks term commitIndex f w) :
    f.Fits term w.selfId commitIndex w.heartbeatMessage ∧ f.hear w.heartbeatMessage = f :=
  ⟨⟨h.term, rfl, h.prevLogIndex, h.prevLogTerm, h.inLog, h.commit, rfl⟩, rfl⟩

/-- An entry. -/
theorem Tracks.appendEntries (hterm : w.term = term) {id newCommitIndex : ℕ} {entry : OwnedLogEntry}
    (h : f.Continues term commitIndex (.appendEntries id entry newCommitIndex)) :
    f.Fits term w.selfId commitIndex (w.appendEntriesMessage id newCommitIndex entry) ∧
      f.hear (w.appendEntriesMessage id newCommitIndex entry) = f.push entry := by
  obtain ⟨hid, hindex, hprev, hle, hlast, hcommit⟩ := h
  refine ⟨⟨hterm, rfl, hindex, hprev, hlast, hcommit, hid, hle, ?_⟩, ?_⟩
  · show (OwnedLogEntry.fromBytes entry.asBytes).isSome
    rw [entry.fromBytes_asBytes]
    rfl
  · unfold RepairLog.hear QuorumWorker.appendEntriesMessage
    simp only [entry.fromBytes_asBytes]
    rfl

/-- A worker that takes a task that fits keeps track of the leader. -/
theorem Tracks.processTask (utf8Lossy : List UInt8 → List UInt8) (now : ℕ)
    {task : LocalQuorumWorkerTaskType} (h : f.Continues term commitIndex task)
    (htracks : (∃ id newTerm prevTerm prevIndex newCommitIndex,
      task = .startHeartbeats id newTerm prevTerm prevIndex newCommitIndex) ∨
        Tracks term commitIndex f w) :
    Tracks term commitIndex (f.tell task) (w.processTask utf8Lossy now task).1 := by
  cases task with
  | startHeartbeats id newTerm prevTerm prevIndex newCommitIndex =>
    obtain ⟨hterm, hindex, hprev, hlast, hcommit⟩ := h
    exact ⟨hterm, hindex, hprev, hlast, hcommit⟩
  | appendEntries id entry newCommitIndex =>
    have htracks := htracks.resolve_left (by simp)
    obtain ⟨-, -, -, hle, hlast, hcommit⟩ := h
    exact ⟨htracks.term, rfl, rfl, hlast.trans hle, hcommit⟩
  | updateCommitIndex newCommitIndex =>
    have htracks := htracks.resolve_left (by simp)
    exact ⟨htracks.term, htracks.prevLogIndex, htracks.prevLogTerm, h.1, h.2⟩
  | truncateLog id prevTerm prevIndex => exact htracks.resolve_left (by simp)
  | backfillLog data =>
    have htracks := htracks.resolve_left (by simp)
    show Tracks term commitIndex f (w.sendBackfillEntries now data).1
    unfold QuorumWorker.sendBackfillEntries
    split_ifs
    · exact htracks
    · exact ⟨htracks.term, htracks.prevLogIndex, htracks.prevLogTerm, htracks.inLog,
        htracks.commit⟩
  | _ => exact h.elim

/-- What the worker sends for a task of a leader that repairs nothing brings a follower from the
log before to the log after the task. -/
theorem Tracks.sends (utf8Lossy : List UInt8 → List UInt8) (now : ℕ)
    {task : LocalQuorumWorkerTaskType} (h : f.Continues term commitIndex task)
    (hordinary : Ordinary task)
    (htracks : (∃ id newTerm prevTerm prevIndex newCommitIndex,
      task = .startHeartbeats id newTerm prevTerm prevIndex newCommitIndex) ∨
        Tracks term commitIndex f w) :
    Runs.AllSteps RepairLog.hear (RepairLog.Fits term w.selfId commitIndex) f
        (w.processTask utf8Lossy now task).2.messages ∧
      Runs.run RepairLog.hear f (w.processTask utf8Lossy now task).2.messages = f.tell task := by
  cases task with
  | startHeartbeats id newTerm prevTerm prevIndex newCommitIndex => exact ⟨trivial, rfl⟩
  | appendEntries id entry newCommitIndex =>
    have htracks := htracks.resolve_left (by simp)
    obtain ⟨hfits, hhear⟩ := Tracks.appendEntries htracks.term h
    exact ⟨⟨hfits, trivial⟩, hhear⟩
  | updateCommitIndex newCommitIndex => exact ⟨trivial, rfl⟩
  | truncateLog id prevTerm prevIndex => exact hordinary.elim
  | backfillLog data => exact hordinary.elim
  | _ => exact h.elim

end Worker

/-! ## The follower -/

/-- The answers given between two states; none of them refuses a request. -/
def NoRefusal (s s' : SharedState) : Prop :=
  ∃ answers, s'.callbackResponses = s.callbackResponses ++ answers ∧
    ∀ answer ∈ answers, ∀ lastTerm lastIndex,
      answer.2 ≠ .appendEntries (.wantedPreviousEntry lastTerm lastIndex)

namespace NoRefusal

variable {s s₁ s₂ : SharedState}

theorem of_eq (h : s₁.callbackResponses = s.callbackResponses) : NoRefusal s s₁ :=
  ⟨[], by simp [h], by simp⟩

theorem trans (h₁ : NoRefusal s s₁) (h₂ : NoRefusal s₁ s₂) : NoRefusal s s₂ := by
  obtain ⟨answers₁, heq₁, hnone₁⟩ := h₁
  obtain ⟨answers₂, heq₂, hnone₂⟩ := h₂
  refine ⟨answers₁ ++ answers₂, by rw [heq₂, heq₁, List.append_assoc], fun answer hanswer => ?_⟩
  rcases List.mem_append.mp hanswer with hanswer | hanswer
  · exact hnone₁ answer hanswer
  · exact hnone₂ answer hanswer

theorem of_concat {answer : Callback × LocalRaftResponsePayload}
    (h : s₁.callbackResponses = s.callbackResponses ++ [answer])
    (hanswer : ∀ lastTerm lastIndex,
      answer.2 ≠ .appendEntries (.wantedPreviousEntry lastTerm lastIndex)) : NoRefusal s s₁ :=
  ⟨[answer], h, by simpa using hanswer⟩

end NoRefusal

/-- A reply is answered with no refusal. -/
theorem Settles.noRefusal {role : RaftNodeType} {reply : Reply} {id : ℕ} {s s' : SharedState}
    (h : Settles role reply id s s') (hrole : role ≠ .leader) : NoRefusal s s' := by
  cases h with
  | missing | counted | elected | dropped => exact .of_eq rfl
  | completed hpoll => exact absurd hpoll.1.symm hrole
  | stored | granted | passed => exact .of_concat rfl (by simp)

/-- A follower that takes the leader's requests: it follows it or is of a lower term, and its
commit index lies inside its log and is not beyond the leader's. -/
structure Listens (term leaderId commitIndex : ℕ) (s : SharedState) : Prop where
  leader : s.currentTerm < term ∨ s.leaderId = leaderId
  inLog : s.commitIndex ≤ s.lastLogIndex
  commit : s.commitIndex ≤ commitIndex
  isOpen : s.persistenceOpen = true

namespace Follower

variable {request : LocalAppendEntries} {s : SharedState}

/-- **A request that fits** does to the follower what the log hears. -/
theorem deliver_fits {leaderId : ℕ} (h : Listens term leaderId commitIndex s)
    (hfits : s.repairLog.Fits term leaderId commitIndex message) (callback : Callback) :
    (deliverToFollower callback s message).repairLog = s.repairLog.hear message ∧
      Listens term leaderId commitIndex (deliverToFollower callback s message) ∧
      NoRefusal s (deliverToFollower callback s message) := by
  cases message with
  | appendEntriesRequest request =>
    obtain ⟨rfl, rfl, hindex, hprev, hlast, hcommit, hcarries⟩ := hfits
    have hvalid : ValidAppendEntries request s := ⟨hindex, hprev⟩
    show (appendEntries request callback s).repairLog = _ ∧ Listens _ _ _ (appendEntries _ _ _) ∧ _
    unfold RepairLog.Carries at hcarries
    rcases hentry : request.entry with _ | entry
    · rw [hentry] at hcarries
      obtain ⟨hlog, hfollowing, hresponses⟩ := appendEntries_heartbeat (h.leader.imp_right Eq.symm)
        h.isOpen hentry hcarries callback
      have hcommitted := @commitIndex_appendEntries_heartbeat request s hentry hcarries callback
      have hlastIndex : (appendEntries request callback s).lastLogIndex = s.lastLogIndex :=
        congrArg RepairLog.lastLogIndex hlog
      rw [if_pos hvalid] at hresponses
      refine ⟨?_, ⟨Or.inr hfollowing.leaderId.symm, ?_, ?_, hfollowing.isOpen⟩,
        .of_concat hresponses (by simp)⟩
      · rw [hlog]
        rcases request with ⟨term, leaderId, prevIndex, prevTerm, requestId, entry, commit⟩
        obtain rfl : entry = none := hentry
        rfl
      · rcases hcommitted with heq | ⟨-, heq⟩
        · rw [heq, hlastIndex]
          exact h.inLog
        · rw [heq, hlastIndex]
          exact hlast
      · rcases hcommitted with heq | ⟨-, heq⟩
        · rw [heq]
          exact h.commit
        · rw [heq]
          exact hcommit
    · rw [hentry] at hcarries
      obtain ⟨hid, hle, hdata⟩ := hcarries
      obtain ⟨owned, hdata⟩ := Option.isSome_iff_exists.mp hdata
      obtain ⟨hlog, hcommit', hleader, hopen, hresponses, -⟩ := appendEntries_entry h.leader h.isOpen
        hvalid hentry hdata (Or.inr hid) callback
      have hlastIndex : (appendEntries request callback s).lastLogIndex = entry.index :=
        congrArg RepairLog.lastLogIndex hlog
      refine ⟨?_, ⟨Or.inr hleader, ?_, ?_, hopen⟩, .of_eq hresponses⟩
      · rw [hlog]
        rcases request with ⟨term, leaderId, prevIndex, prevTerm, requestId, carried, commit⟩
        obtain rfl : carried = some entry := hentry
        simp only [RepairLog.hear, hdata]
        rfl
      · rw [hcommit', hlastIndex]
        exact max_le (h.inLog.trans hle) (hlast.trans hle)
      · rw [hcommit']
        exact max_le h.commit hcommit
  | _ => exact hfits.elim

/-- The follower's own events leave its log, its leader and its commit index. -/
theorem react_unchanged (s : SharedState) (e : FollowerEvent) :
    (react s e).repairLog = s.repairLog ∧ (react s e).currentTerm = s.currentTerm ∧
      (react s e).leaderId = s.leaderId ∧ (react s e).commitIndex = s.commitIndex ∧
      (react s e).persistenceOpen = s.persistenceOpen ∧ NoRefusal s (react s e) := by
  cases e with
  | vote request callback =>
    have hasked := asked_requestVote request callback s
    dsimp only [react]
    generalize requestVote request callback s = s' at hasked ⊢
    cases hasked with
    | registered => exact ⟨rfl, rfl, rfl, rfl, rfl, .of_eq rfl⟩
    | cast hrole => exact absurd rfl hrole
    | refused =>
      exact ⟨rfl, rfl, rfl, rfl, rfl,
        @NoRefusal.of_concat _ _ (callback, .requestVote false) rfl (by simp)⟩
  | persisted response =>
    have hsettles := settles_handlePersistence response ⟨.follower ⟨0⟩, s, []⟩
    change Settles .follower _ _ s (handlePersistence response s) at hsettles
    dsimp only [react]
    generalize handlePersistence response s = s' at hsettles ⊢
    obtain ⟨⟨⟨-, -, hopen, -⟩, hindex, hlast, -, hlog⟩, -⟩ := hsettles.unchanged
    obtain ⟨hterm, hleader, -⟩ := hsettles.sameStanding (by simp)
    refine ⟨by simp [SharedState.repairLog, hlog, hindex, hlast], hterm, hleader,
      (hsettles.sameCommit (by simp)).1, hopen, hsettles.noRefusal (by simp)⟩
  | retry =>
    refine ⟨by simp [react, SharedState.repairLog], by simp [react], by simp [react],
      by simp [react], by simp [react], .of_eq (by simp [react])⟩

theorem react_listens {leaderId : ℕ} (h : Listens term leaderId commitIndex s) (e : FollowerEvent) :
    (react s e).repairLog = s.repairLog ∧
      Listens term leaderId commitIndex (react s e) ∧ NoRefusal s (react s e) := by
  obtain ⟨hlog, hterm, hleader, hcommit, hopen, hanswers⟩ := react_unchanged s e
  have hlast : (react s e).lastLogIndex = s.lastLogIndex := congrArg RepairLog.lastLogIndex hlog
  refine ⟨hlog, ⟨?_, ?_, ?_, hopen.trans h.isOpen⟩, hanswers⟩
  · rw [hterm, hleader]
    exact h.leader
  · rw [hcommit, hlast]
    exact h.inLog
  · rw [hcommit]
    exact h.commit

end Follower

/-! ## The leader's side -/

/-- The worker has been told of a log, and will be told of what is missing to the leader's. -/
structure Supplies (allowed : LocalQuorumWorkerTaskType → Prop) (k term : ℕ) (f : RepairLog)
    (c : Replication) : Prop where
  queue : c.queue = k
  office : InOffice term c.leader
  feeds : ∃ tasks, Feeds allowed k term f c.leader tasks ∧
    (Tracks term c.leader.commitIndex f c.worker ∨ c.worker.sendHeartbeats = false ∧
      ∃ id newTerm prevTerm prevIndex commitIndex rest,
        tasks = .startHeartbeats id newTerm prevTerm prevIndex commitIndex :: rest)

namespace Supplies

variable {allowed : LocalQuorumWorkerTaskType → Prop} {k term : ℕ} {f : RepairLog}
  {c : Replication}

/-- The leader's events. -/
theorem lead (h : Supplies allowed k term f c) (utf8Lossy : List UInt8 → List UInt8)
    {e : LeaderEvent}
    (hcorrect : (Leader.react c.leader e).commitIndex ≤ (Leader.react c.leader e).lastLogIndex)
    (happend : ∀ entry commitIndex,
      (Leader.react c.leader e).replicationLog = c.leader.replicationLog ++ [entry] →
        allowed (.appendEntries entry.messageId entry commitIndex))
    (hupdate : ∀ commitIndex, allowed (.updateCommitIndex commitIndex))
    (hrepair : ∀ node lastLogTerm lastLogIndex, e = .repair node lastLogTerm lastLogIndex →
      Leader.getQuorumWorkerIndex node c.leader.identity = c.queue →
        ∀ task, Repairs c.leader.replicationLog task → allowed task) :
    Supplies allowed k term f (c.act utf8Lossy (.lead e)) ∧
      c.leader.commitIndex ≤ (Leader.react c.leader e).commitIndex := by
  obtain ⟨tasks, hfeeds, hworker⟩ := h.feeds
  obtain ⟨-, hidentity, -⟩ := Leader.react_unchanged c.leader e
  have hcommit := Leader.commitIndex_le_react h.office.isOpen e
  obtain ⟨hoffice, new, hfeeds⟩ := hfeeds.react h.office hcorrect happend hupdate
    (fun node t i he hnode => hrepair node t i he (hnode.trans h.queue.symm))
  refine ⟨⟨?_, hoffice, _, hfeeds, ?_⟩, hcommit⟩
  · rw [← h.queue]
    exact congrArg (Leader.getQuorumWorkerIndex c.worker.memberId) hidentity
  · rcases hworker with htracks | ⟨hsilent, id, t, pt, pi, ci, rest, rfl⟩
    · exact Or.inl (htracks.mono hcommit)
    · exact Or.inr ⟨hsilent, id, t, pt, pi, ci, rest ++ new, rfl⟩

/-- The worker takes a task. -/
theorem take (h : Supplies allowed k term f c) (utf8Lossy : List UInt8 → List UInt8) (now : ℕ) :
    c.take utf8Lossy now = c ∨ ∃ task sent, sent = c.worker.processTask utf8Lossy now task ∧
      f.Continues term c.leader.commitIndex task ∧ allowed task ∧
      ((∃ id newTerm prevTerm prevIndex newCommitIndex,
        task = .startHeartbeats id newTerm prevTerm prevIndex newCommitIndex) ∨
          Tracks term c.leader.commitIndex f c.worker) ∧
      (c.take utf8Lossy now).wire = c.wire ++ sent.2.messages ∧
      (c.take utf8Lossy now).worker = sent.1 ∧
      (c.take utf8Lossy now).follower = c.follower ∧
      (c.take utf8Lossy now).leader.repairLog = c.leader.repairLog ∧
      (c.take utf8Lossy now).leader.commitIndex = c.leader.commitIndex ∧
      Supplies allowed k term (f.tell task) (c.take utf8Lossy now) := by
  obtain ⟨tasks, hfeeds, hworker⟩ := h.feeds
  have hqueue : c.leader.quorumWorkerTasks[c.queue]? = some tasks := h.queue ▸ hfeeds.queue
  unfold Replication.take
  rw [hqueue]
  cases tasks with
  | nil => exact Or.inl rfl
  | cons task rest =>
    right
    obtain ⟨⟨hcontinues, hallowed⟩, hfits⟩ := hfeeds.fits
    have htracks : (∃ id newTerm prevTerm prevIndex newCommitIndex,
        task = .startHeartbeats id newTerm prevTerm prevIndex newCommitIndex) ∨
          Tracks term c.leader.commitIndex f c.worker := by
      rcases hworker with htracks | ⟨-, id, t, pt, pi, ci, rest', heq⟩
      · exact Or.inr htracks
      · exact Or.inl ⟨id, t, pt, pi, ci, (List.cons.inj heq).1⟩
    refine ⟨task, _, rfl, hcontinues, hallowed, htracks, rfl, rfl, rfl, rfl, rfl, ?_, ?_, rest,
      ⟨?_, hfits, hfeeds.reaches⟩, Or.inl (.processTask utf8Lossy now hcontinues htracks)⟩
    · rw [← h.queue]
      exact congrArg (Leader.getQuorumWorkerIndex · c.leader.identity)
        (c.worker.processTask_sends utf8Lossy now task).1.ends.2
    · exact ⟨h.office.term, h.office.next, h.office.ids, h.office.commit, h.office.isOpen⟩
    · show (c.leader.quorumWorkerTasks.set c.queue rest)[k]? = some rest
      rw [← h.queue]
      exact List.getElem?_set_self (List.getElem?_eq_some_iff.mp hqueue).1

/-- The heartbeat timer. -/
theorem heartbeat (h : Supplies allowed k term f c) (utf8Lossy : List UInt8 → List UInt8)
    (now : ℕ) :
    Supplies allowed k term f (c.act utf8Lossy (.heartbeat now)) ∧
      ((c.worker.sendHeartbeatIfNeeded now).2.messages = [] ∨
        (c.worker.sendHeartbeatIfNeeded now).2.messages = [c.worker.heartbeatMessage] ∧
          Tracks term c.leader.commitIndex f c.worker) := by
  obtain ⟨tasks, hfeeds, hworker⟩ := h.feeds
  have hview := c.worker.sameView_sendHeartbeatIfNeeded now
  have hqueue : (c.act utf8Lossy (.heartbeat now)).queue = k := by
    rw [← h.queue]
    exact congrArg (Leader.getQuorumWorkerIndex · c.leader.identity) hview.ends.2
  by_cases hsend : c.worker.sendHeartbeats = true ∧ 100 ≤ now - c.worker.lastHeartbeat
  · have htracks := hworker.resolve_right fun hsilent => by simp [hsend.1] at hsilent
    refine ⟨⟨hqueue, h.office, tasks, hfeeds, Or.inl ⟨hview.term.trans htracks.term,
      hview.prevLogIndex.trans htracks.prevLogIndex, hview.prevLogTerm.trans htracks.prevLogTerm,
      hview.commitIndex.trans_le htracks.inLog, hview.commitIndex.trans_le htracks.commit⟩⟩, ?_⟩
    unfold QuorumWorker.sendHeartbeatIfNeeded
    rw [if_pos hsend]
    exact Or.inr ⟨rfl, htracks⟩
  · have heq : c.worker.sendHeartbeatIfNeeded now = (c.worker, {}) := if_neg hsend
    refine ⟨⟨hqueue, h.office, tasks, hfeeds, ?_⟩, Or.inl (by rw [heq])⟩
    show Tracks _ _ _ (c.worker.sendHeartbeatIfNeeded now).1 ∨
      (c.worker.sendHeartbeatIfNeeded now).1.sendHeartbeats = false ∧ _
    rw [heq]
    exact hworker

/-- **The start**: the leader's log, and the tasks of taking office. -/
theorem start (clock : Clock) {c : RepairParties}
    (hqueue : c.queue < c.leader.quorumWorkerTasks.length)
    (hopen : c.leader.persistenceOpen = true)
    (hend : c.leader.repairLog = RepairLog.ofLog c.leader.replicationLog)
    (hcommit : c.leader.commitIndex ≤ c.leader.lastLogIndex)
    (hstart : ∀ id term prevTerm prevIndex commitIndex,
      allowed (.startHeartbeats id term prevTerm prevIndex commitIndex))
    (happend : ∀ entry commitIndex,
      (Replication.start clock c).leader.replicationLog = c.leader.replicationLog ++ [entry] →
        allowed (.appendEntries entry.messageId entry commitIndex)) :
    Supplies allowed c.queue c.leader.currentTerm c.leader.repairLog
      (Replication.start clock c) := by
  obtain ⟨hoffice, rest, hfeeds⟩ := Feeds.initializeLeadership
    (s := { c.leader with quorumWorkerTasks := c.leader.quorumWorkerTasks.set c.queue [] })
    clock (List.getElem?_set_self hqueue) hopen hend hcommit hstart happend
  refine ⟨?_, hoffice, _, hfeeds, Or.inr ⟨rfl, _, _, _, _, _, _, rfl⟩⟩
  show Leader.getQuorumWorkerIndex c.worker.memberId (Leader.initializeLeadership ..).identity = _
  rw [(Leader.initializeLeadership_unchanged clock _).1.1.1]
  rfl

end Supplies

/-! ## In step -/

/-- What happens when the messages arrive in order and none is lost. -/
inductive InOrderLabel
  | act (e : ReplicationEvent)
  /-- The next message reaches the follower. -/
  | deliver (callback : Callback)

namespace Replication

/-- One step. -/
def stepInOrder (utf8Lossy : List UInt8 → List UInt8) (c : Replication) :
    InOrderLabel → Replication
  | .act e => c.act utf8Lossy e
  | .deliver callback =>
    match c.wire with
    | message :: rest =>
      { c with follower := deliverToFollower callback c.follower message, wire := rest }
    | [] => c

/-- No task waits for the worker and no message is under way. -/
def Delivered (c : Replication) : Prop :=
  c.leader.quorumWorkerTasks[c.queue]? = some [] ∧ c.wire = []

/-- The leader completes no message with an index beyond its log, and is not asked to repair the
follower's log. -/
def Regular (c : Replication) : InOrderLabel → Prop
  | .act (.lead e) => (∀ index ∈ Leader.completedIndex c.leader e, index ≤ c.leader.lastLogIndex) ∧
      match e with
      | .repair node _ _ => Leader.getQuorumWorkerIndex node c.leader.identity ≠ c.queue
      | _ => True
  | _ => True

instance (c : Replication) (label : InOrderLabel) : Decidable (c.Regular label) := by
  unfold Regular
  split
  · refine @instDecidableAnd _ _ (inferInstanceAs (Decidable (∀ index ∈ _, _))) ?_
    split <;> infer_instance
  · infer_instance

end Replication

/-- The messages under way lead from the follower's log to the log the worker has been told of. -/
structure InStep (k term : ℕ) (before : SharedState) (c : Replication) : Prop where
  supplies : Supplies Ordinary k term (Runs.run RepairLog.hear c.follower.repairLog c.wire) c
  fits : Runs.AllSteps RepairLog.hear (RepairLog.Fits term c.worker.selfId c.leader.commitIndex)
    c.follower.repairLog c.wire
  listens : Listens term c.worker.selfId c.leader.commitIndex c.follower
  answers : NoRefusal before c.follower

namespace InStep

variable {k term : ℕ} {before : SharedState} {c : Replication}

/-- More messages behind the others. -/
theorem send (h : InStep k term before c) {c' : Replication} {messages : List QuorumMessage}
    {f : RepairLog} (hsupplies : Supplies Ordinary k term f c')
    (hcommit : c.leader.commitIndex = c'.leader.commitIndex)
    (hself : c'.worker.selfId = c.worker.selfId) (hfollower : c'.follower = c.follower)
    (hwire : c'.wire = c.wire ++ messages)
    (hfits : Runs.AllSteps RepairLog.hear
      (RepairLog.Fits term c.worker.selfId c.leader.commitIndex)
        (Runs.run RepairLog.hear c.follower.repairLog c.wire) messages)
    (hhear : Runs.run RepairLog.hear (Runs.run RepairLog.hear c.follower.repairLog c.wire)
      messages = f) : InStep k term before c' := by
  refine ⟨?_, ?_, ?_, hfollower ▸ h.answers⟩
  · rwa [hwire, hfollower, Runs.run_append, hhear]
  · rw [hwire, hfollower, hself, ← hcommit, Runs.allSteps_append]
    exact ⟨h.fits, hfits⟩
  · rw [hfollower, hself, ← hcommit]
    exact h.listens

/-- The leader's commit index may grow. -/
theorem lead (h : InStep k term before c) (utf8Lossy : List UInt8 → List UInt8) {e : LeaderEvent}
    (hregular : c.Regular (.act (.lead e))) : InStep k term before (c.act utf8Lossy (.lead e)) := by
  obtain ⟨hindex, hrepair⟩ := hregular
  obtain ⟨hsupplies, hcommit⟩ := h.supplies.lead utf8Lossy (h.supplies.office.commit_react hindex)
    (fun _ _ _ => trivial) (fun _ => trivial) (fun node t i he hnode => by
      subst he
      exact absurd hnode hrepair)
  exact ⟨hsupplies, h.fits.mono fun _ _ hfits => hfits.mono hcommit,
    ⟨h.listens.leader, h.listens.inLog, h.listens.commit.trans hcommit, h.listens.isOpen⟩,
    h.answers⟩

/-- The worker takes a task. -/
theorem take (h : InStep k term before c) (utf8Lossy : List UInt8 → List UInt8) (now : ℕ) :
    InStep k term before (c.take utf8Lossy now) := by
  rcases h.supplies.take utf8Lossy now with heq | ⟨task, sent, rfl, hcontinues, hordinary, htracks,
    hwire, hworker, hfollower, -, hcommit, hsupplies⟩
  · rwa [heq]
  · obtain ⟨hfits, hhear⟩ := Tracks.sends utf8Lossy now hcontinues hordinary htracks
    refine h.send hsupplies hcommit.symm ?_ hfollower hwire hfits hhear
    rw [hworker]
    exact (c.worker.processTask_sends utf8Lossy now task).1.ends.1

/-- The heartbeat timer. -/
theorem heartbeat (h : InStep k term before c) (utf8Lossy : List UInt8 → List UInt8) (now : ℕ) :
    InStep k term before (c.act utf8Lossy (.heartbeat now)) := by
  obtain ⟨hsupplies, hmessages⟩ := h.supplies.heartbeat utf8Lossy now
  refine h.send hsupplies rfl (c.worker.sameView_sendHeartbeatIfNeeded now).ends.1 rfl rfl ?_ ?_
  · rcases hmessages with hnone | ⟨hone, htracks⟩
    · rw [hnone]
      trivial
    · rw [hone]
      exact ⟨htracks.heartbeat.1, trivial⟩
  · rcases hmessages with hnone | ⟨hone, htracks⟩
    · rw [hnone]
      rfl
    · rw [hone]
      exact htracks.heartbeat.2

/-- The next message arrives. -/
theorem deliver (h : InStep k term before c) {rest : List QuorumMessage}
    (hwire : c.wire = message :: rest) (callback : Callback) :
    InStep k term before { c with
      follower := deliverToFollower callback c.follower message, wire := rest } := by
  obtain ⟨hsupplies, hfits, hlistens, hanswers⟩ := h
  rw [hwire] at hsupplies hfits
  obtain ⟨hlog, hlistens', hanswers'⟩ := Follower.deliver_fits hlistens hfits.1 callback
  refine ⟨?_, ?_, hlistens', hanswers.trans hanswers'⟩
  · rw [hlog]
    exact ⟨hsupplies.queue, hsupplies.office, hsupplies.feeds⟩
  · rw [hlog]
    exact hfits.2

/-- **Every step keeps the parties in step.** -/
theorem step (h : InStep k term before c) (utf8Lossy : List UInt8 → List UInt8)
    {label : InOrderLabel} (hregular : c.Regular label) :
    InStep k term before (c.stepInOrder utf8Lossy label) := by
  cases label with
  | act e =>
    cases e with
    | lead e => exact h.lead utf8Lossy hregular
    | take now => exact h.take utf8Lossy now
    | heartbeat now => exact h.heartbeat utf8Lossy now
    | follow e =>
      obtain ⟨hlog, hlistens, hanswers⟩ := Follower.react_listens h.listens e
      refine ⟨?_, ?_, hlistens, h.answers.trans hanswers⟩
      · show Supplies _ _ _ (Runs.run _ (Follower.react c.follower e).repairLog _) _
        rw [hlog]
        exact ⟨h.supplies.queue, h.supplies.office, h.supplies.feeds⟩
      · show Runs.AllSteps _ _ (Follower.react c.follower e).repairLog _
        rw [hlog]
        exact h.fits
  | deliver callback =>
    rcases hwire : c.wire with _ | ⟨message, rest⟩
    · have heq : c.stepInOrder utf8Lossy (.deliver callback) = c := by
        simp [Replication.stepInOrder, hwire]
      rwa [heq]
    · have heq : c.stepInOrder utf8Lossy (.deliver callback) = { c with
          follower := deliverToFollower callback c.follower message, wire := rest } := by
        simp [Replication.stepInOrder, hwire]
      rw [heq]
      exact h.deliver hwire callback

/-- The parties are in step when the leader takes office. -/
theorem start (clock : Clock) {c : RepairParties}
    (hqueue : c.queue < c.leader.quorumWorkerTasks.length)
    (hopen : c.leader.persistenceOpen = true)
    (hend : c.leader.repairLog = RepairLog.ofLog c.leader.replicationLog)
    (hcommit : c.leader.commitIndex ≤ c.leader.lastLogIndex)
    (hlog : c.follower.repairLog = c.leader.repairLog)
    (hterm : c.follower.currentTerm < c.leader.currentTerm)
    (hbehind : c.follower.commitIndex ≤ c.leader.commitIndex)
    (hstores : c.follower.persistenceOpen = true) :
    InStep c.queue c.leader.currentTerm c.follower (Replication.start clock c) := by
  have hsupplies := @Supplies.start Ordinary clock c hqueue hopen hend hcommit
    (fun _ _ _ _ _ => trivial) (fun _ _ _ => trivial)
  have hcommit' : (Replication.start clock c).leader.commitIndex = c.leader.commitIndex :=
    (Leader.initializeLeadership_unchanged clock _).1.2.2
  refine ⟨?_, trivial, ⟨Or.inl hterm, ?_, ?_, hstores⟩, .of_eq rfl⟩
  · show Supplies _ _ _ c.follower.repairLog _
    rwa [hlog]
  · have hlast : c.follower.lastLogIndex = c.leader.lastLogIndex :=
      congrArg RepairLog.lastLogIndex hlog
    exact (hbehind.trans hcommit).trans hlast.ge
  · rw [hcommit']
    exact hbehind

end InStep

/-- Messages only add to a log. -/
theorem RepairLog.prefix_run_hear (messages : List QuorumMessage) (f : RepairLog) :
    f.log <+: (Runs.run RepairLog.hear f messages).log := by
  refine (Runs.allSteps_true f messages).related (fun _ => True) (fun f g => f.log <+: g.log)
    (fun f => List.prefix_refl f.log) (fun _ _ _ => List.IsPrefix.trans) (fun _ _ _ _ => trivial)
    (fun f message _ _ => ?_) trivial
  unfold RepairLog.hear
  split
  · split
    · exact List.prefix_append ..
    · exact List.prefix_refl _
  · exact List.prefix_refl _

/-- Tasks only add to a log. -/
theorem RepairLog.prefix_run_tell (tasks : List LocalQuorumWorkerTaskType) (f : RepairLog) :
    f.log <+: (Runs.run RepairLog.tell f tasks).log := by
  refine (Runs.allSteps_true f tasks).related (fun _ => True) (fun f g => f.log <+: g.log)
    (fun f => List.prefix_refl f.log) (fun _ _ _ => List.IsPrefix.trans) (fun _ _ _ _ => trivial)
    (fun f task _ _ => ?_) trivial
  unfold RepairLog.tell
  split
  · exact List.prefix_append ..
  · exact List.prefix_refl _

/-- What steady-state replication gives the follower: it refuses nothing, its log is a prefix of
the leader's and the same once everything is delivered, and its commit index is bounded by the
leader's and by its own last entry. -/
structure Replicated (before : SharedState) (c : Replication) : Prop where
  answers : NoRefusal before c.follower
  log : c.follower.replicationLog <+: c.leader.replicationLog
  complete : c.Delivered → c.follower.replicationLog = c.leader.replicationLog
  commit : c.follower.commitIndex ≤ c.leader.commitIndex
  inLog : c.follower.commitIndex ≤ c.follower.lastLogIndex

theorem InStep.replicated {k : ℕ} {before : SharedState} {c : Replication}
    (h : InStep k term before c) : Replicated before c := by
  obtain ⟨tasks, hfeeds, -⟩ := h.supplies.feeds
  have hleader : (Runs.run RepairLog.tell
      (Runs.run RepairLog.hear c.follower.repairLog c.wire) tasks).log = c.leader.replicationLog :=
    congrArg RepairLog.log hfeeds.reaches
  refine ⟨h.answers, ?_, fun hdelivered => ?_, h.listens.commit, h.listens.inLog⟩
  · rw [← hleader]
    exact (RepairLog.prefix_run_hear c.wire c.follower.repairLog).trans
      (RepairLog.prefix_run_tell tasks _)
  · obtain ⟨hqueue, hwire⟩ := hdelivered
    rw [h.supplies.queue, hfeeds.queue] at hqueue
    rw [← hleader, Option.some.inj hqueue, hwire]
    rfl

/-- **Steady-state replication.**  A leader that is well represented takes office, and a follower
of a lower term has its log and no higher commit index.  In every run in which the leader
completes no message with an index beyond its log, and in which the messages of the worker reach
the follower in order, the follower stays in step. -/
theorem steady_state_replication (utf8Lossy : List UInt8 → List UInt8) (clock : Clock)
    (c : RepairParties) (labels : List InOrderLabel)
    (hqueue : c.queue < c.leader.quorumWorkerTasks.length)
    (hopen : c.leader.persistenceOpen = true) (hopen' : c.follower.persistenceOpen = true)
    (hend : c.leader.repairLog = RepairLog.ofLog c.leader.replicationLog)
    (hcommit : c.leader.commitIndex ≤ c.leader.lastLogIndex)
    (hlog : c.follower.repairLog = c.leader.repairLog)
    (hterm : c.follower.currentTerm < c.leader.currentTerm)
    (hbehind : c.follower.commitIndex ≤ c.leader.commitIndex)
    (hrun : Runs.AllSteps (Replication.stepInOrder utf8Lossy) Replication.Regular
      (.start clock c) labels) :
    Replicated c.follower (Runs.run (Replication.stepInOrder utf8Lossy) (.start clock c) labels) :=
  (hrun.invariant (InStep c.queue c.leader.currentTerm c.follower)
    (fun _ _ h hregular => h.step utf8Lossy hregular)
    (.start clock hqueue hopen hend hcommit hlog hterm hbehind hopen')).replicated

/-- Node 2 has the leader's only entry, and the leader's no-op and a heartbeat reach it. -/
def firstDeliveries : List InOrderLabel :=
  [.act (.take 10), .act (.take 10), .deliver (.proxy 0), .act (.heartbeat 200),
    .deliver (.proxy 1)]

/-- It then has the leader's log. -/
theorem steady_state_replication_noop :
    (Runs.run (Replication.stepInOrder id) (.start ⟨5, 0⟩ (partiesOn [sharedNoop] [sharedNoop]))
      firstDeliveries).follower.replicationLog.length = 2 ∧
    Replicated (partiesOn [sharedNoop] [sharedNoop]).follower (Runs.run
      (Replication.stepInOrder id) (.start ⟨5, 0⟩ (partiesOn [sharedNoop] [sharedNoop]))
      firstDeliveries) :=
  ⟨by decide, steady_state_replication id ⟨5, 0⟩ (partiesOn [sharedNoop] [sharedNoop])
    firstDeliveries (by decide) rfl rfl rfl (by decide) rfl (by decide) (by decide) (by decide)⟩

/-! ## A message of an earlier leadership -/

/-- The no-op with which node 3 of five took office in term 4, its sixth message. -/
def noopOfTermFour : OwnedLogEntry := ⟨1, 4, 0, 1, 5, 2000, []⟩

/-- The persistence worker works off `n` entries and the state machine takes its responses. -/
def persistEntries (n now : ℕ) : List NodeEvent :=
  List.replicate n .processTask ++ [.flush] ++
    List.replicate n (.timeStep ⟨now, 0⟩ .popPersistence)

/-- Node 1 stands for election as its clock shows `now`; its message has the given id and two
other nodes vote for it. -/
def electedAt (now id term : ℕ) : List NodeEvent :=
  [.timeStep ⟨now, 0⟩ .finish, .timeStep ⟨now, 0⟩ .finish, .processTask,
    .timeStep ⟨now + 1, 0⟩ .popPersistence, .respond (.requestVoteResponse id term true),
    .respond (.requestVoteResponse id term true), .timeStep ⟨now + 2, 0⟩ .popQuorum,
    .timeStep ⟨now + 2, 0⟩ .popQuorum]

/-- Node 1 of five leads term 1 and writes three batches.  One node acknowledges the last one,
message 5 at index 3.  Node 3 leads term 4: it cuts the log of node 1 to the common entry and
sends its own no-op, which was its message 5.  Then node 1 is elected for term 5. -/
def leadsAgain : List NodeEvent :=
  electedAt 1000 0 1 ++
  [.timeStep ⟨1003, 0⟩ .takeOffice,
    .accept ⟨1004, 0⟩ ⟨.writeBatch ⟨"a", [⟨"k", [1], 1⟩]⟩, .proxy 0⟩,
    .accept ⟨1005, 0⟩ ⟨.writeBatch ⟨"b", [⟨"k", [2], 1⟩]⟩, .proxy 1⟩,
    .accept ⟨1006, 0⟩ ⟨.writeBatch ⟨"c", [⟨"k", [3], 1⟩]⟩, .proxy 2⟩] ++
  persistEntries 4 1100 ++
  [.respond (.appendEntries 5 true), .timeStep ⟨1200, 0⟩ .popQuorum,
    .accept ⟨2100, 0⟩ ⟨.appendEntries ⟨4, 3, 4, 4, 0, none, 0⟩,
      .pending 3 0 (.appendEntries 0 0 0)⟩,
    .respond (.truncateLog 3 1 0), .timeStep ⟨2110, 0⟩ .popQuorum, .processTask,
    .accept ⟨2120, 0⟩ ⟨.appendEntries ⟨4, 3, 0, 1, 5,
      some ⟨1, noopOfTermFour.asBytes, 0, 4, 1, 0, 5⟩, 0⟩, .pending 3 1 (.appendEntries 5 1 4)⟩] ++
  persistEntries 1 2200 ++ electedAt 4000 8 5

/-- Node 1 at that moment, and node 4 with the same log. -/
def leadsAgainOfFive : RepairParties :=
  letI := sampleCapnp
  { leader := (Runs.run Node.step (Node.start ⟨0, 0⟩ [] [] 1 3 4 fun _ => true) leadsAgain).shared
    worker := .new 1 4
    follower := Storage.createSharedState
      ⟨[⟨0, 1, 0, 0, 2, 1003, []⟩, noopOfTermFour], ∅, 1, 4, ∅, 1, []⟩ 4 3 4 fun _ => true }

/-- As leader of term 5 node 1 backfills the no-op of term 4 to two nodes under its message id
5, and they acknowledge it. -/
def acknowledgeNoop : List InOrderLabel :=
  [.act (.lead (.responded (.appendEntries 5 true))),
    .act (.lead (.responded (.appendEntries 5 true))), .act (.take 4010), .act (.take 4010),
    .act (.take 4010), .act (.heartbeat 4200), .deliver (.pending 1 0 (.appendEntries 10 2 5)),
    .deliver (.pending 1 1 (.appendEntries 0 0 0))]

/-- **A completion beyond the log.**  The two acknowledgements complete the batch of term 1 at
index 3, which is no longer in the log; the follower hears of commit index 3 and has three
entries. -/
theorem stale_completion_passes_log :
    ¬ ∀ (utf8Lossy : List UInt8 → List UInt8) (clock : Clock) (c : RepairParties)
      (labels : List InOrderLabel), c.queue < c.leader.quorumWorkerTasks.length →
        c.leader.persistenceOpen = true → c.follower.persistenceOpen = true →
        WellFormed c.leader.replicationLog →
        c.leader.repairLog = RepairLog.ofLog c.leader.replicationLog →
        c.leader.commitIndex ≤ c.leader.lastLogIndex →
        c.follower.repairLog = c.leader.repairLog →
        c.follower.currentTerm < c.leader.currentTerm →
        c.follower.commitIndex ≤ c.leader.commitIndex →
        (∀ node lastLogTerm lastLogIndex,
          .act (.lead (.repair node lastLogTerm lastLogIndex)) ∉ labels) →
        Replicated c.follower
          (Runs.run (Replication.stepInOrder utf8Lossy) (.start clock c) labels) := by
  intro h
  have hlog : leadsAgainOfFive.leader.repairLog =
      ⟨[⟨0, 1, 0, 0, 2, 1003, []⟩, noopOfTermFour], 1, 4⟩ := by rfl
  have hentries : leadsAgainOfFive.leader.replicationLog =
      [⟨0, 1, 0, 0, 2, 1003, []⟩, noopOfTermFour] := congrArg RepairLog.log hlog
  have hwellFormed : WellFormed leadsAgainOfFive.leader.replicationLog :=
    hentries.symm ▸ (WellFormed.nil.concat rfl rfl (by decide)).concat rfl rfl (by decide)
  have hreplicated := h id ⟨4003, 0⟩ leadsAgainOfFive acknowledgeNoop (by decide) (by decide) rfl
    hwellFormed rfl (by decide) (hlog ▸ rfl) (by decide) (by decide) (by simp [acknowledgeNoop])
  have hbound := hreplicated.inLog
  revert hbound
  decide +kernel

end Kraft
