/-
# The repair exchange of leader, quorum worker and follower

One exchange with the functions of the three parties, with no other activity between them: the
worker's heartbeat reaches the follower; if the answer is `WantedPreviousEntry`, the leader
handles it, the worker turns the leader's task into messages, and these reach the follower.

* `follower_exchange` : on the follower's log and its cached end an exchange is `repairRound`.
* `repairs_iff` : from a follower that listens to the leader, exchanges end with the leader's
  log, and with no other log is a heartbeat answered `Ok`, exactly if the logs are `Repairable`.
-/
import Kraft.Repair
import Kraft.Storage
import Kraft.Requests

namespace Kraft

variable {w : QuorumWorker} {s : SharedState}

/-- The leader, its quorum worker for the follower, and the follower. -/
structure RepairParties where
  leader : SharedState
  worker : QuorumWorker
  follower : SharedState

/-- A message of the leader's worker is handed to the follower's state machine. -/
def deliverToFollower (callback : Callback) (s : SharedState) (message : QuorumMessage) :
    SharedState :=
  match message with
  | .appendEntriesRequest request => Follower.appendEntries request callback s
  | .truncateLogRequest prevTerm prevIndex _ leaderId _ =>
    Follower.handleQuorum (.truncateLog leaderId prevTerm prevIndex) s
  | _ => s

/-- The worker takes the waiting tasks one after the other and sends their messages. -/
def QuorumWorker.sendTasks (utf8Lossy : List UInt8 → List UInt8) (now : ℕ) (w : QuorumWorker)
    (tasks : List LocalQuorumWorkerTaskType) : QuorumWorker × List QuorumMessage :=
  tasks.foldl (fun acc task =>
    let next := acc.1.processTask utf8Lossy now task
    (next.1, acc.2 ++ next.2.messages)) (w, [])

namespace RepairParties

/-- The number of the worker's queue at the leader. -/
def queue (c : RepairParties) : ℕ := Leader.getQuorumWorkerIndex c.worker.memberId c.leader.identity

/-- The follower after a heartbeat of the worker. -/
def heartbeat (callback : Callback) (c : RepairParties) : SharedState :=
  deliverToFollower callback c.follower c.worker.heartbeatMessage

/-- The leader handles the end of the follower's log, and what it sends arrives. -/
def repair (utf8Lossy : List UInt8 → List UInt8) (now : ℕ) (callback : Callback)
    (lastLogTerm lastLogIndex : ℕ) (c : RepairParties) : RepairParties :=
  let leader := Leader.handleBackfillRequest c.worker.memberId lastLogTerm lastLogIndex c.leader
  let sent := c.worker.sendTasks utf8Lossy now (leader.quorumWorkerTasks[c.queue]?.getD [])
  { leader := { leader with quorumWorkerTasks := leader.quorumWorkerTasks.set c.queue [] }
    worker := sent.1
    follower := sent.2.foldl (deliverToFollower callback) c.follower }

/-- One exchange. -/
def exchange (utf8Lossy : List UInt8 → List UInt8) (now : ℕ) (callback : Callback)
    (c : RepairParties) : RepairParties :=
  let c := { c with follower := c.heartbeat callback }
  match c.follower.callbackResponses.getLast? with
  | some (_, .appendEntries (.wantedPreviousEntry lastLogTerm lastLogIndex)) =>
    c.repair utf8Lossy now callback lastLogTerm lastLogIndex
  | _ => c

/-- A number of exchanges; `env` has the time and the answer channel of each. -/
def exchanges (utf8Lossy : List UInt8 → List UInt8) (env : ℕ → ℕ × Callback) :
    ℕ → RepairParties → RepairParties
  | 0, c => c
  | n + 1, c => (exchanges utf8Lossy env n c).exchange utf8Lossy (env n).1 (env n).2

/-- The follower answers `Ok` to the next heartbeat. -/
def AnswersOk (c : RepairParties) : Prop :=
  ∀ callback, (c.heartbeat callback).callbackResponses.getLast? =
    some (callback, .appendEntries .ok)

/-- Exchanges end with the leader's log at the follower and an `Ok`, and there is no `Ok` while
the logs differ. -/
def Repaired (utf8Lossy : List UInt8 → List UInt8) (env : ℕ → ℕ × Callback) (c : RepairParties) :
    Prop :=
  (∃ n, (exchanges utf8Lossy env n c).follower.replicationLog = c.leader.replicationLog ∧
      (exchanges utf8Lossy env n c).AnswersOk) ∧
    ∀ n, (exchanges utf8Lossy env n c).AnswersOk →
      (exchanges utf8Lossy env n c).follower.replicationLog = c.leader.replicationLog

/-- The parties between two exchanges: the worker knows the end of the leader's log and has no
task waiting, and the follower listens to the leader and has its persistence worker. -/
structure Ready (c : RepairParties) : Prop where
  prev : (c.worker.prevLogIndex, c.worker.prevLogTerm) = logEnd c.leader.replicationLog
  waiting : c.leader.quorumWorkerTasks[c.queue]? = some []
  listens : c.follower.currentTerm < c.worker.term ∨ c.follower.leaderId = c.worker.selfId
  isOpen : c.follower.persistenceOpen = true

end RepairParties

/-! ## The follower -/

/-- The log of a node and its cached end. -/
def SharedState.repairLog (s : SharedState) : RepairLog :=
  ⟨s.replicationLog, s.lastLogIndex, s.lastLogTerm⟩

/-- The node takes requests of a leader in a term, and can store entries. -/
structure Following (term leaderId : ℕ) (s : SharedState) : Prop where
  term : ¬ s.currentTerm < term
  leaderId : leaderId = s.leaderId
  isOpen : s.persistenceOpen = true

namespace Follower

variable {request : LocalAppendEntries} {s : SharedState}

/-- A follower that takes the sender for its leader. -/
theorem following_of_heeds {s₁ : SharedState} (h : Heeds .follower request s s₁)
    (hopen : s.persistenceOpen = true) :
    Following request.term request.leaderId s₁ ∧ s₁.repairLog = s.repairLog := by
  obtain ⟨hleader, hterm⟩ := h.standing
  obtain ⟨⟨⟨⟨-, -, hsame, -⟩, hindex, hlast, -, hlog⟩, -⟩, -⟩ := h.unchanged
  refine ⟨⟨?_, hleader.symm, hsame.trans hopen⟩, ?_⟩
  · rw [hterm]
    exact Nat.not_lt.mpr (le_max_right ..)
  · simp [SharedState.repairLog, hlog, hindex, hlast]

/-- A heartbeat of a leader the node listens to leaves the log alone and is answered by the
comparison of the ends. -/
theorem appendEntries_heartbeat (hlistens : s.currentTerm < request.term ∨
      request.leaderId = s.leaderId) (hopen : s.persistenceOpen = true)
    (hentry : request.entry = none) (hid : request.requestId = 0) (callback : Callback) :
    (appendEntries request callback s).repairLog = s.repairLog ∧
    Following request.term request.leaderId (appendEntries request callback s) ∧
    (appendEntries request callback s).callbackResponses = s.callbackResponses ++
      [(callback, .appendEntries (if ValidAppendEntries request s then .ok
        else .wantedPreviousEntry s.lastLogTerm s.lastLogIndex))] := by
  have hreceives := receives_appendEntries request callback s
  generalize appendEntries request callback s = s' at hreceives ⊢
  cases hreceives with
  | unrecognised hheard => exact absurd hlistens hheard
  | mismatched hheeds hvalid =>
    obtain ⟨⟨⟨-, hindex, hlast, -⟩, -, -, hanswers, -⟩, -⟩ := hheeds.unchanged
    obtain ⟨⟨hterm, hleader, hopen⟩, hlog⟩ := following_of_heeds hheeds hopen
    exact ⟨hlog, ⟨hterm, hleader, hopen⟩, by simp [hvalid, hanswers, hindex, hlast]⟩
  | acknowledged hheeds hvalid =>
    obtain ⟨⟨hterm, hleader, hopen⟩, hlog⟩ := following_of_heeds hheeds hopen
    exact ⟨hlog, ⟨hterm, hleader, hopen⟩, by simp [hvalid, hheeds.unchanged.1.2.2.2.1]⟩
  | adopted _ hterm hleader _ hvalid =>
    refine ⟨by simp [SharedState.repairLog], ⟨?_, ?_, ?_⟩, by simp [hvalid]⟩
    · simpa using hterm
    · simpa using hleader
    · simpa using hopen
  | unstored _ _ _ hstores => simp [hentry, hid] at hstores
  | stored _ _ _ _ hcarried => simp [hentry] at hcarried

/-- A heartbeat leaves the commit index or takes over that of the request. -/
theorem commitIndex_appendEntries_heartbeat
    (hentry : request.entry = none) (hid : request.requestId = 0) (callback : Callback) :
    (appendEntries request callback s).commitIndex = s.commitIndex ∨
      ValidAppendEntries request s ∧
        (appendEntries request callback s).commitIndex = request.commitIndex := by
  have hreceives := receives_appendEntries request callback s
  generalize appendEntries request callback s = s' at hreceives ⊢
  cases hreceives with
  | unrecognised => exact Or.inl rfl
  | mismatched hheeds => exact Or.inl hheeds.unchanged.2.1.1
  | acknowledged hheeds => exact Or.inl hheeds.unchanged.2.1.1
  | adopted _ _ _ _ hvalid => exact Or.inr ⟨hvalid, by simp⟩
  | unstored _ _ _ hstores => simp [hentry, hid] at hstores
  | stored _ _ _ _ hcarried => simp [hentry] at hcarried

/-- A request with id 0 of the leader the node follows, whether or not it carries an entry. -/
theorem appendEntries_zero (hnew : ¬ s.currentTerm < request.term)
    (hleader : s.leaderId = request.leaderId) (hid : request.requestId = 0)
    (hopen : s.persistenceOpen = true) (callback : Callback) :
    (appendEntries request callback s).repairLog = s.repairLog ∧
      Following request.term request.leaderId (appendEntries request callback s) ∧
      (appendEntries request callback s).commitIndex =
        if ValidAppendEntries request s ∧
          (s.commitIndex < request.commitIndex ∨ s.currentTerm ≠ request.term)
        then request.commitIndex else s.commitIndex := by
  have hreceives := receives_appendEntries request callback s
  generalize appendEntries request callback s = s' at hreceives ⊢
  cases hreceives with
  | unrecognised hheard => exact absurd (Or.inr hleader.symm) hheard
  | mismatched hheeds hvalid =>
    obtain rfl := hheeds.eq_of_le (Nat.not_lt.mp hnew)
    exact ⟨rfl, ⟨hnew, hleader.symm, hopen⟩, by simp [hvalid]⟩
  | acknowledged hheeds hvalid hquiet =>
    obtain rfl := hheeds.eq_of_le (Nat.not_lt.mp hnew)
    obtain ⟨-, hterm, hcommit⟩ := (hquiet rfl).resolve_left fun hlt => hnew hlt.1
    exact ⟨rfl, ⟨hnew, hleader.symm, hopen⟩, by simp [hterm, Nat.not_lt.mpr hcommit]⟩
  | adopted _ hterm _ _ hvalid hcommit =>
    have hnew' : s.commitIndex < request.commitIndex ∨ s.currentTerm ≠ request.term :=
      hcommit.imp_right Nat.ne_of_gt
    refine ⟨by simp [SharedState.repairLog], ⟨?_, ?_, ?_⟩, by simp [hvalid, hnew']⟩
    · simpa using hterm
    · simpa using hleader.symm
    · simpa using hopen
  | unstored _ _ _ hstores => exact (hstores.elim (hnew ·.1) (· hid)).elim
  | stored _ _ _ hstores => exact (hstores.elim hnew (· hid)).elim

/-- **An entry that fits** is stored, and answered when it is on disk. -/
theorem appendEntries_entry {entry : LogEntry} {owned : OwnedLogEntry}
    (hlistens : s.currentTerm < request.term ∨ s.leaderId = request.leaderId)
    (hopen : s.persistenceOpen = true) (hvalid : ValidAppendEntries request s)
    (hentry : request.entry = some entry) (hdata : OwnedLogEntry.fromBytes entry.data = some owned)
    (hid : s.currentTerm < request.term ∨ request.requestId ≠ 0) (callback : Callback) :
    (appendEntries request callback s).repairLog =
        ⟨s.replicationLog ++ [owned], entry.index, entry.term⟩ ∧
      (appendEntries request callback s).commitIndex = max s.commitIndex request.commitIndex ∧
      (appendEntries request callback s).leaderId = request.leaderId ∧
      (appendEntries request callback s).persistenceOpen = true ∧
      (appendEntries request callback s).callbackResponses = s.callbackResponses ∧
      (appendEntries request callback s).currentTerm = max s.currentTerm request.term := by
  have hreceives := receives_appendEntries request callback s
  generalize appendEntries request callback s = s' at hreceives ⊢
  cases hreceives with
  | unrecognised hheard => exact absurd (hlistens.imp_right Eq.symm) hheard
  | mismatched _ hmismatch => exact absurd hvalid hmismatch
  | acknowledged _ _ hquiet =>
    rcases hquiet rfl with ⟨-, hnone⟩ | ⟨hzero, hterm, -⟩
    · simp [hentry] at hnone
    · omega
  | adopted _ hterm _ hzero => omega
  | unstored _ _ _ _ hrefused => simpa [hdata, hopen] using hrefused entry hentry
  | stored _ hheeds _ _ hentry' hdata' =>
    obtain rfl := Option.some.inj (hentry.symm.trans hentry')
    obtain rfl := Option.some.inj (hdata.symm.trans hdata')
    obtain ⟨⟨⟨⟨-, -, hsame, -⟩, -, -, -, hlog⟩, -, -, hanswers, -⟩, ⟨hcommit, -⟩, -⟩ :=
      hheeds.unchanged
    obtain ⟨hleader, hterm⟩ := hheeds.standing
    simp [SharedState.repairLog, hentry, hsame, hopen, hlog, hanswers, hcommit, hleader, hterm]

/-- A request of the leader the node follows that does not continue its log is refused. -/
theorem appendEntries_mismatched (h : Following request.term request.leaderId s)
    (hvalid : ¬ValidAppendEntries request s) (callback : Callback) :
    appendEntries request callback s = s.answerWantedPreviousEntry callback := by
  have hreceives := receives_appendEntries request callback s
  generalize appendEntries request callback s = s' at hreceives ⊢
  cases hreceives with
  | unrecognised hheard => exact absurd (Or.inr h.leaderId) hheard
  | mismatched hheeds => rw [hheeds.eq_of_le (Nat.not_lt.mp h.term)]
  | acknowledged _ hcontinues => exact absurd hcontinues hvalid
  | adopted _ _ _ _ hcontinues => exact absurd hcontinues hvalid
  | unstored _ _ hcontinues => exact absurd hcontinues hvalid
  | stored _ _ hcontinues => exact absurd hcontinues hvalid

/-- An entry of a backfill. -/
theorem backfill_spec (h : Following w.term w.selfId s) (callback : Callback)
    (entry : OwnedLogEntry) :
    (deliverToFollower callback s
      (w.appendEntriesMessage entry.messageId w.commitIndex entry)).repairLog =
        s.repairLog.receive entry ∧
    Following w.term w.selfId (deliverToFollower callback s
      (w.appendEntriesMessage entry.messageId w.commitIndex entry)) := by
  unfold QuorumWorker.appendEntriesMessage deliverToFollower
  dsimp only
  generalize hrequest : (LocalAppendEntries.mk w.term w.selfId _ _ _ _ _) = request
  have hfields : request.term = w.term ∧ request.leaderId = w.selfId ∧
      request.requestId = entry.messageId ∧ (ValidAppendEntries request s ↔
        entry.prevLogIndex = s.lastLogIndex ∧ entry.prevLogTerm = s.lastLogTerm) ∧
      ∃ e, request.entry = some e ∧ e.data = entry.asBytes ∧ e.index = entry.index ∧
        e.term = entry.term := by
    subst hrequest
    exact ⟨rfl, rfl, rfl, Iff.rfl, _, rfl, rfl, rfl, rfl⟩
  obtain ⟨hterm, hleader, hid, hvalid, e, hentry, hdata, hindex, heterm⟩ := hfields
  rw [← hterm, ← hleader] at h ⊢
  unfold RepairLog.receive
  by_cases hzero : request.requestId = 0
  · -- request id 0 is a heartbeat
    rw [if_neg fun hstored => hstored.1 (hid.symm.trans hzero)]
    obtain ⟨hlog, hfollowing, -⟩ := appendEntries_zero h.term h.leaderId.symm hzero h.isOpen callback
    exact ⟨hlog, hfollowing⟩
  · by_cases hcontinues : ValidAppendEntries request s
    · obtain ⟨hlog, -, hleader', hopen, -, hterm'⟩ := appendEntries_entry (Or.inr h.leaderId.symm)
        h.isOpen hcontinues hentry (hdata ▸ entry.fromBytes_asBytes) (Or.inr hzero) callback
      rw [if_pos ⟨fun heq => hzero (hid.trans heq), hvalid.mp hcontinues⟩, hlog, hindex, heterm]
      refine ⟨rfl, ?_, hleader'.symm, hopen⟩
      rw [hterm']
      exact Nat.not_lt.mpr (le_max_right ..)
    · rw [if_neg (fun hstored => hcontinues (hvalid.mpr hstored.2)),
        appendEntries_mismatched h hcontinues]
      exact ⟨rfl, h.term, h.leaderId, h.isOpen⟩

/-- A truncation. -/
theorem truncate_spec (h : Following w.term w.selfId s) (callback : Callback)
    (prevTerm prevIndex term leaderId requestId : ℕ) :
    (deliverToFollower callback s
      (.truncateLogRequest prevTerm prevIndex term leaderId requestId)).repairLog =
        s.repairLog.truncate prevTerm prevIndex ∧
    Following w.term w.selfId (deliverToFollower callback s
      (.truncateLogRequest prevTerm prevIndex term leaderId requestId)) := by
  have hcut : (truncateLog s prevTerm prevIndex).repairLog =
      s.repairLog.truncate prevTerm prevIndex := by
    unfold RepairLog.truncate SharedState.repairLog
    rcases Nat.lt_or_ge (prevIndex + 1) s.replicationLog.length with hlt | hle
    · obtain ⟨hlog, hterm, hindex, -⟩ := truncateLog_of_lt prevTerm hlt
      rw [if_pos hlt, hlog, hterm, hindex]
    · rw [if_neg (Nat.not_lt.mpr hle), truncateLog_of_le prevTerm hle]
  show (truncateLog s prevTerm prevIndex).bumpVersion.repairLog = _ ∧
    Following _ _ (truncateLog s prevTerm prevIndex).bumpVersion
  exact ⟨hcut, by simpa using h.term, by simpa using h.leaderId, by simpa using h.isOpen⟩

/-- A backfill. -/
theorem foldl_backfill (callback : Callback) (entries : List OwnedLogEntry) :
    ∀ {s : SharedState}, Following w.term w.selfId s →
      ((entries.map fun entry => w.appendEntriesMessage entry.messageId w.commitIndex entry).foldl
        (deliverToFollower callback) s).repairLog = entries.foldl RepairLog.receive s.repairLog ∧
      Following w.term w.selfId ((entries.map fun entry =>
        w.appendEntriesMessage entry.messageId w.commitIndex entry).foldl
          (deliverToFollower callback) s) := by
  induction entries with
  | nil => exact fun h => ⟨rfl, h⟩
  | cons entry rest ih =>
    intro s h
    obtain ⟨hlog, hfollowing⟩ := backfill_spec h callback entry
    rw [List.map_cons, List.foldl_cons, List.foldl_cons, ← hlog]
    exact ih hfollowing

end Follower

/-! ## The leader and its worker -/

/-- The leader's state after a repair function: its log and name are the same, and the queue of
the worker holds one more task. -/
structure Assigns (k : ℕ) (task : LocalQuorumWorkerTaskType) (s s' : SharedState) : Prop where
  log : s'.replicationLog = s.replicationLog
  identity : s'.identity = s.identity
  queue : s'.quorumWorkerTasks[k]? = (s.quorumWorkerTasks[k]?).map (· ++ [task])

namespace Leader

variable {s : SharedState} {member : ℕ}

theorem assigns_pushToWorker (k : ℕ) (task : LocalQuorumWorkerTaskType) (s : SharedState) :
    Assigns k task s (pushToWorker k task s) :=
  ⟨rfl, rfl, by simp [pushToWorker]⟩

/-- The signal to truncate goes to the worker of the member, -/
theorem assigns_sendTruncateSignal
    (hk : getQuorumWorkerIndex member s.identity < s.quorumWorkerTasks.length)
    (prevTerm prevIndex : ℕ) :
    Assigns (getQuorumWorkerIndex member s.identity)
      (.truncateLog s.nextMessageId prevTerm prevIndex) s
      (sendTruncateSignal member prevTerm prevIndex s) := by
  unfold sendTruncateSignal
  dsimp only
  rw [if_pos hk]
  obtain ⟨hlog, hidentity, hqueue⟩ := assigns_pushToWorker (getQuorumWorkerIndex member s.identity)
    (.truncateLog s.nextMessageId prevTerm prevIndex) { s with nextMessageId := s.nextMessageId + 1 }
  exact ⟨hlog, hidentity, hqueue⟩

/-- and so do the entries. -/
theorem assigns_sendBackfillData
    (hk : getQuorumWorkerIndex member s.identity < s.quorumWorkerTasks.length)
    (lastLogTerm lastLogIndex : ℕ) :
    Assigns (getQuorumWorkerIndex member s.identity)
      (.backfillLog (s.replicationLog.drop (if lastLogTerm = 0 then 0 else lastLogIndex + 1))) s
      (sendBackfillData member lastLogTerm lastLogIndex s) := by
  unfold sendBackfillData
  dsimp only
  rw [if_pos hk]
  exact assigns_pushToWorker _ _ s

end Leader

/-- The task with which the leader answers the end of a follower's log. -/
def repairTask (messageId : ℕ) (leader : List OwnedLogEntry) (lastLogTerm lastLogIndex : ℕ) :
    LocalQuorumWorkerTaskType :=
  match leader[lastLogIndex]? with
  | none => .truncateLog messageId (logEnd leader).2 (leader.length - 1)
  | some entry =>
    if entry.term ≠ lastLogTerm ∧ lastLogTerm ≠ 0 then
      match Leader.findTermBelow leader lastLogTerm lastLogIndex with
      | some truncateTo => .truncateLog messageId lastLogTerm truncateTo
      | none => .truncateLog messageId 0 0
    else .backfillLog (leader.drop (if lastLogTerm = 0 then 0 else lastLogIndex + 1))

/-- The leader assigns the repair of a member to its worker. -/
theorem assigns_handleBackfillRequest {member : ℕ}
    (hk : Leader.getQuorumWorkerIndex member s.identity < s.quorumWorkerTasks.length)
    (lastLogTerm lastLogIndex : ℕ) :
    Assigns (Leader.getQuorumWorkerIndex member s.identity)
      (repairTask s.nextMessageId s.replicationLog lastLogTerm lastLogIndex) s
      (Leader.handleBackfillRequest member lastLogTerm lastLogIndex s) := by
  unfold Leader.handleBackfillRequest repairTask
  rcases s.replicationLog[lastLogIndex]? with _ | entry
  · have hterm : (s.replicationLog.getLast?.map (·.term)).getD 0 = (logEnd s.replicationLog).2 := by
      rcases hlast : s.replicationLog.getLast? with _ | last
      · rw [List.getLast?_eq_none_iff.mp hlast]
        rfl
      · rw [logEnd_of_getLast? hlast]
        rfl
    dsimp only
    rw [← hterm]
    exact Leader.assigns_sendTruncateSignal hk ..
  · dsimp only
    by_cases hmismatch : entry.term ≠ lastLogTerm ∧ lastLogTerm ≠ 0
    · rw [if_pos hmismatch, if_pos hmismatch, Leader.handleTermMismatch]
      rcases Leader.findTermBelow s.replicationLog lastLogTerm lastLogIndex with _ | truncateTo
      · exact Leader.assigns_sendTruncateSignal hk ..
      · exact Leader.assigns_sendTruncateSignal hk ..
    · rw [if_neg hmismatch, if_neg hmismatch]
      exact Leader.assigns_sendBackfillData hk ..

/-- The worker's part of an exchange: it sends to the follower what `RepairLog.answer` says, and
its picture of the leader is unchanged. -/
structure Sends (callback : Callback) (leader : List OwnedLogEntry) (w : QuorumWorker)
    (s : SharedState) (sent : QuorumWorker × List QuorumMessage) : Prop where
  log : (sent.2.foldl (deliverToFollower callback) s).repairLog = s.repairLog.answer leader
  following : Following w.term w.selfId (sent.2.foldl (deliverToFollower callback) s)
  worker : sent.1.term = w.term ∧ sent.1.selfId = w.selfId ∧ sent.1.memberId = w.memberId ∧
    sent.1.prevLogIndex = w.prevLogIndex ∧ sent.1.prevLogTerm = w.prevLogTerm

theorem Sends.of_truncate {callback : Callback} {leader : List OwnedLogEntry}
    (h : Following w.term w.selfId s) {prevTerm prevIndex : ℕ}
    (hanswer : s.repairLog.answer leader = s.repairLog.truncate prevTerm prevIndex) :
    Sends callback leader w s (w, [.truncateLogRequest prevTerm prevIndex w.term w.selfId 0]) := by
  obtain ⟨hlog, hfollowing⟩ := Follower.truncate_spec h callback prevTerm prevIndex w.term w.selfId 0
  exact ⟨hlog.trans hanswer.symm, hfollowing, rfl, rfl, rfl, rfl, rfl⟩

theorem Sends.of_backfill {callback : Callback} {leader : List OwnedLogEntry} {w' : QuorumWorker}
    (h : Following w.term w.selfId s) {entries : List OwnedLogEntry}
    (hanswer : s.repairLog.answer leader = entries.foldl RepairLog.receive s.repairLog)
    (hworker : w'.term = w.term ∧ w'.selfId = w.selfId ∧ w'.memberId = w.memberId ∧
      w'.prevLogIndex = w.prevLogIndex ∧ w'.prevLogTerm = w.prevLogTerm) :
    Sends callback leader w s (w', entries.map fun entry =>
      w.appendEntriesMessage entry.messageId w.commitIndex entry) := by
  obtain ⟨hlog, hfollowing⟩ := Follower.foldl_backfill callback entries h
  exact ⟨hlog.trans hanswer.symm, hfollowing, hworker⟩

/-- The worker sends what repairs the follower. -/
theorem sends_repairTask (utf8Lossy : List UInt8 → List UInt8) (now : ℕ) (callback : Callback)
    (h : Following w.term w.selfId s) (messageId : ℕ) (leader : List OwnedLogEntry) :
    Sends callback leader w s (w.sendTasks utf8Lossy now
      [repairTask messageId leader s.lastLogTerm s.lastLogIndex]) := by
  have hanswer := RepairLog.answer.eq_1 leader s.repairLog
  rw [show s.lastLogTerm = s.repairLog.lastLogTerm from rfl,
    show s.lastLogIndex = s.repairLog.lastLogIndex from rfl]
  revert hanswer
  unfold repairTask
  rcases leader[s.repairLog.lastLogIndex]? with _ | entry
  · exact fun hanswer => .of_truncate h hanswer
  · dsimp only
    by_cases hmismatch : entry.term ≠ s.repairLog.lastLogTerm ∧ s.repairLog.lastLogTerm ≠ 0
    · rw [if_pos hmismatch, if_pos hmismatch]
      rcases Leader.findTermBelow leader s.repairLog.lastLogTerm s.repairLog.lastLogIndex with
        _ | truncateTo
      · exact fun hanswer => .of_truncate h hanswer
      · exact fun hanswer => .of_truncate h hanswer
    · rw [if_neg hmismatch, if_neg hmismatch]
      intro hanswer
      generalize leader.drop _ = entries at hanswer ⊢
      show Sends callback leader w s
        ((w.sendBackfillEntries now entries).1, (w.sendBackfillEntries now entries).2.messages)
      unfold QuorumWorker.sendBackfillEntries
      split_ifs with hnil
      · subst hnil
        exact .of_backfill h hanswer ⟨rfl, rfl, rfl, rfl, rfl⟩
      · exact .of_backfill h hanswer ⟨rfl, rfl, rfl, rfl, rfl⟩

/-! ## The exchange -/

namespace RepairParties

variable {c : RepairParties}

/-- A heartbeat leaves the follower's log alone, and the answer compares the ends. -/
theorem heartbeat_spec (h : c.Ready) (callback : Callback) :
    (c.heartbeat callback).repairLog = c.follower.repairLog ∧
    Following c.worker.term c.worker.selfId (c.heartbeat callback) ∧
    (c.heartbeat callback).callbackResponses = c.follower.callbackResponses ++
      [(callback, .appendEntries
        (if RepairLog.Agrees c.leader.replicationLog c.follower.repairLog then .ok
        else .wantedPreviousEntry c.follower.lastLogTerm c.follower.lastLogIndex))] := by
  let request : LocalAppendEntries := ⟨c.worker.term, c.worker.selfId, c.worker.prevLogIndex,
    c.worker.prevLogTerm, 0, none, c.worker.commitIndex⟩
  obtain ⟨hlog, hfollowing, hresponses⟩ := @Follower.appendEntries_heartbeat request c.follower
    (h.listens.imp_right Eq.symm) h.isOpen rfl rfl callback
  have hvalid : RepairLog.Agrees c.leader.replicationLog c.follower.repairLog ↔
      ValidAppendEntries request c.follower := by
    rw [RepairLog.Agrees, ← h.prev]
    exact Prod.mk.injEq .. ▸ Iff.rfl
  refine ⟨hlog, hfollowing, hresponses.trans ?_⟩
  by_cases hagrees : RepairLog.Agrees c.leader.replicationLog c.follower.repairLog
  · rw [if_pos hagrees, if_pos (hvalid.mp hagrees)]
  · rw [if_neg hagrees, if_neg (fun hok => hagrees (hvalid.mpr hok))]

/-- The follower answers `ok` when the leader takes it for complete. -/
theorem answersOk_iff (h : c.Ready) :
    c.AnswersOk ↔ RepairLog.Agrees c.leader.replicationLog c.follower.repairLog := by
  unfold AnswersOk
  constructor
  · intro hall
    have hok := hall (.proxy 0)
    rw [(heartbeat_spec h _).2.2, List.getLast?_concat] at hok
    by_contra hagrees
    rw [if_neg hagrees] at hok
    cases hok
  · intro hagrees callback
    rw [(heartbeat_spec h callback).2.2, List.getLast?_concat, if_pos hagrees]

/-- What the leader and its worker do about the end of the follower's log. -/
theorem repair_spec (hprev : (c.worker.prevLogIndex, c.worker.prevLogTerm) =
      logEnd c.leader.replicationLog) (hwaiting : c.leader.quorumWorkerTasks[c.queue]? = some [])
    (hfollowing : Following c.worker.term c.worker.selfId c.follower)
    (utf8Lossy : List UInt8 → List UInt8) (now : ℕ) (callback : Callback) :
    (c.repair utf8Lossy now callback c.follower.lastLogTerm
      c.follower.lastLogIndex).follower.repairLog =
        c.follower.repairLog.answer c.leader.replicationLog ∧
    (c.repair utf8Lossy now callback c.follower.lastLogTerm
      c.follower.lastLogIndex).leader.replicationLog = c.leader.replicationLog ∧
    (c.repair utf8Lossy now callback c.follower.lastLogTerm c.follower.lastLogIndex).Ready := by
  have hk : c.queue < c.leader.quorumWorkerTasks.length :=
    (List.getElem?_eq_some_iff.mp hwaiting).1
  obtain ⟨hlog, hidentity, hqueue⟩ := assigns_handleBackfillRequest hk c.follower.lastLogTerm
    c.follower.lastLogIndex
  rw [← queue, hwaiting, Option.map_some, List.nil_append] at hqueue
  obtain ⟨hanswer, hstays, hterm, hself, hmember, hindex, hprevTerm⟩ := sends_repairTask utf8Lossy
    now callback hfollowing c.leader.nextMessageId c.leader.replicationLog
  unfold repair
  dsimp only
  rw [hqueue, Option.getD_some]
  refine ⟨hanswer, hlog, ?_, ?_, ?_, hstays.isOpen⟩
  · show (_, _) = logEnd (Leader.handleBackfillRequest ..).replicationLog
    rw [hlog, ← hprev]
    exact Prod.ext hindex hprevTerm
  · have hsame : Leader.getQuorumWorkerIndex (c.worker.sendTasks utf8Lossy now
        [repairTask c.leader.nextMessageId c.leader.replicationLog c.follower.lastLogTerm
          c.follower.lastLogIndex]).1.memberId
        (Leader.handleBackfillRequest c.worker.memberId c.follower.lastLogTerm
          c.follower.lastLogIndex c.leader).identity = c.queue := by
      rw [hmember, hidentity, queue]
    show (List.set _ _ _)[Leader.getQuorumWorkerIndex _ _]? = some []
    rw [hsame, List.getElem?_set_self (List.getElem?_eq_some_iff.mp hqueue).1]
  · right
    show _ = QuorumWorker.selfId (QuorumWorker.sendTasks ..).1
    rw [hself]
    exact hstays.leaderId.symm

/-- **An exchange is a round.**  It keeps the leader's log and leaves the parties ready. -/
theorem follower_exchange (h : c.Ready) (utf8Lossy : List UInt8 → List UInt8) (now : ℕ)
    (callback : Callback) :
    (c.exchange utf8Lossy now callback).follower.repairLog =
      RepairLog.repairRound c.leader.replicationLog c.follower.repairLog ∧
    (c.exchange utf8Lossy now callback).leader.replicationLog = c.leader.replicationLog ∧
    (c.exchange utf8Lossy now callback).Ready := by
  obtain ⟨hlog, hfollowing, hresponses⟩ := heartbeat_spec h callback
  have hends : (c.heartbeat callback).lastLogTerm = c.follower.lastLogTerm ∧
      (c.heartbeat callback).lastLogIndex = c.follower.lastLogIndex :=
    ⟨congrArg RepairLog.lastLogTerm hlog, congrArg RepairLog.lastLogIndex hlog⟩
  unfold exchange RepairLog.repairRound
  dsimp only
  rw [hresponses, List.getLast?_concat]
  by_cases hagrees : RepairLog.Agrees c.leader.replicationLog c.follower.repairLog
  · rw [if_pos hagrees, if_pos hagrees]
    exact ⟨hlog, rfl, h.prev, h.waiting, Or.inr hfollowing.leaderId.symm, hfollowing.isOpen⟩
  · rw [if_neg hagrees, if_neg hagrees]
    obtain ⟨hanswer, hleader, hready⟩ := repair_spec
      (c := { c with follower := c.heartbeat callback }) h.prev h.waiting hfollowing utf8Lossy now
      callback
    rw [hends.1, hends.2] at hanswer hleader hready
    exact ⟨by rw [← hlog]; exact hanswer, hleader, hready⟩

/-- A run of exchanges is a run of rounds. -/
theorem follower_exchanges (h : c.Ready) (utf8Lossy : List UInt8 → List UInt8)
    (env : ℕ → ℕ × Callback) (n : ℕ) :
    (c.exchanges utf8Lossy env n).follower.repairLog =
      RepairLog.repairRounds c.leader.replicationLog n c.follower.repairLog ∧
    (c.exchanges utf8Lossy env n).leader.replicationLog = c.leader.replicationLog ∧
    (c.exchanges utf8Lossy env n).Ready := by
  induction n with
  | zero => exact ⟨rfl, rfl, h⟩
  | succ n ih =>
    obtain ⟨hlog, hleader, hready⟩ := ih
    obtain ⟨hlog', hleader', hready'⟩ := follower_exchange hready utf8Lossy (env n).1 (env n).2
    refine ⟨?_, hleader'.trans hleader, hready'⟩
    rw [RepairLog.repairRounds, Function.iterate_succ_apply', ← RepairLog.repairRounds, ← hlog,
      ← hleader]
    exact hlog'

/-- The exchanges repair the follower exactly if the rounds on its log converge. -/
theorem repaired_iff_converges (h : c.Ready) (utf8Lossy : List UInt8 → List UInt8)
    (env : ℕ → ℕ × Callback) :
    c.Repaired utf8Lossy env ↔
      RepairLog.Converges c.leader.replicationLog c.follower.repairLog := by
  have hround : ∀ n,
      ((c.exchanges utf8Lossy env n).follower.replicationLog = c.leader.replicationLog ↔
        (RepairLog.repairRounds c.leader.replicationLog n c.follower.repairLog).log =
          c.leader.replicationLog) ∧
      ((c.exchanges utf8Lossy env n).AnswersOk ↔ RepairLog.Agrees c.leader.replicationLog
        (RepairLog.repairRounds c.leader.replicationLog n c.follower.repairLog)) := by
    intro n
    obtain ⟨hlog, hleader, hready⟩ := follower_exchanges h utf8Lossy env n
    rw [answersOk_iff hready, hleader, ← hlog]
    exact ⟨Iff.rfl, Iff.rfl⟩
  unfold Repaired RepairLog.Converges
  exact and_congr (exists_congr fun n => and_congr (hround n).1 (hround n).2)
    (forall_congr' fun n => imp_congr (hround n).2 (hround n).1)

/-- **Which logs the repair exchange repairs.**  The follower's cached end is that of its log;
the leader's log is well formed and the logs match. -/
theorem repairs_iff (h : c.Ready)
    (hcached : c.follower.repairLog = RepairLog.ofLog c.follower.replicationLog)
    (hleader : WellFormed c.leader.replicationLog)
    (hmatch : LogMatching c.leader.replicationLog c.follower.replicationLog)
    (utf8Lossy : List UInt8 → List UInt8) (env : ℕ → ℕ × Callback) :
    c.Repaired utf8Lossy env ↔
      RepairLog.Repairable c.leader.replicationLog c.follower.replicationLog := by
  rw [repaired_iff_converges h, hcached]
  exact RepairLog.converges_iff hleader hmatch

end RepairParties

/-! ## Two exchanges -/

/-- Node 2 started on a log, and node 1 as leader of term 3 with another. -/
def partiesOn (leader follower : List OwnedLogEntry) : RepairParties :=
  let started (log : List OwnedLogEntry) (identity : ℕ) : SharedState :=
    Storage.createSharedState ⟨log, ∅, (logEnd log).1, (logEnd log).2, ∅, 1, []⟩ identity 2 2
      fun _ => true
  { leader := (started leader 1).recogniseLeader 3 1
    worker := { QuorumWorker.new 1 2 with
      term := 3
      prevLogIndex := (logEnd leader).1
      prevLogTerm := (logEnd leader).2
      sendHeartbeats := true }
    follower := started follower 2 }

theorem ready_partiesOn (leader follower : List OwnedLogEntry) :
    (partiesOn leader follower).Ready :=
  ⟨rfl, rfl, Or.inl (show 0 < 3 by decide), rfl⟩

/-- The logs of the two nodes: the no-op of term 1, which both have, one of the leader of term
3, and two entries of term 2 that were not replicated. -/
def sharedNoop : OwnedLogEntry := ⟨0, 1, 0, 0, 2, 50, []⟩

@[inherit_doc sharedNoop] def thirdNoop : OwnedLogEntry := ⟨1, 3, 0, 1, 2, 70, []⟩

@[inherit_doc sharedNoop] def lostNoop : OwnedLogEntry := ⟨1, 2, 0, 1, 2, 60, []⟩

@[inherit_doc sharedNoop] def lostWrite : OwnedLogEntry := ⟨2, 2, 1, 2, 3, 61, [⟨"k", [1], 2⟩]⟩

theorem wellFormed_thirdNoop : WellFormed [sharedNoop, thirdNoop] :=
  (WellFormed.nil.concat rfl rfl (by decide)).concat rfl rfl (by decide)

theorem wellFormed_lostWrite : WellFormed [sharedNoop, lostNoop, lostWrite] :=
  ((WellFormed.nil.concat rfl rfl (by decide)).concat rfl rfl (by decide)).concat rfl rfl
    (by decide)

/-- A follower that only misses the leader's last entry is repaired. -/
theorem repairs_missing_entry :
    (partiesOn [sharedNoop, thirdNoop] [sharedNoop]).Repaired id fun n => (n, .proxy n) :=
  (RepairParties.repairs_iff (ready_partiesOn _ _) rfl wellFormed_thirdNoop
    (show LogMatching [sharedNoop, thirdNoop] [sharedNoop] by decide) _ _).mpr
      (Or.inr (by decide))

/-- **A log that differs is acknowledged**: the follower holds two entries of term 2 where the
leader has one of term 3.  It is cut to the leader's length, keeps the wrong entry at position 1
under the leader's term, and answers `Ok`. -/
theorem repair_keeps_wrong_entry :
    ¬ ∀ (c : RepairParties) (utf8Lossy : List UInt8 → List UInt8) (env : ℕ → ℕ × Callback),
      c.Ready → c.follower.repairLog = RepairLog.ofLog c.follower.replicationLog →
        WellFormed c.leader.replicationLog → WellFormed c.follower.replicationLog →
          LogMatching c.leader.replicationLog c.follower.replicationLog →
            c.Repaired utf8Lossy env := by
  intro h
  have hrepaired := h (partiesOn [sharedNoop, thirdNoop] [sharedNoop, lostNoop, lostWrite]) id
    (fun n => (n, .proxy n)) (ready_partiesOn _ _) rfl wellFormed_thirdNoop wellFormed_lostWrite
    (show LogMatching [sharedNoop, thirdNoop] [sharedNoop, lostNoop, lostWrite] by decide)
  have hlog := hrepaired.2 1 (fun callback => rfl)
  revert hlog
  decide

end Kraft
