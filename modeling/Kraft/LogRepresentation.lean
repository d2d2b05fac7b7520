/-
# The representation of the log

Positions, indices of entries, references to the entry before, and the cached end of the log
are four views of `replication_log` that every operation updates on its own.  They agree in
every run of the cluster that keeps clear of four cases:

* a new leader that accepts a batch before it has taken office, with a next index that is not
  the length of its log;
* a truncation under a term that is not the term of the entry it keeps;
* an election won for a term below that of the last entry;
* a restart that finds a torn entry at the end of the file.

All entries on their way are proper (`properFlow`); `Represented` is the invariant of a state
machine, `NodeRepresented` that of a node with its disk, and `log_representation` the result.
-/
import Kraft.BallotInvariant
import Kraft.DiskLog
import Kraft.ProperLogs

namespace Kraft

open SharedState StateMachine Storage

variable {sm : StateMachine} {message : LocalRaftMessage}

/-! ## The state machine -/

/-- The log is proper, its end is the cached one, and a leader's next entry will be proper. -/
structure Represented (sm : StateMachine) : Prop where
  log : ProperLog sm.shared.replicationLog
  ends : (sm.shared.lastLogIndex, sm.shared.lastLogTerm) = logEnd sm.shared.replicationLog
  leads : sm.delegate.nodeType = .leader →
    1 ≤ sm.shared.currentTerm ∧ sm.shared.lastLogTerm ≤ sm.shared.currentTerm
  office : sm.delegate = .leader true →
    sm.shared.nextLogIndex = sm.shared.replicationLog.length

namespace Represented

variable {sm sm' : StateMachine}

/-- The log stays as it is. -/
theorem stays (h : Represented sm) {starts : Bool} (hnext : 1 ≤ sm.shared.nextTerm)
    (hstays : Stays starts sm sm') : Represented sm' ∧ HandsProper sm.shared sm'.shared := by
  obtain ⟨hlog, hindex, hterm⟩ := hstays.same
  refine ⟨⟨hlog ▸ h.log, by rw [hlog, hindex, hterm, h.ends], fun hlead => ?_, fun hlead => ?_⟩, ?_⟩
  · obtain ⟨hrole, hcurrent, -⟩ := hstays.leads hlead
    rw [hcurrent, hterm]
    exact h.leads (hrole ▸ hlead)
  · obtain ⟨hrole, -, hindex⟩ := hstays.leads (by rw [hlead]; rfl)
    rw [hindex, hlog]
    exact h.office (hrole ▸ hlead)
  · exact hstays.hands hnext fun _ => h.log.properEntry

/-- An entry of the leader is stored. -/
theorem stores (h : Represented sm) {request : LocalAppendEntries} {entry : LogEntry}
    {owned : OwnedLogEntry} (hrequest : ProperRequest request)
    (hstores : Stores request entry owned sm sm') :
    Represented sm' ∧ HandsProper sm.shared sm'.shared := by
  obtain ⟨owned', hdata, hindex, hterm, hprevIndex, hprevTerm, -, hproper⟩ :=
    hrequest entry hstores.carried
  obtain rfl : owned = owned' := EntryData.message.inj (hstores.data.symm.trans hdata)
  have hprev : (owned.prevLogIndex, owned.prevLogTerm) = logEnd sm.shared.replicationLog := by
    rw [← h.ends, ← hprevIndex, ← hprevTerm, hstores.valid.1, hstores.valid.2]
  have hlog := h.log.store hproper hprev
  have hnot : sm'.delegate.nodeType ≠ .leader := by rw [hstores.role']; decide
  refine ⟨⟨hstores.log ▸ hlog, ?_, fun hlead => absurd hlead hnot,
    fun hlead => absurd (by rw [hlead]; rfl) hnot⟩, _, .of_eq hstores.queues, by simp⟩
  rw [hstores.lastLogIndex, hstores.lastLogTerm, hstores.log, logEnd, LeaderLogs.endOf_concat,
    hindex, hterm, hlog.index _ _ List.getElem?_concat_length]

/-- The entry a leader builds at the end of its log. -/
theorem properLog_append (h : Represented sm) (hlead : sm.delegate.nodeType = .leader)
    (id timestamp : ℕ) (commands : List PutRequest) :
    ProperLog (sm.shared.replicationLog ++ [Leader.buildLogEntry sm.shared
      sm.shared.replicationLog.length id timestamp commands]) := by
  obtain ⟨hpos, hle⟩ := h.leads hlead
  refine h.log.concat rfl h.ends ?_ hpos
  rw [← h.ends]
  exact hle

/-- A leader appends an entry at the end of its log. -/
theorem appends (h : Represented sm) {idx : ℕ} {first : List LocalQuorumWorkerTaskType}
    (happends : Appends idx first sm sm') (hidx : idx = sm.shared.replicationLog.length)
    (hfirst : ∀ task ∈ first, ProperTask task) :
    Represented sm' ∧ HandsProper sm.shared sm'.shared := by
  obtain ⟨id, timestamp, commands, -, hlog, hqueued⟩ := happends.entry
  subst hidx
  have hproper := h.properLog_append happends.role id timestamp commands
  refine ⟨⟨hlog ▸ hproper, ?_, fun _ => ?_, fun _ => ?_⟩, _, hqueued, fun k task htask => ?_⟩
  · rw [happends.lastLogIndex, happends.lastLogTerm, hlog, logEnd, LeaderLogs.endOf_concat]
    rfl
  · rw [happends.currentTerm, happends.lastLogTerm]
    exact ⟨(h.leads happends.role).1, le_rfl⟩
  · rw [happends.nextLogIndex, hlog, List.length_append, List.length_singleton]
  · rcases List.mem_append.mp htask with htask | htask
    · exact hfirst task htask
    · obtain rfl := List.mem_singleton.mp htask
      exact ⟨rfl, hproper.properEntry (by simp)⟩

/-- An election is won. -/
theorem wins (h : Represented sm) {term : ℕ} (hpos : 1 ≤ term)
    (hterm : sm.shared.lastLogTerm ≤ term) (hwins : Wins term sm sm') :
    Represented sm' ∧ HandsProper sm.shared sm'.shared := by
  obtain ⟨hlog, hindex, hlast⟩ := hwins.same
  refine ⟨⟨hlog ▸ h.log, by rw [hlog, hindex, hlast, h.ends], fun _ => ?_, fun hlead => ?_⟩, _,
    .of_eq hwins.queues, by simp⟩
  · rw [hwins.currentTerm, hlast]
    exact ⟨hpos, hterm⟩
  · rw [hwins.role'] at hlead
    cases hlead

/-- The log is cut behind an entry of the given term. -/
theorem cuts (h : Represented sm) {prevTerm prevIndex : ℕ}
    (hkept : (sm.shared.replicationLog[prevIndex]?).map OwnedLogEntry.term = some prevTerm)
    (hcuts : Cuts prevTerm prevIndex sm sm') :
    Represented sm' ∧ HandsProper sm.shared sm'.shared := by
  have hnot : sm'.delegate.nodeType ≠ .leader := by rw [hcuts.role']; decide
  obtain ⟨entry, hentry, rfl⟩ := Option.map_eq_some_iff.mp hkept
  refine ⟨⟨hcuts.log ▸ h.log.take _, ?_, fun hlead => absurd hlead hnot,
    fun hlead => absurd (by rw [hlead]; rfl) hnot⟩, _, .of_eq hcuts.queues, by simp⟩
  rw [hcuts.lastLogIndex, hcuts.lastLogTerm, hcuts.log, logEnd_take hentry]

/-- The persistence worker does not touch the log. -/
theorem serves (h : Represented sm) (hserves : Node.Serves sm sm') :
    Represented sm' ∧ HandsProper sm.shared sm'.shared := by
  obtain ⟨work, isOpen, responses, rfl⟩ := hserves
  exact ⟨⟨h.log, h.ends, h.leads, h.office⟩, _, .of_eq rfl, by simp⟩

end Represented

/-! ## Terms of elections -/

/-- All terms a node votes in are real. -/
structure RealTerms (n : Node) : Prop where
  nextTerm : 1 ≤ n.shared.nextTerm
  queued : ∀ v ∈ votesIn n.shared.persistenceWork, 1 ≤ v.1
  reported : ∀ id term c, .votePersisted id term c ∈
    n.storage.pendingLogResponses ++ n.shared.persistenceResponse → 1 ≤ term

/-- The votes among the new tasks of a step are those of its request or its election. -/
theorem VoteFrame.new_votes {first : IdUse} {s s' : SharedState} (h : VoteFrame first s s') :
    ∃ new, s'.persistenceWork = s.persistenceWork ++ new ∧ ∀ v ∈ votesIn new,
      (∃ callback, first = .vote callback v.1 v.2) ∨ first = .election v.1 := by
  obtain ⟨new, hwork, hfits⟩ := h.tasks
  refine ⟨new, hwork, fun v hv => ?_⟩
  obtain ⟨task, htask, hvote⟩ := List.mem_filterMap.mp hv
  cases task with
  | appendVote id term candidateId =>
    obtain rfl : (term, candidateId) = v := Option.some.inj hvote
    have hfit := hfits _ htask fun _ => .other
    dsimp only [TaskFits, takeIds] at hfit
    split_ifs at hfit
    · simp [IdUse.FitsVote] at hfit
    · simp [IdUse.FitsVote] at hfit
    · exact hfit.imp_right And.left
    · simp [IdUse.FitsVote] at hfit
  | _ => cases hvote

namespace RealTerms

variable {n : Node}

/-- The state machine votes only in real terms. -/
theorem machine (h : RealTerms n) {sm : StateMachine} {first : IdUse}
    (hnext : 1 ≤ sm.shared.nextTerm) (hfewer : FewerResponses n.shared sm.shared)
    (hwork : ∃ new, sm.shared.persistenceWork = n.shared.persistenceWork ++ new ∧
      ∀ v ∈ votesIn new, (∃ callback, first = .vote callback v.1 v.2) ∨ first = .election v.1)
    (hvote : ∀ callback term c, first = .vote callback term c → 1 ≤ term)
    (helection : ∀ term, first = .election term → 1 ≤ term) :
    RealTerms { n with machine := sm } := by
  obtain ⟨new, hwork, hnew⟩ := hwork
  refine ⟨hnext, fun v hv => ?_, fun id term c hmem => ?_⟩
  · have hsplit : v ∈ votesIn (n.shared.persistenceWork ++ new) := by
      rw [← hwork]
      exact hv
    rw [votesIn_append] at hsplit
    rcases List.mem_append.mp hsplit with hold | hnewVote
    · exact h.queued v hold
    · rcases hnew v hnewVote with ⟨callback, heq⟩ | heq
      · exact hvote callback v.1 v.2 heq
      · exact helection v.1 heq
  · refine h.reported id term c ?_
    rcases List.mem_append.mp hmem with hmem | hmem
    · exact List.mem_append_left _ hmem
    · exact List.mem_append_right _ (hfewer.persistence _ hmem)

/-- The state machine casts no vote. -/
theorem keeps (h : RealTerms n) (hnext : 1 ≤ sm.shared.nextTerm)
    (hfewer : FewerResponses n.shared sm.shared) (hkeeps : KeepsVotes n.shared sm.shared) :
    RealTerms { n with machine := sm } := by
  obtain ⟨-, new, hwork, hnone⟩ := hkeeps
  exact @machine n h sm .other hnext hfewer ⟨new, hwork, by simp [hnone]⟩
    (fun _ _ _ heq => nomatch heq) (fun _ heq => nomatch heq)

/-- A request. -/
theorem accept (h : RealTerms n) (clock : Clock) (hrequest : properFlow.request message.payload) :
    RealTerms { n with machine := n.machine.accept clock message } := by
  obtain ⟨first, hframe, hvote, helection⟩ := voteFrame_accept clock message n.machine
  refine h.machine (one_le_nextTerm_accept h.nextTerm) (.accept clock message n.machine)
    hframe.new_votes (fun callback term c heq => ?_) (fun term heq => absurd heq (helection term))
  obtain ⟨-, request, hpayload, rfl, -⟩ := hvote callback term c heq
  rw [hpayload] at hrequest
  obtain ⟨requestId, hterm⟩ := hrequest
  exact hterm

/-- A part of `time_step`. -/
theorem runPart (h : RealTerms n) (clock : Clock) (part : TimeStepPart) :
    RealTerms { n with machine := n.machine.runPart clock part } := by
  have hnext : 1 ≤ (n.machine.runPart clock part).shared.nextTerm :=
    one_le_nextTerm_runPart h.nextTerm
  have hfewer := FewerResponses.runPart clock part n.machine
  by_cases hpart : part = .finish
  · subst hpart
    obtain ⟨first, hframe, hvote, -, helection⟩ := voteFrame_finish clock n.machine
    refine h.machine hnext hfewer hframe.new_votes
      (fun callback term c heq => absurd heq (hvote callback term c)) (fun term heq => ?_)
    rw [(helection term heq).2.1]
    exact h.nextTerm
  · exact h.keeps hnext hfewer (keepsVotes_runPart hpart clock n.machine)

/-- A task of the persistence worker. -/
theorem processTask [Capnp] (h : RealTerms n) : RealTerms n.processTask := by
  rcases n.processTask_cases with heq | ⟨task, rest, hwork, hcases⟩
  · rwa [heq]
  · have hvotes : ∀ v ∈ task.vote.toList ++ votesIn rest, 1 ≤ v.1 := by
      rw [← votesIn_cons, ← hwork]
      exact h.queued
    have hrest : ∀ v ∈ votesIn rest, 1 ≤ v.1 := fun v hv => hvotes v (List.mem_append_right _ hv)
    rcases hcases with ⟨st, responses, htask, heq⟩ | ⟨-, heq⟩
    · rw [heq]
      refine ⟨h.nextTerm, hrest, fun id term c hmem => ?_⟩
      rcases mem_responses_processTask htask _ _ hmem with hold | hnew
      · exact h.reported id term c hold
      · cases task with
        | appendVote id' term' c' =>
          obtain ⟨-, rfl, -⟩ := PersistenceResponseType.votePersisted.inj (Option.some.inj hnew)
          exact hvotes (term', c') (by simp [PersistenceTaskType.vote])
        | _ => cases hnew
    · rw [heq]
      exact ⟨h.nextTerm, hrest, h.reported⟩

theorem flush (h : RealTerms n) : RealTerms n.flush := by
  unfold Node.flush
  split_ifs
  · exact ⟨h.nextTerm, h.queued, fun id term c hmem =>
      h.reported id term c (mem_responses_flush n.storage _ _ hmem)⟩
  · exact h

/-- A node that starts. -/
theorem start [Capnp] (clock : Clock) (logFile : List UInt8) (voteRows : List VoteRow)
    (identity quorumSize workers : ℕ) (accepts : ℕ → Bool) :
    RealTerms (Node.start clock logFile voteRows identity quorumSize workers accepts) :=
  ⟨Nat.le_add_left 1 _, (fun _ hv => nomatch hv), fun _ _ _ hmem => nomatch hmem⟩

/-- **An election is won for a real term.** -/
theorem completed (h : RealTerms n)
    (hresponses : ∀ r ∈ n.shared.quorumResponse, properFlow.response r) {part : TimeStepPart}
    {term : ℕ} (hcompleted : n.machine.completedElection part = some term) : 1 ≤ term := by
  cases part with
  | popPersistence =>
    obtain ⟨id, c, rest, -, -, -, hqueue, -⟩ := popPersistence_of_completed hcompleted
    exact h.reported id term c (List.mem_append_right _ (by rw [hqueue]; exact .head _))
  | popQuorum =>
    obtain ⟨id, granted, rest, -, -, hqueue, -⟩ := popQuorum_of_completed hcompleted
    exact hresponses (.requestVoteResponse id term granted) (by rw [hqueue]; exact .head _)
  | takeOffice => unfold completedElection at hcompleted; split at hcompleted <;> simp_all
  | finish => unfold completedElection at hcompleted; split at hcompleted <;> simp_all

end RealTerms

/-! ## The disk -/

section Disk

variable [Capnp]

/-- The file holds the entries `disk`, and at every point of the tasks that wait the log that
they have made of them has the property. -/
structure DiskKeeps (P : List OwnedLogEntry → Prop) (n : Node) (disk : List OwnedLogEntry) :
    Prop where
  inv : DiskInv n (recordsOf disk)
  holds : P disk
  replays : ∀ k, ∃ log, P log ∧
    replay (recordsOf disk) (n.shared.persistenceWork.take k) = recordsOf log

namespace DiskKeeps

variable {P : List OwnedLogEntry → Prop} {n : Node} {disk : List OwnedLogEntry}

/-- What the kept logs have in common can be weakened. -/
theorem mono {Q : List OwnedLogEntry → Prop} (h : DiskKeeps P n disk) (hle : ∀ log, P log → Q log) :
    DiskKeeps Q n disk :=
  ⟨h.inv, hle disk h.holds, fun k => (h.replays k).imp fun log hlog => ⟨hle log hlog.1, hlog.2⟩⟩

/-- The queues of the quorum workers do not matter. -/
theorem exchanges (h : DiskKeeps P n disk) {n' : Node} (hexchanges : Exchanges n n') :
    DiskKeeps P n' disk := by
  obtain ⟨responses, answers, tasks, rfl, -⟩ := hexchanges
  exact ⟨⟨h.inv.file, h.inv.isOpen, h.inv.within, h.inv.replayed⟩, h.holds, h.replays⟩

/-- The state machine makes a step from one log with the property to another. -/
theorem machine (h : DiskKeeps P n disk) {sm : StateMachine}
    (hthrough : WritesThrough n.shared sm.shared) (hbefore : P n.shared.replicationLog)
    (hafter : P sm.shared.replicationLog) : DiskKeeps P { n with machine := sm } disk := by
  refine ⟨h.inv.mirrors rfl hthrough.mirrors, h.holds, fun k => ?_⟩
  show ∃ log, P log ∧ replay (recordsOf disk) (sm.shared.persistenceWork.take k) = _
  rcases Nat.lt_or_ge n.shared.persistenceWork.length k with hk | hk
  · -- all old tasks, and some of the new ones
    have hnew : ∀ new, sm.shared.persistenceWork = n.shared.persistenceWork ++ new →
        replay (recordsOf disk) (sm.shared.persistenceWork.take k) =
          replay (recordsOf n.shared.replicationLog)
            (new.take (k - n.shared.persistenceWork.length)) := by
      intro new hwork
      rw [hwork, List.take_append, List.take_of_length_le hk.le, replay_append, h.inv.replayed]
    obtain ⟨-, ⟨-, votes, hwork, hvotes⟩ | ⟨task, hwork, -, hreplay⟩⟩ := hthrough
    · refine ⟨_, hbefore, ?_⟩
      rw [hnew votes hwork]
      exact replay_votes fun task htask => hvotes task (List.mem_of_mem_take htask)
    · refine ⟨_, hafter, ?_⟩
      rw [hnew [task] hwork, List.take_of_length_le (by rw [List.length_singleton]; omega)]
      exact hreplay
  · obtain ⟨log, hlog, hreplay⟩ := h.replays k
    obtain ⟨-, new, hwork, -⟩ := hthrough.mirrors
    exact ⟨log, hlog, by rw [hwork, List.take_append_of_le_length hk, hreplay]⟩

theorem processTask (h : DiskKeeps P n disk) : ∃ disk', DiskKeeps P n.processTask disk' := by
  obtain ⟨log, hlog, hreplay⟩ := h.replays 1
  obtain ⟨hinv, hwork⟩ := h.inv.processTask
  rw [hreplay] at hinv
  refine ⟨log, hinv, hlog, fun k => ?_⟩
  obtain ⟨log', hlog', hreplay'⟩ := h.replays (1 + k)
  refine ⟨log', hlog', ?_⟩
  rw [List.take_add, replay_append, hreplay] at hreplay'
  rw [hwork, hreplay']

theorem flush (h : DiskKeeps P n disk) : DiskKeeps P n.flush disk := by
  have hwork : n.flush.shared.persistenceWork = n.shared.persistenceWork := by
    unfold Node.flush
    split_ifs <;> rfl
  exact ⟨h.inv.flush, h.holds, hwork ▸ h.replays⟩

/-- A node that starts on a file of entries. -/
theorem start [LawfulCapnp] {entries : List OwnedLogEntry} (hentries : P entries)
    (clock : Clock) (voteRows : List VoteRow) (identity quorumSize workers : ℕ)
    (accepts : ℕ → Bool) :
    DiskKeeps P (Node.start clock (encodeAll entries) voteRows identity quorumSize workers accepts)
      entries := by
  refine ⟨diskInv_start .., hentries, fun k => ⟨entries, hentries, ?_⟩⟩
  show replay _ (([] : List PersistenceTaskType).take k) = _
  rw [List.take_nil, replay_nil]

/-- What a restart finds in the file. -/
theorem recovered [LawfulCapnp] (h : DiskKeeps P n disk) {written : ℕ}
    (hread : ReadToEnd (n.storage.logFile ++ n.storage.logBuffer.take written)) :
    ∃ k, n.storage.logFile ++ n.storage.logBuffer.take written = encodeAll (disk.take k) := by
  have hprefix : n.storage.logFile ++ n.storage.logBuffer.take written <+: encodeAll disk := by
    have hbytes : n.storage.logFile ++ n.storage.logBuffer = encodeAll disk := h.inv.file.bytes
    rw [← hbytes]
    exact (List.prefix_append_right_inj _).mpr (List.take_prefix ..)
  exact eq_encodeAll_of_readToEnd hprefix hread

end DiskKeeps

/-- At every point of the tasks that wait, the disk holds a proper log. -/
abbrev DiskProper : Node → List OwnedLogEntry → Prop := DiskKeeps ProperLog

/-- The log of a node that starts on a file of entries. -/
theorem Represented.start [LawfulCapnp] {entries : List OwnedLogEntry}
    (hentries : ProperLog entries) (clock : Clock) (voteRows : List VoteRow)
    (identity quorumSize workers : ℕ) (accepts : ℕ → Bool) :
    Represented (Node.start clock (encodeAll entries) voteRows identity quorumSize workers
      accepts).machine := by
  have hlog : (recoverPersistedData (encodeAll entries) voteRows).replicationLog = entries := by
    have happend := (recoverPersistedData_append entries (Or.inl rfl) voteRows).1
    rwa [List.append_nil] at happend
  refine ⟨?_, ?_, (fun hlead => nomatch hlead), (fun hlead => nomatch hlead)⟩
  · show ProperLog (recoverPersistedData (encodeAll entries) voteRows).replicationLog
    rw [hlog]
    exact hentries
  · show (((recoverPersistedData (encodeAll entries) voteRows).replicationLog.getLast?.map
        (·.index)).getD 0, ((recoverPersistedData (encodeAll entries) voteRows).replicationLog.getLast?.map
        (·.term)).getD 0) =
      logEnd (recoverPersistedData (encodeAll entries) voteRows).replicationLog
    rw [hlog]
    rcases hlast : entries.getLast? with _ | last
    · rw [List.getLast?_eq_none_iff.mp hlast]
      rfl
    · have hindex : last.index = entries.length - 1 :=
        hentries.index _ last (by rw [← List.getLast?_eq_getElem?, hlast])
      rw [logEnd_of_getLast? hlast, ← hindex]
      rfl

end Disk

/-! ## The condition on a step -/

/-- A leader that has not taken office appends a batch only where its log ends. -/
def BatchAtEnd (sm : StateMachine) (message : LocalRaftMessage) : Prop :=
  match sm.delegate, message.payload with
  | .leader false, .writeBatch batch =>
    batch.requests = [] ∨ sm.shared.nextLogIndex = sm.shared.replicationLog.length
  | _, _ => True

/-- A truncation that a follower carries out names the term of the entry it keeps. -/
def CutsAtTerm (sm : StateMachine) : Prop :=
  match sm.delegate, sm.shared.quorumResponse with
  | .follower _, .truncateLog _ prevTerm prevIndex :: _ =>
    prevIndex + 1 < sm.shared.replicationLog.length →
      (sm.shared.replicationLog[prevIndex]?).map OwnedLogEntry.term = some prevTerm
  | _, _ => True

/-- An election is not won for a term below that of the last entry. -/
def WinsAbove (sm : StateMachine) (part : TimeStepPart) : Prop :=
  ∀ term ∈ sm.completedElection part, sm.shared.lastLogTerm ≤ term

/-- The condition under which the node keeps the representation of its log. -/
def KeepsRepresentation [Capnp] (n : Node) : NodeEvent → Prop
  | .accept _ message => BatchAtEnd n.machine message
  | .timeStep _ part => WinsAbove n.machine part ∧ (part = .popQuorum → CutsAtTerm n.machine)
  | .restart _ written _ => ReadToEnd (n.storage.logFile ++ n.storage.logBuffer.take written)
  | _ => True

/-- Every node keeps it in a step of the cluster. -/
def World.KeepsRepresentation [Capnp] (w : World) : Label → Prop
  | .act a event =>
    match (w.process a).nodeEvent event with
    | some e => Kraft.KeepsRepresentation (w.process a).node e
    | none => True
  | _ => True

instance (sm : StateMachine) (message : LocalRaftMessage) : Decidable (BatchAtEnd sm message) := by
  delta BatchAtEnd
  rcases sm.delegate with _ | _ | (_ | _) <;> cases message.payload <;> infer_instance

instance (sm : StateMachine) : Decidable (CutsAtTerm sm) := by
  delta CutsAtTerm
  rcases sm.delegate with _ | _ | _ <;> rcases sm.shared.quorumResponse with _ | ⟨_ | _, _⟩ <;>
    infer_instance

instance (sm : StateMachine) (part : TimeStepPart) : Decidable (WinsAbove sm part) :=
  inferInstanceAs (Decidable (∀ term ∈ sm.completedElection part, _))

instance [Capnp] (n : Node) (e : NodeEvent) : Decidable (KeepsRepresentation n e) := by
  delta KeepsRepresentation
  cases e <;> infer_instance

instance [Capnp] (w : World) (label : Label) : Decidable (w.KeepsRepresentation label) := by
  delta World.KeepsRepresentation
  rcases label with ⟨a, event⟩ | _ | _
  · dsimp only
    rcases (w.process a).nodeEvent event with _ | _ <;> infer_instance
  · infer_instance
  · infer_instance

/-- The node that acts keeps it. -/
theorem World.KeepsRepresentation.of_nodeStep [Capnp] {w : World} {label : Label}
    (h : w.KeepsRepresentation label) {a : ℕ} {e : NodeEvent} (he : w.NodeStep label a e) :
    Kraft.KeepsRepresentation (w.process a).node e := by
  obtain ⟨event, rfl, hevent⟩ := he
  unfold World.KeepsRepresentation at h
  dsimp only at h
  rwa [hevent] at h

/-! ## One event of a node -/

/-- An empty batch is refused. -/
theorem requests_ne_nil_of_writes {clock : Clock} {batch : OwnedWriteBatch} {callback : Callback}
    (h : Writes sm (sm.acceptWriteBatch clock batch callback)) : batch.requests ≠ [] := by
  intro hempty
  obtain ⟨id, timestamp, commands, -, hlog, -⟩ := h.entry
  have hsame : (sm.acceptWriteBatch clock batch callback).shared.replicationLog =
      sm.shared.replicationLog := by
    unfold StateMachine.acceptWriteBatch Leader.writeBatch
    split <;> simp [hempty]
  have hlength := congrArg List.length (hsame.symm.trans hlog)
  simp at hlength

/-- A leader that appends a batch does so where its log ends. -/
theorem Represented.nextLogIndex_of_writes (h : Represented sm) (clock : Clock)
    {batch : OwnedWriteBatch} (hpayload : message.payload = .writeBatch batch)
    (hwrites : Writes sm (sm.accept clock message)) (hbatch : BatchAtEnd sm message) :
    sm.shared.nextLogIndex = sm.shared.replicationLog.length := by
  have haccept : sm.accept clock message = sm.acceptWriteBatch clock batch message.callback := by
    unfold StateMachine.accept
    rw [hpayload]
  have hrequests : batch.requests ≠ [] := requests_ne_nil_of_writes (haccept ▸ hwrites)
  obtain ⟨initialized, hrole⟩ := Delegate.nodeType_eq_leader hwrites.role
  cases initialized with
  | true => exact h.office hrole
  | false =>
    unfold BatchAtEnd at hbatch
    rw [hrole, hpayload] at hbatch
    exact hbatch.resolve_left hrequests

/-- **An accepted request.** -/
theorem Represented.accept (h : Represented sm) (clock : Clock)
    (hopen : sm.shared.persistenceOpen = true) (hnext : 1 ≤ sm.shared.nextTerm)
    (hrequest : properFlow.request message.payload) (hbatch : BatchAtEnd sm message) :
    Represented (sm.accept clock message) ∧
      HandsProper sm.shared (sm.accept clock message).shared := by
  have hdata : ∀ request, message.payload = .appendEntries request → ProperRequest request := by
    intro request hpayload
    rw [hpayload] at hrequest
    exact hrequest
  rcases accept_replication clock message sm hopen (fun request hpayload entry hentry =>
      (hdata request hpayload entry hentry).imp fun _ h => h.1) with
    hstays | ⟨request, entry, owned, hpayload, hstores⟩ | ⟨batch, hpayload, hwrites⟩
  · exact h.stays hnext hstays
  · exact h.stores (hdata request hpayload) hstores
  · exact h.appends hwrites.toAppends
      (h.nextLogIndex_of_writes clock hpayload hwrites hbatch) (by simp)

/-- **A part of `time_step`.** -/
theorem Represented.runPart (h : Represented sm) (clock : Clock) {part : TimeStepPart}
    (hnext : 1 ≤ sm.shared.nextTerm)
    (hreal : ∀ term, sm.completedElection part = some term → 1 ≤ term) (hwins : WinsAbove sm part)
    (hcuts : part = .popQuorum → CutsAtTerm sm) :
    Represented (sm.runPart clock part) ∧
      HandsProper sm.shared (sm.runPart clock part).shared := by
  rcases runPart_replication clock sm part with hstays | ⟨-, hoffice⟩ |
    ⟨term, hcompleted, hwon⟩ | ⟨hpart, node, prevTerm, prevIndex, rest, hqueue, hcut⟩
  · exact h.stays hnext hstays
  · exact h.appends hoffice.toAppends rfl fun task htask => by
      obtain rfl := List.mem_singleton.mp htask
      trivial
  · exact h.wins (hreal term hcompleted) (hwins term hcompleted) hwon
  · refine h.cuts ?_ hcut
    have hkept := hcuts hpart
    unfold CutsAtTerm at hkept
    have hrole := hcut.role
    rcases hdelegate : sm.delegate with timer | timeout | initialized
    · rw [hdelegate, hqueue] at hkept
      exact hkept hcut.longer
    · rw [hdelegate] at hrole
      cases hrole
    · rw [hdelegate] at hrole
      cases hrole

/-- The invariant of a node. -/
structure NodeRepresented [Capnp] (n : Node) : Prop where
  machine : Represented n.machine
  terms : RealTerms n
  disk : ∃ disk, DiskProper n disk

namespace NodeRepresented

variable [Capnp] {n : Node}

/-- A node that starts on a file of entries. -/
theorem start [LawfulCapnp] {entries : List OwnedLogEntry} (hentries : ProperLog entries)
    (clock : Clock) (voteRows : List VoteRow) (identity quorumSize workers : ℕ)
    (accepts : ℕ → Bool) :
    NodeRepresented (Node.start clock (encodeAll entries) voteRows identity quorumSize workers
      accepts) :=
  ⟨.start hentries .., .start .., entries, .start hentries ..⟩

/-- The queues are all that changes. -/
theorem exchanges (h : NodeRepresented n) {n' : Node} (hexchanges : Exchanges n n') :
    NodeRepresented n' := by
  obtain ⟨disk, hdisk⟩ := h.disk
  have hdisk' := hdisk.exchanges hexchanges
  obtain ⟨responses, answers, tasks, rfl, -⟩ := hexchanges
  exact ⟨⟨h.machine.log, h.machine.ends, h.machine.leads, h.machine.office⟩,
    ⟨h.terms.nextTerm, h.terms.queued, h.terms.reported⟩, disk, hdisk'⟩

/-- **One event of the node**, which meets the condition. -/
theorem step [LawfulCapnp] (h : NodeRepresented n) {e : NodeEvent} (hok : KeepsRepresentation n e)
    (hrequest : ∀ clock message, e = .accept clock message → properFlow.request message.payload)
    (hresponses : ∀ r ∈ n.shared.quorumResponse, properFlow.response r) :
    NodeRepresented (n.step e) ∧
      (e.isRestart = false → HandsProper n.shared (n.step e).shared) := by
  obtain ⟨disk, hdisk⟩ := h.disk
  have hopen := hdisk.inv.isOpen
  cases e with
  | accept clock message =>
    obtain ⟨hmachine, hhands⟩ := h.machine.accept clock hopen h.terms.nextTerm
      (hrequest clock message rfl) hok
    exact ⟨⟨hmachine, h.terms.accept clock (hrequest clock message rfl), disk, hdisk.machine
      (writesThrough_accept clock message n.machine hopen) h.machine.log hmachine.log⟩,
      fun _ => hhands⟩
  | timeStep clock part =>
    obtain ⟨hmachine, hhands⟩ := h.machine.runPart clock h.terms.nextTerm
      (fun term hcompleted => h.terms.completed hresponses hcompleted) hok.1 hok.2
    exact ⟨⟨hmachine, h.terms.runPart clock part, disk, hdisk.machine
      (writesThrough_runPart clock part n.machine hopen) h.machine.log hmachine.log⟩,
      fun _ => hhands⟩
  | respond response =>
    exact ⟨h.exchanges ⟨_, _, n.shared.quorumWorkerTasks, rfl, .refl _⟩,
      fun _ => ⟨_, .of_eq rfl, by simp⟩⟩
  | processTask =>
    obtain ⟨hmachine, hhands⟩ := h.machine.serves (Node.serves_processTask n)
    exact ⟨⟨hmachine, h.terms.processTask, hdisk.processTask⟩, fun _ => hhands⟩
  | flush =>
    obtain ⟨hmachine, hhands⟩ := h.machine.serves (Node.serves_flush n)
    exact ⟨⟨hmachine, h.terms.flush, disk, hdisk.flush⟩, fun _ => hhands⟩
  | restart clock written accepts =>
    obtain ⟨k, hfile⟩ := hdisk.recovered hok
    refine ⟨?_, fun hrestart => nomatch hrestart⟩
    show NodeRepresented (Node.start clock (n.storage.logFile ++ n.storage.logBuffer.take written)
      n.storage.voteRows n.shared.identity n.shared.quorumSize n.shared.quorumWorkerTasks.length
      accepts)
    rw [hfile]
    exact .start (hdisk.holds.take k) ..

end NodeRepresented

/-! ## The cluster -/

/-- Positions, indices, references and terms of the entries agree, and the cached end is that of
the last entry. -/
def LogRepresented (s : SharedState) : Prop :=
  WellFormed s.replicationLog ∧ (s.lastLogIndex, s.lastLogTerm) = logEnd s.replicationLog

/-- The invariant of the cluster. -/
structure ClusterRepresented [Capnp] [ParsesSocketAddr] (C : Cluster) (w : World) : Prop where
  connected : Connected C w
  flow : World.Carries C properFlow w
  nodes : ∀ a ∈ C.members, NodeRepresented (w.process a).node

namespace ClusterRepresented

variable [Capnp] [LawfulCapnp] [ParsesSocketAddr] {C : Cluster} {w : World}

theorem start (clock : ℕ → Clock) (accepts : ℕ → ℕ → Bool) :
    ClusterRepresented C (World.start C clock accepts) :=
  ⟨.start clock accepts, .start clock accepts, fun _ _ => .start .nil ..⟩

/-- The event of a node that acts meets all that its step lemma asks for. -/
theorem node (h : ClusterRepresented C w) {label : Label} (hok : w.KeepsRepresentation label)
    {a : ℕ} (ha : a ∈ C.members) {e : NodeEvent} (he : w.NodeStep label a e) :
    NodeRepresented ((w.process a).node.step e) ∧ (e.isRestart = false →
      HandsProper (w.process a).node.shared ((w.process a).node.step e).shared) := by
  exact (h.nodes a ha).step (hok.of_nodeStep he) (h.flow.request_of_nodeStep ha he)
    (h.flow.processes a ha).responses

/-- **A step of the cluster.** -/
theorem step (h : ClusterRepresented C w) {label : Label} (hok : w.KeepsRepresentation label) :
    ClusterRepresented C (w.step C label) := by
  refine ⟨h.connected.step label, h.flow.step h.connected label ?_, fun a ha => ?_⟩
  · intro a ha e he hrestart k worker _ hchannel
    exact ((h.node hok ha he).2 hrestart).queue hchannel
  · rcases w.node_step (C := C) label a with ⟨e, he, -, hnode⟩ | hexchanges
    · rw [hnode]
      exact (h.node hok ha he).1
    · exact (h.nodes a ha).exchanges hexchanges

end ClusterRepresented

/-- **The representation of the log**, in every run of the cluster that meets the condition. -/
theorem log_representation [Capnp] [LawfulCapnp] [ParsesSocketAddr] (C : Cluster)
    (clock : ℕ → Clock) (accepts : ℕ → ℕ → Bool) (labels : List Label)
    (hrun : Runs.AllSteps (World.step C) World.KeepsRepresentation (World.start C clock accepts)
      labels) {a : ℕ} (ha : a ∈ C.members) :
    LogRepresented ((Runs.run (World.step C) (World.start C clock accepts)
      labels).process a).node.shared := by
  have hinv := hrun.invariant (ClusterRepresented C) (fun w label h hok => h.step hok)
    (ClusterRepresented.start clock accepts)
  have hmachine := (hinv.nodes a ha).machine
  exact ⟨hmachine.log.toWellFormed, hmachine.ends⟩

/-- Node 1 of three is elected and takes office. -/
def officeOfNodeOne : List Label := electNodeOne ++ [.part 1 1006 .takeOffice]

/-- Node 1 is elected again, at the given time, with the vote of node 2, and takes office. -/
def electAgain (now : ℕ) : List Label :=
  [.part 1 now .finish, .part 1 now .finish, .act 1 .processTask, .part 1 now .popPersistence,
    .act 1 (.workerTask 0 now), .deliver 0, .act 2 (.accept ⟨now, 0⟩), .act 2 .processTask,
    .part 2 now .popPersistence, .act 2 (.answer 0 0), .deliver 0, .part 1 now .popQuorum,
    .part 1 now .takeOffice]

/-- Node 3, which has an empty log, refuses the last entry of node 1, and node 1 sends it all. -/
def repairNodeThree : List Label :=
  [.act 1 (.workerTask 1 5001), .act 1 (.workerTask 1 5001), .act 1 (.workerTask 1 5001),
    .deliver 1, .act 3 (.accept ⟨5002, 0⟩), .act 3 (.answer 0 0), .deliver 1,
    .part 1 5003 .popQuorum, .part 1 5004 .finish, .act 1 (.workerTask 1 5005)]

/-- Node 1 leads term 1, restarts with its entry on disk, and leads term 2.  Then node 3 gets the
entries of both terms. -/
def twoLives : List Label :=
  officeOfNodeOne ++
    [.act 1 .processTask, .act 1 .flush, .act 1 (.restart ⟨2000, 0⟩ 0 fun _ => true)] ++
    electAgain 3000 ++ repairNodeThree ++
    [.deliver 1, .act 3 (.accept ⟨5006, 0⟩), .deliver 1, .act 3 (.accept ⟨5007, 0⟩)]

/-- The log of node 3 then holds them in order. -/
theorem log_representation_twoLives : letI := digitCapnp
    letI := sampleAddresses
    let s := ((Runs.run (World.step clusterOfThree)
      (World.start clusterOfThree (fun _ => ⟨0, 0⟩) fun _ _ => true) twoLives).process 3).node.shared
    s.replicationLog.map (·.term) = [1, 2] ∧ LogRepresented s :=
  ⟨by decide +kernel, @log_representation digitCapnp lawful_digitCapnp sampleAddresses
    clusterOfThree (fun _ => ⟨0, 0⟩) (fun _ _ => true) twoLives (by decide +kernel) 3 (by decide)⟩

/-- The first message reaches member `b`, which stores the entry in it and acknowledges it to the
leader, node 1. -/
def storeAt (b now : ℕ) : List Label :=
  [.deliver 0, .act b (.accept ⟨now, 0⟩), .act b .processTask, .act b .flush,
    .part b now .popPersistence, .act b (.answer 0 0), .deliver 0, .part 1 now .popQuorum]

/-- The leader's last entry reaches its own disk. -/
def storeAtLeader (now : ℕ) : List Label :=
  [.act 1 .processTask, .act 1 .flush, .part 1 now .popPersistence]

/-- Node 1 of three takes office.  Node 2, a candidate, follows it after a heartbeat, and both
others store the no-op entry. -/
def noopEverywhere : List Label :=
  officeOfNodeOne ++ storeAtLeader 1007 ++
    [.act 1 (.workerTask 0 1007), .act 1 (.heartbeat 0 1007), .deliver 0, .act 2 (.accept ⟨1008, 0⟩),
      .act 2 (.answer 0 0), .deliver 0, .act 1 (.workerTask 0 1009)] ++ storeAt 2 1010 ++
    [.act 1 (.workerTask 1 1011), .lose 0, .act 1 (.workerTask 1 1011), .act 1 (.workerTask 1 1011)] ++
    storeAt 3 1012

/-- **An entry at the wrong index.**  Node 1 is elected on an empty log and accepts a batch
before it takes office: its next index is 1, and the entry stands at position 0. -/
theorem batch_before_office_misplaced :
    ¬ ∀ (_ : Capnp) (_ : LawfulCapnp) (_ : ParsesSocketAddr) (C : Cluster) (clock : ℕ → Clock)
      (accepts : ℕ → ℕ → Bool) (labels : List Label) (a : ℕ), a ∈ C.members →
        LogRepresented ((Runs.run (World.step C) (World.start C clock accepts)
          labels).process a).node.shared := by
  intro h
  have hindex := (h (unaryCapnp 0) (lawful_unaryCapnp 0) sampleAddresses clusterOfThree
    (fun _ => ⟨0, 0⟩) (fun _ _ => true) (electNodeOne ++
      [.act 1 (.write ⟨"b", [⟨"k", [1], 1⟩]⟩ 0), .act 1 (.accept ⟨1006, 0⟩)]) 1 (by decide)).1.index
    0 ⟨1, 1, 0, 0, 1, 1006, [⟨"k", [1], 1⟩]⟩ (by decide)
  cases hindex

end Kraft
