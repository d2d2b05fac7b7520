/-
# The commit index of a follower

A leader in office, its worker and a follower, with the messages delivered in any order, lost
and delivered twice.  A heartbeat carries a commit index inside the log it refers to, but an
entry of a backfill carries the worker's commit index of that moment, and the follower takes it
over unbounded.

* `CommitFits` : what the commit index of a request with an entry has to satisfy.
* `follower_commit_bound_iff` : the follower's commit index stays at a position of its log all
  along a run exactly if every delivered request has a commit index that fits.
-/
import Kraft.ProperLogs
import Kraft.SteadyState

namespace Kraft

variable {s s' : SharedState} {entry : OwnedLogEntry}

/-! ## The system -/

/-- What happens when messages arrive in any order. -/
inductive AnyOrderLabel
  | act (e : ReplicationEvent)
  /-- The `i`-th message that was sent reaches the follower, for the first time or again. -/
  | deliver (i : ℕ) (callback : Callback)

/-- The commit index of a request fits the log it leaves: an entry that is stored is the last one
then, and a request with id 0 is taken for a heartbeat. -/
def Follower.CommitFits (request : LocalAppendEntries) (s : SharedState) : Prop :=
  ∀ entry ∈ request.entry, ValidAppendEntries request s →
    (s.currentTerm < request.term ∨ s.leaderId = request.leaderId) →
      request.commitIndex ≤
        if s.currentTerm < request.term ∨ request.requestId ≠ 0 then entry.index
        else s.lastLogIndex

namespace Replication

/-- One step; truncations are not delivered. -/
def stepAnyOrder (utf8Lossy : List UInt8 → List UInt8) (c : Replication) :
    AnyOrderLabel → Replication
  | .act e => c.act utf8Lossy e
  | .deliver i callback =>
    match c.wire[i]? with
    | some (.appendEntriesRequest request) =>
      { c with follower := Follower.appendEntries request callback c.follower }
    | _ => c

/-- The leader has committed only what is in its log. -/
def Correct (c : Replication) : Prop := c.leader.commitIndex ≤ c.leader.lastLogIndex

/-- A delivered request has a commit index that fits. -/
def CommitFits (c : Replication) : AnyOrderLabel → Prop
  | .deliver i _ =>
    match c.wire[i]? with
    | some (.appendEntriesRequest request) => Follower.CommitFits request c.follower
    | _ => True
  | _ => True

end Replication

instance (request : LocalAppendEntries) (s : SharedState) :
    Decidable (Follower.CommitFits request s) :=
  inferInstanceAs (Decidable (∀ entry ∈ request.entry, _))

instance (c : Replication) (label : AnyOrderLabel) : Decidable (c.CommitFits label) := by
  unfold Replication.CommitFits
  split
  · split <;> infer_instance
  · infer_instance

instance (c : Replication) : Decidable c.Correct := inferInstanceAs (Decidable (_ ≤ _))

/-- The commit index is a position of the log, or 0. -/
def CommitInLog (s : SharedState) : Prop := s.commitIndex ≤ s.replicationLog.length - 1

instance (s : SharedState) : Decidable (CommitInLog s) := inferInstanceAs (Decidable (_ ≤ _))

/-! ## The leader -/

/-- The log of a node is proper and its end is the cached one. -/
structure ProperState (s : SharedState) : Prop where
  log : ProperLog s.replicationLog
  ends : s.repairLog = RepairLog.ofLog s.replicationLog

theorem ProperState.lastLogIndex (h : ProperState s) :
    s.lastLogIndex = s.replicationLog.length - 1 := by
  rw [← @LeaderLogs.endOf_fst _ OwnedLogEntry.term]
  exact congrArg RepairLog.lastLogIndex h.ends

theorem ProperState.of_eq (h : ProperState s) (heq : s'.repairLog = s.repairLog) :
    ProperState s' := by
  have hlog : s'.replicationLog = s.replicationLog := congrArg RepairLog.log heq
  exact ⟨hlog ▸ h.log, by rw [heq, h.ends, hlog]⟩

/-- A proper log with one more entry. -/
theorem ProperState.push (hlog : ProperLog (s.replicationLog ++ [entry]))
    (heq : s'.repairLog = s.repairLog.push entry) :
    ProperState s' ∧ entry.index = s.replicationLog.length := by
  have hindex : entry.index = s.replicationLog.length :=
    hlog.index _ _ List.getElem?_concat_length
  have hlog' : s'.replicationLog = s.replicationLog ++ [entry] := congrArg RepairLog.log heq
  refine ⟨⟨hlog' ▸ hlog, ?_⟩, hindex⟩
  rw [heq, hlog', RepairLog.ofLog, logEnd, LeaderLogs.endOf_concat, RepairLog.push, hindex]
  rfl

/-- An entry that continues the cached end of log. -/
theorem ProperState.store (h : ProperState s) (hentry : ProperEntry entry)
    (hindex : entry.prevLogIndex = s.lastLogIndex) (hterm : entry.prevLogTerm = s.lastLogTerm)
    (heq : s'.repairLog = s.repairLog.push entry) :
    ProperState s' ∧ entry.index = s.replicationLog.length := by
  refine ProperState.push (h.log.store hentry ?_) heq
  rw [hindex, hterm]
  exact Prod.ext (congrArg RepairLog.lastLogIndex h.ends) (congrArg RepairLog.lastLogTerm h.ends)

/-- A leader of a real term with a proper log, in which its no-op stands. -/
structure ProperLeader (term : ℕ) (s : SharedState) : Prop extends ProperState s where
  nonempty : s.replicationLog ≠ []
  positive : 1 ≤ term
  last : s.lastLogTerm ≤ term

/-- The leader appends an entry of its term at the end of its log. -/
theorem ProperLeader.extend {k idx term : ℕ} {first : List LocalQuorumWorkerTaskType} {id : ℕ}
    (h : ProperState s) (hpositive : 1 ≤ term) (hlast : s.lastLogTerm ≤ term)
    (hterm : s.currentTerm = term) (hidx : idx = s.replicationLog.length)
    (heffect : Leader.Extends k idx first id entry s s') : ProperLeader term s' := by
  have hentryTerm : entry.term = term := heffect.term.trans hterm
  have hend : logEnd s.replicationLog = (s.lastLogIndex, s.lastLogTerm) :=
    (Prod.ext (congrArg RepairLog.lastLogIndex h.ends)
      (congrArg RepairLog.lastLogTerm h.ends)).symm
  have hproper : ProperLog (s.replicationLog ++ [entry]) := by
    refine h.log.concat (heffect.index.trans hidx) ?_ ?_ ?_
    · rw [hend, heffect.prev.1, heffect.prev.2]
    · rw [hend, hentryTerm]
      exact hlast
    · rw [hentryTerm]
      exact hpositive
  have hlog : s'.replicationLog = s.replicationLog ++ [entry] :=
    congrArg RepairLog.log heffect.log
  have hlastTerm : s'.lastLogTerm = entry.term := congrArg RepairLog.lastLogTerm heffect.log
  exact ⟨(ProperState.push hproper heffect.log).1, by simp [hlog], hpositive,
    (hlastTerm.trans hentryTerm).le⟩

theorem ProperLeader.initializeLeadership (clock : Clock) (h : ProperState s)
    (hpositive : 1 ≤ s.currentTerm) (hlast : s.lastLogTerm ≤ s.currentTerm) :
    ProperLeader s.currentTerm (Leader.initializeLeadership clock s) := by
  obtain ⟨entry, heffect⟩ := @Leader.extends_initializeLeadership 0 clock s
  exact .extend h hpositive hlast rfl rfl heffect

/-- The leader's events keep its log proper. -/
theorem ProperLeader.react {term : ℕ} (h : ProperLeader term s) (hoffice : InOffice term s)
    (e : LeaderEvent) : ProperLeader term (Leader.react s e) := by
  have hkept : (Leader.react s e).repairLog = s.repairLog → ProperLeader term (Leader.react s e) := by
    intro heq
    have hlog : (Leader.react s e).replicationLog = s.replicationLog := congrArg RepairLog.log heq
    have hlast : (Leader.react s e).lastLogTerm = s.lastLogTerm :=
      congrArg RepairLog.lastLogTerm heq
    exact ⟨h.toProperState.of_eq heq, hlog ▸ h.nonempty, h.positive, hlast ▸ h.last⟩
  rcases @Leader.effect_react 0 s hoffice.isOpen e with
    ⟨entry, heffect⟩ | ⟨hkeeps, -⟩ | ⟨hkeeps, -, -⟩ | ⟨task, hkeeps, -, -, -⟩
  · refine .extend h.toProperState h.positive h.last hoffice.term ?_ heffect
    have hlength := List.length_pos_iff.mpr h.nonempty
    rw [hoffice.next, h.lastLogIndex]
    omega
  · exact hkept hkeeps.log
  · exact hkept hkeeps.log
  · exact hkept hkeeps.log

/-! ## Messages -/

/-- The entry of a message is proper, and a request without an entry is a heartbeat with a commit
index inside the log it refers to. -/
def SoundMessage (message : QuorumMessage) : Prop :=
  ProperMessage message ∧ ∀ request, message = .appendEntriesRequest request →
    request.entry = none → request.requestId = 0 ∧ request.commitIndex ≤ request.prevIndex

/-- What the worker sends for a task has an entry. -/
theorem entry_ne_none_of_processTask (utf8Lossy : List UInt8 → List UInt8) (now : ℕ)
    (task : LocalQuorumWorkerTaskType) (w : QuorumWorker) {request : LocalAppendEntries}
    (h : .appendEntriesRequest request ∈ (w.processTask utf8Lossy now task).2.messages) :
    request.entry ≠ none := by
  cases (w.processTask_sends utf8Lossy now task).2 _ h <;> exact Option.some_ne_none _

theorem soundMessage_processTask (utf8Lossy : List UInt8 → List UInt8) (now : ℕ)
    {task : LocalQuorumWorkerTaskType} (htask : ProperTask task) (w : QuorumWorker) :
    ∀ m ∈ (w.processTask utf8Lossy now task).2.messages, SoundMessage m := by
  refine fun m hm => ⟨messageOf_processTask utf8Lossy now htask w m hm, ?_⟩
  rintro request rfl hnone
  exact absurd hnone (entry_ne_none_of_processTask utf8Lossy now task w hm)

theorem soundMessage_heartbeat {term commitIndex : ℕ} {f : RepairLog} {w : QuorumWorker}
    (h : Tracks term commitIndex f w) : SoundMessage w.heartbeatMessage := by
  refine ⟨?_, ?_⟩
  · rintro entry ⟨⟩
  rintro request heq -
  rw [← QuorumMessage.appendEntriesRequest.inj heq]
  exact ⟨rfl, h.inLog.trans h.prevLogIndex.ge⟩

/-! ## The follower -/

/-- A follower with a proper log that can store entries. -/
structure ProperFollower (s : SharedState) : Prop extends ProperState s where
  isOpen : s.persistenceOpen = true

theorem ProperFollower.of_eq (h : ProperFollower s) (hlog : s'.repairLog = s.repairLog)
    (hopen : s'.persistenceOpen = s.persistenceOpen) : ProperFollower s' :=
  ⟨h.toProperState.of_eq hlog, hopen.trans h.isOpen⟩

theorem ProperFollower.commitInLog_iff (h : ProperFollower s) :
    CommitInLog s ↔ s.commitIndex ≤ s.lastLogIndex := by
  rw [CommitInLog, h.lastLogIndex]

namespace Follower

variable {request : LocalAppendEntries} {s : SharedState}

/-- A request that the follower does not take changes nothing but the answers. -/
theorem appendEntries_not_taken (h : ¬ (ValidAppendEntries request s ∧
      (s.currentTerm < request.term ∨ s.leaderId = request.leaderId))) (callback : Callback) :
    (appendEntries request callback s).repairLog = s.repairLog ∧
      (appendEntries request callback s).commitIndex = s.commitIndex ∧
      (appendEntries request callback s).persistenceOpen = s.persistenceOpen := by
  have hreceives := receives_appendEntries request callback s
  generalize appendEntries request callback s = s' at hreceives ⊢
  have hnot : ValidAppendEntries request s → ¬Heard .follower request s :=
    fun hvalid hheard => h ⟨hvalid, hheard.imp_right Eq.symm⟩
  cases hreceives with
  | unrecognised => exact ⟨rfl, rfl, rfl⟩
  | mismatched hheeds =>
    obtain ⟨⟨⟨⟨-, -, hopen, -⟩, hindex, hlast, -, hlog⟩, -⟩, ⟨hcommit, -⟩, -⟩ := hheeds.unchanged
    exact ⟨by simp [SharedState.repairLog, hlog, hindex, hlast], hcommit, hopen⟩
  | acknowledged hheeds hvalid => exact absurd hheeds.heard (hnot hvalid)
  | adopted hrole hterm hleader _ hvalid => exact absurd (Or.inr hleader) (hnot hvalid)
  | unstored _ hheeds hvalid => exact absurd hheeds.heard (hnot hvalid)
  | stored _ hheeds hvalid => exact absurd hheeds.heard (hnot hvalid)

/-- What it means for a request with an entry that is taken. -/
theorem commitFits_iff {entry : LogEntry} (hentry : request.entry = some entry)
    (hvalid : ValidAppendEntries request s)
    (htaken : s.currentTerm < request.term ∨ s.leaderId = request.leaderId) :
    CommitFits request s ↔ request.commitIndex ≤
      if s.currentTerm < request.term ∨ request.requestId ≠ 0 then entry.index
      else s.lastLogIndex := by
  unfold CommitFits
  rw [hentry]
  exact ⟨fun h => h entry rfl hvalid htaken, fun h _ he _ _ => Option.some.inj he ▸ h⟩

/-- A heartbeat has a commit index inside the log it continues. -/
theorem heartbeat_sound (h : ProperFollower s) (hbound : s.commitIndex ≤ s.lastLogIndex)
    (hvalid : ValidAppendEntries request s)
    (hlistens : s.currentTerm < request.term ∨ s.leaderId = request.leaderId)
    (hentry : request.entry = none) (hid : request.requestId = 0)
    (hle : request.commitIndex ≤ request.prevIndex) (callback : Callback) :
    ProperFollower (appendEntries request callback s) ∧
      CommitInLog (appendEntries request callback s) := by
  obtain ⟨hlog, hfollowing, -⟩ := appendEntries_heartbeat (hlistens.imp_right Eq.symm) h.isOpen
    hentry hid callback
  have hproper := h.of_eq hlog (hfollowing.isOpen.trans h.isOpen.symm)
  have hlast : (appendEntries request callback s).lastLogIndex = s.lastLogIndex :=
    congrArg RepairLog.lastLogIndex hlog
  refine ⟨hproper, ?_⟩
  rw [hproper.commitInLog_iff, hlast]
  rcases @commitIndex_appendEntries_heartbeat request s hentry hid callback with heq | ⟨-, heq⟩
  · rw [heq]
    exact hbound
  · rw [heq]
    exact hle.trans hvalid.1.le

/-- An entry that is stored is the last one. -/
theorem entry_sound {entry : LogEntry} {owned : OwnedLogEntry} (h : ProperFollower s)
    (hbound : s.commitIndex ≤ s.lastLogIndex) (hvalid : ValidAppendEntries request s)
    (hlistens : s.currentTerm < request.term ∨ s.leaderId = request.leaderId)
    (hentry : request.entry = some entry) (hdata : entry.data = .message owned)
    (hindex : entry.index = owned.index) (hterm : entry.term = owned.term)
    (hprev : request.prevIndex = owned.prevLogIndex ∧ request.prevTerm = owned.prevLogTerm)
    (howned : ProperEntry owned) (hstored : s.currentTerm < request.term ∨ request.requestId ≠ 0)
    (callback : Callback) :
    ProperFollower (appendEntries request callback s) ∧
      (CommitInLog (appendEntries request callback s) ↔ request.commitIndex ≤ entry.index) := by
  obtain ⟨hlog, hraised, -, hopen, -⟩ := @appendEntries_entry request s entry owned hlistens
    h.isOpen hvalid hentry (by rw [hdata]; rfl) hstored callback
  rw [hindex, hterm] at hlog
  obtain ⟨hproper, hposition⟩ := h.toProperState.store howned (hprev.1.symm.trans hvalid.1)
    (hprev.2.symm.trans hvalid.2) hlog
  have hfollower : ProperFollower (appendEntries request callback s) := ⟨hproper, hopen⟩
  have hlast : (appendEntries request callback s).lastLogIndex = owned.index :=
    congrArg RepairLog.lastLogIndex hlog
  have hgrows : s.lastLogIndex ≤ owned.index := by
    rw [h.lastLogIndex, hposition]
    exact Nat.sub_le _ _
  refine ⟨hfollower, ?_⟩
  rw [hfollower.commitInLog_iff, hraised, hlast, hindex, max_le_iff]
  exact ⟨fun hboth => hboth.2, fun hle => ⟨hbound.trans hgrows, hle⟩⟩

/-- With request id 0 the commit index is taken over and no entry is stored. -/
theorem zero_sound (h : ProperFollower s) (hbound : s.commitIndex ≤ s.lastLogIndex)
    (hvalid : ValidAppendEntries request s) (hnew : ¬ s.currentTerm < request.term)
    (hleader : s.leaderId = request.leaderId) (hid : request.requestId = 0) (callback : Callback) :
    ProperFollower (appendEntries request callback s) ∧
      (CommitInLog (appendEntries request callback s) ↔
        request.commitIndex ≤ s.lastLogIndex) := by
  obtain ⟨hlog, hfollowing, hset⟩ := appendEntries_zero hnew hleader hid h.isOpen callback
  have hproper := h.of_eq hlog (hfollowing.isOpen.trans h.isOpen.symm)
  have hlast : (appendEntries request callback s).lastLogIndex = s.lastLogIndex :=
    congrArg RepairLog.lastLogIndex hlog
  refine ⟨hproper, ?_⟩
  rw [hproper.commitInLog_iff, hset, hlast]
  split_ifs with hcond
  · exact Iff.rfl
  · have hle : request.commitIndex ≤ s.commitIndex := by
      by_contra hlt
      exact hcond ⟨hvalid, Or.inl (Nat.lt_of_not_le hlt)⟩
    exact iff_of_true hbound (hle.trans hbound)

/-- **A sound request**: the log stays proper, and the commit index stays in it exactly if that of
the request fits. -/
theorem appendEntries_sound (h : ProperFollower s) (hcommit : CommitInLog s)
    (hsound : SoundMessage (.appendEntriesRequest request)) (callback : Callback) :
    ProperFollower (appendEntries request callback s) ∧
      (CommitInLog (appendEntries request callback s) ↔ CommitFits request s) := by
  have hbound := h.commitInLog_iff.mp hcommit
  by_cases htaken : ValidAppendEntries request s ∧
      (s.currentTerm < request.term ∨ s.leaderId = request.leaderId)
  · obtain ⟨hvalid, hlistens⟩ := htaken
    rcases hentry : request.entry with _ | entry
    · obtain ⟨hid, hle⟩ := hsound.2 request rfl hentry
      obtain ⟨hproper, hin⟩ := heartbeat_sound h hbound hvalid hlistens hentry hid hle callback
      exact ⟨hproper, iff_of_true hin fun entry he => by rw [hentry] at he; cases he⟩
    · obtain ⟨owned, hdata, hindex, hterm, hprevIndex, hprevTerm, -, howned⟩ :=
        hsound.1 entry hentry
      rw [commitFits_iff hentry hvalid hlistens]
      by_cases hstored : s.currentTerm < request.term ∨ request.requestId ≠ 0
      · rw [if_pos hstored]
        exact entry_sound h hbound hvalid hlistens hentry hdata hindex hterm
          ⟨hprevIndex, hprevTerm⟩ howned hstored callback
      · rw [if_neg hstored]
        obtain ⟨hnew, hid⟩ := not_or.mp hstored
        exact zero_sound h hbound hvalid hnew (hlistens.resolve_left hnew) (not_not.mp hid) callback
  · obtain ⟨hlog, hsame, hopen⟩ := appendEntries_not_taken htaken callback
    have hproper := h.of_eq hlog hopen
    have hlast : (appendEntries request callback s).lastLogIndex = s.lastLogIndex :=
      congrArg RepairLog.lastLogIndex hlog
    refine ⟨hproper, iff_of_true ?_ fun entry _ hvalid hlistens => absurd ⟨hvalid, hlistens⟩ htaken⟩
    rw [hproper.commitInLog_iff, hsame, hlast]
    exact hbound

end Follower

/-! ## The run -/

/-- The worker is supplied by a proper leader, all messages are sound, and the follower's log is
proper. -/
structure CommitInv (k term : ℕ) (c : Replication) : Prop where
  supplies : ∃ f, Supplies ProperTask k term f c
  leader : ProperLeader term c.leader
  wire : ∀ message ∈ c.wire, SoundMessage message
  follower : ProperFollower c.follower

namespace CommitInv

variable {k term : ℕ} {c : Replication}

/-- An event of the leader. -/
theorem lead (h : CommitInv k term c) (utf8Lossy : List UInt8 → List UInt8) {e : LeaderEvent}
    (hcorrect : (c.act utf8Lossy (.lead e)).Correct) :
    CommitInv k term (c.act utf8Lossy (.lead e)) := by
  obtain ⟨f, hsupplies⟩ := h.supplies
  have hleader := h.leader.react hsupplies.office e
  have hsupplies' := (hsupplies.lead utf8Lossy hcorrect
    (fun entry commitIndex hlog => ⟨rfl, hleader.log.properEntry (by rw [hlog]; simp)⟩)
    (fun _ => trivial) (fun node t i _ _ task htask => by
      rcases htask with ⟨id, prevTerm, prevIndex, rfl⟩ | ⟨start, rfl⟩
      · trivial
      · exact fun entry hentry => h.leader.log.properEntry (List.mem_of_mem_drop hentry))).1
  exact ⟨⟨f, hsupplies'⟩, hleader, h.wire, h.follower⟩

/-- The worker takes a task. -/
theorem take (h : CommitInv k term c) (utf8Lossy : List UInt8 → List UInt8) (now : ℕ) :
    CommitInv k term (c.take utf8Lossy now) := by
  obtain ⟨f, hsupplies⟩ := h.supplies
  rcases hsupplies.take utf8Lossy now with heq | ⟨task, sent, rfl, -, htask, -, hwire, -, hfollower,
    hlog, -, hsupplies'⟩
  · rwa [heq]
  · refine ⟨⟨_, hsupplies'⟩, ?_, ?_, hfollower ▸ h.follower⟩
    · have hentries : (c.take utf8Lossy now).leader.replicationLog = c.leader.replicationLog :=
        congrArg RepairLog.log hlog
      have hlast : (c.take utf8Lossy now).leader.lastLogTerm = c.leader.lastLogTerm :=
        congrArg RepairLog.lastLogTerm hlog
      exact ⟨h.leader.toProperState.of_eq hlog, hentries ▸ h.leader.nonempty, h.leader.positive,
        hlast ▸ h.leader.last⟩
    · intro message hmessage
      rw [hwire] at hmessage
      rcases List.mem_append.mp hmessage with hmessage | hmessage
      · exact h.wire message hmessage
      · exact soundMessage_processTask utf8Lossy now htask c.worker message hmessage

/-- The heartbeat timer. -/
theorem heartbeat (h : CommitInv k term c) (utf8Lossy : List UInt8 → List UInt8) (now : ℕ) :
    CommitInv k term (c.act utf8Lossy (.heartbeat now)) := by
  obtain ⟨f, hsupplies⟩ := h.supplies
  obtain ⟨hsupplies', hmessages⟩ := hsupplies.heartbeat utf8Lossy now
  refine ⟨⟨f, hsupplies'⟩, h.leader, fun message hmessage => ?_, h.follower⟩
  rcases List.mem_append.mp hmessage with hmessage | hmessage
  · exact h.wire message hmessage
  · rcases hmessages with hnone | ⟨hone, htracks⟩
    · rw [hnone] at hmessage
      cases hmessage
    · rw [hone, List.mem_singleton] at hmessage
      exact hmessage ▸ soundMessage_heartbeat htracks

/-- **A step** keeps the invariant, and keeps the follower's commit index in its log exactly if a
request it delivers fits. -/
theorem step (h : CommitInv k term c) (hcommit : CommitInLog c.follower)
    (utf8Lossy : List UInt8 → List UInt8) {label : AnyOrderLabel}
    (hcorrect : (c.stepAnyOrder utf8Lossy label).Correct) :
    CommitInv k term (c.stepAnyOrder utf8Lossy label) ∧
      (CommitInLog (c.stepAnyOrder utf8Lossy label).follower ↔ c.CommitFits label) := by
  cases label with
  | act e =>
    cases e with
    | lead e => exact ⟨h.lead utf8Lossy hcorrect, iff_of_true hcommit trivial⟩
    | take now =>
      refine ⟨h.take utf8Lossy now, iff_of_true ?_ trivial⟩
      show CommitInLog (c.take utf8Lossy now).follower
      unfold Replication.take
      split <;> exact hcommit
    | heartbeat now => exact ⟨h.heartbeat utf8Lossy now, iff_of_true hcommit trivial⟩
    | follow e =>
      obtain ⟨hlog, -, -, hsame, hopen, -⟩ := Follower.react_unchanged c.follower e
      have hproper := h.follower.of_eq hlog hopen
      refine ⟨⟨h.supplies.imp fun _ hs => ⟨hs.queue, hs.office, hs.feeds⟩, h.leader, h.wire,
        hproper⟩, iff_of_true ?_ trivial⟩
      have hentries : (Follower.react c.follower e).replicationLog = c.follower.replicationLog :=
        congrArg RepairLog.log hlog
      show CommitInLog (Follower.react c.follower e)
      rw [CommitInLog, hsame, hentries]
      exact hcommit
  | deliver i callback =>
    have hwire := h.wire
    unfold Replication.stepAnyOrder Replication.CommitFits
    dsimp only
    split
    · next request hmessage =>
      obtain ⟨hproper, hiff⟩ := Follower.appendEntries_sound h.follower hcommit
        (hwire _ (List.mem_of_getElem? hmessage)) callback
      exact ⟨⟨h.supplies.imp fun _ hs => ⟨hs.queue, hs.office, hs.feeds⟩, h.leader, h.wire,
        hproper⟩, hiff⟩
    · exact ⟨h, iff_of_true hcommit trivial⟩

/-- The start. -/
theorem start (clock : Clock) {c : RepairParties}
    (hqueue : c.queue < c.leader.quorumWorkerTasks.length)
    (hopen : c.leader.persistenceOpen = true) (hleader : ProperState c.leader)
    (hpositive : 1 ≤ c.leader.currentTerm) (hlast : c.leader.lastLogTerm ≤ c.leader.currentTerm)
    (hcommit : c.leader.commitIndex ≤ c.leader.lastLogIndex)
    (hfollower : ProperFollower c.follower) :
    CommitInv c.queue c.leader.currentTerm (Replication.start clock c) := by
  have hproper : ProperLeader c.leader.currentTerm (Replication.start clock c).leader :=
    ProperLeader.initializeLeadership clock
      (s := { c.leader with quorumWorkerTasks := c.leader.quorumWorkerTasks.set c.queue [] })
      ⟨hleader.log, hleader.ends⟩ hpositive hlast
  refine ⟨⟨_, .start clock hqueue hopen hleader.ends hcommit (fun _ _ _ _ _ => trivial)
    fun entry commitIndex hlog => ⟨rfl, ?_⟩⟩, hproper, by simp [Replication.start], hfollower⟩
  exact hproper.log.properEntry (by rw [hlog]; simp)

end CommitInv

/-- **The commit index of a follower.**  The leader's log is proper when it takes office, and its
commit index is in its log all along the run.  Then the follower's commit index is a position of
its own log all along the run exactly if every request delivered to it has a commit index that
fits. -/
theorem follower_commit_bound_iff (utf8Lossy : List UInt8 → List UInt8) (clock : Clock)
    (c : RepairParties) (labels : List AnyOrderLabel)
    (hqueue : c.queue < c.leader.quorumWorkerTasks.length)
    (hopen : c.leader.persistenceOpen = true) (hleader : ProperState c.leader)
    (hpositive : 1 ≤ c.leader.currentTerm) (hlast : c.leader.lastLogTerm ≤ c.leader.currentTerm)
    (hcommit : c.leader.commitIndex ≤ c.leader.lastLogIndex)
    (hfollower : ProperFollower c.follower) (hbound : CommitInLog c.follower)
    (hcorrect : Runs.AllSteps (Replication.stepAnyOrder utf8Lossy)
      (fun c label => (c.stepAnyOrder utf8Lossy label).Correct) (.start clock c) labels) :
    (∀ before after, labels = before ++ after → CommitInLog
      (Runs.run (Replication.stepAnyOrder utf8Lossy) (.start clock c) before).follower) ↔
    Runs.AllSteps (Replication.stepAnyOrder utf8Lossy) Replication.CommitFits (.start clock c)
      labels :=
  Runs.AllSteps.always_iff (CommitInv c.queue c.leader.currentTerm) (CommitInLog ·.follower)
    (fun _ _ h hin hok => (h.step hin utf8Lossy hok).1)
    (fun _ _ h hin hok => (h.step hin utf8Lossy hok).2)
    (.start clock hqueue hopen hleader hpositive hlast hcommit hfollower) hbound hcorrect

/-- The log with one entry is proper. -/
theorem properState_partiesOn :
    ProperState (partiesOn [sharedNoop] [sharedNoop]).leader ∧
      ProperFollower (partiesOn [sharedNoop] [sharedNoop]).follower :=
  have hlog : ProperLog [sharedNoop] := ProperLog.nil.concat rfl rfl (by decide) (by decide)
  ⟨⟨hlog, rfl⟩, ⟨hlog, rfl⟩, rfl⟩

/-- The no-op of the leader and a heartbeat, delivered in the wrong order and one of them
twice. -/
def mixedDeliveries : List AnyOrderLabel :=
  [.act (.take 10), .act (.take 10), .act (.heartbeat 200), .deliver 1 (.proxy 0),
    .deliver 0 (.proxy 1), .deliver 1 (.proxy 2)]

/-- They leave the commit index in the log, which has two entries then. -/
theorem follower_commit_bound_noop :
    (Runs.run (Replication.stepAnyOrder id) (.start ⟨5, 0⟩ (partiesOn [sharedNoop] [sharedNoop]))
      mixedDeliveries).follower.replicationLog.length = 2 ∧
    CommitInLog (Runs.run (Replication.stepAnyOrder id)
      (.start ⟨5, 0⟩ (partiesOn [sharedNoop] [sharedNoop])) mixedDeliveries).follower :=
  ⟨by decide, (follower_commit_bound_iff id ⟨5, 0⟩ (partiesOn [sharedNoop] [sharedNoop])
    mixedDeliveries (by decide) rfl properState_partiesOn.1 (by decide) (by decide) (by decide)
    properState_partiesOn.2 (by decide) (by decide)).mpr (by decide) mixedDeliveries [] rfl⟩

/-- Node 1 of five, elected for term 1 on an empty log, and node 5. -/
def electedOfFive : RepairParties :=
  letI := sampleCapnp
  { leader := (Runs.run Node.step (Node.start ⟨0, 0⟩ [] [] 1 3 4 fun _ => true)
      (electedAt 1000 0 1)).shared
    worker := .new 1 5
    follower := (Node.start ⟨0, 0⟩ [] [] 5 3 4 fun _ => true).shared }

/-- The leader commits a batch with the acknowledgements of nodes 2, 3 and 4.  The first message
to reach node 5 is a heartbeat; it answers with its empty log, is sent the two entries, and
receives the first of them. -/
def backfillNodeFive : List AnyOrderLabel :=
  [.act (.lead (.write ⟨1004, 0⟩ ⟨"a", [⟨"k", [1], 1⟩]⟩ (.proxy 0))),
    .act (.lead (.persisted (.logPersisted 3))),
    .act (.lead (.responded (.appendEntries 3 true))),
    .act (.lead (.responded (.appendEntries 3 true))),
    .act (.lead (.responded (.appendEntries 3 true))), .act (.take 1010), .act (.take 1010),
    .act (.take 1010), .act (.take 1010), .act (.heartbeat 1200), .deliver 2 (.proxy 0),
    .act (.lead (.repair 5 0 0)), .act (.take 1210), .deliver 3 (.proxy 1)]

/-- **A commit index beyond the log.**  Node 5 has one entry and commit index 1. -/
theorem backfill_passes_log :
    ¬ ∀ (utf8Lossy : List UInt8 → List UInt8) (clock : Clock) (c : RepairParties)
      (labels : List AnyOrderLabel), c.queue < c.leader.quorumWorkerTasks.length →
        c.leader.persistenceOpen = true → ProperState c.leader → 1 ≤ c.leader.currentTerm →
        c.leader.lastLogTerm ≤ c.leader.currentTerm →
        c.leader.commitIndex ≤ c.leader.lastLogIndex → ProperFollower c.follower →
        CommitInLog c.follower →
        Runs.AllSteps (Replication.stepAnyOrder utf8Lossy)
          (fun c label => (c.stepAnyOrder utf8Lossy label).Correct) (.start clock c) labels →
        CommitInLog (Runs.run (Replication.stepAnyOrder utf8Lossy)
          (.start clock c) labels).follower := by
  intro h
  have hbound := h id ⟨1003, 0⟩ electedOfFive backfillNodeFive (by decide) (by decide)
    ⟨ProperLog.nil, rfl⟩ (by decide) (by decide) (by decide) ⟨⟨ProperLog.nil, rfl⟩, rfl⟩
    (by decide) (by decide +kernel)
  revert hbound
  decide +kernel

end Kraft
