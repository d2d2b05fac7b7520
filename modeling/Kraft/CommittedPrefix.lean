/-
# The committed prefix of a node's log

What the steps of one process do to the commit index, to its atomic copy and to the part of
the log up to it.

* `Moves` : appending entries, and raising the commit index with the broadcast of what it commits.
  So it is in all steps but two: a follower takes over the commit index of a late heartbeat of its
  leader without comparing it (`accept_commit`), and a truncation does not look at the commit index
  (`runPart_commit`).
* `Advances` : the log is then only extended and the commit index only raised.
* `KeepsCommitted` : the commit index does not fall and no committed position is removed or
  replaced.
* `committed_prefix_stable_iff` : it holds between any two states of a run exactly if no step
  is one of these two with a commit index that is too high.
-/
import Kraft.Node
import Kraft.Replies
import Kraft.Requests

namespace Kraft

open SharedState StateMachine

variable {s s' : SharedState}

/-! ## What a step does -/

/-- What goes on the bus are entries of the log at committed positions. -/
def BusGrows (s s' : SharedState) : Prop :=
  ∃ new, s'.logEntryBus.sent = s.logEntryBus.sent ++ new ∧
    ∀ p ∈ new, p.1 ≤ s'.commitIndex ∧ s'.replicationLog[p.1]? = some p.2

/-- Nothing goes on the bus. -/
theorem BusGrows.of_eq (h : s'.logEntryBus.sent = s.logEntryBus.sent) : BusGrows s s' :=
  ⟨[], by rw [h, List.append_nil], by simp⟩

/-- A broadcast up to the commit index. -/
theorem BusGrows.of_broadcasts {limit : ℕ} (h : Broadcasts limit s s')
    (hlimit : limit ≤ s.commitIndex) : BusGrows s s' := by
  obtain ⟨new, hsent, hnew⟩ := h.added
  have hcommit : s'.commitIndex = s.commitIndex := by rw [h.frame]
  have hlog : s'.replicationLog = s.replicationLog := by rw [h.frame]
  refine ⟨new, hsent, fun p hp => ?_⟩
  rw [hcommit, hlog]
  exact ⟨(hnew p hp).1.trans hlimit, (hnew p hp).2⟩

/-- The commit index is stored, and what it commits is broadcast. -/
theorem BusGrows.commit (s : SharedState) (index : ℕ) :
    BusGrows s ((s.storeCommitIndex index).broadcastCommittedEntries index) := by
  have h : BusGrows (s.storeCommitIndex index) _ :=
    .of_broadcasts (broadcasts_broadcastCommittedEntries (s.storeCommitIndex index) index) le_rfl
  exact h

/-- What the code does to the log, the commit index and the bus, except for late heartbeats and
truncations. -/
inductive Moves : SharedState → SharedState → Prop
  /-- Entries are appended, or nothing of this changes. -/
  | extend {s s' : SharedState} (log : s.replicationLog <+: s'.replicationLog)
      (same : s.SameCommit s') : Moves s s'
  /-- The commit index is raised, and what it commits is broadcast. -/
  | commit (s : SharedState) {index : ℕ} (raised : s.commitIndex < index) :
      Moves s ((s.storeCommitIndex index).broadcastCommittedEntries index)
  /-- A new leader broadcasts what it knows to be committed. -/
  | resume (s : SharedState) (committed : 0 < s.commitIndex) :
      Moves s (s.broadcastCommittedEntries s.commitIndex)
  | retry (s : SharedState) : Moves s s.retryDeferredBroadcast
  | trans {s₁ s₂ s₃ : SharedState} : Moves s₁ s₂ → Moves s₂ s₃ → Moves s₁ s₃

namespace Moves

variable {s s₁ : SharedState}

/-- Nothing of this changes. -/
theorem of_eq (h : s₁.replicationLog = s.replicationLog ∧ s.SameCommit s₁) : Moves s s₁ :=
  .extend (h.1 ▸ List.prefix_rfl) h.2

theorem refl (s : SharedState) : Moves s s := of_eq (by simp)

/-- Entries are appended. -/
theorem of_append {entries : List OwnedLogEntry}
    (hlog : s₁.replicationLog = s.replicationLog ++ entries) (hsame : s.SameCommit s₁) :
    Moves s s₁ :=
  .extend (hlog ▸ List.prefix_append ..) hsame

theorem register (h : Moves s s₁) (id : ℕ) (responses : ℤ) (type : OutstandingMessageType) :
    Moves s (s₁.register id responses type) := h.trans (.of_eq (by simp))

theorem answer (h : Moves s s₁) (callback : Callback)
    (response : LocalAppendEntriesCallbackResponse) : Moves s (s₁.answer callback response) :=
  h.trans (.of_eq (by simp))

theorem send (h : Moves s s₁) (callback : Callback) (payload : LocalRaftResponsePayload) :
    Moves s (s₁.send callback payload) := h.trans (.of_eq (by simp))

theorem pushToQuorum (h : Moves s s₁) (task : LocalQuorumWorkerTaskType) :
    Moves s (s₁.pushToQuorum task) := h.trans (.of_eq (by simp))

end Moves

/-- The log is extended and the commit index is raised, with its copy. -/
structure Advances (s s' : SharedState) : Prop where
  log : s.replicationLog <+: s'.replicationLog
  commit : s.commitIndex ≤ s'.commitIndex
  published : s.publishedCommitIndex = s.commitIndex → s'.publishedCommitIndex = s'.commitIndex
  bus : BusGrows s s'

namespace Advances

variable {s s₁ s₂ : SharedState}

/-- No entry moves. -/
theorem entry (h : Advances s s₁) {i : ℕ} {entry : OwnedLogEntry}
    (hentry : s.replicationLog[i]? = some entry) : s₁.replicationLog[i]? = some entry := by
  obtain ⟨more, hlog⟩ := h.log
  obtain ⟨hi, -⟩ := List.getElem?_eq_some_iff.mp hentry
  rw [← hlog, List.getElem?_append_left hi, hentry]

/-- Two advances. -/
theorem trans (h₁ : Advances s s₁) (h₂ : Advances s₁ s₂) : Advances s s₂ := by
  refine ⟨h₁.log.trans h₂.log, h₁.commit.trans h₂.commit, fun h => h₂.published (h₁.published h), ?_⟩
  obtain ⟨new₁, hsent₁, hnew₁⟩ := h₁.bus
  obtain ⟨new₂, hsent₂, hnew₂⟩ := h₂.bus
  refine ⟨new₁ ++ new₂, by rw [hsent₂, hsent₁, List.append_assoc], fun p hp => ?_⟩
  rcases List.mem_append.mp hp with hp | hp
  · exact ⟨(hnew₁ p hp).1.trans h₂.commit, h₂.entry (hnew₁ p hp).2⟩
  · exact hnew₂ p hp

/-- Committed entries are broadcast. -/
theorem of_broadcasts {limit : ℕ} (h : Broadcasts limit s s₁) (hlimit : limit ≤ s.commitIndex) :
    Advances s s₁ := by
  obtain ⟨⟨-, -, ⟨-, -, -, hlog⟩, -⟩, hcommit, hpublished, -⟩ := h.unchanged
  exact ⟨hlog ▸ List.prefix_rfl, hcommit.ge, fun heq => by rw [hpublished, hcommit, heq],
    .of_broadcasts h hlimit⟩

end Advances

/-- **The moves advance.** -/
theorem Moves.advances (h : Moves s s') : Advances s s' := by
  induction h with
  | extend hlog hsame =>
    obtain ⟨hcommit, hpublished, hbus, -⟩ := hsame
    exact ⟨hlog, hcommit.ge, fun h => by rw [hpublished, hcommit, h],
      .of_eq (congrArg Bus.sent hbus)⟩
  | commit s hraised =>
    exact ⟨by simp, by simpa using hraised.le, fun _ => by simp, .commit s _⟩
  | resume s _ => exact .of_broadcasts (broadcasts_broadcastCommittedEntries s _) le_rfl
  | retry s => exact .of_broadcasts (broadcasts_retryDeferredBroadcast s) le_rfl
  | trans _ _ ih₁ ih₂ => exact ih₁.trans ih₂

/-! ### Requests -/

/-- Taking the sender of a request for the leader. -/
theorem Heeds.moves {role : RaftNodeType} {request : LocalAppendEntries} {s₁ : SharedState}
    (h : Heeds role request s s₁) : Moves s s₁ := by
  cases h <;> exact .of_eq (by simp)

/-- The entry of a request is looked at. -/
theorem Follower.moves_note (request : LocalAppendEntries) (s : SharedState) :
    Moves s (Follower.note request s) :=
  .of_eq (by simp)

/-- The entry is stored, and the commit index of the request is taken over if it is higher. -/
theorem Follower.moves_store (id : ℕ) (data : EntryData) (owned : OwnedLogEntry)
    (request : LocalAppendEntries) (callback : Callback) (s : SharedState) :
    Moves s (Follower.store id data owned request callback s) := by
  have happend : Moves s { s.persist (.appendLog id data request.requestId) with
      replicationLog := s.replicationLog ++ [owned] } := .of_append rfl ⟨rfl, rfl, rfl, rfl, rfl⟩
  refine Moves.register (happend.trans ?_) ..
  unfold Follower.adopt
  split_ifs with hcommit
  · exact .commit _ hcommit
  · exact .refl _

/-- A heartbeat that the leader a follower follows sent in an earlier term.  It continues the
log, so its commit index is taken over whatever it is. -/
def Follower.LateHeartbeat (request : LocalAppendEntries) (s : SharedState) : Prop :=
  request.term < s.currentTerm ∧ request.leaderId = s.leaderId ∧ request.requestId = 0 ∧
    ValidAppendEntries request s

instance (request : LocalAppendEntries) (s : SharedState) :
    Decidable (Follower.LateHeartbeat request s) :=
  inferInstanceAs (Decidable (_ ∧ _))

/-- The commit index becomes `index`, whether or not that is higher. -/
structure SetsCommit (index : ℕ) (s s' : SharedState) : Prop where
  log : s'.replicationLog = s.replicationLog
  commit : s'.commitIndex = index
  published : s'.publishedCommitIndex = index
  bus : BusGrows s s'

/-- **An AppendEntries request.**  A late heartbeat sets the commit index. -/
theorem Receives.commit {role : RaftNodeType} {request : LocalAppendEntries} {callback : Callback}
    {s s' : SharedState} (h : Receives role request callback s s') :
    (¬(role = .follower ∧ Follower.LateHeartbeat request s) ∧ Moves s s') ∨
      role = .follower ∧ Follower.LateHeartbeat request s ∧ SetsCommit request.commitIndex s s' := by
  cases h with
  | unrecognised hheard =>
    refine Or.inl ⟨?_, (Moves.refl s).answer ..⟩
    rintro ⟨rfl, -, hleader, -⟩
    exact hheard (Or.inr hleader)
  | mismatched hheeds hvalid => exact Or.inl ⟨fun h => hvalid h.2.2.2.2, hheeds.moves.answer ..⟩
  | acknowledged hheeds _ hquiet =>
    refine Or.inl ⟨?_, hheeds.moves.answer ..⟩
    rintro ⟨hrole, hlate, -⟩
    have := hquiet hrole
    omega
  | adopted hrole hterm hleader hid hvalid hcommit =>
    by_cases hlate : request.term < s.currentTerm
    · exact Or.inr ⟨hrole, ⟨hlate, hleader, hid, hvalid⟩, by simp, by simp, by simp,
        .commit s request.commitIndex⟩
    · exact Or.inl ⟨fun h => hlate h.2.1, (Moves.commit s (hcommit.resolve_right hlate)).answer ..⟩
  | unstored _ hheeds _ hid =>
    refine Or.inl ⟨?_, (hheeds.moves.trans (Follower.moves_note ..)).answer ..⟩
    rintro ⟨-, hlate, -, hzero, -⟩
    omega
  | stored _ hheeds _ hid =>
    refine Or.inl ⟨?_, (hheeds.moves.trans (Follower.moves_note ..)).trans (Follower.moves_store ..)⟩
    rintro ⟨-, hlate, -, hzero, -⟩
    omega

/-- A request for a vote. -/
theorem moves_acceptRequestVote (request : LocalRequestVoteRequest) (callback : Callback)
    (sm : StateMachine) : Moves sm.shared (sm.acceptRequestVote request callback).shared := by
  have hasked := asked_acceptRequestVote request callback sm
  generalize (sm.acceptRequestVote request callback).shared = s' at hasked ⊢
  cases hasked <;> exact .of_eq (by simp)

theorem Leader.moves_appendOwn (type : OutstandingMessageType) (idx id timestamp : ℕ)
    (commands : List PutRequest) (s : SharedState) :
    Moves s (Leader.appendOwn type idx id timestamp commands s) :=
  .of_append (by simp; rfl) (by simp)

/-- A batch of writes. -/
theorem Leader.moves_writeBatch (clock : Clock) (batch : OwnedWriteBatch) (callback : Callback)
    (s : SharedState) : Moves s (Leader.writeBatch clock batch callback s) := by
  rcases Leader.writeBatch_cases clock batch callback s with ⟨-, h⟩ | ⟨-, -, h⟩ | ⟨-, -, h⟩
  · rw [h]
    exact .of_eq (by simp)
  · rw [h]
    refine Moves.trans ?_ (Leader.moves_appendOwn ..)
    exact .of_eq (by simp)
  · rw [h]
    exact .of_append rfl ⟨rfl, rfl, rfl, rfl, rfl⟩

/-- A request is a late heartbeat to a follower. -/
def IsLateHeartbeat (payload : LocalRaftMessagePayload) (sm : StateMachine) : Prop :=
  ∃ request, payload = .appendEntries request ∧ sm.delegate.nodeType = .follower ∧
    Follower.LateHeartbeat request sm.shared

/-- A request to append moves the commit index, unless it is a heartbeat to a follower. -/
theorem acceptAppendEntries_commit (clock : Clock) (request : LocalAppendEntries)
    (callback : Callback) (sm : StateMachine) :
    (¬ IsLateHeartbeat (.appendEntries request) sm ∧
      Moves sm.shared (sm.acceptAppendEntries clock request callback).shared) ∨
      sm.delegate.nodeType = .follower ∧ Follower.LateHeartbeat request sm.shared ∧
        SetsCommit request.commitIndex sm.shared
          (sm.acceptAppendEntries clock request callback).shared := by
  refine (receives_acceptAppendEntries clock request callback sm).commit.imp_left fun h => ⟨?_, h.2⟩
  rintro ⟨request', heq, hlate⟩
  obtain rfl := LocalRaftMessagePayload.appendEntries.inj heq
  exact h.1 hlate

/-- **A request.**  A late heartbeat sets the commit index; all else advances. -/
theorem accept_commit (clock : Clock) (message : LocalRaftMessage) (sm : StateMachine) :
    (¬ IsLateHeartbeat message.payload sm ∧
      Moves sm.shared (sm.accept clock message).shared) ∨
      ∃ request, message.payload = .appendEntries request ∧
        sm.delegate.nodeType = .follower ∧ Follower.LateHeartbeat request sm.shared ∧
        SetsCommit request.commitIndex sm.shared (sm.accept clock message).shared := by
  unfold StateMachine.accept
  split
  · next request hpayload =>
    rw [hpayload]
    exact Or.inl ⟨(fun ⟨_, heq, _⟩ => nomatch heq), moves_acceptRequestVote ..⟩
  · next request hpayload =>
    rw [hpayload]
    exact (acceptAppendEntries_commit clock request message.callback sm).imp_right fun h =>
      ⟨request, rfl, h⟩
  · next hpayload =>
    rw [hpayload]
    exact Or.inl ⟨(fun ⟨_, heq, _⟩ => nomatch heq), .of_eq (by simp)⟩
  · next batch hpayload =>
    rw [hpayload]
    refine Or.inl ⟨(fun ⟨_, heq, _⟩ => nomatch heq), ?_⟩
    unfold acceptWriteBatch
    split
    · exact Leader.moves_writeBatch ..
    · exact .of_eq (by simp)

/-! ### The parts of `time_step` -/

theorem Leader.moves_initializeLeadership (clock : Clock) (s : SharedState) :
    Moves s (Leader.initializeLeadership clock s) := by
  rw [Leader.initializeLeadership_eq]
  refine Moves.trans ?_ (Leader.moves_appendOwn ..)
  unfold Leader.prepareNoop
  dsimp only
  split_ifs with hcommitted
  · refine Moves.trans (.of_eq ?_) ((Moves.resume _ hcommitted).trans (.of_eq ?_)) <;>
      exact ⟨rfl, rfl, rfl, rfl, rfl, rfl⟩
  · exact .of_eq (by simp)

/-- The leader commits. -/
theorem Leader.moves_advanceCommitIndex (index : ℕ) (s : SharedState) :
    Moves s (Leader.advanceCommitIndex index s) := by
  unfold Leader.advanceCommitIndex
  split_ifs with h
  · exact (Moves.commit s h).pushToQuorum _
  · exact .refl s

/-- A message is complete. -/
theorem Leader.moves_complete (index : ℕ) (callback : Option Callback) (s : SharedState) :
    Moves s (Leader.complete index callback s) := by
  cases callback with
  | none => exact Leader.moves_advanceCommitIndex index s
  | some callback => exact (Leader.moves_advanceCommitIndex index s).send callback _

/-- A reply commits at most. -/
theorem Settles.moves {role : RaftNodeType} {reply : Reply} {id : ℕ}
    (h : Settles role reply id s s') : Moves s s' := by
  have hremove : Moves s (s.removeOutstanding id) := .of_eq (by simp)
  cases h with
  | missing => exact .refl s
  | completed => exact hremove.trans (Leader.moves_complete ..)
  | _ => exact .of_eq (by simp)

/-- A truncation leaves the commit index alone. -/
structure CutsTo (targetLength : ℕ) (s s' : SharedState) : Prop where
  shorter : targetLength < s.replicationLog.length
  log : s'.replicationLog = s.replicationLog.take targetLength
  commit : s'.commitIndex = s.commitIndex
  published : s'.publishedCommitIndex = s.publishedCommitIndex
  sent : s'.logEntryBus.sent = s.logEntryBus.sent

/-- A truncation cuts the log and leaves the commit index. -/
theorem Follower.truncateLog_commit (s : SharedState) (prevTerm prevIndex : ℕ) :
    (¬ prevIndex + 1 < s.replicationLog.length ∧ Follower.truncateLog s prevTerm prevIndex = s) ∨
      CutsTo (prevIndex + 1) s (Follower.truncateLog s prevTerm prevIndex) ∧
        s.SameCommit (Follower.truncateLog s prevTerm prevIndex) := by
  rcases Nat.lt_or_ge (prevIndex + 1) s.replicationLog.length with hlt | hle
  · exact Or.inr ⟨⟨hlt, (Follower.truncateLog_of_lt prevTerm hlt).1, by simp, by simp, by simp⟩,
      by simp⟩
  · exact Or.inl ⟨Nat.not_lt.mpr hle, Follower.truncateLog_of_le prevTerm hle⟩

/-- The truncation that the next quorum response asks of a follower, if it shortens the log. -/
def nextTruncation (sm : StateMachine) : Option ℕ :=
  match sm.delegate, sm.shared.quorumResponse with
  | .follower _, .truncateLog _ _ prevIndex :: _ =>
    if prevIndex + 1 < sm.shared.replicationLog.length then some prevIndex else none
  | _, _ => none

/-- A response of a quorum worker commits or truncates. -/
theorem popQuorum_commit (sm : StateMachine) :
    (nextTruncation sm = none ∧ Moves sm.shared sm.popQuorum.shared) ∨
      ∃ prevIndex, nextTruncation sm = some prevIndex ∧
        CutsTo (prevIndex + 1) sm.shared sm.popQuorum.shared ∧
          sm.shared.SameCommit sm.popQuorum.shared := by
  rcases hnext : nextTruncation sm with _ | prevIndex
  · refine Or.inl ⟨rfl, ?_⟩
    rcases popQuorum_cases sm with heq | ⟨response, rest, hqueue, heq⟩
    · rw [heq]
      exact .refl _
    · have hdrop : Moves sm.shared (sm.dropQuorum rest).shared := .of_eq (by simp)
      have hsettles := settles_handleQuorum response (sm.dropQuorum rest)
      rw [heq]
      refine hdrop.trans ?_
      generalize ((sm.dropQuorum rest).handleQuorum response).shared = s' at hsettles ⊢
      cases hsettles with
      | ignored => exact .refl _
      | settled _ h => exact h.moves
      | @truncated node prevTerm prevIndex hrole hresponse =>
        obtain ⟨timer, hrole⟩ := Delegate.nodeType_eq_follower hrole
        rcases Follower.truncateLog_commit (sm.dropQuorum rest).shared prevTerm prevIndex with
          ⟨-, hsame⟩ | ⟨hcut, -⟩
        · rw [hsame]
          exact .of_eq (by simp)
        · rw [hresponse] at hqueue
          have hlonger : prevIndex + 1 < sm.shared.replicationLog.length := hcut.shorter
          simp [nextTruncation, show sm.delegate = .follower timer from hrole, hqueue, hlonger]
            at hnext
  · right
    unfold nextTruncation at hnext
    split at hnext
    · next timer node prevTerm index rest hrole hqueue =>
      split_ifs at hnext with hlonger
      obtain rfl := Option.some.inj hnext
      have heq : sm.popQuorum.shared =
          (Follower.truncateLog (sm.dropQuorum rest).shared prevTerm index).bumpVersion := by
        simp [popQuorum, hqueue, ready, hrole, StateMachine.handleQuorum, Follower.handleQuorum]
      obtain ⟨hcut, hkept⟩ := (Follower.truncateLog_commit (sm.dropQuorum rest).shared prevTerm
        index).resolve_left fun h => h.1 hlonger
      rw [heq]
      exact ⟨index, rfl, ⟨hlonger, hcut.log, hcut.commit, hcut.published, hcut.sent⟩, hkept⟩
    · cases hnext

/-- Every other part advances. -/
theorem Turns.moves {clock : Clock} {sm : StateMachine} {part : TimeStepPart}
    (h : Turns clock sm part s') (hpart : part ≠ .popQuorum) : Moves sm.shared s' := by
  cases h with
  | idle => exact .refl _
  | office => exact Leader.moves_initializeLeadership ..
  | settled _ _ _ h =>
    refine Moves.trans ?_ h.moves
    exact .of_eq (by simp)
  | ignored | truncated => exact absurd rfl hpart
  | retried => exact .retry _
  | stood | repaired =>
    refine Moves.trans ?_ (.retry _)
    exact .of_eq (by simp)

/-- **A part of `time_step`.**  A truncation shortens the log; all else advances. -/
theorem runPart_commit (clock : Clock) (sm : StateMachine) (part : TimeStepPart) :
    ((part = .popQuorum → nextTruncation sm = none) ∧
      Moves sm.shared (sm.runPart clock part).shared) ∨
      ∃ prevIndex, part = .popQuorum ∧ nextTruncation sm = some prevIndex ∧
        CutsTo (prevIndex + 1) sm.shared (sm.runPart clock part).shared ∧
          sm.shared.SameCommit (sm.runPart clock part).shared := by
  by_cases hpart : part = .popQuorum
  · subst hpart
    exact (popQuorum_commit sm).imp (fun ⟨hnone, hmoves⟩ => ⟨fun _ => hnone, hmoves⟩)
      fun ⟨prevIndex, hsome, hcut⟩ => ⟨prevIndex, rfl, hsome, hcut⟩
  · exact Or.inl ⟨fun h => absurd h hpart, (turns_runPart clock part sm).moves hpart⟩

/-! ## The committed prefix -/

/-- The commit index and its copy do not fall, and committed positions stay. -/
structure KeepsCommitted (s s' : SharedState) : Prop where
  commit : s.commitIndex ≤ s'.commitIndex
  published : s.publishedCommitIndex ≤ s'.publishedCommitIndex
  positions : ∀ (i : ℕ) (entry : OwnedLogEntry), i ≤ s.commitIndex →
    s.replicationLog[i]? = some entry → s'.replicationLog[i]? = some entry

theorem KeepsCommitted.refl (s : SharedState) : KeepsCommitted s s :=
  ⟨le_rfl, le_rfl, fun _ _ _ h => h⟩

theorem KeepsCommitted.trans {s₁ s₂ s₃ : SharedState} (h₁ : KeepsCommitted s₁ s₂)
    (h₂ : KeepsCommitted s₂ s₃) : KeepsCommitted s₁ s₃ :=
  ⟨h₁.commit.trans h₂.commit, h₁.published.trans h₂.published, fun i entry hi hentry =>
    h₂.positions i entry (hi.trans h₁.commit) (h₁.positions i entry hi hentry)⟩

/-- An advance keeps what is committed. -/
theorem Advances.keepsCommitted (h : Advances s s')
    (hpublished : s.publishedCommitIndex = s.commitIndex) : KeepsCommitted s s' := by
  refine ⟨h.commit, ?_, fun i entry _ hentry => h.entry hentry⟩
  rw [hpublished, h.published hpublished]
  exact h.commit

/-- A commit index that is set keeps it if it does not fall. -/
theorem SetsCommit.keepsCommitted_iff {index : ℕ} (h : SetsCommit index s s')
    (hpublished : s.publishedCommitIndex = s.commitIndex) :
    KeepsCommitted s s' ↔ s.commitIndex ≤ index := by
  constructor
  · intro hkeeps
    rw [← h.commit]
    exact hkeeps.commit
  · intro hle
    refine ⟨h.commit ▸ hle, ?_, fun i entry _ hentry => h.log ▸ hentry⟩
    rw [hpublished, h.published]
    exact hle

/-- A cut keeps it if it is behind the commit index. -/
theorem CutsTo.keepsCommitted_iff {prevIndex : ℕ} (h : CutsTo (prevIndex + 1) s s') :
    KeepsCommitted s s' ↔ s.commitIndex ≤ prevIndex := by
  constructor
  · intro hkeeps
    by_contra hlt
    -- the first position that is removed was committed
    have hentry := List.getElem?_eq_getElem h.shorter
    have hremoved := hkeeps.positions _ _ (by omega) hentry
    rw [h.log, List.getElem?_eq_none (List.length_take_le ..)] at hremoved
    cases hremoved
  · intro hle
    refine ⟨h.commit.ge, h.published.ge, fun i entry hi hentry => ?_⟩
    rw [h.log, List.getElem?_take_of_lt (by omega), hentry]

/-- The condition on an event: a late heartbeat does not carry a lower commit index, and a
truncation that shortens the log starts behind the commit index. -/
def Node.CommitsStably (n : Node) : NodeEvent → Prop
  | .accept _ ⟨.appendEntries request, _⟩ => n.machine.delegate.nodeType = .follower →
      Follower.LateHeartbeat request n.shared → n.shared.commitIndex ≤ request.commitIndex
  | .timeStep _ .popQuorum => ∀ prevIndex ∈ nextTruncation n.machine,
      n.shared.commitIndex ≤ prevIndex
  | _ => True

instance (n : Node) (event : NodeEvent) : Decidable (n.CommitsStably event) := by
  unfold Node.CommitsStably
  split <;> infer_instance

variable [Capnp]

omit [Capnp] in
/-- The fields concerned are not touched by the persistence worker. -/
theorem Moves.of_serves {sm sm' : StateMachine} (h : Node.Serves sm sm') :
    Moves sm.shared sm'.shared := by
  obtain ⟨work, isOpen, responses, rfl⟩ := h
  exact .of_eq (by simp)

/-- **One event** keeps what is committed exactly under the condition, and it keeps the copy of
the commit index in step. -/
theorem keepsCommitted_step_iff (n : Node) (event : NodeEvent) (hsame : event.isRestart = false)
    (hpublished : n.shared.publishedCommitIndex = n.shared.commitIndex) :
    (KeepsCommitted n.shared (n.step event).shared ↔ n.CommitsStably event) ∧
      (n.step event).shared.publishedCommitIndex = (n.step event).shared.commitIndex := by
  have hadvances : Moves n.shared (n.step event).shared → n.CommitsStably event →
      (KeepsCommitted n.shared (n.step event).shared ↔ n.CommitsStably event) ∧
        (n.step event).shared.publishedCommitIndex = (n.step event).shared.commitIndex :=
    fun h hok => ⟨iff_of_true (h.advances.keepsCommitted hpublished) hok,
      h.advances.published hpublished⟩
  cases event with
  | accept clock message =>
    obtain ⟨payload, callback⟩ := message
    rcases accept_commit clock ⟨payload, callback⟩ n.machine with
      ⟨hlate, h⟩ | ⟨request, hpayload, hrole, hlate, hsets⟩
    · refine hadvances h ?_
      cases payload with
      | appendEntries request =>
        exact fun hrole hlate' => absurd ⟨request, rfl, hrole, hlate'⟩ hlate
      | _ => trivial
    · obtain rfl : payload = .appendEntries request := hpayload
      refine ⟨(hsets.keepsCommitted_iff hpublished).trans ?_, hsets.published.trans hsets.commit.symm⟩
      exact ⟨fun hle _ _ => hle, fun h => h hrole hlate⟩
  | timeStep clock part =>
    rcases runPart_commit clock n.machine part with ⟨hnone, h⟩ | ⟨prevIndex, rfl, hsome, hcut, -⟩
    · refine hadvances h ?_
      cases part with
      | popQuorum =>
        intro prevIndex hprev
        rw [hnone rfl] at hprev
        cases hprev
      | _ => trivial
    · refine ⟨hcut.keepsCommitted_iff.trans ?_, (hcut.published.trans hpublished).trans
        hcut.commit.symm⟩
      show _ ↔ ∀ index ∈ nextTruncation n.machine, n.shared.commitIndex ≤ index
      rw [hsome]
      simp
  | respond response => exact hadvances (.of_eq ⟨rfl, rfl, rfl, rfl, rfl, rfl⟩) trivial
  | processTask => exact hadvances (Moves.of_serves n.serves_processTask) trivial
  | flush => exact hadvances (Moves.of_serves n.serves_flush) trivial
  | restart clock written accepts => cases hsame

/-! ## The result -/

omit [Capnp] in
/-- **The committed prefix is stable** in a run of one process exactly if no late heartbeat
carries a commit index below that of the follower that takes it over, and no truncation
removes a committed position. -/
theorem committed_prefix_stable_iff [Capnp] (clock : Clock) (logFile : List UInt8)
    (voteRows : List VoteRow) (identity quorumSize workers : ℕ) (accepts : ℕ → Bool)
    (events : List NodeEvent) (hsame : ∀ event ∈ events, event.isRestart = false) :
    let n := Node.start clock logFile voteRows identity quorumSize workers accepts
    (∀ before between after, events = before ++ between ++ after →
      KeepsCommitted (n.run before).shared (n.run (before ++ between)).shared) ↔
      Runs.AllSteps Node.step Node.CommitsStably n events := by
  intro n
  have hsegments := @Runs.allSteps_iff_segments _ _ Node.step
    (fun n n' => KeepsCommitted n.shared n'.shared) (fun _ => .refl _)
    (fun _ _ _ h₁ h₂ => h₁.trans h₂) events n
  refine hsegments.trans (Runs.allSteps_congr
    (fun n => n.shared.publishedCommitIndex = n.shared.commitIndex) ?_ ?_ hsame rfl)
  · exact fun n event hinv hevent _ => (keepsCommitted_step_iff n event hevent hinv).2
  · exact fun n event hinv hevent => (keepsCommitted_step_iff n event hevent hinv).1

/-- Node 3, leader of term 1, sends its no-op entry and a write, and commits the write. -/
def commitWrite : List NodeEvent :=
  [.accept ⟨1, 0⟩ appendFirstNoop, .accept ⟨2, 0⟩ appendFirstWrite,
    .accept ⟨3, 0⟩ ⟨.appendEntries ⟨1, 3, 1, 1, 0, none, 1⟩, .pending 3 2 (.appendEntries 0 0 1)⟩]

/-- Node 3 is elected again, in term 2. -/
def nextHeartbeat : NodeEvent :=
  .accept ⟨4, 0⟩ ⟨.appendEntries ⟨2, 3, 1, 1, 0, none, 1⟩, .pending 3 3 (.appendEntries 0 0 2)⟩

/-- The heartbeat it sent in term 1 before the write was committed. -/
def lateHeartbeat : NodeEvent :=
  .accept ⟨5, 0⟩ ⟨.appendEntries ⟨1, 3, 1, 1, 0, none, 0⟩, .pending 3 4 (.appendEntries 0 0 1)⟩

omit [Capnp] in
/-- A committed write stays so over the next heartbeat. -/
theorem committed_prefix_stable_write : letI := sampleCapnp
    KeepsCommitted (freshNode.run commitWrite).shared
      (freshNode.run (commitWrite ++ [nextHeartbeat])).shared :=
  letI := sampleCapnp
  (committed_prefix_stable_iff ⟨0, 0⟩ [] [] 1 2 2 (fun _ => true) (commitWrite ++ [nextHeartbeat])
    (by decide)).mpr (by decide) commitWrite [nextHeartbeat] [] rfl

omit [Capnp] in
/-- **The commit index falls**: the late heartbeat of an earlier term of the same leader sets it
back from 1 to 0. -/
theorem late_heartbeat_lowers_commit : ¬ ∀ (_ : Capnp) (events : List NodeEvent),
    (∀ event ∈ events, event.isRestart = false) →
      ∀ before between after, events = before ++ between ++ after →
        KeepsCommitted (freshNode.run before).shared (freshNode.run (before ++ between)).shared := by
  intro h
  have hkeeps := h sampleCapnp (commitWrite ++ [nextHeartbeat, lateHeartbeat]) (by decide)
    (commitWrite ++ [nextHeartbeat]) [lateHeartbeat] [] rfl
  exact absurd hkeeps.commit (by decide)

end Kraft
