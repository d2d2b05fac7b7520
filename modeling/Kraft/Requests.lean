/-
# Requests of other nodes

What an AppendEntries and a RequestVote request do to the shared state, in the three roles.

* `Heard` and `Heeds` : when a node takes the sender of a request for its leader, and the state in
  which it then compares the request with its log.
* `Receives` lists what an AppendEntries request does, and `receives_acceptAppendEntries` says that
  the handlers do that.
* `Asked` and `asked_acceptRequestVote` are the same for RequestVote.

What the requests keep is proved from these, one case for each thing a request can do.
-/
import Kraft.StateMachine

namespace Kraft

open SharedState StateMachine

/-! ## AppendEntries -/

/-- A node takes the sender of the request for its leader. -/
def Heard (role : RaftNodeType) (request : LocalAppendEntries) (s : SharedState) : Prop :=
  match role with
  | .follower => s.currentTerm < request.term ∨ request.leaderId = s.leaderId
  | .candidate => s.currentTerm ≤ request.term
  | .leader => s.currentTerm < request.term

/-- The state in which the request is compared with the log: a follower of the sender is as it was,
any other node has recognised it, and a leader has stopped its heartbeats. -/
inductive Heeds (role : RaftNodeType) (request : LocalAppendEntries) (s : SharedState) :
    SharedState → Prop
  | follows (hrole : role = .follower) (hterm : request.term ≤ s.currentTerm)
      (hleader : request.leaderId = s.leaderId) : Heeds role request s s
  | recognises (hrole : role ≠ .leader) (hheard : Heard role request s)
      (hnew : role = .follower → s.currentTerm < request.term) :
      Heeds role request s (s.recogniseLeader request.term request.leaderId)
  | stepsDown (hrole : role = .leader) (hterm : s.currentTerm < request.term) :
      Heeds role request s (({ s.recogniseLeader request.term request.leaderId with
        nextMessageId := s.nextMessageId + 1 }).pushToQuorum (.stopHeartbeats s.nextMessageId))

/-- **What an AppendEntries request does.** -/
inductive Receives (role : RaftNodeType) (request : LocalAppendEntries) (callback : Callback)
    (s : SharedState) : SharedState → Prop
  | unrecognised (hheard : ¬Heard role request s) :
      Receives role request callback s (s.answer callback .unrecognizedLeader)
  | mismatched {s₁ : SharedState} (hheeds : Heeds role request s s₁)
      (hvalid : ¬ValidAppendEntries request s) :
      Receives role request callback s (s₁.answerWantedPreviousEntry callback)
  /-- a follower answers at once what brings nothing new, the other roles answer so in any case -/
  | acknowledged {s₁ : SharedState} (hheeds : Heeds role request s s₁)
      (hvalid : ValidAppendEntries request s)
      (hquiet : role = .follower → s.currentTerm < request.term ∧ request.entry = none ∨
        request.requestId = 0 ∧ request.term = s.currentTerm ∧
          request.commitIndex ≤ s.commitIndex) :
      Receives role request callback s (s₁.answer callback .ok)
  /-- a heartbeat with a higher commit index, or one of an earlier term -/
  | adopted (hrole : role = .follower) (hterm : request.term ≤ s.currentTerm)
      (hleader : request.leaderId = s.leaderId) (hid : request.requestId = 0)
      (hvalid : ValidAppendEntries request s)
      (hcommit : s.commitIndex < request.commitIndex ∨ request.term < s.currentTerm) :
      Receives role request callback s
        ((Follower.updateCommitIndex s request.commitIndex).answer callback .ok)
  | unstored {s₁ : SharedState} (hrole : role = .follower) (hheeds : Heeds role request s s₁)
      (hvalid : ValidAppendEntries request s)
      (hid : s.currentTerm < request.term ∧ request.entry.isSome ∨ request.requestId ≠ 0)
      (hdata : ∀ entry ∈ request.entry,
        OwnedLogEntry.fromBytes entry.data = none ∨ s.persistenceOpen = false) :
      Receives role request callback s ((Follower.note request s₁).answerWantedPreviousEntry callback)
  | stored {s₁ : SharedState} {entry : LogEntry} {owned : OwnedLogEntry} (hrole : role = .follower)
      (hheeds : Heeds role request s s₁) (hvalid : ValidAppendEntries request s)
      (hid : s.currentTerm < request.term ∨ request.requestId ≠ 0)
      (hentry : request.entry = some entry)
      (hdata : OwnedLogEntry.fromBytes entry.data = some owned) (hopen : s.persistenceOpen = true) :
      Receives role request callback s
        (Follower.store s.nextMessageId entry.data owned request callback (Follower.note request s₁))

namespace Heeds

variable {role : RaftNodeType} {request : LocalAppendEntries} {s s₁ : SharedState}

theorem heard (h : Heeds role request s s₁) : Heard role request s := by
  cases h with
  | follows hrole _ hleader =>
    subst hrole
    exact Or.inr hleader
  | recognises _ hheard => exact hheard
  | stepsDown hrole hterm =>
    subst hrole
    exact hterm

/-- What recognising a leader leaves alone. -/
theorem unchanged (h : Heeds role request s s₁) :
    ((s.SameSetup s₁ ∧ s.SameLog s₁) ∧ s₁.persistenceWork = s.persistenceWork ∧
      s₁.termVotes = s.termVotes ∧ s₁.callbackResponses = s.callbackResponses ∧
      s₁.outstandingMessages = s.outstandingMessages) ∧
    s.SameCommit s₁ ∧ s.nextMessageId ≤ s₁.nextMessageId := by
  cases h <;> simp

/-- Only a leader has heartbeats to stop. -/
theorem sameTasks (h : Heeds role request s s₁) (hrole : role ≠ .leader) :
    s₁.quorumWorkerTasks = s.quorumWorkerTasks ∧ s₁.nextMessageId = s.nextMessageId := by
  cases h with
  | stepsDown hleader => exact absurd hleader hrole
  | _ => exact ⟨rfl, rfl⟩

/-- A follower of the sender is as it was. -/
theorem eq_of_le (h : Heeds .follower request s s₁) (hterm : request.term ≤ s.currentTerm) :
    s₁ = s := by
  cases h with
  | follows => rfl
  | recognises _ _ hnew => exact absurd (hnew rfl) (Nat.not_lt.mpr hterm)
  | stepsDown hrole => cases hrole

/-- The sender is the leader. -/
theorem standing (h : Heeds role request s s₁) : s₁.leaderId = request.leaderId ∧
    s₁.currentTerm = max s.currentTerm request.term := by
  cases h with
  | follows _ hterm hleader => exact ⟨hleader.symm, (max_eq_left hterm).symm⟩
  | recognises _ hheard hnew =>
    refine ⟨rfl, (max_eq_right ?_).symm⟩
    cases role with
    | follower => exact Nat.le_of_lt (hnew rfl)
    | candidate => exact hheard
    | leader => exact Nat.le_of_lt hheard
  | stepsDown _ hterm => exact ⟨rfl, (max_eq_right (Nat.le_of_lt hterm)).symm⟩

end Heeds

/-- A recognised request whose entry is looked at. -/
theorem Receives.of_applyLogEntry {request : LocalAppendEntries} {s s₁ : SharedState}
    (callback : Callback) (hheeds : Heeds .follower request s s₁)
    (hvalid : ValidAppendEntries request s)
    (hid : s.currentTerm < request.term ∧ request.entry.isSome ∨ request.requestId ≠ 0) :
    Receives .follower request callback s (Follower.applyLogEntry request callback s₁) := by
  have hopen₁ : s₁.persistenceOpen = s.persistenceOpen := hheeds.unchanged.1.1.1.2.2.1
  by_cases hrefused : ∀ entry ∈ request.entry,
      OwnedLogEntry.fromBytes entry.data = none ∨ s.persistenceOpen = false
  · rw [Follower.applyLogEntry_refused callback (by rwa [hopen₁])]
    exact .unstored rfl hheeds hvalid hid hrefused
  · push Not at hrefused
    obtain ⟨entry, hentry, hdata, hopen⟩ := hrefused
    obtain ⟨owned, howned⟩ := Option.ne_none_iff_exists'.mp hdata
    have hopen : s.persistenceOpen = true := by simpa using hopen
    rw [Follower.applyLogEntry_stored callback hentry howned (hopen₁.trans hopen),
      (hheeds.sameTasks (by simp)).2]
    exact .stored rfl hheeds hvalid (hid.imp_left And.left) hentry howned hopen

theorem Follower.receives_appendEntries (request : LocalAppendEntries) (callback : Callback)
    (s : SharedState) :
    Receives .follower request callback s (Follower.appendEntries request callback s) := by
  unfold Follower.appendEntries
  split_ifs with hnew hleader hid hvalid
  · have hheeds : Heeds .follower request s (s.recogniseLeader request.term request.leaderId) :=
      .recognises (by simp) (Or.inl hnew) fun _ => hnew
    unfold Follower.handleNewLeader
    dsimp only
    split_ifs with hvalid hentry
    · exact .of_applyLogEntry callback hheeds hvalid (Or.inl ⟨hnew, hentry⟩)
    · exact .acknowledged hheeds hvalid fun _ => Or.inl ⟨hnew, by simpa using hentry⟩
    · exact .mismatched hheeds hvalid
  · have hterm := Nat.le_of_not_lt hnew
    unfold Follower.handleHeartbeat
    dsimp only
    split_ifs with hvalid hcommit
    · exact .adopted rfl hterm hleader hid hvalid (hcommit.imp_right fun hne => by omega)
    · exact .acknowledged (.follows rfl hterm hleader) hvalid fun _ =>
        Or.inr ⟨hid, by omega, by omega⟩
    · exact .mismatched (.follows rfl hterm hleader) hvalid
  · exact .of_applyLogEntry callback (.follows rfl (Nat.le_of_not_lt hnew) hleader) hvalid
      (Or.inr hid)
  · exact .mismatched (.follows rfl (Nat.le_of_not_lt hnew) hleader) hvalid
  · exact .unrecognised fun hheard => hheard.elim hnew hleader

theorem Candidate.receives_appendEntries (request : LocalAppendEntries) (callback : Callback)
    (s : SharedState) :
    Receives .candidate request callback s (Candidate.appendEntries request callback s).2 := by
  unfold Candidate.appendEntries
  dsimp only
  split_ifs with hterm hvalid
  · exact .acknowledged (.recognises (by simp) hterm nofun) hvalid nofun
  · exact .mismatched (.recognises (by simp) hterm nofun) hvalid
  · exact .unrecognised hterm

theorem Leader.receives_appendEntries (request : LocalAppendEntries) (callback : Callback)
    (s : SharedState) :
    Receives .leader request callback s (Leader.appendEntries request callback s).2 := by
  unfold Leader.appendEntries Leader.handleNewLeader
  dsimp only
  split_ifs with hterm hvalid
  · exact .acknowledged (.stepsDown rfl hterm) hvalid nofun
  · exact .mismatched (.stepsDown rfl hterm) hvalid
  · exact .unrecognised hterm

theorem StateMachine.shared_followIf (clock : Clock) (sm : StateMachine)
    (result : Bool × SharedState) : (sm.followIf clock result).shared = result.2 := by
  unfold followIf
  split_ifs <;> rfl

/-- **AppendEntries**, in any role. -/
theorem receives_acceptAppendEntries (clock : Clock) (request : LocalAppendEntries)
    (callback : Callback) (sm : StateMachine) :
    Receives sm.delegate.nodeType request callback sm.shared
      (sm.acceptAppendEntries clock request callback).shared := by
  unfold acceptAppendEntries
  rcases sm.delegate with timer | timeout | initialized
  · exact Follower.receives_appendEntries request callback sm.shared
  · rw [shared_followIf]
    exact Candidate.receives_appendEntries request callback sm.shared
  · rw [shared_followIf]
    exact Leader.receives_appendEntries request callback sm.shared

/-- A node that takes the sender for its leader follows it, and any other node stays what it is. -/
theorem nodeType_acceptAppendEntries (clock : Clock) (request : LocalAppendEntries)
    (callback : Callback) (sm : StateMachine) :
    (Heard sm.delegate.nodeType request sm.shared ∨ sm.delegate.nodeType = .follower) ∧
        (sm.acceptAppendEntries clock request callback).delegate.nodeType = .follower ∨
      ¬Heard sm.delegate.nodeType request sm.shared ∧
        (sm.acceptAppendEntries clock request callback).delegate = sm.delegate := by
  unfold acceptAppendEntries followIf Candidate.appendEntries Leader.appendEntries
  rcases hrole : sm.delegate with timer | timeout | initialized
  · exact Or.inl ⟨Or.inr rfl, rfl⟩
  · by_cases hterm : sm.shared.currentTerm ≤ request.term
    · refine Or.inl ⟨Or.inl hterm, ?_⟩
      dsimp only
      rw [if_pos hterm]
      by_cases hvalid : ValidAppendEntries request
        (sm.shared.recogniseLeader request.term request.leaderId)
      · simp [hvalid, newFollower]
      · simp [hvalid, newFollower]
    · exact Or.inr ⟨hterm, by simp [hterm]⟩
  · by_cases hterm : sm.shared.currentTerm < request.term
    · exact Or.inl ⟨Or.inl hterm, by simp [hterm, newFollower]⟩
    · exact Or.inr ⟨hterm, by simp [hterm]⟩

/-! ## RequestVote -/

/-- **What a RequestVote request does.** -/
inductive Asked (role : RaftNodeType) (request : LocalRequestVoteRequest) (callback : Callback)
    (s : SharedState) : SharedState → Prop
  /-- a follower registers the request, and neither remembers nor stores a vote -/
  | registered (hrole : role = .follower)
      (haccept : shouldAcceptVote request.term request.lastLogTerm request.lastLogIndex s = true) :
      Asked role request callback s (({ s with
        nextTerm := max s.nextTerm (request.term + 1)
        nextMessageId := s.nextMessageId + 1 }).register s.nextMessageId 1 (.requestVote callback))
  | cast (hrole : role ≠ .follower)
      (haccept : shouldAcceptVote request.term request.lastLogTerm request.lastLogIndex s = true)
      (hopen : s.persistenceOpen = true) :
      Asked role request callback s (({ s.persist
          (.appendVote s.nextMessageId request.term request.candidateId) with
        nextTerm := max s.nextTerm (request.term + 1)
        termVotes := s.termVotes.insert request.term request.candidateId
        nextMessageId := s.nextMessageId + 1 }).register s.nextMessageId 1 (.requestVote callback))
  | refused (hrefuse : shouldAcceptVote request.term request.lastLogTerm request.lastLogIndex s =
        false ∨ role ≠ .follower ∧ s.persistenceOpen = false) :
      Asked role request callback s ({ s with
        nextTerm := max s.nextTerm (request.term + 1) }.send callback (.requestVote false))

theorem raiseNextTerm_eq (s : SharedState) (term : ℕ) :
    s.raiseNextTerm term = { s with nextTerm := max s.nextTerm (term + 1) } := by
  unfold raiseNextTerm
  split_ifs with hterm
  · rw [max_eq_right (by omega)]
  · rw [max_eq_left (by omega)]

theorem Follower.asked_requestVote (request : LocalRequestVoteRequest) (callback : Callback)
    (s : SharedState) :
    Asked .follower request callback s (Follower.requestVote request callback s) := by
  unfold Follower.requestVote
  rw [raiseNextTerm_eq]
  dsimp only
  split_ifs with haccept
  · exact .registered rfl haccept
  · exact .refused (Or.inl (Bool.eq_false_iff.mpr haccept))

theorem asked_voteFor {role : RaftNodeType} (hrole : role ≠ .follower)
    (request : LocalRequestVoteRequest) (callback : Callback) (s : SharedState) :
    Asked role request callback s (s.voteFor request callback) := by
  unfold voteFor
  rw [raiseNextTerm_eq]
  dsimp only
  split_ifs with haccept hopen
  · exact .cast hrole haccept hopen
  · exact .refused (Or.inr ⟨hrole, Bool.eq_false_iff.mpr hopen⟩)
  · exact .refused (Or.inl (Bool.eq_false_iff.mpr haccept))

/-- **RequestVote**, in any role. -/
theorem asked_acceptRequestVote (request : LocalRequestVoteRequest) (callback : Callback)
    (sm : StateMachine) : Asked sm.delegate.nodeType request callback sm.shared
      (sm.acceptRequestVote request callback).shared := by
  unfold acceptRequestVote
  rcases sm.delegate with timer | timeout | initialized
  · exact Follower.asked_requestVote request callback sm.shared
  · exact @asked_voteFor .candidate nofun request callback sm.shared
  · exact @asked_voteFor .leader nofun request callback sm.shared

/-- A request that fails the check is refused, and nothing but the next term changes. -/
theorem Asked.eq_of_refused {role : RaftNodeType} {request : LocalRequestVoteRequest}
    {callback : Callback} {s s' : SharedState} (h : Asked role request callback s s')
    (hrefuse : shouldAcceptVote request.term request.lastLogTerm request.lastLogIndex s = false) :
    s' = { s with nextTerm := max s.nextTerm (request.term + 1) }.send callback
      (.requestVote false) := by
  cases h with
  | registered _ haccept => simp [hrefuse] at haccept
  | cast _ haccept => simp [hrefuse] at haccept
  | refused => rfl

/-- No role changes on a vote request. -/
theorem delegate_acceptRequestVote (request : LocalRequestVoteRequest) (callback : Callback)
    (sm : StateMachine) : (sm.acceptRequestVote request callback).delegate = sm.delegate := by
  unfold acceptRequestVote
  split <;> rfl

end Kraft
