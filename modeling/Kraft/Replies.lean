/-
# Responses to outstanding messages

The loops of `time_step` take the responses of the persistence worker and of the quorum workers.
Every response names a message, and all handlers treat it alike: the message is looked up and
removed, and then answered, or counted and registered again, or complete.

* `Poll` is what is counted: the votes of an election, which a candidate counts, and the copies of
  an entry, which a leader counts.  A poll is a record of the `Countdown` library.
* `Reply` is what a response says of its message.
* `Settles` lists what a reply does to the shared state, in every role, and
  `settles_handlePersistence` and `settles_handleQuorum` say that the handlers do that.
* `Turns` lists what a part of `time_step` does to the shared state (`turns_runPart`).

What the loops keep is proved from `Settles` and `Turns`, one case for each thing they can do.
-/
import Kraft.Countdown
import Kraft.StateMachine

namespace Kraft

open SharedState StateMachine

variable {msg : OutstandingMessage} {s' : SharedState} {sm : StateMachine}

/-- What is counted under a message: an election, or an entry with the write that waits for it. -/
inductive Poll
  | election
  | entry (callback : Option Callback) (index : ℕ)

/-- The role that counts. -/
def Poll.role : Poll → RaftNodeType
  | .election => .candidate
  | .entry .. => .leader

/-- The message as it is registered. -/
def Poll.messageType : Poll → Bool → ℕ → OutstandingMessageType
  | .election, stored, grants => .candidateElection stored grants
  | .entry (some callback) index, stored, grants => .writeBatch stored grants callback index
  | .entry none index, stored, grants => .noOp stored grants index

/-- What a response says of its message: the entry or the vote is on disk, a peer has voted or
refused to, or a peer has acknowledged an entry. -/
inductive Reply
  | logPersisted
  | votePersisted (term : ℕ)
  | vote (term : ℕ) (received : Bool)
  | acknowledged
  deriving DecidableEq

namespace Reply

/-- The role that counts the reply. -/
def role : Reply → RaftNodeType
  | .votePersisted _ | .vote .. => .candidate
  | .logPersisted | .acknowledged => .leader

/-- The term of the election it belongs to. -/
def term : Reply → ℕ
  | .votePersisted term | .vote term _ => term
  | .logPersisted | .acknowledged => 0

/-- The reply as the library sees it. -/
def toResponse : Reply → Countdown.Response
  | .logPersisted | .votePersisted _ => .stored
  | .vote _ received => .answer received
  | .acknowledged => .answer true

end Reply

/-- The write or no-op entry is committed. -/
def Leader.complete (index : ℕ) : Option Callback → SharedState → SharedState
  | some callback => completeWriteBatch index callback
  | none => completeNoop index

@[simp] theorem Leader.complete_unchanged (index : ℕ) (callback : Option Callback)
    (s : SharedState) : Leader.SameButCommits s (Leader.complete index callback s) ∧
      (Leader.complete index callback s).outstandingMessages = s.outstandingMessages := by
  cases callback <;> simp [complete, completeWriteBatch, completeNoop]

/-- The poll that is registered under `id`, as a node in `role` sees it. -/
def SharedState.Polls (s : SharedState) (id : ℕ) (role : RaftNodeType) (poll : Poll)
    (r : Countdown.Record) : Prop :=
  poll.role = role ∧ ∃ number, s.outstandingMessages.lookup id =
    some ⟨number, r.left, poll.messageType r.stored r.grants⟩

/-- **What a reply to message `id` does.** -/
inductive Settles (role : RaftNodeType) (reply : Reply) (id : ℕ) (s : SharedState) :
    SharedState → Prop
  | missing (hmsg : s.outstandingMessages.lookup id = none) : Settles role reply id s s
  | counted {poll : Poll} {r r' : Countdown.Record} (hpoll : s.Polls id role poll r)
      (hreply : reply.role = role)
      (hrespond : r.respond s.quorumSize reply.toResponse = .waiting r') :
      Settles role reply id s ((s.removeOutstanding id).register id r'.left
        (poll.messageType r'.stored r'.grants))
  | elected {r : Countdown.Record} (hpoll : s.Polls id role .election r)
      (hreply : reply.role = role)
      (hrespond : r.respond s.quorumSize reply.toResponse = .complete) :
      Settles role reply id s (Candidate.win (s.removeOutstanding id) reply.term)
  | completed {callback : Option Callback} {index : ℕ} {r : Countdown.Record}
      (hpoll : s.Polls id role (.entry callback index) r) (hreply : reply.role = role)
      (hrespond : r.respond s.quorumSize reply.toResponse = .complete) :
      Settles role reply id s (Leader.complete index callback (s.removeOutstanding id))
  | stored {msg : OutstandingMessage} {callback : Callback} (hrole : role ≠ .leader)
      (hreply : reply = .logPersisted) (hmsg : s.outstandingMessages.lookup id = some msg)
      (htype : msg.messageType = .appendLog callback) :
      Settles role reply id s ((s.removeOutstanding id).answer callback .ok)
  | granted {msg : OutstandingMessage} {callback : Callback}
      (hreply : reply.toResponse = .stored) (hmsg : s.outstandingMessages.lookup id = some msg)
      (htype : msg.messageType = .requestVote callback) :
      Settles role reply id s ((s.removeOutstanding id).send callback (.requestVote true))
  | passed {msg : OutstandingMessage} {callback : Callback} {term : ℕ} {received : Bool}
      (hreply : reply = .vote term received) (hmsg : s.outstandingMessages.lookup id = some msg)
      (htype : msg.messageType = .requestVote callback ∨ msg.messageType = .appendLog callback) :
      Settles role reply id s ((s.removeOutstanding id).send callback (.requestVote received))
  | dropped {msg : OutstandingMessage} (hmsg : s.outstandingMessages.lookup id = some msg)
      (hlast : ∀ poll r, s.Polls id role poll r → reply.role = role →
        r.respond s.quorumSize reply.toResponse = .dropped) :
      Settles role reply id s (s.removeOutstanding id)

namespace Settles

variable {role : RaftNodeType} {reply : Reply} {id : ℕ} {s s' : SharedState}

/-- What no reply touches. -/
theorem unchanged (h : Settles role reply id s s') :
    (s.SameSetup s' ∧ s.SameLog s') ∧ s'.persistenceWork = s.persistenceWork ∧
      s'.nextMessageId = s.nextMessageId ∧ s'.nextTerm = s.nextTerm ∧
      s'.termVotes = s.termVotes := by
  cases h <;> simp

/-- Only a candidate is elected. -/
theorem sameStanding (h : Settles role reply id s s') (hrole : role ≠ .candidate) :
    s.SameStanding s' := by
  cases h with
  | elected hpoll => exact absurd hpoll.1.symm hrole
  | _ => simp

/-- Only a leader commits. -/
theorem sameCommit (h : Settles role reply id s s') (hrole : role ≠ .leader) :
    s'.commitIndex = s.commitIndex ∧ s'.quorumWorkerTasks = s.quorumWorkerTasks := by
  cases h with
  | completed hpoll => exact absurd hpoll.1.symm hrole
  | _ => simp

/-- The message stays as it is, or it is gone, or it is counted further. -/
theorem messages (h : Settles role reply id s s') :
    s'.outstandingMessages = s.outstandingMessages ∨
      s'.outstandingMessages = s.outstandingMessages.erase id ∨
      ∃ poll r r', s.Polls id role poll r ∧ reply.role = role ∧
        r.respond s.quorumSize reply.toResponse = .waiting r' ∧
        s'.outstandingMessages = (s.outstandingMessages.erase id).insert id
          ⟨id, r'.left, poll.messageType r'.stored r'.grants⟩ := by
  cases h with
  | missing => exact Or.inl rfl
  | counted hpoll hreply hrespond =>
    exact Or.inr (Or.inr ⟨_, _, _, hpoll, hreply, hrespond, rfl⟩)
  | _ => exact Or.inr (Or.inl (by simp))

end Settles

/-! ## Polls -/

section Polls

variable {s : SharedState} {id : ℕ} {role : RaftNodeType} {poll : Poll} {r : Countdown.Record}

/-- A poll is found as it is registered. -/
theorem SharedState.Polls.of_lookup (hmsg : s.outstandingMessages.lookup id = some msg)
    (poll : Poll) {stored : Bool} {grants : ℕ}
    (htype : msg.messageType = poll.messageType stored grants) :
    s.Polls id poll.role poll ⟨stored, grants, msg.outstandingResponses⟩ :=
  ⟨rfl, msg.id, by rw [hmsg, ← htype]⟩

/-- A message tells what it counts. -/
theorem Poll.messageType_inj {poll' : Poll} {stored stored' : Bool} {grants grants' : ℕ}
    (h : poll.messageType stored grants = poll'.messageType stored' grants') :
    poll = poll' ∧ stored = stored' ∧ grants = grants' := by
  rcases poll with _ | ⟨_ | _, _⟩ <;> rcases poll' with _ | ⟨_ | _, _⟩ <;>
    simp_all [Poll.messageType]

/-- There is one poll under an id. -/
theorem SharedState.Polls.unique {poll' : Poll} {r' : Countdown.Record} (h : s.Polls id role poll r)
    (h' : s.Polls id role poll' r') : poll = poll' ∧ r = r' := by
  obtain ⟨-, number, hmsg⟩ := h
  obtain ⟨-, number', hmsg'⟩ := h'
  have heq := Option.some.inj (hmsg.symm.trans hmsg')
  obtain ⟨-, hleft, htype⟩ := OutstandingMessage.mk.inj heq
  obtain ⟨hpoll, hstored, hgrants⟩ := Poll.messageType_inj htype
  obtain ⟨stored, grants, left⟩ := r
  exact ⟨hpoll, by simp_all⟩

/-- The state once the poll has come to an outcome. -/
def Poll.settle (poll : Poll) (id term : ℕ) (s : SharedState) : Countdown.Outcome → SharedState
  | .waiting r =>
    (s.removeOutstanding id).register id r.left (poll.messageType r.stored r.grants)
  | .complete =>
    match poll with
    | .election => Candidate.win (s.removeOutstanding id) term
    | .entry callback index => Leader.complete index callback (s.removeOutstanding id)
  | .dropped => s.removeOutstanding id

/-- A reply that is counted. -/
theorem Settles.of_poll {reply : Reply} (h : s.Polls id role poll r) (hreply : reply.role = role) :
    Settles role reply id s
      (poll.settle id reply.term s (r.respond s.quorumSize reply.toResponse)) := by
  rcases hrespond : r.respond s.quorumSize reply.toResponse with r' | _ | _
  · exact .counted h hreply hrespond
  · cases poll with
    | election => exact .elected h hreply hrespond
    | entry callback index => exact .completed h hreply hrespond
  · obtain ⟨number, hmsg⟩ := h.2
    refine .dropped hmsg fun poll' r' h' _ => ?_
    rw [← (h.unique h').2, hrespond]

/-- The outcome is the one that the poll's record has. -/
theorem Settles.eq_settle {reply : Reply} (h : Settles role reply id s s')
    (hpoll : s.Polls id role poll r) (hreply : reply.role = role) :
    s' = poll.settle id reply.term s (r.respond s.quorumSize reply.toResponse) := by
  -- a message of another kind is no poll
  have hother : ∀ {msg : OutstandingMessage}, s.outstandingMessages.lookup id = some msg →
      msg.messageType = poll.messageType r.stored r.grants := by
    intro msg hmsg
    obtain ⟨-, number, hlookup⟩ := hpoll
    rw [Option.some.inj (hmsg.symm.trans hlookup)]
  have hnot : ∀ callback, poll.messageType r.stored r.grants ≠ .appendLog callback ∧
      poll.messageType r.stored r.grants ≠ .requestVote callback := by
    rcases poll with _ | ⟨_ | _, _⟩ <;> simp [Poll.messageType]
  cases h with
  | missing hmsg =>
    obtain ⟨-, number, hlookup⟩ := hpoll
    simp [hmsg] at hlookup
  | counted hpoll' _ hrespond =>
    obtain ⟨rfl, rfl⟩ := hpoll.unique hpoll'
    rw [hrespond]
    rfl
  | elected hpoll' _ hrespond | completed hpoll' _ hrespond =>
    obtain ⟨rfl, rfl⟩ := hpoll.unique hpoll'
    rw [hrespond]
    rfl
  | stored _ _ hmsg htype => exact absurd (hother hmsg ▸ htype) (hnot _).1
  | granted _ hmsg htype => exact absurd (hother hmsg ▸ htype) (hnot _).2
  | passed _ hmsg htype =>
    exact htype.elim (fun htype => absurd (hother hmsg ▸ htype) (hnot _).2)
      fun htype => absurd (hother hmsg ▸ htype) (hnot _).1
  | dropped hmsg hlast =>
    rw [hlast poll r hpoll hreply]
    rfl

/-- A reply to a message that is gone does nothing. -/
theorem Settles.eq_self {reply : Reply} (h : Settles role reply id s s')
    (hmissing : s.outstandingMessages.lookup id = none) : s' = s := by
  cases h with
  | missing => rfl
  | counted hpoll | elected hpoll | completed hpoll =>
    obtain ⟨-, number, hmsg⟩ := hpoll
    simp [hmissing] at hmsg
  | stored _ _ hmsg | granted _ hmsg | passed _ hmsg | dropped hmsg => simp [hmissing] at hmsg

/-- A reply to a message that is no poll of the role. -/
theorem Settles.of_other {reply : Reply} (hmsg : s.outstandingMessages.lookup id = some msg)
    (hother : reply.role = role → ∀ (poll : Poll) stored grants, poll.role = role →
      msg.messageType ≠ poll.messageType stored grants) :
    Settles role reply id s (s.removeOutstanding id) := by
  refine .dropped hmsg fun poll r h hreply => ?_
  obtain ⟨hrole, number, hlookup⟩ := h
  rw [hmsg] at hlookup
  refine absurd ?_ (hother hreply poll r.stored r.grants hrole)
  rw [Option.some.inj hlookup]

end Polls

/-! ## The handlers -/

/-- The acknowledgements of an entry, counted by its leader. -/
theorem Leader.handleLogPersisted_of_polls {s : SharedState} {id : ℕ} {poll : Poll}
    {r : Countdown.Record} (h : s.Polls id .leader poll r) :
    Leader.handleLogPersisted id s =
      poll.settle id 0 s (r.respond s.quorumSize .stored) := by
  obtain ⟨hrole, number, hmsg⟩ := h
  unfold Leader.handleLogPersisted
  rw [hmsg]
  rcases poll with _ | ⟨_ | callback, index⟩
  · cases hrole
  all_goals
    simp only [Poll.messageType, Countdown.Record.respond, removeOutstanding_quorumSize]
    split_ifs <;> rfl

/-- A leader counts an acknowledgement. -/
theorem Leader.handleAppendEntriesResponse_of_polls {s : SharedState} {id : ℕ} {poll : Poll}
    {r : Countdown.Record} (h : s.Polls id .leader poll r) :
    Leader.handleAppendEntriesResponse id s =
      poll.settle id 0 s (r.respond s.quorumSize (.answer true)) := by
  obtain ⟨hrole, number, hmsg⟩ := h
  unfold Leader.handleAppendEntriesResponse
  rw [hmsg]
  rcases poll with _ | ⟨_ | callback, index⟩
  · cases hrole
  all_goals
    simp only [Poll.messageType, Countdown.Record.respond, removeOutstanding_quorumSize,
      Bool.toNat_true]
    split_ifs <;> rfl

/-- An entry on disk, where it is not counted. -/
theorem Follower.settles_handleLogPersisted {role : RaftNodeType} (hrole : role ≠ .leader) (id : ℕ)
    (s : SharedState) : Settles role .logPersisted id s (Follower.handleLogPersisted id s) := by
  unfold Follower.handleLogPersisted
  split
  · next msg hmsg =>
    dsimp only
    split
    · next callback htype => exact .stored hrole rfl hmsg htype
    · exact .of_other hmsg fun hreply => absurd hreply.symm hrole
  · next hmsg => exact .missing hmsg

/-- A vote on disk, where it is not counted. -/
theorem Follower.settles_handleVotePersisted {role : RaftNodeType} (hrole : role ≠ .candidate)
    (id term : ℕ) (s : SharedState) :
    Settles role (.votePersisted term) id s (Follower.handleVotePersisted id s) := by
  unfold Follower.handleVotePersisted
  split
  · next msg hmsg =>
    dsimp only
    split
    · next callback htype => exact .granted rfl hmsg htype
    · exact .of_other hmsg fun hreply => absurd hreply.symm hrole
  · next hmsg => exact .missing hmsg

/-- The own vote of a candidate. -/
theorem Candidate.settles_handleVotePersisted (id term : ℕ) (s : SharedState) :
    Settles .candidate (.votePersisted term) id s (Candidate.handleVotePersisted id term s).2 := by
  unfold Candidate.handleVotePersisted
  split
  · next msg hmsg =>
    dsimp only
    split
    · next callback htype => exact .granted rfl hmsg htype
    · next done votes htype =>
      have hpoll := Polls.of_lookup hmsg .election htype
      have hsettles := @Settles.of_poll _ _ _ _ _ (.votePersisted term) hpoll rfl
      simp only [Countdown.Record.respond, Reply.toResponse] at hsettles
      simp only [removeOutstanding_quorumSize]
      split_ifs at hsettles ⊢ <;> exact hsettles
    · next hother =>
      refine .of_other hmsg fun _ poll stored grants hrole htype => ?_
      cases poll with
      | election => exact hother _ _ htype
      | entry => cases hrole
  · next hmsg => exact .missing hmsg

/-- The vote of a peer. -/
theorem Candidate.settles_handleVoteResponse (id term : ℕ) (received : Bool) (s : SharedState) :
    Settles .candidate (.vote term received) id s
      (Candidate.handleVoteResponse id term received s).2 := by
  unfold Candidate.handleVoteResponse
  split
  · next msg hmsg =>
    dsimp only
    split
    · next callback htype => exact .passed rfl hmsg (Or.inl htype)
    · next done votes htype =>
      have hpoll := Polls.of_lookup hmsg .election htype
      have hsettles := @Settles.of_poll _ _ _ _ _ (.vote term received) hpoll rfl
      have hcount : (if received = true then votes + 1 else votes) = votes + received.toNat := by
        cases received <;> rfl
      simp only [Countdown.Record.respond, Reply.toResponse] at hsettles
      simp only [removeOutstanding_quorumSize, hcount]
      split_ifs at hsettles ⊢ <;> exact hsettles
    · next callback htype => exact .passed rfl hmsg (Or.inr htype)
    · next hother _ =>
      refine .of_other hmsg fun _ poll stored grants hrole htype => ?_
      cases poll with
      | election => exact hother _ _ htype
      | entry => cases hrole
  · next hmsg => exact .missing hmsg

/-- A message that the leader does not count is of another type. -/
theorem messageType_ne_of_not_polls {s : SharedState} {id : ℕ}
    (hpoll : ¬∃ poll r, s.Polls id .leader poll r)
    (hmsg : s.outstandingMessages.lookup id = some msg) (poll : Poll) (stored : Bool) (grants : ℕ)
    (hrole : poll.role = .leader) : msg.messageType ≠ poll.messageType stored grants :=
  fun htype => hpoll ⟨poll, _, hrole ▸ Polls.of_lookup hmsg poll htype⟩

/-- An entry on the disk of the leader. -/
theorem Leader.settles_handleLogPersisted (id : ℕ) (s : SharedState) :
    Settles .leader .logPersisted id s (Leader.handleLogPersisted id s) := by
  by_cases hpoll : ∃ poll r, s.Polls id .leader poll r
  · obtain ⟨poll, r, hpoll⟩ := hpoll
    rw [Leader.handleLogPersisted_of_polls hpoll]
    exact .of_poll hpoll rfl
  · unfold Leader.handleLogPersisted
    split
    · next msg hmsg =>
      have hpoll' := messageType_ne_of_not_polls hpoll hmsg
      dsimp only
      split
      · next done acks callback index htype =>
        exact absurd htype (hpoll' (.entry (some callback) index) done acks rfl)
      · next callback htype => exact .granted rfl hmsg htype
      · next done acks index htype =>
        exact absurd htype (hpoll' (.entry none index) done acks rfl)
      · exact .of_other hmsg fun _ => hpoll'
    · next hmsg => exact .missing hmsg

/-- An acknowledgement. -/
theorem Leader.settles_handleAppendEntriesResponse (id : ℕ) (s : SharedState) :
    Settles .leader .acknowledged id s (Leader.handleAppendEntriesResponse id s) := by
  by_cases hpoll : ∃ poll r, s.Polls id .leader poll r
  · obtain ⟨poll, r, hpoll⟩ := hpoll
    rw [Leader.handleAppendEntriesResponse_of_polls hpoll]
    exact .of_poll hpoll rfl
  · unfold Leader.handleAppendEntriesResponse
    split
    · next msg hmsg =>
      have hpoll' := messageType_ne_of_not_polls hpoll hmsg
      dsimp only
      split
      · next done acks callback index htype =>
        exact absurd htype (hpoll' (.entry (some callback) index) done acks rfl)
      · next done acks index htype =>
        exact absurd htype (hpoll' (.entry none index) done acks rfl)
      · exact .of_other hmsg fun _ => hpoll'
    · next hmsg => exact .missing hmsg

/-! ## Elections -/

/-- The reply completes the election that is registered under `id`. -/
def Elects (reply : Reply) (id : ℕ) (s : SharedState) : Prop :=
  reply.role = .candidate ∧ ∃ r, s.Polls id .candidate .election r ∧
    r.respond s.quorumSize reply.toResponse = .complete

section Elections

variable {reply : Reply} {id : ℕ} {s s' : SharedState}

/-- A message of another kind is no election. -/
theorem not_elects (hmsg : s.outstandingMessages.lookup id = some msg)
    (htype : ∀ done votes, msg.messageType ≠ .candidateElection done votes) :
    ¬Elects reply id s := by
  rintro ⟨-, r, ⟨-, number, hlookup⟩, -⟩
  rw [hmsg] at hlookup
  exact htype r.stored r.grants (by rw [Option.some.inj hlookup]; rfl)

/-- A candidate is elected exactly by a reply that completes its election. -/
theorem Settles.standing {role : RaftNodeType} (h : Settles role reply id s s') :
    (role = .candidate ∧ Elects reply id s ∧
        s' = Candidate.win (s.removeOutstanding id) reply.term) ∨
      ¬(role = .candidate ∧ Elects reply id s) ∧ s.SameStanding s' := by
  cases h with
  | elected hpoll hreply hrespond =>
    obtain rfl : RaftNodeType.candidate = role := hpoll.1
    exact Or.inl ⟨rfl, ⟨hreply, _, hpoll, hrespond⟩, rfl⟩
  | missing hmsg =>
    refine Or.inr ⟨?_, by simp⟩
    rintro ⟨-, -, r, ⟨-, number, hlookup⟩, -⟩
    rw [hmsg] at hlookup
    cases hlookup
  | counted hpoll hreply hrespond =>
    refine Or.inr ⟨?_, by simp⟩
    rintro ⟨rfl, -, r', hpoll', hcomplete⟩
    rw [← (hpoll.unique hpoll').2, hrespond] at hcomplete
    cases hcomplete
  | completed hpoll =>
    refine Or.inr ⟨?_, by simp⟩
    rintro ⟨rfl, -⟩
    cases hpoll.1
  | stored _ _ hmsg htype =>
    exact Or.inr ⟨fun h => not_elects hmsg (by simp [htype]) h.2, by simp⟩
  | granted _ hmsg htype =>
    exact Or.inr ⟨fun h => not_elects hmsg (by simp [htype]) h.2, by simp⟩
  | passed _ hmsg htype =>
    exact Or.inr ⟨fun h => not_elects hmsg (by rcases htype with h | h <;> simp [h]) h.2, by simp⟩
  | dropped hmsg hlast =>
    refine Or.inr ⟨?_, by simp⟩
    rintro ⟨rfl, hreply, r, hpoll, hcomplete⟩
    rw [hlast _ r hpoll hreply] at hcomplete
    cases hcomplete

/-- The own vote completes an election that has its votes. -/
theorem elects_votePersisted_iff {term : ℕ} : Elects (.votePersisted term) id s ↔
    ∃ done votes, electionOf s.outstandingMessages id = some (done, votes) ∧
      s.quorumSize ≤ votes := by
  refine ⟨?_, ?_⟩
  · rintro ⟨-, r, ⟨-, number, hlookup⟩, hcomplete⟩
    exact ⟨r.stored, r.grants, by rw [electionOf, hlookup]; rfl,
      Countdown.Record.respond_eq_complete.1.mp hcomplete⟩
  · rintro ⟨done, votes, helection, hquorum⟩
    obtain ⟨msg, hlookup, htype⟩ := lookup_of_electionOf helection
    exact ⟨rfl, _, .of_lookup hlookup .election htype,
      Countdown.Record.respond_eq_complete.1.mpr hquorum⟩

/-- A vote completes an election whose own vote is on disk. -/
theorem elects_vote_iff {term : ℕ} {received : Bool} : Elects (.vote term received) id s ↔
    ∃ done votes, electionOf s.outstandingMessages id = some (done, votes) ∧
      s.quorumSize ≤ (if received then votes + 1 else votes) ∧ done = true := by
  have hcount : ∀ votes, (if received = true then votes + 1 else votes) =
      votes + received.toNat := by
    intro votes
    cases received <;> rfl
  simp only [hcount]
  refine ⟨?_, ?_⟩
  · rintro ⟨-, r, ⟨-, number, hlookup⟩, hcomplete⟩
    exact ⟨r.stored, r.grants, by rw [electionOf, hlookup]; rfl,
      (Countdown.Record.respond_eq_complete.2 received).mp hcomplete⟩
  · rintro ⟨done, votes, helection, hquorum⟩
    obtain ⟨msg, hlookup, htype⟩ := lookup_of_electionOf helection
    exact ⟨rfl, _, .of_lookup hlookup .election htype,
      (Countdown.Record.respond_eq_complete.2 received).mpr hquorum⟩

end Elections

/-! ## The two loops -/

/-- What a persistence response says, and of which message. -/
def PersistenceResponseType.reply : PersistenceResponseType → ℕ × Reply
  | .logPersisted id => (id, .logPersisted)
  | .votePersisted id term _ => (id, .votePersisted term)

/-- **One persistence response**, in any role. -/
theorem settles_handlePersistence (response : PersistenceResponseType) (sm : StateMachine) :
    Settles sm.delegate.nodeType response.reply.2 response.reply.1 sm.shared
      (sm.handlePersistence response).shared := by
  unfold StateMachine.handlePersistence
  rcases hrole : sm.delegate with timer | timeout | initialized
  · cases response with
    | logPersisted id => exact @Follower.settles_handleLogPersisted .follower nofun id _
    | votePersisted id term => exact @Follower.settles_handleVotePersisted .follower nofun id term _
  · dsimp only
    rw [StateMachine.shared_leadIf]
    cases response with
    | logPersisted id => exact @Follower.settles_handleLogPersisted .candidate nofun id _
    | votePersisted id term => exact Candidate.settles_handleVotePersisted id term _
  · cases response with
    | logPersisted id => exact Leader.settles_handleLogPersisted id _
    | votePersisted id term => exact @Follower.settles_handleVotePersisted .leader nofun id term _

/-- What a quorum response says, and of which message, to a role that listens to it. -/
def LocalQuorumTaskResponseType.reply :
    RaftNodeType → LocalQuorumTaskResponseType → Option (ℕ × Reply)
  | .candidate, .requestVoteResponse id term received => some (id, .vote term received)
  | .leader, .appendEntries id _ => some (id, .acknowledged)
  | _, _ => none

/-- A candidate listens to votes, and a leader to acknowledgements. -/
theorem LocalQuorumTaskResponseType.of_reply {role : RaftNodeType}
    {response : LocalQuorumTaskResponseType} {id : ℕ} {reply : Reply}
    (h : response.reply role = some (id, reply)) :
    (role = .candidate ∧ ∃ term received, response = .requestVoteResponse id term received ∧
        reply = .vote term received) ∨
      (role = .leader ∧ ∃ ok, response = .appendEntries id ok ∧ reply = .acknowledged) := by
  cases role <;> cases response <;> cases h
  · exact Or.inl ⟨rfl, _, _, rfl, rfl⟩
  · exact Or.inr ⟨rfl, _, rfl, rfl⟩

/-- What a quorum response does to the shared state. -/
inductive SettlesQuorum (response : LocalQuorumTaskResponseType) (sm : StateMachine) :
    SharedState → Prop
  | ignored (hnone : response.reply sm.delegate.nodeType = none) :
      SettlesQuorum response sm sm.shared
  | settled {id : ℕ} {reply : Reply} {s' : SharedState}
      (hreply : response.reply sm.delegate.nodeType = some (id, reply))
      (h : Settles sm.delegate.nodeType reply id sm.shared s') : SettlesQuorum response sm s'
  | truncated {node prevTerm prevIndex : ℕ} (hrole : sm.delegate.nodeType = .follower)
      (hresponse : response = .truncateLog node prevTerm prevIndex) :
      SettlesQuorum response sm (Follower.truncateLog sm.shared prevTerm prevIndex).bumpVersion

/-- **One quorum response**, in any role. -/
theorem settles_handleQuorum (response : LocalQuorumTaskResponseType) (sm : StateMachine) :
    SettlesQuorum response sm (sm.handleQuorum response).shared := by
  unfold StateMachine.handleQuorum
  rcases hrole : sm.delegate with timer | timeout | initialized
  · cases response with
    | truncateLog node prevTerm prevIndex => exact .truncated (by rw [hrole]; rfl) rfl
    | _ => exact .ignored (by rw [hrole]; rfl)
  · dsimp only
    rw [StateMachine.shared_leadIf]
    cases response with
    | requestVoteResponse id term received =>
      refine .settled (by rw [hrole]; rfl) ?_
      rw [hrole]
      exact Candidate.settles_handleVoteResponse id term received _
    | _ => exact .ignored (by rw [hrole]; rfl)
  · cases response with
    | appendEntries id ok =>
      refine .settled (by rw [hrole]; rfl) ?_
      rw [hrole]
      exact Leader.settles_handleAppendEntriesResponse id _
    | _ => exact .ignored (by rw [hrole]; rfl)

/-! ## The role -/

/-- What a response does to the role and the standing of a node: it elects a candidate, or neither
changes. -/
inductive Responds (reply? : Option (ℕ × Reply)) (sm : StateMachine) : StateMachine → Prop
  | elects {id : ℕ} {reply : Reply} (hreply : reply? = some (id, reply))
      (hrole : sm.delegate.nodeType = .candidate) (helects : Elects reply id sm.shared) :
      Responds reply? sm
        ⟨newLeader, Candidate.win (sm.shared.removeOutstanding id) reply.term, []⟩
  | stays {sm' : StateMachine}
      (hnot : ∀ id reply, reply? = some (id, reply) → sm.delegate.nodeType = .candidate →
        ¬Elects reply id sm.shared)
      (hdelegate : sm'.delegate = sm.delegate) (hstanding : sm.shared.SameStanding sm'.shared) :
      Responds reply? sm sm'

/-- Only a candidate changes its role on a response. -/
theorem Responds.delegate_eq {reply? : Option (ℕ × Reply)} {sm' : StateMachine}
    (h : Responds reply? sm sm') (hrole : sm.delegate.nodeType ≠ .candidate) :
    sm'.delegate = sm.delegate := by
  cases h with
  | elects _ hcandidate => exact absurd hcandidate hrole
  | stays _ hdelegate => exact hdelegate

/-- A candidate's handler says whether the reply completes the election. -/
theorem Candidate.elected_handleVotePersisted (id term : ℕ) (s : SharedState) :
    (Candidate.handleVotePersisted id term s).1 = true ↔ Elects (.votePersisted term) id s := by
  rw [elects_votePersisted_iff]
  unfold Candidate.handleVotePersisted electionOf
  rcases s.outstandingMessages.lookup id with _ | ⟨_, _, type⟩
  · simp
  · cases type with
    | candidateElection done votes =>
      dsimp only
      split_ifs with hquorum <;> simpa using hquorum
    | _ => simp

theorem Candidate.elected_handleVoteResponse (id term : ℕ) (received : Bool) (s : SharedState) :
    (Candidate.handleVoteResponse id term received s).1 = true ↔
      Elects (.vote term received) id s := by
  rw [elects_vote_iff]
  unfold Candidate.handleVoteResponse electionOf
  rcases s.outstandingMessages.lookup id with _ | ⟨_, _, type⟩
  · simp
  · cases type with
    | candidateElection done votes =>
      by_cases hquorum : s.quorumSize ≤ (if received = true then votes + 1 else votes) ∧ done = true
      · simp [hquorum]
      · simp only [removeOutstanding_quorumSize]
        rw [if_neg hquorum]
        refine iff_of_false (by split_ifs <;> simp) ?_
        rintro ⟨_, _, heq, hcomplete⟩
        cases heq
        exact hquorum hcomplete
    | _ => simp

theorem Responds.of_leadIf {reply : Reply} {id timeout : ℕ} {result : Bool × SharedState}
    (hrole : sm.delegate = .candidate timeout)
    (hsettles : Settles .candidate reply id sm.shared result.2)
    (helected : result.1 = true ↔ Elects reply id sm.shared) :
    Responds (some (id, reply)) sm (sm.leadIf result) := by
  unfold leadIf
  rcases hsettles.standing with ⟨-, helects, hwin⟩ | ⟨hnot, hstanding⟩
  · rw [if_pos (helected.mpr helects), hwin]
    exact .elects rfl (by rw [hrole]; rfl) helects
  · have hnot : ¬Elects reply id sm.shared := fun helects => hnot ⟨rfl, helects⟩
    rw [if_neg fun h => hnot (helected.mp h)]
    refine .stays (fun id' reply' heq _ => ?_) rfl hstanding
    cases heq
    exact hnot

/-- Only a candidate is elected. -/
theorem Responds.of_not_candidate {reply? : Option (ℕ × Reply)} {sm' : StateMachine}
    (hrole : sm.delegate.nodeType ≠ .candidate) (hdelegate : sm'.delegate = sm.delegate)
    (hstanding : sm.shared.SameStanding sm'.shared) : Responds reply? sm sm' :=
  .stays (fun _ _ _ h => absurd h hrole) hdelegate hstanding

/-- **One persistence response.** -/
theorem responds_handlePersistence (response : PersistenceResponseType) (sm : StateMachine) :
    Responds (some response.reply) sm (sm.handlePersistence response) := by
  have hsettles := settles_handlePersistence response sm
  unfold StateMachine.handlePersistence at hsettles ⊢
  rcases hrole : sm.delegate with timer | timeout | initialized
  · rw [hrole] at hsettles
    exact .of_not_candidate (by rw [hrole]; nofun) hrole.symm (hsettles.sameStanding nofun)
  · rw [hrole] at hsettles
    dsimp only at hsettles ⊢
    rw [shared_leadIf] at hsettles
    refine .of_leadIf hrole hsettles ?_
    cases response with
    | logPersisted id => exact iff_of_false nofun fun h => nomatch h.1
    | votePersisted id term => exact Candidate.elected_handleVotePersisted id term sm.shared
  · rw [hrole] at hsettles
    exact .of_not_candidate (by rw [hrole]; nofun) hrole.symm (hsettles.sameStanding nofun)

/-- **One quorum response.** -/
theorem responds_handleQuorum (response : LocalQuorumTaskResponseType) (sm : StateMachine) :
    Responds (response.reply sm.delegate.nodeType) sm (sm.handleQuorum response) := by
  unfold StateMachine.handleQuorum
  rcases hrole : sm.delegate with timer | timeout | initialized
  · refine .of_not_candidate (by rw [hrole]; nofun) hrole.symm ?_
    cases response <;> simp [Follower.handleQuorum]
  · cases response with
    | requestVoteResponse id term received =>
      exact .of_leadIf hrole (Candidate.settles_handleVoteResponse id term received sm.shared)
        (Candidate.elected_handleVoteResponse id term received sm.shared)
    | _ => exact .stays nofun rfl ⟨rfl, rfl, rfl, rfl⟩
  · refine .of_not_candidate (by rw [hrole]; nofun) hrole.symm ?_
    cases response <;> simp [Leader.handleQuorum]

/-- The reply that a part of `time_step` takes from its queue. -/
def StateMachine.nextReply (sm : StateMachine) : TimeStepPart → Option (ℕ × Reply)
  | .popPersistence => sm.shared.persistenceResponse.head?.map (·.reply)
  | .popQuorum => sm.shared.quorumResponse.head?.bind (·.reply sm.delegate.nodeType)
  | _ => none

/-- The state machine without it. -/
def StateMachine.dropReply (sm : StateMachine) : TimeStepPart → StateMachine
  | .popPersistence => sm.dropPersistence sm.shared.persistenceResponse.tail
  | .popQuorum => sm.dropQuorum sm.shared.quorumResponse.tail
  | _ => sm

/-- **One iteration of a loop of `time_step`.** -/
theorem responds_runPart (clock : Clock) (sm : StateMachine) {part : TimeStepPart}
    (hpart : part = .popPersistence ∨ part = .popQuorum) :
    Responds (sm.nextReply part) (sm.dropReply part) (sm.runPart clock part) := by
  -- a leader that has not taken office waits
  have hwaits : ¬sm.ready = true → Responds (sm.nextReply part) (sm.dropReply part) sm := by
    intro hready
    have hrole : sm.delegate.nodeType ≠ .candidate := fun hrole => hready <| by
      rcases hdelegate : sm.delegate with _ | _ | _ <;> simp_all [ready]
    rcases hpart with rfl | rfl <;> exact .of_not_candidate hrole rfl ⟨rfl, rfl, rfl, rfl⟩
  rcases hpart with rfl | rfl
  · show Responds _ _ sm.popPersistence
    unfold popPersistence
    rcases hqueue : sm.shared.persistenceResponse with _ | ⟨response, rest⟩
    · exact .stays (by simp [nextReply, hqueue]) rfl ⟨rfl, rfl, rfl, rfl⟩
    · dsimp only
      split_ifs with hready
      · have hresponds := responds_handlePersistence response (sm.dropPersistence rest)
        simpa [nextReply, dropReply, hqueue] using hresponds
      · exact hwaits hready
  · show Responds _ _ sm.popQuorum
    unfold popQuorum
    rcases hqueue : sm.shared.quorumResponse with _ | ⟨response, rest⟩
    · exact .stays (by simp [nextReply, hqueue]) rfl ⟨rfl, rfl, rfl, rfl⟩
    · dsimp only
      split_ifs with hready
      · have hresponds := responds_handleQuorum response (sm.dropQuorum rest)
        simpa [nextReply, dropReply, hqueue] using hresponds
      · exact hwaits hready

/-- A part completes the election that its reply completes. -/
theorem completedElection_eq_some_iff {part : TimeStepPart} {term : ℕ} :
    sm.completedElection part = some term ↔ sm.delegate.nodeType = .candidate ∧
      ∃ id reply, sm.nextReply part = some (id, reply) ∧ Elects reply id sm.shared ∧
        reply.term = term := by
  obtain ⟨delegate, s, requests⟩ := sm
  rcases delegate with timer | timeout | initialized
  · simp [completedElection]
  · cases part with
    | popPersistence =>
      rcases hqueue : s.persistenceResponse with _ | ⟨response, rest⟩
      · simp [completedElection, nextReply, hqueue]
      · cases response with
        | votePersisted id term' candidateId =>
          simp only [completedElection, nextReply, hqueue, PersistenceResponseType.reply]
          rcases helection : electionOf s.outstandingMessages id with _ | ⟨done, votes⟩
          · simp [elects_votePersisted_iff, helection]
          · cases done <;> simp [elects_votePersisted_iff, helection, Reply.term]
        | logPersisted id =>
          simp [completedElection, nextReply, hqueue, PersistenceResponseType.reply, Elects,
            Reply.role]
    | popQuorum =>
      rcases hqueue : s.quorumResponse with _ | ⟨response, rest⟩
      · simp [completedElection, nextReply, hqueue]
      · cases response with
        | requestVoteResponse id term' received =>
          simp only [completedElection, nextReply, hqueue, LocalQuorumTaskResponseType.reply]
          rcases helection : electionOf s.outstandingMessages id with _ | ⟨done, votes⟩
          · simp [elects_vote_iff, helection]
          · simp [elects_vote_iff, helection, Reply.term, and_comm]
        | _ => simp [completedElection, nextReply, hqueue, LocalQuorumTaskResponseType.reply]
    | _ => simp [completedElection, nextReply]
  · simp [completedElection]

/-! ## The parts of `time_step` -/

/-- **What a part of `time_step` does** to the shared state. -/
inductive Turns (clock : Clock) (sm : StateMachine) : TimeStepPart → SharedState → Prop
  | idle {part : TimeStepPart} (hno : sm.startsElection clock part = false) :
      Turns clock sm part sm.shared
  | office (hrole : sm.delegate.nodeType = .leader) :
      Turns clock sm .takeOffice (Leader.initializeLeadership clock sm.shared)
  | settled {part : TimeStepPart} {persistence : List PersistenceResponseType}
      {quorum : List LocalQuorumTaskResponseType} {id : ℕ} {reply : Reply} {s' : SharedState}
      (hpart : part = .popPersistence ∨ part = .popQuorum)
      (hpersistence : persistence ⊆ sm.shared.persistenceResponse)
      (hquorum : quorum ⊆ sm.shared.quorumResponse)
      (h : Settles sm.delegate.nodeType reply id
        { sm.shared with persistenceResponse := persistence, quorumResponse := quorum } s') :
      Turns clock sm part s'
  | ignored {quorum : List LocalQuorumTaskResponseType}
      (hquorum : quorum ⊆ sm.shared.quorumResponse) :
      Turns clock sm .popQuorum { sm.shared with quorumResponse := quorum }
  | truncated {quorum : List LocalQuorumTaskResponseType} {prevTerm prevIndex : ℕ}
      (hquorum : quorum ⊆ sm.shared.quorumResponse) (hrole : sm.delegate.nodeType = .follower) :
      Turns clock sm .popQuorum (Follower.truncateLog { sm.shared with quorumResponse := quorum }
        prevTerm prevIndex).bumpVersion
  | retried (hno : sm.startsElection clock .finish = false) :
      Turns clock sm .finish sm.shared.retryDeferredBroadcast
  | stood (hstarts : sm.startsElection clock .finish = true) :
      Turns clock sm .finish (Candidate.startElection sm.shared).retryDeferredBroadcast
  | repaired (hrole : sm.delegate.nodeType = .leader) : Turns clock sm .finish
      (handleBackfillRequests sm.backfillRequests sm.shared).retryDeferredBroadcast

/-- **Every part of `time_step` takes one of these turns.** -/
theorem turns_runPart (clock : Clock) (part : TimeStepPart) (sm : StateMachine) :
    Turns clock sm part (sm.runPart clock part).shared := by
  cases part with
  | takeOffice =>
    show Turns clock sm _ (sm.takeOffice clock).shared
    unfold takeOffice
    split
    · next hrole => exact .office (by rw [hrole]; rfl)
    · exact .idle (startsElection_of_ne (by simp) clock sm)
  | popPersistence =>
    show Turns clock sm _ sm.popPersistence.shared
    rcases popPersistence_cases sm with heq | ⟨response, rest, hqueue, heq⟩
    · rw [heq]
      exact .idle (startsElection_of_ne (by simp) clock sm)
    · rw [heq]
      exact .settled (Or.inl rfl) (by simp [hqueue]) (List.Subset.refl _)
        (settles_handlePersistence response (sm.dropPersistence rest))
  | popQuorum =>
    show Turns clock sm _ sm.popQuorum.shared
    rcases popQuorum_cases sm with heq | ⟨response, rest, hqueue, heq⟩
    · rw [heq]
      exact .idle (startsElection_of_ne (by simp) clock sm)
    · have hrest : rest ⊆ sm.shared.quorumResponse := by simp [hqueue]
      have hsettles := settles_handleQuorum response (sm.dropQuorum rest)
      rw [heq]
      generalize ((sm.dropQuorum rest).handleQuorum response).shared = s' at hsettles ⊢
      cases hsettles with
      | ignored => exact .ignored hrest
      | settled _ h => exact .settled (Or.inr rfl) (List.Subset.refl _) hrest h
      | truncated hrole => exact .truncated hrest hrole
  | finish =>
    show Turns clock sm _ (sm.finish clock).shared
    unfold finish
    rcases hrole : sm.delegate with timer | timeout | _ | _
    · exact .retried (startsElection_of_role sm (by simp [hrole]) clock _)
    · dsimp only
      split_ifs with hexpired
      · exact .stood (by simpa [startsElection, hrole] using hexpired)
      · exact .retried (by simpa [startsElection, hrole] using hexpired)
    · exact .idle (startsElection_of_role sm (by simp [hrole]) clock _)
    · exact .repaired (by rw [hrole]; rfl)

/-- No part changes who the node is. -/
theorem Turns.sameNode {clock : Clock} {part : TimeStepPart} (h : Turns clock sm part s') :
    s'.identity = sm.shared.identity ∧ s'.quorumSize = sm.shared.quorumSize := by
  cases h with
  | settled _ _ _ h => exact ⟨h.unchanged.1.1.1, h.unchanged.1.1.2.1⟩
  | _ => simp

end Kraft
