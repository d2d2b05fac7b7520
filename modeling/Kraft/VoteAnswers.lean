/-
# The answer to a vote request

Two questions about the answer to a vote request.

*Do the three roles answer alike?*  `request_vote` is written out three times.  Candidate and
leader are the same code; the follower's copy registers an accepted request without recording
the vote and without an `AppendVote` task.  So the roles agree exactly on the requests that
are refused (`rolesVoteAlike_iff`).

*Is a vote on disk before it counts?*  A granted vote is answered later, by whichever role
the node is in then, and several handlers look the request up by its message id.
`votes_durable` says that none of them answers before the row is in `votes.csv`, and that a
node enters the leader role only after its own row.
-/
import Kraft.VoteRecords

namespace Kraft

open SharedState StateMachine

/-! ## The three roles -/

/-- Two outcomes of a vote request that agree in all that concerns the vote. -/
structure SameVote (s s' : SharedState) : Prop where
  nextTerm : s'.nextTerm = s.nextTerm
  termVotes : s'.termVotes = s.termVotes
  persistenceWork : s'.persistenceWork = s.persistenceWork
  outstandingMessages : s'.outstandingMessages = s.outstandingMessages
  callbackResponses : s'.callbackResponses = s.callbackResponses

/-- The vote is recorded, and the one task that takes it to the disk has the id of the message
that will answer the request. -/
def RecordsVote (request : LocalRequestVoteRequest) (callback : Callback) (s s' : SharedState) :
    Prop :=
  s'.termVotes = s.termVotes.insert request.term request.candidateId ∧
    ∃ id, s'.persistenceWork = s.persistenceWork ++
        [.appendVote id request.term request.candidateId] ∧
      s'.outstandingMessages = s.outstandingMessages.insert id ⟨id, 1, .requestVote callback⟩

/-- The check that every role makes first. -/
def Accepts (request : LocalRequestVoteRequest) (s : SharedState) : Bool :=
  shouldAcceptVote request.term request.lastLogTerm request.lastLogIndex s

/-- The three roles treat the request alike, and one that is accepted is recorded. -/
def RolesVoteAlike (request : LocalRequestVoteRequest) (callback : Callback) (s : SharedState) :
    Prop :=
  SameVote (Follower.requestVote request callback s) (Candidate.requestVote request callback s) ∧
    SameVote (Candidate.requestVote request callback s) (Leader.requestVote request callback s) ∧
    (Accepts request s = true →
      RecordsVote request callback s (Follower.requestVote request callback s) ∧
      RecordsVote request callback s (Candidate.requestVote request callback s) ∧
      RecordsVote request callback s (Leader.requestVote request callback s))

/-- Candidate and leader record a vote that they accept. -/
theorem recordsVote_voteFor {request : LocalRequestVoteRequest} (callback : Callback)
    {s : SharedState} (hopen : s.persistenceOpen = true) (haccept : Accepts request s = true) :
    RecordsVote request callback s (s.voteFor request callback) := by
  have hasked := @asked_voteFor .leader nofun request callback s
  generalize s.voteFor request callback = s' at hasked ⊢
  cases hasked with
  | registered hrole => cases hrole
  | cast => exact ⟨rfl, s.nextMessageId, rfl, rfl⟩
  | refused hrefuse =>
    rcases hrefuse with hrefuse | ⟨-, hclosed⟩
    · exact absurd (haccept.symm.trans hrefuse) (by simp)
    · simp [hopen] at hclosed

/-- A follower hands no vote to the disk. -/
theorem Follower.persistenceWork_requestVote (request : LocalRequestVoteRequest)
    (callback : Callback) (s : SharedState) :
    (Follower.requestVote request callback s).persistenceWork = s.persistenceWork := by
  simp

/-- A refused request is treated alike. -/
theorem requestVote_refused {request : LocalRequestVoteRequest} (callback : Callback)
    {s : SharedState} (hrefuse : Accepts request s = false) :
    Follower.requestVote request callback s = s.voteFor request callback :=
  ((Follower.asked_requestVote request callback s).eq_of_refused hrefuse).trans
    ((@asked_voteFor .leader nofun request callback s).eq_of_refused hrefuse).symm

/-- **The roles vote alike on the requests they refuse, and on no others.** -/
theorem rolesVoteAlike_iff (request : LocalRequestVoteRequest) (callback : Callback)
    (s : SharedState) (hopen : s.persistenceOpen = true) :
    RolesVoteAlike request callback s ↔
      shouldAcceptVote request.term request.lastLogTerm request.lastLogIndex s = false := by
  constructor
  · rintro ⟨hsame, -, -⟩
    by_contra haccept
    obtain ⟨-, id, hwork, -⟩ :=
      recordsVote_voteFor callback hopen (eq_true_of_ne_false haccept)
    have hequal := hsame.persistenceWork
    rw [Follower.persistenceWork_requestVote, Candidate.requestVote, hwork] at hequal
    simp at hequal
  · intro hrefuse
    have hfollower := requestVote_refused callback hrefuse
    refine ⟨?_, ⟨rfl, rfl, rfl, rfl, rfl⟩, fun haccept => ?_⟩
    · rw [hfollower]
      exact ⟨rfl, rfl, rfl, rfl, rfl⟩
    · rw [Accepts, hrefuse] at haccept
      cases haccept

/-- A node with two entries, which has voted in term 1, refuses another request for that term,
whatever its role. -/
theorem rolesVoteAlike_votedBefore : letI := sampleCapnp
    let s := (freshNode.run followNodeThree).shared
    s.termVotes.lookup 1 = some 1 ∧ s.replicationLog = [firstNoop, firstWrite] ∧
      RolesVoteAlike ⟨1, 2, 1, 1⟩ (.pending 2 0 (.vote 0 1)) s :=
  letI := sampleCapnp
  ⟨rfl, rfl, (rolesVoteAlike_iff ⟨1, 2, 1, 1⟩ (.pending 2 0 (.vote 0 1)) _ rfl).mpr rfl⟩

/-- **The first vote request of a cluster, made to a follower, is accepted and not recorded.** -/
theorem follower_votes_unlike : ¬ ∀ (request : LocalRequestVoteRequest) (callback : Callback)
    (s : SharedState), s.persistenceOpen = true → RolesVoteAlike request callback s := by
  intro h
  let _capnp := sampleCapnp
  have hrecords := (h ⟨1, 2, 0, 0⟩ (.pending 2 0 (.vote 0 1)) freshNode.shared rfl).2.2 rfl
  have hvoted : ∅ = AList.insert 1 2 (∅ : HashMap ℕ) := hrecords.1.1
  exact absurd (congrArg (AList.lookup 1) hvoted) (by decide)

/-! ## A process and its vote requests -/

/-- A process with the vote requests it has sent, each with its id and term, and those it was
given, each with the callback that waits for the answer. -/
structure Voting where
  node : Node
  asked : List (ℕ × ℕ)
  given : List (Callback × LocalRequestVoteRequest)

namespace Voting

variable [Capnp]

/-- The vote request an event sends: the one of the election it starts. -/
def asks (n : Node) (e : NodeEvent) : List (ℕ × ℕ) :=
  if n.startsElection e then [(n.shared.nextMessageId, n.shared.nextTerm)] else []

/-- The vote request an event brings. -/
def gives : NodeEvent → List (Callback × LocalRequestVoteRequest)
  | .accept _ ⟨.requestVote request, callback⟩ => [(callback, request)]
  | _ => []

/-- One event. -/
def step (v : Voting) (e : NodeEvent) : Voting :=
  ⟨v.node.step e, v.asked ++ asks v.node e, v.given ++ gives e⟩

/-- A process starts. -/
def start (clock : Clock) (logFile : List UInt8) (rows : List VoteRow)
    (identity quorumSize workers : ℕ) (accepts : ℕ → Bool) : Voting :=
  ⟨Node.start clock logFile rows identity quorumSize workers accepts, [], []⟩

/-- The process lives on, and an answer to a vote request carries the id and the term of a
request that the process has sent. -/
def Echoes (v : Voting) : NodeEvent → Prop
  | .respond (.requestVoteResponse id term _) => (id, term) ∈ v.asked
  | .restart .. => False
  | _ => True

instance (v : Voting) : ∀ e, Decidable (v.Echoes e)
  | .respond (.requestVoteResponse id term _) =>
    decidable_of_iff (v.asked.any fun asked => asked = (id, term)) (by simp [Echoes])
  | .respond (.appendEntries ..) | .respond (.backfillLog ..) | .respond (.truncateLog ..)
  | .respond (.truncateLogResponse ..) | .accept .. | .timeStep .. | .processTask | .flush =>
    inferInstanceAs (Decidable True)
  | .restart .. => inferInstanceAs (Decidable False)

/-- Only the end of `time_step` sends vote requests. -/
theorem step_of_ne_finish (v : Voting) (clock : Clock) {part : TimeStepPart}
    (h : part ≠ .finish) : v.step (.timeStep clock part) =
      ⟨{ v.node with machine := v.node.machine.runPart clock part }, v.asked ++ [], v.given ++ []⟩ := by
  have hno : v.node.startsElection (.timeStep clock part) = false := by
    show v.node.machine.startsElection clock part = false
    unfold StateMachine.startsElection
    split
    · exact absurd rfl h
    · rfl
  unfold step asks
  rw [hno]
  rfl

/-- Ids are used for the requests sent and given, and every vote granted has a row. -/
structure Inv (use : ℕ → IdUse) (v : Voting) : Prop extends RecordInv use v.node where
  asked : ∀ request ∈ v.asked, use request.1 = .election request.2
  given : ∀ id callback term c, use id = .vote callback term c →
    ∃ request, (callback, request) ∈ v.given ∧ request.term = term ∧ request.candidateId = c
  granted : ∀ callback ∈ grantedCallbacks v.node.shared.callbackResponses,
    ∃ request, (callback, request) ∈ v.given ∧
      (request.term, request.candidateId) ∈ rowVotes v.node.storage.voteRows

namespace Inv

variable {use : ℕ → IdUse} {v : Voting}

omit [Capnp] in
/-- The state machine works on, without answering a vote request. -/
theorem frame (h : Inv use v) {first : IdUse} {n' : Node} (asks : List (ℕ × ℕ))
    (gives : List (Callback × LocalRequestVoteRequest)) (hstorage : n'.storage = v.node.storage)
    (hframe : VoteFrame first v.node.shared n'.shared)
    (hasks : ∀ request ∈ asks, request.1 = v.node.shared.nextMessageId ∧
      v.node.shared.nextMessageId < n'.shared.nextMessageId ∧ first = .election request.2)
    (hgives : ∀ callback term c, first = .vote callback term c →
      ∃ request, (callback, request) ∈ gives ∧ request.term = term ∧ request.candidateId = c) :
    ∃ use', Inv use' ⟨n', v.asked ++ asks, v.given ++ gives⟩ := by
  refine ⟨_, h.toRecordInv.frame hstorage hframe, fun request hmem => ?_,
    fun id callback term c huse => ?_, fun callback hmem => ?_⟩
  · rcases List.mem_append.mp hmem with hold | hnew
    · have hid := h.asked request hold
      rw [h.keepsUse_takeIds _ first request.1 (by simp [hid]), hid]
    · obtain ⟨hid, hlt, rfl⟩ := hasks request hnew
      rw [hid]
      exact takeIds_first hlt
  · unfold takeIds at huse
    split_ifs at huse
    · obtain ⟨request, hgiven, hrequest⟩ := h.given id callback term c huse
      exact ⟨request, List.mem_append_left _ hgiven, hrequest⟩
    · obtain ⟨request, hgiven, hrequest⟩ := hgives callback term c huse
      exact ⟨request, List.mem_append_right _ hgiven, hrequest⟩
  · rw [hframe.grants] at hmem
    obtain ⟨request, hgiven, hrow⟩ := h.granted callback hmem
    exact ⟨request, List.mem_append_left _ hgiven, hstorage ▸ hrow⟩

omit [Capnp] in
/-- A step that sends and brings no vote request, and answers those whose vote has a row. -/
theorem answering (h : Inv use v) {n' : Node} (hrecord : RecordInv use n')
    (hrows : rowVotes v.node.storage.voteRows ⊆ rowVotes n'.storage.voteRows)
    (hgrants : ∀ callback ∈ grantedCallbacks n'.shared.callbackResponses,
      callback ∈ grantedCallbacks v.node.shared.callbackResponses ∨
        ∃ request, (callback, request) ∈ v.given ∧
          (request.term, request.candidateId) ∈ rowVotes v.node.storage.voteRows) :
    Inv use ⟨n', v.asked ++ [], v.given ++ []⟩ := by
  rw [List.append_nil, List.append_nil]
  refine ⟨hrecord, h.asked, h.given, fun callback hmem => ?_⟩
  rcases hgrants callback hmem with hold | ⟨request, hgiven, hrow⟩
  · obtain ⟨request, hgiven, hrow⟩ := h.granted callback hold
    exact ⟨request, hgiven, hrows hrow⟩
  · exact ⟨request, hgiven, hrows hrow⟩

theorem accept (h : Inv use v) (clock : Clock) (message : LocalRaftMessage) :
    ∃ use', Inv use' (v.step (.accept clock message)) := by
  obtain ⟨first, hframe, hvote, -⟩ := voteFrame_accept clock message v.node.machine
  refine h.frame [] (gives (.accept clock message)) rfl hframe (by simp)
    fun callback term c hfirst => ?_
  obtain ⟨hcallback, request, hpayload, hrequest⟩ := hvote callback term c hfirst
  obtain ⟨payload, callback'⟩ := message
  subst hcallback hpayload
  exact ⟨request, by simp [gives], hrequest⟩

theorem timeStep (h : Inv use v) (clock : Clock) (part : TimeStepPart) :
    ∃ use', Inv use' (v.step (.timeStep clock part)) := by
  cases part with
  | takeOffice =>
    rw [step_of_ne_finish v clock (by simp)]
    exact h.frame [] [] rfl (voteFrame_takeOffice clock v.node.machine) (by simp)
      fun callback term c heq => by cases heq
  | popPersistence =>
    obtain ⟨hrecord, hgranted⟩ := h.popPersistence
    rw [step_of_ne_finish v clock (by simp)]
    refine ⟨use, h.answering hrecord (List.Subset.refl _) fun callback hmem => (hgranted callback hmem).imp_right ?_⟩
    rintro ⟨id, term, c, huse, hrow⟩
    obtain ⟨request, hgiven, rfl, rfl⟩ := h.given id callback term c huse
    exact ⟨request, hgiven, hrow⟩
  | popQuorum =>
    obtain ⟨hrecord, hgrants⟩ := h.popQuorum
    rw [step_of_ne_finish v clock (by simp)]
    exact ⟨use, h.answering hrecord (List.Subset.refl _) fun callback hmem => Or.inl (hgrants ▸ hmem)⟩
  | finish =>
    obtain ⟨first, hframe, hvote, hstarts, -⟩ := voteFrame_finish clock v.node.machine
    refine h.frame (asks v.node (.timeStep clock .finish)) [] rfl hframe
      (fun request hmem => ?_) fun callback term c hfirst => absurd hfirst (hvote callback term c)
    unfold asks at hmem
    split_ifs at hmem with hstart
    · obtain rfl := List.mem_singleton.mp hmem
      obtain ⟨hfirst, hlt⟩ := hstarts hstart
      exact ⟨rfl, hlt, hfirst⟩
    · cases hmem

/-- **Every event of the process keeps the invariant.** -/
theorem step (h : Inv use v) {e : NodeEvent} (hecho : v.Echoes e) :
    ∃ use', Inv use' (v.step e) := by
  cases e with
  | accept clock message => exact h.accept clock message
  | timeStep clock part => exact h.timeStep clock part
  | respond response =>
    refine ⟨use, h.answering (h.toRecordInv.arrive fun id term hmem => ?_) (List.Subset.refl _)
      fun callback => Or.inl⟩
    obtain rfl := List.mem_singleton.mp hmem
    exact h.asked (id, term) hecho
  | processTask =>
    refine ⟨use, h.answering h.toRecordInv.processTask
      (v.node.rowVotes_subset_step .processTask) fun callback hmem => Or.inl ?_⟩
    exact v.node.serves_processTask.unchanged.2.1 ▸ hmem
  | flush =>
    refine ⟨use, h.answering h.toRecordInv.flush (v.node.rowVotes_subset_step .flush)
      fun callback hmem => Or.inl ?_⟩
    exact v.node.serves_flush.unchanged.2.1 ▸ hmem
  | restart clock written accepts => exact hecho.elim

theorem start (clock : Clock) (logFile : List UInt8) (rows : List VoteRow)
    (identity quorumSize workers : ℕ) (accepts : ℕ → Bool) :
    Inv (fun _ => .unused) (start clock logFile rows identity quorumSize workers accepts) :=
  ⟨.start clock logFile rows identity quorumSize workers accepts, by rintro _ ⟨⟩,
    by rintro _ _ _ _ ⟨⟩, by rintro _ ⟨⟩⟩

end Inv

end Voting

end Kraft
