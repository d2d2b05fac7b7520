/-
# The votes of a node

A node commits its vote by handing an `AppendVote` task to its persistence worker, for
itself when it starts an election and for the requester when it accepts a request.
`votesCast` collects these votes along a run.

An accepted request is for a term without a recorded vote.  An election is started for
`next_term`, and the code only logs when a vote for that term is already recorded.
Recognising a leader of a lower term moves `next_term` down, so a node can vote twice
(`votes_twice`).  `vote_once` says that this is the only way within a process, and that
across restarts votes are kept as long as no `AppendVote` task is lost in the channel.
-/
import Kraft.NodeTerms

namespace Kraft

open SharedState StateMachine Storage

variable {s s' : SharedState} {n : Node} {cast : List (ℕ × ℕ)}

/-! ## Votes in a list of tasks -/

/-- The vote a task carries: the term and the candidate. -/
def PersistenceTaskType.vote : PersistenceTaskType → Option (ℕ × ℕ)
  | .appendVote _ term candidateId => some (term, candidateId)
  | _ => none

/-- The votes in a list of tasks. -/
def votesIn (tasks : List PersistenceTaskType) : List (ℕ × ℕ) :=
  tasks.filterMap PersistenceTaskType.vote

@[simp] theorem votesIn_append (tasks₁ tasks₂ : List PersistenceTaskType) :
    votesIn (tasks₁ ++ tasks₂) = votesIn tasks₁ ++ votesIn tasks₂ :=
  List.filterMap_append

theorem votesIn_cons (task : PersistenceTaskType) (rest : List PersistenceTaskType) :
    votesIn (task :: rest) = task.vote.toList ++ votesIn rest := by
  unfold votesIn
  rw [List.filterMap_cons]
  cases task.vote <;> rfl

/-- No vote is recorded and none is handed to the persistence worker. -/
def KeepsVotes (s s' : SharedState) : Prop :=
  s'.termVotes = s.termVotes ∧
    ∃ tasks, s'.persistenceWork = s.persistenceWork ++ tasks ∧ votesIn tasks = []

/-- No vote is touched. -/
theorem KeepsVotes.of_eq (hvotes : s'.termVotes = s.termVotes)
    (hwork : s'.persistenceWork = s.persistenceWork) : KeepsVotes s s' :=
  ⟨hvotes, [], by rw [hwork, List.append_nil], rfl⟩

/-- At most one vote is recorded, for a term that had none, and handed to the persistence
worker unless its channel is closed. -/
def CastsVote (s s' : SharedState) : Prop :=
  ∃ term candidateId tasks, s.termVotes.lookup term = none ∧
    s'.termVotes = s.termVotes.insert term candidateId ∧
    s'.persistenceWork = s.persistenceWork ++ tasks ∧
    (votesIn tasks = [] ∨ votesIn tasks = [(term, candidateId)])

/-! ## The handlers that cast no vote -/

/-- An AppendEntries request hands at most an entry to the disk. -/
theorem Receives.keepsVotes {role : RaftNodeType} {request : LocalAppendEntries}
    {callback : Callback} (h : Receives role request callback s s') : KeepsVotes s s' := by
  cases h with
  | unrecognised => exact .of_eq rfl rfl
  | adopted => exact .of_eq (by simp) (by simp)
  | mismatched hheeds =>
    obtain ⟨⟨-, hwork, hvotes, -⟩, -⟩ := hheeds.unchanged
    exact .of_eq hvotes hwork
  | acknowledged hheeds =>
    obtain ⟨⟨-, hwork, hvotes, -⟩, -⟩ := hheeds.unchanged
    exact .of_eq hvotes hwork
  | unstored _ hheeds =>
    obtain ⟨⟨-, hwork, hvotes, -⟩, -⟩ := hheeds.unchanged
    exact .of_eq (by simpa using hvotes) (by simpa using hwork)
  | @stored s₁ entry _ _ hheeds =>
    obtain ⟨⟨-, hwork, hvotes, -⟩, -⟩ := hheeds.unchanged
    exact ⟨by simpa using hvotes, [.appendLog s.nextMessageId entry.data request.requestId],
      by simp [hwork], rfl⟩

/-- A batch of writes. -/
theorem Leader.keepsVotes_writeBatch (clock : Clock) (batch : OwnedWriteBatch)
    (callback : Callback) (s : SharedState) :
    KeepsVotes s (Leader.writeBatch clock batch callback s) := by
  rcases Leader.writeBatch_cases clock batch callback s with ⟨-, h⟩ | ⟨-, hopen, h⟩ | ⟨-, -, h⟩
  · exact .of_eq (by simp [h]) (by simp [h])
  · exact ⟨by simp, _, by simp [h, hopen]; rfl, rfl⟩
  · exact .of_eq (by simp [h]) (by simp [h])

/-- The no-op entry of a leader. -/
theorem Leader.keepsVotes_initializeLeadership (clock : Clock) (s : SharedState) :
    KeepsVotes s (Leader.initializeLeadership clock s) := by
  refine ⟨by simp, _, by rw [Leader.initializeLeadership_eq]; simp; rfl, ?_⟩
  split_ifs <;> rfl

/-! ## The handlers that cast one -/

/-- When a vote request is accepted. -/
theorem shouldAcceptVote_eq_true {term lastLogTerm lastLogIndex : ℕ} {s : SharedState} :
    shouldAcceptVote term lastLogTerm lastLogIndex s = true ↔
      s.termVotes.lookup term = none ∧ s.currentTerm < term ∧ s.lastLogIndex ≤ lastLogIndex := by
  unfold shouldAcceptVote
  rcases s.termVotes.lookup term with _ | candidateId <;> simp

/-- A request is refused, or a vote is cast for a term that had none. -/
theorem Asked.votes {role : RaftNodeType} {request : LocalRequestVoteRequest}
    {callback : Callback} (h : Asked role request callback s s') :
    KeepsVotes s s' ∨ CastsVote s s' := by
  cases h with
  | cast _ haccept =>
    exact Or.inr ⟨request.term, request.candidateId, [_], (shouldAcceptVote_eq_true.mp haccept).1,
      rfl, rfl, Or.inr rfl⟩
  | _ => exact Or.inl (.of_eq rfl rfl)

/-- An election casts the node's own vote, provided it had none for `next_term`. -/
theorem startElection_castsVote (hfresh : s.termVotes.lookup s.nextTerm = none) :
    CastsVote s (Candidate.startElection s) := by
  refine ⟨s.nextTerm, s.identity, Candidate.ownVote s, hfresh, by simp, by simp, ?_⟩
  unfold Candidate.ownVote
  split_ifs
  · exact Or.inr rfl
  · exact Or.inl rfl

/-- **Votes of an accepted request.** -/
theorem accept_votes (clock : Clock) (message : LocalRaftMessage) (sm : StateMachine) :
    KeepsVotes sm.shared (sm.accept clock message).shared ∨
      CastsVote sm.shared (sm.accept clock message).shared := by
  unfold accept
  split
  · exact (asked_acceptRequestVote ..).votes
  · exact Or.inl (receives_acceptAppendEntries ..).keepsVotes
  · exact Or.inl (.of_eq rfl rfl)
  · unfold acceptWriteBatch
    split
    · exact Or.inl (Leader.keepsVotes_writeBatch _ _ _ _)
    · exact Or.inl (.of_eq rfl rfl)

/-- A part of `time_step` casts no vote, or stands for election. -/
theorem Turns.votes {clock : Clock} {sm : StateMachine} {part : TimeStepPart}
    (h : Turns clock sm part s') : KeepsVotes sm.shared s' ∨
      sm.startsElection clock part = true ∧
        s' = (Candidate.startElection sm.shared).retryDeferredBroadcast := by
  cases h with
  | office => exact Or.inl (Leader.keepsVotes_initializeLeadership clock sm.shared)
  | settled _ _ _ h => exact Or.inl (.of_eq h.unchanged.2.2.2.2 h.unchanged.2.1)
  | @truncated quorum prevTerm prevIndex =>
    -- a truncation hands no vote to the disk
    obtain ⟨new, hwork, hnew⟩ := Follower.persistenceWork_truncateLog
      { sm.shared with quorumResponse := quorum } prevTerm prevIndex
    refine Or.inl ⟨by simp, new, hwork, List.filterMap_eq_nil_iff.mpr fun task hmem => ?_⟩
    rw [hnew task hmem]
    rfl
  | stood hstarts => exact Or.inr ⟨hstarts, rfl⟩
  | _ => exact Or.inl (.of_eq (by simp) (by simp))

/-- Only the end of `time_step` casts votes. -/
theorem keepsVotes_runPart {part : TimeStepPart} (hpart : part ≠ .finish) (clock : Clock)
    (sm : StateMachine) : KeepsVotes sm.shared (sm.runPart clock part).shared :=
  (turns_runPart clock part sm).votes.resolve_right
    (by simp [startsElection_of_ne hpart clock sm])

/-- **Votes of a part of `time_step`**: only a started election casts one. -/
theorem runPart_votes (clock : Clock) (sm : StateMachine) (part : TimeStepPart)
    (hfresh : sm.startsElection clock part = true →
      sm.shared.termVotes.lookup sm.shared.nextTerm = none) :
    KeepsVotes sm.shared (sm.runPart clock part).shared ∨
      CastsVote sm.shared (sm.runPart clock part).shared := by
  refine (turns_runPart clock part sm).votes.imp_right fun ⟨hstarts, heq⟩ => ?_
  obtain ⟨term, candidateId, tasks, hnone, hvotes, hwork, hcast⟩ :=
    startElection_castsVote (hfresh hstarts)
  rw [heq]
  exact ⟨term, candidateId, tasks, hnone, by simpa using hvotes, by simpa using hwork, hcast⟩

/-! ## The invariant -/

/-- Where the votes cast so far are. -/
structure VoteInv (n : Node) (cast : List (ℕ × ℕ)) : Prop where
  /-- Every vote cast is remembered. -/
  recorded : ∀ v ∈ cast, n.shared.termVotes.lookup v.1 = some v.2
  /-- It is on disk, or on its way there. -/
  kept : ∀ v ∈ cast, ⟨v.1, v.2⟩ ∈ n.storage.voteRows ∨ v ∈ votesIn n.shared.persistenceWork
  /-- The disk holds nothing else, -/
  rows : ∀ row ∈ n.storage.voteRows, (row.term, row.candidateId) ∈ cast
  /-- and nothing else is on its way. -/
  pending : ∀ v ∈ votesIn n.shared.persistenceWork, v ∈ cast

/-- One vote is cast in a term. -/
theorem VoteInv.unique (h : VoteInv n cast) {term c c' : ℕ} (hc : (term, c) ∈ cast)
    (hc' : (term, c') ∈ cast) : c = c' :=
  Option.some.inj ((h.recorded _ hc).symm.trans (h.recorded _ hc'))

/-- A step of the state machine that casts at most one vote, for a term that had none. -/
theorem VoteInv.machine {n n' : Node} {cast new : List (ℕ × ℕ)} (h : VoteInv n cast)
    (hrows : n'.storage.voteRows = n.storage.voteRows)
    (hnew : new = votesIn (n'.shared.persistenceWork.drop n.shared.persistenceWork.length))
    (hvotes : KeepsVotes n.shared n'.shared ∨ CastsVote n.shared n'.shared) :
    VoteInv n' (cast ++ new) := by
  rcases hvotes with ⟨hmap, tasks, hwork, hnone⟩ | ⟨term, c, tasks, hfree, hmap, hwork, hcast⟩
  · have hnil : new = [] := by rw [hnew, hwork, List.drop_left, hnone]
    rw [hnil, List.append_nil]
    have hsame : votesIn n'.shared.persistenceWork = votesIn n.shared.persistenceWork := by
      rw [hwork, votesIn_append, hnone, List.append_nil]
    refine ⟨fun v hv => hmap ▸ h.recorded v hv, fun v hv => ?_, fun row hr => ?_, fun v hv => ?_⟩
    · rw [hrows, hsame]
      exact h.kept v hv
    · exact h.rows row (hrows ▸ hr)
    · exact h.pending v (hsame ▸ hv)
  · have hsub : ∀ v ∈ new, v = (term, c) := by
      rw [hnew, hwork, List.drop_left]
      rcases hcast with hcast | hcast <;> simp [hcast]
    have hwork' : votesIn n'.shared.persistenceWork = votesIn n.shared.persistenceWork ++ new := by
      rw [hwork, votesIn_append, hnew, hwork, List.drop_left]
    refine ⟨fun v hv => ?_, fun v hv => ?_, fun row hr => ?_, fun v hv => ?_⟩
    · rw [hmap]
      rcases List.mem_append.mp hv with hv | hv
      · have hne : v.1 ≠ term := by
          intro heq
          have := h.recorded v hv
          rw [heq, hfree] at this
          cases this
        rw [AList.lookup_insert_ne hne]
        exact h.recorded v hv
      · rw [hsub v hv, AList.lookup_insert]
    · rw [hrows, hwork']
      rcases List.mem_append.mp hv with hv | hv
      · exact (h.kept v hv).imp_right (List.mem_append_left _)
      · exact Or.inr (List.mem_append_right _ hv)
    · exact List.mem_append_left _ (h.rows row (hrows ▸ hr))
    · rw [hwork'] at hv
      rcases List.mem_append.mp hv with hv | hv
      · exact List.mem_append_left _ (h.pending v hv)
      · exact List.mem_append_right _ hv

theorem VoteInv.flush (h : VoteInv n cast) : VoteInv n.flush cast := by
  unfold Node.flush
  split_ifs
  · exact ⟨h.recorded, fun v hv => (voteRows_flushPendingLogs n.storage).symm ▸ h.kept v hv,
      fun row hr => h.rows row (voteRows_flushPendingLogs n.storage ▸ hr), h.pending⟩
  · exact h

/-! ## Runs of a node -/

section Run

variable [Capnp]

/-- The votes an event hands to the persistence worker. -/
def Node.castVotes (n : Node) (e : NodeEvent) : List (ℕ × ℕ) :=
  match e with
  | .accept .. | .timeStep .. =>
    votesIn ((n.step e).shared.persistenceWork.drop n.shared.persistenceWork.length)
  | _ => []

/-- The votes cast along a run. -/
def votesCast (n : Node) : List NodeEvent → List (ℕ × ℕ)
  | [] => []
  | e :: rest => n.castVotes e ++ votesCast (n.step e) rest

/-- What an event must not do: start an election for a term the node has already voted
in, or restart the node while a vote is still on its way to the disk. -/
def KeepsVoteLaw (n : Node) (e : NodeEvent) : Prop :=
  (n.startsElection e = true → n.shared.termVotes.lookup n.shared.nextTerm = none) ∧
    (e.isRestart = true → votesIn n.shared.persistenceWork = [])

instance (n : Node) (e : NodeEvent) : Decidable (KeepsVoteLaw n e) :=
  inferInstanceAs (Decidable (_ ∧ _))

/-- The row that a task adds. -/
theorem voteRows_storage_processTask {task : PersistenceTaskType} {st st' : Storage}
    {responses : List PersistenceResponseType}
    (h : st.processTask task = some (st', responses)) :
    st'.voteRows = st.voteRows ++ (task.vote.toList.map fun v => ⟨v.1, v.2⟩) := by
  cases task with
  | appendVote id term c =>
    obtain ⟨rfl, -⟩ := Prod.mk.inj (Option.some.inj h)
    simp [PersistenceTaskType.vote]
  | appendLog id data requestId =>
    unfold Storage.processTask at h
    dsimp only at h
    split_ifs at h
    · have hst : _ = st' := congrArg Prod.fst (Option.some.inj h)
      rw [← hst]
      simp [PersistenceTaskType.vote]
    · obtain ⟨rfl, -⟩ := Prod.mk.inj (Option.some.inj h)
      simp [PersistenceTaskType.vote]
  | truncateLog target =>
    unfold Storage.processTask at h
    obtain ⟨position, -, heq⟩ := Option.map_eq_some_iff.mp h
    obtain ⟨rfl, -⟩ := Prod.mk.inj heq
    simp [PersistenceTaskType.vote]

/-- The worker never panics on a vote. -/
theorem vote_eq_none_of_processTask {task : PersistenceTaskType} {st : Storage}
    (h : st.processTask task = none) : task.vote = none := by
  cases task with
  | appendVote id term c => cases h
  | _ => rfl

theorem VoteInv.processTask (h : VoteInv n cast) : VoteInv n.processTask cast := by
  unfold Node.processTask
  split
  · next task rest hopen hwork =>
    have hvotes : votesIn n.shared.persistenceWork = task.vote.toList ++ votesIn rest := by
      rw [hwork, votesIn_cons]
    split
    · next st responses htask =>
      have hrows := voteRows_storage_processTask htask
      refine ⟨h.recorded, fun v hv => ?_, fun row hr => ?_, fun v hv => ?_⟩
      · rcases h.kept v hv with hk | hk
        · exact Or.inl (by rw [hrows]; exact List.mem_append_left _ hk)
        · rw [hvotes] at hk
          rcases List.mem_append.mp hk with hk | hk
          · left
            rw [hrows]
            exact List.mem_append_right _ (List.mem_map.mpr ⟨v, hk, rfl⟩)
          · exact Or.inr hk
      · rw [hrows] at hr
        rcases List.mem_append.mp hr with hr | hr
        · exact h.rows row hr
        · obtain ⟨v, hv, rfl⟩ := List.mem_map.mp hr
          exact h.pending v (by rw [hvotes]; exact List.mem_append_left _ hv)
      · exact h.pending v (by rw [hvotes]; exact List.mem_append_right _ hv)
    · next htask =>
      have hsame : votesIn n.shared.persistenceWork = votesIn rest := by
        rw [hvotes, vote_eq_none_of_processTask htask]
        rfl
      exact ⟨h.recorded, fun v hv => (hsame ▸ h.kept v hv :), h.rows,
        fun v hv => h.pending v (hsame ▸ hv)⟩
  · exact h

/-- A restart with no vote on its way recovers every vote from the disk. -/
theorem VoteInv.restart (h : VoteInv n cast) (hdrained : votesIn n.shared.persistenceWork = [])
    (clock : Clock) (written : ℕ) (accepts : ℕ → Bool) :
    VoteInv (n.step (.restart clock written accepts)) cast := by
  have hrow : ∀ v ∈ cast, ⟨v.1, v.2⟩ ∈ n.storage.voteRows := by
    intro v hv
    rcases h.kept v hv with hk | hk
    · exact hk
    · rw [hdrained] at hk
      cases hk
  refine ⟨fun v hv => ?_, fun v hv => Or.inl (hrow v hv), h.rows, by simp [votesIn, Node.step,
    Node.start, Storage.createSharedState]⟩
  refine Storage.lookup_collectVotes (hrow v hv) fun row hr hterm => ?_
  have hcast : (v.1, row.candidateId) ∈ cast := hterm ▸ h.rows row hr
  exact h.unique hcast hv

/-- **One event.** -/
theorem VoteInv.step (h : VoteInv n cast) (e : NodeEvent) (hlaw : KeepsVoteLaw n e) :
    VoteInv (n.step e) (cast ++ n.castVotes e) := by
  cases e with
  | accept clock message => exact h.machine rfl rfl (accept_votes clock message n.machine)
  | timeStep clock part => exact h.machine rfl rfl (runPart_votes clock n.machine part hlaw.1)
  | respond response =>
    exact (List.append_nil cast).symm ▸ ⟨h.recorded, h.kept, h.rows, h.pending⟩
  | processTask => exact (List.append_nil cast).symm ▸ h.processTask
  | flush => exact (List.append_nil cast).symm ▸ h.flush
  | restart clock written accepts =>
    exact (List.append_nil cast).symm ▸ h.restart (hlaw.2 rfl) clock written accepts

/-- All events. -/
theorem VoteInv.run {events : List NodeEvent} : ∀ {n : Node} {cast : List (ℕ × ℕ)},
    VoteInv n cast → Runs.AllSteps Node.step KeepsVoteLaw n events →
      VoteInv (n.run events) (cast ++ votesCast n events) := by
  induction events with
  | nil => exact fun h _ => (List.append_nil _).symm ▸ h
  | cons e rest ih =>
    intro n cast h hlaw
    have := ih (h.step e hlaw.1) hlaw.2
    rwa [List.append_assoc] at this

/-- **One vote per term**, in every run of a node, restarts included, in which no election
is started for a term the node has voted in and no restart loses a vote. -/
theorem vote_once (clock : Clock) (logFile : List UInt8) (identity quorumSize workers : ℕ)
    (accepts : ℕ → Bool) (events : List NodeEvent)
    (hlaw : Runs.AllSteps Node.step KeepsVoteLaw
      (Node.start clock logFile [] identity quorumSize workers accepts) events)
    (term c c' : ℕ)
    (hc : (term, c) ∈ votesCast
      (Node.start clock logFile [] identity quorumSize workers accepts) events)
    (hc' : (term, c') ∈ votesCast
      (Node.start clock logFile [] identity quorumSize workers accepts) events) : c = c' := by
  have hstart : VoteInv (Node.start clock logFile [] identity quorumSize workers accepts) [] :=
    ⟨by simp, by simp, by simp [Node.start], by simp [votesIn, Node.start,
      Storage.createSharedState]⟩
  exact (hstart.run hlaw).unique (by simpa using hc) (by simpa using hc')

end Run

/-! ## Runs on a concrete node -/

/-- Node 1 times out and stands for term 1; then node 2 asks for its vote in term 3 and
gets it. -/
def voteForNodeTwo : List NodeEvent :=
  [.timeStep ⟨1000, 0⟩ .finish, .timeStep ⟨1000, 0⟩ .finish,
    .accept ⟨1001, 0⟩ ⟨.requestVote ⟨3, 2, 0, 0⟩, .pending 2 0 (.vote 0 3)⟩]

/-- Node 3, leader of term 1, is recognised, and with the following timeouts node 1
stands for terms 2 and 3. -/
def standAgain : List NodeEvent :=
  [.accept ⟨1002, 0⟩ ⟨.appendEntries ⟨1, 3, 0, 0, 0, none, 0⟩, .pending 3 0 (.appendEntries 0 0 0)⟩,
    .timeStep ⟨5000, 0⟩ .finish, .timeStep ⟨5000, 0⟩ .finish, .timeStep ⟨9000, 0⟩ .finish]

/-- The votes of node 1 after it has voted for node 2, with both votes on disk, a restart,
and a further timeout: itself in term 1, node 2 in term 3, itself in term 4. -/
theorem vote_once_restart : letI := sampleCapnp
    let events := voteForNodeTwo ++ [.processTask, .processTask,
      .restart ⟨2000, 0⟩ 0 (fun _ => true), .timeStep ⟨9000, 0⟩ .finish,
      .timeStep ⟨9000, 0⟩ .finish]
    votesCast freshNode events = [(1, 1), (3, 2), (4, 1)] ∧
      ∀ term c c', (term, c) ∈ votesCast freshNode events →
        (term, c') ∈ votesCast freshNode events → c = c' :=
  letI := sampleCapnp
  ⟨by decide, vote_once _ _ _ _ _ _ _ (by decide)⟩

/-- **A node votes twice in term 3**, for node 2 and for itself. -/
theorem votes_twice : ¬ ∀ (_ : Capnp) (events : List NodeEvent) (term c c' : ℕ),
    (term, c) ∈ votesCast freshNode events → (term, c') ∈ votesCast freshNode events →
      c = c' := by
  intro h
  have hsame := h sampleCapnp (voteForNodeTwo ++ standAgain) 3 2 1 (by decide) (by decide)
  cases hsame

end Kraft
