/-
# Votes and the logs behind them

A vote request carries the end of the candidate's log, its last term and last index, so that the
voter can compare it with its own.  `should_accept_vote` is given both and compares the indices
only.  `votes_up_to_date_iff` says what that leaves: a request that is not refused at once is for a
term above the current one, in which the voter has not voted, and comes from a log that is not behind
the voter's exactly if its last term is not.  In `vote_for_older_log` a leader votes for the leader
before it, whose log ends in an older term.
-/
import Kraft.LogRepresentation
import Mathlib.Data.Prod.Lex

namespace Kraft

open SharedState StateMachine

/-! ## Votes that have been cast are remembered -/

/-- Votes stay recorded, and those handed to the persistence worker are. -/
def RecordsVotes (s s' : SharedState) : Prop :=
  (∀ term ∈ s.termVotes, term ∈ s'.termVotes) ∧
    ∃ tasks, s'.persistenceWork = s.persistenceWork ++ tasks ∧
      ∀ vote ∈ votesIn tasks, vote.1 ∈ s'.termVotes

theorem KeepsVotes.recordsVotes {s s' : SharedState} (h : KeepsVotes s s') : RecordsVotes s s' := by
  obtain ⟨hvotes, tasks, hwork, hnone⟩ := h
  refine ⟨fun term hterm => hvotes ▸ hterm, tasks, hwork, fun vote hvote => ?_⟩
  rw [hnone] at hvote
  cases hvote

theorem CastsVote.recordsVotes {s s' : SharedState} (h : CastsVote s s') : RecordsVotes s s' := by
  obtain ⟨term, candidateId, tasks, -, hvotes, hwork, hcast⟩ := h
  refine ⟨fun t ht => ?_, tasks, hwork, fun vote hvote => ?_⟩
  · rw [hvotes, AList.mem_insert]
    exact Or.inr ht
  · rw [hvotes, AList.mem_insert]
    rcases hcast with hcast | hcast
    · rw [hcast] at hvote
      cases hvote
    · rw [hcast, List.mem_singleton] at hvote
      exact Or.inl (congrArg Prod.fst hvote)

/-- An election records the node's own vote, whether or not it had voted in the term. -/
theorem recordsVotes_startElection (s : SharedState) :
    RecordsVotes s (Candidate.startElection s) := by
  refine ⟨fun term hterm => ?_, Candidate.ownVote s, by simp, fun vote hvote => ?_⟩
  · simp [hterm]
  · have hown : vote = (s.nextTerm, s.identity) := by
      unfold Candidate.ownVote at hvote
      split_ifs at hvote
      · exact List.mem_singleton.mp hvote
      · cases hvote
    simp [hown]

theorem recordsVotes_runPart (clock : Clock) (sm : StateMachine) (part : TimeStepPart) :
    RecordsVotes sm.shared (sm.runPart clock part).shared := by
  by_cases hstarts : sm.startsElection clock part = true
  · obtain ⟨delegate, s, requests⟩ := sm
    rcases delegate with timer | timeout | initialized
    · cases hstarts
    · cases part with
      | finish =>
        have hexpired : Candidate.timeoutExpired timeout clock.now = true := hstarts
        obtain ⟨hkeeps, tasks, hwork, hcast⟩ := recordsVotes_startElection s
        have hshared : ((⟨.candidate timeout, s, requests⟩ : StateMachine).runPart clock
            .finish).shared = (Candidate.startElection s).retryDeferredBroadcast := by
          simp [runPart, finish, hexpired]
        rw [hshared]
        exact ⟨by simpa using hkeeps, tasks, by simpa using hwork, by simpa using hcast⟩
      | _ => cases hstarts
    · cases hstarts
  · -- every other part of `time_step` casts no vote
    rcases runPart_votes clock sm part (fun h => absurd h hstarts) with h | h
    · exact h.recordsVotes
    · exact h.recordsVotes

section Run

variable [Capnp]

/-- What one event of a process leaves recorded. -/
theorem Node.recorded_step {n : Node} {e : NodeEvent} (he : e.isRestart = false) :
    (∀ term ∈ n.shared.termVotes, term ∈ (n.step e).shared.termVotes) ∧
      ∀ vote ∈ n.castVotes e, vote.1 ∈ (n.step e).shared.termVotes := by
  have hmachine : ∀ sm : StateMachine, RecordsVotes n.shared sm.shared →
      (∀ term ∈ n.shared.termVotes, term ∈ sm.shared.termVotes) ∧
        ∀ vote ∈ votesIn (sm.shared.persistenceWork.drop n.shared.persistenceWork.length),
          vote.1 ∈ sm.shared.termVotes := by
    rintro sm ⟨hkeeps, tasks, hwork, hcast⟩
    refine ⟨hkeeps, ?_⟩
    rwa [hwork, List.drop_left]
  have hserves : ∀ sm : StateMachine, Serves n.machine sm →
      sm.shared.termVotes = n.shared.termVotes := by
    rintro sm ⟨work, isOpen, responses, rfl⟩
    rfl
  cases e with
  | accept clock message =>
    refine hmachine _ ?_
    rcases accept_votes clock message n.machine with h | h
    · exact h.recordsVotes
    · exact h.recordsVotes
  | timeStep clock part => exact hmachine _ (recordsVotes_runPart clock n.machine part)
  | respond response => exact ⟨fun _ h => h, fun _ h => nomatch h⟩
  | processTask =>
    have hsame := hserves _ n.serves_processTask
    exact ⟨fun term h => hsame.symm ▸ h, fun _ h => nomatch h⟩
  | flush =>
    have hsame := hserves _ n.serves_flush
    exact ⟨fun term h => hsame.symm ▸ h, fun _ h => nomatch h⟩
  | restart clock written accepts => cases he

/-- **A vote cast by a process stays recorded while it lives.** -/
theorem Node.recorded_run {events : List NodeEvent} (hlife : ∀ e ∈ events, e.isRestart = false) :
    ∀ n : Node, (∀ term ∈ n.shared.termVotes, term ∈ (n.run events).shared.termVotes) ∧
      ∀ vote ∈ votesCast n events, vote.1 ∈ (n.run events).shared.termVotes := by
  induction events with
  | nil => exact fun n => ⟨fun _ h => h, fun _ h => nomatch h⟩
  | cons e rest ih =>
    intro n
    obtain ⟨hfirst, hrest⟩ := List.forall_mem_cons.mp hlife
    obtain ⟨hkeeps, hcast⟩ := n.recorded_step hfirst
    obtain ⟨hkeeps', hcast'⟩ := ih hrest (n.step e)
    refine ⟨fun term h => hkeeps' term (hkeeps term h), fun vote hvote => ?_⟩
    rcases List.mem_append.mp hvote with h | h
    · exact hkeeps' _ (hcast vote h)
    · exact hcast' vote h

end Run

/-! ## Accepted requests -/

/-- `request_vote` in the current role does not reply `false` at once. -/
def AcceptsVote (request : LocalRequestVoteRequest) (callback : Callback) (sm : StateMachine) :
    Prop :=
  (sm.acceptRequestVote request callback).shared.callbackResponses ≠
    sm.shared.callbackResponses ++ [(callback, .requestVote false)]

instance (request : LocalRequestVoteRequest) (callback : Callback) (sm : StateMachine) :
    Decidable (AcceptsVote request callback sm) :=
  inferInstanceAs (Decidable (_ ≠ _))

/-- What a request must meet that gets a vote, of a voter that has cast the votes `cast`. -/
structure SoundVote (cast : List (ℕ × ℕ)) (request : LocalRequestVoteRequest) (s : SharedState) :
    Prop where
  /-- its log is not behind the voter's, -/
  upToDate : toLex (s.lastLogTerm, s.lastLogIndex) ≤ toLex (request.lastLogTerm, request.lastLogIndex)
  /-- its term is above the voter's, -/
  term : s.currentTerm < request.term
  /-- and the voter has not voted for another candidate in it, as far as it remembers -/
  recorded : ∀ c, s.termVotes.lookup request.term = some c → c = request.candidateId
  /-- or has ever voted. -/
  cast : ∀ c, (request.term, c) ∈ cast → c = request.candidateId

/-- Every role makes the check on a request that it does not refuse. -/
theorem AcceptsVote.shouldAcceptVote {request : LocalRequestVoteRequest} {callback : Callback}
    {sm : StateMachine} (h : AcceptsVote request callback sm) :
    sm.shared.termVotes.lookup request.term = none ∧ sm.shared.currentTerm < request.term ∧
      sm.shared.lastLogIndex ≤ request.lastLogIndex := by
  rw [← @shouldAcceptVote_eq_true request.term request.lastLogTerm]
  by_contra hrefuse
  refine h ?_
  rw [(asked_acceptRequestVote request callback sm).eq_of_refused (Bool.eq_false_iff.mpr hrefuse)]
  rfl

/-- **When a vote goes to a log that is not behind**: in every role, and after any life of the
process. -/
theorem votes_up_to_date_iff [Capnp] (n : Node) {events : List NodeEvent}
    (hlife : ∀ e ∈ events, e.isRestart = false) (request : LocalRequestVoteRequest)
    (callback : Callback) (haccepts : AcceptsVote request callback (n.run events).machine) :
    SoundVote (votesCast n events) request (n.run events).shared ↔
      (n.run events).shared.lastLogTerm ≤ request.lastLogTerm := by
  obtain ⟨hvotes, hterm, hindex⟩ := haccepts.shouldAcceptVote
  constructor
  · intro h
    rcases Prod.Lex.toLex_le_toLex.mp h.upToDate with hlt | ⟨heq, -⟩
    · exact hlt.le
    · exact heq.le
  · intro hle
    refine ⟨Prod.Lex.toLex_le_toLex.mpr ?_, hterm, fun c hc => ?_, fun c hc => ?_⟩
    · rcases Nat.lt_or_eq_of_le hle with hlt | heq
      · exact Or.inl hlt
      · exact Or.inr ⟨heq, hindex⟩
    · cases hvotes.symm.trans hc
    · -- a vote cast in the term would be recorded
      have hrecorded := (Node.recorded_run hlife n).2 _ hc
      rw [← AList.lookup_isSome] at hrecorded
      cases (congrArg Option.isSome hvotes).symm.trans hrecorded

/-- Node 1, which has voted for itself in term 1 and has stored two entries, is asked by node 2 for
its vote in term 2. -/
theorem votes_up_to_date_termTwo : letI := sampleCapnp
    votesCast freshNode followNodeThree = [(1, 1)] ∧
      (freshNode.run followNodeThree).shared.replicationLog = [firstNoop, firstWrite] ∧
      SoundVote (votesCast freshNode followNodeThree) ⟨2, 2, 1, 1⟩
        (freshNode.run followNodeThree).shared :=
  ⟨by decide +kernel, by decide +kernel, (@votes_up_to_date_iff sampleCapnp _ followNodeThree
    (by decide) ⟨2, 2, 1, 1⟩ (.pending 2 0 (.vote 0 2)) (by decide +kernel)).mpr (by decide +kernel)⟩

/-! ## A vote for an older log -/

/-- Node 2, which has voted for node 1, stands for term 2.  Node 3 votes for it, and node 2 takes
office. -/
def officeOfNodeTwo : List Label :=
  [.part 2 2000 .finish, .act 2 .processTask, .part 2 2001 .popPersistence, .part 3 2000 .finish,
    .act 2 (.workerTask 1 2002), .deliver 0, .act 3 (.accept ⟨2003, 0⟩), .act 3 .processTask,
    .part 3 2004 .popPersistence, .act 3 (.answer 1 0), .deliver 0, .part 2 2005 .popQuorum,
    .part 2 2006 .takeOffice]

/-- Node 1, still leader of term 1 with an entry that no one else has, follows node 2 when it gets
the entry of term 2, which it cannot store.  Then it times out and stands for term 3. -/
def nodeOneStandsAgain : List Label :=
  [.act 2 (.workerTask 0 2007), .lose 0, .act 2 (.workerTask 0 2008), .act 2 (.workerTask 0 2009),
    .deliver 0, .act 1 (.accept ⟨2010, 0⟩), .part 1 9000 .finish, .part 1 9000 .finish,
    .act 1 (.workerTask 0 9001), .act 1 (.workerTask 0 9001), .lose 0, .act 1 (.workerTask 0 9001),
    .act 1 (.workerTask 0 9001), .deliver 0]

/-- **A vote for an older log.**  The request of node 1 names term 1 and index 0 as the end of its
log.  The log of node 2 is as it should be and ends in term 2, at index 0; node 2 records a vote for
node 1 and does not refuse. -/
theorem vote_for_older_log : letI := digitCapnp
    letI := sampleAddresses
    let w := Runs.run (World.step clusterOfThree)
      (World.start clusterOfThree (fun _ => ⟨0, 0⟩) fun _ _ => true)
      (officeOfNodeOne ++ officeOfNodeTwo ++ nodeOneStandsAgain)
    (w.process 2).inbox = [⟨.requestVote ⟨3, 1, 0, 1⟩, .pending 1 1 (.vote 4 3)⟩] ∧
      (w.process 2).node.machine.delegate = .leader true ∧ LogRepresented (w.shared 2) ∧
      (w.shared 2).lastLogTerm = 2 ∧ (w.shared 2).lastLogIndex = 0 ∧
      AcceptsVote ⟨3, 1, 0, 1⟩ (.pending 1 1 (.vote 4 3)) (w.process 2).node.machine ∧
      ¬ SoundVote [] ⟨3, 1, 0, 1⟩ (w.shared 2) ∧
      ((w.step clusterOfThree (.act 2 (.accept ⟨9002, 0⟩))).shared 2).termVotes.lookup 3 = some 1 := by
  intro w
  have hlog : (w.shared 2).replicationLog = [⟨0, 2, 0, 0, 3, 2006, []⟩] := by decide +kernel
  have hends : (w.shared 2).lastLogTerm = 2 ∧ (w.shared 2).lastLogIndex = 0 := by decide +kernel
  refine ⟨by decide +kernel, by decide +kernel, ⟨?_, ?_⟩, hends.1, hends.2, by decide +kernel,
    fun h => ?_, by decide +kernel⟩
  · rw [hlog]
    exact WellFormed.nil.concat rfl rfl (Nat.zero_le 2)
  · rw [hlog, hends.1, hends.2]
    rfl
  · have hle := h.upToDate
    rw [hends.1, hends.2] at hle
    exact absurd hle (by decide)

end Kraft
