/-
# The current term of a node

`current_term` is written when a leader is recognised, always upwards, and when an
election is won.  An election record stays in `outstanding_messages` across role changes
and takes its term from the event that completes it, so a late answer can complete an
election of a term the node has long left behind (`currentTerm_can_decrease`).  That is
the only way down: `currentTerm_mono` says that in a run in which every completed
election is of a term not below the current one, the term never decreases.
-/
import Kraft.Node
import Kraft.Replies
import Kraft.Requests

namespace Kraft

open SharedState StateMachine

variable {part : TimeStepPart} {sm : StateMachine} {clock : Clock}

/-! ## AppendEntries: the larger of the two terms -/

/-- In every role the term after AppendEntries is the larger of the node's and the leader's. -/
theorem Receives.currentTerm {role : RaftNodeType} {request : LocalAppendEntries}
    {callback : Callback} {s s' : SharedState} (h : Receives role request callback s s') :
    s'.currentTerm = max s.currentTerm request.term := by
  cases h with
  | unrecognised hheard =>
    refine (max_eq_left ?_).symm
    cases role with
    | follower => exact Nat.le_of_not_lt fun hnew => hheard (Or.inl hnew)
    | candidate => exact Nat.le_of_not_le hheard
    | leader => exact Nat.le_of_not_lt hheard
  | adopted _ hterm => simp [hterm]
  | mismatched hheeds => exact hheeds.standing.2
  | acknowledged hheeds => exact hheeds.standing.2
  | unstored _ hheeds => simpa using hheeds.standing.2
  | stored _ hheeds => simpa using hheeds.standing.2

theorem currentTerm_le_accept (clock : Clock) (message : LocalRaftMessage) (sm : StateMachine) :
    sm.shared.currentTerm ≤ (sm.accept clock message).shared.currentTerm := by
  unfold accept
  split
  · unfold acceptRequestVote
    split <;> simp [Candidate.requestVote, Leader.requestVote]
  · rw [(receives_acceptAppendEntries ..).currentTerm]
    exact le_max_left _ _
  · simp
  · unfold acceptWriteBatch
    split <;> simp

/-! ## The parts of `time_step`: only a won election writes the term -/

/-- A loop of `time_step` writes the term of the election that it completes. -/
theorem currentTerm_of_responds (clock : Clock) (sm : StateMachine)
    (hpart : part = .popPersistence ∨ part = .popQuorum) :
    (sm.runPart clock part).shared.currentTerm =
      (sm.completedElection part).getD sm.shared.currentTerm := by
  have hresponds := responds_runPart clock sm hpart
  generalize sm.runPart clock part = sm' at hresponds
  cases hresponds with
  | elects hreply hrole helects =>
    have hwon : sm.completedElection part = some _ := completedElection_eq_some_iff.mpr
      ⟨by rcases hpart with rfl | rfl <;> exact hrole, _, _, hreply,
        by rcases hpart with rfl | rfl <;> exact helects, rfl⟩
    rw [hwon]
    rfl
  | stays hnot hdelegate hstanding =>
    have hnone : sm.completedElection part = none := by
      by_contra hsome
      obtain ⟨term, hterm⟩ := Option.ne_none_iff_exists'.mp hsome
      obtain ⟨hrole, id, reply, hreply, helects, -⟩ := completedElection_eq_some_iff.mp hterm
      rcases hpart with rfl | rfl <;> exact hnot id reply hreply hrole helects
    rw [hnone]
    rcases hpart with rfl | rfl <;> exact hstanding.1

/-- **The term after a part of `time_step`**: that of the election the part completes, if
it completes one, and otherwise the old one. -/
theorem currentTerm_runPart (clock : Clock) (sm : StateMachine) (part : TimeStepPart) :
    (sm.runPart clock part).shared.currentTerm =
      (sm.completedElection part).getD sm.shared.currentTerm := by
  cases part with
  | takeOffice =>
    obtain ⟨delegate, s, requests⟩ := sm
    unfold runPart takeOffice
    cases delegate with
    | leader initialized => cases initialized <;> simp [completedElection]
    | _ => simp [completedElection]
  | popPersistence => exact currentTerm_of_responds clock sm (Or.inl rfl)
  | popQuorum => exact currentTerm_of_responds clock sm (Or.inr rfl)
  | finish =>
    obtain ⟨delegate, s, requests⟩ := sm
    unfold runPart finish
    cases delegate with
    | follower timer => simp [completedElection]
    | candidate timeout =>
      simp only [completedElection]
      split_ifs <;> simp
    | leader initialized =>
      cases initialized <;> simp [completedElection]

/-! ## Only a completed election makes a leader -/

/-- The state after a won election. -/
abbrev StateMachine.elected (s : SharedState) (id term : ℕ) : StateMachine :=
  ⟨newLeader, Candidate.win (s.removeOutstanding id) term, []⟩

/-- **An election that a loop completes**: the node leads, with the term of the reply. -/
theorem runPart_of_completed (clock : Clock) {term : ℕ}
    (h : sm.completedElection part = some term) :
    sm.delegate.nodeType = .candidate ∧ ∃ id reply, sm.nextReply part = some (id, reply) ∧
      Elects reply id sm.shared ∧ reply.term = term ∧
      sm.runPart clock part = elected (sm.dropReply part).shared id term := by
  obtain ⟨hrole, id, reply, hreply, helects, rfl⟩ := completedElection_eq_some_iff.mp h
  refine ⟨hrole, id, reply, hreply, helects, rfl, ?_⟩
  have hpart : part = .popPersistence ∨ part = .popQuorum := by
    cases part <;> simp_all [nextReply]
  have hresponds := responds_runPart clock sm hpart
  generalize sm.runPart clock part = sm' at hresponds ⊢
  cases hresponds with
  | elects hreply' =>
    cases hreply.symm.trans hreply'
    rfl
  | stays hnot =>
    refine absurd ?_ (hnot id reply hreply ?_)
    · rcases hpart with rfl | rfl <;> exact helects
    · rcases hpart with rfl | rfl <;> exact hrole

/-- **An election completed by the own vote.** -/
theorem popPersistence_of_completed {term : ℕ}
    (h : sm.completedElection .popPersistence = some term) :
    ∃ id c rest done votes, sm.delegate.nodeType = .candidate ∧
      sm.shared.persistenceResponse = .votePersisted id term c :: rest ∧
      electionOf sm.shared.outstandingMessages id = some (done, votes) ∧
      sm.shared.quorumSize ≤ votes ∧
      sm.popPersistence = elected { sm.shared with persistenceResponse := rest } id term := by
  obtain ⟨hrole, id, reply, hreply, helects, rfl, heq⟩ := runPart_of_completed ⟨0, 0⟩ h
  unfold nextReply dropReply at *
  rcases hqueue : sm.shared.persistenceResponse with _ | ⟨response, rest⟩
  · rw [hqueue] at hreply
    cases hreply
  · rw [hqueue] at hreply heq
    cases response with
    | logPersisted id' =>
      cases hreply
      cases helects.1
    | votePersisted id' term' c =>
      cases hreply
      obtain ⟨done, votes, helection, hquorum⟩ := elects_votePersisted_iff.mp helects
      exact ⟨id, c, rest, done, votes, hrole, rfl, helection, hquorum, heq⟩

/-- **An election completed by the last vote.** -/
theorem popQuorum_of_completed {term : ℕ} (h : sm.completedElection .popQuorum = some term) :
    ∃ id granted rest votes, sm.delegate.nodeType = .candidate ∧
      sm.shared.quorumResponse = .requestVoteResponse id term granted :: rest ∧
      electionOf sm.shared.outstandingMessages id = some (true, votes) ∧
      sm.shared.quorumSize ≤ (if granted then votes + 1 else votes) ∧
      sm.popQuorum = elected { sm.shared with quorumResponse := rest } id term := by
  obtain ⟨hrole, id, reply, hreply, helects, rfl, heq⟩ := runPart_of_completed ⟨0, 0⟩ h
  unfold nextReply dropReply at *
  rcases hqueue : sm.shared.quorumResponse with _ | ⟨response, rest⟩
  · rw [hqueue] at hreply
    cases hreply
  · rw [hqueue] at hreply heq
    rcases LocalQuorumTaskResponseType.of_reply hreply with
      ⟨-, term, granted, rfl, rfl⟩ | ⟨-, ok, -, rfl⟩
    · obtain ⟨done, votes, helection, hquorum, rfl⟩ := elects_vote_iff.mp helects
      exact ⟨id, granted, rest, votes, hrole, rfl, helection, hquorum, heq⟩
    · cases helects.1

/-- A loop makes a leader only by completing an election. -/
theorem completedElection_of_responds (clock : Clock)
    (hpart : part = .popPersistence ∨ part = .popQuorum) (hrole : sm.delegate.nodeType ≠ .leader)
    (h : (sm.runPart clock part).delegate.nodeType = .leader) :
    ∃ term, sm.completedElection part = some term := by
  have hresponds := responds_runPart clock sm hpart
  generalize sm.runPart clock part = sm' at hresponds h
  cases hresponds with
  | elects hreply hcandidate helects =>
    exact ⟨_, completedElection_eq_some_iff.mpr
      ⟨by rcases hpart with rfl | rfl <;> exact hcandidate, _, _, hreply,
        by rcases hpart with rfl | rfl <;> exact helects, rfl⟩⟩
  | stays _ hdelegate =>
    rw [hdelegate] at h
    rcases hpart with rfl | rfl <;> exact absurd h hrole

/-- **A part of `time_step` that makes a leader completes an election.** -/
theorem completedElection_of_leads (hrole : sm.delegate.nodeType ≠ .leader)
    (h : (sm.runPart clock part).delegate.nodeType = .leader) :
    ∃ term, sm.completedElection part = some term := by
  cases part with
  | takeOffice =>
    have h : (sm.takeOffice clock).delegate.nodeType = .leader := h
    unfold takeOffice at h
    split at h
    · next hleader => exact absurd (by rw [hleader]; rfl) hrole
    · exact absurd h hrole
  | popPersistence => exact completedElection_of_responds clock (Or.inl rfl) hrole h
  | popQuorum => exact completedElection_of_responds clock (Or.inr rfl) hrole h
  | finish =>
    have h : (sm.finish clock).delegate.nodeType = .leader := h
    unfold finish at h
    split at h
    · dsimp only at h
      split_ifs at h <;> cases h
    · split_ifs at h
      · cases h
      · exact absurd h hrole
    · next hleader => exact absurd (by rw [hleader]; rfl) hrole
    · exact absurd h hrole

/-- No request makes a leader. -/
theorem nodeType_accept {message : LocalRaftMessage}
    (h : (sm.accept clock message).delegate.nodeType = .leader) :
    sm.delegate.nodeType = .leader := by
  unfold StateMachine.accept at h
  split at h
  · rwa [delegate_acceptRequestVote] at h
  · next request _ =>
    rcases nodeType_acceptAppendEntries clock request message.callback sm with
      ⟨-, hrole⟩ | ⟨-, hsame⟩
    · rw [hrole] at h
      cases h
    · rwa [hsame] at h
  · exact h
  · unfold StateMachine.acceptWriteBatch at h
    split at h <;> exact h

/-- **A node enters the leader role by completing an election, with its term.** -/
theorem completedElection_of_entersLeader [Capnp] {n : Node} {e : NodeEvent}
    (hrole : n.machine.delegate.nodeType ≠ .leader)
    (h : (n.step e).machine.delegate.nodeType = .leader) :
    n.completedElection e = some (n.step e).shared.currentTerm := by
  cases e with
  | accept clock message => exact absurd (nodeType_accept h) hrole
  | timeStep clock part =>
    have h : (n.machine.runPart clock part).delegate.nodeType = .leader := h
    obtain ⟨term, hwon⟩ := completedElection_of_leads hrole h
    show n.machine.completedElection part =
      some (n.machine.runPart clock part).shared.currentTerm
    rw [currentTerm_runPart, hwon]
    rfl
  | respond response => exact absurd h hrole
  | processTask => exact absurd (n.serves_processTask.unchanged.1 ▸ h) hrole
  | flush => exact absurd (n.serves_flush.unchanged.1 ▸ h) hrole
  | restart clock written accepts => cases h

/-! ## The next term is positive -/

/-- A recognised leader's term is followed by another. -/
theorem Receives.one_le_nextTerm {role : RaftNodeType} {request : LocalAppendEntries}
    {callback : Callback} {s s' : SharedState} (h : Receives role request callback s s')
    (hs : 1 ≤ s.nextTerm) : 1 ≤ s'.nextTerm := by
  have hheeds : ∀ {s₁}, Heeds role request s s₁ → 1 ≤ s₁.nextTerm := by
    intro s₁ h₁
    cases h₁ <;> simp [hs]
  cases h with
  | unrecognised => exact hs
  | adopted => simpa using hs
  | mismatched h₁ => simpa using hheeds h₁
  | acknowledged h₁ => simpa using hheeds h₁
  | unstored _ h₁ => simpa using hheeds h₁
  | stored _ h₁ => simpa using hheeds h₁

theorem one_le_nextTerm_accept {message : LocalRaftMessage} (h : 1 ≤ sm.shared.nextTerm) :
    1 ≤ (sm.accept clock message).shared.nextTerm := by
  unfold StateMachine.accept
  split
  · next request _ =>
    have hasked := asked_acceptRequestVote request message.callback sm
    generalize (sm.acceptRequestVote request message.callback).shared = s' at hasked ⊢
    cases hasked <;> exact h.trans (le_max_left _ _)
  · next request _ =>
    have hreceives := receives_acceptAppendEntries clock request message.callback sm
    generalize (sm.acceptAppendEntries clock request message.callback).shared = s' at hreceives ⊢
    exact hreceives.one_le_nextTerm h
  · exact h
  · unfold StateMachine.acceptWriteBatch
    split <;> simp [h]

theorem one_le_nextTerm_runPart (h : 1 ≤ sm.shared.nextTerm) :
    1 ≤ (sm.runPart clock part).shared.nextTerm := by
  have hturns := turns_runPart clock part sm
  generalize (sm.runPart clock part).shared = s' at hturns ⊢
  cases hturns with
  | settled _ _ _ hsettles => exact hsettles.unchanged.2.2.2.1.symm ▸ h
  | _ => simp [h]

/-- Every event leaves the next term positive. -/
theorem one_le_nextTerm_step [Capnp] {n : Node} {e : NodeEvent} (h : 1 ≤ n.shared.nextTerm) :
    1 ≤ (n.step e).shared.nextTerm := by
  cases e with
  | accept clock message => exact one_le_nextTerm_accept h
  | timeStep clock part => exact one_le_nextTerm_runPart h
  | respond response => exact h
  | processTask => exact n.serves_processTask.unchanged.2.2.2.1.2.2.1.symm ▸ h
  | flush => exact n.serves_flush.unchanged.2.2.2.1.2.2.1.symm ▸ h
  | restart clock written accepts => exact Nat.le_add_left 1 _

/-! ## Runs of a node -/

section Run

variable [Capnp]

/-- One event other than a restart does not lower the term, provided that an election it
completes is not of a lower term. -/
theorem currentTerm_le_step (n : Node) (e : NodeEvent) (halive : e.isRestart = false)
    (hcurrent : ∀ term ∈ n.completedElection e, n.shared.currentTerm ≤ term) :
    n.shared.currentTerm ≤ (n.step e).shared.currentTerm := by
  cases e with
  | accept clock message => exact currentTerm_le_accept clock message n.machine
  | timeStep clock part =>
    show _ ≤ (n.machine.runPart clock part).shared.currentTerm
    rw [currentTerm_runPart]
    rcases helection : n.machine.completedElection part with _ | term
    · exact le_rfl
    · exact hcurrent term helection
  | respond response => exact le_rfl
  | processTask => exact n.serves_processTask.unchanged.2.2.2.1.1.ge
  | flush => exact n.serves_flush.unchanged.2.2.2.1.1.ge
  | restart clock written accepts => cases halive

/-- **The term never decreases** along a run of one process in which every election that
completes is of a term not below the current one. -/
theorem currentTerm_mono (n : Node) (before after : List NodeEvent)
    (halive : ∀ e ∈ before ++ after, e.isRestart = false)
    (hcurrent : Runs.AllSteps Node.step
      (fun n e => ∀ term ∈ n.completedElection e, n.shared.currentTerm ≤ term) n
      (before ++ after)) :
    (n.run before).shared.currentTerm ≤ (n.run (before ++ after)).shared.currentTerm := by
  have hboth := Runs.AllSteps.and_forall_mem hcurrent halive
  rw [Node.run, Node.run, Runs.run_append]
  refine Runs.AllSteps.related (fun _ => True)
    (fun n n' : Node => n.shared.currentTerm ≤ n'.shared.currentTerm)
    (fun _ => le_rfl) (fun _ _ _ => le_trans) (fun _ _ _ _ => trivial)
    (fun n e _ h => currentTerm_le_step n e h.2 h.1) trivial
    ((Runs.allSteps_append n before after).mp hboth).2

end Run

/-! ## Runs on a concrete node -/

/-- The run in which node 1 is elected for term 1 meets the condition, and its term goes
from 0 to 1. -/
theorem currentTerm_mono_elected : letI := sampleCapnp
    (freshNode.run standForTermOne).shared.currentTerm ≤
        (freshNode.run (standForTermOne ++ receiveVote)).shared.currentTerm ∧
      (freshNode.run (standForTermOne ++ receiveVote)).shared.currentTerm = 1 :=
  ⟨@currentTerm_mono sampleCapnp _ standForTermOne receiveVote (by decide) (by decide),
    by decide⟩

/-- Node 2 is recognised as leader of term 3, and node 1 times out again. -/
def recogniseLeader : List NodeEvent :=
  [.accept ⟨1002, 0⟩ ⟨.appendEntries ⟨3, 2, 0, 0, 0, none, 0⟩, .pending 2 0 (.appendEntries 0 0 0)⟩,
    .timeStep ⟨5000, 0⟩ .finish]

/-- **A late vote lowers the term**: from 3, the term of a recognised leader, to 1. -/
theorem currentTerm_can_decrease : ¬ ∀ (_ : Capnp) (before after : List NodeEvent),
    (∀ e ∈ before ++ after, e.isRestart = false) →
      (freshNode.run before).shared.currentTerm ≤
        (freshNode.run (before ++ after)).shared.currentTerm := by
  intro h
  have hle := h sampleCapnp (standForTermOne ++ recogniseLeader) receiveVote (by decide)
  revert hle
  decide

end Kraft
