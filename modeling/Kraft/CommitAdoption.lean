/-
# How a node comes by its commit index

* `Follower.commitIndex_appendEntries` : a follower keeps its commit index or takes over that of a
  request that continues its log, together with the entry of the request or as a heartbeat.
* `commitIndex_accept`, `commitIndex_runPart` : no other request changes the commit index, and no part
  of `time_step` does but the completion of a message by a leader.
* `Hushed` : a node with commit index 0 puts nothing on the bus, although position 0 is a position of
  its log.
-/
import Kraft.AckTallies
import Kraft.CommittedPrefix

namespace Kraft

open SharedState StateMachine

/-! ## Requests -/

namespace Follower

variable (request : LocalAppendEntries) (callback : Callback) (s : SharedState)

/-- The request continues the log, and is taken for one of the leader that the follower follows. -/
structure Takes (request : LocalAppendEntries) (s : SharedState) : Prop where
  valid : ValidAppendEntries request s
  leader : s.currentTerm < request.term ∨ s.leaderId = request.leaderId

/-- **The commit index after a request.** -/
theorem commitIndex_appendEntries :
    (appendEntries request callback s).commitIndex = s.commitIndex ∨
      (appendEntries request callback s).commitIndex = request.commitIndex ∧ Takes request s ∧
        ((s.currentTerm < request.term ∨ request.requestId ≠ 0) ∧
            (∃ entry owned, request.entry = some entry ∧
              OwnedLogEntry.fromBytes entry.data = some owned ∧
              (appendEntries request callback s).replicationLog = s.replicationLog ++ [owned]) ∨
          ¬ (s.currentTerm < request.term ∨ request.requestId ≠ 0) ∧
            (appendEntries request callback s).replicationLog = s.replicationLog) := by
  have hreceives := receives_appendEntries request callback s
  generalize appendEntries request callback s = s' at hreceives ⊢
  cases hreceives with
  | unrecognised => exact Or.inl rfl
  | mismatched hheeds => exact Or.inl hheeds.unchanged.2.1.1
  | acknowledged hheeds => exact Or.inl hheeds.unchanged.2.1.1
  | adopted _ hterm hleader hid hvalid =>
    exact Or.inr ⟨by simp, ⟨hvalid, Or.inr hleader.symm⟩,
      Or.inr ⟨by simp [hid, hterm], by simp⟩⟩
  | unstored _ hheeds => exact Or.inl (by simp [hheeds.unchanged.2.1.1])
  | stored _ hheeds hvalid hid hentry hdata =>
    rcases le_total request.commitIndex s.commitIndex with hle | hle
    · exact Or.inl (by simp [hheeds.unchanged.2.1.1, hle])
    · exact Or.inr ⟨by simp [hheeds.unchanged.2.1.1, hle],
        ⟨hvalid, hheeds.heard.imp_right Eq.symm⟩, Or.inl ⟨hid, _, _, hentry, hdata,
          by simp [hheeds.unchanged.1.1.2.2.2.2]⟩⟩

end Follower

/-- **The commit index after a request**, in any role. -/
theorem commitIndex_accept (clock : Clock) (message : LocalRaftMessage) (sm : StateMachine) :
    (sm.accept clock message).shared.commitIndex = sm.shared.commitIndex ∨
      ∃ request, message.payload = .appendEntries request ∧ sm.delegate.nodeType = .follower ∧
        (sm.accept clock message).shared =
          Follower.appendEntries request message.callback sm.shared := by
  unfold StateMachine.accept
  split
  · next request _ =>
    left
    have hasked := asked_acceptRequestVote request message.callback sm
    generalize (sm.acceptRequestVote request message.callback).shared = s' at hasked ⊢
    cases hasked <;> rfl
  · next request hpayload =>
    by_cases hrole : sm.delegate.nodeType = .follower
    · obtain ⟨timer, hdelegate⟩ := Delegate.nodeType_eq_follower hrole
      exact Or.inr ⟨request, hpayload, hrole, by simp [acceptAppendEntries, hdelegate]⟩
    · left
      have hreceives := receives_acceptAppendEntries clock request message.callback sm
      generalize (sm.acceptAppendEntries clock request message.callback).shared = s'
        at hreceives ⊢
      cases hreceives with
      | unrecognised => rfl
      | mismatched hheeds => exact hheeds.unchanged.2.1.1
      | acknowledged hheeds => exact hheeds.unchanged.2.1.1
      | adopted hfollows => exact absurd hfollows hrole
      | unstored hfollows => exact absurd hfollows hrole
      | stored hfollows => exact absurd hfollows hrole
  · exact Or.inl rfl
  · left
    unfold acceptWriteBatch
    split
    · simp
    · rfl

/-! ## The parts of `time_step` -/

/-- Only a leader commits in `time_step`. -/
theorem commitIndex_runPart_of_ne (clock : Clock) {sm : StateMachine}
    (hlead : sm.delegate.nodeType ≠ .leader) (part : TimeStepPart) :
    (sm.runPart clock part).shared.commitIndex = sm.shared.commitIndex := by
  have hturns := turns_runPart clock part sm
  generalize (sm.runPart clock part).shared = s' at hturns ⊢
  cases hturns with
  | settled _ _ _ h => exact (h.sameCommit hlead).1
  | office hrole | repaired hrole => exact absurd hrole hlead
  | _ => simp

/-- **The commit index after a part of `time_step`.** -/
theorem commitIndex_runPart (clock : Clock) (sm : StateMachine) (part : TimeStepPart) :
    (sm.runPart clock part).shared.commitIndex = sm.shared.commitIndex ∨
      ∃ id index, completedMessage sm part = some (id, index) ∧ sm.shared.commitIndex < index ∧
        (sm.runPart clock part).shared.commitIndex = index ∧
        sm.shared.replicationLog <+: (sm.runPart clock part).shared.replicationLog := by
  by_cases hlead : sm.delegate.nodeType = .leader
  · have hcompletes := runPart_completed clock hlead part
    rcases hdone : completedMessage sm part with _ | ⟨id, index⟩
    · exact Or.inl (hcompletes.idle hdone)
    · have hmax := (hcompletes.commitIndex id index hdone).1
      by_cases hlt : sm.shared.commitIndex < index
      · refine Or.inr ⟨id, index, rfl, hlt, by rw [hmax, max_eq_right hlt.le], ?_⟩
        rcases runPart_commit clock sm part with ⟨-, hmoves⟩ | ⟨prevIndex, -, hcut, -⟩
        · exact hmoves.advances.log
        · -- a leader is not truncated
          unfold nextTruncation at hcut
          split at hcut
          · next hrole _ => cases (congrArg Delegate.nodeType hrole).symm.trans hlead
          · cases hcut
      · exact Or.inl (by rw [hmax, max_eq_left (Nat.le_of_not_lt hlt)])
  · exact Or.inl (commitIndex_runPart_of_ne clock hlead part)

/-! ## Nothing is committed -/

/-- No broadcast is deferred before anything is committed. -/
def Hushed (s : SharedState) : Prop := s.commitIndex = 0 → s.hasDeferredBroadcast = false

theorem Hushed.of_sameCommit {s s' : SharedState} (hs : Hushed s) (h : s.SameCommit s') :
    Hushed s' ∧ (s'.commitIndex = 0 → s'.logEntryBus.sent = s.logEntryBus.sent) := by
  unfold Hushed
  rw [h.1, h.2.2.2.2, h.2.2.1]
  exact ⟨hs, fun _ => rfl⟩

/-- **The moves of a node that has committed nothing** put nothing on its bus. -/
theorem Moves.hushed {s s' : SharedState} (h : Moves s s') (hs : Hushed s) :
    Hushed s' ∧ (s'.commitIndex = 0 → s'.logEntryBus.sent = s.logEntryBus.sent) := by
  induction h with
  | extend _ hsame => exact hs.of_sameCommit hsame
  | @commit s index hraised =>
    have hcommit : ((s.storeCommitIndex index).broadcastCommittedEntries index).commitIndex = index := by
      simp
    unfold Hushed
    rw [hcommit]
    exact ⟨fun hzero => by omega, fun hzero => by omega⟩
  | resume s hcommitted =>
    have hcommit : (s.broadcastCommittedEntries s.commitIndex).commitIndex = s.commitIndex := by simp
    unfold Hushed
    rw [hcommit]
    exact ⟨fun hzero => by omega, fun hzero => by omega⟩
  | retry s =>
    by_cases hzero : s.commitIndex = 0
    · have heq : s.retryDeferredBroadcast = s := by simp [retryDeferredBroadcast, hs hzero]
      rw [heq]
      exact ⟨hs, fun _ => rfl⟩
    · have hcommit : s.retryDeferredBroadcast.commitIndex = s.commitIndex := by simp
      unfold Hushed
      rw [hcommit]
      exact ⟨fun h => absurd h hzero, fun h => absurd h hzero⟩
  | trans _ h₂ ih₁ ih₂ =>
    obtain ⟨hs₂, hbus₁⟩ := ih₁ hs
    obtain ⟨hs₃, hbus₂⟩ := ih₂ hs₂
    refine ⟨hs₃, fun hzero => (hbus₂ hzero).trans (hbus₁ ?_)⟩
    exact Nat.le_zero.mp (h₂.advances.commit.trans hzero.le)

end Kraft
