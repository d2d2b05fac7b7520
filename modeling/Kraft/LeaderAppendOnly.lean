/-
# A leader only appends

As long as a node leads, it keeps its term and its log grows at the end only: every new entry is
one of its own term, under a message id that none of its earlier entries in office has
(`leader_append_only`).  Nothing is assumed of the run: it may start in any state of the cluster,
and messages may be lost, repeated by the nodes and delivered in any order.

`OnlyAppends` is what one event of a leader that stays in office does, for its entries are stamped
one by one (`Stamps`); it is a preorder.
-/
import Kraft.Flow
import Kraft.MessageIds

namespace Kraft

open SharedState StateMachine

/-- The term stays, and entries of the term are appended under ids that are taken in order. -/
structure OnlyAppends (s s' : SharedState) : Prop where
  currentTerm : s'.currentTerm = s.currentTerm
  nextMessageId : s.nextMessageId ≤ s'.nextMessageId
  log : ∃ new : List OwnedLogEntry, s'.replicationLog = s.replicationLog ++ new ∧
    (∀ entry ∈ new, entry.term = s.currentTerm ∧ s.nextMessageId ≤ entry.messageId ∧
      entry.messageId < s'.nextMessageId) ∧
    new.Pairwise fun entry later => entry.messageId < later.messageId

namespace OnlyAppends

variable {s s₁ s₂ : SharedState}

/-- Nothing is appended. -/
theorem of_log (hterm : s₁.currentTerm = s.currentTerm) (hnext : s.nextMessageId ≤ s₁.nextMessageId)
    (hlog : s₁.replicationLog = s.replicationLog) : OnlyAppends s s₁ :=
  ⟨hterm, hnext, [], by rw [hlog, List.append_nil], by simp, .nil⟩

/-- One entry is appended. -/
theorem of_append (entry : OwnedLogEntry) (hterm : s₁.currentTerm = s.currentTerm)
    (hentry : entry.term = s.currentTerm) (hle : s.nextMessageId ≤ entry.messageId)
    (hlt : entry.messageId < s₁.nextMessageId)
    (hlog : s₁.replicationLog = s.replicationLog ++ [entry]) : OnlyAppends s s₁ := by
  refine ⟨hterm, by omega, [entry], hlog, ?_, List.pairwise_singleton _ _⟩
  intro new hnew
  obtain rfl := List.mem_singleton.mp hnew
  exact ⟨hentry, hle, hlt⟩

theorem refl (s : SharedState) : OnlyAppends s s := .of_log rfl le_rfl rfl

theorem trans (h₁ : OnlyAppends s s₁) (h₂ : OnlyAppends s₁ s₂) : OnlyAppends s s₂ := by
  obtain ⟨new₁, hlog₁, hnew₁, hsorted₁⟩ := h₁.log
  obtain ⟨new₂, hlog₂, hnew₂, hsorted₂⟩ := h₂.log
  have hnext₁ := h₁.nextMessageId
  have hnext₂ := h₂.nextMessageId
  refine ⟨h₂.currentTerm.trans h₁.currentTerm, hnext₁.trans hnext₂, new₁ ++ new₂, ?_, ?_, ?_⟩
  · rw [hlog₂, hlog₁, List.append_assoc]
  · intro entry hentry
    rcases List.mem_append.mp hentry with hold | hnew
    · obtain ⟨hterm, hle, hlt⟩ := hnew₁ entry hold
      exact ⟨hterm, hle, by omega⟩
    · obtain ⟨hterm, hle, hlt⟩ := hnew₂ entry hnew
      exact ⟨hterm.trans h₁.currentTerm, by omega, hlt⟩
  · refine List.pairwise_append.mpr ⟨hsorted₁, hsorted₂, fun entry hentry later hlater => ?_⟩
    -- the counter separates the entries of the two parts
    obtain ⟨-, -, hlt⟩ := hnew₁ entry hentry
    obtain ⟨-, hle, -⟩ := hnew₂ later hlater
    omega

end OnlyAppends

/-! ## One event of a leader -/

/-- A leader that stays in office stays in its term. -/
theorem Node.currentTerm_of_leads [Capnp] {n : Node} {e : NodeEvent}
    (hlead : n.machine.delegate.nodeType = .leader)
    (hlead' : (n.step e).machine.delegate.nodeType = .leader) :
    (n.step e).shared.currentTerm = n.shared.currentTerm := by
  cases e with
  | accept clock message =>
    obtain ⟨payload, callback⟩ := message
    cases payload with
    | requestVote request =>
      have hasked := asked_acceptRequestVote request callback n.machine
      change (n.machine.acceptRequestVote request callback).shared.currentTerm = _
      generalize (n.machine.acceptRequestVote request callback).shared = s' at hasked ⊢
      cases hasked <;> rfl
    | appendEntries request =>
      -- one that recognises another leaves office
      have hreceives := receives_acceptAppendEntries clock request callback n.machine
      obtain ⟨hheard, -⟩ := (nodeType_acceptAppendEntries clock request callback
        n.machine).resolve_left fun hfollows => by cases hfollows.2.symm.trans hlead'
      change (n.machine.acceptAppendEntries clock request callback).shared.currentTerm = _
      generalize (n.machine.acceptAppendEntries clock request callback).shared = s' at hreceives ⊢
      rw [hlead] at hreceives hheard
      cases hreceives with
      | unrecognised => rfl
      | mismatched hheeds | acknowledged hheeds => exact absurd hheeds.heard hheard
      | adopted hfollows | unstored hfollows | stored hfollows => cases hfollows
    | getRaftState => rfl
    | writeBatch batch =>
      show (n.machine.acceptWriteBatch clock batch callback).shared.currentTerm = _
      unfold acceptWriteBatch
      split <;> simp
  | timeStep clock part =>
    show (n.machine.runPart clock part).shared.currentTerm = _
    rw [currentTerm_runPart]
    rcases helection : n.machine.completedElection part with _ | term
    · rfl
    · cases hlead.symm.trans (completedElection_eq_some_iff.mp helection).1
  | respond response => rfl
  | processTask => exact n.serves_processTask.unchanged.2.2.2.1.1
  | flush => exact n.serves_flush.unchanged.2.2.2.1.1
  | restart clock written accepts => cases hlead'

/-- **An event of a leader that stays in office.** -/
theorem Node.onlyAppends_step [Capnp] {n : Node} {e : NodeEvent}
    (hlead : n.machine.delegate.nodeType = .leader)
    (hlead' : (n.step e).machine.delegate.nodeType = .leader) :
    OnlyAppends n.shared (n.step e).shared := by
  have hrestart : e.isRestart = false := by
    cases e with
    | restart => cases hlead'
    | _ => rfl
  have hterm := currentTerm_of_leads hlead hlead'
  rcases stamps_step hlead hrestart with hlog | ⟨entry, hentry, hle, hlt, hlog⟩
  · exact .of_log hterm (n.idStep e hrestart).nextMessageId_le hlog
  · exact .of_append entry hterm hentry hle hlt hlog

/-! ## Runs in office -/

section Cluster

variable [Capnp] [ParsesSocketAddr] {C : Cluster}

theorem World.onlyAppends_step {w : World} {a : ℕ} (label : Label) (hlead : w.Leads a)
    (hlead' : (w.step C label).Leads a) :
    OnlyAppends (w.shared a) ((w.step C label).shared a) := by
  rcases w.node_step (C := C) label a with ⟨e, -, -, hnode⟩ | ⟨responses, answers, tasks, hnode, -⟩
  · have hlead'' : ((w.process a).node.step e).machine.delegate.nodeType = .leader := hnode ▸ hlead'
    show OnlyAppends _ ((w.step C label).process a).node.shared
    rw [hnode]
    exact Node.onlyAppends_step hlead hlead''
  · show OnlyAppends _ ((w.step C label).process a).node.shared
    rw [hnode]
    exact .of_log rfl le_rfl rfl

/-- **A leader only appends**: in every run of the cluster, from any state, throughout which node
`a` leads, its term stays, and its log is continued by entries of its term with increasing message
ids that are not below the first id it had not yet taken. -/
theorem leader_append_only (w : World) (a : ℕ) (labels : List Label)
    (hleads : Runs.AllSteps (World.step C)
      (fun w label => w.Leads a ∧ (w.step C label).Leads a) w labels) :
    ((Runs.run (World.step C) w labels).shared a).currentTerm = (w.shared a).currentTerm ∧
      ∃ new : List OwnedLogEntry,
        ((Runs.run (World.step C) w labels).shared a).replicationLog =
          (w.shared a).replicationLog ++ new ∧
        (∀ entry ∈ new, entry.term = (w.shared a).currentTerm ∧
          (w.shared a).nextMessageId ≤ entry.messageId) ∧
        new.Pairwise fun entry later => entry.messageId < later.messageId := by
  have happends : OnlyAppends (w.shared a) ((Runs.run (World.step C) w labels).shared a) :=
    hleads.related (fun _ => True) (fun w w' => OnlyAppends (w.shared a) (w'.shared a))
      (fun _ => .refl _) (fun _ _ _ => .trans) (fun _ _ _ _ => trivial)
      (fun _ label _ hlead => World.onlyAppends_step label hlead.1 hlead.2) trivial
  obtain ⟨new, hlog, hnew, hsorted⟩ := happends.log
  exact ⟨happends.currentTerm, new, hlog, fun entry hentry =>
    ⟨(hnew entry hentry).1, (hnew entry hentry).2.1⟩, hsorted⟩

end Cluster

/-- Node 1 takes office in term 1 and appends a batch of the write proxy. -/
theorem leader_append_only_first_batch : letI := sampleCapnp
    letI := sampleAddresses
    let w := Runs.run (World.step clusterOfThree)
      (World.start clusterOfThree (fun _ => ⟨0, 0⟩) fun _ _ => true) electNodeOne
    let labels : List Label := [.part 1 1006 .takeOffice,
      .act 1 (.write ⟨"batch", [⟨"key", [], 1⟩]⟩ 0), .act 1 (.accept ⟨1007, 0⟩)]
    ((Runs.run (World.step clusterOfThree) w labels).shared 1).replicationLog.length = 2 ∧
      ((Runs.run (World.step clusterOfThree) w labels).shared 1).currentTerm =
        (w.shared 1).currentTerm :=
  ⟨by decide, (@leader_append_only sampleCapnp sampleAddresses clusterOfThree _ 1 _ (by decide)).1⟩

end Kraft
