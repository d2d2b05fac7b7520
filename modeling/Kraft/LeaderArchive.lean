/-
# The logs of the leaders

`llog term` is the log of the leader of a term, as it stands or as it stood when the leader left
office.  It has all entries of the term, so that every log of the cluster follows the leaders in the
sense of `LeaderLogs.Coherent`.

* `Node.leader_log` : a leader appends an entry of its own term, or leaves its log alone.
* `Archive` : the logs of the leaders; `Archive.coherent` and `Archive.step`.
-/
import Kraft.LogMatching

namespace Kraft

open SharedState StateMachine

/-! ## The log of a leader -/

/-- **One event of a leader.** -/
theorem Node.leader_log [Capnp] {n : Node} {e : NodeEvent}
    (hlead : n.machine.delegate.nodeType = .leader) (hopen : n.shared.persistenceOpen = true)
    (hdata : ∀ clock message, e = .accept clock message → ∀ request,
      message.payload = .appendEntries request → ∀ entry ∈ request.entry,
        ∃ owned, entry.data = .message owned)
    (hrestart : e.isRestart = false) :
    (n.step e).shared.replicationLog = n.shared.replicationLog ∨
      (n.step e).machine.Leads n.shared.currentTerm ∧ ∃ entry : OwnedLogEntry,
        entry.term = n.shared.currentTerm ∧
          (n.step e).shared.replicationLog = n.shared.replicationLog ++ [entry] := by
  cases e with
  | accept clock message =>
    rcases accept_replication clock message n.machine hopen (hdata clock message rfl) with
      hstays | ⟨request, entry, owned, -, hstores⟩ | ⟨batch, -, hwrites⟩
    · exact Or.inl hstays.same.log
    · exact absurd (hlead.symm.trans hstores.role) (by decide)
    · obtain ⟨id, timestamp, commands, -, hlog, -⟩ := hwrites.entry
      exact Or.inr ⟨⟨(congrArg _ hwrites.role').trans hlead, hwrites.currentTerm⟩, _, rfl, hlog⟩
  | timeStep clock part =>
    rcases runPart_replication clock n.machine part with hstays | ⟨-, hoffice⟩ |
      ⟨term, -, hwins⟩ | ⟨-, node, prevTerm, prevIndex, rest, -, hcuts⟩
    · exact Or.inl hstays.same.log
    · obtain ⟨id, timestamp, commands, -, hlog, -⟩ := hoffice.entry
      exact Or.inr ⟨⟨congrArg _ hoffice.after, hoffice.currentTerm⟩, _, rfl, hlog⟩
    · exact absurd (hlead.symm.trans hwins.role) (by decide)
    · exact absurd (hlead.symm.trans hcuts.role) (by decide)
  | respond response => exact Or.inl rfl
  | processTask => exact Or.inl (Stays.of_serves n.serves_processTask).same.log
  | flush => exact Or.inl (Stays.of_serves n.serves_flush).same.log
  | restart clock written accepts => cases hrestart

/-- A node that leads after an event has not been restarted. -/
theorem Node.isRestart_of_leader [Capnp] {n : Node} {e : NodeEvent}
    (h : (n.step e).machine.delegate.nodeType = .leader) : e.isRestart = false := by
  cases e with
  | restart clock written accepts =>
    have hrole : RaftNodeType.follower = .leader := h
    cases hrole
  | _ => rfl

/-! ## The archive -/

section Archive

variable [Capnp] [ParsesSocketAddr] {C : Cluster}

/-- The logs of the leaders: `llog term` has all entries of the term, and is the log of the node that
leads it. -/
structure Archive (C : Cluster) (E : OwnedLogEntry → Prop) (llog : ℕ → List OwnedLogEntry)
    (t : Trace) : Prop where
  proper : ∀ term, ProperLog (llog term)
  within : ∀ term, Within E (llog term)
  holds : ∀ entry, E entry → (llog entry.term)[entry.index]? = some entry
  current : ∀ a ∈ C.members, ∀ term, (t.world.process a).node.machine.Leads term →
    llog term = (t.world.process a).node.shared.replicationLog
  vacant : ∀ term, (∀ a, (a, term) ∉ t.history.leaders) → llog term = []

namespace NodeWrites

variable {E : OwnedLogEntry → Prop} {t t' : Trace} {label : Label} {a : ℕ} {e : NodeEvent}
  {added : Option OwnedLogEntry}

/-- The log of the node, if it is a leader before the step and is not restarted. -/
theorem leader_log (h : NodeWrites C t t' label a e added) (hwritten : Written C E t)
    (hlead : (t.world.process a).node.machine.delegate.nodeType = .leader)
    (hrestart : e.isRestart = false) :
    (t'.world.process a).node.shared.replicationLog =
        (t.world.process a).node.shared.replicationLog ∨
      (t'.world.process a).node.machine.Leads (t.world.process a).node.shared.currentTerm ∧
        ∃ entry : OwnedLogEntry, entry.term = (t.world.process a).node.shared.currentTerm ∧
          (t'.world.process a).node.shared.replicationLog =
            (t.world.process a).node.shared.replicationLog ++ [entry] := by
  rw [h.node]
  refine Node.leader_log hlead (hwritten.nodes a h.mem).isOpen ?_ hrestart
  intro clock message haccept request hpayload entry hentry
  have hrequest := hwritten.flow.request_of_nodeStep h.mem h.event clock message haccept
  obtain ⟨owned, hdata, -⟩ := RequestOf.of_payload hrequest request hpayload entry hentry
  exact ⟨owned, hdata⟩

/-- A new entry is the last one of the node, which leads its term. -/
theorem appended (h : NodeWrites C t t' label a e added) (hwritten : Written C E t)
    (hwritten' : Written C (also E added) t')
    (hproper : ProperLog (t'.world.process a).node.shared.replicationLog) {entry : OwnedLogEntry}
    (hentry : entry ∈ added) : (t'.world.process a).node.machine.Leads entry.term ∧
      (t'.world.process a).node.shared.replicationLog[entry.index]? = some entry := by
  obtain ⟨hleads, hindex, hlt⟩ := h.mints.minted entry hentry
  have hrestart : e.isRestart = false := by
    by_contra hrestart
    rw [h.restart (Bool.eq_true_of_not_eq_false hrestart)] at hentry
    cases hentry
  rcases h.leader_log hwritten hleads.1 hrestart with hsame | ⟨hleads', last, hterm, hlog⟩
  · have hlength : (t'.world.process a).node.machine.shared.replicationLog.length =
      (t.world.process a).node.machine.shared.replicationLog.length := congrArg List.length hsame
    omega
  · have hat : (t'.world.process a).node.shared.replicationLog[entry.index]? = some last := by
      rw [hlog, hindex]
      exact List.getElem?_concat_length
    obtain rfl : last = entry := hwritten'.determined last entry
      ((hwritten'.nodes a h.mem).log last (List.mem_of_getElem? hat)) (Or.inr hentry)
      (hterm.trans hleads.2) (hproper.index _ last hat)
    exact ⟨hterm ▸ hleads', hat⟩

end NodeWrites

namespace Archive

variable {E : OwnedLogEntry → Prop} {llog : ℕ → List OwnedLogEntry} {t t' : Trace} {label : Label}
  {a : ℕ} {e : NodeEvent} {added : Option OwnedLogEntry}

theorem start (clock : ℕ → Clock) (accepts : ℕ → ℕ → Bool) :
    Archive C (fun _ => False) (fun _ => []) (Trace.start C clock accepts) where
  proper _ := .nil
  within _ := within_nil _
  holds _ h := h.elim
  current a ha term hleads := by cases hleads.1
  vacant _ _ := rfl

omit [Capnp] in
/-- **Every log follows the leaders.** -/
theorem coherent (h : Archive C E llog t) (hE : Determined E) {log : List OwnedLogEntry}
    (hlog : WellFormed log) (hwithin : Within E log) :
    LeaderLogs.Coherent OwnedLogEntry.term llog log := by
  intro i entry hentry
  have hleader := h.holds entry (hwithin entry (List.mem_of_getElem? hentry))
  rw [hlog.index i entry hentry] at hleader
  exact (hlog.logMatching (h.proper _).toWellFormed hE hwithin (h.within _)).take_eq hentry hleader rfl

omit [Capnp] in
/-- The nodes exchange something with their quorum workers. -/
theorem exchange (h : Archive C E llog t)
    (hnodes : ∀ b, Exchanges (t.world.process b).node (t'.world.process b).node)
    (hleaders : t'.history.leaders = t.history.leaders) : Archive C E llog t' where
  proper := h.proper
  within := h.within
  holds := h.holds
  current b hb term hleads := by
    obtain ⟨responses, answers, tasks, hnode, -⟩ := hnodes b
    rw [hnode] at hleads ⊢
    exact h.current b hb term hleads
  vacant := hleaders ▸ h.vacant

/-- The log that leader `a` has after a step continues what is kept of its term. -/
theorem prefix_log (h : Archive C E llog t) (hwrites : NodeWrites C t t' label a e added)
    (hwritten : Written C E t)
    (hunique : ∀ {b b' term}, (b, term) ∈ t'.history.leaders → (b', term) ∈ t'.history.leaders →
      b = b') (honce : t'.history.leaders.Nodup) {term : ℕ}
    (hleads : (t'.world.process a).node.machine.Leads term) :
    llog term <+: (t'.world.process a).node.shared.replicationLog := by
  by_cases hlead : (t.world.process a).node.machine.delegate.nodeType = .leader
  · have hbefore := (hwrites.mints.office term hleads hlead).1
    have hrestart := Node.isRestart_of_leader (hwrites.node ▸ hleads.1)
    rw [h.current a hwrites.mem term hbefore]
    rcases hwrites.leader_log hwritten hlead hrestart with hsame | ⟨-, entry, -, hlog⟩
    · rw [hsame]
    · exact hlog ▸ List.prefix_append ..
  · -- the term had no leader before
    have hleaders := hwrites.leaders
    rw [entersLeader, if_pos ⟨hlead, hleads.1⟩, hleads.2] at hleaders
    rw [h.vacant term fun b hb => ?_]
    · exact List.nil_prefix
    · obtain rfl := hunique (hleaders ▸ List.mem_append_left _ hb)
        (hleaders ▸ List.mem_append_right _ (.head _))
      exact List.disjoint_of_nodup_append (hleaders ▸ honce) hb (.head _)

/-- A node makes a step that leaves it no leader. -/
theorem act_of_not_leader (h : Archive C E llog t) (hwrites : NodeWrites C t t' label a e added)
    (hwritten : Written C E t) (hwritten' : Written C (also E added) t')
    (hproper : ProperLog (t'.world.process a).node.shared.replicationLog)
    (hlead : (t'.world.process a).node.machine.delegate.nodeType ≠ .leader) :
    Archive C (also E added) llog t' where
  proper := h.proper
  within term := (h.within term).mono fun _ => Or.inl
  holds entry hentry := by
    rcases hentry with hentry | hentry
    · exact h.holds entry hentry
    · exact absurd (hwrites.appended hwritten hwritten' hproper hentry).1.1 hlead
  current b hb term hleads := by
    by_cases hba : b = a
    · exact absurd (hba ▸ hleads.1) hlead
    · rw [hwrites.others b hba] at hleads ⊢
      exact h.current b hb term hleads
  vacant term hterm := h.vacant term fun b hb => hterm b
    (hwrites.leaders ▸ List.mem_append_left _ hb)

/-- A node makes a step that leaves it the leader of a term. -/
theorem act_of_leads (h : Archive C E llog t) (hwrites : NodeWrites C t t' label a e added)
    (hwritten : Written C E t) (hwritten' : Written C (also E added) t')
    (hproper : ProperLog (t'.world.process a).node.shared.replicationLog)
    (hunique : ∀ {b b' term}, (b, term) ∈ t'.history.leaders → (b', term) ∈ t'.history.leaders →
      b = b') {term : ℕ} (hleads : (t'.world.process a).node.machine.Leads term)
    (hextends : llog term <+: (t'.world.process a).node.shared.replicationLog) :
    Archive C (also E added)
      (Function.update llog term (t'.world.process a).node.shared.replicationLog) t' := by
  have hself := Function.update_self term (t'.world.process a).node.shared.replicationLog llog
  have hother : ∀ term', term' ≠ term → Function.update llog term
      (t'.world.process a).node.shared.replicationLog term' = llog term' :=
    fun term' hne => Function.update_of_ne hne ..
  have hleader := hwritten'.office a hwrites.mem term hleads
  refine ⟨fun term' => ?_, fun term' => ?_, ?_, fun b hb term' hleads' => ?_, fun term' hterm' => ?_⟩
  · by_cases heq : term' = term
    · rw [heq, hself]
      exact hproper
    · rw [hother term' heq]
      exact h.proper term'
  · by_cases heq : term' = term
    · rw [heq, hself]
      exact (hwritten'.nodes a hwrites.mem).log
    · rw [hother term' heq]
      exact (h.within term').mono fun _ => Or.inl
  · rintro entry (hentry | hentry)
    · have hold := h.holds entry hentry
      by_cases heq : entry.term = term
      · rw [heq] at hold ⊢
        rw [hself]
        exact LeaderLogs.getElem?_of_prefix hextends hold
      · rw [hother _ heq]
        exact hold
    · obtain ⟨hterm, hat⟩ := hwrites.appended hwritten hwritten' hproper hentry
      rw [← hterm.2, hleads.2, hself]
      exact hat
  · by_cases hba : b = a
    · rw [hba] at hleads' ⊢
      rw [← hleads'.2, hleads.2, hself]
    · have hne : term' ≠ term := by
        rintro rfl
        exact hba (hunique (hwritten'.office b hb _ hleads') hleader)
      rw [hwrites.others b hba] at hleads' ⊢
      rw [hother term' hne]
      exact h.current b hb term' hleads'
  · have hne : term' ≠ term := by
      rintro rfl
      exact hterm' a hleader
    rw [hother term' hne]
    exact h.vacant term' fun b hb => hterm' b (hwrites.leaders ▸ List.mem_append_left _ hb)

/-- **A step of the cluster.**  The logs of the leaders grow, and every entry is of a term that had a
leader before the step. -/
theorem step [LawfulCapnp] (h : Archive C E llog t) (hwritten : Written C E t)
    (helection : ElectionInv C t) (hrepresented : ClusterRepresented C t.world)
    (hmajority : C.members.card = 1 ∨
      ∀ a ∈ C.members, C.members.card < 2 * (C.config a).quorumSize)
    (hlaw : ElectionLaw t label) (hok : t.world.KeepsRepresentation label) :
    ∃ E' llog', Written C E' (t.step C label) ∧ Archive C E' llog' (t.step C label) ∧
      (∀ entry, E entry → E' entry) ∧ (∀ term, llog term <+: llog' term) ∧
        ∀ entry, E' entry → ∃ b, (b, entry.term) ∈ t.history.leaders := by
  have helection' := helection.step hlaw
  have horigin : ∀ entry, E entry → ∃ b, (b, entry.term) ∈ t.history.leaders := by
    intro entry hentry
    obtain ⟨b, -, hleader, -⟩ := hwritten.origin entry hentry
    exact ⟨b, hleader⟩
  rcases hwritten.step helection hrepresented hmajority hlaw hok with
    ⟨a, e, added, hwrites, hwritten'⟩ | ⟨hnodes, hleaders, hwritten'⟩
  · have hproper := ((hrepresented.step hok).nodes a hwrites.mem).machine.log
    have horigin' : ∀ entry, also E added entry → ∃ b, (b, entry.term) ∈ t.history.leaders := by
      rintro entry (hentry | hentry)
      · exact horigin entry hentry
      · exact ⟨a, hwritten.office a hwrites.mem _ (hwrites.mints.minted entry hentry).1⟩
    by_cases hlead : ((t.step C label).world.process a).node.machine.delegate.nodeType = .leader
    · have hextends := h.prefix_log hwrites hwritten (helection'.leader_unique hmajority)
        helection'.onceEach ⟨hlead, rfl⟩
      exact ⟨_, _, hwritten', h.act_of_leads hwrites hwritten hwritten' hproper
        (helection'.leader_unique hmajority) ⟨hlead, rfl⟩ hextends, fun _ => Or.inl,
        LeaderLogs.prefix_update hextends, horigin'⟩
    · exact ⟨_, _, hwritten', h.act_of_not_leader hwrites hwritten hwritten' hproper hlead,
        fun _ => Or.inl, fun _ => List.prefix_rfl, horigin'⟩
  · exact ⟨E, llog, hwritten', h.exchange hnodes hleaders, fun _ => id, fun _ => List.prefix_rfl,
      horigin⟩

end Archive

end Archive

end Kraft
