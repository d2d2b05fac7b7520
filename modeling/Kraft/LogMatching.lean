/-
# Log matching

Entries of one term at one position mean equal logs up to it, for any two nodes.  An entry is
determined by its term and index: a term has one leader, and a leader appends at the end of its
log, which only grows while it is in office.  As every entry names term and index of the entry
before it, the entries of two logs agree all the way down.

* `WellFormed.logMatching` : well-formed logs match if their entries are determined so.
* `Adds` : what an event of a node adds to the entries of the cluster, none or one.
* `Written` : all entries, in logs, on disks and on their way, are among entries that are
  determined by term and index, and those of a term that is not over are in its leader's log.
* `log_matching` : the result, in every run that meets the conditions of election safety and of
  the representation of the log.
-/
import Kraft.ElectionSafety
import Kraft.EntrySets

namespace Kraft

open SharedState StateMachine Storage

variable {E : OwnedLogEntry → Prop} {sm : StateMachine}

/-! ## Entries determined by term and index -/

/-- No two of the entries have the same term and index. -/
def Determined (E : OwnedLogEntry → Prop) : Prop :=
  ∀ entry entry', E entry → E entry' → entry.term = entry'.term → entry.index = entry'.index →
    entry = entry'

/-- **Log matching** of two logs. -/
theorem WellFormed.logMatching {log log' : List OwnedLogEntry} (h : WellFormed log)
    (h' : WellFormed log') (hE : Determined E) (hlog : Within E log) (hlog' : Within E log') :
    LogMatching log log' := by
  intro i
  induction i with
  | zero =>
    intro entry entry' hentry hentry' hterm j hj
    obtain rfl := Nat.le_zero.mp hj
    rw [hentry, hentry', hE entry entry' (hlog _ (List.mem_of_getElem? hentry))
      (hlog' _ (List.mem_of_getElem? hentry')) hterm
      ((h.index 0 entry hentry).trans (h'.index 0 entry' hentry').symm)]
  | succ i ih =>
    intro entry entry' hentry hentry' hterm j hj
    have hsame : entry = entry' := hE entry entry' (hlog _ (List.mem_of_getElem? hentry))
      (hlog' _ (List.mem_of_getElem? hentry')) hterm
      ((h.index _ entry hentry).trans (h'.index _ entry' hentry').symm)
    rcases Nat.le_succ_iff.mp hj with hj | rfl
    · -- the entries below refer to entries of one term
      have hi : i < log.length := by
        have := (List.getElem?_eq_some_iff.mp hentry).1
        omega
      have hi' : i < log'.length := by
        have := (List.getElem?_eq_some_iff.mp hentry').1
        omega
      have hbefore := List.getElem?_eq_getElem hi
      have hbefore' := List.getElem?_eq_getElem hi'
      refine ih _ _ hbefore hbefore' ?_ j hj
      rw [← (h.next i _ entry hbefore hentry).2.1, ← (h'.next i _ entry' hbefore' hentry').2.1,
        hsame]
    · rw [hentry, hentry', hsame]

/-! ## What a step adds -/

/-- The entries with one more. -/
def also (E : OwnedLogEntry → Prop) (added : Option OwnedLogEntry) (entry : OwnedLogEntry) : Prop :=
  E entry ∨ added = some entry

/-- The node leads the term. -/
def StateMachine.Leads (sm : StateMachine) (term : ℕ) : Prop :=
  sm.delegate.nodeType = .leader ∧ sm.shared.currentTerm = term

/-- The entry `added`, if there is one, is appended by a leader at the end of its log, and the log
of a leader does not become shorter. -/
structure Mints (added : Option OwnedLogEntry) (sm sm' : StateMachine) : Prop where
  office : ∀ term, sm'.Leads term → sm.delegate.nodeType = .leader →
    sm.Leads term ∧ sm.shared.replicationLog.length ≤ sm'.shared.replicationLog.length
  minted : ∀ entry ∈ added, sm.Leads entry.term ∧
    entry.index = sm.shared.replicationLog.length ∧
    entry.index < sm'.shared.replicationLog.length

/-- A step of the state machine adds an entry, or none. -/
structure Adds (E : OwnedLogEntry → Prop) (added : Option OwnedLogEntry) (sm sm' : StateMachine) :
    Prop extends Mints added sm sm', Spreads (also E added) sm sm'

/-- No entry is new, and the node is no leader before or none after the step. -/
theorem Mints.of_not_leader {sm' : StateMachine}
    (h : sm.delegate.nodeType ≠ .leader ∨ sm'.delegate.nodeType ≠ .leader) : Mints none sm sm' := by
  refine ⟨fun term hleads hlead => ?_, ?_⟩
  · rcases h with h | h
    · exact absurd hlead h
    · exact absurd hleads.1 h
  · rintro entry ⟨⟩

/-- No entry is new, and the log stays. -/
theorem Mints.stays {starts : Bool} {sm' : StateMachine} (hstays : Stays starts sm sm') :
    Mints none sm sm' := by
  refine ⟨?_, ?_⟩
  · rintro term ⟨hlead', rfl⟩ -
    obtain ⟨hrole, hterm, -⟩ := hstays.leads hlead'
    exact ⟨⟨hrole ▸ hlead', hterm.symm⟩, by rw [hstays.same.log]⟩
  · rintro entry ⟨⟩

/-- A node starts again as a follower. -/
theorem Mints.restart [Capnp] (n : Node) (clock : Clock) (written : ℕ) (accepts : ℕ → Bool) :
    Mints none n.machine (n.step (.restart clock written accepts)).machine := by
  refine .of_not_leader (Or.inr ?_)
  show RaftNodeType.follower ≠ .leader
  decide

namespace Adds

variable {E : OwnedLogEntry → Prop} {sm sm' : StateMachine}

/-- No entry is new. -/
theorem of_none (hmints : Mints none sm sm') (hspreads : Spreads E sm sm') : Adds E none sm sm' :=
  ⟨hmints, hspreads.mono fun _ => Or.inl⟩

theorem appends {idx : ℕ} {first : List LocalQuorumWorkerTaskType}
    (hwithin : Within E sm.shared.replicationLog) (happends : Appends idx first sm sm')
    (hidx : idx = sm.shared.replicationLog.length)
    (hfirst : ∀ P, ∀ task ∈ first, TaskOf P task) : ∃ added, Adds E added sm sm' := by
  obtain ⟨id, timestamp, commands, -, hlog, hqueued⟩ := happends.entry
  refine ⟨some (Leader.buildLogEntry sm.shared idx id timestamp commands), ⟨?_, ?_⟩,
    .appends (hwithin.mono fun _ => Or.inl) (Or.inr rfl) hlog hqueued (hfirst _)⟩
  · rintro term ⟨-, rfl⟩ hlead
    refine ⟨⟨hlead, happends.currentTerm.symm⟩, ?_⟩
    rw [hlog, List.length_append]
    exact Nat.le_add_right _ _
  · rintro entry ⟨⟩
    refine ⟨⟨happends.role, rfl⟩, hidx, ?_⟩
    rw [hlog, List.length_append, ← hidx]
    exact Nat.lt_succ_self idx

end Adds

/-- **An accepted request.** -/
theorem Represented.adds_accept (h : Represented sm) (hwithin : Within E sm.shared.replicationLog)
    (clock : Clock) {message : LocalRaftMessage} (hopen : sm.shared.persistenceOpen = true)
    (hnext : 1 ≤ sm.shared.nextTerm) (hrequest : (entryFlow E).request message.payload)
    (hbatch : BatchAtEnd sm message) : ∃ added, Adds E added sm (sm.accept clock message) := by
  have hdata := RequestOf.of_payload hrequest
  rcases accept_replication clock message sm hopen (fun request hpayload entry hentry =>
      (hdata request hpayload entry hentry).imp fun _ h => h.1) with
    hstays | ⟨request, entry, owned, hpayload, hstores⟩ | ⟨batch, hpayload, hwrites⟩
  · exact ⟨none, .of_none (.stays hstays) (.stays hwithin hnext hstays)⟩
  · exact ⟨none, .of_none (.of_not_leader (Or.inr (by rw [hstores.role']; decide)))
      (.stores hwithin (hdata request hpayload) hstores)⟩
  · exact Adds.appends hwithin hwrites.toAppends
      (h.nextLogIndex_of_writes clock hpayload hwrites hbatch) (by simp)

/-- **A part of `time_step`.** -/
theorem adds_runPart (hwithin : Within E sm.shared.replicationLog) (clock : Clock)
    (part : TimeStepPart) (hnext : 1 ≤ sm.shared.nextTerm) :
    ∃ added, Adds E added sm (sm.runPart clock part) := by
  rcases runPart_replication clock sm part with hstays | ⟨-, hoffice⟩ | ⟨term, -, hwon⟩ |
    ⟨-, node, prevTerm, prevIndex, rest, -, hcut⟩
  · exact ⟨none, .of_none (.stays hstays) (.stays hwithin hnext hstays)⟩
  · refine Adds.appends hwithin hoffice.toAppends rfl fun P task htask => ?_
    obtain rfl := List.mem_singleton.mp htask
    trivial
  · exact ⟨none, .of_none (.of_not_leader (Or.inl (by rw [hwon.role]; decide))) (.wins hwithin hwon)⟩
  · exact ⟨none, .of_none (.of_not_leader (Or.inl (by rw [hcut.role]; decide))) (.cuts hwithin hcut)⟩

/-! ## One event of a node -/

/-- **One event of the node.** -/
theorem NodeWithin.adds [Capnp] {n : Node} (h : NodeWithin E n) (hrepresented : NodeRepresented n)
    {e : NodeEvent} (hok : KeepsRepresentation n e)
    (hrequest : ∀ clock message, e = .accept clock message → (entryFlow E).request message.payload) :
    ∃ added, n.SpreadsIn (also E added) e ∧ Mints added n.machine (n.step e).machine := by
  have hnext := hrepresented.terms.nextTerm
  cases e with
  | accept clock message =>
    obtain ⟨added, hadds⟩ := hrepresented.machine.adds_accept h.log clock h.isOpen hnext
      (hrequest clock message rfl) hok
    exact ⟨added, hadds.toSpreads, hadds.toMints⟩
  | timeStep clock part =>
    obtain ⟨added, hadds⟩ := adds_runPart h.log clock part hnext
    exact ⟨added, hadds.toSpreads, hadds.toMints⟩
  | respond response =>
    have hstays : Stays false n.machine (n.step (.respond response)).machine :=
      .of_eq ⟨rfl, rfl, rfl⟩ rfl rfl rfl rfl
    exact ⟨none, trivial, .stays hstays⟩
  | processTask => exact ⟨none, trivial, .stays (.of_serves (Node.serves_processTask n))⟩
  | flush => exact ⟨none, trivial, .stays (.of_serves (Node.serves_flush n))⟩
  | restart clock written accepts => exact ⟨none, hok, .restart n clock written accepts⟩

/-! ## The cluster -/

section Cluster

variable [Capnp] [ParsesSocketAddr] {C : Cluster}

/-- **A step of the cluster** is an event of one node, or an exchange of nodes with their quorum
workers. -/
theorem Trace.step_cases (t : Trace) (label : Label) :
    (∃ a ∈ C.members, ∃ e, t.world.NodeStep label a e ∧
        ((t.step C label).world.process a).node = (t.world.process a).node.step e ∧
        (∀ b, b ≠ a → ((t.step C label).world.process b).node = (t.world.process b).node) ∧
        (t.step C label).history.leaders = t.history.leaders ++
          entersLeader a (t.world.process a) ((t.step C label).world.process a)) ∨
      (∀ a ∈ C.members, ∀ e, ¬ t.world.NodeStep label a e) ∧
        (∀ b, Exchanges (t.world.process b).node ((t.step C label).world.process b).node) ∧
        (t.step C label).history.leaders = t.history.leaders := by
  have hother : (∀ a ∈ C.members, ∀ e, ¬ t.world.NodeStep label a e) →
      ∀ b, Exchanges (t.world.process b).node ((t.step C label).world.process b).node := by
    intro hnone b
    rcases t.world.node_step (C := C) label b with ⟨e, he, hb, -⟩ | hexchanges
    · exact absurd he (hnone b hb e)
    · exact hexchanges
  cases label with
  | act a event =>
    by_cases ha : a ∈ C.members
    · rcases node_step C.utf8Lossy (t.world.process a) event with ⟨e, he, hnode⟩ | ⟨hnone, hexch⟩
      · refine Or.inl ⟨a, ha, e, ⟨event, rfl, he⟩, ?_, fun b hb => ?_, ?_⟩
        · rw [Trace.process_act_self ha, hnode]
        · rw [Trace.process_act_of_ne ha hb]
        · rw [Trace.leaders_act ha, Trace.process_act_self ha]
      · have hnot : ∀ b ∈ C.members, ∀ e, ¬ t.world.NodeStep (.act a event) b e := by
          rintro b - e ⟨event', heq, he⟩
          obtain ⟨rfl, rfl⟩ := Label.act.inj heq
          rw [hnone] at he
          cases he
        refine Or.inr ⟨hnot, hother hnot, ?_⟩
        obtain ⟨responses, answers, tasks, hnode, -⟩ := hexch
        rw [Trace.leaders_act ha, entersLeader, hnode, if_neg (fun h => h.1 h.2), List.append_nil]
    · have hnot : ∀ b ∈ C.members, ∀ e, ¬ t.world.NodeStep (.act a event) b e := by
        rintro b hb e ⟨event', heq, -⟩
        obtain ⟨rfl, -⟩ := Label.act.inj heq
        exact ha hb
      refine Or.inr ⟨hnot, hother hnot, ?_⟩
      show (History.step C t.world _ t.history (.act a event)).leaders = _
      rw [History.step, if_neg ha]
  | deliver i =>
    have hnot : ∀ b ∈ C.members, ∀ e, ¬ t.world.NodeStep (.deliver i) b e := by
      rintro b - e ⟨event', ⟨⟩, -⟩
    exact Or.inr ⟨hnot, hother hnot, rfl⟩
  | lose i =>
    have hnot : ∀ b ∈ C.members, ∀ e, ¬ t.world.NodeStep (.lose i) b e := by
      rintro b - e ⟨event', ⟨⟩, -⟩
    exact Or.inr ⟨hnot, hother hnot, rfl⟩

/-- All entries of the cluster are among `E`; term and index determine them; each comes from a
leader of its term, and is in the leader's log as long as it leads that term. -/
structure Written (C : Cluster) (E : OwnedLogEntry → Prop) (t : Trace) : Prop where
  flow : World.Carries C (entryFlow E) t.world
  nodes : ∀ a ∈ C.members, NodeWithin E (t.world.process a).node
  determined : Determined E
  office : ∀ a ∈ C.members, ∀ term, (t.world.process a).node.machine.Leads term →
    (a, term) ∈ t.history.leaders
  origin : ∀ entry, E entry → ∃ a ∈ C.members, (a, entry.term) ∈ t.history.leaders ∧
    ((t.world.process a).node.machine.Leads entry.term →
      entry.index < (t.world.process a).node.shared.replicationLog.length)

namespace Written

variable {E : OwnedLogEntry → Prop} {t t' : Trace}

theorem start [LawfulCapnp] (clock : ℕ → Clock) (accepts : ℕ → ℕ → Bool) :
    Written C (fun _ => False) (Trace.start C clock accepts) where
  flow := .start clock accepts
  nodes _ _ := .start (within_nil _) ..
  determined _ _ h := h.elim
  office a ha term hleads := by cases hleads.1
  origin entry h := h.elim

/-- The nodes exchange something with their quorum workers. -/
theorem exchange (h : Written C E t) (hflow : World.Carries C (entryFlow E) t'.world)
    (hnodes : ∀ a, Exchanges (t.world.process a).node (t'.world.process a).node)
    (hleaders : t'.history.leaders = t.history.leaders) : Written C E t' where
  flow := hflow
  nodes a ha := (h.nodes a ha).exchanges (hnodes a)
  determined := h.determined
  office a ha term hleads := by
    obtain ⟨responses, answers, tasks, hnode, -⟩ := hnodes a
    rw [hnode] at hleads
    rw [hleaders]
    exact h.office a ha term hleads
  origin entry hentry := by
    obtain ⟨a, ha, hleader, hindex⟩ := h.origin entry hentry
    obtain ⟨responses, answers, tasks, hnode, -⟩ := hnodes a
    refine ⟨a, ha, hleaders ▸ hleader, ?_⟩
    rw [hnode]
    exact hindex

/-- Node `a` makes a step. -/
theorem act {a : ℕ} {added : Option OwnedLogEntry} (h : Written C E t) (ha : a ∈ C.members)
    (hunique : ∀ {b b' term}, (b, term) ∈ t.history.leaders → (b', term) ∈ t.history.leaders →
      b = b')
    (honce : t'.history.leaders.Nodup)
    (hflow : World.Carries C (entryFlow (also E added)) t'.world)
    (hwithin : NodeWithin (also E added) (t'.world.process a).node)
    (hmints : Mints added (t.world.process a).node.machine (t'.world.process a).node.machine)
    (hother : ∀ b, b ≠ a → (t'.world.process b).node = (t.world.process b).node)
    (hleaders : t'.history.leaders = t.history.leaders ++
      entersLeader a (t.world.process a) (t'.world.process a)) : Written C (also E added) t' := by
  have hle : ∀ entry, E entry → also E added entry := fun entry => Or.inl
  -- an old entry of the term of the new one is below it in the leader's log
  have hbelow : ∀ entry ∈ added, ∀ old, E old → old.term = entry.term → old.index < entry.index := by
    intro entry hentry old hold hterm
    obtain ⟨hleads, hindex, -⟩ := hmints.minted entry hentry
    obtain ⟨b, hb, hleader, hbound⟩ := h.origin old hold
    rw [hterm] at hleader hbound
    obtain rfl := hunique hleader (h.office a ha _ hleads)
    rw [hindex]
    exact hbound hleads
  refine ⟨hflow, fun b hb => ?_, ?_, fun b hb term hleads => ?_, ?_⟩
  · by_cases hba : b = a
    · exact hba ▸ hwithin
    · rw [hother b hba]
      exact (h.nodes b hb).mono hle
  · rintro entry entry' (hold | hnew) (hold' | hnew') hterm hindex
    · exact h.determined entry entry' hold hold' hterm hindex
    · have := hbelow entry' hnew' entry hold hterm
      omega
    · have := hbelow entry hnew entry' hold' hterm.symm
      omega
    · exact Option.some.inj (hnew.symm.trans hnew')
  · rw [hleaders]
    by_cases hba : b = a
    · subst hba
      by_cases hlead : (t.world.process b).node.machine.delegate.nodeType = .leader
      · exact List.mem_append_left _ (h.office b hb term (hmints.office term hleads hlead).1)
      · refine List.mem_append_right _ ?_
        rw [entersLeader, if_pos ⟨hlead, hleads.1⟩, hleads.2]
        exact .head _
    · rw [hother b hba] at hleads
      exact List.mem_append_left _ (h.office b hb term hleads)
  · rintro entry (hold | hnew)
    · obtain ⟨b, hb, hleader, hbound⟩ := h.origin entry hold
      refine ⟨b, hb, hleaders ▸ List.mem_append_left _ hleader, fun hleads => ?_⟩
      by_cases hba : b = a
      · subst hba
        by_cases hlead : (t.world.process b).node.machine.delegate.nodeType = .leader
        · obtain ⟨hbefore, hlength⟩ := hmints.office _ hleads hlead
          exact (hbound hbefore).trans_le hlength
        · -- the node cannot have become leader of a term that it has led before
          rw [hleaders, entersLeader, if_pos ⟨hlead, hleads.1⟩, hleads.2] at honce
          exact absurd (.head _) (List.disjoint_of_nodup_append honce hleader)
      · rw [hother b hba] at hleads ⊢
        exact hbound hleads
    · obtain ⟨hleads, -, hindex⟩ := hmints.minted entry hnew
      exact ⟨a, ha, hleaders ▸ List.mem_append_left _ (h.office a ha _ hleads), fun _ => hindex⟩

end Written

/-- Node `a` makes a step by the event `e`, in which it writes the entry `added` if there is one. -/
structure NodeWrites (C : Cluster) (t t' : Trace) (label : Label) (a : ℕ) (e : NodeEvent)
    (added : Option OwnedLogEntry) : Prop where
  mem : a ∈ C.members
  event : t.world.NodeStep label a e
  node : (t'.world.process a).node = (t.world.process a).node.step e
  others : ∀ b, b ≠ a → (t'.world.process b).node = (t.world.process b).node
  leaders : t'.history.leaders = t.history.leaders ++
    entersLeader a (t.world.process a) (t'.world.process a)
  mints : Mints added (t.world.process a).node.machine (t'.world.process a).node.machine
  restart : e.isRestart = true → added = none

/-- **The entries in a step of the cluster.** -/
theorem Written.step [LawfulCapnp] {t : Trace} (h : Written C E t) (helection : ElectionInv C t)
    (hrepresented : ClusterRepresented C t.world)
    (hmajority : C.members.card = 1 ∨
      ∀ a ∈ C.members, C.members.card < 2 * (C.config a).quorumSize) {label : Label}
    (hlaw : ElectionLaw t label) (hok : t.world.KeepsRepresentation label) :
    (∃ a e added, NodeWrites C t (t.step C label) label a e added ∧
        Written C (also E added) (t.step C label)) ∨
      (∀ b, Exchanges (t.world.process b).node ((t.step C label).world.process b).node) ∧
        (t.step C label).history.leaders = t.history.leaders ∧ Written C E (t.step C label) := by
  rcases t.step_cases (C := C) label with ⟨a, ha, e, he, hnode, hother, hleaders⟩ |
    ⟨hnone, hnodes, hleaders⟩
  · have hproper := hrepresented.nodes a ha
    have hok := hok.of_nodeStep he
    obtain ⟨added, hspreads, hmints, hrestart⟩ : ∃ added,
        (t.world.process a).node.SpreadsIn (also E added) e ∧
          Mints added (t.world.process a).node.machine ((t.world.process a).node.step e).machine ∧
            (e.isRestart = true → added = none) := by
      cases hdies : e.isRestart with
      | false =>
        obtain ⟨added, hspreads, hmints⟩ := (h.nodes a ha).adds hproper hok
          (h.flow.request_of_nodeStep ha he)
        exact ⟨added, hspreads, hmints, fun hrestart => nomatch hrestart⟩
      | true =>
        cases e with
        | restart clock written accepts => exact ⟨none, hok, .restart _ clock written accepts, fun _ => rfl⟩
        | _ => cases hdies
    obtain ⟨hwithin, hhands⟩ := ((h.nodes a ha).mono fun _ => Or.inl).step hproper.terms.nextTerm
      hspreads
    have hflow : World.Carries C (entryFlow (also E added)) t.world :=
      h.flow.mono (fun _ tasks htasks task htask => (htasks task htask).mono fun _ => Or.inl)
        (fun _ hmessage => hmessage.mono fun _ => Or.inl)
    refine Or.inl ⟨a, e, added, ⟨ha, he, hnode, hother, hleaders, hnode ▸ hmints, hrestart⟩,
      h.act ha (helection.leader_unique hmajority) (helection.step hlaw).onceEach
        (hflow.step helection.connected label ?_) (hnode ▸ hwithin) (hnode ▸ hmints) hother hleaders⟩
    intro b hb e' he' hrestart k worker _ hchannel
    obtain ⟨rfl, rfl⟩ := he.unique he'
    exact (hhands hrestart).queue hchannel
  · refine Or.inr ⟨hnodes, hleaders,
      h.exchange (h.flow.step helection.connected label ?_) hnodes hleaders⟩
    exact fun a ha e he => absurd he (hnone a ha e)

/-- The invariant of the cluster. -/
structure MatchInv (C : Cluster) (t : Trace) : Prop where
  election : ElectionInv C t
  represented : ClusterRepresented C t.world
  written : ∃ E, Written C E t

/-- **A step of the cluster.** -/
theorem MatchInv.step [LawfulCapnp] {t : Trace} (h : MatchInv C t)
    (hmajority : C.members.card = 1 ∨
      ∀ a ∈ C.members, C.members.card < 2 * (C.config a).quorumSize)
    {label : Label} (hlaw : ElectionLaw t label) (hok : t.world.KeepsRepresentation label) :
    MatchInv C (t.step C label) := by
  obtain ⟨E, hwritten⟩ := h.written
  refine ⟨h.election.step hlaw, h.represented.step hok, ?_⟩
  rcases hwritten.step h.election h.represented hmajority hlaw hok with
    ⟨a, e, added, -, hwritten'⟩ | ⟨-, -, hwritten'⟩
  · exact ⟨_, hwritten'⟩
  · exact ⟨_, hwritten'⟩

end Cluster

/-- **Log matching**, in every run of the cluster that meets the conditions. -/
theorem log_matching [Capnp] [LawfulCapnp] [ParsesSocketAddr] (C : Cluster)
    (hmajority : C.members.card = 1 ∨
      ∀ a ∈ C.members, C.members.card < 2 * (C.config a).quorumSize)
    (clock : ℕ → Clock) (accepts : ℕ → ℕ → Bool) (labels : List Label)
    (hrun : Runs.AllSteps (Trace.step C)
      (fun t label => ElectionLaw t label ∧ t.world.KeepsRepresentation label)
      (Trace.start C clock accepts) labels) {a b : ℕ} (ha : a ∈ C.members) (hb : b ∈ C.members) :
    let w := (Runs.run (Trace.step C) (Trace.start C clock accepts) labels).world
    LogMatching (w.process a).node.shared.replicationLog
      (w.process b).node.shared.replicationLog := by
  have hinv := hrun.invariant (MatchInv C) (fun t label h hok => h.step hmajority hok.1 hok.2)
    ⟨.start clock accepts, .start clock accepts, _, .start clock accepts⟩
  obtain ⟨E, hwritten⟩ := hinv.written
  exact (hinv.represented.nodes a ha).machine.log.toWellFormed.logMatching
    (hinv.represented.nodes b hb).machine.log.toWellFormed hwritten.determined
    (hwritten.nodes a ha).log (hwritten.nodes b hb).log

/-- Node 1 of three takes office, and its no-op entry reaches node 3. -/
def noopOfNodeOne : List Label :=
  officeOfNodeOne ++ [.act 1 (.workerTask 1 1007), .act 1 (.workerTask 1 1008),
    .act 1 (.workerTask 1 1009), .deliver 1, .act 3 (.accept ⟨1010, 0⟩)]

/-- Nodes 1 and 3 hold the entries of the two terms of node 1. -/
theorem log_matching_twoLives : letI := digitCapnp
    letI := sampleAddresses
    let w := (Runs.run (Trace.step clusterOfThree)
      (Trace.start clusterOfThree (fun _ => ⟨0, 0⟩) fun _ _ => true) twoLives).world
    (w.process 3).node.shared.replicationLog.map (·.term) = [1, 2] ∧
      LogMatching (w.process 1).node.shared.replicationLog
        (w.process 3).node.shared.replicationLog :=
  ⟨by decide +kernel, @log_matching digitCapnp lawful_digitCapnp sampleAddresses clusterOfThree
    (by decide) (fun _ => ⟨0, 0⟩) (fun _ _ => true) twoLives (by decide +kernel) 1 3 (by decide)
    (by decide)⟩

/-- **Logs that do not match.**  Both nodes of a cluster of two lead term 1, and their no-op
entries at position 0 differ in the time. -/
theorem two_noops_of_term_one :
    ¬ ∀ (_ : Capnp) (_ : LawfulCapnp) (_ : ParsesSocketAddr) (C : Cluster) (clock : ℕ → Clock)
      (accepts : ℕ → ℕ → Bool) (labels : List Label) (a b : ℕ), a ∈ C.members → b ∈ C.members →
        let w := (Runs.run (Trace.step C) (Trace.start C clock accepts) labels).world
        LogMatching (w.process a).node.shared.replicationLog
          (w.process b).node.shared.replicationLog := by
  intro h
  have hmatch := h (unaryCapnp 0) (lawful_unaryCapnp 0) sampleAddresses clusterOfTwo
    (fun _ => ⟨0, 0⟩) (fun _ _ => true)
    (standForElection 1 ++ standForElection 2 ++ [.part 1 1002 .takeOffice, .part 2 1003 .takeOffice])
    1 2 (by decide) (by decide) 0 ⟨0, 1, 0, 0, 2, 1002, []⟩ ⟨0, 1, 0, 0, 2, 1003, []⟩
    (by decide) (by decide) rfl 0 le_rfl
  revert hmatch
  decide

end Kraft
