/-
# The flag of a backfill under way

`ongoing_backfill` of a leader's quorum worker is set when the peer refuses an entry, and cleared
when the answer has been sent.  While it is set, further refusals are ignored: if it stayed set
with no answer under way, the peer would never be repaired again.

* `UnderWay` : where the answer can be, at the leader or between it and the peer.
* `backfill_under_way` : while a node leads, its flag for a peer is set only as long as the answer
  is under way, if repairs of the peer are handed to the peer's worker, no request that the leader
  handles names the leader's own last entry, and no flag is left from an earlier office.
* `backfill_wedged` : a peer that gets the same entries twice refuses them with that last entry, and
  a leader that steps down and is elected again can have a flag left.
-/
import Kraft.BackfillAnswers
import Kraft.WorkerRouting

namespace Kraft

open SharedState StateMachine

variable {P : LocalQuorumWorkerTaskType → Prop}

/-! ## A message arrives -/

/-- A message sets the flag only together with a request for the backfill, -/
theorem QuorumWorker.ongoingBackfill_handleInboundMessage (message : QuorumMessage)
    (w : QuorumWorker) (h : (w.handleInboundMessage message).1.ongoingBackfill ≠ none) :
    w.ongoingBackfill ≠ none ∨ ∃ term index,
      .backfillLog w.memberId term index ∈ (w.handleInboundMessage message).2.responses := by
  have hhandles := w.handles_handleInboundMessage message
  generalize w.handleInboundMessage message = result at hhandles h ⊢
  cases hhandles with
  | refused => exact Or.inr ⟨_, _, List.mem_singleton.mpr rfl⟩
  | truncateLogResponse => exact absurd rfl h
  | _ => exact Or.inl h

namespace Process

variable {p : Process} {k m : ℕ}

theorem holds_receive (src : ℕ) (message : QuorumMessage) (h : p.node.Holds P k m) :
    (p.receive src message).1.node.Holds P k m := by
  unfold Process.receive
  split
  · split
    · exact holds_emit h
    · exact h
  · exact h

/-- and the request is then at the node. -/
theorem Flagged.of_receive {src : ℕ} {message : QuorumMessage} {worker : QuorumWorker}
    (hworker : p.workers[k]? = some worker) (hmember : worker.memberId = m)
    (h : (p.receive src message).1.Flagged k) :
    p.Flagged k ∨ (p.receive src message).1.node.Holds P k m := by
  unfold Process.receive at h ⊢
  split at h
  · next j hfind =>
    split at h
    · next worker' hworker' =>
      by_cases hset : (worker'.handleInboundMessage message).1.ongoingBackfill ≠ none →
          worker'.ongoingBackfill ≠ none
      · exact Or.inl (.of_emit hworker' hset h)
      · obtain ⟨hafter, hbefore⟩ := Classical.not_imp.mp hset
        obtain ⟨term, index, hresponse⟩ :=
          (worker'.ongoingBackfill_handleInboundMessage message hafter).resolve_left hbefore
        by_cases hjk : j = k
        · obtain rfl : worker' = worker :=
            Option.some.inj (hworker'.symm.trans (hjk ▸ hworker))
          exact Or.inr (.response term index (List.mem_append_right _ (hmember ▸ hresponse)))
        · obtain ⟨w, hw, hwset⟩ := h
          have hw : (p.workers.set j (worker'.handleInboundMessage message).1)[k]? = some w := hw
          rw [List.getElem?_set_ne hjk] at hw
          exact Or.inl ⟨w, hw, hwset⟩
    · exact Or.inl h
  · exact Or.inl h

end Process

/-! ## The cluster -/

/-- The messages with which a truncation is asked for and confirmed. -/
def QuorumMessage.isTruncation : QuorumMessage → Bool
  | .truncateLogRequest .. | .truncateLogResponse .. => true
  | _ => false

/-- The answer to a backfill of member `m` by node `a` is under way: at the node, as a request to
truncate on its way to `m`, or as its confirmation on the way back. -/
def UnderWay (P : LocalQuorumWorkerTaskType → Prop) (w : World) (a k m : ℕ) : Prop :=
  (w.process a).node.Holds P k m ∨
    (∃ prevTerm prevIndex term leaderId requestId,
      ⟨a, m, .truncateLogRequest prevTerm prevIndex term leaderId requestId⟩ ∈ w.net) ∨
    ∃ requestId ok, ⟨m, a, .truncateLogResponse requestId ok⟩ ∈ w.net

/-- While node `a` leads, no message of a truncation is lost. -/
def World.KeepsTruncations (a : ℕ) (w : World) : Label → Prop
  | .lose i => w.Leads a → ∀ packet ∈ w.net[i]?, packet.message.isTruncation = false
  | _ => True

/-- No request of member `m` that node `a` handles as leader names the last entry of its log. -/
def World.AsksBeforeEnd (a m : ℕ) (w : World) : Label → Prop
  | .act b event => b = a → w.Leads a → ∀ e ∈ (w.process a).nodeEvent event,
      (w.process a).node.AnswersRequests m e
  | _ => True

/-- Node `a` is elected only when its worker `k` has no backfill ongoing. -/
def World.EntersClear [Capnp] [ParsesSocketAddr] (C : Cluster) (a k : ℕ) (w : World)
    (label : Label) : Prop :=
  ¬ w.Leads a → (w.step C label).Leads a → ¬ (w.process a).Flagged k

/-- What is at the node stays, and no packet of a truncation disappears. -/
theorem UnderWay.mono {w w' : World} {a k m : ℕ} (h : UnderWay P w a k m)
    (hnode : (w.process a).node.Holds P k m → (w'.process a).node.Holds P k m)
    (hnet : ∀ packet ∈ w.net, packet.message.isTruncation = true → packet ∈ w'.net) :
    UnderWay P w' a k m := by
  rcases h with hholds | ⟨prevTerm, prevIndex, term, leaderId, requestId, hpacket⟩ |
    ⟨requestId, ok, hpacket⟩
  · exact Or.inl (hnode hholds)
  · exact Or.inr (Or.inl ⟨prevTerm, prevIndex, term, leaderId, requestId, hnet _ hpacket rfl⟩)
  · exact Or.inr (Or.inr ⟨requestId, ok, hnet _ hpacket rfl⟩)

/-- Another packet than the one that is taken from the network stays there. -/
theorem mem_eraseIdx_of_ne {net : List Packet} {i : ℕ} {packet other : Packet}
    (hpacket : net[i]? = some packet) (hother : other ∈ net) (hne : other ≠ packet) :
    other ∈ net.eraseIdx i := by
  obtain ⟨j, hj⟩ := List.getElem?_of_mem hother
  refine List.mem_eraseIdx_iff_getElem?.mpr ⟨j, fun hji => hne ?_, hj⟩
  rw [hji, hpacket] at hj
  exact (Option.some.inj hj).symm

instance (a : ℕ) (w : World) : ∀ label, Decidable (w.KeepsTruncations a label)
  | .act .. | .deliver _ => inferInstanceAs (Decidable True)
  | .lose i => inferInstanceAs (Decidable (w.Leads a → ∀ packet ∈ w.net[i]?, _))

instance (a m : ℕ) (w : World) : ∀ label, Decidable (w.AsksBeforeEnd a m label)
  | .act b _ =>
    inferInstanceAs (Decidable (b = a → w.Leads a → ∀ e ∈ (w.process a).nodeEvent _, _))
  | .deliver _ | .lose _ => inferInstanceAs (Decidable True)

instance [Capnp] [ParsesSocketAddr] (C : Cluster) (a k : ℕ) (w : World) (label : Label) :
    Decidable (w.EntersClear C a k label) :=
  inferInstanceAs (Decidable (¬ _ → _ → ¬ _))

section Cluster

variable [ParsesSocketAddr] {C : Cluster} {w : World} {a k m : ℕ}

/-- Every other member has a worker for node `a`. -/
theorem Cluster.mem_peers (ha : a ∈ C.members) (hm : m ∈ C.members) (hne : a ≠ m) :
    a ∈ (C.config m).peers := by
  have hid := C.nodeId m hm
  have hmem : a ∈ (C.config m).members := C.agree m hm ▸ ha
  rcases Finset.mem_insert.mp hmem with heq | hmem
  · exact absurd (heq.trans hid) hne
  · exact AppConfig.mem_peers.mpr ⟨List.mem_toFinset.mp hmem, hid.symm ▸ hne⟩

/-- The invariant: the flag of a leader's worker is set only as long as the answer is under
way. -/
structure FlagInv (C : Cluster) (a k m : ℕ) (w : World) : Prop where
  connected : Connected C w
  staffed : ∀ b ∈ C.members, Staffed (C.config b).peers (w.process b)
  answered : w.Leads a → (w.process a).Flagged k → UnderWay (·.Answers) w a k m

theorem staffed_start [Capnp] (clock : ℕ → Clock) (accepts : ℕ → ℕ → Bool) (b : ℕ) :
    Staffed (C.config b).peers ((World.start C clock accepts).process b) := by
  refine ⟨?_, List.length_replicate⟩
  show ((C.config b).peers.map (QuorumWorker.new (C.config b).nodeId)).map _ = _
  rw [List.map_map]
  exact List.map_id _

theorem staffed_step [Capnp] (h : ∀ b ∈ C.members, Staffed (C.config b).peers (w.process b))
    (label : Label) : ∀ b ∈ C.members, Staffed (C.config b).peers ((w.step C label).process b) := by
  intro b hb
  rcases World.process_step C w label b with ⟨event, -, -, hstep⟩ | ⟨i, packet, -, -, -, hstep⟩ | hsame
  · rw [hstep]
    exact (h b hb).step C.utf8Lossy event
  · rw [hstep]
    exact (h b hb).receive packet.src packet.message
  · rw [hsame]
    exact h b hb

namespace FlagInv

variable [Capnp]

/-- Node `a` acts. -/
theorem act (h : FlagInv C a k m w) (ha : a ∈ C.members) (hk : (C.config a).peers[k]? = some m)
    (hroute : Leader.getQuorumWorkerIndex m a = k) (event : ProcessEvent) (hleads : w.Leads a)
    (hok : ∀ e ∈ (w.process a).nodeEvent event, (w.process a).node.AnswersRequests m e)
    (hleads' : (w.step C (.act a event)).Leads a)
    (hflag : ((w.step C (.act a event)).process a).Flagged k) :
    UnderWay (·.Answers) (w.step C (.act a event)) a k m := by
  have hstaffed := h.staffed a ha
  have hwired := h.connected.wired a ha
  obtain ⟨worker, hworker, hmember⟩ := hstaffed.worker hk
  have hself := hwired.selfId worker (List.mem_of_getElem? hworker)
  have hlt : k < (w.process a).node.shared.quorumWorkerTasks.length := by
    rw [hstaffed.queues]
    exact (List.getElem?_eq_some_iff.mp hk).1
  rw [World.step_act ha] at hleads' hflag ⊢
  unfold World.Leads at hleads'
  rw [World.process_update_self] at hleads' hflag
  rcases h.answered hleads hflag.of_step with hholds | hrequest | hconfirmation
  · rcases Process.holds_step C.utf8Lossy hworker hmember (hwired.identity.symm ▸ hroute) hlt hleads
      hleads' hok hholds with hclear | hholds | ⟨prevTerm, prevIndex, term, requestId, hpacket⟩
    · exact absurd hflag hclear
    · left
      rw [World.process_update_self]
      exact hholds
    · rw [hself] at hpacket
      exact Or.inr (Or.inl ⟨prevTerm, prevIndex, term, a, requestId, List.mem_append_right _ hpacket⟩)
  · obtain ⟨prevTerm, prevIndex, term, leaderId, requestId, hpacket⟩ := hrequest
    exact Or.inr (Or.inl ⟨prevTerm, prevIndex, term, leaderId, requestId,
      List.mem_append_left _ hpacket⟩)
  · obtain ⟨requestId, ok, hpacket⟩ := hconfirmation
    exact Or.inr (Or.inr ⟨requestId, ok, List.mem_append_left _ hpacket⟩)

/-- A packet arrives at node `a`. -/
theorem deliver (h : FlagInv C a k m w) (ha : a ∈ C.members)
    (hk : (C.config a).peers[k]? = some m) {i : ℕ} {packet : Packet}
    (hpacket : w.net[i]? = some packet) (hdst : packet.dst = a) (hleads : w.Leads a)
    (hflag : ((w.step C (.deliver i)).process a).Flagged k) :
    UnderWay (·.Answers) (w.step C (.deliver i)) a k m := by
  have hstaffed := h.staffed a ha
  obtain ⟨worker, hworker, hmember⟩ := hstaffed.worker hk
  have hne := (h.connected.wired a ha).memberId worker (List.mem_of_getElem? hworker)
  rw [World.step_deliver hpacket, hdst] at hflag ⊢
  rw [World.process_update_self] at hflag
  have hprocess : ((({ w with net := w.net.eraseIdx i } : World).update a
      ((w.process a).receive packet.src packet.message)).process a) =
        ((w.process a).receive packet.src packet.message).1 := World.process_update_self ..
  rcases hflag.of_receive hworker hmember with hflagged | hholds
  · rcases h.answered hleads hflagged with hholds | hrequest | ⟨requestId, ok, hmem⟩
    · left
      rw [hprocess]
      exact Process.holds_receive _ _ hholds
    · obtain ⟨prevTerm, prevIndex, term, leaderId, requestId, hmem⟩ := hrequest
      refine Or.inr (Or.inl ⟨prevTerm, prevIndex, term, leaderId, requestId,
        List.mem_append_left _ (mem_eraseIdx_of_ne hpacket hmem ?_)⟩)
      rintro rfl
      exact hne.2 (hmember.trans hdst)
    · by_cases heq : ⟨m, a, .truncateLogResponse requestId ok⟩ = packet
      · -- the confirmation arrives, and the worker clears the flag
        subst heq
        obtain ⟨worker', hworker', -, hreceive⟩ := hstaffed.receive_eq
          (AppConfig.nodup_peers (C.accepted a ha)) hk (.truncateLogResponse requestId ok)
        rw [hreceive] at hflag
        obtain ⟨w', hw', hset⟩ := hflag
        have hw' : ((w.process a).workers.set k _)[k]? = some w' := hw'
        rw [List.getElem?_set_self (List.getElem?_eq_some_iff.mp hworker').1] at hw'
        obtain rfl := Option.some.inj hw'
        exact absurd rfl hset
      · exact Or.inr (Or.inr ⟨requestId, ok,
          List.mem_append_left _ (mem_eraseIdx_of_ne hpacket hmem heq)⟩)
  · left
    rw [hprocess]
    exact hholds

/-- A packet arrives at another node. -/
theorem deliver_of_ne (h : FlagInv C a k m w) (ha : a ∈ C.members)
    {i : ℕ} {packet : Packet} (hpacket : w.net[i]? = some packet) (hdst : a ≠ packet.dst)
    (hunder : UnderWay (·.Answers) w a k m) :
    UnderWay (·.Answers) (w.step C (.deliver i)) a k m := by
  rw [World.step_deliver hpacket]
  rcases hunder with hholds | ⟨prevTerm, prevIndex, term, leaderId, requestId, hmem⟩ |
    ⟨requestId, ok, hmem⟩
  · left
    rw [World.process_update_of_ne _ hdst]
    exact hholds
  · by_cases heq : ⟨a, m, .truncateLogRequest prevTerm prevIndex term leaderId requestId⟩ = packet
    · -- the request arrives, and the peer's worker confirms it
      subst heq
      have hm := (h.connected.addressed _ (List.mem_of_getElem? hpacket)).dst
      obtain ⟨j, hj⟩ := List.getElem?_of_mem (Cluster.mem_peers ha hm hdst)
      obtain ⟨worker, hworker, hmember, hreceive⟩ := (h.staffed m hm).receive_eq
        (AppConfig.nodup_peers (C.accepted m hm)) hj
        (.truncateLogRequest prevTerm prevIndex term leaderId requestId)
      have hself := (h.connected.wired m hm).selfId worker (List.mem_of_getElem? hworker)
      refine Or.inr (Or.inr ⟨requestId, true, List.mem_append_right _ ?_⟩)
      show _ ∈ ((w.process m).receive a _).2
      rw [hreceive, ← hmember, ← hself]
      exact List.mem_singleton.mpr rfl
    · exact Or.inr (Or.inl ⟨prevTerm, prevIndex, term, leaderId, requestId,
        List.mem_append_left _ (mem_eraseIdx_of_ne hpacket hmem heq)⟩)
  · refine Or.inr (Or.inr ⟨requestId, ok,
      List.mem_append_left _ (mem_eraseIdx_of_ne hpacket hmem ?_)⟩)
    rintro rfl
    exact hdst rfl

/-- A step in which node `a` is elected sets no flag. -/
theorem flagged_of_elected {label : Label} (hbefore : ¬ w.Leads a)
    (hafter : (w.step C label).Leads a) (hflag : ((w.step C label).process a).Flagged k) :
    (w.process a).Flagged k := by
  rcases World.process_step C w label a with ⟨event, -, -, hstep⟩ | ⟨i, packet, -, -, -, hstep⟩ |
    hsame
  · rw [hstep] at hflag
    exact hflag.of_step
  · -- a message changes no role
    obtain ⟨responses, answers, tasks, hnode, -⟩ :=
      node_receive (w.process a) packet.src packet.message
    unfold World.Leads at hafter
    rw [hstep, hnode] at hafter
    exact absurd hafter hbefore
  · rwa [hsame] at hflag

/-- The flag of a leader in a step in which it goes on leading. -/
theorem answered_step (h : FlagInv C a k m w) (ha : a ∈ C.members)
    (hk : (C.config a).peers[k]? = some m) (hroute : Leader.getQuorumWorkerIndex m a = k)
    {label : Label} (hkept : w.KeepsTruncations a label) (hok : w.AsksBeforeEnd a m label)
    (hleads : w.Leads a) (hleads' : (w.step C label).Leads a)
    (hflag : ((w.step C label).process a).Flagged k) :
    UnderWay (·.Answers) (w.step C label) a k m := by
  cases label with
  | act b event =>
    by_cases hba : b = a
    · subst hba
      exact h.act ha hk hroute event hleads (hok rfl hleads) hleads' hflag
    · by_cases hb : b ∈ C.members
      · rw [World.step_act hb] at hflag ⊢
        rw [World.process_update_of_ne w (Ne.symm hba)] at hflag
        refine (h.answered hleads hflag).mono (fun hholds => ?_) fun packet hmem _ =>
          List.mem_append_left _ hmem
        rw [World.process_update_of_ne w (Ne.symm hba)]
        exact hholds
      · rw [World.step_act_of_notMem hb] at hflag ⊢
        exact h.answered hleads hflag
  | deliver i =>
    rcases hpacket : w.net[i]? with _ | packet
    · rw [World.step_deliver_of_none hpacket] at hflag ⊢
      exact h.answered hleads hflag
    · by_cases hdst : packet.dst = a
      · exact h.deliver ha hk hpacket hdst hleads hflag
      · refine h.deliver_of_ne ha hpacket (Ne.symm hdst) (h.answered hleads ?_)
        rwa [World.step_deliver hpacket, World.process_update_of_ne _ (Ne.symm hdst)] at hflag
  | lose i =>
    refine (h.answered hleads hflag).mono id fun packet hmem htruncation => ?_
    show packet ∈ w.net.eraseIdx i
    rcases hpacket : w.net[i]? with _ | lost
    · rwa [List.eraseIdx_of_length_le (List.getElem?_eq_none_iff.mp hpacket)]
    · refine mem_eraseIdx_of_ne hpacket hmem ?_
      rintro rfl
      have hstays := hkept hleads packet hpacket
      rw [htruncation] at hstays
      cases hstays

/-- **A step of the cluster.** -/
theorem step (h : FlagInv C a k m w) (ha : a ∈ C.members) (hk : (C.config a).peers[k]? = some m)
    (hroute : Leader.getQuorumWorkerIndex m a = k) {label : Label}
    (hkept : w.KeepsTruncations a label) (hok : w.AsksBeforeEnd a m label)
    (hclear : w.EntersClear C a k label) : FlagInv C a k m (w.step C label) := by
  refine ⟨h.connected.step label, staffed_step h.staffed label, fun hleads' hflag => ?_⟩
  by_cases hleads : w.Leads a
  · exact h.answered_step ha hk hroute hkept hok hleads hleads' hflag
  · exact absurd (flagged_of_elected hleads hleads' hflag) (hclear hleads hleads')

end FlagInv

end Cluster

/-- The tasks that a leader answers with. -/
def LocalQuorumWorkerTaskType.isRepair : LocalQuorumWorkerTaskType → Bool
  | .backfillLog _ | .truncateLog .. => true
  | _ => false

theorem LocalQuorumWorkerTaskType.Answers.isRepair {task : LocalQuorumWorkerTaskType}
    (h : task.Answers) : task.isRepair = true := by
  cases task with
  | backfillLog data => rfl
  | truncateLog id prevTerm prevIndex => rfl
  | _ => exact h.elim

theorem UnderWay.isRepair {w : World} {a k m : ℕ} (h : UnderWay (·.Answers) w a k m) :
    UnderWay (·.isRepair = true) w a k m := by
  refine h.imp_left fun hholds => ?_
  cases hholds with
  | response term index waits => exact .response term index waits
  | noted term index waits => exact .noted term index waits
  | queued task answers waits => exact .queued task answers.isRepair waits

/-- **A backfill is not wedged.**  In every run of the cluster, while node `a` leads, the flag of its
worker for the peer `m` is set only as long as the answer is under way: if repairs of the peer are
handed to its worker, if no message of a truncation is lost while the node leads, if no request of
the peer that it handles names its own last entry, and if no backfill of the worker is ongoing when
the node is elected. -/
theorem backfill_under_way [Capnp] [ParsesSocketAddr] (C : Cluster) (clock : ℕ → Clock)
    (accepts : ℕ → ℕ → Bool) (labels : List Label) {a k m : ℕ} (ha : a ∈ C.members)
    (hk : (C.config a).peers[k]? = some m) (hroute : Leader.getQuorumWorkerIndex m a = k)
    (hrun : Runs.AllSteps (World.step C)
      (fun w label => w.KeepsTruncations a label ∧ w.AsksBeforeEnd a m label ∧
        w.EntersClear C a k label) (World.start C clock accepts) labels) :
    let w := Runs.run (World.step C) (World.start C clock accepts) labels
    w.Leads a → (w.process a).Flagged k → UnderWay (·.isRepair = true) w a k m := by
  intro w hleads hflag
  have hinv : FlagInv C a k m w := hrun.invariant (FlagInv C a k m)
    (fun w label h hok => h.step ha hk hroute hok.1 hok.2.1 hok.2.2)
    ⟨.start clock accepts, fun b _ => staffed_start clock accepts b, fun hlead => nomatch hlead⟩
  exact (hinv.answered hleads hflag).isRepair

/-- The leader, node 1, takes a refusal of node 3 from its queue, answers it, and its worker
processes the answer. -/
def answerRefusal (now : ℕ) : List Label :=
  [.part 1 now .popQuorum, .part 1 now .finish, .act 1 (.workerTask 1 now)]

/-- Node 3 stores the no-op entry of the leader, node 1, restarts before it is on disk, and refuses
two heartbeats with its empty log. -/
def refusedTwice : List Label :=
  [.act 1 (.workerTask 1 1007), .act 1 (.workerTask 1 1007), .act 1 (.workerTask 1 1007),
    .deliver 0, .act 3 (.accept ⟨1008, 0⟩), .deliver 0, .act 3 (.accept ⟨1008, 0⟩),
    .act 3 (.restart ⟨1009, 0⟩ 0 fun _ => true), .act 1 (.heartbeat 1 1200),
    .act 1 (.heartbeat 1 1400), .deliver 0, .act 3 (.accept ⟨1401, 0⟩), .act 3 (.answer 0 0),
    .deliver 0, .act 3 (.accept ⟨1401, 0⟩), .act 3 (.answer 0 0)]

/-- A run of three nodes. -/
def runOfThree (labels : List Label) : World :=
  letI := digitCapnp
  letI := sampleAddresses
  Runs.run (World.step clusterOfThree)
    (World.start clusterOfThree (fun _ => ⟨0, 0⟩) fun _ _ => true) labels

/-- The first refusal arrives, and the request for a backfill waits at the leader. -/
theorem backfill_under_way_refused :
    ((runOfThree (officeOfNodeOne ++ refusedTwice ++ [.deliver 0])).process 1).Flagged 1 ∧
      UnderWay (·.isRepair = true) (runOfThree (officeOfNodeOne ++ refusedTwice ++ [.deliver 0]))
        1 1 3 := by
  have hflag : ((runOfThree (officeOfNodeOne ++ refusedTwice ++
      [.deliver 0])).process 1).Flagged 1 := by
    decide +kernel
  have hleads : (runOfThree (officeOfNodeOne ++ refusedTwice ++ [.deliver 0])).Leads 1 := by
    decide +kernel
  have hunder := @backfill_under_way digitCapnp sampleAddresses clusterOfThree (fun _ => ⟨0, 0⟩)
    (fun _ _ => true) (officeOfNodeOne ++ refusedTwice ++ [.deliver 0]) 1 1 3 (by decide)
    (by decide) (by decide) (by decide +kernel)
  exact ⟨hflag, hunder hleads hflag⟩

/-- Each refusal is answered with the entry.  Node 3 stores it and refuses it the second time: its
log ends as the leader's does, and the answer has no entries. -/
def answeredTwice : List Label :=
  refusedTwice ++ [.deliver 0] ++ answerRefusal 1402 ++ [.deliver 0] ++ answerRefusal 1403 ++
    [.deliver 0, .act 3 (.accept ⟨1404, 0⟩), .deliver 0, .act 3 (.accept ⟨1405, 0⟩),
      .act 3 (.answer 0 1), .deliver 0] ++ answerRefusal 1406

/-- Nothing is under way if nothing waits and nothing travels. -/
theorem not_underWay {w : World} {a k m : ℕ}
    (hresponse : (w.process a).node.shared.quorumResponse = [])
    (hnoted : (w.process a).node.machine.backfillRequests = [])
    (hqueue : (w.process a).node.queue k = []) (hnet : w.net = []) : ¬ UnderWay P w a k m := by
  rintro (hholds | ⟨_, _, _, _, _, hmem⟩ | ⟨_, _, hmem⟩)
  · cases hholds with
    | response term index waits =>
      rw [hresponse] at waits
      cases waits
    | noted term index waits =>
      rw [hnoted] at waits
      cases waits
    | queued task answers waits =>
      rw [hqueue] at waits
      cases waits
  · rw [hnet] at hmem
    cases hmem
  · rw [hnet] at hmem
    cases hmem

/-- Node 1 has the request for a backfill of node 3 in its queue when it learns of node 2, the
leader of term 2, and drops the request as follower. -/
def dropsRequest : List Label :=
  refusedTwice ++ [.deliver 0, .deliver 0, .part 2 3000 .finish, .act 2 .processTask,
    .part 2 3001 .popPersistence, .part 3 3000 .finish, .act 2 (.workerTask 1 3002), .deliver 0,
    .act 3 (.accept ⟨3003, 0⟩), .act 3 .processTask, .part 3 3004 .popPersistence,
    .act 3 (.answer 1 0), .deliver 0, .part 2 3005 .popQuorum, .part 2 3006 .takeOffice,
    .act 2 (.workerTask 0 3007), .deliver 0, .act 1 (.accept ⟨3008, 0⟩), .act 2 (.workerTask 0 3009),
    .act 2 (.workerTask 0 3009), .deliver 0, .act 1 (.accept ⟨3010, 0⟩), .part 1 3011 .popQuorum]

/-- Node 1 is elected again, in term 3, by the vote of node 3, which refuses its first entry. -/
def reelectedNodeOne : List Label :=
  dropsRequest ++ [.part 1 4000 .finish, .part 1 4000 .finish, .act 1 .processTask,
    .act 1 .processTask, .act 1 .processTask, .act 1 .flush, .part 1 4001 .popPersistence,
    .part 1 4001 .popPersistence, .part 1 4001 .popPersistence, .act 1 (.workerTask 1 4002),
    .act 1 (.workerTask 1 4002), .deliver 0, .act 3 (.accept ⟨4003, 0⟩), .act 3 .processTask,
    .part 3 4004 .popPersistence, .act 3 (.answer 0 0), .deliver 0, .part 1 4005 .popQuorum,
    .part 1 4006 .takeOffice, .act 1 (.workerTask 1 4007), .act 1 (.workerTask 1 4007), .deliver 0,
    .act 3 (.accept ⟨4008, 0⟩), .act 3 (.answer 0 0), .deliver 0]

/-- The property of `backfill_under_way`, for runs whose steps meet the given condition. -/
def NeverWedged (met : ∀ [Capnp] [ParsesSocketAddr], Cluster → ℕ → ℕ → ℕ → World → Label → Prop) :
    Prop :=
  ∀ (_ : Capnp) (_ : LawfulCapnp) (_ : ParsesSocketAddr) (C : Cluster) (clock : ℕ → Clock)
    (accepts : ℕ → ℕ → Bool) (labels : List Label) (a k m : ℕ), a ∈ C.members →
      (C.config a).peers[k]? = some m → Leader.getQuorumWorkerIndex m a = k →
      Runs.AllSteps (World.step C) (met C a k m) (World.start C clock accepts) labels →
      let w := Runs.run (World.step C) (World.start C clock accepts) labels
      w.Leads a → (w.process a).Flagged k → UnderWay (·.isRepair = true) w a k m

/-- **Wedged backfills**, on connections that deliver everything in order.  A request that names the
leader's last entry is answered with no entries, which leaves the flag set; and a flag that was set
in an earlier office, whose request the node has dropped as follower, is still set when it is
elected again, so that the peer's next refusal is ignored. -/
theorem backfill_wedged :
    (¬ NeverWedged fun C a k _ w label => w.FifoStep label ∧ w.EntersClear C a k label) ∧
      ¬ NeverWedged fun _ a _ m w label => w.FifoStep label ∧ w.AsksBeforeEnd a m label := by
  constructor
  · intro h
    refine not_underWay ?_ ?_ ?_ ?_ (h digitCapnp lawful_digitCapnp sampleAddresses clusterOfThree
      (fun _ => ⟨0, 0⟩) (fun _ _ => true) (officeOfNodeOne ++ answeredTwice) 1 1 3 (by decide)
      (by decide) (by decide) (by decide +kernel) (by decide +kernel) (by decide +kernel))
    all_goals decide +kernel
  · intro h
    refine not_underWay ?_ ?_ ?_ ?_ (h digitCapnp lawful_digitCapnp sampleAddresses clusterOfThree
      (fun _ => ⟨0, 0⟩) (fun _ _ => true) (officeOfNodeOne ++ reelectedNodeOne) 1 1 3 (by decide)
      (by decide) (by decide) (by decide +kernel) (by decide +kernel) (by decide +kernel))
    all_goals decide +kernel

end Kraft
