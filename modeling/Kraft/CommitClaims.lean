/-
# What a commit index on its way stands for

A leader tells its quorum workers its commit index, the workers put it into the requests they send,
and a follower takes it over.  Nothing in a request says which log the index was committed in, but
there is one it can be read in: that of the leader of the term of the entry, or of the end of log,
which the request names.

* `LeaderView` is what a worker knows of its leader, and `LeaderView.tell` how its tasks change it.
* `commitFlow` : every commit index that travels is `Sure` in the log it is to be read in.
* `Process.Informed` : once its workers have done their tasks, they know the end of the log of a
  leader in office, and no higher commit index than it has.
* `Tells` : what a step hands to the workers keeps both; `tells_step` says that every event of a node
  does so.
-/
import Kraft.CommittedPrefix
import Kraft.EntrySets

namespace Kraft

open SharedState StateMachine

/-! ## What a worker knows of its leader -/

/-- The end of the leader's log and its commit index, as a quorum worker knows them. -/
@[ext] structure LeaderView where
  prevLogIndex : ℕ
  prevLogTerm : ℕ
  commitIndex : ℕ

variable {w : QuorumWorker} {v : LeaderView} {Sure' : ℕ → ℕ → Prop} {p : Process} {k : ℕ}

/-- What the worker knows. -/
def QuorumWorker.view (w : QuorumWorker) : LeaderView :=
  ⟨w.prevLogIndex, w.prevLogTerm, w.commitIndex⟩

/-- What it knows after a task. -/
def LeaderView.tell (v : LeaderView) : LocalQuorumWorkerTaskType → LeaderView
  | .startHeartbeats _ _ prevTerm prevLogIndex commitIndex => ⟨prevLogIndex, prevTerm, commitIndex⟩
  | .appendEntries _ entry commitIndex => ⟨entry.index, entry.term, commitIndex⟩
  | .updateCommitIndex commitIndex => { v with commitIndex := commitIndex }
  | _ => v

theorem SameView.view {w' : QuorumWorker} (h : SameView w w') : w'.view = w.view :=
  LeaderView.ext h.prevLogIndex h.prevLogTerm h.commitIndex

/-- A task changes what the worker knows. -/
theorem QuorumWorker.view_processTask (utf8Lossy : List UInt8 → List UInt8) (now : ℕ)
    (task : LocalQuorumWorkerTaskType) (w : QuorumWorker) :
    (w.processTask utf8Lossy now task).1.view = w.view.tell task := by
  cases task with
  | backfillLog data =>
    show (w.sendBackfillEntries now data).1.view = w.view
    unfold sendBackfillEntries
    split_ifs <;> rfl
  | _ => rfl

/-! ## The flow of commit indices -/

section Flow

variable (Sure : ℕ → ℕ → Prop)

/-- The commit index is inside the leader's log, and sure in the log of the leader of the term at its
end. -/
def LeaderView.Backed (v : LeaderView) : Prop :=
  v.commitIndex = 0 ∨ v.commitIndex ≤ v.prevLogIndex ∧ Sure v.prevLogTerm v.commitIndex

/-- The commit index that goes with an entry is sure in the log of the leader of its term, if it is
not beyond the entry. -/
def SureUpTo (commitIndex index term : ℕ) : Prop :=
  commitIndex = 0 ∨ (commitIndex ≤ index → Sure term commitIndex)

/-- A task for a worker that knows `v`: it knows something backed afterwards, and the entries of a
backfill go with the commit index it knows before. -/
def LeaderView.Vouches (v : LeaderView) (task : LocalQuorumWorkerTaskType) : Prop :=
  (v.tell task).Backed Sure ∧ ∀ data, task = .backfillLog data →
    ∀ entry ∈ data, SureUpTo Sure v.commitIndex entry.index entry.term

/-- The commit index of a request. -/
def CommitOf (request : LocalAppendEntries) : Prop :=
  match request.entry with
  | some entry => SureUpTo Sure request.commitIndex entry.index entry.term
  | none => request.commitIndex = 0 ∨
      request.commitIndex ≤ request.prevIndex ∧ Sure request.prevTerm request.commitIndex

/-- The commit index of a message. -/
def CommitMessage : QuorumMessage → Prop
  | .appendEntriesRequest request => CommitOf Sure request
  | _ => True

variable {Sure}

/-- A worker that has done its tasks. -/
theorem LeaderView.Backed.run (hv : v.Backed Sure) {tasks : List LocalQuorumWorkerTaskType}
    (h : Runs.AllSteps LeaderView.tell (LeaderView.Vouches Sure) v tasks) :
    (Runs.run LeaderView.tell v tasks).Backed Sure :=
  h.invariant (LeaderView.Backed Sure) (fun _ _ _ hvouches => hvouches.1) hv

/-- What the worker sends for a task. -/
theorem commitMessage_processTask (utf8Lossy : List UInt8 → List UInt8) (now : ℕ)
    {task : LocalQuorumWorkerTaskType} (h : w.view.Vouches Sure task) :
    ∀ m ∈ (w.processTask utf8Lossy now task).2.messages, CommitMessage Sure m := by
  intro m hm
  cases (w.processTask_sends utf8Lossy now task).2 m hm with
  | entry => exact h.1.imp_right fun hsure _ => hsure.2
  | backfill hentry => exact h.2 _ rfl _ hentry
  | _ => trivial

variable (Sure)

/-- Sure commit indices travel. -/
def commitFlow : Flow where
  channel w tasks := w.view.Backed Sure ∧
    Runs.AllSteps LeaderView.tell (LeaderView.Vouches Sure) w.view tasks
  message := CommitMessage Sure
  fresh _ _ := ⟨Or.inl rfl, trivial⟩
  view hsame h := by
    rw [hsame.view]
    exact h
  forward batchId batch callback h := by
    refine ⟨h.1, (Runs.allSteps_append ..).mpr ⟨h.2, ⟨h.1.run h.2, ?_⟩, trivial⟩⟩
    rintro data ⟨⟩
  sends {w task rest} utf8Lossy now h := by
    rw [w.view_processTask utf8Lossy now task]
    exact ⟨⟨h.2.1.1, h.2.2⟩, commitMessage_processTask utf8Lossy now h.2.1⟩
  heartbeat h := h.1
  vote _ _ := trivial
  reply {m} h := by cases m <;> trivial

variable {Sure}

/-- More becomes sure. -/
theorem LeaderView.Backed.mono (hle : ∀ term k, Sure term k → Sure' term k) (h : v.Backed Sure) :
    v.Backed Sure' :=
  h.imp_right fun hsure => ⟨hsure.1, hle _ _ hsure.2⟩

theorem SureUpTo.mono (hle : ∀ term k, Sure term k → Sure' term k) {commitIndex index term : ℕ}
    (h : SureUpTo Sure commitIndex index term) : SureUpTo Sure' commitIndex index term :=
  h.imp_right fun hsure hk => hle _ _ (hsure hk)

theorem LeaderView.Vouches.mono (hle : ∀ term k, Sure term k → Sure' term k)
    {task : LocalQuorumWorkerTaskType} (h : v.Vouches Sure task) : v.Vouches Sure' task :=
  ⟨h.1.mono hle, fun data hdata entry hentry => (h.2 data hdata entry hentry).mono hle⟩

theorem CommitMessage.mono (hle : ∀ term k, Sure term k → Sure' term k) {m : QuorumMessage}
    (h : CommitMessage Sure m) : CommitMessage Sure' m := by
  cases m with
  | appendEntriesRequest request =>
    change CommitOf Sure request at h
    show CommitOf Sure' request
    unfold CommitOf at h ⊢
    split at h
    · exact h.mono hle
    · exact h.imp_right fun hsure => ⟨hsure.1, hle _ _ hsure.2⟩
  | _ => trivial

end Flow

/-! ## Leaders in office -/

/-- A worker knows the end of the leader's log, and no higher commit index than it has. -/
structure LeaderView.Knows (v : LeaderView) (s : SharedState) : Prop where
  prevLogIndex : v.prevLogIndex = s.lastLogIndex
  prevLogTerm : v.prevLogTerm = s.lastLogTerm
  commitIndex : v.commitIndex ≤ s.commitIndex

namespace Process

/-- What worker `k` knows once it has done its tasks. -/
def outlook (p : Process) (k : ℕ) : Option LeaderView :=
  p.workers[k]?.bind fun w => p.node.shared.quorumWorkerTasks[k]?.map fun tasks =>
    Runs.run LeaderView.tell w.view tasks

/-- The workers of a leader in office know it. -/
def Informed (p : Process) : Prop :=
  p.node.machine.delegate = .leader true → ∀ k, ∀ v ∈ p.outlook k, v.Knows p.node.shared

/-- A worker has acted. -/
theorem outlook_emit {n : Node} {result : QuorumWorker × WorkerOutput}
    (hw : p.workers[k]? = some w)
    (hqueue : ∀ j, k ≠ j → n.shared.quorumWorkerTasks[j]? = p.node.shared.quorumWorkerTasks[j]?)
    (hview : (n.shared.quorumWorkerTasks[k]?.map fun tasks =>
        Runs.run LeaderView.tell result.1.view tasks) =
      p.node.shared.quorumWorkerTasks[k]?.map fun tasks => Runs.run LeaderView.tell w.view tasks)
    (j : ℕ) : ({ p with node := n }.emit k result).1.outlook j = p.outlook j := by
  show ((p.workers.set k result.1)[j]?.bind fun w => n.shared.quorumWorkerTasks[j]?.map fun tasks =>
    Runs.run LeaderView.tell w.view tasks) = _
  unfold outlook
  by_cases hk : k = j
  · subst hk
    rw [List.getElem?_set_self (List.getElem?_eq_some_iff.mp hw).1, hw]
    exact hview
  · rw [List.getElem?_set_ne hk, hqueue j hk]

/-- A worker that does not touch its tasks keeps its picture of the leader. -/
theorem outlook_emit_of_view {result : QuorumWorker × WorkerOutput} (hw : p.workers[k]? = some w)
    (hview : result.1.view = w.view) (j : ℕ) : (p.emit k result).1.outlook j = p.outlook j :=
  outlook_emit (n := p.node) hw (fun _ _ => rfl) (by rw [hview]) j

/-- What arrives does not change what is to be known, -/
theorem outlook_receive (p : Process) (src : ℕ) (message : QuorumMessage) (k : ℕ) :
    (p.receive src message).1.outlook k = p.outlook k := by
  unfold Process.receive
  split
  · split
    · next w hw => exact outlook_emit_of_view hw (w.sameView_handleInboundMessage message).view k
    · rfl
  · rfl

/-- nor does a task that is done, -/
theorem outlook_workerTask (p : Process) (utf8Lossy : List UInt8 → List UInt8) (i now k : ℕ) :
    (p.workerTask utf8Lossy i now).1.outlook k = p.outlook k := by
  unfold Process.workerTask
  split
  · next w task rest hw htasks =>
    refine outlook_emit hw (fun j hj => List.getElem?_set_ne hj) ?_ k
    show Option.map _ (p.node.shared.quorumWorkerTasks.set i rest)[i]? = _
    rw [List.getElem?_set_self (List.getElem?_eq_some_iff.mp htasks).1, htasks,
      w.view_processTask utf8Lossy now task]
    rfl
  · rfl

/-- nor an answer. -/
theorem outlook_answer (p : Process) (i j k : ℕ) : (p.answer i j).1.outlook k = p.outlook k := by
  unfold Process.answer
  split
  · next w hw =>
    split
    · split
      · exact outlook_emit hw (fun _ _ => rfl) rfl k
      · rfl
    · rfl
  · rfl

variable [Capnp]

/-- **An exchange with the quorum workers.** -/
theorem outlook_exchange {event : ProcessEvent} (h : p.nodeEvent event = none)
    (utf8Lossy : List UInt8 → List UInt8) (k : ℕ) :
    (p.step utf8Lossy event).1.outlook k = p.outlook k := by
  cases event with
  | accept clock =>
    obtain ⟨n, inbox, workers⟩ := p
    cases inbox with
    | nil => rfl
    | cons message rest => cases h
  | workerTask i now => exact p.outlook_workerTask utf8Lossy i now k
  | heartbeat i now =>
    show (p.heartbeat i now).1.outlook k = _
    unfold Process.heartbeat
    split
    · next w hw => exact outlook_emit_of_view hw (w.sameView_sendHeartbeatIfNeeded now).view k
    · rfl
  | answer i j => exact p.outlook_answer i j k
  | write batch callback => rfl
  | askLeader callback => rfl
  | forward i batchId batch callback =>
    show (p.workers[k]?.bind fun w => ((p.node.shared.quorumWorkerTasks.modify i
      (· ++ [.writeBatch batchId batch callback]))[k]?.map fun tasks =>
        Runs.run LeaderView.tell w.view tasks)) = _
    unfold outlook
    rw [List.getElem?_modify]
    rcases p.workers[k]? with _ | w
    · rfl
    · rcases p.node.shared.quorumWorkerTasks[k]? with _ | tasks
      · rfl
      · by_cases hi : i = k
        · simp [hi, Runs.run_append, LeaderView.tell]
        · simp [hi]
  | _ => cases h

/-- The state machine and the persistence worker leave the quorum workers alone. -/
theorem workers_step {event : ProcessEvent} {e : NodeEvent} (he : p.nodeEvent event = some e)
    (hrestart : e.isRestart = false) (utf8Lossy : List UInt8 → List UInt8) :
    (p.step utf8Lossy event).1.workers = p.workers := by
  cases event with
  | accept clock =>
    obtain ⟨n, inbox, workers⟩ := p
    cases inbox with
    | nil => cases he
    | cons message rest => rfl
  | restart clock written accepts =>
    obtain rfl := Option.some.inj he
    cases hrestart
  | timeStep clock part => rfl
  | processTask => rfl
  | flush => rfl
  | _ => cases he

end Process

/-! ## What a step tells the workers -/

/-- The commit index is a position of the log, and every index up to it is sure in the logs of the
leaders of the entries from there on. -/
structure CommitsSurely (Sure : ℕ → ℕ → Prop) (s : SharedState) : Prop where
  inLog : s.commitIndex = 0 ∨ s.commitIndex < s.replicationLog.length
  sure : ∀ k ≤ s.commitIndex, k ≠ 0 → ∀ (i : ℕ) (entry : OwnedLogEntry), k ≤ i →
    s.replicationLog[i]? = some entry → Sure entry.term k

section Tells

variable {Sure : ℕ → ℕ → Prop} {sm sm' : StateMachine}

/-- What a worker knows of a leader is backed. -/
theorem CommitsSurely.backed (h : CommitsSurely Sure sm.shared) (hrepresented : Represented sm)
    (hknows : v.Knows sm.shared) : v.Backed Sure := by
  by_cases hzero : v.commitIndex = 0
  · exact Or.inl hzero
  have hle := hknows.commitIndex
  have hlt := h.inLog.resolve_left (by omega)
  have hends := hrepresented.ends
  right
  rcases List.eq_nil_or_concat sm.shared.replicationLog with hnil | ⟨init, last, hconcat⟩
  · rw [hnil] at hlt
    cases hlt
  rw [List.concat_eq_append] at hconcat
  rw [hconcat, List.length_append, List.length_singleton] at hlt
  rw [hconcat, logEnd, LeaderLogs.endOf_concat, Prod.mk.injEq] at hends
  rw [hknows.prevLogIndex, hknows.prevLogTerm, hends.1, hends.2]
  exact ⟨by omega, h.sure _ hle hzero init.length last (by omega) (by simp [hconcat])⟩

/-- What the step hands to the workers is vouched for, and the workers of a leader in office know it
afterwards. -/
def Tells (Sure : ℕ → ℕ → Prop) (sm sm' : StateMachine) : Prop :=
  ∃ new, Queued sm.shared sm'.shared new ∧ ∀ k v, v.Backed Sure →
    (sm.delegate = .leader true → v.Knows sm.shared) →
      Runs.AllSteps LeaderView.tell (LeaderView.Vouches Sure) v (new k) ∧
        (sm'.delegate = .leader true → (Runs.run LeaderView.tell v (new k)).Knows sm'.shared)

/-- Nothing is handed over, and the node is no leader in office. -/
theorem Tells.of_queues (hqueues : sm'.shared.quorumWorkerTasks = sm.shared.quorumWorkerTasks)
    (hrole : sm'.delegate ≠ .leader true) : Tells Sure sm sm' :=
  ⟨_, .of_eq hqueues, fun _ _ _ _ => ⟨trivial, fun hlead => absurd hlead hrole⟩⟩

/-- Routine tasks. -/
theorem Routine.tells {starts : Bool} (hrepresented : Represented sm') (hsame : SameEnd sm.shared sm'.shared)
    (hsure : CommitsSurely Sure sm'.shared) {tasks : List LocalQuorumWorkerTaskType}
    (htasks : ∀ task ∈ tasks, Routine starts sm sm' task) : ∀ {v : LeaderView}, v.Backed Sure →
      (sm.delegate = .leader true → v.Knows sm'.shared) →
        Runs.AllSteps LeaderView.tell (LeaderView.Vouches Sure) v tasks ∧
          (sm.delegate = .leader true → (Runs.run LeaderView.tell v tasks).Knows sm'.shared) := by
  induction tasks with
  | nil => exact fun _ hknows => ⟨trivial, hknows⟩
  | cons task rest ih =>
    intro v hv hknows
    have hroutine := htasks task (.head _)
    have hrest := fun task htask => htasks task (.tail _ htask)
    -- the worker vouches for the task, and knows the leader after it
    suffices hone : v.Vouches Sure task ∧
        (sm.delegate = .leader true → (v.tell task).Knows sm'.shared) by
      obtain ⟨hall, hlast⟩ := ih hrest hone.1.1 hone.2
      exact ⟨⟨hone.1, hall⟩, hlast⟩
    cases task with
    | appendEntries id entry commitIndex => exact hroutine.elim
    | startHeartbeats id term prevTerm prevIndex commitIndex => exact hroutine.elim
    | updateCommitIndex commitIndex =>
      obtain ⟨hlead, rfl⟩ := hroutine
      have hnext : (v.tell (.updateCommitIndex sm'.shared.commitIndex)).Knows sm'.shared :=
        ⟨(hknows hlead).prevLogIndex, (hknows hlead).prevLogTerm, le_rfl⟩
      refine ⟨⟨hsure.backed hrepresented hnext, ?_⟩, fun _ => hnext⟩
      rintro data ⟨⟩
    | backfillLog data =>
      obtain ⟨hlead, hdata⟩ := hroutine
      refine ⟨⟨hv, fun data' heq entry hentry => ?_⟩, hknows⟩
      obtain rfl := LocalQuorumWorkerTaskType.backfillLog.inj heq
      rw [← hsame.log] at hdata
      obtain ⟨i, hi⟩ := List.getElem?_of_mem (hdata entry hentry)
      have hindex := hrepresented.log.index i entry hi
      by_cases hzero : v.commitIndex = 0
      · exact Or.inl hzero
      · exact Or.inr fun hle => hsure.sure _ (hknows hlead).commitIndex hzero i entry (by omega) hi
    | _ =>
      refine ⟨⟨hv, ?_⟩, hknows⟩
      rintro data ⟨⟩

/-- A leader that only commits. -/
theorem Stays.tells {starts : Bool} (h : Stays starts sm sm') (hrepresented : Represented sm')
    (hcommit : sm.shared.commitIndex ≤ sm'.shared.commitIndex)
    (hsure : CommitsSurely Sure sm'.shared) : Tells Sure sm sm' := by
  obtain ⟨new, hqueued, htasks⟩ := h.queues
  refine ⟨new, hqueued, fun k v hv hknows => ?_⟩
  obtain ⟨hall, hlast⟩ := Routine.tells hrepresented h.same hsure (htasks k) hv fun hlead =>
    ⟨(hknows hlead).prevLogIndex.trans h.same.lastLogIndex.symm,
      (hknows hlead).prevLogTerm.trans h.same.lastLogTerm.symm,
      (hknows hlead).commitIndex.trans hcommit⟩
  exact ⟨hall, fun hlead => hlast ((h.leads (by rw [hlead]; rfl)).1 ▸ hlead)⟩

/-- A leader that appends. -/
theorem Appends.tells {idx : ℕ} {first : List LocalQuorumWorkerTaskType}
    (h : Appends idx first sm sm') (hfirst : ∀ v : LeaderView, v.Backed Sure →
      Runs.AllSteps LeaderView.tell (LeaderView.Vouches Sure) v first)
    (hrepresented : Represented sm') (hcommit : sm.shared.commitIndex ≤ sm'.shared.commitIndex)
    (hsure : CommitsSurely Sure sm'.shared) : Tells Sure sm sm' := by
  obtain ⟨id, timestamp, commands, -, -, hqueued⟩ := h.entry
  refine ⟨_, hqueued, fun k v hv _ => ?_⟩
  have hknows : (Runs.run LeaderView.tell v (first ++ [.appendEntries id
      (Leader.buildLogEntry sm.shared idx id timestamp commands) sm.shared.commitIndex])).Knows
        sm'.shared := by
    rw [Runs.run_append]
    exact ⟨h.lastLogIndex.symm, h.lastLogTerm.symm, hcommit⟩
  refine ⟨(Runs.allSteps_append ..).mpr ⟨hfirst v hv, ⟨?_, ?_⟩, trivial⟩, fun _ => hknows⟩
  · rw [Runs.run_append] at hknows
    exact hsure.backed hrepresented hknows
  · rintro data ⟨⟩

end Tells

/-! ## One event of a node -/

section Node

variable [Capnp] {Sure : ℕ → ℕ → Prop}

/-- **One event of a node** tells the workers only what is sure. -/
theorem tells_step {n : Node} {e : NodeEvent} (hrepresented : Represented n.machine)
    (hrepresented' : Represented (n.step e).machine) (hopen : n.shared.persistenceOpen = true)
    (hdata : ∀ clock message, e = .accept clock message → ∀ request,
      message.payload = .appendEntries request → ∀ entry ∈ request.entry,
        ∃ owned, entry.data = .message owned)
    (hrestart : e.isRestart = false)
    (hcommit : n.shared.commitIndex ≤ (n.step e).shared.commitIndex)
    (hsure : CommitsSurely Sure n.shared) (hsure' : CommitsSurely Sure (n.step e).shared) :
    Tells Sure n.machine (n.step e).machine := by
  have hstays : ∀ {starts}, Stays starts n.machine (n.step e).machine →
      Tells Sure n.machine (n.step e).machine :=
    fun hstays => hstays.tells hrepresented' hcommit hsure'
  cases e with
  | accept clock message =>
    rcases accept_replication clock message n.machine hopen (hdata clock message rfl) with
      h | ⟨request, entry, owned, -, hstores⟩ | ⟨batch, -, hwrites⟩
    · exact hstays h
    · refine .of_queues hstores.queues fun hlead => ?_
      have hrole := hstores.role'
      rw [show (n.machine.accept clock message).delegate = .leader true from hlead] at hrole
      cases hrole
    · exact hwrites.toAppends.tells (fun _ _ => trivial) hrepresented' hcommit hsure'
  | timeStep clock part =>
    rcases runPart_replication clock n.machine part with h | ⟨-, hoffice⟩ |
      ⟨term, -, hwins⟩ | ⟨-, node, prevTerm, prevIndex, rest, -, hcuts⟩
    · exact hstays h
    · refine hoffice.toAppends.tells (fun v _ => ⟨⟨?_, ?_⟩, trivial⟩) hrepresented' hcommit hsure'
      · exact hsure.backed hrepresented ⟨rfl, rfl, le_rfl⟩
      · rintro data ⟨⟩
    · refine .of_queues hwins.queues fun hlead => ?_
      cases hwins.role'.symm.trans hlead
    · refine .of_queues hcuts.queues fun hlead => ?_
      have hrole := hcuts.role'
      rw [show (n.machine.runPart clock part).delegate = .leader true from hlead] at hrole
      cases hrole
  | respond response =>
    have h : Stays false n.machine (n.step (.respond response)).machine :=
      .of_eq ⟨rfl, rfl, rfl⟩ rfl rfl rfl rfl
    exact hstays h
  | processTask => exact hstays (.of_serves (Node.serves_processTask n))
  | flush => exact hstays (.of_serves (Node.serves_flush n))
  | restart clock written accepts => cases hrestart

omit [Capnp] in
/-- A worker with its queue after such a step. -/
theorem Tells.queue {n n' : Node} (h : Tells Sure n.machine n'.machine)
    (hchannel : (commitFlow Sure).channel w (n.queue k))
    (hknows : n.machine.delegate = .leader true → ∀ tasks,
      n.shared.quorumWorkerTasks[k]? = some tasks →
        (Runs.run LeaderView.tell w.view tasks).Knows n.shared) :
    (commitFlow Sure).channel w (n'.queue k) ∧
      (n'.machine.delegate = .leader true → ∀ tasks,
        n'.shared.quorumWorkerTasks[k]? = some tasks →
          (Runs.run LeaderView.tell w.view tasks).Knows n'.shared) := by
  obtain ⟨new, hqueued, hnew⟩ := h
  have hqueue : n'.shared.quorumWorkerTasks[k]? =
    n.shared.quorumWorkerTasks[k]?.map (· ++ new k) := hqueued k
  unfold Node.queue at hchannel ⊢
  rw [hqueue]
  rcases htasks : n.shared.quorumWorkerTasks[k]? with _ | tasks
  · rw [htasks] at hchannel
    exact ⟨hchannel, fun _ tasks htasks => nomatch htasks⟩
  · rw [htasks] at hchannel
    obtain ⟨hall, hlast⟩ := hnew k _ (hchannel.1.run hchannel.2) fun hlead => hknows hlead tasks htasks
    refine ⟨⟨hchannel.1, (Runs.allSteps_append ..).mpr ⟨hchannel.2, hall⟩⟩, fun hlead tasks' htasks' => ?_⟩
    obtain rfl := Option.some.inj htasks'
    show (Runs.run LeaderView.tell w.view (tasks ++ new k)).Knows n'.shared
    rw [Runs.run_append]
    exact hlast hlead

omit [Capnp] in
/-- The worker of a leader will know it. -/
theorem Process.Informed.knows (h : p.Informed) (hw : p.workers[k]? = some w)
    (hlead : p.node.machine.delegate = .leader true) (tasks : List LocalQuorumWorkerTaskType)
    (htasks : p.node.shared.quorumWorkerTasks[k]? = some tasks) :
    (Runs.run LeaderView.tell w.view tasks).Knows p.node.shared := by
  refine h hlead k _ ?_
  unfold Process.outlook
  rw [hw, htasks]
  rfl

omit [Capnp] in
/-- The workers of the node after an exchange with them, -/
theorem Process.Informed.exchange {p' : Process} (h : p.Informed)
    (houtlook : ∀ k, p'.outlook k = p.outlook k) (hexchanges : Exchanges p.node p'.node) :
    p'.Informed := by
  intro hlead k v hv
  rw [houtlook k] at hv
  obtain ⟨responses, answers, tasks, hnode, -⟩ := hexchanges
  rw [hnode] at hlead ⊢
  have hknows := h hlead k v hv
  exact ⟨hknows.prevLogIndex, hknows.prevLogTerm, hknows.commitIndex⟩

/-- and after an event of the node. -/
theorem Process.Informed.step {p' : Process} (h : p.Informed) {e : NodeEvent}
    (hworkers : p'.workers = p.workers) (hnode : p'.node = p.node.step e)
    (htells : Tells Sure p.node.machine (p.node.step e).machine)
    (hcarries : Carries (commitFlow Sure) p) : p'.Informed := by
  intro hlead k v hv
  obtain ⟨w, hw, hv⟩ := Option.bind_eq_some_iff.mp hv
  obtain ⟨tasks, htasks, rfl⟩ := Option.map_eq_some_iff.mp hv
  rw [hworkers] at hw
  rw [hnode] at hlead htasks ⊢
  exact (htells.queue (hcarries.channels k w hw) (h.knows hw)).2 hlead tasks htasks

end Node

/-- **More becomes sure** in the whole cluster. -/
theorem World.Carries.commitFlow_mono [ParsesSocketAddr] {C : Cluster} {Sure : ℕ → ℕ → Prop}
    (hle : ∀ term k, Sure term k → Sure' term k) {w : World}
    (h : World.Carries C (commitFlow Sure) w) : World.Carries C (commitFlow Sure') w :=
  h.mono (fun _ _ hchannel => ⟨hchannel.1.mono hle, hchannel.2.mono fun _ _ hvouches => hvouches.mono hle⟩)
    fun _ hmessage => hmessage.mono hle

end Kraft
