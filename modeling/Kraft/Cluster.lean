/-
# A cluster of nodes

The processes of a cluster and the messages between them.  A process is a node with the
queue of requests to its state machine (`task_queue`) and one quorum worker for every
other member.  Each of its threads acts on its own: the state machine worker accepts a
request or runs a part of `time_step`, the persistence worker processes a task, a quorum
worker takes a task, finds an answer, or sends a heartbeat, and the write proxy hands in
client requests.

* `World.step` lets one thread act, delivers a message, or loses one.  Any message on its
  way may be the next one, so messages are delayed and overtake each other freely;
  `World.FifoStep` singles out the deliveries that keep the order of each connection.
* `Cluster` is a configuration of the whole cluster: every node has a configuration that
  `validate` accepts, under its own id, and all of them mean the same set of members.
-/
import Mathlib.Logic.Function.Basic
import Kraft.Config
import Kraft.Node
import Kraft.QuorumWorker

namespace Kraft

/-! ## Processes -/

/-- A message on its way from one node to another. -/
structure Packet where
  src : ℕ
  dst : ℕ
  message : QuorumMessage
  deriving DecidableEq

/-- The process of a node. -/
structure Process where
  node : Node
  /-- `task_queue` -/
  inbox : List LocalRaftMessage
  workers : List QuorumWorker

/-- What the threads of a process do. -/
inductive ProcessEvent
  /-- The state machine worker accepts the next request. -/
  | accept (clock : Clock)
  /-- The state machine worker runs a part of `time_step`. -/
  | timeStep (clock : Clock) (part : StateMachine.TimeStepPart)
  /-- The persistence worker processes the next task. -/
  | processTask
  /-- The persistence worker flushes. -/
  | flush
  /-- Quorum worker `k` processes the next task of the state machine. -/
  | workerTask (k now : ℕ)
  /-- Quorum worker `k` sends a heartbeat if one is due. -/
  | heartbeat (k now : ℕ)
  /-- Quorum worker `k` finds the answer of its `j`-th pending task. -/
  | answer (k j : ℕ)
  /-- The write proxy hands a batch to the state machine. -/
  | write (batch : OwnedWriteBatch) (callback : ℕ)
  /-- The write proxy hands a batch to quorum worker `k`. -/
  | forward (k : ℕ) (batchId : String) (batch : OwnedWriteBatch) (callback : ℕ)
  /-- The write proxy asks for the leader. -/
  | askLeader (callback : ℕ)
  /-- The process dies and starts again. -/
  | restart (clock : Clock) (written : ℕ) (accepts : ℕ → Bool)

namespace Process

variable [Capnp]

/-- `main`: the process of a node that starts on empty files. -/
def start (cfg : AppConfig) (clock : Clock) (accepts : ℕ → Bool) : Process where
  node := Node.start clock [] [] cfg.nodeId cfg.quorumSize cfg.peers.length accepts
  inbox := []
  workers := cfg.peers.map (QuorumWorker.new cfg.nodeId)

/-- Takes over the state of worker `k` and passes on what it has pushed and sent. -/
def emit (p : Process) (k : ℕ) (result : QuorumWorker × WorkerOutput) : Process × List Packet :=
  ({ node := p.node.withShared { p.node.shared with
        quorumResponse := p.node.shared.quorumResponse ++ result.2.responses }
     inbox := p.inbox ++ result.2.requests
     workers := p.workers.set k result.1 },
    result.2.messages.map fun message => ⟨result.1.selfId, result.1.memberId, message⟩)

/-- The state machine worker accepts the next request. -/
def accept (p : Process) (clock : Clock) : Process :=
  match p.inbox with
  | message :: rest => { p with inbox := rest, node := p.node.step (.accept clock message) }
  | [] => p

/-- Worker `k` processes the next task of its `work_queue`. -/
def workerTask (p : Process) (utf8Lossy : List UInt8 → List UInt8) (k now : ℕ) :
    Process × List Packet :=
  match p.workers[k]?, p.node.shared.quorumWorkerTasks[k]? with
  | some worker, some (task :: rest) =>
    { p with node := p.node.withShared { p.node.shared with
        quorumWorkerTasks := p.node.shared.quorumWorkerTasks.set k rest } }.emit k
      (worker.processTask utf8Lossy now task)
  | _, _ => (p, [])

/-- Worker `k` sends a heartbeat if one is due. -/
def heartbeat (p : Process) (k now : ℕ) : Process × List Packet :=
  match p.workers[k]? with
  | some worker => p.emit k (worker.sendHeartbeatIfNeeded now)
  | none => (p, [])

/-- Worker `k` receives the answer of its `j`-th pending task, if it is there. -/
def answer (p : Process) (k j : ℕ) : Process × List Packet :=
  match p.workers[k]? with
  | some worker =>
    match worker.pendingTasks[j]? with
    | some (channel, task) =>
      match p.node.shared.callbackResponses.lookup (.pending worker.memberId channel task) with
      | some payload =>
        { p with node := p.node.withShared { p.node.shared with
            callbackResponses := p.node.shared.callbackResponses.eraseP
              (·.1 = Callback.pending worker.memberId channel task) } }.emit k
          ({ worker with pendingTasks := worker.pendingTasks.eraseIdx j },
            worker.handlePendingTaskResponse task payload)
      | none => (p, [])
    | none => (p, [])
  | none => (p, [])

/-- The worker for the sender handles a message. -/
def receive (p : Process) (src : ℕ) (message : QuorumMessage) : Process × List Packet :=
  match p.workers.findIdx? (·.memberId = src) with
  | some k =>
    match p.workers[k]? with
    | some worker => p.emit k (worker.handleInboundMessage message)
    | none => (p, [])
  | none => (p, [])

/-- One event of a process, with the messages it sends. -/
def step (utf8Lossy : List UInt8 → List UInt8) (p : Process) : ProcessEvent → Process × List Packet
  | .accept clock => (p.accept clock, [])
  | .timeStep clock part => ({ p with node := p.node.step (.timeStep clock part) }, [])
  | .processTask => ({ p with node := p.node.step .processTask }, [])
  | .flush => ({ p with node := p.node.step .flush }, [])
  | .workerTask k now => p.workerTask utf8Lossy k now
  | .heartbeat k now => p.heartbeat k now
  | .answer k j => p.answer k j
  | .write batch callback =>
    ({ p with inbox := p.inbox ++ [⟨.writeBatch batch, .proxy callback⟩] }, [])
  | .forward k batchId batch callback =>
    let task := .writeBatch batchId batch callback
    ({ p with node := p.node.withShared (Leader.pushToWorker k task p.node.shared) }, [])
  | .askLeader callback =>
    ({ p with inbox := p.inbox ++ [⟨.getRaftState, .proxy callback⟩] }, [])
  | .restart clock written accepts =>
    ({ node := p.node.step (.restart clock written accepts)
       inbox := []
       workers := p.workers.map fun worker => .new worker.selfId worker.memberId }, [])

end Process

/-! ## The cluster -/

/-- A configuration of the cluster. -/
structure Cluster [ParsesSocketAddr] where
  members : Finset ℕ
  config : ℕ → AppConfig
  accepted : ∀ a ∈ members, (config a).validate = []
  nodeId : ∀ a ∈ members, (config a).nodeId = a
  agree : ∀ a ∈ members, (config a).members = members
  /-- `String::from_utf8_lossy` seen on bytes -/
  utf8Lossy : List UInt8 → List UInt8

/-- The processes of the cluster and the messages on their way. -/
structure World where
  process : ℕ → Process
  net : List Packet

/-- The shared state of node `a`. -/
abbrev World.shared (w : World) (a : ℕ) : SharedState := (w.process a).node.shared

/-- Node `a` leads. -/
def World.Leads (w : World) (a : ℕ) : Prop :=
  (w.process a).node.machine.delegate.nodeType = .leader

instance (w : World) (a : ℕ) : Decidable (w.Leads a) := inferInstanceAs (Decidable (_ = _))

/-- What happens next. -/
inductive Label
  /-- A thread of node `a` acts. -/
  | act (a : ℕ) (event : ProcessEvent)
  /-- The `i`-th message is delivered. -/
  | deliver (i : ℕ)
  /-- The `i`-th message is lost. -/
  | lose (i : ℕ)

namespace World

/-- All nodes start on empty files. -/
def start [Capnp] [ParsesSocketAddr] (C : Cluster) (clock : ℕ → Clock) (accepts : ℕ → ℕ → Bool) : World where
  process a := Process.start (C.config a) (clock a) (accepts a)
  net := []

/-- Takes over the state of one process and the messages it has sent. -/
def update (w : World) (a : ℕ) (result : Process × List Packet) : World :=
  ⟨Function.update w.process a result.1, w.net ++ result.2⟩

/-- One step of the cluster. -/
def step [Capnp] [ParsesSocketAddr] (C : Cluster) (w : World) : Label → World
  | .act a event =>
    if a ∈ C.members then w.update a ((w.process a).step C.utf8Lossy event) else w
  | .deliver i =>
    match w.net[i]? with
    | some packet =>
      { w with net := w.net.eraseIdx i }.update packet.dst
        ((w.process packet.dst).receive packet.src packet.message)
    | none => w
  | .lose i => { w with net := w.net.eraseIdx i }

@[simp] theorem process_update_self (w : World) (a : ℕ) (result : Process × List Packet) :
    (w.update a result).process a = result.1 :=
  Function.update_self ..

theorem process_update_of_ne (w : World) {a b : ℕ} (h : b ≠ a) (result : Process × List Packet) :
    (w.update a result).process b = w.process b :=
  Function.update_of_ne h ..

@[simp] theorem net_update (w : World) (a : ℕ) (result : Process × List Packet) :
    (w.update a result).net = w.net ++ result.2 := rfl

section Steps

variable [Capnp] [ParsesSocketAddr]

theorem step_act {C : Cluster} {a : ℕ} (ha : a ∈ C.members) (w : World) (event : ProcessEvent) :
    w.step C (.act a event) = w.update a ((w.process a).step C.utf8Lossy event) :=
  if_pos ha

theorem step_act_of_notMem {C : Cluster} {a : ℕ} (ha : a ∉ C.members) (w : World)
    (event : ProcessEvent) : w.step C (.act a event) = w :=
  if_neg ha

theorem step_deliver {w : World} {i : ℕ} {packet : Packet} (h : w.net[i]? = some packet)
    (C : Cluster) : w.step C (.deliver i) =
      { w with net := w.net.eraseIdx i }.update packet.dst
        ((w.process packet.dst).receive packet.src packet.message) := by
  simp only [step, h]

theorem step_deliver_of_none {w : World} {i : ℕ} (h : w.net[i]? = none) (C : Cluster) :
    w.step C (.deliver i) = w := by
  simp only [step, h]

/-- **A process in a step of the cluster** acts, receives a message, or stays. -/
theorem process_step (C : Cluster) (w : World) (label : Label) (a : ℕ) :
    (∃ event, label = .act a event ∧ a ∈ C.members ∧
        (w.step C label).process a = ((w.process a).step C.utf8Lossy event).1) ∨
      (∃ i packet, label = .deliver i ∧ w.net[i]? = some packet ∧ packet.dst = a ∧
        (w.step C label).process a = ((w.process a).receive packet.src packet.message).1) ∨
      (w.step C label).process a = w.process a := by
  cases label with
  | act b event =>
    by_cases hb : b ∈ C.members
    · rw [step_act hb]
      by_cases hab : a = b
      · subst hab
        exact Or.inl ⟨event, rfl, hb, process_update_self ..⟩
      · exact Or.inr (Or.inr (process_update_of_ne w hab _))
    · rw [step_act_of_notMem hb]
      exact Or.inr (Or.inr rfl)
  | deliver i =>
    rcases hpacket : w.net[i]? with _ | packet
    · rw [step_deliver_of_none hpacket]
      exact Or.inr (Or.inr rfl)
    · rw [step_deliver hpacket]
      by_cases hdst : a = packet.dst
      · subst hdst
        exact Or.inr (Or.inl ⟨i, packet, rfl, hpacket, rfl, process_update_self ..⟩)
      · exact Or.inr (Or.inr (process_update_of_ne _ hdst _))
  | lose i => exact Or.inr (Or.inr rfl)

end Steps

/-- Whether a step keeps the order of each connection: a message is delivered before those
sent after it on the same connection, and none is lost. -/
def FifoStep (w : World) : Label → Prop
  | .deliver i => ∀ packet ∈ w.net[i]?, ∀ earlier ∈ w.net.take i,
      earlier.src = packet.src → earlier.dst ≠ packet.dst
  | .lose _ => False
  | .act .. => True

instance (w : World) (label : Label) : Decidable (w.FifoStep label) := by
  cases label <;> unfold FifoStep <;> infer_instance

end World

/-! ## Small clusters -/

/-- Two nodes that list both of them. -/
def clusterOfTwo : @Cluster sampleAddresses :=
  letI := sampleAddresses
  { members := {1, 2}
    config := sampleConfig [1, 2]
    accepted := by decide
    nodeId := by decide
    agree := by decide
    utf8Lossy := id }

/-- Three nodes that list all of them. -/
def clusterOfThree : @Cluster sampleAddresses :=
  letI := sampleAddresses
  { members := {1, 2, 3}
    config := sampleConfig [1, 2, 3]
    accepted := by decide
    nodeId := by decide
    agree := by decide
    utf8Lossy := id }

/-- Node `a` runs a part of `time_step` at the given time. -/
abbrev Label.part (a now : ℕ) (part : StateMachine.TimeStepPart) : Label :=
  .act a (.timeStep ⟨now, 0⟩ part)

/-- Node `a`, which was started at time 0 and has heard of no leader, stands for election, and
its own vote reaches the disk. -/
def standForElection (a : ℕ) : List Label :=
  [.part a 1000 .finish, .part a 1000 .finish, .act a .processTask, .part a 1001 .popPersistence]

/-- Node 1 of three stands for term 1, node 2 becomes a candidate as well, grants its vote,
and node 1 is elected. -/
def electNodeOne : List Label :=
  standForElection 1 ++
    [.part 2 1000 .finish, .act 1 (.workerTask 0 1002), .deliver 0, .act 2 (.accept ⟨1003, 0⟩),
      .act 2 .processTask, .part 2 1004 .popPersistence, .act 2 (.answer 0 0), .deliver 0,
      .part 1 1005 .popQuorum]

end Kraft
