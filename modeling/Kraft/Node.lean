/-
# One node and its runs

A node is its state machine with its persistence worker.  `NodeEvent` lists all that can
happen to it: a request is accepted, a part of `time_step` runs, a quorum worker pushes a
response, the persistence worker takes a task or flushes, the process is restarted.  What
arrives from outside is arbitrary, so a run of a node in any cluster is among its runs
here.
-/
import Kraft.Runs
import Kraft.Storage

namespace Kraft

/-- A node: the state machine and the persistence worker with its files. -/
structure Node where
  machine : StateMachine
  storage : Storage

/-- What can happen to a node. -/
inductive NodeEvent
  /-- The state machine worker accepts a request. -/
  | accept (clock : Clock) (message : LocalRaftMessage)
  /-- The state machine worker runs a part of `time_step`. -/
  | timeStep (clock : Clock) (part : StateMachine.TimeStepPart)
  /-- A quorum worker pushes a response for the state machine. -/
  | respond (response : LocalQuorumTaskResponseType)
  /-- The persistence worker processes the next task. -/
  | processTask
  /-- The persistence worker flushes after draining its channel or on its timeout. -/
  | flush
  /-- The process dies, with `written` bytes of the log buffer in the file, and starts
  again. -/
  | restart (clock : Clock) (written : ℕ) (accepts : ℕ → Bool)

/-- The events of one process: all but a restart. -/
def NodeEvent.isRestart : NodeEvent → Bool
  | .restart .. => true
  | _ => false

namespace Node

variable [Capnp]

/-- The shared state of the node's state machine. -/
abbrev shared (n : Node) : SharedState := n.machine.shared

/-- Replaces the shared state. -/
def withShared (n : Node) (s : SharedState) : Node :=
  { n with machine := { n.machine with shared := s } }

/-- `main`: a node starts as follower on what its files hold. -/
def start (clock : Clock) (logFile : List UInt8) (voteRows : List VoteRow)
    (identity quorumSize workers : ℕ) (accepts : ℕ → Bool) : Node :=
  let recovered := Storage.recoverPersistedData logFile voteRows
  { machine :=
      { delegate := StateMachine.newFollower clock
        shared := Storage.createSharedState recovered identity quorumSize workers accepts
        backfillRequests := [] }
    storage :=
      { entryEndOffsets := recovered.logEntryEndOffsets
        pendingLogResponses := []
        logFile := logFile
        logBuffer := []
        voteRows := voteRows } }

/-- The persistence worker takes one task; where it panics its channel closes. -/
def processTask (n : Node) : Node :=
  match n.shared.persistenceOpen, n.shared.persistenceWork with
  | true, task :: rest =>
    match n.storage.processTask task with
    | some (st, responses) =>
      { n.withShared { n.shared with
          persistenceWork := rest
          persistenceResponse := n.shared.persistenceResponse ++ responses } with storage := st }
    | none => n.withShared { n.shared with persistenceWork := rest, persistenceOpen := false }
  | _, _ => n

/-- The persistence worker flushes. -/
def flush (n : Node) : Node :=
  if n.shared.persistenceOpen then
    let flushed := n.storage.flushPendingLogs
    { n.withShared { n.shared with
        persistenceResponse := n.shared.persistenceResponse ++ flushed.2 } with
      storage := flushed.1 }
  else n

/-- The cases of `processTask`. -/
theorem processTask_cases (n : Node) : n.processTask = n ∨ ∃ task rest,
    n.shared.persistenceWork = task :: rest ∧
      ((∃ st responses, n.storage.processTask task = some (st, responses) ∧
        n.processTask = { n.withShared { n.shared with
          persistenceWork := rest
          persistenceResponse := n.shared.persistenceResponse ++ responses } with storage := st }) ∨
      n.storage.processTask task = none ∧ n.processTask =
        n.withShared { n.shared with persistenceWork := rest, persistenceOpen := false }) := by
  unfold processTask
  split
  · next task rest hopen hwork =>
    refine Or.inr ⟨task, rest, hwork, ?_⟩
    split
    · next st responses htask => exact Or.inl ⟨st, responses, htask, rfl⟩
    · next htask => exact Or.inr ⟨htask, rfl⟩
  · exact Or.inl rfl

/-- A task that can be done. -/
theorem processTask_of_some {n : Node} {task : PersistenceTaskType} {rest : List PersistenceTaskType}
    {st : Storage} {responses : List PersistenceResponseType} (hopen : n.shared.persistenceOpen = true)
    (hwork : n.shared.persistenceWork = task :: rest)
    (htask : n.storage.processTask task = some (st, responses)) :
    n.processTask = { n.withShared { n.shared with
      persistenceWork := rest
      persistenceResponse := n.shared.persistenceResponse ++ responses } with storage := st } := by
  simp [processTask, hopen, hwork, htask]

/-- What the persistence worker changes of the state machine: its channel and the responses. -/
def Serves (sm sm' : StateMachine) : Prop :=
  ∃ work isOpen responses, sm' = { sm with shared := { sm.shared with
    persistenceWork := work
    persistenceOpen := isOpen
    persistenceResponse := responses } }

omit [Capnp] in
/-- What it leaves alone, among others. -/
theorem Serves.unchanged {sm sm' : StateMachine} (h : Serves sm sm') :
    sm'.delegate = sm.delegate ∧ sm'.shared.callbackResponses = sm.shared.callbackResponses ∧
      sm'.shared.quorumResponse = sm.shared.quorumResponse ∧
      sm.shared.SameStanding sm'.shared ∧ sm'.shared.identity = sm.shared.identity ∧
      sm'.shared.quorumSize = sm.shared.quorumSize := by
  obtain ⟨work, isOpen, responses, rfl⟩ := h
  simp

theorem serves_processTask (n : Node) : Serves n.machine n.processTask.machine := by
  unfold processTask
  split
  · split <;> exact ⟨_, _, _, rfl⟩
  · exact ⟨n.shared.persistenceWork, n.shared.persistenceOpen, n.shared.persistenceResponse, rfl⟩

omit [Capnp] in
theorem serves_flush (n : Node) : Serves n.machine n.flush.machine := by
  unfold flush
  split_ifs
  · exact ⟨n.shared.persistenceWork, n.shared.persistenceOpen, _, rfl⟩
  · exact ⟨n.shared.persistenceWork, n.shared.persistenceOpen, n.shared.persistenceResponse, rfl⟩

/-- One event. -/
def step (n : Node) : NodeEvent → Node
  | .accept clock message => { n with machine := n.machine.accept clock message }
  | .timeStep clock part => { n with machine := n.machine.runPart clock part }
  | .respond response =>
    n.withShared { n.shared with quorumResponse := n.shared.quorumResponse ++ [response] }
  | .processTask => n.processTask
  | .flush => n.flush
  | .restart clock written accepts =>
    start clock (n.storage.logFile ++ n.storage.logBuffer.take written) n.storage.voteRows
      n.shared.identity n.shared.quorumSize n.shared.quorumWorkerTasks.length accepts

/-- The term of the election an event completes, if it completes one. -/
def completedElection (n : Node) : NodeEvent → Option ℕ
  | .timeStep _ part => n.machine.completedElection part
  | _ => none

/-- Whether an event starts an election. -/
def startsElection (n : Node) : NodeEvent → Bool
  | .timeStep clock part => n.machine.startsElection clock part
  | _ => false

/-- A run of the node. -/
abbrev run (n : Node) (events : List NodeEvent) : Node := Runs.run step n events

end Node

/-- Node 1 of a cluster of three, freshly started on empty files. -/
def freshNode [Capnp] : Node := Node.start ⟨0, 0⟩ [] [] 1 2 2 (fun _ => true)

/-- Node 1 times out, stands for term 1, and its own vote reaches the disk. -/
def standForTermOne : List NodeEvent :=
  [.timeStep ⟨1000, 0⟩ .finish, .timeStep ⟨1000, 0⟩ .finish, .processTask,
    .timeStep ⟨1001, 0⟩ .popPersistence]

/-- The vote of node 3 for term 1 arrives. -/
def receiveVote : List NodeEvent :=
  [.respond (.requestVoteResponse 0 1 true), .timeStep ⟨5001, 0⟩ .popQuorum]

/-- The no-op entry node 3 appends when it takes office in term 1. -/
def firstNoop : OwnedLogEntry := ⟨0, 1, 0, 0, 2, 50, []⟩

/-- The request with which node 3 sends it. -/
def appendFirstNoop : LocalRaftMessage :=
  ⟨.appendEntries ⟨1, 3, 0, 0, 2, some ⟨0, firstNoop.asBytes, 0, 1, 0, 0, 2⟩, 0⟩,
    .pending 3 0 (.appendEntries 2 0 1)⟩

/-- The write it appends next. -/
def firstWrite : OwnedLogEntry := ⟨1, 1, 0, 1, 3, 60, []⟩

/-- The request with which it sends the write. -/
def appendFirstWrite : LocalRaftMessage :=
  ⟨.appendEntries ⟨1, 3, 0, 1, 3, some ⟨1, firstWrite.asBytes, 0, 1, 1, 0, 3⟩, 0⟩,
    .pending 3 1 (.appendEntries 3 1 1)⟩

/-- Node 1 stands for term 1, with its own vote.  Node 3 wins the term; node 1 follows it after a
heartbeat, and stores both entries. -/
def followNodeThree : List NodeEvent :=
  standForTermOne ++
    [.accept ⟨1002, 0⟩ ⟨.appendEntries ⟨1, 3, 0, 0, 0, none, 0⟩, .pending 3 0 (.appendEntries 0 0 1)⟩,
      .accept ⟨1003, 0⟩ appendFirstNoop, .accept ⟨1004, 0⟩ appendFirstWrite, .processTask,
      .processTask]

end Kraft
