/-
# The log on disk and the log in memory

The persistence worker knows the log only through the tasks it is sent.  Every step of the
state machine sends the tasks that do to the file what the step does to `replication_log`:

* `Mirrors` : the step adds tasks, and replaying them on the bytes of the old log gives the
  bytes of the new one; `WritesThrough` : these are votes, or a single other task;
* `writesThrough_accept`, `writesThrough_runPart` : so do all requests and all parts of
  `time_step`, in every role;
* `disk_mirrors_log` : over a run of one process, once all tasks are processed, file and
  buffer hold the bytes of the log, the offsets are those of its entries, and no truncation
  has asked for an offset that is not there.
-/
import Kraft.LogSteps
import Kraft.Recovery

namespace Kraft

open Storage StateMachine

variable {records : List (List UInt8)} {s s' : SharedState} {owned : OwnedLogEntry} {n : Node}

variable [Capnp]

/-! ## Steps of the state machine -/

/-- Truncations stay within the file. -/
def WithinFile : List (List UInt8) → List PersistenceTaskType → Prop
  | _, [] => True
  | records, task :: rest =>
    (∀ targetLength, task = .truncateLog targetLength → targetLength ≤ records.length) ∧
      WithinFile (replayTask records task) rest

theorem withinFile_append {tasks₁ tasks₂ : List PersistenceTaskType} :
    WithinFile records (tasks₁ ++ tasks₂) ↔
      WithinFile records tasks₁ ∧ WithinFile (replay records tasks₁) tasks₂ := by
  induction tasks₁ generalizing records with
  | nil => simp [WithinFile]
  | cons task rest ih => simp [WithinFile, ih, and_assoc]

/-- The records of a log. -/
def recordsOf (log : List OwnedLogEntry) : List (List UInt8) := log.map Capnp.encode

/-- The tasks of a step do to the file what the step does to the log. -/
def Mirrors (s s' : SharedState) : Prop :=
  s'.persistenceOpen = s.persistenceOpen ∧ ∃ tasks,
    s'.persistenceWork = s.persistenceWork ++ tasks ∧
    WithinFile (recordsOf s.replicationLog) tasks ∧
    replay (recordsOf s.replicationLog) tasks = recordsOf s'.replicationLog

/-- The step sends votes only, or one task that does to the file what it does to the log. -/
def WritesThrough (s s' : SharedState) : Prop :=
  s'.persistenceOpen = s.persistenceOpen ∧
    ((s'.replicationLog = s.replicationLog ∧ ∃ votes,
        s'.persistenceWork = s.persistenceWork ++ votes ∧ ∀ task ∈ votes, task.isVote = true) ∨
      ∃ task, s'.persistenceWork = s.persistenceWork ++ [task] ∧
        WithinFile (recordsOf s.replicationLog) [task] ∧
        replayTask (recordsOf s.replicationLog) task = recordsOf s'.replicationLog)

theorem WritesThrough.congr {s₁ : SharedState} (h : WritesThrough s₁ s')
    (hopen : s₁.persistenceOpen = s.persistenceOpen)
    (hwork : s₁.persistenceWork = s.persistenceWork) (hlog : s₁.replicationLog = s.replicationLog) :
    WritesThrough s s' := by
  unfold WritesThrough at h ⊢
  rwa [hopen, hwork, hlog] at h

/-- Votes do nothing to the log file. -/
theorem withinFile_votes (records : List (List UInt8)) {votes : List PersistenceTaskType}
    (hvotes : ∀ task ∈ votes, task.isVote = true) : WithinFile records votes := by
  induction votes with
  | nil => trivial
  | cons task rest ih =>
    cases task with
    | appendVote id term candidateId =>
      exact ⟨(fun _ heq => nomatch heq), ih fun task htask => hvotes task (by simp [htask])⟩
    | _ => cases hvotes _ (List.mem_cons_self ..)

theorem WritesThrough.mirrors (h : WritesThrough s s') : Mirrors s s' := by
  obtain ⟨hopen, ⟨hlog, votes, hwork, hvotes⟩ | ⟨task, hwork, hwithin, hreplay⟩⟩ := h
  · exact ⟨hopen, votes, hwork, withinFile_votes _ hvotes, by rw [replay_votes hvotes, hlog]⟩
  · exact ⟨hopen, [task], hwork, hwithin, hreplay⟩

theorem KeepsEntries.writesThrough (h : KeepsEntries s s') : WritesThrough s s' :=
  ⟨h.persistenceOpen, Or.inl ⟨h.log, h.tasks⟩⟩

/-- An entry is appended to the log and sent to the disk. -/
theorem writesThrough_of_append {id requestId : ℕ}
    (hopen : s'.persistenceOpen = s.persistenceOpen)
    (hwork : s'.persistenceWork = s.persistenceWork ++ [.appendLog id (.message owned) requestId])
    (hlog : s'.replicationLog = s.replicationLog ++ [owned]) : WritesThrough s s' := by
  refine ⟨hopen, Or.inr ⟨_, hwork, ⟨(fun _ heq => nomatch heq), trivial⟩, ?_⟩⟩
  simp [recordsOf, hlog, replayTask, EntryData.bytes]

theorem StoresEntry.writesThrough {request : LocalAppendEntries} {callback : Callback}
    {entry : LogEntry} (h : StoresEntry request callback entry owned s s') : WritesThrough s s' :=
  writesThrough_of_append h.persistenceOpen h.tasks h.log

theorem AppendsOwn.writesThrough (h : AppendsOwn owned s s') : WritesThrough s s' := by
  obtain ⟨id, -, -, hwork⟩ := h.tasks
  exact writesThrough_of_append h.persistenceOpen hwork h.log

theorem Truncates.writesThrough {targetLength : ℕ} (h : Truncates targetLength s s') :
    WritesThrough s s' := by
  refine ⟨h.persistenceOpen, Or.inr ⟨_, h.tasks, ⟨fun target heq => ?_, trivial⟩, ?_⟩⟩
  · obtain rfl := PersistenceTaskType.truncateLog.inj heq
    simpa [recordsOf] using h.shorter.le
  · simp [recordsOf, h.log, replayTask, List.map_take]

/-- **A request**, in every role. -/
theorem writesThrough_accept (clock : Clock) (message : LocalRaftMessage) (sm : StateMachine)
    (hopen : sm.shared.persistenceOpen = true) :
    WritesThrough sm.shared (sm.accept clock message).shared := by
  unfold StateMachine.accept
  split
  · next request hpayload =>
    exact (asked_acceptRequestVote request message.callback sm).idle.keep.writesThrough
  · next request hpayload =>
    rcases (receives_acceptAppendEntries clock request message.callback sm).entries with
      hkeep | ⟨entry, owned, -, -, -, -, hstore, -⟩
    · exact hkeep.writesThrough
    · exact hstore.writesThrough
  · exact (KeepsEntries.of_eq (.of_eq rfl rfl rfl) rfl rfl (.of_eq rfl)).writesThrough
  · next batch hpayload =>
    rcases (acceptWriteBatch_log clock batch message.callback sm hopen).2 with
      hkeep | ⟨owned, hown⟩
    · exact hkeep.writesThrough
    · exact hown.writesThrough

/-- **A part of `time_step`**, in every role. -/
theorem writesThrough_runPart (clock : Clock) (part : TimeStepPart) (sm : StateMachine)
    (hopen : sm.shared.persistenceOpen = true) :
    WritesThrough sm.shared (sm.runPart clock part).shared := by
  have hrefl : WritesThrough sm.shared sm.shared := (KeepsEntries.refl sm.shared).writesThrough
  cases part with
  | takeOffice =>
    show WritesThrough sm.shared (sm.takeOffice clock).shared
    rcases (takeOffice_log clock sm hopen).2 with hkeep | ⟨owned, hown⟩
    · exact hkeep.writesThrough
    · exact hown.writesThrough
  | popPersistence =>
    show WritesThrough sm.shared sm.popPersistence.shared
    rcases popPersistence_cases sm with heq | ⟨response, rest, -, heq⟩
    · rwa [heq]
    · rw [heq]
      rcases handlePersistence_log response (sm.dropPersistence rest) with
        hidle | ⟨_, _, _, _, hkeep, _⟩
      · exact hidle.keep.writesThrough.congr rfl rfl rfl
      · exact hkeep.writesThrough.congr rfl rfl rfl
  | popQuorum =>
    show WritesThrough sm.shared sm.popQuorum.shared
    rcases popQuorum_cases sm with heq | ⟨response, rest, -, heq⟩
    · rwa [heq]
    · rw [heq]
      rcases handleQuorum_log response (sm.dropQuorum rest) hopen with
        hidle | ⟨node, prevTerm, prevIndex, -, -, htruncate, -⟩
      · exact hidle.keep.writesThrough.congr rfl rfl rfl
      · exact htruncate.writesThrough.congr rfl rfl rfl
  | finish => exact (idle_finish clock sm).keep.writesThrough

/-! ## The node -/

/-- The file consists of `records`, and the tasks that wait make the log of them. -/
structure DiskInv (n : Node) (records : List (List UInt8)) : Prop where
  file : Records records n.storage
  isOpen : n.shared.persistenceOpen = true
  within : WithinFile records n.shared.persistenceWork
  replayed : replay records n.shared.persistenceWork = recordsOf n.shared.replicationLog

/-- The state machine takes a step. -/
theorem DiskInv.mirrors {n' : Node} (h : DiskInv n records) (hstorage : n'.storage = n.storage)
    (hmirrors : Mirrors n.shared n'.shared) : DiskInv n' records := by
  obtain ⟨hopen, tasks, hwork, hwithin, hreplay⟩ := hmirrors
  refine ⟨hstorage ▸ h.file, hopen.trans h.isOpen, ?_, ?_⟩
  · rw [hwork, withinFile_append, h.replayed]
    exact ⟨h.within, hwithin⟩
  · rw [hwork, replay_append, h.replayed, hreplay]

/-- The persistence worker takes the next task. -/
theorem DiskInv.processTask (h : DiskInv n records) :
    DiskInv n.processTask (replay records (n.shared.persistenceWork.take 1)) ∧
      n.processTask.shared.persistenceWork = n.shared.persistenceWork.drop 1 := by
  rcases hwork : n.shared.persistenceWork with _ | ⟨task, rest⟩
  · rw [show n.processTask = n by simp [Node.processTask, h.isOpen, hwork]]
    exact ⟨h, hwork⟩
  · have hwithin := h.within
    have hreplay := h.replayed
    rw [hwork] at hwithin hreplay
    obtain ⟨st, responses, htask, hfile⟩ := h.file.processTask task hwithin.1
    rw [Node.processTask_of_some h.isOpen hwork htask]
    exact ⟨⟨hfile, h.isOpen, hwithin.2, hreplay⟩, rfl⟩

theorem DiskInv.flush (h : DiskInv n records) : DiskInv n.flush records := by
  have hnode : n.flush =
      { n.withShared { n.shared with
          persistenceResponse := n.shared.persistenceResponse ++ n.storage.flushPendingLogs.2 } with
        storage := n.storage.flushPendingLogs.1 } := by
    simp [Node.flush, h.isOpen]
  rw [hnode]
  exact ⟨h.file.flushPendingLogs, h.isOpen, h.within, h.replayed⟩

/-- **One event of the process.** -/
theorem DiskInv.step (h : ∃ records, DiskInv n records) (event : NodeEvent)
    (hsame : event.isRestart = false) : ∃ records, DiskInv (n.step event) records := by
  obtain ⟨records, h⟩ := h
  cases event with
  | accept clock message =>
    exact ⟨records, h.mirrors rfl (writesThrough_accept clock message n.machine h.isOpen).mirrors⟩
  | timeStep clock part =>
    exact ⟨records, h.mirrors rfl (writesThrough_runPart clock part n.machine h.isOpen).mirrors⟩
  | respond response =>
    exact ⟨records, h.mirrors rfl (KeepsEntries.refl n.shared).writesThrough.mirrors⟩
  | processTask => exact ⟨_, h.processTask.1⟩
  | flush => exact ⟨records, h.flush⟩
  | restart clock written accepts => cases hsame

theorem diskInv_start [LawfulCapnp] (clock : Clock) (entries : List OwnedLogEntry)
    (voteRows : List VoteRow) (identity quorumSize workers : ℕ) (accepts : ℕ → Bool) :
    DiskInv (Node.start clock (encodeAll entries) voteRows identity quorumSize workers accepts)
      (recordsOf entries) := by
  obtain ⟨hlog, hends⟩ := recoverPersistedData_append entries (Or.inl rfl) voteRows
  rw [List.append_nil] at hlog hends
  exact ⟨⟨hends, List.append_nil _, fun _ => rfl⟩, rfl, trivial, congrArg recordsOf hlog.symm⟩

/-! ## The result -/

omit [Capnp] in
/-- **The log on disk is the log in memory.**  A node starts on a file of serialised entries and
runs as one process.  Whenever the persistence worker has no task left, file and buffer are
the bytes of the log and the offsets are the ends of its entries; the channel of the worker
never closes, and an offset that a truncation asks for is always there. -/
theorem disk_mirrors_log [Capnp] [LawfulCapnp] (clock : Clock) (entries : List OwnedLogEntry)
    (voteRows : List VoteRow) (identity quorumSize workers : ℕ) (accepts : ℕ → Bool)
    (events : List NodeEvent) (hsame : ∀ event ∈ events, event.isRestart = false) :
    let n := (Node.start clock (encodeAll entries) voteRows identity quorumSize workers accepts).run
      events
    (n.shared.persistenceWork = [] →
      n.storage.logFile ++ n.storage.logBuffer = encodeAll n.shared.replicationLog ∧
      n.storage.entryEndOffsets.length = n.shared.replicationLog.length ∧
      ∀ i < n.shared.replicationLog.length, n.storage.entryEndOffsets[i]? =
        some (encodeAll (n.shared.replicationLog.take (i + 1))).length) ∧
    n.shared.persistenceOpen = true ∧
    ∀ targetLength rest, n.shared.persistenceWork = .truncateLog targetLength :: rest →
      targetLength = 0 ∨ targetLength - 1 < n.storage.entryEndOffsets.length := by
  intro n
  have hrun : Runs.AllSteps Node.step (fun _ event => event.isRestart = false)
      (Node.start clock (encodeAll entries) voteRows identity quorumSize workers accepts) events :=
    ((Runs.allSteps_true _ events).and_forall_mem hsame).mono fun _ _ h => h.2
  obtain ⟨records, h⟩ : ∃ records, DiskInv n records :=
    hrun.invariant (fun n => ∃ records, DiskInv n records)
      (fun _ event hinv hok => DiskInv.step hinv event hok)
      ⟨_, diskInv_start clock entries voteRows identity quorumSize workers accepts⟩
  refine ⟨fun hdone => ?_, h.isOpen, fun targetLength rest hwork => ?_⟩
  · have hrecords : records = recordsOf n.shared.replicationLog := by
      rw [← h.replayed, hdone, replay_nil]
    subst hrecords
    refine ⟨h.file.bytes, by rw [h.file.ends]; simp [recordsOf], fun i hi => ?_⟩
    rw [h.file.ends, RecordFile.getElem?_endsFrom (by simpa [recordsOf] using hi), Nat.zero_add,
      recordsOf, ← List.map_take]
    rfl
  · have hwithin := h.within
    rw [hwork] at hwithin
    have hle := hwithin.1 targetLength rfl
    rw [h.file.ends, RecordFile.length_endsFrom]
    omega

/-- The no-op entry with which node 2 takes office in term 2, behind the one of node 3. -/
def secondNoop : OwnedLogEntry := ⟨1, 2, 0, 1, 2, 70, []⟩

/-- Node 1 stores two entries of node 3 in term 1, truncates the second one, and stores the entry of
node 2 in its place. -/
def truncateForNodeTwo : List NodeEvent :=
  [.accept ⟨1, 0⟩ appendFirstNoop, .accept ⟨2, 0⟩ appendFirstWrite, .processTask, .processTask,
    .respond (.truncateLog 2 1 0), .timeStep ⟨3, 0⟩ .popQuorum, .processTask,
    .accept ⟨4, 0⟩ ⟨.appendEntries ⟨2, 2, 0, 1, 2, some ⟨1, secondNoop.asBytes, 0, 2, 1, 0, 2⟩, 0⟩,
      .pending 2 0 (.appendEntries 2 0 1)⟩, .processTask]

omit [Capnp] in
/-- The truncated entry is not on disk. -/
theorem disk_mirrors_log_truncated : letI := unaryCapnp 0
    let n := freshNode.run truncateForNodeTwo
    n.shared.replicationLog = [firstNoop, secondNoop] ∧
      n.storage.logFile ++ n.storage.logBuffer = encodeAll [firstNoop, secondNoop] :=
  have hlog : (@Node.run (unaryCapnp 0) (@freshNode (unaryCapnp 0))
      truncateForNodeTwo).shared.replicationLog = [firstNoop, secondNoop] := by decide +kernel
  ⟨hlog, hlog ▸ ((@disk_mirrors_log (unaryCapnp 0) (lawful_unaryCapnp 0) ⟨0, 0⟩ [] [] 1 2 2
    (fun _ => true) truncateForNodeTwo (by decide)).1 (by decide +kernel)).1⟩

end Kraft
