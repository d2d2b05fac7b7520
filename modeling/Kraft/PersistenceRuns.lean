/-
# Runs of the persistence worker

`run` of `persistence/worker.rs`.  The worker waits for a task, takes what else is queued,
and flushes before it waits again; a wait that times out flushes too.  The arrival of the
tasks decides how they fall into turns, so a run is given by a list of turns.

* `DiskEvent` : a response that is pushed, or a file that is shortened, with the log file and
  the write buffer at that moment;
* `Reported` : after any number of tasks the ones that are not reported yet are the last
  `AppendLog` tasks, and what was reported was in the file when it was;
* `Reported.processTask`, `Reported.flush` : a task and a flush keep it;
* `responses_truthful` : over whole runs, for every arrival of the tasks.
-/
import Kraft.DiskLog

namespace Kraft

variable {records : List (List UInt8)} {tasks : List PersistenceTaskType}

/-- What the worker does that others can see, with the log file and the write buffer at that
moment. -/
inductive DiskEvent
  /-- A response enters `response_queue`. -/
  | pushed (response : PersistenceResponseType) (logFile logBuffer : List UInt8)
  /-- `set_len` is called for a log of `targetLength` entries. -/
  | shortened (targetLength : ℕ) (logFile logBuffer : List UInt8)
  deriving DecidableEq

namespace DiskEvent

/-- The response of an event. -/
def response : DiskEvent → Option PersistenceResponseType
  | pushed response _ _ => some response
  | shortened .. => none

/-- A `LogPersisted`, with the log file and the write buffer when it is pushed. -/
def logPersisted : DiskEvent → Option (ℕ × List UInt8 × List UInt8)
  | pushed (.logPersisted id) logFile logBuffer => some (id, logFile, logBuffer)
  | _ => none

end DiskEvent

/-- The id under which an `AppendLog` is reported. -/
def PersistenceTaskType.appendId : PersistenceTaskType → Option ℕ
  | .appendLog id _ _ => some id
  | _ => none

namespace Storage

/-! ## The loop -/

/-- The `BufWriter` makes room: it writes the first `count` bytes it holds to the file. -/
def spill (count : ℕ) (st : Storage) : Storage :=
  { st with
    logFile := st.logFile ++ st.logBuffer.take count
    logBuffer := st.logBuffer.drop count }

/-- The responses `flush_pending_logs` pushes, all of them after the flush. -/
def flushEvents (st : Storage) : List DiskEvent :=
  let flushed := st.flushPendingLogs
  flushed.2.map fun response => .pushed response flushed.1.logFile flushed.1.logBuffer

theorem response_flushEvents (st : Storage) :
    st.flushEvents.filterMap DiskEvent.response = st.flushPendingLogs.2 := by
  unfold flushEvents
  rw [List.filterMap_map]
  exact List.filterMap_some

/-- An `AppendLog` by its id, data and request id. -/
def appendTask (entry : ℕ × EntryData × ℕ) : PersistenceTaskType :=
  .appendLog entry.1 entry.2.1 entry.2.2

theorem appendId_appendTask (waiting : List (ℕ × EntryData × ℕ)) :
    (waiting.map appendTask).filterMap PersistenceTaskType.appendId = waiting.map (·.1) := by
  rw [List.filterMap_map]
  exact congrFun List.filterMap_eq_map waiting

section

variable [Capnp]

/-- The events of `process_task`. -/
def taskEvents (task : PersistenceTaskType) (st : Storage) : List DiskEvent :=
  let flushed := st.flushPendingLogs.1
  match task with
  | .appendVote id term candidateId =>
    st.flushEvents ++
      [.pushed (.votePersisted id term candidateId) flushed.logFile flushed.logBuffer]
  | .appendLog id data _ =>
    if batchSize ≤ (st.appendToBatch id data).pendingLogResponses.length then
      (st.appendToBatch id data).flushEvents
    else []
  | .truncateLog targetLength =>
    st.flushEvents ++ [.shortened targetLength flushed.logFile flushed.logBuffer]

/-- The tasks of one turn.  With each of them comes how many bytes the `BufWriter` has
written out early when the next one is taken. -/
def drain : List (PersistenceTaskType × ℕ) → Storage → Option (Storage × List DiskEvent)
  | [], st => some (st, [])
  | (task, count) :: rest, st =>
    (st.processTask task).bind fun processed =>
      (drain rest (processed.1.spill count)).map fun drained =>
        (drained.1, st.taskEvents task ++ drained.2)

/-- One turn of the loop, from a wait to the next.  A turn without a task is a timeout, or
the end of the channel. -/
def turn (batch : List (PersistenceTaskType × ℕ)) (st : Storage) :
    Option (Storage × List DiskEvent) :=
  (drain batch st).map fun drained =>
    (drained.1.flushPendingLogs.1, drained.2 ++ drained.1.flushEvents)

/-- `run`, as far as it gets with these turns. -/
def runWorker : List (List (PersistenceTaskType × ℕ)) → Storage →
    Option (Storage × List DiskEvent)
  | [], st => some (st, [])
  | batch :: rest, st =>
    (turn batch st).bind fun turned =>
      (runWorker rest turned.1).map fun ran => (ran.1, turned.2 ++ ran.2)

/-- The tasks of a run, in the order they were sent. -/
def tasksOf (turns : List (List (PersistenceTaskType × ℕ))) : List PersistenceTaskType :=
  turns.flatten.map (·.1)

/-! ## The events and the model of the worker -/

/-- The responses among the events are those `process_task` pushes, in this order. -/
theorem response_taskEvents {task : PersistenceTaskType} {st st' : Storage}
    {responses : List PersistenceResponseType}
    (h : st.processTask task = some (st', responses)) :
    (st.taskEvents task).filterMap DiskEvent.response = responses := by
  cases task with
  | appendVote id term candidateId =>
    obtain ⟨-, rfl⟩ := Prod.mk.inj (Option.some.inj h)
    simp [taskEvents, List.filterMap_append, response_flushEvents, DiskEvent.response]
  | appendLog id data requestId =>
    rw [processTask_appendLog] at h
    unfold taskEvents
    dsimp only
    split_ifs at h ⊢
    · rw [response_flushEvents, Option.some.inj h]
    · exact (Prod.mk.inj (Option.some.inj h)).2
  | truncateLog targetLength =>
    obtain ⟨position, -, hsome⟩ := Option.map_eq_some_iff.mp h
    obtain ⟨-, rfl⟩ := Prod.mk.inj hsome
    simp [taskEvents, List.filterMap_append, response_flushEvents, DiskEvent.response]

/-! ## What is reported is stored -/

/-- When the `j`-th `LogPersisted` is pushed, under `id` and with this file and buffer, the
buffer is empty and the file holds the entry of the `j`-th `AppendLog` behind all entries
that the tasks before it have left there.  Only `AppendLog` tasks stand between the two. -/
def IsStored (records : List (List UInt8)) (tasks : List PersistenceTaskType) (j id : ℕ)
    (logFile logBuffer : List UInt8) : Prop :=
  ∃ before data requestId between after,
    tasks = before ++ .appendLog id data requestId :: (between ++ after) ∧
    (before.filterMap PersistenceTaskType.appendId).length = j ∧
    (∀ task ∈ between, task.appendId.isSome = true) ∧
    logBuffer = [] ∧
    logFile = (replay (replay records before ++ [data.bytes]) between).flatten

theorem IsStored.append {j id : ℕ} {logFile logBuffer : List UInt8}
    (h : IsStored records tasks j id logFile logBuffer) (more : List PersistenceTaskType) :
    IsStored records (tasks ++ more) j id logFile logBuffer := by
  obtain ⟨before, data, requestId, between, after, rfl, hrest⟩ := h
  exact ⟨before, data, requestId, between, after ++ more, by simp, hrest⟩

/-- When the file is shortened the buffer is empty, and the file holds the entries that the
tasks before have left there. -/
def IsShortened (records : List (List UInt8)) (tasks : List PersistenceTaskType)
    (targetLength : ℕ) (logFile logBuffer : List UInt8) : Prop :=
  ∃ before after, tasks = before ++ .truncateLog targetLength :: after ∧
    logBuffer = [] ∧ logFile = (replay records before).flatten

theorem IsShortened.append {targetLength : ℕ} {logFile logBuffer : List UInt8}
    (h : IsShortened records tasks targetLength logFile logBuffer)
    (more : List PersistenceTaskType) :
    IsShortened records (tasks ++ more) targetLength logFile logBuffer := by
  obtain ⟨before, after, rfl, hrest⟩ := h
  exact ⟨before, after ++ more, by simp, hrest⟩

/-- The events of a worker that has processed `tasks` on a file of `records`. -/
structure Truthful (records : List (List UInt8)) (tasks : List PersistenceTaskType)
    (events : List DiskEvent) : Prop where
  stored : ∀ j id logFile logBuffer,
    (events.filterMap DiskEvent.logPersisted)[j]? = some (id, logFile, logBuffer) →
    IsStored records tasks j id logFile logBuffer
  shortened : ∀ targetLength logFile logBuffer,
    .shortened targetLength logFile logBuffer ∈ events →
    IsShortened records tasks targetLength logFile logBuffer

theorem Truthful.more {events : List DiskEvent} (h : Truthful records tasks events)
    (more : List PersistenceTaskType) : Truthful records (tasks ++ more) events :=
  ⟨fun j id logFile logBuffer hevent => (h.stored j id logFile logBuffer hevent).append more,
    fun targetLength logFile logBuffer hmem =>
      (h.shortened targetLength logFile logBuffer hmem).append more⟩

/-- The worker has processed `tasks` with these events.  All but the `waiting` entries are
reported, and these were appended last. -/
structure Reported (records : List (List UInt8)) (tasks : List PersistenceTaskType)
    (waiting : List (ℕ × EntryData × ℕ)) (events : List DiskEvent) (st : Storage) : Prop where
  file : Records (replay records tasks) st
  pending : st.pendingLogResponses = waiting.map fun entry => .logPersisted entry.1
  once : ∃ reported, tasks = reported ++ waiting.map appendTask ∧
    (events.filterMap DiskEvent.logPersisted).map (·.1) =
      reported.filterMap PersistenceTaskType.appendId
  truthful : Truthful records tasks events

variable {records : List (List UInt8)} {tasks : List PersistenceTaskType}
  {waiting : List (ℕ × EntryData × ℕ)} {events : List DiskEvent} {st : Storage}

namespace Reported

/-- A flush reports the entries that wait. -/
theorem logPersisted_flushEvents (h : Reported records tasks waiting events st) :
    st.flushEvents.filterMap DiskEvent.logPersisted = waiting.map fun entry =>
      (entry.1, st.flushPendingLogs.1.logFile, st.flushPendingLogs.1.logBuffer) := by
  unfold flushEvents
  dsimp only
  rw [responses_flushPendingLogs, h.pending, List.map_map, List.filterMap_map]
  exact congrFun List.filterMap_eq_map waiting

/-- They are in the file then, each behind the entries before it. -/
theorem isStored_flush (h : Reported records tasks waiting events st)
    {reported : List PersistenceTaskType} (htasks : tasks = reported ++ waiting.map appendTask)
    {i : ℕ} {entry : ℕ × EntryData × ℕ} (hentry : waiting[i]? = some entry) :
    IsStored records tasks ((reported.filterMap PersistenceTaskType.appendId).length + i) entry.1
      st.flushPendingLogs.1.logFile st.flushPendingLogs.1.logBuffer := by
  obtain ⟨hi, hget⟩ := List.getElem?_eq_some_iff.mp hentry
  have hsplit : waiting = waiting.take i ++ entry :: waiting.drop (i + 1) := by
    rw [← hget, List.getElem_cons_drop, List.take_append_drop]
  have htasks' : tasks = (reported ++ (waiting.take i).map appendTask) ++
      appendTask entry :: (waiting.drop (i + 1)).map appendTask := by
    rw [List.append_assoc, ← List.map_cons, ← List.map_append, ← hsplit, htasks]
  refine ⟨reported ++ (waiting.take i).map appendTask, entry.2.1, entry.2.2,
    (waiting.drop (i + 1)).map appendTask, [], ?_, ?_, ?_, h.file.logBuffer_flushPendingLogs, ?_⟩
  · rw [List.append_nil]
    exact htasks'
  · rw [List.filterMap_append, appendId_appendTask, List.length_append, List.length_map,
      List.length_take, Nat.min_eq_left hi.le]
  · intro task hmem
    obtain ⟨later, -, rfl⟩ := List.mem_map.mp hmem
    rfl
  · -- after the flush the file holds what all tasks have left, and no task came after `between`
    rw [h.file.logFile_flushPendingLogs, htasks', replay_append]
    rfl

/-- **A flush reports what waits, truthfully.** -/
theorem flush (h : Reported records tasks waiting events st) :
    Reported records tasks [] (events ++ st.flushEvents) st.flushPendingLogs.1 := by
  obtain ⟨reported, htasks, hids⟩ := h.once
  have hlength : (events.filterMap DiskEvent.logPersisted).length =
      (reported.filterMap PersistenceTaskType.appendId).length := by
    rw [← hids, List.length_map]
  refine ⟨h.file.flushPendingLogs, by simp, ⟨tasks, by simp, ?_⟩, ?_, ?_⟩
  · rw [List.filterMap_append, List.map_append, hids, h.logPersisted_flushEvents, List.map_map,
      htasks, List.filterMap_append, appendId_appendTask]
    rfl
  · intro j id logFile logBuffer hevent
    rw [List.filterMap_append, h.logPersisted_flushEvents, List.getElem?_append] at hevent
    split_ifs at hevent with hj
    · exact h.truthful.stored j id logFile logBuffer hevent
    · -- the `j`-th response is one that waited
      rw [List.getElem?_map] at hevent
      obtain ⟨entry, hentry, heq⟩ := Option.map_eq_some_iff.mp hevent
      obtain ⟨rfl, rfl, rfl⟩ := heq
      have hstored := h.isStored_flush htasks hentry
      rwa [← hlength, Nat.add_sub_cancel' (Nat.le_of_not_lt hj)] at hstored
  · intro targetLength logFile logBuffer hmem
    rcases List.mem_append.mp hmem with hold | hnew
    · exact h.truthful.shortened targetLength logFile logBuffer hold
    · simp [flushEvents] at hnew

/-- An entry that is appended waits behind the others. -/
theorem appendToBatch (h : Reported records tasks waiting events st) (id : ℕ) (data : EntryData)
    (requestId : ℕ) :
    Reported records (tasks ++ [.appendLog id data requestId])
      (waiting ++ [(id, data, requestId)]) events (st.appendToBatch id data) := by
  obtain ⟨reported, htasks, hids⟩ := h.once
  refine ⟨?_, ?_, ⟨reported, ?_, hids⟩, h.truthful.more _⟩
  · rw [replay_append]
    exact h.file.appendToBatch id data
  · rw [pendingLogResponses_appendToBatch, h.pending, List.map_append]
    rfl
  · rw [htasks, List.map_append, List.append_assoc]
    rfl

/-- The `BufWriter` may write early. -/
theorem spill (h : Reported records tasks waiting events st) (count : ℕ) :
    Reported records tasks waiting events (st.spill count) := by
  refine ⟨⟨h.file.ends, ?_, fun hnone => ?_⟩, h.pending, h.once, h.truthful⟩
  · show st.logFile ++ st.logBuffer.take count ++ st.logBuffer.drop count = _
    rw [List.append_assoc, List.take_append_drop, h.file.bytes]
  · -- nothing waits, so there was nothing to spill
    show st.logBuffer.drop count = []
    rw [h.file.buffered hnone, List.drop_nil]

/-- Any other task comes after a flush, and its own event follows those of the flush. -/
theorem other (h : Reported records tasks [] events st) {task : PersistenceTaskType}
    {event : DiskEvent} {st' : Storage} (hfile : Records (replayTask (replay records tasks) task) st')
    (hpending : st'.pendingLogResponses = []) (htask : task.appendId = none)
    (hevent : event.logPersisted = none)
    (hshortened : ∀ targetLength logFile logBuffer,
      .shortened targetLength logFile logBuffer = event →
      IsShortened records (tasks ++ [task]) targetLength logFile logBuffer) :
    Reported records (tasks ++ [task]) [] (events ++ [event]) st' := by
  obtain ⟨reported, htasks, hids⟩ := h.once
  rw [List.map_nil, List.append_nil] at htasks
  have hsame : (events ++ [event]).filterMap DiskEvent.logPersisted =
      events.filterMap DiskEvent.logPersisted := by
    simp [List.filterMap_append, hevent]
  refine ⟨?_, hpending, ⟨tasks ++ [task], by simp, ?_⟩, ?_, ?_⟩
  · rw [replay_append]
    exact hfile
  · rw [hsame, hids, htasks]
    simp [List.filterMap_append, htask]
  · intro j id logFile logBuffer
    rw [hsame]
    exact (h.truthful.more [task]).stored j id logFile logBuffer
  · intro targetLength logFile logBuffer hmem
    rcases List.mem_append.mp hmem with hold | hnew
    · exact (h.truthful.more [task]).shortened targetLength logFile logBuffer hold
    · exact hshortened targetLength logFile logBuffer (List.mem_singleton.mp hnew)

/-- **A task keeps the reports truthful.** -/
theorem processTask (h : Reported records tasks waiting events st) (task : PersistenceTaskType)
    (hwithin : ∀ targetLength, task = .truncateLog targetLength →
      targetLength ≤ (replay records tasks).length) :
    ∃ st' responses waiting', st.processTask task = some (st', responses) ∧
      Reported records (tasks ++ [task]) waiting' (events ++ st.taskEvents task) st' := by
  obtain ⟨st', responses, hprocess, hfile⟩ := h.file.processTask task hwithin
  cases task with
  | appendVote id term candidateId =>
    obtain ⟨rfl, -⟩ := Prod.mk.inj (Option.some.inj hprocess)
    refine ⟨_, responses, [], hprocess, ?_⟩
    rw [taskEvents, ← List.append_assoc]
    exact h.flush.other hfile (pendingLogResponses_flushPendingLogs st) rfl rfl
      fun _ _ _ heq => nomatch heq
  | appendLog id data requestId =>
    have happend := h.appendToBatch id data requestId
    unfold taskEvents
    rw [processTask_appendLog]
    dsimp only
    split_ifs
    · exact ⟨_, _, [], rfl, happend.flush⟩
    · rw [List.append_nil]
      exact ⟨_, _, _, rfl, happend⟩
  | truncateLog targetLength =>
    -- `set_len` follows the flush, so that it finds an empty buffer
    obtain ⟨position, -, hsome⟩ := Option.map_eq_some_iff.mp hprocess
    obtain ⟨rfl, -⟩ := Prod.mk.inj hsome
    refine ⟨_, responses, [], hprocess, ?_⟩
    rw [taskEvents, ← List.append_assoc]
    refine h.flush.other hfile (pendingLogResponses_flushPendingLogs st) rfl rfl ?_
    rintro _ _ _ ⟨⟩
    exact ⟨tasks, [], rfl, h.file.logBuffer_flushPendingLogs, h.file.logFile_flushPendingLogs⟩

/-- The tasks of a turn, one after the other. -/
theorem drain (batch : List (PersistenceTaskType × ℕ)) :
    ∀ {tasks : List PersistenceTaskType} {waiting : List (ℕ × EntryData × ℕ)}
      {events : List DiskEvent} {st : Storage}, Reported records tasks waiting events st →
      WithinFile (replay records tasks) (batch.map (·.1)) →
      ∃ st' more waiting', st.drain batch = some (st', more) ∧
        Reported records (tasks ++ batch.map (·.1)) waiting' (events ++ more) st' := by
  induction batch with
  | nil =>
    intro tasks waiting events st h _
    exact ⟨st, [], waiting, rfl, by simpa using h⟩
  | cons delivery rest ih =>
    obtain ⟨task, count⟩ := delivery
    intro tasks waiting events st h hwithin
    obtain ⟨st₁, responses, waiting₁, hprocess, h₁⟩ := h.processTask task hwithin.1
    have hrest : WithinFile (replay records (tasks ++ [task])) (rest.map (·.1)) := by
      rw [replay_append]
      exact hwithin.2
    obtain ⟨st', more, waiting', hdrain, h'⟩ := ih (h₁.spill count) hrest
    refine ⟨st', st.taskEvents task ++ more, waiting', ?_, ?_⟩
    · rw [Storage.drain, hprocess, Option.bind_some, hdrain, Option.map_some]
    · rw [List.append_assoc, List.append_assoc] at h'
      exact h'

/-- **A turn ends with everything reported.** -/
theorem turn (h : Reported records tasks [] events st) (batch : List (PersistenceTaskType × ℕ))
    (hwithin : WithinFile (replay records tasks) (batch.map (·.1))) :
    ∃ st' more, st.turn batch = some (st', more) ∧
      Reported records (tasks ++ batch.map (·.1)) [] (events ++ more) st' := by
  -- what is left of the batch after the last task is flushed before the worker waits
  obtain ⟨st₁, more, waiting, hdrain, h₁⟩ := h.drain batch hwithin
  refine ⟨_, more ++ st₁.flushEvents, by rw [Storage.turn, hdrain, Option.map_some], ?_⟩
  rw [← List.append_assoc]
  exact h₁.flush

/-- **So does every run.** -/
theorem runWorker (turns : List (List (PersistenceTaskType × ℕ))) :
    ∀ {tasks : List PersistenceTaskType} {events : List DiskEvent} {st : Storage},
      Reported records tasks [] events st →
      WithinFile (replay records tasks) (tasksOf turns) →
      ∃ st' more, st.runWorker turns = some (st', more) ∧
        Reported records (tasks ++ tasksOf turns) [] (events ++ more) st' := by
  induction turns with
  | nil =>
    intro tasks events st h _
    exact ⟨st, [], rfl, by simpa [tasksOf] using h⟩
  | cons batch rest ih =>
    intro tasks events st h hwithin
    have hsplit : tasksOf (batch :: rest) = batch.map (·.1) ++ tasksOf rest := by
      simp [tasksOf]
    rw [hsplit] at hwithin ⊢
    obtain ⟨hbatch, hrest⟩ := withinFile_append.mp hwithin
    obtain ⟨st₁, more₁, hturn, h₁⟩ := h.turn batch hbatch
    rw [← replay_append] at hrest
    obtain ⟨st', more, hrun, h'⟩ := ih h₁ hrest
    refine ⟨st', more₁ ++ more, ?_, ?_⟩
    · rw [Storage.runWorker, hturn, Option.bind_some, hrun, Option.map_some]
    · rw [List.append_assoc, List.append_assoc] at h'
      exact h'

end Reported

/-- An idle worker on a file that matches its offsets. -/
theorem reported_idle (h : Records records st) (hidle : st.pendingLogResponses = []) :
    Reported records [] [] [] st :=
  ⟨h, hidle, ⟨[], rfl, rfl⟩,
    ⟨fun _ _ _ _ hevent => (nomatch hevent), fun _ _ _ hmem => (nomatch hmem)⟩⟩

/-- **Persistence responses are truthful.**  On a file that matches `entry_end_offsets`, with
truncations within the file and for every arrival of the tasks, the worker does not panic.
When it waits again it has pushed one `LogPersisted` for every `AppendLog`, in the order of
the tasks, and all entries the tasks have left are in the file and nothing is in the buffer.
Whenever it pushes one, or shortens the file, the buffer is empty and the file holds the
entries of the tasks up to there. -/
theorem responses_truthful (h : Records records st) (hidle : st.pendingLogResponses = [])
    (turns : List (List (PersistenceTaskType × ℕ)))
    (hwithin : WithinFile records (tasksOf turns)) :
    ∃ st' events, st.runWorker turns = some (st', events) ∧
      (events.filterMap DiskEvent.logPersisted).map (·.1) =
        (tasksOf turns).filterMap PersistenceTaskType.appendId ∧
      Truthful records (tasksOf turns) events ∧
      st'.logFile = (replay records (tasksOf turns)).flatten ∧ st'.logBuffer = [] ∧
      st'.entryEndOffsets = RecordFile.endsFrom 0 (replay records (tasksOf turns)) := by
  obtain ⟨st', events, hrun, hreported⟩ := (reported_idle h hidle).runWorker turns hwithin
  rw [List.nil_append, List.nil_append] at hreported
  obtain ⟨reported, htasks, hids⟩ := hreported.once
  rw [List.map_nil, List.append_nil] at htasks
  have hbuffer : st'.logBuffer = [] := hreported.file.buffered hreported.pending
  refine ⟨st', events, hrun, by rw [hids, htasks], hreported.truthful, ?_, hbuffer,
    hreported.file.ends⟩
  rw [← hreported.file.bytes, hbuffer, List.append_nil]

end

/-- An entry that is spilled in part and removed again in the same turn is reported all the
same, and the one appended behind the truncation is the only one in the file. -/
theorem responses_truthful_spilled : letI := sampleCapnp
    ∃ st' events, runWorker [[(.appendLog 1 (.malformed [7, 8]) 0, 1), (.truncateLog 0, 0),
        (.appendLog 2 (.malformed [9]) 0, 0)], []] ⟨[], [], [], [], []⟩ = some (st', events) ∧
      (events.filterMap DiskEvent.logPersisted).map (·.1) = [1, 2] ∧ st'.logFile = [9] := by
  let _ := sampleCapnp
  obtain ⟨st', events, hrun, honce, -, hfile, -⟩ :=
    @responses_truthful _ [] ⟨[], [], [], [], []⟩ ⟨rfl, rfl, fun _ => rfl⟩ rfl
      [[(.appendLog 1 (.malformed [7, 8]) 0, 1), (.truncateLog 0, 0),
        (.appendLog 2 (.malformed [9]) 0, 0)], []]
      ⟨(fun _ heq => nomatch heq), (fun _ heq => by cases heq; exact Nat.zero_le _),
        (fun _ heq => nomatch heq), trivial⟩
  exact ⟨st', events, hrun, honce, hfile⟩

end Storage

end Kraft
