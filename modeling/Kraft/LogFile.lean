/-
# The log file of a node

The persistence worker's file as a list of records.  `Storage.Records records st` says that
`log.capnp`, together with the buffer in front of it, consists of these records and that
`entry_end_offsets` are their ends.  `replay` is what a list of tasks does to the records:

* `Records.processTask` : the worker carries out a task as `replay` says, and does not panic
  if a truncation stays within the file;
* `Records.flushPendingLogs` : after a flush all records are in the file itself;
* `records_recoverPersistedData` : a file that recovery can read to its end consists of the
  recovered entries.
-/
import Kraft.RecordFile
import Kraft.Storage

namespace Kraft

/-- A vote for the disk. -/
def PersistenceTaskType.isVote : PersistenceTaskType → Bool
  | .appendVote .. => true
  | _ => false

namespace Storage

/-! ## The records of the file -/

/-- The log file consists of these records. -/
structure Records (records : List (List UInt8)) (st : Storage) : Prop where
  ends : st.entryEndOffsets = RecordFile.endsFrom 0 records
  bytes : st.logFile ++ st.logBuffer = records.flatten
  buffered : st.pendingLogResponses = [] → st.logBuffer = []

namespace Records

variable {records : List (List UInt8)} {st : Storage}

/-- After a flush everything is in the file. -/
theorem logFile_flushPendingLogs (h : Records records st) :
    st.flushPendingLogs.1.logFile = records.flatten := by
  unfold Storage.flushPendingLogs
  split_ifs with hpending
  · rw [← h.bytes, h.buffered hpending, List.append_nil]
  · exact h.bytes

theorem logBuffer_flushPendingLogs (h : Records records st) :
    st.flushPendingLogs.1.logBuffer = [] := by
  unfold Storage.flushPendingLogs
  split_ifs with hpending
  · exact h.buffered hpending
  · rfl

/-- A flush keeps the records. -/
theorem flushPendingLogs (h : Records records st) : Records records st.flushPendingLogs.1 :=
  ⟨by rw [entryEndOffsets_flushPendingLogs, h.ends],
    by rw [h.logFile_flushPendingLogs, h.logBuffer_flushPendingLogs, List.append_nil],
    fun _ => h.logBuffer_flushPendingLogs⟩

/-- With an empty buffer every record is in the file. -/
theorem flatten_take_le (h : Records records st) (hbuffer : st.logBuffer = []) (k : ℕ) :
    (records.take k).flatten.length ≤ st.logFile.length := by
  have hfile : st.logFile = records.flatten := by rw [← h.bytes, hbuffer, List.append_nil]
  rw [hfile]
  exact (RecordFile.flatten_take_isPrefix records k).length_le

/-- Where a record of the file is found. -/
theorem holds (h : Records records st) {i : ℕ} {record : List UInt8}
    (hrecord : records[i]? = some record)
    (hflushed : (records.take (i + 1)).flatten.length ≤ st.logFile.length) :
    ∃ finish, st.entryEndOffsets[i]? = some finish ∧ finish ≤ st.logFile.length ∧
      record <:+ st.logFile.take finish := by
  have hi := (List.getElem?_eq_some_iff.mp hrecord).1
  refine ⟨(records.take (i + 1)).flatten.length, ?_, hflushed, ?_⟩
  · rw [h.ends, RecordFile.getElem?_endsFrom hi, Nat.zero_add]
  · rw [← List.take_append_of_le_length hflushed, h.bytes, RecordFile.flatten_take]
    exact RecordFile.suffix_flatten_take hrecord

end Records

/-! ## Tasks -/

variable [Capnp]

/-- What the persistence worker's tasks do to the records of the log file. -/
def replayTask (records : List (List UInt8)) : PersistenceTaskType → List (List UInt8)
  | .appendVote .. => records
  | .appendLog _ data _ => records ++ [data.bytes]
  | .truncateLog targetLength => records.take targetLength

/-- A list of tasks, oldest first. -/
def replay (records : List (List UInt8)) (tasks : List PersistenceTaskType) :
    List (List UInt8) :=
  tasks.foldl replayTask records

@[simp] theorem replay_nil (records : List (List UInt8)) : replay records [] = records := rfl

@[simp] theorem replay_cons (records : List (List UInt8)) (task : PersistenceTaskType)
    (tasks : List PersistenceTaskType) :
    replay records (task :: tasks) = replay (replayTask records task) tasks := rfl

theorem replay_append (records : List (List UInt8)) (tasks₁ tasks₂ : List PersistenceTaskType) :
    replay records (tasks₁ ++ tasks₂) = replay (replay records tasks₁) tasks₂ :=
  List.foldl_append

/-- Votes do not concern the log file. -/
theorem replay_votes {records : List (List UInt8)} {votes : List PersistenceTaskType}
    (h : ∀ task ∈ votes, task.isVote = true) : replay records votes = records := by
  induction votes with
  | nil => rfl
  | cons task rest ih =>
    have hvote := h task (by simp)
    cases task with
    | appendVote id term candidateId => exact ih fun task htask => h task (by simp [htask])
    | _ => cases hvote

namespace Records

variable {records : List (List UInt8)} {st : Storage}

/-- The bytes of an entry that is appended are buffered. -/
theorem appendToBatch (h : Records records st) (id : ℕ) (data : EntryData) :
    Records (records ++ [data.bytes]) (st.appendToBatch id data) := by
  refine ⟨?_, ?_, fun hnil => absurd hnil (by simp)⟩
  · show st.entryEndOffsets ++ [st.entryEndOffsets.getLast?.getD 0 + data.bytes.length] = _
    rw [h.ends, RecordFile.getLast?_endsFrom, RecordFile.endsFrom_append_singleton,
      Nat.zero_add]
  · show st.logFile ++ (st.logBuffer ++ data.bytes) = _
    rw [← List.append_assoc, h.bytes, List.flatten_append, List.flatten_singleton]

/-- **A task that stays within the file is carried out.** -/
theorem processTask (h : Records records st) (task : PersistenceTaskType)
    (hwithin : ∀ targetLength, task = .truncateLog targetLength →
      targetLength ≤ records.length) :
    ∃ st' responses, st.processTask task = some (st', responses) ∧
      Records (replayTask records task) st' := by
  cases task with
  | appendVote id term candidateId =>
    have hflush := h.flushPendingLogs
    exact ⟨_, _, rfl, hflush.ends, hflush.bytes, hflush.buffered⟩
  | appendLog id data requestId =>
    have happend := h.appendToBatch id data
    rw [processTask_appendLog]
    split_ifs
    · exact ⟨_, _, rfl, happend.flushPendingLogs⟩
    · exact ⟨_, _, rfl, happend⟩
  | truncateLog targetLength =>
    have hle := hwithin targetLength rfl
    have hposition : (if targetLength = 0 then some 0 else st.entryEndOffsets[targetLength - 1]?) =
        some (records.take targetLength).flatten.length := by
      split_ifs with hzero
      · simp [hzero]
      · rw [h.ends, RecordFile.getElem?_endsFrom (by omega), Nat.zero_add,
          Nat.sub_add_cancel (by omega)]
    unfold Storage.processTask
    simp only [hposition, Option.map_some]
    refine ⟨_, _, rfl, ?_, ?_, fun _ => h.logBuffer_flushPendingLogs⟩
    · show st.flushPendingLogs.1.entryEndOffsets.take targetLength = _
      rw [entryEndOffsets_flushPendingLogs, h.ends]
      exact (RecordFile.endsFrom_take 0 records targetLength).symm
    · show st.flushPendingLogs.1.logFile.take _ ++ st.flushPendingLogs.1.logBuffer = _
      rw [h.logFile_flushPendingLogs, h.logBuffer_flushPendingLogs, List.append_nil,
        RecordFile.flatten_take]
      rfl

/-- Which responses a task leads to: those that waited, and its own. -/
theorem mem_responses_processTask {task : PersistenceTaskType} {st' : Storage}
    {responses : List PersistenceResponseType} (h : st.processTask task = some (st', responses))
    {id : ℕ} (hmem : .logPersisted id ∈ st'.pendingLogResponses ++ responses) :
    .logPersisted id ∈ st.pendingLogResponses ∨ ∃ data requestId,
      task = .appendLog id data requestId := by
  cases task with
  | appendVote id' term candidateId =>
    obtain ⟨rfl, rfl⟩ := Prod.mk.inj (Option.some.inj h)
    simpa using hmem
  | appendLog id' data requestId =>
    have hsplit : .logPersisted id ∈ st.pendingLogResponses ++ [.logPersisted id'] := by
      rw [processTask_appendLog] at h
      split_ifs at h
      · have hst := congrArg Prod.fst (Option.some.inj h)
        have hresponses := congrArg Prod.snd (Option.some.inj h)
        dsimp only at hst hresponses
        rw [← hst, ← hresponses] at hmem
        simpa using hmem
      · obtain ⟨rfl, rfl⟩ := Prod.mk.inj (Option.some.inj h)
        simpa using hmem
    rcases List.mem_append.mp hsplit with hold | hnew
    · exact Or.inl hold
    · obtain rfl := PersistenceResponseType.logPersisted.inj (List.mem_singleton.mp hnew)
      exact Or.inr ⟨data, requestId, rfl⟩
  | truncateLog targetLength =>
    obtain ⟨position, -, hsome⟩ := Option.map_eq_some_iff.mp h
    obtain ⟨rfl, rfl⟩ := Prod.mk.inj hsome
    simpa using hmem

/-- After a task everything is in the file, or the file is as it was and nothing is
reported. -/
theorem logBuffer_processTask (hrecords : Records records st) {task : PersistenceTaskType}
    {st' : Storage} {responses : List PersistenceResponseType}
    (h : st.processTask task = some (st', responses)) :
    st'.logBuffer = [] ∨ st'.logFile = st.logFile ∧ responses = [] := by
  cases task with
  | appendVote id term candidateId =>
    obtain ⟨rfl, rfl⟩ := Prod.mk.inj (Option.some.inj h)
    exact Or.inl hrecords.logBuffer_flushPendingLogs
  | appendLog id data requestId =>
    rw [processTask_appendLog] at h
    split_ifs at h
    · have hst : (st.appendToBatch id data).flushPendingLogs.1 = st' :=
        congrArg Prod.fst (Option.some.inj h)
      left
      rw [← hst]
      exact (hrecords.appendToBatch id data).logBuffer_flushPendingLogs
    · obtain ⟨rfl, rfl⟩ := Prod.mk.inj (Option.some.inj h)
      exact Or.inr ⟨rfl, rfl⟩
  | truncateLog targetLength =>
    obtain ⟨position, -, hsome⟩ := Option.map_eq_some_iff.mp h
    obtain ⟨rfl, rfl⟩ := Prod.mk.inj hsome
    exact Or.inl hrecords.logBuffer_flushPendingLogs

end Records

/-! ## Recovery -/

/-- The entries read from a file end where the records of some first part of it end. -/
theorem exists_records_readEntries (fuel : ℕ) : ∀ (offset : ℕ) (bytes : List UInt8),
    ∃ records, (readEntries fuel offset bytes).map (·.2) = RecordFile.endsFrom offset records ∧
      records.flatten <+: bytes := by
  induction fuel with
  | zero => exact fun offset bytes => ⟨[], rfl, List.nil_prefix⟩
  | succ fuel ih =>
    intro offset bytes
    unfold readEntries
    split_ifs
    · exact ⟨[], rfl, List.nil_prefix⟩
    · split
      · exact ⟨[], rfl, List.nil_prefix⟩
      · next left _ =>
        dsimp only
        obtain ⟨records, hends, hfront⟩ :=
          ih (offset + (bytes.length - left)) (bytes.drop (bytes.length - left))
        have hlength : (bytes.take (bytes.length - left)).length = bytes.length - left := by
          rw [List.length_take]
          omega
        split
        · -- the message is the first record
          refine ⟨bytes.take (bytes.length - left) :: records, ?_, ?_⟩
          · rw [List.map_cons, hends, RecordFile.endsFrom, hlength]
          · rw [List.flatten_cons]
            exact (List.prefix_append_right_inj _).mpr hfront |>.trans
              (by rw [List.take_append_drop])
        · -- a message that does not decode is skipped and joins the next record
          cases records with
          | nil => exact ⟨[], hends, List.nil_prefix⟩
          | cons first rest =>
            refine ⟨(bytes.take (bytes.length - left) ++ first) :: rest, ?_, ?_⟩
            · rw [hends, RecordFile.endsFrom, RecordFile.endsFrom, List.length_append, hlength,
                Nat.add_assoc]
            · rw [List.flatten_cons, List.append_assoc, ← List.flatten_cons]
              exact (List.prefix_append_right_inj _).mpr hfront |>.trans
                (by rw [List.take_append_drop])

/-- The file can be read to its end: no torn message is left behind the last entry. -/
def ReadToEnd (logFile : List UInt8) : Prop :=
  (recoverPersistedData logFile []).logEntryEndOffsets.getLast?.getD 0 = logFile.length

instance (logFile : List UInt8) : Decidable (ReadToEnd logFile) :=
  inferInstanceAs (Decidable (_ = _))

/-- **A file that is read to its end consists of the recovered entries.** -/
theorem exists_records_of_readToEnd {logFile : List UInt8} (h : ReadToEnd logFile)
    (votes : List VoteRow) :
    ∃ records : List (List UInt8),
      (recoverPersistedData logFile votes).logEntryEndOffsets = RecordFile.endsFrom 0 records ∧
      logFile = records.flatten ∧
      records.length = (recoverPersistedData logFile votes).replicationLog.length := by
  obtain ⟨records, hends, hfront⟩ := exists_records_readEntries logFile.length 0 logFile
  refine ⟨records, hends, ?_, ?_⟩
  · have hlast : records.flatten.length = logFile.length := by
      rw [← RecordFile.getLast?_endsFrom, ← hends]
      exact h
    exact (hfront.eq_of_length hlast).symm
  · rw [← RecordFile.length_endsFrom 0 records, ← hends]
    simp [recoverPersistedData]

end Storage

end Kraft
