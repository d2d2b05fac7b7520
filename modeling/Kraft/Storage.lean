/-
# The persistence worker, its files, and recovery

`persistence/worker.rs`, `startup/recovery.rs` and `startup/state.rs`.

* `Storage` is the persistence worker with its two files.  `logBuffer` is what the
  `BufWriter` holds in front of `log.capnp`; a crash may leave any prefix of it in the
  file.  A row of `votes.csv` is flushed when it is written.
* `processTask` is `none` where the worker panics (an offset that does not exist).
* `Capnp` is the part of the capnp crate the program relies on: the bytes of a log
  entry, the bytes left after the message at the front of a byte string, and the decoding
  of one message.
-/
import Kraft.StateMachine

namespace Kraft

/-- The capnp crate, as far as log entries on disk are concerned. -/
class Capnp where
  encode : OwnedLogEntry → List UInt8
  /-- `read_message_from_flat_slice`: how many bytes are left after the message at the
  front, `none` on an error. -/
  bytesLeft : List UInt8 → Option ℕ
  /-- `OwnedLogEntry::from_bytes` on the bytes of one message. -/
  decode : List UInt8 → Option OwnedLogEntry

/-- A codec for entries without commands whose fields fit in a byte, on which the model
can be run. -/
abbrev sampleCapnp : Capnp where
  encode entry := [entry.index, entry.term, entry.prevLogIndex, entry.prevLogTerm,
    entry.messageId, entry.timestamp].map UInt8.ofNat
  bytesLeft bytes := if 6 ≤ bytes.length then some (bytes.length - 6) else none
  decode
    | [index, term, prevLogIndex, prevLogTerm, messageId, timestamp] =>
      some ⟨index.toNat, term.toNat, prevLogIndex.toNat, prevLogTerm.toNat, messageId.toNat,
        timestamp.toNat, []⟩
    | _ => none

/-- The bytes of received entry data. -/
def EntryData.bytes [Capnp] : EntryData → List UInt8
  | .message entry => Capnp.encode entry
  | .malformed bytes => bytes

/-- `VoteRow`. -/
structure VoteRow where
  term : ℕ
  candidateId : ℕ
  deriving DecidableEq

/-- `PersistenceWorker` and its files. -/
structure Storage where
  entryEndOffsets : List ℕ
  pendingLogResponses : List PersistenceResponseType
  logFile : List UInt8
  logBuffer : List UInt8
  voteRows : List VoteRow

namespace Storage

/-! ## The worker -/

/-- `flush_pending_logs`: the buffer reaches the file, and the responses that waited for
it are pushed. -/
def flushPendingLogs (st : Storage) : Storage × List PersistenceResponseType :=
  if st.pendingLogResponses = [] then (st, [])
  else
    ({ st with logFile := st.logFile ++ st.logBuffer, logBuffer := [], pendingLogResponses := [] },
      st.pendingLogResponses)

@[simp] theorem voteRows_flushPendingLogs (st : Storage) :
    st.flushPendingLogs.1.voteRows = st.voteRows := by
  unfold flushPendingLogs
  split_ifs <;> rfl

@[simp] theorem entryEndOffsets_flushPendingLogs (st : Storage) :
    st.flushPendingLogs.1.entryEndOffsets = st.entryEndOffsets := by
  unfold flushPendingLogs
  split_ifs <;> rfl

@[simp] theorem pendingLogResponses_flushPendingLogs (st : Storage) :
    st.flushPendingLogs.1.pendingLogResponses = [] := by
  unfold flushPendingLogs
  split_ifs with hpending
  · exact hpending
  · rfl

@[simp] theorem responses_flushPendingLogs (st : Storage) :
    st.flushPendingLogs.2 = st.pendingLogResponses := by
  unfold flushPendingLogs
  split_ifs with hpending
  · exact hpending.symm
  · rfl

/-- `BATCH_SIZE`. -/
def batchSize : ℕ := 32

/-- `process_task`: the new state of the worker with the responses it pushes. -/
def processTask [Capnp] (task : PersistenceTaskType) (st : Storage) :
    Option (Storage × List PersistenceResponseType) :=
  match task with
  | .appendVote id term candidateId =>
    let flushed := st.flushPendingLogs
    some ({ flushed.1 with voteRows := flushed.1.voteRows ++ [⟨term, candidateId⟩] },
      flushed.2 ++ [.votePersisted id term candidateId])
  | .appendLog id data _ =>
    let lastEnd := st.entryEndOffsets.getLast?.getD 0
    let st := { st with
      logBuffer := st.logBuffer ++ data.bytes
      entryEndOffsets := st.entryEndOffsets ++ [lastEnd + data.bytes.length]
      pendingLogResponses := st.pendingLogResponses ++ [.logPersisted id] }
    if batchSize ≤ st.pendingLogResponses.length then some st.flushPendingLogs
    else some (st, [])
  | .truncateLog targetLength =>
    let flushed := st.flushPendingLogs
    let position := if targetLength = 0 then some 0 else st.entryEndOffsets[targetLength - 1]?
    position.map fun position =>
      ({ flushed.1 with
          logFile := flushed.1.logFile.take position
          entryEndOffsets := flushed.1.entryEndOffsets.take targetLength },
        flushed.2)

/-- `AppendLog` up to the test whether the batch is full. -/
def appendToBatch [Capnp] (id : ℕ) (data : EntryData) (st : Storage) : Storage :=
  { st with
    logBuffer := st.logBuffer ++ data.bytes
    entryEndOffsets := st.entryEndOffsets ++
      [st.entryEndOffsets.getLast?.getD 0 + data.bytes.length]
    pendingLogResponses := st.pendingLogResponses ++ [.logPersisted id] }

@[simp] theorem pendingLogResponses_appendToBatch [Capnp] (id : ℕ) (data : EntryData) (st : Storage) :
    (st.appendToBatch id data).pendingLogResponses =
      st.pendingLogResponses ++ [.logPersisted id] := rfl

theorem processTask_appendLog [Capnp] (id : ℕ) (data : EntryData) (requestId : ℕ) (st : Storage) :
    st.processTask (.appendLog id data requestId) =
      if batchSize ≤ (st.appendToBatch id data).pendingLogResponses.length then
        some (st.appendToBatch id data).flushPendingLogs
      else some (st.appendToBatch id data, []) := rfl

/-! ## Recovery -/

/-- The loop of `deserialize_replication_log` from byte `offset` on: the entries read and
where each of them ends.  `fuel` bounds the number of messages. -/
def readEntries [Capnp] : ℕ → ℕ → List UInt8 → List (OwnedLogEntry × ℕ)
  | 0, _, _ => []
  | fuel + 1, offset, bytes =>
    if bytes = [] then []
    else
      match Capnp.bytesLeft bytes with
      | none => []
      | some left =>
        let consumed := bytes.length - left
        let rest := readEntries fuel (offset + consumed) (bytes.drop consumed)
        match Capnp.decode (bytes.take consumed) with
        | some entry => (entry, offset + consumed) :: rest
        | none => rest

/-- The loop that builds `term_start_index`. -/
def termStarts : ℕ → ℕ → List OwnedLogEntry → HashMap ℕ → HashMap ℕ
  | _, _, [], starts => starts
  | i, prevTerm, entry :: rest, starts =>
    if entry.term ≠ prevTerm then termStarts (i + 1) entry.term rest (starts.insert entry.term i)
    else termStarts (i + 1) prevTerm rest starts

/-- The largest term voted in, 0 without votes. -/
def highestVoteTerm (rows : List VoteRow) : ℕ := (rows.map (·.term)).foldl max 0

/-- `term_votes` of `process_votes`: a later row for a term replaces an earlier one. -/
def collectVotes (rows : List VoteRow) : HashMap ℕ :=
  rows.foldl (fun votes row => votes.insert row.term row.candidateId) ∅

/-- `RecoveredData`. -/
structure RecoveredData where
  replicationLog : List OwnedLogEntry
  termStartIndex : HashMap ℕ
  lastLogIndex : ℕ
  lastLogTerm : ℕ
  termVotes : HashMap ℕ
  nextTerm : ℕ
  logEntryEndOffsets : List ℕ

/-- `recover_persisted_data`. -/
def recoverPersistedData [Capnp] (logBytes : List UInt8) (votes : List VoteRow) :
    RecoveredData :=
  let entries := readEntries logBytes.length 0 logBytes
  let log := entries.map (·.1)
  let lastLogTerm := (log.getLast?.map (·.term)).getD 0
  { replicationLog := log
    termStartIndex := termStarts 0 0 log ∅
    lastLogIndex := (log.getLast?.map (·.index)).getD 0
    lastLogTerm := lastLogTerm
    termVotes := collectVotes votes
    nextTerm := max (highestVoteTerm votes) lastLogTerm + 1
    logEntryEndOffsets := entries.map (·.2) }

/-- `create_shared_state`, with `create_server_state`, `create_volatile_state` and
`create_commit_state`: a started node knows its log and its votes, and nothing else. -/
def createSharedState (recovered : RecoveredData) (identity quorumSize workers : ℕ)
    (accepts : ℕ → Bool) : SharedState where
  currentTerm := 0
  leaderId := 0
  commitIndex := 0
  lastLogIndex := recovered.lastLogIndex
  lastLogTerm := recovered.lastLogTerm
  nextTerm := recovered.nextTerm
  nextLogIndex := recovered.lastLogIndex + 1
  replicationLog := recovered.replicationLog
  replicationLogTermStarts := recovered.termStartIndex
  lastBroadcastIndex := none
  hasDeferredBroadcast := false
  publishedCommitIndex := 0
  version := 0
  persistenceWork := []
  persistenceOpen := true
  persistenceResponse := []
  quorumResponse := []
  quorumWorkerTasks := List.replicate workers []
  callbackResponses := []
  logEntryBus := Bus.new accepts
  identity := identity
  termVotes := recovered.termVotes
  nextMessageId := 0
  outstandingMessages := ∅
  quorumSize := quorumSize

/-! ## Recovered votes -/

theorem lookup_foldl_insert {term candidateId : ℕ} (rows : List VoteRow)
    (hrows : ∀ row ∈ rows, row.term = term → row.candidateId = candidateId) :
    ∀ votes : HashMap ℕ, votes.lookup term = some candidateId ∨ ⟨term, candidateId⟩ ∈ rows →
      (rows.foldl (fun votes row => votes.insert row.term row.candidateId) votes).lookup term =
        some candidateId := by
  induction rows with
  | nil => simp
  | cons row rest ih =>
    intro votes h
    refine ih (fun r hr => hrows r (by simp [hr])) (votes.insert row.term row.candidateId) ?_
    by_cases hterm : row.term = term
    · left
      rw [← hrows row (by simp) hterm, ← hterm, AList.lookup_insert]
    · rcases h with h | h
      · exact Or.inl (by rw [AList.lookup_insert_ne (Ne.symm hterm), h])
      · rcases List.mem_cons.mp h with h | h
        · exact absurd (congrArg VoteRow.term h).symm hterm
        · exact Or.inr h

/-- Every term voted in has a recovered vote. -/
theorem lookup_collectVotes_ne_none {rows : List VoteRow} {row : VoteRow} (hmem : row ∈ rows) :
    (collectVotes rows).lookup row.term ≠ none := by
  have hfold : ∀ (rows : List VoteRow) (votes : HashMap ℕ),
      votes.lookup row.term ≠ none ∨ row ∈ rows →
        (rows.foldl (fun votes row => votes.insert row.term row.candidateId) votes).lookup
          row.term ≠ none := by
    intro rows
    induction rows with
    | nil => simp
    | cons first rest ih =>
      intro votes h
      refine ih (votes.insert first.term first.candidateId) ?_
      by_cases hterm : row.term = first.term
      · left
        rw [hterm, AList.lookup_insert]
        simp
      · rw [AList.lookup_insert_ne hterm]
        refine h.imp_right fun h => ?_
        rcases List.mem_cons.mp h with rfl | h
        · exact absurd rfl hterm
        · exact h
  exact hfold rows ∅ (Or.inr hmem)

/-- A recovered vote is the vote of the rows for its term, if these agree. -/
theorem lookup_collectVotes {rows : List VoteRow} {term candidateId : ℕ}
    (hmem : ⟨term, candidateId⟩ ∈ rows)
    (hrows : ∀ row ∈ rows, row.term = term → row.candidateId = candidateId) :
    (collectVotes rows).lookup term = some candidateId :=
  lookup_foldl_insert rows hrows ∅ (Or.inr hmem)

end Storage

end Kraft
