/-
# Recovery of the log file

What `deserialize_replication_log` makes of a file that consists of serialised entries, and of
one whose last entry was torn by a crash.

* `LawfulCapnp` is what is assumed of the capnp crate: a serialised message is self-delimiting
  and can be decoded.
* `recoverPersistedData_append` : recovery finds the entries before a torn one.
* `torn_tail_iff` : entries appended after a restart on a torn file are recovered by the next
  restart, for every codec, exactly if no byte was torn or no entry is appended.  The worker
  opens the file in append mode, so the torn bytes stay in front of what it appends.
-/
import Kraft.Codec
import Kraft.LogFile
import Kraft.Node
import Mathlib.Data.Countable.Basic
import Mathlib.Logic.Equiv.List
import Mathlib.Logic.Function.Basic
import Mathlib.Tactic.DeriveCountable

namespace Kraft

open Storage

/-! ## The codec -/

/-- What is assumed of the capnp crate: a message is read off the front of a longer slice with
exactly its bytes, a proper part of it is not read at all, and it decodes to its entry. -/
class LawfulCapnp [Capnp] : Prop where
  bytesLeft_encode : ∀ (entry : OwnedLogEntry) (rest : List UInt8),
    Capnp.bytesLeft (Capnp.encode entry ++ rest) = some rest.length
  bytesLeft_torn : ∀ (entry : OwnedLogEntry) (k : ℕ), k < (Capnp.encode entry).length →
    Capnp.bytesLeft ((Capnp.encode entry).take k) = none
  decode_encode : ∀ entry : OwnedLogEntry, Capnp.decode (Capnp.encode entry) = some entry

/-- The bytes of a list of entries. -/
def encodeAll [Capnp] (entries : List OwnedLogEntry) : List UInt8 :=
  (entries.map Capnp.encode).flatten

section Lawful

variable [Capnp] [LawfulCapnp]

/-- A message has bytes: otherwise any slice could be read as one, and no entry would have any. -/
theorem encode_ne_nil (entry : OwnedLogEntry) : Capnp.encode entry ≠ [] := by
  intro hnil
  have hall : ∀ other : OwnedLogEntry, Capnp.encode other = [] := by
    intro other
    have hfront := LawfulCapnp.bytesLeft_encode entry (Capnp.encode other)
    have hwhole := LawfulCapnp.bytesLeft_encode other []
    rw [List.append_nil] at hwhole
    rw [hnil, List.nil_append, hwhole] at hfront
    exact List.length_eq_zero_iff.mp (Option.some.inj hfront).symm
  have hsame : some (⟨0, 0, 0, 0, 0, 0, []⟩ : OwnedLogEntry) = some ⟨1, 0, 0, 0, 0, 0, []⟩ := by
    rw [← LawfulCapnp.decode_encode ⟨0, 0, 0, 0, 0, 0, []⟩, hall,
      ← hall ⟨1, 0, 0, 0, 0, 0, []⟩, LawfulCapnp.decode_encode]
  cases hsame

/-- No entry is encoded as nothing. -/
theorem length_le_encodeAll (entries : List OwnedLogEntry) :
    entries.length ≤ (encodeAll entries).length := by
  induction entries with
  | nil => exact Nat.le_refl 0
  | cons entry rest ih =>
    have hpos := List.length_pos_iff.mpr (encode_ne_nil entry)
    simp only [encodeAll, List.map_cons, List.flatten_cons, List.length_append, List.length_cons]
      at ih ⊢
    omega

/-! ## Reading -/

omit [LawfulCapnp] in
/-- The message at the front is read, and skipped if it does not decode. -/
theorem readEntries_front {front : List UInt8} (hfront : front ≠ []) (rest : List UInt8)
    (hleft : Capnp.bytesLeft (front ++ rest) = some rest.length) (fuel offset : ℕ) :
    readEntries (fuel + 1) offset (front ++ rest) =
      ((Capnp.decode front).map fun entry => (entry, offset + front.length)).toList ++
        readEntries fuel (offset + front.length) rest := by
  have hconsumed : (front ++ rest).length - rest.length = front.length := by
    rw [List.length_append]
    omega
  rw [readEntries, if_neg (by simp [hfront]), hleft]
  dsimp only
  rw [hconsumed, List.take_left, List.drop_left]
  rcases Capnp.decode front with _ | entry <;> rfl

/-- The entries in front of a file are read one by one. -/
theorem readEntries_append (entries : List OwnedLogEntry) (tail : List UInt8) :
    ∀ fuel offset : ℕ, entries.length ≤ fuel →
      readEntries fuel offset (encodeAll entries ++ tail) =
        entries.zip (RecordFile.endsFrom offset (entries.map Capnp.encode)) ++
          readEntries (fuel - entries.length) (offset + (encodeAll entries).length) tail := by
  induction entries with
  | nil => exact fun fuel offset _ => rfl
  | cons entry rest ih =>
    intro fuel offset hfuel
    obtain ⟨fuel, rfl⟩ : ∃ m, fuel = m + 1 := ⟨fuel - 1, by simp at hfuel; omega⟩
    have hbytes : encodeAll (entry :: rest) ++ tail =
        Capnp.encode entry ++ (encodeAll rest ++ tail) := by
      simp [encodeAll]
    rw [hbytes, readEntries_front (encode_ne_nil entry) _ (LawfulCapnp.bytesLeft_encode entry _),
      LawfulCapnp.decode_encode, ih fuel _ (by simpa using hfuel)]
    simp [RecordFile.endsFrom, encodeAll, Nat.add_assoc]

omit [LawfulCapnp] in
/-- Nothing is read where the reader fails. -/
theorem readEntries_of_unreadable {bytes : List UInt8}
    (h : bytes = [] ∨ Capnp.bytesLeft bytes = none) (fuel offset : ℕ) :
    readEntries fuel offset bytes = [] := by
  cases fuel with
  | zero => rfl
  | succ fuel =>
    rw [readEntries]
    rcases h with hnil | hnone
    · rw [if_pos hnil]
    · rw [hnone]
      exact ite_self _

/-- **Recovery finds the entries in front of what it cannot read.** -/
theorem recoverPersistedData_append (entries : List OwnedLogEntry) {tail : List UInt8}
    (htail : tail = [] ∨ Capnp.bytesLeft tail = none) (votes : List VoteRow) :
    (recoverPersistedData (encodeAll entries ++ tail) votes).replicationLog = entries ∧
      (recoverPersistedData (encodeAll entries ++ tail) votes).logEntryEndOffsets =
        RecordFile.endsFrom 0 (entries.map Capnp.encode) := by
  have hfuel : entries.length ≤ (encodeAll entries ++ tail).length := by
    rw [List.length_append]
    exact (length_le_encodeAll entries).trans (Nat.le_add_right _ _)
  have hread : readEntries (encodeAll entries ++ tail).length 0 (encodeAll entries ++ tail) =
      entries.zip (RecordFile.endsFrom 0 (entries.map Capnp.encode)) := by
    rw [readEntries_append entries tail _ 0 hfuel, readEntries_of_unreadable htail,
      List.append_nil]
  have hlength : entries.length =
      (RecordFile.endsFrom 0 (entries.map Capnp.encode)).length := by simp
  constructor
  · show (readEntries _ 0 _).map (·.1) = entries
    rw [hread]
    exact List.map_fst_zip hlength.le
  · show (readEntries _ 0 _).map (·.2) = _
    rw [hread]
    exact List.map_snd_zip hlength.ge

/-- A first part of a file of entries is a file of entries with a torn one behind them. -/
theorem exists_torn_of_prefix (entries : List OwnedLogEntry) :
    ∀ {front : List UInt8}, front <+: encodeAll entries → ∃ m tail,
      front = encodeAll (entries.take m) ++ tail ∧ (tail = [] ∨ Capnp.bytesLeft tail = none) := by
  induction entries with
  | nil =>
    intro front hfront
    exact ⟨0, [], List.prefix_nil.mp hfront, Or.inl rfl⟩
  | cons entry rest ih =>
    intro front hfront
    have hcons : encodeAll (entry :: rest) = Capnp.encode entry ++ encodeAll rest := by
      simp [encodeAll]
    have htake := List.prefix_iff_eq_take.mp hfront
    rw [hcons, List.take_append] at htake
    rcases Nat.lt_or_ge front.length (Capnp.encode entry).length with hlt | hge
    · have hnone : front.length - (Capnp.encode entry).length = 0 := by omega
      rw [hnone, List.take_zero, List.append_nil] at htake
      refine ⟨0, front, rfl, Or.inr ?_⟩
      rw [htake]
      exact LawfulCapnp.bytesLeft_torn entry _ hlt
    · rw [List.take_of_length_le hge] at htake
      obtain ⟨m, tail, hrest, htail⟩ := ih (List.take_prefix
        (front.length - (Capnp.encode entry).length) (encodeAll rest))
      refine ⟨m + 1, tail, ?_, htail⟩
      rw [htake, hrest, List.take_succ_cons, ← List.append_assoc]
      simp [encodeAll]

/-- A first part of a file of entries that is read to its end has no torn entry. -/
theorem eq_encodeAll_of_readToEnd {entries : List OwnedLogEntry} {front : List UInt8}
    (hfront : front <+: encodeAll entries) (hread : Storage.ReadToEnd front) :
    ∃ m, front = encodeAll (entries.take m) := by
  obtain ⟨m, tail, rfl, htail⟩ := exists_torn_of_prefix entries hfront
  have hends := (recoverPersistedData_append (entries.take m) htail []).2
  unfold Storage.ReadToEnd at hread
  rw [hends, RecordFile.getLast?_endsFrom, List.length_append] at hread
  have hnil : tail = [] := List.length_eq_zero_iff.mp (by
    have hsame : (encodeAll (entries.take m)).length =
      ((entries.take m).map Capnp.encode).flatten.length := rfl
    omega)
  exact ⟨m, by rw [hnil, List.append_nil]⟩

end Lawful

/-! ## Appending after a restart -/

namespace Storage

/-- `PersistenceWorker::new` on the files as they are: it appends to the log file, and takes the
ends of the recovered entries for the ends of all records in it. -/
def reopen [Capnp] (logFile : List UInt8) (voteRows : List VoteRow) : Storage where
  entryEndOffsets := (recoverPersistedData logFile voteRows).logEntryEndOffsets
  pendingLogResponses := []
  logFile := logFile
  logBuffer := []
  voteRows := voteRows

/-- The worker carries out tasks, `none` where it panics. -/
def processTasks [Capnp] : List PersistenceTaskType → Storage → Option Storage
  | [], st => some st
  | task :: rest, st => (st.processTask task).bind fun done => processTasks rest done.1

/-- The tasks that append entries under the ids `ids`. -/
def appendTasks (ids : ℕ → ℕ) (entries : List OwnedLogEntry) : List PersistenceTaskType :=
  entries.mapIdx fun i entry => .appendLog (ids i) entry.asBytes entry.messageId

/-- A restart on a file, entries that are appended and flushed, and the log that the next restart
recovers. -/
def recoveredAfter [Capnp] (logFile : List UInt8) (voteRows : List VoteRow) (ids : ℕ → ℕ)
    (appended : List OwnedLogEntry) : Option (List OwnedLogEntry) :=
  (processTasks (appendTasks ids appended) (reopen logFile voteRows)).map fun st =>
    (recoverPersistedData st.flushPendingLogs.1.logFile st.voteRows).replicationLog

/-- The bytes the worker has been given, and that nothing is buffered behind its back. -/
def Written (bytes : List UInt8) (st : Storage) : Prop :=
  st.logFile ++ st.logBuffer = bytes ∧ (st.pendingLogResponses = [] → st.logBuffer = [])

/-- A flush writes the buffer. -/
theorem Written.flushPendingLogs {bytes : List UInt8} {st : Storage} (h : Written bytes st) :
    st.flushPendingLogs.1.logFile = bytes ∧ Written bytes st.flushPendingLogs.1 := by
  unfold Storage.flushPendingLogs
  split_ifs with hpending
  · have hfile : st.logFile = bytes := by rw [← h.1, h.2 hpending, List.append_nil]
    exact ⟨hfile, h⟩
  · exact ⟨h.1, by simp [Written, h.1]⟩

/-- An entry is written behind what is there. -/
theorem Written.appendLog [Capnp] {bytes : List UInt8} {st : Storage} (h : Written bytes st)
    (id : ℕ) (data : EntryData) (requestId : ℕ) :
    ∃ st' responses, st.processTask (.appendLog id data requestId) = some (st', responses) ∧
      Written (bytes ++ data.bytes) st' := by
  have hbuffered : Written (bytes ++ data.bytes)
      { st with
        logBuffer := st.logBuffer ++ data.bytes
        entryEndOffsets := st.entryEndOffsets ++
          [st.entryEndOffsets.getLast?.getD 0 + data.bytes.length]
        pendingLogResponses := st.pendingLogResponses ++ [.logPersisted id] } := by
    refine ⟨?_, fun hnil => absurd hnil (by simp)⟩
    rw [← h.1, List.append_assoc]
  unfold processTask
  dsimp only
  split_ifs
  · exact ⟨_, _, rfl, hbuffered.flushPendingLogs.2⟩
  · exact ⟨_, _, rfl, hbuffered⟩

/-- Appended entries stand behind what was in the file. -/
theorem Written.appendTasks [Capnp] (entries : List OwnedLogEntry) :
    ∀ {bytes : List UInt8} {st : Storage} (ids : ℕ → ℕ), Written bytes st →
      ∃ st', processTasks (appendTasks ids entries) st = some st' ∧
        Written (bytes ++ encodeAll entries) st' := by
  induction entries with
  | nil =>
    intro bytes st ids h
    exact ⟨st, rfl, by simpa [encodeAll] using h⟩
  | cons entry rest ih =>
    intro bytes st ids h
    obtain ⟨st₁, responses, htask, h₁⟩ := h.appendLog (ids 0) entry.asBytes entry.messageId
    obtain ⟨st', htasks, h'⟩ := ih (fun i => ids (i + 1)) h₁
    refine ⟨st', ?_, ?_⟩
    · rw [Storage.appendTasks, List.mapIdx_cons, processTasks, htask]
      exact htasks
    · rw [List.append_assoc] at h'
      exact h'

/-- The next restart reads the old bytes followed by the appended entries. -/
theorem recoveredAfter_eq [Capnp] (logFile : List UInt8) (voteRows : List VoteRow) (ids : ℕ → ℕ)
    (appended : List OwnedLogEntry) : ∃ rows, recoveredAfter logFile voteRows ids appended =
      some (recoverPersistedData (logFile ++ encodeAll appended) rows).replicationLog := by
  have hstart : Written logFile (reopen logFile voteRows) :=
    ⟨List.append_nil logFile, fun _ => rfl⟩
  obtain ⟨st, htasks, h⟩ := hstart.appendTasks appended ids
  refine ⟨st.voteRows, ?_⟩
  rw [recoveredAfter, htasks, Option.map_some, h.flushPendingLogs.1]

end Storage

/-! ## A codec on which torn bytes are mistaken for an entry -/

instance countable_uint8 : Countable UInt8 :=
  Function.Injective.countable (f := UInt8.toNat) fun _ _ h => UInt8.toNat_inj.mp h

instance countable_char : Countable Char :=
  Function.Injective.countable (f := Char.toNat) fun _ _ h => Char.toNat_inj.mp h

instance countable_string : Countable String :=
  Function.Injective.countable (f := String.toList) fun _ _ h => String.toList_inj.mp h

deriving instance Countable for PutRequest
deriving instance Countable for OwnedLogEntry

/-- Numbers the entries. -/
noncomputable def entryNumber : OwnedLogEntry → ℕ :=
  (exists_injective_nat OwnedLogEntry).choose

theorem entryNumber_injective : Function.Injective entryNumber :=
  (exists_injective_nat OwnedLogEntry).choose_spec

/-- An entry as a row of ones that ends with a zero, the first `pad` ones being a header. -/
noncomputable abbrev unaryCapnp (pad : ℕ) : Capnp where
  encode entry := List.replicate (pad + entryNumber entry) 1 ++ [0]
  bytesLeft bytes :=
    match bytes.dropWhile (· ≠ 0) with
    | [] => none
    | _ :: rest => some rest.length
  decode bytes := Function.partialInv entryNumber (bytes.length - 1 - pad)

theorem dropWhile_ones (m : ℕ) (rest : List UInt8) :
    (List.replicate m 1 ++ rest).dropWhile (· ≠ 0) = rest.dropWhile (· ≠ 0) := by
  induction m with
  | zero => rfl
  | succ m ih =>
    rw [List.replicate_succ, List.cons_append, List.dropWhile_cons_of_pos (by decide), ih]

/-- A row of ones is read up to the zero that ends it. -/
theorem bytesLeft_ones (pad m : ℕ) (rest : List UInt8) :
    (unaryCapnp pad).bytesLeft (List.replicate m 1 ++ 0 :: rest) = some rest.length := by
  show (match (List.replicate m 1 ++ 0 :: rest).dropWhile (· ≠ 0) with
    | [] => none
    | _ :: rest => some rest.length) = some rest.length
  rw [dropWhile_ones, List.dropWhile_cons_of_neg (by decide)]

/-- Without a zero nothing is read. -/
theorem bytesLeft_only_ones (pad m : ℕ) :
    (unaryCapnp pad).bytesLeft (List.replicate m 1) = none := by
  show (match (List.replicate m (1 : UInt8)).dropWhile (· ≠ 0) with
    | [] => none
    | _ :: rest => some rest.length) = none
  rw [← List.append_nil (List.replicate m 1), dropWhile_ones, List.dropWhile_nil]

theorem encode_unary (pad : ℕ) (entry : OwnedLogEntry) : (unaryCapnp pad).encode entry =
    List.replicate (pad + entryNumber entry) 1 ++ [0] := rfl

theorem decode_unary (pad m : ℕ) : (unaryCapnp pad).decode (List.replicate (pad + m) 1 ++ [0]) =
    Function.partialInv entryNumber m := by
  show Function.partialInv entryNumber
    ((List.replicate (pad + m) (1 : UInt8) ++ [0]).length - 1 - pad) = _
  rw [List.length_append, List.length_replicate, List.length_singleton]
  congr 1
  omega

/-- A torn record has no end. -/
theorem take_encode_unary (pad : ℕ) (entry : OwnedLogEntry) {k : ℕ}
    (hk : k < ((unaryCapnp pad).encode entry).length) :
    ((unaryCapnp pad).encode entry).take k = List.replicate k 1 := by
  rw [encode_unary] at hk ⊢
  have hle : k ≤ pad + entryNumber entry := by
    rw [List.length_append, List.length_replicate, List.length_singleton] at hk
    omega
  rw [List.take_append_of_le_length (by simpa using hle), List.take_replicate,
    Nat.min_eq_left hle]

/-- The encoding is lawful. -/
theorem lawful_unaryCapnp (pad : ℕ) : @LawfulCapnp (unaryCapnp pad) := by
  refine @LawfulCapnp.mk (unaryCapnp pad) (fun entry rest => ?_) (fun entry k hk => ?_)
    (fun entry => ?_)
  · rw [encode_unary, List.append_assoc, List.singleton_append, bytesLeft_ones]
  · rw [take_encode_unary pad entry hk, bytesLeft_only_ones]
  · rw [encode_unary, decode_unary]
    exact Function.partialInv_left entryNumber_injective entry

/-- Characters by their code points. -/
def stringCodec : Codec String :=
  (Codec.nat.map Char.ofNat Char.toNat Char.ofNat_toNat).list.map String.ofList String.toList
    fun _ => String.ofList_toList

def commandCodec : Codec PutRequest :=
  (stringCodec.prod ((Codec.nat.map UInt8.ofNat UInt8.toNat fun _ => UInt8.ofNat_toNat).list.prod
    Codec.nat)).map (fun r => ⟨r.1, r.2.1, r.2.2⟩) (fun c => (c.id, c.payload, c.nodeId))
    fun _ => rfl

def entryCodec : Codec OwnedLogEntry :=
  (Codec.nat.prod (Codec.nat.prod (Codec.nat.prod (Codec.nat.prod (Codec.nat.prod
    (Codec.nat.prod commandCodec.list)))))).map
    (fun r => ⟨r.1, r.2.1, r.2.2.1, r.2.2.2.1, r.2.2.2.2.1, r.2.2.2.2.2.1, r.2.2.2.2.2.2⟩)
    (fun e => (e.index, e.term, e.prevLogIndex, e.prevLogTerm, e.messageId, e.timestamp, e.commands))
    fun _ => rfl

/-- An entry as the digits of its fields: with this codec the model can be run through restarts. -/
abbrev digitCapnp : Capnp where
  encode := entryCodec.encode
  bytesLeft bytes := (entryCodec.parse bytes).map (·.2.length)
  decode bytes := (entryCodec.parse bytes).map (·.1)

/-- So is this one. -/
theorem lawful_digitCapnp : @LawfulCapnp digitCapnp := by
  refine @LawfulCapnp.mk digitCapnp (fun entry rest => ?_) (fun entry k hk => ?_) (fun entry => ?_)
  · exact congrArg (Option.map _) (entryCodec.parse_encode entry rest)
  · exact congrArg (Option.map _) (entryCodec.parse_torn entry hk)
  · have hparse := entryCodec.parse_encode entry []
    rw [List.append_nil] at hparse
    exact congrArg (Option.map _) hparse

/-- Ones left by a torn message join the message that follows them. -/
theorem recover_joined (pad k : ℕ) (entry : OwnedLogEntry) (rest : List OwnedLogEntry)
    (votes : List VoteRow) : letI := unaryCapnp pad
    (recoverPersistedData (List.replicate k 1 ++ encodeAll (entry :: rest)) votes).replicationLog =
      (Function.partialInv entryNumber (k + entryNumber entry)).toList ++ rest := by
  let codec := unaryCapnp pad
  have lawful := lawful_unaryCapnp pad
  have hbytes : List.replicate k 1 ++ encodeAll (entry :: rest) =
      (List.replicate (pad + (k + entryNumber entry)) 1 ++ [0]) ++ encodeAll rest := by
    show List.replicate k (1 : UInt8) ++ (codec.encode entry ++ encodeAll rest) = _
    rw [encode_unary, List.append_assoc, ← List.append_assoc, List.replicate_append_replicate,
      ← List.append_assoc]
    congr 3
    omega
  have hfuel : ((List.replicate (pad + (k + entryNumber entry)) (1 : UInt8) ++ [0]) ++
      encodeAll rest).length = pad + (k + entryNumber entry) + (encodeAll rest).length + 1 := by
    simp only [List.length_append, List.length_replicate, List.length_singleton]
    omega
  have hleft : Capnp.bytesLeft ((List.replicate (pad + (k + entryNumber entry)) 1 ++ [0]) ++
      encodeAll rest) = some (encodeAll rest).length := by
    rw [List.append_assoc, List.singleton_append]
    exact bytesLeft_ones pad _ _
  have hrest := readEntries_append rest [] (pad + (k + entryNumber entry) + (encodeAll rest).length)
    (0 + (List.replicate (pad + (k + entryNumber entry)) (1 : UInt8) ++ [0]).length)
    ((length_le_encodeAll rest).trans (Nat.le_add_left _ _))
  rw [List.append_nil, readEntries_of_unreadable (Or.inl rfl), List.append_nil] at hrest
  rw [hbytes]
  show (readEntries _ 0 _).map (·.1) = _
  rw [hfuel, readEntries_front (by simp) _ hleft, hrest, decode_unary, List.map_append,
    List.map_fst_zip (by simp)]
  rcases Function.partialInv entryNumber (k + entryNumber entry) with _ | first <;> rfl

/-! ## The result -/

/-- Torn ones in front of an appended entry: the entry is not recovered. -/
theorem recoveredAfter_ne {k : ℕ} (hk : 0 < k) (torn entry : OwnedLogEntry)
    (rest : List OwnedLogEntry) (voteRows : List VoteRow) (ids : ℕ → ℕ) : letI := unaryCapnp k
    recoveredAfter (encodeAll [] ++ (Capnp.encode torn).take k) voteRows ids (entry :: rest) ≠
      some ([] ++ entry :: rest) := by
  let codec := unaryCapnp k
  have hlength : k < (codec.encode torn).length := by
    rw [encode_unary, List.length_append, List.length_replicate, List.length_singleton]
    omega
  obtain ⟨rows, heq⟩ := recoveredAfter_eq (encodeAll [] ++ (codec.encode torn).take k) voteRows ids
    (entry :: rest)
  rw [heq, show encodeAll ([] : List OwnedLogEntry) = [] from rfl, List.nil_append,
    take_encode_unary k torn hlength, recover_joined k k entry rest rows]
  intro hsome
  have hjoined := Option.some.inj hsome
  rcases hinv : Function.partialInv entryNumber (k + entryNumber entry) with _ | first
  · -- the joined message decodes to nothing: an entry is missing
    rw [hinv] at hjoined
    have := congrArg List.length hjoined
    simp at this
  · -- or to an entry with a larger number
    rw [hinv] at hjoined
    obtain rfl : first = entry := (List.cons.inj hjoined).1
    have := (entryNumber_injective.isPartialInv first _).mp hinv
    omega

/-- **Recovery after a torn tail.**  The log file ends with the first `k` bytes of one more
entry.  That the next restart recovers the entries before it and the `n` entries appended
since, whatever the entries and the codec, is so exactly if `k = 0` or `n = 0`. -/
theorem torn_tail_iff (k n : ℕ) :
    (∀ (_ : Capnp) (_ : LawfulCapnp) (entries appended : List OwnedLogEntry) (torn : OwnedLogEntry)
      (voteRows : List VoteRow) (ids : ℕ → ℕ), appended.length = n →
        k < (Capnp.encode torn).length →
          recoveredAfter (encodeAll entries ++ (Capnp.encode torn).take k) voteRows ids appended =
            some (entries ++ appended)) ↔
      k = 0 ∨ n = 0 := by
  constructor
  · intro h
    by_contra hboth
    have hk : 0 < k := by omega
    obtain ⟨n, rfl⟩ : ∃ m, n = m + 1 := ⟨n - 1, by omega⟩
    let noop : OwnedLogEntry := ⟨0, 1, 0, 0, 2, 50, []⟩
    refine recoveredAfter_ne hk noop noop (List.replicate n noop) [] id
      (h (unaryCapnp k) (lawful_unaryCapnp k) [] _ noop [] id (by simp) ?_)
    rw [encode_unary, List.length_append, List.length_replicate, List.length_singleton]
    omega
  · intro hzero codec lawful entries appended torn voteRows ids hn hk
    obtain ⟨rows, heq⟩ := recoveredAfter_eq (encodeAll entries ++ (Capnp.encode torn).take k)
      voteRows ids appended
    rw [heq]
    rcases hzero with rfl | rfl
    · -- nothing is torn
      have hbytes : encodeAll entries ++ (Capnp.encode torn).take 0 ++ encodeAll appended =
          encodeAll (entries ++ appended) ++ [] := by
        simp [encodeAll]
      rw [hbytes, (recoverPersistedData_append (entries ++ appended) (Or.inl rfl) rows).1]
    · -- nothing is appended
      obtain rfl := List.length_eq_zero_iff.mp hn
      rw [show encodeAll ([] : List OwnedLogEntry) = [] from rfl, List.append_nil,
        (recoverPersistedData_append entries (Or.inr (LawfulCapnp.bytesLeft_torn torn k hk)) rows).1,
        List.append_nil]

/-- **An appended entry is lost**: one byte of an entry is torn, one entry is appended after the
restart, and the next restart does not recover it. -/
theorem torn_tail_loses_entry :
    ¬ ∀ (_ : Capnp) (_ : LawfulCapnp) (entries appended : List OwnedLogEntry)
      (torn : OwnedLogEntry) (k : ℕ) (voteRows : List VoteRow) (ids : ℕ → ℕ),
        k < (Capnp.encode torn).length →
          recoveredAfter (encodeAll entries ++ (Capnp.encode torn).take k) voteRows ids appended =
            some (entries ++ appended) := by
  intro h
  let noop : OwnedLogEntry := ⟨0, 1, 0, 0, 2, 50, []⟩
  refine recoveredAfter_ne Nat.one_pos noop noop [] [] id
    (h (unaryCapnp 1) (lawful_unaryCapnp 1) [] [noop] noop 1 [] id ?_)
  rw [encode_unary, List.length_append, List.length_replicate, List.length_singleton]
  omega

end Kraft
