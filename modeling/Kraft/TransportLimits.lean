/-
# Size limits of client writes and cluster messages

Three limits meet on the way of a client write: a frame has at most 16 MiB (`read_frame`), a
round of the write queue takes at most `max_batch_size` payload bytes (`next_write_batch`),
and a peer refuses a cluster message of more than 64 MiB (`read_message`).  The second one
counts payloads and not keys, and not what the conversion of payloads to text adds.

The lengths of encoded messages are those of the capnp crate, `CapnpMessages`.

* `admitted_writes_fit_iff` : every message that comes of a sequence of client writes fits exactly
  if those of each combinable segment do.
* `wireBound` bounds what a segment takes in a message, by the bytes of its keys and values.
* `admitted_writes_fit` : every message fits if this bound is kept by the segments of two or more
  writes; a write alone always fits.
* `long_keys_exceed_limit` : a sequence of writes with long keys for which a message does not fit.
-/
import Kraft.Config
import Kraft.Frames
import Kraft.PutBatchWire
import Kraft.WriteQueue

namespace Kraft

variable {key : String} {value : List UInt8}

/-- `MAX_MESSAGE_SIZE`. -/
def maxMessageSize : ℕ := 64 * 1024 * 1024

/-- `RPC_PUT_RECORD`. -/
def rpcPutRecord : UInt8 := 1

/-- The length of the `Text` and `Data` fields of some requests. -/
def fieldBytes (requests : List PutRequest) : ℕ :=
  (requests.map fun r => (asBytes r.id).length + r.payload.length).sum

theorem fieldBytes_replicate (n : ℕ) (r : PutRequest) :
    fieldBytes (List.replicate n r) = n * ((asBytes r.id).length + r.payload.length) := by
  simp [fieldBytes]

/-- A batch as the leader gets it over the remote route. -/
def onWire (batch : OwnedWriteBatch) : OwnedWriteBatch :=
  onPutBatchRequestCapnp (buildPutBatchRequestMessage batch)

/-- What the conversion to text makes of requests with payloads of bytes FF. -/
theorem fieldBytes_onWire (batchId key : String) (n size : ℕ) :
    fieldBytes (onWire ⟨batchId, List.replicate n ⟨key, List.replicate size 0xFF, 0⟩⟩).requests =
      n * ((asBytes key).length + 3 * size) := by
  rw [onWire, onPutBatchRequestCapnp_build]
  simp only [QuorumWorker.putBatchOnWire, List.map_replicate, fieldBytes_replicate,
    asBytes_fromUtf8Lossy, Utf8.lossy_replicate, Utf8.length_encode]
  have hsize : Char.utf8Size Utf8.replacement = 3 := by decide
  simp [hsize, Nat.mul_comm]

/-- What requests take in a cluster message at most, without the rest of the message: a payload
that is converted to text grows at most threefold. -/
def wireBound (requests : List PutRequest) : ℕ :=
  (requests.map fun r => (asBytes r.id).length + 3 * r.payload.length + 64).sum

/-- The requests of a batch as they are, -/
theorem fieldBytes_le_wireBound (requests : List PutRequest) :
    fieldBytes requests + 64 * requests.length ≤ wireBound requests := by
  unfold fieldBytes wireBound
  induction requests with
  | nil => exact le_rfl
  | cons r rest ih =>
    simp only [List.map_cons, List.sum_cons, List.length_cons]
    omega

/-- and as they travel to the leader. -/
theorem fieldBytes_onWire_le (batch : OwnedWriteBatch) :
    fieldBytes (onWire batch).requests + 64 * (onWire batch).requests.length ≤
      wireBound batch.requests := by
  rw [onWire, onPutBatchRequestCapnp_build]
  unfold fieldBytes wireBound QuorumWorker.putBatchOnWire
  induction batch.requests with
  | nil => exact le_rfl
  | cons r rest ih =>
    have htext := Utf8.length_encode_lossy_le r.payload
    rw [← asBytes_fromUtf8Lossy] at htext
    simp only [List.map_cons, List.sum_cons, List.length_cons] at ih ⊢
    omega

/-- The capnp crate, as far as the lengths of messages are concerned: how long the encodings
are, which of them the reader takes with its default options, and how the payload of a `PUT`
frame is read.  The laws are those of the encoding: it is at least as long as the `Text` and
`Data` fields, a request costs at most 64 bytes beyond its fields (pointers, padding, and the far
pointers of messages in several segments) and the rest of a batch or an entry at most 128 bytes,
that of a message at most 256, and the default limit of the reader is 64 MiB. -/
class CapnpMessages where
  batchLength : OwnedWriteBatch → ℕ
  entryLength : OwnedLogEntry → ℕ
  messageLength : QuorumMessage → ℕ
  readsBatch : OwnedWriteBatch → Bool
  readsEntry : OwnedLogEntry → Bool
  parsePutRequest : List UInt8 → Option (String × List UInt8)
  fields_le_entry : ∀ entry, fieldBytes entry.commands ≤ entryLength entry
  data_le_appendEntries : ∀ request logEntry entry, request.entry = some logEntry →
    logEntry.data = OwnedLogEntry.asBytes entry →
      entryLength entry ≤ messageLength (.appendEntriesRequest request)
  fields_le_putBatch : ∀ batch,
    fieldBytes batch.requests ≤ messageLength (.putBatchRequest batch)
  fields_le_put : ∀ payload key value, parsePutRequest payload = some (key, value) →
    (asBytes key).length + value.length ≤ payload.length
  batchLength_le : ∀ batch, batchLength batch ≤
    (asBytes batch.batchId).length + fieldBytes batch.requests + 128 + 64 * batch.requests.length
  entryLength_le : ∀ entry, entryLength entry ≤
    fieldBytes entry.commands + 128 + 64 * entry.commands.length
  appendEntries_le : ∀ request logEntry entry, request.entry = some logEntry →
    logEntry.data = OwnedLogEntry.asBytes entry →
      messageLength (.appendEntriesRequest request) ≤ entryLength entry + 256
  putBatch_le : ∀ batch, messageLength (.putBatchRequest batch) ≤
    (asBytes batch.batchId).length + fieldBytes batch.requests + 256 + 64 * batch.requests.length
  readsBatch_of_le : ∀ batch, batchLength batch ≤ 64 * 1024 * 1024 → readsBatch batch
  exists_put : ∀ key value, (asBytes key).length + value.length ≤ 16 * 1024 * 1024 →
    ∃ payload, parsePutRequest payload = some (key, value) ∧
      payload.length ≤ (asBytes key).length + value.length + 64

section Limits

variable [CapnpMessages]

open CapnpMessages

/-- The batch that `handle_put_record` pushes on the queue of the write proxy. -/
def handlePutRecord (payload : List UInt8) (batchId : String) (callback : ℕ) :
    Option WriteBatch :=
  (parsePutRequest payload).map fun (key, value) =>
    ⟨batchId, ⟨batchId, [⟨key, value, 0⟩]⟩, callback⟩

/-- A `PUT` frame that `read_frame` takes from a client, with the batch made of it. -/
structure AdmittedPut where
  stream : List UInt8
  frame : Frame
  rest : List UInt8
  batchId : String
  callback : ℕ
  batch : WriteBatch
  read : readFrame stream = .ok (frame, rest)
  put : frame.rpcType = rpcPutRecord
  handled : handlePutRecord frame.payload batchId callback = some batch

/-- The cluster messages a combined batch leads to: the leader's entry in `AppendEntries`
messages, first sent or sent again; the `PutBatch` message of a follower; and the entry the
leader makes of that message if its `read_message` takes it.  A batch or an entry that the
reader does not take back panics where it is built (`build_owned_write_batch`,
`build_owned_log_entry`), so nothing is sent. -/
inductive LeadsTo (batch : OwnedWriteBatch) : QuorumMessage → Prop
  | appendEntries (s : SharedState) (idx messageId timestamp : ℕ) (w : QuorumWorker)
      (requestId commitIndex : ℕ)
      (hentry : readsEntry (Leader.buildLogEntry s idx messageId timestamp batch.requests)) :
      LeadsTo batch (w.appendEntriesMessage requestId commitIndex
        (Leader.buildLogEntry s idx messageId timestamp batch.requests))
  | putBatch : LeadsTo batch (.putBatchRequest (onWire batch))
  | forwarded (s : SharedState) (idx messageId timestamp : ℕ) (w : QuorumWorker)
      (requestId commitIndex : ℕ)
      (hreceived : messageLength (.putBatchRequest (onWire batch)) ≤ maxMessageSize)
      (hbatch : readsBatch (onWire batch))
      (hentry : readsEntry
        (Leader.buildLogEntry s idx messageId timestamp (onWire batch).requests)) :
      LeadsTo batch (w.appendEntriesMessage requestId commitIndex
        (Leader.buildLogEntry s idx messageId timestamp (onWire batch).requests))

/-- Every message a combined batch leads to is one that `read_message` of the peer takes. -/
def Fits (batch : OwnedWriteBatch) : Prop :=
  readsBatch batch → ∀ m, LeadsTo batch m → messageLength m ≤ maxMessageSize

/-- `Uuid::new_v4().to_string()` has 36 characters. -/
def IsUuid (batchId : String) : Prop := (asBytes batchId).length = 36

/-- Runs of the write proxy on some client writes, in which it has not panicked: the writes
arrive in the given order, the rounds come in between at any time. -/
structure ServesWrites (maxBatchSize : ℕ) (puts : List AdmittedPut) (events : List ProxyEvent) :
    Prop where
  pushed : ProxyState.pushed events = puts.map (·.batch)
  ids : ∀ id, .round id ∈ events → IsUuid id
  reads : ∀ batch ∈ (Runs.run (ProxyState.step maxBatchSize) .new events).combined,
    readsBatch batch

/-- The requests of some client writes. -/
def requestsOf (puts : List AdmittedPut) : List PutRequest :=
  puts.flatMap (·.batch.message.requests)

/-- The batch that is made of admitted puts. -/
theorem combined_requests (batchId : String) (puts : List AdmittedPut) :
    (prepareBatchAndCallbacks batchId (puts.map (·.batch))).1 = ⟨batchId, requestsOf puts⟩ := by
  simp [prepareBatchAndCallbacks, requestsOf, List.flatMap_map]

/-- The key and the value of an admitted write are within the limit of a frame. -/
theorem AdmittedPut.fieldBytes_le (put : AdmittedPut) :
    put.batch.message.requests.length = 1 ∧
      fieldBytes put.batch.message.requests ≤ maxFrameSize := by
  obtain ⟨-, hlen⟩ := readFrame_ok put.read
  obtain ⟨⟨key, value⟩, hparse, hbatch⟩ := Option.map_eq_some_iff.mp put.handled
  have hfields := fields_le_put _ _ _ hparse
  rw [← hbatch]
  refine ⟨rfl, ?_⟩
  simp only [fieldBytes, List.map_cons, List.map_nil, List.sum_cons, List.sum_nil]
  omega

/-- A write that is combined alone does not panic. -/
theorem readsBatch_single {batchId : String} (hid : IsUuid batchId) (put : AdmittedPut) :
    readsBatch (prepareBatchAndCallbacks batchId [put.batch]).1 := by
  obtain ⟨hone, hfields⟩ := put.fieldBytes_le
  apply readsBatch_of_le
  have hrequests : (prepareBatchAndCallbacks batchId [put.batch]).1 =
      ⟨batchId, put.batch.message.requests⟩ := by
    simp [prepareBatchAndCallbacks]
  rw [hrequests]
  have hlength := batchLength_le ⟨batchId, put.batch.message.requests⟩
  unfold IsUuid at hid
  unfold maxFrameSize at hfields
  simp only [hone, hid] at hlength
  omega

/-- A combinable segment is combined in a run without a panic, if the reader takes the combined
batch. -/
theorem exists_serves_of_combinable {maxBatchSize : ℕ} (hpos : 0 < maxBatchSize)
    {group : List AdmittedPut} (before after : List AdmittedPut)
    (hgroup : WriteQueue.Combinable maxBatchSize (group.map (·.batch))) {batchId : String}
    (hid : IsUuid batchId) (hreads : readsBatch ⟨batchId, requestsOf group⟩) :
    ∃ events, ServesWrites maxBatchSize (before ++ group ++ after) events ∧
      ⟨batchId, requestsOf group⟩ ∈
        (Runs.run (ProxyState.step maxBatchSize) .new events).combined := by
  obtain ⟨events, hpushed, hids, hcombined⟩ :=
    ProxyState.exists_run_of_combinable hpos hgroup (before.map (·.batch)) (after.map (·.batch))
      batchId
  rw [combined_requests] at hcombined
  refine ⟨events, ⟨by simpa using hpushed, fun id hround => hids id hround ▸ hid, ?_⟩,
    by simp [hcombined]⟩
  rw [hcombined]
  simp only [List.map_map, List.mem_append, List.mem_map, List.mem_singleton]
  rintro batch (⟨put, -, rfl⟩ | rfl)
  · exact readsBatch_single hid put
  · exact hreads

/-- Every message that comes of a sequence of client writes is at most `MAX_MESSAGE_SIZE` long,
whenever the rounds of the write queue come, exactly if this holds for the messages with the
requests of each combinable segment of the sequence. -/
theorem admitted_writes_fit_iff [ParsesSocketAddr] (cfg : AppConfig) (h : cfg.validate = [])
    (puts : List AdmittedPut) :
    (∀ events, ServesWrites cfg.maxBatchSize puts events →
      ∀ batch ∈ (Runs.run (ProxyState.step cfg.maxBatchSize) .new events).combined,
        ∀ m, LeadsTo batch m → messageLength m ≤ maxMessageSize) ↔
    ∀ group, group <:+: puts →
      WriteQueue.Combinable cfg.maxBatchSize (group.map (·.batch)) →
        ∀ batchId, IsUuid batchId → Fits ⟨batchId, requestsOf group⟩ := by
  constructor
  · rintro hall group ⟨before, after, rfl⟩ hgroup batchId hid hreads
    obtain ⟨events, hserves, hmem⟩ :=
      exists_serves_of_combinable (AppConfig.maxBatchSize_pos h) before after hgroup hid hreads
    exact hall events hserves _ hmem
  · rintro hsegments events hserves batch hbatch m hm
    obtain ⟨batchId, batches, hround, hsegment, hgroup, rfl⟩ :=
      ProxyState.exists_combinable_of_mem_combined hbatch
    rw [hserves.pushed] at hsegment
    obtain ⟨before, after, heq⟩ := hsegment
    obtain ⟨beforeGroup, afterPuts, rfl, hbefore, rfl⟩ := List.map_eq_append_iff.mp heq.symm
    obtain ⟨beforePuts, group, rfl, rfl, rfl⟩ := List.map_eq_append_iff.mp hbefore
    have hreads := hserves.reads _ hbatch
    rw [combined_requests] at hreads hm
    exact hsegments group ⟨beforePuts, afterPuts, rfl⟩ hgroup batchId (hserves.ids batchId hround)
      hreads m hm

/-! ## Bounds in the bytes of keys and values -/

/-- An entry in an `AppendEntries` message. -/
theorem messageLength_appendEntriesMessage_le (w : QuorumWorker) (requestId commitIndex : ℕ)
    (entry : OwnedLogEntry) :
    messageLength (w.appendEntriesMessage requestId commitIndex entry) ≤
      fieldBytes entry.commands + 64 * entry.commands.length + 384 := by
  have hmessage : messageLength (w.appendEntriesMessage requestId commitIndex entry) ≤
      entryLength entry + 256 := appendEntries_le _ _ entry rfl rfl
  have hentry := entryLength_le entry
  omega

/-- **The messages of a batch** are within the bound. -/
theorem LeadsTo.messageLength_le {batch : OwnedWriteBatch} {m : QuorumMessage} (h : LeadsTo batch m)
    (hid : IsUuid batch.batchId) : messageLength m ≤ wireBound batch.requests + 384 := by
  have hown := fieldBytes_le_wireBound batch.requests
  have hwire := fieldBytes_onWire_le batch
  cases h with
  | appendEntries s idx messageId timestamp w requestId commitIndex _ =>
    refine (messageLength_appendEntriesMessage_le ..).trans ?_
    simp only [Leader.buildLogEntry]
    omega
  | putBatch =>
    refine (putBatch_le _).trans ?_
    have hid' : (asBytes (onWire batch).batchId).length = 36 := hid
    omega
  | forwarded s idx messageId timestamp w requestId commitIndex _ _ _ =>
    refine (messageLength_appendEntriesMessage_le ..).trans ?_
    simp only [Leader.buildLogEntry]
    omega

/-- A write that is combined alone keeps the bound: three times the limit of a frame, and the
framing, are below `MAX_MESSAGE_SIZE`. -/
theorem AdmittedPut.wireBound_le (put : AdmittedPut) :
    wireBound put.batch.message.requests + 384 ≤ maxMessageSize := by
  obtain ⟨hone, hfields⟩ := put.fieldBytes_le
  obtain ⟨r, hr⟩ := List.length_eq_one_iff.mp hone
  rw [hr] at hfields ⊢
  simp only [fieldBytes, wireBound, List.map_cons, List.map_nil, List.sum_cons, List.sum_nil,
    maxFrameSize, maxMessageSize] at hfields ⊢
  omega

/-- **Admitted writes fit the cluster transport** if, in every segment of two or more consecutive
writes that a round can combine, the bytes of the keys, three times the bytes of the values, and 64
bytes for each write leave 384 bytes of `MAX_MESSAGE_SIZE`. -/
theorem admitted_writes_fit [ParsesSocketAddr] (cfg : AppConfig) (h : cfg.validate = [])
    (puts : List AdmittedPut)
    (hbound : ∀ group, group <:+: puts → 2 ≤ group.length →
      WriteQueue.Combinable cfg.maxBatchSize (group.map (·.batch)) →
        wireBound (requestsOf group) + 384 ≤ maxMessageSize)
    (events : List ProxyEvent) (hserves : ServesWrites cfg.maxBatchSize puts events) :
    ∀ batch ∈ (Runs.run (ProxyState.step cfg.maxBatchSize) .new events).combined,
      ∀ m, LeadsTo batch m → messageLength m ≤ maxMessageSize := by
  refine (admitted_writes_fit_iff cfg h puts).mpr ?_ events hserves
  intro group hsegment hgroup batchId hid _ m hm
  refine (hm.messageLength_le hid).trans ?_
  rcases Nat.lt_or_ge group.length 2 with hshort | hlong
  · -- a single write
    have hpos : 0 < group.length :=
      List.length_pos_iff.mpr fun hnil => hgroup.1 (by rw [hnil, List.map_nil])
    obtain ⟨put, rfl⟩ := List.length_eq_one_iff.mp (show group.length = 1 by omega)
    rw [requestsOf, List.flatMap_singleton]
    exact put.wireBound_le
  · exact hbound group hsegment hlong hgroup

end Limits

/-! ## An encoding on which the model can be run -/

/-- A `PUT` payload: the length of the key in four bytes, the key, the value. -/
def parseSample (payload : List UInt8) : Option (String × List UInt8) :=
  let keyLength := fromLeBytes (payload.take 4)
  let key := ((payload.drop 4).take keyLength)
  if asBytes (fromUtf8Lossy key) = key then
    some (fromUtf8Lossy key, (payload.drop 4).drop keyLength)
  else none

theorem fromUtf8Lossy_asBytes (text : String) : fromUtf8Lossy (asBytes text) = text := by
  simp [fromUtf8Lossy, asBytes, Utf8.lossy_encode]

theorem parseSample_encode (hkey : (asBytes key).length < 256 ^ 4) (value : List UInt8) :
    parseSample (toLeBytes 4 (asBytes key).length ++ (asBytes key ++ value)) =
      some (key, value) := by
  have htake : (toLeBytes 4 (asBytes key).length ++ (asBytes key ++ value)).take 4 =
      toLeBytes 4 (asBytes key).length := List.take_left' (length_toLeBytes 4 _)
  have hdrop : (toLeBytes 4 (asBytes key).length ++ (asBytes key ++ value)).drop 4 =
      asBytes key ++ value := List.drop_left' (length_toLeBytes 4 _)
  simp only [parseSample, htake, hdrop, fromLeBytes_toLeBytes hkey, List.take_left,
    List.drop_left, fromUtf8Lossy_asBytes, if_pos]

/-- A put is not longer than its payload. -/
theorem length_of_parseSample {payload : List UInt8} (h : parseSample payload = some (key, value)) :
    (asBytes key).length + value.length ≤ payload.length := by
  unfold parseSample at h
  simp only [] at h
  split_ifs at h with hkey
  obtain ⟨rfl, rfl⟩ := Prod.mk.inj (Option.some.inj h)
  simp only [hkey, List.length_take, List.length_drop]
  omega

/-- The length of a message without framing. -/
def sampleLength : QuorumMessage → ℕ
  | .appendEntriesRequest request =>
    match request.entry.map LogEntry.data with
    | some (EntryData.message entry) => fieldBytes entry.commands
    | _ => 0
  | .putBatchRequest batch => fieldBytes batch.requests
  | _ => 0

/-- The length of an entry on the wire. -/
theorem sampleLength_appendEntries {request : LocalAppendEntries} {logEntry : LogEntry}
    {entry : OwnedLogEntry} (hentry : request.entry = some logEntry)
    (hdata : logEntry.data = OwnedLogEntry.asBytes entry) :
    sampleLength (.appendEntriesRequest request) = fieldBytes entry.commands := by
  simp [sampleLength, hentry, hdata, OwnedLogEntry.asBytes]

/-- A key and a value of that size can be sent. -/
theorem exists_samplePut (hsize : (asBytes key).length + value.length ≤ 16 * 1024 * 1024) :
    ∃ payload, parseSample payload = some (key, value) ∧
      payload.length ≤ (asBytes key).length + value.length + 64 := by
  refine ⟨_, parseSample_encode (by omega) value, ?_⟩
  simp
  omega

/-- An encoding without framing, and a reader that takes every message. -/
abbrev sampleMessages : CapnpMessages where
  batchLength batch := (asBytes batch.batchId).length + fieldBytes batch.requests
  entryLength entry := fieldBytes entry.commands
  messageLength := sampleLength
  readsBatch _ := true
  readsEntry _ := true
  parsePutRequest := parseSample
  fields_le_entry _ := le_rfl
  data_le_appendEntries _ _ _ hentry hdata := (sampleLength_appendEntries hentry hdata).ge
  fields_le_putBatch _ := le_rfl
  fields_le_put _ _ _ := length_of_parseSample
  batchLength_le _ := Nat.le_add_right_of_le (Nat.le_add_right ..)
  entryLength_le _ := Nat.le_add_right_of_le (Nat.le_add_right ..)
  appendEntries_le _ _ _ hentry hdata :=
    Nat.le_add_right_of_le (sampleLength_appendEntries hentry hdata).le
  putBatch_le _ := Nat.le_add_right_of_le (Nat.le_add_right_of_le (Nat.le_add_left ..))
  readsBatch_of_le _ _ := rfl
  exists_put _ _ := exists_samplePut

/-- A client writes the value `v` under the key `k`. -/
def samplePut : @AdmittedPut sampleMessages :=
  letI := sampleMessages
  { stream := encodeFrame ⟨rpcPutRecord, 7, [1, 0, 0, 0, 0x6B, 0x76]⟩
    frame := ⟨rpcPutRecord, 7, [1, 0, 0, 0, 0x6B, 0x76]⟩
    rest := []
    batchId := "b"
    callback := 0
    batch := ⟨"b", ⟨"b", [⟨"k", [0x76], 0⟩]⟩, 0⟩
    read := by decide
    put := rfl
    handled := by decide }

/-- Two short writes that are combined fit. -/
theorem admitted_writes_fit_samplePut :
    letI := sampleMessages
    letI := sampleAddresses
    (sampleConfig [1, 2, 3] 1).validate = [] ∧
      ∃ events batch, ServesWrites 100 [samplePut, samplePut] events ∧ batch.requests.length = 2 ∧
        batch ∈ (Runs.run (ProxyState.step 100) .new events).combined ∧
        ∀ m, LeadsTo batch m → CapnpMessages.messageLength m ≤ maxMessageSize := by
  let _messages := sampleMessages
  let _addresses := sampleAddresses
  have hbound : wireBound (requestsOf [samplePut, samplePut]) + 384 ≤ maxMessageSize := by decide
  have hid : IsUuid "00000000-0000-0000-0000-000000000000" :=
    show (asBytes _).length = 36 by decide
  have hgroup : WriteQueue.Combinable 100 ([samplePut, samplePut].map (·.batch)) :=
    ⟨by decide, Or.inl (by decide)⟩
  obtain ⟨events, hserves, hmem⟩ := exists_serves_of_combinable (by decide) [] [] hgroup hid rfl
  refine ⟨by decide, events, _, hserves, rfl, hmem, ?_⟩
  refine admitted_writes_fit (sampleConfig [1, 2, 3] 1) (by decide) [samplePut, samplePut] ?_ events
    hserves _ hmem
  intro group hsegment hlong _
  rwa [hsegment.eq_of_length_le hlong]

section Limits

variable [CapnpMessages]

open CapnpMessages

/-! ## Writes that do not fit -/

/-- A client can send any key and value within the limit of a frame. -/
theorem exists_admittedPut (hsize : (asBytes key).length + value.length + 73 ≤ maxFrameSize)
    (batchId : String) (callback : ℕ) :
    ∃ put : AdmittedPut, put.batch = ⟨batchId, ⟨batchId, [⟨key, value, 0⟩]⟩, callback⟩ := by
  unfold maxFrameSize at hsize
  obtain ⟨payload, hparse, hlen⟩ := exists_put key value (by omega)
  have hread : readFrame (encodeFrame ⟨rpcPutRecord, 0, payload⟩ ++ []) =
      .ok (⟨rpcPutRecord, 0, payload⟩, []) :=
    readFrame_encodeFrame (by simp) (by simp only [maxFrameSize]; omega) []
  exact ⟨⟨_, _, _, batchId, callback, _, hread, rfl, by simp [handlePutRecord, hparse]⟩, rfl⟩

/-- So can any number of them. -/
theorem exists_puts (hsize : (asBytes key).length + value.length + 73 ≤ maxFrameSize) (n : ℕ) :
    ∃ puts : List AdmittedPut, puts.length = n ∧
      requestsOf puts = List.replicate n ⟨key, value, 0⟩ ∧
      ∀ put ∈ puts, put.batch.size = value.length := by
  induction n with
  | zero => exact ⟨[], rfl, rfl, by simp⟩
  | succ n ih =>
    obtain ⟨puts, hlength, hrequests, hsizes⟩ := ih
    obtain ⟨put, hput⟩ := exists_admittedPut hsize (toString n) n
    refine ⟨put :: puts, by simp [hlength], ?_, ?_⟩
    · simpa [requestsOf, hput, List.replicate_succ] using hrequests
    · exact List.forall_mem_cons.mpr ⟨by simp [hput, WriteBatch.size], hsizes⟩

theorem totalSize_of_forall {puts : List AdmittedPut} {size : ℕ}
    (h : ∀ put ∈ puts, put.batch.size = size) :
    WriteQueue.totalSize (puts.map (·.batch)) = puts.length * size := by
  have hmap : puts.map (·.batch.size) = List.replicate puts.length size :=
    List.eq_replicate_iff.mpr ⟨by simp, by simpa using h⟩
  simp [WriteQueue.totalSize, List.map_map, Function.comp_def, hmap]

end Limits

theorem exists_key (n : ℕ) : ∃ key : String, (asBytes key).length = n := by
  have hsize : Char.utf8Size 'k' = 1 := by decide
  exact ⟨String.ofList (List.replicate n 'k'), by simp [asBytes, Utf8.length_encode, hsize]⟩

/-- Five clients send keys of 13418000 bytes and values of 2000 bytes FF.  The values are as
many bytes as a round may take, so the five writes are combined; the combined batch has less
than 64 MiB, but the conversion of the values to text makes a `PutBatch` message of more. -/
theorem not_admitted_writes_fit [CapnpMessages] :
    ¬ ∀ (_ : ParsesSocketAddr) (cfg : AppConfig), cfg.validate = [] →
      ∀ (puts : List AdmittedPut) (events : List ProxyEvent),
        ServesWrites cfg.maxBatchSize puts events →
          ∀ batch ∈ (Runs.run (ProxyState.step cfg.maxBatchSize) .new events).combined,
            ∀ m, LeadsTo batch m → CapnpMessages.messageLength m ≤ maxMessageSize := by
  intro hall
  let _addresses := sampleAddresses
  obtain ⟨key, hkey⟩ := exists_key 13418000
  obtain ⟨size, hsize⟩ : ∃ size : ℕ, size = 2000 := ⟨_, rfl⟩
  obtain ⟨batchId, hid⟩ := exists_key 36
  have hframe : (asBytes key).length + (List.replicate size (0xFF : UInt8)).length + 73 ≤
      maxFrameSize := by
    rw [hkey, List.length_replicate, hsize, maxFrameSize]
    omega
  obtain ⟨puts, hlength, hrequests, hsizes⟩ := exists_puts hframe 5
  have hcombinable : WriteQueue.Combinable 10000 (puts.map (·.batch)) := by
    rw [List.length_replicate] at hsizes
    have hlast : ∀ put ∈ puts.dropLast, put.batch.size = size :=
      fun put hput => hsizes put (List.dropLast_subset puts hput)
    refine ⟨by simp [← List.length_pos_iff, hlength], Or.inl ⟨?_, ?_⟩⟩
    · rw [totalSize_of_forall hsizes, hlength, hsize]
    · rw [← List.map_dropLast, totalSize_of_forall hlast, List.length_dropLast, hlength, hsize]
      omega
  have hreads : CapnpMessages.readsBatch ⟨batchId, requestsOf puts⟩ := by
    apply CapnpMessages.readsBatch_of_le
    refine (CapnpMessages.batchLength_le _).trans ?_
    rw [hrequests, fieldBytes_replicate]
    simp only [hid, hkey, List.length_replicate, hsize]
    omega
  obtain ⟨events, hserves, hmem⟩ :=
    exists_serves_of_combinable (by omega) [] [] hcombinable hid hreads
  rw [List.nil_append, List.append_nil] at hserves
  have hlimit := hall sampleAddresses { sampleConfig [1, 2, 3] 1 with maxBatchSize := 10000 }
    (by decide) puts events hserves _ hmem _ .putBatch
  have hfields := CapnpMessages.fields_le_putBatch (onWire ⟨batchId, requestsOf puts⟩)
  rw [hrequests, fieldBytes_onWire, hkey] at hfields
  rw [hrequests, maxMessageSize] at hlimit
  omega

/-- **A message that no peer takes.** -/
theorem long_keys_exceed_limit :
    ¬ ∀ (_ : CapnpMessages) (_ : ParsesSocketAddr) (cfg : AppConfig), cfg.validate = [] →
      ∀ (puts : List AdmittedPut) (events : List ProxyEvent),
        ServesWrites cfg.maxBatchSize puts events →
          ∀ batch ∈ (Runs.run (ProxyState.step cfg.maxBatchSize) .new events).combined,
            ∀ m, LeadsTo batch m → CapnpMessages.messageLength m ≤ maxMessageSize :=
  fun hall => @not_admitted_writes_fit sampleMessages (hall sampleMessages)

end Kraft
