/-
# Combining client batches

`prepare_batch_and_callbacks`, `create_and_append_log_entry` and `respond_to_batch_callbacks` copy
requests and responses field by field from one message to another.  The first of them counts the
requests of all batches in one pass, makes room for that many, and fills it in a second pass.

* `MessageView` is what a reader gives of a message: the bytes may not parse, the list may not be
  readable, nor single fields of its elements.
* `prepareBatches_eq` : the second pass fills exactly the room made by the first, so only the last
  step can fail: the reader has to take the combined message back, and refuses messages of more than
  64 MiB.
* `batches_combined_iff` : all requests and callbacks are kept exactly if the reader takes back what is
  built on the way.  Since the write queue counts payloads and not keys, a round can be too large for
  it (`combined_batch_refused`).
-/
import Kraft.TransportLimits
import Mathlib.Data.List.Perm.Basic

namespace Kraft

/-! ## Messages as their readers see them -/

/-- What `with_message` and the getter of the list give. -/
inductive MessageView (α : Type)
  /-- The bytes are not a message. -/
  | malformed
  /-- The list cannot be read. -/
  | withoutList
  | withList (items : List α)

/-- The elements that are read. -/
def MessageView.items {α : Type} : MessageView α → List α
  | .withList items => items
  | _ => []

/-- An `InternalPutRequest`; `none` is a field that cannot be read. -/
structure RequestView where
  id : Option String
  payload : Option (List UInt8)
  nodeId : ℕ

/-- A request with nothing set. -/
def PutRequest.empty : PutRequest := ⟨"", [], 0⟩

/-- The copy of a request: a field that cannot be read is not set. -/
def RequestView.copied (source : RequestView) : PutRequest :=
  ⟨source.id.getD PutRequest.empty.id, source.payload.getD PutRequest.empty.payload, source.nodeId⟩

/-- A request that was built. -/
def PutRequest.view (request : PutRequest) : RequestView :=
  ⟨some request.id, some request.payload, request.nodeId⟩

/-- A batch that was built. -/
def OwnedWriteBatch.view (batch : OwnedWriteBatch) : MessageView RequestView :=
  .withList (batch.requests.map (·.view))

/-- An `InternalPutResponse`. -/
structure ResponseView where
  id : Option String
  responseType : Option RemoteResponseType
  message : Option String
  nodeId : ℕ
  batchId : Option String

/-- A response with nothing set. -/
def PutResponse.empty : PutResponse := ⟨"", .unspecified, "", 0, ""⟩

/-- The copy of a response. -/
def ResponseView.copied (source : ResponseView) : PutResponse where
  id := source.id.getD PutResponse.empty.id
  responseType := source.responseType.getD PutResponse.empty.responseType
  message := source.message.getD PutResponse.empty.message
  nodeId := source.nodeId
  batchId := source.batchId.getD PutResponse.empty.batchId

@[simp] theorem PutRequest.copied_view (request : PutRequest) : request.view.copied = request := rfl

/-! ## Filling a list of fixed length -/

/-- The list builder of capnp, with the index of the next slot, a `u32`; `none` is the panic of an
index that is out of range. -/
def fillSlot {β : Type} (slots : List β × ℕ) (item : β) : Option (List β × ℕ) :=
  if slots.2 < slots.1.length then some (slots.1.set slots.2 item, (slots.2 + 1) % 2 ^ 32) else none

section Slots

variable {β : Type} (items front rest : List β)

/-- Slots that are there are filled in order. -/
theorem foldlM_fillSlot_of_le (hroom : items.length ≤ rest.length)
    (hlength : front.length + rest.length < 2 ^ 32) :
    items.foldlM fillSlot (front ++ rest, front.length) =
      some (front ++ items ++ rest.drop items.length, front.length + items.length) := by
  -- `front` is what has been filled: each item moves one slot from `rest` to it
  induction items generalizing front rest with
  | nil => simp
  | cons item items ih =>
    obtain ⟨slot, rest, rfl⟩ := List.exists_cons_of_length_pos (Nat.lt_of_lt_of_le (by simp) hroom)
    rw [List.length_cons, List.length_cons] at hroom
    rw [List.length_cons] at hlength
    have hfill : fillSlot (front ++ slot :: rest, front.length) item =
        some ((front ++ [item]) ++ rest, (front ++ [item]).length) := by
      have hnext : front.length + 1 < 4294967296 := by omega
      simp [fillSlot, hnext]
    rw [List.foldlM_cons, hfill, Option.bind_eq_bind, Option.bind_some,
      ih (front ++ [item]) rest (by omega) (by simp; omega)]
    simp [Nat.add_assoc, Nat.add_comm 1]

/-- One item too many is a panic. -/
theorem foldlM_fillSlot_of_lt (hroom : rest.length < items.length)
    (hlength : front.length + rest.length < 2 ^ 32) :
    items.foldlM fillSlot (front ++ rest, front.length) = none := by
  have hsplit : items = items.take rest.length ++ items.drop rest.length :=
    (List.take_append_drop ..).symm
  obtain ⟨item, later, hdrop⟩ := List.exists_cons_of_length_pos
    (l := items.drop rest.length) (by rw [List.length_drop]; omega)
  have htaken : (items.take rest.length).length = rest.length := by
    rw [List.length_take]
    omega
  rw [hsplit, List.foldlM_append, foldlM_fillSlot_of_le _ _ _ htaken.le hlength, hdrop, htaken]
  simp [fillSlot, htaken]

/-- A list is copied into as many slots as it has elements, counted in a `u32`. -/
theorem foldlM_fillSlot_replicate (empty : β) :
    items.foldlM fillSlot (List.replicate (items.length % 2 ^ 32) empty, 0) =
      if items.length < 2 ^ 32 then some (items, items.length) else none := by
  have hcount : (List.replicate (items.length % 2 ^ 32) empty).length = items.length % 2 ^ 32 :=
    List.length_replicate
  have hlt : items.length % 2 ^ 32 < 2 ^ 32 := Nat.mod_lt _ (by norm_num)
  split_ifs with hlength
  · rw [Nat.mod_eq_of_lt hlength] at hcount ⊢
    simpa using foldlM_fillSlot_of_le items [] _ hcount.ge (by simpa [hcount] using hlength)
  · exact foldlM_fillSlot_of_lt items [] (List.replicate (items.length % 2 ^ 32) empty)
      (by rw [hcount]; omega) (by simpa [hcount] using hlt)

end Slots

/-! ## The three functions -/

/-- The crate with the reader of responses.  A message that a reader takes is within its limit of 64
MiB; a request or command takes three words besides its `Text` and `Data`, a response four. -/
class CapnpReaders extends CapnpMessages where
  readsResponse : OwnedWriteBatchResponse → Bool
  length_of_readsBatch : ∀ batch, readsBatch batch →
    fieldBytes batch.requests + 24 * batch.requests.length ≤ 64 * 1024 * 1024
  length_of_readsEntry : ∀ entry, readsEntry entry →
    fieldBytes entry.commands + 24 * entry.commands.length ≤ 64 * 1024 * 1024
  length_of_readsResponse : ∀ response, readsResponse response →
    32 * response.responses.length ≤ 64 * 1024 * 1024

/-- `WriteBatch`, with its message as a reader sees it. -/
structure RawWriteBatch where
  batchId : String
  message : MessageView RequestView
  callback : ℕ

/-- A batch whose message was built. -/
def WriteBatch.raw (batch : WriteBatch) : RawWriteBatch :=
  ⟨batch.batchId, batch.message.view, batch.callback⟩

/-- The requests of a batch, as they are read. -/
def RawWriteBatch.requests (batch : RawWriteBatch) : List PutRequest :=
  batch.message.items.map (·.copied)

/-- `batch_callbacks`. -/
def batchCallbacks (batches : List RawWriteBatch) : BatchCallbacks :=
  batches.foldl (fun callbacks batch => callbacks.insert batch.batchId batch.callback) ∅

/-- The first pass: the number of requests, a `u32`. -/
def countRequests (batches : List RawWriteBatch) : ℕ :=
  batches.foldl (fun total batch =>
    match batch.message with
    | .withList reqs => (total + reqs.length) % 2 ^ 32
    | _ => total) 0

/-- The second pass, for one batch. -/
def copyRequests (slots : List PutRequest × ℕ) (batch : RawWriteBatch) :
    Option (List PutRequest × ℕ) :=
  match batch.message with
  | .withList sourceReqs => sourceReqs.foldlM (fun slots source => fillSlot slots source.copied) slots
  | _ => some slots

section Functions

variable [CapnpReaders]

open CapnpMessages CapnpReaders

/-- `build_owned_write_batch`: the message is read again, and a refusal is a panic. -/
def buildOwnedWriteBatch (batch : OwnedWriteBatch) : Option OwnedWriteBatch :=
  if readsBatch batch then some batch else none

/-- `build_owned_log_entry`. -/
def buildOwnedLogEntry (entry : OwnedLogEntry) : Option OwnedLogEntry :=
  if readsEntry entry then some entry else none

/-- `build_owned_write_batch_response`. -/
def buildOwnedWriteBatchResponse (response : OwnedWriteBatchResponse) :
    Option OwnedWriteBatchResponse :=
  if readsResponse response then some response else none

/-- `prepare_batch_and_callbacks`; `none` is a panic. -/
def prepareBatches (batchId : String) (batches : List RawWriteBatch) :
    Option (OwnedWriteBatch × BatchCallbacks) := do
  let reqs := List.replicate (countRequests batches) PutRequest.empty
  let (reqs, _) ← batches.foldlM copyRequests (reqs, 0)
  let combined ← buildOwnedWriteBatch ⟨batchId, reqs⟩
  return (combined, batchCallbacks batches)

/-- The entry that `create_and_append_log_entry` makes of a batch. -/
def createLogEntry (s : SharedState) (idx messageId timestamp : ℕ)
    (message : MessageView RequestView) : Option OwnedLogEntry :=
  match message with
  | .malformed => none
  | .withoutList => buildOwnedLogEntry (Leader.buildLogEntry s idx messageId timestamp [])
  | .withList reqs => do
    let commands := List.replicate (reqs.length % 2 ^ 32) PutRequest.empty
    let (commands, _) ← reqs.foldlM (fun slots req => fillSlot slots req.copied) (commands, 0)
    buildOwnedLogEntry (Leader.buildLogEntry s idx messageId timestamp commands)

/-- The message that `respond_to_batch_callbacks` builds for one callback. -/
def buildBatchResponse (response : MessageView ResponseView) (batchId : String) :
    Option OwnedWriteBatchResponse :=
  match response with
  | .withList resps => do
    let outResps := List.replicate (resps.length % 2 ^ 32) PutResponse.empty
    let (outResps, _) ← resps.foldlM (fun slots resp => fillSlot slots resp.copied) (outResps, 0)
    buildOwnedWriteBatchResponse ⟨outResps, batchId⟩
  | _ => buildOwnedWriteBatchResponse ⟨[], batchId⟩

/-- `respond_to_batch_callbacks`: what is sent, for the callbacks in the order in which the map is
iterated. -/
def respondToCallbacks (response : MessageView ResponseView)
    (batchCallbacks : List (Sigma fun _ : String => ℕ)) : Option (List (ℕ × WriteResponse)) :=
  batchCallbacks.mapM fun entry =>
    (buildBatchResponse response entry.1).map fun message => (entry.2, .success message)

/-! ## What they build -/

omit [CapnpReaders] in
/-- The first pass counts what the second one copies. -/
theorem countRequests_eq (batches : List RawWriteBatch) :
    countRequests batches = (batches.flatMap (·.requests)).length % 2 ^ 32 := by
  induction batches using List.reverseRecOn with
  | nil => rfl
  | append_singleton batches last ih =>
    rw [countRequests, List.foldl_append, ← countRequests, ih]
    rcases hmessage : last.message with _ | _ | reqs <;>
      simp [RawWriteBatch.requests, MessageView.items, hmessage]

omit [CapnpReaders] in
theorem foldlM_copyRequests (batches : List RawWriteBatch) (slots : List PutRequest × ℕ) :
    batches.foldlM copyRequests slots = (batches.flatMap (·.requests)).foldlM fillSlot slots := by
  induction batches generalizing slots with
  | nil => rfl
  | cons batch batches ih =>
    have hbatch : copyRequests slots batch = batch.requests.foldlM fillSlot slots := by
      unfold copyRequests RawWriteBatch.requests
      cases batch.message with
      | withList reqs => rw [MessageView.items, List.foldlM_map]
      | _ => rfl
    rw [List.foldlM_cons, hbatch, List.flatMap_cons, List.foldlM_append]
    exact bind_congr ih

/-- **The two passes of `prepare_batch_and_callbacks`** never index past the slots, unless the message
would be refused anyway. -/
theorem prepareBatches_eq (batchId : String) (batches : List RawWriteBatch) :
    prepareBatches batchId batches =
      (buildOwnedWriteBatch ⟨batchId, batches.flatMap (·.requests)⟩).map (·, batchCallbacks batches) := by
  unfold prepareBatches
  dsimp only
  rw [foldlM_copyRequests, countRequests_eq, foldlM_fillSlot_replicate]
  split_ifs with hlength
  · rw [Option.bind_eq_bind, Option.bind_some]
    cases buildOwnedWriteBatch ⟨batchId, batches.flatMap (·.requests)⟩ <;> rfl
  · -- the count has wrapped around, but so many requests do not fit in a message
    have hrefused : ¬ readsBatch ⟨batchId, batches.flatMap (·.requests)⟩ = true := by
      intro hreads
      have hle := length_of_readsBatch _ hreads
      dsimp only at hle
      omega
    simp [buildOwnedWriteBatch, hrefused]

theorem createLogEntry_view (s : SharedState) (idx messageId timestamp : ℕ)
    (batch : OwnedWriteBatch) :
    createLogEntry s idx messageId timestamp batch.view =
      buildOwnedLogEntry (Leader.buildLogEntry s idx messageId timestamp batch.requests) := by
  have hcopies : batch.requests.map ((·.copied) ∘ (·.view)) = batch.requests :=
    List.map_id' batch.requests
  unfold createLogEntry OwnedWriteBatch.view
  dsimp only
  rw [← List.foldlM_map, List.map_map, hcopies, List.length_map, foldlM_fillSlot_replicate]
  split_ifs with hlength
  · rfl
  · have hrefused :
        ¬ readsEntry (Leader.buildLogEntry s idx messageId timestamp batch.requests) = true := by
      intro hreads
      have hle := length_of_readsEntry _ hreads
      dsimp only [Leader.buildLogEntry] at hle
      omega
    simp [buildOwnedLogEntry, hrefused]

theorem buildBatchResponse_eq (response : MessageView ResponseView) (batchId : String) :
    buildBatchResponse response batchId =
      buildOwnedWriteBatchResponse ⟨response.items.map (·.copied), batchId⟩ := by
  cases response with
  | withList resps =>
    unfold buildBatchResponse
    dsimp only
    rw [← List.foldlM_map, ← List.length_map (f := ResponseView.copied), foldlM_fillSlot_replicate]
    split_ifs with hlength
    · rfl
    · have hrefused : ¬ readsResponse ⟨resps.map (·.copied), batchId⟩ = true := by
        intro hreads
        have hle := length_of_readsResponse _ hreads
        rw [List.length_map] at hle hlength
        omega
      simp [buildOwnedWriteBatchResponse, MessageView.items, hrefused]
  | _ => rfl

omit [CapnpReaders] in
/-- All elements of a list pass a check, or the whole fails. -/
theorem mapM_check {α β : Type} (p : α → Bool) (f : α → β) (items : List α) :
    items.mapM (fun item => if p item then some (f item) else none) =
      if ∀ item ∈ items, p item then some (items.map f) else none := by
  induction items with
  | nil => rfl
  | cons item items ih =>
    rw [List.mapM_cons, ih]
    by_cases hfirst : p item = true
    · simp only [List.forall_mem_cons, hfirst, true_and, if_true]
      split_ifs <;> rfl
    · have hsome : ¬ ∀ other ∈ item :: items, p other = true :=
        fun h => hfirst (h item List.mem_cons_self)
      rw [if_neg hfirst, if_neg hsome]
      rfl

theorem respondToCallbacks_eq (response : MessageView ResponseView)
    (batchCallbacks : List (Sigma fun _ : String => ℕ)) :
    respondToCallbacks response batchCallbacks =
      if ∀ entry ∈ batchCallbacks, readsResponse ⟨response.items.map (·.copied), entry.1⟩ then
        some (batchCallbacks.map fun entry =>
          (entry.2, .success ⟨response.items.map (·.copied), entry.1⟩))
      else none := by
  unfold respondToCallbacks
  rw [← mapM_check]
  congr 1
  funext entry
  rw [buildBatchResponse_eq, buildOwnedWriteBatchResponse]
  split_ifs <;> rfl

omit [CapnpReaders] in
/-- Batches with different ids keep their callbacks. -/
theorem batchCallbacks_entries {batches : List RawWriteBatch}
    (hids : (batches.map (·.batchId)).Nodup) :
    (batchCallbacks batches).entries.Perm (batches.map fun batch => ⟨batch.batchId, batch.callback⟩) ∧
      ∀ batchId, batchId ∈ batchCallbacks batches ↔ batchId ∈ batches.map (·.batchId) := by
  induction batches using List.reverseRecOn with
  | nil => exact ⟨.nil, by simp [batchCallbacks]⟩
  | append_singleton batches last ih =>
    rw [List.map_append, List.nodup_append] at hids
    obtain ⟨hids, -, hnew⟩ := hids
    obtain ⟨hentries, hkeys⟩ := ih hids
    have hinsert : batchCallbacks (batches ++ [last]) =
        (batchCallbacks batches).insert last.batchId last.callback := by
      simp [batchCallbacks]
    have hfresh : last.batchId ∉ batchCallbacks batches := fun hmem =>
      hnew _ ((hkeys _).mp hmem) last.batchId (by simp) rfl
    rw [hinsert]
    constructor
    · rw [AList.entries_insert_of_notMem hfresh, List.map_append]
      exact (hentries.cons _).trans (List.perm_append_singleton _ _).symm
    · intro batchId
      rw [AList.mem_insert, hkeys, List.map_append, List.mem_append]
      simp [or_comm]

/-- A batch that was built is combined as `prepareBatchAndCallbacks` says, if the reader takes the
combined message. -/
theorem prepareBatches_raw (batchId : String) (batches : List WriteBatch) :
    prepareBatches batchId (batches.map (·.raw)) =
      if readsBatch (prepareBatchAndCallbacks batchId batches).1 then
        some (prepareBatchAndCallbacks batchId batches)
      else none := by
  have hrequests : (batches.map (·.raw)).flatMap (·.requests) =
      batches.flatMap (·.message.requests) := by
    rw [List.flatMap_map]
    refine List.flatMap_congr fun batch _ => ?_
    simp [WriteBatch.raw, RawWriteBatch.requests, OwnedWriteBatch.view, MessageView.items,
      Function.comp_def]
  have hcallbacks : batchCallbacks (batches.map (·.raw)) =
      (prepareBatchAndCallbacks batchId batches).2 := List.foldl_map
  rw [prepareBatches_eq, hrequests, hcallbacks, buildOwnedWriteBatch]
  show Option.map _ (if readsBatch (prepareBatchAndCallbacks batchId batches).1 then _ else _) = _
  split_ifs <;> rfl

/-! ## The result -/

/-- **Combining batches.**  For batches with different ids: the combined batch has the requests of the
batches in order, there is one callback for each batch, the log entry made of the combined batch has
the same requests as commands, and each callback gets one response with its own batch id, in whatever
order the map is iterated.  This holds exactly if the reader takes back the combined batch, the entry
and the responses; otherwise one of the functions panics. -/
theorem batches_combined_iff (batchId : String) (batches : List RawWriteBatch)
    (hids : (batches.map (·.batchId)).Nodup) (s : SharedState) (idx messageId timestamp : ℕ)
    (response : MessageView ResponseView) (order : List (Sigma fun _ : String => ℕ))
    (horder : order.Perm (batchCallbacks batches).entries) :
    let requests := batches.flatMap (·.requests)
    let entry := Leader.buildLogEntry s idx messageId timestamp requests
    let answer := fun id : String => OwnedWriteBatchResponse.mk (response.items.map (·.copied)) id
    (prepareBatches batchId batches = some (⟨batchId, requests⟩, batchCallbacks batches) ∧
      (batchCallbacks batches).entries.Perm (batches.map fun b => ⟨b.batchId, b.callback⟩) ∧
      createLogEntry s idx messageId timestamp (OwnedWriteBatch.view ⟨batchId, requests⟩) =
        some entry ∧
      entry.commands = requests ∧
      ∃ sent, respondToCallbacks response order = some sent ∧
        sent.Perm (batches.map fun b => (b.callback, .success (answer b.batchId)))) ↔
    readsBatch ⟨batchId, requests⟩ ∧ readsEntry entry ∧
      ∀ b ∈ batches, readsResponse (answer b.batchId) := by
  intro requests entry answer
  have hcallbacks := (batchCallbacks_entries hids).1
  have hperm : order.Perm (batches.map fun b => ⟨b.batchId, b.callback⟩) := horder.trans hcallbacks
  have hreads : (∀ e ∈ order, readsResponse (answer e.1)) ↔
      ∀ b ∈ batches, readsResponse (answer b.batchId) := by
    simp [hperm.mem_iff]
  rw [prepareBatches_eq, createLogEntry_view, respondToCallbacks_eq, buildOwnedWriteBatch,
    buildOwnedLogEntry]
  constructor
  · rintro ⟨hbatch, -, hentry, -, sent, hsent, -⟩
    refine ⟨?_, ?_, hreads.mp ?_⟩
    · by_contra hrefused
      simp [requests, hrefused] at hbatch
    · by_contra hrefused
      simp [entry, requests, hrefused] at hentry
    · by_contra hrefused
      rw [if_neg hrefused] at hsent
      cases hsent
  · rintro ⟨hbatch, hentry, hanswers⟩
    refine ⟨by rw [if_pos hbatch]; rfl, hcallbacks, if_pos hentry, rfl, _,
      if_pos (hreads.mpr hanswers), ?_⟩
    simpa [Function.comp_def] using hperm.map fun e => (e.2, WriteResponse.success (answer e.1))

end Functions

/-- The encoding of `sampleMessages` with three words for each request, and readers with their limit. -/
abbrev limitedMessages : CapnpReaders :=
  { sampleMessages with
    batchLength := fun batch => (asBytes batch.batchId).length + fieldBytes batch.requests +
      24 * batch.requests.length
    readsBatch := fun batch => decide ((asBytes batch.batchId).length + fieldBytes batch.requests +
      24 * batch.requests.length ≤ 64 * 1024 * 1024)
    readsEntry := fun entry =>
      decide (fieldBytes entry.commands + 24 * entry.commands.length ≤ 64 * 1024 * 1024)
    readsResponse := fun response => decide (32 * response.responses.length ≤ 64 * 1024 * 1024)
    batchLength_le := fun batch => by omega
    readsBatch_of_le := fun batch h => by simpa using h
    length_of_readsBatch := fun batch h => by
      rw [decide_eq_true_eq] at h
      omega
    length_of_readsEntry := fun entry h => by simpa using h
    length_of_readsResponse := fun response h => by simpa using h }

/-- Two batches of clients, one with a field that cannot be read. -/
def twoBatches : List RawWriteBatch :=
  [⟨"a", .withList [⟨some "k", some [1], 0⟩, ⟨some "l", none, 0⟩], 7⟩,
    ⟨"b", .withList [⟨some "k", some [2], 0⟩], 8⟩]

/-- They are combined, and each callback is answered. -/
theorem batches_combined_two :
    letI := limitedMessages
    prepareBatches "c" twoBatches =
        some (⟨"c", [⟨"k", [1], 0⟩, ⟨"l", [], 0⟩, ⟨"k", [2], 0⟩]⟩, batchCallbacks twoBatches) ∧
      ∃ sent, respondToCallbacks (.withList []) (batchCallbacks twoBatches).entries = some sent ∧
        sent.Perm [(7, .success ⟨[], "a"⟩), (8, .success ⟨[], "b"⟩)] := by
  let _readers := limitedMessages
  let s := Storage.createSharedState ⟨[], ∅, 0, 0, ∅, 1, []⟩ 1 2 2 fun _ => true
  obtain ⟨hprepared, -, -, -, hsent⟩ := (batches_combined_iff "c" twoBatches (by decide) s 0 0 0
    (.withList []) (batchCallbacks twoBatches).entries (List.Perm.refl _)).mpr
      ⟨by decide, by decide, by decide⟩
  exact ⟨hprepared, hsent⟩

/-! ## A round that is too large -/

section Refusal

variable [CapnpReaders]

/-- Clients send any number of writes with a key and a value within the limit of a frame. -/
theorem exists_numbered_puts {key : String} {value : List UInt8}
    (hsize : (asBytes key).length + value.length + 73 ≤ maxFrameSize) (n : ℕ) :
    ∃ puts : List AdmittedPut, puts.map (·.batch) = (List.range n).map fun k =>
      ⟨toString k, ⟨toString k, [⟨key, value, 0⟩]⟩, k⟩ := by
  induction n with
  | zero => exact ⟨[], rfl⟩
  | succ n ih =>
    obtain ⟨puts, hputs⟩ := ih
    obtain ⟨put, hput⟩ := exists_admittedPut hsize (toString n) n
    exact ⟨puts ++ [put], by rw [List.map_append, hputs, List.map_singleton, hput, List.range_succ,
      List.map_append, List.map_singleton]⟩

/-- Five clients send keys of 13500000 bytes, with values of one byte.  They are combined in one
round, and the reader refuses the combined message. -/
theorem not_prepares_all :
    ¬ ∀ (batchId : String) (puts : List AdmittedPut),
      WriteQueue.Combinable 10000 (puts.map (·.batch)) →
        (puts.map (·.batch.batchId)).Nodup →
          (prepareBatches batchId (puts.map (·.batch.raw))).isSome := by
  intro hall
  obtain ⟨key, hkey⟩ := exists_key 13500000
  have hframe : (asBytes key).length + [(7 : UInt8)].length + 73 ≤ maxFrameSize := by
    rw [hkey, List.length_singleton, maxFrameSize]
    omega
  obtain ⟨puts, hputs⟩ := exists_numbered_puts hframe 5
  have hcombinable : WriteQueue.Combinable 10000 (puts.map (·.batch)) := by
    rw [hputs]
    refine ⟨by simp, Or.inl ⟨?_, ?_⟩⟩ <;>
      simp [WriteQueue.totalSize, WriteBatch.size, List.range, List.range.loop]
  have hids : (puts.map (·.batch.batchId)).Nodup := by
    have hmap : puts.map (·.batch.batchId) = (List.range 5).map toString := by
      rw [← Function.comp_def WriteBatch.batchId, ← List.map_map, hputs, List.map_map]
      rfl
    rw [hmap]
    decide
  have hsome := hall "" puts hcombinable hids
  rw [← Function.comp_def WriteBatch.raw, ← List.map_map, hputs, prepareBatches_raw] at hsome
  split_ifs at hsome with hreads
  · have hle := CapnpReaders.length_of_readsBatch _ hreads
    simp [prepareBatchAndCallbacks, fieldBytes, hkey, List.range, List.range.loop] at hle
  · simp at hsome

end Refusal

/-- **Client writes that cannot be combined.** -/
theorem combined_batch_refused :
    ¬ ∀ (_ : CapnpReaders) (batchId : String) (puts : List AdmittedPut),
      WriteQueue.Combinable 10000 (puts.map (·.batch)) →
        (puts.map (·.batch.batchId)).Nodup →
          (prepareBatches batchId (puts.map (·.batch.raw))).isSome :=
  fun hall => @not_prepares_all limitedMessages (hall limitedMessages)

end Kraft
