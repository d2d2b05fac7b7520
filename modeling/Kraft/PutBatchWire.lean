/-
# A write batch on its way to the leader

A follower forwards a write batch as `RemotePutBatchRequest`.  The schema of the state machine
has payloads as bytes, that of the message has them as text; the sender converts with
`String::from_utf8_lossy` and the leader takes the bytes of the text.  The getters and setters
of the message are taken to return what was set.

`putBatch_roundTrip_iff` says which batches arrive as they were sent.
-/
import Kraft.QuorumWorker
import Kraft.Utf8

namespace Kraft

/-- `RemotePutRequest`. -/
structure RemotePutRequest where
  id : String
  payload : String
  nodeId : ℕ
  deriving DecidableEq

/-- `RemotePutBatchRequest`. -/
structure RemotePutBatchRequest where
  putRequests : List RemotePutRequest
  batchId : String
  deriving DecidableEq

/-- `String::from_utf8_lossy`. -/
def fromUtf8Lossy (bytes : List UInt8) : String := String.ofList (Utf8.lossy bytes)

/-- `as_bytes` of a text. -/
def asBytes (text : String) : List UInt8 := Utf8.encode text.toList

/-- `build_put_batch_request_message`. -/
def buildPutBatchRequestMessage (batch : OwnedWriteBatch) : RemotePutBatchRequest where
  batchId := batch.batchId
  putRequests := batch.requests.map fun r => ⟨r.id, fromUtf8Lossy r.payload, r.nodeId⟩

/-- `on_put_batch_request_capnp`: the batch that is pushed on the leader's task queue. -/
def onPutBatchRequestCapnp (req : RemotePutBatchRequest) : OwnedWriteBatch where
  batchId := req.batchId
  requests := req.putRequests.map fun r => ⟨r.id, asBytes r.payload, r.nodeId⟩

theorem asBytes_fromUtf8Lossy (bytes : List UInt8) :
    asBytes (fromUtf8Lossy bytes) = Utf8.encode (Utf8.lossy bytes) := by
  simp [asBytes, fromUtf8Lossy]

/-- The two ends together are what the quorum worker's model does to a batch. -/
theorem onPutBatchRequestCapnp_build (batch : OwnedWriteBatch) :
    onPutBatchRequestCapnp (buildPutBatchRequestMessage batch) =
      QuorumWorker.putBatchOnWire (fun bytes => asBytes (fromUtf8Lossy bytes)) batch := by
  simp [onPutBatchRequestCapnp, buildPutBatchRequestMessage, QuorumWorker.putBatchOnWire]

/-- A conversion of payloads keeps a batch exactly when it keeps every payload. -/
theorem putBatchOnWire_eq_iff (utf8Lossy : List UInt8 → List UInt8) (batch : OwnedWriteBatch) :
    QuorumWorker.putBatchOnWire utf8Lossy batch = batch ↔
      ∀ r ∈ batch.requests, utf8Lossy r.payload = r.payload := by
  rcases batch with ⟨batchId, requests⟩
  simp only [QuorumWorker.putBatchOnWire, OwnedWriteBatch.mk.injEq, true_and]
  nth_rewrite 2 [← List.map_id requests]
  rw [List.map_inj_left]
  constructor
  · intro h r hr
    exact congrArg PutRequest.payload (h r hr)
  · intro h r hr
    simp [h r hr]

/-- **Which batches the remote route carries.**  The leader's state machine is given the batch
that was forwarded exactly when every payload is valid UTF-8. -/
theorem putBatch_roundTrip_iff (batch : OwnedWriteBatch) :
    onPutBatchRequestCapnp (buildPutBatchRequestMessage batch) = batch ↔
      ∀ r ∈ batch.requests, Utf8.Valid r.payload := by
  rw [onPutBatchRequestCapnp_build, putBatchOnWire_eq_iff]
  refine forall₂_congr fun r _ => ?_
  rw [asBytes_fromUtf8Lossy, Utf8.encode_lossy_eq_iff]

/-- **A payload of one byte FF.**  The leader is given the three bytes of U+FFFD instead. -/
theorem putBatch_byte_replaced :
    ¬ ∀ batch : OwnedWriteBatch,
      onPutBatchRequestCapnp (buildPutBatchRequestMessage batch) = batch := by
  intro h
  have hreplaced := h ⟨"b", [⟨"k", [0xFF], 2⟩]⟩
  rw [onPutBatchRequestCapnp_build, putBatchOnWire_eq_iff] at hreplaced
  have hpayload := hreplaced ⟨"k", [0xFF], 2⟩ (by simp)
  rw [asBytes_fromUtf8Lossy, Utf8.encode_lossy_eq_iff] at hpayload
  exact absurd hpayload (by decide)

end Kraft
