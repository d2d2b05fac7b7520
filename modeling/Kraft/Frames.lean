/-
# Frames of the datastore protocol

A client sends frames: the length of what follows in four bytes, the type of the call, the
request id in eight bytes, and a payload; numbers are little-endian.  `read_frame` refuses
lengths below 9 and above 16 MiB.

* `readFrame_encodeFrame` : what is written is read back, and nothing after it is touched;
* `readFrame_ok` : an accepted frame is one that `encode_frame` writes, and its payload is
  within the limit;
* `frame_codec` : a stream of frames is read back frame by frame, `read_frame` accepts exactly
  what its length prefix announces, and an oversized payload is refused unwritten.
-/
import Mathlib.Data.Nat.Digits.Defs
import Mathlib.Tactic.NormNum

namespace Kraft

variable {n : ℕ} {rest stream : List UInt8}

/-! ## Little-endian numbers -/

/-- `to_le_bytes` of a number of `width` bytes; what does not fit is cut off. -/
def toLeBytes : ℕ → ℕ → List UInt8
  | 0, _ => []
  | width + 1, n => UInt8.ofNat (n % 256) :: toLeBytes width (n / 256)

/-- `from_le_bytes`. -/
def fromLeBytes (bytes : List UInt8) : ℕ := Nat.ofDigits 256 (bytes.map UInt8.toNat)

@[simp] theorem length_toLeBytes (width n : ℕ) : (toLeBytes width n).length = width := by
  induction width generalizing n with
  | zero => rfl
  | succ width ih => simp [toLeBytes, ih]

theorem fromLeBytes_cons (b : UInt8) (bytes : List UInt8) :
    fromLeBytes (b :: bytes) = b.toNat + 256 * fromLeBytes bytes := by
  simp [fromLeBytes, Nat.ofDigits_cons]

/-- A number that fits its width is read back. -/
theorem fromLeBytes_toLeBytes {width : ℕ} (h : n < 256 ^ width) :
    fromLeBytes (toLeBytes width n) = n := by
  induction width generalizing n with
  | zero =>
    rw [pow_zero, Nat.lt_one_iff] at h
    rw [h]
    rfl
  | succ width ih =>
    have hdiv : n / 256 < 256 ^ width := by
      rw [Nat.div_lt_iff_lt_mul (by norm_num), ← pow_succ]
      exact h
    have hbyte : (UInt8.ofNat (n % 256)).toNat = n % 256 := by
      simp [UInt8.toNat_ofNat']
    rw [toLeBytes, fromLeBytes_cons, ih hdiv, hbyte, Nat.mod_add_div]

theorem toLeBytes_succ (width : ℕ) (b : UInt8) (n : ℕ) :
    toLeBytes (width + 1) (b.toNat + 256 * n) = b :: toLeBytes width n := by
  have hlow : (b.toNat + 256 * n) % 256 = b.toNat := by
    have := b.toNat_lt
    omega
  have hhigh : (b.toNat + 256 * n) / 256 = n := by
    have := b.toNat_lt
    omega
  rw [toLeBytes, hlow, hhigh, UInt8.ofNat_toNat]

/-- Bytes are written back. -/
theorem toLeBytes_fromLeBytes (bytes : List UInt8) :
    toLeBytes bytes.length (fromLeBytes bytes) = bytes := by
  induction bytes with
  | nil => rfl
  | cons b bytes ih => rw [List.length_cons, fromLeBytes_cons, toLeBytes_succ, ih]

/-! ## Frames -/

/-- `MAX_FRAME_SIZE`. -/
def maxFrameSize : ℕ := 16 * 1024 * 1024

/-- The errors of `read_frame`. -/
inductive FrameError
  | unexpectedEof
  | frameTooSmall (frameLen : ℕ)
  | frameTooLarge (frameLen : ℕ)
  deriving DecidableEq

/-- What `read_frame` returns. -/
structure Frame where
  rpcType : UInt8
  requestId : ℕ
  payload : List UInt8
  deriving DecidableEq

variable {frame : Frame}

/-- `read_exact`: the first `n` bytes of the stream and the rest of it. -/
def readExact (n : ℕ) (stream : List UInt8) : Except FrameError (List UInt8 × List UInt8) :=
  if n ≤ stream.length then .ok (stream.take n, stream.drop n) else .error .unexpectedEof

/-- `read_frame`: the frame at the front of the stream and the rest of it. -/
def readFrame (stream : List UInt8) : Except FrameError (Frame × List UInt8) := do
  let (lenBuf, stream) ← readExact 4 stream
  let frameLen := fromLeBytes lenBuf
  if frameLen < 9 then throw (.frameTooSmall frameLen)
  if maxFrameSize < frameLen then throw (.frameTooLarge frameLen)
  let (rpcType, stream) ← readExact 1 stream
  let (requestId, stream) ← readExact 8 stream
  let (payload, stream) ← readExact (frameLen - 9) stream
  return (⟨rpcType.headD 0, fromLeBytes requestId, payload⟩, stream)

/-- `encode_frame`. -/
def encodeFrame (frame : Frame) : List UInt8 :=
  toLeBytes 4 (1 + 8 + frame.payload.length) ++
    ([frame.rpcType] ++ (toLeBytes 8 frame.requestId ++ frame.payload))

/-- As many bytes as are asked for. -/
theorem readExact_append {bytes : List UInt8} (h : bytes.length = n) :
    readExact n (bytes ++ stream) = .ok (bytes, stream) := by
  subst h
  simp [readExact]

/-- What is read is the front of the stream. -/
theorem readExact_ok {bytes : List UInt8} (h : readExact n stream = .ok (bytes, rest)) :
    stream = bytes ++ rest ∧ bytes.length = n := by
  unfold readExact at h
  split_ifs at h with hle
  obtain ⟨rfl, rfl⟩ := Prod.mk.inj (Except.ok.inj h)
  exact ⟨(List.take_append_drop n stream).symm, by simp [hle]⟩

/-- **What is written is read back.** -/
theorem readFrame_encodeFrame (hid : frame.requestId < 256 ^ 8)
    (hlen : 9 + frame.payload.length ≤ maxFrameSize) (stream : List UInt8) :
    readFrame (encodeFrame frame ++ stream) = .ok (frame, stream) := by
  have hframe : fromLeBytes (toLeBytes 4 (1 + 8 + frame.payload.length)) =
      9 + frame.payload.length := by
    apply fromLeBytes_toLeBytes
    unfold maxFrameSize at hlen
    omega
  have hsmall : ¬9 + frame.payload.length < 9 := by omega
  have hlarge : ¬maxFrameSize < 9 + frame.payload.length := by omega
  simp only [readFrame, encodeFrame, List.append_assoc, bind, Except.bind, pure, Except.pure]
  rw [readExact_append (length_toLeBytes 4 _)]
  simp only [hframe, hsmall, hlarge, if_false]
  rw [readExact_append (show [frame.rpcType].length = 1 from rfl)]
  simp only []
  rw [readExact_append (length_toLeBytes 8 _)]
  simp only []
  rw [readExact_append (by omega)]
  simp [fromLeBytes_toLeBytes hid]

theorem ok_of_bind_ok {ε α β : Type} {x : Except ε α} {f : α → Except ε β} {b : β}
    (h : (x >>= f) = .ok b) : ∃ a, x = .ok a ∧ f a = .ok b := by
  cases x with
  | error e => cases h
  | ok a => exact ⟨a, rfl, h⟩

/-- **What is accepted is well formed.** -/
theorem readFrame_ok (h : readFrame stream = .ok (frame, rest)) :
    stream = encodeFrame frame ++ rest ∧ 9 + frame.payload.length ≤ maxFrameSize := by
  unfold readFrame at h
  obtain ⟨⟨lenBuf, stream₁⟩, hlen, h⟩ := ok_of_bind_ok h
  simp only [] at h
  by_cases hsmall : fromLeBytes lenBuf < 9
  · rw [if_pos hsmall] at h
    cases h
  rw [if_neg hsmall] at h
  by_cases hlarge : maxFrameSize < fromLeBytes lenBuf
  · rw [if_pos hlarge] at h
    cases h
  rw [if_neg hlarge] at h
  obtain ⟨⟨rpcType, stream₂⟩, htype, h⟩ := ok_of_bind_ok h
  obtain ⟨⟨requestId, stream₃⟩, hid, h⟩ := ok_of_bind_ok h
  obtain ⟨⟨payload, stream₄⟩, hpayload, h⟩ := ok_of_bind_ok h
  obtain ⟨rfl, rfl⟩ := Prod.mk.inj (Except.ok.inj h)
  obtain ⟨hstream, hfour⟩ := readExact_ok hlen
  obtain ⟨hstream₁, hone⟩ := readExact_ok htype
  obtain ⟨hstream₂, height⟩ := readExact_ok hid
  obtain ⟨hstream₃, hrest⟩ := readExact_ok hpayload
  obtain ⟨b, rfl⟩ := List.length_eq_one_iff.mp hone
  have hframe : 1 + 8 + payload.length = fromLeBytes lenBuf := by omega
  have hlenBytes := hfour ▸ toLeBytes_fromLeBytes lenBuf
  have hidBytes := height ▸ toLeBytes_fromLeBytes requestId
  refine ⟨?_, by simp only []; omega⟩
  rw [hstream, hstream₁, show stream₂ = _ from hstream₂, show stream₃ = _ from hstream₃]
  simp [encodeFrame, hframe, hlenBytes, hidBytes]

/-! ## Streams of frames -/

/-- The error of `write_frame`. -/
inductive WriteError
  | payloadTooLarge (payloadLen : ℕ)
  deriving DecidableEq

/-- `write_frame` on a writer that has taken the bytes `written`: the result, and what the writer
has taken then.  The whole frame is built before the writer is called. -/
def writeFrame (frame : Frame) (written : List UInt8) : Except WriteError Unit × List UInt8 :=
  if maxFrameSize < 1 + 8 + frame.payload.length then
    (.error (.payloadTooLarge frame.payload.length), written)
  else (.ok (), written ++ encodeFrame frame)

/-- Frames are written one after another, up to the first failure. -/
def writeFrames : List Frame → List UInt8 → Except WriteError Unit × List UInt8
  | [], written => (.ok (), written)
  | frame :: rest, written =>
    match writeFrame frame written with
    | (.ok (), written) => writeFrames rest written
    | (.error e, written) => (.error e, written)

/-- A frame that is read is not empty. -/
theorem length_lt_of_readFrame_ok (h : readFrame stream = .ok (frame, rest)) :
    rest.length < stream.length := by
  rw [(readFrame_ok h).1]
  simp [encodeFrame]
  omega

/-- Frames are read until `read_frame` fails: the frames, the error, and the stream at which it
failed. -/
def readFrames (stream : List UInt8) : List Frame × FrameError × List UInt8 :=
  match h : readFrame stream with
  | .ok (frame, rest) =>
    have := length_lt_of_readFrame_ok h
    let (frames, failure) := readFrames rest
    (frame :: frames, failure)
  | .error e => ([], e, stream)
termination_by stream.length

/-- A stream that starts with a frame. -/
theorem readFrames_of_ok (h : readFrame stream = .ok (frame, rest)) :
    readFrames stream = (frame :: (readFrames rest).1, (readFrames rest).2) := by
  rw [readFrames]
  split
  · next heq =>
    rw [h] at heq
    cases heq
    rfl
  · next heq =>
    rw [h] at heq
    cases heq

theorem readFrames_nil : readFrames [] = ([], .unexpectedEof, []) := by
  rw [readFrames]
  rfl

/-- A frame within the limit is written. -/
theorem writeFrame_of_le (h : frame.payload.length ≤ maxFrameSize - 9) (written : List UInt8) :
    writeFrame frame written = (.ok (), written ++ encodeFrame frame) := by
  unfold writeFrame maxFrameSize at *
  rw [if_neg (by omega)]

/-- A frame beyond it is refused, and nothing is written. -/
theorem writeFrame_of_gt (h : maxFrameSize - 9 < frame.payload.length) (written : List UInt8) :
    writeFrame frame written = (.error (.payloadTooLarge frame.payload.length), written) := by
  unfold writeFrame maxFrameSize at *
  rw [if_pos (by omega)]

/-- Frames within the limit are written one after another. -/
theorem writeFrames_of_le {frames : List Frame}
    (h : ∀ frame ∈ frames, frame.payload.length ≤ maxFrameSize - 9) (written : List UInt8) :
    writeFrames frames written = (.ok (), written ++ (frames.map encodeFrame).flatten) := by
  induction frames generalizing written with
  | nil => simp [writeFrames]
  | cons frame rest ih =>
    rw [writeFrames, writeFrame_of_le (h frame (by simp))]
    dsimp only
    rw [ih fun other hother => h other (by simp [hother])]
    simp

/-- **A stream of frames is read back.** -/
theorem readFrames_encodeFrames {frames : List Frame}
    (hid : ∀ frame ∈ frames, frame.requestId < 256 ^ 8)
    (hlen : ∀ frame ∈ frames, 9 + frame.payload.length ≤ maxFrameSize) :
    readFrames (frames.map encodeFrame).flatten = (frames, .unexpectedEof, []) := by
  induction frames with
  | nil => exact readFrames_nil
  | cons frame rest ih =>
    have hread := readFrame_encodeFrame (hid frame (by simp)) (hlen frame (by simp))
      (rest.map encodeFrame).flatten
    rw [List.map_cons, List.flatten_cons, readFrames_of_ok hread,
      ih (fun other hother => hid other (by simp [hother]))
        fun other hother => hlen other (by simp [hother])]

/-! ## What is accepted -/

/-- The length prefix of a stream. -/
def framePrefix (stream : List UInt8) : ℕ := fromLeBytes (stream.take 4)

/-- A stream starts with a length within the limits, and that many bytes follow it. -/
def Announced (stream : List UInt8) : Prop :=
  4 ≤ stream.length ∧ 9 ≤ framePrefix stream ∧ framePrefix stream ≤ maxFrameSize ∧
    4 + framePrefix stream ≤ stream.length

theorem readExact_of_le (h : n ≤ stream.length) :
    readExact n stream = .ok (stream.take n, stream.drop n) :=
  if_pos h

/-- A frame of which all announced bytes are there is read. -/
theorem readFrame_of_announced (h : Announced stream) :
    ∃ frame, readFrame stream = .ok (frame, stream.drop (4 + framePrefix stream)) := by
  obtain ⟨hfour, hsmall, hlarge, hrest⟩ := h
  unfold framePrefix at *
  refine ⟨⟨((stream.drop 4).take 1).headD 0, fromLeBytes (((stream.drop 4).drop 1).take 8),
    (((stream.drop 4).drop 1).drop 8).take (fromLeBytes (stream.take 4) - 9)⟩, ?_⟩
  simp only [readFrame, bind, Except.bind, pure, Except.pure]
  rw [readExact_of_le hfour]
  simp only [show ¬fromLeBytes (stream.take 4) < 9 by omega,
    show ¬maxFrameSize < fromLeBytes (stream.take 4) by omega, if_false]
  rw [readExact_of_le (by simp; omega)]
  simp only []
  rw [readExact_of_le (by simp; omega)]
  simp only []
  rw [readExact_of_le (by simp; omega)]
  simp only [List.drop_drop]
  rw [show 4 + 1 + 8 + (fromLeBytes (stream.take 4) - 9) = 4 + fromLeBytes (stream.take 4) by
    omega]

/-- The length that a frame announces. -/
theorem framePrefix_encodeFrame (h : 9 + frame.payload.length ≤ maxFrameSize)
    (stream : List UInt8) :
    framePrefix (encodeFrame frame ++ stream) = 9 + frame.payload.length := by
  have htake : (encodeFrame frame ++ stream).take 4 = toLeBytes 4 (1 + 8 + frame.payload.length) := by
    unfold encodeFrame
    rw [List.append_assoc]
    exact List.take_left' (length_toLeBytes 4 _)
  unfold framePrefix
  rw [htake, fromLeBytes_toLeBytes]
  unfold maxFrameSize at h
  omega

/-- The length that it has. -/
theorem length_encodeFrame (frame : Frame) :
    (encodeFrame frame).length = 4 + (9 + frame.payload.length) := by
  simp [encodeFrame]
  omega

/-- **What `read_frame` accepts and takes.** -/
theorem readFrame_ok_iff (stream : List UInt8) :
    ((∃ frame rest, readFrame stream = .ok (frame, rest)) ↔ Announced stream) ∧
      ∀ frame rest, readFrame stream = .ok (frame, rest) →
        rest = stream.drop (4 + framePrefix stream) := by
  refine ⟨⟨?_, fun h => ?_⟩, ?_⟩
  · rintro ⟨frame, rest, hok⟩
    obtain ⟨rfl, hlen⟩ := readFrame_ok hok
    have hprefix := framePrefix_encodeFrame hlen rest
    have hlength := length_encodeFrame frame
    refine ⟨?_, ?_, ?_, ?_⟩
    · rw [List.length_append]
      omega
    · omega
    · omega
    · rw [List.length_append]
      omega
  · obtain ⟨frame, hok⟩ := readFrame_of_announced h
    exact ⟨frame, _, hok⟩
  · intro frame rest hok
    obtain ⟨rfl, hlen⟩ := readFrame_ok hok
    rw [framePrefix_encodeFrame hlen, ← length_encodeFrame, List.drop_left]

/-- **The frame codec.**  Frames within the limit that are written one after another are read back,
and then the input ends; on any stream `read_frame` succeeds exactly if the length prefix is within
its limits and as many bytes follow, and takes these and the prefix; a larger payload is refused
before anything is written. -/
theorem frame_codec {frames : List Frame} (hid : ∀ frame ∈ frames, frame.requestId < 2 ^ 64)
    (hlen : ∀ frame ∈ frames, frame.payload.length ≤ maxFrameSize - 9) :
    ((writeFrames frames []).1 = .ok () ∧
      readFrames (writeFrames frames []).2 = (frames, .unexpectedEof, [])) ∧
    (∀ stream, ((∃ frame rest, readFrame stream = .ok (frame, rest)) ↔ Announced stream) ∧
      ∀ frame rest, readFrame stream = .ok (frame, rest) →
        rest = stream.drop (4 + framePrefix stream)) ∧
    ∀ frame written, maxFrameSize - 9 < frame.payload.length →
      writeFrame frame written = (.error (.payloadTooLarge frame.payload.length), written) := by
  refine ⟨?_, readFrame_ok_iff, fun frame written h => writeFrame_of_gt h written⟩
  rw [writeFrames_of_le hlen, List.nil_append]
  refine ⟨rfl, readFrames_encodeFrames (fun frame h => ?_) fun frame h => ?_⟩
  · have := hid frame h
    norm_num at this ⊢
    omega
  · have := hlen frame h
    unfold maxFrameSize at *
    omega

/-- Two frames, one of them without payload. -/
theorem frame_codec_two :
    readFrames (writeFrames [⟨1, 12345, [7, 8, 9]⟩, ⟨2, 0, []⟩] []).2 =
      ([⟨1, 12345, [7, 8, 9]⟩, ⟨2, 0, []⟩], .unexpectedEof, []) :=
  (frame_codec (by decide) (by decide)).1.2

end Kraft
