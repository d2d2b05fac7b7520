/-
# Messages on a byte stream

A connection carries bytes, in pieces of any size; one that breaks delivers no more of them.  A
`Format` says how messages are written, and what a reader finds at the front of the bytes that have
arrived.  The bytes on their way are a `Pipe`.

`Format.Holds` : the unread bytes of a pipe, with those never written, are a list of messages.

* `Holds.write`, `Holds.writePart`, `Holds.deliver` : what the writer and the network do to it;
* `Holds.message`, `Holds.refused`, `Holds.eq_nil` : what the reader finds is the first message of
  the list, and it waits in vain only if there is none.
-/
import Mathlib.Data.List.Basic

namespace Streams

/-- What a reader finds at the front of the bytes that have arrived. -/
inductive Front (α : Type)
  | incomplete
  | refused
  | message (a : α) (rest : List UInt8)
  deriving DecidableEq

/-- A format of messages on a stream.  Of the messages that fit, the reader accepts some and refuses
the others, and more bytes do not change what it has found. -/
structure Format (α : Type) where
  encode : α → List UInt8
  front : List UInt8 → Front α
  Fits : α → Prop
  accepts : α → Bool
  front_nil : front [] = .incomplete
  front_append : ∀ {bytes a rest} (more : List UInt8), front bytes = .message a rest →
    front (bytes ++ more) = .message a (rest ++ more)
  refused_append : ∀ {bytes} (more : List UInt8), front bytes = .refused →
    front (bytes ++ more) = .refused
  front_encode : ∀ {a} (rest : List UInt8), Fits a →
    front (encode a ++ rest) = if accepts a then .message a rest else .refused

/-- The bytes of one direction of a connection: those that are on their way, and those that have
arrived and are not yet read. -/
structure Pipe where
  wire : List UInt8
  buffer : List UInt8
  deriving DecidableEq

namespace Pipe

/-- The sender writes. -/
def write (p : Pipe) (bytes : List UInt8) : Pipe := { p with wire := p.wire ++ bytes }

/-- The next `n` bytes arrive. -/
def deliver (p : Pipe) (n : ℕ) : Pipe := ⟨p.wire.drop n, p.buffer ++ p.wire.take n⟩

end Pipe

namespace Format

variable {α : Type} (F : Format α)

/-- The pipe holds the messages, but for the bytes `lost` at their end. -/
structure Holds (p : Pipe) (messages : List α) (lost : List UInt8) : Prop where
  bytes : p.buffer ++ p.wire ++ lost = messages.flatMap F.encode
  fits : ∀ m ∈ messages, F.Fits m

namespace Holds

variable {F} {p : Pipe} {messages : List α} {lost : List UInt8}

theorem empty : F.Holds ⟨[], []⟩ [] [] := ⟨rfl, by simp⟩

/-- The bytes from the first message on. -/
theorem bytes_cons {m : α} (h : F.Holds p (m :: messages) lost) :
    p.buffer ++ (p.wire ++ lost) = F.encode m ++ messages.flatMap F.encode := by
  rw [← List.append_assoc, h.bytes, List.flatMap_cons]

theorem write (h : F.Holds p messages []) {m : α} (hm : F.Fits m) :
    F.Holds (p.write (F.encode m)) (messages ++ [m]) [] where
  bytes := by
    have hbytes := h.bytes
    rw [List.append_nil] at hbytes
    simp [Pipe.write, ← hbytes]
  fits m' hm' := by
    rcases List.mem_append.mp hm' with hold | hnew
    · exact h.fits m' hold
    · obtain rfl := List.mem_singleton.mp hnew
      exact hm

/-- Only the first `k` bytes of a message are written. -/
theorem writePart (h : F.Holds p messages []) {m : α} (hm : F.Fits m) (k : ℕ) :
    F.Holds (p.write ((F.encode m).take k)) (messages ++ [m]) ((F.encode m).drop k) := by
  have hwhole := h.write hm
  refine ⟨?_, hwhole.fits⟩
  rw [← hwhole.bytes, List.append_nil]
  simp only [Pipe.write, List.append_assoc, List.take_append_drop]

theorem deliver (h : F.Holds p messages lost) (n : ℕ) : F.Holds (p.deliver n) messages lost := by
  refine ⟨?_, h.fits⟩
  rw [← h.bytes]
  simp only [Pipe.deliver, List.append_assoc]
  rw [← List.append_assoc (p.wire.take n), List.take_append_drop]

/-- The reader finds something only if there is a message. -/
theorem exists_cons (h : F.Holds p messages lost) (hfront : F.front p.buffer ≠ .incomplete) :
    ∃ m rest, messages = m :: rest := by
  cases messages with
  | nil =>
    have hbytes := h.bytes
    simp only [List.flatMap_nil, List.append_eq_nil_iff] at hbytes
    rw [hbytes.1.1, F.front_nil] at hfront
    exact absurd rfl hfront
  | cons m rest => exact ⟨m, rest, rfl⟩

/-- **A message that is read is the first one.** -/
theorem message (h : F.Holds p messages lost) {a : α} {rest : List UInt8}
    (hfront : F.front p.buffer = .message a rest) :
    F.accepts a = true ∧ ∃ messages', messages = a :: messages' ∧
      F.Holds { p with buffer := rest } messages' lost := by
  obtain ⟨m, messages', rfl⟩ := h.exists_cons (by simp [hfront])
  have hwhole := F.front_append (p.wire ++ lost) hfront
  rw [h.bytes_cons, F.front_encode _ (h.fits m (.head _))] at hwhole
  split_ifs at hwhole with haccepts
  obtain ⟨rfl, hrest⟩ := Front.message.inj hwhole
  refine ⟨haccepts, messages', rfl, ?_, fun m' hm' => h.fits m' (.tail _ hm')⟩
  rw [hrest, List.append_assoc]

/-- **A refusal is that of the first message.** -/
theorem refused (h : F.Holds p messages lost) (hfront : F.front p.buffer = .refused) :
    ∃ m messages', messages = m :: messages' ∧ F.accepts m = false := by
  obtain ⟨m, messages', rfl⟩ := h.exists_cons (by simp [hfront])
  have hwhole := F.refused_append (p.wire ++ lost) hfront
  rw [h.bytes_cons, F.front_encode _ (h.fits m (.head _))] at hwhole
  split_ifs at hwhole with haccepts
  exact ⟨m, messages', rfl, Bool.eq_false_iff.mpr haccepts⟩

/-- **Nothing is left** when all bytes have arrived and the reader waits for more. -/
theorem eq_nil (h : F.Holds p messages []) (hwire : p.wire = [])
    (hfront : F.front p.buffer = .incomplete) : messages = [] := by
  cases messages with
  | nil => rfl
  | cons m messages' =>
    have hbuffer := h.bytes_cons
    rw [hwire, List.append_nil, List.append_nil] at hbuffer
    rw [hbuffer, F.front_encode _ (h.fits m (.head _))] at hfront
    split_ifs at hfront

end Holds

end Format

end Streams
