/-
# Lossy decoding of UTF-8

A byte string is valid UTF-8 if it is the encoding of some characters.  `lossy` reads any
byte string as text: it decodes the valid parts and puts U+FFFD for every maximal subpart
that does not go on to a character.  The decoder of one character is that of the core library.

`encode_lossy_eq_iff` says that the bytes of the text are those that went in exactly when
these were valid, and `length_encode_lossy_le` that they are at most three times as many.
-/
import Mathlib.Algebra.GroupWithZero.Nat
import Mathlib.Data.List.Basic

namespace Utf8

/-- The bytes of a text. -/
def encode (text : List Char) : List UInt8 := text.flatMap String.utf8EncodeChar

/-- The bytes of some text. -/
def Valid (bytes : List UInt8) : Prop := ∃ text, encode text = bytes

/-- The character that `bytes` starts with. -/
def decodeChar? (bytes : List UInt8) : Option Char := bytes.toByteArray.utf8DecodeChar? 0

@[simp] theorem encode_nil : encode [] = [] := rfl

@[simp] theorem encode_cons (c : Char) (text : List Char) :
    encode (c :: text) = String.utf8EncodeChar c ++ encode text := rfl

theorem length_encode (text : List Char) :
    (encode text).length = (text.map Char.utf8Size).sum := by
  induction text with
  | nil => rfl
  | cons c text ih => simp [ih]

theorem valid_iff {bytes : List UInt8} : Valid bytes ↔ bytes.toByteArray.IsValidUTF8 := by
  constructor
  · rintro ⟨text, rfl⟩
    exact ⟨text, rfl⟩
  · rintro ⟨text, h⟩
    exact ⟨text, (List.toByteArray_inj.mp h).symm⟩

instance instDecidableValid (bytes : List UInt8) : Decidable (Valid bytes) :=
  decidable_of_iff _ valid_iff.symm

/-- A character is read back. -/
theorem decodeChar?_encode_append (c : Char) (bytes : List UInt8) :
    decodeChar? (String.utf8EncodeChar c ++ bytes) = some c := by
  unfold decodeChar?
  rw [List.toByteArray_append]
  exact ByteArray.utf8DecodeChar?_utf8EncodeChar_append

/-- Only encodings of characters are read. -/
theorem exists_of_decodeChar? {bytes : List UInt8} {c : Char} (h : decodeChar? bytes = some c) :
    ∃ rest, bytes = String.utf8EncodeChar c ++ rest := by
  obtain ⟨rest, hrest⟩ := ByteArray.exists_of_utf8DecodeChar?_eq_some h
  refine ⟨rest.data.toList, List.toByteArray_inj.mp ?_⟩
  have hdata : rest.data.toList.toByteArray = rest := ByteArray.ext (by simp)
  rw [List.toByteArray_append, hdata, hrest]

/-! ## The decoder -/

/-- The second bytes that may follow `first`, as an interval, and the number of bytes after
the first. -/
def follow (first : UInt8) : ℕ × UInt8 × UInt8 :=
  if 0xC2 ≤ first ∧ first ≤ 0xDF then (1, 0x80, 0xBF)
  else if first = 0xE0 then (2, 0xA0, 0xBF)
  else if first = 0xED then (2, 0x80, 0x9F)
  else if 0xE1 ≤ first ∧ first ≤ 0xEF then (2, 0x80, 0xBF)
  else if first = 0xF0 then (3, 0x90, 0xBF)
  else if 0xF1 ≤ first ∧ first ≤ 0xF3 then (3, 0x80, 0xBF)
  else if first = 0xF4 then (3, 0x80, 0x8F)
  else (0, 0x80, 0xBF)

/-- How many of `bytes`, at most `n`, continue a character; only the first of them is bound
to `low` and `high`. -/
def continuation (n : ℕ) (low high : UInt8) : List UInt8 → ℕ
  | [] => 0
  | b :: bytes =>
    if n = 0 ∨ ¬(low ≤ b ∧ b ≤ high) then 0 else continuation (n - 1) 0x80 0xBF bytes + 1

/-- The bytes after `first` that belong to the same maximal subpart. -/
def subpart (first : UInt8) (bytes : List UInt8) : ℕ :=
  continuation (follow first).1 (follow first).2.1 (follow first).2.2 bytes

/-- U+FFFD. -/
def replacement : Char := Char.ofNat 0xFFFD

/-- Reads the bytes after the next `skip` ones. -/
def lossyAfter : ℕ → List UInt8 → List Char
  | _, [] => []
  | skip + 1, _ :: bytes => lossyAfter skip bytes
  | 0, first :: bytes =>
    match decodeChar? (first :: bytes) with
    | some c => c :: lossyAfter (c.utf8Size - 1) bytes
    | none => replacement :: lossyAfter (subpart first bytes) bytes

/-- The text of any byte string. -/
def lossy (bytes : List UInt8) : List Char := lossyAfter 0 bytes

theorem lossyAfter_drop (skip : ℕ) (bytes : List UInt8) :
    lossyAfter skip bytes = lossy (bytes.drop skip) := by
  induction bytes generalizing skip with
  | nil => simp [lossy, lossyAfter]
  | cons first bytes ih =>
    cases skip with
    | zero => rfl
    | succ skip => exact ih skip

/-- A valid character is kept. -/
theorem lossy_of_decodeChar? {bytes : List UInt8} {c : Char} (h : decodeChar? bytes = some c) :
    lossy bytes = c :: lossy (bytes.drop c.utf8Size) := by
  cases bytes with
  | nil =>
    obtain ⟨rest, hrest⟩ := exists_of_decodeChar? h
    have hlength := congrArg List.length hrest
    have hpos := c.utf8Size_pos
    simp at hlength
    omega
  | cons first bytes =>
    have hsize : c.utf8Size = c.utf8Size - 1 + 1 := (Nat.sub_add_cancel c.utf8Size_pos).symm
    rw [hsize, List.drop_succ_cons, ← lossyAfter_drop]
    simp [lossy, lossyAfter, h]

/-- Valid text is read as it is. -/
theorem lossy_encode (text : List Char) : lossy (encode text) = text := by
  induction text with
  | nil => rfl
  | cons c text ih =>
    rw [encode_cons, lossy_of_decodeChar? (decodeChar?_encode_append c _), ← String.length_utf8EncodeChar,
      List.drop_left, ih]

/-- Bytes that start with no character: the first maximal subpart is replaced. -/
theorem lossy_cons_of_none {first : UInt8} {bytes : List UInt8}
    (h : decodeChar? (first :: bytes) = none) :
    lossy (first :: bytes) = replacement :: lossy (bytes.drop (subpart first bytes)) := by
  rw [← lossyAfter_drop]
  simp [lossy, lossyAfter, h]

/-- A byte that starts no character is replaced. -/
theorem lossy_cons_of_not_first {first : UInt8} (hfirst : ¬first.IsUTF8FirstByte)
    (bytes : List UInt8) :
    lossy (first :: bytes) = replacement :: lossy (bytes.drop (subpart first bytes)) := by
  refine lossy_cons_of_none (Option.eq_none_iff_forall_ne_some.mpr ?_)
  rintro c hc
  have hsome : ((first :: bytes).toByteArray.utf8DecodeChar? 0).isSome :=
    Option.isSome_iff_exists.mpr ⟨c, hc⟩
  have hstart := ByteArray.isUTF8FirstByte_of_isSome_utf8DecodeChar? hsome
  exact hfirst (by simpa using hstart)

theorem lossy_replicate (n : ℕ) :
    lossy (List.replicate n 0xFF) = List.replicate n replacement := by
  induction n with
  | zero => rfl
  | succ n ih =>
    have hsubpart : subpart 0xFF (List.replicate n 0xFF) = 0 := by
      cases n <;> rfl
    rw [List.replicate_succ, lossy_cons_of_not_first (by decide), hsubpart, List.drop_zero, ih,
      List.replicate_succ]

/-- **The text grows at most threefold**: a character is as long as it was, and U+FFFD, of three
bytes, stands for at least one byte. -/
theorem length_encode_lossy_le (bytes : List UInt8) :
    (encode (lossy bytes)).length ≤ 3 * bytes.length := by
  induction hn : bytes.length using Nat.strongRecOn generalizing bytes with
  | ind n ih =>
    subst hn
    cases bytes with
    | nil => exact Nat.le_refl 0
    | cons first bytes =>
      rcases hchar : decodeChar? (first :: bytes) with _ | c
      · have hsize : (String.utf8EncodeChar replacement).length = 3 := by decide
        have hlength : (bytes.drop (subpart first bytes)).length ≤ bytes.length :=
          (List.drop_sublist _ _).length_le
        have hrest := ih _ (Nat.lt_succ_of_le hlength) _ rfl
        rw [lossy_cons_of_none hchar, encode_cons, List.length_append, hsize, List.length_cons]
        omega
      · obtain ⟨rest, hrest⟩ := exists_of_decodeChar? hchar
        have hlength := congrArg List.length hrest
        rw [List.length_append, String.length_utf8EncodeChar] at hlength
        have hdrop : (first :: bytes).drop c.utf8Size = rest := by
          rw [hrest, ← String.length_utf8EncodeChar, List.drop_left]
        have hpos := c.utf8Size_pos
        have htail := ih rest.length (by omega) rest rfl
        rw [lossy_of_decodeChar? hchar, hdrop, encode_cons, List.length_append,
          String.length_utf8EncodeChar]
        omega

/-- **Only valid bytes survive.** -/
theorem encode_lossy_eq_iff {bytes : List UInt8} : encode (lossy bytes) = bytes ↔ Valid bytes := by
  constructor
  · intro h
    exact ⟨_, h⟩
  · rintro ⟨text, rfl⟩
    rw [lossy_encode]

end Utf8
