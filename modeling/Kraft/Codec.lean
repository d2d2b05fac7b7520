/-
# Self-delimiting codecs

A codec whose messages tell where they end: a message is read off the front of any longer
input, and what has been read does not depend on what follows.  So no proper part of a message
can be read (`Codec.parse_torn`).

* `Codec.nat` : numbers, by their binary digits and a zero.
* `Codec.prod`, `Codec.list`, `Codec.map` : pairs, lists and types that embed in another.
-/
import Mathlib.Data.Nat.Digits.Lemmas

/-- A codec for `α`, with messages that tell where they end. -/
structure Codec (α : Type) where
  encode : α → List UInt8
  /-- Reads a message off the front, and leaves the rest. -/
  parse : List UInt8 → Option (α × List UInt8)
  parse_encode : ∀ a rest, parse (encode a ++ rest) = some (a, rest)
  parse_append : ∀ {bytes a rest} (more : List UInt8), parse bytes = some (a, rest) →
    parse (bytes ++ more) = some (a, rest ++ more)

namespace Codec

variable {α β : Type}

/-- **A proper part of a message cannot be read.** -/
theorem parse_torn (c : Codec α) (a : α) {k : ℕ} (hk : k < (c.encode a).length) :
    c.parse ((c.encode a).take k) = none := by
  rcases hparse : c.parse ((c.encode a).take k) with _ | ⟨b, rest⟩
  · rfl
  · have hwhole := c.parse_append ((c.encode a).drop k) hparse
    have hencode := c.parse_encode a []
    rw [List.take_append_drop] at hwhole
    rw [List.append_nil, hwhole] at hencode
    have hrest : rest ++ (c.encode a).drop k = [] := (Prod.mk.inj (Option.some.inj hencode)).2
    have hlength := congrArg List.length hrest
    rw [List.length_append, List.length_drop, List.length_nil] at hlength
    omega

/-- A type that embeds in another. -/
def map (c : Codec α) (f : α → β) (g : β → α) (h : ∀ b, f (g b) = b) : Codec β where
  encode b := c.encode (g b)
  parse bytes := (c.parse bytes).map fun r => (f r.1, r.2)
  parse_encode b rest := by simp [c.parse_encode, h]
  parse_append more hparse := by
    obtain ⟨⟨a, rest⟩, ha, heq⟩ := Option.map_eq_some_iff.mp hparse
    obtain ⟨rfl, rfl⟩ := Prod.mk.inj heq
    rw [c.parse_append more ha, Option.map_some]

/-- One message after the other. -/
def prod (c : Codec α) (d : Codec β) : Codec (α × β) where
  encode p := c.encode p.1 ++ d.encode p.2
  parse bytes := (c.parse bytes).bind fun r => (d.parse r.2).map fun r' => ((r.1, r'.1), r'.2)
  parse_encode p rest := by simp [List.append_assoc, c.parse_encode, d.parse_encode]
  parse_append more hparse := by
    obtain ⟨⟨a, rest⟩, ha, hrest⟩ := Option.bind_eq_some_iff.mp hparse
    obtain ⟨⟨b, rest'⟩, hb, heq⟩ := Option.map_eq_some_iff.mp hrest
    obtain ⟨rfl, rfl⟩ := Prod.mk.inj heq
    rw [c.parse_append more ha, Option.bind_some, d.parse_append more hb, Option.map_some]

/-! ## Numbers -/

/-- The digit `d` is the byte `d + 1`, and a zero ends the number. -/
def natBytes (n : ℕ) : List UInt8 := (Nat.digits 2 n).map (fun d => if d = 0 then 1 else 2) ++ [0]

/-- The number whose digits stand before the first zero. -/
def parseNat : List UInt8 → Option (ℕ × List UInt8)
  | [] => none
  | byte :: rest =>
    if byte = 0 then some (0, rest)
    else (parseNat rest).map fun r => ((if byte = 1 then 0 else 1) + 2 * r.1, r.2)

theorem parseNat_digits (digits : List ℕ) (hdigits : ∀ d ∈ digits, d < 2) (rest : List UInt8) :
    parseNat (digits.map (fun d => if d = 0 then 1 else 2) ++ 0 :: rest) =
      some (Nat.ofDigits 2 digits, rest) := by
  induction digits with
  | nil => rfl
  | cons d digits ih =>
    have hd := hdigits d (List.mem_cons_self ..)
    have hrest := ih fun e he => hdigits e (List.mem_cons_of_mem _ he)
    rw [List.map_cons, List.cons_append, parseNat, hrest, Nat.ofDigits_cons]
    interval_cases d <;> rfl

theorem parseNat_append {bytes : List UInt8} {n : ℕ} {rest : List UInt8} (more : List UInt8)
    (h : parseNat bytes = some (n, rest)) : parseNat (bytes ++ more) = some (n, rest ++ more) := by
  induction bytes generalizing n rest with
  | nil => cases h
  | cons byte bytes ih =>
    rw [parseNat] at h
    rw [List.cons_append, parseNat]
    split_ifs at h ⊢
    · obtain ⟨rfl, rfl⟩ := Prod.mk.inj (Option.some.inj h)
      rfl
    all_goals
      obtain ⟨⟨m, rest'⟩, hm, heq⟩ := Option.map_eq_some_iff.mp h
      obtain ⟨rfl, rfl⟩ := Prod.mk.inj heq
      rw [ih hm, Option.map_some]

/-- Numbers, by their binary digits. -/
def nat : Codec ℕ where
  encode := natBytes
  parse := parseNat
  parse_encode n rest := by
    rw [natBytes, List.append_assoc, List.singleton_append,
      parseNat_digits _ (fun d hd => Nat.digits_lt_base (by decide) hd), Nat.ofDigits_digits]
  parse_append := parseNat_append

/-! ## Lists -/

/-- Reads `n` messages. -/
def parseMany (c : Codec α) : ℕ → List UInt8 → Option (List α × List UInt8)
  | 0, bytes => some ([], bytes)
  | n + 1, bytes => (c.parse bytes).bind fun r =>
      (c.parseMany n r.2).map fun r' => (r.1 :: r'.1, r'.2)

theorem parseMany_encode (c : Codec α) (l : List α) (rest : List UInt8) :
    c.parseMany l.length ((l.map c.encode).flatten ++ rest) = some (l, rest) := by
  induction l with
  | nil => rfl
  | cons a l ih =>
    rw [List.length_cons, parseMany, List.map_cons, List.flatten_cons, List.append_assoc,
      c.parse_encode, Option.bind_some, ih, Option.map_some]

theorem parseMany_append (c : Codec α) {n : ℕ} {bytes : List UInt8} {l : List α}
    {rest : List UInt8} (more : List UInt8) (h : c.parseMany n bytes = some (l, rest)) :
    c.parseMany n (bytes ++ more) = some (l, rest ++ more) := by
  induction n generalizing bytes l rest with
  | zero =>
    obtain ⟨rfl, rfl⟩ := Prod.mk.inj (Option.some.inj h)
    rfl
  | succ n ih =>
    obtain ⟨⟨a, bytes'⟩, ha, hmany⟩ := Option.bind_eq_some_iff.mp h
    obtain ⟨⟨l', rest'⟩, hl, heq⟩ := Option.map_eq_some_iff.mp hmany
    obtain ⟨rfl, rfl⟩ := Prod.mk.inj heq
    rw [parseMany, c.parse_append more ha, Option.bind_some, ih hl, Option.map_some]

/-- A list: its length and its messages. -/
def list (c : Codec α) : Codec (List α) where
  encode l := natBytes l.length ++ (l.map c.encode).flatten
  parse bytes := (parseNat bytes).bind fun r => c.parseMany r.1 r.2
  parse_encode l rest := by
    have hlength := nat.parse_encode l.length ((l.map c.encode).flatten ++ rest)
    rw [List.append_assoc]
    show (nat.parse (nat.encode l.length ++ _)).bind _ = _
    rw [hlength, Option.bind_some, c.parseMany_encode]
  parse_append more hparse := by
    obtain ⟨⟨n, bytes'⟩, hn, hmany⟩ := Option.bind_eq_some_iff.mp hparse
    rw [parseNat_append more hn, Option.bind_some, c.parseMany_append more hmany]

end Codec
