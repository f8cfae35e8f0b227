/-
# Codecs of byte strings

A value is written as a string of bytes, one after the other, without marks that say where a value
ends.  A decoder reads a value from the front of its input and leaves the rest, or fails.  A codec is
an encoder together with a decoder that reads back what the encoder has written, whatever follows
(`Codec.decode_encode`).

The codecs are those of fixed-width numbers (least significant byte first), arrays of bytes,
booleans, pairs and lists; a list is written with its length in front, in the compact form of 1, 2, 4
or 5 bytes.
-/
import Mathlib

namespace Scale

/-- A decoder takes a value from the front of its input. -/
abbrev Decoder := StateT (List UInt8) Option

/-! ## Bytes and numbers -/

/-- The next `n` bytes. -/
def takeBytes (n : ℕ) : Decoder { l : List UInt8 // l.length = n } := fun input =>
  if h : n ≤ input.length then
    some (⟨input.take n, List.length_take_of_le h⟩, input.drop n)
  else none

theorem takeBytes_append {n : ℕ} (l : { l : List UInt8 // l.length = n }) (rest : List UInt8) :
    takeBytes n (l.val ++ rest) = some (l, rest) := by
  obtain ⟨l, rfl⟩ := l
  have hle : l.length ≤ (l ++ rest).length := by
    rw [List.length_append]
    omega
  unfold takeBytes
  rw [dif_pos hle]
  simp only [List.take_left, List.drop_left]

/-- The `w` least significant bytes of a number, the least significant one first. -/
def toLE : ℕ → ℕ → List UInt8
  | 0, _ => []
  | w + 1, n => UInt8.ofNat n :: toLE w (n / 256)

/-- The number that is written with the least significant byte first. -/
def ofLE : List UInt8 → ℕ
  | [] => 0
  | b :: bs => b.toNat + 256 * ofLE bs

theorem length_toLE (w n : ℕ) : (toLE w n).length = w := by
  induction w generalizing n with
  | zero => rfl
  | succ w ih =>
    unfold toLE
    rw [List.length_cons, ih]

theorem ofLE_toLE {w n : ℕ} (h : n < 256 ^ w) : ofLE (toLE w n) = n := by
  induction w generalizing n with
  | zero =>
    unfold toLE ofLE
    omega
  | succ w ih =>
    unfold toLE ofLE
    rw [ih (Nat.div_lt_of_lt_mul (by omega)), UInt8.toNat_ofNat']
    omega

/-- A number of `w` bytes. -/
def readLE (w : ℕ) : Decoder ℕ := do
  let bytes ← takeBytes w
  pure (ofLE bytes.val)

theorem readLE_append {w n : ℕ} (h : n < 256 ^ w) (rest : List UInt8) :
    readLE w (toLE w n ++ rest) = some (n, rest) := by
  unfold readLE
  have htake := takeBytes_append ⟨toLE w n, length_toLE w n⟩ rest
  simp only [bind, StateT.bind] at htake ⊢
  rw [htake]
  simp only [Option.bind_some, ofLE_toLE h]
  rfl

/-! ## Codecs -/

/-- An encoder and a decoder for the values that can be written. -/
structure Codec (α : Type) where
  encode : α → List UInt8
  decode : Decoder α
  /-- The values that can be written. -/
  Valid : α → Prop
  decode_encode : ∀ a rest, Valid a → decode (encode a ++ rest) = some (a, rest)

namespace Codec

variable {α β : Type}

/-- Numbers of `w` bytes. -/
def uint (w : ℕ) : Codec ℕ where
  encode := toLE w
  decode := readLE w
  Valid n := n < 256 ^ w
  decode_encode _ rest h := readLE_append h rest

/-- Arrays of `n` bytes. -/
def array (n : ℕ) : Codec { l : List UInt8 // l.length = n } where
  encode l := l.val
  decode := takeBytes n
  Valid _ := True
  decode_encode l rest _ := takeBytes_append l rest

/-- Read a boolean: a byte that is 0 or 1. -/
def readBool : Decoder Bool
  | 0 :: rest => some (false, rest)
  | 1 :: rest => some (true, rest)
  | _ => none

theorem readBool_isSome {input : List UInt8} :
    (readBool input).isSome = true ↔ ∃ b rest, input = b :: rest ∧ (b = 0 ∨ b = 1) := by
  constructor
  · intro h
    unfold readBool at h
    split at h
    · exact ⟨0, _, rfl, .inl rfl⟩
    · exact ⟨1, _, rfl, .inr rfl⟩
    · cases h
  · rintro ⟨b, rest, rfl, rfl | rfl⟩
    · rfl
    · rfl

/-- A pair: one after the other. -/
def pair (first : Codec α) (second : Codec β) : Codec (α × β) where
  encode p := first.encode p.1 ++ second.encode p.2
  decode := do
    let a ← first.decode
    let b ← second.decode
    pure (a, b)
  Valid p := first.Valid p.1 ∧ second.Valid p.2
  decode_encode := by
    rintro ⟨a, b⟩ rest ⟨ha, hb⟩
    have hfirst := first.decode_encode a (second.encode b ++ rest) ha
    have hsecond := second.decode_encode b rest hb
    simp only [bind, StateT.bind, List.append_assoc, hfirst, hsecond, Option.bind_some]
    rfl

/-- A type whose values are the values of another one. -/
def imap (c : Codec α) (make : α → β) (fields : β → α)
    (h : ∀ b, make (fields b) = b) : Codec β where
  encode b := c.encode (fields b)
  decode := do
    let a ← c.decode
    pure (make a)
  Valid b := c.Valid (fields b)
  decode_encode := by
    intro b rest hb
    have hdecode := c.decode_encode (fields b) rest hb
    simp only [bind, StateT.bind, hdecode, Option.bind_some, h]
    rfl

/-! ## Lists -/

/-- A number of at most 32 bits in 1, 2, 4 or 5 bytes; the two low bits of the first byte say in
how many. -/
def writeCompact (n : ℕ) : List UInt8 :=
  if n < 2 ^ 6 then toLE 1 (4 * n)
  else if n < 2 ^ 14 then toLE 2 (4 * n + 1)
  else if n < 2 ^ 30 then toLE 4 (4 * n + 2)
  else 3 :: toLE 4 n

/-- A value that is not in its shortest form is refused. -/
def atLeast (bound : ℕ) (read : Option (ℕ × List UInt8)) : Option (ℕ × List UInt8) :=
  read.bind fun p => if bound ≤ p.1 then some p else none

/-- Drop the two bits of the form. -/
def dropForm (read : Option (ℕ × List UInt8)) : Option (ℕ × List UInt8) :=
  read.map fun p => (p.1 / 4, p.2)

/-- Read such a number; it has to be in its shortest form. -/
def readCompact : Decoder ℕ
  | [] => none
  | first :: rest =>
    match first.toNat % 4 with
    | 0 => some (first.toNat / 4, rest)
    | 1 => atLeast (2 ^ 6) (dropForm (readLE 2 (first :: rest)))
    | 2 => atLeast (2 ^ 14) (dropForm (readLE 4 (first :: rest)))
    | _ => if first.toNat / 4 = 0 then atLeast (2 ^ 30) (readLE 4 rest) else none

theorem atLeast_some {bound n : ℕ} (h : bound ≤ n) (rest : List UInt8) :
    atLeast bound (some (n, rest)) = some (n, rest) := if_pos h

theorem readCompact_append {n : ℕ} (h : n < 2 ^ 32) (rest : List UInt8) :
    readCompact (writeCompact n ++ rest) = some (n, rest) := by
  unfold writeCompact
  split_ifs with h₁ h₂ h₃
  · show readCompact (UInt8.ofNat (4 * n) :: rest) = _
    have hfirst : (UInt8.ofNat (4 * n)).toNat = 4 * n := by
      rw [UInt8.toNat_ofNat']
      omega
    unfold readCompact
    dsimp only
    rw [hfirst, Nat.mul_mod_right, Nat.mul_div_cancel_left n (by decide)]
    rfl
  · have hread := @readLE_append 2 (4 * n + 1) (by omega) rest
    have hform : (UInt8.ofNat (4 * n + 1)).toNat % 4 = 1 := by
      rw [UInt8.toNat_ofNat']
      omega
    show readCompact (UInt8.ofNat (4 * n + 1) :: (toLE 1 ((4 * n + 1) / 256) ++ rest)) = _
    unfold readCompact
    dsimp only
    rw [hform]
    show atLeast _ (dropForm (readLE 2 (toLE 2 (4 * n + 1) ++ rest))) = _
    rw [hread]
    show atLeast _ (some ((4 * n + 1) / 4, rest)) = _
    rw [show (4 * n + 1) / 4 = n by omega]
    exact atLeast_some (by omega) rest
  · have hread := @readLE_append 4 (4 * n + 2) (by omega) rest
    have hform : (UInt8.ofNat (4 * n + 2)).toNat % 4 = 2 := by
      rw [UInt8.toNat_ofNat']
      omega
    show readCompact (UInt8.ofNat (4 * n + 2) :: (toLE 3 ((4 * n + 2) / 256) ++ rest)) = _
    unfold readCompact
    dsimp only
    rw [hform]
    show atLeast _ (dropForm (readLE 4 (toLE 4 (4 * n + 2) ++ rest))) = _
    rw [hread]
    show atLeast _ (some ((4 * n + 2) / 4, rest)) = _
    rw [show (4 * n + 2) / 4 = n by omega]
    exact atLeast_some (by omega) rest
  · show atLeast (2 ^ 30) (readLE 4 (toLE 4 n ++ rest)) = _
    rw [readLE_append (by omega)]
    exact atLeast_some (by omega) rest

/-- Read a given number of values. -/
def decodeList (read : Decoder α) : ℕ → Decoder (List α)
  | 0 => pure []
  | n + 1 => do
    let a ← read
    let as ← decodeList read n
    pure (a :: as)

theorem decodeList_flatMap (c : Codec α) {l : List α} (h : ∀ a ∈ l, c.Valid a) (rest : List UInt8) :
    decodeList c.decode l.length (l.flatMap c.encode ++ rest) = some (l, rest) := by
  induction l with
  | nil => rfl
  | cons a l ih =>
    have hhead := c.decode_encode a (l.flatMap c.encode ++ rest) (h a List.mem_cons_self)
    have htail := ih fun b hb => h b (List.mem_cons_of_mem a hb)
    rw [List.flatMap_cons, List.append_assoc, List.length_cons]
    unfold decodeList
    simp only [bind, StateT.bind, hhead, htail, Option.bind_some]
    rfl

/-- A list: its length, and the values one after the other. -/
def vec (c : Codec α) : Codec (List α) where
  encode l := writeCompact l.length ++ l.flatMap c.encode
  decode := do
    let len ← readCompact
    decodeList c.decode len
  Valid l := l.length < 2 ^ 32 ∧ ∀ a ∈ l, c.Valid a
  decode_encode := by
    rintro l rest ⟨hlength, hvalid⟩
    have hlen := readCompact_append hlength (l.flatMap c.encode ++ rest)
    have hmany := decodeList_flatMap c hvalid rest
    simp only [bind, StateT.bind, List.append_assoc, hlen, hmany, Option.bind_some]

end Codec

end Scale
