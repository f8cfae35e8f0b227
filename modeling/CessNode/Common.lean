/-
# Common types and constants

The shared vocabulary of the pallets (`crates/common`): the sizes in which space is
counted, the 32-byte hashes that name tokens and orders, bounded byte strings, the 64-byte
hashes that name files and fragments, and the proof of a miner's idle space.
-/
import Mathlib

/-! ## Sizes -/

/-- `M_BYTE`. -/
def mByte : ℕ := 1048576

/-- `G_BYTE`. -/
def gByte : ℕ := 1048576 * 1024

/-- `T_BYTE`. -/
def tByte : ℕ := 1048576 * 1024 * 1024

/-- `IDLE_SEG_SIZE`. -/
def idleSegSize : ℕ := mByte * 64

/-- `SEGMENT_SIZE`. -/
def segmentSize : ℕ := mByte * 32

/-- `FRAGMENT_SIZE`. -/
def fragmentSize : ℕ := mByte * 8

/-- `FRAGMENT_COUNT`: the number of fragments contained in a segment. -/
def fragmentCount : ℕ := segmentSize * 30 / 10 / fragmentSize

/-! ## Hashes and bounded strings -/

/-- A `BoundedVec<α, n>`. -/
abbrev BoundedVec (α : Type) (n : ℕ) := { l : List α // l.length ≤ n }

namespace BoundedVec

variable {α : Type} {n : ℕ}

/-- The empty vector (`Default::default()`). -/
def empty : BoundedVec α n := ⟨[], Nat.zero_le n⟩

/-- `try_into` from a vector. -/
def tryFrom (n : ℕ) (l : List α) : Option (BoundedVec α n) :=
  if h : l.length ≤ n then some ⟨l, h⟩ else none

/-- `try_push`. -/
def tryPush (v : BoundedVec α n) (a : α) : Option (BoundedVec α n) :=
  tryFrom n (v.val ++ [a])

/-- Change every element. -/
def map {β : Type} (f : α → β) (v : BoundedVec α n) : BoundedVec β n :=
  ⟨v.val.map f, by rw [List.length_map]; exact v.property⟩

/-- Change the element at a position, if there is one. -/
def modify (v : BoundedVec α n) (i : ℕ) (f : α → α) : BoundedVec α n :=
  ⟨v.val.modify i f, by rw [List.length_modify]; exact v.property⟩

/-- `retain`: keep the elements that satisfy `p`. -/
def retain (p : α → Bool) (v : BoundedVec α n) : BoundedVec α n :=
  ⟨v.val.filter p, (List.length_filter_le p v.val).trans v.property⟩

/-- Remove the first element that satisfies `p`. -/
def removeFirst (p : α → Bool) (v : BoundedVec α n) : BoundedVec α n :=
  ⟨v.val.eraseP p, List.length_eraseP_le.trans v.property⟩

theorem tryFrom_eq_some {l : List α} {v : BoundedVec α n} : tryFrom n l = some v ↔ v.val = l := by
  unfold tryFrom
  split_ifs with h
  · rw [Option.some.injEq]
    constructor
    · rintro rfl
      rfl
    · rintro rfl
      rfl
  · simp only [false_iff]
    rintro rfl
    exact h v.property

theorem tryPush_eq_some {v w : BoundedVec α n} {a : α} :
    v.tryPush a = some w ↔ w.val = v.val ++ [a] :=
  tryFrom_eq_some

end BoundedVec

/-- A 32-byte hash. -/
abbrev H256 := { l : List UInt8 // l.length = 32 }

/-- The all-zero hash (`Default::default()`). -/
def H256.zero : H256 := ⟨List.replicate 32 0, rfl⟩

/-- A territory token. -/
abbrev TokenId := H256

/-- A territory name: at most 63 bytes. -/
abbrev TerrName := BoundedVec UInt8 63

/-- The bytes of a token as a territory name. -/
def H256.toTerrName (token : H256) : TerrName := ⟨token.val, by rw [token.property]; omega⟩

/-! ## Files and idle space -/

/-- An array of `n` bytes. -/
abbrev Bytes (n : ℕ) := { l : List UInt8 // l.length = n }

/-- A signature of zeros. -/
def zeroSig : Bytes 64 := ⟨List.replicate 64 0, rfl⟩

/-- `Hash`: the name of a file, a segment or a fragment, as 64 characters. -/
abbrev Hash := Bytes 64

/-- The value of a hexadecimal digit, given by its character. -/
def hexDigit (value : UInt8) : Option ℕ :=
  if 48 ≤ value ∧ value ≤ 57 then some (value.toNat - 48)
  else if 97 ≤ value ∧ value ≤ 102 then some (value.toNat - 87)
  else none

/-- `Hash::binary`: the 256 bits of a hash, if it is a hexadecimal number. -/
def Hash.binary (hash : Hash) : Option (Fin 256 → UInt8) :=
  (hash.val.mapM hexDigit).map fun digits i =>
    .ofNat (digits.getD (i / 4) 0 / 2 ^ (3 - i.val % 4) % 2)

/-- `CHUNK_COUNT`: the number of chunks a fragment is divided into for an audit. -/
def chunkCount : ℕ := 1024

/-- `PeerId`. -/
abbrev PeerId := Bytes 38

/-- `Accumulator`. -/
abbrev Accumulator := Bytes 256

/-- `PoISKey`. -/
structure PoISKey where
  g : Bytes 256
  n : Bytes 256

/-- `SpaceProofInfo`: the idle files of a miner are those with numbers from `front` to
`rear`. -/
structure SpaceProofInfo (AccountId : Type) where
  miner : AccountId
  front : ℕ
  rear : ℕ
  poisKey : PoISKey
  accumulator : Accumulator

/-- `BUCKET_ALLOW_CHAR`, in which `g` and `G` stand in the places of `j` and `J`. -/
def bucketAllowChar : List UInt8 :=
  [ 'a', 'b', 'c', 'd', 'e', 'f', 'g', 'h', 'i', 'g', 'k', 'l', 'm', 'n', 'o', 'p', 'q', 'r',
    's', 't', 'u', 'v', 'w', 'x', 'y', 'z',
    'A', 'B', 'C', 'D', 'E', 'F', 'G', 'H', 'I', 'G', 'K', 'L', 'M', 'N', 'O', 'P', 'Q', 'R',
    'S', 'T', 'U', 'V', 'W', 'X', 'Y', 'Z',
    '0', '1', '2', '3', '4', '5', '6', '7', '8', '9', '-', '_', '.'].map fun c => .ofNat c.toNat
