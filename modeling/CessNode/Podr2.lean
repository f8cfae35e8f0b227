/-
# Proofs of possession of service data

The model of `crates/ces-pdp`: a file is cut into blocks, the tag of a block is an RSA signature of
the hash of its name and number times a power of `u` (`generateSigma`), a prover answers a
challenge with one product of tags and one sum of blocks (`proofGen`), and the verifier compares
the two (`verify`).

Numbers travel as decimal texts, as in the source.  A key has a modulus that is not zero, so no
modular power panics.  SHA-256 is a parameter.

The main result is that the answer of an honest prover is accepted (`verify_proofGen`).
-/
import CessNode.PoisSpec

namespace Podr2

open Pois (fromBytesBe)

/-- `PDPError`, with its `FailCode`, or a panic. -/
inductive Error where
  | internal (message : String)
  | parameter (message : String)
  | panic
  deriving DecidableEq, Repr

/-- `Keys`: an RSA key with its public part. -/
structure Keys where
  n : ℕ
  e : ℕ
  d : ℕ
  pos : 0 < n

/-- The two exponents undo each other. -/
def Keys.Inverse (keys : Keys) : Prop := ∀ x, x ^ (keys.e * keys.d) ≡ x [MOD keys.n]

/-- `T`: the name of a file, `u` and the tags of its blocks. -/
structure T where
  name : String
  u : String
  phi : List String

/-- `QElement`: a challenged block and its coefficient. -/
structure QElement where
  i : ℕ
  v : List UInt8

/-- `Proof`. -/
structure Proof where
  mu : String
  sigma : String
  deriving DecidableEq, Repr

/-! ## Texts -/

/-- `to_string` of a number. -/
def toDecimal (n : ℕ) : String := toString n

/-- `BigUint::from_str`: one plus sign in front and underscores between the digits are allowed. -/
def fromDecimal (text : String) : Except String ℕ :=
  let chars := match text.toList with
    | '+' :: tail => if tail.head? = some '+' then '+' :: tail else tail
    | chars => chars
  if chars = [] then .error "cannot parse integer from empty string"
  else if chars.head? = some '_' then .error "invalid digit found in string"
  else
    let digits := chars.filter (· ≠ '_')
    if digits.all Char.isDigit then .ok (Nat.ofDigitChars 10 digits 0)
    else .error "invalid digit found in string"

/-- What is written as a decimal is read back. -/
theorem fromDecimal_toDecimal (n : ℕ) : fromDecimal (toDecimal n) = .ok n := by
  have hdigit : ∀ c ∈ Nat.toDigits 10 n, c.isDigit = true := fun c hc =>
    Nat.isDigit_of_mem_toDigits (by decide) (by decide) hc
  have htext : (toDecimal n).toList = Nat.toDigits 10 n := by
    unfold toDecimal
    rw [Nat.toString_eq_repr, Nat.repr_eq_ofList_toDigits, String.toList_ofList]
  have hfilter : (Nat.toDigits 10 n).filter (· ≠ '_') = Nat.toDigits 10 n := by
    rw [List.filter_eq_self]
    intro c hc
    rw [decide_eq_true_eq]
    rintro rfl
    exact Nat.underscore_not_in_toDigits hc
  unfold fromDecimal
  rw [htext]
  generalize hchars : Nat.toDigits 10 n = chars at *
  have hvalue : Nat.ofDigitChars 10 chars 0 = n := by
    rw [← hchars]
    exact Nat.ofDigitChars_toDigits (by decide) (by decide)
  cases chars with
  | nil => exact absurd hchars Nat.toDigits_ne_nil
  | cons c rest =>
    have hplus : c ≠ '+' := by
      rintro rfl
      exact absurd (hdigit '+' List.mem_cons_self) (by decide)
    have hunder : c ≠ '_' := by
      rintro rfl
      exact absurd (hdigit '_' List.mem_cons_self) (by decide)
    have hall : (c :: rest).all Char.isDigit = true := List.all_eq_true.mpr hdigit
    split
    · rename_i tail heq
      exact absurd (List.cons.inj heq).1 hplus
    · simp only [hfilter, hall, hvalue, List.head?_cons, Option.some.injEq, hunder, reduceCtorEq,
        if_true, if_false]

/-- `as_bytes` of a text. -/
def bytesOf (text : String) : List UInt8 := text.toUTF8.toList

/-! ## Tags -/

variable (sha256 : List UInt8 → Bytes 32)

/-- `W::hash`, read as a number as its callers do. -/
def wHash (name : String) (i : ℕ) : ℕ :=
  fromBytesBe (sha256 (bytesOf name ++ bytesOf (toDecimal i))).val

/-- `generate_sigma`. -/
def generateSigma (keys : Keys) (data : List UInt8) (name : String) (i u : ℕ) : String :=
  let umi := u ^ fromBytesBe data % keys.n
  let summary := wHash sha256 name i * umi % keys.n
  toDecimal (summary ^ keys.d % keys.n)

/-- Block `i` of a file in `nBlocks` blocks. -/
def block (data : List UInt8) (nBlocks i : ℕ) : List UInt8 :=
  let size := data.length / nBlocks
  (data.drop (i * size)).take size

/-- The tags of the blocks of a file. -/
def blockTags (keys : Keys) (data : List UInt8) (nBlocks : ℕ) (name : String) (u : ℕ) :
    List String :=
  (List.range nBlocks).map fun i => generateSigma sha256 keys (block data nBlocks i) name i u

/-- The part of `sig_gen_with_data` that a proof is made from, for the `u` that was drawn. -/
def sigGenWithData (keys : Keys) (data : List UInt8) (nBlocks : ℕ) (name : String) (u : ℕ) :
    Except Error T :=
  if nBlocks = 0 then .error .panic
  else if data.length % nBlocks ≠ 0 then
    .error (.internal ("The size of file " ++ name.quote ++ " is " ++ toDecimal data.length ++
      ", which cannot be divisible by " ++ toDecimal nBlocks ++ " blocks"))
  else
    .ok { name := name, u := toDecimal u, phi := blockTags sha256 keys data nBlocks name u }

/-! ## Proofs -/

/-- An open file: its size, and the bytes that a read at an offset delivers. -/
structure File where
  size : ℕ
  read : ℕ → ℕ → List UInt8

/-- The file holds the data, and a read returns the requested bytes. -/
structure File.Holds (file : File) (data : List UInt8) : Prop where
  size : file.size = data.length
  read : ∀ offset len, file.read offset len = (data.drop offset).take len

/-- A read into a buffer of zeros. -/
def File.readInto (file : File) (offset len : ℕ) : List UInt8 :=
  let bytes := file.read offset len
  bytes ++ List.replicate (len - bytes.length) 0

/-- A round of the loop of `proof_gen`, on `mu` and the product of the tags. -/
def proofStep (keys : Keys) (file : File) (eachSize : ℕ) (phi : List String) (acc : ℕ × ℕ)
    (q : QElement) : Except Error (ℕ × ℕ) :=
  let vi := fromBytesBe q.v
  let mi := fromBytesBe (file.readInto (eachSize * q.i) eachSize)
  match phi[q.i]? with
  | none => .error .panic
  | some text =>
    match fromDecimal text with
    | .error message => .error (.internal message)
    | .ok sigma => .ok (vi * mi + acc.1, acc.2 * (sigma ^ vi % keys.n))

/-- `proof_gen`, on the file that was opened or the text of the error. -/
def proofGen (keys : Keys) (file : Except String File) (qSlice : List QElement) (t : T) :
    Except Error Proof :=
  match file with
  | .error message => .error (.parameter message)
  | .ok file =>
    if t.phi.length = 0 then .error .panic
    else do
      let acc ← qSlice.foldlM (proofStep keys file (file.size / t.phi.length) t.phi) (0, 1)
      pure { mu := toDecimal acc.1, sigma := toDecimal (acc.2 % keys.n) }

/-- The product of the hashes in `verify`. -/
def hashProduct (keys : Keys) (name : String) (qSlice : List QElement) (acc : ℕ) : ℕ :=
  qSlice.foldl (fun acc q => acc * (wHash sha256 name q.i ^ fromBytesBe q.v % keys.n)) acc

/-- `verify`. -/
def verify (keys : Keys) (u name : String) (qSlice : List QElement) (sigma mu : String) :
    Except Error Bool :=
  let multiply := hashProduct sha256 keys name qSlice 1
  match fromDecimal u, fromDecimal mu, fromDecimal sigma with
  | .error message, _, _ => .error (.parameter message)
  | .ok _, .error message, _ => .error (.parameter message)
  | .ok _, .ok _, .error message => .error (.parameter message)
  | .ok u, .ok mu, .ok sigma =>
    let multiply := multiply * (u ^ mu % keys.n) % keys.n
    .ok (decide (sigma ^ keys.e % keys.n = multiply))

/-! ## An honest answer is accepted -/

variable {keys : Keys} {data : List UInt8} {nBlocks : ℕ} {u : ℕ}

/-- A read of a block of a file that is cut without rest fills the buffer. -/
theorem readInto_block {file : File} (hfile : file.Holds data) (hdvd : nBlocks ∣ data.length)
    {i : ℕ} (hi : i < nBlocks) :
    file.readInto (data.length / nBlocks * i) (data.length / nBlocks) = block data nBlocks i := by
  obtain ⟨size, hsize⟩ := hdvd
  have hpos : 0 < nBlocks := by omega
  have hdiv : data.length / nBlocks = size := by rw [hsize, Nat.mul_div_cancel_left _ hpos]
  have hend : size * i + size ≤ data.length := by
    rw [hsize, ← Nat.mul_succ, Nat.mul_comm]
    exact Nat.mul_le_mul_right _ hi
  have hlength : ((data.drop (size * i)).take size).length = size := by
    rw [List.length_take, List.length_drop]
    omega
  unfold File.readInto block
  simp only [hdiv, hfile.read, hlength, Nat.sub_self, List.replicate_zero, List.append_nil]
  rw [Nat.mul_comm]

/-- The tag of a block raised to the public exponent is what was signed. -/
theorem sigma_pow_modEq (hkeys : keys.Inverse) (h m v : ℕ) :
    ((((h * (u ^ m % keys.n)) % keys.n) ^ keys.d % keys.n) ^ v % keys.n) ^ keys.e ≡
      h ^ v * u ^ (v * m) [MOD keys.n] := by
  have hinner : h * (u ^ m % keys.n) % keys.n ≡ h * u ^ m [MOD keys.n] :=
    (Nat.mod_modEq _ _).trans ((Nat.ModEq.refl h).mul (Nat.mod_modEq _ _))
  have htag : (h * (u ^ m % keys.n) % keys.n) ^ keys.d % keys.n ≡ (h * u ^ m) ^ keys.d
      [MOD keys.n] := (Nat.mod_modEq _ _).trans (hinner.pow keys.d)
  calc ((((h * (u ^ m % keys.n)) % keys.n) ^ keys.d % keys.n) ^ v % keys.n) ^ keys.e
      ≡ (((h * u ^ m) ^ keys.d) ^ v) ^ keys.e [MOD keys.n] :=
        ((Nat.mod_modEq _ _).trans (htag.pow v)).pow keys.e
    _ = ((h * u ^ m) ^ (keys.e * keys.d)) ^ v := by ring
    _ ≡ (h * u ^ m) ^ v [MOD keys.n] := (hkeys _).pow v
    _ = h ^ v * u ^ (v * m) := by ring

/-- What a round of the two loops keeps: the product of the tags, raised to the public exponent,
is the product of the hashes times the power of `u`. -/
def Matches (keys : Keys) (u : ℕ) (acc : ℕ × ℕ) (multiply : ℕ) : Prop :=
  acc.2 ^ keys.e ≡ multiply * u ^ acc.1 [MOD keys.n]

theorem Matches.step (hkeys : keys.Inverse) {acc : ℕ × ℕ} {multiply : ℕ}
    (h : Matches keys u acc multiply) (hash m v : ℕ) :
    Matches keys u
      (v * m + acc.1,
        acc.2 * (((hash * (u ^ m % keys.n) % keys.n) ^ keys.d % keys.n) ^ v % keys.n))
      (multiply * (hash ^ v % keys.n)) := by
  unfold Matches at h ⊢
  have hhash : hash ^ v ≡ hash ^ v % keys.n [MOD keys.n] := (Nat.mod_modEq _ _).symm
  rw [Nat.mul_pow]
  calc acc.2 ^ keys.e *
        (((hash * (u ^ m % keys.n) % keys.n) ^ keys.d % keys.n) ^ v % keys.n) ^ keys.e
      ≡ multiply * u ^ acc.1 * (hash ^ v * u ^ (v * m)) [MOD keys.n] :=
        h.mul (sigma_pow_modEq hkeys hash m v)
    _ = multiply * hash ^ v * u ^ (v * m + acc.1) := by ring
    _ ≡ multiply * (hash ^ v % keys.n) * u ^ (v * m + acc.1) [MOD keys.n] :=
        ((Nat.ModEq.refl multiply).mul hhash).mul (Nat.ModEq.refl _)

/-- A challenged block of an honest file goes through a round. -/
theorem proofStep_block (keys : Keys) (name : String) (u : ℕ) {file : File}
    (hfile : file.Holds data) (hdvd : nBlocks ∣ data.length) {q : QElement} (hq : q.i < nBlocks)
    (acc : ℕ × ℕ) :
    proofStep keys file (data.length / nBlocks) (blockTags sha256 keys data nBlocks name u) acc q =
      .ok (fromBytesBe q.v * fromBytesBe (block data nBlocks q.i) + acc.1,
        acc.2 * (((wHash sha256 name q.i * (u ^ fromBytesBe (block data nBlocks q.i) % keys.n) %
          keys.n) ^ keys.d % keys.n) ^ fromBytesBe q.v % keys.n)) := by
  unfold proofStep blockTags
  rw [readInto_block hfile hdvd hq, List.getElem?_map, List.getElem?_range hq]
  simp only [Option.map_some, generateSigma, fromDecimal_toDecimal]

/-- The loops of the prover and of the verifier keep step. -/
theorem foldlM_proofStep (name : String) (hkeys : keys.Inverse) {file : File}
    (hfile : file.Holds data) (hdvd : nBlocks ∣ data.length) {qSlice : List QElement}
    (hq : ∀ q ∈ qSlice, q.i < nBlocks) {acc : ℕ × ℕ} {multiply : ℕ}
    (h : Matches keys u acc multiply) :
    ∃ acc', qSlice.foldlM (proofStep keys file (data.length / nBlocks)
        (blockTags sha256 keys data nBlocks name u)) acc = .ok acc' ∧
      Matches keys u acc' (hashProduct sha256 keys name qSlice multiply) := by
  induction qSlice generalizing acc multiply with
  | nil => exact ⟨acc, rfl, h⟩
  | cons q rest ih =>
    have hround := proofStep_block sha256 keys name u hfile hdvd (hq q List.mem_cons_self) acc
    obtain ⟨acc', hfold, hmatch⟩ := ih (fun q' hq' => hq q' (List.mem_cons_of_mem _ hq'))
      (h.step hkeys (wHash sha256 name q.i) (fromBytesBe (block data nBlocks q.i))
        (fromBytesBe q.v))
    refine ⟨acc', ?_, hmatch⟩
    rw [List.foldlM_cons, hround]
    exact hfold

/-- **An honest prover is accepted.**  For every key, every `u`, name and file in blocks of one
size, and every challenge of its blocks, with repetitions or without, the proof that `proofGen`
makes from the tags of the blocks passes `verify`. -/
theorem verify_proofGen {name : String} (hkeys : keys.Inverse) (hblocks : 1 ≤ nBlocks)
    (hdvd : nBlocks ∣ data.length) {file : File} (hfile : file.Holds data)
    {qSlice : List QElement} (hq : ∀ q ∈ qSlice, q.i < nBlocks) :
    ∃ t proof, sigGenWithData sha256 keys data nBlocks name u = .ok t ∧
      proofGen keys (.ok file) qSlice t = .ok proof ∧
      verify sha256 keys (toDecimal u) name qSlice proof.sigma proof.mu = .ok true := by
  have hstart : Matches keys u (0, 1) 1 := by
    show 1 ^ keys.e ≡ 1 * u ^ 0 [MOD keys.n]
    rw [Nat.one_pow, Nat.pow_zero]
  obtain ⟨acc, hfold, hmatch⟩ := foldlM_proofStep sha256 name hkeys hfile hdvd hq hstart
  refine ⟨{ name := name, u := toDecimal u, phi := blockTags sha256 keys data nBlocks name u },
    { mu := toDecimal acc.1, sigma := toDecimal (acc.2 % keys.n) }, ?_, ?_, ?_⟩
  · unfold sigGenWithData
    rw [if_neg (by omega), if_neg (by rw [Nat.mod_eq_zero_of_dvd hdvd]; decide)]
  · have hlength : (blockTags sha256 keys data nBlocks name u).length = nBlocks := by
      rw [blockTags, List.length_map, List.length_range]
    unfold proofGen
    simp only [hlength, hfile.size, hfold]
    rw [if_neg (by omega)]
    rfl
  · unfold verify
    simp only [fromDecimal_toDecimal]
    congr 1
    rw [decide_eq_true_eq]
    have hsigma : (acc.2 % keys.n) ^ keys.e ≡ acc.2 ^ keys.e [MOD keys.n] :=
      (Nat.mod_modEq _ _).pow _
    have hu : u ^ acc.1 ≡ u ^ acc.1 % keys.n [MOD keys.n] := (Nat.mod_modEq _ _).symm
    exact (hsigma.trans hmatch).trans ((Nat.ModEq.refl _).mul hu)

/-- A key with the modulus 33. -/
def smallKeys : Keys where
  n := 33
  e := 3
  d := 7
  pos := by decide

theorem smallKeys_inverse : smallKeys.Inverse := by
  have hresidue : ∀ y < 33, y ^ 21 % 33 = y := by decide
  intro x
  show x ^ 21 % 33 = x % 33
  rw [Nat.pow_mod]
  exact hresidue _ (Nat.mod_lt _ (by decide))

/-- A file that holds the data. -/
def fileOf (data : List UInt8) : File where
  size := data.length
  read := fun offset len => (data.drop offset).take len

theorem verify_proofGen_small :
    ∃ t proof, sigGenWithData (Pois.shortHash 31) smallKeys [1, 2, 3, 4] 2 "a" 5 = .ok t ∧
      proofGen smallKeys (.ok (fileOf [1, 2, 3, 4])) [⟨1, [3]⟩, ⟨0, [2]⟩, ⟨1, [7, 0]⟩] t =
        .ok proof ∧
      verify (Pois.shortHash 31) smallKeys (toDecimal 5) "a" [⟨1, [3]⟩, ⟨0, [2]⟩, ⟨1, [7, 0]⟩]
        proof.sigma proof.mu = .ok true :=
  verify_proofGen (Pois.shortHash 31) smallKeys_inverse (by decide) (by decide)
    ⟨rfl, fun _ _ => rfl⟩ (by decide)

end Podr2
