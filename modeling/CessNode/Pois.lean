/-
# Proofs of idle space

The model of `crates/ces-pois` as far as it checks proofs: the accumulators of several levels in
which a prover keeps the labels of its idle files, the paths in the hash trees of the files, and
the three checks of the verifier that rest on them, of files that are added (`verifyAcc`), of
files that are challenged (`verifySpace`) and of files that are deleted (`verifyDeletion`).

What comes from elsewhere is a parameter: the two SHA functions and the search for a prime
(`hPrime`, which works on floating point numbers and calls a primality test of a library).  The
draws of the batch check are a parameter of the check.

An index out of range, `unwrap` of `None` and a zero modulus are panics.  Integers have the width
of the source and wrap around.
-/
import CessNode.Common
import CessNode.StorageMap
import CessNode.Dispatch

open Dispatch

namespace Pois

/-- What the crate takes from others. -/
structure Params where
  sha256 : List UInt8 → Bytes 32
  sha512 : List UInt8 → Bytes 64
  /-- `h_prime`. -/
  hPrime : ℕ → ℕ

/-- Why a check stops. -/
inductive Error where
  /-- An error with its message. -/
  | bail (message : String)
  | panic
  deriving DecidableEq, Repr

/-- The value of an option, or a panic. -/
def unwrap {α : Type} : Option α → Except Error α
  | some a => .ok a
  | none => .error .panic

/-- Stop with the message unless `p` holds. -/
def check (p : Prop) [Decidable p] (message : String) : Except Error Unit :=
  if p then .ok () else .error (.bail message)

/-! ## Bytes -/

/-- `BigUint::from_bytes_be`. -/
def fromBytesBe (bytes : List UInt8) : ℕ := bytes.foldl (fun n byte => 256 * n + byte.toNat) 0

/-- `BigUint::to_bytes_be`. -/
def toBytesBe (n : ℕ) : List UInt8 :=
  if n = 0 then [0] else (Nat.digits 256 n).reverse.map UInt8.ofNat

/-- `get_bytes` of an `i64`: the highest byte first. -/
def getBytes (v : Int64) : List UInt8 :=
  (List.range 8).reverse.map fun i => .ofNat (v.toUInt64.toNat / 2 ^ (8 * i) % 256)

/-- `copy_data`: the sources one after the other; one that is empty or does not fit any more is
left out. -/
def copyData (target : List UInt8) (src : List (List UInt8)) : List UInt8 :=
  (src.foldl (fun (p : List UInt8 × ℕ) d =>
    if d.length = 0 ∨ d.length + p.2 > target.length then p
    else (p.1.take p.2 ++ d ++ p.1.drop (p.2 + d.length), p.2 + d.length)) (target, 0)).1

/-- `hex::encode`. -/
def hexEncode (bytes : List UInt8) : List UInt8 :=
  let digit (d : UInt8) : UInt8 := if d < 10 then 48 + d else 87 + d
  bytes.flatMap fun byte => [digit (byte / 16), digit (byte % 16)]

/-- `DEFAULT_HASH_SIZE`. -/
def defaultHashSize : ℕ := 32

variable (P : Params)

/-- `get_hash`, with the text `none` for no data. -/
def getHash (data : List UInt8) : List UInt8 :=
  (P.sha512 (if data.isEmpty then [110, 111, 110, 101] else data)).val

/-- The buffer for a label, before anything is written. -/
def emptyLabel (id : List UInt8) : List UInt8 := List.replicate (id.length + 8 + defaultHashSize) 0

/-! ## Accumulators -/

/-- `RsaKey`. -/
structure RsaKey where
  n : ℕ
  g : ℕ

/-- `WitnessNode`: an element, its witness and the node of the accumulator it is in, which the
topmost node does not have. -/
inductive WitnessNode where
  | last (elem wit : List UInt8)
  | link (elem wit : List UInt8) (acc : WitnessNode)
  deriving DecidableEq

namespace WitnessNode

/-- The field `elem`. -/
def elem : WitnessNode → List UInt8
  | last elem _ => elem
  | link elem _ _ => elem

/-- The field `wit`. -/
def wit : WitnessNode → List UInt8
  | last _ wit => wit
  | link _ wit _ => wit

/-- The field `acc`. -/
def acc : WitnessNode → Option WitnessNode
  | last _ _ => none
  | link _ _ acc => some acc

end WitnessNode

/-- `BigUint::modpow`. -/
def modpow (base exponent modulus : ℕ) : Except Error ℕ :=
  if modulus = 0 then .error .panic else .ok (base ^ exponent % modulus)

/-- `generate_acc`. -/
def generateAcc (key : RsaKey) (acc : List UInt8) (elems : List (List UInt8)) :
    Except Error (Option (List UInt8)) :=
  if acc.isEmpty then .ok none
  else do
    let g ← elems.foldlM (fun g elem => modpow g (P.hPrime (fromBytesBe elem)) key.n)
      (fromBytesBe acc)
    pure (some (toBytesBe g))

namespace Acc

/-- `DEFAULT_LEVEL`. -/
def defaultLevel : ℕ := 3

/-- `DEFAULT_ELEMS_NUM`. -/
def defaultElemsNum : Int64 := 256

/-- `verify_acc`. -/
def verifyAcc (key : RsaKey) (acc u wit : List UInt8) : Except Error Bool := do
  let dash ← modpow (fromBytesBe wit) (P.hPrime (fromBytesBe u)) key.n
  pure (decide (dash = fromBytesBe acc))

/-- `verify_mutilevel_acc`. -/
def verifyMutilevelAcc (key : RsaKey) (acc : List UInt8) : WitnessNode → Except Error Bool
  | .last elem _ => pure (decide (elem = acc))
  | .link elem wit up => do
    if ← verifyAcc P key up.elem elem wit then verifyMutilevelAcc key acc up else pure false

/-- The loop of `verify_mutilevel_acc_for_batch` from the witness at position `i` on, with the
accumulator that the next witness has to name.  The draw for a position is one of 0 to 99. -/
def batchFrom (key : RsaKey) (baseIdx : Int64) (acc : List UInt8) (draw : ℕ → ℕ) (len : ℕ) :
    ℕ → Option (List UInt8) → List WitnessNode → Except Error Bool
  | _, _, [] => pure true
  | i, subAcc, witness :: rest => do
    let agrees ← match subAcc with
      | some sa => do
        let up ← unwrap witness.acc
        pure (decide (up.elem = sa))
      | none => pure true
    if agrees = false then pure false
    else if (Int64.ofNat i + baseIdx) % defaultElemsNum = 0 ∨ i = len - 1 then
      if ← verifyMutilevelAcc P key acc witness then
        batchFrom key baseIdx acc draw len (i + 1) none rest
      else pure false
    else
      let passes ←
        if draw i < 25 then do
          let up ← unwrap witness.acc
          verifyAcc P key up.elem witness.elem witness.wit
        else pure true
      if passes = false then pure false
      else
        let up ← unwrap witness.acc
        batchFrom key baseIdx acc draw len (i + 1) (some up.elem) rest

/-- `verify_mutilevel_acc_for_batch`. -/
def verifyMutilevelAccForBatch (draw : ℕ → ℕ) (key : RsaKey) (baseIdx : Int64)
    (wits : List WitnessNode) (acc : List UInt8) : Except Error Bool :=
  batchFrom P key baseIdx acc draw wits.length 0 none wits

/-- The first loop of `verify_insert_update`: nodes whose witness is the accumulator above are
passed over. -/
def skipNew : WitnessNode → WitnessNode
  | .last elem wit => .last elem wit
  | .link elem wit up => if up.elem = wit then skipNew up else .link elem wit up

/-- The last loop of `verify_insert_update`: every level is made from the one below. -/
def insertLevels (key : RsaKey) (accs : List (List UInt8)) : WitnessNode → ℕ → Except Error Bool
  | .last _ _, _ => pure true
  | .link _ wit up, count => do
    let below ← unwrap accs[count - 1]?
    let subAcc ← generateAcc P key wit [below]
    let next ← unwrap accs[count]?
    if subAcc = some next then insertLevels key accs up (count + 1) else pure false

/-- `verify_insert_update`. -/
def verifyInsertUpdate (key : RsaKey) (exist : Option WitnessNode) (elems accs : List (List UInt8))
    (acc : List UInt8) : Except Error Bool :=
  match exist with
  | none => pure false
  | some exist =>
    if elems.isEmpty ∨ accs.length < defaultLevel then pure false
    else do
      if ← verifyMutilevelAcc P key acc (skipNew exist) then
        let subAcc ← generateAcc P key exist.elem elems
        let first ← unwrap accs[0]?
        if subAcc = some first then insertLevels P key accs exist 1 else pure false
      else pure false

/-- The loop of `verify_delete_update`. -/
def deleteLevels (key : RsaKey) (accs : List (List UInt8)) : WitnessNode → ℕ → Except Error Bool
  | .last _ _, _ => pure true
  | .link _ wit up, count => do
    let below ← unwrap accs[count - 1]?
    let subAcc ←
      if below = toBytesBe key.g then generateAcc P key wit [below] else pure (some wit)
    let next ← unwrap accs[count]?
    if subAcc = some next then deleteLevels key accs up (count + 1) else pure false

/-- `verify_delete_update`. -/
def verifyDeleteUpdate (key : RsaKey) (exist : WitnessNode) (elems accs : List (List UInt8))
    (acc : List UInt8) : Except Error Bool :=
  if elems.isEmpty ∨ accs.length < defaultLevel then pure false
  else do
    if ← verifyMutilevelAcc P key acc exist then
      let first ← unwrap accs[0]?
      let subAcc ← generateAcc P key first elems
      if subAcc = some exist.elem then pure false else deleteLevels P key accs exist 1
    else pure false

end Acc

/-! ## Paths in a hash tree -/

/-- `PathProof`. -/
structure PathProof where
  locs : List UInt8
  path : List (List UInt8)

/-- `verify_path_proof`. -/
def verifyPathProof (root data : List UInt8) (proof : PathProof) : Bool :=
  if proof.locs.length ≠ proof.path.length then false
  else
    let data := (P.sha256 data).val
    if data.length ≠ root.length then false
    else decide (root = (proof.locs.zip proof.path).foldl (fun data step =>
      if step.1 = 0 then (P.sha256 (step.2 ++ data)).val else (P.sha256 (data ++ step.2)).val) data)

/-- `check_index_path`. -/
def checkIndexPath (index : Int64) : List UInt8 → Bool
  | [] => true
  | v :: locs =>
    if (index + 1) % 2 = 0 then
      if v ≠ 0 then false else checkIndexPath (index / 2) locs
    else if v ≠ 1 then false
    else checkIndexPath (index / 2) locs

/-! ## Proofs -/

/-- `Commits`. -/
structure Commits where
  fileIndexs : List Int64
  roots : List (List UInt8)

/-- `MhtProof`. -/
structure MhtProof where
  index : Int32
  label : List UInt8
  paths : List (List UInt8)
  locs : List UInt8

/-- `AccProof`. -/
structure AccProof where
  indexs : List Int64
  labels : List (List UInt8)
  witChains : Option WitnessNode
  accPath : List (List UInt8)

/-- `SpaceProof`. -/
structure SpaceProof where
  left : Int64
  right : Int64
  proofs : List (List MhtProof)
  roots : List (List UInt8)
  witChains : List WitnessNode

/-- `DeletionProof`. -/
structure DeletionProof where
  roots : List (List UInt8)
  witChain : WitnessNode
  accPath : List (List UInt8)

/-! ## The verifier -/

/-- `IDLE_SET_LEN`. -/
def idleSetLen : ℕ := 32

/-- `Record`. -/
structure Record where
  key : RsaKey
  acc : List UInt8
  front : Int64
  rear : Int64

/-- `ProverNode`. -/
structure ProverNode where
  id : List UInt8
  commitBuf : Commits
  record : Option Record

/-- `Expanders`. -/
structure Expanders where
  k : Int64
  n : Int64
  d : Int64

/-- `Verifier`, with the nodes under their hexadecimal names. -/
structure Verifier where
  clusterSize : Int64
  expanders : Expanders
  nodes : StorageMap (List UInt8) ProverNode

/-- The node of a prover. -/
def Verifier.nodeOf (v : Verifier) (id : List UInt8) : Option ProverNode :=
  v.nodes.lookup (hexEncode id)

/-- A check that may change the nodes.  An error keeps the changes made before it. -/
abbrev VerifierM := EStateM Error Verifier

/-- A check without changes. -/
def lift {α : Type} (x : Except Error α) : VerifierM α :=
  match x with
  | .ok a => pure a
  | .error e => throw e

/-- Write the node of a prover. -/
def putNode (id : List UInt8) (node : ProverNode) : VerifierM Unit :=
  modify fun v => { v with nodes := v.nodes.insert (hexEncode id) node }

/-- A round of the loops of `verify_acc`: file `j` of the challenge at position `i`.  The buffer
of the label is the one of the round before. -/
def checkFile (v : Verifier) (node : ProverNode) (id : List UInt8) (proof : AccProof) (i : ℕ)
    (chal : List Int64) (label : List UInt8) (j : ℕ) : Except Error (List UInt8) := do
  let clusterSize := v.clusterSize.toUInt64
  let index ← unwrap proof.indexs[i * clusterSize.toNat + j]?
  let cluster ← unwrap chal[0]?
  let record ← unwrap node.record
  let number := (cluster - 1).toUInt64 * clusterSize + .ofNat j + 1
  check (index.toUInt64 = number ∧
    record.rear.toUInt64 + .ofNat i * clusterSize + .ofNat j + 1 = number)
    "verify acc proofs error: bad file index"
  let root ← unwrap node.commitBuf.roots[
    ((v.expanders.k.toUInt64 + .ofNat j) * .ofNat idleSetLen + .ofNat i).toNat]?
  let label := copyData label
    [id, getBytes ((cluster - 1) * v.clusterSize + .ofNat j + 1), root]
  let expected ← unwrap proof.labels[i * clusterSize.toNat + j]?
  check (getHash P label = expected) "verify acc proofs error: verify file label error"
  pure label

/-- The checks of `verify_acc` before anything is changed. -/
def checkAcc (v : Verifier) (node : ProverNode) (id : List UInt8) (chals : List (List Int64))
    (proof : AccProof) : Except Error Unit := do
  let clusterSize := v.clusterSize.toUInt64.toNat
  let count ← unwrap (checkedDiv proof.indexs.length clusterSize)
  check (chals.length = count ∧ chals.length = idleSetLen) "verify acc proofs error: bad proof data"
  let _ ← chals.zipIdx.foldlM (fun label p =>
    (List.range clusterSize).foldlM (checkFile P v node id proof p.2 p.1) label) (emptyLabel id)
  let record ← unwrap node.record
  let inserted ← Acc.verifyInsertUpdate P record.key proof.witChains proof.labels proof.accPath
    record.acc
  check (inserted = true) "verify acc proofs error: verify muti-level acc error"

/-- `verify_acc`. -/
def verifyAcc (id : List UInt8) (chals : List (List Int64)) (proof : AccProof) :
    VerifierM Unit := do
  let v ← get
  match v.nodeOf id with
  | none => throw (.bail "verify acc proofs error: prover node not found")
  | some node => do
    lift (checkAcc P v node id chals proof)
    let record ← lift (unwrap node.record)
    let acc ← lift (unwrap proof.accPath.getLast?)
    putNode id
      { node with
        record := some
          { record with
            acc := acc, rear := record.rear + .ofNat chals.length * v.clusterSize }
        commitBuf := { fileIndexs := [], roots := [] } }

/-- The check of one challenged node of a file in `verify_space`. -/
def checkNode (root : List UInt8) (chal : Int64) (proof : MhtProof) : Except Error Unit := do
  check (chal = proof.index.toInt64) "verify space proofs error: bad file index"
  check (checkIndexPath chal proof.locs = true) "verify space proofs error: verify index path error"
  check (verifyPathProof P root proof.label { locs := proof.locs, path := proof.paths } = true)
    "verify space proofs error: verify path proof error"

/-- A round of the loop of `verify_space`: the file at position `i`. -/
def checkSpaceFile (id : List UInt8) (chals : List Int64) (proof : SpaceProof)
    (label : List UInt8) (p : List UInt8 × ℕ) : Except Error (List UInt8) := do
  chals.zipIdx.forM fun c => do
    let proofs ← unwrap proof.proofs[p.2]?
    let node ← unwrap proofs[c.2]?
    checkNode P p.1 c.1 node
  let label := copyData label [id, getBytes (proof.left + .ofNat p.2), p.1]
  let witness ← unwrap proof.witChains[p.2]?
  check (getHash P label = witness.elem) "verify space proofs error: verify file label error"
  pure label

/-- `verify_space`. -/
def verifySpace (draw : ℕ → ℕ) (node : ProverNode) (chals : List Int64) (proof : SpaceProof) :
    Except Error Unit := do
  check (chals ≠ []) "verify space proofs error: bad proof data"
  let record ← unwrap node.record
  check (¬ (proof.left ≤ record.front ∨ record.rear + 1 < proof.right))
    "verify space proofs error: bad proof data"
  let _ ← proof.roots.zipIdx.foldlM (checkSpaceFile P node.id chals proof) (emptyLabel node.id)
  let accepted ← Acc.verifyMutilevelAccForBatch P draw record.key proof.left proof.witChains
    record.acc
  check (accepted = true) "verify space proofs error: verify acc proof error"

/-- The label of a file in `verify_deletion`. -/
def fileLabel (id : List UInt8) (number : Int64) (root : List UInt8) : List UInt8 :=
  getHash P (copyData (emptyLabel id) [id, getBytes number, root])

/-- The labels of the files to be deleted. -/
def deletedLabels (id : List UInt8) (front : Int64) (roots : List (List UInt8)) :
    List (List UInt8) :=
  roots.zipIdx.map fun p => fileLabel P id (front + .ofNat p.2 + 1) p.1

/-- `verify_deletion`. -/
def verifyDeletion (id : List UInt8) (proof : DeletionProof) : VerifierM Unit := do
  let v ← get
  match v.nodeOf id with
  | none => throw (.bail "verify deletion proofs error: prover node not found")
  | some node => do
    let record ← lift (unwrap node.record)
    lift (check (proof.roots.length ≤ (record.rear - record.front).toUInt64.toNat)
      "verify deletion proofs error: file number out of range")
    let updated ← lift (Acc.verifyDeleteUpdate P record.key proof.witChain
      (deletedLabels P id record.front proof.roots) proof.accPath record.acc)
    lift (check (updated = false) "verify deletion proofs error: verify acc proof error")
    let front := record.front + .ofNat proof.roots.length
    putNode id { node with record := some { record with front := front } }
    -- an empty path is noticed after the write
    let acc ← lift (unwrap proof.accPath.getLast?)
    putNode id { node with record := some { record with front := front, acc := acc } }

end Pois
