/-
# The requests of a miner to a TEE worker

The model of `crates/cestory/src/pois.rs`: the handlers with which a miner commits idle files, has
the commits and deletions verified and gets a signed status, and those with which it has the proofs
of a space challenge verified.

The handlers of the certifier work on two tables, the nodes of the verifier and the challenges that
were handed out.  They are programs of atomic operations on these tables (`TableOp`), since a handler
holds no lock from one operation to the next and requests run at the same time.  The handlers of the
verifier have no tables.

Signatures and the encodings of messages are parameters.  Random draws come with the request.
-/
import CessNode.Interleaving
import CessNode.PoisChallenge
import CessNode.PoisCommit

open Pois Interleaving

namespace PoisServer

/-! ## Messages -/

/-- `MinerPoisInfo` of a request: the status of a miner, its key, and a signature of them. -/
structure PoisInfo where
  acc : List UInt8
  front : Int64
  rear : Int64
  keyN : List UInt8
  keyG : List UInt8
  statusTeeSign : List UInt8

/-- `CommitProof` of a request. -/
structure PbCommitProof where
  node : Option MhtProof
  parents : List MhtProof
  elders : List MhtProof

/-- `RequestMinerCommitGenChall`. -/
structure RequestMinerCommitGenChall where
  minerId : List UInt8
  commit : Option Commits
  minerSign : List UInt8

/-- `RequestVerifyCommitAndAccProof`. -/
structure RequestVerifyCommitAndAccProof where
  commitProofGroup : Option (List (List PbCommitProof))
  accProof : Option AccProof
  minerId : List UInt8
  poisInfo : Option PoisInfo
  minerSign : List UInt8

/-- `RequestVerifyDeletionProof`. -/
structure RequestVerifyDeletionProof where
  roots : List (List UInt8)
  witChain : Option WitnessNode
  accPath : List (List UInt8)
  minerId : List UInt8
  poisInfo : Option PoisInfo
  minerSign : List UInt8

/-- `RequestSpaceProofVerify`. -/
structure RequestSpaceProofVerify where
  spaceChals : List Int64
  minerId : List UInt8
  poisInfo : Option PoisInfo
  proof : Option SpaceProof
  minerSpaceProofHashPolkadotSig : List UInt8

/-- `ProofHashAndLeftRight`. -/
structure ProofHashAndLeftRight where
  spaceProofHash : List UInt8
  left : Int64
  right : Int64
  teeId : List UInt8
  deriving DecidableEq

/-- `BlocksProof` of a request. -/
structure PbBlocksProof where
  proofHashAndLeftRight : Option ProofHashAndLeftRight
  signature : List UInt8

/-- `RequestSpaceProofVerifyTotal`. -/
structure RequestSpaceProofVerifyTotal where
  minerId : List UInt8
  proofList : List PbBlocksProof
  front : Int64
  rear : Int64
  acc : List UInt8
  spaceChals : List Int64

/-- `MinerPoisInfo` as it is signed. -/
structure MinerPoisInfo where
  minerId : Bytes 32
  front : UInt64
  rear : UInt64
  g : Bytes 256
  n : Bytes 256
  accumulator : Bytes 256
  deriving DecidableEq

/-- `PoisStatus`. -/
structure PoisStatus where
  acc : List UInt8
  front : Int64
  rear : Int64
  deriving DecidableEq

/-- `ResponseVerifyCommitOrDeletionProof`, with what its signatures are of. -/
structure StatusResponse where
  poisStatus : PoisStatus
  info : MinerPoisInfo
  statusTeeSign : Bytes 64
  signatureWithTeeController : Bytes 64

/-- `ResponseSpaceProofVerifyTotalSignatureMember`, which the answer to a total proof signs. -/
structure TotalMember where
  minerId : Bytes 32
  totalProofHash : List UInt8
  front : UInt64
  rear : UInt64
  acc : Bytes 256
  spaceChals : List UInt64
  result : Bool
  teeAcc : Bytes 32

/-- The answers. -/
inductive Response where
  | challenge (rows : List (List Int64)) (challTeeSign : List UInt8)
  | status (response : StatusResponse)
  | block (signature : List UInt8)
  | total (signed : TotalMember) (signature : Bytes 64)

/-- The codes of `Status` that the handlers use. -/
inductive Code where
  | internal
  | invalidArgument
  | unauthenticated
  | dataLoss
  deriving DecidableEq, Repr

/-- Why a request fails. -/
inductive Failure where
  | status (code : Code) (message : String)
  | panic
  deriving DecidableEq, Repr

/-! ## What comes from elsewhere -/

/-- Signatures and encodings, besides the parameters of the proofs. -/
structure Params extends Pois.Params where
  /-- `sr25519::Pair::verify`. -/
  srVerify : Bytes 64 → List UInt8 → Bytes 32 → Bool
  /-- The public part of `master_key`. -/
  masterPublic : Bytes 32
  /-- `sign_data` of `master_key`. -/
  masterSign : List UInt8 → Bytes 64
  /-- `ceseal_identity_key`. -/
  identityKey : Bytes 32
  /-- `sign_data` of `podr2_keys`. -/
  podr2Sign : List UInt8 → Except String (List UInt8)
  /-- `verify_data` of `podr2_keys`, of a hash and a signature. -/
  podr2Verify : List UInt8 → List UInt8 → Bool
  encodeCommitGen : RequestMinerCommitGenChall → List UInt8
  encodeVerifyCommit : RequestVerifyCommitAndAccProof → List UInt8
  encodeDeletion : RequestVerifyDeletionProof → List UInt8
  encodeSpaceProof : SpaceProof → List UInt8
  encodeProofHash : ProofHashAndLeftRight → List UInt8
  encodeChallenge : List (List Int64) → List UInt8
  /-- `encode` of the member that the answer to a total proof signs. -/
  encodeTotal : TotalMember → List UInt8

/-- A list with the given length, or nothing. -/
def toBytes (n : ℕ) (l : List UInt8) : Option (Bytes n) :=
  if h : l.length = n then some ⟨l, h⟩ else none

/-- A value, or the status. -/
def orStatus {α : Type} (o : Option α) (code : Code) (message : String) : Except Failure α :=
  match o with
  | some a => .ok a
  | none => .error (.status code message)

/-- A value, or a panic. -/
def orPanic {α : Type} : Option α → Except Failure α
  | some a => .ok a
  | none => .error .panic

/-- `?` after `get_ss58_address`. -/
def checkAddress (account : List UInt8) : Except Failure Unit :=
  if account.length ≠ 32 then
    .error (.status .internal "The length of raw account bytes must be 32")
  else .ok ()

variable (T : Params)

/-- `verify_signature`. -/
def verifySignature (spk sig raw : List UInt8) : Except String Bool :=
  match toBytes 32 spk with
  | none => .error "There is a problem with the format of public key"
  | some spk =>
    match toBytes 64 sig with
    | none => .error "There is a problem with the format of signature"
    | some sig => .ok (T.srVerify sig raw spk)

/-- The check of a signature that three handlers repeat. -/
def checkMinerSign (minerId minerSign encoded : List UInt8) : Except Failure Unit :=
  match verifySignature T minerId minerSign (T.sha256 encoded).val with
  | .error e => .error (.status .internal ("Error check miner request signature fail:" ++ e))
  | .ok true => .error (.status .unauthenticated "The miner request signature is incorrect!")
  | .ok false => .ok ()

/-! ## Signed statuses -/

/-- Eight bytes, the lowest first, as SCALE writes a `u64`. -/
def le64 (v : UInt64) : List UInt8 := (List.range 8).map fun i => .ofNat (v.toNat / 2 ^ (8 * i) % 256)

/-- `encode` of a `MinerPoisInfo`. -/
def MinerPoisInfo.encode (info : MinerPoisInfo) : List UInt8 :=
  info.minerId.val ++ le64 info.front ++ le64 info.rear ++ info.g.val ++ info.n.val ++
    info.accumulator.val

/-- The key information of a request, as it was signed. -/
def minerKeyInfo (minerId : List UInt8) (info : PoisInfo) : Except Failure MinerPoisInfo := do
  let id ← orStatus (toBytes 32 minerId) .invalidArgument "The length of miner_id should be 32!"
  let g ← orStatus (toBytes 256 info.keyG) .invalidArgument "The length of pois key g should be 256!"
  let n ← orStatus (toBytes 256 info.keyN) .invalidArgument "The length of pois key n should be 256!"
  let acc ← orStatus (toBytes 256 info.acc) .invalidArgument "The length of pois acc should be 256!"
  pure
    { minerId := id
      front := info.front.toUInt64
      rear := info.rear.toUInt64
      g := g
      n := n
      accumulator := acc }

/-- `verify_pois_status_signature`. -/
def verifyPoisStatusSignature (info : MinerPoisInfo) (signature : List UInt8) :
    Except Failure Unit := do
  let sig ← orStatus (toBytes 64 signature) .invalidArgument "signature length must be 64"
  if T.srVerify sig (T.sha256 info.encode).val T.masterPublic then .ok ()
  else .error (.status .unauthenticated "The miner provided the wrong signature!")

/-- `get_pois_status_and_signature`. -/
def getPoisStatusAndSignature (acc : List UInt8) (front rear : Int64)
    (keyN keyG minerId : List UInt8) : Except Failure StatusResponse := do
  let id ← orStatus (toBytes 32 minerId) .invalidArgument "The length of miner_id should be 32!"
  let g ← orStatus (toBytes 256 keyG) .invalidArgument "The length of pois key g should be 256!"
  let n ← orStatus (toBytes 256 keyN) .invalidArgument "The length of pois key n should be 256!"
  let accumulator ← orStatus (toBytes 256 acc) .invalidArgument "The length of acc should be 256!"
  let raw : MinerPoisInfo :=
    { minerId := id
      front := front.toUInt64
      rear := rear.toUInt64
      g := g
      n := n
      accumulator := accumulator }
  pure
    { poisStatus := { acc := acc, front := front, rear := rear }
      info := raw
      statusTeeSign := T.masterSign (T.sha256 raw.encode).val
      signatureWithTeeController :=
        T.masterSign (T.sha256 (raw.encode ++ T.identityKey.val)).val }

/-- `ProverNode::new` for the status of a request. -/
def proverNode (minerId : List UInt8) (info : PoisInfo) : ProverNode where
  id := minerId
  commitBuf := { fileIndexs := [], roots := [] }
  record := some
    { key := { n := fromBytesBe info.keyN, g := fromBytesBe info.keyG }
      acc := toBytesBe (fromBytesBe info.acc)
      front := info.front
      rear := info.rear }

/-! ## Conversions -/

/-- `convert_to_commit_proof`. -/
def convertToCommitProof (proof : PbCommitProof) : Except Failure CommitProof := do
  let node ← orPanic proof.node
  pure { node := node, parents := proof.parents, elders := proof.elders }

/-- A round of the inner loop over the commit proofs of a request. -/
def convertChecked (proof : PbCommitProof) : Except Failure CommitProof := do
  let cp ← convertToCommitProof proof
  if cp.elders.isEmpty then
    .error (.status .invalidArgument
      "Miner request data is invalid, loss parameter 'elders' in 'CommitProof'")
  else if cp.parents.isEmpty then
    .error (.status .invalidArgument
      "Miner request data is invalid, loss parameter 'parents' in 'CommitProof'")
  else pure cp

/-- The commit proofs of a request. -/
def convertToCommitProofs (group : List (List PbCommitProof)) :
    Except Failure (List (List CommitProof)) :=
  group.mapM fun inner => inner.mapM convertChecked

/-- `convert_to_deletion_proof`. -/
def convertToDeletionProof (req : RequestVerifyDeletionProof) : Except Failure DeletionProof := do
  let witChain ← orPanic req.witChain
  pure { roots := req.roots, witChain := witChain, accPath := req.accPath }

/-- `convert_to_blocks_proof`. -/
def convertToBlocksProof (message : PbBlocksProof) :
    Except Failure (ProofHashAndLeftRight × List UInt8) := do
  let proof ← orPanic message.proofHashAndLeftRight
  pure (proof, message.signature)

/-! ## The tables -/

/-- The two tables of the certifier. -/
structure Tables where
  verifier : Verifier
  /-- `commit_acc_proof_chals_map`. -/
  chals : StorageMap (List UInt8) (List (List Int64))

/-- The random draws of a request. -/
structure Draws where
  challenge : ℕ → ℕ → ℕ
  dependencies : ℕ → ℕ × ℕ

/-- The atomic operations on the tables.  `update_prover_node_force` is two of them, a look at the
commit buffer and an insertion. -/
inductive TableOp where
  | isLogout (id : List UInt8)
  | registerProverNodeEmpty (id : List UInt8)
  | receiveCommits (id : List UInt8) (commits : Commits)
  | commitChallenges (id : List UInt8) (draw : ℕ → ℕ → ℕ)
  | insertChals (id : List UInt8) (chals : List (List Int64))
  | commitBuf (id : List UInt8)
  | insertNode (id : List UInt8) (node : ProverNode)
  | removeChals (id : List UInt8)
  | verifyCommitProofs (id : List UInt8) (draw : ℕ → ℕ × ℕ) (chals : List (List Int64))
      (proofs : List (List CommitProof))
  | verifyAcc (id : List UInt8) (chals : List (List Int64)) (proof : AccProof)
  | verifyDeletion (id : List UInt8) (proof : DeletionProof)
  | logoutProverNode (id : List UInt8)

/-- What an operation answers. -/
def TableOp.Reply : TableOp → Type
  | isLogout _ => Bool
  | registerProverNodeEmpty _ => Unit
  | receiveCommits _ _ => Bool
  | commitChallenges _ _ => Except Error (List (List Int64))
  | insertChals _ _ => Unit
  | commitBuf _ => Option Commits
  | insertNode _ _ => Unit
  | removeChals _ => Option (List (List Int64))
  | verifyCommitProofs _ _ _ _ => Except Error Unit
  | verifyAcc _ _ _ => Except Error Unit
  | verifyDeletion _ _ => Except Error Unit
  | logoutProverNode _ => Except Error (List UInt8 × Int64 × Int64)

/-- The operations that may change a table. -/
def TableOp.writes : TableOp → Bool
  | isLogout _ => false
  | commitChallenges _ _ => false
  | commitBuf _ => false
  | verifyCommitProofs _ _ _ _ => false
  | _ => true

/-- An empty commit buffer. -/
def noCommits : Commits := { fileIndexs := [], roots := [] }

/-- The node of a miner after it was written. -/
def Tables.putNode (s : Tables) (id : List UInt8) (node : ProverNode) : Tables :=
  { s with
    verifier := { s.verifier with nodes := s.verifier.nodes.insert (hexEncode id) node } }

/-- `receive_commits` accepts the commits: as many roots as there are layers, and the last one is
the hash of the others. -/
def acceptsCommits (v : Verifier) (commits : Commits) : Bool :=
  decide (commits.roots.length =
      ((v.clusterSize + v.expanders.k) * .ofNat idleSetLen + 1).toUInt64.toNat) &&
    decide (commits.roots.getLast? = some (T.sha256 commits.roots.dropLast.flatten).val)

/-- `receive_commits`. -/
def receiveCommits (s : Tables) (id : List UInt8) (commits : Commits) : Bool × Tables :=
  match s.verifier.nodeOf id with
  | none => (false, s)
  | some node =>
    if node.id = id ∧ acceptsCommits T s.verifier commits = true then
      (true, s.putNode id { node with commitBuf := commits })
    else (false, s)

/-- `gen_range(0..bound)`, which panics on an empty range. -/
def genRange (bound : Int64) (draw : ℕ) : Except Error Int64 :=
  if bound ≤ 0 then .error .panic else .ok (.ofNat (draw % bound.toInt.toNat))

/-- `row[i] = x`. -/
def setAt (row : List Int64) (i : ℕ) (x : Int64) : Except Error (List Int64) :=
  if i < row.length then .ok (row.set i x) else .error .panic

/-- `vec![0; size]`, which panics when the vector is larger than an allocation may be. -/
def zeros (size : ℕ) : Except Error (List Int64) :=
  if 2 ^ 63 ≤ 8 * size then .error .panic else .ok (List.replicate size 0)

/-- A round of the loop of `commit_challenges`. -/
def challengeRow (v : Verifier) (start : Int64) (draw : ℕ → ℕ → ℕ) (i : ℕ) :
    Except Error (List Int64) := do
  let clusterSize := v.clusterSize.toUInt64
  let row ← zeros (v.expanders.k + v.clusterSize + 1).toUInt64.toNat
  let row ← setAt row 0 (start + .ofNat i + 1)
  let row ← (List.range v.clusterSize.toInt.toNat).foldlM (fun row j => do
    let r ← genRange v.expanders.n (draw i (j + 1))
    setAt row (j + 1) (r + v.expanders.n * v.expanders.k)) row
  let r ← genRange v.expanders.n (draw i (clusterSize + 1).toNat)
  let row ← setAt row (clusterSize + 1).toNat (r + v.expanders.n * (v.expanders.k - 1))
  row.zipIdx.mapM fun p =>
    if p.2 < (clusterSize + 2).toNat then pure p.1
    else genRange (v.expanders.d + 1) (draw i p.2)

/-- `commit_challenges`. -/
def commitChallenges (v : Verifier) (draw : ℕ → ℕ → ℕ) (id : List UInt8) :
    Except Error (List (List Int64)) :=
  match v.nodeOf id with
  | none => .error (.bail "generate commit challenges error: prover node not found.")
  | some node => do
    let first ← unwrap node.commitBuf.fileIndexs[0]?
    -- the two divisions that panic
    if v.clusterSize = 0 ∨ (v.clusterSize = -1 ∧ first - 1 = Int64.minValue) then .error .panic
    else (List.range idleSetLen).mapM (challengeRow v ((first - 1) / v.clusterSize) draw)

/-- The accumulator of a status, filled up with zeros in front. -/
def padAcc (acc : List UInt8) : List UInt8 := List.replicate (256 - acc.length) 0 ++ acc

/-- The node of a miner after `logout_prover_node`. -/
def loggedOut (node : ProverNode) (record : Record) : ProverNode :=
  { node with
    commitBuf := noCommits
    record := some { record with key := { n := 0, g := 0 }, acc := [] } }

/-- `logout_prover_node`.  The node stays in the table. -/
def logoutProverNode (s : Tables) (id : List UInt8) :
    Except Error (List UInt8 × Int64 × Int64) × Tables :=
  match s.verifier.nodeOf id with
  | none => (.ok ([], 0, 0), s)
  | some node =>
    match node.record with
    | none => (.error (.bail "Record not found"), s)
    | some record =>
      (.ok (padAcc record.acc, record.front, record.rear), s.putNode id (loggedOut node record))

/-- The outcome of a check that may change the nodes. -/
def Tables.check {α : Type} (s : Tables) (x : VerifierM α) : Except Error α × Tables :=
  match x.run s.verifier with
  | .ok a v => (.ok a, { s with verifier := v })
  | .error e v => (.error e, { s with verifier := v })

/-- The operations. -/
def exec : (op : TableOp) → Tables → op.Reply × Tables
  | .isLogout id, s => ((s.verifier.nodeOf id).isNone, s)
  | .registerProverNodeEmpty id, s =>
    ((), s.putNode id { id := id, commitBuf := noCommits, record := none })
  | .receiveCommits id commits, s => receiveCommits T s id commits
  | .commitChallenges id draw, s => (commitChallenges s.verifier draw id, s)
  | .insertChals id chals, s => ((), { s with chals := s.chals.insert id chals })
  | .commitBuf id, s => ((s.verifier.nodeOf id).map ProverNode.commitBuf, s)
  | .insertNode id node, s => ((), s.putNode id node)
  | .removeChals id, s => (s.chals.lookup id, { s with chals := s.chals.erase id })
  | .verifyCommitProofs id draw chals proofs, s =>
    (Pois.verifyCommitProofs T.toParams s.verifier draw id chals proofs, s)
  | .verifyAcc id chals proof, s => s.check (Pois.verifyAcc T.toParams id chals proof)
  | .verifyDeletion id proof, s => s.check (Pois.verifyDeletion T.toParams id proof)
  | .logoutProverNode id, s => logoutProverNode s id

/-! ## The certifier -/

/-- A handler of the certifier. -/
abbrev Handler (α : Type) := Prog TableOp TableOp.Reply Failure α

/-- An operation. -/
def call (op : TableOp) : Handler op.Reply := Prog.call op

/-- A check without operations. -/
def ensure {α : Type} (x : Except Failure α) : Handler α := Prog.lift x

/-- The error of a check as a status; a panic stays one. -/
def mapError {α : Type} (status : String → Failure) : Except Error α → Except Failure α
  | .ok a => .ok a
  | .error (.bail message) => .error (status message)
  | .error .panic => .error .panic

/-- `request_miner_commit_gen_chall` from the registration of the miner on. -/
def commitGenChall (draws : Draws) (minerId : List UInt8) (commits : Commits) :
    Handler Response := do
  call (.registerProverNodeEmpty minerId)
  let received : Bool ← call (.receiveCommits minerId commits)
  if received = false then
    let out ← call (.logoutProverNode minerId)
    let _ ← ensure (mapError
      (fun e => .status .invalidArgument ("logout_prover_node() error: " ++ e)) out)
    Prog.fail (.status .invalidArgument "The commit submitted by the miner is wrong")
  else
    let made ← call (.commitChallenges minerId draws.challenge)
    match made with
    | .error .panic => Prog.fail .panic
    | .error (.bail e) =>
      let out ← call (.logoutProverNode minerId)
      let _ ← ensure (mapError
        (fun e => .status .internal ("logout_prover_node() error: " ++ e)) out)
      Prog.fail (.status .internal e)
    | .ok chals =>
      call (.insertChals minerId chals)
      match T.podr2Sign (T.sha256 (T.encodeChallenge chals)).val with
      | .error e => Prog.fail (.status .internal ("Get TeeWorker fail:" ++ e))
      | .ok sign => pure (.challenge chals sign)

/-- `request_miner_commit_gen_chall`. -/
def requestMinerCommitGenChall (draws : Draws) (req : RequestMinerCommitGenChall) :
    Handler Response := do
  ensure (checkAddress req.minerId)
  ensure (checkMinerSign T req.minerId req.minerSign (T.encodeCommitGen { req with minerSign := [] }))
  let commits ← ensure (orStatus req.commit .invalidArgument
    "Miner request data is invalid, loss parameter 'commit'")
  commitGenChall T draws req.minerId commits

/-- What `request_verify_commit_proof` checks of a request before it changes a table: the status is
one that a TEE signed, and there are commit proofs. -/
def commitRequest (req : RequestVerifyCommitAndAccProof) :
    Except Failure (PoisInfo × List (List CommitProof)) := do
  let info ← orStatus req.poisInfo .invalidArgument
    "Miner request data is invalid, loss parameter 'pois_info'"
  let keyInfo ← minerKeyInfo req.minerId info
  verifyPoisStatusSignature T keyInfo info.statusTeeSign
  let group ← orStatus req.commitProofGroup .invalidArgument
    "Miner request data is invalid, loss parameter 'commit_proof_group'"
  let proofs ← convertToCommitProofs group
  pure (info, proofs)

/-- The end of a verification: the miner is logged out and its status is signed. -/
def signStatus (minerId : List UInt8) (info : PoisInfo) : Handler Response := do
  let out ← call (.logoutProverNode minerId)
  let state ← ensure (mapError (fun e => .status .invalidArgument
    ("Error when verify proof and sig the result fail:" ++ e.quote)) out)
  let response ← ensure (getPoisStatusAndSignature T state.1 state.2.1 state.2.2 info.keyN info.keyG
    minerId)
  pure (.status response)

/-- `request_verify_commit_proof` after the challenge was taken from its table. -/
def answerChallenge (draws : Draws) (minerId : List UInt8) (accProof : Option AccProof)
    (info : PoisInfo) (proofs : List (List CommitProof)) (chals : List (List Int64)) :
    Handler Response := do
  let verified ← call (.verifyCommitProofs minerId draws.dependencies chals proofs)
  ensure (mapError (fun e => .status .invalidArgument
    ("Error when verify commit :" ++ e.quote)) verified)
  let accProof ← ensure (orStatus accProof .invalidArgument
    "Miner request data is invalid, loss parameter 'acc_proof'")
  let verified ← call (.verifyAcc minerId chals accProof)
  ensure (mapError (fun e => .status .invalidArgument
    ("Error when verify acc :" ++ e.quote)) verified)
  signStatus T minerId info

/-- `request_verify_commit_proof` from `update_prover_node_force` on. -/
def verifyCommitProof (draws : Draws) (minerId : List UInt8) (accProof : Option AccProof)
    (info : PoisInfo) (proofs : List (List CommitProof)) : Handler Response := do
  let buffer ← call (.commitBuf minerId)
  let buffer ← ensure (orPanic buffer)
  call (.insertNode minerId { proverNode minerId info with commitBuf := buffer })
  let chals ← call (.removeChals minerId)
  let chals ← ensure (orStatus chals .dataLoss
    "This miner does not have a corresponding commit challenge")
  answerChallenge T draws minerId accProof info proofs chals

/-- What follows `is_logout`. -/
def checkKnown (minerId : List UInt8) (logout : Bool) : Except Failure Unit :=
  if logout = true then
    .error (.status .unauthenticated
      ("This tee never know the miner " ++ toString (minerId.map UInt8.toNat)))
  else .ok ()

/-- `request_verify_commit_proof`. -/
def requestVerifyCommitProof (draws : Draws) (req : RequestVerifyCommitAndAccProof) :
    Handler Response := do
  ensure (checkAddress req.minerId)
  let logout ← call (.isLogout req.minerId)
  ensure (checkKnown req.minerId logout)
  ensure (checkMinerSign T req.minerId req.minerSign
    (T.encodeVerifyCommit { req with minerSign := [] }))
  let (info, proofs) ← ensure (commitRequest T req)
  verifyCommitProof T draws req.minerId req.accProof info proofs

/-- What `request_verify_deletion_proof` checks of a request before it changes a table. -/
def deletionRequest (req : RequestVerifyDeletionProof) :
    Except Failure (PoisInfo × DeletionProof) := do
  let proof ← convertToDeletionProof req
  let info ← orStatus req.poisInfo .invalidArgument "Miner send invalid parameter,loss 'pois_info'"
  let keyInfo ← minerKeyInfo req.minerId info
  verifyPoisStatusSignature T keyInfo info.statusTeeSign
  pure (info, proof)

/-- `request_verify_deletion_proof` from `register_prover_node` on. -/
def verifyDeletionProof (minerId : List UInt8) (info : PoisInfo) (proof : DeletionProof) :
    Handler Response := do
  call (.insertNode minerId (proverNode minerId info))
  let verified ← call (.verifyDeletion minerId proof)
  ensure (mapError (fun e => .status .invalidArgument ("Failed to delete proof :" ++ e)) verified)
  signStatus T minerId info

/-- `request_verify_deletion_proof`. -/
def requestVerifyDeletionProof (req : RequestVerifyDeletionProof) : Handler Response := do
  ensure (checkAddress req.minerId)
  ensure (checkMinerSign T req.minerId req.minerSign (T.encodeDeletion { req with minerSign := [] }))
  let (info, proof) ← ensure (deletionRequest T req)
  verifyDeletionProof T req.minerId info proof

/-- The requests to the certifier that use its tables. -/
inductive Request where
  | commitGenChall (req : RequestMinerCommitGenChall)
  | verifyCommitProof (req : RequestVerifyCommitAndAccProof)
  | verifyDeletionProof (req : RequestVerifyDeletionProof)

/-- The program of a request. -/
def handler (arrival : Request × Draws) : Handler Response :=
  match arrival.1 with
  | .commitGenChall req => requestMinerCommitGenChall T arrival.2 req
  | .verifyCommitProof req => requestVerifyCommitProof T arrival.2 req
  | .verifyDeletionProof req => requestVerifyDeletionProof T req

/-! ## The verifier -/

/-- `request_space_proof_verify_single_block`, for the draws of the batch check. -/
def requestSpaceProofVerifySingleBlock (draw : ℕ → ℕ) (req : RequestSpaceProofVerify) :
    Except Failure Response := do
  let info ← orStatus req.poisInfo .invalidArgument
    "Miner request data is invalid, loss parameter 'pois_info'"
  let proof ← orStatus req.proof .invalidArgument "Error space proof missing proof"
  checkAddress req.minerId
  let hash := (T.sha256 (T.encodeSpaceProof proof)).val
  match verifySignature T req.minerId req.minerSpaceProofHashPolkadotSig hash with
  | .error e => .error (.status .internal ("Error happened when verify space proof hash :" ++ e))
  | .ok false =>
    .error (.status .unauthenticated
      "The space proof signature verification provided by the miner failed!")
  | .ok true => do
    let signed : ProofHashAndLeftRight :=
      { spaceProofHash := hash, left := proof.left, right := proof.right, teeId := T.identityKey.val }
    mapError (fun e => .status .invalidArgument ("Error space proof verify fail:" ++ e))
      (verifySpace T.toParams draw (proverNode req.minerId info) req.spaceChals proof)
    match T.podr2Sign (T.sha256 (T.encodeProofHash signed)).val with
    | .error e =>
      .error (.status .internal ("Error space proof verify compute signature fail:" ++ e))
    | .ok signature => .ok (.block signature)

/-- `is_valid_proof`. -/
def isValidProof (proof : ProofHashAndLeftRight) (signature : List UInt8) : Bool :=
  let signed := { proof with teeId := T.identityKey.val }
  T.podr2Verify (T.sha256 (T.encodeProofHash signed)).val signature &&
    decide (¬ proof.right ≤ proof.left)

/-- The loop of `request_verify_space_total` over the sorted blocks: whether all are accepted, and
the hashes that enter the total. -/
def checkBlocks (handle : ChallengeHandle) (prior : List UInt8) :
    List (ProofHashAndLeftRight × List UInt8) → Except Failure (Bool × List UInt8)
  | [] => .ok (true, [])
  | (proof, signature) :: rest => do
    let answer ← mapError (fun e => .status .internal e)
      (handle.call T.toParams prior proof.left proof.right)
    if answer.1 = true then
      if isValidProof T proof signature = true then do
        let out ← checkBlocks answer.2 proof.spaceProofHash rest
        .ok (out.1, proof.spaceProofHash ++ out.2)
      else .ok (false, [])
    else .ok (false, [])

/-- `request_verify_space_total`. -/
def requestVerifySpaceTotal (req : RequestSpaceProofVerifyTotal) : Except Failure Response := do
  let minerId ← orStatus (toBytes 32 req.minerId) .invalidArgument
    "The length of miner_id should be 38!"
  let acc ← orStatus (toBytes 256 req.acc) .invalidArgument "The length of acc should be 256!"
  if req.spaceChals.length ≠ 8 then
    .error (.status .invalidArgument "space_chals parameters passed incorrectly!")
  else do
    let blocks ← req.proofList.mapM convertToBlocksProof
    let blocks := blocks.mergeSort fun a b => decide (a.1.left ≤ b.1.left)
    if blocks.length = 0 then
      .error (.status .invalidArgument "Please pass in the correct length of proof_list!")
    else
      match newChallengeHandle minerId.val (List.replicate 32 0) req.spaceChals req.front req.rear
          (.ofNat req.proofList.length) with
      | none =>
        .error (.status .unauthenticated
          "Verify miner challenge failed, challenge handle create fail!")
      | some handle => do
        let out ← checkBlocks T handle [] blocks
        let signed : TotalMember :=
          { minerId := minerId
            totalProofHash := (T.sha256 out.2).val
            front := req.front.toUInt64
            rear := req.rear.toUInt64
            acc := acc
            spaceChals := req.spaceChals.map Int64.toUInt64
            result := out.1
            teeAcc := T.identityKey }
        .ok (.total signed (T.masterSign (T.sha256 (T.encodeTotal signed)).val))

end PoisServer
