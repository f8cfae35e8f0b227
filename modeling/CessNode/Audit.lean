/-
# The audit

The model of `pallets/audit`: every ten blocks a miner is drawn and challenged to prove its
idle and its service space (`generateChallenge`); the miner submits its proofs and the results
that the workers have signed for them; a challenge without a proof of the service space by its
deadline costs collateral (`clearChallenge`); and at the end of its time a challenge is removed
or given to other workers (`clearVerifyMission`).

A block hook iterates over the entries filed for the block; its two loops are modelled round by
round, one miner at a time.  The root calls for tests are left out.
-/
import CessNode.SminerCalls

open Dispatch Chain
open Sminer (wrappingAdd)

namespace Audit

/-! ## Constants -/

/-- `SERVICE_PROVE_RATE`. -/
def serviceProveRate : ℕ := 25165824

/-- `IDLE_PROVE_RATE`. -/
def idleProveRate : ℕ := 203613264

/-- `IDLE_VERIFY_RATE`. -/
def idleVerifyRate : ℕ := 2147483648

/-- `SERVICE_FAULT_TOLERANT`. -/
def serviceFaultTolerant : ℕ := 2

/-- A saturating addition of `w` bits. -/
def saturatingAdd (w a b : ℕ) : ℕ := min (a + b) (2 ^ w - 1)

variable (T : Config)

/-- Stop with an error of the pallet unless there is a value. -/
def orElse {α : Type} (o : Option α) (e : Error) : ChainM T α := okOr o (.audit e)

/-- A change of the storage of the pallet. -/
def modifyStorage (f : Storage T → Storage T) : ChainM T Unit :=
  modify fun w => { w with audit := f w.audit }

/-- `ChallengeSnapShot::insert`. -/
def putChallenge (miner : T.AccountId) (info : ChallengeInfo T) : ChainM T Unit :=
  modifyStorage T fun s => { s with challengeSnapShot := s.challengeSnapShot.insert miner info }

/-! ## Random numbers -/

variable {T} in
/-- The random hash of a seed in this block. -/
def randomHash (w : World T) (seed : ℕ) : H256 := (T.auditRandom w.now seed).getD H256.zero

variable {T} in
/-- `random_number`: the first eight bytes of the random hash, the lowest first. -/
def randomNumber (w : World T) (seed : ℕ) : ℕ :=
  ((randomHash w seed).val.take 8).foldr (fun byte n => byte.toNat + 256 * n) 0

variable {T} in
/-- `generate_challenge_random`: the first twenty bytes of a random hash. -/
def generateChallengeRandom (w : World T) (seed : ℕ) : Bytes 20 :=
  let hash := randomHash w (wrappingAdd 32 seed 1)
  ⟨hash.val.take 20, by rw [List.length_take, hash.property]; rfl⟩

variable {T} in
/-- `random_select_tee_acc`, with the mask zero. -/
def randomSelectTeeAcc (w : World T) : Except Error T.WorkerPublicKey :=
  let teeList := T.getPubkeyList w.outside
  match teeList[randomNumber w w.now % 2 ^ 32 % teeList.length]? with
  | some teePuk => .ok teePuk
  | none => .error .systemError

/-- A loop of `generate_miner_qelement`: draw with increasing seeds until there are `need`
different values, at most `fuel` times.  The result is the values and the last seed. -/
def drawDistinct {α : Type} [DecidableEq α] (draw : ℕ → α) (need : ℕ) :
    (fuel seed : ℕ) → List α → Option (List α × ℕ)
  | 0, seed, list => if list.length < need then none else some (list, seed)
  | fuel + 1, seed, list =>
    if list.length < need then do
      let seed ← checkedAdd 32 seed 1
      let value := draw seed
      drawDistinct draw need fuel seed (if value ∈ list then list else list ++ [value])
    else some (list, seed)

variable {T} in
/-- `generate_miner_qelement`. -/
def generateMinerQelement (w : World T) (seed : ℕ) : Option QElement := do
  let need := chunkCount * 46 / 1000
  let (indexes, seed) ←
    drawDistinct (fun seed => randomNumber w seed % chunkCount) need (need * 3) seed []
  let (values, _) ← drawDistinct (generateChallengeRandom w) need (need * 3) seed []
  let randomIndexList ← BoundedVec.tryFrom 1024 indexes
  let randomList ← BoundedVec.tryFrom 1024 values
  pure { randomIndexList := randomIndexList, randomList := randomList }

variable {T} in
/-- The loop of `generate_miner_space_param`: the numbers for the elements that are left.  The
seed stays the same after a number that was drawn before, so that it is drawn again until the
limit of the inner loop is reached. -/
def drawParams (w : World T) (n d : ℕ) : (left seed : ℕ) → List ℕ → Option (List ℕ)
  | 0, _, list => some list
  | left + 1, seed, list => do
    let seed ← checkedAdd 32 seed 1
    if n = 0 then none
    else
      let base ← checkedMul 64 n d
      let random ← checkedAdd 64 base (randomNumber w seed % n)
      if random ∈ list then none else drawParams w n d left seed (list ++ [random])

variable {T} in
/-- `generate_miner_space_param`. -/
def generateMinerSpaceParam (w : World T) (seed : ℕ) : Option SpaceChallengeParam := do
  let (_, n, d) ← w.miner.expenders
  let seed ← checkedMul 32 seed 5
  let list ← drawParams w n d 8 seed []
  if h : list.length = 8 then some ⟨list, h⟩ else none

/-! ## Challenges -/

variable {T} in
/-- The challenge made in this block, if any: the miner, the block at which a missing proof is
punished, and the challenge itself. -/
def newChallenge (w : World T) : Option (T.AccountId × ℕ × ChallengeInfo T) := do
  guard (¬ w.now < min (T.oneDay * 3) (2 ^ 32 - 1))
  guard (w.now % 10 = 0)
  let minerList := w.miner.allMiner
  let miner ← minerList[randomNumber w w.now % minerList.length]?
  guard (¬ miner ∈ w.audit.challengeSnapShot)
  let info ← w.miner.minerItems.lookup miner
  let proof ← info.spaceProofInfo
  guard (wrappingAdd 128 info.idleSpace info.serviceSpace ≠ 0)
  let serviceParam ← generateMinerQelement w w.now
  let spaceParam ← generateMinerSpaceParam w w.now
  let idleLife := saturatingAdd 128 (info.idleSpace / idleProveRate) 50 % 2 ^ 32
  let idleSlip := saturatingAdd 32 w.now idleLife
  let serviceLife := saturatingAdd 128 (info.serviceSpace / serviceProveRate) 50 % 2 ^ 32
  let serviceSlip := saturatingAdd 32 w.now serviceLife
  let maxSlip := if idleSlip > serviceSlip then idleSlip else serviceSlip
  let teeLength := (T.getPubkeyList w.outside).length
  guard (teeLength ≠ 0)
  let verifyLife :=
    saturatingAdd 128 info.idleSpace info.serviceSpace / idleVerifyRate / teeLength % 2 ^ 32
  let verifySlip := saturatingAdd 32 (saturatingAdd 32 maxSlip verifyLife) T.oneHours
  pure (miner, maxSlip,
    { minerSnapshot :=
        { idleSpace := info.idleSpace, serviceSpace := info.serviceSpace,
          serviceBloomFilter := info.serviceBloomFilter, spaceProofInfo := proof,
          teeSignature := info.teeSignature }
      challengeElement :=
        { start := w.now, idleSlip := idleSlip, serviceSlip := serviceSlip,
          verifySlip := verifySlip, spaceParam := spaceParam, serviceParam := serviceParam }
      proveInfo := { assign := 0, idleProve := none, serviceProve := none } })

/-- `generate_challenge`. -/
def generateChallenge : ChainM T Unit := do
  match newChallenge (← get) with
  | none => pure ()
  | some (miner, maxSlip, info) => do
    putChallenge T miner info
    modifyStorage T fun s =>
      { s with
        challengeSlip := s.challengeSlip.insert (maxSlip, miner) true
        verifySlip := s.verifySlip.insert (info.challengeElement.verifySlip, miner) true }
    depositEvent T (.generateChallenge miner)

/-- The end of a round of `clear_challenge`: the miner is thrown out, or the count is stored.  The
result of the exit is dropped. -/
def countMissed (miner : T.AccountId) (count : ℕ) : ChainM T Unit := do
  if count ≥ 30 then do
    attempt (Sminer.forceMinerExit T miner)
    modifyStorage T fun s => { s with countedClear := s.countedClear.erase miner }
  else
    modifyStorage T fun s => { s with countedClear := s.countedClear.insert miner count }

/-- The punishment in a round of `clear_challenge`, for the `count`-th missed challenge in a
row.  Its result is dropped as well. -/
def punishMissed (miner : T.AccountId) (snapshot : MinerSnapShot T) (count : ℕ) :
    ChainM T Unit := do
  if count > 1 then
    attempt (Sminer.clearPunish T miner snapshot.idleSpace snapshot.serviceSpace count)
  countMissed T miner count

/-- A round of `clear_challenge`. -/
def clearChallenge (miner : T.AccountId) : ChainM T Unit := do
  let w ← get
  match w.audit.challengeSnapShot.lookup miner with
  | none => pure ()
  | some info =>
    if info.proveInfo.serviceProve.isNone then
      let counted := (w.audit.countedClear.lookup miner).getD 0
      punishMissed T miner info.minerSnapshot ((checkedAdd 8 counted 1).getD 3)
  modifyStorage T fun s => { s with challengeSlip := s.challengeSlip.erase (w.now, miner) }

variable {T} in
/-- The flag of `clear_verify_mission`: the challenge is over. -/
def ProveInfo.isOver (info : ProveInfo T) : Bool :=
  let flag := match info.idleProve with
    | some idleProve => idleProve.verifyResult.isSome
    | none => true
  let flag := match info.serviceProve with
    | some serviceProve => if serviceProve.verifyResult.isNone then false else flag
    | none => flag
  let flag := if info.assign ≥ 2 then true else flag
  if info.idleProve.isNone && info.serviceProve.isNone then true else flag

variable {T} in
/-- The challenge for the workers drawn in this block, with a new end. -/
def ChallengeInfo.reassign (w : World T) (info : ChallengeInfo T) : ChallengeInfo T :=
  let snapshot := info.minerSnapshot
  let maxSpace :=
    if snapshot.idleSpace > snapshot.serviceSpace then snapshot.idleSpace
    else snapshot.serviceSpace
  let verifyLife := saturatingAdd 128 (maxSpace / idleVerifyRate) T.oneHours % 2 ^ 32
  { info with
    challengeElement :=
      { info.challengeElement with verifySlip := saturatingAdd 32 w.now verifyLife }
    proveInfo :=
      { assign := wrappingAdd 8 info.proveInfo.assign 1
        idleProve := info.proveInfo.idleProve.map fun prove =>
          match randomSelectTeeAcc w with
          | .ok teePuk => { prove with teePuk := teePuk }
          | .error _ => prove
        serviceProve := info.proveInfo.serviceProve.map fun prove =>
          match randomSelectTeeAcc w with
          | .ok teePuk => { prove with teePuk := teePuk }
          | .error _ => prove } }

/-- A round of `clear_verify_mission`. -/
def clearVerifyMission (miner : T.AccountId) : ChainM T Unit := do
  let w ← get
  match w.audit.challengeSnapShot.lookup miner with
  | none => pure ()
  | some info =>
    if info.proveInfo.isOver then
      modifyStorage T fun s =>
        { s with
          verifySlip := s.verifySlip.erase (w.now, miner)
          challengeSnapShot := s.challengeSnapShot.erase miner }
    else
      let info := info.reassign w
      modifyStorage T fun s =>
        { s with
          verifySlip := (s.verifySlip.erase (w.now, miner)).insert
            (info.challengeElement.verifySlip, miner) true
          challengeSnapShot := s.challengeSnapShot.insert miner info }

/-! ## Calls -/

/-- `ChallengeSnapShot::try_mutate`. -/
def mutateChallenge (miner : T.AccountId) (f : ChallengeInfo T → ChainM T (ChallengeInfo T)) :
    ChainM T Unit :=
  tryMutate (fun w : World T => w.audit.challengeSnapShot.lookup miner)
    (fun info w =>
      { w with
        audit := { w.audit with
          challengeSnapShot := w.audit.challengeSnapShot.insert miner info } })
    (.audit .noChallenge) fun info => do pure ((), ← f info)

/-- The worker drawn for a new proof. -/
def selectTee : ChainM T T.WorkerPublicKey := do
  match randomSelectTeeAcc (← get) with
  | .ok teePuk => pure teePuk
  | .error e => throw (.audit e)

/-- `CountedClear::insert` of zero. -/
def resetCountedClear (miner : T.AccountId) : ChainM T Unit :=
  modifyStorage T fun s => { s with countedClear := s.countedClear.insert miner 0 }

/-- `submit_idle_proof`. -/
def submitIdleProof (sender : T.AccountId) (idleProve : BoundedVec UInt8 T.idleTotalHashLength) :
    ChainM T Unit := do
  mutateChallenge T sender fun info => do
    let now := (← get).now
    ensure (¬ now > info.challengeElement.idleSlip) (.audit .expired)
    ensure (info.proveInfo.idleProve.isNone = true) (.audit .submitted)
    let teePuk ← selectTee T
    if info.proveInfo.serviceProve.isSome then resetCountedClear T sender
    pure { info with
      proveInfo := { info.proveInfo with
        idleProve := some { teePuk := teePuk, idleProve := idleProve, verifyResult := none } } }
  depositEvent T (.submitIdleProof sender)

/-- `submit_service_proof`. -/
def submitServiceProof (sender : T.AccountId) (serviceProve : BoundedVec UInt8 T.sigmaMax) :
    ChainM T Unit := do
  mutateChallenge T sender fun info => do
    let now := (← get).now
    ensure (¬ now > info.challengeElement.serviceSlip) (.audit .expired)
    ensure (info.proveInfo.serviceProve.isNone = true) (.audit .submitted)
    let teePuk ← selectTee T
    if info.proveInfo.idleProve.isSome then resetCountedClear T sender
    pure { info with
      proveInfo := { info.proveInfo with
        serviceProve :=
          some { teePuk := teePuk, serviceProve := serviceProve, verifyResult := none } } }
  depositEvent T (.submitServiceProof sender)

/-- The checks on a result that both submissions make: the worker may verify, and the master
key has signed the message. -/
def verifyResult (teePuk : T.WorkerPublicKey) (signature : BoundedVec UInt8 64)
    (message : Message T.AccountId T.WorkerPublicKey) : ChainM T Unit := do
  let w ← get
  ensure (T.canVerify w.outside teePuk = true) (.audit .teeNoPermission)
  let sig ← orElse T (FileBank.toSignature signature) .malformedSignature
  ensure (T.verifyResultSig w.outside sig message = true) (.audit .verifyTeeSigFailed)

/-- `update_work_block`, in this block. -/
def updateWorkBlock (teePuk : T.WorkerPublicKey) : ChainM T Unit := do
  let now := (← get).now
  updateOutside T .teeWorker fun outside => T.updateWorkBlock outside now teePuk

/-- The points a worker earns for a result. -/
def increasePoint (teePuk : T.WorkerPublicKey) (space : ℕ) : ChainM T Unit := do
  let w ← get
  let bondStash ← okOr (T.getStash w.outside teePuk) .teeWorker
  updateOutside T .credit fun outside => T.increasePointForIdleVerify outside bondStash space

/-- The snapshot of a challenge with both results, once the second one is there. -/
def recordPassed (sender : T.AccountId) (snapshot : MinerSnapShot T) (result : Bool)
    (other : Option Bool) : ChainM T Unit :=
  if result = true ∧ other = some true then
    Sminer.recordSnapShot T sender snapshot.idleSpace snapshot.serviceSpace
  else pure ()

variable {T} in
/-- `check_idle_verify_param`. -/
def checkIdleVerifyParam (idleResult : Bool) (front rear : ℕ) (totalProveHash : List UInt8)
    (accumulator : Accumulator) (snapshot : MinerSnapShot T) (mTotalProveHash : List UInt8) :
    Bool :=
  idleResult && decide (accumulator = snapshot.spaceProofInfo.accumulator) &&
    decide (rear = snapshot.spaceProofInfo.rear) &&
    decide (front = snapshot.spaceProofInfo.front) && decide (totalProveHash = mTotalProveHash)

/-- `submit_verify_idle_result`. -/
def submitVerifyIdleResult (sender : T.AccountId)
    (totalProveHash : BoundedVec UInt8 T.idleTotalHashLength) (front rear : ℕ)
    (accumulator : Accumulator) (idleResult : Bool) (signature : BoundedVec UInt8 64)
    (teePuk : T.WorkerPublicKey) : ChainM T Unit :=
  mutateChallenge T sender fun info => do
    let idleProve ← orElse T info.proveInfo.idleProve .unSubmitted
    ensure (teePuk = idleProve.teePuk) (.audit .nonExistentMission)
    ensure (idleProve.verifyResult.isNone = true) (.audit .submitted)
    let snapshot := info.minerSnapshot
    verifyResult T teePuk signature (.idle
      { miner := sender, minerProve := totalProveHash.val, front := snapshot.spaceProofInfo.front,
        rear := snapshot.spaceProofInfo.rear, accumulator := snapshot.spaceProofInfo.accumulator,
        spaceChallengeParam := info.challengeElement.spaceParam, result := idleResult,
        teePuk := teePuk })
    updateWorkBlock T teePuk
    let idleResult := checkIdleVerifyParam idleResult front rear totalProveHash.val accumulator
      snapshot idleProve.idleProve.val
    recordPassed T sender snapshot idleResult
      (info.proveInfo.serviceProve.bind ServiceProveInfo.verifyResult)
    let count ← orElse T (checkedSub snapshot.spaceProofInfo.rear snapshot.spaceProofInfo.front)
      .overflow
    let space ← orElse T (checkedMul 128 idleSegSize count) .overflow
    increasePoint T teePuk space
    depositEvent T (.submitIdleVerifyResult teePuk sender idleResult)
    pure { info with
      proveInfo := { info.proveInfo with
        idleProve := some { idleProve with verifyResult := some idleResult } } }

/-- The count of failed service proofs, and the punishment for a second one in a row. -/
def countServiceResult (sender : T.AccountId) (snapshot : MinerSnapShot T) (result : Bool) :
    ChainM T Unit := do
  if result then
    modifyStorage T fun s =>
      { s with countedServiceFailed := s.countedServiceFailed.insert sender 0 }
  else
    let counted := ((← get).audit.countedServiceFailed.lookup sender).getD 0
    let count := (checkedAdd 32 counted 1).getD serviceFaultTolerant
    if count ≥ serviceFaultTolerant then
      Sminer.servicePunish T sender snapshot.serviceSpace snapshot.serviceSpace
    modifyStorage T fun s =>
      { s with countedServiceFailed := s.countedServiceFailed.insert sender count }

/-- `submit_verify_service_result`. -/
def submitVerifyServiceResult (sender : T.AccountId) (serviceResult : Bool)
    (signature : BoundedVec UInt8 64) (serviceBloomFilter : Sminer.BloomFilter)
    (teePuk : T.WorkerPublicKey) : ChainM T Unit :=
  mutateChallenge T sender fun info => do
    let serviceProve ← orElse T info.proveInfo.serviceProve .unSubmitted
    ensure (teePuk = serviceProve.teePuk) (.audit .nonExistentMission)
    ensure (serviceProve.verifyResult.isNone = true) (.audit .submitted)
    let snapshot := info.minerSnapshot
    verifyResult T teePuk signature (.service
      { miner := sender, teePuk := teePuk, minerProve := serviceProve.serviceProve.val,
        result := serviceResult, chal := info.challengeElement.serviceParam,
        serviceBloomFilter := snapshot.serviceBloomFilter })
    ensure (serviceBloomFilter = snapshot.serviceBloomFilter) (.audit .bloomFilterError)
    updateWorkBlock T teePuk
    recordPassed T sender snapshot serviceResult
      (info.proveInfo.idleProve.bind IdleProveInfo.verifyResult)
    countServiceResult T sender snapshot serviceResult
    increasePoint T teePuk snapshot.serviceSpace
    depositEvent T (.submitServiceVerifyResult teePuk sender serviceResult)
    pure { info with
      proveInfo := { info.proveInfo with
        serviceProve := some { serviceProve with verifyResult := some serviceResult } } }

/-- A dispatchable call with its origin. -/
inductive Call where
  | submitIdleProof (sender : T.AccountId) (idleProve : BoundedVec UInt8 T.idleTotalHashLength)
  | submitServiceProof (sender : T.AccountId) (serviceProve : BoundedVec UInt8 T.sigmaMax)
  | submitVerifyIdleResult (sender : T.AccountId)
      (totalProveHash : BoundedVec UInt8 T.idleTotalHashLength) (front rear : ℕ)
      (accumulator : Accumulator) (idleResult : Bool) (signature : BoundedVec UInt8 64)
      (teePuk : T.WorkerPublicKey)
  | submitVerifyServiceResult (sender : T.AccountId) (serviceResult : Bool)
      (signature : BoundedVec UInt8 64) (serviceBloomFilter : Sminer.BloomFilter)
      (teePuk : T.WorkerPublicKey)

/-- The code of a call. -/
def Call.code : Call T → ChainM T Unit
  | .submitIdleProof sender idleProve => Audit.submitIdleProof T sender idleProve
  | .submitServiceProof sender serviceProve => Audit.submitServiceProof T sender serviceProve
  | .submitVerifyIdleResult sender totalProveHash front rear accumulator idleResult signature
      teePuk =>
      Audit.submitVerifyIdleResult T sender totalProveHash front rear accumulator idleResult
        signature teePuk
  | .submitVerifyServiceResult sender serviceResult signature serviceBloomFilter teePuk =>
    Audit.submitVerifyServiceResult T sender serviceResult signature serviceBloomFilter teePuk

/-- The account that signs a call. -/
def Call.signer : Call T → T.AccountId
  | .submitIdleProof sender _ => sender
  | .submitServiceProof sender _ => sender
  | .submitVerifyIdleResult sender _ _ _ _ _ _ _ => sender
  | .submitVerifyServiceResult sender _ _ _ _ => sender

end Audit
