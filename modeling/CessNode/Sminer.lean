/-
# Miners

The storage of `pallets/sminer`, and the part of the pallet that the file bank uses
(`MinerControl`): the idle, locked and service space of a miner, the filter over the hashes of
its service fragments, the space it still has to replace, and the restoral targets of miners
that have left.

The counters of the filter are machine words: the runtime is built without overflow checks,
so that its additions and subtractions wrap around.  The collateral, the rewards and the calls
of the pallet itself work on other pallets as well; they are in `SminerCalls`.
-/
import CessNode.StorageMap
import CessNode.Dispatch
import CessNode.Common

open Dispatch

namespace Sminer

/-! ## The filter -/

/-- `BloomFilter`: 256 counters. -/
abbrev BloomFilter := Fin 256 → UInt64

namespace BloomFilter

/-- `BloomFilter::insert`: count every bit of the element. -/
def insert (filter : BloomFilter) (elem : Fin 256 → UInt8) : Option BloomFilter :=
  if ∀ i, elem i = 1 ∨ elem i = 0 then some fun i => filter i + (elem i).toUInt64 else none

/-- `BloomFilter::delete`: discount every bit of the element. -/
def delete (filter : BloomFilter) (elem : Fin 256 → UInt8) : Option BloomFilter :=
  if ∀ i, elem i = 1 ∨ elem i = 0 then some fun i => filter i - (elem i).toUInt64 else none

end BloomFilter

/-! ## Storage -/

/-- The state of a miner. -/
inductive MinerState where
  | notReady
  | positive
  | frozen
  | exit
  | lock
  | offline
  deriving DecidableEq, Repr

/-- `TeeSig`. -/
abbrev TeeSig := Bytes 64

/-- `MinerInfo`. -/
structure MinerInfo (AccountId : Type) where
  beneficiary : AccountId
  stakingAccount : AccountId
  peerId : PeerId
  collaterals : ℕ
  debt : ℕ
  state : MinerState
  declarationSpace : ℕ
  idleSpace : ℕ
  serviceSpace : ℕ
  lockSpace : ℕ
  spaceProofInfo : Option (SpaceProofInfo AccountId)
  serviceBloomFilter : BloomFilter
  teeSignature : TeeSig

/-- `RELEASE_NUMBER`: the days over which a reward is released, and the bound on the reward
orders and on the snapshots of a miner. -/
def releaseNumber : ℕ := 90

/-- `RewardOrder`. -/
structure RewardOrder where
  receiveCount : ℕ
  maxCount : ℕ
  atonce : Bool
  orderReward : ℕ
  eachAmount : ℕ
  lastReceiveBlock : ℕ

/-- `Reward`. -/
structure Reward where
  totalReward : ℕ
  rewardIssued : ℕ
  orderList : BoundedVec RewardOrder releaseNumber

/-- `RestoralTargetInfo`. -/
structure RestoralTargetInfo (AccountId : Type) where
  miner : AccountId
  serviceSpace : ℕ
  restoredSpace : ℕ
  coolingBlock : ℕ

/-- `CompleteInfo`: the challenges passed in an era. -/
structure CompleteInfo where
  minerCount : ℕ
  totalPower : ℕ

/-- `MinerCompleteInfo`: a challenge passed by a miner. -/
structure MinerCompleteInfo where
  eraIndex : ℕ
  issued : Bool
  finshBlock : ℕ
  power : ℕ

/-- The pallet's errors. -/
inductive Error where
  | notMiner
  | alreadyRegistered
  | stateError
  | collateralNotUp
  | notStakingAcc
  | bugInvalid
  | insufficientStakingPeriod
  | storageLimitReached
  | boundedVecError
  | unexpected
  | verifyTeeSigFailed
  | malformedSignature
  | notExisted
  | overflow
  | notpositiveState
  | countError
  | exceedingDeclarationSpace
  | conversionError
  | bloomElemPushError
  | insufficientReplaceable
  deriving DecidableEq, Repr

variable {AccountId : Type} [DecidableEq AccountId]

/-- The storage of the pallet. -/
structure World (AccountId : Type) where
  minerItems : StorageMap AccountId (MinerInfo AccountId)
  allMiner : List AccountId
  rewardMap : StorageMap AccountId Reward
  expenders : Option (ℕ × ℕ × ℕ)
  minerLock : StorageMap AccountId ℕ
  restoralTarget : StorageMap AccountId (RestoralTargetInfo AccountId)
  stakingStartBlock : StorageMap AccountId ℕ
  pendingReplacements : StorageMap AccountId ℕ
  returnStakingSchedule : StorageMap ℕ (List (AccountId × AccountId × ℕ))
  completeSnapShot : StorageMap ℕ CompleteInfo
  completeMinerSnapShot : StorageMap AccountId (BoundedVec MinerCompleteInfo releaseNumber)

/-- The storage at genesis. -/
def genesis (AccountId : Type) : World AccountId where
  minerItems := ∅
  allMiner := []
  rewardMap := ∅
  expenders := some (80, 1024 * 1024, 64)
  minerLock := ∅
  restoralTarget := ∅
  stakingStartBlock := ∅
  pendingReplacements := ∅
  returnStakingSchedule := ∅
  completeSnapShot := ∅
  completeMinerSnapShot := ∅

/-- Code of the pallet: an error keeps the writes made before it. -/
abbrev MinerM (AccountId : Type) := EStateM Error (World AccountId)

/-- `MinerItems::try_mutate`. -/
def tryMutateMiner {α : Type} (acc : AccountId) (e : Error)
    (f : MinerInfo AccountId → MinerM AccountId (α × MinerInfo AccountId)) : MinerM AccountId α :=
  tryMutate (fun s => s.minerItems.lookup acc)
    (fun m s => { s with minerItems := s.minerItems.insert acc m }) e f

/-- `PendingReplacements::try_mutate`, zero where nothing is stored. -/
def tryMutatePending (miner : AccountId) (f : ℕ → MinerM AccountId ℕ) : MinerM AccountId Unit :=
  tryMutate (fun s => some ((s.pendingReplacements.lookup miner).getD 0))
    (fun v s => { s with pendingReplacements := s.pendingReplacements.insert miner v })
    Error.overflow fun v => do pure ((), ← f v)

/-! ## State of a miner -/

/-- `get_miner_state`. -/
def getMinerState (acc : AccountId) : MinerM AccountId MinerState := do
  let s ← get
  let miner ← okOr (s.minerItems.lookup acc) .notMiner
  pure miner.state

/-- `check_state`, a second copy of the same function. -/
def checkState (acc : AccountId) : MinerM AccountId MinerState := getMinerState acc

/-- `is_positive`. -/
def isPositive (miner : AccountId) : MinerM AccountId Bool := do
  let state ← getMinerState miner
  pure (state = .positive)

/-- `restoral_target_is_exist`. -/
def restoralTargetIsExist (s : World AccountId) (miner : AccountId) : Bool :=
  miner ∈ s.restoralTarget

/-- `update_restoral_target`. -/
def updateRestoralTarget (miner : AccountId) (serviceSpace : ℕ) : MinerM AccountId Unit :=
  tryMutate (fun s => s.restoralTarget.lookup miner)
    (fun info s => { s with restoralTarget := s.restoralTarget.insert miner info })
    .notExisted fun info => do
    let restored ← okOr (checkedAdd 128 info.restoredSpace serviceSpace) .overflow
    pure ((), { info with restoredSpace := restored })

/-! ## Idle space -/

/-- `add_miner_idle_space`. -/
def addMinerIdleSpace (acc : AccountId) (accumulator : Accumulator) (checkFront rear : ℕ)
    (teeSig : TeeSig) : MinerM AccountId ℕ :=
  tryMutateMiner acc .notMiner fun miner => do
    ensure (miner.state = .positive) .notpositiveState
    let proof ← okOr miner.spaceProofInfo .notpositiveState
    ensure (checkFront = proof.front) .countError
    ensure (proof.rear < rear) .countError
    let count ← okOr (checkedSub rear proof.rear) .overflow
    let idleSpace ← okOr (checkedMul 128 idleSegSize count) .overflow
    let idle ← okOr (checkedAdd 128 miner.idleSpace idleSpace) .overflow
    let held ← okOr (checkedAdd 128 idle miner.serviceSpace) .overflow
    let currencyCertSpace ← okOr (checkedAdd 128 held miner.lockSpace) .overflow
    ensure (currencyCertSpace ≤ miner.declarationSpace) .exceedingDeclarationSpace
    pure (idleSpace,
      { miner with
        idleSpace := idle
        teeSignature := teeSig
        spaceProofInfo := some { proof with rear := rear, accumulator := accumulator } })

/-- `delete_idle_update_accu`. -/
def deleteIdleUpdateAccu (acc : AccountId) (accumulator : Accumulator) (front checkRear : ℕ)
    (teeSig : TeeSig) : MinerM AccountId ℕ :=
  tryMutateMiner acc .notMiner fun miner => do
    let proof ← okOr miner.spaceProofInfo .notpositiveState
    ensure (checkRear = proof.rear) .countError
    ensure (proof.front < front) .countError
    pure (front - proof.front,
      { miner with
        teeSignature := teeSig
        spaceProofInfo := some { proof with front := front, accumulator := accumulator } })

/-- `delete_idle_update_space`. -/
def deleteIdleUpdateSpace (acc : AccountId) (idleSpace : ℕ) : MinerM AccountId Unit :=
  tryMutateMiner acc .notMiner fun miner => do
    let idle ← okOr (checkedSub miner.idleSpace idleSpace) .overflow
    pure ((), { miner with idleSpace := idle })

/-- `increase_replace_space`. -/
def increaseReplaceSpace (miner : AccountId) (space : ℕ) : MinerM AccountId Unit :=
  tryMutatePending miner fun pending => okOr (checkedAdd 128 pending space) .overflow

/-- `decrease_replace_space`. -/
def decreaseReplaceSpace (miner : AccountId) (space : ℕ) : MinerM AccountId Unit :=
  tryMutatePending miner fun pending => do
    ensure (pending / idleSegSize ≠ 0) .insufficientReplaceable
    okOr (checkedSub pending space) .overflow

/-! ## Locked space -/

/-- `lock_space`. -/
def lockSpace (acc : AccountId) (space : ℕ) : MinerM AccountId Unit :=
  tryMutateMiner acc .notExisted fun miner => do
    let lock ← okOr (checkedAdd 128 miner.lockSpace space) .overflow
    let idle ← okOr (checkedSub miner.idleSpace space) .overflow
    pure ((), { miner with lockSpace := lock, idleSpace := idle })

/-- A change of a miner that passes over an account that is none. -/
def tryMutateIfMiner (acc : AccountId)
    (f : MinerInfo AccountId → MinerM AccountId (Unit × MinerInfo AccountId)) :
    MinerM AccountId Unit := do
  if acc ∈ (← get).minerItems then tryMutateMiner acc .notExisted f else pure ()

/-- `unlock_space`. -/
def unlockSpace (acc : AccountId) (space : ℕ) : MinerM AccountId Unit :=
  tryMutateIfMiner acc fun miner => do
    let lock ← okOr (checkedSub miner.lockSpace space) .overflow
    let idle ← okOr (checkedAdd 128 miner.idleSpace space) .overflow
    pure ((), { miner with lockSpace := lock, idleSpace := idle })

/-- `unlock_space_direct`. -/
def unlockSpaceDirect (acc : AccountId) (space : ℕ) : MinerM AccountId Unit :=
  tryMutateIfMiner acc fun miner => do
    let lock ← okOr (checkedSub miner.lockSpace space) .overflow
    pure ((), { miner with lockSpace := lock })

/-- `unlock_space_to_service`. -/
def unlockSpaceToService (acc : AccountId) (space : ℕ) : MinerM AccountId Unit :=
  tryMutateMiner acc .notExisted fun miner => do
    let lock ← okOr (checkedSub miner.lockSpace space) .overflow
    let service ← okOr (checkedAdd 128 miner.serviceSpace space) .overflow
    pure ((), { miner with lockSpace := lock, serviceSpace := service })

/-! ## Service space -/

/-- A change of the service space of a miner; one that is unknown or has left is passed over. -/
def updateServiceSpace (acc : AccountId) (change : ℕ → Option ℕ) : MinerM AccountId Unit := do
  if acc ∈ (← get).minerItems then
    let state ← checkState acc
    if state = .exit then
      pure ()
    else
      tryMutateMiner acc .conversionError fun miner => do
        let service ← okOr (change miner.serviceSpace) .overflow
        pure ((), { miner with serviceSpace := service })
  else
    pure ()

/-- `add_miner_service_space`. -/
def addMinerServiceSpace (acc : AccountId) (increment : ℕ) : MinerM AccountId Unit :=
  updateServiceSpace acc fun service => checkedAdd 128 service increment

/-- `sub_miner_service_space`. -/
def subMinerServiceSpace (acc : AccountId) (increment : ℕ) : MinerM AccountId Unit :=
  updateServiceSpace acc fun service => checkedSub service increment

/-- A change of the filter of a miner, hash by hash. -/
def updateServiceBloom (change : BloomFilter → (Fin 256 → UInt8) → Option BloomFilter)
    (acc : AccountId) (hashList : List (Fin 256 → UInt8)) : MinerM AccountId Unit :=
  tryMutateMiner acc .notMiner fun miner => do
    let filter ← okOr (hashList.foldlM change miner.serviceBloomFilter) .bloomElemPushError
    pure ((), { miner with serviceBloomFilter := filter })

/-- `insert_service_bloom`. -/
def insertServiceBloom (acc : AccountId) (hashList : List (Fin 256 → UInt8)) :
    MinerM AccountId Unit :=
  updateServiceBloom BloomFilter.insert acc hashList

/-- `delete_service_bloom`. -/
def deleteServiceBloom (acc : AccountId) (hashList : List (Fin 256 → UInt8)) :
    MinerM AccountId Unit :=
  updateServiceBloom BloomFilter.delete acc hashList

end Sminer
