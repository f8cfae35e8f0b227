/-
# The chain around the miners

The storages of the pallets sminer, audit, cess-treasury and reservoir work on each other: a
challenge that is missed costs collateral, which may be a loan of the reservoir; a challenge
that is passed earns a share of a pool of the treasury; and a miner that leaves takes its space
out of the totals of storage-handler.  This file has the storages of all of them as one world,
on top of the one of the file bank, which already holds those of storage-handler and of sminer:

* `Config` : the constants of the four pallets and what they take from outside the repository;
* `World` and `ChainM` : the storages, and the code that runs on them;
* `History` : what no pallet stores, but what is said about the pallets in other files, the
  collateral reserved and returned for every miner and the snapshots that were taken;
* the access to single storage items and to the currency.
-/
import CessNode.FileBank

open Dispatch

/-! ## Storage types of the audit -/

namespace Audit

/-- `SpaceChallengeParam`: eight numbers. -/
abbrev SpaceChallengeParam := { l : List ℕ // l.length = 8 }

/-- `QElement`. -/
structure QElement where
  randomIndexList : BoundedVec ℕ 1024
  randomList : BoundedVec (Bytes 20) 1024

/-- `VerifyIdleResultInfo`: what the workers sign about a proof of idle space. -/
structure VerifyIdleResultInfo (AccountId WorkerPublicKey : Type) where
  miner : AccountId
  minerProve : List UInt8
  front : ℕ
  rear : ℕ
  accumulator : Accumulator
  spaceChallengeParam : SpaceChallengeParam
  result : Bool
  teePuk : WorkerPublicKey

/-- `VerifyServiceResultInfo`: what the workers sign about a proof of service space. -/
structure VerifyServiceResultInfo (AccountId WorkerPublicKey : Type) where
  miner : AccountId
  teePuk : WorkerPublicKey
  minerProve : List UInt8
  result : Bool
  chal : QElement
  serviceBloomFilter : Sminer.BloomFilter

/-- A result under a master signature, before encoding and hashing. -/
inductive Message (AccountId WorkerPublicKey : Type) where
  | idle (info : VerifyIdleResultInfo AccountId WorkerPublicKey)
  | service (info : VerifyServiceResultInfo AccountId WorkerPublicKey)

end Audit

namespace Chain

/-! ## Configuration -/

/-- The `Config` traits of the four pallets, on top of the one of the file bank. -/
structure Config extends toBank : FileBank.Config where
  /-- `ItemLimit` of sminer. -/
  itemLimit : ℕ
  /-- `StakingLockBlock`. -/
  stakingLockBlock : ℕ
  /-- `IdleTotalHashLength`. -/
  idleTotalHashLength : ℕ
  /-- `SigmaMax`. -/
  sigmaMax : ℕ
  /-- `IdLength` of the reservoir. -/
  idLength : ℕ
  /-- `EventLimit` of the reservoir. -/
  eventLimit : ℕ
  /-- The account of the rewards of miners (`MinerRewardId`). -/
  minerReward : AccountId
  /-- The account of the punishments (`PunishTreasuryId`). -/
  punishTreasury : AccountId
  /-- The account of the reserved rewards (`ReserveRewardId`). -/
  reserveReward : AccountId
  /-- The account of the reservoir (`PalletId`). -/
  reservoirAcc : AccountId
  /-- The number of calls that fit into a block. -/
  maxCalls : ℕ
  /-- The free balance of an account. -/
  free : Ledger → AccountId → ℕ
  /-- `Currency::resolve_creating` of an imbalance of that amount. -/
  resolveCreating : Ledger → AccountId → ℕ → Ledger
  /-- `FScheduler::schedule_named` of `miner_exit` under the name of a miner, at a block. -/
  scheduleExit : Agenda → AccountId → ℕ → Option Agenda
  /-- `Staking::current_era`. -/
  currentEra : Outside → ℕ
  /-- `Perbill::from_rational`, in parts per billion. -/
  fromRational : ℕ → ℕ → ℕ
  /-- `MyRandomness::random` for the audit: the random hash of a seed in a block. -/
  auditRandom : ℕ → ℕ → Option H256
  /-- The order in which the miners of a map prefix are iterated. -/
  slipOrder : List AccountId → List AccountId
  slipOrder_perm : ∀ l, (slipOrder l).Perm l
  /-- `TeeWorkerHandler::get_pubkey_list`. -/
  getPubkeyList : Outside → List WorkerPublicKey
  /-- `TeeWorkerHandler::can_verify`. -/
  canVerify : Outside → WorkerPublicKey → Bool
  /-- `TeeWorkerHandler::verify_master_sig`, for the results of an audit. -/
  verifyResultSig : Outside → Sminer.TeeSig → Audit.Message AccountId WorkerPublicKey → Bool
  /-- `CreditCounter::increase_point_for_idle_verify`. -/
  increasePointForIdleVerify : Outside → AccountId → ℕ → Option Outside

variable (T : Config)

/-- The accounts of the pallets, for which nobody holds a key. -/
def Config.palletAccounts : List T.AccountId :=
  [T.minerReward, T.punishTreasury, T.reserveReward, T.reservoirAcc, T.spaceTreasury]

end Chain

/-! ## Storage of the treasury -/

namespace Treasury

/-- The errors of the treasury. -/
inductive Error where
  | overflow
  | unexpected
  deriving DecidableEq, Repr

/-- The storage of the treasury. -/
structure Storage where
  currencyReward : ℕ
  eraReward : ℕ
  reserveReward : ℕ
  roundReward : StorageMap ℕ (ℕ × ℕ)

end Treasury

/-! ## Storage of the reservoir -/

namespace Reservoir

/-- `ReservoirInfo`. -/
structure ReservoirInfo where
  freeBalance : ℕ
  borrowBalance : ℕ
  storeBalance : ℕ

/-- `BorrowInfo`. -/
structure BorrowInfo (AccountId : Type) where
  free : ℕ
  lender : AccountId
  staking : ℕ
  deadline : ℕ

/-- `UserHold`. -/
structure UserHold where
  free : ℕ
  staking : ℕ

/-- `UseType`. -/
inductive UseType where
  | minerStaking
  deriving DecidableEq, Repr

/-- `EventInfo`. -/
structure EventInfo where
  quota : ℕ
  deadline : ℕ
  unitAmount : ℕ
  borrowPeriod : ℕ
  useType : UseType

/-- The errors of the reservoir. -/
inductive Error where
  | overflow
  | insufficient
  | bugInvalid
  | lengthExceedsLimit
  | boundedVecError
  | idNonExistent
  | upperLimit
  | borrowed
  deriving DecidableEq, Repr

/-- The storage of the reservoir. -/
structure Storage (T : Chain.Config) where
  reservoir : ReservoirInfo
  borrowList : StorageMap T.AccountId (BorrowInfo T.AccountId)
  userPassbook : StorageMap T.AccountId UserHold
  events : StorageMap (BoundedVec UInt8 T.idLength) EventInfo
  eventExpiredRecords : StorageMap ℕ (BoundedVec (BoundedVec UInt8 T.idLength) T.eventLimit)

end Reservoir

/-! ## Storage of the audit -/

namespace Audit

variable (T : Chain.Config)

/-- `MinerSnapShot`. -/
structure MinerSnapShot where
  idleSpace : ℕ
  serviceSpace : ℕ
  serviceBloomFilter : Sminer.BloomFilter
  spaceProofInfo : SpaceProofInfo T.AccountId
  teeSignature : Sminer.TeeSig

/-- `ChallengeElement`. -/
structure ChallengeElement where
  start : ℕ
  idleSlip : ℕ
  serviceSlip : ℕ
  verifySlip : ℕ
  spaceParam : SpaceChallengeParam
  serviceParam : QElement

/-- `IdleProveInfo`. -/
structure IdleProveInfo where
  teePuk : T.WorkerPublicKey
  idleProve : BoundedVec UInt8 T.idleTotalHashLength
  verifyResult : Option Bool

/-- `ServiceProveInfo`. -/
structure ServiceProveInfo where
  teePuk : T.WorkerPublicKey
  serviceProve : BoundedVec UInt8 T.sigmaMax
  verifyResult : Option Bool

/-- `ProveInfo`. -/
structure ProveInfo where
  assign : ℕ
  idleProve : Option (IdleProveInfo T)
  serviceProve : Option (ServiceProveInfo T)

/-- `ChallengeInfo`. -/
structure ChallengeInfo where
  minerSnapshot : MinerSnapShot T
  challengeElement : ChallengeElement
  proveInfo : ProveInfo T

/-- The errors of the audit. -/
inductive Error where
  | overflow
  | noChallenge
  | systemError
  | randomErr
  | nonExistentMission
  | expired
  | verifyTeeSigFailed
  | bloomFilterError
  | submitted
  | unSubmitted
  | teeNoPermission
  | malformedSignature
  deriving DecidableEq, Repr

/-- The storage of the audit. -/
structure Storage where
  countedServiceFailed : StorageMap T.AccountId ℕ
  countedClear : StorageMap T.AccountId ℕ
  challengeSnapShot : StorageMap T.AccountId (ChallengeInfo T)
  challengeSlip : StorageMap (ℕ × T.AccountId) Bool
  verifySlip : StorageMap (ℕ × T.AccountId) Bool

end Audit

namespace Chain

variable (T : Config)

/-! ## The world -/

/-- The events of the four pallets. -/
inductive Event where
  | registered (acc : T.AccountId)
  | registerPoisKey (miner : T.AccountId)
  | updateBeneficiary (acc new : T.AccountId)
  | updatePeerId (acc : T.AccountId) (old new : PeerId)
  | receive (acc : T.AccountId) (reward : ℕ)
  | minerExitPrep (miner : T.AccountId)
  | increaseCollateral (acc : T.AccountId) (balance : ℕ)
  | withdraw (acc : T.AccountId)
  | increaseDeclarationSpace (miner : T.AccountId) (space : ℕ)
  | generateChallenge (miner : T.AccountId)
  | submitIdleProof (miner : T.AccountId)
  | submitServiceProof (miner : T.AccountId)
  | submitIdleVerifyResult (tee : T.WorkerPublicKey) (miner : T.AccountId) (result : Bool)
  | submitServiceVerifyResult (tee : T.WorkerPublicKey) (miner : T.AccountId) (result : Bool)
  | deposit (balance : ℕ)
  | filling (amount : ℕ)
  | store (amount : ℕ)
  | withdrawStore (amount : ℕ)
  | rootWithdraw (amount : ℕ)
  | createEvent (id : BoundedVec UInt8 T.idLength)
  | attendEvent (id : BoundedVec UInt8 T.idLength)
  | eventExpired (id : BoundedVec UInt8 T.idLength)

/-- The errors of the pallets, with those they pass on from outside. -/
inductive Error where
  | storage (e : StorageHandler.Error)
  | sminer (e : Sminer.Error)
  | treasury (e : Treasury.Error)
  | reservoir (e : Reservoir.Error)
  | audit (e : Audit.Error)
  | currency
  | teeWorker
  | credit
  deriving DecidableEq, Repr

/-- What the pallets have done and do not store: the amounts reserved and unreserved as
collateral of each miner, and the calls of `record_snap_shot`, each with its block. -/
structure History (AccountId : Type) where
  staked : AccountId → ℕ
  returned : AccountId → ℕ
  recorded : List (AccountId × ℕ)

/-- The storages of all pallets. -/
structure World where
  bank : FileBank.World T.toBank
  treasury : Treasury.Storage
  reservoir : Reservoir.Storage T
  audit : Audit.Storage T
  events : List (Event T)
  history : History T.AccountId

/-- Code on the storages: an error keeps the writes made before it. -/
abbrev ChainM := EStateM Error (World T)

/-- The storages at genesis, over the given storages of the file bank. -/
def genesis (bank : FileBank.World T.toBank) : World T where
  bank := bank
  treasury := { currencyReward := 0, eraReward := 0, reserveReward := 0, roundReward := ∅ }
  reservoir :=
    { reservoir := { freeBalance := 0, borrowBalance := 0, storeBalance := 0 }
      borrowList := ∅
      userPassbook := ∅
      events := ∅
      eventExpiredRecords := ∅ }
  audit :=
    { countedServiceFailed := ∅
      countedClear := ∅
      challengeSnapShot := ∅
      challengeSlip := ∅
      verifySlip := ∅ }
  events := []
  history := { staked := fun _ => 0, returned := fun _ => 0, recorded := [] }

/-! ## Access to single storage items -/

variable {T}

/-- The block number. -/
def World.now (w : World T) : ℕ := w.bank.storage.now

/-- The balances. -/
def World.ledger (w : World T) : T.Ledger := w.bank.storage.ledger

/-- The storage of the pallets outside. -/
def World.outside (w : World T) : T.Outside := w.bank.outside

/-- The storage of sminer. -/
def World.miner (w : World T) : Sminer.World T.AccountId := w.bank.miner

/-- The world with other balances. -/
def World.setLedger (ledger : T.Ledger) (w : World T) : World T :=
  { w with bank := { w.bank with storage := { w.bank.storage with ledger := ledger } } }

/-- The world with another storage of sminer. -/
def World.setMiner (miner : Sminer.World T.AccountId) (w : World T) : World T :=
  { w with bank := { w.bank with miner := miner } }

variable (T)

/-- A call of storage-handler. -/
def liftStorage {α : Type} (x : StorageHandler.PalletM T.toBank.toConfig α) : ChainM T α :=
  zoom (fun w => w.bank.storage) (fun s w => { w with bank := { w.bank with storage := s } })
    Error.storage x

/-- A change of the storage of sminer. -/
def modifyMiner (f : Sminer.World T.AccountId → Sminer.World T.AccountId) : ChainM T Unit :=
  modify fun w => w.setMiner (f w.miner)

/-- `MinerItems::try_mutate`. -/
def mutateMiner (acc : T.AccountId) (e : Sminer.Error)
    (f : Sminer.MinerInfo T.AccountId → ChainM T (Sminer.MinerInfo T.AccountId)) :
    ChainM T Unit :=
  tryMutate (fun w : World T => w.miner.minerItems.lookup acc)
    (fun info w => w.setMiner { w.miner with minerItems := w.miner.minerItems.insert acc info })
    (Error.sminer e) fun info => do pure ((), ← f info)

/-- `deposit_event`. -/
def depositEvent (e : Event T) : ChainM T Unit :=
  modify fun w => { w with events := w.events ++ [e] }

/-- Replace the storage of the pallets outside, or stop with `e`. -/
def updateOutside (e : Error) (f : T.Outside → Option T.Outside) : ChainM T Unit := do
  let w ← get
  let outside ← okOr (f w.outside) e
  modify fun w => { w with bank := { w.bank with outside := outside } }

/-! ## The currency -/

/-- `Currency::transfer(src, dst, amount, KeepAlive)`. -/
def currencyTransfer (src dst : T.AccountId) (amount : ℕ) : ChainM T Unit := do
  let w ← get
  let ledger ← okOr (T.transfer w.ledger src dst amount) .currency
  modify (World.setLedger ledger)

/-- `Currency::reserve`, as collateral of the miner. -/
def reserveFor (miner acc : T.AccountId) (amount : ℕ) : ChainM T Unit := do
  let w ← get
  let ledger ← okOr (T.reserve w.ledger acc amount) .currency
  modify (World.setLedger ledger)
  modify fun w =>
    { w with
      history := { w.history with
        staked := Function.update w.history.staked miner (w.history.staked miner + amount) } }

/-- `Currency::unreserve`, out of the collateral of the miner.  As much is returned as the
reserve of the account goes down. -/
def unreserveFor (miner acc : T.AccountId) (amount : ℕ) : ChainM T Unit := do
  let w ← get
  let ledger := T.unreserve w.ledger acc amount
  let amount := T.reserved w.ledger acc - T.reserved ledger acc
  modify (World.setLedger ledger)
  modify fun w =>
    { w with
      history := { w.history with
        returned := Function.update w.history.returned miner
          (w.history.returned miner + amount) } }

end Chain
