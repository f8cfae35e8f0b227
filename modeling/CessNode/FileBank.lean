/-
# The file-bank pallet

The faithful model of `pallets/file-bank`: deals, files, buckets and restoral orders, every
dispatchable call (the root call for tests is left out) and the block hook that clears the
files of expired territories.

The pallet works on three storages: its own, the one of storage-handler (`storage`) and the
one of sminer (`miner`); a call of another pallet is run inside the whole by `liftStorage` or
`liftMiner`, so that an error keeps the writes made before it in each of them.  What it takes
from the pallets tee-worker, scheduler-credit and oss is the abstract storage `Outside` with
the operations of `Config`.

`FragmentCount`, the bound on the fragments of a segment, is the constant `fragmentCount` in
the runtime and here.
-/
import CessNode.StorageHandler
import CessNode.Sminer

open Dispatch

namespace FileBank

/-! ## Configuration -/

/-- `DigestInfo`: a fragment and the worker that made its tag. -/
structure DigestInfo (WorkerPublicKey : Type) where
  fragment : Hash
  teePuk : WorkerPublicKey

/-- `TagSigInfo`: what the workers sign about the tags of a file. -/
structure TagSigInfo (AccountId WorkerPublicKey : Type) where
  miner : AccountId
  digest : BoundedVec (DigestInfo WorkerPublicKey) 1000
  fileHash : Hash

/-- A message under a master signature, before encoding and hashing. -/
inductive Message (AccountId WorkerPublicKey : Type) where
  | tag (info : TagSigInfo AccountId WorkerPublicKey)
  | space (info : SpaceProofInfo AccountId) (teePuk : WorkerPublicKey)

/-- The pallet's `Config` trait, on top of the one of storage-handler. -/
structure Config extends StorageHandler.Config where
  /-- `UserFileLimit`. -/
  userFileLimit : ℕ
  /-- `NameStrLimit`. -/
  nameStrLimit : ℕ
  /-- `BucketLimit`. -/
  bucketLimit : ℕ
  /-- `NameMinLength`. -/
  nameMinLength : ℕ
  /-- `SegmentCount`. -/
  segmentCount : ℕ
  /-- `OwnerLimit`. -/
  ownerLimit : ℕ
  /-- `RestoralOrderLife`, in blocks. -/
  restoralOrderLife : ℕ
  WorkerPublicKey : Type
  decWorkerPublicKey : DecidableEq WorkerPublicKey
  /-- The order in which a `BTreeMap` visits accounts. -/
  accountOrder : List AccountId → List AccountId
  accountOrder_perm : ∀ l, (accountOrder l).Perm l
  /-- The order in which a `BTreeMap` visits the keys of workers. -/
  workerOrder : List WorkerPublicKey → List WorkerPublicKey
  workerOrder_perm : ∀ l, (workerOrder l).Perm l
  /-- The storage of the pallets tee-worker, scheduler-credit and oss. -/
  Outside : Type
  /-- `OssFindAuthor::is_authorized`, of an owner and an operator. -/
  isAuthorized : Outside → AccountId → AccountId → Bool
  /-- `TeeWorkerHandler::verify_master_sig`. -/
  verifyMasterSig : Outside → Sminer.TeeSig → Message AccountId WorkerPublicKey → Bool
  /-- `TeeWorkerHandler::can_tag`. -/
  canTag : Outside → WorkerPublicKey → Bool
  /-- `TeeWorkerHandler::can_cert`. -/
  canCert : Outside → WorkerPublicKey → Bool
  /-- `TeeWorkerHandler::is_bonded`. -/
  isBonded : Outside → WorkerPublicKey → Bool
  /-- `TeeWorkerHandler::get_stash`. -/
  getStash : Outside → WorkerPublicKey → Option AccountId
  /-- `TeeWorkerHandler::update_work_block`. -/
  updateWorkBlock : Outside → ℕ → WorkerPublicKey → Option Outside
  /-- `CreditCounter::increase_point_for_tag`. -/
  increasePointForTag : Outside → AccountId → ℕ → Option Outside
  /-- `CreditCounter::increase_point_for_replace`. -/
  increasePointForReplace : Outside → AccountId → ℕ → Option Outside
  /-- `CreditCounter::increase_point_for_cert`. -/
  increasePointForCert : Outside → AccountId → ℕ → Option Outside

attribute [instance] Config.decWorkerPublicKey

/-! ## Storage types -/

variable (T : Config)

/-- A name of a file or a bucket. -/
abbrev NameStr := BoundedVec UInt8 T.nameStrLimit

/-- `UserBrief`: an owner of a file, with its places for it. -/
structure UserBrief where
  user : T.AccountId
  fileName : NameStr T
  bucketName : NameStr T
  territoryName : TerrName

/-- `SegmentList`: a segment of a deal. -/
structure SegmentList where
  hash : Hash
  fragmentList : BoundedVec Hash fragmentCount

/-- `CompleteInfo`: a miner that has reported its part of a deal. -/
structure CompleteInfo where
  index : ℕ
  miner : T.AccountId

/-- `DealInfo`. -/
structure DealInfo where
  fileSize : ℕ
  segmentList : BoundedVec SegmentList T.segmentCount
  user : UserBrief T
  completeList : BoundedVec (CompleteInfo T) fragmentCount

/-- `FragmentInfo`. -/
structure FragmentInfo where
  hash : Hash
  avail : Bool
  tag : Option ℕ
  miner : T.AccountId

/-- `SegmentInfo`: a segment of a file. -/
structure SegmentInfo where
  hash : Hash
  fragmentList : BoundedVec (FragmentInfo T) fragmentCount

/-- `FileState`. -/
inductive FileState where
  | active
  | calculate
  | missing
  | recovery
  deriving DecidableEq, Repr

/-- `FileInfo`. -/
structure FileInfo where
  segmentList : BoundedVec (SegmentInfo T) T.segmentCount
  owner : BoundedVec (UserBrief T) T.ownerLimit
  fileSize : ℕ
  completion : ℕ
  stat : FileState

/-- `UserFileSliceInfo`. -/
structure UserFileSliceInfo where
  territoryName : TerrName
  fileHash : Hash
  fileSize : ℕ
  deriving DecidableEq

/-- `BucketInfo`. -/
structure BucketInfo where
  objectList : BoundedVec Hash T.userFileLimit
  authority : BoundedVec T.AccountId 1032

/-- `RestoralOrderInfo`. -/
structure RestoralOrderInfo where
  count : ℕ
  miner : T.AccountId
  originMiner : T.AccountId
  fragmentHash : Hash
  fileHash : Hash
  genBlock : ℕ
  deadline : ℕ

/-- The pallet's events. -/
inductive Event where
  | uploadDeclaration (operator owner : T.AccountId) (dealHash : Hash)
  | transferReport (acc : T.AccountId) (dealHash : Hash)
  | deleteFile (operator owner : T.AccountId) (fileHash : Hash)
  | idleSpaceCert (acc : T.AccountId) (space : ℕ)
  | replaceIdleSpace (acc : T.AccountId) (space : ℕ)
  | createBucket (operator owner : T.AccountId) (bucketName : List UInt8)
  | deleteBucket (operator owner : T.AccountId) (bucketName : List UInt8)
  | generateRestoralOrder (miner : T.AccountId) (fragmentHash : Hash)
  | claimRestoralOrder (miner : T.AccountId) (orderId : Hash)
  | recoveryCompleted (miner : T.AccountId) (orderId : Hash)
  | storageCompleted (fileHash : Hash)
  | calculateReport (miner : T.AccountId) (fileHash : Hash)
  | territoryFileDelivery (fileHash : Hash) (newTerritory : TerrName)

/-- The pallet's errors, with those of the pallets it calls; `panic` stands for an index that
is out of range. -/
inductive Error where
  | existed
  | fileNonExistent
  | overflow
  | notOwner
  | boundedVecError
  | storageLimitReached
  | notEmpty
  | lengthExceedsLimit
  | bugInvalid
  | noPermission
  | nonExistent
  | unexpected
  | lessMinLength
  | specError
  | insufficientAvailableSpace
  | minerStateError
  | expired
  | verifyTeeSigFailed
  | teeNoPermission
  | digestError
  | malformedSignature
  | minerError
  | rulesNotAllowed
  | notActive
  | panic
  | storage (e : StorageHandler.Error)
  | sminer (e : Sminer.Error)
  | teeWorker
  | credit
  deriving DecidableEq, Repr

/-- The storage of the pallet and of the pallets it works on. -/
structure World where
  storage : StorageHandler.World T.toConfig
  miner : Sminer.World T.AccountId
  outside : T.Outside
  events : List (Event T)
  dealMap : StorageMap Hash (DealInfo T)
  file : StorageMap Hash (FileInfo T)
  userHoldFileList : StorageMap T.AccountId (BoundedVec UserFileSliceInfo T.userFileLimit)
  bucket : StorageMap (T.AccountId × NameStr T) (BucketInfo T)
  userBucketList : StorageMap T.AccountId (BoundedVec (NameStr T) T.bucketLimit)
  restoralOrder : StorageMap Hash (RestoralOrderInfo T)
  clearUserList : BoundedVec (T.AccountId × TerrName) 2000

/-- Code of the pallet: an error keeps the writes made before it. -/
abbrev PalletM := EStateM Error (World T)

/-- The storage at genesis, over the given storage of the other pallets. -/
def genesis (storage : StorageHandler.World T.toConfig) (miner : Sminer.World T.AccountId)
    (outside : T.Outside) : World T where
  storage := storage
  miner := miner
  outside := outside
  events := []
  dealMap := ∅
  file := ∅
  userHoldFileList := ∅
  bucket := ∅
  userBucketList := ∅
  restoralOrder := ∅
  clearUserList := BoundedVec.empty

/-! ## Access to single storage items -/

variable {T} in
/-- The block number. -/
def World.now (w : World T) : ℕ := w.storage.now

/-- A call of storage-handler. -/
def liftStorage {α : Type} (x : StorageHandler.PalletM T.toConfig α) : PalletM T α :=
  zoom World.storage (fun s w => { w with storage := s }) Error.storage x

/-- A call of sminer. -/
def liftMiner {α : Type} (x : Sminer.MinerM T.AccountId α) : PalletM T α :=
  zoom World.miner (fun m w => { w with miner := m }) Error.sminer x

/-- `deposit_event`. -/
def depositEvent (e : Event T) : PalletM T Unit :=
  modify fun w => { w with events := w.events ++ [e] }

/-- `File::try_mutate`. -/
def tryMutateFile (fileHash : Hash) (e : Error) (f : FileInfo T → PalletM T (FileInfo T)) :
    PalletM T Unit :=
  tryMutate (fun w => w.file.lookup fileHash)
    (fun file w => { w with file := w.file.insert fileHash file }) e
    fun file => do pure ((), ← f file)

/-- `Bucket::try_mutate`. -/
def tryMutateBucket (user : T.AccountId) (name : NameStr T) (e : Error)
    (f : BucketInfo T → PalletM T (BucketInfo T)) : PalletM T Unit :=
  tryMutate (fun w => w.bucket.lookup (user, name))
    (fun bucket w => { w with bucket := w.bucket.insert (user, name) bucket }) e
    fun bucket => do pure ((), ← f bucket)

variable {T} in
/-- The value of `UserBucketList`, empty where nothing is stored. -/
def World.bucketsOf (w : World T) (user : T.AccountId) : BoundedVec (NameStr T) T.bucketLimit :=
  (w.userBucketList.lookup user).getD BoundedVec.empty

variable {T} in
/-- The value of `UserHoldFileList`, empty where nothing is stored. -/
def World.heldBy (w : World T) (user : T.AccountId) :
    BoundedVec UserFileSliceInfo T.userFileLimit :=
  (w.userHoldFileList.lookup user).getD BoundedVec.empty

/-- `UserBucketList::insert`. -/
def putBuckets (user : T.AccountId) (list : BoundedVec (NameStr T) T.bucketLimit) :
    PalletM T Unit :=
  modify fun w => { w with userBucketList := w.userBucketList.insert user list }

/-- `UserHoldFileList::insert`. -/
def putHeld (user : T.AccountId) (list : BoundedVec UserFileSliceInfo T.userFileLimit) :
    PalletM T Unit :=
  modify fun w => { w with userHoldFileList := w.userHoldFileList.insert user list }

/-- Replace the storage of the outside pallets, or stop with `e`. -/
def updateOutside (e : Error) (f : T.Outside → Option T.Outside) : PalletM T Unit := do
  let w ← get
  let outside ← okOr (f w.outside) e
  modify fun w => { w with outside := outside }

/-! ## Files and their fragments -/

variable {T} in
/-- All fragments of a file, in the order in which the loops visit them. -/
def FileInfo.fragments (file : FileInfo T) : List (FragmentInfo T) :=
  file.segmentList.val.flatMap fun segment => segment.fragmentList.val

variable {T} in
/-- Change every fragment. -/
def FileInfo.mapFragments (f : FragmentInfo T → FragmentInfo T) (file : FileInfo T) :
    FileInfo T :=
  { file with
    segmentList := file.segmentList.map fun segment =>
      { segment with fragmentList := segment.fragmentList.map f } }

variable {T} in
/-- Change the first fragment that satisfies `p`. -/
def FileInfo.modifyFirst (p : FragmentInfo T → Bool) (f : FragmentInfo T → FragmentInfo T)
    (file : FileInfo T) : FileInfo T :=
  let i := file.segmentList.val.findIdx fun segment => segment.fragmentList.val.any p
  { file with
    segmentList := file.segmentList.modify i fun segment =>
      { segment with
        fragmentList := segment.fragmentList.modify (segment.fragmentList.val.findIdx p) f } }

/-- The entries of a `BTreeMap`, in the order in which it visits its keys. -/
def btreeEntries {κ ν : Type} [DecidableEq κ] (order : List κ → List κ) (m : StorageMap κ ν) :
    List (κ × ν) :=
  (order m.keys).filterMap fun k => (m.lookup k).map fun v => (k, v)

/-- How often each key occurs, counted in a byte that wraps around. -/
def countBytes {κ : Type} [DecidableEq κ] (keys : List κ) : StorageMap κ UInt8 :=
  keys.foldl (fun m k => m.insert k (match m.lookup k with
    | some value => value + 1
    | none => 1)) ∅

/-- The values filed under each key, in order. -/
def groupByKey {κ ν : Type} [DecidableEq κ] (pairs : List (κ × ν)) : StorageMap κ (List ν) :=
  pairs.foldl (fun m p => m.insert p.1 ((m.lookup p.1).getD [] ++ [p.2])) ∅

/-! ## Checks -/

/-- `check_file_spec`. -/
def checkFileSpec {n : ℕ} (segList : BoundedVec SegmentList n) : Bool :=
  segList.val.all fun segment => decide (segment.fragmentList.val.length = fragmentCount)

/-- `cal_file_size`.  Here as everywhere the constant factor of a product stands first. -/
def calFileSize (len : ℕ) : ℕ := segmentSize * 30 / 10 * len

variable {T} in
/-- `check_is_file_owner`. -/
def checkIsFileOwner (w : World T) (acc : T.AccountId) (fileHash : Hash) : Bool :=
  (w.file.lookup fileHash).any fun file => file.owner.val.any fun brief => brief.user = acc

variable {T} in
/-- `check_permission`. -/
def checkPermission (w : World T) (operator owner : T.AccountId) : Bool :=
  owner = operator || T.isAuthorized w.outside owner operator

/-- The character `.`, `BUCKET_ALLOW_CHAR[64]`. -/
def point : UInt8 := 46

/-- The loop of `check_bucket_name_spec`: the number of points, or none if a character is not
allowed or two points follow each other. -/
def countPoints : List UInt8 → Bool → ℕ → Option ℕ
  | [], _, count => some count
  | elem :: rest, pointFlag, count =>
    if elem ∉ bucketAllowChar then none
    else if elem = point then
      if pointFlag then none else countPoints rest true (count + 1)
    else countPoints rest false count

/-- `check_bucket_name_spec`. -/
def checkBucketNameSpec (name : List UInt8) : Bool :=
  match countPoints name false 0 with
  | none => false
  | some count =>
    if count = 3 then
      -- the parts between the points hold allowed characters only, so this is always false
      (name.splitOn point).any fun part => part.any fun elem => elem ∉ bucketAllowChar
    else true

/-! ## Buckets and the files a user holds -/

/-- `create_bucket_helper`. -/
def createBucketHelper (user : T.AccountId) (bucketName : NameStr T) (fileHash : Option Hash) :
    PalletM T Unit := do
  let w ← get
  ensure (bucketName.val.length ≥ 3) .lessMinLength
  ensure (¬ (user, bucketName) ∈ w.bucket) .existed
  ensure (checkBucketNameSpec bucketName.val = true) .specError
  let objectList ← okOr (BoundedVec.tryFrom T.userFileLimit fileHash.toList) .boundedVecError
  let bucket : BucketInfo T := { objectList := objectList, authority := ⟨[user], by simp⟩ }
  modify fun w => { w with bucket := w.bucket.insert (user, bucketName) bucket }
  let w ← get
  let list ← okOr ((w.bucketsOf user).tryPush bucketName) .lengthExceedsLimit
  putBuckets T user list

/-- `add_file_to_bucket`. -/
def addFileToBucket (user : T.AccountId) (bucketName : NameStr T) (fileHash : Hash) :
    PalletM T Unit :=
  tryMutateBucket T user bucketName .nonExistent fun bucket => do
    let objectList ← okOr (bucket.objectList.tryPush fileHash) .boundedVecError
    pure { bucket with objectList := objectList }

/-- Put a file into the bucket its owner names, which is created if it does not exist. -/
def fileIntoBucket (brief : UserBrief T) (fileHash : Hash) : PalletM T Unit := do
  if (brief.user, brief.bucketName) ∈ (← get).bucket then
    addFileToBucket T brief.user brief.bucketName fileHash
  else
    createBucketHelper T brief.user brief.bucketName (some fileHash)

/-- `bucket_remove_file`. -/
def bucketRemoveFile (fileHash : Hash) (acc : T.AccountId) (file : FileInfo T) :
    PalletM T Unit :=
  file.owner.val.forM fun brief =>
    if brief.user = acc then
      tryMutateBucket T acc brief.bucketName .nonExistent fun bucket =>
        pure { bucket with objectList := bucket.objectList.retain fun hash => hash ≠ fileHash }
    else pure ()

/-- `add_user_hold_fileslice`. -/
def addUserHoldFileslice (user : T.AccountId) (fileHash : Hash) (fileSize : ℕ)
    (territoryName : TerrName) : PalletM T Unit := do
  let info : UserFileSliceInfo :=
    { territoryName := territoryName, fileHash := fileHash, fileSize := fileSize }
  let list := (← get).heldBy user
  ensure (info ∉ list.val) .existed
  let list ← okOr (list.tryPush info) .storageLimitReached
  putHeld T user list

/-- `remove_user_hold_file_list`. -/
def removeUserHoldFileList (fileHash : Hash) (acc : T.AccountId) : PalletM T Unit := do
  putHeld T acc (((← get).heldBy acc).retain fun slice => slice.fileHash ≠ fileHash)

/-! ## Deals -/

/-- `DealInfo::complete_part`. -/
def DealInfo.completePart (deal : DealInfo T) (miner : T.AccountId) (index : ℕ) :
    PalletM T (DealInfo T) := do
  ensure (∀ info ∈ deal.completeList.val, index ≠ info.index ∧ miner ≠ info.miner) .existed
  liftMiner T (Sminer.lockSpace miner (fragmentSize * deal.segmentList.val.length))
  let completeList ← okOr (deal.completeList.tryPush ⟨index, miner⟩) .boundedVecError
  pure { deal with completeList := completeList }

/-- `DealInfo::completed_all`. -/
def DealInfo.completedAll (deal : DealInfo T) : PalletM T Unit :=
  deal.completeList.val.forM fun info => do
    let space ← okOr (checkedMul 128 fragmentSize deal.segmentList.val.length) .overflow
    liftMiner T (Sminer.increaseReplaceSpace info.miner space)

/-- `DealInfo::force_unlock_space`. -/
def DealInfo.forceUnlockSpace (deal : DealInfo T) : PalletM T Unit :=
  deal.completeList.val.forM fun info => do
    let space ← okOr (checkedMul 128 fragmentSize deal.segmentList.val.length) .overflow
    liftMiner T (Sminer.unlockSpace info.miner space)

/-- The segment of a file made from a segment of its deal: the fragment at a position goes to
the miner at the same position of the list. -/
def fileSegment (completeList : List (CompleteInfo T)) (segment : SegmentList) :
    Option (SegmentInfo T) := do
  let fragments ← segment.fragmentList.val.zipIdx.mapM fun p => do
    let info ← completeList[p.2]?
    pure ({ hash := p.1, avail := true, tag := none, miner := info.miner } : FragmentInfo T)
  let fragmentList ← BoundedVec.tryFrom fragmentCount fragments
  pure { hash := segment.hash, fragmentList := fragmentList }

/-- `generate_file`. -/
def generateFile (fileHash : Hash) (dealInfo : BoundedVec SegmentList T.segmentCount)
    (completeList : BoundedVec (CompleteInfo T) fragmentCount) (userBrief : UserBrief T)
    (stat : FileState) (fileSize : ℕ) : PalletM T Unit := do
  ensure (completeList.val.length = fragmentCount) .unexpected
  let completeList := completeList.val.insertionSort fun a b => a.index ≤ b.index
  let segments ← okOr (dealInfo.val.mapM (fileSegment T completeList)) .panic
  let segmentList ← okOr (BoundedVec.tryFrom T.segmentCount segments) .boundedVecError
  let curBlock := (← get).now
  let owner ← okOr (BoundedVec.tryFrom T.ownerLimit [userBrief]) .boundedVecError
  let fileInfo : FileInfo T :=
    { segmentList := segmentList, owner := owner, fileSize := fileSize,
      completion := curBlock, stat := stat }
  modify fun w => { w with file := w.file.insert fileHash fileInfo }

/-- `Receptionist::fly_upload_file`: a file that exists already gets another owner. -/
def flyUploadFile (fileHash : Hash) (userBrief : UserBrief T) : PalletM T Unit :=
  tryMutateFile T fileHash .fileNonExistent fun file => do
    let size ← okOr (checkedMul 128 segmentSize 15) .overflow
    let size ← okOr (checkedDiv size 10) .overflow
    let neededSpace ← okOr (checkedMul 128 size file.segmentList.val.length) .overflow
    let avail ← liftStorage T
      (StorageHandler.getUserAvailSpace T.toConfig userBrief.user userBrief.territoryName)
    ensure (avail > neededSpace) .insufficientAvailableSpace
    liftStorage T (StorageHandler.addTerritoryUsedSpace T.toConfig userBrief.user
      userBrief.territoryName neededSpace)
    fileIntoBucket T userBrief fileHash
    addUserHoldFileslice T userBrief.user fileHash neededSpace userBrief.territoryName
    let owner ← okOr (file.owner.tryPush userBrief) .boundedVecError
    pure { file with owner := owner }

/-- `Receptionist::generate_deal`, with the function of the same name that it calls. -/
def generateDeal (fileHash : Hash) (dealInfo : BoundedVec SegmentList T.segmentCount)
    (userBrief : UserBrief T) (neededSpace fileSize : ℕ) : PalletM T Unit := do
  liftStorage T (StorageHandler.lockUserSpace T.toConfig userBrief.user userBrief.territoryName
    neededSpace)
  let deal : DealInfo T :=
    { fileSize := fileSize, segmentList := dealInfo, user := userBrief,
      completeList := BoundedVec.empty }
  modify fun w => { w with dealMap := w.dealMap.insert fileHash deal }

/-- The last part of `Receptionist::qualification_report_processing`: the deal has all its
reports and becomes a file. -/
def completeDeal (dealHash : Hash) (deal : DealInfo T) : PalletM T Unit := do
  deal.completedAll T
  generateFile T dealHash deal.segmentList deal.completeList deal.user .active deal.fileSize
  let neededSpace := calFileSize deal.segmentList.val.length
  liftStorage T (StorageHandler.unlockAndUsedUserSpace T.toConfig deal.user.user
    deal.user.territoryName neededSpace)
  liftStorage T (StorageHandler.subTotalIdleSpace T.toConfig neededSpace)
  liftStorage T (StorageHandler.addTotalServiceSpace T.toConfig neededSpace)
  fileIntoBucket T deal.user dealHash
  addUserHoldFileslice T deal.user.user dealHash neededSpace deal.user.territoryName
  modify fun w => { w with dealMap := w.dealMap.erase dealHash }
  depositEvent T (.storageCompleted dealHash)

/-- `Receptionist::qualification_report_processing`. -/
def qualificationReportProcessing (sender : T.AccountId) (dealHash : Hash) (dealInfo : DealInfo T)
    (index : ℕ) : PalletM T Unit := do
  let deal ← dealInfo.completePart T sender index
  modify fun w => { w with dealMap := w.dealMap.insert dealHash deal }
  if deal.completeList.val.length = fragmentCount then
    completeDeal T dealHash deal
  else pure ()

/-! ## Deletion -/

/-- `remove_file_owner`. -/
def removeFileOwner (fileHash : Hash) (acc : T.AccountId) (userClear : Bool) : PalletM T Unit :=
  tryMutateFile T fileHash .nonExistent fun file => do
    match file.owner.val.find? fun brief => brief.user = acc with
    | some brief => do
      let fileSize := calFileSize file.segmentList.val.length
      if userClear then
        liftStorage T
          (StorageHandler.subTerritoryUsedSpace T.toConfig acc brief.territoryName fileSize)
      pure { file with owner := file.owner.removeFirst fun brief => brief.user = acc }
    | none => pure file

/-- What `remove_file_last_owner` does for one miner of the file: a miner that has left gets
the fragments off its restoral target, any other one its space back. -/
def releaseFragments (miner : T.AccountId) (hashList : List (Hash × Bool)) : PalletM T Unit := do
  if Sminer.restoralTargetIsExist (← get).miner miner then
    liftMiner T (Sminer.updateRestoralTarget miner (fragmentSize * hashList.length))
  else
    let tagged := hashList.filter fun p => p.2
    let unlockCount := (hashList.filter fun p => !p.2).length
    let binaryList ← okOr (tagged.mapM fun p => p.1.binary) .bugInvalid
    liftMiner T (Sminer.subMinerServiceSpace miner (fragmentSize * tagged.length))
    liftMiner T (Sminer.deleteServiceBloom miner binaryList)
    liftMiner T (Sminer.unlockSpaceDirect miner (fragmentSize * unlockCount))

/-- The beginning of `remove_file_last_owner`, up to the counter of the service space: the
miners, and on request the owner, get their space back.  The result is the number of
fragments. -/
def releaseFile (fileHash : Hash) (acc : T.AccountId) (userClear : Bool) : PalletM T ℕ := do
  let file ← okOr ((← get).file.lookup fileHash) .nonExistent
  let totalFragmentDec := file.fragments.length
  let minerList :=
    groupByKey (file.fragments.map fun f => (f.miner, (f.hash, f.tag.isSome)))
  (btreeEntries T.accountOrder minerList).forM fun p => releaseFragments T p.1 p.2
  if userClear then
    match file.owner.val.find? fun brief => brief.user = acc with
    | some brief =>
      liftStorage T (StorageHandler.subTerritoryUsedSpace T.toConfig acc brief.territoryName
        (fragmentSize * totalFragmentDec))
    | none => pure ()
  pure totalFragmentDec

/-- `remove_file_last_owner`. -/
def removeFileLastOwner (fileHash : Hash) (acc : T.AccountId) (userClear : Bool) :
    PalletM T Unit := do
  let totalFragmentDec ← releaseFile T fileHash acc userClear
  liftStorage T (StorageHandler.subTotalServiceSpace T.toConfig (fragmentSize * totalFragmentDec))
  modify fun w => { w with file := w.file.erase fileHash }

/-- `delete_user_file`: `file` is the entry as it was before the loop. -/
def deleteUserFile (fileHash : Hash) (acc : T.AccountId) (file : FileInfo T) : PalletM T Unit :=
  file.owner.val.forM fun brief =>
    if brief.user = acc then
      if file.owner.val.length > 1 then removeFileOwner T fileHash acc true
      else removeFileLastOwner T fileHash acc true
    else pure ()

/-! ## Clearing of expired territories -/

/-- `ONCE_MAX_CLEAR_FILE`. -/
def onceMaxClearFile : ℕ := 300

/-- One round of the clearing loop: a file of an expired territory.  The results of the
deletions are dropped, and a file with one owner is deleted twice. -/
def clearFile (acc : T.AccountId) (fileHash : Hash) : PalletM T Unit := do
  match (← get).file.lookup fileHash with
  | some file => do
    if file.owner.val.length > 1 then
      attempt (removeFileOwner T fileHash acc false)
    else
      attempt (removeFileLastOwner T fileHash acc false)
      attempt (removeFileLastOwner T fileHash acc false)
    attempt (bucketRemoveFile T fileHash acc file)
  | none => pure ()

/-- The loop over the files an account holds, given in the order in which they are popped.
The result is the number of cleared files, or none if the hook stops here; only then is the
rest of the list written back. -/
def clearFiles (acc : T.AccountId) (territoryName : TerrName) :
    (list : List UserFileSliceInfo) → list.length ≤ T.userFileLimit → ℕ → PalletM T (Option ℕ)
  | [], _, count => pure (some count)
  | fileInfo :: rest, hlen, count =>
    have hrest : rest.length ≤ T.userFileLimit := (Nat.le_succ _).trans hlen
    if fileInfo.territoryName ≠ territoryName then
      clearFiles acc territoryName rest hrest count
    else
      let count := (checkedAdd 32 count 1).getD onceMaxClearFile
      if count = onceMaxClearFile then do
        putHeld T acc ⟨rest.reverse, by rw [List.length_reverse]; exact hrest⟩
        pure none
      else do
        clearFile T acc fileInfo.fileHash
        clearFiles acc territoryName rest hrest count

/-- The loop over the accounts whose territories have expired. -/
def clearUsers : List (T.AccountId × TerrName) → ℕ → PalletM T Unit
  | [], _ => pure ()
  | (acc, territoryName) :: rest, count => do
    match (← get).userHoldFileList.lookup acc with
    | some held => do
      match ← clearFiles T acc territoryName held.val.reverse
          (by rw [List.length_reverse]; exact held.property) count with
      | some count => do
        modify fun w =>
          { w with clearUserList := w.clearUserList.retain fun entry => entry.1 ≠ acc }
        clearUsers rest count
      | none => pure ()
    | none => clearUsers rest count

/-- `on_initialize`. -/
def onInitialize : PalletM T Unit := do
  let clearList ← liftStorage T (StorageHandler.frozenTask T.toConfig)
  let clearList := (BoundedVec.tryFrom 2000 clearList).getD BoundedVec.empty
  modify fun w => { w with clearUserList := clearList }
  clearUsers T clearList.val 0

/-! ## Calls on files -/

/-- The space of a file with the given number of segments, as `upload_declaration` and
`territory_file_delivery` compute it. -/
def fragmentSpace (segments : ℕ) : PalletM T ℕ := do
  let space ← okOr (checkedMul 128 fragmentSize fragmentCount) .overflow
  okOr (checkedMul 128 space segments) .overflow

/-- `upload_declaration`. -/
def uploadDeclaration (sender : T.AccountId) (fileHash : Hash)
    (dealInfo : BoundedVec SegmentList T.segmentCount) (userBrief : UserBrief T)
    (fileSize : ℕ) : PalletM T Unit := do
  let w ← get
  ensure (checkPermission w sender userBrief.user = true) .noPermission
  ensure (checkFileSpec dealInfo = true) .specError
  ensure (userBrief.fileName.val.length ≥ T.nameMinLength) .specError
  ensure (userBrief.bucketName.val.length ≥ T.nameMinLength) .specError
  if fileHash ∈ w.file then
    flyUploadFile T fileHash userBrief
  else
    let neededSpace ← fragmentSpace T dealInfo.val.length
    let avail ← liftStorage T
      (StorageHandler.getUserAvailSpace T.toConfig userBrief.user userBrief.territoryName)
    ensure (avail > neededSpace) .insufficientAvailableSpace
    generateDeal T fileHash dealInfo userBrief neededSpace fileSize
  depositEvent T (.uploadDeclaration sender userBrief.user fileHash)

/-- `territory_file_delivery`; the owner's territory in the file itself is changed in a copy
only. -/
def territoryFileDelivery (sender user : T.AccountId) (fileHash : Hash)
    (targetTerritory : TerrName) : PalletM T Unit := do
  let w ← get
  ensure (checkPermission w sender user = true) .noPermission
  ensure (checkIsFileOwner w user fileHash = true) .notOwner
  let fileInfo ← okOr (w.file.lookup fileHash) .nonExistent
  ensure (fileInfo.stat = .active) .notActive
  liftStorage T (StorageHandler.checkTerritryOwner T.toConfig user targetTerritory)
  fileInfo.owner.val.forM fun brief =>
    if brief.user = user then do
      let space ← fragmentSpace T fileInfo.segmentList.val.length
      liftStorage T
        (StorageHandler.subTerritoryUsedSpace T.toConfig user brief.territoryName space)
      liftStorage T (StorageHandler.addTerritoryUsedSpace T.toConfig user targetTerritory space)
    else pure ()
  putHeld T user (((← get).heldBy user).map fun slice =>
    if slice.fileHash = fileHash then { slice with territoryName := targetTerritory } else slice)
  depositEvent T (.territoryFileDelivery fileHash targetTerritory)

/-- `transfer_report`. -/
def transferReport (sender : T.AccountId) (index : ℕ) (dealHash : Hash) : PalletM T Unit := do
  ensure (index ≤ fragmentCount) .specError
  ensure (index > 0) .specError
  let positive ← liftMiner T (Sminer.isPositive sender)
  ensure (positive = true) .minerStateError
  let w ← get
  let dealInfo ← okOr (w.dealMap.lookup dealHash) .nonExistent
  if StorageHandler.checkExpired w.storage dealInfo.user.user dealInfo.user.territoryName then
    dealInfo.forceUnlockSpace T
    modify fun w => { w with dealMap := w.dealMap.erase dealHash }
  else
    qualificationReportProcessing T sender dealHash dealInfo index
    depositEvent T (.transferReport sender dealHash)

/-- `sr25519::Signature::try_from`. -/
def toSignature (sig : BoundedVec UInt8 64) : Option Sminer.TeeSig :=
  if h : sig.val.length = 64 then some ⟨sig.val, h⟩ else none

/-- A signature is one of the master key over the message. -/
def verifySignature (sig : BoundedVec UInt8 64)
    (message : Message T.AccountId T.WorkerPublicKey) : PalletM T Unit := do
  let sig ← okOr (toSignature sig) .malformedSignature
  let w ← get
  ensure (T.verifyMasterSig w.outside sig message = true) .verifyTeeSigFailed

/-- The points a bonded worker earns. -/
def increasePoint (increase : T.Outside → T.AccountId → ℕ → Option T.Outside)
    (teePuk : T.WorkerPublicKey) (space : ℕ) : PalletM T Unit := do
  let w ← get
  if T.isBonded w.outside teePuk then
    let bondStash ← okOr (T.getStash w.outside teePuk) .teeWorker
    updateOutside T .credit fun outside => increase outside bondStash space
  else pure ()

/-- `update_work_block`, in this block. -/
def updateWorkBlock (teePuk : T.WorkerPublicKey) : PalletM T Unit := do
  let now := (← get).now
  updateOutside T .teeWorker fun outside => T.updateWorkBlock outside now teePuk

/-- The change of the file in `calculate_report`: the fragments of the sender that have no tag
yet get one, and are matched with the digests. -/
def tagFragments (sender : T.AccountId) (info : TagSigInfo T.AccountId T.WorkerPublicKey)
    (file : FileInfo T) : PalletM T (FileInfo T) := do
  let now := (← get).now
  let untagged := file.fragments.filter fun f => f.miner = sender ∧ f.tag = none
  let calculateDetails := groupByKey (info.digest.val.map fun d => (d.fragment, d.teePuk))
  let teeTagCounter := countBytes (info.digest.val.map fun d => d.teePuk)
  let fragmentCounter := countBytes (untagged.map fun f => f.hash)
  let hashList ← okOr (untagged.mapM fun f => f.hash.binary) .bugInvalid
  ensure (∀ e ∈ fragmentCounter.entries,
    (calculateDetails.lookup e.1).map List.length = some e.2.toNat) .digestError
  let unlockSpace ← okOr (checkedMul 128 fragmentSize untagged.length) .overflow
  liftMiner T (Sminer.unlockSpaceToService sender unlockSpace)
  liftMiner T (Sminer.insertServiceBloom sender hashList)
  (btreeEntries T.workerOrder teeTagCounter).forM fun p => do
    increasePoint T T.increasePointForTag p.1 (fragmentSize * p.2.toNat)
    updateWorkBlock T p.1
  depositEvent T (.calculateReport sender info.fileHash)
  pure (file.mapFragments fun f =>
    if f.miner = sender ∧ f.tag = none then { f with tag := some now } else f)

/-- `calculate_report`. -/
def calculateReport (sender : T.AccountId) (teeSig : BoundedVec UInt8 64)
    (info : TagSigInfo T.AccountId T.WorkerPublicKey) : PalletM T Unit := do
  verifySignature T teeSig (.tag info)
  ensure (info.miner = sender) .minerError
  let w ← get
  ensure (∀ d ∈ info.digest.val, T.canTag w.outside d.teePuk = true) .teeNoPermission
  tryMutateFile T info.fileHash .nonExistent (tagFragments T sender info)

/-- `delete_file`. -/
def deleteFile (sender owner : T.AccountId) (fileHash : Hash) : PalletM T Unit := do
  let w ← get
  ensure (checkPermission w sender owner = true) .noPermission
  let file ← okOr (w.file.lookup fileHash) .nonExistent
  deleteUserFile T fileHash owner file
  bucketRemoveFile T fileHash owner file
  removeUserHoldFileList T fileHash owner
  depositEvent T (.deleteFile sender owner fileHash)

/-! ## Calls on idle space -/

/-- The common beginning of `replace_idle_space` and `cert_idle_space`. -/
def verifySpaceProof (info : SpaceProofInfo T.AccountId) (sigNeedVerify : BoundedVec UInt8 64)
    (teePuk : T.WorkerPublicKey) : PalletM T Unit := do
  let w ← get
  ensure (T.canCert w.outside teePuk = true) .teeNoPermission
  verifySignature T sigNeedVerify (.space info teePuk)
  updateWorkBlock T teePuk

/-- `replace_idle_space`. -/
def replaceIdleSpace (sender : T.AccountId) (info : SpaceProofInfo T.AccountId)
    (sigNeedVerify sig : BoundedVec UInt8 64) (teePuk : T.WorkerPublicKey) :
    PalletM T Unit := do
  verifySpaceProof T info sigNeedVerify teePuk
  let sig ← okOr (toSignature sig) .malformedSignature
  let count ← liftMiner T
    (Sminer.deleteIdleUpdateAccu sender info.accumulator info.front info.rear sig)
  let replaceSpace ← okOr (checkedMul 128 idleSegSize count) .overflow
  liftMiner T (Sminer.decreaseReplaceSpace sender replaceSpace)
  increasePoint T T.increasePointForReplace teePuk replaceSpace
  depositEvent T (.replaceIdleSpace sender replaceSpace)

/-- `cert_idle_space`. -/
def certIdleSpace (sender : T.AccountId) (info : SpaceProofInfo T.AccountId)
    (sigNeedVerify sig : BoundedVec UInt8 64) (teePuk : T.WorkerPublicKey) :
    PalletM T Unit := do
  verifySpaceProof T info sigNeedVerify teePuk
  let sig ← okOr (toSignature sig) .malformedSignature
  let idleSpace ← liftMiner T
    (Sminer.addMinerIdleSpace sender info.accumulator info.front info.rear sig)
  increasePoint T T.increasePointForCert teePuk idleSpace
  liftStorage T (StorageHandler.addTotalIdleSpace T.toConfig idleSpace)
  depositEvent T (.idleSpaceCert sender idleSpace)

/-! ## Calls on buckets -/

/-- `create_bucket`. -/
def createBucket (sender owner : T.AccountId) (name : NameStr T) : PalletM T Unit := do
  let w ← get
  ensure (checkPermission w sender owner = true) .noPermission
  createBucketHelper T owner name none
  depositEvent T (.createBucket sender owner name.val)

/-- `delete_bucket`. -/
def deleteBucket (sender owner : T.AccountId) (name : NameStr T) : PalletM T Unit := do
  let w ← get
  ensure (checkPermission w sender owner = true) .noPermission
  let bucket ← okOr (w.bucket.lookup (owner, name)) .nonExistent
  ensure (bucket.objectList.val.length = 0) .notEmpty
  modify fun w => { w with bucket := w.bucket.erase (owner, name) }
  let list := (← get).bucketsOf owner
  ensure (name ∈ list.val) .panic
  putBuckets T owner (list.removeFirst fun name' => name' = name)
  depositEvent T (.deleteBucket sender owner name.val)

/-! ## Restoral orders -/

/-- `generate_restoral_order`. -/
def generateRestoralOrder (sender : T.AccountId) (fileHash restoralFragment : Hash) :
    PalletM T Unit := do
  let w ← get
  ensure (¬ restoralFragment ∈ w.restoralOrder) .existed
  let wanted : FragmentInfo T → Bool := fun f => f.hash = restoralFragment ∧ f.miner = sender
  tryMutateFile T fileHash .nonExistent fun file => do
    ensure (file.fragments.any wanted = true) .specError
    let restoralOrder : RestoralOrderInfo T :=
      { count := 0, miner := sender, originMiner := sender, fileHash := fileHash,
        fragmentHash := restoralFragment, genBlock := w.now, deadline := 0 }
    modify fun w =>
      { w with restoralOrder := w.restoralOrder.insert restoralFragment restoralOrder }
    depositEvent T (.generateRestoralOrder sender restoralFragment)
    pure (file.modifyFirst wanted fun f => { f with avail := false })

/-- `claim_restoral_order`. -/
def claimRestoralOrder (sender : T.AccountId) (restoralFragment : Hash) : PalletM T Unit := do
  let positive ← liftMiner T (Sminer.isPositive sender)
  ensure (positive = true) .minerStateError
  let w ← get
  let order ← okOr (w.restoralOrder.lookup restoralFragment) .nonExistent
  ensure (w.now > order.deadline) .specError
  let count ← okOr (checkedAdd 32 order.count 1) .overflow
  let deadline ← okOr (checkedAdd 32 w.now T.restoralOrderLife) .overflow
  modify fun w =>
    { w with
      restoralOrder := w.restoralOrder.insert restoralFragment
        { order with count := count, deadline := deadline, miner := sender } }
  depositEvent T (.claimRestoralOrder sender restoralFragment)

/-- `claim_restoral_noexist_order`. -/
def claimRestoralNoexistOrder (sender miner : T.AccountId) (fileHash restoralFragment : Hash) :
    PalletM T Unit := do
  let positive ← liftMiner T (Sminer.isPositive sender)
  ensure (positive = true) .minerStateError
  let w ← get
  ensure (¬ restoralFragment ∈ w.restoralOrder) .existed
  ensure (Sminer.restoralTargetIsExist w.miner miner = true) .nonExistent
  let wanted : FragmentInfo T → Bool := fun f => f.hash = restoralFragment ∧ f.miner = miner
  tryMutateFile T fileHash .nonExistent fun file => do
    ensure (file.fragments.any wanted = true) .specError
    let deadline ← okOr (checkedAdd 32 w.now T.restoralOrderLife) .overflow
    let restoralOrder : RestoralOrderInfo T :=
      { count := 0, miner := sender, originMiner := miner, fileHash := fileHash,
        fragmentHash := restoralFragment, genBlock := w.now, deadline := deadline }
    modify fun w =>
      { w with restoralOrder := w.restoralOrder.insert restoralFragment restoralOrder }
    pure (file.modifyFirst wanted fun f => { f with avail := false })
  depositEvent T (.claimRestoralOrder sender restoralFragment)

/-- The transfer of a fragment to the miner that has restored it. -/
def restoreFragment (sender : T.AccountId) (fragment : FragmentInfo T) : PalletM T Unit := do
  let binary ← okOr fragment.hash.binary .bugInvalid
  liftMiner T (Sminer.insertServiceBloom sender [binary])
  liftMiner T (Sminer.addMinerServiceSpace sender fragmentSize)
  liftMiner T (Sminer.deleteIdleUpdateSpace sender fragmentSize)
  liftMiner T (Sminer.increaseReplaceSpace sender fragmentSize)
  if Sminer.restoralTargetIsExist (← get).miner fragment.miner then
    liftMiner T (Sminer.updateRestoralTarget fragment.miner fragmentSize)
  else if fragment.tag.isSome then
    liftMiner T (Sminer.deleteServiceBloom fragment.miner [binary])
    liftMiner T (Sminer.subMinerServiceSpace fragment.miner fragmentSize)
  else
    liftMiner T (Sminer.unlockSpaceDirect fragment.miner fragmentSize)

/-- `restoral_order_complete`.  The loops over the file look for the first fragment of that
hash that the sender or the original miner holds. -/
def restoralOrderComplete (sender : T.AccountId) (fragmentHash : Hash) : PalletM T Unit := do
  let positive ← liftMiner T (Sminer.isPositive sender)
  ensure (positive = true) .minerStateError
  let w ← get
  let order ← okOr (w.restoralOrder.lookup fragmentHash) .nonExistent
  ensure (order.miner = sender) .specError
  ensure (w.now < order.deadline) .expired
  if ¬ order.fileHash ∈ w.file then
    modify fun w => { w with restoralOrder := w.restoralOrder.erase fragmentHash }
  else
    let wanted : FragmentInfo T → Bool := fun f =>
      f.hash = fragmentHash ∧ (f.miner = sender ∨ f.miner = order.originMiner)
    tryMutateFile T order.fileHash .bugInvalid fun file => do
      match file.fragments.find? wanted with
      | some fragment => do
        ensure (fragment.miner ≠ sender) .rulesNotAllowed
        restoreFragment T sender fragment
        pure (file.modifyFirst wanted fun f =>
          { f with tag := some w.now, avail := true, miner := sender })
      | none => pure file
    modify fun w => { w with restoralOrder := w.restoralOrder.erase fragmentHash }
    depositEvent T (.recoveryCompleted sender fragmentHash)

end FileBank
