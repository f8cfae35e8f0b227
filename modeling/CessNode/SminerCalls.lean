/-
# Collateral, rewards and exits of miners

The rest of `pallets/sminer`: what works on the currency, the treasury, the reservoir and
storage-handler besides the pallet's own storage.

* the collateral and its punishments (`depositPunish`, `clearPunish`, `servicePunish`);
* the rewards: snapshots of passed challenges (`recordSnapShot`), the orders made of them
  (`calculateMinerReward`) and their release (`distributeRewards`);
* the ways out: `minerExitPrep`, `minerExit` and `minerWithdraw`, or `forceMinerExit`;
* the dispatchable calls and the block hook that returns collateral.

The faucet, the root calls for tests, and the map `MinerPublicKey`, which is written but never
read, are left out.  Unchecked additions of the source wrap around (`wrappingAdd`).
-/
import CessNode.Treasury
import CessNode.Reservoir

open Dispatch Chain

namespace Sminer

/-! ## Constants -/

/-- `BASE_UNIT`: the collateral for a terabyte. -/
def baseUnit : ℕ := 4000000000000000000000

/-- A percentage as parts per billion. -/
def percent (p : ℕ) : ℕ := 10000000 * p

/-- `AOIR_PERCENT`: the part of a reward that is paid at once. -/
def aoirPercent : ℕ := percent 50

/-- An unchecked addition of `w` bits. -/
def wrappingAdd (w a b : ℕ) : ℕ := (a + b) % 2 ^ w

variable (T : Config)

/-- Stop with an error of the pallet unless there is a value. -/
def orElse {α : Type} (o : Option α) (e : Error) : ChainM T α := okOr o (.sminer e)

/-! ## Collateral -/

/-- `calculate_power`. -/
def calculatePower (idleSpace serviceSpace : ℕ) : ℕ :=
  mulFloor (percent 30) idleSpace + mulFloor (percent 70) serviceSpace

/-- `calculate_limit_by_space`. -/
def calculateLimitBySpace (space : ℕ) : Option ℕ := do
  let tibCount ← checkedDiv space tByte
  let tibCount ← if space % tByte ≠ 0 then checkedAdd 128 tibCount 1 else some tibCount
  checkedMul 128 baseUnit tibCount

/-- The middle of `deposit_punish`: the amount is taken from the collateral, or all of it and the
whole amount becomes a debt. -/
def seizeCollateral (miner : T.AccountId) (info : MinerInfo T.AccountId) (punishAmount : ℕ) :
    ChainM T (MinerInfo T.AccountId) := do
  if info.collaterals > punishAmount then do
    unreserveFor T miner info.stakingAccount punishAmount
    Treasury.sendToPid T info.stakingAccount punishAmount
    let collaterals ← orElse T (checkedSub info.collaterals punishAmount) .overflow
    pure { info with collaterals := collaterals }
  else do
    unreserveFor T miner info.stakingAccount info.collaterals
    Treasury.sendToPid T info.stakingAccount info.collaterals
    -- the collateral is set to zero first, so that nothing of it counts against the debt
    let debt ← orElse T (checkedSub punishAmount 0) .overflow
    pure { info with collaterals := 0, debt := debt }

/-- The first half of `deposit_punish`. -/
def takeCollateral (miner : T.AccountId) (info : MinerInfo T.AccountId) (punishAmount : ℕ) :
    ChainM T (MinerInfo T.AccountId) := do
  if info.stakingAccount = T.reservoirAcc then
    Reservoir.punish T miner punishAmount false
  seizeCollateral T miner info punishAmount

/-- The change of the record in `deposit_punish`. -/
def punishRecord (miner : T.AccountId) (punishAmount : ℕ) (info : MinerInfo T.AccountId) :
    ChainM T (MinerInfo T.AccountId) := do
  let info ← takeCollateral T miner info punishAmount
  let power := calculatePower info.idleSpace info.serviceSpace
  let limit ← orElse T (calculateLimitBySpace power) .overflow
  pure (if info.collaterals < limit then { info with state := .frozen } else info)

/-- `deposit_punish`. -/
def depositPunish (miner : T.AccountId) (punishAmount : ℕ) : ChainM T Unit :=
  mutateMiner T miner .notMiner (punishRecord T miner punishAmount)

/-- The punishment for a missed challenge, of a miner that has earned that reward. -/
def clearPunishAmount (reward limit count : ℕ) : ℕ :=
  if reward = 0 then 100
  else match count with
    | 1 => 0
    | 2 => mulFloor (percent 5) limit
    | _ => mulFloor (percent 15) limit

/-- `clear_punish`. -/
def clearPunish (miner : T.AccountId) (idleSpace serviceSpace count : ℕ) : ChainM T Unit := do
  let power := calculatePower idleSpace serviceSpace
  let limit ← orElse T (calculateLimitBySpace power) .overflow
  let w ← get
  let minerReward ← orElse T (w.miner.rewardMap.lookup miner) .notMiner
  depositPunish T miner (clearPunishAmount minerReward.totalReward limit count)

/-- `service_punish`. -/
def servicePunish (miner : T.AccountId) (idleSpace serviceSpace : ℕ) : ChainM T Unit := do
  let power := calculatePower idleSpace serviceSpace
  let limit ← orElse T (calculateLimitBySpace power) .overflow
  depositPunish T miner (mulFloor (percent 5) limit)

/-! ## Rewards -/

variable {T} in
/-- The value of `CompleteMinerSnapShot`, empty where nothing is stored. -/
def snapShotsOf (w : Chain.World T) (miner : T.AccountId) :
    BoundedVec MinerCompleteInfo releaseNumber :=
  (w.miner.completeMinerSnapShot.lookup miner).getD BoundedVec.empty

variable {T} in
/-- The value of `CompleteSnapShot`, zero where nothing is stored. -/
def completeOf (w : Chain.World T) (era : ℕ) : CompleteInfo :=
  (w.miner.completeSnapShot.lookup era).getD { minerCount := 0, totalPower := 0 }

/-- `CompleteMinerSnapShot::insert`. -/
def putSnapShots (miner : T.AccountId) (list : BoundedVec MinerCompleteInfo releaseNumber) :
    ChainM T Unit :=
  modifyMiner T fun s =>
    { s with completeMinerSnapShot := s.completeMinerSnapShot.insert miner list }

/-- `record_snap_shot`. -/
def recordSnapShot (miner : T.AccountId) (idleSpace serviceSpace : ℕ) : ChainM T Unit := do
  modify fun w =>
    { w with history := { w.history with recorded := w.history.recorded ++ [(miner, w.now)] } }
  let w ← get
  let era := T.currentEra w.outside
  let power := calculatePower idleSpace serviceSpace
  let list := snapShotsOf w miner
  if list.val.length = releaseNumber then
    pure ()
  else
    let info := completeOf w era
    let minerCount ← orElse T (checkedAdd 32 info.minerCount 1) .overflow
    let totalPower ← orElse T (checkedAdd 128 info.totalPower power) .overflow
    modifyMiner T fun s =>
      { s with
        completeSnapShot := s.completeSnapShot.insert era
          { minerCount := minerCount, totalPower := totalPower } }
    let list ← orElse T (list.tryPush
      { eraIndex := era, issued := false, finshBlock := w.now, power := power }) .overflow
    putSnapShots T miner list

/-- One round of the first loop of `calculate_miner_reward`: the order for the snapshot at a
position, once its era is over.  The mark set on it stays, even if a later round stops. -/
def issueSnapShot (miner : T.AccountId) (p : MinerCompleteInfo × ℕ) :
    ChainM T (Option RewardOrder) := do
  let w ← get
  if p.1.issued = true ∨ p.1.eraIndex ≥ T.currentEra w.outside then
    pure none
  else
    let totalPower := (completeOf w p.1.eraIndex).totalPower
    let totalReward := (w.treasury.roundOf p.1.eraIndex).1
    ensure (totalReward ≠ 0) (.sminer .unexpected)
    let minerProp := T.fromRational p.1.power totalPower
    let thisRoundReward := mulFloor minerProp totalReward
    Treasury.subRoundReward T p.1.eraIndex thisRoundReward
    let eachReward ← orElse T (checkedDiv (mulFloor aoirPercent thisRoundReward) releaseNumber)
      .overflow
    putSnapShots T miner
      ((snapShotsOf (← get) miner).modify p.2 fun snapShot => { snapShot with issued := true })
    pure (some
      { receiveCount := 0, maxCount := releaseNumber, atonce := false,
        orderReward := thisRoundReward, eachAmount := eachReward,
        lastReceiveBlock := p.1.finshBlock })

/-- The first loop of `calculate_miner_reward`: the orders for all snapshots of past eras. -/
def issueSnapShots (miner : T.AccountId) : ChainM T (List RewardOrder) := do
  let list := snapShotsOf (← get) miner
  let orders ← list.val.zipIdx.mapM (issueSnapShot T miner)
  putSnapShots T miner ((snapShotsOf (← get) miner).retain fun snapShot => !snapShot.issued)
  pure orders.reduceOption

/-- One round of the second loop of `calculate_miner_reward`, on the reward and the sum of the
new orders.  If there was no room for orders, the reward goes to the reserve. -/
def bookOrder (room : Bool) (acc : Reward × ℕ) (order : RewardOrder) : ChainM T (Reward × ℕ) := do
  if room then do
    let total ← orElse T (checkedAdd 128 acc.1.totalReward order.orderReward) .overflow
    let newReward ← orElse T (checkedAdd 128 acc.2 order.orderReward) .overflow
    let orderList ← orElse T (acc.1.orderList.tryPush order) .boundedVecError
    pure ({ acc.1 with totalReward := total, orderList := orderList }, newReward)
  else do
    let newReward ← orElse T (checkedAdd 128 acc.2 order.orderReward) .overflow
    Treasury.rewardReserve T order.orderReward
    pure (acc.1, newReward)

/-- `RewardMap::try_mutate`. -/
def tryMutateReward (miner : T.AccountId) (f : Reward → ChainM T Reward) : ChainM T Unit :=
  tryMutate (fun w : Chain.World T => w.miner.rewardMap.lookup miner)
    (fun reward w => w.setMiner { w.miner with rewardMap := w.miner.rewardMap.insert miner reward })
    (.sminer .unexpected) fun reward => do pure ((), ← f reward)

/-- `calculate_miner_reward`. -/
def calculateMinerReward (miner : T.AccountId) : ChainM T Unit := do
  let orders ← issueSnapShots T miner
  if orders.length = 0 then
    pure ()
  else
    tryMutateReward T miner fun reward => do
      let room := decide (reward.orderList.val.length ≠ releaseNumber)
      let (reward, newReward) ← orders.foldlM (bookOrder T room) (reward, 0)
      Treasury.subReward T newReward
      pure reward

/-- The days of an order that are due, counted in a saturating byte. -/
def availCount (order : RewardOrder) (count : ℕ) : Option ℕ :=
  if min 255 (order.receiveCount + min 255 count) > order.maxCount then
    checkedSub order.maxCount order.receiveCount
  else some (min 255 count)

/-- The first half of a round of `distribute_rewards`: the due days of an order. -/
def releaseDays (now : ℕ) (avail : ℕ) (order : RewardOrder) : ChainM T (ℕ × RewardOrder) := do
  let diff ← orElse T (checkedSub now order.lastReceiveBlock) .overflow
  if diff ≥ T.oneDay then do
    let count ← orElse T (checkedDiv diff T.oneDay) .overflow
    let days ← orElse T (availCount order count) .unexpected
    if days > 0 then do
      let reward ← orElse T (checkedMul 128 order.eachAmount days) .overflow
      let avail ← orElse T (checkedAdd 128 avail reward) .overflow
      let receiveCount ← orElse T (checkedAdd 8 order.receiveCount days) .overflow
      pure (avail, { order with receiveCount := receiveCount, lastReceiveBlock := now })
    else pure (avail, order)
  else pure (avail, order)

/-- A round of `distribute_rewards`: the due days of an order and the part paid at once. -/
def releaseOrder (now : ℕ) (acc : ℕ × List RewardOrder) (order : RewardOrder) :
    ChainM T (ℕ × List RewardOrder) := do
  let (avail, order) ← releaseDays T now acc.1 order
  if order.atonce then
    pure (avail, acc.2 ++ [order])
  else do
    let avail ← orElse T (checkedAdd 128 avail (mulFloor aoirPercent order.orderReward)) .overflow
    pure (avail, acc.2 ++ [{ order with atonce := true }])

/-- `distribute_rewards`. -/
def distributeRewards (miner beneficiary : T.AccountId) : ChainM T Unit :=
  tryMutateReward T miner fun reward => do
    let now := (← get).now
    let (avail, orders) ← reward.orderList.val.foldlM (releaseOrder T now) (0, [])
    -- as many orders as before, so that they fit
    let orderList ← orElse T (BoundedVec.tryFrom releaseNumber orders) .boundedVecError
    let issued ← orElse T (checkedAdd 128 reward.rewardIssued avail) .overflow
    Treasury.sendRewardToMiner T beneficiary avail
    depositEvent T (.receive beneficiary avail)
    pure { reward with
      rewardIssued := issued
      orderList := orderList.retain fun order => decide (order.maxCount ≠ order.receiveCount) }

/-! ## Exits -/

/-- The block up to which `create_restoral_target` lets an exited miner wait: a day for every
terabyte, and one more. -/
def coolingBlock (now serviceSpace : ℕ) : Option ℕ := do
  let days ← checkedDiv serviceSpace tByte
  let days ← checkedAdd 128 days 1
  let blocks ← checkedMul 128 T.oneDay days
  -- `as u32` keeps the low 32 bits
  checkedAdd 32 now (blocks % 2 ^ 32)

/-- `create_restoral_target`. -/
def createRestoralTarget (miner : T.AccountId) (serviceSpace : ℕ) : ChainM T Unit := do
  let w ← get
  let coolingBlock ← orElse T (coolingBlock T w.now serviceSpace) .overflow
  modifyMiner T fun s =>
    { s with
      restoralTarget := s.restoralTarget.insert miner
        { miner := miner, serviceSpace := serviceSpace, restoredSpace := 0,
          coolingBlock := coolingBlock } }

/-- The first write of `execute_exit` and of `force_miner_exit`. -/
def dropMiner (acc : T.AccountId) : ChainM T Unit :=
  modifyMiner T fun s => { s with allMiner := s.allMiner.filter fun a => a ≠ acc }

/-- `execute_exit`. -/
def executeExit (acc : T.AccountId) : ChainM T Unit := do
  dropMiner T acc
  mutateMiner T acc .unexpected fun info => pure { info with state := .exit }

/-- The collateral of a miner goes back to its staking account, and if that is a loan, to the
reservoir: the same lines in `withdraw` and in `force_miner_exit`. -/
def releaseCollateral (miner : T.AccountId) (info : MinerInfo T.AccountId) : ChainM T Unit := do
  if info.stakingAccount = T.reservoirAcc then
    Reservoir.redeem T miner info.collaterals false
  unreserveFor T miner info.stakingAccount info.collaterals

/-- `withdraw`. -/
def withdraw (miner : T.AccountId) : ChainM T Unit := do
  let w ← get
  let info ← orElse T (w.miner.minerItems.lookup miner) .notMiner
  releaseCollateral T miner info
  ensure (info.spaceProofInfo.isSome = true) (.sminer .notpositiveState)
  modifyMiner T fun s => { s with pendingReplacements := s.pendingReplacements.erase miner }

/-- The first part of `force_miner_exit`, on the rewards and the collateral: without a reward
the collateral is returned, otherwise it is put on the schedule. -/
def settleExit (acc : T.AccountId) (info : MinerInfo T.AccountId) : ChainM T Unit := do
  let w ← get
  match w.miner.rewardMap.lookup acc with
  | none => pure ()
  | some rewardInfo =>
    if rewardInfo.totalReward = 0 then
      releaseCollateral T acc info
    else do
      calculateMinerReward T acc
      distributeRewards T acc info.beneficiary
      -- the reward as it was before the last payout
      let residueReward ← orElse T (checkedSub rewardInfo.totalReward rewardInfo.rewardIssued)
        .overflow
      Treasury.addReward T residueReward
      let w ← get
      let startBlock ← orElse T (w.miner.stakingStartBlock.lookup acc) .bugInvalid
      let execBlock ← orElse T (checkedAdd 32 startBlock T.stakingLockBlock) .overflow
      let list := (w.miner.returnStakingSchedule.lookup execBlock).getD []
      ensure (list.length < T.itemLimit) (.sminer .boundedVecError)
      modifyMiner T fun s =>
        { s with
          returnStakingSchedule := s.returnStakingSchedule.insert execBlock
            (list ++ [(acc, info.stakingAccount, info.collaterals)]) }

/-- The change of the record in `force_miner_exit`. -/
def expel (acc : T.AccountId) (info : MinerInfo T.AccountId) :
    ChainM T (MinerInfo T.AccountId) := do
  settleExit T acc info
  liftStorage T (StorageHandler.subTotalIdleSpace T.toBank.toConfig
    (wrappingAdd 128 info.idleSpace info.lockSpace))
  createRestoralTarget T acc (wrappingAdd 128 info.serviceSpace info.lockSpace)
  ensure (info.spaceProofInfo.isSome = true) (.sminer .notpositiveState)
  pure { info with state := .offline }

/-- `force_miner_exit`. -/
def forceMinerExit (acc : T.AccountId) : ChainM T Unit := do
  dropMiner T acc
  mutateMiner T acc .unexpected (expel T acc)
  modifyMiner T fun s =>
    { s with
      completeMinerSnapShot := s.completeMinerSnapShot.erase acc
      rewardMap := s.rewardMap.erase acc
      pendingReplacements := s.pendingReplacements.erase acc }

/-! ## Calls -/

/-- The record of a new miner. -/
def newMiner (beneficiary stakingAccount : T.AccountId) (peerId : PeerId)
    (collaterals declarationSpace : ℕ) : MinerInfo T.AccountId where
  beneficiary := beneficiary
  stakingAccount := stakingAccount
  peerId := peerId
  collaterals := collaterals
  debt := 0
  state := .notReady
  declarationSpace := declarationSpace
  idleSpace := 0
  serviceSpace := 0
  lockSpace := 0
  spaceProofInfo := none
  serviceBloomFilter := fun _ => 0
  teeSignature := zeroSig

/-- The last writes of the two registrations. -/
def registerMiner (sender : T.AccountId) (info : MinerInfo T.AccountId) : ChainM T Unit := do
  modifyMiner T fun s =>
    { s with
      minerItems := s.minerItems.insert sender info
      rewardMap := s.rewardMap.insert sender
        { totalReward := 0, rewardIssued := 0, orderList := BoundedVec.empty } }
  depositEvent T (.registered sender)

/-- `StakingStartBlock::insert` of this block. -/
def startStaking (miner : T.AccountId) : ChainM T Unit := do
  let now := (← get).now
  modifyMiner T fun s => { s with stakingStartBlock := s.stakingStartBlock.insert miner now }

/-- `regnstk`. -/
def regnstk (sender beneficiary : T.AccountId) (peerId : PeerId) (stakingVal tibCount : ℕ) :
    ChainM T Unit := do
  let w ← get
  ensure (¬ sender ∈ w.miner.minerItems) (.sminer .alreadyRegistered)
  let declarationSpace ← orElse T (checkedMul 128 tByte tibCount) .overflow
  let baseLimit ← orElse T (calculateLimitBySpace declarationSpace) .overflow
  ensure (stakingVal ≥ baseLimit) (.sminer .collateralNotUp)
  reserveFor T sender sender stakingVal
  startStaking T sender
  registerMiner T sender (newMiner T beneficiary sender peerId stakingVal declarationSpace)

/-- `regnstk_assign_staking`. -/
def regnstkAssignStaking (sender beneficiary : T.AccountId) (peerId : PeerId)
    (stakingAccount : T.AccountId) (tibCount : ℕ) : ChainM T Unit := do
  let w ← get
  ensure (¬ sender ∈ w.miner.minerItems) (.sminer .alreadyRegistered)
  let declarationSpace ← orElse T (checkedMul 128 tByte tibCount) .overflow
  if stakingAccount = T.reservoirAcc then do
    let needStaking ← orElse T (checkedMul 128 baseUnit tibCount) .overflow
    Reservoir.checkQualification T sender needStaking
    Reservoir.staking T sender needStaking true
    startStaking T sender
    registerMiner T sender
      (newMiner T beneficiary stakingAccount peerId needStaking declarationSpace)
  else
    registerMiner T sender (newMiner T beneficiary stakingAccount peerId 0 declarationSpace)

/-- The part of `increase_collateral` that pays a debt; the result is the record and what is
left of the collateral. -/
def payDebt (sender : T.AccountId) (info : MinerInfo T.AccountId) (collaterals : ℕ) :
    ChainM T (MinerInfo T.AccountId × ℕ) := do
  let payer := if info.stakingAccount = T.reservoirAcc then info.stakingAccount else sender
  if info.debt > 0 then do
    if info.debt > collaterals then do
      let debt ← orElse T (checkedSub info.debt collaterals) .overflow
      Treasury.sendToPid T payer collaterals
      pure ({ info with debt := debt }, 0)
    else do
      let remaining ← orElse T (checkedSub collaterals info.debt) .overflow
      Treasury.sendToPid T payer info.debt
      pure ({ info with debt := 0 }, remaining)
  else pure (info, collaterals)

/-- The checks of `increase_collateral` on a loan. -/
def checkLoan (sender miner : T.AccountId) (info : MinerInfo T.AccountId) (collaterals : ℕ) :
    ChainM T Unit :=
  if info.stakingAccount = T.reservoirAcc then do
    ensure (sender = miner) (.sminer .notStakingAcc)
    Reservoir.checkQualification T sender collaterals
  else pure ()

/-- A frozen record with enough collateral thaws. -/
def thaw (info : MinerInfo T.AccountId) : ChainM T (MinerInfo T.AccountId) :=
  if info.state = .frozen then do
    let limit ← orElse T (calculateLimitBySpace info.declarationSpace) .overflow
    pure (if info.collaterals ≥ limit then { info with state := .positive } else info)
  else pure info

/-- The part of `increase_collateral` that reserves the new collateral. -/
def stakeMore (sender miner : T.AccountId) (info : MinerInfo T.AccountId) (remaining : ℕ) :
    ChainM T Unit :=
  if info.stakingAccount = T.reservoirAcc then Reservoir.staking T miner remaining true
  else reserveFor T miner sender remaining

/-- `increase_collateral`. -/
def increaseCollateral (sender miner : T.AccountId) (collaterals : ℕ) : ChainM T Unit := do
  let w ← get
  ensure (miner ∈ w.miner.minerItems) (.sminer .notMiner)
  mutateMiner T miner .conversionError fun info => do
    ensure (info.state ≠ .offline) (.sminer .stateError)
    ensure (info.state ≠ .lock) (.sminer .stateError)
    ensure (info.state ≠ .exit) (.sminer .stateError)
    ensure (info.stakingAccount = sender ∨ info.stakingAccount = T.reservoirAcc)
      (.sminer .notStakingAcc)
    checkLoan T sender miner info collaterals
    let (info, remaining) ← payDebt T sender info collaterals
    let total ← orElse T (checkedAdd 128 info.collaterals remaining) .overflow
    let info ← thaw T { info with collaterals := total }
    startStaking T miner
    stakeMore T sender miner info remaining
    depositEvent T (.increaseCollateral sender info.collaterals)
    pure info

/-- `update_beneficiary`. -/
def updateBeneficiary (sender beneficiary : T.AccountId) : ChainM T Unit := do
  let w ← get
  ensure (sender ∈ w.miner.minerItems) (.sminer .notMiner)
  mutateMiner T sender .conversionError fun info =>
    pure { info with beneficiary := beneficiary }
  depositEvent T (.updateBeneficiary sender beneficiary)

/-- `update_peer_id`. -/
def updatePeerId (sender : T.AccountId) (peerId : PeerId) : ChainM T Unit := do
  let w ← get
  let info ← orElse T (w.miner.minerItems.lookup sender) .notMiner
  mutateMiner T sender .conversionError fun info => pure { info with peerId := peerId }
  depositEvent T (.updatePeerId sender info.peerId peerId)

/-- `receive_reward`. -/
def receiveReward (sender : T.AccountId) : ChainM T Unit := do
  let w ← get
  match w.miner.minerItems.lookup sender with
  | none => pure ()
  | some miner => do
    ensure (miner.state = .positive ∨ miner.state = .exit) (.sminer .notpositiveState)
    calculateMinerReward T sender
    distributeRewards T sender miner.beneficiary

/-- `miner_exit_prep`.  The record that is checked and locked is the one of the sender, the
task that is scheduled the exit of `miner`. -/
def minerExitPrep (sender miner : T.AccountId) : ChainM T Unit := do
  let w ← get
  ensure (∀ lockTime ∈ w.miner.minerLock.lookup miner, w.now > lockTime) (.sminer .stateError)
  let stakingStartBlock ← orElse T (w.miner.stakingStartBlock.lookup miner) .bugInvalid
  ensure (w.now > wrappingAdd 32 stakingStartBlock T.stakingLockBlock)
    (.sminer .insufficientStakingPeriod)
  mutateMiner T sender .notExisted fun info => do
    ensure (sender = miner ∨ sender = info.stakingAccount) (.sminer .notStakingAcc)
    ensure (info.state = .positive) (.sminer .stateError)
    ensure (info.lockSpace = 0) (.sminer .stateError)
    pure { info with state := .lock }
  let lockTime ← orElse T (checkedMul 32 T.oneDay 15) .overflow
  let lockTime ← orElse T (checkedAdd 32 lockTime w.now) .overflow
  modifyMiner T fun s => { s with minerLock := s.minerLock.insert miner lockTime }
  let agenda ← orElse T (T.scheduleExit w.bank.storage.agenda miner lockTime) .unexpected
  modify fun w =>
    { w with bank := { w.bank with storage := { w.bank.storage with agenda := agenda } } }
  depositEvent T (.minerExitPrep miner)

/-- `miner_exit`, called with root origin. -/
def minerExit (miner : T.AccountId) : ChainM T Unit := do
  let w ← get
  let info ← orElse T (w.miner.minerItems.lookup miner) .notExisted
  ensure (info.state = .lock) (.sminer .stateError)
  liftStorage T (StorageHandler.subTotalIdleSpace T.toBank.toConfig info.idleSpace)
  executeExit T miner
  createRestoralTarget T miner (wrappingAdd 128 info.serviceSpace info.lockSpace)

/-- `miner_withdraw`. -/
def minerWithdraw (sender : T.AccountId) : ChainM T Unit := do
  let w ← get
  let restoralInfo ← orElse T (w.miner.restoralTarget.lookup sender) .stateError
  ensure (¬ (w.now < restoralInfo.coolingBlock ∧
    restoralInfo.restoredSpace ≠ restoralInfo.serviceSpace)) (.sminer .stateError)
  withdraw T sender
  depositEvent T (.withdraw sender)

/-- `register_pois_key`. -/
def registerPoisKey (sender : T.AccountId) (poisKey : PoISKey)
    (teeSigNeedVerify teeSig : BoundedVec UInt8 64) (teePuk : T.WorkerPublicKey) :
    ChainM T Unit := do
  let w ← get
  ensure (sender ∈ w.miner.minerItems) (.sminer .notMiner)
  let proof : SpaceProofInfo T.AccountId :=
    { miner := sender, front := 0, rear := 0, poisKey := poisKey, accumulator := poisKey.g }
  let sig ← orElse T (FileBank.toSignature teeSigNeedVerify) .malformedSignature
  ensure (T.verifyMasterSig w.outside sig (.space proof teePuk) = true)
    (.sminer .verifyTeeSigFailed)
  updateOutside T .teeWorker fun outside => T.updateWorkBlock outside w.now teePuk
  let sig ← orElse T (FileBank.toSignature teeSig) .malformedSignature
  mutateMiner T sender .notMiner fun info => do
    ensure (info.state = .notReady) (.sminer .stateError)
    let baseLimit ← orElse T (calculateLimitBySpace info.declarationSpace) .overflow
    pure { info with
      spaceProofInfo := some proof
      state := if info.collaterals ≥ baseLimit then .positive else .frozen
      teeSignature := sig }
  ensure (w.miner.allMiner.length < T.itemLimit) (.sminer .storageLimitReached)
  modifyMiner T fun s => { s with allMiner := s.allMiner ++ [sender] }
  depositEvent T (.registerPoisKey sender)

/-- `increase_declaration_space`. -/
def increaseDeclarationSpace (sender : T.AccountId) (tibCount : ℕ) : ChainM T Unit := do
  let w ← get
  ensure (sender ∈ w.miner.minerItems) (.sminer .notMiner)
  let increaseSpace ← orElse T (checkedMul 128 tByte tibCount) .overflow
  mutateMiner T sender .conversionError fun info => do
    ensure (info.state = .positive) (.sminer .stateError)
    let declarationSpace ← orElse T (checkedAdd 128 info.declarationSpace increaseSpace) .overflow
    let baseLimit ← orElse T (calculateLimitBySpace declarationSpace) .overflow
    pure { info with
      declarationSpace := declarationSpace
      state := if baseLimit > info.collaterals then .frozen else info.state }
  depositEvent T (.increaseDeclarationSpace sender increaseSpace)

/-- A dispatchable call with its origin. -/
inductive Call where
  | regnstk (sender beneficiary : T.AccountId) (peerId : PeerId) (stakingVal tibCount : ℕ)
  | increaseCollateral (sender miner : T.AccountId) (collaterals : ℕ)
  | updateBeneficiary (sender beneficiary : T.AccountId)
  | updatePeerId (sender : T.AccountId) (peerId : PeerId)
  | receiveReward (sender : T.AccountId)
  | minerExitPrep (sender miner : T.AccountId)
  /-- Origin root, also as a task of the scheduler. -/
  | minerExit (miner : T.AccountId)
  | minerWithdraw (sender : T.AccountId)
  | registerPoisKey (sender : T.AccountId) (poisKey : PoISKey)
      (teeSigNeedVerify teeSig : BoundedVec UInt8 64) (teePuk : T.WorkerPublicKey)
  | regnstkAssignStaking (sender beneficiary : T.AccountId) (peerId : PeerId)
      (stakingAccount : T.AccountId) (tibCount : ℕ)
  | increaseDeclarationSpace (sender : T.AccountId) (tibCount : ℕ)

/-- The code of a call. -/
def Call.code : Call T → ChainM T Unit
  | .regnstk sender beneficiary peerId stakingVal tibCount =>
    Sminer.regnstk T sender beneficiary peerId stakingVal tibCount
  | .increaseCollateral sender miner collaterals =>
    Sminer.increaseCollateral T sender miner collaterals
  | .updateBeneficiary sender beneficiary => Sminer.updateBeneficiary T sender beneficiary
  | .updatePeerId sender peerId => Sminer.updatePeerId T sender peerId
  | .receiveReward sender => Sminer.receiveReward T sender
  | .minerExitPrep sender miner => Sminer.minerExitPrep T sender miner
  | .minerExit miner => Sminer.minerExit T miner
  | .minerWithdraw sender => Sminer.minerWithdraw T sender
  | .registerPoisKey sender poisKey teeSigNeedVerify teeSig teePuk =>
    Sminer.registerPoisKey T sender poisKey teeSigNeedVerify teeSig teePuk
  | .regnstkAssignStaking sender beneficiary peerId stakingAccount tibCount =>
    Sminer.regnstkAssignStaking T sender beneficiary peerId stakingAccount tibCount
  | .increaseDeclarationSpace sender tibCount =>
    Sminer.increaseDeclarationSpace T sender tibCount

/-- The account that signs a call. -/
def Call.signer : Call T → Option T.AccountId
  | .regnstk sender _ _ _ _ => some sender
  | .increaseCollateral sender _ _ => some sender
  | .updateBeneficiary sender _ => some sender
  | .updatePeerId sender _ => some sender
  | .receiveReward sender => some sender
  | .minerExitPrep sender _ => some sender
  | .minerExit _ => none
  | .minerWithdraw sender => some sender
  | .registerPoisKey sender _ _ _ _ => some sender
  | .regnstkAssignStaking sender _ _ _ _ => some sender
  | .increaseDeclarationSpace sender _ => some sender

/-- A round of the block hook: an entry of the schedule. -/
def returnStaking (entry : T.AccountId × T.AccountId × ℕ) : ChainM T Unit := do
  if T.reservoirAcc = entry.2.1 then attempt (Reservoir.redeem T entry.1 entry.2.2 false)
  unreserveFor T entry.1 entry.2.1 entry.2.2

/-- `on_initialize`: the collateral on the schedule of this block is returned.  The entries
stay. -/
def onInitialize : ChainM T Unit := do
  let w ← get
  ((w.miner.returnStakingSchedule.lookup w.now).getD []).forM (returnStaking T)

end Sminer
