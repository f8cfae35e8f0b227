/-
# The treasury

The model of `pallets/cess-treasury`: the pool of the rewards of miners, the rewards of every
era, the reserve beside the pool, and the calls that send funds to and from the accounts of the
punishments and of the sold space.

The two root calls that burn funds are left out: they work on those two accounts only, by
imbalances of the currency, and nothing else reads what they do.
-/
import CessNode.Chain

open Dispatch Chain

/-- `Perbill::mul_floor` of a number of parts per billion. -/
def mulFloor (parts x : ℕ) : ℕ := parts * x / 1000000000

namespace Treasury

variable (T : Config)

/-- Stop with an error of the pallet unless there is a value. -/
def orElse {α : Type} (o : Option α) (e : Error) : ChainM T α := okOr o (.treasury e)

/-- A change of the storage of the pallet. -/
def modifyStorage (f : Storage → Storage) : ChainM T Unit :=
  modify fun w => { w with treasury := f w.treasury }

/-! ## The pool of rewards -/

/-- `add_reward`. -/
def addReward (amount : ℕ) : ChainM T Unit := do
  let w ← get
  let reward ← orElse T (checkedAdd 128 w.treasury.currencyReward amount) .overflow
  modifyStorage T fun s => { s with currencyReward := reward }

/-- The value of `RoundReward`, zero where nothing is stored. -/
def Storage.roundOf (s : Storage) (round : ℕ) : ℕ × ℕ := (s.roundReward.lookup round).getD (0, 0)

/-- `add_miner_reward_pool`. -/
def addMinerRewardPool (amount : ℕ) : ChainM T Unit := do
  modifyStorage T fun s => { s with eraReward := amount }
  let w ← get
  let era := T.currentEra w.outside
  let round := w.treasury.roundOf era
  let total ← orElse T (checkedAdd 128 round.1 amount) .overflow
  modifyStorage T fun s => { s with roundReward := s.roundReward.insert era (total, round.2) }
  addReward T amount

/-- `on_nonzero_unbalanced`: the payout of an era. -/
def onNonzeroUnbalanced (amount : ℕ) : ChainM T Unit := do
  modify fun w => w.setLedger (T.resolveCreating w.ledger T.minerReward amount)
  addMinerRewardPool T amount
  depositEvent T (.deposit amount)

/-- `send_to_pid`. -/
def sendToPid (acc : T.AccountId) (amount : ℕ) : ChainM T Unit :=
  currencyTransfer T acc T.punishTreasury amount

/-- `send_to_sid`. -/
def sendToSid (acc : T.AccountId) (amount : ℕ) : ChainM T Unit :=
  currencyTransfer T acc T.spaceTreasury amount

/-- `send_to_rid`. -/
def sendToRid (acc : T.AccountId) (amount : ℕ) : ChainM T Unit := do
  let w ← get
  let reserve ← orElse T (checkedAdd 128 w.treasury.reserveReward amount) .overflow
  modifyStorage T fun s => { s with reserveReward := reserve }
  currencyTransfer T acc T.reserveReward amount

/-- `reward_reserve`. -/
def rewardReserve (amount : ℕ) : ChainM T Unit := sendToRid T T.minerReward amount

/-- `sluice`. -/
def sluice (amount : ℕ) : ChainM T Unit := do
  let w ← get
  let reserve ← orElse T (checkedSub w.treasury.reserveReward amount) .overflow
  modifyStorage T fun s => { s with reserveReward := reserve }
  addReward T amount
  currencyTransfer T T.reserveReward T.minerReward amount

/-! ## The trait `RewardPool` -/

/-- `sub_round_reward`.  The sum is written before it is compared with the reward of the
round. -/
def subRoundReward (round reward : ℕ) : ChainM T Unit := do
  let w ← get
  let info ← orElse T (w.treasury.roundReward.lookup round) .unexpected
  let issued ← orElse T (checkedAdd 128 info.2 reward) .overflow
  modifyStorage T fun s => { s with roundReward := s.roundReward.insert round (info.1, issued) }
  ensure (issued ≤ info.1) (.treasury .unexpected)

/-- `sub_reward`. -/
def subReward (amount : ℕ) : ChainM T Unit := do
  let w ← get
  if amount > w.treasury.currencyReward then sluice T amount
  let w ← get
  let reward ← orElse T (checkedSub w.treasury.currencyReward amount) .overflow
  modifyStorage T fun s => { s with currencyReward := reward }

/-- `send_reward_to_miner`. -/
def sendRewardToMiner (beneficiary : T.AccountId) (amount : ℕ) : ChainM T Unit :=
  currencyTransfer T T.minerReward beneficiary amount

/-! ## Calls -/

/-- A dispatchable call with its origin. -/
inductive Call where
  | sendFundsToPid (sender : T.AccountId) (funds : ℕ)
  | sendFundsToSid (sender : T.AccountId) (funds : ℕ)
  /-- Origin root. -/
  | pidSendFunds (acc : T.AccountId) (funds : ℕ)
  /-- Origin root. -/
  | sidSendFunds (acc : T.AccountId) (funds : ℕ)

/-- The code of a call. -/
def Call.code : Call T → ChainM T Unit
  | .sendFundsToPid sender funds => sendToPid T sender funds
  | .sendFundsToSid sender funds => sendToSid T sender funds
  | .pidSendFunds acc funds => currencyTransfer T T.punishTreasury acc funds
  | .sidSendFunds acc funds => currencyTransfer T T.spaceTreasury acc funds

/-- The account that signs a call. -/
def Call.signer : Call T → Option T.AccountId
  | .sendFundsToPid sender _ => some sender
  | .sendFundsToSid sender _ => some sender
  | .pidSendFunds _ _ => none
  | .sidSendFunds _ _ => none

end Treasury
