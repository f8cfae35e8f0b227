/-
# What the pallets around the miners change

The pallets sminer, treasury and reservoir leave the files, the deals and the territories alone.
Most of their code does not touch the records of the miners either: it moves balances and keeps
the books of rewards and loans.  This file says so once for every function, so that what is
proved about the records does not have to look at money:

* `World.BesideBank` : files, deals and territories are the same, and `World.Beside` : so are the
  audit and the list of recorded snapshots;
* `Sminer.Records` : what the pallets store about the space of the miners, and
  `World.Quiet` : all this is the same as well;
* `AllowsRewards` and `AllowsLoans` : the relations for which the code about rewards and about
  loans does nothing, whatever else they say about the world;
* the functions of the treasury and of the reservoir, and those of sminer about rewards and
  collateral, are quiet.
-/
import CessNode.Audit

open Dispatch StorageMap

namespace Sminer

/-- What is stored about the space of the miners, with the total of the idle space. -/
structure Records (AccountId : Type) where
  miners : StorageMap AccountId (MinerInfo AccountId)
  targets : StorageMap AccountId (RestoralTargetInfo AccountId)
  pending : StorageMap AccountId ℕ
  totalIdle : ℕ

end Sminer

/-- The storages of the file bank after other pallets have done their part: the miners, the
workers, the balances, the schedule and the total of the idle space. -/
def FileBank.World.besides {T : FileBank.Config} (w : FileBank.World T)
    (miner : Sminer.World T.AccountId) (outside : T.Outside) (ledger : T.Ledger)
    (agenda : T.Agenda) (totalIdleSpace : ℕ) : FileBank.World T :=
  { w with
    miner := miner
    outside := outside
    storage := { w.storage with
      ledger := ledger, agenda := agenda, totalIdleSpace := totalIdleSpace } }

namespace Chain

variable {T : Config}
variable {w w' : World T} {src miner acc : T.AccountId} {amount : ℕ}
  {info : Sminer.MinerInfo T.AccountId}

/-- The records of the miners. -/
def World.records (w : World T) : Sminer.Records T.AccountId where
  miners := w.miner.minerItems
  targets := w.miner.restoralTarget
  pending := w.miner.pendingReplacements
  totalIdle := w.bank.storage.totalIdleSpace

/-- Nothing changes about files, deals and territories. -/
def World.BesideBank (w w' : World T) : Prop :=
  ∃ miner outside ledger agenda totalIdleSpace,
    w'.bank = w.bank.besides miner outside ledger agenda totalIdleSpace

theorem World.BesideBank.refl (w : World T) : w.BesideBank w := ⟨_, _, _, _, _, rfl⟩

theorem World.BesideBank.trans {w₁ : World T} (h : w.BesideBank w₁) (h' : w₁.BesideBank w') :
    w.BesideBank w' := by
  obtain ⟨miner, outside, ledger, agenda, totalIdleSpace, hbank⟩ := h
  obtain ⟨miner', outside', ledger', agenda', totalIdleSpace', hbank'⟩ := h'
  refine ⟨miner', outside', ledger', agenda', totalIdleSpace', ?_⟩
  rw [hbank', hbank]
  rfl

theorem World.BesideBank.now (h : w.BesideBank w') : w'.now = w.now := by
  obtain ⟨_, _, _, _, _, hbank⟩ := h
  exact congrArg (fun b => b.storage.now) hbank

/-- Nothing changes about challenges and recorded snapshots either. -/
structure World.Beside (w w' : World T) : Prop where
  bank : w.BesideBank w'
  audit : w'.audit = w.audit
  recorded : w'.history.recorded = w.history.recorded

instance : Std.Refl (World.Beside (T := T)) where
  refl w := ⟨.refl w, rfl, rfl⟩

instance : IsTrans (World T) World.Beside where
  trans _ _ _ h h' :=
    ⟨h.bank.trans h'.bank, h'.audit.trans h.audit, h'.recorded.trans h.recorded⟩

/-- Nothing changes about the records of the miners either. -/
structure World.Quiet (w w' : World T) : Prop where
  beside : w.Beside w'
  records : w'.records = w.records

instance : Std.Refl (World.Quiet (T := T)) where
  refl w := ⟨refl w, rfl⟩

instance : IsTrans (World T) World.Quiet where
  trans _ _ _ h h' := ⟨IsTrans.trans _ _ _ h.beside h'.beside, h'.records.trans h.records⟩

theorem quiet_modify {f : World T → World T}
    (h : ∀ w, w.BesideBank (f w) ∧ (f w).audit = w.audit ∧ (f w).history.recorded = w.history.recorded ∧
      (f w).records = w.records) :
    Keeps World.Quiet (modify f : ChainM T PUnit) :=
  keeps_modify fun w => ⟨⟨(h w).1, (h w).2.1, (h w).2.2.1⟩, (h w).2.2.2⟩

/-! ## The currency -/

theorem quiet_depositEvent (e : Event T) : Keeps World.Quiet (depositEvent T e) :=
  quiet_modify fun _ => ⟨⟨_, _, _, _, _, rfl⟩, rfl, rfl, rfl⟩

theorem quiet_setLedger (ledger : World T → T.Ledger) :
    Keeps World.Quiet (modify fun w => w.setLedger (ledger w) : ChainM T PUnit) :=
  quiet_modify fun _ => ⟨⟨_, _, _, _, _, rfl⟩, rfl, rfl, rfl⟩

/-- A change of the storage of sminer apart from the records. -/
theorem quiet_modifyMiner {f : Sminer.World T.AccountId → Sminer.World T.AccountId}
    (h : ∀ s, (f s).minerItems = s.minerItems ∧ (f s).restoralTarget = s.restoralTarget ∧
      (f s).pendingReplacements = s.pendingReplacements) : Keeps World.Quiet (modifyMiner T f) := by
  refine quiet_modify fun w => ⟨⟨_, _, _, _, _, rfl⟩, rfl, rfl, ?_⟩
  obtain ⟨h₁, h₂, h₃⟩ := h w.miner
  show Sminer.Records.mk (f w.miner).minerItems (f w.miner).restoralTarget
    (f w.miner).pendingReplacements _ = _
  rw [h₁, h₂, h₃]
  rfl

/-- The world after an amount was reserved as collateral of the miner. -/
def World.staked (w : World T) (ledger : T.Ledger) (miner : T.AccountId) (amount : ℕ) : World T :=
  { w.setLedger ledger with
    history := { w.history with
      staked := Function.update w.history.staked miner (w.history.staked miner + amount) } }

/-- The world after an amount was unreserved out of the collateral of the miner. -/
def World.returned (w : World T) (ledger : T.Ledger) (miner : T.AccountId) (amount : ℕ) : World T :=
  { w.setLedger ledger with
    history := { w.history with
      returned := Function.update w.history.returned miner (w.history.returned miner + amount) } }

theorem run_currencyTransfer_ok {dst : T.AccountId} {u : Unit} :
    (currencyTransfer T src dst amount).run w = .ok u w' ↔
      ∃ ledger, T.transfer w.ledger src dst amount = some ledger ∧ w.setLedger ledger = w' := by
  simp only [currencyTransfer, run_ok, existsAndEq]

theorem run_reserveFor_ok {u : Unit} : (reserveFor T miner acc amount).run w = .ok u w' ↔
    ∃ ledger, T.reserve w.ledger acc amount = some ledger ∧ w.staked ledger miner amount = w' := by
  simp only [reserveFor, run_ok, existsAndEq]
  rfl

section Frames

variable {R : World T → World T → Prop} [Std.Refl R]

theorem keeps_currencyTransfer {dst : T.AccountId}
    (h : ∀ w ledger, T.transfer w.ledger src dst amount = some ledger → R w (w.setLedger ledger)) :
    Keeps R (currencyTransfer T src dst amount) := by
  intro w
  unfold currencyTransfer
  rw [after_get_bind]
  cases hledger : T.transfer w.ledger src dst amount with
  | none => exact refl w
  | some ledger => exact h w ledger hledger

theorem keeps_reserveFor (h : ∀ w ledger, T.reserve w.ledger acc amount = some ledger →
      R w (w.staked ledger miner amount)) : Keeps R (reserveFor T miner acc amount) := by
  intro w
  unfold reserveFor
  rw [after_get_bind]
  cases hledger : T.reserve w.ledger acc amount with
  | none => exact refl w
  | some ledger => exact h w ledger hledger

omit [Std.Refl R] in
theorem keeps_unreserveFor {miner acc : T.AccountId} {amount : ℕ}
    (h : ∀ w, R w (w.returned (T.unreserve w.ledger acc amount) miner (T.reserved w.ledger acc -
      T.reserved (T.unreserve w.ledger acc amount) acc))) :
    Keeps R (unreserveFor T miner acc amount) := by
  intro w
  exact h w

end Frames

theorem quiet_currencyTransfer (src dst : T.AccountId) (amount : ℕ) :
    Keeps World.Quiet (currencyTransfer T src dst amount) :=
  keeps_currencyTransfer fun _ _ _ => ⟨⟨⟨_, _, _, _, _, rfl⟩, rfl, rfl⟩, rfl⟩

theorem quiet_reserveFor (miner acc : T.AccountId) (amount : ℕ) :
    Keeps World.Quiet (reserveFor T miner acc amount) :=
  keeps_reserveFor fun _ _ _ => ⟨⟨⟨_, _, _, _, _, rfl⟩, rfl, rfl⟩, rfl⟩

theorem quiet_unreserveFor (miner acc : T.AccountId) (amount : ℕ) :
    Keeps World.Quiet (unreserveFor T miner acc amount) :=
  keeps_unreserveFor fun _ => ⟨⟨⟨_, _, _, _, _, rfl⟩, rfl, rfl⟩, rfl⟩

/-! ## Rewards -/

/-- The part of an order that is due is only computed. -/
theorem keeps_releaseOrder {R : World T → World T → Prop} [Std.Refl R] [IsTrans (World T) R]
    (now : ℕ) (acc : ℕ × List Sminer.RewardOrder) (order : Sminer.RewardOrder) :
    Keeps R (Sminer.releaseOrder T now acc order) := by
  refine keeps_bind ?_ fun p => keeps_ite (fun _ => keeps_pure _) fun _ => ?_
  · refine keeps_okOr_bind fun _ => keeps_ite (fun _ => ?_) fun _ => keeps_pure _
    refine keeps_okOr_bind fun _ => keeps_okOr_bind fun _ => ?_
    refine keeps_ite (fun _ => ?_) fun _ => keeps_pure _
    refine keeps_okOr_bind fun _ => keeps_okOr_bind fun _ => ?_
    exact keeps_okOr_bind fun _ => keeps_pure _
  · exact keeps_okOr_bind fun _ => keeps_pure _

/-- A relation that does not look at events and rewards: the books of the treasury and the rewards
of the miners may change, and rewards may be paid. -/
structure AllowsRewards (R : World T → World T → Prop) : Prop where
  event : ∀ w events, R w { w with events := events }
  treasury : ∀ w treasury, R w { w with treasury := treasury }
  rewards : ∀ w rewardMap complete snapShots, R w (w.setMiner { w.miner with
    rewardMap := rewardMap
    completeSnapShot := complete
    completeMinerSnapShot := snapShots })
  pay : ∀ w src dst amount ledger, src = T.minerReward ∨ src = T.reserveReward →
    T.transfer w.ledger src dst amount = some ledger → R w (w.setLedger ledger)

theorem quiet_allowsRewards : AllowsRewards (World.Quiet (T := T)) where
  event _ _ := ⟨⟨⟨_, _, _, _, _, rfl⟩, rfl, rfl⟩, rfl⟩
  treasury _ _ := ⟨⟨⟨_, _, _, _, _, rfl⟩, rfl, rfl⟩, rfl⟩
  rewards _ _ _ _ := ⟨⟨⟨_, _, _, _, _, rfl⟩, rfl, rfl⟩, rfl⟩
  pay _ _ _ _ _ _ _ := ⟨⟨⟨_, _, _, _, _, rfl⟩, rfl, rfl⟩, rfl⟩

namespace AllowsRewards

variable {R : World T → World T → Prop} (hR : AllowsRewards R)
include hR

theorem depositEvent (e : Event T) : Keeps R (Chain.depositEvent T e) :=
  keeps_modify fun w => hR.event w _

theorem modifyTreasury (f : Treasury.Storage → Treasury.Storage) :
    Keeps R (Treasury.modifyStorage T f) :=
  keeps_modify fun w => hR.treasury w _

theorem putSnapShots (miner : T.AccountId)
    (list : BoundedVec Sminer.MinerCompleteInfo Sminer.releaseNumber) :
    Keeps R (Sminer.putSnapShots T miner list) :=
  keeps_modify fun w => hR.rewards w w.miner.rewardMap w.miner.completeSnapShot _

variable [Std.Refl R]

theorem currencyTransfer (hsrc : src = T.minerReward ∨ src = T.reserveReward) (dst : T.AccountId)
    (amount : ℕ) : Keeps R (Chain.currencyTransfer T src dst amount) :=
  keeps_currencyTransfer fun w ledger => hR.pay w src dst amount ledger hsrc

variable [IsTrans (World T) R]

theorem addReward (amount : ℕ) : Keeps R (Treasury.addReward T amount) :=
  keeps_get_bind fun _ => keeps_okOr_bind fun _ => hR.modifyTreasury _

theorem addMinerRewardPool (amount : ℕ) : Keeps R (Treasury.addMinerRewardPool T amount) := by
  refine keeps_bind (hR.modifyTreasury _) fun _ => keeps_get_bind fun _ => ?_
  refine keeps_okOr_bind fun _ => keeps_bind (hR.modifyTreasury _) fun _ => ?_
  exact hR.addReward amount

theorem rewardReserve (amount : ℕ) : Keeps R (Treasury.rewardReserve T amount) := by
  refine keeps_get_bind fun _ => keeps_okOr_bind fun _ => ?_
  exact keeps_bind (hR.modifyTreasury _) fun _ => hR.currencyTransfer (.inl rfl) _ _

theorem sluice (amount : ℕ) : Keeps R (Treasury.sluice T amount) := by
  refine keeps_get_bind fun _ => keeps_okOr_bind fun _ => ?_
  refine keeps_bind (hR.modifyTreasury _) fun _ => keeps_bind (hR.addReward _) fun _ => ?_
  exact hR.currencyTransfer (.inr rfl) _ _

theorem subRoundReward (round reward : ℕ) : Keeps R (Treasury.subRoundReward T round reward) := by
  refine keeps_get_bind fun _ => keeps_okOr_bind fun _ => ?_
  refine keeps_okOr_bind fun _ => keeps_bind (hR.modifyTreasury _) fun _ => ?_
  exact keeps_ensure _ _

theorem subReward (amount : ℕ) : Keeps R (Treasury.subReward T amount) := by
  have hlast : Keeps R (do
      let w ← get
      let reward ← Treasury.orElse T (checkedSub w.treasury.currencyReward amount) .overflow
      Treasury.modifyStorage T fun s => { s with currencyReward := reward }) :=
    keeps_get_bind fun _ => keeps_okOr_bind fun _ => hR.modifyTreasury _
  refine keeps_get_bind fun _ => keeps_ite (fun _ => ?_) fun _ => hlast
  exact keeps_bind (hR.sluice _) fun _ => hlast

theorem issueSnapShot (miner : T.AccountId) (p : Sminer.MinerCompleteInfo × ℕ) :
    Keeps R (Sminer.issueSnapShot T miner p) := by
  refine keeps_get_bind fun w => keeps_ite (fun _ => keeps_pure _) fun _ => ?_
  refine keeps_ensure_bind <| keeps_bind (hR.subRoundReward _ _) fun _ => ?_
  refine keeps_okOr_bind fun _ => keeps_get_bind fun _ => ?_
  exact keeps_bind (hR.putSnapShots _ _) fun _ => keeps_pure _

theorem issueSnapShots (miner : T.AccountId) : Keeps R (Sminer.issueSnapShots T miner) := by
  refine keeps_get_bind fun w => ?_
  refine keeps_bind (keeps_mapM fun p _ => hR.issueSnapShot _ _) fun _ => ?_
  refine keeps_get_bind fun _ => keeps_bind (hR.putSnapShots _ _) fun _ => ?_
  exact keeps_pure _

theorem bookOrder (room : Bool) (acc : Sminer.Reward × ℕ) (order : Sminer.RewardOrder) :
    Keeps R (Sminer.bookOrder T room acc order) := by
  refine keeps_ite (fun _ => ?_) fun _ => ?_
  · refine keeps_okOr_bind fun _ => keeps_okOr_bind fun _ => ?_
    exact keeps_okOr_bind fun _ => keeps_pure _
  · refine keeps_okOr_bind fun _ => keeps_bind (hR.rewardReserve _) fun _ => ?_
    exact keeps_pure _

theorem tryMutateReward {f : Sminer.Reward → ChainM T Sminer.Reward}
    (hf : ∀ reward, Keeps R (f reward)) : Keeps R (Sminer.tryMutateReward T miner f) := by
  refine keeps_tryMutate (fun reward => ?_) fun reward w =>
    hR.rewards w _ w.miner.completeSnapShot w.miner.completeMinerSnapShot
  exact keeps_bind (hf reward) fun _ => keeps_pure _

theorem calculateMinerReward (miner : T.AccountId) :
    Keeps R (Sminer.calculateMinerReward T miner) := by
  refine keeps_bind (hR.issueSnapShots _) fun orders => ?_
  refine keeps_ite (fun _ => keeps_pure _) fun _ => hR.tryMutateReward fun reward => ?_
  refine keeps_bind (keeps_foldlM (hR.bookOrder _) _) fun p => ?_
  exact keeps_bind (hR.subReward _) fun _ => keeps_pure _

theorem distributeRewards (miner beneficiary : T.AccountId) :
    Keeps R (Sminer.distributeRewards T miner beneficiary) := by
  refine hR.tryMutateReward fun reward => keeps_get_bind fun w => ?_
  refine keeps_bind (keeps_foldlM (keeps_releaseOrder _) _) fun p => ?_
  refine keeps_okOr_bind fun _ => keeps_okOr_bind fun _ => ?_
  refine keeps_bind (hR.currencyTransfer (.inl rfl) _ _) fun _ => ?_
  exact keeps_bind (hR.depositEvent _) fun _ => keeps_pure _

end AllowsRewards

theorem quiet_onNonzeroUnbalanced (amount : ℕ) :
    Keeps World.Quiet (Treasury.onNonzeroUnbalanced T amount) :=
  keeps_bind (quiet_setLedger _) fun _ =>
    keeps_bind (quiet_allowsRewards.addMinerRewardPool _) fun _ => quiet_depositEvent _

theorem quiet_treasuryCall (call : Treasury.Call T) : Keeps World.Quiet (call.code T) := by
  cases call <;> exact quiet_currencyTransfer _ _ _

/-! ## The reservoir -/

section Loans

variable {R : World T → World T → Prop}

/-- A relation that does not look at the books of the reservoir. -/
def AllowsLoans (R : World T → World T → Prop) : Prop :=
  ∀ w reservoir, R w { w with reservoir := reservoir }

theorem AllowsLoans.modifyStorage (hR : AllowsLoans R)
    (f : Reservoir.Storage T → Reservoir.Storage T) : Keeps R (Reservoir.modifyStorage T f) :=
  keeps_modify fun w => hR w _

variable [Std.Refl R] [IsTrans (World T) R]

theorem keeps_checkQualification (acc : T.AccountId) (amount : ℕ) :
    Keeps R (Reservoir.checkQualification T acc amount) :=
  keeps_get_bind fun _ => keeps_okOr_bind fun _ => keeps_ensure _ _

variable (hR : AllowsLoans R)
include hR

theorem AllowsLoans.stakeBorrowed (acc : T.AccountId) (amount : ℕ) :
    Keeps R (Reservoir.stakeBorrowed T acc amount) := by
  refine keeps_get_bind fun w => ?_
  split
  · exact keeps_pure _
  · split_ifs
    · refine keeps_okOr_bind fun _ => keeps_okOr_bind fun _ => ?_
      exact keeps_bind (hR.modifyStorage _) fun _ => keeps_pure _
    · refine keeps_okOr_bind fun _ => keeps_okOr_bind fun _ => ?_
      exact keeps_bind (hR.modifyStorage _) fun _ => keeps_pure _
    · exact keeps_bind (hR.modifyStorage _) fun _ => keeps_pure _

theorem AllowsLoans.staking {flag : Bool}
    (hreserve : Keeps R (reserveFor T acc T.reservoirAcc amount)) :
    Keeps R (Reservoir.staking T acc amount flag) := by
  have hlast : Keeps R (if flag = true then reserveFor T acc T.reservoirAcc amount else pure ()) :=
    keeps_ite (fun _ => hreserve) fun _ => keeps_pure _
  refine keeps_bind (hR.stakeBorrowed _ _) fun _ => keeps_ite (fun _ => ?_) fun _ => hlast
  refine keeps_get_bind fun _ => keeps_okOr_bind fun _ => ?_
  exact keeps_okOr_bind fun _ => keeps_bind (hR.modifyStorage _) fun _ => hlast

theorem AllowsLoans.release {fromHold : Reservoir.UserHold → ℕ → Option Reservoir.UserHold}
    {fromBorrow : Reservoir.BorrowInfo T.AccountId → ℕ → Option (Reservoir.BorrowInfo T.AccountId)}
    (acc : T.AccountId) (amount : ℕ) :
    Keeps R (Reservoir.release T fromHold fromBorrow acc amount false) := by
  refine keeps_get_bind fun w => keeps_okOr_bind fun _ => ?_
  refine keeps_bind (hR.modifyStorage _) fun _ => keeps_ite (fun _ => ?_) fun _ => keeps_pure _
  refine keeps_get_bind fun _ => keeps_okOr_bind fun _ => ?_
  refine keeps_ensure_bind <| keeps_okOr_bind fun _ => ?_
  exact keeps_bind (hR.modifyStorage _) fun _ => keeps_pure _

theorem AllowsLoans.tryMutateReservoir
    (f : Reservoir.ReservoirInfo → Option Reservoir.ReservoirInfo) :
    Keeps R (Reservoir.tryMutateReservoir T f) := by
  refine keeps_get_bind fun w => keeps_okOr_bind fun _ => ?_
  exact hR.modifyStorage _

/-- **The calls of the reservoir** keep its books, move money and put down events. -/
theorem AllowsLoans.reservoirCall (hevent : ∀ e, Keeps R (depositEvent T e))
    (hpay : ∀ src dst amount, Keeps R (currencyTransfer T src dst amount)) (call : Reservoir.Call T) :
    Keeps R (call.code T) := by
  cases call with
  | filling =>
    refine keeps_bind (hpay _ _ _) fun _ => ?_
    exact keeps_bind (hR.tryMutateReservoir _) fun _ => hevent _
  | store =>
    refine keeps_bind (hpay _ _ _) fun _ => keeps_get_bind fun _ => ?_
    refine keeps_okOr_bind fun _ => keeps_bind (hR.modifyStorage _) fun _ => ?_
    exact keeps_bind (hR.tryMutateReservoir _) fun _ => hevent _
  | withdraw =>
    refine keeps_get_bind fun _ => keeps_okOr_bind fun _ => ?_
    refine keeps_bind (hR.modifyStorage _) fun _ => ?_
    refine keeps_bind (hR.tryMutateReservoir _) fun _ => ?_
    exact keeps_bind (hpay _ _ _) fun _ => hevent _
  | eventWithdraw =>
    refine keeps_bind (hpay _ _ _) fun _ => ?_
    exact keeps_bind (hR.tryMutateReservoir _) fun _ => hevent _
  | createEvent =>
    refine keeps_get_bind fun _ => keeps_ensure_bind ?_
    refine keeps_bind (hR.modifyStorage _) fun _ => keeps_okOr_bind fun _ => ?_
    refine keeps_okOr_bind fun _ => keeps_bind (hR.modifyStorage _) fun _ => ?_
    exact hevent _
  | attendEvent =>
    refine keeps_get_bind fun _ => keeps_ensure_bind ?_
    refine keeps_bind ?_ fun _ => keeps_bind ?_ fun _ => hevent _
    · refine keeps_get_bind fun w => ?_
      split
      · exact keeps_pure _
      · refine keeps_ensure_bind ?_
        exact keeps_bind (hR.tryMutateReservoir _) fun _ => hR.modifyStorage _
    · refine keeps_tryMutate (fun event => ?_) fun event w => hR w _
      refine keeps_ensure_bind <| keeps_okOr_bind fun _ => ?_
      refine keeps_get_bind fun _ => keeps_okOr_bind fun _ => ?_
      refine keeps_bind (hR.modifyStorage _) fun _ => ?_
      exact keeps_bind (hR.tryMutateReservoir _) fun _ => keeps_pure _

theorem AllowsLoans.reservoirHook (hevent : ∀ e, Keeps R (depositEvent T e)) :
    Keeps R (Reservoir.onInitialize T) := by
  refine keeps_get_bind fun w => keeps_forM fun id _ => ?_
  exact keeps_bind (hR.modifyStorage _) fun _ => hevent _

end Loans

theorem quiet_allowsLoans : AllowsLoans (World.Quiet (T := T)) :=
  fun _ _ => ⟨⟨⟨_, _, _, _, _, rfl⟩, rfl, rfl⟩, rfl⟩

theorem quiet_reservoirCall (call : Reservoir.Call T) : Keeps World.Quiet (call.code T) :=
  quiet_allowsLoans.reservoirCall quiet_depositEvent quiet_currencyTransfer call

theorem quiet_reservoirHook : Keeps World.Quiet (Reservoir.onInitialize T) :=
  quiet_allowsLoans.reservoirHook quiet_depositEvent

/-! ## Collateral -/

section Collateral

variable {R : World T → World T → Prop} [Std.Refl R] [IsTrans (World T) R]

/-- What a punishment takes is unreserved and paid. -/
theorem keeps_seizeCollateral
    (hunreserve : ∀ amount, Keeps R (unreserveFor T miner info.stakingAccount amount))
    (hpay : ∀ amount, Keeps R (currencyTransfer T info.stakingAccount T.punishTreasury amount))
    (punishAmount : ℕ) : Keeps R (Sminer.seizeCollateral T miner info punishAmount) := by
  refine keeps_ite (fun _ => ?_) fun _ => ?_
  · refine keeps_bind (hunreserve _) fun _ => keeps_bind (hpay _) fun _ => ?_
    exact keeps_okOr_bind fun _ => keeps_pure _
  · refine keeps_bind (hunreserve _) fun _ => keeps_bind (hpay _) fun _ => ?_
    exact keeps_okOr_bind fun _ => keeps_pure _

theorem keeps_punishRecord {punishAmount : ℕ}
    (htake : Keeps R (Sminer.takeCollateral T miner info punishAmount)) :
    Keeps R (Sminer.punishRecord T miner punishAmount info) :=
  keeps_bind htake fun _ => keeps_okOr_bind fun _ => keeps_pure _

/-- What `force_miner_exit` does about rewards and collateral. -/
theorem AllowsRewards.settleExit (hR : AllowsRewards R)
    (hrelease : Keeps R (Sminer.releaseCollateral T acc info))
    (hschedule : ∀ block list, Keeps R (modifyMiner T fun s =>
      { s with
        returnStakingSchedule := s.returnStakingSchedule.insert block
          (list ++ [(acc, info.stakingAccount, info.collaterals)]) })) :
    Keeps R (Sminer.settleExit T acc info) := by
  refine keeps_get_bind fun w => ?_
  split
  · exact keeps_pure _
  · refine keeps_ite (fun _ => hrelease) fun _ => ?_
    refine keeps_bind (hR.calculateMinerReward _) fun _ => ?_
    refine keeps_bind (hR.distributeRewards _ _) fun _ => ?_
    refine keeps_okOr_bind fun _ => keeps_bind (hR.addReward _) fun _ => ?_
    refine keeps_get_bind fun _ => keeps_okOr_bind fun _ => ?_
    refine keeps_okOr_bind fun _ => keeps_ensure_bind ?_
    exact hschedule _ _

theorem keeps_payDebt {sender : T.AccountId} (hpay : ∀ amount, Keeps R (currencyTransfer T
      (if info.stakingAccount = T.reservoirAcc then info.stakingAccount else sender)
      T.punishTreasury amount)) (collaterals : ℕ) :
    Keeps R (Sminer.payDebt T sender info collaterals) := by
  refine keeps_ite (fun _ => keeps_ite (fun _ => ?_) fun _ => ?_) fun _ => keeps_pure _
  · refine keeps_okOr_bind fun _ => ?_
    exact keeps_bind (hpay _) fun _ => keeps_pure _
  · refine keeps_okOr_bind fun _ => ?_
    exact keeps_bind (hpay _) fun _ => keeps_pure _

theorem keeps_checkLoan (sender miner : T.AccountId) (info : Sminer.MinerInfo T.AccountId)
    (collaterals : ℕ) : Keeps R (Sminer.checkLoan T sender miner info collaterals) := by
  refine keeps_ite (fun _ => ?_) fun _ => keeps_pure _
  exact keeps_ensure_bind <| keeps_checkQualification _ _

theorem keeps_thaw (info : Sminer.MinerInfo T.AccountId) : Keeps R (Sminer.thaw T info) :=
  keeps_ite (fun _ => keeps_okOr_bind fun _ => keeps_pure _) fun _ => keeps_pure _

end Collateral

theorem quiet_staking (acc : T.AccountId) (amount : ℕ) (flag : Bool) :
    Keeps World.Quiet (Reservoir.staking T acc amount flag) :=
  quiet_allowsLoans.staking (quiet_reserveFor _ _ _)

theorem quiet_punishRecord (miner : T.AccountId) (punishAmount : ℕ)
    (info : Sminer.MinerInfo T.AccountId) :
    Keeps World.Quiet (Sminer.punishRecord T miner punishAmount info) := by
  have hseize : Keeps World.Quiet (Sminer.seizeCollateral T miner info punishAmount) :=
    keeps_seizeCollateral (fun _ => quiet_unreserveFor _ _ _)
      (fun _ => quiet_currencyTransfer _ _ _) _
  refine keeps_punishRecord (keeps_ite (fun _ => ?_) fun _ => hseize)
  exact keeps_bind (quiet_allowsLoans.release _ _) fun _ => hseize

theorem quiet_startStaking (miner : T.AccountId) :
    Keeps World.Quiet (Sminer.startStaking T miner) :=
  keeps_get_bind fun _ => quiet_modifyMiner fun _ => ⟨rfl, rfl, rfl⟩

theorem quiet_dropMiner (acc : T.AccountId) : Keeps World.Quiet (Sminer.dropMiner T acc) :=
  quiet_modifyMiner fun _ => ⟨rfl, rfl, rfl⟩

theorem quiet_releaseCollateral (miner : T.AccountId) (info : Sminer.MinerInfo T.AccountId) :
    Keeps World.Quiet (Sminer.releaseCollateral T miner info) := by
  refine keeps_ite (fun _ => ?_) fun _ => quiet_unreserveFor _ _ _
  exact keeps_bind (quiet_allowsLoans.release _ _) fun _ => quiet_unreserveFor _ _ _

theorem quiet_settleExit (acc : T.AccountId) (info : Sminer.MinerInfo T.AccountId) :
    Keeps World.Quiet (Sminer.settleExit T acc info) :=
  quiet_allowsRewards.settleExit (quiet_releaseCollateral _ _) fun _ _ =>
    quiet_modifyMiner fun _ => ⟨rfl, rfl, rfl⟩

theorem quiet_payDebt (sender : T.AccountId) (info : Sminer.MinerInfo T.AccountId)
    (collaterals : ℕ) : Keeps World.Quiet (Sminer.payDebt T sender info collaterals) :=
  keeps_payDebt (fun _ => quiet_currencyTransfer _ _ _) _

theorem quiet_stakeMore (sender miner : T.AccountId) (info : Sminer.MinerInfo T.AccountId)
    (remaining : ℕ) : Keeps World.Quiet (Sminer.stakeMore T sender miner info remaining) :=
  keeps_ite (fun _ => quiet_staking _ _ _) fun _ => quiet_reserveFor _ _ _

theorem quiet_sminerHook : Keeps World.Quiet (Sminer.onInitialize T) := by
  refine keeps_get_bind fun w => keeps_forM fun entry _ => ?_
  refine keeps_ite (fun _ => ?_) fun _ => quiet_unreserveFor _ _ _
  exact keeps_bind (keeps_attempt (quiet_allowsLoans.release _ _)) fun _ => quiet_unreserveFor _ _ _

end Chain
