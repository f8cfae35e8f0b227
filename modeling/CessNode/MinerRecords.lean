/-
# The life of a miner

What sminer and the audit do to the records of the miners, without money: an account registers,
gets ready, may declare more space, prepares its exit and leaves; it may be punished and thrown
out.  This file has these changes as relations on `Sminer.Records` and proves that the code
takes no others:

* `Records.Act` : what the calls of sminer do, `Call.code_act`;
* `Records.Punish` : what a punishment does, whether it gets to its end or not,
  `after_depositPunish`;
* `Records.Force` : what a forced exit does, which may stop halfway, `after_forceMinerExit`.
-/
import CessNode.ChainSpec
import CessNode.StorageHandlerCalls

open Dispatch StorageMap

namespace Sminer

variable {AccountId : Type}

/-! ## Changes of a record -/

/-- The record of a miner that has just registered. -/
structure MinerInfo.IsNew (info : MinerInfo AccountId) : Prop where
  state : info.state = .notReady
  idleSpace : info.idleSpace = 0
  serviceSpace : info.serviceSpace = 0
  lockSpace : info.lockSpace = 0
  spaceProofInfo : info.spaceProofInfo = none
  serviceBloomFilter : info.serviceBloomFilter = fun _ => 0
  declarationSpace : info.declarationSpace < 2 ^ 128

/-- The space of a record, its proof and its filter are the same. -/
structure MinerInfo.SameSpace (info info' : MinerInfo AccountId) : Prop where
  declarationSpace : info'.declarationSpace = info.declarationSpace
  idleSpace : info'.idleSpace = info.idleSpace
  serviceSpace : info'.serviceSpace = info.serviceSpace
  lockSpace : info'.lockSpace = info.lockSpace
  spaceProofInfo : info'.spaceProofInfo = info.spaceProofInfo
  serviceBloomFilter : info'.serviceBloomFilter = info.serviceBloomFilter

/-- What a miner can do about its own record. -/
inductive MinerInfo.Act (info : MinerInfo AccountId) : MinerInfo AccountId → Prop
  /-- Other accounts or more collateral, which may thaw the record. -/
  | revise {info' : MinerInfo AccountId} (hspace : info.SameSpace info')
      (hstate : info'.state = info.state ∨ info.state = .frozen ∧ info'.state = .positive) :
      Act info info'
  /-- The key of its idle files makes a miner ready. -/
  | prove {proof : SpaceProofInfo AccountId} {state : MinerState} {sig : TeeSig}
      (hstate : info.state = .notReady) (hproof : proof.front = 0 ∧ proof.rear = 0)
      (hstate' : state = .positive ∨ state = .frozen) :
      Act info { info with spaceProofInfo := some proof, state := state, teeSignature := sig }
  /-- More space is declared, which may freeze the record. -/
  | declare {declarationSpace : ℕ} {state : MinerState} (hstate : info.state = .positive)
      (hle : info.declarationSpace ≤ declarationSpace) (hfits : declarationSpace < 2 ^ 128)
      (hstate' : state = .positive ∨ state = .frozen) :
      Act info { info with declarationSpace := declarationSpace, state := state }
  /-- An exit is prepared. -/
  | prepare (hstate : info.state = .positive) (hlock : info.lockSpace = 0) :
      Act info { info with state := .lock }

/-! ## Changes of the records -/

variable [DecidableEq AccountId]

/-- The record of one miner is written. -/
def Records.write (r : Records AccountId) (acc : AccountId) (info : MinerInfo AccountId) :
    Records AccountId :=
  { r with miners := r.miners.insert acc info }

/-- Space goes off the total. -/
def Records.take (r : Records AccountId) (space : ℕ) : Records AccountId :=
  { r with totalIdle := r.totalIdle - space }

/-- A miner gets a restoral target. -/
def Records.leave (r : Records AccountId) (acc : AccountId)
    (target : RestoralTargetInfo AccountId) : Records AccountId :=
  { r with targets := r.targets.insert acc target }

/-- Nothing is left to be replaced. -/
def Records.clear (r : Records AccountId) (acc : AccountId) : Records AccountId :=
  { r with pending := r.pending.erase acc }

/-- What calls of sminer do to the records. -/
inductive Records.Act (r : Records AccountId) : Records AccountId → Prop
  | stay : Act r r
  | register {acc : AccountId} {info : MinerInfo AccountId} (hnew : r.miners.lookup acc = none)
      (hinfo : info.IsNew) : Act r (r.write acc info)
  | write {acc : AccountId} {info info' : MinerInfo AccountId}
      (hinfo : r.miners.lookup acc = some info) (hact : info.Act info') : Act r (r.write acc info')
  | withdraw (acc : AccountId) : Act r (r.clear acc)
  | exit {acc : AccountId} {info : MinerInfo AccountId} {target : RestoralTargetInfo AccountId}
      (hinfo : r.miners.lookup acc = some info) (hstate : info.state = .lock)
      (hle : info.idleSpace ≤ r.totalIdle) (htarget : target.restoredSpace = 0) :
      Act r (((r.take info.idleSpace).write acc { info with state := .exit }).leave acc target)

/-- What a punishment does: nothing, or the record of the miner may freeze. -/
inductive Records.Punish (acc : AccountId) (r : Records AccountId) : Records AccountId → Prop
  | stay : Punish acc r r
  | punish {info info' : MinerInfo AccountId} (hinfo : r.miners.lookup acc = some info)
      (hspace : info.SameSpace info') (hstate : info'.state = info.state ∨ info'.state = .frozen) :
      Punish acc r (r.write acc info')

/-- What a forced exit does, in a block for which `cooling` gives the time to wait.  It may stop
before it takes anything off the total of the idle space, after that if that time is out of
range, or after the restoral target has been made. -/
inductive Records.Force (acc : AccountId) (cooling : ℕ → Option ℕ) (r : Records AccountId) :
    Records AccountId → Prop
  | stay : Force acc cooling r r
  | taken {info : MinerInfo AccountId} (hinfo : r.miners.lookup acc = some info)
      (hle : wrappingAdd 128 info.idleSpace info.lockSpace ≤ r.totalIdle)
      (hcooling : cooling (wrappingAdd 128 info.serviceSpace info.lockSpace) = none) :
      Force acc cooling r (r.take (wrappingAdd 128 info.idleSpace info.lockSpace))
  | left {info : MinerInfo AccountId} {target : RestoralTargetInfo AccountId}
      (hinfo : r.miners.lookup acc = some info)
      (hle : wrappingAdd 128 info.idleSpace info.lockSpace ≤ r.totalIdle)
      (hproof : info.spaceProofInfo = none) (htarget : target.restoredSpace = 0) :
      Force acc cooling r
        ((r.take (wrappingAdd 128 info.idleSpace info.lockSpace)).leave acc target)
  | done {info : MinerInfo AccountId} {target : RestoralTargetInfo AccountId}
      (hinfo : r.miners.lookup acc = some info)
      (hle : wrappingAdd 128 info.idleSpace info.lockSpace ≤ r.totalIdle)
      (htarget : target.restoredSpace = 0) :
      Force acc cooling r
        ((((r.take (wrappingAdd 128 info.idleSpace info.lockSpace)).leave acc target).write acc
          { info with state := .offline }).clear acc)

/-! ## The code -/

variable {T : Chain.Config} {w w' : Chain.World T} {u : Unit}
variable {acc sender beneficiary miner : T.AccountId} {e : Error}
  {info info' : MinerInfo T.AccountId} {peerId : PeerId} {tibCount : ℕ}

theorem run_mutateMiner_ok {f : MinerInfo T.AccountId → Chain.ChainM T (MinerInfo T.AccountId)} :
    (Chain.mutateMiner T acc e f).run w = .ok u w' ↔ ∃ info info' w₁,
      w.miner.minerItems.lookup acc = some info ∧ (f info).run w = .ok info' w₁ ∧
      w₁.setMiner { w₁.miner with minerItems := w₁.miner.minerItems.insert acc info' } = w' :=
  run_tryMutate_unit_ok

/-- **The simp set of runs of sminer.** -/
theorem miner_ok :
    (∀ {T : Chain.Config} {w w' : Chain.World T} {u : Unit} {acc : T.AccountId} {e : Error}
      {f : MinerInfo T.AccountId → Chain.ChainM T (MinerInfo T.AccountId)},
      (Chain.mutateMiner T acc e f).run w = .ok u w' ↔ ∃ info info' w₁,
        w.miner.minerItems.lookup acc = some info ∧ (f info).run w = .ok info' w₁ ∧
        w₁.setMiner { w₁.miner with minerItems := w₁.miner.minerItems.insert acc info' } = w') ∧
    (∀ {T : Chain.Config} {f : World T.AccountId → World T.AccountId},
      Chain.modifyMiner T f = modify fun w => w.setMiner (f w.miner)) ∧
    (∀ {T : Chain.Config} {e : Chain.Event T},
      Chain.depositEvent T e = modify fun w => { w with events := w.events ++ [e] }) ∧
    ∀ {T : Chain.Config} {α : Type} {o : Option α} {e : Error},
      orElse T o e = okOr o (.sminer e) :=
  ⟨run_mutateMiner_ok, rfl, rfl, rfl⟩

/-- A record is written after quiet code. -/
theorem write_of_quiet (h : w.Quiet w') {w₁ : Chain.World T}
    (hw₁ : w'.setMiner { w'.miner with minerItems := w'.miner.minerItems.insert acc info } = w₁) :
    w.Beside w₁ ∧ w₁.records = w.records.write acc info := by
  subst hw₁
  constructor
  · refine IsTrans.trans _ _ _ h.beside ?_
    exact ⟨⟨_, _, _, _, _, rfl⟩, rfl, rfl⟩
  · rw [← h.records]
    rfl

/-- What a call of sminer does. -/
def Acts (w w' : Chain.World T) : Prop := w.Beside w' ∧ w.records.Act w'.records

theorem Acts.of_quiet (h : w.Quiet w') : Acts w w' :=
  ⟨h.beside, by rw [h.records]; exact .stay⟩

/-- Quiet code around an act. -/
theorem Acts.wrap {w₁ w₂ : Chain.World T} (h₁ : w.Quiet w₁) (h : Acts w₁ w₂) (h₂ : w₂.Quiet w') :
    Acts w w' := by
  constructor
  · exact IsTrans.trans _ _ _ h₁.beside (IsTrans.trans _ _ _ h.1 h₂.beside)
  · rw [h₂.records, ← h₁.records]
    exact h.2

theorem quiet_miners (h : w.Quiet w') : w'.miner.minerItems = w.miner.minerItems :=
  congrArg Records.miners h.records

/-! ### Registration -/

theorem registerMiner_acts (hnew : sender ∉ w.miner.minerItems) (hinfo : info.IsNew)
    (h : (registerMiner T sender info).run w = .ok u w') : Acts w w' := by
  simp only [registerMiner, miner_ok, run_ok, existsAndEq] at h
  subst h
  exact ⟨⟨⟨_, _, _, _, _, rfl⟩, rfl, rfl⟩, .register (AList.lookup_eq_none.mpr hnew) hinfo⟩

theorem regnstk_acts {stakingVal : ℕ}
    (h : (regnstk T sender beneficiary peerId stakingVal tibCount).run w = .ok u w') :
    Acts w w' := by
  simp only [regnstk, Chain.reserveFor, startStaking, registerMiner, miner_ok, run_ok,
    checkedMul_eq_some, existsAndEq] at h
  obtain ⟨hnew, hfits, limit, -, -, ledger, -, rfl⟩ := h
  refine ⟨⟨⟨_, _, _, _, _, rfl⟩, rfl, rfl⟩, .register (AList.lookup_eq_none.mpr hnew) ?_⟩
  exact ⟨rfl, rfl, rfl, rfl, rfl, rfl, hfits⟩

theorem regnstkAssignStaking_acts {stakingAccount : T.AccountId}
    (h : (regnstkAssignStaking T sender beneficiary peerId stakingAccount tibCount).run w =
      .ok u w') : Acts w w' := by
  simp only [regnstkAssignStaking, orElse, run_ok, run_ite_ok, checkedMul_eq_some, existsAndEq] at h
  obtain ⟨hnew, hfits, ⟨-, -, _, w₁, hcheck, _, w₂, hstaking, _, w₃, hstart, hregister⟩ |
    ⟨-, hregister⟩⟩ := h
  · have hquiet : w.Quiet w₃ := IsTrans.trans _ _ _
      ((Chain.keeps_checkQualification _ _).run_ok hcheck) (IsTrans.trans _ _ _
        ((Chain.quiet_staking _ _ _).run_ok hstaking) ((Chain.quiet_startStaking _).run_ok hstart))
    refine Acts.wrap hquiet (registerMiner_acts ?_ ?_ hregister) (refl w')
    · rwa [quiet_miners hquiet]
    · exact ⟨rfl, rfl, rfl, rfl, rfl, rfl, hfits⟩
  · exact registerMiner_acts hnew ⟨rfl, rfl, rfl, rfl, rfl, rfl, hfits⟩ hregister

/-! ### Changes of a record -/

/-- A record is written by a function that is quiet otherwise. -/
theorem mutateMiner_acts {f : MinerInfo T.AccountId → Chain.ChainM T (MinerInfo T.AccountId)}
    (hf : ∀ info info' w w', (f info).run w = .ok info' w' → w.Quiet w' ∧ info.Act info')
    (h : (Chain.mutateMiner T acc e f).run w = .ok u w') : Acts w w' := by
  obtain ⟨info, info', w₁, hinfo, hrun, hw'⟩ := run_mutateMiner_ok.mp h
  obtain ⟨hquiet, hact⟩ := hf info info' w w₁ hrun
  obtain ⟨hbeside, hrecords⟩ := write_of_quiet hquiet hw'
  refine ⟨hbeside, ?_⟩
  rw [hrecords]
  exact .write hinfo hact

theorem payDebt_ok {collaterals : ℕ} {p : MinerInfo T.AccountId × ℕ}
    (h : (payDebt T sender info collaterals).run w = .ok p w') :
    ∃ debt, p.1 = { info with debt := debt } := by
  simp only [payDebt, orElse, run_ite_ok, run_ok, existsAndEq] at h
  obtain ⟨-, ⟨-, debt, -, _, -, rfl, -⟩ | ⟨-, remaining, -, _, -, rfl, -⟩⟩ | ⟨-, rfl, -⟩ := h
  · exact ⟨_, rfl⟩
  · exact ⟨_, rfl⟩
  · exact ⟨_, rfl⟩

theorem thaw_ok (h : (thaw T info).run w = .ok info' w') :
    info.SameSpace info' ∧
      (info'.state = info.state ∨ info.state = .frozen ∧ info'.state = .positive) := by
  simp only [thaw, run_ite_ok, run_ok, existsAndEq] at h
  obtain ⟨hfrozen, limit, -, rfl, -⟩ | ⟨-, rfl, -⟩ := h
  · split_ifs
    · exact ⟨⟨rfl, rfl, rfl, rfl, rfl, rfl⟩, .inr ⟨hfrozen, rfl⟩⟩
    · exact ⟨⟨rfl, rfl, rfl, rfl, rfl, rfl⟩, .inl rfl⟩
  · exact ⟨⟨rfl, rfl, rfl, rfl, rfl, rfl⟩, .inl rfl⟩

theorem increaseCollateral_acts {collaterals : ℕ}
    (h : (increaseCollateral T sender miner collaterals).run w = .ok u w') : Acts w w' := by
  simp only [increaseCollateral, run_ok, existsAndEq] at h
  obtain ⟨-, hmutate⟩ := h
  refine mutateMiner_acts ?_ hmutate
  intro info info' w₀ w₁ hrun
  simp only [orElse, run_ok, checkedAdd_eq_some, existsAndEq] at hrun
  obtain ⟨-, -, -, -, _, w₂, hloan, p, w₃, hdebt, -, w₄, hthaw, _, w₅, hstart, _, w₆, hstake, _,
    hevent⟩ := hrun
  obtain ⟨debt, hp⟩ := payDebt_ok hdebt
  constructor
  · refine IsTrans.trans _ _ _ ((Chain.keeps_checkLoan _ _ _ _).run_ok hloan) ?_
    refine IsTrans.trans _ _ _ ((Chain.quiet_payDebt _ _ _).run_ok hdebt) ?_
    refine IsTrans.trans _ _ _ ((Chain.keeps_thaw _).run_ok hthaw) ?_
    refine IsTrans.trans _ _ _ ((Chain.quiet_startStaking _).run_ok hstart) ?_
    refine IsTrans.trans _ _ _ ((Chain.quiet_stakeMore _ _ _ _).run_ok hstake) ?_
    exact (Chain.quiet_depositEvent _).run_ok hevent.1
  · obtain ⟨hspace, hstate⟩ := thaw_ok hthaw
    rw [hp] at hspace hstate
    exact .revise ⟨hspace.declarationSpace, hspace.idleSpace, hspace.serviceSpace,
      hspace.lockSpace, hspace.spaceProofInfo, hspace.serviceBloomFilter⟩ hstate

theorem updateBeneficiary_acts (h : (updateBeneficiary T sender beneficiary).run w = .ok u w') :
    Acts w w' := by
  simp only [updateBeneficiary, miner_ok, run_ok, existsAndEq] at h
  obtain ⟨-, info, hinfo, rfl⟩ := h
  refine ⟨⟨⟨_, _, _, _, _, rfl⟩, rfl, rfl⟩, .write hinfo (.revise ?_ (.inl rfl))⟩
  exact ⟨rfl, rfl, rfl, rfl, rfl, rfl⟩

theorem updatePeerId_acts (h : (updatePeerId T sender peerId).run w = .ok u w') : Acts w w' := by
  simp only [updatePeerId, miner_ok, run_ok, existsAndEq] at h
  obtain ⟨_, -, info, hinfo, rfl⟩ := h
  refine ⟨⟨⟨_, _, _, _, _, rfl⟩, rfl, rfl⟩, .write hinfo (.revise ?_ (.inl rfl))⟩
  exact ⟨rfl, rfl, rfl, rfl, rfl, rfl⟩

theorem minerExitPrep_acts (h : (minerExitPrep T sender miner).run w = .ok u w') : Acts w w' := by
  simp only [minerExitPrep, miner_ok, run_ok, existsAndEq] at h
  obtain ⟨-, _, -, -, info, hinfo, -, hstate, hlock, _, -, _, -, agenda, -, rfl⟩ := h
  exact ⟨⟨⟨_, _, _, _, _, rfl⟩, rfl, rfl⟩, .write hinfo (.prepare hstate hlock)⟩

theorem registerPoisKey_acts {poisKey : PoISKey} {teeSigNeedVerify teeSig : BoundedVec UInt8 64}
    {teePuk : T.WorkerPublicKey}
    (h : (registerPoisKey T sender poisKey teeSigNeedVerify teeSig teePuk).run w = .ok u w') :
    Acts w w' := by
  simp only [registerPoisKey, Chain.updateOutside, miner_ok, run_ok, existsAndEq] at h
  obtain ⟨-, _, -, -, outside, -, _, -, info, hinfo, hstate, limit, -, -, rfl⟩ := h
  refine ⟨⟨⟨_, _, _, _, _, rfl⟩, rfl, rfl⟩, .write hinfo (.prove hstate ⟨rfl, rfl⟩ ?_)⟩
  split_ifs
  · exact .inl rfl
  · exact .inr rfl

theorem increaseDeclarationSpace_acts
    (h : (increaseDeclarationSpace T sender tibCount).run w = .ok u w') : Acts w w' := by
  simp only [increaseDeclarationSpace, miner_ok, run_ok, checkedAdd_eq_some, existsAndEq] at h
  obtain ⟨-, increase, -, info, hinfo, hstate, hfits, limit, -, rfl⟩ := h
  refine ⟨⟨⟨_, _, _, _, _, rfl⟩, rfl, rfl⟩,
    .write hinfo (.declare hstate (Nat.le_add_right _ _) hfits ?_)⟩
  split_ifs
  · exact .inr rfl
  · exact .inl hstate

/-! ### Exits -/

/-- The world with less idle space in the total. -/
def takeIdle (w : Chain.World T) (space : ℕ) : Chain.World T :=
  { w with bank := { w.bank with
      storage := { w.bank.storage with
        totalIdleSpace := w.bank.storage.totalIdleSpace - space } } }

/-- The world with another restoral target. -/
def setTarget (w : Chain.World T) (miner : T.AccountId)
    (target : RestoralTargetInfo T.AccountId) : Chain.World T :=
  w.setMiner { w.miner with restoralTarget := w.miner.restoralTarget.insert miner target }

theorem beside_takeIdle (w : Chain.World T) (space : ℕ) : w.Beside (takeIdle w space) :=
  ⟨⟨_, _, _, _, _, rfl⟩, rfl, rfl⟩

theorem beside_setTarget (w : Chain.World T) (miner : T.AccountId)
    (target : RestoralTargetInfo T.AccountId) : w.Beside (setTarget w miner target) :=
  ⟨⟨_, _, _, _, _, rfl⟩, rfl, rfl⟩

theorem run_subTotalIdleSpace (space : ℕ) (w : Chain.World T) :
    (Chain.liftStorage T (StorageHandler.subTotalIdleSpace T.toBank.toConfig space)).run w =
      if space ≤ w.records.totalIdle then .ok () (takeIdle w space)
      else .error (.storage .overflow) w := by
  have hrun : (Chain.liftStorage T
      (StorageHandler.subTotalIdleSpace T.toBank.toConfig space)).run w =
      (Chain.liftStorage T (okOr (checkedSub w.bank.storage.totalIdleSpace space) .overflow >>=
        fun total => modify fun s => { s with totalIdleSpace := total })).run w := rfl
  rw [hrun]
  unfold checkedSub
  show _ = if space ≤ w.bank.storage.totalIdleSpace then _ else _
  split_ifs <;> rfl

theorem run_createRestoralTarget (miner : T.AccountId) (serviceSpace : ℕ) (w : Chain.World T) :
    (createRestoralTarget T miner serviceSpace).run w =
      match coolingBlock T w.now serviceSpace with
      | some block => .ok () (setTarget w miner
          { miner := miner, serviceSpace := serviceSpace, restoredSpace := 0,
            coolingBlock := block })
      | none => .error (.sminer .overflow) w := by
  have hrun : (createRestoralTarget T miner serviceSpace).run w =
      (orElse T (coolingBlock T w.now serviceSpace) .overflow >>= fun block =>
        Chain.modifyMiner T fun s => { s with
          restoralTarget := s.restoralTarget.insert miner
            { miner := miner, serviceSpace := serviceSpace, restoredSpace := 0,
              coolingBlock := block } }).run w := rfl
  rw [hrun]
  cases coolingBlock T w.now serviceSpace <;> rfl

/-- **A planned exit**: the idle space goes out of the total, the miner out of the list, and the
service space it leaves behind is to be restored. -/
theorem minerExit_ok (h : (minerExit T miner).run w = .ok u w') :
    ∃ info target allMiner, w.miner.minerItems.lookup miner = some info ∧ info.state = .lock ∧
      info.idleSpace ≤ w.records.totalIdle ∧ target.restoredSpace = 0 ∧
      setTarget ((takeIdle w info.idleSpace).setMiner { w.miner with
        allMiner := allMiner
        minerItems := w.miner.minerItems.insert miner { info with state := .exit } })
          miner target = w' := by
  simp only [minerExit, executeExit, dropMiner, createRestoralTarget, miner_ok, run_ok,
    run_subTotalIdleSpace, existsAndEq] at h
  obtain ⟨info, hinfo, hstate, _, w₁, hsub, info₁, hinfo₁, block, -, rfl⟩ := h
  split_ifs at hsub with hle
  obtain rfl := (EStateM.Result.ok.inj hsub).2
  obtain rfl : info = info₁ := Option.mem_unique hinfo hinfo₁
  exact ⟨info, _, _, hinfo, hstate, hle, rfl, rfl⟩

theorem minerExit_acts (h : (minerExit T miner).run w = .ok u w') : Acts w w' := by
  obtain ⟨info, target, _, hinfo, hstate, hle, htarget, rfl⟩ := minerExit_ok h
  exact ⟨⟨⟨_, _, _, _, _, rfl⟩, rfl, rfl⟩, .exit hinfo hstate hle htarget⟩

theorem minerWithdraw_acts (h : (minerWithdraw T sender).run w = .ok u w') : Acts w w' := by
  simp only [minerWithdraw, withdraw, orElse, Chain.modifyMiner, run_ok, existsAndEq] at h
  obtain ⟨_, -, -, info, -, _, w₁, hrelease, -, hevent⟩ := h
  refine Acts.wrap ((Chain.quiet_releaseCollateral _ _).run_ok hrelease) ⟨?_, ?_⟩
    ((Chain.quiet_depositEvent _).run_ok hevent)
  · exact ⟨⟨_, _, _, _, _, rfl⟩, rfl, rfl⟩
  · exact .withdraw sender

theorem receiveReward_acts (h : (receiveReward T sender).run w = .ok u w') : Acts w w' := by
  refine .of_quiet (Keeps.run_ok (x := receiveReward T sender) ?_ h)
  refine keeps_get_bind fun w => ?_
  split
  · exact keeps_pure _
  · refine keeps_ensure_bind ?_
    refine keeps_bind (Chain.quiet_allowsRewards.calculateMinerReward _) fun _ => ?_
    exact Chain.quiet_allowsRewards.distributeRewards _ _

/-- **The calls of sminer** do nothing to the records but acts. -/
theorem Call.code_act (call : Call T) (h : (call.code T).run w = .ok u w') : Acts w w' := by
  cases call with
  | regnstk => exact regnstk_acts h
  | increaseCollateral => exact increaseCollateral_acts h
  | updateBeneficiary => exact updateBeneficiary_acts h
  | updatePeerId => exact updatePeerId_acts h
  | receiveReward sender => exact receiveReward_acts h
  | minerExitPrep => exact minerExitPrep_acts h
  | minerExit miner => exact minerExit_acts h
  | minerWithdraw sender => exact minerWithdraw_acts h
  | registerPoisKey => exact registerPoisKey_acts h
  | regnstkAssignStaking =>
    exact regnstkAssignStaking_acts h
  | increaseDeclarationSpace => exact increaseDeclarationSpace_acts h

/-! ## Punishments -/

/-- What a punishment takes: the collateral as far as it goes, and if it does not go further than
the amount, the debt is the whole amount. -/
structure Seized (punishAmount : ℕ) (info info' : MinerInfo T.AccountId) (ledger ledger' : T.Ledger) :
    Prop where
  frame : info' = { info with collaterals := info'.collaterals, debt := info'.debt }
  collaterals : info'.collaterals = info.collaterals - punishAmount
  debt : info'.debt = if punishAmount < info.collaterals then info.debt else punishAmount
  paid : T.transfer (T.unreserve ledger info.stakingAccount (min info.collaterals punishAmount))
    info.stakingAccount T.punishTreasury (min info.collaterals punishAmount) = some ledger'

theorem seizeCollateral_ok {punishAmount : ℕ}
    (h : (seizeCollateral T miner info punishAmount).run w = .ok info' w') :
    Seized punishAmount info info' w.ledger w'.ledger := by
  simp only [seizeCollateral, orElse, Chain.unreserveFor, Treasury.sendToPid, run_ite_ok, run_ok,
    Chain.run_currencyTransfer_ok, checkedSub_eq_some, existsAndEq] at h
  obtain ⟨hmore, ledger, hpaid, -, rfl, rfl⟩ | ⟨hless, ledger, hpaid, -, rfl, rfl⟩ := h
  · exact ⟨rfl, rfl, (if_pos hmore).symm, by rw [min_eq_right hmore.le]; exact hpaid⟩
  · have hle := Nat.le_of_not_lt hless
    exact ⟨rfl, (Nat.sub_eq_zero_of_le hle).symm, (if_neg hless).symm,
      by rw [min_eq_left hle]; exact hpaid⟩

theorem takeCollateral_ok {punishAmount : ℕ}
    (h : (takeCollateral T miner info punishAmount).run w = .ok info' w') :
    Seized punishAmount info info' w.ledger w'.ledger := by
  simp only [takeCollateral, run_ite_ok, run_bind_ok] at h
  obtain ⟨-, _, w₁, hpunish, hseize⟩ | ⟨-, hseize⟩ := h
  · let R : Chain.World T → Chain.World T → Prop := fun w w' => w'.ledger = w.ledger
    -- the books of the reservoir are no balances
    have hloans : Chain.AllowsLoans R := fun _ _ => rfl
    have hledger : w₁.ledger = w.ledger := (hloans.release miner punishAmount).run_ok hpunish
    exact hledger ▸ seizeCollateral_ok hseize
  · exact seizeCollateral_ok hseize

/-- A record is written unless the function that makes it stops. -/
theorem after_mutateMiner (f : MinerInfo T.AccountId → Chain.ChainM T (MinerInfo T.AccountId))
    (w : Chain.World T) :
    after (Chain.mutateMiner T acc e f) w = w ∨
      ∃ info, w.miner.minerItems.lookup acc = some info ∧
        after (Chain.mutateMiner T acc e f) w = match (f info).run w with
          | .ok info' w₁ =>
            w₁.setMiner { w₁.miner with minerItems := w₁.miner.minerItems.insert acc info' }
          | .error _ w₁ => w₁ := by
  unfold Chain.mutateMiner
  cases hinfo : w.miner.minerItems.lookup acc with
  | none => exact .inl (after_tryMutate_none (s := w) hinfo)
  | some info =>
    refine .inr ⟨info, rfl, ?_⟩
    rw [after_tryMutate_some (s := w) hinfo, EStateM.run_bind]
    cases (f info).run w <;> rfl

/-- **A punishment** may freeze the record of the miner, and does nothing else to it. -/
theorem after_depositPunish (miner : T.AccountId) (punishAmount : ℕ) (w : Chain.World T) :
    w.Beside (after (depositPunish T miner punishAmount) w) ∧
      w.records.Punish miner (after (depositPunish T miner punishAmount) w).records := by
  unfold depositPunish
  rcases after_mutateMiner (punishRecord T miner punishAmount) w with hsame | ⟨info, hinfo, hafter⟩
  · rw [hsame]
    exact ⟨refl w, .stay⟩
  · rw [hafter]
    have hquiet := Chain.quiet_punishRecord miner punishAmount info w
    cases hrun : (punishRecord T miner punishAmount info).run w with
    | error e w₁ =>
      unfold after at hquiet
      rw [hrun] at hquiet
      exact ⟨hquiet.beside, by rw [hquiet.records]; exact .stay⟩
    | ok =>
      rw [after_of_ok hrun] at hquiet
      obtain ⟨hbeside, hrecords⟩ := write_of_quiet hquiet rfl
      refine ⟨hbeside, ?_⟩
      simp only [punishRecord, orElse, run_ok, existsAndEq] at hrun
      obtain ⟨info₁, htake, limit, -, rfl, -⟩ := hrun
      rw [hrecords, (takeCollateral_ok htake).frame]
      refine .punish hinfo ?_ ?_ <;> split_ifs
      · exact ⟨rfl, rfl, rfl, rfl, rfl, rfl⟩
      · exact ⟨rfl, rfl, rfl, rfl, rfl, rfl⟩
      · exact .inr rfl
      · exact .inl rfl

/-- What a punishment does to the world. -/
def Punishes (miner : T.AccountId) (w w' : Chain.World T) : Prop :=
  w.Beside w' ∧ w.records.Punish miner w'.records

theorem Punishes.refl (miner : T.AccountId) (w : Chain.World T) : Punishes miner w w :=
  ⟨Std.Refl.refl w, .stay⟩

theorem after_clearPunish (miner : T.AccountId) (idleSpace serviceSpace count : ℕ)
    (w : Chain.World T) :
    Punishes miner w (after (clearPunish T miner idleSpace serviceSpace count) w) := by
  unfold clearPunish orElse
  dsimp only
  cases calculateLimitBySpace (calculatePower idleSpace serviceSpace) with
  | none => exact .refl miner w
  | some limit =>
    rw [after_okOr_some_bind, after_get_bind]
    cases w.miner.rewardMap.lookup miner with
    | none => exact .refl miner w
    | some reward => exact after_depositPunish miner _ w

theorem after_servicePunish (miner : T.AccountId) (idleSpace serviceSpace : ℕ) (w : Chain.World T) :
    Punishes miner w (after (servicePunish T miner idleSpace serviceSpace) w) := by
  unfold servicePunish orElse
  dsimp only
  cases calculateLimitBySpace (calculatePower idleSpace serviceSpace) with
  | none => exact .refl miner w
  | some limit => exact after_depositPunish miner _ w

/-! ## Forced exits -/

/-- How far the change of the record of a forced exit can come. -/
theorem expel_cases (hinfo : w.miner.minerItems.lookup acc = some info) :
    match (expel T acc info).run w with
    | .ok info' w' => w.Beside w' ∧ info' = { info with state := .offline } ∧
        wrappingAdd 128 info.idleSpace info.lockSpace ≤ w.records.totalIdle ∧
        ∃ target : RestoralTargetInfo T.AccountId, target.restoredSpace = 0 ∧
          w'.records =
            (w.records.take (wrappingAdd 128 info.idleSpace info.lockSpace)).leave acc target
    | .error _ w' => w.Beside w' ∧ w.records.Force acc (coolingBlock T w.now) w'.records := by
  set space := wrappingAdd 128 info.idleSpace info.lockSpace with hspace
  unfold expel
  rw [EStateM.run_bind]
  have hquiet := Chain.quiet_settleExit acc info w
  cases hsettle : (settleExit T acc info).run w with
  | error e w₁ =>
    unfold after at hquiet
    rw [hsettle] at hquiet
    exact ⟨hquiet.beside, by rw [hquiet.records]; exact .stay⟩
  | ok u₁ w₁ =>
    rw [after_of_ok hsettle] at hquiet
    have hbeside : w.Beside (takeIdle w₁ space) :=
      IsTrans.trans _ _ _ hquiet.beside (beside_takeIdle w₁ space)
    have htake : (takeIdle w₁ space).records = w.records.take space := by
      rw [← hquiet.records]
      rfl
    have hnow : (takeIdle w₁ space).now = w.now := hbeside.bank.now
    dsimp only
    rw [EStateM.run_bind, run_subTotalIdleSpace, hquiet.records]
    split_ifs with hle
    · dsimp only
      rw [EStateM.run_bind, run_createRestoralTarget, hnow]
      cases hcooling : coolingBlock T w.now
          (wrappingAdd 128 info.serviceSpace info.lockSpace) with
      | none =>
        refine ⟨hbeside, ?_⟩
        rw [htake]
        exact .taken hinfo hle hcooling
      | some block =>
        have hleave : ∀ target, (setTarget (takeIdle w₁ space) acc target).records =
            (w.records.take space).leave acc target := by
          intro target
          rw [← htake]
          rfl
        cases hproof : info.spaceProofInfo with
        | none =>
          refine ⟨IsTrans.trans _ _ _ hbeside (beside_setTarget _ _ _), ?_⟩
          rw [hleave]
          exact .left hinfo hle hproof rfl
        | some proof =>
          refine ⟨IsTrans.trans _ _ _ hbeside (beside_setTarget _ _ _), rfl, hle, _, ?_,
            hleave _⟩
          rfl
    · exact ⟨hquiet.beside, by rw [hquiet.records]; exact .stay⟩

/-- **A forced exit** makes a miner leave or stops on the way. -/
theorem after_forceMinerExit (acc : T.AccountId) (w : Chain.World T) :
    w.Beside (after (forceMinerExit T acc) w) ∧
      w.records.Force acc (coolingBlock T w.now) (after (forceMinerExit T acc) w).records := by
  have hquiet := Chain.quiet_dropMiner acc w
  set w₀ := after (dropMiner T acc) w with hw₀
  have hdrop : (dropMiner T acc).run w = .ok () w₀ := rfl
  unfold forceMinerExit
  rw [after_bind, hdrop]
  dsimp only
  rw [after_bind]
  cases hmutate : (Chain.mutateMiner T acc .unexpected (expel T acc)).run w₀ with
  | ok u₁ w₂ =>
    obtain ⟨info, info', w₁, hinfo, hexpel, rfl⟩ := run_mutateMiner_ok.mp hmutate
    have hcases := expel_cases hinfo
    rw [hexpel] at hcases
    obtain ⟨hbeside, rfl, hle, target, htarget, hrecords⟩ := hcases
    constructor
    · refine IsTrans.trans _ _ _ hquiet.beside (IsTrans.trans _ _ _ hbeside ?_)
      exact ⟨⟨_, _, _, _, _, rfl⟩, rfl, rfl⟩
    · have hdone : w₀.records.Force acc (coolingBlock T w₀.now) _ := .done hinfo hle htarget
      rw [← hrecords] at hdone
      exact hdone
  | error e w₁ =>
    have hafter : after (Chain.mutateMiner T acc .unexpected (expel T acc)) w₀ = w₁ := by
      unfold after
      rw [hmutate]
    rcases after_mutateMiner (expel T acc) w₀ with hsame | ⟨info, hinfo, hmatch⟩
    · rw [hafter] at hsame
      rw [hsame]
      exact ⟨hquiet.beside, .stay⟩
    · have hcases := expel_cases hinfo
      cases hexpel : (expel T acc info).run w₀ with
      | ok info' w₂ =>
        have hok : (Chain.mutateMiner T acc .unexpected (expel T acc)).run w₀ = .ok () _ :=
          run_mutateMiner_ok.mpr ⟨info, info', w₂, hinfo, hexpel, rfl⟩
        rw [hmutate] at hok
        cases hok
      | error e' w₂ =>
        rw [hafter, hexpel] at hmatch
        rw [hexpel] at hcases
        rw [hmatch]
        exact ⟨IsTrans.trans _ _ _ hquiet.beside hcases.1, hcases.2⟩

end Sminer
