/-
# What the file bank leaves alone

The file bank moves files, deals and space, but no step of it changes the state of a miner, the
clock or a balance.  This file says so once for every function:

* `Sminer.World.Each R` : every record of a miner changes by the relation `R` only, here
  `MinerInfo.Stays`, which keeps the state and the collateral;
* `FileBank.World.Stays` : the same for all storages of the file bank;
* `Call.code_stays` and `after_onInitialize` : the calls and the hook;
* `step_now`, `step_miners` and `step_unpaid` : the steps.
-/
import CessNode.ConsignmentTask
import CessNode.MinerBooks
import CessNode.ServiceSpace

open Dispatch StorageMap

/-! ## The records of the miners -/

namespace Sminer

variable {AccountId : Type}

/-- What a record says about money. -/
def MinerInfo.pledge (info : MinerInfo AccountId) : AccountId × ℕ × ℕ :=
  (info.stakingAccount, info.collaterals, info.debt)

/-- The state and the collateral are the same, and a proof is not taken back. -/
structure MinerInfo.Stays (info info' : MinerInfo AccountId) : Prop where
  state : info'.state = info.state
  pledge : info'.pledge = info.pledge
  proof : info'.spaceProofInfo = none → info.spaceProofInfo = none

instance : Std.Refl (@MinerInfo.Stays AccountId) where
  refl _ := ⟨rfl, rfl, id⟩

instance : IsTrans (MinerInfo AccountId) MinerInfo.Stays where
  trans _ _ _ h h' := ⟨h'.state.trans h.state, h'.pledge.trans h.pledge,
    fun hnone => h.proof (h'.proof hnone)⟩

variable [DecidableEq AccountId]

/-- Every record changes by `R` only, and the miners that have left, the rewards and the collateral
to be returned are the same. -/
structure World.Each (R : MinerInfo AccountId → MinerInfo AccountId → Prop)
    (s s' : World AccountId) : Prop where
  info : ∀ acc info, s.minerItems.lookup acc = some info →
    ∃ info', s'.minerItems.lookup acc = some info' ∧ R info info'
  none : ∀ acc, s.minerItems.lookup acc = none → s'.minerItems.lookup acc = none
  target : ∀ acc, (s'.restoralTarget.lookup acc).isSome = (s.restoralTarget.lookup acc).isSome
  rewards : s'.rewardMap = s.rewardMap
  schedule : s'.returnStakingSchedule = s.returnStakingSchedule

variable {R : MinerInfo AccountId → MinerInfo AccountId → Prop} {α : Type} {acc : AccountId}

instance [Std.Refl R] : Std.Refl (World.Each R) where
  refl _ := ⟨fun _ info h => ⟨info, h, refl info⟩, fun _ h => h, fun _ => rfl, rfl, rfl⟩

instance [IsTrans _ R] : IsTrans (World AccountId) (World.Each R) where
  trans s₁ s₂ s₃ h h' := by
    refine ⟨fun acc info hinfo => ?_, fun acc hnone => h'.none acc (h.none acc hnone),
      fun acc => (h'.target acc).trans (h.target acc), h'.rewards.trans h.rewards,
      h'.schedule.trans h.schedule⟩
    obtain ⟨info₂, hinfo₂, hr⟩ := h.info acc info hinfo
    obtain ⟨info₃, hinfo₃, hr'⟩ := h'.info acc info₂ hinfo₂
    exact ⟨info₃, hinfo₃, IsTrans.trans _ _ _ hr hr'⟩

/-- A change of one record. -/
theorem each_write [Std.Refl R] {s : World AccountId} {info info' : MinerInfo AccountId}
    (hinfo : s.minerItems.lookup acc = some info) (hr : R info info') :
    s.Each R { s with minerItems := s.minerItems.insert acc info' } := by
  refine ⟨fun a info₁ hinfo₁ => ?_, fun a hnone => ?_, fun _ => rfl, rfl, rfl⟩
  · by_cases ha : a = acc
    · subst ha
      obtain rfl := Option.mem_unique hinfo hinfo₁
      exact ⟨info', AList.lookup_insert _, hr⟩
    · exact ⟨info₁, (AList.lookup_insert_ne ha).trans hinfo₁, refl info₁⟩
  · have ha : a ≠ acc := by
      rintro rfl
      rw [hinfo] at hnone
      cases hnone
    exact (AList.lookup_insert_ne ha).trans hnone

theorem each_tryMutateMiner [Std.Refl R] {e : Error}
    {f : MinerInfo AccountId → MinerM AccountId (α × MinerInfo AccountId)}
    (hpure : ∀ info, Keeps Eq (f info))
    (hf : ∀ info s a info', (f info).run s = .ok (a, info') s → R info info') :
    Keeps (World.Each R) (tryMutateMiner acc e f) := by
  intro s
  unfold tryMutateMiner
  rcases after_tryMutate_pure hpure s with h | ⟨info, a, info', hinfo, hrun, h⟩
  · rw [h]
    exact refl s
  · rw [h]
    exact each_write hinfo (hf info s a info' hrun)

theorem each_tryMutateIfMiner [Std.Refl R] [IsTrans _ R]
    {f : MinerInfo AccountId → MinerM AccountId (Unit × MinerInfo AccountId)}
    (hpure : ∀ info, Keeps Eq (f info))
    (hf : ∀ info s a info', (f info).run s = .ok (a, info') s → R info info') :
    Keeps (World.Each R) (tryMutateIfMiner acc f) :=
  keeps_get_bind fun _ =>
    keeps_ite (fun _ => each_tryMutateMiner hpure hf) fun _ => keeps_pure _

theorem each_tryMutatePending [Std.Refl R] [IsTrans _ R] {f : ℕ → MinerM AccountId ℕ}
    (hf : ∀ v, Keeps (World.Each R) (f v)) : Keeps (World.Each R) (tryMutatePending acc f) :=
  keeps_tryMutate (fun v => keeps_bind (hf v) fun _ => keeps_pure _)
    fun _ _ => ⟨fun _ info h => ⟨info, h, refl info⟩, fun _ h => h, fun _ => rfl, rfl, rfl⟩

theorem stays_updateRestoralTarget (acc : AccountId) (space : ℕ) :
    Keeps (World.Each MinerInfo.Stays) (updateRestoralTarget acc space) := by
  intro s
  have hpure : ∀ info : RestoralTargetInfo AccountId, Keeps (@Eq (World AccountId)) (do
      let restored ← okOr (checkedAdd 128 info.restoredSpace space) Error.overflow
      pure ((), { info with restoredSpace := restored })) :=
    fun info => keeps_okOr_bind fun _ => keeps_pure _
  unfold updateRestoralTarget
  rcases after_tryMutate_pure hpure s with h | ⟨info, a, info', hinfo, hrun, h⟩
  · rw [h]
    exact refl s
  · rw [h]
    refine ⟨fun _ info h => ⟨info, h, refl info⟩, fun _ h => h, fun a => ?_, rfl, rfl⟩
    rw [lookup_insert_ite]
    split_ifs with ha
    · rw [ha, hinfo]
      rfl
    · rfl

theorem stays_increaseReplaceSpace (acc : AccountId) (space : ℕ) :
    Keeps (World.Each MinerInfo.Stays) (increaseReplaceSpace acc space) :=
  each_tryMutatePending fun _ => keeps_okOr _ _

theorem stays_decreaseReplaceSpace (acc : AccountId) (space : ℕ) :
    Keeps (World.Each MinerInfo.Stays) (decreaseReplaceSpace acc space) :=
  each_tryMutatePending fun _ => keeps_ensure_bind <| keeps_okOr _ _

theorem stays_unlockSpaceDirect (acc : AccountId) (space : ℕ) :
    Keeps (World.Each MinerInfo.Stays) (unlockSpaceDirect acc space) := by
  refine each_tryMutateIfMiner (fun info => ?_) fun info s u info' h => ?_
  · exact keeps_okOr_bind fun _ => keeps_pure _
  · simp only [run_ok, checkedSub_eq_some, existsAndEq, Prod.mk.injEq] at h
    obtain ⟨-, rfl, -⟩ := h
    exact ⟨rfl, rfl, id⟩

theorem stays_updateServiceSpace (acc : AccountId) (change : ℕ → Option ℕ) :
    Keeps (World.Each MinerInfo.Stays) (updateServiceSpace acc change) := by
  refine keeps_get_bind fun s => keeps_ite (fun _ => ?_) fun _ => keeps_pure _
  refine keeps_bind ?_ fun state => keeps_ite (fun _ => keeps_pure _) fun _ => ?_
  · exact keeps_get_bind fun _ => keeps_okOr_bind fun _ => keeps_pure _
  refine each_tryMutateMiner (fun info => ?_) fun info s u info' h => ?_
  · exact keeps_okOr_bind fun _ => keeps_pure _
  · simp only [run_ok, existsAndEq, Prod.mk.injEq] at h
    obtain ⟨_, -, rfl, -⟩ := h
    exact ⟨rfl, rfl, id⟩

theorem stays_updateServiceBloom (change : BloomFilter → (Fin 256 → UInt8) → Option BloomFilter)
    (acc : AccountId) (hashList : List (Fin 256 → UInt8)) :
    Keeps (World.Each MinerInfo.Stays) (updateServiceBloom change acc hashList) := by
  refine each_tryMutateMiner (fun info => ?_) fun info s u info' h => ?_
  · exact keeps_okOr_bind fun _ => keeps_pure _
  · simp only [run_ok, existsAndEq, Prod.mk.injEq] at h
    obtain ⟨_, -, rfl, -⟩ := h
    exact ⟨rfl, rfl, id⟩

theorem stays_deleteIdleUpdateSpace (acc : AccountId) (space : ℕ) :
    Keeps (World.Each MinerInfo.Stays) (deleteIdleUpdateSpace acc space) := by
  refine each_tryMutateMiner (fun info => ?_) fun info s u info' h => ?_
  · exact keeps_okOr_bind fun _ => keeps_pure _
  · simp only [run_ok, existsAndEq, Prod.mk.injEq] at h
    obtain ⟨_, -, rfl, -⟩ := h
    exact ⟨rfl, rfl, id⟩

theorem stays_unlockSpace (acc : AccountId) (space : ℕ) :
    Keeps (World.Each MinerInfo.Stays) (unlockSpace acc space) := by
  refine each_tryMutateIfMiner (fun info => ?_) fun info s u info' h => ?_
  · exact keeps_okOr_bind fun _ => keeps_okOr_bind fun _ => keeps_pure _
  · simp only [run_ok, existsAndEq, Prod.mk.injEq] at h
    obtain ⟨_, -, _, -, rfl, -⟩ := h
    exact ⟨rfl, rfl, id⟩

end Sminer

/-! ## The storages of the file bank -/

namespace StorageHandler

variable {T : Config}

theorem after_frozenTask_now (s : World T) : (after (frozenTask T) s).now = s.now := by
  have hnow : s.book.frozenTask.now = s.book.now :=
    Book.frozenTask_keeps (Q := fun b => b.now = s.book.now)
      (fun b token h => (b.freeze_frame token).1.trans h)
      (fun b token h => (b.expire_frame token).1.trans h) rfl
  rw [← after_frozenTask_book] at hnow
  exact hnow

/-- Nothing but a new block moves the clock. -/
theorem step_now {n n' : Node T} {a : Action T} (h : n.step a = some n') (hnew : a ≠ .newBlock) :
    n'.world.now = n.world.now := by
  rcases step_book h with ⟨heq, -⟩ | ⟨rfl, -⟩ | ⟨-, hbook | ⟨ch, -, hstep, -⟩⟩
  · exact absurd heq hnew
  · obtain ⟨-, rfl⟩ := step_frozenTask h
    exact after_frozenTask_now n.world
  · exact congrArg Book.now hbook
  · exact hstep.now_eq

end StorageHandler

namespace FileBank

open Sminer (MinerInfo)

variable {T : Config} {w w' : World T} {u : Unit}
variable {α : Type} {sender : T.AccountId} {index : ℕ} {dealHash : Hash}

/-- The clock, the balances, the consignments and the states of the miners are the same. -/
structure World.Stays (w w' : World T) : Prop where
  now : w'.storage.now = w.storage.now
  ledger : w'.storage.ledger = w.storage.ledger
  consignment : w'.storage.consignment = w.storage.consignment
  miner : w.miner.Each MinerInfo.Stays w'.miner

instance : Std.Refl (World.Stays (T := T)) where
  refl _ := ⟨rfl, rfl, rfl, refl _⟩

instance : IsTrans (World T) World.Stays where
  trans _ _ _ h h' := ⟨h'.now.trans h.now, h'.ledger.trans h.ledger,
    h'.consignment.trans h.consignment, IsTrans.trans _ _ _ h.miner h'.miner⟩

theorem World.Aside.stays (h : w.Aside w') : w.Stays w' := by
  refine ⟨h.storage.now, h.storage.outside.ledger, h.storage.consignment, ?_⟩
  rw [h.miner]
  exact refl _

theorem World.Retouched.stays (h : w.Retouched w') : w.Stays w' := by
  refine ⟨h.storage.now, h.storage.outside.ledger, h.storage.consignment, ?_⟩
  rw [h.miner]
  exact refl _

theorem Keeps.stays {x : PalletM T α} (hx : Keeps World.Aside x) : Keeps World.Stays x :=
  hx.mono fun _ _ => World.Aside.stays

theorem stays_liftMiner {x : Sminer.MinerM T.AccountId α}
    (hx : Keeps (Sminer.World.Each MinerInfo.Stays) x) : Keeps World.Stays (liftMiner T x) :=
  keeps_zoom hx fun _ _ h => ⟨rfl, rfl, rfl, h⟩

/-! ### Removal of files -/

theorem stays_releaseFragments (miner : T.AccountId) (hashList : List (Hash × Bool)) :
    Keeps World.Stays (releaseFragments T miner hashList) := by
  refine keeps_get_bind fun w => keeps_ite (fun _ => ?_) fun _ => ?_
  · exact stays_liftMiner (Sminer.stays_updateRestoralTarget _ _)
  · refine keeps_okOr_bind fun _ => ?_
    refine keeps_bind (stays_liftMiner (Sminer.stays_updateServiceSpace _ _)) fun _ => ?_
    refine keeps_bind (stays_liftMiner (Sminer.stays_updateServiceBloom _ _ _)) fun _ => ?_
    exact stays_liftMiner (Sminer.stays_unlockSpaceDirect _ _)

theorem stays_subService (decrement : ℕ) : Keeps World.Stays
    (liftStorage T (StorageHandler.subTotalServiceSpace T.toConfig decrement)) := by
  intro w
  rw [liftStorage, after_zoom, StorageHandler.subTotalServiceSpace, after_get_bind]
  cases checkedSub w.storage.totalServiceSpace decrement <;> exact ⟨rfl, rfl, rfl, refl _⟩

theorem stays_removeFileLastOwner (fileHash : Hash) (acc : T.AccountId) (userClear : Bool) :
    Keeps World.Stays (removeFileLastOwner T fileHash acc userClear) := by
  have hused := fun name size => Keeps.stays
    (keeps_liftLocks (StorageHandler.keeps_subTerritoryUsedSpace (T := T.toConfig) acc name size))
  refine keeps_bind ?_ fun total => keeps_bind (stays_subService _) fun _ => ?_
  · refine keeps_get_bind fun w => keeps_okOr_bind fun file => ?_
    refine keeps_bind (keeps_forM fun p _ => stays_releaseFragments _ _) fun _ => ?_
    refine keeps_ite (fun _ => ?_) fun _ => keeps_pure _
    split
    · exact keeps_bind (hused _ _) fun _ => keeps_pure _
    · exact keeps_pure _
  · exact keeps_modify fun _ => ⟨rfl, rfl, rfl, refl _⟩

theorem stays_removeFileOwner (fileHash : Hash) (acc : T.AccountId) (userClear : Bool) :
    Keeps World.Stays (removeFileOwner T fileHash acc userClear) :=
  (keeps_removeFileOwner fileHash acc userClear).mono fun _ _ => World.Retouched.stays

theorem stays_deleteFile (sender owner : T.AccountId) (fileHash : Hash) :
    Keeps World.Stays (deleteFile T sender owner fileHash) := by
  refine keeps_get_bind fun w => keeps_ensure_bind ?_
  refine keeps_okOr_bind fun file => keeps_bind (keeps_forM fun brief _ => ?_) fun _ => ?_
  · refine keeps_ite (fun _ => ?_) fun _ => keeps_pure _
    exact keeps_ite (fun _ => stays_removeFileOwner _ _ _) fun _ => stays_removeFileLastOwner _ _ _
  · refine Keeps.stays (keeps_bind (keeps_bucketRemoveFile _ _ _) fun _ => ?_)
    exact keeps_bind (keeps_removeUserHoldFileList _ _) fun _ => keeps_depositEvent _

theorem stays_clearFile (acc : T.AccountId) (fileHash : Hash) :
    Keeps World.Stays (clearFile T acc fileHash) :=
  keeps_clearFile_of (stays_removeFileOwner _ _ _) (stays_removeFileLastOwner _ _ _)
    fun _ => Keeps.stays (keeps_bucketRemoveFile _ _ _)

theorem stays_clearUsers (list : List (T.AccountId × TerrName)) (count : ℕ) :
    Keeps World.Stays (clearUsers T list count) := by
  refine keeps_clearUsers_of (fun _ _ => Keeps.stays (keeps_putHeld _ _)) ?_ stays_clearFile _ _
  exact fun _ => keeps_modify fun _ => ⟨rfl, rfl, rfl, refl _⟩

/-- The hook of the file bank is the one of storage-handler and the clearing of files. -/
theorem after_onInitialize (w : World T) : ∃ clearUserList,
    World.Stays { w with
      storage := after (StorageHandler.frozenTask T.toConfig) w.storage
      clearUserList := clearUserList } (after (onInitialize T) w) := by
  have hfrozen : after (liftStorage T (StorageHandler.frozenTask T.toConfig)) w =
      { w with storage := after (StorageHandler.frozenTask T.toConfig) w.storage } :=
    after_zoom _ _ _ _ w
  unfold onInitialize
  rw [after_bind]
  cases hrun : (liftStorage T (StorageHandler.frozenTask T.toConfig)).run w with
  | error e w₁ =>
    unfold after at hfrozen
    rw [hrun] at hfrozen
    refine ⟨w.clearUserList, ?_⟩
    rw [hfrozen]
    exact refl _
  | ok =>
    rw [after_of_ok hrun] at hfrozen
    subst hfrozen
    exact ⟨_, stays_clearUsers _ _ _⟩

/-! ### Calls -/

theorem stays_restoreFragment (sender : T.AccountId) (fragment : FragmentInfo T) :
    Keeps World.Stays (restoreFragment T sender fragment) := by
  refine keeps_okOr_bind fun binary => ?_
  refine keeps_bind (stays_liftMiner (Sminer.stays_updateServiceBloom _ _ _)) fun _ => ?_
  refine keeps_bind (stays_liftMiner (Sminer.stays_updateServiceSpace _ _)) fun _ => ?_
  refine keeps_bind (stays_liftMiner (Sminer.stays_deleteIdleUpdateSpace _ _)) fun _ => ?_
  refine keeps_bind (stays_liftMiner (Sminer.stays_increaseReplaceSpace _ _)) fun _ => ?_
  refine keeps_get_bind fun w => keeps_ite (fun _ => ?_) fun _ => keeps_ite (fun _ => ?_)
    fun _ => ?_
  · exact stays_liftMiner (Sminer.stays_updateRestoralTarget _ _)
  · refine keeps_bind (stays_liftMiner (Sminer.stays_updateServiceBloom _ _ _)) fun _ => ?_
    exact stays_liftMiner (Sminer.stays_updateServiceSpace _ _)
  · exact stays_liftMiner (Sminer.stays_unlockSpaceDirect _ _)

theorem stays_completedAll (deal : DealInfo T) : Keeps World.Stays (deal.completedAll T) :=
  keeps_forM fun _ _ => keeps_okOr_bind fun _ =>
    stays_liftMiner (Sminer.stays_increaseReplaceSpace _ _)

theorem stays_forceUnlockSpace (deal : DealInfo T) :
    Keeps World.Stays (deal.forceUnlockSpace T) :=
  keeps_forM fun _ _ => keeps_okOr_bind fun _ =>
    stays_liftMiner (Sminer.stays_unlockSpace _ _)

theorem transferReport_stays (h : (transferReport T sender index dealHash).run w = .ok u w') :
    w.Stays w' := by
  obtain ⟨-, deal, info, -, -, -, ⟨-, s, hunlock, rfl⟩ | ⟨deal', s, w₁, events, -, hlock, rfl,
    hrest⟩⟩ := transferReport_run h
  · exact ⟨rfl, rfl, rfl, ((stays_forceUnlockSpace deal).run_ok hunlock).miner⟩
  · have hreport : w.miner.Each MinerInfo.Stays s := by
      obtain ⟨info, hinfo, -, -, rfl⟩ := Sminer.run_lockSpace_ok.mp hlock
      exact Sminer.each_write hinfo ⟨rfl, rfl, id⟩
    rcases hrest with ⟨-, rfl⟩ | hcomplete
    · exact ⟨rfl, rfl, rfl, hreport⟩
    · obtain ⟨s', file, t, held, bucket, buckets, events, hall, -, -, -, -, -, -, rfl⟩ :=
        completeDeal_run hcomplete
      exact ⟨rfl, rfl, rfl,
        IsTrans.trans _ _ _ hreport ((stays_completedAll deal').run_ok hall).miner⟩

theorem restoralOrderComplete_stays {fragmentHash : Hash}
    (h : (restoralOrderComplete T sender fragmentHash).run w = .ok u w') : w.Stays w' := by
  obtain ⟨order, info, w₁, events, -, -, -, rfl, ⟨-, rfl⟩ | ⟨file, -, ⟨-, rfl⟩ | ⟨fragment, s, -, -,
    hrestore, rfl⟩⟩⟩ := restoralOrderComplete_run h
  · exact ⟨rfl, rfl, rfl, refl _⟩
  · exact ⟨rfl, rfl, rfl, refl _⟩
  · exact ⟨rfl, rfl, rfl, ((stays_restoreFragment _ _).run_ok hrestore).miner⟩

/-- **No call of the file bank changes the state of a miner.** -/
theorem Call.code_stays (call : Call T) (h : (call.code T).run w = .ok u w') : w.Stays w' := by
  cases call with
  | uploadDeclaration =>
    rcases uploadDeclaration_run h with ⟨w₁, events, hfly, rfl⟩ | ⟨-, -, t, events, -, -, rfl⟩
    · have hstays := (flyUploadFile_ok hfly).stays
      exact ⟨hstays.now, hstays.ledger, hstays.consignment, hstays.miner⟩
    · exact ⟨rfl, rfl, rfl, refl _⟩
  | territoryFileDelivery =>
    exact (Keeps.stays (keeps_territoryFileDelivery _ _ _ _)).run_ok h
  | transferReport => exact transferReport_stays h
  | calculateReport =>
    obtain ⟨file, hashList, s₁, s₂, outside, events, -, -, hunlock, hinsert, rfl⟩ :=
      calculateReport_run h
    refine ⟨rfl, rfl, rfl, IsTrans.trans _ s₁ _ ?_
      ((Sminer.stays_updateServiceBloom _ _ _).run_ok hinsert)⟩
    obtain ⟨info, hinfo, -, -, rfl⟩ := Sminer.run_unlockSpaceToService_ok.mp hunlock
    exact Sminer.each_write hinfo ⟨rfl, rfl, id⟩
  | replaceIdleSpace =>
    obtain ⟨signature, count, s₁, s₂, outside, events, hdelete, hreplace, rfl⟩ :=
      replaceIdleSpace_run h
    refine ⟨rfl, rfl, rfl, IsTrans.trans _ s₁ _ ?_
      ((Sminer.stays_decreaseReplaceSpace _ _).run_ok hreplace)⟩
    obtain ⟨info, proof, hinfo, -, -, -, -, rfl⟩ := Sminer.run_deleteIdleUpdateAccu_ok.mp hdelete
    exact Sminer.each_write hinfo ⟨rfl, rfl, nofun⟩
  | deleteFile => exact (stays_deleteFile _ _ _).run_ok h
  | certIdleSpace =>
    obtain ⟨signature, space, s, outside, events, hadd, rfl⟩ := certIdleSpace_run h
    obtain ⟨info, proof, hinfo, -, -, -, -, -, -, -, rfl⟩ := Sminer.run_addMinerIdleSpace_ok.mp hadd
    exact ⟨rfl, rfl, rfl, Sminer.each_write hinfo ⟨rfl, rfl, nofun⟩⟩
  | createBucket => exact (createBucket_ok h).stays
  | deleteBucket => exact (deleteBucket_ok h).stays
  | generateRestoralOrder => exact (generateRestoralOrder_ok h).stays
  | claimRestoralOrder => exact (claimRestoralOrder_ok h).stays
  | claimRestoralNoexistOrder => exact (claimRestoralNoexistOrder_ok h).stays
  | restoralOrderComplete => exact restoralOrderComplete_stays h

section Steps

variable {n n' : Node T} {a : Action T}

/-- A step of the file bank itself, apart from the hook of storage-handler inside its own. -/
theorem step_stays (h : n.step a = some n') (hstorage : ∀ b, a ≠ .storage b)
    (hexternal : ∀ miner outside totalIdleSpace, a ≠ .external miner outside totalIdleSpace) :
    ∃ s, (s = n.world.storage ∨ s = after (StorageHandler.frozenTask T.toConfig) n.world.storage) ∧
      World.Stays { n.world with storage := s } n'.world := by
  cases a with
  | storage b => exact absurd rfl (hstorage b)
  | onInitialize =>
    rw [step_onInitialize h]
    obtain ⟨clearUserList, hstays⟩ := after_onInitialize n.world
    exact ⟨_, .inr rfl, hstays.now, hstays.ledger, hstays.consignment, hstays.miner⟩
  | clearFile acc fileHash =>
    rw [step_clearFile h]
    exact ⟨_, .inl rfl, stays_clearFile acc fileHash n.world⟩
  | call c =>
    refine ⟨_, .inl rfl, ?_⟩
    rcases step_call h with hrun | hworld
    · exact c.code_stays hrun
    · rw [hworld]
      exact refl _
  | external => exact absurd rfl (hexternal _ _ _)

/-- Nothing but a new block moves the clock. -/
theorem step_now (h : n.step a = some n') (hnew : a ≠ .storage .newBlock) :
    n'.world.storage.now = n.world.storage.now := by
  cases a with
  | storage a =>
    obtain ⟨-, hstep, -⟩ := step_storage h
    exact StorageHandler.step_now hstep fun ha => hnew (congrArg _ ha)
  | external =>
    obtain rfl := step_external h
    rfl
  | onInitialize | clearFile | call =>
    obtain ⟨s, rfl | rfl, hstays⟩ := step_stays h nofun nofun
    · exact hstays.now
    · exact hstays.now.trans (StorageHandler.after_frozenTask_now _)

/-- **No step of the file bank changes the state of a miner.** -/
theorem step_miners (h : n.step a = some n')
    (hexternal : ∀ miner outside totalIdleSpace, a ≠ .external miner outside totalIdleSpace) :
    n.world.miner.Each MinerInfo.Stays n'.world.miner := by
  cases a with
  | storage a =>
    obtain ⟨-, -, hworld⟩ := step_storage h
    rw [hworld]
    exact refl _
  | external => exact absurd rfl (hexternal _ _ _)
  | onInitialize | clearFile | call =>
    obtain ⟨s, -, hstays⟩ := step_stays h nofun nofun
    exact hstays.miner

/-- **Only the calls of storage-handler move money**, and nothing else puts down a consignment. -/
theorem step_unpaid (h : n.step a = some n') (hstorage : ∀ b, a ≠ .storage b) :
    n'.world.storage.ledger = n.world.storage.ledger ∧
      ∀ token c, n'.world.storage.consignment.lookup token = some c →
        n.world.storage.consignment.lookup token = some c := by
  cases a with
  | storage b => exact absurd rfl (hstorage b)
  | external =>
    obtain rfl := step_external h
    exact ⟨rfl, fun _ _ hc => hc⟩
  | onInitialize | clearFile | call =>
    obtain ⟨s, rfl | rfl, hstays⟩ := step_stays h nofun nofun
    · refine ⟨hstays.ledger, fun token c hc => ?_⟩
      rw [hstays.consignment] at hc
      exact hc
    · refine ⟨hstays.ledger.trans (StorageHandler.keeps_frozenTask _).ledger, fun token c hc => ?_⟩
      rw [hstays.consignment] at hc
      replace hc : (after (StorageHandler.frozenTask T.toConfig)
        n.world.storage).book.consignment.lookup token = some c := hc
      rw [StorageHandler.after_frozenTask_book] at hc
      exact StorageHandler.lookup_consignment_frozenTask hc

end Steps

end FileBank
