/-
# Runs of the file bank

The chain around the file bank, as a transition system over the storages of file-bank,
storage-handler and sminer.  A block starts with its initialisation: the scheduler dispatches
due tasks of storage-handler, then the hook of the file bank runs once, `frozen_task`
included; after that come the calls of both pallets, in any number and order.  In between the
other pallets change what belongs to them: the balances, the schedule, the miners, the workers
and, when a miner leaves, the idle space.

* `Call` : the dispatchable calls of the file bank (the root call for tests is left out);
* `Action` and `Node.step` : the transition system.  A call runs in a storage layer of its own,
  the block hook does not.  `clearFile` is one round of the clearing loop by itself, so that
  the storages between the rounds of the hook are reached as well;
* `Reached n` : some run leads to the node `n`.
-/
import CessNode.FileBank
import CessNode.StorageHandlerRuns

open Dispatch

namespace FileBank

variable (T : Config)

/-- A dispatchable call with its origin. -/
inductive Call where
  | uploadDeclaration (sender : T.AccountId) (fileHash : Hash)
      (dealInfo : BoundedVec SegmentList T.segmentCount) (userBrief : UserBrief T) (fileSize : ℕ)
  | territoryFileDelivery (sender user : T.AccountId) (fileHash : Hash) (target : TerrName)
  | transferReport (sender : T.AccountId) (index : ℕ) (dealHash : Hash)
  | calculateReport (sender : T.AccountId) (teeSig : BoundedVec UInt8 64)
      (info : TagSigInfo T.AccountId T.WorkerPublicKey)
  | replaceIdleSpace (sender : T.AccountId) (info : SpaceProofInfo T.AccountId)
      (sigNeedVerify sig : BoundedVec UInt8 64) (teePuk : T.WorkerPublicKey)
  | deleteFile (sender owner : T.AccountId) (fileHash : Hash)
  | certIdleSpace (sender : T.AccountId) (info : SpaceProofInfo T.AccountId)
      (sigNeedVerify sig : BoundedVec UInt8 64) (teePuk : T.WorkerPublicKey)
  | createBucket (sender owner : T.AccountId) (name : NameStr T)
  | deleteBucket (sender owner : T.AccountId) (name : NameStr T)
  | generateRestoralOrder (sender : T.AccountId) (fileHash restoralFragment : Hash)
  | claimRestoralOrder (sender : T.AccountId) (restoralFragment : Hash)
  | claimRestoralNoexistOrder (sender miner : T.AccountId) (fileHash restoralFragment : Hash)
  | restoralOrderComplete (sender : T.AccountId) (fragmentHash : Hash)

/-- The code of a call. -/
def Call.code : Call T → PalletM T Unit
  | .uploadDeclaration sender fileHash dealInfo userBrief fileSize =>
    FileBank.uploadDeclaration T sender fileHash dealInfo userBrief fileSize
  | .territoryFileDelivery sender user fileHash target =>
    FileBank.territoryFileDelivery T sender user fileHash target
  | .transferReport sender index dealHash => FileBank.transferReport T sender index dealHash
  | .calculateReport sender teeSig info => FileBank.calculateReport T sender teeSig info
  | .replaceIdleSpace sender info sigNeedVerify sig teePuk =>
    FileBank.replaceIdleSpace T sender info sigNeedVerify sig teePuk
  | .deleteFile sender owner fileHash => FileBank.deleteFile T sender owner fileHash
  | .certIdleSpace sender info sigNeedVerify sig teePuk =>
    FileBank.certIdleSpace T sender info sigNeedVerify sig teePuk
  | .createBucket sender owner name => FileBank.createBucket T sender owner name
  | .deleteBucket sender owner name => FileBank.deleteBucket T sender owner name
  | .generateRestoralOrder sender fileHash restoralFragment =>
    FileBank.generateRestoralOrder T sender fileHash restoralFragment
  | .claimRestoralOrder sender restoralFragment =>
    FileBank.claimRestoralOrder T sender restoralFragment
  | .claimRestoralNoexistOrder sender miner fileHash restoralFragment =>
    FileBank.claimRestoralNoexistOrder T sender miner fileHash restoralFragment
  | .restoralOrderComplete sender fragmentHash =>
    FileBank.restoralOrderComplete T sender fragmentHash

/-- The chain, as far as the two pallets see it. -/
structure Node where
  phase : StorageHandler.Phase
  world : World T

/-- What can happen next. -/
inductive Action where
  /-- A step of storage-handler: a new block, a dispatched task, a call, or a change of the
  balances and the schedule. -/
  | storage (action : StorageHandler.Action T.toConfig)
  /-- `on_initialize` runs and the calls of the block begin. -/
  | onInitialize
  /-- A round of the clearing loop by itself. -/
  | clearFile (acc : T.AccountId) (fileHash : Hash)
  | call (call : Call T)
  /-- The miners, the workers and the idle space change by the doing of other pallets. -/
  | external (miner : Sminer.World T.AccountId) (outside : T.Outside) (totalIdleSpace : ℕ)

variable {T}

/-- The steps of storage-handler that the file bank has no part in: the hook runs inside
`on_initialize`, and the `StorageHandle` operations inside the calls. -/
def direct {T : StorageHandler.Config} : StorageHandler.Action T → Bool
  | .frozenTask => false
  | .handle _ => false
  | _ => true

/-- The chain as storage-handler sees it. -/
def Node.storageNode (n : Node T) : StorageHandler.Node T.toConfig where
  phase := n.phase
  world := n.world.storage

/-- The transition function. -/
def Node.step (n : Node T) : Action T → Option (Node T)
  | .storage a =>
    if direct a then
      (n.storageNode.step a).map fun m =>
        { phase := m.phase, world := { n.world with storage := m.world } }
    else none
  | .onInitialize =>
    if n.phase = .initializing then
      some { phase := .executing, world := after (FileBank.onInitialize T) n.world }
    else none
  | .clearFile acc fileHash =>
    if n.phase = .initializing then
      some { n with world := after (FileBank.clearFile T acc fileHash) n.world }
    else none
  | .call c =>
    if n.phase = .executing then
      some { n with world := after (transactional (c.code T)) n.world }
    else none
  | .external miner outside totalIdleSpace =>
    some { n with
      world := { n.world with
        miner := miner
        outside := outside
        storage := { n.world.storage with totalIdleSpace := totalIdleSpace } } }

/-- The chain at genesis: no files, whatever miners and workers there are. -/
def Node.Start (n : Node T) : Prop :=
  n.storageNode.Start ∧ ∃ miner outside, n.world = genesis T n.world.storage miner outside

/-- Some run leads to the node. -/
def Reached (n : Node T) : Prop :=
  Runs.Reach Node.Start Node.step (fun _ _ => True) n

/-! ## What a step can do -/

section Steps

variable {n n' : Node T}

theorem step_storage {a : StorageHandler.Action T.toConfig} (h : n.step (.storage a) = some n') :
    direct a = true ∧ n.storageNode.step a = some n'.storageNode ∧
      n'.world = { n.world with storage := n'.world.storage } := by
  simp only [Node.step, Option.ite_none_right_eq_some, Option.map_eq_some_iff] at h
  obtain ⟨hdirect, m, hm, rfl⟩ := h
  exact ⟨hdirect, hm, rfl⟩

theorem step_onInitialize (h : n.step .onInitialize = some n') :
    n'.world = after (FileBank.onInitialize T) n.world := by
  simp only [Node.step, Option.ite_none_right_eq_some, Option.some.injEq] at h
  obtain ⟨-, rfl⟩ := h
  rfl

theorem step_clearFile {acc : T.AccountId} {fileHash : Hash}
    (h : n.step (.clearFile acc fileHash) = some n') :
    n'.world = after (FileBank.clearFile T acc fileHash) n.world := by
  simp only [Node.step, Option.ite_none_right_eq_some, Option.some.injEq] at h
  obtain ⟨-, rfl⟩ := h
  rfl

theorem step_call {c : Call T} (h : n.step (.call c) = some n') :
    (c.code T).run n.world = .ok () n'.world ∨ n'.world = n.world := by
  simp only [Node.step, Option.ite_none_right_eq_some, Option.some.injEq] at h
  obtain ⟨-, rfl⟩ := h
  exact after_dispatched _ _

theorem step_external {miner : Sminer.World T.AccountId} {outside : T.Outside}
    {totalIdleSpace : ℕ} (h : n.step (.external miner outside totalIdleSpace) = some n') :
    n' = { n with
           world := { n.world with
             miner := miner
             outside := outside
             storage := { n.world.storage with totalIdleSpace := totalIdleSpace } } } := by
  simp only [Node.step, Option.some.injEq] at h
  exact h.symm

end Steps

end FileBank
