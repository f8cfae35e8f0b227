/-
# A runtime with a file bank

The parameters that the runtime gives to the file bank, on top of the runtime of
storage-handler, with workers that are all allowed to certify and tag and earn no points.  On
it concrete runs of the chain are evaluated: `firstBlock` has a territory and twelve miners
with idle space, and `storedFile` is the run in which a file of one segment is declared and
reported by all of them.
-/
import CessNode.FileBankRuns
import CessNode.Runtime

open StorageHandler (alice bob nameA)

namespace FileBank

/-- A `BTreeMap` visits its keys in increasing order. -/
def increasing (l : List ℕ) : List ℕ := l.insertionSort (· ≤ ·)

theorem increasing_perm (l : List ℕ) : (increasing l).Perm l := l.perm_insertionSort (· ≤ ·)

/-- The parameters of the runtime. -/
def runtime : Config where
  toConfig := StorageHandler.runtime
  userFileLimit := 500000
  nameStrLimit := 63
  bucketLimit := 1000
  nameMinLength := 3
  segmentCount := 1000
  ownerLimit := 50000
  restoralOrderLife := 250
  WorkerPublicKey := ℕ
  decWorkerPublicKey := inferInstance
  accountOrder := increasing
  accountOrder_perm := increasing_perm
  workerOrder := increasing
  workerOrder_perm := increasing_perm
  Outside := Unit
  isAuthorized _ _ _ := false
  verifyMasterSig _ _ _ := true
  canTag _ _ := true
  canCert _ _ := true
  isBonded _ _ := false
  getStash _ _ := none
  updateWorkBlock outside _ _ := some outside
  increasePointForTag outside _ _ := some outside
  increasePointForReplace outside _ _ := some outside
  increasePointForCert outside _ _ := some outside

/-- The chain at genesis, without miners. -/
def start : Node runtime where
  phase := .executing
  world := genesis runtime (StorageHandler.start (10 ^ 20)).world (Sminer.genesis _) ()

theorem start_isStart : start.Start :=
  ⟨⟨_, _, _, rfl, fun _ => rfl, fun _ => rfl⟩, _, _, rfl⟩

theorem start_reached : Reached start := .start start_isStart

/-- A hash with the given leading bytes. -/
def hashOf (bytes : List UInt8) : Hash :=
  ⟨(bytes ++ List.replicate 64 48).take 64, by simp⟩

/-- The name `file`. -/
def nameFile : NameStr runtime := ⟨[102, 105, 108, 101], by decide⟩

/-- Alice stores the file in the territory `a`. -/
def aliceBrief : UserBrief runtime where
  user := alice
  fileName := nameFile
  bucketName := nameFile
  territoryName := nameA

/-- A segment of twelve fragments. -/
def segment : SegmentList where
  hash := hashOf [97]
  fragmentList := ⟨(List.range 12).map fun i => hashOf [98, .ofNat (97 + i)], by decide⟩

/-- A list of one segment. -/
def oneSegment : BoundedVec SegmentList runtime.segmentCount := ⟨[segment], by decide⟩

/-- A miner at work with a gigabyte of idle space. -/
def miner : Sminer.MinerInfo runtime.AccountId where
  beneficiary := alice
  stakingAccount := alice
  peerId := ⟨List.replicate 38 0, rfl⟩
  collaterals := 0
  debt := 0
  state := .positive
  declarationSpace := gByte
  idleSpace := gByte
  serviceSpace := 0
  lockSpace := 0
  spaceProofInfo := none
  serviceBloomFilter := fun _ => 0
  teeSignature := zeroSig

/-- The twelve accounts from 10 on are miners. -/
def miners : Sminer.World runtime.AccountId where
  __ := Sminer.genesis _
  minerItems := ((List.range 12).map fun i : ℕ => i + 10).foldl (fun m acc => m.insert acc miner) ∅

/-- The first block: the miners are there, and Alice mints a territory. -/
def firstBlock : List (Action runtime) :=
  [.storage .newBlock, .onInitialize, .external miners () (12 * gByte),
    .storage (.call (.mintTerritory alice 1 nameA 30))]

/-- Alice declares a file of one segment and the miners report it, the last one first. -/
def storedFile : List (Action runtime) :=
  firstBlock ++
    [.call (.uploadDeclaration alice (hashOf [99]) oneSegment aliceBrief 1000)] ++
    ((List.range 12).map fun i : ℕ => .call (.transferReport (21 - i : ℕ) (i + 1) (hashOf [99])))

/-- A concrete run without idle blocks. -/
theorem exists_of_play (ok : Node runtime → Action runtime → Prop) [∀ n a, Decidable (ok n a)]
    (actions : List (Action runtime)) (check : Node runtime → Bool)
    (h : (Runs.play Node.step (fun n a => decide (ok n a)) (fun _ _ => none) start
      (actions.map .act)).any check = true) :
    ∃ n, Runs.Reach Node.Start Node.step ok n ∧ check n = true :=
  Runs.Reach.exists_of_play nofun (.start start_isStart) (actions.map .act) check h

end FileBank
