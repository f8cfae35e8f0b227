/-
# A runtime with all pallets

The parameters that the runtime gives to the pallets around the miners, on top of the runtime of
the file bank.  Workers are allowed to do everything and have a stash account; the storage of the
pallets outside is the number of the era.  There is randomness for the audit in two blocks only,
the first one in which challenges are made and a late one, so that concrete runs can pass all other
blocks.

* `exists_of_play` : concrete runs, with idle blocks in between that are passed at once;
* `minersAtWork` : the first block, in which miners register, prove idle space and go to work.
-/
import CessNode.ChainRuns
import CessNode.FileBankRuntime

open Dispatch StorageMap
open StorageHandler (alice nameA)

namespace Chain

/-! ## Parameters -/

/-- The file bank, with the number of the era as the storage outside. -/
def bankRuntime : FileBank.Config where
  __ := FileBank.runtime
  WorkerPublicKey := ℕ
  decWorkerPublicKey := inferInstance
  workerOrder := FileBank.increasing
  workerOrder_perm := FileBank.increasing_perm
  Outside := ℕ
  isAuthorized _ _ _ := false
  verifyMasterSig _ _ _ := true
  canTag _ _ := true
  canCert _ _ := true
  isBonded _ _ := false
  getStash _ _ := some (5 : ℕ)
  updateWorkBlock outside _ _ := some outside
  increasePointForTag outside _ _ := some outside
  increasePointForReplace outside _ _ := some outside
  increasePointForCert outside _ _ := some outside

/-- The blocks in which there is randomness for the audit. -/
def challengeBlocks : List ℕ := [43200, 2808000]

/-- The parameters of the runtime. -/
def runtime : Config where
  toBank := bankRuntime
  itemLimit := 200000
  stakingLockBlock := 2592000
  idleTotalHashLength := 256
  sigmaMax := 2048
  idLength := 64
  eventLimit := 32
  minerReward := (101 : ℕ)
  punishTreasury := (102 : ℕ)
  reserveReward := (103 : ℕ)
  reservoirAcc := (104 : ℕ)
  maxCalls := 1000
  free := StorageHandler.Balances.free
  resolveCreating l acc v :=
    StorageHandler.Balances.set l acc (StorageHandler.Balances.free l acc + v)
      (StorageHandler.Balances.reserved l acc)
  scheduleExit g _ _ := some g
  currentEra era := era
  fromRational p q := min (1000000000 * p / max q 1) 1000000000
  auditRandom block seed :=
    if block ∈ challengeBlocks then
      some (StorageHandler.hashOf [.ofNat seed, .ofNat (seed / 256), .ofNat (seed / 65536)])
    else none
  slipOrder := FileBank.increasing
  slipOrder_perm := FileBank.increasing_perm
  getPubkeyList _ := [(7 : ℕ)]
  canVerify _ _ := true
  verifyResultSig _ _ _ := true
  increasePointForIdleVerify outside _ _ := some outside

/-- The chain at genesis. -/
def start : Node runtime where
  phase := .executing
  calls := 0
  world := genesis runtime (FileBank.genesis bankRuntime (StorageHandler.start (10 ^ 23)).world
    (Sminer.genesis _) (0 : ℕ))

theorem start_isStart : start.Start :=
  ⟨⟨⟨_, _, _, rfl, fun _ => rfl, fun _ => rfl⟩, _, _, rfl⟩, rfl, rfl, rfl⟩

theorem runtime_exactCurrency : ExactCurrency runtime where
  transfer_free := StorageHandler.Balances.free_transfer
  transfer_reserved := StorageHandler.runtime_lawfulCurrency.transfer
  reserve_free := StorageHandler.Balances.free_reserve
  reserve_reserved := StorageHandler.runtime_lawfulCurrency.reserve
  unreserve_free := StorageHandler.Balances.free_unreserve
  unreserve_reserved := StorageHandler.Balances.reserved_unreserve
  resolve_free := by
    intro l acc v a
    show (if a = acc then _ else _) = StorageHandler.Balances.free l a + _
    split_ifs with ha
    · rw [ha]
    · rfl
  resolve_reserved := by
    intro l acc v a
    show (if a = acc then _ else _) = StorageHandler.Balances.reserved l a
    split_ifs with ha
    · rw [ha]
    · rfl

/-! ## Idle blocks -/

variable {T : Config}

/-- Nothing is filed for this block. -/
structure World.Vacant (w : World T) : Prop where
  frozen : w.bank.storage.territoryFrozen.iterPrefix w.now = []
  expired : w.bank.storage.territoryExpired.iterPrefix w.now = []
  returns : w.miner.returnStakingSchedule.lookup w.now = none
  challenge : Audit.newChallenge w = none
  challengeSlip : w.audit.challengeSlip.iterPrefix w.now = []
  verifySlip : w.audit.verifySlip.iterPrefix w.now = []
  events : w.reservoir.eventExpiredRecords.lookup w.now = none

/-- The world some blocks later. -/
def World.later (w : World T) (blocks : ℕ) : World T :=
  { w with
    bank := { w.bank with
      clearUserList := BoundedVec.empty
      storage := { w.bank.storage with now := w.now + blocks } } }

/-- In a block for which nothing is filed, the hook of the file bank empties its list. -/
theorem after_bankHook_vacant {w : World T} (h : w.Vacant) :
    after (FileBank.onInitialize T.toBank) w.bank =
      { w.bank with clearUserList := BoundedVec.empty } := by
  have hnil : T.hashOrder [] = [] := List.perm_nil.mp (T.hashOrder_perm [])
  have hfrozen : (StorageHandler.frozenTask T.toBank.toConfig).run w.bank.storage =
      .ok [] w.bank.storage := by
    unfold StorageHandler.frozenTask
    rw [run_bind_ok]
    refine ⟨_, _, rfl, ?_⟩
    have hlist := h.frozen
    unfold World.now at hlist
    rw [hlist, hnil]
    show (((T.hashOrder (w.bank.storage.territoryExpired.iterPrefix w.bank.storage.now)).mapM
      (StorageHandler.expireTerritory T.toBank.toConfig)) >>= fun list =>
        pure list.reduceOption).run w.bank.storage = .ok [] w.bank.storage
    have hlist := h.expired
    unfold World.now at hlist
    rw [hlist, hnil]
    rfl
  have hlift : (FileBank.liftStorage T.toBank (StorageHandler.frozenTask T.toBank.toConfig)).run
      w.bank = .ok [] w.bank := by
    unfold FileBank.liftStorage
    rw [run_zoom_ok]
    exact ⟨_, hfrozen, rfl⟩
  unfold FileBank.onInitialize
  rw [after_bind, hlift]
  rfl

theorem after_sminerHook_vacant {w : World T}
    (h : w.miner.returnStakingSchedule.lookup w.now = none) :
    after (Sminer.onInitialize T) w = w := by
  unfold Sminer.onInitialize
  rw [after_get_bind, h]
  rfl

theorem after_generateChallenge_vacant {w : World T} (h : Audit.newChallenge w = none) :
    after (Audit.generateChallenge T) w = w := by
  unfold Audit.generateChallenge
  rw [after_get_bind, h]
  rfl

theorem after_reservoirHook_vacant {w : World T}
    (h : w.reservoir.eventExpiredRecords.lookup w.now = none) :
    after (Reservoir.onInitialize T) w = w := by
  unfold Reservoir.onInitialize
  rw [after_get_bind, h]
  rfl

/-- The loops of the audit have nothing to visit. -/
def Phase.still {AccountId : Type} : Phase AccountId → Bool
  | .clearing rest => rest.isEmpty
  | .verifying rest => rest.isEmpty
  | _ => true

section Idle

variable {ok : Node T → Action T → Prop} (hblock : ∀ n, ok n .newBlock)
  (hhook : ∀ n : Node T, n.world.Vacant → n.phase.still = true → ok n .hook)

include hblock hhook

/-- A block passes for which nothing is filed and in which nobody calls. -/
theorem Reached.nextBlock {calls : ℕ} {w : World T} (h : Reached ok ⟨.executing, calls, w⟩)
    (hfits : w.now + 1 < 2 ^ 32) (hvacant : (w.later 1).Vacant) :
    Reached ok ⟨.executing, 0, w.later 1⟩ := by
  have hslip : T.slipOrder [] = [] := List.perm_nil.mp (T.slipOrder_perm [])
  -- the list of the file bank does not matter for the block
  have hvacant₀ : World.Vacant { w with
      bank := { w.bank with storage := { w.bank.storage with now := w.now + 1 } } } :=
    ⟨hvacant.frozen, hvacant.expired, hvacant.returns, hvacant.challenge, hvacant.challengeSlip,
      hvacant.verifySlip, hvacant.events⟩
  have h₀ : Reached ok ⟨.initializing, 0, { w with
      bank := { w.bank with storage := { w.bank.storage with now := w.now + 1 } } }⟩ := by
    refine .next h (a := .newBlock) (hblock _) ?_
    unfold Node.step
    rw [if_pos ⟨rfl, hfits⟩]
  have h₁ : Reached ok ⟨.returning, 0, w.later 1⟩ := by
    refine .next h₀ (a := .hook) (hhook _ hvacant₀ rfl) ?_
    unfold Node.step Node.hook
    rw [after_bankHook_vacant hvacant₀]
    rfl
  have h₂ : Reached ok ⟨.challenging, 0, w.later 1⟩ := by
    refine .next h₁ (a := .hook) (hhook _ hvacant rfl) ?_
    unfold Node.step Node.hook
    rw [after_sminerHook_vacant hvacant.returns]
  have h₃ : Reached ok ⟨.clearing [], 0, w.later 1⟩ := by
    refine .next h₂ (a := .hook) (hhook _ hvacant rfl) ?_
    unfold Node.step Node.hook World.filed
    dsimp only
    rw [after_generateChallenge_vacant hvacant.challenge, hvacant.challengeSlip, hslip]
  have h₄ : Reached ok ⟨.verifying [], 0, w.later 1⟩ := by
    refine .next h₃ (a := .hook) (hhook _ hvacant rfl) ?_
    unfold Node.step Node.hook World.filed
    rw [hvacant.verifySlip, hslip]
  refine .next h₄ (a := .hook) (hhook _ hvacant rfl) ?_
  unfold Node.step Node.hook
  rw [after_reservoirHook_vacant hvacant.events]

/-- Blocks pass for which nothing is filed and in which nobody calls. -/
theorem Reached.later {calls : ℕ} {w : World T} (h : Reached ok ⟨.executing, calls, w⟩) (k : ℕ)
    (hfits : w.now + (k + 1) < 2 ^ 32) (hvacant : ∀ i ≤ k, (w.later (i + 1)).Vacant) :
    Reached ok ⟨.executing, 0, w.later (k + 1)⟩ := by
  induction k with
  | zero => exact Reached.nextBlock hblock hhook h hfits (hvacant 0 le_rfl)
  | succ k ih =>
    have hprev := ih (by omega) fun i hi => hvacant i (hi.trans (Nat.le_succ k))
    exact Reached.nextBlock hblock hhook hprev hfits (hvacant (k + 1) le_rfl)

end Idle

/-! ### Idle blocks of the runtime -/

/-- Draws of one value only never give two different ones. -/
theorem drawDistinct_const {α : Type} [DecidableEq α] (value : α) {need : ℕ} (hneed : 1 < need)
    (fuel seed : ℕ) {list : List α} (hlist : list = [] ∨ list = [value]) :
    Audit.drawDistinct (fun _ => value) need fuel seed list = none := by
  have hlength : list.length < need := by
    rcases hlist with rfl | rfl
    · exact Nat.lt_of_succ_lt hneed
    · exact hneed
  induction fuel generalizing seed list with
  | zero =>
    unfold Audit.drawDistinct
    rw [if_pos hlength]
  | succ fuel ih =>
    unfold Audit.drawDistinct
    rw [if_pos hlength]
    have hnext : (if value ∈ list then list else list ++ [value]) = [value] := by
      rcases hlist with rfl | rfl
      · rfl
      · rw [if_pos List.mem_cons_self]
    cases hseed : checkedAdd 32 seed 1 with
    | none => rfl
    | some seed' =>
      show Audit.drawDistinct (fun _ => value) need fuel seed'
        (if value ∈ list then list else list ++ [value]) = none
      rw [hnext]
      exact ih seed' (.inr rfl) hneed

/-- Without randomness there is no challenge. -/
theorem newChallenge_vacant {w : World runtime} (h : w.now ∉ challengeBlocks) :
    Audit.newChallenge w = none := by
  have hrandom : ∀ seed, Audit.randomNumber w seed = 0 := by
    intro seed
    have hhash : runtime.auditRandom w.now seed = none := if_neg h
    unfold Audit.randomNumber Audit.randomHash
    rw [hhash]
    rfl
  have helement : Audit.generateMinerQelement w w.now = none := by
    unfold Audit.generateMinerQelement
    simp only [hrandom]
    rw [drawDistinct_const _ (by decide) _ _ (.inl rfl)]
    rfl
  unfold Audit.newChallenge
  simp only [helement, Option.bind_eq_bind, Option.bind_none, Option.bind_fun_none]

/-- No block after `now` and up to `k` blocks later. -/
def beside (now k block : ℕ) : Bool := decide (block ≤ now ∨ now + k < block)

/-- Nothing is filed for the next `k` blocks. -/
def Node.idleFor (n : Node runtime) (k : ℕ) : Bool :=
  let beside := beside n.world.now k
  n.phase.calling && decide (0 < k) && decide (n.world.now + k < 2 ^ 32) &&
    n.world.bank.storage.territoryFrozen.keys.all (fun p => beside p.1) &&
    n.world.bank.storage.territoryExpired.keys.all (fun p => beside p.1) &&
    n.world.miner.returnStakingSchedule.keys.all beside && challengeBlocks.all beside &&
    n.world.audit.challengeSlip.keys.all (fun p => beside p.1) &&
    n.world.audit.verifySlip.keys.all (fun p => beside p.1) &&
    n.world.reservoir.eventExpiredRecords.keys.all beside

/-- The chain after `k` idle blocks. -/
def Node.idle (n : Node runtime) (k : ℕ) : Option (Node runtime) :=
  if n.idleFor k then some ⟨.executing, 0, n.world.later k⟩ else none

theorem iterPrefix_eq_nil_of_all {β : Type} [DecidableEq β] {m : StorageMap (ℕ × β) Bool}
    {now k i : ℕ} (h : ∀ p ∈ m.keys, beside now k p.1 = true) (hi : i < k) :
    m.iterPrefix (now + (i + 1)) = [] := by
  rw [List.eq_nil_iff_forall_not_mem]
  intro b hb
  have hbeside := of_decide_eq_true (h _ (mem_iterPrefix.mp hb))
  omega

theorem lookup_eq_none_of_all {β : Type} {m : StorageMap ℕ β} {now k i : ℕ}
    (h : ∀ block ∈ m.keys, beside now k block = true) (hi : i < k) :
    m.lookup (now + (i + 1)) = none := by
  rw [AList.lookup_eq_none]
  intro hmem
  have hbeside := of_decide_eq_true (h _ hmem)
  omega

/-- Idle blocks lead from a reached node to a reached one. -/
theorem Reached.idle {ok : Node runtime → Action runtime → Prop} (hblock : ∀ n, ok n .newBlock)
    (hhook : ∀ n : Node runtime, n.world.Vacant → n.phase.still = true → ok n .hook)
    {n n' : Node runtime} {k : ℕ} (hn : Reached ok n) (h : n.idle k = some n') : Reached ok n' := by
  unfold Node.idle at h
  split_ifs at h with hidle
  obtain rfl := Option.some.inj h
  simp only [Node.idleFor, Bool.and_eq_true, List.all_eq_true] at hidle
  obtain ⟨⟨⟨⟨⟨⟨⟨⟨⟨hphase, hpos⟩, hfits⟩, hfrozen⟩, hexpired⟩, hreturns⟩, hchallenge⟩, hslip⟩,
    hverify⟩, hevents⟩ := hidle
  obtain ⟨phase, calls, w⟩ := n
  obtain rfl : phase = .executing := by
    cases phase <;> first | rfl | cases hphase
  obtain ⟨k, rfl⟩ : ∃ j, k = j + 1 := ⟨k - 1, by have := of_decide_eq_true hpos; omega⟩
  refine Reached.later hblock hhook hn k (of_decide_eq_true hfits) fun i hi => ?_
  have hi' : i < k + 1 := Nat.lt_succ_of_le hi
  refine ⟨iterPrefix_eq_nil_of_all hfrozen hi', iterPrefix_eq_nil_of_all hexpired hi',
    lookup_eq_none_of_all hreturns hi', newChallenge_vacant ?_, iterPrefix_eq_nil_of_all hslip hi',
    iterPrefix_eq_nil_of_all hverify hi', lookup_eq_none_of_all hevents hi'⟩
  intro hmem
  have hbeside := of_decide_eq_true (hchallenge _ hmem)
  have hnow : (w.later (i + 1)).now = w.now + (i + 1) := rfl
  dsimp only at hbeside
  omega

/-- A concrete run. -/
theorem exists_of_play (ok : Node runtime → Action runtime → Prop) [∀ n a, Decidable (ok n a)]
    (hblock : ∀ n, ok n .newBlock)
    (hhook : ∀ n : Node runtime, n.world.Vacant → n.phase.still = true → ok n .hook)
    (parts : List (Runs.Part (Action runtime))) (check : Node runtime → Bool)
    (h : (Runs.play Node.step (fun n a => decide (ok n a)) Node.idle start parts).any check = true) :
    ∃ n, Reached ok n ∧ check n = true :=
  Runs.Reach.exists_of_play (fun _ _ _ hn hidle => Reached.idle hblock hhook hn hidle)
    (.start start_isStart) parts check h

/-- Any run is allowed. -/
theorem exists_run (parts : List (Runs.Part (Action runtime))) (check : Node runtime → Bool)
    (h : (Runs.play Node.step (fun _ _ => true) Node.idle start parts).any check = true) :
    ∃ n : Node runtime, Reached (fun _ _ => True) n ∧ check n = true :=
  exists_of_play (fun _ _ => True) (fun _ => trivial) (fun _ _ _ => trivial) parts check h

/-! ## Miners at work -/

/-- A byte string of zeros. -/
def zeros (n : ℕ) : Bytes n := ⟨List.replicate n 0, List.length_replicate⟩

/-- A signature. -/
def signature : BoundedVec UInt8 64 := ⟨List.replicate 64 0, List.length_replicate.le⟩

/-- The calls by which an account becomes a miner of a terabyte and proves some segments of idle
space. -/
def joining (acc : runtime.AccountId) (segments : ℕ) : List (Runs.Part (Action runtime)) :=
  [.act (.call (.sminer (.regnstk acc acc (zeros 38) Sminer.baseUnit 1))),
    .act (.call (.sminer (.registerPoisKey acc ⟨zeros 256, zeros 256⟩ signature signature (7 : ℕ)))),
    .act (.call (.fileBank (.certIdleSpace acc
      { miner := acc, front := 0, rear := segments, poisKey := ⟨zeros 256, zeros 256⟩,
        accumulator := zeros 256 } signature signature (7 : ℕ))))]

/-- The first block: the twelve accounts from 10 on become miners. -/
def minersAtWork : List (Runs.Part (Action runtime)) :=
  .idle 1 :: (List.range 12).flatMap fun i : ℕ => joining (i + 10 : ℕ) 100

/-- The name `file`. -/
def nameFile : FileBank.NameStr bankRuntime := ⟨[102, 105, 108, 101], by decide⟩

/-- Alice stores the file in the territory `a`. -/
def aliceBrief : FileBank.UserBrief bankRuntime where
  user := alice
  fileName := nameFile
  bucketName := nameFile
  territoryName := nameA

/-- A list of one segment. -/
def oneSegment : BoundedVec FileBank.SegmentList runtime.segmentCount :=
  ⟨[FileBank.segment], by decide⟩

/-- Alice mints a territory and declares a file of one segment. -/
def declaring : List (Runs.Part (Action runtime)) :=
  [.act (.call (.storage (.mintTerritory alice 1 nameA 30))),
    .act (.call (.fileBank (.uploadDeclaration alice (FileBank.hashOf [99])
      oneSegment aliceBrief 1000)))]

/-- Some miners report that file, the last one first. -/
def reporting (count : ℕ) : List (Runs.Part (Action runtime)) :=
  (List.range count).map fun i : ℕ =>
    .act (.call (.fileBank (.transferReport (21 - i : ℕ) (i + 1) (FileBank.hashOf [99]))))

/-- A file is stored with twelve miners, and one of them has a tag for its fragment. -/
def storing : List (Runs.Part (Action runtime)) :=
  minersAtWork ++ declaring ++ reporting 12 ++
    [.act (.call (.fileBank (.calculateReport (21 : ℕ) signature
      { miner := (21 : ℕ), digest := ⟨[⟨FileBank.hashOf [98, 97], (7 : ℕ)⟩], by decide⟩,
        fileHash := FileBank.hashOf [99] })))]

/-- The initialisation of a block in which no challenge is due. -/
def freshBlock : List (Runs.Part (Action runtime)) :=
  .act .newBlock :: List.replicate 5 (.act .hook)

/-- The initialisation of a block in which one challenge is due. -/
def visitingBlock : List (Runs.Part (Action runtime)) :=
  .act .newBlock :: List.replicate 6 (.act .hook)

/-- A miner joins and is challenged three days later. -/
def challenged (segments : ℕ) : List (Runs.Part (Action runtime)) :=
  .idle 1 :: joining (10 : ℕ) segments ++ [.idle 43198] ++ freshBlock

/-- The miner submits both proofs, and the worker good results for both of them. -/
def passing : List (Runs.Part (Action runtime)) :=
  [.act (.call (.audit (.submitIdleProof (10 : ℕ) BoundedVec.empty))),
    .act (.call (.audit (.submitServiceProof (10 : ℕ) BoundedVec.empty))),
    .act (.call (.audit (.submitVerifyServiceResult (10 : ℕ) true signature (fun _ => 0) (7 : ℕ)))),
    .act (.call (.audit (.submitVerifyIdleResult (10 : ℕ) BoundedVec.empty 0 100 (zeros 256) true
      signature (7 : ℕ))))]

end Chain
