/-
# Syncing the storage of the chain

A model of `cestory/api/src/storage_sync.rs`: headers come in batches that the light client
validates, and their state roots wait in a queue; blocks of storage changes come later, and each has
to lead to the root at the front of the queue.  The first root belongs to the state that the storage
starts from.  With `drop_proofs` the changes are not applied and the next root is taken over.

The light client is any `BlockValidator`, and the trie behind the storage any database
(`Trie`).  Block numbers wrap around at 32 bits where the source adds to them; `Failure.underflow`
is a subtraction below zero, after which the source does nothing more.

`Aligned` says which roots wait in the queue.  `storage_synced` is about all runs in which proofs are
only dropped behind a validated state and no counter is at its limits.
-/
import CessNode.LightValidation
import CessNode.Runs
import CessNode.Numbering

namespace Sync

open Dispatch Light Numbering

/-! ## The state -/

/-- `BlockValidator`, with the hash of a header. -/
structure BlockValidator (V : Type) where
  hash : Header → H256
  submitFinalizedHeaders : ℕ → Header → List Header → List UInt8 → EStateM String V Unit

/-- What a `TrieStorage` calls: the root after some changes with the transaction that makes
them, and the database after the transaction. -/
structure Trie (Db Changes Transaction : Type) where
  fullStorageRoot : Db → H256 → Changes → H256 × Transaction
  consolidate : Db → Transaction → Db

/-- `TrieStorage`. -/
structure TrieStorage (Db : Type) where
  db : Db
  root : H256

/-- The errors of the synchronizer. -/
inductive Error where
  | missingJustification
  | headerValidateFailed (message : String)
  | headerHashMismatch
  | blockNumberMismatch
  | noStateRoot
  | stateRootMismatch (block : ℕ) (expected actual : H256)
  | cannotLoadStateAfterSyncing
  deriving DecidableEq

/-- Why a call does not return a value. -/
inductive Failure where
  | error (e : Error)
  | underflow
  deriving DecidableEq

/-- `SolochainSynchronizer` with its `BlockSyncState`, and the storage that it feeds. -/
structure Synchronizer (V Db : Type) where
  validator : V
  mainBridge : ℕ
  headerNumberNext : ℕ
  blockNumberNext : ℕ
  genesisStateValidated : Bool
  stateRoots : List H256
  storage : TrieStorage Db

/-- `HeaderToSync`. -/
structure HeaderToSync where
  header : Header
  justification : Option (List UInt8)

/-- `BlockHeaderWithChanges`. -/
structure BlockHeaderWithChanges (Changes : Type) where
  blockHeader : Header
  storageChanges : Changes

variable {V Db Changes Transaction : Type}

/-! ## The code -/

/-- An addition of 32 bits. -/
def add32 (a b : ℕ) : ℕ := (a + b) % 2 ^ 32

/-- A subtraction. -/
def sub32 {σ : Type} (a b : ℕ) : EStateM Failure σ ℕ := okOr (checkedSub a b) .underflow

/-- The headers that are not known yet. -/
def newHeaders (s : Synchronizer V Db) (headers : List HeaderToSync) : List HeaderToSync :=
  headers.filter fun h => decide (s.headerNumberNext ≤ h.header.number)

/-- The call of the light client. -/
def submit (B : BlockValidator V) (header : Header) (ancestryProof : List Header)
    (justification : List UInt8) : EStateM Failure (Synchronizer V Db) Unit := do
  let bridgeId := (← get).mainBridge
  zoom Synchronizer.validator (fun v s => { s with validator := v })
    (fun e => .error (.headerValidateFailed e))
    (B.submitFinalizedHeaders bridgeId header ancestryProof justification)

/-- `BlockSyncState::sync_header`, with a batch whose known headers have been dropped. -/
def syncNew (B : BlockValidator V) (skipBlocksBelow : ℕ) (first : HeaderToSync)
    (rest : List HeaderToSync) : EStateM Failure (Synchronizer V Db) ℕ := do
  ensure (first.header.number = (← get).headerNumberNext) (.error .blockNumberMismatch)
  let headers := first :: rest
  let lastHeader := rest.getLastD first
  let justification ← okOr lastHeader.justification (.error .missingJustification)
  ensure (headers.IsChain fun h h' => B.hash h.header = h'.header.parentHash)
    (.error .headerHashMismatch)
  submit B lastHeader.header (headers.dropLast.map HeaderToSync.header).reverse justification
  let kept := headers.filter fun h => decide (¬ h.header.number < skipBlocksBelow)
  modify fun s => { s with stateRoots := s.stateRoots ++ kept.map fun h => h.header.stateRoot }
  modify fun s => { s with headerNumberNext := add32 lastHeader.header.number 1 }
  pure lastHeader.header.number

/-- `SolochainSynchronizer::sync_header`. -/
def syncHeader (B : BlockValidator V) (headers : List HeaderToSync) :
    EStateM Failure (Synchronizer V Db) ℕ := do
  let s ← get
  let skipBlocksBelow ← sub32 s.blockNumberNext 1
  match newHeaders s headers with
  | [] => sub32 s.headerNumberNext 1
  | first :: rest => syncNew B skipBlocksBelow first rest

/-- The check of the state that the storage starts from. -/
def validateGenesis : EStateM Failure (Synchronizer V Db) Unit := do
  let s ← get
  let genesisStateRoot ← okOr s.stateRoots.head? (.error .noStateRoot)
  if s.storage.root ≠ genesisStateRoot then
    let block ← sub32 s.blockNumberNext 1
    throw (.error (.stateRootMismatch block genesisStateRoot s.storage.root))
  else
    modify fun s => { s with stateRoots := s.stateRoots.tail }
    modify fun s => { s with genesisStateValidated := true }

/-- Feed a block whose proofs are dropped. -/
def feedRoot : EStateM Failure (Synchronizer V Db) Unit := do
  modify fun s => { s with blockNumberNext := add32 s.blockNumberNext 1 }
  let root ← okOr (← get).stateRoots.head? (.error .noStateRoot)
  modify fun s => { s with stateRoots := s.stateRoots.tail }
  modify fun s => { s with storage := { s.storage with root := root } }

/-- Feed a block of changes. -/
def feedChanges (T : Trie Db Changes Transaction) (block : BlockHeaderWithChanges Changes) :
    EStateM Failure (Synchronizer V Db) Unit := do
  let s ← get
  let expectedRoot ← okOr s.stateRoots.head? (.error .noStateRoot)
  let result := T.fullStorageRoot s.storage.db s.storage.root block.storageChanges
  ensure (expectedRoot = result.1)
    (.error (.stateRootMismatch block.blockHeader.number expectedRoot result.1))
  modify fun s => { s with storage := ⟨T.consolidate s.storage.db result.2, result.1⟩ }
  modify fun s => { s with blockNumberNext := add32 s.blockNumberNext 1 }
  modify fun s => { s with stateRoots := s.stateRoots.tail }

/-- `feed_block`. -/
def feedBlock (T : Trie Db Changes Transaction) (block : BlockHeaderWithChanges Changes)
    (dropProofs : Bool) : EStateM Failure (Synchronizer V Db) Unit := do
  let s ← get
  ensure (block.blockHeader.number = s.blockNumberNext) (.error .blockNumberMismatch)
  if dropProofs = true then feedRoot
  else if s.genesisStateValidated = false then do
    validateGenesis
    feedChanges T block
  else feedChanges T block

/-- `assume_at_block`. -/
def assumeAtBlock (blockNumber : ℕ) : EStateM Failure (Synchronizer V Db) Unit := do
  let s ← get
  ensure (¬ (1 < s.blockNumberNext ∨ 0 < s.headerNumberNext)) (.error .cannotLoadStateAfterSyncing)
  modify fun s => { s with blockNumberNext := add32 blockNumber 1 }

/-- A call of the synchronizer. -/
inductive Call (Changes : Type) where
  | assumeAtBlock (blockNumber : ℕ)
  | syncHeader (headers : List HeaderToSync)
  | feedBlock (block : BlockHeaderWithChanges Changes) (dropProofs : Bool)

/-- The call, without the number that it returns. -/
def call (B : BlockValidator V) (T : Trie Db Changes Transaction) :
    Call Changes → EStateM Failure (Synchronizer V Db) Unit
  | .assumeAtBlock blockNumber => assumeAtBlock blockNumber
  | .syncHeader headers => do
    let _ ← syncHeader B headers
    pure ()
  | .feedBlock block dropProofs => feedBlock T block dropProofs

/-! ## What the calls do -/

variable {B : BlockValidator V} {T : Trie Db Changes Transaction} {s s' : Synchronizer V Db}
  {block : BlockHeaderWithChanges Changes} {dropProofs : Bool} {e : Failure}

theorem validateGenesis_ok {u : Unit} :
    (validateGenesis : EStateM Failure (Synchronizer V Db) Unit).run s = .ok u s' ↔
      s.stateRoots.head? = some s.storage.root ∧
        { s with stateRoots := s.stateRoots.tail, genesisStateValidated := true } = s' := by
  simp only [validateGenesis, run_ok, run_ite_ok, run_throw_ok, and_false, exists_false, false_or,
    not_not, existsAndEq]

theorem feedRoot_ok {u : Unit} :
    (feedRoot : EStateM Failure (Synchronizer V Db) Unit).run s = .ok u s' ↔
      ∃ root, s.stateRoots.head? = some root ∧
        { s with
          blockNumberNext := add32 s.blockNumberNext 1
          stateRoots := s.stateRoots.tail
          storage := { s.storage with root := root } } = s' := by
  simp only [feedRoot, run_ok, existsAndEq]

theorem feedChanges_ok {u : Unit} :
    (feedChanges T block).run s = .ok u s' ↔
      s.stateRoots.head? =
          some (T.fullStorageRoot s.storage.db s.storage.root block.storageChanges).1 ∧
        { s with
          blockNumberNext := add32 s.blockNumberNext 1
          stateRoots := s.stateRoots.tail
          storage := ⟨T.consolidate s.storage.db
            (T.fullStorageRoot s.storage.db s.storage.root block.storageChanges).2,
            (T.fullStorageRoot s.storage.db s.storage.root block.storageChanges).1⟩ } = s' := by
  simp only [feedChanges, run_ok, existsAndEq]

/-- The check underflows only if there is no block before the next one. -/
theorem validateGenesis_error
    (h : (validateGenesis : EStateM Failure (Synchronizer V Db) Unit).run s = .error e s') :
    s' = s ∧ (e = .underflow → s.blockNumberNext = 0) := by
  simp only [validateGenesis, sub32, run_error, run_ok, run_ite_error, checkedSub_eq_none,
    existsAndEq] at h
  rcases h with ⟨-, rfl, rfl⟩ | ⟨root, -, -, ⟨hzero, rfl, rfl⟩ | ⟨_, -, rfl, rfl⟩⟩
  · exact ⟨rfl, Failure.noConfusion⟩
  · exact ⟨rfl, fun _ => by omega⟩
  · exact ⟨rfl, Failure.noConfusion⟩

theorem feedChanges_error (h : (feedChanges T block).run s = .error e s') :
    s' = s ∧ e ≠ .underflow := by
  simp only [feedChanges, run_error, run_ok, existsAndEq] at h
  rcases h with ⟨-, rfl, rfl⟩ | ⟨root, -, -, rfl, rfl⟩ <;> exact ⟨rfl, Failure.noConfusion⟩

theorem feedBlock_ok {u : Unit} :
    (feedBlock T block dropProofs).run s = .ok u s' ↔
      block.blockHeader.number = s.blockNumberNext ∧
        (dropProofs = true ∧ feedRoot.run s = .ok u s' ∨
          dropProofs = false ∧
            (s.genesisStateValidated = false ∧
              (∃ u₁ s₁, validateGenesis.run s = .ok u₁ s₁ ∧ (feedChanges T block).run s₁ = .ok u s') ∨
            s.genesisStateValidated = true ∧ (feedChanges T block).run s = .ok u s')) := by
  simp only [feedBlock, run_ok, run_ite_ok, existsAndEq, Bool.not_eq_true, Bool.not_eq_false]

/-! ## Header batches -/

/-- An accepted batch is a chain in which each number is its parent's plus one. -/
def Chained (B : BlockValidator V) : Prop :=
  ∀ bridgeId header ancestryProof justification v v',
    (B.submitFinalizedHeaders bridgeId header ancestryProof justification).run v = .ok () v' →
      (header :: ancestryProof).IsChain fun h parent => h.number = parent.number + 1

theorem syncNew_ok {skipBlocksBelow n : ℕ} {first : HeaderToSync} {rest : List HeaderToSync}
    (h : (syncNew B skipBlocksBelow first rest).run s = .ok n s') :
    first.header.number = s.headerNumberNext ∧
      ∃ v' justification,
        (B.submitFinalizedHeaders s.mainBridge (rest.getLastD first).header
          ((first :: rest).dropLast.map HeaderToSync.header).reverse justification).run s.validator =
            .ok () v' ∧
        s' = { s with
          validator := v'
          stateRoots := s.stateRoots ++ (((first :: rest).filter fun h =>
            decide (¬ h.header.number < skipBlocksBelow)).map fun h => h.header.stateRoot)
          headerNumberNext := add32 (rest.getLastD first).header.number 1 } := by
  simp only [syncNew, submit, run_ok, run_zoom_ok, existsAndEq] at h
  obtain ⟨hnumber, justification, -, -, ⟨⟩, v', hsubmit, -, rfl⟩ := h
  exact ⟨hnumber, v', justification, hsubmit, rfl⟩

theorem syncNew_error {skipBlocksBelow : ℕ} {first : HeaderToSync} {rest : List HeaderToSync}
    (h : (syncNew B skipBlocksBelow first rest).run s = .error e s') :
    (∃ v, s' = { s with validator := v }) ∧ e ≠ .underflow := by
  simp only [syncNew, submit, run_error, run_ok, run_zoom_error, existsAndEq] at h
  rcases h with ⟨-, rfl, rfl⟩ | ⟨-, ⟨-, rfl, rfl⟩ | ⟨_, -, ⟨-, rfl, rfl⟩ | ⟨-, v, e, -, rfl, rfl⟩⟩⟩ <;>
    exact ⟨⟨_, rfl⟩, Failure.noConfusion⟩

/-! ## The invariant -/

/-- The roots in the queue are those of the validated headers from the next block on, or from the
block before it as long as the state that the storage starts from has not been validated. -/
structure Aligned (validated : List Header) (s : Synchronizer V Db) : Prop where
  counts : Counts Header.number 0 validated
  length_eq : validated.length = s.headerNumberNext
  pos : 1 ≤ s.blockNumberNext
  roots : s.stateRoots = (validated.drop (if s.genesisStateValidated = true then s.blockNumberNext
    else s.blockNumberNext - 1)).map Header.stateRoot
  passed : s.genesisStateValidated = true → s.blockNumberNext ≤ validated.length

variable {validated : List Header}

/-- The root at the front is that of a validated header. -/
theorem front_root {start : ℕ} {root : H256}
    (hqueue : s.stateRoots = (validated.drop start).map Header.stateRoot)
    (hroot : s.stateRoots.head? = some root) :
    ∃ header, validated[start]? = some header ∧ header.stateRoot = root ∧
      s.stateRoots.tail = (validated.drop (start + 1)).map Header.stateRoot := by
  rw [hqueue, List.head?_map, List.head?_drop] at hroot
  obtain ⟨header, hget, hroot⟩ := Option.map_eq_some_iff.mp hroot
  refine ⟨header, hget, hroot, ?_⟩
  rw [hqueue, ← List.map_tail, List.tail_drop]

theorem head_of_front {start : ℕ} {header : Header}
    (hqueue : s.stateRoots = (validated.drop start).map Header.stateRoot)
    (hget : validated[start]? = some header) : s.stateRoots.head? = some header.stateRoot := by
  rw [hqueue, List.head?_map, List.head?_drop, hget]
  rfl

theorem Aligned.validateGenesis (h : Aligned validated s) {u : Unit}
    (hgenesis : s.genesisStateValidated = false) (hrun : Sync.validateGenesis.run s = .ok u s') :
    Aligned validated s' ∧ s'.genesisStateValidated = true ∧ s'.blockNumberNext = s.blockNumberNext := by
  obtain ⟨hroot, rfl⟩ := validateGenesis_ok.mp hrun
  have hqueue := h.roots
  rw [hgenesis, if_neg (by decide)] at hqueue
  obtain ⟨header, hget, -, hrest⟩ := front_root hqueue hroot
  have hpos := h.pos
  have hlt := (List.getElem?_eq_some_iff.mp hget).1
  rw [Nat.sub_add_cancel hpos] at hrest
  refine ⟨{ h with roots := ?_, passed := fun _ => ?_ }, rfl, rfl⟩
  · exact hrest
  · show s.blockNumberNext ≤ validated.length
    omega

/-- What both ways to feed a block have in common. -/
theorem Aligned.feed (h : Aligned validated s) (hgenesis : s.genesisStateValidated = true)
    {root : H256} (hroot : s.stateRoots.head? = some root)
    (hlimit : s.blockNumberNext + 1 < 2 ^ 32) (db : Db) :
    Aligned validated { s with
        blockNumberNext := add32 s.blockNumberNext 1
        stateRoots := s.stateRoots.tail
        storage := ⟨db, root⟩ } ∧
      ∃ header, validated[s.blockNumberNext]? = some header ∧ root = header.stateRoot := by
  have hqueue := h.roots
  rw [if_pos hgenesis] at hqueue
  obtain ⟨header, hget, rfl, hrest⟩ := front_root hqueue hroot
  have hlt := (List.getElem?_eq_some_iff.mp hget).1
  have hnext : add32 s.blockNumberNext 1 = s.blockNumberNext + 1 := Nat.mod_eq_of_lt hlimit
  refine ⟨⟨h.counts, h.length_eq, ?_, ?_, fun _ => ?_⟩, header, hget, rfl⟩
  · show 1 ≤ add32 s.blockNumberNext 1
    omega
  · show s.stateRoots.tail = (validated.drop (if s.genesisStateValidated = true then add32 s.blockNumberNext 1 else
      add32 s.blockNumberNext 1 - 1)).map Header.stateRoot
    rw [if_pos hgenesis, hnext, hrest]
  · show add32 s.blockNumberNext 1 ≤ validated.length
    omega

theorem dropLast_concat_getLastD {α : Type} (first : α) (rest : List α) :
    (first :: rest).dropLast ++ [rest.getLastD first] = first :: rest := by
  induction rest generalizing first with
  | nil => rfl
  | cons second rest ih =>
    rw [List.dropLast_cons_cons, List.getLastD_cons, List.cons_append, ih]

/-- A batch of headers keeps the queue in order. -/
theorem Aligned.sync (hB : Chained B) (h : Aligned validated s) {n : ℕ} {first : HeaderToSync}
    {rest : List HeaderToSync}
    (hrun : (syncNew B (s.blockNumberNext - 1) first rest).run s = .ok n s')
    (hlimit : ∀ header ∈ first :: rest, header.header.number + 1 < 2 ^ 32) :
    Aligned (validated ++ (first :: rest).map HeaderToSync.header) s' := by
  obtain ⟨hnumber, v', justification, hsubmit, rfl⟩ := syncNew_ok hrun
  have hchain := hB _ _ _ _ _ _ hsubmit
  have hconcat : (first :: rest).map HeaderToSync.header =
      (first :: rest).dropLast.map HeaderToSync.header ++ [(rest.getLastD first).header] := by
    rw [← List.map_singleton, ← List.map_append, dropLast_concat_getLastD]
  have hcounts : Counts Header.number validated.length ((first :: rest).map HeaderToSync.header) := by
    rw [h.length_eq, ← hnumber]
    refine counts_of_isChain (List.isChain_reverse.mp ?_)
    rw [← List.map_cons, hconcat, List.reverse_concat]
    exact hchain
  have hlast : (rest.getLastD first).header.number = validated.length + rest.length := by
    refine hcounts rest.length _ ?_
    rw [hconcat]
    simp
  have hlimit' := hlimit (rest.getLastD first) List.getLastD_mem_cons
  have hnext : add32 (rest.getLastD first).header.number 1 =
      (rest.getLastD first).header.number + 1 := Nat.mod_eq_of_lt hlimit'
  refine ⟨?_, ?_, h.pos, ?_, ?_⟩
  · exact h.counts.append (by rwa [Nat.zero_add])
  · show (validated ++ (first :: rest).map HeaderToSync.header).length =
      add32 (rest.getLastD first).header.number 1
    rw [List.length_append, List.length_map, List.length_cons]
    omega
  · have hkept : ((first :: rest).filter fun h =>
          decide (¬ h.header.number < s.blockNumberNext - 1)).map (fun h => h.header.stateRoot) =
        (((first :: rest).map HeaderToSync.header).drop
          (s.blockNumberNext - 1 - validated.length)).map Header.stateRoot := by
      rw [← hcounts.filter, List.filter_map, List.map_map]
      simp only [not_lt]
      rfl
    have hpassed := h.passed
    dsimp only
    rw [hkept, h.roots, List.drop_append, List.map_append]
    congr 3
    split_ifs with hgenesis
    · have := hpassed hgenesis
      omega
    · rfl
  · intro hgenesis
    have := h.passed hgenesis
    rw [List.length_append]
    exact Nat.le_add_right_of_le this

/-! ## Runs -/

/-- A new synchronizer. -/
def Fresh (s : Synchronizer V Db) : Prop :=
  s.headerNumberNext = 0 ∧ s.blockNumberNext = 1 ∧ s.genesisStateValidated = false ∧ s.stateRoots = []

/-- A call, whether it succeeds or not. -/
def step (B : BlockValidator V) (T : Trie Db Changes Transaction) (s : Synchronizer V Db)
    (a : Call Changes) : Option (Synchronizer V Db) :=
  some (after (call B T a) s)

/-- The headers that have been validated so far. -/
def note (B : BlockValidator V) (s : Synchronizer V Db) (a : Call Changes)
    (_ : Synchronizer V Db) (validated : List Header) : List Header :=
  match a with
  | .syncHeader headers =>
    match (syncHeader B headers).run s with
    | .ok _ _ => validated ++ (newHeaders s headers).map HeaderToSync.header
    | .error _ _ => validated
  | _ => validated

/-- The calls that are made with care: numbers are below the limit, there are new headers before any
have been synced, and proofs are dropped only behind a validated state and with a root at hand. -/
def Careful (s : Synchronizer V Db) : Call Changes → Prop
  | .assumeAtBlock blockNumber => blockNumber + 1 < 2 ^ 32
  | .syncHeader headers =>
    (newHeaders s headers = [] → 0 < s.headerNumberNext) ∧
      ∀ h ∈ headers, h.header.number + 1 < 2 ^ 32
  | .feedBlock block dropProofs =>
    block.blockHeader.number + 1 < 2 ^ 32 ∧
      (dropProofs = true → s.genesisStateValidated = true ∧ s.stateRoots ≠ [])

/-- The states of such runs, with the validated headers. -/
abbrev Reached (B : BlockValidator V) (T : Trie Db Changes Transaction) :
    Synchronizer V Db × List Header → Prop :=
  Runs.Reach (fun p => Fresh p.1 ∧ p.2 = []) (Runs.observe (step B T) (note B))
    fun p a => Careful p.1 a

section Calls

variable {headers : List HeaderToSync} {n : ℕ}

theorem syncHeader_ok (h : (syncHeader B headers).run s = .ok n s') :
    (newHeaders s headers = [] ∧ s' = s) ∨
      ∃ first rest, newHeaders s headers = first :: rest ∧
        (syncNew B (s.blockNumberNext - 1) first rest).run s = .ok n s' := by
  simp only [syncHeader, sub32, run_ok, checkedSub_eq_some, existsAndEq] at h
  obtain ⟨-, h⟩ := h
  split at h
  · rename_i hnew
    exact .inl ⟨hnew, (run_okOr_ok.mp h).2.symm⟩
  · rename_i first rest hnew
    exact .inr ⟨first, rest, hnew, h⟩

theorem syncHeader_error (h : (syncHeader B headers).run s = .error e s') :
    (∃ v, s' = { s with validator := v }) ∧
      (e = .underflow → s.blockNumberNext = 0 ∨ newHeaders s headers = [] ∧ s.headerNumberNext = 0) := by
  simp only [syncHeader, sub32, run_error, run_ok, checkedSub_eq_some, checkedSub_eq_none,
    existsAndEq] at h
  rcases h with ⟨hzero, rfl, rfl⟩ | ⟨-, h⟩
  · exact ⟨⟨_, rfl⟩, fun _ => .inl (by omega)⟩
  · split at h
    · rename_i hnew
      simp only [run_error, checkedSub_eq_none] at h
      obtain ⟨hzero, rfl, rfl⟩ := h
      exact ⟨⟨_, rfl⟩, fun _ => .inr ⟨hnew, by omega⟩⟩
    · obtain ⟨hsame, hne⟩ := syncNew_error h
      exact ⟨hsame, fun he => absurd he hne⟩

theorem Aligned.syncHeader_ok (hB : Chained B) (h : Aligned validated s)
    (hok : Careful s (.syncHeader headers : Call Changes))
    (hrun : (syncHeader B headers).run s = .ok n s') :
    Aligned (validated ++ (newHeaders s headers).map HeaderToSync.header) s' := by
  rcases Sync.syncHeader_ok hrun with ⟨hnew, rfl⟩ | ⟨first, rest, hnew, hrun⟩
  · rwa [hnew, List.map_nil, List.append_nil]
  · rw [hnew]
    refine h.sync hB hrun ?_
    rw [← hnew]
    exact fun header hmem => hok.2 header (List.mem_of_mem_filter hmem)

variable (h : Aligned validated s)
include h

theorem Aligned.syncHeader_error (hok : Careful s (.syncHeader headers : Call Changes))
    (hrun : (syncHeader B headers).run s = .error e s') :
    Aligned validated s' ∧ e ≠ .underflow := by
  have hpos := h.pos
  obtain ⟨⟨v, rfl⟩, hunderflow⟩ := Sync.syncHeader_error hrun
  refine ⟨{ h with }, fun he => ?_⟩
  rcases hunderflow he with hzero | ⟨hnew, hzero⟩
  · omega
  · have := hok.1 hnew
    omega

/-- **A block that is fed** leads to the state root of the validated header with its number. -/
theorem Aligned.feedBlock_ok (hok : Careful s (.feedBlock block dropProofs))
    (hrun : (feedBlock T block dropProofs).run s = .ok () s') :
    Aligned validated s' ∧ ∃ header, validated[block.blockHeader.number]? = some header ∧
      s'.storage.root = header.stateRoot := by
  obtain ⟨hlimit, hdrop⟩ := hok
  obtain ⟨hnumber, hcases⟩ := Sync.feedBlock_ok.mp hrun
  rw [hnumber] at hlimit ⊢
  rcases hcases with ⟨hdropped, hroot⟩ | ⟨-, ⟨hgenesis, _, s₁, hfirst, hchanges⟩ | ⟨hgenesis, hchanges⟩⟩
  · obtain ⟨root, hhead, rfl⟩ := feedRoot_ok.mp hroot
    exact h.feed (hdrop hdropped).1 hhead hlimit s.storage.db
  · obtain ⟨h₁, hgenesis₁, hnext⟩ := h.validateGenesis hgenesis hfirst
    obtain ⟨hroot, rfl⟩ := feedChanges_ok.mp hchanges
    rw [← hnext] at hlimit ⊢
    exact h₁.feed hgenesis₁ hroot hlimit _
  · obtain ⟨hroot, rfl⟩ := feedChanges_ok.mp hchanges
    exact h.feed hgenesis hroot hlimit _

theorem Aligned.feedBlock_error (hok : Careful s (.feedBlock block dropProofs))
    (hrun : (feedBlock T block dropProofs).run s = .error e s') :
    Aligned validated s' ∧ e ≠ .underflow := by
  have hpos := h.pos
  simp only [feedBlock, run_error, run_ok, run_ite_error, existsAndEq] at hrun
  rcases hrun with ⟨-, rfl, rfl⟩ | ⟨-, ⟨hdropped, hroot⟩ | ⟨-, ⟨hgenesis, hfirst | ⟨_, s₁, hfirst,
    hchanges⟩⟩ | ⟨hgenesis, hchanges⟩⟩⟩
  · exact ⟨h, Failure.noConfusion⟩
  · simp only [feedRoot, run_error, run_ok, existsAndEq, List.head?_eq_none_iff] at hroot
    exact absurd hroot.1 (hok.2 hdropped).2
  · obtain ⟨rfl, hunderflow⟩ := validateGenesis_error hfirst
    exact ⟨h, fun he => by have := hunderflow he; omega⟩
  · obtain ⟨rfl, hne⟩ := feedChanges_error hchanges
    exact ⟨(h.validateGenesis hgenesis hfirst).1, hne⟩
  · obtain ⟨rfl, hne⟩ := feedChanges_error hchanges
    exact ⟨h, hne⟩

theorem Aligned.assumeAtBlock_ok {blockNumber : ℕ}
    (hok : Careful s (.assumeAtBlock blockNumber : Call Changes))
    (hrun : (assumeAtBlock blockNumber).run s = .ok () s') : Aligned validated s' := by
  simp only [assumeAtBlock, run_ok, existsAndEq] at hrun
  obtain ⟨hstart, rfl⟩ := hrun
  have hpos := h.pos
  obtain rfl : validated = [] := by
    refine List.eq_nil_of_length_eq_zero ?_
    rw [h.length_eq]
    omega
  have hgenesis : s.genesisStateValidated ≠ true := by
    intro hgenesis
    have := h.passed hgenesis
    rw [List.length_nil] at this
    omega
  have hnext : add32 blockNumber 1 = blockNumber + 1 := Nat.mod_eq_of_lt hok
  refine ⟨h.counts, h.length_eq, ?_, ?_, fun hgenesis' => absurd hgenesis' hgenesis⟩
  · show 1 ≤ add32 blockNumber 1
    omega
  · rw [List.drop_nil]
    have hroots := h.roots
    rwa [List.drop_nil] at hroots

omit h

theorem assumeAtBlock_error {blockNumber : ℕ} (h : (assumeAtBlock blockNumber).run s = .error e s') :
    s' = s ∧ e ≠ .underflow := by
  simp only [assumeAtBlock, run_error, run_ok, existsAndEq] at h
  obtain ⟨-, rfl, rfl⟩ := h
  exact ⟨rfl, Failure.noConfusion⟩

end Calls

theorem Fresh.aligned (h : Fresh s) : Aligned [] s := by
  obtain ⟨hheader, hblock, hgenesis, hroots⟩ := h
  refine ⟨fun i header hget => ?_, hheader.symm, hblock.ge, ?_, fun htrue => ?_⟩
  · cases hget
  · rw [hroots, List.drop_nil, List.map_nil]
  · rw [hgenesis] at htrue
    cases htrue

/-- Every careful call keeps the queue in order. -/
theorem Aligned.step (hB : Chained B) (h : Aligned validated s) {a : Call Changes}
    (hok : Careful s a) (hstep : step B T s a = some s') :
    Aligned (note B s a s' validated) s' := by
  obtain rfl := Option.some.inj hstep
  cases a with
  | assumeAtBlock blockNumber =>
    unfold after
    split
    · rename_i u s' hrun
      exact h.assumeAtBlock_ok hok hrun
    · rename_i e s' hrun
      obtain ⟨rfl, -⟩ := assumeAtBlock_error hrun
      exact h
  | syncHeader headers =>
    show Aligned (note B s (.syncHeader headers : Call Changes) _ validated)
      (after (syncHeader B headers >>= fun _ => pure ()) s)
    unfold note
    rw [after_bind]
    dsimp only
    cases hrun : (syncHeader B headers).run s with
    | ok n s' => exact h.syncHeader_ok hB hok hrun
    | error e s' => exact (h.syncHeader_error hok hrun).1
  | feedBlock block dropProofs =>
    unfold after
    split
    · rename_i u s' hrun
      exact (h.feedBlock_ok hok hrun).1
    · rename_i e s' hrun
      exact (h.feedBlock_error hok hrun).1

theorem aligned_of_reached (hB : Chained B) {p : Synchronizer V Db × List Header}
    (hp : Reached B T p) : Aligned p.2 p.1 := by
  induction hp with
  | start h =>
    rw [h.2]
    exact h.1.aligned
  | next _ hok hstep ih =>
    obtain ⟨hstep, hnote⟩ := Runs.observe_eq_some.mp hstep
    rw [hnote]
    exact ih.step hB hok hstep

/-- **The right block can be fed.**  If the header of the next block has been validated, the
changes lead to its root and the storage has been validated or is in the state before, the block is
accepted. -/
theorem Aligned.right_block (h : Aligned validated s) {header : Header}
    (hnumber : block.blockHeader.number = s.blockNumberNext)
    (hheader : validated[s.blockNumberNext]? = some header)
    (hchanges : (T.fullStorageRoot s.storage.db s.storage.root block.storageChanges).1 =
      header.stateRoot) (hstart : s.genesisStateValidated = true ∨
      ∃ before, validated[s.blockNumberNext - 1]? = some before ∧ before.stateRoot = s.storage.root) :
    ∃ s', (feedBlock T block false).run s = .ok () s' ∧ s'.storage.root = header.stateRoot := by
  have hroots := h.roots
  rw [← hchanges]
  cases hgenesis : s.genesisStateValidated with
  | true =>
    rw [if_pos hgenesis] at hroots
    have hroot := (head_of_front hroots hheader).trans (congrArg some hchanges.symm)
    exact ⟨_, Sync.feedBlock_ok.mpr ⟨hnumber, .inr ⟨rfl, .inr ⟨hgenesis,
      feedChanges_ok.mpr ⟨hroot, rfl⟩⟩⟩⟩, rfl⟩
  | false =>
    rw [hgenesis] at hstart hroots
    obtain ⟨before, hbefore, hstate⟩ := hstart.resolve_left (by decide)
    have hfirst := (validateGenesis_ok (u := ())).mpr
      ⟨(head_of_front hroots hbefore).trans (congrArg some hstate), rfl⟩
    have hroots₁ := (h.validateGenesis hgenesis hfirst).1.roots
    have hroot := (head_of_front hroots₁ hheader).trans (congrArg some hchanges.symm)
    exact ⟨_, Sync.feedBlock_ok.mpr ⟨hnumber, .inr ⟨rfl, .inl ⟨hgenesis, (), _, hfirst,
      feedChanges_ok.mpr ⟨hroot, rfl⟩⟩⟩⟩, rfl⟩

/-- **The storage is the finalised state.**  In every state of a run of careful calls, failing ones
included, a careful call does not underflow; a block that is fed with success leads the storage to
the state root of the validated header with its number; and the right block for the next number is
accepted. -/
theorem storage_synced (hB : Chained B) {p : Synchronizer V Db × List Header} (hp : Reached B T p) :
    (∀ block dropProofs s', Careful p.1 (.feedBlock block dropProofs) →
      (feedBlock T block dropProofs).run p.1 = .ok () s' →
        ∃ header, p.2[block.blockHeader.number]? = some header ∧
          header.number = block.blockHeader.number ∧ s'.storage.root = header.stateRoot) ∧
    (∀ (block : BlockHeaderWithChanges Changes) (header : Header),
      block.blockHeader.number = p.1.blockNumberNext →
      p.2[p.1.blockNumberNext]? = some header →
      (T.fullStorageRoot p.1.storage.db p.1.storage.root block.storageChanges).1 = header.stateRoot →
      (p.1.genesisStateValidated = true ∨ ∃ before, p.2[p.1.blockNumberNext - 1]? = some before ∧
        before.stateRoot = p.1.storage.root) →
      ∃ s', (feedBlock T block false).run p.1 = .ok () s' ∧ s'.storage.root = header.stateRoot) ∧
    ∀ a e s', Careful p.1 a → (call B T a).run p.1 = .error e s' → e ≠ .underflow := by
  have h := aligned_of_reached hB hp
  refine ⟨?_, fun block header => h.right_block, ?_⟩
  · intro block dropProofs s' hok hrun
    obtain ⟨-, header, hget, hroot⟩ := h.feedBlock_ok hok hrun
    have hnumber := h.counts _ header hget
    rw [Nat.zero_add] at hnumber
    exact ⟨header, hget, hnumber, hroot⟩
  · intro a e s' hok hrun
    cases a with
    | assumeAtBlock blockNumber => exact (assumeAtBlock_error hrun).2
    | syncHeader headers =>
      simp only [call, run_error] at hrun
      exact (h.syncHeader_error hok hrun).2
    | feedBlock => exact (h.feedBlock_error hok hrun).2

/-! ## Small runs -/

/-- A light client that checks the numbers only. -/
def smallValidator : BlockValidator Unit where
  hash header := header.stateRoot
  submitFinalizedHeaders _ header ancestryProof _ :=
    ensure ((header :: ancestryProof).IsChain fun h parent => h.number = parent.number + 1) "numbers"

theorem chained_smallValidator : Chained smallValidator := by
  intro bridgeId header ancestryProof justification v v' h
  exact (run_ensure_ok.mp h).1

/-- A trie whose changes are its next root. -/
def smallTrie : Trie Unit H256 Unit where
  fullStorageRoot _ _ changes := (changes, ())
  consolidate _ _ := ()

/-- A new synchronizer, with a storage in the state of header 0. -/
def smallStart : Synchronizer Unit Unit where
  validator := ()
  mainBridge := 0
  headerNumberNext := 0
  blockNumberNext := 1
  genesisStateValidated := false
  stateRoots := []
  storage := ⟨(), (smallHeader 0).stateRoot⟩

/-- The headers 0 and 1. -/
def smallBatch : List HeaderToSync :=
  [⟨smallHeader 0, none⟩, ⟨smallHeader 1, some []⟩]

/-- The block 1. -/
def smallBlock : BlockHeaderWithChanges H256 := ⟨smallHeader 1, (smallHeader 1).stateRoot⟩

/-- The synchronizer with these headers. -/
def smallSynced : Synchronizer Unit Unit := after (syncHeader smallValidator smallBatch) smallStart

theorem storage_synced_small :
    ∃ p s', Reached smallValidator smallTrie p ∧
      (feedBlock smallTrie smallBlock false).run p.1 = .ok () s' ∧
      ∃ header, p.2[1]? = some header ∧ header.number = 1 ∧ s'.storage.root = header.stateRoot := by
  have hstart : Reached smallValidator smallTrie (smallStart, []) := .start ⟨⟨rfl, rfl, rfl, rfl⟩, rfl⟩
  have hsynced : Reached smallValidator smallTrie (smallSynced, _) :=
    .next hstart (a := .syncHeader smallBatch) ⟨by decide, by decide⟩ rfl
  obtain ⟨_, s', hrun, -⟩ := exists_of_succeeds (show (succeeds (feedBlock smallTrie smallBlock false)
    smallSynced).any (fun _ => true) = true by decide +kernel)
  exact ⟨_, s', hsynced, hrun, (storage_synced chained_smallValidator hsynced).1 smallBlock false s'
    ⟨by decide, by decide⟩ hrun⟩

/-- **The storage gets out of step.**  Two headers have been synced into a new synchronizer.  Block 1
with its proofs dropped is then accepted with the root of header 0, since the root that the state
before is checked against is still in the queue.  Without any header the same call fails, but has
counted the block, which can never be fed again.  And a batch without new headers underflows the
number that it returns. -/
theorem dropped_proofs_out_of_step :
    (∃ s', (feedBlock smallTrie smallBlock true).run smallSynced = .ok () s' ∧
      s'.storage.root = (smallHeader 0).stateRoot ∧
      s'.storage.root ≠ (smallHeader 1).stateRoot) ∧
    ((feedBlock smallTrie smallBlock true).run smallStart =
        .error (.error .noStateRoot) { smallStart with blockNumberNext := 2 } ∧
      (feedBlock smallTrie smallBlock false).run
        (after (syncHeader smallValidator smallBatch) { smallStart with blockNumberNext := 2 }) =
          .error (.error .blockNumberMismatch)
            (after (syncHeader smallValidator smallBatch) { smallStart with blockNumberNext := 2 })) ∧
    (syncHeader smallValidator []).run smallStart = .error .underflow smallStart := by
  refine ⟨?_, ⟨rfl, rfl⟩, rfl⟩
  obtain ⟨_, s', hrun, hcheck⟩ := exists_of_succeeds
    (show (succeeds (feedBlock smallTrie smallBlock true) smallSynced).any (fun s =>
      decide (s.storage.root = (smallHeader 0).stateRoot ∧
        s.storage.root ≠ (smallHeader 1).stateRoot)) = true by decide +kernel)
  exact ⟨s', hrun, of_decide_eq_true hcheck⟩

end Sync
