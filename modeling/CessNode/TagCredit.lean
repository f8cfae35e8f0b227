/-
# The credit for tags

A report of tags names for every digest the worker that has made the tag.  Two counters, one for
the workers and one for the fragments that get their tag, are kept in a byte, while a report has up
to a thousand digests; past 255 they start again at zero.

* `tagCredits` : what the workers are credited with, and `credited_eq` : which is counted modulo 256;
* `tagCredit_exact_iff` : credit and tags are exact if and only if no bonded worker and no fragment
  occurs more than 255 times.
-/
import CessNode.MinerSpaceCalls

open Dispatch StorageMap
open StorageHandler (alice)

namespace FileBank

/-! ## Counting in a byte -/

theorem countP_of_not_mem {κ : Type} [DecidableEq κ] {keys : List κ} {k : κ} (h : k ∉ keys) :
    keys.countP (fun key => key = k) = 0 :=
  List.countP_eq_zero.mpr fun _ hkey heq => h (of_decide_eq_true heq ▸ hkey)

theorem lookup_countBytes {κ : Type} [DecidableEq κ] (keys : List κ) (k : κ) :
    (countBytes keys).lookup k =
      if k ∈ keys then some (UInt8.ofNat (keys.countP fun key => key = k)) else none := by
  unfold countBytes
  induction keys using List.reverseRecOn with
  | nil => rfl
  | append_singleton keys key ih =>
    rw [List.foldl_append, List.foldl_cons, List.foldl_nil, lookup_insert_ite, List.countP_append]
    by_cases hk : k = key
    · subst hk
      have hone : [k].countP (fun key => key = k) = 1 := List.countP_cons_of_pos (decide_eq_true rfl)
      rw [if_pos rfl, if_pos (by simp), ih, hone]
      split_ifs with hmem
      · exact congrArg some (UInt8.ofNat_add _ _).symm
      · rw [countP_of_not_mem hmem]
        rfl
    · rw [ih, List.countP_cons_of_neg (by simpa using Ne.symm hk)]
      simp only [List.mem_append, List.mem_singleton, hk, or_false]
      rfl

theorem mod_eq_iff_lt {count : ℕ} : count % 256 = count ↔ count < 256 :=
  ⟨fun h => h ▸ Nat.mod_lt _ (by decide), Nat.mod_eq_of_lt⟩

/-! ## Credit -/

variable {T : Config} {w w' : World T} {sender : T.AccountId} {teeSig : BoundedVec UInt8 64}
  {info : TagSigInfo T.AccountId T.WorkerPublicKey} {file : FileInfo T}

/-- The digests that carry the key of a worker. -/
def digestsBy (info : TagSigInfo T.AccountId T.WorkerPublicKey) (teePuk : T.WorkerPublicKey) : ℕ :=
  info.digest.val.countP fun d => d.teePuk = teePuk

/-- The digests for a fragment. -/
def digestsFor (info : TagSigInfo T.AccountId T.WorkerPublicKey) (hash : Hash) : ℕ :=
  info.digest.val.countP fun d => d.fragment = hash

/-- The fragments of a hash that get their tag from the next report of a miner. -/
def FileInfo.waiting (file : FileInfo T) (sender : T.AccountId) (hash : Hash) : ℕ :=
  (file.fragments.filter fun f => f.Waits sender).countP fun f => f.hash = hash

/-- The workers of a report with what they are credited with, in the order of the loop. -/
def tagCredits (info : TagSigInfo T.AccountId T.WorkerPublicKey) : List (T.WorkerPublicKey × ℕ) :=
  (btreeEntries T.workerOrder (countBytes (info.digest.val.map fun d => d.teePuk))).map
    fun p => (p.1, fragmentSize * p.2.toNat)

/-- A round of the loop: a worker that is bonded gets its points. -/
def creditWorker (T : Config) (p : T.WorkerPublicKey × ℕ) : PalletM T Unit := do
  increasePoint T T.increasePointForTag p.1 p.2
  updateWorkBlock T p.1

/-- What a worker is credited with in all rounds. -/
def credited (info : TagSigInfo T.AccountId T.WorkerPublicKey) (teePuk : T.WorkerPublicKey) : ℕ :=
  ((tagCredits info).map fun p => if p.1 = teePuk then p.2 else 0).sum

theorem credited_eq (info : TagSigInfo T.AccountId T.WorkerPublicKey) (teePuk : T.WorkerPublicKey) :
    credited info teePuk = fragmentSize * (digestsBy info teePuk % 256) := by
  set keys := info.digest.val.map fun d => d.teePuk with hkeys
  have hcount : keys.countP (fun key => key = teePuk) = digestsBy info teePuk := List.countP_map
  have hrounds : (tagCredits info).map (fun p => if p.1 = teePuk then p.2 else 0) =
      ((btreeEntries T.workerOrder (countBytes keys)).map Prod.fst).map
        fun key => if key = teePuk then fragmentSize * (digestsBy info teePuk % 256) else 0 := by
    unfold tagCredits
    rw [List.map_map, List.map_map]
    refine List.map_congr_left fun p hp => ?_
    have hlookup := mem_btreeEntries hp
    rw [lookup_countBytes] at hlookup
    split_ifs at hlookup
    show (if p.1 = teePuk then fragmentSize * p.2.toNat else 0) = if p.1 = teePuk then _ else 0
    split_ifs with hkey
    · rw [← Option.some.inj hlookup, hkey, hcount]
      rfl
    · rfl
  have hnodup : (T.workerOrder (countBytes keys).keys).Nodup :=
    (T.workerOrder_perm _).nodup_iff.mpr (AList.keys_nodup _)
  unfold credited
  rw [hrounds, keys_btreeEntries T.workerOrder_perm, sum_ite_of_nodup hnodup]
  split_ifs with hmem
  · rfl
  · have hnone := AList.lookup_eq_none.mpr fun h => hmem ((T.workerOrder_perm _).mem_iff.mpr h)
    rw [lookup_countBytes] at hnone
    split_ifs at hnone with hkey
    rw [← hcount, countP_of_not_mem hkey]
    rfl

/-- **Credit for tags.**  A report that succeeds credits the workers of `tagCredits`; and the credit
of every bonded worker and the number of digests of every newly tagged fragment are exact if and
only if the worker occurs in at most 255 digests and the fragment at most 255 times. -/
theorem tagCredit_exact_iff (hfile : w.file.lookup info.fileHash = some file)
    (h : (calculateReport T sender teeSig info).run w = .ok () w') :
    (∃ w₁ w₂, w₁.outside = w.outside ∧ ((tagCredits info).forM (creditWorker T)).run w₁ = .ok () w₂ ∧
      w'.outside = w₂.outside) ∧
    (((∀ teePuk, T.isBonded w.outside teePuk = true →
          credited info teePuk = fragmentSize * digestsBy info teePuk) ∧
        ∀ f ∈ file.fragments, f.Waits sender →
          digestsFor info f.hash = file.waiting sender f.hash) ↔
      (∀ teePuk, T.isBonded w.outside teePuk = true → digestsBy info teePuk < 256) ∧
        ∀ f ∈ file.fragments, f.Waits sender → file.waiting sender f.hash < 256) := by
  simp only [FileBank.calculateReport, tryMutateFile, verifySignature, tagFragments, run_ok,
    run_tryMutate_ok, checkedMul_eq_some, existsAndEq, Prod.mk.injEq] at h
  obtain ⟨_, -, -, -, -, file₀, hfile₀, w₅, hashList, -, hdigest, -, _, w₂, hunlock, _, w₃,
    hinsert, _, w₄, hpoints, _, hevent, rfl⟩ := h
  obtain rfl := Option.mem_unique hfile hfile₀
  constructor
  · obtain ⟨s₂, -, rfl⟩ := run_zoom_ok.mp hunlock
    obtain ⟨s₃, -, rfl⟩ := run_zoom_ok.mp hinsert
    obtain rfl := run_modify_ok.mp hevent
    refine ⟨{ w with miner := s₃ }, w₄, rfl, ?_, rfl⟩
    show (forM (List.map _ _) (creditWorker T)).run _ = _
    rw [List.forM_map]
    exact hpoints
  · refine and_congr (forall₂_congr fun teePuk _ => ?_) (forall₃_congr fun f hf hwaits => ?_)
    · rw [credited_eq, Nat.mul_left_cancel_iff (by decide), mod_eq_iff_lt]
    · have hmem : f ∈ file.fragments.filter fun f => f.Waits sender :=
        List.mem_filter.mpr ⟨hf, decide_eq_true hwaits⟩
      have hentry := hdigest _ (AList.mem_lookup_iff.mp
        ((lookup_countBytes _ f.hash).trans (if_pos (List.mem_map_of_mem hmem))))
      rw [lookup_groupByKey, List.countP_map] at hentry
      split_ifs at hentry
      · have hdigests : digestsFor info f.hash = file.waiting sender f.hash % 256 := by
          refine Eq.trans ?_ (Option.some.inj hentry)
          rw [List.length_map, ← List.countP_eq_length_filter, List.countP_map]
          rfl
        rw [hdigests, mod_eq_iff_lt]
      · cases hentry

/-! ## Two reports -/

/-- The runtime in which every worker is bonded. -/
def bondedRuntime : Config :=
  { runtime with
    isBonded := fun _ _ => true
    getStash := fun _ _ => some alice }

/-- The chain with a file without segments, and its miners. -/
def tagWorld : World bondedRuntime :=
  { genesis bondedRuntime (StorageHandler.start (10 ^ 20)).world miners () with
    file := (∅ : StorageMap _ _).insert (hashOf [99])
      { segmentList := BoundedVec.empty, owner := BoundedVec.empty, fileSize := 0, completion := 0,
        stat := .active } }

/-- A bonded worker. -/
def worker : bondedRuntime.WorkerPublicKey := (5 : ℕ)

/-- A report with digests of one worker. -/
def digestsOf (count : ℕ) (h : count ≤ 1000) :
    TagSigInfo bondedRuntime.AccountId bondedRuntime.WorkerPublicKey where
  miner := (10 : ℕ)
  digest := ⟨List.replicate count ⟨hashOf [97], worker⟩, by simpa using h⟩
  fileHash := hashOf [99]

theorem digestsBy_digestsOf {count : ℕ} (h : count ≤ 1000)
    (teePuk : bondedRuntime.WorkerPublicKey) :
    digestsBy (digestsOf count h) teePuk = if worker = teePuk then count else 0 := by
  show (List.replicate count _).countP _ = _
  rw [List.countP_replicate]
  simp only [decide_eq_true_eq]

/-- The report of the digests. -/
def tagReport (count : ℕ) (h : count ≤ 1000) : PalletM bondedRuntime Unit :=
  calculateReport bondedRuntime (10 : ℕ) ⟨List.replicate 64 0, by decide⟩ (digestsOf count h)

/-- A report with 255 digests of a worker. -/
theorem tagCredit_exact_iff_255 : ∃ w', (tagReport 255 (by decide)).run tagWorld = .ok () w' ∧
    credited (digestsOf 255 (by decide)) worker = fragmentSize * 255 := by
  have hrun : (succeeds (tagReport 255 (by decide)) tagWorld).any (fun _ => true) = true := by
    decide +kernel
  obtain ⟨_, w', hrun, -⟩ := exists_of_succeeds hrun
  refine ⟨w', hrun, ?_⟩
  have hexact := (tagCredit_exact_iff (AList.lookup_insert _) hrun).2.mpr ⟨?_, nofun⟩
  · rw [hexact.1 worker rfl, digestsBy_digestsOf, if_pos rfl]
  · intro teePuk _
    rw [digestsBy_digestsOf]
    split_ifs <;> decide

/-- A report with 256 digests of a bonded worker succeeds, and the worker is credited with nothing. -/
theorem no_credit_for_256 : ∃ w', (tagReport 256 (by decide)).run tagWorld = .ok () w' ∧
    bondedRuntime.isBonded tagWorld.outside worker = true ∧
    digestsBy (digestsOf 256 (by decide)) worker = 256 ∧
    credited (digestsOf 256 (by decide)) worker = 0 := by
  have hrun : (succeeds (tagReport 256 (by decide)) tagWorld).any (fun _ => true) = true := by
    decide +kernel
  obtain ⟨_, w', hrun, -⟩ := exists_of_succeeds hrun
  refine ⟨w', hrun, rfl, digestsBy_digestsOf _ _, ?_⟩
  rw [credited_eq, digestsBy_digestsOf]
  rfl

end FileBank
