/-
# The accounts of the miners

What the agreement of the records with files and deals (`Reached.safe`) says about the accounts of
single miners in every reached state:

* `declared_capacity` : nobody has more space than declared;
* `idle_window` : the window of idle files covers the idle space, what is still to be replaced and
  what is promised to deals, so that the checked difference in the audit never fails;
* `service_account` : service space and filter count the fragments with a tag.  The filter has
  counters of 64 bits, so this needs a bound on the number of files (`Reached.fileCount`).
-/
import CessNode.MinerSpaceRuns
import CessNode.FileShelf
import CessNode.ChainRuntime

open Dispatch StorageMap
open Sminer (Holding Item)

/-! ## What is counted -/

theorem Hash.bit_le (hash : Hash) (i : Fin 256) : hash.bit i ≤ 1 := by
  cases hbinary : hash.binary with
  | none =>
    unfold Hash.bit
    rw [hbinary]
    exact Nat.zero_le 1
  | some bits =>
    have hbit : hash.bit i = (bits i).toNat := by
      unfold Hash.bit
      rw [hbinary]
      rfl
    rcases (Hash.binary_bit hbinary i).1 with h | h <;> rw [hbit, h] <;> decide

namespace FileBank

variable {T : Config}

/-- The hashes of the fragments of a file that a miner holds with a tag. -/
def FileInfo.taggedOf (file : FileInfo T) (miner : T.AccountId) : List Hash :=
  (file.fragments.filter fun f => f.miner = miner ∧ f.tag.isSome = true).map FragmentInfo.hash

/-- The number of fragments that a miner holds with a tag. -/
def World.taggedCount (w : World T) (miner : T.AccountId) : ℕ :=
  w.file.total fun _ file => (file.taggedOf miner).length

/-- The sum of a bit of the hashes of these fragments. -/
def World.taggedBits (w : World T) (miner : T.AccountId) (i : Fin 256) : ℕ :=
  w.file.total fun _ file => ((file.taggedOf miner).map (·.bit i)).sum

variable (file : FileInfo T) (miner : T.AccountId)
include file miner

theorem FileInfo.holding_tagged : file.holding miner .tagged = (file.taggedOf miner).length := by
  unfold FileInfo.holding holdingOf FileInfo.taggedOf
  induction file.fragments with
  | nil => rfl
  | cons f l ih =>
    rw [List.map_cons, List.sum_cons, ih]
    unfold FragmentInfo.holding
    by_cases hf : f.miner = miner
    · by_cases htag : f.tag.isSome = true
      · simp [hf, htag, Holding.fragment, add_comm]
      · simp [hf, htag, Holding.fragment]
    · simp [hf]

theorem FileInfo.holding_bit (i : Fin 256) :
    file.holding miner (.bit i) = ((file.taggedOf miner).map (·.bit i)).sum := by
  unfold FileInfo.holding holdingOf FileInfo.taggedOf
  induction file.fragments with
  | nil => rfl
  | cons f l ih =>
    rw [List.map_cons, List.sum_cons, ih]
    unfold FragmentInfo.holding
    by_cases hf : f.miner = miner
    · by_cases htag : f.tag.isSome = true
      · simp [hf, htag, Holding.fragment]
      · simp [hf, htag, Holding.fragment]
    · simp [hf]

theorem FileInfo.holding_pledged : file.holding miner .pledged = 0 := by
  refine List.sum_eq_zero ?_
  intro x hx
  obtain ⟨f, -, rfl⟩ := List.mem_map.mp hx
  unfold FragmentInfo.holding
  split_ifs <;> rfl

omit file miner

/-- A deal has no fragments yet. -/
theorem DealInfo.holding_of_ne (deal : DealInfo T) (miner : T.AccountId) {item : Item}
    (hitem : item ≠ .pledged) : deal.holding miner item = 0 := by
  unfold DealInfo.holding
  split_ifs
  · cases item with
    | pledged => exact absurd rfl hitem
    | _ => rfl
  · rfl

theorem books_tagged (w : World T) (miner : T.AccountId) :
    w.books miner .tagged = w.taggedCount miner := by
  unfold World.books World.taggedCount
  have hdeals : w.dealMap.total (fun _ deal => deal.holding miner .tagged) = 0 :=
    total_eq_zero fun _ deal => deal.holding_of_ne miner nofun
  rw [hdeals, add_zero]
  exact total_congr fun e _ => e.2.holding_tagged miner

theorem books_bit (w : World T) (miner : T.AccountId) (i : Fin 256) :
    w.books miner (.bit i) = w.taggedBits miner i := by
  unfold World.books World.taggedBits
  have hdeals : w.dealMap.total (fun _ deal => deal.holding miner (.bit i)) = 0 :=
    total_eq_zero fun _ deal => deal.holding_of_ne miner nofun
  rw [hdeals, add_zero]
  exact total_congr fun e _ => e.2.holding_bit miner i

theorem books_pledged (w : World T) (miner : T.AccountId) :
    w.books miner .pledged = w.pledgedSegments miner := by
  unfold World.books World.pledgedSegments
  have hfiles : w.file.total (fun _ file => file.holding miner .pledged) = 0 :=
    total_eq_zero fun _ file => file.holding_pledged miner
  rw [hfiles, zero_add]
  refine total_congr fun e _ => ?_
  unfold DealInfo.holding
  split_ifs <;> rfl

/-! ## How many files there are -/

/-- A file has as many fragments as fit. -/
theorem FileInfo.length_fragments_le (file : FileInfo T) :
    file.fragments.length ≤ T.segmentCount * fragmentCount := by
  unfold FileInfo.fragments
  rw [List.length_flatMap]
  have hsum : (file.segmentList.val.map fun segment => segment.fragmentList.val.length).sum ≤
      file.segmentList.val.length * fragmentCount := by
    have hbound := List.sum_le_card_nsmul
      (file.segmentList.val.map fun segment => segment.fragmentList.val.length) fragmentCount ?_
    · rwa [List.length_map] at hbound
    · intro x hx
      obtain ⟨segment, -, rfl⟩ := List.mem_map.mp hx
      exact segment.fragmentList.property
  exact hsum.trans (Nat.mul_le_mul_right _ file.segmentList.property)

theorem FileInfo.length_taggedOf_le (file : FileInfo T) (miner : T.AccountId) :
    (file.taggedOf miner).length ≤ T.segmentCount * fragmentCount := by
  unfold FileInfo.taggedOf
  rw [List.length_map]
  exact (List.length_filter_le _ _).trans file.length_fragments_le

theorem FileInfo.taggedBits_le (file : FileInfo T) (miner : T.AccountId) (i : Fin 256) :
    ((file.taggedOf miner).map (·.bit i)).sum ≤ T.segmentCount * fragmentCount := by
  have hbound := List.sum_le_card_nsmul ((file.taggedOf miner).map (·.bit i)) 1 ?_
  · rw [List.length_map, smul_eq_mul, mul_one] at hbound
    exact hbound.trans (file.length_taggedOf_le miner)
  · intro x hx
    obtain ⟨hash, -, rfl⟩ := List.mem_map.mp hx
    exact hash.bit_le i

/-- A change adds at most the given file. -/
def Shelf.Adds (s s' : Shelf T) (new : Option Hash) : Prop :=
  ∀ fileHash, s'.file fileHash ≠ none → fileHash ∈ new ∨ s.file fileHash ≠ none

theorem Shelf.Adds.of_same {s s' : Shelf T} (h : s'.file = s.file) : s.Adds s' none :=
  fun _ hhash => .inr (h ▸ hhash)

theorem Shelf.Adds.of_update {s s' : Shelf T} {fileHash : Hash} {value : Option (FileInfo T)}
    (h : s'.file = Function.update s.file fileHash value) : s.Adds s' (some fileHash) := by
  intro hash hhash
  rw [h, Function.update_apply] at hhash
  by_cases heq : hash = fileHash
  · exact .inl (heq ▸ rfl)
  · rw [if_neg heq] at hhash
    exact .inr hhash

theorem Call.Changes.adds {w : World T} {c : Call T} {s' : Shelf T} (h : c.Changes w s') :
    ∃ new, w.shelf.Adds s' new := by
  cases h with
  | aside | declare | deliver | expire | report | claim | drop => exact ⟨none, .of_same rfl⟩
  | fly | complete | tag | delete | order | noexist | restore => exact ⟨_, .of_update rfl⟩

/-- Clearing adds no file. -/
theorem Shelf.Cleared.adds {s₀ s s' : Shelf T} {acc : T.AccountId} {fileHash : Hash}
    {new : Option Hash} (h : s.Cleared acc fileHash s') (hs : s₀.Adds s new) : s₀.Adds s' new := by
  intro hash hhash
  refine hs hash ?_
  rcases h.file with hsame | ⟨file, hfile, ⟨-, hgone⟩ | ⟨-, htrim⟩⟩
  · rwa [hsame] at hhash
  · rw [hgone, Function.update_apply] at hhash
    split_ifs at hhash
    · exact absurd rfl hhash
    · exact hhash
  · rw [htrim, Function.update_apply] at hhash
    split_ifs at hhash with heq
    · rw [heq, hfile]
      exact Option.some_ne_none file
    · exact hhash

/-- **A step adds at most one file**, and only a call does. -/
theorem step_adds {n n' : Node T} {a : Action T} (h : n.step a = some n') :
    ∃ new, n.world.shelf.Adds n'.world.shelf new ∧ (new = none ∨ ∃ c, a = .call c) := by
  by_cases hcall : ∃ c, a = .call c
  · obtain ⟨c, rfl⟩ := hcall
    rcases step_call h with hrun | hworld
    · obtain ⟨new, hadds⟩ := (c.code_changes hrun).adds
      exact ⟨new, hadds, .inr ⟨c, rfl⟩⟩
    · exact ⟨none, .of_same (by rw [hworld]), .inl rfl⟩
  · refine ⟨none, ?_, .inl rfl⟩
    refine step_shelf (P := fun s => n.world.shelf.Adds s none) ?_ ?_ h ?_ fun _ => .inr
    · intro s s' _ hfile _ hs
      unfold Shelf.Adds at hs ⊢
      rwa [hfile]
    · exact fun acc fileHash s s' hcleared hs => hcleared.adds hs
    · exact fun c _ ha => absurd ⟨c, ha⟩ hcall

/-- The number of files. -/
def World.fileCount (w : World T) : ℕ := w.file.keys.length

theorem Shelf.Adds.fileCount_le {w w' : World T} {new : Option Hash}
    (h : w.shelf.Adds w'.shelf new) : w'.fileCount ≤ new.toList.length + w.fileCount := by
  have hsub : w'.file.keys ⊆ new.toList ++ w.file.keys := by
    intro hash hmem
    have hsome : w'.shelf.file hash ≠ none := fun hnone => AList.lookup_eq_none.mp hnone hmem
    rcases h hash hsome with hnew | hold
    · exact List.mem_append_left _ (Option.mem_toList.mpr hnew)
    · refine List.mem_append_right _ ?_
      by_contra habsent
      exact hold (AList.lookup_eq_none.mpr habsent)
  have hle := (List.subperm_of_subset w'.file.keys_nodup hsub).length_le
  rwa [List.length_append] at hle

/-- A world with few files counts few fragments. -/
theorem World.taggedBits_le (w : World T) (miner : T.AccountId) (i : Fin 256) :
    w.taggedBits miner i ≤ w.fileCount * (T.segmentCount * fragmentCount) :=
  total_le fun _ file => file.taggedBits_le miner i

end FileBank

namespace Chain

variable {T : Config} {ok : Node T → Action T → Prop} {n : Node T}

/-- A step adds at most one file, and only a call does. -/
theorem step_fileCount {n n' : Node T} {a : Action T} (h : n.step a = some n') :
    n'.world.bank.fileCount ≤ n.world.bank.fileCount ∨
      (∃ c, a = .call c) ∧ n'.world.bank.fileCount ≤ n.world.bank.fileCount + 1 := by
  cases hb : a.bank n with
  | none =>
    have hfile : n'.world.bank.file = n.world.bank.file := by
      obtain ⟨_, _, _, _, _, hworld⟩ := (step_aside h hb).bank
      rw [hworld]
      rfl
    left
    unfold FileBank.World.fileCount
    rw [hfile]
  | some b =>
    obtain ⟨new, hadds, hnew⟩ := FileBank.step_adds (step_bank h hb).1
    have hle := hadds.fileCount_le
    replace hle : n'.world.bank.fileCount ≤ new.toList.length + n.world.bank.fileCount := hle
    rcases hnew with rfl | ⟨c, rfl⟩
    · left
      simpa using hle
    · right
      refine ⟨⟨_, call_of_bank hb⟩, ?_⟩
      have hlength : new.toList.length ≤ 1 := by cases new <;> simp
      omega

/-- **The number of files is bounded by the number of calls.** -/
theorem Reached.fileCount (hn : Reached ok n) :
    n.world.bank.fileCount ≤ T.maxCalls * n.world.now + min n.calls T.maxCalls := by
  refine Runs.Reach.inv (P := fun n => n.world.bank.fileCount ≤
    T.maxCalls * n.world.now + min n.calls T.maxCalls) ?_ ?_ hn
  · intro n hstart
    obtain ⟨⟨-, miner, outside, hbank⟩, -⟩ := hstart
    have hfile : n.world.bank.file = ∅ := congrArg FileBank.World.file hbank
    unfold FileBank.World.fileCount
    rw [hfile]
    exact Nat.zero_le _
  · intro n a n' _ hcount _ hstep
    have hfiles := step_fileCount hstep
    rcases step_calls hstep with ⟨rfl, hcalls, hnow⟩ | ⟨⟨c, rfl⟩, hlt, hcalls⟩ | ⟨hnew, hcall, hcalls⟩
    · have hle : n'.world.bank.fileCount ≤ n.world.bank.fileCount := by
        rcases hfiles with hle | ⟨⟨c, hc⟩, -⟩
        · exact hle
        · cases hc
      rw [hnow, mul_add]
      omega
    · rw [step_now hstep nofun]
      omega
    · have hle : n'.world.bank.fileCount ≤ n.world.bank.fileCount := by
        rcases hfiles with hle | ⟨⟨c, hc⟩, -⟩
        · exact hle
        · exact absurd hc (hcall c)
      rw [step_now hstep hnew, hcalls]
      exact hle.trans hcount

/-! ## Single miners -/

/-- **Declared capacity is never exceeded.** -/
theorem declared_capacity (hn : Reached (fun _ _ => True) n) {miner : T.AccountId}
    {info : Sminer.MinerInfo T.AccountId} (hinfo : n.world.miner.minerItems.lookup miner = some info) :
    info.idleSpace + info.serviceSpace + info.lockSpace ≤ info.declarationSpace :=
  (hn.safe_any.sound.miners.of_lookup hinfo).capacity

/-- Capacities after a file has been stored and tagged: idle, service and locked space. -/
theorem declared_capacity_stored :
    ∃ (n : Node runtime) (info : Sminer.MinerInfo ℕ), Reached (fun _ _ => True) n ∧
      n.world.miner.minerItems.lookup (21 : ℕ) = some info ∧
      info.serviceSpace = fragmentSize ∧
      info.idleSpace + info.serviceSpace + info.lockSpace ≤ info.declarationSpace := by
  obtain ⟨n, hn, hcheck⟩ := exists_run storing
    (fun n => (n.world.miner.minerItems.lookup (21 : ℕ)).any fun info =>
      decide (info.serviceSpace = fragmentSize)) (by decide +kernel)
  obtain ⟨info, hinfo, hservice⟩ := (Option.any_eq_true _ _).mp hcheck
  exact ⟨n, info, hn, hinfo, of_decide_eq_true hservice, declared_capacity hn hinfo⟩

/-- The window of a miner covers the space that it stands for. -/
theorem Reached.window (hn : Reached ok n) {miner : T.AccountId}
    {info : Sminer.MinerInfo T.AccountId} {proof : SpaceProofInfo T.AccountId}
    (hinfo : n.world.miner.minerItems.lookup miner = some info)
    (hproof : info.spaceProofInfo = some proof) :
    proof.front ≤ proof.rear ∧
      info.idleSpace + n.world.miner.pending miner +
        fragmentSize * n.world.bank.pledgedSegments miner ≤
          idleSegSize * (proof.rear - proof.front) := by
  have hsound := hn.safe_any.sound.miners.of_lookup hinfo
  rw [← FileBank.books_pledged]
  exact hsound.window proof hproof

/-- A snapshot has the window of a record. -/
theorem Reached.snapshot_window (hn : Reached ok n) :
    ∀ miner info, n.world.book.challenges.lookup miner = some info →
      info.minerSnapshot.spaceProofInfo.front ≤ info.minerSnapshot.spaceProofInfo.rear := by
  refine Runs.Reach.inv (P := fun n => ∀ miner info,
    n.world.book.challenges.lookup miner = some info →
      info.minerSnapshot.spaceProofInfo.front ≤ info.minerSnapshot.spaceProofInfo.rear) ?_ ?_ hn
  · intro n hstart miner info hinfo
    rw [hstart.book] at hinfo
    cases hinfo
  · intro n a n' hn hwindow _ hstep miner info' hinfo'
    cases step_challenge hstep hinfo' with
    | new _ _ hnew =>
      obtain ⟨record, hrecord, hproof⟩ := hnew.proof
      exact (Reached.window hn hrecord hproof).1
    | same _ hinfo hsame _ =>
      rw [hsame.minerSnapshot]
      exact hwindow miner _ hinfo
    | handed _ hinfo hinfo' =>
      subst hinfo'
      have hle := hwindow miner _ hinfo
      exact hle

/-- **Idle-file window soundness.**  The window of idle files of every miner covers its idle
space, the space still to be replaced and what it has promised to pending deals; and the checked
difference on a snapshot in the audit does not fail. -/
theorem idle_window (hn : Reached (fun _ _ => True) n) :
    (∀ miner info proof, n.world.miner.minerItems.lookup miner = some info →
      info.spaceProofInfo = some proof → proof.front ≤ proof.rear ∧
        info.idleSpace + (n.world.miner.pendingReplacements.lookup miner).getD 0 +
          fragmentSize * n.world.bank.pledgedSegments miner ≤
            idleSegSize * (proof.rear - proof.front)) ∧
    ∀ miner info, n.world.audit.challengeSnapShot.lookup miner = some info →
      checkedSub info.minerSnapshot.spaceProofInfo.rear
        info.minerSnapshot.spaceProofInfo.front ≠ none := by
  constructor
  · exact fun miner info proof hinfo hproof => Reached.window hn hinfo hproof
  · intro miner info hinfo hnone
    have hle := Reached.snapshot_window hn miner info hinfo
    unfold checkedSub at hnone
    rw [if_pos hle] at hnone
    cases hnone

/-- A deal is half reported: each of the miners has promised a segment. -/
theorem idle_window_pledged :
    ∃ n : Node runtime, Reached (fun _ _ => True) n ∧
      n.world.bank.pledgedSegments (21 : ℕ) = 1 ∧
      ∀ miner info proof, n.world.miner.minerItems.lookup miner = some info →
        info.spaceProofInfo = some proof → proof.front ≤ proof.rear ∧
          info.idleSpace + (n.world.miner.pendingReplacements.lookup miner).getD 0 +
            fragmentSize * n.world.bank.pledgedSegments miner ≤
              idleSegSize * (proof.rear - proof.front) := by
  obtain ⟨n, hn, hpledged⟩ := exists_run (minersAtWork ++ declaring ++ reporting 6)
    (fun n => decide (n.world.bank.pledgedSegments (21 : ℕ) = 1)) (by decide +kernel)
  exact ⟨n, hn, of_decide_eq_true hpledged, (idle_window hn).1⟩

/-- The counters of a filter are not exceeded. -/
theorem Reached.taggedBits_lt (hn : Reached ok n)
    (hcalls : fragmentCount * T.segmentCount * T.maxCalls < 2 ^ 32) (miner : T.AccountId)
    (i : Fin 256) : n.world.bank.taggedBits miner i < 2 ^ 64 := by
  have hnow := Reached.now_lt hn
  have hfiles := Reached.fileCount hn
  have hcount : n.world.bank.fileCount ≤ T.maxCalls * 2 ^ 32 := by
    have hmul : T.maxCalls * (n.world.now + 1) ≤ T.maxCalls * 2 ^ 32 := Nat.mul_le_mul_left _ hnow
    rw [mul_add] at hmul
    omega
  calc n.world.bank.taggedBits miner i
      ≤ n.world.bank.fileCount * (T.segmentCount * fragmentCount) :=
        n.world.bank.taggedBits_le miner i
    _ ≤ T.maxCalls * 2 ^ 32 * (T.segmentCount * fragmentCount) := Nat.mul_le_mul_right _ hcount
    _ = 2 ^ 32 * (fragmentCount * T.segmentCount * T.maxCalls) := by ring
    _ < 2 ^ 32 * 2 ^ 32 := (Nat.mul_lt_mul_left (by norm_num)).mpr hcalls

/-- **Miner service accounting matches the files.**  The service space of a miner that has not
left is that of its fragments with a tag, and every counter of its filter is the sum of a bit of
their hashes.  So whatever part of them is in a single file can be taken off both. -/
theorem service_account (hn : Reached (fun _ _ => True) n)
    (hcalls : fragmentCount * T.segmentCount * T.maxCalls < 2 ^ 32) {miner : T.AccountId}
    {info : Sminer.MinerInfo T.AccountId} (hinfo : n.world.miner.minerItems.lookup miner = some info)
    (htarget : n.world.miner.restoralTarget.lookup miner = none) :
    info.serviceSpace = fragmentSize * n.world.bank.taggedCount miner ∧
    (∀ i, (info.serviceBloomFilter i).toNat = n.world.bank.taggedBits miner i) ∧
    ∀ fileHash file, n.world.bank.file.lookup fileHash = some file →
      fragmentSize * (file.taggedOf miner).length ≤ info.serviceSpace ∧
      ∀ i, ((file.taggedOf miner).map (·.bit i)).sum ≤ (info.serviceBloomFilter i).toNat := by
  have hsound := hn.safe_any.sound.miners.of_lookup hinfo
  have hservice : info.serviceSpace = fragmentSize * n.world.bank.taggedCount miner := by
    rw [← FileBank.books_tagged]
    exact hsound.service htarget
  have hfilter : ∀ i, (info.serviceBloomFilter i).toNat = n.world.bank.taggedBits miner i := by
    intro i
    rw [hsound.filter htarget i, FileBank.books_bit]
    exact Nat.mod_eq_of_lt (Reached.taggedBits_lt hn hcalls miner i)
  refine ⟨hservice, hfilter, fun fileHash file hfile => ⟨?_, fun i => ?_⟩⟩
  · rw [hservice]
    exact Nat.mul_le_mul_left _ (le_total (fun _ file => (file.taggedOf miner).length) hfile)
  · rw [hfilter]
    exact le_total (fun _ file => ((file.taggedOf miner).map (·.bit i)).sum) hfile

/-- A file is stored, and a miner has a tag for its fragment. -/
theorem service_account_stored :
    ∃ (n : Node runtime) (info : Sminer.MinerInfo ℕ), Reached (fun _ _ => True) n ∧
      n.world.bank.taggedCount (21 : ℕ) = 1 ∧
      n.world.miner.minerItems.lookup (21 : ℕ) = some info ∧
      info.serviceSpace = fragmentSize * n.world.bank.taggedCount (21 : ℕ) ∧
      ∀ i, (info.serviceBloomFilter i).toNat = n.world.bank.taggedBits (21 : ℕ) i := by
  obtain ⟨n, hn, hcheck⟩ := exists_run storing
    (fun n => decide (n.world.bank.taggedCount (21 : ℕ) = 1) &&
      decide (n.world.miner.restoralTarget.lookup (21 : ℕ) = none) &&
      (n.world.miner.minerItems.lookup (21 : ℕ)).isSome) (by decide +kernel)
  simp only [Bool.and_eq_true, decide_eq_true_eq, Option.isSome_iff_exists] at hcheck
  obtain ⟨⟨htagged, htarget⟩, info, hinfo⟩ := hcheck
  have haccount := service_account hn (by decide) hinfo htarget
  exact ⟨n, info, hn, htagged, hinfo, haccount.1, haccount.2.1⟩

end Chain
