/-
# The space in service is exact

`TotalServiceSpace` is raised in one place, when the last report of a deal turns it into a
file, by a size computed from the number of segments; and it is lowered in one place, when the
last owner of a file goes, by the number of fragments found in the file.  The two agree because
a deal is only accepted with the full number of fragments in every segment, and because no
other change of a file adds or removes a fragment.

* `World.Counted` : the invariant.  The counter is the size of all fragments of all files, the
  deals are of the form that `check_file_spec` asks for, and no hash has both a file and a deal;
* `World.Counted.replaceFile` : a change of a file that leaves the number of its fragments alone
  keeps it;
* `World.Preserves` : the invariant is kept, whether the code succeeds or not.  The removal of a
  file together with its share of the counter does so (`keeps_removeFileLastOwner`), also where it
  stops with an error inside the block hook, which has no storage layer of its own.

The two calls that make a deal or turn one into a file break the invariant in between; for
them a run that succeeds restores it.
-/
import CessNode.FileBankSpec
import CessNode.FileBankRuntime

open Dispatch StorageMap

namespace FileBank

variable {T : Config}
variable {file : FileInfo T} {deal : DealInfo T} {u : Unit} {index : ℕ} {sender : T.AccountId}

/-! ## The invariant -/

/-- The number of fragments of all files. -/
def World.fragmentTotal (w : World T) : ℕ := w.file.total fun _ file => file.fragments.length

/-- The counter of the space in service agrees with the files, and the deals are such that it
will agree with the files they become. -/
structure World.Counted (w : World T) : Prop where
  service : w.storage.totalServiceSpace = fragmentSize * w.fragmentTotal
  spec : ∀ fileHash deal, w.dealMap.lookup fileHash = some deal →
    checkFileSpec deal.segmentList = true
  apart : ∀ fileHash, fileHash ∈ w.file → fileHash ∉ w.dealMap

/-- The storage with another value of the counter. -/
def World.withService (w : World T) (total : ℕ) : World T :=
  { w with storage := { w.storage with totalServiceSpace := total } }

variable {w w' : World T} {fileHash : Hash}

section Counted

variable (hw : w.Counted)
include hw

theorem World.Counted.sameFiles (h : w.SameFiles w') : w'.Counted := by
  have htotal : w'.fragmentTotal = w.fragmentTotal := by
    unfold World.fragmentTotal
    rw [h.file]
  constructor
  · rw [h.service, htotal]
    exact hw.service
  · rw [h.dealMap]
    exact hw.spec
  · rw [h.file, h.dealMap]
    exact hw.apart

/-- A file may be replaced by one with the same number of fragments. -/
theorem World.Counted.replaceFile {file' : FileInfo T} (hfile : w.file.lookup fileHash = some file)
    (hlen : file'.fragments.length = file.fragments.length) :
    ({ w with file := w.file.insert fileHash file' } : World T).Counted := by
  constructor
  · have hexchange := total_insert_over file' (fun _ f => f.fragments.length) hfile
    have htotal : total (w.file.insert fileHash file') (fun _ f => f.fragments.length) =
        w.fragmentTotal := by
      unfold World.fragmentTotal
      omega
    exact hw.service.trans (congrArg (fragmentSize * ·) htotal.symm)
  · exact hw.spec
  · intro fileHash' hmem
    rcases (AList.mem_insert _).mp hmem with rfl | hmem
    · exact hw.apart _ (mem_iff_exists_lookup.mpr ⟨file, hfile⟩)
    · exact hw.apart _ hmem

theorem World.Counted.retouched (h : w.Retouched w') : w'.Counted := by
  rcases h.file with hfile | ⟨fileHash, file, file', hlookup, halike, hfile⟩
  · exact hw.sameFiles ⟨h.storage.outside.totalServiceSpace, hfile, h.dealMap⟩
  · exact (hw.replaceFile hlookup halike.length_eq).sameFiles
      ⟨h.storage.outside.totalServiceSpace, hfile, h.dealMap⟩

/-- A stored file is part of the counter. -/
theorem World.Counted.le_service (hfile : w.file.lookup fileHash = some file) :
    fragmentSize * file.fragments.length ≤ w.storage.totalServiceSpace := by
  have hle : file.fragments.length ≤ w.fragmentTotal :=
    le_total (fun _ f => f.fragments.length) hfile
  rw [hw.service]
  exact Nat.mul_le_mul_left fragmentSize hle

/-- A file goes together with its share of the counter. -/
theorem World.Counted.eraseFile (hfile : w.file.lookup fileHash = some file) :
    ({ w.withService (w.storage.totalServiceSpace - fragmentSize * file.fragments.length) with
       file := w.file.erase fileHash } : World T).Counted := by
  constructor
  · have herase : total (w.file.erase fileHash) (fun _ f => f.fragments.length) +
        file.fragments.length = w.fragmentTotal :=
      total_erase (fun _ f => f.fragments.length) hfile
    show w.storage.totalServiceSpace - fragmentSize * file.fragments.length =
      fragmentSize * total (w.file.erase fileHash) (fun _ f => f.fragments.length)
    rw [hw.service, ← herase, mul_add]
    omega
  · exact hw.spec
  · intro fileHash' hmem
    exact hw.apart _ (AList.mem_erase.mp hmem).2

/-- A deal of the right form may be made for a hash that has no file. -/
theorem World.Counted.insertDeal (hfile : fileHash ∉ w.file)
    (hspec : checkFileSpec deal.segmentList = true) :
    ({ w with dealMap := w.dealMap.insert fileHash deal } : World T).Counted := by
  constructor
  · exact hw.service
  · exact forall_insert hw.spec hspec
  · intro fileHash' hmem hdeal
    rcases (AList.mem_insert _).mp hdeal with rfl | hdeal
    · exact hfile hmem
    · exact hw.apart _ hmem hdeal

theorem World.Counted.eraseDeal (fileHash : Hash) :
    ({ w with dealMap := w.dealMap.erase fileHash } : World T).Counted := by
  constructor
  · exact hw.service
  · intro fileHash' deal hdeal
    exact hw.spec _ _ (lookup_of_erase hdeal)
  · intro fileHash' hmem hdeal
    exact hw.apart _ hmem (AList.mem_erase.mp hdeal).2

end Counted

/-! ## Code that keeps the invariant -/

/-- The invariant is kept. -/
def World.Preserves (w w' : World T) : Prop := w.Counted → w'.Counted

instance : Std.Refl (World.Preserves (T := T)) where
  refl _ := id

instance : IsTrans (World T) World.Preserves where
  trans _ _ _ h h' := h' ∘ h

theorem World.SameFiles.preserves (h : w.SameFiles w') : w.Preserves w' := fun hw =>
  hw.sameFiles h

theorem Keeps.preserves {α : Type} {x : PalletM T α} (hx : Keeps World.SameFiles x) :
    Keeps World.Preserves x :=
  hx.mono fun _ _ => World.SameFiles.preserves

theorem Keeps.counted {α : Type} {x : PalletM T α} (hx : Keeps World.Retouched x) :
    Keeps World.Preserves x :=
  hx.mono fun _ _ h hw => hw.retouched h

/-! ## Removal of a file -/

theorem keeps_releaseFile (fileHash : Hash) (acc : T.AccountId) (userClear : Bool) :
    Keeps World.SameFiles (releaseFile T fileHash acc userClear) :=
  keeps_releaseFile_of (fun _ _ => ⟨rfl, rfl, rfl⟩) (fun _ _ =>
    Keeps.sameFiles (keeps_liftLocks (StorageHandler.keeps_subTerritoryUsedSpace _ _ _))) _ _

/-- What has been released when the counter is lowered are the fragments of the stored file. -/
theorem releaseFile_ok {acc : T.AccountId} {userClear : Bool} {totalFragmentDec : ℕ}
    (h : (releaseFile T fileHash acc userClear).run w = .ok totalFragmentDec w') :
    ∃ file, w.file.lookup fileHash = some file ∧ totalFragmentDec = file.fragments.length := by
  simp only [releaseFile, run_ok, run_ite_ok, existsAndEq] at h
  obtain ⟨file, hfile, _, _, -, ⟨-, hrefund⟩ | ⟨-, rfl, -⟩⟩ := h
  · refine ⟨file, hfile, ?_⟩
    split at hrefund
    · simp only [run_bind_ok] at hrefund
      obtain ⟨_, _, -, rfl, -⟩ := hrefund
      rfl
    · exact (run_pure_ok.mp hrefund).1.symm
  · exact ⟨file, hfile, rfl⟩

/-- The counter covers every file that can be released. -/
theorem World.Counted.le_of_releaseFile (hw : w.Counted) {acc : T.AccountId} {userClear : Bool}
    {totalFragmentDec : ℕ}
    (h : (releaseFile T fileHash acc userClear).run w = .ok totalFragmentDec w') :
    fragmentSize * totalFragmentDec ≤ w'.storage.totalServiceSpace := by
  obtain ⟨file, hfile, rfl⟩ := releaseFile_ok h
  have hsame := (keeps_releaseFile fileHash acc userClear).run_ok h
  rw [hsame.service]
  exact hw.le_service hfile

/-- A subtraction that the counter covers succeeds. -/
theorem run_subService {decrement : ℕ} (h : decrement ≤ w.storage.totalServiceSpace) :
    (liftStorage T (StorageHandler.subTotalServiceSpace T.toConfig decrement)).run w =
      .ok () (w.withService (w.storage.totalServiceSpace - decrement)) :=
  run_zoom_ok.mpr ⟨_, StorageHandler.run_subTotalServiceSpace_ok.mpr ⟨h, rfl⟩, rfl⟩

/-- **A removal keeps the count**, whether it gets to its end or not. -/
theorem keeps_removeFileLastOwner (fileHash : Hash) (acc : T.AccountId) (userClear : Bool) :
    Keeps World.Preserves (removeFileLastOwner T fileHash acc userClear) := by
  intro w hw
  have hsame := keeps_releaseFile fileHash acc userClear w
  cases hrun : (releaseFile T fileHash acc userClear).run w with
  | error e w₁ =>
    unfold removeFileLastOwner
    rw [after_bind, hrun]
    unfold after at hsame
    rw [hrun] at hsame
    exact hw.sameFiles hsame
  | ok totalFragmentDec w₁ =>
    -- the counter covers the file, so the subtraction succeeds and the file goes
    rw [after_of_ok hrun] at hsame
    have hle := hw.le_of_releaseFile hrun
    obtain ⟨file, hfile, rfl⟩ := releaseFile_ok hrun
    have hdone : (removeFileLastOwner T fileHash acc userClear).run w = .ok () _ :=
      run_bind_ok.mpr ⟨_, _, hrun, run_bind_ok.mpr ⟨(), _, run_subService hle,
        run_modify_ok.mpr rfl⟩⟩
    have hfile₁ : w₁.file.lookup fileHash = some file := by rw [hsame.file, hfile]
    rw [after_of_ok hdone]
    exact (hw.sameFiles hsame).eraseFile hfile₁

theorem keeps_deleteUserFile (fileHash : Hash) (acc : T.AccountId) (file : FileInfo T) :
    Keeps World.Preserves (deleteUserFile T fileHash acc file) := by
  refine keeps_forM fun brief _ => ?_
  split_ifs
  · exact Keeps.counted (keeps_removeFileOwner _ _ _)
  · exact keeps_removeFileLastOwner _ _ _
  · exact keeps_pure _

theorem keeps_deleteFile (sender owner : T.AccountId) (fileHash : Hash) :
    Keeps World.Preserves (deleteFile T sender owner fileHash) := by
  refine keeps_get_bind fun w => keeps_ensure_bind ?_
  refine keeps_okOr_bind fun file => keeps_bind (keeps_deleteUserFile _ _ _) fun _ => ?_
  refine keeps_bind (Keeps.preserves (Keeps.sameFiles (keeps_bucketRemoveFile _ _ _))) fun _ => ?_
  refine keeps_bind (Keeps.preserves (Keeps.sameFiles (keeps_removeUserHoldFileList _ _))) fun _ => ?_
  exact Keeps.preserves (Keeps.sameFiles (keeps_depositEvent _))

/-! ## The block hook -/

theorem keeps_clearFile (acc : T.AccountId) (fileHash : Hash) :
    Keeps World.Preserves (clearFile T acc fileHash) :=
  keeps_clearFile_of (Keeps.counted (keeps_removeFileOwner _ _ _)) (keeps_removeFileLastOwner _ _ _)
    fun _ => Keeps.preserves (Keeps.sameFiles (keeps_bucketRemoveFile _ _ _))

/-- The hook keeps the count although nothing undoes the deletions that fail in it. -/
theorem keeps_onInitialize : Keeps World.Preserves (onInitialize T) := by
  refine keeps_bind (Keeps.preserves (keeps_liftTerritory StorageHandler.keeps_frozenTask))
    fun clearList => ?_
  refine keeps_bind (Keeps.preserves (keeps_modify fun _ => ⟨rfl, rfl, rfl⟩)) fun _ => ?_
  refine keeps_clearUsers_of (fun _ _ => Keeps.preserves (Keeps.sameFiles (keeps_putHeld _ _))) ?_
    keeps_clearFile _ _
  exact fun _ => Keeps.preserves (keeps_modify fun _ => ⟨rfl, rfl, rfl⟩)

/-! ## Changes of single fragments -/

/-- The file made from a deal has the fragments of the deal. -/
theorem DealInfo.Makes.length_fragments (h : deal.Makes file) : file.fragments.length =
    (deal.segmentList.val.map fun segment => segment.fragmentList.val.length).sum := by
  rw [FileInfo.length_fragments]
  have hsame := List.rel_map (P := Eq) (R := fun b a => fileSegment T _ a = some b)
    (fun _ _ => fileSegment_length) (forall₂_of_mapM h.segments).flip
  rw [List.forall₂_eq_eq_eq] at hsame
  exact congrArg List.sum hsame

section Calls

variable (hw : w.Counted)
include hw

theorem World.Counted.calculateReport {teeSig : BoundedVec UInt8 64}
    {info : TagSigInfo T.AccountId T.WorkerPublicKey}
    (h : (calculateReport T sender teeSig info).run w = .ok u w') : w'.Counted := by
  obtain ⟨file, hashList, s₁, s₂, outside, events, hfile, -, -, -, rfl⟩ := calculateReport_run h
  exact (hw.replaceFile hfile (FileInfo.length_mapFragments _ _)).sameFiles ⟨rfl, rfl, rfl⟩

theorem World.Counted.restoralOrderComplete {fragmentHash : Hash}
    (h : (restoralOrderComplete T sender fragmentHash).run w = .ok u w') : w'.Counted := by
  obtain ⟨order, info, w₁, events, -, -, -, rfl, ⟨-, rfl⟩ | ⟨file, hfile, ⟨-, rfl⟩ | ⟨fragment, s,
    hfind, -, -, rfl⟩⟩⟩ := restoralOrderComplete_run h
  · exact hw.sameFiles ⟨rfl, rfl, rfl⟩
  · exact (hw.replaceFile hfile rfl).sameFiles ⟨rfl, rfl, rfl⟩
  · obtain ⟨l₁, l₂, -, hl, hmodify⟩ := FileInfo.fragments_modifyFirst hfind
      fun f => { f with tag := some w.now, avail := true, miner := sender }
    refine (hw.replaceFile hfile ?_).sameFiles ⟨rfl, rfl, rfl⟩
    rw [hl, hmodify, List.length_append, List.length_append, List.length_cons, List.length_cons]

/-! ## From a deal to a file -/

/-- **A completed deal keeps the count**: the file that is added has just the fragments that
its size stands for, since its deal had the full number in every segment. -/
theorem World.Counted.completeDeal (hdeal : w.dealMap.lookup fileHash = some deal)
    (h : (completeDeal T fileHash deal).run w = .ok u w') : w'.Counted := by
  obtain ⟨s, file, t, held, bucket, buckets, events, -, -, hmakes, -, -, -, -, rfl⟩ :=
    completeDeal_run h
  have hnew : w.file.lookup fileHash = none := by
    rw [AList.lookup_eq_none]
    intro hmem
    exact hw.apart _ hmem (mem_iff_exists_lookup.mpr ⟨deal, hdeal⟩)
  have hsize : file.fragments.length = fragmentCount * deal.segmentList.val.length :=
    hmakes.length_fragments.trans (sum_of_checkFileSpec (hw.spec _ _ hdeal))
  constructor
  · have htotal := total_insert_new file (fun _ f => f.fragments.length) hnew
    show w.storage.totalServiceSpace + deal.size =
      fragmentSize * total (w.file.insert fileHash file) fun _ f => f.fragments.length
    rw [htotal, hw.service, DealInfo.size, calFileSize_eq, ← hsize, mul_add]
    rfl
  · exact (hw.eraseDeal fileHash).spec
  · intro fileHash' hmem hmem'
    obtain ⟨hne, hmem'⟩ := AList.mem_erase.mp hmem'
    rcases (AList.mem_insert _).mp hmem with heq | hmem
    · exact hne heq
    · exact hw.apart _ hmem hmem'

/-- A deal with one report more. -/
theorem World.Counted.report {deal' : DealInfo T} (hdeal : w.dealMap.lookup fileHash = some deal)
    (hreport : deal.Reports deal' sender index) (s : Sminer.World T.AccountId) : ({ w with
      miner := s
      dealMap := w.dealMap.insert fileHash deal' } : World T).Counted := by
  have hfile : fileHash ∉ w.file := fun hmem =>
    hw.apart _ hmem (mem_iff_exists_lookup.mpr ⟨deal, hdeal⟩)
  have hspec : checkFileSpec deal'.segmentList = true := by
    rw [hreport.segmentList]
    exact hw.spec _ _ hdeal
  exact (hw.insertDeal hfile hspec).sameFiles ⟨rfl, rfl, rfl⟩

theorem World.Counted.transferReport (h : (transferReport T sender index fileHash).run w = .ok u w') :
    w'.Counted := by
  obtain ⟨-, deal, info, hdeal, -, -, ⟨-, s, -, rfl⟩ | ⟨deal', s, w₁, events, hreport, -, rfl,
    hrest⟩⟩ := transferReport_run h
  · exact (hw.eraseDeal fileHash).sameFiles ⟨rfl, rfl, rfl⟩
  · have hw' := hw.report hdeal hreport s
    rcases hrest with ⟨-, rfl⟩ | hcomplete
    · exact hw'.sameFiles ⟨rfl, rfl, rfl⟩
    · exact (hw'.completeDeal (AList.lookup_insert _) hcomplete).sameFiles ⟨rfl, rfl, rfl⟩

theorem World.Counted.uploadDeclaration {dealInfo : BoundedVec SegmentList T.segmentCount}
    {userBrief : UserBrief T} {fileSize : ℕ}
    (h : (uploadDeclaration T sender fileHash dealInfo userBrief fileSize).run w = .ok u w') :
    w'.Counted := by
  rcases uploadDeclaration_run h with ⟨w₁, events, hfly, rfl⟩ | ⟨hfile, hspec, t, events, -, -, rfl⟩
  · exact (hw.retouched (flyUploadFile_ok hfly)).sameFiles ⟨rfl, rfl, rfl⟩
  · exact (hw.insertDeal hfile hspec).sameFiles ⟨rfl, rfl, rfl⟩

end Calls

/-! ## Runs -/

theorem Call.code_counted (call : Call T) (hw : w.Counted) (h : (call.code T).run w = .ok u w') :
    w'.Counted := by
  cases call with
  | uploadDeclaration =>
    exact hw.uploadDeclaration h
  | territoryFileDelivery =>
    exact hw.sameFiles ((keeps_territoryFileDelivery _ _ _ _).run_ok h).sameFiles
  | transferReport => exact hw.transferReport h
  | calculateReport => exact hw.calculateReport h
  | replaceIdleSpace =>
    obtain ⟨signature, count, s₁, s₂, outside, events, -, -, rfl⟩ := replaceIdleSpace_run h
    exact hw.sameFiles ⟨rfl, rfl, rfl⟩
  | deleteFile => exact (keeps_deleteFile _ _ _).run_ok h hw
  | certIdleSpace =>
    obtain ⟨signature, space, s, outside, events, -, rfl⟩ := certIdleSpace_run h
    exact hw.sameFiles ⟨rfl, rfl, rfl⟩
  | createBucket => exact hw.sameFiles (createBucket_ok h).sameFiles
  | deleteBucket => exact hw.sameFiles (deleteBucket_ok h).sameFiles
  | generateRestoralOrder => exact hw.retouched (generateRestoralOrder_ok h)
  | claimRestoralOrder => exact hw.sameFiles (claimRestoralOrder_ok h).sameFiles
  | claimRestoralNoexistOrder => exact hw.retouched (claimRestoralNoexistOrder_ok h)
  | restoralOrderComplete => exact hw.restoralOrderComplete h

/-- Storage-handler by itself does not touch the space in service. -/
theorem step_storage_service {n n' : StorageHandler.Node T.toConfig}
    {a : StorageHandler.Action T.toConfig} (hdirect : direct a = true) (h : n.step a = some n') :
    n'.world.totalServiceSpace = n.world.totalServiceSpace := by
  cases a with
  | newBlock =>
    obtain ⟨-, -, rfl⟩ := StorageHandler.step_newBlock h
    rfl
  | serve name =>
    obtain ⟨block, task, -, -, -, -, hrun | hworld⟩ := StorageHandler.step_serve h
    · exact (StorageHandler.Call.code_frame (.execConsignment _ _) hrun).1.totalServiceSpace
    · rw [hworld]
  | frozenTask => cases hdirect
  | call c =>
    obtain ⟨-, -, hrun | hworld⟩ := StorageHandler.step_call h
    · exact (c.code_frame hrun).1.totalServiceSpace
    · rw [hworld]
  | handle op => cases hdirect
  | external =>
    obtain rfl := StorageHandler.step_external h
    rfl

/-- **The step lemma.** -/
theorem step_counted {n n' : Node T} {a : Action T} (hn : n.world.Counted)
    (h : n.step a = some n') : n'.world.Counted := by
  cases a with
  | storage action =>
    obtain ⟨hdirect, hstep, hworld⟩ := step_storage h
    have hservice := step_storage_service hdirect hstep
    rw [hworld]
    exact hn.sameFiles ⟨hservice, rfl, rfl⟩
  | onInitialize =>
    rw [step_onInitialize h]
    exact keeps_onInitialize _ hn
  | clearFile =>
    rw [step_clearFile h]
    exact keeps_clearFile _ _ _ hn
  | call c =>
    rcases step_call h with hrun | hworld
    · exact c.code_counted hn hrun
    · rw [hworld]
      exact hn
  | external =>
    obtain rfl := step_external h
    exact hn.sameFiles ⟨rfl, rfl, rfl⟩

theorem Reached.counted {n : Node T} (hn : Reached n) : n.world.Counted := by
  refine Runs.Reach.inv (P := fun n => n.world.Counted) ?_ ?_ hn
  · rintro n ⟨⟨ledger, agenda, price, hnode, -, -⟩, miner, outside, hworld⟩
    have hstorage : n.world.storage = StorageHandler.genesis T.toConfig ledger agenda price :=
      congrArg StorageHandler.Node.world hnode
    rw [hworld, hstorage]
    constructor
    · rfl
    · intro fileHash deal hdeal
      cases hdeal
    · intro fileHash hmem
      exact absurd hmem (AList.notMem_empty fileHash)
  · intro n a n' _ hcounted _ hstep
    exact step_counted hcounted hstep

/-- **The space in service is exact.**  In every reached storage the counter is the size of all
fragments in all segments of all files.  So wherever a removal gets to the point at which it
lowers the counter, from a storage with these files, deals and counter, it lowers it by no more
than there is; and no hash has both a file and a deal. -/
theorem totalServiceSpace_exact {n : Node T} (hn : Reached n) :
    (n.world.storage.totalServiceSpace = fragmentSize * n.world.file.total fun _ file =>
      (file.segmentList.val.map fun segment => segment.fragmentList.val.length).sum) ∧
    (∀ w, n.world.SameFiles w → ∀ fileHash acc userClear totalFragmentDec w',
      (releaseFile T fileHash acc userClear).run w = .ok totalFragmentDec w' →
      fragmentSize * totalFragmentDec ≤ w'.storage.totalServiceSpace) ∧
    ∀ fileHash, ¬ (fileHash ∈ n.world.file ∧ fileHash ∈ n.world.dealMap) := by
  have hcounted := hn.counted
  refine ⟨?_, ?_, ?_⟩
  · rw [hcounted.service]
    refine congrArg (fragmentSize * ·) (total_congr fun e _ => ?_)
    exact FileInfo.length_fragments e.2
  · intro w hsame fileHash acc userClear totalFragmentDec w' hrun
    exact (hcounted.sameFiles hsame).le_of_releaseFile hrun
  · rintro fileHash ⟨hfile, hdeal⟩
    exact hcounted.apart fileHash hfile hdeal

/-- A stored file of one segment takes 96 megabytes of service space. -/
theorem totalServiceSpace_exact_stored :
    ∃ n : Node runtime, Reached n ∧ n.world.storage.totalServiceSpace = 96 * mByte ∧
      n.world.storage.totalServiceSpace = fragmentSize * n.world.file.total fun _ file =>
        (file.segmentList.val.map fun segment => segment.fragmentList.val.length).sum := by
  have hrun : (Runs.exec Node.step start storedFile).any (fun n =>
      decide (n.world.storage.totalServiceSpace = 96 * mByte)) = true := by
    decide +kernel
  obtain ⟨n, hn, hcheck⟩ :=
    Runs.Reach.exists_of_exec start_reached (Runs.guarded_true storedFile start) hrun
  exact ⟨n, hn, of_decide_eq_true hcheck, (totalServiceSpace_exact hn).1⟩

end FileBank
