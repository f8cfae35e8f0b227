/-
# Files and the lists they stand in

What the file bank keeps about files, apart from space: the deals, the files, the list of files
that a user holds, the objects of the buckets, the restoral orders and the list of territories
to clear.  `World.shelf` is this part of the storage, as functions; buckets without objects and
buckets that do not exist are not told apart.

* one lemma for every function that touches it, `…_shelf`;
* `Call.Changes w c s` : what a call can do to it;
* `Call.code_changes` : every successful call does so;
* `keeps_onInitialize_of` : the rule for the block hook, whose loops clear file after file.
-/
import CessNode.ServiceSpace

open Dispatch StorageMap

namespace FileBank

open Function (update)

variable {T : Config}
variable {α : Type} {user sender : T.AccountId} {u : Unit} {brief : UserBrief T} {fileSize : ℕ}
  {file : FileInfo T} {deal : DealInfo T} {restoralFragment : Hash}

/-! ## The shelf -/

/-- What the pallet keeps about files. -/
@[ext]
structure Shelf (T : Config) where
  deal : Hash → Option (DealInfo T)
  file : Hash → Option (FileInfo T)
  held : T.AccountId → List UserFileSliceInfo
  objects : T.AccountId × NameStr T → List Hash
  order : Hash → Option (RestoralOrderInfo T)
  clear : List (T.AccountId × TerrName)

/-- The shelf of a storage. -/
def World.shelf (w : World T) : Shelf T where
  deal fileHash := w.dealMap.lookup fileHash
  file fileHash := w.file.lookup fileHash
  held user := (w.heldBy user).val
  objects key := ((w.bucket.lookup key).map fun bucket => bucket.objectList.val).getD []
  order fileHash := w.restoralOrder.lookup fileHash
  clear := w.clearUserList.val

/-- The shelf is the same. -/
def World.SameShelf (w w' : World T) : Prop := w'.shelf = w.shelf

instance : Std.Refl (World.SameShelf (T := T)) where
  refl _ := rfl

instance : IsTrans (World T) World.SameShelf where
  trans _ _ _ h h' := h'.trans h

variable {w w' : World T} {fileHash : Hash} {acc : T.AccountId}

/-! ### Writing to the storage -/

theorem shelf_putDeal (w : World T) (fileHash : Hash) (deal : DealInfo T) :
    ({ w with dealMap := w.dealMap.insert fileHash deal } : World T).shelf =
      { w.shelf with deal := update w.shelf.deal fileHash (some deal) } := by
  apply Shelf.ext <;> first | rfl | exact lookup_insert_update _ _ _

theorem shelf_dropDeal (w : World T) (fileHash : Hash) :
    ({ w with dealMap := w.dealMap.erase fileHash } : World T).shelf =
      { w.shelf with deal := update w.shelf.deal fileHash none } := by
  apply Shelf.ext <;> first | rfl | exact lookup_erase_update _ _

theorem shelf_putFile (w : World T) (fileHash : Hash) (file : FileInfo T) :
    ({ w with file := w.file.insert fileHash file } : World T).shelf =
      { w.shelf with file := update w.shelf.file fileHash (some file) } := by
  apply Shelf.ext <;> first | rfl | exact lookup_insert_update _ _ _

theorem shelf_dropFile (w : World T) (fileHash : Hash) :
    ({ w with file := w.file.erase fileHash } : World T).shelf =
      { w.shelf with file := update w.shelf.file fileHash none } := by
  apply Shelf.ext <;> first | rfl | exact lookup_erase_update _ _

theorem shelf_putOrder (w : World T) (fragmentHash : Hash) (order : RestoralOrderInfo T) :
    ({ w with restoralOrder := w.restoralOrder.insert fragmentHash order } : World T).shelf =
      { w.shelf with order := update w.shelf.order fragmentHash (some order) } := by
  apply Shelf.ext <;> first | rfl | exact lookup_insert_update _ _ _

theorem shelf_dropOrder (w : World T) (fragmentHash : Hash) :
    ({ w with restoralOrder := w.restoralOrder.erase fragmentHash } : World T).shelf =
      { w.shelf with order := update w.shelf.order fragmentHash none } := by
  apply Shelf.ext <;> first | rfl | exact lookup_erase_update _ _

theorem shelf_putFileOrder (w : World T) (fileHash fragmentHash : Hash) (file : FileInfo T)
    (order : RestoralOrderInfo T) :
    ({ w with
       file := w.file.insert fileHash file
       restoralOrder := w.restoralOrder.insert fragmentHash order } : World T).shelf =
      { w.shelf with
        file := update w.shelf.file fileHash (some file)
        order := update w.shelf.order fragmentHash (some order) } := by
  apply Shelf.ext <;> first | rfl | exact lookup_insert_update _ _ _

theorem shelf_putFileDropOrder (w : World T) (fileHash fragmentHash : Hash) (file : FileInfo T) :
    ({ w with
       file := w.file.insert fileHash file
       restoralOrder := w.restoralOrder.erase fragmentHash } : World T).shelf =
      { w.shelf with
        file := update w.shelf.file fileHash (some file)
        order := update w.shelf.order fragmentHash none } := by
  apply Shelf.ext <;> first
    | rfl
    | exact lookup_insert_update _ _ _
    | exact lookup_erase_update _ _

theorem shelf_putHeld (w : World T) (user : T.AccountId)
    (list : BoundedVec UserFileSliceInfo T.userFileLimit) :
    ({ w with userHoldFileList := w.userHoldFileList.insert user list } : World T).shelf =
      { w.shelf with held := update w.shelf.held user list.val } := by
  apply Shelf.ext <;> try rfl
  funext user'
  show ((((w.userHoldFileList.insert user list).lookup user').getD BoundedVec.empty)).val =
    update w.shelf.held user list.val user'
  rw [lookup_insert_ite, Function.update_apply]
  split_ifs <;> rfl

theorem shelf_putBucket (w : World T) (key : T.AccountId × NameStr T) (bucket : BucketInfo T) :
    ({ w with bucket := w.bucket.insert key bucket } : World T).shelf =
      { w.shelf with
        objects := update w.shelf.objects key bucket.objectList.val } := by
  apply Shelf.ext <;> try rfl
  funext key'
  show (((w.bucket.insert key bucket).lookup key').map _).getD [] =
    update w.shelf.objects key bucket.objectList.val key'
  rw [lookup_insert_ite, Function.update_apply]
  split_ifs <;> rfl

/-- A bucket without objects may go. -/
theorem shelf_dropBucket {key : T.AccountId × NameStr T} (h : w.shelf.objects key = []) :
    ({ w with bucket := w.bucket.erase key } : World T).shelf = w.shelf := by
  apply Shelf.ext <;> try rfl
  funext key'
  show (((w.bucket.erase key).lookup key').map _).getD [] = w.shelf.objects key'
  rw [lookup_erase_ite]
  split_ifs with hkey
  · rw [hkey, h]
    rfl
  · rfl

theorem shelf_objects_of_lookup {key : T.AccountId × NameStr T} {bucket : BucketInfo T}
    (h : w.bucket.lookup key = some bucket) : w.shelf.objects key = bucket.objectList.val := by
  show ((w.bucket.lookup key).map _).getD [] = _
  rw [h]
  rfl

/-! ## Functions that leave the shelf alone -/

theorem sameShelf_liftStorage (x : StorageHandler.PalletM T.toConfig α) :
    Keeps World.SameShelf (liftStorage T x) :=
  keeps_zoom (R := fun _ _ => True) (fun _ => trivial) fun _ _ _ => rfl

theorem sameShelf_releaseFile (fileHash : Hash) (acc : T.AccountId) (userClear : Bool) :
    Keeps World.SameShelf (releaseFile T fileHash acc userClear) :=
  keeps_releaseFile_of (fun _ _ => rfl) (fun _ _ => sameShelf_liftStorage _) _ _

/-! ## Buckets and held files -/

/-- The objects of the buckets without a file, in the buckets that an account names in some of
these briefs. -/
def Shelf.unlisted (s : Shelf T) (acc : T.AccountId) (fileHash : Hash) (briefs : List (UserBrief T))
    (key : T.AccountId × NameStr T) : List Hash :=
  if key.1 = acc ∧ ∃ brief ∈ briefs, brief.user = acc ∧ brief.bucketName = key.2 then
    (s.objects key).filter fun hash => hash ≠ fileHash
  else s.objects key

theorem Shelf.unlisted_cons (s : Shelf T) (brief : UserBrief T) (briefs : List (UserBrief T))
    (key : T.AccountId × NameStr T) :
    s.unlisted acc fileHash (brief :: briefs) key =
      { s with objects := s.unlisted acc fileHash [brief] }.unlisted acc fileHash briefs key := by
  have hcons : (∃ b ∈ brief :: briefs, b.user = acc ∧ b.bucketName = key.2) ↔
      (brief.user = acc ∧ brief.bucketName = key.2) ∨
        ∃ b ∈ briefs, b.user = acc ∧ b.bucketName = key.2 := by
    simp only [List.mem_cons, exists_eq_or_imp]
  have hone : (∃ b ∈ [brief], b.user = acc ∧ b.bucketName = key.2) ↔
      brief.user = acc ∧ brief.bucketName = key.2 := by simp
  unfold Shelf.unlisted
  simp only [hcons, hone]
  by_cases hacc : key.1 = acc
  · by_cases hfirst : brief.user = acc ∧ brief.bucketName = key.2
    · by_cases hrest : ∃ b ∈ briefs, b.user = acc ∧ b.bucketName = key.2
      · rw [if_pos ⟨hacc, .inl hfirst⟩, if_pos ⟨hacc, hrest⟩, if_pos ⟨hacc, hfirst⟩,
          List.filter_filter]
        exact List.filter_congr fun _ _ => (Bool.and_self _).symm
      · rw [if_pos ⟨hacc, .inl hfirst⟩, if_neg fun h => hrest h.2, if_pos ⟨hacc, hfirst⟩]
    · rw [if_neg fun h : _ ∧ _ => hfirst h.2]
      simp only [hfirst, false_or]
  · rw [if_neg fun h => hacc h.1, if_neg fun h => hacc h.1, if_neg fun h => hacc h.1]

theorem bucketRemoveFile_shelf (h : (bucketRemoveFile T fileHash acc file).run w = .ok u w') :
    w'.shelf = { w.shelf with objects := w.shelf.unlisted acc fileHash file.owner.val } := by
  unfold bucketRemoveFile at h
  generalize file.owner.val = briefs at h ⊢
  induction briefs generalizing w with
  | nil =>
    obtain ⟨-, rfl⟩ := run_pure_ok.mp h
    apply Shelf.ext <;> try rfl
    funext key
    exact (if_neg fun hkey => absurd hkey.2 (by simp)).symm
  | cons brief briefs ih =>
    obtain ⟨_, w₁, hround, hrest⟩ := run_bind_ok.mp h
    rw [ih hrest]
    have hfirst : w₁.shelf = { w.shelf with
        objects := w.shelf.unlisted acc fileHash [brief] } := by
      simp only [tryMutateBucket, run_ite_ok, run_tryMutate_ok, run_ok, existsAndEq,
        Prod.mk.injEq] at hround
      rcases hround with ⟨huser, bucket, hbucket, rfl⟩ | ⟨huser, rfl⟩
      · rw [shelf_putBucket]
        apply Shelf.ext <;> try rfl
        funext key
        show update w.shelf.objects (acc, brief.bucketName) _ key =
          w.shelf.unlisted acc fileHash [brief] key
        rw [Function.update_apply]
        unfold Shelf.unlisted
        by_cases hkey : key = (acc, brief.bucketName)
        · subst hkey
          rw [if_pos rfl, if_pos ⟨rfl, brief, List.mem_singleton_self _, huser, rfl⟩,
            shelf_objects_of_lookup hbucket]
          rfl
        · rw [if_neg hkey, if_neg]
          rintro ⟨hacc, brief', hmem, -, hname⟩
          obtain rfl := List.mem_singleton.mp hmem
          exact hkey (Prod.ext hacc hname.symm)
      · apply Shelf.ext <;> try rfl
        funext key
        refine (if_neg ?_).symm
        rintro ⟨-, brief', hmem, hacc, -⟩
        obtain rfl := List.mem_singleton.mp hmem
        exact huser hacc
    rw [hfirst]
    apply Shelf.ext <;> try rfl
    funext key
    exact (Shelf.unlisted_cons w.shelf brief briefs key).symm

/-! ## Deletion -/

/-- A change of a file that touches nothing else of the shelf. -/
theorem tryMutateFile_shelf {e : Error} {f : FileInfo T → PalletM T (FileInfo T)}
    (hf : ∀ file, Keeps World.SameShelf (f file))
    (h : (tryMutateFile T fileHash e f).run w = .ok u w') :
    ∃ file file' w₁, w.shelf.file fileHash = some file ∧ (f file).run w = .ok file' w₁ ∧
      w'.shelf = { w.shelf with
        file := update w.shelf.file fileHash (some file') } := by
  simp only [bank_ok] at h
  obtain ⟨file, hfile, file', w₁, hrun, rfl⟩ := h
  have hshelf : w₁.shelf = w.shelf := (hf file).run_ok hrun
  refine ⟨file, file', w₁, hfile, hrun, ?_⟩
  rw [shelf_putFile, hshelf]

/-- The file after one of its owners has been removed. -/
def FileInfo.trim (file : FileInfo T) (acc : T.AccountId) : FileInfo T :=
  { file with owner := file.owner.removeFirst fun brief => brief.user = acc }

theorem sameShelf_removeFileOwner (acc : T.AccountId) (userClear : Bool) (file : FileInfo T) :
    Keeps World.SameShelf (do
      match file.owner.val.find? fun brief => brief.user = acc with
      | some brief => do
        let fileSize := calFileSize file.segmentList.val.length
        if userClear then
          liftStorage T
            (StorageHandler.subTerritoryUsedSpace T.toConfig acc brief.territoryName fileSize)
        pure { file with owner := file.owner.removeFirst fun brief => brief.user = acc }
      | none => pure file : PalletM T (FileInfo T)) := by
  split
  · split_ifs
    · exact keeps_bind (sameShelf_liftStorage _) fun _ => keeps_pure _
    · exact keeps_pure _
  · exact keeps_pure _

theorem removeFileOwner_shelf {userClear : Bool}
    (h : (removeFileOwner T fileHash acc userClear).run w = .ok u w') :
    ∃ file, w.shelf.file fileHash = some file ∧ w'.shelf = { w.shelf with
      file := update w.shelf.file fileHash (some (file.trim acc)) } := by
  obtain ⟨file, file', w₁, hfile, hrun, hshelf⟩ :=
    tryMutateFile_shelf (sameShelf_removeFileOwner acc userClear) h
  refine ⟨file, hfile, ?_⟩
  have hfile' : file' = file.trim acc := by
    split at hrun
    · simp only [run_ite_ok, run_bind_ok] at hrun
      obtain ⟨-, _, _, -, rfl, -⟩ | ⟨-, rfl, -⟩ := hrun <;> rfl
    · next hnone =>
        obtain ⟨rfl, -⟩ := run_pure_ok.mp hrun
        have howner : (file.owner.removeFirst fun brief => brief.user = acc) = file.owner :=
          Subtype.ext (List.eraseP_of_forall_not (List.find?_eq_none.mp hnone))
        unfold FileInfo.trim
        rw [howner]
  rw [← hfile']
  exact hshelf

theorem removeFileLastOwner_shelf {userClear : Bool}
    (h : (removeFileLastOwner T fileHash acc userClear).run w = .ok u w') :
    w'.shelf = { w.shelf with file := update w.shelf.file fileHash none } := by
  simp only [removeFileLastOwner, run_bind_ok, run_modify_ok] at h
  obtain ⟨total, w₁, hrelease, _, w₂, hsub, rfl⟩ := h
  have h₁ : w₁.shelf = w.shelf := (sameShelf_releaseFile _ _ _).run_ok hrelease
  have h₂ : w₂.shelf = w₁.shelf := (sameShelf_liftStorage _).run_ok hsub
  rw [shelf_dropFile, h₂, h₁]

/-- Removing the first match as often as there are matches removes them all. -/
theorem iterate_eraseP (p : α → Bool) (l : List α) :
    (List.eraseP p)^[l.countP p] l = l.filter fun a => !p a := by
  have hcons : ∀ (a : α) (k : ℕ) (l : List α), p a = false →
      (List.eraseP p)^[k] (a :: l) = a :: (List.eraseP p)^[k] l := by
    intro a k
    induction k with
    | zero => exact fun l _ => rfl
    | succ k ih =>
      intro l ha
      rw [Function.iterate_succ_apply, List.eraseP_cons_of_neg (by simp [ha]), ih _ ha,
        Function.iterate_succ_apply]
  induction l with
  | nil => rfl
  | cons a l ih =>
    cases ha : p a with
    | true =>
      rw [List.countP_cons_of_pos ha, Function.iterate_succ_apply, List.eraseP_cons_of_pos ha, ih,
        List.filter_cons_of_neg (by simp [ha])]
    | false =>
      rw [List.countP_cons_of_neg (by simp [ha]), hcons a _ _ ha, ih,
        List.filter_cons_of_pos (by simp [ha])]

/-- The file after its deletion by an account, which is all of it if there is only one owner. -/
def FileInfo.without (file : FileInfo T) (acc : T.AccountId) : Option (FileInfo T) :=
  if file.owner.val.length ≤ 1 ∧ ∃ brief ∈ file.owner.val, brief.user = acc then none
  else some { file with owner := file.owner.retain fun brief => brief.user ≠ acc }

/-- A loop that removes an owner for every brief of an account. -/
theorem removeOwners_shelf {briefs : List (UserBrief T)}
    (hfile : w.shelf.file fileHash = some file)
    (h : (briefs.forM fun brief => if brief.user = acc then removeFileOwner T fileHash acc true
      else pure ()).run w = .ok u w') :
    ∃ file', file'.owner.val = (List.eraseP fun brief => decide (brief.user = acc))^[
        briefs.countP fun brief => decide (brief.user = acc)] file.owner.val ∧
      file' = { file with owner := file'.owner } ∧ w'.shelf = { w.shelf with
        file := update w.shelf.file fileHash (some file') } := by
  induction briefs generalizing w file with
  | nil =>
    obtain ⟨-, rfl⟩ := run_pure_ok.mp h
    refine ⟨file, rfl, rfl, ?_⟩
    rw [← hfile, Function.update_eq_self]
  | cons brief briefs ih =>
    obtain ⟨_, w₁, hround, hrest⟩ := run_bind_ok.mp h
    rcases run_ite_ok.mp hround with ⟨huser, hremove⟩ | ⟨huser, hskip⟩
    · obtain ⟨file₀, hfile₀, hshelf⟩ := removeFileOwner_shelf hremove
      obtain rfl := Option.mem_unique hfile hfile₀
      have hfile₁ : w₁.shelf.file fileHash = some (file.trim acc) := by
        rw [hshelf]
        exact Function.update_self _ _ _
      obtain ⟨file', howner, hsame, hshelf'⟩ := ih hfile₁ hrest
      refine ⟨file', ?_, hsame, ?_⟩
      · rw [List.countP_cons_of_pos (by simpa using huser)]
        exact howner
      · rw [hshelf', hshelf]
        exact congrArg (fun file => { w.shelf with file := file }) (Function.update_idem _ _ _)
    · obtain ⟨-, rfl⟩ := run_pure_ok.mp hskip
      rw [List.countP_cons_of_neg (by simpa using huser)]
      exact ih hfile hrest

theorem deleteUserFile_shelf (hfile : w.shelf.file fileHash = some file)
    (h : (deleteUserFile T fileHash acc file).run w = .ok u w') :
    w'.shelf = { w.shelf with
      file := update w.shelf.file fileHash (file.without acc) } := by
  unfold deleteUserFile at h
  by_cases hlen : file.owner.val.length > 1
  · simp only [if_pos hlen] at h
    obtain ⟨file', howner, hsame, hshelf⟩ := removeOwners_shelf hfile h
    rw [iterate_eraseP] at howner
    have hwithout : file.without acc = some file' := by
      unfold FileInfo.without
      rw [if_neg fun hone => absurd hone.1 (by omega), hsame]
      congr 2
      refine Subtype.ext ?_
      rw [howner]
      exact List.filter_congr fun brief _ => by simp
    rw [hwithout]
    exact hshelf
  · simp only [if_neg hlen] at h
    -- nobody else has the file
    have hkept : (∀ brief ∈ file.owner.val, brief.user ≠ acc) → file.without acc = some file := by
      intro hnone
      unfold FileInfo.without
      rw [if_neg fun h => h.2.elim fun brief hbrief => hnone brief hbrief.1 hbrief.2]
      have howner : (file.owner.retain fun brief => brief.user ≠ acc) = file.owner :=
        Subtype.ext (List.filter_eq_self.mpr fun brief hmem => decide_eq_true (hnone brief hmem))
      rw [howner]
    cases howners : file.owner.val with
    | nil =>
      rw [howners] at h hkept
      obtain ⟨-, rfl⟩ := run_pure_ok.mp h
      rw [hkept (by simp), ← hfile, Function.update_eq_self]
    | cons brief briefs =>
      obtain rfl : briefs = [] := by
        rw [howners, List.length_cons] at hlen
        exact List.eq_nil_of_length_eq_zero (by omega)
      rw [howners] at h hkept
      obtain ⟨_, w₁, hround, hrest⟩ := run_bind_ok.mp h
      obtain ⟨-, rfl⟩ := run_pure_ok.mp hrest
      rcases run_ite_ok.mp hround with ⟨huser, hlast⟩ | ⟨huser, hskip⟩
      · have hwithout : file.without acc = none :=
          if_pos ⟨by omega, brief, by simp [howners], huser⟩
        rw [hwithout]
        exact removeFileLastOwner_shelf hlast
      · obtain ⟨-, rfl⟩ := run_pure_ok.mp hskip
        rw [hkept (by simpa using huser), ← hfile, Function.update_eq_self]

theorem deleteFile_shelf {owner : T.AccountId}
    (h : (deleteFile T sender owner fileHash).run w = .ok u w') :
    ∃ file, w.shelf.file fileHash = some file ∧ w'.shelf = { w.shelf with
      file := update w.shelf.file fileHash (file.without owner)
      objects := w.shelf.unlisted owner fileHash file.owner.val
      held := update w.shelf.held owner
        ((w.shelf.held owner).filter fun slice => slice.fileHash ≠ fileHash) } := by
  simp only [FileBank.deleteFile, removeUserHoldFileList, run_ok, bank_ok, existsAndEq] at h
  obtain ⟨-, file, hfile, _, w₁, hdelete, _, w₂, hbucket, rfl⟩ := h
  have h₁ := deleteUserFile_shelf hfile hdelete
  have h₂ := bucketRemoveFile_shelf hbucket
  have h₃ := shelf_putHeld w₂ owner
    ((w₂.heldBy owner).retain fun slice => slice.fileHash ≠ fileHash)
  have hlist : ((w₂.heldBy owner).retain fun slice => slice.fileHash ≠ fileHash).val =
      (w.shelf.held owner).filter fun slice => slice.fileHash ≠ fileHash := by
    show (w₂.shelf.held owner).filter _ = _
    rw [h₂, h₁]
  refine ⟨file, hfile, h₃.trans ?_⟩
  rw [hlist, h₂, h₁]
  rfl

/-! ## What a call can do -/

/-- A file gets an owner: it stands in the owner's list and in the owner's bucket. -/
def Shelf.own (s : Shelf T) (brief : UserBrief T) (fileHash : Hash) (size : ℕ)
    (file : FileInfo T) : Shelf T :=
  { s with
    file := Function.update s.file fileHash (some file)
    held := Function.update s.held brief.user
      (s.held brief.user ++ [⟨brief.territoryName, fileHash, size⟩])
    objects := Function.update s.objects (brief.user, brief.bucketName)
      (s.objects (brief.user, brief.bucketName) ++ [fileHash]) }

/-- The first fragment of a hash that a miner holds. -/
def wanted (fragmentHash : Hash) (miner : T.AccountId) : FragmentInfo T → Bool :=
  fun f => f.hash = fragmentHash ∧ f.miner = miner

/-- What a successful call can do to the shelf. -/
inductive Call.Changes (w : World T) : Call T → Shelf T → Prop
  /-- Nothing. -/
  | aside (c : Call T) : Changes w c w.shelf
  /-- A stored file gets another owner. -/
  | fly {sender fileHash dealInfo brief fileSize file owner size}
      (hfile : w.shelf.file fileHash = some file) (howner : owner.val = file.owner.val ++ [brief]) :
      Changes w (.uploadDeclaration sender fileHash dealInfo brief fileSize)
        (w.shelf.own brief fileHash size { file with owner := owner })
  /-- A deal is put down, over the one that was there. -/
  | declare {sender fileHash dealInfo brief fileSize deal} (hfile : w.shelf.file fileHash = none)
      (hreports : deal.completeList.val = []) :
      Changes w (.uploadDeclaration sender fileHash dealInfo brief fileSize)
        { w.shelf with deal := Function.update w.shelf.deal fileHash (some deal) }
  /-- The held entries of a file go to another territory. -/
  | deliver {sender user fileHash target file} (hfile : w.shelf.file fileHash = some file)
      (howner : ∃ brief ∈ file.owner.val, brief.user = user) :
      Changes w (.territoryFileDelivery sender user fileHash target)
        { w.shelf with
          held := Function.update w.shelf.held user ((w.shelf.held user).map fun slice =>
            if slice.fileHash = fileHash then { slice with territoryName := target } else slice) }
  /-- A deal is dropped. -/
  | expire {sender index dealHash} :
      Changes w (.transferReport sender index dealHash)
        { w.shelf with deal := Function.update w.shelf.deal dealHash none }
  /-- A deal gets a report. -/
  | report {sender index dealHash deal deal'} (hdeal : w.shelf.deal dealHash = some deal)
      (hreport : deal.Reports deal' sender index) :
      Changes w (.transferReport sender index dealHash)
        { w.shelf with deal := Function.update w.shelf.deal dealHash (some deal') }
  /-- A deal gets its last report and becomes a file. -/
  | complete {sender index dealHash deal deal' file size}
      (hdeal : w.shelf.deal dealHash = some deal) (hreport : deal.Reports deal' sender index)
      (hmakes : deal'.Makes file) :
      Changes w (.transferReport sender index dealHash)
        { w.shelf.own deal.user dealHash size file with
          deal := Function.update w.shelf.deal dealHash none }
  /-- The fragments of a miner get their tags. -/
  | tag {sender teeSig info file} (hfile : w.shelf.file info.fileHash = some file) :
      Changes w (.calculateReport sender teeSig info)
        { w.shelf with
          file := Function.update w.shelf.file info.fileHash (some (file.mapFragments fun f =>
            if f.miner = sender ∧ f.tag = none then { f with tag := some w.now } else f)) }
  /-- A file is deleted by one of its owners. -/
  | delete {sender owner fileHash file} (hfile : w.shelf.file fileHash = some file) :
      Changes w (.deleteFile sender owner fileHash)
        { w.shelf with
          file := Function.update w.shelf.file fileHash (file.without owner)
          objects := w.shelf.unlisted owner fileHash file.owner.val
          held := Function.update w.shelf.held owner
            ((w.shelf.held owner).filter fun slice => slice.fileHash ≠ fileHash) }
  /-- A miner gives up a fragment. -/
  | order {sender fileHash fragmentHash file order} (hfile : w.shelf.file fileHash = some file)
      (hnone : w.shelf.order fragmentHash = none)
      (hany : file.fragments.any (wanted fragmentHash sender) = true)
      (hfileHash : order.fileHash = fileHash) (horigin : order.originMiner = sender) :
      Changes w (.generateRestoralOrder sender fileHash fragmentHash)
        { w.shelf with
          file := Function.update w.shelf.file fileHash
            (some (file.modifyFirst (wanted fragmentHash sender) fun f => { f with avail := false }))
          order := Function.update w.shelf.order fragmentHash (some order) }
  /-- A miner claims a fragment of one that has left. -/
  | noexist {sender miner fileHash fragmentHash file order}
      (hfile : w.shelf.file fileHash = some file) (hnone : w.shelf.order fragmentHash = none)
      (hany : file.fragments.any (wanted fragmentHash miner) = true)
      (hfileHash : order.fileHash = fileHash) (horigin : order.originMiner = miner) :
      Changes w (.claimRestoralNoexistOrder sender miner fileHash fragmentHash)
        { w.shelf with
          file := Function.update w.shelf.file fileHash
            (some (file.modifyFirst (wanted fragmentHash miner) fun f => { f with avail := false }))
          order := Function.update w.shelf.order fragmentHash (some order) }
  /-- An order is claimed. -/
  | claim {sender fragmentHash order order'} (horder : w.shelf.order fragmentHash = some order)
      (hfileHash : order'.fileHash = order.fileHash)
      (horigin : order'.originMiner = order.originMiner) :
      Changes w (.claimRestoralOrder sender fragmentHash)
        { w.shelf with order := Function.update w.shelf.order fragmentHash (some order') }
  /-- An order is dropped, since its file or its fragment is gone. -/
  | drop {sender fragmentHash order} (horder : w.shelf.order fragmentHash = some order)
      (hgone : ∀ file, w.shelf.file order.fileHash = some file →
        file.fragments.find? (fun f => f.hash = fragmentHash ∧
          (f.miner = sender ∨ f.miner = order.originMiner)) = none) :
      Changes w (.restoralOrderComplete sender fragmentHash)
        { w.shelf with order := Function.update w.shelf.order fragmentHash none }
  /-- A fragment goes to the miner that has restored it. -/
  | restore {sender fragmentHash order file fragment}
      (horder : w.shelf.order fragmentHash = some order)
      (hfile : w.shelf.file order.fileHash = some file)
      (hfragment : file.fragments.find? (fun f => f.hash = fragmentHash ∧
        (f.miner = sender ∨ f.miner = order.originMiner)) = some fragment)
      (hother : fragment.miner ≠ sender) :
      Changes w (.restoralOrderComplete sender fragmentHash)
        { w.shelf with
          file := Function.update w.shelf.file order.fileHash
            (some (file.modifyFirst (fun f => f.hash = fragmentHash ∧
              (f.miner = sender ∨ f.miner = order.originMiner)) fun f =>
                { f with tag := some w.now, avail := true, miner := sender }))
          order := Function.update w.shelf.order fragmentHash none }


/-! ### Uploads -/

theorem ne_of_not_owner (hfile : w.file.lookup fileHash = some file)
    (h : checkIsFileOwner w acc fileHash = false) : ∀ brief ∈ file.owner.val, brief.user ≠ acc := by
  intro brief hmem huser
  unfold checkIsFileOwner at h
  rw [hfile, Option.any_some, List.any_eq_false] at h
  exact h brief hmem (decide_eq_true huser)

/-- A file gets an owner, who is one of a stored or of a new file. -/
theorem World.Owns.shelf {size : ℕ} {bucket : BucketInfo T}
    {held : BoundedVec UserFileSliceInfo T.userFileLimit}
    (h : w.Owns brief fileHash size bucket held) (file : FileInfo T) : ({ w with
      file := w.file.insert fileHash file
      userHoldFileList := w.userHoldFileList.insert brief.user held
      bucket := w.bucket.insert (brief.user, brief.bucketName) bucket } : World T).shelf =
        w.shelf.own brief fileHash size file := by
  refine (shelf_putBucket { w with
    file := w.file.insert fileHash file
    userHoldFileList := w.userHoldFileList.insert brief.user held } _ bucket).trans ?_
  rw [shelf_putHeld { w with file := w.file.insert fileHash file }, shelf_putFile, h.bucket, h.held]
  rfl

theorem uploadDeclaration_changes {dealInfo : BoundedVec SegmentList T.segmentCount}
    (h : (uploadDeclaration T sender fileHash dealInfo brief fileSize).run w = .ok u w') :
    (Call.uploadDeclaration sender fileHash dealInfo brief fileSize).Changes w w'.shelf := by
  rcases uploadDeclaration_run h with ⟨w₁, events, hfly, rfl⟩ | ⟨hnew, -, t, events, -, -, rfl⟩
  · obtain ⟨file, t, owner, held, bucket, buckets, hfile, -, -, howner, howns, rfl⟩ :=
      flyUploadFile_run hfly
    have hshelf := howns.shelf { file with owner := owner }
    exact hshelf ▸ .fly hfile howner
  · have hshelf := shelf_putDeal w fileHash
      { fileSize := fileSize, segmentList := dealInfo, user := brief, completeList := .empty }
    exact hshelf ▸ .declare (AList.lookup_eq_none.mpr hnew) rfl

theorem territoryFileDelivery_shelf {target : TerrName}
    (h : (territoryFileDelivery T sender user fileHash target).run w = .ok u w') :
    ∃ file, w.shelf.file fileHash = some file ∧ (∃ brief ∈ file.owner.val, brief.user = user) ∧
      w'.shelf = { w.shelf with
        held := update w.shelf.held user ((w.shelf.held user).map fun slice =>
          if slice.fileHash = fileHash then { slice with territoryName := target } else slice) } := by
  simp only [FileBank.territoryFileDelivery, run_ok, bank_ok, existsAndEq] at h
  obtain ⟨-, howner, file, hfile, -, _, s, hcheck, _, w₂, hmove, rfl⟩ := h
  have h₂ : World.SameShelf { w with storage := s } w₂ := by
    refine Keeps.run_ok (keeps_forM fun brief _ => keeps_ite (fun _ => ?_) fun _ => keeps_pure _)
      hmove
    refine keeps_bind (keeps_okOr_bind fun _ => keeps_okOr _ _) fun _ => ?_
    exact keeps_bind (sameShelf_liftStorage _) fun _ => sameShelf_liftStorage _
  refine ⟨file, hfile, ?_, ?_⟩
  · unfold checkIsFileOwner at howner
    rw [hfile] at howner
    simpa using howner
  · refine (shelf_putHeld w₂ user _).trans ?_
    show ({ w₂.shelf with held := update _ user ((w₂.shelf.held user).map _) } : Shelf T) = _
    rw [show w₂.shelf = w.shelf from h₂]

/-! ### Reports -/

theorem completeDeal_shelf (h : (completeDeal T fileHash deal).run w = .ok u w') :
    ∃ file size, deal.Makes file ∧ w'.shelf = { w.shelf.own deal.user fileHash size file with
      deal := update w.shelf.deal fileHash none } := by
  obtain ⟨s, file, t, held, bucket, buckets, events, -, -, hmakes, -, -, -, howns, rfl⟩ :=
    completeDeal_run h
  refine ⟨file, deal.size, hmakes, ?_⟩
  rw [← howns.shelf file]
  exact shelf_dropDeal { w with
    file := w.file.insert fileHash file
    userHoldFileList := w.userHoldFileList.insert deal.user.user held
    bucket := w.bucket.insert (deal.user.user, deal.user.bucketName) bucket } fileHash

theorem transferReport_shelf {index : ℕ}
    (h : (transferReport T sender index fileHash).run w = .ok u w') :
    (index ≤ fragmentCount ∧ 0 < index) ∧ ∃ deal, w.shelf.deal fileHash = some deal ∧
      (StorageHandler.checkExpired w.storage deal.user.user deal.user.territoryName = true ∧
          w'.shelf = { w.shelf with deal := update w.shelf.deal fileHash none } ∨
        ∃ deal', deal.Reports deal' sender index ∧
          (deal'.completeList.val.length ≠ fragmentCount ∧ w'.shelf =
              { w.shelf with deal := update w.shelf.deal fileHash (some deal') } ∨
            ∃ file size, deal'.Makes file ∧ w'.shelf =
              { w.shelf.own deal.user fileHash size file with
                deal := update w.shelf.deal fileHash none })) := by
  obtain ⟨hindex, deal, info, hdeal, -, -, ⟨hexpired, s, -, rfl⟩ | ⟨deal', s, w₁, events, hreport, -,
    rfl, hrest⟩⟩ := transferReport_run h
  · exact ⟨hindex, deal, hdeal, .inl ⟨hexpired, shelf_dropDeal w fileHash⟩⟩
  · refine ⟨hindex, deal, hdeal, .inr ⟨deal', hreport, ?_⟩⟩
    rcases hrest with ⟨hshort, rfl⟩ | hcomplete
    · exact .inl ⟨hshort, shelf_putDeal w fileHash deal'⟩
    · obtain ⟨file, size, hmakes, hshelf⟩ := completeDeal_shelf hcomplete
      refine .inr ⟨file, size, hmakes, hshelf.trans ?_⟩
      have hput : World.shelf { w with
          miner := s
          dealMap := w.dealMap.insert fileHash deal' } = _ := shelf_putDeal w fileHash deal'
      rw [hput, hreport.user]
      exact congrArg (fun deals => { w.shelf.own deal.user fileHash size file with deal := deals })
        (Function.update_idem _ _ _)

theorem calculateReport_changes {teeSig : BoundedVec UInt8 64}
    {info : TagSigInfo T.AccountId T.WorkerPublicKey}
    (h : (calculateReport T sender teeSig info).run w = .ok u w') :
    (Call.calculateReport sender teeSig info).Changes w w'.shelf := by
  obtain ⟨file, hashList, s₁, s₂, outside, events, hfile, -, -, -, rfl⟩ := calculateReport_run h
  exact shelf_putFile w info.fileHash _ ▸ .tag hfile

/-! ### Restoral orders -/

theorem generateRestoralOrder_changes
    (h : (generateRestoralOrder T sender fileHash restoralFragment).run w = .ok u w') :
    (Call.generateRestoralOrder sender fileHash restoralFragment).Changes w w'.shelf := by
  simp only [FileBank.generateRestoralOrder, run_ok, bank_ok, existsAndEq] at h
  obtain ⟨hnew, file, hfile, hany, rfl⟩ := h
  refine shelf_putFileOrder w fileHash restoralFragment _ _ ▸ ?_
  exact .order hfile (AList.lookup_eq_none.mpr hnew) hany rfl rfl

theorem claimRestoralNoexistOrder_changes {miner : T.AccountId}
    (h : (claimRestoralNoexistOrder T sender miner fileHash restoralFragment).run w = .ok u w') :
    (Call.claimRestoralNoexistOrder sender miner fileHash restoralFragment).Changes w w'.shelf := by
  simp only [FileBank.claimRestoralNoexistOrder, Sminer.isPositive, Sminer.getMinerState, run_ok,
    bank_ok, existsAndEq] at h
  obtain ⟨_, -, -, hnew, -, file, hfile, hany, deadline, -, rfl⟩ := h
  refine shelf_putFileOrder w fileHash restoralFragment _ _ ▸ ?_
  exact .noexist hfile (AList.lookup_eq_none.mpr hnew) hany rfl rfl

theorem claimRestoralOrder_changes
    (h : (claimRestoralOrder T sender restoralFragment).run w = .ok u w') :
    (Call.claimRestoralOrder sender restoralFragment).Changes w w'.shelf := by
  simp only [FileBank.claimRestoralOrder, Sminer.isPositive, Sminer.getMinerState, run_ok, bank_ok,
    existsAndEq] at h
  obtain ⟨_, -, -, order, horder, -, count, -, deadline, -, rfl⟩ := h
  exact shelf_putOrder w restoralFragment _ ▸ .claim horder rfl rfl

theorem restoralOrderComplete_changes {fragmentHash : Hash}
    (h : (restoralOrderComplete T sender fragmentHash).run w = .ok u w') :
    (Call.restoralOrderComplete sender fragmentHash).Changes w w'.shelf := by
  obtain ⟨order, info, w₁, events, horder, -, -, rfl, ⟨hgone, rfl⟩ | ⟨file, hfile, ⟨hnone, rfl⟩ |
    ⟨fragment, s, hfragment, hother, -, rfl⟩⟩⟩ := restoralOrderComplete_run h
  · refine shelf_dropOrder w₁ fragmentHash ▸ .drop horder fun file hfile => ?_
    exact absurd (mem_iff_exists_lookup.mpr ⟨file, hfile⟩) hgone
  · have hsame : update w.shelf.file order.fileHash (some file) = w.shelf.file := by
      rw [show some file = w.shelf.file order.fileHash from hfile.symm, Function.update_eq_self]
    refine shelf_putFileDropOrder w order.fileHash fragmentHash file ▸ ?_
    rw [hsame]
    refine .drop horder fun file' hfile' => ?_
    obtain rfl := Option.mem_unique hfile hfile'
    exact hnone
  · exact shelf_putFileDropOrder w order.fileHash fragmentHash _ ▸ .restore horder hfile hfragment hother

/-- **What every call does to the shelf.** -/
theorem Call.code_changes (c : Call T) (h : (c.code T).run w = .ok u w') :
    c.Changes w w'.shelf := by
  cases c with
  | uploadDeclaration => exact uploadDeclaration_changes h
  | territoryFileDelivery =>
    obtain ⟨file, hfile, howner, hshelf⟩ := territoryFileDelivery_shelf h
    rw [hshelf]
    exact .deliver hfile howner
  | transferReport =>
    obtain ⟨-, deal, hdeal, ⟨-, hshelf⟩ | ⟨deal', hreport, ⟨-, hshelf⟩ | ⟨file, size, hmakes, hshelf⟩⟩⟩ :=
      transferReport_shelf h
    all_goals rw [hshelf]
    · exact .expire
    · exact .report hdeal hreport
    · exact .complete hdeal hreport hmakes
  | calculateReport => exact calculateReport_changes h
  | replaceIdleSpace =>
    obtain ⟨signature, count, s₁, s₂, outside, events, -, -, rfl⟩ := replaceIdleSpace_run h
    exact .aside _
  | deleteFile =>
    obtain ⟨file, hfile, hshelf⟩ := deleteFile_shelf h
    rw [hshelf]
    exact .delete hfile
  | certIdleSpace =>
    obtain ⟨signature, space, s, outside, events, -, rfl⟩ := certIdleSpace_run h
    exact .aside _
  | createBucket sender owner name =>
    simp only [Call.code, FileBank.createBucket, run_ok, bank_ok, existsAndEq] at h
    obtain ⟨-, _, w₁, hcreate, rfl⟩ := h
    obtain ⟨bucket, buckets, hobjects, rfl⟩ := createBucketHelper_run hcreate
    have hshelf := shelf_putBucket w (owner, name) bucket
    rw [hobjects, Option.toList_none, List.append_nil,
      show w.objects (owner, name) = w.shelf.objects (owner, name) from rfl,
      Function.update_eq_self] at hshelf
    exact hshelf ▸ .aside _
  | deleteBucket =>
    simp only [Call.code, FileBank.deleteBucket, putBuckets, run_ok, bank_ok, existsAndEq] at h
    obtain ⟨-, bucket, hbucket, hempty, -, rfl⟩ := h
    have hobjects := (shelf_objects_of_lookup hbucket).trans (List.eq_nil_of_length_eq_zero hempty)
    exact shelf_dropBucket hobjects ▸ .aside _
  | generateRestoralOrder => exact generateRestoralOrder_changes h
  | claimRestoralOrder => exact claimRestoralOrder_changes h
  | claimRestoralNoexistOrder => exact claimRestoralNoexistOrder_changes h
  | restoralOrderComplete => exact restoralOrderComplete_changes h

/-! ## What the block hook can do -/

/-- A round of the clearing loop: at most one owner of the file goes, or all of the file. -/
structure Shelf.Cleared (acc : T.AccountId) (fileHash : Hash) (s s' : Shelf T) : Prop where
  deal : s'.deal = s.deal
  order : s'.order = s.order
  held : s'.held = s.held
  clear : s'.clear = s.clear
  file : s'.file = s.file ∨ ∃ file, s.file fileHash = some file ∧
    (file.owner.val.length ≤ 1 ∧ s'.file = Function.update s.file fileHash none ∨
      1 < file.owner.val.length ∧
        s'.file = Function.update s.file fileHash (some (file.trim acc)))

/-- Only the objects of the buckets may be different. -/
def World.SameButObjects (w w' : World T) : Prop :=
  ∃ objects, w'.shelf = { w.shelf with objects := objects }

instance : Std.Refl (World.SameButObjects (T := T)) where
  refl w := ⟨w.shelf.objects, rfl⟩

instance : IsTrans (World T) World.SameButObjects where
  trans := by
    rintro w₁ w₂ w₃ ⟨objects, h⟩ ⟨objects', h'⟩
    exact ⟨objects', by rw [h', h]⟩

theorem keepsShelf_bucketRemoveFile (fileHash : Hash) (acc : T.AccountId) (file : FileInfo T) :
    Keeps World.SameButObjects (bucketRemoveFile T fileHash acc file) := by
  refine keeps_forM fun brief _ => keeps_ite (fun _ => ?_) fun _ => keeps_pure _
  refine keeps_tryMutate (fun bucket => ?_) fun bucket w => ⟨_, shelf_putBucket w _ bucket⟩
  exact keeps_bind (keeps_pure _) fun _ => keeps_pure _

theorem after_removeFileOwner_shelf (hfile : w.shelf.file fileHash = some file) :
    (after (removeFileOwner T fileHash acc false) w).shelf = { w.shelf with
      file := update w.shelf.file fileHash (some (file.trim acc)) } := by
  have hrun : ∃ w', (removeFileOwner T fileHash acc false).run w = .ok () w' := by
    simp only [removeFileOwner, tryMutateFile, run_tryMutate_ok, run_bind_ok, run_pure_ok]
    cases hfind : file.owner.val.find? fun brief => decide (brief.user = acc) with
    | none => exact ⟨_, file, file, w, hfile, ⟨file, w, by simp [hfind], rfl, rfl⟩, rfl⟩
    | some brief => exact ⟨_, file, _, w, hfile, ⟨_, w, by simp [hfind]; rfl, rfl, rfl⟩, rfl⟩
  obtain ⟨w', hrun⟩ := hrun
  rw [after_of_ok hrun]
  obtain ⟨file', hfile', hshelf⟩ := removeFileOwner_shelf hrun
  obtain rfl := Option.mem_unique hfile hfile'
  exact hshelf

/-- The shelf is the same, or the file is gone. -/
def World.Drops (fileHash : Hash) (w w' : World T) : Prop :=
  w'.shelf = w.shelf ∨
    w'.shelf = { w.shelf with file := Function.update w.shelf.file fileHash none }

instance : IsTrans (World T) (World.Drops fileHash) where
  trans := by
    rintro w₁ w₂ w₃ (h | h) (h' | h')
    · exact .inl (h'.trans h)
    · exact .inr (by rw [h', h])
    · exact .inr (h'.trans h)
    · right
      rw [h', h]
      exact congrArg (fun file => { w₁.shelf with file := file }) (Function.update_idem _ _ _)

theorem keepsShelf_removeFileLastOwner (fileHash : Hash) (acc : T.AccountId) (userClear : Bool) :
    Keeps (World.Drops fileHash) (removeFileLastOwner T fileHash acc userClear) := by
  refine keeps_bind ((sameShelf_releaseFile _ _ _).mono fun _ _ => .inl) fun _ => ?_
  refine keeps_bind ((sameShelf_liftStorage _).mono fun _ _ => .inl) fun _ => ?_
  exact keeps_modify fun w => .inr (shelf_dropFile w fileHash)

theorem Shelf.Cleared.sameButObjects {s : Shelf T} (h : s.Cleared acc fileHash w.shelf)
    (hw : w.SameButObjects w') : s.Cleared acc fileHash w'.shelf := by
  obtain ⟨objects, hshelf⟩ := hw
  rw [hshelf]
  exact ⟨h.deal, h.order, h.held, h.clear, h.file⟩

/-- **A round of the clearing loop.** -/
theorem clearFile_cleared (w : World T) (acc : T.AccountId) (fileHash : Hash) :
    w.shelf.Cleared acc fileHash (after (clearFile T acc fileHash) w).shelf := by
  have hbucket := fun file => keeps_attempt (keepsShelf_bucketRemoveFile (T := T) fileHash acc file)
  unfold clearFile
  rw [after_get_bind]
  cases hfile : w.file.lookup fileHash with
  | none => exact ⟨rfl, rfl, rfl, rfl, .inl rfl⟩
  | some file =>
    dsimp only
    split_ifs with hlen
    · rw [after_bind_of_total (total_attempt _)]
      refine Shelf.Cleared.sameButObjects ?_ (hbucket file _)
      rw [after_attempt, after_removeFileOwner_shelf hfile]
      exact ⟨rfl, rfl, rfl, rfl, .inr ⟨file, hfile, .inr ⟨hlen, rfl⟩⟩⟩
    · rw [after_bind_of_total (total_attempt _), after_bind_of_total (total_attempt _)]
      refine Shelf.Cleared.sameButObjects ?_ (hbucket file _)
      have hdrops := keeps_attempt (keepsShelf_removeFileLastOwner (T := T) fileHash acc false)
      rcases IsTrans.trans _ _ _ (hdrops w) (hdrops _) with h | h
      · rw [h]
        exact ⟨rfl, rfl, rfl, rfl, .inl rfl⟩
      · rw [h]
        exact ⟨rfl, rfl, rfl, rfl, .inr ⟨file, hfile, .inl ⟨not_lt.mp hlen, rfl⟩⟩⟩

section Hook

variable {P : Shelf T → Prop}
  (hsame : ∀ s s', s'.deal = s.deal → s'.file = s.file → s'.order = s.order → P s → P s')
  (hclear : ∀ acc fileHash s s', Shelf.Cleared acc fileHash s s' → P s → P s')
include hsame hclear

/-- **The hook keeps what the clearing of a file keeps**, of files, deals and orders. -/
theorem onInitialize_keeps (w : World T) (h : P w.shelf) : P (after (onInitialize T) w).shelf := by
  have hrefl : Std.Refl fun w w' : World T => P w.shelf → P w'.shelf := ⟨fun _ => id⟩
  have htrans : IsTrans (World T) fun w w' => P w.shelf → P w'.shelf :=
    ⟨fun _ _ _ h h' hw => h' (h hw)⟩
  have hmodify : ∀ f : World T → BoundedVec (T.AccountId × TerrName) 2000,
      Keeps (fun w w' : World T => P w.shelf → P w'.shelf)
        (modify fun w => { w with clearUserList := f w } : PalletM T PUnit) :=
    fun f w => hsame _ _ rfl rfl rfl
  refine keeps_bind (R := fun w w' : World T => P w.shelf → P w'.shelf) ?_ (fun list => ?_) w h
  · exact (sameShelf_liftStorage _).mono fun w w' h hw => by rwa [show w'.shelf = w.shelf from h]
  · refine keeps_bind (hmodify _) fun _ => keeps_clearUsers_of ?_ hmodify ?_ _ _
    · intro acc list w
      exact hsame _ _ rfl rfl rfl
    · exact fun acc fileHash w => hclear acc fileHash _ _ (clearFile_cleared w acc fileHash)

/-! ## Runs -/

/-- **The step rule.**  What every call, every round of the clearing loop and the hook keep of
files, deals and orders, every step keeps. -/
theorem step_shelf {n n' : Node T} {a : Action T} (hstep : n.step a = some n')
    (hcall : ∀ c w', a = .call c → (c.code T).run n.world = .ok () w' → P w'.shelf)
    (hn : P n.world.shelf) : P n'.world.shelf := by
  cases a with
  | storage a =>
    obtain ⟨-, -, hworld⟩ := step_storage hstep
    rw [hworld]
    exact hn
  | onInitialize =>
    rw [step_onInitialize hstep]
    exact onInitialize_keeps hsame hclear n.world hn
  | clearFile acc fileHash =>
    rw [step_clearFile hstep]
    exact hclear acc fileHash _ _ (clearFile_cleared n.world acc fileHash) hn
  | call c =>
    rcases step_call hstep with hrun | hworld
    · exact hcall c _ rfl hrun
    · rw [hworld]
      exact hn
  | external =>
    rw [step_external hstep]
    exact hn

end Hook

/-- The shelf at genesis is empty. -/
theorem Node.Start.shelf {n : Node T} (hn : n.Start) :
    n.world.shelf = { deal := fun _ => none, file := fun _ => none, held := fun _ => []
                      objects := fun _ => [], order := fun _ => none, clear := [] } := by
  obtain ⟨-, miner, outside, hworld⟩ := hn
  rw [hworld]
  rfl

end FileBank
