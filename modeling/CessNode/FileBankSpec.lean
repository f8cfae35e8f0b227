/-
# What the functions of the file bank leave alone

The space in service is counted by storage-handler, while the fragments it stands for are
listed in the files of the file bank.  This file says which functions touch neither the files
nor the deals nor the counter (`World.SameFiles`), whatever the storage is and whether they
succeed or not: all functions on buckets, miners and workers, and the calls made of them only.
It also counts the fragments of a file under every change of single fragments, and those of a
file that is made from a deal.
-/
import CessNode.FileBank
import CessNode.LeaseRefinement

open Dispatch StorageMap

/-! ## The counter of service space in storage-handler -/

namespace StorageHandler

variable {T : Config}

/-- The space in service is the same. -/
def World.SameService (s s' : World T) : Prop := s'.totalServiceSpace = s.totalServiceSpace

theorem World.SameOutside.sameService {s s' : World T} (h : s.SameOutside s') :
    s.SameService s' := h.totalServiceSpace

/-- What the deals see of a territory: its locked space and its state. -/
def TerritoryInfo.lock (t : TerritoryInfo) : ℕ × TerritoryState := (t.lockedSpace, t.state)

/-- Nothing outside the book is changed, and in the book neither the clock nor the consignments nor
the locked space or the state of a territory. -/
structure World.SameLocks (s s' : World T) : Prop where
  outside : s.SameOutside s'
  now : s'.now = s.now
  consignment : s'.consignment = s.consignment
  locks : ∀ key, (s'.territory.lookup key).map TerritoryInfo.lock =
    (s.territory.lookup key).map TerritoryInfo.lock

instance : Std.Refl (World.SameLocks (T := T)) where
  refl s := ⟨refl s, rfl, rfl, fun _ => rfl⟩

instance : IsTrans (World T) World.SameLocks where
  trans _ _ _ h h' := ⟨IsTrans.trans _ _ _ h.outside h'.outside, h'.now.trans h.now,
    h'.consignment.trans h.consignment, fun key => (h'.locks key).trans (h.locks key)⟩

/-- A territory may be replaced by one with the same locked space and state. -/
theorem World.sameLocks_insert {s : World T} {key : T.AccountId × TerrName} {t t' : TerritoryInfo}
    (ht : s.territory.lookup key = some t) (hlock : t'.lock = t.lock) :
    s.SameLocks { s with territory := s.territory.insert key t' } := by
  refine ⟨⟨rfl, rfl, rfl, rfl, rfl, rfl, rfl, rfl⟩, rfl, rfl, fun key' => ?_⟩
  rw [lookup_insert_ite]
  split_ifs with hkey
  · rw [hkey, ht, Option.map_some, Option.map_some, hlock]
  · rfl

/-- A change of a territory that keeps its locked space and its state. -/
theorem keeps_territory {acc : T.AccountId} {name : TerrName} {e : Error}
    {f : TerritoryInfo → PalletM T (Unit × TerritoryInfo)} (hpure : ∀ t, Keeps Eq (f t))
    (hlock : ∀ t s u t', (f t).run s = .ok (u, t') s → t'.lock = t.lock) :
    Keeps World.SameLocks (tryMutateTerritory T acc name e f) := by
  intro s
  unfold tryMutateTerritory
  rcases after_tryMutate_pure hpure s with h | ⟨t, u, t', ht, hrun, h⟩
  · rw [h]
    exact refl s
  · rw [h]
    exact World.sameLocks_insert ht (hlock t s u t' hrun)

theorem keeps_addTerritoryUsedSpace (acc : T.AccountId) (name : TerrName) (size : ℕ) :
    Keeps World.SameLocks (addTerritoryUsedSpace T acc name size) := by
  apply keeps_territory
  · intro t
    refine keeps_ensure_bind <| keeps_ensure_bind ?_
    exact keeps_okOr_bind fun _ => keeps_okOr_bind fun _ => keeps_pure _
  · intro t s u t' h
    simp only [run_bind_ok, run_pure_ok] at h
    obtain ⟨_, _, -, _, _, -, _, _, -, _, _, -, h, -⟩ := h
    rw [← (Prod.mk.inj h).2]
    rfl

theorem keeps_subTerritoryUsedSpace (acc : T.AccountId) (name : TerrName) (size : ℕ) :
    Keeps World.SameLocks (subTerritoryUsedSpace T acc name size) := by
  apply keeps_territory
  · intro t
    exact keeps_okOr_bind fun _ => keeps_okOr_bind fun _ => keeps_pure _
  · intro t s u t' h
    simp only [run_bind_ok, run_pure_ok] at h
    obtain ⟨_, _, -, _, _, -, h, -⟩ := h
    rw [← (Prod.mk.inj h).2]
    rfl

theorem keeps_checkTerritryOwner (acc : T.AccountId) (name : TerrName) :
    Keeps World.SameLocks (checkTerritryOwner T acc name) :=
  keeps_get_bind fun _ => keeps_ensure _ _

end StorageHandler

namespace FileBank

variable {T : Config}
variable {α : Type} {file : FileInfo T} {w w' : World T} {fileHash : Hash}

/-! ## Fragments of a file -/

/-- The number of fragments is the sum over the segments. -/
theorem FileInfo.length_fragments (file : FileInfo T) :
    file.fragments.length =
      (file.segmentList.val.map fun segment => segment.fragmentList.val.length).sum :=
  List.length_flatMap

theorem FileInfo.length_mapFragments (f : FragmentInfo T → FragmentInfo T) (file : FileInfo T) :
    (file.mapFragments f).fragments.length = file.fragments.length := by
  rw [length_fragments, length_fragments]
  simp only [mapFragments, BoundedVec.map, List.map_map, Function.comp_def, List.length_map]

/-- Changing the first element that satisfies `p`. -/
theorem modify_findIdx {p : α → Bool} {l : List α} {x : α} (h : l.find? p = some x) (f : α → α) :
    ∃ l₁ l₂, (∀ a ∈ l₁, p a = false) ∧ l = l₁ ++ x :: l₂ ∧
      l.modify (l.findIdx p) f = l₁ ++ f x :: l₂ := by
  induction l with
  | nil => cases h
  | cons a l ih =>
    rw [List.find?_cons] at h
    rw [List.findIdx_cons]
    cases ha : p a with
    | true =>
      rw [ha] at h
      obtain rfl := Option.some.inj h
      exact ⟨[], l, nofun, rfl, rfl⟩
    | false =>
      rw [ha] at h
      obtain ⟨l₁, l₂, hfirst, hl, hmodify⟩ := ih h
      refine ⟨a :: l₁, l₂, List.forall_mem_cons.mpr ⟨ha, hfirst⟩, by rw [hl]; rfl, ?_⟩
      show (a :: l).modify (l.findIdx p + 1) f = _
      rw [List.modify_succ_cons, hmodify]
      rfl

/-- The same in a list of lists: the first list that has such an element is changed. -/
theorem flatMap_modify_findIdx {β : Type} {frags : α → List β} {p : β → Bool} {f : β → β}
    {change : α → α} (hchange : ∀ a, frags (change a) = (frags a).modify ((frags a).findIdx p) f)
    {l : List α} {x : β} (h : (l.flatMap frags).find? p = some x) :
    ∃ l₁ l₂, (∀ b ∈ l₁, p b = false) ∧ l.flatMap frags = l₁ ++ x :: l₂ ∧
      (l.modify (l.findIdx fun a => (frags a).any p) change).flatMap frags = l₁ ++ f x :: l₂ := by
  induction l with
  | nil => cases h
  | cons a l ih =>
    rw [List.flatMap_cons, List.find?_append] at h
    rw [List.findIdx_cons]
    cases hfind : (frags a).find? p with
    | some y =>
      rw [hfind] at h
      obtain rfl : y = x := Option.some.inj h
      have hany : (frags a).any p = true :=
        List.any_eq_true.mpr ⟨y, List.mem_of_find?_eq_some hfind, List.find?_some hfind⟩
      obtain ⟨l₁, l₂, hfirst, hl, hmodify⟩ := modify_findIdx hfind f
      refine ⟨l₁, l₂ ++ l.flatMap frags, hfirst, ?_, ?_⟩
      · rw [List.flatMap_cons, hl, List.append_assoc, List.cons_append]
      · rw [hany]
        show ((a :: l).modify 0 change).flatMap frags = _
        rw [List.modify_zero_cons, List.flatMap_cons, hchange, hmodify, List.append_assoc,
          List.cons_append]
    | none =>
      rw [hfind] at h
      have hnone : ∀ b ∈ frags a, p b = false := fun b hb =>
        Bool.not_eq_true _ ▸ List.find?_eq_none.mp hfind b hb
      have hany : (frags a).any p = false := by
        rw [List.any_eq_false]
        exact List.find?_eq_none.mp hfind
      obtain ⟨l₁, l₂, hfirst, hl, hmodify⟩ := ih h
      refine ⟨frags a ++ l₁, l₂, List.forall_mem_append.mpr ⟨hnone, hfirst⟩, ?_, ?_⟩
      · rw [List.flatMap_cons, hl, List.append_assoc]
      · rw [hany]
        show ((a :: l).modify (l.findIdx _ + 1) change).flatMap frags = _
        rw [List.modify_succ_cons, List.flatMap_cons, hmodify, List.append_assoc]

/-- A change of every fragment. -/
theorem FileInfo.fragments_mapFragments (f : FragmentInfo T → FragmentInfo T) (file : FileInfo T) :
    (file.mapFragments f).fragments = file.fragments.map f := by
  unfold FileInfo.fragments FileInfo.mapFragments
  show (file.segmentList.val.map _).flatMap _ = _
  rw [List.flatMap_map, List.map_flatMap]
  rfl

/-- Changing the first fragment that satisfies `p`, in the list of all fragments. -/
theorem FileInfo.fragments_modifyFirst {p : FragmentInfo T → Bool} {x : FragmentInfo T}
    (h : file.fragments.find? p = some x) (f : FragmentInfo T → FragmentInfo T) :
    ∃ l₁ l₂, (∀ y ∈ l₁, p y = false) ∧
      file.fragments = l₁ ++ x :: l₂ ∧ (file.modifyFirst p f).fragments = l₁ ++ f x :: l₂ :=
  flatMap_modify_findIdx (fun _ => rfl) h

/-- The fragments of a segment are given out in the order of the list. -/
theorem miners_of_zipIdx {completeList : List (CompleteInfo T)} {hashes : List Hash} {k : ℕ}
    {fragments : List (FragmentInfo T)} (h : (hashes.zipIdx k).mapM (fun p => do
      let info ← completeList[p.2]?
      pure ({ hash := p.1, avail := true, tag := none, miner := info.miner } : FragmentInfo T)) =
        some fragments) :
    fragments.map FragmentInfo.miner =
      ((completeList.drop k).take hashes.length).map CompleteInfo.miner := by
  induction hashes generalizing k fragments with
  | nil =>
    obtain rfl : [] = fragments := Option.some.inj h
    rfl
  | cons hash hashes ih =>
    rw [List.zipIdx_cons, List.mapM_cons] at h
    obtain ⟨fragment, hfragment, h⟩ := Option.bind_eq_some_iff.mp h
    obtain ⟨rest, hrest, h⟩ := Option.bind_eq_some_iff.mp h
    obtain rfl : fragment :: rest = fragments := Option.some.inj h
    obtain ⟨info, hinfo, hmade⟩ := Option.bind_eq_some_iff.mp hfragment
    obtain rfl := Option.some.inj hmade
    obtain ⟨hlt, hget⟩ := List.getElem?_eq_some_iff.mp hinfo
    rw [List.map_cons, ih hrest, List.drop_eq_getElem_cons hlt, List.length_cons,
      List.take_succ_cons, List.map_cons, hget]

section Segments

variable {completeList : List (CompleteInfo T)} {segment : SegmentList} {info : SegmentInfo T}

theorem fileSegment_length (h : fileSegment T completeList segment = some info) :
    info.fragmentList.val.length = segment.fragmentList.val.length := by
  obtain ⟨fragments, hfragments, h⟩ := Option.bind_eq_some_iff.mp h
  obtain ⟨fragmentList, hlist, h⟩ := Option.bind_eq_some_iff.mp h
  obtain rfl := Option.some.inj h
  rw [BoundedVec.tryFrom_eq_some.mp hlist, length_eq_of_mapM hfragments, List.length_zipIdx]

/-- The fragments of a segment go to the miners of the list, one to each, and have no tag. -/
theorem fileSegment_miners (h : fileSegment T completeList segment = some info) :
    info.fragmentList.val.map FragmentInfo.miner =
        (completeList.take segment.fragmentList.val.length).map CompleteInfo.miner ∧
      ∀ f ∈ info.fragmentList.val, f.tag = none := by
  obtain ⟨fragments, hfragments, h⟩ := Option.bind_eq_some_iff.mp h
  obtain ⟨fragmentList, hlist, h⟩ := Option.bind_eq_some_iff.mp h
  obtain rfl := Option.some.inj h
  rw [BoundedVec.tryFrom_eq_some.mp hlist]
  refine ⟨miners_of_zipIdx hfragments, fun f hf => ?_⟩
  obtain ⟨p, -, hfragment⟩ := exists_of_mem_mapM hfragments hf
  obtain ⟨info, -, hfragment⟩ := Option.bind_eq_some_iff.mp hfragment
  obtain rfl := Option.some.inj hfragment
  rfl

end Segments

/-- The fragments of a deal, counted as `check_file_spec` wants them. -/
theorem sum_of_checkFileSpec {n : ℕ} {segList : BoundedVec SegmentList n}
    (h : checkFileSpec segList = true) :
    (segList.val.map fun segment => segment.fragmentList.val.length).sum =
      fragmentCount * segList.val.length := by
  have hconst : (segList.val.map fun segment => segment.fragmentList.val.length) =
      segList.val.map fun _ => fragmentCount := by
    refine List.map_congr_left fun segment hsegment => ?_
    exact of_decide_eq_true (List.all_eq_true.mp h segment hsegment)
  rw [hconst, List.map_const', List.sum_replicate, smul_eq_mul, mul_comm]

/-! ## Functions that leave files, deals and the counter alone -/

/-- The files, the deals and the space in service are the same. -/
structure World.SameFiles (w w' : World T) : Prop where
  service : w'.storage.totalServiceSpace = w.storage.totalServiceSpace
  file : w'.file = w.file
  dealMap : w'.dealMap = w.dealMap

instance : Std.Refl (World.SameFiles (T := T)) where
  refl _ := ⟨rfl, rfl, rfl⟩

instance : IsTrans (World T) World.SameFiles where
  trans _ _ _ h h' := ⟨h'.service.trans h.service, h'.file.trans h.file,
    h'.dealMap.trans h.dealMap⟩

/-- Files, deals and miners are the same, and so are the clock, the counters of the space, and
the locked space and the state of every territory. -/
structure World.Aside (w w' : World T) : Prop where
  storage : w.storage.SameLocks w'.storage
  miner : w'.miner = w.miner
  file : w'.file = w.file
  dealMap : w'.dealMap = w.dealMap

instance : Std.Refl (World.Aside (T := T)) where
  refl _ := ⟨refl _, rfl, rfl, rfl⟩

instance : IsTrans (World T) World.Aside where
  trans _ _ _ h h' := ⟨IsTrans.trans _ _ _ h.storage h'.storage, h'.miner.trans h.miner,
    h'.file.trans h.file, h'.dealMap.trans h.dealMap⟩

theorem World.Aside.sameFiles (h : w.Aside w') : w.SameFiles w' :=
  ⟨h.storage.outside.totalServiceSpace, h.file, h.dealMap⟩

theorem Keeps.sameFiles {x : PalletM T α} (hx : Keeps World.Aside x) :
    Keeps World.SameFiles x :=
  hx.mono fun _ _ => World.Aside.sameFiles

theorem keeps_liftStorage {x : StorageHandler.PalletM T.toConfig α}
    (hx : Keeps StorageHandler.World.SameService x) : Keeps World.SameFiles (liftStorage T x) :=
  keeps_zoom hx fun _ _ hservice => ⟨hservice, rfl, rfl⟩

theorem keeps_liftTerritory {x : StorageHandler.PalletM T.toConfig α}
    (hx : Keeps StorageHandler.World.SameOutside x) : Keeps World.SameFiles (liftStorage T x) :=
  keeps_liftStorage (hx.mono fun _ _ => StorageHandler.World.SameOutside.sameService)

theorem keeps_liftLocks {x : StorageHandler.PalletM T.toConfig α}
    (hx : Keeps StorageHandler.World.SameLocks x) : Keeps World.Aside (liftStorage T x) :=
  keeps_zoom hx fun _ _ hlocks => ⟨hlocks, rfl, rfl, rfl⟩

theorem keeps_depositEvent (e : Event T) : Keeps World.Aside (depositEvent T e) :=
  keeps_modify fun _ => ⟨refl _, rfl, rfl, rfl⟩

theorem keeps_putHeld (user : T.AccountId) (list : BoundedVec UserFileSliceInfo T.userFileLimit) :
    Keeps World.Aside (putHeld T user list) :=
  keeps_modify fun _ => ⟨refl _, rfl, rfl, rfl⟩

/-! ### Buckets and held files -/

/-- Only the buckets may be different. -/
def World.BucketOnly (w w' : World T) : Prop := ∃ bucket, w' = { w with bucket := bucket }

instance : Std.Refl (World.BucketOnly (T := T)) where
  refl w := ⟨w.bucket, rfl⟩

instance : IsTrans (World T) World.BucketOnly where
  trans := by
    rintro w _ _ ⟨bucket, rfl⟩ ⟨bucket', rfl⟩
    exact ⟨bucket', rfl⟩

theorem bucketOnly_bucketRemoveFile (fileHash : Hash) (acc : T.AccountId) (file : FileInfo T) :
    Keeps World.BucketOnly (bucketRemoveFile T fileHash acc file) := by
  refine keeps_forM fun brief _ => keeps_ite (fun _ => ?_) fun _ => keeps_pure _
  exact keeps_tryMutate (fun _ => keeps_bind (keeps_pure _) fun _ => keeps_pure _) fun _ _ => ⟨_, rfl⟩

theorem keeps_bucketRemoveFile (fileHash : Hash) (acc : T.AccountId) (file : FileInfo T) :
    Keeps World.Aside (bucketRemoveFile T fileHash acc file) := by
  refine (bucketOnly_bucketRemoveFile _ _ _).mono ?_
  rintro w _ ⟨bucket, rfl⟩
  exact ⟨refl _, rfl, rfl, rfl⟩

theorem keeps_removeUserHoldFileList (fileHash : Hash) (acc : T.AccountId) :
    Keeps World.Aside (removeUserHoldFileList T fileHash acc) :=
  keeps_get_bind fun _ => keeps_putHeld acc _

/-! ### The records of the miners -/

/-- Only the records of the miners may be different. -/
def World.MinerOnly (w w' : World T) : Prop := ∃ s, w' = { w with miner := s }

instance : Std.Refl (World.MinerOnly (T := T)) where
  refl w := ⟨w.miner, rfl⟩

instance : IsTrans (World T) World.MinerOnly where
  trans := by
    rintro w _ _ ⟨s, rfl⟩ ⟨s', rfl⟩
    exact ⟨s', rfl⟩

theorem keeps_liftMiner (x : Sminer.MinerM T.AccountId α) : Keeps World.MinerOnly (liftMiner T x) :=
  keeps_zoom (R := fun _ _ => True) (fun _ => trivial) fun _ _ _ => ⟨_, rfl⟩

theorem keeps_completedAll (deal : DealInfo T) : Keeps World.MinerOnly (deal.completedAll T) :=
  keeps_forM fun _ _ => keeps_okOr_bind fun _ => keeps_liftMiner _

theorem keeps_forceUnlockSpace (deal : DealInfo T) :
    Keeps World.MinerOnly (deal.forceUnlockSpace T) :=
  keeps_forM fun _ _ => keeps_okOr_bind fun _ => keeps_liftMiner _

theorem keeps_releaseFragments (miner : T.AccountId) (hashList : List (Hash × Bool)) :
    Keeps World.MinerOnly (releaseFragments T miner hashList) := by
  refine keeps_get_bind fun w => keeps_ite (fun _ => keeps_liftMiner _) fun _ => ?_
  refine keeps_okOr_bind fun _ => keeps_bind (keeps_liftMiner _) fun _ => ?_
  exact keeps_bind (keeps_liftMiner _) fun _ => keeps_liftMiner _

theorem keeps_restoreFragment (sender : T.AccountId) (fragment : FragmentInfo T) :
    Keeps World.MinerOnly (restoreFragment T sender fragment) := by
  refine keeps_okOr_bind fun _ => keeps_bind (keeps_liftMiner _) fun _ => ?_
  refine keeps_bind (keeps_liftMiner _) fun _ => keeps_bind (keeps_liftMiner _) fun _ => ?_
  refine keeps_bind (keeps_liftMiner _) fun _ => keeps_get_bind fun w => ?_
  refine keeps_ite (fun _ => keeps_liftMiner _) fun _ => keeps_ite (fun _ => ?_) fun _ => ?_
  · exact keeps_bind (keeps_liftMiner _) fun _ => keeps_liftMiner _
  · exact keeps_liftMiner _

/-- What neither the records of the miners nor the used space of a territory matter for, the
release of a file keeps. -/
theorem keeps_releaseFile_of {R : World T → World T → Prop} [Std.Refl R] [IsTrans (World T) R]
    {acc : T.AccountId} (hminer : ∀ w s, R w { w with miner := s })
    (hused : ∀ name size, Keeps R (liftStorage T
      (StorageHandler.subTerritoryUsedSpace T.toConfig acc name size)))
    (fileHash : Hash) (userClear : Bool) : Keeps R (releaseFile T fileHash acc userClear) := by
  refine keeps_get_bind fun w => keeps_okOr_bind fun file => ?_
  refine keeps_bind (keeps_forM fun p _ => ?_) fun _ => keeps_ite (fun _ => ?_) fun _ => keeps_pure _
  · refine (keeps_releaseFragments _ _).mono ?_
    rintro w _ ⟨s, rfl⟩
    exact hminer w s
  · split
    · exact keeps_bind (hused _ _) fun _ => keeps_pure _
    · exact keeps_pure _

/-! ### Owners and availability -/

/-- A fragment apart from its availability. -/
def FragmentInfo.part (f : FragmentInfo T) : Hash × Option ℕ × T.AccountId :=
  (f.hash, f.tag, f.miner)

/-- The fragments of two files are the same apart from their availability. -/
def FileInfo.Alike (file file' : FileInfo T) : Prop :=
  file'.fragments.map FragmentInfo.part = file.fragments.map FragmentInfo.part

theorem FileInfo.Alike.length_eq {file' : FileInfo T} (h : file.Alike file') :
    file'.fragments.length = file.fragments.length := by
  have := congrArg List.length h
  rwa [List.length_map, List.length_map] at this

/-- A wanted fragment may become unavailable. -/
theorem FileInfo.alike_modifyFirst {p : FragmentInfo T → Bool}
    {f : FragmentInfo T → FragmentInfo T} (h : file.fragments.any p = true)
    (hf : ∀ x, (f x).part = x.part) : file.Alike (file.modifyFirst p f) := by
  obtain ⟨x, hx⟩ := Option.isSome_iff_exists.mp ((List.find?_isSome).mpr (List.any_eq_true.mp h))
  obtain ⟨l₁, l₂, -, hl, hmodify⟩ := FileInfo.fragments_modifyFirst hx f
  unfold FileInfo.Alike
  rw [hl, hmodify, List.map_append, List.map_append, List.map_cons, List.map_cons, hf]

/-- Like `Aside`, but one file may have been exchanged for one with the same fragments. -/
structure World.Retouched (w w' : World T) : Prop where
  storage : w.storage.SameLocks w'.storage
  miner : w'.miner = w.miner
  dealMap : w'.dealMap = w.dealMap
  file : w'.file = w.file ∨ ∃ fileHash file file', w.file.lookup fileHash = some file ∧
    file.Alike file' ∧ w'.file = w.file.insert fileHash file'

theorem World.Aside.retouched (h : w.Aside w') : w.Retouched w' :=
  ⟨h.storage, h.miner, h.dealMap, .inl h.file⟩

/-- A change of a file that keeps its fragments, whether it succeeds or not. -/
theorem keeps_retouch {e : Error} {f : FileInfo T → PalletM T (FileInfo T)}
    (hf : ∀ file, Keeps World.Aside (f file))
    (halike : ∀ file file' w w', (f file).run w = .ok file' w' → file.Alike file') :
    Keeps World.Retouched (tryMutateFile T fileHash e f) := by
  intro w
  unfold tryMutateFile
  cases hfile : w.file.lookup fileHash with
  | none =>
    rw [after_tryMutate_none (s := w) hfile]
    exact (refl w : w.Aside w).retouched
  | some file =>
    rw [after_tryMutate_some (s := w) hfile, EStateM.run_bind]
    have haside := hf file w
    unfold Dispatch.after at haside
    cases hrun : (f file).run w with
    | ok file' w₁ =>
      rw [hrun] at haside
      refine ⟨haside.storage, haside.miner, haside.dealMap, .inr ⟨fileHash, file, file', hfile,
        halike _ _ _ _ hrun, ?_⟩⟩
      show w₁.file.insert fileHash file' = _
      rw [haside.file]
    | error e w₁ =>
      rw [hrun] at haside
      exact haside.retouched

theorem keeps_removeFileOwner (fileHash : Hash) (acc : T.AccountId) (userClear : Bool) :
    Keeps World.Retouched (removeFileOwner T fileHash acc userClear) := by
  apply keeps_retouch
  · intro file
    split
    · split_ifs
      · refine keeps_bind ?_ fun _ => keeps_pure _
        exact keeps_liftLocks (StorageHandler.keeps_subTerritoryUsedSpace _ _ _)
      · exact keeps_pure _
    · exact keeps_pure _
  · intro file file' w w' hrun
    split at hrun
    · simp only [run_ite_ok, run_bind_ok] at hrun
      obtain ⟨-, _, _, -, rfl, -⟩ | ⟨-, rfl, -⟩ := hrun <;> rfl
    · obtain ⟨rfl, -⟩ := run_pure_ok.mp hrun
      rfl

/-! ### Calls -/

theorem keeps_territoryFileDelivery (sender user : T.AccountId) (fileHash : Hash)
    (targetTerritory : TerrName) :
    Keeps World.Aside (territoryFileDelivery T sender user fileHash targetTerritory) := by
  refine keeps_get_bind fun w => keeps_ensure_bind ?_
  refine keeps_ensure_bind <| keeps_okOr_bind fun fileInfo => ?_
  refine keeps_ensure_bind ?_
  refine keeps_bind (keeps_liftLocks (StorageHandler.keeps_checkTerritryOwner _ _))
    fun _ => ?_
  refine keeps_bind (keeps_forM fun brief _ => ?_) fun _ => ?_
  · split_ifs
    · refine keeps_bind (keeps_okOr_bind fun _ => keeps_okOr _ _) fun space => ?_
      refine keeps_bind
        (keeps_liftLocks (StorageHandler.keeps_subTerritoryUsedSpace _ _ _)) fun _ => ?_
      exact keeps_liftLocks (StorageHandler.keeps_addTerritoryUsedSpace _ _ _)
    · exact keeps_pure _
  · refine keeps_get_bind fun w => keeps_bind (keeps_putHeld _ _) fun _ => ?_
    exact keeps_depositEvent _

/-! ## Successful calls -/

/-- **The simp set of the file bank**: a successful change of a storage item or call of another
pallet. -/
theorem bank_ok :
    (∀ {T : Config} {w w' : World T} {e : Event T} {u : Unit}, (depositEvent T e).run w = .ok u w' ↔
      { w with events := w.events ++ [e] } = w') ∧
    (∀ {T : Config} {w w' : World T} {α : Type} {x : StorageHandler.PalletM T.toConfig α} {a : α},
      (liftStorage T x).run w = .ok a w' ↔
        ∃ s, x.run w.storage = .ok a s ∧ { w with storage := s } = w') ∧
    (∀ {T : Config} {w w' : World T} {α : Type} {x : Sminer.MinerM T.AccountId α} {a : α},
      (liftMiner T x).run w = .ok a w' ↔ ∃ s, x.run w.miner = .ok a s ∧ { w with miner := s } = w') ∧
    (∀ {T : Config} {w w' : World T} {user : T.AccountId}
        {list : BoundedVec UserFileSliceInfo T.userFileLimit} {u : Unit},
      (putHeld T user list).run w = .ok u w' ↔
        { w with userHoldFileList := w.userHoldFileList.insert user list } = w') ∧
    ∀ {T : Config} {w w' : World T} {fileHash : Hash} {e : Error}
        {f : FileInfo T → PalletM T (FileInfo T)} {u : Unit},
      (tryMutateFile T fileHash e f).run w = .ok u w' ↔ ∃ file, w.file.lookup fileHash = some file ∧
        ∃ file' w₁, (f file).run w = .ok file' w₁ ∧
          { w₁ with file := w₁.file.insert fileHash file' } = w' := by
  refine ⟨run_modify_ok, run_zoom_ok, run_zoom_ok, run_modify_ok, ?_⟩
  intro T w w' fileHash e f u
  simp only [tryMutateFile, run_tryMutate_ok, run_ok, existsAndEq, Prod.mk.injEq]

section Calls

variable {sender acc : T.AccountId} {u : Unit} {brief : UserBrief T} {deal deal' : DealInfo T}
  {index fileSize : ℕ} {sigNeedVerify sig : BoundedVec UInt8 64} {teePuk : T.WorkerPublicKey}
  {fragmentHash : Hash} {info : SpaceProofInfo T.AccountId} {name : NameStr T}

/-! ### Buckets -/

/-- The objects of a bucket, which are none if there is no bucket. -/
def World.objects (w : World T) (key : T.AccountId × NameStr T) : List Hash :=
  ((w.bucket.lookup key).map fun bucket => bucket.objectList.val).getD []

theorem createBucketHelper_run {hash : Option Hash}
    (h : (createBucketHelper T acc name hash).run w = .ok u w') :
    ∃ bucket buckets, bucket.objectList.val = w.objects (acc, name) ++ hash.toList ∧
      w' = { w with
        bucket := w.bucket.insert (acc, name) bucket
        userBucketList := buckets } := by
  simp only [createBucketHelper, putBuckets, run_ok, BoundedVec.tryFrom_eq_some, existsAndEq] at h
  obtain ⟨-, hnew, -, objectList, hlist, list, -, rfl⟩ := h
  refine ⟨_, _, ?_, rfl⟩
  unfold World.objects
  rw [AList.lookup_eq_none.mpr hnew]
  exact hlist

theorem fileIntoBucket_run (h : (fileIntoBucket T brief fileHash).run w = .ok u w') :
    ∃ bucket buckets,
      bucket.objectList.val = w.objects (brief.user, brief.bucketName) ++ [fileHash] ∧
      w' = { w with
        bucket := w.bucket.insert (brief.user, brief.bucketName) bucket
        userBucketList := buckets } := by
  simp only [fileIntoBucket, addFileToBucket, tryMutateBucket, run_ok, run_ite_ok, run_tryMutate_ok,
    BoundedVec.tryPush_eq_some, existsAndEq, Prod.mk.injEq] at h
  rcases h with ⟨-, bucket, hbucket, list, hlist, rfl⟩ | ⟨-, hcreate⟩
  · refine ⟨{ bucket with objectList := list }, w.userBucketList, ?_, rfl⟩
    unfold World.objects
    rw [hbucket]
    exact hlist
  · exact createBucketHelper_run hcreate

theorem createBucket_ok {owner : T.AccountId}
    (h : (createBucket T sender owner name).run w = .ok u w') : w.Aside w' := by
  simp only [createBucket, run_ok, bank_ok, existsAndEq] at h
  obtain ⟨-, _, w₁, hcreate, rfl⟩ := h
  obtain ⟨bucket, buckets, -, rfl⟩ := createBucketHelper_run hcreate
  exact ⟨refl _, rfl, rfl, rfl⟩

theorem deleteBucket_ok {owner : T.AccountId}
    (h : (deleteBucket T sender owner name).run w = .ok u w') : w.Aside w' := by
  simp only [deleteBucket, putBuckets, run_ok, bank_ok, existsAndEq] at h
  obtain ⟨-, bucket, -, -, -, rfl⟩ := h
  exact ⟨refl _, rfl, rfl, rfl⟩

/-! ### Restoral orders -/

theorem generateRestoralOrder_ok
    (h : (generateRestoralOrder T sender fileHash fragmentHash).run w = .ok u w') :
    w.Retouched w' := by
  simp only [generateRestoralOrder, run_ok, bank_ok, existsAndEq] at h
  obtain ⟨-, file, hfile, hany, rfl⟩ := h
  refine ⟨refl _, rfl, rfl, .inr ⟨_, _, _, hfile, ?_, rfl⟩⟩
  exact FileInfo.alike_modifyFirst hany fun _ => rfl

theorem claimRestoralNoexistOrder_ok {miner : T.AccountId}
    (h : (claimRestoralNoexistOrder T sender miner fileHash fragmentHash).run w = .ok u w') :
    w.Retouched w' := by
  simp only [claimRestoralNoexistOrder, Sminer.isPositive, Sminer.getMinerState, run_ok, bank_ok,
    existsAndEq] at h
  obtain ⟨-, -, -, -, -, file, hfile, hany, -, -, rfl⟩ := h
  refine ⟨refl _, rfl, rfl, .inr ⟨_, _, _, hfile, ?_, rfl⟩⟩
  exact FileInfo.alike_modifyFirst hany fun _ => rfl

theorem claimRestoralOrder_ok (h : (claimRestoralOrder T sender fragmentHash).run w = .ok u w') :
    w.Aside w' := by
  simp only [claimRestoralOrder, Sminer.isPositive, Sminer.getMinerState, run_ok, bank_ok,
    existsAndEq] at h
  obtain ⟨-, -, -, order, -, -, -, -, -, -, rfl⟩ := h
  exact ⟨refl _, rfl, rfl, rfl⟩

/-! ### Idle space -/

theorem increasePoint_run {increase : T.Outside → T.AccountId → ℕ → Option T.Outside} {space : ℕ}
    (h : (increasePoint T increase teePuk space).run w = .ok u w') :
    ∃ outside, w' = { w with outside := outside } := by
  simp only [increasePoint, updateOutside, run_ok, run_ite_ok, existsAndEq] at h
  obtain ⟨-, stash, -, outside, -, rfl⟩ | ⟨-, rfl⟩ := h <;> exact ⟨_, rfl⟩

/-- A replacement takes idle space and a pending replacement from the sender. -/
theorem replaceIdleSpace_run
    (h : (replaceIdleSpace T sender info sigNeedVerify sig teePuk).run w = .ok u w') :
    ∃ signature count s₁ s₂ outside events,
      (Sminer.deleteIdleUpdateAccu sender info.accumulator info.front info.rear signature).run
        w.miner = .ok count s₁ ∧
      (Sminer.decreaseReplaceSpace sender (idleSegSize * count)).run s₁ = .ok () s₂ ∧
      w' = { w with miner := s₂, outside := outside, events := events } := by
  simp only [replaceIdleSpace, verifySpaceProof, verifySignature, updateWorkBlock, updateOutside,
    run_ok, bank_ok, checkedMul_eq_some, existsAndEq] at h
  obtain ⟨-, _, -, -, _, -, signature, -, count, s₁, hdelete, -, _, s₂, hreplace, _, w₃, hpoint,
    rfl⟩ := h
  obtain ⟨outside, rfl⟩ := increasePoint_run hpoint
  exact ⟨_, _, _, _, _, _, hdelete, hreplace, rfl⟩

/-- A certificate adds idle space to its miner and to the total. -/
theorem certIdleSpace_run
    (h : (certIdleSpace T sender info sigNeedVerify sig teePuk).run w = .ok u w') :
    ∃ signature space s outside events,
      (Sminer.addMinerIdleSpace sender info.accumulator info.front info.rear signature).run
        w.miner = .ok space s ∧
      w' = { w with
        miner := s
        storage := { w.storage with totalIdleSpace := w.storage.totalIdleSpace + space }
        outside := outside
        events := events } := by
  simp only [certIdleSpace, verifySpaceProof, verifySignature, updateWorkBlock, updateOutside,
    run_ok, bank_ok, StorageHandler.run_addTotalIdleSpace_ok, existsAndEq] at h
  obtain ⟨-, _, -, -, _, -, signature, -, space, s, hadd, _, w₃, hpoint, -, rfl⟩ := h
  obtain ⟨outside, rfl⟩ := increasePoint_run hpoint
  exact ⟨_, _, _, _, _, hadd, rfl⟩

/-! ### Files and deals -/

/-- The territory that a deal is for. -/
def DealInfo.key (deal : DealInfo T) : T.AccountId × TerrName :=
  (deal.user.user, deal.user.territoryName)

/-- The space that the file of a deal takes. -/
def DealInfo.size (deal : DealInfo T) : ℕ := calFileSize deal.segmentList.val.length

/-- The space that a report locks. -/
def DealInfo.share (deal : DealInfo T) : ℕ := fragmentSize * deal.segmentList.val.length

/-- The two ways of computing the size of a file agree. -/
theorem calFileSize_eq (segments : ℕ) :
    calFileSize segments = fragmentSize * (fragmentCount * segments) := by
  have hsize : segmentSize * 30 / 10 = fragmentSize * fragmentCount := by decide
  unfold calFileSize
  rw [hsize, mul_assoc]

/-- The space that another owner of a file is charged. -/
def flySize (segments : ℕ) : ℕ := segmentSize * 15 / 10 * segments

/-- What a file adds to the list of its owner and to the owner's bucket. -/
structure World.Owns (brief : UserBrief T) (fileHash : Hash) (size : ℕ) (w : World T)
    (bucket : BucketInfo T) (held : BoundedVec UserFileSliceInfo T.userFileLimit) : Prop where
  bucket : bucket.objectList.val = w.objects (brief.user, brief.bucketName) ++ [fileHash]
  held : held.val = (w.heldBy brief.user).val ++ [⟨brief.territoryName, fileHash, size⟩]

/-- A file gets another owner, who is charged for it. -/
theorem flyUploadFile_run (h : (flyUploadFile T fileHash brief).run w = .ok u w') :
    ∃ file t owner held bucket buckets, w.file.lookup fileHash = some file ∧
      w.storage.territory.lookup (brief.user, brief.territoryName) = some t ∧
      flySize file.segmentList.val.length ≤ t.remainingSpace ∧
      owner.val = file.owner.val ++ [brief] ∧
      w.Owns brief fileHash (flySize file.segmentList.val.length) bucket held ∧
      w' = { w with
        storage := { w.storage with
          territory := w.storage.territory.insert (brief.user, brief.territoryName) { t with
            usedSpace := t.usedSpace + flySize file.segmentList.val.length
            remainingSpace := t.remainingSpace - flySize file.segmentList.val.length } }
        file := w.file.insert fileHash { file with owner := owner }
        userHoldFileList := w.userHoldFileList.insert brief.user held
        bucket := w.bucket.insert (brief.user, brief.bucketName) bucket
        userBucketList := buckets } := by
  simp only [flyUploadFile, addUserHoldFileslice, StorageHandler.getUserAvailSpace, run_ok, bank_ok,
    StorageHandler.run_addTerritoryUsedSpace_ok, checkedMul_eq_some, checkedDiv_eq_some,
    BoundedVec.tryPush_eq_some, existsAndEq] at h
  obtain ⟨file, hfile, -, -, -, _, -, -, t, ht, -, hle, -, _, w₁, hbucket, -, held, hheld, owner,
    howner, rfl⟩ := h
  obtain ⟨bucket, buckets, hobjects, rfl⟩ := fileIntoBucket_run hbucket
  exact ⟨file, t, owner, _, _, _, hfile, ht, hle, howner, ⟨hobjects, hheld⟩, rfl⟩

theorem flyUploadFile_ok (h : (flyUploadFile T fileHash brief).run w = .ok u w') :
    w.Retouched w' := by
  obtain ⟨file, t, owner, held, bucket, buckets, hfile, ht, -, -, -, rfl⟩ := flyUploadFile_run h
  refine ⟨StorageHandler.World.sameLocks_insert ht rfl, rfl, rfl, .inr ⟨_, _, _, hfile, ?_, rfl⟩⟩
  exact (rfl : FileInfo.Alike file { file with owner := owner })

/-- A declaration of a stored file gives it another owner; any other one puts down a deal. -/
theorem uploadDeclaration_run {dealInfo : BoundedVec SegmentList T.segmentCount}
    (h : (uploadDeclaration T sender fileHash dealInfo brief fileSize).run w = .ok u w') :
    (∃ w₁ events, (flyUploadFile T fileHash brief).run w = .ok () w₁ ∧
      w' = { w₁ with events := events }) ∨
    fileHash ∉ w.file ∧ checkFileSpec dealInfo = true ∧ ∃ t events,
      w.storage.territory.lookup (brief.user, brief.territoryName) = some t ∧ t.state = .active ∧
      w' = { w with
        storage := { w.storage with
          territory := w.storage.territory.insert (brief.user, brief.territoryName) { t with
            lockedSpace := t.lockedSpace + calFileSize dealInfo.val.length
            remainingSpace := t.remainingSpace - calFileSize dealInfo.val.length } }
        dealMap := w.dealMap.insert fileHash
          { fileSize := fileSize, segmentList := dealInfo, user := brief,
            completeList := BoundedVec.empty }
        events := events } := by
  simp only [uploadDeclaration, generateDeal, fragmentSpace, StorageHandler.getUserAvailSpace, run_ok,
    run_ite_ok, bank_ok, StorageHandler.run_lockUserSpace_ok, checkedMul_eq_some, existsAndEq] at h
  obtain ⟨-, hspec, -, -, ⟨-, _, w₁, hfly, rfl⟩ | ⟨hfile, -, -, _, -, -, t, ht, hstate, -, -, rfl⟩⟩ := h
  · exact .inl ⟨w₁, _, hfly, rfl⟩
  · exact .inr ⟨hfile, hspec, t, _, ht, hstate, rfl⟩

/-- The file that a deal becomes. -/
structure DealInfo.Makes (deal : DealInfo T) (file : FileInfo T) : Prop where
  owner : file.owner.val = [deal.user]
  segments : deal.segmentList.val.mapM
    (fileSegment T (deal.completeList.val.insertionSort fun a b => a.index ≤ b.index)) =
      some file.segmentList.val

/-- A deal with one report more. -/
structure DealInfo.Reports (deal deal' : DealInfo T) (miner : T.AccountId) (index : ℕ) : Prop where
  fresh : ∀ info ∈ deal.completeList.val, index ≠ info.index ∧ miner ≠ info.miner
  completeList : deal'.completeList.val = deal.completeList.val ++ [⟨index, miner⟩]
  segmentList : deal'.segmentList = deal.segmentList
  user : deal'.user = deal.user

theorem DealInfo.Reports.nodup (h : deal.Reports deal' sender index)
    (hdeal : (deal.completeList.val.map CompleteInfo.miner).Nodup) :
    (deal'.completeList.val.map CompleteInfo.miner).Nodup := by
  rw [h.completeList]
  exact nodup_map_push hdeal fun info hinfo => (h.fresh info hinfo).2

/-- A deal with all its reports becomes a file: its space changes from locked to used and from
idle to service. -/
theorem completeDeal_run (h : (completeDeal T fileHash deal).run w = .ok u w') :
    ∃ s file t held bucket buckets events,
      (deal.completedAll T).run w = .ok () { w with miner := s } ∧
      deal.completeList.val.length = fragmentCount ∧ deal.Makes file ∧
      w.storage.territory.lookup deal.key = some t ∧ deal.size ≤ t.lockedSpace ∧
      deal.size ≤ w.storage.totalIdleSpace ∧ w.Owns deal.user fileHash deal.size bucket held ∧
      w' = { w with
        miner := s
        storage := { w.storage with
          territory := w.storage.territory.insert deal.key { t with
            lockedSpace := t.lockedSpace - deal.size
            usedSpace := t.usedSpace + deal.size }
          totalIdleSpace := w.storage.totalIdleSpace - deal.size
          totalServiceSpace := w.storage.totalServiceSpace + deal.size }
        file := w.file.insert fileHash file
        dealMap := w.dealMap.erase fileHash
        userHoldFileList := w.userHoldFileList.insert deal.user.user held
        bucket := w.bucket.insert (deal.user.user, deal.user.bucketName) bucket
        userBucketList := buckets
        events := events } := by
  simp only [completeDeal, generateFile, addUserHoldFileslice, run_ok, bank_ok,
    StorageHandler.run_unlockAndUsedUserSpace_ok, StorageHandler.run_subTotalIdleSpace_ok,
    StorageHandler.run_addTotalServiceSpace_ok, BoundedVec.tryFrom_eq_some,
    BoundedVec.tryPush_eq_some, existsAndEq] at h
  obtain ⟨_, w₁, hall, hlen, segmentList, hsegments, owner, howner, t, ht, hle, -, hidle, -, _, w₂,
    hbucket, -, held, hheld, rfl⟩ := h
  obtain ⟨s, rfl⟩ := (keeps_completedAll deal).run_ok hall
  obtain ⟨bucket, buckets, hobjects, rfl⟩ := fileIntoBucket_run hbucket
  exact ⟨s, _, t, held, bucket, buckets, _, hall, hlen, ⟨howner, hsegments⟩, ht, hle, hidle,
    ⟨hobjects, hheld⟩, rfl⟩

/-- **The three outcomes of a report**: the territory has expired and the deal is dropped, the
report is stored, or it was the last one and the deal becomes a file. -/
theorem transferReport_run (h : (transferReport T sender index fileHash).run w = .ok u w') :
    (index ≤ fragmentCount ∧ 0 < index) ∧ ∃ deal info, w.dealMap.lookup fileHash = some deal ∧
      w.miner.minerItems.lookup sender = some info ∧ info.state = .positive ∧
      ((StorageHandler.checkExpired w.storage deal.user.user deal.user.territoryName = true ∧
        ∃ s, (deal.forceUnlockSpace T).run w = .ok () { w with miner := s } ∧
          w' = { w with miner := s, dealMap := w.dealMap.erase fileHash }) ∨
      ∃ deal' s w₁ events, deal.Reports deal' sender index ∧
        (Sminer.lockSpace sender deal.share).run w.miner = .ok () s ∧
        w' = { w₁ with events := events } ∧
        (deal'.completeList.val.length ≠ fragmentCount ∧
            w₁ = { w with miner := s, dealMap := w.dealMap.insert fileHash deal' } ∨
          (completeDeal T fileHash deal').run
            { w with miner := s, dealMap := w.dealMap.insert fileHash deal' } = .ok () w₁)) := by
  simp only [transferReport, qualificationReportProcessing, DealInfo.completePart, Sminer.isPositive,
    Sminer.getMinerState, run_ok, run_ite_ok, bank_ok, BoundedVec.tryPush_eq_some, existsAndEq] at h
  obtain ⟨hle, hpos, info, hinfo, hstate, deal, hdeal, hrest⟩ := h
  refine ⟨⟨hle, hpos⟩, deal, info, hdeal, hinfo, of_decide_eq_true hstate, ?_⟩
  rcases hrest with ⟨hexpired, _, w₁, hunlock, rfl⟩ | ⟨-, hfresh, _, w₁, ⟨_, s, hlock, list, hlist,
    hrest⟩, rfl⟩
  · obtain ⟨s, rfl⟩ := (keeps_forceUnlockSpace deal).run_ok hunlock
    exact .inl ⟨hexpired, s, hunlock, rfl⟩
  · refine .inr ⟨{ deal with completeList := list }, s, w₁, _, ⟨hfresh, hlist, rfl, rfl⟩, hlock, rfl, ?_⟩
    rcases hrest with ⟨-, hcomplete⟩ | ⟨hshort, rfl⟩
    · exact .inr hcomplete
    · exact .inl ⟨hshort, rfl⟩

/-! ### Tags and restored fragments -/

/-- Only the storage of the workers' pallets may be different. -/
def World.OutsideOnly (w w' : World T) : Prop := ∃ outside, w' = { w with outside := outside }

instance : Std.Refl (World.OutsideOnly (T := T)) where
  refl w := ⟨w.outside, rfl⟩

instance : IsTrans (World T) World.OutsideOnly where
  trans := by
    rintro w _ _ ⟨outside, rfl⟩ ⟨outside', rfl⟩
    exact ⟨outside', rfl⟩

theorem keeps_updateOutside (e : Error) (f : T.Outside → Option T.Outside) :
    Keeps World.OutsideOnly (updateOutside T e f) :=
  keeps_get_bind fun _ => keeps_okOr_bind fun outside => keeps_modify fun _ => ⟨outside, rfl⟩

theorem keeps_tagPoint (teePuk teePuk' : T.WorkerPublicKey) (space : ℕ) :
    Keeps World.OutsideOnly (do
      increasePoint T T.increasePointForTag teePuk space
      updateWorkBlock T teePuk') := by
  refine keeps_bind (keeps_get_bind fun w => keeps_ite (fun _ => ?_) fun _ => keeps_pure _) fun _ => ?_
  · exact keeps_okOr_bind fun _ => keeps_updateOutside _ _
  · exact keeps_get_bind fun _ => keeps_updateOutside _ _

/-- A report tags the fragments of its miner. -/
theorem calculateReport_run {teeSig : BoundedVec UInt8 64}
    {info : TagSigInfo T.AccountId T.WorkerPublicKey}
    (h : (calculateReport T sender teeSig info).run w = .ok u w') :
    ∃ file hashList s₁ s₂ outside events, w.file.lookup info.fileHash = some file ∧
      (file.fragments.filter fun f => f.miner = sender ∧ f.tag = none).mapM
        (fun f => f.hash.binary) = some hashList ∧
      (Sminer.unlockSpaceToService sender (fragmentSize *
        (file.fragments.filter fun f => f.miner = sender ∧ f.tag = none).length)).run w.miner =
          .ok () s₁ ∧
      (Sminer.insertServiceBloom sender hashList).run s₁ = .ok () s₂ ∧
      w' = { w with
        miner := s₂
        outside := outside
        file := w.file.insert info.fileHash (file.mapFragments fun f =>
          if f.miner = sender ∧ f.tag = none then { f with tag := some w.now } else f)
        events := events } := by
  simp only [calculateReport, verifySignature, tagFragments, run_ok, bank_ok, checkedMul_eq_some,
    existsAndEq] at h
  obtain ⟨_, -, -, -, -, file, hfile, hashList, hbinary, -, -, _, s₁, hunlock, _, s₂, hinsert, _, w₁,
    hpoints, rfl⟩ := h
  obtain ⟨outside, rfl⟩ := (keeps_forM fun p _ => keeps_tagPoint _ _ _).run_ok hpoints
  exact ⟨file, hashList, s₁, s₂, outside, _, hfile, hbinary, hunlock, hinsert, rfl⟩

/-- The fragments that a restoral order may be about. -/
def RestoralOrderInfo.sought (order : RestoralOrderInfo T) (sender : T.AccountId)
    (fragmentHash : Hash) : FragmentInfo T → Bool :=
  fun f => f.hash = fragmentHash ∧ (f.miner = sender ∨ f.miner = order.originMiner)

/-- **A restored fragment**: the order is dropped, and if the fragment is still there it goes to
the sender. -/
theorem restoralOrderComplete_run
    (h : (restoralOrderComplete T sender fragmentHash).run w = .ok u w') :
    ∃ order info w₁ events, w.restoralOrder.lookup fragmentHash = some order ∧
      w.miner.minerItems.lookup sender = some info ∧ info.state = .positive ∧
      w' = { w₁ with
        restoralOrder := w.restoralOrder.erase fragmentHash
        events := events } ∧
      (order.fileHash ∉ w.file ∧ w₁ = w ∨ ∃ file, w.file.lookup order.fileHash = some file ∧
        (file.fragments.find? (order.sought sender fragmentHash) = none ∧
          w₁ = { w with file := w.file.insert order.fileHash file } ∨
        ∃ fragment s, file.fragments.find? (order.sought sender fragmentHash) = some fragment ∧
          fragment.miner ≠ sender ∧
          (restoreFragment T sender fragment).run w = .ok () { w with miner := s } ∧
          w₁ = { w with
            miner := s
            file := w.file.insert order.fileHash (file.modifyFirst
              (order.sought sender fragmentHash) fun f =>
                { f with tag := some w.now, avail := true, miner := sender }) })) := by
  simp only [restoralOrderComplete, Sminer.isPositive, Sminer.getMinerState, run_ok, run_ite_ok,
    bank_ok, existsAndEq] at h
  obtain ⟨info, hinfo, hstate, order, horder, -, -, ⟨hgone, rfl⟩ | ⟨-, file, hfile, file', w₁, hrun,
    rfl⟩⟩ := h
  · exact ⟨order, info, w, _, horder, hinfo, of_decide_eq_true hstate, rfl, .inl ⟨hgone, rfl⟩⟩
  refine ⟨order, info, { w₁ with file := w₁.file.insert order.fileHash file' },
    w₁.events ++ [.recoveryCompleted sender fragmentHash], horder, hinfo, of_decide_eq_true hstate, ?_⟩
  split at hrun
  · next fragment hfragment =>
      simp only [run_ok, existsAndEq] at hrun
      obtain ⟨hother, _, hrestore, rfl, -⟩ := hrun
      obtain ⟨s, rfl⟩ := (keeps_restoreFragment _ _).run_ok hrestore
      exact ⟨rfl, .inr ⟨file, hfile, .inr ⟨fragment, s, hfragment, hother, hrestore, rfl⟩⟩⟩
  · next hnone =>
      obtain ⟨rfl, rfl⟩ := run_pure_ok.mp hrun
      exact ⟨rfl, .inr ⟨file, hfile, .inl ⟨hnone, rfl⟩⟩⟩

end Calls

/-! ## The loops of the block hook -/

section Clearing

variable {R : World T → World T → Prop} [Std.Refl R] [IsTrans (World T) R]
  (hheld : ∀ acc list, Keeps R (putHeld T acc list))
  (hlist : ∀ f : World T → BoundedVec (T.AccountId × TerrName) 2000,
    Keeps R (modify fun w => { w with clearUserList := f w } : PalletM T PUnit))
  (hfile : ∀ acc fileHash, Keeps R (clearFile T acc fileHash))

/-- What every deletion keeps, a round keeps. -/
theorem keeps_clearFile_of {acc : T.AccountId}
    (hremove : Keeps R (removeFileOwner T fileHash acc false))
    (hlast : Keeps R (removeFileLastOwner T fileHash acc false))
    (hbucket : ∀ file, Keeps R (bucketRemoveFile T fileHash acc file)) :
    Keeps R (clearFile T acc fileHash) := by
  refine keeps_get_bind fun w => ?_
  split
  · refine keeps_ite (fun _ => ?_) fun _ => ?_
    · exact keeps_bind (keeps_attempt hremove) fun _ => keeps_attempt (hbucket _)
    · refine keeps_bind (keeps_attempt hlast) fun _ => ?_
      exact keeps_bind (keeps_attempt hlast) fun _ => keeps_attempt (hbucket _)
  · exact keeps_pure _

include hheld hfile in
/-- What every round keeps, the loop over the files of an account keeps. -/
theorem keeps_clearFiles_of (acc : T.AccountId) (territoryName : TerrName)
    (list : List UserFileSliceInfo) (hlen : list.length ≤ T.userFileLimit) (count : ℕ) :
    Keeps R (clearFiles T acc territoryName list hlen count) := by
  induction list generalizing count with
  | nil => exact keeps_pure _
  | cons fileInfo rest ih =>
    refine keeps_ite (fun _ => ih _ _) fun _ => keeps_ite (fun _ => ?_) fun _ => ?_
    · exact keeps_bind (hheld _ _) fun _ => keeps_pure _
    · exact keeps_bind (hfile _ _) fun _ => ih _ _

include hheld hlist hfile in
/-- **The rule for the clearing loops.** -/
theorem keeps_clearUsers_of (list : List (T.AccountId × TerrName)) (count : ℕ) :
    Keeps R (clearUsers T list count) := by
  induction list generalizing count with
  | nil => exact keeps_pure _
  | cons entry rest ih =>
    refine keeps_get_bind fun w => ?_
    split
    · refine keeps_bind (keeps_clearFiles_of hheld hfile _ _ _ _ _) fun result => ?_
      split
      · exact keeps_bind (hlist _) fun _ => ih _
      · exact keeps_pure _
    · exact ih _

end Clearing

end FileBank
