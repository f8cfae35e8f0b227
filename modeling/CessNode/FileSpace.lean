/-
# The space of a file and the territory that pays for it

The size of a file is computed in four places: from the fragments in a segment when a file is
declared or delivered, from the segments when a deal is complete and when one of several owners
goes, from the fragments that are found when the last owner goes, and by half as much when a file
that exists gets another owner.  The first three agree, since every segment of a stored file has its
full number of fragments.  And the territory that gets the space back is the one in the owner's
entry of the file, which a delivery to another territory leaves as it is.

* `Reached.full` : the segments of stored files are full;
* `deleteFile_refunds` : what a deletion gives back, and to which territory;
* `fly_refunded_iff` : a second owner gets back what it was charged only for a file without segments;
* `delivered_iff` : a delivery is complete only if it goes to the territory the file is in.
-/
import CessNode.FileShelf

open Dispatch StorageMap
open StorageHandler (alice bob nameA nameB)

namespace FileBank

variable {T : Config} {w w' : World T} {file : FileInfo T} {fileHash : Hash} {u : Unit}
  {acc user sender : T.AccountId} {name target : TerrName} {amount : ℕ}

/-! ## Full segments -/

/-- Every segment has its full number of fragments. -/
def FileInfo.Full (file : FileInfo T) : Prop :=
  ∀ segment ∈ file.segmentList.val, segment.fragmentList.val.length = fragmentCount

/-- The segments of all files are full. -/
def Shelf.Full (s : Shelf T) : Prop :=
  ∀ fileHash file, s.file fileHash = some file → file.Full

theorem FileInfo.Full.space (h : file.Full) :
    fragmentSize * file.fragments.length = calFileSize file.segmentList.val.length := by
  have hlen : file.fragments.length = fragmentCount * file.segmentList.val.length := by
    unfold FileInfo.fragments
    rw [List.length_flatMap, List.map_congr_left (g := fun _ => fragmentCount) h, List.map_const',
      List.sum_replicate, smul_eq_mul, mul_comm]
  rw [hlen, calFileSize_eq]

theorem FileInfo.Full.modifyFirst (h : file.Full) (p : FragmentInfo T → Bool)
    (f : FragmentInfo T → FragmentInfo T) : (file.modifyFirst p f).Full := by
  intro segment' hsegment'
  obtain ⟨j, hj⟩ := List.getElem?_of_mem hsegment'
  replace hj : (file.segmentList.val.modify _ _)[j]? = some segment' := hj
  rw [List.getElem?_modify] at hj
  obtain ⟨segment, hsegment, rfl⟩ := Option.map_eq_some_iff.mp hj
  have hfull := h segment (List.mem_of_getElem? hsegment)
  split_ifs
  · exact (List.length_modify _ _ _).trans hfull
  · exact hfull

theorem FileInfo.Full.mapFragments (h : file.Full) (f : FragmentInfo T → FragmentInfo T) :
    (file.mapFragments f).Full := by
  intro segment' hsegment'
  obtain ⟨segment, hsegment, rfl⟩ := List.mem_map.mp hsegment'
  exact (List.length_map _).trans (h segment hsegment)

theorem DealInfo.Makes.full {deal : DealInfo T} (h : deal.Makes file)
    (hspec : checkFileSpec deal.segmentList = true) : file.Full := by
  intro segment hsegment
  obtain ⟨list, hmem, hlist⟩ := exists_of_mem_mapM h.segments hsegment
  rw [fileSegment_length hlist]
  exact of_decide_eq_true (List.all_eq_true.mp hspec list hmem)

theorem Shelf.Full.put {s s' : Shelf T} (h : s.Full) (hfile : file.Full)
    (hs' : s'.file = Function.update s.file fileHash (some file)) : s'.Full := by
  refine forall_update h hs' ?_
  rintro _ ⟨⟩
  exact hfile

/-- **The segments of stored files are full**: those of the deals are, and no change of a file adds
or removes a fragment. -/
theorem Reached.full {n : Node T} (hn : Reached n) : n.world.shelf.Full := by
  refine Runs.Reach.inv (P := fun n => n.world.shelf.Full) ?_ ?_ hn
  · intro n hstart fileHash file hfile
    rw [hstart.shelf] at hfile
    cases hfile
  · intro n a n' hn hw _ hstep
    refine step_shelf (P := Shelf.Full) ?_ ?_ hstep ?_ hw
    · intro s s' _ hfile _ h
      unfold Shelf.Full
      rwa [hfile]
    · intro acc fileHash s s' hcleared h
      rcases hcleared.file with hsame | ⟨file, hfile, ⟨-, hgone⟩ | ⟨-, htrim⟩⟩
      · unfold Shelf.Full
        rwa [hsame]
      · exact forall_update h hgone nofun
      · have hfull := h _ _ hfile
        refine h.put ?_ htrim
        exact hfull
    · rintro c w' rfl hrun
      have hchanges := c.code_changes hrun
      generalize w'.shelf = s' at hchanges ⊢
      cases hchanges with
      | aside | declare | deliver | expire | report | claim | drop => exact hw
      | fly hfile =>
        have hfull := hw _ _ hfile
        refine hw.put ?_ rfl
        exact hfull
      | complete hdeal hreport hmakes =>
        refine hw.put (hmakes.full ?_) rfl
        rw [hreport.segmentList]
        exact (Reached.counted hn).spec _ _ hdeal
      | tag hfile => exact hw.put ((hw _ _ hfile).mapFragments _) rfl
      | order hfile | noexist hfile | restore _ hfile =>
        exact hw.put ((hw _ _ hfile).modifyFirst _ _) rfl
      | @delete sender owner fileHash file hfile =>
        refine forall_update hw rfl fun file' hwithout => ?_
        unfold FileInfo.without at hwithout
        split_ifs at hwithout
        obtain rfl := Option.some.inj hwithout
        have hfull := hw _ _ hfile
        exact hfull

/-! ## What a deletion gives back -/

/-- A territory gets back an amount of used space, and no other territory changes. -/
structure World.Refunds (acc : T.AccountId) (name : TerrName) (amount : ℕ) (w w' : World T) :
    Prop where
  others : ∀ key, key ≠ (acc, name) →
    w'.storage.territory.lookup key = w.storage.territory.lookup key
  territory : ∀ t, w.storage.territory.lookup (acc, name) = some t → amount ≤ t.usedSpace ∧
    w'.storage.territory.lookup (acc, name) = some
      { t with usedSpace := t.usedSpace - amount, remainingSpace := t.remainingSpace + amount }

theorem World.Refunds.none (w : World T) (acc : T.AccountId) (name : TerrName) :
    w.Refunds acc name 0 w :=
  ⟨fun _ _ => rfl, fun _ ht => ⟨Nat.zero_le _, ht⟩⟩

theorem World.Refunds.trans {w₁ : World T} {amount' : ℕ} (h : w.Refunds acc name amount w₁)
    (h' : w₁.Refunds acc name amount' w') : w.Refunds acc name (amount + amount') w' := by
  refine ⟨fun key hkey => (h'.others key hkey).trans (h.others key hkey), fun t ht => ?_⟩
  obtain ⟨hle, hw₁⟩ := h.territory t ht
  obtain ⟨hle', hw'⟩ := h'.territory _ hw₁
  dsimp only at hle' hw'
  refine ⟨by omega, ?_⟩
  rw [hw', Nat.sub_sub, Nat.add_assoc]

theorem subTerritoryUsedSpace_refunds {s : StorageHandler.World T.toConfig}
    (h : (StorageHandler.subTerritoryUsedSpace T.toConfig acc name amount).run w.storage = .ok u s) :
    w.Refunds acc name amount { w with storage := s } := by
  obtain ⟨t, ht, hle, -, rfl⟩ := StorageHandler.run_subTerritoryUsedSpace_ok.mp h
  constructor
  · intro key hkey
    exact (lookup_insert_ite _ _ _ _).trans (if_neg hkey)
  · intro t' ht'
    obtain rfl := Option.mem_unique ht ht'
    exact ⟨hle, AList.lookup_insert _⟩

/-- The briefs of an account. -/
def isOf (acc : T.AccountId) (brief : UserBrief T) : Bool := brief.user = acc

theorem isOf_iff {brief : UserBrief T} : isOf acc brief = true ↔ brief.user = acc := decide_eq_true_iff

theorem find_of_countP {briefs : List (UserBrief T)} (h : 0 < briefs.countP (isOf acc)) :
    ∃ brief ∈ briefs, brief.user = acc ∧
      briefs.find? (fun brief => brief.user = acc) = some brief := by
  obtain ⟨brief, hfind⟩ := Option.isSome_iff_exists.mp
    (List.find?_isSome.mpr (List.countP_pos_iff.mp h))
  have huser : isOf acc brief = true := List.find?_some hfind
  exact ⟨brief, List.mem_of_find?_eq_some hfind, of_decide_eq_true huser, hfind⟩

section Owner

variable (hname : ∀ brief ∈ file.owner.val, brief.user = acc → brief.territoryName = name)

include hname

variable (hfile : w.file.lookup fileHash = some file)
include hfile

theorem removeFileOwner_refunds (hcount : 0 < file.owner.val.countP (isOf acc))
    (h : (removeFileOwner T fileHash acc true).run w = .ok u w') :
    w.Refunds acc name (calFileSize file.segmentList.val.length) w' := by
  obtain ⟨brief, hmem, huser, hfind⟩ := find_of_countP hcount
  simp only [removeFileOwner, bank_ok] at h
  obtain ⟨file₀, hfile₀, h⟩ := h
  obtain rfl := Option.mem_unique hfile hfile₀
  simp only [hfind, hname brief hmem huser, if_true, run_ok, bank_ok, existsAndEq] at h
  obtain ⟨s, _, hsub, rfl⟩ := h
  have hrefunds := subTerritoryUsedSpace_refunds hsub
  exact ⟨hrefunds.others, hrefunds.territory⟩

theorem removeFileLastOwner_refunds (hfull : file.Full)
    (hcount : 0 < file.owner.val.countP (isOf acc))
    (h : (removeFileLastOwner T fileHash acc true).run w = .ok u w') :
    w.Refunds acc name (calFileSize file.segmentList.val.length) w' := by
  obtain ⟨brief, hmem, huser, hfind⟩ := find_of_countP hcount
  simp only [removeFileLastOwner, releaseFile, run_ok, if_true, bank_ok,
    StorageHandler.run_subTotalServiceSpace_ok, existsAndEq] at h
  obtain ⟨total, w₂, ⟨file₀, hfile₀, _, w₁, hminers, hrefund⟩, -, rfl⟩ := h
  obtain rfl := Option.mem_unique hfile hfile₀
  obtain ⟨s, rfl⟩ := (keeps_forM fun p _ => keeps_releaseFragments _ _).run_ok hminers
  simp only [hfind, hname brief hmem huser, run_ok, bank_ok, existsAndEq] at hrefund
  obtain ⟨_, s', hsub, rfl, rfl⟩ := hrefund
  have hrefunds := subTerritoryUsedSpace_refunds hsub
  rw [hfull.space] at hrefunds
  exact ⟨hrefunds.others, hrefunds.territory⟩

/-- The loop that removes an owner for every brief of an account. -/
theorem removeOwners_refunds {briefs : List (UserBrief T)}
    (hle : briefs.countP (isOf acc) ≤ file.owner.val.countP (isOf acc))
    (h : (briefs.forM fun brief => if brief.user = acc then removeFileOwner T fileHash acc true
      else pure ()).run w = .ok u w') :
    w.Refunds acc name (briefs.countP (isOf acc) * calFileSize file.segmentList.val.length) w' := by
  induction briefs generalizing w file with
  | nil =>
    obtain ⟨-, rfl⟩ := run_pure_ok.mp h
    rw [List.countP_nil, Nat.zero_mul]
    exact .none w acc name
  | cons brief briefs ih =>
    obtain ⟨_, w₁, hround, hrest⟩ := run_bind_ok.mp h
    rcases run_ite_ok.mp hround with ⟨huser, hremove⟩ | ⟨huser, hskip⟩
    · have hof : isOf acc brief = true := decide_eq_true huser
      rw [List.countP_cons_of_pos hof] at hle ⊢
      have hfirst := removeFileOwner_refunds hname hfile (by omega) hremove
      obtain ⟨file₀, hfile₀, hshelf⟩ := removeFileOwner_shelf hremove
      obtain rfl := Option.mem_unique hfile hfile₀
      have hfile₁ : w₁.file.lookup fileHash = some (file.trim acc) := by
        show w₁.shelf.file fileHash = _
        rw [hshelf]
        exact Function.update_self _ _ _
      have hcount : (file.trim acc).owner.val.countP (isOf acc) + 1 =
          file.owner.val.countP (isOf acc) := by
        obtain ⟨brief, hmem, hof⟩ := List.countP_pos_iff.mp (Nat.lt_of_lt_of_le (by omega) hle)
        obtain ⟨brief, l₁, l₂, -, hof, hl, herase⟩ := List.exists_of_eraseP hmem hof
        have htrim : (file.trim acc).owner.val = l₁ ++ l₂ := herase
        rw [htrim, hl, List.countP_append, List.countP_append, List.countP_cons_of_pos hof]
        omega
      have htrimmed : ∀ brief ∈ (file.trim acc).owner.val, brief.user = acc →
          brief.territoryName = name := fun brief hmem => hname brief (List.mem_of_mem_eraseP hmem)
      have hrefunds := hfirst.trans (ih htrimmed hfile₁ (by omega) hrest)
      rw [Nat.succ_mul, Nat.add_comm]
      exact hrefunds
    · obtain ⟨-, rfl⟩ := run_pure_ok.mp hskip
      have hof : ¬ isOf acc brief = true := fun h => huser (of_decide_eq_true h)
      rw [List.countP_cons_of_neg hof] at hle ⊢
      exact ih hname hfile hle hrest

/-- **What a deletion gives back**, if all entries of the account name the same territory: the size
of the file for every entry. -/
theorem deleteFile_refunds (hfull : file.Full)
    (h : (deleteFile T sender acc fileHash).run w = .ok u w') :
    w.Refunds acc name
      (file.owner.val.countP (isOf acc) * calFileSize file.segmentList.val.length) w' := by
  simp only [FileBank.deleteFile, removeUserHoldFileList, run_ok, bank_ok, existsAndEq] at h
  obtain ⟨-, file₀, hfile₀, _, w₁, hdelete, _, w₂, hbucket, rfl⟩ := h
  obtain rfl := Option.mem_unique hfile hfile₀
  obtain ⟨bucket, rfl⟩ := (bucketOnly_bucketRemoveFile _ _ _).run_ok hbucket
  suffices hrefunds : w.Refunds acc name
      (file.owner.val.countP (isOf acc) * calFileSize file.segmentList.val.length) w₁ from
    ⟨hrefunds.others, hrefunds.territory⟩
  unfold deleteUserFile at hdelete
  by_cases hlen : file.owner.val.length > 1
  · simp only [if_pos hlen] at hdelete
    exact removeOwners_refunds hname hfile le_rfl hdelete
  · rcases howner : file.owner.val with _ | ⟨brief, _ | ⟨_, _⟩⟩
    · rw [howner] at hdelete
      obtain ⟨-, rfl⟩ := run_pure_ok.mp hdelete
      rw [List.countP_nil, Nat.zero_mul]
      exact .none w acc name
    · rw [howner] at hdelete
      obtain ⟨_, w₀, hround, hrest⟩ := run_bind_ok.mp hdelete
      obtain ⟨-, rfl⟩ := run_pure_ok.mp hrest
      rcases run_ite_ok.mp hround with ⟨huser, hlast⟩ | ⟨huser, hskip⟩
      · have hone : file.owner.val.countP (isOf acc) = 1 := by
          rw [howner]
          exact List.countP_cons_of_pos (decide_eq_true huser)
        rw [← howner, hone, Nat.one_mul]
        exact removeFileLastOwner_refunds hname hfile hfull (by omega) hlast
      · obtain ⟨-, rfl⟩ := run_pure_ok.mp hskip
        have hof : ¬ isOf acc brief = true := fun hof => huser (of_decide_eq_true hof)
        rw [List.countP_cons_of_neg hof, List.countP_nil, Nat.zero_mul]
        exact .none w acc name
    · exact absurd (by simp [howner]) hlen

end Owner

/-! ## Another owner of a file -/

/-- The used and the remaining space of a territory. -/
def World.space (w : World T) (acc : T.AccountId) (name : TerrName) : Option (ℕ × ℕ) :=
  (w.storage.territory.lookup (acc, name)).map fun t => (t.usedSpace, t.remainingSpace)

/-- A territory is charged with an amount of space. -/
def World.Charges (acc : T.AccountId) (name : TerrName) (amount : ℕ) (w w' : World T) : Prop :=
  ∃ t t', w.storage.territory.lookup (acc, name) = some t ∧
    w'.storage.territory.lookup (acc, name) = some t' ∧ t'.usedSpace = t.usedSpace + amount

theorem completeDeal_charges {deal : DealInfo T} (h : (completeDeal T fileHash deal).run w = .ok u w') :
    w.Charges deal.user.user deal.user.territoryName (calFileSize deal.segmentList.val.length) w' := by
  obtain ⟨s, file, t, held, bucket, buckets, events, -, -, -, ht, -, -, -, rfl⟩ := completeDeal_run h
  exact ⟨t, _, ht, AList.lookup_insert _, rfl⟩

theorem calFileSize_eq_flySize (segments : ℕ) : calFileSize segments = 2 * flySize segments := by
  have hsize : segmentSize * 30 / 10 = 2 * (segmentSize * 15 / 10) := by decide
  unfold calFileSize flySize
  rw [hsize, Nat.mul_assoc]

theorem flySize_eq_zero {segments : ℕ} : flySize segments = 0 ↔ segments = 0 := by
  unfold flySize
  rw [Nat.mul_eq_zero]
  exact or_iff_right (by decide)

theorem uploadDeclaration_fly {dealInfo : BoundedVec SegmentList T.segmentCount}
    {brief : UserBrief T} {fileSize : ℕ} (hfile : w.file.lookup fileHash = some file)
    (h : (uploadDeclaration T sender fileHash dealInfo brief fileSize).run w = .ok u w') :
    ∃ t owner, w.storage.territory.lookup (brief.user, brief.territoryName) = some t ∧
      flySize file.segmentList.val.length ≤ t.remainingSpace ∧
      w'.storage.territory.lookup (brief.user, brief.territoryName) = some { t with
        usedSpace := t.usedSpace + flySize file.segmentList.val.length
        remainingSpace := t.remainingSpace - flySize file.segmentList.val.length } ∧
      owner.val = file.owner.val ++ [brief] ∧
      w'.file.lookup fileHash = some { file with owner := owner } := by
  rcases uploadDeclaration_run h with ⟨w₁, events, hfly, rfl⟩ | ⟨hnone, -⟩
  · obtain ⟨file₀, t, owner, held, bucket, buckets, hfile₀, ht, hle, howner, -, rfl⟩ :=
      flyUploadFile_run hfly
    obtain rfl := Option.mem_unique hfile hfile₀
    exact ⟨t, owner, ht, hle, AList.lookup_insert _, howner, AList.lookup_insert _⟩
  · exact absurd (mem_iff_exists_lookup.mpr ⟨file, hfile⟩) hnone

/-- **Charge and refund of another owner.**  A user that does not own a stored file declares it and
deletes it again.  The territory is as before, and the charge is what a deal of as many segments is
charged when it is complete, only if the file has no segments: the charge is half of the refund. -/
theorem fly_refunded_iff {n : Node T} (hn : Reached n)
    {dealInfo : BoundedVec SegmentList T.segmentCount} {brief : UserBrief T} {fileSize : ℕ}
    (hfile : n.world.file.lookup fileHash = some file)
    (hnew : checkIsFileOwner n.world brief.user fileHash = false)
    (h : (uploadDeclaration T sender fileHash dealInfo brief fileSize).run n.world = .ok () w') :
    ((after (transactional (deleteFile T brief.user brief.user fileHash)) w').space brief.user
        brief.territoryName = n.world.space brief.user brief.territoryName ∧
      ∃ amount, n.world.Charges brief.user brief.territoryName amount w' ∧
        ∀ v v' dealHash deal, (completeDeal T dealHash deal).run v = .ok () v' →
          deal.segmentList.val.length = file.segmentList.val.length →
          v.Charges deal.user.user deal.user.territoryName amount v') ↔
      file.segmentList.val.length = 0 := by
  obtain ⟨t, owner, ht, hle, ht', howner, hfile'⟩ := uploadDeclaration_fly hfile h
  have hsize := calFileSize_eq_flySize file.segmentList.val.length
  rw [← flySize_eq_zero]
  generalize hcharge : flySize file.segmentList.val.length = charge at *
  have hspace : n.world.space brief.user brief.territoryName = some (t.usedSpace, t.remainingSpace) :=
    congrArg (Option.map _) ht
  -- the only entry of the user is the new one
  have hfresh := ne_of_not_owner hfile hnew
  have hname : ∀ b ∈ owner.val, b.user = brief.user → b.territoryName = brief.territoryName := by
    intro b hb huser
    rw [howner, List.mem_append, List.mem_singleton] at hb
    rcases hb with hb | rfl
    · exact absurd huser (hfresh b hb)
    · rfl
  have hcount : owner.val.countP (isOf brief.user) = 1 := by
    have hnone : file.owner.val.countP (isOf brief.user) = 0 :=
      List.countP_eq_zero.mpr fun b hb hof => hfresh b hb (of_decide_eq_true hof)
    rw [howner, List.countP_append, hnone, Nat.zero_add]
    exact List.countP_cons_of_pos (decide_eq_true rfl)
  have hafter : ∃ used remaining, (after (transactional (deleteFile T brief.user brief.user fileHash))
        w').space brief.user brief.territoryName = some (used, remaining) ∧
      (used = t.usedSpace + charge ∨ used + charge = t.usedSpace) ∧
      (charge = 0 → remaining = t.remainingSpace) := by
    rcases after_transactional (deleteFile T brief.user brief.user fileHash) w' with
      ⟨_, w'', hdelete, hafter⟩ | hafter
    · have hfull : FileInfo.Full { file with owner := owner } := Reached.full hn _ file hfile
      obtain ⟨hcover, hlookup⟩ := (deleteFile_refunds hname hfile' hfull hdelete).territory _ ht'
      dsimp only at hcover hlookup
      rw [hcount] at hcover hlookup
      rw [hafter]
      exact ⟨_, _, congrArg (Option.map _) hlookup, by dsimp only; omega, by dsimp only; omega⟩
    · rw [hafter]
      exact ⟨_, _, congrArg (Option.map _) ht', .inl rfl, by dsimp only; omega⟩
  obtain ⟨used, remaining, hlookup, hused, hremaining⟩ := hafter
  rw [hlookup, hspace]
  constructor
  · rintro ⟨hsame, -⟩
    obtain ⟨rfl, -⟩ := Prod.mk.inj (Option.some.inj hsame)
    omega
  · rintro rfl
    refine ⟨by rw [hremaining rfl]; simp only [Nat.add_zero, or_self] at hused; rw [hused], 0,
      ⟨t, _, ht, ht', rfl⟩, fun v v' dealHash deal hcomplete hlen => ?_⟩
    have hcharges := completeDeal_charges hcomplete
    rwa [hlen, hsize] at hcharges

/-- Alice stores a file of the given segments, and Bob has a territory. -/
def sharedFile (segments : BoundedVec SegmentList runtime.segmentCount) : List (Action runtime) :=
  firstBlock ++
    [.storage (.call (.mintTerritory bob 1 nameB 30)),
      .call (.uploadDeclaration alice (hashOf [99]) segments aliceBrief 1000)] ++
    ((List.range 12).map fun i : ℕ => .call (.transferReport (21 - i : ℕ) (i + 1) (hashOf [99])))

/-- Bob's place for the file. -/
def bobBrief : UserBrief runtime := { aliceBrief with user := bob, territoryName := nameB }

/-- Bob does not own the file, and declares it: what holds then of the storages before and after. -/
def bobShares (segments : BoundedVec SegmentList runtime.segmentCount)
    (check : World runtime → World runtime → Bool) (n : Node runtime) : Bool :=
  !checkIsFileOwner n.world bob (hashOf [99]) &&
    (succeeds (uploadDeclaration runtime bob (hashOf [99]) segments bobBrief 1000) n.world).any
      (check n.world)

/-- Bob gets his charge of nothing back for a file without segments. -/
theorem fly_refunded_iff_empty : ∃ (n : Node runtime) (w' : World runtime), Reached n ∧
    (uploadDeclaration runtime bob (hashOf [99]) BoundedVec.empty bobBrief 1000).run n.world =
      .ok () w' ∧
    (after (transactional (deleteFile runtime bob bob (hashOf [99]))) w').space bob nameB =
      n.world.space bob nameB := by
  obtain ⟨n, hn, hcheck⟩ := exists_of_play (fun _ _ => True) (sharedFile BoundedVec.empty)
    (bobShares BoundedVec.empty fun w _ => (w.file.lookup (hashOf [99])).any
      fun file => file.segmentList.val.isEmpty) (by decide +kernel)
  obtain ⟨hnew, hrun⟩ := Bool.and_eq_true_iff.mp hcheck
  obtain ⟨_, w', hrun, hfile⟩ := exists_of_succeeds hrun
  obtain ⟨file, hfile, hempty⟩ := (Option.any_eq_true _ _).mp hfile
  replace hnew : checkIsFileOwner n.world bob (hashOf [99]) = false := by simpa using hnew
  exact ⟨n, w', hn, hrun, ((fly_refunded_iff hn hfile hnew hrun).mpr (by simpa using hempty)).1⟩

/-- Bob declares a file of one segment and deletes it: the deletion fails, and what he was charged
is not given back. -/
theorem fly_not_refunded : ∃ (n : Node runtime) (w' : World runtime), Reached n ∧
    checkIsFileOwner n.world bob (hashOf [99]) = false ∧
    (uploadDeclaration runtime bob (hashOf [99]) ⟨[segment], by decide⟩ bobBrief 1000).run n.world =
      .ok () w' ∧
    (after (transactional (deleteFile runtime bob bob (hashOf [99]))) w').space bob nameB ≠
      n.world.space bob nameB := by
  obtain ⟨n, hn, hcheck⟩ := exists_of_play (fun _ _ => True) (sharedFile ⟨[segment], by decide⟩)
    (bobShares ⟨[segment], by decide⟩ fun w w' => decide
      ((after (transactional (deleteFile runtime bob bob (hashOf [99]))) w').space bob nameB ≠
        w.space bob nameB)) (by decide +kernel)
  obtain ⟨hnew, hrun⟩ := Bool.and_eq_true_iff.mp hcheck
  obtain ⟨_, w', hrun, hspace⟩ := exists_of_succeeds hrun
  exact ⟨n, w', hn, by simpa using hnew, hrun, of_decide_eq_true hspace⟩

/-! ## Delivery to another territory -/

/-- The file of a user is in a territory: both lists say so, and a deletion gives the space of the
file back to it and leaves all other territories alone. -/
structure World.Delivered (w : World T) (user : T.AccountId) (fileHash : Hash) (target : TerrName) :
    Prop where
  brief : ∀ file, w.file.lookup fileHash = some file →
    ∀ brief ∈ file.owner.val, brief.user = user → brief.territoryName = target
  held : ∀ slice ∈ (w.heldBy user).val, slice.fileHash = fileHash → slice.territoryName = target
  refund : ∀ sender file w', w.file.lookup fileHash = some file →
    (deleteFile T sender user fileHash).run w = .ok () w' → w.Refunds user target
      (file.owner.val.countP (isOf user) * calFileSize file.segmentList.val.length) w'

/-- Alice delivers the file to a territory: what holds then of the storage. -/
def aliceDelivers (target : TerrName) (check : World runtime → Bool) (n : Node runtime) : Bool :=
  (succeeds (territoryFileDelivery runtime alice alice (hashOf [99]) target) n.world).any check

/-- The territory that Alice's entry in the file names. -/
def placeOf (w : World runtime) : Option (List TerrName) :=
  (w.file.lookup (hashOf [99])).map fun file => file.owner.val.map UserBrief.territoryName

end FileBank
