/-
# The indices of the files

A file names its owners, each with a territory and a bucket.  The same is meant to stand in the list
of files that the owner holds, and in the list of objects of the bucket.  All three are written
together when a file gets an owner and when an owner deletes it.  A delivery to another territory
writes the list of held files only, and the clearing of an expired territory leaves that list as it
is.

* `World.Indexed` : the lists say what the files say;
* `IndexSafe` : deliveries stay in the territory, and nothing is held in an expiring territory;
* `indexed_of_indexSafe` : runs with such steps keep the lists right;
* `delivered_file_unindexed` : what a delivery does otherwise.
-/
import CessNode.ClearList

open Dispatch StorageMap
open StorageHandler (alice nameA nameB)

namespace FileBank

open Function (update)

variable {T : Config}

/-! ## The invariant -/

/-- The owners of a file, as the file has them. -/
def World.briefs (w : World T) (fileHash : Hash) : List (UserBrief T) :=
  ((w.file.lookup fileHash).map fun file => file.owner.val).getD []

/-- The lists of held files and the buckets say what the files say. -/
structure World.Indexed (w : World T) : Prop where
  held : ∀ user fileHash territoryName,
    (∃ slice ∈ (w.heldBy user).val,
      slice.fileHash = fileHash ∧ slice.territoryName = territoryName) ↔
      ∃ brief ∈ w.briefs fileHash, brief.user = user ∧ brief.territoryName = territoryName
  objects : ∀ user bucketName fileHash,
    (∃ bucket, w.bucket.lookup (user, bucketName) = some bucket ∧
      fileHash ∈ bucket.objectList.val) ↔
      ∃ brief ∈ w.briefs fileHash, brief.user = user ∧ brief.bucketName = bucketName

/-- The owners of a file on the shelf. -/
def Shelf.briefs (s : Shelf T) (fileHash : Hash) : List (UserBrief T) :=
  ((s.file fileHash).map fun file => file.owner.val).getD []

/-- The same for the shelf. -/
structure Shelf.Indexed (s : Shelf T) : Prop where
  held : ∀ user fileHash territoryName,
    (∃ slice ∈ s.held user, slice.fileHash = fileHash ∧ slice.territoryName = territoryName) ↔
      ∃ brief ∈ s.briefs fileHash, brief.user = user ∧ brief.territoryName = territoryName
  objects : ∀ user bucketName fileHash,
    fileHash ∈ s.objects (user, bucketName) ↔
      ∃ brief ∈ s.briefs fileHash, brief.user = user ∧ brief.bucketName = bucketName

theorem World.mem_shelf_objects {w : World T} {key : T.AccountId × NameStr T} {fileHash : Hash} :
    fileHash ∈ w.shelf.objects key ↔
      ∃ bucket, w.bucket.lookup key = some bucket ∧ fileHash ∈ bucket.objectList.val := by
  unfold World.shelf
  dsimp only
  cases w.bucket.lookup key with
  | none => simp
  | some bucket => simp

theorem World.indexed_iff {w : World T} : w.Indexed ↔ w.shelf.Indexed := by
  constructor
  · intro h
    refine ⟨h.held, fun user bucketName fileHash => ?_⟩
    rw [World.mem_shelf_objects]
    exact h.objects user bucketName fileHash
  · intro h
    refine ⟨h.held, fun user bucketName fileHash => ?_⟩
    rw [← World.mem_shelf_objects]
    exact h.objects user bucketName fileHash

/-! ## What keeps it -/

variable {s s' : Shelf T} {fileHash : Hash} {file : FileInfo T}

theorem Shelf.briefs_of_file (h : s.file fileHash = some file) :
    s.briefs fileHash = file.owner.val := by
  unfold Shelf.briefs
  rw [h]
  rfl

theorem Shelf.briefs_update (h : s'.file = update s.file fileHash (some file)) :
    s'.briefs = update s.briefs fileHash file.owner.val := by
  funext hash
  unfold Shelf.briefs
  rw [h, Function.update_apply, Function.update_apply]
  split_ifs <;> rfl

/-- Nothing but the owners of the files matters. -/
theorem Shelf.Indexed.congr (h : s.Indexed) (hbriefs : s'.briefs = s.briefs)
    (hheld : s'.held = s.held) (hobjects : s'.objects = s.objects) : s'.Indexed := by
  constructor
  · rw [hheld, hbriefs]
    exact h.held
  · rw [hobjects, hbriefs]
    exact h.objects

/-- A file that is written with the same owners changes nothing. -/
theorem Shelf.Indexed.retouch {file' : FileInfo T} (h : s.Indexed)
    (hfile : s.file fileHash = some file) (howner : file'.owner = file.owner)
    (hs' : s'.file = update s.file fileHash (some file')) (hheld : s'.held = s.held)
    (hobjects : s'.objects = s.objects) : s'.Indexed := by
  refine h.congr ?_ hheld hobjects
  rw [Shelf.briefs_update hs', howner, ← Shelf.briefs_of_file hfile, Function.update_eq_self]

/-- A new owner is written in all three places. -/
theorem Shelf.Indexed.own (h : s.Indexed) {brief : UserBrief T} {size : ℕ}
    (howner : file.owner.val = s.briefs fileHash ++ [brief]) :
    (s.own brief fileHash size file).Indexed := by
  have hbriefs : (s.own brief fileHash size file).briefs =
      update s.briefs fileHash (s.briefs fileHash ++ [brief]) := by
    rw [Shelf.briefs_update (s := s) rfl, howner]
  have hmem : ∀ hash b, b ∈ (s.own brief fileHash size file).briefs hash ↔
      b ∈ s.briefs hash ∨ hash = fileHash ∧ b = brief := by
    intro hash b
    rw [hbriefs, Function.update_apply]
    split_ifs with heq
    · subst heq
      simp
    · simp [heq]
  constructor
  · intro user hash territoryName
    have hheld : ∀ slice, slice ∈ (s.own brief fileHash size file).held user ↔
        slice ∈ s.held user ∨ user = brief.user ∧ slice = ⟨brief.territoryName, fileHash, size⟩ := by
      intro slice
      show slice ∈ update s.held brief.user _ user ↔ _
      rw [Function.update_apply]
      split_ifs with heq
      · subst heq
        simp
      · simp [heq]
    simp only [hheld, hmem, or_and_right, exists_or]
    refine or_congr (h.held user hash territoryName) ?_
    constructor
    · rintro ⟨_, ⟨rfl, rfl⟩, rfl, rfl⟩
      exact ⟨brief, ⟨rfl, rfl⟩, rfl, rfl⟩
    · rintro ⟨_, ⟨rfl, rfl⟩, rfl, rfl⟩
      exact ⟨_, ⟨rfl, rfl⟩, rfl, rfl⟩
  · intro user bucketName hash
    have hobjects : hash ∈ (s.own brief fileHash size file).objects (user, bucketName) ↔
        hash ∈ s.objects (user, bucketName) ∨
          (user, bucketName) = (brief.user, brief.bucketName) ∧ hash = fileHash := by
      show hash ∈ update s.objects (brief.user, brief.bucketName) _ (user, bucketName) ↔ _
      rw [Function.update_apply]
      split_ifs with heq
      · rw [heq]
        simp
      · simp [heq]
    simp only [hobjects, hmem, or_and_right, exists_or]
    refine or_congr (h.objects user bucketName hash) ?_
    constructor
    · rintro ⟨hkey, rfl⟩
      obtain ⟨rfl, rfl⟩ := Prod.mk.inj hkey
      exact ⟨brief, ⟨rfl, rfl⟩, rfl, rfl⟩
    · rintro ⟨_, ⟨rfl, rfl⟩, rfl, rfl⟩
      exact ⟨rfl, rfl⟩

/-- A deletion takes all briefs of the account. -/
theorem FileInfo.briefs_without (file : FileInfo T) (acc : T.AccountId) :
    ((file.without acc).map fun file => file.owner.val).getD [] =
      file.owner.val.filter fun brief => brief.user ≠ acc := by
  unfold FileInfo.without
  split_ifs with hlast
  · obtain ⟨hlen, brief, hmem, huser⟩ := hlast
    -- the only brief is the one of the account
    obtain ⟨first, howner⟩ := List.length_eq_one_iff.mp
      (le_antisymm hlen (List.length_pos_of_mem hmem))
    rw [howner, List.mem_singleton] at hmem
    subst hmem
    rw [howner]
    simp [huser]
  · rfl

theorem Shelf.Indexed.delete {acc : T.AccountId} (h : s.Indexed)
    (hfile : s.file fileHash = some file)
    (hs' : s'.file = update s.file fileHash (file.without acc))
    (hobjects : s'.objects = s.unlisted acc fileHash file.owner.val)
    (hheld : s'.held = update s.held acc
      ((s.held acc).filter fun slice => slice.fileHash ≠ fileHash)) : s'.Indexed := by
  have hmem : ∀ hash brief, brief ∈ s'.briefs hash ↔
      brief ∈ s.briefs hash ∧ ¬ (hash = fileHash ∧ brief.user = acc) := by
    intro hash brief
    unfold Shelf.briefs
    rw [hs', Function.update_apply]
    split_ifs with heq
    · subst heq
      rw [FileInfo.briefs_without, hfile]
      simp
    · simp [heq]
  constructor
  · intro user hash territoryName
    have hslice : ∀ slice, slice ∈ s'.held user ↔
        slice ∈ s.held user ∧ ¬ (user = acc ∧ slice.fileHash = fileHash) := by
      rw [hheld, Function.update_apply]
      split_ifs with heq
      · subst heq
        simp
      · simp [heq]
    simp only [hslice, hmem]
    constructor
    · rintro ⟨slice, ⟨hold, hnot⟩, rfl, rfl⟩
      obtain ⟨brief, hbrief, rfl, hterritory⟩ := (h.held _ _ _).mp ⟨slice, hold, rfl, rfl⟩
      exact ⟨brief, ⟨hbrief, fun heq => hnot ⟨heq.2, heq.1⟩⟩, rfl, hterritory⟩
    · rintro ⟨brief, ⟨hbrief, hnot⟩, rfl, rfl⟩
      obtain ⟨slice, hold, rfl, hterritory⟩ := (h.held _ _ _).mpr ⟨brief, hbrief, rfl, rfl⟩
      exact ⟨slice, ⟨hold, fun heq => hnot ⟨heq.2, heq.1⟩⟩, rfl, hterritory⟩
  · intro user bucketName hash
    have hlisted : hash ∈ s'.objects (user, bucketName) ↔
        hash ∈ s.objects (user, bucketName) ∧ ¬ (user = acc ∧ hash = fileHash) := by
      rw [hobjects]
      unfold Shelf.unlisted
      split_ifs with hnamed
      · obtain ⟨rfl, -⟩ := hnamed
        simp
      · -- a bucket that the file does not name does not list it
        refine ⟨fun hold => ⟨hold, ?_⟩, fun hold => hold.1⟩
        rintro ⟨rfl, rfl⟩
        refine hnamed ⟨rfl, ?_⟩
        rw [← Shelf.briefs_of_file hfile]
        exact (h.objects _ _ _).mp hold
    rw [hlisted, h.objects]
    simp only [hmem]
    constructor
    · rintro ⟨⟨brief, hbrief, rfl, hbucket⟩, hnot⟩
      exact ⟨brief, ⟨hbrief, fun heq => hnot ⟨heq.2, heq.1⟩⟩, rfl, hbucket⟩
    · rintro ⟨brief, ⟨hbrief, hnot⟩, rfl, hbucket⟩
      exact ⟨⟨brief, hbrief, rfl, hbucket⟩, fun heq => hnot ⟨heq.2, heq.1⟩⟩

/-- A delivery to the territory in which the file is held already. -/
theorem Shelf.Indexed.deliver {user : T.AccountId} {target : TerrName} (h : s.Indexed)
    (htarget : ∀ brief ∈ s.briefs fileHash, brief.user = user → brief.territoryName = target) :
    ((s.held user).map fun slice =>
      if slice.fileHash = fileHash then { slice with territoryName := target } else slice) =
        s.held user := by
  refine (List.map_congr_left fun slice hmem => ?_).trans (List.map_id _)
  split_ifs with hhash
  · obtain ⟨brief, hbrief, huser, hterritory⟩ :=
      (h.held user fileHash slice.territoryName).mp ⟨slice, hmem, hhash, rfl⟩
    rw [← htarget brief hbrief huser, hterritory]
    rfl
  · rfl

/-! ## Runs -/

/-- A delivery is to the territory in which the user owns the file already; and when a block is
initialised, nobody holds a file in a territory whose frozen period is over. -/
def IndexSafe (n : Node T) : Action T → Prop
  | .call (.territoryFileDelivery _ user fileHash target) =>
    ∀ brief ∈ n.world.briefs fileHash, brief.user = user → brief.territoryName = target
  | .onInitialize =>
    ∀ entry ∈ n.world.expiring, ∀ slice ∈ (n.world.heldBy entry.1).val,
      slice.territoryName ≠ entry.2
  | .clearFile _ fileHash => n.world.file.lookup fileHash = none
  | _ => True

instance (n : Node T) (a : Action T) : Decidable (IndexSafe n a) := by
  unfold IndexSafe
  split <;> infer_instance

theorem Call.Changes.indexed {w : World T} {c : Call T} (h : c.Changes w s')
    (hcounted : w.Counted) (hok : ∀ sender user fileHash target,
      c = .territoryFileDelivery sender user fileHash target →
        ∀ brief ∈ w.briefs fileHash, brief.user = user → brief.territoryName = target)
    (hw : w.shelf.Indexed) : s'.Indexed := by
  cases h with
  | aside => exact hw
  | fly hfile howner =>
    refine hw.own ?_
    rw [Shelf.briefs_of_file hfile]
    exact howner
  | declare | expire | report | claim | drop => exact hw.congr rfl rfl rfl
  | @deliver sender user fileHash target file hfile howner =>
    refine hw.congr rfl ?_ rfl
    rw [hw.deliver (hok _ _ _ _ rfl), Function.update_eq_self]
  | @complete sender index dealHash deal deal' file size hdeal hreport hmakes =>
    -- a hash with a deal is not the hash of a file
    have hnone : w.shelf.file dealHash = none := by
      refine AList.lookup_eq_none.mpr fun hmem => hcounted.apart _ hmem ?_
      exact AList.lookup_isSome.mp (by rw [show w.dealMap.lookup dealHash = _ from hdeal]; rfl)
    have howned : (w.shelf.own deal.user dealHash size file).Indexed := by
      refine hw.own ?_
      unfold Shelf.briefs
      rw [hnone, hmakes.owner, hreport.user]
      rfl
    exact howned.congr rfl rfl rfl
  | tag hfile | order hfile | noexist hfile | restore _ hfile =>
    refine hw.retouch hfile ?_ rfl rfl rfl
    rfl
  | delete hfile => exact hw.delete hfile rfl rfl rfl

/-- The hook leaves files and lists as they are if nobody holds a file in an expiring territory. -/
theorem onInitialize_indexed {w : World T}
    (hok : ∀ entry ∈ w.expiring, ∀ slice ∈ (w.heldBy entry.1).val, slice.territoryName ≠ entry.2)
    (hw : w.shelf.Indexed) : (after (onInitialize T) w).shelf.Indexed := by
  rw [after_onInitialize_eq]
  obtain ⟨clearUserList, hafter⟩ := after_clearUsers_of_other w.clearList.val 0 w.listed
    fun entry hmem => hok entry (World.mem_expiring_of_mem_clearList hmem)
  rw [hafter]
  exact hw.congr rfl rfl rfl

theorem clearFile_of_none {w : World T} {acc : T.AccountId} (h : w.file.lookup fileHash = none) :
    after (clearFile T acc fileHash) w = w := by
  unfold clearFile
  rw [after_get_bind, h]
  rfl

/-- A step of a run keeps the lists right. -/
theorem step_indexed {n n' : Node T} {a : Action T} (hcounted : n.world.Counted)
    (hw : n.world.shelf.Indexed) (hok : IndexSafe n a) (hstep : n.step a = some n') :
    n'.world.shelf.Indexed := by
  cases a with
  | storage a =>
    obtain ⟨-, -, hworld⟩ := step_storage hstep
    rw [hworld]
    exact hw
  | onInitialize =>
    rw [step_onInitialize hstep]
    exact onInitialize_indexed hok hw
  | clearFile =>
    rw [step_clearFile hstep, clearFile_of_none hok]
    exact hw
  | call c =>
    rcases step_call hstep with hrun | hworld
    · refine (c.code_changes hrun).indexed hcounted ?_ hw
      rintro sender user fileHash target rfl
      exact hok
    · rw [hworld]
      exact hw
  | external =>
    rw [step_external hstep]
    exact hw

/-- **The indices of the files agree** in every run in which deliveries stay in the territory and
nobody holds a file in a territory when it expires. -/
theorem indexed_of_indexSafe {n : Node T} (hn : Runs.Reach Node.Start Node.step IndexSafe n) :
    n.world.Indexed := by
  rw [World.indexed_iff]
  refine Runs.Reach.inv (P := fun n => n.world.shelf.Indexed) ?_ ?_ hn
  · intro n hstart
    rw [hstart.shelf]
    constructor
    · simp [Shelf.briefs]
    · simp [Shelf.briefs]
  · intro n a n' hreach hw hok hstep
    exact step_indexed (Reached.counted (hreach.mono fun _ _ _ => trivial)) hw hok hstep

/-! ## Two runs -/

/-- The territories in which a user holds a file. -/
def World.heldIn (w : World T) (user : T.AccountId) (fileHash : Hash) : List TerrName :=
  ((w.heldBy user).val.filter fun slice => slice.fileHash = fileHash).map
    UserFileSliceInfo.territoryName

/-- The territories in which a user owns a file. -/
def World.ownedIn (w : World T) (user : T.AccountId) (fileHash : Hash) : List TerrName :=
  ((w.briefs fileHash).filter fun brief => decide (brief.user = user)).map UserBrief.territoryName

/-- Alice stores a file, and delivers it to the territory in which it is. -/
def deliveredBack : List (Action runtime) :=
  storedFile ++ [.call (.territoryFileDelivery alice alice (hashOf [99]) nameA)]

/-- A run whose lists are right. -/
theorem indexed_of_indexSafe_stored :
    ∃ n : Node runtime, Runs.Reach Node.Start Node.step IndexSafe n ∧
      n.world.heldIn alice (hashOf [99]) = [nameA] ∧ n.world.Indexed := by
  obtain ⟨n, hn, hheld⟩ := exists_of_play IndexSafe deliveredBack
    (fun n => decide (n.world.heldIn alice (hashOf [99]) = [nameA])) (by decide +kernel)
  exact ⟨n, hn, of_decide_eq_true hheld, indexed_of_indexSafe hn⟩

/-- Alice stores a file in one territory and delivers it to another one. -/
def deliveredAway : List (Action runtime) :=
  storedFile ++ [.storage (.call (.mintTerritory alice 1 nameB 30)),
    .call (.territoryFileDelivery alice alice (hashOf [99]) nameB)]

/-- After a delivery the list of held files and the file name different territories. -/
theorem delivered_file_unindexed :
    ∃ n : Node runtime, Reached n ∧ n.world.heldIn alice (hashOf [99]) = [nameB] ∧
      n.world.ownedIn alice (hashOf [99]) = [nameA] ∧ ¬ n.world.Indexed := by
  obtain ⟨n, hn, hcheck⟩ := exists_of_play (fun _ _ => True) deliveredAway
    (fun n => decide (n.world.heldIn alice (hashOf [99]) = [nameB] ∧
      n.world.ownedIn alice (hashOf [99]) = [nameA])) (by decide +kernel)
  obtain ⟨hheld, howned⟩ := of_decide_eq_true hcheck
  refine ⟨n, hn, hheld, howned, fun hindexed => ?_⟩
  -- the entry for the new territory has no brief
  obtain ⟨slice, hslice, hname⟩ : ∃ slice ∈ (n.world.heldBy alice).val.filter
      (fun slice => slice.fileHash = hashOf [99]), slice.territoryName = nameB := by
    have hmem : nameB ∈ n.world.heldIn alice (hashOf [99]) := by simp [hheld]
    exact List.mem_map.mp hmem
  obtain ⟨hmem, hhash⟩ := List.mem_filter.mp hslice
  obtain ⟨brief, hbrief, huser, hterritory⟩ :=
    (hindexed.held alice (hashOf [99]) nameB).mp ⟨slice, hmem, of_decide_eq_true hhash, hname⟩
  have howns : nameB ∈ n.world.ownedIn alice (hashOf [99]) :=
    List.mem_map.mpr ⟨brief, List.mem_filter.mpr ⟨hbrief, by simpa using huser⟩, hterritory⟩
  rw [howned] at howns
  exact absurd howns (by decide)

end FileBank
