/-
# The owners of a file

A file is meant to have at least one owner, and every owner once.  Owners are added when a file
that exists is declared again, and the test that should keep an owner from being added twice
compares entries of the list of held files, with the charged size and the territory; the size of
a file that was declared first is another one.  A deletion takes as many owners as the account has
entries, and it frees the space of the miners only if the list of owners had one entry before.

* `Shelf.Owned` : every file has an owner, and no owner twice;
* `NewOwner` : a file is declared only by users that do not own it yet;
* `owners_nonempty_nodup` : runs with such declarations keep to that, and the last owner's deletion
  frees the space;
* `doubled_owner` : what happens otherwise.
-/
import CessNode.FileShelf

open Dispatch StorageMap
open StorageHandler (alice)

namespace FileBank

variable {T : Config}

/-! ## The invariant -/

/-- There is an owner, and no account is one twice. -/
def FileInfo.Owned (file : FileInfo T) : Prop :=
  file.owner.val ≠ [] ∧ (file.owner.val.map UserBrief.user).Nodup

/-- Every file has an owner, and no account twice. -/
def Shelf.Owned (s : Shelf T) : Prop :=
  ∀ fileHash file, s.file fileHash = some file → file.Owned

variable {s : Shelf T} {fileHash : Hash} {file : FileInfo T}

theorem FileInfo.Owned.trim (h : file.Owned) (hlen : 1 < file.owner.val.length)
    (acc : T.AccountId) : (file.trim acc).Owned := by
  constructor
  · have hle : file.owner.val.length - 1 ≤
        (file.owner.val.eraseP fun brief => decide (brief.user = acc)).length := by
      rw [List.length_eraseP]
      split <;> omega
    intro hnil
    have hzero := congrArg List.length hnil
    change (file.owner.val.eraseP fun brief => decide (brief.user = acc)).length = 0 at hzero
    omega
  · exact h.2.sublist (List.eraseP_sublist.map _)

/-- If all owners are one account, there is only one. -/
theorem FileInfo.Owned.eq_singleton (h : file.Owned) {acc : T.AccountId}
    (hall : ∀ brief ∈ file.owner.val, brief.user = acc) :
    ∃ brief, file.owner.val = [brief] ∧ brief.user = acc := by
  obtain ⟨hne, hnodup⟩ := h
  match howner : file.owner.val with
  | [] => exact absurd howner hne
  | [brief] => exact ⟨brief, rfl, hall brief (by simp [howner])⟩
  | first :: second :: rest =>
    rw [howner] at hnodup hall
    have hfirst := hall first (by simp)
    have hsecond := hall second (by simp)
    simp [hfirst, hsecond] at hnodup

theorem FileInfo.Owned.without (h : file.Owned) {acc : T.AccountId} {file' : FileInfo T}
    (hwithout : file.without acc = some file') : file'.Owned := by
  unfold FileInfo.without at hwithout
  split_ifs at hwithout with hone
  obtain rfl := Option.some.inj hwithout
  constructor
  · -- otherwise all owners are the account that deletes the file
    intro hnil
    have hall : ∀ brief ∈ file.owner.val, brief.user = acc := by
      intro brief hmem
      by_contra hother
      have hkept : brief ∈ file.owner.val.filter fun brief => decide (brief.user ≠ acc) :=
        List.mem_filter.mpr ⟨hmem, decide_eq_true hother⟩
      rw [show file.owner.val.filter (fun brief => decide (brief.user ≠ acc)) = [] from hnil] at hkept
      cases hkept
    obtain ⟨brief, howner, huser⟩ := h.eq_singleton hall
    exact hone ⟨by simp [howner], brief, by simp [howner], huser⟩
  · exact h.2.sublist (List.filter_sublist.map _)

theorem Shelf.Owned.update (h : s.Owned) (hfile : file.Owned) {s' : Shelf T}
    (hs' : s'.file = Function.update s.file fileHash (some file)) : s'.Owned := by
  refine forall_update h hs' ?_
  rintro _ ⟨⟩
  exact hfile

theorem Shelf.Owned.remove (h : s.Owned) {s' : Shelf T}
    (hs' : s'.file = Function.update s.file fileHash none) : s'.Owned :=
  forall_update h hs' nofun

theorem Shelf.Owned.cleared (h : s.Owned) {acc : T.AccountId} {s' : Shelf T}
    (hs' : s.Cleared acc fileHash s') : s'.Owned := by
  rcases hs'.file with hsame | ⟨file, hfile, ⟨-, hgone⟩ | ⟨hlen, htrim⟩⟩
  · intro hash file hlookup
    exact h hash file (hsame ▸ hlookup)
  · exact h.remove hgone
  · exact h.update ((h _ _ hfile).trim hlen acc) htrim

/-! ## Runs -/

/-- A file is declared only by a user that does not own it yet. -/
def NewOwner (n : Node T) : Action T → Prop
  | .call (.uploadDeclaration _ fileHash _ brief _) =>
    checkIsFileOwner n.world brief.user fileHash = false
  | _ => True

instance (n : Node T) : (a : Action T) → Decidable (NewOwner n a)
  | .call c => by
    refine c.casesOn ?_ ?_ ?_ ?_ ?_ ?_ ?_ ?_ ?_ ?_ ?_ ?_ ?_ <;> intros <;> unfold NewOwner <;>
      infer_instance
  | .storage _ | .onInitialize | .clearFile .. | .external .. => .isTrue trivial

theorem Call.Changes.owned {w : World T} {c : Call T} {s' : Shelf T} (h : c.Changes w s')
    (hok : ∀ sender fileHash dealInfo brief fileSize,
      c = .uploadDeclaration sender fileHash dealInfo brief fileSize →
        checkIsFileOwner w brief.user fileHash = false) (hw : w.shelf.Owned) : s'.Owned := by
  cases h with
  | aside => exact hw
  | @fly sender fileHash dealInfo brief fileSize file owner size hfile howner =>
    obtain ⟨hne, hnodup⟩ := hw _ _ hfile
    refine hw.update ⟨?_, ?_⟩ rfl
    · rw [howner]
      exact List.append_ne_nil_of_left_ne_nil hne _
    · have hnew := ne_of_not_owner hfile (hok _ _ _ _ _ rfl)
      rw [howner]
      exact nodup_map_push hnodup fun b hb => (hnew b hb).symm
  | declare | deliver | expire | report | claim | drop => exact hw
  | complete hdeal hreport hmakes =>
    refine hw.update ?_ rfl
    unfold FileInfo.Owned
    rw [hmakes.owner]
    simp
  | tag hfile | order hfile | noexist hfile | restore _ hfile =>
    have howned := hw _ _ hfile
    refine hw.update ?_ rfl
    exact ⟨howned.1, howned.2⟩
  | @delete sender owner fileHash file hfile =>
    cases hwithout : file.without owner with
    | none => exact hw.remove rfl
    | some file' => exact hw.update ((hw _ _ hfile).without hwithout) rfl

/-- **Every file has an owner and none twice**, as long as nobody declares a file again. -/
theorem Reached.owned {n : Node T} (hn : Runs.Reach Node.Start Node.step NewOwner n) :
    n.world.shelf.Owned := by
  refine Runs.Reach.inv (P := fun n => n.world.shelf.Owned) ?_ ?_ hn
  · intro n hstart fileHash file hfile
    rw [hstart.shelf] at hfile
    cases hfile
  · intro n a n' _ hw hok hstep
    refine step_shelf (P := Shelf.Owned) ?_ ?_ hstep ?_ hw
    · intro s s' _ hfile _ h hash file hlookup
      exact h hash file (hfile ▸ hlookup)
    · exact fun acc fileHash s s' hcleared h => h.cleared hcleared
    · rintro c w' rfl hrun
      refine (c.code_changes hrun).owned ?_ hw
      rintro sender fileHash dealInfo brief fileSize rfl
      exact hok

/-- The deletion by the only owner is the removal of the file. -/
theorem deleteFile_last {w w' : World T} {sender owner : T.AccountId} {u : Unit}
    {brief : UserBrief T} (hfile : w.file.lookup fileHash = some file)
    (howner : file.owner.val = [brief]) (huser : brief.user = owner)
    (h : (deleteFile T sender owner fileHash).run w = .ok u w') :
    ∃ w₁, (removeFileLastOwner T fileHash owner true).run w = .ok () w₁ ∧
      w'.miner = w₁.miner ∧ w'.file.lookup fileHash = none := by
  simp only [FileBank.deleteFile, run_ok, existsAndEq] at h
  obtain ⟨-, file', hfile', _, w₁, hdelete, _, w₂, hbucket, _, w₃, hheld, hevent⟩ := h
  obtain rfl := Option.mem_unique hfile hfile'
  have hlast : (removeFileLastOwner T fileHash owner true).run w = .ok () w₁ := by
    unfold deleteUserFile at hdelete
    simp only [howner] at hdelete
    obtain ⟨_, w₀, hround, hrest⟩ := run_bind_ok.mp hdelete
    obtain ⟨-, rfl⟩ := run_pure_ok.mp hrest
    rcases run_ite_ok.mp hround with ⟨-, hlast⟩ | ⟨hother, -⟩
    · exact hlast
    · exact absurd huser hother
  have haside : w₁.Aside w' := IsTrans.trans _ _ _ ((keeps_bucketRemoveFile _ _ _).run_ok hbucket)
    (IsTrans.trans _ _ _ ((keeps_removeUserHoldFileList _ _).run_ok hheld)
      ((keeps_depositEvent _).run_ok hevent))
  refine ⟨w₁, hlast, haside.miner, ?_⟩
  rw [haside.file]
  have hshelf := congrArg Shelf.file (removeFileLastOwner_shelf hlast)
  exact (congrFun hshelf fileHash).trans (Function.update_self _ _ _)

/-- **Owners of a file.**  In every run in which nobody declares a file again that they own, every
file has an owner and no account twice; and a deletion by the last owner frees the space that the
miners have given to the file, which is gone then. -/
theorem owners_nonempty_nodup {n : Node T} (hn : Runs.Reach Node.Start Node.step NewOwner n) :
    (∀ fileHash file, n.world.file.lookup fileHash = some file →
      file.owner.val ≠ [] ∧ (file.owner.val.map UserBrief.user).Nodup) ∧
    ∀ fileHash file owner, n.world.file.lookup fileHash = some file →
      (∀ brief ∈ file.owner.val, brief.user = owner) → ∀ sender w',
      (deleteFile T sender owner fileHash).run n.world = .ok () w' →
        ∃ w₁, (removeFileLastOwner T fileHash owner true).run n.world = .ok () w₁ ∧
          w'.miner = w₁.miner ∧ w'.file.lookup fileHash = none := by
  refine ⟨Reached.owned hn, ?_⟩
  intro fileHash file owner hfile hall sender w' hdelete
  obtain ⟨brief, howner, huser⟩ := (Reached.owned hn fileHash file hfile).eq_singleton hall
  exact deleteFile_last hfile howner huser hdelete

/-! ## Two runs -/

/-- Alice stores a file, and a second one in the same territory. -/
def twoFiles : List (Action runtime) :=
  storedFile ++
    [.call (.uploadDeclaration alice (hashOf [100]) oneSegment aliceBrief 1000)] ++
    (List.range 12).map fun i : ℕ => .call (.transferReport (21 - i : ℕ) (i + 1) (hashOf [100]))

/-- The users that own a file. -/
def World.owners (w : World T) (fileHash : Hash) : Option (List T.AccountId) :=
  (w.file.lookup fileHash).map fun file => file.owner.val.map UserBrief.user

/-- A run in which every declaration is by a new owner, and what follows for its files. -/
theorem owners_nonempty_nodup_stored :
    ∃ n : Node runtime, Runs.Reach Node.Start Node.step NewOwner n ∧
      n.world.owners (hashOf [99]) = some [aliceBrief.user] ∧
      ∀ fileHash file, n.world.file.lookup fileHash = some file →
        file.owner.val ≠ [] ∧ (file.owner.val.map UserBrief.user).Nodup := by
  obtain ⟨n, hn, howners⟩ := exists_of_play NewOwner twoFiles
    (fun n => decide (n.world.owners (hashOf [99]) = some [aliceBrief.user])) (by decide +kernel)
  exact ⟨n, hn, of_decide_eq_true howners, (owners_nonempty_nodup hn).1⟩

/-- Alice declares the first file again. -/
def declareAgain : Action runtime :=
  .call (.uploadDeclaration alice (hashOf [99]) oneSegment aliceBrief 1000)

/-- A user that declares a file again owns it twice, and the file outlives its deletion, without
an owner. -/
theorem doubled_owner :
    (∃ n : Node runtime, Reached n ∧
      n.world.owners (hashOf [99]) = some [aliceBrief.user, aliceBrief.user]) ∧
    ∃ n : Node runtime, Reached n ∧ n.world.owners (hashOf [99]) = some [] := by
  constructor
  · obtain ⟨n, hn, howners⟩ := exists_of_play (fun _ _ => True) (twoFiles ++ [declareAgain])
      (fun n => decide (n.world.owners (hashOf [99]) = some [aliceBrief.user, aliceBrief.user]))
      (by decide +kernel)
    exact ⟨n, hn, of_decide_eq_true howners⟩
  · obtain ⟨n, hn, howners⟩ := exists_of_play (fun _ _ => True)
      (twoFiles ++ [declareAgain, .call (.deleteFile alice alice (hashOf [99]))])
      (fun n => decide (n.world.owners (hashOf [99]) = some [])) (by decide +kernel)
    exact ⟨n, hn, of_decide_eq_true howners⟩

end FileBank
