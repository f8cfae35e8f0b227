/-
# No expired territory is forgotten

The territories that `frozen_task` returns are meant to stay on the list of the file bank until
none of their files is left.  The hook writes the list anew in every block, so it has to get done
with all of them at once.  It does if the list is not too long, the files are not too many, and every
file has at most as many briefs of the account as there are entries of held files to clear; for a
round of the clearing loop removes the first brief of the account, whatever its territory is.

* `World.Worked cleared w w'` : so many briefs of every account and file have been removed;
* `clearFile_worked`, `clearFiles_worked`, `clearUsers_worked` : the loops of the hook;
* `Clearable` : the hook gets done;
* `listed_of_clearable` : no territory is forgotten in runs in which it does;
* `forgotten_territory` : what happens otherwise.
-/
import CessNode.FileIndices
import CessNode.MinerSpaceRuns
import CessNode.ChainRuntime

open Dispatch StorageMap
open StorageHandler (alice nameA nameB)

namespace FileBank

variable {T : Config} {exact : Prop}

/-! ## Briefs that have been removed -/

/-- The number of briefs that an account has in a file. -/
def World.shares (w : World T) (user : T.AccountId) (fileHash : Hash) : ℕ :=
  (w.briefs fileHash).countP fun brief => brief.user = user

/-- So many briefs of every account and file have been removed, or all of them; the lists of held
files are as they were. -/
structure World.Worked (cleared : T.AccountId → Hash → ℕ) (w w' : World T) : Prop where
  held : ∀ user, (w'.heldBy user).val = (w.heldBy user).val
  briefs : ∀ fileHash, w'.briefs fileHash ⊆ w.briefs fileHash
  shares : ∀ user fileHash,
    w'.shares user fileHash ≤ w.shares user fileHash - cleared user fileHash

variable {w w' w'' : World T} {cleared cleared' : T.AccountId → Hash → ℕ}

theorem World.Worked.trans (h : w.Worked cleared w') (h' : w'.Worked cleared' w'') :
    w.Worked (fun user fileHash => cleared user fileHash + cleared' user fileHash) w'' where
  held user := (h'.held user).trans (h.held user)
  briefs fileHash := List.Subset.trans (h'.briefs fileHash) (h.briefs fileHash)
  shares user fileHash := by
    have h₁ := h.shares user fileHash
    have h₂ := h'.shares user fileHash
    omega

/-- Files and held files are the same. -/
theorem World.Worked.of_same (hheld : ∀ user, (w'.heldBy user).val = (w.heldBy user).val)
    (hfile : w'.file = w.file) : w.Worked (fun _ _ => 0) w' := by
  have hbriefs : w'.briefs = w.briefs := by
    unfold World.briefs
    rw [hfile]
  refine ⟨hheld, fun fileHash => ?_, fun user fileHash => ?_⟩
  · rw [hbriefs]
    exact List.Subset.refl _
  · unfold World.shares
    rw [hbriefs]
    exact Nat.le_refl _

/-! ## A round of the clearing loop -/

/-- Removing the first match leaves one match less. -/
theorem countP_eraseP {α : Type} (p : α → Bool) (l : List α) :
    (l.eraseP p).countP p = l.countP p - 1 := by
  induction l with
  | nil => rfl
  | cons a l ih =>
    cases ha : p a with
    | true => rw [List.eraseP_cons_of_pos ha, List.countP_cons_of_pos ha, Nat.add_sub_cancel]
    | false =>
      have hneg : ¬ p a = true := by simp [ha]
      rw [List.eraseP_cons_of_neg hneg, List.countP_cons_of_neg hneg,
        List.countP_cons_of_neg hneg, ih]

/-- What is left of a file after a round. -/
def FileInfo.shrink (file : FileInfo T) (acc : T.AccountId) : Option (FileInfo T) :=
  if 1 < file.owner.val.length then some (file.trim acc) else none

/-- The briefs after a round. -/
theorem FileInfo.briefs_shrink (file : FileInfo T) (acc : T.AccountId) :
    ((file.shrink acc).map fun file => file.owner.val).getD [] =
      if 1 < file.owner.val.length then
        file.owner.val.eraseP fun brief => decide (brief.user = acc)
      else [] := by
  unfold FileInfo.shrink
  split_ifs <;> rfl

/-- **A round removes an owner, or the file.**  A file with one owner is always deleted: the miners
have the space that the deletion frees. -/
theorem clearFile_file (hw : w.Safe exact) {acc : T.AccountId} {fileHash : Hash}
    {file : FileInfo T} (hfile : w.file.lookup fileHash = some file) :
    (after (clearFile T acc fileHash) w).shelf.file =
      Function.update w.shelf.file fileHash (file.shrink acc) := by
  have hbucket := keepsShelf_bucketRemoveFile (T := T) fileHash acc file
  unfold clearFile
  rw [after_get_bind, hfile]
  dsimp only
  unfold FileInfo.shrink
  split_ifs with hlen
  · rw [after_bind_of_total (total_attempt _), after_attempt, after_attempt]
    obtain ⟨objects, hshelf⟩ := hbucket (after (removeFileOwner T fileHash acc false) w)
    rw [hshelf, after_removeFileOwner_shelf hfile]
  · obtain ⟨w₁, hlast⟩ := exists_removeFileLastOwner hw hfile acc
    rw [after_bind_of_total (total_attempt _), after_bind_of_total (total_attempt _), after_attempt,
      after_attempt, after_attempt, after_of_ok hlast]
    obtain ⟨objects, hshelf⟩ := hbucket (after (removeFileLastOwner T fileHash acc false) w₁)
    have h₁ := removeFileLastOwner_shelf hlast
    rw [hshelf]
    -- the second deletion finds no file
    rcases keepsShelf_removeFileLastOwner (T := T) fileHash acc false w₁ with h | h
    · rw [h, h₁]
    · rw [h, h₁]
      exact Function.update_idem _ _ _

theorem clearFile_worked (hw : w.Safe exact) (acc : T.AccountId) (fileHash : Hash) :
    w.Worked (fun user hash => if user = acc ∧ hash = fileHash then 1 else 0)
      (after (clearFile T acc fileHash) w) := by
  have hheld := (clearFile_cleared w acc fileHash).held
  cases hfile : w.file.lookup fileHash with
  | none =>
    rw [clearFile_of_none hfile]
    refine ⟨fun _ => rfl, fun _ => List.Subset.refl _, fun user hash => ?_⟩
    split_ifs with hround
    · obtain ⟨-, rfl⟩ := hround
      unfold World.shares World.briefs
      rw [hfile]
      exact Nat.zero_le _
    · exact Nat.le_refl _
  | some file =>
    have hbriefs : ∀ hash, (after (clearFile T acc fileHash) w).briefs hash =
        if hash = fileHash then
          if 1 < file.owner.val.length then
            file.owner.val.eraseP fun brief => decide (brief.user = acc)
          else []
        else w.briefs hash := by
      intro hash
      show (((after (clearFile T acc fileHash) w).shelf.file hash).map _).getD [] = _
      rw [clearFile_file hw hfile, Function.update_apply]
      split_ifs with hhash hlen
      · rw [FileInfo.briefs_shrink, if_pos hlen]
      · rw [FileInfo.briefs_shrink, if_neg hlen]
      · rfl
    have howner : w.briefs fileHash = file.owner.val := by
      unfold World.briefs
      rw [hfile]
      rfl
    refine ⟨fun user => congrFun hheld user, fun hash => ?_, fun user hash => ?_⟩
    · rw [hbriefs]
      split_ifs with hhash hlen
      · rw [hhash, howner]
        exact List.eraseP_subset
      · exact List.nil_subset _
      · exact List.Subset.refl _
    · unfold World.shares
      rw [hbriefs]
      split_ifs with hhash hlen hround hround
      · obtain ⟨rfl, -⟩ := hround
        rw [hhash, howner, countP_eraseP]
      · rw [hhash, howner]
        exact List.eraseP_sublist.countP_le
      · exact Nat.zero_le _
      · exact Nat.zero_le _
      · exact absurd ‹_ ∧ _›.2 hhash
      · exact Nat.le_refl _

/-! ## The loops -/

theorem run_clearFile (acc : T.AccountId) (fileHash : Hash) (w : World T) :
    (clearFile T acc fileHash).run w = .ok () (after (clearFile T acc fileHash) w) := by
  unfold clearFile
  cases hfile : w.file.lookup fileHash with
  | none => simp [after, hfile]
  | some file =>
    by_cases hlen : file.owner.val.length > 1
    · simp [after, hfile, hlen, run_attempt]
    · simp [after, hfile, hlen, run_attempt]

/-- **The loop over the files of an account** has a round for every entry in the territory, and
ends with the last one if they are not too many. -/
theorem clearFiles_worked (acc : T.AccountId) (territoryName : TerrName)
    (list : List UserFileSliceInfo) (hlen : list.length ≤ T.userFileLimit) (count : ℕ)
    (w : World T) (hw : w.Safe exact)
    (hfits : count + list.countP (fun slice => slice.territoryName = territoryName) <
      onceMaxClearFile) :
    ∃ w', (clearFiles T acc territoryName list hlen count).run w =
        .ok (some (count + list.countP fun slice => slice.territoryName = territoryName)) w' ∧
      w'.Safe exact ∧
      w.Worked (fun user hash =>
        if user = acc then
          list.countP fun slice => slice.territoryName = territoryName ∧ slice.fileHash = hash
        else 0) w' := by
  induction list generalizing count w with
  | nil =>
    refine ⟨w, rfl, hw, ?_⟩
    simp only [List.countP_nil, ite_self]
    exact .of_same (fun _ => rfl) rfl
  | cons slice rest ih =>
    by_cases hname : slice.territoryName = territoryName
    · have hcount : (slice :: rest).countP (fun slice => decide (slice.territoryName = territoryName))
          = rest.countP (fun slice => decide (slice.territoryName = territoryName)) + 1 :=
        List.countP_cons_of_pos (decide_eq_true hname)
      have hnext : (checkedAdd 32 count 1).getD onceMaxClearFile = count + 1 := by
        have hadd : checkedAdd 32 count 1 = some (count + 1) := by
          refine checkedAdd_eq_some.mpr ⟨?_, rfl⟩
          unfold onceMaxClearFile at hfits
          omega
        rw [hadd]
        rfl
      obtain ⟨w', hrun, hsafe, hworked⟩ := ih ((Nat.le_succ _).trans hlen) (count + 1)
        (after (clearFile T acc slice.fileHash) w) (keeps_safe_clearFile _ _ w hw) (by omega)
      refine ⟨w', ?_, hsafe, ?_⟩
      · rw [clearFiles, if_neg (not_not.mpr hname)]
        rw [hnext, if_neg (by omega), run_bind_ok]
        refine ⟨(), _, run_clearFile _ _ _, ?_⟩
        rw [hrun]
        congr 2
        omega
      · have hsum := (clearFile_worked hw acc slice.fileHash).trans hworked
        convert hsum using 3 with user hash
        by_cases huser : user = acc
        · by_cases hhash : hash = slice.fileHash
          · simp [huser, hname, hhash, Nat.add_comm]
          · simp [hhash, Ne.symm hhash]
        · simp [huser]
    · have hcount : (slice :: rest).countP (fun slice => decide (slice.territoryName = territoryName))
          = rest.countP (fun slice => decide (slice.territoryName = territoryName)) :=
        List.countP_cons_of_neg (by simp [hname])
      rw [hcount] at hfits ⊢
      obtain ⟨w', hrun, hsafe, hworked⟩ := ih ((Nat.le_succ _).trans hlen) count w hw hfits
      refine ⟨w', ?_, hsafe, ?_⟩
      · rw [clearFiles, if_pos hname]
        exact hrun
      · convert hworked using 3 with user hash
        simp [hname]

/-- The entries of held files in these territories. -/
def World.workload (w : World T) (list : List (T.AccountId × TerrName)) : ℕ :=
  (list.map fun entry =>
    (w.heldBy entry.1).val.countP fun slice => slice.territoryName = entry.2).sum

/-- The rounds for an account and a file. -/
def World.rounds (w : World T) (list : List (T.AccountId × TerrName)) (user : T.AccountId)
    (fileHash : Hash) : ℕ :=
  (list.map fun entry =>
    if user = entry.1 then
      (w.heldBy entry.1).val.countP fun slice =>
        slice.territoryName = entry.2 ∧ slice.fileHash = fileHash
    else 0).sum

theorem World.Worked.workload_eq (h : w.Worked cleared w') (list : List (T.AccountId × TerrName)) :
    w'.workload list = w.workload list := by
  unfold World.workload
  simp only [h.held]

theorem World.Worked.rounds_eq (h : w.Worked cleared w') (list : List (T.AccountId × TerrName)) :
    w'.rounds list = w.rounds list := by
  unfold World.rounds
  simp only [h.held]

/-- **The loop over the territories** gets to its end if the entries are not too many. -/
theorem clearUsers_worked (list : List (T.AccountId × TerrName)) (count : ℕ) (w : World T)
    (hw : w.Safe exact) (hfits : count + w.workload list < onceMaxClearFile) :
    w.Worked (w.rounds list) (after (clearUsers T list count) w) := by
  induction list generalizing count w with
  | nil => exact .of_same (fun _ => rfl) rfl
  | cons entry rest ih =>
    obtain ⟨acc, territoryName⟩ := entry
    have hload : w.workload ((acc, territoryName) :: rest) =
        (w.heldBy acc).val.countP (fun slice => decide (slice.territoryName = territoryName)) +
          w.workload rest := by
      unfold World.workload
      rw [List.map_cons, List.sum_cons]
    have hrounds : w.rounds ((acc, territoryName) :: rest) = fun user hash =>
        (if user = acc then (w.heldBy acc).val.countP fun slice =>
          decide (slice.territoryName = territoryName ∧ slice.fileHash = hash) else 0) +
            w.rounds rest user hash := by
      funext user hash
      unfold World.rounds
      rw [List.map_cons, List.sum_cons]
    rw [hload] at hfits
    rw [hrounds, clearUsers, after_get_bind]
    cases hheld : w.userHoldFileList.lookup acc with
    | none =>
      have hval : (w.heldBy acc).val = [] := by
        unfold World.heldBy
        rw [hheld]
        rfl
      simp only [hval, List.countP_nil, ite_self, Nat.zero_add] at hfits ⊢
      exact ih count w hw hfits
    | some held =>
      have hval : (w.heldBy acc).val = held.val := by
        unfold World.heldBy
        rw [hheld]
        rfl
      rw [hval] at hfits ⊢
      obtain ⟨w₁, hrun, hsafe, hworked⟩ := clearFiles_worked acc territoryName held.val.reverse
        (by rw [List.length_reverse]; exact held.property) count w hw
        (by rw [List.countP_reverse]; omega)
      simp only [List.countP_reverse] at hrun hworked
      rw [after_bind, hrun]
      set w₂ : World T := { w₁ with
        clearUserList := w₁.clearUserList.retain fun entry => entry.1 ≠ acc } with hw₂
      have hsafe₂ : w₂.Safe exact :=
        Keeps.safe_of_aside (keeps_modify fun _ => ⟨refl _, rfl, rfl, rfl⟩ :
          Keeps World.Aside (modify fun w : World T => { w with
            clearUserList := w.clearUserList.retain fun entry => entry.1 ≠ acc })) w₁ hsafe
      have hlisted : w₁.Worked (fun _ _ => 0) w₂ := .of_same (fun _ => rfl) rfl
      have hall := hworked.trans hlisted
      have hrest := ih (count + held.val.countP fun slice =>
        decide (slice.territoryName = territoryName)) w₂ hsafe₂ (by
          rw [hall.workload_eq]
          omega)
      rw [hall.rounds_eq] at hrest
      exact hall.trans hrest

/-! ## The hook -/

/-- The hook gets done with the territories that expire in this block. -/
structure World.Clearable (w : World T) : Prop where
  list : w.expiring.length ≤ 2000
  files : w.workload w.expiring < onceMaxClearFile
  shares : ∀ entry ∈ w.expiring, ∀ fileHash ∈ w.file.keys,
    (∃ brief ∈ w.briefs fileHash, brief.user = entry.1 ∧ brief.territoryName = entry.2) →
      w.shares entry.1 fileHash ≤ w.rounds w.expiring entry.1 fileHash

instance (w : World T) : Decidable w.Clearable :=
  decidable_of_iff (w.expiring.length ≤ 2000 ∧ w.workload w.expiring < onceMaxClearFile ∧
    ∀ entry ∈ w.expiring, ∀ fileHash ∈ w.file.keys,
      (∃ brief ∈ w.briefs fileHash, brief.user = entry.1 ∧ brief.territoryName = entry.2) →
        w.shares entry.1 fileHash ≤ w.rounds w.expiring entry.1 fileHash)
    ⟨fun h => ⟨h.1, h.2.1, h.2.2⟩, fun h => ⟨h.list, h.files, h.shares⟩⟩

/-- Some file has a brief of the account in the territory. -/
def World.Keeping (w : World T) (entry : T.AccountId × TerrName) : Prop :=
  ∃ fileHash ∈ w.file.keys,
    ∃ brief ∈ w.briefs fileHash, brief.user = entry.1 ∧ brief.territoryName = entry.2

instance (w : World T) : DecidablePred w.Keeping := fun _ => by
  unfold World.Keeping
  infer_instance

theorem World.Safe.listed (hw : w.Safe exact) : w.listed.Safe exact := by
  have hfrozen := keeps_liftTerritory (T := T) StorageHandler.keeps_frozenTask w
  unfold liftStorage at hfrozen
  rw [after_zoom] at hfrozen
  exact ⟨(hw.counted.sameFiles hfrozen).sameFiles ⟨rfl, rfl, rfl⟩, hw.sound.congr rfl rfl rfl⟩

/-- **Nothing is left to clear** when the hook has got done. -/
theorem onInitialize_clears (hw : w.Safe exact) (h : w.Clearable) {entry : T.AccountId × TerrName}
    (hmem : entry ∈ w.expiring) : ¬ (after (onInitialize T) w).Keeping entry := by
  have hlist : w.clearList.val = w.expiring := by
    unfold World.clearList BoundedVec.tryFrom
    rw [dif_pos h.list]
    rfl
  have hworked : w.Worked (w.rounds w.expiring) (after (onInitialize T) w) := by
    have hlisted : w.Worked (fun _ _ => 0) w.listed := .of_same (fun _ => rfl) rfl
    have hloop := clearUsers_worked w.expiring 0 w.listed hw.listed (by
      rw [Nat.zero_add]
      exact h.files)
    have hall := hlisted.trans hloop
    simp only [Nat.zero_add] at hall
    rw [after_onInitialize_eq, hlist]
    exact hall
  rintro ⟨fileHash, -, brief, hbrief, huser, hname⟩
  have hold := hworked.briefs fileHash hbrief
  have hfile : fileHash ∈ w.file.keys := by
    by_contra hnone
    unfold World.briefs at hold
    rw [AList.lookup_eq_none.mpr hnone] at hold
    cases hold
  have hle := h.shares entry hmem fileHash hfile ⟨brief, hold, huser, hname⟩
  have hleft := hworked.shares entry.1 fileHash
  have hpos : 0 < (after (onInitialize T) w).shares entry.1 fileHash :=
    List.countP_pos_iff.mpr ⟨brief, hbrief, decide_eq_true huser⟩
  omega

end FileBank

namespace Chain

variable {T : Config}

/-! ## Runs -/

/-- The territories that `frozen_task` returns in a step. -/
def Node.returned (n : Node T) : Action T → List (T.AccountId × TerrName)
  | .hook => match n.phase with
    | .initializing => n.world.bank.expiring
    | _ => []
  | _ => []

/-- The territories that are due after a step: those that were due or have been returned, as long
as some file has a brief of the account in them. -/
def awaited (n : Node T) (a : Action T) (n' : Node T) (due : List (T.AccountId × TerrName)) :
    List (T.AccountId × TerrName) :=
  (due ++ n.returned a).filter fun entry => n'.world.bank.Keeping entry

theorem mem_awaited {n n' : Node T} {a : Action T} {due : List (T.AccountId × TerrName)}
    {entry : T.AccountId × TerrName} (hreturned : entry ∈ n.returned a)
    (hkeeping : n'.world.bank.Keeping entry) : entry ∈ awaited n a n' due :=
  List.mem_filter.mpr ⟨List.mem_append_right _ hreturned, decide_eq_true hkeeping⟩

/-- A run with an observer who notes the territories that are due. -/
def Awaiting (ok : Node T → Action T → Prop) (p : Node T × List (T.AccountId × TerrName)) : Prop :=
  Runs.Reach (fun p => p.1.Start ∧ p.2 = []) (Runs.observe Node.step awaited)
    (fun p a => ok p.1 a) p

/-- The hook of the file bank gets done in every block. -/
def ClearableStep (n : Node T) : Action T → Prop
  | .hook => match n.phase with
    | .initializing => n.world.bank.Clearable
    | _ => True
  | _ => True

instance (n : Node T) (a : Action T) : Decidable (ClearableStep n a) := by
  unfold ClearableStep
  split
  · split <;> infer_instance
  · infer_instance

/-- What `frozen_task` returns is cleared in the same step. -/
theorem step_clears {n n' : Node T} {a : Action T} (hsafe : n.world.bank.Safe False)
    (hok : ClearableStep n a) (hstep : n.step a = some n') {entry : T.AccountId × TerrName}
    (hmem : entry ∈ n.returned a) : ¬ n'.world.bank.Keeping entry := by
  obtain ⟨phase, calls, w⟩ := n
  cases a with
  | hook =>
    cases phase with
    | initializing =>
      obtain rfl := Option.some.inj hstep
      exact FileBank.onInitialize_clears hsafe hok hmem
    | _ => cases hmem
  | _ => cases hmem

/-! ## Two runs -/

/-- In a block for which nothing is filed the hook gets done. -/
theorem clearable_of_vacant {w : World T} (h : w.Vacant) : w.bank.Clearable := by
  have hnil : T.hashOrder [] = [] := List.perm_nil.mp (T.hashOrder_perm [])
  have hfrozen : w.bank.storage.book.freezeAll = w.bank.storage.book := by
    unfold StorageHandler.Book.freezeAll
    rw [show w.bank.storage.book.territoryFrozen.iterPrefix w.bank.storage.book.now = [] from
      h.frozen, hnil]
    rfl
  have hexpiring : w.bank.expiring = [] := by
    unfold FileBank.World.expiring StorageHandler.Book.expiring
    rw [hfrozen, show w.bank.storage.book.territoryExpired.iterPrefix w.bank.storage.book.now = []
      from h.expired, hnil]
    rfl
  refine ⟨?_, ?_, ?_⟩
  · rw [hexpiring]
    exact Nat.zero_le _
  · rw [hexpiring]
    exact Nat.zero_lt_succ _
  · rw [hexpiring]
    exact nofun

theorem clearableStep_of_vacant (n : Node T) (h : n.world.Vacant) : ClearableStep n .hook := by
  unfold ClearableStep
  dsimp only
  split
  · exact clearable_of_vacant h
  · trivial

/-- Miners register after the block in which there is randomness for a challenge. -/
def lateMiners : List (Runs.Part (Action runtime)) :=
  .idle 43199 :: freshBlock ++ minersAtWork

/-- A lease of thirty days ends, and its frozen period. -/
def untilExpiry : List (Runs.Part (Action runtime)) :=
  [.idle 431999] ++ freshBlock ++ [.idle 100799, .act .newBlock]

/-- The territory expires in this block, and the file is gone. -/
def Node.cleared (n : Node T) (entry : T.AccountId × TerrName) (fileHash : Hash) : Bool :=
  decide (entry ∈ n.world.bank.expiring ∧ fileHash ∉ n.world.bank.file.keys)

/-- Alice stores the file in the territory `b`. -/
def briefB : FileBank.UserBrief bankRuntime := { aliceBrief with territoryName := nameB }

/-- Alice stores a file in a territory that is leased for long, and declares it again in one that
is not. -/
def storedTwice : List (Runs.Part (Action runtime)) :=
  lateMiners ++
    [.act (.call (.storage (.mintTerritory alice 1 nameA 60))),
      .act (.call (.storage (.mintTerritory alice 1 nameB 30))),
      .act (.call (.fileBank (.uploadDeclaration alice (FileBank.hashOf [99])
        oneSegment aliceBrief 1000)))] ++
    reporting 12 ++
    [.act (.call (.fileBank (.uploadDeclaration alice (FileBank.hashOf [99])
      oneSegment briefB 1000)))]

/-- The territory is returned in a step, and off the list after it although a file is in it. -/
def Node.forgets (n : Node T) (a : Action T) (entry : T.AccountId × TerrName) : Bool :=
  (n.step a).any fun n' => decide (entry ∈ n.returned a ∧ n'.world.bank.Keeping entry ∧
    entry ∉ n'.world.bank.clearUserList.val)

end Chain
