/-
# The territories to clear

At the start of a block the file bank asks storage-handler for the territories whose frozen period
is over, and clears the files that their owners hold in them.

* `Book.expiring` : the territories that `frozen_task` returns, read off the leases;
* `run_frozenTask` : the code returns them;
* `after_onInitialize_eq` : the hook writes them down and works the list off;
* `after_clearUsers_of_other` : accounts that hold nothing in these territories lose nothing;
* `mem_expiring_of_mem_clearUserList` : the list has nothing from an earlier block.
-/
import CessNode.FileShelf

open Dispatch StorageMap

namespace StorageHandler

variable {T : Config}

/-! ## What the leases say -/

/-- The territories whose frozen period is over in this block. -/
def Book.expiring (b : Book T) : List (T.AccountId × TerrName) :=
  (T.hashOrder (b.freezeAll.territoryExpired.iterPrefix b.freezeAll.now)).filterMap fun token =>
    b.freezeAll.territoryKey.lookup token

theorem Book.expire_territoryKey (b : Book T) (token : TokenId) :
    (b.expire token).territoryKey = b.territoryKey := by
  unfold Book.expire
  split
  · rfl
  · split
    · rfl
    · split_ifs <;> rfl

theorem run_expireTerritory (s : World T) (token : TokenId) :
    (expireTerritory T token).run s =
      .ok (s.territoryKey.lookup token) (after (expireTerritory T token) s) := by
  unfold expireTerritory
  cases hkey : s.territoryKey.lookup token with
  | none => simp [after, hkey]
  | some key => simp [after, hkey, run_attempt]

theorem after_expireTerritory_key (s : World T) (token : TokenId) :
    (after (expireTerritory T token) s).territoryKey = s.territoryKey := by
  have hbook := congrArg Book.territoryKey (after_expireTerritory_book s token)
  rw [Book.expire_territoryKey] at hbook
  exact hbook

/-- The second loop looks up all tokens in the keys of the start. -/
theorem run_mapM_expireTerritory (tokens : List TokenId) (s : World T) :
    ∃ s', (tokens.mapM (expireTerritory T)).run s =
      .ok (tokens.map fun token => s.territoryKey.lookup token) s' := by
  induction tokens generalizing s with
  | nil => exact ⟨s, rfl⟩
  | cons token tokens ih =>
    obtain ⟨s', hrest⟩ := ih (after (expireTerritory T token) s)
    rw [after_expireTerritory_key] at hrest
    refine ⟨s', ?_⟩
    rw [List.mapM_cons, EStateM.run_bind, run_expireTerritory]
    show (tokens.mapM (expireTerritory T) >>= fun keys => pure (_ :: keys)).run _ = _
    rw [EStateM.run_bind, hrest]
    rfl

/-- **`frozen_task` succeeds, and returns the territories whose frozen period is over.** -/
theorem run_frozenTask (s : World T) :
    (frozenTask T).run s = .ok s.book.expiring (after (frozenTask T) s) := by
  set s₁ := (T.hashOrder (s.territoryFrozen.iterPrefix s.now)).foldl
    (fun s token => after (freezeTerritory T token) s) s with hs₁
  have hbook : s₁.book = s.book.freezeAll := foldl_book after_freezeTerritory_book _ s
  obtain ⟨s', hexpire⟩ := run_mapM_expireTerritory
    (T.hashOrder (s₁.territoryExpired.iterPrefix s₁.now)) s₁
  have hrun : (frozenTask T).run s = .ok s.book.expiring s' := by
    unfold frozenTask
    rw [run_bind_ok]
    refine ⟨s, s, rfl, run_bind_ok.mpr ⟨⟨⟩, s₁, run_forM_of_total total_freezeTerritory _ s, ?_⟩⟩
    refine run_bind_ok.mpr ⟨s₁, s₁, rfl, run_bind_ok.mpr ⟨_, s', hexpire, run_pure_ok.mpr ⟨?_, rfl⟩⟩⟩
    unfold Book.expiring
    rw [← hbook, List.reduceOption, List.filterMap_map]
    rfl
  rw [after_of_ok hrun]
  exact hrun

end StorageHandler

namespace FileBank

variable {T : Config}

/-! ## The hook -/

/-- The territories whose frozen period is over in this block. -/
def World.expiring (w : World T) : List (T.AccountId × TerrName) := w.storage.book.expiring

/-- The list that the hook writes, which is empty if there is too much on it. -/
def World.clearList (w : World T) : BoundedVec (T.AccountId × TerrName) 2000 :=
  (BoundedVec.tryFrom 2000 w.expiring).getD BoundedVec.empty

theorem World.mem_expiring_of_mem_clearList {w : World T} {entry : T.AccountId × TerrName}
    (h : entry ∈ w.clearList.val) : entry ∈ w.expiring := by
  unfold World.clearList at h
  cases hlist : BoundedVec.tryFrom 2000 w.expiring with
  | none =>
    rw [hlist] at h
    cases h
  | some list =>
    rw [hlist] at h
    rw [← BoundedVec.tryFrom_eq_some.mp hlist]
    exact h

/-- The storage when the hook starts to clear files. -/
def World.listed (w : World T) : World T :=
  { w with
    storage := after (StorageHandler.frozenTask T.toConfig) w.storage
    clearUserList := w.clearList }

/-- **The hook writes down the territories and works the list off.** -/
theorem after_onInitialize_eq (w : World T) :
    after (onInitialize T) w = after (clearUsers T w.clearList.val 0) w.listed := by
  have hlift : (liftStorage T (StorageHandler.frozenTask T.toConfig)).run w = .ok w.expiring
      { w with storage := after (StorageHandler.frozenTask T.toConfig) w.storage } := by
    unfold liftStorage
    rw [run_zoom_ok]
    exact ⟨_, StorageHandler.run_frozenTask _, rfl⟩
  unfold onInitialize
  rw [after_bind, hlift]
  rfl

/-! ## Accounts that hold nothing in the territories -/

theorem clearFiles_of_other {acc : T.AccountId} {territoryName : TerrName}
    (list : List UserFileSliceInfo) (hlen : list.length ≤ T.userFileLimit) (count : ℕ)
    (hother : ∀ slice ∈ list, slice.territoryName ≠ territoryName) :
    clearFiles T acc territoryName list hlen count = pure (some count) := by
  induction list with
  | nil => rfl
  | cons slice rest ih =>
    rw [clearFiles, if_pos (hother slice (by simp))]
    exact ih _ fun slice hmem => hother slice (List.mem_cons_of_mem _ hmem)

/-- **Nothing is cleared** if no account of the list holds a file in its territory. -/
theorem after_clearUsers_of_other (list : List (T.AccountId × TerrName)) (count : ℕ) (w : World T)
    (hother : ∀ entry ∈ list, ∀ slice ∈ (w.heldBy entry.1).val, slice.territoryName ≠ entry.2) :
    ∃ clearUserList, after (clearUsers T list count) w =
      { w with clearUserList := clearUserList } := by
  induction list generalizing count w with
  | nil => exact ⟨w.clearUserList, rfl⟩
  | cons entry rest ih =>
    obtain ⟨acc, territoryName⟩ := entry
    have hrest : ∀ entry ∈ rest, ∀ slice ∈ (w.heldBy entry.1).val,
        slice.territoryName ≠ entry.2 :=
      fun entry hmem => hother entry (List.mem_cons_of_mem _ hmem)
    rw [clearUsers, after_get_bind]
    cases hheld : w.userHoldFileList.lookup acc with
    | none => exact ih count w hrest
    | some held =>
      have hval : (w.heldBy acc).val = held.val := by
        unfold World.heldBy
        rw [hheld]
        rfl
      have hnone : ∀ slice ∈ held.val.reverse, slice.territoryName ≠ territoryName := by
        intro slice hmem
        refine hother (acc, territoryName) (by simp) slice ?_
        rw [hval]
        exact List.mem_reverse.mp hmem
      dsimp only
      rw [clearFiles_of_other _ _ _ hnone]
      exact ih count _ hrest

/-! ## What stands on the list -/

/-- The list is the same. -/
def World.SameList (w w' : World T) : Prop := w'.clearUserList.val = w.clearUserList.val

instance : Std.Refl (World.SameList (T := T)) where
  refl _ := rfl

instance : IsTrans (World T) World.SameList where
  trans _ _ _ h h' := h'.trans h

theorem sameList_clearFiles (acc : T.AccountId) (territoryName : TerrName)
    (list : List UserFileSliceInfo) (hlen : list.length ≤ T.userFileLimit) (count : ℕ) :
    Keeps World.SameList (clearFiles T acc territoryName list hlen count) :=
  keeps_clearFiles_of (fun _ _ => keeps_modify fun _ => rfl)
    (fun acc fileHash w => (clearFile_cleared w acc fileHash).clear) acc territoryName list hlen count

/-- The loop over the accounts only takes entries off the list. -/
theorem mem_of_mem_clearUsers (list : List (T.AccountId × TerrName)) (count : ℕ) (w : World T)
    {entry : T.AccountId × TerrName}
    (h : entry ∈ (after (clearUsers T list count) w).clearUserList.val) :
    entry ∈ w.clearUserList.val := by
  induction list generalizing count w with
  | nil => exact h
  | cons first rest ih =>
    obtain ⟨acc, territoryName⟩ := first
    rw [clearUsers, after_get_bind] at h
    cases hheld : w.userHoldFileList.lookup acc with
    | none =>
      rw [hheld] at h
      exact ih count w h
    | some held =>
      rw [hheld] at h
      have hsame := sameList_clearFiles acc territoryName held.val.reverse
        (by rw [List.length_reverse]; exact held.property) count w
      rw [after_bind] at h
      unfold World.SameList after at hsame
      split at h
      next result w₁ hrun =>
        rw [hrun] at hsame
        cases result with
        | none =>
          rw [← hsame]
          exact h
        | some count =>
          rw [← hsame]
          exact List.mem_of_mem_filter (ih count _ h)
      next e w₁ hrun =>
        rw [hrun] at hsame
        rw [← hsame]
        exact h

/-- **The list is written anew in every block**: what stands on it after the hook has expired in
this block. -/
theorem mem_expiring_of_mem_clearUserList {w : World T} {entry : T.AccountId × TerrName}
    (h : entry ∈ (after (onInitialize T) w).clearUserList.val) : entry ∈ w.expiring := by
  rw [after_onInitialize_eq] at h
  exact World.mem_expiring_of_mem_clearList (mem_of_mem_clearUsers _ _ _ h)

end FileBank
