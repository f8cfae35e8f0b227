/-
# The proof-of-existence contract

`ink/poe/lib.rs` files a hash under its owner twice: in the owner's list (`users`) and in the
map of the owners (`files`).  In every reachable state the two agree.  To give up a file the
contract walks over the positions of the owner's list, and takes the file out on the way; the
number of positions is fixed before the walk, so that after the removal the last position does
not exist any more and the contract traps, unless the walk ends with the removal.
-/
import CessNode.Runs
import CessNode.StorageMap

namespace Poe

variable {AccountId Hash : Type} [DecidableEq AccountId] [DecidableEq Hash]

/-! ## The contract -/

/-- The events. -/
inductive Event (AccountId Hash : Type) where
  | claimed (owner : AccountId) (file : Hash)
  | forfeited (owner : AccountId) (file : Hash)

/-- `Contract`, with the events it has emitted. -/
structure Contract (AccountId Hash : Type) where
  users : StorageMap AccountId (List Hash)
  files : StorageMap Hash AccountId
  events : List (Event AccountId Hash)

/-- How a message can end without success: with an `Error`, or with a trap. -/
inductive Failure where
  | alreadyClaimed
  | notOwner
  | trap
  deriving DecidableEq

/-- `new`. -/
def Contract.new : Contract AccountId Hash := ⟨∅, ∅, []⟩

/-- `owned_files`, of the given caller. -/
def Contract.ownedFiles (c : Contract AccountId Hash) (caller : AccountId) : List Hash :=
  (c.users.lookup caller).getD []

/-- `claim`. -/
def claim (caller : AccountId) (file : Hash) (c : Contract AccountId Hash) :
    Except Failure (Contract AccountId Hash) :=
  if file ∈ c.files then .error .alreadyClaimed
  else
    .ok { users := match c.users.lookup caller with
            | some files => c.users.insert caller (files ++ [file])
            | none => c.users.insert caller [file]
          files := c.files.insert file caller
          events := c.events ++ [.claimed caller file] }

/-- `Vec::swap_remove`: the last entry takes the place of the one that is removed. -/
def swapRemove (files : List Hash) (idx : ℕ) : List Hash :=
  match files.getLast? with
  | some last => files.dropLast.set idx last
  | none => files

/-- The loop of `forfeit` over the given positions; none is the trap of an index that is out of
bounds.  The list is written back to `users` at every removal. -/
def forfeitLoop (caller : AccountId) (file : Hash) :
    List ℕ → List Hash → StorageMap AccountId (List Hash) →
      Option (StorageMap AccountId (List Hash))
  | [], _, users => some users
  | idx :: rest, files, users =>
    match files[idx]? with
    | none => none
    | some found =>
      if found = file then
        forfeitLoop caller file rest (swapRemove files idx)
          (users.insert caller (swapRemove files idx))
      else forfeitLoop caller file rest files users

/-- `forfeit`. -/
def forfeit (caller : AccountId) (file : Hash) (c : Contract AccountId Hash) :
    Except Failure (Contract AccountId Hash) :=
  if c.files.lookup file = some caller then
    let files := c.ownedFiles caller
    match forfeitLoop caller file (List.range files.length) files c.users with
    | some users =>
      .ok { users
            files := c.files.erase file
            events := c.events ++ [.forfeited caller file] }
    | none => .error .trap
  else .error .notOwner

/-- The messages that write. -/
inductive Message (AccountId Hash : Type) where
  | claim (caller : AccountId) (file : Hash)
  | forfeit (caller : AccountId) (file : Hash)

/-- What a message returns. -/
def Message.run (c : Contract AccountId Hash) :
    Message AccountId Hash → Except Failure (Contract AccountId Hash)
  | claim caller file => Poe.claim caller file c
  | forfeit caller file => Poe.forfeit caller file c

/-- A message that does not succeed leaves the contract as it was. -/
def step (c : Contract AccountId Hash) (m : Message AccountId Hash) :
    Option (Contract AccountId Hash) :=
  match m.run c with
  | .ok c' => some c'
  | .error _ => some c

/-- The states that sequences of messages reach. -/
def Reachable (c : Contract AccountId Hash) : Prop :=
  Runs.Reach (· = Contract.new) step (fun _ _ => True) c

/-! ## The walk over the owner's list -/

omit [DecidableEq Hash] in
theorem length_swapRemove (files : List Hash) (idx : ℕ) :
    (swapRemove files idx).length = files.length - 1 := by
  unfold swapRemove
  cases hlast : files.getLast? with
  | none => rw [List.getLast?_eq_none_iff.mp hlast]; rfl
  | some last => rw [List.length_set, List.length_dropLast]

omit [DecidableEq Hash] in
/-- The removal of the last entry. -/
theorem swapRemove_length (pre : List Hash) (file : Hash) :
    swapRemove (pre ++ [file]) pre.length = pre := by
  simp [swapRemove, List.set_eq_of_length_le]

section Walk

variable {caller : AccountId} {file : Hash} {files : List Hash}
  {users : StorageMap AccountId (List Hash)} {idxs : List ℕ}

/-- Positions of other files are passed. -/
theorem forfeitLoop_skip (rest : List ℕ)
    (h : ∀ idx ∈ idxs, ∃ found, files[idx]? = some found ∧ found ≠ file) :
    forfeitLoop caller file (idxs ++ rest) files users =
      forfeitLoop caller file rest files users := by
  induction idxs with
  | nil => rfl
  | cons idx idxs ih =>
    obtain ⟨found, hfound, hne⟩ := h idx List.mem_cons_self
    rw [List.cons_append, forfeitLoop, hfound]
    simp only [hne, if_false]
    exact ih fun i hi => h i (List.mem_cons_of_mem _ hi)

/-- **A position behind the end** is still behind it when the walk gets there, as the list only
gets shorter. -/
theorem forfeitLoop_trap {idx : ℕ} (hidx : idx ∈ idxs) (hlen : files.length ≤ idx) :
    forfeitLoop caller file idxs files users = none := by
  induction idxs generalizing files users with
  | nil => cases hidx
  | cons i idxs ih =>
    rw [forfeitLoop]
    cases hi : files[i]? with
    | none => rfl
    | some found =>
      have hrest : idx ∈ idxs := by
        rcases List.mem_cons.mp hidx with rfl | h
        · rw [List.getElem?_eq_none hlen] at hi
          cases hi
        · exact h
      simp only
      split_ifs
      · exact ih hrest ((length_swapRemove files i).trans_le ((Nat.sub_le _ 1).trans hlen))
      · exact ih hrest hlen

/-- **What the walk does** with a list that has the file once: it takes it out if it is the last
entry, and traps otherwise. -/
theorem forfeitLoop_eq (hnodup : files.Nodup) (hmem : file ∈ files) :
    forfeitLoop caller file (List.range files.length) files users =
      if files.getLast? = some file then some (users.insert caller files.dropLast) else none := by
  obtain ⟨pre, post, rfl⟩ := List.append_of_mem hmem
  have hpre : file ∉ pre := fun h => (List.disjoint_of_nodup_append hnodup) h List.mem_cons_self
  have hskip : ∀ idx ∈ List.range pre.length,
      ∃ found, (pre ++ file :: post)[idx]? = some found ∧ found ≠ file := by
    intro idx hidx
    have hlt : idx < pre.length := List.mem_range.mp hidx
    refine ⟨pre[idx], ?_, fun h => hpre (h ▸ List.getElem_mem hlt)⟩
    rw [List.getElem?_append_left hlt, List.getElem?_eq_getElem hlt]
  rw [List.length_append, List.length_cons, List.range_add, forfeitLoop_skip _ hskip,
    List.range_succ_eq_map, List.map_cons, Nat.add_zero, forfeitLoop,
    List.getElem?_append_right le_rfl, Nat.sub_self]
  simp only [List.getElem?_cons_zero, if_true]
  rcases List.eq_nil_or_concat post with rfl | ⟨post, last, rfl⟩
  · rw [swapRemove_length]
    simp [forfeitLoop]
  · -- the position of the last entry is behind the end once the file is gone
    have hlast : last ≠ file := by
      rintro rfl
      have h := (List.nodup_append.mp hnodup).2.1
      simp at h
    have hform : pre ++ file :: post.concat last = (pre ++ file :: post) ++ [last] := by simp
    have hidx : pre.length + (post.length + 1) ∈ (List.map Nat.succ
        (List.range (post.concat last).length)).map (pre.length + ·) := by simp
    rw [forfeitLoop_trap hidx, hform, List.getLast?_concat, if_neg (by simpa using hlast)]
    rw [length_swapRemove]
    simp

end Walk

/-! ## Reachable states -/

/-- The two maps agree. -/
def Contract.Agrees (c : Contract AccountId Hash) : Prop :=
  ∀ a, (c.ownedFiles a).Nodup ∧ ∀ h, h ∈ c.ownedFiles a ↔ c.files.lookup h = some a

/-- `c'` is `c` without the claim of a file. -/
def Contract.Without (c : Contract AccountId Hash) (file : Hash)
    (c' : Contract AccountId Hash) : Prop :=
  (∀ h, c'.files.lookup h = if h = file then none else c.files.lookup h) ∧
    ∀ a h, h ∈ c'.ownedFiles a ↔ h ∈ c.ownedFiles a ∧ h ≠ file

section Steps

variable {c c' : Contract AccountId Hash} {caller : AccountId} {file : Hash}

omit [DecidableEq Hash] in
/-- The lists after a list is written. -/
theorem ownedFiles_insert (list : List Hash) (files : StorageMap Hash AccountId)
    (events : List (Event AccountId Hash)) (a : AccountId) :
    Contract.ownedFiles ⟨c.users.insert caller list, files, events⟩ a =
      if a = caller then list else c.ownedFiles a := by
  unfold Contract.ownedFiles
  rw [StorageMap.lookup_insert_ite]
  split_ifs <;> rfl

/-- A claim puts the file at the end of the caller's list. -/
theorem claim_ok (h : claim caller file c = .ok c') :
    c.files.lookup file = none ∧
      (∀ a, c'.ownedFiles a =
        if a = caller then c.ownedFiles caller ++ [file] else c.ownedFiles a) ∧
      ∀ f, c'.files.lookup f = if f = file then some caller else c.files.lookup f := by
  unfold claim at h
  split_ifs at h with hmem
  have hwrite : (match c.users.lookup caller with
      | some files => c.users.insert caller (files ++ [file])
      | none => c.users.insert caller [file]) =
        c.users.insert caller (c.ownedFiles caller ++ [file]) := by
    unfold Contract.ownedFiles
    cases c.users.lookup caller <;> rfl
  rw [hwrite] at h
  obtain rfl := Except.ok.inj h
  exact ⟨AList.lookup_eq_none.mpr hmem, fun a => ownedFiles_insert _ _ _ a,
    fun f => StorageMap.lookup_insert_ite ..⟩

theorem Contract.Agrees.claim (hc : c.Agrees) (h : claim caller file c = .ok c') : c'.Agrees := by
  obtain ⟨hnew, howned, hfiles⟩ := claim_ok h
  intro a
  have hnot : file ∉ c.ownedFiles a := by
    rw [(hc a).2, hnew]
    exact nofun
  rw [howned]
  split_ifs with ha
  · subst ha
    refine ⟨List.nodup_append.mpr ⟨(hc a).1, List.nodup_singleton _, ?_⟩, fun f => ?_⟩
    · intro f hf g hg hfg
      exact hnot (List.mem_singleton.mp hg ▸ hfg ▸ hf)
    · rw [hfiles, List.mem_append, List.mem_singleton, (hc a).2]
      split_ifs with hf <;> simp [hf]
  · refine ⟨(hc a).1, fun f => ?_⟩
    rw [hfiles, (hc a).2]
    split_ifs with hf
    · subst hf
      simp [hnew, Ne.symm ha]
    · rfl

/-- **What `forfeit` returns to the owner** of the file. -/
theorem forfeit_eq (hc : c.Agrees) (h : c.files.lookup file = some caller) :
    forfeit caller file c =
      if (c.ownedFiles caller).getLast? = some file then
        .ok { users := c.users.insert caller (c.ownedFiles caller).dropLast
              files := c.files.erase file
              events := c.events ++ [.forfeited caller file] }
      else .error .trap := by
  unfold forfeit
  rw [if_pos h]
  simp only [forfeitLoop_eq (hc caller).1 (((hc caller).2 file).mpr h)]
  split_ifs <;> rfl

/-- **A file that is given up is gone**, and nothing else. -/
theorem forfeit_ok (hc : c.Agrees) (h : forfeit caller file c = .ok c') :
    (c.ownedFiles caller).getLast? = some file ∧ c.Without file c' ∧
      ∀ a, (c'.ownedFiles a).Sublist (c.ownedFiles a) := by
  have howner : c.files.lookup file = some caller := by
    by_contra hne
    rw [forfeit, if_neg hne] at h
    cases h
  rw [forfeit_eq hc howner] at h
  split_ifs at h with hlast
  obtain rfl := Except.ok.inj h
  have hlist : (c.ownedFiles caller).dropLast ++ [file] = c.ownedFiles caller :=
    List.dropLast_append_getLast? file hlast
  have hnot : file ∉ (c.ownedFiles caller).dropLast := by
    have hnodup := (hc caller).1
    rw [← hlist] at hnodup
    exact fun hmem => List.disjoint_of_nodup_append hnodup hmem (List.mem_singleton_self file)
  refine ⟨hlast, ⟨fun f => StorageMap.lookup_erase_ite .., fun a f => ?_⟩, fun a => ?_⟩
  · rw [ownedFiles_insert]
    split_ifs with ha
    · subst ha
      conv_rhs => rw [← hlist, List.mem_append, List.mem_singleton]
      constructor
      · exact fun hf => ⟨.inl hf, fun heq => hnot (heq ▸ hf)⟩
      · exact fun hf => hf.1.resolve_right hf.2
    · refine ⟨fun hf => ⟨hf, ?_⟩, And.left⟩
      -- the file is on the list of its owner only
      rintro rfl
      exact ha (Option.mem_unique (((hc a).2 f).mp hf) howner)
  · rw [ownedFiles_insert]
    split_ifs with ha
    · exact ha ▸ List.dropLast_sublist _
    · exact List.Sublist.refl _

theorem Contract.Agrees.forfeit (hc : c.Agrees) (h : forfeit caller file c = .ok c') :
    c'.Agrees := by
  obtain ⟨-, ⟨hfiles, howned⟩, hsub⟩ := forfeit_ok hc h
  intro a
  refine ⟨(hc a).1.sublist (hsub a), fun f => ?_⟩
  rw [howned, hfiles, (hc a).2]
  split_ifs with hf <;> simp [hf]

end Steps

/-- **The maps agree in every reachable state.** -/
theorem Reachable.agrees {c : Contract AccountId Hash} (hc : Reachable c) : c.Agrees := by
  refine Runs.Reach.inv ?_ ?_ hc
  · rintro c rfl a
    exact ⟨List.nodup_nil, fun f => by simp [Contract.ownedFiles, Contract.new]⟩
  · intro c m c' _ hc _ hstep
    unfold step at hstep
    split at hstep
    · obtain rfl := Option.some.inj hstep
      cases m with
      | claim => exact hc.claim ‹_›
      | forfeit => exact hc.forfeit ‹_›
    · exact Option.some.inj hstep ▸ hc

/-! ## Giving up a file -/

/-- **When a file can be given up.**  In every reachable state the lists have no duplicates and
agree with the map of the owners; and the owner of a file can give it up, and nothing else, exactly
if it is the last entry of the owner's list. -/
theorem forfeits_iff {c : Contract AccountId Hash} (hc : Reachable c) :
    (∀ a, (c.ownedFiles a).Nodup ∧ ∀ h, h ∈ c.ownedFiles a ↔ c.files.lookup h = some a) ∧
      ∀ a h, c.files.lookup h = some a →
        ((∃ c', forfeit a h c = .ok c' ∧ c.Without h c') ↔
          (c.ownedFiles a).getLast? = some h) := by
  have hagrees := hc.agrees
  refine ⟨hagrees, fun a h howner => ⟨?_, fun hlast => ?_⟩⟩
  · rintro ⟨c', hok, -⟩
    exact (forfeit_ok hagrees hok).1
  · have hok := forfeit_eq hagrees howner
    rw [if_pos hlast] at hok
    exact ⟨_, hok, (forfeit_ok hagrees hok).2.1⟩

/-- Account 0 has claimed the files 1 and 2. -/
theorem reachable_two_claims : ∃ c : Contract ℕ ℕ, Reachable c ∧
    c.files.lookup 1 = some 0 ∧ c.files.lookup 2 = some 0 ∧ c.ownedFiles 0 = [1, 2] := by
  have hnew : Reachable (Contract.new : Contract ℕ ℕ) := .start rfl
  have hrun : (Runs.exec step (Contract.new : Contract ℕ ℕ) [.claim 0 1, .claim 0 2]).any
      (fun c => c.files.lookup 1 = some 0 ∧ c.files.lookup 2 = some 0 ∧
        c.ownedFiles 0 = [1, 2]) = true := by decide
  obtain ⟨c, hc, hcheck⟩ := hnew.exists_of_exec (Runs.guarded_true _ _) hrun
  exact ⟨c, hc, of_decide_eq_true hcheck⟩

/-- The file claimed last can be given up. -/
theorem forfeits_iff_last_claim : ∃ c : Contract ℕ ℕ, Reachable c ∧
    c.files.lookup 2 = some 0 ∧ ∃ c', forfeit 0 2 c = .ok c' ∧ c.Without 2 c' := by
  obtain ⟨c, hc, -, howner, hlist⟩ := reachable_two_claims
  refine ⟨c, hc, howner, ((forfeits_iff hc).2 0 2 howner).mpr ?_⟩
  rw [hlist]
  rfl

/-- **The owner of two files cannot give up the first one**: the contract traps. -/
theorem first_claim_stuck : ∃ c : Contract ℕ ℕ, Reachable c ∧
    c.files.lookup 1 = some 0 ∧ forfeit 0 1 c = .error .trap := by
  obtain ⟨c, hc, howner, -, hlist⟩ := reachable_two_claims
  refine ⟨c, hc, howner, ?_⟩
  rw [forfeit_eq hc.agrees howner, hlist]
  rfl

end Poe
