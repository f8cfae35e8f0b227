/-
# The space of miners and the files

What the records of the miners say about their space agrees with the files and the deals of the
file bank.  This file states it and proves it for the removal of files:

* `World.books` : what files and deals hold of every account;
* `World.Sound exact` : the records of the miners agree with it, the fragments with a tag have
  hexadecimal names, and no miner has reported twice in a deal.  With `exact` all locked space
  is accounted for; without it, at least as much is locked as is held;
* the removal of a file, which always gets to the end of its loop over the miners;
* `keeps_safe_onInitialize` : the block hook keeps all this.
-/
import CessNode.MinerBooks
import CessNode.ServiceSpace

open Dispatch StorageMap
open Sminer (Holding Item)

namespace FileBank

variable {T : Config}
variable {file file' : FileInfo T} {acc : T.AccountId} {α : Type}

/-! ## What files and deals hold -/

/-- What a fragment is to an account. -/
def FragmentInfo.holding (f : FragmentInfo T) (acc : T.AccountId) : Holding :=
  if f.miner = acc then .fragment f.hash f.tag.isSome else 0

/-- What a list of fragments is to an account. -/
def holdingOf (l : List (FragmentInfo T)) (acc : T.AccountId) : Holding := fun item =>
  (l.map fun f => f.holding acc item).sum

/-- What a file holds of an account. -/
def FileInfo.holding (file : FileInfo T) (acc : T.AccountId) : Holding :=
  holdingOf file.fragments acc

/-- What a deal holds of an account: its report. -/
def DealInfo.holding (deal : DealInfo T) (acc : T.AccountId) : Holding :=
  if acc ∈ deal.completeList.val.map CompleteInfo.miner then
    .pledge deal.segmentList.val.length
  else 0

/-- The segments of the pending deals in which a miner has reported. -/
def World.pledgedSegments (w : World T) (miner : T.AccountId) : ℕ :=
  w.dealMap.total fun _ deal =>
    if miner ∈ deal.completeList.val.map CompleteInfo.miner then deal.segmentList.val.length else 0

/-- What all files and deals hold of an account. -/
def World.books (w : World T) (acc : T.AccountId) : Holding := fun item =>
  w.file.total (fun _ file => file.holding acc item) +
    w.dealMap.total fun _ deal => deal.holding acc item

section Books

variable {w : World T} {fileHash : Hash} (acc : T.AccountId)

theorem books_insertFile_new (hnew : w.file.lookup fileHash = none) (file : FileInfo T) :
    ({ w with file := w.file.insert fileHash file } : World T).books acc =
      w.books acc + file.holding acc := by
  funext item
  have h := total_insert_new file (fun _ f => f.holding acc item) hnew
  simp only [World.books, Pi.add_apply]
  omega

theorem books_insertFile_over (hfile : w.file.lookup fileHash = some file) (file' : FileInfo T) :
    ({ w with file := w.file.insert fileHash file' } : World T).books acc + file.holding acc =
      w.books acc + file'.holding acc := by
  funext item
  have h := total_insert_over file' (fun _ f => f.holding acc item) hfile
  simp only [World.books, Pi.add_apply]
  omega

theorem books_eraseFile (hfile : w.file.lookup fileHash = some file) :
    ({ w with file := w.file.erase fileHash } : World T).books acc + file.holding acc =
      w.books acc := by
  funext item
  have h := total_erase (fun _ f => f.holding acc item) hfile
  simp only [World.books, Pi.add_apply]
  omega

theorem books_insertDeal_new (hnew : w.dealMap.lookup fileHash = none) (deal : DealInfo T) :
    ({ w with dealMap := w.dealMap.insert fileHash deal } : World T).books acc =
      w.books acc + deal.holding acc := by
  funext item
  have h := total_insert_new deal (fun _ d => d.holding acc item) hnew
  simp only [World.books, Pi.add_apply]
  omega

theorem books_insertDeal_over {deal : DealInfo T} (hdeal : w.dealMap.lookup fileHash = some deal)
    (deal' : DealInfo T) :
    ({ w with dealMap := w.dealMap.insert fileHash deal' } : World T).books acc +
      deal.holding acc = w.books acc + deal'.holding acc := by
  funext item
  have h := total_insert_over deal' (fun _ d => d.holding acc item) hdeal
  simp only [World.books, Pi.add_apply]
  omega

theorem books_eraseDeal {deal : DealInfo T} (hdeal : w.dealMap.lookup fileHash = some deal) :
    ({ w with dealMap := w.dealMap.erase fileHash } : World T).books acc + deal.holding acc =
      w.books acc := by
  funext item
  have h := total_erase (fun _ d => d.holding acc item) hdeal
  simp only [World.books, Pi.add_apply]
  omega

end Books

/-- Files that are alike hold the same. -/
theorem FileInfo.Alike.holding_eq (h : file.Alike file') (acc : T.AccountId) :
    file'.holding acc = file.holding acc := by
  funext item
  have hparts : ∀ file : FileInfo T, file.holding acc item =
      ((file.fragments.map FragmentInfo.part).map fun p =>
        (if p.2.2 = acc then Holding.fragment p.1 p.2.1.isSome else 0) item).sum := by
    intro file
    rw [List.map_map]
    rfl
  rw [hparts, hparts, h]

/-! ## The invariant -/

/-- The fragments with a tag have hexadecimal names. -/
def FileInfo.Hex (file : FileInfo T) : Prop :=
  ∀ f ∈ file.fragments, f.tag.isSome = true → f.hash.binary ≠ none

/-- The records of the miners agree with the files and the deals. -/
structure World.Sound (exact : Prop) (w : World T) : Prop where
  miners : w.miner.Sound exact w.books
  hex : ∀ fileHash file, w.file.lookup fileHash = some file → file.Hex
  reports : ∀ fileHash deal, w.dealMap.lookup fileHash = some deal →
    (deal.completeList.val.map CompleteInfo.miner).Nodup

variable {exact : Prop} {w w' : World T} {fileHash : Hash}

theorem World.Sound.congr (hw : w.Sound exact) (hminer : w'.miner = w.miner)
    (hfile : w'.file = w.file) (hdealMap : w'.dealMap = w.dealMap) : w'.Sound exact := by
  have hbooks : w'.books = w.books := by
    unfold World.books
    rw [hfile, hdealMap]
  constructor
  · rw [hminer, hbooks]
    exact hw.miners
  · rw [hfile]
    exact hw.hex
  · rw [hdealMap]
    exact hw.reports

theorem World.Sound.aside (hw : w.Sound exact) (h : w.Aside w') : w'.Sound exact :=
  hw.congr h.miner h.file h.dealMap

theorem FileInfo.Alike.hex (h : file.Alike file') (hhex : file.Hex) : file'.Hex := by
  intro f' hf' htag
  have hmem : f'.part ∈ file.fragments.map FragmentInfo.part := by
    rw [← h]
    exact List.mem_map_of_mem hf'
  obtain ⟨f, hf, hpart⟩ := List.mem_map.mp hmem
  obtain ⟨hhash, htag', -⟩ : f.hash = f'.hash ∧ f.tag = f'.tag ∧ f.miner = f'.miner := by
    simpa only [FragmentInfo.part, Prod.mk.injEq] using hpart
  rw [← hhash]
  exact hhex f hf (by rw [htag']; exact htag)

/-- A file is rewritten together with the records of the miners. -/
theorem World.Sound.replaceFile (hw : w.Sound exact) (hfile : w.file.lookup fileHash = some file)
    (hhex : file'.Hex) {s : Sminer.World T.AccountId} {B : T.AccountId → Holding}
    (hs : s.Sound exact B)
    (hB : ∀ acc, B acc + file.holding acc = w.books acc + file'.holding acc) :
    ({ w with miner := s, file := w.file.insert fileHash file' } : World T).Sound exact := by
  refine ⟨?_, forall_insert hw.hex hhex, hw.reports⟩
  have hbooks : ({ w with file := w.file.insert fileHash file' } : World T).books = B := by
    funext acc
    exact add_right_cancel ((books_insertFile_over acc hfile file').trans (hB acc).symm)
  show s.Sound exact ({ w with file := w.file.insert fileHash file' } : World T).books
  rw [hbooks]
  exact hs

theorem World.Sound.retouched (hw : w.Sound exact) (h : w.Retouched w') : w'.Sound exact := by
  rcases h.file with hfile | ⟨fileHash, file, file', hlookup, halike, hfile⟩
  · exact hw.congr h.miner hfile h.dealMap
  · have hw₁ := hw.replaceFile hlookup (halike.hex (hw.hex _ _ hlookup)) hw.miners fun acc => by
      rw [halike.holding_eq]
    exact hw₁.congr h.miner hfile h.dealMap

/-! ## Removal of a file -/

section Group

variable {κ ν : Type} [DecidableEq κ]

/-- The values filed under a key are those of the pairs with that key. -/
theorem lookup_groupByKey (pairs : List (κ × ν)) (k : κ) :
    (groupByKey pairs).lookup k =
      if k ∈ pairs.map Prod.fst then some ((pairs.filter fun p => p.1 = k).map Prod.snd)
      else none := by
  unfold groupByKey
  induction pairs using List.reverseRecOn with
  | nil => rfl
  | append_singleton pairs p ih =>
    rw [List.foldl_append, List.foldl_cons, List.foldl_nil, lookup_insert_ite]
    by_cases hk : k = p.1
    · subst hk
      rw [if_pos rfl, ih]
      have hmem : p.1 ∈ (pairs ++ [p]).map Prod.fst := by simp
      rw [List.filter_append]
      split_ifs with hold
      · simp
      · have hnil : (pairs.filter fun q => q.1 = p.1) = [] := by
          rw [List.filter_eq_nil_iff]
          intro q hq heq
          exact hold (List.mem_map.mpr ⟨q, hq, of_decide_eq_true heq⟩)
        rw [hnil]
        simp
    · rw [if_neg hk, ih, List.filter_append]
      have hp : ([p].filter fun q => q.1 = k) = [] := by
        simp [Ne.symm hk]
      rw [hp, List.append_nil]
      have hmem : k ∈ (pairs ++ [p]).map Prod.fst ↔ k ∈ pairs.map Prod.fst := by
        simp [hk]
      simp only [hmem]

/-- The entries of a `BTreeMap` are those of the map. -/
theorem mem_btreeEntries {order : List κ → List κ} {m : StorageMap κ ν} {p : κ × ν}
    (h : p ∈ btreeEntries order m) : m.lookup p.1 = some p.2 := by
  obtain ⟨k, -, hk⟩ := List.mem_filterMap.mp h
  obtain ⟨v, hv, rfl⟩ := Option.map_eq_some_iff.mp hk
  exact hv

/-- A `BTreeMap` visits every key once. -/
theorem keys_btreeEntries {order : List κ → List κ} (horder : ∀ l, (order l).Perm l)
    (m : StorageMap κ ν) : (btreeEntries order m).map Prod.fst = order m.keys := by
  have hall : ∀ k ∈ order m.keys, ∃ v, m.lookup k = some v := by
    intro k hk
    exact mem_iff_exists_lookup.mp ((horder _).mem_iff.mp hk)
  unfold btreeEntries
  generalize order m.keys = l at hall
  induction l with
  | nil => rfl
  | cons k l ih =>
    obtain ⟨v, hv⟩ := hall k List.mem_cons_self
    rw [List.filterMap_cons, hv]
    show k :: _ = _
    rw [ih fun k' hk' => hall k' (List.mem_cons_of_mem k hk')]

end Group

/-- The fragments of one account in a file. -/
def FileInfo.listOf (file : FileInfo T) (acc : T.AccountId) : List (Hash × Bool) :=
  ((file.fragments.map fun f => (f.miner, (f.hash, f.tag.isSome))).filter
    fun p => p.1 = acc).map Prod.snd

theorem FileInfo.holding_eq_ofList (file : FileInfo T) (acc : T.AccountId) :
    file.holding acc = .ofList (file.listOf acc) := by
  funext item
  unfold FileInfo.holding holdingOf FileInfo.listOf Holding.ofList
  induction file.fragments with
  | nil => rfl
  | cons f l ih =>
    rw [List.map_cons, List.sum_cons, ih]
    unfold FragmentInfo.holding
    by_cases hf : f.miner = acc
    · simp [hf]
    · simp [hf]

theorem FileInfo.Hex.listOf (h : file.Hex) :
    ∀ p ∈ file.listOf acc, p.2 = true → p.1.binary ≠ none := by
  intro p hp htag
  obtain ⟨q, hq, rfl⟩ := List.mem_map.mp hp
  obtain ⟨f, hf, rfl⟩ := List.mem_map.mp (List.mem_filter.mp hq).1
  exact h f hf htag

/-- An account without fragments in a file holds nothing of it. -/
theorem FileInfo.holding_eq_zero (h : ∀ f ∈ file.fragments, f.miner ≠ acc) :
    file.holding acc = 0 := by
  funext item
  refine List.sum_eq_zero ?_
  intro x hx
  obtain ⟨f, hf, rfl⟩ := List.mem_map.mp hx
  unfold FragmentInfo.holding
  rw [if_neg (h f hf)]
  rfl

theorem run_liftMiner {x : Sminer.MinerM T.AccountId α} {a : α} {s : Sminer.World T.AccountId}
    (h : x.run w.miner = .ok a s) :
    (liftMiner T x).run w = .ok a { w with miner := s } :=
  run_zoom_ok.mpr ⟨s, h, rfl⟩

/-- **A round of the removal** gives a miner its fragments back and never fails. -/
theorem releaseFragments_ok {B : T.AccountId → Holding} {l : List (Hash × Bool)} {h : Holding}
    (hs : w.miner.Sound exact B) (hB : B acc = h + .ofList l) (hne : B acc ≠ 0)
    (hhex : ∀ p ∈ l, p.2 = true → p.1.binary ≠ none) :
    ∃ s, (releaseFragments T acc l).run w = .ok () { w with miner := s } ∧
      s.Sound exact (Function.update B acc h) := by
  have hlength := Holding.ofList_eq l
  cases htarget : w.miner.restoralTarget.lookup acc with
  | some target =>
    have hexist : Sminer.restoralTargetIsExist w.miner acc = true :=
      decide_eq_true (mem_iff_exists_lookup.mpr ⟨target, htarget⟩)
    have hsum : h .tagged + h .untagged + l.length ≤ B acc .tagged + B acc .untagged := by
      have hsplit : l.length = (l.filter fun p => p.2).length +
          (l.filter fun p => !p.2).length := List.length_eq_length_filter_add _
      rw [hB, hlength]
      simp only [Pi.add_apply, Holding.served, Holding.stored]
      omega
    obtain ⟨s, hrun, hsound⟩ := hs.updateRestoralTarget htarget hsum (by rw [hB, hlength]; rfl)
    refine ⟨s, ?_, hsound⟩
    simp only [releaseFragments, run_ok, existsAndEq, hexist]
    exact run_liftMiner hrun
  | none =>
    have hexist : Sminer.restoralTargetIsExist w.miner acc = false :=
      decide_eq_false (AList.lookup_eq_none.mp htarget)
    obtain ⟨info, hinfo⟩ := hs.exists_of_ne_zero hne
    obtain ⟨elems, helems⟩ := exists_mapM (l := l.filter fun p => p.2)
      fun p hp => hhex p (List.mem_filter.mp hp).1 (List.mem_filter.mp hp).2
    have helems' := (List.mapM_map (f := fun p : Hash × Bool => p.1) (g := Hash.binary)).trans helems
    have hbooks : ∀ x y, Function.update (Function.update B acc x) acc y =
        Function.update B acc y := fun x y => Function.update_idem x y B
    obtain ⟨info₁, hrun₁, hs₁⟩ := hs.subMinerServiceSpace
      (h := h + .stored (l.filter fun p => !p.2).length +
        .hashed ((l.filter fun p => p.2).map fun p => p.1)) hinfo htarget (by
          rw [hB, hlength]
          abel)
    obtain ⟨info₂, hrun₂, hs₂⟩ := hs₁.deleteServiceBloom helems' (w.miner.lookup_write acc info₁)
      htarget (Function.update_self acc _ B)
    rw [hbooks] at hs₂
    obtain ⟨info₃, hrun₃, hs₃⟩ := hs₂.unlockSpaceDirect (Sminer.World.lookup_write _ acc info₂) htarget
      (Function.update_self acc _ B)
    rw [hbooks] at hs₃
    refine ⟨_, ?_, hs₃⟩
    simp only [releaseFragments, run_ok, existsAndEq, hexist, Bool.false_eq_true, if_false, helems,
      Option.some.injEq]
    exact ⟨(), _, run_liftMiner hrun₁, (), _, run_liftMiner hrun₂, run_liftMiner hrun₃⟩

/-- The books in the middle of a loop over accounts: those still to be visited hold what they
held before, the others what they will hold after it. -/
def midBooks (base before after : T.AccountId → Holding) (rest : List T.AccountId)
    (acc : T.AccountId) : Holding :=
  base acc + if acc ∈ rest then before acc else after acc

section MidBooks

variable {base before after : T.AccountId → Holding} {acc : T.AccountId}
  {rest : List T.AccountId}

theorem midBooks_self : midBooks base before after (acc :: rest) acc = base acc + before acc := by
  unfold midBooks
  rw [if_pos List.mem_cons_self]

theorem midBooks_cons (hacc : acc ∉ rest) :
    Function.update (midBooks base before after (acc :: rest)) acc (base acc + after acc) =
      midBooks base before after rest := by
  funext a
  by_cases ha : a = acc
  · subst ha
    unfold midBooks
    rw [Function.update_self, if_neg hacc]
  · unfold midBooks
    rw [Function.update_of_ne ha]
    simp only [List.mem_cons, ha, false_or]

theorem midBooks_nil : midBooks base before after [] = fun acc => base acc + after acc := by
  funext acc
  unfold midBooks
  rw [if_neg List.not_mem_nil]

/-- At the start of the loop, where only the accounts that are visited change. -/
theorem midBooks_start (h : ∀ acc, acc ∉ rest → before acc = after acc) :
    midBooks base before after rest = fun acc => base acc + before acc := by
  funext acc
  unfold midBooks
  split_ifs with hacc
  · rfl
  · rw [h acc hacc]

end MidBooks

/-- An account with fragments in a file holds something. -/
theorem FileInfo.holding_ne_zero {f : FragmentInfo T} (hf : f ∈ file.fragments) (h : Holding) :
    h + file.holding f.miner ≠ 0 := by
  intro hzero
  have hle : ∀ item, f.holding f.miner item ≤ file.holding f.miner item := fun item =>
    List.single_le_sum (fun _ _ => Nat.zero_le _) _
      (List.mem_map_of_mem (f := fun f' => f'.holding f.miner item) hf)
  have htagged := congrFun hzero .tagged
  have huntagged := congrFun hzero .untagged
  have h₁ := hle .tagged
  have h₂ := hle .untagged
  simp only [Pi.add_apply, Pi.zero_apply] at htagged huntagged
  unfold FragmentInfo.holding at h₁ h₂
  rw [if_pos rfl] at h₁ h₂
  cases htag : f.tag.isSome with
  | true =>
    rw [htag] at h₁
    have : (1 : ℕ) ≤ file.holding f.miner .tagged := h₁
    omega
  | false =>
    rw [htag] at h₂
    have : (1 : ℕ) ≤ file.holding f.miner .untagged := h₂
    omega

/-- **The loop of the removal** always gets to its end, with books from which the file is
gone. -/
theorem releaseLoop_ok (hw : w.Sound exact) (hfile : w.file.lookup fileHash = some file) :
    ∃ s, ((btreeEntries T.accountOrder (groupByKey
        (file.fragments.map fun f => (f.miner, (f.hash, f.tag.isSome))))).forM
          fun p => releaseFragments T p.1 p.2).run w = .ok ⟨⟩ { w with miner := s } ∧
      s.Sound exact ({ w with file := w.file.erase fileHash } : World T).books := by
  set pairs := file.fragments.map fun f => (f.miner, (f.hash, f.tag.isSome)) with hpairs
  set base := ({ w with file := w.file.erase fileHash } : World T).books with hbase
  have hkey : ∀ acc, acc ∈ pairs.map Prod.fst ↔ ∃ f ∈ file.fragments, f.miner = acc := by
    intro acc
    rw [List.map_map]
    exact List.mem_map
  have hkeys : ∀ acc, acc ∈ (btreeEntries T.accountOrder (groupByKey pairs)).map Prod.fst ↔
      acc ∈ pairs.map Prod.fst := by
    intro acc
    rw [keys_btreeEntries T.accountOrder_perm, (T.accountOrder_perm _).mem_iff]
    show acc ∈ groupByKey pairs ↔ _
    rw [← AList.lookup_isSome, lookup_groupByKey]
    split_ifs with h <;> simp [h]
  obtain ⟨w', hrun, s, rfl, hs, -⟩ := run_forM_inv (f := fun p => releaseFragments T p.1 p.2)
    (P := fun rest w' => ∃ s, w' = { w with miner := s } ∧
      s.Sound exact (midBooks base file.holding 0 (rest.map Prod.fst)) ∧
      (rest.map Prod.fst).Nodup ∧ ∀ p ∈ rest, (groupByKey pairs).lookup p.1 = some p.2)
    (by
      rintro ⟨acc, l⟩ rest w' ⟨s, rfl, hs, hnodup, hrest⟩
      rw [List.map_cons] at hs hnodup
      obtain ⟨hacc, hnodup'⟩ := List.nodup_cons.mp hnodup
      have hlookup := hrest (acc, l) List.mem_cons_self
      rw [lookup_groupByKey] at hlookup
      split_ifs at hlookup with hmem
      obtain rfl : file.listOf acc = l := Option.some.inj hlookup
      obtain ⟨f, hf, rfl⟩ := (hkey acc).mp hmem
      obtain ⟨s', hrun, hs'⟩ := releaseFragments_ok (w := { w with miner := s }) hs
        (by rw [midBooks_self, FileInfo.holding_eq_ofList])
        (by rw [midBooks_self]; exact file.holding_ne_zero hf _) (hw.hex _ _ hfile).listOf
      refine ⟨_, hrun, s', rfl, ?_, hnodup', fun p hp => hrest p (List.mem_cons_of_mem _ hp)⟩
      rw [← midBooks_cons hacc]
      exact hs')
    (btreeEntries T.accountOrder (groupByKey pairs)) w (by
      refine ⟨w.miner, rfl, ?_, ?_, fun p hp => mem_btreeEntries hp⟩
      · have hnone : ∀ acc, acc ∉ (btreeEntries T.accountOrder (groupByKey pairs)).map Prod.fst →
            file.holding acc = (0 : T.AccountId → Holding) acc := fun acc hacc =>
          FileInfo.holding_eq_zero fun f hf heq =>
            hacc ((hkeys acc).mpr ((hkey acc).mpr ⟨f, hf, heq⟩))
        rw [midBooks_start hnone]
        have hstart : (fun acc => base acc + file.holding acc) = w.books :=
          funext fun acc => books_eraseFile acc hfile
        rw [hstart]
        exact hw.miners
      · rw [keys_btreeEntries T.accountOrder_perm]
        exact (T.accountOrder_perm _).nodup_iff.mpr (AList.keys_nodup _))
  refine ⟨s, hrun, ?_⟩
  rwa [List.map_nil, midBooks_nil] at hs

/-- A removal takes the file out of the books and out of the storage. -/
theorem World.Sound.removeFileLastOwner (hw : w.Sound exact) {userClear : Bool} {u : Unit}
    (h : (removeFileLastOwner T fileHash acc userClear).run w = .ok u w') : w'.Sound exact := by
  simp only [FileBank.removeFileLastOwner, releaseFile, run_ok, existsAndEq] at h
  obtain ⟨_, w₂, ⟨file, hfile, _, w₁, hloop, hrefund⟩, _, w₃, hservice, rfl⟩ := h
  obtain ⟨s, hrun, hs⟩ := releaseLoop_ok hw hfile
  obtain rfl : { w with miner := s } = w₁ := by
    rw [hrun] at hloop
    exact (EStateM.Result.ok.inj hloop).2
  have haside : World.Aside ({ w with miner := s } : World T) w₂ := by
    refine Keeps.run_ok (x := _) ?_ hrefund
    split_ifs
    · split
      · refine keeps_bind ?_ fun _ => keeps_pure _
        exact keeps_liftLocks (StorageHandler.keeps_subTerritoryUsedSpace _ _ _)
      · exact keeps_pure _
    · exact keeps_pure _
  obtain ⟨s₃, -, rfl⟩ := run_zoom_ok.mp hservice
  have hremoved : ({ w with miner := s, file := w.file.erase fileHash } : World T).Sound exact :=
    ⟨hs, fun _ _ hfile' => hw.hex _ _ (lookup_of_erase hfile'), hw.reports⟩
  refine hremoved.congr haside.miner ?_ haside.dealMap
  rw [haside.file]

/-! ## The block hook -/

/-- The counter of the space in service and the records of the miners agree with the files. -/
structure World.Safe (exact : Prop) (w : World T) : Prop where
  counted : w.Counted
  sound : w.Sound exact

/-- Both are kept. -/
def World.KeepsSafe (exact : Prop) (w w' : World T) : Prop := w.Safe exact → w'.Safe exact

instance : Std.Refl (World.KeepsSafe (T := T) exact) where
  refl _ := id

instance : IsTrans (World T) (World.KeepsSafe exact) where
  trans _ _ _ h h' := h' ∘ h

theorem Keeps.safe_of_aside {x : PalletM T α} (hx : Keeps World.Aside x) :
    Keeps (World.KeepsSafe exact) x :=
  hx.mono fun _ _ h hw => ⟨hw.counted.sameFiles h.sameFiles, hw.sound.aside h⟩

theorem Keeps.safe_of_retouched {x : PalletM T α} (hx : Keeps World.Retouched x) :
    Keeps (World.KeepsSafe exact) x :=
  hx.mono fun _ _ h hw => ⟨hw.counted.retouched h, hw.sound.retouched h⟩

/-- The block hook removes a file without a refund: such a removal always gets to its end. -/
theorem exists_removeFileLastOwner (hw : w.Safe exact)
    (hfile : w.file.lookup fileHash = some file) (acc : T.AccountId) :
    ∃ w', (removeFileLastOwner T fileHash acc false).run w = .ok () w' := by
  obtain ⟨s, hloop, -⟩ := releaseLoop_ok hw.sound hfile
  have hrelease : (releaseFile T fileHash acc false).run w =
      .ok file.fragments.length { w with miner := s } := by
    refine run_bind_ok.mpr ⟨w, w, run_get_ok.mpr ⟨rfl, rfl⟩, ?_⟩
    refine run_bind_ok.mpr ⟨file, w, run_okOr_ok.mpr ⟨hfile, rfl⟩, ?_⟩
    exact run_bind_ok.mpr ⟨⟨⟩, _, hloop, run_pure_ok.mpr ⟨rfl, rfl⟩⟩
  have hle := hw.counted.le_of_releaseFile hrelease
  exact ⟨_, run_bind_ok.mpr ⟨_, _, hrelease, run_bind_ok.mpr ⟨(), _, run_subService hle,
    run_modify_ok.mpr rfl⟩⟩⟩

theorem keeps_safe_removeFileLastOwner (fileHash : Hash) (acc : T.AccountId) :
    Keeps (World.KeepsSafe exact) (removeFileLastOwner T fileHash acc false) := by
  intro w hw
  refine ⟨keeps_removeFileLastOwner fileHash acc false w hw.counted, ?_⟩
  cases hfile : w.file.lookup fileHash with
  | none =>
    unfold removeFileLastOwner releaseFile
    rw [bind_assoc, after_get_bind, hfile]
    exact hw.sound
  | some file =>
    obtain ⟨w', hrun⟩ := exists_removeFileLastOwner hw hfile acc
    rw [after_of_ok hrun]
    exact hw.sound.removeFileLastOwner hrun

theorem keeps_safe_clearFile (acc : T.AccountId) (fileHash : Hash) :
    Keeps (World.KeepsSafe exact) (clearFile T acc fileHash) :=
  keeps_clearFile_of (Keeps.safe_of_retouched (keeps_removeFileOwner _ _ _))
    (keeps_safe_removeFileLastOwner _ _) fun _ =>
      Keeps.safe_of_aside (keeps_bucketRemoveFile _ _ _)

/-- The hook keeps the books although nothing undoes what fails in it. -/
theorem keeps_safe_onInitialize : Keeps (World.KeepsSafe exact) (onInitialize T) := by
  refine keeps_bind ?_ fun clearList => ?_
  · intro w hw
    refine ⟨keeps_liftTerritory StorageHandler.keeps_frozenTask w |> hw.counted.sameFiles, ?_⟩
    unfold liftStorage
    rw [after_zoom]
    exact hw.sound.congr rfl rfl rfl
  · refine keeps_bind (Keeps.safe_of_aside (keeps_modify fun _ =>
      ⟨refl _, rfl, rfl, rfl⟩)) fun _ => ?_
    refine keeps_clearUsers_of (fun _ _ => Keeps.safe_of_aside (keeps_putHeld _ _)) ?_
      keeps_safe_clearFile _ _
    exact fun _ => Keeps.safe_of_aside (keeps_modify fun _ => ⟨refl _, rfl, rfl, rfl⟩)

end FileBank
