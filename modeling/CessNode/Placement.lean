/-
# The miners of a segment

The fragments of a segment are meant to be with different miners, so that the loss of one miner
is the loss of one fragment.  A deal gives position `i` of every segment to the report with the
`i`-th index, and no miner reports twice.  A restored fragment goes to the miner that has restored
it; the call looks whether that miner holds a fragment of the same hash, and not whether it holds
another fragment of the segment.

* `Shelf.Placed` : the miners of every segment are different, and so are those of every deal;
* `RestoredElsewhere` : a restored fragment goes to a miner that has none of its segment;
* `segments_placed` : in runs with such restorations the rule holds;
* `restored_twice` : what happens otherwise.
-/
import CessNode.FileShelf

open Dispatch StorageMap
open StorageHandler (alice nameA)

namespace FileBank

variable {T : Config}

/-! ## The invariant -/

/-- The fragments of every segment are with different miners. -/
def FileInfo.Placed (file : FileInfo T) : Prop :=
  ∀ segment ∈ file.segmentList.val, (segment.fragmentList.val.map FragmentInfo.miner).Nodup

/-- The files are placed, and no miner has reported twice. -/
structure Shelf.Placed (s : Shelf T) : Prop where
  file : ∀ fileHash file, s.file fileHash = some file → file.Placed
  deal : ∀ fileHash deal, s.deal fileHash = some deal →
    (deal.completeList.val.map CompleteInfo.miner).Nodup

/-! ### Changes of a single fragment -/

/-- The segment in which the first fragment that satisfies `p` is. -/
def FileInfo.segmentOf (file : FileInfo T) (p : FragmentInfo T → Bool) : Option (SegmentInfo T) :=
  file.segmentList.val.find? fun segment => segment.fragmentList.val.any p

theorem segmentOf_of_any {file : FileInfo T} {p : FragmentInfo T → Bool}
    (h : file.fragments.any p = true) : ∃ segment, file.segmentOf p = some segment := by
  obtain ⟨f, hf, hp⟩ := List.any_eq_true.mp h
  obtain ⟨segment, hsegment, hf⟩ := List.mem_flatMap.mp hf
  exact Option.isSome_iff_exists.mp (List.find?_isSome.mpr
    ⟨segment, hsegment, List.any_eq_true.mpr ⟨f, hf, hp⟩⟩)

/-- A changed fragment may have the same miner, or one that is new to the segment. -/
theorem FileInfo.Placed.modifyFirst {file : FileInfo T} {p : FragmentInfo T → Bool}
    {f : FragmentInfo T → FragmentInfo T} (h : file.Placed) (hany : file.fragments.any p = true)
    (hf : ∀ segment x, file.segmentOf p = some segment → x ∈ segment.fragmentList.val →
      (f x).miner = x.miner ∨ ∀ y ∈ segment.fragmentList.val, y.miner ≠ (f x).miner) :
    (file.modifyFirst p f).Placed := by
  obtain ⟨segment, hsegment⟩ := segmentOf_of_any hany
  have hfind : file.segmentList.val.find? (fun segment => segment.fragmentList.val.any p) =
    some segment := hsegment
  have hhere : segment.fragmentList.val.any p = true := by simpa using List.find?_some hfind
  obtain ⟨x, hx⟩ := Option.isSome_iff_exists.mp
    (List.find?_isSome.mpr (List.any_eq_true.mp hhere))
  obtain ⟨m₁, m₂, -, hm, hchange⟩ := modify_findIdx hx f
  obtain ⟨l₁, l₂, -, hl, hmodify⟩ := modify_findIdx hfind fun segment =>
    { segment with
      fragmentList := segment.fragmentList.modify (segment.fragmentList.val.findIdx p) f }
  intro segment' hsegment'
  replace hsegment' : segment' ∈ file.segmentList.val.modify _ _ := hsegment'
  rw [hmodify] at hsegment'
  have hold : ∀ segment ∈ l₁ ++ l₂, (segment.fragmentList.val.map FragmentInfo.miner).Nodup := by
    intro segment₀ hmem
    refine h segment₀ ?_
    rw [hl]
    rcases List.mem_append.mp hmem with hmem | hmem <;> simp [hmem]
  rcases List.mem_append.mp hsegment' with hmem | hmem
  · exact hold _ (List.mem_append_left _ hmem)
  rcases List.mem_cons.mp hmem with rfl | hmem
  · have hnodup := h segment (List.mem_of_find?_eq_some hfind)
    show ((segment.fragmentList.val.modify _ f).map FragmentInfo.miner).Nodup
    rw [hchange, List.map_append, List.map_cons]
    rw [hm, List.map_append] at hnodup
    have hxmem : x ∈ segment.fragmentList.val := List.mem_of_find?_eq_some hx
    rcases hf segment x hsegment hxmem with hsame | hnew
    · rwa [hsame]
    · rw [hm] at hnew
      have hrest := (List.perm_middle.nodup_iff.mp hnodup).of_cons
      refine List.perm_middle.nodup_iff.mpr (List.nodup_cons.mpr ⟨?_, hrest⟩)
      rw [← List.map_append, List.mem_map]
      rintro ⟨y, hy, hminer⟩
      refine hnew y ?_ hminer
      rcases List.mem_append.mp hy with hy | hy <;> simp [hy]
  · exact hold _ (List.mem_append_right _ hmem)

/-- Tags do not change the miners. -/
theorem FileInfo.Placed.mapFragments {file : FileInfo T} {f : FragmentInfo T → FragmentInfo T}
    (h : file.Placed) (hf : ∀ x, (f x).miner = x.miner) : (file.mapFragments f).Placed := by
  intro segment' hsegment'
  obtain ⟨segment, hsegment, rfl⟩ := List.mem_map.mp hsegment'
  show ((segment.fragmentList.val.map f).map FragmentInfo.miner).Nodup
  have hminers : FragmentInfo.miner ∘ f = FragmentInfo.miner := funext hf
  rw [List.map_map, hminers]
  exact h segment hsegment

/-! ### New files -/

theorem DealInfo.Makes.placed {deal : DealInfo T} {file : FileInfo T} (h : deal.Makes file)
    (hdeal : (deal.completeList.val.map CompleteInfo.miner).Nodup) : file.Placed := by
  intro segment hsegment
  obtain ⟨list, -, hlist⟩ := exists_of_mem_mapM h.segments hsegment
  have hsorted : ((deal.completeList.val.insertionSort fun a b => a.index ≤ b.index).map
      CompleteInfo.miner).Nodup :=
    ((List.perm_insertionSort _ _).map _).nodup_iff.mpr hdeal
  rw [(fileSegment_miners hlist).1]
  exact hsorted.sublist ((List.take_sublist _ _).map _)

/-! ## Steps -/

namespace Shelf.Placed

variable {s s' : Shelf T} {fileHash : Hash}

theorem putFile (h : s.Placed) {file : FileInfo T} (hfile : file.Placed)
    (hs' : s'.file = Function.update s.file fileHash (some file)) (hdeal : s'.deal = s.deal) :
    s'.Placed := by
  refine ⟨forall_update h.file hs' ?_, hdeal ▸ h.deal⟩
  rintro _ ⟨⟩
  exact hfile

theorem dropFile (h : s.Placed) (hs' : s'.file = Function.update s.file fileHash none)
    (hdeal : s'.deal = s.deal) : s'.Placed :=
  ⟨forall_update h.file hs' nofun, hdeal ▸ h.deal⟩

theorem putDeal (h : s.Placed) {deal : DealInfo T}
    (hdeal : (deal.completeList.val.map CompleteInfo.miner).Nodup)
    (hs' : s'.deal = Function.update s.deal fileHash (some deal)) (hfile : s'.file = s.file) :
    s'.Placed := by
  refine ⟨hfile ▸ h.file, forall_update h.deal hs' ?_⟩
  rintro _ ⟨⟩
  exact hdeal

theorem dropDeal (h : s.Placed) (hs' : s'.deal = Function.update s.deal fileHash none)
    (hfile : s'.file = s.file) : s'.Placed :=
  ⟨hfile ▸ h.file, forall_update h.deal hs' nofun⟩

theorem cleared (h : s.Placed) {acc : T.AccountId} (hs' : s.Cleared acc fileHash s') :
    s'.Placed := by
  rcases hs'.file with hsame | ⟨file, hfile, ⟨-, hgone⟩ | ⟨-, htrim⟩⟩
  · exact ⟨hsame ▸ h.file, hs'.deal ▸ h.deal⟩
  · exact h.dropFile hgone hs'.deal
  · have hplaced := h.file _ _ hfile
    refine h.putFile ?_ htrim hs'.deal
    exact hplaced

end Shelf.Placed

/-- The fragment that a call restores is of a segment of which the miner holds nothing yet. -/
def RestoredElsewhere (n : Node T) : Action T → Prop
  | .call (.restoralOrderComplete sender fragmentHash) =>
    ∀ order ∈ n.world.restoralOrder.lookup fragmentHash,
    ∀ file ∈ n.world.file.lookup order.fileHash,
    ∀ segment ∈ file.segmentOf fun f =>
      f.hash = fragmentHash ∧ (f.miner = sender ∨ f.miner = order.originMiner),
    ∀ f ∈ segment.fragmentList.val, f.miner ≠ sender
  | _ => True

instance (n : Node T) : (a : Action T) → Decidable (RestoredElsewhere n a)
  | .call c => by
    refine c.casesOn ?_ ?_ ?_ ?_ ?_ ?_ ?_ ?_ ?_ ?_ ?_ ?_ ?_ <;> intros <;>
      unfold RestoredElsewhere <;> infer_instance
  | .storage _ | .onInitialize | .clearFile .. | .external .. => .isTrue trivial

theorem Call.Changes.placed {n : Node T} {c : Call T} {s' : Shelf T} (h : c.Changes n.world s')
    (hok : RestoredElsewhere n (.call c)) (hw : n.world.shelf.Placed) : s'.Placed := by
  cases h with
  | aside => exact hw
  | fly hfile =>
    have hplaced := hw.file _ _ hfile
    refine hw.putFile ?_ rfl rfl
    exact hplaced
  | declare _ hreports =>
    refine hw.putDeal ?_ rfl rfl
    rw [hreports]
    exact List.nodup_nil
  | deliver | claim | drop => exact ⟨hw.file, hw.deal⟩
  | expire => exact hw.dropDeal rfl rfl
  | report hdeal hreport => exact hw.putDeal (hreport.nodup (hw.deal _ _ hdeal)) rfl rfl
  | @complete sender index dealHash deal deal' file size hdeal hreport hmakes =>
    have hplaced := hmakes.placed (hreport.nodup (hw.deal _ _ hdeal))
    have hown : (n.world.shelf.own deal.user dealHash size file).Placed :=
      hw.putFile hplaced rfl rfl
    exact hown.dropDeal rfl rfl
  | tag hfile =>
    refine hw.putFile ((hw.file _ _ hfile).mapFragments fun x => ?_) rfl rfl
    split_ifs <;> rfl
  | @delete sender owner fileHash file hfile =>
    cases hwithout : file.without owner with
    | none => exact hw.dropFile rfl rfl
    | some file' =>
      refine hw.putFile ?_ rfl rfl
      unfold FileInfo.without at hwithout
      split_ifs at hwithout
      obtain rfl := Option.some.inj hwithout
      have hplaced := hw.file _ _ hfile
      exact hplaced
  | order hfile _ hany | noexist hfile _ hany =>
    have hplaced := hw.file _ _ hfile
    refine hw.putFile ?_ rfl rfl
    exact hplaced.modifyFirst hany fun _ _ _ _ => .inl rfl
  | restore horder hfile hfragment =>
    have hany := List.any_eq_true.mpr ⟨_, List.mem_of_find?_eq_some hfragment,
      List.find?_some hfragment⟩
    have hplaced := hw.file _ _ hfile
    refine hw.putFile ?_ rfl rfl
    exact hplaced.modifyFirst hany fun segment x hsegment _ =>
      .inr (hok _ horder _ hfile segment hsegment)

/-- **Segment placement rule.**  In every run in which restored fragments go to miners that hold
nothing else of the segment, the fragments of every segment are with different miners. -/
theorem segments_placed {n : Node T} (hn : Runs.Reach Node.Start Node.step RestoredElsewhere n) :
    ∀ fileHash file, n.world.file.lookup fileHash = some file →
      ∀ segment ∈ file.segmentList.val,
        (segment.fragmentList.val.map FragmentInfo.miner).Nodup := by
  have hplaced : n.world.shelf.Placed := by
    refine Runs.Reach.inv (P := fun n => n.world.shelf.Placed) ?_ ?_ hn
    · intro n hstart
      rw [hstart.shelf]
      exact ⟨nofun, nofun⟩
    · intro n a n' _ hw hok hstep
      refine step_shelf (P := Shelf.Placed) ?_ ?_ hstep ?_ hw
      · intro s s' hdeal hfile _ h
        exact ⟨hfile ▸ h.file, hdeal ▸ h.deal⟩
      · exact fun acc fileHash s s' hcleared h => h.cleared hcleared
      · rintro c w' rfl hrun
        exact (c.code_changes hrun).placed hok hw
  exact hplaced.file

/-! ## Two runs -/

/-- The miner 21 gives up the first fragment of a stored file, and another miner restores it. -/
def restoredBy (miner : runtime.AccountId) : List (Action runtime) :=
  [.call (.generateRestoralOrder (21 : ℕ) (hashOf [99]) (hashOf [98, 97])),
    .call (.claimRestoralOrder miner (hashOf [98, 97])),
    .call (.restoralOrderComplete miner (hashOf [98, 97]))]

/-- A file is stored while there is a miner more than a segment needs. -/
def storedWithSpare : List (Action runtime) :=
  [.storage .newBlock, .onInitialize,
    .external { miners with minerItems := miners.minerItems.insert (22 : ℕ) miner } () (13 * gByte),
    .storage (.call (.mintTerritory alice 1 nameA 30)),
    .call (.uploadDeclaration alice (hashOf [99]) oneSegment aliceBrief 1000)] ++
  (List.range 12).map fun i : ℕ => .call (.transferReport (21 - i : ℕ) (i + 1) (hashOf [99]))

/-- The miners of the segments of a file. -/
def placement (w : World runtime) (fileHash : Hash) : Option (List (List ℕ)) :=
  (w.file.lookup fileHash).map fun file => file.segmentList.val.map fun segment =>
    segment.fragmentList.val.map FragmentInfo.miner

/-- The spare miner restores a fragment, and the rule holds. -/
theorem segments_placed_spare :
    ∃ n : Node runtime, Runs.Reach Node.Start Node.step RestoredElsewhere n ∧
      placement n.world (hashOf [99]) =
        some [[22, 20, 19, 18, 17, 16, 15, 14, 13, 12, 11, 10]] ∧
      ∀ fileHash file, n.world.file.lookup fileHash = some file →
        ∀ segment ∈ file.segmentList.val,
          (segment.fragmentList.val.map FragmentInfo.miner).Nodup := by
  obtain ⟨n, hn, hplacement⟩ := exists_of_play RestoredElsewhere
    (storedWithSpare ++ restoredBy (22 : ℕ))
    (fun n => decide (placement n.world (hashOf [99]) =
      some [[22, 20, 19, 18, 17, 16, 15, 14, 13, 12, 11, 10]])) (by decide +kernel)
  exact ⟨n, hn, of_decide_eq_true hplacement, segments_placed hn⟩

/-- A miner that holds a fragment of the segment already restores another one and has both. -/
theorem restored_twice :
    ∃ n : Node runtime, Reached n ∧
      placement n.world (hashOf [99]) =
        some [[20, 20, 19, 18, 17, 16, 15, 14, 13, 12, 11, 10]] := by
  obtain ⟨n, hn, hplacement⟩ := exists_of_play (fun _ _ => True) (storedFile ++ restoredBy (20 : ℕ))
    (fun n => decide (placement n.world (hashOf [99]) =
      some [[20, 20, 19, 18, 17, 16, 15, 14, 13, 12, 11, 10]])) (by decide +kernel)
  exact ⟨n, hn, of_decide_eq_true hplacement⟩

end FileBank
