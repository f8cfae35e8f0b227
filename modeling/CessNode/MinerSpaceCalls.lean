/-
# The space of miners and the calls

The records of the miners agree with the files and the deals after every call of the file bank.
A report pledges space, a completed deal stores it, a tag puts it into service and a restored
fragment changes hands.

* `World.Sound.report`, `reports_loop` and `World.Safe.completeDeal` : from reports to a file;
* `World.Sound.calculateReport` : the tags;
* `releaseFragment_ok` and `World.Sound.restoralOrderComplete` : restored fragments, whose old
  holder always can give them up;
* `Call.code_sound` : all calls, as long as no deal with reports is overwritten where all locked
  space is to be accounted for.
-/
import CessNode.MinerSpace

open Dispatch StorageMap
open Sminer (Holding Item)

namespace FileBank

variable {T : Config} {exact : Prop} {w w' : World T} {fileHash : Hash}
variable {deal deal' : DealInfo T} {index : ℕ} {u : Unit} {sender : T.AccountId}

/-! ## The reports of a deal -/

/-- A miner that has not reported yet adds its report. -/
theorem DealInfo.Reports.holding (h : deal.Reports deal' sender index) (acc : T.AccountId) :
    deal'.holding acc =
      deal.holding acc + if acc = sender then .pledge deal.segmentList.val.length else 0 := by
  have hnew : sender ∉ deal.completeList.val.map CompleteInfo.miner := by
    intro hmem
    obtain ⟨info, hinfo, heq⟩ := List.mem_map.mp hmem
    exact (h.fresh info hinfo).2 heq.symm
  unfold DealInfo.holding
  rw [h.completeList, h.segmentList]
  by_cases hacc : acc = sender
  · subst hacc
    rw [if_pos (by simp), if_neg hnew, if_pos rfl, zero_add]
  · simp [hacc]

/-- A report is booked: its miner has pledged its part of every segment. -/
theorem World.Sound.report (hw : w.Sound exact) (hdeal : w.dealMap.lookup fileHash = some deal)
    (hreport : deal.Reports deal' sender index) {s : Sminer.World T.AccountId}
    (h : (Sminer.lockSpace sender deal.share).run w.miner = .ok () s) : ({ w with
      miner := s
      dealMap := w.dealMap.insert fileHash deal' } : World T).Sound exact := by
  refine ⟨?_, hw.hex, ?_⟩
  · have hbooks : ({ w with dealMap := w.dealMap.insert fileHash deal' } : World T).books =
        Function.update w.books sender
          (w.books sender + .pledge deal.segmentList.val.length) := by
      funext acc
      have hover := books_insertDeal_over acc hdeal deal'
      rw [hreport.holding, add_comm (deal.holding acc), ← add_assoc] at hover
      rw [add_right_cancel hover]
      by_cases hacc : acc = sender
      · subst hacc
        rw [Function.update_self, if_pos rfl]
      · rw [Function.update_of_ne hacc, if_neg hacc, add_zero]
    show s.Sound exact ({ w with dealMap := w.dealMap.insert fileHash deal' } : World T).books
    rw [hbooks]
    exact hw.miners.lockSpace h
  · exact forall_insert hw.reports (hreport.nodup (hw.reports _ _ hdeal))

/-- A loop over the reports of a deal in which every round books one of them. -/
theorem reports_loop {base : T.AccountId → Holding} {c : Holding}
    {f : CompleteInfo T → PalletM T Unit}
    (hnodup : (deal.completeList.val.map CompleteInfo.miner).Nodup)
    (hround : ∀ info w w' u (B : T.AccountId → Holding), w.miner.Sound exact B →
      B info.miner = base info.miner + .pledge deal.segmentList.val.length →
      (f info).run w = .ok u w' → ∃ s, w' = { w with miner := s } ∧
        s.Sound exact (Function.update B info.miner (base info.miner + c)))
    (hbase : ∀ acc, base acc + deal.holding acc = w.books acc) (hw : w.miner.Sound exact w.books)
    (h : (deal.completeList.val.forM f).run w = .ok u w') :
    ∃ s, w' = { w with miner := s } ∧ s.Sound exact fun acc => base acc +
      if acc ∈ deal.completeList.val.map CompleteInfo.miner then c else 0 := by
  set all := deal.completeList.val.map CompleteInfo.miner with hall
  obtain ⟨s, hs, hsound, -⟩ := forM_ok_inv (f := f)
    (P := fun rest w' => ∃ s, w' = { w with miner := s } ∧
      s.Sound exact (midBooks base deal.holding (fun acc => if acc ∈ all then c else 0)
        (rest.map CompleteInfo.miner)) ∧
      (rest.map CompleteInfo.miner).Nodup ∧ ∀ info ∈ rest, info.miner ∈ all)
    (by
      rintro info rest w₁ w₂ ⟨s, rfl, hs, hnodup, hrest⟩ hrun
      rw [List.map_cons] at hs hnodup
      obtain ⟨hacc, hnodup'⟩ := List.nodup_cons.mp hnodup
      have hmem := hrest info List.mem_cons_self
      obtain ⟨s', rfl, hs'⟩ := hround info _ _ _ _ hs (by
        rw [midBooks_self]
        unfold DealInfo.holding
        rw [if_pos hmem]) hrun
      refine ⟨s', rfl, ?_, hnodup', fun info' hinfo' => hrest info' (List.mem_cons_of_mem _ hinfo')⟩
      rw [← midBooks_cons hacc, if_pos hmem]
      exact hs')
    ⟨w.miner, rfl, by
      rw [midBooks_start]
      · have hstart : (fun acc => base acc + deal.holding acc) = w.books := funext hbase
        rw [hstart]
        exact hw
      · intro acc hacc
        unfold DealInfo.holding
        rw [if_neg hacc, if_neg hacc],
      hnodup, fun info hinfo => List.mem_map_of_mem hinfo⟩ h
  refine ⟨s, hs, ?_⟩
  rwa [List.map_nil, midBooks_nil] at hsound

/-- The reports of an expired deal are taken back. -/
theorem World.Sound.forceUnlockSpace (hw : w.Sound exact)
    (hdeal : w.dealMap.lookup fileHash = some deal)
    (h : (deal.forceUnlockSpace T).run w = .ok u w') :
    ({ w' with dealMap := w'.dealMap.erase fileHash } : World T).Sound exact := by
  obtain ⟨s, rfl, hs⟩ := reports_loop (c := 0) (hw.reports _ _ hdeal) (by
      intro info w₁ w₂ u₂ B hB hinfo hrun
      simp only [run_ok, bank_ok, checkedMul_eq_some, existsAndEq] at hrun
      obtain ⟨-, s, hs, rfl⟩ := hrun
      refine ⟨s, rfl, ?_⟩
      exact hB.unlockSpace hinfo hs)
    (fun acc => books_eraseDeal acc hdeal) hw.miners h
  refine ⟨?_, hw.hex, fun _ _ hdeal' => hw.reports _ _ (lookup_of_erase hdeal')⟩
  simp only [ite_self] at hs
  exact hs

/-! ## From a deal to a file -/

/-- A sum over a list without repetitions in which one element counts. -/
theorem sum_ite_of_nodup {α : Type} [DecidableEq α] {l : List α} (h : l.Nodup) (a : α) (x : ℕ) :
    (l.map fun b => if b = a then x else 0).sum = if a ∈ l then x else 0 := by
  rw [List.sum_map_eq_nsmul_single a _ fun b hb _ => if_neg hb, if_pos rfl]
  split_ifs with ha
  · rw [List.count_eq_one_of_mem h ha, one_smul]
  · rw [List.count_eq_zero_of_not_mem ha, zero_smul]

/-- A file whose segments all go to the same miners, without tags. -/
theorem FileInfo.holding_of_miners {file : FileInfo T} {miners : List T.AccountId}
    (hnodup : miners.Nodup) (hminers : ∀ segment ∈ file.segmentList.val,
      segment.fragmentList.val.map FragmentInfo.miner = miners ∧
        ∀ f ∈ segment.fragmentList.val, f.tag = none) (acc : T.AccountId) :
    file.holding acc =
      if acc ∈ miners then .stored file.segmentList.val.length else 0 := by
  funext item
  have hsegment : ∀ segment ∈ file.segmentList.val,
      (segment.fragmentList.val.map fun f => f.holding acc item).sum =
        if acc ∈ miners then Holding.stored 1 item else 0 := by
    intro segment hsegment
    obtain ⟨hmap, htag⟩ := hminers segment hsegment
    have hfragment : (segment.fragmentList.val.map fun f => f.holding acc item) =
        miners.map fun m => if m = acc then Holding.stored 1 item else 0 := by
      rw [← hmap, List.map_map]
      refine List.map_congr_left fun f hf => ?_
      unfold FragmentInfo.holding
      rw [htag f hf]
      show (if f.miner = acc then _ else (0 : Holding)) item = if f.miner = acc then _ else 0
      split_ifs
      · cases item <;> rfl
      · rfl
    rw [hfragment, sum_ite_of_nodup hnodup]
  unfold FileInfo.holding holdingOf FileInfo.fragments
  rw [List.map_flatMap, List.flatMap_def, List.sum_flatten, List.map_map]
  have hsum : file.segmentList.val.map (List.sum ∘ fun segment =>
      segment.fragmentList.val.map fun f => f.holding acc item) =
      file.segmentList.val.map fun _ => if acc ∈ miners then Holding.stored 1 item else 0 :=
    List.map_congr_left hsegment
  rw [hsum]
  split_ifs
  · cases item <;> simp [Holding.stored]
  · simp

/-- The file made from a deal: every miner that has reported holds one fragment of every
segment. -/
theorem DealInfo.Makes.holding {file : FileInfo T} (h : deal.Makes file)
    (hspec : checkFileSpec deal.segmentList = true)
    (hcount : deal.completeList.val.length = fragmentCount)
    (hnodup : (deal.completeList.val.map CompleteInfo.miner).Nodup) : file.Hex ∧
      ∀ acc, file.holding acc = if acc ∈ deal.completeList.val.map CompleteInfo.miner then
        .stored deal.segmentList.val.length else 0 := by
  set sorted := deal.completeList.val.insertionSort fun a b => a.index ≤ b.index with hsorted
  have hperm : sorted.Perm deal.completeList.val := List.perm_insertionSort _ _
  have hminers : ∀ segment ∈ file.segmentList.val,
      segment.fragmentList.val.map FragmentInfo.miner = sorted.map CompleteInfo.miner ∧
        ∀ f ∈ segment.fragmentList.val, f.tag = none := by
    intro segment hsegment
    obtain ⟨segment₀, hsegment₀, hfile⟩ := exists_of_mem_mapM h.segments hsegment
    have hlen := of_decide_eq_true (List.all_eq_true.mp hspec segment₀ hsegment₀)
    have hall : segment₀.fragmentList.val.length = sorted.length := by
      rw [hlen, hperm.length_eq, hcount]
    obtain ⟨hmap, htag⟩ := fileSegment_miners hfile
    rw [hall, List.take_length] at hmap
    exact ⟨hmap, htag⟩
  constructor
  · intro f hf htag
    obtain ⟨segment, hsegment, hf⟩ := List.mem_flatMap.mp hf
    rw [(hminers segment hsegment).2 f hf] at htag
    cases htag
  · intro acc
    rw [FileInfo.holding_of_miners ((hperm.map _).nodup_iff.mpr hnodup) hminers]
    simp only [(hperm.map CompleteInfo.miner).mem_iff, length_eq_of_mapM h.segments]

/-- **A completed deal keeps the books**: what the miners have pledged is stored now. -/
theorem World.Safe.completeDeal (hw : w.Safe exact)
    (hdeal : w.dealMap.lookup fileHash = some deal)
    (h : (completeDeal T fileHash deal).run w = .ok u w') : w'.Sound exact := by
  obtain ⟨s, file, t, held, bucket, buckets, events, hall, hcount, hmakes, -, -, -, -, rfl⟩ :=
    completeDeal_run h
  set segments := deal.segmentList.val.length with hsegments
  obtain ⟨s', hs', hs⟩ := reports_loop (c := .stored segments) (hw.sound.reports _ _ hdeal) (by
      intro info w₁ w₂ u₂ B hB hinfo hrun
      simp only [run_ok, bank_ok, checkedMul_eq_some, existsAndEq] at hrun
      obtain ⟨-, s, hs, rfl⟩ := hrun
      exact ⟨s, rfl, hB.increaseReplaceSpace hinfo hs⟩)
    (fun acc => books_eraseDeal acc hdeal) hw.sound.miners hall
  obtain rfl : s = s' := congrArg World.miner hs'
  obtain ⟨hhex, hholding⟩ := hmakes.holding (hw.counted.spec _ _ hdeal) hcount
    (hw.sound.reports _ _ hdeal)
  have hnew : w.file.lookup fileHash = none := by
    rw [AList.lookup_eq_none]
    intro hmem
    exact hw.counted.apart _ hmem (mem_iff_exists_lookup.mpr ⟨deal, hdeal⟩)
  set rest : World T := { w with dealMap := w.dealMap.erase fileHash } with hrest
  refine ⟨?_, ?_, ?_⟩
  · have hbooks : ({ rest with file := rest.file.insert fileHash file } : World T).books =
        fun acc => rest.books acc +
          if acc ∈ deal.completeList.val.map CompleteInfo.miner then .stored segments
          else 0 := by
      funext acc
      rw [← hholding]
      exact books_insertFile_new (w := rest) acc hnew file
    show s.Sound exact ({ rest with file := rest.file.insert fileHash file } : World T).books
    rw [hbooks]
    exact hs
  · exact forall_insert hw.sound.hex hhex
  · intro fileHash' deal' hdeal'
    exact hw.sound.reports _ _ (lookup_of_erase hdeal')

theorem World.Safe.transferReport (hw : w.Safe exact)
    (h : (transferReport T sender index fileHash).run w = .ok u w') : w'.Sound exact := by
  obtain ⟨-, deal, info, hdeal, -, -, ⟨-, s, hunlock, rfl⟩ | ⟨deal', s, w₁, events, hreport, hlock,
    rfl, hrest⟩⟩ := transferReport_run h
  · exact hw.sound.forceUnlockSpace hdeal hunlock
  · have hs := hw.sound.report hdeal hreport hlock
    rcases hrest with ⟨-, rfl⟩ | hcomplete
    · exact hs.congr rfl rfl rfl
    · have hsafe : World.Safe exact _ := ⟨hw.counted.report hdeal hreport s, hs⟩
      exact (hsafe.completeDeal (AList.lookup_insert _) hcomplete).congr rfl rfl rfl

/-- A deal without reports is put down, perhaps over an older one. -/
theorem World.Sound.insertDeal (hw : w.Sound exact) (hdeal : deal.completeList.val = [])
    (hold : exact → ∀ old, w.dealMap.lookup fileHash = some old → old.completeList.val = []) :
    ({ w with dealMap := w.dealMap.insert fileHash deal } : World T).Sound exact := by
  have hzero : ∀ d : DealInfo T, d.completeList.val = [] → ∀ acc, d.holding acc = 0 := by
    intro d hd acc
    unfold DealInfo.holding
    rw [hd]
    exact if_neg List.not_mem_nil
  refine ⟨?_, hw.hex, ?_⟩
  · refine hw.miners.forget fun acc => ?_
    cases hlookup : w.dealMap.lookup fileHash with
    | none =>
      refine ⟨0, ?_, fun _ => rfl⟩
      have hnew := books_insertDeal_new acc hlookup deal
      rw [hzero deal hdeal] at hnew
      rw [hnew]
      funext item
      cases item <;> rfl
    | some old =>
      have hover := books_insertDeal_over acc hlookup deal
      rw [hzero deal hdeal] at hover
      by_cases hmem : acc ∈ old.completeList.val.map CompleteInfo.miner
      · refine ⟨old.segmentList.val.length, ?_, ?_⟩
        · unfold DealInfo.holding at hover
          rw [if_pos hmem] at hover
          exact hover.symm
        · intro hexact
          rw [hold hexact old hlookup] at hmem
          cases hmem
      · refine ⟨0, ?_, fun _ => rfl⟩
        unfold DealInfo.holding at hover
        rw [if_neg hmem, add_zero] at hover
        rw [hover]
        funext item
        cases item <;> rfl
  · refine forall_insert hw.reports ?_
    rw [hdeal]
    exact List.nodup_nil

/-- The one call that can forget reports. -/
theorem World.Sound.uploadDeclaration (hw : w.Sound exact)
    {dealInfo : BoundedVec SegmentList T.segmentCount} {userBrief : UserBrief T} {fileSize : ℕ}
    (hold : exact → ∀ old, w.dealMap.lookup fileHash = some old → old.completeList.val = [])
    (h : (uploadDeclaration T sender fileHash dealInfo userBrief fileSize).run w = .ok u w') :
    w'.Sound exact := by
  rcases uploadDeclaration_run h with ⟨w₁, events, hfly, rfl⟩ | ⟨-, -, t, events, -, -, rfl⟩
  · exact (hw.retouched (flyUploadFile_ok hfly)).congr rfl rfl rfl
  · exact (hw.insertDeal rfl hold).congr rfl rfl rfl

/-! ## Tags -/

/-- The fragments of a miner that get a tag from its next report. -/
def FragmentInfo.Waits (sender : T.AccountId) (f : FragmentInfo T) : Prop :=
  f.miner = sender ∧ f.tag = none

instance (sender : T.AccountId) : DecidablePred (FragmentInfo.Waits (T := T) sender) := fun _ =>
  inferInstanceAs (Decidable (_ ∧ _))

/-- The fragments that wait for a tag are stored. -/
theorem holdingOf_waits (sender : T.AccountId) (l : List (FragmentInfo T)) :
    holdingOf l sender = holdingOf (l.filter fun f => ¬ f.Waits sender) sender +
      .stored (l.filter fun f => f.Waits sender).length := by
  induction l with
  | nil =>
    funext item
    cases item <;> rfl
  | cons f l ih =>
    funext item
    have hitem := congrFun ih item
    unfold holdingOf at hitem ⊢
    simp only [Pi.add_apply] at hitem ⊢
    by_cases hf : f.Waits sender
    · have hholding : f.holding sender item = Holding.stored 1 item := by
        unfold FragmentInfo.holding
        rw [if_pos hf.1, hf.2]
        cases item <;> rfl
      simp only [hf, hholding, List.map_cons, List.sum_cons, List.filter_cons, not_true, decide_true,
        decide_false, if_true, Bool.false_eq_true, if_false, List.length_cons, hitem]
      cases item <;> simp only [Holding.stored] <;> omega
    · simp only [hf, List.map_cons, List.sum_cons, List.filter_cons, not_false_eq_true,
        decide_true, decide_false, if_true, Bool.false_eq_true, if_false]
      omega

/-- With their tags they are in service. -/
theorem holdingOf_tagged (sender : T.AccountId) (now : ℕ) (l : List (FragmentInfo T)) :
    holdingOf (l.map fun f => if f.Waits sender then { f with tag := some now } else f) sender =
      holdingOf (l.filter fun f => ¬ f.Waits sender) sender +
      .served (l.filter fun f => f.Waits sender).length +
      .hashed ((l.filter fun f => f.Waits sender).map fun f => f.hash) := by
  induction l with
  | nil =>
    funext item
    cases item <;> rfl
  | cons f l ih =>
    funext item
    have hitem := congrFun ih item
    unfold holdingOf at hitem ⊢
    simp only [Pi.add_apply] at hitem ⊢
    by_cases hf : f.Waits sender
    · have hholding : ({ f with tag := some now } : FragmentInfo T).holding sender item =
          (Holding.served 1 + Holding.hashed [f.hash]) item := by
        unfold FragmentInfo.holding
        rw [if_pos hf.1]
        cases item <;> simp [Holding.fragment, Holding.served, Holding.hashed]
      simp only [hf, hholding, List.map_cons, List.sum_cons, List.filter_cons, not_true, decide_true,
        decide_false, if_true, Bool.false_eq_true, if_false, List.length_cons, hitem]
      cases item <;> simp only [Holding.served, Holding.hashed, Pi.add_apply, List.map_cons,
        List.map_nil, List.sum_cons, List.sum_nil] <;> omega
    · simp only [hf, List.map_cons, List.sum_cons, List.filter_cons, not_false_eq_true,
        decide_true, decide_false, if_true, Bool.false_eq_true, if_false]
      omega

/-- Nobody else is concerned. -/
theorem holdingOf_tagged_ne {acc : T.AccountId} (hacc : acc ≠ sender) (now : ℕ)
    (l : List (FragmentInfo T)) :
    holdingOf (l.map fun f => if f.Waits sender then { f with tag := some now } else f) acc =
      holdingOf l acc := by
  funext item
  unfold holdingOf
  rw [List.map_map]
  refine congrArg List.sum (List.map_congr_left fun f _ => ?_)
  show (if f.Waits sender then _ else f : FragmentInfo T).holding acc item = _
  split_ifs with hf
  · unfold FragmentInfo.holding
    have hne : ¬ f.miner = acc := fun h => hacc (h.symm.trans hf.1)
    rw [if_neg hne, if_neg hne]
  · rfl

/-- The tags of a report put its fragments into service. -/
theorem World.Sound.calculateReport (hw : w.Sound exact) {teeSig : BoundedVec UInt8 64}
    {info : TagSigInfo T.AccountId T.WorkerPublicKey}
    (h : (calculateReport T sender teeSig info).run w = .ok u w') : w'.Sound exact := by
  obtain ⟨file, hashList, s₁, s₂, outside, events, hfile, hbinary, hunlock, hinsert, rfl⟩ :=
    calculateReport_run h
  set waiting := file.fragments.filter fun f => f.Waits sender with hwaiting
  set rest := file.fragments.filter fun f => ¬ f.Waits sender with hrest
  set file' := file.mapFragments fun f =>
    if f.Waits sender then { f with tag := some w.now } else f with hfile'
  -- what the sender holds besides the fragments in question
  obtain ⟨base, hbase⟩ : ∃ base : T.AccountId → Holding,
      ∀ acc, base acc + file.holding acc = w.books acc :=
    ⟨_, fun acc => books_eraseFile acc hfile⟩
  have hsender : w.books sender =
      base sender + holdingOf rest sender + .stored waiting.length := by
    rw [← hbase, add_assoc]
    exact congrArg (base sender + ·) (holdingOf_waits sender file.fragments)
  have hs₂ := hw.miners.unlockSpaceToService hsender hunlock
  have hs₃ := hs₂.insertServiceBloom
    ((List.mapM_map (f := FragmentInfo.hash) (l := waiting)).trans hbinary) hinsert
  rw [Function.update_self, Function.update_idem] at hs₃
  have hdone := hw.replaceFile hfile (show file'.Hex by
      intro f' hf' htag
      rw [FileInfo.fragments_mapFragments] at hf'
      obtain ⟨f, hf, rfl⟩ := List.mem_map.mp hf'
      by_cases hwaits : f.Waits sender
      · rw [if_pos hwaits]
        exact ne_none_of_mapM hbinary f (List.mem_filter.mpr ⟨hf, decide_eq_true hwaits⟩)
      · rw [if_neg hwaits] at htag ⊢
        exact hw.hex _ _ hfile f hf htag)
    hs₃ (by
      intro acc
      by_cases hacc : acc = sender
      · subst hacc
        have hold : file.holding acc = holdingOf rest acc + .stored waiting.length :=
          holdingOf_waits acc file.fragments
        have hnew : file'.holding acc = holdingOf rest acc + .served waiting.length +
            .hashed (waiting.map fun f => f.hash) := by
          unfold FileInfo.holding
          rw [FileInfo.fragments_mapFragments]
          exact holdingOf_tagged acc w.now file.fragments
        rw [Function.update_self, hsender, hold, hnew]
        abel
      · rw [Function.update_of_ne hacc]
        refine congrArg (w.books acc + ·) ?_
        unfold FileInfo.holding
        rw [FileInfo.fragments_mapFragments]
        exact (holdingOf_tagged_ne hacc w.now file.fragments).symm)
  exact hdone.congr rfl rfl rfl

/-! ## Restored fragments -/

theorem FileInfo.holding_of_split {file : FileInfo T} {l₁ l₂ : List (FragmentInfo T)}
    {f : FragmentInfo T} (h : file.fragments = l₁ ++ f :: l₂) (acc : T.AccountId) :
    file.holding acc = holdingOf l₁ acc + holdingOf l₂ acc + f.holding acc := by
  funext item
  unfold FileInfo.holding holdingOf
  rw [h, List.map_append, List.sum_append, List.map_cons, List.sum_cons]
  show _ = (l₁.map _).sum + (l₂.map _).sum + f.holding acc item
  omega

/-- **A fragment that is handed over** leaves the books of its old holder, which never fails. -/
theorem releaseFragment_ok {B : T.AccountId → Holding} {fragment : FragmentInfo T} {h : Holding}
    {binary : Fin 256 → UInt8} (hs : w.miner.Sound exact B)
    (hB : B fragment.miner = h + .fragment fragment.hash fragment.tag.isSome)
    (hbinary : fragment.hash.binary = some binary) :
    ∃ s, (if Sminer.restoralTargetIsExist w.miner fragment.miner then
        liftMiner T (Sminer.updateRestoralTarget fragment.miner fragmentSize)
      else if fragment.tag.isSome then do
        liftMiner T (Sminer.deleteServiceBloom fragment.miner [binary])
        liftMiner T (Sminer.subMinerServiceSpace fragment.miner fragmentSize)
      else
        liftMiner T (Sminer.unlockSpaceDirect fragment.miner fragmentSize)).run w =
          .ok () { w with miner := s } ∧
      s.Sound exact (Function.update B fragment.miner h) := by
  have hparts : Holding.fragment fragment.hash true = .served 1 + .hashed [fragment.hash] ∧
      Holding.fragment fragment.hash false = .stored 1 := by
    constructor
    · funext item
      cases item <;> simp [Holding.fragment, Holding.served, Holding.hashed]
    · funext item
      cases item <;> rfl
  have hcount : h .tagged + h .untagged + 1 ≤ B fragment.miner .tagged + B fragment.miner .untagged := by
    rw [hB]
    cases fragment.tag.isSome <;>
      simp only [Pi.add_apply, Holding.fragment, if_true, Bool.false_eq_true, if_false] <;> omega
  cases htarget : w.miner.restoralTarget.lookup fragment.miner with
  | some target =>
    have hexist : Sminer.restoralTargetIsExist w.miner fragment.miner = true :=
      decide_eq_true (mem_iff_exists_lookup.mpr ⟨target, htarget⟩)
    obtain ⟨s, hrun, hsound⟩ := hs.updateRestoralTarget htarget hcount (by rw [hB]; rfl)
    rw [hexist]
    exact ⟨s, run_liftMiner hrun, hsound⟩
  | none =>
    have hexist : Sminer.restoralTargetIsExist w.miner fragment.miner = false :=
      decide_eq_false (AList.lookup_eq_none.mp htarget)
    have hne : B fragment.miner ≠ 0 := by
      intro hzero
      rw [hzero] at hcount
      exact absurd hcount (Nat.not_succ_le_zero _)
    obtain ⟨info, hinfo⟩ := hs.exists_of_ne_zero hne
    rw [hexist]
    cases htag : fragment.tag.isSome with
    | true =>
      rw [htag, hparts.1, ← add_assoc] at hB
      obtain ⟨info₁, hrun₁, hs₁⟩ := hs.deleteServiceBloom
        (show [fragment.hash].mapM Hash.binary = some [binary] by
          rw [List.mapM_cons, hbinary]
          rfl) hinfo htarget hB
      obtain ⟨info₂, hrun₂, hs₂⟩ := hs₁.subMinerServiceSpace
        (Sminer.World.lookup_write _ _ info₁) htarget (Function.update_self _ _ B)
      rw [Function.update_idem] at hs₂
      refine ⟨_, ?_, hs₂⟩
      exact run_bind_ok.mpr ⟨(), _, run_liftMiner hrun₁, run_liftMiner hrun₂⟩
    | false =>
      rw [htag, hparts.2] at hB
      obtain ⟨info₁, hrun₁, hs₁⟩ := hs.unlockSpaceDirect hinfo htarget hB
      refine ⟨_, ?_, hs₁⟩
      exact run_liftMiner hrun₁

/-- **A restored fragment** is in service at the sender and gone from its old holder. -/
theorem restoreFragment_ok {B : T.AccountId → Holding} {fragment : FragmentInfo T}
    {info : Sminer.MinerInfo T.AccountId} {h : Holding} (hs : w.miner.Sound exact B)
    (hinfo : w.miner.minerItems.lookup sender = some info) (hstate : info.state ≠ .exit)
    (hne : fragment.miner ≠ sender)
    (hB : B fragment.miner = h + .fragment fragment.hash fragment.tag.isSome)
    (hrun : (restoreFragment T sender fragment).run w = .ok u w') :
    fragment.hash.binary ≠ none ∧ ∃ s, w' = { w with miner := s } ∧
      s.Sound exact (Function.update
        (Function.update B sender (B sender + .fragment fragment.hash true))
        fragment.miner h) := by
  simp only [restoreFragment, run_ok, bank_ok, existsAndEq] at hrun
  obtain ⟨binary, hbinary, _, s₁, hrun₁, _, s₂, hrun₂, _, s₃, hrun₃, _, s₄, hrun₄, hrest⟩ := hrun
  have hs₁ := hs.insertServiceBloom (show [fragment.hash].mapM Hash.binary = some [binary] by
    rw [List.mapM_cons, hbinary]
    rfl) hrun₁
  obtain ⟨info₁, filter, hinfo₁, -, hwrite⟩ := Sminer.run_updateServiceBloom_ok.mp hrun₁
  have hlookup : s₁.minerItems.lookup sender = some { info₁ with serviceBloomFilter := filter } := by
    rw [← hwrite]
    exact AList.lookup_insert _
  have hstate₁ : ({ info₁ with serviceBloomFilter := filter } :
      Sminer.MinerInfo T.AccountId).state ≠ .exit := by
    obtain rfl : info₁ = info := Option.mem_unique hinfo₁ hinfo
    exact hstate
  obtain ⟨hs₄, -⟩ := hs₁.restore hlookup hstate₁ hrun₂ hrun₃ hrun₄
  rw [Function.update_self, Function.update_idem] at hs₄
  have hfragment : B sender + .hashed [fragment.hash] + .served 1 =
      B sender + .fragment fragment.hash true := by
    funext item
    cases item <;> simp [Holding.fragment, Holding.served, Holding.hashed]
  rw [hfragment] at hs₄
  obtain ⟨s₅, hrun₅, hs₅⟩ := releaseFragment_ok (w := { w with miner := s₄ }) hs₄
    (by rw [Function.update_of_ne hne]; exact hB) hbinary
  refine ⟨by rw [hbinary]; exact Option.some_ne_none _, s₅, ?_, hs₅⟩
  rw [hrun₅] at hrest
  exact (EStateM.Result.ok.inj hrest).2.symm

theorem World.Sound.restoralOrderComplete (hw : w.Sound exact) {fragmentHash : Hash}
    (h : (restoralOrderComplete T sender fragmentHash).run w = .ok u w') : w'.Sound exact := by
  obtain ⟨order, info, w₁, events, -, hinfo, hstate, rfl, ⟨-, rfl⟩ | ⟨file, hfile, ⟨-, rfl⟩ |
    ⟨fragment, s, hfind, hne, hrestore, rfl⟩⟩⟩ := restoralOrderComplete_run h
  · exact hw.congr rfl rfl rfl
  · exact (hw.replaceFile hfile (hw.hex _ _ hfile) hw.miners fun acc => rfl).congr rfl rfl rfl
  · have hsender : info.state ≠ .exit := by
      rw [hstate]
      exact fun h => nomatch h
    obtain ⟨l₁, l₂, -, hl, hl'⟩ := FileInfo.fragments_modifyFirst hfind
      fun f => { f with tag := some w.now, avail := true, miner := sender }
    -- what the old holder has besides the fragment
    obtain ⟨base, hbase⟩ : ∃ base : T.AccountId → Holding,
        ∀ acc, base acc + file.holding acc = w.books acc :=
      ⟨_, fun acc => books_eraseFile acc hfile⟩
    have hholder : w.books fragment.miner = base fragment.miner +
        (holdingOf l₁ fragment.miner + holdingOf l₂ fragment.miner) +
        .fragment fragment.hash fragment.tag.isSome := by
      rw [← hbase, FileInfo.holding_of_split hl, ← add_assoc]
      exact congrArg _ (if_pos rfl)
    obtain ⟨hbinary, s', hs', hs⟩ :=
      restoreFragment_ok hw.miners hinfo hsender hne hholder hrestore
    obtain rfl : s = s' := congrArg World.miner hs'
    refine (hw.replaceFile hfile ?_ hs ?_).congr rfl rfl rfl
    · intro f hf htag
      rw [hl'] at hf
      rcases List.mem_append.mp hf with hf | hf
      · exact hw.hex _ _ hfile f (by rw [hl]; exact List.mem_append_left _ hf) htag
      · rcases List.mem_cons.mp hf with rfl | hf
        · exact hbinary
        · refine hw.hex _ _ hfile f ?_ htag
          rw [hl]
          exact List.mem_append_right _ (List.mem_cons_of_mem _ hf)
    · intro acc
      rw [FileInfo.holding_of_split hl', FileInfo.holding_of_split hl]
      simp only [FragmentInfo.holding, Option.isSome_some]
      by_cases hacc : fragment.miner = acc
      · subst hacc
        rw [Function.update_self, if_neg hne.symm, hholder]
        abel
      · rw [Function.update_of_ne (Ne.symm hacc), if_neg hacc]
        by_cases hacc' : sender = acc
        · subst hacc'
          rw [Function.update_self, if_pos rfl]
          abel
        · rw [Function.update_of_ne (Ne.symm hacc'), if_neg hacc']

/-! ## The calls -/

/-- The pending deal that a call puts its own deal over. -/
def Call.overwritten (w : World T) : Call T → Option (DealInfo T)
  | .uploadDeclaration _ fileHash _ _ _ => w.dealMap.lookup fileHash
  | _ => none

theorem World.Sound.replaceIdleSpace (hw : w.Sound exact) {info : SpaceProofInfo T.AccountId}
    {sigNeedVerify sig : BoundedVec UInt8 64} {teePuk : T.WorkerPublicKey}
    (h : (replaceIdleSpace T sender info sigNeedVerify sig teePuk).run w = .ok u w') :
    w'.Sound exact := by
  obtain ⟨signature, count, s₁, s₂, outside, events, hdelete, hreplace, rfl⟩ :=
    replaceIdleSpace_run h
  exact ⟨hw.miners.replaceIdle hdelete hreplace, hw.hex, hw.reports⟩

theorem World.Sound.certIdleSpace (hw : w.Sound exact) {info : SpaceProofInfo T.AccountId}
    {sigNeedVerify sig : BoundedVec UInt8 64} {teePuk : T.WorkerPublicKey}
    (h : (certIdleSpace T sender info sigNeedVerify sig teePuk).run w = .ok u w') :
    w'.Sound exact := by
  obtain ⟨signature, space, s, outside, events, hadd, rfl⟩ := certIdleSpace_run h
  exact ⟨hw.miners.addMinerIdleSpace hadd, hw.hex, hw.reports⟩

theorem World.Sound.deleteFile (hw : w.Sound exact) {owner : T.AccountId}
    (h : (deleteFile T sender owner fileHash).run w = .ok u w') : w'.Sound exact := by
  simp only [FileBank.deleteFile, run_ok, existsAndEq] at h
  obtain ⟨-, file, -, _, w₁, hdelete, _, w₂, hbucket, _, w₃, hheld, hevent⟩ := h
  have hw₁ : w₁.Sound exact := by
    refine forM_ok_inv (P := fun _ w => w.Sound exact) ?_ hw hdelete
    intro brief rest w w' hw hrun
    split_ifs at hrun
    · exact hw.retouched ((keeps_removeFileOwner _ _ _).run_ok hrun)
    · exact hw.removeFileLastOwner hrun
    · obtain ⟨-, rfl⟩ := run_pure_ok.mp hrun
      exact hw
  have hw₂ := hw₁.aside ((keeps_bucketRemoveFile _ _ _).run_ok hbucket)
  have hw₃ := hw₂.aside ((keeps_removeUserHoldFileList _ _).run_ok hheld)
  exact hw₃.aside ((keeps_depositEvent _).run_ok hevent)

/-- **The calls keep the books**, as long as no report is overwritten where all locked space is
to be accounted for. -/
theorem Call.code_sound (call : Call T) (hw : w.Safe exact)
    (hold : exact → ∀ deal, call.overwritten w = some deal → deal.completeList.val = [])
    (h : (call.code T).run w = .ok u w') : w'.Sound exact := by
  cases call with
  | uploadDeclaration =>
    exact hw.sound.uploadDeclaration hold h
  | territoryFileDelivery =>
    exact hw.sound.aside ((keeps_territoryFileDelivery _ _ _ _).run_ok h)
  | transferReport => exact hw.transferReport h
  | calculateReport => exact hw.sound.calculateReport h
  | replaceIdleSpace => exact hw.sound.replaceIdleSpace h
  | deleteFile => exact hw.sound.deleteFile h
  | certIdleSpace => exact hw.sound.certIdleSpace h
  | createBucket => exact hw.sound.aside (createBucket_ok h)
  | deleteBucket => exact hw.sound.aside (deleteBucket_ok h)
  | generateRestoralOrder => exact hw.sound.retouched (generateRestoralOrder_ok h)
  | claimRestoralOrder => exact hw.sound.aside (claimRestoralOrder_ok h)
  | claimRestoralNoexistOrder => exact hw.sound.retouched (claimRestoralNoexistOrder_ok h)
  | restoralOrderComplete => exact hw.sound.restoralOrderComplete h

end FileBank
