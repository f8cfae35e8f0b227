/-
# The space account of a miner

A miner's record splits its declared space into idle, locked and service space.  What the
locked and the service space stand for is listed elsewhere: in the files, as fragments with and
without a tag, and in the deals, as reports.  This file has the account that both sides keep:

* `Holding` : what files and deals hold of a miner, in fragments, bit by bit of their hashes for
  the filter;
* `MinerInfo.Sound` : the record agrees with a given holding.  The flag `exact` says whether all
  locked space is accounted for, or at least as much as is held;
* `World.Sound` : all records agree with given holdings, and an account that is no miner holds
  nothing;
* one lemma per operation of sminer on the space of a miner: from books that agree with some
  holdings it makes books that agree with others.
-/
import CessNode.Sminer

open Dispatch StorageMap

/-- Bit `i` of a hash, zero if the hash is not a hexadecimal number. -/
def Hash.bit (hash : Hash) (i : Fin 256) : ℕ := (hash.binary.map fun bits => (bits i).toNat).getD 0

theorem Hash.binary_bit {hash : Hash} {bits : Fin 256 → UInt8} (h : hash.binary = some bits)
    (i : Fin 256) : (bits i = 1 ∨ bits i = 0) ∧ (bits i).toUInt64 = .ofNat (hash.bit i) := by
  have hbit : bits i = 1 ∨ bits i = 0 := by
    obtain ⟨digits, -, rfl⟩ := Option.map_eq_some_iff.mp h
    rcases Nat.mod_two_eq_zero_or_one (digits.getD (i / 4) 0 / 2 ^ (3 - i.val % 4)) with hmod | hmod
    · right
      show UInt8.ofNat _ = 0
      rw [hmod]
      rfl
    · left
      show UInt8.ofNat _ = 1
      rw [hmod]
      rfl
  refine ⟨hbit, ?_⟩
  have hvalue : hash.bit i = (bits i).toNat := by
    unfold Hash.bit
    rw [h]
    rfl
  rw [hvalue]
  rcases hbit with hbit | hbit <;> rw [hbit] <;> rfl

theorem fragmentSize_eq : fragmentSize = 8388608 := rfl

theorem idleSegSize_eq : idleSegSize = 67108864 := rfl

namespace Sminer

/-! ## The filter -/

/-- The elements made of hashes are counted bit by bit. -/
theorem BloomFilter.foldlM_insert {hashes : List Hash} {elems : List (Fin 256 → UInt8)}
    (h : hashes.mapM Hash.binary = some elems) (filter : BloomFilter) :
    ∃ filter', elems.foldlM BloomFilter.insert filter = some filter' ∧
      ∀ i, filter' i = filter i + .ofNat (hashes.map (·.bit i)).sum := by
  replace h := forall₂_of_mapM h
  induction h generalizing filter with
  | nil =>
    refine ⟨filter, rfl, fun i => ?_⟩
    show filter i = filter i + 0
    rw [add_zero]
  | @cons hash bits hashes rest hbits _ ih =>
    obtain ⟨filter', hfold, hfilter⟩ := ih fun i => filter i + (bits i).toUInt64
    refine ⟨filter', ?_, fun i => ?_⟩
    · have hinsert : BloomFilter.insert filter bits = some fun i => filter i + (bits i).toUInt64 :=
        if_pos fun i => (Hash.binary_bit hbits i).1
      rw [List.foldlM_cons, hinsert]
      exact hfold
    · rw [hfilter, (Hash.binary_bit hbits i).2, List.map_cons, List.sum_cons, UInt64.ofNat_add,
        add_assoc]

/-- A filter that counts the hashes among others can discount them. -/
theorem BloomFilter.foldlM_delete {hashes : List Hash} {elems : List (Fin 256 → UInt8)}
    (h : hashes.mapM Hash.binary = some elems) {filter : BloomFilter} {count : Fin 256 → ℕ}
    (hfilter : ∀ i, filter i = .ofNat (count i + (hashes.map (·.bit i)).sum)) :
    ∃ filter', elems.foldlM BloomFilter.delete filter = some filter' ∧
      ∀ i, filter' i = .ofNat (count i) := by
  replace h := forall₂_of_mapM h
  induction h generalizing filter with
  | nil => exact ⟨filter, rfl, hfilter⟩
  | @cons hash bits hashes rest hbits _ ih =>
    have hrest' : ∀ i, filter i - (bits i).toUInt64 =
        .ofNat (count i + (hashes.map (·.bit i)).sum) := by
      intro i
      rw [hfilter, (Hash.binary_bit hbits i).2, List.map_cons, List.sum_cons, add_left_comm,
        UInt64.ofNat_add, add_sub_cancel_left]
    have hdelete : BloomFilter.delete filter bits = some fun i => filter i - (bits i).toUInt64 :=
      if_pos fun i => (Hash.binary_bit hbits i).1
    obtain ⟨filter', hfold, hcount⟩ := ih hrest'
    refine ⟨filter', ?_, hcount⟩
    rw [List.foldlM_cons, hdelete]
    exact hfold

/-! ## Holdings -/

/-- What is counted of a miner in files and deals. -/
inductive Item where
  /-- Fragments with a tag. -/
  | tagged
  /-- Fragments without a tag. -/
  | untagged
  /-- Fragments reported in pending deals. -/
  | pledged
  /-- The sum of one bit of the hashes of the fragments with a tag. -/
  | bit (i : Fin 256)

/-- How much there is of every item. -/
abbrev Holding := Item → ℕ

/-- What a single fragment is to its miner. -/
def Holding.fragment (hash : Hash) (tagged : Bool) : Holding
  | .tagged => if tagged then 1 else 0
  | .untagged => if tagged then 0 else 1
  | .pledged => 0
  | .bit i => if tagged then hash.bit i else 0

/-- Fragments of pending deals. -/
def Holding.pledge (count : ℕ) : Holding
  | .pledged => count
  | _ => 0

/-- Fragments without a tag. -/
def Holding.stored (count : ℕ) : Holding
  | .untagged => count
  | _ => 0

/-- Fragments with a tag, apart from their hashes. -/
def Holding.served (count : ℕ) : Holding
  | .tagged => count
  | _ => 0

/-- The hashes of fragments with a tag. -/
def Holding.hashed (hashes : List Hash) : Holding
  | .bit i => (hashes.map (·.bit i)).sum
  | _ => 0

/-- A list of fragments. -/
def Holding.ofList (l : List (Hash × Bool)) : Holding := fun item =>
  (l.map fun p => Holding.fragment p.1 p.2 item).sum

/-- A list of fragments has some with a tag, with their hashes, and some without. -/
theorem Holding.ofList_eq (l : List (Hash × Bool)) :
    Holding.ofList l = .served (l.filter fun p => p.2).length +
      .stored (l.filter fun p => !p.2).length +
      .hashed ((l.filter fun p => p.2).map fun p => p.1) := by
  induction l with
  | nil =>
    funext item
    cases item <;> rfl
  | cons p l ih =>
    obtain ⟨hash, tagged⟩ := p
    have hcons : Holding.ofList ((hash, tagged) :: l) =
        Holding.fragment hash tagged + Holding.ofList l := rfl
    rw [hcons, ih]
    funext item
    cases tagged <;> cases item <;>
      simp [Holding.fragment, Holding.served, Holding.stored, Holding.hashed, add_comm]

/-! ## Records that agree with a holding -/

variable {AccountId : Type} [DecidableEq AccountId]
variable {h : Holding} {elems : List (Fin 256 → UInt8)} {accumulator : Accumulator}
  {teeSig : TeeSig}

/-- The record of a miner agrees with what files and deals hold of it.  Of a miner that has
left, the service space is not brought down to what is left in the files; the restoral target
says how much of it has been restored. -/
structure MinerInfo.Sound (exact : Prop) (info : MinerInfo AccountId)
    (target : Option (RestoralTargetInfo AccountId)) (pending : ℕ) (h : Holding) : Prop where
  capacity : info.idleSpace + info.serviceSpace + info.lockSpace ≤ info.declarationSpace
  fits : info.declarationSpace < 2 ^ 128
  unproved : info.spaceProofInfo = none → info.idleSpace = 0 ∧ pending = 0 ∧ h .pledged = 0
  window : ∀ proof, info.spaceProofInfo = some proof → proof.front ≤ proof.rear ∧
    info.idleSpace + pending + fragmentSize * h .pledged ≤
      idleSegSize * (proof.rear - proof.front)
  service : target = none → info.serviceSpace = fragmentSize * h .tagged
  filter : target = none → ∀ i, info.serviceBloomFilter i = .ofNat (h (.bit i))
  lock : target = none → fragmentSize * (h .untagged + h .pledged) ≤ info.lockSpace
  locked : exact → target = none → info.lockSpace = fragmentSize * (h .untagged + h .pledged)
  gone : ∀ r, target = some r → r.restoredSpace +
    fragmentSize * (h .tagged + h .untagged + h .pledged) ≤ info.serviceSpace + info.lockSpace
  state : info.state = .exit → target ≠ none
  fresh : info.state = .notReady → info.spaceProofInfo = none

/-- The space of a miner still to be replaced. -/
def World.pending (s : World AccountId) (acc : AccountId) : ℕ :=
  (s.pendingReplacements.lookup acc).getD 0

/-- The account of one miner; an account that is no miner holds nothing. -/
def World.SoundAt (exact : Prop) (s : World AccountId) (acc : AccountId) (h : Holding) : Prop :=
  match s.minerItems.lookup acc with
  | some info => info.Sound exact (s.restoralTarget.lookup acc) (s.pending acc) h
  | none => s.restoralTarget.lookup acc = none ∧ s.pending acc = 0 ∧ h = 0

/-- The accounts of all miners agree with the given holdings. -/
def World.Sound (exact : Prop) (s : World AccountId) (B : AccountId → Holding) : Prop :=
  ∀ acc, s.SoundAt exact acc (B acc)

variable {exact : Prop} {s s' : World AccountId} {B : AccountId → Holding} {acc : AccountId}
  {info info' : MinerInfo AccountId}

theorem World.Sound.of_lookup (hs : s.Sound exact B) (hinfo : s.minerItems.lookup acc = some info) :
    info.Sound exact (s.restoralTarget.lookup acc) (s.pending acc) (B acc) := by
  have h := hs acc
  unfold World.SoundAt at h
  rwa [hinfo] at h

theorem World.Sound.of_none (hs : s.Sound exact B) (hinfo : s.minerItems.lookup acc = none) :
    s.restoralTarget.lookup acc = none ∧ s.pending acc = 0 ∧ B acc = 0 := by
  have h := hs acc
  unfold World.SoundAt at h
  rwa [hinfo] at h

theorem World.SoundAt.intro (hinfo : s.minerItems.lookup acc = some info)
    (hsound : info.Sound exact (s.restoralTarget.lookup acc) (s.pending acc) h) :
    s.SoundAt exact acc h := by
  unfold World.SoundAt
  rwa [hinfo]

/-- What holds something is a miner. -/
theorem World.Sound.exists_of_ne_zero (hs : s.Sound exact B) (h : B acc ≠ 0) :
    ∃ info, s.minerItems.lookup acc = some info := by
  cases hinfo : s.minerItems.lookup acc with
  | none => exact absurd (hs.of_none hinfo).2.2 h
  | some info => exact ⟨info, rfl⟩

/-- Two storages agree on one account. -/
structure World.AgreeAt (s s' : World AccountId) (acc : AccountId) : Prop where
  info : s'.minerItems.lookup acc = s.minerItems.lookup acc
  target : s'.restoralTarget.lookup acc = s.restoralTarget.lookup acc
  pending : s'.pending acc = s.pending acc

theorem World.SoundAt.agree (hs : s.SoundAt exact acc h) (hagree : s.AgreeAt s' acc) :
    s'.SoundAt exact acc h := by
  unfold World.SoundAt at hs ⊢
  rwa [hagree.info, hagree.target, hagree.pending]

/-- **The books of one miner at a time.**  Where nothing but the account of one miner changes,
only this account has to be looked at. -/
theorem World.Sound.update (hs : s.Sound exact B) (hother : ∀ a, a ≠ acc → s.AgreeAt s' a)
    (hacc : s'.SoundAt exact acc h) : s'.Sound exact (Function.update B acc h) := by
  intro a
  by_cases ha : a = acc
  · subst ha
    rwa [Function.update_self]
  · rw [Function.update_of_ne ha]
    exact (hs a).agree (hother a ha)

/-- The storage with another record of a miner. -/
def World.write (s : World AccountId) (acc : AccountId) (info : MinerInfo AccountId) :
    World AccountId :=
  { s with minerItems := s.minerItems.insert acc info }

theorem World.lookup_write (s : World AccountId) (acc : AccountId) (info : MinerInfo AccountId) :
    (s.write acc info).minerItems.lookup acc = some info :=
  AList.lookup_insert _

/-- The record of a miner is rewritten. -/
theorem World.Sound.insertMiner (hs : s.Sound exact B)
    (hinfo : info'.Sound exact (s.restoralTarget.lookup acc) (s.pending acc) h) :
    (s.write acc info').Sound exact (Function.update B acc h) := by
  apply hs.update
  · intro a ha
    exact ⟨AList.lookup_insert_ne ha, rfl, rfl⟩
  · exact World.SoundAt.intro (AList.lookup_insert _) hinfo

theorem World.pending_insert (s : World AccountId) (acc a : AccountId) (v : ℕ) :
    ({ s with pendingReplacements := s.pendingReplacements.insert acc v } : World AccountId).pending
      a = if a = acc then v else s.pending a := by
  unfold World.pending
  rw [lookup_insert_ite]
  split_ifs <;> rfl

/-! ## What the operations do -/

variable {u : Unit} {space count : ℕ}

theorem run_lockSpace_ok :
    (lockSpace acc space).run s = .ok u s' ↔ ∃ info, s.minerItems.lookup acc = some info ∧
      info.lockSpace + space < 2 ^ 128 ∧ space ≤ info.idleSpace ∧
      { s with
        minerItems := s.minerItems.insert acc
          { info with
            lockSpace := info.lockSpace + space, idleSpace := info.idleSpace - space } } = s' := by
  simp only [lockSpace, tryMutateMiner, run_tryMutate_ok, run_ok, checkedAdd_eq_some,
    checkedSub_eq_some, existsAndEq, Prod.mk.injEq]

theorem run_tryMutateIfMiner_ok
    {f : MinerInfo AccountId → MinerM AccountId (Unit × MinerInfo AccountId)} :
    (tryMutateIfMiner acc f).run s = .ok u s' ↔
      (s.minerItems.lookup acc = none ∧ s = s') ∨
      ∃ info info' s₁, s.minerItems.lookup acc = some info ∧ (f info).run s = .ok ((), info') s₁ ∧
        { s₁ with minerItems := s₁.minerItems.insert acc info' } = s' := by
  simp only [tryMutateIfMiner, tryMutateMiner, run_ok, run_ite_ok, run_tryMutate_ok, existsAndEq]
  cases hinfo : s.minerItems.lookup acc with
  | none =>
    have hmem : acc ∉ s.minerItems := AList.lookup_eq_none.mp hinfo
    simp [hmem]
  | some info =>
    have hmem : acc ∈ s.minerItems := mem_iff_exists_lookup.mpr ⟨info, hinfo⟩
    simp [hmem]

theorem run_unlockSpace_ok :
    (unlockSpace acc space).run s = .ok u s' ↔
      (s.minerItems.lookup acc = none ∧ s = s') ∨
      ∃ info, s.minerItems.lookup acc = some info ∧ space ≤ info.lockSpace ∧
        info.idleSpace + space < 2 ^ 128 ∧
        { s with
          minerItems := s.minerItems.insert acc
            { info with
              lockSpace := info.lockSpace - space, idleSpace := info.idleSpace + space } } = s' := by
  simp only [unlockSpace, run_tryMutateIfMiner_ok, run_ok, checkedAdd_eq_some, checkedSub_eq_some,
    existsAndEq, Prod.mk.injEq]

theorem run_unlockSpaceDirect_ok :
    (unlockSpaceDirect acc space).run s = .ok u s' ↔
      (s.minerItems.lookup acc = none ∧ s = s') ∨
      ∃ info, s.minerItems.lookup acc = some info ∧ space ≤ info.lockSpace ∧
        { s with
          minerItems := s.minerItems.insert acc
            { info with lockSpace := info.lockSpace - space } } = s' := by
  simp only [unlockSpaceDirect, run_tryMutateIfMiner_ok, run_ok, checkedSub_eq_some, existsAndEq,
    Prod.mk.injEq]

theorem run_unlockSpaceToService_ok :
    (unlockSpaceToService acc space).run s = .ok u s' ↔
      ∃ info, s.minerItems.lookup acc = some info ∧ space ≤ info.lockSpace ∧
        info.serviceSpace + space < 2 ^ 128 ∧
        { s with
          minerItems := s.minerItems.insert acc
            { info with
              lockSpace := info.lockSpace - space
              serviceSpace := info.serviceSpace + space } } = s' := by
  simp only [unlockSpaceToService, tryMutateMiner, run_tryMutate_ok, run_ok, checkedAdd_eq_some,
    checkedSub_eq_some, existsAndEq, Prod.mk.injEq]

theorem run_deleteIdleUpdateSpace_ok :
    (deleteIdleUpdateSpace acc space).run s = .ok u s' ↔
      ∃ info, s.minerItems.lookup acc = some info ∧ space ≤ info.idleSpace ∧
        { s with
          minerItems := s.minerItems.insert acc
            { info with idleSpace := info.idleSpace - space } } = s' := by
  simp only [deleteIdleUpdateSpace, tryMutateMiner, run_tryMutate_ok, run_ok, checkedSub_eq_some,
    existsAndEq, Prod.mk.injEq]

theorem run_increaseReplaceSpace_ok :
    (increaseReplaceSpace acc space).run s = .ok u s' ↔
      s.pending acc + space < 2 ^ 128 ∧
        { s with
          pendingReplacements := s.pendingReplacements.insert acc (s.pending acc + space) } =
            s' := by
  simp only [increaseReplaceSpace, tryMutatePending, run_tryMutate_ok, run_ok, checkedAdd_eq_some,
    existsAndEq, Prod.mk.injEq, Option.some.injEq, World.pending]

theorem run_decreaseReplaceSpace_ok :
    (decreaseReplaceSpace acc space).run s = .ok u s' ↔
      s.pending acc / idleSegSize ≠ 0 ∧ space ≤ s.pending acc ∧
        { s with
          pendingReplacements := s.pendingReplacements.insert acc (s.pending acc - space) } =
            s' := by
  simp only [decreaseReplaceSpace, tryMutatePending, run_tryMutate_ok, run_ok, checkedSub_eq_some,
    existsAndEq, Prod.mk.injEq, Option.some.injEq, World.pending]

theorem run_updateRestoralTarget_ok :
    (updateRestoralTarget acc space).run s = .ok u s' ↔
      ∃ target, s.restoralTarget.lookup acc = some target ∧
        target.restoredSpace + space < 2 ^ 128 ∧
        { s with
          restoralTarget := s.restoralTarget.insert acc
            { target with restoredSpace := target.restoredSpace + space } } = s' := by
  simp only [updateRestoralTarget, run_tryMutate_ok, run_ok, checkedAdd_eq_some, existsAndEq,
    Prod.mk.injEq]

theorem run_updateServiceSpace_ok {change : ℕ → Option ℕ} :
    (updateServiceSpace acc change).run s = .ok u s' ↔
      (s.minerItems.lookup acc = none ∧ s = s') ∨
      ∃ info, s.minerItems.lookup acc = some info ∧
        ((info.state = .exit ∧ s = s') ∨
          (info.state ≠ .exit ∧ ∃ service, change info.serviceSpace = some service ∧
            { s with
              minerItems := s.minerItems.insert acc { info with serviceSpace := service } } =
                s')) := by
  simp only [updateServiceSpace, checkState, getMinerState, tryMutateMiner, run_ok, run_ite_ok,
    run_tryMutate_ok, existsAndEq]
  cases hinfo : s.minerItems.lookup acc with
  | none =>
    have hmem : acc ∉ s.minerItems := AList.lookup_eq_none.mp hinfo
    simp [hmem]
  | some info =>
    have hmem : acc ∈ s.minerItems := mem_iff_exists_lookup.mpr ⟨info, hinfo⟩
    simp [hmem]

theorem run_updateServiceBloom_ok {change : BloomFilter → (Fin 256 → UInt8) → Option BloomFilter} :
    (updateServiceBloom change acc elems).run s = .ok u s' ↔
      ∃ info filter, s.minerItems.lookup acc = some info ∧
        elems.foldlM change info.serviceBloomFilter = some filter ∧
        { s with
          minerItems := s.minerItems.insert acc { info with serviceBloomFilter := filter } } =
            s' := by
  simp only [updateServiceBloom, tryMutateMiner, run_tryMutate_ok, run_ok, existsAndEq,
    Prod.mk.injEq]

theorem run_addMinerIdleSpace_ok {checkFront rear : ℕ} :
    (addMinerIdleSpace acc accumulator checkFront rear teeSig).run s = .ok space s' ↔
      ∃ info proof, s.minerItems.lookup acc = some info ∧ info.state = .positive ∧
        info.spaceProofInfo = some proof ∧ checkFront = proof.front ∧ proof.rear < rear ∧
        idleSegSize * (rear - proof.rear) = space ∧
        info.idleSpace + space + info.serviceSpace + info.lockSpace ≤ info.declarationSpace ∧
        info.idleSpace + space + info.serviceSpace + info.lockSpace < 2 ^ 128 ∧
        { s with
          minerItems := s.minerItems.insert acc
            { info with
              idleSpace := info.idleSpace + space
              teeSignature := teeSig
              spaceProofInfo := some { proof with rear := rear, accumulator := accumulator } } } =
            s' := by
  simp only [addMinerIdleSpace, tryMutateMiner, run_tryMutate_ok, run_ok, checkedAdd_eq_some,
    checkedSub_eq_some, checkedMul_eq_some, existsAndEq, Prod.mk.injEq]
  constructor
  · rintro ⟨info, hinfo, hstate, proof, hproof, hfront, hrear, -, hmul, hidle, hheld, hsum, hcap,
      rfl, rfl⟩
    exact ⟨info, hinfo, hstate, proof, hproof, hfront, hrear, rfl, hcap, hsum, rfl⟩
  · rintro ⟨info, hinfo, hstate, proof, hproof, hfront, hrear, rfl, hcap, hsum, rfl⟩
    exact ⟨info, hinfo, hstate, proof, hproof, hfront, hrear, hrear.le, by omega, by omega,
      by omega, hsum, hcap, rfl, rfl⟩

theorem run_deleteIdleUpdateAccu_ok {front checkRear : ℕ} :
    (deleteIdleUpdateAccu acc accumulator front checkRear teeSig).run s = .ok count s' ↔
      ∃ info proof, s.minerItems.lookup acc = some info ∧ info.spaceProofInfo = some proof ∧
        checkRear = proof.rear ∧ proof.front < front ∧ front - proof.front = count ∧
        { s with
          minerItems := s.minerItems.insert acc
            { info with
              teeSignature := teeSig
              spaceProofInfo :=
                some { proof with front := front, accumulator := accumulator } } } = s' := by
  simp only [deleteIdleUpdateAccu, tryMutateMiner, run_tryMutate_ok, run_ok, existsAndEq,
    Prod.mk.injEq]

/-! ## The operations and the books -/

section Operations

variable {h : Holding}

omit [DecidableEq AccountId] in
/-- **Space that moves.**  A record stays sound if service and locked space move as the holding
does, and neither the whole space nor what has to fit into the window grows. -/
theorem MinerInfo.Sound.move {target : Option (RestoralTargetInfo AccountId)}
    {pending pending' : ℕ} {h' : Holding} (hinfo : info.Sound exact target pending h)
    (hdeclaration : info'.declarationSpace = info.declarationSpace)
    (hproof : info'.spaceProofInfo = info.spaceProofInfo) (hstate : info'.state = info.state)
    (hspace : info'.idleSpace + info'.serviceSpace + info'.lockSpace ≤
      info.idleSpace + info.serviceSpace + info.lockSpace)
    (hwindow : info'.idleSpace + pending' + fragmentSize * h' .pledged ≤
      info.idleSpace + pending + fragmentSize * h .pledged)
    (hservice : info'.serviceSpace + fragmentSize * h .tagged =
      info.serviceSpace + fragmentSize * h' .tagged)
    (hlock : info'.lockSpace + fragmentSize * (h .untagged + h .pledged) =
      info.lockSpace + fragmentSize * (h' .untagged + h' .pledged))
    (hfilter : (∀ i, info.serviceBloomFilter i = .ofNat (h (.bit i))) →
      ∀ i, info'.serviceBloomFilter i = .ofNat (h' (.bit i))) :
    info'.Sound exact target pending' h' := by
  simp only [fragmentSize_eq] at hwindow hservice hlock
  constructor
  · rw [hdeclaration]
    exact hspace.trans hinfo.capacity
  · rw [hdeclaration]
    exact hinfo.fits
  · intro hnone
    have := hinfo.unproved (hproof ▸ hnone)
    omega
  · intro proof hsome
    have := hinfo.window proof (hproof ▸ hsome)
    simp only [fragmentSize_eq] at this ⊢
    omega
  · intro htarget
    have := hinfo.service htarget
    simp only [fragmentSize_eq] at this ⊢
    omega
  · intro htarget
    exact hfilter (hinfo.filter htarget)
  · intro htarget
    have := hinfo.lock htarget
    simp only [fragmentSize_eq] at this ⊢
    omega
  · intro hexact htarget
    have := hinfo.locked hexact htarget
    simp only [fragmentSize_eq] at this ⊢
    omega
  · intro r hr
    have := hinfo.gone r hr
    simp only [fragmentSize_eq] at this ⊢
    omega
  · intro hexit
    exact hinfo.state (hstate ▸ hexit)
  · intro hnew
    rw [hproof]
    exact hinfo.fresh (hstate ▸ hnew)

variable (hs : s.Sound exact B)
include hs

/-- Of an account that is no miner there is nothing to take away. -/
theorem World.Sound.update_none {part : Holding} (hnone : s.minerItems.lookup acc = none)
    (hB : B acc = h + part) : Function.update B acc h = B := by
  have hzero : B acc = 0 := (hs.of_none hnone).2.2
  have hh : h = B acc := by
    funext item
    have := congrFun (hB.symm.trans hzero) item
    rw [hzero]
    simp only [Pi.add_apply, Pi.zero_apply] at this ⊢
    omega
  rw [hh, Function.update_eq_self]

/-- Space is locked for a report. -/
theorem World.Sound.lockSpace (hrun : (lockSpace acc (fragmentSize * count)).run s = .ok u s') :
    s'.Sound exact (Function.update B acc (B acc + .pledge count)) := by
  obtain ⟨info, hinfo, -, hidle, rfl⟩ := run_lockSpace_ok.mp hrun
  apply hs.insertMiner
  simp only [fragmentSize_eq] at hidle
  refine (hs.of_lookup hinfo).move rfl rfl rfl ?_ ?_ ?_ ?_ ?_ <;>
    simp only [Pi.add_apply, Holding.pledge, add_zero, fragmentSize_eq]
  · omega
  · omega
  · omega
  · exact id

/-- The space of a report is idle again. -/
theorem World.Sound.unlockSpace (hB : B acc = h + .pledge count)
    (hrun : (unlockSpace acc (fragmentSize * count)).run s = .ok u s') :
    s'.Sound exact (Function.update B acc h) := by
  rcases run_unlockSpace_ok.mp hrun with ⟨hnone, rfl⟩ | ⟨info, hinfo, hle, -, rfl⟩
  · rwa [hs.update_none hnone hB]
  · apply hs.insertMiner
    simp only [fragmentSize_eq] at hle
    refine (hs.of_lookup hinfo).move rfl rfl rfl ?_ ?_ ?_ ?_ ?_ <;>
      simp only [hB, Pi.add_apply, Holding.pledge, add_zero, fragmentSize_eq]
    · omega
    · omega
    · omega
    · exact id

/-- The deal of a report is complete: its space has still to be replaced. -/
theorem World.Sound.increaseReplaceSpace (hB : B acc = h + .pledge count)
    (hrun : (increaseReplaceSpace acc (fragmentSize * count)).run s = .ok u s') :
    s'.Sound exact (Function.update B acc (h + .stored count)) := by
  obtain ⟨-, rfl⟩ := run_increaseReplaceSpace_ok.mp hrun
  apply hs.update
  · intro a ha
    refine ⟨rfl, rfl, ?_⟩
    rw [World.pending_insert, if_neg ha]
  · cases hinfo : s.minerItems.lookup acc with
    | none =>
      obtain ⟨htarget, hpending, hzero⟩ := hs.of_none hinfo
      have hitem : ∀ item, (h + Holding.pledge count) item = 0 := congrFun (hB.symm.trans hzero)
      have hcount : h .pledged + count = 0 := hitem .pledged
      unfold World.SoundAt
      simp only [hinfo, World.pending_insert, if_true]
      refine ⟨htarget, ?_, ?_⟩
      · simp only [fragmentSize_eq]
        omega
      · funext item
        have := hitem item
        cases item <;> simp only [Pi.add_apply, Holding.stored,
          Pi.zero_apply] at this ⊢ <;> omega
    | some info =>
      refine World.SoundAt.intro (show _ = some info from hinfo) ?_
      rw [World.pending_insert, if_pos rfl]
      refine (hs.of_lookup hinfo).move rfl rfl rfl le_rfl ?_ ?_ ?_ ?_ <;>
        simp only [hB, Pi.add_apply, Holding.pledge, Holding.stored, fragmentSize_eq]
      · omega
      · omega
      · exact id

/-- Fragments get their tags: their space is in service. -/
theorem World.Sound.unlockSpaceToService (hB : B acc = h + .stored count)
    (hrun : (unlockSpaceToService acc (fragmentSize * count)).run s = .ok u s') :
    s'.Sound exact (Function.update B acc (h + .served count)) := by
  obtain ⟨info, hinfo, hle, -, rfl⟩ := run_unlockSpaceToService_ok.mp hrun
  apply hs.insertMiner
  simp only [fragmentSize_eq] at hle
  refine (hs.of_lookup hinfo).move rfl rfl rfl ?_ ?_ ?_ ?_ ?_ <;>
    simp only [hB, Pi.add_apply, Holding.stored, Holding.served, fragmentSize_eq]
  · omega
  · omega
  · omega
  · omega
  · exact id

/-- The hashes of fragments go into the filter. -/
theorem World.Sound.insertServiceBloom {hashes : List Hash}
    (helems : hashes.mapM Hash.binary = some elems)
    (hrun : (insertServiceBloom acc elems).run s = .ok u s') :
    s'.Sound exact (Function.update B acc (B acc + .hashed hashes)) := by
  obtain ⟨info, filter, hinfo, hfold, rfl⟩ := run_updateServiceBloom_ok.mp hrun
  obtain ⟨filter', hfold', hfilter⟩ :=
    BloomFilter.foldlM_insert helems info.serviceBloomFilter
  obtain rfl : filter' = filter := Option.mem_unique hfold' hfold
  apply hs.insertMiner
  refine (hs.of_lookup hinfo).move rfl rfl rfl le_rfl le_rfl rfl rfl ?_
  intro hbits i
  show filter' i = UInt64.ofNat (B acc (.bit i) + (hashes.map (·.bit i)).sum)
  rw [hfilter, hbits, UInt64.ofNat_add]

/-- Service space is given back. -/
theorem World.Sound.subMinerServiceSpace (hinfo : s.minerItems.lookup acc = some info)
    (htarget : s.restoralTarget.lookup acc = none) (hB : B acc = h + .served count) :
    ∃ info', (subMinerServiceSpace acc (fragmentSize * count)).run s = .ok () (s.write acc info') ∧
      (s.write acc info').Sound exact (Function.update B acc h) := by
  have hsound := hs.of_lookup hinfo
  have hle : fragmentSize * count ≤ info.serviceSpace := by
    rw [hsound.service htarget, hB]
    simp only [Pi.add_apply, Holding.served, fragmentSize_eq]
    omega
  refine ⟨_, run_updateServiceSpace_ok.mpr (.inr ⟨info, hinfo, .inr ⟨fun hexit =>
    hsound.state hexit htarget, _, checkedSub_eq_some.mpr ⟨hle, rfl⟩, rfl⟩⟩), ?_⟩
  apply hs.insertMiner
  simp only [fragmentSize_eq] at hle
  refine hsound.move rfl rfl rfl ?_ ?_ ?_ ?_ ?_ <;>
    simp only [hB, Pi.add_apply, Holding.served, add_zero, fragmentSize_eq]
  · omega
  · omega
  · omega
  · exact id

/-- The hashes of fragments are taken out of the filter. -/
theorem World.Sound.deleteServiceBloom {hashes : List Hash}
    (helems : hashes.mapM Hash.binary = some elems) (hinfo : s.minerItems.lookup acc = some info)
    (htarget : s.restoralTarget.lookup acc = none) (hB : B acc = h + .hashed hashes) :
    ∃ info', (deleteServiceBloom acc elems).run s = .ok () (s.write acc info') ∧
      (s.write acc info').Sound exact (Function.update B acc h) := by
  have hsound := hs.of_lookup hinfo
  have hbits : ∀ i, info.serviceBloomFilter i =
      .ofNat (h (.bit i) + (hashes.map (·.bit i)).sum) := by
    intro i
    rw [hsound.filter htarget, hB]
    rfl
  obtain ⟨filter, hfold, hfilter⟩ := BloomFilter.foldlM_delete helems hbits
  refine ⟨_, run_updateServiceBloom_ok.mpr ⟨info, filter, hinfo, hfold, rfl⟩, ?_⟩
  apply hs.insertMiner
  refine hsound.move rfl rfl rfl le_rfl ?_ ?_ ?_ fun _ => hfilter <;>
    simp only [hB, Pi.add_apply, Holding.hashed, add_zero, le_refl]

/-- Locked space is given back. -/
theorem World.Sound.unlockSpaceDirect (hinfo : s.minerItems.lookup acc = some info)
    (htarget : s.restoralTarget.lookup acc = none) (hB : B acc = h + .stored count) :
    ∃ info', (unlockSpaceDirect acc (fragmentSize * count)).run s = .ok () (s.write acc info') ∧
      (s.write acc info').Sound exact (Function.update B acc h) := by
  have hsound := hs.of_lookup hinfo
  have hle : fragmentSize * count ≤ info.lockSpace := by
    have := hsound.lock htarget
    simp only [hB, Pi.add_apply, Holding.stored, fragmentSize_eq] at this ⊢
    omega
  refine ⟨_, run_unlockSpaceDirect_ok.mpr (.inr ⟨info, hinfo, hle, rfl⟩), ?_⟩
  apply hs.insertMiner
  simp only [fragmentSize_eq] at hle
  refine hsound.move rfl rfl rfl ?_ ?_ ?_ ?_ ?_ <;>
    simp only [hB, Pi.add_apply, Holding.stored, add_zero, fragmentSize_eq]
  · omega
  · omega
  · omega
  · exact id

/-- Fragments of a miner that has left are taken off its restoral target. -/
theorem World.Sound.updateRestoralTarget {target : RestoralTargetInfo AccountId}
    (htarget : s.restoralTarget.lookup acc = some target)
    (hheld : h .tagged + h .untagged + count ≤ B acc .tagged + B acc .untagged)
    (hpledged : h .pledged = B acc .pledged) :
    ∃ s', (updateRestoralTarget acc (fragmentSize * count)).run s = .ok () s' ∧
      s'.Sound exact (Function.update B acc h) := by
  cases hinfo : s.minerItems.lookup acc with
  | none =>
    rw [(hs.of_none hinfo).1] at htarget
    cases htarget
  | some info =>
    have hsound := hs.of_lookup hinfo
    have hle := hsound.gone target htarget
    have hcap := hsound.capacity
    have hfits := hsound.fits
    simp only [fragmentSize_eq] at hle
    refine ⟨_, run_updateRestoralTarget_ok.mpr ⟨target, htarget, ?_, rfl⟩, ?_⟩
    · simp only [fragmentSize_eq]
      omega
    · apply hs.update
      · intro a ha
        exact ⟨rfl, AList.lookup_insert_ne ha, rfl⟩
      · refine World.SoundAt.intro (s := { s with restoralTarget := _ }) hinfo ?_
        simp only [AList.lookup_insert]
        refine { hsound with
          unproved := hpledged ▸ hsound.unproved, window := hpledged ▸ hsound.window
          service := nofun, filter := nofun, lock := nofun, locked := nofun, gone := ?_
          state := nofun }
        intro r hr
        obtain rfl := Option.some.inj hr
        simp only [fragmentSize_eq]
        omega

/-- A restored fragment takes idle space of its new miner into service. -/
theorem World.Sound.restore {s₁ s₂ s₃ : World AccountId} {u₁ u₂ u₃ : Unit}
    (hinfo : s.minerItems.lookup acc = some info) (hstate : info.state ≠ .exit)
    (hadd : (addMinerServiceSpace acc fragmentSize).run s = .ok u₁ s₁)
    (hdelete : (deleteIdleUpdateSpace acc fragmentSize).run s₁ = .ok u₂ s₂)
    (hreplace : (Sminer.increaseReplaceSpace acc fragmentSize).run s₂ = .ok u₃ s₃) :
    s₃.Sound exact (Function.update B acc (B acc + .served 1)) ∧
      s₃.restoralTarget = s.restoralTarget := by
  rcases run_updateServiceSpace_ok.mp hadd with ⟨hnone, -⟩ | ⟨info₁, hinfo₁, hcases⟩
  · rw [hinfo] at hnone
    cases hnone
  · obtain rfl : info = info₁ := Option.mem_unique hinfo hinfo₁
    rcases hcases with ⟨hexit, -⟩ | ⟨-, service, hservice, rfl⟩
    · exact absurd hexit hstate
    · obtain ⟨-, rfl⟩ := checkedAdd_eq_some.mp hservice
      obtain ⟨info₂, hinfo₂, hidle, rfl⟩ := run_deleteIdleUpdateSpace_ok.mp hdelete
      obtain rfl := Option.mem_unique (AList.lookup_insert _) hinfo₂
      obtain ⟨-, rfl⟩ := run_increaseReplaceSpace_ok.mp hreplace
      refine ⟨?_, rfl⟩
      apply hs.update
      · intro a ha
        refine ⟨?_, rfl, ?_⟩
        · rw [AList.lookup_insert_ne ha, AList.lookup_insert_ne ha]
        · rw [World.pending_insert, if_neg ha]
          rfl
      · refine World.SoundAt.intro (AList.lookup_insert _) ?_
        rw [World.pending_insert, if_pos rfl]
        simp only [fragmentSize_eq] at hidle
        refine (hs.of_lookup hinfo).move rfl rfl rfl ?_ ?_ ?_ ?_ ?_ <;>
          simp only [Pi.add_apply, Holding.served, add_zero, fragmentSize_eq, World.pending]
        · omega
        · omega
        · omega
        · exact id

/-- Idle space is certified within the declaration. -/
theorem World.Sound.addMinerIdleSpace {checkFront rear : ℕ}
    (hrun : (addMinerIdleSpace acc accumulator checkFront rear teeSig).run s = .ok space s') :
    s'.Sound exact B := by
  obtain ⟨info, proof, hinfo, hpositive, hproof, -, hrear, rfl, hcapacity, -, rfl⟩ :=
    run_addMinerIdleSpace_ok.mp hrun
  rw [← Function.update_eq_self acc B]
  refine hs.insertMiner { hs.of_lookup hinfo with
    capacity := hcapacity, unproved := nofun, window := ?_, fresh := ?_ }
  · intro proof' hproof'
    obtain rfl := Option.some.inj hproof'
    obtain ⟨hle, hfit⟩ := (hs.of_lookup hinfo).window proof hproof
    simp only [idleSegSize_eq] at hfit ⊢
    omega
  · intro hnew
    exact nomatch hpositive.symm.trans hnew

/-- Replaced idle files leave the window at its front. -/
theorem World.Sound.replaceIdle {s₁ : World AccountId} {front checkRear : ℕ}
    (hdelete : (deleteIdleUpdateAccu acc accumulator front checkRear teeSig).run s = .ok count s₁)
    (hreplace : (decreaseReplaceSpace acc (idleSegSize * count)).run s₁ = .ok u s') :
    s'.Sound exact B := by
  obtain ⟨info, proof, hinfo, hproof, -, hfront, rfl, rfl⟩ :=
    run_deleteIdleUpdateAccu_ok.mp hdelete
  obtain ⟨-, hpending, rfl⟩ := run_decreaseReplaceSpace_ok.mp hreplace
  have hsound := hs.of_lookup hinfo
  obtain ⟨hle, hfit⟩ := hsound.window proof hproof
  replace hpending : idleSegSize * (front - proof.front) ≤ s.pending acc := hpending
  rw [← Function.update_eq_self acc B]
  apply hs.update
  · intro a ha
    refine ⟨AList.lookup_insert_ne ha, rfl, ?_⟩
    rw [World.pending_insert, if_neg ha]
    rfl
  · refine World.SoundAt.intro (AList.lookup_insert _) ?_
    rw [World.pending_insert, if_pos rfl]
    refine { hsound with unproved := nofun, window := ?_, fresh := ?_ }
    · intro proof' hproof'
      obtain rfl := Option.some.inj hproof'
      show front ≤ proof.rear ∧ info.idleSpace + (s.pending acc - _) + _ ≤
        idleSegSize * (proof.rear - front)
      simp only [idleSegSize_eq] at hfit hpending ⊢
      omega
    · intro hnew
      exact nomatch hproof.symm.trans (hsound.fresh hnew)

end Operations

/-- Reports that are forgotten stay locked. -/
theorem World.Sound.forget {B' : AccountId → Holding} (hs : s.Sound exact B)
    (hB : ∀ acc, ∃ count, B acc = B' acc + .pledge count ∧ (exact → count = 0)) :
    s.Sound exact B' := by
  intro acc
  obtain ⟨count, hcount, hzero⟩ := hB acc
  cases hinfo : s.minerItems.lookup acc with
  | none =>
    obtain ⟨htarget, hpending, hnone⟩ := hs.of_none hinfo
    unfold World.SoundAt
    rw [hinfo]
    refine ⟨htarget, hpending, ?_⟩
    funext item
    have hitem := congrFun (hcount.symm.trans hnone) item
    simp only [Pi.add_apply, Pi.zero_apply] at hitem ⊢
    omega
  | some info =>
    refine World.SoundAt.intro hinfo ?_
    have hsound := hs.of_lookup hinfo
    rw [hcount] at hsound
    obtain ⟨hcapacity, hfits, hunproved, hwindow, hservice, hfilter, hlock, hlocked, hgone,
      hstate, hfresh⟩ := hsound
    simp only [Pi.add_apply, fragmentSize_eq] at *
    refine ⟨hcapacity, hfits, ?_, ?_, hservice, hfilter, ?_, ?_, ?_, hstate, hfresh⟩
    · intro hproof
      obtain ⟨h₁, h₂, h₃⟩ := hunproved hproof
      exact ⟨h₁, h₂, by omega⟩
    · intro proof hproof
      obtain ⟨hle, hspace⟩ := hwindow proof hproof
      simp only [fragmentSize_eq]
      omega
    · intro htarget
      have := hlock htarget
      simp only [fragmentSize_eq]
      omega
    · intro hexact htarget
      have := hlocked hexact htarget
      rw [hzero hexact] at this
      exact this
    · intro r hr
      have := hgone r hr
      simp only [fragmentSize_eq]
      omega

end Sminer
