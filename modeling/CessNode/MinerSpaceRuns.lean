/-
# The space of miners in every run

The books of the miners agree with the files and the deals in every state that the chain can
reach.  The calls of the file bank have been looked at before; here are the other steps, and
the whole run:

* `Records.Sound` : the books, read off the records of the miners;
* registration, changes of a record, punishments and exits keep them, `Records.Sound.act`,
  `Records.Sound.punish` and `Records.Sound.force`;
* `Reached.safe` : the books agree in every state reached.
-/
import CessNode.ChainSteps
import CessNode.MinerSpaceCalls

open Dispatch StorageMap

namespace Sminer

variable {AccountId : Type} {exact : Prop} {info info' : MinerInfo AccountId}
  {target : Option (RestoralTargetInfo AccountId)} {pending : ℕ} {h : Holding}

/-! ## Changes of one record -/

/-- A new miner holds nothing. -/
theorem MinerInfo.IsNew.sound (hnew : info.IsNew) : info.Sound exact none 0 0 where
  capacity := by
    rw [hnew.idleSpace, hnew.serviceSpace, hnew.lockSpace]
    exact Nat.zero_le _
  fits := hnew.declarationSpace
  unproved := fun _ => ⟨hnew.idleSpace, rfl, rfl⟩
  window := fun proof hproof => by
    rw [hnew.spaceProofInfo] at hproof
    cases hproof
  service := fun _ => hnew.serviceSpace
  filter := fun _ i => by
    rw [hnew.serviceBloomFilter]
    rfl
  lock := fun _ => Nat.zero_le _
  locked := fun _ _ => hnew.lockSpace
  gone := fun r hr => by cases hr
  state := fun hstate => by
    rw [hnew.state] at hstate
    cases hstate
  fresh := fun _ => hnew.spaceProofInfo

variable (hs : info.Sound exact target pending h)
include hs

/-- The books do not look at the other fields of a record, and at the state only to tell a new
miner and one that has left. -/
theorem MinerInfo.Sound.sameSpace (hspace : info.SameSpace info')
    (hexit : info'.state = .exit → target ≠ none)
    (hfresh : info'.state = .notReady → info.spaceProofInfo = none) :
    info'.Sound exact target pending h where
  capacity := by
    rw [hspace.idleSpace, hspace.serviceSpace, hspace.lockSpace, hspace.declarationSpace]
    exact hs.capacity
  fits := by
    rw [hspace.declarationSpace]
    exact hs.fits
  unproved := by
    rw [hspace.spaceProofInfo, hspace.idleSpace]
    exact hs.unproved
  window := by
    rw [hspace.spaceProofInfo, hspace.idleSpace]
    exact hs.window
  service := by
    rw [hspace.serviceSpace]
    exact hs.service
  filter := by
    rw [hspace.serviceBloomFilter]
    exact hs.filter
  lock := by
    rw [hspace.lockSpace]
    exact hs.lock
  locked := by
    rw [hspace.lockSpace]
    exact hs.locked
  gone := by
    rw [hspace.serviceSpace, hspace.lockSpace]
    exact hs.gone
  state := hexit
  fresh := by
    rw [hspace.spaceProofInfo]
    exact hfresh

/-- The books after an act of the miner. -/
theorem MinerInfo.Sound.act (hact : info.Act info') : info'.Sound exact target pending h := by
  cases hact with
  | revise hspace hstate =>
    refine hs.sameSpace hspace ?_ ?_
    · intro hexit
      rcases hstate with hsame | ⟨-, hpositive⟩
      · exact hs.state (hsame.symm.trans hexit)
      · rw [hpositive] at hexit
        cases hexit
    · intro hnew
      rcases hstate with hsame | ⟨-, hpositive⟩
      · exact hs.fresh (hsame.symm.trans hnew)
      · rw [hpositive] at hnew
        cases hnew
  | @prove proof state sig hstate hproof hstate' =>
    -- a miner that was not ready has neither idle space nor reports
    obtain ⟨hidle, hpending, hpledged⟩ := hs.unproved (hs.fresh hstate)
    refine { hs with unproved := ?_, window := ?_, state := ?_, fresh := ?_ }
    · intro hnone
      cases hnone
    · intro proof' hproof'
      obtain rfl := Option.some.inj hproof'
      rw [hproof.1, hproof.2, hidle, hpending, hpledged]
      exact ⟨le_rfl, le_rfl⟩
    · rintro (rfl : state = .exit)
      rcases hstate' with hstate' | hstate' <;> cases hstate'
    · rintro (rfl : state = .notReady)
      rcases hstate' with hstate' | hstate' <;> cases hstate'
  | @declare declarationSpace state hstate hle hfits hstate' =>
    refine { hs with capacity := hs.capacity.trans hle, fits := hfits, state := ?_, fresh := ?_ }
    · rintro (rfl : state = .exit)
      rcases hstate' with hstate' | hstate' <;> cases hstate'
    · rintro (rfl : state = .notReady)
      rcases hstate' with hstate' | hstate' <;> cases hstate'
  | prepare =>
    refine { hs with state := ?_, fresh := ?_ }
    · rintro ⟨⟩
    · rintro ⟨⟩

/-- A miner leaves with everything it holds, and nothing of it has been restored. -/
theorem MinerInfo.Sound.leave {r : RestoralTargetInfo AccountId} (hr : r.restoredSpace = 0) :
    info.Sound exact (some r) pending h := by
  have hgone : fragmentSize * (h .tagged + h .untagged + h .pledged) ≤
      info.serviceSpace + info.lockSpace := by
    cases htarget : target with
    | none =>
      have hservice := hs.service htarget
      have hlock := hs.lock htarget
      rw [add_assoc, mul_add]
      omega
    | some r' =>
      have hgone := hs.gone r' htarget
      omega
  refine { hs with
    service := ?_, filter := ?_, lock := ?_, locked := ?_, gone := ?_, state := ?_ }
  · rintro ⟨⟩
  · rintro ⟨⟩
  · rintro ⟨⟩
  · rintro - ⟨⟩
  · intro r' hr'
    obtain rfl := Option.some.inj hr'
    rw [hr, zero_add]
    exact hgone
  · rintro - ⟨⟩

/-- Nothing is left to be replaced. -/
theorem MinerInfo.Sound.clear : info.Sound exact target 0 h := by
  refine { hs with unproved := ?_, window := ?_ }
  · intro hproof
    obtain ⟨hidle, -, hpledged⟩ := hs.unproved hproof
    exact ⟨hidle, rfl, hpledged⟩
  · intro proof hproof
    obtain ⟨hle, hwindow⟩ := hs.window proof hproof
    exact ⟨hle, by omega⟩

omit hs

/-! ## Changes of the records -/

variable [DecidableEq AccountId] {r r' : Records AccountId} {B : AccountId → Holding}
  {acc : AccountId}

/-- The account of one miner; an account that is no miner holds nothing. -/
def Records.SoundAt (exact : Prop) (r : Records AccountId) (acc : AccountId) (h : Holding) : Prop :=
  match r.miners.lookup acc with
  | some info => info.Sound exact (r.targets.lookup acc) ((r.pending.lookup acc).getD 0) h
  | none => r.targets.lookup acc = none ∧ (r.pending.lookup acc).getD 0 = 0 ∧ h = 0

/-- The accounts of all miners agree with the given holdings. -/
def Records.Sound (exact : Prop) (r : Records AccountId) (B : AccountId → Holding) : Prop :=
  ∀ acc, r.SoundAt exact acc (B acc)

variable (hr : r.Sound exact B)
include hr

theorem Records.Sound.of_lookup (hinfo : r.miners.lookup acc = some info) :
    info.Sound exact (r.targets.lookup acc) ((r.pending.lookup acc).getD 0) (B acc) := by
  have h := hr acc
  unfold Records.SoundAt at h
  rwa [hinfo] at h

theorem Records.Sound.of_none (hinfo : r.miners.lookup acc = none) :
    r.targets.lookup acc = none ∧ (r.pending.lookup acc).getD 0 = 0 ∧ B acc = 0 := by
  have h := hr acc
  unfold Records.SoundAt at h
  rwa [hinfo] at h

/-- The total of the idle space is not part of the books. -/
theorem Records.Sound.take (space : ℕ) : (r.take space).Sound exact B := hr

/-- The record of one miner is written. -/
theorem Records.Sound.write
    (hinfo : info.Sound exact (r.targets.lookup acc) ((r.pending.lookup acc).getD 0) (B acc)) :
    (r.write acc info).Sound exact B := by
  intro a
  unfold Records.SoundAt Records.write
  by_cases ha : a = acc
  · subst ha
    rw [AList.lookup_insert]
    exact hinfo
  · rw [AList.lookup_insert_ne ha]
    exact hr a

/-- A miner gets a restoral target. -/
theorem Records.Sound.leave (hinfo : r.miners.lookup acc = some info)
    {target : RestoralTargetInfo AccountId} (htarget : target.restoredSpace = 0) :
    (r.leave acc target).Sound exact B := by
  intro a
  unfold Records.SoundAt Records.leave
  by_cases ha : a = acc
  · subst ha
    rw [hinfo, AList.lookup_insert]
    exact (hr.of_lookup hinfo).leave htarget
  · rw [AList.lookup_insert_ne ha]
    exact hr a

theorem Records.Sound.clear (acc : AccountId) : (r.clear acc).Sound exact B := by
  intro a
  by_cases ha : a = acc
  · subst ha
    unfold Records.SoundAt Records.clear
    rw [AList.lookup_erase]
    cases hinfo : r.miners.lookup a with
    | none => exact ⟨(hr.of_none hinfo).1, rfl, (hr.of_none hinfo).2.2⟩
    | some info => exact (hr.of_lookup hinfo).clear
  · unfold Records.SoundAt Records.clear
    rw [AList.lookup_erase_ne ha]
    exact hr a

/-- **The calls of sminer keep the books.** -/
theorem Records.Sound.act (hact : r.Act r') : r'.Sound exact B := by
  cases hact with
  | stay => exact hr
  | register hnew hinfo =>
    obtain ⟨htarget, hpending, hB⟩ := hr.of_none hnew
    refine hr.write ?_
    rw [htarget, hpending, hB]
    exact hinfo.sound
  | write hinfo hact => exact hr.write ((hr.of_lookup hinfo).act hact)
  | withdraw acc => exact hr.clear acc
  | @exit acc info target hinfo hstate hle htarget =>
    have hsound := (hr.of_lookup hinfo).leave htarget
    intro a
    unfold Records.SoundAt Records.leave Records.write Records.take
    by_cases ha : a = acc
    · subst ha
      rw [AList.lookup_insert, AList.lookup_insert]
      refine { hsound with state := ?_, fresh := ?_ }
      · rintro - ⟨⟩
      · rintro ⟨⟩
    · rw [AList.lookup_insert_ne ha, AList.lookup_insert_ne ha]
      exact hr a

/-- **A punishment keeps the books.** -/
theorem Records.Sound.punish (hpunish : r.Punish acc r') : r'.Sound exact B := by
  cases hpunish with
  | stay => exact hr
  | punish hinfo hspace hstate =>
    have hsound := hr.of_lookup hinfo
    refine hr.write (hsound.sameSpace hspace ?_ ?_)
    · intro hexit
      rcases hstate with hsame | hfrozen
      · exact hsound.state (hsame.symm.trans hexit)
      · rw [hfrozen] at hexit
        cases hexit
    · intro hnew
      rcases hstate with hsame | hfrozen
      · exact hsound.fresh (hsame.symm.trans hnew)
      · rw [hfrozen] at hnew
        cases hnew

/-- **A forced exit keeps the books**, however far it comes. -/
theorem Records.Sound.force {cooling : ℕ → Option ℕ} (hforce : r.Force acc cooling r') :
    r'.Sound exact B := by
  cases hforce with
  | stay => exact hr
  | taken => exact hr.take _
  | left hinfo hle hproof htarget => exact (hr.take _).leave hinfo htarget
  | @done info target hinfo hle htarget =>
    have hleft := (hr.take (wrappingAdd 128 info.idleSpace info.lockSpace)).leave hinfo htarget
    refine (hleft.write ?_).clear acc
    refine { hleft.of_lookup hinfo with state := ?_, fresh := ?_ }
    · rintro ⟨⟩
    · rintro ⟨⟩

end Sminer

namespace FileBank

/-- **A step of the file bank keeps the books.** -/
theorem step_sound {T : Config} {exact : Prop} {n n' : Node T} {a : Action T}
    (h : n.step a = some n') (hn : n.world.Safe exact)
    (hexternal : ∀ miner outside totalIdleSpace, a ≠ .external miner outside totalIdleSpace)
    (hold : exact → ∀ c, a = .call c → ∀ deal, c.overwritten n.world = some deal →
      deal.completeList.val = []) : n'.world.Sound exact := by
  cases a with
  | storage a =>
    obtain ⟨-, -, hworld⟩ := step_storage h
    rw [hworld]
    exact hn.sound.congr rfl rfl rfl
  | onInitialize =>
    rw [step_onInitialize h]
    exact (keeps_safe_onInitialize n.world hn).sound
  | clearFile acc fileHash =>
    rw [step_clearFile h]
    exact (keeps_safe_clearFile acc fileHash n.world hn).sound
  | call c =>
    rcases step_call h with hrun | hworld
    · exact c.code_sound hn (fun hexact => hold hexact c rfl) hrun
    · rw [hworld]
      exact hn.sound
  | external => exact absurd rfl (hexternal _ _ _)

end FileBank

namespace Chain

variable {T : Config} {exact : Prop} {n n' : Node T} {a : Action T}

/-! ## Runs -/

/-- The deal that a step of the chain overwrites. -/
def Action.overwritten (w : World T) : Action T → Option (FileBank.DealInfo T.toBank)
  | .call (.fileBank c) => c.overwritten w.bank
  | _ => none

/-- The books are about files, deals and the records of the miners. -/
theorem sound_of_records (hsound : n.world.bank.Sound exact) (hbank : n.world.BesideBank n'.world)
    (hrecords : n'.world.records.Sound exact n.world.bank.books) : n'.world.bank.Sound exact := by
  obtain ⟨miner, outside, ledger, agenda, totalIdleSpace, hworld⟩ := hbank
  rw [hworld]
  refine ⟨?_, hsound.hex, hsound.reports⟩
  have hminer : n'.world.bank.miner = miner := by
    rw [hworld]
    rfl
  rw [← hminer]
  exact hrecords

/-- **Every step of the chain keeps the books**, as long as no report is overwritten where all
locked space is to be accounted for. -/
theorem step_sound (h : n.step a = some n') (hn : n.world.bank.Safe exact)
    (hold : exact → ∀ deal, a.overwritten n.world = some deal → deal.completeList.val = []) :
    n'.world.bank.Sound exact := by
  cases hb : a.bank n with
  | some b =>
    refine FileBank.step_sound (step_bank h hb).1 hn (bank_ne_external hb) ?_
    rintro hexact c rfl deal hdeal
    exact hold hexact deal (by rwa [call_of_bank hb])
  | none =>
    have haside := step_aside h hb
    refine sound_of_records hn.sound haside.bank ?_
    have hrecords : n.world.records.Sound exact n.world.bank.books := hn.sound.miners
    rcases haside.records with hact | ⟨miner, r, -, hpunish, hsame | ⟨-, hforce⟩⟩
    · exact hrecords.act hact
    · rw [hsame]
      exact hrecords.punish hpunish
    · exact (hrecords.punish hpunish).force hforce

/-- **The books agree in every reached state.** -/
theorem Reached.safe {ok : Node T → Action T → Prop} (hn : Reached ok n)
    (hok : ∀ n a, ok n a → exact → ∀ deal, a.overwritten n.world = some deal →
      deal.completeList.val = []) : n.world.bank.Safe exact := by
  refine ⟨hn.bank.counted, ?_⟩
  refine Runs.Reach.inv (P := fun n => n.world.bank.Sound exact) ?_ ?_ hn
  · intro n hstart
    obtain ⟨⟨-, miner, outside, hbank⟩, -, -, hminer⟩ := hstart
    have hfile : n.world.bank.file = ∅ := congrArg FileBank.World.file hbank
    have hdealMap : n.world.bank.dealMap = ∅ := congrArg FileBank.World.dealMap hbank
    refine ⟨?_, ?_, ?_⟩
    · intro acc
      have hbooks : n.world.bank.books acc = 0 := by
        unfold FileBank.World.books
        rw [hfile, hdealMap]
        rfl
      show n.world.miner.SoundAt exact acc _
      rw [hbooks, hminer]
      exact ⟨rfl, rfl, rfl⟩
    · rw [hfile]
      intro fileHash file hlookup
      cases hlookup
    · rw [hdealMap]
      intro fileHash deal hlookup
      cases hlookup
  · intro n a n' hn hsound hpermit hstep
    exact step_sound hstep ⟨(Reached.bank hn).counted, hsound⟩ (hok n a hpermit)

/-- Without a condition on the run, some locked space may be accounted for nowhere. -/
theorem Reached.safe_any {ok : Node T → Action T → Prop} (hn : Reached ok n) :
    n.world.bank.Safe False :=
  hn.safe fun _ _ _ => nofun

end Chain
