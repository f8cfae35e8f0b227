/-
# The end of challenges

A challenge is filed under the block in which the time of the workers ends.  In that block the hook
visits its miner, and either closes the challenge or hands it to other workers, with a new end.

* `Node.Filed` : every challenge is filed under its end, nothing else is filed for a block to come,
  and no challenge has been handed on more than twice.  Inside the hook, the miners still to be
  visited are due (`Phase.due`);
* `challenges_closed` : at the end of a block every challenge ends in a later one, if the length of
  the new term fits into 32 bits;
* `one_snapshot` : for every challenge there is one snapshot if it has been passed, and none
  otherwise.
-/
import CessNode.ChainSteps
import CessNode.ChainRuntime

open Dispatch StorageMap Chain

namespace Audit

variable {T : Config}

/-! ## Single challenges -/

/-- A challenge that is not over has been handed on at most once. -/
theorem assign_lt_of_not_isOver {info : ProveInfo T} (h : ¬ info.isOver = true) :
    info.assign < 2 := by
  by_contra hassign
  refine h ?_
  unfold ProveInfo.isOver
  dsimp only
  rw [if_pos (show info.assign ≥ 2 by omega)]
  split_ifs <;> rfl

/-- The term of a challenge after it has been handed on. -/
def ChallengeInfo.term (info : ChallengeInfo T) : ℕ :=
  max info.minerSnapshot.idleSpace info.minerSnapshot.serviceSpace / idleVerifyRate +
    T.oneHours

/-- The end of a new challenge is not in the past. -/
theorem NewChallenge.le_verifySlip {w : World T} {miner : T.AccountId} {slip : ℕ}
    {info : ChallengeInfo T} (h : NewChallenge w miner slip info) (hnow : w.now < 2 ^ 32) :
    w.now ≤ slip ∧ slip ≤ info.challengeElement.verifySlip := by
  obtain ⟨idleLife, hidle⟩ := h.idleSlip
  obtain ⟨serviceLife, hservice⟩ := h.serviceSlip
  obtain ⟨life, hverify⟩ := h.verifySlip
  have hslip := h.isMax
  unfold ChallengeElement.maxSlip at hslip
  unfold saturatingAdd at *
  omega

/-- The end of a challenge that is handed on is later than this block, but for the last one. -/
theorem lt_verifySlip_reassign {w : World T} {info : ChallengeInfo T} (hhours : 0 < T.oneHours)
    (hterm : info.term < 2 ^ 32) (hnow : w.now + 1 < 2 ^ 32) :
    w.now < (info.reassign w).challengeElement.verifySlip := by
  show w.now < saturatingAdd 32 w.now (saturatingAdd 128
    ((if info.minerSnapshot.idleSpace > info.minerSnapshot.serviceSpace then
      info.minerSnapshot.idleSpace else info.minerSnapshot.serviceSpace) / idleVerifyRate)
      T.oneHours % 2 ^ 32)
  have hmax : (if info.minerSnapshot.idleSpace > info.minerSnapshot.serviceSpace then
      info.minerSnapshot.idleSpace else info.minerSnapshot.serviceSpace) =
      max info.minerSnapshot.idleSpace info.minerSnapshot.serviceSpace := by
    split_ifs <;> omega
  unfold ChallengeInfo.term at hterm
  rw [hmax]
  unfold saturatingAdd
  generalize max info.minerSnapshot.idleSpace info.minerSnapshot.serviceSpace /
    idleVerifyRate = life at hterm ⊢
  omega

/-- New workers do not change the results. -/
theorem passed_reassign (w : World T) (info : ChallengeInfo T) :
    (info.reassign w).proveInfo.Passed ↔ info.proveInfo.Passed := by
  have hidle : (info.reassign w).proveInfo.idleResult = info.proveInfo.idleResult := by
    unfold ProveInfo.idleResult ChallengeInfo.reassign
    cases info.proveInfo.idleProve with
    | none => rfl
    | some prove =>
      split <;> rfl
  have hservice : (info.reassign w).proveInfo.serviceResult = info.proveInfo.serviceResult := by
    unfold ProveInfo.serviceResult ChallengeInfo.reassign
    cases info.proveInfo.serviceProve with
    | none => rfl
    | some prove =>
      split <;> rfl
  unfold ProveInfo.Passed
  rw [hidle, hservice]

/-- The number of snapshots of a miner since a block. -/
def Book.recordedFor (b : Book T) (miner : T.AccountId) (start : ℕ) : ℕ :=
  b.recorded.countP fun e => e.1 = miner ∧ start ≤ e.2

end Audit

namespace Chain

variable {T : Config}
variable {miner : T.AccountId} {rest : List T.AccountId} {info : Audit.ChallengeInfo T}

/-! ## The files of challenges -/

/-- The miners that the hook has still to visit in this block. -/
def Phase.due {AccountId : Type} : Phase AccountId → AccountId → Prop
  | .verifying rest, miner => miner ∈ rest
  | .executing, _ => False
  | _, _ => True

/-- Every challenge is filed under its end, and nothing else is filed for what is left of this
block and for the blocks to come. -/
structure Node.Filed (n : Node T) : Prop where
  filed : ∀ miner info, n.world.book.challenges.lookup miner = some info →
    (info.challengeElement.verifySlip, miner) ∈ n.world.book.verifySlip
  only : ∀ slip miner, (slip, miner) ∈ n.world.book.verifySlip →
    n.world.now < slip ∨ slip = n.world.now ∧ n.phase.due miner →
    ∃ info, n.world.book.challenges.lookup miner = some info ∧
      info.challengeElement.verifySlip = slip
  assign : ∀ miner info, n.world.book.challenges.lookup miner = some info →
    info.proveInfo.assign ≤ 2
  visits : ∀ rest, n.phase = .verifying rest → rest.Nodup ∧
    ∀ miner ∈ rest, (n.world.now, miner) ∈ n.world.book.verifySlip

variable {n n' : Node T} {a : Action T}

/-- The miner that is visited next has a challenge that ends in this block. -/
theorem Node.Filed.visited (h : n.Filed) (hphase : n.phase = .verifying (miner :: rest)) :
    ∃ info, n.world.book.challenges.lookup miner = some info ∧
      info.challengeElement.verifySlip = n.world.now := by
  obtain ⟨-, hvisits⟩ := h.visits _ hphase
  refine h.only _ _ (hvisits miner List.mem_cons_self) (.inr ⟨rfl, ?_⟩)
  rw [hphase]
  exact List.mem_cons_self

/-- The challenges stay, and no more miners are due. -/
theorem Node.Filed.stay (h : n.Filed) (hbook : n'.world.book = n.world.book)
    (hnow : n'.world.now = n.world.now) (hdue : ∀ miner, n'.phase.due miner → n.phase.due miner)
    (hvisits : ∀ rest, n'.phase = .verifying rest → rest.Nodup ∧
      ∀ miner ∈ rest, (n.world.now, miner) ∈ n.world.book.verifySlip) : n'.Filed where
  filed := by
    rw [hbook]
    exact h.filed
  only := by
    rw [hbook, hnow]
    exact fun slip miner hslip hcome =>
      h.only slip miner hslip (hcome.imp_right fun hhere => ⟨hhere.1, hdue miner hhere.2⟩)
  assign := by
    rw [hbook]
    exact h.assign
  visits := by
    rw [hbook, hnow]
    exact hvisits

/-- The challenge of one miner is written or taken away, with what is filed for it. -/
theorem Node.Filed.write (h : n.Filed) (miner : T.AccountId)
    (value : Option (Audit.ChallengeInfo T)) (hnow : n'.world.now = n.world.now)
    (hchallenges : ∀ miner₁, n'.world.book.challenges.lookup miner₁ =
      if miner₁ = miner then value else n.world.book.challenges.lookup miner₁)
    (hslips : ∀ key, key ∈ n'.world.book.verifySlip ↔
      (∃ info' ∈ value, key = (info'.challengeElement.verifySlip, miner)) ∨
        (∀ info ∈ n.world.book.challenges.lookup miner,
          key ≠ (info.challengeElement.verifySlip, miner)) ∧ key ∈ n.world.book.verifySlip)
    (hassign : ∀ info' ∈ value, info'.proveInfo.assign ≤ 2)
    (hdue : ∀ miner, n'.phase.due miner → n.phase.due miner)
    (hvisits : ∀ rest, n'.phase = .verifying rest → rest.Nodup ∧ ∀ miner₁ ∈ rest,
      miner₁ ≠ miner ∧ (n.world.now, miner₁) ∈ n.world.book.verifySlip) : n'.Filed := by
  have hother : ∀ {slip miner₁}, miner₁ ≠ miner → (slip, miner₁) ∈ n.world.book.verifySlip →
      (slip, miner₁) ∈ n'.world.book.verifySlip := by
    intro slip miner₁ hne hmem
    exact (hslips _).mpr (.inr ⟨fun _ _ heq => hne (Prod.mk.inj heq).2, hmem⟩)
  refine ⟨?_, ?_, ?_, ?_⟩
  · intro miner₁ info₁ hinfo₁
    rw [hchallenges] at hinfo₁
    split_ifs at hinfo₁ with heq
    · subst heq
      exact (hslips _).mpr (.inl ⟨info₁, hinfo₁, rfl⟩)
    · exact hother heq (h.filed miner₁ info₁ hinfo₁)
  · intro slip miner₁ hmem hcome
    rw [hnow] at hcome
    rw [hchallenges]
    rcases (hslips _).mp hmem with ⟨info', hvalue, hkey⟩ | ⟨hne, hold⟩
    · obtain ⟨rfl, rfl⟩ := Prod.mk.inj hkey
      exact ⟨info', (if_pos rfl).trans hvalue, rfl⟩
    · obtain ⟨info₁, hinfo₁, hend⟩ := h.only slip miner₁ hold
        (hcome.imp_right fun hhere => ⟨hhere.1, hdue miner₁ hhere.2⟩)
      -- what is filed of the old challenge of the miner is not kept
      have hne' : miner₁ ≠ miner := by
        rintro rfl
        exact hne info₁ hinfo₁ (by rw [hend])
      exact ⟨info₁, (if_neg hne').trans hinfo₁, hend⟩
  · intro miner₁ info₁ hinfo₁
    rw [hchallenges] at hinfo₁
    split_ifs at hinfo₁
    · exact hassign info₁ hinfo₁
    · exact h.assign miner₁ info₁ hinfo₁
  · intro rest hrest
    rw [hnow]
    obtain ⟨hnodup, hrest⟩ := hvisits rest hrest
    exact ⟨hnodup, fun miner₁ hmem => hother (hrest miner₁ hmem).1 (hrest miner₁ hmem).2⟩

/-- A block ends. -/
theorem Node.Filed.newBlock (h : n.Filed) (hstep : n.step .newBlock = some n') : n'.Filed := by
  obtain ⟨-, -, rfl⟩ := step_newBlock hstep
  refine ⟨h.filed, ?_, h.assign, nofun⟩
  intro slip miner hslip hcome
  refine h.only slip miner hslip (.inl ?_)
  replace hcome : n.world.now + 1 < slip ∨ slip = n.world.now + 1 ∧ _ := hcome
  omega

/-- **What the visit of a miner does to its challenge**: it is closed, or handed on. -/
theorem step_visit (h : n.Filed) (hphase : n.phase = .verifying (miner :: rest))
    (hstep : n.step .hook = some n') :
    ∃ info value, n.world.book.challenges.lookup miner = some info ∧
      (value = none ∨ value = some (info.reassign n.world) ∧ info.proveInfo.assign < 2) ∧
      (∀ miner₁, n'.world.book.challenges.lookup miner₁ =
        if miner₁ = miner then value else n.world.book.challenges.lookup miner₁) ∧
      (∀ key, key ∈ n'.world.book.verifySlip ↔
        (∃ info' ∈ value, key = (info'.challengeElement.verifySlip, miner)) ∨
          key ≠ (n.world.now, miner) ∧ key ∈ n.world.book.verifySlip) ∧
      n'.world.book.recorded = n.world.book.recorded := by
  obtain ⟨info, hinfo, -⟩ := h.visited hphase
  have hbook := step_hook hstep
  rw [hphase] at hbook
  obtain ⟨-, hbook⟩ := hbook
  rw [hinfo] at hbook
  dsimp only at hbook
  split_ifs at hbook with hover
  · refine ⟨info, none, hinfo, .inl rfl, ?_, ?_, by rw [hbook]; rfl⟩
    · intro miner₁
      rw [hbook]
      exact lookup_erase_ite _ _ _
    · intro key
      rw [hbook]
      refine AList.mem_erase.trans ?_
      simp
  · refine ⟨info, some (info.reassign n.world), hinfo, .inr ⟨rfl, Audit.assign_lt_of_not_isOver hover⟩, ?_,
      ?_, by rw [hbook]; rfl⟩
    · intro miner₁
      rw [hbook]
      exact lookup_insert_ite _ _ _ _
    · intro key
      rw [hbook]
      have hstrike : key ∈ (n.world.book.strike n.world.now miner).verifySlip ↔
          key ≠ (n.world.now, miner) ∧ key ∈ n.world.book.verifySlip := AList.mem_erase
      refine (AList.mem_insert _).trans ?_
      rw [hstrike]
      simp

/-- The hook keeps challenges filed. -/
theorem Node.Filed.hook (h : n.Filed) (hstep : n.step .hook = some n') : n'.Filed := by
  have hnow := step_now hstep nofun
  have hhook := step_hook hstep
  obtain ⟨phase, calls, world⟩ := n
  cases phase with
  | initializing | returning =>
    obtain ⟨hphase, hbook⟩ := hhook
    refine h.stay hbook hnow (fun _ _ => trivial) ?_
    rw [hphase]
    exact nofun
  | challenging =>
    obtain ⟨hphase, hbook⟩ := hhook
    cases hchallenge : Audit.newChallenge world with
    | none =>
      rw [hchallenge] at hbook
      refine h.stay hbook hnow (fun _ _ => trivial) ?_
      rw [hphase]
      exact nofun
    | some new =>
      obtain ⟨miner, slip, info⟩ := new
      rw [hchallenge] at hbook
      have hnew := Audit.newChallenge_new hchallenge
      have hnone : world.book.challenges.lookup miner = none := AList.lookup_eq_none.mpr hnew.free
      refine h.write miner (some info) hnow ?_ ?_ ?_ (fun _ _ => trivial) ?_
      · intro miner₁
        rw [hbook]
        exact lookup_insert_ite _ _ _ _
      · intro key
        rw [hbook, hnone]
        refine (AList.mem_insert _).trans ?_
        simp
      · intro info' hinfo'
        obtain rfl := Option.some.inj hinfo'
        rw [hnew.prove]
        exact Nat.zero_le 2
      · rw [hphase]
        exact nofun
  | clearing rest =>
    cases rest with
    | nil =>
      obtain ⟨hphase, hworld⟩ := hhook
      refine h.stay (by rw [hworld]) hnow (fun _ _ => trivial) ?_
      intro rest hrest
      rw [hphase] at hrest
      obtain rfl := Phase.verifying.inj hrest
      have hperm := T.slipOrder_perm (world.audit.verifySlip.iterPrefix world.now)
      refine ⟨hperm.nodup_iff.mpr (nodup_iterPrefix _ _), fun miner hmem => ?_⟩
      exact mem_iterPrefix.mp (hperm.mem_iff.mp hmem)
    | cons =>
      obtain ⟨hphase, hbook⟩ := hhook
      refine h.stay hbook hnow (fun _ _ => trivial) ?_
      rw [hphase]
      exact nofun
  | verifying rest =>
    cases rest with
    | nil =>
      obtain ⟨hphase, hbook⟩ := hhook
      refine h.stay hbook hnow ?_ ?_ <;> rw [hphase]
      · exact fun _ hdue => hdue.elim
      · exact nofun
    | cons miner rest =>
      obtain ⟨info, value, hinfo, hvalue, hchallenges, hslips, -⟩ := step_visit h rfl hstep
      obtain ⟨info₁, hinfo₁, hend⟩ := h.visited rfl
      obtain ⟨hnodup, hvisits⟩ := h.visits _ rfl
      obtain ⟨hminer, hnodup⟩ := List.nodup_cons.mp hnodup
      refine h.write _ _ hnow hchallenges ?_ ?_ ?_ ?_
      · simpa only [hinfo₁, Option.mem_some_iff, forall_eq', hend] using hslips
      · intro info' hinfo'
        rcases hvalue with rfl | ⟨rfl, hassign⟩
        · cases hinfo'
        · obtain rfl := Option.some.inj hinfo'
          show Sminer.wrappingAdd 8 info.proveInfo.assign 1 ≤ 2
          unfold Sminer.wrappingAdd
          omega
      · rw [hhook.1]
        exact fun _ => List.mem_cons_of_mem _
      · intro rest' hrest
        rw [hhook.1] at hrest
        obtain rfl := Phase.verifying.inj hrest
        refine ⟨hnodup, fun miner₁ hmem => ⟨?_, hvisits miner₁ (List.mem_cons_of_mem _ hmem)⟩⟩
        rintro rfl
        exact hminer hmem
  | executing => exact hhook.elim

/-- **Challenges stay filed.** -/
theorem step_filed (h : n.Filed) (hstep : n.step a = some n') : n'.Filed := by
  by_cases hnew : a = .newBlock
  · subst hnew
    exact h.newBlock hstep
  by_cases hhook : a = .hook
  · subst hhook
    exact h.hook hstep
  have hnow := step_now hstep hnew
  have hphase := step_phase hstep hhook hnew
  rcases step_book hstep hhook with hbook | ⟨hexecuting, hsubmit⟩
  · refine h.stay hbook hnow ?_ ?_ <;> rw [hphase]
    · exact fun _ => id
    · exact h.visits
  · obtain ⟨miner, info, info', -, hinfo, hsame, hchallenges, hslip, -⟩ := hsubmit.counted
    have hfiled := h.filed miner info hinfo
    refine h.write miner (some info') hnow ?_ ?_ ?_ ?_ ?_
    · intro miner₁
      rw [hchallenges]
      exact lookup_insert_ite _ _ _ _
    · intro key
      rw [hslip, hinfo]
      by_cases hkey : key = (info.challengeElement.verifySlip, miner)
      · simp [hkey, hfiled, hsame.challengeElement]
      · simp [hkey, hsame.challengeElement]
    · intro info₁ hinfo₁
      obtain rfl := Option.some.inj hinfo₁
      rw [hsame.assign]
      exact h.assign miner info hinfo
    · rw [hphase]
      exact fun _ => id
    · rw [hphase, hexecuting]
      exact nofun

theorem Reached.filed {ok : Node T → Action T → Prop} (hn : Reached ok n) : n.Filed := by
  refine Runs.Reach.inv (P := Node.Filed) ?_ (fun n a n' _ h _ hstep => step_filed h hstep) hn
  intro n hstart
  have hbook := hstart.book
  refine ⟨?_, ?_, ?_, ?_⟩
  · intro miner info hinfo
    rw [hbook] at hinfo
    cases hinfo
  · intro slip miner hmem
    rw [hbook] at hmem
    cases hmem
  · intro miner info hinfo
    rw [hbook] at hinfo
    cases hinfo
  · rw [hstart.2.1]
    exact nofun

/-! ## Challenges end -/

/-- The new term of a challenge that may be handed on fits into 32 bits. -/
def TermsFit (n : Node T) (a : Action T) : Prop :=
  ∀ miner ∈ n.visited a, ∀ info ∈ n.world.audit.challengeSnapShot.lookup miner, info.term < 2 ^ 32

instance (n : Node T) (a : Action T) : Decidable (TermsFit n a) :=
  inferInstanceAs (Decidable (∀ miner ∈ n.visited a,
    ∀ info ∈ n.world.audit.challengeSnapShot.lookup miner, info.term < 2 ^ 32))

/-- No challenge ends in the past.  In the last block of all no other one can follow. -/
def Node.Open (n : Node T) : Prop :=
  ∀ miner info, n.world.book.challenges.lookup miner = some info →
    n.world.now < info.challengeElement.verifySlip ∨ n.world.now + 1 = 2 ^ 32 ∨
      info.challengeElement.verifySlip = n.world.now ∧ n.phase.due miner

/-- A miner that is due and is not visited stays due. -/
theorem due_of_step (hstep : n.step a = some n') (hnew : a ≠ .newBlock)
    (hvisits : n.visited a ≠ some miner) (hmem : (n.world.now, miner) ∈ n.world.book.verifySlip)
    (hdue : n.phase.due miner) : n'.phase.due miner := by
  by_cases hhook : a = .hook
  · subst hhook
    have hhook := step_hook hstep
    obtain ⟨phase, calls, world⟩ := n
    cases phase with
    | initializing | returning | challenging =>
      rw [hhook.1]
      trivial
    | clearing rest =>
      cases rest with
      | nil =>
        rw [hhook.1]
        have hperm := T.slipOrder_perm (world.audit.verifySlip.iterPrefix world.now)
        exact hperm.mem_iff.mpr (mem_iterPrefix.mpr hmem)
      | cons _ rest =>
        rw [hhook.1]
        trivial
    | verifying rest =>
      cases rest with
      | nil => cases hdue
      | cons miner₁ rest =>
        rw [hhook.1]
        refine (List.mem_cons.mp hdue).resolve_left ?_
        rintro rfl
        exact hvisits (visited_hook.mpr ⟨rest, rfl⟩)
    | executing => exact hhook.elim
  · rw [step_phase hstep hhook hnew]
    exact hdue

/-- **Challenges stay open.** -/
theorem step_open (hhours : 0 < T.oneHours) (hfits : n.world.now < 2 ^ 32) (hfiled : n.Filed)
    (hok : TermsFit n a) (h : n.Open) (hstep : n.step a = some n') : n'.Open := by
  by_cases hnew : a = .newBlock
  · subst hnew
    obtain ⟨hphase, hnext, rfl⟩ := step_newBlock hstep
    intro miner info hinfo
    rcases h miner info hinfo with hlater | hlast | ⟨-, hdue⟩
    · rcases (Nat.succ_le_of_lt hlater).lt_or_eq with hlt | heq
      · exact .inl hlt
      · exact .inr (.inr ⟨heq.symm, trivial⟩)
    · omega
    · rw [hphase] at hdue
      exact hdue.elim
  have hnow := step_now hstep hnew
  intro miner info' hinfo'
  rw [hnow]
  cases step_challenge hstep hinfo' with
  | new hhook hphase hchallenge =>
    subst hhook
    have hle := hchallenge.le_verifySlip hfits
    have hhook := step_hook hstep
    rw [hphase] at hhook
    rw [hhook.1]
    rcases (hle.1.trans hle.2).lt_or_eq with hlt | heq
    · exact .inl hlt
    · exact .inr (.inr ⟨heq.symm, trivial⟩)
  | same hvisits hinfo hsame _ =>
    rw [hsame.challengeElement]
    rcases h miner _ hinfo with hlater | hlast | ⟨hhere, hdue⟩
    · exact .inl hlater
    · exact .inr (.inl hlast)
    · refine .inr (.inr ⟨hhere, ?_⟩)
      have hmem := hfiled.filed miner _ hinfo
      rw [hhere] at hmem
      exact due_of_step hstep hnew hvisits hmem hdue
  | handed hvisits hinfo hinfo' =>
    subst hinfo'
    by_cases hlast : n.world.now + 1 = 2 ^ 32
    · exact .inr (.inl hlast)
    · exact .inl (Audit.lt_verifySlip_reassign hhours (hok miner hvisits _ hinfo) (by omega))

/-- **Every challenge is closed.**  In a run in which the length of a new term always fits into
32 bits, every challenge at the end of a block but the very last one ends in a later block, is
filed there and nowhere else in the blocks to come, and has been handed on at most twice; and when
its block comes, it is closed or handed on once more. -/
theorem challenges_closed (hhours : 0 < T.oneHours) (hn : Reached TermsFit n) :
    (n.phase = .executing → n.world.now + 1 < 2 ^ 32 →
      ∀ miner info, n.world.audit.challengeSnapShot.lookup miner = some info →
        n.world.now < info.challengeElement.verifySlip ∧
        (info.challengeElement.verifySlip, miner) ∈ n.world.audit.verifySlip ∧
        (∀ slip, n.world.now < slip → (slip, miner) ∈ n.world.audit.verifySlip →
          slip = info.challengeElement.verifySlip) ∧
        info.proveInfo.assign ≤ 2) ∧
    ∀ miner rest n', n.phase = .verifying (miner :: rest) → n.step .hook = some n' →
      n'.world.audit.challengeSnapShot.lookup miner = none ∨
        ∃ info info', n.world.audit.challengeSnapShot.lookup miner = some info ∧
          n'.world.audit.challengeSnapShot.lookup miner = some info' ∧
          info'.proveInfo.assign = info.proveInfo.assign + 1 ∧ info'.proveInfo.assign ≤ 2 := by
  have hfiled := Reached.filed hn
  have hopen : n.Open := by
    refine Runs.Reach.inv (P := Node.Open) ?_ ?_ hn
    · intro n hstart miner info hinfo
      rw [hstart.book] at hinfo
      cases hinfo
    · exact fun n a n' hn h hok hstep =>
        step_open hhours (Reached.now_lt hn) (Reached.filed hn) hok h hstep
  constructor
  · intro hphase hnext miner info hinfo
    refine ⟨?_, hfiled.filed miner info hinfo, ?_, hfiled.assign miner info hinfo⟩
    · rcases hopen miner info hinfo with hlater | hlast | ⟨-, hdue⟩
      · exact hlater
      · omega
      · rw [hphase] at hdue
        exact hdue.elim
    · intro slip hlater hmem
      obtain ⟨info₁, hinfo₁, hend⟩ := hfiled.only slip miner hmem (.inl hlater)
      obtain rfl := Option.mem_unique hinfo hinfo₁
      exact hend.symm
  · intro miner rest n' hphase hstep
    obtain ⟨info, value, hinfo, hvalue, hchallenges, -, -⟩ := step_visit hfiled hphase hstep
    have hlookup := hchallenges miner
    rw [if_pos rfl] at hlookup
    rcases hvalue with rfl | ⟨rfl, hassign⟩
    · exact .inl hlookup
    · right
      have hadd : Sminer.wrappingAdd 8 info.proveInfo.assign 1 = info.proveInfo.assign + 1 := by
        unfold Sminer.wrappingAdd
        omega
      refine ⟨info, _, hinfo, hlookup, hadd, ?_⟩
      show Sminer.wrappingAdd 8 info.proveInfo.assign 1 ≤ 2
      omega

theorem termsFit_vacant (n : Node runtime) (_ : n.world.Vacant) (h : n.phase.still = true) :
    TermsFit n .hook := by
  intro miner hminer
  obtain ⟨rest, hrest⟩ := visited_hook.mp hminer
  rw [hrest] at h
  cases h

/-- A miner is challenged, and the challenge ends later. -/
theorem challenges_closed_challenged :
    ∃ (n : Node runtime) (info : Audit.ChallengeInfo runtime), Reached TermsFit n ∧
      n.world.audit.challengeSnapShot.lookup (10 : ℕ) = some info ∧
      n.world.now < info.challengeElement.verifySlip := by
  obtain ⟨n, hn, hcheck⟩ := exists_of_play TermsFit (fun _ => nofun) termsFit_vacant (challenged 100)
    (fun n => n.phase.calling && decide (n.world.now = 43200) &&
      (n.world.audit.challengeSnapShot.lookup (10 : ℕ)).isSome) (by decide +kernel)
  simp only [Bool.and_eq_true, decide_eq_true_eq, Option.isSome_iff_exists] at hcheck
  obtain ⟨⟨hphase, hnow⟩, info, hinfo⟩ := hcheck
  have hclosed := (challenges_closed (by decide) hn).1 (Phase.eq_executing hphase)
    (by rw [hnow]; decide) (10 : ℕ) info hinfo
  exact ⟨n, info, hn, hinfo, hclosed.1⟩

/-! ## Snapshots -/

/-- For every challenge there is one snapshot if it is passed, and none otherwise; and no snapshot
is from the future.  Before the calls of a block, none is from this block. -/
structure Node.Recorded (n : Node T) : Prop where
  start : ∀ miner info, n.world.book.challenges.lookup miner = some info →
    info.challengeElement.start ≤ n.world.now
  count : ∀ miner info, n.world.book.challenges.lookup miner = some info →
    n.world.book.recordedFor miner info.challengeElement.start =
      if info.proveInfo.Passed then 1 else 0
  past : ∀ e ∈ n.world.book.recorded, e.2 ≤ n.world.now
  before : n.phase ≠ .executing → ∀ e ∈ n.world.book.recorded, e.2 < n.world.now

theorem Node.Recorded.start_step (h : n.Recorded) (hstep : n.step a = some n')
    (hnew : a ≠ .newBlock) (miner : T.AccountId) (info' : Audit.ChallengeInfo T)
    (hinfo' : n'.world.book.challenges.lookup miner = some info') :
    info'.challengeElement.start ≤ n'.world.now := by
  rw [step_now hstep hnew]
  cases step_challenge hstep hinfo' with
  | new _ _ hnew => exact hnew.start.le
  | same _ hinfo hsame _ =>
    rw [hsame.challengeElement]
    exact h.start miner _ hinfo
  | handed _ hinfo hinfo' =>
    subst hinfo'
    have hstart := h.start miner _ hinfo
    exact hstart

/-- The hook keeps the snapshots. -/
theorem Node.Recorded.hook (h : n.Recorded) (hstep : n.step .hook = some n') : n'.Recorded := by
  have hnow := step_now hstep nofun
  have hrecorded := step_hook_recorded hstep
  have hphase : n.phase ≠ .executing := by
    intro hphase
    have hhook := step_hook hstep
    rw [hphase] at hhook
    exact hhook
  have hcount : ∀ miner start, n'.world.book.recordedFor miner start =
      n.world.book.recordedFor miner start := by
    intro miner start
    unfold Audit.Book.recordedFor
    rw [hrecorded]
  refine ⟨h.start_step hstep nofun, ?_, ?_, ?_⟩
  · intro miner info' hinfo'
    rw [hcount]
    cases step_challenge hstep hinfo' with
    | new _ _ hnew =>
      have hpassed : ¬ info'.proveInfo.Passed := by
        rw [hnew.prove]
        exact fun hpassed => nomatch hpassed.1
      rw [if_neg hpassed, hnew.start]
      refine List.countP_eq_zero.mpr fun e he => ?_
      have hbefore := h.before hphase e he
      simp only [decide_eq_true_eq, not_and, not_le]
      exact fun _ => hbefore
    | same _ hinfo _ hhook =>
      obtain rfl := hhook rfl
      exact h.count miner _ hinfo
    | handed _ hinfo hinfo' =>
      subst hinfo'
      have hold := h.count miner _ hinfo
      simp only [Audit.passed_reassign]
      exact hold
  · rw [hrecorded, hnow]
    exact h.past
  · rw [hrecorded, hnow]
    exact fun _ => h.before hphase

/-- A submission keeps the snapshots, or takes the one of its challenge. -/
theorem Node.Recorded.submit (h : n.Recorded) (hstep : n.step a = some n')
    (hnew : a ≠ .newBlock) (hphase : n'.phase = .executing)
    (hsubmit : n.world.book.Submit n.world.now n'.world.book) : n'.Recorded := by
  obtain ⟨miner, info, info', extra, hinfo, hsame, hchallenges, -, hrecorded, hextra, hcount⟩ :=
    hsubmit.counted
  refine ⟨h.start_step hstep hnew, ?_, ?_, ?_⟩
  · intro miner₁ info₁ hinfo₁
    rw [hchallenges, lookup_insert_ite] at hinfo₁
    have hsum : n'.world.book.recordedFor miner₁ info₁.challengeElement.start =
        n.world.book.recordedFor miner₁ info₁.challengeElement.start +
          extra.countP fun e => e.1 = miner₁ ∧ info₁.challengeElement.start ≤ e.2 := by
      unfold Audit.Book.recordedFor
      rw [hrecorded, List.countP_append]
    rw [hsum]
    split_ifs at hinfo₁ with heq
    · obtain rfl := Option.some.inj hinfo₁
      have hall : (extra.countP fun e => e.1 = miner₁ ∧ info'.challengeElement.start ≤ e.2) =
          extra.length := by
        refine List.countP_eq_length.mpr fun e he => decide_eq_true ?_
        rw [hextra e he, hsame.challengeElement]
        exact ⟨heq.symm, h.start miner info hinfo⟩
      rw [hall, hcount, hsame.challengeElement, heq, h.count miner info hinfo]
    · have hnone : (extra.countP fun e => e.1 = miner₁ ∧ info₁.challengeElement.start ≤ e.2) = 0 := by
        refine List.countP_eq_zero.mpr fun e he hmatch => heq ?_
        rw [← (of_decide_eq_true hmatch).1, hextra e he]
      rw [hnone]
      exact h.count miner₁ info₁ hinfo₁
  · rw [hrecorded, step_now hstep hnew]
    intro e he
    rcases List.mem_append.mp he with hold | hnew
    · exact h.past e hold
    · rw [hextra e hnew]
  · exact fun hne => absurd hphase hne

/-- **Snapshots stay in step with the challenges.** -/
theorem step_recorded (h : n.Recorded) (hstep : n.step a = some n') : n'.Recorded := by
  by_cases hnew : a = .newBlock
  · subst hnew
    obtain ⟨-, -, rfl⟩ := step_newBlock hstep
    refine ⟨fun miner info hinfo => ?_, h.count, fun e he => ?_, fun _ e he => ?_⟩
    · exact (h.start miner info hinfo).trans (Nat.le_succ _)
    · exact (h.past e he).trans (Nat.le_succ _)
    · exact Nat.lt_succ_of_le (h.past e he)
  by_cases hhook : a = .hook
  · subst hhook
    exact h.hook hstep
  have hnow := step_now hstep hnew
  have hphase := step_phase hstep hhook hnew
  rcases step_book hstep hhook with hbook | ⟨hexecuting, hsubmit⟩
  · refine ⟨h.start_step hstep hnew, ?_, ?_, ?_⟩ <;> rw [hbook]
    · exact h.count
    · rw [hnow]
      exact h.past
    · rw [hnow, hphase]
      exact h.before
  · exact h.submit hstep hnew (hphase.trans hexecuting) hsubmit

theorem Reached.recorded {ok : Node T → Action T → Prop} (hn : Reached ok n) : n.Recorded := by
  refine Runs.Reach.inv (P := Node.Recorded) ?_ (fun n a n' _ h _ hstep => step_recorded h hstep) hn
  intro n hstart
  have hbook := hstart.book
  refine ⟨?_, ?_, ?_, ?_⟩ <;> rw [hbook]
  · exact fun _ _ hinfo => nomatch hinfo
  · exact fun _ _ hinfo => nomatch hinfo
  · exact fun _ he => nomatch he
  · exact fun _ _ he => nomatch he

/-- **One reward snapshot per passed challenge.**  In every reached state there is exactly one call
of `record_snap_shot` since the start of a challenge if both of its results are good, and none
otherwise; and every step that makes such a call is the one by which a challenge comes to have two
good results. -/
theorem one_snapshot (hn : Reached (fun _ _ => True) n) :
    (∀ miner info, n.world.audit.challengeSnapShot.lookup miner = some info →
      (n.world.history.recorded.countP fun e =>
        e.1 = miner ∧ info.challengeElement.start ≤ e.2) =
          if info.proveInfo.idleResult = some true ∧ info.proveInfo.serviceResult = some true then 1
          else 0) ∧
    ∀ a n', n.step a = some n' →
      n'.world.history.recorded = n.world.history.recorded ∨
      ∃ miner info info', n'.world.history.recorded =
          n.world.history.recorded ++ [(miner, n.world.now)] ∧
        n.world.audit.challengeSnapShot.lookup miner = some info ∧ ¬ info.proveInfo.Passed ∧
        n'.world.audit.challengeSnapShot.lookup miner = some info' ∧ info'.proveInfo.Passed ∧
        info'.challengeElement = info.challengeElement := by
  constructor
  · exact (Reached.recorded hn).count
  · intro a n' hstep
    by_cases hhook : a = .hook
    · subst hhook
      exact .inl (step_hook_recorded hstep)
    rcases step_book hstep hhook with hbook | ⟨-, hsubmit⟩
    · exact .inl (congrArg Audit.Book.recorded hbook)
    · obtain ⟨miner, info, info', extra, hinfo, hsame, hchallenges, -, hrecorded, hextra, hcount⟩ :=
        hsubmit.counted
      cases extra with
      | nil => exact .inl (hrecorded.trans (List.append_nil _))
      | cons e rest =>
        right
        rw [List.length_cons] at hcount
        have hopen : ¬ info.proveInfo.Passed := by
          intro hpassed
          split_ifs at hcount
          omega
        have hpassed : info'.proveInfo.Passed := by
          by_contra hnot
          rw [if_neg hnot] at hcount
          omega
        rw [if_pos hpassed] at hcount
        obtain rfl : rest = [] := List.length_eq_zero_iff.mp (by omega)
        rw [hextra e List.mem_cons_self] at hrecorded
        have hinfo' : n'.world.book.challenges.lookup miner = some info' := by
          rw [hchallenges, lookup_insert_ite, if_pos rfl]
        exact ⟨miner, info, info', hrecorded, hinfo, hopen, hinfo', hpassed, hsame.challengeElement⟩

/-- The snapshots of a run of the runtime. -/
def snapshots (w : World runtime) : List (ℕ × ℕ) := w.history.recorded

/-- A challenge is passed, and a snapshot is taken. -/
theorem one_snapshot_passed :
    ∃ (n : Node runtime) (info : Audit.ChallengeInfo runtime), Reached (fun _ _ => True) n ∧
      snapshots n.world = [(10, 43200)] ∧
      n.world.audit.challengeSnapShot.lookup (10 : ℕ) = some info ∧
      (n.world.history.recorded.countP fun e =>
        e.1 = (10 : ℕ) ∧ info.challengeElement.start ≤ e.2) =
          if info.proveInfo.idleResult = some true ∧ info.proveInfo.serviceResult = some true then 1
          else 0 := by
  obtain ⟨n, hn, hcheck⟩ := exists_run (challenged 100 ++ passing)
    (fun n => decide (snapshots n.world = [(10, 43200)]) &&
      (n.world.audit.challengeSnapShot.lookup (10 : ℕ)).isSome) (by decide +kernel)
  simp only [Bool.and_eq_true, decide_eq_true_eq, Option.isSome_iff_exists] at hcheck
  obtain ⟨hrecorded, info, hinfo⟩ := hcheck
  exact ⟨n, info, hn, hrecorded, hinfo, (one_snapshot hn).1 _ info hinfo⟩

end Chain
