/-
# Missed challenges

In the block that is the later one of the two ends of the time for proofs, the hook counts a
challenge without a service proof as missed.  The calls of this block come after the hook, and a
service proof is accepted up to the block in which its time ends: if that is the later one, the
proof of a challenge may be accepted that has been counted as missed.

* `Node.Slips` : the hook looks for the proof of a challenge in that block, and in no other;
* `Watched` : the chain with a list of the challenges that were accepted or counted as missed;
* `SubmittedBefore` : no service proof comes in in the block in which the hook has looked for it;
* `accepted_not_missed` : in runs with such submissions no challenge is both;
* `accepted_and_missed` : what happens otherwise.
-/
import CessNode.Challenges

open Dispatch StorageMap Chain

/-! ## The hook -/

namespace Audit

variable {T : Config}

theorem untouched_punishMissed (miner : T.AccountId) (snapshot : MinerSnapShot T) (count : ℕ) :
    Keeps Untouched (punishMissed T miner snapshot count) := by
  have hclear : Keeps Untouched
      (Sminer.clearPunish T miner snapshot.idleSpace snapshot.serviceSpace count) :=
    fun w => .of_audit (Sminer.after_clearPunish miner _ _ count w).1.audit
  have hforce : Keeps Untouched (Sminer.forceMinerExit T miner) :=
    fun w => .of_audit (Sminer.after_forceMinerExit miner w).1.audit
  have hcount : Keeps Untouched (countMissed T miner count) := by
    refine keeps_ite (fun _ => ?_) fun _ => keeps_modify fun _ => ⟨rfl, rfl⟩
    exact keeps_bind (keeps_attempt hforce) fun _ => keeps_modify fun _ => ⟨rfl, rfl⟩
  exact keeps_ite (fun _ => keeps_bind (keeps_attempt hclear) fun _ => hcount) fun _ => hcount

/-- A round over the challenges that are due strikes the miner from the list. -/
theorem slips_clearChallenge (miner : T.AccountId) (w : World T) :
    (after (clearChallenge T miner) w).audit.challengeSlip =
      w.audit.challengeSlip.erase (w.now, miner) := by
  unfold clearChallenge
  rw [after_get_bind]
  cases w.audit.challengeSnapShot.lookup miner with
  | none => rfl
  | some info =>
    dsimp only
    split_ifs
    · rw [after_bind_of_total (total_punishMissed miner _ _)]
      generalize (checkedAdd 8 ((w.audit.countedClear.lookup miner).getD 0) 1).getD 3 = count
      exact congrArg (·.erase (w.now, miner))
        (untouched_punishMissed miner info.minerSnapshot count w).slips
    · rfl

/-- A round for a challenge with a service proof does nothing else. -/
theorem after_clearChallenge_of_proved {w : World T} {miner : T.AccountId}
    (h : missed w miner = none) :
    after (clearChallenge T miner) w =
      { w with audit := { w.audit with
        challengeSlip := w.audit.challengeSlip.erase (w.now, miner) } } := by
  unfold clearChallenge
  unfold missed at h
  rw [after_get_bind]
  cases hinfo : w.audit.challengeSnapShot.lookup miner with
  | none => rfl
  | some info =>
    rw [hinfo] at h
    dsimp only at h ⊢
    split_ifs at h with hnone
    rw [if_neg hnone]
    rfl

theorem slips_generateChallenge (w : World T) :
    (after (generateChallenge T) w).audit.challengeSlip =
      match newChallenge w with
      | none => w.audit.challengeSlip
      | some (miner, slip, _) => w.audit.challengeSlip.insert (slip, miner) true := by
  unfold generateChallenge
  rw [after_get_bind]
  cases newChallenge w with
  | none => rfl
  | some => rfl

theorem slips_clearVerifyMission (miner : T.AccountId) (w : World T) :
    (after (clearVerifyMission T miner) w).audit.challengeSlip = w.audit.challengeSlip := by
  unfold clearVerifyMission
  rw [after_get_bind]
  cases w.audit.challengeSnapShot.lookup miner with
  | none => rfl
  | some info =>
    dsimp only
    split_ifs <;> rfl

end Audit

namespace Chain

variable {T : Config} {n n' : Node T} {a : Action T}
variable {miner : T.AccountId} {ok : Node T → Action T → Prop} {start : ℕ}

/-- **The list of the blocks in which the hook looks for proofs.**  Only a new challenge adds to
it. -/
theorem step_slips (h : n.step a = some n') {slip : ℕ}
    (hmem : (slip, miner) ∈ n'.world.audit.challengeSlip) :
    (slip, miner) ∈ n.world.audit.challengeSlip ∨
      a = .hook ∧ n.phase = .challenging ∧ ∃ info, Audit.NewChallenge n.world miner slip info ∧
        n'.world.book.challenges.lookup miner = some info := by
  by_cases hhook : a = .hook
  · subst hhook
    cases hb : Action.hook.bank n with
    | some b =>
      rw [(step_bank h hb).2] at hmem
      exact .inl hmem
    | none =>
      cases step_beside h hb with
      | returning =>
        rw [(quiet_sminerHook n.world).beside.audit] at hmem
        exact .inl hmem
      | challenging hphase hw =>
        have hslips := Audit.slips_generateChallenge n.world
        have hbook := (Audit.after_generateChallenge n.world).2.2
        rw [← hw] at hslips hbook
        cases hnew : Audit.newChallenge n.world with
        | none =>
          rw [hnew] at hslips
          rw [hslips] at hmem
          exact .inl hmem
        | some challenge =>
          obtain ⟨miner₁, slip₁, info⟩ := challenge
          rw [hnew] at hslips hbook
          rw [hslips, AList.mem_insert] at hmem
          rcases hmem with heq | hmem
          · obtain ⟨rfl, rfl⟩ := Prod.mk.inj heq
            refine .inr ⟨rfl, hphase, info, Audit.newChallenge_new hnew, ?_⟩
            rw [hbook]
            exact (lookup_insert_ite _ _ _ _).trans (if_pos rfl)
          · exact .inl hmem
      | clearing =>
        rw [Audit.slips_clearChallenge, AList.mem_erase] at hmem
        exact .inl hmem.2
      | cleared => exact .inl hmem
      | verifying =>
        rw [Audit.slips_clearVerifyMission] at hmem
        exact .inl hmem
      | verified =>
        rw [(quiet_reservoirHook n.world).beside.audit] at hmem
        exact .inl hmem
  · rcases step_audit h hhook with ⟨haudit, -⟩ | ⟨c, u, -, -, hrun⟩
    · rw [haudit] at hmem
      exact .inl hmem
    · rw [(Audit.Call.code_submits c hrun).2.slips] at hmem
      exact .inl hmem

/-- A challenge stays until its miner is visited. -/
theorem step_challenge_stays (h : n.step a = some n') {info : Audit.ChallengeInfo T}
    (hinfo : n.world.book.challenges.lookup miner = some info)
    (hvisits : n.visited a ≠ some miner) :
    ∃ info', n'.world.book.challenges.lookup miner = some info' ∧ info.Same info' := by
  have hfate := step_fate h miner
  generalize n'.world.book.challenges.lookup miner = l at hfate ⊢
  cases hfate with
  | stay => exact ⟨info, hinfo, rfl, rfl, rfl⟩
  | new _ _ hnew => cases (AList.lookup_eq_none.mpr hnew.free).symm.trans hinfo
  | closed hvisited | handed hvisited => exact absurd hvisited hvisits
  | submitted _ hinfo₁ hsame =>
    obtain rfl := Option.mem_unique hinfo hinfo₁
    exact ⟨_, rfl, hsame⟩

/-! ## When the hook looks for proofs -/

/-- The hook has not yet looked for proofs in this block. -/
def Phase.early {AccountId : Type} : Phase AccountId → Bool
  | .initializing => true
  | .returning => true
  | .challenging => true
  | _ => false

/-- The challenges for which the hook looks for proofs: it does so in the later one of the two
blocks in which the time for proofs ends, and this is not after the end of the challenge. -/
structure Node.Slips (n : Node T) : Prop where
  only : ∀ slip miner, (slip, miner) ∈ n.world.audit.challengeSlip →
    n.world.now < slip ∨ slip = n.world.now ∧ n.phase.early = true →
    ∃ info, n.world.book.challenges.lookup miner = some info ∧ info.challengeElement.maxSlip = slip
  le : ∀ miner info, n.world.book.challenges.lookup miner = some info →
    info.challengeElement.maxSlip ≤ info.challengeElement.verifySlip
  visits : ∀ rest, n.phase = .clearing rest → ∀ miner ∈ rest, ∀ info,
    n.world.book.challenges.lookup miner = some info →
      info.challengeElement.maxSlip ≤ n.world.now

/-- The end of a challenge that is handed on is not in the past. -/
theorem le_verifySlip_reassign {w : World T} (hnow : w.now < 2 ^ 32)
    (info : Audit.ChallengeInfo T) : w.now ≤ (info.reassign w).challengeElement.verifySlip := by
  show w.now ≤ Audit.saturatingAdd 32 w.now _
  unfold Audit.saturatingAdd
  omega

/-- The entries that are kept are still those of challenges. -/
theorem Node.Slips.step_only (h : n.Slips) (hfiled : n.Filed) (hstep : n.step a = some n')
    {slip : ℕ} (hmem : (slip, miner) ∈ n'.world.audit.challengeSlip)
    (hcome : n.world.now < slip ∨ slip = n.world.now ∧ n.phase.early = true) :
    ∃ info, n'.world.book.challenges.lookup miner = some info ∧
      info.challengeElement.maxSlip = slip := by
  rcases step_slips hstep hmem with hold | ⟨-, -, info, hchallenge, hinfo⟩
  · obtain ⟨info, hinfo, hslip⟩ := h.only slip miner hold hcome
    have hvisits : n.visited a ≠ some miner := by
      intro hvisits
      obtain rfl := hook_of_visited hvisits
      obtain ⟨rest, hphase⟩ := visited_hook.mp hvisits
      obtain ⟨info₁, hinfo₁, hend⟩ := hfiled.visited hphase
      obtain rfl := Option.mem_unique hinfo hinfo₁
      have hle := h.le miner info hinfo
      rw [hphase] at hcome
      rcases hcome with hlater | ⟨-, hearly⟩
      · omega
      · cases hearly
    obtain ⟨info', hinfo', hsame⟩ := step_challenge_stays hstep hinfo hvisits
    exact ⟨info', hinfo', by rw [hsame.challengeElement, hslip]⟩
  · exact ⟨info, hinfo, hchallenge.isMax.symm⟩

theorem early_of_step (hstep : n.step a = some n') (hnew : a ≠ .newBlock)
    (h : n'.phase.early = true) : n.phase.early = true := by
  by_cases hhook : a = .hook
  · subst hhook
    have hbook := step_hook hstep
    generalize n.phase = phase at hbook ⊢
    cases phase with
    | initializing | returning | challenging => rfl
    | clearing rest | verifying rest =>
      cases rest with
      | nil | cons =>
        rw [hbook.1] at h
        cases h
    | executing => exact hbook.elim
  · rw [← step_phase hstep hhook hnew]
    exact h

/-- **The hook keeps looking for proofs at the right time.** -/
theorem step_keeps_slips (h : n.Slips) (hfiled : n.Filed) (hnow : n.world.now < 2 ^ 32)
    (hstep : n.step a = some n') : n'.Slips := by
  by_cases hnew : a = .newBlock
  · subst hnew
    obtain ⟨-, -, rfl⟩ := step_newBlock hstep
    refine ⟨?_, h.le, nofun⟩
    intro slip miner hmem hcome
    refine h.only slip miner hmem (.inl ?_)
    replace hcome : n.world.now + 1 < slip ∨ slip = n.world.now + 1 ∧ _ := hcome
    omega
  have hsame := step_now hstep hnew
  refine ⟨?_, ?_, ?_⟩
  · intro slip miner hmem hcome
    rw [hsame] at hcome
    exact h.step_only hfiled hstep hmem
      (hcome.imp_right fun hhere => ⟨hhere.1, early_of_step hstep hnew hhere.2⟩)
  · intro miner info' hinfo'
    cases step_challenge hstep hinfo' with
    | new _ _ hchallenge =>
      rw [← hchallenge.isMax]
      exact (hchallenge.le_verifySlip hnow).2
    | same _ hinfo hsame _ =>
      rw [hsame.challengeElement]
      exact h.le miner _ hinfo
    | @handed info hvisits hinfo hinfo' =>
      subst hinfo'
      obtain rfl := hook_of_visited hvisits
      obtain ⟨rest, hphase⟩ := visited_hook.mp hvisits
      obtain ⟨info₁, hinfo₁, hend⟩ := hfiled.visited hphase
      obtain rfl := Option.mem_unique hinfo hinfo₁
      have hle := h.le miner info hinfo
      rw [hend] at hle
      exact hle.trans (le_verifySlip_reassign hnow info)
  · intro rest hphase' miner hmem info' hinfo'
    rw [hsame]
    have hkept : ∀ {rest₀}, n.phase = .clearing rest₀ → miner ∈ rest₀ →
        info'.challengeElement.maxSlip ≤ n.world.now := by
      intro rest₀ hphase hmem₀
      cases step_challenge hstep hinfo' with
      | new _ hchallenging _ =>
        rw [hphase] at hchallenging
        cases hchallenging
      | same _ hinfo hsame _ =>
        rw [hsame.challengeElement]
        exact h.visits rest₀ hphase miner hmem₀ _ hinfo
      | handed hvisits hinfo hinfo' =>
        subst hinfo'
        have hle := h.visits rest₀ hphase miner hmem₀ _ hinfo
        exact hle
    by_cases hhook : a = .hook
    · subst hhook
      have hbook := step_hook hstep
      generalize hphase : n.phase = phase at hbook
      cases phase with
      | initializing | returning => cases hbook.1.symm.trans hphase'
      | challenging =>
        obtain rfl := Phase.clearing.inj (hbook.1.symm.trans hphase')
        have hperm := T.slipOrder_perm (n'.world.audit.challengeSlip.iterPrefix n'.world.now)
        have hslip := mem_iterPrefix.mp (hperm.mem_iff.mp hmem)
        rw [hsame] at hslip
        obtain ⟨info, hinfo, hend⟩ := h.step_only hfiled hstep hslip
          (.inr ⟨rfl, by rw [hphase]; rfl⟩)
        obtain rfl := Option.mem_unique hinfo hinfo'
        exact hend.le
      | clearing rest₀ =>
        cases rest₀ with
        | nil => cases hbook.1.symm.trans hphase'
        | cons =>
          obtain rfl := Phase.clearing.inj (hbook.1.symm.trans hphase')
          exact hkept hphase (List.mem_cons_of_mem _ hmem)
      | verifying rest₀ =>
        cases rest₀ with
        | nil | cons => cases hbook.1.symm.trans hphase'
      | executing => exact hbook.elim
    · rw [step_phase hstep hhook hnew] at hphase'
      exact hkept hphase' hmem

theorem Reached.slips (hn : Reached ok n) : n.Slips := by
  refine Runs.Reach.inv (P := Node.Slips) ?_ (fun n a n' hn h _ hstep =>
    step_keeps_slips h (Reached.filed hn) (Reached.now_lt hn) hstep) hn
  intro n hstart
  have hbook := hstart.book
  refine ⟨?_, ?_, ?_⟩
  · intro slip miner hmem
    rw [show n.world.audit.challengeSlip = ∅ by rw [hstart.2.2.1]; rfl] at hmem
    cases hmem
  · intro miner info hinfo
    rw [hbook] at hinfo
    cases hinfo
  · rw [hstart.2.1]
    exact nofun

/-! ## Accepted and missed -/

/-- What is noted about the challenge of a miner that began in a block. -/
inductive Notice (T : Config) where
  | accepted (miner : T.AccountId) (start : ℕ)
  | missed (miner : T.AccountId) (start : ℕ)
  deriving DecidableEq

/-- What is noted about a step: that it accepts a service proof, or that it counts a challenge as
missed. -/
def Node.notices (n : Node T) : Action T → List (Notice T)
  | .hook => match n.phase with
    | .clearing (miner :: _) => match n.world.audit.challengeSnapShot.lookup miner with
      | some info =>
        if info.proveInfo.serviceProve.isNone then [.missed miner info.challengeElement.start] else []
      | none => []
    | _ => []
  | .call (.audit (.submitServiceProof sender serviceProve)) =>
    match n.world.audit.challengeSnapShot.lookup sender,
      (Audit.submitServiceProof T sender serviceProve).run n.world with
    | some info, .ok _ _ => [.accepted sender info.challengeElement.start]
    | _, _ => []
  | _ => []

/-- No service proof comes in in the block in which the hook has looked for it. -/
def SubmittedBefore (n : Node T) : Action T → Prop
  | .call (.audit (.submitServiceProof sender _)) =>
    ∀ info ∈ n.world.audit.challengeSnapShot.lookup sender,
      n.world.now ≠ info.challengeElement.maxSlip
  | _ => True

/-- The states of the chain with all that has been noted on the way. -/
def Watched (ok : Node T → Action T → Prop) (p : Node T × List (Notice T)) : Prop :=
  Runs.Reach (fun p => Node.Start p.1 ∧ p.2 = [])
    (Runs.observe Node.step fun n a _ log => log ++ n.notices a) (fun p a => ok p.1 a) p

theorem Watched.reached {p : Node T × List (Notice T)} (hp : Watched ok p) : Reached ok p.1 :=
  Runs.Reach.of_observe hp

theorem mem_notices_accepted (h : .accepted miner start ∈ n.notices a) :
    ∃ serviceProve info u w', a = .call (.audit (.submitServiceProof miner serviceProve)) ∧
      n.world.book.challenges.lookup miner = some info ∧ info.challengeElement.start = start ∧
      (Audit.submitServiceProof T miner serviceProve).run n.world = .ok u w' := by
  unfold Node.notices at h
  split at h
  · split at h
    · split at h
      · split_ifs at h
        · cases List.mem_singleton.mp h
        · cases h
      · cases h
    · cases h
  · split at h
    next info u w' hinfo hrun =>
      cases List.mem_singleton.mp h
      exact ⟨_, info, u, w', rfl, hinfo, rfl, hrun⟩
    next => cases h
  · cases h

theorem mem_notices_missed (h : .missed miner start ∈ n.notices a) :
    ∃ rest info, a = .hook ∧ n.phase = .clearing (miner :: rest) ∧
      n.world.book.challenges.lookup miner = some info ∧ info.challengeElement.start = start ∧
      info.proveInfo.serviceProve.isSome = false := by
  unfold Node.notices at h
  split at h
  · split at h
    next rest hphase =>
      split at h
      next info hinfo =>
        split_ifs at h with hnone
        · cases List.mem_singleton.mp h
          refine ⟨rest, info, rfl, hphase, hinfo, rfl, ?_⟩
          rw [Option.isNone_iff_eq_none] at hnone
          rw [hnone]
          rfl
        · cases h
      next => cases h
    next => cases h
  · split at h
    · cases List.mem_singleton.mp h
    · cases h
  · cases h

/-- What the notices say about the present challenges. -/
structure Fair (p : Node T × List (Notice T)) : Prop where
  start : ∀ miner start, .accepted miner start ∈ p.2 ∨ .missed miner start ∈ p.2 →
    start ≤ p.1.world.now ∧ (p.1.phase.early = true → start < p.1.world.now)
  accepted : ∀ miner info, p.1.world.book.challenges.lookup miner = some info →
    .accepted miner info.challengeElement.start ∈ p.2 → info.proveInfo.serviceProve.isSome = true
  missed : ∀ miner info, p.1.world.book.challenges.lookup miner = some info →
    .missed miner info.challengeElement.start ∈ p.2 →
      info.proveInfo.serviceProve.isSome = false ∧
        info.challengeElement.maxSlip ≤ p.1.world.now
  apart : ∀ miner start, .accepted miner start ∈ p.2 → .missed miner start ∉ p.2

/-- The service proof of a challenge that was there before a step. -/
theorem step_service (hstep : n.step a = some n') {info' : Audit.ChallengeInfo T}
    (hinfo' : n'.world.book.challenges.lookup miner = some info')
    (hold : ¬ (n.phase = .challenging ∧ info'.challengeElement.start = n.world.now)) :
    ∃ info, n.world.book.challenges.lookup miner = some info ∧
      info.challengeElement.start = info'.challengeElement.start ∧
      info.challengeElement.maxSlip = info'.challengeElement.maxSlip ∧
      (info'.proveInfo.serviceProve.isSome = info.proveInfo.serviceProve.isSome ∨
        ∃ prove, a = .call (.audit (.submitServiceProof miner prove)) ∧
          Audit.Accepts n.world info info') := by
  by_cases hhook : a = .hook
  · cases step_challenge hstep hinfo' with
    | new _ hphase hchallenge => exact absurd ⟨hphase, hchallenge.start⟩ hold
    | same _ hinfo hsame heq =>
      obtain rfl := heq hhook
      exact ⟨_, hinfo, rfl, rfl, .inl rfl⟩
    | handed _ hinfo hinfo' =>
      subst hinfo'
      refine ⟨_, hinfo, rfl, rfl, .inl ?_⟩
      exact Option.isSome_map
  · rcases step_audit hstep hhook with ⟨-, hbook⟩ | ⟨c, u, rfl, -, hrun⟩
    · rw [hbook] at hinfo'
      exact ⟨info', hinfo', rfl, rfl, .inl rfl⟩
    · obtain ⟨info, hinfo, hsame, hservice⟩ :=
        (Audit.Call.code_submits c hrun).2.service miner info' hinfo'
      refine ⟨info, hinfo, by rw [hsame.challengeElement], by rw [hsame.challengeElement], ?_⟩
      refine hservice.imp_right ?_
      rintro ⟨prove, rfl, haccepts⟩
      exact ⟨prove, rfl, haccepts⟩

/-- Between a submission in time and the hook that looks for the proof there is at least one
block. -/
theorem SubmittedBefore.lt {prove : BoundedVec UInt8 T.sigmaMax}
    {info info' : Audit.ChallengeInfo T}
    (hok : SubmittedBefore n (.call (.audit (.submitServiceProof miner prove))))
    (hinfo : n.world.book.challenges.lookup miner = some info)
    (haccepts : Audit.Accepts n.world info info') :
    n.world.now < info.challengeElement.maxSlip :=
  lt_of_le_of_ne (haccepts.inTime.trans (le_max_right _ _)) (hok info hinfo)

/-- **What an accepted service proof is.** -/
theorem step_accepted (hstep : n.step a = some n') (h : .accepted miner start ∈ n.notices a) :
    ∃ prove info info', a = .call (.audit (.submitServiceProof miner prove)) ∧
      n.phase = .executing ∧ n.world.book.challenges.lookup miner = some info ∧
      info.challengeElement.start = start ∧ Audit.Accepts n.world info info' ∧
      n'.world.book.challenges.lookup miner = some info' := by
  obtain ⟨prove, info, u, w', rfl, hinfo, hstart, hrun⟩ := mem_notices_accepted h
  simp only [Node.step, Option.ite_none_right_eq_some, Option.some.injEq] at hstep
  obtain ⟨⟨hphase, -, -⟩, rfl⟩ := hstep
  obtain ⟨info₁, info', counted, events, hinfo₁, -, haccepts, -, rfl⟩ :=
    Audit.submitServiceProof_accepts hrun
  obtain rfl := Option.mem_unique hinfo hinfo₁
  refine ⟨prove, info, info', rfl, Phase.eq_executing hphase, hinfo, hstart, haccepts, ?_⟩
  have hworld : Call.effect T (.audit (.submitServiceProof miner prove)) n.world = _ :=
    after_of_ok (run_transactional_ok.mpr hrun)
  rw [hworld]
  exact AList.lookup_insert _

/-- **What a challenge counted as missed is.** -/
theorem step_missed (hstep : n.step a = some n') (h : .missed miner start ∈ n.notices a) :
    ∃ rest info, n.phase = .clearing (miner :: rest) ∧
      n.world.book.challenges.lookup miner = some info ∧ info.challengeElement.start = start ∧
      info.proveInfo.serviceProve.isSome = false ∧
      n'.world.book.challenges.lookup miner = some info ∧ n'.world.now = n.world.now := by
  obtain ⟨rest, info, rfl, hphase, hinfo, hstart, hnone⟩ := mem_notices_missed h
  have hbook := step_hook hstep
  rw [hphase] at hbook
  refine ⟨rest, info, hphase, hinfo, hstart, hnone, ?_, step_now hstep nofun⟩
  rw [hbook.2, hinfo]

/-- A step notes one thing at most. -/
theorem notices_apart (h : .accepted miner start ∈ n.notices a) (miner' : T.AccountId)
    (start' : ℕ) : .missed miner' start' ∉ n.notices a := by
  intro hmissed
  obtain ⟨_, _, _, _, rfl, -⟩ := mem_notices_accepted h
  obtain ⟨_, _, ha, -⟩ := mem_notices_missed hmissed
  cases ha

/-- **The notices stay fair.** -/
theorem Fair.step {log : List (Notice T)} (h : Fair (n, log)) (hrecorded : n.Recorded)
    (hslips : n.Slips) (hok : SubmittedBefore n a) (hstep : n.step a = some n') :
    Fair (n', log ++ n.notices a) := by
  -- what was noted before is not about a challenge that is new
  have hold : ∀ {miner : T.AccountId} {info' : Audit.ChallengeInfo T},
      .accepted miner info'.challengeElement.start ∈ log ∨
        .missed miner info'.challengeElement.start ∈ log →
      ¬ (n.phase = .challenging ∧ info'.challengeElement.start = n.world.now) := by
    rintro miner info' hlog ⟨hphase, hstart⟩
    have hbefore := (h.start miner _ hlog).2 (by rw [hphase]; rfl)
    exact hbefore.ne hstart
  have hnext : n.world.now ≤ n'.world.now := by
    by_cases hnew : a = .newBlock
    · subst hnew
      obtain ⟨-, -, rfl⟩ := step_newBlock hstep
      exact Nat.le_succ _
    · exact (step_now hstep hnew).ge
  refine ⟨?_, ?_, ?_, ?_⟩
  · intro miner start hnoted
    have hle : start ≤ n.world.now ∧ (n.phase.early = true → start < n.world.now) := by
      simp only [List.mem_append] at hnoted
      rcases hnoted with (hlog | hnow) | (hlog | hnow)
      · exact h.start miner start (.inl hlog)
      · obtain ⟨_, info, _, -, hphase, hinfo, rfl, -⟩ := step_accepted hstep hnow
        refine ⟨hrecorded.start miner info hinfo, fun hearly => ?_⟩
        rw [hphase] at hearly
        cases hearly
      · exact h.start miner start (.inr hlog)
      · obtain ⟨rest, info, hphase, hinfo, rfl, -⟩ := step_missed hstep hnow
        refine ⟨hrecorded.start miner info hinfo, fun hearly => ?_⟩
        rw [hphase] at hearly
        cases hearly
    by_cases hnew : a = .newBlock
    · subst hnew
      obtain ⟨-, -, rfl⟩ := step_newBlock hstep
      exact ⟨hle.1.trans (Nat.le_succ _), fun _ => Nat.lt_succ_of_le hle.1⟩
    · rw [step_now hstep hnew]
      exact ⟨hle.1, fun hearly => hle.2 (early_of_step hstep hnew hearly)⟩
  · intro miner info' hinfo' hnoted
    rcases List.mem_append.mp hnoted with hlog | hnow
    · obtain ⟨info, hinfo, hstart, -, hservice⟩ := step_service hstep hinfo' (hold (.inl hlog))
      have hsome := h.accepted miner info hinfo (by rw [hstart]; exact hlog)
      rcases hservice with heq | ⟨-, -, haccepts⟩
      · rw [heq, hsome]
      · exact haccepts.after
    · obtain ⟨_, info, info₁, -, -, -, -, haccepts, hinfo₁⟩ := step_accepted hstep hnow
      obtain rfl := Option.mem_unique hinfo₁ hinfo'
      exact haccepts.after
  · intro miner info' hinfo' hnoted
    rcases List.mem_append.mp hnoted with hlog | hnow
    · obtain ⟨info, hinfo, hstart, hmax, hservice⟩ := step_service hstep hinfo' (hold (.inr hlog))
      have hnone := h.missed miner info hinfo (by rw [hstart]; exact hlog)
      rcases hservice with heq | ⟨prove, rfl, haccepts⟩
      · exact ⟨heq.trans hnone.1, (hmax.symm.le.trans hnone.2).trans hnext⟩
      · exact absurd hnone.2 (not_le.mpr (hok.lt hinfo haccepts))
    · obtain ⟨rest, info, hphase, hinfo, -, hnone, hinfo₁, -⟩ := step_missed hstep hnow
      obtain rfl := Option.mem_unique hinfo₁ hinfo'
      have hle := hslips.visits _ hphase miner List.mem_cons_self info hinfo
      exact ⟨hnone, hle.trans hnext⟩
  · intro miner start haccepted hmissed
    rcases List.mem_append.mp haccepted with hlog | hnow
    · rcases List.mem_append.mp hmissed with hlog' | hnow'
      · exact h.apart miner start hlog hlog'
      · obtain ⟨rest, info, -, hinfo, rfl, hnone, -⟩ := step_missed hstep hnow'
        have hsome := h.accepted miner info hinfo hlog
        rw [hnone] at hsome
        cases hsome
    · rcases List.mem_append.mp hmissed with hlog' | hnow'
      · obtain ⟨prove, info, info', rfl, -, hinfo, rfl, haccepts, -⟩ := step_accepted hstep hnow
        have hle := (h.missed miner info hinfo hlog').2
        exact absurd hle (not_le.mpr (hok.lt hinfo haccepts))
      · exact notices_apart hnow miner start hnow'

theorem Watched.fair {p : Node T × List (Notice T)} (hp : Watched SubmittedBefore p) : Fair p := by
  refine Runs.Reach.inv (P := Fair) ?_ ?_ hp
  · rintro ⟨n, log⟩ ⟨-, rfl⟩
    refine ⟨fun _ _ hnoted => ?_, fun _ _ _ hnoted => ?_, fun _ _ _ hnoted => ?_, fun _ _ hnoted => ?_⟩
    · rcases hnoted with hnoted | hnoted <;> cases hnoted
    · cases hnoted
    · cases hnoted
    · cases hnoted
  · rintro ⟨n, log⟩ a ⟨n', log'⟩ hp hfair hok hstep
    obtain ⟨hstep, rfl⟩ := Runs.observe_eq_some.mp hstep
    have hn := Watched.reached hp
    exact hfair.step (Reached.recorded hn) (Reached.slips hn) hok hstep

/-- **An accepted proof is not missed.**  In a run in which no service proof comes in in the block
in which the hook has looked for it, no challenge is ever both accepted and counted as missed.  A
round of `clear_challenge` of which nothing is noted changes nothing but the list of the block. -/
theorem accepted_not_missed {p : Node T × List (Notice T)} (hp : Watched SubmittedBefore p) :
    (∀ miner start, .accepted miner start ∈ p.2 → .missed miner start ∉ p.2) ∧
    ∀ miner rest n', p.1.phase = .clearing (miner :: rest) → p.1.step .hook = some n' →
      p.1.notices .hook = [] →
      n'.world = { p.1.world with audit := { p.1.world.audit with
        challengeSlip := p.1.world.audit.challengeSlip.erase (p.1.world.now, miner) } } := by
  refine ⟨hp.fair.apart, fun miner rest n' hphase hstep hnotices => ?_⟩
  obtain ⟨⟨phase, calls, world⟩, log⟩ := p
  obtain rfl : phase = .clearing (miner :: rest) := hphase
  obtain rfl := Option.some.inj hstep
  refine Audit.after_clearChallenge_of_proved ?_
  unfold Node.notices at hnotices
  unfold Audit.missed
  dsimp only at hnotices ⊢
  split at hnotices
  next info hinfo =>
    rw [hinfo]
    split_ifs at hnotices with hnone
    exact if_neg hnone
  next hinfo => rw [hinfo]

/-! ## Concrete runs -/

instance (n : Node T) : (a : Action T) → Decidable (SubmittedBefore n a)
  | .call (.audit (.submitServiceProof ..)) => by unfold SubmittedBefore; infer_instance
  | .call (.audit (.submitIdleProof ..)) | .call (.audit (.submitVerifyIdleResult ..))
  | .call (.audit (.submitVerifyServiceResult ..)) | .call (.storage _) | .call (.fileBank _)
  | .call (.sminer _) | .call (.treasury _) | .call (.reservoir _) | .newBlock | .serve _
  | .minerExit _ | .clearFile .. | .hook | .payEra _ | .external .. => .isTrue trivial

/-- The node after some steps, and what is noted on the way. -/
def Node.trace : Node T → List (Action T) → Option (Node T × List (Notice T))
  | n, [] => some (n, [])
  | n, a :: as =>
    (n.step a).bind fun n' => (n'.trace as).map fun p => (p.1, n.notices a ++ p.2)

theorem Watched.trace {n n' : Node T} {log rest : List (Notice T)} {as : List (Action T)}
    (hp : Watched ok (n, log)) (hok : Runs.Guarded Node.step ok n as)
    (h : n.trace as = some (n', rest)) : Watched ok (n', log ++ rest) := by
  induction as generalizing n log rest with
  | nil =>
    obtain ⟨rfl, rfl⟩ := Prod.mk.inj (Option.some.inj h)
    rw [List.append_nil]
    exact hp
  | cons a as ih =>
    obtain ⟨n₁, hstep, h⟩ := Option.bind_eq_some_iff.mp h
    obtain ⟨⟨n₂, rest₂⟩, htrace, heq⟩ := Option.map_eq_some_iff.mp h
    obtain ⟨rfl, rfl⟩ := Prod.mk.inj heq
    have hp₁ : Watched ok (n₁, log ++ n.notices a) :=
      .next hp hok.1 (Runs.observe_eq_some.mpr ⟨hstep, rfl⟩)
    rw [← List.append_assoc]
    exact ih hp₁ (hok.2 n₁ hstep) htrace

/-- Exactly these things are noted about some steps. -/
def Node.notes (n : Node runtime) (as : List (Action runtime)) (notices : List (Notice runtime)) :
    Bool :=
  (n.trace as).any fun p => decide (p.2 = notices)

/-- A concrete run of which the last steps are watched. -/
theorem exists_watched {ok : Node runtime → Action runtime → Prop} {n : Node runtime}
    (hn : Reached ok n) {as : List (Action runtime)} (hok : Runs.Guarded Node.step ok n as)
    {notices : List (Notice runtime)} (h : n.notes as notices = true) :
    ∃ p : Node runtime × List (Notice runtime), Watched ok p ∧ ∀ notice ∈ notices, notice ∈ p.2 := by
  obtain ⟨log, hp⟩ := Runs.Reach.observed (fun n a _ log => log ++ Node.notices n a) [] hn
  obtain ⟨⟨n', rest⟩, htrace, hrest⟩ := (Option.any_eq_true _ _).mp h
  obtain rfl : rest = notices := of_decide_eq_true hrest
  exact ⟨(n', log ++ rest), Watched.trace hp hok htrace, fun _ => List.mem_append_right log⟩

/-- The miner 10 submits its service proof. -/
def provesService : Action runtime :=
  .call (.audit (.submitServiceProof (10 : ℕ) BoundedVec.empty))

/-- A miner with one segment of idle space, for which both times end in the same block, submits its
service proof in the block of the challenge. -/
theorem accepted_not_missed_early :
    ∃ p : Node runtime × List (Notice runtime), Watched SubmittedBefore p ∧
      .accepted (10 : ℕ) 43200 ∈ p.2 ∧ .missed (10 : ℕ) 43200 ∉ p.2 := by
  obtain ⟨n, hn, hcheck⟩ := exists_of_play SubmittedBefore (fun _ => trivial)
    (fun _ _ _ => trivial) (challenged 1)
    (fun n => decide (SubmittedBefore n provesService) &&
      n.notes [provesService] [.accepted (10 : ℕ) 43200])
    (by decide +kernel)
  rw [Bool.and_eq_true] at hcheck
  have hok : Runs.Guarded Node.step SubmittedBefore n [provesService] :=
    ⟨of_decide_eq_true hcheck.1, fun _ _ => trivial⟩
  obtain ⟨p, hp, hnoted⟩ := exists_watched hn hok hcheck.2
  have haccepted := hnoted _ List.mem_cons_self
  exact ⟨p, hp, haccepted, (accepted_not_missed hp).1 _ _ haccepted⟩

/-- It submits the proof in the block in which both times end.  The hook of this block has counted
the challenge as missed. -/
theorem accepted_and_missed :
    ∃ p : Node runtime × List (Notice runtime), Watched (fun _ _ => True) p ∧
      .accepted (10 : ℕ) 43200 ∈ p.2 ∧ .missed (10 : ℕ) 43200 ∈ p.2 := by
  obtain ⟨n, hn, hcheck⟩ := exists_run
    (challenged 1 ++ [.idle 49, .act .newBlock, .act .hook, .act .hook, .act .hook])
    (fun n => n.notes [.hook, .hook, .hook, provesService]
      [.missed (10 : ℕ) 43200, .accepted (10 : ℕ) 43200])
    (by decide +kernel)
  obtain ⟨p, hp, hnoted⟩ := exists_watched hn (Runs.guarded_true _ _) hcheck
  exact ⟨p, hp, hnoted _ (List.mem_cons_of_mem _ List.mem_cons_self), hnoted _ List.mem_cons_self⟩

end Chain
