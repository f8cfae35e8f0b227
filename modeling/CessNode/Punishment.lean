/-
# Fines

A punishment takes the fine out of the collateral of a miner and pays it to the treasury; what the
collateral does not cover is meant to become a debt.  In that case the collateral is set to zero
before the rest is computed, and the debt is overwritten: it is the whole fine, whatever the
collateral has paid of it and whatever was owed before.

The fine for a failed service proof is meant to be a part of the collateral for the power of the
challenged miner, that is for its idle and its service space.  The audit passes the service space for
both.

* `Demanded` : what a fine does to the amounts of a record, `depositPunish_ok`;
* `fined_iff` : when a fine is conserved;
* `serviceFine_iff` : when the fine for a failed proof is that of the challenged snapshot.
-/
import CessNode.AuditRecords
import CessNode.ChainRuntime

open Dispatch Chain

namespace Sminer

variable {T : Chain.Config}

/-- What a fine of that amount does to the amounts of a record. -/
structure Demanded {AccountId : Type} (amount : ℕ) (info info' : MinerInfo AccountId) : Prop where
  collaterals : info'.collaterals = info.collaterals - amount
  debt : info'.debt = if amount < info.collaterals then info.debt else amount

/-- The record tells the fine. -/
theorem Demanded.unique {AccountId : Type} {amount amount' : ℕ} {info info' : MinerInfo AccountId}
    (h : Demanded amount info info') (h' : Demanded amount' info info') : amount = amount' := by
  have hcollaterals := h.collaterals.symm.trans h'.collaterals
  have hdebt := h.debt.symm.trans h'.debt
  split_ifs at hdebt <;> omega

theorem depositPunish_ok {w w' : Chain.World T} {miner : T.AccountId} {amount : ℕ} {u : Unit}
    (h : (depositPunish T miner amount).run w = .ok u w') :
    ∃ info info', w.miner.minerItems.lookup miner = some info ∧
      w'.miner.minerItems.lookup miner = some info' ∧ Demanded amount info info' ∧
      T.transfer (T.unreserve w.ledger info.stakingAccount (min info.collaterals amount))
        info.stakingAccount T.punishTreasury (min info.collaterals amount) = some w'.ledger := by
  obtain ⟨info, info', w₁, hinfo, hrun, rfl⟩ := run_mutateMiner_ok.mp h
  simp only [punishRecord, orElse, run_bind_ok, run_okOr_ok, run_pure_ok] at hrun
  obtain ⟨info₁, w₂, htake, limit, _, ⟨-, rfl⟩, hinfo', rfl⟩ := hrun
  obtain ⟨-, hcollaterals, hdebt, hpaid⟩ := takeCollateral_ok htake
  refine ⟨info, info', hinfo, AList.lookup_insert _, ⟨?_, ?_⟩, hpaid⟩
  -- the state is set at the end, the amounts stay
  · rw [← hcollaterals, ← hinfo']
    split_ifs <;> rfl
  · rw [← hdebt, ← hinfo']
    split_ifs <;> rfl

/-! ## Fines are conserved -/

/-- A fine is paid out of the collateral or owed: nothing is taken or written down twice, nothing that
was owed before is forgotten, and the treasury gets what the collateral has lost. -/
structure Fined (T : Chain.Config) (amount : ℕ) (info info' : MinerInfo T.AccountId)
    (ledger ledger' : T.Ledger) : Prop where
  collaterals : info'.collaterals ≤ info.collaterals
  debt : info.debt ≤ info'.debt
  total : (info.collaterals - info'.collaterals) + (info'.debt - info.debt) = amount
  paid : T.transfer
    (T.unreserve ledger info.stakingAccount (info.collaterals - info'.collaterals))
    info.stakingAccount T.punishTreasury (info.collaterals - info'.collaterals) = some ledger'

/-- **When a fine is conserved.**  After a punishment exactly if the collateral is larger than the
fine, or happens to be what the miner owed before. -/
theorem fined_iff {w w' : Chain.World T} {miner : T.AccountId} {amount : ℕ} {info : MinerInfo T.AccountId}
    (hinfo : w.miner.minerItems.lookup miner = some info)
    (h : (depositPunish T miner amount).run w = .ok () w') :
    (∃ info', w'.miner.minerItems.lookup miner = some info' ∧
      Fined T amount info info' w.ledger w'.ledger) ↔
    amount < info.collaterals ∨ info.collaterals = info.debt := by
  obtain ⟨info₀, info', hinfo₀, hlookup, ⟨hc, hd⟩, hpaid⟩ := depositPunish_ok h
  obtain rfl := Option.mem_unique hinfo hinfo₀
  have htaken : info.collaterals - info'.collaterals = min info.collaterals amount := by omega
  rw [← htaken] at hpaid
  constructor
  · rintro ⟨info₂, hinfo₂, hfined⟩
    obtain rfl : info' = info₂ := Option.mem_unique hlookup hinfo₂
    have htotal := hfined.total
    have hkept := hfined.debt
    rw [hd] at htotal
    split_ifs at htotal with hmore
    · exact .inl hmore
    · rw [hd, if_neg hmore] at hkept
      omega
  · intro hcond
    refine ⟨info', hlookup, by omega, ?_, ?_, hpaid⟩
    · rw [hd]
      split_ifs <;> omega
    · rw [hd]
      split_ifs <;> omega

/-- The miner 1 has reserved its collateral itself and owes something. -/
def indebted (collaterals debt : ℕ) : Chain.World runtime :=
  let ledger := StorageHandler.Balances.set start.world.ledger (1 : ℕ) (10 ^ 18) collaterals
  (start.world.setLedger ledger).setMiner
    { start.world.miner with
      minerItems := start.world.miner.minerItems.insert (1 : ℕ)
        { FileBank.miner with stakingAccount := (1 : ℕ), collaterals := collaterals, debt := debt } }

/-- The collateral and the debt of that miner after a punishment. -/
def afterFine (collaterals debt amount : ℕ) : Option (ℕ × ℕ) :=
  match (depositPunish runtime (1 : ℕ) amount).run (indebted collaterals debt) with
  | .ok _ w' => (w'.miner.minerItems.lookup (1 : ℕ)).map fun info => (info.collaterals, info.debt)
  | .error _ _ => none

theorem exists_of_afterFine {collaterals debt amount : ℕ} {left : ℕ × ℕ}
    (h : afterFine collaterals debt amount = some left) : ∃ w' info',
      (depositPunish runtime (1 : ℕ) amount).run (indebted collaterals debt) = .ok () w' ∧
      w'.miner.minerItems.lookup (1 : ℕ) = some info' ∧ (info'.collaterals, info'.debt) = left := by
  unfold afterFine at h
  split at h
  · next hrun =>
      obtain ⟨info', hinfo', hleft⟩ := Option.map_eq_some_iff.mp h
      exact ⟨_, info', hrun, hinfo', hleft⟩
  · cases h

/-- A fine of 600 out of a collateral of 4000. -/
theorem fined_iff_covered : ∃ info w', (indebted 4000 7).miner.minerItems.lookup (1 : ℕ) = some info ∧
    (depositPunish runtime (1 : ℕ) 600).run (indebted 4000 7) = .ok () w' ∧
    ∃ info', w'.miner.minerItems.lookup (1 : ℕ) = some info' ∧
      Fined runtime 600 info info' (indebted 4000 7).ledger w'.ledger := by
  have hfine : afterFine 4000 7 600 = some (3400, 7) := by decide +kernel
  obtain ⟨w', -, h, -, -⟩ := exists_of_afterFine hfine
  exact ⟨_, w', rfl, h, (fined_iff rfl h).mpr (.inl (by decide))⟩

/-- **A fine of 600 out of a collateral of 400** takes the collateral, and still the miner owes all
of it. -/
theorem fine_counted_twice : ∃ info w', (indebted 400 0).miner.minerItems.lookup (1 : ℕ) = some info ∧
    (depositPunish runtime (1 : ℕ) 600).run (indebted 400 0) = .ok () w' ∧
    ¬ ∃ info', w'.miner.minerItems.lookup (1 : ℕ) = some info' ∧
      Fined runtime 600 info info' (indebted 400 0).ledger w'.ledger := by
  have hfine : afterFine 400 0 600 = some (0, 600) := by decide +kernel
  obtain ⟨w', info', h, hinfo', hleft⟩ := exists_of_afterFine hfine
  obtain ⟨hcollaterals, hdebt⟩ := Prod.mk.inj hleft
  refine ⟨_, w', rfl, h, ?_⟩
  rintro ⟨info₁, hinfo₁, hfined⟩
  obtain rfl := Option.mem_unique hinfo' hinfo₁
  have htotal : 400 - info'.collaterals + (info'.debt - 0) = 600 := hfined.total
  omega

/-! ## The fine for a failed service proof -/

/-- The terabytes that a space fills or starts. -/
def tibsOf (space : ℕ) : ℕ := space / tByte + if space % tByte ≠ 0 then 1 else 0

theorem calculateLimitBySpace_eq_some {space limit : ℕ} :
    calculateLimitBySpace space = some limit ↔
      baseUnit * tibsOf space < 2 ^ 128 ∧ baseUnit * tibsOf space = limit := by
  have hunit : 1 ≤ baseUnit := by decide
  have hle : tibsOf space ≤ baseUnit * tibsOf space := Nat.le_mul_of_pos_left _ hunit
  unfold tibsOf at hle ⊢
  simp only [calculateLimitBySpace, checkedDiv, if_neg (by decide : tByte ≠ 0),
    Option.bind_eq_bind, Option.bind_some]
  split_ifs at hle ⊢ with hrest
  · simp only [Option.bind_eq_some_iff, checkedAdd_eq_some, checkedMul_eq_some, existsAndEq]
    exact and_iff_right_of_imp fun h => ⟨lt_of_le_of_lt hle h.1, trivial⟩
  · simp only [checkedMul_eq_some, Nat.add_zero]

/-- The fine for a failed proof of service space is exact. -/
theorem serviceFine_eq (tibs : ℕ) :
    mulFloor (percent 5) (baseUnit * tibs) = 200000000000000000000 * tibs := by
  unfold mulFloor percent baseUnit
  omega

/-- **The fine of a snapshot**: five percent of the collateral for the power of that idle and service
space is demanded from the miner. -/
def FinedFor (w w' : Chain.World T) (miner : T.AccountId) (idleSpace serviceSpace : ℕ) : Prop :=
  ∃ limit info info', calculateLimitBySpace (calculatePower idleSpace serviceSpace) = some limit ∧
    w.miner.minerItems.lookup miner = some info ∧ w'.miner.minerItems.lookup miner = some info' ∧
    Demanded (mulFloor (percent 5) limit) info info'

section ServiceFine

variable {w w' : Chain.World T} {sender : T.AccountId} {signature : BoundedVec UInt8 64}
  {serviceBloomFilter : BloomFilter} {teePuk : T.WorkerPublicKey} {u : Unit}
  {challenge : Audit.ChallengeInfo T}
  (hchallenge : w.audit.challengeSnapShot.lookup sender = some challenge)
  (hfailed : Audit.failed w sender ≥ Audit.serviceFaultTolerant)
  (h : (Audit.submitVerifyServiceResult T sender false signature serviceBloomFilter teePuk).run w =
    .ok u w')

include hchallenge hfailed h

/-- The audit demands the fine of a snapshot with the service space for both. -/
theorem submitVerifyServiceResult_finedFor :
    FinedFor w w' sender challenge.minerSnapshot.serviceSpace
      challenge.minerSnapshot.serviceSpace := by
  have hfails : (Audit.Call.submitVerifyServiceResult sender false signature serviceBloomFilter
      teePuk).fails w = some sender := if_pos ⟨rfl, hfailed⟩
  cases Audit.submitVerifyServiceResult_run h with
  | @exchange miner info _ recorded outside _ complete snapShots v _ _ _ hinfo _ _ _ hpunish =>
    rw [hfails] at hpunish
    obtain ⟨hsender, u, hrun⟩ := hpunish.resolve_left fun hnone => by cases hnone.1
    obtain rfl : sender = miner := Option.some.inj hsender
    obtain rfl : challenge = info := Option.mem_unique hchallenge hinfo
    simp only [servicePunish, orElse, run_bind_ok, run_okOr_ok] at hrun
    obtain ⟨limit, _, ⟨hlimit, rfl⟩, hrun⟩ := hrun
    obtain ⟨info₁, info₂, hinfo₁, hinfo₂, hdemanded, -⟩ := depositPunish_ok hrun
    exact ⟨limit, info₁, info₂, hlimit, hinfo₁, hinfo₂, hdemanded⟩

/-- **When the fine for a failed proof is that of the challenged snapshot**: the powers of the idle
and service space and of twice the service space start the same number of terabytes. -/
theorem serviceFine_iff :
    FinedFor w w' sender challenge.minerSnapshot.idleSpace challenge.minerSnapshot.serviceSpace ↔
      tibsOf (calculatePower challenge.minerSnapshot.idleSpace
          challenge.minerSnapshot.serviceSpace) =
        tibsOf (calculatePower challenge.minerSnapshot.serviceSpace
          challenge.minerSnapshot.serviceSpace) := by
  obtain ⟨limit, info, info', hlimit, hinfo, hinfo', hdemanded⟩ :=
    submitVerifyServiceResult_finedFor hchallenge hfailed h
  obtain ⟨hfits, rfl⟩ := calculateLimitBySpace_eq_some.mp hlimit
  constructor
  · rintro ⟨limit, info₁, info₂, hlimit', hinfo₁, hinfo₂, hdemanded'⟩
    obtain rfl := Option.mem_unique hinfo hinfo₁
    obtain rfl := Option.mem_unique hinfo' hinfo₂
    obtain ⟨-, rfl⟩ := calculateLimitBySpace_eq_some.mp hlimit'
    have hfine := hdemanded'.unique hdemanded
    rw [serviceFine_eq, serviceFine_eq] at hfine
    omega
  · intro htibs
    rw [← htibs] at hfits hdemanded
    exact ⟨_, info, info', calculateLimitBySpace_eq_some.mpr ⟨hfits, rfl⟩, hinfo, hinfo', hdemanded⟩

end ServiceFine

end Sminer

namespace Chain

/-- The miner 10 has no service space.  Its service proof fails, and it has submitted the next one
when it is challenged for the second time. -/
def convicting : List (Runs.Part (Action runtime)) :=
  challenged 100 ++
    [.act (.call (.audit (.submitServiceProof (10 : ℕ) BoundedVec.empty))),
      .act (.call (.audit
        (.submitVerifyServiceResult (10 : ℕ) false signature (fun _ => 0) (7 : ℕ)))),
      .idle 81] ++ visitingBlock ++ [.idle 602] ++ visitingBlock ++ [.idle 2764114] ++ freshBlock ++
    [.act (.call (.audit (.submitServiceProof (10 : ℕ) BoundedVec.empty)))]

/-- The second result is a failure again. -/
structure Convicted (w w' : World runtime) (challenge : Audit.ChallengeInfo runtime) : Prop where
  challenge : w.audit.challengeSnapShot.lookup (10 : ℕ) = some challenge
  failed : Audit.failed w (10 : ℕ) ≥ Audit.serviceFaultTolerant
  run : (Audit.submitVerifyServiceResult runtime (10 : ℕ) false signature (fun _ => 0) (7 : ℕ)).run
    w = .ok () w'

/-- The collateral of the miner. -/
def World.collateralOfTen (w : World runtime) : Option ℕ :=
  (w.miner.minerItems.lookup (10 : ℕ)).map (·.collaterals)

/-- It costs the miner nothing, although there is idle space for which there should be a fine. -/
theorem exists_convicted : ∃ (n : Node runtime) (w' : World runtime)
    (challenge : Audit.ChallengeInfo runtime), Reached (fun _ _ => True) n ∧
      Convicted n.world w' challenge ∧ challenge.minerSnapshot.idleSpace = 6710886400 ∧
      challenge.minerSnapshot.serviceSpace = 0 ∧
      n.world.collateralOfTen = some Sminer.baseUnit ∧
      w'.collateralOfTen = some Sminer.baseUnit := by
  obtain ⟨n, hn, hcheck⟩ := exists_run convicting (fun n =>
    match (Audit.submitVerifyServiceResult runtime (10 : ℕ) false signature (fun _ => 0)
      (7 : ℕ)).run n.world with
    | .ok _ w' => (n.world.audit.challengeSnapShot.lookup (10 : ℕ)).any fun challenge =>
      decide (Audit.failed n.world (10 : ℕ) ≥ Audit.serviceFaultTolerant ∧
        challenge.minerSnapshot.idleSpace = 6710886400 ∧
        challenge.minerSnapshot.serviceSpace = 0 ∧
        n.world.collateralOfTen = some Sminer.baseUnit ∧
        w'.collateralOfTen = some Sminer.baseUnit)
    | .error _ _ => false) (by decide +kernel)
  split at hcheck
  · next u w' hrun =>
      simp only [Option.any_eq_true, decide_eq_true_eq] at hcheck
      obtain ⟨challenge, hchallenge, hfailed, hspace⟩ := hcheck
      exact ⟨n, w', challenge, hn, ⟨hchallenge, hfailed, hrun⟩, hspace⟩
  · cases hcheck

/-- The theorem on the fine, at that state. -/
theorem serviceFine_iff_convicted : ∃ (w w' : World runtime)
    (challenge : Audit.ChallengeInfo runtime), Convicted w w' challenge ∧
      (Sminer.FinedFor w w' (10 : ℕ) challenge.minerSnapshot.idleSpace
          challenge.minerSnapshot.serviceSpace ↔
        Sminer.tibsOf (Sminer.calculatePower challenge.minerSnapshot.idleSpace
            challenge.minerSnapshot.serviceSpace) =
          Sminer.tibsOf (Sminer.calculatePower challenge.minerSnapshot.serviceSpace
            challenge.minerSnapshot.serviceSpace)) := by
  obtain ⟨n, w', challenge, -, h, -⟩ := exists_convicted
  exact ⟨n.world, w', challenge, h, Sminer.serviceFine_iff h.challenge h.failed h.run⟩

/-- **A miner without service space is fined nothing.** -/
theorem convicted_without_fine : ∃ (n : Node runtime) (w' : World runtime)
    (challenge : Audit.ChallengeInfo runtime), Reached (fun _ _ => True) n ∧
      Convicted n.world w' challenge ∧
      ¬ Sminer.FinedFor n.world w' (10 : ℕ) challenge.minerSnapshot.idleSpace
        challenge.minerSnapshot.serviceSpace := by
  obtain ⟨n, w', challenge, hn, h, hidle, hservice, hbefore, hafter⟩ := exists_convicted
  refine ⟨n, w', challenge, hn, h, ?_⟩
  rintro ⟨limit, info, info', hlimit, hinfo, hinfo', hdemanded⟩
  have hc : some info.collaterals = some Sminer.baseUnit :=
    (congrArg (Option.map Sminer.MinerInfo.collaterals) hinfo).symm.trans hbefore
  have hc' : some info'.collaterals = some Sminer.baseUnit :=
    (congrArg (Option.map Sminer.MinerInfo.collaterals) hinfo').symm.trans hafter
  rw [hidle, hservice] at hlimit
  obtain ⟨-, rfl⟩ := Sminer.calculateLimitBySpace_eq_some.mp hlimit
  have hcollaterals := hdemanded.collaterals
  rw [Option.some.inj hc, Option.some.inj hc'] at hcollaterals
  revert hcollaterals
  decide

end Chain
