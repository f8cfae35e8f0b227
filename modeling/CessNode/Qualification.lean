/-
# Collateral out of the reservoir

Before a miner may use collateral of the reservoir, `check_qualification` adds up what its staking
account has free, in its loan and in its passbook.  The amount is then staked by `staking`, first out
of the loan.  The check does not look at the time of the loan; `staking` does, and drops a loan whose
time is over, with all that is free and staked of it.

* `exists_staking_iff` : what a successful `staking` makes of a loan and a passbook;
* `qualified_iff` : when an account that passes the check can stake;
* `qualified_in_vain` : an account that passes the check and cannot.
-/
import CessNode.ReservoirBooks

open Dispatch Chain StorageMap

namespace Reservoir

variable {T : Config} {w w' : World T} {acc : T.AccountId} {amount : ℕ}

/-- The loan and the passbook of an account. -/
def Storage.accountOf (s : Storage T) (acc : T.AccountId) :
    Option (BorrowInfo T.AccountId) × UserHold :=
  (s.borrowList.lookup acc, s.passbookOf acc)

/-- **What is staked of a passbook**, after the loan. -/
theorem exists_staking_iff {P : Option (BorrowInfo T.AccountId) × UserHold → Prop} :
    (∃ w', (staking T acc amount true).run w = .ok () w' ∧ P (w'.reservoir.accountOf acc)) ↔
      ∃ left w₁, (stakeBorrowed T acc amount).run w = .ok left w₁ ∧
        (∃ ledger, T.reserve w₁.ledger T.reservoirAcc amount = some ledger) ∧
        left ≤ (w₁.reservoir.passbookOf acc).free ∧
        (left ≠ 0 → (w₁.reservoir.passbookOf acc).staking + left < 2 ^ 128) ∧
        P (w₁.reservoir.borrowList.lookup acc,
          { free := (w₁.reservoir.passbookOf acc).free - left
            staking := (w₁.reservoir.passbookOf acc).staking + left }) := by
  have hput : ∀ (s : Storage T) hold, Storage.accountOf { s with
      userPassbook := s.userPassbook.insert acc hold } acc = (s.borrowList.lookup acc, hold) := by
    simp [Storage.accountOf, Storage.passbookOf]
  simp only [staking, run_ite_ok, run_ok, orElse, Reservoir.putPassbook, modifyStorage,
    run_reserveFor_ok, checkedAdd_eq_some, checkedSub_eq_some, existsAndEq, if_true]
  constructor
  · rintro ⟨w', ⟨left, w₁, hborrow, ⟨-, hle, hfit, ledger, hledger, rfl⟩ | ⟨hzero, ledger, hledger,
      rfl⟩⟩, hP⟩
    · exact ⟨left, w₁, hborrow, ⟨ledger, hledger⟩, hle, fun _ => hfit, by rwa [← hput]⟩
    · obtain rfl := not_not.mp hzero
      exact ⟨0, w₁, hborrow, ⟨ledger, hledger⟩, Nat.zero_le _, fun h => absurd rfl h, hP⟩
  · rintro ⟨left, w₁, hborrow, ⟨ledger, hledger⟩, hle, hfit, hP⟩
    by_cases hzero : left = 0
    · subst hzero
      exact ⟨_, ⟨0, w₁, hborrow, .inr ⟨not_not.mpr rfl, ledger, hledger, rfl⟩⟩, hP⟩
    · refine ⟨_, ⟨left, w₁, hborrow, .inl ⟨hzero, hle, hfit hzero, ledger, hledger, rfl⟩⟩, ?_⟩
      rwa [← hput] at hP

/-- **What staking should do**: the amount moves from what is free to what is staked, and neither
the loan nor the passbook loses a stake. -/
@[mk_iff]
structure Moves (amount : ℕ) (x x' : Option (BorrowInfo T.AccountId) × UserHold) : Prop where
  free : (x'.1.map BorrowInfo.free).getD 0 + x'.2.free + amount =
    (x.1.map BorrowInfo.free).getD 0 + x.2.free
  loan : (x.1.map BorrowInfo.staking).getD 0 ≤ (x'.1.map BorrowInfo.staking).getD 0
  hold : x.2.staking ≤ x'.2.staking
  staking : (x'.1.map BorrowInfo.staking).getD 0 + x'.2.staking =
    (x.1.map BorrowInfo.staking).getD 0 + x.2.staking + amount

/-- **What it takes**: a loan whose time is over is empty, and the stakes do not overflow. -/
@[mk_iff]
structure Stakable (w : World T) (acc : T.AccountId) (amount : ℕ) : Prop where
  expired : ∀ info, w.reservoir.borrowList.lookup acc = some info → info.deadline ≤ w.now →
    info.free = 0 ∧ info.staking = 0
  loan : ∀ info, w.reservoir.borrowList.lookup acc = some info → w.now < info.deadline →
    info.staking + min info.free amount < 2 ^ 128
  hold : ((w.reservoir.borrowList.lookup acc).map BorrowInfo.free).getD 0 < amount →
    (w.reservoir.passbookOf acc).staking +
      (amount - ((w.reservoir.borrowList.lookup acc).map BorrowInfo.free).getD 0) < 2 ^ 128

/-- **When a qualified account can stake.** -/
theorem qualified_iff (hcheck : (checkQualification T acc amount).run w = .ok () w)
    (hreserve : ∃ ledger, T.reserve w.ledger T.reservoirAcc amount = some ledger) :
    (∃ w', (staking T acc amount true).run w = .ok () w' ∧
      Moves amount (w.reservoir.accountOf acc) (w'.reservoir.accountOf acc)) ↔
    Stakable w acc amount := by
  simp only [checkQualification, orElse, run_ok, checkedAdd_eq_some, existsAndEq] at hcheck
  obtain ⟨-, hfree, -⟩ := hcheck
  have hhold : ∀ l, Storage.passbookOf { w.reservoir with borrowList := l } acc =
      w.reservoir.passbookOf acc := fun _ => rfl
  have hledger : ∀ l, World.ledger { w with reservoir := { w.reservoir with borrowList := l } } =
      w.ledger := fun _ => rfl
  rw [exists_staking_iff, stakable_iff]
  simp only [run_stakeBorrowed_ok, Storage.accountOf, moves_iff]
  cases hinfo : w.reservoir.borrowList.lookup acc with
  | none =>
    simp only [hinfo, hreserve, existsAndEq, reduceCtorEq, false_imp_iff, implies_true, true_and,
      false_and, exists_false, or_false, Option.map_none, Option.getD_none] at hfree ⊢
    omega
  | some info =>
    rw [hinfo] at hfree
    simp only [reduceCtorEq, false_and, false_or, Option.map_some,
      Option.getD_some, Option.some.injEq, forall_eq'] at hfree ⊢
    by_cases hlive : w.now < info.deadline
    · simp only [hlive, hhold, hledger, hreserve, existsAndEq, not_true, true_and, and_true, false_and,
        or_false, true_imp_iff, AList.lookup_insert, Option.map_some, Option.getD_some]
      omega
    · simp only [hlive, hhold, hledger, hreserve, existsAndEq, not_false_iff, true_and, false_and,
        false_or, AList.lookup_erase, Option.map_none, Option.getD_none]
      omega
end Reservoir

namespace Chain

open Reservoir

/-- The account 10 with twice the collateral for a terabyte: half of it borrowed, half of it stored. -/
def Node.qualified (n : Node runtime) : Bool :=
  (succeeds (checkQualification runtime (10 : ℕ) (2 * Sminer.baseUnit)) n.world).isSome &&
    (runtime.reserve n.world.ledger (104 : ℕ) (2 * Sminer.baseUnit)).isSome

theorem run_of_qualified {n : Node runtime} (h : n.qualified = true) :
    (checkQualification runtime (10 : ℕ) (2 * Sminer.baseUnit)).run n.world = .ok () n.world ∧
      ∃ ledger, runtime.reserve n.world.ledger (104 : ℕ) (2 * Sminer.baseUnit) = some ledger := by
  obtain ⟨hcheck, hreserve⟩ := Bool.and_eq_true_iff.mp h
  refine ⟨?_, Option.isSome_iff_exists.mp hreserve⟩
  unfold Dispatch.succeeds at hcheck
  split at hcheck
  · next u w' hrun =>
      rw [hrun, (keeps_checkQualification (R := Eq) _ _).run_ok hrun]
  · cases hcheck

/-- The account can use both as long as the loan lasts. -/
theorem qualified_iff_borrowed : ∃ n : Node runtime, n.qualified = true ∧
    ((∃ w', (staking runtime (10 : ℕ) (2 * Sminer.baseUnit) true).run n.world = .ok () w' ∧
      Moves (2 * Sminer.baseUnit) (n.world.reservoir.accountOf (10 : ℕ))
        (w'.reservoir.accountOf (10 : ℕ))) ↔
      Stakable n.world (10 : ℕ) (2 * Sminer.baseUnit)) := by
  obtain ⟨n, -, h⟩ := exists_run borrowing Node.qualified (by decide +kernel)
  obtain ⟨hcheck, hreserve⟩ := run_of_qualified h
  exact ⟨n, h, qualified_iff hcheck hreserve⟩

/-- **A loan whose time is over counts for the check, but cannot be staked.** -/
theorem qualified_in_vain : ∃ n : Node runtime, Reached (fun _ _ => True) n ∧
    (checkQualification runtime (10 : ℕ) (2 * Sminer.baseUnit)).run n.world = .ok () n.world ∧
    (∃ ledger, runtime.reserve n.world.ledger (104 : ℕ) (2 * Sminer.baseUnit) = some ledger) ∧
    ∀ w', (staking runtime (10 : ℕ) (2 * Sminer.baseUnit) true).run n.world ≠ .ok () w' := by
  obtain ⟨n, hn, h⟩ := exists_run (borrowing ++ [.idle 200]) (fun n => n.qualified &&
    (succeeds (staking runtime (10 : ℕ) (2 * Sminer.baseUnit) true) n.world).isNone)
    (by decide +kernel)
  obtain ⟨hqualified, hnone⟩ := Bool.and_eq_true_iff.mp h
  obtain ⟨hcheck, hreserve⟩ := run_of_qualified hqualified
  refine ⟨n, hn, hcheck, hreserve, fun w' hrun => ?_⟩
  unfold Dispatch.succeeds at hnone
  rw [hrun] at hnone
  cases hnone

end Chain
