/-
# The books of the reservoir

The reservoir keeps three sums: what it can lend, what it has lent, and what accounts have stored.
The second one should be the sum of all loans and the third one the sum of all passbooks, and the
account of the pallet should hold all three.

* `World.Balanced` : the three conditions;
* `solvent_redeem`, `staking_balanced` and `Call.code_balanced` : the operations that keep them.
  Nothing else touches the books, and nothing else takes money from the account of the reservoir;
* `Steady` : what they need.  Three operations of the code forget about the sums.  `staking` drops
  a loan whose time is over without booking it back, `punish` takes from a loan or a passbook
  without lowering any sum, and a debt of a miner with borrowed collateral is paid by the
  reservoir;
* `books_balance` : in runs without these, the books balance in every state;
* `books_unbalanced` : a loan dropped by `staking`.
-/
import CessNode.ChainMoney
import CessNode.ChainRuntime

open Dispatch StorageMap
open StorageHandler (alice)

namespace Chain

variable {T : Config}

/-- What the account of the reservoir holds, with what is in reserve. -/
def World.purse (w : World T) : ℕ :=
  T.free w.ledger T.reservoirAcc + T.reserved w.ledger T.reservoirAcc

/-- **The books balance.** -/
@[mk_iff]
structure World.Balanced (w : World T) : Prop where
  borrow : w.reservoir.reservoir.borrowBalance =
    w.reservoir.borrowList.total fun _ info => info.free + info.staking
  store : w.reservoir.reservoir.storeBalance =
    w.reservoir.userPassbook.total fun _ hold => hold.free + hold.staking
  purse : w.reservoir.reservoir.freeBalance + w.reservoir.reservoir.borrowBalance +
    w.reservoir.reservoir.storeBalance ≤ w.purse

/-- The books balance afterwards if they did before. -/
def World.Solvent (w w' : World T) : Prop := w.Balanced → w'.Balanced

instance : Std.Refl (World.Solvent (T := T)) where
  refl _ := id

instance : IsTrans (World T) World.Solvent where
  trans _ _ _ h h' := h' ∘ h

section Solvent

variable {w w' : World T}

variable (hreservoir : w'.reservoir = w.reservoir)
include hreservoir

theorem World.Solvent.of_purse (hpurse : w.purse ≤ w'.purse) : w.Solvent w' := by
  intro hw
  rw [World.balanced_iff, hreservoir]
  exact ⟨hw.borrow, hw.store, hw.purse.trans hpurse⟩

theorem World.Solvent.of_unspent (h : T.Unspent T.reservoirAcc w.ledger w'.ledger) :
    w.Solvent w' := by
  refine .of_purse hreservoir ?_
  unfold World.purse
  rw [h.2]
  exact Nat.add_le_add_right h.1 _

theorem World.Solvent.of_ledger (hledger : w'.ledger = w.ledger) : w.Solvent w' := by
  refine .of_unspent hreservoir ?_
  rw [hledger]
  exact .refl _ _

omit hreservoir

/-! ## The currency -/

variable (hlaw : ExactCurrency T)
include hlaw

theorem ExactCurrency.purse_reserve {acc : T.AccountId} {v : ℕ} {ledger : T.Ledger}
    (h : T.reserve w.ledger acc v = some ledger) : (w.setLedger ledger).purse = w.purse := by
  have hfree := hlaw.reserve_free h T.reservoirAcc
  have hreserved := hlaw.reserve_reserved h T.reservoirAcc
  show T.free ledger _ + T.reserved ledger _ = T.free w.ledger _ + T.reserved w.ledger _
  omega

theorem ExactCurrency.purse_unreserve (acc : T.AccountId) (v : ℕ) :
    (w.setLedger (T.unreserve w.ledger acc v)).purse = w.purse := by
  have hfree := hlaw.unreserve_free w.ledger acc v T.reservoirAcc
  have hreserved := hlaw.unreserve_reserved w.ledger acc v T.reservoirAcc
  show T.free (T.unreserve w.ledger acc v) _ + T.reserved (T.unreserve w.ledger acc v) _ =
    T.free w.ledger _ + T.reserved w.ledger _
  rw [hfree, hreserved]
  split_ifs with hacc
  · rw [hacc]
    omega
  · rfl

/-- What is paid to the reservoir. -/
theorem ExactCurrency.purse_in {src : T.AccountId} {v : ℕ} {ledger : T.Ledger}
    (h : T.transfer w.ledger src T.reservoirAcc v = some ledger) (hsrc : T.reservoirAcc ≠ src) :
    (w.setLedger ledger).purse = w.purse + v := by
  have hfree := hlaw.transfer_free h T.reservoirAcc
  have hreserved := hlaw.transfer_reserved h T.reservoirAcc
  rw [if_neg hsrc, if_pos rfl] at hfree
  show T.free ledger _ + T.reserved ledger _ = T.free w.ledger _ + T.reserved w.ledger _ + v
  omega

/-- What the reservoir pays. -/
theorem ExactCurrency.purse_out {dst : T.AccountId} {v : ℕ} {ledger : T.Ledger}
    (h : T.transfer w.ledger T.reservoirAcc dst v = some ledger) :
    w.purse ≤ (w.setLedger ledger).purse + v := by
  have hfree := hlaw.transfer_free h T.reservoirAcc
  have hreserved := hlaw.transfer_reserved h T.reservoirAcc
  rw [if_pos rfl] at hfree
  show T.free w.ledger _ + T.reserved w.ledger _ ≤ T.free ledger _ + T.reserved ledger _ + v
  omega

theorem solvent_reserveFor (miner acc : T.AccountId) (amount : ℕ) :
    Keeps World.Solvent (reserveFor T miner acc amount) :=
  keeps_reserveFor fun _ _ h => .of_purse rfl (hlaw.purse_reserve h).ge

theorem solvent_unreserveFor (miner acc : T.AccountId) (amount : ℕ) :
    Keeps World.Solvent (unreserveFor T miner acc amount) :=
  keeps_unreserveFor fun _ => .of_purse rfl (hlaw.purse_unreserve acc amount).ge

theorem solvent_currencyTransfer {src : T.AccountId} (hsrc : T.reservoirAcc ≠ src)
    (dst : T.AccountId) (amount : ℕ) : Keeps World.Solvent (currencyTransfer T src dst amount) :=
  keeps_currencyTransfer fun _ _ h => .of_unspent rfl (hlaw.unspent_transfer h hsrc)

omit hlaw

theorem solvent_modify {f : World T → World T} (hreservoir : ∀ w, (f w).reservoir = w.reservoir)
    (hledger : ∀ w, (f w).ledger = w.ledger) : Keeps World.Solvent (modify f : ChainM T PUnit) :=
  keeps_modify fun w => .of_ledger (hreservoir w) (hledger w)

theorem solvent_modifyMiner (f : Sminer.World T.AccountId → Sminer.World T.AccountId) :
    Keeps World.Solvent (modifyMiner T f) :=
  solvent_modify (fun _ => rfl) fun _ => rfl

theorem solvent_mutateMiner {acc : T.AccountId} {e : Sminer.Error}
    {f : Sminer.MinerInfo T.AccountId → ChainM T (Sminer.MinerInfo T.AccountId)}
    (hf : ∀ info, Keeps World.Solvent (f info)) : Keeps World.Solvent (mutateMiner T acc e f) :=
  keeps_tryMutate (fun info => keeps_bind (hf info) fun _ => keeps_pure _)
    fun _ _ => .of_ledger rfl rfl

/-- The account of the reservoir is none of the two from which rewards are paid. -/
theorem reservoirAcc_ne_reward (hpallets : T.palletAccounts.Nodup) {src : T.AccountId}
    (h : src = T.minerReward ∨ src = T.reserveReward) : T.reservoirAcc ≠ src := by
  unfold Config.palletAccounts at hpallets
  simp only [List.nodup_cons, List.mem_cons, not_or] at hpallets
  obtain ⟨⟨-, -, hminer, -⟩, -, ⟨hreserve, -⟩, -⟩ := hpallets
  rcases h with rfl | rfl
  · exact Ne.symm hminer
  · exact Ne.symm hreserve

theorem solvent_allowsRewards (hlaw : ExactCurrency T) (hpallets : T.palletAccounts.Nodup) :
    AllowsRewards (World.Solvent (T := T)) where
  event _ _ := .of_ledger rfl rfl
  treasury _ _ := .of_ledger rfl rfl
  rewards _ _ _ _ := .of_ledger rfl rfl
  pay _ _ _ _ _ hsrc h :=
    .of_unspent rfl (hlaw.unspent_transfer h (reservoirAcc_ne_reward hpallets hsrc))

end Solvent

end Chain

/-! ## The operations of the reservoir -/

namespace Reservoir

open Chain

variable {T : Config} {w w' : World T} {u : Unit}
variable {acc sender : T.AccountId} {amount : ℕ}

/-- A passbook is written. -/
theorem total_putPassbook (s : Storage T) (acc : T.AccountId) (hold : UserHold) :
    total (s.userPassbook.insert acc hold) (fun _ hold => hold.free + hold.staking) +
        ((s.passbookOf acc).free + (s.passbookOf acc).staking) =
      s.userPassbook.total (fun _ hold => hold.free + hold.staking) + (hold.free + hold.staking) := by
  unfold Storage.passbookOf
  cases hold₀ : s.userPassbook.lookup acc with
  | none => exact total_insert_new hold (fun _ hold => hold.free + hold.staking) hold₀
  | some hold' => exact total_insert_over hold (fun _ hold => hold.free + hold.staking) hold₀

/-- What is stored in a passbook is booked another way. -/
theorem Balanced.putPassbook (hw : w.Balanced) {hold : UserHold} (hsame : hold.free + hold.staking =
      (w.reservoir.passbookOf acc).free + (w.reservoir.passbookOf acc).staking) :
    World.Balanced { w with reservoir := { w.reservoir with
      userPassbook := w.reservoir.userPassbook.insert acc hold } } := by
  refine ⟨hw.borrow, ?_, hw.purse⟩
  have htotal := total_putPassbook w.reservoir acc hold
  have hstore := hw.store
  dsimp only
  omega

/-- A loan is booked another way. -/
theorem Balanced.putBorrow (hw : w.Balanced) {info info' : BorrowInfo T.AccountId}
    (hinfo : w.reservoir.borrowList.lookup acc = some info)
    (hsame : info'.free + info'.staking = info.free + info.staking) :
    World.Balanced { w with reservoir := { w.reservoir with
      borrowList := w.reservoir.borrowList.insert acc info' } } := by
  refine ⟨?_, hw.store, hw.purse⟩
  have htotal := total_insert_over info' (fun _ info => info.free + info.staking) hinfo
  have hborrow := hw.borrow
  dsimp only at htotal ⊢
  omega

/-- The second half of `redeem`: the rest is taken from the loan. -/
theorem solvent_redeemBorrow (acc : T.AccountId) (needAmount : ℕ) {next : ChainM T Unit}
    (hnext : Keeps World.Solvent next) :
    Keeps World.Solvent (do
      let w ← get
      let borrowInfo ← orElse T (w.reservoir.borrowList.lookup acc) .bugInvalid
      ensure (borrowInfo.staking ≥ needAmount) (.reservoir .bugInvalid)
      let borrowInfo ← orElse T (do
        let free ← checkedAdd 128 borrowInfo.free needAmount
        pure { borrowInfo with free := free, staking := borrowInfo.staking - needAmount }) .overflow
      Reservoir.putBorrow T acc borrowInfo
      next) := by
  intro w hw
  unfold orElse
  rw [after_get_bind]
  cases hinfo : w.reservoir.borrowList.lookup acc with
  | none => exact hw
  | some info =>
    rw [after_okOr_some_bind]
    unfold ensure
    by_cases hstaking : info.staking ≥ needAmount
    · rw [if_pos hstaking]
      cases hfree : checkedAdd 128 info.free needAmount with
      | none => exact hw
      | some free =>
        obtain ⟨-, rfl⟩ := checkedAdd_eq_some.mp hfree
        refine hnext _ (Balanced.putBorrow hw hinfo ?_)
        dsimp only
        omega
    · rw [if_neg hstaking]
      exact hw

/-- **`redeem` keeps the books**, also if it stops on the way. -/
theorem solvent_redeem (acc : T.AccountId) (amount : ℕ) :
    Keeps World.Solvent (redeem T acc amount false) := by
  intro w hw
  unfold redeem release
  rw [after_get_bind]
  generalize hhold : w.reservoir.passbookOf acc = hold
  dsimp only
  cases hfree : checkedAdd 128 hold.free (min hold.staking amount) with
  | none => exact hw
  | some free =>
    obtain ⟨-, rfl⟩ := checkedAdd_eq_some.mp hfree
    have hfirst : World.Balanced { w with reservoir := { w.reservoir with
        userPassbook := w.reservoir.userPassbook.insert acc
          { free := hold.free + min hold.staking amount
            staking := hold.staking - min hold.staking amount } } } := by
      refine Balanced.putPassbook hw ?_
      rw [hhold]
      dsimp only
      omega
    by_cases hneed : amount - min hold.staking amount ≠ 0
    · rw [if_pos hneed]
      exact solvent_redeemBorrow acc _ (keeps_pure ()) _ hfirst
    · rw [if_neg hneed]
      exact hfirst

/-- The time of the loan of an account is not over. -/
def Current (w : World T) (acc : T.AccountId) : Prop :=
  ∀ info ∈ w.reservoir.borrowList.lookup acc, w.now < info.deadline

/-- **What is staked of a loan.**  A loan whose time is over is dropped. -/
theorem run_stakeBorrowed_ok {left : ℕ} : (stakeBorrowed T acc amount).run w = .ok left w' ↔
    (w.reservoir.borrowList.lookup acc = none ∧ amount = left ∧ w = w') ∨
    ∃ info, w.reservoir.borrowList.lookup acc = some info ∧
      (w.now < info.deadline ∧ info.staking + min info.free amount < 2 ^ 128 ∧
        amount - info.free = left ∧
        { w with reservoir := { w.reservoir with
          borrowList := w.reservoir.borrowList.insert acc { info with
            free := info.free - amount, staking := info.staking + min info.free amount } } } = w' ∨
      ¬ w.now < info.deadline ∧ amount = left ∧
        { w with reservoir := { w.reservoir with
          borrowList := w.reservoir.borrowList.erase acc } } = w') := by
  simp only [stakeBorrowed, run_ok, existsAndEq]
  cases hinfo : w.reservoir.borrowList.lookup acc with
  | none => simp
  | some info =>
    simp only [run_ite_ok, run_ok, orElse, Reservoir.putBorrow, modifyStorage, checkedAdd_eq_some,
      checkedSub_eq_some]
    by_cases hle : amount ≤ info.free
    · simp [hle]
    · have hge : info.free ≤ amount := (not_le.mp hle).le
      simp [hle, hge]

theorem stakeBorrowed_balanced {left : ℕ} (hloan : Current w acc) (hw : w.Balanced)
    (h : (stakeBorrowed T acc amount).run w = .ok left w') : w'.Balanced := by
  rcases run_stakeBorrowed_ok.mp h with ⟨-, -, rfl⟩ | ⟨info, hinfo, ⟨-, -, -, rfl⟩ | ⟨hover, -⟩⟩
  · exact hw
  · refine Balanced.putBorrow hw hinfo ?_
    dsimp only
    omega
  · exact absurd (hloan info hinfo) hover

/-- **`staking` keeps the books**, unless it finds a loan whose time is over. -/
theorem staking_balanced (hlaw : ExactCurrency T) {flag : Bool} (hloan : Current w acc)
    (hw : w.Balanced) (h : (staking T acc amount flag).run w = .ok u w') : w'.Balanced := by
  have hlast : Keeps World.Solvent (if flag = true then reserveFor T acc T.reservoirAcc amount else
      pure ()) := keeps_ite (fun _ => solvent_reserveFor hlaw _ _ _) fun _ => keeps_pure _
  obtain ⟨left, w₁, hborrow, h⟩ := run_bind_ok.mp h
  have hw₁ := stakeBorrowed_balanced hloan hw hborrow
  rcases run_ite_ok.mp h with ⟨-, h⟩ | ⟨-, h⟩
  · simp only [run_ok, orElse, Reservoir.putPassbook, modifyStorage, checkedAdd_eq_some,
      checkedSub_eq_some, existsAndEq] at h
    obtain ⟨hle, -, h⟩ := h
    refine hlast.run_ok h (Balanced.putPassbook hw₁ ?_)
    dsimp only
    omega
  · exact hlast.run_ok h hw₁

/-! ## Calls -/

theorem run_tryMutateReservoir_ok {f : ReservoirInfo → Option ReservoirInfo} :
    (tryMutateReservoir T f).run w = .ok u w' ↔ ∃ info, f w.reservoir.reservoir = some info ∧
      { w with reservoir := { w.reservoir with reservoir := info } } = w' := by
  simp only [tryMutateReservoir, orElse, modifyStorage, run_ok, existsAndEq]

variable (hlaw : ExactCurrency T)
include hlaw

theorem filling_balanced (hsender : T.reservoirAcc ≠ sender) (hw : w.Balanced)
    (h : (filling T sender amount).run w = .ok u w') : w'.Balanced := by
  simp only [filling, depositEvent, run_ok, run_currencyTransfer_ok, run_tryMutateReservoir_ok,
    Option.bind_eq_bind, Option.pure_def, Option.bind_eq_some_iff, Option.some.injEq,
    checkedAdd_eq_some, existsAndEq] at h
  obtain ⟨ledger, htransfer, -, rfl⟩ := h
  have hin := hlaw.purse_in htransfer hsender
  simp only [World.balanced_iff, World.purse, World.setLedger, World.ledger] at hw hin ⊢
  omega

theorem store_balanced (hsender : T.reservoirAcc ≠ sender) (hw : w.Balanced)
    (h : (store T sender amount).run w = .ok u w') : w'.Balanced := by
  simp only [store, depositEvent, orElse, Reservoir.putPassbook, modifyStorage, run_ok,
    run_currencyTransfer_ok, run_tryMutateReservoir_ok, Option.bind_eq_bind, Option.pure_def,
    Option.bind_eq_some_iff, Option.some.injEq, checkedAdd_eq_some, existsAndEq] at h
  obtain ⟨ledger, htransfer, -, -, rfl⟩ := h
  have hin := hlaw.purse_in htransfer hsender
  have htotal := total_putPassbook w.reservoir sender
    { free := (w.reservoir.passbookOf sender).free + amount
      staking := (w.reservoir.passbookOf sender).staking }
  simp only [World.balanced_iff, World.purse, World.setLedger, World.ledger] at hw hin htotal ⊢
  omega

theorem withdraw_balanced (hw : w.Balanced) (h : (withdraw T sender amount).run w = .ok u w') :
    w'.Balanced := by
  simp only [withdraw, depositEvent, orElse, Reservoir.putPassbook, modifyStorage, run_ok,
    run_currencyTransfer_ok, run_tryMutateReservoir_ok, Option.bind_eq_bind, Option.pure_def,
    Option.bind_eq_some_iff, Option.some.injEq, checkedSub_eq_some, existsAndEq] at h
  obtain ⟨hfree, hle, ledger, htransfer, rfl⟩ := h
  have hout := hlaw.purse_out htransfer
  have htotal := total_putPassbook w.reservoir sender
    { free := (w.reservoir.passbookOf sender).free - amount
      staking := (w.reservoir.passbookOf sender).staking }
  simp only [World.balanced_iff, World.purse, World.setLedger, World.ledger] at hw hout htotal hle ⊢
  omega

theorem eventWithdraw_balanced {target : T.AccountId} (hw : w.Balanced)
    (h : (eventWithdraw T amount target).run w = .ok u w') : w'.Balanced := by
  simp only [eventWithdraw, depositEvent, run_ok, run_currencyTransfer_ok,
    run_tryMutateReservoir_ok, Option.bind_eq_bind, Option.pure_def, Option.bind_eq_some_iff,
    Option.some.injEq, checkedSub_eq_some, existsAndEq] at h
  obtain ⟨ledger, htransfer, hle, rfl⟩ := h
  have hout := hlaw.purse_out htransfer
  simp only [World.balanced_iff, World.purse, World.setLedger, World.ledger] at hw hout hle ⊢
  omega

omit hlaw

/-- The events do not matter for the books. -/
theorem Balanced.putEvents (hw : w.Balanced)
    (events : StorageMap (BoundedVec UInt8 T.idLength) EventInfo)
    (records : StorageMap ℕ (BoundedVec (BoundedVec UInt8 T.idLength) T.eventLimit))
    (log : List (Event T)) :
    World.Balanced { w with
      events := log
      reservoir := { w.reservoir with events := events, eventExpiredRecords := records } } :=
  ⟨hw.borrow, hw.store, hw.purse⟩

theorem createEvent_balanced {id : BoundedVec UInt8 T.idLength} {info : EventInfo}
    (hw : w.Balanced) (h : (createEvent T id info).run w = .ok u w') : w'.Balanced := by
  simp only [createEvent, depositEvent, orElse, modifyStorage, run_ok, existsAndEq] at h
  obtain ⟨-, expired, -, list, -, rfl⟩ := h
  exact Balanced.putEvents hw _ _ _

/-- A loan that is over goes back. -/
theorem returnLoan_balanced (hw : w.Balanced) (h : (returnLoan T sender).run w = .ok u w') :
    w'.Balanced ∧ w'.reservoir.borrowList.lookup sender = none := by
  obtain ⟨_, _, hget, h⟩ := run_bind_ok.mp h
  obtain ⟨rfl, rfl⟩ := run_get_ok.mp hget
  cases hinfo : w.reservoir.borrowList.lookup sender with
  | none =>
    rw [hinfo] at h
    obtain ⟨-, rfl⟩ := run_pure_ok.mp h
    exact ⟨hw, hinfo⟩
  | some info =>
    rw [hinfo] at h
    simp only [modifyStorage, run_ok, run_tryMutateReservoir_ok, Option.bind_eq_bind,
      Option.pure_def, Option.bind_eq_some_iff, Option.some.injEq, checkedAdd_eq_some,
      checkedSub_eq_some, existsAndEq] at h
    obtain ⟨-, hstaking, hle, -, rfl⟩ := h
    have htotal := total_erase (fun _ info => info.free + info.staking) hinfo
    refine ⟨?_, AList.lookup_erase _ _⟩
    simp only [World.balanced_iff, World.purse, World.ledger] at hw htotal ⊢
    omega

theorem attendEvent_balanced {id : BoundedVec UInt8 T.idLength} (hw : w.Balanced)
    (h : (attendEvent T sender id).run w = .ok u w') : w'.Balanced := by
  simp only [attendEvent, depositEvent, orElse, Reservoir.putBorrow, modifyStorage, run_ok,
    run_tryMutate_ok, run_tryMutateReservoir_ok, Option.bind_eq_bind, Option.pure_def,
    Option.bind_eq_some_iff, Option.some.injEq, Prod.mk.injEq, checkedAdd_eq_some,
    checkedSub_eq_some, existsAndEq] at h
  obtain ⟨-, _, w₁, hloan, event, -, -, -, -, -, hle, rfl⟩ := h
  obtain ⟨hw₁, hnone⟩ := returnLoan_balanced hw hloan
  have htotal := total_insert_new
    { free := event.unitAmount, lender := T.reservoirAcc, staking := 0,
      deadline := w₁.now + event.borrowPeriod } (fun _ info => info.free + info.staking) hnone
  simp only [World.balanced_iff, World.purse, World.ledger] at hw₁ htotal hle ⊢
  omega

/-- **The calls of the reservoir keep the books.** -/
theorem Call.code_balanced (hlaw : ExactCurrency T) {call : Call T} (hsigned : Signed call.signer)
    (hw : w.Balanced) (h : (call.code T).run w = .ok u w') : w'.Balanced := by
  have hkey : T.reservoirAcc ∈ T.palletAccounts := by simp [Config.palletAccounts]
  cases call with
  | filling => exact filling_balanced hlaw (hsigned.ne rfl hkey) hw h
  | store => exact store_balanced hlaw (hsigned.ne rfl hkey) hw h
  | withdraw => exact withdraw_balanced hlaw hw h
  | eventWithdraw => exact eventWithdraw_balanced hlaw hw h
  | createEvent => exact createEvent_balanced hw h
  | attendEvent => exact attendEvent_balanced hw h

/-- The hook only ends events. -/
theorem solvent_onInitialize : Keeps World.Solvent (Reservoir.onInitialize T) := by
  refine keeps_get_bind fun w => keeps_forM fun id _ => ?_
  refine keeps_bind (keeps_modify fun w hw => ?_) fun _ => solvent_modify (fun _ => rfl) fun _ => rfl
  exact Balanced.putEvents hw _ _ _

end Reservoir

/-! ## The code of sminer -/

namespace Sminer

open Chain

variable {T : Config} {w w' : Chain.World T} {u : Unit}

/-- The collateral of the miner is not a loan. -/
def OwnStake (w : Chain.World T) (miner : T.AccountId) : Prop :=
  ∀ info ∈ w.miner.minerItems.lookup miner, info.stakingAccount ≠ T.reservoirAcc

variable (hlaw : ExactCurrency T)
include hlaw

theorem solvent_releaseCollateral (miner : T.AccountId) (info : MinerInfo T.AccountId) :
    Keeps World.Solvent (releaseCollateral T miner info) := by
  refine keeps_ite (fun _ => ?_) fun _ => solvent_unreserveFor hlaw _ _ _
  exact keeps_bind (Reservoir.solvent_redeem _ _) fun _ => solvent_unreserveFor hlaw _ _ _

theorem solvent_expel (hpallets : T.palletAccounts.Nodup) (acc : T.AccountId)
    (info : MinerInfo T.AccountId) : Keeps World.Solvent (expel T acc info) := by
  refine keeps_bind ((solvent_allowsRewards hlaw hpallets).settleExit
    (solvent_releaseCollateral hlaw _ _) fun _ _ => solvent_modifyMiner _) fun _ => ?_
  refine keeps_bind (keeps_subTotalIdleSpace (fun _ _ => .of_ledger rfl rfl) _) fun _ => ?_
  refine keeps_bind ?_ fun _ => keeps_ensure_bind <| keeps_pure _
  exact keeps_get_bind fun _ => keeps_okOr_bind fun _ => solvent_modifyMiner _

/-- **A forced exit keeps the books**, also if it stops on the way. -/
theorem solvent_forceMinerExit (hpallets : T.palletAccounts.Nodup) (acc : T.AccountId) :
    Keeps World.Solvent (forceMinerExit T acc) := by
  refine keeps_bind (solvent_modifyMiner _) fun _ => ?_
  refine keeps_bind (solvent_mutateMiner fun info => ?_) fun _ => solvent_modifyMiner _
  exact solvent_expel hlaw hpallets acc info

/-- A punishment keeps the books, unless the collateral is a loan. -/
theorem solvent_depositPunish {miner : T.AccountId} (hstake : OwnStake w miner) (amount : ℕ) :
    w.Solvent (after (depositPunish T miner amount) w) := by
  refine after_mutateMiner_of (fun _ _ => .of_ledger rfl rfl) fun info hinfo => ?_
  have hacc := hstake info hinfo
  refine keeps_punishRecord (keeps_ite (fun heq => absurd heq hacc) fun _ => ?_) w
  exact keeps_seizeCollateral (fun _ => solvent_unreserveFor hlaw _ _ _)
    (fun _ => solvent_currencyTransfer hlaw (Ne.symm hacc) _ _) amount

/-- The hook that returns collateral keeps the books. -/
theorem solvent_onInitialize : Keeps World.Solvent (Sminer.onInitialize T) := by
  refine keeps_get_bind fun w => keeps_forM fun entry _ => ?_
  refine keeps_ite (fun _ => ?_) fun _ => solvent_unreserveFor hlaw _ _ _
  exact keeps_bind (keeps_attempt (Reservoir.solvent_redeem _ _)) fun _ =>
    solvent_unreserveFor hlaw _ _ _

omit hlaw

theorem minerExit_balanced {miner : T.AccountId} (hw : w.Balanced)
    (h : (minerExit T miner).run w = .ok u w') : w'.Balanced := by
  obtain ⟨info, target, _, -, -, -, -, rfl⟩ := minerExit_ok h
  exact World.Solvent.of_ledger (w := w) rfl rfl hw

/-! ### Calls -/

theorem thaw_pledge {info info' : MinerInfo T.AccountId} (h : (thaw T info).run w = .ok info' w') :
    info'.pledge = info.pledge := by
  simp only [thaw, run_ite_ok, run_ok, existsAndEq] at h
  obtain ⟨-, limit, -, rfl, -⟩ | ⟨-, rfl, -⟩ := h
  · split_ifs <;> rfl
  · rfl

theorem solvent_startStaking (miner : T.AccountId) : Keeps World.Solvent (startStaking T miner) :=
  keeps_get_bind fun _ => solvent_modifyMiner _

theorem solvent_registerMiner (sender : T.AccountId) (info : MinerInfo T.AccountId) :
    Keeps World.Solvent (registerMiner T sender info) :=
  keeps_bind (solvent_modifyMiner _) fun _ => solvent_modify (fun _ => rfl) fun _ => rfl

theorem payDebt_of_no_debt {sender : T.AccountId} {info : MinerInfo T.AccountId} {collaterals : ℕ}
    (h : info.debt = 0) : payDebt T sender info collaterals = pure (info, collaterals) := by
  unfold payDebt
  rw [h]
  rfl

/-- The calls of sminer that may lose track of a loan or of a debt do not. -/
def Call.Tracked (w : Chain.World T) : Call T → Prop
  | .regnstkAssignStaking sender _ _ stakingAccount _ =>
    stakingAccount = T.reservoirAcc → Reservoir.Current w sender
  | .increaseCollateral _ miner _ =>
    ∀ info ∈ w.miner.minerItems.lookup miner, info.stakingAccount = T.reservoirAcc →
      info.debt = 0 ∧ Reservoir.Current w miner
  | _ => True

include hlaw

theorem regnstkAssignStaking_balanced {sender beneficiary : T.AccountId} {peerId : PeerId}
    {stakingAccount : T.AccountId} {tibCount : ℕ}
    (hloan : stakingAccount = T.reservoirAcc → Reservoir.Current w sender) (hw : w.Balanced) (h :
    (regnstkAssignStaking T sender beneficiary peerId stakingAccount tibCount).run w = .ok u w') :
    w'.Balanced := by
  simp only [regnstkAssignStaking, orElse, run_ok, run_ite_ok, existsAndEq] at h
  obtain ⟨-, space, -, ⟨hacc, amount, -, _, w₁, hcheck, _, w₂, hstake, _, w₃, hstart, hregister⟩ |
    ⟨-, hregister⟩⟩ := h
  · obtain rfl : w = w₁ := (keeps_checkQualification sender amount).run_ok hcheck
    have hw₂ := Reservoir.staking_balanced hlaw (hloan hacc) hw hstake
    exact (solvent_registerMiner _ _).run_ok hregister ((solvent_startStaking _).run_ok hstart hw₂)
  · exact (solvent_registerMiner _ _).run_ok hregister hw

/-- The debt of a miner with a stake of its own is paid by the sender. -/
theorem payDebt_balanced {sender : T.AccountId} {info : MinerInfo T.AccountId} {collaterals : ℕ}
    {p : MinerInfo T.AccountId × ℕ} (hsender : T.reservoirAcc ≠ sender)
    (hloan : info.stakingAccount = T.reservoirAcc → info.debt = 0) (hw : w.Balanced)
    (h : (payDebt T sender info collaterals).run w = .ok p w') : w'.Balanced := by
  by_cases hacc : info.stakingAccount = T.reservoirAcc
  · rw [payDebt_of_no_debt (hloan hacc)] at h
    obtain ⟨-, rfl⟩ := run_pure_ok.mp h
    exact hw
  · refine Keeps.run_ok (keeps_payDebt (R := World.Solvent) (fun amount => ?_) _) h hw
    rw [if_neg hacc]
    exact solvent_currencyTransfer hlaw hsender _ _

/-- More collateral keeps the books, unless the reservoir pays a debt or a loan is dropped. -/
theorem increaseCollateral_balanced {sender miner : T.AccountId}
    {collaterals : ℕ} (hsender : T.reservoirAcc ≠ sender)
    (hloan : ∀ info ∈ w.miner.minerItems.lookup miner, info.stakingAccount = T.reservoirAcc →
      info.debt = 0 ∧ Reservoir.Current w miner) (hw : w.Balanced)
    (h : (increaseCollateral T sender miner collaterals).run w = .ok u w') : w'.Balanced := by
  simp only [increaseCollateral, run_ok, existsAndEq] at h
  obtain ⟨-, hmutate⟩ := h
  obtain ⟨info, info', w₆, hinfo, hrun, rfl⟩ := run_mutateMiner_ok.mp hmutate
  simp only [orElse, run_ok, checkedAdd_eq_some, existsAndEq] at hrun
  obtain ⟨-, -, -, -, _, w₁, hcheck, p, w₂, hdebt, -, w₃, hthaw, _, w₄, hstart, _, w₅, hstake, _,
    hevent, -⟩ := hrun
  obtain rfl : w = w₁ := (keeps_checkLoan _ _ _ _).run_ok hcheck
  obtain rfl : w₂ = w₃ := (keeps_thaw _).run_ok hthaw
  have hw₂ := payDebt_balanced hlaw hsender (fun hacc => (hloan info hinfo hacc).1) hw hdebt
  have hw₄ := (solvent_startStaking _).run_ok hstart hw₂
  have hacc' : info'.stakingAccount = info.stakingAccount := by
    obtain ⟨debt, hp⟩ := payDebt_ok hdebt
    have hpledge := congrArg Prod.fst (thaw_pledge hthaw)
    rw [hp] at hpledge
    exact hpledge
  have hw₅ : w₅.Balanced := by
    unfold stakeMore at hstake
    rw [hacc'] at hstake
    split_ifs at hstake with hacc
    · obtain ⟨hnone, hcurrent⟩ := hloan info hinfo hacc
      rw [payDebt_of_no_debt hnone] at hdebt
      obtain ⟨-, rfl⟩ := run_pure_ok.mp hdebt
      obtain ⟨_, _, hget, hstart⟩ := run_bind_ok.mp hstart
      obtain ⟨rfl, rfl⟩ := run_get_ok.mp hget
      obtain rfl := run_modify_ok.mp hstart
      refine Reservoir.staking_balanced hlaw ?_ hw₄ hstake
      exact hcurrent
    · exact (solvent_reserveFor hlaw _ _ _).run_ok hstake hw₄
  obtain rfl := run_modify_ok.mp hevent
  exact World.Solvent.of_ledger (w := w₅) rfl rfl hw₅

/-- **The calls of sminer keep the books.** -/
theorem Call.code_balanced (hpallets : T.palletAccounts.Nodup) {call : Call T}
    (hsigned : Signed call.signer) (htracked : call.Tracked w) (hw : w.Balanced)
    (h : (call.code T).run w = .ok u w') : w'.Balanced := by
  have hkey : T.reservoirAcc ∈ T.palletAccounts := by simp [Config.palletAccounts]
  have hrewards := solvent_allowsRewards hlaw hpallets
  have hplain {w' : Chain.World T} (hreservoir : w'.reservoir = w.reservoir)
      (hledger : w'.ledger = w.ledger) : w'.Balanced :=
    World.Solvent.of_ledger hreservoir hledger hw
  cases call with
  | regnstk =>
    simp only [Call.code, Sminer.regnstk, reserveFor, startStaking, registerMiner, miner_ok, run_ok,
      existsAndEq] at h
    obtain ⟨-, space, -, limit, -, -, ledger, hreserve, rfl⟩ := h
    exact World.Solvent.of_purse (w := w) rfl (hlaw.purse_reserve hreserve).ge hw
  | increaseCollateral =>
    exact increaseCollateral_balanced hlaw (hsigned.ne rfl hkey) htracked hw h
  | updateBeneficiary =>
    simp only [Call.code, Sminer.updateBeneficiary, miner_ok, run_ok, existsAndEq] at h
    obtain ⟨-, info, -, rfl⟩ := h
    exact hplain rfl rfl
  | updatePeerId =>
    simp only [Call.code, Sminer.updatePeerId, miner_ok, run_ok, existsAndEq] at h
    obtain ⟨_, -, info, -, rfl⟩ := h
    exact hplain rfl rfl
  | minerExitPrep =>
    simp only [Call.code, Sminer.minerExitPrep, miner_ok, run_ok, existsAndEq] at h
    obtain ⟨-, _, -, -, info, -, -, -, -, _, -, _, -, agenda, -, rfl⟩ := h
    exact hplain rfl rfl
  | registerPoisKey =>
    simp only [Call.code, Sminer.registerPoisKey, updateOutside, miner_ok, run_ok,
      existsAndEq] at h
    obtain ⟨-, _, -, -, outside, -, _, -, info, -, -, limit, -, -, rfl⟩ := h
    exact hplain rfl rfl
  | increaseDeclarationSpace =>
    simp only [Call.code, Sminer.increaseDeclarationSpace, miner_ok, run_ok, existsAndEq] at h
    obtain ⟨-, increase, -, info, -, -, space, -, limit, -, rfl⟩ := h
    exact hplain rfl rfl
  | minerExit => exact minerExit_balanced hw h
  | receiveReward sender =>
    refine Keeps.run_ok (R := World.Solvent) (keeps_get_bind fun w => ?_) h hw
    split
    · exact keeps_pure _
    · refine keeps_ensure_bind ?_
      exact keeps_bind (hrewards.calculateMinerReward _) fun _ => hrewards.distributeRewards _ _
  | minerWithdraw sender =>
    refine Keeps.run_ok (R := World.Solvent) ?_ h hw
    refine keeps_get_bind fun _ => keeps_okOr_bind fun _ => ?_
    refine keeps_ensure_bind <| keeps_bind ?_ fun _ => hrewards.depositEvent _
    refine keeps_get_bind fun _ => keeps_okOr_bind fun _ => ?_
    refine keeps_bind (solvent_releaseCollateral hlaw _ _) fun _ => ?_
    exact keeps_ensure_bind <| solvent_modifyMiner _
  | regnstkAssignStaking =>
    exact regnstkAssignStaking_balanced hlaw htracked hw h

end Sminer

/-! ## Runs -/

namespace Chain

variable {T : Config} {n n' : Node T} {a : Action T}

/-- No step loses track of a loan: nobody is punished whose collateral is borrowed, the calls of
sminer find no loan whose time is over and no debt on borrowed collateral, and other pallets take
nothing from the account of the reservoir. -/
def Tracked (n : Node T) (a : Action T) : Prop :=
  (∀ miner ∈ n.punished a, Sminer.OwnStake n.world miner) ∧
    match a with
    | .call (.sminer c) => c.Tracked n.world
    | .external ledger _ _ => n.world.purse ≤ (n.world.setLedger ledger).purse
    | _ => True

/-- The treasury pays from the accounts of the punishments and of the sold space. -/
theorem treasuryCall_solvent (hlaw : ExactCurrency T) (hpallets : T.palletAccounts.Nodup)
    {call : Treasury.Call T} (hsigned : Signed call.signer) :
    Keeps World.Solvent (call.code T) := by
  have hkey : T.reservoirAcc ∈ T.palletAccounts := by simp [Config.palletAccounts]
  unfold Config.palletAccounts at hpallets
  simp only [List.nodup_cons, List.mem_cons, not_or] at hpallets
  obtain ⟨-, ⟨-, hpunish, -⟩, -, ⟨hspace, -⟩, -⟩ := hpallets
  cases call with
  | sendFundsToPid => exact solvent_currencyTransfer hlaw (hsigned.ne rfl hkey) _ _
  | sendFundsToSid => exact solvent_currencyTransfer hlaw (hsigned.ne rfl hkey) _ _
  | pidSendFunds => exact solvent_currencyTransfer hlaw (Ne.symm hpunish) _ _
  | sidSendFunds => exact solvent_currencyTransfer hlaw hspace _ _

/-- What a dispatched call does. -/
theorem balanced_dispatched {x : ChainM T Unit} {w : World T} (hw : w.Balanced)
    (h : ∀ u w', x.run w = .ok u w' → w'.Balanced) : (after (transactional x) w).Balanced :=
  after_transactional_inv (P := World.Balanced) hw h

/-- **Every step keeps the books.** -/
theorem step_balanced (hlaw : ExactCurrency T) (hpallets : T.palletAccounts.Nodup)
    (hkeyed : n.world.Keyed) (hok : Tracked n a) (hstep : n.step a = some n')
    (hw : n.world.Balanced) : n'.world.Balanced := by
  have hkey : T.reservoirAcc ∈ T.palletAccounts := by simp [Config.palletAccounts]
  obtain ⟨hpunished, hcall⟩ := hok
  cases hb : a.bank n with
  | some b =>
    have hunspent := (step_bank_unspent hlaw hkeyed hstep hb).1 T.reservoirAcc hkey
    refine World.Solvent.of_unspent ?_ hunspent hw
    rw [(step_bank hstep hb).2]
  | none =>
    cases step_beside hstep hb with
    | minerExit miner =>
      exact balanced_dispatched hw fun u w' hrun => Sminer.minerExit_balanced hw hrun
    | returning => exact Sminer.solvent_onInitialize hlaw n.world hw
    | challenging hphase hworld =>
      rw [hworld]
      refine keeps_get_bind (R := World.Solvent) (fun w => ?_) n.world hw
      split
      · exact keeps_pure _
      · exact solvent_modify (fun _ => rfl) fun _ => rfl
    | @clearing miner rest hphase =>
      refine after_clearChallenge_of (P := World.Balanced) (Q := World.Balanced)
        (fun w _ hw => ⟨hw.borrow, hw.store, hw.purse⟩)
        (fun w _ hw => ⟨hw.borrow, hw.store, hw.purse⟩) (fun _ => id) ?_ ?_ hw
      · intro count hcount hmore idleSpace serviceSpace
        have hstake := hpunished miner (punished_clearing hphase hcount hmore)
        exact after_clearPunish_of (R := World.Solvent)
          (fun amount => Sminer.solvent_depositPunish hlaw hstake amount) _ _ _ hw
      · intro count _ _ w₁ hw₁
        exact Sminer.solvent_forceMinerExit hlaw hpallets miner w₁ hw₁
    | cleared => exact hw
    | @verifying miner rest hphase =>
      refine keeps_get_bind (R := World.Solvent) (fun w => ?_) n.world hw
      split
      · exact keeps_pure _
      · exact keeps_ite (fun _ => solvent_modify (fun _ => rfl) fun _ => rfl)
          fun _ => solvent_modify (fun _ => rfl) fun _ => rfl
    | verified => exact Reservoir.solvent_onInitialize n.world hw
    | sminer c hphase hsigned =>
      exact balanced_dispatched hw fun u w' hrun =>
        Sminer.Call.code_balanced hlaw hpallets hsigned hcall hw hrun
    | audit c =>
      refine balanced_dispatched hw fun u w' hrun => ?_
      cases c.code_run hrun with
      | @exchange miner info info' recorded outside _ complete snapShots v _ _ _ _ _ _ _ hpunish =>
        have hnoted : (n.world.noted recorded outside complete snapShots).Balanced :=
          ⟨hw.borrow, hw.store, hw.purse⟩
        have hv : v.Balanced := by
          rcases hpunish with ⟨-, rfl⟩ | ⟨hfails, u, hrun⟩
          · exact hnoted
          · have hstake : Sminer.OwnStake (n.world.noted recorded outside complete snapShots) miner :=
              hpunished miner hfails
            rw [← after_of_ok hrun]
            exact after_servicePunish_of (R := World.Solvent)
              (fun amount => Sminer.solvent_depositPunish hlaw hstake amount) _ _ hnoted
        exact ⟨hv.borrow, hv.store, hv.purse⟩
    | treasury c hphase hsigned =>
      refine balanced_dispatched hw fun u w' hrun => ?_
      exact (treasuryCall_solvent hlaw hpallets hsigned).run_ok hrun hw
    | reservoir c hphase hsigned =>
      exact balanced_dispatched hw fun u w' hrun =>
        Reservoir.Call.code_balanced hlaw hsigned hw hrun
    | payEra hrun =>
      have hrewards := solvent_allowsRewards hlaw hpallets
      refine Keeps.run_ok (R := World.Solvent) ?_ hrun hw
      refine keeps_bind (keeps_modify fun w => ?_) fun _ => ?_
      · exact .of_unspent rfl (hlaw.unspent_resolve _ _)
      · exact keeps_bind (hrewards.addMinerRewardPool _) fun _ => hrewards.depositEvent _
    | external =>
      exact World.Solvent.of_purse (w := n.world) rfl hcall hw

/-- **The books of the reservoir balance.**  In every run in which no borrowed collateral is
punished, no debt is paid for a miner with borrowed collateral, no loan is staked whose time is over,
and other pallets take nothing from the account of the reservoir, what is lent is the sum of the
loans, what is stored is the sum of the passbooks, and the account holds all of it. -/
theorem books_balance (hlaw : ExactCurrency T) (hpallets : T.palletAccounts.Nodup)
    (hn : Reached Tracked n) :
    n.world.reservoir.reservoir.borrowBalance =
        n.world.reservoir.borrowList.total (fun _ info => info.free + info.staking) ∧
      n.world.reservoir.reservoir.storeBalance =
        n.world.reservoir.userPassbook.total (fun _ hold => hold.free + hold.staking) ∧
      n.world.reservoir.reservoir.freeBalance + n.world.reservoir.reservoir.borrowBalance +
          n.world.reservoir.reservoir.storeBalance ≤
        T.free n.world.ledger T.reservoirAcc + T.reserved n.world.ledger T.reservoirAcc := by
  have hbalanced : n.world.Balanced := by
    refine Runs.Reach.inv (P := fun n => n.world.Balanced) ?_ ?_ hn
    · intro n hstart
      rw [hstart.2.2.1]
      exact ⟨rfl, rfl, Nat.zero_le _⟩
    · intro n a n' hn hw hok hstep
      exact step_balanced hlaw hpallets (Reached.keyed hlaw hn) hok hstep hw
  exact ⟨hbalanced.borrow, hbalanced.store, hbalanced.purse⟩

/-! ## Concrete runs -/

instance (w : World T) (acc : T.AccountId) : Decidable (Reservoir.Current w acc) := by
  unfold Reservoir.Current
  infer_instance

instance (w : World T) (call : Sminer.Call T) : Decidable (call.Tracked w) := by
  cases call <;> unfold Sminer.Call.Tracked <;> infer_instance

instance (n : Node T) (a : Action T) : Decidable (Tracked n a) := by
  unfold Tracked Sminer.OwnStake
  refine @instDecidableAnd _ _ inferInstance ?_
  exact match a with
    | .call (.sminer c) => inferInstanceAs (Decidable (c.Tracked n.world))
    | .external .. => inferInstanceAs (Decidable (_ ≤ _))
    | .call (.storage _) | .call (.fileBank _) | .call (.audit _) | .call (.treasury _)
    | .call (.reservoir _) | .newBlock | .serve _ | .minerExit _ | .clearFile .. | .hook
    | .payEra _ => .isTrue trivial

/-- A phase with nobody left to visit punishes nobody. -/
theorem tracked_vacant (n : Node T) (h : n.phase.still = true) : Tracked n .hook := by
  refine ⟨fun miner hminer => ?_, trivial⟩
  obtain ⟨phase, calls, world⟩ := n
  cases phase with
  | clearing rest =>
    cases rest with
    | nil => cases hminer
    | cons => cases h
  | _ => cases hminer

/-- The reservoir is filled, and the account 10 borrows the collateral for a terabyte for a hundred
blocks and stores as much of its own. -/
def borrowing : List (Runs.Part (Action runtime)) :=
  [.idle 1, .act (.call (.reservoir (.filling alice (10 ^ 22)))),
    .act (.call (.reservoir (.createEvent BoundedVec.empty
      { quota := 10, deadline := 1000000, unitAmount := Sminer.baseUnit, borrowPeriod := 100,
        useType := .minerStaking }))),
    .act (.call (.reservoir (.attendEvent (10 : ℕ) BoundedVec.empty))),
    .act (.call (.reservoir (.store (10 : ℕ) Sminer.baseUnit)))]

/-- The account 10 becomes a miner with collateral from the reservoir. -/
def stakingBorrowed : Runs.Part (Action runtime) :=
  .act (.call (.sminer (.regnstkAssignStaking (10 : ℕ) (10 : ℕ) (zeros 38) (104 : ℕ) 1)))

theorem runtime_palletAccounts_nodup : runtime.palletAccounts.Nodup := by decide

/-- A loan that is staked in time. -/
theorem books_balance_staked : ∃ n : Node runtime, Reached Tracked n ∧
    n.world.reservoir.reservoir.borrowBalance = Sminer.baseUnit ∧
    n.world.reservoir.borrowList.total (fun _ info => info.free + info.staking) =
      Sminer.baseUnit := by
  obtain ⟨n, hn, hcheck⟩ := exists_of_play Tracked (fun _ => ⟨nofun, trivial⟩)
    (fun n _ hstill => tracked_vacant n hstill) (borrowing ++ [stakingBorrowed])
    (fun n : Node runtime => decide (n.world.reservoir.reservoir.borrowBalance = Sminer.baseUnit))
    (by decide +kernel)
  have hborrow := of_decide_eq_true hcheck
  refine ⟨n, hn, hborrow, ?_⟩
  rw [← (books_balance runtime_exactCurrency runtime_palletAccounts_nodup hn).1]
  exact hborrow

/-- A loan is staked when its time is over: it is dropped, and still counted as lent. -/
theorem books_unbalanced : ∃ n : Node runtime, Reached (fun _ _ => True) n ∧
    n.world.reservoir.reservoir.borrowBalance = Sminer.baseUnit ∧
    n.world.reservoir.borrowList.total (fun _ info => info.free + info.staking) = 0 := by
  obtain ⟨n, hn, hcheck⟩ := exists_run (borrowing ++ [.idle 200, stakingBorrowed])
    (fun n : Node runtime =>
      decide (n.world.reservoir.reservoir.borrowBalance = Sminer.baseUnit) &&
        decide (n.world.reservoir.borrowList.total (fun _ info => info.free + info.staking) = 0))
    (by decide +kernel)
  rw [Bool.and_eq_true] at hcheck
  exact ⟨n, hn, of_decide_eq_true hcheck.1, of_decide_eq_true hcheck.2⟩

end Chain
