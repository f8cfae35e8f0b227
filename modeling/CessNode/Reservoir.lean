/-
# The reservoir

The model of `pallets/reservoir`, which lends collateral to miners: the calls by which an
account stores tokens of its own or borrows some in an event, the block hook that ends events,
and the operations of `ReservoirGate` by which sminer stakes, redeems and punishes what an
account has stored or borrowed.
-/
import CessNode.Chain

open Dispatch Chain

namespace Reservoir

variable (T : Config)

/-- Stop with an error of the pallet unless there is a value. -/
def orElse {α : Type} (o : Option α) (e : Error) : ChainM T α := okOr o (.reservoir e)

/-- A change of the storage of the pallet. -/
def modifyStorage (f : Storage T → Storage T) : ChainM T Unit :=
  modify fun w => { w with reservoir := f w.reservoir }

variable {T} in
/-- The value of `UserPassbook`, zero where nothing is stored. -/
def Storage.passbookOf (s : Storage T) (acc : T.AccountId) : UserHold :=
  (s.userPassbook.lookup acc).getD { free := 0, staking := 0 }

/-- `UserPassbook::insert`. -/
def putPassbook (acc : T.AccountId) (hold : UserHold) : ChainM T Unit :=
  modifyStorage T fun s => { s with userPassbook := s.userPassbook.insert acc hold }

/-- `BorrowList::insert`. -/
def putBorrow (acc : T.AccountId) (info : BorrowInfo T.AccountId) : ChainM T Unit :=
  modifyStorage T fun s => { s with borrowList := s.borrowList.insert acc info }

/-- `Reservoir::try_mutate`. -/
def tryMutateReservoir (f : ReservoirInfo → Option ReservoirInfo) : ChainM T Unit := do
  let w ← get
  let info ← orElse T (f w.reservoir.reservoir) .overflow
  modifyStorage T fun s => { s with reservoir := info }

/-! ## The trait `ReservoirGate` -/

/-- `check_qualification`. -/
def checkQualification (acc : T.AccountId) (amount : ℕ) : ChainM T Unit := do
  let w ← get
  let borrowed := ((w.reservoir.borrowList.lookup acc).map BorrowInfo.free).getD 0
  let totalFree ← orElse T (checkedAdd 128 borrowed (w.reservoir.passbookOf acc).free) .overflow
  ensure (totalFree ≥ amount) (.reservoir .insufficient)

/-- The first half of `staking`: the loan is staked first, unless its time is over.  The result
is what is left to be staked. -/
def stakeBorrowed (acc : T.AccountId) (amount : ℕ) : ChainM T ℕ := do
  let w ← get
  match w.reservoir.borrowList.lookup acc with
  | none => pure amount
  | some borrowInfo =>
    if w.now < borrowInfo.deadline then do
      if borrowInfo.free ≥ amount then do
        let free ← orElse T (checkedSub borrowInfo.free amount) .overflow
        let staking ← orElse T (checkedAdd 128 borrowInfo.staking amount) .overflow
        putBorrow T acc { borrowInfo with free := free, staking := staking }
        pure 0
      else do
        let left ← orElse T (checkedSub amount borrowInfo.free) .overflow
        let staking ← orElse T (checkedAdd 128 borrowInfo.staking borrowInfo.free) .overflow
        putBorrow T acc { borrowInfo with free := 0, staking := staking }
        pure left
    else do
      modifyStorage T fun s => { s with borrowList := s.borrowList.erase acc }
      pure amount

/-- `staking`. -/
def staking (acc : T.AccountId) (amount : ℕ) (flag : Bool) : ChainM T Unit := do
  let needStaking ← stakeBorrowed T acc amount
  if needStaking ≠ 0 then do
    let hold := (← get).reservoir.passbookOf acc
    let free ← orElse T (checkedSub hold.free needStaking) .overflow
    let staking ← orElse T (checkedAdd 128 hold.staking needStaking) .overflow
    putPassbook T acc { free := free, staking := staking }
  if flag then reserveFor T acc T.reservoirAcc amount

/-- The common course of `redeem` and `punish`: the staked tokens of the passbook go first, by
`fromHold`, and the rest is taken from the loan by `fromBorrow`. -/
def release (fromHold : UserHold → ℕ → Option UserHold)
    (fromBorrow : BorrowInfo T.AccountId → ℕ → Option (BorrowInfo T.AccountId))
    (acc : T.AccountId) (amount : ℕ) (flag : Bool) : ChainM T Unit := do
  let hold := (← get).reservoir.passbookOf acc
  let taken := min hold.staking amount
  let hold ← orElse T (fromHold hold taken) .overflow
  putPassbook T acc hold
  let needAmount := amount - taken
  if needAmount ≠ 0 then do
    let w ← get
    let borrowInfo ← orElse T (w.reservoir.borrowList.lookup acc) .bugInvalid
    ensure (borrowInfo.staking ≥ needAmount) (.reservoir .bugInvalid)
    let borrowInfo ← orElse T (fromBorrow borrowInfo needAmount) .overflow
    putBorrow T acc borrowInfo
  if flag then unreserveFor T acc T.reservoirAcc amount

/-- `redeem`: what is taken from the stake is free again. -/
def redeem (acc : T.AccountId) (amount : ℕ) (flag : Bool) : ChainM T Unit :=
  release T
    (fun hold taken => do
      let free ← checkedAdd 128 hold.free taken
      pure { free := free, staking := hold.staking - taken })
    (fun borrowInfo needAmount => do
      let free ← checkedAdd 128 borrowInfo.free needAmount
      pure { borrowInfo with free := free, staking := borrowInfo.staking - needAmount })
    acc amount flag

/-- `punish`: what is taken from the stake is lost. -/
def punish (acc : T.AccountId) (amount : ℕ) (flag : Bool) : ChainM T Unit :=
  release T
    (fun hold taken => some { hold with staking := hold.staking - taken })
    (fun borrowInfo needAmount =>
      some { borrowInfo with staking := borrowInfo.staking - needAmount })
    acc amount flag

/-! ## Calls -/

/-- `filling`. -/
def filling (sender : T.AccountId) (amount : ℕ) : ChainM T Unit := do
  currencyTransfer T sender T.reservoirAcc amount
  tryMutateReservoir T fun info => do
    let free ← checkedAdd 128 info.freeBalance amount
    pure { info with freeBalance := free }
  depositEvent T (.filling amount)

/-- `store`. -/
def store (sender : T.AccountId) (amount : ℕ) : ChainM T Unit := do
  currencyTransfer T sender T.reservoirAcc amount
  let hold := (← get).reservoir.passbookOf sender
  let free ← orElse T (checkedAdd 128 hold.free amount) .overflow
  putPassbook T sender { hold with free := free }
  tryMutateReservoir T fun info => do
    let store ← checkedAdd 128 info.storeBalance amount
    pure { info with storeBalance := store }
  depositEvent T (.store amount)

/-- `withdraw`. -/
def withdraw (sender : T.AccountId) (amount : ℕ) : ChainM T Unit := do
  let hold := (← get).reservoir.passbookOf sender
  let free ← orElse T (checkedSub hold.free amount) .overflow
  putPassbook T sender { hold with free := free }
  tryMutateReservoir T fun info => do
    let store ← checkedSub info.storeBalance amount
    pure { info with storeBalance := store }
  currencyTransfer T T.reservoirAcc sender amount
  depositEvent T (.withdrawStore amount)

/-- `event_withdraw`. -/
def eventWithdraw (amount : ℕ) (target : T.AccountId) : ChainM T Unit := do
  currencyTransfer T T.reservoirAcc target amount
  tryMutateReservoir T fun info => do
    let free ← checkedSub info.freeBalance amount
    pure { info with freeBalance := free }
  depositEvent T (.rootWithdraw amount)

/-- `create_event`. -/
def createEvent (id : BoundedVec UInt8 T.idLength) (info : EventInfo) : ChainM T Unit := do
  let w ← get
  ensure (¬ id ∈ w.reservoir.events) (.reservoir .lengthExceedsLimit)
  modifyStorage T fun s => { s with events := s.events.insert id info }
  let expired ← orElse T (checkedAdd 32 w.now info.deadline) .overflow
  let list := (w.reservoir.eventExpiredRecords.lookup expired).getD BoundedVec.empty
  let list ← orElse T (list.tryPush id) .boundedVecError
  modifyStorage T fun s =>
    { s with eventExpiredRecords := s.eventExpiredRecords.insert expired list }
  depositEvent T (.createEvent id)

/-- The beginning of `attend_event`: a loan whose time is over goes back, unless part of it is
still staked. -/
def returnLoan (sender : T.AccountId) : ChainM T Unit := do
  let w ← get
  match w.reservoir.borrowList.lookup sender with
  | none => pure ()
  | some borrowInfo => do
    ensure (w.now ≥ borrowInfo.deadline ∧ borrowInfo.staking = 0) (.reservoir .borrowed)
    tryMutateReservoir T fun info => do
      let borrow ← checkedSub info.borrowBalance borrowInfo.free
      let free ← checkedAdd 128 info.freeBalance borrowInfo.free
      pure { info with borrowBalance := borrow, freeBalance := free }
    modifyStorage T fun s => { s with borrowList := s.borrowList.erase sender }

/-- `attend_event`. -/
def attendEvent (sender : T.AccountId) (id : BoundedVec UInt8 T.idLength) : ChainM T Unit := do
  let w ← get
  ensure (id ∈ w.reservoir.events) (.reservoir .idNonExistent)
  returnLoan T sender
  tryMutate (fun w : World T => w.reservoir.events.lookup id)
    (fun event w =>
      { w with reservoir := { w.reservoir with events := w.reservoir.events.insert id event } })
    (.reservoir .idNonExistent) fun event => do
    ensure (event.quota ≠ 0) (.reservoir .upperLimit)
    let quota ← orElse T (checkedSub event.quota 1) .overflow
    let w ← get
    let deadline ← orElse T (checkedAdd 32 w.now event.borrowPeriod) .overflow
    putBorrow T sender
      { free := event.unitAmount, lender := T.reservoirAcc, staking := 0, deadline := deadline }
    tryMutateReservoir T fun info => do
      let borrow ← checkedAdd 128 info.borrowBalance event.unitAmount
      let free ← checkedSub info.freeBalance event.unitAmount
      pure { info with borrowBalance := borrow, freeBalance := free }
    pure ((), { event with quota := quota })
  depositEvent T (.attendEvent id)

/-- A dispatchable call with its origin. -/
inductive Call where
  | filling (sender : T.AccountId) (amount : ℕ)
  | store (sender : T.AccountId) (amount : ℕ)
  | withdraw (sender : T.AccountId) (amount : ℕ)
  /-- Origin root. -/
  | eventWithdraw (amount : ℕ) (target : T.AccountId)
  /-- Origin root. -/
  | createEvent (id : BoundedVec UInt8 T.idLength) (info : EventInfo)
  | attendEvent (sender : T.AccountId) (id : BoundedVec UInt8 T.idLength)

/-- The code of a call. -/
def Call.code : Call T → ChainM T Unit
  | .filling sender amount => Reservoir.filling T sender amount
  | .store sender amount => Reservoir.store T sender amount
  | .withdraw sender amount => Reservoir.withdraw T sender amount
  | .eventWithdraw amount target => Reservoir.eventWithdraw T amount target
  | .createEvent id info => Reservoir.createEvent T id info
  | .attendEvent sender id => Reservoir.attendEvent T sender id

/-- The account that signs a call. -/
def Call.signer : Call T → Option T.AccountId
  | .filling sender _ => some sender
  | .store sender _ => some sender
  | .withdraw sender _ => some sender
  | .eventWithdraw _ _ => none
  | .createEvent _ _ => none
  | .attendEvent sender _ => some sender

/-- `on_initialize`: the events that end in this block are removed. -/
def onInitialize : ChainM T Unit := do
  let w ← get
  let list := (w.reservoir.eventExpiredRecords.lookup w.now).getD BoundedVec.empty
  list.val.forM fun id => do
    modifyStorage T fun s => { s with events := s.events.erase id }
    depositEvent T (.eventExpired id)

end Reservoir
