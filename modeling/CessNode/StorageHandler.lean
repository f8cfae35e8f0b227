/-
# The storage-handler pallet

The faithful model of `pallets/storage-handler`: the storage items, every dispatchable
call, the internal helpers, the `frozen_task` block hook and the `StorageHandle`
operations that the other pallets use.

Fixed-width integers are naturals with checked operations of the width the source has
(`u128` space and balances, `u32` block numbers, counters, gibs and days).  A helper runs
in `PalletM`, where an error keeps the writes made so far; the dispatcher runs every call
in a storage layer of its own (`dispatch`), and the block hook runs without one.

What the pallet takes from outside the repository is the record `Config`: the constants
of the runtime, the randomness source, the currency, the named scheduler and the order in
which a prefix of a double map is iterated.  Weights, which no decision reads, are left out.
-/
import CessNode.StorageMap
import CessNode.Dispatch
import CessNode.Common

open Dispatch

namespace StorageHandler

/-! ## Configuration -/

/-- The subject handed to `MyRandomness::random`, before encoding: the pallet id with the
seed of a new token, or with the block number for an order hash. -/
inductive Subject (AccountId : Type) where
  | token (sender : AccountId) (now : ℕ) (name : TerrName)
  | order (now : ℕ)

/-- The call `exec_consignment{token, territory_name}` put on the schedule. -/
structure ScheduledCall where
  token : TokenId
  territoryName : TerrName
  deriving DecidableEq

/-- The pallet's `Config` trait. -/
structure Config where
  AccountId : Type
  decAccountId : DecidableEq AccountId
  /-- `OneDay`, in blocks. -/
  oneDay : ℕ
  /-- `OneHours`, in blocks. -/
  oneHours : ℕ
  /-- `FrozenLimit`. -/
  frozenLimit : ℕ
  /-- `ConsignmentRemainingBlock`. -/
  consignmentRemainingBlock : ℕ
  /-- `LockingBlock`. -/
  lockingBlock : ℕ
  /-- `FrozenDays`, in blocks. -/
  frozenDays : ℕ
  /-- `MyRandomness::random`: the random hash of a subject in a block. -/
  random : Subject AccountId → ℕ → Option H256
  /-- The account of the space treasury (`SpaceTreasuryId`). -/
  spaceTreasury : AccountId
  /-- The balances held by `Currency`. -/
  Ledger : Type
  /-- `Currency::can_slash`. -/
  canSlash : Ledger → AccountId → ℕ → Bool
  /-- `Currency::reserve`. -/
  reserve : Ledger → AccountId → ℕ → Option Ledger
  /-- `Currency::unreserve`. -/
  unreserve : Ledger → AccountId → ℕ → Ledger
  /-- `Currency::transfer` with `KeepAlive`, from the first account to the second. -/
  transfer : Ledger → AccountId → AccountId → ℕ → Option Ledger
  /-- The part of an account's balance that this pallet holds in reserve. -/
  reserved : Ledger → AccountId → ℕ
  /-- The tasks held by `FScheduler`. -/
  Agenda : Type
  /-- `FScheduler::schedule_named` under the name of a token, at a block. -/
  scheduleNamed : Agenda → TokenId → ℕ → ScheduledCall → Option Agenda
  /-- `FScheduler::cancel_named`. -/
  cancelNamed : Agenda → TokenId → Option Agenda
  /-- The task pending under a name, with its block. -/
  pending : Agenda → TokenId → Option (ℕ × ScheduledCall)
  /-- The agenda after the task of that name has been taken for dispatch. -/
  dispatched : Agenda → TokenId → Agenda
  /-- The order in which the keys of a map prefix are iterated. -/
  hashOrder : List TokenId → List TokenId
  hashOrder_perm : ∀ l, (hashOrder l).Perm l

attribute [instance] Config.decAccountId

/-! ## Storage types -/

/-- `TerritoryState`. -/
inductive TerritoryState where
  | active
  | frozen
  | expired
  | onConsignment
  deriving DecidableEq, Repr

/-- `OrderType`. -/
inductive OrderType where
  | buy
  | expansion
  | renewal
  deriving DecidableEq, Repr

/-- `TerritoryInfo`. -/
structure TerritoryInfo where
  token : TokenId
  totalSpace : ℕ
  usedSpace : ℕ
  lockedSpace : ℕ
  remainingSpace : ℕ
  start : ℕ
  deadline : ℕ
  state : TerritoryState
  deriving DecidableEq

/-- `ConsignmentInfo`. -/
structure ConsignmentInfo (AccountId : Type) where
  user : AccountId
  price : ℕ
  buyers : Option AccountId
  exec : Option ℕ
  locked : Bool

/-- `OrderInfo`. -/
structure OrderInfo (AccountId : Type) where
  territoryName : TerrName
  pay : ℕ
  gibCount : ℕ
  days : ℕ
  expired : ℕ
  targetAcc : AccountId
  orderType : OrderType

/-- The key of an order: a byte string of length at most 32. -/
abbrev OrderId := BoundedVec UInt8 32

/-- The key under which a random hash files an order. -/
def orderIdOfHash (hash : H256) : OrderId := ⟨hash.val, hash.property.le⟩

/-- The pallet's events. -/
inductive Event (AccountId : Type) where
  | createPayOrder (orderHash : OrderId)
  | paidOrder (orderHash : OrderId)
  | mintTerritory (token : TokenId) (name : TerrName) (storageCapacity spend : ℕ)
  | expansionTerritory (name : TerrName) (expansionSpace spend : ℕ)
  | renewalTerritory (name : TerrName) (days spend : ℕ)
  | reactivateTerritory (name : TerrName) (days spend : ℕ)
  | consignment (name : TerrName) (token : TokenId) (price : ℕ)
  | buyConsignment (name : TerrName) (token : TokenId) (price : ℕ)
  | cancleConsignment (token : TokenId)
  | cancelPurchaseAction (token : TokenId)
  | execConsignment (buyer seller : AccountId) (token : TokenId)

/-- The pallet's errors, with those it passes on from the currency and the scheduler;
`panic` stands for a failed `unwrap`. -/
inductive Error where
  | bugInvalid
  | insufficientAvailableSpace
  | insufficientBalance
  | insufficientStorage
  | overflow
  | purchasedSpace
  | notPurchasedSpace
  | orderExpired
  | noOrder
  | paramError
  | duplicateTokens
  | notHaveTerritory
  | notActive
  | notExpire
  | notOnConsignment
  | insufficientLease
  | consignmentExisted
  | stateError
  | objectNotZero
  | nonExistentConsignment
  | consignmentLocked
  | consignmentUnLocked
  | unexpected
  | notBuyer
  | invalidOrder
  | ownConsignment
  | boundariesNotMet
  | currency
  | scheduler
  | panic
  deriving DecidableEq, Repr

variable (T : Config)

/-- The storage the pallet reads and writes: its own items, the block number, the
balances and the schedule. -/
structure World where
  now : ℕ
  ledger : T.Ledger
  agenda : T.Agenda
  events : List (Event T.AccountId)
  territoryKey : StorageMap TokenId (T.AccountId × TerrName)
  territory : StorageMap (T.AccountId × TerrName) TerritoryInfo
  consignment : StorageMap TokenId (ConsignmentInfo T.AccountId)
  territoryFrozen : StorageMap (ℕ × TokenId) Bool
  territoryFrozenCounter : StorageMap ℕ ℕ
  territoryExpired : StorageMap (ℕ × TokenId) Bool
  unitPrice : Option ℕ
  totalIdleSpace : ℕ
  totalServiceSpace : ℕ
  purchasedSpace : ℕ
  payOrder : StorageMap OrderId (OrderInfo T.AccountId)

/-- Code of the pallet: an error keeps the writes made before it. -/
abbrev PalletM := EStateM Error (World T)

/-- The storage at genesis: the balances, the empty schedule and the unit price. -/
def genesis (ledger : T.Ledger) (agenda : T.Agenda) (price : ℕ) : World T where
  now := 0
  ledger := ledger
  agenda := agenda
  events := []
  territoryKey := ∅
  territory := ∅
  consignment := ∅
  territoryFrozen := ∅
  territoryFrozenCounter := ∅
  territoryExpired := ∅
  unitPrice := some price
  totalIdleSpace := 0
  totalServiceSpace := 0
  purchasedSpace := 0
  payOrder := ∅

/-! ## Access to single storage items -/

/-- `deposit_event`. -/
def depositEvent (e : Event T.AccountId) : PalletM T Unit :=
  modify fun s => { s with events := s.events ++ [e] }

/-- `Territory::try_mutate`. -/
def tryMutateTerritory (acc : T.AccountId) (name : TerrName) (e : Error)
    (f : TerritoryInfo → PalletM T (Unit × TerritoryInfo)) : PalletM T Unit :=
  tryMutate (fun s => s.territory.lookup (acc, name))
    (fun t s => { s with territory := s.territory.insert (acc, name) t }) e f

/-- `Currency::transfer(src, dst, amount, KeepAlive)`. -/
def currencyTransfer (src dst : T.AccountId) (amount : ℕ) : PalletM T Unit := do
  let s ← get
  let ledger ← okOr (T.transfer s.ledger src dst amount) .currency
  modify fun s => { s with ledger := ledger }

/-- `CessTreasuryHandle::send_to_sid`. -/
def sendToSid (acc : T.AccountId) (amount : ℕ) : PalletM T Unit :=
  currencyTransfer T acc T.spaceTreasury amount

/-- The value of `TerritoryFrozenCounter`, zero where nothing is stored. -/
def World.frozenCounter {T : Config} (s : World T) (block : ℕ) : ℕ :=
  (s.territoryFrozenCounter.lookup block).getD 0

/-- The increment of `TerritoryFrozenCounter` when an entry is filed at `deadline`. -/
def increaseFrozenCounter (deadline : ℕ) : PalletM T Unit := do
  let s ← get
  let counter ← okOr (checkedAdd 32 (s.frozenCounter deadline) 1) .overflow
  modify fun s =>
    { s with territoryFrozenCounter := s.territoryFrozenCounter.insert deadline counter }
  ensure (counter < T.frozenLimit) .overflow

/-- The decrement of `TerritoryFrozenCounter` when an entry is taken from `deadline`. -/
def decreaseFrozenCounter (deadline : ℕ) : PalletM T Unit := do
  let s ← get
  let counter ← okOr (checkedSub (s.frozenCounter deadline) 1) .overflow
  modify fun s =>
    { s with territoryFrozenCounter := s.territoryFrozenCounter.insert deadline counter }

/-! ## Internal helpers -/

/-- `calculate_price`. -/
def calculatePrice (gibCount days : ℕ) : PalletM T ℕ := do
  let s ← get
  let unitPrice ← okOr s.unitPrice .panic
  let price ← okOr (checkedMul 128 gibCount days) .overflow
  okOr (checkedMul 128 price unitPrice) .overflow

/-- Whole days in `diffBlock` blocks, a started day counting in full; written out both in
`calculate_remain_day` and in `expanding_territory`. -/
def roundUpDays (diffBlock : ℕ) : PalletM T ℕ := do
  let remainDay ← okOr (checkedDiv diffBlock T.oneDay) .overflow
  if diffBlock % T.oneDay ≠ 0 then
    okOr (checkedAdd 32 remainDay 1) .overflow
  else
    pure remainDay

/-- `calculate_remain_day`: the remaining days of a lease. -/
def calculateRemainDay (deadline : ℕ) : PalletM T ℕ := do
  let s ← get
  let diffBlock ← okOr (checkedSub deadline s.now) .overflow
  roundUpDays T diffBlock

/-- The daily price of a gib: a thirtieth of the unit price. -/
def dayUnitPrice : PalletM T ℕ := do
  let s ← get
  let unitPrice ← okOr s.unitPrice .bugInvalid
  okOr (checkedDiv unitPrice 30) .overflow

/-- `storage_territory`. -/
def storageTerritory (token : TokenId) (user : T.AccountId) (space days : ℕ)
    (tname : TerrName) : PalletM T Unit := do
  let now := (← get).now
  let surBlock ← okOr (checkedMul 32 T.oneDay days) .overflow
  let deadline ← okOr (checkedAdd 32 now surBlock) .overflow
  let info : TerritoryInfo :=
    { token := token, totalSpace := space, usedSpace := 0, lockedSpace := 0,
      remainingSpace := space, start := now, deadline := deadline, state := .active }
  modify fun s => { s with territory := s.territory.insert (user, tname) info }
  modify fun s => { s with territoryKey := s.territoryKey.insert token (user, tname) }
  modify fun s => { s with territoryFrozen := s.territoryFrozen.insert (deadline, token) true }
  increaseFrozenCounter T deadline

/-- `update_territory_space`. -/
def updateTerritorySpace (user : T.AccountId) (tname : TerrName) (space : ℕ) :
    PalletM T Unit :=
  tryMutateTerritory T user tname .notPurchasedSpace fun t => do
    let remaining ← okOr (checkedAdd 128 t.remainingSpace space) .overflow
    let total ← okOr (checkedAdd 128 t.totalSpace space) .overflow
    pure ((), { t with remainingSpace := remaining, totalSpace := total })

/-- The middle of `update_territory_days`: the lease runs on for `surBlock` blocks, from now
if it was over already. -/
def extendLease (now surBlock : ℕ) (t : TerritoryInfo) : PalletM T TerritoryInfo := do
  let t ←
    if now > t.deadline then do
      let deadline ← okOr (checkedAdd 32 now surBlock) .overflow
      pure { t with start := now, deadline := deadline }
    else do
      let deadline ← okOr (checkedAdd 32 t.deadline surBlock) .overflow
      pure { t with deadline := deadline }
  pure (if t.deadline > now then { t with state := .active } else t)

/-- `update_territory_days`. -/
def updateTerritoryDays (user : T.AccountId) (tname : TerrName) (days : ℕ) :
    PalletM T Unit :=
  tryMutateTerritory T user tname .notHaveTerritory fun t => do
    modify fun s => { s with territoryFrozen := s.territoryFrozen.erase (t.deadline, t.token) }
    decreaseFrozenCounter T t.deadline
    let expiredBlock ← okOr (checkedAdd 32 t.deadline T.frozenDays) .overflow
    modify fun s =>
      { s with territoryExpired := s.territoryExpired.erase (expiredBlock, t.token) }
    let now := (← get).now
    let surBlock ← okOr (checkedMul 32 T.oneDay days) .overflow
    let t ← extendLease T now surBlock t
    modify fun s =>
      { s with territoryFrozen := s.territoryFrozen.insert (t.deadline, t.token) true }
    increaseFrozenCounter T t.deadline
    pure ((), t)

/-- `initial_territory`. -/
def initialTerritory (user : T.AccountId) (tname : TerrName) (days : ℕ) : PalletM T Unit :=
  tryMutateTerritory T user tname .notPurchasedSpace fun t => do
    let now := (← get).now
    let t := { t with state := .active, remainingSpace := 0, lockedSpace := 0, usedSpace := 0,
                      start := now }
    let surBlock ← okOr (checkedMul 32 T.oneDay days) .overflow
    let deadline ← okOr (checkedAdd 32 now surBlock) .overflow
    let t := { t with deadline := deadline }
    modify fun s =>
      { s with territoryFrozen := s.territoryFrozen.insert (t.deadline, t.token) true }
    increaseFrozenCounter T t.deadline
    pure ((), t)

/-- `add_purchased_space`. -/
def addPurchasedSpace (size : ℕ) : PalletM T Unit := do
  let s ← get
  let totalSpace ← okOr (checkedAdd 128 s.totalIdleSpace s.totalServiceSpace) .overflow
  let newSpace ← okOr (checkedAdd 128 s.purchasedSpace size) .overflow
  ensure (¬ newSpace > totalSpace) .insufficientAvailableSpace
  modify fun s => { s with purchasedSpace := newSpace }

/-- `sub_purchased_space`. -/
def subPurchasedSpace (size : ℕ) : PalletM T Unit := do
  let s ← get
  let newSpace ← okOr (checkedSub s.purchasedSpace size) .overflow
  modify fun s => { s with purchasedSpace := newSpace }

/-! ## The block hook -/

/-- One round of the first loop of `frozen_task`: the lease of `token` ends. -/
def freezeTerritory (token : TokenId) : PalletM T Unit := do
  let s ← get
  match s.territoryKey.lookup token with
  | none => pure ()
  | some (acc, name) =>
    attempt <| tryMutateTerritory T acc name .unexpected fun t => do
      if t.state = .onConsignment then
        modify fun s => { s with consignment := s.consignment.erase token }
      let expiredBlock ← okOr (checkedAdd 32 t.deadline T.frozenDays) .overflow
      modify fun s =>
        { s with territoryExpired := s.territoryExpired.insert (expiredBlock, t.token) true }
      pure ((), { t with state := .frozen })

/-- One round of the second loop of `frozen_task`: the frozen period of `token` ends.
The account and name pushed on the returned list do not depend on the outcome. -/
def expireTerritory (token : TokenId) : PalletM T (Option (T.AccountId × TerrName)) := do
  let s ← get
  match s.territoryKey.lookup token with
  | none => pure none
  | some (acc, name) => do
    attempt <| tryMutateTerritory T acc name .unexpected fun t => do
      subPurchasedSpace T t.totalSpace
      pure ((), { t with state := .expired })
    pure (some (acc, name))

/-- `frozen_task`: freeze the leases that end in this block, expire the frozen ones whose
time is over, and return the accounts and names of the latter. -/
def frozenTask : PalletM T (List (T.AccountId × TerrName)) := do
  let s ← get
  (T.hashOrder (s.territoryFrozen.iterPrefix s.now)).forM (freezeTerritory T)
  let s ← get
  let list ← (T.hashOrder (s.territoryExpired.iterPrefix s.now)).mapM (expireTerritory T)
  pure list.reduceOption

/-! ## Dispatchable calls -/

/-- The token drawn for a new territory of `sender`. -/
def newToken (sender : T.AccountId) (now : ℕ) (name : TerrName) : TokenId :=
  (T.random (.token sender now name) now).getD H256.zero

/-- `mint_territory`. -/
def mintTerritory (sender : T.AccountId) (gibCount : ℕ) (territoryName : TerrName)
    (days : ℕ) : PalletM T Unit := do
  let s ← get
  ensure (¬ (sender, territoryName) ∈ s.territory) .purchasedSpace
  ensure (days ≥ 30) .boundariesNotMet
  let token := newToken T sender s.now territoryName
  ensure (¬ token ∈ s.territoryKey) .duplicateTokens
  let space ← okOr (checkedMul 128 gByte gibCount) .overflow
  let dayPrice ← dayUnitPrice T
  storageTerritory T token sender space days territoryName
  addPurchasedSpace T space
  let price ← okOr (checkedMul 128 dayPrice gibCount) .overflow
  let price ← okOr (checkedMul 128 price days) .overflow
  let s ← get
  ensure (T.canSlash s.ledger sender price) .insufficientBalance
  sendToSid T sender price
  depositEvent T (.mintTerritory token territoryName space price)

/-- `expanding_territory`. -/
def expandingTerritory (sender : T.AccountId) (territoryName : TerrName) (gibCount : ℕ) :
    PalletM T Unit := do
  let s ← get
  let curOwnedSpace ← okOr (s.territory.lookup (sender, territoryName)) .notHaveTerritory
  ensure (curOwnedSpace.state = .active) .notActive
  let dayPrice ← dayUnitPrice T
  let space ← okOr (checkedMul 128 gByte gibCount) .overflow
  let diffBlock ← okOr (checkedSub curOwnedSpace.deadline s.now) .overflow
  let remainDay ← roundUpDays T diffBlock
  let price ← okOr (checkedMul 128 dayPrice gibCount) .overflow
  let price ← okOr (checkedMul 128 price remainDay) .overflow
  ensure (T.canSlash s.ledger sender price) .insufficientBalance
  addPurchasedSpace T space
  updateTerritorySpace T sender territoryName space
  sendToSid T sender price
  depositEvent T (.expansionTerritory territoryName space price)

/-- `renewal_territory`. -/
def renewalTerritory (sender : T.AccountId) (territoryName : TerrName) (days : ℕ) :
    PalletM T Unit := do
  let s ← get
  let curOwnedSpace ← okOr (s.territory.lookup (sender, territoryName)) .notHaveTerritory
  ensure (curOwnedSpace.state = .active ∨ curOwnedSpace.state = .frozen) .stateError
  let daysUnitPrice ← dayUnitPrice T
  let gibCount ← okOr (checkedDiv curOwnedSpace.totalSpace gByte) .overflow
  let price ← okOr (checkedMul 128 daysUnitPrice gibCount) .overflow
  let price ← okOr (checkedMul 128 price days) .overflow
  ensure (T.canSlash s.ledger sender price) .insufficientBalance
  sendToSid T sender price
  updateTerritoryDays T sender territoryName days
  depositEvent T (.renewalTerritory territoryName days price)

/-- `reactivate_territory`. -/
def reactivateTerritory (sender : T.AccountId) (territoryName : TerrName) (days : ℕ) :
    PalletM T Unit := do
  let s ← get
  let territory ← okOr (s.territory.lookup (sender, territoryName)) .notHaveTerritory
  ensure (territory.state = .expired) .notExpire
  let daysUnitPrice ← dayUnitPrice T
  let gibCount ← okOr (checkedDiv territory.totalSpace gByte) .overflow
  let price ← okOr (checkedMul 128 daysUnitPrice days) .overflow
  let price ← okOr (checkedMul 128 price gibCount) .overflow
  ensure (T.canSlash s.ledger sender price) .insufficientBalance
  sendToSid T sender price
  addPurchasedSpace T territory.totalSpace
  initialTerritory T sender territoryName days
  depositEvent T (.reactivateTerritory territoryName days price)

/-- `territory_consignment`. -/
def territoryConsignment (sender : T.AccountId) (territoryName : TerrName) (price : ℕ) :
    PalletM T Unit := do
  let token ← tryMutate (fun s : World T => s.territory.lookup (sender, territoryName))
    (fun t s => { s with territory := s.territory.insert (sender, territoryName) t })
    .notHaveTerritory fun t => do
      ensure (t.state = .active) .notActive
      ensure (t.totalSpace = t.remainingSpace) .objectNotZero
      let now := (← get).now
      let remainBlock ← okOr (checkedSub t.deadline now) .overflow
      ensure (remainBlock > T.consignmentRemainingBlock) .insufficientLease
      pure (t.token, { t with state := .onConsignment })
  let s ← get
  ensure (¬ token ∈ s.consignment) .consignmentExisted
  let consignmentInfo : ConsignmentInfo T.AccountId :=
    { user := sender, price := price, buyers := none, exec := none, locked := false }
  modify fun s => { s with consignment := s.consignment.insert token consignmentInfo }
  depositEvent T (.consignment territoryName token price)

/-- `buy_consignment`. -/
def buyConsignment (sender : T.AccountId) (token : TokenId) (rename : TerrName) :
    PalletM T Unit := do
  let s ← get
  let consignment ← okOr (s.consignment.lookup token) .nonExistentConsignment
  ensure (consignment.locked = false) .consignmentLocked
  ensure (consignment.user ≠ sender) .ownConsignment
  tryMutate (fun s : World T => s.consignment.lookup token)
    (fun c s => { s with consignment := s.consignment.insert token c })
    .nonExistentConsignment fun c => do
      let s ← get
      let execBlock ← okOr (checkedAdd 32 s.now T.lockingBlock) .overflow
      let c := { c with buyers := some sender, exec := some execBlock, locked := true }
      let ledger ← okOr (T.reserve s.ledger sender c.price) .currency
      modify fun s => { s with ledger := ledger }
      let call : ScheduledCall := { token := token, territoryName := rename }
      let agenda ← okOr (T.scheduleNamed s.agenda token execBlock call) .unexpected
      modify fun s => { s with agenda := agenda }
      depositEvent T (.buyConsignment rename token c.price)
      pure ((), c)

/-- `exec_consignment`, called with root origin. -/
def execConsignment (token : TokenId) (territoryName : TerrName) : PalletM T Unit := do
  let s ← get
  let consignment ← okOr (s.consignment.lookup token) .nonExistentConsignment
  let buyer ← okOr consignment.buyers .unexpected
  ensure (consignment.locked = true) .consignmentUnLocked
  ensure (T.canSlash s.ledger buyer consignment.price) .insufficientBalance
  let (holder, name) ← okOr (s.territoryKey.lookup token) .unexpected
  let territory ← okOr (s.territory.lookup (holder, name)) .unexpected
  ensure (territory.state = .onConsignment) .unexpected
  modify fun s => { s with territory := s.territory.erase (holder, name) }
  let territory := { territory with state := .active }
  modify fun s => { s with territory := s.territory.insert (buyer, territoryName) territory }
  modify fun s => { s with territoryKey := s.territoryKey.insert token (buyer, territoryName) }
  modify fun s => { s with consignment := s.consignment.erase token }
  modify fun s => { s with ledger := T.unreserve s.ledger buyer consignment.price }
  currencyTransfer T buyer holder consignment.price
  depositEvent T (.execConsignment buyer holder token)

/-- `cancel_consignment`. -/
def cancelConsignment (sender : T.AccountId) (territoryName : TerrName) : PalletM T Unit := do
  let s ← get
  let territory ← okOr (s.territory.lookup (sender, territoryName)) .notHaveTerritory
  ensure (territory.state = .onConsignment) .notOnConsignment
  let consignment ← okOr (s.consignment.lookup territory.token) .nonExistentConsignment
  ensure (consignment.locked = false) .consignmentLocked
  modify fun s => { s with consignment := s.consignment.erase territory.token }
  let territory := { territory with state := .active }
  modify fun s => { s with territory := s.territory.insert (sender, territoryName) territory }
  depositEvent T (.cancleConsignment territory.token)

/-- `cancel_purchase_action`. -/
def cancelPurchaseAction (sender : T.AccountId) (token : TokenId) : PalletM T Unit := do
  tryMutate (fun s : World T => s.consignment.lookup token)
    (fun c s => { s with consignment := s.consignment.insert token c })
    .nonExistentConsignment fun c => do
      let buyer ← okOr c.buyers .notBuyer
      ensure (sender = buyer) .notBuyer
      modify fun s => { s with ledger := T.unreserve s.ledger buyer c.price }
      let c := { c with buyers := none, exec := none, locked := false }
      let s ← get
      let agenda ← okOr (T.cancelNamed s.agenda token) .scheduler
      modify fun s => { s with agenda := agenda }
      pure ((), c)
  depositEvent T (.cancelPurchaseAction token)

/-- `territory_grants`. -/
def territoryGrants (sender : T.AccountId) (territoryName : TerrName)
    (receiver : T.AccountId) : PalletM T Unit := do
  let s ← get
  let territory ← okOr (s.territory.lookup (sender, territoryName)) .notHaveTerritory
  ensure (territory.state = .active) .notActive
  ensure (territory.totalSpace = territory.remainingSpace) .objectNotZero
  let newName := territory.token.toTerrName
  modify fun s => { s with territory := s.territory.erase (sender, territoryName) }
  modify fun s => { s with territory := s.territory.insert (receiver, newName) territory }
  tryMutate (fun s : World T => s.territoryKey.lookup territory.token)
    (fun info s => { s with territoryKey := s.territoryKey.insert territory.token info })
    .unexpected fun _ => pure ((), (receiver, newName))

/-- `territory_rename`. -/
def territoryRename (sender : T.AccountId) (oldName newName : TerrName) : PalletM T Unit := do
  let s ← get
  let territory ← okOr (s.territory.lookup (sender, oldName)) .notHaveTerritory
  ensure (territory.state = .active) .notActive
  ensure (territory.totalSpace = territory.remainingSpace) .objectNotZero
  modify fun s => { s with territory := s.territory.erase (sender, oldName) }
  modify fun s => { s with territory := s.territory.insert (sender, newName) territory }
  tryMutate (fun s : World T => s.territoryKey.lookup territory.token)
    (fun info s => { s with territoryKey := s.territoryKey.insert territory.token info })
    .unexpected fun info => pure ((), (info.1, newName))

/-- The key under which `create_order` files an order in block `now`. -/
def orderKey (now : ℕ) : OrderId :=
  orderIdOfHash ((T.random (.order now) now).getD H256.zero)

/-- The price `create_order` records for an order. -/
def orderPrice (targetAcc : T.AccountId) (territoryName : TerrName) (orderType : OrderType)
    (gibCount days : ℕ) : PalletM T ℕ := do
  let s ← get
  match orderType with
  | .buy => do
    ensure (¬ (targetAcc, territoryName) ∈ s.territory) .purchasedSpace
    calculatePrice T gibCount days
  | .expansion => do
    let userOwnedSpace ← okOr (s.territory.lookup (targetAcc, territoryName)) .notHaveTerritory
    let remainDay ← calculateRemainDay T userOwnedSpace.deadline
    calculatePrice T gibCount remainDay
  | .renewal => do
    let userOwnedSpace ← okOr (s.territory.lookup (targetAcc, territoryName)) .notHaveTerritory
    let gibCount ← okOr (checkedDiv userOwnedSpace.totalSpace gByte) .overflow
    -- `gib_count as u32` keeps the low 32 bits
    calculatePrice T (gibCount % 2 ^ 32) days

/-- `create_order`; `expired` is in minutes. -/
def createOrder (targetAcc : T.AccountId) (territoryName : TerrName) (orderType : OrderType)
    (gibCount days expired : ℕ) : PalletM T Unit := do
  let expired ← okOr (checkedMul 32 expired 6) .overflow
  ensure (expired < T.oneHours) .paramError
  let price ← orderPrice T targetAcc territoryName orderType gibCount days
  let now := (← get).now
  let expired ← okOr (checkedAdd 32 now expired) .overflow
  let payOrder : OrderInfo T.AccountId :=
    { territoryName := territoryName, pay := price, gibCount := gibCount, days := days,
      expired := expired, targetAcc := targetAcc, orderType := orderType }
  modify fun s => { s with payOrder := s.payOrder.insert (orderKey T now) payOrder }
  depositEvent T (.createPayOrder (orderKey T now))

/-- The part of `exec_order` that depends on the order type. -/
def execOrderType (sender : T.AccountId) (order : OrderInfo T.AccountId) : PalletM T Unit := do
  let s ← get
  match order.orderType with
  | .buy => do
    ensure (¬ (order.targetAcc, order.territoryName) ∈ s.territory) .purchasedSpace
    let space ← okOr (checkedMul 128 gByte order.gibCount) .overflow
    let token := newToken T sender s.now order.territoryName
    ensure (¬ token ∈ s.territoryKey) .duplicateTokens
    storageTerritory T token order.targetAcc space order.days order.territoryName
    addPurchasedSpace T space
  | .expansion => do
    let userOwnedSpace ←
      okOr (s.territory.lookup (order.targetAcc, order.territoryName)) .notHaveTerritory
    let remainDay ← calculateRemainDay T userOwnedSpace.deadline
    let price ← calculatePrice T order.gibCount remainDay
    ensure (price = order.pay) .invalidOrder
    let space ← okOr (checkedMul 128 gByte order.gibCount) .overflow
    addPurchasedSpace T space
    updateTerritorySpace T order.targetAcc order.territoryName space
  | .renewal => do
    let userOwnedSpace ←
      okOr (s.territory.lookup (order.targetAcc, order.territoryName)) .notHaveTerritory
    let gibCount ← okOr (checkedDiv userOwnedSpace.totalSpace gByte) .overflow
    let price ← calculatePrice T (gibCount % 2 ^ 32) order.days
    ensure (price = order.pay) .invalidOrder
    updateTerritoryDays T order.targetAcc order.territoryName order.days

/-- `exec_order`. -/
def execOrder (sender : T.AccountId) (orderId : OrderId) : PalletM T Unit := do
  let s ← get
  let order ← okOr (s.payOrder.lookup orderId) .noOrder
  ensure (order.expired > s.now) .orderExpired
  execOrderType T sender order
  sendToSid T sender order.pay
  depositEvent T (.paidOrder orderId)

/-! ## The `StorageHandle` operations -/

/-- `check_territry_owner`. -/
def checkTerritryOwner (acc : T.AccountId) (name : TerrName) : PalletM T Unit := do
  let s ← get
  ensure ((acc, name) ∈ s.territory) .notHaveTerritory

/-- `check_expired`: an absent territory counts as expired. -/
def checkExpired {T : Config} (s : World T) (acc : T.AccountId) (name : TerrName) : Bool :=
  match s.territory.lookup (acc, name) with
  | some territory => territory.state = .expired
  | none => true

/-- `add_territory_used_space`. -/
def addTerritoryUsedSpace (acc : T.AccountId) (name : TerrName) (size : ℕ) : PalletM T Unit :=
  tryMutateTerritory T acc name .notHaveTerritory fun t => do
    ensure (t.state = .active) .notActive
    ensure (size ≤ t.remainingSpace) .insufficientStorage
    let used ← okOr (checkedAdd 128 t.usedSpace size) .overflow
    let remaining ← okOr (checkedSub t.remainingSpace size) .overflow
    pure ((), { t with usedSpace := used, remainingSpace := remaining })

/-- `sub_territory_used_space`. -/
def subTerritoryUsedSpace (acc : T.AccountId) (name : TerrName) (size : ℕ) : PalletM T Unit :=
  tryMutateTerritory T acc name .notHaveTerritory fun t => do
    let used ← okOr (checkedSub t.usedSpace size) .overflow
    let remaining ← okOr (checkedAdd 128 t.remainingSpace size) .overflow
    pure ((), { t with usedSpace := used, remainingSpace := remaining })

/-- `add_total_idle_space`. -/
def addTotalIdleSpace (increment : ℕ) : PalletM T Unit := do
  let s ← get
  let total ← okOr (checkedAdd 128 s.totalIdleSpace increment) .overflow
  modify fun s => { s with totalIdleSpace := total }

/-- `sub_total_idle_space`. -/
def subTotalIdleSpace (decrement : ℕ) : PalletM T Unit := do
  let s ← get
  let total ← okOr (checkedSub s.totalIdleSpace decrement) .overflow
  modify fun s => { s with totalIdleSpace := total }

/-- `add_total_service_space`. -/
def addTotalServiceSpace (increment : ℕ) : PalletM T Unit := do
  let s ← get
  let total ← okOr (checkedAdd 128 s.totalServiceSpace increment) .overflow
  modify fun s => { s with totalServiceSpace := total }

/-- `sub_total_service_space`. -/
def subTotalServiceSpace (decrement : ℕ) : PalletM T Unit := do
  let s ← get
  let total ← okOr (checkedSub s.totalServiceSpace decrement) .overflow
  modify fun s => { s with totalServiceSpace := total }

/-- `lock_user_space`. -/
def lockUserSpace (acc : T.AccountId) (name : TerrName) (neededSpace : ℕ) : PalletM T Unit :=
  tryMutateTerritory T acc name .notHaveTerritory fun t => do
    ensure (t.state = .active) .notActive
    ensure (t.remainingSpace ≥ neededSpace) .insufficientStorage
    let locked ← okOr (checkedAdd 128 t.lockedSpace neededSpace) .overflow
    let remaining ← okOr (checkedSub t.remainingSpace neededSpace) .overflow
    pure ((), { t with lockedSpace := locked, remainingSpace := remaining })

/-- `unlock_user_space`. -/
def unlockUserSpace (acc : T.AccountId) (name : TerrName) (neededSpace : ℕ) : PalletM T Unit :=
  tryMutateTerritory T acc name .notHaveTerritory fun t => do
    let locked ← okOr (checkedSub t.lockedSpace neededSpace) .overflow
    let remaining ← okOr (checkedAdd 128 t.remainingSpace neededSpace) .overflow
    pure ((), { t with lockedSpace := locked, remainingSpace := remaining })

/-- `unlock_and_used_user_space`. -/
def unlockAndUsedUserSpace (acc : T.AccountId) (name : TerrName) (neededSpace : ℕ) :
    PalletM T Unit :=
  tryMutateTerritory T acc name .notHaveTerritory fun t => do
    let locked ← okOr (checkedSub t.lockedSpace neededSpace) .overflow
    let used ← okOr (checkedAdd 128 t.usedSpace neededSpace) .overflow
    pure ((), { t with lockedSpace := locked, usedSpace := used })

/-- `get_user_avail_space`. -/
def getUserAvailSpace (acc : T.AccountId) (name : TerrName) : PalletM T ℕ := do
  let s ← get
  let info ← okOr (s.territory.lookup (acc, name)) .notHaveTerritory
  pure info.remainingSpace

end StorageHandler
