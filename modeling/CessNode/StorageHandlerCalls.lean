/-
# What the storage-handler calls do

`Call` is a dispatchable call (the root calls for tests are left out), and `Call.Ran` says what a
call has done that succeeds: its checks held in the storage it started from, and the final storage
is the first one with the listed items rewritten.  There is an inversion lemma for each
`StorageHandle` operation as well.  The four ways in which a lease changes as a
whole (a new lease, more space, more days, a fresh start) have a name of their own, since
a direct call and an order reach each of the first three.
-/
import CessNode.StorageHandlerSpec

open Dispatch

namespace StorageHandler

section Calls

variable (T : Config)

/-- A dispatchable call with its origin. -/
inductive Call where
  | mintTerritory (sender : T.AccountId) (gibCount : ℕ) (name : TerrName) (days : ℕ)
  | expandingTerritory (sender : T.AccountId) (name : TerrName) (gibCount : ℕ)
  | renewalTerritory (sender : T.AccountId) (name : TerrName) (days : ℕ)
  | reactivateTerritory (sender : T.AccountId) (name : TerrName) (days : ℕ)
  | territoryConsignment (sender : T.AccountId) (name : TerrName) (price : ℕ)
  | buyConsignment (sender : T.AccountId) (token : TokenId) (rename : TerrName)
  /-- Origin root. -/
  | execConsignment (token : TokenId) (name : TerrName)
  | cancelConsignment (sender : T.AccountId) (name : TerrName)
  | cancelPurchaseAction (sender : T.AccountId) (token : TokenId)
  | territoryGrants (sender : T.AccountId) (name : TerrName) (receiver : T.AccountId)
  | territoryRename (sender : T.AccountId) (oldName newName : TerrName)
  /-- Any signed origin. -/
  | createOrder (targetAcc : T.AccountId) (name : TerrName) (orderType : OrderType)
      (gibCount days expired : ℕ)
  | execOrder (sender : T.AccountId) (orderId : OrderId)

/-- The code of a call. -/
def Call.code : Call T → PalletM T Unit
  | .mintTerritory sender gibCount name days => StorageHandler.mintTerritory T sender gibCount name days
  | .expandingTerritory sender name gibCount => StorageHandler.expandingTerritory T sender name gibCount
  | .renewalTerritory sender name days => StorageHandler.renewalTerritory T sender name days
  | .reactivateTerritory sender name days => StorageHandler.reactivateTerritory T sender name days
  | .territoryConsignment sender name price => StorageHandler.territoryConsignment T sender name price
  | .buyConsignment sender token rename => StorageHandler.buyConsignment T sender token rename
  | .execConsignment token name => StorageHandler.execConsignment T token name
  | .cancelConsignment sender name => StorageHandler.cancelConsignment T sender name
  | .cancelPurchaseAction sender token => StorageHandler.cancelPurchaseAction T sender token
  | .territoryGrants sender name receiver => StorageHandler.territoryGrants T sender name receiver
  | .territoryRename sender oldName newName => StorageHandler.territoryRename T sender oldName newName
  | .createOrder targetAcc name orderType gibCount days expired =>
    StorageHandler.createOrder T targetAcc name orderType gibCount days expired
  | .execOrder sender orderId => StorageHandler.execOrder T sender orderId

end Calls

variable {T : Config}
variable {sender acc : T.AccountId} {gibCount days size : ℕ} {name : TerrName} {token : TokenId}

/-! ## Whole-lease updates -/

/-- The storage after a new lease of `blocks` blocks over `space` bytes. -/
def World.leased (s : World T) (token : TokenId) (key : T.AccountId × TerrName)
    (space blocks : ℕ) : World T :=
  { s with
    territory := s.territory.insert key (newTerritory token space s.now (s.now + blocks))
    territoryKey := s.territoryKey.insert token key
    territoryFrozen := s.territoryFrozen.insert (s.now + blocks, token) true
    territoryFrozenCounter := counterUp s.territoryFrozenCounter (s.now + blocks)
    purchasedSpace := s.purchasedSpace + space }

/-- The territory `update_territory_space` writes. -/
def TerritoryInfo.expanded (t : TerritoryInfo) (space : ℕ) : TerritoryInfo :=
  { t with remainingSpace := t.remainingSpace + space, totalSpace := t.totalSpace + space }

/-- The storage after the territory `t` under `key` has grown by `space` bytes. -/
def World.expanded (s : World T) (key : T.AccountId × TerrName) (t : TerritoryInfo)
    (space : ℕ) : World T :=
  { s with
    territory := s.territory.insert key (t.expanded space)
    purchasedSpace := s.purchasedSpace + space }

/-- The storage after the lease `t` under `key` has been prolonged by `blocks` blocks. -/
def World.prolonged (s : World T) (key : T.AccountId × TerrName) (t : TerritoryInfo)
    (blocks : ℕ) : World T :=
  { s with
    territory := s.territory.insert key (t.renewed s.now blocks)
    territoryFrozen := (s.territoryFrozen.erase (t.deadline, t.token)).insert
      (t.renewedDeadline s.now blocks, t.token) true
    territoryFrozenCounter :=
      counterUp (counterDown s.territoryFrozenCounter t.deadline) (t.renewedDeadline s.now blocks)
    territoryExpired := s.territoryExpired.erase (t.deadline + T.frozenDays, t.token) }

/-- The storage after the expired territory `t` under `key` has been leased again. -/
def World.restarted (s : World T) (key : T.AccountId × TerrName) (t : TerritoryInfo)
    (blocks : ℕ) : World T :=
  { s with
    territory := s.territory.insert key (t.initialised s.now blocks)
    territoryFrozen := s.territoryFrozen.insert (s.now + blocks, t.token) true
    territoryFrozenCounter := counterUp s.territoryFrozenCounter (s.now + blocks)
    purchasedSpace := s.purchasedSpace + t.totalSpace }

variable {s s' : World T} {u : Unit}

/-! ## Calls -/

/-- **What a call that succeeds has checked and done.** -/
inductive Call.Ran (s : World T) : Call T → World T → Prop
  | mintTerritory {sender : T.AccountId} {gibCount days unitPrice : ℕ} {name : TerrName}
      {ledger : T.Ledger} (hkey : (sender, name) ∉ s.territory)
      (htoken : newToken T sender s.now name ∉ s.territoryKey) (hdays : 30 ≤ days)
      (hdeadline : s.now + T.oneDay * days < 2 ^ 32) (hunit : s.unitPrice = some unitPrice)
      (htransfer : T.transfer s.ledger sender T.spaceTreasury (unitPrice / 30 * gibCount * days) =
        some ledger) :
      Ran s (.mintTerritory sender gibCount name days)
        { s.leased (newToken T sender s.now name) (sender, name) (gByte * gibCount)
            (T.oneDay * days) with
          ledger := ledger
          events := s.events ++ [.mintTerritory (newToken T sender s.now name) name
            (gByte * gibCount) (unitPrice / 30 * gibCount * days)] }
  | expandingTerritory {sender : T.AccountId} {gibCount unitPrice : ℕ} {name : TerrName}
      {t : TerritoryInfo} {ledger : T.Ledger} (ht : s.territory.lookup (sender, name) = some t)
      (hstate : t.state = .active) (hnow : s.now ≤ t.deadline)
      (hunit : s.unitPrice = some unitPrice)
      (htransfer : T.transfer s.ledger sender T.spaceTreasury
        (unitPrice / 30 * gibCount * daysOfBlocks T (t.deadline - s.now)) = some ledger) :
      Ran s (.expandingTerritory sender name gibCount)
        { s.expanded (sender, name) t (gByte * gibCount) with
          ledger := ledger
          events := s.events ++ [.expansionTerritory name (gByte * gibCount)
            (unitPrice / 30 * gibCount * daysOfBlocks T (t.deadline - s.now))] }
  | renewalTerritory {sender : T.AccountId} {days unitPrice : ℕ} {name : TerrName}
      {t : TerritoryInfo} {ledger : T.Ledger} (ht : s.territory.lookup (sender, name) = some t)
      (hstate : t.state = .active ∨ t.state = .frozen)
      (hdeadline : t.deadline + T.frozenDays < 2 ^ 32) (hunit : s.unitPrice = some unitPrice)
      (htransfer : T.transfer s.ledger sender T.spaceTreasury
        (unitPrice / 30 * (t.totalSpace / gByte) * days) = some ledger) :
      Ran s (.renewalTerritory sender name days)
        { s.prolonged (sender, name) t (T.oneDay * days) with
          ledger := ledger
          events := s.events ++ [.renewalTerritory name days
            (unitPrice / 30 * (t.totalSpace / gByte) * days)] }
  | reactivateTerritory {sender : T.AccountId} {days unitPrice : ℕ} {name : TerrName}
      {t : TerritoryInfo} {ledger : T.Ledger} (ht : s.territory.lookup (sender, name) = some t)
      (hstate : t.state = .expired) (hdeadline : s.now + T.oneDay * days < 2 ^ 32)
      (hunit : s.unitPrice = some unitPrice)
      (htransfer : T.transfer s.ledger sender T.spaceTreasury
        (unitPrice / 30 * days * (t.totalSpace / gByte)) = some ledger) :
      Ran s (.reactivateTerritory sender name days)
        { s.restarted (sender, name) t (T.oneDay * days) with
          ledger := ledger
          events := s.events ++ [.reactivateTerritory name days
            (unitPrice / 30 * days * (t.totalSpace / gByte))] }
  | territoryConsignment {sender : T.AccountId} {price : ℕ} {name : TerrName} {t : TerritoryInfo}
      (ht : s.territory.lookup (sender, name) = some t) (hstate : t.state = .active)
      (hfree : t.totalSpace = t.remainingSpace) (hnow : s.now < t.deadline)
      (hnew : t.token ∉ s.consignment) :
      Ran s (.territoryConsignment sender name price)
        { s with
          territory := s.territory.insert (sender, name) { t with state := .onConsignment }
          consignment := s.consignment.insert t.token
            { user := sender, price := price, buyers := none, exec := none, locked := false }
          events := s.events ++ [.consignment name t.token price] }
  | buyConsignment {sender : T.AccountId} {token : TokenId} {rename : TerrName}
      {c : ConsignmentInfo T.AccountId} {ledger : T.Ledger} {agenda : T.Agenda}
      (hc : s.consignment.lookup token = some c) (hlocked : c.locked = false)
      (huser : c.user ≠ sender) (hreserve : T.reserve s.ledger sender c.price = some ledger)
      (hschedule : T.scheduleNamed s.agenda token (s.now + T.lockingBlock) ⟨token, rename⟩ =
        some agenda) :
      Ran s (.buyConsignment sender token rename)
        { s with
          ledger := ledger
          agenda := agenda
          consignment := s.consignment.insert token
            { c with buyers := some sender, exec := some (s.now + T.lockingBlock), locked := true }
          events := s.events ++ [.buyConsignment rename token c.price] }
  | execConsignment {token : TokenId} {name : TerrName} {c : ConsignmentInfo T.AccountId}
      {buyer : T.AccountId} {key : T.AccountId × TerrName} {t : TerritoryInfo} {ledger : T.Ledger}
      (hc : s.consignment.lookup token = some c) (hbuyer : c.buyers = some buyer)
      (hlocked : c.locked = true) (hkey : s.territoryKey.lookup token = some key)
      (ht : s.territory.lookup key = some t) (hstate : t.state = .onConsignment)
      (htransfer : T.transfer (T.unreserve s.ledger buyer c.price) buyer key.1 c.price =
        some ledger) :
      Ran s (.execConsignment token name)
        { s with
          ledger := ledger
          territory := (s.territory.erase key).insert (buyer, name) { t with state := .active }
          territoryKey := s.territoryKey.insert token (buyer, name)
          consignment := s.consignment.erase token
          events := s.events ++ [.execConsignment buyer key.1 token] }
  | cancelConsignment {sender : T.AccountId} {name : TerrName} {t : TerritoryInfo}
      {c : ConsignmentInfo T.AccountId} (ht : s.territory.lookup (sender, name) = some t)
      (hstate : t.state = .onConsignment) (hc : s.consignment.lookup t.token = some c)
      (hlocked : c.locked = false) :
      Ran s (.cancelConsignment sender name)
        { s with
          consignment := s.consignment.erase t.token
          territory := s.territory.insert (sender, name) { t with state := .active }
          events := s.events ++ [.cancleConsignment t.token] }
  | cancelPurchaseAction {sender : T.AccountId} {token : TokenId}
      {c : ConsignmentInfo T.AccountId} {agenda : T.Agenda}
      (hc : s.consignment.lookup token = some c) (hbuyer : c.buyers = some sender)
      (hcancel : T.cancelNamed s.agenda token = some agenda) :
      Ran s (.cancelPurchaseAction sender token)
        { s with
          ledger := T.unreserve s.ledger sender c.price
          agenda := agenda
          consignment := s.consignment.insert token
            { c with buyers := none, exec := none, locked := false }
          events := s.events ++ [.cancelPurchaseAction token] }
  | territoryGrants {sender receiver : T.AccountId} {name : TerrName} {t : TerritoryInfo}
      {key : T.AccountId × TerrName} (ht : s.territory.lookup (sender, name) = some t)
      (hstate : t.state = .active) (hfree : t.totalSpace = t.remainingSpace)
      (hkey : s.territoryKey.lookup t.token = some key) :
      Ran s (.territoryGrants sender name receiver)
        { s with
          territory := (s.territory.erase (sender, name)).insert (receiver, t.token.toTerrName) t
          territoryKey := s.territoryKey.insert t.token (receiver, t.token.toTerrName) }
  | territoryRename {sender : T.AccountId} {oldName newName : TerrName} {t : TerritoryInfo}
      {key : T.AccountId × TerrName} (ht : s.territory.lookup (sender, oldName) = some t)
      (hstate : t.state = .active) (hfree : t.totalSpace = t.remainingSpace)
      (hkey : s.territoryKey.lookup t.token = some key) :
      Ran s (.territoryRename sender oldName newName)
        { s with
          territory := (s.territory.erase (sender, oldName)).insert (sender, newName) t
          territoryKey := s.territoryKey.insert t.token (key.1, newName) }
  | createOrder {targetAcc : T.AccountId} {name : TerrName} {orderType : OrderType}
      {gibCount days expired price : ℕ}
      (hprice : (orderPrice T targetAcc name orderType gibCount days).run s = .ok price s)
      (hhour : expired * 6 < T.oneHours) (hexpired : s.now + expired * 6 < 2 ^ 32) :
      Ran s (.createOrder targetAcc name orderType gibCount days expired)
        { s with
          payOrder := s.payOrder.insert (orderKey T s.now)
            { territoryName := name, pay := price, gibCount := gibCount, days := days,
              expired := s.now + expired * 6, targetAcc := targetAcc, orderType := orderType }
          events := s.events ++ [.createPayOrder (orderKey T s.now)] }
  -- `exec_order` changes a lease by the type of the order, and then takes the payment
  | buyOrder {sender : T.AccountId} {orderId : OrderId} {order : OrderInfo T.AccountId}
      {ledger : T.Ledger} (horder : s.payOrder.lookup orderId = some order)
      (hexpired : s.now < order.expired) (htype : order.orderType = .buy)
      (hkey : (order.targetAcc, order.territoryName) ∉ s.territory)
      (htoken : newToken T sender s.now order.territoryName ∉ s.territoryKey)
      (hdeadline : s.now + T.oneDay * order.days < 2 ^ 32)
      (htransfer : T.transfer s.ledger sender T.spaceTreasury order.pay = some ledger) :
      Ran s (.execOrder sender orderId)
        { s.leased (newToken T sender s.now order.territoryName)
            (order.targetAcc, order.territoryName) (gByte * order.gibCount)
            (T.oneDay * order.days) with
          ledger := ledger, events := s.events ++ [.paidOrder orderId] }
  | expansionOrder {sender : T.AccountId} {orderId : OrderId} {order : OrderInfo T.AccountId}
      {t : TerritoryInfo} {unitPrice : ℕ} {ledger : T.Ledger}
      (horder : s.payOrder.lookup orderId = some order) (hexpired : s.now < order.expired)
      (htype : order.orderType = .expansion)
      (ht : s.territory.lookup (order.targetAcc, order.territoryName) = some t)
      (hnow : s.now ≤ t.deadline) (hunit : s.unitPrice = some unitPrice)
      (hpay : order.gibCount * daysOfBlocks T (t.deadline - s.now) * unitPrice = order.pay)
      (htransfer : T.transfer s.ledger sender T.spaceTreasury order.pay = some ledger) :
      Ran s (.execOrder sender orderId)
        { s.expanded (order.targetAcc, order.territoryName) t (gByte * order.gibCount) with
          ledger := ledger, events := s.events ++ [.paidOrder orderId] }
  | renewalOrder {sender : T.AccountId} {orderId : OrderId} {order : OrderInfo T.AccountId}
      {t : TerritoryInfo} {unitPrice : ℕ} {ledger : T.Ledger}
      (horder : s.payOrder.lookup orderId = some order) (hexpired : s.now < order.expired)
      (htype : order.orderType = .renewal)
      (ht : s.territory.lookup (order.targetAcc, order.territoryName) = some t)
      (hdeadline : t.deadline + T.frozenDays < 2 ^ 32) (hunit : s.unitPrice = some unitPrice)
      (hpay : t.totalSpace / gByte % 2 ^ 32 * order.days * unitPrice = order.pay)
      (htransfer : T.transfer s.ledger sender T.spaceTreasury order.pay = some ledger) :
      Ran s (.execOrder sender orderId)
        { s.prolonged (order.targetAcc, order.territoryName) t (T.oneDay * order.days) with
          ledger := ledger, events := s.events ++ [.paidOrder orderId] }

/-- Pricing an order reads the storage only. -/
theorem orderPrice_keeps {targetAcc : T.AccountId} {orderType : OrderType} {price : ℕ}
    (h : (orderPrice T targetAcc name orderType gibCount days).run s = .ok price s') : s' = s := by
  cases orderType <;>
    simp only [orderPrice, run_ok, run_calculatePrice_ok, run_calculateRemainDay_ok,
      checkedDiv_eq_some, existsAndEq] at h
  · obtain ⟨-, _, -, -, -, -, rfl⟩ := h
    rfl
  · obtain ⟨_, -, -, -, -, _, -, -, -, -, rfl⟩ := h
    rfl
  · obtain ⟨_, -, -, _, -, -, -, -, rfl⟩ := h
    rfl

/-- **The calls**, one by one. -/
theorem Call.code_ran (call : Call T) (h : (call.code T).run s = .ok u s') : call.Ran s s' := by
  cases call with
  | mintTerritory =>
    simp only [Call.code, StorageHandler.mintTerritory, run_ok, run_dayUnitPrice_ok,
      run_storageTerritory_ok, run_addPurchasedSpace_ok, run_sendToSid_ok, run_depositEvent_ok,
      checkedMul_eq_some, existsAndEq] at h
    obtain ⟨hkey, hdays, htoken, -, unitPrice, hunit, -, hdeadline, -, -, -, -, -, -, -, -, ledger,
      htransfer, rfl⟩ := h
    exact .mintTerritory hkey htoken hdays hdeadline hunit htransfer
  | expandingTerritory =>
    simp only [Call.code, StorageHandler.expandingTerritory, run_ok, run_dayUnitPrice_ok,
      run_roundUpDays_ok, run_updateTerritorySpace_ok, run_addPurchasedSpace_ok, run_sendToSid_ok,
      run_depositEvent_ok, checkedMul_eq_some, checkedSub_eq_some, existsAndEq] at h
    obtain ⟨t, ht, hactive, unitPrice, hunit, -, hnow, -, -, -, -, -, -, -, -, t', ht', -, -, ledger,
      htransfer, rfl⟩ := h
    obtain rfl : t = t' := Option.mem_unique ht ht'
    exact .expandingTerritory ht hactive hnow hunit htransfer
  | renewalTerritory =>
    simp only [Call.code, StorageHandler.renewalTerritory, run_ok, run_dayUnitPrice_ok,
      run_updateTerritoryDays_ok, run_sendToSid_ok, run_depositEvent_ok, checkedMul_eq_some,
      checkedDiv_eq_some, existsAndEq] at h
    obtain ⟨t, ht, hstate, unitPrice, hunit, -, -, -, -, ledger, htransfer, t', ht', -, hdeadline,
      -, -, -, -, rfl⟩ := h
    obtain rfl : t = t' := Option.mem_unique ht ht'
    exact .renewalTerritory ht hstate hdeadline hunit htransfer
  | reactivateTerritory =>
    simp only [Call.code, StorageHandler.reactivateTerritory, run_ok, run_dayUnitPrice_ok,
      run_initialTerritory_ok, run_addPurchasedSpace_ok, run_sendToSid_ok, run_depositEvent_ok,
      checkedMul_eq_some, checkedDiv_eq_some, existsAndEq] at h
    obtain ⟨t, ht, hstate, unitPrice, hunit, -, -, -, -, ledger, htransfer, -, -, -, t', ht', -,
      hdeadline, -, -, rfl⟩ := h
    obtain rfl : t = t' := Option.mem_unique ht ht'
    exact .reactivateTerritory ht hstate hdeadline hunit htransfer
  | territoryConsignment =>
    simp only [Call.code, StorageHandler.territoryConsignment, run_ok, run_tryMutate_ok,
      run_depositEvent_ok, checkedSub_eq_some, existsAndEq, Prod.mk.injEq] at h
    obtain ⟨t, ht, hactive, hfree, -, hremain, hnew, rfl⟩ := h
    exact .territoryConsignment ht hactive hfree (by omega) hnew
  | buyConsignment =>
    simp only [Call.code, StorageHandler.buyConsignment, run_ok, run_tryMutate_ok,
      run_depositEvent_ok, checkedAdd_eq_some, existsAndEq, Prod.mk.injEq] at h
    obtain ⟨c, hc, hlocked, huser, c', hc', -, ledger, hreserve, agenda, hschedule, rfl⟩ := h
    obtain rfl : c = c' := Option.mem_unique hc hc'
    exact .buyConsignment hc hlocked huser hreserve hschedule
  | execConsignment =>
    simp only [Call.code, StorageHandler.execConsignment, run_ok, run_currencyTransfer_ok,
      run_depositEvent_ok, existsAndEq] at h
    obtain ⟨c, hc, buyer, hbuyer, hlocked, -, key, hkey, t, ht, hstate, ledger, htransfer, rfl⟩ := h
    exact .execConsignment hc hbuyer hlocked hkey ht hstate htransfer
  | cancelConsignment =>
    simp only [Call.code, StorageHandler.cancelConsignment, run_ok, run_depositEvent_ok,
      existsAndEq] at h
    obtain ⟨t, ht, hstate, c, hc, hlocked, rfl⟩ := h
    exact .cancelConsignment ht hstate hc hlocked
  | cancelPurchaseAction =>
    simp only [Call.code, StorageHandler.cancelPurchaseAction, run_ok, run_tryMutate_ok,
      run_depositEvent_ok, existsAndEq, Prod.mk.injEq] at h
    obtain ⟨c, hc, hbuyer, agenda, hcancel, rfl⟩ := h
    exact .cancelPurchaseAction hc hbuyer hcancel
  | territoryGrants =>
    simp only [Call.code, StorageHandler.territoryGrants, run_ok, run_tryMutate_ok, existsAndEq,
      Prod.mk.injEq] at h
    obtain ⟨t, ht, hactive, hfree, key, hkey, rfl⟩ := h
    exact .territoryGrants ht hactive hfree hkey
  | territoryRename =>
    simp only [Call.code, StorageHandler.territoryRename, run_ok, run_tryMutate_ok, existsAndEq,
      Prod.mk.injEq] at h
    obtain ⟨t, ht, hactive, hfree, key, hkey, rfl⟩ := h
    exact .territoryRename ht hactive hfree hkey
  | createOrder =>
    simp only [Call.code, StorageHandler.createOrder, run_ok, run_depositEvent_ok,
      checkedMul_eq_some, checkedAdd_eq_some, existsAndEq] at h
    obtain ⟨-, hhour, price, s₁, hprice, hexpired, rfl⟩ := h
    obtain rfl := orderPrice_keeps hprice
    exact .createOrder hprice hhour hexpired
  | execOrder =>
    simp only [Call.code, StorageHandler.execOrder, run_ok, run_sendToSid_ok, run_depositEvent_ok,
      existsAndEq] at h
    obtain ⟨order, horder, hexpired, _, s₁, hexec, ledger, htransfer, rfl⟩ := h
    unfold execOrderType at hexec
    cases htype : order.orderType with
    | buy =>
      simp only [htype, run_ok, run_storageTerritory_ok, run_addPurchasedSpace_ok,
        checkedMul_eq_some, existsAndEq] at hexec
      obtain ⟨hkey, -, htoken, -, hdeadline, -, -, -, -, -, rfl⟩ := hexec
      exact .buyOrder horder hexpired htype hkey htoken hdeadline htransfer
    | expansion =>
      simp only [htype, run_ok, run_calculateRemainDay_ok, run_calculatePrice_ok,
        run_updateTerritorySpace_ok, run_addPurchasedSpace_ok, checkedMul_eq_some,
        existsAndEq] at hexec
      obtain ⟨t, ht, hnow, -, -, unitPrice, hunit, -, -, hpay, -, -, -, -, t', ht', -, -, rfl⟩ :=
        hexec
      obtain rfl : t = t' := Option.mem_unique ht ht'
      exact .expansionOrder horder hexpired htype ht hnow hunit hpay htransfer
    | renewal =>
      simp only [htype, run_ok, run_calculatePrice_ok, run_updateTerritoryDays_ok,
        checkedDiv_eq_some, existsAndEq] at hexec
      obtain ⟨t, ht, -, unitPrice, hunit, -, -, hpay, t', ht', -, hdeadline, -, -, -, -, rfl⟩ :=
        hexec
      obtain rfl : t = t' := Option.mem_unique ht ht'
      exact .renewalOrder horder hexpired htype ht hdeadline hunit hpay htransfer

/-! ## The `StorageHandle` operations -/

theorem run_addTerritoryUsedSpace_ok :
    (addTerritoryUsedSpace T acc name size).run s = .ok u s' ↔
      ∃ t, s.territory.lookup (acc, name) = some t ∧ t.state = .active ∧
        size ≤ t.remainingSpace ∧ t.usedSpace + size < 2 ^ 128 ∧
        { s with
          territory := s.territory.insert (acc, name)
            { t with usedSpace := t.usedSpace + size, remainingSpace := t.remainingSpace - size } } = s' := by
  simp only [addTerritoryUsedSpace, run_tryMutateTerritory_ok, run_ok, checkedAdd_eq_some,
    checkedSub_eq_some, existsAndEq]
  grind

theorem run_subTerritoryUsedSpace_ok :
    (subTerritoryUsedSpace T acc name size).run s = .ok u s' ↔
      ∃ t, s.territory.lookup (acc, name) = some t ∧ size ≤ t.usedSpace ∧
        t.remainingSpace + size < 2 ^ 128 ∧
        { s with
          territory := s.territory.insert (acc, name)
            { t with usedSpace := t.usedSpace - size, remainingSpace := t.remainingSpace + size } } = s' := by
  simp only [subTerritoryUsedSpace, run_tryMutateTerritory_ok, run_ok, checkedAdd_eq_some,
    checkedSub_eq_some, existsAndEq, Prod.mk.injEq]

theorem run_lockUserSpace_ok :
    (lockUserSpace T acc name size).run s = .ok u s' ↔
      ∃ t, s.territory.lookup (acc, name) = some t ∧ t.state = .active ∧
        size ≤ t.remainingSpace ∧ t.lockedSpace + size < 2 ^ 128 ∧
        { s with
          territory := s.territory.insert (acc, name)
            { t with lockedSpace := t.lockedSpace + size, remainingSpace := t.remainingSpace - size } } = s' := by
  simp only [lockUserSpace, run_tryMutateTerritory_ok, run_ok, checkedAdd_eq_some,
    checkedSub_eq_some, existsAndEq]
  grind

theorem run_unlockUserSpace_ok :
    (unlockUserSpace T acc name size).run s = .ok u s' ↔
      ∃ t, s.territory.lookup (acc, name) = some t ∧ size ≤ t.lockedSpace ∧
        t.remainingSpace + size < 2 ^ 128 ∧
        { s with
          territory := s.territory.insert (acc, name)
            { t with lockedSpace := t.lockedSpace - size, remainingSpace := t.remainingSpace + size } } = s' := by
  simp only [unlockUserSpace, run_tryMutateTerritory_ok, run_ok, checkedAdd_eq_some,
    checkedSub_eq_some, existsAndEq, Prod.mk.injEq]

theorem run_unlockAndUsedUserSpace_ok :
    (unlockAndUsedUserSpace T acc name size).run s = .ok u s' ↔
      ∃ t, s.territory.lookup (acc, name) = some t ∧ size ≤ t.lockedSpace ∧
        t.usedSpace + size < 2 ^ 128 ∧
        { s with
          territory := s.territory.insert (acc, name)
            { t with lockedSpace := t.lockedSpace - size, usedSpace := t.usedSpace + size } } = s' := by
  simp only [unlockAndUsedUserSpace, run_tryMutateTerritory_ok, run_ok, checkedAdd_eq_some,
    checkedSub_eq_some, existsAndEq, Prod.mk.injEq]

theorem run_addTotalIdleSpace_ok {increment : ℕ} :
    (addTotalIdleSpace T increment).run s = .ok u s' ↔
      s.totalIdleSpace + increment < 2 ^ 128 ∧
        { s with totalIdleSpace := s.totalIdleSpace + increment } = s' := by
  simp only [addTotalIdleSpace, run_ok, checkedAdd_eq_some, existsAndEq]

theorem run_subTotalIdleSpace_ok {decrement : ℕ} :
    (subTotalIdleSpace T decrement).run s = .ok u s' ↔
      decrement ≤ s.totalIdleSpace ∧
        { s with totalIdleSpace := s.totalIdleSpace - decrement } = s' := by
  simp only [subTotalIdleSpace, run_ok, checkedSub_eq_some, existsAndEq]

theorem run_addTotalServiceSpace_ok {increment : ℕ} :
    (addTotalServiceSpace T increment).run s = .ok u s' ↔
      s.totalServiceSpace + increment < 2 ^ 128 ∧
        { s with totalServiceSpace := s.totalServiceSpace + increment } = s' := by
  simp only [addTotalServiceSpace, run_ok, checkedAdd_eq_some, existsAndEq]

theorem run_subTotalServiceSpace_ok {decrement : ℕ} :
    (subTotalServiceSpace T decrement).run s = .ok u s' ↔
      decrement ≤ s.totalServiceSpace ∧
        { s with totalServiceSpace := s.totalServiceSpace - decrement } = s' := by
  simp only [subTotalServiceSpace, run_ok, checkedSub_eq_some, existsAndEq]

end StorageHandler
