/-
# What the storage-handler helpers do

One equivalence per helper: the helper succeeds from `s` with final storage `s'` exactly
when its checks pass, and `s'` is `s` with the listed items rewritten.  The calls are
read off from these equivalences, so that no later proof unfolds a helper.
-/
import CessNode.StorageHandler

open Dispatch

namespace StorageHandler

/-! ## The territory records the helpers write -/

/-- The territory `storage_territory` files. -/
def newTerritory (token : TokenId) (space now deadline : ℕ) : TerritoryInfo where
  token := token
  totalSpace := space
  usedSpace := 0
  lockedSpace := 0
  remainingSpace := space
  start := now
  deadline := deadline
  state := .active

/-- The deadline of a lease that runs on for `blocks` blocks, from `now` if it is over. -/
def TerritoryInfo.renewedDeadline (t : TerritoryInfo) (now blocks : ℕ) : ℕ :=
  (if now > t.deadline then now else t.deadline) + blocks

/-- The territory `update_territory_days` writes. -/
def TerritoryInfo.renewed (t : TerritoryInfo) (now blocks : ℕ) : TerritoryInfo :=
  { t with
    start := if now > t.deadline then now else t.start
    deadline := t.renewedDeadline now blocks
    state := if t.renewedDeadline now blocks > now then .active else t.state }

/-- The territory `initial_territory` writes. -/
def TerritoryInfo.initialised (t : TerritoryInfo) (now blocks : ℕ) : TerritoryInfo :=
  { t with
    usedSpace := 0
    lockedSpace := 0
    remainingSpace := 0
    start := now
    deadline := now + blocks
    state := .active }

/-- The freeze counters after an entry has been filed at `block`. -/
def counterUp (counters : StorageMap ℕ ℕ) (block : ℕ) : StorageMap ℕ ℕ :=
  counters.insert block ((counters.lookup block).getD 0 + 1)

/-- The freeze counters after an entry has been taken from `block`. -/
def counterDown (counters : StorageMap ℕ ℕ) (block : ℕ) : StorageMap ℕ ℕ :=
  counters.insert block ((counters.lookup block).getD 0 - 1)

variable {T : Config} {s s' : World T} {u : Unit}
variable {acc user : T.AccountId} {name tname : TerrName} {e : Error}
  {f : TerritoryInfo → PalletM T (Unit × TerritoryInfo)} {days : ℕ}

/-! ## Single storage items -/

theorem run_depositEvent_ok {e : Event T.AccountId} :
    (depositEvent T e).run s = .ok u s' ↔ { s with events := s.events ++ [e] } = s' :=
  run_modify_ok

theorem run_currencyTransfer_ok {src dst : T.AccountId} {amount : ℕ} :
    (currencyTransfer T src dst amount).run s = .ok u s' ↔
      ∃ ledger, T.transfer s.ledger src dst amount = some ledger ∧
        { s with ledger := ledger } = s' := by
  simp only [currencyTransfer, run_ok, exists_eq_left']

theorem run_sendToSid_ok {amount : ℕ} :
    (sendToSid T acc amount).run s = .ok u s' ↔
      ∃ ledger, T.transfer s.ledger acc T.spaceTreasury amount = some ledger ∧
        { s with ledger := ledger } = s' :=
  run_currencyTransfer_ok

theorem run_tryMutateTerritory_ok :
    (tryMutateTerritory T acc name e f).run s = .ok u s' ↔
      ∃ t t' s₁, s.territory.lookup (acc, name) = some t ∧ (f t).run s = .ok (u, t') s₁ ∧
        { s₁ with territory := s₁.territory.insert (acc, name) t' } = s' :=
  run_tryMutate_ok

theorem after_tryMutateTerritory_none (h : s.territory.lookup (acc, name) = none) :
    after (tryMutateTerritory T acc name e f) s = s := by
  exact after_tryMutate_none h

theorem after_tryMutateTerritory_some {t : TerritoryInfo}
    (h : s.territory.lookup (acc, name) = some t) :
    after (tryMutateTerritory T acc name e f) s =
      writeBack (fun t s => { s with territory := s.territory.insert (acc, name) t })
        ((f t).run s) := by
  unfold tryMutateTerritory
  rw [after_tryMutate_some (v := t)]
  exact h

theorem run_increaseFrozenCounter_ok {block : ℕ} :
    (increaseFrozenCounter T block).run s = .ok u s' ↔
      s.frozenCounter block + 1 < 2 ^ 32 ∧ s.frozenCounter block + 1 < T.frozenLimit ∧
        { s with territoryFrozenCounter := counterUp s.territoryFrozenCounter block } = s' := by
  simp only [increaseFrozenCounter, run_ok, checkedAdd_eq_some, exists_eq_left']
  rfl

theorem run_decreaseFrozenCounter_ok {block : ℕ} :
    (decreaseFrozenCounter T block).run s = .ok u s' ↔
      1 ≤ s.frozenCounter block ∧
        { s with territoryFrozenCounter := counterDown s.territoryFrozenCounter block } = s' := by
  simp only [decreaseFrozenCounter, run_ok, checkedSub_eq_some, exists_eq_left']
  rfl

/-! ## Prices -/

theorem run_calculatePrice_ok {gibCount price : ℕ} :
    (calculatePrice T gibCount days).run s = .ok price s' ↔
      ∃ unitPrice, s.unitPrice = some unitPrice ∧ gibCount * days < 2 ^ 128 ∧
        gibCount * days * unitPrice < 2 ^ 128 ∧ gibCount * days * unitPrice = price ∧ s = s' := by
  simp only [calculatePrice, run_ok, checkedMul_eq_some, exists_eq_left']

/-- A number of blocks in days, rounded up. -/
def daysOfBlocks (T : Config) (blocks : ℕ) : ℕ :=
  blocks / T.oneDay + if blocks % T.oneDay ≠ 0 then 1 else 0

theorem run_roundUpDays_ok {diffBlock day : ℕ} :
    (roundUpDays T diffBlock).run s = .ok day s' ↔
      T.oneDay ≠ 0 ∧ (diffBlock % T.oneDay ≠ 0 → diffBlock / T.oneDay + 1 < 2 ^ 32) ∧
        daysOfBlocks T diffBlock = day ∧ s = s' := by
  simp only [roundUpDays, run_ok, checkedDiv_eq_some, exists_eq_left', daysOfBlocks]
  split_ifs with h
  · simp only [run_okOr_ok, checkedAdd_eq_some, h, and_assoc, not_false_eq_true, ne_eq,
      forall_const]
  · simp only [run_pure_ok, h, false_imp_iff, true_and, add_zero]

theorem run_calculateRemainDay_ok {deadline day : ℕ} :
    (calculateRemainDay T deadline).run s = .ok day s' ↔
      s.now ≤ deadline ∧ T.oneDay ≠ 0 ∧
        ((deadline - s.now) % T.oneDay ≠ 0 → (deadline - s.now) / T.oneDay + 1 < 2 ^ 32) ∧
        daysOfBlocks T (deadline - s.now) = day ∧ s = s' := by
  simp only [calculateRemainDay, run_ok, checkedSub_eq_some, exists_eq_left', run_roundUpDays_ok]

theorem run_dayUnitPrice_ok {price : ℕ} :
    (dayUnitPrice T).run s = .ok price s' ↔
      ∃ unitPrice, s.unitPrice = some unitPrice ∧ unitPrice / 30 = price ∧ s = s' := by
  simp only [dayUnitPrice, run_ok, checkedDiv_eq_some, exists_eq_left', ne_eq, OfNat.ofNat_ne_zero,
    not_false_eq_true]

/-! ## Leases -/

theorem run_storageTerritory_ok {token : TokenId} {space : ℕ} :
    (storageTerritory T token user space days tname).run s = .ok u s' ↔
      T.oneDay * days < 2 ^ 32 ∧ s.now + T.oneDay * days < 2 ^ 32 ∧
      s.frozenCounter (s.now + T.oneDay * days) + 1 < 2 ^ 32 ∧
      s.frozenCounter (s.now + T.oneDay * days) + 1 < T.frozenLimit ∧
      { s with
        territory := s.territory.insert (user, tname)
          (newTerritory token space s.now (s.now + T.oneDay * days))
        territoryKey := s.territoryKey.insert token (user, tname)
        territoryFrozen := s.territoryFrozen.insert (s.now + T.oneDay * days, token) true
        territoryFrozenCounter :=
          counterUp s.territoryFrozenCounter (s.now + T.oneDay * days) } = s' := by
  simp only [storageTerritory, run_ok, run_increaseFrozenCounter_ok, checkedAdd_eq_some,
    checkedMul_eq_some, exists_eq_left']
  rfl

theorem run_updateTerritorySpace_ok {space : ℕ} :
    (updateTerritorySpace T user tname space).run s = .ok u s' ↔
      ∃ t, s.territory.lookup (user, tname) = some t ∧
        t.remainingSpace + space < 2 ^ 128 ∧ t.totalSpace + space < 2 ^ 128 ∧
        { s with
          territory := s.territory.insert (user, tname)
            { t with
              remainingSpace := t.remainingSpace + space
              totalSpace := t.totalSpace + space } } = s' := by
  simp only [updateTerritorySpace, run_tryMutateTerritory_ok, run_ok, checkedAdd_eq_some,
    exists_eq_left', Prod.mk.injEq]

theorem run_extendLease_ok {now surBlock : ℕ} {t t' : TerritoryInfo} :
    (extendLease T now surBlock t).run s = .ok t' s' ↔
      t.renewedDeadline now surBlock < 2 ^ 32 ∧ t.renewed now surBlock = t' ∧ s = s' := by
  unfold extendLease TerritoryInfo.renewed TerritoryInfo.renewedDeadline
  by_cases h : now > t.deadline
  · simp only [if_pos h, run_ok, checkedAdd_eq_some, exists_eq_left']
    split_ifs <;> rfl
  · simp only [if_neg h, run_ok, checkedAdd_eq_some, exists_eq_left']
    split_ifs <;> rfl

theorem run_updateTerritoryDays_ok :
    (updateTerritoryDays T user tname days).run s = .ok u s' ↔
      ∃ t, s.territory.lookup (user, tname) = some t ∧
        1 ≤ s.frozenCounter t.deadline ∧ t.deadline + T.frozenDays < 2 ^ 32 ∧
        T.oneDay * days < 2 ^ 32 ∧ t.renewedDeadline s.now (T.oneDay * days) < 2 ^ 32 ∧
        ((counterDown s.territoryFrozenCounter t.deadline).lookup
            (t.renewedDeadline s.now (T.oneDay * days))).getD 0 + 1 < 2 ^ 32 ∧
        ((counterDown s.territoryFrozenCounter t.deadline).lookup
            (t.renewedDeadline s.now (T.oneDay * days))).getD 0 + 1 < T.frozenLimit ∧
        { s with
          territory := s.territory.insert (user, tname) (t.renewed s.now (T.oneDay * days))
          territoryFrozen := (s.territoryFrozen.erase (t.deadline, t.token)).insert
            (t.renewedDeadline s.now (T.oneDay * days), t.token) true
          territoryFrozenCounter := counterUp (counterDown s.territoryFrozenCounter t.deadline)
            (t.renewedDeadline s.now (T.oneDay * days))
          territoryExpired := s.territoryExpired.erase (t.deadline + T.frozenDays, t.token) } =
            s' := by
  simp only [updateTerritoryDays, run_tryMutateTerritory_ok, run_ok, run_extendLease_ok,
    run_decreaseFrozenCounter_ok, run_increaseFrozenCounter_ok, checkedAdd_eq_some,
    checkedMul_eq_some, exists_eq_left', Prod.mk.injEq]
  rfl

theorem run_initialTerritory_ok :
    (initialTerritory T user tname days).run s = .ok u s' ↔
      ∃ t, s.territory.lookup (user, tname) = some t ∧
        T.oneDay * days < 2 ^ 32 ∧ s.now + T.oneDay * days < 2 ^ 32 ∧
        s.frozenCounter (s.now + T.oneDay * days) + 1 < 2 ^ 32 ∧
        s.frozenCounter (s.now + T.oneDay * days) + 1 < T.frozenLimit ∧
        { s with
          territory := s.territory.insert (user, tname) (t.initialised s.now (T.oneDay * days))
          territoryFrozen := s.territoryFrozen.insert (s.now + T.oneDay * days, t.token) true
          territoryFrozenCounter :=
            counterUp s.territoryFrozenCounter (s.now + T.oneDay * days) } = s' := by
  simp only [initialTerritory, run_tryMutateTerritory_ok, run_ok, run_increaseFrozenCounter_ok,
    checkedAdd_eq_some, checkedMul_eq_some, exists_eq_left', Prod.mk.injEq]
  rfl

/-! ## Purchased space -/

theorem run_addPurchasedSpace_ok {size : ℕ} :
    (addPurchasedSpace T size).run s = .ok u s' ↔
      s.totalIdleSpace + s.totalServiceSpace < 2 ^ 128 ∧ s.purchasedSpace + size < 2 ^ 128 ∧
        s.purchasedSpace + size ≤ s.totalIdleSpace + s.totalServiceSpace ∧
        { s with purchasedSpace := s.purchasedSpace + size } = s' := by
  simp only [addPurchasedSpace, run_ok, checkedAdd_eq_some, exists_eq_left', not_lt]

end StorageHandler
