/-
# The lease book

The abstract machine behind the storage-handler pallet.  A book holds the territories
with the index of their tokens, the consignments, the two queues of the block hook and
the purchased space; balances, the schedule, orders and counters are left out.

* `Change` : what one call can do to the book: a new lease, more space, more days, a fresh
  start, a change of the space accounts, a consignment put up, changed or withdrawn, a
  delivery to a buyer, a move to another key;
* `Book.Step b c b'` : the change `c` leads from `b` to `b'`;
* `Book.freeze`, `Book.expire` : one round of each loop of the block hook, and
  `Book.frozenTask` the whole hook.

The calls of the pallet refine these steps (`LeaseRefinement`), so that an invariant of
the leases is proved here, once per change, and not once per call.
-/
import CessNode.IndexedMap
import CessNode.StorageHandlerCalls

open StorageMap

namespace StorageHandler

variable {T : Config}

/-- The part of the storage that the leases live in. -/
structure Book (T : Config) where
  now : ℕ
  territoryKey : StorageMap TokenId (T.AccountId × TerrName)
  territory : StorageMap (T.AccountId × TerrName) TerritoryInfo
  consignment : StorageMap TokenId (ConsignmentInfo T.AccountId)
  territoryFrozen : StorageMap (ℕ × TokenId) Bool
  territoryExpired : StorageMap (ℕ × TokenId) Bool
  purchasedSpace : ℕ

/-- The book of a storage. -/
def World.book (s : World T) : Book T where
  now := s.now
  territoryKey := s.territoryKey
  territory := s.territory
  consignment := s.consignment
  territoryFrozen := s.territoryFrozen
  territoryExpired := s.territoryExpired
  purchasedSpace := s.purchasedSpace

/-- A lease that has not ended: active or on consignment. -/
def TerritoryInfo.Live (t : TerritoryInfo) : Prop := t.state = .active ∨ t.state = .onConsignment

/-- Two states of a territory that differ in its space accounts only, not in their sum. -/
structure TerritoryInfo.Respaced (t t' : TerritoryInfo) : Prop where
  token : t'.token = t.token
  totalSpace : t'.totalSpace = t.totalSpace
  deadline : t'.deadline = t.deadline
  state : t'.state = t.state
  sum : t'.usedSpace + t'.lockedSpace + t'.remainingSpace =
    t.usedSpace + t.lockedSpace + t.remainingSpace

/-! ## Changes made by calls -/

/-- What a call can do to the book. -/
inductive Change (T : Config) where
  | lease (token : TokenId) (key : T.AccountId × TerrName) (space blocks : ℕ)
  | expand (key : T.AccountId × TerrName) (t : TerritoryInfo) (space : ℕ)
  | prolong (key : T.AccountId × TerrName) (t : TerritoryInfo) (blocks : ℕ)
  | restart (key : T.AccountId × TerrName) (t : TerritoryInfo) (blocks : ℕ)
  | respace (key : T.AccountId × TerrName) (t t' : TerritoryInfo)
  | consign (key : T.AccountId × TerrName) (t : TerritoryInfo)
  | relist (token : TokenId)
  | withdraw (key : T.AccountId × TerrName) (t : TerritoryInfo)
  | deliver (src dst : T.AccountId × TerrName) (t : TerritoryInfo)
  | move (src dst : T.AccountId × TerrName) (t : TerritoryInfo)

/-- The steps of the book. -/
inductive Book.Step : Book T → Change T → Book T → Prop
  | lease {b : Book T} {token : TokenId} {key : T.AccountId × TerrName} {space blocks : ℕ}
      (hkey : b.territory.lookup key = none) (htoken : b.territoryKey.lookup token = none)
      (hblocks : b.now + blocks < 2 ^ 32) :
      Step b (.lease token key space blocks)
        { b with
          territory := b.territory.insert key (newTerritory token space b.now (b.now + blocks))
          territoryKey := b.territoryKey.insert token key
          territoryFrozen := b.territoryFrozen.insert (b.now + blocks, token) true
          purchasedSpace := b.purchasedSpace + space }
  | expand {b : Book T} {key : T.AccountId × TerrName} {t : TerritoryInfo} {space : ℕ}
      (ht : b.territory.lookup key = some t) (hnow : b.now ≤ t.deadline) :
      Step b (.expand key t space)
        { b with
          territory := b.territory.insert key (t.expanded space)
          purchasedSpace := b.purchasedSpace + space }
  | prolong {b : Book T} {key : T.AccountId × TerrName} {t : TerritoryInfo} {blocks : ℕ}
      (ht : b.territory.lookup key = some t) (hdeadline : t.deadline + T.frozenDays < 2 ^ 32) :
      Step b (.prolong key t blocks)
        { b with
          territory := b.territory.insert key (t.renewed b.now blocks)
          territoryFrozen := (b.territoryFrozen.erase (t.deadline, t.token)).insert
            (t.renewedDeadline b.now blocks, t.token) true
          territoryExpired := b.territoryExpired.erase (t.deadline + T.frozenDays, t.token) }
  | restart {b : Book T} {key : T.AccountId × TerrName} {t : TerritoryInfo} {blocks : ℕ}
      (ht : b.territory.lookup key = some t) (hstate : t.state = .expired)
      (hblocks : b.now + blocks < 2 ^ 32) :
      Step b (.restart key t blocks)
        { b with
          territory := b.territory.insert key (t.initialised b.now blocks)
          territoryFrozen := b.territoryFrozen.insert (b.now + blocks, t.token) true
          purchasedSpace := b.purchasedSpace + t.totalSpace }
  | respace {b : Book T} {key : T.AccountId × TerrName} {t t' : TerritoryInfo}
      (ht : b.territory.lookup key = some t) (ht' : t.Respaced t') :
      Step b (.respace key t t') { b with territory := b.territory.insert key t' }
  | consign {b : Book T} {key : T.AccountId × TerrName} {t : TerritoryInfo}
      {c : ConsignmentInfo T.AccountId}
      (ht : b.territory.lookup key = some t) (hstate : t.state = .active)
      (hnow : b.now < t.deadline) (hnew : b.consignment.lookup t.token = none) :
      Step b (.consign key t)
        { b with
          territory := b.territory.insert key { t with state := .onConsignment }
          consignment := b.consignment.insert t.token c }
  | relist {b : Book T} {token : TokenId} {c c' : ConsignmentInfo T.AccountId}
      (hc : b.consignment.lookup token = some c) :
      Step b (.relist token) { b with consignment := b.consignment.insert token c' }
  | withdraw {b : Book T} {key : T.AccountId × TerrName} {t : TerritoryInfo}
      (ht : b.territory.lookup key = some t) (hstate : t.state = .onConsignment) :
      Step b (.withdraw key t)
        { b with
          territory := b.territory.insert key { t with state := .active }
          consignment := b.consignment.erase t.token }
  | deliver {b : Book T} {token : TokenId} {src dst : T.AccountId × TerrName} {t : TerritoryInfo}
      (hkey : b.territoryKey.lookup token = some src) (ht : b.territory.lookup src = some t)
      (hstate : t.state = .onConsignment) :
      Step b (.deliver src dst t)
        { b with
          territory := (b.territory.erase src).insert dst { t with state := .active }
          territoryKey := b.territoryKey.insert token dst
          consignment := b.consignment.erase token }
  -- `territory_rename` rewrites the name in the indexed key and keeps its account
  | move {b : Book T} {src dst key key' : T.AccountId × TerrName} {t : TerritoryInfo}
      (ht : b.territory.lookup src = some t) (hstate : t.state = .active)
      (hkey : b.territoryKey.lookup t.token = some key) (hkey' : key = src → key' = dst) :
      Step b (.move src dst t)
        { b with
          territory := (b.territory.erase src).insert dst t
          territoryKey := b.territoryKey.insert t.token key' }

/-- The change does not write over another territory: a new key is free, or is the key the
territory has already. -/
def Change.NoClobber (b : Book T) : Change T → Prop
  | .deliver src dst _ => dst = src ∨ b.territory.lookup dst = none
  | .move src dst _ => dst = src ∨ b.territory.lookup dst = none
  | _ => True

/-! ## The block hook -/

/-- The consignment of a territory that is on consignment is dropped. -/
def Book.dropped (b : Book T) (token : TokenId) (t : TerritoryInfo) : Book T :=
  { b with
    consignment := if t.state = .onConsignment then b.consignment.erase token else b.consignment }

/-- The territory `t` under `key` is frozen. -/
def Book.frozen (b : Book T) (token : TokenId) (key : T.AccountId × TerrName)
    (t : TerritoryInfo) : Book T :=
  { b.dropped token t with
    territoryExpired := b.territoryExpired.insert (t.deadline + T.frozenDays, t.token) true
    territory := b.territory.insert key { t with state := .frozen } }

/-- The territory `t` under `key` is expired. -/
def Book.expired (b : Book T) (key : T.AccountId × TerrName) (t : TerritoryInfo) : Book T :=
  { b with
    purchasedSpace := b.purchasedSpace - t.totalSpace
    territory := b.territory.insert key { t with state := .expired } }

/-- The lease of `token` ends; if the end of the frozen period does not fit a block number,
only the consignment goes. -/
def Book.freeze (b : Book T) (token : TokenId) : Book T :=
  match b.territoryKey.lookup token with
  | none => b
  | some key =>
    match b.territory.lookup key with
    | none => b
    | some t =>
      if t.deadline + T.frozenDays < 2 ^ 32 then b.frozen token key t else b.dropped token t

/-- The frozen period of `token` ends, unless more space is released than was purchased. -/
def Book.expire (b : Book T) (token : TokenId) : Book T :=
  match b.territoryKey.lookup token with
  | none => b
  | some key =>
    match b.territory.lookup key with
    | none => b
    | some t => if t.totalSpace ≤ b.purchasedSpace then b.expired key t else b

/-- The territory that a token names. -/
def Book.Names (b : Book T) (token : TokenId) (key : T.AccountId × TerrName)
    (t : TerritoryInfo) : Prop :=
  b.territoryKey.lookup token = some key ∧ b.territory.lookup key = some t

/-- A round of the first loop. -/
theorem Book.freeze_of_names {b : Book T} {token : TokenId} {key : T.AccountId × TerrName}
    {t : TerritoryInfo} (h : b.Names token key t) :
    b.freeze token =
      if t.deadline + T.frozenDays < 2 ^ 32 then b.frozen token key t else b.dropped token t := by
  simp only [Book.freeze, h.1, h.2]

/-- A round of the second loop. -/
theorem Book.expire_of_names {b : Book T} {token : TokenId} {key : T.AccountId × TerrName}
    {t : TerritoryInfo} (h : b.Names token key t) :
    b.expire token = if t.totalSpace ≤ b.purchasedSpace then b.expired key t else b := by
  simp only [Book.expire, h.1, h.2]

/-- A token that names no territory is passed over. -/
theorem Book.hook_of_not_names {b : Book T} {token : TokenId} (h : ∀ key t, ¬ b.Names token key t) :
    b.freeze token = b ∧ b.expire token = b := by
  unfold Book.freeze Book.expire
  cases hkey : b.territoryKey.lookup token with
  | none => exact ⟨rfl, rfl⟩
  | some key =>
    cases ht : b.territory.lookup key with
    | none => exact ⟨by simp only [ht], by simp only [ht]⟩
    | some t => exact absurd ⟨hkey, ht⟩ (h key t)

/-- What a round of the first loop can do. -/
theorem Book.freeze_cases (b : Book T) (token : TokenId) :
    b.freeze token = b ∨ ∃ key t, b.Names token key t ∧
      ((t.deadline + T.frozenDays < 2 ^ 32 ∧ b.freeze token = b.frozen token key t) ∨
        (¬ t.deadline + T.frozenDays < 2 ^ 32 ∧ b.freeze token = b.dropped token t)) := by
  by_cases h : ∃ key t, b.Names token key t
  · obtain ⟨key, t, hnames⟩ := h
    refine .inr ⟨key, t, hnames, ?_⟩
    rw [Book.freeze_of_names hnames]
    split_ifs with hfits
    · exact .inl ⟨hfits, rfl⟩
    · exact .inr ⟨hfits, rfl⟩
  · exact .inl (Book.hook_of_not_names fun key t hnames => h ⟨key, t, hnames⟩).1

/-- What a round of the second loop can do. -/
theorem Book.expire_cases (b : Book T) (token : TokenId) :
    b.expire token = b ∨ ∃ key t, b.Names token key t ∧ t.totalSpace ≤ b.purchasedSpace ∧
      b.expire token = b.expired key t := by
  by_cases h : ∃ key t, b.Names token key t
  · obtain ⟨key, t, hnames⟩ := h
    rw [Book.expire_of_names hnames]
    split_ifs with hfits
    · exact .inr ⟨key, t, hnames, hfits, rfl⟩
    · exact .inl rfl
  · exact .inl (Book.hook_of_not_names fun key t hnames => h ⟨key, t, hnames⟩).2

/-- The leases that end in this block are frozen. -/
def Book.freezeAll (b : Book T) : Book T :=
  (T.hashOrder (b.territoryFrozen.iterPrefix b.now)).foldl Book.freeze b

/-- The frozen leases whose time is over are expired. -/
def Book.expireAll (b : Book T) : Book T :=
  (T.hashOrder (b.territoryExpired.iterPrefix b.now)).foldl Book.expire b

/-- The block hook on the book. -/
def Book.frozenTask (b : Book T) : Book T := b.freezeAll.expireAll

/-- What the rounds of both loops keep, the hook keeps. -/
theorem Book.frozenTask_keeps {Q : Book T → Prop} (hfreeze : ∀ b token, Q b → Q (b.freeze token))
    (hexpire : ∀ b token, Q b → Q (b.expire token)) {b : Book T} (h : Q b) : Q b.frozenTask := by
  have hfrozen : Q b.freezeAll :=
    List.foldlRecOn _ Book.freeze h fun b hb token _ => hfreeze b token hb
  exact List.foldlRecOn _ Book.expire hfrozen fun b hb token _ => hexpire b token hb

end StorageHandler
