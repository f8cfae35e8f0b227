/-
# The queues of the block hook

`TerritoryFrozen` files every lease under the block in which it ends and `TerritoryExpired`
every frozen lease under the block in which its frozen period ends.  The hook reads only
the entries of its own block, so entries of earlier blocks are dead.  `Book.Filed` says
that the live entries are right: what they name is a lease that ends in that block, or a
frozen territory that expires in it.  It holds in every run that does not write over a
territory (`Reached.filed`), and gives one rule for each loop of the hook
(`Book.freezeAll_rule`, `Book.expireAll_rule`).
-/
import CessNode.TerritoryKeys

open Dispatch StorageMap

namespace StorageHandler

variable {T : Config}
variable {block blocks : ℕ} {token : TokenId}

/-! ## Right entries -/

/-- The entries of the block `h` and later ones. -/
def fromBlock (h : ℕ) : Set (ℕ × TokenId) := { p | h ≤ p.1 }

/-- The entries of blocks after `now`, and those of `now` itself that are still to be read. -/
def unread (now : ℕ) (rest : List TokenId) : Set (ℕ × TokenId) :=
  { p | now < p.1 ∨ p.1 = now ∧ p.2 ∈ rest }

/-- The first block whose entries the hook has still to read. -/
def Phase.horizon (now : ℕ) : Phase → ℕ
  | .initializing => now
  | .executing => now + 1

/-- A lease is to be frozen at its deadline. -/
def TerritoryInfo.FreezesAt (t : TerritoryInfo) (block : ℕ) : Prop := t.Live ∧ t.deadline = block

/-- A frozen territory is to expire at the end of its frozen period. -/
def TerritoryInfo.ExpiresAt (T : Config) (t : TerritoryInfo) (block : ℕ) : Prop :=
  t.state = .frozen ∧ t.deadline + T.frozenDays = block

/-- The entries in `F` of the freeze queue and those in `E` of the expiry queue are right. -/
structure Book.Filed (b : Book T) (F E : Set (ℕ × TokenId)) : Prop where
  keys : b.KeyInv
  frozen : Right TerritoryInfo.token TerritoryInfo.FreezesAt b.territory b.territoryFrozen F
  expired : Right TerritoryInfo.token (TerritoryInfo.ExpiresAt T) b.territory b.territoryExpired E

variable {b b' : Book T} {F E F' E' : Set (ℕ × TokenId)} {key : T.AccountId × TerrName}
  {t t₀ : TerritoryInfo}

theorem Book.Filed.mono (h : b.Filed F E) (hF : F' ⊆ F) (hE : E' ⊆ E) : b.Filed F' E' :=
  ⟨h.keys, h.frozen.mono hF, h.expired.mono hE⟩

theorem TerritoryInfo.Live.ne_frozen (h : t.Live) : t.state ≠ .frozen := by
  rcases h with h | h <;> rw [h] <;> decide

theorem TerritoryInfo.Live.ne_expired (h : t.Live) : t.state ≠ .expired := by
  rcases h with h | h <;> rw [h] <;> decide

/-! ## Changes -/

/-- The change neither starts nor ends a lease, nor moves its end. -/
def Change.Undated : Change T → Prop
  | .lease _ _ _ _ | .prolong _ _ _ | .restart _ _ _ | .relist _ => False
  | _ => True

/-- A territory as such a change leaves it. -/
structure TerritoryInfo.SameDates (t t₀ : TerritoryInfo) : Prop where
  token : t₀.token = t.token
  live : t₀.Live ↔ t.Live
  frozen : t₀.state = .frozen ↔ t.state = .frozen
  deadline : t₀.deadline = t.deadline

theorem TerritoryInfo.SameDates.freezesAt (h : t.SameDates t₀) :
    t₀.FreezesAt block ↔ t.FreezesAt block := by
  unfold TerritoryInfo.FreezesAt
  rw [h.live, h.deadline]

theorem TerritoryInfo.SameDates.expiresAt (h : t.SameDates t₀) :
    t₀.ExpiresAt T block ↔ t.ExpiresAt T block := by
  unfold TerritoryInfo.ExpiresAt
  rw [h.frozen, h.deadline]

/-- On consignment or not, a lease is live. -/
theorem TerritoryInfo.SameDates.of_live {state : TerritoryState} (ht : t.Live)
    (hstate : state = .active ∨ state = .onConsignment) : t.SameDates { t with state := state } :=
  ⟨rfl, iff_of_true hstate ht, iff_of_false (TerritoryInfo.Live.ne_frozen hstate) ht.ne_frozen, rfl⟩

/-- What such a change does. -/
theorem Book.Step.undated {ch : Change T} (hstep : b.Step ch b') (hch : ch.Undated) :
    b'.territoryFrozen = b.territoryFrozen ∧ b'.territoryExpired = b.territoryExpired ∧
      ∃ src t key t₀, b.territory.lookup src = some t ∧ ch.target b = some (key, t₀) ∧
        t.SameDates t₀ := by
  cases hstep with
  | lease | prolong | restart | relist => exact hch.elim
  | expand ht => exact ⟨rfl, rfl, _, _, _, _, ht, rfl, rfl, .rfl, .rfl, rfl⟩
  | respace ht ht' =>
    refine ⟨rfl, rfl, _, _, _, _, ht, rfl, ht'.token, ?_, ?_, ht'.deadline⟩
    · rw [TerritoryInfo.Live, TerritoryInfo.Live, ht'.state]
    · rw [ht'.state]
  | consign ht hstate => exact ⟨rfl, rfl, _, _, _, _, ht, rfl, .of_live (.inl hstate) (.inr rfl)⟩
  | withdraw ht hstate => exact ⟨rfl, rfl, _, _, _, _, ht, rfl, .of_live (.inr hstate) (.inl rfl)⟩
  | deliver _ ht hstate => exact ⟨rfl, rfl, _, _, _, _, ht, rfl, .of_live (.inr hstate) (.inl rfl)⟩
  | move ht => exact ⟨rfl, rfl, _, _, _, _, ht, rfl, rfl, .rfl, .rfl, rfl⟩

/-- A change that touches neither the queues nor the dates. -/
theorem Book.Filed.undated (h : b.Filed F E) {ch : Change T} (hstep : b.Step ch b')
    (hfree : ch.NoClobber b) (hch : ch.Undated) : b'.Filed F E := by
  obtain ⟨hfrozen, hexpired, src, t, key, t₀, ht, htarget, hdates⟩ := hstep.undated hch
  have hrep := hstep.replaced h.keys hfree htarget
  refine ⟨hstep.keyInv hfree h.keys, ?_, ?_⟩
  · rw [hfrozen]
    refine h.frozen.replace subset_rfl hrep ?_ fun _ _ _ => id
    rw [hdates.token]
    exact fun block hmem hF => hdates.freezesAt.mpr (h.frozen.due_of_mem h.keys ht hmem hF)
  · rw [hexpired]
    refine h.expired.replace subset_rfl hrep ?_ fun _ _ _ => id
    rw [hdates.token]
    exact fun block hmem hE => hdates.expiresAt.mpr (h.expired.due_of_mem h.keys ht hmem hE)

/-- A new lease is filed under its deadline; its token had no entries. -/
theorem Book.Filed.lease (h : b.Filed F E) {space : ℕ}
    (hstep : b.Step (.lease token key space blocks) b') : b'.Filed F E := by
  have hkeys' := hstep.keyInv trivial h.keys
  have hrep := hstep.replaced h.keys trivial rfl
  cases hstep with
  | lease hkey htoken =>
    have hnone : ∀ key' t', b.territory.lookup key' = some t' → t'.token ≠ token := by
      intro key' t' ht' hid
      have := h.keys.toIndex key' t' ht'
      rw [hid, htoken] at this
      cases this
    refine ⟨hkeys', h.frozen.file hrep _ ?_ fun _ => ⟨.inl rfl, rfl⟩,
      h.expired.replace subset_rfl hrep ?_ fun _ _ _ => id⟩
    · intro block hmem hF
      obtain ⟨key', t', ht', hid, -⟩ := h.frozen block token hmem hF
      exact hnone key' t' ht' hid
    · intro block hmem hE
      obtain ⟨key', t', ht', hid, -⟩ := h.expired block token hmem hE
      exact absurd hid (hnone key' t' ht')

/-- A prolonged lease loses its old entries and is filed under its new deadline. -/
theorem Book.Filed.prolong {now : ℕ} (hnow : b.now = now) (h : b.Filed (fromBlock (now + 1)) E)
    (hstep : b.Step (.prolong key t blocks) b') : b'.Filed (fromBlock (now + 1)) E := by
  have hkeys' := hstep.keyInv trivial h.keys
  have hrep := hstep.replaced h.keys trivial rfl
  cases hstep with
  | prolong ht =>
    have hgone := h.expired.not_mem_of_erase h.keys ht fun _ hdue => hdue.2.symm
    have hfile := (h.frozen.erase (t.deadline, t.token)).file hrep (t.renewedDeadline b.now blocks)
    refine ⟨hkeys', hfile ?_ ?_,
      (h.expired.erase _).replace subset_rfl hrep ?_ fun _ _ _ => id⟩
    · exact h.frozen.not_mem_of_erase h.keys ht fun _ hdue => hdue.2.symm
    · intro hF
      -- an entry that is still to be read lies after this block, so the lease is active
      have hlater : t.renewedDeadline b.now blocks > b.now := by
        have : now + 1 ≤ t.renewedDeadline b.now blocks := hF
        omega
      exact ⟨.inl (if_pos hlater), rfl⟩
    · exact fun block hmem hE => absurd hE (hgone block hmem)

/-- A lease that starts again had no entries left. -/
theorem Book.Filed.restart (h : b.Filed F E) (hstep : b.Step (.restart key t blocks) b') :
    b'.Filed F E := by
  have hkeys' := hstep.keyInv trivial h.keys
  have hrep := hstep.replaced h.keys trivial rfl
  cases hstep with
  | restart ht hstate =>
    refine ⟨hkeys', h.frozen.file hrep _ ?_ fun _ => ⟨.inl rfl, rfl⟩,
      h.expired.replace subset_rfl hrep ?_ fun _ _ _ => id⟩
    · exact fun block hmem hF => (h.frozen.due_of_mem h.keys ht hmem hF).1.ne_expired hstate
    · intro block hmem hE
      have hfrozen := (h.expired.due_of_mem h.keys ht hmem hE).1
      rw [hstate] at hfrozen
      cases hfrozen

/-- **Every change keeps the entries right** that the hook has still to read. -/
theorem Book.Step.filed {ch : Change T} (hstep : b.Step ch b') (hfree : ch.NoClobber b)
    {phase : Phase} (hphase : phase = .initializing →
      (∃ src dst t, ch = .deliver src dst t) ∨ ∃ key t t', ch = .respace key t t')
    (h : b.Filed (fromBlock (phase.horizon b.now)) (fromBlock (phase.horizon b.now))) :
    b'.Filed (fromBlock (phase.horizon b.now)) (fromBlock (phase.horizon b.now)) := by
  cases ch with
  | lease => exact h.lease hstep
  | restart => exact h.restart hstep
  | prolong =>
    cases phase with
    | initializing => rcases hphase rfl with ⟨_, _, _, h⟩ | ⟨_, _, _, h⟩ <;> cases h
    | executing => exact Book.Filed.prolong rfl h hstep
  | relist token =>
    have hkeys' := hstep.keyInv hfree h.keys
    cases hstep with
    | relist hc => exact ⟨hkeys', h.frozen, h.expired⟩
  | expand | respace | consign | withdraw | deliver | move => exact h.undated hstep hfree trivial

/-! ## The block hook -/

theorem unread_subset (now : ℕ) (token : TokenId) (rest : List TokenId) :
    unread now rest ⊆ unread now (token :: rest) := by
  rintro p (hp | ⟨hp, hmem⟩)
  · exact .inl hp
  · exact .inr ⟨hp, List.mem_cons_of_mem _ hmem⟩

/-- An entry of a token for this block, when no round of the loop is left for it. -/
theorem not_mem_unread {now : ℕ} {rest : List TokenId} (hrest : token ∉ rest) :
    (now, token) ∉ unread now rest := by
  rintro (hlater | ⟨-, hin⟩)
  · exact lt_irrefl now hlater
  · exact hrest hin

/-- A round of the first loop: the lease of the token ends in this block and is frozen. -/
theorem Book.Filed.freeze {rest : List TokenId}
    (h : b.Filed (unread b.now (token :: rest)) (fromBlock b.now)) (hrest : token ∉ rest)
    (hmem : (b.now, token) ∈ b.territoryFrozen) :
    (b.freeze token).Filed (unread b.now rest) (fromBlock b.now) := by
  have hmono := unread_subset b.now token rest
  have hself : (b.now, token) ∈ unread b.now (token :: rest) := .inr ⟨rfl, List.mem_cons_self⟩
  obtain ⟨key, t, ht, rfl, hlive, hdeadline⟩ := h.frozen b.now token hmem hself
  have hnames : b.Names t.token key t := ⟨h.keys.toIndex key t ht, ht⟩
  rw [Book.freeze_of_names hnames]
  split_ifs
  · have hrep : Replaced TerritoryInfo.token b.territory (b.frozen t.token key t).territory key
        { t with state := .frozen } := h.keys.replaced_put ht rfl
    refine ⟨h.keys.put ht rfl, h.frozen.replace hmono hrep ?_ fun _ _ _ => id,
      h.expired.file hrep _ ?_ fun _ => ⟨rfl, rfl⟩⟩
    · intro block hmem' hF
      -- the entry would be a second one of the same lease, under another block
      obtain ⟨-, rfl⟩ := h.frozen.due_of_mem h.keys ht hmem' (hmono hF)
      rw [hdeadline] at hF
      exact absurd hF (not_mem_unread hrest)
    · exact fun block hold hE => hlive.ne_frozen (h.expired.due_of_mem h.keys ht hold hE).1
  · exact ⟨h.keys, h.frozen.mono hmono, h.expired⟩

/-- A round of the second loop: the frozen period of the token ends in this block. -/
theorem Book.Filed.expire {rest : List TokenId}
    (h : b.Filed (fromBlock (b.now + 1)) (unread b.now (token :: rest))) (hrest : token ∉ rest)
    (hmem : (b.now, token) ∈ b.territoryExpired) :
    (b.expire token).Filed (fromBlock (b.now + 1)) (unread b.now rest) := by
  have hmono := unread_subset b.now token rest
  have hself : (b.now, token) ∈ unread b.now (token :: rest) := .inr ⟨rfl, List.mem_cons_self⟩
  obtain ⟨key, t, ht, rfl, hstate, hdeadline⟩ := h.expired b.now token hmem hself
  have hnames : b.Names t.token key t := ⟨h.keys.toIndex key t ht, ht⟩
  rw [Book.expire_of_names hnames]
  split_ifs
  · have hrep : Replaced TerritoryInfo.token b.territory (b.expired key t).territory key
        { t with state := .expired } := h.keys.replaced_put ht rfl
    refine ⟨h.keys.put ht rfl, h.frozen.replace subset_rfl hrep ?_ fun _ _ _ => id,
      h.expired.replace hmono hrep ?_ fun _ _ _ => id⟩
    · exact fun block hmem' hF =>
        absurd hstate (h.frozen.due_of_mem h.keys ht hmem' hF).1.ne_frozen
    · intro block hmem' hE
      obtain ⟨-, rfl⟩ := h.expired.due_of_mem h.keys ht hmem' (hmono hE)
      rw [hdeadline] at hE
      exact absurd hE (not_mem_unread hrest)
  · exact h.mono subset_rfl hmono

/-- Neither loop touches the block number or the freeze queue. -/
theorem Book.freeze_frame (b : Book T) (token : TokenId) :
    (b.freeze token).now = b.now ∧ (b.freeze token).territoryFrozen = b.territoryFrozen := by
  rcases b.freeze_cases token with h | ⟨key, t, -, ⟨-, h⟩ | ⟨-, h⟩⟩ <;> rw [h] <;>
    exact ⟨rfl, rfl⟩

theorem Book.expire_frame (b : Book T) (token : TokenId) :
    (b.expire token).now = b.now ∧ (b.expire token).territoryExpired = b.territoryExpired := by
  rcases b.expire_cases token with h | ⟨key, t, -, -, h⟩ <;> rw [h] <;> exact ⟨rfl, rfl⟩

theorem mem_hashOrder_iterPrefix {m : StorageMap (ℕ × TokenId) Bool} :
    token ∈ T.hashOrder (m.iterPrefix block) ↔ (block, token) ∈ m := by
  rw [(T.hashOrder_perm _).mem_iff, mem_iterPrefix]

theorem nodup_hashOrder_iterPrefix (m : StorageMap (ℕ × TokenId) Bool) (block : ℕ) :
    (T.hashOrder (m.iterPrefix block)).Nodup :=
  (T.hashOrder_perm _).nodup_iff.mpr (nodup_iterPrefix m block)

/-- **The rule for the first loop.**  The loop visits each token filed for this block once, and
the lease it names is live and ends now.  What each such round keeps, with the tokens still to
be visited, holds at the end with none left. -/
theorem Book.freezeAll_rule {Q : List TokenId → Book T → Prop}
    (h : b.Filed (fromBlock b.now) (fromBlock b.now))
    (hQ : Q (T.hashOrder (b.territoryFrozen.iterPrefix b.now)) b)
    (hround : ∀ c token rest key t, c.KeyInv → c.now = b.now → token ∉ rest →
      c.Names token key t → t.token = token → t.Live → t.deadline = c.now →
      Q (token :: rest) c → Q rest (c.freeze token)) :
    b.freezeAll.now = b.now ∧ b.freezeAll.Filed (fromBlock (b.now + 1)) (fromBlock b.now) ∧
      Q [] b.freezeAll := by
  -- along the loop the unread entries of this block are those of the remaining tokens
  have hloop := Runs.foldl_inv (f := Book.freeze)
    (P := fun l c => c.now = b.now ∧ (∀ token ∈ l, (c.now, token) ∈ c.territoryFrozen) ∧
      c.Filed (unread c.now l) (fromBlock c.now) ∧ Q l c)
    (by
      rintro c token rest hrest ⟨hnow, hl, hc, hQ⟩
      have hmem := hl token List.mem_cons_self
      obtain ⟨key, t, ht, hid, hlive, hdeadline⟩ :=
        hc.frozen c.now token hmem (.inr ⟨rfl, List.mem_cons_self⟩)
      have hnames : c.Names token key t := ⟨hid ▸ hc.keys.toIndex key t ht, ht⟩
      obtain ⟨hnow', hqueue'⟩ := c.freeze_frame token
      refine ⟨hnow'.trans hnow, ?_, ?_, ?_⟩
      · intro token' htoken'
        rw [hnow', hqueue']
        exact hl token' (List.mem_cons_of_mem _ htoken')
      · rw [hnow']
        exact hc.freeze hrest hmem
      · exact hround c token rest key t hc.keys hnow hrest hnames hid hlive hdeadline hQ)
    _ b (nodup_hashOrder_iterPrefix b.territoryFrozen b.now)
    ⟨rfl, fun token htoken => mem_hashOrder_iterPrefix.mp htoken,
      h.mono (fun p hp => hp.elim le_of_lt fun hp => hp.1.ge) subset_rfl, hQ⟩
  obtain ⟨hnow, -, hfiled, hQ'⟩ := hloop
  rw [hnow] at hfiled
  exact ⟨hnow, hfiled.mono (fun p hp => .inl hp) subset_rfl, hQ'⟩

/-- **The rule for the second loop.**  The loop visits each token whose frozen period ends now
once, and the territory it names is frozen. -/
theorem Book.expireAll_rule {Q : List TokenId → Book T → Prop}
    (h : b.Filed (fromBlock (b.now + 1)) (fromBlock b.now))
    (hQ : Q (T.hashOrder (b.territoryExpired.iterPrefix b.now)) b)
    (hround : ∀ c token rest key t, c.KeyInv → c.now = b.now → token ∉ rest →
      c.Names token key t → t.token = token → t.state = .frozen →
      t.deadline + T.frozenDays = c.now → Q (token :: rest) c → Q rest (c.expire token)) :
    b.expireAll.now = b.now ∧ b.expireAll.Filed (fromBlock (b.now + 1)) (fromBlock (b.now + 1)) ∧
      Q [] b.expireAll := by
  have hloop := Runs.foldl_inv (f := Book.expire)
    (P := fun l c => c.now = b.now ∧ (∀ token ∈ l, (c.now, token) ∈ c.territoryExpired) ∧
      c.Filed (fromBlock (c.now + 1)) (unread c.now l) ∧ Q l c)
    (by
      rintro c token rest hrest ⟨hnow, hl, hc, hQ⟩
      have hmem := hl token List.mem_cons_self
      obtain ⟨key, t, ht, hid, hstate, hdeadline⟩ :=
        hc.expired c.now token hmem (.inr ⟨rfl, List.mem_cons_self⟩)
      have hnames : c.Names token key t := ⟨hid ▸ hc.keys.toIndex key t ht, ht⟩
      obtain ⟨hnow', hqueue'⟩ := c.expire_frame token
      refine ⟨hnow'.trans hnow, ?_, ?_, ?_⟩
      · intro token' htoken'
        rw [hnow', hqueue']
        exact hl token' (List.mem_cons_of_mem _ htoken')
      · rw [hnow']
        exact hc.expire hrest hmem
      · exact hround c token rest key t hc.keys hnow hrest hnames hid hstate hdeadline hQ)
    _ b (nodup_hashOrder_iterPrefix b.territoryExpired b.now)
    ⟨rfl, fun token htoken => mem_hashOrder_iterPrefix.mp htoken,
      h.mono subset_rfl (fun p hp => hp.elim le_of_lt fun hp => hp.1.ge), hQ⟩
  obtain ⟨hnow, -, hfiled, hQ'⟩ := hloop
  rw [hnow] at hfiled
  exact ⟨hnow, hfiled.mono subset_rfl fun p hp => .inl hp, hQ'⟩

/-- The hook keeps the entries of later blocks right. -/
theorem Book.Filed.frozenTask (h : b.Filed (fromBlock b.now) (fromBlock b.now)) :
    b.frozenTask.now = b.now ∧
      b.frozenTask.Filed (fromBlock (b.now + 1)) (fromBlock (b.now + 1)) := by
  obtain ⟨hnow, hfiled, -⟩ := Book.freezeAll_rule (Q := fun _ _ => True) h trivial
    (fun _ _ _ _ _ _ _ _ _ _ _ _ _ => trivial)
  rw [← hnow] at hfiled
  obtain ⟨hnow', hfiled', -⟩ := Book.expireAll_rule (Q := fun _ _ => True) hfiled trivial
    (fun _ _ _ _ _ _ _ _ _ _ _ _ _ => trivial)
  rw [hnow] at hfiled' hnow'
  exact ⟨hnow', hfiled'⟩

/-! ## Runs -/

/-- The entries that the hook has still to read are right. -/
def Book.QueuesRight (phase : Phase) (b : Book T) : Prop :=
  b.Filed (fromBlock (phase.horizon b.now)) (fromBlock (phase.horizon b.now))

/-- Neither a change nor the passing of the hook moves the block number. -/
theorem Book.Step.now_eq {ch : Change T} (h : b.Step ch b') : b'.now = b.now := by
  cases h <;> rfl

/-- **In runs that never write over a territory the queues are right.** -/
theorem Reached.filed {ok : Node T → Action T → Prop} (hok : ∀ n a, ok n a → NoClobber n a)
    {n : Node T} (hn : Reached ok n) : n.world.book.QueuesRight n.phase := by
  refine hn.book_inv (P := fun phase b => b.QueuesRight phase) ?_ ?_ ?_ ?_
  · intro ledger agenda price
    exact ⟨Inverse.empty, fun _ _ h => absurd h (AList.notMem_empty _),
      fun _ _ h => absurd h (AList.notMem_empty _)⟩
  · intro b hb
    exact ⟨hb.keys, hb.frozen, hb.expired⟩
  · intro n _ _ _ hb
    obtain ⟨hnow, hfiled⟩ := Book.Filed.frozenTask hb
    unfold Book.QueuesRight
    rw [hnow]
    exact hfiled
  · intro n a ch b' _ ha hmakes hstep hphase hb
    unfold Book.QueuesRight
    rw [hstep.now_eq]
    exact hstep.filed ((hok n a ha).change hmakes) hphase hb

/-! ## Conditions on steps -/

/-- The step executes no renewal order for a territory in the given state. -/
def NoRenewalOrderFor (state : TerritoryState) (n : Node T) : Action T → Prop
  | .call (.execOrder _ orderId) => ∀ order t, n.world.payOrder.lookup orderId = some order →
      n.world.now < order.expired → order.orderType = .renewal →
      n.world.territory.lookup (order.targetAcc, order.territoryName) = some t →
      t.state ≠ state
  | _ => True

/-- A state that `renewal_territory` refuses, and for which no renewal order is executed, is not
the state of a prolonged territory. -/
theorem NoRenewalOrderFor.prolong {state : TerritoryState} {n : Node T} {a : Action T}
    (h : NoRenewalOrderFor state n a) (hactive : state ≠ .active) (hfrozen : state ≠ .frozen)
    (hmakes : a.Makes n.world (.prolong key t blocks)) : t.state ≠ state := by
  cases a with
  | call c =>
    cases hmakes with
    | renewal ht hstate =>
      rcases hstate with hstate | hstate
      · rw [hstate]
        exact hactive.symm
      · rw [hstate]
        exact hfrozen.symm
    | orderRenewal horder hexpired htype ht => exact h _ _ horder hexpired htype ht
  | serve name =>
    obtain ⟨block, task, -, hmakes⟩ := hmakes
    cases hmakes
  | handle op =>
    obtain ⟨key', t₁, t₂, -, heq⟩ := hmakes
    cases heq
  | newBlock | frozenTask | external _ _ => exact hmakes.elim

/-- The end of the frozen period of a lease that ends now fits a block number. -/
def FrozenFits (n : Node T) : Action T → Prop
  | .frozenTask => n.world.now + T.frozenDays < 2 ^ 32
  | _ => True

/-- Where it fits, the first loop freezes the lease it visits. -/
theorem Book.freeze_of_fits (hnames : b.Names token key t) (hdeadline : t.deadline = b.now)
    (hfits : b.now + T.frozenDays < 2 ^ 32) : b.freeze token = b.frozen token key t := by
  rw [Book.freeze_of_names hnames, hdeadline, if_pos hfits]

end StorageHandler
