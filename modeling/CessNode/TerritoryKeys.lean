/-
# The token index of the territories

`TerritoryKey` sends a token to the account and name under which `Territory` holds the
territory of that token.  `mint_territory` and `exec_order` check that the name they
write to is free; `territory_rename`, `territory_grants` and `exec_consignment` do not.
In runs where these three never aim at a taken name the two maps stay mutually inverse,
and a step changes no territory of a token it does not operate on.
-/
import CessNode.LeaseRefinement
import CessNode.Runtime

open Dispatch StorageMap

namespace StorageHandler

variable {T : Config}
variable {key : T.AccountId × TerrName} {t : TerritoryInfo} {n : Node T} {a : Action T}

/-! ## The index in the book -/

/-- The index and the territories are mutually inverse. -/
def Book.KeyInv (b : Book T) : Prop :=
  Inverse TerritoryInfo.token b.territoryKey b.territory

/-- The territory a change writes, and its key. -/
def Change.target (b : Book T) : Change T → Option ((T.AccountId × TerrName) × TerritoryInfo)
  | .lease token key space blocks =>
    some (key, newTerritory token space b.now (b.now + blocks))
  | .expand key t space => some (key, t.expanded space)
  | .prolong key t blocks => some (key, t.renewed b.now blocks)
  | .restart key t blocks => some (key, t.initialised b.now blocks)
  | .respace key _ t' => some (key, t')
  | .consign key t => some (key, { t with state := .onConsignment })
  | .relist _ => none
  | .withdraw key t => some (key, { t with state := .active })
  | .deliver _ dst t => some (dst, { t with state := .active })
  | .move _ dst t => some (dst, t)

variable {b b' : Book T} {ch : Change T}

/-- A change without a target leaves the territories alone. -/
theorem Book.Step.territory_eq (h : b.Step ch b') (htarget : ch.target b = none) :
    b'.territory = b.territory := by
  cases h <;> first | rfl | cases htarget

/-- **A change replaces one territory.** -/
theorem Book.Step.replaced (h : b.Step ch b') (hkeys : b.KeyInv) (hfree : ch.NoClobber b)
    {key : T.AccountId × TerrName} {t : TerritoryInfo} (htarget : ch.target b = some (key, t)) :
    Replaced TerritoryInfo.token b.territory b'.territory key t := by
  cases h with
  | lease hkey htoken _ =>
    obtain ⟨rfl, rfl⟩ := Prod.mk.inj (Option.some.inj htarget)
    exact hkeys.replaced_new hkey htoken
  | expand ht _ | prolong ht _ | restart ht _ _ | consign ht _ _ _ | withdraw ht _ =>
    obtain ⟨rfl, rfl⟩ := Prod.mk.inj (Option.some.inj htarget)
    exact hkeys.replaced_put ht rfl
  | respace ht ht' =>
    obtain ⟨rfl, rfl⟩ := Prod.mk.inj (Option.some.inj htarget)
    exact hkeys.replaced_put ht ht'.token
  | relist _ => cases htarget
  | deliver _ ht _ =>
    obtain ⟨rfl, rfl⟩ := Prod.mk.inj (Option.some.inj htarget)
    exact hkeys.replaced_move ht rfl hfree
  | move ht _ _ _ =>
    obtain ⟨rfl, rfl⟩ := Prod.mk.inj (Option.some.inj htarget)
    exact hkeys.replaced_move ht rfl hfree

/-- A change that does not write over another territory keeps the maps inverse. -/
theorem Book.Step.keyInv (h : b.Step ch b') (hfree : ch.NoClobber b) (hkeys : b.KeyInv) :
    b'.KeyInv := by
  cases h with
  | lease hkey htoken hblocks =>
    exact ((Book.Step.lease hkey htoken hblocks).replaced hkeys hfree rfl).inverse hkeys
  | expand ht _ | prolong ht _ | restart ht _ _ | consign ht _ _ _ | withdraw ht _ =>
    exact hkeys.put ht rfl
  | respace ht ht' => exact hkeys.put ht ht'.token
  | relist _ => exact hkeys
  | deliver hkey ht hstate =>
    obtain rfl := hkeys.lookup_of_index hkey ht
    exact ((Book.Step.deliver hkey ht hstate).replaced hkeys hfree rfl).inverse hkeys
  | move ht _ hkey hkey' =>
    -- the index points to where the territory is, so the new key is the one written to
    have hsrc := hkeys.toIndex _ _ ht
    rw [hkey' (Option.mem_unique hkey hsrc)]
    exact (hkeys.replaced_move ht rfl hfree).inverse hkeys

/-! ## The index and the block hook -/

/-- The territories keep their keys and tokens. -/
def Book.SameTokens (b b' : Book T) : Prop :=
  ∀ key t, b.territory.lookup key = some t →
    ∃ t', b'.territory.lookup key = some t' ∧ t'.token = t.token

theorem Book.SameTokens.refl (b : Book T) : b.SameTokens b := fun _ t ht => ⟨t, ht, rfl⟩

theorem Book.SameTokens.trans {b₁ b₂ b₃ : Book T} (h₁ : b₁.SameTokens b₂) (h₂ : b₂.SameTokens b₃) :
    b₁.SameTokens b₃ := by
  intro key t ht
  obtain ⟨t₂, ht₂, hid₂⟩ := h₁ key t ht
  obtain ⟨t₃, ht₃, hid₃⟩ := h₂ key t₂ ht₂
  exact ⟨t₃, ht₃, hid₃.trans hid₂⟩

/-- Rewriting a territory in place keeps the tokens. -/
theorem Book.sameTokens_put (t' : TerritoryInfo) (ht : b.territory.lookup key = some t)
    (hid : t'.token = t.token) (hb' : b'.territory = b.territory.insert key t') :
    b.SameTokens b' := by
  intro k v hv
  rw [hb', lookup_insert_ite]
  split_ifs with hk
  · subst hk
    obtain rfl : v = t := Option.mem_unique hv ht
    exact ⟨t', rfl, hid⟩
  · exact ⟨v, hv, rfl⟩

theorem Book.freeze_keys (b : Book T) (token : TokenId) (hkeys : b.KeyInv) :
    (b.freeze token).KeyInv ∧ b.SameTokens (b.freeze token) := by
  rcases b.freeze_cases token with h | ⟨key, t, hnames, ⟨-, h⟩ | ⟨-, h⟩⟩
  · rw [h]
    exact ⟨hkeys, .refl b⟩
  · rw [h]
    exact ⟨hkeys.put hnames.2 rfl,
      Book.sameTokens_put { t with state := .frozen } hnames.2 rfl rfl⟩
  · rw [h]
    exact ⟨hkeys, .refl b⟩

theorem Book.expire_keys (b : Book T) (token : TokenId) (hkeys : b.KeyInv) :
    (b.expire token).KeyInv ∧ b.SameTokens (b.expire token) := by
  rcases b.expire_cases token with h | ⟨key, t, hnames, -, h⟩
  · rw [h]
    exact ⟨hkeys, .refl b⟩
  · rw [h]
    exact ⟨hkeys.put hnames.2 rfl,
      Book.sameTokens_put { t with state := .expired } hnames.2 rfl rfl⟩

/-- The block hook moves no territory and loses none. -/
theorem Book.frozenTask_keys (b : Book T) (hkeys : b.KeyInv) :
    b.frozenTask.KeyInv ∧ b.SameTokens b.frozenTask := by
  refine Book.frozenTask_keeps (Q := fun c => c.KeyInv ∧ b.SameTokens c) ?_ ?_ ⟨hkeys, .refl b⟩
  · rintro c token ⟨hc, hsame⟩
    exact ⟨(c.freeze_keys token hc).1, hsame.trans (c.freeze_keys token hc).2⟩
  · rintro c token ⟨hc, hsame⟩
    exact ⟨(c.expire_keys token hc).1, hsame.trans (c.expire_keys token hc).2⟩

/-! ## Runs that do not write over a territory -/

/-- A territory can move from `src` to `dst`: the new place is free, or is the old one. -/
def World.FreeFor (s : World T) (src dst : T.AccountId × TerrName) : Prop :=
  dst = src ∨ s.territory.lookup dst = none

/-- The territory of a purchase that is due can move to the name the buyer chose. -/
def World.DeliveryFree (s : World T) (token : TokenId) (name : TerrName) : Prop :=
  ∀ c buyer key t, s.consignment.lookup token = some c → c.buyers = some buyer →
    c.locked = true → s.territoryKey.lookup token = some key →
    s.territory.lookup key = some t → t.state = .onConsignment → s.FreeFor key (buyer, name)

/-- The step does not write over another territory: where a rename, a grant or the delivery
of a purchase would go through, the place it moves the territory to is free. -/
def NoClobber (n : Node T) : Action T → Prop
  | .call (.territoryRename sender oldName newName) =>
    ∀ t, n.world.territory.lookup (sender, oldName) = some t → t.state = .active →
      t.totalSpace = t.remainingSpace → n.world.FreeFor (sender, oldName) (sender, newName)
  | .call (.territoryGrants sender name receiver) =>
    ∀ t, n.world.territory.lookup (sender, name) = some t → t.state = .active →
      t.totalSpace = t.remainingSpace →
      n.world.FreeFor (sender, name) (receiver, t.token.toTerrName)
  | .call (.execConsignment token name) => n.world.DeliveryFree token name
  | .serve name => ∀ block task, T.pending n.world.agenda name = some (block, task) →
      n.world.DeliveryFree task.token task.territoryName
  | _ => True

/-- The condition on actions gives the condition on changes. -/
theorem NoClobber.change (h : NoClobber n a) (hmakes : a.Makes n.world ch) :
    ch.NoClobber n.world.book := by
  cases a with
  | call c =>
    cases hmakes with
    | exec hc hbuyer hlocked hkey ht hstate => exact h _ _ _ _ hc hbuyer hlocked hkey ht hstate
    | grants ht hstate hfree => exact h _ ht hstate hfree
    | rename ht hstate hfree => exact h _ ht hstate hfree
    | _ => trivial
  | serve name =>
    obtain ⟨block, task, hpending, hmakes⟩ := hmakes
    cases hmakes with
    | exec hc hbuyer hlocked hkey ht hstate =>
      exact h _ _ hpending _ _ _ _ hc hbuyer hlocked hkey ht hstate
  | handle op =>
    obtain ⟨key, t, t', -, rfl⟩ := hmakes
    trivial
  | newBlock | frozenTask | external _ _ => exact hmakes.elim

/-- In runs that never write over a territory the maps are mutually inverse. -/
theorem Reached.keyInv {ok : Node T → Action T → Prop} (hok : ∀ n a, ok n a → NoClobber n a)
    (hn : Reached ok n) : n.world.book.KeyInv := by
  refine hn.book_inv (P := fun _ b => b.KeyInv) ?_ ?_ ?_ ?_
  · intro ledger agenda price
    exact Inverse.empty
  · intro b hb
    exact hb
  · intro n _ _ _ hb
    exact (Book.frozenTask_keys _ hb).1
  · intro n a ch b' _ ha hmakes hstep _ hb
    exact hstep.keyInv ((hok n a ha).change hmakes) hb

/-! ## What a step operates on -/

/-- The territory under `key` has the token `token`. -/
def World.TokenAt (s : World T) (key : T.AccountId × TerrName) (token : TokenId) : Prop :=
  ∃ t, s.territory.lookup key = some t ∧ t.token = token

/-- The token a call operates on. -/
def Call.OperatesOn (s : World T) : Call T → TokenId → Prop
  | .mintTerritory sender _ name _, token => token = newToken T sender s.now name
  | .expandingTerritory sender name _, token => s.TokenAt (sender, name) token
  | .renewalTerritory sender name _, token => s.TokenAt (sender, name) token
  | .reactivateTerritory sender name _, token => s.TokenAt (sender, name) token
  | .territoryConsignment sender name _, token => s.TokenAt (sender, name) token
  | .buyConsignment _ token' _, token => token = token'
  | .execConsignment token' _, token => token = token'
  | .cancelConsignment sender name, token => s.TokenAt (sender, name) token
  | .cancelPurchaseAction _ token', token => token = token'
  | .territoryGrants sender name _, token => s.TokenAt (sender, name) token
  | .territoryRename sender oldName _, token => s.TokenAt (sender, oldName) token
  | .createOrder _ _ _ _ _ _, _ => False
  | .execOrder sender orderId, token => ∃ order, s.payOrder.lookup orderId = some order ∧
      (order.orderType = .buy → token = newToken T sender s.now order.territoryName) ∧
      (order.orderType ≠ .buy → s.TokenAt (order.targetAcc, order.territoryName) token)

/-- The token an action operates on; the block hook has none, since it may change the state
of every territory. -/
def Action.OperatesOn (s : World T) : Action T → TokenId → Prop
  | .call c, token => c.OperatesOn s token
  | .serve name, token => ∃ block task, T.pending s.agenda name = some (block, task) ∧
      token = task.token
  | .handle op, token => ∃ key, op.key = some key ∧ s.TokenAt key token
  | _, _ => False

/-- The territory a call writes has the token it operates on. -/
theorem Call.Makes.operatesOn {s : World T} {c : Call T} (hkeys : s.book.KeyInv)
    (h : c.Makes s ch) (htarget : ch.target s.book = some (key, t)) : c.OperatesOn s t.token := by
  cases h with
  | mint _ =>
    obtain ⟨-, rfl⟩ := Prod.mk.inj (Option.some.inj htarget)
    rfl
  | expanding ht _ | renewal ht _ | reactivate ht _ | consign ht | cancel ht | grants ht _ _
    | rename ht _ _ =>
      obtain ⟨-, rfl⟩ := Prod.mk.inj (Option.some.inj htarget)
      exact ⟨_, ht, rfl⟩
  | buy | cancelPurchase => cases htarget
  | exec _ _ _ hkey ht _ =>
    obtain ⟨-, rfl⟩ := Prod.mk.inj (Option.some.inj htarget)
    have htoken := hkeys.lookup_of_index hkey ht
    exact htoken
  | orderBuy horder _ htype =>
    obtain ⟨-, rfl⟩ := Prod.mk.inj (Option.some.inj htarget)
    exact ⟨_, horder, fun _ => rfl, fun hne => absurd htype hne⟩
  | orderExpansion horder _ htype ht | orderRenewal horder _ htype ht =>
    obtain ⟨-, rfl⟩ := Prod.mk.inj (Option.some.inj htarget)
    refine ⟨_, horder, ?_, fun _ => ⟨_, ht, rfl⟩⟩
    intro hbuy
    rw [htype] at hbuy
    cases hbuy

/-- The territory an action writes has the token it operates on. -/
theorem Action.Makes.operatesOn {s : World T} {b' : Book T} (hkeys : s.book.KeyInv)
    (h : a.Makes s ch) (hstep : s.book.Step ch b') (htarget : ch.target s.book = some (key, t)) :
    a.OperatesOn s t.token := by
  cases a with
  | call c => exact Call.Makes.operatesOn hkeys h htarget
  | serve name =>
    obtain ⟨block, task, hpending, hmakes⟩ := h
    exact ⟨block, task, hpending, Call.Makes.operatesOn hkeys hmakes htarget⟩
  | handle op =>
    obtain ⟨key', t₁, t₂, hkey', rfl⟩ := h
    obtain ⟨rfl, rfl⟩ := Prod.mk.inj (Option.some.inj htarget)
    cases hstep with
    | respace ht ht' => exact ⟨_, hkey', _, ht, ht'.token.symm⟩
  | newBlock | frozenTask | external _ _ => exact h.elim

/-- A territory that a step does not operate on stays where it is, and but for the block hook
as it is. -/
theorem step_keeps_territory {n' : Node T} (hkeys : n.world.book.KeyInv) (hok : NoClobber n a)
    (hstep : n.step a = some n') (ht : n.world.territory.lookup key = some t)
    (hother : ¬ a.OperatesOn n.world t.token) :
    ∃ t', n'.world.territory.lookup key = some t' ∧ t'.token = t.token ∧
      (a ≠ .frozenTask → t' = t) := by
  have hstays : n'.world.book.territory.lookup key = some t →
      ∃ t', n'.world.territory.lookup key = some t' ∧ t'.token = t.token ∧
        (a ≠ .frozenTask → t' = t) := fun h => ⟨t, h, rfl, fun _ => rfl⟩
  rcases step_book hstep with ⟨-, -, -, -, hbook⟩ | ⟨rfl, -, -, hbook⟩ |
    ⟨-, hbook | ⟨ch, hmakes, hstep', -⟩⟩
  · apply hstays
    rw [hbook]
    exact ht
  · obtain ⟨t', ht', hid⟩ := (Book.frozenTask_keys _ hkeys).2 key t ht
    rw [← hbook] at ht'
    exact ⟨t', ht', hid, fun hne => absurd rfl hne⟩
  · apply hstays
    rw [hbook]
    exact ht
  · apply hstays
    cases htarget : ch.target n.world.book with
    | none =>
      rw [hstep'.territory_eq htarget]
      exact ht
    | some target =>
      refine (hstep'.replaced hkeys (hok.change hmakes) htarget).lookup_other ?_ ht
      intro hid
      exact hother (hid ▸ hmakes.operatesOn hkeys hstep' htarget)

/-- **No territory is lost or aliased.**  In every run that never writes over a territory, the
index and the territories are mutually inverse, and every step leaves the territories of the
tokens it does not operate on under their keys; only the block hook may change their state. -/
theorem territories_not_lost {n : Node T} (hn : Reached NoClobber n) :
    (∀ token key, n.world.territoryKey.lookup token = some key ↔ n.world.TokenAt key token) ∧
    ∀ a n', NoClobber n a → n.step a = some n' →
      ∀ key t, n.world.territory.lookup key = some t → ¬ a.OperatesOn n.world t.token →
        ∃ t', n'.world.territory.lookup key = some t' ∧ t'.token = t.token ∧
          (a ≠ .frozenTask → t' = t) := by
  have hkeys := hn.keyInv fun _ _ h => h
  refine ⟨?_, ?_⟩
  · intro token key
    constructor
    · exact hkeys.toRecord token key
    · rintro ⟨t, ht, rfl⟩
      exact hkeys.toIndex key t ht
  · intro a n' hok hstep key t ht hother
    exact step_keeps_territory hkeys hok hstep ht hother

/-- An account mints two territories in the first block. -/
def twoMints : List (Action runtime) :=
  firstBlock ++ [.call (.mintTerritory alice 1 nameA 30),
    .call (.mintTerritory alice 1 nameB 30)]

/-- The theorem at a chain with two territories of one account. -/
theorem territories_not_lost_two_mints : ∃ n : Node runtime,
    n.world.territory.keys.length = 2 ∧
      ∀ token key, n.world.territoryKey.lookup token = some key ↔ n.world.TokenAt key token := by
  have hguard : Runs.Guarded Node.step NoClobber (start (10 ^ 20)) twoMints :=
    ⟨trivial, fun _ _ => ⟨trivial, fun _ _ => ⟨trivial, fun _ _ => ⟨trivial, fun _ _ =>
      ⟨trivial, fun _ _ => trivial⟩⟩⟩⟩⟩
  have hrun : (Runs.exec Node.step (start (10 ^ 20)) twoMints).any
      (fun n => decide (n.world.territory.keys.length = 2)) = true := by
    decide +kernel
  obtain ⟨n, hn, hlength⟩ := Runs.Reach.exists_of_exec (start_reached _) hguard hrun
  exact ⟨n, of_decide_eq_true hlength, (territories_not_lost hn).1⟩

/-- Without the condition: an account renames one of its two territories to the name of the
other.  The token of the overwritten territory still names the key, where the territory of
another token is. -/
theorem rename_overwrites_territory : ∃ n : Node runtime, Reached OwnSteps n ∧
    ∃ token key, n.world.territoryKey.lookup token = some key ∧ ¬ n.world.TokenAt key token := by
  have hrun : ((start (10 ^ 20)).runs Action.own
      (twoMints.map .act ++ [.act (.call (.territoryRename alice nameA nameB))])).any
      (fun n => decide (n.world.territoryKey.lookup (newToken runtime alice 1 nameB) =
          some (alice, nameB) ∧
        ¬ (n.world.territory.lookup (alice, nameB)).map TerritoryInfo.token =
          some (newToken runtime alice 1 nameB))) = true := by
    decide +kernel
  obtain ⟨n, hn, hcheck⟩ := Reached.exists_of_own (start_reached _) hrun
  obtain ⟨hkey, htoken⟩ := of_decide_eq_true hcheck
  refine ⟨n, hn, _, _, hkey, ?_⟩
  rintro ⟨t, ht, hid⟩
  rw [ht] at htoken
  exact htoken (congrArg some hid)

end StorageHandler
