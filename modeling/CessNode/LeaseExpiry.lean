/-
# Every lease ends

The hook reads only the entries filed for its own block, so a lease whose entry is filed
for a block that has passed runs for ever.  `Book.Awaited` is the converse of `Book.Filed`:
every live lease has its entry in the freeze queue and every frozen territory has its entry
in the expiry queue, among the entries that are still to be read.

`mint_territory` demands thirty days.  Reactivations, renewals and orders take any number
of days, and with zero days they file a lease for the current block.
-/
import CessNode.PurchasedSpace

open Dispatch StorageMap

namespace StorageHandler

variable {T : Config}

/-- Every lease has its entry in the freeze queue, among those in `F`, and every frozen
territory has its entry in the expiry queue, among those in `E`. -/
structure Book.Awaited (b : Book T) (F E : Set (ℕ × TokenId)) : Prop where
  live : StorageMap.Awaited TerritoryInfo.token TerritoryInfo.FreezesAt b.territory b.territoryFrozen F
  frozen : StorageMap.Awaited TerritoryInfo.token (TerritoryInfo.ExpiresAt T) b.territory
    b.territoryExpired E

variable {b b' : Book T} {F E F' E' : Set (ℕ × TokenId)} {key : T.AccountId × TerrName}
  {t t₀ : TerritoryInfo}

/-! ## Changes -/

/-- A change that touches neither the queues nor the dates. -/
theorem Book.Awaited.undated (h : b.Awaited F E) {ch : Change T} (hstep : b.Step ch b')
    (hkeys : b.KeyInv) (hfree : ch.NoClobber b) (hch : ch.Undated) : b'.Awaited F E := by
  obtain ⟨hfrozen, hexpired, src, t, key, t₀, ht, htarget, hdates⟩ := hstep.undated hch
  have hrep := hstep.replaced hkeys hfree htarget
  refine ⟨?_, ?_⟩
  · rw [hfrozen]
    refine h.live.replace hrep ?_ fun _ _ _ => And.intro
    rw [hdates.token]
    exact fun block hdue => h.live src t block ht (hdates.freezesAt.mp hdue)
  · rw [hexpired]
    refine h.frozen.replace hrep ?_ fun _ _ _ => And.intro
    rw [hdates.token]
    exact fun block hdue => h.frozen src t block ht (hdates.expiresAt.mp hdue)

/-- A fresh lease of at least one block. -/
theorem Book.Awaited.lease {now : ℕ} (hnow : b.now = now)
    (h : b.Awaited (fromBlock (now + 1)) (fromBlock (now + 1)))
    (hrep : Replaced TerritoryInfo.token b.territory b'.territory key t₀) {blocks : ℕ}
    (hblocks : 0 < blocks) (hdeadline : t₀.deadline = b.now + blocks)
    (hstate : t₀.state = .active)
    (hqueue : b'.territoryFrozen = b.territoryFrozen.insert (b.now + blocks, t₀.token) true)
    (hqueue' : b'.territoryExpired = b.territoryExpired) :
    b'.Awaited (fromBlock (now + 1)) (fromBlock (now + 1)) := by
  refine ⟨?_, ?_⟩
  · rw [hqueue]
    refine h.live.file hrep _ fun block hdue => ⟨hdue.2.symm.trans hdeadline, ?_⟩
    show now + 1 ≤ b.now + blocks
    omega
  · rw [hqueue']
    refine h.frozen.replace hrep (fun block hdue => ?_) fun _ _ _ => And.intro
    have hfrozen := hstate.symm.trans hdue.1
    cases hfrozen

/-- A prolonged lease; a frozen one needs at least one block to come back to life. -/
theorem Book.Awaited.prolong {now : ℕ} (hnow : b.now = now)
    (h : b.Awaited (fromBlock (now + 1)) (fromBlock (now + 1))) (hkeys : b.KeyInv) {blocks : ℕ}
    (hblocks : t.state = .frozen → 0 < blocks) (hstep : b.Step (.prolong key t blocks) b') :
    b'.Awaited (fromBlock (now + 1)) (fromBlock (now + 1)) := by
  have hrep := hstep.replaced hkeys trivial rfl
  cases hstep with
  | prolong ht _ =>
    have hother : ∀ {queue : StorageMap (ℕ × TokenId) Bool} {block token old},
        token ≠ t.token → (block, token) ∈ queue → (block, token) ∈ queue.erase (old, t.token) :=
      fun hne hmem => AList.mem_erase.mpr ⟨fun heq => hne (Prod.mk.inj heq).2, hmem⟩
    refine ⟨h.live.replace hrep ?_ fun block token hne hmem hF =>
      ⟨(AList.mem_insert _).mpr (.inr (hother hne hmem)), hF⟩,
      h.frozen.replace hrep ?_ fun block token hne hmem hE => ⟨hother hne hmem, hE⟩⟩
    · rintro block ⟨hlive, rfl⟩
      refine ⟨(AList.mem_insert _).mpr (.inl rfl), ?_⟩
      show now + 1 ≤ t.renewedDeadline b.now blocks
      by_contra hle
      -- not active by the renewal, so live before it, with a deadline still to come
      have hnot : ¬ t.renewedDeadline b.now blocks > b.now := by omega
      have hstate : (t.renewed b.now blocks).state = t.state := if_neg hnot
      have hold : t.Live := by rwa [TerritoryInfo.Live, hstate] at hlive
      have hlater : now + 1 ≤ t.deadline := (h.live key t _ ht ⟨hold, rfl⟩).2
      unfold TerritoryInfo.renewedDeadline at hnot
      split_ifs at hnot <;> omega
    · rintro block ⟨hfrozen, -⟩
      by_cases hlater : t.renewedDeadline b.now blocks > b.now
      · have hstate : (t.renewed b.now blocks).state = .active := if_pos hlater
        rw [hstate] at hfrozen
        cases hfrozen
      · have hstate : (t.renewed b.now blocks).state = t.state := if_neg hlater
        have hpos := hblocks (hstate ▸ hfrozen)
        unfold TerritoryInfo.renewedDeadline at hlater
        split_ifs at hlater <;> omega

/-- The leases a change starts or brings back have at least one block. -/
def Change.Positive : Change T → Prop
  | .lease _ _ _ blocks => 0 < blocks
  | .restart _ _ blocks => 0 < blocks
  | .prolong _ t blocks => t.state = .frozen → 0 < blocks
  | _ => True

/-- **Every change leaves every lease with its entry.** -/
theorem Book.Step.awaited {ch : Change T} (hstep : b.Step ch b') (hkeys : b.KeyInv)
    (hfree : ch.NoClobber b) (hpos : ch.Positive) {phase : Phase} (hphase : phase = .initializing →
      (∃ src dst t, ch = .deliver src dst t) ∨ ∃ key t t', ch = .respace key t t')
    (h : b.Awaited (fromBlock (phase.horizon b.now)) (fromBlock (phase.horizon b.now))) :
    b'.Awaited (fromBlock (phase.horizon b.now)) (fromBlock (phase.horizon b.now)) := by
  have hrep := @Book.Step.replaced T b b' ch hstep hkeys hfree
  cases ch with
  | lease =>
    cases phase with
    | initializing => rcases hphase rfl with ⟨_, _, _, h⟩ | ⟨_, _, _, h⟩ <;> cases h
    | executing =>
      have hrep := hrep rfl
      cases hstep with
      | lease _ _ _ => exact Book.Awaited.lease rfl h hrep hpos rfl rfl rfl rfl
  | restart =>
    cases phase with
    | initializing => rcases hphase rfl with ⟨_, _, _, h⟩ | ⟨_, _, _, h⟩ <;> cases h
    | executing =>
      have hrep := hrep rfl
      cases hstep with
      | restart _ _ _ => exact Book.Awaited.lease rfl h hrep hpos rfl rfl rfl rfl
  | prolong =>
    cases phase with
    | initializing => rcases hphase rfl with ⟨_, _, _, h⟩ | ⟨_, _, _, h⟩ <;> cases h
    | executing => exact Book.Awaited.prolong rfl h hkeys hpos hstep
  | relist token =>
    cases hstep with
    | relist hc => exact ⟨h.live, h.frozen⟩
  | expand | respace | consign | withdraw | deliver | move =>
    exact h.undated hstep hkeys hfree trivial

/-! ## The block hook -/

/-- The entries to be read without those of one token. -/
theorem mem_unread_of_ne {now block : ℕ} {token token' : TokenId} {rest : List TokenId}
    (hne : token' ≠ token) (h : (block, token') ∈ unread now (token :: rest)) :
    (block, token') ∈ unread now rest := by
  rcases h with h | ⟨h, hmem⟩
  · exact .inl h
  · exact .inr ⟨h, (List.mem_cons.mp hmem).resolve_left hne⟩

/-- A round of the first loop: the lease of the token moves to the expiry queue. -/
theorem Book.Awaited.freeze {rest : List TokenId}
    (h : b.Awaited (unread b.now (t.token :: rest)) (fromBlock b.now)) (hkeys : b.KeyInv)
    (hnames : b.Names t.token key t) (hdeadline : t.deadline = b.now)
    (hfits : b.now + T.frozenDays < 2 ^ 32) :
    (b.freeze t.token).Awaited (unread b.now rest) (fromBlock b.now) := by
  rw [Book.freeze_of_fits hnames hdeadline hfits]
  have hrep : Replaced TerritoryInfo.token b.territory (b.frozen t.token key t).territory key
      { t with state := .frozen } := hkeys.replaced_put hnames.2 rfl
  have hfile := h.frozen.file hrep (t.deadline + T.frozenDays)
  refine ⟨h.live.replace hrep ?_ fun block token hne hmem hF => ⟨hmem, mem_unread_of_ne hne hF⟩,
    hfile fun block hdue => ⟨hdue.2.symm, ?_⟩⟩
  · rintro block ⟨hlive | hlive, -⟩ <;> cases hlive
  · show b.now ≤ t.deadline + T.frozenDays
    omega

/-- A round of the second loop, which the purchased space allows. -/
theorem Book.Awaited.expire {rest : List TokenId}
    (h : b.Awaited F (unread b.now (t.token :: rest))) (hkeys : b.KeyInv)
    (hpurchased : b.Purchased) (hnames : b.Names t.token key t) (hstate : t.state = .frozen)
    (hdeadline : t.deadline + T.frozenDays = b.now) :
    (b.expire t.token).Awaited F (unread b.now rest) := by
  rw [(hpurchased.expire hnames hstate hdeadline).2]
  have hrep : Replaced TerritoryInfo.token b.territory (b.expired key t).territory key
      { t with state := .expired } := hkeys.replaced_put hnames.2 rfl
  refine ⟨h.live.replace hrep ?_ fun _ _ _ => And.intro, h.frozen.replace hrep ?_
    fun block token hne hmem hE => ⟨hmem, mem_unread_of_ne hne hE⟩⟩
  · rintro block ⟨hlive | hlive, -⟩ <;> cases hlive
  · rintro block ⟨hfrozen, -⟩
    cases hfrozen

/-- At the start of a loop the entries to be read are those of this block and later ones. -/
theorem mem_unread_start {m : StorageMap (ℕ × TokenId) Bool} {now : ℕ} {p : ℕ × TokenId}
    (hmem : p ∈ m) (hp : p ∈ fromBlock now) : p ∈ unread now (T.hashOrder (m.iterPrefix now)) := by
  obtain ⟨block, token⟩ := p
  rcases Nat.lt_or_eq_of_le hp with hlt | heq
  · exact .inl hlt
  · obtain rfl : now = block := heq
    exact .inr ⟨rfl, mem_hashOrder_iterPrefix.mpr hmem⟩

/-- At its end they are those of later blocks. -/
theorem mem_fromBlock_end {now : ℕ} {p : ℕ × TokenId} (hp : p ∈ unread now []) :
    p ∈ fromBlock (now + 1) := by
  rcases hp with hlt | ⟨-, hnil⟩
  · exact hlt
  · cases hnil

theorem Book.Awaited.freezeAll (h : b.Awaited (fromBlock b.now) (fromBlock b.now))
    (hfiled : b.Filed (fromBlock b.now) (fromBlock b.now)) (hpurchased : b.Purchased)
    (hfits : b.now + T.frozenDays < 2 ^ 32) :
    b.freezeAll.Awaited (fromBlock (b.now + 1)) (fromBlock b.now) ∧ b.freezeAll.Purchased := by
  have hstart : b.Awaited (unread b.now _) _ :=
    ⟨h.live.mono fun _ hmem hp => mem_unread_start (T := T) hmem hp, h.frozen⟩
  obtain ⟨-, -, h', hpurchased'⟩ := Book.freezeAll_rule
    (Q := fun l c => c.Awaited (unread b.now l) (fromBlock b.now) ∧ c.Purchased) hfiled
    ⟨hstart, hpurchased⟩ (by
      rintro c token rest key t hkeys hnow - hnames rfl hlive hdeadline ⟨hc, hcp⟩
      rw [← hnow] at hc hfits ⊢
      exact ⟨hc.freeze hkeys hnames hdeadline hfits, hcp.freeze hnames hlive⟩)
  exact ⟨⟨h'.live.mono fun _ _ hp => mem_fromBlock_end hp, h'.frozen⟩, hpurchased'⟩

theorem Book.Awaited.expireAll (h : b.Awaited (fromBlock (b.now + 1)) (fromBlock b.now))
    (hfiled : b.Filed (fromBlock (b.now + 1)) (fromBlock b.now)) (hpurchased : b.Purchased) :
    b.expireAll.Awaited (fromBlock (b.now + 1)) (fromBlock (b.now + 1)) := by
  have hstart : b.Awaited _ (unread b.now _) :=
    ⟨h.live, h.frozen.mono fun _ hmem hp => mem_unread_start (T := T) hmem hp⟩
  obtain ⟨-, -, h', -⟩ := Book.expireAll_rule
    (Q := fun l c => c.Awaited (fromBlock (b.now + 1)) (unread b.now l) ∧ c.Purchased) hfiled
    ⟨hstart, hpurchased⟩ (by
      rintro c token rest key t hkeys hnow - hnames rfl hstate hdeadline ⟨hc, hcp⟩
      rw [← hnow] at hc ⊢
      exact ⟨hc.expire hkeys hcp hnames hstate hdeadline, (hcp.expire hnames hstate hdeadline).1⟩)
  exact ⟨h'.live, h'.frozen.mono fun _ _ hp => mem_fromBlock_end hp⟩

/-- The hook leaves no lease of its block live and no frozen period of its block open. -/
theorem Book.Awaited.frozenTask (h : b.Awaited (fromBlock b.now) (fromBlock b.now))
    (hfiled : b.Filed (fromBlock b.now) (fromBlock b.now)) (hpurchased : b.Purchased)
    (hfits : b.now + T.frozenDays < 2 ^ 32) :
    b.frozenTask.Awaited (fromBlock (b.now + 1)) (fromBlock (b.now + 1)) := by
  obtain ⟨hnow, hfiled', -⟩ := Book.freezeAll_rule (Q := fun _ _ => True) hfiled trivial
    (fun _ _ _ _ _ _ _ _ _ _ _ _ _ => trivial)
  obtain ⟨h', hpurchased'⟩ := h.freezeAll hfiled hpurchased hfits
  rw [← hnow] at h' hfiled' ⊢
  exact h'.expireAll hfiled' hpurchased'

/-! ## Runs -/

/-- The step starts no lease of zero days: no reactivation, no purchase by an order, and no
renewal of a frozen territory, directly or by an order, is for zero days. -/
def PositiveLease (n : Node T) : Action T → Prop
  | .call (.reactivateTerritory _ _ days) => 0 < days
  | .call (.renewalTerritory sender name days) =>
    ∀ t, n.world.territory.lookup (sender, name) = some t → t.state = .frozen → 0 < days
  | .call (.execOrder _ orderId) => ∀ order, n.world.payOrder.lookup orderId = some order →
      n.world.now < order.expired →
      (order.orderType = .buy → 0 < order.days) ∧
      (order.orderType = .renewal → ∀ t,
        n.world.territory.lookup (order.targetAcc, order.territoryName) = some t →
        t.state = .frozen → 0 < order.days)
  | _ => True

/-- The leases an allowed action starts are not empty; `mint_territory` checks it itself. -/
theorem PositiveLease.change {n : Node T} {a : Action T} {ch : Change T} (hday : 0 < T.oneDay)
    (h : PositiveLease n a) (hmakes : a.Makes n.world ch) : ch.Positive := by
  cases a with
  | call c =>
    cases hmakes with
    | mint hdays => exact Nat.mul_pos hday (by omega)
    | renewal ht _ => exact fun hfrozen => Nat.mul_pos hday (h _ ht hfrozen)
    | reactivate _ _ => exact Nat.mul_pos hday h
    | orderBuy horder hexpired htype =>
      exact Nat.mul_pos hday ((h _ horder hexpired).1 htype)
    | orderRenewal horder hexpired htype ht =>
      exact fun hfrozen => Nat.mul_pos hday ((h _ horder hexpired).2 htype _ ht hfrozen)
    | _ => trivial
  | serve name =>
    obtain ⟨block, task, -, hmakes⟩ := hmakes
    cases hmakes
    trivial
  | handle op =>
    obtain ⟨key', t₁, t₂, -, rfl⟩ := hmakes
    trivial
  | newBlock | frozenTask | external _ _ => exact hmakes.elim

/-- The step is safe for the purchased space, starts no lease of zero days, and runs the hook
only where the end of a frozen period fits a block number. -/
def LeaseSafe (n : Node T) (a : Action T) : Prop :=
  PurchaseSafe n a ∧ PositiveLease n a ∧ FrozenFits n a

theorem Reached.awaited (hday : 0 < T.oneDay) (hdays : 0 < T.frozenDays) {n : Node T}
    (hn : Reached LeaseSafe n) :
    n.world.book.Awaited (fromBlock (n.phase.horizon n.world.now))
      (fromBlock (n.phase.horizon n.world.now)) := by
  have hclobber : ∀ (n : Node T) a, LeaseSafe n a → NoClobber n a := fun _ _ h => h.1.1
  refine hn.book_inv (P := fun phase b => b.Awaited (fromBlock (phase.horizon b.now))
    (fromBlock (phase.horizon b.now))) ?_ ?_ ?_ ?_
  · intro ledger agenda price
    exact ⟨fun _ _ _ ht => (by cases ht), fun _ _ _ ht => (by cases ht)⟩
  · intro b hb
    exact ⟨hb.live, hb.frozen⟩
  · intro n hn hok hphase hb
    have hfiled := hn.filed hclobber
    rw [hphase] at hfiled
    have hnow : n.world.book.frozenTask.now = n.world.book.now := hfiled.frozenTask.1
    rw [hnow]
    exact hb.frozenTask hfiled (hn.purchased (fun _ _ h => h.1) hdays) hok.2.2
  · intro n a ch b' hn hok hmakes hstep hphase hb
    rw [hstep.now_eq]
    exact hstep.awaited (hn.keyInv hclobber) (hok.1.1.change hmakes)
      (PositiveLease.change hday hok.2.1 hmakes) hphase hb

/-- **Every lease ends.**  In every safe run, at any time between the hook of a block and the
next block, every live lease has its deadline ahead and an entry in the freeze queue for it,
and every frozen territory has the end of its frozen period ahead and an entry in the expiry
queue for it. -/
theorem leases_end (hday : 0 < T.oneDay) (hdays : 0 < T.frozenDays) {n : Node T}
    (hn : Reached LeaseSafe n) (hphase : n.phase = .executing) {key : T.AccountId × TerrName}
    {t : TerritoryInfo} (ht : n.world.territory.lookup key = some t) :
    (t.state = .active ∨ t.state = .onConsignment →
      n.world.now < t.deadline ∧ (t.deadline, t.token) ∈ n.world.territoryFrozen) ∧
    (t.state = .frozen →
      n.world.now < t.deadline + T.frozenDays ∧
        (t.deadline + T.frozenDays, t.token) ∈ n.world.territoryExpired) := by
  have h := hn.awaited hday hdays
  rw [hphase] at h
  refine ⟨?_, ?_⟩
  · intro hlive
    obtain ⟨hmem, hlater⟩ := h.live key t _ ht ⟨hlive, rfl⟩
    exact ⟨hlater, hmem⟩
  · intro hfrozen
    obtain ⟨hmem, hlater⟩ := h.frozen key t _ ht ⟨hfrozen, rfl⟩
    exact ⟨hlater, hmem⟩

/-- The theorem at a chain with an active lease. -/
theorem leases_end_mint : ∃ n : Node runtime, ∃ t,
    n.world.territory.lookup (alice, nameA) = some t ∧ t.state = .active ∧
      n.world.now < t.deadline ∧ (t.deadline, t.token) ∈ n.world.territoryFrozen := by
  have hguard : Runs.Guarded Node.step LeaseSafe (start (10 ^ 20)) twoMints := by
    refine ⟨⟨⟨trivial, trivial⟩, trivial, trivial⟩, fun n hn => ⟨⟨⟨trivial, trivial⟩, trivial, ?_⟩,
      fun _ _ => ⟨⟨⟨trivial, trivial⟩, trivial, trivial⟩, fun _ _ =>
        ⟨⟨⟨trivial, trivial⟩, trivial, trivial⟩, fun _ _ =>
          ⟨⟨⟨trivial, trivial⟩, trivial, trivial⟩, fun _ _ => trivial⟩⟩⟩⟩⟩
    obtain ⟨-, -, rfl⟩ := step_newBlock hn
    show 1 + 7 * 14400 < 2 ^ 32
    decide
  have hrun : (Runs.exec Node.step (start (10 ^ 20)) twoMints).any
      (fun n => decide (n.phase = .executing) &&
        (n.world.territory.lookup (alice, nameA)).any fun t => decide (t.state = .active)) =
        true := by
    decide +kernel
  obtain ⟨n, hn, hcheck⟩ := Runs.Reach.exists_of_exec (start_reached _) hguard hrun
  obtain ⟨hphase, hactive⟩ := Bool.and_eq_true_iff.mp hcheck
  obtain ⟨t, ht, hstate⟩ := (Option.any_eq_true _ _).mp hactive
  exact ⟨n, t, ht, of_decide_eq_true hstate, (leases_end (by decide) (by decide) hn
    (of_decide_eq_true hphase) ht).1 (.inl (of_decide_eq_true hstate))⟩

/-- Without the condition: an order for zero days leases a territory up to the current block,
which the hook has passed. -/
theorem order_of_zero_days_never_ends : ∃ n : Node runtime, Reached OwnSteps n ∧
    n.phase = .executing ∧ ∃ key t, n.world.territory.lookup key = some t ∧
      t.state = .active ∧ ¬ n.world.now < t.deadline := by
  have hrun : ((start (10 ^ 20)).runs Action.own (firstBlock.map .act ++
      [.act (.call (.createOrder alice nameA .buy 1 0 10)),
        .act (.call (.execOrder alice (orderKey runtime 1)))])).any
      (fun n => decide (n.phase = .executing) &&
        (n.world.territory.lookup (alice, nameA)).any fun t =>
          decide (t.state = .active ∧ ¬ n.world.now < t.deadline)) = true := by
    decide +kernel
  obtain ⟨n, hn, hcheck⟩ := Reached.exists_of_own (start_reached _) hrun
  obtain ⟨hphase, hlease⟩ := Bool.and_eq_true_iff.mp hcheck
  obtain ⟨t, ht, hstate⟩ := (Option.any_eq_true _ _).mp hlease
  exact ⟨n, hn, of_decide_eq_true hphase, _, t, ht, of_decide_eq_true hstate⟩

/-! ## What one run of the hook does -/

/-- The hook of the block `now` has something to do with the territory. -/
def TerritoryInfo.Due (T : Config) (now : ℕ) (t : TerritoryInfo) : Prop :=
  t.FreezesAt now ∨ t.ExpiresAt T now

/-- A territory after the hook of the block `now`. -/
def TerritoryInfo.hooked (T : Config) (now : ℕ) (t : TerritoryInfo) : TerritoryInfo :=
  match t.state with
  | .active | .onConsignment => if t.deadline = now then { t with state := .frozen } else t
  | .frozen => if t.deadline + T.frozenDays = now then { t with state := .expired } else t
  | .expired => t

theorem TerritoryInfo.hooked_of_not_due {now : ℕ} (h : ¬ t.Due T now) : t.hooked T now = t := by
  rcases hstate : t.state <;> simp_all [hooked, Due, FreezesAt, ExpiresAt, Live]

/-- A territory is due once: a frozen period has at least one block. -/
theorem TerritoryInfo.not_due_hooked {now : ℕ} (hdays : 0 < T.frozenDays) :
    ¬ (t.hooked T now).Due T now := by
  unfold hooked
  split <;> (try split_ifs) <;> simp_all [Due, FreezesAt, ExpiresAt, Live] <;> omega

/-- Every territory is as in `b` or as the hook leaves it. -/
def Book.Hooked (b c : Book T) : Prop := ∀ key, c.territory.lookup key = b.territory.lookup key ∨
  c.territory.lookup key = (b.territory.lookup key).map (·.hooked T b.now)

theorem Book.Hooked.put {c : Book T} (h : b.Hooked c) (hdays : 0 < T.frozenDays)
    (ht : c.territory.lookup key = some t) (hdue : t.Due T b.now)
    (hb' : b'.territory = c.territory.insert key (t.hooked T b.now)) : b.Hooked b' := by
  intro key'
  rw [hb', lookup_insert_ite]
  split_ifs with heq
  · subst heq
    right
    rcases h key' with hsame | hdone
    · rw [← hsame, ht]
      rfl
    · -- the round would be the second one for this territory
      rw [ht] at hdone
      obtain ⟨t', -, rfl⟩ := Option.map_eq_some_iff.mp hdone.symm
      exact absurd hdue (TerritoryInfo.not_due_hooked hdays)
  · exact h key'

/-- The hook touches what is due only. -/
theorem Book.hooked_frozenTask (h : b.Filed (fromBlock b.now) (fromBlock b.now))
    (hpurchased : b.Purchased) (hfits : b.now + T.frozenDays < 2 ^ 32) (hdays : 0 < T.frozenDays) :
    b.Hooked b.frozenTask := by
  obtain ⟨hnow, hfiled, hfirst, hpurchased'⟩ := Book.freezeAll_rule
    (Q := fun _ c => b.Hooked c ∧ c.Purchased) h ⟨fun _ => .inl rfl, hpurchased⟩ (by
      rintro c token rest key t - hnow - hnames - hlive hdeadline ⟨hc, hcp⟩
      have hdue := hdeadline.trans hnow
      refine ⟨hc.put hdays hnames.2 (.inl ⟨hlive, hdue⟩) ?_, hcp.freeze hnames hlive⟩
      rw [Book.freeze_of_fits hnames hdeadline (hnow ▸ hfits)]
      rcases hlive with hstate | hstate <;>
        simp [Book.frozen, TerritoryInfo.hooked, hstate, hdue])
  rw [← hnow] at hfiled
  refine (Book.expireAll_rule (Q := fun _ c => b.Hooked c ∧ c.Purchased) hfiled
    ⟨hfirst, hpurchased'⟩ ?_).2.2.1
  rintro c token rest key t - hnow' - hnames - hstate hdeadline ⟨hc, hcp⟩
  obtain ⟨hcp', hexpire⟩ := hcp.expire hnames hstate hdeadline
  rw [hnow', hnow] at hdeadline
  refine ⟨hc.put hdays hnames.2 (.inr ⟨hstate, hdeadline⟩) ?_, hcp'⟩
  simp [hexpire, Book.expired, TerritoryInfo.hooked, hstate, hdeadline]

/-- **The hook does what is due and nothing else.**  In every safe run the hook of a block freezes
exactly the leases that end in this block, expires exactly the territories whose frozen
period ends in it, and leaves every other territory as it is. -/
theorem hook_exact (hday : 0 < T.oneDay) (hdays : 0 < T.frozenDays) {n n' : Node T}
    (hn : Reached LeaseSafe n) (hok : LeaseSafe n .frozenTask) (h : n.step .frozenTask = some n')
    (key : T.AccountId × TerrName) : n'.world.territory.lookup key =
      (n.world.territory.lookup key).map (·.hooked T n.world.now) := by
  obtain ⟨hphase, rfl⟩ := step_frozenTask h
  have hfiled := hn.filed fun _ _ h => h.1.1
  have hawaited := hn.awaited hday hdays
  have hpurchased := hn.purchased (fun _ _ h => h.1) hdays
  rw [hphase] at hfiled hawaited
  show (World.book _).territory.lookup key = (n.world.book.territory.lookup key).map _
  rw [after_frozenTask_book]
  rcases Book.hooked_frozenTask hfiled hpurchased hok.2.2 hdays key with hsame | hdone
  · rw [hsame]
    rcases ht : n.world.book.territory.lookup key with _ | t
    · rfl
    · -- what is due does not stay as it is: it is awaited in later blocks only
      rw [ht] at hsame
      have hend := hawaited.frozenTask hfiled hpurchased hok.2.2
      have hnot : ¬ t.Due T n.world.now := by
        rintro (hdue | hdue)
        · exact Nat.lt_irrefl _ (hend.live key t _ hsame hdue).2
        · exact Nat.lt_irrefl _ (hend.frozen key t _ hsame hdue).2
      rw [Option.map_some, TerritoryInfo.hooked_of_not_due hnot]
  · exact hdone

/-- The theorem at a chain with an active lease, in its first block. -/
theorem hook_exact_mint : ∃ n n' : Node runtime, n.step .frozenTask = some n' ∧
    (n.world.territory.lookup (alice, nameA)).isSome ∧
      n'.world.territory.lookup (alice, nameA) =
        (n.world.territory.lookup (alice, nameA)).map (·.hooked runtime n.world.now) := by
  let run : List (Action runtime) := [.handle (.addTotalIdleSpace (1024 * gByte)),
    .call (.mintTerritory alice 1 nameA 30), .newBlock]
  have hrun : (Runs.exec Node.step (start (10 ^ 20)) run).any (fun n =>
      (n.step .frozenTask).isSome && (n.world.territory.lookup (alice, nameA)).isSome &&
        decide (n.world.now + runtime.frozenDays < 2 ^ 32)) = true := by
    decide +kernel
  have hguard : Runs.Guarded Node.step LeaseSafe (start (10 ^ 20)) run := by
    refine ⟨?_, fun _ _ => ⟨?_, fun _ _ => ⟨?_, fun _ _ => trivial⟩⟩⟩ <;>
      exact ⟨⟨trivial, trivial⟩, trivial, trivial⟩
  obtain ⟨n, hn, hcheck⟩ := Runs.Reach.exists_of_exec (start_reached _) hguard hrun
  simp only [Bool.and_eq_true, decide_eq_true_eq] at hcheck
  obtain ⟨n', hstep⟩ := Option.isSome_iff_exists.mp hcheck.1.1
  exact ⟨n, n', hstep, hcheck.1.2, hook_exact (by decide) (by decide) hn
    ⟨⟨trivial, trivial⟩, trivial, hcheck.2⟩ hstep _⟩

end StorageHandler
