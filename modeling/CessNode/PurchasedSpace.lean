/-
# Purchased space

`PurchasedSpace` is raised by every new lease, by every expansion and by a reactivation,
and lowered when a frozen territory expires.  It is the space of the territories that are
not expired, in every run that neither writes over a territory nor executes a renewal
order for an expired one.  `renewal_territory` refuses the latter; the order path does not.
-/
import CessNode.LeaseQueues

open Dispatch StorageMap

namespace StorageHandler

variable {T : Config}

/-- The space a territory takes of the purchased space. -/
def TerritoryInfo.counted (t : TerritoryInfo) : ℕ :=
  if t.state = .expired then 0 else t.totalSpace

theorem TerritoryInfo.counted_of_ne {t : TerritoryInfo} (h : t.state ≠ .expired) :
    t.counted = t.totalSpace :=
  if_neg h

/-- The purchased space is that of the territories that are not expired, and an expired
territory has had its frozen period. -/
structure Book.Purchased (b : Book T) : Prop where
  sum : b.purchasedSpace = b.territory.total fun _ t => t.counted
  past : ∀ key t, b.territory.lookup key = some t → t.state = .expired →
    t.deadline + T.frozenDays ≤ b.now

variable {b b' : Book T} {key : T.AccountId × TerrName} {t : TerritoryInfo}

/-! ## Changes -/

/-- Rewriting a territory in place: the purchased space follows the counted space. -/
theorem Book.Purchased.put (h : b.Purchased) (t' : TerritoryInfo)
    (ht : b.territory.lookup key = some t) (hterritory : b'.territory = b.territory.insert key t')
    (hnow : b'.now = b.now) (hsum : b'.purchasedSpace + t.counted = b.purchasedSpace + t'.counted)
    (hpast : t'.state = .expired → t'.deadline + T.frozenDays ≤ b.now) : b'.Purchased where
  sum := by
    have := total_insert_over t' (fun _ t => t.counted) ht
    rw [hterritory]
    have := h.sum
    omega
  past := by
    rw [hterritory, hnow]
    exact forall_insert h.past hpast

/-- Moving a territory to a free place. -/
theorem Book.Purchased.move (h : b.Purchased) (t' : TerritoryInfo)
    {src dst : T.AccountId × TerrName} (ht : b.territory.lookup src = some t)
    (hfree : dst = src ∨ b.territory.lookup dst = none)
    (hterritory : b'.territory = (b.territory.erase src).insert dst t') (hnow : b'.now = b.now)
    (hpurchased : b'.purchasedSpace = b.purchasedSpace) (hcounted : t'.counted = t.counted)
    (hstate : t'.state ≠ .expired) : b'.Purchased where
  sum := by
    have := total_move t' (fun _ t => t.counted) ht hfree
    rw [hterritory, hpurchased]
    have := h.sum
    omega
  past := by
    rw [hterritory, hnow]
    exact forall_insert (fun k v hv => h.past k v (lookup_of_erase hv)) fun h => absurd h hstate

theorem TerritoryInfo.renewed_state_ne (now blocks : ℕ) (h : t.state ≠ .expired) :
    (t.renewed now blocks).state ≠ .expired := by
  show (if _ then TerritoryState.active else t.state) ≠ .expired
  split_ifs
  · decide
  · exact h

/-- **Every change keeps the purchased space exact**, if it prolongs no expired territory. -/
theorem Book.Step.purchased {ch : Change T} (hstep : b.Step ch b') (hfree : ch.NoClobber b)
    (hdays : 0 < T.frozenDays)
    (hprolong : ∀ key t blocks, ch = .prolong key t blocks → t.state ≠ .expired) (h : b.Purchased) :
    b'.Purchased := by
  cases hstep with
  | lease hkey =>
    refine ⟨?_, forall_insert h.past nofun⟩
    rw [total_insert_new _ _ hkey, h.sum]
    rfl
  | @expand _ t space ht hnow =>
    -- an expired territory is past its deadline, where an expansion finds no days left
    have hstate : t.state ≠ .expired := by
      intro hexpired
      have := h.past _ _ ht hexpired
      omega
    refine h.put (t.expanded space) ht rfl rfl ?_ (fun hexpired => absurd hexpired hstate)
    rw [TerritoryInfo.counted_of_ne hstate,
      TerritoryInfo.counted_of_ne (t := t.expanded space) hstate]
    show _ + space + t.totalSpace = _ + (t.totalSpace + space)
    omega
  | @prolong _ t blocks ht hdeadline =>
    have hstate := hprolong _ t blocks rfl
    have hstate' := TerritoryInfo.renewed_state_ne b.now blocks hstate
    refine h.put (t.renewed b.now blocks) ht rfl rfl ?_
      (fun hexpired => absurd hexpired hstate')
    rw [TerritoryInfo.counted_of_ne hstate, TerritoryInfo.counted_of_ne hstate']
    rfl
  | @restart _ t blocks ht hstate hblocks =>
    refine h.put (t.initialised b.now blocks) ht rfl rfl ?_ (fun hexpired => by cases hexpired)
    show _ + t.totalSpace + (if t.state = .expired then 0 else _) = _ + t.totalSpace
    rw [if_pos hstate]
    omega
  | @respace _ t t' ht ht' =>
    refine h.put t' ht rfl rfl ?_ ?_
    · unfold TerritoryInfo.counted
      rw [ht'.state, ht'.totalSpace]
    · intro hexpired
      rw [ht'.deadline]
      exact h.past _ _ ht (ht'.state ▸ hexpired)
  | @consign _ t c ht hstate hnow hnew =>
    refine h.put { t with state := .onConsignment } ht rfl rfl ?_ (fun hexpired => by cases hexpired)
    rw [TerritoryInfo.counted_of_ne (t := t) (by rw [hstate]; decide)]
    rfl
  | relist hc => exact ⟨h.sum, h.past⟩
  | @withdraw _ t ht hstate =>
    refine h.put { t with state := .active } ht rfl rfl ?_ (fun hexpired => by cases hexpired)
    rw [TerritoryInfo.counted_of_ne (t := t) (by rw [hstate]; decide)]
    rfl
  | @deliver _ _ _ t hkey ht hstate =>
    refine h.move { t with state := .active } ht hfree rfl rfl rfl ?_ (fun h => by cases h)
    rw [TerritoryInfo.counted_of_ne (t := t) (by rw [hstate]; decide)]
    rfl
  | move ht hstate =>
    exact h.move _ ht hfree rfl rfl rfl rfl (by rw [hstate]; decide)

/-! ## The block hook -/

theorem Book.Purchased.freeze (h : b.Purchased) {token : TokenId} (hnames : b.Names token key t)
    (hlive : t.Live) : (b.freeze token).Purchased := by
  rw [Book.freeze_of_names hnames]
  split_ifs
  · refine h.put { t with state := .frozen } hnames.2 rfl rfl ?_
      (fun hexpired => by cases hexpired)
    rw [TerritoryInfo.counted_of_ne hlive.ne_expired]
    rfl
  · exact ⟨h.sum, h.past⟩

/-- The space of a frozen territory is part of the purchased space, so it can be released. -/
theorem Book.Purchased.expire (h : b.Purchased) {token : TokenId} (hnames : b.Names token key t)
    (hstate : t.state = .frozen) (hdeadline : t.deadline + T.frozenDays = b.now) :
    (b.expire token).Purchased ∧ b.expire token = b.expired key t := by
  have hcounted : t.counted = t.totalSpace :=
    TerritoryInfo.counted_of_ne (by rw [hstate]; decide)
  have hle : t.totalSpace ≤ b.purchasedSpace := by
    rw [h.sum, ← hcounted]
    exact le_total (fun _ t => t.counted) hnames.2
  rw [Book.expire_of_names hnames, if_pos hle]
  refine ⟨h.put { t with state := .expired } hnames.2 rfl rfl ?_ (fun _ => hdeadline.le), rfl⟩
  rw [hcounted]
  show b.purchasedSpace - t.totalSpace + t.totalSpace = b.purchasedSpace + 0
  omega

theorem Book.Purchased.frozenTask (h : b.Purchased)
    (hfiled : b.Filed (fromBlock b.now) (fromBlock b.now)) : b.frozenTask.Purchased := by
  obtain ⟨hnow, hfiled', h'⟩ := Book.freezeAll_rule (Q := fun _ b => b.Purchased) hfiled h
    (fun c token rest key t _ _ _ hnames _ hlive _ hc => hc.freeze hnames hlive)
  rw [← hnow] at hfiled'
  exact (Book.expireAll_rule (Q := fun _ b => b.Purchased) hfiled' h'
    (fun c token rest key t _ _ _ hnames _ hstate hdeadline hc =>
      (hc.expire hnames hstate hdeadline).1)).2.2

/-! ## Runs -/

/-- The step neither writes over a territory nor renews an expired one by an order. -/
def PurchaseSafe (n : Node T) (a : Action T) : Prop :=
  NoClobber n a ∧ NoRenewalOrderFor .expired n a

/-- The book keeps its accounts of the purchased space in every safe run. -/
theorem Reached.purchased {ok : Node T → Action T → Prop} (hok : ∀ n a, ok n a → PurchaseSafe n a)
    (hdays : 0 < T.frozenDays) {n : Node T} (hn : Reached ok n) : n.world.book.Purchased := by
  refine hn.book_inv (P := fun _ b => b.Purchased) ?_ ?_ ?_ ?_
  · intro ledger agenda price
    exact ⟨rfl, fun _ _ h => by cases h⟩
  · intro b hb
    exact ⟨hb.sum, fun key t ht hexpired => (hb.past key t ht hexpired).trans (Nat.le_succ _)⟩
  · intro n hn _ hphase hb
    have hfiled := hn.filed fun n a h => (hok n a h).1
    rw [hphase] at hfiled
    exact hb.frozenTask hfiled
  · intro n a ch b' _ ha hmakes hstep _ hb
    refine hstep.purchased ((hok n a ha).1.change hmakes) hdays ?_ hb
    rintro key t blocks rfl
    exact (hok n a ha).2.prolong (by decide) (by decide) hmakes

/-- **Purchased space is exact.**  In every run that never writes over a territory and never
executes a renewal order for an expired one, `PurchasedSpace` is the total space of the
territories that are not expired. -/
theorem purchasedSpace_exact (hdays : 0 < T.frozenDays) {n : Node T}
    (hn : Reached PurchaseSafe n) :
    n.world.purchasedSpace =
      n.world.territory.total fun _ t => if t.state = .expired then 0 else t.totalSpace :=
  (hn.purchased (fun _ _ h => h) hdays).sum

/-- The theorem at a chain with two territories. -/
theorem purchasedSpace_exact_two_mints : ∃ n : Node runtime,
    n.world.purchasedSpace = 2 * gByte ∧
      n.world.purchasedSpace =
        n.world.territory.total fun _ t => if t.state = .expired then 0 else t.totalSpace := by
  have hguard : Runs.Guarded Node.step PurchaseSafe (start (10 ^ 20)) twoMints :=
    ⟨⟨trivial, trivial⟩, fun _ _ => ⟨⟨trivial, trivial⟩, fun _ _ => ⟨⟨trivial, trivial⟩,
      fun _ _ => ⟨⟨trivial, trivial⟩, fun _ _ => ⟨⟨trivial, trivial⟩, fun _ _ => trivial⟩⟩⟩⟩⟩
  have hrun : (Runs.exec Node.step (start (10 ^ 20)) twoMints).any
      (fun n => decide (n.world.purchasedSpace = 2 * gByte)) = true := by
    decide +kernel
  obtain ⟨n, hn, hspace⟩ := Runs.Reach.exists_of_exec (start_reached _) hguard hrun
  exact ⟨n, of_decide_eq_true hspace, purchasedSpace_exact (by decide) hn⟩

/-- A territory is leased for thirty days, freezes in block 432001 and expires in block 532801. -/
def expiredLease : List (Cmd runtime) :=
  firstBlock.map .act ++ [.act (.call (.mintTerritory alice 1 nameA 30)), .idle 431999,
    .act .newBlock, .act .frozenTask, .idle 100799, .act .newBlock, .act .frozenTask]

/-- Without the condition: a renewal order brings an expired territory back to life, and no
space is purchased for it. -/
theorem renewal_order_skips_purchase : ∃ n : Node runtime, Reached OwnSteps n ∧
    n.world.purchasedSpace ≠
      n.world.territory.total fun _ t => if t.state = .expired then 0 else t.totalSpace := by
  have hrun : ((start (10 ^ 20)).runs Action.own (expiredLease ++
      [.act (.call (.createOrder alice nameA .renewal 1 1 10)),
        .act (.call (.execOrder alice (orderKey runtime 532801)))])).any
      (fun n => decide (n.world.purchasedSpace ≠ n.world.territory.total fun _ t =>
        if t.state = .expired then 0 else t.totalSpace)) = true := by
    decide +kernel
  obtain ⟨n, hn, hcheck⟩ := Reached.exists_of_own (start_reached _) hrun
  exact ⟨n, hn, of_decide_eq_true hcheck⟩

end StorageHandler
