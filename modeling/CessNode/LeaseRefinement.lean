/-
# The pallet refines the lease book

Every step of the chain is a step of the lease book, or leaves the book alone:

* `Call.Makes`, `Action.Makes` : the change of the book an action stands for, read off the
  storage before the action;
* `step_book` : what a step of the chain does to the book;
* `Reached.book_inv` : the invariant rule for properties of the book, with one case for the
  changes, one for the start of a block and one for the block hook.
-/
import CessNode.LeaseBook
import CessNode.StorageHandlerRuns

open Dispatch

namespace StorageHandler

variable {T : Config} {s s' : World T}

/-! ## The block hook -/

theorem total_freezeTerritory (token : TokenId) : Total (freezeTerritory T token) := by
  intro s
  unfold freezeTerritory
  cases hkey : s.territoryKey.lookup token with
  | none => exact ⟨(), by simp [after, hkey]⟩
  | some key => exact ⟨(), by simp [after, hkey, run_attempt]⟩

theorem total_expireTerritory (token : TokenId) : Total (expireTerritory T token) := by
  intro s
  unfold expireTerritory
  cases hkey : s.territoryKey.lookup token with
  | none => exact ⟨none, by simp [after, hkey]⟩
  | some key => exact ⟨some key, by simp [after, hkey, run_attempt]⟩

/-- A round of the first loop freezes the lease in the book. -/
theorem after_freezeTerritory_book (s : World T) (token : TokenId) :
    (after (freezeTerritory T token) s).book = s.book.freeze token := by
  unfold freezeTerritory
  rw [after_get_bind]
  cases hkey : s.territoryKey.lookup token with
  | none =>
    refine (Book.hook_of_not_names ?_).1.symm
    intro key t h
    cases hkey.symm.trans h.1
  | some key =>
    obtain ⟨acc, name⟩ := key
    rw [after_attempt]
    cases ht : s.territory.lookup (acc, name) with
    | none =>
      rw [after_tryMutateTerritory_none ht]
      refine (Book.hook_of_not_names ?_).1.symm
      intro key t h
      obtain rfl := Option.mem_unique hkey h.1
      cases ht.symm.trans h.2
    | some t =>
      rw [after_tryMutateTerritory_some ht, Book.freeze_of_names (b := s.book) ⟨hkey, ht⟩]
      by_cases hfits : t.deadline + T.frozenDays < 2 ^ 32
      · have hadd : checkedAdd 32 t.deadline T.frozenDays = some (t.deadline + T.frozenDays) :=
          checkedAdd_eq_some.mpr ⟨hfits, rfl⟩
        simp only [hadd, Book.frozen, Book.dropped]
        split_ifs <;> rfl
      · -- the consignment is gone although the territory is not written
        have hadd : checkedAdd 32 t.deadline T.frozenDays = none :=
          checkedAdd_eq_none.mpr hfits
        simp only [hadd, Book.dropped]
        split_ifs <;> rfl

/-- A round of the second loop expires the lease in the book. -/
theorem after_expireTerritory_book (s : World T) (token : TokenId) :
    (after (expireTerritory T token) s).book = s.book.expire token := by
  unfold expireTerritory
  rw [after_get_bind]
  cases hkey : s.territoryKey.lookup token with
  | none =>
    refine (Book.hook_of_not_names ?_).2.symm
    intro key t h
    cases hkey.symm.trans h.1
  | some key =>
    obtain ⟨acc, name⟩ := key
    have hpure : ∀ x : PalletM T Unit,
        after (attempt x >>= fun _ => pure (some (acc, name))) s = after x s := by
      intro x
      rw [after_bind, run_attempt]
      rfl
    rw [hpure]
    cases ht : s.territory.lookup (acc, name) with
    | none =>
      rw [after_tryMutateTerritory_none ht]
      refine (Book.hook_of_not_names ?_).2.symm
      intro key t h
      obtain rfl := Option.mem_unique hkey h.1
      cases ht.symm.trans h.2
    | some t =>
      rw [after_tryMutateTerritory_some ht, Book.expire_of_names (b := s.book) ⟨hkey, ht⟩]
      show _ = if t.totalSpace ≤ s.purchasedSpace then _ else _
      unfold subPurchasedSpace
      by_cases hfits : t.totalSpace ≤ s.purchasedSpace
      · have hsub : checkedSub s.purchasedSpace t.totalSpace =
            some (s.purchasedSpace - t.totalSpace) := checkedSub_eq_some.mpr ⟨hfits, rfl⟩
        rw [if_pos hfits]
        simp only [EStateM.run_bind, EStateM.run_get, hsub]
        rfl
      · have hsub : checkedSub s.purchasedSpace t.totalSpace = none :=
          checkedSub_eq_none.mpr hfits
        rw [if_neg hfits]
        simp only [EStateM.run_bind, EStateM.run_get, hsub]
        rfl

/-- Folds that agree round by round agree. -/
theorem foldl_book {f : World T → TokenId → World T} {g : Book T → TokenId → Book T}
    (h : ∀ s token, (f s token).book = g s.book token) (l : List TokenId) (s : World T) :
    (l.foldl f s).book = l.foldl g s.book := by
  induction l generalizing s with
  | nil => rfl
  | cons token l ih => rw [List.foldl_cons, List.foldl_cons, ih, h]

/-- **The block hook refines the hook of the book.** -/
theorem after_frozenTask_book (s : World T) :
    (after (frozenTask T) s).book = s.book.frozenTask := by
  unfold frozenTask
  rw [after_get_bind, after_bind, run_forM_of_total total_freezeTerritory]
  set s₁ := (T.hashOrder (s.territoryFrozen.iterPrefix s.now)).foldl
    (fun s token => after (freezeTerritory T token) s) s with hs₁
  have hbook₁ : s₁.book = s.book.freezeAll := foldl_book after_freezeTerritory_book _ s
  show (after (get >>= fun s => _) s₁).book = _
  rw [after_get_bind, after_bind]
  obtain ⟨list, hrun⟩ := run_mapM_of_total total_expireTerritory
    (T.hashOrder (s₁.territoryExpired.iterPrefix s₁.now)) s₁
  rw [hrun]
  show (List.foldl (fun s token => after (expireTerritory T token) s) s₁ _).book = _
  rw [foldl_book after_expireTerritory_book]
  unfold Book.frozenTask Book.expireAll
  rw [← hbook₁]
  rfl

/-- Two storages that differ in the book only. -/
structure World.SameOutside (s s' : World T) : Prop where
  ledger : s'.ledger = s.ledger
  agenda : s'.agenda = s.agenda
  events : s'.events = s.events
  counters : s'.territoryFrozenCounter = s.territoryFrozenCounter
  unitPrice : s'.unitPrice = s.unitPrice
  totalIdleSpace : s'.totalIdleSpace = s.totalIdleSpace
  totalServiceSpace : s'.totalServiceSpace = s.totalServiceSpace
  payOrder : s'.payOrder = s.payOrder

instance : Std.Refl (World.SameOutside (T := T)) where
  refl _ := ⟨rfl, rfl, rfl, rfl, rfl, rfl, rfl, rfl⟩

instance : IsTrans (World T) World.SameOutside where
  trans _ _ _ h h' := ⟨h'.ledger.trans h.ledger, h'.agenda.trans h.agenda,
    h'.events.trans h.events, h'.counters.trans h.counters, h'.unitPrice.trans h.unitPrice,
    h'.totalIdleSpace.trans h.totalIdleSpace, h'.totalServiceSpace.trans h.totalServiceSpace,
    h'.payOrder.trans h.payOrder⟩

theorem keeps_tryMutateTerritory {acc : T.AccountId} {name : TerrName} {e : Error}
    {f : TerritoryInfo → PalletM T (Unit × TerritoryInfo)}
    (hf : ∀ t, Keeps World.SameOutside (f t)) :
    Keeps World.SameOutside (tryMutateTerritory T acc name e f) :=
  keeps_tryMutate hf fun _ _ => ⟨rfl, rfl, rfl, rfl, rfl, rfl, rfl, rfl⟩

theorem keeps_freezeTerritory (token : TokenId) :
    Keeps World.SameOutside (freezeTerritory T token) := by
  refine keeps_get_bind fun s => ?_
  split
  · exact keeps_pure _
  · refine keeps_attempt (keeps_tryMutateTerritory fun t => ?_)
    have hfile : Keeps World.SameOutside (do
        let expiredBlock ← okOr (checkedAdd 32 t.deadline T.frozenDays) Error.overflow
        modify fun s : World T =>
          { s with territoryExpired := s.territoryExpired.insert (expiredBlock, t.token) true }
        pure ((), { t with state := .frozen }) : PalletM T (Unit × TerritoryInfo)) :=
      keeps_okOr_bind fun _ =>
        keeps_bind (keeps_modify fun _ => ⟨rfl, rfl, rfl, rfl, rfl, rfl, rfl, rfl⟩) fun _ =>
          keeps_pure _
    split_ifs
    · exact keeps_bind (keeps_modify fun _ => ⟨rfl, rfl, rfl, rfl, rfl, rfl, rfl, rfl⟩) fun _ => hfile
    · exact hfile

theorem keeps_expireTerritory (token : TokenId) :
    Keeps World.SameOutside (expireTerritory T token) := by
  refine keeps_get_bind fun s => ?_
  split
  · exact keeps_pure _
  · refine keeps_bind (keeps_attempt (keeps_tryMutateTerritory fun t => ?_)) fun _ => keeps_pure _
    refine keeps_bind ?_ fun _ => keeps_pure _
    refine keeps_get_bind fun s => keeps_okOr_bind fun _ => ?_
    exact keeps_modify fun _ => ⟨rfl, rfl, rfl, rfl, rfl, rfl, rfl, rfl⟩

/-- The block hook touches nothing but the book. -/
theorem keeps_frozenTask : Keeps World.SameOutside (frozenTask T) := by
  refine keeps_get_bind fun s => ?_
  refine keeps_bind (keeps_forM fun token _ => keeps_freezeTerritory token) fun _ => ?_
  refine keeps_get_bind fun s => ?_
  exact keeps_bind (keeps_mapM fun token _ => keeps_expireTerritory token) fun _ => keeps_pure _

/-! ## Calls -/

/-- The change of the book that a call stands for, where its checks pass. -/
inductive Call.Makes (s : World T) : Call T → Change T → Prop
  | mint {sender : T.AccountId} {gibCount days : ℕ} {name : TerrName} (hdays : 30 ≤ days) :
      Makes s (.mintTerritory sender gibCount name days)
        (.lease (newToken T sender s.now name) (sender, name) (gByte * gibCount)
          (T.oneDay * days))
  | expanding {sender : T.AccountId} {gibCount : ℕ} {name : TerrName} {t : TerritoryInfo}
      (ht : s.territory.lookup (sender, name) = some t) (hstate : t.state = .active) :
      Makes s (.expandingTerritory sender name gibCount)
        (.expand (sender, name) t (gByte * gibCount))
  | renewal {sender : T.AccountId} {days : ℕ} {name : TerrName} {t : TerritoryInfo}
      (ht : s.territory.lookup (sender, name) = some t)
      (hstate : t.state = .active ∨ t.state = .frozen) :
      Makes s (.renewalTerritory sender name days) (.prolong (sender, name) t (T.oneDay * days))
  | reactivate {sender : T.AccountId} {days : ℕ} {name : TerrName} {t : TerritoryInfo}
      (ht : s.territory.lookup (sender, name) = some t) (hstate : t.state = .expired) :
      Makes s (.reactivateTerritory sender name days) (.restart (sender, name) t (T.oneDay * days))
  | consign {sender : T.AccountId} {price : ℕ} {name : TerrName} {t : TerritoryInfo}
      (ht : s.territory.lookup (sender, name) = some t) :
      Makes s (.territoryConsignment sender name price) (.consign (sender, name) t)
  | buy {sender : T.AccountId} {token : TokenId} {rename : TerrName} :
      Makes s (.buyConsignment sender token rename) (.relist token)
  | exec {token : TokenId} {name : TerrName} {c : ConsignmentInfo T.AccountId}
      {buyer : T.AccountId} {key : T.AccountId × TerrName} {t : TerritoryInfo}
      (hc : s.consignment.lookup token = some c) (hbuyer : c.buyers = some buyer)
      (hlocked : c.locked = true) (hkey : s.territoryKey.lookup token = some key)
      (ht : s.territory.lookup key = some t) (hstate : t.state = .onConsignment) :
      Makes s (.execConsignment token name) (.deliver key (buyer, name) t)
  | cancel {sender : T.AccountId} {name : TerrName} {t : TerritoryInfo}
      (ht : s.territory.lookup (sender, name) = some t) :
      Makes s (.cancelConsignment sender name) (.withdraw (sender, name) t)
  | cancelPurchase {sender : T.AccountId} {token : TokenId} :
      Makes s (.cancelPurchaseAction sender token) (.relist token)
  | grants {sender receiver : T.AccountId} {name : TerrName} {t : TerritoryInfo}
      (ht : s.territory.lookup (sender, name) = some t) (hstate : t.state = .active)
      (hfree : t.totalSpace = t.remainingSpace) :
      Makes s (.territoryGrants sender name receiver)
        (.move (sender, name) (receiver, t.token.toTerrName) t)
  | rename {sender : T.AccountId} {oldName newName : TerrName} {t : TerritoryInfo}
      (ht : s.territory.lookup (sender, oldName) = some t) (hstate : t.state = .active)
      (hfree : t.totalSpace = t.remainingSpace) :
      Makes s (.territoryRename sender oldName newName)
        (.move (sender, oldName) (sender, newName) t)
  | orderBuy {sender : T.AccountId} {orderId : OrderId} {order : OrderInfo T.AccountId}
      (horder : s.payOrder.lookup orderId = some order) (hexpired : s.now < order.expired)
      (htype : order.orderType = .buy) :
      Makes s (.execOrder sender orderId)
        (.lease (newToken T sender s.now order.territoryName)
          (order.targetAcc, order.territoryName) (gByte * order.gibCount)
          (T.oneDay * order.days))
  | orderExpansion {sender : T.AccountId} {orderId : OrderId} {order : OrderInfo T.AccountId}
      {t : TerritoryInfo}
      (horder : s.payOrder.lookup orderId = some order) (hexpired : s.now < order.expired)
      (htype : order.orderType = .expansion)
      (ht : s.territory.lookup (order.targetAcc, order.territoryName) = some t) :
      Makes s (.execOrder sender orderId)
        (.expand (order.targetAcc, order.territoryName) t (gByte * order.gibCount))
  | orderRenewal {sender : T.AccountId} {orderId : OrderId} {order : OrderInfo T.AccountId}
      {t : TerritoryInfo}
      (horder : s.payOrder.lookup orderId = some order) (hexpired : s.now < order.expired)
      (htype : order.orderType = .renewal)
      (ht : s.territory.lookup (order.targetAcc, order.territoryName) = some t) :
      Makes s (.execOrder sender orderId)
        (.prolong (order.targetAcc, order.territoryName) t (T.oneDay * order.days))

/-- **Calls refine the book.**  A successful call leaves the book alone or makes the change it
stands for. -/
theorem Call.code_book {c : Call T} {u : Unit} (h : (c.code T).run s = .ok u s') :
    s'.book = s.book ∨ ∃ ch, c.Makes s ch ∧ s.book.Step ch s'.book := by
  cases c.code_ran h with
  | mintTerritory hkey htoken hdays hblocks =>
    exact .inr ⟨_, .mint hdays, .lease (AList.lookup_eq_none.mpr hkey)
      (AList.lookup_eq_none.mpr htoken) hblocks⟩
  | expandingTerritory ht hstate hnow => exact .inr ⟨_, .expanding ht hstate, .expand ht hnow⟩
  | renewalTerritory ht hstate hdeadline =>
    exact .inr ⟨_, .renewal ht hstate, .prolong ht hdeadline⟩
  | reactivateTerritory ht hstate hblocks =>
    exact .inr ⟨_, .reactivate ht hstate, .restart ht hstate hblocks⟩
  | territoryConsignment ht hstate _ hnow hnew =>
    exact .inr ⟨_, .consign ht, .consign ht hstate hnow (AList.lookup_eq_none.mpr hnew)⟩
  | buyConsignment hc => exact .inr ⟨_, .buy, .relist hc⟩
  | execConsignment hc hbuyer hlocked hkey ht hstate =>
    exact .inr ⟨_, .exec hc hbuyer hlocked hkey ht hstate, .deliver hkey ht hstate⟩
  | cancelConsignment ht hstate => exact .inr ⟨_, .cancel ht, .withdraw ht hstate⟩
  | cancelPurchaseAction hc => exact .inr ⟨_, .cancelPurchase, .relist hc⟩
  | territoryGrants ht hstate hfree hkey =>
    exact .inr ⟨_, .grants ht hstate hfree, .move ht hstate hkey fun _ => rfl⟩
  | territoryRename ht hstate hfree hkey =>
    refine .inr ⟨_, .rename ht hstate hfree, .move ht hstate hkey ?_⟩
    rintro rfl
    rfl
  | createOrder => exact .inl rfl
  | buyOrder horder hexpired htype hkey htoken hblocks =>
    exact .inr ⟨_, .orderBuy horder hexpired htype, .lease (AList.lookup_eq_none.mpr hkey)
      (AList.lookup_eq_none.mpr htoken) hblocks⟩
  | expansionOrder horder hexpired htype ht hnow =>
    exact .inr ⟨_, .orderExpansion horder hexpired htype ht, .expand ht hnow⟩
  | renewalOrder horder hexpired htype ht hdeadline =>
    exact .inr ⟨_, .orderRenewal horder hexpired htype ht, .prolong ht hdeadline⟩

/-- The territory an operation of another pallet is about, if it is about one. -/
def HandleOp.key : HandleOp T → Option (T.AccountId × TerrName)
  | .addTerritoryUsedSpace acc name _ => some (acc, name)
  | .subTerritoryUsedSpace acc name _ => some (acc, name)
  | .lockUserSpace acc name _ => some (acc, name)
  | .unlockUserSpace acc name _ => some (acc, name)
  | .unlockAndUsedUserSpace acc name _ => some (acc, name)
  | _ => none

/-- A successful operation of another pallet leaves the book alone or moves space between the
accounts of one territory. -/
theorem HandleOp.code_book {op : HandleOp T} {u : Unit} (h : (op.code T).run s = .ok u s') :
    s'.book = s.book ∨
      ∃ key t t', op.key = some key ∧ s.book.Step (.respace key t t') s'.book := by
  cases op with
  | addTerritoryUsedSpace =>
    obtain ⟨t, ht, -, hsize, -, rfl⟩ := run_addTerritoryUsedSpace_ok.mp h
    exact .inr ⟨_, _, _, rfl, .respace ht ⟨rfl, rfl, rfl, rfl, by dsimp only; omega⟩⟩
  | subTerritoryUsedSpace =>
    obtain ⟨t, ht, hsize, -, rfl⟩ := run_subTerritoryUsedSpace_ok.mp h
    exact .inr ⟨_, _, _, rfl, .respace ht ⟨rfl, rfl, rfl, rfl, by dsimp only; omega⟩⟩
  | lockUserSpace =>
    obtain ⟨t, ht, -, hsize, -, rfl⟩ := run_lockUserSpace_ok.mp h
    exact .inr ⟨_, _, _, rfl, .respace ht ⟨rfl, rfl, rfl, rfl, by dsimp only; omega⟩⟩
  | unlockUserSpace =>
    obtain ⟨t, ht, hsize, -, rfl⟩ := run_unlockUserSpace_ok.mp h
    exact .inr ⟨_, _, _, rfl, .respace ht ⟨rfl, rfl, rfl, rfl, by dsimp only; omega⟩⟩
  | unlockAndUsedUserSpace =>
    obtain ⟨t, ht, hsize, -, rfl⟩ := run_unlockAndUsedUserSpace_ok.mp h
    exact .inr ⟨_, _, _, rfl, .respace ht ⟨rfl, rfl, rfl, rfl, by dsimp only; omega⟩⟩
  | addTotalIdleSpace =>
    obtain ⟨-, rfl⟩ := run_addTotalIdleSpace_ok.mp h
    exact .inl rfl
  | subTotalIdleSpace =>
    obtain ⟨-, rfl⟩ := run_subTotalIdleSpace_ok.mp h
    exact .inl rfl
  | addTotalServiceSpace =>
    obtain ⟨-, rfl⟩ := run_addTotalServiceSpace_ok.mp h
    exact .inl rfl
  | subTotalServiceSpace =>
    obtain ⟨-, rfl⟩ := run_subTotalServiceSpace_ok.mp h
    exact .inl rfl

/-! ## Steps of the chain -/

/-- The change of the book that an action other than the hook stands for. -/
def Action.Makes (s : World T) : Action T → Change T → Prop
  | .call c, ch => c.Makes s ch
  | .serve name, ch => ∃ block task, T.pending s.agenda name = some (block, task) ∧
      (Call.execConsignment task.token task.territoryName).Makes s ch
  | .handle op, ch => ∃ key t t', op.key = some key ∧ ch = .respace key t t'
  | _, _ => False

/-- **Steps refine the book.**  A step of the chain starts a block, runs the hook, or makes
the change its action stands for, or leaves the book alone. -/
theorem step_book {n n' : Node T} {a : Action T} (h : n.step a = some n') :
    (a = .newBlock ∧ n.phase = .executing ∧ n'.phase = .initializing ∧
      n.world.now + 1 < 2 ^ 32 ∧ n'.world.book = { n.world.book with now := n.world.now + 1 }) ∨
    (a = .frozenTask ∧ n.phase = .initializing ∧ n'.phase = .executing ∧
      n'.world.book = n.world.book.frozenTask) ∨
    (n'.phase = n.phase ∧ (n'.world.book = n.world.book ∨
      ∃ ch, a.Makes n.world ch ∧ n.world.book.Step ch n'.world.book ∧
        (n.phase = .initializing →
          (∃ src dst t, ch = .deliver src dst t) ∨ ∃ key t t', ch = .respace key t t'))) := by
  cases a with
  | newBlock =>
    obtain ⟨hphase, hnow, rfl⟩ := step_newBlock h
    exact .inl ⟨rfl, hphase, rfl, hnow, rfl⟩
  | frozenTask =>
    obtain ⟨hphase, rfl⟩ := step_frozenTask h
    exact .inr (.inl ⟨rfl, hphase, rfl, after_frozenTask_book n.world⟩)
  | serve name =>
    obtain ⟨block, task, hpending, -, -, hphase, hrun | hworld⟩ := step_serve h
    · have hran := Call.code_ran (.execConsignment task.token task.territoryName) hrun
      generalize n'.world = s' at hran ⊢
      cases hran with
      | execConsignment hc hbuyer hlocked hkey ht hstate =>
        exact .inr (.inr ⟨hphase, .inr ⟨.deliver _ _ _,
          ⟨block, task, hpending, .exec hc hbuyer hlocked hkey ht hstate⟩,
          .deliver hkey ht hstate, fun _ => .inl ⟨_, _, _, rfl⟩⟩⟩)
    · refine .inr (.inr ⟨hphase, .inl ?_⟩)
      rw [hworld]
      rfl
  | call c =>
    obtain ⟨hexecuting, hphase, hrun | hworld⟩ := step_call h
    · refine .inr (.inr ⟨hphase, ?_⟩)
      rcases c.code_book hrun with hbook | ⟨ch, hmakes, hstep⟩
      · exact .inl hbook
      · refine .inr ⟨ch, hmakes, hstep, ?_⟩
        intro hinit
        rw [hexecuting] at hinit
        cases hinit
    · exact .inr (.inr ⟨hphase, .inl (by rw [hworld])⟩)
  | handle op =>
    obtain ⟨hphase, hrun | hworld⟩ := step_handle h
    · refine .inr (.inr ⟨hphase, ?_⟩)
      rcases op.code_book hrun with hbook | ⟨key, t, t', hkey, hstep⟩
      · exact .inl hbook
      · exact .inr ⟨_, ⟨key, t, t', hkey, rfl⟩, hstep, fun _ => .inr ⟨_, _, _, rfl⟩⟩
    · exact .inr (.inr ⟨hphase, .inl (by rw [hworld])⟩)
  | external =>
    obtain rfl := step_external h
    exact .inr (.inr ⟨rfl, .inl rfl⟩)

/-- **The invariant rule for the book.**  A property of the phase and the book holds in every
reached node if it holds of the empty book and is kept by every change an allowed action
stands for, by the start of a block and by the block hook. -/
theorem Reached.book_inv {ok : Node T → Action T → Prop} {P : Phase → Book T → Prop}
    (hstart : ∀ ledger agenda price, P .executing (genesis T ledger agenda price).book)
    (hblock : ∀ b, P .executing b → P .initializing { b with now := b.now + 1 })
    (hhook : ∀ n, Reached ok n → ok n .frozenTask → n.phase = .initializing →
      P .initializing n.world.book → P .executing n.world.book.frozenTask)
    (hchange : ∀ n a ch b', Reached ok n → ok n a → a.Makes n.world ch →
      n.world.book.Step ch b' →
      (n.phase = .initializing →
        (∃ src dst t, ch = .deliver src dst t) ∨ ∃ key t t', ch = .respace key t t') →
      P n.phase n.world.book → P n.phase b') {n : Node T} (hn : Reached ok n) :
    P n.phase n.world.book := by
  refine Runs.Reach.inv (P := fun n => P n.phase n.world.book) ?_ ?_ hn
  · rintro _ ⟨ledger, agenda, price, rfl, -, -⟩
    exact hstart ledger agenda price
  · intro n a n' hreach hP hok hstep
    rcases step_book hstep with ⟨rfl, hphase, hphase', -, hbook⟩ |
      ⟨rfl, hphase, hphase', hbook⟩ | ⟨hphase, hbook | ⟨ch, hmakes, hstep', hinit⟩⟩
    · rw [hphase', hbook]
      rw [hphase] at hP
      exact hblock _ hP
    · rw [hphase', hbook]
      refine hhook n hreach hok hphase ?_
      rwa [hphase] at hP
    · rw [hphase, hbook]
      exact hP
    · rw [hphase]
      exact hchange n a ch _ hreach hok hmakes hstep' hinit hP

end StorageHandler
