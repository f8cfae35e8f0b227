/-
# The accounts of the pallets

Nobody has a key for the account of a pallet.  So whatever users do, such an account is only ever
paid: it loses nothing but by the code of its own pallet.  This file has what the modules about
money share:

* `Config.Unspent x l l'` : from the balances `l` to `l'` the account `x` has lost nothing;
* `step_bank_unspent` : no step of storage-handler or of the file bank takes anything from the
  account of a pallet, as long as no such account is the buyer in a consignment (`World.Keyed`,
  `Reached.keyed`);
* `after_clearPunish_of`, `after_servicePunish_of`, `after_clearChallenge_of` : the audit takes money
  by the punishments and the exits it calls for only.
-/
import CessNode.ChainSteps

open Dispatch StorageMap

namespace Chain

variable {T : Config}
variable {acc miner : T.AccountId} {w : World T}

/-! ## Balances -/

/-- The account has at least as much as before, and as much in reserve. -/
def Config.Unspent (x : T.AccountId) (l l' : T.Ledger) : Prop :=
  T.free l x ≤ T.free l' x ∧ T.reserved l' x = T.reserved l x

section Unspent

variable {x : T.AccountId} {l l' l'' : T.Ledger}

theorem Config.Unspent.refl (x : T.AccountId) (l : T.Ledger) : T.Unspent x l l := ⟨le_rfl, rfl⟩

theorem Config.Unspent.trans (h : T.Unspent x l l') (h' : T.Unspent x l' l'') : T.Unspent x l l'' :=
  ⟨h.1.trans h'.1, h'.2.trans h.2⟩

theorem ExactCurrency.unspent_transfer (hlaw : ExactCurrency T) {src dst : T.AccountId} {v : ℕ}
    (h : T.transfer l src dst v = some l') (hx : x ≠ src) : T.Unspent x l l' := by
  have hfree := hlaw.transfer_free h x
  rw [if_neg hx] at hfree
  exact ⟨by omega, hlaw.transfer_reserved h x⟩

theorem ExactCurrency.unspent_reserve (hlaw : ExactCurrency T) {v : ℕ}
    (h : T.reserve l acc v = some l') (hx : x ≠ acc) : T.Unspent x l l' := by
  have hfree := hlaw.reserve_free h x
  have hreserved := hlaw.reserve_reserved h x
  rw [if_neg hx] at hfree hreserved
  exact ⟨hfree.ge, hreserved⟩

theorem ExactCurrency.unspent_unreserve (hlaw : ExactCurrency T) (v : ℕ) (hx : x ≠ acc) :
    T.Unspent x l (T.unreserve l acc v) := by
  have hfree := hlaw.unreserve_free l acc v x
  have hreserved := hlaw.unreserve_reserved l acc v x
  rw [if_neg hx] at hfree hreserved
  exact ⟨hfree.ge, hreserved⟩

theorem ExactCurrency.unspent_resolve (hlaw : ExactCurrency T) (acc : T.AccountId) (v : ℕ) :
    T.Unspent x l (T.resolveCreating l acc v) :=
  ⟨by rw [hlaw.resolve_free]; exact Nat.le_add_right _ _, hlaw.resolve_reserved l acc v x⟩

end Unspent

/-- An account with a key is none of a pallet. -/
theorem Signed.ne {signer : Option T.AccountId} {x : T.AccountId} (h : Signed signer)
    (hacc : signer = some acc) (hx : x ∈ T.palletAccounts) : x ≠ acc := by
  rintro rfl
  exact h x hacc hx

/-! ## Steps of storage-handler and of the file bank -/

/-- No account of a pallet is the buyer in a consignment. -/
def KeyedBuyers (s : StorageHandler.World T.toBank.toConfig) : Prop :=
  ∀ token c buyer, s.consignment.lookup token = some c → c.buyers = some buyer →
    buyer ∉ T.palletAccounts

/-- The same for all storages. -/
def World.Keyed (w : World T) : Prop := KeyedBuyers w.bank.storage

section Storage

variable {s s' : StorageHandler.World T.toBank.toConfig}

theorem KeyedBuyers.insert (h : KeyedBuyers s) {token : TokenId}
    {c : StorageHandler.ConsignmentInfo T.AccountId}
    (hc : ∀ buyer, c.buyers = some buyer → buyer ∉ T.palletAccounts)
    (hs' : s'.consignment = s.consignment.insert token c) : KeyedBuyers s' := by
  intro token' c' buyer hc' hbuyer
  rw [hs'] at hc'
  exact forall_insert (fun token c hc buyer => h token c buyer hc) hc token' c' hc' buyer hbuyer

theorem KeyedBuyers.of_lookup (h : KeyedBuyers s)
    (hs' : ∀ token c, s'.consignment.lookup token = some c → s.consignment.lookup token = some c) :
    KeyedBuyers s' :=
  fun token c buyer hc => h token c buyer (hs' token c hc)

theorem KeyedBuyers.erase (h : KeyedBuyers s) {token : TokenId}
    (hs' : s'.consignment = s.consignment.erase token) : KeyedBuyers s' := by
  refine h.of_lookup fun token' c hc => ?_
  rw [hs'] at hc
  exact lookup_of_erase hc

/-- **A call of storage-handler takes nothing from the account of a pallet.** -/
theorem storageCall_unspent (hlaw : ExactCurrency T)
    {call : StorageHandler.Call T.toBank.toConfig} {u : Unit} (hsigned : Signed call.signer)
    (hkeyed : KeyedBuyers s) (h : (call.code _).run s = .ok u s') :
    (∀ x ∈ T.palletAccounts, T.Unspent x s.ledger s'.ledger) ∧ KeyedBuyers s' := by
  cases call.code_ran h with
  | mintTerritory _ _ _ _ _ htransfer | expandingTerritory _ _ _ _ htransfer
  | renewalTerritory _ _ _ _ htransfer | reactivateTerritory _ _ _ _ htransfer
  | buyOrder _ _ _ _ _ _ htransfer | expansionOrder _ _ _ _ _ _ _ htransfer
  | renewalOrder _ _ _ _ _ _ _ htransfer =>
    exact ⟨fun x hx => hlaw.unspent_transfer htransfer (hsigned.ne rfl hx), hkeyed⟩
  | territoryConsignment =>
    exact ⟨fun x _ => .refl x _, hkeyed.insert (fun _ hbuyer => by cases hbuyer) rfl⟩
  | @buyConsignment sender _ _ _ _ _ _ _ _ hreserve _ =>
    refine ⟨fun x hx => hlaw.unspent_reserve hreserve (hsigned.ne rfl hx), hkeyed.insert ?_ rfl⟩
    intro buyer hbuyer
    obtain rfl := Option.some.inj hbuyer
    exact hsigned sender rfl
  | @execConsignment token _ c buyer _ _ _ hc hbuyer _ _ _ _ htransfer =>
    refine ⟨fun x hx => ?_, hkeyed.erase rfl⟩
    have hne : x ≠ buyer := by
      rintro rfl
      exact hkeyed token c x hc hbuyer hx
    exact (hlaw.unspent_unreserve c.price hne).trans (hlaw.unspent_transfer htransfer hne)
  | cancelConsignment => exact ⟨fun x _ => .refl x _, hkeyed.erase rfl⟩
  | @cancelPurchaseAction _ _ c =>
    exact ⟨fun x hx => hlaw.unspent_unreserve c.price (hsigned.ne rfl hx),
      hkeyed.insert (fun _ hbuyer => by cases hbuyer) rfl⟩
  | territoryGrants | territoryRename | createOrder => exact ⟨fun x _ => .refl x _, hkeyed⟩

end Storage

section Steps

variable {n n' : Node T} {a : Action T}

/-- **No step of storage-handler or of the file bank takes anything from the account of a pallet.** -/
theorem step_bank_unspent (hlaw : ExactCurrency T) (hkeyed : n.world.Keyed)
    (h : n.step a = some n') {b : FileBank.Action T.toBank} (hb : a.bank n = some b) :
    (∀ x ∈ T.palletAccounts, T.Unspent x n.world.ledger n'.world.ledger) ∧ n'.world.Keyed := by
  have hsame : n'.world.ledger = n.world.ledger →
      (∀ token c, n'.world.bank.storage.consignment.lookup token = some c →
        n.world.bank.storage.consignment.lookup token = some c) →
      (∀ x ∈ T.palletAccounts, T.Unspent x n.world.ledger n'.world.ledger) ∧ n'.world.Keyed := by
    intro hledger hlookup
    refine ⟨fun x _ => ?_, KeyedBuyers.of_lookup hkeyed hlookup⟩
    rw [hledger]
    exact .refl x _
  obtain ⟨hstep, -⟩ := step_bank h hb
  by_cases hstorage : ∃ b', b = .storage b'
  · obtain ⟨b', rfl⟩ := hstorage
    cases a with
    | newBlock =>
      obtain ⟨-, -, rfl⟩ := step_newBlock h
      exact hsame rfl fun _ _ hc => hc
    | serve name =>
      cases hb
      obtain ⟨-, hserve, -⟩ := FileBank.step_storage hstep
      obtain ⟨block, task, -, -, -, -, hrun | hworld⟩ := StorageHandler.step_serve hserve
      · have hsigned : Signed (T := T) (StorageHandler.Call.execConsignment (T := T.toBank.toConfig)
            task.token task.territoryName).signer := fun _ hacc => by cases hacc
        exact storageCall_unspent hlaw hsigned
          (s := { n.world.bank.storage with
            agenda := T.dispatched n.world.bank.storage.agenda name }) hkeyed hrun
      · replace hworld : n'.world.bank.storage = _ := hworld
        refine hsame (congrArg (·.ledger) hworld) fun token c hc => ?_
        rw [hworld] at hc
        exact hc
    | hook =>
      obtain ⟨phase, calls, world⟩ := n
      cases phase <;> cases hb
    | call c =>
      cases c with
      | storage c =>
        simp only [Node.step, Option.ite_none_right_eq_some, Option.some.injEq] at h
        obtain ⟨⟨-, -, hsigned⟩, rfl⟩ := h
        exact after_transactional_inv (P := fun s : StorageHandler.World T.toBank.toConfig =>
            (∀ x ∈ T.palletAccounts, T.Unspent x n.world.ledger s.ledger) ∧ KeyedBuyers s)
          ⟨fun x _ => .refl x _, hkeyed⟩ fun u s' hrun =>
            storageCall_unspent hlaw hsigned hkeyed hrun
      | _ => cases hb
    | _ => cases hb
  · obtain ⟨hledger, hlookup⟩ := FileBank.step_unpaid hstep fun b' hb' => hstorage ⟨b', hb'⟩
    exact hsame hledger hlookup

/-- In every reached state, no account of a pallet is the buyer in a consignment. -/
theorem Reached.keyed (hlaw : ExactCurrency T) {ok : Node T → Action T → Prop} (hn : Reached ok n) :
    n.world.Keyed := by
  refine Runs.Reach.inv (P := fun n => n.world.Keyed) ?_ ?_ hn
  · intro n hstart token c buyer hc
    obtain ⟨⟨⟨ledger, agenda, price, hstorage, -, -⟩, -⟩, -⟩ := hstart
    have hempty : n.world.bank.storage.consignment = ∅ :=
      congrArg (fun n => n.world.consignment) hstorage
    rw [hempty] at hc
    cases hc
  · intro n a n' _ hkeyed _ hstep
    cases hb : a.bank n with
    | some b => exact (step_bank_unspent hlaw hkeyed hstep hb).2
    | none =>
      obtain ⟨miner, outside, ledger, agenda, totalIdleSpace, hworld⟩ := (step_aside hstep hb).bank
      intro token c buyer hc
      rw [hworld] at hc
      exact hkeyed token c buyer hc

end Steps

/-! ## Punishments and exits -/

section Punishments

variable {R : World T → World T → Prop}

/-- Less idle space, or an error. -/
theorem keeps_subTotalIdleSpace [Std.Refl R] (h : ∀ w totalIdleSpace, R w { w with
      bank := { w.bank with storage := { w.bank.storage with totalIdleSpace := totalIdleSpace } } })
    (space : ℕ) :
    Keeps R (liftStorage T (StorageHandler.subTotalIdleSpace T.toBank.toConfig space)) := by
  intro w
  unfold after
  rw [Sminer.run_subTotalIdleSpace]
  split_ifs
  · exact h w _
  · exact refl w

/-- A punishment for a missed challenge is one of the collateral. -/
theorem after_clearPunish_of [Std.Refl R]
    (h : ∀ amount, R w (after (Sminer.depositPunish T miner amount) w))
    (idleSpace serviceSpace count : ℕ) :
    R w (after (Sminer.clearPunish T miner idleSpace serviceSpace count) w) := by
  unfold Sminer.clearPunish Sminer.orElse
  dsimp only
  cases Sminer.calculateLimitBySpace (Sminer.calculatePower idleSpace serviceSpace) with
  | none => exact refl w
  | some limit =>
    rw [after_okOr_some_bind, after_get_bind]
    cases w.miner.rewardMap.lookup miner with
    | none => exact refl w
    | some reward => exact h _

/-- So is one for a failed proof. -/
theorem after_servicePunish_of [Std.Refl R]
    (h : ∀ amount, R w (after (Sminer.depositPunish T miner amount) w))
    (idleSpace serviceSpace : ℕ) :
    R w (after (Sminer.servicePunish T miner idleSpace serviceSpace) w) := by
  unfold Sminer.servicePunish Sminer.orElse
  dsimp only
  cases Sminer.calculateLimitBySpace (Sminer.calculatePower idleSpace serviceSpace) with
  | none => exact refl w
  | some limit =>
    exact h _

/-- A change of a record, for relations that do not look at the records. -/
theorem after_mutateMiner_of [Std.Refl R] [IsTrans (World T) R] {e : Sminer.Error}
    {f : Sminer.MinerInfo T.AccountId → ChainM T (Sminer.MinerInfo T.AccountId)}
    (hwrite : ∀ w minerItems, R w (w.setMiner { w.miner with minerItems := minerItems }))
    (h : ∀ info, w.miner.minerItems.lookup acc = some info → R w (after (f info) w)) :
    R w (after (mutateMiner T acc e f) w) := by
  rcases Sminer.after_mutateMiner f w with hsame | ⟨info, hinfo, hafter⟩
  · rw [hsame]
    exact refl w
  · rw [hafter]
    have hfirst := h info hinfo
    unfold after at hfirst
    cases hrun : (f info).run w with
    | ok info' w₁ =>
      rw [hrun] at hfirst
      exact IsTrans.trans _ _ _ hfirst (hwrite w₁ _)
    | error e w₁ =>
      rw [hrun] at hfirst
      exact hfirst

end Punishments

/-! ## The audit -/

/-- **A round over the challenges that are due** does nothing but punish and throw out: what holds
before the exit of a miner, `P`, and what holds after it, `Q`. -/
theorem after_clearChallenge_of {P Q : World T → Prop}
    (hP : ∀ w audit, P w → P { w with audit := audit })
    (hQ : ∀ w audit, Q w → Q { w with audit := audit }) (hPQ : ∀ w, P w → Q w)
    (hpunish : ∀ count ∈ Audit.missed w miner, count > 1 → ∀ idleSpace serviceSpace,
      P (after (Sminer.clearPunish T miner idleSpace serviceSpace count) w))
    (hforce : ∀ count ∈ Audit.missed w miner, count ≥ 30 → ∀ w₁, P w₁ →
      Q (after (Sminer.forceMinerExit T miner) w₁)) (hw : P w) :
    Q (after (Audit.clearChallenge T miner) w) := by
  unfold Audit.clearChallenge
  rw [after_get_bind]
  cases hinfo : w.audit.challengeSnapShot.lookup miner with
  | none => exact hQ _ _ (hPQ _ hw)
  | some info =>
    dsimp only
    split_ifs with hnone
    · have hmissed : Audit.missed w miner =
          some ((checkedAdd 8 ((w.audit.countedClear.lookup miner).getD 0) 1).getD 3) := by
        unfold Audit.missed
        rw [hinfo]
        exact if_pos hnone
      rw [after_bind_of_total (Audit.total_punishMissed _ _ _)]
      refine hQ _ _ ?_
      generalize (checkedAdd 8 ((w.audit.countedClear.lookup miner).getD 0) 1).getD 3 = count
        at hmissed
      -- the count is stored, unless the miner is thrown out
      have hcount : ∀ w₁, P w₁ → Q (after (Audit.countMissed T miner count) w₁) := by
        intro w₁ hw₁
        unfold Audit.countMissed
        split_ifs with hmany
        · rw [after_bind, run_attempt]
          exact hQ _ _ (hforce count hmissed hmany w₁ hw₁)
        · exact hPQ _ (hP _ _ hw₁)
      unfold Audit.punishMissed
      split_ifs with hmore
      · rw [after_bind, run_attempt]
        exact hcount _ (hpunish count hmissed hmore info.minerSnapshot.idleSpace
          info.minerSnapshot.serviceSpace)
      · exact hcount w hw
    · exact hQ _ _ (hPQ _ hw)

end Chain
