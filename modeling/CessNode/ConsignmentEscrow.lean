/-
# The escrow of the territory market

`buy_consignment` reserves the price from the buyer and locks the consignment;
`exec_consignment` and `cancel_purchase_action` release it.  `frozen_task` removes the
consignment of a lease that ends, locked or not, and releases nothing.  In runs where no
lease ends with its consignment locked, the pallet holds in reserve exactly the prices of
the locked consignments, account by account.
-/
import CessNode.ConsignmentState

open Dispatch StorageMap

namespace StorageHandler

variable {T : Config}

/-! ## Reserves and consignments -/

/-- The price that a consignment holds in reserve from an account. -/
def ConsignmentInfo.owedBy (acc : T.AccountId) (c : ConsignmentInfo T.AccountId) : ℕ :=
  if c.locked = true ∧ c.buyers = some acc then c.price else 0

/-- The reserves are those of the locked consignments, and a consignment is locked just when
it has a buyer. -/
structure Escrowed (reserved : T.AccountId → ℕ)
    (m : StorageMap TokenId (ConsignmentInfo T.AccountId)) : Prop where
  sum : ∀ acc, reserved acc = m.total fun _ c => c.owedBy acc
  locked : ∀ token c, m.lookup token = some c → (c.locked = true ↔ c.buyers ≠ none)

variable {reserved reserved' : T.AccountId → ℕ}
  {m : StorageMap TokenId (ConsignmentInfo T.AccountId)} {token : TokenId}
  {c : ConsignmentInfo T.AccountId} {acc : T.AccountId}

theorem ConsignmentInfo.owedBy_of_unlocked (h : c.locked = false) (acc : T.AccountId) :
    c.owedBy acc = 0 :=
  if_neg fun hlocked => by rw [h] at hlocked; exact absurd hlocked.1 (by decide)

theorem ConsignmentInfo.owedBy_of_buyer (hlocked : c.locked = true) (hbuyer : c.buyers = some acc)
    (a : T.AccountId) : c.owedBy a = if a = acc then c.price else 0 := by
  unfold ConsignmentInfo.owedBy
  rw [hbuyer, hlocked]
  by_cases ha : a = acc
  · rw [if_pos ha, ha, if_pos ⟨rfl, rfl⟩]
  · rw [if_neg ha, if_neg]
    rintro ⟨-, heq⟩
    exact ha (Option.some.inj heq).symm

/-- Equal reserves. -/
theorem Escrowed.congr (h : Escrowed reserved m) (hres : ∀ a, reserved' a = reserved a) :
    Escrowed reserved' m where
  sum := fun acc => (hres acc).trans (h.sum acc)
  locked := h.locked

/-- Writing a consignment over what was there, with the reserves in step. -/
theorem Escrowed.insert (h : Escrowed reserved m) (c : ConsignmentInfo T.AccountId)
    (hlocked : c.locked = true ↔ c.buyers ≠ none)
    (hres : ∀ a, reserved' a + ((m.lookup token).elim 0 fun c₀ => c₀.owedBy a) =
      reserved a + c.owedBy a) : Escrowed reserved' (m.insert token c) where
  sum := by
    intro a
    have ha := hres a
    have hsum := h.sum a
    cases hc₀ : m.lookup token with
    | none =>
      rw [hc₀] at ha
      rw [total_insert_new c _ hc₀, ← hsum]
      exact ha
    | some c₀ =>
      rw [hc₀] at ha
      have htotal := total_insert_over c (fun _ c => c.owedBy a) hc₀
      simp only [Option.elim] at ha
      omega
  locked := forall_insert h.locked hlocked

/-- Removing a consignment, with the reserves in step. -/
theorem Escrowed.erase (h : Escrowed reserved m) (hc : m.lookup token = some c)
    (hres : ∀ a, reserved' a + c.owedBy a = reserved a) :
    Escrowed reserved' (m.erase token) where
  sum := by
    intro a
    have ha := hres a
    have hsum := h.sum a
    have htotal := total_erase (fun _ c => c.owedBy a) hc
    omega
  locked token' c' hc' := h.locked token' c' (lookup_of_erase hc')

/-- What a locked consignment holds is in reserve. -/
theorem Escrowed.price_le (h : Escrowed reserved m) (hc : m.lookup token = some c)
    (hlocked : c.locked = true) (hbuyer : c.buyers = some acc) : c.price ≤ reserved acc := by
  have hle := le_total (fun _ c => c.owedBy acc) hc
  simp only [ConsignmentInfo.owedBy_of_buyer hlocked hbuyer] at hle
  rw [h.sum acc]
  exact hle

/-! ## Calls -/

/-- The escrow of a storage. -/
def World.Escrowed (s : World T) : Prop :=
  StorageHandler.Escrowed (T.reserved s.ledger) s.consignment

/-- **Every call keeps the escrow.** -/
theorem Call.code_escrowed (hlaw : LawfulCurrency T) (call : Call T) {s s' : World T} {u : Unit}
    (h : (call.code T).run s = .ok u s') (he : s.Escrowed) : s'.Escrowed := by
  cases call.code_ran h with
  | mintTerritory _ _ _ _ _ htransfer | expandingTerritory _ _ _ _ htransfer
  | renewalTerritory _ _ _ _ htransfer | reactivateTerritory _ _ _ _ htransfer
  | buyOrder _ _ _ _ _ _ htransfer | expansionOrder _ _ _ _ _ _ _ htransfer
  | renewalOrder _ _ _ _ _ _ _ htransfer => exact he.congr (hlaw.transfer htransfer)
  | territoryConsignment _ _ _ _ hnew =>
    refine Escrowed.insert he _ (by simp) ?_
    intro a
    rw [AList.lookup_eq_none.mpr hnew]
    rfl
  | buyConsignment hc hlocked _ hreserve _ =>
    refine Escrowed.insert he _ (by simp) ?_
    intro a
    rw [hc, hlaw.reserve hreserve a]
    simp only [Option.elim, ConsignmentInfo.owedBy_of_unlocked hlocked]
    rw [ConsignmentInfo.owedBy_of_buyer rfl rfl]
    rfl
  | @execConsignment _ _ c buyer _ _ _ hc hbuyer hlocked _ _ _ htransfer =>
    refine Escrowed.erase he hc ?_
    intro a
    rw [hlaw.transfer htransfer a, ConsignmentInfo.owedBy_of_buyer hlocked hbuyer]
    exact hlaw.unreserve s.ledger buyer c.price (Escrowed.price_le he hc hlocked hbuyer) a
  | cancelConsignment _ _ hc hlocked =>
    refine Escrowed.erase he hc ?_
    intro a
    rw [ConsignmentInfo.owedBy_of_unlocked hlocked]
    rfl
  | @cancelPurchaseAction sender token c _ hc hbuyer _ =>
    have hlocked : c.locked = true := (he.locked token c hc).mpr (by rw [hbuyer]; simp)
    refine Escrowed.insert he _ (by simp) ?_
    intro a
    rw [hc]
    simp only [Option.elim, ConsignmentInfo.owedBy_of_buyer hlocked hbuyer]
    exact hlaw.unreserve s.ledger sender c.price (Escrowed.price_le he hc hlocked hbuyer) a
  | territoryGrants | territoryRename | createOrder => exact he

/-! ## The block hook -/

/-- No consignment of an ending lease is locked. -/
def Book.EndUnlocked (b : Book T) (ending : TokenId → Prop) : Prop :=
  ∀ token key t c, ending token → b.Names token key t → t.state = .onConsignment →
    b.consignment.lookup token = some c → c.locked = false

variable {b : Book T} {ending : TokenId → Prop}

theorem Book.lookup_dropped {t : TerritoryInfo} {token' : TokenId}
    (h : (b.dropped token t).consignment.lookup token' = some c) :
    b.consignment.lookup token' = some c := by
  simp only [Book.dropped] at h
  split_ifs at h
  · exact lookup_of_erase h
  · exact h

/-- A round of the first loop locks nothing and puts nothing on consignment. -/
theorem Book.EndUnlocked.freeze (h : b.EndUnlocked ending) (token : TokenId) :
    (b.freeze token).EndUnlocked ending := by
  rcases b.freeze_cases token with heq | ⟨key, t, hnames, ⟨-, heq⟩ | ⟨-, heq⟩⟩ <;> rw [heq]
  · exact h
  · intro token' key' t' c' hending hnames' hstate hc'
    have ht' : (b.territory.insert key { t with state := .frozen }).lookup key' = some t' :=
      hnames'.2
    rw [lookup_insert_ite] at ht'
    split_ifs at ht'
    · obtain rfl := Option.some.inj ht'
      cases hstate
    · exact h token' key' t' c' hending ⟨hnames'.1, ht'⟩ hstate (Book.lookup_dropped hc')
  · intro token' key' t' c' hending hnames' hstate hc'
    exact h token' key' t' c' hending hnames' hstate (Book.lookup_dropped hc')

variable (h : Escrowed reserved b.consignment)
include h

/-- Dropping a consignment that is not locked. -/
theorem Escrowed.dropped {t : TerritoryInfo}
    (hunlocked : t.state = .onConsignment → ∀ c, b.consignment.lookup token = some c →
      c.locked = false) : Escrowed reserved (b.dropped token t).consignment := by
  simp only [Book.dropped]
  split_ifs with hstate
  · cases hc : b.consignment.lookup token with
    | none =>
      rw [erase_of_lookup_none hc]
      exact h
    | some c =>
      refine h.erase hc ?_
      intro a
      rw [ConsignmentInfo.owedBy_of_unlocked (hunlocked hstate c hc)]
      rfl
  · exact h

theorem Escrowed.freeze (hend : b.EndUnlocked ending) (htoken : ending token) :
    Escrowed reserved (b.freeze token).consignment := by
  rcases b.freeze_cases token with heq | ⟨key, t, hnames, ⟨-, heq⟩ | ⟨-, heq⟩⟩ <;> rw [heq]
  · exact h
  · exact h.dropped fun hstate c hc => hend token key t c htoken hnames hstate hc
  · exact h.dropped fun hstate c hc => hend token key t c htoken hnames hstate hc

theorem Escrowed.expire (token : TokenId) : Escrowed reserved (b.expire token).consignment := by
  rcases b.expire_cases token with heq | ⟨key, t, -, -, heq⟩ <;> rw [heq] <;> exact h

/-- The hook keeps the escrow if no lease ends with its consignment locked. -/
theorem Escrowed.frozenTask (hend : b.EndUnlocked fun token => (b.now, token) ∈ b.territoryFrozen) :
    Escrowed reserved b.frozenTask.consignment := by
  have hfrozen : Escrowed reserved b.freezeAll.consignment := by
    refine (List.foldlRecOn (motive := fun b' =>
      b'.EndUnlocked (fun token => (b.now, token) ∈ b.territoryFrozen) ∧
        Escrowed reserved b'.consignment) _ Book.freeze ⟨hend, h⟩ ?_).2
    rintro b' ⟨hend', h'⟩ token hmem
    exact ⟨hend'.freeze token, h'.freeze hend' (mem_hashOrder_iterPrefix.mp hmem)⟩
  exact List.foldlRecOn (motive := fun b' => Escrowed reserved b'.consignment) _ Book.expire
    hfrozen fun b' h' token _ => h'.expire token

omit h

/-! ## Runs -/

/-- The hook ends no lease whose consignment is locked, and other pallets leave the reserves
alone. -/
def EscrowSafe (n : Node T) : Action T → Prop
  | .frozenTask =>
    ∀ token key t c, (n.world.now, token) ∈ n.world.territoryFrozen →
      n.world.territoryKey.lookup token = some key → n.world.territory.lookup key = some t →
      t.state = .onConsignment → n.world.consignment.lookup token = some c → c.locked = false
  | .external ledger _ => ∀ acc, T.reserved ledger acc = T.reserved n.world.ledger acc
  | _ => True

theorem step_escrowed (hlaw : LawfulCurrency T) {n n' : Node T} {a : Action T}
    (hok : EscrowSafe n a) (hstep : n.step a = some n') (he : n.world.Escrowed) :
    n'.world.Escrowed := by
  cases a with
  | newBlock =>
    obtain ⟨-, -, rfl⟩ := step_newBlock hstep
    exact he
  | serve name =>
    obtain ⟨block, task, -, -, -, -, hrun | hworld⟩ := step_serve hstep
    · exact Call.code_escrowed hlaw (.execConsignment task.token task.territoryName) hrun he
    · rw [hworld]
      exact he
  | frozenTask =>
    obtain ⟨-, rfl⟩ := step_frozenTask hstep
    have hledger := (keeps_frozenTask (T := T) n.world).ledger
    have hbook := after_frozenTask_book n.world
    have hconsignment : (after (StorageHandler.frozenTask T) n.world).consignment =
        n.world.book.frozenTask.consignment := congrArg Book.consignment hbook
    show StorageHandler.Escrowed (T.reserved (after (StorageHandler.frozenTask T) n.world).ledger)
      (after (StorageHandler.frozenTask T) n.world).consignment
    rw [hledger, hconsignment]
    refine Escrowed.frozenTask (b := n.world.book) he ?_
    rintro token key t c hending ⟨hkey, ht⟩ hstate hc
    exact hok token key t c hending hkey ht hstate hc
  | call c =>
    obtain ⟨-, -, hrun | hworld⟩ := step_call hstep
    · exact Call.code_escrowed hlaw c hrun he
    · rw [hworld]
      exact he
  | handle op =>
    obtain ⟨-, hrun | hworld⟩ := step_handle hstep
    · obtain ⟨territory, idle, service, hs'⟩ := HandleOp.code_frame hrun
      rw [hs']
      exact he
    · rw [hworld]
      exact he
  | external =>
    obtain rfl := step_external hstep
    exact Escrowed.congr he hok

theorem Reached.escrowed (hlaw : LawfulCurrency T) {n : Node T} (hn : Reached EscrowSafe n) :
    n.world.Escrowed := by
  refine Runs.Reach.inv (P := fun n => n.world.Escrowed) ?_ ?_ hn
  · rintro _ ⟨ledger, agenda, price, rfl, hreserved, -⟩
    exact ⟨hreserved, fun _ _ hc => by cases hc⟩
  · intro n a n' _ he hok hstep
    exact step_escrowed hlaw hok hstep he

/-- **The escrow is exact.**  In every safe run, the amount in reserve for an account is the sum
of the prices of the consignments locked with that account as buyer; what is in reserve has its
consignment. -/
theorem reserves_are_locked_prices (hlaw : LawfulCurrency T) {n : Node T}
    (hn : Reached EscrowSafe n) (acc : T.AccountId) :
    T.reserved n.world.ledger acc = n.world.consignment.total (fun _ c =>
        if c.locked = true ∧ c.buyers = some acc then c.price else 0) ∧
      (T.reserved n.world.ledger acc ≠ 0 → ∃ token c,
        n.world.consignment.lookup token = some c ∧ c.locked = true ∧ c.buyers = some acc) := by
  have hsum := (hn.escrowed hlaw).sum acc
  refine ⟨hsum, ?_⟩
  intro hne
  rw [hsum] at hne
  obtain ⟨token, c, hc, howed⟩ := exists_lookup_of_total_ne_zero hne
  simp only [ConsignmentInfo.owedBy, ne_eq, ite_eq_right_iff, Classical.not_imp] at howed
  exact ⟨token, c, hc, howed.1⟩

/-- A territory is put on consignment for 100 and bought in the first block. -/
def boughtLease : List (Action runtime) :=
  firstBlock ++ [.call (.mintTerritory alice 1 nameA 30),
    .call (.territoryConsignment alice nameA 100),
    .call (.buyConsignment bob (newToken runtime alice 1 nameA) nameB)]

/-- The theorem at a chain with a purchase under way. -/
theorem reserves_are_locked_prices_bought : ∃ n : Node runtime,
    runtime.reserved n.world.ledger bob = 100 ∧
      (runtime.reserved n.world.ledger bob = n.world.consignment.total (fun _ c =>
          if c.locked = true ∧ c.buyers = some bob then c.price else 0) ∧
        (runtime.reserved n.world.ledger bob ≠ 0 → ∃ token c,
          n.world.consignment.lookup token = some c ∧ c.locked = true ∧ c.buyers = some bob)) := by
  have hguard : Runs.Guarded Node.step EscrowSafe (start (10 ^ 20)) boughtLease := by
    refine ⟨trivial, fun n hn => ⟨?_, fun _ _ => ⟨trivial, fun _ _ => ⟨trivial, fun _ _ =>
      ⟨trivial, fun _ _ => ⟨trivial, fun _ _ => trivial⟩⟩⟩⟩⟩⟩
    obtain ⟨-, -, rfl⟩ := step_newBlock hn
    intro token key t c hfiled
    exact absurd hfiled (AList.notMem_empty _)
  have hrun : (Runs.exec Node.step (start (10 ^ 20)) boughtLease).any
      (fun n => decide (runtime.reserved n.world.ledger bob = 100)) = true := by
    decide +kernel
  obtain ⟨n, hn, hreserved⟩ := Runs.Reach.exists_of_exec (start_reached _) hguard hrun
  exact ⟨n, of_decide_eq_true hreserved, reserves_are_locked_prices runtime_lawfulCurrency hn bob⟩

/-- Without the condition: a lease bought ten blocks before it ends is frozen at its deadline,
the consignment goes, and the price stays in reserve. -/
theorem frozen_lease_keeps_reserve : ∃ n : Node runtime, Reached OwnSteps n ∧
    runtime.reserved n.world.ledger bob = 100 ∧ n.world.consignment = ∅ := by
  have hrun : ((start (10 ^ 20)).runs Action.own (consignedLease.map .act ++ [.idle 431989,
      .act (.call (.buyConsignment bob (newToken runtime alice 1 nameA) nameB)),
      .idle 10, .act .newBlock, .act .frozenTask])).any
      (fun n => decide (runtime.reserved n.world.ledger bob = 100) &&
        n.world.consignment.entries.isEmpty) = true := by
    decide +kernel
  obtain ⟨n, hn, hcheck⟩ := Reached.exists_of_own (start_reached _) hrun
  rw [Bool.and_eq_true] at hcheck
  refine ⟨n, hn, of_decide_eq_true hcheck.1, ?_⟩
  exact AList.ext (List.isEmpty_iff.mp hcheck.2)

end StorageHandler
