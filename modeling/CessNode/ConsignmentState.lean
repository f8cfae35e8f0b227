/-
# Consignments and the state of territories

A territory is on consignment exactly when `Consignment` has an entry for its token.  The
state is also written by `update_territory_days`, which makes a prolonged lease active and
leaves the entry; `renewal_territory` refuses a territory on consignment before it calls the
helper, and a renewal order does not.
-/
import CessNode.PurchasedSpace

open Dispatch StorageMap

namespace StorageHandler

variable {T : Config}

/-- The consignments are those of the territories on consignment. -/
def Book.Consigned (b : Book T) : Prop :=
  ∀ token, token ∈ b.consignment ↔
    ∃ key t, b.territory.lookup key = some t ∧ t.token = token ∧ t.state = .onConsignment

variable {b b' : Book T} {key : T.AccountId × TerrName} {t t₀ : TerritoryInfo}

/-- The consignment of a territory that is there. -/
theorem Book.Consigned.of_lookup (h : b.Consigned) (hkeys : b.KeyInv)
    (ht : b.territory.lookup key = some t) :
    t.token ∈ b.consignment ↔ t.state = .onConsignment := by
  rw [h t.token]
  constructor
  · rintro ⟨key', t', ht', hid, hstate⟩
    obtain ⟨-, rfl⟩ := hkeys.unique ht' ht hid
    exact hstate
  · intro hstate
    exact ⟨key, t, ht, rfl, hstate⟩

/-- Replacing one territory, with its consignment in step. -/
theorem Book.Consigned.replace (h : b.Consigned)
    (hrep : Replaced TerritoryInfo.token b.territory b'.territory key t₀)
    (hself : t₀.token ∈ b'.consignment ↔ t₀.state = .onConsignment)
    (hother : ∀ token, token ≠ t₀.token → (token ∈ b'.consignment ↔ token ∈ b.consignment)) :
    b'.Consigned := by
  intro token
  by_cases htoken : token = t₀.token
  · subst htoken
    rw [hself]
    constructor
    · intro hstate
      exact ⟨key, t₀, hrep.lookup_self, rfl, hstate⟩
    · rintro ⟨key', t', ht', hid, hstate⟩
      rcases (hrep key' t').mp ht' with ⟨-, -, rfl⟩ | ⟨hne, -⟩
      · exact hstate
      · exact absurd hid hne
  · rw [hother token htoken, h token]
    constructor
    · rintro ⟨key', t', ht', rfl, hstate⟩
      exact ⟨key', t', hrep.lookup_other htoken ht', rfl, hstate⟩
    · rintro ⟨key', t', ht', rfl, hstate⟩
      rcases (hrep key' t').mp ht' with ⟨hid, -, -⟩ | ⟨-, hold⟩
      · exact absurd hid htoken
      · exact ⟨key', t', hold, rfl, hstate⟩

/-! ## Changes -/

theorem mem_insert_of_ne {m : StorageMap TokenId (ConsignmentInfo T.AccountId)}
    {token token' : TokenId} {c : ConsignmentInfo T.AccountId} (h : token ≠ token') :
    token ∈ m.insert token' c ↔ token ∈ m := by
  rw [AList.mem_insert]
  exact or_iff_right h

theorem mem_erase_of_ne {m : StorageMap TokenId (ConsignmentInfo T.AccountId)}
    {token token' : TokenId} (h : token ≠ token') : token ∈ m.erase token' ↔ token ∈ m := by
  rw [AList.mem_erase]
  exact and_iff_right h

theorem TerritoryInfo.renewed_state_ne_onConsignment (now blocks : ℕ)
    (h : t.state ≠ .onConsignment) : (t.renewed now blocks).state ≠ .onConsignment := by
  show (if _ then TerritoryState.active else t.state) ≠ .onConsignment
  split_ifs
  · decide
  · exact h

/-- **Every change keeps consignments and states in step**, if it prolongs no territory on
consignment. -/
theorem Book.Step.consigned {ch : Change T} (hstep : b.Step ch b') (hfree : ch.NoClobber b)
    (hprolong : ∀ key t blocks, ch = .prolong key t blocks → t.state ≠ .onConsignment)
    (hkeys : b.KeyInv) (h : b.Consigned) : b'.Consigned := by
  have hrep := @Book.Step.replaced T b b' ch hstep hkeys hfree
  cases hstep with
  | @lease token key space blocks hkey htoken hblocks =>
    refine h.replace (hrep rfl) ?_ (fun _ _ => Iff.rfl)
    refine iff_of_false ?_ (fun hstate => by cases hstate)
    intro hmem
    obtain ⟨key', t', ht', hid, -⟩ := (h token).mp hmem
    have := hkeys.toIndex key' t' ht'
    rw [hid, htoken] at this
    cases this
  | expand ht hnow =>
    have hself := h.of_lookup hkeys ht
    exact h.replace (hrep rfl) hself (fun _ _ => Iff.rfl)
  | @prolong key t blocks ht hdeadline =>
    have hstate := hprolong key t blocks rfl
    refine h.replace (hrep rfl) ?_ (fun _ _ => Iff.rfl)
    refine iff_of_false ?_ (TerritoryInfo.renewed_state_ne_onConsignment b.now blocks hstate)
    exact mt (h.of_lookup hkeys ht).mp hstate
  | restart ht hstate =>
    refine h.replace (hrep rfl) ?_ (fun _ _ => Iff.rfl)
    refine iff_of_false (mt (h.of_lookup hkeys ht).mp ?_) (fun hstate => by cases hstate)
    rw [hstate]
    decide
  | respace ht ht' =>
    refine h.replace (hrep rfl) ?_ (fun _ _ => Iff.rfl)
    rw [ht'.token, ht'.state]
    exact h.of_lookup hkeys ht
  | consign =>
    refine h.replace (hrep rfl) ?_ (fun _ hne => mem_insert_of_ne hne)
    exact iff_of_true ((AList.mem_insert _).mpr (.inl rfl)) rfl
  | @relist listed _ _ hc =>
    intro token
    rw [← h token]
    by_cases htoken : token = listed
    · subst htoken
      exact iff_of_true ((AList.mem_insert _).mpr (.inl rfl)) (mem_iff_exists_lookup.mpr ⟨_, hc⟩)
    · exact mem_insert_of_ne htoken
  | withdraw ht hstate =>
    refine h.replace (hrep rfl) ?_ (fun _ hne => mem_erase_of_ne hne)
    exact iff_of_false (fun hmem => (AList.mem_erase.mp hmem).1 rfl) (fun hstate => by cases hstate)
  | deliver hkey ht hstate =>
    obtain rfl := hkeys.lookup_of_index hkey ht
    refine h.replace (hrep rfl) ?_ (fun _ hne => mem_erase_of_ne hne)
    exact iff_of_false (fun hmem => (AList.mem_erase.mp hmem).1 rfl) (fun hstate => by cases hstate)
  | move ht =>
    exact h.replace (hrep rfl) (h.of_lookup hkeys ht) (fun _ _ => Iff.rfl)

/-! ## The block hook -/

theorem Book.Consigned.freeze (h : b.Consigned) (hkeys : b.KeyInv)
    (hnames : b.Names t.token key t) (hdeadline : t.deadline = b.now)
    (hfits : b.now + T.frozenDays < 2 ^ 32) : (b.freeze t.token).Consigned := by
  rw [Book.freeze_of_fits hnames hdeadline hfits]
  have hrep : Replaced TerritoryInfo.token b.territory (b.frozen t.token key t).territory key
      { t with state := .frozen } := hkeys.replaced_put hnames.2 rfl
  refine h.replace hrep (iff_of_false ?_ fun hstate => by cases hstate) ?_
  · show t.token ∉ if t.state = .onConsignment then b.consignment.erase t.token else b.consignment
    split_ifs with hstate
    · exact fun hmem => (AList.mem_erase.mp hmem).1 rfl
    · exact mt (h.of_lookup hkeys hnames.2).mp hstate
  · intro token hne
    show token ∈ (if t.state = .onConsignment then b.consignment.erase t.token
      else b.consignment) ↔ token ∈ b.consignment
    split_ifs
    · exact mem_erase_of_ne hne
    · exact Iff.rfl

theorem Book.Consigned.expire (h : b.Consigned) (hkeys : b.KeyInv)
    (hnames : b.Names t.token key t) (hstate : t.state = .frozen) :
    (b.expire t.token).Consigned := by
  rw [Book.expire_of_names hnames]
  split_ifs
  · have hrep : Replaced TerritoryInfo.token b.territory (b.expired key t).territory key
        { t with state := .expired } := hkeys.replaced_put hnames.2 rfl
    refine h.replace hrep (iff_of_false (mt (h.of_lookup hkeys hnames.2).mp ?_)
      fun hstate => by cases hstate) (fun _ _ => Iff.rfl)
    rw [hstate]
    decide
  · exact h

theorem Book.Consigned.frozenTask (h : b.Consigned)
    (hfiled : b.Filed (fromBlock b.now) (fromBlock b.now)) (hfits : b.now + T.frozenDays < 2 ^ 32) :
    b.frozenTask.Consigned := by
  obtain ⟨hnow, hfiled', h'⟩ := Book.freezeAll_rule (Q := fun _ b => b.Consigned) hfiled h (by
    rintro c token rest key t hkeys hnow - hnames rfl - hdeadline hc
    exact hc.freeze hkeys hnames hdeadline (hnow ▸ hfits))
  rw [← hnow] at hfiled'
  exact (Book.expireAll_rule (Q := fun _ b => b.Consigned) hfiled' h' (by
    rintro c token rest key t hkeys - - hnames rfl hstate - hc
    exact hc.expire hkeys hnames hstate)).2.2

/-! ## Runs -/

/-- The step writes over no territory, renews none on consignment by an order, and runs the
hook only where the end of a frozen period fits a block number. -/
def ConsignmentSafe (n : Node T) (a : Action T) : Prop :=
  NoClobber n a ∧ NoRenewalOrderFor .onConsignment n a ∧ FrozenFits n a

theorem Reached.consigned {n : Node T} (hn : Reached ConsignmentSafe n) :
    n.world.book.Consigned := by
  have hclobber : ∀ (n : Node T) a, ConsignmentSafe n a → NoClobber n a := fun _ _ h => h.1
  refine hn.book_inv (P := fun _ b => b.Consigned) ?_ ?_ ?_ ?_
  · intro ledger agenda price token
    exact iff_of_false (AList.notMem_empty _) (fun ⟨_, _, ht, _⟩ => by cases ht)
  · intro b hb
    exact hb
  · intro n hn hok hphase hb
    have hfiled := hn.filed hclobber
    rw [hphase] at hfiled
    exact hb.frozenTask hfiled hok.2.2
  · intro n a ch b' hn hok hmakes hstep _ hb
    refine hstep.consigned (hok.1.change hmakes) ?_ (hn.keyInv hclobber) hb
    rintro key t blocks rfl
    exact hok.2.1.prolong (by decide) (by decide) hmakes

/-- **Consignments follow the states.**  In every safe run, `Consignment` has an entry for a
token exactly when the territory of that token is on consignment. -/
theorem consignment_iff_onConsignment {n : Node T} (hn : Reached ConsignmentSafe n)
    (token : TokenId) :
    (∃ c, n.world.consignment.lookup token = some c) ↔
      ∃ key t, n.world.territory.lookup key = some t ∧ t.token = token ∧
        t.state = .onConsignment := by
  rw [← mem_iff_exists_lookup]
  exact hn.consigned token

/-- An account puts its territory on consignment in the first block. -/
def consignedLease : List (Action runtime) :=
  firstBlock ++ [.call (.mintTerritory alice 1 nameA 30),
    .call (.territoryConsignment alice nameA 100)]

/-- The theorem at a chain with a territory on consignment. -/
theorem consignment_iff_onConsignment_consigned : ∃ n : Node runtime,
    newToken runtime alice 1 nameA ∈ n.world.consignment ∧
      ((∃ c, n.world.consignment.lookup (newToken runtime alice 1 nameA) = some c) ↔
        ∃ key t, n.world.territory.lookup key = some t ∧
          t.token = newToken runtime alice 1 nameA ∧ t.state = .onConsignment) := by
  have hguard : Runs.Guarded Node.step ConsignmentSafe (start (10 ^ 20)) consignedLease := by
    refine ⟨⟨trivial, trivial, trivial⟩, fun n hn => ⟨⟨trivial, trivial, ?_⟩, fun _ _ =>
      ⟨⟨trivial, trivial, trivial⟩, fun _ _ => ⟨⟨trivial, trivial, trivial⟩, fun _ _ =>
        ⟨⟨trivial, trivial, trivial⟩, fun _ _ => trivial⟩⟩⟩⟩⟩
    obtain ⟨-, -, rfl⟩ := step_newBlock hn
    show 1 + 7 * 14400 < 2 ^ 32
    decide
  have hrun : (Runs.exec Node.step (start (10 ^ 20)) consignedLease).any
      (fun n => decide (newToken runtime alice 1 nameA ∈ n.world.consignment)) = true := by
    decide +kernel
  obtain ⟨n, hn, hmem⟩ := Runs.Reach.exists_of_exec (start_reached _) hguard hrun
  exact ⟨n, of_decide_eq_true hmem, consignment_iff_onConsignment hn _⟩

/-- Without the condition: a renewal order for a territory on consignment makes it active, and
its consignment stays. -/
theorem renewal_order_leaves_consignment : ∃ n : Node runtime, Reached OwnSteps n ∧
    ∃ key t, n.world.territory.lookup key = some t ∧ t.state = .active ∧
      t.token ∈ n.world.consignment := by
  have hrun : ((start (10 ^ 20)).runs Action.own (consignedLease.map .act ++
      [.act (.call (.createOrder alice nameA .renewal 1 1 10)),
        .act (.call (.execOrder alice (orderKey runtime 1)))])).any
      (fun n => (n.world.territory.lookup (alice, nameA)).any fun t =>
        decide (t.state = .active ∧ t.token ∈ n.world.consignment)) = true := by
    decide +kernel
  obtain ⟨n, hn, hcheck⟩ := Reached.exists_of_own (start_reached _) hrun
  obtain ⟨t, ht, hstate⟩ := (Option.any_eq_true _ _).mp hcheck
  exact ⟨n, hn, _, t, ht, of_decide_eq_true hstate⟩

end StorageHandler
