/-
# The space accounts of a territory

A territory splits its total space into used, locked and remaining space.  Every call and
every `StorageHandle` operation keeps the sum, except the reactivation of an expired
territory: `initial_territory` empties all three accounts and keeps the total.
-/
import CessNode.PurchasedSpace

open Dispatch StorageMap

namespace StorageHandler

variable {T : Config}

/-- The three accounts add up to the total. -/
def TerritoryInfo.Balanced (t : TerritoryInfo) : Prop :=
  t.totalSpace = t.usedSpace + t.lockedSpace + t.remainingSpace

/-- Every territory of the book is balanced. -/
def Book.Balanced (b : Book T) : Prop :=
  ∀ key t, b.territory.lookup key = some t → t.Balanced

variable {b b' : Book T} {key : T.AccountId × TerrName} {t : TerritoryInfo}

/-- Writing a balanced territory, wherever it goes. -/
theorem Book.Balanced.insert (h : b.Balanced)
    {m : StorageMap (T.AccountId × TerrName) TerritoryInfo}
    (hm : ∀ key t, m.lookup key = some t → b.territory.lookup key = some t) (ht : t.Balanced)
    (hb' : b'.territory = m.insert key t) : b'.Balanced := by
  unfold Book.Balanced
  rw [hb']
  exact forall_insert (fun k v hv => h k v (hm k v hv)) ht

/-- **Every change keeps the territories balanced**, if it restarts none that has space. -/
theorem Book.Step.balanced {ch : Change T} (hstep : b.Step ch b')
    (hrestart : ∀ key t blocks, ch = .restart key t blocks → t.totalSpace = 0) (h : b.Balanced) :
    b'.Balanced := by
  cases hstep with
  | @lease token key space blocks hkey htoken hblocks =>
    refine h.insert (fun _ _ => id) ?_ rfl
    show space = 0 + 0 + space
    omega
  | @expand _ t space ht hnow =>
    refine h.insert (fun _ _ => id) ?_ rfl
    have := h _ _ ht
    show t.totalSpace + space = t.usedSpace + t.lockedSpace + (t.remainingSpace + space)
    rw [this]
    omega
  | @prolong _ t blocks ht hdeadline =>
    have hbalanced := h _ t ht
    exact h.insert (t := t.renewed b.now blocks) (fun _ _ => id) hbalanced rfl
  | @restart _ t blocks ht hstate hblocks =>
    refine h.insert (fun _ _ => id) ?_ rfl
    exact hrestart _ t blocks rfl
  | @respace _ t t' ht ht' =>
    refine h.insert (fun _ _ => id) ?_ rfl
    have := h _ _ ht
    show t'.totalSpace = t'.usedSpace + t'.lockedSpace + t'.remainingSpace
    rw [ht'.sum, ht'.totalSpace, this]
  | @consign _ t c ht hstate hnow hnew =>
    have hbalanced := h _ t ht
    exact h.insert (t := { t with state := .onConsignment }) (fun _ _ => id) hbalanced rfl
  | relist hc => exact h
  | @withdraw _ t ht hstate =>
    have hbalanced := h _ t ht
    exact h.insert (t := { t with state := .active }) (fun _ _ => id) hbalanced rfl
  | @deliver _ src dst t hkey ht hstate =>
    have hbalanced := h _ t ht
    exact h.insert (t := { t with state := .active }) (fun _ _ => lookup_of_erase) hbalanced rfl
  | @move src dst _ _ t ht hstate hkey hkey' =>
    exact h.insert (fun _ _ => lookup_of_erase) (h _ _ ht) rfl

/-- The hook changes states only. -/
theorem Book.Balanced.frozenTask (h : b.Balanced) : b.frozenTask.Balanced := by
  refine Book.frozenTask_keeps (Q := Book.Balanced) ?_ ?_ h
  · intro c token hc
    rcases c.freeze_cases token with h | ⟨key, t, hnames, ⟨-, h⟩ | ⟨-, h⟩⟩
    · rw [h]
      exact hc
    · rw [h]
      have hbalanced := hc key t hnames.2
      exact hc.insert (t := { t with state := .frozen }) (fun _ _ => id) hbalanced rfl
    · rw [h]
      exact hc
  · intro c token hc
    rcases c.expire_cases token with h | ⟨key, t, hnames, -, h⟩
    · rw [h]
      exact hc
    · rw [h]
      have hbalanced := hc key t hnames.2
      exact hc.insert (t := { t with state := .expired }) (fun _ _ => id) hbalanced rfl

/-! ## Runs -/

/-- The step reactivates no expired territory that has space. -/
def NoReactivationOfSpace (n : Node T) : Action T → Prop
  | .call (.reactivateTerritory sender name _) =>
    ∀ t, n.world.territory.lookup (sender, name) = some t → t.state = .expired →
      t.totalSpace = 0
  | _ => True

/-- An allowed action restarts no territory that has space. -/
theorem NoReactivationOfSpace.restart {n : Node T} {a : Action T} (h : NoReactivationOfSpace n a)
    {blocks : ℕ} (hmakes : a.Makes n.world (.restart key t blocks)) : t.totalSpace = 0 := by
  cases a with
  | call c =>
    cases hmakes with
    | reactivate ht hstate => exact h _ ht hstate
  | serve name =>
    obtain ⟨block, task, -, hmakes⟩ := hmakes
    cases hmakes
  | handle op =>
    obtain ⟨key', t₁, t₂, -, heq⟩ := hmakes
    cases heq
  | newBlock | frozenTask | external _ _ => exact hmakes.elim

theorem Reached.balanced {n : Node T} (hn : Reached NoReactivationOfSpace n) :
    n.world.book.Balanced := by
  refine hn.book_inv (P := fun _ b => b.Balanced) ?_ ?_ ?_ ?_
  · intro ledger agenda price key t ht
    cases ht
  · intro b hb
    exact hb
  · intro n _ _ _ hb
    exact hb.frozenTask
  · intro n a ch b' _ ha hmakes hstep _ hb
    refine hstep.balanced ?_ hb
    rintro key t blocks rfl
    exact NoReactivationOfSpace.restart ha hmakes

/-- **Territories are balanced.**  In every run of calls and `StorageHandle` operations that
reactivates no expired territory with space, the accounts of every territory add up to its
total space, and all space of a reactivated territory remains. -/
theorem territories_balanced {n : Node T} (hn : Reached NoReactivationOfSpace n) :
    (∀ key t, n.world.territory.lookup key = some t →
      t.totalSpace = t.usedSpace + t.lockedSpace + t.remainingSpace) ∧
    ∀ sender name days s', NoReactivationOfSpace n (.call (.reactivateTerritory sender name days)) →
      (reactivateTerritory T sender name days).run n.world = .ok () s' →
      ∃ t, s'.territory.lookup (sender, name) = some t ∧ t.remainingSpace = t.totalSpace := by
  refine ⟨hn.balanced, ?_⟩
  intro sender name days s' hok hrun
  cases Call.code_ran (.reactivateTerritory sender name days) hrun with
  | @reactivateTerritory _ _ _ _ t _ ht hstate =>
    refine ⟨t.initialised n.world.now (T.oneDay * days), AList.lookup_insert _, ?_⟩
    exact (hok t ht hstate).symm

/-- A territory in use: of two gibs, one unit is locked and another used. -/
def spaceInUse : List (Action runtime) :=
  firstBlock ++ [.call (.mintTerritory alice 2 nameA 30), .handle (.lockUserSpace alice nameA 5),
    .handle (.unlockAndUsedUserSpace alice nameA 3)]

/-- The theorem at a chain with a territory in use. -/
theorem territories_balanced_in_use : ∃ n : Node runtime,
    ((n.world.territory.lookup (alice, nameA)).map TerritoryInfo.usedSpace = some 3) ∧
      ∀ key t, n.world.territory.lookup key = some t →
        t.totalSpace = t.usedSpace + t.lockedSpace + t.remainingSpace := by
  have hguard : Runs.Guarded Node.step NoReactivationOfSpace (start (10 ^ 20)) spaceInUse :=
    ⟨trivial, fun _ _ => ⟨trivial, fun _ _ => ⟨trivial, fun _ _ => ⟨trivial, fun _ _ =>
      ⟨trivial, fun _ _ => ⟨trivial, fun _ _ => trivial⟩⟩⟩⟩⟩⟩
  have hrun : (Runs.exec Node.step (start (10 ^ 20)) spaceInUse).any
      (fun n => decide ((n.world.territory.lookup (alice, nameA)).map TerritoryInfo.usedSpace =
        some 3)) = true := by
    decide +kernel
  obtain ⟨n, hn, hused⟩ := Runs.Reach.exists_of_exec (start_reached _) hguard hrun
  exact ⟨n, of_decide_eq_true hused, (territories_balanced hn).1⟩

/-- Without the condition: a territory that expired and was reactivated is active, has its
total space, and none of it remains. -/
theorem reactivation_loses_space : ∃ n : Node runtime, Reached OwnSteps n ∧
    ∃ key t, n.world.territory.lookup key = some t ∧ t.state = .active ∧
      t.totalSpace ≠ t.usedSpace + t.lockedSpace + t.remainingSpace := by
  have hrun : ((start (10 ^ 20)).runs Action.own (expiredLease ++
      [.act (.call (.reactivateTerritory alice nameA 30))])).any
      (fun n => (n.world.territory.lookup (alice, nameA)).any fun t =>
        decide (t.state = .active ∧
          t.totalSpace ≠ t.usedSpace + t.lockedSpace + t.remainingSpace)) = true := by
    decide +kernel
  obtain ⟨n, hn, hcheck⟩ := Reached.exists_of_own (start_reached _) hrun
  obtain ⟨t, ht, hstate⟩ := (Option.any_eq_true _ _).mp hcheck
  exact ⟨n, hn, _, t, ht, of_decide_eq_true hstate⟩

end StorageHandler
