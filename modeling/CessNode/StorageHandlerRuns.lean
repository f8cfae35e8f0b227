/-
# Runs of the storage-handler pallet

The chain around the pallet as a transition system.  A block starts with its
initialisation, in which the scheduler dispatches due tasks and then `frozen_task` runs
once; after that come the calls of the block, in any number and order.  At any time the
other pallets use the `StorageHandle` operations, and the balances and tasks that belong
to other pallets change.

* `Action` and `Node.step` : the transition system; a call runs in a storage layer of its
  own and so does a dispatched task, whereas the block hook does not;
* `Reached ok n` : some run whose steps all satisfy `ok` leads to the node `n`;
* `LawfulCurrency`, `LawfulScheduler` : what is assumed of the currency and the scheduler.
-/
import CessNode.Runs
import CessNode.StorageHandlerCalls

open Dispatch

namespace StorageHandler

variable (T : Config)

/-! ## Operations -/

/-- A `StorageHandle` operation of another pallet. -/
inductive HandleOp where
  | addTerritoryUsedSpace (acc : T.AccountId) (name : TerrName) (size : ℕ)
  | subTerritoryUsedSpace (acc : T.AccountId) (name : TerrName) (size : ℕ)
  | lockUserSpace (acc : T.AccountId) (name : TerrName) (size : ℕ)
  | unlockUserSpace (acc : T.AccountId) (name : TerrName) (size : ℕ)
  | unlockAndUsedUserSpace (acc : T.AccountId) (name : TerrName) (size : ℕ)
  | addTotalIdleSpace (increment : ℕ)
  | subTotalIdleSpace (decrement : ℕ)
  | addTotalServiceSpace (increment : ℕ)
  | subTotalServiceSpace (decrement : ℕ)

/-- The code of an operation. -/
def HandleOp.code : HandleOp T → PalletM T Unit
  | .addTerritoryUsedSpace acc name size => StorageHandler.addTerritoryUsedSpace T acc name size
  | .subTerritoryUsedSpace acc name size => StorageHandler.subTerritoryUsedSpace T acc name size
  | .lockUserSpace acc name size => StorageHandler.lockUserSpace T acc name size
  | .unlockUserSpace acc name size => StorageHandler.unlockUserSpace T acc name size
  | .unlockAndUsedUserSpace acc name size => StorageHandler.unlockAndUsedUserSpace T acc name size
  | .addTotalIdleSpace increment => StorageHandler.addTotalIdleSpace T increment
  | .subTotalIdleSpace decrement => StorageHandler.subTotalIdleSpace T decrement
  | .addTotalServiceSpace increment => StorageHandler.addTotalServiceSpace T increment
  | .subTotalServiceSpace decrement => StorageHandler.subTotalServiceSpace T decrement

/-! ## The transition system -/

/-- The part of a block the chain is in. -/
inductive Phase where
  | initializing
  | executing
  deriving DecidableEq

/-- The chain, as far as the pallet sees it. -/
structure Node where
  phase : Phase
  world : World T

/-- What can happen next. -/
inductive Action where
  /-- The next block starts. -/
  | newBlock
  /-- The scheduler dispatches the due task of that name. -/
  | serve (name : TokenId)
  /-- `frozen_task` runs and the calls of the block begin. -/
  | frozenTask
  | call (call : Call T)
  | handle (op : HandleOp T)
  /-- Balances and tasks change by the doing of other pallets. -/
  | external (ledger : T.Ledger) (agenda : T.Agenda)

variable {T}

/-- The transition function.  An operation is one write, so a failed one changes nothing,
with or without a storage layer around the code that uses it. -/
def Node.step (n : Node T) : Action T → Option (Node T)
  | .newBlock =>
    if n.phase = .executing ∧ n.world.now + 1 < 2 ^ 32 then
      some { phase := .initializing, world := { n.world with now := n.world.now + 1 } }
    else none
  | .serve name =>
    match T.pending n.world.agenda name with
    | some (block, task) =>
      if n.phase = .initializing ∧ block ≤ n.world.now then
        some { n with
          world := after (transactional (execConsignment T task.token task.territoryName))
            { n.world with agenda := T.dispatched n.world.agenda name } }
      else none
    | none => none
  | .frozenTask =>
    if n.phase = .initializing then
      some { phase := .executing, world := after (StorageHandler.frozenTask T) n.world }
    else none
  | .call c =>
    if n.phase = .executing then
      some { n with world := after (transactional (c.code T)) n.world }
    else none
  | .handle op => some { n with world := after (transactional (op.code T)) n.world }
  | .external ledger agenda =>
    some { n with world := { n.world with ledger := ledger, agenda := agenda } }

/-- The chain at genesis: no reserves and no tasks of this pallet. -/
def Node.Start (n : Node T) : Prop :=
  ∃ ledger agenda price, n = { phase := .executing, world := genesis T ledger agenda price } ∧
    (∀ acc, T.reserved ledger acc = 0) ∧ ∀ name, T.pending agenda name = none

/-- Some run whose steps all satisfy `ok` leads to the node. -/
def Reached (ok : Node T → Action T → Prop) (n : Node T) : Prop :=
  Runs.Reach Node.Start Node.step ok n

/-! ## What a step can do -/

/-- The code runs to its end. -/
def succeeds (x : PalletM T Unit) (s : World T) : Bool :=
  match x.run s with
  | .ok _ _ => true
  | .error _ _ => false

theorem exists_of_succeeds {x : PalletM T Unit} {s : World T} (h : succeeds x s = true) :
    ∃ s', x.run s = .ok () s' := by
  unfold succeeds at h
  cases hrun : x.run s with
  | ok u s' => exact ⟨s', rfl⟩
  | error e s' =>
    rw [hrun] at h
    cases h

theorem succeeds_of_run {x : PalletM T Unit} {s s' : World T} {u : Unit} (h : x.run s = .ok u s') :
    succeeds x s = true := by
  unfold succeeds
  rw [h]

section Steps

variable {n n' : Node T}

theorem step_newBlock (h : n.step .newBlock = some n') :
    n.phase = .executing ∧ n.world.now + 1 < 2 ^ 32 ∧
      n' = { phase := .initializing, world := { n.world with now := n.world.now + 1 } } := by
  simp only [Node.step, Option.ite_none_right_eq_some, Option.some.injEq] at h
  obtain ⟨⟨hphase, hnow⟩, rfl⟩ := h
  exact ⟨hphase, hnow, rfl⟩

theorem step_frozenTask (h : n.step .frozenTask = some n') :
    n.phase = .initializing ∧
      n' = { phase := .executing, world := after (StorageHandler.frozenTask T) n.world } := by
  simp only [Node.step, Option.ite_none_right_eq_some, Option.some.injEq] at h
  obtain ⟨hphase, rfl⟩ := h
  exact ⟨hphase, rfl⟩

theorem step_call {c : Call T} (h : n.step (.call c) = some n') :
    n.phase = .executing ∧ n'.phase = n.phase ∧
      ((c.code T).run n.world = .ok () n'.world ∨ n'.world = n.world) := by
  simp only [Node.step, Option.ite_none_right_eq_some, Option.some.injEq] at h
  obtain ⟨hphase, rfl⟩ := h
  exact ⟨hphase, rfl, after_dispatched _ _⟩

/-- What a call that succeeds, or does not, makes of the chain. -/
theorem step_call_succeeds {c : Call T} (h : n.step (.call c) = some n') :
    (succeeds (c.code T) n.world = true ∧ (c.code T).run n.world = .ok () n'.world) ∨
      (succeeds (c.code T) n.world = false ∧ n'.world = n.world) := by
  simp only [Node.step, Option.ite_none_right_eq_some, Option.some.injEq] at h
  obtain ⟨-, rfl⟩ := h
  cases hrun : (c.code T).run n.world with
  | ok u s' =>
    left
    refine ⟨succeeds_of_run hrun, ?_⟩
    rw [after_of_ok (run_transactional_ok.mpr hrun)]
  | error e s' =>
    right
    refine ⟨by unfold succeeds; rw [hrun], ?_⟩
    rcases after_transactional (c.code T) n.world with ⟨u, s₁, hok, -⟩ | hafter
    · rw [hrun] at hok
      cases hok
    · exact hafter

theorem step_handle {op : HandleOp T} (h : n.step (.handle op) = some n') :
    n'.phase = n.phase ∧ ((op.code T).run n.world = .ok () n'.world ∨ n'.world = n.world) := by
  simp only [Node.step, Option.some.injEq] at h
  obtain rfl := h
  exact ⟨rfl, after_dispatched _ _⟩

theorem step_serve_eq {name : TokenId} (h : n.step (.serve name) = some n') :
    ∃ block task, T.pending n.world.agenda name = some (block, task) ∧
      n.phase = .initializing ∧ block ≤ n.world.now ∧
      n' = { n with
             world := after (transactional (execConsignment T task.token task.territoryName))
               { n.world with agenda := T.dispatched n.world.agenda name } } := by
  cases hpending : T.pending n.world.agenda name with
  | none =>
    simp only [Node.step, hpending] at h
    cases h
  | some p =>
    obtain ⟨block, task⟩ := p
    simp only [Node.step, hpending, Option.ite_none_right_eq_some, Option.some.injEq] at h
    obtain ⟨⟨hphase, hblock⟩, rfl⟩ := h
    exact ⟨block, task, rfl, hphase, hblock, rfl⟩

/-- A dispatched task leaves the schedule whether it succeeds or not. -/
theorem step_serve {name : TokenId} (h : n.step (.serve name) = some n') :
    ∃ block task, T.pending n.world.agenda name = some (block, task) ∧
      n.phase = .initializing ∧ block ≤ n.world.now ∧ n'.phase = n.phase ∧
      ((execConsignment T task.token task.territoryName).run
          { n.world with agenda := T.dispatched n.world.agenda name } = .ok () n'.world ∨
        n'.world = { n.world with agenda := T.dispatched n.world.agenda name }) := by
  obtain ⟨block, task, hpending, hphase, hblock, rfl⟩ := step_serve_eq h
  exact ⟨block, task, hpending, hphase, hblock, rfl, after_dispatched _ _⟩

theorem step_external {ledger : T.Ledger} {agenda : T.Agenda}
    (h : n.step (.external ledger agenda) = some n') :
    n' = { n with world := { n.world with ledger := ledger, agenda := agenda } } := by
  simp only [Node.step, Option.some.injEq] at h
  exact h.symm

end Steps

/-- The clock, the unit price and the space of the miners are the same. -/
structure World.SameClock (s s' : World T) : Prop where
  now : s'.now = s.now
  unitPrice : s'.unitPrice = s.unitPrice
  totalIdleSpace : s'.totalIdleSpace = s.totalIdleSpace
  totalServiceSpace : s'.totalServiceSpace = s.totalServiceSpace

/-- No call touches the clock, the unit price or the space of the miners, and none but
`create_order` the orders. -/
theorem Call.code_frame (call : Call T) {s s' : World T} {u : Unit}
    (h : (call.code T).run s = .ok u s') :
    s.SameClock s' ∧ (s'.payOrder = s.payOrder ∨ ∃ targetAcc name orderType gibCount days expired,
      call = .createOrder targetAcc name orderType gibCount days expired) := by
  cases call.code_ran h with
  | createOrder => exact ⟨⟨rfl, rfl, rfl, rfl⟩, .inr ⟨_, _, _, _, _, _, rfl⟩⟩
  | _ => exact ⟨⟨rfl, rfl, rfl, rfl⟩, .inl rfl⟩

/-- Operations of other pallets touch the territories and the two space counters. -/
theorem HandleOp.code_frame {op : HandleOp T} {s s' : World T} {u : Unit}
    (h : (op.code T).run s = .ok u s') : ∃ territory idle service,
      s' = { s with
             territory := territory, totalIdleSpace := idle, totalServiceSpace := service } := by
  cases op with
  | addTerritoryUsedSpace =>
    obtain ⟨t, -, -, -, -, rfl⟩ := run_addTerritoryUsedSpace_ok.mp h
    exact ⟨_, _, _, rfl⟩
  | subTerritoryUsedSpace =>
    obtain ⟨t, -, -, -, rfl⟩ := run_subTerritoryUsedSpace_ok.mp h
    exact ⟨_, _, _, rfl⟩
  | lockUserSpace =>
    obtain ⟨t, -, -, -, -, rfl⟩ := run_lockUserSpace_ok.mp h
    exact ⟨_, _, _, rfl⟩
  | unlockUserSpace =>
    obtain ⟨t, -, -, -, rfl⟩ := run_unlockUserSpace_ok.mp h
    exact ⟨_, _, _, rfl⟩
  | unlockAndUsedUserSpace =>
    obtain ⟨t, -, -, -, rfl⟩ := run_unlockAndUsedUserSpace_ok.mp h
    exact ⟨_, _, _, rfl⟩
  | addTotalIdleSpace =>
    obtain ⟨-, rfl⟩ := run_addTotalIdleSpace_ok.mp h
    exact ⟨_, _, _, rfl⟩
  | subTotalIdleSpace =>
    obtain ⟨-, rfl⟩ := run_subTotalIdleSpace_ok.mp h
    exact ⟨_, _, _, rfl⟩
  | addTotalServiceSpace =>
    obtain ⟨-, rfl⟩ := run_addTotalServiceSpace_ok.mp h
    exact ⟨_, _, _, rfl⟩
  | subTotalServiceSpace =>
    obtain ⟨-, rfl⟩ := run_subTotalServiceSpace_ok.mp h
    exact ⟨_, _, _, rfl⟩

/-! ## The outside -/

/-- `reserve`, `unreserve` and `transfer` move exactly the given amount. -/
structure LawfulCurrency (T : Config) : Prop where
  reserve : ∀ {l l' : T.Ledger} {acc v}, T.reserve l acc v = some l' →
    ∀ a, T.reserved l' a = T.reserved l a + if a = acc then v else 0
  unreserve : ∀ (l : T.Ledger) (acc v), v ≤ T.reserved l acc →
    ∀ a, T.reserved (T.unreserve l acc v) a + (if a = acc then v else 0) = T.reserved l a
  transfer : ∀ {l l' : T.Ledger} {src dst v}, T.transfer l src dst v = some l' →
    ∀ a, T.reserved l' a = T.reserved l a

/-- A name has at most one pending task, which is gone once dispatched or cancelled. -/
structure LawfulScheduler (T : Config) : Prop where
  schedule : ∀ {g g' : T.Agenda} {name block task}, T.scheduleNamed g name block task = some g' →
    ∀ n, T.pending g' n = if n = name then some (block, task) else T.pending g n
  schedule_new : ∀ {g g' : T.Agenda} {name block task},
    T.scheduleNamed g name block task = some g' → T.pending g name = none
  cancel : ∀ {g g' : T.Agenda} {name}, T.cancelNamed g name = some g' →
    ∀ n, T.pending g' n = if n = name then none else T.pending g n
  cancel_pending : ∀ {g g' : T.Agenda} {name}, T.cancelNamed g name = some g' →
    T.pending g name ≠ none
  dispatched : ∀ (g : T.Agenda) name n,
    T.pending (T.dispatched g name) n = if n = name then none else T.pending g n

end StorageHandler
