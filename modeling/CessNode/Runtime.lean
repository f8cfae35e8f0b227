/-
# A runtime

The parameters that the runtime gives to the storage-handler pallet, with a plain currency
and a plain scheduler that satisfy the laws the other files assume.  It is the runtime on
which concrete runs of the chain are evaluated.  `Reached.idle` lets such a run pass many
blocks at once, as long as nothing is filed for them.
-/
import CessNode.StorageHandlerRuns

open Dispatch StorageMap

namespace StorageHandler

/-! ## Currency and scheduler -/

/-- The free and the reserved balance of every account. -/
structure Balances where
  free : ℕ → ℕ
  reserved : ℕ → ℕ

namespace Balances

/-- `ExistentialDeposit`, one token of 18 decimals. -/
def existentialDeposit : ℕ := 10 ^ 18

/-- The balances with one account rewritten. -/
def set (l : Balances) (acc free reserved : ℕ) : Balances where
  free := fun a => if a = acc then free else l.free a
  reserved := fun a => if a = acc then reserved else l.reserved a

def canSlash (l : Balances) (acc v : ℕ) : Bool := v ≤ l.free acc

def reserve (l : Balances) (acc v : ℕ) : Option Balances :=
  if v ≤ l.free acc then some (l.set acc (l.free acc - v) (l.reserved acc + v)) else none

def unreserve (l : Balances) (acc v : ℕ) : Balances :=
  let v := min v (l.reserved acc)
  l.set acc (l.free acc + v) (l.reserved acc - v)

/-- A transfer that keeps the sender alive. -/
def transfer (l : Balances) (src dst v : ℕ) : Option Balances :=
  if v = 0 ∨ src = dst then some l
  else if v + existentialDeposit ≤ l.free src then
    let l := l.set src (l.free src - v) (l.reserved src)
    some (l.set dst (l.free dst + v) (l.reserved dst))
  else none

theorem free_transfer {l l' : Balances} {src dst v : ℕ} (h : l.transfer src dst v = some l')
    (a : ℕ) : l'.free a + (if a = src then v else 0) = l.free a + if a = dst then v else 0 := by
  unfold transfer at h
  split_ifs at h with hv hfree
  · obtain rfl := Option.some.inj h
    rcases hv with rfl | rfl
    · simp
    · rfl
  · obtain rfl := Option.some.inj h
    rw [not_or] at hv
    simp only [set]
    by_cases hdst : a = dst
    · subst hdst
      rw [if_pos rfl, if_pos rfl, if_neg (Ne.symm hv.2), if_neg (Ne.symm hv.2)]
      rfl
    · split_ifs with hsrc
      · rw [hsrc]
        omega
      · rfl

theorem free_reserve {l l' : Balances} {acc v : ℕ} (h : l.reserve acc v = some l') (a : ℕ) :
    l'.free a + (if a = acc then v else 0) = l.free a := by
  unfold reserve at h
  split_ifs at h with hle
  obtain rfl := Option.some.inj h
  simp only [set]
  split_ifs with ha
  · rw [ha]
    omega
  · rfl

theorem free_unreserve (l : Balances) (acc v a : ℕ) :
    (l.unreserve acc v).free a = l.free a + if a = acc then min v (l.reserved acc) else 0 := by
  simp only [unreserve, set]
  split_ifs with ha
  · rw [ha]
  · rfl

theorem reserved_unreserve (l : Balances) (acc v a : ℕ) :
    (l.unreserve acc v).reserved a =
      l.reserved a - if a = acc then min v (l.reserved acc) else 0 := by
  simp only [unreserve, set]
  split_ifs with ha
  · rw [ha]
  · rfl

end Balances

/-- The named tasks. -/
abbrev Tasks := StorageMap TokenId (ℕ × ScheduledCall)

/-- A hash with the given leading bytes. -/
def hashOf (bytes : List UInt8) : H256 :=
  ⟨(bytes ++ List.replicate 32 0).take 32, by simp⟩

/-- The parameters of the runtime. -/
def runtime : Config where
  AccountId := ℕ
  decAccountId := inferInstance
  oneDay := 14400
  oneHours := 600
  frozenLimit := 2000
  consignmentRemainingBlock := 14400
  lockingBlock := 50
  frozenDays := 7 * 14400
  random
    | .token sender now name, _ => some (hashOf (.ofNat sender :: .ofNat now :: name.val))
    | .order now, _ => some (hashOf [.ofNat now])
  spaceTreasury := 0
  Ledger := Balances
  canSlash := Balances.canSlash
  reserve := Balances.reserve
  unreserve := Balances.unreserve
  transfer := Balances.transfer
  reserved := Balances.reserved
  Agenda := Tasks
  scheduleNamed g name block task :=
    if g.lookup name = none then some (g.insert name (block, task)) else none
  cancelNamed g name := if g.lookup name = none then none else some (g.erase name)
  pending g name := g.lookup name
  dispatched g name := g.erase name
  hashOrder l := l
  hashOrder_perm l := .refl l

theorem runtime_lawfulCurrency : LawfulCurrency runtime where
  reserve := by
    intro l l' acc v h a
    replace h : Balances.reserve l acc v = some l' := h
    unfold Balances.reserve at h
    split_ifs at h
    obtain rfl := Option.some.inj h
    show (if a = acc then _ else _) = l.reserved a + _
    split_ifs with ha
    · rw [ha]
    · rfl
  unreserve := by
    intro l acc v hv a
    replace hv : v ≤ l.reserved acc := hv
    show (if a = acc then l.reserved acc - min v (l.reserved acc) else l.reserved a) + _ =
      l.reserved a
    split_ifs with ha
    · rw [ha]
      omega
    · rfl
  transfer := by
    intro l l' src dst v h a
    replace h : Balances.transfer l src dst v = some l' := h
    unfold Balances.transfer at h
    split_ifs at h with hv hfree
    · obtain rfl := Option.some.inj h
      rfl
    · obtain rfl := Option.some.inj h
      show (if a = dst then (if dst = src then l.reserved src else l.reserved dst)
        else if a = src then l.reserved src else l.reserved a) = l.reserved a
      split_ifs <;> simp_all

theorem runtime_lawfulScheduler : LawfulScheduler runtime where
  schedule := by
    intro g g' name block task h n
    replace h : (if g.lookup name = none then some (g.insert name (block, task)) else none) =
      some g' := h
    split_ifs at h
    obtain rfl := Option.some.inj h
    exact lookup_insert_ite g name n (block, task)
  schedule_new := by
    intro g g' name block task h
    replace h : (if g.lookup name = none then some (g.insert name (block, task)) else none) =
      some g' := h
    split_ifs at h with hnone
    exact hnone
  cancel := by
    intro g g' name h n
    replace h : (if g.lookup name = none then none else some (g.erase name)) = some g' := h
    split_ifs at h
    obtain rfl := Option.some.inj h
    exact lookup_erase_ite g name n
  cancel_pending := by
    intro g g' name h
    replace h : (if g.lookup name = none then none else some (g.erase name)) = some g' := h
    split_ifs at h with hnone
    exact hnone
  dispatched := by
    intro g name n
    exact lookup_erase_ite g name n

/-! ## The start of concrete runs -/

/-- The chain at genesis, with the same free balance for every account and the default unit
price. -/
def start (free : ℕ) : Node runtime where
  phase := .executing
  world := genesis runtime (⟨fun _ => free, fun _ => 0⟩ : Balances) (∅ : Tasks) 30

theorem start_reached {ok : Node runtime → Action runtime → Prop} (free : ℕ) :
    Reached ok (start free) :=
  .start ⟨_, _, _, rfl, fun _ => rfl, fun _ => rfl⟩

/-- The first block, in which the miners provide a terabyte of idle space. -/
def firstBlock : List (Action runtime) :=
  [.newBlock, .frozenTask, .handle (.addTotalIdleSpace (1024 * gByte))]

def alice : runtime.AccountId := (1 : ℕ)

def bob : runtime.AccountId := (2 : ℕ)

def nameA : TerrName := ⟨[97], by decide⟩

def nameB : TerrName := ⟨[98], by decide⟩

/-! ## Idle blocks -/

variable {T : Config}

/-- Where nothing is filed for the block, the hook does nothing. -/
theorem after_frozenTask_idle {s : World T} (hfrozen : s.territoryFrozen.iterPrefix s.now = [])
    (hexpired : s.territoryExpired.iterPrefix s.now = []) : after (frozenTask T) s = s := by
  have hnil : T.hashOrder [] = [] := List.perm_nil.mp (T.hashOrder_perm [])
  unfold frozenTask
  rw [after_get_bind, hfrozen, hnil]
  show after ((T.hashOrder (s.territoryExpired.iterPrefix s.now)).mapM (expireTerritory T) >>=
    fun list => pure list.reduceOption) s = s
  rw [hexpired, hnil]
  rfl

/-- The action is not the doing of another pallet. -/
def Action.own : Action T → Bool
  | .external _ _ => false
  | _ => true

/-- Nothing but the pallet touches the balances and tasks. -/
def OwnSteps (_ : Node T) (a : Action T) : Prop := a.own = true

/-- A part of a concrete run: an action, or a number of idle blocks. -/
inductive Cmd (T : Config) where
  | act (a : Action T)
  | idle (blocks : ℕ)

/-- Nothing is filed for the hook in the next `k` blocks. -/
def Node.idleFor (n : Node T) (k : ℕ) : Bool :=
  decide (n.phase = .executing) && decide (n.world.now + k < 2 ^ 32) &&
    n.world.territoryFrozen.keys.all (fun p => decide (p.1 ≤ n.world.now ∨ n.world.now + k < p.1)) &&
    n.world.territoryExpired.keys.all (fun p => decide (p.1 ≤ n.world.now ∨ n.world.now + k < p.1))

/-- The node after the parts of a concrete run with allowed actions. -/
def Node.runs (allowed : Action T → Bool) (n : Node T) : List (Cmd T) → Option (Node T)
  | [] => some n
  | .act a :: cmds =>
    if allowed a then (n.step a).bind fun n' => n'.runs allowed cmds else none
  | .idle k :: cmds =>
    if n.idleFor k then
      Node.runs allowed { n with world := { n.world with now := n.world.now + k } } cmds
    else none

theorem iterPrefix_eq_nil {m : StorageMap (ℕ × TokenId) Bool} {block : ℕ}
    (h : ∀ p ∈ m.keys, p.1 ≠ block) : m.iterPrefix block = [] := by
  rw [List.eq_nil_iff_forall_not_mem]
  intro token htoken
  exact h _ (mem_iterPrefix.mp htoken) rfl

section Idle

variable {allowed : Action T → Bool} (hblock : allowed .newBlock = true)
  (hhook : allowed .frozenTask = true)

include hblock hhook

/-- `k` blocks pass in which nothing is filed for the hook and nobody calls. -/
theorem Reached.idle {s : World T} (h : Reached (fun _ a => allowed a = true) ⟨.executing, s⟩)
    (k : ℕ) (hk : s.now + k < 2 ^ 32) (hidle : ∀ b, s.now < b → b ≤ s.now + k →
      s.territoryFrozen.iterPrefix b = [] ∧ s.territoryExpired.iterPrefix b = []) :
    Reached (fun _ a => allowed a = true) ⟨.executing, { s with now := s.now + k }⟩ := by
  induction k with
  | zero => exact h
  | succ k ih =>
    have hprev := ih (by omega) fun b hlt hle => hidle b hlt (by omega)
    obtain ⟨hfrozen, hexpired⟩ := hidle (s.now + (k + 1)) (by omega) le_rfl
    have hinit : Reached (fun _ a => allowed a = true)
        ⟨.initializing, { s with now := s.now + (k + 1) }⟩ := by
      refine .next hprev (a := .newBlock) hblock ?_
      simp only [Node.step, true_and]
      rw [if_pos (by omega)]
      rfl
    refine .next hinit (a := .frozenTask) hhook ?_
    simp only [Node.step, if_true]
    rw [after_frozenTask_idle hfrozen hexpired]

theorem Reached.idleFor {n : Node T} (hn : Reached (fun _ a => allowed a = true) n) {k : ℕ}
    (h : n.idleFor k = true) :
    Reached (fun _ a => allowed a = true)
      { n with world := { n.world with now := n.world.now + k } } := by
  obtain ⟨phase, s⟩ := n
  simp only [Node.idleFor, Bool.and_eq_true, decide_eq_true_eq, List.all_eq_true] at h
  obtain ⟨⟨⟨rfl, hfits⟩, hfrozen⟩, hexpired⟩ := h
  refine Reached.idle hblock hhook hn k hfits ?_
  intro b hlt hle
  refine ⟨iterPrefix_eq_nil ?_, iterPrefix_eq_nil ?_⟩
  · intro p hp heq
    have := hfrozen p hp
    omega
  · intro p hp heq
    have := hexpired p hp
    omega

/-- A concrete run that passes a check gives a reached node that passes it. -/
theorem Reached.exists_of_runs {n : Node T} {cmds : List (Cmd T)} {check : Node T → Bool}
    (hn : Reached (fun _ a => allowed a = true) n) (h : (n.runs allowed cmds).any check = true) :
    ∃ n', Reached (fun _ a => allowed a = true) n' ∧ check n' = true := by
  induction cmds generalizing n with
  | nil => exact ⟨n, hn, h⟩
  | cons cmd cmds ih =>
    cases cmd with
    | act a =>
      unfold Node.runs at h
      split_ifs at h with hallowed
      · cases hstep : n.step a with
        | none =>
          rw [hstep] at h
          cases h
        | some n' =>
          rw [hstep] at h
          exact ih (.next hn hallowed hstep) h
      · cases h
    | idle k =>
      unfold Node.runs at h
      split_ifs at h with hidle
      · exact ih (hn.idleFor hblock hhook hidle) h
      · cases h

end Idle

/-- A concrete run of the pallet's own steps. -/
theorem Reached.exists_of_own {n : Node T} {cmds : List (Cmd T)} {check : Node T → Bool}
    (hn : Reached OwnSteps n) (h : (n.runs Action.own cmds).any check = true) :
    ∃ n', Reached OwnSteps n' ∧ check n' = true :=
  Reached.exists_of_runs rfl rfl hn h

end StorageHandler
