/-
# Runs of the chain

All pallets together as a transition system.  A block starts with its initialisation: the
scheduler dispatches due tasks, and then the hooks of the pallets run, those of file-bank,
sminer, audit and reservoir in this order.  After that come the calls of the block, each in a
storage layer of its own, in any order and as many as fit into a block.  An era may end at any
time, and what belongs to other pallets may change.

* `Phase` : how far the initialisation has come.  The two loops of the audit are taken round by
  round, with the miners still to be visited as part of the phase;
* `Action` and `Node.step` : the transition system.  A call is signed by an account somebody has
  a key for, so by none of the accounts of the pallets;
* `Reached ok n` : some run whose steps all satisfy `ok` leads to the node `n`;
* `ExactCurrency` : what is assumed of the currency.
-/
import CessNode.Audit
import CessNode.FileBankRuns

open Dispatch StorageMap

/-! ## Signers -/

/-- The account that signs a call of storage-handler. -/
def StorageHandler.Call.signer {T : StorageHandler.Config} :
    StorageHandler.Call T → Option T.AccountId
  | .mintTerritory sender _ _ _ => some sender
  | .expandingTerritory sender _ _ => some sender
  | .renewalTerritory sender _ _ => some sender
  | .reactivateTerritory sender _ _ => some sender
  | .territoryConsignment sender _ _ => some sender
  | .buyConsignment sender _ _ => some sender
  | .execConsignment _ _ => none
  | .cancelConsignment sender _ => some sender
  | .cancelPurchaseAction sender _ => some sender
  | .territoryGrants sender _ _ => some sender
  | .territoryRename sender _ _ => some sender
  -- the origin of an order is checked and not used
  | .createOrder _ _ _ _ _ _ => none
  | .execOrder sender _ => some sender

/-- The account that signs a call of the file bank. -/
def FileBank.Call.signer {T : FileBank.Config} : FileBank.Call T → T.AccountId
  | .uploadDeclaration sender _ _ _ _ => sender
  | .territoryFileDelivery sender _ _ _ => sender
  | .transferReport sender _ _ => sender
  | .calculateReport sender _ _ => sender
  | .replaceIdleSpace sender _ _ _ _ => sender
  | .deleteFile sender _ _ => sender
  | .certIdleSpace sender _ _ _ _ => sender
  | .createBucket sender _ _ => sender
  | .deleteBucket sender _ _ => sender
  | .generateRestoralOrder sender _ _ => sender
  | .claimRestoralOrder sender _ => sender
  | .claimRestoralNoexistOrder sender _ _ _ => sender
  | .restoralOrderComplete sender _ => sender

namespace Chain

variable (T : Config)

/-! ## The transition system -/

/-- How far the block has come. -/
inductive Phase (AccountId : Type) where
  /-- Tasks are dispatched, and the hook of the file bank runs. -/
  | initializing
  /-- The hook of sminer runs next. -/
  | returning
  /-- `generate_challenge` runs next. -/
  | challenging
  /-- `clear_challenge` has these miners still to visit. -/
  | clearing (rest : List AccountId)
  /-- `clear_verify_mission` has these miners still to visit. -/
  | verifying (rest : List AccountId)
  /-- The calls of the block. -/
  | executing

/-- The chain: the phase of the block, the number of its calls so far, and the storages. -/
structure Node where
  phase : Phase T.AccountId
  calls : ℕ
  world : World T

/-- A dispatchable call. -/
inductive Call where
  | storage (call : StorageHandler.Call T.toBank.toConfig)
  | fileBank (call : FileBank.Call T.toBank)
  | sminer (call : Sminer.Call T)
  | audit (call : Audit.Call T)
  | treasury (call : Treasury.Call T)
  | reservoir (call : Reservoir.Call T)

/-- The storages a call leaves behind. -/
def Call.effect : Call T → World T → World T
  | .storage c, w =>
    { w with bank := { w.bank with storage := after (transactional (c.code _)) w.bank.storage } }
  | .fileBank c, w => { w with bank := after (transactional (c.code _)) w.bank }
  | .sminer c, w => after (transactional (c.code T)) w
  | .audit c, w => after (transactional (c.code T)) w
  | .treasury c, w => after (transactional (c.code T)) w
  | .reservoir c, w => after (transactional (c.code T)) w

/-- The account that signs a call. -/
def Call.signer : Call T → Option T.AccountId
  | .storage c => c.signer
  | .fileBank c => some c.signer
  | .sminer c => c.signer
  | .audit c => some c.signer
  | .treasury c => c.signer
  | .reservoir c => c.signer

/-- What can happen next. -/
inductive Action where
  /-- The next block starts. -/
  | newBlock
  /-- The scheduler dispatches the due task of storage-handler of that name. -/
  | serve (name : TokenId)
  /-- The scheduler dispatches the exit of a miner. -/
  | minerExit (miner : T.AccountId)
  /-- A round of the clearing loop of the file bank by itself. -/
  | clearFile (acc : T.AccountId) (fileHash : Hash)
  /-- The next part of the initialisation of the block. -/
  | hook
  | call (call : Call T)
  /-- An era ends and the miners' share of its payout is issued. -/
  | payEra (amount : ℕ)
  /-- The balances, the tasks and the storages of other pallets change. -/
  | external (ledger : T.Ledger) (agenda : T.Agenda) (outside : T.Outside)

variable {T}

/-- The phase as the file bank sees it. -/
def Phase.bank {AccountId : Type} : Phase AccountId → StorageHandler.Phase
  | .initializing => .initializing
  | _ => .executing

/-- The chain as the file bank sees it. -/
def Node.bankNode (n : Node T) : FileBank.Node T.toBank where
  phase := n.phase.bank
  world := n.world.bank

/-- The miners filed under this block, in the order of the iteration. -/
def World.filed (w : World T) (m : StorageMap (ℕ × T.AccountId) Bool) : List T.AccountId :=
  T.slipOrder (m.iterPrefix w.now)

/-- The next part of the initialisation. -/
def Node.hook (n : Node T) : Option (Node T) :=
  match n.phase with
  | .initializing =>
    some { n with
      phase := .returning
      world := { n.world with bank := after (FileBank.onInitialize T.toBank) n.world.bank } }
  | .returning =>
    some { n with phase := .challenging, world := after (Sminer.onInitialize T) n.world }
  | .challenging =>
    let w := after (Audit.generateChallenge T) n.world
    some { n with phase := .clearing (w.filed w.audit.challengeSlip), world := w }
  | .clearing (miner :: rest) =>
    some { n with
      phase := .clearing rest, world := after (Audit.clearChallenge T miner) n.world }
  | .clearing [] =>
    some { n with phase := .verifying (n.world.filed n.world.audit.verifySlip) }
  | .verifying (miner :: rest) =>
    some { n with
      phase := .verifying rest, world := after (Audit.clearVerifyMission T miner) n.world }
  | .verifying [] =>
    some { n with phase := .executing, world := after (Reservoir.onInitialize T) n.world }
  | .executing => none

/-- Nobody has a key for the account of a pallet. -/
def Signed (signer : Option T.AccountId) : Prop := ∀ acc ∈ signer, acc ∉ T.palletAccounts

instance (signer : Option T.AccountId) : Decidable (Signed signer) :=
  inferInstanceAs (Decidable (∀ acc ∈ signer, acc ∉ T.palletAccounts))

/-- The chain with other storages of the file bank. -/
def Node.withBank (n : Node T) (bank : FileBank.World T.toBank) : Node T :=
  { n with world := { n.world with bank := bank } }

/-- The phase of a block in which tasks are dispatched, or calls. -/
def Phase.dispatching {AccountId : Type} : Phase AccountId → Bool
  | .initializing => true
  | .executing => true
  | _ => false

/-- The phase of the calls. -/
def Phase.calling {AccountId : Type} : Phase AccountId → Bool
  | .executing => true
  | _ => false

/-- The transition function. -/
def Node.step (n : Node T) : Action T → Option (Node T)
  | .newBlock =>
    if n.phase.calling = true ∧ n.world.now + 1 < 2 ^ 32 then
      some
        { phase := .initializing
          calls := 0
          world := { n.world with
            bank := { n.world.bank with
              storage := { n.world.bank.storage with now := n.world.now + 1 } } } }
    else none
  | .serve name =>
    (n.bankNode.step (.storage (.serve name))).map fun m => n.withBank m.world
  | .minerExit miner =>
    if n.phase.dispatching then
      some { n with world := after (transactional (Sminer.minerExit T miner)) n.world }
    else none
  | .clearFile acc fileHash =>
    (n.bankNode.step (.clearFile acc fileHash)).map fun m => n.withBank m.world
  | .hook => n.hook
  | .call c =>
    if n.phase.calling = true ∧ n.calls < T.maxCalls ∧ Signed (c.signer T) then
      some { n with calls := n.calls + 1, world := c.effect T n.world }
    else none
  | .payEra amount =>
    match (Treasury.onNonzeroUnbalanced T amount).run n.world with
    | .ok _ w => some { n with world := w }
    -- the overflow of the pool is a panic, with which there is no block
    | .error _ _ => none
  | .external ledger agenda outside =>
    some (n.withBank { n.world.bank with
      outside := outside
      storage := { n.world.bank.storage with ledger := ledger, agenda := agenda } })

/-- The chain at genesis: no miners, no files. -/
def Node.Start (n : Node T) : Prop :=
  n.bankNode.Start ∧ n.phase = .executing ∧ n.world = genesis T n.world.bank ∧
    n.world.miner = Sminer.genesis T.AccountId

/-- Some run whose steps all satisfy `ok` leads to the node. -/
def Reached (ok : Node T → Action T → Prop) (n : Node T) : Prop :=
  Runs.Reach Node.Start Node.step ok n

/-! ## The currency -/

variable (T) in
/-- The operations of the currency move exactly the given amount; `unreserve` stops when nothing is
left in reserve. -/
structure ExactCurrency : Prop where
  transfer_free : ∀ {l l' : T.Ledger} {src dst v}, T.transfer l src dst v = some l' →
    ∀ a, T.free l' a + (if a = src then v else 0) = T.free l a + if a = dst then v else 0
  transfer_reserved : ∀ {l l' : T.Ledger} {src dst v}, T.transfer l src dst v = some l' →
    ∀ a, T.reserved l' a = T.reserved l a
  reserve_free : ∀ {l l' : T.Ledger} {acc v}, T.reserve l acc v = some l' →
    ∀ a, T.free l' a + (if a = acc then v else 0) = T.free l a
  reserve_reserved : ∀ {l l' : T.Ledger} {acc v}, T.reserve l acc v = some l' →
    ∀ a, T.reserved l' a = T.reserved l a + if a = acc then v else 0
  unreserve_free : ∀ (l : T.Ledger) (acc v a), T.free (T.unreserve l acc v) a =
    T.free l a + if a = acc then min v (T.reserved l acc) else 0
  unreserve_reserved : ∀ (l : T.Ledger) (acc v a), T.reserved (T.unreserve l acc v) a =
    T.reserved l a - if a = acc then min v (T.reserved l acc) else 0
  resolve_free : ∀ (l : T.Ledger) (acc v a),
    T.free (T.resolveCreating l acc v) a = T.free l a + if a = acc then v else 0
  resolve_reserved : ∀ (l : T.Ledger) (acc v a),
    T.reserved (T.resolveCreating l acc v) a = T.reserved l a

end Chain
