/-
# Launch requests at the workers

A model of what a worker does with the messages `MasterKeyLaunch` of the pallet `tee-worker`
(`cestory`, `system`), and of the fast synchronisation that lets a worker start at a later block.

The keys are a parameter, and so is what the generator of keys returns.  A panic is `none`.
-/
import CessNode.MasterKeys

namespace Ceseal

open Mq TeeWorker

/-! ## The worker -/

/-- What the worker does with keys; `MasterKey` is `CesealMasterKey`. -/
structure Keys (MasterKey : Type) where
  crypto : Crypto
  /-- `sr25519_public_key`. -/
  publicKey : MasterKey → PublicKey
  /-- The file that `seal` writes. -/
  sealedFile : MasterKey → PublicKey → List UInt8
  /-- `from_sealed_file`. -/
  fromSealedFile : List UInt8 → PublicKey → Option MasterKey
  /-- A signature with the identity key. -/
  signer : PublicKey → List UInt8 → List UInt8
  /-- The encoding of `MasterKeySubmission::MasterPubkey`. -/
  masterPubkey : PublicKey → List UInt8

/-- `System`, with the file below `sealing_path` and the send queue. -/
structure System (MasterKey : Type) where
  identityKey : PublicKey
  genesisBlock : ℕ
  keyfairy : Option MasterKey
  sealedFile : Option (List UInt8)
  sendMq : SendQueue

/-- A message `MasterKeyLaunch`, with what else its processing reads: `MasterKeyFirstHolder` in the
storage of the block, and what the generator of keys returns. -/
structure Delivery (MasterKey : Type) where
  origin : MessageOrigin
  event : MasterKeyLaunch
  firstHolder : Option PublicKey
  generated : Option MasterKey

variable {MasterKey : Type} (K : Keys MasterKey)

/-- `load_chain_state`, for a worker that may load one; `registered` is what the loaded state says
of it. -/
def loadChainState (w : System MasterKey) (block : ℕ) (registered : Bool) :
    Option (System MasterKey) :=
  if block = 0 ∨ registered = true then none else some { w with genesisBlock := block }

/-- `init_keyfairy`. -/
def initKeyfairy (w : System MasterKey) (masterKey : MasterKey) : System MasterKey :=
  { w with keyfairy := some masterKey }

/-- `process_master_key_launch_reqeust`. -/
def processMasterKeyLaunchRequest (w : System MasterKey) (m : Delivery MasterKey)
    (workerPubkey : PublicKey) : Option (System MasterKey) :=
  if w.keyfairy.isSome = true then none
  else if w.genesisBlock ≠ 0 then none
  else if w.identityKey ≠ workerPubkey then some w
  else match w.sealedFile with
    | some file => (K.fromSealedFile file w.identityKey).map (initKeyfairy w)
    | none =>
      if m.firstHolder ≠ some workerPubkey then none
      else m.generated.map fun masterKey =>
        initKeyfairy { w with
          sealedFile := some (K.sealedFile masterKey w.identityKey)
          sendMq := pushData K.crypto w.sendMq (.worker w.identityKey) (K.signer w.identityKey)
            (K.masterPubkey (K.publicKey masterKey)) "^cess/masterkey/submit".toUTF8.toList }
          masterKey

/-- `process_master_key_launch_event`. -/
def processMasterKeyLaunchEvent (w : System MasterKey) (m : Delivery MasterKey) :
    Option (System MasterKey) :=
  if m.origin.isPallet = false then some w
  else match m.event with
    | .launchRequest workerPubkey _ => processMasterKeyLaunchRequest K w m workerPubkey
    | .onChainLaunched masterPubkey =>
      if ∃ masterKey ∈ w.keyfairy, K.publicKey masterKey ≠ masterPubkey then none else some w

/-! ## Requests for other workers -/

/-- The message is a request of the pallet for another worker. -/
def Delivery.ForAnother (m : Delivery MasterKey) (w : System MasterKey) : Prop :=
  m.origin.isPallet = true ∧ ∃ workerPubkey ecdhPubkey,
    m.event = .launchRequest workerPubkey ecdhPubkey ∧ w.identityKey ≠ workerPubkey

/-- The worker processes the message, and its keys and messages stay. -/
def Harmless (w : System MasterKey) (m : Delivery MasterKey) : Prop :=
  ∃ w', processMasterKeyLaunchEvent K w m = some w' ∧ w'.keyfairy = w.keyfairy ∧
    w'.sealedFile = w.sealedFile ∧ w'.sendMq = w.sendMq

/-- What holds of the worker at each request for another one, while it processes the messages. -/
def AtForeignRequests (P : System MasterKey → Delivery MasterKey → Prop) (w : System MasterKey)
    (messages : List (Delivery MasterKey)) : Prop :=
  ∀ before m rest, messages = before ++ m :: rest →
    ∀ w' ∈ before.foldlM (processMasterKeyLaunchEvent K) w, m.ForAnother w' → P w' m

variable {K} {w : System MasterKey} {m : Delivery MasterKey}

theorem harmless_iff (hother : m.ForAnother w) :
    Harmless K w m ↔ w.keyfairy = none ∧ w.genesisBlock = 0 := by
  obtain ⟨origin, event, firstHolder, generated⟩ := m
  obtain ⟨horigin, workerPubkey, ecdhPubkey, rfl, hkey⟩ := hother
  have hrequest : processMasterKeyLaunchEvent K w
      ⟨origin, .launchRequest workerPubkey ecdhPubkey, firstHolder, generated⟩ =
        if w.keyfairy.isSome = true then none else if w.genesisBlock ≠ 0 then none else some w := by
    simp only [processMasterKeyLaunchEvent, processMasterKeyLaunchRequest, horigin, hkey,
      Bool.true_eq_false, if_false, if_true, ne_eq, not_false_eq_true]
  unfold Harmless
  rw [hrequest]
  -- the two guards come before the worker looks whom the request is for
  cases hkeyfairy : w.keyfairy with
  | some => simp
  | none =>
    by_cases hgenesis : w.genesisBlock = 0
    · simp [hkeyfairy]
    · simp [hgenesis]

/-- **When a launch request for another worker is harmless.**  For every worker and all messages of
the pallet: just if at each such request the worker has no master key and has synchronised from the
first block on. -/
theorem foreign_requests_harmless_iff (K : Keys MasterKey) (w : System MasterKey)
    (messages : List (Delivery MasterKey)) :
    AtForeignRequests K (Harmless K) w messages ↔
      AtForeignRequests K (fun w' _ => w'.keyfairy = none ∧ w'.genesisBlock = 0) w messages := by
  constructor
  · intro h before m rest hmessages w' hw' hother
    exact (harmless_iff hother).mp (h before m rest hmessages w' hw' hother)
  · intro h before m rest hmessages w' hw' hother
    exact (harmless_iff hother).mpr (h before m rest hmessages w' hw' hother)

/-- A worker that has just been started. -/
def freshWorker (identityKey : PublicKey) : System MasterKey where
  identityKey := identityKey
  genesisBlock := 0
  keyfairy := none
  sealedFile := none
  sendMq := ∅

/-- **A request for another worker stops a worker.**  The pallet asks its worker to launch the master
key: another worker that has started at block 7 panics, and so does one that has a master key. -/
theorem foreign_request_panics :
    ∃ x, Reached x ∧ ∃ m : Delivery Unit, [m.event] = x.1.pushed ∧
      ∀ K : Keys Unit,
        (∃ w, loadChainState (freshWorker (keyOf 5)) 7 false = some w ∧ m.ForAnother w ∧
          processMasterKeyLaunchEvent K w m = none ∧ ¬ Harmless K w m) ∧
        ∃ w, initKeyfairy (freshWorker (keyOf 5)) () = w ∧ m.ForAnother w ∧
          processMasterKeyLaunchEvent K w m = none ∧ ¬ Harmless K w m := by
  have hother : keyOf 5 ≠ keyOf 1 := by decide
  refine ⟨_, .next (a := .launchMasterKey true (keyOf 1))
    (.start (s := (oneWorker none, [])) ⟨⟨rfl, rfl, rfl⟩, rfl⟩) trivial rfl,
    ⟨.pallet [], .launchRequest (keyOf 1) (keyOf 2), some (keyOf 1), none⟩, rfl, fun K => ⟨?_, ?_⟩⟩
  · exact ⟨_, rfl, ⟨rfl, _, _, rfl, hother⟩, rfl, nofun⟩
  · exact ⟨_, rfl, ⟨rfl, _, _, rfl, hother⟩, rfl, nofun⟩

end Ceseal
