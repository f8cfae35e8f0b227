/-
# Rotation of the master key

A model of the calls of `tee-worker` around the master key: governance names a first holder, which
uploads the public key of a new master key; governance may clear the key, and then start again.
Signatures are checked with the present key and with the list of the retired ones.

The verification of a signature is a parameter.  The other calls of the pallet change the workers
only.

* `World.Kept` : a launched key has a holder, and no launched key is lost;
* `rotates_iff` : when a key can be rotated, and when old signatures are accepted.
-/
import CessNode.Mq
import CessNode.Runs

namespace TeeWorker

open Dispatch Mq

/-! ## The calls -/

/-- What the pallet sends to the workers. -/
inductive MasterKeyLaunch where
  | launchRequest (workerPubkey ecdhPubkey : PublicKey)
  | onChainLaunched (masterPubkey : PublicKey)

/-- The events around the master key. -/
inductive Event where
  | masterKeyLaunching (holder : PublicKey)
  | masterKeyLaunched
  | changeFirstHolder (pubkey : PublicKey)

/-- The errors around the master key. -/
inductive Error where
  | badOrigin
  | masterKeyAlreadyLaunched
  | masterKeyLaunching
  | workerNotFound
  | masterKeyFirstHolderNotFound
  | invalidSender
  | masterKeyLaunchRequire
  | invalidMasterKeyFirstHolder
  | masterKeyMismatch
  deriving DecidableEq, Repr

/-- The storage: of a worker only the key for the exchange of secrets, and of the message queue the
sequence numbers. -/
structure World where
  masterKeyFirstHolder : Option PublicKey
  masterPubkey : Option PublicKey
  oldMasterPubkey : Option PublicKey
  oldMasterPubkeyList : List PublicKey
  masterKeyLaunchedAt : Option (ℕ × ℕ)
  workers : StorageMap PublicKey PublicKey
  offchainIngress : StorageMap MessageOrigin ℕ
  pushed : List MasterKeyLaunch
  events : List Event

/-- `launch_master_key`. -/
def launchMasterKey (governance : Bool) (workerPubkey : PublicKey) : EStateM Error World Unit := do
  ensure (governance = true) .badOrigin
  let s ← get
  ensure (s.masterPubkey.isNone = true) .masterKeyAlreadyLaunched
  ensure (s.masterKeyFirstHolder.isNone = true) .masterKeyLaunching
  let ecdhPubkey ← okOr (s.workers.lookup workerPubkey) .workerNotFound
  modify fun s => { s with
    masterKeyFirstHolder := some workerPubkey
    pushed := s.pushed ++ [.launchRequest workerPubkey ecdhPubkey]
    events := s.events ++ [.masterKeyLaunching workerPubkey] }

/-- `clear_master_key`. -/
def clearMasterKey (governance : Bool) : EStateM Error World Unit := do
  ensure (governance = true) .badOrigin
  let s ← get
  ensure (s.masterPubkey.isSome = true) .masterKeyAlreadyLaunched
  ensure (s.masterKeyFirstHolder.isSome = true) .masterKeyLaunching
  let oldPubkey ← okOr s.masterPubkey .workerNotFound
  modify fun s => { s with masterKeyFirstHolder := none }
  let oldPubkey2 ← okOr s.oldMasterPubkey .workerNotFound
  modify fun s => { s with
    oldMasterPubkeyList := s.oldMasterPubkeyList ++ [oldPubkey, oldPubkey2]
    masterPubkey := none
    offchainIngress := s.offchainIngress.erase .keyfairy }

/-- `change_first_holder`. -/
def changeFirstHolder (governance : Bool) (pubkey : PublicKey) : EStateM Error World Unit := do
  ensure (governance = true) .badOrigin
  let s ← get
  let _ ← okOr s.masterKeyFirstHolder .masterKeyFirstHolderNotFound
  modify fun s => { s with
    masterKeyFirstHolder := some pubkey
    events := s.events ++ [.changeFirstHolder pubkey] }

/-- The key of the worker that has sent a message. -/
def workerOf : MessageOrigin → Option PublicKey
  | .worker key => some key
  | _ => none

/-- The end of `on_message_received`: `time` is the number and the timestamp of the block. -/
def uploadMasterKey (masterPubkey : PublicKey) (time : ℕ × ℕ) :
    Option PublicKey → EStateM Error World Unit
  | some savedPubkey => ensure (savedPubkey = masterPubkey) .masterKeyMismatch
  | none => modify fun s => { s with
    masterPubkey := some masterPubkey
    pushed := s.pushed ++ [.onChainLaunched masterPubkey]
    masterKeyLaunchedAt := some time
    events := s.events ++ [.masterKeyLaunched] }

/-- `on_message_received`, for a message `MasterPubkey`. -/
def onMessageReceived (sender : MessageOrigin) (masterPubkey : PublicKey) (time : ℕ × ℕ) :
    EStateM Error World Unit := do
  let workerPubkey ← okOr (workerOf sender) .invalidSender
  let s ← get
  let holder ← okOr s.masterKeyFirstHolder .masterKeyLaunchRequire
  ensure (workerPubkey = holder) .invalidMasterKeyFirstHolder
  uploadMasterKey masterPubkey time s.masterPubkey

section Rotation

variable (verify : Bytes 64 → Bytes 32 → PublicKey → Bool)

/-- `verify_master_sig`. -/
def verifyMasterSig (s : World) (sig : Bytes 64) (hash : Bytes 32) : Bool :=
  match s.masterPubkey with
  | none => false
  | some curPubkey =>
    let flag := s.oldMasterPubkeyList.any fun pubkey => verify sig hash pubkey
    verify sig hash curPubkey || flag

/-! ## Runs -/

/-- What can happen; `others` is what other calls leave of workers and sequence numbers. -/
inductive Action where
  | launchMasterKey (governance : Bool) (workerPubkey : PublicKey)
  | masterPubkey (sender : MessageOrigin) (masterPubkey : PublicKey) (time : ℕ × ℕ)
  | changeFirstHolder (governance : Bool) (pubkey : PublicKey)
  | clearMasterKey (governance : Bool)
  | others (workers : StorageMap PublicKey PublicKey) (ingress : StorageMap MessageOrigin ℕ)

/-- A step.  The queue drops the error of a message and keeps what has been written. -/
def World.step (s : World) : Action → World
  | .launchMasterKey governance workerPubkey =>
    after (transactional (TeeWorker.launchMasterKey governance workerPubkey)) s
  | .masterPubkey sender masterPubkey time => after (onMessageReceived sender masterPubkey time) s
  | .changeFirstHolder governance pubkey =>
    after (transactional (TeeWorker.changeFirstHolder governance pubkey)) s
  | .clearMasterKey governance => after (transactional (TeeWorker.clearMasterKey governance)) s
  | .others workers ingress => { s with workers := workers, offchainIngress := ingress }

/-- No key has been launched yet. -/
def World.Start (s : World) : Prop :=
  s.masterKeyFirstHolder = none ∧ s.masterPubkey = none ∧ s.oldMasterPubkeyList = []

/-- The key that a step launches. -/
def launched (s s' : World) : List PublicKey :=
  if s.masterPubkey = none then s'.masterPubkey.toList else []

/-- The reached states, with the keys that have been launched. -/
def Reached (x : World × List PublicKey) : Prop :=
  Runs.Reach (fun x => x.1.Start ∧ x.2 = [])
    (Runs.observe (fun s a => some (s.step a)) fun s _ s' keys => keys ++ launched s s')
    (fun _ _ => True) x

/-- **What rotation needs.**  A launched key can be cleared and a new one launched then, and every
signature under a launched key is accepted. -/
structure Rotates (x : World × List PublicKey) : Prop where
  clears : x.1.masterPubkey.isSome = true → ∃ s', (clearMasterKey true).run x.1 = .ok () s' ∧
    ∀ workerPubkey ∈ s'.workers, ∃ s'', (launchMasterKey true workerPubkey).run s' = .ok () s''
  verifies : ∀ key ∈ x.2, ∀ sig hash, verify sig hash key = true →
    verifyMasterSig verify x.1 sig hash = true

/-! ## The invariant -/

/-- A launched key has a holder, and no launched key is lost. -/
structure World.Kept (s : World) (keys : List PublicKey) : Prop where
  holder : s.masterPubkey.isSome = true → s.masterKeyFirstHolder.isSome = true
  known : ∀ key ∈ keys, key ∈ s.oldMasterPubkeyList ∨ s.masterPubkey = some key

variable {s s' : World} {keys : List PublicKey} {u : Unit}

theorem launchMasterKey_ok {governance : Bool} {workerPubkey : PublicKey} :
    (launchMasterKey governance workerPubkey).run s = .ok u s' ↔
      governance = true ∧ s.masterPubkey.isNone = true ∧ s.masterKeyFirstHolder.isNone = true ∧
      ∃ ecdhPubkey, s.workers.lookup workerPubkey = some ecdhPubkey ∧
        { s with
          masterKeyFirstHolder := some workerPubkey
          pushed := s.pushed ++ [.launchRequest workerPubkey ecdhPubkey]
          events := s.events ++ [.masterKeyLaunching workerPubkey] } = s' := by
  simp only [launchMasterKey, run_ok, existsAndEq]

theorem clearMasterKey_ok {governance : Bool} :
    (clearMasterKey governance).run s = .ok u s' ↔
      governance = true ∧ s.masterKeyFirstHolder.isSome = true ∧ ∃ oldPubkey oldPubkey2,
        s.masterPubkey = some oldPubkey ∧ s.oldMasterPubkey = some oldPubkey2 ∧
        { s with
          masterKeyFirstHolder := none
          oldMasterPubkeyList := s.oldMasterPubkeyList ++ [oldPubkey, oldPubkey2]
          masterPubkey := none
          offchainIngress := s.offchainIngress.erase .keyfairy } = s' := by
  simp only [clearMasterKey, run_ok, existsAndEq]
  constructor
  · rintro ⟨hgovernance, -, hholder, oldPubkey, hold, oldPubkey2, hold2, rfl⟩
    exact ⟨hgovernance, hholder, oldPubkey, hold, oldPubkey2, hold2, rfl⟩
  · rintro ⟨hgovernance, hholder, oldPubkey, hold, oldPubkey2, hold2, rfl⟩
    exact ⟨hgovernance, by rw [hold]; rfl, hholder, oldPubkey, hold, oldPubkey2, hold2, rfl⟩

/-- A message changes nothing, or it launches a key for the holder. -/
theorem after_onMessageReceived (sender : MessageOrigin) (masterPubkey : PublicKey) (time : ℕ × ℕ)
    (s : World) :
    after (onMessageReceived sender masterPubkey time) s = s ∨
      s.masterKeyFirstHolder.isSome = true ∧ s.masterPubkey = none ∧
        after (onMessageReceived sender masterPubkey time) s =
          after (uploadMasterKey masterPubkey time none) s := by
  unfold onMessageReceived
  cases workerOf sender with
  | none => exact .inl rfl
  | some workerPubkey =>
    rw [after_okOr_some_bind, after_get_bind]
    cases hholder : s.masterKeyFirstHolder with
    | none => exact .inl rfl
    | some holder =>
      rw [after_okOr_some_bind]
      by_cases heq : workerPubkey = holder
      · unfold ensure
        rw [if_pos heq]
        cases hpubkey : s.masterPubkey with
        | some => exact .inl (keeps_ensure (R := fun s s' => s' = s) _ _ s)
        | none => exact .inr ⟨rfl, rfl, rfl⟩
      · unfold ensure
        rw [if_neg heq]
        exact .inl rfl

theorem World.Kept.step (h : s.Kept keys) (a : Action) :
    (s.step a).Kept (keys ++ launched s (s.step a)) := by
  -- a step that does not launch a key only has to keep the invariant
  have hsame : ∀ s' : World, (s'.masterPubkey = s.masterPubkey ∨ s'.masterPubkey = none) →
      s'.Kept keys → s'.Kept (keys ++ launched s s') := by
    intro s' hpubkey hkept
    have hnone : launched s s' = [] := by
      unfold launched
      split_ifs with hs
      · rw [hpubkey.elim (fun heq => heq.trans hs) id]
        rfl
      · rfl
    rw [hnone, List.append_nil]
    exact hkept
  have hcall : ∀ {x : EStateM Error World Unit}, (∀ u s', x.run s = .ok u s' →
      (s'.masterPubkey = s.masterPubkey ∨ s'.masterPubkey = none) ∧ s'.Kept keys) →
      (after (transactional x) s).Kept (keys ++ launched s (after (transactional x) s)) := by
    intro x hx
    refine after_transactional_inv (P := fun s' : World => s'.Kept (keys ++ launched s s'))
      (hsame s (.inl rfl) h) fun u s' hrun => ?_
    exact hsame s' (hx u s' hrun).1 (hx u s' hrun).2
  cases a with
  | launchMasterKey =>
    refine hcall fun u s' hrun => ?_
    obtain ⟨-, -, -, _, -, rfl⟩ := launchMasterKey_ok.mp hrun
    exact ⟨.inl rfl, fun _ => rfl, h.known⟩
  | masterPubkey sender masterPubkey time =>
    show (after (onMessageReceived sender masterPubkey time) s).Kept
      (keys ++ launched s (after (onMessageReceived sender masterPubkey time) s))
    rcases after_onMessageReceived sender masterPubkey time s with heq | ⟨hholder, hnone, heq⟩
    · rw [heq]
      exact hsame s (.inl rfl) h
    · rw [heq]
      refine ⟨fun _ => hholder, fun key hkey => ?_⟩
      rcases List.mem_append.mp hkey with hold | hnew
      · refine .inl ((h.known key hold).resolve_right ?_)
        rw [hnone]
        exact nofun
      · unfold launched at hnew
        rw [if_pos hnone] at hnew
        exact .inr (Option.mem_toList.mp hnew)
  | changeFirstHolder =>
    refine hcall fun u s' hrun => ?_
    simp only [TeeWorker.changeFirstHolder, run_ok, existsAndEq] at hrun
    obtain ⟨-, _, -, rfl⟩ := hrun
    exact ⟨.inl rfl, fun _ => rfl, h.known⟩
  | clearMasterKey =>
    refine hcall fun u s' hrun => ?_
    obtain ⟨-, -, oldPubkey, oldPubkey2, hold, -, rfl⟩ := clearMasterKey_ok.mp hrun
    refine ⟨.inr rfl, nofun, fun key hkey => .inl ?_⟩
    rcases h.known key hkey with hmem | hpubkey
    · exact List.mem_append_left _ hmem
    · obtain rfl := Option.mem_unique hold hpubkey
      exact List.mem_append_right _ List.mem_cons_self
  | others => exact hsame _ (.inl rfl) ⟨h.holder, h.known⟩

theorem Reached.kept {x : World × List PublicKey} (hx : Reached x) : x.1.Kept x.2 := by
  refine Runs.Reach.inv (P := fun x : World × List PublicKey => x.1.Kept x.2) ?_ ?_ hx
  · rintro ⟨s, keys⟩ ⟨⟨-, hnone, -⟩, rfl⟩
    refine ⟨fun hsome => ?_, nofun⟩
    rw [hnone] at hsome
    cases hsome
  · rintro ⟨s, keys⟩ a ⟨s', keys'⟩ - h - hstep
    obtain ⟨hs', hkeys⟩ := Runs.observe_eq_some.mp hstep
    obtain rfl := Option.some.inj hs'
    change keys' = keys ++ launched s (s.step a) at hkeys
    subst hkeys
    exact World.Kept.step h a

/-! ## Rotation -/

theorem verifyMasterSig_of_known {key curPubkey : PublicKey}
    (hcur : s.masterPubkey = some curPubkey)
    (hknown : key ∈ s.oldMasterPubkeyList ∨ s.masterPubkey = some key) {sig : Bytes 64}
    {hash : Bytes 32} (h : verify sig hash key = true) :
    verifyMasterSig verify s sig hash = true := by
  unfold verifyMasterSig
  rw [hcur]
  rcases hknown with hold | hnow
  · exact Bool.or_eq_true_iff.mpr (.inr (List.any_eq_true.mpr ⟨key, hold, h⟩))
  · obtain rfl := Option.mem_unique hcur hnow
    exact Bool.or_eq_true_iff.mpr (.inl h)

/-! ## A small chain -/

/-- A signature that starts with the key that made it. -/
def keyedVerify (sig : Bytes 64) (_ : Bytes 32) (key : PublicKey) : Bool :=
  decide (sig.val.take 32 = key.val)

/-- The signature of a key. -/
def keyedSig (key : PublicKey) : Bytes 64 :=
  ⟨key.val ++ List.replicate 32 0, by rw [List.length_append, key.property, List.length_replicate]⟩

theorem keyedVerify_keyedSig (key : PublicKey) (hash : Bytes 32) :
    keyedVerify (keyedSig key) hash key = true := by
  refine decide_eq_true ?_
  show (key.val ++ List.replicate 32 0).take 32 = key.val
  rw [List.take_left' key.property]

/-- The key with one byte repeated. -/
def keyOf (byte : UInt8) : PublicKey := ⟨List.replicate 32 byte, List.length_replicate⟩

/-- A chain with one worker. -/
def oneWorker (oldMasterPubkey : Option PublicKey) : World where
  masterKeyFirstHolder := none
  masterPubkey := none
  oldMasterPubkey := oldMasterPubkey
  oldMasterPubkeyList := []
  masterKeyLaunchedAt := none
  workers := (∅ : StorageMap PublicKey PublicKey).insert (keyOf 1) (keyOf 2)
  offchainIngress := ∅
  pushed := []
  events := []

/-- The worker launches a master key. -/
def launching : List Action :=
  [.launchMasterKey true (keyOf 1), .masterPubkey (.worker (keyOf 1)) (keyOf 3) (1, 6)]

/-- What a run of the chain leads to. -/
theorem exists_reached (oldMasterPubkey : Option PublicKey) (as : List Action)
    (check : World × List PublicKey → Bool)
    (h : (Runs.exec (Runs.observe (fun s a => some (s.step a)) fun s _ s' keys =>
      keys ++ launched s s') (oneWorker oldMasterPubkey, []) as).any check = true) :
    ∃ x, Reached x ∧ check x = true :=
  Runs.Reach.exists_of_exec (.start ⟨⟨rfl, rfl, rfl⟩, rfl⟩) (Runs.guarded_true _ _) h

/-- **When a master key can be rotated.**  In every reached state rotation works just if there is an
older key that no call ever writes, if a key is launched, and if a key is launched, once there has
been one. -/
theorem rotates_iff (hsigns : ∀ key, ∃ sig hash, verify sig hash key = true)
    {x : World × List PublicKey} (hx : Reached x) :
    Rotates verify x ↔
      (x.1.masterPubkey.isSome = true → x.1.oldMasterPubkey.isSome = true) ∧
        (x.2 ≠ [] → x.1.masterPubkey.isSome = true) := by
  obtain ⟨s, keys⟩ := x
  have hkept : s.Kept keys := hx.kept
  constructor
  · rintro ⟨hclears, hverifies⟩
    refine ⟨fun hsome => ?_, fun hkeys => ?_⟩
    · obtain ⟨s', hrun, -⟩ := hclears hsome
      obtain ⟨-, -, _, oldPubkey2, -, hold2, -⟩ := clearMasterKey_ok.mp hrun
      rw [hold2]
      rfl
    · obtain ⟨key, rest, rfl⟩ := List.exists_cons_of_ne_nil hkeys
      obtain ⟨sig, hash, hsig⟩ := hsigns key
      have haccepted := hverifies key List.mem_cons_self sig hash hsig
      unfold verifyMasterSig at haccepted
      cases hnone : s.masterPubkey with
      | some => rfl
      | none =>
        rw [hnone] at haccepted
        cases haccepted
  · rintro ⟨hold, hlaunched⟩
    refine ⟨fun hsome => ?_, fun key hkey sig hash hsig => ?_⟩
    · obtain ⟨curPubkey, hcur⟩ := Option.isSome_iff_exists.mp hsome
      obtain ⟨oldPubkey2, hold2⟩ := Option.isSome_iff_exists.mp (hold hsome)
      refine ⟨_, clearMasterKey_ok.mpr ⟨rfl, hkept.holder hsome, curPubkey, oldPubkey2, hcur, hold2,
        rfl⟩, fun workerPubkey hworker => ?_⟩
      obtain ⟨ecdhPubkey, hecdh⟩ := StorageMap.mem_iff_exists_lookup.mp hworker
      exact ⟨_, launchMasterKey_ok.mpr ⟨rfl, rfl, rfl, ecdhPubkey, hecdh, rfl⟩⟩
    · obtain ⟨curPubkey, hcur⟩ :=
        Option.isSome_iff_exists.mp (hlaunched (List.ne_nil_of_mem hkey))
      exact verifyMasterSig_of_known verify hcur (hkept.known key hkey) hsig

theorem rotates_iff_launched :
    ∃ x, Reached x ∧ x.1.masterPubkey = some (keyOf 3) ∧ Rotates keyedVerify x := by
  have hrun := exists_reached (some (keyOf 4)) launching (fun x =>
    decide (x.1.masterPubkey = some (keyOf 3) ∧ x.1.oldMasterPubkey = some (keyOf 4)))
    (by decide +kernel)
  obtain ⟨x, hx, hcheck⟩ := hrun
  obtain ⟨hnow, hold⟩ := of_decide_eq_true hcheck
  refine ⟨x, hx, hnow, (rotates_iff keyedVerify
    (fun key => ⟨keyedSig key, keyOf 0, keyedVerify_keyedSig key _⟩) hx).mpr ⟨fun _ => ?_, fun _ => ?_⟩⟩
  · rw [hold]
    rfl
  · rw [hnow]
    rfl

/-- **Rotation never works.**  No call writes the older key, so a launched key cannot be cleared; and
if there were one, then no signature would be accepted between clearing and launching. -/
theorem rotation_fails :
    (∃ x, Reached x ∧ x.1.masterPubkey = some (keyOf 3) ∧
      (∀ s', (clearMasterKey true).run x.1 ≠ .ok () s') ∧ ¬ Rotates keyedVerify x) ∧
    ∃ x, Reached x ∧ keyOf 3 ∈ x.2 ∧ x.1.masterPubkey = none ∧
      verifyMasterSig keyedVerify x.1 (keyedSig (keyOf 3)) (keyOf 0) = false ∧
      ¬ Rotates keyedVerify x := by
  constructor
  · obtain ⟨x, hx, hcheck⟩ := exists_reached none launching (fun x =>
      decide (x.1.masterPubkey = some (keyOf 3) ∧ x.1.oldMasterPubkey = none)) (by decide +kernel)
    obtain ⟨hnow, hold⟩ := of_decide_eq_true hcheck
    have hfails : ∀ s', (clearMasterKey true).run x.1 ≠ .ok () s' := by
      intro s' hrun
      obtain ⟨-, -, _, _, -, hold2, -⟩ := clearMasterKey_ok.mp hrun
      cases hold.symm.trans hold2
    refine ⟨x, hx, hnow, hfails, fun hrotates => ?_⟩
    obtain ⟨s', hrun, -⟩ := hrotates.clears (by rw [hnow]; rfl)
    exact hfails s' hrun
  · obtain ⟨x, hx, hcheck⟩ := exists_reached (some (keyOf 4)) (launching ++ [.clearMasterKey true])
      (fun x => decide (keyOf 3 ∈ x.2 ∧ x.1.masterPubkey = none)) (by decide +kernel)
    obtain ⟨hkey, hnone⟩ := of_decide_eq_true hcheck
    have hrejected : verifyMasterSig keyedVerify x.1 (keyedSig (keyOf 3)) (keyOf 0) = false := by
      unfold verifyMasterSig
      rw [hnone]
    refine ⟨x, hx, hkey, hnone, hrejected, fun hrotates => ?_⟩
    have haccepted := hrotates.verifies _ hkey _ (keyOf 0) (keyedVerify_keyedSig _ _)
    rw [hrejected] at haccepted
    cases haccepted

end Rotation

end TeeWorker
