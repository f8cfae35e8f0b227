/-
# Finality justifications

A model of `light_validation/justification.rs`: a GRANDPA justification is decoded and verified
against the authority set of the light client.  The commit is validated by the `finality-grandpa`
crate; the code here checks the signatures of the precommits, and that the headers that come with
the justification are exactly those on the ways from the targets of the precommits down to the
lowest one.

The hash of a header, the voter sets, `validate_commit` and the check of a signature are those of
other crates (`Grandpa`).  `Route` says which way leads from a block to the base; the loop of
`AncestryChain::ancestry` follows it (`ancestry_eq_ok`) and never needs more rounds than there are
headers (`Route.length_le`).  The main result is `verifyWithVoterSet_eq_ok`.
-/
import CessNode.Common
import CessNode.StorageMap
import CessNode.Scale
import CessNode.Dispatch

namespace Light

/-! ## Headers and justifications -/

/-- `AuthorityId`. -/
abbrev AuthorityId := Bytes 32

/-- `DigestItem`. -/
inductive DigestItem where
  | preRuntime (engine : Bytes 4) (data : List UInt8)
  | consensus (engine : Bytes 4) (data : List UInt8)
  | seal (engine : Bytes 4) (data : List UInt8)
  | other (data : List UInt8)
  | runtimeEnvironmentUpdated
  deriving DecidableEq

/-- `BlockHeader`. -/
structure Header where
  parentHash : H256
  number : ℕ
  stateRoot : H256
  extrinsicsRoot : H256
  digest : List DigestItem
  deriving DecidableEq

/-- `Precommit`. -/
structure Precommit where
  targetHash : H256
  targetNumber : ℕ

/-- `SignedPrecommit`. -/
structure SignedPrecommit where
  precommit : Precommit
  signature : Bytes 64
  id : AuthorityId

/-- `Commit`. -/
structure Commit where
  targetHash : H256
  targetNumber : ℕ
  precommits : List SignedPrecommit

/-- `GrandpaJustification` of `sp_consensus_grandpa`. -/
structure GrandpaJustification where
  round : ℕ
  commit : Commit
  votesAncestries : List Header

/-- `ScheduledChange`. -/
structure ScheduledChange where
  nextAuthorities : List (AuthorityId × ℕ)
  delay : ℕ

/-- `ConsensusLog`. -/
inductive ConsensusLog where
  | scheduledChange (change : ScheduledChange)
  | forcedChange (median : ℕ) (change : ScheduledChange)
  | onDisabled (index : ℕ)
  | pause (delay : ℕ)
  | resume (delay : ℕ)

/-- The headers of a justification by their hashes. -/
abbrev AncestryChain := StorageMap H256 Header

/-- What the light client calls in other crates. -/
structure Grandpa where
  hash : Header → H256
  headerCodec : Scale.Codec Header
  VoterSet : Type
  /-- `VoterSet::new`. -/
  newVoterSet : List (AuthorityId × ℕ) → Option VoterSet
  /-- `validate_commit` returns a result that `is_valid`. -/
  validateCommit : Commit → VoterSet → AncestryChain → Bool
  /-- `check_message_signature_with_buffer`. -/
  checkMessageSignature : Precommit → AuthorityId → Bytes 64 → ℕ → UInt64 → Bool
  /-- `ConsensusLog::decode`. -/
  consensusLog : List UInt8 → Option ConsensusLog

/-- Why a submission fails. -/
inductive Failure where
  | noSuchBridgeExists
  | invalidAncestryProof
  | unsupportedScheduledChangeDelay
  | justificationDecode
  | badJustification (message : String)
  | panic
  /-- The call never returns. -/
  | never
  deriving DecidableEq, Repr

variable (G : Grandpa)

/-! ## The wire format -/

/-- The codec of a precommit. -/
def precommitCodec : Scale.Codec Precommit :=
  (Scale.Codec.pair (.array 32) (.uint 4)).imap (fun p => ⟨p.1, p.2⟩)
    (fun p => (p.targetHash, p.targetNumber)) fun _ => rfl

/-- The codec of a signed precommit. -/
def signedPrecommitCodec : Scale.Codec SignedPrecommit :=
  (precommitCodec.pair (.pair (.array 64) (.array 32))).imap (fun p => ⟨p.1, p.2.1, p.2.2⟩)
    (fun s => (s.precommit, s.signature, s.id)) fun _ => rfl

/-- The codec of a commit. -/
def commitCodec : Scale.Codec Commit :=
  (Scale.Codec.pair (.array 32) (.pair (.uint 4) signedPrecommitCodec.vec)).imap
    (fun p => ⟨p.1, p.2.1, p.2.2⟩) (fun c => (c.targetHash, c.targetNumber, c.precommits))
    fun _ => rfl

/-- The codec of the justification that the chain writes. -/
def justificationCodec : Scale.Codec GrandpaJustification :=
  (Scale.Codec.pair (.uint 8) (commitCodec.pair G.headerCodec.vec)).imap
    (fun p => ⟨p.1, p.2.1, p.2.2⟩) (fun j => (j.round, j.commit, j.votesAncestries)) fun _ => rfl

/-- The `Decode` that is derived for the local `GrandpaJustification`: its fields are the
justification, a marker that takes no space and the flag `grandpa_note_stalled`. -/
def decodeWrapper : Scale.Decoder (GrandpaJustification × Bool) := do
  let justification ← (justificationCodec G).decode
  let grandpaNoteStalled ← Scale.Codec.readBool
  pure (justification, grandpaNoteStalled)

/-! ## Ancestry -/

/-- Why `ancestry` fails. -/
inductive GrandpaError where
  | notDescendent
  | never
  deriving DecidableEq

/-- `AncestryChain::new`. -/
def ancestryChain (ancestry : List Header) : AncestryChain :=
  ancestry.foldl (fun map h => map.insert (G.hash h) h) ∅

/-- The loop of `ancestry`. -/
def ancestryLoop (chain : AncestryChain) (base : H256) :
    ℕ → H256 → List H256 → Except GrandpaError (List H256)
  | 0, _, _ => .error .never
  | fuel + 1, currentHash, route =>
    if currentHash = base then .ok route
    else
      match chain.lookup currentHash with
      | some currentHeader =>
        ancestryLoop chain base fuel currentHeader.parentHash (route ++ [currentHeader.parentHash])
      | none => .error .notDescendent

/-- `ancestry`.  A loop that takes more rounds than there are headers goes on forever. -/
def ancestry (chain : AncestryChain) (base block : H256) : Except GrandpaError (List H256) :=
  (ancestryLoop chain base (chain.keys.length + 1) block []).map List.dropLast

/-! ## Verification -/

/-- The precommit for the lowest block. -/
def lowestPrecommit (commit : Commit) : Option Precommit :=
  (commit.precommits.map (·.precommit)).argmin (·.targetNumber)

/-- A round of the loop over the precommits, with the hashes visited so far. -/
def visitPrecommit (chain : AncestryChain) (round : ℕ) (setId : UInt64) (stalled : Bool)
    (baseHash : H256) (visited : Finset H256) (signed : SignedPrecommit) :
    Except Failure (Finset H256) :=
  if (G.checkMessageSignature signed.precommit signed.id signed.signature round setId || stalled) =
      false then
    .error (.badJustification "invalid signature for precommit in grandpa justification")
  else if baseHash = signed.precommit.targetHash then .ok visited
  else
    match ancestry chain baseHash signed.precommit.targetHash with
    | .ok route => .ok (insert signed.precommit.targetHash visited ∪ route.toFinset)
    | .error .notDescendent =>
      .error (.badJustification "invalid precommit ancestry proof in grandpa justification")
    | .error .never => .error .never

/-- `verify_with_voter_set`. -/
def verifyWithVoterSet (justification : GrandpaJustification) (stalled : Bool) (setId : UInt64)
    (voters : G.VoterSet) : Except Failure Unit :=
  let chain := ancestryChain G justification.votesAncestries
  if (G.validateCommit justification.commit voters chain || stalled) = false then
    .error (.badJustification "invalid commit in grandpa justification")
  else
    match lowestPrecommit justification.commit with
    | none => .error .panic
    | some lowest => do
      let visited ← justification.commit.precommits.foldlM
        (visitPrecommit G chain justification.round setId stalled lowest.targetHash) ∅
      if visited ≠ (justification.votesAncestries.map G.hash).toFinset then
        throw (.badJustification
          "invalid precommit ancestries in grandpa justification with unused headers")
      else pure ()

/-- `decode_and_verify_finalizes`. -/
def decodeAndVerifyFinalizes (encoded : List UInt8) (finalizedTarget : H256 × ℕ) (setId : UInt64)
    (voters : G.VoterSet) (stalled : Bool) : Except Failure Unit :=
  match decodeWrapper G encoded with
  | none => .error .justificationDecode
  | some ((justification, _), _) =>
    if (justification.commit.targetHash, justification.commit.targetNumber) ≠ finalizedTarget then
      .error (.badJustification "invalid commit target in grandpa justification")
    else verifyWithVoterSet G justification stalled setId voters

/-! ## Routes -/

/-- The way from a block down to the base, by the hashes of its blocks without the base. -/
inductive Route (chain : AncestryChain) (base : H256) : H256 → List H256 → Prop
  | base : Route chain base base []
  | up {block : H256} {header : Header} {route : List H256} (hne : block ≠ base)
      (hheader : chain.lookup block = some header) (hroute : Route chain base header.parentHash route) :
      Route chain base block (block :: route)

variable {G} {chain : AncestryChain} {base block : H256} {route route' : List H256}

/-- There is only one way. -/
theorem Route.unique (h : Route chain base block route) (h' : Route chain base block route') :
    route = route' := by
  induction h generalizing route' with
  | base =>
    cases h' with
    | base => rfl
    | up hne _ _ => exact absurd rfl hne
  | up hne hheader _ ih =>
    cases h' with
    | base => exact absurd rfl hne
    | up _ hheader' hroute' =>
      obtain rfl := Option.mem_unique hheader hheader'
      rw [ih hroute']

theorem Route.exists_mem_iff (h : Route chain base block route) {hash : H256} :
    (∃ route', Route chain base block route' ∧ hash ∈ route') ↔ hash ∈ route := by
  constructor
  · rintro ⟨route', hroute', hmem⟩
    rwa [h.unique hroute']
  · intro hmem
    exact ⟨route, h, hmem⟩

/-- Every block on the way has its own way, which is the rest. -/
theorem Route.drop {front back : List H256} {x : H256}
    (h : Route chain base block (front ++ x :: back)) : Route chain base x (x :: back) := by
  induction front generalizing block with
  | nil =>
    cases h with
    | up hne hheader hroute => exact .up hne hheader hroute
  | cons y front ih =>
    cases h with
    | up _ _ hroute => exact ih hroute

variable (h : Route chain base block route)
include h

/-- No block is met twice. -/
theorem Route.nodup : route.Nodup := by
  induction h with
  | base => exact List.nodup_nil
  | @up block header route hne hheader hroute ih =>
    refine List.nodup_cons.mpr ⟨?_, ih⟩
    intro hmem
    obtain ⟨front, back, rfl⟩ := List.append_of_mem hmem
    have hsame := (Route.up hne hheader hroute).unique hroute.drop
    have hlength := congrArg List.length hsame
    rw [List.length_cons, List.length_append] at hlength
    omega

/-- All blocks on the way have their headers in the chain. -/
theorem Route.subset : route ⊆ chain.keys := by
  induction h with
  | base => exact List.nil_subset _
  | up _ hheader _ ih =>
    exact List.cons_subset.mpr
      ⟨AList.mem_keys.mp (StorageMap.mem_iff_exists_lookup.mpr ⟨_, hheader⟩), ih⟩

theorem Route.length_le : route.length ≤ chain.keys.length :=
  (List.subperm_of_subset h.nodup h.subset).length_le

/-- A way starts at its block. -/
theorem Route.exists_path : ∃ path, route ++ [base] = block :: path := by
  cases h with
  | base => exact ⟨[], rfl⟩
  | up _ _ _ => exact ⟨_, rfl⟩

omit h

/-- The loop follows the way; `path` is what it notes of it, the parents down to the base. -/
theorem ancestryLoop_eq_ok {fuel : ℕ} {acc result : List H256} :
    ancestryLoop chain base fuel block acc = .ok result ↔
      ∃ route path, Route chain base block route ∧ route.length < fuel ∧
        route ++ [base] = block :: path ∧ result = acc ++ path := by
  induction fuel generalizing block acc with
  | zero =>
    constructor
    · intro h
      cases h
    · omega
  | succ fuel ih =>
    unfold ancestryLoop
    split_ifs with hbase
    · subst hbase
      constructor
      · intro h
        obtain rfl := Except.ok.inj h
        exact ⟨[], [], .base, Nat.succ_pos _, rfl, (List.append_nil _).symm⟩
      · rintro ⟨route, path, hroute, -, hpath, rfl⟩
        obtain rfl := hroute.unique .base
        obtain rfl : [] = path := (List.cons.inj hpath).2
        rw [List.append_nil]
    · cases hheader : chain.lookup block with
      | none =>
        constructor
        · intro h
          cases h
        · rintro ⟨route, path, hroute, -⟩
          cases hroute with
          | base => exact absurd rfl hbase
          | up _ hheader' _ =>
            rw [hheader] at hheader'
            cases hheader'
      | some header =>
        rw [ih]
        constructor
        · rintro ⟨route, path, hroute, hlt, hpath, rfl⟩
          refine ⟨block :: route, header.parentHash :: path, .up hbase hheader hroute, ?_, ?_, ?_⟩
          · rw [List.length_cons]
            omega
          · rw [List.cons_append, hpath]
          · rw [List.append_assoc, List.singleton_append]
        · rintro ⟨route, path, hroute, hlt, hpath, rfl⟩
          cases hroute with
          | base => exact absurd rfl hbase
          | @up _ header' route _ hheader' hroute =>
            obtain rfl := Option.mem_unique hheader hheader'
            rw [List.length_cons] at hlt
            obtain ⟨rest, hrest⟩ := hroute.exists_path
            rw [List.cons_append, hrest] at hpath
            obtain rfl := (List.cons.inj hpath).2
            exact ⟨route, rest, hroute, by omega, hrest, by
              rw [List.append_assoc, List.singleton_append]⟩

/-- What `ancestry` returns for another block than the base. -/
theorem ancestry_eq_ok {result : List H256} (hne : block ≠ base) :
    ancestry chain base block = .ok result ↔ Route chain base block (block :: result) := by
  unfold ancestry
  constructor
  · intro h
    cases hloop : ancestryLoop chain base (chain.keys.length + 1) block [] with
    | error e =>
      rw [hloop] at h
      cases h
    | ok full =>
      rw [hloop] at h
      obtain rfl : full.dropLast = result := Except.ok.inj h
      obtain ⟨route, path, hroute, -, hpath, rfl⟩ := ancestryLoop_eq_ok.mp hloop
      cases hroute with
      | base => exact absurd rfl hne
      | @up _ header route _ hheader hroute =>
        obtain rfl := (List.cons.inj hpath).2
        show Route chain base block (block :: (route ++ [base]).dropLast)
        rw [List.dropLast_concat]
        exact .up hne hheader hroute
  · intro h
    have hlength := h.length_le
    have hloop : ancestryLoop chain base (chain.keys.length + 1) block [] = .ok (result ++ [base]) :=
      ancestryLoop_eq_ok.mpr ⟨_, _, h, Nat.lt_succ_of_le hlength, rfl, rfl⟩
    rw [hloop]
    show Except.ok (result ++ [base]).dropLast = _
    rw [List.dropLast_concat]

/-! ## What a verified justification is -/

/-- A justification that is valid for a header under an authority set: the commit is for the
header, `validate_commit` accepts it, the precommits are signed for the set, and the headers that
come with it are those on the ways from the targets of the precommits to the lowest one. -/
structure Finalizes (G : Grandpa) (justification : GrandpaJustification)
    (target : H256 × ℕ) (setId : UInt64) (voters : G.VoterSet) (lowest : Precommit) : Prop where
  target_eq : (justification.commit.targetHash, justification.commit.targetNumber) = target
  commit : G.validateCommit justification.commit voters
    (ancestryChain G justification.votesAncestries) = true
  signatures : ∀ signed ∈ justification.commit.precommits,
    G.checkMessageSignature signed.precommit signed.id signed.signature justification.round setId =
      true
  lowest_eq : lowestPrecommit justification.commit = some lowest
  routes : ∀ signed ∈ justification.commit.precommits, ∃ route,
    Route (ancestryChain G justification.votesAncestries) lowest.targetHash
      signed.precommit.targetHash route
  ancestries : ∀ hash, (∃ header ∈ justification.votesAncestries, G.hash header = hash) ↔
    ∃ signed ∈ justification.commit.precommits, ∃ route,
      Route (ancestryChain G justification.votesAncestries) lowest.targetHash
        signed.precommit.targetHash route ∧ hash ∈ route

variable {round : ℕ} {setId : UInt64} {voters : G.VoterSet} {visited visited' : Finset H256}
  {justification : GrandpaJustification}

theorem visitPrecommit_eq_ok {signed : SignedPrecommit} :
    visitPrecommit G chain round setId false base visited signed = .ok visited' ↔
      G.checkMessageSignature signed.precommit signed.id signed.signature round setId = true ∧
        ∃ route, Route chain base signed.precommit.targetHash route ∧
          visited' = visited ∪ route.toFinset := by
  unfold visitPrecommit
  rw [Bool.or_false]
  split_ifs with hsig hbase
  · constructor
    · intro h
      cases h
    · rintro ⟨hsig', -⟩
      rw [hsig] at hsig'
      cases hsig'
  · rw [Bool.not_eq_false] at hsig
    subst hbase
    constructor
    · intro h
      obtain rfl := Except.ok.inj h
      exact ⟨hsig, [], .base, by rw [List.toFinset_nil, Finset.union_empty]⟩
    · rintro ⟨-, route, hroute, rfl⟩
      obtain rfl := hroute.unique .base
      rw [List.toFinset_nil, Finset.union_empty]
  · rw [Bool.not_eq_false] at hsig
    constructor
    · intro h
      split at h
      · rename_i path hpath
        obtain rfl := Except.ok.inj h
        refine ⟨hsig, _, (ancestry_eq_ok (Ne.symm hbase)).mp hpath, ?_⟩
        rw [List.toFinset_cons, Finset.union_insert, Finset.insert_union]
      · cases h
      · cases h
    · rintro ⟨-, route, hroute, rfl⟩
      cases hroute with
      | base => exact absurd rfl hbase
      | up hne hheader hroute =>
        rw [(ancestry_eq_ok (Ne.symm hbase)).mpr (.up hne hheader hroute)]
        dsimp only
        rw [List.toFinset_cons, Finset.union_insert, Finset.insert_union]

/-- The loop over the precommits collects the blocks on all ways. -/
theorem foldlM_visitPrecommit_eq_ok {precommits : List SignedPrecommit} :
    precommits.foldlM (visitPrecommit G chain round setId false base) visited = .ok visited' ↔
      (∀ signed ∈ precommits,
        G.checkMessageSignature signed.precommit signed.id signed.signature round setId = true) ∧
      (∀ signed ∈ precommits, ∃ route, Route chain base signed.precommit.targetHash route) ∧
      ∀ hash, hash ∈ visited' ↔ hash ∈ visited ∨ ∃ signed ∈ precommits, ∃ route,
        Route chain base signed.precommit.targetHash route ∧ hash ∈ route := by
  induction precommits generalizing visited with
  | nil =>
    constructor
    · intro h
      obtain rfl := Except.ok.inj h
      simp
    · rintro ⟨-, -, h⟩
      refine congrArg Except.ok (Finset.ext fun hash => ?_)
      rw [h hash]
      simp
  | cons signed rest ih =>
    rw [List.foldlM_cons, Dispatch.bind_eq_ok]
    constructor
    · rintro ⟨visited₁, hvisit, hrest⟩
      obtain ⟨hsig, route, hroute, rfl⟩ := visitPrecommit_eq_ok.mp hvisit
      obtain ⟨hsigs, hroutes, hmem⟩ := ih.mp hrest
      refine ⟨List.forall_mem_cons.mpr ⟨hsig, hsigs⟩,
        List.forall_mem_cons.mpr ⟨⟨route, hroute⟩, hroutes⟩, fun hash => ?_⟩
      rw [hmem, List.exists_mem_cons_iff, hroute.exists_mem_iff, Finset.mem_union,
        List.mem_toFinset, or_assoc]
    · rintro ⟨hsigs, hroutes, hmem⟩
      obtain ⟨hsig, hsigs⟩ := List.forall_mem_cons.mp hsigs
      obtain ⟨⟨route, hroute⟩, hroutes⟩ := List.forall_mem_cons.mp hroutes
      refine ⟨visited ∪ route.toFinset, visitPrecommit_eq_ok.mpr ⟨hsig, route, hroute, rfl⟩,
        ih.mpr ⟨hsigs, hroutes, fun hash => ?_⟩⟩
      rw [hmem, List.exists_mem_cons_iff, hroute.exists_mem_iff, Finset.mem_union,
        List.mem_toFinset, or_assoc]

/-- **Verification accepts exactly the valid justifications.** -/
theorem verify_eq_ok {target : H256 × ℕ} :
    (justification.commit.targetHash, justification.commit.targetNumber) = target ∧
        verifyWithVoterSet G justification false setId voters = .ok () ↔
      ∃ lowest, Finalizes G justification target setId voters lowest := by
  have hhashes : ∀ hash, hash ∈ (justification.votesAncestries.map G.hash).toFinset ↔
      ∃ header ∈ justification.votesAncestries, G.hash header = hash := by
    intro hash
    rw [List.mem_toFinset, List.mem_map]
  unfold verifyWithVoterSet
  simp only [Bool.or_false]
  constructor
  · rintro ⟨htarget, h⟩
    split_ifs at h with hcommit
    split at h
    · cases h
    · rename_i lowest hlowest
      obtain ⟨visited, hvisited, h⟩ := Dispatch.bind_eq_ok.mp h
      obtain ⟨hsigs, hroutes, hmem⟩ := foldlM_visitPrecommit_eq_ok.mp hvisited
      split_ifs at h with hsame
      rw [not_not] at hsame
      refine ⟨lowest, htarget, Bool.of_not_eq_false hcommit, hsigs, hlowest, hroutes, ?_⟩
      intro hash
      rw [← hhashes, ← hsame, hmem]
      simp
  · rintro ⟨lowest, h⟩
    refine ⟨h.target_eq, ?_⟩
    have hvisited := (@foldlM_visitPrecommit_eq_ok G _ lowest.targetHash justification.round setId ∅
      (justification.votesAncestries.map G.hash).toFinset justification.commit.precommits).mpr
      ⟨h.signatures, h.routes, fun hash => by
        rw [hhashes, h.ancestries]
        simp⟩
    rw [if_neg (by rw [h.commit]; decide), h.lowest_eq]
    dsimp only
    rw [hvisited]
    exact if_neg (not_not.mpr rfl)

/-- What is accepted is a valid justification, and a flag. -/
theorem decodeAndVerifyFinalizes_eq_ok {encoded : List UInt8} {target : H256 × ℕ} :
    decodeAndVerifyFinalizes G encoded target setId voters false = .ok () ↔
      ∃ justification flag rest lowest,
        decodeWrapper G encoded = some ((justification, flag), rest) ∧
          Finalizes G justification target setId voters lowest := by
  unfold decodeAndVerifyFinalizes
  constructor
  · intro h
    split at h
    · cases h
    · rename_i justification flag rest hdecode
      split_ifs at h with htarget
      obtain ⟨lowest, hvalid⟩ := verify_eq_ok.mp ⟨not_not.mp htarget, h⟩
      exact ⟨justification, flag, rest, lowest, hdecode, hvalid⟩
  · rintro ⟨justification, flag, rest, lowest, hdecode, hvalid⟩
    obtain ⟨htarget, hverify⟩ := verify_eq_ok.mpr ⟨lowest, hvalid⟩
    rw [hdecode]
    dsimp only
    rw [if_neg (not_not.mpr htarget), hverify]

end Light
