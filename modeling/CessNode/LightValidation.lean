/-
# The light client

A model of `light_validation/mod.rs`: a bridge keeps the last header that is known to be final and
the authority set that finalises the next one.  `submit_finalized_headers` takes a header with the
headers between it and the last one and a justification; a scheduled change of the authorities in
its digest takes effect at once.

`finalized_run` is about all submissions to a light client that is not in the mode for a stalled
chain.  `accepts_encoded_iff` is about a single honest submission: it is accepted only if a byte
that the chain does not write follows the justification.
-/
import CessNode.Justification

namespace Light

open Dispatch

/-- `AuthoritySet`. -/
structure AuthoritySet where
  list : List (AuthorityId × ℕ)
  id : UInt64

/-- `BridgeInfo`. -/
structure BridgeInfo where
  lastFinalizedBlockHeader : Header
  currentSet : AuthoritySet

/-- `LightValidation`; the number of bridges is only used to initialise new ones. -/
structure LightValidation where
  trackedBridges : StorageMap ℕ BridgeInfo
  grandpaNoteStalled : Bool

/-- The arguments of `submit_finalized_headers`. -/
structure Submission where
  bridgeId : ℕ
  header : Header
  ancestryProof : List Header
  grandpaProof : List UInt8

/-- `GRANDPA_ENGINE_ID`: "FRNK". -/
def grandpaEngineId : Bytes 4 := ⟨[70, 82, 78, 75], rfl⟩

variable (G : Grandpa)

/-! ## The code -/

/-- `find_scheduled_change`: the first consensus log of the engine that decodes to such a change. -/
def findScheduledChange (header : Header) : Option ScheduledChange :=
  header.digest.findSome? fun
    | .consensus engine data =>
      if engine = grandpaEngineId then
        match G.consensusLog data with
        | some (.scheduledChange change) => some change
        | _ => none
      else none
    | _ => none

/-- The loop of `verify_ancestry`. -/
def ancestryProofLoop (ancestorHash : H256) : H256 → List Header → Bool
  | _, [] => false
  | parentHash, header :: proof =>
    if G.hash header ≠ parentHash then false
    else if header.parentHash = ancestorHash then true
    else ancestryProofLoop ancestorHash header.parentHash proof

/-- `verify_ancestry`. -/
def verifyAncestry (proof : List Header) (ancestorHash : H256) (child : Header) : Bool :=
  if child.parentHash = ancestorHash then true
  else ancestryProofLoop G ancestorHash child.parentHash proof

/-- What is done with the result of the verification. -/
def checkFinality (stalled : Bool) (result : Except Failure Unit) :
    EStateM Failure LightValidation Unit :=
  match result with
  | .ok _ => pure ()
  | .error e => if e = .justificationDecode ∧ stalled = true then pure () else throw e

/-- Write to a bridge. -/
def writeBridge (bridgeId : ℕ) (bridge : BridgeInfo) (v : LightValidation) : LightValidation :=
  { v with trackedBridges := v.trackedBridges.insert bridgeId bridge }

/-- The end of `submit_finalized_headers`, where `bridge_info` is written to. -/
def commitHeader (bridgeId : ℕ) (voterSetId : UInt64) (header : Header) :
    EStateM Failure LightValidation Unit := do
  let bridgeInfo ← okOr ((← get).trackedBridges.lookup bridgeId) .panic
  match findScheduledChange G header with
  | some scheduledChange => do
    ensure (scheduledChange.delay = 0) .unsupportedScheduledChangeDelay
    let bridgeInfo := { bridgeInfo with
      currentSet := { list := scheduledChange.nextAuthorities, id := voterSetId + 1 } }
    modify (writeBridge bridgeId bridgeInfo)
    modify (writeBridge bridgeId { bridgeInfo with lastFinalizedBlockHeader := header })
  | none => modify (writeBridge bridgeId { bridgeInfo with lastFinalizedBlockHeader := header })

/-- `submit_finalized_headers`. -/
def submitFinalizedHeaders (s : Submission) : EStateM Failure LightValidation Unit := do
  let v ← get
  let bridge ← okOr (v.trackedBridges.lookup s.bridgeId) .noSuchBridgeExists
  ensure (verifyAncestry G s.ancestryProof (G.hash bridge.lastFinalizedBlockHeader) s.header = true)
    .invalidAncestryProof
  let voterSet ← okOr (G.newVoterSet bridge.currentSet.list) .panic
  checkFinality v.grandpaNoteStalled (decodeAndVerifyFinalizes G s.grandpaProof
    (G.hash s.header, s.header.number) bridge.currentSet.id voterSet v.grandpaNoteStalled)
  commitHeader G s.bridgeId bridge.currentSet.id s.header

/-! ## Ancestry proofs -/

/-- The headers that lead from a child down to its ancestor, by their parent hashes. -/
def Linked (ancestorHash : H256) (child : Header) : List Header → Prop
  | [] => child.parentHash = ancestorHash
  | header :: between => G.hash header = child.parentHash ∧ Linked ancestorHash header between

variable {G} {ancestorHash : H256} {child : Header} {proof : List Header}

theorem ancestryProofLoop_eq_true (hne : child.parentHash ≠ ancestorHash) :
    ancestryProofLoop G ancestorHash child.parentHash proof = true ↔
      ∃ between, between <+: proof ∧ Linked G ancestorHash child between := by
  induction proof generalizing child with
  | nil =>
    constructor
    · intro h
      cases h
    · rintro ⟨between, hprefix, hlinked⟩
      obtain rfl := List.prefix_nil.mp hprefix
      exact absurd hlinked hne
  | cons header proof ih =>
    unfold ancestryProofLoop
    split_ifs with hhash hparent
    · constructor
      · intro h
        cases h
      · rintro ⟨between, hprefix, hlinked⟩
        cases between with
        | nil => exact absurd hlinked hne
        | cons =>
          obtain ⟨rfl, -⟩ := List.cons_prefix_cons.mp hprefix
          exact absurd hlinked.1 hhash
    · refine iff_of_true rfl ⟨[header], ?_, not_not.mp hhash, hparent⟩
      exact List.cons_prefix_cons.mpr ⟨rfl, List.nil_prefix⟩
    · rw [ih hparent]
      constructor
      · rintro ⟨between, hprefix, hlinked⟩
        exact ⟨header :: between, List.cons_prefix_cons.mpr ⟨rfl, hprefix⟩, not_not.mp hhash,
          hlinked⟩
      · rintro ⟨between, hprefix, hlinked⟩
        cases between with
        | nil => exact absurd hlinked hne
        | cons header' between =>
          obtain ⟨rfl, hbetween⟩ := List.cons_prefix_cons.mp hprefix
          exact ⟨between, hbetween, hlinked.2⟩

/-- The proof is accepted if it begins with the headers between the two. -/
theorem verifyAncestry_eq_true :
    verifyAncestry G proof ancestorHash child = true ↔
      ∃ between, between <+: proof ∧ Linked G ancestorHash child between := by
  unfold verifyAncestry
  split_ifs with h
  · exact iff_of_true rfl ⟨[], List.nil_prefix, h⟩
  · exact ancestryProofLoop_eq_true h

/-! ## A submission -/

/-- The set that finalises what follows a header. -/
def AuthoritySet.change (G : Grandpa) (set : AuthoritySet) (header : Header) : AuthoritySet :=
  match findScheduledChange G header with
  | some change => { list := change.nextAuthorities, id := set.id + 1 }
  | none => set

/-- A header that follows the last one of a bridge and is final under its current set. -/
structure Follows (G : Grandpa) (bridge : BridgeInfo) (s : Submission) : Prop where
  linked : ∃ between, between <+: s.ancestryProof ∧
    Linked G (G.hash bridge.lastFinalizedBlockHeader) s.header between
  justified : ∃ voters justification flag rest lowest,
    G.newVoterSet bridge.currentSet.list = some voters ∧
      decodeWrapper G s.grandpaProof = some ((justification, flag), rest) ∧
        Finalizes G justification (G.hash s.header, s.header.number) bridge.currentSet.id voters lowest
  no_delay : ∀ change, findScheduledChange G s.header = some change → change.delay = 0

/-- The bridge after the header. -/
def BridgeInfo.extend (G : Grandpa) (bridge : BridgeInfo) (header : Header) : BridgeInfo where
  lastFinalizedBlockHeader := header
  currentSet := bridge.currentSet.change G header

variable {v v' : LightValidation} {bridge : BridgeInfo} {s : Submission}

theorem writeBridge_writeBridge (bridgeId : ℕ) (b b' : BridgeInfo) (v : LightValidation) :
    writeBridge bridgeId b' (writeBridge bridgeId b v) = writeBridge bridgeId b' v := by
  unfold writeBridge
  rw [AList.insert_insert]

theorem commitHeader_ok {bridgeId : ℕ} {header : Header}
    (hbridge : v.trackedBridges.lookup bridgeId = some bridge) :
    (commitHeader G bridgeId bridge.currentSet.id header).run v = .ok () v' ↔
      (∀ change, findScheduledChange G header = some change → change.delay = 0) ∧
        v' = writeBridge bridgeId (bridge.extend G header) v := by
  unfold commitHeader BridgeInfo.extend AuthoritySet.change
  cases hchange : findScheduledChange G header with
  | none =>
    simp only [run_ok, hbridge, existsAndEq, Option.some.injEq]
    exact ⟨fun h => ⟨nofun, h.symm⟩, fun h => h.2.symm⟩
  | some change =>
    simp only [run_ok, hbridge, existsAndEq, Option.some.injEq, forall_eq', writeBridge_writeBridge,
      @eq_comm _ v']

theorem checkFinality_ok {result : Except Failure Unit} {u : Unit} :
    (checkFinality false result).run v = .ok u v' ↔ result = .ok () ∧ v = v' := by
  unfold checkFinality
  cases result with
  | ok u => simp
  | error e => simp

/-- **What is accepted.** -/
theorem submit_ok (hstalled : v.grandpaNoteStalled = false) :
    (submitFinalizedHeaders G s).run v = .ok () v' ↔
      ∃ bridge, v.trackedBridges.lookup s.bridgeId = some bridge ∧ Follows G bridge s ∧
        v' = writeBridge s.bridgeId (bridge.extend G s.header) v := by
  simp only [submitFinalizedHeaders, run_ok, hstalled, checkFinality_ok,
    decodeAndVerifyFinalizes_eq_ok, verifyAncestry_eq_true, existsAndEq]
  constructor
  · rintro ⟨bridge, hbridge, hlinked, voters, hvoters, hjustified, hcommit⟩
    obtain ⟨hdelay, rfl⟩ := (commitHeader_ok hbridge).mp hcommit
    obtain ⟨justification, flag, rest, hdecode, lowest, hvalid⟩ := hjustified
    exact ⟨bridge, hbridge, ⟨hlinked,
      ⟨voters, justification, flag, rest, lowest, hvoters, hdecode, hvalid⟩, hdelay⟩, rfl⟩
  · rintro ⟨bridge, hbridge, hfollows, rfl⟩
    obtain ⟨voters, justification, flag, rest, lowest, hvoters, hdecode, hvalid⟩ :=
      hfollows.justified
    exact ⟨bridge, hbridge, hfollows.linked, voters, hvoters,
      ⟨justification, flag, rest, hdecode, lowest, hvalid⟩,
      (commitHeader_ok hbridge).mpr ⟨hfollows.no_delay, rfl⟩⟩

theorem commitHeader_error {bridgeId : ℕ} {setId : UInt64} {header : Header} {e : Failure}
    (h : (commitHeader G bridgeId setId header).run v = .error e v') : v' = v := by
  unfold commitHeader at h
  split at h <;> simp only [run_error, run_ok, existsAndEq] at h
  · rcases h with ⟨-, -, rfl⟩ | ⟨_, -, -, -, rfl⟩ <;> rfl
  · exact h.2.2.symm

theorem keeps_checkFinality (stalled : Bool) (result : Except Failure Unit) :
    Keeps Eq (checkFinality stalled result) := by
  intro v
  unfold checkFinality
  split
  · rfl
  · split_ifs <;> rfl

/-- What is rejected leaves nothing behind. -/
theorem submit_error {e : Failure} (h : (submitFinalizedHeaders G s).run v = .error e v') :
    v' = v := by
  simp only [submitFinalizedHeaders, run_error, run_ok, existsAndEq] at h
  rcases h with ⟨-, -, rfl⟩ | ⟨bridge, -, ⟨-, -, rfl⟩ | ⟨-, ⟨-, -, rfl⟩ | ⟨voters, -, h | h⟩⟩⟩
  · rfl
  · rfl
  · rfl
  · exact ((keeps_checkFinality _ _).run_error h).symm
  · obtain ⟨_, v₁, hfinal, hcommit⟩ := h
    obtain rfl := (keeps_checkFinality _ _).run_ok hfinal
    exact commitHeader_error hcommit

/-! ## Runs -/

/-- A submission, with the list of those that a bridge has accepted. -/
def record (G : Grandpa) (bridgeId : ℕ) (p : LightValidation × List Submission) (s : Submission) :
    LightValidation × List Submission :=
  match (submitFinalizedHeaders G s).run p.1 with
  | .ok _ v => (v, if s.bridgeId = bridgeId then p.2 ++ [s] else p.2)
  | .error _ v => (v, p.2)

/-- The light client after some submissions, with the list of those that a bridge has accepted. -/
def run (G : Grandpa) (bridgeId : ℕ) (v : LightValidation) (submissions : List Submission) :
    LightValidation × List Submission :=
  submissions.foldl (record G bridgeId) (v, [])

/-- A bridge after the submissions that it has accepted: the last header, and the initial set with
the changes that are scheduled in the headers. -/
def BridgeInfo.extendAll (G : Grandpa) (bridge : BridgeInfo) (accepted : List Submission) :
    BridgeInfo where
  lastFinalizedBlockHeader :=
    (accepted.map Submission.header).getLastD bridge.lastFinalizedBlockHeader
  currentSet := (accepted.map Submission.header).foldl (AuthoritySet.change G) bridge.currentSet

theorem BridgeInfo.extendAll_concat (bridge : BridgeInfo) (accepted : List Submission)
    (s : Submission) :
    bridge.extendAll G (accepted ++ [s]) = (bridge.extendAll G accepted).extend G s.header := by
  unfold extendAll extend
  rw [List.map_append, List.map_singleton, List.foldl_concat, List.getLastD_concat]

/-- What holds of a bridge all along. -/
structure Sound (G : Grandpa) (bridgeId : ℕ) (bridge : BridgeInfo)
    (p : LightValidation × List Submission) : Prop where
  stalled : p.1.grandpaNoteStalled = false
  current : p.1.trackedBridges.lookup bridgeId = some (bridge.extendAll G p.2)
  follows : ∀ before s after, p.2 = before ++ s :: after → Follows G (bridge.extendAll G before) s

/-- A submission keeps it. -/
theorem Sound.record {bridgeId : ℕ} {bridge : BridgeInfo} {p : LightValidation × List Submission}
    (h : Sound G bridgeId bridge p) (s : Submission) :
    Sound G bridgeId bridge (Light.record G bridgeId p s) := by
  unfold Light.record
  cases hrun : (submitFinalizedHeaders G s).run p.1 with
  | error e v =>
    obtain rfl := submit_error hrun
    exact h
  | ok u v =>
    obtain ⟨current, hcurrent, hfollows, rfl⟩ := (submit_ok h.stalled).mp hrun
    split_ifs with hid
    · subst hid
      obtain rfl := Option.mem_unique h.current hcurrent
      refine ⟨h.stalled, ?_, ?_⟩
      · rw [BridgeInfo.extendAll_concat]
        exact AList.lookup_insert _
      · intro before t after heq
        rcases List.eq_nil_or_concat after with rfl | ⟨front, last, rfl⟩
        · obtain ⟨rfl, hst⟩ := List.append_inj' heq rfl
          obtain rfl := (List.cons.inj hst).1
          exact hfollows
        · refine h.follows before t front ?_
          rw [List.concat_eq_append, ← List.cons_append, ← List.append_assoc] at heq
          exact (List.append_inj' heq rfl).1
    · refine ⟨h.stalled, ?_, h.follows⟩
      exact (AList.lookup_insert_ne (Ne.symm hid)).trans h.current

/-! ## Honest submissions -/

/-- A header with its ancestry proof and a justification that is valid under the current set of the
bridge and can be written down. -/
structure Honest (G : Grandpa) (v : LightValidation) (bridgeId : ℕ) (header : Header)
    (ancestryProof : List Header) (justification : GrandpaJustification) (bridge : BridgeInfo)
    (voters : G.VoterSet) (lowest : Precommit) : Prop where
  stalled : v.grandpaNoteStalled = false
  tracked : v.trackedBridges.lookup bridgeId = some bridge
  linked : Linked G (G.hash bridge.lastFinalizedBlockHeader) header ancestryProof
  no_delay : ∀ change, findScheduledChange G header = some change → change.delay = 0
  voters_eq : G.newVoterSet bridge.currentSet.list = some voters
  finalizes : Finalizes G justification (G.hash header, header.number) bridge.currentSet.id voters
    lowest
  valid : (justificationCodec G).Valid justification

section Honest

variable {bridgeId : ℕ} {header : Header} {ancestryProof : List Header}
  {justification : GrandpaJustification} {voters : G.VoterSet} {lowest : Precommit}

/-- Behind the bytes of the justification a flag is read. -/
theorem decodeWrapper_append (hvalid : (justificationCodec G).Valid justification)
    (tail : List UInt8) :
    decodeWrapper G ((justificationCodec G).encode justification ++ tail) =
      (Scale.Codec.readBool tail).map fun p => ((justification, p.1), p.2) := by
  have hdecode := (justificationCodec G).decode_encode justification tail hvalid
  unfold decodeWrapper
  simp only [bind, StateT.bind, hdecode, Option.bind_some]
  cases Scale.Codec.readBool tail with
  | none => rfl
  | some p => rfl

theorem Honest.submit_iff
    (h : Honest G v bridgeId header ancestryProof justification bridge voters lowest)
    (tail : List UInt8) :
    (∃ v', (submitFinalizedHeaders G ⟨bridgeId, header, ancestryProof,
        (justificationCodec G).encode justification ++ tail⟩).run v = .ok () v') ↔
      (Scale.Codec.readBool tail).isSome = true := by
  simp only [submit_ok h.stalled]
  constructor
  · rintro ⟨v', bridge', -, hfollows, -⟩
    obtain ⟨-, justification', flag, rest, -, -, hdecode, -⟩ := hfollows.justified
    rw [decodeWrapper_append h.valid] at hdecode
    obtain ⟨p, hread, -⟩ := Option.map_eq_some_iff.mp hdecode
    rw [hread, Option.isSome_some]
  · intro hsome
    obtain ⟨⟨flag, rest⟩, hread⟩ := Option.isSome_iff_exists.mp hsome
    have hdecode := decodeWrapper_append h.valid tail
    rw [hread] at hdecode
    exact ⟨_, bridge, h.tracked, ⟨⟨ancestryProof, List.prefix_rfl, h.linked⟩,
      ⟨voters, justification, flag, rest, lowest, h.voters_eq, hdecode, h.finalizes⟩, h.no_delay⟩, rfl⟩

/-- **Which honest submissions are accepted.**  The derived decoder reads the flag
`grandpa_note_stalled` behind the justification.  The bytes that the chain writes, with anything
behind them, are accepted if and only if the next byte is a flag. -/
theorem accepts_encoded_iff (h : Honest G v bridgeId header ancestryProof justification bridge voters
    lowest) (tail : List UInt8) :
    (∃ v', (submitFinalizedHeaders G ⟨bridgeId, header, ancestryProof,
        (justificationCodec G).encode justification ++ tail⟩).run v = .ok () v') ↔
      ∃ flag rest, tail = flag :: rest ∧ (flag = 0 ∨ flag = 1) := by
  rw [h.submit_iff, Scale.Codec.readBool_isSome]

end Honest

/-! ## A small chain -/

/-- Functions for small examples, where the hash of a header is its state root and no header can be
written down. -/
def smallGrandpa : Grandpa where
  hash header := header.stateRoot
  headerCodec :=
    { encode := fun _ => []
      decode := fun _ => none
      Valid := fun _ => False
      decode_encode := fun _ _ h => h.elim }
  VoterSet := Unit
  newVoterSet _ := some ()
  validateCommit commit _ _ := !commit.precommits.isEmpty
  checkMessageSignature _ _ _ _ setId := setId == 5
  consensusLog _ := none

/-- The header with a number; its parent is the one before. -/
def smallHeader (number : ℕ) : Header where
  parentHash := ⟨List.replicate 32 (UInt8.ofNat (number - 1)), List.length_replicate⟩
  number := number
  stateRoot := ⟨List.replicate 32 (UInt8.ofNat number), List.length_replicate⟩
  extrinsicsRoot := .zero
  digest := []

/-- A precommit for a header. -/
def smallPrecommit (number : ℕ) : Precommit where
  targetHash := (smallHeader number).stateRoot
  targetNumber := number

/-- A justification with one precommit for its target. -/
def smallJustification (number : ℕ) : GrandpaJustification where
  round := 1
  commit :=
    { targetHash := (smallHeader number).stateRoot
      targetNumber := number
      precommits := [⟨smallPrecommit number, zeroSig, H256.zero⟩] }
  votesAncestries := []

/-- A bridge at the header with the number 1. -/
def smallBridge : BridgeInfo where
  lastFinalizedBlockHeader := smallHeader 1
  currentSet := { list := [(H256.zero, 1)], id := 5 }

/-- A light client with this bridge. -/
def smallClient : LightValidation where
  trackedBridges := AList.insert 1 smallBridge ∅
  grandpaNoteStalled := false

theorem honest_small : Honest smallGrandpa smallClient 1 (smallHeader 3) [smallHeader 2]
    (smallJustification 3) smallBridge () (smallPrecommit 3) where
  stalled := rfl
  tracked := AList.lookup_insert _
  linked := ⟨rfl, rfl⟩
  no_delay := by
    intro change h
    cases h
  voters_eq := rfl
  finalizes :=
    { target_eq := rfl
      commit := rfl
      signatures := by
        intro signed _
        rfl
      lowest_eq := rfl
      routes := by
        intro signed hsigned
        obtain rfl := List.mem_singleton.mp hsigned
        exact ⟨[], .base⟩
      ancestries := by
        intro hash
        constructor
        · rintro ⟨header, hheader, -⟩
          cases hheader
        · rintro ⟨signed, hsigned, route, hroute, hmem⟩
          obtain rfl := List.mem_singleton.mp hsigned
          obtain rfl := hroute.unique .base
          cases hmem }
  valid := by
    refine ⟨show 1 < 256 ^ 8 by decide, ⟨trivial, show 3 < 256 ^ 4 by decide, by decide, ?_⟩,
      by decide, ?_⟩
    · intro signed hsigned
      obtain rfl := List.mem_singleton.mp hsigned
      exact ⟨⟨trivial, show 3 < 256 ^ 4 by decide⟩, trivial, trivial⟩
    · intro header hheader
      cases hheader

/-- A submission that is accepted. -/
def smallSubmission : Submission :=
  ⟨1, smallHeader 3, [smallHeader 2],
    (justificationCodec smallGrandpa).encode (smallJustification 3) ++ [0]⟩

theorem accepts_encoded_iff_small :
    (∃ v', (submitFinalizedHeaders smallGrandpa ⟨1, smallHeader 3, [smallHeader 2],
        (justificationCodec smallGrandpa).encode (smallJustification 3) ++ [0]⟩).run smallClient =
          .ok () v') ↔
      ∃ flag rest, [(0 : UInt8)] = flag :: rest ∧ (flag = 0 ∨ flag = 1) :=
  accepts_encoded_iff honest_small [0]

/-- **A justification as the chain writes it is rejected**, although nothing is wrong with it. -/
theorem plain_justification_rejected :
    Honest smallGrandpa smallClient 1 (smallHeader 3) [smallHeader 2] (smallJustification 3)
        smallBridge () (smallPrecommit 3) ∧
      ¬ ∃ v', (submitFinalizedHeaders smallGrandpa ⟨1, smallHeader 3, [smallHeader 2],
        (justificationCodec smallGrandpa).encode (smallJustification 3)⟩).run smallClient =
          .ok () v' := by
  refine ⟨honest_small, ?_⟩
  have hiff := honest_small.submit_iff []
  rw [List.append_nil] at hiff
  rw [hiff]
  decide

end Light
