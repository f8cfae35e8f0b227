/-
# Who may act for a miner

Four requests carry a signature of the miner.  `OnlyMiner` says what the signature is for: a table is
written or a signed answer given only if it is valid, and a request with a valid one is not refused
as unauthenticated.

The handler of a space proof has the property.  The three handlers of the certifier have the test
the wrong way round: a valid signature is always refused, and an invalid one of the right length
goes on.  For them the property is left exactly for the requests without a valid signature that some
other check stops before the first write (`onlyMiner_iff`).
-/
import CessNode.PoisServer

open Pois Interleaving

namespace PoisServer

variable (T : Params)

/-- The requests that carry a signature of the miner. -/
inductive MinerRequest where
  | certifier (request : Request)
  | singleBlock (req : RequestSpaceProofVerify)

/-! ## Signatures -/

/-- The miner, its signature, and the text that is signed: the request with an empty signature. -/
def Request.signature : Request → List UInt8 × List UInt8 × List UInt8
  | .commitGenChall req =>
    (req.minerId, req.minerSign, T.encodeCommitGen { req with minerSign := [] })
  | .verifyCommitProof req =>
    (req.minerId, req.minerSign, T.encodeVerifyCommit { req with minerSign := [] })
  | .verifyDeletionProof req =>
    (req.minerId, req.minerSign, T.encodeDeletion { req with minerSign := [] })

/-- The signature of a request is valid. -/
def Request.Signed (request : Request) : Prop :=
  verifySignature T (request.signature T).1 (request.signature T).2.1
    (T.sha256 (request.signature T).2.2).val = .ok true

/-- The signature of a request is valid; that of a space proof is over the proof. -/
def MinerRequest.Signed : MinerRequest → Prop
  | .certifier request => request.Signed T
  | .singleBlock req => ∃ proof, req.proof = some proof ∧
      verifySignature T req.minerId req.minerSpaceProofHashPolkadotSig
        (T.sha256 (T.encodeSpaceProof proof)).val = .ok true

/-- The result of a request that runs alone, and the operations on the tables it executes. -/
def MinerRequest.answer (draws : Draws) (draw : ℕ → ℕ) (s : Tables) :
    MinerRequest → Except Failure Response × List TableOp
  | .certifier request =>
    (((handler T (request, draws)).run (exec T) s).1, (handler T (request, draws)).ops (exec T) s)
  | .singleBlock req => (requestSpaceProofVerifySingleBlock T draw req, [])

/-- An answer fits a signature: nothing is written and nothing signed without a valid one, and with
a valid one the request is not unauthenticated. -/
def Respects (signed : Prop) (answer : Except Failure Response × List TableOp) : Prop :=
  (((∃ op ∈ answer.2, op.writes = true) ∨ ∃ response, answer.1 = .ok response) → signed) ∧
    (signed → ∀ message, answer.1 ≠ .error (.status .unauthenticated message))

/-- **Only the miner acts for the miner**, with the request run from the tables `s`. -/
def OnlyMiner (draws : Draws) (draw : ℕ → ℕ) (s : Tables) (r : MinerRequest) : Prop :=
  Respects (r.Signed T) (r.answer T draws draw s)

/-! ## What stops a request before the first write -/

/-- The status of a request is one that the master key signed. -/
def TeeSigned (minerId : List UInt8) (info : PoisInfo) : Prop :=
  ∃ keyInfo, minerKeyInfo minerId info = .ok keyInfo ∧
    verifyPoisStatusSignature T keyInfo info.statusTeeSign = .ok ()

/-- A commit proof of a request has all its parts. -/
def PbCommitProof.Full (proof : PbCommitProof) : Prop :=
  proof.node ≠ none ∧ proof.parents ≠ [] ∧ proof.elders ≠ []

/-- Apart from the validity of the signature, nothing stops the request before its first write. -/
def Request.Passes (s : Tables) : Request → Prop
  | .commitGenChall req =>
    req.minerId.length = 32 ∧ req.minerSign.length = 64 ∧ req.commit ≠ none
  | .verifyCommitProof req =>
    req.minerId.length = 32 ∧ s.verifier.nodeOf req.minerId ≠ none ∧ req.minerSign.length = 64 ∧
      (∃ info, req.poisInfo = some info ∧ TeeSigned T req.minerId info) ∧
      ∃ group, req.commitProofGroup = some group ∧ ∀ row ∈ group, ∀ proof ∈ row, proof.Full
  | .verifyDeletionProof req =>
    req.minerId.length = 32 ∧ req.minerSign.length = 64 ∧ req.witChain ≠ none ∧
      ∃ info, req.poisInfo = some info ∧ TeeSigned T req.minerId info

/-- When a request respects the signature. -/
def MinerRequest.Harmless (s : Tables) : MinerRequest → Prop
  | .certifier request => ¬ request.Signed T ∧ ¬ request.Passes T s
  | .singleBlock _ => True

/-! ## The checks -/

variable {T}

theorem toBytes_of_length {n : ℕ} {l : List UInt8} (h : l.length = n) :
    toBytes n l = some ⟨l, h⟩ := dif_pos h

theorem toBytes_of_length_ne {n : ℕ} {l : List UInt8} (h : l.length ≠ n) : toBytes n l = none :=
  dif_neg h

/-- A signature that can be checked has the lengths of a key and a signature. -/
theorem verifySignature_eq_ok {spk sig raw : List UInt8} {b : Bool}
    (h : verifySignature T spk sig raw = .ok b) : spk.length = 32 ∧ sig.length = 64 := by
  unfold verifySignature at h
  by_cases hspk : spk.length = 32
  · rw [toBytes_of_length hspk] at h
    by_cases hsig : sig.length = 64
    · exact ⟨hspk, hsig⟩
    · rw [toBytes_of_length_ne hsig] at h
      cases h
  · rw [toBytes_of_length_ne hspk] at h
    cases h

theorem exists_verifySignature {spk sig : List UInt8} (hspk : spk.length = 32)
    (hsig : sig.length = 64) (raw : List UInt8) : ∃ b, verifySignature T spk sig raw = .ok b := by
  unfold verifySignature
  rw [toBytes_of_length hspk, toBytes_of_length hsig]
  exact ⟨_, rfl⟩

/-- **The inverted test**: a valid signature is refused. -/
theorem checkMinerSign_of_valid {id sig encoded : List UInt8}
    (h : verifySignature T id sig (T.sha256 encoded).val = .ok true) :
    checkMinerSign T id sig encoded =
      .error (.status .unauthenticated "The miner request signature is incorrect!") := by
  unfold checkMinerSign
  rw [h]

/-- The test passes exactly on what can be checked and is not valid. -/
theorem checkMinerSign_eq_ok {id sig encoded : List UInt8} :
    checkMinerSign T id sig encoded = .ok () ↔
      verifySignature T id sig (T.sha256 encoded).val = .ok false := by
  unfold checkMinerSign
  constructor
  · intro h
    split at h
    · cases h
    · cases h
    · assumption
  · intro h
    rw [h]

theorem checkAddress_eq_ok {account : List UInt8} :
    checkAddress account = .ok () ↔ account.length = 32 := by
  unfold checkAddress
  split_ifs with h
  · constructor
    · intro h'
      cases h'
    · intro h'
      exact absurd h' h
  · exact ⟨fun _ => not_not.mp h, fun _ => rfl⟩

theorem orStatus_eq_ok {α : Type} {o : Option α} {code : Code} {message : String} {a : α} :
    orStatus o code message = .ok a ↔ o = some a :=
  Dispatch.eq_ok_iff_eq_some (f := fun o => orStatus o code message) (fun _ => rfl) nofun

theorem orPanic_eq_ok {α : Type} {o : Option α} {a : α} : orPanic o = .ok a ↔ o = some a :=
  Dispatch.eq_ok_iff_eq_some (fun _ => rfl) nofun

/-- A commit proof is converted exactly if it has all its parts. -/
theorem convertChecked_ok_iff {proof : PbCommitProof} :
    (∃ cp, convertChecked proof = .ok cp) ↔ proof.Full := by
  obtain ⟨node, parents, elders⟩ := proof
  constructor
  · rintro ⟨cp, h⟩
    cases node with
    | none => cases h
    | some node =>
      cases elders with
      | nil => cases h
      | cons elder elders =>
        cases parents with
        | nil => cases h
        | cons parent parents =>
          exact ⟨Option.some_ne_none node, List.cons_ne_nil parent parents,
            List.cons_ne_nil elder elders⟩
  · rintro ⟨hnode, hparents, helders⟩
    obtain ⟨node, rfl⟩ := Option.ne_none_iff_exists'.mp hnode
    obtain ⟨parent, parents, rfl⟩ := List.exists_cons_of_ne_nil hparents
    obtain ⟨elder, elders, rfl⟩ := List.exists_cons_of_ne_nil helders
    exact ⟨_, rfl⟩

theorem convertToCommitProofs_ok_iff {group : List (List PbCommitProof)} :
    (∃ proofs, convertToCommitProofs group = .ok proofs) ↔
      ∀ row ∈ group, ∀ proof ∈ row, proof.Full := by
  simp only [convertToCommitProofs, exists_mapM_ok, convertChecked_ok_iff]

/-- What the handler of commit proofs checks before its first write. -/
theorem commitRequest_ok_iff {req : RequestVerifyCommitAndAccProof} :
    (∃ out, commitRequest T req = .ok out) ↔
      (∃ info, req.poisInfo = some info ∧ TeeSigned T req.minerId info) ∧
        ∃ group, req.commitProofGroup = some group ∧ ∀ row ∈ group, ∀ proof ∈ row, proof.Full := by
  simp only [commitRequest, Dispatch.bind_eq_ok, orStatus_eq_ok, ← convertToCommitProofs_ok_iff]
  constructor
  · rintro ⟨out, info, hinfo, keyInfo, hkey, ⟨⟩, hsig, group, hgroup, proofs, hproofs, -⟩
    exact ⟨⟨info, hinfo, keyInfo, hkey, hsig⟩, group, hgroup, proofs, hproofs⟩
  · rintro ⟨⟨info, hinfo, keyInfo, hkey, hsig⟩, group, hgroup, proofs, hproofs⟩
    exact ⟨_, info, hinfo, keyInfo, hkey, (), hsig, group, hgroup, proofs, hproofs, rfl⟩

/-- What the handler of deletions checks before its first write. -/
theorem deletionRequest_ok_iff {req : RequestVerifyDeletionProof} :
    (∃ out, deletionRequest T req = .ok out) ↔
      req.witChain ≠ none ∧ ∃ info, req.poisInfo = some info ∧ TeeSigned T req.minerId info := by
  simp only [deletionRequest, convertToDeletionProof, Dispatch.bind_eq_ok, orStatus_eq_ok, orPanic_eq_ok]
  constructor
  · rintro ⟨out, proof, ⟨chain, hchain, -⟩, info, hinfo, keyInfo, hkey, ⟨⟩, hsig, -⟩
    exact ⟨by rw [hchain]; exact Option.some_ne_none chain, info, hinfo, keyInfo, hkey, hsig⟩
  · rintro ⟨hchain, info, hinfo, keyInfo, hkey, hsig⟩
    obtain ⟨chain, hchain⟩ := Option.ne_none_iff_exists'.mp hchain
    exact ⟨_, _, ⟨chain, hchain, rfl⟩, info, hinfo, keyInfo, hkey, (), hsig, rfl⟩

/-! ## The handlers of the certifier -/

/-- What the test of a handler of the certifier makes of a request that runs alone: a valid signature
is refused; without one, the request writes if nothing else stops it. -/
structure Inverted (T : Params) (s : Tables) (request : Request) (p : Handler Response) : Prop where
  refused : request.Signed T →
    ∃ message, (p.run (exec T) s).1 = .error (.status .unauthenticated message)
  written : ¬ request.Signed T → request.Passes T s → ∃ op ∈ p.ops (exec T) s, op.writes = true
  stopped : ¬ request.Signed T → ¬ request.Passes T s →
    (∀ op ∈ p.ops (exec T) s, op.writes = false) ∧ ∃ e, (p.run (exec T) s).1 = .error e

/-- A program ends with an error if it does after every check that passes. -/
theorem exists_fail_ensure {α : Type} {x : Except Failure α} {f : α → Handler Response}
    (h : ∀ a, x = .ok a → ∃ e, f a = Prog.fail e) : ∃ e, (ensure x >>= f) = Prog.fail e := by
  cases x with
  | ok a => exact h a rfl
  | error e => exact ⟨e, rfl⟩

/-- A program that fails at once writes nothing. -/
theorem stopped_of_fail {s : Tables} {p : Handler Response} (h : ∃ e, p = Prog.fail e) :
    (∀ op ∈ p.ops (exec T) s, op.writes = false) ∧ ∃ e, (p.run (exec T) s).1 = .error e := by
  obtain ⟨e, rfl⟩ := h
  refine ⟨?_, e, rfl⟩
  intro op hop
  cases hop

/-- A signature that can be checked and is not valid passes the test. -/
theorem checkMinerSign_of_not_valid {id sig encoded : List UInt8} (hid : id.length = 32)
    (hsig : sig.length = 64) (h : ¬ verifySignature T id sig (T.sha256 encoded).val = .ok true) :
    checkMinerSign T id sig encoded = .ok () := by
  obtain ⟨b, hb⟩ := exists_verifySignature (T := T) hid hsig (T.sha256 encoded).val
  cases b with
  | false => exact checkMinerSign_eq_ok.mpr hb
  | true => exact absurd hb h

theorem inverted_commitGenChall (draws : Draws) (s : Tables) (req : RequestMinerCommitGenChall) :
    Inverted T s (.commitGenChall req) (requestMinerCommitGenChall T draws req) where
  refused hsigned := by
    have haddress := checkAddress_eq_ok.mpr (verifySignature_eq_ok hsigned).1
    have hsign : checkMinerSign T req.minerId req.minerSign
        (T.encodeCommitGen { req with minerSign := [] }) = _ := checkMinerSign_of_valid hsigned
    refine ⟨"The miner request signature is incorrect!", ?_⟩
    unfold requestMinerCommitGenChall
    simp only [Request.signature] at haddress
    rw [haddress, hsign]
    rfl
  written hsigned := by
    rintro ⟨hid, hlength, hcommit⟩
    have hsign := checkMinerSign_of_not_valid hid hlength hsigned
    obtain ⟨commits, hcommit⟩ := Option.ne_none_iff_exists'.mp hcommit
    unfold requestMinerCommitGenChall
    simp only [Request.signature] at hsign
    rw [checkAddress_eq_ok.mpr hid, hsign, hcommit]
    exact ⟨.registerProverNodeEmpty req.minerId, List.mem_cons_self, rfl⟩
  stopped _ hpasses := by
    refine stopped_of_fail (exists_fail_ensure fun _ haddress => ?_)
    refine exists_fail_ensure fun _ hsign => exists_fail_ensure fun commits hcommit => ?_
    have hlengths := verifySignature_eq_ok (checkMinerSign_eq_ok.mp hsign)
    refine absurd ⟨hlengths.1, hlengths.2, ?_⟩ hpasses
    rw [orStatus_eq_ok.mp hcommit]
    exact Option.some_ne_none commits

theorem checkKnown_eq_ok {id : List UInt8} {logout : Bool} :
    checkKnown id logout = .ok () ↔ logout = false := by
  cases logout with
  | false => exact ⟨fun _ => rfl, fun _ => rfl⟩
  | true =>
    constructor
    · intro h
      cases h
    · intro h
      cases h

theorem inverted_verifyCommitProof (draws : Draws) (s : Tables)
    (req : RequestVerifyCommitAndAccProof) :
    Inverted T s (.verifyCommitProof req) (requestVerifyCommitProof T draws req) where
  refused hsigned := by
    have haddress := checkAddress_eq_ok.mpr (verifySignature_eq_ok hsigned).1
    have hsign : checkMinerSign T req.minerId req.minerSign
        (T.encodeVerifyCommit { req with minerSign := [] }) = _ := checkMinerSign_of_valid hsigned
    simp only [Request.signature] at haddress
    unfold requestVerifyCommitProof
    rw [haddress, hsign]
    cases hnode : s.verifier.nodeOf req.minerId with
    | none =>
      -- a miner that is not known is refused before the signature is looked at
      refine ⟨"This tee never know the miner " ++ toString (req.minerId.map UInt8.toNat), ?_⟩
      show (Prog.run (exec T) (ensure (checkKnown req.minerId
        (s.verifier.nodeOf req.minerId).isNone) >>= _) s).1 = _
      rw [hnode]
      rfl
    | some node =>
      refine ⟨"The miner request signature is incorrect!", ?_⟩
      show (Prog.run (exec T) (ensure (checkKnown req.minerId
        (s.verifier.nodeOf req.minerId).isNone) >>= _) s).1 = _
      rw [hnode]
      rfl
  written hsigned := by
    rintro ⟨hid, hnode, hlength, hchecks⟩
    have hsign := checkMinerSign_of_not_valid hid hlength hsigned
    simp only [Request.signature] at hsign
    obtain ⟨node, hnode⟩ := Option.ne_none_iff_exists'.mp hnode
    obtain ⟨⟨info, proofs⟩, hrequest⟩ := commitRequest_ok_iff.mpr hchecks
    refine ⟨.insertNode req.minerId
      { proverNode req.minerId info with commitBuf := node.commitBuf }, ?_, rfl⟩
    unfold requestVerifyCommitProof
    rw [checkAddress_eq_ok.mpr hid, hsign, hrequest]
    refine List.mem_cons_of_mem _ ?_
    show _ ∈ Prog.ops (exec T) (ensure (checkKnown req.minerId
      (s.verifier.nodeOf req.minerId).isNone) >>= _) s
    rw [hnode]
    refine List.mem_cons_of_mem _ ?_
    show _ ∈ Prog.ops (exec T) (ensure (orPanic
      ((s.verifier.nodeOf req.minerId).map ProverNode.commitBuf)) >>= _) s
    rw [hnode]
    exact List.mem_cons_self
  stopped _ hpasses := by
    unfold requestVerifyCommitProof
    cases haddress : checkAddress req.minerId with
    | error e => exact stopped_of_fail ⟨e, rfl⟩
    | ok u =>
      -- `is_logout` only looks at the table
      have hrest := stopped_of_fail (T := T) (s := s)
        (exists_fail_ensure (x := checkKnown req.minerId (s.verifier.nodeOf req.minerId).isNone)
          fun _ hknown => exists_fail_ensure
            (x := checkMinerSign T req.minerId req.minerSign
              (T.encodeVerifyCommit { req with minerSign := [] }))
            fun _ hsign => exists_fail_ensure (x := commitRequest T req)
              (f := fun out => verifyCommitProof T draws req.minerId req.accProof out.1 out.2)
              fun out hrequest => ?_)
      · refine ⟨fun op hop => ?_, hrest.2⟩
        rcases List.mem_cons.mp hop with rfl | hop
        · rfl
        · exact hrest.1 op hop
      · have hlengths := verifySignature_eq_ok (checkMinerSign_eq_ok.mp hsign)
        refine absurd ⟨hlengths.1, ?_, hlengths.2, commitRequest_ok_iff.mp ⟨out, hrequest⟩⟩ hpasses
        exact Option.isNone_eq_false_iff.mp (checkKnown_eq_ok.mp hknown) |> Option.isSome_iff_ne_none.mp

theorem inverted_verifyDeletionProof (s : Tables) (req : RequestVerifyDeletionProof) :
    Inverted T s (.verifyDeletionProof req) (requestVerifyDeletionProof T req) where
  refused hsigned := by
    have haddress := checkAddress_eq_ok.mpr (verifySignature_eq_ok hsigned).1
    have hsign : checkMinerSign T req.minerId req.minerSign
        (T.encodeDeletion { req with minerSign := [] }) = _ := checkMinerSign_of_valid hsigned
    simp only [Request.signature] at haddress
    refine ⟨"The miner request signature is incorrect!", ?_⟩
    unfold requestVerifyDeletionProof
    rw [haddress, hsign]
    rfl
  written hsigned := by
    rintro ⟨hid, hlength, hchecks⟩
    have hsign := checkMinerSign_of_not_valid hid hlength hsigned
    simp only [Request.signature] at hsign
    obtain ⟨⟨info, proof⟩, hrequest⟩ := deletionRequest_ok_iff.mpr hchecks
    unfold requestVerifyDeletionProof
    rw [checkAddress_eq_ok.mpr hid, hsign, hrequest]
    exact ⟨.insertNode req.minerId (proverNode req.minerId info), List.mem_cons_self, rfl⟩
  stopped _ hpasses := by
    refine stopped_of_fail (exists_fail_ensure fun _ haddress => ?_)
    refine exists_fail_ensure fun _ hsign => exists_fail_ensure fun out hrequest => ?_
    have hlengths := verifySignature_eq_ok (checkMinerSign_eq_ok.mp hsign)
    exact absurd ⟨hlengths.1, hlengths.2, deletionRequest_ok_iff.mp ⟨out, hrequest⟩⟩ hpasses

theorem inverted_handler (draws : Draws) (s : Tables) (request : Request) :
    Inverted T s request (handler T (request, draws)) := by
  cases request with
  | commitGenChall req => exact inverted_commitGenChall draws s req
  | verifyCommitProof req => exact inverted_verifyCommitProof draws s req
  | verifyDeletionProof req => exact inverted_verifyDeletionProof s req

/-- With the inverted test the signature is respected only where there is none to respect and the
request does nothing. -/
theorem Inverted.respects_iff {s : Tables} {request : Request} {p : Handler Response}
    (h : Inverted T s request p) :
    Respects (request.Signed T) ((p.run (exec T) s).1, p.ops (exec T) s) ↔
      ¬ request.Signed T ∧ ¬ request.Passes T s := by
  constructor
  · rintro ⟨honly, hnot⟩
    have hsigned : ¬ request.Signed T := by
      intro hsigned
      obtain ⟨message, hmessage⟩ := h.refused hsigned
      exact hnot hsigned message hmessage
    refine ⟨hsigned, fun hpasses => ?_⟩
    exact hsigned (honly (Or.inl (h.written hsigned hpasses)))
  · rintro ⟨hsigned, hpasses⟩
    obtain ⟨hwrites, e, he⟩ := h.stopped hsigned hpasses
    refine ⟨?_, fun hs => absurd hs hsigned⟩
    rintro (⟨op, hop, hwrite⟩ | ⟨response, hok⟩)
    · rw [hwrites op hop] at hwrite
      cases hwrite
    · rw [he] at hok
      cases hok

/-! ## The handler of a space proof -/

/-- An answer to a space proof is given only for a valid signature. -/
theorem signed_of_singleBlock_ok {draw : ℕ → ℕ} {req : RequestSpaceProofVerify}
    {response : Response} (h : requestSpaceProofVerifySingleBlock T draw req = .ok response) :
    (MinerRequest.singleBlock req).Signed T := by
  simp only [requestSpaceProofVerifySingleBlock, Dispatch.bind_eq_ok, orStatus_eq_ok] at h
  obtain ⟨info, -, proof, hproof, ⟨⟩, -, h⟩ := h
  refine ⟨proof, hproof, ?_⟩
  split at h
  · cases h
  · cases h
  · assumption

/-- After the signature was found valid no check answers with `unauthenticated`. -/
theorem singleBlock_ne_unauthenticated {draw : ℕ → ℕ} {req : RequestSpaceProofVerify}
    (h : (MinerRequest.singleBlock req).Signed T) (message : String) :
    requestSpaceProofVerifySingleBlock T draw req ≠ .error (.status .unauthenticated message) := by
  obtain ⟨proof, hproof, hsign⟩ := h
  have haddress := checkAddress_eq_ok.mpr (verifySignature_eq_ok hsign).1
  intro herror
  simp only [requestSpaceProofVerifySingleBlock, hproof] at herror
  cases hinfo : req.poisInfo with
  | none =>
    rw [hinfo] at herror
    cases herror
  | some info =>
    rw [hinfo, haddress] at herror
    simp only [orStatus, bind, Except.bind, hsign] at herror
    cases hspace : verifySpace T.toParams draw (proverNode req.minerId info) req.spaceChals proof with
    | ok u =>
      rw [hspace] at herror
      simp only [mapError] at herror
      split at herror
      · cases herror
      · cases herror
    | error e =>
      rw [hspace] at herror
      cases e with
      | bail m => cases herror
      | panic => cases herror

/-! ## The property -/

/-- **When only the miner acts for the miner.**  A space proof always respects the signature; a
request to the certifier does exactly if its signature is not valid and another check stops it
before it writes. -/
theorem onlyMiner_iff (draws : Draws) (draw : ℕ → ℕ) (s : Tables) (r : MinerRequest) :
    OnlyMiner T draws draw s r ↔ r.Harmless T s := by
  cases r with
  | certifier request => exact (inverted_handler draws s request).respects_iff
  | singleBlock req =>
    refine ⟨fun _ => trivial, fun _ => ⟨?_, singleBlock_ne_unauthenticated⟩⟩
    rintro (⟨op, hop, -⟩ | ⟨response, hok⟩)
    · cases hop
    · exact signed_of_singleBlock_ok hok

/-! ## A forged request -/

/-- Signatures for small examples: 64 ones are the valid signature of everyone. -/
def stampParams : Params where
  toParams := shortParams
  srVerify sig _ _ := decide (sig.val = List.replicate 64 1)
  masterPublic := ⟨List.replicate 32 0, List.length_replicate⟩
  masterSign _ := ⟨List.replicate 64 1, List.length_replicate⟩
  identityKey := ⟨List.replicate 32 0, List.length_replicate⟩
  podr2Sign _ := .ok []
  podr2Verify _ _ := true
  encodeCommitGen _ := []
  encodeVerifyCommit _ := []
  encodeDeletion _ := []
  encodeSpaceProof _ := []
  encodeProofHash _ := []
  encodeChallenge _ := []
  encodeTotal _ := []

/-- The tables at the start, for the smallest expanders. -/
def emptyTables : Tables where
  verifier := { clusterSize := 1, expanders := { k := 1, n := 1, d := 1 }, nodes := ∅ }
  chals := ∅

/-- A commit of the miner `7…7` with a signature of 64 equal bytes. -/
def stampedCommit (stamp : UInt8) : RequestMinerCommitGenChall where
  minerId := List.replicate 32 7
  commit := some noCommits
  minerSign := List.replicate 64 stamp

/-- A status that the master key of the examples signed. -/
def stampedInfo (acc : UInt8) (front rear : Int64) : PoisInfo where
  acc := List.replicate 256 acc
  front := front
  rear := rear
  keyN := List.replicate 256 3
  keyG := List.replicate 256 2
  statusTeeSign := List.replicate 64 1

/-- Draws that are all 0. -/
def zeroDraws : Draws where
  challenge _ _ := 0
  dependencies _ := (0, 0)

/-- **A forged request changes the table, and a signed one is refused.**  With a signature that is not
valid the miner is registered; with the valid one the answer is that it is incorrect. -/
theorem forged_commit_registers :
    (¬ (Request.commitGenChall (stampedCommit 0)).Signed stampParams ∧
      emptyTables.verifier.nodeOf (List.replicate 32 7) = none ∧
      (((handler stampParams (.commitGenChall (stampedCommit 0), zeroDraws)).run (exec stampParams)
        emptyTables).2.verifier.nodeOf (List.replicate 32 7)).isSome = true ∧
      ¬ OnlyMiner stampParams zeroDraws (fun _ => 0) emptyTables
        (.certifier (.commitGenChall (stampedCommit 0)))) ∧
    (Request.commitGenChall (stampedCommit 1)).Signed stampParams ∧
      ((handler stampParams (.commitGenChall (stampedCommit 1), zeroDraws)).run (exec stampParams)
        emptyTables).1 =
          .error (.status .unauthenticated "The miner request signature is incorrect!") ∧
      ¬ OnlyMiner stampParams zeroDraws (fun _ => 0) emptyTables
        (.certifier (.commitGenChall (stampedCommit 1))) := by
  have hforged : ¬ (Request.commitGenChall (stampedCommit 0)).Signed stampParams := by
    unfold Request.Signed
    decide +kernel
  have hsigned : (Request.commitGenChall (stampedCommit 1)).Signed stampParams := by
    unfold Request.Signed
    decide +kernel
  refine ⟨⟨hforged, rfl, rfl, fun h => ?_⟩, hsigned, rfl, fun h => ?_⟩
  · refine ((inverted_handler zeroDraws emptyTables _).respects_iff.mp h).2 ⟨rfl, rfl, ?_⟩
    exact Option.some_ne_none noCommits
  · exact ((inverted_handler zeroDraws emptyTables _).respects_iff.mp h).1 hsigned

end PoisServer
