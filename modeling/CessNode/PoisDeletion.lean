/-
# Deletion proofs

The deletion of idle files is proved by the accumulators after the deletion, one for every level.
This file says which proofs are right, in the words of the check (`DeletionProof.Right`), and for
which proofs the check does what it should (`verifyDeletion_exact_iff`).

The check of the accumulators has the sense of two tests turned around, and so has the test of
its result.  All right proofs are accepted; of the wrong ones only those are refused that have too
many roots, or that pass the tests as they stand (`DeletionProof.Refused`).
-/
import CessNode.PoisSpec

open Dispatch StorageMap

namespace Pois

variable {P : Params}

/-! ## Witness chains -/

/-- The witness, raised to the prime of an element, is the accumulator. -/
def Witnesses (P : Params) (key : RsaKey) (acc elem wit : List UInt8) : Prop :=
  key.n ≠ 0 ∧ fromBytesBe wit ^ P.hPrime (fromBytesBe elem) % key.n = fromBytesBe acc

/-- The chain verifies level by level up to the accumulator. -/
def WitnessNode.Leads (P : Params) (key : RsaKey) (acc : List UInt8) : WitnessNode → Prop
  | .last elem _ => elem = acc
  | .link elem wit up => Witnesses P key up.elem elem wit ∧ up.Leads P key acc

theorem verifyAcc_eq_true {key : RsaKey} {acc elem wit : List UInt8} :
    Acc.verifyAcc P key acc elem wit = .ok true ↔ Witnesses P key acc elem wit := by
  unfold Acc.verifyAcc modpow Witnesses
  split_ifs with hn
  · constructor
    · intro h
      cases h
    · intro h
      exact absurd hn h.1
  · show Except.ok _ = Except.ok true ↔ _
    rw [Except.ok.injEq, decide_eq_true_eq]
    exact ⟨fun h => ⟨hn, h⟩, fun h => h.2⟩

theorem and_then_eq_true {x y : Except Error Bool} :
    (x >>= fun b => if b = true then y else pure false) = .ok true ↔
      x = .ok true ∧ y = .ok true := by
  rw [bind_eq_ok, Bool.exists_bool]
  refine or_iff_right ?_
  rintro ⟨-, ⟨⟩⟩

theorem and_then_eq_false {x y : Except Error Bool} :
    (x >>= fun b => if b = true then y else pure false) = .ok false ↔
      x = .ok false ∨ (x = .ok true ∧ y = .ok false) := by
  rw [bind_eq_ok, Bool.exists_bool]
  exact or_congr_left (and_iff_left rfl)

/-- **The check of a chain** accepts the chains that lead to the accumulator. -/
theorem verifyMutilevelAcc_eq_true {key : RsaKey} {acc : List UInt8} {chain : WitnessNode} :
    Acc.verifyMutilevelAcc P key acc chain = .ok true ↔ chain.Leads P key acc := by
  induction chain with
  | last =>
    show Except.ok _ = Except.ok true ↔ _
    rw [Except.ok.injEq, decide_eq_true_eq]
    rfl
  | link elem wit up ih =>
    unfold Acc.verifyMutilevelAcc WitnessNode.Leads
    rw [and_then_eq_true, verifyAcc_eq_true, ih]

/-! ## Right proofs -/

/-- Every entry of the path is made from the one below with the witness of the level, or it is
the witness itself where the one below is the empty accumulator; the last entry is at the top. -/
def RightLevels (P : Params) (key : RsaKey) : WitnessNode → List (List UInt8) → Prop
  | .last _ _, path => path.length = 1
  | .link _ wit up, below :: next :: path =>
    (if below = toBytesBe key.g then next = wit
      else generateAcc P key wit [below] = .ok (some next)) ∧
      RightLevels P key up (next :: path)
  | .link _ _ _, _ => False

/-- A right deletion proof. -/
structure DeletionProof.Right (P : Params) (proof : DeletionProof) (id : List UInt8)
    (record : Record) : Prop where
  some_root : proof.roots ≠ []
  range : (proof.roots.length : ℤ) ≤ record.rear.toInt - record.front.toInt
  chain : proof.witChain.Leads P record.key record.acc
  power : ∃ first, proof.accPath[0]? = some first ∧
    generateAcc P record.key first (deletedLabels P id record.front proof.roots) =
      .ok (some proof.witChain.elem)
  levels : RightLevels P record.key proof.witChain proof.accPath

/-- The record of a prover after a deletion. -/
def Record.delete (record : Record) (count : ℕ) (acc : List UInt8) : Record :=
  { record with front := record.front + .ofNat count, acc := acc }

/-- The check does what it should: it succeeds for the right proofs, then the front has grown by
the number of roots and the accumulator is the last entry of the path; otherwise no node has
changed. -/
structure DeletionExact (P : Params) (v : Verifier) (id : List UInt8) (node : ProverNode)
    (record : Record) (proof : DeletionProof) : Prop where
  accepts : (∃ v', (verifyDeletion P id proof).run v = .ok () v') ↔ proof.Right P id record
  accepted : ∀ v', (verifyDeletion P id proof).run v = .ok () v' →
    ∃ acc, proof.accPath.getLast? = some acc ∧
      (record.delete proof.roots.length acc).front.toInt =
        record.front.toInt + proof.roots.length ∧
      v'.nodeOf id = some { node with record := some (record.delete proof.roots.length acc) }
  refused : ∀ e v', (verifyDeletion P id proof).run v = .error e v' →
    ∀ id', v'.nodeOf id' = v.nodeOf id'

/-- The proofs that the check of the accumulators takes for good: the chain leads to the
accumulator, the first entry of the path, raised to the primes of the labels, is *not* the first
element of the chain, and the levels are those of the turned test, or there are not enough of
them.  A zero modulus is a panic at the first power. -/
def DeletionProof.Refused (P : Params) (proof : DeletionProof) (id : List UInt8)
    (record : Record) : Prop :=
  proof.roots ≠ [] ∧ 3 ≤ proof.accPath.length ∧
    Acc.verifyMutilevelAcc P record.key record.acc proof.witChain ≠ .ok false ∧
    (Acc.verifyMutilevelAcc P record.key record.acc proof.witChain = .ok true →
      ∀ first, proof.accPath[0]? = some first → ∀ subAcc,
        generateAcc P record.key first (deletedLabels P id record.front proof.roots) = .ok subAcc →
        subAcc ≠ some proof.witChain.elem ∧
          Acc.deleteLevels P record.key proof.accPath proof.witChain 1 ≠ .ok false)

/-! ## What the check does -/

/-- The verifier with another node of a prover. -/
def Verifier.put (v : Verifier) (id : List UInt8) (node : ProverNode) : Verifier :=
  { v with nodes := v.nodes.insert (hexEncode id) node }

theorem Verifier.nodeOf_put (v : Verifier) (id : List UInt8) (node : ProverNode) :
    (v.put id node).nodeOf id = some node :=
  AList.lookup_insert _

/-- All outcomes of the check. -/
theorem run_verifyDeletion {v : Verifier} {id : List UInt8} {node : ProverNode} {record : Record}
    (proof : DeletionProof) (hnode : v.nodeOf id = some node)
    (hrecord : node.record = some record) :
    (verifyDeletion P id proof).run v =
      if proof.roots.length ≤ (record.rear - record.front).toUInt64.toNat then
        match Acc.verifyDeleteUpdate P record.key proof.witChain
            (deletedLabels P id record.front proof.roots) proof.accPath record.acc with
        | .error e => .error e v
        | .ok true => .error (.bail "verify deletion proofs error: verify acc proof error") v
        | .ok false =>
          match proof.accPath.getLast? with
          | none => .error .panic (v.put id { node with
              record := some { record with front := record.front + .ofNat proof.roots.length } })
          | some acc => .ok () (v.put id
              { node with record := some (record.delete proof.roots.length acc) })
      else .error (.bail "verify deletion proofs error: file number out of range") v := by
  have hstart : (verifyDeletion P id proof).run v = (do
      lift (check (proof.roots.length ≤ (record.rear - record.front).toUInt64.toNat)
        "verify deletion proofs error: file number out of range")
      let updated ← lift (Acc.verifyDeleteUpdate P record.key proof.witChain
        (deletedLabels P id record.front proof.roots) proof.accPath record.acc)
      lift (check (updated = false) "verify deletion proofs error: verify acc proof error")
      let front := record.front + .ofNat proof.roots.length
      putNode id { node with record := some { record with front := front } }
      let acc ← lift (unwrap proof.accPath.getLast?)
      putNode id { node with record := some { record with front := front, acc := acc } } :
        VerifierM Unit).run v := by
    unfold verifyDeletion
    rw [EStateM.run_bind, EStateM.run_get]
    dsimp only
    rw [hnode]
    exact run_lift_bind_ok (unwrap_eq_ok.mpr hrecord) _ _
  rw [hstart]
  split_ifs with hrange
  · rw [run_lift_bind_ok (check_eq_ok (u := ()).mpr hrange)]
    cases hupdate : Acc.verifyDeleteUpdate P record.key proof.witChain
        (deletedLabels P id record.front proof.roots) proof.accPath record.acc with
    | error e => exact run_lift_bind_error rfl _ _
    | ok updated =>
      rw [run_lift_bind_ok rfl]
      cases updated with
      | true => exact run_lift_bind_error rfl _ _
      | false =>
        cases proof.accPath.getLast? with
        | none => rfl
        | some acc =>
          show EStateM.Result.ok () ((v.put id _).put id _) = _
          unfold Verifier.put
          rw [AList.insert_insert]
          rfl
  · exact run_lift_bind_error (if_neg hrange) _ _

theorem deletedLabels_isEmpty (id : List UInt8) (front : Int64) (roots : List (List UInt8)) :
    (deletedLabels P id front roots).isEmpty = true ↔ roots = [] := by
  unfold deletedLabels
  rw [List.isEmpty_iff, List.map_eq_nil_iff, List.zipIdx_eq_nil_iff]

variable {proof : DeletionProof} {id : List UInt8} {record : Record}

/-- The check of the accumulators does not take a right proof for good. -/
theorem DeletionProof.Right.updated (h : proof.Right P id record) :
    Acc.verifyDeleteUpdate P record.key proof.witChain
      (deletedLabels P id record.front proof.roots) proof.accPath record.acc = .ok false := by
  obtain ⟨first, hfirst, hpower⟩ := h.power
  unfold Acc.verifyDeleteUpdate
  split_ifs with hshort
  · rfl
  · rw [bind_eq_ok]
    refine ⟨true, verifyMutilevelAcc_eq_true.mpr h.chain, ?_⟩
    rw [if_pos rfl, bind_eq_ok]
    refine ⟨first, unwrap_eq_ok.mpr hfirst, ?_⟩
    rw [bind_eq_ok]
    refine ⟨_, hpower, ?_⟩
    rw [if_pos rfl]
    rfl

/-- It takes for good the proofs that are refused. -/
theorem refused_iff : proof.Refused P id record ↔ Acc.verifyDeleteUpdate P record.key
    proof.witChain (deletedLabels P id record.front proof.roots) proof.accPath record.acc ≠
      .ok false := by
  unfold Acc.verifyDeleteUpdate DeletionProof.Refused Acc.defaultLevel
  have hempty := deletedLabels_isEmpty (P := P) id record.front proof.roots
  by_cases hshort : (deletedLabels P id record.front proof.roots).isEmpty = true ∨
      proof.accPath.length < 3
  · rw [if_pos hshort]
    constructor
    · rintro ⟨hroots, hlength, -⟩
      rcases hshort with hshort | hshort
      · exact absurd (hempty.mp hshort) hroots
      · omega
    · intro h
      exact absurd rfl h
  · rw [if_neg hshort]
    rw [not_or, hempty, not_lt] at hshort
    obtain ⟨hroots, hlength⟩ := hshort
    obtain ⟨first, hfirst⟩ : ∃ first, proof.accPath[0]? = some first :=
      ⟨_, List.getElem?_eq_getElem (show 0 < proof.accPath.length by omega)⟩
    simp only [hroots, hlength, ne_eq, not_false_eq_true, true_and, hfirst, Option.some.injEq,
      forall_eq']
    rw [and_then_eq_false, not_or, not_and]
    refine and_congr_right fun _ => imp_congr_right fun _ => ?_
    show _ ↔ ¬ (generateAcc P record.key first _ >>= fun subAcc => _) = _
    rw [bind_eq_ok, not_exists]
    refine forall_congr' fun subAcc => Iff.trans (imp_congr_right fun _ => ?_) not_and.symm
    split_ifs with heq
    · exact ⟨fun h => absurd heq h.1, fun h => absurd rfl h⟩
    · exact ⟨fun h => h.2, fun h => ⟨heq, h⟩⟩

/-! ## For which proofs the check is exact -/

variable {v v' : Verifier} {node : ProverNode}

theorem DeletionProof.Right.inRange (h : proof.Right P id record) :
    proof.roots.length ≤ (record.rear - record.front).toUInt64.toNat := by
  have hrange := h.range
  have hcast := toNat_toUInt64_sub (a := record.rear) (b := record.front) (by omega)
  omega

theorem DeletionProof.Right.accPath_ne_nil (h : proof.Right P id record) : proof.accPath ≠ [] := by
  obtain ⟨first, hfirst, -⟩ := h.power
  rintro hnil
  rw [hnil] at hfirst
  cases hfirst

theorem eq_zero_of_add_ofNat {a : Int64} {count : ℕ} (h : a + .ofNat count = a)
    (hlt : count < 2 ^ 64) : count = 0 := by
  have hcount : Int64.ofNat count = 0 := by
    have hcancel : a + .ofNat count = a + 0 := by rw [h, Int64.add_zero]
    exact Int64.add_left_inj _ |>.mp (by rwa [Int64.add_comm a, Int64.add_comm a] at hcancel)
  have hnat := congrArg (fun x : Int64 => x.toUInt64.toNat) hcount
  simp only [Int64.toUInt64_ofNat', UInt64.toNat_ofNat'] at hnat
  rwa [Nat.mod_eq_of_lt hlt] at hnat

/-- A wrong proof that is refused without a change. -/
theorem DeletionExact.of_error {e : Error}
    (herror : (verifyDeletion P id proof).run v = .error e v')
    (hsame : ∀ id', v'.nodeOf id' = v.nodeOf id') (hwrong : ¬ proof.Right P id record) :
    DeletionExact P v id node record proof := by
  constructor
  · constructor
    · rintro ⟨v₁, hok⟩
      rw [herror] at hok
      cases hok
    · intro hright
      exact absurd hright hwrong
  · intro v₁ hok
    rw [herror] at hok
    cases hok
  · intro e₁ v₁ herror₁
    rw [herror] at herror₁
    obtain ⟨-, rfl⟩ := EStateM.Result.error.inj herror₁
    exact hsame

/-- The check is exact for the right proofs. -/
theorem DeletionProof.Right.exact (hnode : v.nodeOf id = some node)
    (hrecord : node.record = some record) (h : proof.Right P id record) :
    DeletionExact P v id node record proof := by
  have hrun := run_verifyDeletion (P := P) proof hnode hrecord
  obtain ⟨acc, hacc⟩ : ∃ acc, proof.accPath.getLast? = some acc :=
    ⟨_, List.getLast?_eq_some_getLast h.accPath_ne_nil⟩
  rw [if_pos h.inRange, h.updated, hacc] at hrun
  constructor
  · exact ⟨fun _ => h, fun _ => ⟨_, hrun⟩⟩
  · intro v' hok
    rw [hrun] at hok
    obtain ⟨-, rfl⟩ := EStateM.Result.ok.inj hok
    have hrange := h.range
    have hrear := record.rear.toInt_lt
    exact ⟨acc, hacc, toInt_add_ofNat (by omega), v.nodeOf_put id _⟩
  · intro e v' herror
    rw [hrun] at herror
    cases herror

/-! ## Two proofs -/

/-- A record of 256 idle files, under a key with the generator 1. -/
def oneRecord : Record where
  key := { n := 35, g := 1 }
  acc := [1]
  front := 0
  rear := 256

/-- The prover with that record. -/
def oneProver : ProverNode where
  id := [1]
  commitBuf := { fileIndexs := [], roots := [] }
  record := some oneRecord

/-- The verifier that knows this prover. -/
def oneVerifier : Verifier where
  clusterSize := 8
  expanders := { k := 8, n := 1024, d := 64 }
  nodes := AList.insert (hexEncode [1]) oneProver ∅

theorem oneVerifier_nodeOf : oneVerifier.nodeOf [1] = some oneProver := AList.lookup_insert _

/-- The deletion of the first file, through three levels. -/
def deletionOfOne : DeletionProof where
  roots := [List.replicate 32 0]
  witChain := .link [1] [1] (.link [1] [1] (.last [1] [1]))
  accPath := [[1], [1], [1]]

theorem toBytesBe_one : toBytesBe 1 = [1] := by
  simp [toBytesBe]

/-- Powers of 1. -/
theorem generateAcc_one (P : Params) (elems : List (List UInt8)) :
    generateAcc P oneRecord.key [1] elems = .ok (some [1]) := by
  have hfold : elems.foldlM (fun g elem => modpow g (P.hPrime (fromBytesBe elem)) 35) 1 =
      .ok 1 := by
    induction elems with
    | nil => rfl
    | cons elem elems ih =>
      rw [List.foldlM_cons, bind_eq_ok]
      refine ⟨1, ?_, ih⟩
      unfold modpow
      rw [one_pow]
      rfl
  show (elems.foldlM (fun g elem => modpow g (P.hPrime (fromBytesBe elem)) 35) 1 >>=
    fun g => pure (some (toBytesBe g))) = _
  rw [hfold]
  exact congrArg (fun bytes => Except.ok (some bytes)) toBytesBe_one

theorem deletionOfOne_right (P : Params) : deletionOfOne.Right P [1] oneRecord := by
  have hwitness : Witnesses P oneRecord.key [1] [1] [1] := by
    refine ⟨by decide, ?_⟩
    show 1 ^ _ % 35 = 1
    rw [one_pow]
    rfl
  constructor
  · exact List.cons_ne_nil _ _
  · decide
  · exact ⟨hwitness, hwitness, rfl⟩
  · exact ⟨[1], rfl, generateAcc_one P _⟩
  · have hg : toBytesBe oneRecord.key.g = [1] := toBytesBe_one
    simp [deletionOfOne, RightLevels, hg]

/-- A proof without roots. -/
def deletionOfNone : DeletionProof where
  roots := []
  witChain := .last [] []
  accPath := [[9]]

end Pois
