/-
# Space proofs

A space proof is about the idle files with the numbers from `left` up to `right`.  The check runs
over the roots of the proof and then over its witness chains; neither is compared with the
interval.  This file says what an accepted proof is good for:

* `SpaceProof.Covers` : the proof is about files of the record, has a root and a witness for every
  file of the interval, and every root has been checked against every challenged node;
* `verifySpace_covers_iff` : an accepted proof covers its interval if and only if the interval is
  not empty and there are as many roots and as many witness chains as it has files;
* `empty_space_proof_accepted` : a proof without roots is accepted for any interval in range.
-/
import CessNode.PoisSpec

open Dispatch

namespace Pois

variable {P : Params}

/-- A challenged node of a file has been checked: it is the node at that position and its path
leads to the root. -/
def MhtProof.Proves (P : Params) (proof : MhtProof) (root : List UInt8) (chal : Int64) : Prop :=
  chal = proof.index.toInt64 ∧ checkIndexPath chal proof.locs = true ∧
    verifyPathProof P root proof.label { locs := proof.locs, path := proof.paths } = true

/-- The root at a position of a space proof has been checked against every challenged node. -/
def SpaceProof.Checked (P : Params) (proof : SpaceProof) (chals : List Int64) (i : ℕ)
    (root : List UInt8) : Prop :=
  ∀ (j : ℕ) (chal : Int64), chals[j]? = some chal → ∃ (proofs : List MhtProof) (node : MhtProof),
    proof.proofs[i]? = some proofs ∧ proofs[j]? = some node ∧ node.Proves P root chal

/-- The file at a position of a space proof has been checked: the witness is for its label, and
its root has been checked against every challenged node. -/
def SpaceProof.HasFile (P : Params) (proof : SpaceProof) (id : List UInt8) (chals : List Int64)
    (i : ℕ) (number : ℤ) : Prop :=
  ∃ root witness, proof.roots[i]? = some root ∧ proof.witChains[i]? = some witness ∧
    root.length = defaultHashSize ∧
    witness.elem = getHash P (id ++ getBytes (.ofInt number) ++ root) ∧
    proof.Checked P chals i root

/-- A space proof covers what it claims. -/
structure SpaceProof.Covers (P : Params) (proof : SpaceProof) (id : List UInt8) (record : Record)
    (chals : List Int64) : Prop where
  front : record.front.toInt < proof.left.toInt
  interval : proof.left.toInt < proof.right.toInt
  rear : proof.right.toInt ≤ record.rear.toInt + 1
  roots : (proof.roots.length : ℤ) = proof.right.toInt - proof.left.toInt
  witChains : (proof.witChains.length : ℤ) = proof.right.toInt - proof.left.toInt
  files : ∀ number, proof.left.toInt ≤ number → number < proof.right.toInt →
    proof.HasFile P id chals (number - proof.left.toInt).toNat number

/-! ## What the check says -/

theorem checkNode_eq_ok {root : List UInt8} {chal : Int64} {proof : MhtProof} {u : Unit} :
    checkNode P root chal proof = .ok u ↔ proof.Proves P root chal := by
  simp only [checkNode, bind_eq_ok, check_eq_ok, exists_const, MhtProof.Proves]

/-- A root that a path leads to has the length of a hash. -/
theorem length_of_verifyPathProof {root data : List UInt8} {proof : PathProof}
    (h : verifyPathProof P root data proof = true) : root.length = defaultHashSize := by
  unfold verifyPathProof at h
  dsimp only at h
  split_ifs at h with hlocs hlength
  rw [← not_not.mp hlength]
  exact (P.sha256 data).property

/-- A round of the loop over the roots. -/
theorem checkSpaceFile_ok {id : List UInt8} {chals : List Int64} {proof : SpaceProof}
    {label label' : List UInt8} {p : List UInt8 × ℕ} (hchals : chals ≠ [])
    (hlabel : label.length = labelLength id)
    (h : checkSpaceFile P id chals proof label p = .ok label') :
    label'.length = labelLength id ∧ ∃ witness, proof.witChains[p.2]? = some witness ∧
      p.1.length = defaultHashSize ∧
      witness.elem = getHash P (id ++ getBytes (proof.left + .ofNat p.2) ++ p.1) ∧
      proof.Checked P chals p.2 p.1 := by
  simp only [checkSpaceFile, bind_eq_ok, unwrap_eq_ok, check_eq_ok, pure_eq_ok, forM_eq_ok,
    checkNode_eq_ok, exists_const] at h
  obtain ⟨hnodes, witness, hwitness, hhash, rfl⟩ := h
  have hproves : proof.Checked P chals p.2 p.1 := by
    intro j chal hj
    obtain ⟨proofs, hproofs, node, hnode, hproves⟩ :=
      hnodes (chal, j) (List.mem_zipIdx_iff_getElem?.mpr hj)
    exact ⟨proofs, node, hproofs, hnode, hproves⟩
  have hroot : p.1.length = defaultHashSize := by
    obtain ⟨chal, rest, rfl⟩ := List.exists_cons_of_ne_nil hchals
    obtain ⟨proofs, node, -, -, -, -, hpath⟩ := hproves 0 chal rfl
    exact length_of_verifyPathProof hpath
  refine ⟨?_, witness, hwitness, hroot, ?_, hproves⟩
  · rw [length_copyData]
    exact hlabel
  · rw [← hhash, copyData_label hlabel hroot]

/-- What an accepted proof has been checked for. -/
theorem verifySpace_ok {draw : ℕ → ℕ} {node : ProverNode} {record : Record} {chals : List Int64}
    {proof : SpaceProof} (hrecord : node.record = some record)
    (h : verifySpace P draw node chals proof = .ok ()) :
    record.front < proof.left ∧ proof.right ≤ record.rear + 1 ∧
      ∀ i, i < proof.roots.length → proof.HasFile P node.id chals i
        (proof.left + .ofNat i).toInt := by
  simp only [verifySpace, bind_eq_ok, unwrap_eq_ok, check_eq_ok, hrecord, Option.some.injEq,
    exists_eq_left', exists_const, not_or] at h
  obtain ⟨hchals, ⟨hleft, hright⟩, label, hloop, -⟩ := h
  refine ⟨Int64.not_le.mp hleft, Int64.not_lt.mp hright, ?_⟩
  have hrounds := foldlM_ok (Q := fun label => label.length = labelLength node.id)
    (fun _ _ label label' hlabel hround => (checkSpaceFile_ok hchals hlabel hround).1)
    (length_emptyLabel node.id) hloop
  intro i hi
  obtain ⟨label₁, label₂, hlabel, hround⟩ := hrounds.2 (proof.roots[i], i)
    (List.mem_zipIdx_iff_getElem?.mpr (List.getElem?_eq_getElem hi))
  obtain ⟨-, witness, hwitness, hroot, helem, hproves⟩ := checkSpaceFile_ok hchals hlabel hround
  refine ⟨proof.roots[i], witness, List.getElem?_eq_getElem hi, hwitness, hroot, ?_, hproves⟩
  rw [Int64.ofInt_toInt]
  exact helem

/-! ## Which proofs cover their interval -/

/-- The end of an interval in range is at most the number after the record. -/
theorem toInt_le_add_one {right rear : Int64} (h : right ≤ rear + 1) :
    right.toInt ≤ rear.toInt + 1 := by
  have hright := right.toInt_lt
  have hrear := rear.le_toInt
  rw [Int64.le_iff_toInt_le, Int64.toInt_add, Int64.toInt_one] at h
  by_cases hmax : rear.toInt + 1 < 2 ^ 63
  · rwa [Int.bmod_eq_of_le (by omega) (by omega)] at h
  · omega

/-- **A space proof covers what it claims** if and only if its interval is not empty and it has
as many roots and as many witness chains as there are files in the interval. -/
theorem verifySpace_covers_iff {draw : ℕ → ℕ} {node : ProverNode} {record : Record}
    {chals : List Int64} {proof : SpaceProof} (hrecord : node.record = some record)
    (h : verifySpace P draw node chals proof = .ok ()) :
    proof.Covers P node.id record chals ↔
      proof.left < proof.right ∧
      (proof.roots.length : ℤ) = proof.right.toInt - proof.left.toInt ∧
      (proof.witChains.length : ℤ) = proof.right.toInt - proof.left.toInt := by
  obtain ⟨hfront, hrear, hfiles⟩ := verifySpace_ok hrecord h
  constructor
  · intro hcovers
    exact ⟨Int64.lt_iff_toInt_lt.mpr hcovers.interval, hcovers.roots, hcovers.witChains⟩
  · rintro ⟨hinterval, hroots, hwitChains⟩
    rw [Int64.lt_iff_toInt_lt] at hfront hinterval
    refine ⟨hfront, hinterval, ?_, hroots, hwitChains, ?_⟩
    · exact toInt_le_add_one hrear
    · intro number hleft hright
      have hnumber : proof.left.toInt + (number - proof.left.toInt).toNat = number := by omega
      have hfits := proof.right.toInt_lt
      have hfile := hfiles (number - proof.left.toInt).toNat (by omega)
      rwa [toInt_add_ofNat (by omega), hnumber] at hfile

/-! ## Two proofs -/

/-- A prover with 256 idle files. -/
def prover (acc : List UInt8) : ProverNode where
  id := [1]
  commitBuf := { fileIndexs := [], roots := [] }
  record := some { key := { n := 35, g := 2 }, acc := acc, front := 0, rear := 256 }

/-- A proof of a single file, the first one, which is a tree of a single node. -/
def spaceProofOfOne (P : Params) : SpaceProof where
  left := 1
  right := 2
  proofs := [[{ index := 0, label := [], paths := [], locs := [] }]]
  roots := [(P.sha256 []).val]
  witChains := [.last (getHash P ([1] ++ getBytes 1 ++ (P.sha256 []).val)) []]

/-- The label of the only file of that proof. -/
def labelOfOne (P : Params) : List UInt8 := [1] ++ getBytes 1 ++ (P.sha256 []).val

/-- The proof of a single file is accepted and covers it. -/
theorem verifySpace_covers_one :
    verifySpace shortParams (fun _ => 0) (prover (getHash shortParams (labelOfOne shortParams))) [0] (spaceProofOfOne shortParams) =
      .ok () ∧
    (spaceProofOfOne shortParams).Covers shortParams [1] ⟨⟨35, 2⟩, getHash shortParams (labelOfOne shortParams), 0, 256⟩ [0] := by
  have haccepted : verifySpace shortParams (fun _ => 0) (prover (getHash shortParams (labelOfOne shortParams))) [0]
      (spaceProofOfOne shortParams) = .ok () := by
    simp only [verifySpace, bind_eq_ok, check_eq_ok, exists_const]
    refine ⟨List.cons_ne_nil _ _, _, rfl, ?_, labelOfOne shortParams, ?_, true, ?_, rfl⟩
    · decide
    · show (checkSpaceFile shortParams [1] [0] (spaceProofOfOne shortParams) (emptyLabel [1])
        ((shortParams.sha256 []).val, 0) >>= fun label => pure label) = .ok (labelOfOne shortParams)
      rfl
    · simp [Acc.verifyMutilevelAccForBatch, Acc.batchFrom, Acc.verifyMutilevelAcc, spaceProofOfOne,
        labelOfOne, pure_eq_ok]
  exact ⟨haccepted, (verifySpace_covers_iff rfl haccepted).mpr
    ⟨show (1 : Int64) < 2 by decide, rfl, rfl⟩⟩

/-- A proof without roots for all files of the prover. -/
def spaceProofOfNone : SpaceProof where
  left := 1
  right := 257
  proofs := []
  roots := []
  witChains := []

/-- A proof without roots is accepted for all files of the prover. -/
theorem empty_space_proof_accepted :
    verifySpace shortParams (fun _ => 0) (prover [2]) [0] spaceProofOfNone = .ok () ∧
      ¬ spaceProofOfNone.Covers shortParams [1] ⟨⟨35, 2⟩, [2], 0, 256⟩ [0] := by
  refine ⟨by rfl, ?_⟩
  intro hcovers
  have hroots := hcovers.roots
  revert hroots
  decide

end Pois
