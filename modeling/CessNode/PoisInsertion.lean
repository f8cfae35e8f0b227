/-
# Insertion proofs

New idle files are proved by the accumulators after their labels have been inserted, one for every
level.  The prover chooses how many labels, accumulators and levels there are, and the check
compares them only as far as its loops run.  This file says what an accepted proof should mean
(`InsertionSound`) and that it means so where the three lists fit together (`AccProof.Fits`):

* `Verifier.newLabels` : the labels of the new files, from the roots in the commit buffer;
* `WitnessNode.Names` : the chain names a sub-accumulator of the accumulator of the record, or an
  empty one that is put into it;
* `verifyAcc_insertion_sound` : the accumulator of the record after the check is the one with
  these labels inserted.
-/
import CessNode.PoisDeletion

open Dispatch StorageMap

namespace Pois

variable {P : Params}
variable {key : RsaKey} {acc label : List UInt8} {chain : WitnessNode} {i : ℕ}

/-! ## What an insertion is -/

/-- The number of files of a cluster. -/
def Verifier.clusterCount (v : Verifier) : ℕ := v.clusterSize.toUInt64.toNat

/-- The root of the new file at a position, in the commit buffer. -/
def Verifier.newRoot (v : Verifier) (node : ProverNode) (t : ℕ) : Option (List UInt8) :=
  node.commitBuf.roots[((v.expanders.k.toUInt64 + .ofNat (t % v.clusterCount)) *
    .ofNat idleSetLen + .ofNat (t / v.clusterCount)).toNat]?

/-- The labels of the new files: `chals` clusters of them after the last one of the record. -/
def Verifier.newLabels (P : Params) (v : Verifier) (node : ProverNode) (id : List UInt8)
    (rear : Int64) (chals : ℕ) : List (List UInt8) :=
  (List.range (chals * v.clusterCount)).map fun t =>
    getHash P (id ++ getBytes (rear + .ofNat t + 1) ++ (v.newRoot node t).getD [])

namespace WitnessNode

/-- The number of levels above an element. -/
def depth : WitnessNode → ℕ
  | last _ _ => 0
  | link _ _ up => up.depth + 1

/-- The chain names a sub-accumulator of the accumulator, or an empty one that is to be put into
the one above. -/
def Names (P : Params) (key : RsaKey) (acc : List UInt8) : WitnessNode → Prop
  | last elem _ => elem = acc
  | link elem wit up => (link elem wit up).Leads P key acc ∨
    wit = up.elem ∧ elem = toBytesBe key.g ∧ up.Names P key acc

/-- The nodes that the check passes over stand for empty accumulators. -/
def NewEmpty (key : RsaKey) : WitnessNode → Prop
  | last _ _ => True
  | link elem wit up => up.elem = wit → elem = toBytesBe key.g ∧ up.NewEmpty key

/-- Every level is made from the one below, from `sub` up to `top`. -/
def Recomputed (P : Params) (key : RsaKey) : WitnessNode → List UInt8 → List UInt8 → Prop
  | last _ _, sub, top => top = sub
  | link _ wit up, sub, top =>
    ∃ next, generateAcc P key wit [sub] = .ok (some next) ∧ up.Recomputed P key next top

end WitnessNode

/-- The accumulator `top` is `acc` after the elements have been inserted into the sub-accumulator
that the chain names. -/
def Inserted (P : Params) (key : RsaKey) (chain : WitnessNode) (acc : List UInt8)
    (elems : List (List UInt8)) (top : List UInt8) : Prop :=
  chain.Names P key acc ∧ ∃ sub, generateAcc P key chain.elem elems = .ok (some sub) ∧
    chain.Recomputed P key sub top

/-- What an accepted insertion proof should mean; a proof that is not accepted changes nothing. -/
structure InsertionSound (P : Params) (v : Verifier) (id : List UInt8) (node : ProverNode)
    (record : Record) (chals : List (List Int64)) (proof : AccProof) : Prop where
  accepted : ∀ v', (verifyAcc P id chals proof).run v = .ok () v' →
    ∃ node' record' chain, v'.nodeOf id = some node' ∧ node'.record = some record' ∧
      proof.witChains = some chain ∧
      Inserted P record.key chain record.acc
        (v.newLabels P node id record.rear chals.length) record'.acc ∧
      record'.rear.toInt = record.rear.toInt + chals.length * v.clusterCount
  refused : ∀ e v', (verifyAcc P id chals proof).run v = .error e v' → v' = v

/-- The lists of an insertion proof fit together: there is a label for every new file and no
other, the path ends where the chain does, nodes that are passed over stand for empty
accumulators, the roots in the commit buffer have the length of a hash, and the number of the
last file does not overflow. -/
structure AccProof.Fits (proof : AccProof) (v : Verifier) (node : ProverNode) (record : Record)
    (chals : List (List Int64)) : Prop where
  labels : proof.labels.length = chals.length * v.clusterCount
  path : ∀ chain, proof.witChains = some chain → proof.accPath.length = chain.depth + 1
  new : ∀ chain, proof.witChains = some chain → chain.NewEmpty record.key
  roots : ∀ t root, v.newRoot node t = some root → root.length = defaultHashSize
  rear : record.rear.toInt + chals.length * v.clusterCount < 2 ^ 63

/-! ## The accumulators -/

/-- The chain that is left after the new nodes have been passed over decides. -/
theorem WitnessNode.names_of_skipNew (hnew : chain.NewEmpty key)
    (h : (Acc.skipNew chain).Leads P key acc) : chain.Names P key acc := by
  induction chain with
  | last => exact h
  | link elem wit up ih =>
    unfold Acc.skipNew at h
    split_ifs at h with hwit
    · obtain ⟨helem, hup⟩ := hnew hwit
      exact .inr ⟨hwit.symm, helem, ih hup h⟩
    · exact .inl h

/-- The loop over the levels. -/
theorem insertLevels_ok {accs : List (List UInt8)} {count : ℕ} {sub : List UInt8}
    (hsub : accs[count]? = some sub)
    (h : Acc.insertLevels P key accs chain (count + 1) = .ok true) :
    ∃ top, accs[count + chain.depth]? = some top ∧ chain.Recomputed P key sub top := by
  induction chain generalizing count sub with
  | last => exact ⟨sub, hsub, rfl⟩
  | link elem wit up ih =>
    simp only [Acc.insertLevels, bind_eq_ok, unwrap_eq_ok, Nat.add_sub_cancel, hsub,
      Option.some.injEq, exists_eq_left'] at h
    obtain ⟨subAcc, hgenerate, next, hnext, hrest⟩ := h
    split_ifs at hrest with heq
    · subst heq
      obtain ⟨top, htop, hrecomputed⟩ := ih hnext hrest
      refine ⟨top, ?_, next, hgenerate, hrecomputed⟩
      rw [← htop]
      congr 1
      show count + (up.depth + 1) = count + 1 + up.depth
      omega
    · cases hrest

theorem verifyInsertUpdate_ok {exist : Option WitnessNode} {elems accs : List (List UInt8)}
    (h : Acc.verifyInsertUpdate P key exist elems accs acc = .ok true) :
    ∃ chain sub top, exist = some chain ∧ (Acc.skipNew chain).Leads P key acc ∧
      generateAcc P key chain.elem elems = .ok (some sub) ∧ chain.Recomputed P key sub top ∧
      accs[chain.depth]? = some top := by
  cases exist with
  | none => cases h
  | some chain =>
    unfold Acc.verifyInsertUpdate at h
    split_ifs at h with hshort
    · cases h
    · rw [and_then_eq_true, verifyMutilevelAcc_eq_true] at h
      simp only [bind_eq_ok, unwrap_eq_ok] at h
      obtain ⟨hleads, subAcc, hgenerate, first, hfirst, h⟩ := h
      split_ifs at h with heq
      · subst heq
        obtain ⟨top, htop, hrecomputed⟩ := insertLevels_ok hfirst h
        rw [zero_add] at htop
        exact ⟨chain, first, top, rfl, hleads, hgenerate, hrecomputed, htop⟩
      · cases h

/-! ## The labels -/

variable {v : Verifier} {node : ProverNode} {record : Record} {id : List UInt8}
  {chals : List (List Int64)} {proof : AccProof}

theorem ofNat_clusterCount (v : Verifier) : Int64.ofNat v.clusterCount = v.clusterSize := by
  have hcast : UInt64.ofNat v.clusterSize.toUInt64.toNat = v.clusterSize.toUInt64 :=
    UInt64.ofNat_toNat
  exact congrArg UInt64.toInt64 hcast

theorem ofNat_file (v : Verifier) (i j : ℕ) :
    Int64.ofNat (i * v.clusterCount + j) = .ofNat i * v.clusterSize + .ofNat j := by
  rw [Int64.ofNat_add, Int64.ofNat_mul, ofNat_clusterCount]

/-- A round of the loops over the new files. -/
theorem checkFile_ok {j : ℕ} {chal : List Int64} {label' : List UInt8}
    (hrecord : node.record = some record) (hlabel : label.length = labelLength id)
    (hroots : ∀ t root, v.newRoot node t = some root → root.length = defaultHashSize)
    (hj : j < v.clusterCount) (h : checkFile P v node id proof i chal label j = .ok label') :
    label'.length = labelLength id ∧ ∃ root, v.newRoot node (i * v.clusterCount + j) = some root ∧
      proof.labels[i * v.clusterCount + j]? = some (getHash P
        (id ++ getBytes (record.rear + .ofNat (i * v.clusterCount + j) + 1) ++ root)) := by
  simp only [checkFile, bind_eq_ok, unwrap_eq_ok, check_eq_ok, pure_eq_ok, hrecord,
    Option.some.injEq, exists_eq_left', exists_const] at h
  obtain ⟨index, -, cluster, -, ⟨-, hrear⟩, root, hroot, expected, hexpected, hhash, rfl⟩ := h
  have hmod : (i * v.clusterCount + j) % v.clusterCount = j := Nat.mul_add_mod_of_lt hj
  have hdiv : (i * v.clusterCount + j) / v.clusterCount = i := by
    rw [add_comm, Nat.add_mul_div_right _ _ (by omega), Nat.div_eq_of_lt hj, zero_add]
  have hnewRoot : v.newRoot node (i * v.clusterCount + j) = some root := by
    unfold Verifier.newRoot
    rw [hmod, hdiv]
    exact hroot
  -- the number in the label is the one that follows the record
  have hnumber : (cluster - 1) * v.clusterSize + .ofNat j + 1 =
      record.rear + .ofNat (i * v.clusterCount + j) + 1 := by
    have hcast : record.rear + .ofNat i * v.clusterSize + .ofNat j + 1 =
        (cluster - 1) * v.clusterSize + .ofNat j + 1 := congrArg UInt64.toInt64 hrear
    rw [← hcast, ofNat_file, ← Int64.add_assoc]
  refine ⟨?_, root, hnewRoot, ?_⟩
  · rw [length_copyData]
    exact hlabel
  · rw [← hnumber, ← copyData_label hlabel (hroots _ _ hnewRoot), hhash]
    exact hexpected

/-- What is known of the label of the new file at a position. -/
def LabelAt (P : Params) (v : Verifier) (node : ProverNode) (record : Record) (id : List UInt8)
    (proof : AccProof) (t : ℕ) : Prop :=
  ∃ root, v.newRoot node t = some root ∧
    proof.labels[t]? = some (getHash P (id ++ getBytes (record.rear + .ofNat t + 1) ++ root))

/-- The loop over the files of a cluster. -/
theorem checkCluster_ok {chal : List Int64} {label' : List UInt8}
    (hrecord : node.record = some record)
    (hroots : ∀ t root, v.newRoot node t = some root → root.length = defaultHashSize)
    (hlabel : label.length = labelLength id)
    (h : (List.range v.clusterCount).foldlM (checkFile P v node id proof i chal) label =
      .ok label') :
    label'.length = labelLength id ∧
      ∀ j < v.clusterCount, LabelAt P v node record id proof (i * v.clusterCount + j) := by
  have hfile : ∀ j ∈ List.range v.clusterCount, ∀ label label' : List UInt8,
      label.length = labelLength id → checkFile P v node id proof i chal label j = .ok label' →
      label'.length = labelLength id ∧ LabelAt P v node record id proof (i * v.clusterCount + j) :=
    fun j hj label label' hlabel hround =>
      checkFile_ok hrecord hlabel hroots (List.mem_range.mp hj) hround
  obtain ⟨hlabel', hrounds⟩ := foldlM_ok (Q := fun label => label.length = labelLength id)
    (fun j hj label label' hlabel hround => (hfile j hj label label' hlabel hround).1) hlabel h
  refine ⟨hlabel', ?_⟩
  intro j hj
  obtain ⟨label₁, label₂, hlabel₁, hround⟩ := hrounds j (List.mem_range.mpr hj)
  exact (hfile j (List.mem_range.mpr hj) label₁ label₂ hlabel₁ hround).2

/-- The labels of an accepted proof that fits are those of the new files. -/
theorem labels_of_checkAcc (hrecord : node.record = some record)
    (hfits : proof.Fits v node record chals) (h : checkAcc P v node id chals proof = .ok ()) :
    proof.labels = v.newLabels P node id record.rear chals.length := by
  simp only [checkAcc, bind_eq_ok, check_eq_ok, exists_const] at h
  obtain ⟨count, -, -, label, hloop, -⟩ := h
  obtain ⟨-, hrounds⟩ := foldlM_ok (Q := fun label => label.length = labelLength id)
    (fun _ _ label label' hlabel hround =>
      (checkCluster_ok hrecord hfits.roots hlabel hround).1) (length_emptyLabel id) hloop
  apply List.ext_getElem?
  intro t
  unfold Verifier.newLabels
  rw [List.getElem?_map]
  by_cases ht : t < chals.length * v.clusterCount
  · have hpos : 0 < v.clusterCount := by
      apply Nat.pos_of_ne_zero
      intro hzero
      rw [hzero] at ht
      omega
    have hi : t / v.clusterCount < chals.length := Nat.div_lt_of_lt_mul (by rwa [mul_comm])
    obtain ⟨label₁, label₂, hlabel, hround⟩ :=
      hrounds (chals[t / v.clusterCount], t / v.clusterCount)
        (List.mem_zipIdx_iff_getElem?.mpr (List.getElem?_eq_getElem hi))
    have hlabelAt := (checkCluster_ok hrecord hfits.roots hlabel hround).2 (t % v.clusterCount)
      (Nat.mod_lt t hpos)
    rw [Nat.div_add_mod'] at hlabelAt
    obtain ⟨root, hroot, hexpected⟩ := hlabelAt
    rw [List.getElem?_range ht, hexpected, Option.map_some, hroot]
    rfl
  · have hlabels : proof.labels.length ≤ t := by
      rw [hfits.labels]
      omega
    have hrange : (List.range (chals.length * v.clusterCount)).length ≤ t := by
      rw [List.length_range]
      omega
    rw [List.getElem?_eq_none hlabels, List.getElem?_eq_none hrange]
    rfl

/-! ## Soundness -/

/-! ## Two proofs -/

/-- A prover without idle files that has committed to 32 clusters of one file each, under a key
with the generator 1. -/
def newProver : ProverNode where
  id := [1]
  commitBuf := { fileIndexs := [], roots := List.replicate 32 (List.replicate 32 0) }
  record := some { oneRecord with rear := 0 }

/-- The verifier that knows this prover. -/
def newVerifier : Verifier where
  clusterSize := 1
  expanders := { k := 0, n := 1024, d := 64 }
  nodes := AList.insert (hexEncode [1]) newProver ∅

theorem newVerifier_nodeOf : newVerifier.nodeOf [1] = some newProver := AList.lookup_insert _

/-- The challenges for these clusters. -/
def newChals : List (List Int64) := (List.range 32).map fun i => [.ofNat (i + 1)]

/-- A proof with the labels of these files and a given chain and path. -/
def newProof (P : Params) (chain : WitnessNode) (path : List (List UInt8)) : AccProof where
  indexs := (List.range 32).map fun i => .ofNat (i + 1)
  labels := newVerifier.newLabels P newProver [1] 0 32
  witChains := some chain
  accPath := path

theorem checkFile_new (P : Params) (chain : WitnessNode) (path : List (List UInt8)) (hi : i < 32)
    (hlabel : label.length = labelLength [1]) :
    ∃ label', checkFile P newVerifier newProver [1] (newProof P chain path) i [.ofNat (i + 1)]
      label 0 = .ok label' ∧ label'.length = labelLength [1] := by
  have hnumbers : ∀ i < 32, (Int64.ofNat (i + 1)).toUInt64 =
      (Int64.ofNat (i + 1) - 1).toUInt64 * (1 : Int64).toUInt64 + .ofNat 0 + 1 ∧
      (0 : Int64).toUInt64 + .ofNat i * (1 : Int64).toUInt64 + .ofNat 0 + 1 =
        (Int64.ofNat (i + 1) - 1).toUInt64 * (1 : Int64).toUInt64 + .ofNat 0 + 1 := by decide
  have hlabels : ∀ i < 32, (0 : Int64) + .ofNat i + 1 =
      (Int64.ofNat (i + 1) - 1) * 1 + .ofNat 0 + 1 := by decide
  have hroots : ∀ i < 32, newVerifier.newRoot newProver i = some (List.replicate 32 0) := by
    decide
  have hindex : (newProof P chain path).indexs[i * (1 : Int64).toUInt64.toNat + 0]? =
      some (.ofNat (i + 1)) := by
    show ((List.range 32).map fun i => Int64.ofNat (i + 1))[i * 1 + 0]? = _
    rw [mul_one, add_zero, List.getElem?_map, List.getElem?_range hi]
    rfl
  have hexpected : (newProof P chain path).labels[i * (1 : Int64).toUInt64.toNat + 0]? =
      some (getHash P (copyData label [[1],
        getBytes ((Int64.ofNat (i + 1) - 1) * 1 + .ofNat 0 + 1), List.replicate 32 0])) := by
    rw [copyData_label hlabel rfl, ← hlabels i hi]
    have hcount : newVerifier.clusterCount = 1 := rfl
    show (newVerifier.newLabels P newProver [1] 0 32)[i * 1 + 0]? = _
    unfold Verifier.newLabels
    rw [hcount, mul_one, mul_one, add_zero, List.getElem?_map, List.getElem?_range hi,
      Option.map_some, hroots i hi]
    rfl
  refine ⟨copyData label [[1], getBytes ((Int64.ofNat (i + 1) - 1) * 1 + .ofNat 0 + 1),
    List.replicate 32 0], ?_, (length_copyData _ _).trans hlabel⟩
  simp only [checkFile, bind_eq_ok, unwrap_eq_ok, check_eq_ok,
    exists_const]
  have hroot : ∀ i < 32, newProver.commitBuf.roots[
      (((0 : Int64).toUInt64 + .ofNat 0) * .ofNat idleSetLen + .ofNat i).toNat]? =
      some (List.replicate 32 0) := by decide
  exact ⟨_, hindex, _, rfl, _, rfl, hnumbers i hi, _, hroot i hi, _, hexpected, rfl, rfl⟩

/-- The proof is accepted if the chain and the path are. -/
theorem run_verifyAcc_new (P : Params) {path : List (List UInt8)}
    (hinsert : Acc.verifyInsertUpdate P oneRecord.key (some chain)
      (newVerifier.newLabels P newProver [1] 0 32) path [1] = .ok true)
    (hacc : path.getLast? = some acc) :
    ∃ v, (verifyAcc P [1] newChals (newProof P chain path)).run newVerifier = .ok () v ∧
      v.nodeOf [1] = some
        { newProver with
          record := some { oneRecord with acc := acc, rear := 32 }
          commitBuf := { fileIndexs := [], roots := [] } } := by
  have hloop : ∃ label, newChals.zipIdx.foldlM (fun label p =>
      (List.range newVerifier.clusterSize.toUInt64.toNat).foldlM
        (checkFile P newVerifier newProver [1] (newProof P chain path) p.2 p.1) label)
      (emptyLabel [1]) = .ok label ∧ label.length = labelLength [1] := by
    refine exists_foldlM_ok ?_ (length_emptyLabel [1])
    intro p hp label hlabel
    rw [List.mem_zipIdx_iff_getElem?] at hp
    unfold newChals at hp
    rw [List.getElem?_map, Option.map_eq_some_iff] at hp
    obtain ⟨i, hi, hchal⟩ := hp
    obtain ⟨hlt, rfl⟩ := List.getElem?_eq_some_iff.mp hi
    rw [List.getElem_range] at hchal
    obtain ⟨label', hfile, hlabel'⟩ := checkFile_new P chain path hlt hlabel
    refine ⟨label', ?_, hlabel'⟩
    show (checkFile P newVerifier newProver [1] (newProof P chain path) p.2 p.1 label 0 >>=
      fun label => pure label) = .ok label'
    rw [← hchal, hfile]
    rfl
  obtain ⟨label, hlabel, -⟩ := hloop
  have hcheck : checkAcc P newVerifier newProver [1] newChals (newProof P chain path) = .ok () := by
    simp only [checkAcc, bind_eq_ok, unwrap_eq_ok, check_eq_ok, exists_const]
    refine ⟨32, ?_, ⟨rfl, rfl⟩, label, hlabel, _, rfl, true, hinsert, rfl⟩
    show checkedDiv ((List.range 32).map fun i => Int64.ofNat (i + 1)).length 1 = some 32
    rfl
  have hrun : (verifyAcc P [1] newChals (newProof P chain path)).run newVerifier = .ok ()
      (newVerifier.put [1]
        { newProver with
          record := some { oneRecord with acc := acc, rear := 32 }
          commitBuf := { fileIndexs := [], roots := [] } }) := by
    unfold verifyAcc
    rw [EStateM.run_bind, EStateM.run_get]
    dsimp only
    rw [newVerifier_nodeOf]
    have hrecord : newProver.record = some { oneRecord with rear := 0 } := rfl
    have hpath : (newProof P chain path).accPath.getLast? = some acc := hacc
    rw [run_lift_bind_ok hcheck, run_lift_bind_ok (unwrap_eq_ok.mpr hrecord),
      run_lift_bind_ok (unwrap_eq_ok.mpr hpath)]
    rfl
  exact ⟨_, hrun, newVerifier.nodeOf_put [1] _⟩

/-- Under the generator 1 the path decides. -/
theorem verifyInsertUpdate_one (P : Params) {path : List (List UInt8)}
    (hskip : Acc.skipNew chain = .last [1] [1]) (helem : chain.elem = [1])
    (hlength : 3 ≤ path.length) (hfirst : path[0]? = some [1])
    (hlevels : Acc.insertLevels P oneRecord.key path chain 1 = .ok true) :
    Acc.verifyInsertUpdate P oneRecord.key (some chain)
      (newVerifier.newLabels P newProver [1] 0 32) path [1] = .ok true := by
  have hshort : ¬ ((newVerifier.newLabels P newProver [1] 0 32).isEmpty = true ∨
      path.length < Acc.defaultLevel) := by
    rw [not_or, not_lt]
    refine ⟨?_, hlength⟩
    intro hempty
    have hnil := congrArg List.length (List.isEmpty_iff.mp hempty)
    cases hnil
  unfold Acc.verifyInsertUpdate
  dsimp only
  rw [if_neg hshort, hskip, helem, generateAcc_one, hfirst]
  exact hlevels

/-- The chain of the first sub-accumulator, through three levels. -/
def newChain : WitnessNode := .link [1] [1] (.link [1] [1] (.last [1] [1]))

end Pois
