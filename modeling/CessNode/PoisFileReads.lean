/-
# What the checks of files read

For the three checks on files (`verifyDeletion`, `verifySpace` and `verifyAcc`) the entries that they
read, in the order of the checks, and that they do not panic exactly if these are there.

The buffer of a label goes through all rounds of `verify_space` and `verify_acc`, and a root that is
not as long as a hash leaves a part of the label of the round before in it.  So whether a round
passes depends on the rounds before, and `nextLabel` says what they leave.
-/
import CessNode.PoisReads
import CessNode.PoisSpace

namespace Pois

open Loop

variable {α β : Type} {P : Params}
variable {v : Verifier} {c : Int64 × ℕ} {chals : List (List Int64)}

/-! ## Checks that change the nodes -/

/-- A check that may change the nodes returns a value or an error. -/
def NoPanicAt (x : VerifierM α) (v : Verifier) : Prop := ∀ v', x.run v ≠ .error .panic v'

theorem noPanicAt_lift_bind {x : Except Error α} {f : α → VerifierM β} :
    NoPanicAt (lift x >>= f) v ↔ NoPanic x ∧ ∀ a, x = .ok a → NoPanicAt (f a) v := by
  cases x with
  | ok a =>
    constructor
    · intro h
      refine ⟨noPanic_ok a, ?_⟩
      intro a' ha'
      obtain rfl := Except.ok.inj ha'
      exact h
    · rintro ⟨-, h⟩
      exact h a rfl
  | error e =>
    constructor
    · intro h
      refine ⟨?_, fun a ha => by cases ha⟩
      intro he
      obtain rfl := Except.error.inj he
      exact h v rfl
    · rintro ⟨h, -⟩ v' hrun
      apply h
      cases hrun
      rfl

theorem noPanicAt_unwrap_bind {o : Option α} {f : α → VerifierM β} :
    NoPanicAt (lift (unwrap o) >>= f) v ↔ ∃ a, o = some a ∧ NoPanicAt (f a) v :=
  noPanicAt_lift_bind.trans unwrap_and_iff

theorem noPanicAt_check_bind {p : Prop} [Decidable p] {message : String} {f : Unit → VerifierM β} :
    NoPanicAt (lift (check p message) >>= f) v ↔ (p → NoPanicAt (f ()) v) :=
  noPanicAt_lift_bind.trans check_and_iff

theorem noPanicAt_putNode (id : List UInt8) (node : ProverNode) (v : Verifier) :
    NoPanicAt (putNode id node) v := by
  intro v' h
  cases h

theorem noPanicAt_get_bind {f : Verifier → VerifierM α} :
    NoPanicAt (get >>= f) v ↔ NoPanicAt (f v) v := Iff.rfl

theorem noPanicAt_putNode_bind {id : List UInt8} {node : ProverNode} {f : Unit → VerifierM α} :
    NoPanicAt (putNode id node >>= f) v ↔
      NoPanicAt (f ()) { v with nodes := v.nodes.insert (hexEncode id) node } := Iff.rfl

theorem noPanicAt_throw (message : String) (v : Verifier) :
    NoPanicAt (throw (.bail message) : VerifierM α) v := by
  intro v' h
  cases h

/-! ## Deletion -/

/-- What `verify_deletion` reads. -/
def DeletionProof.Reads (P : Params) (id : List UInt8) (node : ProverNode)
    (proof : DeletionProof) : Prop :=
  ∃ record, node.record = some record ∧
    (proof.roots.length ≤ (record.rear - record.front).toUInt64.toNat →
      Acc.DeleteReads P record.key proof.witChain (deletedLabels P id record.front proof.roots)
        proof.accPath record.acc ∧ proof.accPath ≠ [])

/-- **When the check of a deletion panics.**  It reads the last entry of the path whatever the path
is, and an entry for every level of the chain. -/
theorem noPanicAt_verifyDeletion {id : List UInt8} {proof : DeletionProof} :
    NoPanicAt (verifyDeletion P id proof) v ↔
      ∀ node, v.nodeOf id = some node → proof.Reads P id node := by
  unfold verifyDeletion
  rw [noPanicAt_get_bind]
  cases hnode : v.nodeOf id with
  | none => exact ⟨fun _ node h => (by cases h), fun _ => noPanicAt_throw _ v⟩
  | some node =>
    rw [forall_some, noPanicAt_unwrap_bind]
    refine exists_congr fun record => and_congr_right fun _ => ?_
    rw [noPanicAt_check_bind]
    refine imp_congr_right fun _ => ?_
    rw [noPanicAt_lift_bind, noPanic_verifyDeleteUpdate]
    refine and_congr_right fun _ => ?_
    simp only [noPanicAt_check_bind, noPanicAt_putNode_bind, noPanicAt_unwrap_bind,
      noPanicAt_putNode, and_true, ← ne_none_iff, ne_eq, List.getLast?_eq_none_iff]
    constructor
    · intro h hnil
      -- a path that is too short is refused by the update, which the check takes for success
      have hshort : Acc.verifyDeleteUpdate P record.key proof.witChain
          (deletedLabels P id record.front proof.roots) proof.accPath record.acc =
          .ok false := by
        rw [hnil]
        exact if_pos (.inr (by decide))
      exact h false hshort rfl hnil
    · intro hpath updated _ _
      exact hpath

/-! ## Space -/

section Space

variable {chals : List Int64} {proof : SpaceProof}

/-- The proof of the node for challenge `c` of the file at position `i`. -/
def SpaceProof.nodeAt (proof : SpaceProof) (i : ℕ) (c : Int64 × ℕ) : Option MhtProof :=
  proof.proofs[i]?.bind fun proofs => proofs[c.2]?

/-- The proof of a node is there and is right. -/
def SpaceProof.NodePasses (P : Params) (proof : SpaceProof) (p : List UInt8 × ℕ)
    (c : Int64 × ℕ) : Prop :=
  ∃ node, proof.nodeAt p.2 c = some node ∧ node.Proves P p.1 c.1

/-- What the round of a file reads: a proof for every challenge that is reached and, if all are
right, a witness. -/
def SpaceProof.FileReads (P : Params) (proof : SpaceProof) (chals : List Int64)
    (p : List UInt8 × ℕ) : Prop :=
  Reached (fun c => proof.nodeAt p.2 c ≠ none) (proof.NodePasses P p) chals.zipIdx ∧
    ((∀ c ∈ chals.zipIdx, proof.NodePasses P p c) → proof.witChains[p.2]? ≠ none)

/-- The label in the buffer of `verify_space`. -/
def SpaceProof.nextLabel (proof : SpaceProof) (id label : List UInt8) (p : List UInt8 × ℕ) :
    List UInt8 := copyData label [id, getBytes (proof.left + .ofNat p.2), p.1]

/-- The round of a file passes. -/
def SpaceProof.FilePasses (P : Params) (proof : SpaceProof) (id : List UInt8) (chals : List Int64)
    (label : List UInt8) (p : List UInt8 × ℕ) : Prop :=
  (∀ c ∈ chals.zipIdx, proof.NodePasses P p c) ∧
    proof.witChains[p.2]?.map WitnessNode.elem = some (getHash P (proof.nextLabel id label p))

/-- What `verify_space` reads. -/
def SpaceProof.Reads (P : Params) (draw : ℕ → ℕ) (node : ProverNode) (chals : List Int64)
    (proof : SpaceProof) : Prop :=
  chals ≠ [] → ∃ record, node.record = some record ∧
    (¬ (proof.left ≤ record.front ∨ record.rear + 1 < proof.right) →
      Loop.Reads (fun _ => proof.FileReads P chals) (proof.FilePasses P node.id chals)
        (proof.nextLabel node.id) (emptyLabel node.id) proof.roots.zipIdx ∧
      (Passes (proof.FilePasses P node.id chals) (proof.nextLabel node.id) (emptyLabel node.id)
          proof.roots.zipIdx →
        Acc.BatchReads P record.key proof.left record.acc draw proof.witChains.length 0 none
          proof.witChains))

theorem noPanic_checkNode {root : List UInt8} {chal : Int64} {node : MhtProof} :
    NoPanic (checkNode P root chal node) := by
  unfold checkNode
  rw [noPanic_check_bind]
  intro _
  rw [noPanic_check_bind]
  intro _
  exact noPanic_check _ _

/-- The check of the node for challenge `c` of a file. -/
def SpaceProof.checkNodeAt (P : Params) (proof : SpaceProof) (p : List UInt8 × ℕ)
    (c : Int64 × ℕ) : Except Error Unit := do
  let proofs ← unwrap proof.proofs[p.2]?
  let node ← unwrap proofs[c.2]?
  checkNode P p.1 c.1 node

/-- The two reads as one. -/
theorem checkNodeAt_eq {p : List UInt8 × ℕ} :
    proof.checkNodeAt P p c = unwrap (proof.nodeAt p.2 c) >>= checkNode P p.1 c.1 := by
  unfold SpaceProof.checkNodeAt SpaceProof.nodeAt
  cases proof.proofs[p.2]? with
  | none => rfl
  | some proofs => rfl

theorem noPanic_checkNodeAt {p : List UInt8 × ℕ} :
    NoPanic (proof.checkNodeAt P p c) ↔ proof.nodeAt p.2 c ≠ none := by
  simp only [checkNodeAt_eq, noPanic_unwrap_bind, noPanic_checkNode, and_true, ne_none_iff]

theorem checkNodeAt_eq_ok {p : List UInt8 × ℕ} :
    proof.checkNodeAt P p c = .ok () ↔ proof.NodePasses P p c := by
  simp only [checkNodeAt_eq, Dispatch.bind_eq_ok, unwrap_eq_ok, checkNode_eq_ok]
  exact Iff.rfl

theorem round_spaceFile (id : List UInt8) (p : List UInt8 × ℕ) :
    Round (checkSpaceFile P id chals proof) (fun _ => proof.FileReads P chals)
      (proof.FilePasses P id chals) (proof.nextLabel id) (fun _ => True) p where
  noPanic label _ := by
    have hnodes : NoPanic (chals.zipIdx.forM (proof.checkNodeAt P p)) ↔
        Reached (fun c => proof.nodeAt p.2 c ≠ none) (proof.NodePasses P p) chals.zipIdx :=
      noPanic_forM (fun c _ => noPanic_checkNodeAt) (fun c _ => checkNodeAt_eq_ok)
    have hpassed : chals.zipIdx.forM (proof.checkNodeAt P p) = .ok () ↔
        ∀ c ∈ chals.zipIdx, proof.NodePasses P p c := by
      rw [forM_eq_ok]
      exact forall₂_congr fun c _ => checkNodeAt_eq_ok
    show NoPanic (chals.zipIdx.forM (proof.checkNodeAt P p) >>= fun _ => _) ↔ _
    unfold SpaceProof.FileReads
    rw [noPanic_bind, hnodes, ← hpassed]
    refine and_congr_right fun _ => ?_
    rw [ne_none_iff]
    constructor
    · intro h hok
      obtain ⟨witness, hwitness, -⟩ := noPanic_unwrap_bind.mp (h () hok)
      exact ⟨witness, hwitness⟩
    · rintro h ⟨⟩ hok
      obtain ⟨witness, hwitness⟩ := h hok
      refine noPanic_unwrap_bind.mpr ⟨witness, hwitness, ?_⟩
      rw [noPanic_check_bind]
      exact fun _ => noPanic_pure _
  ok label label' _ := by
    simp only [checkSpaceFile, Dispatch.bind_eq_ok, unwrap_eq_ok, check_eq_ok, pure_eq_ok]
    unfold SpaceProof.FilePasses
    constructor
    · rintro ⟨⟨⟩, hnodes, witness, hwitness, -, hlabel, rfl⟩
      refine ⟨⟨?_, ?_⟩, rfl⟩
      · intro c hc
        exact checkNodeAt_eq_ok.mp (forM_eq_ok.mp hnodes c hc)
      · rw [hwitness, Option.map_some, ← hlabel]
        rfl
    · rintro ⟨⟨hnodes, hwitness⟩, rfl⟩
      obtain ⟨witness, hwitness, helem⟩ := Option.map_eq_some_iff.mp hwitness
      exact ⟨(), forM_eq_ok.mpr fun c hc => checkNodeAt_eq_ok.mpr (hnodes c hc), witness, hwitness,
        (), helem.symm, rfl⟩
  keeps _ _ _ := trivial

/-- **When the check of challenged files panics.** -/
theorem noPanic_verifySpace {draw : ℕ → ℕ} {node : ProverNode} :
    NoPanic (verifySpace P draw node chals proof) ↔ proof.Reads P draw node chals := by
  have hrounds : ∀ p ∈ proof.roots.zipIdx, Round (checkSpaceFile P node.id chals proof)
      (fun _ => proof.FileReads P chals) (proof.FilePasses P node.id chals)
      (proof.nextLabel node.id) (fun _ => True) p := fun p _ => round_spaceFile node.id p
  unfold verifySpace SpaceProof.Reads
  rw [noPanic_check_bind]
  refine imp_congr_right fun _ => ?_
  rw [noPanic_unwrap_bind]
  refine exists_congr fun record => and_congr_right fun _ => ?_
  rw [noPanic_check_bind]
  refine imp_congr_right fun _ => ?_
  rw [noPanic_foldlM_bind hrounds trivial]
  refine and_congr_right fun _ => imp_congr_right fun _ => ?_
  rw [noPanic_bind]
  exact (and_iff_left fun b _ => noPanic_check _ _).trans noPanic_batchFrom

end Space

/-! ## Insertion -/

section Insertion

variable {v : Verifier} {node : ProverNode} {id : List UInt8} {proof : AccProof}

/-- The numbers of file `j` of the challenge at position `i` agree: the index of the proof and the
next file of the record are the challenged one. -/
def Record.Numbered (record : Record) (v : Verifier) (index cluster : Int64) (i j : ℕ) : Prop :=
  let clusterSize := v.clusterSize.toUInt64
  let number := (cluster - 1).toUInt64 * clusterSize + .ofNat j + 1
  index.toUInt64 = number ∧ record.rear.toUInt64 + .ofNat i * clusterSize + .ofNat j + 1 = number

/-- The root of file `j` of the challenge at position `i`. -/
def ProverNode.fileRoot (node : ProverNode) (v : Verifier) (i j : ℕ) : Option (List UInt8) :=
  node.commitBuf.roots[((v.expanders.k.toUInt64 + .ofNat j) * .ofNat idleSetLen + .ofNat i).toNat]?

/-- The place of file `j` of the challenge at position `i` in the lists of the proof. -/
def filePlace (v : Verifier) (i j : ℕ) : ℕ := i * v.clusterSize.toUInt64.toNat + j

/-- What the round of a file reads: its index, the cluster, the record and, if the numbers agree, its
root and its label. -/
def AccProof.FileReads (v : Verifier) (node : ProverNode) (proof : AccProof)
    (p : List Int64 × ℕ) (j : ℕ) : Prop :=
  ∃ index, proof.indexs[filePlace v p.2 j]? = some index ∧
    ∃ cluster, p.1[0]? = some cluster ∧ ∃ record, node.record = some record ∧
      (record.Numbered v index cluster p.2 j →
        ∃ root, node.fileRoot v p.2 j = some root ∧
          ∃ expected, proof.labels[filePlace v p.2 j]? = some expected)

/-- The label in the buffer of `verify_acc`. -/
def AccProof.labelOf (v : Verifier) (id label : List UInt8) (cluster : Int64) (j : ℕ)
    (root : List UInt8) : List UInt8 :=
  copyData label [id, getBytes ((cluster - 1) * v.clusterSize + .ofNat j + 1), root]

/-- The label in the buffer after the round of a file. -/
def AccProof.nextLabel (v : Verifier) (node : ProverNode) (id : List UInt8) (p : List Int64 × ℕ)
    (label : List UInt8) (j : ℕ) : List UInt8 :=
  AccProof.labelOf v id label (p.1[0]?.getD 0) j ((node.fileRoot v p.2 j).getD [])

/-- The round of a file passes. -/
def AccProof.FilePasses (P : Params) (v : Verifier) (node : ProverNode) (id : List UInt8)
    (proof : AccProof) (p : List Int64 × ℕ) (label : List UInt8) (j : ℕ) : Prop :=
  ∃ index, proof.indexs[filePlace v p.2 j]? = some index ∧
    ∃ cluster, p.1[0]? = some cluster ∧ ∃ record, node.record = some record ∧
      record.Numbered v index cluster p.2 j ∧ ∃ root, node.fileRoot v p.2 j = some root ∧
        proof.labels[filePlace v p.2 j]? =
          some (getHash P (AccProof.labelOf v id label cluster j root))

/-- The files of a cluster. -/
def Verifier.files (v : Verifier) : List ℕ := List.range v.clusterSize.toUInt64.toNat

/-- What the rounds of a challenge read. -/
def AccProof.ClusterReads (P : Params) (v : Verifier) (node : ProverNode) (id : List UInt8)
    (proof : AccProof) (label : List UInt8) (p : List Int64 × ℕ) : Prop :=
  Loop.Reads (fun _ => proof.FileReads v node p) (proof.FilePasses P v node id p)
    (AccProof.nextLabel v node id p) label v.files

/-- The rounds of a challenge pass. -/
def AccProof.ClusterPasses (P : Params) (v : Verifier) (node : ProverNode) (id : List UInt8)
    (proof : AccProof) (label : List UInt8) (p : List Int64 × ℕ) : Prop :=
  Passes (proof.FilePasses P v node id p) (AccProof.nextLabel v node id p) label v.files

/-- The label in the buffer after the rounds of a challenge. -/
def AccProof.nextCluster (v : Verifier) (node : ProverNode) (id label : List UInt8)
    (p : List Int64 × ℕ) : List UInt8 := v.files.foldl (AccProof.nextLabel v node id p) label

/-- What `verify_acc` reads. -/
def AccProof.Reads (P : Params) (v : Verifier) (node : ProverNode) (id : List UInt8)
    (chals : List (List Int64)) (proof : AccProof) : Prop :=
  chals.length = proof.indexs.length / v.clusterSize.toUInt64.toNat ∧ chals.length = idleSetLen →
    Loop.Reads (proof.ClusterReads P v node id) (proof.ClusterPasses P v node id)
      (AccProof.nextCluster v node id) (emptyLabel id) chals.zipIdx ∧
    (Passes (proof.ClusterPasses P v node id) (AccProof.nextCluster v node id) (emptyLabel id)
        chals.zipIdx →
      ∃ record, node.record = some record ∧ ∀ exist, proof.witChains = some exist →
        Acc.InsertReads P record.key exist proof.labels proof.accPath record.acc)

theorem round_file (p : List Int64 × ℕ) (j : ℕ) :
    Round (checkFile P v node id proof p.2 p.1) (fun _ => proof.FileReads v node p)
      (proof.FilePasses P v node id p) (AccProof.nextLabel v node id p) (fun _ => True) j where
  noPanic label _ := by
    simp only [checkFile, noPanic_unwrap_bind, noPanic_check_bind, noPanic_pure, implies_true,
      and_true]
    rfl
  ok label label' _ := by
    simp only [checkFile, Dispatch.bind_eq_ok, unwrap_eq_ok, check_eq_ok, pure_eq_ok]
    constructor
    · rintro ⟨index, hindex, cluster, hcluster, record, hrecord, -, hnumbered, root, hroot, expected,
        hexpected, -, hlabel, rfl⟩
      refine ⟨⟨index, hindex, cluster, hcluster, record, hrecord, hnumbered, root, hroot, ?_⟩, ?_⟩
      · exact hexpected.trans (congrArg some hlabel.symm)
      · unfold AccProof.nextLabel
        rw [hcluster, show node.fileRoot v p.2 j = some root from hroot]
        rfl
    · rintro ⟨⟨index, hindex, cluster, hcluster, record, hrecord, hnumbered, root, hroot, hexpected⟩,
        rfl⟩
      refine ⟨index, hindex, cluster, hcluster, record, hrecord, (), hnumbered, root, hroot, _,
        hexpected, (), rfl, ?_⟩
      unfold AccProof.nextLabel
      rw [hcluster, hroot]
      rfl
  keeps _ _ _ := trivial

theorem round_cluster (p : List Int64 × ℕ) :
    Round (fun label p => v.files.foldlM (checkFile P v node id proof p.2 p.1) label)
      (proof.ClusterReads P v node id) (proof.ClusterPasses P v node id)
      (AccProof.nextCluster v node id) (fun _ => True) p :=
  round_foldlM fun j _ => round_file p j

theorem noPanic_insertUpdate {key : RsaKey} {exist : Option WitnessNode}
    {elems accs : List (List UInt8)} {acc : List UInt8} :
    NoPanic (Acc.verifyInsertUpdate P key exist elems accs acc) ↔
      ∀ chain, exist = some chain → Acc.InsertReads P key chain elems accs acc := by
  cases exist with
  | none => exact ⟨fun _ chain h => (by cases h), fun _ => noPanic_pure false⟩
  | some chain =>
    rw [noPanic_verifyInsertUpdate, forall_some]

/-- An insertion that is accepted has a path. -/
theorem accPath_ne_nil {key : RsaKey} {exist : Option WitnessNode}
    {elems accs : List (List UInt8)} {acc : List UInt8}
    (h : Acc.verifyInsertUpdate P key exist elems accs acc = .ok true) : accs ≠ [] := by
  rintro rfl
  cases exist with
  | none => cases h
  | some exist =>
    have hshort : Acc.verifyInsertUpdate P key (some exist) elems [] acc = .ok false :=
      if_pos (.inr (by decide))
    rw [hshort] at h
    cases h

theorem noPanic_checkAcc (hsize : v.clusterSize.toUInt64.toNat ≠ 0) :
    NoPanic (checkAcc P v node id chals proof) ↔ proof.Reads P v node id chals := by
  have hrounds : ∀ p ∈ chals.zipIdx,
      Round (fun label p => v.files.foldlM (checkFile P v node id proof p.2 p.1) label)
        (proof.ClusterReads P v node id) (proof.ClusterPasses P v node id)
        (AccProof.nextCluster v node id) (fun _ => True) p := fun p _ => round_cluster p
  have hcount : Dispatch.checkedDiv proof.indexs.length v.clusterSize.toUInt64.toNat =
      some (proof.indexs.length / v.clusterSize.toUInt64.toNat) := if_neg hsize
  simp only [checkAcc, hcount]
  refine noPanic_check_bind.trans (imp_congr_right fun _ => ?_)
  refine (noPanic_foldlM_bind hrounds trivial).trans ?_
  refine and_congr_right fun _ => imp_congr_right fun _ => ?_
  rw [noPanic_unwrap_bind]
  refine exists_congr fun record => and_congr_right fun _ => ?_
  rw [noPanic_bind]
  exact (and_iff_left fun b _ => noPanic_check _ _).trans noPanic_insertUpdate

/-- After the checks of `verify_acc` there are a record and a path. -/
theorem exists_of_checkAcc (h : checkAcc P v node id chals proof = .ok ()) :
    (∃ record, node.record = some record) ∧ proof.accPath ≠ [] := by
  simp only [checkAcc, Dispatch.bind_eq_ok, unwrap_eq_ok, check_eq_ok] at h
  obtain ⟨-, -, -, -, -, -, record, hrecord, inserted, hinserted, rfl⟩ := h
  exact ⟨⟨record, hrecord⟩, accPath_ne_nil hinserted⟩

/-- **When the check of added files panics.** -/
theorem noPanicAt_verifyAcc (hsize : v.clusterSize.toUInt64.toNat ≠ 0) :
    NoPanicAt (verifyAcc P id chals proof) v ↔
      ∀ node, v.nodeOf id = some node → proof.Reads P v node id chals := by
  unfold verifyAcc
  rw [noPanicAt_get_bind]
  cases hnode : v.nodeOf id with
  | none => exact ⟨fun _ node h => (by cases h), fun _ => noPanicAt_throw _ v⟩
  | some node =>
    rw [noPanicAt_lift_bind, noPanic_checkAcc hsize, and_iff_left, forall_some]
    rintro ⟨⟩ hchecked
    obtain ⟨⟨record, hrecord⟩, hpath⟩ := exists_of_checkAcc hchecked
    refine noPanicAt_unwrap_bind.mpr ⟨record, hrecord, ?_⟩
    exact noPanicAt_unwrap_bind.mpr ⟨_, List.getLast?_eq_some_getLast hpath, noPanicAt_putNode _ _ _⟩

end Insertion

end Pois
