/-
# The check of committed files

The model of `verify_commit_proofs`: for every challenge the label of a node has to be in the tree
of its layer and cluster, and to be the hash of its place, the labels of its parents, the labels of
its elders and the label of its neighbour.

The labels go through one buffer, whose parts are the place, a sum of the parents and a sum of the
elders (`checkChallenge_ok` says what is in it).  `add_data` leaves out a label that is too short,
and the path of a node is never compared with its index.  `commit_bound_iff` says that apart from
these two the accepted label is the one of the challenged position.
-/
import CessNode.PoisExpanders
import CessNode.PoisPaths

open Dispatch (bind_eq_ok)

namespace Pois

/-! ## Bytes -/

/-- `get_bytes` of an `i32`. -/
def getBytes32 (v : Int32) : List UInt8 :=
  (List.range 4).reverse.map fun i => .ofNat (v.toUInt32.toNat / 2 ^ (8 * i) % 256)

/-- `HASH_SIZE`. -/
def hashSize : ℕ := 64

/-- `add_data` with one source: a source that is shorter than the target is left out. -/
def addData (target source : List UInt8) : List UInt8 :=
  if source.length < target.length then target else List.zipWith (· ^^^ ·) target source

/-- `add_data` on the part of a buffer that begins at `start`. -/
def addDataAt (start : ℕ) (buffer source : List UInt8) : List UInt8 :=
  buffer.take start ++ addData ((buffer.drop start).take hashSize) source ++
    buffer.drop (start + hashSize)

/-- `front_size`. -/
def frontSize (id : List UInt8) : ℕ := 4 + id.length + 8 + 8

/-! ## The check -/

/-- `PICK`. -/
def pick : Int32 := 4

/-- `CLUSTER_SIZE`. -/
def defaultClusterSize : Int64 := 8

/-- The index of the node of challenge `j`: from the challenge itself or, for the later ones, the
parent of the node before that the challenge names. -/
def challengeIndex (v : Verifier) (chals : List Int64) (proofs : List CommitProof) (j : ℕ) :
    Option Int32 := do
  let chal ← chals[j]?
  if j ≤ v.clusterSize.toUInt64.toNat + 1 then pure chal.toInt32
  else
    let before ← proofs[j - 2]?
    let parent ← before.parents[chal.toUInt64.toNat]?
    pure parent.index

/-- The layer of the node of challenge `j`. -/
def challengeLayer (v : Verifier) (j : ℕ) (idx : Int32) : Int64 :=
  if j ≤ v.clusterSize.toUInt64.toNat then v.expanders.k + .ofNat j - 1
  else idx.toInt64 / v.expanders.n

/-- The position of the root of a layer and cluster. -/
def rootIndex (layer : UInt64) (cluster : Int64) : ℕ :=
  (layer * .ofNat idleSetLen + (cluster.toUInt64 - 1) % .ofNat idleSetLen).toNat

/-- The number of the file of challenge `j`. -/
def fileIndex (v : Verifier) (cluster layer : Int64) (j : ℕ) : Int64 :=
  if layer ≥ v.expanders.k then (cluster - 1) * v.clusterSize + .ofNat j else 0

variable (P : Params)
variable {label label' : List UInt8} {cluster layer : Int64} {proof : CommitProof}

/-- A path proof in the tree with the given root, or the message. -/
def checkPath (roots : List (List UInt8)) (index : ℕ) (proof : MhtProof) (message : String) :
    Except Error Unit := do
  let root ← unwrap roots[index]?
  check (verifyPathProof P root proof.label { locs := proof.locs, path := proof.paths } = true)
    message

/-- The position of the root of the tree of a parent: the layer of the node itself or the one
below. -/
def parentRootIndex (v : Verifier) (cluster layer : Int64) (p : MhtProof) : ℕ :=
  let logicalLayer := if layer > v.expanders.k then v.expanders.k else layer
  if p.index.toInt64 ≥ logicalLayer * v.expanders.n then rootIndex layer.toUInt64 cluster
  else rootIndex (logicalLayer.toUInt64 - 1) cluster

/-- A round of the loop over the parents. -/
def addParentLabel (v : Verifier) (roots : List (List UInt8)) (start : ℕ) (cluster layer : Int64)
    (label : List UInt8) (p : MhtProof) : Except Error (List UInt8) := do
  let index := parentRootIndex v cluster layer p
  let _ ← unwrap roots[index]?
  if p.index % 6 = 0 then
    checkPath P roots index p "verify commit proofs error: verify parent path proof error"
  pure (addDataAt start label p.label)

/-- A round of the loop over the elders, from the second on. -/
def addElderLabel (v : Verifier) (roots : List (List UInt8)) (start : ℕ) (cluster layer : Int64)
    (label : List UInt8) (p : MhtProof × ℕ) : Except Error (List UInt8) :=
  if v.expanders.k = 0 then .error .panic
  else do
    let above := (layer - v.expanders.k / 2).toUInt64 / v.expanders.k.toUInt64 + 2 * .ofNat p.2
    checkPath P roots (rootIndex above cluster) p.1
      "verify commit proofs error: verify elder node path proof error"
    pure (addDataAt start label p.1.label)

/-- The labels of the parents and elders, added to the buffer. -/
def addLabels (v : Verifier) (roots : List (List UInt8)) (id : List UInt8)
    (cluster layer : Int64) (proof : CommitProof) (label : List UInt8) :
    Except Error (List UInt8) :=
  if layer > 0 then do
    let label ← proof.parents.foldlM (addParentLabel P v roots (frontSize id) cluster layer) label
    if layer ≥ v.expanders.k then
      proof.elders.tail.zipIdx.foldlM
        (addElderLabel P v roots (frontSize id + hashSize) cluster layer) label
    else pure label
  else pure label

/-- The hash of the buffer, with the label of the neighbour unless the node is in the first cluster
of the first layer. -/
def nodeHash (roots : List (List UInt8)) (cluster layer : Int64) (proof : CommitProof)
    (label : List UInt8) : Except Error (List UInt8) :=
  if (cluster - 1) % .ofNat idleSetLen + layer > 0 then do
    let elder ← unwrap proof.elders[0]?
    checkPath P roots
      (layer * .ofNat idleSetLen + (cluster - 1) % .ofNat idleSetLen - 1).toUInt64.toNat elder
      "verify commit proofs error: verify neighbor node path proof error"
    pure (getHash P (label ++ elder.label))
  else pure (getHash P label)

/-- A round of the inner loop of `verify_commit_proofs`: challenge `j` of a row.  The buffer is the
one of the round before. -/
def checkChallenge (v : Verifier) (roots : List (List UInt8)) (id : List UInt8)
    (chals : List Int64) (proofs : List CommitProof) (label : List UInt8) (j : ℕ) :
    Except Error (List UInt8) := do
  let cluster ← unwrap chals[0]?
  let idx ← unwrap (challengeIndex v chals proofs j)
  if v.clusterSize.toUInt64.toNat < j ∧ v.expanders.n = 0 then .error .panic
  else
    let layer := challengeLayer v j idx
    let proof ← unwrap proofs[j - 1]?
    checkPath P roots (rootIndex layer.toUInt64 cluster) proof.node
      "verify commit proofs error: verify path proof error"
    let label := copyData label [id, getBytes cluster, getBytes (fileIndex v cluster layer j),
      getBytes32 idx, List.replicate (2 * hashSize) 0]
    let label ← addLabels P v roots id cluster layer proof label
    let hash ← nodeHash P roots cluster layer proof label
    check (hash = proof.node.label) "verify commit proofs error: verify label error"
    pure label

/-- A round of the outer loop of `verify_commit_proofs`: the proofs of a row of challenges. -/
def checkRow (v : Verifier) (roots : List (List UInt8)) (id : List UInt8) (label : List UInt8)
    (row : List Int64 × List CommitProof) : Except Error (List UInt8) := do
  (List.range v.clusterSize.toUInt64.toNat).forM fun j => do
    let chal ← unwrap row.1[j + 1]?
    let proof ← unwrap row.2[j]?
    check (chal = proof.node.index.toInt64) "verify commit proofs error bad expanders node index"
  (List.range (row.1.length - 1)).foldlM
    (fun label j => checkChallenge P v roots id row.1 row.2 label (j + 1)) label

/-- An error of `verify_node_dependencies` inside another message. -/
def wrapError : Except Error Unit → Except Error Unit
  | .error (.bail message) => .error (.bail ("verify commit proofs error " ++ message))
  | x => x

/-- `verify_commit_proofs`. -/
def verifyCommitProofs (v : Verifier) (draw : ℕ → ℕ × ℕ) (id : List UInt8)
    (chals : List (List Int64)) (proofs : List (List CommitProof)) : Except Error Unit :=
  match v.nodeOf id with
  | none => .error (.bail "verify commit proofs error : prover node not found.")
  | some node => do
    check (chals.length = proofs.length ∧ chals.length = idleSetLen ∧
        node.commitBuf.fileIndexs.length = defaultClusterSize.toUInt64.toNat * idleSetLen ∧
        node.commitBuf.roots.length =
          ((v.expanders.k + defaultClusterSize) * .ofNat idleSetLen + 1).toUInt64.toNat)
      "verify commit proofs error: bad proof data"
    wrapError (verifyNodeDependencies P v draw id chals proofs pick)
    let _ ← (chals.zip proofs).foldlM (checkRow P v node.commitBuf.roots id)
      (List.replicate (frontSize id + 2 * hashSize) 0)
    pure ()

/-! ## The buffer -/

variable {P}

theorem length_getBytes32 (v : Int32) : (getBytes32 v).length = 4 := by
  unfold getBytes32
  rw [List.length_map, List.length_reverse, List.length_range]

theorem length_addData (target source : List UInt8) :
    (addData target source).length = target.length := by
  unfold addData
  split_ifs with h
  · rfl
  · rw [List.length_zipWith]
    omega

/-- The label of a place: the miner, the cluster, the file and the node. -/
def place (id : List UInt8) (cluster fidx : Int64) (idx : Int32) : List UInt8 :=
  id ++ getBytes cluster ++ getBytes fidx ++ getBytes32 idx

theorem length_place (id : List UInt8) (cluster fidx : Int64) (idx : Int32) :
    (place id cluster fidx idx).length = frontSize id := by
  unfold place frontSize
  simp only [List.length_append, length_getBytes, length_getBytes32]
  omega

/-- An empty sum of labels. -/
def noLabels : List UInt8 := List.replicate hashSize 0

/-- The buffer of a place, a sum of parents and a sum of elders. -/
def parts (front parents elders : List UInt8) : List UInt8 := front ++ parents ++ elders

/-- A round overwrites the whole buffer. -/
theorem copyData_place {id : List UInt8} (cluster fidx : Int64) (idx : Int32)
    (h : label.length = frontSize id + 2 * hashSize) :
    copyData label [id, getBytes cluster, getBytes fidx, getBytes32 idx,
        List.replicate (2 * hashSize) 0] =
      parts (place id cluster fidx idx) noLabels noLabels := by
  have hsource : [id, getBytes cluster, getBytes fidx, getBytes32 idx,
      List.replicate (2 * hashSize) 0].flatten =
      parts (place id cluster fidx idx) noLabels noLabels := by
    have hzeros : List.replicate (2 * hashSize) (0 : UInt8) = noLabels ++ noLabels := rfl
    simp only [List.flatten_cons, List.flatten_nil, List.append_nil, hzeros, parts, place,
      List.append_assoc]
  have hlength : (parts (place id cluster fidx idx) noLabels noLabels).length = label.length := by
    unfold parts noLabels
    simp only [List.length_append, length_place, List.length_replicate]
    omega
  rw [copyData_fits (by rw [hsource, hlength]), hsource, List.drop_of_length_le (by omega),
    List.append_nil]

/-- The sum of labels that `add_data` makes. -/
def sumLabels (labels : List (List UInt8)) : List UInt8 := labels.foldl addData noLabels

theorem length_foldl_addData (labels : List (List UInt8)) (target : List UInt8) :
    (labels.foldl addData target).length = target.length := by
  induction labels generalizing target with
  | nil => rfl
  | cons label rest ih => rw [List.foldl_cons, ih, length_addData]

theorem length_sumLabels (labels : List (List UInt8)) : (sumLabels labels).length = hashSize :=
  (length_foldl_addData labels noLabels).trans List.length_replicate

/-- A label is added to the part of the buffer between `front` and `rest`. -/
theorem addDataAt_parts {front middle rest : List UInt8} (source : List UInt8)
    (hmiddle : middle.length = hashSize) :
    addDataAt front.length (front ++ middle ++ rest) source =
      front ++ addData middle source ++ rest := by
  have hbefore : (front ++ middle ++ rest).take front.length = front := by
    rw [List.append_assoc, List.take_left]
  have hpart : ((front ++ middle ++ rest).drop front.length).take hashSize = middle := by
    rw [List.append_assoc, List.drop_left, ← hmiddle, List.take_left]
  have hafter : (front ++ middle ++ rest).drop (front.length + hashSize) = rest := by
    rw [← hmiddle, ← List.length_append, List.drop_left]
  unfold addDataAt
  rw [hbefore, hpart, hafter]

/-- A loop that checks something and adds a label each round. -/
theorem foldlM_addDataAt {α : Type} {f : List UInt8 → α → Except Error (List UInt8)}
    (label : α → List UInt8) {front middle rest buffer : List UInt8} {l : List α}
    (hstep : ∀ a ∈ l, ∀ b b', f b a = .ok b' → b' = addDataAt front.length b (label a))
    (hmiddle : middle.length = hashSize) (h : l.foldlM f (front ++ middle ++ rest) = .ok buffer) :
    buffer = front ++ (l.map label).foldl addData middle ++ rest := by
  induction l generalizing middle with
  | nil => exact (pure_eq_ok.mp h).symm
  | cons a l ih =>
    rw [List.foldlM_cons, bind_eq_ok] at h
    obtain ⟨next, hnext, hrest⟩ := h
    rw [hstep a List.mem_cons_self _ _ hnext, addDataAt_parts (label a) hmiddle] at hrest
    exact ih (fun a' ha' => hstep a' (List.mem_cons_of_mem a ha'))
      (by rw [length_addData, hmiddle]) hrest

/-! ## An accepted challenge -/

/-- The parents that the label of a node of the layer depends on. -/
def CommitProof.dependParents (proof : CommitProof) (layer : Int64) : List MhtProof :=
  if layer > 0 then proof.parents else []

/-- The elders that the label of a node of the layer depends on. -/
def CommitProof.dependElders (v : Verifier) (proof : CommitProof) (layer : Int64) :
    List MhtProof :=
  if layer > 0 ∧ layer ≥ v.expanders.k then proof.elders.tail else []

/-- The label of the neighbour, if the label of the node depends on it. -/
def CommitProof.neighbour (proof : CommitProof) (cluster layer : Int64) : List UInt8 :=
  if (cluster - 1) % .ofNat idleSetLen + layer > 0 then
    match proof.elders[0]? with
    | some elder => elder.label
    | none => []
  else []

/-- The labels of some proofs. -/
def labelsOf (proofs : List MhtProof) : List (List UInt8) := proofs.map MhtProof.label

section Accepted

variable {v : Verifier} {roots : List (List UInt8)} {id : List UInt8} {chals : List Int64}
  {proofs : List CommitProof}

theorem addParentLabel_ok {start : ℕ} {p : MhtProof}
    (h : addParentLabel P v roots start cluster layer label p = .ok label') :
    label' = addDataAt start label p.label := by
  simp only [addParentLabel, bind_eq_ok] at h
  obtain ⟨-, -, h⟩ := h
  split_ifs at h with h6
  · rw [bind_eq_ok] at h
    obtain ⟨-, -, h⟩ := h
    exact (pure_eq_ok.mp h).symm
  · exact (pure_eq_ok.mp h).symm

theorem addElderLabel_ok {start : ℕ} {p : MhtProof × ℕ}
    (h : addElderLabel P v roots start cluster layer label p = .ok label') :
    label' = addDataAt start label p.1.label := by
  unfold addElderLabel at h
  split_ifs at h with hk
  rw [bind_eq_ok] at h
  obtain ⟨-, -, h⟩ := h
  exact (pure_eq_ok.mp h).symm

/-- The labels are added in two loops, over the parents and elders that count. -/
theorem addLabels_eq (cluster layer : Int64) (proof : CommitProof) (label : List UInt8) :
    addLabels P v roots id cluster layer proof label =
      (proof.dependParents layer).foldlM
        (addParentLabel P v roots (frontSize id) cluster layer) label >>= fun label =>
      (proof.dependElders v layer).zipIdx.foldlM
        (addElderLabel P v roots (frontSize id + hashSize) cluster layer) label := by
  unfold addLabels CommitProof.dependParents CommitProof.dependElders
  by_cases hpos : layer > 0
  · rw [if_pos hpos, if_pos hpos]
    by_cases hk : layer ≥ v.expanders.k
    · rw [if_pos ⟨hpos, hk⟩]
      simp only [if_pos hk]
    · rw [if_neg fun h => hk h.2]
      simp only [if_neg hk]
      rfl
  · rw [if_neg hpos, if_neg hpos, if_neg fun h => hpos h.1]
    rfl

/-- What the buffer holds after the labels were added. -/
theorem addLabels_ok {fidx : Int64} {idx : Int32} (h : addLabels P v roots id cluster layer proof
      (parts (place id cluster fidx idx) noLabels noLabels) = .ok label) :
    label = parts (place id cluster fidx idx)
      (sumLabels (labelsOf (proof.dependParents layer)))
      (sumLabels (labelsOf (proof.dependElders v layer))) := by
  have hnone : noLabels.length = hashSize := List.length_replicate
  rw [addLabels_eq, bind_eq_ok] at h
  obtain ⟨buffer, hparents, h⟩ := h
  have hbuffer : buffer = parts (place id cluster fidx idx)
      (sumLabels (labelsOf (proof.dependParents layer))) noLabels := by
    rw [← length_place id cluster fidx idx] at hparents
    exact foldlM_addDataAt MhtProof.label (fun p _ b b' hb => addParentLabel_ok hb) hnone hparents
  have hfront : frontSize id + hashSize = (place id cluster fidx idx ++
      sumLabels (labelsOf (proof.dependParents layer))).length := by
    rw [List.length_append, length_place, length_sumLabels]
  rw [hbuffer, ← List.append_nil (parts _ _ _), hfront] at h
  have helders := foldlM_addDataAt (fun p : MhtProof × ℕ => p.1.label)
    (fun p _ b b' hb => addElderLabel_ok hb) hnone h
  have hlabels : (proof.dependElders v layer).zipIdx.map (MhtProof.label ∘ Prod.fst) =
      labelsOf (proof.dependElders v layer) := by
    rw [← List.map_map, List.zipIdx_map_fst]
    rfl
  rw [List.append_nil] at helders
  exact helders.trans (congrArg (fun labels => _ ++ labels.foldl addData noLabels) hlabels)

theorem nodeHash_ok {hash : List UInt8}
    (h : nodeHash P roots cluster layer proof label = .ok hash) :
    hash = getHash P (label ++ proof.neighbour cluster layer) := by
  unfold nodeHash at h
  unfold CommitProof.neighbour
  split_ifs at h ⊢ with hpos
  · simp only [bind_eq_ok, unwrap_eq_ok] at h
    obtain ⟨elder, helder, -, -, h⟩ := h
    rw [helder]
    exact (pure_eq_ok.mp h).symm
  · rw [List.append_nil]
    exact (pure_eq_ok.mp h).symm

/-- What the verifier has checked of an accepted challenge. -/
structure Accepted (P : Params) (v : Verifier) (roots : List (List UInt8)) (id : List UInt8)
    (cluster : Int64) (idx : Int32) (j : ℕ) (proof : CommitProof) : Prop where
  path : ∃ root, roots[rootIndex (challengeLayer v j idx).toUInt64 cluster]? = some root ∧
    verifyPathProof P root proof.node.label ⟨proof.node.locs, proof.node.paths⟩ = true
  label : proof.node.label = getHash P
    (parts (place id cluster (fileIndex v cluster (challengeLayer v j idx) j) idx)
      (sumLabels (labelsOf (proof.dependParents (challengeLayer v j idx))))
      (sumLabels (labelsOf (proof.dependElders v (challengeLayer v j idx)))) ++
    proof.neighbour cluster (challengeLayer v j idx))

/-- The cluster, the node and the proof of challenge `j` of a row. -/
def IsChallenge (v : Verifier) (row : List Int64 × List CommitProof) (j : ℕ) (cluster : Int64)
    (idx : Int32) (proof : CommitProof) : Prop :=
  row.1[0]? = some cluster ∧ challengeIndex v row.1 row.2 j = some idx ∧
    row.2[j - 1]? = some proof

theorem challengeIndex_lt {j : ℕ} {idx : Int32} (h : challengeIndex v chals proofs j = some idx) :
    j < chals.length := by
  unfold challengeIndex at h
  rw [Option.bind_eq_bind, Option.bind_eq_some_iff] at h
  obtain ⟨chal, hchal, -⟩ := h
  exact (List.getElem?_eq_some_iff.mp hchal).1

theorem length_parts (id : List UInt8) (cluster fidx : Int64) (idx : Int32)
    (parents elders : List (List UInt8)) :
    (parts (place id cluster fidx idx) (sumLabels parents) (sumLabels elders)).length =
      frontSize id + 2 * hashSize := by
  unfold parts
  rw [List.length_append, List.length_append, length_place, length_sumLabels, length_sumLabels]
  omega

/-- A round leaves a buffer of the same size and has checked its challenge. -/
theorem checkChallenge_ok {j : ℕ} (hlabel : label.length = frontSize id + 2 * hashSize)
    (h : checkChallenge P v roots id chals proofs label j = .ok label') :
    label'.length = frontSize id + 2 * hashSize ∧
      ∀ cluster idx proof, IsChallenge v (chals, proofs) j cluster idx proof →
        Accepted P v roots id cluster idx j proof := by
  simp only [checkChallenge, checkPath, bind_eq_ok, unwrap_eq_ok] at h
  obtain ⟨cluster, hcluster, idx, hidx, h⟩ := h
  split_ifs at h with hn
  simp only [bind_eq_ok, unwrap_eq_ok, check_eq_ok, pure_eq_ok] at h
  obtain ⟨proof, hproof, -, ⟨root, hroot, hpath⟩, buffer, hbuffer, hash, hhash, -, hequal, rfl⟩ := h
  rw [copyData_place _ _ _ hlabel] at hbuffer
  have hparts := addLabels_ok hbuffer
  refine ⟨by rw [hparts, length_parts], ?_⟩
  rintro cluster' idx' proof' ⟨hcluster', hidx', hproof'⟩
  obtain rfl := Option.mem_unique hcluster hcluster'
  obtain rfl := Option.mem_unique hidx hidx'
  obtain rfl := Option.mem_unique hproof hproof'
  refine ⟨⟨root, hroot, hpath⟩, ?_⟩
  rw [← hequal, nodeHash_ok hhash, hparts]

/-- A round of the outer loop has checked every challenge of its row. -/
theorem checkRow_ok {row : List Int64 × List CommitProof}
    (hlabel : label.length = frontSize id + 2 * hashSize)
    (h : checkRow P v roots id label row = .ok label') :
    label'.length = frontSize id + 2 * hashSize ∧
      ∀ j cluster idx proof, 1 ≤ j → IsChallenge v row j cluster idx proof →
        Accepted P v roots id cluster idx j proof := by
  simp only [checkRow, bind_eq_ok] at h
  obtain ⟨-, -, h⟩ := h
  obtain ⟨hlength, hall⟩ := foldlM_ok
    (fun t _ b b' hb hround => (checkChallenge_ok hb hround).1) hlabel h
  refine ⟨hlength, ?_⟩
  intro j cluster idx proof hj hchallenge
  have hlt := challengeIndex_lt hchallenge.2.1
  obtain ⟨b, b', hb, hround⟩ := hall (j - 1) (List.mem_range.mpr (by omega))
  rw [Nat.sub_add_cancel hj] at hround
  exact (checkChallenge_ok hb hround).2 cluster idx proof hchallenge

end Accepted

/-- In an accepted matrix every challenge was checked. -/
theorem verifyCommitProofs_ok {v : Verifier} {draw : ℕ → ℕ × ℕ} {id : List UInt8}
    {node : ProverNode} {chals : List (List Int64)} {proofs : List (List CommitProof)}
    (hnode : v.nodeOf id = some node) (h : verifyCommitProofs P v draw id chals proofs = .ok ()) :
    ∀ row ∈ chals.zip proofs, ∀ j cluster idx proof, 1 ≤ j →
      IsChallenge v row j cluster idx proof →
      Accepted P v node.commitBuf.roots id cluster idx j proof := by
  unfold verifyCommitProofs at h
  rw [hnode] at h
  simp only [bind_eq_ok] at h
  obtain ⟨-, -, -, -, buffer, hrows, -⟩ := h
  obtain ⟨-, hall⟩ := foldlM_ok
    (fun row _ b b' hb hround => (checkRow_ok hb hround).1) List.length_replicate hrows
  intro row hrow
  obtain ⟨b, b', hb, hround⟩ := hall row hrow
  exact (checkRow_ok hb hround).2

/-! ## The challenged positions -/

/-- The sum of labels without leaving any out. -/
def xorLabels (labels : List (List UInt8)) : List UInt8 :=
  labels.foldl (List.zipWith (· ^^^ ·)) noLabels

/-- Labels that are long enough are all added. -/
theorem sumLabels_eq_xorLabels {proofs : List MhtProof}
    (h : ∀ p ∈ proofs, hashSize ≤ p.label.length) :
    sumLabels (labelsOf proofs) = xorLabels (labelsOf proofs) := by
  have hfold : ∀ target : List UInt8, target.length = hashSize →
      (labelsOf proofs).foldl addData target =
        (labelsOf proofs).foldl (List.zipWith (· ^^^ ·)) target := by
    induction proofs with
    | nil =>
      intro target _
      rfl
    | cons p rest ih =>
      intro target htarget
      have hlong := h p List.mem_cons_self
      have hadd : addData target p.label = List.zipWith (· ^^^ ·) target p.label :=
        if_neg (by omega)
      show (labelsOf rest).foldl _ _ = (labelsOf rest).foldl _ _
      rw [← hadd]
      exact ih (fun q hq => h q (List.mem_cons_of_mem _ hq)) _ (by rw [length_addData, htarget])
  exact hfold noLabels List.length_replicate

/-- Every parent and elder that the label of a node depends on has a label that is added. -/
def CommitProof.Contributes (v : Verifier) (proof : CommitProof) (layer : Int64) : Prop :=
  ∀ p ∈ proof.dependParents layer ++ proof.dependElders v layer, hashSize ≤ p.label.length

/-- The path of a node is the one of its index in a tree of height `h`. -/
structure MhtProof.At (proof : MhtProof) (h : ℕ) (idx : Int32) : Prop where
  length : proof.locs.length = h
  position : HashTree.position (PathProof.steps ⟨proof.locs, proof.paths⟩) =
    (idx.toInt % 2 ^ h).toNat

/-- The accepted label of a challenge is the leaf at the challenged position, and the hash of its
place, of all its parents, of all its elders and of its neighbour. -/
structure CommitBound (P : Params) (v : Verifier) (leaf : ℕ → ℕ → List UInt8) (h : ℕ)
    (id : List UInt8) (cluster : Int64) (idx : Int32) (j : ℕ) (proof : CommitProof) : Prop where
  position : proof.node.At h idx
  leaf : proof.node.label =
    leaf (rootIndex (challengeLayer v j idx).toUInt64 cluster) (idx.toInt % 2 ^ h).toNat
  contributes : proof.Contributes v (challengeLayer v j idx)
  hash : proof.node.label = getHash P
    (place id cluster (fileIndex v cluster (challengeLayer v j idx) j) idx ++
      xorLabels (labelsOf (proof.dependParents (challengeLayer v j idx))) ++
      xorLabels (labelsOf (proof.dependElders v (challengeLayer v j idx))) ++
      proof.neighbour cluster (challengeLayer v j idx))

/-- **When commit proofs are about the challenged positions.**  For every commit buffer of roots of
trees and every accepted matrix of proofs, every accepted label is the one of the challenged
position with all its parents and elders just if every path has the height of the tree and the sides
of the index, and no label of a parent or elder is too short. -/
theorem commit_bound_iff {v : Verifier} {draw : ℕ → ℕ × ℕ} {id : List UInt8} {node : ProverNode}
    {chals : List (List Int64)} {proofs : List (List CommitProof)} {leaf : ℕ → ℕ → List UInt8}
    {h : ℕ} (hnode : v.nodeOf id = some node)
    (htrees : ∀ r root, node.commitBuf.roots[r]? = some root → root = treeRoot P (leaf r) h)
    (hcollision : ∀ row ∈ chals.zip proofs, ∀ j cluster idx proof, 1 ≤ j →
      IsChallenge v row j cluster idx proof →
      NoCollision P (leaf (rootIndex (challengeLayer v j idx).toUInt64 cluster)) h
        proof.node.label ⟨proof.node.locs, proof.node.paths⟩)
    (hok : verifyCommitProofs P v draw id chals proofs = .ok ()) :
    (∀ row ∈ chals.zip proofs, ∀ j cluster idx proof, 1 ≤ j →
      IsChallenge v row j cluster idx proof → CommitBound P v leaf h id cluster idx j proof) ↔
    ∀ row ∈ chals.zip proofs, ∀ j cluster idx proof, 1 ≤ j →
      IsChallenge v row j cluster idx proof →
      proof.node.At h idx ∧ proof.Contributes v (challengeLayer v j idx) := by
  constructor
  · intro hbound row hrow j cluster idx proof hj hchallenge
    have hbound := hbound row hrow j cluster idx proof hj hchallenge
    exact ⟨hbound.position, hbound.contributes⟩
  · intro hplaced row hrow j cluster idx proof hj hchallenge
    obtain ⟨hat, hcontributes⟩ := hplaced row hrow j cluster idx proof hj hchallenge
    have haccepted := verifyCommitProofs_ok hnode hok row hrow j cluster idx proof hj hchallenge
    refine ⟨hat, ?_, hcontributes, ?_⟩
    · obtain ⟨root, hroot, hpath⟩ := haccepted.path
      obtain rfl := htrees _ root hroot
      obtain ⟨hlength, htop⟩ := verifyPathProof_eq_true hpath
      have hsteps := PathProof.length_steps hlength
      have hlabel := HashTree.eq_input_of_top length_treeHash (by rw [hsteps, hat.length])
        (hcollision row hrow j cluster idx proof hj hchallenge) htop
      rw [hsteps, hat.length, Nat.sub_self, hat.position] at hlabel
      exact hlabel
    · obtain ⟨hparents, helders⟩ := List.forall_mem_append.mp hcontributes
      rw [← sumLabels_eq_xorLabels hparents, ← sumLabels_eq_xorLabels helders]
      exact haccepted.label

/-! ## Two commits -/

section Examples

/-- The label of node 2 of the first cluster, with the neighbour `[7]` and no parents or elders. -/
def soleLabel : List UInt8 :=
  getHash shortParams (place [1] 1 1 2 ++ noLabels ++ noLabels ++ [7])

/-- The leaves of every tree of a commit: the label of the node at the given position and the label
of its neighbour at the other. -/
def soleLeaf (position : ℕ) (_ i : ℕ) : List UInt8 := if i = position then soleLabel else [7]

/-- A verifier for two layers of two nodes, with the commit of a miner whose trees are all alike. -/
def soleVerifier (position : ℕ) : Verifier where
  clusterSize := 1
  expanders := { k := 1, n := 2, d := 1 }
  nodes := AList.insert (hexEncode [1])
    { id := [1]
      commitBuf :=
        { fileIndexs := List.replicate 256 1
          roots := List.replicate 289 (treeRoot shortParams (soleLeaf position 0) 1) }
      record := none } ∅

/-- A proof of node 2, with the side on which its sibling is, and with the given parents. -/
def soleProof (side : UInt8) (parents : List MhtProof) : CommitProof where
  node := { index := 2, label := soleLabel, paths := [treeHash shortParams [7]], locs := [side] }
  parents := parents
  elders :=
    [{ index := 0, label := [7], paths := [treeHash shortParams soleLabel], locs := [1 - side] }]

/-- The same proof for every row. -/
def soleProofs (side : UInt8) (parents : List MhtProof) : List (List CommitProof) :=
  List.replicate 32 [soleProof side parents]

/-- The challenges: node 2 of the first cluster in every row. -/
def soleChals : List (List Int64) := List.replicate 32 [1, 2]

/-- The only challenge of a row. -/
theorem sole_challenge {position : ℕ} {side : UInt8} {parents : List MhtProof}
    {row : List Int64 × List CommitProof} (hrow : row ∈ soleChals.zip (soleProofs side parents))
    {j : ℕ} {idx : Int32} (hj : 1 ≤ j)
    (h : IsChallenge (soleVerifier position) row j cluster idx proof) :
    j = 1 ∧ cluster = 1 ∧ idx = 2 ∧ proof = soleProof side parents := by
  unfold soleChals soleProofs at hrow
  rw [List.zip_replicate'] at hrow
  obtain rfl := List.eq_of_mem_replicate hrow
  obtain ⟨hcluster, hidx, hproof⟩ := h
  have hlt : j < 2 := challengeIndex_lt hidx
  obtain rfl : j = 1 := by omega
  exact ⟨rfl, (Option.some.inj hcluster).symm, (Option.some.inj hidx).symm,
    (Option.some.inj hproof).symm⟩

/-- The commit of the miner. -/
theorem soleVerifier_nodeOf (position : ℕ) :
    (soleVerifier position).nodeOf [1] = some
      { id := [1]
        commitBuf :=
          { fileIndexs := List.replicate 256 1
            roots := List.replicate 289 (treeRoot shortParams (soleLeaf position 0) 1) }
        record := none } := AList.lookup_insert _

theorem soleVerifier_roots {position r : ℕ} {root : List UInt8}
    (h : (List.replicate 289 (treeRoot shortParams (soleLeaf position 0) 1))[r]? = some root) :
    root = treeRoot shortParams (soleLeaf position r) 1 :=
  List.eq_of_mem_replicate (List.mem_of_getElem? h)

theorem commit_bound_sole :
    verifyCommitProofs shortParams (soleVerifier 0) (fun _ => (0, 0)) [1] soleChals
        (soleProofs 1 []) = .ok () ∧
      ∀ row ∈ soleChals.zip (soleProofs 1 []), ∀ j cluster idx proof,
        1 ≤ j → IsChallenge (soleVerifier 0) row j cluster idx proof →
        CommitBound shortParams (soleVerifier 0) (soleLeaf 0) 1 [1] cluster idx j proof := by
  have hok : verifyCommitProofs shortParams (soleVerifier 0) (fun _ => (0, 0)) [1] soleChals
      (soleProofs 1 []) = .ok () := by
    decide +kernel
  refine ⟨hok,
    (commit_bound_iff (soleVerifier_nodeOf 0) (fun r root => soleVerifier_roots) ?_ hok).mpr ?_⟩
  · intro row hrow j cluster idx proof hj hchallenge
    obtain ⟨rfl, rfl, rfl, rfl⟩ := sole_challenge hrow hj hchallenge
    unfold NoCollision HashTree.NoCollision
    decide +kernel
  · intro row hrow j cluster idx proof hj hchallenge
    obtain ⟨rfl, rfl, rfl, rfl⟩ := sole_challenge hrow hj hchallenge
    refine ⟨⟨rfl, by decide⟩, ?_⟩
    unfold CommitProof.Contributes
    decide +kernel

/-- A parent without a label. -/
def blankParent : MhtProof := { index := 1, label := [], paths := [], locs := [] }

/-- **A label at another position is accepted, without its parent.**  The challenged node is at
position 0 of its tree, where the commit has another label; the accepted path leads to position 1,
and the parent that the proof names has an empty label. -/
theorem misplaced_label_accepted :
    verifyCommitProofs shortParams (soleVerifier 1) (fun _ => (0, 0)) [1] soleChals
        (soleProofs 0 [blankParent]) = .ok () ∧
      (([1, 2], [soleProof 0 [blankParent]]) ∈ soleChals.zip (soleProofs 0 [blankParent]) ∧
        IsChallenge (soleVerifier 1) ([1, 2], [soleProof 0 [blankParent]]) 1 1 2
          (soleProof 0 [blankParent])) ∧
      NoCollision shortParams (soleLeaf 1 32) 1 soleLabel ⟨[0], [treeHash shortParams [7]]⟩ ∧
      soleLabel ≠ soleLeaf 1 32 ((2 : Int32).toInt % 2 ^ 1).toNat ∧
      ¬ (soleProof 0 [blankParent]).Contributes (soleVerifier 1) 1 := by
  refine ⟨by decide +kernel, ⟨?_, rfl, rfl, rfl⟩, ?_, by decide +kernel, ?_⟩
  · unfold soleChals soleProofs
    rw [List.zip_replicate']
    exact List.mem_replicate.mpr ⟨by decide, rfl⟩
  · unfold NoCollision HashTree.NoCollision
    decide +kernel
  · intro h
    exact absurd (h blankParent List.mem_cons_self) (by decide)

end Examples

end Pois
