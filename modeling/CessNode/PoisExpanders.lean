/-
# The dependencies of a node in the expander graph

The model of `crates/ces-pois/src/expanders` as far as the verifier uses it: a node with its list of
parents, the sorted insertion of a parent, the parents that a hash of the miner, the cluster, the
layer and the node picks, and `verify_node_dependencies`, which compares them with the parents of
some drawn proofs.

`nodeDependencies_enforced_iff` says when the comparison does what it is for.  A node is created
with a list that has no room, and neither `calc_parents` nor `add_parent` puts anything into such a
list.  So the list of the verifier is empty, and a proof passes whatever parents it names.
-/
import CessNode.PoisSpec
import Mathlib.Data.Finset.Sort

namespace Pois

/-! ## Nodes -/

/-- `Node`, with the capacity of the list of its parents. -/
structure Node where
  index : Int32
  parents : List Int32
  capacity : ℕ

/-- `Node::new`: `Vec::new()` has no room. -/
def Node.new (index : Int32) : Node := { index := index, parents := [], capacity := 0 }

/-- The search of `parent_in_list` between the positions `l` and `r`: the position for the parent,
or that it is there.  Every round but a last one, which is out of range, makes the range shorter,
so a round more than the list is long is enough. -/
def searchParent (parents : List Int32) (parent : Int32) :
    ℕ → UInt64 → UInt64 → Except Error (Int32 × Bool)
  | 0, _, _ => .error .panic
  | fuel + 1, l, r =>
    if l ≤ r then do
      let mid := (l + r) / 2
      let p ← unwrap parents[mid.toNat]?
      if p = parent then pure (0, true)
      else if p > parent then searchParent parents parent fuel l (mid - 1)
      else searchParent parents parent fuel (mid + 1) r
    else do
      let i := (l + r) / 2
      let p ← unwrap parents[i.toNat]?
      let i := if p < parent then i + 1 else i
      pure (.ofNat i.toNat, false)

/-- `parent_in_list`. -/
def Node.parentInList (node : Node) (parent : Int32) : Except Error (Int32 × Bool) :=
  if node.parents = [] then pure (0, false)
  else searchParent node.parents parent (node.parents.length + 2) 0 (.ofNat (node.parents.length - 1))

/-- `copy_within` of the positions from `start` up to `stop`. -/
def copyWithin (l : List Int32) (start stop dest : ℕ) : Except Error (List Int32) :=
  if start ≤ stop ∧ stop ≤ l.length ∧ dest + (stop - start) ≤ l.length then
    .ok (l.take dest ++ (l.drop start).take (stop - start) ++ l.drop (dest + (stop - start)))
  else .error .panic

/-- `add_parent`. -/
def Node.addParent (node : Node) (parent : Int32) : Except Error (Bool × Node) :=
  if node.index = parent then pure (false, node)
  else if node.parents = [] ∨ node.capacity ≤ node.parents.length then pure (false, node)
  else do
    let found ← node.parentInList parent
    if found.2 then pure (false, node)
    else
      let i := found.1.toInt64.toUInt64.toNat
      let parents := node.parents ++ [0]
      let parents ←
        if parents.length = 1 ∨ found.1 = .ofNat parents.length - 1 then pure parents
        else copyWithin parents (i + 1) (parents.length - 1) i
      if i < parents.length then pure (true, { node with parents := parents.set i parent })
      else .error .panic

/-! ## The parents of a node -/

variable (P : Params)

/-- The bytes that pick the parents, one for each of the `d` groups. -/
def dependencyBytes (ex : Expanders) (minerId : List UInt8) (count rlayer : Int64) (index : Int32) :
    List UInt8 :=
  let res := (P.sha512 (minerId ++ getBytes count ++ getBytes rlayer ++ getBytes index.toInt64)).val
  if ex.d > 64 then res ++ (P.sha512 res).val else res

/-- The node that a byte picks in group `i`. -/
def groupIndex (ex : Expanders) (layer : Int64) (i : ℕ) (byte : UInt8) : Int64 :=
  let groupSize := ex.n / ex.d
  let offset := groupSize / 256
  let byte := Int64.ofNat byte.toNat
  (layer - 1) * ex.n + .ofNat i * groupSize + byte * offset + byte % offset

/-- A round of the loop of `calc_parents`: the picked node is shifted into the window. -/
def addGroup (ex : Expanders) (layer : Int64) (parent : Int32) (node : Node) (p : UInt8 × ℕ) :
    Except Error Node := do
  let index := groupIndex ex layer p.2 p.1
  let value :=
    if index = parent.toInt64 then index + 1
    else if index < parent.toInt64 then index + ex.n
    else index
  let added ← node.addParent value.toInt32
  pure added.2

/-- `calc_parents`. -/
def calcParents (ex : Expanders) (node : Node) (minerId : List UInt8) (count rlayer : Int64) :
    Except Error Node :=
  if node.capacity ≠ (ex.d + 1).toUInt64.toNat then pure node
  else if ex.n = 0 then .error .panic
  else
    let layer := node.index.toInt64 / ex.n
    if layer = 0 then pure node
    else if ex.d = 0 ∨ ex.n / ex.d / 256 = 0 then .error .panic
    else
      let res := dependencyBytes P ex minerId count rlayer node.index
      if ex.d.toUInt64.toNat > res.length then .error .panic
      else do
        let parent := node.index - ex.n.toInt32
        let added ← node.addParent parent
        (res.take ex.d.toUInt64.toNat).zipIdx.foldlM (addGroup ex layer parent) added.2

/-- `CommitProof`. -/
structure CommitProof where
  node : MhtProof
  parents : List MhtProof
  elders : List MhtProof

/-- A drawn proof, with the cluster of its challenge and the layer that its parents are computed
for. -/
structure Sample where
  cluster : Int64
  rlayer : Int64
  proof : CommitProof

/-- A draw of `verify_node_dependencies`: a row and a proof of the row. -/
def sample (v : Verifier) (chals : List (List Int64)) (proofs : List (List CommitProof))
    (draw : ℕ × ℕ) : Except Error Sample := do
  let r1 := draw.1 % proofs.length
  let row ← unwrap proofs[r1]?
  let r2 := draw.2 % row.length
  let proof ← unwrap row[r2]?
  if v.expanders.n = 0 then .error .panic
  else
    let layer := proof.node.index.toInt64 / v.expanders.n
    let chal ← unwrap chals[r1]?
    let cluster ← unwrap chal[0]?
    pure
      { cluster := cluster
        rlayer := if r2 < v.clusterSize.toUInt64.toNat then v.expanders.k + .ofNat r2 else layer
        proof := proof }

/-- The comparison of a drawn proof with the parents that the verifier computes. -/
def checkSample (v : Verifier) (id : List UInt8) (s : Sample) : Except Error Unit := do
  let node ← calcParents P v.expanders (.new s.proof.node.index) id s.cluster s.rlayer
  (List.range node.parents.length).forM fun j => do
    let expected ← unwrap node.parents[j]?
    let parent ← unwrap s.proof.parents[j]?
    check (expected = parent.index) "verify node dependencies error: node relationship mismatch"

/-- The number of draws. -/
def draws (pick : Int32) (proofs : List (List CommitProof)) : ℕ :=
  if pick.toInt64.toUInt64.toNat > proofs.length then proofs.length else pick.toInt.toNat

/-- `verify_node_dependencies`. -/
def verifyNodeDependencies (v : Verifier) (draw : ℕ → ℕ × ℕ) (id : List UInt8)
    (chals : List (List Int64)) (proofs : List (List CommitProof)) (pick : Int32) :
    Except Error Unit := do
  chals.forM fun chal => do
    let _ ← unwrap chal[0]?
  (List.range (draws pick proofs)).forM fun t => do
    let s ← sample v chals proofs (draw t)
    checkSample P v id s

/-! ## What the graph prescribes -/

/-- A picked node, shifted into the window of `n` nodes in front of the node. -/
def shifted (n parent x : ℤ) : ℤ := if x = parent then x + 1 else if x < parent then x + n else x

/-- The node that a byte picks in group `i`, as a number. -/
def picked (n d layer : ℤ) (i byte : ℕ) : ℤ :=
  (layer - 1) * n + i * (n / d) + byte * (n / d / 256) + byte % (n / d / 256)

/-- The parents that the graph prescribes: the node one layer below and one of every group, each
shifted into the window, in increasing order and each once. -/
def prescribedParents (ex : Expanders) (minerId : List UInt8) (count rlayer : Int64)
    (index : Int32) : List ℤ :=
  let n := ex.n.toInt
  let d := ex.d.toInt
  let parent := index.toInt - n
  if index.toInt64 / ex.n = 0 then []
  else
    (insert parent ((((dependencyBytes P ex minerId count rlayer index).take d.toNat).zipIdx.map
      fun p => shifted n parent (picked n d (index.toInt / n) p.2 p.1.toNat)).toFinset)).sort

theorem prescribedParents_increasing (ex : Expanders) (minerId : List UInt8)
    (count rlayer : Int64) (index : Int32) :
    (prescribedParents P ex minerId count rlayer index).Pairwise (· < ·) := by
  unfold prescribedParents
  split_ifs with h
  · exact List.Pairwise.nil
  · exact (Finset.sortedLT_sort _).pairwise

/-- The picked node lies one layer below. -/
theorem picked_mem {n d : ℤ} (layer : ℤ) (hd : 0 < d) (hn : 256 * d ≤ n) {i byte : ℕ}
    (hi : (i : ℤ) < d) (hbyte : byte < 256) :
    (layer - 1) * n ≤ picked n d layer i byte ∧ picked n d layer i byte < layer * n := by
  have hgroup : 256 ≤ n / d := (Int.le_ediv_iff_mul_le hd).mpr hn
  have hsize : d * (n / d) ≤ n := Int.mul_ediv_self_le (by omega)
  have hoffset : 1 ≤ n / d / 256 := by omega
  unfold picked
  generalize n / d = size at *
  have hparts : 256 * (size / 256) ≤ size := by omega
  generalize size / 256 = offset at *
  have hrest : 0 ≤ (byte : ℤ) % offset := Int.emod_nonneg _ (by omega)
  have hrestlt : (byte : ℤ) % offset < offset := Int.emod_lt_of_pos _ (by omega)
  have hbytes : (byte : ℤ) * offset ≤ 255 * offset :=
    Int.mul_le_mul_of_nonneg_right (by omega) (by omega)
  have hbyte0 : 0 ≤ (byte : ℤ) * offset := Int.mul_nonneg (by omega) (by omega)
  have hgroups : (i : ℤ) * size ≤ (d - 1) * size :=
    Int.mul_le_mul_of_nonneg_right (by omega) (by omega)
  have hgroup0 : 0 ≤ (i : ℤ) * size := Int.mul_nonneg (by omega) (by omega)
  have hlayer : (layer - 1) * n = layer * n - n := by ring
  have hsizes : (d - 1) * size = d * size - size := by ring
  constructor
  · omega
  · omega

/-- **The window.**  The prescribed parents lie in the window of `n` nodes in front of the node. -/
theorem prescribedParents_window {ex : Expanders} (hd : 0 < ex.d.toInt)
    (hn : 256 * ex.d.toInt ≤ ex.n.toInt) (minerId : List UInt8) (count rlayer : Int64)
    {index : Int32} {p : ℤ} (hp : p ∈ prescribedParents P ex minerId count rlayer index) :
    index.toInt - ex.n.toInt ≤ p ∧ p < index.toInt := by
  unfold prescribedParents at hp
  split_ifs at hp with h
  · cases hp
  rw [Finset.mem_sort, Finset.mem_insert, List.mem_toFinset, List.mem_map] at hp
  have hpos : 0 < ex.n.toInt := by omega
  obtain rfl | ⟨⟨byte, i⟩, hmem, rfl⟩ := hp
  · omega
  have hi : i < ex.d.toInt.toNat := by
    have hlt := (List.mem_zipIdx hmem).2.1
    rw [List.length_take] at hlt
    omega
  have hpicked := picked_mem (index.toInt / ex.n.toInt) hd hn (by omega : (i : ℤ) < _)
    byte.toNat_lt
  have hbelow : index.toInt / ex.n.toInt * ex.n.toInt ≤ index.toInt :=
    Int.ediv_mul_le _ (by omega)
  have habove : index.toInt < (index.toInt / ex.n.toInt + 1) * ex.n.toInt :=
    Int.lt_ediv_add_one_mul_self _ hpos
  have hminus : (index.toInt / ex.n.toInt - 1) * ex.n.toInt =
      index.toInt / ex.n.toInt * ex.n.toInt - ex.n.toInt := by ring
  have hplus : (index.toInt / ex.n.toInt + 1) * ex.n.toInt =
      index.toInt / ex.n.toInt * ex.n.toInt + ex.n.toInt := by ring
  simp only at hpicked ⊢
  unfold shifted
  split_ifs with heq hless
  · omega
  · omega
  · omega

/-! ## What is compared -/

/-- The verifier compares with the prescribed parents of a drawn node. -/
structure ParentsEnforced (ex : Expanders) (id : List UInt8) (s : Sample) : Prop where
  compared : ∃ node, calcParents P ex (.new s.proof.node.index) id s.cluster s.rlayer = .ok node ∧
    node.parents.map Int32.toInt =
      prescribedParents P ex id s.cluster s.rlayer s.proof.node.index
  increasing : (prescribedParents P ex id s.cluster s.rlayer s.proof.node.index).Pairwise (· < ·)
  window : ∀ p ∈ prescribedParents P ex id s.cluster s.rlayer s.proof.node.index,
    s.proof.node.index.toInt - ex.n.toInt ≤ p ∧ p < s.proof.node.index.toInt

/-- The parents that a drawn proof names are not the prescribed ones. -/
def Sample.Differs (ex : Expanders) (id : List UInt8) (s : Sample) : Prop :=
  (s.proof.parents.map fun p => p.index.toInt) ≠
    prescribedParents P ex id s.cluster s.rlayer s.proof.node.index

variable {P} {ex : Expanders} {id : List UInt8}

/-- Nothing is added to an empty list. -/
theorem Node.addParent_empty {node : Node} (h : node.parents = []) (parent : Int32) :
    node.addParent parent = .ok (false, node) := by
  unfold Node.addParent
  split_ifs with hindex
  · rfl
  · rfl
  · rename_i hroom
    exact absurd (Or.inl h) hroom

/-- The node of the verifier stays as it was created. -/
theorem calcParents_new {index : Int32} {count rlayer : Int64} {node : Node}
    (h : calcParents P ex (.new index) id count rlayer = .ok node) : node = .new index := by
  have hround : ∀ layer parent (p : UInt8 × ℕ),
      addGroup ex layer parent (.new index) p = .ok (.new index) := by
    intro layer parent p
    unfold addGroup
    simp only [Node.addParent_empty (show (Node.new index).parents = [] from rfl)]
    rfl
  unfold calcParents at h
  simp only [Node.addParent_empty (show (Node.new index).parents = [] from rfl)] at h
  split_ifs at h with hcapacity hn hlayer hd hlength
  · exact (Except.ok.inj h).symm
  · exact (Except.ok.inj h).symm
  · refine (foldlM_ok (Q := (· = .new index)) ?_ rfl h).1
    rintro p - b b' rfl hb
    rw [hround] at hb
    exact (Except.ok.inj hb).symm

/-- A node of layer 0 has no parents, and the computation says so. -/
theorem calcParents_bottom {index : Int32} (count rlayer : Int64) (hn : ex.n ≠ 0)
    (hlayer : index.toInt64 / ex.n = 0) :
    calcParents P ex (.new index) id count rlayer = .ok (.new index) := by
  unfold calcParents
  by_cases hcapacity : (Node.new index).capacity ≠ (ex.d + 1).toUInt64.toNat
  · rw [if_pos hcapacity]
    rfl
  · rw [if_neg hcapacity, if_neg hn]
    exact if_pos hlayer

/-- A node above layer 0 has a prescribed parent. -/
theorem prescribedParents_ne_nil {index : Int32} (count rlayer : Int64)
    (hlayer : index.toInt64 / ex.n ≠ 0) : prescribedParents P ex id count rlayer index ≠ [] := by
  unfold prescribedParents
  rw [if_neg hlayer]
  intro hnil
  have hmem := (Finset.mem_sort (· ≤ ·)).mpr (Finset.mem_insert_self (index.toInt - ex.n.toInt)
    ((((dependencyBytes P ex id count rlayer index).take ex.d.toInt.toNat).zipIdx.map
      fun p => shifted ex.n.toInt (index.toInt - ex.n.toInt)
        (picked ex.n.toInt ex.d.toInt (index.toInt / ex.n.toInt) p.2 p.1.toNat)).toFinset))
  rw [hnil] at hmem
  cases hmem

theorem prescribedParents_bottom {index : Int32} (count rlayer : Int64)
    (hlayer : index.toInt64 / ex.n = 0) : prescribedParents P ex id count rlayer index = [] := by
  unfold prescribedParents
  rw [if_pos hlayer]

/-- A draw that succeeds needs a graph. -/
theorem ne_zero_of_sample {v : Verifier} {chals : List (List Int64)}
    {proofs : List (List CommitProof)} {draw : ℕ × ℕ} {s : Sample}
    (h : sample v chals proofs draw = .ok s) : v.expanders.n ≠ 0 := by
  intro hn
  simp only [sample, Dispatch.bind_eq_ok, hn, if_true, reduceCtorEq, and_false, exists_false] at h

/-- A drawn node of layer 0 passes, whatever parents its proof names. -/
theorem checkSample_bottom {v : Verifier} {s : Sample} (hn : v.expanders.n ≠ 0)
    (hlayer : s.proof.node.index.toInt64 / v.expanders.n = 0) : checkSample P v id s = .ok () := by
  unfold checkSample
  rw [calcParents_bottom _ _ hn hlayer]
  rfl

/-- **When the dependencies are enforced.**  For every draw of proofs, the verifier compares with
the prescribed parents and refuses proofs that name others just if every drawn node is in layer 0
and its proof names no parents.  So for a node of layer 1 or above they are never enforced. -/
theorem nodeDependencies_enforced_iff {v : Verifier} {draw : ℕ → ℕ × ℕ}
    {chals : List (List Int64)} {proofs : List (List CommitProof)} {pick : Int32}
    (samples : ℕ → Sample) (hchals : ∀ chal ∈ chals, chal ≠ [])
    (hsamples : ∀ t < draws pick proofs, sample v chals proofs (draw t) = .ok (samples t)) :
    ((∀ t < draws pick proofs, ParentsEnforced P v.expanders id (samples t)) ∧
      ((∃ t < draws pick proofs, (samples t).Differs P v.expanders id) →
        ∃ message, verifyNodeDependencies P v draw id chals proofs pick =
          .error (.bail message))) ↔
    ∀ t < draws pick proofs, (samples t).proof.node.index.toInt64 / v.expanders.n = 0 ∧
      (samples t).proof.parents = [] := by
  constructor
  · rintro ⟨hcompared, hrefused⟩
    have hbottom : ∀ t < draws pick proofs,
        (samples t).proof.node.index.toInt64 / v.expanders.n = 0 := by
      intro t ht
      obtain ⟨node, hnode, hparents⟩ := (hcompared t ht).compared
      obtain rfl := calcParents_new hnode
      by_contra hlayer
      exact prescribedParents_ne_nil _ _ hlayer hparents.symm
    intro t ht
    refine ⟨hbottom t ht, ?_⟩
    by_contra hparents
    have hdiffers : (samples t).Differs P v.expanders id := by
      unfold Sample.Differs
      rw [prescribedParents_bottom _ _ (hbottom t ht)]
      exact fun h => hparents (List.map_eq_nil_iff.mp h)
    obtain ⟨message, herror⟩ := hrefused ⟨t, ht, hdiffers⟩
    have hok : verifyNodeDependencies P v draw id chals proofs pick = .ok () := by
      simp only [verifyNodeDependencies, Dispatch.bind_eq_ok, forM_eq_ok]
      refine ⟨(), fun chal hchal => ?_, fun t ht => ?_⟩
      · cases chal with
        | nil => exact absurd rfl (hchals _ hchal)
        | cons c rest => exact ⟨c, rfl, rfl⟩
      · have ht := List.mem_range.mp ht
        exact ⟨samples t, hsamples t ht,
          checkSample_bottom (ne_zero_of_sample (hsamples t ht)) (hbottom t ht)⟩
    rw [hok] at herror
    cases herror
  · intro h
    refine ⟨fun t ht => ?_, ?_⟩
    · obtain ⟨hlayer, -⟩ := h t ht
      have hnil : prescribedParents P v.expanders id (samples t).cluster (samples t).rlayer
          (samples t).proof.node.index = [] := prescribedParents_bottom _ _ hlayer
      refine ⟨⟨_, calcParents_bottom _ _ (ne_zero_of_sample (hsamples t ht)) hlayer, ?_⟩, ?_, ?_⟩
      · rw [hnil]
        rfl
      · rw [hnil]
        exact List.Pairwise.nil
      · rw [hnil]
        rintro p ⟨⟩
    · rintro ⟨t, ht, hdiffers⟩
      obtain ⟨hlayer, hparents⟩ := h t ht
      refine absurd ?_ hdiffers
      rw [prescribedParents_bottom _ _ hlayer, hparents]
      rfl

/-! ## A proof without parents -/

/-- A verifier for the graph with two layers of 256 nodes. -/
def smallVerifier : Verifier where
  clusterSize := 1
  expanders := { k := 1, n := 256, d := 1 }
  nodes := ∅

/-- A proof of a node that names no parents. -/
def bareProof (index : Int32) : CommitProof where
  node := { index := index, label := [], paths := [], locs := [] }
  parents := []
  elders := []

theorem nodeDependencies_enforced_bottom :
    ((∀ t < draws 4 [[bareProof 0]], ParentsEnforced shortParams smallVerifier.expanders [1]
        { cluster := 1, rlayer := 1, proof := bareProof 0 }) ∧
      ((∃ t < draws 4 [[bareProof 0]], Sample.Differs shortParams smallVerifier.expanders [1]
          { cluster := 1, rlayer := 1, proof := bareProof 0 }) →
        ∃ message, verifyNodeDependencies shortParams smallVerifier (fun _ => (0, 0)) [1] [[1, 0]]
          [[bareProof 0]] 4 = .error (.bail message))) :=
  (nodeDependencies_enforced_iff (P := shortParams) (fun _ => ⟨1, 1, bareProof 0⟩) (by decide)
    (fun _ _ => rfl)).mpr (fun _ _ => ⟨by decide, rfl⟩)

/-- **A node of layer 1 needs no parents.**  The proof names none where some are prescribed, and it
passes. -/
theorem proof_without_parents_passes :
    Sample.Differs shortParams smallVerifier.expanders [1]
        { cluster := 1, rlayer := 1, proof := bareProof 256 } ∧
      sample smallVerifier [[1, 256]] [[bareProof 256]] (0, 0) =
        .ok { cluster := 1, rlayer := 1, proof := bareProof 256 } ∧
      verifyNodeDependencies shortParams smallVerifier (fun _ => (0, 0)) [1] [[1, 256]] [[bareProof 256]] 4 =
        .ok () := by
  refine ⟨?_, rfl, ?_⟩
  · intro h
    exact prescribedParents_ne_nil _ _ (by decide) h.symm
  · rfl

/-! ## A sequence of calls -/

/-- The node after a sequence of `add_parent` calls. -/
def Node.addParents (node : Node) (values : List Int32) : Except Error Node :=
  values.foldlM (fun node value => Prod.snd <$> node.addParent value) node

/-- The list of parents is a sorted set over a sequence of calls: no call panics, the list stays
strictly increasing, and it has exactly the offered values besides the index of the node as long as
there is room for them; a call returns true if the value is new and there is room. -/
def Node.KeepsSet (node : Node) (values : List Int32) : Prop :=
  ∀ offered, offered <+: values → ∃ node', node.addParents offered = .ok node' ∧
    node'.parents.Pairwise (· < ·) ∧
    ((offered.filter (· ≠ node.index)).dedup.length ≤ node.capacity →
      ∀ value, value ∈ node'.parents ↔ value ∈ offered ∧ value ≠ node.index) ∧
    ∀ value, offered ++ [value] <+: values → ∃ added node'',
      node'.addParent value = .ok (added, node'') ∧
        (added = true ↔ value ∉ node'.parents ∧ value ≠ node.index ∧
          node'.parents.length < node.capacity)

theorem Node.addParents_empty {node : Node} (h : node.parents = []) (values : List Int32) :
    node.addParents values = .ok node := by
  unfold Node.addParents
  induction values with
  | nil => rfl
  | cons value values ih =>
    rw [List.foldlM_cons, Node.addParent_empty h]
    exact ih

/-- The first value that is offered is refused. -/
theorem not_keepsSet {node : Node} {value : Int32} {values : List Int32} (offered : List Int32)
    (hempty : node.parents = []) (hroom : 0 < node.capacity) (hvalue : value ≠ node.index)
    (h : offered ++ [value] <+: values) : ¬ node.KeepsSet values := by
  intro hkeeps
  have hoffered := (List.prefix_append offered [value]).trans h
  obtain ⟨node', hnode', -, -, hadds⟩ := hkeeps offered hoffered
  obtain rfl : node = node' := Except.ok.inj ((Node.addParents_empty hempty offered).symm.trans hnode')
  obtain ⟨added, node'', hadd, hadded⟩ := hadds value h
  rw [Node.addParent_empty hempty] at hadd
  obtain ⟨rfl, -⟩ := Prod.mk.inj (Except.ok.inj hadd)
  simp [hempty, hvalue, hroom] at hadded

/-- **When the parents of a node are a sorted set.**  A node that is created with an empty list
never gets a parent, so this is so only if there is no room for one or none is offered. -/
theorem keepsSet_iff (index : Int32) (capacity : ℕ) (values : List Int32) :
    Node.KeepsSet ⟨index, [], capacity⟩ values ↔ capacity = 0 ∨ ∀ value ∈ values, value = index := by
  constructor
  · intro hkeeps
    by_contra hnot
    push Not at hnot
    obtain ⟨hroom, value, hmem, hvalue⟩ := hnot
    obtain ⟨offered, rest, rfl⟩ := List.append_of_mem hmem
    exact not_keepsSet offered rfl (Nat.pos_of_ne_zero hroom) hvalue ⟨rest, by simp⟩ hkeeps
  · intro hnone offered hoffered
    have hall : ∀ value ∈ offered, capacity = 0 ∨ value = index := fun value hmem =>
      hnone.imp_right fun h => h value (hoffered.subset hmem)
    refine ⟨_, Node.addParents_empty rfl offered, .nil, ?_, ?_⟩
    · -- with no room nothing but the index may have been offered
      intro hcard value
      refine ⟨nofun, fun ⟨hmem, hvalue⟩ => ?_⟩
      have hzero := (hall value hmem).resolve_right hvalue
      have hfilter : value ∈ (offered.filter (· ≠ index)).dedup := by simp [hmem, hvalue]
      have hlength := List.length_pos_of_mem hfilter
      have hcapacity : (offered.filter (· ≠ index)).dedup.length ≤ capacity := hcard
      omega
    · intro value hvalue
      refine ⟨false, _, Node.addParent_empty rfl value, ?_⟩
      have hmem : value ∈ values := hvalue.subset (by simp)
      rcases hnone with rfl | hindex
      · simp
      · simp [hindex value hmem]

/-- A node with room for four parents refuses the first one. -/
theorem first_parent_refused : ¬ Node.KeepsSet ⟨1, [], 4⟩ [2] :=
  not_keepsSet [] rfl (by decide) (by decide) List.prefix_rfl

end Pois
