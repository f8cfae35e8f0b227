/-
# What a path proof binds

`check_index_path` and `verify_path_proof` against the hash tree of a file.  The bits of the index
say on which side the siblings are, and `HashTree` says what stands at that position.

What is missing is the length of the path.  The strings of leaves and of inner nodes are hashed
alike, so the two digests under the root are data for the empty path, and a path may also lead from
below a leaf whose data has the form of an inner node.  `paths_bind_iff` says that apart from the
length the two checks bind the data to the position; a negative index counts by its absolute value.
-/
import CessNode.PoisSpec
import CessNode.HashTree

namespace Pois

/-- The hash of the tree of a file. -/
def treeHash (P : Params) (data : List UInt8) : List UInt8 := (P.sha256 data).val

/-- The siblings of a proof with their sides: on the left for the location 0. -/
def PathProof.steps (proof : PathProof) : List (Bool × List UInt8) :=
  (proof.locs.zip proof.path).map fun step => (decide (step.1 = 0), step.2)

variable {P : Params}

theorem length_treeHash (x y : List UInt8) : (treeHash P x).length = (treeHash P y).length :=
  (P.sha256 x).property.trans (P.sha256 y).property.symm

theorem PathProof.length_steps {proof : PathProof} (h : proof.locs.length = proof.path.length) :
    proof.steps.length = proof.locs.length := by
  rw [PathProof.steps, List.length_map, List.length_zip, h, Nat.min_self]

/-- The loop of `verify_path_proof` climbs the path. -/
theorem foldl_eq_top (data : List UInt8) (steps : List (UInt8 × List UInt8)) :
    steps.foldl (fun data step =>
        if step.1 = 0 then (P.sha256 (step.2 ++ data)).val else (P.sha256 (data ++ step.2)).val)
      (treeHash P data) =
    treeHash P (HashTree.top (treeHash P) data
      (steps.map fun step => (decide (step.1 = 0), step.2))) := by
  induction steps generalizing data with
  | nil => rfl
  | cons step rest ih =>
    have hstep : (if step.1 = 0 then (P.sha256 (step.2 ++ treeHash P data)).val
        else (P.sha256 (treeHash P data ++ step.2)).val) =
        treeHash P (HashTree.joined (decide (step.1 = 0), step.2) (treeHash P data)) := by
      unfold HashTree.joined
      simp only [decide_eq_true_eq]
      split_ifs with h
      · rfl
      · rfl
    rw [List.foldl_cons, hstep, ih]
    rfl

/-- An accepted path ends in the root. -/
theorem verifyPathProof_eq_true {root data : List UInt8} {proof : PathProof}
    (h : verifyPathProof P root data proof = true) :
    proof.locs.length = proof.path.length ∧
      treeHash P (HashTree.top (treeHash P) data proof.steps) = root := by
  simp only [verifyPathProof] at h
  split_ifs at h with hlength hwidth
  refine ⟨not_not.mp hlength, ?_⟩
  rw [decide_eq_true_eq] at h
  exact (foldl_eq_top data _).symm.trans h.symm

/-! ## Sides and the index -/

theorem odd_iff (index : Int64) : (index + 1) % 2 = 0 ↔ index.toInt.natAbs % 2 = 1 := by
  have hvalue : ((index + 1) % 2).toInt = ((index.toInt + 1).bmod (2 ^ 64)).tmod 2 := by
    rw [Int64.toInt_mod, Int64.toInt_add]
    rfl
  have hbmod : (index.toInt + 1).bmod (2 ^ 64) % ((2 ^ 64 : ℕ) : ℤ) =
      (index.toInt + 1) % ((2 ^ 64 : ℕ) : ℤ) := Int.bmod_emod
  rw [← Int64.toInt_inj, hvalue]
  show _ = (0 : ℤ) ↔ _
  rw [← Int.dvd_iff_tmod_eq_zero]
  omega

theorem natAbs_half (index : Int64) : (index / 2).toInt.natAbs = index.toInt.natAbs / 2 := by
  have hlt := index.toInt_lt
  have hle := index.le_toInt
  have hhalf : (index.toInt.tdiv 2).natAbs = index.toInt.natAbs / 2 := Int.natAbs_tdiv _ _
  have hvalue : (index / 2).toInt = (index.toInt.tdiv 2).bmod (2 ^ 64) := Int64.toInt_div _ _
  rw [hvalue, bmod_of_fits (by omega) (by omega), hhalf]

/-- The sides that `check_index_path` accepts spell the index. -/
theorem position_of_checkIndexPath {index : Int64} {locs : List UInt8} {path : List (List UInt8)}
    (hlength : locs.length = path.length) (h : checkIndexPath index locs = true) :
    HashTree.position (PathProof.steps ⟨locs, path⟩) = index.toInt.natAbs % 2 ^ locs.length := by
  induction locs generalizing index path with
  | nil => rw [List.length_nil, Nat.pow_zero, Nat.mod_one]; rfl
  | cons v locs ih =>
    cases path with
    | nil => cases hlength
    | cons sibling path =>
      have hrest := Nat.succ.inj hlength
      have hpow : index.toInt.natAbs % 2 ^ (locs.length + 1) =
          index.toInt.natAbs % 2 + 2 * (index.toInt.natAbs / 2 % 2 ^ locs.length) := by
        rw [Nat.pow_succ', Nat.mod_mul]
      have hposition : HashTree.position (PathProof.steps ⟨v :: locs, sibling :: path⟩) =
          (if v = 0 then 1 else 0) + 2 * HashTree.position (PathProof.steps ⟨locs, path⟩) := by
        show (if decide (v = 0) = true then 1 else 0) + _ = _
        simp only [decide_eq_true_eq]
        rfl
      unfold checkIndexPath at h
      rw [List.length_cons, hpow, hposition, ← natAbs_half]
      split_ifs at h with hodd hv hv
      · rw [ih hrest h, if_pos (not_not.mp hv), (odd_iff index).mp hodd]
      · have heven : index.toInt.natAbs % 2 = 0 := by
          have := mt (odd_iff index).mpr hodd
          omega
        rw [ih hrest h, heven, not_not.mp hv, if_neg (by decide)]

/-! ## Binding -/

/-- The strings of the tree do not collide with those that a proof makes the verifier hash. -/
def NoCollision (P : Params) (leaf : ℕ → List UInt8) (h : ℕ) (data : List UInt8)
    (proof : PathProof) : Prop :=
  HashTree.NoCollision (treeHash P) leaf h data proof.steps

/-- The root of the tree over `2 ^ h` leaves. -/
def treeRoot (P : Params) (leaf : ℕ → List UInt8) (h : ℕ) : List UInt8 :=
  HashTree.root (treeHash P) leaf h

/-- **When an accepted label is bound to its position.**  For every tree, index, data and proof that
the two checks accept, the proof is as long as the tree is high and the data is the leaf at the
index just if the proof is as long as the tree is high and the leaves at the index and at its
absolute value are the same, as they are for an index that is not negative. -/
theorem paths_bind_iff {leaf : ℕ → List UInt8} {h : ℕ} {index : Int64} {data : List UInt8}
    {locs : List UInt8} {path : List (List UInt8)}
    (hcollision : NoCollision P leaf h data ⟨locs, path⟩)
    (hindex : checkIndexPath index locs = true)
    (hpath : verifyPathProof P (treeRoot P leaf h) data ⟨locs, path⟩ = true) :
    (locs.length = h ∧ data = leaf (index.toInt % 2 ^ h).toNat) ↔
      locs.length = h ∧
        leaf (index.toInt.natAbs % 2 ^ h) = leaf (index.toInt % 2 ^ h).toNat := by
  obtain ⟨hlength, hroot⟩ := verifyPathProof_eq_true hpath
  have hbound : locs.length = h → data = leaf (index.toInt.natAbs % 2 ^ h) := by
    rintro rfl
    have hsteps : (PathProof.steps ⟨locs, path⟩).length = locs.length :=
      PathProof.length_steps hlength
    have hdata := HashTree.eq_input_of_top length_treeHash (by rw [hsteps]) hcollision hroot
    rw [hsteps, Nat.sub_self, position_of_checkIndexPath hlength hindex] at hdata
    exact hdata
  constructor
  · rintro ⟨hh, hdata⟩
    exact ⟨hh, (hbound hh).symm.trans hdata⟩
  · rintro ⟨hh, hleaf⟩
    exact ⟨hh, (hbound hh).trans hleaf⟩

/-- The leaves of a small tree: their numbers. -/
def numberLeaf (i : ℕ) : List UInt8 := [UInt8.ofNat i]

theorem paths_bind_second_leaf :
    ([0].length = 1 ∧ [1] = numberLeaf ((1 : Int64).toInt % 2 ^ 1).toNat) ↔
      [0].length = 1 ∧ numberLeaf ((1 : Int64).toInt.natAbs % 2 ^ 1) =
        numberLeaf ((1 : Int64).toInt % 2 ^ 1).toNat := by
  have hcollision : NoCollision shortParams numberLeaf 1 [1]
      ⟨[0], [treeHash shortParams [0]]⟩ := by
    unfold NoCollision HashTree.NoCollision
    decide +kernel
  have hpath : verifyPathProof shortParams (treeRoot shortParams numberLeaf 1) [1]
      ⟨[0], [treeHash shortParams [0]]⟩ = true := by
    decide +kernel
  exact paths_bind_iff hcollision (by decide) hpath

/-- **An inner node is accepted as data.**  The two digests under the root of a tree with two
leaves pass for the index 0 with an empty path. -/
theorem inner_node_accepted :
    NoCollision shortParams numberLeaf 1
        (treeHash shortParams [0] ++ treeHash shortParams [1]) ⟨[], []⟩ ∧
      checkIndexPath 0 [] = true ∧
      verifyPathProof shortParams (treeRoot shortParams numberLeaf 1)
        (treeHash shortParams [0] ++ treeHash shortParams [1]) ⟨[], []⟩ = true ∧
      ¬ (([] : List UInt8).length = 1 ∧
        treeHash shortParams [0] ++ treeHash shortParams [1] =
          numberLeaf ((0 : Int64).toInt % 2 ^ 1).toNat) := by
  refine ⟨?_, rfl, ?_, ?_⟩
  · unfold NoCollision HashTree.NoCollision
    decide +kernel
  · decide +kernel
  · rintro ⟨hlength, -⟩
    cases hlength

end Pois
