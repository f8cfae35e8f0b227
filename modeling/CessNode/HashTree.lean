/-
# Hash trees

A complete binary tree over leaves that are lists, in which a node is the hash of what it stands
for: a leaf stands for its data, an inner node for the digests of its two children one after the
other.  A path leads from data up to a node by joining a digest with a sibling, on the left or on
the right, and hashing again.

`eq_input_of_top` says what a path proves: data from which a path of `k` siblings leads to the root
is what the tree has `k` levels below the root, at the position that the sides of the siblings
spell.  The siblings come from whoever shows the path.  The hash need not be injective; it is enough
that the strings of the tree do not collide with the strings that the path hashes.
-/
import Mathlib

namespace HashTree

variable {α : Type} (hash : List α → List α)

/-- What the node at a level, counted from the leaves, and a position stands for. -/
def input (leaf : ℕ → List α) : ℕ → ℕ → List α
  | 0, i => leaf i
  | h + 1, i => hash (input leaf h (2 * i)) ++ hash (input leaf h (2 * i + 1))

/-- The root of the tree with `2 ^ h` leaves. -/
def root (leaf : ℕ → List α) (h : ℕ) : List α := hash (input hash leaf h 0)

/-- A digest with a sibling, which is on the left if the flag is set. -/
def joined (step : Bool × List α) (digest : List α) : List α :=
  if step.1 then step.2 ++ digest else digest ++ step.2

/-- The string whose hash is the end of a path. -/
def top : List α → List (Bool × List α) → List α
  | data, [] => data
  | data, step :: rest => top (joined step (hash data)) rest

/-- The strings that are hashed along a path. -/
def hashed : List α → List (Bool × List α) → List (List α)
  | data, [] => [data]
  | data, step :: rest => data :: hashed (joined step (hash data)) rest

/-- The position that the sides of a path spell, the lowest bit first. -/
def position : List (Bool × List α) → ℕ
  | [] => 0
  | step :: rest => (if step.1 then 1 else 0) + 2 * position rest

/-- No string of the tree collides with a string that the path hashes. -/
def NoCollision (leaf : ℕ → List α) (h : ℕ) (data : List α) (steps : List (Bool × List α)) : Prop :=
  ∀ level ≤ h, ∀ i < 2 ^ (h - level), ∀ y ∈ hashed hash data steps,
    hash (input hash leaf level i) = hash y → input hash leaf level i = y

theorem position_lt (steps : List (Bool × List α)) : position steps < 2 ^ steps.length := by
  induction steps with
  | nil => exact Nat.one_pos
  | cons =>
    rw [position, List.length_cons]
    split_ifs with h
    · omega
    · omega

theorem mem_hashed (data : List α) (steps : List (Bool × List α)) :
    data ∈ hashed hash data steps := by
  cases steps with
  | nil => exact List.mem_singleton_self data
  | cons => exact List.mem_cons_self

variable {hash}

/-- **What a path proves.**  The siblings and their sides are arbitrary. -/
theorem eq_input_of_top (hwidth : ∀ x y, (hash x).length = (hash y).length) {leaf : ℕ → List α}
    {h : ℕ} {data : List α} {steps : List (Bool × List α)} (hlength : steps.length ≤ h)
    (hcollision : NoCollision hash leaf h data steps)
    (hroot : hash (top hash data steps) = root hash leaf h) :
    data = input hash leaf (h - steps.length) (position steps) := by
  induction steps generalizing data with
  | nil => exact (hcollision h (Nat.le_refl h) 0 (by rw [Nat.sub_self]; exact Nat.one_pos) data
      (mem_hashed hash data []) hroot.symm).symm
  | cons step rest ih =>
    rw [List.length_cons] at hlength
    have hjoined : joined step (hash data) = input hash leaf (h - rest.length) (position rest) :=
      ih (by omega)
        (fun level hlevel i hi y hy => hcollision level hlevel i hi y (List.mem_cons_of_mem _ hy))
        hroot
    -- the joined string is an inner node, so its halves are the digests of the children
    obtain ⟨level, hlevel⟩ : ∃ level, h - rest.length = level + 1 :=
      ⟨h - rest.length - 1, by omega⟩
    have hbelow : h - (step :: rest).length = level := by
      rw [List.length_cons]
      omega
    have hbound := position_lt (step :: rest)
    have hfits : position (step :: rest) < 2 ^ (h - level) := by
      rwa [show h - level = (step :: rest).length by rw [List.length_cons]; omega]
    rw [hlevel] at hjoined
    rw [hbelow]
    unfold joined at hjoined
    unfold position at hfits ⊢
    split_ifs at hjoined hfits ⊢ with hside
    · have hdigest := (List.append_inj' hjoined (hwidth _ _)).2
      rw [Nat.add_comm] at hfits ⊢
      exact (hcollision level (by omega) _ hfits data (mem_hashed hash data _) hdigest.symm).symm
    · have hdigest := (List.append_inj hjoined (hwidth _ _)).1
      rw [Nat.zero_add] at hfits ⊢
      exact (hcollision level (by omega) _ hfits data (mem_hashed hash data _) hdigest.symm).symm

end HashTree
