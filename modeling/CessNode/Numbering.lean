/-
# Lists that are numbered consecutively

The elements of a list carry numbers that count up from a first one, as the headers of a chain or
the messages of a sender do.  Then the number of an element is its place (`Counts`), no element
occurs twice, and the elements from a number on are a rest of the list (`Counts.filter`).
-/
import Mathlib

namespace Numbering

variable {α : Type} {key : α → ℕ} {first : ℕ} {l batch : List α}

/-- The numbers of the elements count up from the first one. -/
def Counts (key : α → ℕ) (first : ℕ) (l : List α) : Prop :=
  ∀ i a, l[i]? = some a → key a = first + i

theorem counts_nil (key : α → ℕ) (first : ℕ) : Counts key first [] := by
  intro i a h
  cases h

theorem counts_cons {a : α} :
    Counts key first (a :: l) ↔ key a = first ∧ Counts key (first + 1) l := by
  constructor
  · intro h
    refine ⟨h 0 a rfl, fun i b hget => ?_⟩
    rw [h (i + 1) b hget]
    omega
  · rintro ⟨ha, hl⟩ i b hget
    cases i with
    | zero =>
      obtain rfl := Option.some.inj hget
      exact ha
    | succ i =>
      rw [hl i b hget]
      omega

/-- It is enough that every number is the one before plus one. -/
theorem counts_of_isChain {a : α} (h : (a :: l).IsChain fun b c => key c = key b + 1) :
    Counts key (key a) (a :: l) := by
  induction l generalizing a with
  | nil => exact counts_cons.mpr ⟨rfl, counts_nil _ _⟩
  | cons b l ih =>
    obtain ⟨hnext, hrest⟩ := List.isChain_cons_cons.mp h
    refine counts_cons.mpr ⟨rfl, ?_⟩
    rw [← hnext]
    exact ih hrest

variable (h : Counts key first l)
include h

theorem Counts.append (hbatch : Counts key (first + l.length) batch) :
    Counts key first (l ++ batch) := by
  intro i a hget
  rw [List.getElem?_append] at hget
  split_ifs at hget with hlt
  · exact h i a hget
  · rw [hbatch _ a hget]
    omega

theorem Counts.drop (k : ℕ) : Counts key (first + k) (l.drop k) := by
  intro i a hget
  rw [List.getElem?_drop] at hget
  rw [h _ a hget, Nat.add_assoc]

/-- The elements from a number on. -/
theorem Counts.filter (k : ℕ) : l.filter (fun a => decide (k ≤ key a)) = l.drop (k - first) := by
  induction l generalizing first with
  | nil => rw [List.filter_nil, List.drop_nil]
  | cons a l ih =>
    obtain ⟨ha, hl⟩ := counts_cons.mp h
    rw [List.filter_cons]
    split_ifs with hkeep
    · rw [decide_eq_true_eq, ha] at hkeep
      rw [ih hl, show k - (first + 1) = 0 by omega, show k - first = 0 by omega]
      rfl
    · rw [decide_eq_true_eq, ha] at hkeep
      rw [ih hl, show k - first = (k - (first + 1)) + 1 by omega, List.drop_succ_cons]

theorem Counts.nodup : l.Nodup := by
  rw [List.nodup_iff_getElem?_ne_getElem?]
  intro i j hij hj heq
  have hget : l[j]? = some l[j] := List.getElem?_eq_getElem hj
  have hi := h i _ (heq.trans hget)
  have hj := h j _ hget
  omega

omit h

/-- The place of an element is its number. -/
theorem Counts.get_of_mem (h : Counts key 0 l) {a : α} (ha : a ∈ l) : l[key a]? = some a := by
  obtain ⟨i, hget⟩ := List.mem_iff_getElem?.mp ha
  rw [h i a hget, Nat.zero_add]
  exact hget

end Numbering
