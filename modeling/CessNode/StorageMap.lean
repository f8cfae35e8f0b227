/-
# Finite storage maps

A storage map is a finite partial function from keys to values.  The representation
is Mathlib's association list `AList`, whose `lookup`, `insert` and `erase` are the
three accesses a key-value store offers.  This file adds what the accounting
arguments need on top of it:

* `lookup_insert_ite`, `lookup_erase_ite` : reading back after a write, as one equation;
* `StorageMap.total` : the sum of a weight over all entries, with its change under
  every write (`total_insert_new`, `total_insert_over`, `total_move`, `total_erase`);
* `StorageMap.iterPrefix` : the second keys stored under one first key of a double map.
-/
import Mathlib

/-- A finite map from `κ` to `ν`. -/
abbrev StorageMap (κ ν : Type) := AList fun _ : κ => ν

namespace StorageMap

variable {κ κ' ν : Type} [DecidableEq κ] [DecidableEq κ']
variable {m : StorageMap κ ν} {k : κ} {f : κ → ν → ℕ} {v : ν}

/-! ## Reading back a write -/

/-- What a lookup finds after an insertion. -/
theorem lookup_insert_ite (m : StorageMap κ ν) (k k' : κ) (v : ν) :
    (m.insert k v).lookup k' = if k' = k then some v else m.lookup k' := by
  by_cases h : k' = k
  · subst h
    rw [AList.lookup_insert, if_pos rfl]
  · rw [AList.lookup_insert_ne h, if_neg h]

/-- What a lookup finds after a removal. -/
theorem lookup_erase_ite (m : StorageMap κ ν) (k k' : κ) :
    (m.erase k).lookup k' = if k' = k then none else m.lookup k' := by
  by_cases h : k' = k
  · subst h
    rw [AList.lookup_erase, if_pos rfl]
  · rw [AList.lookup_erase_ne h, if_neg h]

/-- A written entry, as an update of the lookup. -/
theorem lookup_insert_update (m : StorageMap κ ν) (k : κ) (v : ν) :
    (fun k' => (m.insert k v).lookup k') = Function.update (fun k' => m.lookup k') k (some v) := by
  funext k'
  rw [lookup_insert_ite, Function.update_apply]

/-- A removed entry, as an update of the lookup. -/
theorem lookup_erase_update (m : StorageMap κ ν) (k : κ) :
    (fun k' => (m.erase k).lookup k') = Function.update (fun k' => m.lookup k') k none := by
  funext k'
  rw [lookup_erase_ite, Function.update_apply]

omit [DecidableEq κ'] in
/-- What holds of all values and of the one that is written holds of all values afterwards. -/
theorem forall_update {get get' : κ → Option ν} {P : ν → Prop} {v : Option ν}
    (h : ∀ k v, get k = some v → P v) (hget' : get' = Function.update get k v)
    (hv : ∀ a, v = some a → P a) : ∀ k v, get' k = some v → P v := by
  intro k' a ha
  rw [hget', Function.update_apply] at ha
  split_ifs at ha
  · exact hv a ha
  · exact h k' a ha

/-- The same for what is said of keys and values. -/
theorem forall_insert {P : κ → ν → Prop} (h : ∀ k v, m.lookup k = some v → P k v) (hv : P k v) :
    ∀ k' v', (m.insert k v).lookup k' = some v' → P k' v' := by
  intro k' v' hv'
  rw [lookup_insert_ite] at hv'
  split_ifs at hv' with hk
  · obtain rfl := Option.some.inj hv'
    exact hk ▸ hv
  · exact h k' v' hv'

/-- What is stored after a removal was stored before. -/
theorem lookup_of_erase {k' : κ} (h : (m.erase k).lookup k' = some v) : m.lookup k' = some v := by
  rw [lookup_erase_ite] at h
  split_ifs at h
  exact h

/-- A key is present exactly when some value is stored under it. -/
theorem mem_iff_exists_lookup : k ∈ m ↔ ∃ v, m.lookup k = some v := by
  rw [← AList.lookup_isSome, Option.isSome_iff_exists]

/-! ## The total weight of a map -/

/-- The sum of the weight `f` over all entries. -/
def total (m : StorageMap κ ν) (f : κ → ν → ℕ) : ℕ :=
  (m.entries.map fun e => f e.1 e.2).sum

omit [DecidableEq κ] in
/-- Weights that agree on all entries have the same total. -/
theorem total_congr {g : κ → ν → ℕ} (h : ∀ e ∈ m.entries, f e.1 e.2 = g e.1 e.2) :
    total m f = total m g := by
  unfold total
  rw [List.map_congr_left h]

omit [DecidableEq κ] in
/-- Entries without weight have no total. -/
theorem total_eq_zero (h : ∀ k v, f k v = 0) : total m f = 0 := by
  refine List.sum_eq_zero ?_
  intro x hx
  obtain ⟨e, -, rfl⟩ := List.mem_map.mp hx
  exact h e.1 e.2

omit [DecidableEq κ] in
/-- Entries of bounded weight. -/
theorem total_le {c : ℕ} (h : ∀ k v, f k v ≤ c) : total m f ≤ m.keys.length * c := by
  have hlength : m.keys.length = (m.entries.map fun e => f e.1 e.2).length := by
    rw [List.length_map]
    exact List.length_map _
  rw [hlength]
  refine List.sum_le_card_nsmul _ c ?_
  intro x hx
  obtain ⟨e, -, rfl⟩ := List.mem_map.mp hx
  exact h e.1 e.2

/-- Taking a stored entry out of the list leaves the rest of the total. -/
theorem sum_kerase {l : List (Σ _ : κ, ν)} (f : κ → ν → ℕ) (h : l.dlookup k = some v) :
    ((l.kerase k).map fun e => f e.1 e.2).sum + f k v = (l.map fun e => f e.1 e.2).sum := by
  induction l with
  | nil => simp at h
  | cons e l ih =>
    obtain ⟨k', v'⟩ := e
    by_cases hk : k = k'
    · subst hk
      rw [List.dlookup_cons_eq] at h
      obtain rfl := Option.some.inj h
      have hcons : List.kerase k (⟨k, v'⟩ :: l) = l := List.kerase_cons_eq rfl
      rw [hcons, List.map_cons, List.sum_cons, add_comm]
    · rw [List.dlookup_cons_ne _ _ hk] at h
      have hcons : List.kerase k (⟨k', v'⟩ :: l) = ⟨k', v'⟩ :: List.kerase k l :=
        List.kerase_cons_ne hk
      rw [hcons, List.map_cons, List.map_cons, List.sum_cons, List.sum_cons, ← ih h,
        add_assoc]

/-- Removing a stored entry lowers the total by its weight. -/
theorem total_erase (f : κ → ν → ℕ) (h : m.lookup k = some v) :
    total (m.erase k) f + f k v = total m f :=
  sum_kerase f h

/-- Removing an absent key changes nothing. -/
theorem erase_of_lookup_none (h : m.lookup k = none) : m.erase k = m := by
  apply AList.ext
  exact List.kerase_of_notMem_keys (AList.lookup_eq_none.mp h)

/-- An insertion is a removal followed by a fresh entry. -/
theorem total_insert (m : StorageMap κ ν) (k : κ) (v : ν) (f : κ → ν → ℕ) :
    total (m.insert k v) f = f k v + total (m.erase k) f := by
  rfl

/-- Inserting under a free key adds the weight of the new entry. -/
theorem total_insert_new (v : ν) (f : κ → ν → ℕ) (h : m.lookup k = none) :
    total (m.insert k v) f = total m f + f k v := by
  rw [total_insert, erase_of_lookup_none h, add_comm]

/-- Inserting over a stored entry exchanges the two weights. -/
theorem total_insert_over {v₀ : ν} (v : ν) (f : κ → ν → ℕ) (h : m.lookup k = some v₀) :
    total (m.insert k v) f + f k v₀ = total m f + f k v := by
  rw [total_insert, ← total_erase f h]
  omega

/-- Moving an entry to a free key, or to its own key again, exchanges the two weights. -/
theorem total_move {k₁ k₂ : κ} {v₁ : ν} (v₂ : ν) (f : κ → ν → ℕ) (h : m.lookup k₁ = some v₁)
    (hfree : k₂ = k₁ ∨ m.lookup k₂ = none) :
    total ((m.erase k₁).insert k₂ v₂) f + f k₁ v₁ = total m f + f k₂ v₂ := by
  have hnone : (m.erase k₁).lookup k₂ = none := by
    rw [lookup_erase_ite]
    rcases hfree with rfl | hfree
    · rw [if_pos rfl]
    · rw [hfree, ite_self]
  rw [total_insert_new v₂ f hnone, ← total_erase f h]
  omega

/-- The weight of a stored entry is part of the total. -/
theorem le_total (f : κ → ν → ℕ) (h : m.lookup k = some v) : f k v ≤ total m f := by
  rw [← total_erase f h]
  omega

/-- A sum that is not zero has an entry with a weight. -/
theorem exists_lookup_of_total_ne_zero (h : total m f ≠ 0) :
    ∃ k v, m.lookup k = some v ∧ f k v ≠ 0 := by
  by_contra hnone
  refine h (List.sum_eq_zero ?_)
  intro x hx
  obtain ⟨⟨k, v⟩, he, rfl⟩ := List.mem_map.mp hx
  by_contra hne
  exact hnone ⟨k, v, AList.mem_lookup_iff.mpr he, hne⟩

/-! ## Prefix iteration of a double map -/

/-- The second keys stored under the first key `a`. -/
def iterPrefix (m : StorageMap (κ × κ') ν) (a : κ) : List κ' :=
  (m.keys.filter fun k => decide (k.1 = a)).map Prod.snd

omit [DecidableEq κ'] in
/-- Prefix iteration visits exactly the stored pairs with that first key. -/
theorem mem_iterPrefix {m : StorageMap (κ × κ') ν} {a : κ} {b : κ'} :
    b ∈ iterPrefix m a ↔ (a, b) ∈ m := by
  simp only [iterPrefix, List.mem_map, List.mem_filter, decide_eq_true_eq]
  constructor
  · rintro ⟨⟨a', b'⟩, ⟨hmem, rfl⟩, rfl⟩
    exact hmem
  · intro h
    exact ⟨(a, b), ⟨h, rfl⟩, rfl⟩

omit [DecidableEq κ'] in
/-- Prefix iteration visits no second key twice. -/
theorem nodup_iterPrefix (m : StorageMap (κ × κ') ν) (a : κ) : (iterPrefix m a).Nodup := by
  apply List.Nodup.map_on
  · rintro ⟨a₁, b₁⟩ h₁ ⟨a₂, b₂⟩ h₂ hb
    simp only [List.mem_filter, decide_eq_true_eq] at h₁ h₂
    simp only at hb
    rw [h₁.2, h₂.2, hb]
  · exact m.keys_nodup.filter _

end StorageMap
