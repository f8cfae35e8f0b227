/-
# Storage maps with an index by identity

A store often keeps its records under a key that may change, together with an index that
finds the key of a record by an identity that does not.  Here `m` is the map of records,
`ident` reads the identity off a record, and `index` sends an identity to a key.

* `Inverse ident index m` : the two maps are mutually inverse, so that every record is
  found by its identity and every identity names a record;
* `Replaced ident m m' k v` : `m'` holds `v` under `k` as the only record of its
  identity, and agrees with `m` on the records of every other identity.

Filing a new record, rewriting one in place and moving one to a free key all keep the
maps inverse and replace just the record concerned.

A queue beside the records has entries `(b, i)`: something is due at `b` for the record of the
identity `i`.  Here `due v b` says of a record when that is, and `F` is the set of the entries that
count.

* `Right ident due m queue F` : every entry that counts names a record that is due then;
* `Awaited ident due m queue F` : every record that is due has its entry, and the entry counts.
-/
import CessNode.StorageMap

namespace StorageMap

variable {κ ν ι : Type} [DecidableEq κ] [DecidableEq ι] {ident : ν → ι}
  {index : StorageMap ι κ} {m : StorageMap κ ν}

/-- The index and the map of records are mutually inverse. -/
structure Inverse (ident : ν → ι) (index : StorageMap ι κ) (m : StorageMap κ ν) : Prop where
  toRecord : ∀ i k, index.lookup i = some k → ∃ v, m.lookup k = some v ∧ ident v = i
  toIndex : ∀ k v, m.lookup k = some v → index.lookup (ident v) = some k

/-- The map `m'` differs from `m` in the records of one identity, of which it holds just
`v₀`, under `k₀`. -/
def Replaced (ident : ν → ι) (m m' : StorageMap κ ν) (k₀ : κ) (v₀ : ν) : Prop :=
  ∀ k v, m'.lookup k = some v ↔
    (ident v = ident v₀ ∧ k = k₀ ∧ v = v₀) ∨ (ident v ≠ ident v₀ ∧ m.lookup k = some v)

theorem Inverse.empty : Inverse ident (∅ : StorageMap ι κ) (∅ : StorageMap κ ν) where
  toRecord := by
    intro i k h
    cases h
  toIndex := by
    intro k v h
    cases h

/-- Records of one identity are one record. -/
theorem Inverse.unique (h : Inverse ident index m) {k k' : κ} {v v' : ν}
    (hv : m.lookup k = some v) (hv' : m.lookup k' = some v') (hid : ident v = ident v') :
    k = k' ∧ v = v' := by
  have hk : some k = some k' := by
    rw [← h.toIndex k v hv, ← h.toIndex k' v' hv', hid]
  obtain rfl := Option.some.inj hk
  exact ⟨rfl, Option.mem_unique hv hv'⟩

/-- The record filed under the key the index gives for an identity. -/
theorem Inverse.lookup_of_index (h : Inverse ident index m) {i : ι} {k : κ} {v : ν}
    (hi : index.lookup i = some k) (hv : m.lookup k = some v) : ident v = i := by
  obtain ⟨v', hv', hid⟩ := h.toRecord i k hi
  obtain rfl : v = v' := Option.mem_unique hv hv'
  exact hid

section Replaced

variable {m' : StorageMap κ ν} {k₀ : κ} {v₀ : ν}

omit [DecidableEq ι] in
/-- The new record is there. -/
theorem Replaced.lookup_self (h : Replaced ident m m' k₀ v₀) : m'.lookup k₀ = some v₀ :=
  (h k₀ v₀).mpr (.inl ⟨rfl, rfl, rfl⟩)

omit [DecidableEq ι] in
/-- Records of other identities stay. -/
theorem Replaced.lookup_other (h : Replaced ident m m' k₀ v₀) {k : κ} {v : ν}
    (hid : ident v ≠ ident v₀) (hv : m.lookup k = some v) : m'.lookup k = some v :=
  (h k v).mpr (.inr ⟨hid, hv⟩)

/-- A replaced map is indexed by the old index with the one entry rewritten. -/
theorem Replaced.inverse (h : Replaced ident m m' k₀ v₀) (hinv : Inverse ident index m) :
    Inverse ident (index.insert (ident v₀) k₀) m' where
  toRecord := by
    intro i k hi
    rw [lookup_insert_ite] at hi
    split_ifs at hi with hid
    · obtain rfl := Option.some.inj hi
      exact ⟨v₀, h.lookup_self, hid.symm⟩
    · obtain ⟨v, hv, rfl⟩ := hinv.toRecord i k hi
      exact ⟨v, h.lookup_other hid hv, rfl⟩
  toIndex := by
    intro k v hv
    rw [lookup_insert_ite]
    rcases (h k v).mp hv with ⟨hid, rfl, rfl⟩ | ⟨hid, hv⟩
    · rw [if_pos rfl]
    · rw [if_neg hid]
      exact hinv.toIndex k v hv

end Replaced

/-- Filing a record of a new identity under a free key. -/
theorem Inverse.replaced_new (h : Inverse ident index m) {k : κ} {v : ν} (hk : m.lookup k = none)
    (hi : index.lookup (ident v) = none) : Replaced ident m (m.insert k v) k v := by
  intro k' v'
  rw [lookup_insert_ite]
  constructor
  · intro hv'
    split_ifs at hv' with hkk
    · obtain rfl := Option.some.inj hv'
      exact .inl ⟨rfl, hkk, rfl⟩
    · refine .inr ⟨?_, hv'⟩
      intro hid
      have := h.toIndex k' v' hv'
      rw [hid, hi] at this
      cases this
  · rintro (⟨-, rfl, rfl⟩ | ⟨-, hv'⟩)
    · rw [if_pos rfl]
    · rw [if_neg]
      · exact hv'
      · rintro rfl
        rw [hk] at hv'
        cases hv'

/-- Moving a record to a free key, or to its own key again. -/
theorem Inverse.replaced_move (h : Inverse ident index m) {k₁ k₂ : κ} {v₁ v₂ : ν}
    (hv₁ : m.lookup k₁ = some v₁) (hid : ident v₂ = ident v₁)
    (hfree : k₂ = k₁ ∨ m.lookup k₂ = none) :
    Replaced ident m ((m.erase k₁).insert k₂ v₂) k₂ v₂ := by
  intro k v
  rw [lookup_insert_ite, lookup_erase_ite]
  constructor
  · intro hv
    split_ifs at hv with hk₂ hk₁
    · obtain rfl := Option.some.inj hv
      exact .inl ⟨rfl, hk₂, rfl⟩
    · refine .inr ⟨?_, hv⟩
      intro hidv
      exact hk₁ (h.unique hv hv₁ (hidv.trans hid)).1
  · rintro (⟨-, rfl, rfl⟩ | ⟨hidv, hv⟩)
    · rw [if_pos rfl]
    · have hk₁ : k ≠ k₁ := by
        rintro rfl
        obtain rfl : v = v₁ := Option.mem_unique hv hv₁
        exact hidv hid.symm
      have hk₂ : k ≠ k₂ := by
        rintro rfl
        rcases hfree with rfl | hnone
        · exact hk₁ rfl
        · rw [hnone] at hv
          cases hv
      rw [if_neg hk₂, if_neg hk₁]
      exact hv

/-- Rewriting a record in place. -/
theorem Inverse.replaced_put (h : Inverse ident index m) {k : κ} {v₁ v₂ : ν}
    (hv₁ : m.lookup k = some v₁) (hid : ident v₂ = ident v₁) :
    Replaced ident m (m.insert k v₂) k v₂ := by
  have hmove := h.replaced_move hv₁ hid (.inl rfl)
  intro k' v'
  rw [← hmove k' v', lookup_insert_ite, lookup_insert_ite, lookup_erase_ite]
  split_ifs <;> rfl

/-- Rewriting a record in place keeps the index. -/
theorem Inverse.put (h : Inverse ident index m) {k : κ} {v₁ v₂ : ν} (hv₁ : m.lookup k = some v₁)
    (hid : ident v₂ = ident v₁) : Inverse ident index (m.insert k v₂) := by
  have hrep := h.replaced_put hv₁ hid
  have hkey : index.lookup (ident v₂) = some k := by
    rw [hid]
    exact h.toIndex k v₁ hv₁
  have hinv := hrep.inverse h
  refine ⟨?_, ?_⟩
  · intro i k' hi
    apply hinv.toRecord i k'
    rw [lookup_insert_ite]
    split_ifs with hii
    · rw [← hkey, ← hii, hi]
    · exact hi
  · intro k' v' hv'
    have := hinv.toIndex k' v' hv'
    rw [lookup_insert_ite] at this
    split_ifs at this with hii
    · rw [hii, hkey, this]
    · exact this

/-! ## Queues -/

section Queue

variable {β : Type} {due : ν → β → Prop} {queue queue' : StorageMap (β × ι) Bool}
  {F F' : Set (β × ι)} {m' : StorageMap κ ν} {k k₀ : κ} {v v₀ : ν} {b b₀ : β}

/-- The entries in `F` name records that are due then. -/
def Right (ident : ν → ι) (due : ν → β → Prop) (m : StorageMap κ ν)
    (queue : StorageMap (β × ι) Bool) (F : Set (β × ι)) : Prop :=
  ∀ b i, (b, i) ∈ queue → (b, i) ∈ F → ∃ k v, m.lookup k = some v ∧ ident v = i ∧ due v b

/-- Every record that is due has its entry, and it is in `F`. -/
def Awaited (ident : ν → ι) (due : ν → β → Prop) (m : StorageMap κ ν)
    (queue : StorageMap (β × ι) Bool) (F : Set (β × ι)) : Prop :=
  ∀ k v b, m.lookup k = some v → due v b → (b, ident v) ∈ queue ∧ (b, ident v) ∈ F

variable (h : Right ident due m queue F)
include h

omit [DecidableEq ι] in
theorem Right.mono (hF : F' ⊆ F) : Right ident due m queue F' :=
  fun b i hmem hF' => h b i hmem (hF hF')

/-- The record of an entry is due. -/
theorem Right.due_of_mem (hinv : Inverse ident index m) (hv : m.lookup k = some v)
    (hmem : (b, ident v) ∈ queue) (hF : (b, ident v) ∈ F) : due v b := by
  obtain ⟨k', v', hv', hid, hdue⟩ := h b (ident v) hmem hF
  obtain ⟨-, rfl⟩ := hinv.unique hv' hv hid
  exact hdue

/-- One record is replaced: its own entries must be right, and those of the others were there. -/
theorem Right.replace (hF : F' ⊆ F) (hrep : Replaced ident m m' k₀ v₀)
    (hself : ∀ b, (b, ident v₀) ∈ queue' → (b, ident v₀) ∈ F' → due v₀ b)
    (hother : ∀ b i, i ≠ ident v₀ → (b, i) ∈ queue' → (b, i) ∈ queue) :
    Right ident due m' queue' F' := by
  intro b i hmem hF'
  by_cases hi : i = ident v₀
  · subst hi
    exact ⟨k₀, v₀, hrep.lookup_self, rfl, hself b hmem hF'⟩
  · obtain ⟨k, v, hv, rfl, hdue⟩ := h b i (hother b i hi hmem) (hF hF')
    exact ⟨k, v, hrep.lookup_other hi hv, rfl, hdue⟩

/-- The new record is filed, and has no other entry that counts. -/
theorem Right.file [DecidableEq β] (hrep : Replaced ident m m' k₀ v₀) (b₀ : β)
    (hgone : ∀ b, (b, ident v₀) ∈ queue → (b, ident v₀) ∉ F) (hdue : (b₀, ident v₀) ∈ F → due v₀ b₀) :
    
    Right ident due m' (queue.insert (b₀, ident v₀) true) F := by
  refine h.replace subset_rfl hrep ?_ ?_
  · intro b hmem hF
    rcases (AList.mem_insert _).mp hmem with heq | hold
    · obtain ⟨rfl, -⟩ := Prod.mk.inj heq
      exact hdue hF
    · exact absurd hF (hgone b hold)
  · intro b i hi hmem
    exact ((AList.mem_insert _).mp hmem).resolve_left fun heq => hi (Prod.mk.inj heq).2

theorem Right.erase [DecidableEq β] (p : β × ι) : Right ident due m (queue.erase p) F :=
  fun b i hmem hF => h b i (AList.mem_erase.mp hmem).2 hF

/-- Without its entry for the only time at which it is due a record has none that counts. -/
theorem Right.not_mem_of_erase [DecidableEq β] (hinv : Inverse ident index m)
    (hv : m.lookup k = some v) (hdue : ∀ b, due v b → b = b₀) (b : β)
    (hmem : (b, ident v) ∈ queue.erase (b₀, ident v)) : (b, ident v) ∉ F := by
  intro hF
  obtain ⟨hne, hold⟩ := AList.mem_erase.mp hmem
  exact hne (by rw [hdue b (h.due_of_mem hinv hv hold hF)])

omit h

omit [DecidableEq ι] in
theorem Awaited.mono (h : Awaited ident due m queue F) (hF : ∀ p ∈ queue, p ∈ F → p ∈ F') :
    Awaited ident due m queue F' := by
  intro k v b hv hdue
  obtain ⟨hmem, hmemF⟩ := h k v b hv hdue
  exact ⟨hmem, hF _ hmem hmemF⟩

omit [DecidableEq ι] in
/-- One record is replaced: its own entry must be there, and those of the others stay. -/
theorem Awaited.replace (h : Awaited ident due m queue F) (hrep : Replaced ident m m' k₀ v₀)
    (hself : ∀ b, due v₀ b → (b, ident v₀) ∈ queue' ∧ (b, ident v₀) ∈ F')
    (hother : ∀ b i, i ≠ ident v₀ → (b, i) ∈ queue → (b, i) ∈ F →
      (b, i) ∈ queue' ∧ (b, i) ∈ F') : Awaited ident due m' queue' F' := by
  intro k v b hv hdue
  rcases (hrep k v).mp hv with ⟨-, -, rfl⟩ | ⟨hne, hold⟩
  · exact hself b hdue
  · obtain ⟨hmem, hF⟩ := h k v b hold hdue
    exact hother b (ident v) hne hmem hF

/-- The new record is filed. -/
theorem Awaited.file [DecidableEq β] (h : Awaited ident due m queue F)
    (hrep : Replaced ident m m' k₀ v₀) (b₀ : β)
    (hself : ∀ b, due v₀ b → b = b₀ ∧ (b₀, ident v₀) ∈ F) :
    Awaited ident due m' (queue.insert (b₀, ident v₀) true) F := by
  refine h.replace hrep ?_ fun b i _ hmem hF => ⟨(AList.mem_insert _).mpr (.inr hmem), hF⟩
  intro b hdue
  obtain ⟨rfl, hF⟩ := hself b hdue
  exact ⟨(AList.mem_insert _).mpr (.inl rfl), hF⟩

end Queue

end StorageMap
