/-
# Restoral orders

A fragment that its miner has given up, or whose miner has left, is marked as unavailable, and an
order under its hash says in which file it is and which miner had it.  Orders and fragments find
each other by search: the mark goes to the first fragment of that hash that the miner holds, and
the end of the order goes to the first fragment of that hash that the restoring miner or the
original one holds.  Hashes may occur many times, in a file and across files.

The two searches agree because there is at most one order for a hash, and because while it stands
nobody but its end changes the miner of a fragment of that hash.

* `Shelf.Live` : an unavailable fragment is the first of its hash and miner, and has its order;
* `Shelf.Ordered` : all unavailable fragments are live;
* `unavailable_has_order` : so it is in every reached state, and no two fragments of one hash are
  unavailable.
-/
import CessNode.FileShelf

open Dispatch StorageMap

namespace FileBank

open Function (update)

variable {T : Config}

/-! ## The invariant -/

/-- The fragment `x` at position `i` of a file is the first of its hash and its miner there, and
there is an order for it. -/
structure Shelf.Live (s : Shelf T) (fileHash : Hash) (fragments : List (FragmentInfo T)) (i : ℕ)
    (x : FragmentInfo T) : Prop where
  first : ∀ j < i, ∀ z, fragments[j]? = some z → ¬ (z.hash = x.hash ∧ z.miner = x.miner)
  order : ∃ order, s.order x.hash = some order ∧ order.fileHash = fileHash ∧
    order.originMiner = x.miner

/-- Every unavailable fragment is live. -/
def Shelf.Ordered (s : Shelf T) : Prop :=
  ∀ fileHash file i x, s.file fileHash = some file → file.fragments[i]? = some x →
    x.avail = false → s.Live fileHash file.fragments i x

/-- The change of the first fragment that satisfies `p`, position by position. -/
theorem FileInfo.getElem?_modifyFirst {file : FileInfo T} {p : FragmentInfo T → Bool}
    {x : FragmentInfo T} (h : file.fragments.find? p = some x)
    (f : FragmentInfo T → FragmentInfo T) :
    ∃ k : ℕ, file.fragments[k]? = some x ∧ (∀ j < k, ∀ z, file.fragments[j]? = some z → p z = false) ∧
      ∀ j, (file.modifyFirst p f).fragments[j]? =
        if j = k then some (f x) else file.fragments[j]? := by
  obtain ⟨l₁, l₂, hfirst, hl, hmodify⟩ := FileInfo.fragments_modifyFirst h f
  refine ⟨l₁.length, ?_, ?_, ?_⟩
  · rw [hl, List.getElem?_append_right le_rfl, Nat.sub_self]
    rfl
  · intro j hj z hz
    rw [hl, List.getElem?_append_left hj] at hz
    exact hfirst z (List.mem_of_getElem? hz)
  · intro j
    rw [hl, hmodify]
    rcases lt_trichotomy j l₁.length with hj | hj | hj
    · rw [if_neg (by omega), List.getElem?_append_left hj, List.getElem?_append_left hj]
    · rw [if_pos hj, List.getElem?_append_right (by omega), hj, Nat.sub_self]
      rfl
    · obtain ⟨m, hm⟩ : ∃ m, j - l₁.length = m + 1 := ⟨j - l₁.length - 1, by omega⟩
      rw [if_neg (by omega), List.getElem?_append_right (by omega),
        List.getElem?_append_right (by omega), hm, List.getElem?_cons_succ,
        List.getElem?_cons_succ]

namespace Shelf.Ordered

variable {s s' : Shelf T} {fileHash fragmentHash : Hash} {file : FileInfo T}
  {order : RestoralOrderInfo T}

variable (h : s.Ordered)
include h

/-- Only the files and the orders matter. -/
theorem of_same (hfile : s'.file = s.file) (horder : s'.order = s.order) : s'.Ordered := by
  intro hash file i x hlookup hx havail
  rw [hfile] at hlookup
  obtain ⟨hfirst, hlive⟩ := h hash file i x hlookup hx havail
  exact ⟨hfirst, horder ▸ hlive⟩

/-- A file may be exchanged for one whose fragments differ in their tags. -/
theorem retag (hfile : s.file fileHash = some file) {file' : FileInfo T}
    {g : FragmentInfo T → FragmentInfo T} (hfragments : file'.fragments = file.fragments.map g)
    (hg : ∀ x, (g x).hash = x.hash ∧ (g x).miner = x.miner ∧ (g x).avail = x.avail)
    (hs' : s'.file = update s.file fileHash (some file')) (horder : s'.order = s.order) :
    s'.Ordered := by
  intro hash file₁ i x hlookup hx havail
  rw [hs', Function.update_apply] at hlookup
  split_ifs at hlookup with hhash
  · subst hhash
    obtain rfl := Option.some.inj hlookup
    rw [hfragments, List.getElem?_map, Option.map_eq_some_iff] at hx
    obtain ⟨y, hy, rfl⟩ := hx
    obtain ⟨hyhash, hyminer, hyavail⟩ := hg y
    have hlive := h hash file i y hfile hy (hyavail ▸ havail)
    refine ⟨?_, ?_⟩
    · intro j hj z hz
      rw [hfragments, List.getElem?_map, Option.map_eq_some_iff] at hz
      obtain ⟨z₀, hz₀, rfl⟩ := hz
      rw [(hg z₀).1, (hg z₀).2.1, hyhash, hyminer]
      exact hlive.first j hj z₀ hz₀
    · rw [horder, hyhash, hyminer]
      exact hlive.order
  · obtain ⟨hfirst, hlive⟩ := h hash file₁ i x hlookup hx havail
    exact ⟨hfirst, horder ▸ hlive⟩

/-- A file may be exchanged for one with the same fragments. -/
theorem keep (hfile : s.file fileHash = some file) {file' : FileInfo T}
    (hfragments : file'.fragments = file.fragments)
    (hs' : s'.file = update s.file fileHash (some file')) (horder : s'.order = s.order) :
    s'.Ordered :=
  h.retag hfile (g := id) (by rw [hfragments, List.map_id]) (fun _ => ⟨rfl, rfl, rfl⟩) hs' horder

/-- A file may be put down if all its fragments are available, and a file may go. -/
theorem put {value : Option (FileInfo T)}
    (havailable : ∀ file ∈ value, ∀ x ∈ file.fragments, x.avail = true)
    (hs' : s'.file = update s.file fileHash value) (horder : s'.order = s.order) :
    s'.Ordered := by
  intro hash file₁ i x hlookup hx havail
  rw [hs', Function.update_apply] at hlookup
  split_ifs at hlookup
  · have htrue := havailable file₁ hlookup x (List.mem_of_getElem? hx)
    rw [havail] at htrue
    cases htrue
  · obtain ⟨hfirst, hlive⟩ := h hash file₁ i x hlookup hx havail
    exact ⟨hfirst, horder ▸ hlive⟩

/-- A new order marks the first fragment of the hash that the miner holds. -/
theorem generate (hfile : s.file fileHash = some file)
    (hnone : s.order fragmentHash = none) {miner : T.AccountId}
    (hany : file.fragments.any (wanted fragmentHash miner) = true)
    (hfileHash : order.fileHash = fileHash) (horigin : order.originMiner = miner)
    (hs' : s'.file = update s.file fileHash
      (some (file.modifyFirst (wanted fragmentHash miner) fun f => { f with avail := false })))
    (horder : s'.order = update s.order fragmentHash (some order)) : s'.Ordered := by
  obtain ⟨x₀, hx₀⟩ := Option.isSome_iff_exists.mp
    (List.find?_isSome.mpr (List.any_eq_true.mp hany))
  have hfound : wanted fragmentHash miner x₀ = true := List.find?_some hx₀
  have hwanted : x₀.hash = fragmentHash ∧ x₀.miner = miner := of_decide_eq_true hfound
  obtain ⟨k, -, hfirst, hmodified⟩ := FileInfo.getElem?_modifyFirst hx₀ fun f =>
    { f with avail := false }
  -- an unavailable fragment from before has an order, and so another hash
  have hother : ∀ {hash file₁ i x}, s.file hash = some file₁ → file₁.fragments[i]? = some x →
      x.avail = false → x.hash ≠ fragmentHash ∧ s'.Live hash file₁.fragments i x := by
    intro hash file₁ i x hlookup hx havail
    obtain ⟨hfirst₁, order₁, horder₁, hrest⟩ := h hash file₁ i x hlookup hx havail
    have hne : x.hash ≠ fragmentHash := by
      rintro heq
      rw [heq, hnone] at horder₁
      cases horder₁
    refine ⟨hne, hfirst₁, order₁, ?_, hrest⟩
    rw [horder, Function.update_of_ne hne]
    exact horder₁
  intro hash file₁ i x hlookup hx havail
  rw [hs', Function.update_apply] at hlookup
  split_ifs at hlookup with hhash
  · subst hhash
    obtain rfl := Option.some.inj hlookup
    rw [hmodified] at hx
    split_ifs at hx with hi
    · obtain rfl := Option.some.inj hx
      refine ⟨?_, order, ?_, hfileHash, horigin.trans hwanted.2.symm⟩
      · intro j hj z hz
        rw [hmodified, if_neg (by omega)] at hz
        have hfalse := of_decide_eq_false (hfirst j (hi ▸ hj) z hz)
        rwa [← hwanted.1, ← hwanted.2] at hfalse
      · rw [horder]
        rw [hwanted.1, Function.update_self]
    · obtain ⟨hne, hlive⟩ := hother hfile hx havail
      refine ⟨?_, hlive.order⟩
      intro j hj z hz
      rw [hmodified] at hz
      split_ifs at hz with hj'
      · obtain rfl := Option.some.inj hz
        exact fun hsame => hne (hsame.1.symm.trans hwanted.1)
      · exact hlive.first j hj z hz
  · exact (hother hlookup hx havail).2

/-- An order may be claimed by another miner. -/
theorem claim (hlookup : s.order fragmentHash = some order) {order' : RestoralOrderInfo T}
    (hfileHash : order'.fileHash = order.fileHash)
    (horigin : order'.originMiner = order.originMiner) (hs' : s'.file = s.file)
    (horder : s'.order = update s.order fragmentHash (some order')) : s'.Ordered := by
  intro hash file i x hfile hx havail
  rw [hs'] at hfile
  obtain ⟨hfirst, order₁, horder₁, hhash₁, hminer₁⟩ := h hash file i x hfile hx havail
  refine ⟨hfirst, ?_⟩
  rw [horder]
  by_cases heq : x.hash = fragmentHash
  · rw [heq, hlookup] at horder₁
    obtain rfl := Option.some.inj horder₁
    refine ⟨order', ?_, hfileHash.trans hhash₁, horigin.trans hminer₁⟩
    rw [heq, Function.update_self]
  · exact ⟨order₁, by rw [Function.update_of_ne heq, horder₁], hhash₁, hminer₁⟩

/-- An order may go if its file has no such fragment. -/
theorem drop {sender : T.AccountId} (hlookup : s.order fragmentHash = some order)
    (hgone : ∀ file, s.file order.fileHash = some file →
      file.fragments.find? (fun f => f.hash = fragmentHash ∧
        (f.miner = sender ∨ f.miner = order.originMiner)) = none) (hs' : s'.file = s.file)
    (horder : s'.order = update s.order fragmentHash none) : s'.Ordered := by
  intro hash file i x hfile hx havail
  rw [hs'] at hfile
  obtain ⟨hfirst, order₁, horder₁, hhash₁, hminer₁⟩ := h hash file i x hfile hx havail
  have hne : x.hash ≠ fragmentHash := by
    intro heq
    rw [heq, hlookup] at horder₁
    obtain rfl := Option.some.inj horder₁
    subst hhash₁
    have hno := List.find?_eq_none.mp (hgone file hfile) x (List.mem_of_getElem? hx)
    exact hno (decide_eq_true ⟨heq, .inr hminer₁.symm⟩)
  refine ⟨hfirst, order₁, ?_, hhash₁, hminer₁⟩
  rw [horder, Function.update_of_ne hne, horder₁]

/-- **The end of an order finds the fragment that it was made for.** -/
theorem restore {sender : T.AccountId} {fragment : FragmentInfo T} {now : ℕ}
    (hlookup : s.order fragmentHash = some order) (hfile : s.file order.fileHash = some file)
    (hfragment : file.fragments.find? (fun f => f.hash = fragmentHash ∧
      (f.miner = sender ∨ f.miner = order.originMiner)) = some fragment)
    (hsender : fragment.miner ≠ sender) (hs' : s'.file = update s.file order.fileHash
      (some (file.modifyFirst (fun f => f.hash = fragmentHash ∧
        (f.miner = sender ∨ f.miner = order.originMiner)) fun f =>
          { f with tag := some now, avail := true, miner := sender })))
    (horder : s'.order = update s.order fragmentHash none) : s'.Ordered := by
  have hfound := List.find?_some hfragment
  have hmatch : fragment.hash = fragmentHash ∧
      (fragment.miner = sender ∨ fragment.miner = order.originMiner) := of_decide_eq_true hfound
  have horigin : fragment.miner = order.originMiner := hmatch.2.resolve_left hsender
  obtain ⟨k, hk, hfirst, hmodified⟩ := FileInfo.getElem?_modifyFirst hfragment fun f =>
    { f with tag := some now, avail := true, miner := sender }
  -- every unavailable fragment but this one has another hash
  have hother : ∀ {hash file₁ i x}, s.file hash = some file₁ → file₁.fragments[i]? = some x →
      x.avail = false → (hash = order.fileHash → i ≠ k) →
      x.hash ≠ fragmentHash ∧ s'.Live hash file₁.fragments i x := by
    intro hash file₁ i x hfile₁ hx havail hpos
    obtain ⟨hfirst₁, order₁, horder₁, hhash₁, hminer₁⟩ := h hash file₁ i x hfile₁ hx havail
    have hne : x.hash ≠ fragmentHash := by
      intro heq
      rw [heq, hlookup] at horder₁
      obtain rfl := Option.some.inj horder₁
      subst hhash₁
      obtain rfl := Option.mem_unique hfile hfile₁
      rcases lt_trichotomy i k with hlt | rfl | hlt
      · exact of_decide_eq_false (hfirst i hlt x hx) ⟨heq, .inr hminer₁.symm⟩
      · exact hpos rfl rfl
      · exact hfirst₁ k hlt fragment hk ⟨hmatch.1.trans heq.symm, horigin.trans hminer₁⟩
    refine ⟨hne, hfirst₁, order₁, ?_, hhash₁, hminer₁⟩
    rw [horder, Function.update_of_ne hne]
    exact horder₁
  intro hash file₁ i x hlookup₁ hx havail
  rw [hs', Function.update_apply] at hlookup₁
  split_ifs at hlookup₁ with hhash
  · subst hhash
    obtain rfl := Option.some.inj hlookup₁
    rw [hmodified] at hx
    split_ifs at hx with hi
    · obtain rfl := Option.some.inj hx
      cases havail
    · obtain ⟨hne, hlive⟩ := hother hfile hx havail fun _ => hi
      refine ⟨?_, hlive.order⟩
      intro j hj z hz
      rw [hmodified] at hz
      split_ifs at hz with hj'
      · obtain rfl := Option.some.inj hz
        exact fun hsame => hne (hsame.1.symm.trans hmatch.1)
      · exact hlive.first j hj z hz
  · exact (hother hlookup₁ hx havail fun heq => absurd heq hhash).2

end Shelf.Ordered

/-! ## Runs -/

/-- A new file has all its fragments. -/
theorem DealInfo.Makes.available {deal : DealInfo T} {file : FileInfo T} (h : deal.Makes file) :
    ∀ x ∈ file.fragments, x.avail = true := by
  intro x hx
  obtain ⟨segment, hsegment, hx⟩ := List.mem_flatMap.mp hx
  obtain ⟨list, -, hlist⟩ := exists_of_mem_mapM h.segments hsegment
  obtain ⟨fragments, hfragments, hlist⟩ := Option.bind_eq_some_iff.mp hlist
  obtain ⟨fragmentList, hvec, hlist⟩ := Option.bind_eq_some_iff.mp hlist
  obtain rfl := Option.some.inj hlist
  rw [BoundedVec.tryFrom_eq_some.mp hvec] at hx
  obtain ⟨p, -, hp⟩ := exists_of_mem_mapM hfragments hx
  obtain ⟨info, -, hmade⟩ := Option.bind_eq_some_iff.mp hp
  obtain rfl := Option.some.inj hmade
  rfl

theorem Call.Changes.ordered {w : World T} {c : Call T} {s' : Shelf T} (h : c.Changes w s')
    (hw : w.shelf.Ordered) : s'.Ordered := by
  cases h with
  | aside => exact hw
  | fly hfile =>
    refine hw.keep hfile ?_ rfl rfl
    rfl
  | declare | deliver | expire | report => exact hw.of_same rfl rfl
  | complete hdeal hreport hmakes =>
    refine hw.put ?_ rfl rfl
    rintro file ⟨⟩
    exact hmakes.available
  | tag hfile =>
    refine hw.retag hfile (FileInfo.fragments_mapFragments _ _) (fun x => ?_) rfl rfl
    split_ifs <;> exact ⟨rfl, rfl, rfl⟩
  | @delete sender owner fileHash file hfile =>
    cases hwithout : file.without owner with
    | none =>
      exact hw.put (fun _ hnone => by cases hnone) rfl rfl
    | some file' =>
      refine hw.keep hfile ?_ rfl rfl
      unfold FileInfo.without at hwithout
      split_ifs at hwithout
      obtain rfl := Option.some.inj hwithout
      rfl
  | order hfile hnone hany hfileHash horigin =>
    exact hw.generate hfile hnone hany hfileHash horigin rfl rfl
  | noexist hfile hnone hany hfileHash horigin =>
    exact hw.generate hfile hnone hany hfileHash horigin rfl rfl
  | claim horder hfileHash horigin => exact hw.claim horder hfileHash horigin rfl rfl
  | drop horder hgone => exact hw.drop horder hgone rfl rfl
  | restore horder hfile hfragment hother => exact hw.restore horder hfile hfragment hother rfl rfl

theorem Shelf.Ordered.cleared {s s' : Shelf T} {acc : T.AccountId} {fileHash : Hash}
    (h : s.Ordered) (hs' : s.Cleared acc fileHash s') : s'.Ordered := by
  rcases hs'.file with hsame | ⟨file, hfile, ⟨-, hgone⟩ | ⟨-, htrim⟩⟩
  · exact h.of_same hsame hs'.order
  · exact h.put (fun _ hnone => by cases hnone) hgone hs'.order
  · refine h.keep hfile ?_ htrim hs'.order
    rfl

/-- The unavailable fragments have their orders in every reached state. -/
theorem Reached.ordered {n : Node T} (hn : Reached n) : n.world.shelf.Ordered := by
  refine Runs.Reach.inv (P := fun n => n.world.shelf.Ordered) ?_ ?_ hn
  · intro n hstart fileHash file i x hfile
    rw [hstart.shelf] at hfile
    cases hfile
  · intro n a n' _ hw _ hstep
    refine step_shelf (P := Shelf.Ordered) ?_ ?_ hstep ?_ hw
    · exact fun s s' _ hfile horder h => h.of_same hfile horder
    · exact fun acc fileHash s s' hcleared h => h.cleared hcleared
    · exact fun c _ _ hrun => (c.code_changes hrun).ordered hw

/-- **Unavailable fragments always have a live order.**  In every reached state an unavailable
fragment of a file has an order under its hash, for that file and with its miner as the original
one; and for a hash there is at most one unavailable fragment in all files. -/
theorem unavailable_has_order {n : Node T} (hn : Reached n) :
    (∀ fileHash file x, n.world.file.lookup fileHash = some file → x ∈ file.fragments →
      x.avail = false → ∃ order, n.world.restoralOrder.lookup x.hash = some order ∧
        order.fileHash = fileHash ∧ order.originMiner = x.miner) ∧
    ∀ fileHash₁ file₁ (i₁ : ℕ) x₁ fileHash₂ file₂ (i₂ : ℕ) x₂,
      n.world.file.lookup fileHash₁ = some file₁ → file₁.fragments[i₁]? = some x₁ →
      n.world.file.lookup fileHash₂ = some file₂ → file₂.fragments[i₂]? = some x₂ →
      x₁.avail = false → x₂.avail = false → x₁.hash = x₂.hash →
        fileHash₁ = fileHash₂ ∧ i₁ = i₂ := by
  have hordered := Reached.ordered hn
  constructor
  · intro fileHash file x hfile hx havail
    obtain ⟨i, hi⟩ := List.getElem?_of_mem hx
    exact (hordered fileHash file i x hfile hi havail).order
  · intro fileHash₁ file₁ i₁ x₁ fileHash₂ file₂ i₂ x₂ hfile₁ hx₁ hfile₂ hx₂ havail₁ havail₂ hhash
    obtain ⟨hfirst₁, order₁, horder₁, hname₁, hminer₁⟩ :=
      hordered fileHash₁ file₁ i₁ x₁ hfile₁ hx₁ havail₁
    obtain ⟨hfirst₂, order₂, horder₂, hname₂, hminer₂⟩ :=
      hordered fileHash₂ file₂ i₂ x₂ hfile₂ hx₂ havail₂
    rw [hhash, horder₂] at horder₁
    obtain rfl := Option.some.inj horder₁
    obtain rfl : fileHash₁ = fileHash₂ := hname₁.symm.trans hname₂
    obtain rfl := Option.mem_unique hfile₁ hfile₂
    have hminer : x₁.miner = x₂.miner := hminer₁.symm.trans hminer₂
    refine ⟨rfl, ?_⟩
    rcases lt_trichotomy i₁ i₂ with hlt | heq | hlt
    · exact absurd ⟨hhash, hminer⟩ (hfirst₂ i₁ hlt x₁ hx₁)
    · exact heq
    · exact absurd ⟨hhash.symm, hminer.symm⟩ (hfirst₁ i₂ hlt x₂ hx₂)

/-- The fragments of a file that are unavailable, with their miners. -/
def unavailable (w : World runtime) (fileHash : Hash) : List (Hash × ℕ) :=
  (w.file.lookup fileHash).elim [] fun file =>
    (file.fragments.filter fun f => f.avail = false).map fun f => (f.hash, f.miner)

/-- A miner gives up a fragment of a stored file: it is unavailable, and has its order. -/
theorem unavailable_has_order_given_up :
    ∃ n : Node runtime, Reached n ∧ unavailable n.world (hashOf [99]) = [(hashOf [98, 97], 21)] ∧
      ∀ fileHash file x, n.world.file.lookup fileHash = some file → x ∈ file.fragments →
        x.avail = false → ∃ order, n.world.restoralOrder.lookup x.hash = some order ∧
          order.fileHash = fileHash ∧ order.originMiner = x.miner := by
  obtain ⟨n, hn, hfragments⟩ := exists_of_play (fun _ _ => True)
    (storedFile ++ [.call (.generateRestoralOrder (21 : ℕ) (hashOf [99]) (hashOf [98, 97]))])
    (fun n => decide (unavailable n.world (hashOf [99]) = [(hashOf [98, 97], 21)]))
    (by decide +kernel)
  exact ⟨n, hn, of_decide_eq_true hfragments, (unavailable_has_order hn).1⟩

end FileBank
