/-
# What the accumulators read

A check of the verifier panics when it reads an entry that a list does not have, or computes modulo
zero.  This module has the rules for panics and, for the accumulators, which entries their checks
read and that they do not panic exactly if these are there.

A read is only made if the checks in front of it pass, so the conditions follow the order of the
checks.  For a loop this is `Loop.Reads`: a round finds what it reads, and if it passes, then so do
the rounds after it.
-/
import CessNode.PoisSpec

namespace Pois

variable {α β : Type}
variable {o : Option α} {acc : List UInt8} {elems accs : List (List UInt8)}

/-! ## Panics -/

/-- The check returns a value or an error. -/
def NoPanic {α : Type} (x : Except Error α) : Prop := x ≠ .error .panic

theorem noPanic_ok (a : α) : NoPanic (.ok a) := by
  intro h
  cases h

theorem noPanic_pure (a : α) : NoPanic (pure a) := noPanic_ok a

theorem noPanic_check (p : Prop) [Decidable p] (message : String) : NoPanic (check p message) := by
  unfold check
  split_ifs with h
  · exact noPanic_ok ()
  · intro h'
    cases h'

theorem ne_none_iff : o ≠ none ↔ ∃ a, o = some a := Option.ne_none_iff_exists'

theorem forall_some {p : α → Prop} {a : α} : (∀ b, some a = some b → p b) ↔ p a := by
  simp only [Option.some.injEq, forall_eq']

theorem noPanic_unwrap : NoPanic (unwrap o) ↔ ∃ a, o = some a := by
  cases o with
  | none =>
    constructor
    · intro h
      exact absurd rfl h
    · rintro ⟨a, ha⟩
      cases ha
  | some a => exact ⟨fun _ => ⟨a, rfl⟩, fun _ => noPanic_ok a⟩

theorem noPanic_bind {x : Except Error α} {f : α → Except Error β} :
    NoPanic (x >>= f) ↔ NoPanic x ∧ ∀ a, x = .ok a → NoPanic (f a) := by
  cases x with
  | ok a =>
    constructor
    · intro h
      refine ⟨noPanic_ok a, ?_⟩
      intro a' ha'
      obtain rfl := Except.ok.inj ha'
      exact h
    · rintro ⟨-, h⟩
      exact h a rfl
  | error e =>
    constructor
    · intro h
      refine ⟨?_, ?_⟩
      · intro he
        apply h
        obtain rfl := Except.error.inj he
        rfl
      · intro a ha
        cases ha
    · rintro ⟨h, -⟩ he
      apply h
      obtain rfl := Except.error.inj he
      rfl

/-- A read finds its entry, and what follows holds of the entry. -/
theorem unwrap_and_iff {p : α → Prop} :
    (NoPanic (unwrap o) ∧ ∀ a, unwrap o = .ok a → p a) ↔ ∃ a, o = some a ∧ p a := by
  rw [noPanic_unwrap]
  constructor
  · rintro ⟨⟨a, ha⟩, h⟩
    exact ⟨a, ha, h a (unwrap_eq_ok.mpr ha)⟩
  · rintro ⟨a, ha, h⟩
    refine ⟨⟨a, ha⟩, ?_⟩
    intro a' ha'
    obtain rfl := Option.mem_unique ha (unwrap_eq_ok.mp ha')
    exact h

/-- A check does not panic, and what follows holds after it. -/
theorem check_and_iff {p : Prop} [Decidable p] {message : String} {q : Unit → Prop} :
    (NoPanic (check p message) ∧ ∀ u, check p message = .ok u → q u) ↔ (p → q ()) := by
  constructor
  · rintro ⟨-, h⟩ hp
    exact h () (check_eq_ok.mpr hp)
  · intro h
    exact ⟨noPanic_check p message, fun u hu => h (check_eq_ok.mp hu)⟩

theorem noPanic_unwrap_bind {f : α → Except Error β} :
    NoPanic (unwrap o >>= f) ↔ ∃ a, o = some a ∧ NoPanic (f a) :=
  noPanic_bind.trans unwrap_and_iff

theorem noPanic_check_bind {p : Prop} [Decidable p] {message : String} {f : Unit → Except Error β} :
    NoPanic (check p message >>= f) ↔ (p → NoPanic (f ())) :=
  noPanic_bind.trans check_and_iff

/-- A condition, and what follows if it holds. -/
theorem noPanic_and_then {x y : Except Error Bool} :
    NoPanic (x >>= fun b => if b = true then y else pure false) ↔
      NoPanic x ∧ (x = .ok true → NoPanic y) := by
  rw [noPanic_bind]
  refine and_congr_right fun _ => ?_
  constructor
  · intro h hx
    exact h true hx
  · intro h b hb
    cases b with
    | false => exact noPanic_pure false
    | true => exact h hb

/-! ## Loops -/

namespace Loop

/-- Every round that is reached finds what it reads: `passes` says that the loop goes on after a
round, and `next` what the round leaves. -/
def Reads (reads passes : β → α → Prop) (next : β → α → β) : β → List α → Prop
  | _, [] => True
  | b, a :: l => reads b a ∧ (passes b a → Reads reads passes next (next b a) l)

/-- Every round passes. -/
def Passes (passes : β → α → Prop) (next : β → α → β) : β → List α → Prop
  | _, [] => True
  | b, a :: l => passes b a ∧ Passes passes next (next b a) l

/-- What a round does on the buffers with `Q`. -/
structure Round (f : β → α → Except Error β) (reads passes : β → α → Prop) (next : β → α → β)
    (Q : β → Prop) (a : α) : Prop where
  noPanic : ∀ b, Q b → (NoPanic (f b a) ↔ reads b a)
  ok : ∀ b b', Q b → (f b a = .ok b' ↔ passes b a ∧ b' = next b a)
  keeps : ∀ b, Q b → passes b a → Q (next b a)

variable {f : β → α → Except Error β} {reads passes : β → α → Prop} {next : β → α → β}
  {Q : β → Prop} {l : List α} {b : β}

variable (h : ∀ a ∈ l, Round f reads passes next Q a) (hb : Q b)
include h hb

/-- **A loop panics in a round that is reached.** -/
theorem noPanic_foldlM : NoPanic (l.foldlM f b) ↔ Reads reads passes next b l := by
  induction l generalizing b with
  | nil => exact ⟨fun _ => trivial, fun _ => noPanic_pure b⟩
  | cons a l ih =>
    have hround := h a List.mem_cons_self
    have hrest : passes b a → (NoPanic (l.foldlM f (next b a)) ↔
        Reads reads passes next (next b a) l) := fun hpasses =>
      ih (fun a' ha' => h a' (List.mem_cons_of_mem a ha')) (hround.keeps b hb hpasses)
    rw [List.foldlM_cons, noPanic_bind, hround.noPanic b hb]
    refine and_congr_right fun _ => ?_
    constructor
    · intro hnext hpasses
      exact (hrest hpasses).mp (hnext _ ((hround.ok b _ hb).mpr ⟨hpasses, rfl⟩))
    · intro hnext b' hb'
      obtain ⟨hpasses, rfl⟩ := (hround.ok b b' hb).mp hb'
      exact (hrest hpasses).mpr (hnext hpasses)

theorem foldlM_eq_ok {b' : β} :
    l.foldlM f b = .ok b' ↔ Passes passes next b l ∧ b' = l.foldl next b := by
  induction l generalizing b with
  | nil =>
    rw [List.foldlM_nil, pure_eq_ok]
    exact ⟨fun hb' => ⟨trivial, hb'.symm⟩, fun hb' => hb'.2.symm⟩
  | cons a l ih =>
    have hround := h a List.mem_cons_self
    have hrest := fun a' ha' => h a' (List.mem_cons_of_mem a ha')
    rw [List.foldlM_cons, Dispatch.bind_eq_ok]
    constructor
    · rintro ⟨b₁, hstep, hloop⟩
      obtain ⟨hpasses, rfl⟩ := (hround.ok b b₁ hb).mp hstep
      obtain ⟨hall, hlast⟩ := (ih hrest (hround.keeps b hb hpasses)).mp hloop
      exact ⟨⟨hpasses, hall⟩, hlast⟩
    · rintro ⟨⟨hpasses, hall⟩, hlast⟩
      exact ⟨next b a, (hround.ok b _ hb).mpr ⟨hpasses, rfl⟩,
        (ih hrest (hround.keeps b hb hpasses)).mpr ⟨hall, hlast⟩⟩

/-- The buffer after a loop of rounds that keep `Q`. -/
theorem keeps_foldl (hpasses : Passes passes next b l) : Q (l.foldl next b) := by
  induction l generalizing b with
  | nil => exact hb
  | cons a l ih =>
    exact ih (fun a' ha' => h a' (List.mem_cons_of_mem a ha'))
      ((h a List.mem_cons_self).keeps b hb hpasses.1) hpasses.2

/-- A loop that leaves nothing, and what follows it. -/
theorem noPanic_foldlM_bind {γ : Type} {x : Except Error γ} :
    NoPanic (l.foldlM f b >>= fun _ => x) ↔
      Reads reads passes next b l ∧ (Passes passes next b l → NoPanic x) := by
  rw [noPanic_bind, noPanic_foldlM h hb]
  refine and_congr_right fun _ => ?_
  constructor
  · intro hx hpasses
    exact hx _ ((foldlM_eq_ok h hb).mpr ⟨hpasses, rfl⟩)
  · intro hx b' hb'
    exact hx ((foldlM_eq_ok h hb).mp hb').1

omit h hb

/-- A loop as a round of an outer loop. -/
theorem round_foldlM {γ : Type} {g : γ → β → α → Except Error β} {reads passes : γ → β → α → Prop}
    {next : γ → β → α → β} {rounds : γ → List α} {c : γ}
    (h : ∀ a ∈ rounds c, Round (g c) (reads c) (passes c) (next c) Q a) :
    Round (fun b c => (rounds c).foldlM (g c) b)
      (fun b c => Reads (reads c) (passes c) (next c) b (rounds c))
      (fun b c => Passes (passes c) (next c) b (rounds c))
      (fun b c => (rounds c).foldl (next c) b) Q c where
  noPanic _ hb := noPanic_foldlM h hb
  ok _ _ hb := foldlM_eq_ok h hb
  keeps _ hb hpasses := keeps_foldl h hb hpasses

/-- Every element that is reached has what its round reads, where nothing depends on a buffer. -/
def Reached (reads passes : α → Prop) : List α → Prop :=
  Reads (fun _ => reads) (fun _ => passes) (fun _ _ => ()) ()

theorem reads_iff_reached {reads passes : α → Prop} :
    Reads (fun _ => reads) (fun _ => passes) next b l ↔ Reached reads passes l := by
  induction l generalizing b with
  | nil => exact Iff.rfl
  | cons a l ih => exact and_congr_right fun _ => imp_congr_right fun _ => ih

theorem passes_iff_forall {passes : α → Prop} :
    Passes (fun _ => passes) next b l ↔ ∀ a ∈ l, passes a := by
  induction l generalizing b with
  | nil => exact ⟨fun _ a ha => absurd ha List.not_mem_nil, fun _ => trivial⟩
  | cons a l ih => exact (and_congr_right fun _ => ih).trans List.forall_mem_cons.symm

/-- A loop of checks. -/
theorem noPanic_forM {g : α → Except Error Unit} {reads passes : α → Prop}
    (hreads : ∀ a ∈ l, (NoPanic (g a) ↔ reads a)) (hpasses : ∀ a ∈ l, (g a = .ok () ↔ passes a)) :
    NoPanic (l.forM g) ↔ Reached reads passes l := by
  induction l with
  | nil => exact ⟨fun _ => trivial, fun _ => noPanic_ok ()⟩
  | cons a l ih =>
    have hcons : (a :: l).forM g = (g a >>= fun _ => l.forM g) := rfl
    have hrest := ih (fun a' ha' => hreads a' (List.mem_cons_of_mem a ha'))
      (fun a' ha' => hpasses a' (List.mem_cons_of_mem a ha'))
    rw [hcons, noPanic_bind, hreads a List.mem_cons_self]
    show _ ↔ reads a ∧ (passes a → Reached reads passes l)
    rw [← hpasses a List.mem_cons_self]
    refine and_congr_right fun _ => ?_
    exact ⟨fun h ha => hrest.mp (h () ha), fun h _ ha => hrest.mpr (h ha)⟩

end Loop

open Loop

/-! ## Accumulators -/

variable {P : Params} {key : RsaKey}

theorem noPanic_modpow {base exponent modulus : ℕ} :
    NoPanic (modpow base exponent modulus) ↔ modulus ≠ 0 := by
  unfold modpow
  split_ifs with h
  · exact ⟨fun hne => absurd rfl hne, fun hne => absurd h hne⟩
  · exact ⟨fun _ => h, fun _ => noPanic_ok _⟩

/-- With a modulus an accumulator can be made. -/
theorem exists_generateAcc (hn : key.n ≠ 0) (acc : List UInt8) (elems : List (List UInt8)) :
    ∃ r, generateAcc P key acc elems = .ok r := by
  unfold generateAcc
  split_ifs with hacc
  · exact ⟨none, rfl⟩
  · obtain ⟨g, hg, -⟩ := exists_foldlM_ok (Q := fun _ : ℕ => True) (l := elems)
      (fun elem _ b _ => ⟨_, if_neg hn, trivial⟩) trivial
    refine ⟨some (toBytesBe g), ?_⟩
    rw [Dispatch.bind_eq_ok]
    exact ⟨g, hg, rfl⟩

theorem noPanic_of_exists {x : Except Error α} (h : ∃ a, x = .ok a) : NoPanic x := by
  obtain ⟨a, rfl⟩ := h
  exact noPanic_ok a

/-- An accumulator of some elements needs a modulus, unless there is nothing to start from. -/
theorem noPanic_generateAcc (helems : elems ≠ []) :
    NoPanic (generateAcc P key acc elems) ↔ (acc ≠ [] → key.n ≠ 0) := by
  constructor
  · intro h hacc hn
    obtain ⟨elem, rest, rfl⟩ := List.exists_cons_of_ne_nil helems
    apply h
    unfold generateAcc
    rw [if_neg (by rwa [List.isEmpty_iff]), List.foldlM_cons]
    have hzero : modpow (fromBytesBe acc) (P.hPrime (fromBytesBe elem)) key.n = .error .panic :=
      if_pos hn
    rw [hzero]
    rfl
  · intro h
    by_cases hacc : acc = []
    · unfold generateAcc
      rw [if_pos (List.isEmpty_iff.mpr hacc)]
      exact noPanic_ok none
    · exact noPanic_of_exists (exists_generateAcc (h hacc) acc elems)

/-- From an accumulator that was made the modulus is known. -/
theorem modulus_of_generateAcc {r : List UInt8} (helems : elems ≠ [])
    (h : generateAcc P key acc elems = .ok (some r)) : key.n ≠ 0 := by
  have hreads : NoPanic (generateAcc P key acc elems) := noPanic_of_exists ⟨_, h⟩
  rw [noPanic_generateAcc helems] at hreads
  apply hreads
  rintro rfl
  cases h

/-- A chain of more than one node needs a modulus. -/
def WitnessNode.ChainReads (key : RsaKey) (w : WitnessNode) : Prop := w.acc ≠ none → key.n ≠ 0

theorem noPanic_accVerify {u wit : List UInt8} :
    NoPanic (Acc.verifyAcc P key acc u wit) ↔ key.n ≠ 0 := by
  unfold Acc.verifyAcc
  rw [noPanic_bind, noPanic_modpow]
  exact ⟨fun h => h.1, fun h => ⟨h, fun r _ => noPanic_pure _⟩⟩

theorem noPanic_verifyMutilevelAcc {w : WitnessNode} :
    NoPanic (Acc.verifyMutilevelAcc P key acc w) ↔ w.ChainReads key := by
  induction w with
  | last => exact ⟨fun _ h => absurd rfl h, fun _ => noPanic_pure _⟩
  | link elem wit up ih =>
    unfold Acc.verifyMutilevelAcc
    rw [noPanic_bind, noPanic_accVerify]
    constructor
    · rintro ⟨hn, -⟩ -
      exact hn
    · intro h
      have hn : key.n ≠ 0 := h (by intro hnone; cases hnone)
      refine ⟨hn, fun b _ => ?_⟩
      cases b with
      | false => exact noPanic_pure false
      | true => exact ih.mpr fun _ => hn

/-- The last loops of `verify_insert_update` and `verify_delete_update`: the level above is made
from a witness and the level below. -/
def Acc.levels (sub : List UInt8 → List UInt8 → Except Error (Option (List UInt8)))
    (accs : List (List UInt8)) : WitnessNode → ℕ → Except Error Bool
  | .last _ _, _ => pure true
  | .link _ wit up, count => do
    let below ← unwrap accs[count - 1]?
    let subAcc ← sub wit below
    let next ← unwrap accs[count]?
    if subAcc = some next then levels sub accs up (count + 1) else pure false

/-- What the loop reads: the path has an entry for every level that is reached. -/
def Acc.LevelsRead (sub : List UInt8 → List UInt8 → Except Error (Option (List UInt8)))
    (accs : List (List UInt8)) : WitnessNode → ℕ → Prop
  | .last _ _, _ => True
  | .link _ wit up, count => ∃ below next, accs[count - 1]? = some below ∧
    accs[count]? = some next ∧ (sub wit below = .ok (some next) → LevelsRead sub accs up (count + 1))

/-- A level of an insertion. -/
def Acc.insertLevel (P : Params) (key : RsaKey) (wit below : List UInt8) :
    Except Error (Option (List UInt8)) := generateAcc P key wit [below]

/-- A level of a deletion. -/
def Acc.deleteLevel (P : Params) (key : RsaKey) (wit below : List UInt8) :
    Except Error (Option (List UInt8)) :=
  if below = toBytesBe key.g then generateAcc P key wit [below] else pure (some wit)

theorem insertLevels_eq (accs : List (List UInt8)) (w : WitnessNode) (count : ℕ) :
    Acc.insertLevels P key accs w count = Acc.levels (Acc.insertLevel P key) accs w count := by
  induction w generalizing count with
  | last => rfl
  | link elem wit up ih =>
    unfold Acc.insertLevels Acc.levels
    simp only [ih, Acc.insertLevel]

theorem deleteLevels_eq (accs : List (List UInt8)) (w : WitnessNode) (count : ℕ) :
    Acc.deleteLevels P key accs w count = Acc.levels (Acc.deleteLevel P key) accs w count := by
  induction w generalizing count with
  | last => rfl
  | link elem wit up ih =>
    unfold Acc.deleteLevels Acc.levels
    simp only [ih]
    congr 1
    funext below
    unfold Acc.deleteLevel
    split_ifs with hbelow
    · rfl
    · rfl

theorem noPanic_levels {sub : List UInt8 → List UInt8 → Except Error (Option (List UInt8))}
    (hsub : ∀ wit below, ∃ r, sub wit below = .ok r) {w : WitnessNode} {count : ℕ} :
    NoPanic (Acc.levels sub accs w count) ↔ Acc.LevelsRead sub accs w count := by
  induction w generalizing count with
  | last => exact ⟨fun _ => trivial, fun _ => noPanic_pure true⟩
  | link elem wit up ih =>
    unfold Acc.levels Acc.LevelsRead
    rw [noPanic_unwrap_bind]
    refine exists_congr fun below => ?_
    obtain ⟨r, hr⟩ := hsub wit below
    have hbind : ∀ g : Option (List UInt8) → Except Error Bool, (sub wit below >>= g) = g r := by
      intro g
      rw [hr]
      rfl
    rw [hbind, noPanic_unwrap_bind, hr, ← exists_and_left]
    refine exists_congr fun next => ?_
    refine and_congr_right fun _ => and_congr_right fun _ => ?_
    split_ifs with hnext
    · rw [ih]
      exact ⟨fun h _ => h, fun h => h (by rw [hnext])⟩
    · exact ⟨fun _ h => absurd (Except.ok.inj h) hnext, fun _ => noPanic_pure false⟩

/-- What `verify_insert_update` reads. -/
def Acc.InsertReads (P : Params) (key : RsaKey) (exist : WitnessNode)
    (elems accs : List (List UInt8)) (acc : List UInt8) : Prop :=
  elems ≠ [] → Acc.defaultLevel ≤ accs.length →
    (Acc.skipNew exist).ChainReads key ∧
    (Acc.verifyMutilevelAcc P key acc (Acc.skipNew exist) = .ok true →
      (exist.elem ≠ [] → key.n ≠ 0) ∧
      (generateAcc P key exist.elem elems = .ok accs[0]? →
        Acc.LevelsRead (Acc.insertLevel P key) accs exist 1))

/-- What `verify_delete_update` reads. -/
def Acc.DeleteReads (P : Params) (key : RsaKey) (exist : WitnessNode)
    (elems accs : List (List UInt8)) (acc : List UInt8) : Prop :=
  elems ≠ [] → Acc.defaultLevel ≤ accs.length →
    exist.ChainReads key ∧
    (Acc.verifyMutilevelAcc P key acc exist = .ok true → ∀ first, accs[0]? = some first →
      (first ≠ [] → key.n ≠ 0) ∧
      (generateAcc P key first elems ≠ .ok (some exist.elem) →
        Acc.LevelsRead (Acc.deleteLevel P key) accs exist 1))

theorem exists_insertLevel (hn : key.n ≠ 0) (wit below : List UInt8) :
    ∃ r, Acc.insertLevel P key wit below = .ok r := exists_generateAcc hn wit [below]

theorem exists_deleteLevel (hn : key.n ≠ 0) (wit below : List UInt8) :
    ∃ r, Acc.deleteLevel P key wit below = .ok r := by
  unfold Acc.deleteLevel
  split_ifs with h
  · exact exists_generateAcc hn wit [below]
  · exact ⟨some wit, rfl⟩

/-- The last node of a chain reads nothing. -/
theorem levelsRead_or (sub : List UInt8 → List UInt8 → Except Error (Option (List UInt8)))
    (accs : List (List UInt8)) (w : WitnessNode) :
    w.acc ≠ none ∨ (Acc.LevelsRead sub accs w 1 ∧ NoPanic (Acc.levels sub accs w 1)) := by
  cases w with
  | last => exact .inr ⟨trivial, noPanic_pure true⟩
  | link => exact .inl (by intro h; cases h)

/-- Both updates refuse an empty list of elements and a short path, and else read the first entry. -/
theorem noPanic_update {x : Except Error Bool} {R : Prop}
    (h : elems ≠ [] → ∀ first, accs[0]? = some first → (NoPanic x ↔ R)) :
    NoPanic (if elems.isEmpty ∨ accs.length < Acc.defaultLevel then pure false else x) ↔
      (elems ≠ [] → Acc.defaultLevel ≤ accs.length → R) := by
  by_cases hskip : elems.isEmpty ∨ accs.length < Acc.defaultLevel
  · rw [if_pos hskip]
    refine ⟨fun _ helems hlength => ?_, fun _ => noPanic_pure false⟩
    rcases hskip with hempty | hshort
    · exact absurd (List.isEmpty_iff.mp hempty) helems
    · omega
  · rw [if_neg hskip]
    rw [not_or, List.isEmpty_iff, not_lt] at hskip
    obtain ⟨helems, hlength⟩ := hskip
    rw [h helems _ (List.getElem?_eq_getElem (by unfold Acc.defaultLevel at hlength; omega))]
    exact ⟨fun hR _ _ => hR, fun hR => hR helems hlength⟩

theorem noPanic_verifyInsertUpdate {exist : WitnessNode} :
    NoPanic (Acc.verifyInsertUpdate P key (some exist) elems accs acc) ↔
      Acc.InsertReads P key exist elems accs acc := by
  refine noPanic_update fun helems first hfirst => ?_
  rw [noPanic_and_then, noPanic_verifyMutilevelAcc, hfirst]
  have hstep : NoPanic (do
      let subAcc ← generateAcc P key exist.elem elems
      let first ← unwrap (some first)
      if subAcc = some first then Acc.insertLevels P key accs exist 1 else pure false) ↔
      (exist.elem ≠ [] → key.n ≠ 0) ∧
      (generateAcc P key exist.elem elems = .ok (some first) →
        Acc.LevelsRead (Acc.insertLevel P key) accs exist 1) := by
    rw [noPanic_bind, noPanic_generateAcc helems]
    refine and_congr_right fun _ => ?_
    constructor
    · intro h hmade
      have hlevels : NoPanic (if some first = some first then
          Acc.insertLevels P key accs exist 1 else pure false) := h _ hmade
      rw [if_pos rfl, insertLevels_eq] at hlevels
      exact (noPanic_levels (exists_insertLevel (modulus_of_generateAcc helems hmade))).mp hlevels
    · intro h r hr
      show NoPanic (if r = some first then Acc.insertLevels P key accs exist 1 else pure false)
      split_ifs with hequal
      · rw [hequal] at hr
        rw [insertLevels_eq]
        exact (noPanic_levels (exists_insertLevel (modulus_of_generateAcc helems hr))).mpr (h hr)
      · exact noPanic_pure false
  rw [hstep]

theorem noPanic_verifyDeleteUpdate {exist : WitnessNode} :
    NoPanic (Acc.verifyDeleteUpdate P key exist elems accs acc) ↔
      Acc.DeleteReads P key exist elems accs acc := by
  refine noPanic_update fun helems first hfirst => ?_
  rw [noPanic_and_then, noPanic_verifyMutilevelAcc, hfirst]
  have hstep : exist.ChainReads key → (NoPanic (do
      let first ← unwrap (some first)
      let subAcc ← generateAcc P key first elems
      if subAcc = some exist.elem then pure false else Acc.deleteLevels P key accs exist 1) ↔
      (first ≠ [] → key.n ≠ 0) ∧
      (generateAcc P key first elems ≠ .ok (some exist.elem) →
        Acc.LevelsRead (Acc.deleteLevel P key) accs exist 1)) := by
    intro hchain
    have hlevels : NoPanic (Acc.deleteLevels P key accs exist 1) ↔
        Acc.LevelsRead (Acc.deleteLevel P key) accs exist 1 := by
      rw [deleteLevels_eq]
      rcases levelsRead_or (Acc.deleteLevel P key) accs exist with hlink | ⟨hread, hnone⟩
      · exact noPanic_levels (exists_deleteLevel (hchain hlink))
      · exact ⟨fun _ => hread, fun _ => hnone⟩
    show NoPanic (generateAcc P key first elems >>= fun subAcc =>
      if subAcc = some exist.elem then pure false else Acc.deleteLevels P key accs exist 1) ↔ _
    rw [noPanic_bind, noPanic_generateAcc helems]
    refine and_congr_right fun hmodulus => ?_
    obtain ⟨r, hr⟩ : ∃ r, generateAcc P key first elems = .ok r := by
      by_cases hempty : first = []
      · exact ⟨none, if_pos (List.isEmpty_iff.mpr hempty)⟩
      · exact exists_generateAcc (hmodulus hempty) first elems
    constructor
    · intro h hother
      have hlast := h r hr
      rw [if_neg (by rintro rfl; exact hother hr)] at hlast
      exact hlevels.mp hlast
    · intro h r' hr'
      split_ifs with hequal
      · exact noPanic_pure false
      · refine hlevels.mpr (h ?_)
        rw [hr']
        intro hsame
        exact hequal (Except.ok.inj hsame)
  refine and_congr_right fun hchain => imp_congr_right fun _ => ?_
  rw [hstep hchain]
  constructor
  · rintro h first' hfirst'
    obtain rfl := Option.some.inj hfirst'
    exact h
  · intro h
    exact h first rfl

/-- What the loop of `verify_mutilevel_acc_for_batch` reads from the witness at position `i` on. -/
def Acc.BatchReads (P : Params) (key : RsaKey) (baseIdx : Int64) (acc : List UInt8) (draw : ℕ → ℕ)
    (len : ℕ) : ℕ → Option (List UInt8) → List WitnessNode → Prop
  | _, _, [] => True
  | i, subAcc, witness :: rest =>
    (subAcc ≠ none → witness.acc ≠ none) ∧
    ((subAcc ≠ none → witness.acc.map WitnessNode.elem = subAcc) →
      if (Int64.ofNat i + baseIdx) % defaultElemsNum = 0 ∨ i = len - 1 then
        witness.ChainReads key ∧ (verifyMutilevelAcc P key acc witness = .ok true →
          BatchReads P key baseIdx acc draw len (i + 1) none rest)
      else
        ∃ up, witness.acc = some up ∧ (draw i < 25 → key.n ≠ 0) ∧
          ((draw i < 25 → verifyAcc P key up.elem witness.elem witness.wit = .ok true) →
            BatchReads P key baseIdx acc draw len (i + 1) (some up.elem) rest))

section Batch

variable {baseIdx : Int64} {acc : List UInt8} {draw : ℕ → ℕ} {len i : ℕ} {witness : WitnessNode}
  {rest : List WitnessNode}

/-- A round of the batch check after the comparison with the accumulator of the witness before. -/
def Acc.batchRound (P : Params) (key : RsaKey) (baseIdx : Int64) (acc : List UInt8) (draw : ℕ → ℕ)
    (len i : ℕ) (witness : WitnessNode) (rest : List WitnessNode) : Except Error Bool :=
  if (Int64.ofNat i + baseIdx) % defaultElemsNum = 0 ∨ i = len - 1 then
    verifyMutilevelAcc P key acc witness >>= fun b =>
      if b = true then batchFrom P key baseIdx acc draw len (i + 1) none rest else pure false
  else
    unwrap witness.acc >>= fun up =>
      (if draw i < 25 then verifyAcc P key up.elem witness.elem witness.wit else pure true) >>=
        fun b =>
          if b = true then batchFrom P key baseIdx acc draw len (i + 1) (some up.elem) rest
          else pure false

/-- A round with the branches of the source taken together. -/
theorem batchRound_eq :
    Acc.batchFrom P key baseIdx acc draw len i none (witness :: rest) =
      Acc.batchRound P key baseIdx acc draw len i witness rest := by
  unfold Acc.batchFrom Acc.batchRound
  split_ifs with hlast hdraw
  · rfl
  · cases hacc : witness.acc with
    | none => rfl
    | some up =>
      show (Acc.verifyAcc P key up.elem witness.elem witness.wit >>= fun b => _) =
        (Acc.verifyAcc P key up.elem witness.elem witness.wit >>= fun b => _)
      congr 1
      funext b
      cases b with
      | false => rfl
      | true => rfl
  · cases hacc : witness.acc with
    | none => rfl
    | some up => rfl

theorem batchFrom_some {sa : List UInt8} :
    Acc.batchFrom P key baseIdx acc draw len i (some sa) (witness :: rest) =
      unwrap witness.acc >>= fun up => if up.elem = sa then
        Acc.batchFrom P key baseIdx acc draw len i none (witness :: rest) else pure false := by
  cases hacc : witness.acc with
  | none =>
    unfold Acc.batchFrom
    rw [hacc]
    rfl
  | some up =>
    show _ = if up.elem = sa then _ else _
    by_cases hsame : up.elem = sa
    · have htrue : decide (up.elem = sa) = true := decide_eq_true hsame
      rw [if_pos hsame]
      unfold Acc.batchFrom
      rw [hacc]
      show (if decide (up.elem = sa) = false then _ else _) = _
      rw [htrue]
      rfl
    · rw [if_neg hsame]
      unfold Acc.batchFrom
      rw [hacc]
      exact if_pos (decide_eq_false hsame)

theorem noPanic_batchRound
    (ih : ∀ i subAcc, NoPanic (Acc.batchFrom P key baseIdx acc draw len i subAcc rest) ↔
      Acc.BatchReads P key baseIdx acc draw len i subAcc rest) :
    NoPanic (Acc.batchFrom P key baseIdx acc draw len i none (witness :: rest)) ↔
      Acc.BatchReads P key baseIdx acc draw len i none (witness :: rest) := by
  have hfirst : ∀ p : Prop, p ↔ ((none : Option (List UInt8)) ≠ none → witness.acc ≠ none) ∧
      (((none : Option (List UInt8)) ≠ none → witness.acc.map WitnessNode.elem = none) → p) :=
    fun p => ⟨fun hp => ⟨fun hne => absurd rfl hne, fun _ => hp⟩,
      fun hp => hp.2 fun hne => absurd rfl hne⟩
  rw [batchRound_eq]
  unfold Acc.BatchReads Acc.batchRound
  refine Iff.trans ?_ (hfirst _)
  split_ifs with hlast hdraw
  · rw [noPanic_and_then, noPanic_verifyMutilevelAcc, ih]
  · rw [noPanic_unwrap_bind]
    refine exists_congr fun up => and_congr_right fun hup => ?_
    rw [noPanic_and_then, noPanic_accVerify, ih]
    exact ⟨fun h => ⟨fun _ => h.1, fun hv => h.2 (hv hdraw)⟩,
      fun h => ⟨h.1 hdraw, fun hv => h.2 fun _ => hv⟩⟩
  · rw [noPanic_unwrap_bind]
    refine exists_congr fun up => and_congr_right fun hup => ?_
    rw [noPanic_and_then, ih]
    exact ⟨fun h => ⟨fun hlt => absurd hlt hdraw, fun _ => h.2 rfl⟩,
      fun h => ⟨noPanic_pure true, fun _ => h.2 fun hlt => absurd hlt hdraw⟩⟩

theorem noPanic_batchFrom {subAcc : Option (List UInt8)} {wits : List WitnessNode} :
    NoPanic (Acc.batchFrom P key baseIdx acc draw len i subAcc wits) ↔
      Acc.BatchReads P key baseIdx acc draw len i subAcc wits := by
  induction wits generalizing i subAcc with
  | nil => exact ⟨fun _ => trivial, fun _ => noPanic_pure true⟩
  | cons witness rest ih =>
    have hround : NoPanic (Acc.batchFrom P key baseIdx acc draw len i none (witness :: rest)) ↔
        Acc.BatchReads P key baseIdx acc draw len i none (witness :: rest) :=
      noPanic_batchRound fun i subAcc => ih
    cases subAcc with
    | none => exact hround
    | some sa =>
      rw [batchFrom_some, noPanic_unwrap_bind]
      cases hacc : witness.acc with
      | none =>
        constructor
        · rintro ⟨up, hup, -⟩
          cases hup
        · intro h
          exact absurd hacc (h.1 (Option.some_ne_none sa))
      | some up =>
        have helem : witness.acc.map WitnessNode.elem = some up.elem := by rw [hacc]; rfl
        constructor
        · rintro ⟨up', hup', h⟩
          obtain rfl := Option.some.inj hup'
          refine ⟨fun _ hnone => absurd (hacc.symm.trans hnone) (Option.some_ne_none up), ?_⟩
          intro hagrees
          rw [helem] at hagrees
          rw [if_pos (Option.some.inj (hagrees (Option.some_ne_none sa)))] at h
          exact (hround.mp h).2 fun hne => absurd rfl hne
        · intro h
          refine ⟨up, rfl, ?_⟩
          split_ifs with hsame
          · refine hround.mpr ⟨fun hne => absurd rfl hne, fun _ => h.2 fun _ => ?_⟩
            rw [helem, hsame]
          · exact noPanic_pure false

end Batch

end Pois
