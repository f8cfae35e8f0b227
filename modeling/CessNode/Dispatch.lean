/-
# Storage transactions with errors

A call into a module of a replicated state machine reads and writes storage and may
stop with an error.  The effect is Lean's `EStateM ε σ`: an error carries the storage
reached so far, so a call that stops half way leaves its partial writes behind.
`transactional` is the storage layer that rolls them back; `attempt` is the discarded
result of a call made by a block hook, where nothing is rolled back.

The file has these parts:

* checked arithmetic on naturals of a given bit width (`checkedAdd`, ...);
* the primitives (`ensure`, `okOr`, `tryMutate`, `zoom`, ...), each with one lemma that
  says when it succeeds and with which storage (`run_bind_ok`, `run_ensure_ok`, ...);
* `Keeps R x` : the call `x` relates the storage before it to the storage after it by
  the preorder `R`, whether it succeeds or not, with one rule per primitive;
* `run_error` : how a call fails, with which error and which storage.
-/
import Mathlib

namespace Dispatch

/-! ## Checked arithmetic -/

/-- `a + b` unless it needs more than `w` bits. -/
def checkedAdd (w a b : ℕ) : Option ℕ := if a + b < 2 ^ w then some (a + b) else none

/-- `a - b` unless it is negative. -/
def checkedSub (a b : ℕ) : Option ℕ := if b ≤ a then some (a - b) else none

/-- `a * b` unless it needs more than `w` bits. -/
def checkedMul (w a b : ℕ) : Option ℕ := if a * b < 2 ^ w then some (a * b) else none

/-- `a / b` unless `b` is zero. -/
def checkedDiv (a b : ℕ) : Option ℕ := if b = 0 then none else some (a / b)

theorem checkedAdd_eq_some {w a b c : ℕ} :
    checkedAdd w a b = some c ↔ a + b < 2 ^ w ∧ a + b = c := by
  unfold checkedAdd
  split_ifs with h <;> simp [h]

theorem checkedAdd_eq_none {w a b : ℕ} : checkedAdd w a b = none ↔ ¬ a + b < 2 ^ w := by
  unfold checkedAdd
  split_ifs with h <;> simp [h]

theorem checkedSub_eq_some {a b c : ℕ} : checkedSub a b = some c ↔ b ≤ a ∧ a - b = c := by
  unfold checkedSub
  split_ifs with h <;> simp [h]

theorem checkedSub_eq_none {a b : ℕ} : checkedSub a b = none ↔ ¬ b ≤ a := by
  unfold checkedSub
  split_ifs with h <;> simp [h]

theorem checkedMul_eq_some {w a b c : ℕ} :
    checkedMul w a b = some c ↔ a * b < 2 ^ w ∧ a * b = c := by
  unfold checkedMul
  split_ifs with h <;> simp [h]

theorem checkedDiv_eq_some {a b c : ℕ} : checkedDiv a b = some c ↔ b ≠ 0 ∧ a / b = c := by
  unfold checkedDiv
  split_ifs with h <;> simp [h]

/-! ## Primitives -/

variable {ε ε' σ τ α β ν : Type}
variable {e : ε} {x y : EStateM ε σ α} {f : α → EStateM ε σ β} {p : Prop} {read : σ → Option ν}
  {write : ν → σ → σ} {view : τ → σ} {put : σ → τ → τ} {err : ε → ε'} {l : List α} {l' : List β}

/-- Stop with `e` unless `p` holds. -/
def ensure (p : Prop) [Decidable p] (e : ε) : EStateM ε σ Unit :=
  if p then pure () else throw e

/-- The value of an option, or the error `e`. -/
def okOr (o : Option α) (e : ε) : EStateM ε σ α :=
  match o with
  | some a => pure a
  | none => throw e

/-- Run `x` in a storage layer of its own: an error undoes its writes. -/
def transactional (x : EStateM ε σ α) : EStateM ε σ α := fun s =>
  match x.run s with
  | .ok a s' => .ok a s'
  | .error e _ => .error e s

/-- Run `x` and drop its result, error or not; its writes stay. -/
def attempt (x : EStateM ε σ α) : EStateM ε σ Unit := fun s =>
  match x.run s with
  | .ok _ s' => .ok () s'
  | .error _ s' => .ok () s'

/-- Change one entry: read it (or stop with `e`), run `f` on it, and write the new
value only if `f` succeeds.  Other writes made by a failing `f` stay. -/
def tryMutate (read : σ → Option ν) (write : ν → σ → σ) (e : ε)
    (f : ν → EStateM ε σ (α × ν)) : EStateM ε σ α := do
  let v ← okOr (read (← get)) e
  let (a, v') ← f v
  modify (write v')
  pure a

/-- Run a call of a component inside the storage that contains it. -/
def zoom (view : τ → σ) (put : σ → τ → τ) (err : ε → ε') (x : EStateM ε σ α) :
    EStateM ε' τ α := fun t =>
  match x.run (view t) with
  | .ok a s => .ok a (put s t)
  | .error e s => .error (err e) (put s t)

/-- The storage a call leaves behind, whether it succeeds or not. -/
def after (x : EStateM ε σ α) (s : σ) : σ :=
  match x.run s with
  | .ok _ s' => s'
  | .error _ s' => s'

/-- The storage after a call that succeeds. -/
def succeeds (x : EStateM ε σ α) (s : σ) : Option σ :=
  match x.run s with
  | .ok _ s' => some s'
  | .error _ _ => none

theorem exists_of_succeeds {x : EStateM ε σ α} {s : σ} {check : σ → Bool}
    (h : (succeeds x s).any check = true) : ∃ a s', x.run s = .ok a s' ∧ check s' = true := by
  unfold succeeds at h
  split at h
  · exact ⟨_, _, ‹_›, h⟩
  · cases h

/-! ## When a primitive succeeds -/

variable {s s' : σ} {a : α} {b : β} {e : ε}

theorem run_pure_ok {a' : α} : (pure a' : EStateM ε σ α).run s = .ok a s' ↔ a' = a ∧ s = s' := by
  rw [EStateM.run_pure, EStateM.Result.ok.injEq]

theorem run_get_ok {s₀ : σ} : (get : EStateM ε σ σ).run s = .ok s₀ s' ↔ s = s₀ ∧ s = s' := by
  rw [EStateM.run_get, EStateM.Result.ok.injEq]

theorem run_modify_ok {f : σ → σ} {u : PUnit} :
    (modify f : EStateM ε σ PUnit).run s = .ok u s' ↔ f s = s' := by
  simp

theorem run_throw_ok :
    (throw e : EStateM ε σ α).run s = .ok a s' ↔ False :=
  iff_false_intro fun h => by cases h

theorem run_bind_ok :
    (x >>= f).run s = .ok b s' ↔ ∃ a s₁, x.run s = .ok a s₁ ∧ (f a).run s₁ = .ok b s' := by
  rw [EStateM.run_bind]
  cases h : x.run s with
  | ok a s₁ => simp
  | error e s₁ => simp

/-- The same for a computation without storage. -/
theorem bind_eq_ok {x : Except ε α} {f : α → Except ε β} {b : β} :
    (x >>= f) = .ok b ↔ ∃ a, x = .ok a ∧ f a = .ok b := by
  cases x with
  | ok a =>
    constructor
    · intro h
      exact ⟨a, rfl, h⟩
    · rintro ⟨a', ha, h⟩
      obtain rfl := Except.ok.inj ha
      exact h
  | error e =>
    constructor
    · intro h
      cases h
    · rintro ⟨a', ha, -⟩
      cases ha

/-- A function that returns the value of an option, or an error. -/
theorem eq_ok_iff_eq_some {f : Option α → Except ε α} (hsome : ∀ a, f (some a) = .ok a)
    (hnone : ∀ a, f none ≠ .ok a) {o : Option α} : f o = .ok a ↔ o = some a := by
  cases o with
  | none => exact ⟨fun h => absurd h (hnone a), nofun⟩
  | some b => rw [hsome, Except.ok.injEq, Option.some.injEq]

theorem run_ensure_ok [Decidable p] {u : Unit} :
    (ensure p e : EStateM ε σ Unit).run s = .ok u s' ↔ p ∧ s = s' := by
  unfold ensure
  split_ifs with h
  · simp [h]
  · simp [h]

theorem run_okOr_ok {o : Option α} :
    (okOr o e : EStateM ε σ α).run s = .ok a s' ↔ o = some a ∧ s = s' := by
  cases o with
  | none => simp [okOr, run_throw_ok]
  | some a' => simp [okOr]

/-- **The simp set of runs**: a successful run of a block as one chain of what its lines read, check
and write. -/
theorem run_ok :
    (∀ {ε σ α β : Type} {x : EStateM ε σ α} {f : α → EStateM ε σ β} {s s' : σ} {b : β},
      (x >>= f).run s = .ok b s' ↔ ∃ a s₁, x.run s = .ok a s₁ ∧ (f a).run s₁ = .ok b s') ∧
    (∀ {ε σ : Type} {s s' s₀ : σ}, (get : EStateM ε σ σ).run s = .ok s₀ s' ↔ s = s₀ ∧ s = s') ∧
    (∀ {ε σ : Type} {s s' : σ} {f : σ → σ} {u : PUnit},
      (modify f : EStateM ε σ PUnit).run s = .ok u s' ↔ f s = s') ∧
    (∀ {ε σ α : Type} {a a' : α} {s s' : σ},
      (pure a' : EStateM ε σ α).run s = .ok a s' ↔ a' = a ∧ s = s') ∧
    (∀ {ε σ : Type} {p : Prop} [Decidable p] {e : ε} {s s' : σ} {u : Unit},
      (ensure p e : EStateM ε σ Unit).run s = .ok u s' ↔ p ∧ s = s') ∧
    (∀ {ε σ α : Type} {o : Option α} {a : α} {e : ε} {s s' : σ},
      (okOr o e : EStateM ε σ α).run s = .ok a s' ↔ o = some a ∧ s = s') ∧
    (∀ {a b c : Prop}, (a ∧ b) ∧ c ↔ a ∧ b ∧ c) ∧
    (∀ {α : Type} {p : α → Prop} {b : Prop}, (∃ x, b ∧ p x) ↔ b ∧ ∃ x, p x) ∧
    (∀ p : Prop, (True ∧ p) = p) ∧
    ∀ {b : Prop} (α : Type) [Nonempty α], (∃ _ : α, b) ↔ b :=
  ⟨run_bind_ok, run_get_ok, run_modify_ok, run_pure_ok, run_ensure_ok, run_okOr_ok, and_assoc,
    exists_and_left, true_and, fun α => exists_const α⟩

theorem run_ite_ok [Decidable p] :
    (if p then x else y).run s = .ok a s' ↔
      (p ∧ x.run s = .ok a s') ∨ (¬ p ∧ y.run s = .ok a s') := by
  split_ifs with h <;> simp [h]

theorem run_transactional_ok : (transactional x).run s = .ok a s' ↔ x.run s = .ok a s' := by
  show transactional x s = _ ↔ _
  unfold transactional
  cases h : x.run s with
  | ok a s₁ => simp
  | error e s₁ => simp

theorem run_tryMutate_ok {f : ν → EStateM ε σ (α × ν)} :
    (tryMutate read write e f).run s = .ok a s' ↔
      ∃ v v' s₁, read s = some v ∧ (f v).run s = .ok (a, v') s₁ ∧ write v' s₁ = s' := by
  unfold tryMutate
  simp only [run_bind_ok, run_get_ok, run_okOr_ok, run_modify_ok, run_pure_ok]
  constructor
  · rintro ⟨_, _, ⟨rfl, rfl⟩, v, _, ⟨hv, rfl⟩, ⟨a', v'⟩, s₁, hf, _, _, rfl, rfl, rfl⟩
    exact ⟨v, v', s₁, hv, hf, rfl⟩
  · rintro ⟨v, v', s₁, hv, hf, rfl⟩
    exact ⟨s, s, ⟨rfl, rfl⟩, v, s, ⟨hv, rfl⟩, (a, v'), s₁, hf, ⟨⟩, _, rfl, rfl, rfl⟩

theorem run_tryMutate_unit_ok {f : ν → EStateM ε σ ν} {u : Unit} :
    (tryMutate read write e fun v => do pure ((), ← f v)).run s = .ok u s' ↔
      ∃ v v' s₁, read s = some v ∧ (f v).run s = .ok v' s₁ ∧ write v' s₁ = s' := by
  simp only [run_tryMutate_ok, run_bind_ok, run_pure_ok, Prod.mk.injEq, true_and]
  constructor
  · rintro ⟨v, _, _, hv, ⟨v', s₁, hf, rfl, rfl⟩, hs'⟩
    exact ⟨v, v', s₁, hv, hf, hs'⟩
  · rintro ⟨v, v', s₁, hv, hf, hs'⟩
    exact ⟨v, v', s₁, hv, ⟨v', s₁, hf, rfl, rfl⟩, hs'⟩

theorem run_zoom_ok {t t' : τ} :
    (zoom view put err x).run t = .ok a t' ↔
      ∃ s', x.run (view t) = .ok a s' ∧ put s' t = t' := by
  show zoom view put err x t = _ ↔ _
  unfold zoom
  cases h : x.run (view t) with
  | ok a s₁ => simp [and_comm]
  | error e s₁ => simp

/-! ## The storage left behind -/

theorem after_of_ok (h : x.run s = .ok a s') : after x s = s' := by
  unfold after
  rw [h]

/-- A transactional call either commits a successful run or leaves the storage alone. -/
theorem after_transactional (x : EStateM ε σ α) (s : σ) :
    (∃ a s', x.run s = .ok a s' ∧ after (transactional x) s = s') ∨
      after (transactional x) s = s := by
  cases h : x.run s with
  | ok a s' =>
    left
    exact ⟨a, s', rfl, after_of_ok (run_transactional_ok.mpr h)⟩
  | error e s' =>
    right
    have hrun : (transactional x).run s = .error e s := by
      show transactional x s = _
      unfold transactional
      rw [h]
    unfold after
    rw [hrun]

/-- What holds before a dispatched call and after its code holds after the call. -/
theorem after_transactional_inv {P : σ → Prop} (hs : P s)
    (hrun : ∀ a s', x.run s = .ok a s' → P s') : P (after (transactional x) s) := by
  rcases after_transactional x s with ⟨a, s', h, hafter⟩ | hafter
  · rw [hafter]
    exact hrun a s' h
  · rwa [hafter]

/-- After a dispatched call without a result there is its last storage, or the first one. -/
theorem after_dispatched (x : EStateM ε σ Unit) (s : σ) :
    x.run s = .ok () (after (transactional x) s) ∨ after (transactional x) s = s :=
  after_transactional_inv (P := fun s' => x.run s = .ok () s' ∨ s' = s) (.inr rfl) fun _ _ => .inl

theorem run_attempt (x : EStateM ε σ α) (s : σ) : (attempt x).run s = .ok () (after x s) := by
  show attempt x s = _
  unfold attempt after
  cases x.run s <;> rfl

theorem after_bind (x : EStateM ε σ α) (f : α → EStateM ε σ β) (s : σ) :
    after (x >>= f) s =
      match x.run s with
      | .ok a s₁ => after (f a) s₁
      | .error _ s₁ => s₁ := by
  unfold after
  rw [EStateM.run_bind]
  cases x.run s <;> rfl

theorem after_attempt (x : EStateM ε σ α) (s : σ) : after (attempt x) s = after x s :=
  after_of_ok (run_attempt x s)

theorem after_get_bind (f : σ → EStateM ε σ α) (s : σ) : after (get >>= f) s = after (f s) s :=
  rfl

theorem after_okOr_none_bind (e : ε) (f : α → EStateM ε σ β) (s : σ) :
    after (okOr none e >>= f) s = s :=
  rfl

theorem after_okOr_some_bind (a : α) (e : ε) (f : α → EStateM ε σ β) (s : σ) :
    after (okOr (some a) e >>= f) s = after (f a) s :=
  rfl

/-- An entry that is not there is not changed. -/
theorem after_tryMutate_none {f : ν → EStateM ε σ (α × ν)} (h : read s = none) :
    after (tryMutate read write e f) s = s := by
  unfold tryMutate
  rw [after_get_bind, h, after_okOr_none_bind]

/-- The storage after a change of one entry: the new value is written on success only. -/
def writeBack (write : ν → σ → σ) : EStateM.Result ε σ (α × ν) → σ
  | .ok p s => write p.2 s
  | .error _ s => s

/-- An entry that is there is written back if the change succeeds. -/
theorem after_tryMutate_some {f : ν → EStateM ε σ (α × ν)} {v : ν} (h : read s = some v) :
    after (tryMutate read write e f) s = writeBack write ((f v).run s) := by
  unfold tryMutate
  rw [after_get_bind, h, after_okOr_some_bind, after_bind]
  cases (f v).run s <;> rfl

/-- A call of a component leaves behind what the component does. -/
theorem after_zoom (view : τ → σ) (put : σ → τ → τ) (err : ε → ε') (x : EStateM ε σ α) (t : τ) :
    after (zoom view put err x) t = put (after x (view t)) t := by
  unfold after
  show (match zoom view put err x t with
    | .ok _ t' => t'
    | .error _ t' => t') = _
  unfold zoom
  cases x.run (view t) <;> rfl

/-! ## Code that never stops -/

/-- The call always succeeds. -/
def Total (x : EStateM ε σ α) : Prop := ∀ s, ∃ a, x.run s = .ok a (after x s)

theorem total_attempt (x : EStateM ε σ α) : Total (attempt x) := by
  intro s
  refine ⟨(), ?_⟩
  rw [after_of_ok (run_attempt x s)]
  exact run_attempt x s

theorem total_modify (f : σ → σ) : Total (modify f : EStateM ε σ PUnit) := fun _ => ⟨⟨⟩, rfl⟩

theorem total_ite [Decidable p] (hx : Total x) (hy : Total y) : Total (if p then x else y) := by
  split_ifs
  · exact hx
  · exact hy

/-- What comes after code that never stops starts from what that leaves behind. -/
theorem after_bind_of_total {x : EStateM ε σ PUnit} (hx : Total x) (f : PUnit → EStateM ε σ β)
    (s : σ) : after (x >>= f) s = after (f ⟨⟩) (after x s) := by
  obtain ⟨_, hrun⟩ := hx s
  rw [after_bind, hrun]

theorem total_bind {x : EStateM ε σ PUnit} {f : PUnit → EStateM ε σ β} (hx : Total x)
    (hf : ∀ u, Total (f u)) : Total (x >>= f) := by
  intro s
  obtain ⟨u, hrun⟩ := hx s
  obtain ⟨b, hrest⟩ := hf u (after x s)
  refine ⟨b, ?_⟩
  rw [after_bind_of_total hx, EStateM.run_bind, hrun]
  exact hrest

/-- A loop whose rounds never stop is a fold over the storages. -/
theorem run_forM_of_total {f : β → EStateM ε σ PUnit} (hf : ∀ b, Total (f b)) (l : List β) (s : σ) :
    (l.forM f).run s = .ok ⟨⟩ (l.foldl (fun s b => after (f b) s) s) := by
  induction l generalizing s with
  | nil => rfl
  | cons b l ih =>
    obtain ⟨_, hrun⟩ := hf b s
    show (f b >>= fun _ => l.forM f).run s = _
    rw [EStateM.run_bind, hrun]
    exact ih _

/-- The same for a loop that collects a result from every round. -/
theorem run_mapM_of_total {f : β → EStateM ε σ α} (hf : ∀ b, Total (f b)) (l : List β) (s : σ) :
    ∃ as, (l.mapM f).run s = .ok as (l.foldl (fun s b => after (f b) s) s) := by
  induction l generalizing s with
  | nil => exact ⟨[], rfl⟩
  | cons b l ih =>
    obtain ⟨a, hrun⟩ := hf b s
    obtain ⟨as, hrest⟩ := ih (after (f b) s)
    refine ⟨a :: as, ?_⟩
    rw [List.mapM_cons, EStateM.run_bind, hrun]
    show (l.mapM f >>= fun as => pure (a :: as)).run _ = _
    rw [EStateM.run_bind, hrest]
    rfl

/-! ## Loops with an invariant -/

/-- **The loop rule.**  A property of the elements still to be visited and of the storage, under
which every round succeeds and keeps it, holds at the end of the loop. -/
theorem run_forM_inv {f : β → EStateM ε σ PUnit} {P : List β → σ → Prop}
    (hround : ∀ b rest s, P (b :: rest) s → ∃ s', (f b).run s = .ok ⟨⟩ s' ∧ P rest s') :
    ∀ (l : List β) (s : σ), P l s → ∃ s', (l.forM f).run s = .ok ⟨⟩ s' ∧ P [] s' := by
  intro l
  induction l with
  | nil =>
    intro s h
    exact ⟨s, rfl, h⟩
  | cons b rest ih =>
    intro s h
    obtain ⟨s₁, hrun, h₁⟩ := hround b rest s h
    obtain ⟨s', hrest, h'⟩ := ih s₁ h₁
    exact ⟨s', run_bind_ok.mpr ⟨⟨⟩, s₁, hrun, hrest⟩, h'⟩

/-- The same for a loop that is known to succeed. -/
theorem forM_ok_inv {f : β → EStateM ε σ PUnit} {P : List β → σ → Prop}
    (hround : ∀ b rest s s', P (b :: rest) s → (f b).run s = .ok ⟨⟩ s' → P rest s') :
    ∀ {l : List β} {s s' : σ} {u : PUnit}, P l s → (l.forM f).run s = .ok u s' → P [] s' := by
  intro l
  induction l with
  | nil =>
    intro s s' u h hrun
    obtain ⟨-, rfl⟩ := run_pure_ok.mp hrun
    exact h
  | cons b rest ih =>
    intro s s' u h hrun
    obtain ⟨_, s₁, hb, hrest⟩ := run_bind_ok.mp hrun
    exact ih (hround b rest s s₁ h hb) hrest

/-- A new value may be added to different ones. -/
theorem nodup_map_push {f : α → β} {a : α} (hl : (l.map f).Nodup) (ha : ∀ b ∈ l, f a ≠ f b) :
    ((l ++ [a]).map f).Nodup := by
  rw [List.map_append, List.nodup_append]
  refine ⟨hl, List.nodup_singleton _, ?_⟩
  simp only [List.mem_map, List.map_cons, List.map_nil, List.mem_singleton]
  rintro _ ⟨b, hb, rfl⟩ _ rfl
  exact (ha b hb).symm

/-- A successful `mapM` has made something of every element, in the same order. -/
theorem forall₂_of_mapM {f : α → Option β} (hl : l.mapM f = some l') :
    List.Forall₂ (fun a b => f a = some b) l l' := by
  induction l generalizing l' with
  | nil =>
    obtain rfl : [] = l' := Option.some.inj hl
    exact .nil
  | cons a l ih =>
    rw [List.mapM_cons] at hl
    obtain ⟨b, hb, hl⟩ := Option.bind_eq_some_iff.mp hl
    obtain ⟨bs, hbs, hl⟩ := Option.bind_eq_some_iff.mp hl
    obtain rfl : b :: bs = l' := Option.some.inj hl
    exact .cons hb (ih hbs)

/-- What is made comes from an element of the list. -/
theorem exists_of_mem_mapM {f : α → Option β} (hl : l.mapM f = some l') {b : β} (hb : b ∈ l') :
    ∃ a ∈ l, f a = some b := by
  obtain ⟨i, hi, rfl⟩ := List.mem_iff_getElem.mp hb
  have hall := forall₂_of_mapM hl
  have hi' : i < l.length := hall.length_eq ▸ hi
  exact ⟨l[i], List.getElem_mem hi', hall.get hi' hi⟩

theorem ne_none_of_mapM {f : α → Option β} (hl : l.mapM f = some l') : ∀ a ∈ l, f a ≠ none := by
  intro a ha
  obtain ⟨i, hi, rfl⟩ := List.mem_iff_getElem.mp ha
  have hall := forall₂_of_mapM hl
  have hmade : f l[i] = some _ := hall.get hi (hall.length_eq ▸ hi)
  rw [hmade]
  exact Option.some_ne_none _

/-- A `mapM` is successful where every element is. -/
theorem exists_mapM {f : α → Option β} (hf : ∀ a ∈ l, f a ≠ none) : ∃ l', l.mapM f = some l' := by
  induction l with
  | nil => exact ⟨[], rfl⟩
  | cons a l ih =>
    obtain ⟨b, hb⟩ := Option.ne_none_iff_exists'.mp (hf a List.mem_cons_self)
    obtain ⟨bs, hbs⟩ := ih fun a' ha' => hf a' (List.mem_cons_of_mem a ha')
    refine ⟨b :: bs, ?_⟩
    rw [List.mapM_cons, hb, hbs]
    rfl

theorem length_eq_of_mapM {f : α → Option β} (hl : l.mapM f = some l') : l'.length = l.length :=
  (forall₂_of_mapM hl).length_eq.symm

/-! ## Calls that respect a preorder on storage -/

/-- The call `x` always leaves a storage related to the one it started from. -/
def Keeps (R : σ → σ → Prop) (x : EStateM ε σ α) : Prop := ∀ s, R s (after x s)

section Keeps

variable {R : σ → σ → Prop}

theorem Keeps.run_ok (hx : Keeps R x) (h : x.run s = .ok a s') : R s s' := by
  have := hx s
  rwa [after_of_ok h] at this

theorem Keeps.run_error (hx : Keeps R x) (h : x.run s = .error e s') : R s s' := by
  have := hx s
  unfold after at this
  rwa [h] at this

/-- A call that respects a preorder respects every weaker one. -/
theorem Keeps.mono {R' : σ → σ → Prop} (hx : Keeps R x) (h : ∀ s s', R s s' → R' s s') :
    Keeps R' x := fun s => h _ _ (hx s)

/-- A call of a component, seen from the storage that contains it. -/
theorem keeps_zoom {S : τ → τ → Prop} (hx : Keeps R x) (h : ∀ s t, R (view t) s → S t (put s t)) :
    Keeps S (zoom view put err x) := by
  intro t
  rw [after_zoom]
  exact h _ _ (hx (view t))

theorem keeps_attempt (hx : Keeps R x) : Keeps R (attempt x) := by
  intro s
  rw [after_of_ok (run_attempt x s)]
  exact hx s

theorem keeps_modify {f : σ → σ} (h : ∀ s, R s (f s)) :
    Keeps R (modify f : EStateM ε σ PUnit) := h

/-- Sequencing, with the continuation only run on the states the first call produces. -/
theorem keeps_bind [IsTrans σ R] (hx : Keeps R x) (hf : ∀ a, Keeps R (f a)) :
    Keeps R (x >>= f) := by
  intro s
  have h := hx s
  rw [after_bind]
  unfold after at h
  cases hrun : x.run s with
  | ok a s₁ =>
    rw [hrun] at h
    exact IsTrans.trans _ _ _ h (hf a s₁)
  | error e s₁ =>
    rw [hrun] at h
    exact h

theorem keeps_ite [Decidable p] (hx : p → Keeps R x) (hy : ¬ p → Keeps R y) :
    Keeps R (if p then x else y) := by
  split_ifs with h
  · exact hx h
  · exact hy h

variable [Std.Refl R]

theorem keeps_pure (a : α) : Keeps R (pure a : EStateM ε σ α) := fun s =>
  refl s

theorem keeps_get : Keeps R (get : EStateM ε σ σ) := fun s => refl s

theorem keeps_throw (e : ε) : Keeps R (throw e : EStateM ε σ α) := fun s =>
  refl s

theorem keeps_ensure (p : Prop) [Decidable p] (e : ε) :
    Keeps R (ensure p e : EStateM ε σ Unit) := by
  unfold ensure
  split_ifs
  · exact keeps_pure ()
  · exact keeps_throw e

theorem keeps_okOr (o : Option α) (e : ε) : Keeps R (okOr o e : EStateM ε σ α) := by
  cases o with
  | none => exact keeps_throw e
  | some a => exact keeps_pure a

variable [IsTrans σ R]

theorem keeps_get_bind {f : σ → EStateM ε σ α} (hf : ∀ s, Keeps R (f s)) :
    Keeps R (get >>= f) :=
  keeps_bind keeps_get hf

theorem keeps_ensure_bind [Decidable p] {f : Unit → EStateM ε σ α} (hf : Keeps R (f ())) :
    Keeps R (ensure p e >>= f) :=
  keeps_bind (keeps_ensure p e) fun _ => hf

theorem keeps_okOr_bind {o : Option α} (hf : ∀ a, Keeps R (f a)) : Keeps R (okOr o e >>= f) :=
  keeps_bind (keeps_okOr o e) hf

theorem keeps_tryMutate {f : ν → EStateM ε σ (α × ν)} (hf : ∀ v, Keeps R (f v))
    (hw : ∀ v s, R s (write v s)) : Keeps R (tryMutate read write e f) := by
  refine keeps_bind keeps_get fun s => keeps_bind (keeps_okOr _ _) fun v => ?_
  refine keeps_bind (hf v) fun p => keeps_bind (keeps_modify (hw p.2)) fun _ => ?_
  exact keeps_pure p.1

/-- A change of one entry that reads the storage only and writes that entry: either nothing
happens, or the new value is written. -/
theorem after_tryMutate_pure {f : ν → EStateM ε σ (α × ν)} (hf : ∀ v, Keeps Eq (f v)) (s : σ) :
    after (tryMutate read write e f) s = s ∨
      ∃ v a v', read s = some v ∧ (f v).run s = .ok (a, v') s ∧
        after (tryMutate read write e f) s = write v' s := by
  cases hread : read s with
  | none => exact .inl (after_tryMutate_none hread)
  | some v =>
    have hsame : s = after (f v) s := hf v s
    rw [after_tryMutate_some hread]
    cases hrun : (f v).run s with
    | ok p s₁ =>
      rw [after_of_ok hrun] at hsame
      subst hsame
      exact .inr ⟨v, p.1, p.2, rfl, hrun, rfl⟩
    | error e s₁ =>
      unfold after at hsame
      rw [hrun] at hsame
      exact .inl hsame.symm

/-- A loop over a list respects the preorder when each round does. -/
theorem keeps_forM {l : List β} {f : β → EStateM ε σ PUnit} (hf : ∀ b ∈ l, Keeps R (f b)) :
    Keeps R (l.forM f) := by
  induction l with
  | nil => exact keeps_pure _
  | cons b l ih =>
    refine keeps_bind (hf b List.mem_cons_self) fun _ => ?_
    exact ih fun b' hb' => hf b' (List.mem_cons_of_mem _ hb')

/-- The same for a loop that collects a result from every round. -/
theorem keeps_mapM {l : List β} {f : β → EStateM ε σ α} (hf : ∀ b ∈ l, Keeps R (f b)) :
    Keeps R (l.mapM f) := by
  induction l with
  | nil => exact keeps_pure _
  | cons b l ih =>
    rw [List.mapM_cons]
    refine keeps_bind (hf b List.mem_cons_self) fun _ => ?_
    refine keeps_bind (ih fun b' hb' => hf b' (List.mem_cons_of_mem _ hb')) fun _ => ?_
    exact keeps_pure _

/-- The same for a loop that carries a value along. -/
theorem keeps_foldlM {l : List β} {f : α → β → EStateM ε σ α} (hf : ∀ a b, Keeps R (f a b))
    (a : α) : Keeps R (l.foldlM f a) := by
  induction l generalizing a with
  | nil => exact keeps_pure _
  | cons b l ih =>
    exact keeps_bind (hf a b) fun a' => ih a'

end Keeps

/-! ## How a call fails -/

theorem run_bind_error : (x >>= f).run s = .error e s' ↔
    x.run s = .error e s' ∨ ∃ a s₁, x.run s = .ok a s₁ ∧ (f a).run s₁ = .error e s' := by
  rw [EStateM.run_bind]
  cases h : x.run s with
  | ok a s₁ => simp
  | error e₁ s₁ => simp

theorem run_throw_error {e' : ε} :
    (throw e' : EStateM ε σ α).run s = .error e s' ↔ e' = e ∧ s = s' := by
  show EStateM.Result.error e' s = _ ↔ _
  rw [EStateM.Result.error.injEq]

theorem run_ensure_error [Decidable p] {e' : ε} :
    (ensure p e' : EStateM ε σ Unit).run s = .error e s' ↔ ¬ p ∧ e' = e ∧ s = s' := by
  unfold ensure
  split_ifs with h <;> simp [h]

theorem run_okOr_error {o : Option α} {e' : ε} :
    (okOr o e' : EStateM ε σ α).run s = .error e s' ↔ o = none ∧ e' = e ∧ s = s' := by
  cases o with
  | none => simp [okOr, run_throw_error]
  | some a' => simp [okOr]

theorem run_zoom_error {e' : ε'} {t t' : τ} :
    (zoom view put err x).run t = .error e' t' ↔
      ∃ e s', x.run (view t) = .error e s' ∧ err e = e' ∧ put s' t = t' := by
  show zoom view put err x t = _ ↔ _
  unfold zoom
  cases h : x.run (view t) with
  | ok a s₁ => simp
  | error e s₁ =>
    constructor
    · intro heq
      cases heq
      exact ⟨e, s₁, rfl, rfl, rfl⟩
    · rintro ⟨_, _, ⟨⟩, rfl, rfl⟩
      rfl

theorem run_ite_error [Decidable p] :
    (if p then x else y).run s = .error e s' ↔
      (p ∧ x.run s = .error e s') ∨ (¬ p ∧ y.run s = .error e s') := by
  split_ifs with h <;> simp [h]

/-- **The simp set of failing runs**, used with the one of successful runs: a failing run of a block as
the choice of the line that stops it. -/
theorem run_error :
    (∀ {ε σ α β : Type} {x : EStateM ε σ α} {f : α → EStateM ε σ β} {s s' : σ} {e : ε},
      (x >>= f).run s = .error e s' ↔
        x.run s = .error e s' ∨ ∃ a s₁, x.run s = .ok a s₁ ∧ (f a).run s₁ = .error e s') ∧
    (∀ {ε σ : Type} {s s' : σ} {e : ε}, (get : EStateM ε σ σ).run s = .error e s' ↔ False) ∧
    (∀ {ε σ : Type} {s s' : σ} {f : σ → σ} {e : ε},
      (modify f : EStateM ε σ PUnit).run s = .error e s' ↔ False) ∧
    (∀ {ε σ α : Type} {a : α} {s s' : σ} {e : ε},
      (pure a : EStateM ε σ α).run s = .error e s' ↔ False) ∧
    (∀ {ε σ α : Type} {e e' : ε} {s s' : σ},
      (throw e' : EStateM ε σ α).run s = .error e s' ↔ e' = e ∧ s = s') ∧
    (∀ {ε σ : Type} {p : Prop} [Decidable p] {e e' : ε} {s s' : σ},
      (ensure p e' : EStateM ε σ Unit).run s = .error e s' ↔ ¬ p ∧ e' = e ∧ s = s') ∧
    (∀ {ε σ α : Type} {o : Option α} {e e' : ε} {s s' : σ},
      (okOr o e' : EStateM ε σ α).run s = .error e s' ↔ o = none ∧ e' = e ∧ s = s') ∧
    (∀ p : Prop, (False ∨ p) = p) ∧ (∀ p : Prop, (p ∨ False) = p) ∧
    (∀ p : Prop, (p ∧ False) = False) ∧ ∀ {α : Type}, (∃ _ : α, False) ↔ False :=
  ⟨run_bind_error, iff_false_intro nofun, iff_false_intro nofun, iff_false_intro nofun,
    run_throw_error, run_ensure_error, run_okOr_error, false_or, or_false, and_false,
    iff_false_intro exists_false⟩

end Dispatch
