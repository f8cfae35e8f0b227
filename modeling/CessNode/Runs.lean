/-
# Runs of a guarded transition system

A system takes actions, each of which is either possible in a state, with one next
state, or not (`step s a : Option σ`).  A guard `ok s a` restricts the actions that are
considered.  This file has the ways in which the other files use runs:

* `Reach init step ok` : the states that guarded runs reach, with the invariant rule
  `Reach.inv`, whose step may use that its source state is reached;
* `exec step s as` : the state after a given list of actions, which `Reach.exec` turns
  into a reached state when the guard holds along the way (`Guarded`);
* `play step allowed idle s parts` : the same with a guard that is evaluated along the way, and
  with idle rounds that are passed at once;
* `observe step note` : the system with an observer that notes what the steps do, which neither adds
  runs (`Reach.of_observe`) nor loses any (`Reach.observed`);
* `foldl_inv` : the invariant rule for a loop that visits each element of a list once.
-/
import Mathlib

namespace Runs

variable {σ α : Type} {init : σ → Prop} {step : σ → α → Option σ} {ok ok' : σ → α → Prop}

/-! ## Reached states -/

/-- The states reached from an initial state by actions that the guard allows. -/
inductive Reach (init : σ → Prop) (step : σ → α → Option σ) (ok : σ → α → Prop) : σ → Prop
  | start {s : σ} (h : init s) : Reach init step ok s
  | next {s s' : σ} {a : α} (hs : Reach init step ok s) (hok : ok s a)
      (h : step s a = some s') : Reach init step ok s'

/-- **The invariant rule.**  What holds initially and is kept by every allowed action from a
reached state holds in every reached state. -/
theorem Reach.inv {P : σ → Prop} (h0 : ∀ s, init s → P s)
    (hstep : ∀ s a s', Reach init step ok s → P s → ok s a → step s a = some s' → P s') {s : σ}
    (hs : Reach init step ok s) : P s := by
  induction hs with
  | start h => exact h0 _ h
  | next hs hok h ih => exact hstep _ _ _ hs ih hok h

/-- A weaker guard reaches more states. -/
theorem Reach.mono (hok : ∀ s a, ok s a → ok' s a) {s : σ} (hs : Reach init step ok s) :
    Reach init step ok' s := by
  induction hs with
  | start h => exact .start h
  | next _ h₁ h₂ ih => exact .next ih (hok _ _ h₁) h₂

/-! ## Runs of a given list of actions -/

/-- The state after the actions of a list, if each is possible. -/
def exec (step : σ → α → Option σ) : σ → List α → Option σ
  | s, [] => some s
  | s, a :: as => (step s a).bind fun s' => exec step s' as

/-- The guard holds for every action of the list at the state it is taken from. -/
def Guarded (step : σ → α → Option σ) (ok : σ → α → Prop) : σ → List α → Prop
  | _, [] => True
  | s, a :: as => ok s a ∧ ∀ s', step s a = some s' → Guarded step ok s' as

/-- A guard that does not look at the state. -/
theorem guarded_of_all {allowed : α → Bool} (hok : ∀ s a, allowed a = true → ok s a) {as : List α}
    (h : as.all allowed = true) (s : σ) : Guarded step ok s as := by
  induction as generalizing s with
  | nil => trivial
  | cons a as ih =>
    rw [List.all_cons, Bool.and_eq_true] at h
    exact ⟨hok s a h.1, fun s' _ => ih h.2 s'⟩

/-- Without a guard every list of actions is allowed. -/
theorem guarded_true (as : List α) (s : σ) : Guarded step (fun _ _ => True) s as := by
  induction as generalizing s with
  | nil => trivial
  | cons a as ih => exact ⟨trivial, fun s' _ => ih s'⟩

/-- A guarded list of actions leads from a reached state to a reached state. -/
theorem Reach.exec {s s' : σ} {as : List α} (hs : Reach init step ok s)
    (hok : Guarded step ok s as) (h : exec step s as = some s') : Reach init step ok s' := by
  induction as generalizing s with
  | nil =>
    obtain rfl := Option.some.inj h
    exact hs
  | cons a as ih =>
    obtain ⟨s₁, hstep, hrest⟩ := Option.bind_eq_some_iff.mp h
    exact ih (.next hs hok.1 hstep) (hok.2 s₁ hstep) hrest

/-- A run that passes a check gives a reached state that passes it. -/
theorem Reach.exists_of_exec {s : σ} {as : List α} {check : σ → Bool} (hs : Reach init step ok s)
    (hok : Guarded step ok s as) (h : (Runs.exec step s as).any check = true) :
    ∃ s', Reach init step ok s' ∧ check s' = true := by
  cases hexec : Runs.exec step s as with
  | none =>
    rw [hexec] at h
    cases h
  | some s' =>
    rw [hexec] at h
    exact ⟨s', hs.exec hok hexec, h⟩

/-! ## Concrete runs -/

/-- A part of a concrete run: an action, or a number of rounds in which nothing happens. -/
inductive Part (α : Type) where
  | act (a : α)
  | idle (rounds : ℕ)

/-- The state after the parts of a concrete run, if every action is possible and allowed and the
idle rounds can be passed at once. -/
def play (step : σ → α → Option σ) (allowed : σ → α → Bool) (idle : σ → ℕ → Option σ) :
    σ → List (Part α) → Option σ
  | s, [] => some s
  | s, .act a :: parts =>
    if allowed s a then (step s a).bind fun s' => play step allowed idle s' parts else none
  | s, .idle k :: parts => (idle s k).bind fun s' => play step allowed idle s' parts

/-- **A concrete run that passes a check** gives a reached state that passes it. -/
theorem Reach.exists_of_play [∀ s a, Decidable (ok s a)] {idle : σ → ℕ → Option σ}
    (hidle : ∀ s k s', Reach init step ok s → idle s k = some s' → Reach init step ok s') {s : σ}
    (hs : Reach init step ok s) (parts : List (Part α)) (check : σ → Bool)
    (h : (play step (fun s a => decide (ok s a)) idle s parts).any check = true) :
    ∃ s', Reach init step ok s' ∧ check s' = true := by
  induction parts generalizing s with
  | nil => exact ⟨s, hs, h⟩
  | cons part parts ih =>
    cases part with
    | act a =>
      unfold play at h
      split_ifs at h with hok
      · cases hstep : step s a with
        | none =>
          rw [hstep] at h
          cases h
        | some s' =>
          rw [hstep] at h
          exact ih (.next hs (of_decide_eq_true hok) hstep) h
      · cases h
    | idle k =>
      unfold play at h
      cases hjump : idle s k with
      | none =>
        rw [hjump] at h
        cases h
      | some s' =>
        rw [hjump] at h
        exact ih (hidle s k s' hs hjump) h

/-! ## Observers -/

section Observers

variable {γ : Type} {note : σ → α → σ → γ → γ}

/-- The system with an observer, whose notes change with every step. -/
def observe (step : σ → α → Option σ) (note : σ → α → σ → γ → γ) (p : σ × γ) (a : α) :
    Option (σ × γ) :=
  (step p.1 a).map fun s' => (s', note p.1 a s' p.2)

theorem observe_eq_some {p p' : σ × γ} {a : α} :
    observe step note p a = some p' ↔ step p.1 a = some p'.1 ∧ p'.2 = note p.1 a p'.1 p.2 := by
  obtain ⟨s', c'⟩ := p'
  simp only [observe, Option.map_eq_some_iff, Prod.mk.injEq]
  constructor
  · rintro ⟨s₁, hstep, rfl, hnote⟩
    exact ⟨hstep, hnote.symm⟩
  · rintro ⟨hstep, hnote⟩
    exact ⟨s', hstep, rfl, hnote.symm⟩

/-- What the observed system reaches, the system reaches. -/
theorem Reach.of_observe {blank : γ} {p : σ × γ}
    (hp : Reach (fun p => init p.1 ∧ p.2 = blank) (observe step note) (fun p a => ok p.1 a) p) :
    Reach init step ok p.1 := by
  induction hp with
  | start h => exact .start h.1
  | next _ hok h ih => exact .next ih hok (observe_eq_some.mp h).1

/-- Every run can be observed. -/
theorem Reach.observed (note : σ → α → σ → γ → γ) (blank : γ) {s : σ} (hs : Reach init step ok s) :
    ∃ c, Reach (fun p => init p.1 ∧ p.2 = blank) (observe step note) (fun p a => ok p.1 a)
      (s, c) := by
  induction hs with
  | start h => exact ⟨blank, .start ⟨h, rfl⟩⟩
  | @next s s' a _ hok h ih =>
    obtain ⟨c, hc⟩ := ih
    exact ⟨note s a s' c, .next hc hok (observe_eq_some.mpr ⟨h, rfl⟩)⟩

end Observers

/-! ## Loops over a list without repetition -/

/-- **The loop rule.**  A property of the elements still to be visited and the state, kept by
every visit, holds at the end with nothing left to visit. -/
theorem foldl_inv {β : Type} {f : σ → β → σ} {P : List β → σ → Prop}
    (hround : ∀ s b rest, b ∉ rest → P (b :: rest) s → P rest (f s b)) :
    ∀ (l : List β) (s : σ), l.Nodup → P l s → P [] (l.foldl f s) := by
  intro l
  induction l with
  | nil =>
    intro s _ h
    exact h
  | cons b rest ih =>
    intro s hnodup h
    obtain ⟨hb, hnodup⟩ := List.nodup_cons.mp hnodup
    exact ih (f s b) hnodup (hround s b rest hb h)

end Runs
