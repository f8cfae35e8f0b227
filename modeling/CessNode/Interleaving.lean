/-
# Tasks that share a state

A task is a program whose atomic operations read and change a shared state; between two operations
of one task any other task may run (`step`).  What a program does when it runs alone is described by
`Safe`: every operation meets a condition in the state it is executed in, and the result and the
last state meet another.

`Serial` is the guard under which a task that has begun runs to its end before another one begins.
`Pool.Calm.of_reach` is the rule for such runs: if every program is safe alone from the states of an
invariant and leads back to them, then in every serial run every operation meets its condition and
every result its own.
-/
import CessNode.Runs

namespace Interleaving

/-! ## Programs -/

/-- A program of atomic operations, each with its kind of reply, that ends with a result or an
error. -/
inductive Prog (Op : Type) (Reply : Op → Type) (ε α : Type) : Type where
  | done (result : Except ε α)
  | act (op : Op) (next : Reply op → Prog Op Reply ε α)

variable {Op : Type} {Reply : Op → Type} {ε α β S Req : Type}

namespace Prog

/-- One program after another; an error ends both. -/
def bind : Prog Op Reply ε α → (α → Prog Op Reply ε β) → Prog Op Reply ε β
  | done (.ok a), f => f a
  | done (.error e), _ => done (.error e)
  | act op next, f => act op fun reply => (next reply).bind f

instance : Monad (Prog Op Reply ε) where
  pure a := done (.ok a)
  bind := Prog.bind

/-- A single operation. -/
def call (op : Op) : Prog Op Reply ε (Reply op) := act op fun reply => done (.ok reply)

/-- A computation without operations. -/
def lift (x : Except ε α) : Prog Op Reply ε α := done x

/-- An error. -/
def fail (e : ε) : Prog Op Reply ε α := done (.error e)

variable (exec : (op : Op) → S → Reply op × S)

/-- The result of a program that runs alone, and the state it leaves. -/
def run : Prog Op Reply ε α → S → Except ε α × S
  | done result, s => (result, s)
  | act op next, s => run (next (exec op s).1) (exec op s).2

/-- The operations that a program executes when it runs alone. -/
def ops : Prog Op Reply ε α → S → List Op
  | done _, _ => []
  | act op next, s => op :: ops (next (exec op s).1) (exec op s).2

/-- Run alone from the state, the program executes only operations that meet `Q`, and ends with a
result and a state that meet `R`. -/
def Safe (Q : Op → S → Prop) (R : Except ε α → S → Prop) : Prog Op Reply ε α → S → Prop
  | done result, s => R result s
  | act op next, s => Q op s ∧ Safe Q R (next (exec op s).1) (exec op s).2

variable {exec} {Q Q' : Op → S → Prop} {R R' : Except ε α → S → Prop}

theorem Safe.mono (hQ : ∀ op s, Q op s → Q' op s) (hR : ∀ r s, R r s → R' r s)
    {p : Prog Op Reply ε α} (h : p.Safe exec Q R s) : p.Safe exec Q' R' s := by
  induction p generalizing s with
  | done result => exact hR result s h
  | act op next ih => exact ⟨hQ op s h.1, ih _ h.2⟩

/-- An operation, and then the rest with its reply. -/
theorem Safe.call_bind {R : Except ε β → S → Prop} {op : Op} {f : Reply op → Prog Op Reply ε β}
    (hop : Q op s) (h : (f (exec op s).1).Safe exec Q R (exec op s).2) :
    ((call op).bind f).Safe exec Q R s := ⟨hop, h⟩

/-- A computation without operations, and then the rest with its value. -/
theorem Safe.lift_bind {R : Except ε β → S → Prop} {x : Except ε α} {f : α → Prog Op Reply ε β}
    (herror : ∀ e, x = .error e → R (.error e) s) (hok : ∀ a, x = .ok a → (f a).Safe exec Q R s) :
    ((lift x).bind f).Safe exec Q R s := by
  cases x with
  | ok a => exact hok a rfl
  | error e => exact herror e rfl

end Prog

/-! ## Pools of tasks -/

/-- A request that is being handled: whether an operation of it was executed, and what is left to
do. -/
structure Task (Op : Type) (Reply : Op → Type) (ε α Req : Type) where
  request : Req
  started : Bool
  prog : Prog Op Reply ε α

/-- The shared state and the tasks. -/
structure Pool (Op : Type) (Reply : Op → Type) (ε α Req S : Type) where
  shared : S
  tasks : List (Task Op Reply ε α Req)

/-- What may happen: a request comes in, or a task executes its next operation. -/
inductive Action (Req : Type) where
  | spawn (request : Req)
  | run (t : ℕ)

variable {s : S} {pool : Pool Op Reply ε α Req S} {task : Task Op Reply ε α Req}
variable (exec : (op : Op) → S → Reply op × S) (handler : Req → Prog Op Reply ε α)

/-- A step of the pool. -/
def step (pool : Pool Op Reply ε α Req S) : Action Req → Option (Pool Op Reply ε α Req S)
  | .spawn request =>
    some { pool with tasks := pool.tasks ++ [⟨request, false, handler request⟩] }
  | .run t =>
    match pool.tasks[t]? with
    | some ⟨request, _, .act op next⟩ =>
      some
        { shared := (exec op pool.shared).2
          tasks := pool.tasks.set t ⟨request, true, next (exec op pool.shared).1⟩ }
    | _ => none

/-- A task is between its first and its last operation. -/
def Task.Busy (task : Task Op Reply ε α Req) : Prop :=
  task.started = true ∧ ∃ op next, task.prog = .act op next

/-- No other task is busy when a task runs, and the requests are allowed ones. -/
def Serial (allowed : Req → Prop) (pool : Pool Op Reply ε α Req S) : Action Req → Prop
  | .spawn request => allowed request
  | .run t => ∀ (t' : ℕ) (task : Task Op Reply ε α Req), pool.tasks[t']? = some task → t' ≠ t →
      ¬ task.Busy

instance (task : Task Op Reply ε α Req) : Decidable task.Busy :=
  match task with
  | ⟨_, false, _⟩ => isFalse fun h => nomatch h.1
  | ⟨_, true, .done _⟩ => isFalse fun ⟨_, _, _, h⟩ => nomatch h
  | ⟨_, true, .act op next⟩ => isTrue ⟨rfl, op, next, rfl⟩

instance (allowed : Req → Prop) [DecidablePred allowed] (pool : Pool Op Reply ε α Req S) :
    (a : Action Req) → Decidable (Serial allowed pool a)
  | .spawn request => inferInstanceAs (Decidable (allowed request))
  | .run t => decidable_of_iff
      (∀ i : Fin pool.tasks.length, i.val ≠ t → ¬ (pool.tasks.get i).Busy) (by
        constructor
        · intro h t' task ht' hne
          obtain ⟨hlt, rfl⟩ := List.getElem?_eq_some_iff.mp ht'
          exact h ⟨t', hlt⟩ hne
        · intro h i hne
          exact h i.val _ (List.getElem?_eq_getElem i.isLt) hne)

/-- A concrete run that passes a check. -/
theorem exists_of_play (init : Pool Op Reply ε α Req S → Prop)
    (ok : Pool Op Reply ε α Req S → Action Req → Prop) [∀ pool a, Decidable (ok pool a)]
    (hpool : init pool) (actions : List (Action Req)) (check : Pool Op Reply ε α Req S → Bool)
    (h : (Runs.play (step exec handler) (fun pool a => decide (ok pool a)) (fun _ _ => none) pool
      (actions.map .act)).any check = true) :
    ∃ pool, Runs.Reach init (step exec handler) ok pool ∧ check pool = true :=
  Runs.Reach.exists_of_play nofun (.start hpool) (actions.map .act) check h

/-! ## Serial runs -/

section Serial

variable {exec handler} {allowed : Req → Prop} {Inv : S → Prop} {Q : Req → Op → S → Prop}
  {Good : Req → Except ε α → Prop}

/-- What a task that is not busy looks like: it has not begun, or its result is good. -/
def Task.Calm (handler : Req → Prog Op Reply ε α) (allowed : Req → Prop)
    (Good : Req → Except ε α → Prop) (task : Task Op Reply ε α Req) : Prop :=
  (task.prog = handler task.request ∧ allowed task.request) ∨
    ∃ result, task.prog = .done result ∧ Good task.request result

/-- The pool is calm: the state meets the invariant and no task is busy; or one task is, and alone
it leads back to the invariant. -/
def Pool.Calm (exec : (op : Op) → S → Reply op × S) (handler : Req → Prog Op Reply ε α)
    (allowed : Req → Prop) (Inv : S → Prop) (Q : Req → Op → S → Prop)
    (Good : Req → Except ε α → Prop) (pool : Pool Op Reply ε α Req S) : Prop :=
  (Inv pool.shared ∧ ∀ task ∈ pool.tasks, task.Calm handler allowed Good ∧ ¬ task.Busy) ∨
    ∃ (t : ℕ) (task : Task Op Reply ε α Req), pool.tasks[t]? = some task ∧ task.Busy ∧
      task.prog.Safe exec (Q task.request) (fun r s => Inv s ∧ Good task.request r) pool.shared ∧
      ∀ (t' : ℕ) (task' : Task Op Reply ε α Req), pool.tasks[t']? = some task' → t' ≠ t →
        task'.Calm handler allowed Good ∧ ¬ task'.Busy

/-- After an operation the task is busy and still safe, or it has ended well. -/
theorem Pool.calm_of_safe {t : ℕ} {prog : Prog Op Reply ε α} (ht : pool.tasks[t]? = some task)
    (hsafe : prog.Safe exec (Q task.request) (fun r s => Inv s ∧ Good task.request r) s)
    (hothers : ∀ (t' : ℕ) (task' : Task Op Reply ε α Req), pool.tasks[t']? = some task' → t' ≠ t →
      task'.Calm handler allowed Good ∧ ¬ task'.Busy) :
    Pool.Calm exec handler allowed Inv Q Good
      { shared := s, tasks := pool.tasks.set t ⟨task.request, true, prog⟩ } := by
  have hlt : t < pool.tasks.length := (List.getElem?_eq_some_iff.mp ht).1
  have hself : (pool.tasks.set t ⟨task.request, true, prog⟩)[t]? =
      some ⟨task.request, true, prog⟩ := by
    rw [List.getElem?_set_self hlt]
  have hothers' : ∀ (t' : ℕ) (task' : Task Op Reply ε α Req), (pool.tasks.set t ⟨task.request, true, prog⟩)[t']? = some task' →
      t' ≠ t → task'.Calm handler allowed Good ∧ ¬ task'.Busy := by
    intro t' task' ht' hne
    rw [List.getElem?_set_ne hne.symm] at ht'
    exact hothers t' task' ht' hne
  cases prog with
  | done result =>
    refine Or.inl ⟨hsafe.1, fun task' htask' => ?_⟩
    obtain ⟨t', ht'⟩ := List.mem_iff_getElem?.mp htask'
    by_cases hne : t' = t
    · subst hne
      obtain rfl := Option.mem_unique hself ht'
      refine ⟨Or.inr ⟨result, rfl, hsafe.2⟩, ?_⟩
      rintro ⟨-, op, next, hprog⟩
      cases hprog
    · exact hothers' t' task' ht' hne
  | act op next => exact Or.inr ⟨t, _, hself, ⟨rfl, op, next, rfl⟩, hsafe, hothers'⟩

variable (hsafe : ∀ request s, allowed request → Inv s →
  (handler request).Safe exec (Q request) (fun r s => Inv s ∧ Good request r) s)
include hsafe

/-- A serial step keeps the pool calm. -/
theorem Pool.Calm.keeps {pool' : Pool Op Reply ε α Req S} {a : Action Req}
    (h : pool.Calm exec handler allowed Inv Q Good) (hok : Serial allowed pool a)
    (hstep : Interleaving.step exec handler pool a = some pool') :
    pool'.Calm exec handler allowed Inv Q Good := by
  cases a with
  | spawn request =>
    obtain rfl := Option.some.inj hstep
    have hnew : Task.Calm handler allowed Good ⟨request, false, handler request⟩ ∧
        ¬ Task.Busy (⟨request, false, handler request⟩ : Task Op Reply ε α Req) := by
      refine ⟨Or.inl ⟨rfl, hok⟩, ?_⟩
      rintro ⟨hstarted, -⟩
      cases hstarted
    rcases h with ⟨hinv, hall⟩ | ⟨t, task, ht, hbusy, htask, hothers⟩
    · refine Or.inl ⟨hinv, fun task htask => ?_⟩
      rcases List.mem_append.mp htask with hold | hmem
      · exact hall task hold
      · obtain rfl := List.mem_singleton.mp hmem
        exact hnew
    · have hlt : t < pool.tasks.length := (List.getElem?_eq_some_iff.mp ht).1
      refine Or.inr ⟨t, task, ?_, hbusy, htask, fun t' task' ht' hne => ?_⟩
      · rw [List.getElem?_append_left hlt]
        exact ht
      · by_cases hlt' : t' < pool.tasks.length
        · rw [List.getElem?_append_left hlt'] at ht'
          exact hothers t' task' ht' hne
        · rw [List.getElem?_append_right (by omega)] at ht'
          obtain rfl := List.mem_singleton.mp (List.mem_of_getElem? ht')
          exact hnew
  | run t =>
    simp only [Interleaving.step] at hstep
    split at hstep
    · rename_i request started op next ht
      obtain rfl := Option.some.inj hstep
      rcases h with ⟨hinv, hall⟩ | ⟨t', task', ht', hbusy', htask', hothers'⟩
      · -- the task begins
        obtain ⟨hcalm, -⟩ := hall _ (List.mem_of_getElem? ht)
        rcases hcalm with ⟨hprog, hallowed⟩ | ⟨result, hprog, -⟩
        · have hfirst := hsafe request pool.shared hallowed hinv
          rw [← hprog] at hfirst
          exact Pool.calm_of_safe ht hfirst.2
            (fun t' task' ht' _ => hall task' (List.mem_of_getElem? ht'))
        · cases hprog
      · -- the busy task is the one that runs
        have hsame : t' = t := by
          by_contra hne
          exact hok t' task' ht' hne hbusy'
        subst hsame
        obtain rfl := Option.mem_unique ht ht'
        exact Pool.calm_of_safe ht htask'.2 hothers'
    · cases hstep

/-- **The rule for serial runs.**  The pool stays calm. -/
theorem Pool.Calm.of_reach {init : Pool Op Reply ε α Req S → Prop}
    (hinit : ∀ pool, init pool → Inv pool.shared ∧ pool.tasks = [])
    (h : Runs.Reach init (Interleaving.step exec handler) (Serial allowed) pool) :
    pool.Calm exec handler allowed Inv Q Good := by
  refine Runs.Reach.inv ?_ ?_ h
  · intro pool hpool
    obtain ⟨hinv, htasks⟩ := hinit pool hpool
    refine Or.inl ⟨hinv, fun task htask => ?_⟩
    rw [htasks] at htask
    cases htask
  · intro pool a pool' _ hcalm hok hstep
    exact hcalm.keeps hsafe hok hstep

/-- In a calm pool the next operation of a task that may run meets its condition. -/
theorem Pool.Calm.next (h : pool.Calm exec handler allowed Inv Q Good) {t : ℕ}
    (ht : pool.tasks[t]? = some task) {op : Op} {next : Reply op → Prog Op Reply ε α}
    (hprog : task.prog = .act op next) (hok : Serial allowed pool (.run t)) :
    Q task.request op pool.shared := by
  rcases h with ⟨hinv, hall⟩ | ⟨t', task', ht', hbusy', htask', -⟩
  · obtain ⟨hcalm, -⟩ := hall task (List.mem_of_getElem? ht)
    rcases hcalm with ⟨hhandler, hallowed⟩ | ⟨result, hdone, -⟩
    · have hfirst := hsafe task.request pool.shared hallowed hinv
      rw [← hhandler, hprog] at hfirst
      exact hfirst.1
    · rw [hprog] at hdone
      cases hdone
  · have hsame : t' = t := by
      by_contra hne
      exact hok t' task' ht' hne hbusy'
    subst hsame
    obtain rfl := Option.mem_unique ht ht'
    rw [hprog] at htask'
    exact htask'.1

/-- In a calm pool every result is good. -/
theorem Pool.Calm.good (hsome : ∃ s, Inv s) (h : pool.Calm exec handler allowed Inv Q Good)
    (htask : task ∈ pool.tasks) {result : Except ε α} (hprog : task.prog = .done result) :
    Good task.request result := by
  have hcalm : task.Calm handler allowed Good := by
    rcases h with ⟨-, hall⟩ | ⟨t', task', ht', hbusy', -, hothers⟩
    · exact (hall task htask).1
    · obtain ⟨t, ht⟩ := List.mem_iff_getElem?.mp htask
      by_cases hsame : t = t'
      · subst hsame
        obtain rfl := Option.mem_unique ht ht'
        obtain ⟨-, op, next, hbusy⟩ := hbusy'
        rw [hprog] at hbusy
        cases hbusy
      · exact (hothers t task ht hsame).1
  rcases hcalm with ⟨hhandler, hallowed⟩ | ⟨result', hdone, hgood⟩
  · obtain ⟨s, hs⟩ := hsome
    have hfirst := hsafe task.request s hallowed hs
    rw [← hhandler, hprog] at hfirst
    exact hfirst.2
  · rw [hprog] at hdone
    obtain rfl := Prog.done.inj hdone
    exact hgood

end Serial

end Interleaving
