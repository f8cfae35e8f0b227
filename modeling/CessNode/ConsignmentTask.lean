/-
# The task behind a purchase

`buy_consignment` locks the consignment and puts `exec_consignment` on the schedule under the
name of the token.  Only that task, or `cancel_purchase_action` through the task, opens the
lock again, and a task that fails is gone.  `exec_consignment` asks the buyer for the price
in free balance on top of the price in reserve, so it can fail for a buyer who has paid.

* `World.Scheduled` : every locked consignment has its task;
* `locked_without_task` : what a lock without a task means;
* `purchases_not_stuck` : the runs in which that does not happen.
-/
import CessNode.ConsignmentEscrow

open Dispatch StorageMap

namespace StorageHandler

variable {T : Config} {s s' : World T} {token : TokenId}
variable {c : ConsignmentInfo T.AccountId} {n n' : Node T}

/-! ## Locks and tasks -/

/-- A task is filed under its token, and a locked consignment has a buyer and a task for the
block it names. -/
structure World.Scheduled (s : World T) : Prop where
  named : ∀ name block task, T.pending s.agenda name = some (block, task) → task.token = name
  locked : ∀ token c, s.consignment.lookup token = some c → c.locked = true →
    ∃ buyer block name, c.buyers = some buyer ∧ c.exec = some block ∧
      T.pending s.agenda token = some (block, ⟨token, name⟩)

/-- The consignments left are as they were, and so are the tasks. -/
theorem World.Scheduled.shrink (h : s.Scheduled)
    (htasks : ∀ name, T.pending s'.agenda name = T.pending s.agenda name)
    (hsub : ∀ token c, s'.consignment.lookup token = some c → s.consignment.lookup token = some c) :
    s'.Scheduled where
  named := fun name block task hpending => h.named name block task (htasks name ▸ hpending)
  locked := by
    intro token c hc hlocked
    rw [htasks token]
    exact h.locked token c (hsub token c hc) hlocked

/-- The tasks of other tokens are as they were, and the consignment of this one is right. -/
theorem World.Scheduled.relist (h : s.Scheduled)
    (hnamed : ∀ block task, T.pending s'.agenda token = some (block, task) → task.token = token)
    (htasks : ∀ name, name ≠ token → T.pending s'.agenda name = T.pending s.agenda name)
    (hconsignment : s'.consignment = s.consignment.insert token c)
    (hlocked : c.locked = true → ∃ buyer block name, c.buyers = some buyer ∧
      c.exec = some block ∧ T.pending s'.agenda token = some (block, ⟨token, name⟩)) :
    s'.Scheduled where
  named := by
    intro name block task hpending
    by_cases hname : name = token
    · rw [hname] at hpending ⊢
      exact hnamed block task hpending
    · rw [htasks name hname] at hpending
      exact h.named name block task hpending
  locked := by
    intro token' c' hc' hlocked'
    rw [hconsignment, lookup_insert_ite] at hc'
    split_ifs at hc' with htoken
    · obtain rfl := Option.some.inj hc'
      rw [htoken]
      exact hlocked hlocked'
    · rw [htasks token' htoken]
      exact h.locked token' c' hc' hlocked'

/-! ## Calls and the hook -/

/-- **Every call keeps the tasks of locked consignments.** -/
theorem Call.code_scheduled (hlaw : LawfulScheduler T) (call : Call T) {u : Unit}
    (h : (call.code T).run s = .ok u s') (hs : s.Scheduled) : s'.Scheduled := by
  cases call.code_ran h with
  | @territoryConsignment _ _ _ t =>
    exact hs.relist (hs.named t.token) (fun _ _ => rfl) rfl (fun hlocked => by cases hlocked)
  | @buyConsignment sender token rename _ _ agenda _ _ _ _ hschedule =>
    have hpending := hlaw.schedule hschedule
    have htoken : T.pending agenda token =
        some (s.now + T.lockingBlock, ⟨token, rename⟩) := by
      rw [hpending token, if_pos rfl]
    refine hs.relist ?_ (fun name hname => ?_) rfl ?_
    · intro block task htask
      rw [show T.pending _ token = _ from htoken] at htask
      obtain ⟨-, rfl⟩ := Prod.mk.inj (Option.some.inj htask)
      rfl
    · exact (hpending name).trans (if_neg hname)
    · intro _
      exact ⟨sender, _, rename, rfl, rfl, htoken⟩
  | execConsignment | cancelConsignment =>
    exact hs.shrink (fun _ => rfl) fun _ _ hc => lookup_of_erase hc
  | @cancelPurchaseAction _ token _ agenda _ _ hcancel =>
    have hpending := hlaw.cancel hcancel
    refine hs.relist ?_ (fun name hname => ?_) rfl (fun hlocked => by cases hlocked)
    · intro block task htask
      rw [hpending token, if_pos rfl] at htask
      cases htask
    · exact (hpending name).trans (if_neg hname)
  | _ => exact ⟨hs.named, hs.locked⟩

/-- The hook removes consignments and leaves the rest as it is. -/
theorem lookup_consignment_frozenTask {b : Book T}
    (h : b.frozenTask.consignment.lookup token = some c) : b.consignment.lookup token = some c := by
  refine Book.frozenTask_keeps (Q := fun b' => b'.consignment.lookup token = some c →
    b.consignment.lookup token = some c) ?_ ?_ id h
  · intro b' token' hb' hc
    refine hb' ?_
    rcases b'.freeze_cases token' with heq | ⟨key, t, -, ⟨-, heq⟩ | ⟨-, heq⟩⟩ <;> rw [heq] at hc
    · exact hc
    · exact Book.lookup_dropped hc
    · exact Book.lookup_dropped hc
  · intro b' token' hb' hc
    refine hb' ?_
    rcases b'.expire_cases token' with heq | ⟨key, t, -, -, heq⟩ <;> rw [heq] at hc <;> exact hc

theorem World.Scheduled.frozenTask (hs : s.Scheduled) :
    (after (StorageHandler.frozenTask T) s).Scheduled := by
  have hagenda := (keeps_frozenTask (T := T) s).agenda
  have hconsignment : (after (StorageHandler.frozenTask T) s).consignment =
      s.book.frozenTask.consignment := congrArg Book.consignment (after_frozenTask_book s)
  refine hs.shrink (fun _ => by rw [hagenda]) ?_
  intro token c hc
  rw [hconsignment] at hc
  exact lookup_consignment_frozenTask hc

/-! ## The dispatch of a task -/

/-- When `exec_consignment` succeeds. -/
theorem run_execConsignment (name : TerrName) {buyer : T.AccountId} {key : T.AccountId × TerrName}
    {t : TerritoryInfo} {ledger : T.Ledger} (hc : s.consignment.lookup token = some c)
    (hbuyer : c.buyers = some buyer) (hlocked : c.locked = true)
    (hslash : T.canSlash s.ledger buyer c.price = true)
    (hkey : s.territoryKey.lookup token = some key) (ht : s.territory.lookup key = some t)
    (hstate : t.state = .onConsignment)
    (htransfer : T.transfer (T.unreserve s.ledger buyer c.price) buyer key.1 c.price =
      some ledger) : ∃ s', (execConsignment T token name).run s = .ok () s' := by
  simp only [execConsignment, run_ok, run_currencyTransfer_ok, run_depositEvent_ok, existsAndEq]
  exact ⟨c, hc, buyer, hbuyer, hlocked, hslash, key, hkey, t, ht, hstate, ledger, htransfer, trivial⟩

/-- The task of `token` finds everything it asks for: the buyer of a locked consignment has the
price in free balance, on top of the reserve; the territory is on consignment; and the currency
moves the price to the holder. -/
def World.Executable (s : World T) (token : TokenId) : Prop :=
  ∀ c buyer, s.consignment.lookup token = some c → c.locked = true → c.buyers = some buyer →
    T.canSlash s.ledger buyer c.price = true ∧
      ∃ key t, s.territoryKey.lookup token = some key ∧ s.territory.lookup key = some t ∧
        t.state = .onConsignment ∧
        T.transfer (T.unreserve s.ledger buyer c.price) buyer key.1 c.price ≠ none

/-- What the dispatch of a task did to a locked consignment: the price went from the reserve of
the buyer to the holder, and the territory to the buyer. -/
def Delivered (s s' : World T) (token : TokenId) (c : ConsignmentInfo T.AccountId) : Prop :=
  ∃ buyer key t name, c.buyers = some buyer ∧ s.territoryKey.lookup token = some key ∧
    s.territory.lookup key = some t ∧
    T.transfer (T.unreserve s.ledger buyer c.price) buyer key.1 c.price = some s'.ledger ∧
    s'.territory.lookup (buyer, name) = some { t with state := .active } ∧
    s'.consignment.lookup token = none

/-- An executable task of a locked consignment succeeds. -/
theorem step_serve_delivered (hs : n.world.Scheduled) (hexec : n.world.Executable token)
    (hstep : n.step (.serve token) = some n') (hc : n.world.consignment.lookup token = some c)
    (hlocked : c.locked = true) : Delivered n.world n'.world token c := by
  obtain ⟨block, task, hpending, -, -, rfl⟩ := step_serve_eq hstep
  obtain rfl := hs.named token block task hpending
  obtain ⟨buyer, -, -, hbuyer, -, -⟩ := hs.locked _ c hc hlocked
  obtain ⟨hslash, key, t, hkey, ht, hstate, htransfer⟩ := hexec c buyer hc hlocked hbuyer
  obtain ⟨ledger, hledger⟩ := Option.ne_none_iff_exists'.mp htransfer
  obtain ⟨s', hrun⟩ := run_execConsignment task.territoryName
    (s := { n.world with agenda := T.dispatched n.world.agenda task.token })
    hc hbuyer hlocked hslash hkey ht hstate hledger
  rw [after_of_ok (run_transactional_ok.mpr hrun)]
  cases Call.code_ran (.execConsignment task.token task.territoryName) hrun with
  | execConsignment hc' hbuyer' _ hkey' ht' _ hledger' =>
    obtain rfl := Option.mem_unique hc hc'
    obtain rfl := Option.mem_unique hbuyer hbuyer'
    exact ⟨buyer, _, _, task.territoryName, hbuyer, hkey', ht', hledger',
      AList.lookup_insert _, AList.lookup_erase _ _⟩

/-- A task that leaves no locked consignment behind keeps the tasks of the others. -/
theorem World.Scheduled.dispatched (hlaw : LawfulScheduler T) (hs : s.Scheduled)
    (hagenda : s'.agenda = T.dispatched s.agenda token)
    (hsub : ∀ token' c, s'.consignment.lookup token' = some c → c.locked = true →
      s.consignment.lookup token' = some c ∧ token' ≠ token) : s'.Scheduled where
  named := by
    intro name block task hpending
    rw [hagenda, hlaw.dispatched] at hpending
    split_ifs at hpending
    exact hs.named name block task hpending
  locked := by
    intro token' c hc hlocked
    obtain ⟨hc', hne⟩ := hsub token' c hc hlocked
    rw [hagenda, hlaw.dispatched, if_neg hne]
    exact hs.locked token' c hc' hlocked

/-! ## Runs -/

/-- A dispatched task is executable, and other pallets leave the tasks of this one alone. -/
def TaskSafe (n : Node T) : Action T → Prop
  | .serve token => n.world.Executable token
  | .external _ agenda => ∀ name, T.pending agenda name = T.pending n.world.agenda name
  | _ => True

theorem step_serve_scheduled (hlaw : LawfulScheduler T) (hexec : n.world.Executable token)
    (hstep : n.step (.serve token) = some n') (hs : n.world.Scheduled) : n'.world.Scheduled := by
  obtain ⟨block, task, hpending, -, -, -, hrun | hworld⟩ := step_serve hstep
  · obtain rfl := hs.named token block task hpending
    have hran := Call.code_ran (.execConsignment task.token task.territoryName) hrun
    generalize n'.world = s' at hran ⊢
    cases hran
    refine hs.dispatched hlaw rfl ?_
    intro token' c' hc' _
    refine ⟨lookup_of_erase hc', ?_⟩
    rintro rfl
    rw [AList.lookup_erase] at hc'
    cases hc'
  · rw [hworld]
    refine hs.dispatched hlaw rfl ?_
    intro token' c' hc' hlocked
    refine ⟨hc', ?_⟩
    -- an executable task of a locked consignment would have removed it
    rintro rfl
    obtain ⟨-, -, -, -, -, -, -, -, -, hgone⟩ := step_serve_delivered hs hexec hstep hc' hlocked
    rw [hworld] at hgone
    cases hc'.symm.trans hgone

theorem step_scheduled (hlaw : LawfulScheduler T) {a : Action T} (hok : TaskSafe n a)
    (hstep : n.step a = some n') (hs : n.world.Scheduled) : n'.world.Scheduled := by
  cases a with
  | newBlock =>
    obtain ⟨-, -, rfl⟩ := step_newBlock hstep
    exact ⟨hs.named, hs.locked⟩
  | serve token => exact step_serve_scheduled hlaw hok hstep hs
  | frozenTask =>
    obtain ⟨-, rfl⟩ := step_frozenTask hstep
    exact hs.frozenTask
  | call c =>
    obtain ⟨-, -, hrun | hworld⟩ := step_call hstep
    · exact Call.code_scheduled hlaw c hrun hs
    · rw [hworld]
      exact hs
  | handle op =>
    obtain ⟨-, hrun | hworld⟩ := step_handle hstep
    · obtain ⟨territory, idle, service, hs'⟩ := HandleOp.code_frame hrun
      rw [hs']
      exact ⟨hs.named, hs.locked⟩
    · rw [hworld]
      exact hs
  | external =>
    obtain rfl := step_external hstep
    exact hs.shrink hok fun _ _ hc => hc

theorem Reached.scheduled (hlaw : LawfulScheduler T) (hn : Reached TaskSafe n) :
    n.world.Scheduled := by
  refine Runs.Reach.inv (P := fun n => n.world.Scheduled) ?_ ?_ hn
  · rintro _ ⟨ledger, agenda, price, rfl, -, hpending⟩
    refine ⟨fun name block task h => ?_, fun _ _ hc => by cases hc⟩
    replace h : T.pending agenda name = some (block, task) := h
    rw [hpending name] at h
    cases h
  · intro n a n' _ hs hok hstep
    exact step_scheduled hlaw hok hstep hs

/-- **A purchase does not get stuck.**  In every safe run, a locked consignment has its task
pending for the block it names; and when that task is dispatched and executable, the price
reaches the holder, the territory reaches the buyer and the consignment is gone. -/
theorem purchases_not_stuck (hlaw : LawfulScheduler T) {n : Node T} (hn : Reached TaskSafe n)
    {token : TokenId} {c : ConsignmentInfo T.AccountId}
    (hc : n.world.consignment.lookup token = some c) (hlocked : c.locked = true) :
    (∃ block name, c.exec = some block ∧
      T.pending n.world.agenda token = some (block, ⟨token, name⟩)) ∧
      ∀ n', n.world.Executable token → n.step (.serve token) = some n' →
        Delivered n.world n'.world token c := by
  have hs := hn.scheduled hlaw
  obtain ⟨-, block, name, -, hexec, hpending⟩ := hs.locked token c hc hlocked
  refine ⟨⟨block, name, hexec, hpending⟩, ?_⟩
  intro n' hexecutable hstep
  exact step_serve_delivered hs hexecutable hstep hc hlocked

/-- **A lock without a task stays.**  Neither the buyer nor the holder can undo it. -/
theorem locked_without_task (hlaw : LawfulScheduler T) (hc : s.consignment.lookup token = some c)
    (hlocked : c.locked = true) (hpending : T.pending s.agenda token = none) :
    (∀ sender u, (cancelPurchaseAction T sender token).run s ≠ .ok u s') ∧
      ∀ sender name t u, s.territory.lookup (sender, name) = some t → t.token = token →
        (cancelConsignment T sender name).run s ≠ .ok u s' := by
  constructor
  · intro sender u hrun
    cases Call.code_ran (.cancelPurchaseAction sender token) hrun with
    | cancelPurchaseAction _ _ hcancel => exact hlaw.cancel_pending hcancel hpending
  · rintro sender name t u ht rfl hrun
    cases Call.code_ran (.cancelConsignment sender name) hrun with
    | cancelConsignment ht' _ hc' hunlocked =>
      obtain rfl := Option.mem_unique ht ht'
      obtain rfl := Option.mem_unique hc hc'
      rw [hlocked] at hunlocked
      cases hunlocked

/-- No task is dispatched and no other pallet acts. -/
def Action.quiet : Action T → Bool
  | .serve _ => false
  | .external _ _ => false
  | _ => true

theorem TaskSafe.of_quiet (n : Node T) (a : Action T) (h : a.quiet = true) : TaskSafe n a := by
  cases a with
  | serve token => cases h
  | external => cases h
  | _ => trivial

/-- The theorem at a chain in whose 51st block the task of a purchase is due. -/
theorem purchases_not_stuck_due : ∃ (n n' : Node runtime) (c : ConsignmentInfo runtime.AccountId),
    n.world.consignment.lookup (newToken runtime alice 1 nameA) = some c ∧ c.locked = true ∧
      (∃ block name, c.exec = some block ∧
        runtime.pending n.world.agenda (newToken runtime alice 1 nameA) =
          some (block, ⟨newToken runtime alice 1 nameA, name⟩)) ∧
      Delivered n.world n'.world (newToken runtime alice 1 nameA) c := by
  have hrun : ((start (10 ^ 20)).runs Action.quiet
      (boughtLease.map .act ++ [.idle 49, .act .newBlock])).any
      (fun n => (n.world.consignment.lookup (newToken runtime alice 1 nameA)).any (fun c =>
        c.locked && decide (c.buyers = some bob) && runtime.canSlash n.world.ledger bob c.price &&
        (n.world.territoryKey.lookup (newToken runtime alice 1 nameA)).any fun key =>
          (n.world.territory.lookup key).any fun t => decide (t.state = .onConsignment) &&
            (runtime.transfer (runtime.unreserve n.world.ledger bob c.price) bob key.1
              c.price).isSome) &&
        (n.step (.serve (newToken runtime alice 1 nameA))).isSome) = true := by
    decide +kernel
  obtain ⟨n, hn, hcheck⟩ := Reached.exists_of_runs rfl rfl (start_reached _) hrun
  simp only [Bool.and_eq_true, Option.any_eq_true, decide_eq_true_eq] at hcheck
  obtain ⟨⟨c, hc, ⟨⟨hlocked, hbuyer⟩, hslash⟩, key, hkey, t, ht, hstate, htransfer⟩, hstep⟩ :=
    hcheck
  obtain ⟨n', hn'⟩ := Option.isSome_iff_exists.mp hstep
  have hexec : n.world.Executable (newToken runtime alice 1 nameA) := by
    intro c' buyer hc' _ hbuyer'
    obtain rfl := Option.mem_unique hc hc'
    obtain rfl := Option.mem_unique hbuyer hbuyer'
    exact ⟨hslash, key, t, hkey, ht, hstate, Option.isSome_iff_ne_none.mp htransfer⟩
  have hsafe : Reached TaskSafe n := Runs.Reach.mono TaskSafe.of_quiet hn
  obtain ⟨hpending, hserve⟩ := purchases_not_stuck runtime_lawfulScheduler hsafe hc hlocked
  exact ⟨n, n', c, hc, hlocked, hpending, hserve n' hexec hn'⟩

/-- Without the condition: a buyer who has more than half of the money in reserve cannot show
the price once more in free balance; the task fails, and the lock stays without a task. -/
theorem failed_task_leaves_lock : ∃ n : Node runtime, Reached OwnSteps n ∧
    ∃ token c, n.world.consignment.lookup token = some c ∧ c.locked = true ∧
      runtime.pending n.world.agenda token = none := by
  have hrun : ((start (10 ^ 20)).runs Action.own (firstBlock.map .act ++
      [.act (.call (.mintTerritory alice 1 nameA 30)),
        .act (.call (.territoryConsignment alice nameA (6 * 10 ^ 19))),
        .act (.call (.buyConsignment bob (newToken runtime alice 1 nameA) nameB)),
        .idle 49, .act .newBlock, .act (.serve (newToken runtime alice 1 nameA))])).any
      (fun n => (n.world.consignment.lookup (newToken runtime alice 1 nameA)).any fun c =>
        c.locked && (runtime.pending n.world.agenda (newToken runtime alice 1 nameA)).isNone) =
      true := by
    decide +kernel
  obtain ⟨n, hn, hcheck⟩ := Reached.exists_of_own (start_reached _) hrun
  obtain ⟨c, hc, hc'⟩ := (Option.any_eq_true _ _).mp hcheck
  rw [Bool.and_eq_true] at hc'
  exact ⟨n, hn, _, c, hc, hc'.1, Option.isNone_iff_eq_none.mp hc'.2⟩

end StorageHandler
