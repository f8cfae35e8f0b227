/-
# Requests to leave

A miner, or the account that has paid its collateral, asks for the exit of the miner.  The request
names the miner, and everything it does should be about that one.  The code takes the record of the
account that asks instead: the lock and the scheduled exit are those of the named miner, the checks
and the new state those of the sender.

* `Request` : what the code checks, with the values it finds;
* `run_minerExitPrep_ok` : what a request writes;
* `ActsOn` : what a request should do;
* `minerExitPrep_iff` : it does so if a miner asks for itself, or nobody can;
* `exit_of_another` : a miner that asks in the name of another one.
-/
import CessNode.MinerRecords
import CessNode.ChainRuntime

open Dispatch StorageMap Chain

namespace Sminer

variable {T : Config} {w w' : Chain.World T} {u : Unit} {sender miner : T.AccountId}

/-- **What the code checks**: the named miner is not locked and has been at stake for long enough,
the record of the sender is that of a working miner without locked space, and the exit can be
scheduled. -/
structure Request (w : Chain.World T) (sender miner : T.AccountId) (info : MinerInfo T.AccountId)
    (lockTime : ℕ) (agenda : T.Agenda) : Prop where
  unlocked : ∀ lockTime ∈ w.miner.minerLock.lookup miner, w.now > lockTime
  staked : ∃ start, w.miner.stakingStartBlock.lookup miner = some start ∧
    w.now > wrappingAdd 32 start T.stakingLockBlock
  record : w.miner.minerItems.lookup sender = some info
  entitled : sender = miner ∨ sender = info.stakingAccount
  positive : info.state = .positive
  unused : info.lockSpace = 0
  time : (checkedMul 32 T.oneDay 15).bind (checkedAdd 32 · w.now) = some lockTime
  scheduled : T.scheduleExit w.bank.storage.agenda miner lockTime = some agenda

/-- **What a request writes.** -/
theorem run_minerExitPrep_ok : (minerExitPrep T sender miner).run w = .ok u w' ↔
    ∃ info lockTime agenda, Request w sender miner info lockTime agenda ∧
      { w with
        bank := { w.bank with
          storage := { w.bank.storage with agenda := agenda }
          miner := { w.miner with
            minerItems := w.miner.minerItems.insert sender { info with state := .lock }
            minerLock := w.miner.minerLock.insert miner lockTime } }
        events := w.events ++ [.minerExitPrep miner] } = w' := by
  simp only [minerExitPrep, miner_ok, run_ok, existsAndEq]
  constructor
  · rintro ⟨hunlocked, start, hstart, hstaked, info, hinfo, hentitled, hstate, hlock, days, hdays,
      lockTime, htime, agenda, hagenda, rfl⟩
    refine ⟨info, lockTime, agenda, ⟨hunlocked, ⟨start, hstart, hstaked⟩, hinfo, hentitled, hstate,
      hlock, ?_, hagenda⟩, rfl⟩
    rw [hdays]
    exact htime
  · rintro ⟨info, lockTime, agenda, h, rfl⟩
    obtain ⟨start, hstart, hstaked⟩ := h.staked
    obtain ⟨days, hdays, htime⟩ := Option.bind_eq_some_iff.mp h.time
    exact ⟨h.unlocked, start, hstart, hstaked, info, h.record, h.entitled, h.positive, h.unused,
      days, hdays, lockTime, htime, agenda, h.scheduled, rfl⟩

/-- **What a request should do**: it comes from the miner or from its staking account, the record of
the miner gets locked, the lock and the scheduled exit are those of the miner, and no other record
changes. -/
structure ActsOn (w w' : Chain.World T) (sender miner : T.AccountId) : Prop where
  entitled : ∃ info, w.miner.minerItems.lookup miner = some info ∧
    (sender = miner ∨ sender = info.stakingAccount)
  locked : ∃ info, w'.miner.minerItems.lookup miner = some info ∧ info.state = .lock
  scheduled : ∃ lockTime, w'.miner.minerLock = w.miner.minerLock.insert miner lockTime ∧
    T.scheduleExit w.bank.storage.agenda miner lockTime = some w'.bank.storage.agenda
  others : ∀ acc, acc ≠ miner → w'.miner.minerItems.lookup acc = w.miner.minerItems.lookup acc

/-- **When a request acts on the named miner only**: the miner asks for itself, or the request is
refused. -/
theorem minerExitPrep_iff (w : Chain.World T) (sender miner : T.AccountId) :
    (∀ u w', (minerExitPrep T sender miner).run w = .ok u w' → ActsOn w w' sender miner) ↔
      (sender = miner ∨ ¬ ∃ info lockTime agenda, Request w sender miner info lockTime agenda) := by
  constructor
  · rw [or_iff_not_imp_left]
    rintro h hne ⟨info, lockTime, agenda, hrequest⟩
    -- the record of the sender is another one, and gets locked
    have hothers := (h () _ (run_minerExitPrep_ok.mpr ⟨info, lockTime, agenda, hrequest, rfl⟩)).others
      sender hne
    rw [hrequest.record] at hothers
    have hstate := congrArg MinerInfo.state
      (Option.mem_unique (AList.lookup_insert w.miner.minerItems) hothers)
    rw [hrequest.positive] at hstate
    cases hstate
  · intro h u w' hrun
    obtain ⟨info, lockTime, agenda, hrequest, rfl⟩ := run_minerExitPrep_ok.mp hrun
    obtain rfl := h.resolve_right (not_not.mpr ⟨info, lockTime, agenda, hrequest⟩)
    refine ⟨⟨info, hrequest.record, .inl rfl⟩, ⟨_, AList.lookup_insert _, rfl⟩,
      ⟨lockTime, rfl, hrequest.scheduled⟩, fun acc hacc => AList.lookup_insert_ne hacc⟩

end Sminer

namespace Chain

/-- Two miners join after the first challenges and work until the end of the staking period. -/
def twoMiners : List (Runs.Part (Action runtime)) :=
  [.idle 43199] ++ freshBlock ++ joining (10 : ℕ) 100 ++ joining (11 : ℕ) 100 ++ [.idle 2592001]

/-- **A miner that asks in the name of another one**: its own record is locked, without a lock time
and without an exit that is scheduled, and the exit of the other one is scheduled although its record
is not locked. -/
theorem exit_of_another : ∃ (n : Node runtime) (w : World runtime), Reached (fun _ _ => True) n ∧
    (Sminer.minerExitPrep runtime (11 : ℕ) (10 : ℕ)).run n.world = .ok () w ∧
    ((w.miner.minerItems.lookup (10 : ℕ)).map (·.state) = some .positive ∧
      w.miner.minerLock.lookup (10 : ℕ) ≠ none) ∧
    (w.miner.minerItems.lookup (11 : ℕ)).map (·.state) = some .lock ∧
      w.miner.minerLock.lookup (11 : ℕ) = none := by
  obtain ⟨n, hn, hcheck⟩ := exists_run twoMiners (fun n =>
    match (Sminer.minerExitPrep runtime (11 : ℕ) (10 : ℕ)).run n.world with
    | .ok _ w => decide (((w.miner.minerItems.lookup (10 : ℕ)).map (·.state) = some .positive ∧
        w.miner.minerLock.lookup (10 : ℕ) ≠ none) ∧
      (w.miner.minerItems.lookup (11 : ℕ)).map (·.state) = some .lock ∧
        w.miner.minerLock.lookup (11 : ℕ) = none)
    | .error _ _ => false) (by decide +kernel)
  cases hrun : (Sminer.minerExitPrep runtime (11 : ℕ) (10 : ℕ)).run n.world with
  | ok u w =>
    rw [hrun] at hcheck
    exact ⟨n, w, hn, hrun, of_decide_eq_true hcheck⟩
  | error e w =>
    rw [hrun] at hcheck
    cases hcheck

end Chain
