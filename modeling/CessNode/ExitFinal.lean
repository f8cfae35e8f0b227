/-
# Exits

A miner that has left, by its own wish or not, should never be in another state again, and one that
is about to leave should only leave.  The calls of the miners keep to this.  A punishment does not:
it freezes the record of a miner whatever its state, so that the result of a challenge that is still
open brings back a miner that has left.

* `MinerState.Follows` : the states that may follow on a state;
* `Spares` : no miner is punished that has left or is about to, and none is thrown out that has left;
* `exit_final` : in runs with such punishments a state is followed by those states only;
* `exit_frozen` : what happens otherwise.
-/
import CessNode.ChainSteps
import CessNode.ChainRuntime

open Dispatch StorageMap Chain

namespace Sminer

/-! ## States that follow -/

/-- The states that may follow: a miner that has left stays where it is, and one that is about to
leave only leaves. -/
def MinerState.Follows : MinerState → MinerState → Prop
  | .exit, state => state = .exit
  | .offline, state => state = .offline
  | .lock, state => state = .lock ∨ state = .exit ∨ state = .offline
  | _, _ => True

theorem MinerState.Follows.refl (state : MinerState) : state.Follows state := by
  cases state with
  | lock => exact .inl rfl
  | exit | offline => rfl
  | _ => trivial

theorem MinerState.Follows.trans {state state₁ state' : MinerState} (h : state.Follows state₁)
    (h' : state₁.Follows state') : state.Follows state' := by
  cases state with
  | exit | offline =>
    obtain rfl := h
    exact h'
  | lock =>
    rcases h with rfl | rfl | rfl
    · exact h'
    · exact .inr (.inl h')
    · exact .inr (.inr h')
  | _ => trivial

/-- A miner that is neither gone nor about to leave may get into any state. -/
theorem MinerState.Follows.of_working {state : MinerState} (hlock : state ≠ .lock)
    (hexit : state ≠ .exit) (hoffline : state ≠ .offline) (state' : MinerState) :
    state.Follows state' := by
  cases state with
  | lock => exact absurd rfl hlock
  | exit => exact absurd rfl hexit
  | offline => exact absurd rfl hoffline
  | _ => trivial

variable {AccountId : Type}
variable {r r' : Records AccountId} {acc : AccountId}

/-- What a miner does about its own record. -/
theorem MinerInfo.Act.follows {info info' : MinerInfo AccountId} (h : info.Act info') :
    info.state.Follows info'.state := by
  have hworking : ∀ {state}, info.state = state → state ≠ .lock → state ≠ .exit →
      state ≠ .offline → info.state.Follows info'.state := by
    rintro _ rfl hlock hexit hoffline
    exact .of_working hlock hexit hoffline _
  cases h with
  | revise hspace hstate =>
    rcases hstate with heq | ⟨hfrozen, -⟩
    · rw [heq]
      exact .refl _
    · exact hworking hfrozen nofun nofun nofun
  | prove hstate _ _ => exact hworking hstate nofun nofun nofun
  | declare hstate _ _ _ => exact hworking hstate nofun nofun nofun
  | prepare hstate _ => exact hworking hstate nofun nofun nofun

variable [DecidableEq AccountId]

/-- Every miner is still there, in a state that may follow. -/
def Records.Follows (r r' : Records AccountId) : Prop :=
  ∀ acc info, r.miners.lookup acc = some info →
    ∃ info', r'.miners.lookup acc = some info' ∧ info.state.Follows info'.state

theorem Records.Follows.of_miners (h : r'.miners = r.miners) : r.Follows r' := by
  intro acc info hinfo
  exact ⟨info, by rw [h, hinfo], .refl _⟩

/-- The record of one miner is written. -/
theorem Records.Follows.write {info' : MinerInfo AccountId}
    (hminers : r'.miners = r.miners.insert acc info')
    (hfollows : ∀ info, r.miners.lookup acc = some info → info.state.Follows info'.state) :
    r.Follows r' := by
  intro acc₁ info hinfo
  rw [hminers, lookup_insert_ite]
  by_cases heq : acc₁ = acc
  · subst heq
    exact ⟨info', if_pos rfl, hfollows info hinfo⟩
  · exact ⟨info, by rw [if_neg heq, hinfo], .refl _⟩

/-- **The calls of sminer** take no miner back. -/
theorem Records.Act.follows (h : r.Act r') : r.Follows r' := by
  cases h with
  | stay => exact .of_miners rfl
  | register hnew hinfo =>
    refine .write rfl fun info hold => ?_
    rw [hnew] at hold
    cases hold
  | write hinfo hact =>
    refine .write rfl fun info hold => ?_
    obtain rfl := Option.mem_unique hinfo hold
    exact hact.follows
  | withdraw acc => exact .of_miners rfl
  | exit hinfo hstate =>
    refine .write rfl fun info hold => ?_
    obtain rfl := Option.mem_unique hinfo hold
    rw [hstate]
    exact .inr (.inl rfl)

/-- A punishment of a miner that is neither gone nor about to leave. -/
theorem Records.Punish.follows (h : r.Punish acc r')
    (hspared : ∀ info, r.miners.lookup acc = some info →
      info.state ≠ .lock ∧ info.state ≠ .exit ∧ info.state ≠ .offline) : r.Follows r' := by
  cases h with
  | stay => exact .of_miners rfl
  | punish =>
    refine .write rfl fun info hold => ?_
    obtain ⟨hlock, hexit, hoffline⟩ := hspared info hold
    exact .of_working hlock hexit hoffline _

/-- A forced exit of a miner that has not left by itself. -/
theorem Records.Force.follows {cooling : ℕ → Option ℕ} (h : r.Force acc cooling r')
    (hspared : ∀ info, r.miners.lookup acc = some info → info.state ≠ .exit) : r.Follows r' := by
  cases h with
  | stay => exact .of_miners rfl
  | taken => exact .of_miners rfl
  | left => exact .of_miners rfl
  | done =>
    refine .write rfl fun info hold => ?_
    have hexit := hspared info hold
    cases hstate : info.state with
    | exit => exact absurd hstate hexit
    | offline => rfl
    | lock => exact .inr (.inr rfl)
    | _ => trivial

end Sminer

namespace Chain

variable {T : Config}

/-! ## Runs -/

/-- No miner is punished that has left or is about to, and none is thrown out that has left by
itself. -/
def Spares (n : Node T) (a : Action T) : Prop :=
  (∀ miner ∈ n.punished a, ∀ info ∈ n.world.miner.minerItems.lookup miner,
    info.state ≠ .lock ∧ info.state ≠ .exit ∧ info.state ≠ .offline) ∧
  ∀ miner ∈ n.expelled a, ∀ info ∈ n.world.miner.minerItems.lookup miner, info.state ≠ .exit

instance (n : Node T) (a : Action T) : Decidable (Spares n a) := by
  unfold Spares
  infer_instance

variable {n n' : Node T} {a : Action T}

/-- **Every step takes a miner to a state that may follow.** -/
theorem step_follows (hok : Spares n a) (hstep : n.step a = some n') :
    n.world.records.Follows n'.world.records := by
  cases hb : a.bank n with
  | some b =>
    intro acc info hinfo
    have hminers := FileBank.step_miners (step_bank hstep hb).1 (bank_ne_external hb)
    obtain ⟨info', hinfo', hstays⟩ := hminers.info acc info hinfo
    refine ⟨info', hinfo', ?_⟩
    rw [hstays.state]
    exact .refl _
  | none =>
    obtain ⟨hpunished, hexpelled⟩ := hok
    rcases (step_aside hstep hb).records with hact | ⟨miner, r, hminer, hpunish, hrest⟩
    · exact hact.follows
    · have hspared := hpunished miner hminer
      have hfirst : n.world.records.Follows r := hpunish.follows hspared
      rcases hrest with heq | ⟨hout, hforce⟩
      · rw [heq]
        exact hfirst
      · -- a punishment makes no miner leave
        have hsecond : r.Follows n'.world.records := by
          refine hforce.follows fun info hinfo hexit => ?_
          cases hpunish with
          | stay => exact (hspared info hinfo).2.1 hexit
          | @punish info₀ info₁ hinfo₀ hspace hstate =>
            have hlookup : (n.world.records.miners.insert miner info₁).lookup miner =
              some info := hinfo
            rw [lookup_insert_ite, if_pos rfl] at hlookup
            obtain rfl := Option.some.inj hlookup
            rcases hstate with hsame | hfrozen
            · exact (hspared info₀ hinfo₀).2.1 (hsame.symm.trans hexit)
            · rw [hfrozen] at hexit
              cases hexit
        intro acc info hinfo
        obtain ⟨info₁, hinfo₁, hfollows₁⟩ := hfirst acc info hinfo
        obtain ⟨info', hinfo', hfollows⟩ := hsecond acc info₁ hinfo₁
        exact ⟨info', hinfo', hfollows₁.trans hfollows⟩

/-- **Exit is final.**  In a run in which no miner is punished that has left or is about to leave,
and none is thrown out that has left, a miner that has left stays in its state, and one that is about
to leave stays in its state or leaves. -/
theorem exit_final (hrun : Runs.Reach (fun m => m = n) Node.step Spares n') {miner : T.AccountId}
    {info : Sminer.MinerInfo T.AccountId} (hinfo : n.world.miner.minerItems.lookup miner = some info) :
    ∃ info', n'.world.miner.minerItems.lookup miner = some info' ∧
      (info.state = .exit → info'.state = .exit) ∧
      (info.state = .offline → info'.state = .offline) ∧
      (info.state = .lock → info'.state = .lock ∨ info'.state = .exit ∨ info'.state = .offline) := by
  have hfollows : n.world.records.Follows n'.world.records := by
    refine Runs.Reach.inv (P := fun m => n.world.records.Follows m.world.records) ?_ ?_ hrun
    · rintro m rfl
      exact .of_miners rfl
    · intro m a m' _ hm hok hstep acc info hinfo
      obtain ⟨info₁, hinfo₁, hfollows₁⟩ := hm acc info hinfo
      obtain ⟨info', hinfo', hfollows⟩ := step_follows hok hstep acc info₁ hinfo₁
      exact ⟨info', hinfo', hfollows₁.trans hfollows⟩
  obtain ⟨info', hinfo', hstate⟩ := hfollows miner info hinfo
  refine ⟨info', hinfo', ?_, ?_, ?_⟩
  · intro hexit
    rw [hexit] at hstate
    exact hstate
  · intro hoffline
    rw [hoffline] at hstate
    exact hstate
  · intro hlock
    rw [hlock] at hstate
    exact hstate

/-! ## Concrete runs -/

/-- The miner 10 misses a challenge in its first days.  After the end of the staking period it
prepares its exit, in block 2592050. -/
def preparing : List (Runs.Part (Action runtime)) :=
  challenged 100 ++ [.idle 81] ++ visitingBlock ++ [.idle 602] ++ visitingBlock ++
    [.idle 2548165, .act (.call (.sminer (.minerExitPrep (10 : ℕ) (10 : ℕ))))]

/-- Shortly before the exit the miner is challenged again; it leaves in block 2808050, before the
end of this challenge. -/
def leaving : List (Runs.Part (Action runtime)) :=
  [.idle 215949] ++ freshBlock ++ [.idle 49, .act .newBlock, .act (.minerExit (10 : ℕ))] ++
    List.replicate 5 (.act .hook)

/-- The state of the miner 10. -/
def Node.stateOfTen (n : Node runtime) : Option Sminer.MinerState :=
  (n.world.miner.minerItems.lookup (10 : ℕ)).map (·.state)

/-- A miner leaves. -/
theorem exit_final_leaving :
    ∃ (n n' : Node runtime) (info info' : Sminer.MinerInfo ℕ),
      Reached (fun _ _ => True) n ∧ Runs.Reach (fun m => m = n) Node.step Spares n' ∧
      n.world.miner.minerItems.lookup (10 : ℕ) = some info ∧ info.state = .lock ∧
      n'.world.miner.minerItems.lookup (10 : ℕ) = some info' ∧
      (info'.state = .lock ∨ info'.state = .exit ∨ info'.state = .offline) := by
  obtain ⟨n, hn, hcheck⟩ := exists_run preparing (fun n =>
    decide (n.stateOfTen = some .lock) && decide (Spares n (.minerExit (10 : ℕ))) &&
      (n.step (.minerExit (10 : ℕ))).isSome) (by decide +kernel)
  simp only [Bool.and_eq_true, decide_eq_true_eq, Option.isSome_iff_exists] at hcheck
  obtain ⟨⟨hstate, hok⟩, n', hstep⟩ := hcheck
  obtain ⟨info, hinfo, hlock⟩ := Option.map_eq_some_iff.mp hstate
  have hrun : Runs.Reach (fun m => m = n) Node.step Spares n' := .next (.start rfl) hok hstep
  obtain ⟨info', hinfo', -, -, hleft⟩ := exit_final hrun hinfo
  exact ⟨n, n', info, info', hn, hrun, hinfo, hlock, hinfo', hleft hlock⟩

/-- The miner misses the challenge that was open when it left, and is frozen. -/
theorem exit_frozen :
    ∃ (n n' : Node runtime) (info info' : Sminer.MinerInfo ℕ),
      Reached (fun _ _ => True) n ∧ n.step .hook = some n' ∧
      n.world.miner.minerItems.lookup (10 : ℕ) = some info ∧ info.state = .exit ∧
      n'.world.miner.minerItems.lookup (10 : ℕ) = some info' ∧ info'.state = .frozen := by
  obtain ⟨n, hn, hcheck⟩ := exists_run
    (preparing ++ leaving ++ [.idle 31, .act .newBlock, .act .hook, .act .hook, .act .hook])
    (fun n => decide (n.stateOfTen = some .exit) &&
      (n.step .hook).any fun n' : Node runtime => decide (n'.stateOfTen = some .frozen))
    (by decide +kernel)
  simp only [Bool.and_eq_true, decide_eq_true_eq, Option.any_eq_true] at hcheck
  obtain ⟨hstate, n', hstep, hstate'⟩ := hcheck
  obtain ⟨info, hinfo, hexit⟩ := Option.map_eq_some_iff.mp hstate
  obtain ⟨info', hinfo', hfrozen⟩ := Option.map_eq_some_iff.mp hstate'
  exact ⟨n, n', info, info', hn, hstep, hinfo, hexit, hinfo', hfrozen⟩

end Chain
