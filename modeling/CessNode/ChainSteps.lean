/-
# What a step of the chain can do

A step of the chain is either a step of the file bank and storage-handler, or it leaves files,
deals and territories alone and does one of a few things to the records of the miners.  This file
says so once for all steps:

* `Action.bank` and `step_bank` : the steps of the file bank and storage-handler;
* `Node.punished` and `Node.expelled` : the miner that a step punishes or throws out;
* `step_beside` : the other steps, by the code that runs;
* `step_aside` : what they do;
* `step_now`, `step_book`, `step_hook` and `step_phase` : what moves the clock, the challenges and
  the phase;
* `Reached.bank` : the chain refines the one of the file bank, for which everything that the
  other pallets do is a change from outside.  What holds in every reached state of that chain
  holds here as well.
-/
import CessNode.ChainRuns
import CessNode.AuditRecords
import CessNode.FileBankFrame

open Dispatch StorageMap

namespace Chain

variable {T : Config}
variable {miner : T.AccountId} {rest : List T.AccountId} {n : Node T}

/-! ## Steps of the file bank -/

/-- The step of the file bank that an action is. -/
def Action.bank (n : Node T) : Action T → Option (FileBank.Action T.toBank)
  | .newBlock => some (.storage .newBlock)
  | .serve name => some (.storage (.serve name))
  | .clearFile acc fileHash => some (.clearFile acc fileHash)
  | .hook => match n.phase with
    | .initializing => some .onInitialize
    | _ => none
  | .call (.storage c) => some (.storage (.call c))
  | .call (.fileBank c) => some (.call c)
  | _ => none

theorem Phase.eq_executing {AccountId : Type} {phase : Phase AccountId} (h : phase.calling = true) :
    phase = .executing := by
  cases phase <;> first | rfl | cases h

section Steps

variable {n n' : Node T} {a : Action T}

/-- **A step of the file bank**, seen from the whole chain. -/
theorem step_bank (h : n.step a = some n') {b : FileBank.Action T.toBank} (hb : a.bank n = some b) :
    n.bankNode.step b = some n'.bankNode ∧
      n'.world = { n.world with bank := n'.world.bank } := by
  cases a with
  | newBlock =>
    obtain rfl := Option.some.inj hb
    simp only [Node.step, Option.ite_none_right_eq_some, Option.some.injEq] at h
    obtain ⟨⟨hphase, hnow⟩, rfl⟩ := h
    obtain ⟨phase, calls, world⟩ := n
    obtain rfl := Phase.eq_executing hphase
    refine ⟨?_, rfl⟩
    have hstep : (FileBank.Node.storageNode (Node.bankNode ⟨.executing, calls, world⟩)).step
        .newBlock = some { phase := .initializing
                           world := { world.bank.storage with now := world.now + 1 } } :=
      if_pos ⟨rfl, hnow⟩
    simp only [FileBank.Node.step, hstep]
    rfl
  | serve name =>
    obtain rfl := Option.some.inj hb
    simp only [Node.step, Option.map_eq_some_iff] at h
    obtain ⟨m, hm, rfl⟩ := h
    refine ⟨?_, rfl⟩
    obtain ⟨-, hserve, -⟩ := FileBank.step_storage hm
    obtain ⟨_, _, -, -, -, hphase, -⟩ := StorageHandler.step_serve hserve
    rw [hm]
    exact congrArg some (congrArg (FileBank.Node.mk · m.world) hphase)
  | minerExit miner => cases hb
  | clearFile =>
    obtain rfl := Option.some.inj hb
    simp only [Node.step, Option.map_eq_some_iff] at h
    obtain ⟨m, hm, rfl⟩ := h
    refine ⟨?_, rfl⟩
    rw [hm]
    simp only [FileBank.Node.step, Option.ite_none_right_eq_some, Option.some.injEq] at hm
    obtain ⟨-, rfl⟩ := hm
    rfl
  | hook =>
    obtain ⟨phase, calls, world⟩ := n
    cases phase with
    | initializing =>
      obtain rfl := Option.some.inj hb
      obtain rfl := Option.some.inj h
      exact ⟨rfl, rfl⟩
    | _ => cases hb
  | call c =>
    simp only [Node.step, Option.ite_none_right_eq_some, Option.some.injEq] at h
    obtain ⟨⟨hphase, -, -⟩, rfl⟩ := h
    obtain ⟨phase, calls, world⟩ := n
    obtain rfl := Phase.eq_executing hphase
    cases c with
    | storage c =>
      obtain rfl := Option.some.inj hb
      exact ⟨rfl, rfl⟩
    | fileBank c =>
      obtain rfl := Option.some.inj hb
      exact ⟨rfl, rfl⟩
    | _ => cases hb
  | payEra amount => cases hb
  | external => cases hb

/-! ## Steps of the other pallets -/

/-- **A step of another pallet** than the file bank and storage-handler, by the code that runs. -/
inductive Node.Beside (n : Node T) : Action T → Node T → Prop
  | minerExit (miner : T.AccountId) :
      n.Beside (.minerExit miner)
        { n with world := after (transactional (Sminer.minerExit T miner)) n.world }
  | returning (hphase : n.phase = .returning) :
      n.Beside .hook
        { n with phase := .challenging, world := after (Sminer.onInitialize T) n.world }
  | challenging {w : World T} (hphase : n.phase = .challenging)
      (hw : w = after (Audit.generateChallenge T) n.world) :
      n.Beside .hook { n with phase := .clearing (w.filed w.audit.challengeSlip), world := w }
  | clearing {miner : T.AccountId} {rest : List T.AccountId}
      (hphase : n.phase = .clearing (miner :: rest)) :
      n.Beside .hook
        { n with phase := .clearing rest, world := after (Audit.clearChallenge T miner) n.world }
  | cleared (hphase : n.phase = .clearing []) :
      n.Beside .hook { n with phase := .verifying (n.world.filed n.world.audit.verifySlip) }
  | verifying {miner : T.AccountId} {rest : List T.AccountId}
      (hphase : n.phase = .verifying (miner :: rest)) :
      n.Beside .hook
        { n with
          phase := .verifying rest, world := after (Audit.clearVerifyMission T miner) n.world }
  | verified (hphase : n.phase = .verifying []) :
      n.Beside .hook
        { n with phase := .executing, world := after (Reservoir.onInitialize T) n.world }
  | sminer (c : Sminer.Call T) (hphase : n.phase = .executing) (hsigned : Signed c.signer) :
      n.Beside (.call (.sminer c))
        { n with calls := n.calls + 1, world := after (transactional (c.code T)) n.world }
  | audit (c : Audit.Call T) (hphase : n.phase = .executing) :
      n.Beside (.call (.audit c))
        { n with calls := n.calls + 1, world := after (transactional (c.code T)) n.world }
  | treasury (c : Treasury.Call T) (hphase : n.phase = .executing) (hsigned : Signed c.signer) :
      n.Beside (.call (.treasury c))
        { n with calls := n.calls + 1, world := after (transactional (c.code T)) n.world }
  | reservoir (c : Reservoir.Call T) (hphase : n.phase = .executing) (hsigned : Signed c.signer) :
      n.Beside (.call (.reservoir c))
        { n with calls := n.calls + 1, world := after (transactional (c.code T)) n.world }
  | payEra {amount : ℕ} {u : Unit} {w : World T}
      (hrun : (Treasury.onNonzeroUnbalanced T amount).run n.world = .ok u w) :
      n.Beside (.payEra amount) { n with world := w }
  | external (ledger : T.Ledger) (agenda : T.Agenda) (outside : T.Outside) :
      n.Beside (.external ledger agenda outside) (n.withBank { n.world.bank with
        outside := outside
        storage := { n.world.bank.storage with ledger := ledger, agenda := agenda } })

theorem step_beside (h : n.step a = some n') (hb : a.bank n = none) : n.Beside a n' := by
  cases a with
  | newBlock | serve name | clearFile acc fileHash => cases hb
  | minerExit miner =>
    simp only [Node.step, Option.ite_none_right_eq_some, Option.some.injEq] at h
    obtain ⟨-, rfl⟩ := h
    exact .minerExit miner
  | hook =>
    obtain ⟨phase, calls, world⟩ := n
    cases phase with
    | initializing => cases hb
    | returning =>
      obtain rfl := Option.some.inj h
      exact .returning rfl
    | challenging =>
      obtain rfl := Option.some.inj h
      exact .challenging rfl rfl
    | clearing rest =>
      cases rest with
      | nil =>
        obtain rfl := Option.some.inj h
        exact .cleared rfl
      | cons =>
        obtain rfl := Option.some.inj h
        exact .clearing rfl
    | verifying rest =>
      cases rest with
      | nil =>
        obtain rfl := Option.some.inj h
        exact .verified rfl
      | cons =>
        obtain rfl := Option.some.inj h
        exact .verifying rfl
    | executing => cases h
  | call c =>
    simp only [Node.step, Option.ite_none_right_eq_some, Option.some.injEq] at h
    obtain ⟨⟨hphase, -, hsigned⟩, rfl⟩ := h
    have hphase := Phase.eq_executing hphase
    cases c with
    | storage c | fileBank c => cases hb
    | sminer c => exact .sminer c hphase hsigned
    | audit c => exact .audit c hphase
    | treasury c => exact .treasury c hphase hsigned
    | reservoir c => exact .reservoir c hphase hsigned
  | payEra amount =>
    simp only [Node.step] at h
    cases hrun : (Treasury.onNonzeroUnbalanced T amount).run n.world with
    | ok u w =>
      rw [hrun] at h
      obtain rfl := Option.some.inj h
      exact .payEra hrun
    | error e w =>
      rw [hrun] at h
      cases h
  | external ledger agenda outside =>
    obtain rfl := Option.some.inj h
    exact .external ledger agenda outside

/-- The miner that a step punishes. -/
def Node.punished (n : Node T) : Action T → Option T.AccountId
  | .hook => match n.phase with
    | .clearing (miner :: _) =>
      if ∃ count ∈ Audit.missed n.world miner, count > 1 then some miner else none
    | _ => none
  | .call (.audit c) => c.fails n.world
  | _ => none

/-- The miner that a step throws out. -/
def Node.expelled (n : Node T) : Action T → Option T.AccountId
  | .hook => match n.phase with
    | .clearing (miner :: _) =>
      if ∃ count ∈ Audit.missed n.world miner, count ≥ 30 then some miner else none
    | _ => none
  | _ => none

theorem punished_clearing {count : ℕ} (hphase : n.phase = .clearing (miner :: rest))
    (hcount : count ∈ Audit.missed n.world miner) (hmore : count > 1) :
    n.punished .hook = some miner := by
  simp only [Node.punished, hphase]
  exact if_pos ⟨count, hcount, hmore⟩

/-- What a step of another pallet than the file bank and storage-handler does. -/
structure Node.Aside (n : Node T) (a : Action T) (n' : Node T) : Prop where
  phase : n'.phase.bank = n.phase.bank
  bank : n.world.BesideBank n'.world
  records : n.world.records.Act n'.world.records ∨
    ∃ miner r, n.punished a = some miner ∧ n.world.records.Punish miner r ∧
      (n'.world.records = r ∨ n.expelled a = some miner ∧
        r.Force miner (Sminer.coolingBlock T n.world.now) n'.world.records)

theorem Node.Aside.of_calm (hphase : n'.phase.bank = n.phase.bank)
    (hbank : n.world.BesideBank n'.world) (hrecords : n'.world.records = n.world.records) :
    n.Aside a n' :=
  ⟨hphase, hbank, .inl (by rw [hrecords]; exact .stay)⟩

/-- A dispatched call does its work or nothing. -/
theorem Node.Aside.dispatched {x : ChainM T Unit} {calls : ℕ}
    (hrun : ∀ u w, x.run n.world = .ok u w → n.Aside a { n with calls := calls, world := w }) :
    n.Aside a { n with calls := calls, world := after (transactional x) n.world } :=
  after_transactional_inv (P := fun w => n.Aside a { n with calls := calls, world := w })
    (.of_calm rfl (.refl _) rfl) hrun

/-- A round over the challenges that are due. -/
theorem aside_clearing (hphase : n.phase = .clearing (miner :: rest))
    (hphase' : n'.phase.bank = n.phase.bank)
    (hworld : n'.world = after (Audit.clearChallenge T miner) n.world) : n.Aside .hook n' := by
  obtain ⟨hbank, -, hrecords⟩ := Audit.after_clearChallenge miner n.world
  rw [← hworld] at hbank hrecords
  refine ⟨hphase', hbank, ?_⟩
  simp only [Node.punished, Node.expelled, hphase]
  cases hmissed : Audit.missed n.world miner with
  | none =>
    left
    rw [hmissed] at hrecords
    rw [hrecords]
    exact .stay
  | some count =>
    rw [hmissed] at hrecords
    obtain ⟨r, hpunish, hforce⟩ := hrecords
    by_cases hcount : count > 1
    · right
      rw [if_pos hcount] at hpunish
      refine ⟨miner, r, if_pos ⟨count, rfl, hcount⟩, hpunish, ?_⟩
      split_ifs at hforce with hmany
      · exact .inr ⟨if_pos ⟨count, rfl, hmany⟩, hforce⟩
      · exact .inl hforce
    · left
      rw [if_neg hcount] at hpunish
      rw [if_neg (by omega), hpunish] at hforce
      rw [hforce]
      exact .stay

/-- **The steps of the other pallets**, by what they do to the records. -/
theorem step_aside (h : n.step a = some n') (hb : a.bank n = none) : n.Aside a n' := by
  cases step_beside h hb with
  | minerExit miner =>
    refine .dispatched fun u w' hrun => ?_
    have hacts := Sminer.minerExit_acts hrun
    exact ⟨rfl, hacts.1.bank, .inl hacts.2⟩
  | returning hphase =>
    have hquiet := quiet_sminerHook n.world
    exact .of_calm (by rw [hphase]; rfl) hquiet.beside.bank hquiet.records
  | challenging hphase hw =>
    obtain ⟨hbank, hrecords, -⟩ := Audit.after_generateChallenge n.world
    rw [← hw] at hbank hrecords
    exact .of_calm (by rw [hphase]; rfl) hbank hrecords
  | clearing hphase => exact aside_clearing hphase (by rw [hphase]; rfl) rfl
  | cleared hphase => exact .of_calm (by rw [hphase]; rfl) (.refl _) rfl
  | @verifying miner rest hphase =>
    obtain ⟨hbank, hrecords, -⟩ := Audit.after_clearVerifyMission miner n.world
    exact .of_calm (by rw [hphase]; rfl) hbank hrecords
  | verified hphase =>
    have hquiet := quiet_reservoirHook n.world
    exact .of_calm (by rw [hphase]; rfl) hquiet.beside.bank hquiet.records
  | sminer c =>
    refine .dispatched fun u w' hrun => ?_
    have hacts := Sminer.Call.code_act c hrun
    exact ⟨rfl, hacts.1.bank, .inl hacts.2⟩
  | audit c =>
    refine .dispatched fun u w' hrun => ?_
    have hsubmits := (Audit.Call.code_submits c hrun).1
    rcases hsubmits.records with hrecords | ⟨miner, hfails, hpunish⟩
    · exact .of_calm rfl hsubmits.bank hrecords
    · exact ⟨rfl, hsubmits.bank, .inr ⟨miner, _, hfails, hpunish, .inl rfl⟩⟩
  | treasury c =>
    refine .dispatched fun u w' hrun => ?_
    have hquiet := (quiet_treasuryCall c).run_ok hrun
    exact .of_calm rfl hquiet.beside.bank hquiet.records
  | reservoir c =>
    refine .dispatched fun u w' hrun => ?_
    have hquiet := (quiet_reservoirCall c).run_ok hrun
    exact .of_calm rfl hquiet.beside.bank hquiet.records
  | payEra hrun =>
    have hquiet := (quiet_onNonzeroUnbalanced _).run_ok hrun
    exact .of_calm rfl hquiet.beside.bank hquiet.records
  | external => exact .of_calm rfl ⟨_, _, _, _, _, rfl⟩ rfl

/-! ## The clock and the challenges -/

theorem bank_ne_external {b : FileBank.Action T.toBank} (hb : a.bank n = some b)
    (miner : Sminer.World T.AccountId) (outside : T.Outside) (totalIdleSpace : ℕ) :
    b ≠ .external miner outside totalIdleSpace := by
  rintro rfl
  cases a with
  | hook =>
    obtain ⟨phase, calls, world⟩ := n
    cases phase <;> cases hb
  | call c => cases c <;> cases hb
  | _ => cases hb

theorem bank_eq_newBlock (hb : a.bank n = some (.storage .newBlock)) : a = .newBlock := by
  cases a with
  | newBlock => rfl
  | hook =>
    obtain ⟨phase, calls, world⟩ := n
    cases phase <;> cases hb
  | call c => cases c <;> cases hb
  | _ => cases hb

theorem call_of_bank {c : FileBank.Call T.toBank} (hb : a.bank n = some (.call c)) :
    a = .call (.fileBank c) := by
  cases a with
  | hook =>
    obtain ⟨phase, calls, world⟩ := n
    cases phase <;> cases hb
  | call c' =>
    cases c' with
    | fileBank c' =>
      obtain rfl : c' = c := FileBank.Action.call.inj (Option.some.inj hb)
      rfl
    | _ => cases hb
  | _ => cases hb

/-- Nothing but a new block moves the clock. -/
theorem step_now (h : n.step a = some n') (hnew : a ≠ .newBlock) : n'.world.now = n.world.now := by
  cases hb : a.bank n with
  | none => exact (step_aside h hb).bank.now
  | some b =>
    refine FileBank.step_now (step_bank h hb).1 ?_
    rintro rfl
    exact hnew (bank_eq_newBlock hb)

theorem step_newBlock (h : n.step .newBlock = some n') :
    n.phase = .executing ∧ n.world.now + 1 < 2 ^ 32 ∧
      n' =
        { phase := .initializing
          calls := 0
          world := { n.world with
            bank := { n.world.bank with
              storage := { n.world.bank.storage with now := n.world.now + 1 } } } } := by
  simp only [Node.step, Option.ite_none_right_eq_some, Option.some.injEq] at h
  obtain ⟨⟨hphase, hnow⟩, hn'⟩ := h
  exact ⟨Phase.eq_executing hphase, hnow, hn'.symm⟩

/-- A step is counted if it is a call. -/
theorem step_calls (h : n.step a = some n') :
    (a = .newBlock ∧ n'.calls = 0 ∧ n'.world.now = n.world.now + 1) ∨
    ((∃ c, a = .call c) ∧ n.calls < T.maxCalls ∧ n'.calls = n.calls + 1) ∨
    a ≠ .newBlock ∧ (∀ c, a ≠ .call c) ∧ n'.calls = n.calls := by
  cases a with
  | newBlock =>
    obtain ⟨-, -, rfl⟩ := step_newBlock h
    exact .inl ⟨rfl, rfl, rfl⟩
  | call c =>
    simp only [Node.step, Option.ite_none_right_eq_some, Option.some.injEq] at h
    obtain ⟨⟨-, hcalls, -⟩, rfl⟩ := h
    exact .inr (.inl ⟨⟨c, rfl⟩, hcalls, rfl⟩)
  | serve name | clearFile acc fileHash =>
    simp only [Node.step, Option.map_eq_some_iff] at h
    obtain ⟨m, -, rfl⟩ := h
    exact .inr (.inr ⟨nofun, nofun, rfl⟩)
  | minerExit miner =>
    simp only [Node.step, Option.ite_none_right_eq_some, Option.some.injEq] at h
    obtain ⟨-, rfl⟩ := h
    exact .inr (.inr ⟨nofun, nofun, rfl⟩)
  | hook =>
    refine .inr (.inr ⟨nofun, nofun, ?_⟩)
    simp only [Node.step, Node.hook] at h
    split at h <;> cases h <;> rfl
  | payEra amount =>
    simp only [Node.step] at h
    split at h
    · obtain rfl := Option.some.inj h
      exact .inr (.inr ⟨nofun, nofun, rfl⟩)
    · cases h
  | external =>
    obtain rfl := Option.some.inj h
    exact .inr (.inr ⟨nofun, nofun, rfl⟩)

/-- A dispatched call of another pallet leaves the storage of the audit alone. -/
theorem audit_dispatched {x : ChainM T Unit} {w : World T}
    (hrun : ∀ u w', x.run w = .ok u w' → w.Beside w') :
    (after (transactional x) w).audit = w.audit ∧ (after (transactional x) w).book = w.book :=
  after_transactional_inv (P := fun w' : World T => w'.audit = w.audit ∧ w'.book = w.book)
    ⟨rfl, rfl⟩ fun u w' h => ⟨(hrun u w' h).audit, (hrun u w' h).book⟩

/-- Outside the hook nothing but the calls of the audit touches its storage. -/
theorem step_audit (h : n.step a = some n') (hhook : a ≠ .hook) :
    n'.world.audit = n.world.audit ∧ n'.world.book = n.world.book ∨
      ∃ c u, a = .call (.audit c) ∧ n.phase = .executing ∧
        (c.code T).run n.world = .ok u n'.world := by
  cases hb : a.bank n with
  | some b =>
    rw [(step_bank h hb).2]
    exact .inl ⟨rfl, rfl⟩
  | none =>
    cases step_beside h hb with
    | minerExit miner =>
      exact .inl (audit_dispatched fun u w' hrun => (Sminer.minerExit_acts hrun).1)
    | sminer c =>
      exact .inl (audit_dispatched fun u w' hrun => (Sminer.Call.code_act c hrun).1)
    | audit c hphase =>
      exact after_transactional_inv (P := fun w : World T =>
          w.audit = n.world.audit ∧ w.book = n.world.book ∨
            ∃ c' u, Action.call (.audit c) = .call (.audit c') ∧ n.phase = .executing ∧
              (c'.code T).run n.world = .ok u w) (.inl ⟨rfl, rfl⟩)
        fun u w' hrun => .inr ⟨c, u, rfl, hphase, hrun⟩
    | treasury c =>
      exact .inl (audit_dispatched fun u w' hrun => ((quiet_treasuryCall c).run_ok hrun).beside)
    | reservoir c =>
      exact .inl (audit_dispatched fun u w' hrun => ((quiet_reservoirCall c).run_ok hrun).beside)
    | payEra hrun =>
      have hbeside := ((quiet_onNonzeroUnbalanced _).run_ok hrun).beside
      exact .inl ⟨hbeside.audit, hbeside.book⟩
    | external => exact .inl ⟨rfl, rfl⟩
    | _ => exact absurd rfl hhook

/-- Outside the hook nothing but the calls of the audit touches the challenges. -/
theorem step_book (h : n.step a = some n') (hhook : a ≠ .hook) :
    n'.world.book = n.world.book ∨
      n.phase = .executing ∧ n.world.book.Submit n.world.now n'.world.book := by
  rcases step_audit h hhook with ⟨-, hbook⟩ | ⟨c, u, -, hphase, hrun⟩
  · exact .inl hbook
  · exact .inr ⟨hphase, (Audit.Call.code_submits c hrun).1.book⟩

/-- **What the parts of the hook do to the challenges**, and how the phase goes on. -/
theorem step_hook (h : n.step .hook = some n') :
    match n.phase with
    | .initializing => n'.phase = .returning ∧ n'.world.book = n.world.book
    | .returning => n'.phase = .challenging ∧ n'.world.book = n.world.book
    | .challenging => n'.phase = .clearing (n'.world.filed n'.world.audit.challengeSlip) ∧
      n'.world.book = match Audit.newChallenge n.world with
        | none => n.world.book
        | some (miner, _, info) => n.world.book.file miner info
    | .clearing (_ :: rest) => n'.phase = .clearing rest ∧ n'.world.book = n.world.book
    | .clearing [] => n'.phase = .verifying (n.world.filed n.world.audit.verifySlip) ∧
      n'.world = n.world
    | .verifying (miner :: rest) => n'.phase = .verifying rest ∧
      n'.world.book = match n.world.book.challenges.lookup miner with
        | none => n.world.book
        | some info =>
          if info.proveInfo.isOver then (n.world.book.strike n.world.now miner).remove miner
          else (n.world.book.strike n.world.now miner).file miner (info.reassign n.world)
    | .verifying [] => n'.phase = .executing ∧ n'.world.book = n.world.book
    | .executing => False := by
  obtain ⟨phase, calls, world⟩ := n
  cases phase with
  | initializing =>
    obtain rfl := Option.some.inj h
    exact ⟨rfl, rfl⟩
  | returning =>
    obtain rfl := Option.some.inj h
    exact ⟨rfl, (quiet_sminerHook world).beside.book⟩
  | challenging =>
    obtain rfl := Option.some.inj h
    exact ⟨rfl, (Audit.after_generateChallenge world).2.2⟩
  | clearing rest =>
    cases rest with
    | nil =>
      obtain rfl := Option.some.inj h
      exact ⟨rfl, rfl⟩
    | cons miner rest =>
      obtain rfl := Option.some.inj h
      exact ⟨rfl, (Audit.after_clearChallenge miner world).2.1⟩
  | verifying rest =>
    cases rest with
    | nil =>
      obtain rfl := Option.some.inj h
      exact ⟨rfl, (quiet_reservoirHook world).beside.book⟩
    | cons miner rest =>
      obtain rfl := Option.some.inj h
      exact ⟨rfl, (Audit.after_clearVerifyMission miner world).2.2⟩
  | executing => cases h

/-- The hook takes no snapshots. -/
theorem step_hook_recorded (h : n.step .hook = some n') :
    n'.world.book.recorded = n.world.book.recorded := by
  have hbook := step_hook h
  split at hbook
  · rw [hbook.2]
  · rw [hbook.2]
  · rw [hbook.2]
    split <;> rfl
  · rw [hbook.2]
  · rw [hbook.2]
  · rw [hbook.2]
    split
    · rfl
    · split_ifs <;> rfl
  · rw [hbook.2]
  · exact hbook.elim

/-- The miner that a step visits because its challenge may be over. -/
def Node.visited (n : Node T) : Action T → Option T.AccountId
  | .hook => match n.phase with
    | .verifying (miner :: _) => some miner
    | _ => none
  | _ => none

theorem visited_hook :
    n.visited .hook = some miner ↔ ∃ rest, n.phase = .verifying (miner :: rest) := by
  obtain ⟨phase, calls, world⟩ := n
  cases phase with
  | verifying rest => cases rest <;> simp [Node.visited]
  | _ => simp [Node.visited]

theorem hook_of_visited (h : n.visited a = some miner) : a = .hook := by
  cases a with
  | hook => rfl
  | _ => cases h

/-- What becomes of the challenge of a miner. -/
inductive Node.Fate (n : Node T) (a : Action T) (miner : T.AccountId) :
    Option (Audit.ChallengeInfo T) → Prop
  | stay (hvisits : n.visited a = some miner → n.world.book.challenges.lookup miner = none) :
      n.Fate a miner (n.world.book.challenges.lookup miner)
  | new {slip : ℕ} {info : Audit.ChallengeInfo T} (hhook : a = .hook)
      (hphase : n.phase = .challenging) (hnew : Audit.NewChallenge n.world miner slip info) :
      n.Fate a miner (some info)
  | closed (hvisits : n.visited a = some miner) : n.Fate a miner none
  | handed {info : Audit.ChallengeInfo T} (hvisits : n.visited a = some miner)
      (hinfo : n.world.book.challenges.lookup miner = some info) :
      n.Fate a miner (some (info.reassign n.world))
  | submitted {info info' : Audit.ChallengeInfo T} (hhook : a ≠ .hook)
      (hinfo : n.world.book.challenges.lookup miner = some info) (hsame : info.Same info') :
      n.Fate a miner (some info')

/-- The hook visits a miner. -/
theorem fate_verifying {miner₁ : T.AccountId} (hphase : n.phase = .verifying (miner₁ :: rest))
    (hbook : n'.world.book = match n.world.book.challenges.lookup miner₁ with
      | none => n.world.book
      | some info =>
        if info.proveInfo.isOver then (n.world.book.strike n.world.now miner₁).remove miner₁
        else (n.world.book.strike n.world.now miner₁).file miner₁ (info.reassign n.world)) :
    n.Fate .hook miner (n'.world.book.challenges.lookup miner) := by
  have hvisited : n.visited .hook = some miner₁ := visited_hook.mpr ⟨rest, hphase⟩
  have hother : miner ≠ miner₁ → n.visited .hook = some miner →
      n.world.book.challenges.lookup miner = none :=
    fun hne hvisits => absurd (Option.mem_unique hvisits hvisited) hne
  rw [hbook]
  cases hlookup : n.world.book.challenges.lookup miner₁ with
  | none =>
    refine .stay fun hvisits => ?_
    rwa [Option.mem_unique hvisits hvisited]
  | some info =>
    dsimp only
    split_ifs
    · show n.Fate .hook miner ((n.world.book.challenges.erase miner₁).lookup miner)
      rw [lookup_erase_ite]
      split_ifs with heq
      · exact .closed (heq ▸ hvisited)
      · exact .stay (hother heq)
    · show n.Fate .hook miner
        ((n.world.book.challenges.insert miner₁ (info.reassign n.world)).lookup miner)
      rw [lookup_insert_ite]
      split_ifs with heq
      · subst heq
        exact .handed hvisited hlookup
      · exact .stay (hother heq)

/-- **What a step does to a challenge.** -/
theorem step_fate (h : n.step a = some n') (miner : T.AccountId) :
    n.Fate a miner (n'.world.book.challenges.lookup miner) := by
  have hstay : n.visited a ≠ some miner → n'.world.book = n.world.book →
      n.Fate a miner (n'.world.book.challenges.lookup miner) := by
    intro hvisits hbook
    rw [hbook]
    exact .stay fun hv => absurd hv hvisits
  by_cases hhook : a = .hook
  · subst hhook
    have hbook := step_hook h
    have hvisits : ∀ {phase}, n.phase = phase → (∀ rest, phase ≠ .verifying (miner :: rest)) →
        n.visited .hook ≠ some miner := by
      intro phase hphase hne hvisits
      obtain ⟨rest, hrest⟩ := visited_hook.mp hvisits
      exact hne rest (hphase.symm.trans hrest)
    generalize hphase : n.phase = phase at hbook
    cases phase with
    | initializing | returning => exact hstay (hvisits hphase nofun) hbook.2
    | challenging =>
      obtain ⟨-, hbook⟩ := hbook
      cases hnew : Audit.newChallenge n.world with
      | none =>
        rw [hnew] at hbook
        exact hstay (hvisits hphase nofun) hbook
      | some new =>
        obtain ⟨miner₁, slip, info⟩ := new
        rw [hnew] at hbook
        rw [hbook]
        show n.Fate .hook miner ((n.world.book.challenges.insert miner₁ info).lookup miner)
        rw [lookup_insert_ite]
        split_ifs with heq
        · subst heq
          exact .new rfl hphase (Audit.newChallenge_new hnew)
        · exact .stay fun hv => absurd hv (hvisits hphase nofun)
    | clearing rest =>
      cases rest with
      | nil => exact hstay (hvisits hphase nofun) (by rw [hbook.2])
      | cons => exact hstay (hvisits hphase nofun) hbook.2
    | verifying rest =>
      cases rest with
      | nil => exact hstay (hvisits hphase nofun) hbook.2
      | cons => exact fate_verifying hphase hbook.2
    | executing => exact hbook.elim
  · have hvisits : n.visited a ≠ some miner := fun hv => hhook (hook_of_visited hv)
    rcases step_book h hhook with hbook | ⟨-, hsubmit⟩
    · exact hstay hvisits hbook
    · obtain ⟨miner₁, info, info', -, hinfo, hsame, hchallenges, -⟩ := hsubmit.counted
      rw [hchallenges, lookup_insert_ite]
      split_ifs with heq
      · subst heq
        exact .submitted hhook hinfo hsame
      · exact .stay fun hv => absurd hv hvisits

/-- Where a challenge comes from: it is new, or at most a proof or a result has come in, or it has
been handed to other workers. -/
inductive Node.Challenged (n : Node T) (a : Action T) (miner : T.AccountId)
    (info' : Audit.ChallengeInfo T) : Prop
  | new {slip : ℕ} (hhook : a = .hook) (hphase : n.phase = .challenging)
      (hnew : Audit.NewChallenge n.world miner slip info')
  | same {info : Audit.ChallengeInfo T} (hvisits : n.visited a ≠ some miner)
      (hinfo : n.world.book.challenges.lookup miner = some info) (hsame : info.Same info')
      (hhook : a = .hook → info' = info)
  | handed {info : Audit.ChallengeInfo T} (hvisits : n.visited a = some miner)
      (hinfo : n.world.book.challenges.lookup miner = some info)
      (hinfo' : info' = info.reassign n.world)

/-- **The challenges after a step.** -/
theorem step_challenge (h : n.step a = some n') {info' : Audit.ChallengeInfo T}
    (hinfo' : n'.world.book.challenges.lookup miner = some info') : n.Challenged a miner info' := by
  have hfate := step_fate h miner
  generalize n'.world.book.challenges.lookup miner = l at hfate hinfo'
  cases hfate with
  | stay hvisits =>
    refine .same (fun hv => ?_) hinfo' ⟨rfl, rfl, rfl⟩ fun _ => rfl
    cases (hvisits hv).symm.trans hinfo'
  | new hhook hphase hnew =>
    obtain rfl := Option.some.inj hinfo'
    exact .new hhook hphase hnew
  | closed => cases hinfo'
  | handed hvisits hinfo => exact .handed hvisits hinfo (Option.some.inj hinfo').symm
  | submitted hhook hinfo hsame =>
    obtain rfl := Option.some.inj hinfo'
    exact .same (fun hv => hhook (hook_of_visited hv)) hinfo hsame fun heq => absurd heq hhook

/-- Outside the hook nothing but a new block changes the phase. -/
theorem step_phase (h : n.step a = some n') (hhook : a ≠ .hook) (hnew : a ≠ .newBlock) :
    n'.phase = n.phase := by
  cases hb : a.bank n with
  | none =>
    cases step_beside h hb with
    | minerExit | sminer | audit | treasury | reservoir | payEra | external => rfl
    | _ => exact absurd rfl hhook
  | some b =>
    cases a with
    | newBlock => exact absurd rfl hnew
    | hook => exact absurd rfl hhook
    | serve name | clearFile acc fileHash =>
      simp only [Node.step, Option.map_eq_some_iff] at h
      obtain ⟨m, -, rfl⟩ := h
      rfl
    | call c =>
      simp only [Node.step, Option.ite_none_right_eq_some, Option.some.injEq] at h
      obtain ⟨-, rfl⟩ := h
      rfl
    | _ => cases hb

end Steps

/-! ## Reached states -/

/-- The challenges at genesis. -/
theorem Node.Start.book (h : n.Start) : n.world.book = ⟨∅, ∅, []⟩ := by
  rw [h.2.2.1]
  rfl

theorem Node.Start.now (h : n.Start) : n.world.now = 0 := by
  obtain ⟨⟨⟨_, _, _, hstorage, -, -⟩, -⟩, -⟩ := h
  exact congrArg (fun n => n.world.now) hstorage

/-- Block numbers fit into 32 bits. -/
theorem Reached.now_lt {ok : Node T → Action T → Prop} (hn : Reached ok n) :
    n.world.now < 2 ^ 32 := by
  refine Runs.Reach.inv (P := fun n => n.world.now < 2 ^ 32) ?_ ?_ hn
  · intro n hstart
    rw [hstart.now]
    norm_num
  · intro n a n' _ hnow _ hstep
    by_cases hnew : a = .newBlock
    · subst hnew
      obtain ⟨-, hfits, rfl⟩ := step_newBlock hstep
      exact hfits
    · rw [step_now hstep hnew]
      exact hnow

/-! ## The chain of the file bank -/

/-- **The chain refines the one of the file bank**, for which everything that other pallets do is
a change from outside. -/
theorem Reached.bank {ok : Node T → Action T → Prop} (hn : Reached ok n) :
    FileBank.Reached n.bankNode := by
  refine Runs.Reach.inv (P := fun n => FileBank.Reached n.bankNode) ?_ ?_ hn
  · intro n hstart
    exact .start hstart.1
  · intro n a n' _ hbank _ hstep
    cases hb : a.bank n with
    | some b => exact .next hbank trivial (step_bank hstep hb).1
    | none =>
      have haside := step_aside hstep hb
      obtain ⟨miner, outside, ledger, agenda, totalIdleSpace, hworld⟩ := haside.bank
      have hfirst : FileBank.Reached { n.bankNode with
          world := { n.world.bank with
            miner := miner
            outside := outside
            storage := { n.world.bank.storage with totalIdleSpace := totalIdleSpace } } } :=
        .next hbank trivial (a := .external miner outside totalIdleSpace) rfl
      refine .next hfirst trivial (a := .storage (.external ledger agenda)) ?_
      have hnode : n'.bankNode =
          ⟨n.phase.bank, n.world.bank.besides miner outside ledger agenda totalIdleSpace⟩ := by
        unfold Node.bankNode
        rw [haside.phase, hworld]
      rw [hnode]
      rfl

end Chain
