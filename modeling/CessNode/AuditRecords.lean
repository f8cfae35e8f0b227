/-
# The life of a challenge

What the audit does to the challenges and to the records of the miners.  The block hook makes a
challenge; the miner submits two proofs and later a result for each of them; at the end of its
time the hook closes the challenge or hands it to other workers.

* `Audit.Book` : the challenges, the blocks at which they end, and the snapshots that were taken;
* `Book.Submit` : what a call of the audit does to them, `Call.code_submits`;
* `after_generateChallenge`, `after_clearVerifyMission` : what the hook does to them;
* `missed` and `failed` : how often in a row a miner has not proved its service space, on which
  the punishments depend, `after_clearChallenge`.
-/
import CessNode.MinerRecords

open Dispatch StorageMap Chain

namespace Audit

variable {T : Config}

/-! ## Results -/

/-- The result of the idle proof, once there is one. -/
def ProveInfo.idleResult (info : ProveInfo T) : Option Bool :=
  info.idleProve.bind IdleProveInfo.verifyResult

/-- The result of the service proof, once there is one. -/
def ProveInfo.serviceResult (info : ProveInfo T) : Option Bool :=
  info.serviceProve.bind ServiceProveInfo.verifyResult

/-- Both results are there and good. -/
def ProveInfo.Passed (info : ProveInfo T) : Prop :=
  info.idleResult = some true ∧ info.serviceResult = some true

instance (info : ProveInfo T) : Decidable info.Passed :=
  inferInstanceAs (Decidable (_ ∧ _))

/-- What a submission leaves as it is. -/
structure ChallengeInfo.Same (info info' : ChallengeInfo T) : Prop where
  minerSnapshot : info'.minerSnapshot = info.minerSnapshot
  challengeElement : info'.challengeElement = info.challengeElement
  assign : info'.proveInfo.assign = info.proveInfo.assign

/-! ## The book of the challenges -/

variable (T) in
/-- What is known about the challenges. -/
structure Book where
  challenges : StorageMap T.AccountId (ChallengeInfo T)
  verifySlip : StorageMap (ℕ × T.AccountId) Bool
  recorded : List (T.AccountId × ℕ)

/-- A challenge is written. -/
def Book.put (b : Book T) (miner : T.AccountId) (info : ChallengeInfo T) : Book T :=
  { b with challenges := b.challenges.insert miner info }

/-- What a call of the audit does to the challenges. -/
inductive Book.Submit (now : ℕ) (b : Book T) : Book T → Prop
  /-- A proof comes in.  It has no result yet. -/
  | proof {miner : T.AccountId} {info info' : ChallengeInfo T}
      (hinfo : b.challenges.lookup miner = some info) (hsame : info.Same info')
      (hpassed : info'.proveInfo.Passed ↔ info.proveInfo.Passed) :
      Submit now b (b.put miner info')
  /-- A first result comes in, or the second one. -/
  | result {miner : T.AccountId} {info info' : ChallengeInfo T}
      (hinfo : b.challenges.lookup miner = some info) (hsame : info.Same info')
      (hopen : ¬ info.proveInfo.Passed) :
      Submit now b { b.put miner info' with
        recorded := b.recorded ++ if info'.proveInfo.Passed then [(miner, now)] else [] }

/-- What a submission does to the challenges and the snapshots: a challenge is exchanged, and as
many snapshots are taken as it is newly passed. -/
theorem Book.Submit.counted {now : ℕ} {b b' : Book T} (h : b.Submit now b') :
    ∃ miner info info' extra, b.challenges.lookup miner = some info ∧ info.Same info' ∧
      b'.challenges = b.challenges.insert miner info' ∧ b'.verifySlip = b.verifySlip ∧
      b'.recorded = b.recorded ++ extra ∧ (∀ e ∈ extra, e = (miner, now)) ∧
      (if info'.proveInfo.Passed then 1 else 0) =
        (if info.proveInfo.Passed then 1 else 0) + extra.length := by
  cases h with
  | @proof miner info info' hinfo hsame hpassed =>
    refine ⟨miner, info, info', [], hinfo, hsame, rfl, rfl, (List.append_nil _).symm, nofun, ?_⟩
    simp only [hpassed]
    rfl
  | @result miner info info' hinfo hsame hopen =>
    refine ⟨miner, info, info', _, hinfo, hsame, rfl, rfl, rfl, ?_, ?_⟩
    · intro e he
      split_ifs at he
      · exact List.mem_singleton.mp he
      · cases he
    · split_ifs <;> rfl

end Audit

namespace Chain

variable {T : Config}

/-- The challenges. -/
def World.book (w : World T) : Audit.Book T where
  challenges := w.audit.challengeSnapShot
  verifySlip := w.audit.verifySlip
  recorded := w.history.recorded

theorem World.Beside.book {w w' : World T} (h : w.Beside w') : w'.book = w.book := by
  show Audit.Book.mk w'.audit.challengeSnapShot w'.audit.verifySlip w'.history.recorded = _
  rw [h.audit, h.recorded]
  rfl

/-- Files, territories, challenges and the records of the miners are the same.  The counters of
the audit may change. -/
structure World.Calm (w w' : World T) : Prop where
  bank : w.BesideBank w'
  book : w'.book = w.book
  records : w'.records = w.records

/-- The world after the audit has told the workers about a result and taken snapshots. -/
def World.noted (w : World T) (recorded : List (T.AccountId × ℕ)) (outside : T.Outside)
    (complete : StorageMap ℕ Sminer.CompleteInfo)
    (snapShots : StorageMap T.AccountId
      (BoundedVec Sminer.MinerCompleteInfo Sminer.releaseNumber)) : World T :=
  { w with
    bank := { w.bank with
      outside := outside
      miner := { w.miner with
        completeSnapShot := complete, completeMinerSnapShot := snapShots } }
    history := { w.history with recorded := w.history.recorded ++ recorded } }

end Chain

namespace Audit

variable {T : Config} {w w' : World T} {u : Unit}
variable {miner sender : T.AccountId} {w₁ : World T} {info info' : ChallengeInfo T}

/-! ## Submissions -/

theorem run_mutateChallenge_ok {f : ChallengeInfo T → ChainM T (ChallengeInfo T)} :
    (mutateChallenge T miner f).run w = .ok u w' ↔ ∃ info info' w₁,
      w.audit.challengeSnapShot.lookup miner = some info ∧ (f info).run w = .ok info' w₁ ∧
      { w₁ with audit := { w₁.audit with
          challengeSnapShot := w₁.audit.challengeSnapShot.insert miner info' } } = w' :=
  run_tryMutate_unit_ok

theorem run_selectTee_ok {teePuk : T.WorkerPublicKey} :
    (selectTee T).run w = .ok teePuk w' ↔ randomSelectTeeAcc w = .ok teePuk ∧ w = w' := by
  simp only [selectTee, run_ok, existsAndEq]
  cases randomSelectTeeAcc w with
  | ok teePuk' => simp
  | error e => simp [run_throw_ok]

/-- How often in a row a proof of service space has failed, with the present one. -/
def failed (w : World T) (miner : T.AccountId) : ℕ :=
  (checkedAdd 32 ((w.audit.countedServiceFailed.lookup miner).getD 0) 1).getD serviceFaultTolerant

/-- The miner that a call punishes. -/
def Call.fails (w : World T) : Call T → Option T.AccountId
  | .submitVerifyServiceResult sender result _ _ _ =>
    if result = false ∧ failed w sender ≥ serviceFaultTolerant then some sender else none
  | _ => none

/-- What a call of the audit does. -/
structure Call.Submits (call : Call T) (w w' : World T) : Prop where
  bank : w.BesideBank w'
  book : w.book.Submit w.now w'.book
  records : w'.records = w.records ∨
    ∃ miner, call.fails w = some miner ∧ w.records.Punish miner w'.records

/-- A service proof is accepted in time. -/
structure Accepts (w : World T) (info info' : ChallengeInfo T) : Prop where
  inTime : w.now ≤ info.challengeElement.serviceSlip
  before : info.proveInfo.serviceProve.isSome = false
  after : info'.proveInfo.serviceProve.isSome = true

/-- What a call does to the service proof of a challenge. -/
structure Call.Proves (c : Call T) (w w' : World T) : Prop where
  slips : w'.audit.challengeSlip = w.audit.challengeSlip
  service : ∀ miner info', w'.book.challenges.lookup miner = some info' →
    ∃ info, w.book.challenges.lookup miner = some info ∧ info.Same info' ∧
      (info'.proveInfo.serviceProve.isSome = info.proveInfo.serviceProve.isSome ∨
        ∃ prove, c = .submitServiceProof miner prove ∧ Accepts w info info')

/-- The challenges stay, and the blocks in which the hook looks for proofs. -/
structure Untouched (w w' : World T) : Prop where
  slips : w'.audit.challengeSlip = w.audit.challengeSlip
  challenges : w'.audit.challengeSnapShot = w.audit.challengeSnapShot

instance : IsTrans (World T) Untouched where
  trans _ _ _ h h' := ⟨h'.slips.trans h.slips, h'.challenges.trans h.challenges⟩

theorem Untouched.of_audit (h : w'.audit = w.audit) : Untouched w w' := by
  constructor <;> rw [h]

/-! ### The runs of the calls -/

/-- **What a successful call writes**: a challenge is exchanged, counters, workers and events change,
as many snapshots are taken as the challenge is newly passed, and the miner of a failed service proof
may be punished in between. -/
inductive Call.Run (call : Call T) (w : World T) : World T → Prop
  | exchange {miner : T.AccountId} {info info' : ChallengeInfo T}
      {recorded : List (T.AccountId × ℕ)} {outside outside' : T.Outside}
      {complete : StorageMap ℕ Sminer.CompleteInfo}
      {snapShots : StorageMap T.AccountId
        (BoundedVec Sminer.MinerCompleteInfo Sminer.releaseNumber)}
      {v : World T} {counted failed : StorageMap T.AccountId ℕ} {events : List (Chain.Event T)}
      (hinfo : w.audit.challengeSnapShot.lookup miner = some info) (hsame : info.Same info')
      (hservice : info'.proveInfo.serviceProve.isSome = info.proveInfo.serviceProve.isSome ∨
        ∃ prove, call = .submitServiceProof miner prove ∧ Accepts w info info')
      (hrecorded : recorded = [] ∧ (info'.proveInfo.Passed ↔ info.proveInfo.Passed) ∨
        ¬ info.proveInfo.Passed ∧
          recorded = if info'.proveInfo.Passed then [(miner, w.now)] else [])
      (hpunish : call.fails w = none ∧ v = w.noted recorded outside complete snapShots ∨
        call.fails w = some miner ∧ ∃ u, (Sminer.servicePunish T miner info.minerSnapshot.serviceSpace
          info.minerSnapshot.serviceSpace).run (w.noted recorded outside complete snapShots) =
            .ok u v) :
      call.Run w
        { v with
          bank := { v.bank with outside := outside' }
          audit := { v.audit with
            countedClear := counted
            countedServiceFailed := failed
            challengeSnapShot := v.audit.challengeSnapShot.insert miner info' }
          events := events }

theorem noted_nil (w : World T) :
    w = w.noted [] w.outside w.miner.completeSnapShot w.miner.completeMinerSnapShot := by
  unfold World.noted
  rw [List.append_nil]
  rfl

/-- A proof is stored in a challenge that is still open for it, and reported. -/
theorem mutateProof_ok (sender : T.AccountId) (slip : ChallengeInfo T → ℕ)
    (fresh other : ChallengeInfo T → Bool)
    (put : ChallengeInfo T → T.WorkerPublicKey → ChallengeInfo T) (event : Chain.Event T) (h : (do
      mutateChallenge T sender fun info => do
        let now := (← get).now
        ensure (¬ now > slip info) (.audit .expired)
        ensure (fresh info = true) (.audit .submitted)
        let teePuk ← selectTee T
        if other info then resetCountedClear T sender
        pure (put info teePuk)
      depositEvent T event : ChainM T Unit).run w = .ok u w') :
    ∃ info teePuk counted, w.audit.challengeSnapShot.lookup sender = some info ∧
      w.now ≤ slip info ∧ fresh info = true ∧
      { w with
        audit := { w.audit with
          countedClear := counted
          challengeSnapShot := w.audit.challengeSnapShot.insert sender (put info teePuk) }
        events := w.events ++ [event] } = w' := by
  simp only [run_ok, run_mutateChallenge_ok, run_selectTee_ok, resetCountedClear, modifyStorage,
    depositEvent, run_ite_ok, existsAndEq, not_lt] at h
  obtain ⟨info, hinfo, hnow, hfresh, info', w₁, ⟨teePuk, -, hput⟩, rfl⟩ := h
  obtain ⟨-, rfl, rfl⟩ | ⟨-, rfl, rfl⟩ := hput
  · exact ⟨info, teePuk, _, hinfo, hnow, hfresh, rfl⟩
  · exact ⟨info, teePuk, _, hinfo, hnow, hfresh, rfl⟩

/-- A service proof that is accepted. -/
theorem submitServiceProof_accepts {serviceProve : BoundedVec UInt8 T.sigmaMax}
    (h : (submitServiceProof T sender serviceProve).run w = .ok u w') :
    ∃ info info' counted events, w.audit.challengeSnapShot.lookup sender = some info ∧
      info.Same info' ∧ Accepts w info info' ∧ (info'.proveInfo.Passed ↔ info.proveInfo.Passed) ∧
      { w with
        audit := { w.audit with
          countedClear := counted
          challengeSnapShot := w.audit.challengeSnapShot.insert sender info' }
        events := events } = w' := by
  obtain ⟨info, teePuk, counted, hinfo, hnow, hnone, rfl⟩ := mutateProof_ok sender
    (fun info => info.challengeElement.serviceSlip) (fun info => info.proveInfo.serviceProve.isNone)
    (fun info => info.proveInfo.idleProve.isSome) (fun info teePuk => { info with
      proveInfo := { info.proveInfo with
        serviceProve :=
          some { teePuk := teePuk, serviceProve := serviceProve, verifyResult := none } } }) _ h
  rw [Option.isNone_iff_eq_none] at hnone
  refine ⟨info, _, counted, _, hinfo, ?_, ⟨hnow, ?_, ?_⟩, ?_, rfl⟩
  · exact ⟨rfl, rfl, rfl⟩
  · rw [hnone]
    rfl
  · rfl
  · simp [ProveInfo.Passed, ProveInfo.serviceResult, hnone]

theorem recordPassed_ok {snapshot : MinerSnapShot T} {result : Bool} {other : Option Bool}
    (h : (recordPassed T sender snapshot result other).run w = .ok u w') :
    ∃ complete snapShots, w' = w.noted
      (if result = true ∧ other = some true then [(sender, w.now)] else []) w.outside complete
        snapShots := by
  unfold recordPassed at h
  split_ifs at h ⊢ with hpassed
  · simp only [Sminer.recordSnapShot, Sminer.orElse, Sminer.putSnapShots, modifyMiner, run_ok,
      run_ite_ok, existsAndEq] at h
    obtain ⟨-, rfl⟩ | ⟨-, _, -, _, -, _, -, rfl⟩ := h
    · exact ⟨_, _, rfl⟩
    · exact ⟨_, _, rfl⟩
  · obtain ⟨-, rfl⟩ := run_pure_ok.mp h
    exact ⟨_, _, noted_nil w⟩

theorem submitVerifyIdleResult_run {totalProveHash : BoundedVec UInt8 T.idleTotalHashLength}
    {front rear : ℕ} {accumulator : Accumulator} {idleResult : Bool}
    {signature : BoundedVec UInt8 64} {teePuk : T.WorkerPublicKey}
    (h : (submitVerifyIdleResult T sender totalProveHash front rear accumulator idleResult signature
      teePuk).run w = .ok u w') :
    (Call.submitVerifyIdleResult sender totalProveHash front rear accumulator idleResult signature
      teePuk).Run w w' := by
  simp only [submitVerifyIdleResult, run_mutateChallenge_ok, orElse, verifyResult, updateWorkBlock,
    increasePoint, updateOutside, depositEvent, run_ok, existsAndEq] at h
  obtain ⟨info, hinfo, prove, hprove, rfl, hnone, -, _, -, -, outside, -, _, w₁, hrecord, _, -, _, -,
    _, -, outside', -, rfl⟩ := h
  obtain ⟨complete, snapShots, rfl⟩ := recordPassed_ok hrecord
  rw [Option.isNone_iff_eq_none] at hnone
  refine .exchange hinfo ⟨rfl, rfl, rfl⟩ (.inl rfl) (.inr ⟨?_, ?_⟩) (.inl ⟨rfl, rfl⟩)
  · simp [ProveInfo.Passed, ProveInfo.idleResult, hprove, hnone]
  · simp only [ProveInfo.Passed, ProveInfo.idleResult, Option.bind_some,
      Option.some.injEq]
    rfl

/-- The count of failed proofs, after the punishment it may bring. -/
theorem countServiceResult_ok {snapshot : MinerSnapShot T} {result : Bool}
    (h : (countServiceResult T sender snapshot result).run w = .ok u w') :
    ∃ w₁ counted, (¬ (result = false ∧ failed w sender ≥ serviceFaultTolerant) ∧ w₁ = w ∨
        (result = false ∧ failed w sender ≥ serviceFaultTolerant) ∧ ∃ u, (Sminer.servicePunish T sender snapshot.serviceSpace snapshot.serviceSpace).run w =
          .ok u w₁) ∧
      { w₁ with audit := { w₁.audit with countedServiceFailed := counted } } = w' := by
  simp only [countServiceResult, modifyStorage, run_ok, run_ite_ok, existsAndEq,
    Bool.not_eq_true] at h
  obtain ⟨hresult, rfl⟩ | ⟨hresult, ⟨hfailed, u, w₁, hpunish, rfl⟩ | ⟨hfew, rfl⟩⟩ := h
  · exact ⟨w, _, .inl ⟨fun hfails => absurd (hresult.symm.trans hfails.1) nofun, rfl⟩, rfl⟩
  · exact ⟨w₁, _, .inr ⟨⟨hresult, hfailed⟩, u, hpunish⟩, rfl⟩
  · exact ⟨w, _, .inl ⟨fun hfails => hfew hfails.2, rfl⟩, rfl⟩

theorem submitVerifyServiceResult_run {serviceResult : Bool} {signature : BoundedVec UInt8 64}
    {serviceBloomFilter : Sminer.BloomFilter} {teePuk : T.WorkerPublicKey}
    (h : (submitVerifyServiceResult T sender serviceResult signature serviceBloomFilter teePuk).run
      w = .ok u w') :
    (Call.submitVerifyServiceResult sender serviceResult signature serviceBloomFilter teePuk).Run w
      w' := by
  simp only [submitVerifyServiceResult, run_mutateChallenge_ok, orElse, verifyResult,
    updateWorkBlock, increasePoint, updateOutside, depositEvent, run_ok, existsAndEq] at h
  obtain ⟨info, hinfo, prove, hprove, rfl, hnone, -, _, -, -, -, outside, -, _, w₂, hrecord, _, w₃,
    hcount, _, -, outside', -, rfl⟩ := h
  obtain ⟨complete, snapShots, rfl⟩ := recordPassed_ok hrecord
  obtain ⟨w₁, counted, hpunish, rfl⟩ := countServiceResult_ok hcount
  rw [Option.isNone_iff_eq_none] at hnone
  refine .exchange (v := w₁) hinfo ⟨rfl, rfl, rfl⟩ (.inl ?_) (.inr ⟨?_, ?_⟩)
    (hpunish.imp (And.imp_left fun hfails => if_neg hfails)
      (And.imp_left fun hfails => if_pos hfails))
  · rw [hprove]
    rfl
  · simp [ProveInfo.Passed, ProveInfo.serviceResult, hprove, hnone]
  · simp only [ProveInfo.Passed, ProveInfo.serviceResult, Option.bind_some,
      Option.some.injEq, and_comm]
    rfl

/-- The calls of the audit by what they write. -/
theorem Call.code_run (call : Call T) (h : (call.code T).run w = .ok u w') : call.Run w w' := by
  cases call with
  | submitIdleProof sender idleProve =>
    obtain ⟨info, teePuk, counted, hinfo, -, hnone, rfl⟩ := mutateProof_ok sender
      (fun info => info.challengeElement.idleSlip) (fun info => info.proveInfo.idleProve.isNone)
      (fun info => info.proveInfo.serviceProve.isSome) (fun info teePuk => { info with
        proveInfo := { info.proveInfo with
          idleProve := some { teePuk := teePuk, idleProve := idleProve, verifyResult := none } } })
      _ h
    rw [Option.isNone_iff_eq_none] at hnone
    refine .exchange (v := w) hinfo ⟨rfl, rfl, rfl⟩ (.inl rfl) (.inl ⟨rfl, ?_⟩)
      (.inl ⟨rfl, noted_nil w⟩)
    simp [ProveInfo.Passed, ProveInfo.idleResult, hnone]
  | submitServiceProof sender serviceProve =>
    obtain ⟨info, info', counted, events, hinfo, hsame, haccepts, hpassed, rfl⟩ :=
      submitServiceProof_accepts h
    exact .exchange (v := w) hinfo hsame (.inr ⟨serviceProve, rfl, haccepts⟩) (.inl ⟨rfl, hpassed⟩)
      (.inl ⟨rfl, noted_nil w⟩)
  | submitVerifyIdleResult => exact submitVerifyIdleResult_run h
  | submitVerifyServiceResult => exact submitVerifyServiceResult_run h

/-- **The calls of the audit.** -/
theorem Call.code_submits (call : Call T) (h : (call.code T).run w = .ok u w') :
    call.Submits w w' ∧ call.Proves w w' := by
  cases call.code_run h with
  | @exchange miner info info' recorded outside _ complete snapShots w₁ _ _ _ hinfo hsame hservice
      hrecorded hpunish =>
    -- a punishment leaves the challenges and the snapshots alone
    have hw₁ : w.BesideBank w₁ ∧ w₁.audit = w.audit ∧
        w₁.history.recorded = w.history.recorded ++ recorded ∧ (w₁.records = w.records ∨
          ∃ miner, call.fails w = some miner ∧ w.records.Punish miner w₁.records) := by
      rcases hpunish with ⟨-, rfl⟩ | ⟨hfails, u, hrun⟩
      · exact ⟨⟨_, _, _, _, _, rfl⟩, rfl, rfl, .inl rfl⟩
      · have hpunishes := Sminer.after_servicePunish miner info.minerSnapshot.serviceSpace
          info.minerSnapshot.serviceSpace (w.noted recorded outside complete snapShots)
        rw [after_of_ok hrun] at hpunishes
        exact ⟨.trans ⟨_, _, _, _, _, rfl⟩ hpunishes.1.bank, hpunishes.1.audit,
          hpunishes.1.recorded, .inr ⟨miner, hfails, hpunishes.2⟩⟩
    obtain ⟨hbank, haudit, hhistory, hrecords⟩ := hw₁
    rw [haudit]
    refine ⟨⟨hbank.trans ⟨_, _, _, _, _, rfl⟩, ?_, hrecords⟩, rfl, ?_⟩
    · show w.book.Submit w.now { w.book.put miner info' with recorded := w₁.history.recorded }
      rw [hhistory]
      rcases hrecorded with ⟨rfl, hpassed⟩ | ⟨hopen, rfl⟩
      · rw [List.append_nil]
        exact .proof hinfo hsame hpassed
      · exact .result hinfo hsame hopen
    · refine forall_insert (fun miner₁ info₁ hinfo₁ => ?_) ⟨info, hinfo, hsame, hservice⟩
      exact ⟨info₁, hinfo₁, ⟨rfl, rfl, rfl⟩, .inl rfl⟩

/-! ## The block hook -/

/-- The end of a challenge is struck from the list of the block. -/
def Book.strike (b : Book T) (now : ℕ) (miner : T.AccountId) : Book T :=
  { b with verifySlip := b.verifySlip.erase (now, miner) }

/-- A challenge is removed. -/
def Book.remove (b : Book T) (miner : T.AccountId) : Book T :=
  { b with challenges := b.challenges.erase miner }

/-- A challenge is filed under the block of its end. -/
def Book.file (b : Book T) (miner : T.AccountId) (info : ChallengeInfo T) : Book T :=
  { b with
    challenges := b.challenges.insert miner info
    verifySlip := b.verifySlip.insert (info.challengeElement.verifySlip, miner) true }

/-- The block from which on a missing proof is punished. -/
def ChallengeElement.maxSlip (element : ChallengeElement) : ℕ :=
  max element.idleSlip element.serviceSlip

/-- What is known about a new challenge. -/
structure NewChallenge (w : World T) (miner : T.AccountId) (slip : ℕ) (info : ChallengeInfo T) :
    Prop where
  free : miner ∉ w.audit.challengeSnapShot
  proof : ∃ record, w.miner.minerItems.lookup miner = some record ∧
    record.spaceProofInfo = some info.minerSnapshot.spaceProofInfo
  start : info.challengeElement.start = w.now
  idleSlip : ∃ life, info.challengeElement.idleSlip = saturatingAdd 32 w.now life
  serviceSlip : ∃ life, info.challengeElement.serviceSlip = saturatingAdd 32 w.now life
  isMax : slip = info.challengeElement.maxSlip
  verifySlip : ∃ life, info.challengeElement.verifySlip =
    saturatingAdd 32 (saturatingAdd 32 slip life) T.oneHours
  prove : info.proveInfo = { assign := 0, idleProve := none, serviceProve := none }

theorem newChallenge_new {slip : ℕ} (h : newChallenge w = some (miner, slip, info)) :
    NewChallenge w miner slip info := by
  simp only [newChallenge, Option.bind_eq_bind, Option.bind_eq_some_iff, Option.guard_eq_some'] at h
  obtain ⟨-, -, -, -, _, -, -, hfree, record, hrecord, proof, hproof, -, -, _, -, _, -, -, -, rfl,
    rfl, rfl⟩ := h
  refine ⟨hfree, ⟨record, hrecord, hproof⟩, rfl, ⟨_, rfl⟩, ⟨_, rfl⟩, ?_, ⟨_, rfl⟩, rfl⟩
  unfold ChallengeElement.maxSlip
  dsimp only
  split_ifs <;> omega

/-- A new challenge, if there is one. -/
theorem after_generateChallenge (w : World T) :
    w.BesideBank (after (generateChallenge T) w) ∧
      (after (generateChallenge T) w).records = w.records ∧
      (after (generateChallenge T) w).book =
        match newChallenge w with
        | none => w.book
        | some (miner, _, info) => w.book.file miner info := by
  unfold generateChallenge
  rw [after_get_bind]
  cases newChallenge w with
  | none => exact ⟨.refl w, rfl, rfl⟩
  | some => exact ⟨⟨_, _, _, _, _, rfl⟩, rfl, rfl⟩

/-- The end of a challenge, or of a term of it. -/
theorem after_clearVerifyMission (miner : T.AccountId) (w : World T) :
    w.BesideBank (after (clearVerifyMission T miner) w) ∧
      (after (clearVerifyMission T miner) w).records = w.records ∧
      (after (clearVerifyMission T miner) w).book =
        match w.book.challenges.lookup miner with
        | none => w.book
        | some info =>
          if info.proveInfo.isOver then (w.book.strike w.now miner).remove miner
          else (w.book.strike w.now miner).file miner (info.reassign w) := by
  unfold clearVerifyMission
  rw [after_get_bind]
  show _ ∧ _ ∧ _ = match w.audit.challengeSnapShot.lookup miner with
    | none => w.book
    | some info => _
  cases w.audit.challengeSnapShot.lookup miner with
  | none => exact ⟨.refl w, rfl, rfl⟩
  | some info =>
    dsimp only
    split_ifs
    · exact ⟨⟨_, _, _, _, _, rfl⟩, rfl, rfl⟩
    · exact ⟨⟨_, _, _, _, _, rfl⟩, rfl, rfl⟩

/-- How often in a row a miner has missed its challenge, with the present one, if it has not
proved its service space. -/
def missed (w : World T) (miner : T.AccountId) : Option ℕ :=
  match w.audit.challengeSnapShot.lookup miner with
  | none => none
  | some info =>
    if info.proveInfo.serviceProve.isNone then
      some ((checkedAdd 8 ((w.audit.countedClear.lookup miner).getD 0) 1).getD 3)
    else none

theorem calm_modifyCounted (f : StorageMap T.AccountId ℕ → StorageMap T.AccountId ℕ) :
    Keeps World.Calm (modifyStorage T fun s => { s with countedClear := f s.countedClear }) :=
  keeps_modify fun _ => ⟨⟨_, _, _, _, _, rfl⟩, rfl, rfl⟩

/-- A challenge missed too often throws the miner out. -/
theorem after_countMissed (miner : T.AccountId) (count : ℕ) (w : World T) :
    w.BesideBank (after (countMissed T miner count) w) ∧
      (after (countMissed T miner count) w).book = w.book ∧
      if count ≥ 30 then
        w.records.Force miner (Sminer.coolingBlock T w.now)
          (after (countMissed T miner count) w).records
      else (after (countMissed T miner count) w).records = w.records := by
  unfold countMissed
  split_ifs
  · have hforce := Sminer.after_forceMinerExit miner w
    have hcalm := calm_modifyCounted (T := T) (fun s => s.erase miner)
      (after (Sminer.forceMinerExit T miner) w)
    rw [after_bind, run_attempt]
    refine ⟨hforce.1.bank.trans hcalm.bank, hcalm.book.trans hforce.1.book, ?_⟩
    exact hforce.2
  · have hcalm := calm_modifyCounted (T := T) (fun s => s.insert miner count) w
    exact ⟨hcalm.bank, hcalm.book, hcalm.records⟩

theorem total_punishMissed (miner : T.AccountId) (snapshot : MinerSnapShot T) (count : ℕ) :
    Total (punishMissed T miner snapshot count) := by
  have hcount : Total (countMissed T miner count) :=
    total_ite (total_bind (total_attempt _) fun _ => total_modify _) (total_modify _)
  exact total_ite (total_bind (total_attempt _) fun _ => hcount) hcount

/-- What a missed challenge costs. -/
theorem after_punishMissed (miner : T.AccountId) (snapshot : MinerSnapShot T) (count : ℕ)
    (w : World T) :
    w.BesideBank (after (punishMissed T miner snapshot count) w) ∧
      (after (punishMissed T miner snapshot count) w).book = w.book ∧
      ∃ r, (if count > 1 then w.records.Punish miner r else r = w.records) ∧
        if count ≥ 30 then
          r.Force miner (Sminer.coolingBlock T w.now)
            (after (punishMissed T miner snapshot count) w).records
        else (after (punishMissed T miner snapshot count) w).records = r := by
  unfold punishMissed
  by_cases hcount : count > 1
  · have hpunish := Sminer.after_clearPunish miner snapshot.idleSpace snapshot.serviceSpace count w
    set w₁ := after (Sminer.clearPunish T miner snapshot.idleSpace snapshot.serviceSpace count) w
    have hrest := after_countMissed miner count w₁
    rw [hpunish.1.bank.now] at hrest
    rw [if_pos hcount, after_bind, run_attempt]
    refine ⟨hpunish.1.bank.trans hrest.1, hrest.2.1.trans hpunish.1.book, w₁.records, ?_, hrest.2.2⟩
    rw [if_pos hcount]
    exact hpunish.2
  · have hrest := after_countMissed miner count w
    rw [if_neg hcount]
    exact ⟨hrest.1, hrest.2.1, w.records, by rw [if_neg hcount], hrest.2.2⟩

/-- **A round over the challenges that are due.** -/
theorem after_clearChallenge (miner : T.AccountId) (w : World T) :
    w.BesideBank (after (clearChallenge T miner) w) ∧
      (after (clearChallenge T miner) w).book = w.book ∧
      match missed w miner with
      | none => (after (clearChallenge T miner) w).records = w.records
      | some count => ∃ r, (if count > 1 then w.records.Punish miner r else r = w.records) ∧
        if count ≥ 30 then
          r.Force miner (Sminer.coolingBlock T w.now) (after (clearChallenge T miner) w).records
        else (after (clearChallenge T miner) w).records = r := by
  have hstrike : ∀ now, Keeps World.Calm (modifyStorage T fun s =>
      { s with challengeSlip := s.challengeSlip.erase (now, miner) }) :=
    fun now => keeps_modify fun _ => ⟨⟨_, _, _, _, _, rfl⟩, rfl, rfl⟩
  unfold clearChallenge missed
  rw [after_get_bind]
  cases w.audit.challengeSnapShot.lookup miner with
  | none =>
    have hcalm := hstrike w.now w
    exact ⟨hcalm.bank, hcalm.book, hcalm.records⟩
  | some info =>
    dsimp only
    split_ifs with hnone
    · generalize (checkedAdd 8 ((w.audit.countedClear.lookup miner).getD 0) 1).getD 3 = count
      have hpunish := after_punishMissed miner info.minerSnapshot count w
      rw [after_bind_of_total (total_punishMissed miner _ _)]
      set w₁ := after (punishMissed T miner info.minerSnapshot count) w
      have hcalm := hstrike w.now w₁
      refine ⟨hpunish.1.trans hcalm.bank, hcalm.book.trans hpunish.2.1, ?_⟩
      exact hpunish.2.2
    · have hcalm := hstrike w.now w
      exact ⟨hcalm.bank, hcalm.book, hcalm.records⟩

end Audit
