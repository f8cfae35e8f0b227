/-
# The status that a request signs

A request that has commits or a deletion verified carries a signed status, writes it into the node
of its miner, has its proof verified on that node, and signs what it finds there in the end together
with the key of the request.  `Request.Verified` says what it should sign: the outcome of its own
verification of the status that it carries.

This holds when the requests of a miner run one at a time (`verified_of_serial`).  When two of them
overlap, one signs what the other has written (`other_status_signed`).
-/
import CessNode.PoisDeletion
import CessNode.PoisSessions

open Pois Interleaving
open Prog.Safe (call_bind lift_bind)

namespace PoisServer

variable (T : Params)
variable {id : List UInt8} {info : PoisInfo} {s : Tables} {draws : Draws}

/-! ## What a request should sign -/

/-- The miner of a request. -/
def Request.minerId : Request → List UInt8
  | .commitGenChall req => req.minerId
  | .verifyCommitProof req => req.minerId
  | .verifyDeletionProof req => req.minerId

/-- The answer signs the accumulator and the range of the record with the key of the request. -/
structure StatusResponse.Signs (response : StatusResponse) (id : List UInt8) (info : PoisInfo)
    (record : Record) : Prop where
  poisStatus : response.poisStatus = ⟨padAcc record.acc, record.front, record.rear⟩
  minerId : response.info.minerId.val = id
  keyN : response.info.n.val = info.keyN
  keyG : response.info.g.val = info.keyG
  accumulator : response.info.accumulator.val = padAcc record.acc
  front : response.info.front = record.front.toUInt64
  rear : response.info.rear = record.rear.toUInt64

/-- The record of a prover. -/
def recordOf (v : Verifier) (id : List UInt8) : Option Record :=
  (v.nodeOf id).bind ProverNode.record

/-- **The answer is the outcome of the request's own verification**: of a verifier in which the record
of the miner is the status of the request, with the proofs of the request. -/
def Request.Verified (draws : Draws) (response : StatusResponse) : Request → Prop
  | .commitGenChall _ => False
  | .verifyCommitProof req => ∃ info proofs accProof chals v v' record,
      commitRequest T req = .ok (info, proofs) ∧ req.accProof = some accProof ∧
      recordOf v req.minerId = (proverNode req.minerId info).record ∧
      verifyCommitProofs T.toParams v draws.dependencies req.minerId chals proofs = .ok () ∧
      (verifyAcc T.toParams req.minerId chals accProof).run v = .ok () v' ∧
      recordOf v' req.minerId = some record ∧ response.Signs req.minerId info record
  | .verifyDeletionProof req => ∃ info proof v v' record,
      deletionRequest T req = .ok (info, proof) ∧
      recordOf v req.minerId = (proverNode req.minerId info).record ∧
      (verifyDeletion T.toParams req.minerId proof).run v = .ok () v' ∧
      recordOf v' req.minerId = some record ∧ response.Signs req.minerId info record

variable {T}

/-! ## The end of a request -/

theorem val_of_toBytes {n : ℕ} {l : List UInt8} {b : Bytes n} (h : toBytes n l = some b) :
    b.val = l := by
  unfold toBytes at h
  split_ifs at h
  obtain rfl := Option.some.inj h
  rfl

/-- What is signed is what was given. -/
theorem signs_of_getPoisStatusAndSignature {record : Record} {response : StatusResponse}
    (h : getPoisStatusAndSignature T (padAcc record.acc) record.front record.rear info.keyN
      info.keyG id = .ok response) : response.Signs id info record := by
  simp only [getPoisStatusAndSignature, Dispatch.bind_eq_ok, orStatus_eq_ok] at h
  obtain ⟨id', hid, g, hg, n, hn, acc, hacc, h⟩ := h
  obtain rfl := Except.ok.inj h
  exact ⟨rfl, val_of_toBytes hid, val_of_toBytes hn, val_of_toBytes hg, val_of_toBytes hacc, rfl, rfl⟩

/-- An accumulator of the wrong length is not signed. -/
theorem getPoisStatusAndSignature_nil {front rear : Int64} {keyN keyG : List UInt8}
    {response : StatusResponse} :
    getPoisStatusAndSignature T [] front rear keyN keyG id ≠ .ok response := by
  intro h
  simp only [getPoisStatusAndSignature, Dispatch.bind_eq_ok] at h
  obtain ⟨id', hid, g, hg, n, hn, acc, hacc, -⟩ := h
  cases hacc

/-- Alone, the end of a request signs the record of the miner. -/
theorem safe_signStatus_record {R : Except Failure Response → Prop} (herror : ∀ e, R (.error e))
    (hok : ∀ record response, recordOf s.verifier id = some record →
      response.Signs id info record → R (.ok (.status response))) :
    (signStatus T id info).Safe (exec T) (fun _ _ => True) (fun r _ => True ∧ R r) s := by
  refine call_bind trivial ?_
  refine lift_bind (fun e _ => ⟨trivial, herror e⟩) fun state hstate => ?_
  refine lift_bind (fun e _ => ⟨trivial, herror e⟩) fun response hresponse => ?_
  refine ⟨trivial, ?_⟩
  have hstate : mapError _ (logoutProverNode s id).1 = .ok state := hstate
  rcases logoutProverNode_cases s id with h | h | ⟨node, record, hnode, hrecord, h⟩
  · rw [h] at hstate
    obtain rfl := Except.ok.inj hstate
    exact absurd hresponse getPoisStatusAndSignature_nil
  · rw [h] at hstate
    cases hstate
  · rw [h] at hstate
    obtain rfl := Except.ok.inj hstate
    refine hok record response ?_ (signs_of_getPoisStatusAndSignature hresponse)
    unfold recordOf
    rw [hnode]
    exact hrecord

/-- A check that succeeds as an operation on the tables. -/
theorem Tables.check_ok {x : VerifierM Unit} {status : String → Failure} {u : Unit}
    (h : mapError status (s.check x).1 = .ok u) :
    x.run s.verifier = .ok () (s.check x).2.verifier := by
  unfold Tables.check at h ⊢
  cases hrun : x.run s.verifier with
  | ok a v => rfl
  | error e v =>
    rw [hrun] at h
    cases e with
    | bail => cases h
    | panic => cases h

/-! ## One request at a time -/

/-- A result is an error, or no status, or the outcome of the request's own verification. -/
def GoodResult (T : Params) (arrival : Request × Draws) (result : Except Failure Response) : Prop :=
  ∀ response, result = .ok (.status response) → arrival.1.Verified T arrival.2 response

theorem GoodResult.of_error {arrival : Request × Draws} (e : Failure) :
    GoodResult T arrival (.error e) := by
  intro response h
  cases h

/-- The record that `update_prover_node_force` and `register_prover_node` write. -/
theorem recordOf_putNode (s : Tables) (id : List UInt8) (node : ProverNode) :
    recordOf (s.putNode id node).verifier id = node.record := by
  unfold recordOf
  rw [nodeOf_putNode]
  rfl

/-- Alone, a request for a deletion signs the outcome of its verification. -/
theorem safe_verifyDeletionProof {req : RequestVerifyDeletionProof} {proof : DeletionProof}
    (hrequest : deletionRequest T req = .ok (info, proof)) (s : Tables) :
    (verifyDeletionProof T req.minerId info proof).Safe (exec T) (fun _ _ => True)
      (fun r _ => True ∧ GoodResult T (.verifyDeletionProof req, draws) r) s := by
  refine call_bind trivial (call_bind trivial ?_)
  refine lift_bind (fun e _ => ⟨trivial, .of_error e⟩) fun _ hverified => ?_
  refine safe_signStatus_record GoodResult.of_error ?_
  intro record response hrecord hsigns other hother
  obtain rfl := Response.status.inj (Except.ok.inj hother)
  exact ⟨info, proof, _, _, record, hrequest, recordOf_putNode s req.minerId _,
    Tables.check_ok hverified, hrecord, hsigns⟩

/-- Alone, a request that answers a challenge signs the outcome of its verification. -/
theorem safe_answerChallenge_record {req : RequestVerifyCommitAndAccProof}
    {proofs : List (List CommitProof)} (hrequest : commitRequest T req = .ok (info, proofs))
    (hrecord : recordOf s.verifier req.minerId = (proverNode req.minerId info).record)
    (chals : List (List Int64)) :
    (answerChallenge T draws req.minerId req.accProof info proofs chals).Safe (exec T)
      (fun _ _ => True) (fun r _ => True ∧ GoodResult T (.verifyCommitProof req, draws) r) s := by
  refine call_bind trivial ?_
  refine lift_bind (fun e _ => ⟨trivial, .of_error e⟩) fun _ hcommits => ?_
  refine lift_bind (fun e _ => ⟨trivial, .of_error e⟩) fun accProof hproof => ?_
  refine call_bind trivial ?_
  refine lift_bind (fun e _ => ⟨trivial, .of_error e⟩) fun _ hverified => ?_
  have hcommits : verifyCommitProofs T.toParams s.verifier draws.dependencies req.minerId chals
      proofs = .ok () := by
    have hmap : mapError _ (verifyCommitProofs T.toParams s.verifier draws.dependencies req.minerId
      chals proofs) = .ok _ := hcommits
    cases hresult : verifyCommitProofs T.toParams s.verifier draws.dependencies req.minerId chals
        proofs with
    | ok u => rfl
    | error e =>
      rw [hresult] at hmap
      cases e with
      | bail => cases hmap
      | panic => cases hmap
  refine safe_signStatus_record GoodResult.of_error ?_
  intro record response hrecord' hsigns other hother
  obtain rfl := Response.status.inj (Except.ok.inj hother)
  exact ⟨info, proofs, accProof, chals, _, _, record, hrequest, orStatus_eq_ok.mp hproof, hrecord,
    hcommits, Tables.check_ok hverified, hrecord', hsigns⟩

theorem safe_verifyCommitProof_record {req : RequestVerifyCommitAndAccProof}
    {proofs : List (List CommitProof)} (hrequest : commitRequest T req = .ok (info, proofs))
    (s : Tables) :
    (verifyCommitProof T draws req.minerId req.accProof info proofs).Safe (exec T)
      (fun _ _ => True) (fun r _ => True ∧ GoodResult T (.verifyCommitProof req, draws) r) s := by
  refine call_bind trivial ?_
  refine lift_bind (fun e _ => ⟨trivial, .of_error e⟩) fun buffer _ => ?_
  refine call_bind trivial (call_bind trivial ?_)
  refine lift_bind (fun e _ => ⟨trivial, .of_error e⟩) fun chals _ => ?_
  refine safe_answerChallenge_record hrequest ?_ chals
  exact recordOf_putNode s req.minerId _

/-- A request that commits signs no status. -/
theorem safe_commitGenChall_challenge {request : Request} (id : List UInt8) (commits : Commits)
    (s : Tables) :
    (commitGenChall T draws id commits).Safe (exec T) (fun _ _ => True)
      (fun r _ => True ∧ GoodResult T (request, draws) r) s := by
  refine call_bind trivial (call_bind trivial ?_)
  split_ifs
  · refine call_bind trivial ?_
    exact lift_bind (fun e _ => ⟨trivial, .of_error e⟩) fun _ _ => ⟨trivial, .of_error _⟩
  · refine call_bind trivial ?_
    split
    · exact ⟨trivial, .of_error _⟩
    · refine call_bind trivial ?_
      exact lift_bind (fun e _ => ⟨trivial, .of_error e⟩) fun _ _ => ⟨trivial, .of_error _⟩
    · refine call_bind trivial ?_
      split
      · exact ⟨trivial, .of_error _⟩
      · refine ⟨trivial, fun response h => ?_⟩
        cases h

/-- Every request, alone. -/
theorem safe_handler_record (arrival : Request × Draws) (s : Tables) :
    (handler T arrival).Safe (exec T) (fun _ _ => True)
      (fun r _ => True ∧ GoodResult T arrival r) s := by
  obtain ⟨request, draws⟩ := arrival
  cases request with
  | commitGenChall req =>
    refine lift_bind (fun e _ => ⟨trivial, .of_error e⟩) fun _ _ => ?_
    refine lift_bind (fun e _ => ⟨trivial, .of_error e⟩) fun _ _ => ?_
    refine lift_bind (fun e _ => ⟨trivial, .of_error e⟩) fun commits _ => ?_
    exact safe_commitGenChall_challenge req.minerId commits s
  | verifyCommitProof req =>
    refine lift_bind (fun e _ => ⟨trivial, .of_error e⟩) fun _ _ => ?_
    refine call_bind trivial ?_
    refine lift_bind (fun e _ => ⟨trivial, .of_error e⟩) fun _ _ => ?_
    refine lift_bind (fun e _ => ⟨trivial, .of_error e⟩) fun _ _ => ?_
    refine lift_bind (fun e _ => ⟨trivial, .of_error e⟩) fun out hrequest => ?_
    exact safe_verifyCommitProof_record hrequest s
  | verifyDeletionProof req =>
    refine lift_bind (fun e _ => ⟨trivial, .of_error e⟩) fun _ _ => ?_
    refine lift_bind (fun e _ => ⟨trivial, .of_error e⟩) fun _ _ => ?_
    refine lift_bind (fun e _ => ⟨trivial, .of_error e⟩) fun out hrequest => ?_
    exact safe_verifyDeletionProof hrequest s

/-- **Signed statuses, one request at a time.**  In every run from any tables in which the requests of
the miner do not overlap, a status that a request signed is the outcome of its own verification. -/
theorem verified_of_serial {m : List UInt8}
    {pool : Pool TableOp TableOp.Reply Failure Response (Request × Draws) Tables}
    (h : Runs.Reach (fun pool => pool.tasks = []) (step (exec T) (handler T))
      (Serial fun arrival => arrival.1.minerId = m) pool)
    {task : Task TableOp TableOp.Reply Failure Response (Request × Draws)}
    (htask : task ∈ pool.tasks) {response : StatusResponse}
    (hprog : task.prog = .done (.ok (.status response))) :
    task.request.1.Verified T task.request.2 response := by
  have hsafe : ∀ (arrival : Request × Draws) (s : Tables), arrival.1.minerId = m → True →
      (handler T arrival).Safe (exec T) (fun _ _ => True)
        (fun r _ => True ∧ GoodResult T arrival r) s :=
    fun arrival s _ _ => safe_handler_record arrival s
  have hcalm := Pool.Calm.of_reach (Q := fun _ _ _ => True) hsafe
    (fun _ htasks => ⟨trivial, htasks⟩) h
  exact hcalm.good hsafe ⟨pool.shared, trivial⟩ htask hprog response rfl

/-! ## Two runs -/

/-- A deletion moves the front by the number of deleted files and keeps the rear. -/
theorem range_of_verifyDeletion {P : Pois.Params} {v v' : Verifier} {proof : DeletionProof}
    {record record' : Record} (hrecord : recordOf v id = some record)
    (hrun : (verifyDeletion P id proof).run v = .ok () v')
    (hrecord' : recordOf v' id = some record') :
    record'.front = record.front + .ofNat proof.roots.length ∧ record'.rear = record.rear := by
  obtain ⟨node, hnode, hfound⟩ := Option.bind_eq_some_iff.mp hrecord
  rw [run_verifyDeletion proof hnode hfound] at hrun
  split_ifs at hrun
  split at hrun
  · cases hrun
  · cases hrun
  · split at hrun
    · cases hrun
    · obtain ⟨-, rfl⟩ := EStateM.Result.ok.inj hrun
      unfold recordOf at hrecord'
      rw [Verifier.nodeOf_put] at hrecord'
      obtain rfl := Option.some.inj hrecord'
      exact ⟨rfl, rfl⟩

/-- A request of the miner `7…7` to delete no file, with the status of the given range. -/
def deleteNothing (front rear : Int64) : RequestVerifyDeletionProof where
  roots := []
  witChain := some (.last [] [])
  accPath := [List.replicate 256 5]
  minerId := List.replicate 32 7
  poisInfo := some (stampedInfo 1 front rear)
  minerSign := List.replicate 64 0

/-- The task has signed a status with this front. -/
def signedFront (t : ℕ) (front : Int64)
    (pool : Pool TableOp TableOp.Reply Failure Response (Request × Draws) Tables) : Bool :=
  match pool.tasks[t]? with
  | some ⟨(.verifyDeletionProof req, _), _, .done (.ok (.status response))⟩ =>
    decide (req.roots = [] ∧ req.poisInfo.map PoisInfo.front = some 0 ∧
      response.poisStatus.front = front)
  | _ => false

theorem exists_of_signedFront {t : ℕ} {front : Int64}
    {pool : Pool TableOp TableOp.Reply Failure Response (Request × Draws) Tables}
    (h : signedFront t front pool = true) :
    ∃ task req draws response, pool.tasks[t]? = some task ∧
      task.request = (.verifyDeletionProof req, draws) ∧
      task.prog = .done (.ok (.status response)) ∧ req.roots = [] ∧
      req.poisInfo.map PoisInfo.front = some 0 ∧ response.poisStatus.front = front := by
  unfold signedFront at h
  split at h
  · rename_i req draws started response ht
    obtain ⟨hroots, hfront, hsigned⟩ := of_decide_eq_true h
    exact ⟨_, req, draws, response, ht, rfl, rfl, hroots, hfront, hsigned⟩
  · cases h

theorem verified_of_serial_deletion :
    ∃ (pool : Pool TableOp TableOp.Reply Failure Response (Request × Draws) Tables) (task : _)
      (response : StatusResponse),
      Runs.Reach (fun pool => pool.tasks = []) (step (exec stampParams) (handler stampParams))
        (Serial fun arrival => arrival.1.minerId = List.replicate 32 7) pool ∧
      task ∈ pool.tasks ∧ task.prog = .done (.ok (.status response)) ∧
      task.request.1.Verified stampParams task.request.2 response := by
  obtain ⟨pool, hreach, hcheck⟩ := exists_of_play (exec stampParams) (handler stampParams)
    (fun pool => pool.tasks = []) (Serial fun arrival => arrival.1.minerId = List.replicate 32 7)
    (show (⟨emptyTables, []⟩ : Pool _ _ _ _ _ _).tasks = [] from rfl)
    [.spawn (.verifyDeletionProof (deleteNothing 0 10), zeroDraws), .run 0, .run 0, .run 0]
    (signedFront 0 0) (by decide +kernel)
  obtain ⟨task, req, draws, response, ht, -, hprog, -⟩ := exists_of_signedFront hcheck
  have htask := List.mem_of_getElem? ht
  exact ⟨pool, task, response, hreach, htask, hprog, verified_of_serial hreach htask hprog⟩

/-- The requests are those of one miner, but they may overlap. -/
def OfMiner (m : List UInt8)
    (_ : Pool TableOp TableOp.Reply Failure Response (Request × Draws) Tables) :
    Action (Request × Draws) → Prop
  | .spawn arrival => arrival.1.minerId = m
  | .run _ => True

instance (m : List UInt8)
    (pool : Pool TableOp TableOp.Reply Failure Response (Request × Draws) Tables) :
    (a : Action (Request × Draws)) → Decidable (OfMiner m pool a)
  | .spawn arrival => inferInstanceAs (Decidable (arrival.1.minerId = m))
  | .run _ => inferInstanceAs (Decidable True)

/-- **The status of another request is signed.**  A request that carries a status with the front 0 has
its deletion verified; before it logs the miner out, a second request writes its own status with the
front 4, and the first one signs that. -/
theorem other_status_signed :
    ∃ (pool : Pool TableOp TableOp.Reply Failure Response (Request × Draws) Tables) (task : _)
      (response : StatusResponse),
      Runs.Reach (fun pool => pool = ⟨emptyTables, []⟩)
        (step (exec stampParams) (handler stampParams)) (OfMiner (List.replicate 32 7)) pool ∧
      pool.tasks[0]? = some task ∧ task.prog = .done (.ok (.status response)) ∧
      ¬ task.request.1.Verified stampParams task.request.2 response := by
  obtain ⟨pool, hreach, hcheck⟩ := exists_of_play (exec stampParams) (handler stampParams)
    (fun pool => pool = ⟨emptyTables, []⟩) (OfMiner (List.replicate 32 7)) rfl
    [.spawn (.verifyDeletionProof (deleteNothing 0 10), zeroDraws),
      .spawn (.verifyDeletionProof (deleteNothing 4 20), zeroDraws),
      .run 0, .run 0, .run 1, .run 0] (signedFront 0 4) (by decide +kernel)
  obtain ⟨task, req, draws, response, ht, hrequest, hprog, hroots, hfront, hsigned⟩ :=
    exists_of_signedFront hcheck
  refine ⟨pool, task, response, hreach, ht, hprog, ?_⟩
  rw [hrequest]
  rintro ⟨info, proof, v, v', record, hchecked, hcarried, hrun, hrecord, hsigns⟩
  simp only [deletionRequest, convertToDeletionProof, Dispatch.bind_eq_ok, orStatus_eq_ok]
    at hchecked
  obtain ⟨proof', ⟨chain, -, hproof⟩, info', hinfo, keyInfo, -, ⟨⟩, -, hpair⟩ := hchecked
  obtain ⟨rfl, rfl⟩ := Prod.mk.inj (Except.ok.inj hpair)
  obtain rfl := Except.ok.inj hproof
  obtain ⟨hmoved, -⟩ := range_of_verifyDeletion hcarried hrun hrecord
  rw [hinfo] at hfront
  have hzero : info'.front = 0 := Option.some.inj hfront
  have hsame : response.poisStatus.front = record.front := congrArg PoisStatus.front hsigns.poisStatus
  rw [hsigned, hmoved] at hsame
  have hrange : (4 : Int64) = info'.front + .ofNat req.roots.length := hsame
  rw [hzero, hroots] at hrange
  exact absurd hrange (by decide)

end PoisServer
