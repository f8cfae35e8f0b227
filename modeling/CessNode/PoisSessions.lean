/-
# Commits and their challenges

A miner that commits idle files is first handed a challenge and then answers it.  The commits are in
the table of nodes and the challenges in another one, and requests of one miner may overlap.
`Watched` adds to the tables what cannot be read from them, for which commits a challenge was made;
`Matched` says that a challenge is checked against the commits that it was made for, which therefore
were stored before the miner could know it.

If the requests of the miner run one at a time and every commit that reaches the tables is accepted,
then all checks match (`matched_of_serial`).  Two commits that overlap are enough to have an old
challenge checked against new commits (`challenge_of_other_commits`).
-/
import CessNode.PoisSignatures

open Pois Interleaving
open Prog.Safe (call_bind lift_bind)
open Dispatch (Keeps keeps_bind keeps_get keeps_modify keeps_pure keeps_throw)

/-! ## The numbers of a verifier -/

namespace Pois

/-- The numbers with which the verifier was made agree. -/
def Verifier.SameNumbers (v v' : Verifier) : Prop :=
  v'.clusterSize = v.clusterSize ∧ v'.expanders = v.expanders

instance : Std.Refl Verifier.SameNumbers := ⟨fun _ => ⟨rfl, rfl⟩⟩

instance : IsTrans Verifier Verifier.SameNumbers :=
  ⟨fun _ _ _ h₁ h₂ => ⟨h₂.1.trans h₁.1, h₂.2.trans h₁.2⟩⟩

theorem keeps_lift {α : Type} (x : Except Error α) :
    Keeps Verifier.SameNumbers (lift x) := by
  cases x with
  | ok a => exact keeps_pure a
  | error e => exact keeps_throw e

theorem keeps_putNode (id : List UInt8) (node : ProverNode) :
    Keeps Verifier.SameNumbers (putNode id node) :=
  keeps_modify fun _ => ⟨rfl, rfl⟩

theorem keeps_verifyAcc (P : Params) (id : List UInt8) (chals : List (List Int64))
    (proof : AccProof) : Keeps Verifier.SameNumbers (verifyAcc P id chals proof) := by
  refine keeps_bind keeps_get fun v => ?_
  cases v.nodeOf id with
  | none => exact keeps_throw _
  | some node =>
    refine keeps_bind (keeps_lift _) fun _ => ?_
    refine keeps_bind (keeps_lift _) fun record => ?_
    exact keeps_bind (keeps_lift _) fun acc => keeps_putNode id _

theorem keeps_verifyDeletion (P : Params) (id : List UInt8) (proof : DeletionProof) :
    Keeps Verifier.SameNumbers (verifyDeletion P id proof) := by
  refine keeps_bind keeps_get fun v => ?_
  cases v.nodeOf id with
  | none => exact keeps_throw _
  | some node =>
    refine keeps_bind (keeps_lift _) fun record => ?_
    refine keeps_bind (keeps_lift _) fun _ => ?_
    refine keeps_bind (keeps_lift _) fun updated => ?_
    refine keeps_bind (keeps_lift _) fun _ => ?_
    refine keeps_bind (keeps_putNode id _) fun _ => ?_
    exact keeps_bind (keeps_lift _) fun acc => keeps_putNode id _

/-- The numbers are those of a verifier that was made by `new` with at least one layer and node. -/
structure Verifier.Sensible (v : Verifier) : Prop where
  clusterSize : v.clusterSize = v.expanders.k
  k_pos : 1 ≤ v.expanders.k.toInt
  k_lt : v.expanders.k.toInt < 2 ^ 58
  n_pos : 1 ≤ v.expanders.n.toInt
  d_nonneg : 0 ≤ v.expanders.d.toInt
  d_lt : v.expanders.d.toInt < 2 ^ 63 - 1

end Pois

namespace PoisServer

/-! ## Challenges are made -/

theorem genRange_ok {bound : Int64} (h : 1 ≤ bound.toInt) (draw : ℕ) :
    ∃ r, genRange bound draw = .ok r := by
  unfold genRange
  rw [if_neg]
  · exact ⟨_, rfl⟩
  · rw [Int64.le_iff_toInt_le]
    show ¬ bound.toInt ≤ 0
    omega

theorem setAt_ok {row : List Int64} {i : ℕ} (h : i < row.length) (x : Int64) :
    setAt row i x = .ok (row.set i x) := if_pos h

/-- With sensible numbers a row can be made. -/
theorem exists_challengeRow {v : Verifier} (hv : v.Sensible) (start : Int64) (draw : ℕ → ℕ → ℕ)
    (i : ℕ) : ∃ row, challengeRow v start draw i = .ok row := by
  obtain ⟨hcluster, hkpos, hklt, hn, hdpos, hdlt⟩ := hv
  obtain ⟨k, hk⟩ : ∃ k : ℕ, v.expanders.k.toInt = k := ⟨v.expanders.k.toInt.toNat, by omega⟩
  have hone : (1 : Int64).toInt = 1 := rfl
  have hsum := toInt_add_of (toInt_add_of hk hk (by omega) (by omega)) hone (by omega) (by omega)
  have hsize : (v.expanders.k + v.expanders.k + 1).toUInt64.toNat = 2 * k + 1 := by
    rw [toNat_toUInt64_of_nonneg (by omega)]
    omega
  have hcount : v.expanders.k.toUInt64.toNat = k := by
    rw [toNat_toUInt64_of_nonneg (by omega)]
    omega
  have hnext : (v.expanders.k.toUInt64 + 1).toNat = k + 1 := by
    rw [UInt64.toNat_add, hcount]
    exact Nat.mod_eq_of_lt (by simp only [UInt64.reduceToNat]; omega)
  have hd : 1 ≤ (v.expanders.d + 1).toInt := by
    rw [toInt_add_of rfl hone (by omega) (by omega)]
    omega
  have hzeros : zeros (2 * k + 1) = .ok (List.replicate (2 * k + 1) 0) := if_neg (by omega)
  -- the length of the row is kept by the loop
  obtain ⟨row, hrow, hlength⟩ := exists_foldlM_ok
    (f := fun (row : List Int64) (j : ℕ) => do
      let r ← genRange v.expanders.n (draw i (j + 1))
      setAt row (j + 1) (r + v.expanders.n * v.expanders.k))
    (Q := fun row => row.length = 2 * k + 1) (l := List.range k)
    (b := (List.replicate (2 * k + 1) (0 : Int64)).set 0 (start + .ofNat i + 1))
    (by
      intro j hj row hlength
      obtain ⟨r, hr⟩ := genRange_ok hn (draw i (j + 1))
      have hj := List.mem_range.mp hj
      refine ⟨row.set (j + 1) (r + v.expanders.n * v.expanders.k), ?_, ?_⟩
      · rw [hr]
        exact setAt_ok (by omega) _
      · rw [List.length_set]
        exact hlength)
    (by rw [List.length_set, List.length_replicate])
  obtain ⟨r, hr⟩ := genRange_ok hn (draw i (k + 1))
  have hlast : setAt row (k + 1) (r + v.expanders.n * (v.expanders.k - 1)) = .ok _ :=
    setAt_ok (by omega) _
  obtain ⟨out, hout⟩ := exists_mapM_ok
    (f := fun p : Int64 × ℕ => if p.2 < (v.expanders.k.toUInt64 + 2).toNat then pure p.1
      else genRange (v.expanders.d + 1) (draw i p.2)) |>.mpr (by
      intro p _
      split_ifs with hp
      · exact ⟨p.1, rfl⟩
      · exact genRange_ok hd _)
  refine ⟨out, ?_⟩
  have hrange : v.expanders.k.toInt.toNat = k := by omega
  have hfirst : setAt (List.replicate (2 * k + 1) 0) 0 (start + .ofNat i + 1) = .ok _ :=
    setAt_ok (by rw [List.length_replicate]; omega) _
  simp only [challengeRow, hcluster, hsize, hzeros, hnext, hrange, Dispatch.bind_eq_ok]
  exact ⟨_, rfl, _, hfirst, row, hrow, r, hr, _, hlast, hout⟩

/-- With sensible numbers there is a challenge for every buffer with a file. -/
theorem exists_commitChallenges {v : Verifier} (hv : v.Sensible) {id : List UInt8}
    {node : ProverNode} (hnode : v.nodeOf id = some node)
    (hfiles : node.commitBuf.fileIndexs ≠ []) (draw : ℕ → ℕ → ℕ) :
    ∃ chals, commitChallenges v draw id = .ok chals := by
  obtain ⟨first, rest, hfirst⟩ := List.exists_cons_of_ne_nil hfiles
  have hpos : ¬ (v.clusterSize = 0 ∨ (v.clusterSize = -1 ∧ first - 1 = Int64.minValue)) := by
    have hk := hv.k_pos
    rw [hv.clusterSize]
    rintro (h | ⟨h, -⟩)
    · rw [h] at hk
      exact absurd hk (by decide)
    · rw [h] at hk
      exact absurd hk (by decide)
  obtain ⟨chals, hchals⟩ := exists_mapM_ok (l := List.range idleSetLen)
    (f := challengeRow v ((first - 1) / v.clusterSize) draw) |>.mpr
    fun i _ => exists_challengeRow hv _ draw i
  refine ⟨chals, ?_⟩
  unfold commitChallenges
  rw [hnode]
  simp only [hfirst, List.getElem?_cons_zero, unwrap, bind, Except.bind]
  rw [if_neg hpos]
  exact hchals

/-! ## Watched tables -/

/-- The tables, and for which commits each challenge was made. -/
structure Watched where
  tables : Tables
  made : List (Commits × List (List Int64))

variable (T : Params)

/-- What an operation adds to the record of challenges: `commit_challenges` makes one for the commits
that are in the table. -/
def note (w : Watched) : TableOp → List (Commits × List (List Int64))
  | .commitChallenges id draw =>
    match w.tables.verifier.nodeOf id, commitChallenges w.tables.verifier draw id with
    | some node, .ok chals => (node.commitBuf, chals) :: w.made
    | _, _ => w.made
  | _ => w.made

/-- An operation on watched tables. -/
def watch (op : TableOp) (w : Watched) : op.Reply × Watched :=
  ((exec T op w.tables).1, { tables := (exec T op w.tables).2, made := note w op })

/-- **Commit before challenge**, for an operation that is about to be executed: a challenge is checked
against the commits that it was made for. -/
def Matched (w : Watched) : TableOp → Prop
  | .verifyCommitProofs id _ chals _ =>
    ∀ node, w.tables.verifier.nodeOf id = some node → (node.commitBuf, chals) ∈ w.made
  | _ => True

/-- The requests of one miner that commit files and prove them. -/
def Request.CommitsOf (m : List UInt8) : Request → Prop
  | .commitGenChall req => req.minerId = m
  | .verifyCommitProof req => req.minerId = m
  | .verifyDeletionProof _ => False

/-- The commits of a request are accepted: there is a root for each tree, the last one is the hash of
the others, and there is a first file. -/
def Request.Accepted (v : Verifier) : Request → Prop
  | .commitGenChall req => ∀ commits ∈ req.commit,
      acceptsCommits T v commits = true ∧ commits.fileIndexs ≠ []
  | _ => True

/-- A server that was just started. -/
def Starts (v : Verifier) (pool : Pool TableOp TableOp.Reply Failure Response (Request × Draws)
    Watched) : Prop :=
  pool.shared = { tables := { verifier := { v with nodes := ∅ }, chals := ∅ }, made := [] } ∧
    pool.tasks = []

/-! ## One request at a time -/

/-- Between two requests the challenge in the table was made for the commits in the table. -/
structure Kept (v : Verifier) (m : List UInt8) (w : Watched) : Prop where
  numbers : v.SameNumbers w.tables.verifier
  matched : ∀ chals, w.tables.chals.lookup m = some chals →
    ∃ node, w.tables.verifier.nodeOf m = some node ∧ (node.commitBuf, chals) ∈ w.made

variable {T} {v : Verifier} {m : List UInt8}

theorem nodeOf_putNode (s : Tables) (id : List UInt8) (node : ProverNode) :
    (s.putNode id node).verifier.nodeOf id = some node := AList.lookup_insert _

/-- The numbers stay with what a check leaves. -/
theorem Tables.sameNumbers_check {α : Type} (s : Tables) {x : VerifierM α}
    (hx : Keeps Verifier.SameNumbers x) :
    s.verifier.SameNumbers (s.check x).2.verifier := by
  have h := hx s.verifier
  unfold Dispatch.after at h
  unfold Tables.check
  cases hrun : x.run s.verifier with
  | ok a v' =>
    rw [hrun] at h
    exact h
  | error e v' =>
    rw [hrun] at h
    exact h

theorem Tables.chals_check {α : Type} (s : Tables) (x : VerifierM α) :
    (s.check x).2.chals = s.chals := by
  unfold Tables.check
  cases x.run s.verifier with
  | ok a v' => rfl
  | error e v' => rfl

/-- `receive_commits` leaves the tables or puts the commits into the node. -/
theorem receiveCommits_cases (s : Tables) (id : List UInt8) (commits : Commits) :
    receiveCommits T s id commits = (false, s) ∨
      ∃ node, s.verifier.nodeOf id = some node ∧
        receiveCommits T s id commits = (true, s.putNode id { node with commitBuf := commits }) := by
  unfold receiveCommits
  cases s.verifier.nodeOf id with
  | none => exact Or.inl rfl
  | some node =>
    dsimp only
    split_ifs
    · exact Or.inr ⟨node, rfl, rfl⟩
    · exact Or.inl rfl

/-- `logout_prover_node` leaves the tables or clears the node and answers its record. -/
theorem logoutProverNode_cases (s : Tables) (id : List UInt8) :
    logoutProverNode s id = (.ok ([], 0, 0), s) ∨
      logoutProverNode s id = (.error (.bail "Record not found"), s) ∨
      ∃ node record, s.verifier.nodeOf id = some node ∧ node.record = some record ∧
        logoutProverNode s id = (.ok (padAcc record.acc, record.front, record.rear),
          s.putNode id (loggedOut node record)) := by
  unfold logoutProverNode
  cases s.verifier.nodeOf id with
  | none => exact Or.inl rfl
  | some node =>
    dsimp only
    cases hrecord : node.record with
    | none => exact Or.inr (Or.inl rfl)
    | some record => exact Or.inr (Or.inr ⟨node, record, rfl, hrecord, rfl⟩)

/-- No operation changes the numbers of the verifier. -/
theorem sameNumbers_exec (op : TableOp) (s : Tables) :
    s.verifier.SameNumbers (exec T op s).2.verifier := by
  cases op with
  | verifyAcc id chals proof => exact s.sameNumbers_check (keeps_verifyAcc _ id chals proof)
  | verifyDeletion id proof => exact s.sameNumbers_check (keeps_verifyDeletion _ id proof)
  | receiveCommits id commits =>
    show s.verifier.SameNumbers (receiveCommits T s id commits).2.verifier
    rcases receiveCommits_cases (T := T) s id commits with h | ⟨node, -, h⟩
    · rw [h]
      exact ⟨rfl, rfl⟩
    · rw [h]
      exact ⟨rfl, rfl⟩
  | logoutProverNode id =>
    show s.verifier.SameNumbers (logoutProverNode s id).2.verifier
    rcases logoutProverNode_cases s id with h | h | ⟨node, record, -, -, h⟩
    · rw [h]
      exact ⟨rfl, rfl⟩
    · rw [h]
      exact ⟨rfl, rfl⟩
    · rw [h]
      exact ⟨rfl, rfl⟩
  | _ => exact ⟨rfl, rfl⟩

theorem chals_logout (id : List UInt8) (s : Tables) :
    (logoutProverNode s id).2.chals = s.chals := by
  rcases logoutProverNode_cases s id with h | h | ⟨node, record, -, -, h⟩
  · rw [h]
  · rw [h]
  · rw [h]
    rfl

variable {w : Watched} (hnumbers : v.SameNumbers w.tables.verifier)
  (hnone : w.tables.chals.lookup m = none)
include hnumbers hnone

/-- Without a challenge in the table nothing has to match. -/
theorem Kept.of_none : Kept v m w := by
  refine ⟨hnumbers, fun chals hchals => ?_⟩
  rw [hnone] at hchals
  cases hchals

/-- A request without a challenge left in the table ends well. -/
theorem safe_signStatus (info : PoisInfo) :
    (signStatus T m info).Safe (watch T) (fun op w => Matched w op) (fun _ w => Kept v m w) w := by
  have hafter : Kept v m (watch T (.logoutProverNode m) w).2 := by
    refine Kept.of_none (IsTrans.trans _ _ _ hnumbers (sameNumbers_exec _ _)) ?_
    show (logoutProverNode w.tables m).2.chals.lookup m = none
    rw [chals_logout]
    exact hnone
  refine call_bind trivial (lift_bind (fun _ _ => hafter) fun state _ => ?_)
  exact lift_bind (fun _ _ => hafter) fun response _ => hafter

/-- The answer to a challenge that matches. -/
theorem safe_answerChallenge {chals : List (List Int64)}
    (hmade : ∀ node, w.tables.verifier.nodeOf m = some node → (node.commitBuf, chals) ∈ w.made)
    (draws : Draws) (accProof : Option AccProof) (info : PoisInfo)
    (proofs : List (List CommitProof)) :
    (answerChallenge T draws m accProof info proofs chals).Safe (watch T)
      (fun op w => Matched w op) (fun _ w => Kept v m w) w := by
  have hkept : Kept v m w := Kept.of_none hnumbers hnone
  refine call_bind hmade (lift_bind (fun _ _ => hkept) fun _ _ => ?_)
  refine lift_bind (fun _ _ => hkept) fun proof _ => call_bind trivial ?_
  have hnumbers' : v.SameNumbers (watch T (.verifyAcc m chals proof) w).2.tables.verifier :=
    IsTrans.trans _ _ _ hnumbers (sameNumbers_exec _ _)
  have hnone' : (watch T (.verifyAcc m chals proof) w).2.tables.chals.lookup m = none := by
    show (w.tables.check (verifyAcc T.toParams m chals proof)).2.chals.lookup m = none
    rw [Tables.chals_check]
    exact hnone
  refine lift_bind (fun _ _ => Kept.of_none hnumbers' hnone') fun _ _ => ?_
  exact safe_signStatus hnumbers' hnone' info

omit hnumbers hnone

/-- Alone, a request that proves commits checks the challenge that was made for them. -/
theorem safe_verifyCommitProof (h : Kept v m w) (draws : Draws) (accProof : Option AccProof)
    (info : PoisInfo) (proofs : List (List CommitProof)) :
    (verifyCommitProof T draws m accProof info proofs).Safe (watch T) (fun op w => Matched w op)
      (fun _ w => Kept v m w) w := by
  refine call_bind trivial (lift_bind (fun _ _ => h) fun buffer hbuffer => ?_)
  obtain ⟨node, hnode, rfl⟩ := Option.map_eq_some_iff.mp (orPanic_eq_ok.mp hbuffer)
  -- the buffer goes back into the table as it was
  refine call_bind trivial (call_bind trivial ?_)
  have hnone : (w.tables.chals.erase m).lookup m = none := AList.lookup_erase m _
  refine lift_bind (fun _ _ => Kept.of_none h.numbers hnone) fun chals hchals => ?_
  have hfound : w.tables.chals.lookup m = some chals := orStatus_eq_ok.mp hchals
  obtain ⟨node', hnode', hmade⟩ := h.matched chals hfound
  obtain rfl := Option.mem_unique hnode hnode'
  refine safe_answerChallenge (w := ⟨⟨(w.tables.putNode m
    { proverNode m info with commitBuf := node.commitBuf }).verifier, w.tables.chals.erase m⟩,
    w.made⟩) h.numbers hnone ?_ draws accProof info proofs
  intro stored hstored
  obtain rfl := Option.mem_unique (nodeOf_putNode w.tables m _) hstored
  exact hmade

/-- Alone, a request with acceptable commits leaves a challenge that was made for them. -/
theorem safe_commitGenChall (hv : v.Sensible) (h : Kept v m w) (draws : Draws) {commits : Commits}
    (haccepts : acceptsCommits T v commits = true) (hfiles : commits.fileIndexs ≠ []) :
    (commitGenChall T draws m commits).Safe (watch T) (fun op w => Matched w op)
      (fun _ w => Kept v m w) w := by
  refine call_bind trivial (call_bind trivial ?_)
  show Prog.Safe (watch T) _ _ (if (receiveCommits T (w.tables.putNode m ⟨m, noCommits, none⟩) m
    commits).1 = false then _ else _)
    ⟨(receiveCommits T (w.tables.putNode m ⟨m, noCommits, none⟩) m commits).2, w.made⟩
  -- the tables with the empty node, and with the commits in it
  have hnode₁ := nodeOf_putNode w.tables m ⟨m, noCommits, none⟩
  have hnumbers₁ : v.SameNumbers (w.tables.putNode m ⟨m, noCommits, none⟩).verifier := h.numbers
  generalize w.tables.putNode m ⟨m, noCommits, none⟩ = s₁ at *
  have hreceived : receiveCommits T s₁ m commits = (true, s₁.putNode m ⟨m, commits, none⟩) := by
    have hsame : acceptsCommits T s₁.verifier commits = true := by
      unfold acceptsCommits at haccepts ⊢
      rw [hnumbers₁.1, hnumbers₁.2]
      exact haccepts
    unfold receiveCommits
    rw [hnode₁]
    exact if_pos ⟨rfl, hsame⟩
  have hnode₂ := nodeOf_putNode s₁ m ⟨m, commits, none⟩
  have hnumbers₂ : v.SameNumbers (s₁.putNode m ⟨m, commits, none⟩).verifier := hnumbers₁
  generalize s₁.putNode m ⟨m, commits, none⟩ = s₂ at *
  have hsensible : s₂.verifier.Sensible := by
    obtain ⟨hc, he⟩ := hnumbers₂
    exact ⟨by rw [hc, he]; exact hv.clusterSize, by rw [he]; exact hv.k_pos,
      by rw [he]; exact hv.k_lt, by rw [he]; exact hv.n_pos, by rw [he]; exact hv.d_nonneg,
      by rw [he]; exact hv.d_lt⟩
  obtain ⟨chals, hchals⟩ := exists_commitChallenges hsensible hnode₂ hfiles draws.challenge
  have hnote : note ⟨s₂, w.made⟩ (.commitChallenges m draws.challenge) =
      (commits, chals) :: w.made := by
    unfold note
    dsimp only
    rw [hnode₂, hchals]
  rw [hreceived]
  refine call_bind trivial ?_
  have hreply : (watch T (.commitChallenges m draws.challenge) ⟨s₂, w.made⟩).1 =
      (Except.ok chals : Except Error (List (List Int64))) := hchals
  have hstate : (watch T (.commitChallenges m draws.challenge) ⟨s₂, w.made⟩).2 =
      ⟨s₂, (commits, chals) :: w.made⟩ := by
    rw [← hnote]
    rfl
  rw [hreply, hstate]
  refine call_bind trivial ?_
  have hkept : Kept v m ⟨{ s₂ with chals := s₂.chals.insert m chals }, (commits, chals) :: w.made⟩ := by
    refine ⟨hnumbers₂, fun found hfound => ⟨⟨m, commits, none⟩, hnode₂, ?_⟩⟩
    obtain rfl := Option.mem_unique (AList.lookup_insert _) hfound
    exact List.mem_cons_self
  cases T.podr2Sign (T.sha256 (T.encodeChallenge chals)).val with
  | error e => exact hkept
  | ok sign => exact hkept

/-- Every request, alone. -/
theorem safe_handler (hv : v.Sensible) {arrival : Request × Draws} (hkind : arrival.1.CommitsOf m)
    (haccepted : arrival.1.Accepted T v) (h : Kept v m w) :
    (handler T arrival).Safe (watch T) (fun op w => Matched w op)
      (fun _ w => Kept v m w ∧ True) w := by
  refine Prog.Safe.mono (fun _ _ hop => hop) (fun _ _ hr => ⟨hr, trivial⟩) ?_
  obtain ⟨request, draws⟩ := arrival
  cases request with
  | commitGenChall req =>
    obtain rfl : req.minerId = m := hkind
    refine lift_bind (fun _ _ => h) fun _ _ => ?_
    refine lift_bind (fun _ _ => h) fun _ _ => ?_
    refine lift_bind (fun _ _ => h) fun commits hcommits => ?_
    obtain ⟨haccepts, hfiles⟩ := haccepted commits (orStatus_eq_ok.mp hcommits)
    exact safe_commitGenChall hv h draws haccepts hfiles
  | verifyCommitProof req =>
    obtain rfl : req.minerId = m := hkind
    refine lift_bind (fun _ _ => h) fun _ _ => call_bind trivial ?_
    refine lift_bind (fun _ _ => h) fun _ _ => ?_
    refine lift_bind (fun _ _ => h) fun _ _ => ?_
    refine lift_bind (fun _ _ => h) fun out _ => ?_
    exact safe_verifyCommitProof h draws req.accProof out.1 out.2
  | verifyDeletionProof req => exact hkind.elim

/-- **Commit before challenge, one request at a time.**  In every run in which the requests of the
miner do not overlap and their commits are acceptable, the operation that a task is about to execute
checks a challenge only against the commits that it was made for. -/
theorem matched_of_serial (hv : v.Sensible)
    {pool : Pool TableOp TableOp.Reply Failure Response (Request × Draws) Watched}
    (h : Runs.Reach (Starts v) (step (watch T) (handler T))
      (Serial fun arrival => arrival.1.CommitsOf m ∧ arrival.1.Accepted T v) pool) {t : ℕ}
    {task : Task TableOp TableOp.Reply Failure Response (Request × Draws)}
    (ht : pool.tasks[t]? = some task) {op : TableOp} {next : op.Reply → Handler Response}
    (hprog : task.prog = .act op next)
    (hok : Serial (fun arrival : Request × Draws => arrival.1.CommitsOf m ∧ arrival.1.Accepted T v)
      pool (.run t)) :
    Matched pool.shared op := by
  have hsafe : ∀ (arrival : Request × Draws) (w : Watched),
      (arrival.1.CommitsOf m ∧ arrival.1.Accepted T v) → Kept v m w →
      (handler T arrival).Safe (watch T) (fun op w => Matched w op)
        (fun _ w => Kept v m w ∧ True) w :=
    fun arrival w hallowed hkept => safe_handler hv hallowed.1 hallowed.2 hkept
  have hstart : ∀ pool, Starts v pool → Kept v m pool.shared ∧ pool.tasks = [] := by
    rintro pool ⟨hshared, htasks⟩
    refine ⟨?_, htasks⟩
    rw [hshared]
    exact Kept.of_none ⟨rfl, rfl⟩ rfl
  exact (Pool.Calm.of_reach (Q := fun _ op w => Matched w op) hsafe hstart h).next hsafe ht hprog hok

/-! ## Two runs -/

deriving instance DecidableEq for Commits

instance (m : List UInt8) : (request : Request) → Decidable (request.CommitsOf m)
  | .commitGenChall req => inferInstanceAs (Decidable (req.minerId = m))
  | .verifyCommitProof req => inferInstanceAs (Decidable (req.minerId = m))
  | .verifyDeletionProof _ => inferInstanceAs (Decidable False)

instance (T : Params) (v : Verifier) : (request : Request) → Decidable (request.Accepted T v)
  | .commitGenChall req => inferInstanceAs (Decidable (∀ commits ∈ req.commit,
      acceptsCommits T v commits = true ∧ commits.fileIndexs ≠ []))
  | .verifyCommitProof _ => inferInstanceAs (Decidable True)
  | .verifyDeletionProof _ => inferInstanceAs (Decidable True)

/-- Commits to the given files under empty roots; the last root is their hash for the examples. -/
def emptyRoots (files : List Int64) (layers : ℕ) : Commits where
  fileIndexs := files
  roots := List.replicate (layers * 32) [] ++ [List.replicate 32 0]

/-- A request of the miner `7…7` that commits. -/
def commitOf (commits : Commits) : Request :=
  .commitGenChall
    { minerId := List.replicate 32 7, commit := some commits, minerSign := List.replicate 64 0 }

/-- A request of the miner `7…7` that answers a challenge with empty rows. -/
def answerOf (rows : ℕ) : Request :=
  .verifyCommitProof
    { commitProofGroup := some (List.replicate rows [])
      accProof := none
      minerId := List.replicate 32 7
      poisInfo := some (stampedInfo 1 0 0)
      minerSign := List.replicate 64 0 }

/-- The task is about to have a challenge checked. -/
def atCheck (t : ℕ) (pool : Pool TableOp TableOp.Reply Failure Response (Request × Draws) Watched) :
    Bool :=
  match pool.tasks[t]? with
  | some ⟨_, _, .act (.verifyCommitProofs _ _ _ _) _⟩ => true
  | _ => false

theorem exists_of_atCheck {t : ℕ}
    {pool : Pool TableOp TableOp.Reply Failure Response (Request × Draws) Watched}
    (h : atCheck t pool = true) :
    ∃ task id draw chals proofs next, pool.tasks[t]? = some task ∧
      task.prog = .act (.verifyCommitProofs id draw chals proofs) next := by
  unfold atCheck at h
  split at h
  · rename_i request started id draw chals proofs next ht
    exact ⟨_, id, draw, chals, proofs, next, ht, rfl⟩
  · cases h

/-- A server that was just started. -/
def startPool (k : Int64) : Pool TableOp TableOp.Reply Failure Response (Request × Draws) Watched where
  shared := ⟨⟨⟨k, ⟨k, 1, 1⟩, ∅⟩, ∅⟩, []⟩
  tasks := []

theorem matched_of_serial_one :
    ∃ pool task id draw chals proofs next,
      Runs.Reach (Starts ⟨1, ⟨1, 1, 1⟩, ∅⟩) (step (watch stampParams) (handler stampParams))
        (Serial fun arrival => arrival.1.CommitsOf (List.replicate 32 7) ∧
          arrival.1.Accepted stampParams ⟨1, ⟨1, 1, 1⟩, ∅⟩) pool ∧
      pool.tasks[1]? = some task ∧
      task.prog = .act (.verifyCommitProofs id draw chals proofs) next ∧
      Matched pool.shared (.verifyCommitProofs id draw chals proofs) := by
  have hv : Verifier.Sensible ⟨1, ⟨1, 1, 1⟩, ∅⟩ := by
    constructor
    all_goals decide
  obtain ⟨pool, hreach, hcheck⟩ := exists_of_play (watch stampParams) (handler stampParams)
    (Starts ⟨1, ⟨1, 1, 1⟩, ∅⟩)
    (Serial fun arrival => arrival.1.CommitsOf (List.replicate 32 7) ∧
      arrival.1.Accepted stampParams ⟨1, ⟨1, 1, 1⟩, ∅⟩)
    (show Starts _ (startPool 1) from ⟨rfl, rfl⟩)
    [.spawn (commitOf (emptyRoots [1] 2), zeroDraws), .run 0, .run 0, .run 0, .run 0,
      .spawn (answerOf 32, zeroDraws), .run 1, .run 1, .run 1, .run 1]
    (fun pool => atCheck 1 pool && decide (Serial (fun arrival : Request × Draws =>
      arrival.1.CommitsOf (List.replicate 32 7) ∧
        arrival.1.Accepted stampParams ⟨1, ⟨1, 1, 1⟩, ∅⟩) pool (.run 1)))
    (by decide +kernel)
  rw [Bool.and_eq_true, decide_eq_true_eq] at hcheck
  obtain ⟨task, id, draw, chals, proofs, next, ht, hprog⟩ := exists_of_atCheck hcheck.1
  exact ⟨pool, task, id, draw, chals, proofs, next, hreach, ht, hprog,
    matched_of_serial hv hreach ht hprog hcheck.2⟩

/-- The requests are as in `matched_of_serial`, but they may overlap. -/
def Arriving (T : Params) (v : Verifier) (m : List UInt8)
    (_ : Pool TableOp TableOp.Reply Failure Response (Request × Draws) Watched) :
    Action (Request × Draws) → Prop
  | .spawn arrival => arrival.1.CommitsOf m ∧ arrival.1.Accepted T v
  | .run _ => True

instance (T : Params) (v : Verifier) (m : List UInt8)
    (pool : Pool TableOp TableOp.Reply Failure Response (Request × Draws) Watched) :
    (a : Action (Request × Draws)) → Decidable (Arriving T v m pool a)
  | .spawn arrival =>
    inferInstanceAs (Decidable (arrival.1.CommitsOf m ∧ arrival.1.Accepted T v))
  | .run _ => inferInstanceAs (Decidable True)

/-- A task is about to have a challenge checked against commits of the right size that it was not
made for. -/
def mismatched (t : ℕ)
    (pool : Pool TableOp TableOp.Reply Failure Response (Request × Draws) Watched) : Bool :=
  match pool.tasks[t]? with
  | some ⟨_, _, .act (.verifyCommitProofs id _ chals _) _⟩ =>
    match pool.shared.tables.verifier.nodeOf id with
    | some node =>
      decide (node.commitBuf.fileIndexs.length = 256 ∧ node.commitBuf.roots.length = 513 ∧
        chals.length = 32 ∧ (node.commitBuf, chals) ∉ pool.shared.made)
    | none => false
  | _ => false

/-- **An old challenge for new commits.**  A first commit gets its challenge; a second one is received
but has no challenge yet when the miner answers the first challenge: it is checked against the
second commits, of which the miner knew the challenge when it stored them. -/
theorem challenge_of_other_commits :
    ∃ pool task id draw chals proofs next node,
      Runs.Reach (Starts ⟨8, ⟨8, 1, 1⟩, ∅⟩) (step (watch stampParams) (handler stampParams))
        (Arriving stampParams ⟨8, ⟨8, 1, 1⟩, ∅⟩ (List.replicate 32 7)) pool ∧
      pool.tasks[2]? = some task ∧
      task.prog = .act (.verifyCommitProofs id draw chals proofs) next ∧
      pool.shared.tables.verifier.nodeOf id = some node ∧
      (node.commitBuf.fileIndexs.length = 256 ∧ node.commitBuf.roots.length = 513 ∧
        chals.length = 32) ∧
      ¬ Matched pool.shared (.verifyCommitProofs id draw chals proofs) := by
  obtain ⟨pool, hreach, hcheck⟩ := exists_of_play (watch stampParams) (handler stampParams)
    (Starts ⟨8, ⟨8, 1, 1⟩, ∅⟩) (Arriving stampParams ⟨8, ⟨8, 1, 1⟩, ∅⟩ (List.replicate 32 7))
    (show Starts _ (startPool 8) from ⟨rfl, rfl⟩)
    [.spawn (commitOf (emptyRoots ((List.range 256).map fun i => .ofNat (i + 1)) 16), zeroDraws),
      .run 0, .run 0, .run 0, .run 0,
      .spawn (commitOf (emptyRoots ((List.range 256).map fun i => .ofNat (i + 257)) 16), zeroDraws),
      .run 1, .run 1,
      .spawn (answerOf 32, zeroDraws), .run 2, .run 2, .run 2, .run 2]
    (mismatched 2) (by decide +kernel)
  unfold mismatched at hcheck
  split at hcheck
  · rename_i request started id draw chals proofs next ht
    split at hcheck
    · rename_i node hnode
      obtain ⟨hfiles, hroots, hchals, hmade⟩ := of_decide_eq_true hcheck
      exact ⟨pool, _, id, draw, chals, proofs, next, node, hreach, ht, rfl, hnode,
        ⟨hfiles, hroots, hchals⟩, fun hmatched => hmade (hmatched node hnode)⟩
    · cases hcheck
  · cases hcheck

end PoisServer
