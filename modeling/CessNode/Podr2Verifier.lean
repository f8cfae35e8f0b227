/-
# The verifier of service proofs

The model of `request_batch_verify` in `crates/cestory/src/podr2.rs`.  A miner sends the names of
its files, an aggregated proof, the numbers `u` of the tags and signatures of them, and the worker
signs the verdict of `batchVerify`.  Since anybody can choose numbers `u` that make the equation of
`batchVerify` true, a part of the `u` has to carry a signature of the worker; how large the part is,
the code computes in floating point from the number of signatures it was given.

* `roundF64` : rounding to the 53 bits of an `f64`;
* `uSigLimit` and `uSigLimit_eq` : the number of signatures that are checked;
* `verified_enough_iff` : enough signatures have been checked under a positive verdict exactly if
  there were enough of them;
* `forged_service_proof` : the verdict on a request without any.
-/
import CessNode.Podr2Batch
import CessNode.Sminer

/-! ## Rounding -/

/-- A number rounded to the 53 significant bits of an `f64`, halves to the even neighbour. -/
def roundF64 (x : ℕ) : ℕ :=
  let unit := 2 ^ (Nat.log2 x + 1 - 53)
  let kept := x / unit
  let rest := x % unit
  if unit < 2 * rest ∨ unit = 2 * rest ∧ kept % 2 = 1 then (kept + 1) * unit else kept * unit

/-- Small numbers are not rounded. -/
theorem roundF64_of_lt {x : ℕ} (h : x < 2 ^ 53) : roundF64 x = x := by
  have hlog : Nat.log2 x + 1 - 53 = 0 := by
    rcases Nat.eq_zero_or_pos x with rfl | hpos
    · rfl
    · have := (Nat.log2_lt hpos.ne').mpr h
      omega
  unfold roundF64
  rw [hlog]
  simp [Nat.mod_one]

/-- What rounding does to a number with at least 53 bits: the result is a multiple of the unit of
the last place, at most half a unit away. -/
theorem roundF64_spec {x : ℕ} (h : 2 ^ 52 ≤ x) :
    ∃ d, 2 ^ d ∣ roundF64 x ∧ 2 ^ d * 2 ^ 52 ≤ x ∧ x < 2 ^ d * 2 ^ 53 ∧
      2 * roundF64 x ≤ 2 * x + 2 ^ d ∧ 2 * x ≤ 2 * roundF64 x + 2 ^ d := by
  have hne : x ≠ 0 := by
    omega
  obtain ⟨d, hd⟩ : ∃ d, Nat.log2 x = 52 + d := ⟨_, (Nat.add_sub_cancel'
    ((Nat.le_log2 hne).mpr h)).symm⟩
  have hlow : 2 ^ d * 2 ^ 52 ≤ x := by
    rw [← pow_add, Nat.add_comm, ← hd]
    exact Nat.log2_self_le hne
  have hhigh : x < 2 ^ d * 2 ^ 53 := by
    rw [← pow_add, show d + 53 = 52 + d + 1 by omega, ← hd]
    exact Nat.lt_log2_self
  have hdropped : Nat.log2 x + 1 - 53 = d := by omega
  have hsplit := Nat.div_add_mod x (2 ^ d)
  rw [Nat.mul_comm] at hsplit
  refine ⟨d, ?_, hlow, hhigh, ?_⟩
  · unfold roundF64
    rw [hdropped]
    dsimp only
    split_ifs
    · exact Nat.dvd_mul_left _ _
    · exact Nat.dvd_mul_left _ _
  · unfold roundF64
    rw [hdropped]
    dsimp only
    have hnext : (x / 2 ^ d + 1) * 2 ^ d = x / 2 ^ d * 2 ^ d + 2 ^ d := Nat.succ_mul _ _
    split_ifs with hup
    · omega
    · omega

theorem roundF64_le (x : ℕ) : roundF64 x ≤ 2 * x := by
  by_cases h : x < 2 ^ 53
  · rw [roundF64_of_lt h]
    omega
  · obtain ⟨d, -, hlow, -, hle, -⟩ := roundF64_spec (show 2 ^ 52 ≤ x by omega)
    omega

namespace Podr2

open Pois (fromBytesBe)

/-! ## Signatures to check -/

/-- `(len as f64 * 0.049).ceil() as usize`; the nearest `f64` to 0.049 is 7061644215716938 in units
of `2 ^ -57`. -/
def uSigLimit (len : ℕ) : ℕ := (roundF64 (roundF64 len * 7061644215716938) + (2 ^ 57 - 1)) / 2 ^ 57

/-- The part of the `u` that has to be signed. -/
def uSigNeeded (len : ℕ) : ℕ := (49 * len + 999) / 1000

/-- **The limit is computed exactly**, as long as the numbers are not huge. -/
theorem uSigLimit_eq {len : ℕ} (h : len < 2 ^ 40) : uSigLimit len = uSigNeeded len := by
  rcases Nat.eq_zero_or_pos len with rfl | hpos
  · decide
  unfold uSigLimit uSigNeeded
  rw [roundF64_of_lt (h.trans (by decide))]
  obtain ⟨d, hdvd, hlow, hhigh, hle, hge⟩ :=
    roundF64_spec (show 2 ^ 52 ≤ len * 7061644215716938 by omega)
  generalize roundF64 (len * 7061644215716938) = r at *
  generalize hunit : 2 ^ d = unit at *
  obtain ⟨a, b, hb, rfl⟩ : ∃ a b, b < 1000 ∧ len = 1000 * a + b :=
    ⟨len / 1000, len % 1000, Nat.mod_lt _ (by decide), (Nat.div_add_mod _ _).symm⟩
  rcases Nat.eq_zero_or_pos b with rfl | hbpos
  · -- an exact multiple: the error of the constant is less than half a unit
    have hexact : r = 49 * a * 2 ^ 57 := by
      have hd : d ≤ 57 := by
        by_contra hd
        have : 2 ^ 58 ≤ 2 ^ d := Nat.pow_le_pow_right (by decide) (by omega)
        omega
      obtain ⟨j, hj⟩ : unit ∣ 49 * a * 2 ^ 57 := by
        rw [← hunit]
        exact (pow_dvd_pow 2 hd).mul_left _
      obtain ⟨k, rfl⟩ := hdvd
      have hk : unit * k < unit * (j + 1) := by
        rw [Nat.mul_succ]
        omega
      have hj' : unit * j < unit * (k + 1) := by
        rw [Nat.mul_succ]
        omega
      have hk₁ := Nat.lt_of_mul_lt_mul_left hk
      have hj₁ := Nat.lt_of_mul_lt_mul_left hj'
      rw [hj, show k = j by omega]
    omega
  · have hceil : (49 * (1000 * a + b) + 999) / 1000 = 49 * a + (49 * b + 999) / 1000 := by omega
    generalize hc : (49 * b + 999) / 1000 = c
    have hc₂ : 49 * b < 1000 * c := by omega
    omega

theorem uSigLimit_le (len : ℕ) : uSigLimit len ≤ len := by
  have hfirst := roundF64_le len
  have hsecond := roundF64_le (roundF64 len * 7061644215716938)
  unfold uSigLimit
  omega

theorem uSigNeeded_le (len : ℕ) : uSigNeeded len ≤ len := by
  unfold uSigNeeded
  omega

/-! ## Requests -/

/-- `Qslice`. -/
structure Qslice where
  randomIndexList : List ℕ
  randomList : List (List UInt8)

/-- `BatchVerifyParam`. -/
structure BatchVerifyParam where
  names : List String
  us : List String
  mus : List String
  sigma : String

/-- `RequestBatchVerify`. -/
structure RequestBatchVerify where
  aggProof : Option BatchVerifyParam
  qslices : Option Qslice
  uSigs : List (List UInt8)
  minerId : List UInt8

/-- `ResponseBatchVerify`. -/
structure ResponseBatchVerify where
  batchVerifyResult : Bool
  teeAccountId : Bytes 32
  serviceBloomFilter : Sminer.BloomFilter
  signature : List UInt8

/-- `Challenge`. -/
structure Challenge where
  randomIndexList : BoundedVec ℕ 1024
  randomList : BoundedVec (Bytes 20) 1024

/-- `VerifyServiceResultInfo`. -/
structure VerifyServiceResultInfo where
  minerPbk : Bytes 32
  teeAccountId : Bytes 32
  sigma : List UInt8
  result : Bool
  chal : Challenge
  serviceBloomFilter : Sminer.BloomFilter

/-- The codes of `Status` that the handler uses. -/
inductive Code where
  | invalidArgument
  | internal
  | aborted
  deriving DecidableEq, Repr

/-- Why a request fails. -/
inductive Failure where
  | status (code : Code) (message : String)
  | panic
  deriving DecidableEq, Repr

/-- A value, or the status. -/
def orStatus {α : Type} (o : Option α) (code : Code) (message : String) : Except Failure α :=
  match o with
  | some a => .ok a
  | none => .error (.status code message)

/-- `try_into` an array. -/
def toArray (n : ℕ) (l : List UInt8) : Option (Bytes n) :=
  if h : l.length = n then some ⟨l, h⟩ else none

/-- `Podr2VerifierServer`, and what it calls. -/
structure Verifier where
  sha256 : List UInt8 → Bytes 32
  /-- `podr2_keys`. -/
  keys : Keys
  /-- `verify_data` of `podr2_keys`, of a hash and a signature. -/
  verifyData : List UInt8 → List UInt8 → Bool
  /-- `sign_data` of `master_key`. -/
  signData : List UInt8 → List UInt8
  /-- `ceseal_identity_key`. -/
  cesealIdentityKey : Bytes 32
  /-- `encode` of the signed verdict. -/
  encode : VerifyServiceResultInfo → List UInt8

/-- The loop of `convert_to_q_elements`, over the indices and the numbers that are left. -/
def convertElements : List ℕ → List (List UInt8) → List QElement × Challenge →
    Except Failure (List QElement × Challenge)
  | [], _, acc => .ok acc
  | _ :: _, [], _ => .error .panic
  | index :: indices, v :: numbers, (chal1, chal2) => do
    let number ← orStatus (toArray 20 v) .invalidArgument
      "The challenge number length of a single challenge is not 20!"
    let randomIndexList ← orStatus (chal2.randomIndexList.tryPush index) .internal
      "Failed to convert random_index_list for calculate encode value!"
    let randomList ← orStatus (chal2.randomList.tryPush number) .internal
      "Failed to convert random_list for calculate encode value!"
    convertElements indices numbers (chal1 ++ [{ i := index, v := v }],
      { randomIndexList := randomIndexList, randomList := randomList })

/-- `convert_to_q_elements`. -/
def convertToQElements (qslices : Qslice) : Except Failure (List QElement × Challenge) :=
  convertElements qslices.randomIndexList qslices.randomList
    ([], { randomIndexList := .empty, randomList := .empty })

/-- A round of the loop that computes the filter. -/
def bloomStep (filter : Sminer.BloomFilter) (name : String) : Except Failure Sminer.BloomFilter := do
  let filehash ← orStatus (toArray 64 (bytesOf name)) .invalidArgument
    ("The provided name hash " ++ name.quote ++ " is incorrect")
  let data ← orStatus (Hash.binary filehash) .invalidArgument
    ("The provided hex " ++ name.quote ++ " is wrong")
  orStatus (filter.insert data) .internal "Failed to calculate bloom filter :InsertError"

/-- The pairs of a signature and a `u` that are looked at. -/
def uPairs (uSigs : List (List UInt8)) (us : List String) : List (List UInt8 × String) :=
  (uSigs.zip us).take (uSigLimit uSigs.length)

namespace Verifier

variable (S : Verifier)

/-- The check of one pair. -/
def uSigOk (pair : List UInt8 × String) : Bool :=
  S.verifyData (S.sha256 (bytesOf pair.2)).val pair.1

/-- The pairs for which `verify_data` has returned `Ok`: the loop stops at the first other one. -/
def verifiedPairs (uSigs : List (List UInt8)) (us : List String) :
    List (List UInt8 × String) :=
  (uPairs uSigs us).takeWhile S.uSigOk

/-- The verdict, for the order in which the threads deliver; `none` if there is none ever. -/
def verdict (qElements : List QElement) (uSigs : List (List UInt8)) (aggProof : BatchVerifyParam)
    (order : List ℕ) : Option (Except Failure Bool) :=
  if aggProof.names = [] then some (.ok true)
  else if (uPairs uSigs aggProof.us).all S.uSigOk = false then
    some (.error (.status .internal
      "The u_sig passed in is inconsistent with the u in the corresponding tag."))
  else
    match batchVerify S.sha256 S.keys aggProof.us aggProof.names qElements aggProof.sigma
      aggProof.mus order with
    | none => none
    | some (.ok result) => some (.ok result)
    | some (.error .panic) => some (.error .panic)
    | some (.error (.internal message)) | some (.error (.parameter message)) =>
      some (.error (.status .aborted
        ("AlgorithmError: aggregate verify idle file error " ++ message.quote)))

/-- The parameters of a request, after the first checks. -/
structure Accepted where
  aggProof : BatchVerifyParam
  qElements : List QElement
  chal : Challenge
  minerId : Bytes 32
  serviceBloomFilter : Sminer.BloomFilter

/-- The first part of `request_batch_verify`; `lock` is the text of the error if the pool of
threads cannot be locked. -/
def accept (lock : Option String) (request : RequestBatchVerify) : Except Failure Accepted := do
  let aggProof ← orStatus request.aggProof .invalidArgument "Lack of request parameter agg_proof"
  let qslices ← orStatus request.qslices .invalidArgument "Lack of request parameter qslices"
  let (qElements, chal) ← convertToQElements qslices
  let minerId ← orStatus (toArray 32 request.minerId) .internal
    "There is a problem with the format of miner_id"
  let filter ← aggProof.names.foldlM bloomStep fun _ => 0
  match lock with
  | some message => throw (.status .internal ("lock global threadpool fail:" ++ message))
  | none => pure ⟨aggProof, qElements, chal, minerId, filter⟩

/-- The last part: the verdict is signed. -/
def sign (p : Accepted) (result : Bool) : ResponseBatchVerify where
  batchVerifyResult := result
  teeAccountId := S.cesealIdentityKey
  serviceBloomFilter := p.serviceBloomFilter
  signature := S.signData (S.sha256 (S.encode
    { minerPbk := p.minerId, teeAccountId := S.cesealIdentityKey, sigma := bytesOf p.aggProof.sigma
      result := result, chal := p.chal, serviceBloomFilter := p.serviceBloomFilter })).val

/-- `request_batch_verify`; `none` if it never returns. -/
def requestBatchVerify (lock : Option String) (order : List ℕ) (request : RequestBatchVerify) :
    Option (Except Failure ResponseBatchVerify) :=
  match accept lock request with
  | .error e => some (.error e)
  | .ok p =>
    match S.verdict p.qElements request.uSigs p.aggProof order with
    | none => none
    | some (.error e) => some (.error e)
    | some (.ok result) => some (.ok (S.sign p result))

/-! ## Positive verdicts -/

variable {S} {lock : Option String} {order : List ℕ} {request : RequestBatchVerify}
  {response : ResponseBatchVerify} {aggProof : BatchVerifyParam}

theorem orStatus_ok {α : Type} {o : Option α} {code : Code} {message : String} {a : α}
    (h : orStatus o code message = .ok a) : o = some a := by
  cases o with
  | none => cases h
  | some b =>
    obtain rfl := Except.ok.inj h
    rfl

theorem accept_aggProof {p : Accepted} (h : accept lock request = .ok p) :
    request.aggProof = some p.aggProof := by
  obtain ⟨aggProof, hagg, h⟩ := Dispatch.bind_eq_ok.mp h
  obtain ⟨qslices, -, h⟩ := Dispatch.bind_eq_ok.mp h
  obtain ⟨⟨qElements, chal⟩, -, h⟩ := Dispatch.bind_eq_ok.mp h
  obtain ⟨minerId, -, h⟩ := Dispatch.bind_eq_ok.mp h
  obtain ⟨filter, -, h⟩ := Dispatch.bind_eq_ok.mp h
  rw [orStatus_ok hagg]
  cases lock with
  | some => cases h
  | none =>
    obtain rfl := Except.ok.inj h
    rfl

/-- A positive verdict on some files means that all pairs that were looked at are in order. -/
theorem all_uSigOk {qElements : List QElement} {uSigs : List (List UInt8)}
    (h : S.verdict qElements uSigs aggProof order = some (.ok true))
    (hnames : aggProof.names ≠ []) : (uPairs uSigs aggProof.us).all S.uSigOk = true := by
  unfold verdict at h
  rw [if_neg hnames] at h
  split_ifs at h with hall
  · cases h
  · rwa [Bool.not_eq_false] at hall

/-- As many pairs have been verified as were looked at. -/
theorem length_verifiedPairs {uSigs : List (List UInt8)} {us : List String}
    (h : (uPairs uSigs us).all S.uSigOk = true) :
    (S.verifiedPairs uSigs us).length = min (uSigLimit uSigs.length) us.length := by
  have hlimit := uSigLimit_le uSigs.length
  unfold verifiedPairs
  rw [List.takeWhile_eq_self_iff.mpr (List.all_eq_true.mp h)]
  unfold uPairs
  rw [List.length_take, List.length_zip]
  omega

/-- **Who checks the signatures.**  When a request with names is answered with a signed positive
verdict, the part of the `u` that has to be signed has been verified if and only if the same part
of the signatures is as large; it is computed in floating point, which is exact for all numbers of
signatures that fit in a memory. -/
theorem verified_enough_iff
    (h : S.requestBatchVerify lock order request = some (.ok response))
    (hresult : response.batchVerifyResult = true) (hagg : request.aggProof = some aggProof)
    (hnames : aggProof.names ≠ []) :
    (uSigNeeded aggProof.us.length ≤ (S.verifiedPairs request.uSigs aggProof.us).length ↔
      uSigNeeded aggProof.us.length ≤ uSigLimit request.uSigs.length) ∧
    (request.uSigs.length < 2 ^ 40 →
      uSigLimit request.uSigs.length = uSigNeeded request.uSigs.length) := by
  have hall : (uPairs request.uSigs aggProof.us).all S.uSigOk = true := by
    unfold requestBatchVerify at h
    cases haccept : accept lock request with
    | error e =>
      rw [haccept] at h
      cases h
    | ok p =>
      obtain rfl : aggProof = p.aggProof := by
        rw [accept_aggProof haccept] at hagg
        exact (Option.some.inj hagg).symm
      rw [haccept] at h
      dsimp only at h
      split at h
      · cases h
      · cases h
      · rename_i result hverdict
        obtain rfl := Except.ok.inj (Option.some.inj h)
        obtain rfl : result = true := hresult
        exact all_uSigOk hverdict hnames
  have hneeded := uSigNeeded_le aggProof.us.length
  refine ⟨?_, uSigLimit_eq⟩
  rw [length_verifiedPairs hall]
  omega

/-- A worker whose hash keeps the length and the first bytes of a string, and that takes every
signature of a hash for valid that is its first byte. -/
def smallVerifier : Verifier where
  sha256 := Pois.shortHash 31
  keys := smallKeys
  verifyData hash sig := sig == hash.take 1
  signData hash := hash
  cesealIdentityKey := H256.zero
  encode info := if info.result then [1] else [0]

/-- A name of 64 hexadecimal digits is never refused by the filter. -/
theorem bloomStep_ok {name : String}
    (h : ((toArray 64 (bytesOf name)).bind Hash.binary).isSome = true)
    (filter : Sminer.BloomFilter) : ∃ filter', bloomStep filter name = .ok filter' := by
  obtain ⟨data, hdata⟩ := Option.isSome_iff_exists.mp h
  obtain ⟨filehash, hfilehash, hbinary⟩ := Option.bind_eq_some_iff.mp hdata
  have hbits : ∀ i, data i = 1 ∨ data i = 0 := by
    intro i
    obtain ⟨digits, -, rfl⟩ := Option.map_eq_some_iff.mp hbinary
    rcases Nat.mod_two_eq_zero_or_one (digits.getD (i / 4) 0 / 2 ^ (3 - i.val % 4)) with hbit | hbit
    · right
      dsimp only
      rw [hbit]
      rfl
    · left
      dsimp only
      rw [hbit]
      rfl
  have hinsert : filter.insert data = some fun i => filter i + (data i).toUInt64 := if_pos hbits
  refine ⟨fun i => filter i + (data i).toUInt64, ?_⟩
  simp only [bloomStep, hfilehash, hbinary, hinsert, orStatus, bind, Except.bind]

theorem accept_eq {request : RequestBatchVerify} {aggProof : BatchVerifyParam} {qslices : Qslice}
    {qElements : List QElement} {chal : Challenge} {minerId : Bytes 32}
    {filter : Sminer.BloomFilter} (hproof : request.aggProof = some aggProof)
    (hslices : request.qslices = some qslices)
    (hconvert : convertToQElements qslices = .ok (qElements, chal))
    (hminer : toArray 32 request.minerId = some minerId)
    (hfilter : aggProof.names.foldlM bloomStep (fun _ => 0) = .ok filter) :
    accept none request = .ok ⟨aggProof, qElements, chal, minerId, filter⟩ := by
  unfold accept
  rw [hproof, hslices, hminer]
  show (do
    let (qElements, chal) ← convertToQElements qslices
    let filter ← aggProof.names.foldlM bloomStep fun _ => 0
    pure (⟨aggProof, qElements, chal, minerId, filter⟩ : Accepted)) = _
  rw [hconvert, hfilter]
  rfl

theorem requestBatchVerify_eq {p : Accepted} {result : Bool}
    (haccept : accept lock request = .ok p)
    (hverdict : S.verdict p.qElements request.uSigs p.aggProof order = some (.ok result)) :
    S.requestBatchVerify lock order request = some (.ok (S.sign p result)) := by
  unfold requestBatchVerify
  simp only [haccept, hverdict]

/-- The name of a file. -/
def fileName : String := "0123456789abcdef0123456789abcdef0123456789abcdef0123456789abcdef"

/-- Numbers that satisfy the equation of `batchVerify` for every challenge. -/
def zeroProof : BatchVerifyParam where
  names := [fileName]
  us := ["0"]
  mus := ["1"]
  sigma := "0"

/-- The number of the challenge. -/
def challengeNumber : Bytes 20 := ⟨List.replicate 19 0 ++ [2], rfl⟩

/-- A request with these numbers for one file, and the given signatures. -/
def zeroRequest (uSigs : List (List UInt8)) : RequestBatchVerify where
  aggProof := some zeroProof
  qslices := some { randomIndexList := [7], randomList := [challengeNumber.val] }
  uSigs := uSigs
  minerId := List.replicate 32 1

/-- The request is answered with a positive verdict if its signatures are in order. -/
theorem zeroRequest_positive {uSigs : List (List UInt8)}
    (h : smallVerifier.verdict [{ i := 7, v := challengeNumber.val }] uSigs zeroProof [0] =
      some (.ok true)) :
    ∃ response, smallVerifier.requestBatchVerify none [0] (zeroRequest uSigs) =
      some (.ok response) ∧ response.batchVerifyResult = true := by
  have hhex : ((toArray 64 (bytesOf fileName)).bind Hash.binary).isSome = true := by decide +kernel
  obtain ⟨filter, hfilter⟩ := bloomStep_ok hhex fun _ => 0
  have hfold : zeroProof.names.foldlM bloomStep (fun _ => 0) = .ok filter := by
    simp only [zeroProof, List.foldlM_cons, hfilter]
    rfl
  have haccept : accept none (zeroRequest uSigs) = .ok ⟨zeroProof,
      [{ i := 7, v := challengeNumber.val }], ⟨⟨[7], by decide⟩, ⟨[challengeNumber], by decide⟩⟩,
      ⟨List.replicate 32 1, rfl⟩, filter⟩ :=
    accept_eq rfl rfl rfl rfl hfold
  exact ⟨_, requestBatchVerify_eq haccept h, rfl⟩

theorem verified_enough_iff_signed :
    ∃ response, smallVerifier.requestBatchVerify none [0] (zeroRequest [[1]]) =
        some (.ok response) ∧ response.batchVerifyResult = true ∧
      (uSigNeeded 1 ≤ (smallVerifier.verifiedPairs [[1]] ["0"]).length ↔
        uSigNeeded 1 ≤ uSigLimit 1) ∧ (1 < 2 ^ 40 → uSigLimit 1 = uSigNeeded 1) := by
  obtain ⟨response, hresponse, hresult⟩ := zeroRequest_positive (show
    smallVerifier.verdict _ [[1]] _ _ = _ by decide +kernel)
  refine ⟨response, hresponse, hresult, ?_⟩
  exact verified_enough_iff hresponse hresult rfl (List.cons_ne_nil _ _)

/-- **A forged service proof.**  With `u = 0` and `sigma = 0` the equation holds for every challenge
and every file.  A request that brings no signatures is answered with a signed positive verdict,
although one of its `u` has to be signed and none was verified. -/
theorem forged_service_proof :
    (∃ response, smallVerifier.requestBatchVerify none [0] (zeroRequest []) =
        some (.ok response) ∧ response.batchVerifyResult = true) ∧
      ¬ uSigNeeded 1 ≤ (smallVerifier.verifiedPairs [] ["0"]).length :=
  ⟨zeroRequest_positive (by decide +kernel), by decide +kernel⟩

end Verifier

end Podr2
