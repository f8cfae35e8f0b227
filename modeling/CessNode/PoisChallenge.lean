/-
# The challenge of idle space

The model of `new_challenge_handle` and the question which files it can ask for.  The files between
`front` and `rear` are cut into blocks of 256 and the blocks into groups of 16.  The handle asks for
one block of every group, which a hash picks.

`challengeComplete_iff` says when the handle does what it is for: every interval it asks for lies
behind `front`, and every block can be asked for.  The first fails if exactly one file of the first
block was deleted, since then the block is asked for with that file.  The second fails as soon as
there are two groups, since the hash of a full group is reduced modulo 15.
-/
import CessNode.PoisSpec

namespace Pois

/-! ## The handle -/

/-- `bytes_to_node_value`. -/
def bytesToNodeValue (data : List UInt8) (max : Int64) : Except Error Int32 :=
  if max = 0 then .error .panic
  else
    let value := Int64.ofInt ((fromBytesBe data : ℤ).tmod max.toInt)
    .ok ((value + max) % max).toInt32

/-- `file_num`. -/
def fileNum : Int64 := 256

/-- `group_size`. -/
def groupSize : Int64 := 16

/-- What the closure of `new_challenge_handle` captures: the source of the hash in front of the
prior hash, the prior hash, and its counters. -/
structure ChallengeHandle where
  source : List UInt8
  prior : List UInt8
  front : Int64
  rear : Int64
  total : Int64
  count : Int64

/-- The number of groups. -/
def challengeTotal (front rear : Int64) : Int64 :=
  (rear - front + front % fileNum - 1) / (fileNum * groupSize) + 1

/-- `new_challenge_handle`. -/
def newChallengeHandle (minerId teeId : List UInt8) (chal : List Int64) (front rear proofNum : Int64) :
    Option ChallengeHandle :=
  let total := challengeTotal front rear
  if total > proofNum then none
  else
    some
      { source := minerId ++ teeId ++ chal.flatMap getBytes
        prior := List.replicate 32 0
        front := front
        rear := rear
        total := total
        count := 0 }

/-- The interval of a block: its files, without those up to `front`. -/
def blockInterval (front block : Int64) : Int64 × Int64 :=
  let l := block * fileNum + 1
  let r := ((l - 1) / fileNum + 1) * fileNum + 1
  (if l < front then front + 1 else l, r)

/-- The interval that the closure asks for in the group with number `count`. -/
def demand (front rear total count : Int64) (hash : List UInt8) : Except Error (Int64 × Int64) := do
  let start := front / fileNum
  let max := if count = total - 1 then rear / fileNum - (start + count * groupSize)
    else groupSize - 1
  let v ← bytesToNodeValue hash max
  pure (blockInterval front (start + count * groupSize + v.toInt64))

/-- A call of the closure. -/
def ChallengeHandle.call (P : Params) (handle : ChallengeHandle) (priorHash : List UInt8)
    (left right : Int64) : Except Error (Bool × ChallengeHandle) := do
  let prior ←
    if priorHash.isEmpty then pure handle.prior
    else if priorHash.length = 32 then pure priorHash
    else .error .panic
  let interval ← demand handle.front handle.rear handle.total handle.count
    (getHash P (handle.source ++ prior))
  pure (decide (interval = (left, right)),
    { handle with prior := prior, count := handle.count + 1 })

/-- Some calls one after the other, each with the prior hash and the interval it is given. -/
def ChallengeHandle.calls (P : Params) (handle : ChallengeHandle)
    (args : List (List UInt8 × Int64 × Int64)) : Except Error ChallengeHandle :=
  args.foldlM (fun handle arg => do
    let answer ← handle.call P arg.1 arg.2.1 arg.2.2
    pure answer.2) handle

/-! ## What it is for -/

/-- The interval lies behind `front`, ends at `rear` and belongs to one block of group `i`. -/
structure WellFormed (front rear : Int64) (i : ℕ) (left right : Int64) : Prop where
  after : front.toInt < left.toInt
  ordered : left.toInt < right.toInt
  upTo : right.toInt ≤ rear.toInt + 1
  inBlock : ∃ block : ℤ, front.toInt / 256 + 16 * i ≤ block ∧
    block < front.toInt / 256 + 16 * (i + 1) ∧ 256 * block < left.toInt ∧
    right.toInt ≤ 256 * (block + 1) + 1

/-- A prior hash that a caller may give: none, or 32 bytes. -/
def PriorHash (hash : List UInt8) : Prop := hash = [] ∨ hash.length = 32

/-- The challenge is complete and well formed. -/
structure ChallengeComplete (P : Params) (front rear : Int64) : Prop where
  /-- With enough proofs there is a handle; none of its calls, one for each group, panics; and each
  accepts one interval, the one that its hash picks. -/
  accepts : ∀ minerId teeId chal proofNum, challengeTotal front rear ≤ proofNum →
    ∃ handle, newChallengeHandle minerId teeId chal front rear proofNum = some handle ∧
      ∀ args : List (List UInt8 × Int64 × Int64), (∀ arg ∈ args, PriorHash arg.1) →
        (args.length : ℤ) < (challengeTotal front rear).toInt →
        ∃ handle', handle.calls P args = .ok handle' ∧
          ∀ prior, PriorHash prior → ∃ (hash : Bytes 64) (interval : Int64 × Int64),
            demand front rear (challengeTotal front rear) (.ofNat args.length) hash.val =
              .ok interval ∧
            ∀ left right, ∃ next, handle'.call P prior left right =
              .ok (decide (interval = (left, right)), next)
  /-- Whatever the hash is, the interval is well formed. -/
  wellFormed : ∀ i : ℕ, (i : ℤ) < (challengeTotal front rear).toInt →
    ∀ (hash : Bytes 64) (left right : Int64),
      demand front rear (challengeTotal front rear) (.ofNat i) hash.val = .ok (left, right) →
      WellFormed front rear i left right
  /-- Every block with a file between `front` and `rear` is asked for, for some hash. -/
  covers : ∀ file : ℤ, front.toInt < file → file ≤ rear.toInt →
    ∃ (i : ℕ) (hash : Bytes 64) (left right : Int64),
      (i : ℤ) < (challengeTotal front rear).toInt ∧
      demand front rear (challengeTotal front rear) (.ofNat i) hash.val = .ok (left, right) ∧
      256 * ((file - 1) / 256) < left.toInt ∧ right.toInt = 256 * ((file - 1) / 256 + 1) + 1

/-! ## Blocks and groups -/

/-- The remainder that picks a block, for a modulus that fits a node index. -/
theorem bytesToNodeValue_ok (data : List UInt8) {max : Int64} {m : ℤ} (hmax : max.toInt = m)
    (hpos : 0 < m) (hlt : m < 2 ^ 30) :
    ∃ v, bytesToNodeValue data max = .ok v ∧ v.toInt64.toInt = (fromBytesBe data : ℤ) % m := by
  have hne : max ≠ 0 := by
    rintro rfl
    rw [← hmax] at hpos
    exact absurd hpos (by decide)
  have hnonneg : (0 : ℤ) ≤ (fromBytesBe data : ℤ) % m := Int.emod_nonneg _ (by omega)
  have hless : (fromBytesBe data : ℤ) % m < m := Int.emod_lt_of_pos _ hpos
  refine ⟨_, if_neg hne, ?_⟩
  generalize hx : (fromBytesBe data : ℤ) % m = x at *
  have hvalue : (Int64.ofInt ((fromBytesBe data : ℤ).tmod max.toInt)).toInt = x := by
    rw [hmax, Int.tmod_eq_emod_of_nonneg (by omega), hx,
      Int64.toInt_ofInt_of_le (by omega) (by omega)]
  have hsum := toInt_add_of hvalue hmax (by omega) (by omega)
  have hmod := toInt_mod_of hsum hmax (by omega)
  rw [Int32.toInt_toInt64, Int64.toInt_toInt32, hmod, Int.add_emod_right,
    Int.emod_eq_of_lt hnonneg hless]
  exact Int.bmod_eq_of_le (by omega) (by omega)

section Numbers

variable {P : Params} {front rear : Int64}

/-- The number of blocks. -/
def blockCount (front rear : Int64) : ℤ := rear.toInt / 256 - front.toInt / 256

/-- The number of blocks among which the hash picks in group `i`. -/
def choices (front rear : Int64) (i : ℕ) : ℤ :=
  if (i : ℤ) = (blockCount front rear - 1) / 16 then blockCount front rear - 16 * i else 15

/-- The picked block is in the group, and there is such a block. -/
theorem choices_inRange {i : ℕ} (hi : (i : ℤ) ≤ (blockCount front rear - 1) / 16) :
    16 * i + choices front rear i ≤ blockCount front rear := by
  unfold choices
  split_ifs with h
  · omega
  · omega

/-- The interval of a block in numbers. -/
theorem blockInterval_toInt (hfront : 0 ≤ front.toInt) {block : Int64} {b : ℤ}
    (hblock : block.toInt = b) (hpos : 0 ≤ b) (hb : 256 * (b + 1) < 2 ^ 63)
    (hlt : front.toInt < 256 * (b + 1)) :
    (blockInterval front block).1.toInt =
        (if 256 * b + 1 < front.toInt then front.toInt + 1 else 256 * b + 1) ∧
      (blockInterval front block).2.toInt = 256 * (b + 1) + 1 := by
  have hfile : fileNum.toInt = 256 := rfl
  have hone : (1 : Int64).toInt = 1 := rfl
  have hscaled := toInt_mul_of hblock hfile (by omega) (by omega)
  have hl := toInt_add_of hscaled hone (by omega) (by omega)
  have hl0 := toInt_sub_of hl hone (by omega) (by omega)
  have hquot := toInt_div_of hl0 hfile (by omega) (by omega)
  have hnext := toInt_add_of hquot hone (by omega) (by omega)
  have hrscaled := toInt_mul_of hnext hfile (by omega) (by omega)
  have hr := toInt_add_of hrscaled hone (by omega) (by omega)
  have hbehind := toInt_add_of (show front.toInt = front.toInt from rfl) hone (by omega) (by omega)
  constructor
  · unfold blockInterval
    by_cases h : 256 * b + 1 < front.toInt
    · have hless : block * fileNum + 1 < front := by
        rw [Int64.lt_iff_toInt_lt]
        omega
      simp only [if_pos h, if_pos hless, hbehind]
    · have hless : ¬ block * fileNum + 1 < front := by
        rw [Int64.lt_iff_toInt_lt]
        omega
      simp only [if_neg hless]
      omega
  · exact hr.trans (by omega)

/-- 64 bytes with the value of the last one. -/
def hashOf (v : UInt8) : Bytes 64 := ⟨List.replicate 63 0 ++ [v], rfl⟩

theorem fromBytesBe_hashOf (v : UInt8) : fromBytesBe (hashOf v).val = v.toNat := by
  have hzeros : fromBytesBe (List.replicate 63 0) = 0 := by decide
  show (List.replicate 63 0 ++ [v]).foldl _ 0 = v.toNat
  rw [List.foldl_append]
  show 256 * fromBytesBe (List.replicate 63 0) + v.toNat = v.toNat
  rw [hzeros, Nat.zero_add]

variable (hfront : 0 ≤ front.toInt) (hlt : front.toInt < rear.toInt) (hrear : rear.toInt % 256 = 0)
include hlt hrear

theorem choices_pos (i : ℕ) : 0 < choices front rear i := by
  unfold choices
  split_ifs with h
  · omega
  · omega

theorem choices_le (i : ℕ) : choices front rear i ≤ 16 := by
  unfold choices
  split_ifs with h
  · omega
  · omega

include hfront

/-- There are as many groups as it takes. -/
theorem toInt_challengeTotal :
    (challengeTotal front rear).toInt = (blockCount front rear - 1) / 16 + 1 := by
  have hrearlt := rear.toInt_lt
  have hfile : fileNum.toInt = 256 := rfl
  have hdiff : (rear - front).toInt = rear.toInt - front.toInt :=
    toInt_sub_of rfl rfl (by omega) (by omega)
  have hrest : (front % fileNum).toInt = front.toInt % 256 := toInt_mod_of rfl hfile hfront
  have hsum := toInt_add_of hdiff hrest (by omega) (by omega)
  have hpred : (rear - front + front % fileNum - 1).toInt =
      rear.toInt - front.toInt + front.toInt % 256 - 1 :=
    toInt_sub_of hsum rfl (by omega) (by omega)
  have hquot := toInt_div_of hpred (show (fileNum * groupSize).toInt = 4096 from rfl) (by omega)
    (by omega)
  have htotal := toInt_add_of hquot (show (1 : Int64).toInt = 1 from rfl) (by omega) (by omega)
  unfold challengeTotal blockCount
  omega

/-- **What is asked for.**  In group `i` the hash picks one of the first `choices` blocks. -/
theorem demand_ok {i : ℕ} (hi : (i : ℤ) ≤ (blockCount front rear - 1) / 16) (hash : List UInt8) :
    ∃ block : Int64, demand front rear (challengeTotal front rear) (.ofNat i) hash =
        .ok (blockInterval front block) ∧
      block.toInt = front.toInt / 256 + 16 * i + (fromBytesBe hash : ℤ) % choices front rear i := by
  have hrearlt := rear.toInt_lt
  have htotal := toInt_challengeTotal hfront hlt hrear
  have hpos := choices_pos hlt hrear i
  have hle := choices_le hlt hrear i
  have hblocks : blockCount front rear = rear.toInt / 256 - front.toInt / 256 := rfl
  have hfile : fileNum.toInt = 256 := rfl
  have hgroup : groupSize.toInt = 16 := rfl
  have hone : (1 : Int64).toInt = 1 := rfl
  have hcount : (Int64.ofNat i).toInt = i := by
    rw [Int64.toInt_ofNat']
    exact bmod_of_fits (by omega) (by omega)
  -- the numbers of the source, one operation after the other
  have hstart := toInt_div_of (show front.toInt = front.toInt from rfl) hfile hfront (by omega)
  have hgroups := toInt_mul_of hcount hgroup (by omega) (by omega)
  have hfirst := toInt_add_of hstart hgroups (by omega) (by omega)
  have hend := toInt_div_of (show rear.toInt = rear.toInt from rfl) hfile (by omega) (by omega)
  have hlast := toInt_sub_of hend hfirst (by omega) (by omega)
  have hmax : (if Int64.ofNat i = challengeTotal front rear - 1 then
      rear / fileNum - (front / fileNum + Int64.ofNat i * groupSize) else groupSize - 1).toInt =
      choices front rear i := by
    have hpred := toInt_sub_of htotal hone (by omega) (by omega)
    have hiff : Int64.ofNat i = challengeTotal front rear - 1 ↔
        (i : ℤ) = (blockCount front rear - 1) / 16 := by
      rw [← Int64.toInt_inj]
      omega
    unfold choices
    by_cases h : (i : ℤ) = (blockCount front rear - 1) / 16
    · rw [if_pos (hiff.mpr h)]
      omega
    · rw [if_neg (fun h' => h (hiff.mp h')), if_neg h]
      rfl
  obtain ⟨v, hv, hvalue⟩ := bytesToNodeValue_ok hash hmax hpos (by omega)
  have hchosen : 0 ≤ (fromBytesBe hash : ℤ) % choices front rear i :=
    Int.emod_nonneg _ (by omega)
  have hchosenlt := Int.emod_lt_of_pos (fromBytesBe hash : ℤ) hpos
  have hblock := toInt_add_of hfirst hvalue (by omega) (by omega)
  refine ⟨front / fileNum + Int64.ofNat i * groupSize + v.toInt64, ?_, ?_⟩
  · simp only [demand]
    rw [hv]
    rfl
  · rw [hblock]
    ring

/-- A group that there is, by its number. -/
theorem le_of_lt_total {i : ℕ} (hi : (i : ℤ) < (challengeTotal front rear).toInt) :
    (i : ℤ) ≤ (blockCount front rear - 1) / 16 := by
  rw [toInt_challengeTotal hfront hlt hrear] at hi
  omega

/-- The interval that a hash picks in group `i`, in numbers. -/
theorem demand_toInt {i : ℕ} (hi : (i : ℤ) < (challengeTotal front rear).toInt) {hash : List UInt8}
    {left right : Int64}
    (h : demand front rear (challengeTotal front rear) (.ofNat i) hash = .ok (left, right)) :
    ∃ v : ℤ, v = (fromBytesBe hash : ℤ) % choices front rear i ∧ 0 ≤ v ∧
      v < choices front rear i ∧
      left.toInt = (if 256 * (front.toInt / 256 + 16 * i + v) + 1 < front.toInt
        then front.toInt + 1 else 256 * (front.toInt / 256 + 16 * i + v) + 1) ∧
      right.toInt = 256 * (front.toInt / 256 + 16 * i + v + 1) + 1 := by
  have hrearlt := rear.toInt_lt
  have hi := le_of_lt_total hfront hlt hrear hi
  have hrange := choices_inRange hi
  have hpos := choices_pos hlt hrear i
  have hblocks : blockCount front rear = rear.toInt / 256 - front.toInt / 256 := rfl
  have hchosen : 0 ≤ (fromBytesBe hash : ℤ) % choices front rear i :=
    Int.emod_nonneg _ (by omega)
  have hchosenlt := Int.emod_lt_of_pos (fromBytesBe hash : ℤ) hpos
  obtain ⟨block, hok, hblock⟩ := demand_ok hfront hlt hrear hi hash
  have hinterval : blockInterval front block = (left, right) := Except.ok.inj (hok.symm.trans h)
  have hnumbers := blockInterval_toInt hfront hblock (by omega) (by omega) (by omega)
  rw [hinterval] at hnumbers
  exact ⟨_, rfl, hchosen, hchosenlt, hnumbers.1, hnumbers.2⟩

/-- The interval is well formed unless exactly one file of the first block is deleted. -/
theorem wellFormed_of_demand (hone : front.toInt % 256 ≠ 1) {i : ℕ}
    (hi : (i : ℤ) < (challengeTotal front rear).toInt) {hash : List UInt8} {left right : Int64}
    (h : demand front rear (challengeTotal front rear) (.ofNat i) hash = .ok (left, right)) :
    WellFormed front rear i left right := by
  obtain ⟨v, -, hv, hvlt, hleft, hright⟩ := demand_toInt hfront hlt hrear hi h
  have hrange := choices_inRange (le_of_lt_total hfront hlt hrear hi)
  have hle := choices_le hlt hrear i
  have hblocks : blockCount front rear = rear.toInt / 256 - front.toInt / 256 := rfl
  refine ⟨?_, ?_, ?_, front.toInt / 256 + 16 * i + v, ?_, ?_, ?_, ?_⟩
  · rw [hleft]
    split_ifs with hless
    · omega
    · omega
  · rw [hleft]
    split_ifs with hless
    · omega
    · omega
  · omega
  · omega
  · omega
  · rw [hleft]
    split_ifs with hless
    · omega
    · omega
  · rw [hright]

/-- A call for a group that there is answers, and accepts the one interval its hash picks. -/
theorem ChallengeHandle.call_ok {i : ℕ} (hi : (i : ℤ) < (challengeTotal front rear).toInt)
    (source last : List UInt8) {prior : List UInt8} (hprior : PriorHash prior) :
    ∃ (hash : Bytes 64) (interval : Int64 × Int64) (next : List UInt8),
      demand front rear (challengeTotal front rear) (.ofNat i) hash.val = .ok interval ∧
      ∀ left right,
        ChallengeHandle.call P ⟨source, last, front, rear, challengeTotal front rear, .ofNat i⟩
            prior left right =
          .ok (decide (interval = (left, right)),
            ⟨source, next, front, rear, challengeTotal front rear, .ofNat (i + 1)⟩) := by
  have hnext : Int64.ofNat i + 1 = Int64.ofNat (i + 1) := by
    rw [Int64.ofNat_add]
    rfl
  have hcall : ∀ next : List UInt8,
      ∃ (hash : Bytes 64) (interval : Int64 × Int64),
        demand front rear (challengeTotal front rear) (.ofNat i) hash.val = .ok interval ∧
        demand front rear (challengeTotal front rear) (.ofNat i) (getHash P (source ++ next)) =
          .ok interval := by
    intro next
    obtain ⟨block, hok, -⟩ := demand_ok hfront hlt hrear (le_of_lt_total hfront hlt hrear hi)
      (getHash P (source ++ next))
    exact ⟨⟨getHash P (source ++ next), length_getHash P _⟩, _, hok, hok⟩
  rcases hprior with rfl | hlength
  · obtain ⟨hash, interval, hhash, hdemand⟩ := hcall last
    refine ⟨hash, interval, last, hhash, fun left right => ?_⟩
    simp only [ChallengeHandle.call, pure_bind, hdemand, hnext]
    rfl
  · obtain ⟨hash, interval, hhash, hdemand⟩ := hcall prior
    have hne : prior.isEmpty = false := by
      cases prior with
      | nil => cases hlength
      | cons b rest => rfl
    refine ⟨hash, interval, prior, hhash, fun left right => ?_⟩
    simp only [ChallengeHandle.call, hne, hlength, pure_bind,
      hdemand, hnext]
    rfl

/-- Any calls, as long as there are groups, lead to a handle for the next group. -/
theorem ChallengeHandle.calls_ok {args : List (List UInt8 × Int64 × Int64)}
    (hargs : ∀ arg ∈ args, PriorHash arg.1) {i : ℕ}
    (hi : ((i + args.length : ℕ) : ℤ) < (challengeTotal front rear).toInt)
    (source last : List UInt8) :
    ∃ last', ChallengeHandle.calls P
        ⟨source, last, front, rear, challengeTotal front rear, .ofNat i⟩ args =
      .ok ⟨source, last', front, rear, challengeTotal front rear, .ofNat (i + args.length)⟩ := by
  induction args generalizing i last with
  | nil => exact ⟨last, rfl⟩
  | cons arg rest ih =>
    rw [List.length_cons] at hi
    obtain ⟨hash, interval, next, -, hcall⟩ := ChallengeHandle.call_ok (P := P) hfront hlt hrear
      (i := i) (by omega) source last (hargs arg List.mem_cons_self)
    obtain ⟨last', hrest⟩ := ih (fun a ha => hargs a (List.mem_cons_of_mem _ ha)) (i := i + 1)
      (by omega) next
    refine ⟨last', ?_⟩
    unfold ChallengeHandle.calls at hrest ⊢
    rw [List.foldlM_cons, hcall]
    show rest.foldlM _ _ = _
    rw [hrest, List.length_cons]
    congr 3
    omega

end Numbers

/-! ## When the challenge is complete -/

/-- **When the challenge of idle space is complete.**  For every `front` and `rear` with a file
between them and a full last block, every interval that can be asked for is well formed and every
block can be asked for just if the number of deleted files is not one more than a multiple of 256
and there is one group of blocks. -/
theorem challengeComplete_iff {P : Params} {front rear : Int64} (hfront : 0 ≤ front.toInt)
    (hlt : front.toInt < rear.toInt) (hrear : rear.toInt % 256 = 0) :
    ChallengeComplete P front rear ↔
      front.toInt % 256 ≠ 1 ∧ rear.toInt / 256 - front.toInt / 256 ≤ 16 := by
  have htotal := toInt_challengeTotal hfront hlt hrear
  have hblocks : blockCount front rear = rear.toInt / 256 - front.toInt / 256 := rfl
  constructor
  · intro h
    constructor
    · -- the hash that picks the first block asks for the deleted file
      obtain ⟨block, hok, -⟩ := demand_ok hfront hlt hrear
        (i := 0) (by omega) (hashOf 0).val
      obtain ⟨v, hv, -, -, hleft, -⟩ := demand_toInt hfront hlt hrear (by omega) hok
      have hv0 : v = 0 := hv.trans (Int.zero_emod _)
      have hafter := (h.wellFormed 0 (by omega) (hashOf 0) _ _ hok).after
      rw [hleft] at hafter
      split_ifs at hafter with hless
      · omega
      · omega
    · -- block 15 of the first group, if it is not the last one
      by_contra hmany
      obtain ⟨i, hash, left, right, hi, hdemand, -, hright⟩ :=
        h.covers (256 * (front.toInt / 256 + 16)) (by omega) (by omega)
      obtain ⟨v, -, hv, hvlt, -, hright'⟩ := demand_toInt hfront hlt hrear hi hdemand
      unfold choices at hvlt
      split_ifs at hvlt with hlast
      · omega
      · omega
  · rintro ⟨hone, hfew⟩
    refine ⟨?_, ?_, ?_⟩
    · intro minerId teeId chal proofNum henough
      have hnew : ¬ challengeTotal front rear > proofNum := by
        rw [gt_iff_lt, Int64.lt_iff_toInt_lt]
        exact not_lt.mpr (Int64.le_iff_toInt_le.mp henough)
      refine ⟨_, if_neg hnew, ?_⟩
      intro args hargs hi
      obtain ⟨last, hcalls⟩ := ChallengeHandle.calls_ok (P := P) hfront hlt hrear hargs (i := 0)
        (by omega) (minerId ++ teeId ++ chal.flatMap getBytes) (List.replicate 32 0)
      refine ⟨_, hcalls, fun prior hprior => ?_⟩
      rw [Nat.zero_add]
      obtain ⟨hash, interval, next, hdemand, hcall⟩ := ChallengeHandle.call_ok (P := P) hfront hlt
        hrear hi (minerId ++ teeId ++ chal.flatMap getBytes) last hprior
      exact ⟨hash, interval, hdemand, fun left right => ⟨_, hcall left right⟩⟩
    · intro i hi hash left right hdemand
      exact wellFormed_of_demand hfront hlt hrear hone hi hdemand
    · intro file hafter hupTo
      -- there is one group, and the last byte of the hash picks the block
      have hchoices : choices front rear 0 = blockCount front rear := by
        unfold choices
        omega
      obtain ⟨v, hv⟩ : ∃ v : ℕ, (v : ℤ) = (file - 1) / 256 - front.toInt / 256 :=
        ⟨((file - 1) / 256 - front.toInt / 256).toNat, by omega⟩
      obtain ⟨block, hok, -⟩ := demand_ok hfront hlt hrear (i := 0) (by omega)
        (hashOf (UInt8.ofNat v)).val
      obtain ⟨v', hv', -, -, hleft, hright⟩ := demand_toInt hfront hlt hrear (by omega) hok
      have hvalue : v' = v := by
        rw [hv', fromBytesBe_hashOf, UInt8.toNat_ofNat',
          Nat.mod_eq_of_lt (by omega)]
        exact Int.emod_eq_of_lt (by omega) (by omega)
      refine ⟨0, hashOf (UInt8.ofNat v), _, _, by omega, hok, ?_, ?_⟩
      · rw [hleft]
        split_ifs with hless
        · omega
        · omega
      · omega

theorem challengeComplete_one_block : ChallengeComplete shortParams 0 256 :=
  (challengeComplete_iff (by decide) (by decide) (by decide)).mpr (by decide)

/-- **A deleted file is asked for, and a block never is.**  With one file deleted and one block
left, the only interval that the handle accepts begins with the deleted file.  With 17 blocks no
hash asks for the last block of the first group. -/
theorem challenge_not_complete :
    ¬ ChallengeComplete shortParams 1 256 ∧ ¬ ChallengeComplete shortParams 0 4352 := by
  constructor
  · intro h
    have hdemand : demand 1 256 (challengeTotal 1 256) (.ofNat 0) (hashOf 0).val = .ok (1, 257) := by
      decide +kernel
    exact absurd (h.wellFormed 0 (by decide) (hashOf 0) 1 257 hdemand).after (by decide)
  · intro h
    obtain ⟨i, hash, left, right, hi, hdemand, -, hright⟩ := h.covers 4096 (by decide) (by decide)
    have hcount : blockCount 0 4352 = 17 := by decide
    have hstart : (0 : Int64).toInt = 0 := rfl
    obtain ⟨v, -, hv, hvlt, -, hright'⟩ :=
      demand_toInt (by decide) (by decide) (by decide) hi hdemand
    unfold choices at hvlt
    split_ifs at hvlt with hlast
    · omega
    · omega

end Pois
