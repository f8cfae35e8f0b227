/-
# Names of buckets

What `check_bucket_name_spec` accepts.  A name of a bucket is meant to consist of letters, digits and
the three characters `-`, `_` and `.`, without two points in a row, and not to look like the address
of a host.

* `WellFormedName` : the names that are meant;
* `checkBucketNameSpec_eq` : the names that pass.  The table of characters has a second `g` and `G`
  where `j` and `J` should be, and the parts of a name with three points are compared with the table
  of all characters instead of the one of the digits, so that none of these names passes;
* `checkBucketNameSpec_iff` : the names for which both agree.
-/
import CessNode.FileBank

namespace FileBank

/-! ## The names that are meant -/

/-- A decimal digit. -/
def IsDigit (b : UInt8) : Prop := 48 ≤ b ∧ b ≤ 57

/-- An ASCII letter, a digit, `-`, `_` or `.`. -/
def IsNameByte (b : UInt8) : Prop :=
  97 ≤ b ∧ b ≤ 122 ∨ 65 ≤ b ∧ b ≤ 90 ∨ IsDigit b ∨ b = 45 ∨ b = 95 ∨ b = point

/-- No two points follow each other. -/
def PointsApart (name : List UInt8) : Prop := name.IsChain fun a b => ¬ (a = point ∧ b = point)

/-- Exactly three points, between parts made of digits only. -/
def DottedQuad (name : List UInt8) : Prop :=
  name.count point = 3 ∧ ∀ part ∈ name.splitOn point, ∀ b ∈ part, IsDigit b

/-- **The names that are meant.** -/
def WellFormedName (name : List UInt8) : Prop :=
  (∀ b ∈ name, IsNameByte b) ∧ PointsApart name ∧ ¬ DottedQuad name

instance (b : UInt8) : Decidable (IsDigit b) := inferInstanceAs (Decidable (_ ∧ _))

instance (b : UInt8) : Decidable (IsNameByte b) := inferInstanceAs (Decidable (_ ∨ _))

instance (name : List UInt8) : Decidable (PointsApart name) :=
  inferInstanceAs (Decidable (List.IsChain _ _))

instance (name : List UInt8) : Decidable (DottedQuad name) := inferInstanceAs (Decidable (_ ∧ _))

instance (name : List UInt8) : Decidable (WellFormedName name) :=
  inferInstanceAs (Decidable (_ ∧ _))

/-! ## The names that pass -/

/-- The letters `j` and `J`, which the table of characters does not have. -/
def missingLetters : List UInt8 := [106, 74]

theorem mem_bucketAllowChar (b : UInt8) :
    b ∈ bucketAllowChar ↔ IsNameByte b ∧ b ∉ missingLetters := by
  revert b
  decide +kernel

theorem pointsApart_cons {a : UInt8} {name : List UInt8} :
    PointsApart (a :: name) ↔ (a = point → name.head? ≠ some point) ∧ PointsApart name := by
  unfold PointsApart
  cases name with
  | nil => simp
  | cons b name =>
    rw [List.isChain_cons_cons, List.head?_cons, not_and, ne_eq, Option.some.injEq]

/-- The scan counts the points of a name of allowed characters without two points in a row. -/
theorem countPoints_eq_some {name : List UInt8} {pointFlag : Bool} {count n : ℕ} :
    countPoints name pointFlag count = some n ↔
      (∀ b ∈ name, b ∈ bucketAllowChar) ∧ (pointFlag = true → name.head? ≠ some point) ∧
        PointsApart name ∧ n = count + name.count point := by
  induction name generalizing pointFlag count with
  | nil => simp [countPoints, PointsApart, eq_comm]
  | cons a name ih =>
    rw [pointsApart_cons]
    unfold countPoints
    by_cases hallowed : a ∈ bucketAllowChar
    · rw [if_neg (not_not.mpr hallowed)]
      by_cases hpoint : a = point
      · cases pointFlag with
        | true => simp [hpoint]
        | false =>
          rw [if_pos hpoint, if_neg Bool.false_ne_true, ih, hpoint]
          have hadd : count + 1 + name.count point = count + (name.count point + 1) := by omega
          simp [hadd, hpoint ▸ hallowed, and_assoc]
      · rw [if_neg hpoint, ih]
        simp [hpoint, hallowed]
    · simp [hallowed]

theorem mem_of_mem_splitOn {name part : List UInt8} {b : UInt8} (hpart : part ∈ name.splitOn point)
    (hb : b ∈ part) : b ∈ name := by
  have hname : [point].intercalate (name.splitOn point) = name := List.intercalate_splitOn point
  rw [← hname]
  generalize name.splitOn point = parts at hpart
  induction parts with
  | nil => cases hpart
  | cons first parts ih =>
    cases parts with
    | nil =>
      obtain rfl := List.mem_singleton.mp hpart
      simpa using hb
    | cons second parts =>
      rw [List.intercalate_cons_cons, List.mem_append, List.mem_append]
      rcases List.mem_cons.mp hpart with rfl | hpart
      · exact .inl (.inl hb)
      · exact .inr (ih hpart)

/-- **The names that pass**: those of the characters of the table, without two points in a row and
with any number of points but three. -/
theorem checkBucketNameSpec_eq (name : List UInt8) :
    checkBucketNameSpec name = true ↔
      (∀ b ∈ name, b ∈ bucketAllowChar) ∧ PointsApart name ∧ name.count point ≠ 3 := by
  unfold checkBucketNameSpec
  cases hcount : countPoints name false 0 with
  | none =>
    have hnone : ∀ n, ¬ countPoints name false 0 = some n := by simp [hcount]
    simp only [countPoints_eq_some] at hnone
    simp only [Bool.false_eq_true, false_iff]
    rintro ⟨hallowed, hapart, -⟩
    exact hnone _ ⟨hallowed, nofun, hapart, rfl⟩
  | some n =>
    obtain ⟨hallowed, -, hapart, rfl⟩ := countPoints_eq_some.mp hcount
    rw [zero_add]
    -- the parts are looked up in the table that their characters come from
    have hparts : ((name.splitOn point).any fun part => part.any fun elem =>
        elem ∉ bucketAllowChar) = false := by
      simp only [List.any_eq_false]
      intro part hpart
      simp only [List.any_eq_true, decide_eq_true_eq, not_exists, not_and, not_not]
      exact fun b hb => hallowed b (mem_of_mem_splitOn hpart hb)
    simp only [hparts]
    split_ifs with hthree
    · exact iff_of_false not_false fun h => h.2.2 hthree
    · exact iff_of_true rfl ⟨hallowed, hapart, hthree⟩

/-- **When the check accepts exactly the names that are meant.**  For a name that is refused rightly,
or that has neither of the two missing letters and not exactly three points. -/
theorem checkBucketNameSpec_iff (name : List UInt8) :
    (checkBucketNameSpec name = true ↔ WellFormedName name) ↔
      (WellFormedName name →
        (∀ letter ∈ missingLetters, letter ∉ name) ∧ name.count point ≠ 3) := by
  rw [checkBucketNameSpec_eq]
  constructor
  · intro h hname
    obtain ⟨hallowed, -, hthree⟩ := h.mpr hname
    refine ⟨fun letter hletter hmem => ?_, hthree⟩
    exact ((mem_bucketAllowChar letter).mp (hallowed letter hmem)).2 hletter
  · intro h
    constructor
    · rintro ⟨hallowed, hapart, hthree⟩
      refine ⟨fun b hb => ((mem_bucketAllowChar b).mp (hallowed b hb)).1, hapart, ?_⟩
      exact fun hquad => hthree hquad.1
    · intro hname
      obtain ⟨hletters, hthree⟩ := h hname
      refine ⟨fun b hb => (mem_bucketAllowChar b).mpr ⟨hname.1 b hb, ?_⟩, hname.2.1, hthree⟩
      exact fun hletter => hletters b hletter hb

/-- The names `job` and `a.b.c.d` are refused. -/
theorem good_names_refused :
    (WellFormedName [106, 111, 98] ∧ checkBucketNameSpec [106, 111, 98] = false) ∧
      WellFormedName [97, 46, 98, 46, 99, 46, 100] ∧
      checkBucketNameSpec [97, 46, 98, 46, 99, 46, 100] = false := by
  decide +kernel

end FileBank
