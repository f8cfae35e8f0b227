/-
# When a check of the verifier succeeds

For every primitive of the checks of `Pois` one lemma that says when it succeeds, and the two
loops: a check of every element of a list, and a fold that hands a buffer on.  `copyData_fits`
says what is in a buffer into which everything fits, which for a label is the name of the prover,
the number of the file and its root.
-/
import CessNode.Pois

open Dispatch

namespace Pois

variable {α β : Type}
variable {a b : Int64} {x y : ℤ} {l : List α}

/-! ## Primitives -/

theorem pure_eq_ok {a b : α} : (pure a : Except Error α) = .ok b ↔ a = b :=
  Except.ok.injEq a b ▸ Iff.rfl

theorem unwrap_eq_ok {o : Option α} {a : α} : unwrap o = .ok a ↔ o = some a :=
  eq_ok_iff_eq_some (fun _ => rfl) nofun

theorem check_eq_ok {p : Prop} [Decidable p] {message : String} {u : Unit} :
    check p message = .ok u ↔ p := by
  unfold check
  split_ifs with h
  · exact ⟨fun _ => h, fun _ => rfl⟩
  · constructor
    · intro h'
      cases h'
    · intro h'
      exact absurd h' h

theorem run_lift_ok {x : Except Error α} {a : α} {v v' : Verifier} :
    (lift x).run v = .ok a v' ↔ x = .ok a ∧ v = v' := by
  cases x with
  | ok b =>
    show EStateM.Result.ok b v = .ok a v' ↔ _
    rw [EStateM.Result.ok.injEq, Except.ok.injEq]
  | error e =>
    constructor
    · intro h
      cases h
    · rintro ⟨h, -⟩
      cases h

theorem run_lift_bind_ok {x : Except Error α} {a : α} (h : x = .ok a) (f : α → VerifierM β)
    (v : Verifier) : (lift x >>= f).run v = (f a).run v := by
  rw [h]
  rfl

theorem run_lift_bind_error {x : Except Error α} {e : Error} (h : x = .error e)
    (f : α → VerifierM β) (v : Verifier) : (lift x >>= f).run v = .error e v := by
  rw [h]
  rfl

/-! ## Integers -/

/-- A cast to `usize` keeps the value up to multiples of `2 ^ 64`. -/
theorem toNat_toUInt64 (x : Int64) : (x.toUInt64.toNat : ℤ) = x.toInt % ((2 ^ 64 : ℕ) : ℤ) := by
  have hvalue : x.toInt = (x.toUInt64.toNat : ℤ).bmod (2 ^ 64) := BitVec.toInt_eq_toNat_bmod _
  have hlt := x.toUInt64.toNat_lt
  rw [hvalue, Int.bmod_emod]
  omega

/-- A cast to `usize` keeps a value that is not negative. -/
theorem toNat_toUInt64_of_nonneg {x : Int64} (h : 0 ≤ x.toInt) :
    x.toUInt64.toNat = x.toInt.toNat := by
  have hcast := toNat_toUInt64 x
  have hlt := x.toInt_lt
  omega

/-- A difference that is not negative survives the subtraction and the cast. -/
theorem toNat_toUInt64_sub (h : b.toInt ≤ a.toInt) :
    ((a - b).toUInt64.toNat : ℤ) = a.toInt - b.toInt := by
  have ha := a.toInt_lt
  have hb := b.le_toInt
  rw [toNat_toUInt64, Int64.toInt_sub, Int.bmod_emod]
  exact Int.emod_eq_of_lt (by omega) (by omega)

/-- A number that fits survives the addition. -/
theorem toInt_add_ofNat {i : ℕ} (h : a.toInt + i < 2 ^ 63) :
    (a + .ofNat i).toInt = a.toInt + i := by
  have ha := a.le_toInt
  have hsize : Int64.size = 2 ^ 64 := rfl
  rw [Int64.toInt_add, Int64.toInt_ofNat', Int.add_bmod_bmod]
  exact Int.bmod_eq_of_le (by omega) (by omega)

/-- A number that fits is its own remainder. -/
theorem bmod_of_fits {z : ℤ} (lo : -2 ^ 63 ≤ z) (hi : z < 2 ^ 63) : z.bmod (2 ^ 64) = z :=
  Int.bmod_eq_of_le (by omega) (by omega)

/-- A sum that fits. -/
theorem toInt_add_of (ha : a.toInt = x) (hb : b.toInt = y) (lo : -2 ^ 63 ≤ x + y)
    (hi : x + y < 2 ^ 63) : (a + b).toInt = x + y := by
  rw [Int64.toInt_add, ha, hb, bmod_of_fits lo hi]

/-- A difference that fits. -/
theorem toInt_sub_of (ha : a.toInt = x) (hb : b.toInt = y) (lo : -2 ^ 63 ≤ x - y)
    (hi : x - y < 2 ^ 63) : (a - b).toInt = x - y := by
  rw [Int64.toInt_sub, ha, hb, bmod_of_fits lo hi]

/-- A product that fits. -/
theorem toInt_mul_of (ha : a.toInt = x) (hb : b.toInt = y) (lo : -2 ^ 63 ≤ x * y)
    (hi : x * y < 2 ^ 63) : (a * b).toInt = x * y := by
  rw [Int64.toInt_mul, ha, hb, bmod_of_fits lo hi]

/-- A quotient of numbers that are not negative. -/
theorem toInt_div_of (ha : a.toInt = x) (hb : b.toInt = y) (hx : 0 ≤ x) (hy : 0 < y) :
    (a / b).toInt = x / y := by
  have hlt := a.toInt_lt
  have hle : x / y ≤ x := Int.ediv_le_self y hx
  have hnonneg : 0 ≤ x / y := Int.ediv_nonneg hx hy.le
  rw [Int64.toInt_div, ha, hb, Int.tdiv_eq_ediv_of_nonneg hx, bmod_of_fits (by omega) (by omega)]

/-- A remainder of a number that is not negative. -/
theorem toInt_mod_of (ha : a.toInt = x) (hb : b.toInt = y) (hx : 0 ≤ x) :
    (a % b).toInt = x % y := by
  rw [Int64.toInt_mod, ha, hb, Int.tmod_eq_emod_of_nonneg hx]

/-! ## Loops -/

/-- A loop of checks passes if every check does. -/
theorem forM_eq_ok {f : α → Except Error Unit} {u : Unit} :
    l.forM f = .ok u ↔ ∀ a ∈ l, f a = .ok () := by
  induction l with
  | nil =>
    constructor
    · intro _ a ha
      cases ha
    · intro _
      rfl
  | cons a l ih =>
    have hcons : (a :: l).forM f = (f a >>= fun _ => l.forM f) := rfl
    rw [hcons, bind_eq_ok]
    constructor
    · rintro ⟨⟨⟩, hhead, htail⟩ b hb
      rcases List.mem_cons.mp hb with rfl | hb
      · exact hhead
      · exact ih.mp htail b hb
    · intro h
      exact ⟨(), h a List.mem_cons_self, ih.mpr fun b hb => h b (List.mem_cons_of_mem a hb)⟩

/-- In a fold that succeeds every round does, from a buffer with what all rounds keep. -/
theorem foldlM_ok {f : β → α → Except Error β} {Q : β → Prop} {b b' : β}
    (hQ : ∀ a ∈ l, ∀ b b', Q b → f b a = .ok b' → Q b') (hb : Q b) (h : l.foldlM f b = .ok b') :
    Q b' ∧ ∀ a ∈ l, ∃ b₁ b₂, Q b₁ ∧ f b₁ a = .ok b₂ := by
  induction l generalizing b with
  | nil =>
    obtain rfl : b = b' := pure_eq_ok.mp h
    exact ⟨hb, fun a ha => absurd ha List.not_mem_nil⟩
  | cons a l ih =>
    rw [List.foldlM_cons, bind_eq_ok] at h
    obtain ⟨b₁, hstep, hrest⟩ := h
    obtain ⟨hb', hall⟩ := ih (fun a' ha' => hQ a' (List.mem_cons_of_mem a ha'))
      (hQ a List.mem_cons_self b b₁ hb hstep) hrest
    refine ⟨hb', ?_⟩
    intro a' ha'
    rcases List.mem_cons.mp ha' with rfl | ha'
    · exact ⟨b, b₁, hb, hstep⟩
    · exact hall a' ha'

/-- A fold succeeds if every round does from a buffer with what all rounds keep. -/
theorem exists_foldlM_ok {f : β → α → Except Error β} {Q : β → Prop} {b : β}
    (hQ : ∀ a ∈ l, ∀ b, Q b → ∃ b', f b a = .ok b' ∧ Q b') (hb : Q b) :
    ∃ b', l.foldlM f b = .ok b' ∧ Q b' := by
  induction l generalizing b with
  | nil => exact ⟨b, rfl, hb⟩
  | cons a l ih =>
    obtain ⟨b₁, hstep, hb₁⟩ := hQ a List.mem_cons_self b hb
    obtain ⟨b', hrest, hb'⟩ := ih (fun a' ha' => hQ a' (List.mem_cons_of_mem a ha')) hb₁
    refine ⟨b', ?_, hb'⟩
    rw [List.foldlM_cons, bind_eq_ok]
    exact ⟨b₁, hstep, hrest⟩

/-- `mapM` succeeds exactly if every round does. -/
theorem exists_mapM_ok {ε : Type} {f : α → Except ε β} :
    (∃ bs, l.mapM f = .ok bs) ↔ ∀ a ∈ l, ∃ b, f a = .ok b := by
  induction l with
  | nil =>
    constructor
    · intro _ a ha
      cases ha
    · intro _
      exact ⟨[], rfl⟩
  | cons a l ih =>
    simp only [List.mapM_cons, bind_eq_ok, List.forall_mem_cons, ← ih]
    constructor
    · rintro ⟨bs, b, hb, bs', hbs', -⟩
      exact ⟨⟨b, hb⟩, bs', hbs'⟩
    · rintro ⟨⟨b, hb⟩, bs', hbs'⟩
      exact ⟨b :: bs', b, hb, bs', hbs', rfl⟩

/-! ## Labels -/

theorem length_getBytes (v : Int64) : (getBytes v).length = 8 := by
  unfold getBytes
  rw [List.length_map, List.length_reverse, List.length_range]

theorem length_getHash (P : Params) (data : List UInt8) : (getHash P data).length = 64 :=
  (P.sha512 _).property

/-- Sources that fit are written one after the other. -/
theorem copyData_fits {target : List UInt8} {src : List (List UInt8)}
    (h : src.flatten.length ≤ target.length) :
    copyData target src = src.flatten ++ target.drop src.flatten.length := by
  unfold copyData
  -- what has been written, and what of the target is still there
  suffices hwritten : ∀ (written : List UInt8),
      written.length + src.flatten.length ≤ target.length →
      (src.foldl (fun (p : List UInt8 × ℕ) d =>
        if d.length = 0 ∨ d.length + p.2 > target.length then p
        else (p.1.take p.2 ++ d ++ p.1.drop (p.2 + d.length), p.2 + d.length))
        (written ++ target.drop written.length, written.length)).1 =
      written ++ src.flatten ++ target.drop (written.length + src.flatten.length) by
    have hempty := hwritten [] (by simpa using h)
    simpa using hempty
  clear h
  induction src with
  | nil =>
    simp
  | cons d src ih =>
    intro written hfits
    rw [List.flatten_cons, List.length_append] at hfits
    rw [List.foldl_cons]
    by_cases hd : d.length = 0
    · obtain rfl := List.eq_nil_of_length_eq_zero hd
      rw [if_pos (.inl rfl), ih written (by simpa using hfits)]
      simp
    · have hroom : ¬ (d.length = 0 ∨ d.length + written.length > target.length) := by omega
      rw [if_neg hroom]
      have hnext : (written ++ target.drop written.length).take written.length ++ d ++
          (written ++ target.drop written.length).drop (written.length + d.length) =
          (written ++ d) ++ target.drop (written ++ d).length := by
        rw [List.take_left, List.length_append, List.drop_append, List.drop_of_length_le (by omega),
          List.nil_append, List.drop_drop]
        congr 2
        omega
      have hlength : written.length + d.length = (written ++ d).length := by
        rw [List.length_append]
      rw [hnext, hlength, ih (written ++ d) (by rw [List.length_append]; omega)]
      rw [List.flatten_cons, List.length_append, List.length_append, ← add_assoc]
      simp only [List.append_assoc]

/-- The buffer of a label keeps its length. -/
theorem length_copyData (target : List UInt8) (src : List (List UInt8)) :
    (copyData target src).length = target.length := by
  suffices hkept : ∀ p : List UInt8 × ℕ, p.1.length = target.length →
      (src.foldl (fun (p : List UInt8 × ℕ) d =>
        if d.length = 0 ∨ d.length + p.2 > target.length then p
        else (p.1.take p.2 ++ d ++ p.1.drop (p.2 + d.length), p.2 + d.length)) p).1.length =
      target.length from hkept (target, 0) rfl
  induction src with
  | nil =>
    intro p hp
    exact hp
  | cons d src ih =>
    intro p hp
    rw [List.foldl_cons]
    apply ih
    split_ifs with hd
    · exact hp
    · simp only [List.length_append, List.length_take, List.length_drop]
      omega

/-- The length of the buffer of a label. -/
def labelLength (id : List UInt8) : ℕ := id.length + 8 + defaultHashSize

theorem length_emptyLabel (id : List UInt8) : (emptyLabel id).length = labelLength id :=
  List.length_replicate

/-- A label holds the name of the prover, the number of the file and its root. -/
theorem copyData_label {id label root : List UInt8} {number : Int64}
    (hlabel : label.length = labelLength id) (hroot : root.length = defaultHashSize) :
    copyData label [id, getBytes number, root] = id ++ getBytes number ++ root := by
  have hlength : [id, getBytes number, root].flatten.length = labelLength id := by
    simp only [List.flatten_cons, List.flatten_nil, List.append_nil, List.length_append,
      length_getBytes, labelLength]
    omega
  rw [copyData_fits (by omega), List.drop_of_length_le (by omega)]
  simp

/-! ## Hash functions for examples -/

/-- The length of a string and its first bytes. -/
def shortHash (n : ℕ) (data : List UInt8) : Bytes (n + 1) :=
  ⟨UInt8.ofNat data.length :: (data ++ List.replicate n 0).take n, by
    rw [List.length_cons, List.length_take, List.length_append, List.length_replicate]
    omega⟩

/-- Hash functions for small examples, where the strings differ in their lengths or first bytes. -/
def shortParams : Params where
  sha256 := shortHash 31
  sha512 := shortHash 63
  hPrime := id

end Pois
