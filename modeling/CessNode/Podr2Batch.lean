/-
# Aggregated proofs of possession

The other half of `crates/ces-pdp`: one number `sigma` answers a challenge of many files
(`aggrProofGen`), and `batchVerify` checks it against the names, the `u` and the `mu` of the files.
The verifier gives every file to a thread of a pool.  Each thread sends one product, and the
verifier multiplies the products in the order in which they arrive.

* `batchVerify` takes that order as an argument.  A thread that cannot read its numbers panics and
  sends nothing; the verifier keeps a sender of its own, so it then waits for ever;
* `batchVerify_eq` : the verdict does not depend on the order;
* `batchVerify_aggrProofGen` : the aggregated answer of honest provers is accepted, and on one file
  the verdict is the one of `verify`.
-/
import CessNode.Podr2

namespace Podr2

open Pois (fromBytesBe)

/-! ## The prover -/

/-- A round of the inner loop of `aggr_proof_gen`. -/
def aggrStep (keys : Keys) (phi : List String) (sigma : ℕ) (q : QElement) : Except Error ℕ :=
  match phi[q.i]? with
  | none => .error .panic
  | some text =>
    match fromDecimal text with
    | .error message => .error (.internal message)
    | .ok sigmaI => .ok (sigma * (sigmaI ^ fromBytesBe q.v % keys.n))

/-- A round of the outer loop of `aggr_proof_gen`. -/
def aggrTag (keys : Keys) (qSlice : List QElement) (sigma : ℕ) (t : T) : Except Error ℕ := do
  let sigma ← qSlice.foldlM (aggrStep keys t.phi) sigma
  pure (sigma % keys.n)

/-- `aggr_proof_gen`. -/
def aggrProofGen (keys : Keys) (qSlice : List QElement) (tags : List T) : Except Error String := do
  let sigma ← tags.foldlM (aggrTag keys qSlice) 1
  pure (toDecimal sigma)

/-! ## The verifier -/

variable (sha256 : List UInt8 → Bytes 32)

/-- What the thread of a file sends, if it does not panic. -/
def threadProduct (keys : Keys) (qSlice : List QElement) (name u mu : String) : Option ℕ :=
  let mul := hashProduct sha256 keys name qSlice 1
  match fromDecimal u, fromDecimal mu with
  | .ok u, .ok mu => some (mul * (u ^ mu % keys.n) % keys.n)
  | _, _ => none

/-- The loop that starts a thread for every name, by what the threads send; a name without a `u`
or a `mu` is a panic. -/
def startThreads (keys : Keys) (qSlice : List QElement) :
    List String → List String → List String → Option (List (Option ℕ))
  | [], _, _ => some []
  | name :: names, u :: us, mu :: mus => do
    let threads ← startThreads keys qSlice names us mus
    pure (threadProduct sha256 keys qSlice name u mu :: threads)
  | _ :: _, _, _ => none

/-- The loop over the products that arrive. -/
def multiplyAll (keys : Keys) (arrivals : List ℕ) : ℕ :=
  arrivals.foldl (fun multiply mul => multiply * mul % keys.n) 1

/-- The products in the order in which the threads, by their numbers, deliver them. -/
def arrivals (threads : List (Option ℕ)) (order : List ℕ) : List ℕ :=
  order.filterMap fun i => threads[i]?.join

/-- `batch_verify`, for the order in which the threads deliver; `none` if it never returns. -/
def batchVerify (keys : Keys) (us names : List String) (qSlice : List QElement) (sigma : String)
    (mus : List String) (order : List ℕ) : Option (Except Error Bool) :=
  match startThreads sha256 keys qSlice names us mus with
  | none => some (.error .panic)
  | some threads =>
    let iter := (arrivals threads order).take names.length
    if iter.length < names.length then none
    else
      match fromDecimal sigma with
      | .error _ => some (.error .panic)
      | .ok sigma => some (.ok (decide (sigma ^ keys.e % keys.n = multiplyAll keys iter)))

/-! ## The order of the arrivals -/

variable {keys : Keys}

/-- The loop reduces after every product, which does not matter in the end. -/
theorem foldl_mul_mod (l : List ℕ) (acc : ℕ) :
    l.foldl (fun multiply mul => multiply * mul % keys.n) acc ≡ acc * l.prod [MOD keys.n] := by
  induction l generalizing acc with
  | nil =>
    rw [List.foldl_nil, List.prod_nil, Nat.mul_one]
  | cons mul rest ih =>
    rw [List.prod_cons, ← Nat.mul_assoc]
    exact (ih _).trans ((Nat.mod_modEq _ _).mul_right _)

/-- What has been received at least once is reduced. -/
theorem multiplyAll_eq {l : List ℕ} (hl : l ≠ []) : multiplyAll keys l = l.prod % keys.n := by
  have hmod : multiplyAll keys l ≡ 1 * l.prod [MOD keys.n] := foldl_mul_mod l 1
  have hlt : multiplyAll keys l < keys.n := by
    rcases List.eq_nil_or_concat l with rfl | ⟨front, last, rfl⟩
    · exact absurd rfl hl
    · unfold multiplyAll
      rw [List.concat_eq_append, List.foldl_append]
      exact Nat.mod_lt _ keys.pos
  rw [Nat.one_mul] at hmod
  calc multiplyAll keys l = multiplyAll keys l % keys.n := (Nat.mod_eq_of_lt hlt).symm
    _ = l.prod % keys.n := hmod

/-- The arrivals in the order of the threads. -/
theorem arrivals_range (products : List ℕ) :
    arrivals (products.map some) (List.range products.length) = products := by
  induction products with
  | nil => rfl
  | cons mul rest ih =>
    have hrest : (List.range rest.length).filterMap
        (fun i => ((some mul :: rest.map some)[i + 1]?).join) = rest := ih
    unfold arrivals
    rw [List.length_cons, List.range_succ_eq_map, List.filterMap_cons,
      List.filterMap_map]
    exact congrArg (mul :: ·) hrest

/-- If every thread sends, all products arrive, in some order. -/
theorem arrivals_perm (products : List ℕ) {order : List ℕ}
    (horder : order.Perm (List.range products.length)) :
    (arrivals (products.map some) order).Perm products := by
  have hperm : (arrivals (products.map some) order).Perm
      (arrivals (products.map some) (List.range products.length)) := horder.filterMap _
  rwa [arrivals_range] at hperm

theorem length_startThreads {qSlice : List QElement} {names us mus : List String}
    {threads : List (Option ℕ)} (h : startThreads sha256 keys qSlice names us mus = some threads) :
    threads.length = names.length := by
  induction names generalizing us mus threads with
  | nil =>
    obtain rfl := Option.some.inj h
    rfl
  | cons name names ih =>
    cases us with
    | nil => cases h
    | cons u us =>
      cases mus with
      | nil => cases h
      | cons mu mus =>
        obtain ⟨rest, hrest, hthreads⟩ := Option.bind_eq_some_iff.mp h
        obtain rfl := Option.some.inj hthreads
        rw [List.length_cons, List.length_cons, ih hrest]

/-- **The verdict does not depend on the order of the arrivals.** -/
theorem batchVerify_eq {qSlice : List QElement} {names us mus : List String} {products : List ℕ}
    (hthreads : startThreads sha256 keys qSlice names us mus = some (products.map some))
    (hnames : names ≠ []) {order : List ℕ} (horder : order.Perm (List.range names.length))
    {sigma : String} {s : ℕ} (hsigma : fromDecimal sigma = .ok s) :
    batchVerify sha256 keys us names qSlice sigma mus order =
      some (.ok (decide (s ^ keys.e % keys.n = products.prod % keys.n))) := by
  have hlength : products.length = names.length := by
    rw [← length_startThreads sha256 hthreads, List.length_map]
  have hperm : (arrivals (products.map some) order).Perm products :=
    arrivals_perm products (by rw [hlength]; exact horder)
  have harrived : (arrivals (products.map some) order).length = names.length :=
    hperm.length_eq.trans hlength
  have hall : (arrivals (products.map some) order).take names.length =
      arrivals (products.map some) order := List.take_of_length_le harrived.le
  have hsome : arrivals (products.map some) order ≠ [] := by
    intro hnil
    rw [hnil] at harrived
    exact hnames (List.length_eq_zero_iff.mp harrived.symm)
  unfold batchVerify
  simp only [hthreads, hall, harrived, lt_self_iff_false, if_false, hsigma]
  rw [multiplyAll_eq hsome, hperm.prod_eq]

/-! ## Honest provers -/

variable {qSlice : List QElement}

/-- The loop over the tags of one file does to `sigma` what `proof_gen` does. -/
theorem foldlM_aggrStep {file : File} {eachSize : ℕ} {phi : List String} {acc acc' : ℕ × ℕ}
    (c : ℕ) (h : qSlice.foldlM (proofStep keys file eachSize phi) acc = .ok acc') :
    qSlice.foldlM (aggrStep keys phi) (c * acc.2) = .ok (c * acc'.2) := by
  induction qSlice generalizing acc with
  | nil =>
    obtain rfl := Except.ok.inj h
    rfl
  | cons q rest ih =>
    have hround : ∀ acc₁, proofStep keys file eachSize phi acc q = .ok acc₁ →
        aggrStep keys phi (c * acc.2) q = .ok (c * acc₁.2) := by
      intro acc₁ hstep
      unfold proofStep at hstep
      unfold aggrStep
      cases hphi : phi[q.i]? with
      | none =>
        rw [hphi] at hstep
        cases hstep
      | some text =>
        rw [hphi] at hstep
        dsimp only at hstep ⊢
        cases hread : fromDecimal text with
        | error =>
          rw [hread] at hstep
          cases hstep
        | ok sigma =>
          rw [hread] at hstep
          obtain rfl := Except.ok.inj hstep
          dsimp only
          rw [Nat.mul_assoc]
    rw [List.foldlM_cons] at h ⊢
    cases hstep : proofStep keys file eachSize phi acc q with
    | error e =>
      rw [hstep] at h
      cases h
    | ok acc₁ =>
      rw [hstep] at h
      rw [hround acc₁ hstep]
      exact ih h

/-- A file of a prover that follows the protocol: it is cut into blocks of one size, and the
prover still has it. -/
structure Stored where
  data : List UInt8
  nBlocks : ℕ
  name : String
  u : ℕ
  file : File
  pos : 1 ≤ nBlocks
  dvd : nBlocks ∣ data.length
  holds : file.Holds data

/-- The tag of the file. -/
def Stored.tag (keys : Keys) (f : Stored) : T where
  name := f.name
  u := toDecimal f.u
  phi := blockTags sha256 keys f.data f.nBlocks f.name f.u

theorem Stored.sigGenWithData_eq (f : Stored) :
    sigGenWithData sha256 keys f.data f.nBlocks f.name f.u = .ok (f.tag sha256 keys) := by
  have hpos := f.pos
  unfold sigGenWithData
  rw [if_neg (by omega), if_neg (by rw [Nat.mod_eq_zero_of_dvd f.dvd]; decide)]
  rfl

/-- The proof of one file, and what its tags contribute to an aggregated one. -/
theorem Stored.answer (hkeys : keys.Inverse) (f : Stored) (hq : ∀ q ∈ qSlice, q.i < f.nBlocks) :
    ∃ acc : ℕ × ℕ,
      proofGen keys (.ok f.file) qSlice (f.tag sha256 keys) =
        .ok { mu := toDecimal acc.1, sigma := toDecimal (acc.2 % keys.n) } ∧
      (∀ c, aggrTag keys qSlice c (f.tag sha256 keys) = .ok (c * acc.2 % keys.n)) ∧
      acc.2 ^ keys.e ≡ hashProduct sha256 keys f.name qSlice 1 * f.u ^ acc.1 [MOD keys.n] := by
  have hstart : Matches keys f.u (0, 1) 1 := by
    show 1 ^ keys.e ≡ 1 * f.u ^ 0 [MOD keys.n]
    rw [Nat.one_pow, Nat.pow_zero]
  obtain ⟨acc, hfold, hmatch⟩ :=
    foldlM_proofStep sha256 f.name hkeys f.holds f.dvd hq hstart
  have hlength : (f.tag sha256 keys).phi.length = f.nBlocks := by
    show (blockTags sha256 keys f.data f.nBlocks f.name f.u).length = f.nBlocks
    rw [blockTags, List.length_map, List.length_range]
  refine ⟨acc, ?_, ?_, hmatch⟩
  · have hpos := f.pos
    have hloop : qSlice.foldlM (proofStep keys f.file (f.data.length / f.nBlocks)
        (f.tag sha256 keys).phi) (0, 1) = .ok acc := hfold
    unfold proofGen
    simp only [hlength, f.holds.size, hloop]
    rw [if_neg (by omega)]
    rfl
  · intro c
    have hloop := foldlM_aggrStep c hfold
    rw [Nat.mul_one] at hloop
    unfold aggrTag
    rw [show (f.tag sha256 keys).phi = blockTags sha256 keys f.data f.nBlocks f.name f.u from rfl,
      hloop]
    rfl

/-- What the thread of an honest file sends. -/
theorem Stored.threadProduct_eq (f : Stored) (mu : ℕ) :
    threadProduct sha256 keys qSlice (f.tag sha256 keys).name (f.tag sha256 keys).u (toDecimal mu) =
      some (hashProduct sha256 keys f.name qSlice 1 * (f.u ^ mu % keys.n) % keys.n) := by
  unfold threadProduct Stored.tag
  simp only [fromDecimal_toDecimal]

/-- **The loops of the aggregating prover and of the threads keep step.** -/
theorem aggregate_files (hkeys : keys.Inverse) (files : List Stored)
    (hq : ∀ f ∈ files, ∀ q ∈ qSlice, q.i < f.nBlocks) {c product : ℕ}
    (h : c ^ keys.e ≡ product [MOD keys.n]) :
    ∃ (proofs : List Proof) (products : List ℕ) (c' : ℕ),
      files.mapM (fun f => proofGen keys (.ok f.file) qSlice (f.tag sha256 keys)) = .ok proofs ∧
      (files.map (Stored.tag sha256 keys)).foldlM (aggrTag keys qSlice) c = .ok c' ∧
      startThreads sha256 keys qSlice (files.map fun f => (f.tag sha256 keys).name)
        (files.map fun f => (f.tag sha256 keys).u) (proofs.map Proof.mu) =
          some (products.map some) ∧
      c' ^ keys.e ≡ product * products.prod [MOD keys.n] := by
  induction files generalizing c product with
  | nil =>
    refine ⟨[], [], c, rfl, rfl, rfl, ?_⟩
    rw [List.prod_nil, Nat.mul_one]
    exact h
  | cons f files ih =>
    obtain ⟨acc, hproof, haggr, hmatch⟩ :=
      f.answer sha256 hkeys (hq f List.mem_cons_self)
    set mul := hashProduct sha256 keys f.name qSlice 1 * (f.u ^ acc.1 % keys.n) % keys.n with hmul
    have hpow : (c * acc.2 % keys.n) ^ keys.e ≡ product * mul [MOD keys.n] := by
      have hreduce : mul ≡ hashProduct sha256 keys f.name qSlice 1 * f.u ^ acc.1 [MOD keys.n] :=
        (Nat.mod_modEq _ _).trans ((Nat.ModEq.refl _).mul (Nat.mod_modEq _ _))
      calc (c * acc.2 % keys.n) ^ keys.e
          ≡ (c * acc.2) ^ keys.e [MOD keys.n] := (Nat.mod_modEq _ _).pow _
        _ = c ^ keys.e * acc.2 ^ keys.e := Nat.mul_pow _ _ _
        _ ≡ product * mul [MOD keys.n] := h.mul (hmatch.trans hreduce.symm)
    obtain ⟨proofs, products, c', hproofs, hfold, hthreads, hlast⟩ :=
      ih (fun f' hf' => hq f' (List.mem_cons_of_mem _ hf')) hpow
    refine ⟨{ mu := toDecimal acc.1, sigma := toDecimal (acc.2 % keys.n) } :: proofs,
      mul :: products, c', ?_, ?_, ?_, ?_⟩
    · rw [List.mapM_cons, hproof, hproofs]
      rfl
    · rw [List.map_cons, List.foldlM_cons, haggr c]
      exact hfold
    · have hthread := @Stored.threadProduct_eq sha256 keys qSlice f acc.1
      simp only [List.map_cons, startThreads, hthreads, hthread]
      rfl
    · rw [List.prod_cons, ← Nat.mul_assoc]
      exact hlast

/-- **Aggregated answers.**  For every non-empty list of files tagged under one key and every
challenge of blocks that all of them have, the `sigma` of `aggrProofGen` and the `mu` of the files
pass `batchVerify`, in whatever order the threads deliver.  For one file, `batchVerify` and `verify`
agree on all numbers that can be read. -/
theorem batchVerify_aggrProofGen (hkeys : keys.Inverse) :
    (∀ (files : List Stored) (qSlice : List QElement) (order : List ℕ), files ≠ [] →
      (∀ f ∈ files, ∀ q ∈ qSlice, q.i < f.nBlocks) →
      order.Perm (List.range files.length) →
      ∃ (tags : List T) (proofs : List Proof) (sigma : String),
        files.mapM (fun f => sigGenWithData sha256 keys f.data f.nBlocks f.name f.u) = .ok tags ∧
        (files.zip tags).mapM (fun p => proofGen keys (.ok p.1.file) qSlice p.2) = .ok proofs ∧
        aggrProofGen keys qSlice tags = .ok sigma ∧
        batchVerify sha256 keys (tags.map T.u) (tags.map T.name) qSlice sigma (proofs.map Proof.mu)
          order = some (.ok true)) ∧
    ∀ (u name : String) (qSlice : List QElement) (sigma mu : String) (order : List ℕ) (uValue
      sigmaValue muValue : ℕ), fromDecimal u = .ok uValue → fromDecimal sigma = .ok sigmaValue →
      fromDecimal mu = .ok muValue → order.Perm (List.range [name].length) →
      batchVerify sha256 keys [u] [name] qSlice sigma [mu] order =
        some (verify sha256 keys u name qSlice sigma mu) := by
  constructor
  · intro files qSlice order hfiles hq horder
    have hone : 1 ^ keys.e ≡ 1 [MOD keys.n] := by rw [Nat.one_pow]
    obtain ⟨proofs, products, c, hproofs, hfold, hthreads, hsigma⟩ :=
      aggregate_files sha256 hkeys files hq hone
    have htags : files.mapM (fun f => sigGenWithData sha256 keys f.data f.nBlocks f.name f.u) =
        .ok (files.map (Stored.tag sha256 keys)) := by
      simp only [Stored.sigGenWithData_eq]
      exact List.mapM_pure
    have hzip : files.zip (files.map (Stored.tag sha256 keys)) =
        files.map fun f => (f, f.tag sha256 keys) := by
      rw [← List.map_prod_left_eq_zip]
    refine ⟨files.map (Stored.tag sha256 keys), proofs, toDecimal c, htags, ?_, ?_, ?_⟩
    · rw [hzip, List.mapM_map]
      exact hproofs
    · unfold aggrProofGen
      rw [hfold]
      rfl
    · have hlength : (files.map fun f => (f.tag sha256 keys).name).length = files.length :=
        List.length_map _
      have hnames : (files.map fun f => (f.tag sha256 keys).name) ≠ [] := by simpa using hfiles
      have hverdict := batchVerify_eq sha256 hthreads hnames (hlength ▸ horder)
        (fromDecimal_toDecimal c)
      rw [Nat.one_mul] at hsigma
      rw [List.map_map, List.map_map]
      have hequal : c ^ keys.e % keys.n = products.prod % keys.n := hsigma
      rw [decide_eq_true hequal] at hverdict
      exact hverdict
  · intro u name qSlice sigma mu order uValue sigmaValue muValue hu hsigma hmu horder
    have hthreads : startThreads sha256 keys qSlice [name] [u] [mu] = some ([hashProduct sha256 keys
        name qSlice 1 * (uValue ^ muValue % keys.n) % keys.n].map some) := by
      simp only [startThreads, threadProduct, hu, hmu]
      rfl
    rw [batchVerify_eq sha256 hthreads (by simp) horder hsigma]
    unfold verify
    simp only [hu, hmu, hsigma, List.prod_singleton, Nat.mod_mod]

/-- Two small files. -/
def twoFiles : List Stored :=
  [{ data := [1, 2, 3, 4], nBlocks := 2, name := "a", u := 5, file := fileOf [1, 2, 3, 4]
     pos := by decide, dvd := by decide, holds := ⟨rfl, fun _ _ => rfl⟩ },
   { data := [9, 8, 7], nBlocks := 3, name := "b", u := 7, file := fileOf [9, 8, 7]
     pos := by decide, dvd := by decide, holds := ⟨rfl, fun _ _ => rfl⟩ }]

theorem batchVerify_aggrProofGen_two :
    (∃ (tags : List T) (proofs : List Proof) (sigma : String),
      twoFiles.mapM (fun f => sigGenWithData (Pois.shortHash 31) smallKeys f.data f.nBlocks f.name
        f.u) = .ok tags ∧
      (twoFiles.zip tags).mapM (fun p => proofGen smallKeys (.ok p.1.file) [⟨1, [3]⟩, ⟨0, [2]⟩]
        p.2) = .ok proofs ∧
      aggrProofGen smallKeys [⟨1, [3]⟩, ⟨0, [2]⟩] tags = .ok sigma ∧
      batchVerify (Pois.shortHash 31) smallKeys (tags.map T.u) (tags.map T.name)
        [⟨1, [3]⟩, ⟨0, [2]⟩] sigma (proofs.map Proof.mu) [1, 0] = some (.ok true)) ∧
    batchVerify (Pois.shortHash 31) smallKeys [toDecimal 5] ["a"] [⟨1, [3]⟩] (toDecimal 4)
      [toDecimal 6] [0] =
        some (verify (Pois.shortHash 31) smallKeys (toDecimal 5) "a" [⟨1, [3]⟩] (toDecimal 4)
          (toDecimal 6)) :=
  ⟨(batchVerify_aggrProofGen (Pois.shortHash 31) smallKeys_inverse).1 twoFiles
      [⟨1, [3]⟩, ⟨0, [2]⟩] [1, 0] (by decide) (by decide) (by decide),
    (batchVerify_aggrProofGen (Pois.shortHash 31) smallKeys_inverse).2 (toDecimal 5) "a" [⟨1, [3]⟩]
      (toDecimal 4) (toDecimal 6) [0] 5 4 6 (fromDecimal_toDecimal 5) (fromDecimal_toDecimal 4)
      (fromDecimal_toDecimal 6) (by decide)⟩

end Podr2
