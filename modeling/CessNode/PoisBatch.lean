/-
# Batches of witness chains

The witness chains of many elements are verified at once, block by block.  Only the chain at the end
of a block is followed up to the accumulator.  Of the other chains the first link is verified, for a
quarter of them that is drawn at random, and every chain has to name the accumulator that the chain
before it names.

* `EndsBlock` and `SameBlock` : the blocks of 256 elements;
* `batchFrom_link_eq_true` : what a round accepts;
* `batch_check_exact` : if all first links are verified, then the batch check is as strong as the
  checks of the single chains, and it accepts what they accept.
-/
import CessNode.PoisReads
import CessNode.PoisDeletion

namespace Pois

variable {P : Params} {key : RsaKey} {baseIdx : Int64} {acc : List UInt8} {draw : ℕ → ℕ}
variable {len i : ℕ} {subAcc : Option (List UInt8)} {wits : List WitnessNode}

/-! ## Blocks -/

/-- A block ends with an element whose index is a multiple of 256, or with the list. -/
def EndsBlock (baseIdx : Int64) (len i : ℕ) : Prop :=
  (256 : ℤ) ∣ i + baseIdx.toInt ∨ i = len - 1

/-- No block ends from a position on before another one. -/
def SameBlock (baseIdx : Int64) (len k m : ℕ) : Prop :=
  k ≤ m ∧ ∀ j, k ≤ j → j < m → ¬ EndsBlock baseIdx len j

/-- The test of the code, which computes modulo `2 ^ 64`. -/
theorem endsBlock_iff :
    EndsBlock baseIdx len i ↔
      (Int64.ofNat i + baseIdx) % Acc.defaultElemsNum = 0 ∨ i = len - 1 := by
  refine or_congr_left ?_
  have hnum : Acc.defaultElemsNum.toInt = 256 := rfl
  have hindex := Int.bmod_emod (x := (i : ℤ)) (m := 2 ^ 64)
  have hsum := Int.bmod_emod (x := (i : ℤ).bmod (2 ^ 64) + baseIdx.toInt) (m := 2 ^ 64)
  rw [← Int64.toInt_inj, Int64.toInt_zero, Int64.toInt_mod, Int64.toInt_add, Int64.toInt_ofNat', hnum,
    ← Int.dvd_iff_tmod_eq_zero]
  generalize (i : ℤ).bmod (2 ^ 64) = x at *
  omega

/-! ## A round -/

section Round

variable {elem wit : List UInt8} {up : WitnessNode} {rest : List WitnessNode}

theorem batchRound_link_eq_true :
    Acc.batchRound P key baseIdx acc draw len i (.link elem wit up) rest = .ok true ↔
      (EndsBlock baseIdx len i → (WitnessNode.link elem wit up).Leads P key acc ∧
        Acc.batchFrom P key baseIdx acc draw len (i + 1) none rest = .ok true) ∧
      (¬ EndsBlock baseIdx len i → (draw i < 25 → Witnesses P key up.elem elem wit) ∧
        Acc.batchFrom P key baseIdx acc draw len (i + 1) (some up.elem) rest = .ok true) := by
  unfold Acc.batchRound
  by_cases hends : EndsBlock baseIdx len i
  · rw [if_pos (endsBlock_iff.mp hends), and_then_eq_true, verifyMutilevelAcc_eq_true]
    simp only [hends, true_imp_iff, not_true, false_imp_iff, and_true]
  · rw [if_neg (endsBlock_iff.not.mp hends)]
    show ((if draw i < 25 then Acc.verifyAcc P key up.elem elem wit else pure true) >>=
      fun b => if b = true then _ else pure false) = _ ↔ _
    rw [and_then_eq_true]
    simp only [hends, false_imp_iff, true_and, not_false_eq_true, true_imp_iff]
    refine and_congr_left fun _ => ?_
    split_ifs with hdraw
    · rw [verifyAcc_eq_true]
      exact ⟨fun h _ => h, fun h => h hdraw⟩
    · exact ⟨fun _ h => absurd h hdraw, fun _ => rfl⟩

/-- **What a round accepts**: the accumulator that is expected, and the whole chain at the end of a
block or else the first link. -/
theorem batchFrom_link_eq_true :
    Acc.batchFrom P key baseIdx acc draw len i subAcc (.link elem wit up :: rest) = .ok true ↔
      (∀ sa ∈ subAcc, up.elem = sa) ∧
        Acc.batchRound P key baseIdx acc draw len i (.link elem wit up) rest = .ok true := by
  cases subAcc with
  | none => simp [batchRound_eq]
  | some sa =>
    rw [batchFrom_some, batchRound_eq]
    show (if up.elem = sa then _ else pure false) = _ ↔ _
    split_ifs with hsame
    · simp [hsame]
    · simp [hsame]
      exact nofun

end Round

/-! ## All rounds -/

/-- The chain at position `k` is verified by its first link, followed by the chain at the end of its
block without its first link. -/
def VerifiedAt (P : Params) (key : RsaKey) (baseIdx : Int64) (acc : List UInt8)
    (wits : List WitnessNode) (k : ℕ) (w up : WitnessNode) : Prop :=
  ∃ m last, SameBlock baseIdx wits.length k m ∧ EndsBlock baseIdx wits.length m ∧
    wits[m]? = some last ∧ last.acc = some up ∧
    (WitnessNode.link w.elem w.wit up).Leads P key acc

variable (hlinks : ∀ w ∈ wits, w.acc ≠ none)
include hlinks

theorem exists_link (hi : i < wits.length) : ∃ elem wit up, wits[i] = .link elem wit up := by
  have hacc := hlinks wits[i] (List.getElem_mem hi)
  cases h : wits[i] with
  | last elem wit =>
    rw [h] at hacc
    exact absurd rfl hacc
  | link elem wit up => exact ⟨elem, wit, up, rfl⟩

/-- From position `i` on every chain is verified, the first one with the accumulator that it has to
name.  By induction on the number of chains that are left. -/
theorem verifiedAt_of_batchFrom (hdraw : ∀ i, draw i < 25) (n : ℕ) (hn : i + n = wits.length)
    (h : Acc.batchFrom P key baseIdx acc draw wits.length i subAcc (wits.drop i) = .ok true) :
    ∀ k w, i ≤ k → wits[k]? = some w → ∃ up, VerifiedAt P key baseIdx acc wits k w up ∧
      (k = i → ∀ sa ∈ subAcc, up.elem = sa) := by
  induction n generalizing i subAcc with
  | zero =>
    intro k w hk hw
    rw [List.getElem?_eq_none (by omega)] at hw
    cases hw
  | succ n ih =>
    obtain ⟨elem, wit, up, hlink⟩ := exists_link hlinks (show i < wits.length by omega)
    rw [List.drop_eq_getElem_cons (by omega), hlink, batchFrom_link_eq_true,
      batchRound_link_eq_true] at h
    obtain ⟨hsub, hend, hinner⟩ := h
    have hfirst : ∀ w, wits[i]? = some w → w = .link elem wit up := by
      intro w hw
      rw [List.getElem?_eq_getElem (by omega), hlink] at hw
      exact (Option.some.inj hw).symm
    intro k w hk hw
    rcases Nat.eq_or_lt_of_le hk with rfl | hlt
    · obtain rfl := hfirst w hw
      by_cases hends : EndsBlock baseIdx wits.length i
      · refine ⟨up, ⟨i, _, ⟨le_rfl, by omega⟩, hends, hw, rfl, (hend hends).1⟩, fun _ => hsub⟩
      · -- the next chain belongs to the same block and names the same accumulator
        obtain ⟨hwitness, hrest⟩ := hinner hends
        have hnext : i + 1 < wits.length := by
          have hlast : i ≠ wits.length - 1 := fun heq => hends (.inr heq)
          omega
        obtain ⟨up', ⟨m, last, hblock, hm, hlast, hacc, hleads⟩, hup'⟩ :=
          ih (by omega) hrest (i + 1) wits[i + 1] le_rfl (List.getElem?_eq_getElem hnext)
        have helem : up'.elem = up.elem := hup' rfl _ rfl
        refine ⟨up', ⟨m, last, ⟨by have := hblock.1; omega, ?_⟩, hm, hlast, hacc, ?_⟩, ?_⟩
        · intro j hj hjm
          rcases Nat.eq_or_lt_of_le hj with rfl | hj
          · exact hends
          · exact hblock.2 j hj hjm
        · exact ⟨helem ▸ hwitness (hdraw i), hleads.2⟩
        · intro _ sa hsa
          exact helem.trans (hsub sa hsa)
    · by_cases hends : EndsBlock baseIdx wits.length i
      · obtain ⟨up', hup', -⟩ := ih (by omega) (hend hends).2 k w hlt hw
        exact ⟨up', hup', fun heq => by omega⟩
      · obtain ⟨up', hup', -⟩ := ih (by omega) (hinner hends).2 k w hlt hw
        exact ⟨up', hup', fun heq => by omega⟩

/-- Chains that lead to the accumulator and agree within their blocks are accepted, whatever is
drawn. -/
theorem batchFrom_of_leads (hleads : ∀ w ∈ wits, w.Leads P key acc)
    (hshare : ∀ k m w w', SameBlock baseIdx wits.length k m → wits[k]? = some w →
      wits[m]? = some w' → w'.acc.map WitnessNode.elem = w.acc.map WitnessNode.elem)
    (n : ℕ) (hn : i + n = wits.length)
    (hsub : ∀ sa ∈ subAcc, ∀ w, wits[i]? = some w → w.acc.map WitnessNode.elem = some sa) :
    Acc.batchFrom P key baseIdx acc draw wits.length i subAcc (wits.drop i) = .ok true := by
  induction n generalizing i subAcc with
  | zero =>
    rw [List.drop_of_length_le (by omega)]
    rfl
  | succ n ih =>
    have hi : i < wits.length := by omega
    obtain ⟨elem, wit, up, hlink⟩ := exists_link hlinks hi
    have hlead := hleads _ (List.getElem_mem hi)
    have hget : wits[i]? = some (.link elem wit up) := by
      rw [List.getElem?_eq_getElem hi, hlink]
    rw [hlink] at hlead
    rw [List.drop_eq_getElem_cons hi, hlink, batchFrom_link_eq_true, batchRound_link_eq_true]
    refine ⟨fun sa hsa => Option.some.inj (hsub sa hsa _ hget), fun _ => ?_, fun hends => ?_⟩
    · exact ⟨hlead, ih (by omega) nofun⟩
    · refine ⟨fun _ => hlead.1, ih (by omega) ?_⟩
      rintro _ ⟨⟩ w hw
      refine hshare i (i + 1) _ w ⟨by omega, fun j hj hjm => ?_⟩ hget hw
      obtain rfl : j = i := by omega
      exact hends

omit hlinks

/-- **The batch check is as strong as the checks of the single chains.**  If every draw selects the
check, then of an accepted list every element has a chain up to the accumulator: its own first link,
followed by the chain at the end of its block.  And a list is accepted if all its chains lead to the
accumulator and name the same accumulator within a block. -/
theorem batch_check_exact (hlinks : ∀ w ∈ wits, w.acc ≠ none) :
    ((∀ i, draw i < 25) →
      Acc.verifyMutilevelAccForBatch P draw key baseIdx wits acc = .ok true →
      ∀ k w, wits[k]? = some w → ∃ up, VerifiedAt P key baseIdx acc wits k w up) ∧
    ((∀ w ∈ wits, w.Leads P key acc) →
      (∀ k m w w', SameBlock baseIdx wits.length k m → wits[k]? = some w → wits[m]? = some w' →
        w'.acc.map WitnessNode.elem = w.acc.map WitnessNode.elem) →
      Acc.verifyMutilevelAccForBatch P draw key baseIdx wits acc = .ok true) := by
  constructor
  · intro hdraw h k w hw
    obtain ⟨up, hup, -⟩ := verifiedAt_of_batchFrom hlinks hdraw wits.length (Nat.zero_add _) h k w
      (Nat.zero_le k) hw
    exact ⟨up, hup⟩
  · intro hleads hshare
    exact batchFrom_of_leads hlinks hleads hshare wits.length (Nat.zero_add _) nofun

/-- Two chains of one block. -/
theorem batch_check_two_chains :
    ∃ up, VerifiedAt shortParams { n := 1, g := 1 } 1 [] [.link [1] [2] (.last [] []),
      .link [3] [4] (.last [] [])] 0 (.link [1] [2] (.last [] [])) up := by
  have haccepted : Acc.verifyMutilevelAccForBatch shortParams (fun _ => 0) { n := 1, g := 1 } 1
      [.link [1] [2] (.last [] []), .link [3] [4] (.last [] [])] [] = .ok true := by
    decide +kernel
  exact (batch_check_exact (by decide)).1 (fun _ => by decide) haccepted 0 _ rfl

end Pois
