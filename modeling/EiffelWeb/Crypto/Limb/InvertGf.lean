import EiffelWeb.Crypto.Limb.IntegerXIo
import EiffelWeb.Crypto.Limb.SpecialMul
import EiffelWeb.Crypto.Limb.SpecialXor
import EiffelWeb.Gf2
import EiffelWeb.Loop

set_option relaxedAutoImplicit false
set_option autoImplicit false

/-!
# Inverses of polynomials over the field with two elements

The routine `invert_gf` of `SPECIAL_NUMBER_THEORETIC`: the extended Euclidean algorithm on arrays of
limbs whose bits are the coefficients. The remainders and their cofactors are in four new arrays. A
step exchanges the two remainders if the second one is longer, shifts the second one to the length
of the first one and takes it away.

## Main definitions

* `SpecialNumberTheoretic.invertGf`
* `SpecialNumberTheoretic.InvertState.Holds` — what holds at the head of the loop.

## Main results

* `SpecialNumberTheoretic.invertGfStep_holds` — one step.
* `SpecialNumberTheoretic.invertGf_isInverse` — the inverse.
-/

namespace EiffelWeb

open Limbs Arrays SpecialLogic SpecialUtility

namespace SpecialNumberTheoretic

/-- The locals of `invert_gf`, and the arrays. -/
structure InvertState where
  /-- The array of the first remainder. -/
  op1 : ℕ
  /-- The number of its limbs. -/
  op1Count : ℕ
  /-- The array of the second remainder. -/
  op2 : ℕ
  /-- The number of its limbs. -/
  op2Count : ℕ
  /-- The array of the first cofactor. -/
  g1 : ℕ
  /-- The array of the second cofactor. -/
  g2 : ℕ
  /-- The arrays. -/
  heap : LimbHeap

/-- The exchange of the operands. -/
def InvertState.swap (st : InvertState) : InvertState :=
  { st with
    op1 := st.op2, op1Count := st.op2Count, op2 := st.op1, op2Count := st.op1Count
    g1 := st.g2, g2 := st.g1 }

/-- `op [count - 1]`. -/
def highLimb (h : LimbHeap) (op count : ℕ) : Option Natural32 :=
  if count = 0 then none else h.item op (count - 1)

/-- The exclusive disjunctions of one iteration. -/
def invertGfXor (operandSizes op1LeadingZeros op2LeadingZeros : ℕ) (st : InvertState) :
    Option LimbHeap :=
  if st.op1Count ≠ st.op2Count ∨
      (st.op1Count = st.op2Count ∧ op1LeadingZeros ≠ op2LeadingZeros) then do
    let leftShiftAmount := (st.op1Count - st.op2Count) * 32 + op2LeadingZeros - op1LeadingZeros
    let h ← bitXorLshift st.op1 0 st.op1 0 st.op1Count st.op2 0 st.op2Count leftShiftAmount st.heap
    bitXorLshift st.g1 0 st.g1 0 operandSizes st.g2 0 operandSizes leftShiftAmount h
  else do
    let h ← bitXor st.op1 0 st.op1 0 st.op1Count st.op2 0 st.op2Count st.heap
    bitXor st.g1 0 st.g1 0 operandSizes st.g2 0 operandSizes h

/-- One iteration, from the exclusive disjunctions on. -/
def invertGfStep (operandSizes op1LeadingZeros op2LeadingZeros : ℕ) (st : InvertState) :
    Option InvertState := do
  let h ← invertGfXor operandSizes op1LeadingZeros op2LeadingZeros st
  let op1Count ← normalize st.op1 0 st.op1Count h
  let op2Count ← normalize st.op2 0 st.op2Count h
  return { st with op1Count := op1Count, op2Count := op2Count, heap := h }

/-- The loop of `invert_gf`. -/
def invertGfLoop (operandSizes : ℕ) : Loop InvertState where
  exit st := st.op1Count = 0
  body st := do
    let x ← highLimb st.heap st.op1 st.op1Count
    let y ← highLimb st.heap st.op2 st.op2Count
    let op1LeadingZeros := IntegerXMemory.leadingZeros x
    let op2LeadingZeros := IntegerXMemory.leadingZeros y
    if st.op1Count < st.op2Count ∨
        (st.op1Count = st.op2Count ∧ op2LeadingZeros < op1LeadingZeros) then
      invertGfStep operandSizes op2LeadingZeros op1LeadingZeros st.swap
    else invertGfStep operandSizes op1LeadingZeros op2LeadingZeros st

/-- `invert_gf (target, target_offset, op1_a, op1_offset, op1_count_a, op2_a, op2_offset,
op2_count_a)`. The references from `fresh` on are not in use; the loop runs at most `fuel` times. -/
def invertGf (fuel fresh target targetOffset op1A op1Offset op1CountA op2A op2Offset
    op2CountA : ℕ) (h : LimbHeap) : Option LimbHeap := do
  let operandSizes := op2CountA
  let filled := List.replicate (operandSizes + operandSizes) 0
  let h : LimbHeap := Function.update (Function.update h fresh filled) (fresh + 1) filled
  let h ← h.copyData fresh op1A op1Offset 0 (min op1CountA operandSizes)
  let h ← h.copyData (fresh + 1) op2A op2Offset 0 (min op2CountA operandSizes)
  let h : LimbHeap := Function.update (Function.update h (fresh + 2) filled) (fresh + 3) filled
  let h ← h.put (fresh + 2) 0 1
  let st ← (invertGfLoop operandSizes).run fuel
    ⟨fresh, op1CountA, fresh + 1, op2CountA, fresh + 2, fresh + 3, h⟩
  st.heap.copyData target st.g2 0 targetOffset operandSizes

/-! ## Leading zeros -/

/-- The number of bits, from the highest limb. -/
lemma highLimb_eq {h : LimbHeap} {a n : ℕ} (hn : n ≤ (h a).length) (hne : h.number a 0 n ≠ 0)
    (htop : n ≠ 0 → (2 ^ 32) ^ (n - 1) ≤ h.number a 0 n) :
    ∃ x, highLimb h a n = some x ∧
      IntegerXMemory.leadingZeros x + (h.number a 0 n).size = 32 * n ∧
      IntegerXMemory.leadingZeros x < 32 := by
  obtain ⟨k, rfl⟩ : ∃ k, n = k + 1 := by
    refine ⟨n - 1, ?_⟩
    rcases n with _ | n
    · rw [LimbHeap.number_zero] at hne
      exact absurd rfl hne
    · rfl
  obtain ⟨x, hx, hnum⟩ := h.exists_last (i := 0) (by omega : 0 + (k + 1) ≤ (h a).length)
  have hlt : h.number a 0 k < (2 ^ 32) ^ k := h.number_lt (by omega)
  have hle := htop (Nat.succ_ne_zero k)
  rw [Nat.zero_add] at hx
  rw [Nat.add_sub_cancel] at hle
  have hpos : 0 < x.toNat := by
    rw [Nat.pos_iff_ne_zero]
    intro h0
    rw [hnum, h0, Nat.mul_zero, Nat.add_zero] at hle
    omega
  have hsize : (h.number a 0 (k + 1)).size = 32 * k + x.toNat.size := by
    rw [← Nat.pow_mul] at hlt hnum
    rw [hnum, IntegerXMemory.size_add_mul hlt hpos]
  have hx32 : x.toNat.size ≤ 32 := Nat.size_le.mpr x.isLt
  have hxpos := Nat.size_pos.mpr hpos
  refine ⟨x, ?_, ?_, ?_⟩
  · rw [highLimb, if_neg (Nat.succ_ne_zero k), Nat.add_sub_cancel, hx]
  · rw [IntegerXMemory.leadingZeros, hsize]
    omega
  · rw [IntegerXMemory.leadingZeros]
    omega

/-! ## The loop -/

/-- What holds at the head of the loop: `u` and `v` are the remainders, `g` and `k` the cofactors,
in `n` limbs, and the arrays below `fresh` are those of `h₀`. -/
structure InvertState.Holds (fresh n : ℕ) (h₀ : LimbHeap) (u v g k : ℕ) (st : InvertState) :
    Prop where
  /-- The four arrays. -/
  refs : (st.op1 = fresh ∧ st.op2 = fresh + 1 ∧ st.g1 = fresh + 2 ∧ st.g2 = fresh + 3) ∨
    (st.op1 = fresh + 1 ∧ st.op2 = fresh ∧ st.g1 = fresh + 3 ∧ st.g2 = fresh + 2)
  /-- Their lengths. -/
  length : ∀ a, fresh ≤ a → a < fresh + 4 → (st.heap a).length = n + n
  /-- The limbs of the first remainder. -/
  op1_le : st.op1Count ≤ n
  /-- The limbs of the second remainder. -/
  op2_le : st.op2Count ≤ n
  /-- The first remainder. -/
  op1 : st.heap.number st.op1 0 st.op1Count = u
  /-- The second remainder. -/
  op2 : st.heap.number st.op2 0 st.op2Count = v
  /-- The highest limb of the first remainder. -/
  op1_top : st.op1Count ≠ 0 → (2 ^ 32) ^ (st.op1Count - 1) ≤ u
  /-- The highest limb of the second remainder. -/
  op2_top : st.op2Count ≠ 0 → (2 ^ 32) ^ (st.op2Count - 1) ≤ v
  /-- The first cofactor. -/
  g1 : st.heap.number st.g1 0 n = g
  /-- The second cofactor. -/
  g2 : st.heap.number st.g2 0 n = k
  /-- The other arrays. -/
  kept : KeptBelow fresh (fun _ _ => False) h₀ st.heap

variable {fresh n u v g k : ℕ} {h₀ : LimbHeap} {st : InvertState}

lemma InvertState.Holds.swap (h : st.Holds fresh n h₀ u v g k) :
    st.swap.Holds fresh n h₀ v u k g where
  refs := h.refs.symm.imp (fun ⟨h₁, h₂, h₃, h₄⟩ => ⟨h₂, h₁, h₄, h₃⟩)
    (fun ⟨h₁, h₂, h₃, h₄⟩ => ⟨h₂, h₁, h₄, h₃⟩)
  length := h.length
  op1_le := h.op2_le
  op2_le := h.op1_le
  op1 := h.op2
  op2 := h.op1
  op1_top := h.op2_top
  op2_top := h.op1_top
  g1 := h.g2
  g2 := h.g1
  kept := h.kept

/-- The two exclusive disjunctions for a shift by `s` bits, on heaps. -/
lemma xor_both (h : st.Holds fresh n h₀ u v g k) {s : ℕ} {h₁ h₂ : LimbHeap}
    (hu : u ^^^ v <<< s < (2 ^ 32) ^ st.op1Count) (hg : g ^^^ k <<< s < (2 ^ 32) ^ n)
    (hnum₁ : h₁.number st.op1 0 st.op1Count =
      (st.heap.number st.op1 0 st.op1Count ^^^ st.heap.number st.op2 0 st.op2Count <<< s) %
        (2 ^ 32) ^ st.op1Count)
    (hnum₂ : h₂.number st.g1 0 n =
      (h₁.number st.g1 0 n ^^^ h₁.number st.g2 0 n <<< s) % (2 ^ 32) ^ n)
    (hfoot₁ : SameOutside (region st.op1 0 (n + n)) st.heap h₁)
    (hfoot₂ : SameOutside (region st.g1 0 (n + n)) h₁ h₂) :
    h₂.number st.op1 0 st.op1Count = u ^^^ v <<< s ∧ h₂.number st.op2 0 st.op2Count = v ∧
      h₂.number st.g1 0 n = g ^^^ k <<< s ∧ h₂.number st.g2 0 n = k ∧
      (∀ a, (h₂ a).length = (st.heap a).length) ∧ KeptBelow fresh (fun _ _ => False) h₀ h₂ := by
  have hrefs := h.refs
  have hkeep (a : ℕ) (ha : a ≠ st.op1) (i m : ℕ) : h₁.number a i m = st.heap.number a i m :=
    LimbHeap.number_apart hfoot₁ fun he => absurd he.symm ha
  have hkeep' (a : ℕ) (ha : a ≠ st.g1) (i m : ℕ) : h₂.number a i m = h₁.number a i m :=
    LimbHeap.number_apart hfoot₂ fun he => absurd he.symm ha
  refine ⟨?_, ?_, ?_, ?_, fun a => (hfoot₂.length a).trans (hfoot₁.length a), ?_⟩
  · rw [hkeep' _ (by omega), hnum₁, h.op1, h.op2, Nat.mod_eq_of_lt hu]
  · rw [hkeep' _ (by omega), hkeep _ (by omega), h.op2]
  · rw [hnum₂, hkeep _ (by omega), hkeep _ (by omega), h.g1, h.g2, Nat.mod_eq_of_lt hg]
  · rw [hkeep' _ (by omega), hkeep _ (by omega), h.g2]
  · refine (h.kept.trans ((hfoot₁.keptBelow fresh).mono ?_)).trans
      ((hfoot₂.keptBelow fresh).mono ?_)
    · rintro b hb - ⟨rfl, -⟩
      omega
    · rintro b hb - ⟨rfl, -⟩
      omega

/-- **The exclusive disjunctions of one iteration**, when the second remainder is not longer. -/
lemma invertGfXor_run (h : st.Holds fresh n h₀ u v g k) {lz₁ lz₂ : ℕ} (hne : u ≠ 0) (hv : v ≠ 0)
    (hle : v.size ≤ u.size) (h₁ : lz₁ + u.size = 32 * st.op1Count)
    (h₂ : lz₂ + v.size = 32 * st.op2Count) (hlz₁ : lz₁ < 32) (hlz₂ : lz₂ < 32)
    (hg : g.size ≤ 32 * n) (hk : k.size + (u.size - v.size) ≤ 32 * n) :
    ∃ h' : LimbHeap, invertGfXor n lz₁ lz₂ st = some h' ∧
      h'.number st.op1 0 st.op1Count = u ^^^ v <<< (u.size - v.size) ∧
      h'.number st.op2 0 st.op2Count = v ∧
      h'.number st.g1 0 n = g ^^^ k <<< (u.size - v.size) ∧ h'.number st.g2 0 n = k ∧
      (∀ a, (h' a).length = (st.heap a).length) ∧ KeptBelow fresh (fun _ _ => False) h₀ h' := by
  have hrefs := h.refs
  have hvpos := Nat.size_pos.mpr (Nat.pos_of_ne_zero hv)
  have hle₁ := h.op1_le
  have hle₂ := h.op2_le
  have hlen (a : ℕ) (ha : fresh ≤ a ∧ a < fresh + 4) : (st.heap a).length = n + n :=
    h.length a ha.1 ha.2
  have hu' : u ^^^ v <<< (u.size - v.size) < (2 ^ 32) ^ st.op1Count := by
    rw [← Nat.pow_mul, ← Nat.size_le]
    have := Gf2.size_xor_shiftLeft_lt hne hv hle
    omega
  have hg' : g ^^^ k <<< (u.size - v.size) < (2 ^ 32) ^ n := by
    rw [← Nat.pow_mul, ← Nat.size_le]
    exact Gf2.size_xor_le hg ((Gf2.size_shiftLeft_le _ _).trans hk)
  by_cases hcond : st.op1Count ≠ st.op2Count ∨ (st.op1Count = st.op2Count ∧ lz₁ ≠ lz₂)
  · have hshift : (st.op1Count - st.op2Count) * 32 + lz₂ - lz₁ = u.size - v.size := by omega
    obtain ⟨g₁, hrun₁, hnum₁, hfoot₁⟩ := bitXorLshift_run
      (show st.op2 ≠ st.op1 by omega) (show (u.size - v.size) / 32 ≤ st.op1Count by omega)
      (show st.op1Count ≤ n + n by omega)
      (show (u.size - v.size) / 32 + st.op2Count + 1 ≤ n + n by omega)
      (show 0 + (n + n) ≤ (st.heap st.op1).length by rw [hlen _ (by omega)]; omega)
      (show 0 + st.op2Count ≤ (st.heap st.op2).length by rw [hlen _ (by omega)]; omega)
    obtain ⟨g₂, hrun₂, hnum₂, hfoot₂⟩ := bitXorLshift_run
      (show st.g2 ≠ st.g1 by omega) (show (u.size - v.size) / 32 ≤ n by omega)
      (show n ≤ n + n by omega) (show (u.size - v.size) / 32 + n + 1 ≤ n + n by omega)
      (show 0 + (n + n) ≤ (g₁ st.g1).length by rw [hfoot₁.length, hlen _ (by omega)]; omega)
      (show 0 + n ≤ (g₁ st.g2).length by rw [hfoot₁.length, hlen _ (by omega)]; omega)
    refine ⟨g₂, ?_, xor_both h hu' hg' hnum₁ hnum₂ hfoot₁ hfoot₂⟩
    rw [invertGfXor, if_pos hcond]
    simp only [Option.bind_eq_bind]
    rw [hshift, hrun₁, Option.bind_some, hrun₂]
  · have hcount : st.op1Count = st.op2Count := by
      by_contra hne
      exact hcond (Or.inl hne)
    have hzero : u.size - v.size = 0 := by
      have : lz₁ = lz₂ := by
        by_contra hne
        exact hcond (Or.inr ⟨hcount, hne⟩)
      omega
    obtain ⟨g₁, hrun₁, hnum₁, hfoot₁⟩ := bitXor_run
      (show st.op2 ≠ st.op1 by omega)
      (show 0 + max st.op1Count st.op2Count ≤ (st.heap st.op1).length by
        rw [hlen _ (by omega)]; omega)
      (show 0 + st.op2Count ≤ (st.heap st.op2).length by rw [hlen _ (by omega)]; omega)
    obtain ⟨g₂, hrun₂, hnum₂, hfoot₂⟩ := bitXor_run
      (show st.g2 ≠ st.g1 by omega)
      (show 0 + max n n ≤ (g₁ st.g1).length by rw [hfoot₁.length, hlen _ (by omega)]; omega)
      (show 0 + n ≤ (g₁ st.g2).length by rw [hfoot₁.length, hlen _ (by omega)]; omega)
    rw [hzero] at hu' hg' ⊢
    rw [← hcount, Nat.max_self] at hnum₁ hfoot₁
    rw [Nat.max_self] at hnum₂ hfoot₂
    refine ⟨g₂, ?_, xor_both h hu' hg' ?_ ?_ (hfoot₁.mono ?_) (hfoot₂.mono ?_)⟩
    · rw [invertGfXor, if_neg hcond]
      simp only [Option.bind_eq_bind]
      rw [hrun₁, Option.bind_some, hrun₂]
    · rw [Nat.shiftLeft_zero, ← hcount, ← hnum₁, Nat.mod_eq_of_lt (g₁.number_lt _)]
      rw [hfoot₁.length, hlen _ (by omega)]
      omega
    · rw [Nat.shiftLeft_zero, ← hnum₂, Nat.mod_eq_of_lt (g₂.number_lt _)]
      rw [hfoot₂.length, hfoot₁.length, hlen _ (by omega)]
      omega
    · rintro b m ⟨rfl, -, hm⟩
      exact ⟨rfl, by omega, by omega⟩
    · rintro b m ⟨rfl, -, hm⟩
      exact ⟨rfl, by omega, by omega⟩

/-- **One iteration** from the exclusive disjunctions on. -/
lemma invertGfStep_holds {f a : ℕ} (h : st.Holds fresh n h₀ u v g k)
    (hc : Gf2.Cofactors f a u v g k) (hf : f.size ≤ 32 * n) {lz₁ lz₂ : ℕ} (hne : u ≠ 0)
    (hle : v.size ≤ u.size) (h₁ : lz₁ + u.size = 32 * st.op1Count)
    (h₂ : lz₂ + v.size = 32 * st.op2Count) (hlz₁ : lz₁ < 32) (hlz₂ : lz₂ < 32) :
    ∃ (st' : InvertState) (u' g' : ℕ), invertGfStep n lz₁ lz₂ st = some st' ∧
      st'.Holds fresh n h₀ u' v g' k ∧ Gf2.Cofactors f a u' v g' k ∧ u'.size < u.size := by
  have hrefs := h.refs
  have hle₁ := h.op1_le
  have hle₂ := h.op2_le
  have hvpos := Nat.size_pos.mpr (Nat.pos_of_ne_zero hc.ne)
  have hleft := hc.size_left
  have hright := hc.size_right
  obtain ⟨h', hrun, hop1, hop2, hg1, hg2, hlen, hkept⟩ := invertGfXor_run h hne hc.ne hle h₁ h₂
    hlz₁ hlz₂ (by omega) (by omega)
  have hlen' (b : ℕ) (hb : fresh ≤ b ∧ b < fresh + 4) : (h' b).length = n + n := by
    rw [hlen, h.length b hb.1 hb.2]
  obtain ⟨c₁, hn₁, hc₁, hnum₁, htop₁⟩ := normalize_eq h' (a := st.op1) (i := 0) (n := st.op1Count)
    (by rw [hlen' _ (by omega)]; omega)
  obtain ⟨c₂, hn₂, hc₂, hnum₂, htop₂⟩ := normalize_eq h' (a := st.op2) (i := 0) (n := st.op2Count)
    (by rw [hlen' _ (by omega)]; omega)
  rw [hop1] at hnum₁ htop₁
  rw [hop2] at hnum₂ htop₂
  refine ⟨{ st with op1Count := c₁, op2Count := c₂, heap := h' }, _, _, ?_, ?_, hc.reduce hne hle,
    Gf2.size_xor_shiftLeft_lt hne hc.ne hle⟩
  · simp only [invertGfStep, hrun, hn₁, hn₂, Option.bind_eq_bind, Option.bind_some]
    rfl
  · exact ⟨hrefs, fun b hb hb' => hlen' b ⟨hb, hb'⟩, hc₁.trans hle₁, hc₂.trans hle₂, hnum₁, hnum₂,
      htop₁, htop₂, hg1, hg2, hkept⟩

/-- **One iteration** keeps the invariant, and the remainders get shorter. -/
lemma invertGfLoop_body {f a : ℕ} (h : st.Holds fresh n h₀ u v g k)
    (hc : Gf2.Cofactors f a u v g k) (hf : f.size ≤ 32 * n) (hexit : st.op1Count ≠ 0) :
    ∃ (st' : InvertState) (u' v' g' k' : ℕ), (invertGfLoop n).body st = some st' ∧
      st'.Holds fresh n h₀ u' v' g' k' ∧ Gf2.Cofactors f a u' v' g' k' ∧
      u'.size + v'.size < u.size + v.size := by
  have hrefs := h.refs
  have hle₁ := h.op1_le
  have hle₂ := h.op2_le
  have hlen (b : ℕ) (hb : fresh ≤ b ∧ b < fresh + 4) : (st.heap b).length = n + n :=
    h.length b hb.1 hb.2
  have hne : u ≠ 0 := by
    have hpos : 0 < (2 ^ 32) ^ (st.op1Count - 1) := by positivity
    have := h.op1_top hexit
    omega
  obtain ⟨x, hx, hlz₁, hlt₁⟩ := highLimb_eq (h := st.heap) (a := st.op1) (n := st.op1Count)
    (by rw [hlen _ (by omega)]; omega) (by rwa [h.op1]) (by rw [h.op1]; exact h.op1_top)
  obtain ⟨y, hy, hlz₂, hlt₂⟩ := highLimb_eq (h := st.heap) (a := st.op2) (n := st.op2Count)
    (by rw [hlen _ (by omega)]; omega) (by rw [h.op2]; exact hc.ne) (by rw [h.op2]; exact h.op2_top)
  rw [h.op1] at hlz₁
  rw [h.op2] at hlz₂
  simp only [invertGfLoop, hx, hy, Option.bind_eq_bind, Option.bind_some]
  by_cases hlt : u.size < v.size
  · -- the second remainder is longer: they change places
    obtain ⟨st', u', g', hrun, hholds, hc', hdec⟩ := invertGfStep_holds h.swap
      (hc.swap hne hlt) hf hc.ne hlt.le hlz₂ hlz₁ hlt₂ hlt₁
    refine ⟨st', u', u, g', g, ?_, hholds, hc', by omega⟩
    rw [if_pos (by omega), hrun]
  · obtain ⟨st', u', g', hrun, hholds, hc', hdec⟩ := invertGfStep_holds h hc hf hne
      (not_lt.mp hlt) hlz₁ hlz₂ hlt₁ hlt₂
    refine ⟨st', u', v, g', k, ?_, hholds, hc', by omega⟩
    rw [if_neg (by omega), hrun]

/-- **The loop** ends with an inverse in the second cofactor. -/
lemma invertGfLoop_run {f a : ℕ} (h : st.Holds fresh n h₀ u v g k)
    (hc : Gf2.Cofactors f a u v g k) (hf : f.size ≤ 32 * n) (hf₁ : 1 < f.size) {fuel : ℕ}
    (hfuel : u.size + v.size ≤ fuel) :
    ∃ (st' : InvertState) (u' v' g' k' : ℕ), (invertGfLoop n).run fuel st = some st' ∧
      st'.Holds fresh n h₀ u' v' g' k' ∧ (Gf2.ofBits k').degree < (Gf2.ofBits f).degree ∧
      Gf2.ofBits k' * Gf2.ofBits a % Gf2.ofBits f = 1 := by
  obtain ⟨st', hrun, ⟨u', v', g', k', hholds, hc'⟩, hexit⟩ := (invertGfLoop n).run_of_variant
    (fun st => ∃ u v g k, st.Holds fresh n h₀ u v g k ∧ Gf2.Cofactors f a u v g k)
    (fun st => (st.heap.number st.op1 0 st.op1Count).size +
      (st.heap.number st.op2 0 st.op2Count).size)
    (by
      rintro st ⟨u, v, g, k, h, hc⟩ hexit
      obtain ⟨st', u', v', g', k', hbody, h', hc', hdec⟩ := invertGfLoop_body h hc hf
        (of_decide_eq_false hexit)
      refine ⟨st', hbody, ⟨u', v', g', k', h', hc'⟩, ?_⟩
      show _ + _ < _ + _
      rw [h.op1, h.op2, h'.op1, h'.op2]
      exact hdec)
    (n := fuel) (s := st) ⟨u, v, g, k, h, hc⟩ (by
      show _ + _ ≤ _
      rw [h.op1, h.op2]
      exact hfuel)
  have hzero : st'.op1Count = 0 := of_decide_eq_true hexit
  have hu' : u' = 0 := by rw [← hholds.op1, hzero, LimbHeap.number_zero]
  obtain ⟨hdeg, hinv⟩ := (hu' ▸ hc').inverse hf₁
  exact ⟨st', u', v', g', k', hrun, hholds, hdeg, hinv⟩

/-! ## The routine -/

/-- A new array of zeros. -/
lemma number_filled (h : LimbHeap) {r i m l : ℕ} (hm : i + m ≤ l) :
    LimbHeap.number (Function.update h r (List.replicate l 0)) r i m = 0 := by
  have hslice : Special.slice (List.replicate l (0 : Natural32)) i m = List.replicate m 0 := by
    rw [Special.slice, List.drop_replicate, List.take_replicate, Nat.min_eq_left (by omega)]
  rw [LimbHeap.number, Arrays.segment, Function.update_self, hslice, value_replicate_zero]

/-- The heap before the loop: copies of the operands, and the cofactors one and zero. -/
lemma start_holds {op1A op1Offset op1CountA op2A op2Offset op2CountA : ℕ} {h : LimbHeap}
    (h₁ : op1A < fresh) (h₂ : op2A < fresh) (hle : op1CountA ≤ op2CountA) (hpos : 0 < op2CountA)
    (hl₁ : op1Offset + op1CountA ≤ (h op1A).length)
    (hl₂ : op2Offset + op2CountA ≤ (h op2A).length)
    (htop₁ : op1CountA ≠ 0 → (2 ^ 32) ^ (op1CountA - 1) ≤ h.number op1A op1Offset op1CountA)
    (htop₂ : op2CountA ≠ 0 → (2 ^ 32) ^ (op2CountA - 1) ≤ h.number op2A op2Offset op2CountA) :
    let filled := List.replicate (op2CountA + op2CountA) (0 : Natural32)
    ∃ g₁ g₂ g₃ : LimbHeap,
      Arrays.copyData (Function.update (Function.update h fresh filled) (fresh + 1) filled) fresh
        op1A op1Offset 0 (min op1CountA op2CountA) = some g₁ ∧
      g₁.copyData (fresh + 1) op2A op2Offset 0 (min op2CountA op2CountA) = some g₂ ∧
      Arrays.put (Function.update (Function.update g₂ (fresh + 2) filled) (fresh + 3) filled)
        (fresh + 2) 0 1 = some g₃ ∧
      InvertState.Holds fresh op2CountA h (h.number op1A op1Offset op1CountA)
        (h.number op2A op2Offset op2CountA) 1 0
        ⟨fresh, op1CountA, fresh + 1, op2CountA, fresh + 2, fresh + 3, g₃⟩ := by
  intro filled
  have hfilled : filled.length = op2CountA + op2CountA := List.length_replicate
  set e : LimbHeap := Function.update (Function.update h fresh filled) (fresh + 1) filled with he
  have he_old (b : ℕ) (hb : b < fresh) : e b = h b := by
    rw [he, Function.update_of_ne (by omega), Function.update_of_ne (by omega)]
  have he₀ : e fresh = filled := by
    rw [he, Function.update_of_ne (by omega), Function.update_self]
  have he₁ : e (fresh + 1) = filled := by rw [he, Function.update_self]
  obtain ⟨g₁, hcopy₁, hnum₁, hfoot₁⟩ := LimbHeap.run_copyData (h := e) (t := fresh) (a := op1A)
    (i := op1Offset) (j := 0) (n := op1CountA) (by rw [he_old _ h₁]; exact hl₁)
    (by rw [he₀, hfilled]; omega)
  obtain ⟨g₂, hcopy₂, hnum₂, hfoot₂⟩ := LimbHeap.run_copyData (h := g₁) (t := fresh + 1) (a := op2A)
    (i := op2Offset) (j := 0) (n := op2CountA)
    (by rw [hfoot₁.length, he_old _ h₂]; exact hl₂)
    (by rw [hfoot₁.length, he₁, hfilled]; omega)
  set d : LimbHeap := Function.update (Function.update g₂ (fresh + 2) filled) (fresh + 3) filled
    with hd
  have hd_old (b : ℕ) (hb : b < fresh + 2) : d b = g₂ b := by
    rw [hd, Function.update_of_ne (by omega), Function.update_of_ne (by omega)]
  have hd₂ : d (fresh + 2) = filled := by
    rw [hd, Function.update_of_ne (by omega), Function.update_self]
  have hd₃ : d (fresh + 3) = filled := by rw [hd, Function.update_self]
  obtain ⟨g₃, hput, hone, hfoot₃⟩ := LimbHeap.run_put (h := d) (a := fresh + 2) (i := 0)
    (by rw [hd₂, hfilled]; omega) 1
  refine ⟨g₁, g₂, g₃, by rw [Nat.min_eq_left hle, hcopy₁], by rw [Nat.min_self, hcopy₂], hput, ?_⟩
  have hnumber (b i m : ℕ) (hb : b < fresh + 2) : g₃.number b i m = g₂.number b i m := by
    rw [LimbHeap.number_apart hfoot₃ fun hb' => by omega, LimbHeap.number, LimbHeap.number,
      Arrays.segment, Arrays.segment, hd_old b hb]
  have hlength (b : ℕ) (hb : b < fresh + 2) : (g₃ b).length = (e b).length := by
    rw [hfoot₃.length, hd_old b hb, hfoot₂.length, hfoot₁.length]
  constructor
  · exact Or.inl ⟨rfl, rfl, rfl, rfl⟩
  · intro b hb hb'
    show (g₃ b).length = _
    obtain rfl | rfl | rfl | rfl : b = fresh ∨ b = fresh + 1 ∨ b = fresh + 2 ∨ b = fresh + 3 := by
      omega
    · rw [hlength _ (by omega), he₀, hfilled]
    · rw [hlength _ (by omega), he₁, hfilled]
    · rw [hfoot₃.length, hd₂, hfilled]
    · rw [hfoot₃.length, hd₃, hfilled]
  · exact hle
  · exact le_rfl
  · show g₃.number fresh 0 op1CountA = _
    rw [hnumber _ _ _ (by omega), LimbHeap.number_apart hfoot₂ fun hb => by omega, hnum₁,
      LimbHeap.number, LimbHeap.number, Arrays.segment, Arrays.segment, he_old _ h₁]
  · show g₃.number (fresh + 1) 0 op2CountA = _
    rw [hnumber _ _ _ (by omega), hnum₂, LimbHeap.number_apart hfoot₁ fun hb => by omega,
      LimbHeap.number, LimbHeap.number, Arrays.segment, Arrays.segment, he_old _ h₂]
  · exact htop₁
  · exact htop₂
  · obtain ⟨m, hm⟩ : ∃ m, op2CountA = 1 + m := ⟨op2CountA - 1, by omega⟩
    have hrest : g₃.number (fresh + 2) 1 m = 0 := by
      rw [LimbHeap.number_apart hfoot₃ (Apart.of_le le_rfl), LimbHeap.number, Arrays.segment, hd₂]
      have hzero := number_filled h (r := fresh) (i := 1) (m := m) (l := op2CountA + op2CountA)
        (by omega)
      rwa [LimbHeap.number, Arrays.segment, Function.update_self] at hzero
    show g₃.number (fresh + 2) 0 op2CountA = 1
    rw [hm, g₃.number_add (by rw [hfoot₃.length, hd₂, hfilled]; omega), hone, hrest]
    rfl
  · show g₃.number (fresh + 3) 0 op2CountA = 0
    rw [LimbHeap.number_apart hfoot₃ fun hb => by omega, hd, number_filled _ (by omega)]
  · have hkept (b : ℕ) (hb : b < fresh) : (g₃ b).length = (h b).length := by
      rw [hlength b (by omega), he_old b hb]
    refine ⟨hkept, fun b hb k _ => ?_⟩
    show Arrays.item g₃ b k = _
    rw [hfoot₃.item b k (by simp only [region]; omega), Arrays.item, hd_old b (by omega),
      ← Arrays.item, hfoot₂.item b k (by simp only [region]; omega),
      hfoot₁.item b k (by simp only [region]; omega), Arrays.item, he_old b hb, Arrays.item]

/-- **`invert_gf`** returns, and leaves in the target the polynomial of smaller degree than `op2`
whose product with `op1` is one modulo `op2`. The other arrays are as they were.

**Proof sketch.** A remainder of the Euclidean algorithm is congruent to the product of its cofactor
with `op1`. The length of a cofactor and that of the other remainder add up to no more than one more
than the length of `op2`, so that the cofactors stay in their limbs; the last remainder is one. -/
theorem invertGf_isInverse (fuel fresh target targetOffset op1 op1Offset op1Count op2 op2Offset
    op2Count : ℕ) (h : LimbHeap) (hfuel : 64 * op2Count ≤ fuel) (ht : target < fresh)
    (h₁ : op1 < fresh) (h₂ : op2 < fresh) (htl : targetOffset + op2Count ≤ (h target).length)
    (hl₁ : op1Offset + op1Count ≤ (h op1).length) (hl₂ : op2Offset + op2Count ≤ (h op2).length)
    (hn₁ : normalize op1 op1Offset op1Count h = some op1Count)
    (hn₂ : normalize op2 op2Offset op2Count h = some op2Count)
    (hne : Gf2.ofBits (h.number op1 op1Offset op1Count) ≠ 0)
    (hdeg : (Gf2.ofBits (h.number op1 op1Offset op1Count)).degree <
      (Gf2.ofBits (h.number op2 op2Offset op2Count)).degree)
    (hcop : IsCoprime (Gf2.ofBits (h.number op1 op1Offset op1Count))
      (Gf2.ofBits (h.number op2 op2Offset op2Count))) :
    ∃ h' : LimbHeap,
      invertGf fuel fresh target targetOffset op1 op1Offset op1Count op2 op2Offset op2Count h =
        some h' ∧
      (Gf2.ofBits (h'.number target targetOffset op2Count)).degree <
        (Gf2.ofBits (h.number op2 op2Offset op2Count)).degree ∧
      Gf2.ofBits (h'.number target targetOffset op2Count) *
        Gf2.ofBits (h.number op1 op1Offset op1Count) %
          Gf2.ofBits (h.number op2 op2Offset op2Count) = 1 ∧
      KeptBelow fresh (region target targetOffset op2Count) h h' := by
  obtain ⟨c₁, hc₁, -, -, htop₁⟩ := normalize_eq h hl₁
  obtain ⟨c₂, hc₂, -, -, htop₂⟩ := normalize_eq h hl₂
  obtain rfl : c₁ = op1Count := Option.some.inj (hc₁.symm.trans hn₁)
  obtain rfl : c₂ = op2Count := Option.some.inj (hc₂.symm.trans hn₂)
  set a := h.number op1 op1Offset c₁ with ha
  set f := h.number op2 op2Offset c₂ with hf
  have hltf : f < (2 ^ 32) ^ c₂ := h.number_lt hl₂
  have hlta : a < (2 ^ 32) ^ c₁ := h.number_lt hl₁
  have ha₀ : a ≠ 0 := mt Gf2.ofBits_eq_zero_iff.mpr hne
  have hf₀ : f ≠ 0 := by
    rintro h0
    rw [h0, Gf2.ofBits_zero, Polynomial.degree_zero] at hdeg
    exact not_lt_bot hdeg
  rw [Gf2.degree_ofBits_lt_degree_iff ha₀ hf₀] at hdeg
  rw [← Nat.pow_mul, ← Nat.size_le] at hltf
  have hapos := Nat.size_pos.mpr (Nat.pos_of_ne_zero ha₀)
  have hle : c₁ ≤ c₂ := by
    by_contra hlt
    have hpow := htop₁ (by omega)
    rw [← Nat.pow_mul, ← Nat.lt_size] at hpow
    omega
  obtain ⟨g₁, g₂, g₃, hcopy₁, hcopy₂, hput, hholds⟩ := start_holds h₁ h₂ hle (by omega) hl₁ hl₂
    htop₁ htop₂
  obtain ⟨st', u', v', g', k', hrun, hholds', hdeg', hinv⟩ := invertGfLoop_run (u := a) (v := f)
    hholds (Gf2.Cofactors.start hdeg hcop) hltf (by omega) (by omega : _ ≤ fuel)
  have hrefs := hholds'.refs
  obtain ⟨h', hcopy, hnum, hfoot⟩ := LimbHeap.run_copyData (h := st'.heap) (t := target)
    (a := st'.g2) (i := 0) (j := targetOffset) (n := c₂)
    (by rw [hholds'.length _ (by omega) (by omega)]; omega)
    (by rw [hholds'.kept.length target ht]; exact htl)
  refine ⟨h', ?_, ?_, ?_, ?_⟩
  · simp only [invertGf, Option.bind_eq_bind]
    rw [hcopy₁, Option.bind_some, hcopy₂, Option.bind_some, hput, Option.bind_some, hrun,
      Option.bind_some, hcopy]
  · rw [hnum, hholds'.g2]
    exact hdeg'
  · rw [hnum, hholds'.g2]
    exact hinv
  · exact (hholds'.kept.mono fun _ _ _ => False.elim).trans (hfoot.keptBelow fresh)

/-- The variable modulo a polynomial of degree two. -/
theorem invertGf_isInverse_seven :
    ∃ h' : LimbHeap,
      invertGf 64 3 2 0 0 0 1 1 0 1 (fun a => [[2], [7], [0]].getD a []) = some h' ∧
      (Gf2.ofBits (h'.number 2 0 1)).degree < (Gf2.ofBits 7).degree ∧
      Gf2.ofBits (h'.number 2 0 1) * Gf2.ofBits 2 % Gf2.ofBits 7 = 1 ∧
      KeptBelow 3 (region 2 0 1) (fun a => [[2], [7], [0]].getD a []) h' := by
  set h : LimbHeap := fun a => [[2], [7], [0]].getD a [] with hh
  have ha : h.number 0 0 1 = 2 := by decide
  have hf : h.number 1 0 1 = 7 := by decide
  have hcop : IsCoprime (Gf2.ofBits 2) (Gf2.ofBits 7) := by
    have hX : Gf2.ofBits 2 = Polynomial.X ^ 1 := Gf2.ofBits_two_pow 1
    refine ⟨Gf2.ofBits 3, 1, ?_⟩
    rw [hX, mul_comm, ← Gf2.ofBits_shiftLeft, one_mul, ← Gf2.ofBits_xor,
      show 3 <<< 1 ^^^ 7 = 1 by decide, Gf2.ofBits_one]
  have hinv := invertGf_isInverse 64 3 2 0 0 0 1 1 0 1 h (by decide) (by decide) (by decide)
    (by decide) (by decide) (by decide) (by decide) (by decide) (by decide)
    (by rw [ha]; exact mt Gf2.ofBits_eq_zero_iff.mp (by decide))
    (by
      rw [ha, hf]
      exact (Gf2.degree_ofBits_lt_degree_iff (by decide) (by decide)).mpr (by decide))
    (by rw [ha, hf]; exact hcop)
  rw [ha, hf] at hinv
  exact hinv

end SpecialNumberTheoretic

end EiffelWeb
