import EiffelWeb.Crypto.Limb.SpecialSquare

set_option relaxedAutoImplicit false
set_option autoImplicit false

/-!
# Products of operands of different length

The routines `add_1` and `mul` of `SPECIAL_ARITHMETIC`. Operands of the same length go to `mul_n`. A
second operand of less than 32 limbs is multiplied by the schoolbook method, in blocks of 500 limbs
of the first operand if this one is longer. Otherwise the first operand is cut in slices of the
length of the second one, and the products of the slices are added up.

The last way does not work. Where the number of limbs of a sum is the local `l` in the other calls,
the calls for a slice of 32 limbs or more have the number one. The carry that is returned is not
taken from the highest limb of the product, but from a limb that depends on the last slice.

## Main definitions

* `SpecialArithmetic.add1`
* `SpecialArithmetic.mulBlocks` — the schoolbook product in blocks.
* `SpecialArithmetic.mulSlices` — the product in slices.
* `SpecialArithmetic.mul`

## Main results

* `SpecialArithmetic.mulN_run`
* `SpecialArithmetic.mulBlocks_run`
* `SpecialArithmetic.mul_run` — the product, if no slices are made.
* `SpecialArithmetic.mulSlices_run` — the product for one slice and a rest of less than 32 limbs,
  and the limb that is returned.
-/

namespace EiffelWeb

open Limbs Arrays

namespace SpecialArithmetic

/-! ## The sum with a limb -/

/-- `target.copy_data (op1, i, j, n)`; a negative number of items is refused. -/
def copyLimbs (target op1 i j : ℕ) (n : ℤ) (h : LimbHeap) : Option LimbHeap :=
  if 0 ≤ n then h.copyData target op1 i j n.toNat else none

/-- The loop of `add_1`, at most `k` times: the local `i`, the local `r` and the heap. -/
def add1Loop (target targetOffset op1 op1Offset : ℕ) :
    (k i : ℕ) → Natural32 → LimbHeap → Option (ℕ × Natural32 × LimbHeap)
  | 0, i, r, h => some (i, r, h)
  | k + 1, i, _, h => do
    let x ← h.item op1 (op1Offset + i)
    let h ← h.put target (targetOffset + i) (x + 1)
    if x + 1 ≠ 0 then return (i + 1, x + 1, h)
    else add1Loop target targetOffset op1 op1Offset k (i + 1) (x + 1) h

/-- `add_1 (target, target_offset, op1, op1_offset, size, op2, carry)`. -/
def add1 (target targetOffset op1 op1Offset : ℕ) (size : ℤ) (op2 : Natural32) (h : LimbHeap) :
    Option (Natural32 × LimbHeap) := do
  let x ← h.item op1 op1Offset
  let h ← h.put target targetOffset (x + op2)
  if x + op2 < op2 then
    let (i, r, h) ← add1Loop target targetOffset op1 op1Offset (size - 1).toNat 1 0 h
    let h ← copyLimbs target op1 (op1Offset + i) (targetOffset + i) (size - i) h
    return (toLimb (i = size ∧ r = 0), h)
  else if target ≠ op1 then
    let h ← copyLimbs target op1 (op1Offset + 1) (targetOffset + 1) (size - 1) h
    return (0, h)
  else return (0, h)

/-! ## The product in blocks -/

/-- The product of a block of `n` limbs, to which the limbs in `tp` are added. The operand with more
limbs comes first. -/
def mulBlock (tp target targetOffset op1 op1Offset n op2 op2Offset op2Count : ℕ) (h : LimbHeap) :
    Option LimbHeap := do
  let h ← (if op2Count < n then mulBasecase target targetOffset op1 op1Offset n op2 op2Offset
      op2Count h
    else mulBasecase target targetOffset op2 op2Offset op2Count op1 op1Offset n h)
  let (cy, h) ← addN target targetOffset target targetOffset tp 0 op2Count h
  incrU target (targetOffset + op2Count) cy h

/-- The loop over blocks of 500 limbs, `k` times, and the last block of `rest` limbs. The offset of
the last block in the target is returned. -/
def blockLoop (tp target op1 op2 op2Offset op2Count rest : ℕ) :
    (k targetOffset op1Offset : ℕ) → LimbHeap → Option (ℕ × LimbHeap)
  | 0, targetOffset, op1Offset, h =>
    (mulBlock tp target targetOffset op1 op1Offset rest op2 op2Offset op2Count h).map fun h =>
      (targetOffset, h)
  | k + 1, targetOffset, op1Offset, h => do
    let h ← mulBlock tp target targetOffset op1 op1Offset 500 op2 op2Offset op2Count h
    let h ← h.copyData tp target (targetOffset + 500) 0 op2Count
    blockLoop tp target op1 op2 op2Offset op2Count rest k (targetOffset + 500) (op1Offset + 500) h

/-- `mul` for `op2_count` below 32 and `op1_count` above 500. The array `tp` that the routine
creates gets the reference `fresh`. With `op1_count` limbs left, the loop is entered for more than
500 limbs, and so `(op1_count - 1) // 500` times. -/
def mulBlocks (fresh target targetOffset op1 op1Offset op1Count op2 op2Offset op2Count : ℕ)
    (h : LimbHeap) : Option (Natural32 × LimbHeap) := do
  let h : LimbHeap := Function.update h fresh (List.replicate 32 0)
  let h ← mulBasecase target targetOffset op1 op1Offset 500 op2 op2Offset op2Count h
  let h ← h.copyData fresh target (targetOffset + 500) 0 op2Count
  let op1Count := op1Count - 500
  let k := (op1Count - 1) / 500
  let rest := op1Count - 500 * k
  let (targetOffset, h) ← blockLoop fresh target op1 op2 op2Offset op2Count rest k
    (targetOffset + 500) (op1Offset + 500) h
  let carry ← h.item target (targetOffset + rest + op2Count - 1)
  return (carry, h)

/-! ## The product in slices -/

/-- The locals of `mul` that the loop over the slices changes. -/
structure Slices where
  /-- `op1`, `op1_offset` and `op1_count`. -/
  op1 : ℕ × ℕ × ℕ
  /-- `op2`, `op2_offset` and `op2_count`. -/
  op2 : ℕ × ℕ × ℕ
  /-- `target_offset`. -/
  targetOffset : ℕ
  /-- `l`. -/
  l : ℕ
  /-- `t`. -/
  t : Natural32

/-- The operand with more limbs comes first. -/
def Slices.arrange (s : Slices) : Slices :=
  if s.op1.2.2 < s.op2.2.2 then { s with op1 := s.op2, op2 := s.op1 } else s

/-- After a slice of `op2_count` limbs. -/
def Slices.advance (s : Slices) : Slices :=
  Slices.arrange { s with
    op1 := (s.op1.1, s.op1.2.1 + s.op2.2.2, s.op1.2.2 - s.op2.2.2)
    targetOffset := s.targetOffset + s.op2.2.2
    l := s.l - s.op2.2.2 }

/-- The sums for a slice of 32 limbs or more. -/
def addSlice (ws target : ℕ) (s : Slices) (h : LimbHeap) : Option (Slices × LimbHeap) :=
  let op2Count := s.op2.2.2
  if s.l ≤ 2 * op2Count then do
    let (carry, h) ← addN target s.targetOffset target s.targetOffset ws 0 1 h
    let t := s.t + carry
    if s.l ≠ 2 * op2Count then
      let (t, h) ← add1 target (s.targetOffset + 1) ws 1 (2 * op2Count - 1) t h
      return ({ s with t := t, l := 2 * op2Count }, h)
    else return ({ s with t := t }, h)
  else do
    let (c, h) ← addN target s.targetOffset target s.targetOffset ws 0 (2 * op2Count) h
    let (carry, h) ← add1 target (s.targetOffset + 2 * op2Count) target
      (s.targetOffset + 2 * op2Count) (1 - 2 * op2Count) c h
    return ({ s with t := s.t + carry }, h)

/-- The loop over the slices of 32 limbs or more. The first argument bounds the iterations, for
which the number of limbs of the two operands is enough. -/
def sliceLoop (fresh ws target : ℕ) : ℕ → Slices → LimbHeap → Option (Slices × LimbHeap)
  | 0, s, h => if s.op2.2.2 < 32 then some (s, h) else none
  | n + 1, s, h =>
    if s.op2.2.2 < 32 then some (s, h)
    else do
      let h ← mulN fresh ws 0 s.op1.1 s.op1.2.1 s.op2.1 s.op2.2.1 s.op2.2.2 h
      let (s, h) ← addSlice ws target s h
      sliceLoop fresh ws target n s.advance h

/-- The last slice, of less than 32 limbs. -/
def lastSlice (ws target : ℕ) (s : Slices) (h : LimbHeap) : Option LimbHeap :=
  let (op1, op1Offset, op1Count) := s.op1
  let (op2, op2Offset, op2Count) := s.op2
  if op2Count ≠ 0 then do
    let h ← mulBasecase ws 0 op1 op1Offset op1Count op2 op2Offset op2Count h
    if s.l ≤ op1Count + op2Count then
      let (carry, h) ← addN target s.targetOffset target s.targetOffset ws 0 s.l h
      let t := s.t + carry
      if s.l ≠ op1Count + op2Count then
        let (_, h) ← add1 target (s.targetOffset + s.l) ws s.l (op1Count + op2Count - s.l) t h
        return h
      else
        let (c, h) ← addN target s.targetOffset target s.targetOffset ws 0 (op1Count + op2Count) h
        let (_, h) ← add1 target (s.targetOffset + op1Count + op2Count) target
          (s.targetOffset + op1Count + op2Count) (s.l - op1Count - op2Count) c h
        return h
    else return h
  else some h

/-- `mul` for `op2_count` from 32 on and another `op1_count`. The array `ws` that the routine
creates gets the reference `fresh`, the one of `mul_n` the reference `fresh + 1`. -/
def mulSlices (fresh target targetOffset op1 op1Offset op1Count op2 op2Offset op2Count : ℕ)
    (h : LimbHeap) : Option (Natural32 × LimbHeap) := do
  let h ← mulN (fresh + 1) target targetOffset op1 op1Offset op2 op2Offset op2Count h
  let s : Slices := Slices.arrange
    { op1 := (op1, op1Offset + op2Count, op1Count - op2Count)
      op2 := (op2, op2Offset, op2Count)
      targetOffset := targetOffset + op2Count
      l := op2Count
      t := 0 }
  let size := if 32 ≤ s.op2.2.2 then s.op2.2.2 + s.op2.2.2 else s.op1.2.2 + s.op2.2.2
  let h : LimbHeap := Function.update h fresh (List.replicate size 0)
  let (s, h) ← sliceLoop (fresh + 1) fresh target (op1Count + op2Count) s h
  let h ← lastSlice fresh target s h
  let carry ← h.item target (s.op1.2.2 + s.op2.2.2 - 1)
  return (carry, h)

/-! ## The product -/

/-- `mul (target, target_offset, op1, op1_offset, op1_count, op2, op2_offset, op2_count, carry)`.
The arrays that the routine and `mul_n` or `sqr_n` create get the references `fresh` and
`fresh + 1`. -/
def mul (fresh target targetOffset op1 op1Offset op1Count op2 op2Offset op2Count : ℕ)
    (h : LimbHeap) : Option (Natural32 × LimbHeap) :=
  if op1Count = op2Count then do
    let h ← (if op1 = op2 ∧ op1Offset = op2Offset then
        sqrN fresh target targetOffset op1 op1Offset op1Count h
      else mulN fresh target targetOffset op1 op1Offset op2 op2Offset op1Count h)
    let carry ← h.item target (targetOffset + 2 * op1Count - 1)
    return (carry, h)
  else if op2Count < 32 then
    if op1Count ≤ 500 then do
      let h ← mulBasecase target targetOffset op1 op1Offset op1Count op2 op2Offset op2Count h
      let carry ← h.item target (targetOffset + op1Count + op2Count - 1)
      return (carry, h)
    else mulBlocks fresh target targetOffset op1 op1Offset op1Count op2 op2Offset op2Count h
  else mulSlices fresh target targetOffset op1 op1Offset op1Count op2 op2Offset op2Count h

/-! ## Operands of the same length -/

section SameLength

variable {fresh target targetOffset op1 op1Offset op2 op2Offset n : ℕ} {h : LimbHeap}

/-- A number in an array that was there before another one was created. -/
lemma number_update {a : ℕ} (ha : a ≠ fresh) (u : List Natural32) (i k : ℕ) :
    LimbHeap.number (Function.update h fresh u) a i k = h.number a i k := by
  rw [LimbHeap.number, Arrays.segment, Function.update_of_ne ha, LimbHeap.number, Arrays.segment]

/-- **`mul_n`**: the product. -/
lemma mulN_run (hn : 1 ≤ n) (hmax : n ≤ 2 ^ 32) {free : ℕ} (hfree : free ≤ fresh)
    (hft : target < free) (hf₁ : op1 < free) (hf₂ : op2 < free)
    (ht : targetOffset + 2 * n ≤ (h target).length) (h₁ : op1Offset + n ≤ (h op1).length)
    (h₂ : op2Offset + n ≤ (h op2).length) (ha₁ : Apart target targetOffset (2 * n) op1 op1Offset n)
    (ha₂ : Apart target targetOffset (2 * n) op2 op2Offset n) :
    ∃ h' : LimbHeap,
      mulN fresh target targetOffset op1 op1Offset op2 op2Offset n h = some h' ∧
      h'.number target targetOffset (2 * n) =
        h.number op1 op1Offset n * h.number op2 op2Offset n ∧
      KeptBelow free (region target targetOffset (2 * n)) h h' := by
  by_cases hsmall : n < 32
  · rw [Nat.two_mul] at ht ha₁ ha₂ ⊢
    obtain ⟨h', hrun, hval, hfoot⟩ := mulBasecase_run hn ht h₁ h₂ ha₁ ha₂
    exact ⟨h', by rw [mulN, if_pos hsmall]; exact hrun, hval, hfoot.keptBelow free⟩
  · set g : LimbHeap := Function.update h fresh (List.replicate (2 * n + 2 * 32) 0) with hg
    have hlen {a : ℕ} (ha : a < free) : (g a).length = (h a).length := by
      rw [hg, Function.update_of_ne (by omega)]
    have hspace : workspace n ≤ (g fresh).length := by
      have hlog : Nat.clog 2 n ≤ 32 := Nat.clog_le_of_le_pow hmax
      rw [hg, Function.update_self, List.length_replicate, workspace]
      omega
    have hne {a i k j l : ℕ} (ha : a < free) : Apart fresh i k a j l := fun he => by omega
    obtain ⟨h', hrun, hval, hfoot⟩ := karaMulN_run n (by omega) le_rfl target targetOffset op1
      op1Offset op2 op2Offset fresh 0 g {
        target_le := by rw [hlen hft]; exact ht
        a_le := by rw [hlen hf₁]; exact h₁
        b_le := by rw [hlen hf₂]; exact h₂
        ws_le := by rw [Nat.zero_add]; exact hspace
        target_a := ha₁
        target_b := ha₂
        target_ws := (hne hft).symm
        ws_a := hne hf₁
        ws_b := hne hf₂ }
    refine ⟨h', ?_, ?_, ?_⟩
    · rw [mulN, if_neg hsmall]
      exact hrun
    · rw [hval, hg, number_update (by omega), number_update (by omega)]
    · refine (keptBelow_update hfree _ h _).trans ((hfoot.keptBelow free).mono ?_)
      simp only [written, region]
      omega

end SameLength

/-! ## Blocks -/

section Blocks

variable {tp target targetOffset op1 op1Offset n op2 op2Offset op2Count : ℕ} {h : LimbHeap}

/-- A limb array is added to the low end of a number that has room for the sum. -/
lemma addLow_run (ht : targetOffset + (op2Count + (n + 1)) ≤ (h target).length)
    (htp : op2Count ≤ (h tp).length)
    (hap : Apart target targetOffset (op2Count + (n + 1)) tp 0 op2Count)
    (hlt : h.number target targetOffset (op2Count + (n + 1)) + h.number tp 0 op2Count <
      (2 ^ 32) ^ (op2Count + (n + 1))) :
    ∃ (c : Natural32) (g h' : LimbHeap),
      addN target targetOffset target targetOffset tp 0 op2Count h = some (c, g) ∧
      incrU target (targetOffset + op2Count) c g = some h' ∧
      h'.number target targetOffset (op2Count + (n + 1)) =
        h.number target targetOffset (op2Count + (n + 1)) + h.number tp 0 op2Count ∧
      SameOutside (region target targetOffset (op2Count + (n + 1))) h h' := by
  have hzero : (2 ^ 32) ^ 0 * (h.number tp 0 op2Count + (2 ^ 32) ^ op2Count * 0) =
      h.number tp 0 op2Count := by
    rw [pow_zero, Nat.one_mul, Nat.mul_zero, Nat.add_zero]
  have hsize : 0 + (op2Count + (n + 1)) = op2Count + (n + 1) := Nat.zero_add _
  rw [← hsize] at ht hap hlt
  obtain ⟨c, g, hadd, -, hfit, hlen, hafter⟩ := addInto_run (w := 0) ht
    (show 0 + op2Count ≤ (h tp).length by omega) hap (by rwa [hzero])
  rw [hzero, hsize, Nat.zero_add, Nat.add_zero] at hafter
  rw [Nat.zero_add, Nat.add_zero] at hfit
  rw [Nat.add_zero] at hadd
  obtain ⟨h', hincr, hval, hfoot⟩ := incrU_run
    (show targetOffset + op2Count + (n + 1) ≤ (g target).length by rw [hlen]; omega) c hfit
  obtain ⟨hval', hfoot'⟩ := hafter h' hfoot hval
  exact ⟨c, g, h', hadd, hincr, hval', hfoot'⟩

/-- **The product of a block.** -/
lemma mulBlock_run (hn : 1 ≤ n) (hcount : 1 ≤ op2Count)
    (ht : targetOffset + (n + op2Count) ≤ (h target).length)
    (h₁ : op1Offset + n ≤ (h op1).length) (h₂ : op2Offset + op2Count ≤ (h op2).length)
    (htp : op2Count ≤ (h tp).length)
    (ha₁ : Apart target targetOffset (n + op2Count) op1 op1Offset n)
    (ha₂ : Apart target targetOffset (n + op2Count) op2 op2Offset op2Count)
    (hap : Apart target targetOffset (n + op2Count) tp 0 op2Count) :
    ∃ h' : LimbHeap,
      mulBlock tp target targetOffset op1 op1Offset n op2 op2Offset op2Count h = some h' ∧
      h'.number target targetOffset (n + op2Count) =
        h.number op1 op1Offset n * h.number op2 op2Offset op2Count + h.number tp 0 op2Count ∧
      SameOutside (region target targetOffset (n + op2Count)) h h' := by
  obtain ⟨g, hmul, hprod, hfoot⟩ : ∃ g : LimbHeap,
      (if op2Count < n then mulBasecase target targetOffset op1 op1Offset n op2 op2Offset op2Count h
        else mulBasecase target targetOffset op2 op2Offset op2Count op1 op1Offset n h) = some g ∧
      g.number target targetOffset (n + op2Count) =
        h.number op1 op1Offset n * h.number op2 op2Offset op2Count ∧
      SameOutside (region target targetOffset (n + op2Count)) h g := by
    by_cases hlt : op2Count < n
    · rw [if_pos hlt]
      exact mulBasecase_run hcount ht h₁ h₂ ha₁ ha₂
    · rw [if_neg hlt, Nat.add_comm n, Nat.mul_comm]
      rw [Nat.add_comm n] at ht ha₁ ha₂
      exact mulBasecase_run hn ht h₂ h₁ ha₂ ha₁
  have htpg : g.number tp 0 op2Count = h.number tp 0 op2Count := LimbHeap.number_apart hfoot hap
  have hlt : g.number target targetOffset (n + op2Count) + g.number tp 0 op2Count <
      (2 ^ 32) ^ (n + op2Count) := by
    have hX := h.number_lt h₁
    have hY := h.number_lt h₂
    have hT := h.number_lt (show 0 + op2Count ≤ (h tp).length by omega)
    rw [hprod, htpg, pow_add]
    calc h.number op1 op1Offset n * h.number op2 op2Offset op2Count + h.number tp 0 op2Count
        < h.number op1 op1Offset n * (2 ^ 32) ^ op2Count + (2 ^ 32) ^ op2Count :=
          Nat.add_lt_add_of_le_of_lt (Nat.mul_le_mul_left _ hY.le) hT
      _ = (h.number op1 op1Offset n + 1) * (2 ^ 32) ^ op2Count := by ring
      _ ≤ (2 ^ 32) ^ n * (2 ^ 32) ^ op2Count := Nat.mul_le_mul_right _ hX
  obtain ⟨k, rfl⟩ : ∃ k, n = k + 1 := ⟨n - 1, by omega⟩
  rw [Nat.add_comm (k + 1) op2Count] at ht hap hlt hprod hfoot ⊢
  obtain ⟨c, g', h', hadd, hincr, hval, hfoot'⟩ := addLow_run (by rw [hfoot.length]; exact ht)
    (by rw [hfoot.length]; exact htp) hap hlt
  refine ⟨h', ?_, ?_, hfoot.trans hfoot'⟩
  · simp only [mulBlock, hmul, hadd, Option.bind_eq_bind, Option.bind_some]
    exact hincr
  · rw [hval, hprod, htpg]

/-- What the blocks may change: the product and the array `tp`. -/
def blocksWritten (tp target targetOffset n : ℕ) : ℕ → ℕ → Prop := fun c k =>
  region target targetOffset n c k ∨ c = tp

/-- A number apart from what the blocks may change. -/
lemma number_blocksWritten {h' : LimbHeap} {m a i k : ℕ}
    (hs : SameOutside (blocksWritten tp target targetOffset m) h h') (ha : a ≠ tp)
    (hd : Apart target targetOffset m a i k) : h'.number a i k = h.number a i k := by
  refine LimbHeap.number_eq hs fun j hj hj' hw => ?_
  rcases hw with ⟨rfl, hw⟩ | rfl
  · have := hd rfl
    omega
  · exact ha rfl

/-- One block more: `n` limbs behind the first `i` ones. -/
lemma block_step {i : ℕ} (hn : 1 ≤ n) (hcount : 1 ≤ op2Count)
    (ht : targetOffset + (i + n + op2Count) ≤ (h target).length)
    (h₁ : op1Offset + (i + n) ≤ (h op1).length) (h₂ : op2Offset + op2Count ≤ (h op2).length)
    (htp : op2Count ≤ (h tp).length) (hpt : target ≠ tp)
    (ha₁ : Apart target targetOffset (i + n + op2Count) op1 op1Offset (i + n))
    (ha₂ : Apart target targetOffset (i + n + op2Count) op2 op2Offset op2Count)
    (hval : h.number target targetOffset i + (2 ^ 32) ^ i * h.number tp 0 op2Count =
      h.number op1 op1Offset i * h.number op2 op2Offset op2Count) :
    ∃ h' : LimbHeap, mulBlock tp target (targetOffset + i) op1 (op1Offset + i) n op2 op2Offset
        op2Count h = some h' ∧
      h'.number target targetOffset (i + n + op2Count) =
        h.number op1 op1Offset (i + n) * h.number op2 op2Offset op2Count ∧
      SameOutside (region target (targetOffset + i) (n + op2Count)) h h' := by
  obtain ⟨h', hrun, hnum, hfoot⟩ := mulBlock_run hn hcount
    (show targetOffset + i + (n + op2Count) ≤ (h target).length by omega)
    (show op1Offset + i + n ≤ (h op1).length by omega) h₂ htp
    (ha₁.sub (by omega) (by omega) (by omega) (by omega)) (ha₂.left (by omega) (by omega))
    (fun he => absurd he hpt)
  refine ⟨h', hrun, ?_, hfoot⟩
  have hlow : h'.number target targetOffset i = h.number target targetOffset i :=
    LimbHeap.number_apart hfoot (Apart.of_le le_rfl).symm
  rw [Nat.add_assoc i, h'.number_add (by rw [hfoot.length]; omega), hlow, hnum,
    h.number_add (by omega)]
  calc h.number target targetOffset i + (2 ^ 32) ^ i *
        (h.number op1 (op1Offset + i) n * h.number op2 op2Offset op2Count +
          h.number tp 0 op2Count)
      = (h.number target targetOffset i + (2 ^ 32) ^ i * h.number tp 0 op2Count) + (2 ^ 32) ^ i *
        (h.number op1 (op1Offset + i) n * h.number op2 op2Offset op2Count) := by ring
    _ = (h.number op1 op1Offset i + (2 ^ 32) ^ i * h.number op1 (op1Offset + i) n) *
        h.number op2 op2Offset op2Count := by
      rw [hval]
      ring

/-- **The loop over the blocks.**

**Proof sketch.** Induction on the number of blocks of 500 limbs. The limbs below the current block
and the limbs in `tp` behind them stand for the product with the limbs of the first operand that
were used. -/
lemma blockLoop_run (k : ℕ) {i rest N : ℕ} (hN : i + 500 * k + rest = N) (hrest : 1 ≤ rest)
    (hcount : 1 ≤ op2Count) (ht : targetOffset + (N + op2Count) ≤ (h target).length)
    (h₁ : op1Offset + N ≤ (h op1).length) (h₂ : op2Offset + op2Count ≤ (h op2).length)
    (htp : op2Count ≤ (h tp).length) (hpt : target ≠ tp) (hp₁ : op1 ≠ tp) (hp₂ : op2 ≠ tp)
    (ha₁ : Apart target targetOffset (N + op2Count) op1 op1Offset N)
    (ha₂ : Apart target targetOffset (N + op2Count) op2 op2Offset op2Count)
    (hval : h.number target targetOffset i + (2 ^ 32) ^ i * h.number tp 0 op2Count =
      h.number op1 op1Offset i * h.number op2 op2Offset op2Count) :
    ∃ h' : LimbHeap, blockLoop tp target op1 op2 op2Offset op2Count rest k (targetOffset + i)
        (op1Offset + i) h = some (targetOffset + (i + 500 * k), h') ∧
      h'.number target targetOffset (N + op2Count) =
        h.number op1 op1Offset N * h.number op2 op2Offset op2Count ∧
      SameOutside (blocksWritten tp target targetOffset (N + op2Count)) h h' := by
  induction k generalizing i h with
  | zero =>
    rw [Nat.mul_zero, Nat.add_zero] at hN ⊢
    subst hN
    obtain ⟨h', hrun, hnum, hfoot⟩ := block_step hrest hcount ht h₁ h₂ htp hpt ha₁ ha₂ hval
    refine ⟨h', ?_, hnum, hfoot.mono ?_⟩
    · rw [blockLoop, hrun]
      rfl
    · simp only [blocksWritten, region]
      omega
  | succ k ih =>
    obtain ⟨g, hrun, hnum, hfoot⟩ := block_step (i := i) (n := 500) (by omega) hcount
      (show targetOffset + (i + 500 + op2Count) ≤ (h target).length by omega)
      (show op1Offset + (i + 500) ≤ (h op1).length by omega) h₂ htp hpt
      (ha₁.sub le_rfl (by omega) le_rfl (by omega)) (ha₂.left le_rfl (by omega)) hval
    obtain ⟨g', hcopy, htpg, hfoot'⟩ := LimbHeap.run_copyData
      (show targetOffset + i + 500 + op2Count ≤ (g target).length by rw [hfoot.length]; omega)
      (show 0 + op2Count ≤ (g tp).length by rw [hfoot.length, Nat.zero_add]; exact htp)
    have hboth : SameOutside (blocksWritten tp target targetOffset (N + op2Count)) h g' := by
      refine (hfoot.mono ?_).trans (hfoot'.mono ?_) <;>
      · simp only [blocksWritten, region]
        omega
    have hlen := hboth.length
    have hX (n : ℕ) (hn : n ≤ N) : g'.number op1 op1Offset n = h.number op1 op1Offset n :=
      number_blocksWritten hboth hp₁ (ha₁.right le_rfl (by omega))
    have hY : g'.number op2 op2Offset op2Count = h.number op2 op2Offset op2Count :=
      number_blocksWritten hboth hp₂ ha₂
    have hlow : g'.number target targetOffset (i + 500) = g.number target targetOffset (i + 500) :=
      LimbHeap.number_apart hfoot' fun he => absurd he.symm hpt
    have hinv : g'.number target targetOffset (i + 500) +
        (2 ^ 32) ^ (i + 500) * g'.number tp 0 op2Count =
        g'.number op1 op1Offset (i + 500) * g'.number op2 op2Offset op2Count := by
      rw [g.number_add (by rw [hfoot.length]; omega)] at hnum
      rw [hlow, htpg, hX _ (by omega), hY, ← hnum, Nat.add_assoc targetOffset]
    obtain ⟨h', hloop, hfinal, hfoot''⟩ := ih (i := i + 500) (h := g') (by omega)
      (by rw [hlen]; exact ht) (by rw [hlen]; exact h₁) (by rw [hlen]; exact h₂)
      (by rw [hlen]; exact htp) hinv
    refine ⟨h', ?_, ?_, hboth.trans hfoot''⟩
    · rw [blockLoop, hrun]
      simp only [Option.bind_eq_bind, Option.bind_some, hcopy]
      rw [show i + 500 * (k + 1) = i + 500 + 500 * k by omega, Nat.add_assoc targetOffset,
        Nat.add_assoc op1Offset]
      exact hloop
    · rw [hfinal, hX _ le_rfl, hY]

/-- **The product in blocks.** -/
lemma mulBlocks_run {fresh free op1Count : ℕ} (hfree : free ≤ fresh) (hft : target < free)
    (hf₁ : op1 < free) (hf₂ : op2 < free) (hlong : 500 < op1Count) (hcount : 1 ≤ op2Count)
    (hshort : op2Count < 32) (ht : targetOffset + (op1Count + op2Count) ≤ (h target).length)
    (h₁ : op1Offset + op1Count ≤ (h op1).length) (h₂ : op2Offset + op2Count ≤ (h op2).length)
    (ha₁ : Apart target targetOffset (op1Count + op2Count) op1 op1Offset op1Count)
    (ha₂ : Apart target targetOffset (op1Count + op2Count) op2 op2Offset op2Count) :
    ∃ (c : Natural32) (h' : LimbHeap),
      mulBlocks fresh target targetOffset op1 op1Offset op1Count op2 op2Offset op2Count h =
        some (c, h') ∧
      h'.number target targetOffset (op1Count + op2Count) =
        h.number op1 op1Offset op1Count * h.number op2 op2Offset op2Count ∧
      h'.item target (targetOffset + (op1Count + op2Count - 1)) = some c ∧
      KeptBelow free (region target targetOffset (op1Count + op2Count)) h h' := by
  set g : LimbHeap := Function.update h fresh (List.replicate 32 0) with hg
  have hlen {a : ℕ} (ha : a < free) : (g a).length = (h a).length := by
    rw [hg, Function.update_of_ne (by omega)]
  have hlenp : (g fresh).length = 32 := by
    rw [hg, Function.update_self, List.length_replicate]
  have hnum {a i n : ℕ} (ha : a < free) : g.number a i n = h.number a i n :=
    number_update (by omega) _ _ _
  -- the first block
  obtain ⟨g₁, hmul, hprod, hfoot₁⟩ := mulBasecase_run hcount
    (show targetOffset + (500 + op2Count) ≤ (g target).length by rw [hlen hft]; omega)
    (show op1Offset + 500 ≤ (g op1).length by rw [hlen hf₁]; omega)
    (show op2Offset + op2Count ≤ (g op2).length by rw [hlen hf₂]; exact h₂)
    (ha₁.sub le_rfl (by omega) le_rfl (by omega)) (ha₂.left le_rfl (by omega))
  obtain ⟨g₂, hcopy, htp, hfoot₂⟩ := LimbHeap.run_copyData
    (show targetOffset + 500 + op2Count ≤ (g₁ target).length by
      rw [hfoot₁.length, hlen hft]
      omega)
    (show 0 + op2Count ≤ (g₁ fresh).length by rw [hfoot₁.length, hlenp]; omega)
  have hboth :
      SameOutside (blocksWritten fresh target targetOffset (op1Count + op2Count)) g g₂ := by
    refine (hfoot₁.mono ?_).trans (hfoot₂.mono ?_) <;>
    · simp only [blocksWritten, region]
      omega
  have hlen₂ := hboth.length
  have hX (n : ℕ) (hn : n ≤ op1Count) : g₂.number op1 op1Offset n = h.number op1 op1Offset n := by
    rw [number_blocksWritten hboth (by omega) (ha₁.right le_rfl (by omega)), hnum hf₁]
  have hY : g₂.number op2 op2Offset op2Count = h.number op2 op2Offset op2Count := by
    rw [number_blocksWritten hboth (by omega) ha₂, hnum hf₂]
  have hinv : g₂.number target targetOffset 500 + (2 ^ 32) ^ 500 * g₂.number fresh 0 op2Count =
      g₂.number op1 op1Offset 500 * g₂.number op2 op2Offset op2Count := by
    have hlow : g₂.number target targetOffset 500 = g₁.number target targetOffset 500 :=
      LimbHeap.number_apart hfoot₂ fun he => by omega
    rw [hlow, htp, hX _ (by omega), hY, ← g₁.number_add (by rw [hfoot₁.length, hlen hft]; omega),
      hprod, hnum hf₁, hnum hf₂]
  -- the other ones
  set k := (op1Count - 500 - 1) / 500 with hk
  set rest := op1Count - 500 - 500 * k with hrest
  obtain ⟨h', hloop, hfinal, hfoot₃⟩ := blockLoop_run (h := g₂) (i := 500) k
    (show 500 + 500 * k + rest = op1Count by omega) (by omega) hcount
    (by rw [hlen₂, hlen hft]; exact ht) (by rw [hlen₂, hlen hf₁]; exact h₁)
    (by rw [hlen₂, hlen hf₂]; exact h₂) (by rw [hlen₂, hlenp]; omega) (by omega) (by omega)
    (by omega) ha₁ ha₂ hinv
  obtain ⟨c, hc, -⟩ := LimbHeap.exists_limb (h := h') (a := target)
    (i := targetOffset + (op1Count + op2Count - 1)) (by
      rw [hfoot₃.length, hlen₂, hlen hft]
      omega)
  refine ⟨c, h', ?_, ?_, hc, ?_⟩
  · have hindex : targetOffset + (500 + 500 * k) + rest + op2Count - 1 =
        targetOffset + (op1Count + op2Count - 1) := by omega
    simp only [mulBlocks, ← hg, hmul, hcopy, Option.bind_eq_bind, Option.bind_some, ← hk, ← hrest,
      hloop, hindex, hc]
    rfl
  · rw [hfinal, hX _ le_rfl, hY]
  · refine (keptBelow_update hfree _ h _).trans (((hboth.trans hfoot₃).keptBelow free).mono ?_)
    intro b hb j hw
    rcases hw with hw | rfl
    · exact hw
    · omega

end Blocks

section Product

variable {fresh free target targetOffset op1 op1Offset op1Count op2 op2Offset op2Count : ℕ}
  {h : LimbHeap}

/-- **`mul`** without slices: the product, and its highest limb. -/
lemma mul_run (hfree : free ≤ fresh) (hft : target < free) (hf₁ : op1 < free) (hf₂ : op2 < free)
    (hcount : 1 ≤ op2Count) (hle : op2Count ≤ op1Count) (hmax : op1Count ≤ 2 ^ 32)
    (hne : op1 ≠ op2) (hcond : op1Count = op2Count ∨ op2Count < 32)
    (ht : targetOffset + (op1Count + op2Count) ≤ (h target).length)
    (h₁ : op1Offset + op1Count ≤ (h op1).length) (h₂ : op2Offset + op2Count ≤ (h op2).length)
    (ha₁ : Apart target targetOffset (op1Count + op2Count) op1 op1Offset op1Count)
    (ha₂ : Apart target targetOffset (op1Count + op2Count) op2 op2Offset op2Count) :
    ∃ (c : Natural32) (h' : LimbHeap),
      mul fresh target targetOffset op1 op1Offset op1Count op2 op2Offset op2Count h =
        some (c, h') ∧
      h'.number target targetOffset (op1Count + op2Count) =
        h.number op1 op1Offset op1Count * h.number op2 op2Offset op2Count ∧
      h'.item target (targetOffset + (op1Count + op2Count - 1)) = some c ∧
      KeptBelow free (region target targetOffset (op1Count + op2Count)) h h' := by
  have htop {g : LimbHeap} (hg : KeptBelow free (region target targetOffset (op1Count + op2Count))
      h g) : ∃ c, g.item target (targetOffset + (op1Count + op2Count - 1)) = some c := by
    obtain ⟨c, hc, -⟩ := LimbHeap.exists_limb (h := g) (a := target)
      (i := targetOffset + (op1Count + op2Count - 1)) (by rw [hg.length _ hft]; omega)
    exact ⟨c, hc⟩
  rw [mul]
  by_cases hsame : op1Count = op2Count
  · subst hsame
    rw [← Nat.two_mul] at ht ha₁ ha₂
    obtain ⟨h', hrun, hval, hkept⟩ := mulN_run hcount hmax hfree hft hf₁ hf₂ ht h₁ h₂ ha₁ ha₂
    rw [Nat.two_mul] at hval hkept
    obtain ⟨c, hc⟩ := htop hkept
    refine ⟨c, h', ?_, hval, hc, hkept⟩
    have hindex : targetOffset + 2 * op1Count - 1 = targetOffset + (op1Count + op1Count - 1) := by
      omega
    rw [if_pos rfl, if_neg fun he => hne he.1, hrun]
    simp only [Option.bind_eq_bind, Option.bind_some, hindex, hc]
    rfl
  · have hshort : op2Count < 32 := hcond.resolve_left hsame
    rw [if_neg hsame, if_pos hshort]
    by_cases hlong : op1Count ≤ 500
    · obtain ⟨h', hrun, hval, hfoot⟩ := mulBasecase_run hcount ht h₁ h₂ ha₁ ha₂
      obtain ⟨c, hc⟩ := htop (hfoot.keptBelow free)
      refine ⟨c, h', ?_, hval, hc, hfoot.keptBelow free⟩
      have hindex : targetOffset + op1Count + op2Count - 1 =
          targetOffset + (op1Count + op2Count - 1) := by omega
      rw [if_pos hlong, hrun]
      simp only [Option.bind_eq_bind, Option.bind_some, hindex, hc]
      rfl
    · rw [if_neg hlong]
      exact mulBlocks_run hfree hft hf₁ hf₂ (by omega) hcount hshort ht h₁ h₂ ha₁ ha₂

end Product

/-! ## Slices -/

section Slices

variable {target targetOffset op1 op1Offset : ℕ} {h : LimbHeap}

/-- The limbs behind those that `add_1` changes are copied. -/
lemma copyLimbs_run {i j n : ℕ} {size : ℤ} (hsize : size = n) (ht : j + n ≤ (h target).length)
    (h₁ : i + n ≤ (h op1).length) :
    ∃ h' : LimbHeap, copyLimbs target op1 i j size h = some h' ∧
      h'.number target j n = h.number op1 i n ∧ SameOutside (region target j n) h h' := by
  have hlen : (h.segment op1 i n).length = n := length_segment h₁
  have hstored : j + (h.segment op1 i n).length ≤ (h target).length := by omega
  have hread := segment_store_self hstored
  have hfoot := sameOutside_store hstored
  rw [hlen] at hread hfoot
  refine ⟨_, ?_, by rw [LimbHeap.number, hread, LimbHeap.number], hfoot⟩
  rw [copyLimbs, hsize, if_pos (Int.natCast_nonneg n), Int.toNat_natCast, copyData_eq h₁ ht]

/-- The end of `add_1` after a carry out of its first limb. -/
def add1Finish (target targetOffset op1 op1Offset : ℕ) (size : ℤ) (r : ℕ × Natural32 × LimbHeap) :
    Option (Natural32 × LimbHeap) :=
  (copyLimbs target op1 (op1Offset + r.1) (targetOffset + r.1) (size - r.1) r.2.2).map fun h =>
    (toLimb (r.1 = size ∧ r.2.1 = 0), h)

/-- **The loop of `add_1`** and the copying behind it add one to the limbs from `i` on.

**Proof sketch.** Induction on the number of limbs. -/
lemma add1Loop_run (hsame : target = op1 → targetOffset = op1Offset) (k : ℕ) {i : ℕ} {size : ℤ}
    (hsize : size = i + k) (ht : targetOffset + i + k ≤ (h target).length)
    (h₁ : op1Offset + i + k ≤ (h op1).length) :
    ∃ (c : Natural32) (h' : LimbHeap),
      (add1Loop target targetOffset op1 op1Offset k i 0 h).bind
        (add1Finish target targetOffset op1 op1Offset size) = some (c, h') ∧
      h'.number target (targetOffset + i) k + (2 ^ 32) ^ k * c.toNat =
        h.number op1 (op1Offset + i) k + 1 ∧
      SameOutside (region target (targetOffset + i) k) h h' := by
  induction k generalizing i h with
  | zero =>
    obtain ⟨h', hcopy, hval, hfoot⟩ := copyLimbs_run (show size - i = (0 : ℕ) by
      push_cast at hsize ⊢
      omega) ht h₁
    refine ⟨1, h', ?_, ?_, hfoot⟩
    · have hend : toLimb (decide ((i : ℤ) = size ∧ (0 : Natural32) = 0)) = 1 := by
        rw [decide_eq_true ⟨by omega, rfl⟩]
        rfl
      rw [add1Loop, Option.bind_some, add1Finish, hcopy, Option.map_some, hend]
    · rw [hval]
      rfl
  | succ k ih =>
    obtain ⟨x, hx, hnum⟩ := number_succ h (n := k) (show op1Offset + i < (h op1).length by omega)
    obtain ⟨g, hput, hfoot, hfirst, -⟩ := put_first (k := k)
      (show targetOffset + i + (k + 1) ≤ (h target).length by omega) (x + 1)
    have hlen := hfoot.length
    have hrest : g.number op1 (op1Offset + (i + 1)) k = h.number op1 (op1Offset + (i + 1)) k :=
      LimbHeap.number_apart hfoot fun he => Or.inl (by rw [hsame he]; omega)
    have hx' := x.isLt
    have hsucc : (x + 1).toNat = (x.toNat + 1) % 2 ^ 32 := BitVec.toNat_add x 1
    have hsplit {f : LimbHeap} (hf : SameOutside (region target (targetOffset + (i + 1)) k) g f) :
        f.number target (targetOffset + i) (k + 1) =
          (x + 1).toNat + 2 ^ 32 * f.number target (targetOffset + (i + 1)) k :=
      LimbHeap.number_below ht hfirst hfoot hf
    have hboth {f : LimbHeap} (hf : SameOutside (region target (targetOffset + (i + 1)) k) g f) :
        SameOutside (region target (targetOffset + i) (k + 1)) h f := by
      exact hfoot.join hf (by omega) (by omega)
    rw [add1Loop, hx]
    simp only [Option.bind_eq_bind, Option.bind_some, hput, hnum]
    by_cases hzero : x + 1 = 0
    · obtain ⟨c, h', hrun, hval, hfoot'⟩ := ih (h := g)
        (show size = ((i + 1 : ℕ) : ℤ) + k by push_cast at hsize ⊢; omega)
        (show targetOffset + (i + 1) + k ≤ (g target).length by rw [hlen]; omega)
        (show op1Offset + (i + 1) + k ≤ (g op1).length by rw [hlen]; omega)
      rw [hrest] at hval
      refine ⟨c, h', ?_, ?_, hboth hfoot'⟩
      · rw [if_neg (not_not.mpr hzero), hzero]
        exact hrun
      · rw [hzero, toNat_zero_limb] at hsucc
        rw [hsplit hfoot', hzero, toNat_zero_limb, pow_succ' (2 ^ 32) k, Nat.mul_assoc,
          Nat.zero_add,
          ← Nat.mul_add, hval, ← Nat.add_assoc]
        omega
    · have hne' : (x + 1).toNat ≠ 0 := (BitVec.toNat_pos_of_ne_zero hzero).ne'
      obtain ⟨h', hcopy, hval, hfoot'⟩ := copyLimbs_run (h := g)
        (show size - ((i + 1 : ℕ) : ℤ) = (k : ℕ) by push_cast at hsize ⊢; omega)
        (show targetOffset + (i + 1) + k ≤ (g target).length by rw [hlen]; omega)
        (show op1Offset + (i + 1) + k ≤ (g op1).length by rw [hlen]; omega)
      refine ⟨0, h', ?_, ?_, hboth hfoot'⟩
      · have hend : toLimb (decide (((i + 1 : ℕ) : ℤ) = size ∧ x + 1 = 0)) = 0 := by
          rw [decide_eq_false fun he => hzero he.2]
          rfl
        rw [if_pos hzero]
        show add1Finish target targetOffset op1 op1Offset size (i + 1, x + 1, g) = _
        rw [add1Finish, hcopy, Option.map_some, hend]
      · rw [hsplit hfoot', hval, hrest, toNat_zero_limb, Nat.mul_zero, Nat.add_zero,
          ← Nat.add_assoc op1Offset]
        omega

/-- **`add_1`** to another array, or in place: the sum, and the carry. -/
lemma add1_run (hsame : target = op1 → targetOffset = op1Offset) {n : ℕ} {size : ℤ}
    (hsize : size = (n + 1 : ℕ))
    (ht : targetOffset + (n + 1) ≤ (h target).length) (h₁ : op1Offset + (n + 1) ≤ (h op1).length)
    (op2 : Natural32) :
    ∃ (c : Natural32) (h' : LimbHeap),
      add1 target targetOffset op1 op1Offset size op2 h = some (c, h') ∧
      h'.number target targetOffset (n + 1) + (2 ^ 32) ^ (n + 1) * c.toNat =
        h.number op1 op1Offset (n + 1) + op2.toNat ∧
      SameOutside (region target targetOffset (n + 1)) h h' := by
  obtain ⟨x, hx, hnum⟩ := number_succ h (n := n) (show op1Offset < (h op1).length by omega)
  obtain ⟨g, hput, hfoot, hfirst, -⟩ := put_first ht (x + op2)
  have hlen := hfoot.length
  have hrest : g.number op1 (op1Offset + 1) n = h.number op1 (op1Offset + 1) n :=
    LimbHeap.number_apart hfoot fun he => Or.inl (by rw [hsame he])
  have hx' := x.isLt
  have hop2 := op2.isLt
  have hsum : (x + op2).toNat = (x.toNat + op2.toNat) % 2 ^ 32 := BitVec.toNat_add x op2
  have hsplit {f : LimbHeap} (hf : SameOutside (region target (targetOffset + 1) n) g f) :
      f.number target targetOffset (n + 1) =
        (x + op2).toNat + 2 ^ 32 * f.number target (targetOffset + 1) n :=
    LimbHeap.number_below ht hfirst hfoot hf
  have hboth {f : LimbHeap} (hf : SameOutside (region target (targetOffset + 1) n) g f) :
      SameOutside (region target targetOffset (n + 1)) h f := by
    exact hfoot.join hf (by omega) (by omega)
  rw [add1, hx]
  simp only [Option.bind_eq_bind, Option.bind_some, hput, hnum]
  by_cases hover : x + op2 < op2
  · obtain ⟨c, h', hrun, hval, hfoot'⟩ := add1Loop_run (h := g) hsame n
      (show size = ((1 : ℕ) : ℤ) + n by push_cast at hsize ⊢; omega)
      (show targetOffset + 1 + n ≤ (g target).length by rw [hlen]; omega)
      (show op1Offset + 1 + n ≤ (g op1).length by rw [hlen]; omega)
    have hover' : (x.toNat + op2.toNat) % 2 ^ 32 < op2.toNat := by
      rw [← hsum]
      exact hover
    rw [hrest] at hval
    refine ⟨c, h', ?_, ?_, hboth hfoot'⟩
    · have hn : (size - 1).toNat = n := by omega
      rw [if_pos hover, hn, ← hrun]
      cases add1Loop target targetOffset op1 op1Offset n 1 0 g with
      | none => rfl
      | some r =>
        simp only [Option.bind_some, add1Finish]
        cases copyLimbs target op1 (op1Offset + r.1) (targetOffset + r.1) (size - r.1) r.2.2 <;> rfl
    · rw [hsplit hfoot', pow_succ' (2 ^ 32) n, Nat.mul_assoc, Nat.add_assoc, ← Nat.mul_add, hval,
        hsum]
      omega
  · have hover' : op2.toNat ≤ (x.toNat + op2.toNat) % 2 ^ 32 := by
      rw [← hsum]
      exact not_lt.mp hover
    by_cases heq : target = op1
    · -- in place the other limbs stay where they are
      refine ⟨0, g, ?_, ?_, hboth (.refl _ g)⟩
      · rw [if_neg hover, if_neg (not_not.mpr heq)]
        rfl
      · have hstay : g.number target (targetOffset + 1) n = h.number op1 (op1Offset + 1) n := by
          rw [hsame heq, heq, hrest]
        rw [hsplit (.refl _ g), hstay, toNat_zero_limb, Nat.mul_zero, Nat.add_zero, hsum]
        omega
    obtain ⟨h', hcopy, hval, hfoot'⟩ := copyLimbs_run (h := g)
      (show size - 1 = (n : ℕ) by push_cast at hsize; omega)
      (show targetOffset + 1 + n ≤ (g target).length by rw [hlen]; omega)
      (show op1Offset + 1 + n ≤ (g op1).length by rw [hlen]; omega)
    refine ⟨0, h', ?_, ?_, hboth hfoot'⟩
    · rw [if_neg hover, if_pos heq, hcopy]
      rfl
    · rw [hsplit hfoot', hval, hrest, toNat_zero_limb, Nat.mul_zero, Nat.add_zero, hsum]
      omega

/-- The product of the last slice is added to the limbs from `targetOffset` on, of which the `l` low
ones are already there. -/
lemma addLast_run {ws l r : ℕ} (hws : target ≠ ws) (hr : 1 ≤ r)
    (ht : targetOffset + (l + r) ≤ (h target).length) (hw : l + r ≤ (h ws).length)
    (hlt : h.number target targetOffset l + h.number ws 0 (l + r) < (2 ^ 32) ^ (l + r)) :
    ∃ (c c' : Natural32) (g h' : LimbHeap),
      addN target targetOffset target targetOffset ws 0 l h = some (c, g) ∧
      add1 target (targetOffset + l) ws l ((l + r : ℕ) - (l : ℤ)) c g = some (c', h') ∧
      h'.number target targetOffset (l + r) =
        h.number target targetOffset l + h.number ws 0 (l + r) ∧
      SameOutside (region target targetOffset (l + r)) h h' := by
  obtain ⟨c, g, hadd, -, hsum, hfoot⟩ := addN_run
    (show targetOffset + l ≤ (h target).length by omega)
    (show targetOffset + l ≤ (h target).length by omega)
    (show 0 + l ≤ (h ws).length by omega) (.refl _ _ _) fun he => absurd he.symm hws
  have hlen := hfoot.length
  obtain ⟨n, rfl⟩ : ∃ n, r = n + 1 := ⟨r - 1, by omega⟩
  obtain ⟨c', h', hone, hsum', hfoot'⟩ := add1_run (h := g)
    (fun he => absurd he hws)
    (show ((l + (n + 1) : ℕ) : ℤ) - l = (n + 1 : ℕ) by push_cast; omega)
    (show targetOffset + l + (n + 1) ≤ (g target).length by rw [hlen]; omega)
    (show l + (n + 1) ≤ (g ws).length by rw [hlen]; exact hw) c
  have hlow : h'.number target targetOffset l = g.number target targetOffset l :=
    LimbHeap.number_apart hfoot' (Apart.of_le le_rfl).symm
  have hhigh : g.number ws l (n + 1) = h.number ws l (n + 1) :=
    LimbHeap.number_apart hfoot fun he => absurd he hws
  have hsplit : h'.number target targetOffset (l + (n + 1)) =
      g.number target targetOffset l +
        (2 ^ 32) ^ l * h'.number target (targetOffset + l) (n + 1) := by
    rw [h'.number_add (by rw [hfoot'.length, hlen]; omega), hlow]
  have hsplit' : h.number ws 0 (l + (n + 1)) =
      h.number ws 0 l + (2 ^ 32) ^ l * h.number ws l (n + 1) := by
    rw [h.number_add (by omega), Nat.zero_add]
  have hsum'' : h'.number target targetOffset (l + (n + 1)) +
      (2 ^ 32) ^ (l + (n + 1)) * c'.toNat =
      h.number target targetOffset l + h.number ws 0 (l + (n + 1)) := by
    rw [hhigh] at hsum'
    calc h'.number target targetOffset (l + (n + 1)) + (2 ^ 32) ^ (l + (n + 1)) * c'.toNat
        = g.number target targetOffset l + (2 ^ 32) ^ l *
            (h'.number target (targetOffset + l) (n + 1) + (2 ^ 32) ^ (n + 1) * c'.toNat) := by
          rw [hsplit, pow_add, Nat.mul_add, Nat.mul_assoc, Nat.add_assoc]
      _ = (g.number target targetOffset l + (2 ^ 32) ^ l * c.toNat) +
            (2 ^ 32) ^ l * h.number ws l (n + 1) := by
          rw [hsum', Nat.mul_add]
          omega
      _ = h.number target targetOffset l + h.number ws 0 (l + (n + 1)) := by
          rw [hsum, hsplit']
          omega
  have hc : c'.toNat = 0 := by
    by_contra hpos
    have hle : (2 ^ 32) ^ (l + (n + 1)) ≤ (2 ^ 32) ^ (l + (n + 1)) * c'.toNat :=
      Nat.le_mul_of_pos_right _ (Nat.pos_of_ne_zero hpos)
    omega
  refine ⟨c, c', g, h', hadd, hone, ?_, ?_⟩
  · rw [hc, Nat.mul_zero] at hsum''
    exact hsum''
  · exact hfoot.join hfoot' (by omega) (by omega)

variable {fresh free op2 op2Offset op2Count r : ℕ}

/-- **The last slice**: its product with the other operand, which has more limbs, is added to the
target. -/
lemma lastSlice_run {ws : ℕ} (hws : free ≤ ws) (hft : target < free) (hf₁ : op1 < free)
    (hf₂ : op2 < free) (hr : 1 ≤ r) (hw : (h ws).length = op2Count + r)
    (ht : targetOffset + (op2Count + r) ≤ (h target).length)
    (h₁ : op1Offset + r ≤ (h op1).length) (h₂ : op2Offset + op2Count ≤ (h op2).length)
    (hlt : h.number target targetOffset op2Count +
      h.number op2 op2Offset op2Count * h.number op1 op1Offset r < (2 ^ 32) ^ (op2Count + r)) :
    ∃ h' : LimbHeap,
      lastSlice ws target
        { op1 := (op2, op2Offset, op2Count)
          op2 := (op1, op1Offset, r)
          targetOffset := targetOffset
          l := op2Count
          t := 0 } h = some h' ∧
      h'.number target targetOffset (op2Count + r) = h.number target targetOffset op2Count +
        h.number op2 op2Offset op2Count * h.number op1 op1Offset r ∧
      KeptBelow free (region target targetOffset (op2Count + r)) h h' := by
  obtain ⟨g, hrest, hprod, hfoot⟩ := mulBasecase_run (h := h) hr
    (show 0 + (op2Count + r) ≤ (h ws).length by omega) h₂ h₁
    (fun he => by omega) (fun he => by omega)
  have hkeep : g.number target targetOffset op2Count = h.number target targetOffset op2Count :=
    LimbHeap.number_apart hfoot fun he => by omega
  obtain ⟨c, c', g', h', hadd, hone, hval, hfoot'⟩ := addLast_run (show target ≠ ws by omega) hr
    (show targetOffset + (op2Count + r) ≤ (g target).length by rw [hfoot.length]; exact ht)
    (by rw [hfoot.length, hw]) (by rw [hkeep, hprod]; exact hlt)
  refine ⟨h', ?_, by rw [hval, hkeep, hprod], ?_⟩
  · have hl : op2Count ≠ op2Count + r := by omega
    have hcast : ((op2Count + r : ℕ) : ℤ) - (op2Count : ℤ) = op2Count + r - op2Count := by
      push_cast
      rfl
    rw [hcast] at hone
    have hzero : (0 : Natural32) + c = c := BitVec.zero_add c
    simp only [lastSlice, if_pos (show r ≠ 0 by omega), hrest, Option.bind_eq_bind,
      Option.bind_some, if_pos (Nat.le_add_right op2Count r), hadd, hzero, if_pos hl, hone]
    rfl
  · refine ((hfoot.keptBelow free).mono ?_).trans ((hfoot'.keptBelow free).mono ?_) <;>
    · simp only [region]
      omega

/-- **One slice and a rest** of less than 32 limbs: the product is right, but the limb that is
returned is the one with index `op2Count + r - 1`. -/
lemma mulSlices_run (hfree : free ≤ fresh) (hft : target < free) (hf₁ : op1 < free)
    (hf₂ : op2 < free) (hcount : 32 ≤ op2Count) (hmax : op2Count ≤ 2 ^ 32) (hr : 1 ≤ r)
    (hr' : r < 32) (ht : targetOffset + (op2Count + r + op2Count) ≤ (h target).length)
    (h₁ : op1Offset + (op2Count + r) ≤ (h op1).length)
    (h₂ : op2Offset + op2Count ≤ (h op2).length)
    (ha₁ : Apart target targetOffset (op2Count + r + op2Count) op1 op1Offset (op2Count + r))
    (ha₂ : Apart target targetOffset (op2Count + r + op2Count) op2 op2Offset op2Count) :
    ∃ (c : Natural32) (h' : LimbHeap),
      mulSlices fresh target targetOffset op1 op1Offset (op2Count + r) op2 op2Offset op2Count h =
        some (c, h') ∧
      h'.number target targetOffset (op2Count + r + op2Count) =
        h.number op1 op1Offset (op2Count + r) * h.number op2 op2Offset op2Count ∧
      h'.item target (op2Count + r - 1) = some c ∧
      KeptBelow free (region target targetOffset (op2Count + r + op2Count)) h h' := by
  -- the product of the low limbs
  obtain ⟨g, hmul, hprod, hkept⟩ := @mulN_run (fresh + 1) _ _ _ _ _ _ _ h (by omega) hmax _
    (show free ≤ fresh + 1 by omega) hft hf₁ hf₂
    (show targetOffset + 2 * op2Count ≤ (h target).length by omega)
    (show op1Offset + op2Count ≤ (h op1).length by omega) h₂
    (ha₁.sub le_rfl (by omega) le_rfl (by omega)) (ha₂.left le_rfl (by omega))
  set f : LimbHeap := Function.update g fresh (List.replicate (op2Count + r) 0) with hf
  have hkeptF : KeptBelow free (region target targetOffset (op2Count + r + op2Count)) h f := by
    refine (hkept.mono fun b hb j => ?_).trans (keptBelow_update hfree _ g _)
    simp only [region]
    omega
  have hlenw : (f fresh).length = op2Count + r := by
    rw [hf, Function.update_self, List.length_replicate]
  have hnum {a i n : ℕ} (ha : a < free) (hd : Apart target targetOffset (2 * op2Count) a i n) :
      f.number a i n = h.number a i n := by
    rw [number_update (by omega), LimbHeap.number, hkept.segment_apart ha hd, LimbHeap.number]
  have hnumt : f.number target targetOffset (2 * op2Count) =
      h.number op1 op1Offset op2Count * h.number op2 op2Offset op2Count := by
    rw [number_update (by omega), hprod]
  have hhigh : f.number op1 (op1Offset + op2Count) r = h.number op1 (op1Offset + op2Count) r :=
    hnum hf₁ (ha₁.sub le_rfl (by omega) (by omega) (by omega))
  have hother : f.number op2 op2Offset op2Count = h.number op2 op2Offset op2Count :=
    hnum hf₂ (ha₂.left le_rfl (by omega))
  -- the sum of the two products
  set X := h.number op1 op1Offset (op2Count + r) with hX
  set Y := h.number op2 op2Offset op2Count with hY
  have hXsplit : X = h.number op1 op1Offset op2Count +
      (2 ^ 32) ^ op2Count * h.number op1 (op1Offset + op2Count) r := by
    rw [hX, h.number_add (by omega)]
  have htsplit : f.number target targetOffset op2Count +
      (2 ^ 32) ^ op2Count * f.number target (targetOffset + op2Count) op2Count =
      h.number op1 op1Offset op2Count * Y := by
    rw [← f.number_add (by rw [hkeptF.length _ hft]; omega), ← Nat.two_mul, hnumt]
  have htotal : f.number target targetOffset op2Count + (2 ^ 32) ^ op2Count *
      (f.number target (targetOffset + op2Count) op2Count +
        Y * h.number op1 (op1Offset + op2Count) r) = X * Y := by
    rw [Nat.mul_add, ← Nat.add_assoc, htsplit, hXsplit]
    ring
  have hXY : X * Y < (2 ^ 32) ^ op2Count * (2 ^ 32) ^ (op2Count + r) := by
    rw [Nat.mul_comm X]
    exact Nat.mul_lt_mul'' (h.number_lt h₂) (h.number_lt h₁)
  have hlt : f.number target (targetOffset + op2Count) op2Count +
      f.number op2 op2Offset op2Count * f.number op1 (op1Offset + op2Count) r <
        (2 ^ 32) ^ (op2Count + r) := by
    rw [hother, hhigh]
    refine Nat.lt_of_mul_lt_mul_left (a := (2 ^ 32) ^ op2Count) ?_
    omega
  -- the product of the other limbs is added
  obtain ⟨h', hlast, hval, hkept'⟩ := lastSlice_run hfree hft hf₁ hf₂ hr hlenw
    (by rw [hkeptF.length _ hft]; omega) (by rw [hkeptF.length _ hf₁]; omega)
    (by rw [hkeptF.length _ hf₂]; exact h₂) hlt
  rw [hother, hhigh] at hval
  have hlen : (h' target).length = (h target).length := by
    rw [hkept'.length _ hft, hkeptF.length _ hft]
  obtain ⟨d, hd, -⟩ := LimbHeap.exists_limb (h := h') (a := target) (i := op2Count + r - 1)
    (by omega)
  refine ⟨d, h', ?_, ?_, hd, hkeptF.trans (hkept'.mono ?_)⟩
  · have harrange : Slices.arrange
        { op1 := (op1, op1Offset + op2Count, op2Count + r - op2Count)
          op2 := (op2, op2Offset, op2Count)
          targetOffset := targetOffset + op2Count
          l := op2Count
          t := 0 } =
        { op1 := (op2, op2Offset, op2Count)
          op2 := (op1, op1Offset + op2Count, r)
          targetOffset := targetOffset + op2Count
          l := op2Count
          t := 0 } := by
      rw [Nat.add_sub_cancel_left, Slices.arrange, if_pos (show r < op2Count by omega)]
    obtain ⟨n, hn⟩ : ∃ n, op2Count + r + op2Count = n + 1 := ⟨op2Count + r + op2Count - 1, by omega⟩
    rw [mulSlices, hmul]
    simp only [Option.bind_eq_bind, Option.bind_some, harrange,
      if_neg (show ¬ 32 ≤ r by omega), ← hf, hn, sliceLoop, if_pos hr', hlast, hd]
    rfl
  · have hlow : h'.number target targetOffset op2Count = f.number target targetOffset op2Count := by
      refine LimbHeap.number_kept hkept' hft fun i hi hi' => ?_
      simp only [region]
      omega
    rw [Nat.add_assoc, Nat.add_comm r, h'.number_add (by omega), hlow, hval, htotal]
  · simp only [region]
    omega

end Slices

end SpecialArithmetic

end EiffelWeb
