import Mathlib.Data.Nat.Log
import Mathlib.Tactic.LinearCombination
import EiffelWeb.Crypto.Limb.IntegerXObject
import EiffelWeb.Crypto.Limb.SpecialProduct

set_option relaxedAutoImplicit false
set_option autoImplicit false

/-!
# Karatsuba's product

The routines `kara_mul_n` and `mul_n` of `SPECIAL_ARITHMETIC` for operands of the same length. The
operands are cut in two. The products of the low and of the high parts go to the target, the product
of the differences goes to the workspace, where the sum of the two mixed products is made of the
three, and this sum is added to the target. If the number of limbs is odd, the low part has one limb
more, and the highest limb of a difference is treated on its own.

Parts of less than 32 limbs are multiplied by `mul_basecase`.

## Main definitions

* `SpecialArithmetic.karaOdd`, `SpecialArithmetic.karaEven` — one level of the recursion.
* `SpecialArithmetic.karaMulN`, `SpecialArithmetic.mulN`
* `SpecialArithmetic.workspace` — how much of the workspace is used.

## Main results

* `SpecialArithmetic.karaOdd_run`, `SpecialArithmetic.karaEven_run`
* `SpecialArithmetic.karaMulN_run`, `SpecialArithmetic.mulN_run`
-/

namespace EiffelWeb

open Limbs Arrays

namespace SpecialArithmetic

/-! ## The routines -/

/-- The arguments of a routine that multiplies operands of the same length. -/
abbrev Product :=
  (target targetOffset a aOffset b bOffset n ws wOffset : ℕ) → LimbHeap → Option LimbHeap

/-- The difference of the `n2` limbs of `a` at `a_offset` and at `a_offset + n3`, and whether the
first number is the smaller one. The loop that compares them is that of `cmp`. -/
def absDifference (target targetOffset a aOffset n2 n3 : ℕ) (h : LimbHeap) :
    Option (Bool × LimbHeap) := do
  let order ← SpecialComparison.cmp a aOffset a (aOffset + n3) n2 h
  if order < 0 then
    let r ← subN target targetOffset a (aOffset + n3) a aOffset n2 h
    return (true, r.2)
  else
    let r ← subN target targetOffset a aOffset a (aOffset + n3) n2 h
    return (false, r.2)

/-- The difference of `n3` limbs and the `n2` limbs behind them, for `n3` one more than `n2`. -/
def absDifferenceOdd (target targetOffset a aOffset n2 n3 : ℕ) (h : LimbHeap) :
    Option (Bool × LimbHeap) := do
  let w ← h.item a (aOffset + n2)
  if w ≠ 0 then
    let (carry, h) ← subN target targetOffset a aOffset a (aOffset + n3) n2 h
    let h ← h.put target (targetOffset + n2) (w - carry)
    return (false, h)
  else
    let (less, h) ← absDifference target targetOffset a aOffset n2 n3 h
    let h ← h.put target (targetOffset + n2) w
    return (less, h)

/-- The three products: of the differences, of the low parts and of the high parts. -/
def karaProducts (part : Product) (target targetOffset a aOffset b bOffset n2 n3 ws wOffset : ℕ)
    (h : LimbHeap) : Option LimbHeap := do
  let h ← part ws wOffset target targetOffset target (targetOffset + n3) n3 ws
    (wOffset + 2 * n3) h
  let h ← part target targetOffset a aOffset b bOffset n3 ws (wOffset + 2 * n3) h
  part target (targetOffset + 2 * n3) a (aOffset + n3) b (bOffset + n3) n2 ws (wOffset + 2 * n3) h

/-- `add_n` if `sign` is not zero, `sub_n` if it is. -/
def signedN (sign : Bool) (target targetOffset op1 op1Offset op2 op2Offset n : ℕ) (h : LimbHeap) :
    Option (Natural32 × LimbHeap) :=
  if sign then addN target targetOffset op1 op1Offset op2 op2Offset n h
  else subN target targetOffset op1 op1Offset op2 op2Offset n h

/-- A carry goes to the limbs `i` and `i + 1`. -/
def carryTwo (ws i : ℕ) (c : Natural32) (h : LimbHeap) : Option LimbHeap :=
  if c ≠ 0 then do
    let x ← h.item ws i
    let h ← h.put ws i (x + 1)
    if x + 1 = 0 then
      let y ← h.item ws (i + 1)
      h.put ws (i + 1) (y + 1)
    else return h
  else some h

/-- The mixed products, for an odd number of limbs. -/
def middleOdd (sign : Bool) (target targetOffset n ws wOffset : ℕ) (h : LimbHeap) :
    Option LimbHeap := do
  let r ← signedN sign ws wOffset target targetOffset ws wOffset (n + 1) h
  let (c, h) ← addN ws wOffset target (targetOffset + (n + 1)) ws wOffset (n - 1) r.2
  carryTwo ws (wOffset + (n - 1)) c h

/-- The mixed products are added to the target, for an odd number of limbs. -/
def addMiddleOdd (target targetOffset n n3 ws wOffset : ℕ) (h : LimbHeap) : Option LimbHeap := do
  let (carry, h) ← addN target (targetOffset + n3) target (targetOffset + n3) ws wOffset (n + 1) h
  let start := targetOffset + (n + 1) + n3
  if carry ≠ 0 then incrLoop target ((h target).length - start) start h else return h

/-- `kara_mul_n` for an odd number of limbs. -/
def karaOdd (part : Product) (target targetOffset a aOffset b bOffset n ws wOffset : ℕ)
    (h : LimbHeap) : Option LimbHeap := do
  let n2 := n / 2
  let n3 := n - n2
  let (signA, h) ← absDifferenceOdd target targetOffset a aOffset n2 n3 h
  let (signB, h) ← absDifferenceOdd target (targetOffset + n3) b bOffset n2 n3 h
  let h ← karaProducts part target targetOffset a aOffset b bOffset n2 n3 ws wOffset h
  let h ← middleOdd (signA ^^ signB) target targetOffset n ws wOffset h
  addMiddleOdd target targetOffset n n3 ws wOffset h

/-- The mixed products, for an even number of limbs: their high limb and the heap. -/
def middleEven (sign : Bool) (target targetOffset n ws wOffset : ℕ) (h : LimbHeap) :
    Option (Natural32 × LimbHeap) := do
  let (carry, h) ← signedN sign ws wOffset target targetOffset ws wOffset n h
  let w := if sign then carry else 0 - carry
  let (carry, h) ← addN ws wOffset target (targetOffset + n) ws wOffset n h
  return (w + carry, h)

/-- The mixed products are added to the target, for an even number of limbs. The limb `w` and the
carry are handed on in the text of `incr_u`. -/
def addMiddleEven (w : Natural32) (target targetOffset n n2 ws wOffset : ℕ) (h : LimbHeap) :
    Option LimbHeap := do
  let (carry, h) ← addN target (targetOffset + n2) target (targetOffset + n2) ws wOffset n h
  incrU target (targetOffset + n2 + n) (w + carry) h

/-- `kara_mul_n` for an even number of limbs. -/
def karaEven (part : Product) (target targetOffset a aOffset b bOffset n ws wOffset : ℕ)
    (h : LimbHeap) : Option LimbHeap := do
  let n2 := n / 2
  let (signA, h) ← absDifference target targetOffset a aOffset n2 n2 h
  let (signB, h) ← absDifference target (targetOffset + n2) b bOffset n2 n2 h
  let h ← karaProducts part target targetOffset a aOffset b bOffset n2 n2 ws wOffset h
  let (w, h) ← middleEven (signA ^^ signB) target targetOffset n ws wOffset h
  addMiddleEven w target targetOffset n n2 ws wOffset h

/-- `kara_mul_n (target, target_offset, a, a_offset, b, b_offset, n, ws, w_offset)`. The first
argument bounds the depth of the recursion, for which `n` is enough. -/
def karaMulN : ℕ → Product
  | 0 => fun _ _ _ _ _ _ _ _ _ _ => none
  | depth + 1 => fun target targetOffset a aOffset b bOffset n ws wOffset h =>
    let part : Product := fun target targetOffset a aOffset b bOffset n ws wOffset h =>
      if n < 32 then mulBasecase target targetOffset a aOffset n b bOffset n h
      else karaMulN depth target targetOffset a aOffset b bOffset n ws wOffset h
    if n % 2 ≠ 0 then karaOdd part target targetOffset a aOffset b bOffset n ws wOffset h
    else karaEven part target targetOffset a aOffset b bOffset n ws wOffset h

/-- `mul_n (target, target_offset, op1, op1_offset, op2, op2_offset, n)`. The array that the routine
creates gets the reference `fresh`. -/
def mulN (fresh target targetOffset op1 op1Offset op2 op2Offset n : ℕ) (h : LimbHeap) :
    Option LimbHeap :=
  if n < 32 then mulBasecase target targetOffset op1 op1Offset n op2 op2Offset n h
  else karaMulN n target targetOffset op1 op1Offset op2 op2Offset n fresh 0
    (Function.update h fresh (List.replicate (2 * n + 2 * 32) 0))

/-! ## The differences -/

/-- The difference of two numbers and which one is smaller. -/
def IsDifference (less : Bool) (u v d : ℕ) : Prop := if less then u + d = v else v + d = u

section Difference

variable {target targetOffset a aOffset n2 n3 : ℕ} {h : LimbHeap}

/-- **The difference of two parts of an array.** -/
lemma absDifference_run (ht : targetOffset + n2 ≤ (h target).length)
    (ha : aOffset + n3 + n2 ≤ (h a).length)
    (hd : Apart target targetOffset n2 a aOffset (n3 + n2)) :
    ∃ (less : Bool) (h' : LimbHeap),
      absDifference target targetOffset a aOffset n2 n3 h = some (less, h') ∧
      IsDifference less (h.number a aOffset n2) (h.number a (aOffset + n3) n2)
        (h'.number target targetOffset n2) ∧
      SameOutside (region target targetOffset n2) h h' := by
  simp only [Apart] at hd
  have hahead {i : ℕ} (hi : aOffset ≤ i) (hi' : i ≤ aOffset + n3) :
      ReadsAhead n2 target targetOffset a i := fun he => by
    have := hd he.symm
    omega
  have hlow : aOffset + n2 ≤ (h a).length := by omega
  rw [absDifference, SpecialComparison.cmp_eq h hlow ha]
  simp only [Option.bind_eq_bind, Option.bind_some]
  by_cases hless : h.number a aOffset n2 < h.number a (aOffset + n3) n2
  · obtain ⟨c, h', hsub, hc, hval, hfoot⟩ :=
      subN_run ht ha hlow (hahead (by omega) le_rfl) (hahead le_rfl (by omega))
    refine ⟨true, h', ?_, ?_, hfoot⟩
    · rw [if_pos (by rw [SpecialComparison.order_eq_of_lt hless]; decide), hsub]
      rfl
    · have hlt := h.number_lt ha
      have hlt' : h'.number target targetOffset n2 < (2 ^ 32) ^ n2 :=
        h'.number_lt (by rw [hfoot.length]; exact ht)
      have hzero : c.toNat = 0 := by
        by_contra hne
        have hone : c.toNat = 1 := by omega
        rw [hone] at hval
        omega
      rw [hzero] at hval
      show h.number a aOffset n2 + h'.number target targetOffset n2 = _
      omega
  · obtain ⟨c, h', hsub, hc, hval, hfoot⟩ :=
      subN_run ht hlow ha (hahead le_rfl (by omega)) (hahead (by omega) le_rfl)
    refine ⟨false, h', ?_, ?_, hfoot⟩
    · have horder : ¬ SpecialComparison.order (h.number a aOffset n2)
          (h.number a (aOffset + n3) n2) < 0 := by
        rw [SpecialComparison.order, if_neg hless]
        split <;> decide
      rw [if_neg horder, hsub]
      rfl
    · have hlt := h.number_lt hlow
      have hlt' : h'.number target targetOffset n2 < (2 ^ 32) ^ n2 :=
        h'.number_lt (by rw [hfoot.length]; exact ht)
      have hzero : c.toNat = 0 := by
        by_contra hne
        have hone : c.toNat = 1 := by omega
        rw [hone] at hval
        omega
      rw [hzero] at hval
      show h.number a (aOffset + n3) n2 + h'.number target targetOffset n2 = _
      omega

/-- **The difference of `n2 + 1` limbs and the `n2` limbs behind them.** -/
lemma absDifferenceOdd_run (ht : targetOffset + (n2 + 1) ≤ (h target).length)
    (ha : aOffset + (n2 + 1) + n2 ≤ (h a).length)
    (hd : Apart target targetOffset (n2 + 1) a aOffset (n2 + 1 + n2)) :
    ∃ (less : Bool) (h' : LimbHeap),
      absDifferenceOdd target targetOffset a aOffset n2 (n2 + 1) h = some (less, h') ∧
      IsDifference less (h.number a aOffset (n2 + 1)) (h.number a (aOffset + (n2 + 1)) n2)
        (h'.number target targetOffset (n2 + 1)) ∧
      SameOutside (region target targetOffset (n2 + 1)) h h' := by
  have hd' : Apart target targetOffset n2 a aOffset (n2 + 1 + n2) := by
    simp only [Apart] at hd ⊢
    omega
  obtain ⟨w, hw, hnum⟩ := LimbHeap.exists_limb (show aOffset + n2 < (h a).length by omega)
  have hsplit : h.number a aOffset (n2 + 1) =
      h.number a aOffset n2 + (2 ^ 32) ^ n2 * w.toNat := by
    rw [h.number_add (by omega), hnum]
  -- the limb that is written last is the highest one of the difference
  have hlast {g h' : LimbHeap} {x : Natural32}
      (hput : SameOutside (region target (targetOffset + n2) 1) g h')
      (hx : h'.number target (targetOffset + n2) 1 = x.toNat)
      (hlen : (g target).length = (h target).length) :
      h'.number target targetOffset (n2 + 1) =
        g.number target targetOffset n2 + (2 ^ 32) ^ n2 * x.toNat := by
    have hlow : h'.number target targetOffset n2 = g.number target targetOffset n2 := by
      refine LimbHeap.number_eq hput ?_
      simp only [region]
      omega
    rw [h'.number_add (by rw [hput.length]; omega), hx, hlow]
  rw [absDifferenceOdd, hw]
  simp only [Option.bind_eq_bind, Option.bind_some]
  by_cases hzero : w = 0
  · obtain ⟨less, g, hdiff, hval, hfoot⟩ := absDifference_run (by omega) ha hd'
    obtain ⟨h', hput, hlimb, hfoot'⟩ := LimbHeap.run_put
      (show targetOffset + n2 < (g target).length by rw [hfoot.length]; omega) w
    refine ⟨less, h', ?_, ?_, ?_⟩
    · rw [if_neg (not_not.mpr hzero), hdiff, Option.bind_some, hput]
      rfl
    · rw [hlast hfoot' hlimb (hfoot.length target), hsplit, hzero, toNat_zero_limb, Nat.mul_zero,
        Nat.add_zero, Nat.add_zero]
      exact hval
    · exact hfoot.join hfoot' (by omega) (by omega)
  · have hahead {i : ℕ} (hi : aOffset ≤ i) (hi' : i ≤ aOffset + (n2 + 1)) :
        ReadsAhead n2 target targetOffset a i := fun he => by
      have := hd he.symm
      omega
    obtain ⟨c, g, hsub, hc, hval, hfoot⟩ := subN_run
      (show targetOffset + n2 ≤ (h target).length by omega)
      (show aOffset + n2 ≤ (h a).length by omega) ha (hahead le_rfl (by omega))
      (hahead (by omega) le_rfl)
    obtain ⟨h', hput, hlimb, hfoot'⟩ := LimbHeap.run_put
      (show targetOffset + n2 < (g target).length by rw [hfoot.length]; omega) (w - c)
    refine ⟨false, h', ?_, ?_, ?_⟩
    · rw [if_pos hzero, hsub, Option.bind_some, hput]
      rfl
    · have hpos : w.toNat ≠ 0 := (BitVec.toNat_pos_of_ne_zero hzero).ne'
      have hw' := w.isLt
      have hlimb' : (w - c).toNat = w.toNat - c.toNat := by
        rw [BitVec.toNat_sub]
        omega
      show h.number a (aOffset + (n2 + 1)) n2 + _ = _
      rw [hlast hfoot' hlimb (hfoot.length target), hsplit, hlimb', Nat.mul_sub]
      have hle : (2 ^ 32) ^ n2 * c.toNat ≤ (2 ^ 32) ^ n2 * w.toNat :=
        Nat.mul_le_mul_left _ (by omega)
      omega
    · exact hfoot.join hfoot' (by omega) (by omega)

end Difference

/-- **Karatsuba's identity**: the mixed products from the other two and the product of the
differences. -/
lemma mixed_products {signA signB : Bool} {a₀ a₁ b₀ b₁ d e : ℕ} (hA : IsDifference signA a₀ a₁ d)
    (hB : IsDifference signB b₀ b₁ e) :
    (a₀ * b₁ + a₁ * b₀ : ℤ) =
      a₀ * b₀ + a₁ * b₁ + if (signA ^^ signB) = true then (d * e : ℤ) else -(d * e) := by
  cases signA <;> cases signB
  · obtain rfl : a₁ + d = a₀ := hA
    obtain rfl : b₁ + e = b₀ := hB
    simp only [Bool.xor_self, Bool.false_eq_true, if_false]
    push_cast
    ring
  · obtain rfl : a₁ + d = a₀ := hA
    obtain rfl : b₀ + e = b₁ := hB
    simp only [Bool.false_xor, if_true]
    push_cast
    ring
  · obtain rfl : a₀ + d = a₁ := hA
    obtain rfl : b₁ + e = b₀ := hB
    simp only [Bool.xor_false, if_true]
    push_cast
    ring
  · obtain rfl : a₀ + d = a₁ := hA
    obtain rfl : b₀ + e = b₁ := hB
    simp only [Bool.xor_self, Bool.false_eq_true, if_false]
    push_cast
    ring

/-! ## The three products -/

/-- The arguments of a product of `n` limbs each with `w` limbs of workspace: everything is inside
the arrays, and the parts written are apart from each other and from the operands. -/
structure Operands (h : LimbHeap) (target targetOffset a aOffset b bOffset n ws wOffset w : ℕ) :
    Prop where
  /-- The target is inside its array. -/
  target_le : targetOffset + 2 * n ≤ (h target).length
  /-- The first operand is inside its array. -/
  a_le : aOffset + n ≤ (h a).length
  /-- The second operand is inside its array. -/
  b_le : bOffset + n ≤ (h b).length
  /-- The workspace is inside its array. -/
  ws_le : wOffset + w ≤ (h ws).length
  /-- The target and the first operand. -/
  target_a : Apart target targetOffset (2 * n) a aOffset n
  /-- The target and the second operand. -/
  target_b : Apart target targetOffset (2 * n) b bOffset n
  /-- The target and the workspace. -/
  target_ws : Apart target targetOffset (2 * n) ws wOffset w
  /-- The workspace and the first operand. -/
  ws_a : Apart ws wOffset w a aOffset n
  /-- The workspace and the second operand. -/
  ws_b : Apart ws wOffset w b bOffset n

/-- The items that a product may change. -/
def written (target targetOffset n ws wOffset w : ℕ) : ℕ → ℕ → Prop := fun c k =>
  region target targetOffset (2 * n) c k ∨ region ws wOffset w c k

/-- A number that is apart from what a product may change. -/
lemma number_written {target targetOffset n ws wOffset w : ℕ} {h h' : LimbHeap}
    (hs : SameOutside (written target targetOffset n ws wOffset w) h h') {d i k : ℕ}
    (hdt : Apart target targetOffset (2 * n) d i k) (hdw : Apart ws wOffset w d i k) :
    h'.number d i k = h.number d i k := by
  refine LimbHeap.number_eq hs fun j hj hj' hw => ?_
  rcases hw with ⟨rfl, hw⟩ | ⟨rfl, hw⟩
  · have := hdt rfl
    omega
  · have := hdw rfl
    omega

/-- The routine multiplies operands of `n` limbs with `w` limbs of workspace. -/
def Multiplies (f : Product) (n w : ℕ) : Prop :=
  ∀ (target targetOffset a aOffset b bOffset ws wOffset : ℕ) (h : LimbHeap),
    Operands h target targetOffset a aOffset b bOffset n ws wOffset w →
    ∃ h' : LimbHeap, f target targetOffset a aOffset b bOffset n ws wOffset h = some h' ∧
      h'.number target targetOffset (2 * n) = h.number a aOffset n * h.number b bOffset n ∧
      SameOutside (written target targetOffset n ws wOffset w) h h'

section Products

variable {part : Product} {target targetOffset a aOffset b bOffset n2 n3 ws wOffset w : ℕ}
  {h : LimbHeap}

/-- **The three products.** -/
lemma karaProducts_run (h₃ : Multiplies part n3 w) (h₂ : Multiplies part n2 w) (hle : n2 ≤ n3)
    (hle' : n3 ≤ n2 + 1) (hpos : 1 ≤ n2)
    (hops : Operands h target targetOffset a aOffset b bOffset (n3 + n2) ws wOffset (2 * n3 + w)) :
    ∃ h' : LimbHeap,
      karaProducts part target targetOffset a aOffset b bOffset n2 n3 ws wOffset h = some h' ∧
      h'.number ws wOffset (2 * n3) =
        h.number target targetOffset n3 * h.number target (targetOffset + n3) n3 ∧
      h'.number target targetOffset (2 * n3) = h.number a aOffset n3 * h.number b bOffset n3 ∧
      h'.number target (targetOffset + 2 * n3) (2 * n2) =
        h.number a (aOffset + n3) n2 * h.number b (bOffset + n3) n2 ∧
      SameOutside (written target targetOffset (n3 + n2) ws wOffset (2 * n3 + w)) h h' := by
  obtain ⟨ht, ha, hb, hw, hta, htb, htw, hwa, hwb⟩ := hops
  obtain ⟨g₁, hrun₁, hval₁, hfoot₁⟩ := h₃ ws wOffset target targetOffset target
    (targetOffset + n3) ws (wOffset + 2 * n3) h {
      target_le := by omega
      a_le := by omega
      b_le := by omega
      ws_le := by omega
      target_a := htw.symm.sub (by omega) (by omega) (by omega) (by omega)
      target_b := htw.symm.sub (by omega) (by omega) (by omega) (by omega)
      target_ws := .of_le (by omega)
      ws_a := htw.symm.sub (by omega) (by omega) (by omega) (by omega)
      ws_b := htw.symm.sub (by omega) (by omega) (by omega) (by omega) }
  have hlen₁ := hfoot₁.length
  obtain ⟨g₂, hrun₂, hval₂, hfoot₂⟩ := h₃ target targetOffset a aOffset b bOffset ws
    (wOffset + 2 * n3) g₁ {
      target_le := by rw [hlen₁]; omega
      a_le := by rw [hlen₁]; omega
      b_le := by rw [hlen₁]; omega
      ws_le := by rw [hlen₁]; omega
      target_a := hta.sub (by omega) (by omega) (by omega) (by omega)
      target_b := htb.sub (by omega) (by omega) (by omega) (by omega)
      target_ws := htw.sub (by omega) (by omega) (by omega) (by omega)
      ws_a := hwa.sub (by omega) (by omega) (by omega) (by omega)
      ws_b := hwb.sub (by omega) (by omega) (by omega) (by omega) }
  have hlen₂ (d : ℕ) : (g₂ d).length = (h d).length := by rw [hfoot₂.length, hlen₁]
  obtain ⟨g₃, hrun₃, hval₃, hfoot₃⟩ := h₂ target (targetOffset + 2 * n3) a (aOffset + n3) b
    (bOffset + n3) ws (wOffset + 2 * n3) g₂ {
      target_le := by rw [hlen₂]; omega
      a_le := by rw [hlen₂]; omega
      b_le := by rw [hlen₂]; omega
      ws_le := by rw [hlen₂]; omega
      target_a := hta.sub (by omega) (by omega) (by omega) (by omega)
      target_b := htb.sub (by omega) (by omega) (by omega) (by omega)
      target_ws := htw.sub (by omega) (by omega) (by omega) (by omega)
      ws_a := hwa.sub (by omega) (by omega) (by omega) (by omega)
      ws_b := hwb.sub (by omega) (by omega) (by omega) (by omega) }
  -- the operands are not changed by the products before
  have hkeep₁ {d i n : ℕ} (hdw : Apart ws wOffset (2 * n3 + w) d i n) :
      g₁.number d i n = h.number d i n :=
    number_written hfoot₁ (hdw.left (by omega) (by omega)) (hdw.left (by omega) (by omega))
  have hkeep₂ {d i n : ℕ} (hdt : Apart target targetOffset (2 * (n3 + n2)) d i n)
      (hdw : Apart ws (wOffset + 2 * n3) w d i n) : g₂.number d i n = g₁.number d i n :=
    number_written hfoot₂ (hdt.left (by omega) (by omega)) hdw
  have hapart : Apart ws (wOffset + 2 * n3) w ws wOffset (2 * n3) := (Apart.of_le le_rfl).symm
  refine ⟨g₃, ?_, ?_, ?_, ?_, ?_⟩
  · simp only [karaProducts, hrun₁, hrun₂, Option.bind_eq_bind, Option.bind_some]
    exact hrun₃
  · rw [number_written hfoot₃ (htw.sub (by omega) (by omega) (by omega) (by omega)) hapart,
      hkeep₂ (htw.right (by omega) (by omega)) hapart, hval₁]
  · rw [number_written hfoot₃ (Apart.of_le le_rfl).symm
      (htw.symm.sub (by omega) (by omega) (by omega) (by omega)), hval₂,
      hkeep₁ (hwa.right (by omega) (by omega)), hkeep₁ (hwb.right (by omega) (by omega))]
  · rw [hval₃, hkeep₂ (hta.right (by omega) (by omega))
        (hwa.sub (by omega) (by omega) (by omega) (by omega)),
      hkeep₂ (htb.right (by omega) (by omega))
        (hwb.sub (by omega) (by omega) (by omega) (by omega)),
      hkeep₁ (hwa.right (by omega) (by omega)), hkeep₁ (hwb.right (by omega) (by omega))]
  · refine ((hfoot₁.mono ?_).trans (hfoot₂.mono ?_)).trans (hfoot₃.mono ?_) <;>
    · simp only [written, region]
      omega

end Products

/-! ## The mixed products -/

section Middle

variable {target targetOffset n ws wOffset : ℕ} {h : LimbHeap}

/-- A sum or a difference, up to a multiple of the next higher weight. -/
lemma signedN_run (sign : Bool) (ht : targetOffset + n ≤ (h target).length)
    (hw : wOffset + n ≤ (h ws).length) (hd : Apart target targetOffset n ws wOffset n) :
    ∃ (c : Natural32) (h' : LimbHeap),
      signedN sign ws wOffset target targetOffset ws wOffset n h = some (c, h') ∧ c.toNat ≤ 1 ∧
      (h'.number ws wOffset n : ℤ) = h.number target targetOffset n +
        (if sign = true then (h.number ws wOffset n : ℤ) else -h.number ws wOffset n) +
        (2 ^ 32) ^ n * (if sign = true then -(c.toNat : ℤ) else c.toNat) ∧
      SameOutside (region ws wOffset n) h h' := by
  have hahead : ReadsAhead n ws wOffset target targetOffset := fun he => by
    have := hd he
    omega
  cases sign with
  | true =>
    obtain ⟨c, h', hadd, hc, hval, hfoot⟩ := addN_run hw ht hw hahead (.refl _ _ _)
    refine ⟨c, h', hadd, hc, ?_, hfoot⟩
    simp only [if_true]
    have hcast := congrArg (Nat.cast : ℕ → ℤ) hval
    push_cast at hcast
    linarith
  | false =>
    obtain ⟨c, h', hsub, hc, hval, hfoot⟩ := subN_run hw ht hw hahead (.refl _ _ _)
    refine ⟨c, h', hsub, hc, ?_, hfoot⟩
    simp only [Bool.false_eq_true, if_false]
    have hcast := congrArg (Nat.cast : ℕ → ℤ) hval
    push_cast at hcast
    linarith

/-- A carry on two limbs, up to a multiple of the next higher weight. -/
lemma carryTwo_run {i : ℕ} (hi : i + 2 ≤ (h ws).length) (c : Natural32) (hc : c.toNat ≤ 1) :
    ∃ (k : ℕ) (h' : LimbHeap), carryTwo ws i c h = some h' ∧
      h'.number ws i 2 + (2 ^ 32) ^ 2 * k = h.number ws i 2 + c.toNat ∧
      SameOutside (region ws i 2) h h' := by
  by_cases hzero : c = 0
  · refine ⟨0, h, ?_, ?_, .refl _ _⟩
    · rw [carryTwo, if_neg (not_not.mpr hzero)]
    · rw [hzero, toNat_zero_limb, Nat.mul_zero]
  · have hone : c.toNat = 1 := by
      have hne : c.toNat ≠ 0 := (BitVec.toNat_pos_of_ne_zero hzero).ne'
      omega
    obtain ⟨x, hx, hnum⟩ := number_succ h (n := 1) (show i < (h ws).length by omega)
    obtain ⟨y, hy, hnumy⟩ := LimbHeap.exists_limb (show i + 1 < (h ws).length by omega)
    obtain ⟨g, hput, hfoot, hfirst, hrest⟩ := put_first (k := 1) hi (x + 1)
    have hx' := x.isLt
    have hsucc : (x + 1).toNat = (x.toNat + 1) % 2 ^ 32 := BitVec.toNat_add x 1
    have hsplit (f : LimbHeap) (hf : (f ws).length = (h ws).length) :
        f.number ws i 2 = f.number ws i 1 + 2 ^ 32 * f.number ws (i + 1) 1 := by
      have hadd := f.number_add (a := ws) (i := i) (m := 1) (n := 1) (by omega)
      rwa [pow_one] at hadd
    have hlen := hfoot.length ws
    rw [carryTwo, if_pos hzero, hx]
    simp only [Option.bind_eq_bind, Option.bind_some, hput]
    rw [hnum, hone, hnumy]
    by_cases hover : x + 1 = 0
    · obtain ⟨z, hz, hnumz⟩ := LimbHeap.exists_limb (show i + 1 < (g ws).length by omega)
      obtain ⟨h', hput', hlimb, hfoot'⟩ := LimbHeap.run_put
        (show i + 1 < (g ws).length by omega) (z + 1)
      have hzy : z.toNat = y.toNat := by rw [← hnumz, hrest, hnumy]
      have hz' := z.isLt
      have hsuccz : (z + 1).toNat = (z.toNat + 1) % 2 ^ 32 := BitVec.toNat_add z 1
      refine ⟨(z.toNat + 1) / 2 ^ 32, h', ?_, ?_, ?_⟩
      · rw [if_pos hover, hz, Option.bind_some, hput']
      · have hkeep : h'.number ws i 1 = g.number ws i 1 := by
          refine LimbHeap.number_eq hfoot' ?_
          simp only [region]
          omega
        rw [hsplit h' (by rw [hfoot'.length, hlen]), hkeep, hfirst, hlimb, hover, toNat_zero_limb]
        rw [hover, toNat_zero_limb] at hsucc
        omega
      · exact hfoot.join hfoot' (by omega) (by omega)
    · have hne : (x + 1).toNat ≠ 0 := (BitVec.toNat_pos_of_ne_zero hover).ne'
      refine ⟨0, g, ?_, ?_, ?_⟩
      · rw [if_neg hover]
        rfl
      · rw [hsplit g hlen, hfirst, hrest, hnumy]
        omega
      · refine hfoot.mono ?_
        simp only [region]
        omega

/-- **The mixed products, for an odd number of limbs**, up to a multiple of the next higher
weight. -/
lemma middleOdd_run (sign : Bool) {m : ℕ}
    (ht : targetOffset + (2 * m + 2) + 2 * m ≤ (h target).length)
    (hw : wOffset + (2 * m + 2) ≤ (h ws).length)
    (hd : Apart target targetOffset (2 * m + 2 + 2 * m) ws wOffset (2 * m + 2)) :
    ∃ (k : ℤ) (h' : LimbHeap),
      middleOdd sign target targetOffset (2 * m + 1) ws wOffset h = some h' ∧
      (h'.number ws wOffset (2 * m + 2) : ℤ) = h.number target targetOffset (2 * m + 2) +
        h.number target (targetOffset + (2 * m + 2)) (2 * m) +
        (if sign = true then (h.number ws wOffset (2 * m + 2) : ℤ)
          else -h.number ws wOffset (2 * m + 2)) + (2 ^ 32) ^ (2 * m + 2) * k ∧
      SameOutside (region ws wOffset (2 * m + 2)) h h' := by
  simp only [Apart] at hd
  obtain ⟨c₁, g₁, hrun₁, hc₁, hval₁, hfoot₁⟩ := signedN_run sign
    (show targetOffset + (2 * m + 2) ≤ (h target).length by omega) hw (by simp only [Apart]; omega)
  have hlen₁ := hfoot₁.length
  have hahead : ReadsAhead (2 * m) ws wOffset target (targetOffset + (2 * m + 2)) := fun he => by
    have := hd he
    omega
  obtain ⟨c₂, g₂, hrun₂, hc₂, hval₂, hfoot₂⟩ := addN_run
    (show wOffset + 2 * m ≤ (g₁ ws).length by rw [hlen₁]; omega)
    (show targetOffset + (2 * m + 2) + 2 * m ≤ (g₁ target).length by rw [hlen₁]; omega)
    (show wOffset + 2 * m ≤ (g₁ ws).length by rw [hlen₁]; omega) hahead (.refl _ _ _)
  have hlen₂ (d : ℕ) : (g₂ d).length = (h d).length := by rw [hfoot₂.length, hlen₁]
  obtain ⟨k, h', hrun₃, hval₃, hfoot₃⟩ := carryTwo_run
    (show wOffset + 2 * m + 2 ≤ (g₂ ws).length by rw [hlen₂]; omega) c₂ hc₂
  have hhigh : g₁.number target (targetOffset + (2 * m + 2)) (2 * m) =
      h.number target (targetOffset + (2 * m + 2)) (2 * m) := by
    refine LimbHeap.number_eq hfoot₁ ?_
    simp only [region]
    omega
  have htwo : g₂.number ws (wOffset + 2 * m) 2 = g₁.number ws (wOffset + 2 * m) 2 := by
    refine LimbHeap.number_eq hfoot₂ ?_
    simp only [region]
    omega
  have hlow : h'.number ws wOffset (2 * m) = g₂.number ws wOffset (2 * m) := by
    refine LimbHeap.number_eq hfoot₃ ?_
    simp only [region]
    omega
  have hsplit₁ : g₁.number ws wOffset (2 * m + 2) = g₁.number ws wOffset (2 * m) +
      (2 ^ 32) ^ (2 * m) * g₁.number ws (wOffset + 2 * m) 2 :=
    g₁.number_add (by rw [hlen₁]; omega)
  have hsplit₃ : h'.number ws wOffset (2 * m + 2) = h'.number ws wOffset (2 * m) +
      (2 ^ 32) ^ (2 * m) * h'.number ws (wOffset + 2 * m) 2 :=
    h'.number_add (by rw [hfoot₃.length, hlen₂]; omega)
  refine ⟨(if sign = true then -(c₁.toNat : ℤ) else c₁.toNat) - k, h', ?_, ?_, ?_⟩
  · simp only [middleOdd, hrun₁, Option.bind_eq_bind, Option.bind_some]
    show (addN ws wOffset target (targetOffset + (2 * m + 2)) ws wOffset (2 * m) g₁).bind _ = _
    rw [hrun₂]
    exact hrun₃
  · rw [hhigh] at hval₂
    rw [htwo] at hval₃
    rw [hlow] at hsplit₃
    have hpow : (2 ^ 32 : ℤ) ^ (2 * m + 2) = (2 ^ 32) ^ (2 * m) * (2 ^ 32) ^ 2 := pow_add _ _ _
    have hz₁ : (g₁.number ws wOffset (2 * m + 2) : ℤ) = g₁.number ws wOffset (2 * m) +
        (2 ^ 32) ^ (2 * m) * g₁.number ws (wOffset + 2 * m) 2 := by exact_mod_cast hsplit₁
    have hz₂ : (g₂.number ws wOffset (2 * m) : ℤ) + (2 ^ 32) ^ (2 * m) * c₂.toNat =
        h.number target (targetOffset + (2 * m + 2)) (2 * m) + g₁.number ws wOffset (2 * m) := by
      exact_mod_cast hval₂
    have hz₃ : (h'.number ws (wOffset + 2 * m) 2 : ℤ) + (2 ^ 32) ^ 2 * k =
        g₁.number ws (wOffset + 2 * m) 2 + c₂.toNat := by exact_mod_cast hval₃
    have hz₄ : (h'.number ws wOffset (2 * m + 2) : ℤ) = g₂.number ws wOffset (2 * m) +
        (2 ^ 32) ^ (2 * m) * h'.number ws (wOffset + 2 * m) 2 := by exact_mod_cast hsplit₃
    rw [hpow] at hval₁ ⊢
    linear_combination hz₄ + hz₂ - hz₁ + hval₁ + (2 ^ 32 : ℤ) ^ (2 * m) * hz₃
  · refine ((hfoot₁.mono ?_).trans (hfoot₂.mono ?_)).trans (hfoot₃.mono ?_) <;>
    · simp only [region]
      omega

end Middle

/-- **The mixed products, for an even number of limbs.** -/
lemma middleEven_run (sign : Bool) {target targetOffset n ws wOffset : ℕ} {h : LimbHeap}
    (ht : targetOffset + n + n ≤ (h target).length) (hw : wOffset + n ≤ (h ws).length)
    (hd : Apart target targetOffset (n + n) ws wOffset n) {M : ℕ}
    (hM : (M : ℤ) = h.number target targetOffset n + h.number target (targetOffset + n) n +
      if sign = true then (h.number ws wOffset n : ℤ) else -h.number ws wOffset n) :
    ∃ (w : Natural32) (h' : LimbHeap),
      middleEven sign target targetOffset n ws wOffset h = some (w, h') ∧ w.toNat ≤ 2 ∧
      h'.number ws wOffset n + (2 ^ 32) ^ n * w.toNat = M ∧
      SameOutside (region ws wOffset n) h h' := by
  simp only [Apart] at hd
  obtain ⟨c₁, g₁, hrun₁, hc₁, hval₁, hfoot₁⟩ := signedN_run sign
    (show targetOffset + n ≤ (h target).length by omega) hw (by simp only [Apart]; omega)
  have hlen₁ := hfoot₁.length
  have hahead : ReadsAhead n ws wOffset target (targetOffset + n) := fun he => by
    have := hd he
    omega
  obtain ⟨c₂, h', hrun₂, hc₂, hval₂, hfoot₂⟩ := addN_run
    (show wOffset + n ≤ (g₁ ws).length by rw [hlen₁]; omega)
    (show targetOffset + n + n ≤ (g₁ target).length by rw [hlen₁]; omega)
    (show wOffset + n ≤ (g₁ ws).length by rw [hlen₁]; omega) hahead (.refl _ _ _)
  have hhigh : g₁.number target (targetOffset + n) n = h.number target (targetOffset + n) n := by
    refine LimbHeap.number_eq hfoot₁ ?_
    simp only [region]
    omega
  have hlt : h'.number ws wOffset n < (2 ^ 32) ^ n :=
    h'.number_lt (by rw [hfoot₂.length, hlen₁]; exact hw)
  rw [hhigh] at hval₂
  have hz₂ : (h'.number ws wOffset n : ℤ) + (2 ^ 32) ^ n * c₂.toNat =
      h.number target (targetOffset + n) n + g₁.number ws wOffset n := by exact_mod_cast hval₂
  refine ⟨(if sign then c₁ else 0 - c₁) + c₂, h', ?_, ?_⟩
  · simp only [middleEven, hrun₁, hrun₂, Option.bind_eq_bind, Option.bind_some]
    rfl
  refine and_assoc.mp ⟨?_, hfoot₁.trans hfoot₂⟩
  cases sign with
  | true =>
    simp only [if_true] at hM hval₁ ⊢
    have hsum : (c₁ + c₂).toNat = c₁.toNat + c₂.toNat := by
      rw [BitVec.toNat_add, Nat.mod_eq_of_lt (by omega)]
    refine ⟨by omega, ?_⟩
    have hz : (h'.number ws wOffset n : ℤ) + (2 ^ 32) ^ n * (c₁.toNat + c₂.toNat) = M := by
      linear_combination hz₂ + hval₁ - hM
    rw [hsum]
    exact_mod_cast hz
  | false =>
    simp only [Bool.false_eq_true, if_false] at hM hval₁ ⊢
    have hz : (h'.number ws wOffset n : ℤ) + (2 ^ 32) ^ n * c₂.toNat =
        M + (2 ^ 32) ^ n * c₁.toNat := by
      linear_combination hz₂ + hval₁ - hM
    have hz' : h'.number ws wOffset n + (2 ^ 32) ^ n * c₂.toNat = M + (2 ^ 32) ^ n * c₁.toNat := by
      exact_mod_cast hz
    -- the sum is not negative, so a borrow is made good by the carry
    have hle : c₁.toNat ≤ c₂.toNat := by
      by_contra hgt
      have h₁ : c₁.toNat = 1 := by omega
      have h₂ : c₂.toNat = 0 := by omega
      rw [h₁, h₂] at hz'
      omega
    have hsum : (0 - c₁ + c₂).toNat = c₂.toNat - c₁.toNat := by
      have h₀ : (0 - c₁).toNat = (2 ^ 32 - c₁.toNat + 0) % 2 ^ 32 := BitVec.toNat_sub 0 c₁
      rw [BitVec.toNat_add, h₀]
      omega
    refine ⟨by omega, ?_⟩
    rw [hsum, Nat.mul_sub]
    have hmul : (2 ^ 32) ^ n * c₁.toNat ≤ (2 ^ 32) ^ n * c₂.toNat := Nat.mul_le_mul_left _ hle
    omega

/-! ## Adding the mixed products -/

/-- The carry of a sum in the middle of a number fits in the rest of the number, if the whole does:
`x` and `w` are added to the middle part `v` and to the high part `u`. -/
lemma carry_fits {P S R s v u v' x w c : ℕ} (hsum : v' + S * c = v + x)
    (hlt : s + P * (v + S * u) + P * (x + S * w) < P * (S * R)) :
    u + (w + c) < R ∧
      s + P * (v' + S * (u + (w + c))) = s + P * (v + S * u) + P * (x + S * w) := by
  have hval : s + P * (v' + S * (u + (w + c))) = s + P * (v + S * u) + P * (x + S * w) := by
    calc s + P * (v' + S * (u + (w + c))) = s + P * ((v' + S * c) + S * (u + w)) := by ring
      _ = s + P * (v + S * u) + P * (x + S * w) := by
        rw [hsum]
        ring
  refine ⟨?_, hval⟩
  have hle : P * (S * (u + (w + c))) ≤ s + P * (v' + S * (u + (w + c))) :=
    (Nat.mul_le_mul_left _ (Nat.le_add_left _ _)).trans (Nat.le_add_left _ _)
  exact Nat.lt_of_mul_lt_mul_left (Nat.lt_of_mul_lt_mul_left
    (lt_of_le_of_lt hle (by rwa [hval])))

section AddMiddle

variable {target targetOffset p m r : ℕ} {h : LimbHeap}

/-- A number in three parts. -/
lemma number_three (h : LimbHeap) (ht : targetOffset + (p + (m + r)) ≤ (h target).length) :
    h.number target targetOffset (p + (m + r)) = h.number target targetOffset p +
      (2 ^ 32) ^ p * (h.number target (targetOffset + p) m +
        (2 ^ 32) ^ m * h.number target (targetOffset + p + m) r) := by
  rw [h.number_add (by omega), h.number_add (by omega)]

/-- What is left when the middle part and then the high part were written. -/
lemma number_three_run {g h' : LimbHeap}
    (ht : targetOffset + (p + (m + r)) ≤ (h target).length)
    (hfoot : SameOutside (region target (targetOffset + p) m) h g)
    (hfoot' : SameOutside (region target (targetOffset + p + m) r) g h') :
    h'.number target targetOffset (p + (m + r)) = h.number target targetOffset p +
        (2 ^ 32) ^ p * (g.number target (targetOffset + p) m +
          (2 ^ 32) ^ m * h'.number target (targetOffset + p + m) r) ∧
      SameOutside (region target targetOffset (p + (m + r))) h h' := by
  have hlow : h'.number target targetOffset p = h.number target targetOffset p := by
    rw [LimbHeap.number_eq hfoot', LimbHeap.number_eq hfoot] <;>
    · simp only [region]
      omega
  have hmid : h'.number target (targetOffset + p) m = g.number target (targetOffset + p) m := by
    refine LimbHeap.number_eq hfoot' ?_
    simp only [region]
    omega
  constructor
  · rw [number_three h' (by rw [hfoot'.length, hfoot.length]; exact ht), hlow, hmid]
  · exact hfoot.join hfoot' (by omega) (by omega)

/-- **The sum in the middle of a number**, with a limb for the part behind it. -/
lemma addInto_run {ws wOffset : ℕ} (ht : targetOffset + (p + (m + r)) ≤ (h target).length)
    (hw : wOffset + m ≤ (h ws).length)
    (hd : Apart target targetOffset (p + (m + r)) ws wOffset m) {w : ℕ}
    (hlt : h.number target targetOffset (p + (m + r)) + (2 ^ 32) ^ p *
      (h.number ws wOffset m + (2 ^ 32) ^ m * w) < (2 ^ 32) ^ (p + (m + r))) :
    ∃ (c : Natural32) (g : LimbHeap),
      addN target (targetOffset + p) target (targetOffset + p) ws wOffset m h = some (c, g) ∧
      c.toNat ≤ 1 ∧
      g.number target (targetOffset + p + m) r + (w + c.toNat) < (2 ^ 32) ^ r ∧
      (g target).length = (h target).length ∧
      ∀ h' : LimbHeap, SameOutside (region target (targetOffset + p + m) r) g h' →
        h'.number target (targetOffset + p + m) r =
          g.number target (targetOffset + p + m) r + (w + c.toNat) →
        h'.number target targetOffset (p + (m + r)) =
          h.number target targetOffset (p + (m + r)) + (2 ^ 32) ^ p *
            (h.number ws wOffset m + (2 ^ 32) ^ m * w) ∧
        SameOutside (region target targetOffset (p + (m + r))) h h' := by
  have hahead : ReadsAhead m target (targetOffset + p) ws wOffset := fun he => by
    have := hd he.symm
    omega
  have hroom : targetOffset + p + m ≤ (h target).length := by omega
  obtain ⟨c, g, hadd, hc, hsum, hfoot⟩ := addN_run hroom hroom hw (.refl _ _ _) hahead
  have hhigh : g.number target (targetOffset + p + m) r =
      h.number target (targetOffset + p + m) r := by
    refine LimbHeap.number_eq hfoot ?_
    simp only [region]
    omega
  rw [pow_add, pow_add, number_three h ht] at hlt
  obtain ⟨hfit, hval⟩ := carry_fits hsum hlt
  refine ⟨c, g, hadd, hc, by rwa [hhigh], hfoot.length target, fun h' hfoot' hr => ?_⟩
  obtain ⟨hnum, hboth⟩ := number_three_run ht hfoot hfoot'
  refine ⟨?_, hboth⟩
  rw [hnum, hr, hhigh, hval, number_three h ht]

end AddMiddle

/-- **The mixed products are added, for an odd number of limbs.** -/
lemma addMiddleOdd_run {target targetOffset n n3 r ws wOffset : ℕ} {h : LimbHeap}
    (ht : targetOffset + (n3 + ((n + 1) + r)) ≤ (h target).length)
    (hw : wOffset + (n + 1) ≤ (h ws).length)
    (hd : Apart target targetOffset (n3 + ((n + 1) + r)) ws wOffset (n + 1))
    (hlt : h.number target targetOffset (n3 + ((n + 1) + r)) +
      (2 ^ 32) ^ n3 * h.number ws wOffset (n + 1) < (2 ^ 32) ^ (n3 + ((n + 1) + r))) :
    ∃ h' : LimbHeap, addMiddleOdd target targetOffset n n3 ws wOffset h = some h' ∧
      h'.number target targetOffset (n3 + ((n + 1) + r)) =
        h.number target targetOffset (n3 + ((n + 1) + r)) +
          (2 ^ 32) ^ n3 * h.number ws wOffset (n + 1) ∧
      SameOutside (region target targetOffset (n3 + ((n + 1) + r))) h h' := by
  have hnone : h.number ws wOffset (n + 1) + (2 ^ 32) ^ (n + 1) * 0 =
      h.number ws wOffset (n + 1) := by rw [Nat.mul_zero, Nat.add_zero]
  obtain ⟨c, g, hadd, hc, hfit, hlen, hafter⟩ := addInto_run (w := 0) ht hw hd
    (by rwa [hnone])
  rw [hnone] at hafter
  rw [Nat.zero_add] at hfit hafter
  have hstart : targetOffset + (n + 1) + n3 = targetOffset + n3 + (n + 1) := by omega
  simp only [addMiddleOdd, hadd, Option.bind_eq_bind, Option.bind_some, hstart]
  by_cases hzero : c = 0
  · have hcarry : c.toNat = 0 := by rw [hzero, toNat_zero_limb]
    obtain ⟨hval, hfoot⟩ := hafter g (.refl _ _) (by omega)
    exact ⟨g, by rw [if_neg (not_not.mpr hzero)]; rfl, hval, hfoot⟩
  · have hone : c.toNat = 1 := by
      have hne : c.toNat ≠ 0 := (BitVec.toNat_pos_of_ne_zero hzero).ne'
      omega
    rw [hone] at hfit hafter
    have hroom : targetOffset + n3 + (n + 1) + r ≤ (g target).length := by
      rw [hlen]
      omega
    obtain ⟨h', hloop, hval, hfoot⟩ := incrLoop_run hroom hfit
      (n := (g target).length - (targetOffset + n3 + (n + 1))) (by omega)
    obtain ⟨hval', hfoot'⟩ := hafter h' hfoot hval
    exact ⟨h', by rw [if_pos hzero]; exact hloop, hval', hfoot'⟩

/-- **The mixed products are added, for an even number of limbs.** -/
lemma addMiddleEven_run {target targetOffset n n2 r ws wOffset : ℕ} {h : LimbHeap}
    (ht : targetOffset + (n2 + (n + (r + 1))) ≤ (h target).length)
    (hw : wOffset + n ≤ (h ws).length)
    (hd : Apart target targetOffset (n2 + (n + (r + 1))) ws wOffset n) {w : Natural32}
    (hw2 : w.toNat ≤ 2)
    (hlt : h.number target targetOffset (n2 + (n + (r + 1))) + (2 ^ 32) ^ n2 *
      (h.number ws wOffset n + (2 ^ 32) ^ n * w.toNat) < (2 ^ 32) ^ (n2 + (n + (r + 1)))) :
    ∃ h' : LimbHeap, addMiddleEven w target targetOffset n n2 ws wOffset h = some h' ∧
      h'.number target targetOffset (n2 + (n + (r + 1))) =
        h.number target targetOffset (n2 + (n + (r + 1))) + (2 ^ 32) ^ n2 *
          (h.number ws wOffset n + (2 ^ 32) ^ n * w.toNat) ∧
      SameOutside (region target targetOffset (n2 + (n + (r + 1)))) h h' := by
  obtain ⟨c, g, hadd, hc, hfit, hlen, hafter⟩ := addInto_run ht hw hd hlt
  have hsum : (w + c).toNat = w.toNat + c.toNat := by
    rw [BitVec.toNat_add, Nat.mod_eq_of_lt (by omega)]
  rw [← hsum] at hfit
  have hroom : targetOffset + n2 + n + (r + 1) ≤ (g target).length := by
    rw [hlen]
    omega
  obtain ⟨h', hincr, hval, hfoot⟩ := incrU_run hroom (w + c) hfit
  rw [hsum] at hval
  obtain ⟨hval', hfoot'⟩ := hafter h' hfoot hval
  refine ⟨h', ?_, hval', hfoot'⟩
  simp only [addMiddleEven, hadd, Option.bind_eq_bind, Option.bind_some]
  exact hincr

/-! ## One level of the recursion -/

/-- More workspace does no harm. -/
lemma Multiplies.mono {f : Product} {n w w' : ℕ} (hf : Multiplies f n w) (hw : w ≤ w') :
    Multiplies f n w' := by
  intro target targetOffset a aOffset b bOffset ws wOffset h hops
  obtain ⟨ht, ha, hb, hw', hta, htb, htw, hwa, hwb⟩ := hops
  simp only [Apart] at hta htb htw hwa hwb
  obtain ⟨h', hrun, hval, hfoot⟩ := hf target targetOffset a aOffset b bOffset ws wOffset h
    (by constructor <;> first | omega | (intro he; omega))
  refine ⟨h', hrun, hval, hfoot.mono ?_⟩
  simp only [written, region]
  omega

/-- A number below the modulus is known up to a multiple of it. -/
lemma eq_of_add_mul {u v q : ℕ} {k : ℤ} (hu : u < q) (hv : v < q) (h : (u : ℤ) = v + q * k) :
    u = v := by
  have hmod : (u : ℤ) % q = (v : ℤ) % q := by rw [h, Int.add_mul_emod_self_left]
  rw [Int.emod_eq_of_lt (by omega) (by omega), Int.emod_eq_of_lt (by omega) (by omega)] at hmod
  exact_mod_cast hmod

/-- The routine leaves the difference of `n3` limbs and the `n2` limbs behind them. -/
def Differs (f : (target targetOffset a aOffset n2 n3 : ℕ) → LimbHeap → Option (Bool × LimbHeap))
    (n2 n3 : ℕ) : Prop :=
  ∀ (target targetOffset a aOffset : ℕ) (h : LimbHeap), targetOffset + n3 ≤ (h target).length →
    aOffset + n3 + n2 ≤ (h a).length → Apart target targetOffset n3 a aOffset (n3 + n2) →
    ∃ (less : Bool) (h' : LimbHeap), f target targetOffset a aOffset n2 n3 h = some (less, h') ∧
      IsDifference less (h.number a aOffset n3) (h.number a (aOffset + n3) n2)
        (h'.number target targetOffset n3) ∧
      SameOutside (region target targetOffset n3) h h'

lemma differs_absDifference (n2 : ℕ) : Differs absDifference n2 n2 :=
  fun _ _ _ _ _ ht ha hd => absDifference_run ht ha hd

lemma differs_absDifferenceOdd (n2 : ℕ) : Differs absDifferenceOdd n2 (n2 + 1) :=
  fun _ _ _ _ _ ht ha hd => absDifferenceOdd_run ht ha hd

section Level

variable {part : Product} {w n2 n3 : ℕ}
  {f : (target targetOffset a aOffset n2 n3 : ℕ) → LimbHeap → Option (Bool × LimbHeap)}
  {target targetOffset a aOffset b bOffset ws wOffset : ℕ} {h : LimbHeap}

/-- The two differences. -/
lemma differences_run (hdiff : Differs f n2 n3) (hpos : 1 ≤ n2)
    (hops : Operands h target targetOffset a aOffset b bOffset (n3 + n2) ws wOffset w)
    (hle : n3 ≤ n2 + 1) :
    ∃ (signA signB : Bool) (g₁ g₂ : LimbHeap),
      f target targetOffset a aOffset n2 n3 h = some (signA, g₁) ∧
      f target (targetOffset + n3) b bOffset n2 n3 g₁ = some (signB, g₂) ∧
      IsDifference signA (h.number a aOffset n3) (h.number a (aOffset + n3) n2)
        (g₂.number target targetOffset n3) ∧
      IsDifference signB (h.number b bOffset n3) (h.number b (bOffset + n3) n2)
        (g₂.number target (targetOffset + n3) n3) ∧
      SameOutside (region target targetOffset (2 * (n3 + n2))) h g₂ := by
  obtain ⟨ht, ha, hb, hw, hta, htb, htw, hwa, hwb⟩ := hops
  obtain ⟨signA, g₁, hrun₁, hdiffA, hfoot₁⟩ := hdiff target targetOffset a aOffset h (by omega)
    (by omega) (hta.sub (by omega) (by omega) (by omega) (by omega))
  obtain ⟨signB, g₂, hrun₂, hdiffB, hfoot₂⟩ := hdiff target (targetOffset + n3) b bOffset g₁
    (by rw [hfoot₁.length]; omega) (by rw [hfoot₁.length]; omega)
    (htb.sub (by omega) (by omega) (by omega) (by omega))
  refine ⟨signA, signB, g₁, g₂, hrun₁, hrun₂, ?_, ?_, ?_⟩
  · rw [LimbHeap.number_apart hfoot₂ (Apart.of_le le_rfl).symm]
    exact hdiffA
  · rw [LimbHeap.number_apart hfoot₁ (htb.sub (by omega) (by omega) (by omega) (by omega)),
      LimbHeap.number_apart hfoot₁ (htb.sub (by omega) (by omega) (by omega) (by omega))] at hdiffB
    exact hdiffB
  · exact hfoot₁.join hfoot₂ (by omega) (by omega)

/-- **The differences and the products.** The product of the operands is made of the three products
and a number `M`, the sum of the mixed products. -/
lemma halves_run (hdiff : Differs f n2 n3) (h₃ : Multiplies part n3 w) (h₂ : Multiplies part n2 w)
    (hpos : 1 ≤ n2) (hle : n2 ≤ n3) (hle' : n3 ≤ n2 + 1)
    (hops : Operands h target targetOffset a aOffset b bOffset (n3 + n2) ws wOffset (2 * n3 + w)) :
    ∃ (signA signB : Bool) (g₁ g₂ g₃ : LimbHeap) (M : ℕ),
      f target targetOffset a aOffset n2 n3 h = some (signA, g₁) ∧
      f target (targetOffset + n3) b bOffset n2 n3 g₁ = some (signB, g₂) ∧
      karaProducts part target targetOffset a aOffset b bOffset n2 n3 ws wOffset g₂ = some g₃ ∧
      (M : ℤ) = g₃.number target targetOffset (2 * n3) +
        g₃.number target (targetOffset + 2 * n3) (2 * n2) +
        (if (signA ^^ signB) = true then (g₃.number ws wOffset (2 * n3) : ℤ)
          else -g₃.number ws wOffset (2 * n3)) ∧
      M < 2 * ((2 ^ 32) ^ n2 * (2 ^ 32) ^ n3) ∧
      h.number a aOffset (n3 + n2) * h.number b bOffset (n3 + n2) =
        g₃.number target targetOffset (2 * (n3 + n2)) + (2 ^ 32) ^ n3 * M ∧
      SameOutside (written target targetOffset (n3 + n2) ws wOffset (2 * n3 + w)) h g₃ := by
  obtain ⟨signA, signB, g₁, g₂, hrun₁, hrun₂, hdiffA, hdiffB, hfoot⟩ :=
    differences_run hdiff hpos hops hle'
  obtain ⟨ht, ha, hb, hw, hta, htb, htw, hwa, hwb⟩ := hops
  have hlen := hfoot.length
  obtain ⟨g₃, hrun₃, hprod, hlow, hhigh, hfoot₃⟩ := karaProducts_run h₃ h₂ hle hle' hpos
    (Operands.mk (h := g₂) (by rwa [hlen]) (by rwa [hlen]) (by rwa [hlen]) (by rwa [hlen]) hta htb
      htw hwa hwb)
  have hkeep {d i k : ℕ} (hd : Apart target targetOffset (2 * (n3 + n2)) d i k) :
      g₂.number d i k = h.number d i k := LimbHeap.number_apart hfoot hd
  rw [hkeep (hta.right (by omega) (by omega)), hkeep (htb.right (by omega) (by omega))]
    at hlow hhigh
  have hA₀ := h.number_lt (show aOffset + n3 ≤ (h a).length by omega)
  have hA₁ := h.number_lt (show aOffset + n3 + n2 ≤ (h a).length by omega)
  have hB₀ := h.number_lt (show bOffset + n3 ≤ (h b).length by omega)
  have hB₁ := h.number_lt (show bOffset + n3 + n2 ≤ (h b).length by omega)
  refine ⟨signA, signB, g₁, g₂, g₃, h.number a aOffset n3 * h.number b (bOffset + n3) n2 +
    h.number a (aOffset + n3) n2 * h.number b bOffset n3, hrun₁, hrun₂, hrun₃, ?_, ?_, ?_, ?_⟩
  · have hmixed := mixed_products hdiffA hdiffB
    rw [hprod, hlow, hhigh]
    push_cast
    exact hmixed
  · have h₁ := Nat.mul_lt_mul'' hA₀ hB₁
    have h₂ := Nat.mul_lt_mul'' hA₁ hB₀
    rw [Nat.mul_comm ((2 ^ 32) ^ n3)] at h₁
    omega
  · have hlen₃ : (g₃ target).length = (h target).length := by rw [hfoot₃.length, hlen]
    rw [h.number_add (by omega), h.number_add (by omega), Nat.mul_add 2, g₃.number_add (by omega),
      hlow, hhigh, Nat.two_mul n3, pow_add]
    ring
  · refine (hfoot.mono ?_).trans hfoot₃
    simp only [written, region]
    omega

end Level

/-- **One level for an odd number of limbs.** -/
lemma karaOdd_run {part : Product} {w m : ℕ} (hm : 1 ≤ m) (h₃ : Multiplies part (m + 1) w)
    (h₂ : Multiplies part m w) : Multiplies (karaOdd part) (m + 1 + m) (2 * (m + 1) + w) := by
  intro target targetOffset a aOffset b bOffset ws wOffset h hops
  obtain ⟨signA, signB, g₁, g₂, g₃, M, hrun₁, hrun₂, hrun₃, hmixed, hlt, hprod, hfoot⟩ :=
    halves_run (differs_absDifferenceOdd m) h₃ h₂ hm (by omega) le_rfl hops
  obtain ⟨ht, ha, hb, hw, hta, htb, htw, hwa, hwb⟩ := hops
  have hlen := hfoot.length
  have hn1 : 2 * (m + 1) = 2 * m + 2 := by omega
  obtain ⟨k, g₄, hrun₄, hmid, hfoot₄⟩ := middleOdd_run (h := g₃) (m := m) (signA ^^ signB)
    (show targetOffset + (2 * m + 2) + 2 * m ≤ (g₃ target).length by rw [hlen]; omega)
    (show wOffset + (2 * m + 2) ≤ (g₃ ws).length by rw [hlen]; omega)
    (htw.sub le_rfl (by omega) le_rfl (by omega))
  have hlen₄ (d : ℕ) : (g₄ d).length = (h d).length := by rw [hfoot₄.length, hlen]
  -- the sum is known up to a multiple of the weight behind it, and is smaller
  have hM : g₄.number ws wOffset (2 * m + 2) = M := by
    have hpow : (2 ^ 32) ^ (2 * m + 2) = 2 ^ 32 * ((2 ^ 32) ^ m * (2 ^ 32) ^ (m + 1)) := by
      rw [show 2 * m + 2 = 1 + (m + (m + 1)) by omega, pow_add, pow_add, pow_one]
    refine eq_of_add_mul (q := (2 ^ 32) ^ (2 * m + 2)) (k := k)
      (g₄.number_lt (by rw [hlen₄]; omega)) (by rw [hpow]; omega) ?_
    rw [hn1] at hmixed
    rw [hmid, hmixed]
    push_cast
    ring
  have hsize : 2 * (m + 1 + m) = m + 1 + ((m + 1 + m + 1) + (m - 1)) := by omega
  have hnum : g₄.number target targetOffset (2 * (m + 1 + m)) =
      g₃.number target targetOffset (2 * (m + 1 + m)) :=
    LimbHeap.number_apart hfoot₄ (htw.symm.left le_rfl (by omega))
  have hX : g₄.number ws wOffset (m + 1 + m + 1) = M := by
    rw [show m + 1 + m + 1 = 2 * m + 2 by omega, hM]
  have hbound : h.number a aOffset (m + 1 + m) * h.number b bOffset (m + 1 + m) <
      (2 ^ 32) ^ (2 * (m + 1 + m)) := by
    rw [Nat.two_mul, pow_add]
    exact Nat.mul_lt_mul'' (h.number_lt ha) (h.number_lt hb)
  rw [hprod, ← hnum, hsize] at hbound
  have hroom : wOffset + (m + 1 + m + 1) ≤ (g₄ ws).length := by
    rw [hlen₄]
    omega
  have hapart : Apart target targetOffset (2 * (m + 1 + m)) ws wOffset (m + 1 + m + 1) :=
    htw.right le_rfl (by omega)
  rw [hsize] at hapart
  obtain ⟨g₅, hrun₅, hval, hfoot₅⟩ := addMiddleOdd_run (by rw [hlen₄, ← hsize]; exact ht) hroom
    hapart (by rw [hX]; exact hbound)
  refine ⟨g₅, ?_, ?_, ?_⟩
  · have hhalf : (m + 1 + m) / 2 = m := by omega
    have hrest : m + 1 + m - m = m + 1 := by omega
    rw [show 2 * m + 1 = m + 1 + m by omega] at hrun₄
    simp only [karaOdd, hhalf, hrest, hrun₁, hrun₂, hrun₃, hrun₄, Option.bind_eq_bind,
      Option.bind_some]
    exact hrun₅
  · rw [hprod, ← hnum, hsize, hval, hX]
  · rw [← hsize] at hfoot₅
    refine (hfoot.trans (hfoot₄.mono ?_)).trans (hfoot₅.mono ?_) <;>
    · simp only [written, region]
      omega

/-- **One level for an even number of limbs.** -/
lemma karaEven_run {part : Product} {w m : ℕ} (hm : 1 ≤ m) (hpart : Multiplies part m w) :
    Multiplies (karaEven part) (m + m) (2 * m + w) := by
  intro target targetOffset a aOffset b bOffset ws wOffset h hops
  obtain ⟨signA, signB, g₁, g₂, g₃, M, hrun₁, hrun₂, hrun₃, hmixed, hlt, hprod, hfoot⟩ :=
    halves_run (differs_absDifference m) hpart hpart hm le_rfl (by omega) hops
  obtain ⟨ht, ha, hb, hw, hta, htb, htw, hwa, hwb⟩ := hops
  have hlen := hfoot.length
  rw [Nat.two_mul m] at hmixed
  obtain ⟨x, g₄, hrun₄, hx, hmid, hfoot₄⟩ := middleEven_run (h := g₃) (signA ^^ signB)
    (show targetOffset + (m + m) + (m + m) ≤ (g₃ target).length by rw [hlen]; omega)
    (show wOffset + (m + m) ≤ (g₃ ws).length by rw [hlen]; omega)
    (htw.sub le_rfl (by omega) le_rfl (by omega)) hmixed
  have hlen₄ (d : ℕ) : (g₄ d).length = (h d).length := by rw [hfoot₄.length, hlen]
  have hsize : 2 * (m + m) = m + ((m + m) + (m - 1 + 1)) := by omega
  have hnum : g₄.number target targetOffset (2 * (m + m)) =
      g₃.number target targetOffset (2 * (m + m)) :=
    LimbHeap.number_apart hfoot₄ (htw.symm.left le_rfl (by omega))
  have hbound : h.number a aOffset (m + m) * h.number b bOffset (m + m) <
      (2 ^ 32) ^ (2 * (m + m)) := by
    rw [Nat.two_mul (m + m), pow_add]
    exact Nat.mul_lt_mul'' (h.number_lt ha) (h.number_lt hb)
  rw [hprod, ← hnum, hsize] at hbound
  have hroom : wOffset + (m + m) ≤ (g₄ ws).length := by
    rw [hlen₄]
    omega
  have hapart : Apart target targetOffset (2 * (m + m)) ws wOffset (m + m) :=
    htw.right le_rfl (by omega)
  rw [hsize] at hapart
  obtain ⟨g₅, hrun₅, hval, hfoot₅⟩ := addMiddleEven_run (by rw [hlen₄, ← hsize]; exact ht) hroom
    hapart hx (by rw [hmid]; exact hbound)
  refine ⟨g₅, ?_, ?_, ?_⟩
  · have hhalf : (m + m) / 2 = m := by omega
    simp only [karaEven, hhalf, hrun₁, hrun₂, hrun₃, hrun₄, Option.bind_eq_bind, Option.bind_some]
    exact hrun₅
  · rw [hprod, ← hnum, hsize, hval, hmid]
  · rw [← hsize] at hfoot₅
    refine (hfoot.trans (hfoot₄.mono ?_)).trans (hfoot₅.mono ?_) <;>
    · simp only [written, region]
      omega

/-! ## The recursion -/

/-- A bound for the limbs of workspace that a product of `n` limbs uses. -/
def workspace (n : ℕ) : ℕ := 2 * n + 2 * Nat.clog 2 n

lemma workspace_mono {m n : ℕ} (h : m ≤ n) : workspace m ≤ workspace n := by
  have := Nat.clog_mono_right 2 h
  rw [workspace, workspace]
  omega

/-- The product of the differences and the workspace for the parts. -/
lemma workspace_half {n : ℕ} (hn : 2 ≤ n) :
    2 * (n - n / 2) + workspace (n - n / 2) ≤ workspace n := by
  have hhalf : n - n / 2 = (n + 2 - 1) / 2 := by omega
  have hlog := Nat.clog_of_two_le one_lt_two hn
  rw [← hhalf] at hlog
  rw [workspace, workspace]
  omega

/-- A product that uses no workspace. -/
lemma multiplies_basecase {n : ℕ} (hn : 1 ≤ n) (w : ℕ) :
    Multiplies (fun target targetOffset a aOffset b bOffset n _ _ h =>
      mulBasecase target targetOffset a aOffset n b bOffset n h) n w := by
  intro target targetOffset a aOffset b bOffset ws wOffset h hops
  obtain ⟨ht, ha, hb, -, hta, htb, -, -, -⟩ := hops
  rw [Nat.two_mul] at ht hta htb
  obtain ⟨h', hrun, hval, hfoot⟩ := mulBasecase_run hn ht ha hb hta htb
  refine ⟨h', hrun, ?_, hfoot.mono ?_⟩
  · rw [Nat.two_mul]
    exact hval
  · simp only [written, region]
    omega

/-- **`kara_mul_n`** multiplies.

**Proof sketch.** Induction on the depth of the recursion; both parts of the operands have less
limbs, and their products need no more than the workspace behind the product of the differences. -/
lemma karaMulN_run (depth : ℕ) {n : ℕ} (hn : 2 ≤ n) (hdepth : n ≤ depth) :
    Multiplies (karaMulN depth) n (workspace n) := by
  induction depth generalizing n with
  | zero => omega
  | succ depth ih =>
    set part : Product := fun target targetOffset a aOffset b bOffset n ws wOffset h =>
      if n < 32 then mulBasecase target targetOffset a aOffset n b bOffset n h
      else karaMulN depth target targetOffset a aOffset b bOffset n ws wOffset h with hpart
    have hparts {k : ℕ} (hk : 1 ≤ k) (hkn : k ≤ n - n / 2) :
        Multiplies part k (workspace (n - n / 2)) := by
      by_cases hsmall : k < 32
      · intro target targetOffset a aOffset b bOffset ws wOffset h hops
        rw [hpart]
        simp only [if_pos hsmall]
        exact multiplies_basecase hk _ target targetOffset a aOffset b bOffset ws wOffset h hops
      · intro target targetOffset a aOffset b bOffset ws wOffset h hops
        rw [hpart]
        simp only [if_neg hsmall]
        exact (ih (by omega) (by omega)).mono (workspace_mono hkn) target targetOffset a aOffset b
          bOffset ws wOffset h hops
    have hspace := workspace_half hn
    by_cases hodd : n % 2 ≠ 0
    · have hrun : Multiplies (karaOdd part) n (workspace n) := by
        have hsize : n / 2 + 1 + n / 2 = n := by omega
        have hhalf : n / 2 + 1 = n - n / 2 := by omega
        have hlevel := karaOdd_run (show 1 ≤ n / 2 by omega)
          (hparts (k := n / 2 + 1) (by omega) (by omega)) (hparts (by omega) (by omega))
        rw [hsize, hhalf] at hlevel
        exact hlevel.mono hspace
      intro target targetOffset a aOffset b bOffset ws wOffset h hops
      rw [karaMulN]
      simp only [if_pos hodd]
      exact hrun target targetOffset a aOffset b bOffset ws wOffset h hops
    · have hrun : Multiplies (karaEven part) n (workspace n) := by
        have hsize : n / 2 + n / 2 = n := by omega
        have hhalf : n / 2 = n - n / 2 := by omega
        have hlevel := karaEven_run (show 1 ≤ n / 2 by omega)
          (hparts (k := n / 2) (by omega) (by omega))
        rw [hsize] at hlevel
        exact hlevel.mono (by omega)
      intro target targetOffset a aOffset b bOffset ws wOffset h hops
      rw [karaMulN]
      simp only [if_neg hodd]
      exact hrun target targetOffset a aOffset b bOffset ws wOffset h hops

end SpecialArithmetic

end EiffelWeb
