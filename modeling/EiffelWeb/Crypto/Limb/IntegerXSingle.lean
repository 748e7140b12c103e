import EiffelWeb.Crypto.Limb.IntegerXBits
import EiffelWeb.Crypto.Limb.IntegerXMul
import EiffelWeb.Crypto.Limb.TruncatedDivision

set_option relaxedAutoImplicit false
set_option autoImplicit false

/-!
# Arithmetic with an operand of one limb

The routines `add_ui`, `sub_ui`, `ui_sub`, `mul_ui` and `mul_si` of `INTEGER_X_ARITHMETIC`. Each of
them has its own treatment of signs and of zero. `sub_ui` stores the local `vval`, which is never
set, for zero less a number, and the two products set the count a second time behind the branch for
a zero operand.

## Main definitions

* `IntegerXMemory.addUi`, `IntegerXMemory.subUi`, `IntegerXMemory.uiSub`
* `IntegerXMemory.mulUi`, `IntegerXMemory.mulSi`
* `IntegerXMemory.Agrees` — two runs leave the same normalised number.

## Main results

* `SpecialArithmetic.add1_eq`, `SpecialArithmetic.sub1_eq` — in place or to another array.
* `IntegerXMemory.addAbs_outcome`, `IntegerXMemory.subAbs_outcome` — sums and differences of
  absolute values.
* `IntegerXMemory.singleLimb_iff` — when the routines agree with `add`, `sub` and `mul`.
-/

namespace EiffelWeb

open Limbs Arrays

/-! ## Sums and differences with a limb -/

namespace SpecialArithmetic

section Same

variable {target targetOffset op1 op1Offset : ℕ} {h : LimbHeap}

/-- The limbs that a routine leaves as they are, are copied to another array only. -/
lemma copyUnlessSame_run {i j n : ℕ} (hsame : target = op1 → j = i)
    (ht : j + n ≤ (h target).length) (h₁ : i + n ≤ (h op1).length) :
    ∃ h' : LimbHeap, (if op1 ≠ target then h.copyData target op1 i j n else some h) = some h' ∧
      h'.number target j n = h.number op1 i n ∧ SameOutside (region target j n) h h' := by
  by_cases he : op1 = target
  · rw [if_neg (not_not.mpr he)]
    exact ⟨h, rfl, by rw [he, hsame he.symm], .refl _ h⟩
  · have hlen : (h.segment op1 i n).length = n := length_segment h₁
    have hstored : j + (h.segment op1 i n).length ≤ (h target).length := by rwa [hlen]
    have hread := segment_store_self hstored
    have hfoot := sameOutside_store hstored
    rw [hlen] at hread hfoot
    rw [if_pos he, copyData_eq h₁ ht]
    exact ⟨_, rfl, by rw [LimbHeap.number, hread, LimbHeap.number], hfoot⟩

/-- **The loop of `sub_1`** takes one away from the limbs from `i` on.

**Proof sketch.** Induction on the number of limbs. -/
lemma sub1Loop_run (hsame : target = op1 → targetOffset = op1Offset) (k : ℕ) {i : ℕ}
    (ht : targetOffset + i + k ≤ (h target).length) (h₁ : op1Offset + i + k ≤ (h op1).length) :
    ∃ (c : Natural32) (h' : LimbHeap),
      sub1Loop target targetOffset op1 op1Offset k i h = some (c, h') ∧
      h'.number target (targetOffset + i) k + 1 =
        h.number op1 (op1Offset + i) k + (2 ^ 32) ^ k * c.toNat ∧
      SameOutside (region target (targetOffset + i) k) h h' := by
  induction k generalizing i h with
  | zero => exact ⟨1, h, rfl, by simp, .refl _ h⟩
  | succ k ih =>
    obtain ⟨x, hx, hnum⟩ := number_succ h (n := k) (show op1Offset + i < (h op1).length by omega)
    obtain ⟨g, hput, hfoot, hfirst, -⟩ := put_first (k := k)
      (show targetOffset + i + (k + 1) ≤ (h target).length by omega) (x - 1)
    have hlen := hfoot.length
    have hrest : g.number op1 (op1Offset + (i + 1)) k = h.number op1 (op1Offset + (i + 1)) k :=
      LimbHeap.number_apart hfoot fun he => Or.inl (by rw [hsame he]; omega)
    have hx' := x.isLt
    have hpred : (x - 1).toNat = (2 ^ 32 - 1 + x.toNat) % 2 ^ 32 := BitVec.toNat_sub x 1
    have hsplit {f : LimbHeap} (hf : SameOutside (region target (targetOffset + (i + 1)) k) g f) :
        f.number target (targetOffset + i) (k + 1) =
          (x - 1).toNat + 2 ^ 32 * f.number target (targetOffset + (i + 1)) k :=
      LimbHeap.number_below ht hfirst hfoot hf
    have hboth {f : LimbHeap} (hf : SameOutside (region target (targetOffset + (i + 1)) k) g f) :
        SameOutside (region target (targetOffset + i) (k + 1)) h f := by
      exact hfoot.join hf (by omega) (by omega)
    have hless : x < 1 ↔ x.toNat = 0 := by
      rw [BitVec.lt_def]
      exact Nat.lt_one_iff
    rw [sub1Loop, hx]
    simp only [Option.bind_eq_bind, Option.bind_some, hput, hnum]
    by_cases hzero : x < 1
    · obtain ⟨c, h', hrun, hval, hfoot'⟩ := ih (h := g)
        (show targetOffset + (i + 1) + k ≤ (g target).length by rw [hlen]; omega)
        (show op1Offset + (i + 1) + k ≤ (g op1).length by rw [hlen]; omega)
      rw [hrest] at hval
      refine ⟨c, h', ?_, ?_, hboth hfoot'⟩
      · rw [if_neg (not_not.mpr hzero)]
        exact hrun
      · rw [hless.mp hzero] at hpred
        rw [hsplit hfoot', hpred, hless.mp hzero, pow_succ' (2 ^ 32) k, Nat.mul_assoc,
          Nat.zero_add, Nat.add_assoc op1Offset, ← Nat.mul_add, ← hval]
        omega
    · obtain ⟨h', hcopy, hval, hfoot'⟩ := copyUnlessSame_run (h := g)
        (fun he => by rw [hsame he])
        (show targetOffset + (i + 1) + k ≤ (g target).length by rw [hlen]; omega)
        (show op1Offset + (i + 1) + k ≤ (g op1).length by rw [hlen]; omega)
      refine ⟨0, h', ?_, ?_, hboth hfoot'⟩
      · rw [if_pos hzero]
        simp only [hcopy, Option.bind_some]
        rfl
      · have hpos : x.toNat ≠ 0 := fun h0 => hzero (hless.mpr h0)
        rw [hsplit hfoot', hval, hrest, toNat_zero_limb, Nat.mul_zero, Nat.add_zero,
          Nat.add_assoc op1Offset]
        omega

/-- **`sub_1`** to another array, or in place: the difference, and the borrow. -/
lemma sub1_run (hsame : target = op1 → targetOffset = op1Offset) {n : ℕ}
    (ht : targetOffset + (n + 1) ≤ (h target).length) (h₁ : op1Offset + (n + 1) ≤ (h op1).length)
    (op2 : Natural32) :
    ∃ (c : Natural32) (h' : LimbHeap),
      sub1 target targetOffset op1 op1Offset (n + 1) op2 h = some (c, h') ∧
      h'.number target targetOffset (n + 1) + op2.toNat =
        h.number op1 op1Offset (n + 1) + (2 ^ 32) ^ (n + 1) * c.toNat ∧
      SameOutside (region target targetOffset (n + 1)) h h' := by
  obtain ⟨x, hx, hnum⟩ := number_succ h (n := n) (show op1Offset < (h op1).length by omega)
  obtain ⟨g, hput, hfoot, hfirst, -⟩ := put_first ht (x - op2)
  have hlen := hfoot.length
  have hrest : g.number op1 (op1Offset + 1) n = h.number op1 (op1Offset + 1) n :=
    LimbHeap.number_apart hfoot fun he => Or.inl (by rw [hsame he])
  have hx' := x.isLt
  have hop2 := op2.isLt
  have hdiff : (x - op2).toNat = (2 ^ 32 - op2.toNat + x.toNat) % 2 ^ 32 := BitVec.toNat_sub x op2
  have hsplit {f : LimbHeap} (hf : SameOutside (region target (targetOffset + 1) n) g f) :
      f.number target targetOffset (n + 1) =
        (x - op2).toNat + 2 ^ 32 * f.number target (targetOffset + 1) n :=
    LimbHeap.number_below ht hfirst hfoot hf
  have hboth {f : LimbHeap} (hf : SameOutside (region target (targetOffset + 1) n) g f) :
      SameOutside (region target targetOffset (n + 1)) h f := by
    exact hfoot.join hf (by omega) (by omega)
  have hless : x < op2 ↔ x.toNat < op2.toNat := BitVec.lt_def
  rw [sub1, hx]
  simp only [Option.bind_eq_bind, Option.bind_some, hput, hnum, Nat.add_sub_cancel]
  by_cases hlt : x < op2
  · obtain ⟨c, h', hrun, hval, hfoot'⟩ := sub1Loop_run (h := g) hsame n (i := 1)
      (by rw [hlen]; omega) (by rw [hlen]; omega)
    rw [hrest] at hval
    refine ⟨c, h', ?_, ?_, hboth hfoot'⟩
    · rw [if_pos hlt, hrun]
    · have := hless.mp hlt
      rw [hsplit hfoot', hdiff, pow_succ' (2 ^ 32) n, Nat.mul_assoc, Nat.add_assoc x.toNat,
        ← Nat.mul_add, ← hval]
      omega
  · obtain ⟨h', hcopy, hval, hfoot'⟩ := copyUnlessSame_run (h := g) (fun he => by rw [hsame he])
      (show targetOffset + 1 + n ≤ (g target).length by rw [hlen]; omega)
      (show op1Offset + 1 + n ≤ (g op1).length by rw [hlen]; omega)
    refine ⟨0, h', ?_, ?_, hboth hfoot'⟩
    · rw [if_neg hlt]
      simp only [hcopy, Option.bind_some]
      rfl
    · have := mt hless.mpr hlt
      rw [hsplit hfoot', hval, hrest, toNat_zero_limb, Nat.mul_zero, Nat.add_zero, hdiff]
      omega

/-- The heap after a routine is known from the number that was written. -/
lemma eq_store_of_number {h' : LimbHeap} {n v : ℕ}
    (hs : SameOutside (region target targetOffset n) h h')
    (hn : targetOffset + n ≤ (h target).length)
    (hv : h'.number target targetOffset n = v) :
    h' = h.store target targetOffset (ofNat 32 n v) := by
  have hlen : (h'.segment target targetOffset n).length = n :=
    length_segment (by rw [hs.length]; exact hn)
  have hseg : h'.segment target targetOffset n = ofNat 32 n v := by
    have hwords := ofNat_value (h'.segment target targetOffset n)
    rw [hlen] at hwords
    rw [← hv, LimbHeap.number, hwords]
  rw [← hseg]
  exact hs.eq_store hn

/-- **`add_1`** writes the low limbs of the sum and returns the carry. -/
lemma add1_eq (hsame : target = op1 → targetOffset = op1Offset) {n : ℕ} (hpos : 1 ≤ n)
    (ht : targetOffset + n ≤ (h target).length) (h₁ : op1Offset + n ≤ (h op1).length)
    (op2 : Natural32) :
    add1 target targetOffset op1 op1Offset n op2 h =
      some (BitVec.ofNat 32 ((h.number op1 op1Offset n + op2.toNat) / (2 ^ 32) ^ n),
        h.store target targetOffset (ofNat 32 n (h.number op1 op1Offset n + op2.toNat))) := by
  obtain ⟨k, rfl⟩ : ∃ k, n = k + 1 := ⟨n - 1, by omega⟩
  obtain ⟨c, h', hrun, hval, hfoot⟩ := add1_run hsame
    (rfl : ((k + 1 : ℕ) : ℤ) = (k + 1 : ℕ)) ht h₁ op2
  have hlt : h'.number target targetOffset (k + 1) < (2 ^ 32) ^ (k + 1) :=
    h'.number_lt (by rw [hfoot.length]; exact ht)
  have hbase : 0 < (2 ^ 32) ^ (k + 1) := by positivity
  have hc : c = BitVec.ofNat 32 ((h.number op1 op1Offset (k + 1) + op2.toNat) /
      (2 ^ 32) ^ (k + 1)) := by
    rw [← hval, Nat.add_mul_div_left _ _ hbase, Nat.div_eq_of_lt hlt, Nat.zero_add,
      BitVec.ofNat_toNat, BitVec.setWidth_eq]
  rw [hrun, hc, eq_store_of_number hfoot ht rfl, ← ofNat_add_mul (k + 1) _ c.toNat, hval]

/-- **`sub_1`** of a number that is not larger. -/
lemma sub1_eq (hsame : target = op1 → targetOffset = op1Offset) {n : ℕ} (hpos : 1 ≤ n)
    (ht : targetOffset + n ≤ (h target).length) (h₁ : op1Offset + n ≤ (h op1).length)
    {op2 : Natural32} (hle : op2.toNat ≤ h.number op1 op1Offset n) :
    sub1 target targetOffset op1 op1Offset n op2 h =
      some (0, h.store target targetOffset
        (ofNat 32 n (h.number op1 op1Offset n - op2.toNat))) := by
  obtain ⟨k, rfl⟩ : ∃ k, n = k + 1 := ⟨n - 1, by omega⟩
  obtain ⟨c, h', hrun, hval, hfoot⟩ := sub1_run hsame ht h₁ op2
  have hlt : h'.number target targetOffset (k + 1) < (2 ^ 32) ^ (k + 1) :=
    h'.number_lt (by rw [hfoot.length]; exact ht)
  have hc : c = 0 := by
    apply BitVec.eq_of_toNat_eq
    by_contra hne
    have hge : (2 ^ 32) ^ (k + 1) * 1 ≤ (2 ^ 32) ^ (k + 1) * c.toNat :=
      Nat.mul_le_mul_left _ (Nat.one_le_iff_ne_zero.mpr hne)
    omega
  rw [hc, toNat_zero_limb, Nat.mul_zero, Nat.add_zero (h.number _ _ _)] at hval
  rw [hrun, hc, eq_store_of_number hfoot ht (Nat.eq_sub_of_add_eq hval)]

end Same

end SpecialArithmetic

/-! ## Sums and differences -/

namespace IntegerXMemory

/-- The limbs of `op1`, of which there are `size`, and the limb `op2` are added. -/
def addAbs (target op1 size : ℕ) (op2 : Natural32) (negative : Bool) (m : IntegerXMemory) :
    Option IntegerXMemory := do
  let wp := m.item target
  let (cy, h) ← SpecialArithmetic.add1 wp 0 (m.item op1) 0 size op2 m.arrays
  let h ← h.put wp size cy
  return m.conclude target h (size + cy.toNat) negative

/-- The limb `op2` is taken away from the limbs of `op1`, of which there are `size`. -/
def subAbs (target op1 size : ℕ) (op2 : Natural32) (negative : Bool) (m : IntegerXMemory) :
    Option IntegerXMemory := do
  let wp := m.item target
  let (_, h) ← SpecialArithmetic.sub1 wp 0 (m.item op1) 0 size op2 m.arrays
  let x ← h.item wp (size - 1)
  return m.conclude target h (if x = 0 then size - 1 else size) negative

/-- The part of `add_ui` and `sub_ui` for operands with different signs. -/
def subUnlessLess (target op1 size : ℕ) (op2 : Natural32) (negative : Bool)
    (m : IntegerXMemory) : Option IntegerXMemory :=
  (m.arrays.item (m.item op1) 0).bind fun x =>
    if size = 1 ∧ x < op2 then
      (m.arrays.put (m.item target) 0 (op2 - x)).map fun h => m.conclude target h 1 !negative
    else subAbs target op1 size op2 negative m

/-- `add_ui (target, op1, op2)`. -/
def addUi (target op1 : ℕ) (op2 : Natural32) (m : IntegerXMemory) : Option IntegerXMemory :=
  let usize := m.count op1
  let absUsize := usize.natAbs
  let m := m.resize target (absUsize + 1)
  if absUsize = 0 then
    (m.arrays.put (m.item target) 0 op2).map fun h =>
      m.conclude target h (if op2 ≠ 0 then 1 else 0) false
  else if 0 ≤ usize then addAbs target op1 absUsize op2 false m
  else subUnlessLess target op1 absUsize op2 true m

/-- `sub_ui (target, op1, op2)`. The local `vval` has its default. -/
def subUi (target op1 : ℕ) (op2 : Natural32) (m : IntegerXMemory) : Option IntegerXMemory :=
  let usize := m.count op1
  let absUsize := usize.natAbs
  let m := m.resize target (absUsize + 1)
  let vval : Natural32 := 0
  if absUsize = 0 then
    (m.arrays.put (m.item target) 0 vval).map fun h =>
      m.conclude target h (if op2 ≠ 0 then 1 else 0) true
  else if usize < 0 then addAbs target op1 absUsize op2 true m
  else subUnlessLess target op1 absUsize op2 false m

/-- `ui_sub (target, op1, op2)`. -/
def uiSub (target : ℕ) (op1 : Natural32) (op2 : ℕ) (m : IntegerXMemory) :
    Option IntegerXMemory :=
  let vn := m.count op2
  if 1 < vn then
    let m := if m.capacity target < vn then m.resize target vn.natAbs else m
    subAbs target op2 vn.natAbs op1 true m
  else if vn = 1 then
    (m.arrays.item (m.item op2) 0).bind fun x =>
      if x ≤ op1 then
        (m.arrays.put (m.item target) 0 (op1 - x)).map fun h =>
          m.conclude target h (if op1 - x ≠ 0 then 1 else 0) false
      else (m.arrays.put (m.item target) 0 (x - op1)).map fun h => m.conclude target h 1 true
  else if vn = 0 then
    (m.arrays.put (m.item target) 0 op1).map fun h =>
      m.conclude target h (if op1 ≠ 0 then 1 else 0) false
  else
    let vn := vn.natAbs
    let m := m.resize target (vn + 1)
    let wp := m.item target
    (SpecialArithmetic.add1 wp 0 (m.item op2) 0 vn op1 m.arrays).bind fun (cy, h) =>
      (h.put wp vn cy).map fun h => m.conclude target h (if cy ≠ 0 then vn + 1 else vn) false

/-! ## Products -/

/-- The common text of `mul_ui` and `mul_si`, for the absolute value `sml` of the operand and its
sign. The count that is set to zero is set again. -/
def mulLimb (target op1 : ℕ) (sml : Natural32) (negative : Bool) (m : IntegerXMemory) :
    Option IntegerXMemory :=
  let size := m.count op1
  let signProduct := decide (size < 0) ^^ negative
  if size = 0 ∨ sml = 0 then
    let m := { m with count := Function.update m.count target 0 }
    some { m with count := Function.update m.count target (if signProduct then -size else size) }
  else do
    let size := size.natAbs
    let m := m.resize target (size + 1)
    let pp := m.item target
    let (cy, h) ← SpecialArithmetic.mul1 pp 0 (m.item op1) 0 size sml m.arrays
    let h ← h.put pp size cy
    return m.conclude target h (if cy ≠ 0 then size + 1 else size) signProduct

/-- `mul_ui (target, op1, op2)`. -/
def mulUi (target op1 : ℕ) (op2 : Natural32) (m : IntegerXMemory) : Option IntegerXMemory :=
  mulLimb target op1 op2 false m

/-- `mul_si (target, op1, op2)`. -/
def mulSi (target op1 : ℕ) (op2 : BitVec 32) (m : IntegerXMemory) : Option IntegerXMemory :=
  mulLimb target op1 op2.abs (op2.toInt < 0) m

/-! ## What the parts do -/

section Parts

variable {m m' : IntegerXMemory} {target x : ℕ}

/-- The limbs of an object in memory that was extended. -/
lemma Extends.number_eq_magnitude (h : m.Extends m') (hx : x < m.objects) (hn : m.Normalised x)
    {n : ℕ} (hcount : (m.count x).natAbs = n) :
    m'.arrays.number (m'.item x) 0 n = m.magnitude x ∧
      0 + n ≤ (m'.arrays (m'.item x)).length := by
  have hle : n ≤ m.capacity x := hcount ▸ hn.count_le
  refine ⟨by rw [h.number hx hle, magnitude, hcount], ?_⟩
  rw [Nat.zero_add]
  exact hle.trans (h.capacity x hx)

/-- **The sum of absolute values.** -/
lemma addAbs_outcome (h : m.Extends m') (ht : target < m.objects) (hx : x < m.objects)
    (hn : m.Normalised x) {n : ℕ} (hcount : (m.count x).natAbs = n) (hpos : 1 ≤ n)
    (hcap : n + 1 ≤ m'.capacity target) (v : Natural32) (negative : Bool) :
    ∃ r, addAbs target x n v negative m' = some r ∧ m.Outcome r target
      (if negative then -((m.magnitude x + v.toNat : ℕ) : ℤ)
        else (m.magnitude x + v.toNat : ℕ)) := by
  obtain ⟨hnum, hlen⟩ := h.number_eq_magnitude hx hn hcount
  have hlt : m.magnitude x < (2 ^ 32) ^ n := hnum ▸ m'.arrays.number_lt hlen
  have hv : v.toNat < (2 ^ 32) ^ n := by
    refine v.isLt.trans_le ?_
    calc 2 ^ 32 = (2 ^ 32) ^ 1 := (pow_one _).symm
      _ ≤ (2 ^ 32) ^ n := Nat.pow_le_pow_right (by decide) hpos
  have hlow : n ≠ 0 → (2 ^ 32) ^ (n - 1) ≤ m.magnitude x + v.toNat := by
    intro hne
    have := (normalised_iff.mp hn).2 (by omega)
    rw [hcount] at this
    omega
  obtain ⟨g, hput, hout⟩ := h.outcome_carry ht hcap
    (show m.magnitude x + v.toNat < 2 * (2 ^ 32) ^ n by omega) hlow negative
  have hroom : 0 + n ≤ (m'.arrays (m'.item target)).length := by
    rw [Nat.zero_add]
    exact (Nat.le_succ n).trans hcap
  rw [addAbs, SpecialArithmetic.add1_eq (fun _ => rfl) hpos hroom hlen, hnum]
  simp only [Option.bind_eq_bind, Option.bind_some, hput]
  exact ⟨_, rfl, hout⟩

/-- A number of at least two limbs keeps at least one less when a limb is taken away. -/
lemma pow_le_sub {n a v : ℕ} (hn : 2 ≤ n) (ha : (2 ^ 32) ^ (n - 1) ≤ a) (hv : v < 2 ^ 32) :
    (2 ^ 32) ^ (n - 2) ≤ a - v := by
  obtain ⟨k, rfl⟩ : ∃ k, n = k + 2 := ⟨n - 2, by omega⟩
  have hsucc : (2 ^ 32) ^ (k + 2 - 1) = 2 ^ 32 * (2 ^ 32) ^ k := pow_succ' _ _
  have hpos : 1 ≤ (2 ^ 32) ^ k := Nat.one_le_pow _ _ (by decide)
  rw [hsucc] at ha
  rw [Nat.add_sub_cancel]
  omega

/-- **The difference of absolute values**, the limb being the smaller one. -/
lemma subAbs_outcome (h : m.Extends m') (ht : target < m.objects) (hx : x < m.objects)
    (hn : m.Normalised x) {n : ℕ} (hcount : (m.count x).natAbs = n) (hpos : 1 ≤ n)
    (hcap : n ≤ m'.capacity target) {v : Natural32} (hle : v.toNat ≤ m.magnitude x)
    (negative : Bool) :
    ∃ r, subAbs target x n v negative m' = some r ∧ m.Outcome r target
      (if negative then -((m.magnitude x - v.toNat : ℕ) : ℤ)
        else (m.magnitude x - v.toNat : ℕ)) := by
  obtain ⟨hnum, hlen⟩ := h.number_eq_magnitude hx hn hcount
  have hlt : m.magnitude x < (2 ^ 32) ^ n := hnum ▸ m'.arrays.number_lt hlen
  have hroom : 0 + n ≤ (m'.arrays (m'.item target)).length := by rwa [Nat.zero_add]
  have hstored : 0 + (ofNat 32 n (m.magnitude x - v.toNat)).length ≤
      (m'.arrays (m'.item target)).length := by rwa [length_ofNat]
  have hread := segment_store_self hstored
  have hfoot := (sameOutside_store hstored).keptBelow m'.free
  have hlast := length_store hstored (m'.item target)
  rw [length_ofNat] at hread hfoot
  set g : LimbHeap := m'.arrays.store (m'.item target) 0 (ofNat 32 n (m.magnitude x - v.toNat))
    with hg
  have hval : g.number (m'.item target) 0 n = m.magnitude x - v.toNat := by
    rw [LimbHeap.number, hread, value_ofNat_of_lt (by omega)]
  obtain ⟨d, hd, -⟩ := LimbHeap.exists_limb (h := g) (a := m'.item target) (i := n - 1)
    (by omega)
  have hlow : 2 ≤ n → (2 ^ 32) ^ (n - 2) ≤ m.magnitude x - v.toNat := by
    intro h2
    have := (normalised_iff.mp hn).2 (by omega)
    rw [hcount] at this
    exact pow_le_sub h2 this v.isLt
  have hout := (h.keepsOthers target).outcome_product ht hfoot hpos hcap hval hd hlow negative
  have hsize : (if d = 0 then n - 1 else n) = n - if d = 0 then 1 else 0 := by
    split <;> rfl
  rw [subAbs, SpecialArithmetic.sub1_eq (fun _ => rfl) hpos hroom hlen (by rwa [hnum]), hnum]
  simp only [Option.bind_eq_bind, Option.bind_some, ← hg, hd, hsize]
  exact ⟨_, rfl, hout⟩

/-- **One limb** is written to the target. -/
lemma putLimb_outcome (h : m.Extends m') (ht : target < m.objects) (hcap : 1 ≤ m'.capacity target)
    (v : Natural32) (negative : Bool) :
    ∃ g, m'.arrays.put (m'.item target) 0 v = some g ∧
      m.Outcome (m'.conclude target g (if v ≠ 0 then 1 else 0) negative) target
        (if negative then -(v.toNat : ℤ) else v.toNat) := by
  have hroom : 0 + [v].length ≤ (m'.arrays (m'.item target)).length := by
    rwa [List.length_singleton, Nat.zero_add]
  have hfoot := (sameOutside_store hroom).keptBelow m'.free
  have hread := segment_store_self hroom
  rw [List.length_singleton] at hfoot hread
  have hlast := length_store hroom (m'.item target)
  have hput := put_eq (x := v) hcap
  set g : LimbHeap := m'.arrays.store (m'.item target) 0 [v]
  have hval : g.number (m'.item target) 0 1 = v.toNat := by
    rw [LimbHeap.number, hread, value_singleton]
  obtain ⟨d, hd, hnum⟩ := LimbHeap.exists_limb (h := g) (a := m'.item target) (i := 0)
    (by rw [hlast]; exact hcap)
  have hdv : d = v := BitVec.eq_of_toNat_eq (hnum.symm.trans hval)
  have hout := (h.keepsOthers target).outcome_product ht hfoot le_rfl hcap hval hd (by omega)
    negative
  have hsize : (if v ≠ 0 then 1 else 0) = 1 - if d = 0 then 1 else 0 := by
    rw [hdv]
    by_cases h0 : v = 0
    · rw [if_neg (not_not.mpr h0), if_pos h0]
    · rw [if_pos h0, if_neg h0]
  refine ⟨g, hput, ?_⟩
  rw [hsize]
  exact hout

/-- **The difference of absolute values**, whichever one is larger. -/
lemma subUnlessLess_outcome (h : m.Extends m') (ht : target < m.objects) (hx : x < m.objects)
    (hn : m.Normalised x) {n : ℕ} (hcount : (m.count x).natAbs = n) (hpos : 1 ≤ n)
    (hcap : n ≤ m'.capacity target) (v : Natural32) (negative : Bool) :
    ∃ r, subUnlessLess target x n v negative m' = some r ∧ m.Outcome r target
      (if negative then (v.toNat : ℤ) - m.magnitude x else m.magnitude x - v.toNat) := by
  obtain ⟨hnum, hlen⟩ := h.number_eq_magnitude hx hn hcount
  obtain ⟨d, hd, hone⟩ := LimbHeap.exists_limb (h := m'.arrays) (a := m'.item x) (i := 0)
    (by omega)
  have hsmall : n = 1 → d.toNat = m.magnitude x := by
    rintro rfl
    rw [← hone, hnum]
  have hlarge : 2 ≤ n → v.toNat ≤ m.magnitude x := by
    intro h2
    have hlow := (normalised_iff.mp hn).2 (by omega)
    have hpow : (2 ^ 32) ^ 1 ≤ (2 ^ 32) ^ ((m.count x).natAbs - 1) :=
      Nat.pow_le_pow_right (by decide) (by omega)
    have := v.isLt
    omega
  rw [subUnlessLess, hd, Option.bind_some]
  by_cases hless : n = 1 ∧ d < v
  · have hdv : d.toNat < v.toNat := hless.2
    have hsub : (v - d).toNat = v.toNat - d.toNat := BitVec.toNat_sub_of_le hdv.le
    have hne : v - d ≠ 0 := by
      intro h0
      rw [h0, SpecialArithmetic.toNat_zero_limb] at hsub
      omega
    obtain ⟨g, hput, hout⟩ := putLimb_outcome h ht (hpos.trans hcap) (v - d) (!negative)
    rw [if_pos hne, hsub, hsmall hless.1] at hout
    rw [hsmall hless.1] at hdv
    rw [if_pos hless, hput]
    refine ⟨_, rfl, ?_⟩
    have hvalue : (if negative then (v.toNat : ℤ) - m.magnitude x else m.magnitude x - v.toNat) =
        if (!negative) = true then -((v.toNat - m.magnitude x : ℕ) : ℤ)
          else (v.toNat - m.magnitude x : ℕ) := by
      cases negative <;> simp <;> omega
    rw [hvalue]
    exact hout
  · have hle : v.toNat ≤ m.magnitude x := by
      rcases Nat.lt_or_ge n 2 with h1 | h2
      · have hn1 : n = 1 := by omega
        have hdv : v.toNat ≤ d.toNat := not_lt.mp fun hlt => hless ⟨hn1, hlt⟩
        rwa [hsmall hn1] at hdv
      · exact hlarge h2
    obtain ⟨r, hr, hout⟩ := subAbs_outcome h ht hx hn hcount hpos hcap hle negative
    rw [if_neg hless]
    refine ⟨r, hr, ?_⟩
    have hvalue : (if negative then (v.toNat : ℤ) - m.magnitude x else m.magnitude x - v.toNat) =
        if negative = true then -((m.magnitude x - v.toNat : ℕ) : ℤ)
          else (m.magnitude x - v.toNat : ℕ) := by
      cases negative <;> simp <;> omega
    rw [hvalue]
    exact hout

end Parts

/-! ## What the routines do -/

section Routines

variable {m : IntegerXMemory} {target x : ℕ}

/-- An object stands for zero if it has no limbs. -/
lemma Normalised.value_eq_zero_iff (hn : m.Normalised x) : m.value x = 0 ↔ m.count x = 0 := by
  refine ⟨fun h => ?_, value_of_count_eq_zero⟩
  by_contra hne
  have hpos := hn.magnitude_pos hne
  rw [← natAbs_value, h] at hpos
  exact absurd hpos (lt_irrefl 0)

/-- **`add_ui`** is right. -/
lemma addUi_outcome (hm : m.WellFormed) (ht : target < m.objects) (hx : x < m.objects)
    (hn : m.Normalised x) (v : Natural32) :
    ∃ r, addUi target x v m = some r ∧ m.Outcome r target (m.value x + v.toNat) := by
  obtain ⟨hext, hroom⟩ := extends_resize hm ht ((m.count x).natAbs + 1)
  simp only [addUi]
  by_cases h0 : (m.count x).natAbs = 0
  · obtain ⟨g, hput, hout⟩ := putLimb_outcome hext ht (by omega) v false
    rw [if_pos h0, hput, value_of_count_eq_zero (Int.natAbs_eq_zero.mp h0), zero_add]
    exact ⟨_, rfl, hout⟩
  rw [if_neg h0]
  by_cases hsign : 0 ≤ m.count x
  · obtain ⟨r, hr, hout⟩ := addAbs_outcome hext ht hx hn rfl (by omega) hroom v false
    rw [if_pos hsign, value_of_count_nonneg hsign]
    refine ⟨r, hr, ?_⟩
    rw [← Nat.cast_add]
    exact hout
  · obtain ⟨r, hr, hout⟩ :=
      subUnlessLess_outcome hext ht hx hn rfl (by omega) (by omega) v true
    rw [if_neg hsign, value_of_count_neg (not_le.mp hsign)]
    refine ⟨r, hr, ?_⟩
    rw [neg_add_eq_sub]
    exact hout

/-- **`sub_ui`** is right unless a number is taken from zero. -/
lemma subUi_outcome (hm : m.WellFormed) (ht : target < m.objects) (hx : x < m.objects)
    (hn : m.Normalised x) {v : Natural32} (hv : m.count x = 0 → v = 0) :
    ∃ r, subUi target x v m = some r ∧ m.Outcome r target (m.value x - v.toNat) := by
  obtain ⟨hext, hroom⟩ := extends_resize hm ht ((m.count x).natAbs + 1)
  simp only [subUi]
  by_cases h0 : (m.count x).natAbs = 0
  · have hzero := Int.natAbs_eq_zero.mp h0
    obtain ⟨g, hput, hout⟩ := putLimb_outcome hext ht (by omega) 0 true
    rw [if_pos h0, hput, value_of_count_eq_zero hzero, hv hzero, zero_sub]
    exact ⟨_, rfl, hout⟩
  rw [if_neg h0]
  by_cases hsign : m.count x < 0
  · obtain ⟨r, hr, hout⟩ := addAbs_outcome hext ht hx hn rfl (by omega) hroom v true
    rw [if_pos hsign, value_of_count_neg hsign]
    refine ⟨r, hr, ?_⟩
    rw [← neg_add', ← Nat.cast_add]
    exact hout
  · obtain ⟨r, hr, hout⟩ :=
      subUnlessLess_outcome hext ht hx hn rfl (by omega) (by omega) v false
    rw [if_neg hsign, value_of_count_nonneg (not_lt.mp hsign)]
    exact ⟨r, hr, hout⟩

/-- `sub_ui` takes a number from zero: the only limb is zero. -/
lemma not_normalised_subUi (hm : m.WellFormed) (ht : target < m.objects) (hx : m.count x = 0)
    {v : Natural32} (hv : v ≠ 0) {r : IntegerXMemory} (hr : subUi target x v m = some r) :
    ¬ r.Normalised target := by
  obtain ⟨-, hroom⟩ := extends_resize hm ht ((m.count x).natAbs + 1)
  simp only [subUi] at hr
  rw [if_pos (Int.natAbs_eq_zero.mpr hx), put_eq (show 0 < _ from by
      rw [IntegerXMemory.capacity] at hroom
      omega), Option.map_some, if_pos hv, Option.some.injEq] at hr
  intro hn
  have hstored : 0 + [(0 : Natural32)].length ≤
      ((m.resize target ((m.count x).natAbs + 1)).arrays
        ((m.resize target ((m.count x).natAbs + 1)).item target)).length := by
    rw [List.length_singleton]
    rw [IntegerXMemory.capacity] at hroom
    omega
  have hread := segment_store_self hstored
  have hitem := item_eq_segment
    ((m.resize target ((m.count x).natAbs + 1)).arrays.store
      ((m.resize target ((m.count x).natAbs + 1)).item target) 0 [(0 : Natural32)])
    (a := (m.resize target ((m.count x).natAbs + 1)).item target) (i := 0) (k := 0) (n := 1)
    Nat.one_pos
  rw [List.length_singleton] at hread
  rw [hread] at hitem
  have hcount : r.count target = -1 := by
    rw [← hr]
    exact Function.update_self _ _ _
  refine hn.top (by rw [hcount]; decide) ?_
  rw [hcount, ← hr]
  exact hitem

/-- The count of `ui_sub` behind an addition is the one of `add_ui`. -/
lemma addAbs_eq {m' : IntegerXMemory} (hext : m.Extends m') (hx : x < m.objects)
    (hn : m.Normalised x) {n : ℕ} (hcount : (m.count x).natAbs = n) (hpos : 1 ≤ n)
    (hroom : n + 1 ≤ m'.capacity target) (v : Natural32) :
    ((SpecialArithmetic.add1 (m'.item target) 0 (m'.item x) 0 n v m'.arrays).bind fun (cy, h) =>
      (h.put (m'.item target) n cy).map fun h =>
        m'.conclude target h (if cy ≠ 0 then n + 1 else n) false) =
      addAbs target x n v false m' := by
  obtain ⟨hnum, hlen⟩ := hext.number_eq_magnitude hx hn hcount
  have hlt : m.magnitude x < (2 ^ 32) ^ n := hnum ▸ m'.arrays.number_lt hlen
  have hbase : (2 ^ 32) ^ 1 ≤ (2 ^ 32) ^ n := Nat.pow_le_pow_right (by decide) hpos
  have hv := v.isLt
  have hdiv : (m.magnitude x + v.toNat) / (2 ^ 32) ^ n ≤ 1 :=
    Nat.lt_succ_iff.mp (Nat.div_lt_of_lt_mul (by omega))
  have hroom' : 0 + n ≤ (m'.arrays (m'.item target)).length := by
    rw [Nat.zero_add]
    exact (Nat.le_succ n).trans hroom
  have hsize : (if BitVec.ofNat 32 ((m.magnitude x + v.toNat) / (2 ^ 32) ^ n) ≠ 0 then n + 1
      else n) = n + (BitVec.ofNat 32 ((m.magnitude x + v.toNat) / (2 ^ 32) ^ n)).toNat := by
    rcases Nat.le_one_iff_eq_zero_or_eq_one.mp hdiv with h0 | h1
    · rw [h0]
      rfl
    · rw [h1]
      rfl
  rw [addAbs, SpecialArithmetic.add1_eq (fun _ => rfl) hpos hroom' hlen, hnum]
  simp only [Option.bind_eq_bind, Option.bind_some, hsize, Option.map_eq_bind]
  rfl

/-- **`ui_sub`** is right, for a target with an array that is not empty. -/
lemma uiSub_outcome (hm : m.WellFormed) (ht : target < m.objects) (hx : x < m.objects)
    (hn : m.Normalised x) (hcap : 1 ≤ m.capacity target) (v : Natural32) :
    ∃ r, uiSub target v x m = some r ∧ m.Outcome r target (v.toNat - m.value x) := by
  have hrefl := Extends.refl hm
  simp only [uiSub]
  rcases lt_trichotomy (m.count x) 0 with hneg | h0 | hpos
  · obtain ⟨hext, hroom⟩ := extends_resize hm ht ((m.count x).natAbs + 1)
    obtain ⟨r, hr, hout⟩ := addAbs_outcome hext ht hx hn rfl (by omega) hroom v false
    rw [if_neg (by omega), if_neg (by omega), if_neg hneg.ne,
      addAbs_eq hext hx hn rfl (by omega) hroom, value_of_count_neg hneg]
    refine ⟨r, hr, ?_⟩
    rw [sub_neg_eq_add, add_comm, ← Nat.cast_add]
    exact hout
  · obtain ⟨g, hput, hout⟩ := putLimb_outcome hrefl ht hcap v false
    rw [if_neg (by omega), if_neg (by omega), if_pos h0, hput, value_of_count_eq_zero h0, sub_zero]
    exact ⟨_, rfl, hout⟩
  rw [value_of_count_nonneg hpos.le]
  by_cases h1 : 1 < m.count x
  · obtain ⟨hext, hroom⟩ := extends_resize hm ht (m.count x).natAbs
    have hresize : (if (m.capacity target : ℤ) < m.count x then
        m.resize target (m.count x).natAbs else m) = m.resize target (m.count x).natAbs := by
      split
      case isTrue => rfl
      case isFalse hle => rw [resize, if_neg (by omega)]
    have hlow := (normalised_iff.mp hn).2 hpos.ne'
    have hpow : (2 ^ 32) ^ 1 ≤ (2 ^ 32) ^ ((m.count x).natAbs - 1) :=
      Nat.pow_le_pow_right (by decide) (by omega)
    have hv := v.isLt
    obtain ⟨r, hr, hout⟩ := subAbs_outcome hext ht hx hn rfl (by omega) hroom
      (show v.toNat ≤ m.magnitude x by omega) true
    rw [if_pos h1, hresize]
    refine ⟨r, hr, ?_⟩
    have hvalue : (v.toNat : ℤ) - m.magnitude x = -((m.magnitude x - v.toNat : ℕ) : ℤ) := by omega
    rw [hvalue]
    exact hout
  · have hone : m.count x = 1 := by omega
    obtain ⟨d, hd, hmag⟩ := hrefl.exists_only_limb hx hn (by omega)
    rw [if_neg h1, if_pos hone, hd, Option.bind_some]
    by_cases hle : d ≤ v
    · obtain ⟨g, hput, hout⟩ := putLimb_outcome hrefl ht hcap (v - d) false
      have hsub : (v - d).toNat = v.toNat - d.toNat := BitVec.toNat_sub_of_le hle
      have hle' : d.toNat ≤ v.toNat := hle
      rw [if_pos hle, hput]
      refine ⟨_, rfl, ?_⟩
      have hvalue : (v.toNat : ℤ) - m.magnitude x = ((v - d).toNat : ℕ) := by omega
      rw [hvalue]
      exact hout
    · have hlt : v.toNat < d.toNat := not_le.mp hle
      obtain ⟨g, hput, hout⟩ := putLimb_outcome hrefl ht hcap (d - v) true
      have hsub : (d - v).toNat = d.toNat - v.toNat := BitVec.toNat_sub_of_le hlt.le
      have hne : d - v ≠ 0 := by
        intro h0
        rw [h0, SpecialArithmetic.toNat_zero_limb] at hsub
        omega
      rw [if_pos hne] at hout
      rw [if_neg hle, hput]
      refine ⟨_, rfl, ?_⟩
      have hvalue : (v.toNat : ℤ) - m.magnitude x = -((d - v).toNat : ℤ) := by omega
      rw [hvalue]
      exact hout

/-- **`mul_ui` and `mul_si`** are right for operands that are not zero, and for zero times a
number. -/
lemma mulLimb_outcome (hm : m.WellFormed) (ht : target < m.objects) (hx : x < m.objects)
    (hn : m.Normalised x) {v : Natural32} (hv : v = 0 → m.count x = 0) (negative : Bool) :
    ∃ r, mulLimb target x v negative m = some r ∧
      m.Outcome r target (m.value x * if negative then -(v.toNat : ℤ) else v.toNat) := by
  simp only [mulLimb]
  by_cases h0 : m.count x = 0
  · rw [if_pos (.inl h0), value_of_count_eq_zero h0, zero_mul, h0, neg_zero, ite_self,
      Function.update_idem]
    exact ⟨_, rfl, outcome_zero hm ht⟩
  · have hv0 : v ≠ 0 := fun h => h0 (hv h)
    have hvpos : 1 ≤ v.toNat := Nat.one_le_iff_ne_zero.mpr fun h => hv0 (BitVec.eq_of_toNat_eq h)
    have hlow : (2 ^ 32) ^ ((m.count x).natAbs + 1 - 2) ≤ m.magnitude x * v.toNat := by
      have hindex : (m.count x).natAbs + 1 - 2 = (m.count x).natAbs - 1 := by omega
      rw [hindex]
      exact ((normalised_iff.mp hn).2 h0).trans (Nat.le_mul_of_pos_right _ hvpos)
    obtain ⟨c, g, h, hrun, hput, hout⟩ := mulOne_outcome hm ht hx hn.count_le
      (Eq.refl (m.magnitude x)) v (by omega) hlow (decide (m.count x < 0) ^^ negative)
    rw [if_neg (not_or.mpr ⟨h0, hv0⟩)]
    simp only [Option.bind_eq_bind, Option.bind_some, hrun, hput]
    refine ⟨_, rfl, ?_⟩
    have hvalue : (m.value x * if negative then -(v.toNat : ℤ) else v.toNat) =
        if (decide (m.count x < 0) ^^ negative) = true then -((m.magnitude x * v.toNat : ℕ) : ℤ)
          else (m.magnitude x * v.toNat : ℕ) := by
      rw [IntegerXMemory.value, sign_mul_magnitude rfl]
      by_cases hneg : m.count x < 0 <;> cases negative <;> simp [hneg]
    rw [hvalue]
    exact hout

/-- `mul_ui` and `mul_si` multiply a number by zero: the count is the one of the number. -/
lemma count_mulLimb_zero (h0 : m.count x ≠ 0) (negative : Bool) {r : IntegerXMemory}
    (hr : mulLimb target x 0 negative m = some r) : r.count target ≠ 0 := by
  simp only [mulLimb] at hr
  rw [if_pos (.inr trivial), Option.some.injEq] at hr
  rw [← hr]
  simp only [Function.update_self]
  split
  · exact neg_ne_zero.mpr h0
  · exact h0

/-- An object for a number of one limb has at most one limb. -/
lemma Normalised.count_le_one (hn : m.Normalised x) (hv : (m.value x).natAbs < 2 ^ 32) :
    (m.count x).natAbs ≤ 1 := by
  by_contra hlt
  have hlow := (normalised_iff.mp hn).2 (by omega)
  have hpow : (2 ^ 32) ^ 1 ≤ (2 ^ 32) ^ ((m.count x).natAbs - 1) :=
    Nat.pow_le_pow_right (by decide) (by omega)
  rw [natAbs_value] at hv
  omega

/-- **`mul`** by an object of at most one limb. -/
lemma mul_outcome_of_le_one {y : ℕ} (hm : m.WellFormed) (ht : target < m.objects)
    (hx : x < m.objects) (hy : y < m.objects) (hnx : m.Normalised x) (hny : m.Normalised y)
    (hle : (m.count y).natAbs ≤ 1) :
    ∃ r, mul target x y m = some r ∧ m.Outcome r target (m.value x * m.value y) := by
  simp only [mul]
  by_cases hzero : (m.count x).natAbs = 0 ∨ (m.count y).natAbs = 0
  · have hval : m.value x * m.value y = 0 := by
      rcases hzero with h0 | h0 <;> simp [value_of_count_eq_zero (Int.natAbs_eq_zero.mp h0)]
    rw [if_pos hzero, hval]
    exact ⟨_, rfl, outcome_zero hm ht⟩
  · rw [not_or] at hzero
    have hone : (m.count y).natAbs = 1 := by omega
    have hlow := hnx.mul_low hny hzero.1 hzero.2
    obtain ⟨hext, -⟩ := extends_resize hm ht ((m.count x).natAbs + 1)
    obtain ⟨v, hv, hmag⟩ := hext.exists_only_limb hy hny hone
    rw [hone, ← hmag] at hlow
    obtain ⟨c, g, h, hrun, hput, hout⟩ := mulOne_outcome hm ht hx hnx.count_le
      (Eq.refl (m.magnitude x)) v (by omega) hlow
      (decide (m.count x < 0) ^^ decide (m.count y < 0))
    rw [if_neg (not_or.mpr hzero), if_pos hone, hv, value_mul_value, ← hmag]
    simp only [Option.bind_eq_bind, Option.bind_some, hrun, hput]
    exact ⟨_, rfl, hout⟩

end Routines

/-! ## Agreement with the general operations -/

/-- Two runs leave the same number in the target, and in both it is normalised. -/
def Agrees (target : ℕ) (r r' : Option IntegerXMemory) : Prop :=
  ∃ m m', r = some m ∧ r' = some m' ∧ m.Normalised target ∧ m'.Normalised target ∧
    m.value target = m'.value target

section Agreement

variable {m : IntegerXMemory} {target x y z : ℕ}

lemma agrees_of_outcome {r r' : Option IntegerXMemory} {v : ℤ}
    (h : ∃ a, r = some a ∧ m.Outcome a target v) (h' : ∃ b, r' = some b ∧ m.Outcome b target v) :
    Agrees target r r' := by
  obtain ⟨a, ha, hout⟩ := h
  obtain ⟨b, hb, hout'⟩ := h'
  exact ⟨a, b, ha, hb, hout.normalised, hout'.normalised, hout.value.trans hout'.value.symm⟩

/-- The products agree unless a number is multiplied by zero. -/
lemma agrees_mulLimb_iff (hm : m.WellFormed) (ht : target < m.objects) (hx : x < m.objects)
    (hy : y < m.objects) (hnx : m.Normalised x) (hny : m.Normalised y) {v : Natural32}
    {negative : Bool} (hv : m.value y = if negative then -(v.toNat : ℤ) else v.toNat) :
    Agrees target (mulLimb target x v negative m) (mul target x y m) ↔
      (v = 0 → m.value x = 0) := by
  have hlt := v.isLt
  have hone : (m.count y).natAbs ≤ 1 := hny.count_le_one (by
    rw [hv]
    split <;> omega)
  have hmul := mul_outcome_of_le_one hm ht hx hy hnx hny hone
  rw [hnx.value_eq_zero_iff]
  constructor
  · rintro ⟨a, b, ha, hb, hna, -, hval⟩ rfl
    by_contra h0
    obtain ⟨b', hb', hout⟩ := hmul
    rw [hb, Option.some.injEq] at hb'
    have hzero : m.value y = 0 := by
      rw [hv, SpecialArithmetic.toNat_zero_limb]
      simp
    rw [hb', hout.value, hzero, mul_zero, hna.value_eq_zero_iff] at hval
    exact count_mulLimb_zero h0 negative ha hval
  · intro hcond
    have hleft := mulLimb_outcome hm ht hx hnx hcond negative
    rw [← hv] at hleft
    exact agrees_of_outcome hleft hmul

/-- **When the routines for one limb agree with the general ones.** `add_ui` and `ui_sub` always do,
`sub_ui` unless it takes a number from zero, `mul_ui` and `mul_si` unless they multiply a number by
zero. -/
theorem singleLimb_iff (hm : m.WellFormed) (ht : target < m.objects)
    (hcap : 1 ≤ m.capacity target) (hx : x < m.objects) (hy : y < m.objects) (hz : z < m.objects)
    (hnx : m.Normalised x) (hny : m.Normalised y) (hnz : m.Normalised z) (v : Natural32)
    (w : BitVec 32) (hv : m.value y = v.toNat) (hw : m.value z = w.toInt) :
    Agrees target (addUi target x v m) (add target x y m) ∧
      Agrees target (uiSub target v x m) (sub target y x m) ∧
      (Agrees target (subUi target x v m) (sub target x y m) ↔ (m.value x = 0 → v = 0)) ∧
      (Agrees target (mulUi target x v m) (mul target x y m) ↔ (v = 0 → m.value x = 0)) ∧
      (Agrees target (mulSi target x w m) (mul target x z m) ↔ (w = 0 → m.value x = 0)) := by
  have hadd {a b : ℕ} (ha : a < m.objects) (hb : b < m.objects) (hna : m.Normalised a)
      (hnb : m.Normalised b) :
      ∃ r, add target a b m = some r ∧ m.Outcome r target (m.value a + m.value b) :=
    addArranged_outcome hm ht ha hb hna hnb rfl rfl
  have hsub {a b : ℕ} (ha : a < m.objects) (hb : b < m.objects) (hna : m.Normalised a)
      (hnb : m.Normalised b) :
      ∃ r, sub target a b m = some r ∧ m.Outcome r target (m.value a - m.value b) := by
    obtain ⟨r, hr, hout⟩ := addArranged_outcome hm ht ha hb hna hnb
      (Eq.refl (m.count a).natAbs) (Int.natAbs_neg (m.count b))
    rw [Int.sign_neg, Int.neg_mul, ← Int.sub_eq_add_neg] at hout
    exact ⟨r, hr, hout⟩
  refine ⟨?_, ?_, ?_, ?_, ?_⟩
  · refine agrees_of_outcome (addUi_outcome hm ht hx hnx v) ?_
    rw [← hv]
    exact hadd hx hy hnx hny
  · refine agrees_of_outcome (uiSub_outcome hm ht hx hnx hcap v) ?_
    rw [← hv]
    exact hsub hy hx hny hnx
  · rw [hnx.value_eq_zero_iff]
    constructor
    · rintro ⟨a, b, ha, -, hna, -⟩ h0
      by_contra hne
      exact not_normalised_subUi hm ht h0 hne ha hna
    · intro hcond
      refine agrees_of_outcome (subUi_outcome hm ht hx hnx hcond) ?_
      rw [← hv]
      exact hsub hx hy hnx hny
  · exact agrees_mulLimb_iff hm ht hx hy hnx hny hv
  · have hlt := w.isLt
    have hmag : w.abs.toNat = w.toInt.natAbs := by
      rw [BitVec.toNat_abs, BitVec.toInt_eq_msb_cond]
      split <;> omega
    have habs : w.toInt =
        if decide (w.toInt < 0) = true then -(w.abs.toNat : ℤ) else w.abs.toNat := by
      rw [hmag]
      by_cases hneg : w.toInt < 0
      · rw [if_pos (decide_eq_true hneg)]
        omega
      · rw [if_neg (by simpa using hneg)]
        omega
    have hzero : w.abs = 0 ↔ w = 0 := by
      rw [← BitVec.toNat_inj, hmag, ← BitVec.toInt_inj]
      exact Int.natAbs_eq_zero
    rw [← hzero]
    exact agrees_mulLimb_iff hm ht hx hz hnx hnz (hw.trans habs)

/-- Memory with a target and the objects `2 ^ 32 - 1`, `1` and `- 1`. -/
def four : IntegerXMemory where
  arrays := fun a => if a = 0 then [0] else if a = 1 then [0xffffffff] else [1]
  free := 4
  objects := 4
  item := fun x => x
  count := fun x => if x = 0 then 0 else if x = 3 then -1 else 1

/-- The routines for one limb with `2 ^ 32 - 1` and one or minus one. -/
theorem singleLimb_iff_four :
    Agrees 0 (addUi 0 1 1 four) (add 0 1 2 four) ∧
      Agrees 0 (uiSub 0 1 1 four) (sub 0 2 1 four) ∧
      (Agrees 0 (subUi 0 1 1 four) (sub 0 1 2 four) ↔ (four.value 1 = 0 → (1 : Natural32) = 0)) ∧
      (Agrees 0 (mulUi 0 1 1 four) (mul 0 1 2 four) ↔ ((1 : Natural32) = 0 → four.value 1 = 0)) ∧
      (Agrees 0 (mulSi 0 1 (-1) four) (mul 0 1 3 four) ↔
        ((-1 : BitVec 32) = 0 → four.value 1 = 0)) :=
  singleLimb_iff (m := four) ⟨by decide, by decide⟩ (by decide) (by decide) (by decide) (by decide)
    (by decide) ⟨by decide, by decide⟩ ⟨by decide, by decide⟩ ⟨by decide, by decide⟩ 1 (-1)
    (by decide) (by decide)

/-- One is taken from zero: the target gets one limb, which is zero. -/
theorem not_agrees_subUi_zero :
    ¬ Agrees 0 (subUi 0 0 1 four) (sub 0 0 2 four) := by
  rintro ⟨a, b, ha, -, hn, -⟩
  have hrun : (subUi 0 0 1 four).map (fun r => (r.count 0, r.arrays (r.item 0))) =
      some (-1, [0]) := by decide
  rw [ha, Option.map_some, Option.some.injEq, Prod.mk.injEq] at hrun
  refine hn.top (by rw [hrun.1]; decide) ?_
  rw [Arrays.item, hrun.1, hrun.2]
  rfl

end Agreement

end IntegerXMemory

end EiffelWeb
