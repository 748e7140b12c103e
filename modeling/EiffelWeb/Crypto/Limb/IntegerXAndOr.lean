import EiffelWeb.Crypto.Limb.IntegerXBitwise

set_option relaxedAutoImplicit false
set_option autoImplicit false

/-!
# Conjunctions and disjunctions of new objects

The routines `bit_and_value` and `bit_or_value` of `READABLE_INTEGER_X` work on a copy of the
object. The routines `bit_and` and `bit_or` behind them have four branches each, for the signs of
the operands. Some of them go wrong:

* If only the first operand is negative, the operands are exchanged but not their sizes, and an
  array with a negative number of items is asked for.
* `bit_and` adds the limbs of two numbers that are not negative.
* `bit_or` does not set the count of a result that is not negative.
* `bit_or` of a number that is not negative and one that is has an `else` that belongs to another
  condition: without a carry the number `1` is stored in the place of the result.

## Main definitions

* `IntegerXMemory.bitAnd`, `IntegerXMemory.bitAndValue`
* `IntegerXMemory.bitOr`, `IntegerXMemory.bitOrValue`

## Main results

* `IntegerXMemory.bitAnd_outcome`, `IntegerXMemory.bitAnd_wrong`
* `IntegerXMemory.bitOr_outcome`, `IntegerXMemory.bitOr_wrong`
* `IntegerXMemory.and_or_bits` — when the bits of the results are right.
-/

namespace EiffelWeb

open Limbs Arrays

namespace IntegerXMemory

/-! ## Conjunctions -/

/-- `bit_and` for two operands that are not negative. -/
def bitAndNonneg (target op1 op2 : ℕ) (m : IntegerXMemory) : Option IntegerXMemory :=
  (SpecialLogic.scan (· &&& ·) (m.item op1) (m.item op2)
      (min (m.count op1).toNat (m.count op2).toNat) m.arrays).bind fun resSize =>
    let m := m.resize target resSize
    if resSize ≠ 0 then
      -- the limbs are added
      (SpecialArithmetic.addN (m.item target) 0 (m.item op1) 0 (m.item op2) 0 resSize
        m.arrays).map fun r => m.conclude target r.2 resSize false
    else some (m.conclude target m.arrays 0 false)

/-- `bit_and` for two negative operands. -/
def bitAndNegative (target op1 op2 : ℕ) (m : IntegerXMemory) : Option IntegerXMemory := do
  let op1Size := (m.count op1).natAbs
  let op2Size := (m.count op2).natAbs
  let op1Ptr := m.free
  let m ← m.predArray (m.item op1) op1Size
  let op2Ptr := m.free
  let m ← m.predArray (m.item op2) op2Size
  let m := m.resize target (1 + max op1Size op2Size)
  let h ← SpecialLogic.combine (· ||| ·) (m.item target) op1Ptr op1Size op2Ptr op2Size
    (op2Size ≤ op1Size) m.arrays
  let (resSize, h) ← addOne (m.item target) (m.item target) (max op1Size op2Size) h
  return m.conclude target h resSize true

/-- `bit_and` for a second operand that is negative. The sizes are passed as the routine has them:
they are not exchanged with the operands. -/
def bitAndMixed (target op1 op2 : ℕ) (op1Size op2Size : ℤ) (m : IntegerXMemory) :
    Option IntegerXMemory := do
  let op2Size := -op2Size
  let op2Ptr := m.free
  let m ← m.predArray (m.item op2) op2Size
  let n := op1Size.toNat
  let k := op2Size.toNat
  if op2Size < op1Size then
    let m := m.resize target n
    let h ← m.arrays.copyData (m.item target) (m.item op1) k k (n - k)
    let h ← SpecialLogic.limbwise (fun x y => x &&& ~~~y) (m.item target) (m.item op1) op2Ptr k h
    return m.conclude target h n false
  else
    let resSize ← SpecialLogic.scan (fun x y => x &&& ~~~y) (m.item op1) op2Ptr n m.arrays
    let m := m.resize target resSize
    let h ← SpecialLogic.limbwise (fun x y => x &&& ~~~y) (m.item target) (m.item op1) op2Ptr
      resSize m.arrays
    return m.conclude target h resSize false

/-- `bit_and (target, op1, op2)`. -/
def bitAnd (target op1 op2 : ℕ) (m : IntegerXMemory) : Option IntegerXMemory :=
  if 0 ≤ m.count op1 then
    if 0 ≤ m.count op2 then m.bitAndNonneg target op1 op2
    else m.bitAndMixed target op1 op2 (m.count op1) (m.count op2)
  else if m.count op2 < 0 then m.bitAndNegative target op1 op2
  else m.bitAndMixed target op2 op1 (m.count op1) (m.count op2)

/-- `bit_and_value (other)`. The new object has the number of objects before. -/
def bitAndValue (x other : ℕ) (m : IntegerXMemory) : Option IntegerXMemory :=
  (m.identity x).bitAnd m.objects m.objects other

/-! ## Disjunctions -/

/-- `bit_or` for two operands that are not negative. The count of the result stays what it was. -/
def bitOrNonneg (res op1 op2 : ℕ) (m : IntegerXMemory) : Option IntegerXMemory := do
  let op1Size := (m.count op1).toNat
  let op2Size := (m.count op2).toNat
  if op2Size ≤ op1Size then
    let m := m.resize res op1Size
    let h ← (if m.item op1 ≠ m.item res then
        m.arrays.copyData (m.item res) (m.item op1) op2Size op2Size (op1Size - op2Size)
      else some m.arrays)
    let h ← SpecialLogic.limbwise (· ||| ·) (m.item res) (m.item op1) (m.item op2) op2Size h
    return { m with arrays := h }
  else
    let m := m.resize res op2Size
    let h ← (if m.item op2 ≠ m.item res then
        m.arrays.copyData (m.item res) (m.item op2) op1Size op1Size (op2Size - op1Size)
      else some m.arrays)
    let h ← SpecialLogic.limbwise (· ||| ·) (m.item res) (m.item op1) (m.item op2) op1Size h
    return { m with arrays := h }

/-- `bit_or` for two negative operands. -/
def bitOrNegative (res op1 op2 : ℕ) (m : IntegerXMemory) : Option IntegerXMemory := do
  let size := min (m.count op1).natAbs (m.count op2).natAbs
  let op1Ptr := m.free
  let m ← m.predArray (m.item op1) size
  let op2Ptr := m.free
  let m ← m.predArray (m.item op2) size
  let m := m.resize res size
  let resSize ← SpecialLogic.scan (· &&& ·) op1Ptr op2Ptr size m.arrays
  if resSize ≠ 0 then
    let h ← SpecialLogic.limbwise (· &&& ·) (m.item res) op1Ptr op2Ptr resSize m.arrays
    let (resSize, h) ← addOne (m.item res) (m.item res) resSize h
    return m.conclude res h resSize true
  else
    let h ← m.arrays.put (m.item res) 0 1
    return m.conclude res h 1 true

/-- The limbs that `bit_or` makes for a second operand that is negative, and their number. -/
def bitOrMixedLimbs (rp op1Ptr op1Size op2Ptr op2Size : ℕ) (h : LimbHeap) :
    Option (ℕ × LimbHeap) :=
  if op2Size ≤ op1Size then
    (SpecialLogic.scan (fun x y => ~~~x &&& y) op1Ptr op2Ptr op2Size h).bind fun resSize =>
      (SpecialLogic.limbwise (fun x y => ~~~x &&& y) rp op1Ptr op2Ptr resSize h).map fun h =>
        (resSize, h)
  else
    (h.copyData rp op2Ptr op1Size op1Size (op2Size - op1Size)).bind fun h =>
      (SpecialLogic.limbwise (fun x y => ~~~x &&& y) rp op1Ptr op2Ptr op1Size h).map fun h =>
        (op2Size, h)

/-- The end of `bit_or` for a second operand that is negative. The branch without a carry stores
the number `1`. -/
def bitOrMixedEnd (res resSize : ℕ) (h : LimbHeap) (m : IntegerXMemory) :
    Option IntegerXMemory :=
  if resSize ≠ 0 then
    (SpecialArithmetic.add1 (m.item res) 0 (m.item res) 0 resSize 1 h).bind fun r =>
      if r.1 ≠ 0 then
        (r.2.put (m.item res) resSize r.1).map fun h => m.conclude res h (resSize + 1) true
      else (r.2.put (m.item res) 0 1).map fun h => m.conclude res h 1 true
  else some { m with arrays := h }

/-- `bit_or` for a second operand that is negative. The sizes are passed as the routine has them:
they are not exchanged with the operands. -/
def bitOrMixed (res op1 op2 : ℕ) (op1Size op2Size : ℤ) (m : IntegerXMemory) :
    Option IntegerXMemory := do
  let op2Size := -op2Size
  let resAlloc := op2Size.toNat
  let op2Ptr := m.free
  let m ← m.predArray (m.item op2) op2Size
  let x ← m.arrays.item op2Ptr (op2Size.toNat - 1)
  let op2Size := op2Size.toNat - if x = 0 then 1 else 0
  let m := m.resize res resAlloc
  let (resSize, h) ← bitOrMixedLimbs (m.item res) (m.item op1) op1Size.toNat op2Ptr op2Size m.arrays
  m.bitOrMixedEnd res resSize h

/-- `bit_or (res, op1, op2)`. -/
def bitOr (res op1 op2 : ℕ) (m : IntegerXMemory) : Option IntegerXMemory :=
  if 0 ≤ m.count op1 then
    if 0 ≤ m.count op2 then m.bitOrNonneg res op1 op2
    else m.bitOrMixed res op1 op2 (m.count op1) (m.count op2)
  else if m.count op2 < 0 then m.bitOrNegative res op1 op2
  else m.bitOrMixed res op2 op1 (m.count op1) (m.count op2)

/-- `bit_or_value (other)`. -/
def bitOrValue (x other : ℕ) (m : IntegerXMemory) : Option IntegerXMemory :=
  (m.identity x).bitOr m.objects m.objects other

section Parts

variable {m : IntegerXMemory} {x y n : ℕ}

/-- The number that is left by a routine. -/
lemma value_conclude (m : IntegerXMemory) (x : ℕ) (h : LimbHeap) (n : ℕ) (negative : Bool) :
    (m.conclude x h n negative).value x =
      if negative then -(h.number (m.item x) 0 n : ℤ) else h.number (m.item x) 0 n := by
  have hcount : (m.conclude x h n negative).count x = if negative then -(n : ℤ) else n :=
    Function.update_self _ _ _
  have habs : (if negative then -(n : ℤ) else n).natAbs = n := by split <;> omega
  rw [IntegerXMemory.value, magnitude, hcount, habs]
  refine sign_mul_count fun h0 => ?_
  rw [h0]
  exact LimbHeap.number_zero _ _ _

/-- No new array without items can take one less. -/
lemma predArray_none (m : IntegerXMemory) (p : ℕ) {size : ℤ} (h : size ≤ 0) :
    m.predArray p size = none := by
  rcases h.eq_or_lt with rfl | hneg
  · have hput (g : LimbHeap) (d : Natural32) (hg : g m.free = []) : g.put m.free 0 d = none := by
      rw [Arrays.put, hg]
      rfl
    rw [predArray, if_neg (lt_irrefl 0), Int.toNat_zero, List.replicate_zero,
      SpecialArithmetic.sub1]
    cases Arrays.item (Function.update m.arrays m.free []) p 0 with
    | none => rfl
    | some d =>
      rw [Option.bind_eq_bind, Option.bind_some, hput _ _ (Function.update_self _ _ _)]
      rfl
  · exact if_pos hneg

lemma pow_add_pred {k d : ℕ} (hd : 1 ≤ d) :
    (2 ^ 32) ^ (k + d - 1) = (2 ^ 32) ^ k * (2 ^ 32) ^ (d - 1) := by
  rw [← pow_add, Nat.add_sub_assoc hd]

/-- The highest limb of a number is that of its high limbs. -/
lemma pow_le_high {low high k d : ℕ} (hlow : low < (2 ^ 32) ^ k) (hd : 1 ≤ d)
    (h : (2 ^ 32) ^ (k + d - 1) ≤ low + (2 ^ 32) ^ k * high) : (2 ^ 32) ^ (d - 1) ≤ high := by
  rw [pow_add_pred hd] at h
  by_contra hlt
  have hnext := Nat.mul_le_mul_left ((2 ^ 32) ^ k) (Nat.succ_le_of_lt (not_le.mp hlt))
  rw [Nat.mul_succ] at hnext
  omega

/-- A sum without its carry is not the conjunction of the numbers, unless that is zero. -/
lemma add_mod_ne_and {u v k : ℕ} (hu : u < 2 ^ k) (hv : v < 2 ^ k) (hne : u &&& v ≠ 0) :
    (u + v) % 2 ^ k ≠ u &&& v := by
  have hor : u ||| v < 2 ^ k := Nat.or_lt_two_pow hu hv
  have hand : u &&& v ≤ u := Nat.and_le_left
  have hle : u ≤ u ||| v := Nat.left_le_or
  have hsum := TwosComplement.or_add_and u v
  intro heq
  rcases Nat.lt_or_ge (u + v) (2 ^ k) with hlt | hge
  · rw [Nat.mod_eq_of_lt hlt] at heq
    omega
  · rw [Nat.mod_eq_sub_mod hge, Nat.mod_eq_of_lt (by omega)] at heq
    omega

end Parts

/-! ## The branches of `bit_and` -/

section And

variable {m : IntegerXMemory} {target op1 op2 x y : ℕ}

/-- **`bit_and`** of numbers that are not negative is right only if the result is zero.

**Proof sketch.** The search finds the limbs that the result needs. If there are any, the sum of
them is stored. -/
lemma bitAndNonneg_run (hm : m.WellFormed) (hx : x < m.objects) (hnx : m.Normalised x)
    (hny : m.Normalised y) (hposx : 0 ≤ m.count x) (hposy : 0 ≤ m.count y) :
    ∃ m', m.bitAndNonneg x x y = some m' ∧
      (m.magnitude x &&& m.magnitude y = 0 → m.Outcome m' x 0) ∧
      (m.magnitude x &&& m.magnitude y ≠ 0 →
        m'.value x ≠ ((m.magnitude x &&& m.magnitude y : ℕ) : ℤ)) := by
  obtain ⟨a, ha⟩ : ∃ a : ℕ, m.count x = a := ⟨(m.count x).toNat, by omega⟩
  obtain ⟨b, hb⟩ : ∃ b : ℕ, m.count y = b := ⟨(m.count y).toNat, by omega⟩
  have hcapx := hnx.count_le
  have hcapy := hny.count_le
  have hmagx : m.arrays.number (m.item x) 0 a = m.magnitude x := by
    rw [magnitude, ha, Int.natAbs_natCast]
  have hmagy : m.arrays.number (m.item y) 0 b = m.magnitude y := by
    rw [magnitude, hb, Int.natAbs_natCast]
  rw [ha, Int.natAbs_natCast, capacity] at hcapx
  rw [hb, Int.natAbs_natCast, capacity] at hcapy
  have hltx : m.magnitude x < (2 ^ 32) ^ a := hmagx ▸ m.arrays.number_lt (by omega)
  have hlty : m.magnitude y < (2 ^ 32) ^ b := hmagy ▸ m.arrays.number_lt (by omega)
  obtain ⟨r, hscan, hle, hval, hlow⟩ := SpecialLogic.scan_eq SpecialLogic.actsOnBits_and
    (h := m.arrays) (p := m.item x) (q := m.item y) (min a b) (by omega) (by omega)
  rw [number_mod m.arrays (Nat.min_le_left a b) hcapx, hmagx,
    number_mod m.arrays (Nat.min_le_right a b) hcapy, hmagy,
    SpecialLogic.actsOnBits_and.bitwise_mod_min rfl rfl hltx hlty] at hval hlow
  change m.magnitude x &&& m.magnitude y =
    m.arrays.number (m.item x) 0 r &&& m.arrays.number (m.item y) 0 r at hval
  change r ≠ 0 → _ ≤ m.magnitude x &&& m.magnitude y at hlow
  have hres : m.resize x r = m := if_neg (by rw [capacity]; omega)
  by_cases hr : r = 0
  · subst hr
    have hzero : m.magnitude x &&& m.magnitude y = 0 := by
      rw [hval, LimbHeap.number_zero, Nat.zero_and]
    refine ⟨m.conclude x m.arrays 0 false, ?_, fun _ => ?_, fun hne => absurd hzero hne⟩
    · simp only [bitAndNonneg, ha, hb, Int.toNat_natCast, hscan, Option.bind_some, hres, ne_eq,
        not_true_eq_false, if_false]
    · exact ((Extends.refl hm).keepsOthers x).outcome_conclude hx
        ((SameOutside.refl (region (m.item x) 0 0) m.arrays).keptBelow m.free) (Nat.zero_le _)
        (LimbHeap.number_zero _ _ _) (fun h0 => absurd rfl h0) false
  · set sum := m.arrays.number (m.item x) 0 r + m.arrays.number (m.item y) 0 r with hsum
    have hstored : 0 + (ofNat 32 r sum).length ≤ (m.arrays (m.item x)).length := by
      rw [length_ofNat]
      omega
    have hread := segment_store_self hstored
    rw [length_ofNat] at hread
    have hadd := SpecialArithmetic.addN_eq (show 0 + r ≤ (m.arrays (m.item x)).length by omega)
      (show 0 + r ≤ (m.arrays (m.item x)).length by omega)
      (show 0 + r ≤ (m.arrays (m.item y)).length by omega) (fun _ => Or.inl le_rfl)
      (fun _ => Or.inl le_rfl)
    rw [← hsum] at hadd
    have hpow : (2 ^ 32) ^ r = 2 ^ (32 * r) := (Nat.pow_mul 2 32 r).symm
    have hltx' : m.arrays.number (m.item x) 0 r < 2 ^ (32 * r) :=
      hpow ▸ m.arrays.number_lt (by omega)
    have hlty' : m.arrays.number (m.item y) 0 r < 2 ^ (32 * r) :=
      hpow ▸ m.arrays.number_lt (by omega)
    have hlow' := hlow hr
    have hpos : 0 < (2 ^ 32) ^ (r - 1) := by positivity
    refine ⟨m.conclude x (m.arrays.store (m.item x) 0 (ofNat 32 r sum)) r false, ?_,
      fun h0 => absurd h0 (by omega), fun hne => ?_⟩
    · simp only [bitAndNonneg, ha, hb, Int.toNat_natCast, hscan, Option.bind_some, hres, ne_eq, hr,
        not_false_eq_true, if_true, hadd, Option.map_some]
    · rw [value_conclude, if_neg Bool.false_ne_true, LimbHeap.number, hread, value_ofNat, hval,
        hpow]
      exact fun heq => add_mod_ne_and hltx' hlty' (hval ▸ hne) (Int.ofNat.inj heq)

/-- **`bit_and`** of two negative numbers. -/
lemma bitAndNegative_outcome (hm : m.WellFormed) (ht : target < m.objects) (h₁ : op1 < m.objects)
    (h₂ : op2 < m.objects) (hn₁ : m.Normalised op1) (hn₂ : m.Normalised op2)
    (hneg₁ : m.count op1 < 0) (hneg₂ : m.count op2 < 0) :
    ∃ m', m.bitAndNegative target op1 op2 = some m' ∧ m.Outcome m' target
      (Int.negSucc ((m.magnitude op1 - 1) ||| (m.magnitude op2 - 1))) := by
  obtain ⟨r₁, r, hpred₁, hpred₂, hops⟩ := operands_negative hm h₁ h₂ hn₁ hn₂ hneg₁ hneg₂
    (by omega) le_rfl (by omega) le_rfl
  rw [pred_magnitude_mod hn₁, pred_magnitude_mod hn₂] at hops
  have hlow₁ := (normalised_iff.mp hn₁).2 hneg₁.ne
  have hlow₂ := (normalised_iff.mp hn₂).2 hneg₂.ne
  set a := (m.count op1).natAbs with ha
  set b := (m.count op2).natAbs with hb
  obtain ⟨hops', hcap⟩ := hops.resize ht (1 + max a b)
  set s := r.resize target (1 + max a b) with hs
  rw [capacity] at hcap
  obtain ⟨g, hcombine, hval, hfoot⟩ := SpecialLogic.combine_run SpecialLogic.actsOnBits_or
    (show b ≤ a → b ≤ a from id) (fun h => (not_le.mp h).le) rfl rfl
    (show max a b ≤ (s.arrays (s.item target)).length by omega) hops'.first_length
    hops'.second_length
  rw [hops'.first, hops'.second] at hval
  change _ = (m.magnitude op1 - 1) ||| (m.magnitude op2 - 1) at hval
  obtain ⟨e, g', hone, he, hval', hroom, hover, hfoot'⟩ := addOne_run (h := g)
    (p := s.item target) (show 1 ≤ max a b by omega)
    (show max a b ≤ (g (s.item target)).length by rw [hfoot.length]; omega)
    (by rw [hfoot.length]; omega) fun _ => by rw [hfoot.length]; omega
  rw [hfoot.length] at hroom
  rw [hval] at hval' hover
  have hboth : SameOutside (region (s.item target) 0 (max a b + e)) s.arrays g' :=
    hfoot.join hfoot' (by omega) (by omega)
  have hle₁ : m.magnitude op1 - 1 ≤ (m.magnitude op1 - 1) ||| (m.magnitude op2 - 1) :=
    Nat.left_le_or
  have hle₂ : m.magnitude op2 - 1 ≤ (m.magnitude op1 - 1) ||| (m.magnitude op2 - 1) :=
    Nat.right_le_or
  have hout := (hops'.extends_old.keepsOthers target).outcome_conclude ht
    (hboth.keptBelow s.free) hroom hval' (fun _ => by
      rcases Nat.le_one_iff_eq_zero_or_eq_one.mp he with rfl | rfl
      · rcases Nat.le_total a b with hab | hab
        · rw [Nat.max_eq_right hab, Nat.add_zero]
          omega
        · rw [Nat.max_eq_left hab, Nat.add_zero]
          omega
      · exact hover rfl) true
  refine ⟨_, ?_, hout⟩
  simp only [bitAndNegative, ← ha, ← hb, hpred₁, hpred₂, Option.bind_eq_bind, Option.bind_some,
    ← hs, hcombine, hone]
  rfl

/-- **`bit_and`** of a number that is not negative and one that is. -/
lemma bitAndMixed_outcome (hm : m.WellFormed) (ht : target < m.objects) (h₁ : op1 < m.objects)
    (h₂ : op2 < m.objects) (hn₁ : m.Normalised op1) (hn₂ : m.Normalised op2)
    (hnonneg : 0 ≤ m.count op1) (hneg : m.count op2 < 0) :
    ∃ m', m.bitAndMixed target op1 op2 (m.count op1) (m.count op2) = some m' ∧
      m.Outcome m' target (Nat.ldiff (m.magnitude op1) (m.magnitude op2 - 1) : ℕ) := by
  obtain ⟨s, hpred, hitem, hops⟩ := operands_mixed hm h₁ h₂ hn₁ hn₂ hneg
  have hcap₁ := hn₁.count_le
  have hlow₁ := (normalised_iff.mp hn₁).2
  obtain ⟨a, ha⟩ : ∃ a : ℕ, m.count op1 = a := ⟨(m.count op1).toNat, by omega⟩
  obtain ⟨k, hk⟩ : ∃ k : ℕ, m.count op2 = -(k : ℤ) := ⟨(m.count op2).natAbs, by omega⟩
  have habs : (m.count op2).natAbs = k := by omega
  rw [habs] at hpred hops
  rw [ha, Int.natAbs_natCast] at hops hcap₁ hlow₁
  have hltu : m.magnitude op1 < (2 ^ 32) ^ a := by
    rw [← hops.first]
    exact s.arrays.number_lt (by rw [Nat.zero_add]; exact hops.first_length)
  by_cases hka : k < a
  · -- the high limbs of the first operand are copied
    obtain ⟨hops', hcap⟩ := hops.resize ht a
    have hcapx := hcap₁.trans (hops'.extends_old.capacity op1 h₁)
    have hnumx := hops'.extends_old.number h₁ hcap₁
    rw [capacity] at hcap hcapx
    have hmag : m.arrays.number (m.item op1) 0 a = m.magnitude op1 := by
      rw [magnitude, ha, Int.natAbs_natCast]
    rw [hmag] at hnumx
    set t := s.resize target a with htt
    obtain ⟨d, rfl⟩ := Nat.exists_eq_add_of_le hka.le
    obtain ⟨g, hcopy, hhigh, hfoot⟩ := LimbHeap.run_copyData (h := t.arrays) (t := t.item target)
      (a := t.item op1) (i := k) (j := k) (n := d) (by omega) (by omega)
    obtain ⟨g', hloop, hval, hfoot'⟩ := SpecialLogic.limbwise_behind
      SpecialLogic.actsOnBits_andNot (p := t.item op1) hcap (by omega) hops'.second_length hhigh
      hfoot
    have hvalue := hval
    rw [SpecialLogic.actsOnBits_andNot.bitwise_left rfl hcapx hops'.second_length, hnumx,
      hops'.second] at hvalue
    have hout := (hops'.extends_old.keepsOthers target).outcome_conclude ht
      (hfoot'.keptBelow t.free) hcap hvalue (fun _ => by
        -- the highest limb of the first operand is copied
        have hsplit := t.arrays.number_add (a := t.item op1) (i := 0) (m := k) (n := d) (by omega)
        have hltlow : t.arrays.number (t.item op1) 0 k < (2 ^ 32) ^ k :=
          t.arrays.number_lt (by omega)
        rw [hnumx, Nat.zero_add] at hsplit
        have hge := pow_le_high hltlow (show 1 ≤ d by omega) (hsplit ▸ hlow₁ (by omega))
        rw [← hvalue, hval, pow_add_pred (by omega)]
        exact (Nat.mul_le_mul_left _ hge).trans (Nat.le_add_left _ _)) false
    refine ⟨_, ?_, hout⟩
    have hlt : (k : ℤ) < ((k + d : ℕ) : ℤ) := by omega
    simp only [bitAndMixed, ha, hk, neg_neg, hpred, Option.bind_eq_bind, Option.bind_some,
      Int.toNat_natCast, if_pos hlt, ← htt, Nat.add_sub_cancel_left, hcopy, hloop]
    rfl
  · have hak : a ≤ k := not_lt.mp hka
    have hlen₂ := hops.second_length
    obtain ⟨r, hscan, hle, hval, hlow⟩ := SpecialLogic.scan_eq SpecialLogic.actsOnBits_andNot
      (h := s.arrays) (p := m.item op1) (q := m.free) a hops.first_length (by omega)
    rw [hops.first, number_mod s.arrays hak hlen₂, hops.second,
      SpecialLogic.actsOnBits_andNot.bitwise_mod_right rfl _ hltu] at hval hlow
    obtain ⟨hops', hcap⟩ := hops.resize ht r
    have hold := hops.extends_old
    obtain ⟨hext, -⟩ := extends_resize hold.wellFormed (x := target) (by rwa [hold.objects]) r
    have hcaps : r ≤ s.capacity op1 := (hle.trans hcap₁).trans (hold.capacity op1 h₁)
    have hnumx := hext.number (show op1 < s.objects by rwa [hold.objects]) hcaps
    have hcapx := hcaps.trans (hext.capacity op1 (by rwa [hold.objects]))
    have hnumy := number_mod (s.resize target r).arrays (a := m.free) (hle.trans hak)
      hops'.second_length
    rw [hops'.second] at hnumy
    have hnumy' := number_mod s.arrays (a := m.free) (hle.trans hak) hlen₂
    rw [hops.second, ← hnumy] at hnumy'
    rw [capacity] at hcap hcapx
    rw [hitem] at hnumx
    set t := s.resize target r with htt
    obtain ⟨g, hloop, hvalue, hfoot⟩ := SpecialLogic.limbwise_run SpecialLogic.actsOnBits_andNot
      (h := t.arrays) (p := t.item op1) (q := m.free) r hcap hcapx
      ((hle.trans hak).trans hops'.second_length)
    rw [hnumx, ← hnumy', ← hval] at hvalue
    have hout := (hops'.extends_old.keepsOthers target).outcome_conclude ht
      (hfoot.keptBelow t.free) hcap hvalue hlow false
    refine ⟨_, ?_, hout⟩
    have hlt : ¬ (k : ℤ) < (a : ℤ) := by omega
    simp only [bitAndMixed, ha, hk, neg_neg, hpred, Option.bind_eq_bind, Option.bind_some,
      Int.toNat_natCast, if_neg hlt, hitem, hscan, ← htt, hloop]
    rfl

end And

/-! ## The branches of `bit_or` -/

section Or

variable {m : IntegerXMemory} {target op1 op2 x y : ℕ}

/-- The limbs of a routine that leaves the count as it was. -/
lemma outcome_of_count {s : IntegerXMemory} (h : m.KeepsOthers s x) (hx : x < m.objects)
    {g : LimbHeap} {w v : ℕ} (hkept : KeptBelow s.free (region (s.item x) 0 w) s.arrays g)
    (hcap : (m.count x).natAbs ≤ s.capacity x)
    (hv : g.number (s.item x) 0 (m.count x).natAbs = v)
    (hlow : m.count x ≠ 0 → (2 ^ 32) ^ ((m.count x).natAbs - 1) ≤ v) :
    m.Outcome { s with arrays := g } x (if m.count x < 0 then -(v : ℤ) else v) := by
  have hsame : Function.update s.count x (m.count x) = s.count := by
    rw [← h.count, Function.update_eq_self]
  have habs : (if decide (m.count x < 0) = true then -((m.count x).natAbs : ℤ)
      else (m.count x).natAbs) = m.count x := by
    by_cases hneg : m.count x < 0
    · rw [decide_eq_true hneg, if_pos rfl]
      omega
    · rw [decide_eq_false hneg, if_neg Bool.false_ne_true]
      omega
  have hout := h.outcome_conclude hx hkept hcap hv (fun hne => hlow (by omega))
    (decide (m.count x < 0))
  rw [conclude, habs, hsame] at hout
  simpa only [decide_eq_true_eq] using hout

/-- **`bit_or`** of numbers that are not negative is right only if the second operand has no more
limbs than the first one, whose count the result keeps. -/
lemma bitOrNonneg_run (hm : m.WellFormed) (hx : x < m.objects) (hy : y < m.objects) (hyx : y ≠ x)
    (hnx : m.Normalised x) (hny : m.Normalised y) (hposx : 0 ≤ m.count x)
    (hposy : 0 ≤ m.count y) :
    ∃ m', m.bitOrNonneg x x y = some m' ∧
      (m.count y ≤ m.count x → m.Outcome m' x ((m.magnitude x ||| m.magnitude y : ℕ) : ℤ)) ∧
      (m.count x < m.count y →
        m'.value x ≠ ((m.magnitude x ||| m.magnitude y : ℕ) : ℤ)) := by
  have hlowx := (normalised_iff.mp hnx).2
  have hlowy := (normalised_iff.mp hny).2
  have hcapx := hnx.count_le
  have hcapy := hny.count_le
  obtain ⟨a, ha⟩ : ∃ a : ℕ, m.count x = a := ⟨(m.count x).toNat, by omega⟩
  obtain ⟨b, hb⟩ : ∃ b : ℕ, m.count y = b := ⟨(m.count y).toNat, by omega⟩
  have hmagx : m.arrays.number (m.item x) 0 a = m.magnitude x := by
    rw [magnitude, ha, Int.natAbs_natCast]
  have hmagy : m.arrays.number (m.item y) 0 b = m.magnitude y := by
    rw [magnitude, hb, Int.natAbs_natCast]
  rw [ha, Int.natAbs_natCast] at hlowx hcapx
  rw [hb, Int.natAbs_natCast] at hlowy hcapy
  by_cases hba : b ≤ a
  · have hres : m.resize x a = m := if_neg (not_lt.mpr hcapx)
    obtain ⟨d, rfl⟩ := Nat.exists_eq_add_of_le hba
    have hcapx' := hcapx
    rw [capacity] at hcapx' hcapy
    obtain ⟨g, hloop, hval, hfoot⟩ := SpecialLogic.limbwise_behind SpecialLogic.actsOnBits_or
      (p := m.item x) hcapx' (by omega) hcapy rfl
      (SameOutside.refl (region (m.item x) b d) m.arrays)
    rw [SpecialLogic.actsOnBits_or.bitwise_left rfl hcapx' hcapy, hmagx, hmagy] at hval
    change _ = m.magnitude x ||| m.magnitude y at hval
    have hle : m.magnitude x ≤ m.magnitude x ||| m.magnitude y := Nat.left_le_or
    refine ⟨{ m with arrays := g }, ?_, fun _ => ?_, fun hlt => absurd hlt (by omega)⟩
    · simp only [bitOrNonneg, ha, hb, Int.toNat_natCast, if_pos hba, hres, ne_eq,
        not_true_eq_false, if_false, hloop, Option.bind_eq_bind, Option.bind_some]
      rfl
    · have habs : (m.count x).natAbs = b + d := by rw [ha, Int.natAbs_natCast]
      have hout := outcome_of_count ((Extends.refl hm).keepsOthers x) hx (hfoot.keptBelow m.free)
        (by rw [habs]; exact hcapx) (by rw [habs, hval])
        fun hne => by rw [habs]; exact (hlowx (by omega)).trans hle
      rwa [if_neg (by omega)] at hout
  · obtain ⟨d, rfl⟩ := Nat.exists_eq_add_of_le (not_le.mp hba).le
    obtain ⟨hext, hcap⟩ := extends_resize hm hx (a + d)
    have hne : (m.resize x (a + d)).item y ≠ (m.resize x (a + d)).item x := fun he =>
      hyx (hext.wellFormed.owned y (by rwa [hext.objects]) x (by rwa [hext.objects]) he)
    have hcapy' := hcapy.trans (hext.capacity y hy)
    have hcount := hext.count
    rw [capacity] at hcap hcapy'
    set t := m.resize x (a + d) with ht
    obtain ⟨g, hcopy, hhigh, hfoot⟩ := LimbHeap.run_copyData (h := t.arrays) (t := t.item x)
      (a := t.item y) (i := a) (j := a) (n := d) hcapy' hcap
    obtain ⟨g', hloop, -, hfoot'⟩ := SpecialLogic.limbwise_behind SpecialLogic.actsOnBits_or
      (p := t.item x) (q := t.item y) hcap (by omega) (by omega) hhigh hfoot
    refine ⟨{ t with arrays := g' }, ?_, fun hle => absurd hle (by omega), fun _ heq => ?_⟩
    · simp only [bitOrNonneg, ha, hb, Int.toNat_natCast, if_neg hba, ← ht, ne_eq, hne,
        not_false_eq_true, if_true, Nat.add_sub_cancel_left, hcopy, hloop, Option.bind_eq_bind,
        Option.bind_some]
      rfl
    · -- the limbs that are counted do not reach the highest limb of the second operand
      have hcountx : ({ t with arrays := g' } : IntegerXMemory).count x = (a : ℤ) := by
        rw [← ha, ← hcount]
      have hlt : g'.number (t.item x) 0 a < (2 ^ 32) ^ a :=
        g'.number_lt (by rw [hfoot'.length]; omega)
      have hle : m.magnitude y ≤ m.magnitude x ||| m.magnitude y := Nat.right_le_or
      have hlow := hlowy (by omega)
      have hpow : (2 ^ 32) ^ a ≤ (2 ^ 32) ^ (a + d - 1) :=
        Nat.pow_le_pow_right (by decide) (by omega)
      rw [value_of_count_nonneg (by omega), magnitude, hcountx, Int.natAbs_natCast] at heq
      have heq' : g'.number (t.item x) 0 a = m.magnitude x ||| m.magnitude y := Int.ofNat.inj heq
      omega

/-- **`bit_or`** of two negative numbers.

**Proof sketch.** The limbs of the longer operand have no effect. A carry needs a limb that both
operands have. -/
lemma bitOrNegative_outcome (hm : m.WellFormed) (ht : target < m.objects) (h₁ : op1 < m.objects)
    (h₂ : op2 < m.objects) (hn₁ : m.Normalised op1) (hn₂ : m.Normalised op2)
    (hneg₁ : m.count op1 < 0) (hneg₂ : m.count op2 < 0) :
    ∃ m', m.bitOrNegative target op1 op2 = some m' ∧ m.Outcome m' target
      (Int.negSucc ((m.magnitude op1 - 1) &&& (m.magnitude op2 - 1))) := by
  have hpos₁ := hn₁.magnitude_pos hneg₁.ne
  have hpos₂ := hn₂.magnitude_pos hneg₂.ne
  have hlt₁ : m.magnitude op1 < (2 ^ 32) ^ (m.count op1).natAbs :=
    m.arrays.number_lt (by rw [Nat.zero_add]; exact hn₁.count_le)
  have hlt₂ : m.magnitude op2 < (2 ^ 32) ^ (m.count op2).natAbs :=
    m.arrays.number_lt (by rw [Nat.zero_add]; exact hn₂.count_le)
  set a := (m.count op1).natAbs with ha
  set b := (m.count op2).natAbs with hb
  obtain ⟨r₁, r, hpred₁, hpred₂, hops⟩ := operands_negative (n := min a b) (k := min a b) hm h₁ h₂
    hn₁ hn₂ hneg₁ hneg₂ (by omega) (by omega) (by omega) (by omega)
  obtain ⟨hops', hcap⟩ := hops.resize ht (min a b)
  set s := r.resize target (min a b) with hs
  have hcap' := hcap
  rw [capacity] at hcap'
  have hlen₁ := hops'.first_length
  have hlen₂ := hops'.second_length
  obtain ⟨k, hscan, hle, hval, hlow⟩ := SpecialLogic.scan_eq SpecialLogic.actsOnBits_and
    (h := s.arrays) (min a b) hlen₁ hlen₂
  rw [hops'.first, hops'.second, SpecialLogic.actsOnBits_and.bitwise_mod_min rfl rfl
    (show m.magnitude op1 - 1 < (2 ^ 32) ^ a by omega)
    (show m.magnitude op2 - 1 < (2 ^ 32) ^ b by omega)] at hval hlow
  change (m.magnitude op1 - 1) &&& (m.magnitude op2 - 1) = _ at hval
  change k ≠ 0 → _ ≤ (m.magnitude op1 - 1) &&& (m.magnitude op2 - 1) at hlow
  by_cases hk : k = 0
  · subst hk
    rw [LimbHeap.number_zero, LimbHeap.number_zero, Nat.bitwise_zero] at hval
    obtain ⟨g, hput, hone, hfoot⟩ := LimbHeap.run_put (h := s.arrays) (a := s.item target) (i := 0)
      (by omega) 1
    have hout := (hops'.extends_old.keepsOthers target).outcome_conclude ht
      (hfoot.keptBelow s.free) (show 1 ≤ s.capacity target by omega)
      (hone.trans (rfl : (1 : Natural32).toNat = 1)) (fun _ => le_rfl) true
    rw [hval]
    refine ⟨s.conclude target g 1 true, ?_, hout⟩
    simp only [bitOrNegative, ← ha, ← hb, hpred₁, hpred₂, Option.bind_eq_bind, Option.bind_some,
      ← hs, hscan, ne_eq, not_true_eq_false, if_false, hput]
    rfl
  · obtain ⟨g, hloop, hvalue, hfoot⟩ := SpecialLogic.limbwise_run SpecialLogic.actsOnBits_and
      (h := s.arrays) k (show k ≤ (s.arrays (s.item target)).length from hle.trans hcap')
      (hle.trans hlen₁) (hle.trans hlen₂)
    rw [← hval] at hvalue
    have hand₁ : (m.magnitude op1 - 1) &&& (m.magnitude op2 - 1) ≤ m.magnitude op1 - 1 :=
      Nat.and_le_left
    have hand₂ : (m.magnitude op1 - 1) &&& (m.magnitude op2 - 1) ≤ m.magnitude op2 - 1 :=
      Nat.and_le_right
    obtain ⟨e, g', hadd, he, hval', hroom, hover, hfoot'⟩ := addOne_run (h := g)
      (p := s.item target) (show 1 ≤ k by omega)
      (show k ≤ (g (s.item target)).length by rw [hfoot.length]; omega)
      (by rw [hfoot.length]; omega) fun hge => by
        rw [hvalue] at hge
        have hka : k < a := (Nat.pow_lt_pow_iff_right (by decide)).mp
          (show (2 ^ 32) ^ k < (2 ^ 32) ^ a by omega)
        have hkb : k < b := (Nat.pow_lt_pow_iff_right (by decide)).mp
          (show (2 ^ 32) ^ k < (2 ^ 32) ^ b by omega)
        rw [hfoot.length]
        omega
    rw [hfoot.length] at hroom
    rw [hvalue] at hval' hover
    have hboth : SameOutside (region (s.item target) 0 (k + e)) s.arrays g' :=
      hfoot.join hfoot' (by omega) (by omega)
    have hout := (hops'.extends_old.keepsOthers target).outcome_conclude ht
      (hboth.keptBelow s.free) hroom hval' (fun _ => by
        rcases Nat.le_one_iff_eq_zero_or_eq_one.mp he with rfl | rfl
        · exact (hlow hk).trans (Nat.le_succ _)
        · exact hover rfl) true
    refine ⟨_, ?_, hout⟩
    simp only [bitOrNegative, ← ha, ← hb, hpred₁, hpred₂, Option.bind_eq_bind, Option.bind_some,
      ← hs, hscan, ne_eq, hk, not_false_eq_true, if_true, hloop, hadd]
    rfl

/-- The limbs for a number that is not negative and one that is: the bits of the second number that
the first one lacks. -/
lemma bitOrMixedLimbs_run {h : LimbHeap} {rp p q a n u v : ℕ} (hr : n ≤ (h rp).length)
    (hp : a ≤ (h p).length) (hq : n ≤ (h q).length) (hu : h.number p 0 a = u)
    (hv : h.number q 0 n = v) (hlow : n ≠ 0 → (2 ^ 32) ^ (n - 1) ≤ v) :
    ∃ (size : ℕ) (g : LimbHeap), bitOrMixedLimbs rp p a q n h = some (size, g) ∧ size ≤ n ∧
      g.number rp 0 size = Nat.bitwise (fun x y => !x && y) u v ∧
      (size ≠ 0 → (2 ^ 32) ^ (size - 1) ≤ Nat.bitwise (fun x y => !x && y) u v) ∧
      SameOutside (region rp 0 size) h g := by
  by_cases hna : n ≤ a
  · have hltv : v < (2 ^ 32) ^ n := hv ▸ h.number_lt (by omega)
    obtain ⟨r, hscan, hle, hval, hlow'⟩ := SpecialLogic.scan_eq SpecialLogic.actsOnBits_notAnd
      (h := h) n (hna.trans hp) hq
    rw [number_mod h hna hp, hu, hv,
      SpecialLogic.actsOnBits_notAnd.bitwise_mod_left rfl u hltv] at hval hlow'
    obtain ⟨g, hloop, hnum, hfoot⟩ := SpecialLogic.limbwise_run SpecialLogic.actsOnBits_notAnd
      (h := h) r (hle.trans hr) ((hle.trans hna).trans hp) (hle.trans hq)
    refine ⟨r, g, ?_, hle, hnum.trans hval.symm, hlow', hfoot⟩
    rw [bitOrMixedLimbs, if_pos hna, hscan, Option.bind_some, hloop, Option.map_some]
  · obtain ⟨d, rfl⟩ := Nat.exists_eq_add_of_le (not_le.mp hna).le
    obtain ⟨g, hcopy, hhigh, hfoot⟩ := LimbHeap.run_copyData (h := h) (t := rp) (a := q) (i := a)
      (j := a) (n := d) hq hr
    obtain ⟨g', hloop, hnum, hfoot'⟩ := SpecialLogic.limbwise_behind
      SpecialLogic.actsOnBits_notAnd (p := p) (q := q) hr hp (by omega) hhigh hfoot
    have hsplit := h.number_add (a := q) (i := 0) (m := a) (n := d) (by omega)
    have hlt : h.number q 0 a < (2 ^ 32) ^ a := h.number_lt (by omega)
    rw [hv, Nat.zero_add] at hsplit
    have hge := pow_le_high hlt (show 1 ≤ d by omega) (hsplit ▸ hlow (by omega))
    have hval := hnum
    rw [SpecialLogic.actsOnBits_notAnd.bitwise_right rfl hp hq, hu, hv] at hval
    refine ⟨a + d, g', ?_, le_rfl, hval, fun _ => ?_, hfoot'⟩
    · rw [bitOrMixedLimbs, if_neg hna, Nat.add_sub_cancel_left, hcopy, Option.bind_some, hloop,
        Option.map_some]
    · rw [← hval, hnum, pow_add_pred (by omega)]
      exact (Nat.mul_le_mul_left _ hge).trans (Nat.le_add_left _ _)

/-- The end of `bit_or` is right only if the number `w` in the limbs fills them. -/
lemma bitOrMixedEnd_run {s : IntegerXMemory} {g : LimbHeap} {size w : ℕ}
    (hkeeps : m.KeepsOthers s x) (hx : x < m.objects) (hnonneg : 0 ≤ m.count x)
    (hfoot : SameOutside (region (s.item x) 0 size) s.arrays g) (hsize : size ≤ s.capacity x)
    (hroom : w + 1 = (2 ^ 32) ^ size → size + 1 ≤ s.capacity x)
    (hw : g.number (s.item x) 0 size = w) (hlow : size ≠ 0 → (2 ^ 32) ^ (size - 1) ≤ w) :
    ∃ m', s.bitOrMixedEnd x size g = some m' ∧
      ((∃ r ≥ 1, w + 1 = (2 ^ 32) ^ r) → m.Outcome m' x (Int.negSucc w)) ∧
      ((¬ ∃ r ≥ 1, w + 1 = (2 ^ 32) ^ r) → m'.value x ≠ Int.negSucc w) := by
  rw [capacity] at hsize hroom
  have hltw : w < (2 ^ 32) ^ size :=
    hw ▸ g.number_lt (by rw [hfoot.length, Nat.zero_add]; exact hsize)
  have hfull (hr : ∃ r ≥ 1, w + 1 = (2 ^ 32) ^ r) : size ≠ 0 ∧ w + 1 = (2 ^ 32) ^ size := by
    obtain ⟨r, hr, hwr⟩ := hr
    have hle : r ≤ size := (Nat.pow_le_pow_iff_right (by decide)).mp
      (show (2 ^ 32) ^ r ≤ (2 ^ 32) ^ size by omega)
    have hlt : size - 1 < r := (Nat.pow_lt_pow_iff_right (by decide)).mp
      (show (2 ^ 32) ^ (size - 1) < (2 ^ 32) ^ r by
        have := hlow (by omega)
        omega)
    have hsame : r = size := by omega
    exact ⟨by omega, hsame ▸ hwr⟩
  by_cases hzero : size = 0
  · subst hzero
    refine ⟨{ s with arrays := g }, by rw [bitOrMixedEnd, if_neg (not_not.mpr rfl)],
      fun hr => absurd rfl (hfull hr).1, fun _ heq => ?_⟩
    -- the object was not changed
    have hcount : ({ s with arrays := g } : IntegerXMemory).count x = m.count x := by
      rw [← hkeeps.count]
    rw [value_of_count_nonneg (by omega)] at heq
    omega
  · obtain ⟨k, rfl⟩ : ∃ k, size = k + 1 := ⟨size - 1, by omega⟩
    obtain ⟨c, g', hadd, hval, hfoot'⟩ := SpecialArithmetic.add1_run (h := g) (fun _ => rfl) rfl
      (show 0 + (k + 1) ≤ (g (s.item x)).length by rw [hfoot.length]; omega)
      (show 0 + (k + 1) ≤ (g (s.item x)).length by rw [hfoot.length]; omega) 1
    rw [hw] at hval
    change _ = w + 1 at hval
    have hlt : g'.number (s.item x) 0 (k + 1) < (2 ^ 32) ^ (k + 1) :=
      g'.number_lt (by rw [hfoot'.length, hfoot.length, Nat.zero_add]; exact hsize)
    have hrun : s.bitOrMixedEnd x (k + 1) g = if c ≠ 0 then
        (g'.put (s.item x) (k + 1) c).map fun h => s.conclude x h (k + 1 + 1) true
        else (g'.put (s.item x) 0 1).map fun h => s.conclude x h 1 true := by
      rw [bitOrMixedEnd, if_pos hzero, hadd, Option.bind_some]
    rw [hrun]
    by_cases hcarry : c = 0
    · have hno : ¬ ∃ r ≥ 1, w + 1 = (2 ^ 32) ^ r := fun hr => by
        have := (hfull hr).2
        rw [hcarry, SpecialArithmetic.toNat_zero_limb, Nat.mul_zero, Nat.add_zero] at hval
        omega
      obtain ⟨g'', hput, hone, -⟩ := LimbHeap.run_put (h := g') (a := s.item x) (i := 0)
        (by rw [hfoot'.length, hfoot.length]; omega) 1
      rw [if_neg (not_not.mpr hcarry), hput, Option.map_some]
      refine ⟨_, rfl, fun hr => absurd hr hno, fun _ heq => ?_⟩
      rw [value_conclude, if_pos rfl, hone] at heq
      have hpos : 0 < (2 ^ 32) ^ (k + 1 - 1) := by positivity
      have hge := hlow (by omega)
      have hval' : (-((1 : Natural32).toNat : ℤ)) = -1 := rfl
      rw [hval'] at heq
      omega
    · have hge := pow_le_mul_toNat hcarry (k + 1)
      have hwk : w + 1 = (2 ^ 32) ^ (k + 1) := by omega
      have hlen := hroom hwk
      obtain ⟨g'', hput, htop, hfoot''⟩ := LimbHeap.run_put (h := g') (a := s.item x) (i := k + 1)
        (by rw [hfoot'.length, hfoot.length]; exact hlen) c
      have hnum : g''.number (s.item x) 0 (k + 1 + 1) = w + 1 := by
        rw [g''.number_add (by rw [hfoot''.length, hfoot'.length, hfoot.length]; omega),
          Nat.zero_add, htop, LimbHeap.number_apart hfoot'' (Apart.of_le (by omega)).symm, hval]
      have hall : SameOutside (region (s.item x) 0 (k + 1 + 1)) s.arrays g'' :=
        (hfoot.trans hfoot').join hfoot'' (by omega) (by omega)
      rw [if_pos hcarry, hput, Option.map_some]
      refine ⟨_, rfl, fun _ => ?_, fun hno => absurd ⟨k + 1, by omega, hwk⟩ hno⟩
      exact hkeeps.outcome_conclude hx (hall.keptBelow s.free) hlen hnum
        (fun _ => by rw [Nat.add_sub_cancel]; exact hwk.ge) true

/-- The bits of a number that another one lacks. -/
lemma bitwise_notAnd (u v : ℕ) : Nat.bitwise (fun x y => !x && y) u v = Nat.ldiff v u := by
  apply Nat.eq_of_testBit_eq
  intro i
  rw [Nat.testBit_bitwise rfl, Nat.testBit_ldiff, Bool.and_comm]

lemma ldiff_le (v u : ℕ) : Nat.ldiff v u ≤ v := by
  have hand : Nat.ldiff v u &&& v = Nat.ldiff v u := by
    apply Nat.eq_of_testBit_eq
    intro i
    rw [Nat.testBit_and, Nat.testBit_ldiff, Bool.and_right_comm, Bool.and_self]
  rw [← hand]
  exact Nat.and_le_right

/-- **`bit_or`** of a number that is not negative and one that is, by the bits that are set in
neither. -/
lemma bitOrMixed_run (hm : m.WellFormed) (hx : x < m.objects) (hy : y < m.objects)
    (hnx : m.Normalised x) (hny : m.Normalised y) (hposx : 0 ≤ m.count x) (hnegy : m.count y < 0) :
    ∃ m', m.bitOrMixed x x y (m.count x) (m.count y) = some m' ∧
      ((∃ r ≥ 1, Nat.ldiff (m.magnitude y - 1) (m.magnitude x) + 1 = (2 ^ 32) ^ r) →
        m.Outcome m' x (Int.negSucc (Nat.ldiff (m.magnitude y - 1) (m.magnitude x)))) ∧
      ((¬ ∃ r ≥ 1, Nat.ldiff (m.magnitude y - 1) (m.magnitude x) + 1 = (2 ^ 32) ^ r) →
        m'.value x ≠ Int.negSucc (Nat.ldiff (m.magnitude y - 1) (m.magnitude x))) := by
  obtain ⟨s, hpred, hitem, hops⟩ := operands_mixed hm hx hy hnx hny hnegy
  have hcapx := hnx.count_le
  have hlowy := (normalised_iff.mp hny).2 hnegy.ne
  have hposy := hny.magnitude_pos hnegy.ne
  have hlty : m.magnitude y < (2 ^ 32) ^ (m.count y).natAbs :=
    m.arrays.number_lt (by rw [Nat.zero_add]; exact hny.count_le)
  obtain ⟨a, ha⟩ : ∃ a : ℕ, m.count x = a := ⟨(m.count x).toNat, by omega⟩
  obtain ⟨k, hk⟩ : ∃ k : ℕ, m.count y = -((k + 1 : ℕ) : ℤ) := ⟨(m.count y).natAbs - 1, by omega⟩
  have habs : (m.count y).natAbs = k + 1 := by omega
  rw [habs] at hpred hops hlowy hlty
  rw [ha, Int.natAbs_natCast] at hops hcapx
  have hmagx : m.arrays.number (m.item x) 0 a = m.magnitude x := by
    rw [magnitude, ha, Int.natAbs_natCast]
  have hlen₂ := hops.second_length
  obtain ⟨d, hd, hlast⟩ := s.arrays.exists_last (a := m.free) (i := 0) (n := k) (by omega)
  rw [Nat.zero_add] at hd
  rw [hops.second] at hlast
  obtain ⟨hops', hcap⟩ := hops.resize hx (k + 1)
  have hold := hops'.extends_old
  have hnumx := hold.number hx hcapx
  have hlenx := hcapx.trans (hold.capacity x hx)
  have hlen₂' := hops'.second_length
  rw [hmagx] at hnumx
  -- the size without a high zero limb
  set size := k + 1 - if d = 0 then 1 else 0 with hsize
  have hle : size ≤ k + 1 := Nat.sub_le _ _
  set t := s.resize x (k + 1) with ht
  have hnumy : t.arrays.number m.free 0 size = m.magnitude y - 1 ∧
      (size ≠ 0 → (2 ^ 32) ^ (size - 1) ≤ m.magnitude y - 1) := by
    have hlt : s.arrays.number m.free 0 k < (2 ^ 32) ^ k := s.arrays.number_lt (by omega)
    rw [number_mod t.arrays hle hlen₂', hops'.second]
    by_cases hzero : d = 0
    · rw [hzero, SpecialArithmetic.toNat_zero_limb, Nat.mul_zero, Nat.add_zero] at hlast
      rw [if_pos hzero, Nat.add_sub_cancel] at hsize
      rw [hsize]
      refine ⟨Nat.mod_eq_of_lt (hlast ▸ hlt), fun hne => ?_⟩
      have hpow : (2 ^ 32) ^ (k - 1) < (2 ^ 32) ^ k :=
        Nat.pow_lt_pow_right (by decide) (by omega)
      rw [Nat.add_sub_cancel] at hlowy
      omega
    · rw [if_neg hzero, Nat.sub_zero] at hsize
      rw [hsize]
      refine ⟨Nat.mod_eq_of_lt (by omega), fun _ => ?_⟩
      rw [hlast, Nat.add_sub_cancel]
      exact (pow_le_mul_toNat hzero k).trans (Nat.le_add_left _ _)
  rw [capacity] at hlenx
  obtain ⟨w, g, hlimbs, hw, hval, hlow, hfoot⟩ := bitOrMixedLimbs_run (h := t.arrays)
    (show size ≤ (t.arrays (t.item x)).length from hle.trans hcap) hlenx (hle.trans hlen₂') hnumx
    hnumy.1 hnumy.2
  rw [bitwise_notAnd] at hval hlow
  have hldiff := ldiff_le (m.magnitude y - 1) (m.magnitude x)
  obtain ⟨m', hrun, hfull, hwrong⟩ := bitOrMixedEnd_run (hold.keepsOthers x) hx hposx hfoot
    ((hw.trans hle).trans hcap) (fun heq => by
      have hlt : w < k + 1 := (Nat.pow_lt_pow_iff_right (by decide)).mp
        (show (2 ^ 32) ^ w < (2 ^ 32) ^ (k + 1) by omega)
      exact (Nat.succ_le_of_lt hlt).trans hcap) hval hlow
  refine ⟨m', ?_, hfull, hwrong⟩
  simp only [bitOrMixed, ha, hk, neg_neg, hpred, Option.bind_eq_bind, Option.bind_some,
    Int.toNat_natCast, Nat.add_sub_cancel, hd, ← ht, ← hsize, hlimbs]
  exact hrun

end Or

/-! ## The bits of the results -/

section Bits

variable {m m' : IntegerXMemory} {x y : ℕ}

/-- Two numbers have no bit in common. -/
lemma and_eq_zero_iff (u v : ℕ) :
    u &&& v = 0 ↔ ∀ i, ¬ (u.testBit i = true ∧ v.testBit i = true) := by
  constructor
  · intro h i hi
    have hbit := Nat.testBit_and u v i
    rw [h, Nat.zero_testBit, hi.1, hi.2] at hbit
    exact absurd hbit (by decide)
  · intro h
    apply Nat.eq_of_testBit_eq
    intro i
    have hi := h i
    rw [Nat.testBit_and, Nat.zero_testBit]
    cases hu : u.testBit i <;> cases hv : v.testBit i <;> simp_all

/-- A number that fills `r` limbs. -/
lemma succ_eq_pow_iff (w r : ℕ) :
    w + 1 = (2 ^ 32) ^ r ↔ ∀ i, w.testBit i = decide (i < 32 * r) := by
  rw [← Nat.pow_mul]
  constructor
  · intro h i
    rw [Nat.eq_sub_of_add_eq h, Nat.testBit_two_pow_sub_one]
  · intro h
    have hw : w = 2 ^ (32 * r) - 1 := Nat.eq_of_testBit_eq fun i => by
      rw [h, Nat.testBit_two_pow_sub_one]
    have hpos : 0 < 2 ^ (32 * r) := by positivity
    omega

/-- The bits that are set neither in a number that is not negative nor in one that is. -/
lemma ldiff_full_iff (u v r : ℕ) : Nat.ldiff v u + 1 = (2 ^ 32) ^ r ↔
    ∀ i, ((u : ℤ).testBit i = false ∧ (Int.negSucc v).testBit i = false) ↔ i < 32 * r := by
  rw [succ_eq_pow_iff]
  refine forall_congr' fun i => ?_
  change _ ↔ ((u.testBit i = false ∧ (!v.testBit i) = false) ↔ _)
  rw [Nat.testBit_ldiff]
  cases u.testBit i <;> cases v.testBit i <;> simp

/-- The operands for which `bit_and` is right: the second one is negative, or no operand is and
there is no bit that is set in both. -/
def AndRight (m : IntegerXMemory) (x y : ℕ) : Prop :=
  m.value y < 0 ∨ 0 ≤ m.value x ∧
    ∀ i, ¬ ((m.value x).testBit i = true ∧ (m.value y).testBit i = true)

/-- The operands for which `bit_or` is right: both are negative, or none is and the second one has
no more limbs than the first one, or only the second one is negative and the bits that are set in
neither are those of one or more low limbs. -/
def OrRight (m : IntegerXMemory) (x y : ℕ) : Prop :=
  (m.value x < 0 ∧ m.value y < 0) ∨
    (0 ≤ m.value x ∧ 0 ≤ m.value y ∧ m.count y ≤ m.count x) ∨
    0 ≤ m.value x ∧ m.value y < 0 ∧ ∃ r ≥ 1, ∀ i,
      ((m.value x).testBit i = false ∧ (m.value y).testBit i = false) ↔ i < 32 * r

/-- **`bit_and`** is right. -/
lemma bitAnd_outcome (hm : m.WellFormed) (hx : x < m.objects) (hy : y < m.objects)
    (hnx : m.Normalised x) (hny : m.Normalised y) (h : m.AndRight x y) :
    ∃ m', m.bitAnd x x y = some m' ∧ m.Outcome m' x (Int.land (m.value x) (m.value y)) := by
  rw [AndRight, hny.value_neg_iff, ← not_lt, hnx.value_neg_iff, not_lt] at h
  rcases lt_or_ge (m.count y) 0 with hnegy | hposy
  · rw [hny.value_eq_negSucc hnegy]
    rcases lt_or_ge (m.count x) 0 with hnegx | hposx
    · rw [hnx.value_eq_negSucc hnegx, bitAnd, if_neg (by omega), if_pos hnegy]
      exact bitAndNegative_outcome hm hx hx hy hnx hny hnegx hnegy
    · rw [value_of_count_nonneg hposx, bitAnd, if_pos hposx, if_neg (by omega)]
      exact bitAndMixed_outcome hm hx hx hy hnx hny hposx hnegy
  · obtain ⟨hposx, hbits⟩ := h.resolve_left (by omega)
    rw [value_of_count_nonneg hposx, value_of_count_nonneg hposy] at hbits ⊢
    obtain ⟨m', hrun, hout, -⟩ := bitAndNonneg_run hm hx hnx hny hposx hposy
    have hzero : m.magnitude x &&& m.magnitude y = 0 := (and_eq_zero_iff _ _).mpr hbits
    have hland : Int.land (m.magnitude x) (m.magnitude y) =
        ((m.magnitude x &&& m.magnitude y : ℕ) : ℤ) := rfl
    rw [bitAnd, if_pos hposx, if_pos hposy, hland, hzero]
    exact ⟨m', hrun, hout hzero⟩

/-- **`bit_and`** is wrong, or fails, for all other numbers. -/
lemma bitAnd_wrong (hm : m.WellFormed) (hx : x < m.objects) (hnx : m.Normalised x)
    (hny : m.Normalised y) (h : ¬ m.AndRight x y) (hrun : m.bitAnd x x y = some m') :
    m'.value x ≠ Int.land (m.value x) (m.value y) := by
  rw [AndRight, hny.value_neg_iff, ← not_lt, hnx.value_neg_iff, not_lt, not_or, not_lt] at h
  obtain ⟨hposy, h⟩ := h
  rcases lt_or_ge (m.count x) 0 with hnegx | hposx
  · rw [bitAnd, if_neg (by omega), if_neg (by omega), bitAndMixed, predArray_none _ _ (by omega)]
      at hrun
    exact absurd hrun (by simp)
  · rw [value_of_count_nonneg hposx, value_of_count_nonneg hposy] at h ⊢
    obtain ⟨m'', hrun', -, hwrong⟩ := bitAndNonneg_run hm hx hnx hny hposx hposy
    rw [bitAnd, if_pos hposx, if_pos hposy, hrun'] at hrun
    rw [← Option.some.inj hrun]
    exact hwrong fun hzero => h ⟨hposx, (and_eq_zero_iff _ _).mp hzero⟩

/-- **`bit_or`** is right. -/
lemma bitOr_outcome (hm : m.WellFormed) (hx : x < m.objects) (hy : y < m.objects) (hyx : y ≠ x)
    (hnx : m.Normalised x) (hny : m.Normalised y) (h : m.OrRight x y) :
    ∃ m', m.bitOr x x y = some m' ∧ m.Outcome m' x (Int.lor (m.value x) (m.value y)) := by
  rw [OrRight, ← not_lt, ← not_lt, hnx.value_neg_iff, hny.value_neg_iff, not_lt, not_lt] at h
  rcases h with ⟨hnegx, hnegy⟩ | ⟨hposx, hposy, hcount⟩ | ⟨hposx, hnegy, r, hr, hbits⟩
  · rw [hnx.value_eq_negSucc hnegx, hny.value_eq_negSucc hnegy, bitOr, if_neg (by omega),
      if_pos hnegy]
    exact bitOrNegative_outcome hm hx hx hy hnx hny hnegx hnegy
  · obtain ⟨m', hrun, hout, -⟩ := bitOrNonneg_run hm hx hy hyx hnx hny hposx hposy
    rw [value_of_count_nonneg hposx, value_of_count_nonneg hposy, bitOr, if_pos hposx,
      if_pos hposy]
    exact ⟨m', hrun, hout hcount⟩
  · obtain ⟨m', hrun, hout, -⟩ := bitOrMixed_run hm hx hy hnx hny hposx hnegy
    rw [value_of_count_nonneg hposx, hny.value_eq_negSucc hnegy] at hbits ⊢
    rw [bitOr, if_pos hposx, if_neg (by omega)]
    exact ⟨m', hrun, hout ⟨r, hr, (ldiff_full_iff _ _ _).mpr hbits⟩⟩

/-- **`bit_or`** is wrong, or fails, for all other numbers. -/
lemma bitOr_wrong (hm : m.WellFormed) (hx : x < m.objects) (hy : y < m.objects) (hyx : y ≠ x)
    (hnx : m.Normalised x) (hny : m.Normalised y) (h : ¬ m.OrRight x y)
    (hrun : m.bitOr x x y = some m') : m'.value x ≠ Int.lor (m.value x) (m.value y) := by
  rw [OrRight, ← not_lt, ← not_lt, hnx.value_neg_iff, hny.value_neg_iff, not_lt, not_lt] at h
  rcases lt_or_ge (m.count x) 0 with hnegx | hposx
  · rcases lt_or_ge (m.count y) 0 with hnegy | hposy
    · exact absurd (Or.inl ⟨hnegx, hnegy⟩) h
    · rw [bitOr, if_neg (by omega), if_neg (by omega), bitOrMixed,
        predArray_none _ _ (by omega)] at hrun
      exact absurd hrun (by simp)
  · rcases lt_or_ge (m.count y) 0 with hnegy | hposy
    · rw [value_of_count_nonneg hposx, hny.value_eq_negSucc hnegy] at h ⊢
      obtain ⟨m'', hrun', -, hwrong⟩ := bitOrMixed_run hm hx hy hnx hny hposx hnegy
      rw [bitOr, if_pos hposx, if_neg (by omega), hrun'] at hrun
      rw [← Option.some.inj hrun]
      refine hwrong fun ⟨r, hr, hfull⟩ => h (Or.inr (Or.inr ⟨hposx, hnegy, r, hr, ?_⟩))
      exact (ldiff_full_iff _ _ _).mp hfull
    · obtain ⟨m'', hrun', -, hwrong⟩ := bitOrNonneg_run hm hx hy hyx hnx hny hposx hposy
      rw [value_of_count_nonneg hposx, value_of_count_nonneg hposy]
      rw [bitOr, if_pos hposx, if_pos hposy, hrun'] at hrun
      rw [← Option.some.inj hrun]
      exact hwrong (not_le.mp fun hle => h (Or.inr (Or.inl ⟨hposx, hposy, hle⟩)))

/-- An operation with a copy of an object: the bits of the new object are those of `w` if the
operation is right, and no number with these bits is created if it is not. -/
lemma created_bits_iff {z w : ℤ} {right : Prop} {bits : ℕ → Bool} {run : Option IntegerXMemory}
    {m₁ : IntegerXMemory} (hcopy : m.Created m₁ z) (hw : ∀ i, w.testBit i = bits i)
    (hright : right → ∃ m', run = some m' ∧ m₁.Outcome m' m.objects w)
    (hwrong : ¬ right → ∀ m', run = some m' → m'.value m.objects ≠ w) :
    (∃ (m' : IntegerXMemory) (v : ℤ), run = some m' ∧ m.Created m' v ∧
      ∀ i, v.testBit i = bits i) ↔ right := by
  constructor
  · rintro ⟨m', v, hrun, hcreated, hv⟩
    have hvw : v = w := TwosComplement.eq_of_testBit_eq fun i => (hv i).trans (hw i).symm
    by_contra hr
    exact hwrong hr m' hrun (hcreated.value.trans hvw)
  · intro hr
    obtain ⟨m', hrun, hout⟩ := hright hr
    exact ⟨m', w, hrun, hcopy.outcome hout, hw⟩

/-- A copy of an object is right for the same operands. -/
lemma copy_right (hm : m.WellFormed) (hy : y < m.objects) (hnx : m.Normalised x)
    (hny : m.Normalised y) :
    ((m.identity x).AndRight m.objects y ↔ m.AndRight x y) ∧
      ((m.identity x).OrRight m.objects y ↔ m.OrRight x y) := by
  have hcopy := created_identity hm hnx
  obtain ⟨-, hvy⟩ := hcopy.others y hy hny
  have hcx : (m.identity x).count m.objects = m.count x := newObject_count _ _
  have hcy : (m.identity x).count y = m.count y := (newObject_old hm _ _ hy).2.1
  rw [AndRight, AndRight, OrRight, OrRight, hcopy.value, hvy, hcx, hcy]
  exact ⟨Iff.rfl, Iff.rfl⟩

/-- **Conjunctions and disjunctions.** For normalised objects `x` and `y` with any signs,
`bit_and_value` creates a normalised object with the conjunctions of the bits of `x` and `y` if and
only if the operands are right for `bit_and`, and `bit_or_value` one with the disjunctions if and
only if they are right for `bit_or`. -/
theorem and_or_bits (m : IntegerXMemory) (hm : m.WellFormed) (x y : ℕ) (hy : y < m.objects)
    (hnx : m.Normalised x) (hny : m.Normalised y) :
    ((∃ (m' : IntegerXMemory) (v : ℤ), m.bitAndValue x y = some m' ∧ m.Created m' v ∧
      ∀ i, v.testBit i = ((m.value x).testBit i && (m.value y).testBit i)) ↔ m.AndRight x y) ∧
    ((∃ (m' : IntegerXMemory) (v : ℤ), m.bitOrValue x y = some m' ∧ m.Created m' v ∧
      ∀ i, v.testBit i = ((m.value x).testBit i || (m.value y).testBit i)) ↔ m.OrRight x y) := by
  have hcopy := created_identity hm hnx
  obtain ⟨hny', hvy⟩ := hcopy.others y hy hny
  obtain ⟨hand, hor⟩ := copy_right hm hy hnx hny
  have hobj := hcopy.objects
  have hx' : m.objects < (m.identity x).objects := by omega
  have hy' : y < (m.identity x).objects := by omega
  rw [← hand, ← hor, ← hcopy.value, ← hvy]
  exact ⟨created_bits_iff hcopy (Int.testBit_land _ _)
      (bitAnd_outcome hcopy.wellFormed hx' hy' hcopy.normalised hny')
      fun h _ => bitAnd_wrong hcopy.wellFormed hx' hcopy.normalised hny' h,
    created_bits_iff hcopy (Int.testBit_lor _ _)
      (bitOr_outcome hcopy.wellFormed hx' hy' hy.ne hcopy.normalised hny')
      fun h _ => bitOr_wrong hcopy.wellFormed hx' hy' hy.ne hcopy.normalised hny' h⟩

/-- The numbers `5` and `-3`. -/
theorem and_or_bits_five :
    ((∃ (m' : IntegerXMemory) (v : ℤ), (pair [5] [3] 1 (-1)).bitAndValue 0 1 = some m' ∧
      (pair [5] [3] 1 (-1)).Created m' v ∧
      ∀ i, v.testBit i = (((pair [5] [3] 1 (-1)).value 0).testBit i &&
        ((pair [5] [3] 1 (-1)).value 1).testBit i)) ↔ (pair [5] [3] 1 (-1)).AndRight 0 1) ∧
    ((∃ (m' : IntegerXMemory) (v : ℤ), (pair [5] [3] 1 (-1)).bitOrValue 0 1 = some m' ∧
      (pair [5] [3] 1 (-1)).Created m' v ∧
      ∀ i, v.testBit i = (((pair [5] [3] 1 (-1)).value 0).testBit i ||
        ((pair [5] [3] 1 (-1)).value 1).testBit i)) ↔ (pair [5] [3] 1 (-1)).OrRight 0 1) :=
  and_or_bits (pair [5] [3] 1 (-1)) ⟨by decide, by decide⟩ 0 1 (by decide) ⟨by decide, by decide⟩
    ⟨by decide, by decide⟩

/-- The conjunction of `5` and `3` is not `1`, and the disjunction of `5` and `-3` is not `-3`. -/
theorem not_and_or_bits :
    ¬ ((∃ (m' : IntegerXMemory) (v : ℤ), (pair [5] [3] 1 1).bitAndValue 0 1 = some m' ∧
      (pair [5] [3] 1 1).Created m' v ∧
      ∀ i, v.testBit i = (((pair [5] [3] 1 1).value 0).testBit i &&
        ((pair [5] [3] 1 1).value 1).testBit i)) ∨
    ∃ (m' : IntegerXMemory) (v : ℤ), (pair [5] [3] 1 (-1)).bitOrValue 0 1 = some m' ∧
      (pair [5] [3] 1 (-1)).Created m' v ∧
      ∀ i, v.testBit i = (((pair [5] [3] 1 (-1)).value 0).testBit i ||
        ((pair [5] [3] 1 (-1)).value 1).testBit i)) := by
  rintro (⟨m', v, hrun, hcreated, hv⟩ | ⟨m', v, hrun, hcreated, hv⟩)
  · have hval : ((pair [5] [3] 1 1).bitAndValue 0 1).map (·.value 2) = some 8 := by decide
    rw [hrun, Option.map_some] at hval
    have h8 : v = 8 := hcreated.value.symm.trans (Option.some.inj hval)
    have hbit := hv 0
    rw [h8] at hbit
    exact absurd hbit (by decide)
  · have hval : ((pair [5] [3] 1 (-1)).bitOrValue 0 1).map (·.value 2) = some (-1) := by decide
    rw [hrun, Option.map_some] at hval
    have h1 : v = -1 := hcreated.value.symm.trans (Option.some.inj hval)
    have hbit := hv 1
    rw [h1] at hbit
    exact absurd hbit (by decide)

end Bits

end IntegerXMemory

end EiffelWeb
