import Mathlib.Data.Int.Bitwise
import EiffelWeb.Crypto.Limb.IntegerXIo

set_option relaxedAutoImplicit false
set_option autoImplicit false

/-!
# New objects and the bits of an object

A routine that works with the result of an exact operation creates an object for it. `bit_test`
reads a bit of an object as if a negative number had infinitely many ones in front: it negates the
limb with the bit, and takes one away if a limb below is not zero.

## Main definitions

* `IntegerXMemory.newObject`, `IntegerXMemory.create`, `IntegerXMemory.identity` — new objects.
* `IntegerXMemory.bitTest`

## Main results

* `IntegerXMemory.created_create`, `IntegerXMemory.created_identity` — what a new object stands for,
  and that the others are kept.
* `IntegerXMemory.Normalised.bits_some` — the number of bits.
* `IntegerXMemory.Normalised.bitTest_eq` — the bits are those of the two's complement.
-/

namespace EiffelWeb

open Limbs Arrays

namespace IntegerXMemory

/-! ## New objects -/

/-- A new object with a new array. Its reference is the number of objects before. -/
def newObject (limbs : List Natural32) (count : ℤ) (m : IntegerXMemory) : IntegerXMemory where
  arrays := Function.update m.arrays m.free limbs
  free := m.free + 1
  objects := m.objects + 1
  item := Function.update m.item m.objects m.free
  count := Function.update m.count m.objects count

/-- The number of limbs of a number. -/
def limbCount (n : ℕ) : ℕ := (n.size + 31) / 32

/-- The object that holds an exact result. An array has at least one item. -/
def create (z : ℤ) (m : IntegerXMemory) : IntegerXMemory :=
  m.newObject (ofNat 32 (max 1 (limbCount z.natAbs)) z.natAbs) (z.sign * limbCount z.natAbs)

/-- `identity`, which is `deep_twin`: a new object with a new array of the same items. -/
def identity (x : ℕ) (m : IntegerXMemory) : IntegerXMemory :=
  m.newObject (m.arrays (m.item x)) (m.count x)

/-- An object was created that stands for `z`; the others are what they were. -/
structure Created (m m' : IntegerXMemory) (z : ℤ) : Prop where
  /-- Every object has an array of its own. -/
  wellFormed : m'.WellFormed
  /-- There is one more object. -/
  objects : m'.objects = m.objects + 1
  /-- The new object is normalised. -/
  normalised : m'.Normalised m.objects
  /-- The number of the new object. -/
  value : m'.value m.objects = z
  /-- The other objects. -/
  others : ∀ y < m.objects, m.Normalised y → m'.Normalised y ∧ m'.value y = m.value y

variable {m : IntegerXMemory}

lemma wellFormed_newObject (hm : m.WellFormed) (limbs : List Natural32) (count : ℤ) :
    (m.newObject limbs count).WellFormed := by
  constructor
  · intro x hx
    by_cases hxm : x = m.objects
    · simp [newObject, hxm]
    · have hlt : x < m.objects := lt_of_le_of_ne (Nat.le_of_lt_succ hx) hxm
      have := hm.allocated x hlt
      simp only [newObject, Function.update_of_ne hxm]
      omega
  · intro x hx y hy he
    simp only [newObject] at he
    by_cases hxm : x = m.objects <;> by_cases hym : y = m.objects
    · rw [hxm, hym]
    · have := hm.allocated y (lt_of_le_of_ne (Nat.le_of_lt_succ hy) hym)
      rw [hxm, Function.update_self, Function.update_of_ne hym] at he
      omega
    · have := hm.allocated x (lt_of_le_of_ne (Nat.le_of_lt_succ hx) hxm)
      rw [hym, Function.update_self, Function.update_of_ne hxm] at he
      omega
    · rw [Function.update_of_ne hxm, Function.update_of_ne hym] at he
      exact hm.owned x (lt_of_le_of_ne (Nat.le_of_lt_succ hx) hxm) y
        (lt_of_le_of_ne (Nat.le_of_lt_succ hy) hym) he

/-- The array and the count of the new object. -/
@[simp] lemma newObject_item (limbs : List Natural32) (count : ℤ) :
    (m.newObject limbs count).arrays ((m.newObject limbs count).item m.objects) = limbs := by
  simp [newObject]

@[simp] lemma newObject_count (limbs : List Natural32) (count : ℤ) :
    (m.newObject limbs count).count m.objects = count := by
  simp [newObject]

/-- The arrays and the counts of the objects before. -/
lemma newObject_old (hm : m.WellFormed) (limbs : List Natural32) (count : ℤ) {y : ℕ}
    (hy : y < m.objects) :
    (m.newObject limbs count).item y = m.item y ∧ (m.newObject limbs count).count y = m.count y ∧
      (m.newObject limbs count).arrays (m.item y) = m.arrays (m.item y) := by
  have hne : m.item y ≠ m.free := Nat.ne_of_lt (hm.allocated y hy)
  exact ⟨Function.update_of_ne hy.ne _ _, Function.update_of_ne hy.ne _ _,
    Function.update_of_ne hne _ _⟩

/-- The objects before stand for what they stood for. -/
lemma newObject_others (hm : m.WellFormed) (limbs : List Natural32) (count : ℤ) {y : ℕ}
    (hy : y < m.objects) (hn : m.Normalised y) :
    (m.newObject limbs count).Normalised y ∧
      (m.newObject limbs count).value y = m.value y := by
  obtain ⟨hitem, hcount, harray⟩ := newObject_old hm limbs count hy
  have hmag : (m.newObject limbs count).magnitude y = m.magnitude y := by
    rw [magnitude, hitem, hcount, magnitude, LimbHeap.number, LimbHeap.number, Arrays.segment,
      Arrays.segment, harray]
  rw [normalised_iff] at hn ⊢
  rw [IntegerXMemory.value, IntegerXMemory.value, hcount, hmag, capacity, hitem, harray]
  exact ⟨hn, rfl⟩

lemma size_le_limbCount (n : ℕ) : n.size ≤ 32 * limbCount n := by
  rw [limbCount]
  omega

lemma lt_pow_limbCount (n : ℕ) : n < (2 ^ 32) ^ limbCount n := by
  rw [← Nat.pow_mul]
  exact Nat.size_le.mp (size_le_limbCount n)

lemma pow_limbCount_le {n : ℕ} (hn : n ≠ 0) : (2 ^ 32) ^ (limbCount n - 1) ≤ n := by
  have hpos := Nat.size_pos.mpr (Nat.pos_of_ne_zero hn)
  rw [← Nat.pow_mul]
  refine Nat.lt_size.mp ?_
  rw [limbCount]
  omega

/-- **A new object** stands for the number it was created for. -/
lemma created_create (hm : m.WellFormed) (z : ℤ) : m.Created (m.create z) z := by
  have hcount : (m.create z).count m.objects = z.sign * limbCount z.natAbs := newObject_count _ _
  have hlimbs : (m.create z).arrays ((m.create z).item m.objects) =
      ofNat 32 (max 1 (limbCount z.natAbs)) z.natAbs := newObject_item _ _
  have habs : ((m.create z).count m.objects).natAbs = limbCount z.natAbs := by
    rw [hcount, Int.natAbs_mul]
    rcases eq_or_ne z 0 with rfl | hz
    · rfl
    · rw [Int.natAbs_sign_of_ne_zero hz, Nat.one_mul, Int.natAbs_natCast]
  have hcap : limbCount z.natAbs ≤ (m.create z).capacity m.objects := by
    rw [capacity, hlimbs, length_ofNat]
    exact le_max_right _ _
  have hmag : (m.create z).magnitude m.objects = z.natAbs := by
    have hsplit : max 1 (limbCount z.natAbs) =
        limbCount z.natAbs + (max 1 (limbCount z.natAbs) - limbCount z.natAbs) := by omega
    rw [magnitude, habs, LimbHeap.number, Arrays.segment, hlimbs, Special.slice, List.drop_zero,
      hsplit, ofNat_add, List.take_left' (length_ofNat _ _),
      value_ofNat_of_lt (lt_pow_limbCount _)]
  refine ⟨wellFormed_newObject hm _ _, rfl, ?_, ?_, fun y hy hn => newObject_others hm _ _ hy hn⟩
  · rw [normalised_iff, habs, hmag]
    refine ⟨hcap, fun hne => pow_limbCount_le ?_⟩
    intro h0
    rw [h0] at habs
    exact hne (Int.natAbs_eq_zero.mp habs)
  · rw [IntegerXMemory.value, hcount, hmag, Int.sign_mul, Int.sign_sign]
    rcases eq_or_ne z 0 with rfl | hz
    · rfl
    · have hpos : (0 : ℤ) < limbCount z.natAbs := by
        have := Nat.size_pos.mpr (Int.natAbs_pos.mpr hz)
        rw [limbCount]
        omega
      rw [Int.sign_eq_one_of_pos hpos, mul_one, Int.sign_mul_natAbs]

/-- **A copy** of an object stands for the same number. -/
lemma created_identity (hm : m.WellFormed) {x : ℕ} (hx : m.Normalised x) :
    m.Created (m.identity x) (m.value x) := by
  have hcount : (m.identity x).count m.objects = m.count x := newObject_count _ _
  have hlimbs : (m.identity x).arrays ((m.identity x).item m.objects) = m.arrays (m.item x) :=
    newObject_item _ _
  have hmag : (m.identity x).magnitude m.objects = m.magnitude x := by
    rw [magnitude, hcount, LimbHeap.number, Arrays.segment, hlimbs]
    rfl
  refine ⟨wellFormed_newObject hm _ _, rfl, ?_, ?_, fun y hy hn => newObject_others hm _ _ hy hn⟩
  · rw [normalised_iff] at hx ⊢
    rw [hcount, hmag, capacity, hlimbs]
    exact hx
  · rw [IntegerXMemory.value, hcount, hmag, IntegerXMemory.value]

/-- A new object without limbs. -/
lemma created_zero (hm : m.WellFormed) (limbs : List Natural32) :
    m.Created (m.newObject limbs 0) 0 := by
  have hcount : (m.newObject limbs 0).count m.objects = 0 := newObject_count _ _
  refine ⟨wellFormed_newObject hm _ _, rfl, ⟨?_, fun hne => absurd hcount hne⟩, ?_,
    fun y hy hn => newObject_others hm _ _ hy hn⟩
  · rw [hcount]
    exact Nat.zero_le _
  · rw [IntegerXMemory.value, hcount, Int.sign_zero, zero_mul]

/-- An operation on a new object. -/
lemma Created.outcome {m₁ m₂ : IntegerXMemory} {z v : ℤ} (h : m.Created m₁ z)
    (ho : m₁.Outcome m₂ m.objects v) : m.Created m₂ v where
  wellFormed := ho.wellFormed
  objects := ho.objects.trans h.objects
  normalised := ho.normalised
  value := ho.value
  others y hy hn := by
    obtain ⟨hn₁, hv₁⟩ := h.others y hy hn
    obtain ⟨hn₂, hv₂⟩ := ho.others y (by rw [h.objects]; omega) hy.ne hn₁
    exact ⟨hn₂, hv₂.trans hv₁⟩

/-! ## The bits of an object -/

/-- The absolute value of the number of an object. -/
lemma natAbs_value (m : IntegerXMemory) (x : ℕ) : (m.value x).natAbs = m.magnitude x := by
  rw [IntegerXMemory.value, Int.natAbs_mul, Int.natAbs_natCast]
  rcases eq_or_ne (m.count x) 0 with h0 | hne
  · rw [magnitude_eq_zero (Int.natAbs_eq_zero.mpr h0), Nat.mul_zero]
  · rw [Int.natAbs_sign_of_ne_zero hne, Nat.one_mul]

/-- The value of an object from the sign of its count. -/
lemma value_of_count_nonneg {x : ℕ} (h : 0 ≤ m.count x) : m.value x = m.magnitude x := by
  rw [IntegerXMemory.value, sign_mul_magnitude rfl, if_neg (not_lt.mpr h)]

lemma value_of_count_neg {x : ℕ} (h : m.count x < 0) : m.value x = -(m.magnitude x : ℤ) := by
  rw [IntegerXMemory.value, sign_mul_magnitude rfl, if_pos h]

lemma value_of_count_eq_zero {x : ℕ} (h : m.count x = 0) : m.value x = 0 := by
  rw [value_of_count_nonneg h.ge, magnitude_eq_zero (Int.natAbs_eq_zero.mpr h)]
  rfl

/-- The limbs of a normalised object with limbs do not stand for zero. -/
lemma Normalised.magnitude_pos {x : ℕ} (hx : m.Normalised x) (hne : m.count x ≠ 0) :
    0 < m.magnitude x :=
  Nat.lt_of_lt_of_le (by positivity) ((normalised_iff.mp hx).2 hne)

/-- The number fits in the limbs. -/
lemma Normalised.magnitude_lt {x : ℕ} (hx : m.Normalised x) :
    m.magnitude x < (2 ^ 32) ^ (m.count x).natAbs :=
  m.arrays.number_lt (by
    rw [Nat.zero_add]
    exact hx.count_le)

/-- The sign of a normalised object is the one of its count. -/
lemma Normalised.value_neg_iff {x : ℕ} (hx : m.Normalised x) : m.value x < 0 ↔ m.count x < 0 := by
  rcases lt_or_ge (m.count x) 0 with hneg | hnonneg
  · have hpos := hx.magnitude_pos hneg.ne
    rw [IntegerXMemory.value, Int.sign_eq_neg_one_of_neg hneg]
    omega
  · rw [IntegerXMemory.value]
    exact iff_of_false (not_lt.mpr (mul_nonneg (Int.sign_nonneg_iff.mpr hnonneg)
      (Int.natCast_nonneg _))) (not_lt.mpr hnonneg)

/-- **The number of bits** of a normalised object; zero takes one. -/
lemma Normalised.bits_some {x : ℕ} (hx : m.Normalised x) :
    m.bits x = some (max 1 (m.value x).natAbs.size) := by
  rw [bits, natAbs_value]
  split
  case isTrue h0 =>
    rw [magnitude_eq_zero h0]
    rfl
  case isFalse hne =>
    obtain ⟨d, hd, hsize⟩ := hx.bits_eq hne
    have hpos := hx.magnitude_pos (by omega)
    have hsize' := Nat.size_pos.mpr hpos
    rw [hd, Option.map_some, hsize, Nat.max_eq_right (by omega)]

/-- The loop of `bit_test` over the limbs below the one with the bit. -/
def bitTestLoop (u : ℕ) (h : LimbHeap) : ℕ → Natural32 → Option Natural32
  | 0, limb => some limb
  | pOffset + 1, limb =>
    (h.item u pOffset).bind fun d =>
      if d ≠ 0 then some (limb - 1) else bitTestLoop u h pOffset limb

/-- `bit_test (op, bit_index)`. -/
def bitTest (op bitIndex : ℕ) (m : IntegerXMemory) : Option Bool :=
  let limbIndex := bitIndex / 32
  if (m.count op).natAbs ≤ limbIndex then some (m.count op < 0)
  else
    (m.arrays.item (m.item op) limbIndex).bind fun limb =>
      let limb :=
        if m.count op < 0 then bitTestLoop (m.item op) m.arrays limbIndex (0 - limb)
        else some limb
      limb.map fun limb => limb.getLsbD (bitIndex % 32)

/-- The loop takes one away if the limbs below do not stand for zero. -/
lemma bitTestLoop_eq (h : LimbHeap) {u n : ℕ} (limb : Natural32) (hn : n ≤ (h u).length) :
    bitTestLoop u h n limb = some (if h.number u 0 n = 0 then limb else limb - 1) := by
  induction n with
  | zero =>
    rw [bitTestLoop, LimbHeap.number, segment_zero, value_nil, if_pos rfl]
  | succ n ih =>
    obtain ⟨d, hd, hnum⟩ := h.exists_last (i := 0) (by omega : 0 + (n + 1) ≤ (h u).length)
    rw [Nat.zero_add] at hd
    rw [bitTestLoop, hd, Option.bind_some, ih (by omega), hnum]
    by_cases hzero : d = 0
    · rw [if_neg (not_not.mpr hzero), hzero, SpecialArithmetic.toNat_zero_limb, Nat.mul_zero,
        Nat.add_zero]
    · have hpos : 0 < d.toNat := BitVec.toNat_pos_of_ne_zero hzero
      have hbase : 0 < (2 ^ 32) ^ n := by positivity
      have hne : h.number u 0 n + (2 ^ 32) ^ n * d.toNat ≠ 0 := by positivity
      rw [if_pos hzero, if_neg hne]

/-- A limb of the predecessor of a number with `limb` above the limbs for `low`. -/
lemma ofNat_pred_div {n low high : ℕ} (limb : Natural32) (hlow : low < (2 ^ 32) ^ n)
    (hpos : 0 < low + (2 ^ 32) ^ n * (limb.toNat + 2 ^ 32 * high)) :
    BitVec.ofNat 32 ((low + (2 ^ 32) ^ n * (limb.toNat + 2 ^ 32 * high) - 1) / (2 ^ 32) ^ n) =
      if low = 0 then limb - 1 else limb := by
  have hbase : 0 < (2 ^ 32) ^ n := by positivity
  have hlt := limb.isLt
  apply BitVec.eq_of_toNat_eq
  rw [BitVec.toNat_ofNat]
  split
  case isTrue hzero =>
    subst hzero
    obtain ⟨k, hk⟩ : ∃ k, limb.toNat + 2 ^ 32 * high = k + 1 := by
      refine ⟨limb.toNat + 2 ^ 32 * high - 1, ?_⟩
      have hne : limb.toNat + 2 ^ 32 * high ≠ 0 := by
        rintro h0
        rw [h0, Nat.mul_zero] at hpos
        omega
      omega
    have hsub : 0 + (2 ^ 32) ^ n * (k + 1) - 1 = ((2 ^ 32) ^ n - 1) + (2 ^ 32) ^ n * k := by
      rw [Nat.mul_succ]
      omega
    rw [hk, hsub, Nat.add_mul_div_left _ _ hbase, Nat.div_eq_of_lt (by omega), Nat.zero_add,
      BitVec.toNat_sub]
    show k % 2 ^ 32 = (2 ^ 32 - 1 + limb.toNat) % 2 ^ 32
    omega
  case isFalse hne =>
    have hsub : low + (2 ^ 32) ^ n * (limb.toNat + 2 ^ 32 * high) - 1 =
        (low - 1) + (2 ^ 32) ^ n * (limb.toNat + 2 ^ 32 * high) := by omega
    rw [hsub, Nat.add_mul_div_left _ _ hbase, Nat.div_eq_of_lt (by omega), Nat.zero_add]
    omega

/-- The bits of a number from a limb on. -/
lemma testBit_eq_getLsbD (v i : ℕ) :
    v.testBit i = (BitVec.ofNat 32 (v / (2 ^ 32) ^ (i / 32))).getLsbD (i % 32) := by
  rw [BitVec.getLsbD_ofNat, decide_eq_true (Nat.mod_lt i (by decide)), Bool.true_and,
    ← Nat.pow_mul, Nat.testBit_div_two_pow, Nat.add_comm, Nat.div_add_mod]

/-- A negated limb. -/
lemma zero_sub_eq_not (limb : Natural32) : 0 - limb = ~~~ (limb - 1) := by
  apply BitVec.eq_of_toNat_eq
  rw [BitVec.toNat_not, BitVec.toNat_sub, BitVec.toNat_sub]
  show (2 ^ 32 - limb.toNat + 0) % 2 ^ 32 = 2 ^ 32 - 1 - (2 ^ 32 - 1 + limb.toNat) % 2 ^ 32
  omega

/-- A negated limb, one less, is the limb with all bits the other way. -/
lemma zero_sub_sub_one (limb : Natural32) : 0 - limb - 1 = ~~~ limb := by
  apply BitVec.eq_of_toNat_eq
  rw [BitVec.toNat_not, BitVec.toNat_sub, BitVec.toNat_sub]
  show (2 ^ 32 - 1 + (2 ^ 32 - limb.toNat + 0) % 2 ^ 32) % 2 ^ 32 = 2 ^ 32 - 1 - limb.toNat
  omega

/-- A limb of the two's complement of minus a number that has the limb `d` at this index. -/
def negLimb (h : LimbHeap) (a t : ℕ) (d : Natural32) : Natural32 :=
  if h.number a 0 t = 0 then 0 - d else 0 - d - 1

/-- The bits of minus a number. -/
lemma testBit_neg_number {h : LimbHeap} {a n t q : ℕ} {d : Natural32} (hn : n ≤ (h a).length)
    (ht : t < n) (hd : h.item a t = some d) (hq : q < 32) :
    (-(h.number a 0 n : ℤ)).testBit (32 * t + q) = (negLimb h a t d).getLsbD q := by
  obtain ⟨rest, rfl⟩ : ∃ rest, n = t + (rest + 1) := ⟨n - t - 1, by omega⟩
  obtain ⟨limb, hlimb, hseg⟩ := exists_item (h := h) (n := rest) hn
  obtain rfl : d = limb := by rwa [hd, Option.some.injEq] at hlimb
  have hlow : h.number a 0 t < (2 ^ 32) ^ t := h.number_lt (by omega)
  have hnum : h.number a 0 (t + (rest + 1)) = h.number a 0 t +
      (2 ^ 32) ^ t * (d.toNat + 2 ^ 32 * h.number a (t + 1) rest) := by
    rw [LimbHeap.number, ← segment_append, value_append, length_segment (by omega), Nat.zero_add,
      hseg, value_cons]
    rfl
  have hdiv : (32 * t + q) / 32 = t := by omega
  have hmod : (32 * t + q) % 32 = q := by omega
  rcases Nat.eq_zero_or_pos (h.number a 0 (t + (rest + 1))) with h0 | hpos
  · -- minus zero
    have hzero : h.number a 0 t = 0 := by omega
    have hbase : 0 < (2 ^ 32) ^ t := by positivity
    rw [hzero, Nat.zero_add, h0] at hnum
    have hsum := (Nat.mul_eq_zero.mp hnum.symm).resolve_left hbase.ne'
    obtain rfl : d = 0 := BitVec.eq_of_toNat_eq (show d.toNat = 0 by omega)
    rw [h0, negLimb, if_pos hzero]
    exact (Nat.zero_testBit _).trans BitVec.getLsbD_zero.symm
  · have hneg : -(h.number a 0 (t + (rest + 1)) : ℤ) =
        Int.negSucc (h.number a 0 (t + (rest + 1)) - 1) := by omega
    rw [hneg]
    show (!(h.number a 0 (t + (rest + 1)) - 1).testBit _) = _
    rw [testBit_eq_getLsbD, hdiv, hmod, hnum, ofNat_pred_div d hlow (hnum ▸ hpos), negLimb]
    split
    · rw [zero_sub_eq_not, BitVec.getLsbD_not, decide_eq_true hq, Bool.true_and]
    · rw [zero_sub_sub_one, BitVec.getLsbD_not, decide_eq_true hq, Bool.true_and]

/-- **The bits of an object** are those of the two's complement of its number. -/
lemma Normalised.bitTest_eq {x : ℕ} (hx : m.Normalised x) (i : ℕ) :
    m.bitTest x i = some ((m.value x).testBit i) := by
  have hcap := hx.count_le
  have hlt := hx.magnitude_lt
  have hneg (h0 : m.count x < 0) :
      (m.value x).testBit i = !(m.magnitude x - 1).testBit i := by
    have hpos := hx.magnitude_pos h0.ne
    have hval : m.value x = Int.negSucc (m.magnitude x - 1) := by
      rw [IntegerXMemory.value, Int.sign_eq_neg_one_of_neg h0]
      omega
    rw [hval]
    rfl
  have hnonneg (h0 : ¬ m.count x < 0) : (m.value x).testBit i = (m.magnitude x).testBit i := by
    have hval : m.value x = (m.magnitude x : ℕ) := by
      rcases (not_lt.mp h0).eq_or_lt with hz | hpos
      · have hmag : m.magnitude x = 0 := by
          rw [← hz, Int.natAbs_zero, pow_zero] at hlt
          omega
        rw [IntegerXMemory.value, hmag, Int.natCast_zero, mul_zero]
      · rw [IntegerXMemory.value, Int.sign_eq_one_of_pos hpos, one_mul]
    rw [hval]
    rfl
  rw [bitTest]
  dsimp only
  split
  case isTrue hle =>
    have hbound : m.magnitude x < 2 ^ i := by
      refine lt_of_lt_of_le hlt ?_
      rw [← Nat.pow_mul]
      exact Nat.pow_le_pow_right (by decide) (by omega)
    by_cases h0 : m.count x < 0
    · rw [hneg h0, Nat.testBit_eq_false_of_lt (by omega), decide_eq_true h0]
      rfl
    · rw [hnonneg h0, Nat.testBit_eq_false_of_lt hbound, decide_eq_false h0]
  case isFalse hle =>
    obtain ⟨rest, hrest⟩ : ∃ rest, (m.count x).natAbs = i / 32 + (rest + 1) :=
      ⟨(m.count x).natAbs - i / 32 - 1, by omega⟩
    rw [capacity, hrest] at hcap
    obtain ⟨limb, hlimb, hseg⟩ := exists_item (h := m.arrays) (n := rest) hcap
    have hlow' : m.arrays.number (m.item x) 0 (i / 32) < (2 ^ 32) ^ (i / 32) :=
      m.arrays.number_lt (by omega)
    have hmag : m.magnitude x = m.arrays.number (m.item x) 0 (i / 32) + (2 ^ 32) ^ (i / 32) *
        (limb.toNat + 2 ^ 32 * m.arrays.number (m.item x) (i / 32 + 1) rest) := by
      rw [magnitude, hrest, LimbHeap.number, ← segment_append, value_append,
        length_segment (by omega), Nat.zero_add, hseg, value_cons]
      rfl
    rw [hlimb, Option.bind_some]
    by_cases h0 : m.count x < 0
    · have hbit := testBit_neg_number (h := m.arrays) hcap (by omega) hlimb
        (Nat.mod_lt i (by decide))
      have hnum : m.arrays.number (m.item x) 0 (i / 32 + (rest + 1)) = m.magnitude x := by
        rw [magnitude, hrest]
      rw [Nat.div_add_mod, hnum, ← value_of_count_neg h0] at hbit
      rw [if_pos h0, bitTestLoop_eq _ _ (by omega), Option.map_some, hbit]
      rfl
    · have hdiv : m.magnitude x / (2 ^ 32) ^ (i / 32) =
          limb.toNat + 2 ^ 32 * m.arrays.number (m.item x) (i / 32 + 1) rest := by
        rw [hmag, Nat.add_mul_div_left _ _ (by positivity), Nat.div_eq_of_lt hlow', Nat.zero_add]
      have hword : BitVec.ofNat 32 (m.magnitude x / (2 ^ 32) ^ (i / 32)) = limb := by
        apply BitVec.eq_of_toNat_eq
        have hlt := limb.isLt
        rw [hdiv, BitVec.toNat_ofNat, Nat.add_mul_mod_self_left, Nat.mod_eq_of_lt hlt]
      rw [if_neg h0, hnonneg h0, testBit_eq_getLsbD, hword, Option.map_some]

/-- The bits of an object that is not negative. -/
lemma Normalised.bitTest_natCast {x v : ℕ} (hx : m.Normalised x) (hv : m.value x = v) (i : ℕ) :
    m.bitTest x i = some (v.testBit i) := by
  rw [hx.bitTest_eq, hv]
  rfl

end IntegerXMemory

end EiffelWeb
