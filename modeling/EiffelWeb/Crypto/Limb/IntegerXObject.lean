import EiffelWeb.Crypto.Limb.SpecialArithmetic
import EiffelWeb.Footprint

set_option relaxedAutoImplicit false
set_option autoImplicit false

/-!
# Objects of class `INTEGER_X`

An object of class `READABLE_INTEGER_X` has an array `item` of limbs and a number `count`. The
absolute value of `count` is the number of limbs that have meaning, its sign is that of the number.
Objects are references, as the arrays are, so that the target of an operation may be one of its
operands. An object may get a new array; the old one keeps its items.

## Main definitions

* `IntegerXMemory` — the objects and the arrays.
* `IntegerXMemory.WellFormed` — every object has an array of its own.
* `IntegerXMemory.Normalised`, `IntegerXMemory.value` — an object as a number.
* `IntegerXMemory.resize`
* `SpecialUtility.normalize`, `SpecialComparison.cmp`

## Main results

* `SpecialUtility.normalize_eq`, `SpecialComparison.cmp_eq`
* `IntegerXMemory.Resized` — what `resize` does.
-/

namespace EiffelWeb

open Limbs Arrays

/-! ## Limbs -/

namespace SpecialUtility

/-- `normalize (op1, op1_offset, op1_count)`: the number of limbs without the high zero limbs. -/
def normalize (op1 op1Offset : ℕ) : ℕ → LimbHeap → Option ℕ
  | 0, _ => some 0
  | n + 1, h =>
    (h.item op1 (op1Offset + n)).bind fun x =>
      if x ≠ 0 then some (n + 1) else normalize op1 op1Offset n h

end SpecialUtility

/-- The last limb of a segment, and the number without it. -/
lemma LimbHeap.exists_last (h : LimbHeap) {a i n : ℕ} (hn : i + (n + 1) ≤ (h a).length) :
    ∃ x, h.item a (i + n) = some x ∧
      h.number a i (n + 1) = h.number a i n + (2 ^ 32) ^ n * x.toNat := by
  obtain ⟨x, hx, hseg⟩ := exists_item (h := h) (a := a) (i := i + n) (n := 0) (by omega)
  refine ⟨x, hx, ?_⟩
  rw [LimbHeap.number, ← segment_append, value_append, length_segment (by omega), hseg,
    segment_zero, value_singleton, LimbHeap.number]

/-- **`normalize`** finds the number of limbs that a number needs. -/
lemma SpecialUtility.normalize_eq (h : LimbHeap) {a i n : ℕ} (hn : i + n ≤ (h a).length) :
    ∃ r, SpecialUtility.normalize a i n h = some r ∧ r ≤ n ∧ h.number a i r = h.number a i n ∧
      (r ≠ 0 → (2 ^ 32) ^ (r - 1) ≤ h.number a i n) := by
  induction n with
  | zero => exact ⟨0, rfl, le_rfl, rfl, fun hr => absurd rfl hr⟩
  | succ n ih =>
    obtain ⟨x, hx, hnum⟩ := h.exists_last hn
    rw [normalize, hx, Option.bind_some]
    by_cases hzero : x = 0
    · obtain ⟨r, hr, hle, hval, hlow⟩ := ih (by omega)
      have hsame : h.number a i (n + 1) = h.number a i n := by
        rw [hnum, hzero, SpecialArithmetic.toNat_zero_limb, Nat.mul_zero, Nat.add_zero]
      rw [if_neg (not_not.mpr hzero), hsame]
      exact ⟨r, hr, by omega, hval, hlow⟩
    · rw [if_pos hzero]
      refine ⟨n + 1, rfl, le_rfl, rfl, fun _ => ?_⟩
      rw [hnum, Nat.add_sub_cancel]
      exact (pow_le_mul_toNat hzero n).trans (Nat.le_add_left _ _)

namespace SpecialComparison

/-- `cmp (op1, op1_offset, op2, op2_offset, size)`. -/
def cmp (op1 op1Offset op2 op2Offset : ℕ) : ℕ → LimbHeap → Option ℤ
  | 0, _ => some 0
  | n + 1, h =>
    (h.item op1 (op1Offset + n)).bind fun x =>
      (h.item op2 (op2Offset + n)).bind fun y =>
        if x ≠ y then some (if y < x then 1 else -1)
        else cmp op1 op1Offset op2 op2Offset n h

/-- The order of two numbers as `cmp` returns it. -/
def order (u v : ℕ) : ℤ := if u < v then -1 else if v < u then 1 else 0

lemma order_eq_of_lt {u v : ℕ} (h : u < v) : order u v = -1 := if_pos h

lemma order_eq_of_gt {u v : ℕ} (h : v < u) : order u v = 1 := by
  rw [order, if_neg (by omega), if_pos h]

/-- **`cmp`** compares the two numbers.

**Proof sketch.** Induction on the number of limbs. Where the highest limbs differ they decide,
since the limbs below cannot make up for a difference of one. -/
lemma cmp_eq (h : LimbHeap) {a i b j n : ℕ} (ha : i + n ≤ (h a).length)
    (hb : j + n ≤ (h b).length) :
    cmp a i b j n h = some (order (h.number a i n) (h.number b j n)) := by
  induction n with
  | zero =>
    rw [cmp, LimbHeap.number, LimbHeap.number, segment_zero, segment_zero]
    rfl
  | succ n ih =>
    obtain ⟨x, hx, hnum⟩ := h.exists_last ha
    obtain ⟨y, hy, hnum'⟩ := h.exists_last hb
    have hlt : h.number a i n < (2 ^ 32) ^ n := h.number_lt (by omega)
    have hlt' : h.number b j n < (2 ^ 32) ^ n := h.number_lt (by omega)
    rw [cmp, hx, hy, Option.bind_some, Option.bind_some, hnum, hnum']
    by_cases hxy : x = y
    · subst hxy
      rw [if_neg (not_not.mpr rfl), ih (by omega) (by omega)]
      simp only [order, Nat.add_lt_add_iff_right]
    · rw [if_pos hxy]
      by_cases hgt : y < x
      · have hle : (2 ^ 32) ^ n * (y.toNat + 1) ≤ (2 ^ 32) ^ n * x.toNat :=
          Nat.mul_le_mul_left _ hgt
        rw [Nat.mul_add, Nat.mul_one] at hle
        rw [if_pos hgt, order_eq_of_gt (by omega)]
      · have hlt'' : x.toNat < y.toNat := by
          have hne : x.toNat ≠ y.toNat := fun he => hxy (BitVec.eq_of_toNat_eq he)
          have hnot : ¬ y.toNat < x.toNat := hgt
          omega
        have hle : (2 ^ 32) ^ n * (x.toNat + 1) ≤ (2 ^ 32) ^ n * y.toNat :=
          Nat.mul_le_mul_left _ hlt''
        rw [Nat.mul_add, Nat.mul_one] at hle
        rw [if_neg hgt, order_eq_of_lt (by omega)]

end SpecialComparison

/-! ## Objects -/

/-- Objects of class `INTEGER_X`, numbered from zero, and arrays of limbs. -/
structure IntegerXMemory where
  /-- The arrays. -/
  arrays : LimbHeap
  /-- The first reference that is not in use. -/
  free : ℕ
  /-- The number of objects. -/
  objects : ℕ
  /-- `item` of an object. -/
  item : ℕ → ℕ
  /-- `count` of an object. -/
  count : ℕ → ℤ

namespace IntegerXMemory

variable (m : IntegerXMemory)

/-- `capacity`. -/
def capacity (x : ℕ) : ℕ := (m.arrays (m.item x)).length

/-- Every object has an array of its own. -/
structure WellFormed : Prop where
  /-- The arrays of the objects are in use. -/
  allocated : ∀ x < m.objects, m.item x < m.free
  /-- Two objects have two arrays. -/
  owned : ∀ x < m.objects, ∀ y < m.objects, m.item x = m.item y → x = y

/-- The absolute value of an object. -/
def magnitude (x : ℕ) : ℕ := m.arrays.number (m.item x) 0 (m.count x).natAbs

/-- The number an object stands for. -/
def value (x : ℕ) : ℤ := (m.count x).sign * m.magnitude x

/-- The limbs of an object are there, and the highest one is not zero. -/
structure Normalised (x : ℕ) : Prop where
  /-- The limbs are inside the array. -/
  count_le : (m.count x).natAbs ≤ m.capacity x
  /-- The highest limb is not zero. -/
  top : m.count x ≠ 0 → m.arrays.item (m.item x) ((m.count x).natAbs - 1) ≠ some 0

/-- `resize (new_alloc)`: a longer array is a new one, with the items of the old one and zeros. -/
def resize (x newAlloc : ℕ) : IntegerXMemory :=
  if m.capacity x < newAlloc then
    { m with
      arrays := Function.update m.arrays m.free
        (m.arrays (m.item x) ++ List.replicate (max newAlloc 1 - m.capacity x) 0)
      free := m.free + 1
      item := Function.update m.item x m.free }
  else m

variable {m}

/-- An object is normalised if its number needs all limbs. -/
lemma normalised_iff {x : ℕ} : m.Normalised x ↔ (m.count x).natAbs ≤ m.capacity x ∧
    (m.count x ≠ 0 → (2 ^ 32) ^ ((m.count x).natAbs - 1) ≤ m.magnitude x) := by
  have htop (hle : (m.count x).natAbs ≤ m.capacity x) (hne : m.count x ≠ 0) :
      m.arrays.item (m.item x) ((m.count x).natAbs - 1) ≠ some 0 ↔
        (2 ^ 32) ^ ((m.count x).natAbs - 1) ≤ m.magnitude x := by
    obtain ⟨n, hn⟩ : ∃ n, (m.count x).natAbs = n + 1 := ⟨(m.count x).natAbs - 1, by omega⟩
    have hcap : 0 + (n + 1) ≤ (m.arrays (m.item x)).length := by
      rw [Nat.zero_add, ← hn]
      exact hle
    obtain ⟨d, hd, hnum⟩ := m.arrays.exists_last hcap
    have hlt : m.arrays.number (m.item x) 0 n < (2 ^ 32) ^ n := m.arrays.number_lt (by omega)
    rw [Nat.zero_add] at hd
    rw [magnitude, hn, Nat.add_sub_cancel, hd, hnum]
    constructor
    · intro hne
      have hpos : 1 ≤ d.toNat := by
        rw [Nat.one_le_iff_ne_zero]
        exact fun h0 => hne (congrArg some (BitVec.eq_of_toNat_eq h0))
      have hmul : (2 ^ 32) ^ n * 1 ≤ (2 ^ 32) ^ n * d.toNat := Nat.mul_le_mul_left _ hpos
      omega
    · intro hle hzero
      rw [Option.some.inj hzero, SpecialArithmetic.toNat_zero_limb] at hle
      omega
  constructor
  · exact fun h => ⟨h.count_le, fun hne => (htop h.count_le hne).mp (h.top hne)⟩
  · exact fun h => ⟨h.1, fun hne => (htop h.1 hne).mpr (h.2 hne)⟩

/-! ## What an operation does -/

/-- Every object has kept its limbs; its array may be longer. -/
structure Extends (m m' : IntegerXMemory) : Prop where
  /-- Every object has an array of its own. -/
  wellFormed : m'.WellFormed
  /-- The objects are the same. -/
  objects : m'.objects = m.objects
  /-- The counts are the same. -/
  count : m'.count = m.count
  /-- No array is shorter. -/
  capacity : ∀ y < m.objects, m.capacity y ≤ m'.capacity y
  /-- The limbs are the same. -/
  segment : ∀ y < m.objects, ∀ k ≤ m.capacity y,
    m'.arrays.segment (m'.item y) 0 k = m.arrays.segment (m.item y) 0 k

lemma Extends.refl (hm : m.WellFormed) : m.Extends m :=
  ⟨hm, rfl, rfl, fun _ _ => le_rfl, fun _ _ _ _ => rfl⟩

lemma Extends.trans {m m' m'' : IntegerXMemory} (h : m.Extends m') (h' : m'.Extends m'') :
    m.Extends m'' where
  wellFormed := h'.wellFormed
  objects := h'.objects.trans h.objects
  count := h'.count.trans h.count
  capacity y hy := (h.capacity y hy).trans (h'.capacity y (by rwa [h.objects]))
  segment y hy k hk :=
    (h'.segment y (by rwa [h.objects]) k (hk.trans (h.capacity y hy))).trans (h.segment y hy k hk)

/-- The limbs of an object in memory that was extended. -/
lemma Extends.number {m m' : IntegerXMemory} (h : m.Extends m') {y k : ℕ} (hy : y < m.objects)
    (hk : k ≤ m.capacity y) :
    m'.arrays.number (m'.item y) 0 k = m.arrays.number (m.item y) 0 k := by
  rw [LimbHeap.number, h.segment y hy k hk, LimbHeap.number]

/-- New arrays leave the objects alone. -/
lemma extends_of_eq (hm : m.WellFormed) {h : LimbHeap} {k : ℕ} (hk : m.free ≤ k)
    (hold : ∀ a < m.free, h a = m.arrays a) : m.Extends { m with arrays := h, free := k } where
  wellFormed := ⟨fun y hy => (hm.allocated y hy).trans_le hk, hm.owned⟩
  objects := rfl
  count := rfl
  capacity y hy := by
    show (m.arrays (m.item y)).length ≤ (h (m.item y)).length
    rw [hold _ (hm.allocated y hy)]
  segment y hy k' _ := by
    show h.segment (m.item y) 0 k' = m.arrays.segment (m.item y) 0 k'
    rw [Arrays.segment, hold _ (hm.allocated y hy), Arrays.segment]

/-- **`resize`** keeps the limbs of every object and makes room. -/
lemma extends_resize (hm : m.WellFormed) {x : ℕ} (hx : x < m.objects) (n : ℕ) :
    m.Extends (m.resize x n) ∧ n ≤ (m.resize x n).capacity x := by
  by_cases hcap : m.capacity x < n
  · have hresize : m.resize x n = { m with
        arrays := Function.update m.arrays m.free
          (m.arrays (m.item x) ++ List.replicate (max n 1 - m.capacity x) 0)
        free := m.free + 1
        item := Function.update m.item x m.free } := if_pos hcap
    have hnew : (m.resize x n).arrays ((m.resize x n).item x) =
        m.arrays (m.item x) ++ List.replicate (max n 1 - m.capacity x) 0 := by
      rw [hresize]
      simp only [Function.update_self]
    have hold (y : ℕ) (hy : y < m.objects) (hyx : y ≠ x) :
        (m.resize x n).arrays ((m.resize x n).item y) = m.arrays (m.item y) := by
      have hne : m.item y ≠ m.free := Nat.ne_of_lt (hm.allocated y hy)
      rw [hresize]
      simp only [Function.update_of_ne hyx, Function.update_of_ne hne]
    refine ⟨⟨⟨?_, ?_⟩, by rw [hresize], by rw [hresize], ?_, ?_⟩, ?_⟩
    · intro y hy
      rw [hresize] at hy ⊢
      by_cases hyx : y = x
      · simp only [hyx, Function.update_self]
        omega
      · have := hm.allocated y hy
        simp only [Function.update_of_ne hyx]
        omega
    · intro y hy z hz he
      rw [hresize] at hy hz he
      by_cases hyx : y = x <;> by_cases hzx : z = x
      · rw [hyx, hzx]
      · have := hm.allocated z hz
        simp only [hyx, Function.update_self, Function.update_of_ne hzx] at he
        omega
      · have := hm.allocated y hy
        simp only [hzx, Function.update_self, Function.update_of_ne hyx] at he
        omega
      · simp only [Function.update_of_ne hyx, Function.update_of_ne hzx] at he
        exact hm.owned y hy z hz he
    · intro y hy
      by_cases hyx : y = x
      · subst hyx
        rw [capacity, capacity, hnew, List.length_append]
        omega
      · rw [capacity, capacity, hold y hy hyx]
    · intro y hy k hk
      by_cases hyx : y = x
      · subst hyx
        rw [Arrays.segment, hnew, Arrays.segment, Special.slice, Special.slice, List.drop_zero,
          List.drop_zero, List.take_append_of_le_length hk]
      · rw [Arrays.segment, hold y hy hyx, Arrays.segment]
    · rw [capacity, hnew, List.length_append, List.length_replicate]
      rw [capacity] at hcap ⊢
      omega
  · have hresize : m.resize x n = m := if_neg hcap
    rw [hresize]
    exact ⟨.refl hm, by omega⟩

/-- The outcome of an operation: the target is normalised and stands for `v`, and every other
normalised object stands for what it stood for. -/
structure Outcome (m m' : IntegerXMemory) (target : ℕ) (v : ℤ) : Prop where
  /-- Every object has an array of its own. -/
  wellFormed : m'.WellFormed
  /-- The objects are the same. -/
  objects : m'.objects = m.objects
  /-- The target is normalised. -/
  normalised : m'.Normalised target
  /-- The number of the target. -/
  value : m'.value target = v
  /-- The other objects. -/
  others : ∀ y < m.objects, y ≠ target → m.Normalised y →
    m'.Normalised y ∧ m'.value y = m.value y

/-- Every object but the target has kept its limbs. -/
structure KeepsOthers (m m' : IntegerXMemory) (target : ℕ) : Prop where
  /-- Every object has an array of its own. -/
  wellFormed : m'.WellFormed
  /-- The objects are the same. -/
  objects : m'.objects = m.objects
  /-- The counts are the same. -/
  count : m'.count = m.count
  /-- No array is shorter. -/
  capacity : ∀ y < m.objects, y ≠ target → m.capacity y ≤ m'.capacity y
  /-- The limbs are the same. -/
  segment : ∀ y < m.objects, y ≠ target → ∀ k ≤ m.capacity y,
    m'.arrays.segment (m'.item y) 0 k = m.arrays.segment (m.item y) 0 k

lemma Extends.keepsOthers {m m' : IntegerXMemory} (h : m.Extends m') (target : ℕ) :
    m.KeepsOthers m' target :=
  ⟨h.wellFormed, h.objects, h.count, fun y hy _ => h.capacity y hy, fun y hy _ => h.segment y hy⟩

/-- **The outcome of a limb routine** that writes to the array of the target: the limbs stand for a
number `v` which needs them all. -/
lemma KeepsOthers.outcome {m m' : IntegerXMemory} {target n v : ℕ} {h' : LimbHeap} {c : ℤ}
    (h : m.KeepsOthers m' target) (ht : target < m.objects)
    (hkept : KeptBelow m'.free (region (m'.item target) 0 n) m'.arrays h')
    (hc : c.natAbs ≤ m'.capacity target) (hv : h'.number (m'.item target) 0 c.natAbs = v)
    (hlow : c ≠ 0 → (2 ^ 32) ^ (c.natAbs - 1) ≤ v) :
    m.Outcome { m' with arrays := h', count := Function.update m'.count target c } target
      (c.sign * v) := by
  set r : IntegerXMemory := { m' with arrays := h', count := Function.update m'.count target c }
    with hr
  have hbelow (y : ℕ) (hy : y < m.objects) : m'.item y < m'.free :=
    h.wellFormed.allocated y (by rwa [h.objects])
  have hcap (y : ℕ) (hy : y < m.objects) : r.capacity y = m'.capacity y :=
    hkept.length _ (hbelow y hy)
  have hcount : r.count target = c := Function.update_self _ _ _
  have hmag : r.magnitude target = v := by rw [magnitude, hcount, ← hv]
  refine ⟨⟨h.wellFormed.allocated, h.wellFormed.owned⟩, h.objects, ?_, ?_, ?_⟩
  · rw [normalised_iff, hcount, hmag, hcap _ ht]
    exact ⟨hc, hlow⟩
  · rw [IntegerXMemory.value, hcount, hmag]
  · intro y hy hyt hnorm
    have hne : m'.item target ≠ m'.item y := fun he =>
      hyt (h.wellFormed.owned target (by rwa [h.objects]) y (by rwa [h.objects]) he).symm
    have hcounty : r.count y = m.count y := by
      rw [← h.count]
      exact Function.update_of_ne hyt _ _
    have hmagy : r.magnitude y = m.magnitude y := by
      rw [magnitude, hcounty, magnitude, LimbHeap.number, LimbHeap.number,
        ← h.segment y hy hyt _ hnorm.count_le]
      exact congrArg Limbs.value
        (hkept.segment_apart (hbelow y hy) fun he => absurd he hne)
    rw [normalised_iff] at hnorm ⊢
    rw [IntegerXMemory.value, IntegerXMemory.value, hcounty, hmagy, hcap y hy]
    exact ⟨⟨hnorm.1.trans (h.capacity y hy hyt), hnorm.2⟩, rfl⟩

/-- Setting the count of the target to zero. -/
lemma outcome_zero {m : IntegerXMemory} {target : ℕ} (hm : m.WellFormed)
    (ht : target < m.objects) :
    m.Outcome { m with count := Function.update m.count target 0 } target 0 := by
  have hout := ((Extends.refl hm).keepsOthers target).outcome (c := 0) (v := 0) (n := 0) ht
    ((SameOutside.refl _ m.arrays).keptBelow m.free) (Nat.zero_le _)
    rfl (fun h0 => absurd rfl h0)
  exact hout

/-- Writing limbs at the low end of the target's array and setting its count. -/
def setNumber (m : IntegerXMemory) (target : ℕ) (u : List Natural32) (c : ℤ) : IntegerXMemory :=
  { m with arrays := m.arrays.store (m.item target) 0 u
           count := Function.update m.count target c }

section SetNumber

variable {m m' : IntegerXMemory} {target : ℕ} {u : List Natural32} {c : ℤ}

/-- The outcome of writing limbs that stand for a number `v` which needs them all. -/
lemma Extends.outcome_setNumber (h : m.Extends m') (ht : target < m.objects)
    (hu : u.length ≤ m'.capacity target) (hc : c.natAbs ≤ u.length) {v : ℕ}
    (hv : Limbs.value (u.take c.natAbs) = v) (hlow : c ≠ 0 → (2 ^ 32) ^ (c.natAbs - 1) ≤ v) :
    m.Outcome (m'.setNumber target u c) target (c.sign * v) := by
  have hu' : 0 + u.length ≤ (m'.arrays (m'.item target)).length := by rwa [Nat.zero_add]
  refine (h.keepsOthers target).outcome ht ((sameOutside_store hu').keptBelow m'.free)
    (hc.trans hu) ?_ hlow
  rw [LimbHeap.number, ← hv, ← Nat.zero_add 0,
    segment_eq_slice _ (show 0 + c.natAbs ≤ u.length by omega), segment_store_self hu',
    Special.slice, List.drop_zero]

end SetNumber

end IntegerXMemory

end EiffelWeb
