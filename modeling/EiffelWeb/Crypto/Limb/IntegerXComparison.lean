import EiffelWeb.Crypto.Limb.IntegerXBits
import EiffelWeb.Crypto.Limb.IntegerXMul

set_option relaxedAutoImplicit false
set_option autoImplicit false

/-!
# Comparisons of objects

The routines of `INTEGER_X_COMPARISON`. A number of limbs with the sign of the number decides unless
the numbers have as many limbs and the same sign. Otherwise `compare` looks for the highest limbs
that differ. `cmpabs` has a loop of its own for this, which is meant to stop there, but tests a
variable that it does not set: it runs over all limbs, and the lowest ones that differ decide.

## Main definitions

* `IntegerXMemory.compare`, `IntegerXMemory.cmpSi`, `IntegerXMemory.cmpUi`
* `IntegerXMemory.cmpabs`, `IntegerXMemory.cmpabsUi`
* `LowestDecides` — the lowest limbs in which two numbers differ are in the order of the numbers.

## Main results

* `IntegerXMemory.compare_sign`, `IntegerXMemory.cmpSi_sign`, `IntegerXMemory.cmpUi_sign`,
  `IntegerXMemory.cmpabsUi_sign`
* `IntegerXMemory.comparisons_sign` — these four, and when `cmpabs` is right.
-/

namespace EiffelWeb

open Limbs Arrays

namespace IntegerXMemory

/-- `compare (op1, op2)`. -/
def compare (op1 op2 : ℕ) (m : IntegerXMemory) : Option ℤ :=
  let usize := m.count op1
  let vsize := m.count op2
  let dsize := usize - vsize
  if dsize ≠ 0 then some dsize
  else
    (SpecialComparison.cmp (m.item op1) 0 (m.item op2) 0 usize.natAbs m.arrays).map fun cmpL =>
      if 0 ≤ usize then cmpL else -cmpL

/-- `cmp_si (op1, op)`. The negation of an `INTEGER_32` wraps around. -/
def cmpSi (op1 : ℕ) (op : BitVec 32) (m : IntegerXMemory) : Option ℤ :=
  let usize := m.count op1
  let vsize : ℤ := if 0 < op.toInt then 1 else if op.toInt < 0 then -1 else 0
  let vDigit := if op.toInt < 0 then -op else op
  if usize ≠ vsize then some (usize - vsize)
  else if usize = 0 then some 0
  else
    (m.arrays.item (m.item op1) 0).map fun uDigit =>
      if uDigit = vDigit then 0 else if vDigit < uDigit then usize else -usize

/-- The end of `cmp_ui` and `cmpabs_ui`: the only limb is compared. -/
def cmpLimb (ul vDigit : Natural32) : ℤ := if vDigit < ul then 1 else if ul < vDigit then -1 else 0

/-- `cmp_ui (op1, op)`. -/
def cmpUi (op1 : ℕ) (op : Natural32) (m : IntegerXMemory) : Option ℤ :=
  let un := m.count op1
  if un = 0 then some (if op ≠ 0 then -1 else 0)
  else if un = 1 then (m.arrays.item (m.item op1) 0).map fun ul => cmpLimb ul op
  else some (if 0 < un then 1 else -1)

/-- The loop of `cmpabs` over the limbs below index `i + 1`. The variable that the loop condition
tests stays zero. -/
def cmpabsLoop (u v : ℕ) (h : LimbHeap) : ℕ → ℤ → Option ℤ
  | 0, result => some result
  | i + 1, result =>
    (h.item u i).bind fun x =>
      (h.item v i).bind fun y =>
        cmpabsLoop u v h i (if x ≠ y then if y < x then 1 else -1 else result)

/-- `cmpabs (op1, op2)`. -/
def cmpabs (op1 op2 : ℕ) (m : IntegerXMemory) : Option ℤ :=
  let usize : ℤ := (m.count op1).natAbs
  let vsize : ℤ := (m.count op2).natAbs
  let dsize := usize - vsize
  if dsize ≠ 0 then some dsize
  else cmpabsLoop (m.item op1) (m.item op2) m.arrays (m.count op1).natAbs 0

/-- `cmpabs_ui (op1, op)`. -/
def cmpabsUi (op1 : ℕ) (op : Natural32) (m : IntegerXMemory) : Option ℤ :=
  let un := m.count op1
  if un = 0 then some (if op ≠ 0 then -1 else 0)
  else if un.natAbs = 1 then (m.arrays.item (m.item op1) 0).map fun ul => cmpLimb ul op
  else some 1

end IntegerXMemory

/-! ## The order of numbers and of their sizes -/

namespace SpecialComparison

lemma sign_order (u v : ℕ) : (order u v).sign = ((u : ℤ) - v).sign := by
  rcases lt_trichotomy u v with h | rfl | h
  · rw [order_eq_of_lt h, Int.sign_eq_neg_one_of_neg (by omega : (u : ℤ) - v < 0)]
    rfl
  · rw [order, if_neg (lt_irrefl u), if_neg (lt_irrefl u), sub_self]
  · rw [order_eq_of_gt h, Int.sign_eq_one_of_pos (by omega : 0 < (u : ℤ) - v)]
    rfl

end SpecialComparison

namespace IntegerXMemory

variable {m : IntegerXMemory} {x y : ℕ}

/-- A normalised number is less than one with more limbs. -/
lemma magnitude_lt_of_count (hx : m.Normalised x) (hy : m.Normalised y)
    (h : (m.count x).natAbs < (m.count y).natAbs) : m.magnitude x < m.magnitude y := by
  have hcap : 0 + (m.count x).natAbs ≤ (m.arrays (m.item x)).length := by
    rw [Nat.zero_add]
    exact hx.count_le
  calc m.magnitude x < (2 ^ 32) ^ (m.count x).natAbs := m.arrays.number_lt hcap
    _ ≤ (2 ^ 32) ^ ((m.count y).natAbs - 1) := Nat.pow_le_pow_right (by decide) (by omega)
    _ ≤ m.magnitude y := (normalised_iff.mp hy).2 (by omega)

/-- **Counts decide**: they carry the signs, and more limbs make a larger number. -/
lemma value_lt_of_count_lt (hx : m.Normalised x) (hy : m.Normalised y)
    (h : m.count x < m.count y) : m.value x < m.value y := by
  rcases lt_or_ge (m.count x) 0 with hneg | hnonneg
  · rcases lt_or_ge (m.count y) 0 with hneg' | hnonneg'
    · have := magnitude_lt_of_count hy hx (by omega)
      rw [value_of_count_neg hneg, value_of_count_neg hneg']
      omega
    · have := hx.magnitude_pos hneg.ne
      rw [value_of_count_neg hneg, value_of_count_nonneg hnonneg']
      omega
  · have := magnitude_lt_of_count hx hy (by omega)
    rw [value_of_count_nonneg hnonneg, value_of_count_nonneg (hnonneg.trans h.le)]
    omega

lemma sign_count_sub (hx : m.Normalised x) (hy : m.Normalised y) (h : m.count x ≠ m.count y) :
    (m.count x - m.count y).sign = (m.value x - m.value y).sign := by
  rcases lt_or_gt_of_ne h with hlt | hgt
  · rw [Int.sign_eq_neg_one_of_neg (by omega),
      Int.sign_eq_neg_one_of_neg (by linarith [value_lt_of_count_lt hx hy hlt])]
  · rw [Int.sign_eq_one_of_pos (by omega),
      Int.sign_eq_one_of_pos (by linarith [value_lt_of_count_lt hy hx hgt])]

/-- **`compare`** has the sign of the difference. -/
lemma compare_sign (hx : m.Normalised x) (hy : m.Normalised y) :
    (m.compare x y).map Int.sign = some (m.value x - m.value y).sign := by
  by_cases hcount : m.count x = m.count y
  · have hcap : 0 + (m.count x).natAbs ≤ (m.arrays (m.item x)).length := by
      rw [Nat.zero_add]
      exact hx.count_le
    have hcap' : 0 + (m.count x).natAbs ≤ (m.arrays (m.item y)).length := by
      rw [Nat.zero_add, hcount]
      exact hy.count_le
    have hmag : m.arrays.number (m.item y) 0 (m.count x).natAbs = m.magnitude y := by
      rw [hcount, magnitude]
    simp only [compare, hcount, sub_self, ne_eq, not_true_eq_false, if_false]
    rw [← hcount, SpecialComparison.cmp_eq _ hcap hcap', hmag, ← magnitude, Option.map_some,
      Option.map_some]
    rcases lt_or_ge (m.count x) 0 with hneg | hnonneg
    · rw [if_neg (not_le.mpr hneg), value_of_count_neg hneg, value_of_count_neg (hcount ▸ hneg),
        Int.sign_neg, SpecialComparison.sign_order, ← Int.sign_neg]
      congr 2
      ring
    · rw [if_pos hnonneg, value_of_count_nonneg hnonneg, value_of_count_nonneg (hcount ▸ hnonneg),
        SpecialComparison.sign_order]
  · have hne : m.count x - m.count y ≠ 0 := sub_ne_zero.mpr hcount
    simp only [compare, if_pos hne, Option.map_some, sign_count_sub hx hy hcount]

/-! ## One limb -/

/-- A normalised object with one limb. -/
lemma Normalised.only_limb (hx : m.Normalised x) (h : (m.count x).natAbs = 1) :
    ∃ d, m.arrays.item (m.item x) 0 = some d ∧ m.magnitude x = d.toNat := by
  have hcap := hx.count_le
  rw [h, capacity] at hcap
  obtain ⟨d, hd, hnum⟩ := m.arrays.exists_last (a := m.item x) (i := 0) (n := 0) hcap
  refine ⟨d, hd, ?_⟩
  rw [magnitude, h]
  simpa only [LimbHeap.number, segment_zero, value_nil, pow_zero, Nat.one_mul, Nat.zero_add]
    using hnum

lemma sign_cmpLimb (u v : Natural32) :
    (cmpLimb u v).sign = ((u.toNat : ℤ) - v.toNat).sign := by
  have hgt : v < u ↔ v.toNat < u.toNat := Iff.rfl
  have hlt : u < v ↔ u.toNat < v.toNat := Iff.rfl
  rw [cmpLimb, ← SpecialComparison.sign_order, SpecialComparison.order]
  simp only [hgt, hlt]
  split
  · rw [if_neg (by omega)]
  · rfl

/-- A limb is less than a number with two limbs or more. -/
lemma Normalised.limb_lt (hx : m.Normalised x) (h : 2 ≤ (m.count x).natAbs) (u : Natural32) :
    u.toNat < m.magnitude x :=
  calc u.toNat < (2 ^ 32) ^ 1 := by
        rw [pow_one]
        exact u.isLt
    _ ≤ (2 ^ 32) ^ ((m.count x).natAbs - 1) := Nat.pow_le_pow_right (by decide) (by omega)
    _ ≤ m.magnitude x := (normalised_iff.mp hx).2 (by omega)

/-- The difference of zero and a limb. -/
lemma sign_zero_limb (u : Natural32) :
    (if u ≠ 0 then (-1 : ℤ) else 0).sign = ((0 : ℤ) - u.toNat).sign := by
  by_cases h : u = 0
  · rw [if_neg (not_not.mpr h), h]
    rfl
  · have hpos : 0 < u.toNat := BitVec.toNat_pos_of_ne_zero h
    rw [if_pos h, Int.sign_eq_neg_one_of_neg (by omega : (0 : ℤ) - u.toNat < 0)]
    rfl

/-- **`cmp_ui`** has the sign of the difference. -/
lemma cmpUi_sign (hx : m.Normalised x) (u : Natural32) :
    (m.cmpUi x u).map Int.sign = some (m.value x - u.toNat).sign := by
  by_cases h0 : m.count x = 0
  · have hval : m.value x = 0 := by rw [IntegerXMemory.value, h0, Int.sign_zero, zero_mul]
    simp only [cmpUi, if_pos h0, Option.map_some, sign_zero_limb, hval]
  · by_cases h1 : m.count x = 1
    · obtain ⟨d, hd, hmag⟩ := hx.only_limb (by rw [h1]; rfl)
      simp only [cmpUi, if_neg h0, if_pos h1, hd, Option.map_some, sign_cmpLimb]
      rw [value_of_count_nonneg (by omega), hmag]
    · simp only [cmpUi, if_neg h0, if_neg h1, Option.map_some]
      rcases lt_or_gt_of_ne h0 with hneg | hpos
      · have hmag := hx.magnitude_pos h0
        rw [if_neg (not_lt.mpr hneg.le), value_of_count_neg hneg,
          Int.sign_eq_neg_one_of_neg (a := -_ - _) (by omega)]
        rfl
      · have hmag := hx.limb_lt (by omega) u
        rw [if_pos hpos, value_of_count_nonneg hpos.le,
          Int.sign_eq_one_of_pos (by omega : 0 < (m.magnitude x : ℤ) - u.toNat)]
        rfl

/-- **`cmpabs_ui`** has the sign of the difference. -/
lemma cmpabsUi_sign (hx : m.Normalised x) (u : Natural32) :
    (m.cmpabsUi x u).map Int.sign = some (|m.value x| - u.toNat).sign := by
  have habs : |m.value x| = m.magnitude x := by rw [Int.abs_eq_natAbs, natAbs_value]
  rw [habs]
  by_cases h0 : m.count x = 0
  · have hmag : m.magnitude x = 0 := magnitude_eq_zero (Int.natAbs_eq_zero.mpr h0)
    simp only [cmpabsUi, if_pos h0, Option.map_some, sign_zero_limb, hmag, Nat.cast_zero]
  · by_cases h1 : (m.count x).natAbs = 1
    · obtain ⟨d, hd, hmag⟩ := hx.only_limb h1
      simp only [cmpabsUi, if_neg h0, if_pos h1, hd, Option.map_some, sign_cmpLimb, hmag]
    · have hmag := hx.limb_lt (by omega) u
      simp only [cmpabsUi, if_neg h0, if_neg h1, Option.map_some]
      rw [Int.sign_eq_one_of_pos (by omega : 0 < (m.magnitude x : ℤ) - u.toNat)]
      rfl

/-- The absolute value of an `INTEGER_32` as `cmp_si` makes it, also of the least one. -/
lemma toNat_digit (i : BitVec 32) : (if i.toInt < 0 then -i else i).toNat = i.toInt.natAbs := by
  have hlt := i.isLt
  split
  case isTrue h =>
    rw [BitVec.toNat_neg]
    rw [BitVec.toInt] at h ⊢
    split at h <;> omega
  case isFalse h =>
    rw [BitVec.toInt] at h ⊢
    split at h <;> omega

/-- **`cmp_si`** has the sign of the difference.

**Proof sketch.** If the counts differ, the object has another sign than the number or more than
one limb. -/
lemma cmpSi_sign (hx : m.Normalised x) (i : BitVec 32) :
    (m.cmpSi x i).map Int.sign = some (m.value x - i.toInt).sign := by
  have hdigit := toNat_digit i
  have hlarge (h : 2 ≤ (m.count x).natAbs) : i.toInt.natAbs < m.magnitude x :=
    hdigit ▸ hx.limb_lt h _
  simp only [cmpSi]
  set v := if i.toInt < 0 then -i else i with hv
  set vsize : ℤ := if 0 < i.toInt then 1 else if i.toInt < 0 then -1 else 0 with hvsize
  by_cases hcount : m.count x = vsize
  · rw [if_neg (not_not.mpr hcount)]
    by_cases h0 : m.count x = 0
    · have hi : i.toInt = 0 := by omega
      rw [if_pos h0, hi, value_of_count_nonneg h0.ge, magnitude_eq_zero (by rw [h0]; rfl)]
      rfl
    · obtain ⟨d, hd, hmag⟩ := hx.only_limb (by omega)
      have hgt : v < d ↔ v.toNat < d.toNat := Iff.rfl
      rw [if_neg h0, hd, Option.map_some, Option.map_some]
      congr 1
      by_cases hdv : d = v
      · have hnum : d.toNat = i.toInt.natAbs := by rw [hdv, hdigit]
        rw [if_pos hdv, Int.sign_zero, eq_comm, Int.sign_eq_zero_iff_zero]
        rcases lt_or_gt_of_ne h0 with hneg | hpos
        · rw [value_of_count_neg hneg, hmag]
          omega
        · rw [value_of_count_nonneg hpos.le, hmag]
          omega
      · have hne : d.toNat ≠ v.toNat := fun he => hdv (BitVec.eq_of_toNat_eq he)
        rw [if_neg hdv]
        simp only [hgt]
        rcases lt_or_gt_of_ne h0 with hneg | hpos
        · rw [value_of_count_neg hneg, hmag]
          split
          · rw [Int.sign_eq_neg_one_of_neg hneg,
              Int.sign_eq_neg_one_of_neg (a := -_ - _) (by omega)]
          · rw [Int.sign_eq_one_of_pos (by omega), Int.sign_eq_one_of_pos (a := -_ - _) (by omega)]
        · rw [value_of_count_nonneg hpos.le, hmag]
          split
          · rw [Int.sign_eq_one_of_pos hpos,
              Int.sign_eq_one_of_pos (by omega : 0 < (d.toNat : ℤ) - i.toInt)]
          · rw [Int.sign_eq_neg_one_of_neg (by omega),
              Int.sign_eq_neg_one_of_neg (by omega : (d.toNat : ℤ) - i.toInt < 0)]
  · rw [if_pos hcount, Option.map_some]
    congr 1
    rcases lt_or_gt_of_ne hcount with hlt | hgt
    · rw [Int.sign_eq_neg_one_of_neg (by omega), Int.sign_eq_neg_one_of_neg]
      rcases lt_or_ge (m.count x) 0 with hneg | hnonneg
      · have := hx.magnitude_pos hneg.ne
        rw [value_of_count_neg hneg]
        omega
      · have hzero : m.count x = 0 := by omega
        rw [value_of_count_nonneg hnonneg, magnitude_eq_zero (by rw [hzero]; rfl)]
        omega
    · rw [Int.sign_eq_one_of_pos (by omega), Int.sign_eq_one_of_pos]
      rcases lt_or_ge (m.count x) 1 with hneg | hpos
      · have hzero : m.count x = 0 := by omega
        rw [value_of_count_nonneg hzero.ge, magnitude_eq_zero (by rw [hzero]; rfl)]
        omega
      · have := hx.magnitude_pos (by omega)
        rw [value_of_count_nonneg (by omega)]
        omega

/-! ## The loop of `cmpabs` -/

end IntegerXMemory

/-- The lowest limbs in which two numbers differ are in the order of the numbers. -/
def LowestDecides (u v : ℕ) : Prop :=
  ∀ k, u % (2 ^ 32) ^ k = v % (2 ^ 32) ^ k → u % (2 ^ 32) ^ (k + 1) ≠ v % (2 ^ 32) ^ (k + 1) →
    (u % (2 ^ 32) ^ (k + 1) < v % (2 ^ 32) ^ (k + 1) ↔ u < v)

namespace IntegerXMemory

variable {m : IntegerXMemory} {x y : ℕ}

/-- **The loop of `cmpabs`**: the lowest limbs that differ decide.

**Proof sketch.** Induction on the number of limbs. A limb that differs replaces what was found
above it. -/
lemma cmpabsLoop_eq {u v : ℕ} {h : LimbHeap} (n : ℕ) (result : ℤ) (hu : n ≤ (h u).length)
    (hv : n ≤ (h v).length) :
    ∃ z, cmpabsLoop u v h n result = some z ∧
      (h.number u 0 n = h.number v 0 n → z = result) ∧
      ∀ k < n, h.number u 0 k = h.number v 0 k → h.number u 0 (k + 1) ≠ h.number v 0 (k + 1) →
        z = SpecialComparison.order (h.number u 0 (k + 1)) (h.number v 0 (k + 1)) := by
  induction n generalizing result with
  | zero => exact ⟨result, rfl, fun _ => rfl, fun k hk => absurd hk (Nat.not_lt_zero k)⟩
  | succ n ih =>
    obtain ⟨d, hd, hnum⟩ := h.exists_last (a := u) (i := 0) (n := n) (by omega)
    obtain ⟨e, he, hnum'⟩ := h.exists_last (a := v) (i := 0) (n := n) (by omega)
    rw [Nat.zero_add] at hd he
    obtain ⟨z, hz, hsame, hdiffer⟩ := ih (if d ≠ e then if e < d then 1 else -1 else result)
      (by omega) (by omega)
    have hpos : 0 < (2 ^ 32) ^ n := by positivity
    refine ⟨z, by rw [cmpabsLoop, hd, he]; exact hz, fun heq => ?_, fun k hk hlow hne => ?_⟩
    · have hlt := h.number_lt (a := u) (i := 0) (n := n) (by omega)
      have hlt' := h.number_lt (a := v) (i := 0) (n := n) (by omega)
      have hlow : h.number u 0 n = h.number v 0 n := by
        have hmod := congrArg (· % (2 ^ 32) ^ n) heq
        simpa only [hnum, hnum', Nat.add_mul_mod_self_left, Nat.mod_eq_of_lt hlt,
          Nat.mod_eq_of_lt hlt'] using hmod
      have hde : d = e := by
        rw [hnum, hnum', hlow, Nat.add_left_cancel_iff] at heq
        exact BitVec.eq_of_toNat_eq (Nat.eq_of_mul_eq_mul_left hpos heq)
      rw [hsame hlow, if_neg (not_not.mpr hde)]
    · rcases Nat.lt_succ_iff_lt_or_eq.mp hk with hkn | rfl
      · exact hdiffer k hkn hlow hne
      · have hde : d ≠ e := fun he => hne (by rw [hnum, hnum', hlow, he])
        have hgt : e < d ↔ e.toNat < d.toNat := Iff.rfl
        have hne' : d.toNat ≠ e.toNat := fun he => hde (BitVec.eq_of_toNat_eq he)
        rw [hsame hlow, if_pos hde, hnum, hnum', hlow, SpecialComparison.order]
        simp only [hgt, Nat.add_lt_add_iff_left, Nat.mul_lt_mul_left hpos]
        split
        · rw [if_neg (by omega)]
        · rw [if_pos (by omega)]

/-- Numbers that differ have lowest limbs in which they do. -/
lemma exists_lowest {u v : ℕ} (n : ℕ) (h : u % (2 ^ 32) ^ n ≠ v % (2 ^ 32) ^ n) :
    ∃ k < n, u % (2 ^ 32) ^ k = v % (2 ^ 32) ^ k ∧
      u % (2 ^ 32) ^ (k + 1) ≠ v % (2 ^ 32) ^ (k + 1) := by
  induction n with
  | zero => exact absurd (by rw [pow_zero, Nat.mod_one, Nat.mod_one]) h
  | succ n ih =>
    by_cases hn : u % (2 ^ 32) ^ n = v % (2 ^ 32) ^ n
    · exact ⟨n, Nat.lt_succ_self n, hn, h⟩
    · obtain ⟨k, hk, hrest⟩ := ih hn
      exact ⟨k, Nat.lt_succ_of_lt hk, hrest⟩

/-- Two differences that are not zero have the same sign if the numbers are in the same order. -/
lemma sign_sub_eq_iff {a b u v : ℕ} (hab : a ≠ b) (huv : u ≠ v) :
    ((a : ℤ) - b).sign = ((u : ℤ) - v).sign ↔ (a < b ↔ u < v) := by
  rcases lt_or_gt_of_ne hab with h | h <;> rcases lt_or_gt_of_ne huv with h' | h'
  · rw [Int.sign_eq_neg_one_of_neg (by omega), Int.sign_eq_neg_one_of_neg (by omega)]
    exact iff_of_true rfl (iff_of_true h h')
  · rw [Int.sign_eq_neg_one_of_neg (by omega), Int.sign_eq_one_of_pos (by omega)]
    exact iff_of_false (by decide) fun hiff => absurd (hiff.mp h) (by omega)
  · rw [Int.sign_eq_one_of_pos (by omega), Int.sign_eq_neg_one_of_neg (by omega)]
    exact iff_of_false (by decide) fun hiff => absurd (hiff.mpr h') (by omega)
  · rw [Int.sign_eq_one_of_pos (by omega), Int.sign_eq_one_of_pos (by omega)]
    exact iff_of_true rfl (iff_of_false (by omega) (by omega))

/-- **`cmpabs`** has the sign of the difference if and only if the counts of limbs differ or the
lowest limbs that differ are in the order of the numbers. -/
lemma cmpabs_sign_iff (hx : m.Normalised x) (hy : m.Normalised y) :
    (m.cmpabs x y).map Int.sign = some (|m.value x| - |m.value y|).sign ↔
      (m.count x).natAbs ≠ (m.count y).natAbs ∨
        LowestDecides (m.value x).natAbs (m.value y).natAbs := by
  rw [Int.abs_eq_natAbs, Int.abs_eq_natAbs, natAbs_value, natAbs_value]
  by_cases hcount : (m.count x).natAbs = (m.count y).natAbs
  · set n := (m.count x).natAbs with hn
    have hcap : n ≤ (m.arrays (m.item x)).length := hx.count_le
    have hcap' : n ≤ (m.arrays (m.item y)).length := by
      rw [hcount]
      exact hy.count_le
    have hmag : m.arrays.number (m.item x) 0 n = m.magnitude x := rfl
    have hmag' : m.arrays.number (m.item y) 0 n = m.magnitude y := by rw [hcount, magnitude]
    have hlt : m.magnitude x < (2 ^ 32) ^ n := m.arrays.number_lt (by omega)
    have hlt' : m.magnitude y < (2 ^ 32) ^ n := by
      rw [← hmag']
      exact m.arrays.number_lt (by omega)
    -- the numbers of the low limbs are the remainders
    have hlow (k : ℕ) (hk : k ≤ n) : m.arrays.number (m.item x) 0 k = m.magnitude x % (2 ^ 32) ^ k ∧
        m.arrays.number (m.item y) 0 k = m.magnitude y % (2 ^ 32) ^ k := by
      obtain ⟨e, he⟩ := Nat.exists_eq_add_of_le hk
      exact ⟨number_low _ (n := e) (by omega) (by rw [← he, hmag]),
        number_low _ (n := e) (by omega) (by rw [← he, hmag'])⟩
    obtain ⟨z, hz, hsame, hdiffer⟩ := cmpabsLoop_eq (u := m.item x) (v := m.item y) (h := m.arrays)
      n 0 hcap hcap'
    have hrun : m.cmpabs x y = some z := by
      simp only [cmpabs, ← hn, ← hcount, sub_self, ne_eq, not_true_eq_false, if_false, hz]
    have hz' (k : ℕ) (hk : k < n)
        (heq : m.magnitude x % (2 ^ 32) ^ k = m.magnitude y % (2 ^ 32) ^ k)
        (hne : m.magnitude x % (2 ^ 32) ^ (k + 1) ≠ m.magnitude y % (2 ^ 32) ^ (k + 1)) :
        z = SpecialComparison.order (m.magnitude x % (2 ^ 32) ^ (k + 1))
          (m.magnitude y % (2 ^ 32) ^ (k + 1)) := by
      rw [← (hlow (k + 1) hk).1, ← (hlow (k + 1) hk).2]
      refine hdiffer k hk ?_ ?_
      · rwa [(hlow k hk.le).1, (hlow k hk.le).2]
      · rwa [(hlow (k + 1) hk).1, (hlow (k + 1) hk).2]
    rw [hrun, Option.map_some, Option.some_inj]
    by_cases heq : m.magnitude x = m.magnitude y
    · rw [hsame (by rw [hmag, hmag', heq]), heq, sub_self]
      exact iff_of_true rfl (Or.inr fun k _ hne => absurd rfl hne)
    · constructor
      · refine fun hsign => Or.inr fun k hk hne => ?_
        have hkn : k < n := by
          by_contra hge
          have hpow : (2 ^ 32) ^ n ≤ (2 ^ 32) ^ k := Nat.pow_le_pow_right (by decide) (by omega)
          rw [Nat.mod_eq_of_lt (by omega), Nat.mod_eq_of_lt (by omega)] at hk
          exact heq hk
        rw [hz' k hkn hk hne, SpecialComparison.sign_order] at hsign
        exact (sign_sub_eq_iff hne heq).mp hsign
      · rintro (hne | hdecides)
        · exact absurd hcount hne
        · obtain ⟨k, hkn, hk, hne⟩ := exists_lowest (u := m.magnitude x) (v := m.magnitude y) n
            (by rwa [Nat.mod_eq_of_lt hlt, Nat.mod_eq_of_lt hlt'])
          rw [hz' k hkn hk hne, SpecialComparison.sign_order]
          exact (sign_sub_eq_iff hne heq).mpr (hdecides k hk hne)
  · have hne : ((m.count x).natAbs : ℤ) - (m.count y).natAbs ≠ 0 := by omega
    simp only [cmpabs, if_pos hne, Option.map_some, Option.some_inj]
    refine iff_of_true ?_ (Or.inl hcount)
    rcases lt_or_gt_of_ne hcount with hlt | hgt
    · have := magnitude_lt_of_count hx hy hlt
      rw [Int.sign_eq_neg_one_of_neg (by omega), Int.sign_eq_neg_one_of_neg (by omega)]
    · have := magnitude_lt_of_count hy hx hgt
      rw [Int.sign_eq_one_of_pos (by omega), Int.sign_eq_one_of_pos (by omega)]

/-- **Comparisons.** For normalised objects `x` and `y`, an `INTEGER_32` `i` and a `NATURAL_32` `u`,
the results of `compare`, `cmp_si`, `cmp_ui` and `cmpabs_ui` have the signs of the differences. The
result of `cmpabs` has the sign of the difference of the absolute values if and only if they have
different numbers of limbs or the lowest limbs in which they differ are in the order of the
numbers. -/
theorem comparisons_sign (m : IntegerXMemory) (x y : ℕ) (hx : m.Normalised x)
    (hy : m.Normalised y) (i : BitVec 32) (u : Natural32) :
    ((m.compare x y).map Int.sign = some (m.value x - m.value y).sign ∧
      (m.cmpSi x i).map Int.sign = some (m.value x - i.toInt).sign ∧
      (m.cmpUi x u).map Int.sign = some (m.value x - u.toNat).sign ∧
      (m.cmpabsUi x u).map Int.sign = some (|m.value x| - u.toNat).sign) ∧
    ((m.cmpabs x y).map Int.sign = some (|m.value x| - |m.value y|).sign ↔
      (m.count x).natAbs ≠ (m.count y).natAbs ∨
        LowestDecides (m.value x).natAbs (m.value y).natAbs) :=
  ⟨⟨compare_sign hx hy, cmpSi_sign hx i, cmpUi_sign hx u, cmpabsUi_sign hx u⟩,
    cmpabs_sign_iff hx hy⟩

/-- The objects `2 ^ 33 + 1` and `- (2 ^ 32 + 2)`, the least `INTEGER_32` and the greatest
`NATURAL_32`. -/
theorem comparisons_sign_pair :
    (((pair [1, 2] [2, 1] 2 (-2)).compare 0 1).map Int.sign =
        some ((pair [1, 2] [2, 1] 2 (-2)).value 0 - (pair [1, 2] [2, 1] 2 (-2)).value 1).sign ∧
      ((pair [1, 2] [2, 1] 2 (-2)).cmpSi 0 0x80000000).map Int.sign =
        some ((pair [1, 2] [2, 1] 2 (-2)).value 0 - (0x80000000 : BitVec 32).toInt).sign ∧
      ((pair [1, 2] [2, 1] 2 (-2)).cmpUi 0 0xffffffff).map Int.sign =
        some ((pair [1, 2] [2, 1] 2 (-2)).value 0 - (0xffffffff : Natural32).toNat).sign ∧
      ((pair [1, 2] [2, 1] 2 (-2)).cmpabsUi 0 0xffffffff).map Int.sign =
        some (|(pair [1, 2] [2, 1] 2 (-2)).value 0| - (0xffffffff : Natural32).toNat).sign) ∧
    (((pair [1, 2] [2, 1] 2 (-2)).cmpabs 0 1).map Int.sign =
        some (|(pair [1, 2] [2, 1] 2 (-2)).value 0| - |(pair [1, 2] [2, 1] 2 (-2)).value 1|).sign ↔
      ((pair [1, 2] [2, 1] 2 (-2)).count 0).natAbs ≠ ((pair [1, 2] [2, 1] 2 (-2)).count 1).natAbs ∨
        LowestDecides ((pair [1, 2] [2, 1] 2 (-2)).value 0).natAbs
          ((pair [1, 2] [2, 1] 2 (-2)).value 1).natAbs) :=
  comparisons_sign (pair [1, 2] [2, 1] 2 (-2)) 0 1 ⟨by decide, by decide⟩ ⟨by decide, by decide⟩
    0x80000000 0xffffffff

/-- `2 ^ 33 + 1` is greater than `2 ^ 32 + 2`, but `cmpabs` returns a negative number: the lowest
limbs are 1 and 2. -/
theorem not_cmpabs_sign :
    (pair [1, 2] [2, 1] 2 2).Normalised 0 ∧ (pair [1, 2] [2, 1] 2 2).Normalised 1 ∧
      ((pair [1, 2] [2, 1] 2 2).cmpabs 0 1).map Int.sign = some (-1) ∧
      (|(pair [1, 2] [2, 1] 2 2).value 0| - |(pair [1, 2] [2, 1] 2 2).value 1|).sign = 1 :=
  ⟨⟨by decide, by decide⟩, ⟨by decide, by decide⟩, by decide, by decide⟩

end IntegerXMemory

end EiffelWeb
