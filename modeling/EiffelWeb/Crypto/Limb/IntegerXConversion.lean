import EiffelWeb.Crypto.Limb.IntegerXComparison
import EiffelWeb.Crypto.Limb.IntegerXDivision

set_option relaxedAutoImplicit false
set_option autoImplicit false

/-!
# Objects from numbers of 64 bits and from other objects

The creation procedures `make_from_integer_64`, `make_from_natural_64` and `make_set` of
`READABLE_INTEGER_X`, and the conversions back. `as_integer_64` reads the second limb only if the
count is greater than one, so that the one of a negative number is lost. `make_set` copies a signed
number of limbs, and copying a negative number of limbs fails.

## Main definitions

* `IntegerXMemory.makeFromInteger64`, `IntegerXMemory.makeFromNatural64`, `IntegerXMemory.makeSet`
* `IntegerXMemory.asInteger64`, `IntegerXMemory.asNatural64`
* `IntegerXMemory.fitsInteger64`, `IntegerXMemory.toInteger64`

## Main results

* `IntegerXMemory.created_makeFromInteger64`, `IntegerXMemory.created_makeFromNatural64`
* `IntegerXMemory.asInteger64_iff` — when a number comes back.
* `IntegerXMemory.fitsInteger64_iff`
* `IntegerXMemory.conversions` — creation and conversion.
-/

namespace EiffelWeb

open Limbs Arrays

namespace IntegerXMemory

/-- The common part of `set_from_integer_64` and `set_from_natural_64`: two limbs, and a count that
depends on the upper one. -/
def setTwoLimbs (x : ℕ) (v : Natural64) (newCount : Natural32 → ℤ) (m : IntegerXMemory) :
    Option IntegerXMemory := do
  let m := m.resize x 2
  let h ← m.arrays.put (m.item x) 0 (v.setWidth 32)
  let upperLimb : Natural32 := (v >>> 32).setWidth 32
  let h ← h.put (m.item x) 1 upperLimb
  return { m with arrays := h, count := Function.update m.count x (newCount upperLimb) }

/-- `set_from_integer_64 (value)`. The absolute value wraps around. -/
def setFromInteger64 (x : ℕ) (value : BitVec 64) (m : IntegerXMemory) : Option IntegerXMemory :=
  m.setTwoLimbs x (if value.toInt < 0 then -value else value) fun upperLimb =>
    value.toInt.sign * ((if upperLimb ≠ 0 then 1 else 0) + 1)

/-- `set_from_natural_64 (value)`. -/
def setFromNatural64 (x : ℕ) (value : Natural64) (m : IntegerXMemory) : Option IntegerXMemory :=
  m.setTwoLimbs x value fun upperLimb =>
    (if 0 < value then 1 else 0) + (if upperLimb ≠ 0 then 1 else 0)

/-- `create x.make_from_integer_64 (i)`. The result is the new object. -/
def makeFromInteger64 (i : BitVec 64) (m : IntegerXMemory) : Option IntegerXMemory :=
  (m.newObject [0] 0).setFromInteger64 m.objects i

/-- `create x.make_from_natural_64 (n)`. The result is the new object. -/
def makeFromNatural64 (n : Natural64) (m : IntegerXMemory) : Option IntegerXMemory :=
  (m.newObject [0] 0).setFromNatural64 m.objects n

/-- `create x.make_set (other)`. The result is the new object. -/
def makeSet (other : ℕ) (m : IntegerXMemory) : Option IntegerXMemory :=
  (m.newObject [] 0).setFromOther m.objects other

/-- A limb as the upper half of a `NATURAL_64`. -/
def upperWord (limb : Natural32) : Natural64 := limb.setWidth 64 <<< 32

/-- `as_integer_64`. -/
def asInteger64 (x : ℕ) (m : IntegerXMemory) : Option (BitVec 64) := do
  let size := m.count x
  let high : Natural64 ←
    if 1 < size then (m.arrays.item (m.item x) 1).map upperWord else some 0
  let low ← m.arrays.item (m.item x) 0
  let unsignedResult := high ||| low.setWidth 64
  return if 0 < size then unsignedResult &&& 0x7fffffffffffffff
    else if size < 0 then ~~~((unsignedResult - 1) &&& 0x7fffffffffffffff)
    else 0

/-- `as_natural_64`. -/
def asNatural64 (x : ℕ) (m : IntegerXMemory) : Option Natural64 :=
  if m.count x = 0 then some 0
  else if m.count x = 1 then (m.arrays.item (m.item x) 0).map fun d => d.setWidth 64
  else do
    let high ← m.arrays.item (m.item x) 1
    let low ← m.arrays.item (m.item x) 0
    return upperWord high ||| low.setWidth 64

/-- `fits_integer_64`. -/
def fitsInteger64 (x : ℕ) (m : IntegerXMemory) : Option Bool :=
  let n := m.count x
  (m.arrays.item (m.item x) 0).bind fun limb1 =>
    if n = 0 ∨ n = 1 ∨ n = -1 then some true
    else if n = 2 then (m.arrays.item (m.item x) 1).map fun limb2 => !limb2.getLsbD 31
    else if n = -2 then
      (m.arrays.item (m.item x) 1).map fun limb2 =>
        if limb2.getLsbD 31 then decide (limb2 &&& 0x7fffffff = 0) && decide (limb1 = 0) else true
    else some false

/-- `to_integer_64`. -/
def toInteger64 (x : ℕ) (m : IntegerXMemory) : Option (BitVec 64) := m.asInteger64 x

variable {m : IntegerXMemory} {x : ℕ}

/-! ## Creation -/

/-- The number of limbs of a `NATURAL_64`. -/
def limbs64 (v : Natural64) : ℕ := if v = 0 then 0 else if v.toNat < 2 ^ 32 then 1 else 2

lemma upperLimb_eq_zero_iff (v : Natural64) :
    (v >>> 32).setWidth 32 = (0 : Natural32) ↔ v.toNat < 2 ^ 32 := by
  have hlt := v.isLt
  rw [← BitVec.toNat_inj, BitVec.toNat_setWidth, BitVec.toNat_ushiftRight,
    Nat.shiftRight_eq_div_pow]
  show v.toNat / 2 ^ 32 % 2 ^ 32 = 0 ↔ _
  omega

/-- **The outcome of writing two limbs** with a count that fits the number. -/
lemma setTwoLimbs_outcome (hm : m.WellFormed) (hx : x < m.objects) (v : Natural64)
    (newCount : Natural32 → ℤ)
    (hcount : (newCount ((v >>> 32).setWidth 32)).natAbs = limbs64 v) :
    ∃ m', m.setTwoLimbs x v newCount = some m' ∧
      m.Outcome m' x ((newCount ((v >>> 32).setWidth 32)).sign * (v.toNat : ℤ)) ∧
      2 ≤ m'.capacity x := by
  obtain ⟨hext, hroom⟩ := extends_resize hm hx 2
  set r := m.resize x 2 with hr
  rw [capacity] at hroom
  obtain ⟨g, hput, hlow, hfoot⟩ := LimbHeap.run_put (h := r.arrays) (a := r.item x) (i := 0)
    (by omega) (v.setWidth 32)
  obtain ⟨h', hput', hhigh, hfoot'⟩ := LimbHeap.run_put (h := g) (a := r.item x) (i := 1)
    (by rw [hfoot.length]; omega) ((v >>> 32).setWidth 32)
  have hfoot₂ : SameOutside (region (r.item x) 0 2) r.arrays h' :=
    hfoot.join hfoot' (by omega) (by omega)
  have hlt := v.isLt
  have hlow' : h'.number (r.item x) 0 1 = v.toNat % 2 ^ 32 := by
    rw [LimbHeap.number_apart hfoot' (Apart.of_le (by omega)).symm, hlow, BitVec.toNat_setWidth]
  have hhigh' : h'.number (r.item x) 1 1 = v.toNat / 2 ^ 32 := by
    rw [hhigh, BitVec.toNat_setWidth, BitVec.toNat_ushiftRight, Nat.shiftRight_eq_div_pow,
      Nat.mod_eq_of_lt (by omega)]
  set c := newCount ((v >>> 32).setWidth 32) with hc
  have hnum : h'.number (r.item x) 0 c.natAbs = v.toNat ∧
      (c ≠ 0 → (2 ^ 32) ^ (c.natAbs - 1) ≤ v.toNat) := by
    rw [hcount, limbs64]
    split
    case isTrue h0 =>
      rw [h0, LimbHeap.number_zero]
      refine ⟨rfl, fun hne => ?_⟩
      rw [limbs64, if_pos h0] at hcount
      omega
    case isFalse h0 =>
      have hpos : 0 < v.toNat := Nat.pos_of_ne_zero fun he => h0 (BitVec.eq_of_toNat_eq he)
      split
      case isTrue h1 => exact ⟨by rw [hlow']; omega, fun _ => hpos⟩
      case isFalse h1 =>
        refine ⟨?_, fun _ => by show (2 ^ 32) ^ 1 ≤ _; omega⟩
        rw [h'.number_add (m := 1) (n := 1) (by rw [hfoot₂.length]; omega), hlow', hhigh']
        omega
  have hle : c.natAbs ≤ 2 := by
    rw [hcount, limbs64]
    split
    · omega
    · split <;> omega
  have hout := (hext.keepsOthers x).outcome (c := c) hx (hfoot₂.keptBelow r.free)
    (hle.trans hroom) hnum.1 hnum.2
  refine ⟨_, ?_, hout, ?_⟩
  · simp only [setTwoLimbs, ← hr, hput, hput', Option.bind_eq_bind, Option.bind_some]
    rfl
  · show 2 ≤ (h' (r.item x)).length
    rw [hfoot₂.length]
    exact hroom

/-- The absolute value that `set_from_integer_64` makes, also of the least number. -/
lemma toNat_abs (i : BitVec 64) : (if i.toInt < 0 then -i else i).toNat = i.toInt.natAbs := by
  have hlt := i.isLt
  split
  case isTrue h =>
    rw [BitVec.toNat_neg]
    rw [BitVec.toInt] at h ⊢
    split at h <;> omega
  case isFalse h =>
    rw [BitVec.toInt] at h ⊢
    split at h <;> omega

/-- **`make_from_integer_64`** creates the number. -/
lemma created_makeFromInteger64 (hm : m.WellFormed) (i : BitVec 64) :
    ∃ m', m.makeFromInteger64 i = some m' ∧ m.Created m' i.toInt ∧ 2 ≤ m'.capacity m.objects := by
  have hnew := created_zero hm [0]
  have habs := toNat_abs i
  set v := if i.toInt < 0 then -i else i with hv
  set upper : Natural32 := (v >>> 32).setWidth 32 with hupper
  have hzero : v = 0 ↔ i.toInt = 0 := by
    rw [← BitVec.toNat_inj, habs]
    exact Int.natAbs_eq_zero
  have hcount : (i.toInt.sign * ((if upper ≠ 0 then 1 else 0) + 1)).natAbs = limbs64 v := by
    rw [Int.natAbs_mul, limbs64]
    simp only [hzero, ne_eq, hupper, upperLimb_eq_zero_iff]
    by_cases h0 : i.toInt = 0
    · rw [if_pos h0, h0, Int.sign_zero, Int.natAbs_zero, Nat.zero_mul]
    · rw [if_neg h0, Int.natAbs_sign_of_ne_zero h0, Nat.one_mul]
      by_cases h1 : v.toNat < 2 ^ 32
      · rw [if_neg (not_not.mpr h1), if_pos h1]
        rfl
      · rw [if_pos h1, if_neg h1]
        rfl
  obtain ⟨m', hrun, hout, hcap⟩ := setTwoLimbs_outcome hnew.wellFormed
    (show m.objects < (m.newObject [0] 0).objects from Nat.lt_succ_self _) v
    (fun upper => i.toInt.sign * ((if upper ≠ 0 then 1 else 0) + 1)) hcount
  have hsign : (i.toInt.sign * ((if upper ≠ 0 then 1 else 0) + 1)).sign * (v.toNat : ℤ) =
      i.toInt := by
    have hpos : (0 : ℤ) < (if upper ≠ 0 then 1 else 0) + 1 := by split <;> omega
    rw [Int.sign_mul, Int.sign_sign, Int.sign_eq_one_of_pos hpos, mul_one, habs,
      Int.sign_mul_natAbs]
  have hout' : (m.newObject [0] 0).Outcome m' m.objects i.toInt := hsign ▸ hout
  exact ⟨m', hrun, hnew.outcome hout', hcap⟩

/-- **`make_from_natural_64`** creates the number. -/
lemma created_makeFromNatural64 (hm : m.WellFormed) (u : Natural64) :
    ∃ m', m.makeFromNatural64 u = some m' ∧ m.Created m' u.toNat ∧ 2 ≤ m'.capacity m.objects := by
  have hnew := created_zero hm [0]
  set upper : Natural32 := (u >>> 32).setWidth 32 with hupper
  have hzero : u = 0 ↔ u.toNat = 0 := by rw [← BitVec.toNat_inj]; rfl
  have hgt : 0 < u ↔ 0 < u.toNat := Iff.rfl
  have hcount : ((if 0 < u then (1 : ℤ) else 0) + (if upper ≠ 0 then 1 else 0)).natAbs =
        limbs64 u ∧
      0 ≤ (if 0 < u then (1 : ℤ) else 0) + (if upper ≠ 0 then 1 else 0) := by
    rw [limbs64]
    simp only [hzero, hgt, ne_eq, hupper, upperLimb_eq_zero_iff]
    by_cases h0 : u.toNat = 0
    · rw [if_pos h0, if_neg (by omega), if_neg (by omega)]
      exact ⟨rfl, le_rfl⟩
    · rw [if_neg h0, if_pos (by omega)]
      by_cases h1 : u.toNat < 2 ^ 32
      · rw [if_neg (not_not.mpr h1), if_pos h1]
        exact ⟨rfl, by decide⟩
      · rw [if_pos h1, if_neg h1]
        exact ⟨rfl, by decide⟩
  obtain ⟨m', hrun, hout, hcap⟩ := setTwoLimbs_outcome hnew.wellFormed
    (show m.objects < (m.newObject [0] 0).objects from Nat.lt_succ_self _) u
    (fun upper => (if 0 < u then 1 else 0) + (if upper ≠ 0 then 1 else 0)) hcount.1
  have hsign : ((if 0 < u then (1 : ℤ) else 0) + (if upper ≠ 0 then 1 else 0)).sign *
      (u.toNat : ℤ) = u.toNat := by
    rcases hcount.2.eq_or_lt with h0 | hpos
    · have hnone : limbs64 u = 0 := by rw [← hcount.1, ← h0]; rfl
      have hu : u.toNat = 0 := by
        rw [limbs64] at hnone
        split at hnone
        · next h => exact hzero.mp h
        · split at hnone <;> omega
      rw [hu, Nat.cast_zero, mul_zero]
    · rw [Int.sign_eq_one_of_pos hpos, one_mul]
  have hout' : (m.newObject [0] 0).Outcome m' m.objects u.toNat := hsign ▸ hout
  exact ⟨m', hrun, hnew.outcome hout', hcap⟩

/-- **`make_set`** creates the number of the other object if and only if it is not negative;
otherwise it fails. -/
lemma makeSet_eq (hm : m.WellFormed) (hx : x < m.objects) (hn : m.Normalised x) :
    (0 ≤ m.value x → ∃ m', m.makeSet x = some m' ∧ m.Created m' (m.value x)) ∧
      (m.value x < 0 → m.makeSet x = none) := by
  obtain ⟨hitem, hcount, harray⟩ := newObject_old hm [] 0 hx
  have hnew := created_zero hm []
  set r := m.newObject [] 0 with hr
  have hobj : m.objects < r.objects := Nat.lt_succ_self _
  have hx' : x < r.objects := hx.trans hobj
  refine ⟨fun hnonneg => ?_, fun hneg => ?_⟩
  · have hcount0 : 0 ≤ m.count x := by
      by_contra h
      exact absurd (hn.value_neg_iff.mpr (not_le.mp h)) (not_lt.mpr hnonneg)
    obtain ⟨n, hnat⟩ := Int.eq_ofNat_of_zero_le hcount0
    obtain ⟨hn', hvalue⟩ := hnew.others x hx hn
    have hcount' : r.count x = n := hcount.trans hnat
    obtain ⟨hext, hroom⟩ := extends_resize hnew.wellFormed hobj n
    have hle := hn'.count_le
    have hmag := hext.number hx' hle
    have hcap := hle.trans (hext.capacity x hx')
    have hlow := (normalised_iff.mp hn').2
    rw [hcount', Int.natAbs_natCast] at hmag hcap hlow
    obtain ⟨h', hcopy, hnum, hfoot⟩ := SpecialArithmetic.copyLimbs_run (i := 0) (j := 0)
      (show (n : ℤ) = n from rfl) (show 0 + n ≤ _ by rw [Nat.zero_add]; exact hroom)
      (show 0 + n ≤ _ by rw [Nat.zero_add]; exact hcap)
    have hnum' : h'.number ((r.resize m.objects n).item m.objects) 0 (n : ℤ).natAbs =
        r.magnitude x := by
      rw [Int.natAbs_natCast, hnum, hmag, magnitude, hcount', Int.natAbs_natCast]
    have hout := (hext.keepsOthers m.objects).outcome (c := n) hobj (hfoot.keptBelow _) hroom hnum'
      (fun hne => by rw [Int.natAbs_natCast]; exact hlow hne)
    rw [← hcount', ← IntegerXMemory.value, hvalue] at hout
    refine ⟨_, ?_, hnew.outcome hout⟩
    rw [makeSet, setFromOther, ← hr, hcount', Int.toNat_natCast, hcopy, Option.map_some]
  · have hcount0 : m.count x < 0 := hn.value_neg_iff.mp hneg
    rw [makeSet, setFromOther, ← hr, hcount, SpecialArithmetic.copyLimbs,
      if_neg (not_le.mpr hcount0), Option.map_none]

/-! ## Conversion -/

/-- A normalised object with two limbs. -/
lemma Normalised.two_limbs (hx : m.Normalised x) (h : (m.count x).natAbs = 2) :
    ∃ lo hi : Natural32, m.arrays.item (m.item x) 0 = some lo ∧
      m.arrays.item (m.item x) 1 = some hi ∧ m.magnitude x = lo.toNat + 2 ^ 32 * hi.toNat := by
  have hcap := hx.count_le
  rw [h, capacity] at hcap
  obtain ⟨lo, hlo, hnum⟩ := m.arrays.exists_last (a := m.item x) (i := 0) (n := 0) (by omega)
  obtain ⟨hi, hhi, hnum'⟩ := m.arrays.exists_last (a := m.item x) (i := 0) (n := 1) hcap
  refine ⟨lo, hi, hlo, hhi, ?_⟩
  rw [magnitude, h, hnum', hnum, LimbHeap.number_zero, pow_zero, pow_one, Nat.one_mul,
    Nat.zero_add]

/-- A number below `2 ^ 64` has no more than two limbs. -/
lemma Normalised.count_le_two (hx : m.Normalised x) (h : m.magnitude x < 2 ^ 64) :
    (m.count x).natAbs ≤ 2 := by
  by_contra hgt
  have hlow := (normalised_iff.mp hx).2 (by omega)
  have hpow : (2 ^ 32) ^ 2 ≤ (2 ^ 32) ^ ((m.count x).natAbs - 1) :=
    Nat.pow_le_pow_right (by decide) (by omega)
  omega

/-- Two limbs put together. -/
lemma toNat_upperWord_or (lo hi : Natural32) :
    (upperWord hi ||| lo.setWidth 64).toNat = lo.toNat + 2 ^ 32 * hi.toNat := by
  have hlo := lo.isLt
  have hhi := hi.isLt
  have hupper : (upperWord hi).toNat = 2 ^ 32 * hi.toNat := by
    rw [upperWord, BitVec.toNat_shiftLeft, BitVec.toNat_setWidth, Nat.shiftLeft_eq]
    omega
  rw [BitVec.toNat_or, hupper, BitVec.toNat_setWidth, Nat.mod_eq_of_lt (by omega),
    ← Nat.two_pow_add_eq_or_of_lt hlo, Nat.add_comm]

/-- **`as_natural_64`** gives back a number that fits. -/
lemma asNatural64_eq (hx : m.Normalised x) {u : Natural64} (hu : m.value x = u.toNat) :
    m.asNatural64 x = some u := by
  have hlt := u.isLt
  have hmag : m.magnitude x = u.toNat := by rw [← natAbs_value, hu, Int.natAbs_natCast]
  have hle := hx.count_le_two (by omega)
  have hnonneg : 0 ≤ m.count x := by
    by_contra h
    have := hx.value_neg_iff.mpr (not_le.mp h)
    omega
  by_cases h0 : m.count x = 0
  · rw [magnitude_eq_zero (by rw [h0]; rfl)] at hmag
    rw [asNatural64, if_pos h0, BitVec.eq_of_toNat_eq (y := u) (x := 0) hmag]
  · by_cases h1 : m.count x = 1
    · obtain ⟨d, hd, hmag'⟩ := hx.only_limb (by rw [h1]; rfl)
      rw [asNatural64, if_neg h0, if_pos h1, hd, Option.map_some]
      congr 1
      apply BitVec.eq_of_toNat_eq
      rw [BitVec.toNat_setWidth, ← hmag', hmag, Nat.mod_eq_of_lt hlt]
    · obtain ⟨lo, hi, hlo, hhi, hmag'⟩ := hx.two_limbs (by omega)
      rw [asNatural64, if_neg h0, if_neg h1, hlo, hhi]
      refine congrArg some (BitVec.eq_of_toNat_eq ?_)
      rw [toNat_upperWord_or, ← hmag', hmag]

lemma toNat_and_mask (u : Natural64) : (u &&& 0x7fffffffffffffff).toNat = u.toNat % 2 ^ 63 := by
  rw [BitVec.toNat_and]
  exact Nat.and_two_pow_sub_one_eq_mod _ 63

/-- `as_integer_64` of a number that is not negative. -/
lemma asInteger64_nonneg (hx : m.Normalised x) (hcap : 1 ≤ m.capacity x) (h0 : 0 ≤ m.value x)
    (h : m.value x < 2 ^ 63) : (m.asInteger64 x).map BitVec.toInt = some (m.value x) := by
  have hnonneg : 0 ≤ m.count x := by
    by_contra hneg
    have := hx.value_neg_iff.mpr (not_le.mp hneg)
    omega
  have hval := value_of_count_nonneg hnonneg
  have hle := hx.count_le_two (by omega)
  have hint (u : Natural64) (hu : u.toNat = m.magnitude x) :
      (u &&& 0x7fffffffffffffff).toInt = m.value x := by
    rw [BitVec.toInt, toNat_and_mask, hu, if_pos (by omega)]
    omega
  rw [capacity] at hcap
  obtain ⟨lo, hlo, hnum⟩ := m.arrays.exists_last (a := m.item x) (i := 0) (n := 0) hcap
  rw [Nat.zero_add] at hlo
  by_cases hzero : m.count x = 0
  · have hmag : m.magnitude x = 0 := magnitude_eq_zero (by rw [hzero]; rfl)
    simp only [asInteger64, hzero, hlo, Option.bind_eq_bind, Option.bind_some, Option.pure_def]
    rw [hval, hmag]
    rfl
  · have hpos : 0 < m.count x := lt_of_le_of_ne hnonneg (Ne.symm hzero)
    by_cases hone : m.count x = 1
    · obtain ⟨d, hd, hmag⟩ := hx.only_limb (by rw [hone]; rfl)
      have hu : ((0 : Natural64) ||| d.setWidth 64).toNat = m.magnitude x := by
        have hlt := d.isLt
        rw [BitVec.toNat_or, BitVec.toNat_setWidth, hmag, Nat.mod_eq_of_lt (by omega)]
        exact Nat.zero_or _
      simp only [asInteger64, hone, lt_irrefl, if_false, hd, Option.bind_eq_bind,
        Option.bind_some, Option.pure_def, Option.map_some, Int.zero_lt_one, if_true, hint _ hu]
    · obtain ⟨lo, hi, hlo, hhi, hmag⟩ := hx.two_limbs (by omega)
      have hu := (toNat_upperWord_or lo hi).trans hmag.symm
      have hgt : 1 < m.count x := by omega
      simp only [asInteger64, hgt, if_true, hlo, hhi, Option.bind_eq_bind, Option.bind_some,
        Option.pure_def, Option.map_some, hpos, hint _ hu]

/-- **`as_integer_64` of a negative number**: only the first limb counts. -/
lemma asInteger64_neg (hx : m.Normalised x) (h : m.value x < 0) :
    (m.asInteger64 x).map BitVec.toInt =
      some (if m.magnitude x % 2 ^ 32 = 0 then -2 ^ 63
        else -((m.magnitude x % 2 ^ 32 : ℕ) : ℤ)) := by
  have hneg : m.count x < 0 := hx.value_neg_iff.mp h
  obtain ⟨n, hn⟩ : ∃ n, (m.count x).natAbs = 1 + n := ⟨(m.count x).natAbs - 1, by omega⟩
  have hcap := hx.count_le
  rw [capacity, hn] at hcap
  obtain ⟨d, hd, hnum⟩ := m.arrays.exists_last (a := m.item x) (i := 0) (n := 0) (by omega)
  rw [Nat.zero_add] at hd
  rw [LimbHeap.number_zero, pow_zero, Nat.one_mul, Nat.zero_add, Nat.zero_add] at hnum
  have hlow : m.magnitude x % 2 ^ 32 = d.toNat := by
    have hmod := number_low m.arrays (a := m.item x) (k := 1) (n := n) (by omega)
      (show _ = m.magnitude x by rw [← hn, magnitude])
    rw [← pow_one (2 ^ 32), ← hmod, hnum]
  have hnot1 : ¬ 1 < m.count x := by omega
  have hnot0 : ¬ 0 < m.count x := by omega
  simp only [asInteger64, hnot1, hnot0, hneg, if_false, if_true, hd, Option.bind_eq_bind,
    Option.bind_some, Option.pure_def, Option.map_some, hlow]
  congr 1
  have hlt := d.isLt
  have hu : ((0 : Natural64) ||| d.setWidth 64).toNat = d.toNat := by
    rw [BitVec.toNat_or, BitVec.toNat_setWidth, Nat.mod_eq_of_lt (by omega)]
    exact Nat.zero_or _
  have hone : (1 : Natural64).toNat = 1 := rfl
  rw [BitVec.toInt, BitVec.toNat_not, toNat_and_mask, BitVec.toNat_sub, hu, hone]
  by_cases h0 : d.toNat = 0
  · rw [if_pos h0, h0]
    rfl
  · rw [if_neg h0, if_neg (by omega)]
    omega

/-- **When `as_integer_64` is right**, for a number that an `INTEGER_64` can hold. -/
lemma asInteger64_iff (hx : m.Normalised x) (hcap : 1 ≤ m.capacity x) (hlow : -2 ^ 63 ≤ m.value x)
    (hhigh : m.value x < 2 ^ 63) :
    (m.asInteger64 x).map BitVec.toInt = some (m.value x) ↔
      -2 ^ 32 < m.value x ∨ m.value x = -2 ^ 63 := by
  rcases lt_or_ge (m.value x) 0 with hneg | hnonneg
  · have hval := value_of_count_neg (hx.value_neg_iff.mp hneg)
    rw [asInteger64_neg hx hneg, Option.some_inj]
    split <;> omega
  · rw [asInteger64_nonneg hx hcap hnonneg hhigh]
    exact iff_of_true rfl (Or.inl (by omega))

lemma getLsbD_top (d : Natural32) : d.getLsbD 31 = decide (2 ^ 31 ≤ d.toNat) := by
  have hlt := d.isLt
  rw [BitVec.getLsbD, Nat.testBit_eq_decide_div_mod_eq]
  exact decide_eq_decide.mpr (by omega)

/-- **`fits_integer_64`** finds the numbers that an `INTEGER_64` can hold. It reads the first limb
whatever the number is. -/
lemma fitsInteger64_iff (hx : m.Normalised x) :
    m.fitsInteger64 x = some true ↔
      1 ≤ m.capacity x ∧ -2 ^ 63 ≤ m.value x ∧ m.value x < 2 ^ 63 := by
  rw [fitsInteger64]
  by_cases hcap : 1 ≤ m.capacity x
  · obtain ⟨limb1, hlimb1, -⟩ := m.arrays.exists_last (a := m.item x) (i := 0) (n := 0) hcap
    rw [Nat.zero_add] at hlimb1
    rw [hlimb1, Option.bind_some, and_iff_right hcap]
    have hlt := limb1.isLt
    by_cases hone : m.count x = 0 ∨ m.count x = 1 ∨ m.count x = -1
    · have hmag : m.magnitude x < (2 ^ 32) ^ 1 := by
        have hcap' := hx.count_le
        rw [capacity] at hcap'
        exact Nat.lt_of_lt_of_le (m.arrays.number_lt (by omega))
          (Nat.pow_le_pow_right (by decide) (by omega))
      have habs := natAbs_value m x
      rw [if_pos hone]
      exact iff_of_true rfl (by omega)
    · rw [if_neg hone]
      by_cases htwo : m.count x = 2
      · obtain ⟨lo, hi, -, hhi, hmag⟩ := hx.two_limbs (by rw [htwo]; rfl)
        have hlo := lo.isLt
        rw [if_pos htwo, hhi, Option.map_some, Option.some_inj, getLsbD_top,
          value_of_count_nonneg (by omega), Bool.not_eq_true', decide_eq_false_iff_not]
        omega
      · rw [if_neg htwo]
        by_cases hneg : m.count x = -2
        · obtain ⟨lo, hi, hlo, hhi, hmag⟩ := hx.two_limbs (by rw [hneg]; rfl)
          obtain rfl := Option.some.inj (hlo.symm.trans hlimb1)
          have hhilt := hi.isLt
          have hmask : hi &&& 0x7fffffff = 0 ↔ hi.toNat % 2 ^ 31 = 0 := by
            rw [← BitVec.toNat_inj, BitVec.toNat_and]
            exact (Nat.and_two_pow_sub_one_eq_mod _ 31).congr_left
          have hzero : lo = 0 ↔ lo.toNat = 0 := by rw [← BitVec.toNat_inj]; rfl
          rw [if_pos hneg, hhi, Option.map_some, Option.some_inj, getLsbD_top,
            value_of_count_neg (by omega)]
          by_cases htop : 2 ^ 31 ≤ hi.toNat
          · rw [decide_eq_true htop, if_pos rfl, Bool.and_eq_true, decide_eq_true_iff,
              decide_eq_true_iff, hmask, hzero]
            omega
          · rw [decide_eq_false htop, if_neg Bool.false_ne_true]
            exact iff_of_true rfl (by omega)
        · have hlarge : 2 ^ 64 ≤ (m.value x).natAbs := by
            rw [natAbs_value]
            by_contra hlt
            have := hx.count_le_two (by omega)
            omega
          rw [if_neg hneg, Option.some_inj]
          exact iff_of_false Bool.false_ne_true (by omega)
  · have hnone : m.arrays.item (m.item x) 0 = none := by
      rw [capacity] at hcap
      exact List.getElem?_eq_none (by omega)
    rw [hnone, Option.bind_none]
    exact iff_of_false (by simp) fun h => hcap h.1

/-- **Creation and conversion.** For every normalised object `x`, `INTEGER_64` `i` and `NATURAL_64`
`u`: `make_from_integer_64` and `make_from_natural_64` create normalised objects for `i` and `u`,
and `as_natural_64` gives `u` back. `as_integer_64` gives `i` back if and only if `i` is greater
than `- 2 ^ 32` or the least number. `make_set` creates a copy if and only if `x` is not negative.
If `fits_integer_64` holds, `to_integer_64` is the number of `x` for the same numbers as for `i`. -/
theorem conversions (m : IntegerXMemory) (hm : m.WellFormed) (x : ℕ) (hx : x < m.objects)
    (hn : m.Normalised x) (i : BitVec 64) (u : Natural64) :
    (∃ m', m.makeFromInteger64 i = some m' ∧ m.Created m' i.toInt ∧
      (m'.asInteger64 m.objects = some i ↔ -2 ^ 32 < i.toInt ∨ i.toInt = -2 ^ 63)) ∧
    (∃ m', m.makeFromNatural64 u = some m' ∧ m.Created m' u.toNat ∧
      m'.asNatural64 m.objects = some u) ∧
    ((∃ m', m.makeSet x = some m' ∧ m.Created m' (m.value x)) ↔ 0 ≤ m.value x) ∧
    ((m.fitsInteger64 x = some true → (m.toInteger64 x).map BitVec.toInt = some (m.value x)) ↔
      m.value x < -2 ^ 63 ∨ -2 ^ 32 < m.value x ∨ m.value x = -2 ^ 63) := by
  obtain ⟨m₁, hrun₁, hnew₁, hcap₁⟩ := created_makeFromInteger64 hm i
  obtain ⟨m₂, hrun₂, hnew₂, -⟩ := created_makeFromNatural64 hm u
  obtain ⟨hset, hfail⟩ := makeSet_eq hm hx hn
  refine ⟨⟨m₁, hrun₁, hnew₁, ?_⟩,
    ⟨m₂, hrun₂, hnew₂, asNatural64_eq hnew₂.normalised hnew₂.value⟩, ⟨?_, hset⟩, ?_⟩
  · have hiff := asInteger64_iff hnew₁.normalised (by omega)
      (by rw [hnew₁.value]; exact BitVec.le_toInt i)
      (by rw [hnew₁.value]; exact BitVec.toInt_lt)
    rw [hnew₁.value] at hiff
    rw [← hiff, ← Option.map_some, (Option.map_injective fun _ _ => BitVec.eq_of_toInt_eq).eq_iff]
  · rintro ⟨m', hrun, -⟩
    by_contra hneg
    rw [hfail (not_le.mp hneg)] at hrun
    exact Option.some_ne_none _ hrun.symm
  · rw [fitsInteger64_iff hn, toInteger64]
    constructor
    · intro h
      by_contra hnot
      have hpos := hn.magnitude_pos (fun h0 => hnot (Or.inr (Or.inl (by
        rw [value_of_count_nonneg h0.ge]
        omega))))
      have hcap : 1 ≤ m.capacity x := by
        have hcount := hn.count_le
        have hne : (m.count x).natAbs ≠ 0 := fun h0 => by
          rw [magnitude_eq_zero h0] at hpos
          exact absurd hpos (lt_irrefl 0)
        omega
      have := (asInteger64_iff hn hcap (by omega) (by omega)).mp (h ⟨hcap, by omega, by omega⟩)
      omega
    · rintro hcond ⟨hcap, hlow, hhigh⟩
      exact (asInteger64_iff hn hcap hlow hhigh).mpr (by omega)

/-- The object `5`, and the least `INTEGER_64` and the greatest `NATURAL_64`. -/
theorem conversions_five :
    (∃ m', (single [5] 1).makeFromInteger64 0x8000000000000000 = some m' ∧
      (single [5] 1).Created m' (0x8000000000000000 : BitVec 64).toInt ∧
      (m'.asInteger64 1 = some 0x8000000000000000 ↔
        -2 ^ 32 < (0x8000000000000000 : BitVec 64).toInt ∨
          (0x8000000000000000 : BitVec 64).toInt = -2 ^ 63)) ∧
    (∃ m', (single [5] 1).makeFromNatural64 0xffffffffffffffff = some m' ∧
      (single [5] 1).Created m' (0xffffffffffffffff : Natural64).toNat ∧
      m'.asNatural64 1 = some 0xffffffffffffffff) ∧
    ((∃ m', (single [5] 1).makeSet 0 = some m' ∧
      (single [5] 1).Created m' ((single [5] 1).value 0)) ↔ 0 ≤ (single [5] 1).value 0) ∧
    (((single [5] 1).fitsInteger64 0 = some true →
      ((single [5] 1).toInteger64 0).map BitVec.toInt = some ((single [5] 1).value 0)) ↔
      (single [5] 1).value 0 < -2 ^ 63 ∨ -2 ^ 32 < (single [5] 1).value 0 ∨
        (single [5] 1).value 0 = -2 ^ 63) :=
  conversions (single [5] 1) ⟨by decide, by decide⟩ 0 (by decide) ⟨by decide, by decide⟩
    0x8000000000000000 0xffffffffffffffff

/-- The object `- 2 ^ 32 - 1` fits, but `to_integer_64` is `-1`; `as_integer_64` does not give this
number back, and `make_set` fails. -/
theorem not_conversions :
    (single [1, 1] (-2)).Normalised 0 ∧ (single [1, 1] (-2)).value 0 = -2 ^ 32 - 1 ∧
      (single [1, 1] (-2)).fitsInteger64 0 = some true ∧
      ((single [1, 1] (-2)).toInteger64 0).map BitVec.toInt = some (-1) ∧
      ((single [0] 0).makeFromInteger64 (BitVec.ofInt 64 (-2 ^ 32 - 1))).bind
        (fun m' => (m'.asInteger64 1).map BitVec.toInt) = some (-1) ∧
      (single [1, 1] (-2)).makeSet 0 = none :=
  ⟨⟨by decide, by decide⟩, by decide, by decide, by decide, by decide, rfl⟩

end IntegerXMemory

end EiffelWeb
