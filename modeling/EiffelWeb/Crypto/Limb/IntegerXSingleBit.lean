import EiffelWeb.Crypto.Limb.IntegerXAndOr
import EiffelWeb.Crypto.Limb.LimbBits

set_option relaxedAutoImplicit false
set_option autoImplicit false

/-!
# Setting and clearing a bit

The routines `bit_set` and `bit_clear` of `INTEGER_X_LOGIC`, behind `set_bit_value`. For a negative
number the limbs above the lowest one that is not zero have the bits of the two's complement the
other way, and that limb, less one, has. The routines go wrong in places:

* Both take one away from this limb and do not add it again; `bit_set` takes away another one.
* The loop of `bit_set` for a bit below this limb borrows from the limbs that are not zero, up to
  one that is.

## Main definitions

* `IntegerXMemory.bitClear`, `IntegerXMemory.bitSet`, `IntegerXMemory.setBitValue`
* `IntegerXMemory.LowestLimb` — the index of the lowest limb that is not zero.
* `IntegerXMemory.ClearRight`, `IntegerXMemory.SetRight` — the numbers for which the result is
  right.

## Main results

* `IntegerXMemory.bitClear_outcome`, `IntegerXMemory.bitClear_wrong`
* `IntegerXMemory.bitSet_outcome`, `IntegerXMemory.bitSet_wrong`
-/

namespace EiffelWeb

open Limbs Arrays

namespace IntegerXMemory

/-- The search for the lowest limb that is not zero, from index `i` on. The first argument is the
number of limbs up to the end of the array, where the search fails. -/
def zeroBoundLoop (dp : ℕ) (h : LimbHeap) : ℕ → ℕ → Option ℕ
  | 0, _ => none
  | n + 1, i => (h.item dp i).bind fun x => if x ≠ 0 then some i else zeroBoundLoop dp h n (i + 1)

/-- The index `zero_bound` of the lowest limb that is not zero. -/
def zeroBound (op : ℕ) (m : IntegerXMemory) : Option ℕ :=
  zeroBoundLoop (m.item op) m.arrays (m.capacity op) 0

/-- `|1 << bit_index \\ 32|` as a limb. -/
def bitMask (bitIndex : ℕ) : Natural32 := (1 : Natural32) <<< (bitIndex % 32)

/-! ## Parts that `bit_set` and `bit_clear` share -/

/-- A bit of a limb is set; the count is kept. -/
def orLimb (op limbIndex : ℕ) (mask : Natural32) (m : IntegerXMemory) : Option IntegerXMemory :=
  (m.arrays.item (m.item op) limbIndex).bind fun dlimb =>
    (m.arrays.put (m.item op) limbIndex (dlimb ||| mask)).map fun h => { m with arrays := h }

/-- A bit of a limb is cleared. If it was the highest limb and is zero now, the zero limbs are
dropped. -/
def andLimb (op limbIndex : ℕ) (mask : Natural32) (negative : Bool) (m : IntegerXMemory) :
    Option IntegerXMemory := do
  let dsize := (m.count op).natAbs
  let dlimb ← m.arrays.item (m.item op) limbIndex
  let h ← m.arrays.put (m.item op) limbIndex (dlimb &&& ~~~mask)
  if dlimb &&& ~~~mask = 0 ∧ limbIndex = dsize - 1 then
    let dsize ← SpecialUtility.normalize (m.item op) 0 (dsize - 1) h
    return m.conclude op h dsize negative
  else return { m with arrays := h }

/-- A limb above the number is written, behind zeros. -/
def growLimb (op limbIndex : ℕ) (mask : Natural32) (negative : Bool) (m : IntegerXMemory) :
    Option IntegerXMemory :=
  let dsize := (m.count op).natAbs
  let m := m.resize op (limbIndex + 1)
  let h := m.arrays.store (m.item op) dsize (List.replicate (limbIndex - dsize) 0)
  (h.put (m.item op) limbIndex mask).map fun h => m.conclude op h (limbIndex + 1) negative

/-! ## Clearing a bit -/

/-- The loop of `bit_clear` over the limbs from `i` on: the limb with index one is incremented. -/
def clearCarryLoop (dp : ℕ) : ℕ → ℕ → LimbHeap → Option (ℕ × Bool × LimbHeap)
  | 0, i, h => some (i, false, h)
  | n + 1, i, h => do
    let x ← h.item dp 1
    let h ← h.put dp 1 (x + 1)
    let y ← h.item dp i
    if y = 0 then return (i, true, h) else clearCarryLoop dp n (i + 1) h

/-- `bit_clear` for a bit of the lowest limb that is not zero, of a negative number. -/
def bitClearLowest (op limbIndex : ℕ) (mask : Natural32) (m : IntegerXMemory) :
    Option IntegerXMemory := do
  let dp := m.item op
  let dsize := (m.count op).natAbs
  let x ← m.arrays.item dp limbIndex
  let h ← m.arrays.put dp limbIndex ((x - 1) ||| mask)
  if (x - 1) ||| mask = 0 then
    let (i, done, h) ← clearCarryLoop dp (dsize - (limbIndex + 1)) (limbIndex + 1) h
    if done then return { m with arrays := h }
    else
      -- `dp` is the array before `resize`
      let m := { m with arrays := h }.resize op (dsize + 1)
      let h ← m.arrays.put dp i 1
      return m.conclude op h (dsize + 1) true
  else return { m with arrays := h }

/-- `bit_clear (op, bit_index)`. -/
def bitClear (op bitIndex : ℕ) (m : IntegerXMemory) : Option IntegerXMemory :=
  let limbIndex := bitIndex / 32
  let dsize := (m.count op).natAbs
  if 0 ≤ m.count op then
    if limbIndex < dsize then m.andLimb op limbIndex (bitMask bitIndex) false else some m
  else
    (m.zeroBound op).bind fun zeroBound =>
      if zeroBound < limbIndex then
        if limbIndex < dsize then m.orLimb op limbIndex (bitMask bitIndex)
        else m.growLimb op limbIndex (bitMask bitIndex) true
      else if limbIndex = zeroBound then m.bitClearLowest op limbIndex (bitMask bitIndex)
      else some m

/-! ## Setting a bit -/

/-- The loop of `bit_set` that hands a carry on from the limb `i`. -/
def setCarryLoop (dp : ℕ) : ℕ → ℕ → LimbHeap → Option (ℕ × Bool × LimbHeap)
  | 0, i, h => some (i, false, h)
  | n + 1, i, h => do
    let x ← h.item dp i
    let h ← h.put dp i (x + 1)
    if x + 1 ≠ 0 then return (i, true, h) else setCarryLoop dp n (i + 1) h

/-- `bit_set` for a bit of the lowest limb that is not zero, of a negative number. -/
def bitSetLowest (op limbIndex : ℕ) (mask : Natural32) (m : IntegerXMemory) :
    Option IntegerXMemory := do
  let dsize := (m.count op).natAbs
  let x ← m.arrays.item (m.item op) limbIndex
  let h ← m.arrays.put (m.item op) limbIndex (((x - 1) &&& ~~~mask) - 1)
  if ((x - 1) &&& ~~~mask) - 1 = 0 then
    let (i, done, h) ← setCarryLoop (m.item op) (dsize - (limbIndex + 1)) (limbIndex + 1) h
    if done then return { m with arrays := h }
    else
      let m := { m with arrays := h }.resize op (dsize + 1)
      let h ← m.arrays.put (m.item op) i 1
      return m.conclude op h (dsize + 1) true
  else return { m with arrays := h }

/-- The loop of `bit_set` that takes one away from the limbs from `p` on, up to one that was zero.
The first argument is the number of limbs up to the end of the array, where the loop fails. -/
def borrowLoop (dp : ℕ) : ℕ → ℕ → LimbHeap → Option LimbHeap
  | 0, _, _ => none
  | n + 1, p, h => do
    let lastP ← h.item dp p
    let h ← h.put dp p (lastP - 1)
    if lastP = 0 then return h else borrowLoop dp n (p + 1) h

/-- `bit_set` for a bit below the lowest limb that is not zero, of a negative number. -/
def bitSetBelow (op limbIndex : ℕ) (mask : Natural32) (m : IntegerXMemory) :
    Option IntegerXMemory := do
  let dp := m.item op
  let dsize := (m.count op).natAbs
  let x ← m.arrays.item dp limbIndex
  let h ← m.arrays.put dp limbIndex (x - mask)
  let h ← (if x < mask then borrowLoop dp (m.capacity op - (limbIndex + 1)) (limbIndex + 1) h
    else some h)
  let top ← h.item dp (dsize - 1)
  return m.conclude op h (if top = 0 then dsize - 1 else dsize) true

/-- `bit_set (op, bit_index)`. -/
def bitSet (op bitIndex : ℕ) (m : IntegerXMemory) : Option IntegerXMemory :=
  let limbIndex := bitIndex / 32
  let dsize := (m.count op).natAbs
  if 0 ≤ m.count op then
    if limbIndex < dsize then m.orLimb op limbIndex (bitMask bitIndex)
    else m.growLimb op limbIndex (bitMask bitIndex) false
  else
    (m.zeroBound op).bind fun zeroBound =>
      if zeroBound < limbIndex then
        if limbIndex < dsize then m.andLimb op limbIndex (bitMask bitIndex) true else some m
      else if limbIndex = zeroBound then m.bitSetLowest op limbIndex (bitMask bitIndex)
      else m.bitSetBelow op limbIndex (bitMask bitIndex)

/-- `set_bit_value (value, bit_a)`. The new object has the number of objects before. -/
def setBitValue (value : Bool) (x bitA : ℕ) (m : IntegerXMemory) : Option IntegerXMemory :=
  if value then (m.identity x).bitSet m.objects bitA else (m.identity x).bitClear m.objects bitA

/-! ## The limbs of a number -/

section Limbs

variable {h g : LimbHeap} {a b t n i : ℕ} {d e : Natural32}

/-- One limb more of a number. -/
lemma number_snoc (hd : h.item a t = some d) :
    h.number a 0 (t + 1) = h.number a 0 t + (2 ^ 32) ^ t * d.toNat := by
  obtain ⟨ht, -⟩ := List.getElem?_eq_some_iff.mp hd
  rw [h.number_add (by omega), Nat.zero_add, LimbHeap.number_one hd]

/-- The limb that was written. -/
lemma item_put (hput : h.put a t d = some g) : g.item a t = some d := by
  rw [Arrays.put] at hput
  split at hput
  · next ht =>
    obtain rfl := Option.some.inj hput
    rw [Arrays.item, Function.update_self, List.getElem?_set_self ht]
  · cases hput

/-- Writing a limb keeps the others. -/
lemma sameOutside_put (hput : h.put a t d = some g) : SameOutside (region a t 1) h g := by
  have ht : t < (h a).length := by
    rw [Arrays.put] at hput
    split at hput
    · assumption
    · cases hput
  obtain ⟨g', hput', -, hfoot⟩ := LimbHeap.run_put ht d
  rw [hput, Option.some.injEq] at hput'
  rwa [hput']

/-- A number with a highest limb that is not zero. -/
lemma pow_le_number (hd : h.item a t = some d) (hne : d ≠ 0) :
    (2 ^ 32) ^ t ≤ h.number a 0 (t + 1) := by
  rw [number_snoc hd]
  exact (pow_le_mul_toNat hne t).trans (Nat.le_add_left _ _)

/-- A limb that is not zero below others. -/
lemma number_ne_zero (hd : h.item a t = some d) (hne : d ≠ 0) (ht : t < n)
    (hn : n ≤ (h a).length) : h.number a 0 n ≠ 0 := by
  have hpos : 0 < (2 ^ 32) ^ t := by positivity
  have hlow := number_mod h (a := a) (show t + 1 ≤ n from ht) hn
  have hle := pow_le_number hd hne
  intro h0
  rw [h0, Nat.zero_mod] at hlow
  omega

/-- A limb is written with one bit set or cleared. -/
lemma number_putBit {v : Bool} (hd : h.item a (i / 32) = some d)
    (hput : h.put a (i / 32) (setBit d v (i % 32)) = some g) (hi : i / 32 < n) :
    (g.number a 0 n : ℤ) = TwosComplement.withBit (h.number a 0 n) i v := by
  apply TwosComplement.eq_of_testBit_eq
  intro j
  rw [TwosComplement.testBit_withBit]
  show (g.number a 0 n).testBit j = if j = i then v else (h.number a 0 n).testBit j
  have hj : j % 32 < 32 := Nat.mod_lt j (by decide)
  rw [LimbHeap.testBit_number_put hput hi, getLsbD_setBit _ _ _ hj]
  by_cases hlimb : j / 32 = i / 32
  · have hbit := LimbHeap.getLsbD_item hd hi hj
    rw [← hlimb, Nat.div_add_mod] at hbit
    rw [if_pos hlimb, hbit]
    exact if_congr (by omega) rfl rfl
  · rw [if_neg hlimb, if_neg (by rintro rfl; exact hlimb rfl)]

/-- The number has bits set below the limb with a bit. -/
lemma mod_two_pow_ne_zero {N : ℕ} (hlow : N % (2 ^ 32) ^ (i / 32) ≠ 0) : N % 2 ^ i ≠ 0 := by
  intro h0
  refine hlow (Nat.mod_eq_zero_of_dvd (dvd_trans ?_ (Nat.dvd_of_mod_eq_zero h0)))
  rw [← Nat.pow_mul]
  exact Nat.pow_dvd_pow 2 (Nat.mul_div_le i 32)

/-- **A limb after a bit was changed**: if minus a number becomes one with another bit `i`, a limb
of its two's complement stays as it is or has another bit. -/
lemma negLimb_withBit {v : Bool} {k : ℕ} (hn : n ≤ (h a).length) (hk : k ≤ (g b).length)
    (htn : t < n) (htk : t < k) (hd : h.item a t = some d) (he : g.item b t = some e)
    (heq : -(g.number b 0 k : ℤ) = TwosComplement.withBit (-(h.number a 0 n : ℤ)) i v) :
    negLimb g b t e =
      if t = i / 32 then setBit (negLimb h a t d) v (i % 32) else negLimb h a t d := by
  apply BitVec.eq_of_getLsbD_eq
  intro q hq
  have hbit := TwosComplement.testBit_withBit (-(h.number a 0 n : ℤ)) i v (32 * t + q)
  rw [← heq, testBit_neg_number hk htk he hq, testBit_neg_number hn htn hd hq] at hbit
  rw [hbit]
  by_cases ht : t = i / 32
  · rw [if_pos ht, getLsbD_setBit _ _ _ hq]
    exact if_congr (by omega) rfl rfl
  · rw [if_neg ht, if_neg (by omega)]

lemma sub_one_ne (d : Natural32) : d - 1 ≠ d := by
  intro heq
  have hmod : (d - 1).toNat = (2 ^ 32 - 1 + d.toNat) % 2 ^ 32 := BitVec.toNat_sub d 1
  have hlt := d.isLt
  rw [heq] at hmod
  omega

lemma bitMask_toNat (i : ℕ) : (bitMask i).toNat = 2 ^ (i % 32) := by
  have hlt : i % 32 < 32 := Nat.mod_lt i (by decide)
  have hone : (1 : Natural32) = 1#32 := rfl
  rw [bitMask, hone, BitVec.toNat_shiftLeft, BitVec.toNat_ofNat, Nat.one_mod_eq_one.mpr (by decide),
    Nat.shiftLeft_eq, Nat.one_mul, Nat.mod_eq_of_lt (Nat.pow_lt_pow_right (by decide) hlt)]

/-- The weight of a bit. -/
lemma pow_mul_bitMask (i : ℕ) : (2 ^ 32) ^ (i / 32) * (bitMask i).toNat = 2 ^ i := by
  rw [bitMask_toNat, ← Nat.pow_mul, ← pow_add, Nat.div_add_mod]

lemma bitMask_ne_zero (i : ℕ) : bitMask i ≠ 0 := by
  intro h0
  have hval := bitMask_toNat i
  have hpos : 0 < 2 ^ (i % 32) := by positivity
  rw [h0, SpecialArithmetic.toNat_zero_limb] at hval
  omega

/-- The limb that is left when a bit is taken from a zero limb. -/
lemma zero_sub_bitMask (i : ℕ) :
    (0 - bitMask i).toNat = 2 ^ 32 - (bitMask i).toNat ∧ 0 - bitMask i ≠ 0 := by
  have hsub : (0 - bitMask i).toNat = (2 ^ 32 - (bitMask i).toNat + 0) % 2 ^ 32 :=
    BitVec.toNat_sub 0 (bitMask i)
  have hlt := (bitMask i).isLt
  have hpos : (bitMask i).toNat ≠ 0 := (BitVec.toNat_pos_of_ne_zero (bitMask_ne_zero i)).ne'
  have hval : (0 - bitMask i).toNat = 2 ^ 32 - (bitMask i).toNat := by omega
  refine ⟨hval, fun h0 => ?_⟩
  rw [h0, SpecialArithmetic.toNat_zero_limb] at hval
  omega

end Limbs

/-! ## One limb is written -/

section OneLimb

variable {m : IntegerXMemory} {x i : ℕ}

/-- An absolute value with the sign of an object. -/
def signed (m : IntegerXMemory) (x : ℕ) (v : ℤ) : ℤ := if m.count x < 0 then -v else v

lemma signed_magnitude (m : IntegerXMemory) (x : ℕ) : m.signed x (m.magnitude x) = m.value x := by
  rw [signed]
  split
  · next hneg => rw [value_of_count_neg hneg]
  · next hneg => rw [value_of_count_nonneg (not_lt.mp hneg)]

/-- The outcome of changing nothing. -/
lemma outcome_refl (hm : m.WellFormed) (hnx : m.Normalised x) : m.Outcome m x (m.value x) :=
  ⟨hm, rfl, hnx, rfl, fun _ _ _ hny => ⟨hny, rfl⟩⟩

/-- **A bit of a limb is set.** -/
lemma orLimb_outcome (hm : m.WellFormed) (hx : x < m.objects) (hnx : m.Normalised x)
    (hi : i / 32 < (m.count x).natAbs) :
    ∃ m', m.orLimb x (i / 32) (bitMask i) = some m' ∧
      m.Outcome m' x (m.signed x (TwosComplement.withBit (m.magnitude x) i true)) := by
  have hcap := hnx.count_le
  rw [capacity] at hcap
  obtain ⟨d, hd, -⟩ := LimbHeap.exists_limb (h := m.arrays) (hi.trans_le hcap)
  obtain ⟨g, hput, -, hfoot⟩ := LimbHeap.run_put (h := m.arrays) (hi.trans_le hcap)
    (d ||| bitMask i)
  have hval := number_putBit (v := true) hd hput hi
  have hle := TwosComplement.le_withBit_true (m.magnitude x) i
  rw [magnitude, ← hval] at hle
  have hlow := (normalised_iff.mp hnx).2
  have hkept := hfoot.within (k := 0) (l := i / 32 + 1) (by omega)
  have hout := outcome_of_count ((Extends.refl hm).keepsOthers x) hx (hkept.keptBelow m.free)
    hnx.count_le rfl fun hne => (hlow hne).trans (Int.ofNat_le.mp hle)
  rw [hval] at hout
  refine ⟨{ m with arrays := g }, ?_, hout⟩
  simp only [orLimb, hd, hput, Option.bind_some, Option.map_some]

/-- **A bit of a limb is cleared.** If the highest limb is zero then, the zeros are dropped. -/
lemma andLimb_outcome (hm : m.WellFormed) (hx : x < m.objects) (hnx : m.Normalised x)
    (hi : i / 32 < (m.count x).natAbs) :
    ∃ m', m.andLimb x (i / 32) (bitMask i) (decide (m.count x < 0)) = some m' ∧
      m.Outcome m' x (m.signed x (TwosComplement.withBit (m.magnitude x) i false)) := by
  have hcap := hnx.count_le
  rw [capacity] at hcap
  obtain ⟨d, hd, -⟩ := LimbHeap.exists_limb (h := m.arrays) (hi.trans_le hcap)
  obtain ⟨e, hed⟩ : ∃ e, e = d &&& ~~~ bitMask i := ⟨_, rfl⟩
  obtain ⟨g, hput, -, hfoot⟩ := LimbHeap.run_put (h := m.arrays) (hi.trans_le hcap) e
  have he := item_put hput
  have hval := number_putBit (v := false) hd (hed ▸ hput) hi
  have hkept := (hfoot.within (k := 0) (l := i / 32 + 1) (by omega)).keptBelow m.free
  by_cases htop : e = 0 ∧ i / 32 = (m.count x).natAbs - 1
  · obtain ⟨hzero, hlast⟩ := htop
    have hsame : g.number (m.item x) 0 (m.count x).natAbs =
        g.number (m.item x) 0 ((m.count x).natAbs - 1) := by
      have hsucc : (m.count x).natAbs = i / 32 + 1 := by omega
      rw [hsucc, number_snoc he, hzero, SpecialArithmetic.toNat_zero_limb, Nat.mul_zero,
        Nat.add_zero, Nat.add_sub_cancel]
    obtain ⟨size, hsize, hout⟩ := ((Extends.refl hm).keepsOthers x).outcome_normalize hx hkept
      ((Nat.sub_le _ 1).trans hnx.count_le) rfl (decide (m.count x < 0))
    rw [← hsame, hval] at hout
    refine ⟨m.conclude x g size (decide (m.count x < 0)), ?_, ?_⟩
    · simp only [andLimb, hd, Option.bind_eq_bind, Option.bind_some, ← hed, hput,
        if_pos (And.intro hzero hlast), hsize]
      rfl
    · simpa only [signed, magnitude, decide_eq_true_eq] using hout
  · have hlow (hne : m.count x ≠ 0) :
        (2 ^ 32) ^ ((m.count x).natAbs - 1) ≤ g.number (m.item x) 0 (m.count x).natAbs := by
      have hsucc : (m.count x).natAbs - 1 + 1 = (m.count x).natAbs := by omega
      rw [← hsucc, Nat.add_sub_cancel]
      by_cases hlast : i / 32 = (m.count x).natAbs - 1
      · rw [← hlast]
        exact pow_le_number he fun hzero => htop ⟨hzero, hlast⟩
      · -- the highest limb is kept
        obtain ⟨f, hf, -⟩ := LimbHeap.exists_limb (h := m.arrays) (a := m.item x)
          (i := (m.count x).natAbs - 1) (by omega)
        have hf' : g.item (m.item x) ((m.count x).natAbs - 1) = some f := by
          rw [hfoot.item _ _ (by simp only [region]; omega), hf]
        exact pow_le_number hf' fun hzero => hnx.top hne (by rw [hf, hzero])
    have hout := outcome_of_count ((Extends.refl hm).keepsOthers x) hx hkept hnx.count_le rfl hlow
    rw [hval] at hout
    refine ⟨{ m with arrays := g }, ?_, hout⟩
    simp only [andLimb, hd, Option.bind_eq_bind, Option.bind_some, ← hed, hput, if_neg htop]
    rfl

/-- **A limb above the number is written.** -/
lemma growLimb_outcome (hm : m.WellFormed) (hx : x < m.objects) (hnx : m.Normalised x)
    (hi : (m.count x).natAbs ≤ i / 32) :
    ∃ m', m.growLimb x (i / 32) (bitMask i) (decide (m.count x < 0)) = some m' ∧
      m.Outcome m' x (m.signed x (TwosComplement.withBit (m.magnitude x) i true)) := by
  obtain ⟨hext, hcap⟩ := extends_resize hm hx (i / 32 + 1)
  have hnumx := hext.number hx hnx.count_le
  rw [← magnitude] at hnumx
  have hlt := hnx.magnitude_lt
  set c := (m.count x).natAbs with hc
  set s := m.resize x (i / 32 + 1) with hs
  rw [capacity] at hcap
  obtain ⟨k, hk⟩ := Nat.exists_eq_add_of_le hi
  obtain ⟨hzeros, hfoot⟩ := LimbHeap.run_store (h := s.arrays) (a := s.item x) (i := c) (n := k)
    (by omega) 0
  rw [ofNat_zero_right] at hzeros hfoot
  rw [Nat.zero_mod] at hzeros
  set f := s.arrays.store (s.item x) c (List.replicate k 0) with hf
  have hlen : (f (s.item x)).length = (s.arrays (s.item x)).length := hfoot.length _
  obtain ⟨g, hput, hlimb, hfoot'⟩ := LimbHeap.run_put (h := f) (a := s.item x) (i := i / 32)
    (by omega) (bitMask i)
  have hnum : g.number (s.item x) 0 (i / 32 + 1) = m.magnitude x + 2 ^ i := by
    have hbelow : g.number (s.item x) 0 (i / 32) = m.magnitude x := by
      rw [LimbHeap.number_apart hfoot' (Apart.symm (Apart.of_le (by omega))), hk,
        LimbHeap.number_add _ (by omega), Nat.zero_add, hzeros, Nat.mul_zero, Nat.add_zero,
        LimbHeap.number_apart hfoot (Apart.symm (Apart.of_le (by omega))), hnumx]
    rw [g.number_add (by rw [hfoot'.length]; omega), hbelow, Nat.zero_add, hlimb,
      pow_mul_bitMask]
  have hbound : m.magnitude x < 2 ^ i := by
    refine hlt.trans_le ?_
    rw [← Nat.pow_mul]
    exact Nat.pow_le_pow_right (by decide) (by omega)
  have hbit : (m.magnitude x : ℤ).testBit i ≠ true := by
    show (m.magnitude x).testBit i ≠ true
    rw [Nat.testBit_eq_false_of_lt hbound]
    exact Bool.false_ne_true
  have hval : TwosComplement.withBit (m.magnitude x) i true =
      ((m.magnitude x + 2 ^ i : ℕ) : ℤ) := by
    rw [TwosComplement.withBit, if_neg hbit, TwosComplement.int_xor_two_pow_eq, if_neg hbit]
    push_cast
    rfl
  have hlow : (2 ^ 32) ^ (i / 32) ≤ m.magnitude x + 2 ^ i := by
    refine le_trans ?_ (Nat.le_add_left _ _)
    rw [← Nat.pow_mul]
    exact Nat.pow_le_pow_right (by decide) (Nat.mul_div_le i 32)
  have hout := (hext.keepsOthers x).outcome_conclude hx
    ((hfoot.join hfoot' (k := 0) (l := i / 32 + 1) (by omega) (by omega)).keptBelow s.free) hcap
    hnum (fun _ => hlow) (decide (m.count x < 0))
  refine ⟨s.conclude x g (i / 32 + 1) (decide (m.count x < 0)), ?_, ?_⟩
  · have hdiff : i / 32 - c = k := by omega
    simp only [growLimb, ← hc, ← hs, hdiff, ← hf, hput, Option.map_some]
  · rw [hval]
    simpa only [signed, decide_eq_true_eq] using hout

end OneLimb

/-! ## The lowest limb that is not zero -/

section Lowest

variable {m : IntegerXMemory} {x : ℕ}

/-- The lowest limb of a number that is not zero has the index `k`. -/
def LowestLimb (v : ℤ) (k : ℕ) : Prop := (2 ^ 32) ^ k ∣ v ∧ ¬ (2 ^ 32) ^ (k + 1) ∣ v

lemma LowestLimb.unique {v : ℤ} {k l : ℕ} (hk : LowestLimb v k) (hl : LowestLimb v l) : k = l := by
  have hle {k l : ℕ} (hk : LowestLimb v k) (hl : LowestLimb v l) : k ≤ l := by
    by_contra hlt
    exact hl.2 ((pow_dvd_pow _ (not_le.mp hlt)).trans hk.1)
  exact le_antisymm (hle hk hl) (hle hl hk)

/-- The search for the limb, in a number that is not zero.

**Proof sketch.** Induction on the number of limbs left. The limbs before `k` are zero, and there
is another one below `w`. -/
lemma zeroBoundLoop_run {h : LimbHeap} {dp w : ℕ} (hw : w ≤ (h dp).length)
    (hne : h.number dp 0 w ≠ 0) (n : ℕ) {k : ℕ} (hzero : h.number dp 0 k = 0) (hk : k ≤ w)
    (hn : w ≤ k + n) :
    ∃ z d, zeroBoundLoop dp h n k = some z ∧ z < w ∧ h.item dp z = some d ∧ d ≠ 0 ∧
      h.number dp 0 z = 0 := by
  have hlt : k < w := lt_of_le_of_ne hk (by rintro rfl; exact hne hzero)
  induction n generalizing k with
  | zero => omega
  | succ n ih =>
    obtain ⟨d, hd, -⟩ := LimbHeap.exists_limb (h := h) (hlt.trans_le hw)
    rw [zeroBoundLoop, hd, Option.bind_some]
    by_cases hd0 : d = 0
    · have hzero' : h.number dp 0 (k + 1) = 0 := by
        rw [number_snoc hd, hzero, hd0, SpecialArithmetic.toNat_zero_limb, Nat.mul_zero]
      rw [if_neg (not_not.mpr hd0)]
      exact ih hzero' hlt (by omega) (lt_of_le_of_ne hlt (by rintro rfl; exact hne hzero'))
    · rw [if_pos hd0]
      exact ⟨k, d, rfl, hlt, hd, hd0, hzero⟩

/-- **The lowest limb** of a negative number that is not zero. -/
lemma zeroBound_run (hnx : m.Normalised x) (hneg : m.count x < 0) :
    ∃ z d, m.zeroBound x = some z ∧ z < (m.count x).natAbs ∧
      m.arrays.item (m.item x) z = some d ∧ d ≠ 0 ∧ m.arrays.number (m.item x) 0 z = 0 ∧
      ∀ k, LowestLimb (m.value x) k ↔ k = z := by
  have hcap := hnx.count_le
  rw [capacity] at hcap
  obtain ⟨z, d, hrun, hlt, hd, hne, hzero⟩ := zeroBoundLoop_run hcap
    (hnx.magnitude_pos hneg.ne).ne' (m.capacity x) (LimbHeap.number_zero _ _ _) (Nat.zero_le _)
    (by rw [capacity]; omega)
  have hlowest : LowestLimb (m.value x) z := by
    have hdvd (k : ℕ) (hk : k ≤ (m.count x).natAbs) :
        (2 ^ 32) ^ k ∣ m.value x ↔ m.arrays.number (m.item x) 0 k = 0 := by
      rw [value_of_count_neg hneg, dvd_neg, number_mod m.arrays hk hcap, ← magnitude,
        ← Nat.dvd_iff_mod_eq_zero]
      exact_mod_cast Iff.rfl
    refine ⟨(hdvd z hlt.le).mpr hzero, fun h => ?_⟩
    have hle := pow_le_number hd hne
    have hpos : 0 < (2 ^ 32) ^ z := by positivity
    have h0 := (hdvd (z + 1) hlt).mp h
    omega
  exact ⟨z, d, hrun, hlt, hd, hne, hzero, fun k => ⟨fun hk => hk.unique hlowest, by
    rintro rfl
    exact hlowest⟩⟩

/-- A bit above the lowest limb is the opposite one of the absolute value. -/
lemma signed_above {z i : ℕ} {d : Natural32} (hnx : m.Normalised x) (hneg : m.count x < 0)
    (hd : m.arrays.item (m.item x) z = some d) (hne : d ≠ 0) (hi : z < i / 32) (b : Bool) :
    m.signed x (TwosComplement.withBit (m.magnitude x) i !b) =
      TwosComplement.withBit (m.value x) i b := by
  have hcap := hnx.count_le
  rw [capacity] at hcap
  have hlow : m.magnitude x % (2 ^ 32) ^ (i / 32) ≠ 0 := by
    rcases Nat.le_total (i / 32) (m.count x).natAbs with hle | hge
    · rw [magnitude, ← number_mod m.arrays hle hcap]
      exact number_ne_zero hd hne hi (hle.trans hcap)
    · rw [Nat.mod_eq_of_lt (hnx.magnitude_lt.trans_le (Nat.pow_le_pow_right (by decide) hge))]
      exact (hnx.magnitude_pos hneg.ne).ne'
  rw [value_of_count_neg hneg, TwosComplement.withBit_neg (mod_two_pow_ne_zero hlow), signed,
    if_pos hneg]

end Lowest

/-! ## Clearing a bit -/

section Clear

variable {m m' : IntegerXMemory} {x i : ℕ}

/-- A negative number has zeros below the lowest limb that is not zero. -/
lemma testBit_below {z : ℕ} (hnx : m.Normalised x) (hneg : m.count x < 0)
    (hzero : m.arrays.number (m.item x) 0 z = 0) (hz : z < (m.count x).natAbs) (hi : i / 32 < z) :
    m.arrays.item (m.item x) (i / 32) = some 0 ∧ m.arrays.number (m.item x) 0 (i / 32) = 0 ∧
      (m.value x).testBit i = false := by
  have hcap := hnx.count_le
  rw [capacity] at hcap
  obtain ⟨d, hd, -⟩ := LimbHeap.exists_limb (h := m.arrays) (a := m.item x) (i := i / 32) (by omega)
  obtain rfl : d = 0 := by
    by_contra hne
    exact number_ne_zero hd hne hi (by omega) hzero
  have hlow : m.arrays.number (m.item x) 0 (i / 32) = 0 := by
    rw [number_mod m.arrays hi.le (by omega), hzero, Nat.zero_mod]
  refine ⟨hd, hlow, ?_⟩
  have hbit := testBit_neg_number hcap (hi.trans hz) hd (Nat.mod_lt i (by decide))
  rw [Nat.div_add_mod, ← magnitude, ← value_of_count_neg hneg, negLimb, if_pos hlow] at hbit
  rw [hbit]
  exact BitVec.getLsbD_zero

/-- The limb that `bit_clear` writes is too small by one. -/
lemma clear_lowest_ne (d : Natural32) (i : ℕ) :
    0 - ((d - 1) ||| bitMask i) ≠ setBit (0 - d) false (i % 32) := by
  have hset : setBit (0 - d) false (i % 32) = ~~~ ((d - 1) ||| bitMask i) := by
    rw [zero_sub_eq_not d, BitVec.not_or]
    rfl
  rw [hset, zero_sub_eq_not]
  exact fun heq => sub_one_ne _ (BitVec.not_inj.mp heq)

/-- The numbers for which `bit_clear` is right: those that are not negative, and those where the
lowest limb that is not zero is not the one with the bit. -/
def ClearRight (m : IntegerXMemory) (x i : ℕ) : Prop :=
  0 ≤ m.value x ∨ ¬ LowestLimb (m.value x) (i / 32)

/-- **`bit_clear`** is right unless the bit is in the lowest limb of a negative number that is not
zero. -/
lemma bitClear_outcome (hm : m.WellFormed) (hx : x < m.objects) (hnx : m.Normalised x)
    (h : m.ClearRight x i) :
    ∃ m', m.bitClear x i = some m' ∧
      m.Outcome m' x (TwosComplement.withBit (m.value x) i false) := by
  rw [ClearRight, ← not_lt, hnx.value_neg_iff, not_lt] at h
  rcases lt_or_ge (m.count x) 0 with hneg | hpos
  · obtain ⟨z, d, hz, hlt, hd, hne, hzero, hlowest⟩ := zeroBound_run hnx hneg
    have hiz : i / 32 ≠ z := fun he => h.resolve_left (by omega) ((hlowest _).mpr he)
    rw [bitClear, if_neg (by omega), hz, Option.bind_some]
    rcases Nat.lt_or_gt_of_ne hiz with hbelow | habove
    · rw [if_neg (by omega), if_neg hiz, TwosComplement.withBit,
        if_pos (testBit_below hnx hneg hzero hlt hbelow).2.2]
      exact ⟨m, rfl, outcome_refl hm hnx⟩
    · rw [if_pos habove, ← signed_above hnx hneg hd hne habove]
      split
      · next hi => exact orLimb_outcome hm hx hnx hi
      · next hi =>
        have hgrow := growLimb_outcome hm hx hnx (not_lt.mp hi)
        rwa [decide_eq_true hneg] at hgrow
  · rw [bitClear, if_pos hpos]
    split
    · next hi =>
      have hand := andLimb_outcome hm hx hnx hi
      rw [decide_eq_false (not_lt.mpr hpos), signed, if_neg (not_lt.mpr hpos)] at hand
      rwa [value_of_count_nonneg hpos]
    · next hi =>
      have hbound : m.magnitude x < 2 ^ i := by
        refine hnx.magnitude_lt.trans_le ?_
        rw [← Nat.pow_mul]
        exact Nat.pow_le_pow_right (by decide) (by omega)
      have hbit : (m.value x).testBit i = false := by
        rw [value_of_count_nonneg hpos]
        exact Nat.testBit_eq_false_of_lt hbound
      rw [TwosComplement.withBit, if_pos hbit]
      exact ⟨m, rfl, outcome_refl hm hnx⟩

/-- **`bit_clear`** is wrong for a bit of the lowest limb of a negative number that is not zero. -/
lemma bitClear_wrong (hnx : m.Normalised x) (h : ¬ m.ClearRight x i)
    (hrun : m.bitClear x i = some m') :
    m'.value x ≠ TwosComplement.withBit (m.value x) i false := by
  rw [ClearRight, not_or, not_not, not_le, hnx.value_neg_iff] at h
  obtain ⟨hneg, hlow⟩ := h
  obtain ⟨z, d, hz, hlt, hd, hne, hzero, hlowest⟩ := zeroBound_run hnx hneg
  obtain rfl := (hlowest _).mp hlow
  have hcap := hnx.count_le
  rw [capacity] at hcap
  obtain ⟨g, hput, -, hfoot⟩ := LimbHeap.run_put (h := m.arrays) (a := m.item x) (i := i / 32)
    (by omega) ((d - 1) ||| bitMask i)
  have hlimb : (d - 1) ||| bitMask i ≠ 0 := fun h0 =>
    bitMask_ne_zero i (BitVec.or_eq_zero_iff.mp h0).2
  rw [bitClear, if_neg (by omega), hz, Option.bind_some, if_neg (lt_irrefl _), if_pos rfl] at hrun
  simp only [bitClearLowest, hd, hput, Option.bind_eq_bind, Option.bind_some, if_neg hlimb] at hrun
  obtain rfl := Option.some.inj hrun
  have he := item_put hput
  have hzero' : g.number (m.item x) 0 (i / 32) = 0 := by
    rw [LimbHeap.number_apart hfoot (Apart.symm (Apart.of_le (by omega))), hzero]
  have hneg' : ({ m with arrays := g } : IntegerXMemory).count x < 0 := hneg
  rw [value_of_count_neg hneg', value_of_count_neg hneg]
  intro heq
  have hbits := negLimb_withBit (h := m.arrays) (g := g) hcap (by rw [hfoot.length]; exact hcap)
    hlt hlt hd he heq
  rw [if_pos rfl, negLimb, negLimb, if_pos hzero', if_pos hzero] at hbits
  exact clear_lowest_ne d i hbits

end Clear

/-! ## Setting a bit -/

section Borrow

variable {dp n p : ℕ} {h h' : LimbHeap} {d : Natural32}

/-- The loop that hands a carry on writes limbs from `i` on. -/
lemma setCarryLoop_frame {i j : ℕ} {done : Bool}
    (hrun : setCarryLoop dp n i h = some (j, done, h')) :
    i ≤ j ∧ j ≤ i + n ∧ SameOutside (region dp i n) h h' := by
  induction n generalizing i h with
  | zero =>
    simp only [setCarryLoop, Option.some.injEq, Prod.mk.injEq] at hrun
    obtain ⟨rfl, -, rfl⟩ := hrun
    exact ⟨le_rfl, le_rfl, .refl _ _⟩
  | succ n ih =>
    simp only [setCarryLoop, Option.bind_eq_bind, Option.bind_eq_some_iff] at hrun
    obtain ⟨x, hx, g, hput, hrun⟩ := hrun
    have hfoot := sameOutside_put hput
    split at hrun
    · simp only [Option.pure_def, Option.some.injEq, Prod.mk.injEq] at hrun
      obtain ⟨rfl, -, rfl⟩ := hrun
      exact ⟨le_rfl, by omega, hfoot.within (by omega)⟩
    · obtain ⟨hle, hlt, hrest⟩ := ih hrun
      exact ⟨by omega, by omega, hfoot.join hrest (by omega) (by omega)⟩

/-- The loop that takes one away writes limbs from `p` on, of which one was zero. -/
lemma borrowLoop_frame (hrun : borrowLoop dp n p h = some h') :
    SameOutside (region dp p n) h h' ∧ ∃ j, p ≤ j ∧ h.item dp j = some 0 := by
  induction n generalizing p h with
  | zero => cases hrun
  | succ n ih =>
    simp only [borrowLoop, Option.bind_eq_bind, Option.bind_eq_some_iff] at hrun
    obtain ⟨lastP, hlast, g, hput, hrun⟩ := hrun
    have hfoot := sameOutside_put hput
    split at hrun
    · next hzero =>
      obtain rfl := Option.some.inj hrun
      exact ⟨hfoot.within (by omega), p, le_rfl, by rw [hlast, hzero]⟩
    · obtain ⟨hrest, j, hj, hitem⟩ := ih hrun
      rw [hfoot.item _ _ (by simp only [region]; omega)] at hitem
      exact ⟨hfoot.join hrest (by omega) (by omega), j, by omega, hitem⟩

/-- The loop ends with a limb that was zero. -/
lemma borrowLoop_zero (hd : h.item dp p = some 0) (hrun : borrowLoop dp n p h = some h') :
    SameOutside (region dp p 1) h h' := by
  cases n with
  | zero => cases hrun
  | succ n =>
    simp only [borrowLoop, hd, Option.bind_eq_bind, Option.bind_some, if_true,
      Option.bind_eq_some_iff] at hrun
    obtain ⟨g, hput, hrun⟩ := hrun
    obtain rfl := Option.some.inj hrun
    exact sameOutside_put hput

/-- The loop takes one away from the first limb. -/
lemma borrowLoop_first (hd : h.item dp p = some d) (hrun : borrowLoop dp n p h = some h') :
    h'.item dp p = some (d - 1) := by
  cases n with
  | zero => cases hrun
  | succ n =>
    simp only [borrowLoop, hd, Option.bind_eq_bind, Option.bind_some,
      Option.bind_eq_some_iff] at hrun
    obtain ⟨g, hput, hrun⟩ := hrun
    split at hrun
    · obtain rfl := Option.some.inj hrun
      exact item_put hput
    · obtain ⟨hrest, -⟩ := borrowLoop_frame hrun
      rw [hrest.item _ _ (by simp only [region]; omega), item_put hput]

/-- The loop goes on behind a limb that was not zero. -/
lemma borrowLoop_succ (hd : h.item dp p = some d) (hne : d ≠ 0) :
    borrowLoop dp (n + 1) p h = (h.put dp p (d - 1)).bind (borrowLoop dp n (p + 1)) := by
  simp only [borrowLoop, hd, Option.bind_eq_bind, Option.bind_some, if_neg hne]

/-- The loop finds a limb that is zero. -/
lemma borrowLoop_some (hn : p + n ≤ (h dp).length) {j : ℕ} (hp : p ≤ j) (hj : j < p + n)
    (hzero : h.item dp j = some 0) : ∃ h', borrowLoop dp n p h = some h' := by
  induction n generalizing p h with
  | zero => omega
  | succ n ih =>
    obtain ⟨d, hd, -⟩ := LimbHeap.exists_limb (h := h) (a := dp) (i := p) (by omega)
    obtain ⟨g, hput, -, hfoot⟩ := LimbHeap.run_put (h := h) (a := dp) (i := p) (by omega) (d - 1)
    by_cases hd0 : d = 0
    · refine ⟨g, ?_⟩
      simp only [borrowLoop, hd, hput, Option.bind_eq_bind, Option.bind_some, if_pos hd0]
      rfl
    · have hjp : j ≠ p := by
        rintro rfl
        rw [hd, Option.some.injEq] at hzero
        exact hd0 hzero
      rw [borrowLoop_succ hd hd0, hput, Option.bind_some]
      refine ih (by rw [hfoot.length]; omega) (by omega) (by omega) ?_
      rw [hfoot.item _ _ (by simp only [region]; omega), hzero]

/-- A number without its highest limb if that is zero. -/
lemma number_top (hp : 1 ≤ p) (hd : h.item dp (p - 1) = some d) :
    h.number dp 0 (if d = 0 then p - 1 else p) = h.number dp 0 p := by
  split
  · next hzero =>
    have hsucc := number_snoc hd
    rw [Nat.sub_add_cancel hp, hzero, SpecialArithmetic.toNat_zero_limb, Nat.mul_zero,
      Nat.add_zero] at hsucc
    exact hsucc.symm
  · rfl

end Borrow

section Set

variable {m m' : IntegerXMemory} {x i : ℕ}

/-- The limb that `bit_set` writes is too small by two. -/
lemma set_lowest_ne (d : Natural32) (i : ℕ) :
    0 - (((d - 1) &&& ~~~ bitMask i) - 1) ≠ setBit (0 - d) true (i % 32) := by
  have hset : setBit (0 - d) true (i % 32) = ~~~ ((d - 1) &&& ~~~ bitMask i) := by
    rw [zero_sub_eq_not d, BitVec.not_and, BitVec.not_not]
    rfl
  have htwo (u : Natural32) : u - 1 - 1 ≠ u := by
    intro heq
    have h₁ : (u - 1).toNat = (2 ^ 32 - 1 + u.toNat) % 2 ^ 32 := BitVec.toNat_sub u 1
    have h₂ : (u - 1 - 1).toNat = (2 ^ 32 - 1 + (u - 1).toNat) % 2 ^ 32 :=
      BitVec.toNat_sub (u - 1) 1
    have hlt := u.isLt
    rw [heq] at h₂
    omega
  rw [hset, zero_sub_eq_not]
  exact fun heq => htwo _ (BitVec.not_inj.mp heq)

/-- **`bit_set`** is wrong for a bit of the lowest limb of a negative number that is not zero.

**Proof sketch.** In each of the three ways the routine ends, this limb is the one that was written
first, and those below are zero. -/
lemma bitSetLowest_wrong {d : Natural32} (hm : m.WellFormed) (hx : x < m.objects)
    (hnx : m.Normalised x) (hneg : m.count x < 0)
    (hlt : i / 32 < (m.count x).natAbs) (hd : m.arrays.item (m.item x) (i / 32) = some d)
    (hzero : m.arrays.number (m.item x) 0 (i / 32) = 0)
    (hrun : m.bitSetLowest x (i / 32) (bitMask i) = some m') :
    m'.value x ≠ TwosComplement.withBit (m.value x) i true := by
  have hcap := hnx.count_le
  rw [capacity] at hcap
  obtain ⟨e, he⟩ : ∃ e, e = ((d - 1) &&& ~~~ bitMask i) - 1 := ⟨_, rfl⟩
  have hwrong {g : LimbHeap} {a k : ℕ} (hk : k ≤ (g a).length) (hik : i / 32 < k)
      (hitem : g.item a (i / 32) = some e) (hlow : g.number a 0 (i / 32) = 0) :
      -(g.number a 0 k : ℤ) ≠ TwosComplement.withBit (m.value x) i true := by
    intro heq
    rw [value_of_count_neg hneg, magnitude] at heq
    have hbits := negLimb_withBit hcap hk hlt hik hd hitem heq
    rw [if_pos rfl, negLimb, negLimb, if_pos hlow, if_pos hzero, he] at hbits
    exact set_lowest_ne d i hbits
  obtain ⟨g, hput, -, hfoot⟩ := LimbHeap.run_put (h := m.arrays) (a := m.item x) (i := i / 32)
    (by omega) e
  have hitem := item_put hput
  have hlow : g.number (m.item x) 0 (i / 32) = 0 := by
    rw [LimbHeap.number_apart hfoot (Apart.symm (Apart.of_le (by omega))), hzero]
  simp only [bitSetLowest, hd, Option.bind_eq_bind, Option.bind_some, ← he, hput] at hrun
  have hkept {f : LimbHeap} {k : ℕ} (hf : SameOutside (region (m.item x) (i / 32 + 1) k) g f) :
      ({ m with arrays := f } : IntegerXMemory).value x ≠
        TwosComplement.withBit (m.value x) i true ∧
      f.item (m.item x) (i / 32) = some e ∧ f.number (m.item x) 0 (i / 32) = 0 := by
    have hitem' : f.item (m.item x) (i / 32) = some e := by
      rw [hf.item _ _ (by simp only [region]; omega), hitem]
    have hlow' : f.number (m.item x) 0 (i / 32) = 0 := by
      rw [LimbHeap.number_apart hf (Apart.symm (Apart.of_le (by omega))), hlow]
    rw [value_of_count_neg (show ({ m with arrays := f } : IntegerXMemory).count x < 0 from hneg)]
    exact ⟨hwrong (by rw [hf.length, hfoot.length]; exact hcap) hlt hitem' hlow', hitem', hlow'⟩
  split at hrun
  · obtain ⟨⟨j, done, f⟩, hloop, hrun⟩ := Option.bind_eq_some_iff.mp hrun
    obtain ⟨hij, -, hf⟩ := setCarryLoop_frame hloop
    obtain ⟨hvalue, hitem', hlow'⟩ := hkept hf
    cases done with
    | true =>
      obtain rfl := Option.some.inj hrun
      exact hvalue
    | false =>
      simp only [Bool.false_eq_true, if_false, Option.bind_eq_some_iff] at hrun
      obtain ⟨f', hput', hrun⟩ := hrun
      obtain rfl := Option.some.inj hrun
      obtain ⟨-, hroom⟩ := extends_resize (m := { m with arrays := f })
        ⟨hm.allocated, hm.owned⟩ hx ((m.count x).natAbs + 1)
      have hresize := item_resize { m with arrays := f } x ((m.count x).natAbs + 1) (i / 32)
      have hnumber := number_resize { m with arrays := f } x ((m.count x).natAbs + 1) (i / 32)
      set s := resize { m with arrays := f } x ((m.count x).natAbs + 1)
      have hf' := sameOutside_put hput'
      rw [capacity] at hroom
      obtain ⟨e', he', -⟩ := LimbHeap.exists_limb (h := s.arrays) (a := s.item x) (i := i / 32)
        (by omega)
      rw [he', Option.getD_some] at hresize
      obtain rfl : e' = e := by rw [hresize, hitem', Option.getD_some]
      rw [value_conclude, if_pos rfl]
      refine hwrong (by rw [hf'.length]; exact hroom) (by omega) ?_ ?_
      · rw [hf'.item _ _ (by simp only [region]; omega), he']
      · rw [LimbHeap.number_apart hf' (Apart.symm (Apart.of_le (by omega))), hnumber, hlow']
  · obtain rfl := Option.some.inj hrun
    exact (hkept (.refl (region _ _ 0) g)).1

/-- The limbs that `bit_set` leaves for a bit below the lowest limb that is not zero. -/
lemma bitSetBelow_run (hcap : (m.count x).natAbs ≤ (m.arrays (m.item x)).length)
    (hd : m.arrays.item (m.item x) (i / 32) = some 0) :
    ∃ g, m.arrays.put (m.item x) (i / 32) (0 - bitMask i) = some g ∧
      ((borrowLoop (m.item x) (m.capacity x - (i / 32 + 1)) (i / 32 + 1) g = none ∧
        m.bitSetBelow x (i / 32) (bitMask i) = none) ∨
      ∃ h' top, borrowLoop (m.item x) (m.capacity x - (i / 32 + 1)) (i / 32 + 1) g = some h' ∧
        h'.item (m.item x) ((m.count x).natAbs - 1) = some top ∧
        m.bitSetBelow x (i / 32) (bitMask i) = some (m.conclude x h'
          (if top = 0 then (m.count x).natAbs - 1 else (m.count x).natAbs) true)) := by
  obtain ⟨hi, -⟩ := List.getElem?_eq_some_iff.mp hd
  obtain ⟨g, hput, -, hfoot⟩ := LimbHeap.run_put (h := m.arrays) hi (0 - bitMask i)
  have hlt : (0 : Natural32) < bitMask i := by
    rw [BitVec.lt_def, SpecialArithmetic.toNat_zero_limb]
    exact BitVec.toNat_pos_of_ne_zero (bitMask_ne_zero i)
  refine ⟨g, hput, ?_⟩
  cases hloop : borrowLoop (m.item x) (m.capacity x - (i / 32 + 1)) (i / 32 + 1) g with
  | none =>
    refine Or.inl ⟨rfl, ?_⟩
    simp only [bitSetBelow, hd, hput, Option.bind_eq_bind, Option.bind_some, if_pos hlt, hloop,
      Option.bind_none]
  | some h' =>
    obtain ⟨hrest, -⟩ := borrowLoop_frame hloop
    obtain ⟨top, htop, -⟩ := LimbHeap.exists_limb (h := h') (a := m.item x)
      (i := (m.count x).natAbs - 1) (by rw [hrest.length, hfoot.length]; omega)
    refine Or.inr ⟨h', top, rfl, htop, ?_⟩
    simp only [bitSetBelow, hd, hput, Option.bind_eq_bind, Option.bind_some, if_pos hlt, hloop,
      htop]
    rfl

/-- The limb that is borrowed from: one is taken from `P * B * D`, in parts of `P * M`. -/
lemma borrow_eq {P B D M N' : ℕ} (hM : M ≤ B) (hD : 1 ≤ D)
    (hN' : N' = P * (B - M) + P * B * (D - 1)) : N' + P * M = P * B * D := by
  obtain ⟨K, rfl⟩ := Nat.exists_eq_add_of_le hM
  obtain ⟨E, rfl⟩ := Nat.exists_eq_add_of_le hD
  rw [hN', Nat.add_sub_cancel_left, Nat.add_sub_cancel_left]
  ring

/-- **`bit_set`** for a bit in the limb below the only one that is not zero: the loop goes on to a
zero behind the number. -/
lemma bitSetBelow_outcome {z j : ℕ} {d : Natural32} (hm : m.WellFormed) (hx : x < m.objects)
    (hnx : m.Normalised x) (hneg : m.count x < 0) (hd : m.arrays.item (m.item x) z = some d)
    (hne : d ≠ 0) (hzero : m.arrays.number (m.item x) 0 z = 0) (hiz : i / 32 + 1 = z)
    (hcount : (m.count x).natAbs = z + 1) (hj : z + 1 ≤ j)
    (hhidden : m.arrays.item (m.item x) j = some 0) :
    ∃ m', m.bitSetBelow x (i / 32) (bitMask i) = some m' ∧
      m.Outcome m' x (TwosComplement.withBit (m.value x) i true) := by
  have hcap := hnx.count_le
  rw [capacity] at hcap
  obtain ⟨hjlt, -⟩ := List.getElem?_eq_some_iff.mp hhidden
  obtain ⟨hlimb, hlow, hbit⟩ := testBit_below (i := i) hnx hneg hzero (by omega) (by omega)
  obtain ⟨g, hput, hrun⟩ := bitSetBelow_run (i := i) hcap hlimb
  have hfoot := sameOutside_put hput
  -- the limb `z` and those behind it
  have hdg : g.item (m.item x) (i / 32 + 1) = some d := by
    rw [hfoot.item _ _ (by simp only [region]; omega), hiz, hd]
  obtain ⟨f, hputf, -, hfootf⟩ := LimbHeap.run_put (h := g) (a := m.item x) (i := i / 32 + 1)
    (by rw [hfoot.length]; omega) (d - 1)
  obtain ⟨k, hk⟩ : ∃ k, m.capacity x - (i / 32 + 1) = k + 1 :=
    ⟨m.capacity x - (i / 32 + 1) - 1, by rw [capacity]; omega⟩
  rw [capacity] at hk
  have hroom : i / 32 + 1 + 1 + k ≤ (f (m.item x)).length := by
    rw [hfootf.length, hfoot.length]
    omega
  obtain ⟨h', hloop⟩ := borrowLoop_some hroom (show i / 32 + 1 + 1 ≤ j by omega) (by omega) (by
    rw [hfootf.item _ _ (by simp only [region]; omega),
      hfoot.item _ _ (by simp only [region]; omega), hhidden])
  obtain ⟨hrest, -⟩ := borrowLoop_frame hloop
  have hloop' : borrowLoop (m.item x) (m.capacity x - (i / 32 + 1)) (i / 32 + 1) g = some h' := by
    rw [capacity, hk, borrowLoop_succ hdg hne, hputf, Option.bind_some, hloop]
  rcases hrun with ⟨hnone, -⟩ | ⟨h'', top, hsome, htop, hrun⟩
  · rw [hloop'] at hnone
    cases hnone
  rw [hloop', Option.some.injEq] at hsome
  subst hsome
  -- the limbs of the result
  have hlen : (h' (m.item x)).length = (m.arrays (m.item x)).length := by
    rw [hrest.length, hfootf.length, hfoot.length]
  have hitem₀ : h'.item (m.item x) (i / 32) = some (0 - bitMask i) := by
    rw [hrest.item _ _ (by simp only [region]; omega),
      hfootf.item _ _ (by simp only [region]; omega), item_put hput]
  have hitem₁ : h'.item (m.item x) (i / 32 + 1) = some (d - 1) := by
    rw [hrest.item _ _ (by simp only [region]; omega), item_put hputf]
  have hbelow : h'.number (m.item x) 0 (i / 32) = 0 := by
    rw [LimbHeap.number_apart hrest (Apart.symm (Apart.of_le (by omega))),
      LimbHeap.number_apart hfootf (Apart.symm (Apart.of_le (by omega))),
      LimbHeap.number_apart hfoot (Apart.symm (Apart.of_le (by omega))), hlow]
  obtain ⟨hmask, hmask0⟩ := zero_sub_bitMask i
  have hpred : (d - 1).toNat = d.toNat - 1 ∧ 1 ≤ d.toNat := by
    have hsub : (d - 1).toNat = (2 ^ 32 - 1 + d.toNat) % 2 ^ 32 := BitVec.toNat_sub d 1
    have hlt := d.isLt
    have hpos : d.toNat ≠ 0 := (BitVec.toNat_pos_of_ne_zero hne).ne'
    omega
  have hval : h'.number (m.item x) 0 (m.count x).natAbs + 2 ^ i = m.magnitude x := by
    have hmag : m.magnitude x = (2 ^ 32) ^ (i / 32) * 2 ^ 32 * d.toNat := by
      rw [magnitude, hcount, number_snoc hd, hzero, Nat.zero_add, ← hiz, pow_succ (2 ^ 32)]
    rw [hmag, ← pow_mul_bitMask]
    refine borrow_eq (bitMask i).isLt.le hpred.2 ?_
    rw [hcount, ← hiz, number_snoc hitem₁, number_snoc hitem₀, hbelow, Nat.zero_add, hmask,
      hpred.1, pow_succ (2 ^ 32)]
  have hwith : TwosComplement.withBit (m.value x) i true =
      -(h'.number (m.item x) 0 (m.count x).natAbs : ℤ) := by
    have hne' : (m.value x).testBit i ≠ true := by
      rw [hbit]
      exact Bool.false_ne_true
    rw [TwosComplement.withBit, if_neg hne', TwosComplement.int_xor_two_pow_eq, if_neg hne',
      value_of_count_neg hneg, ← hval]
    push_cast
    ring
  have hlast : (m.count x).natAbs - 1 = i / 32 + 1 := by omega
  rw [hlast, hitem₁, Option.some.injEq] at htop
  subst htop
  have htop : h'.item (m.item x) ((m.count x).natAbs - 1) = some (d - 1) := by rw [hlast, hitem₁]
  have hkept : SameOutside (region (m.item x) 0 (m.capacity x)) m.arrays h' := by
    rw [capacity]
    exact hfoot.join (hfootf.join hrest (k := i / 32 + 1) (l := k + 1) (by omega) (by omega))
      (by omega) (by omega)
  rw [hwith, hrun, ← number_top (by omega) htop]
  refine ⟨_, rfl, ((Extends.refl hm).keepsOthers x).outcome_conclude hx (hkept.keptBelow m.free)
    (le_trans (by split <;> omega) hnx.count_le) rfl (fun _ => ?_) true⟩
  rw [hlast, hcount, ← hiz]
  split
  · rw [Nat.add_sub_cancel]
    exact pow_le_number hitem₀ hmask0
  · next hd1 =>
    rw [Nat.add_sub_cancel]
    exact pow_le_number hitem₁ hd1

/-- **`bit_set`** is wrong, or fails, for a bit below the lowest limb that is not zero of any other
negative number.

**Proof sketch.** A zero limb between the limb with the bit and the lowest one that is not zero ends
the loop, which does not reach the latter. Else the loop goes on behind the latter, and a limb there
is too small by one. -/
lemma bitSetBelow_wrong {z : ℕ} {d : Natural32} (hnx : m.Normalised x) (hneg : m.count x < 0)
    (hd : m.arrays.item (m.item x) z = some d) (hne : d ≠ 0)
    (hzero : m.arrays.number (m.item x) 0 z = 0) (hz : z < (m.count x).natAbs) (hi : i / 32 < z)
    (h : ¬ (i / 32 + 1 = z ∧ (m.count x).natAbs = z + 1 ∧
      ∃ j, z + 1 ≤ j ∧ m.arrays.item (m.item x) j = some 0))
    (hrun : m.bitSetBelow x (i / 32) (bitMask i) = some m') :
    m'.value x ≠ TwosComplement.withBit (m.value x) i true := by
  have hcap := hnx.count_le
  rw [capacity] at hcap
  obtain ⟨hlimb, hlow, -⟩ := testBit_below (i := i) hnx hneg hzero hz hi
  obtain ⟨g, hput, hrun'⟩ := bitSetBelow_run (i := i) hcap hlimb
  have hfoot := sameOutside_put hput
  rcases hrun' with ⟨-, hnone⟩ | ⟨h', top, hloop, htop, hsome⟩
  · rw [hnone] at hrun
    cases hrun
  rw [hsome, Option.some.injEq] at hrun
  obtain ⟨hrest, j, hj, hitemj⟩ := borrowLoop_frame hloop
  have hlen : (h' (m.item x)).length = (m.arrays (m.item x)).length := by
    rw [hrest.length, hfoot.length]
  have hmask : 0 - bitMask i ≠ 0 := (zero_sub_bitMask i).2
  have hlow' {t : ℕ} (ht : i / 32 < t) (htc : t ≤ (m.count x).natAbs) :
      h'.number (m.item x) 0 t ≠ 0 := by
    refine number_ne_zero (t := i / 32) (d := 0 - bitMask i) ?_ hmask ht (by omega)
    rw [hrest.item _ _ (by simp only [region]; omega), item_put hput]
  rw [← hrun, value_conclude, if_pos rfl, number_top (by omega) htop, value_of_count_neg hneg,
    magnitude]
  intro heq
  -- a limb that is compared, with those below in both numbers
  have hlimbs {t : ℕ} {e f : Natural32} (ht : t < (m.count x).natAbs) (hit : i / 32 < t)
      (he : m.arrays.item (m.item x) t = some e) (hf : h'.item (m.item x) t = some f) :
      0 - f - 1 = negLimb m.arrays (m.item x) t e := by
    have hbits := negLimb_withBit hcap (hlen ▸ hcap) ht ht he hf heq
    rwa [if_neg (by omega), negLimb, if_neg (hlow' hit ht.le)] at hbits
  rcases Nat.lt_or_eq_of_le (show i / 32 + 1 ≤ z from hi) with hgap | hnext
  · -- the limb behind the one with the bit is zero
    obtain ⟨e, he, -⟩ := LimbHeap.exists_limb (h := m.arrays) (a := m.item x) (i := i / 32 + 1)
      (by omega)
    obtain rfl : e = 0 := by
      by_contra hne'
      exact number_ne_zero he hne' hgap (by omega) hzero
    have hstop := borrowLoop_zero (by rw [hfoot.item _ _ (by simp only [region]; omega), he]) hloop
    have hf : h'.item (m.item x) z = some d := by
      rw [hstop.item _ _ (by simp only [region]; omega),
        hfoot.item _ _ (by simp only [region]; omega), hd]
    have hbits := hlimbs hz hi hd hf
    rw [negLimb, if_pos hzero] at hbits
    exact sub_one_ne _ hbits
  · -- the loop goes on behind `z`
    have hdg : g.item (m.item x) (i / 32 + 1) = some d := by
      rw [hfoot.item _ _ (by simp only [region]; omega), hnext, hd]
    obtain ⟨k, hk⟩ : ∃ k, m.capacity x - (i / 32 + 1) = k + 1 :=
      ⟨m.capacity x - (i / 32 + 1) - 1, by rw [capacity]; omega⟩
    rw [hk, borrowLoop_succ hdg hne] at hloop
    obtain ⟨f, hputf, hloop⟩ := Option.bind_eq_some_iff.mp hloop
    have hfootf := sameOutside_put hputf
    obtain ⟨hrest', j', hj', hitemj'⟩ := borrowLoop_frame hloop
    rw [hfootf.item _ _ (by simp only [region]; omega),
      hfoot.item _ _ (by simp only [region]; omega)] at hitemj'
    rcases Nat.lt_or_eq_of_le (show z + 1 ≤ (m.count x).natAbs from hz) with hmore | hend
    · obtain ⟨e, he, -⟩ := LimbHeap.exists_limb (h := m.arrays) (a := m.item x) (i := z + 1)
        (by omega)
      have hef : f.item (m.item x) (i / 32 + 1 + 1) = some e := by
        rw [hfootf.item _ _ (by simp only [region]; omega),
          hfoot.item _ _ (by simp only [region]; omega), hnext, he]
      have hpred : h'.item (m.item x) (z + 1) = some (e - 1) := by
        rw [← hnext]
        exact borrowLoop_first hef hloop
      have hbits := hlimbs hmore (by omega) he hpred
      rw [negLimb, if_neg (number_ne_zero hd hne (Nat.lt_succ_self z) (by omega)),
        zero_sub_sub_one, zero_sub_sub_one] at hbits
      exact sub_one_ne e (BitVec.not_inj.mp hbits)
    · exact h ⟨hnext, hend.symm, j', by omega, hitemj'⟩

/-- The numbers for which `bit_set` is right: those that are not negative, those with a lowest limb
that is not zero below the bit, and those where this limb is the one above the bit and the highest
one, with a zero behind it in the array. -/
def SetRight (m : IntegerXMemory) (x i : ℕ) : Prop :=
  0 ≤ m.value x ∨ (∃ k < i / 32, LowestLimb (m.value x) k) ∨
    (LowestLimb (m.value x) (i / 32 + 1) ∧ (m.count x).natAbs = i / 32 + 2 ∧
      ∃ j, i / 32 + 2 ≤ j ∧ m.arrays.item (m.item x) j = some 0)

/-- **`bit_set`** is right. -/
lemma bitSet_outcome (hm : m.WellFormed) (hx : x < m.objects) (hnx : m.Normalised x)
    (h : m.SetRight x i) :
    ∃ m', m.bitSet x i = some m' ∧ m.Outcome m' x (TwosComplement.withBit (m.value x) i true) := by
  rw [SetRight, ← not_lt, hnx.value_neg_iff, not_lt] at h
  rcases lt_or_ge (m.count x) 0 with hneg | hpos
  · obtain ⟨z, d, hz, hlt, hd, hne, hzero, hlowest⟩ := zeroBound_run hnx hneg
    simp only [hlowest, exists_eq_right] at h
    rw [bitSet, if_neg (by omega), hz, Option.bind_some]
    rcases h.resolve_left (by omega) with habove | ⟨hnext, hcount, j, hj, hitem⟩
    · rw [if_pos habove]
      have hsigned := signed_above hnx hneg hd hne habove true
      split
      · next hi =>
        have hand := andLimb_outcome hm hx hnx hi
        rw [decide_eq_true hneg] at hand
        rwa [← hsigned]
      · next hi =>
        have hbound : m.magnitude x < 2 ^ i := by
          refine hnx.magnitude_lt.trans_le ?_
          rw [← Nat.pow_mul]
          exact Nat.pow_le_pow_right (by decide) (by omega)
        have hbit : (m.value x).testBit i = true := by
          have hpos := hnx.magnitude_pos hneg.ne
          rw [value_of_count_neg hneg, TwosComplement.testBit_neg (by
            rw [Nat.mod_eq_of_lt hbound]
            exact hpos.ne'), Nat.testBit_eq_false_of_lt hbound, Bool.not_false]
        rw [TwosComplement.withBit, if_pos hbit]
        exact ⟨m, rfl, outcome_refl hm hnx⟩
    · rw [if_neg (by omega), if_neg (by omega)]
      exact bitSetBelow_outcome hm hx hnx hneg hd hne hzero hnext (by omega)
        (show z + 1 ≤ j by omega) hitem
  · rw [bitSet, if_pos hpos]
    have hsigned : m.signed x (TwosComplement.withBit (m.magnitude x) i true) =
        TwosComplement.withBit (m.value x) i true := by
      rw [signed, if_neg (not_lt.mpr hpos), value_of_count_nonneg hpos]
    rw [← hsigned]
    split
    · next hi => exact orLimb_outcome hm hx hnx hi
    · next hi =>
      have hgrow := growLimb_outcome hm hx hnx (not_lt.mp hi)
      rwa [decide_eq_false (not_lt.mpr hpos)] at hgrow

/-- **`bit_set`** is wrong, or fails, for all other numbers. -/
lemma bitSet_wrong (hm : m.WellFormed) (hx : x < m.objects) (hnx : m.Normalised x)
    (h : ¬ m.SetRight x i) (hrun : m.bitSet x i = some m') :
    m'.value x ≠ TwosComplement.withBit (m.value x) i true := by
  rw [SetRight, ← not_lt, hnx.value_neg_iff, not_lt, not_or, not_le] at h
  obtain ⟨hneg, h⟩ := h
  obtain ⟨z, d, hz, hlt, hd, hne, hzero, hlowest⟩ := zeroBound_run hnx hneg
  simp only [hlowest, exists_eq_right, not_or] at h
  obtain ⟨habove, hbelow⟩ := h
  rw [bitSet, if_neg (by omega), hz, Option.bind_some, if_neg habove] at hrun
  split at hrun
  · next hi =>
    subst hi
    exact bitSetLowest_wrong hm hx hnx hneg hlt hd hzero hrun
  · next hi =>
    refine bitSetBelow_wrong hnx hneg hd hne hzero hlt (by omega) ?_ hrun
    rintro ⟨rfl, hcount, hhidden⟩
    exact hbelow ⟨rfl, hcount, hhidden⟩

end Set

end IntegerXMemory

end EiffelWeb
