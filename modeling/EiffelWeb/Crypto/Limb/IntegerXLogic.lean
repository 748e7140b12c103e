import EiffelWeb.Crypto.Limb.IntegerXBits
import EiffelWeb.Crypto.Limb.LimbBits
import EiffelWeb.Crypto.Limb.LimbLogic
import EiffelWeb.Crypto.Limb.TruncatedDivision

set_option relaxedAutoImplicit false
set_option autoImplicit false

/-!
# Shifts and exclusive disjunctions of objects

The routines `mul_2exp` of `INTEGER_X_ARITHMETIC`, behind `bit_shift_left`, and `bit_xor` of
`INTEGER_X_LOGIC`. A negative operand of `bit_xor` stands for the bits of its absolute value less
one, the other way.

An object that is worked on with these routines and is not negative need not be normalised: limbs
that it counts may be zero, as long as those above are.

## Main definitions

* `IntegerXMemory.mul2exp`, `IntegerXMemory.bitXor`
* `IntegerXMemory.Holds` — an object with a number in a given number of limbs.
* `IntegerXMemory.Touches` — what an operation on one object does to the others.

## Main results

* `IntegerXMemory.Touches.holds` — the other objects.
* `IntegerXMemory.mul2expLimbs_number` — the limbs of a shift.
* `IntegerXMemory.mul2exp_run`, `IntegerXMemory.bitXor_run`
-/

namespace EiffelWeb

open Limbs Arrays

namespace IntegerXMemory

/-- The limbs of `mul_2exp`: the shift by whole limbs and by `count` bits, and the number of limbs
written. -/
def mul2expLimbs (wp op1 absUsize limbCount count : ℕ) (h : LimbHeap) : Option (ℕ × LimbHeap) :=
  let wsize := absUsize + limbCount
  if count ≠ 0 then do
    let (wlimb, h) ← SpecialLogic.lshift wp limbCount op1 0 absUsize count h
    if wlimb ≠ 0 then do
      let h ← h.put wp wsize wlimb
      return (wsize + 1, h)
    else return (wsize, h)
  else do
    let h ← h.copyData wp op1 0 limbCount absUsize
    return (wsize, h)

/-- `mul_2exp (target, op1, count)`. -/
def mul2exp (target op1 count : ℕ) (m : IntegerXMemory) : Option IntegerXMemory :=
  let usize := m.count op1
  let absUsize := usize.natAbs
  if usize = 0 then some { m with count := Function.update m.count target 0 }
  else do
    let limbCount := count / 32
    let m := m.resize target (absUsize + limbCount + 1)
    let wp := m.item target
    let (wsize, h) ← mul2expLimbs wp (m.item op1) absUsize limbCount (count % 32) m.arrays
    let h := h.store wp 0 (List.replicate limbCount 0)
    return { m with
      arrays := h
      count := Function.update m.count target (if 0 ≤ usize then (wsize : ℤ) else -wsize) }

/-- `create opx.make_filled (0, size)` and `sub_1 (opx, 0, p, 0, size, 1, carry)`: the new array is
numbered `free`. A negative number of items is refused. -/
def predArray (p : ℕ) (size : ℤ) (m : IntegerXMemory) : Option IntegerXMemory :=
  if size < 0 then none
  else
    (SpecialArithmetic.sub1 m.free 0 p 0 size.toNat 1
      (Function.update m.arrays m.free (List.replicate size.toNat 0))).map fun r =>
        { m with arrays := r.2, free := m.free + 1 }

/-- `add_1 (rp, 0, p, 0, size, 1, carry)`, after which a carry becomes a further limb. The number of
limbs is returned. -/
def addOne (rp p size : ℕ) (h : LimbHeap) : Option (ℕ × LimbHeap) := do
  let (cy, h) ← SpecialArithmetic.add1 rp 0 p 0 size 1 h
  if cy ≠ 0 then (h.put rp size cy).map fun h => (size + 1, h) else some (size, h)

/-- `bit_xor` for two negative operands. -/
def bitXorNegative (res op1 op2 : ℕ) (m : IntegerXMemory) : Option IntegerXMemory := do
  let op1Size := (m.count op1).natAbs
  let op2Size := (m.count op2).natAbs
  let op1Ptr := m.free
  let m ← m.predArray (m.item op1) op1Size
  let op2Ptr := m.free
  let m ← m.predArray (m.item op2) op2Size
  let m := m.resize res (max op1Size op2Size)
  let h ← SpecialLogic.combine (· ^^^ ·) (m.item res) op1Ptr op1Size op2Ptr op2Size
    (op2Size < op1Size) m.arrays
  let resSize ← SpecialUtility.normalize (m.item res) 0 (max op1Size op2Size) h
  return m.conclude res h resSize false

/-- `bit_xor` for a first operand that is not negative and a second one that is. -/
def bitXorMixed (res op1 op2 : ℕ) (m : IntegerXMemory) : Option IntegerXMemory := do
  let op1Size := (m.count op1).toNat
  let op2Size := (m.count op2).natAbs
  let op1Ptr := m.item op1
  let op2Ptr := m.free
  let m ← m.predArray (m.item op2) op2Size
  let m := m.resize res (max op1Size op2Size + 1)
  let h ← SpecialLogic.combine (· ^^^ ·) (m.item res) op1Ptr op1Size op2Ptr op2Size
    (op2Size < op1Size) m.arrays
  let (resSize, h) ← addOne (m.item res) (m.item res) (max op1Size op2Size) h
  let resSize ← SpecialUtility.normalize (m.item res) 0 resSize h
  return m.conclude res h resSize true

/-- `bit_xor (res, op1, op2)`. The operands are exchanged if only the first one is negative. -/
def bitXor (res op1 op2 : ℕ) (m : IntegerXMemory) : Option IntegerXMemory :=
  if 0 ≤ m.count op1 ∧ 0 ≤ m.count op2 then do
    let op1Size := (m.count op1).toNat
    let op2Size := (m.count op2).toNat
    let resSize := max op1Size op2Size
    let m := m.resize res resSize
    let h ← SpecialLogic.bitXor (m.item res) 0 (m.item op1) 0 op1Size (m.item op2) 0 op2Size
      m.arrays
    let resSize ← SpecialUtility.normalize (m.item res) 0 resSize h
    return { m with arrays := h, count := Function.update m.count res resSize }
  else if 0 ≤ m.count op1 then m.bitXorMixed res op1 op2
  else if 0 ≤ m.count op2 then m.bitXorMixed res op2 op1
  else m.bitXorNegative res op1 op2

/-! ## What an operation on one object does -/

/-- An operation on the object `x`: the other objects have their arrays and counts, and no array but
that of `x` was written. `x` may have a new array. -/
structure Touches (m m' : IntegerXMemory) (x : ℕ) : Prop where
  /-- Every object has an array of its own. -/
  wellFormed : m'.WellFormed
  /-- The objects are the same. -/
  objects : m'.objects = m.objects
  /-- No array is given up. -/
  free_le : m.free ≤ m'.free
  /-- The array of `x`. -/
  item_self : m'.item x = m.item x ∨ m.free ≤ m'.item x
  /-- The arrays of the other objects. -/
  item : ∀ y, y ≠ x → m'.item y = m.item y
  /-- The counts of the other objects. -/
  count : ∀ y, y ≠ x → m'.count y = m.count y
  /-- The other arrays. -/
  arrays : ∀ r < m.free, r ≠ m.item x → m'.arrays r = m.arrays r

/-- The object `x` holds the number `v` in `n` limbs. -/
structure Holds (m : IntegerXMemory) (x n v : ℕ) : Prop where
  /-- The number is not negative. -/
  nonneg : 0 ≤ m.count x
  /-- There are no more than `n` limbs. -/
  count_le : (m.count x).toNat ≤ n
  /-- The array has `n` limbs. -/
  room : n ≤ m.capacity x
  /-- The limbs that are counted. -/
  low : m.arrays.number (m.item x) 0 (m.count x).toNat = v
  /-- All limbs. -/
  number : m.arrays.number (m.item x) 0 n = v

variable {m m' : IntegerXMemory} {x y n v : ℕ}

lemma Touches.refl (hm : m.WellFormed) (x : ℕ) : m.Touches m x :=
  ⟨hm, rfl, le_rfl, Or.inl rfl, fun _ _ => rfl, fun _ _ => rfl, fun _ _ _ => rfl⟩

lemma Touches.holds (ht : m.Touches m' x) (hm : m.WellFormed) (hx : x < m.objects)
    (hy : y < m.objects) (hyx : y ≠ x) (h : m.Holds y n v) : m'.Holds y n v := by
  have harray : m'.arrays (m'.item y) = m.arrays (m.item y) := by
    rw [ht.item y hyx]
    exact ht.arrays _ (hm.allocated y hy) fun he => hyx (hm.owned y hy x hx he)
  have hnumber (k : ℕ) : m'.arrays.number (m'.item y) 0 k = m.arrays.number (m.item y) 0 k := by
    rw [LimbHeap.number, LimbHeap.number, Arrays.segment, Arrays.segment, harray]
  exact ⟨by rw [ht.count y hyx]; exact h.nonneg, by rw [ht.count y hyx]; exact h.count_le,
    by rw [capacity, harray]; exact h.room, by rw [ht.count y hyx, hnumber]; exact h.low,
    by rw [hnumber]; exact h.number⟩

/-- The number of an object that holds one. -/
lemma Holds.value (h : m.Holds x n v) : m.value x = v := by
  have hnonneg := h.nonneg
  have hlow := h.low
  rw [IntegerXMemory.value, magnitude]
  rcases hnonneg.eq_or_lt with h0 | hpos
  · rw [← h0, Int.toNat_zero, LimbHeap.number_zero] at hlow
    rw [← h0, ← hlow]
    rfl
  · have habs : (m.count x).natAbs = (m.count x).toNat := by omega
    rw [Int.sign_eq_one_of_pos hpos, habs, hlow, one_mul]

/-- The other arrays are as they were. -/
lemma eq_of_sameOutside {h h' : LimbHeap} {a i k r : ℕ} (hs : SameOutside (region a i k) h h')
    (hr : r ≠ a) : h' r = h r := by
  apply List.ext_getElem?
  intro j
  exact hs.item r j fun hw => hr hw.1

/-- What `resize` leaves as it is. -/
lemma resize_keeps (m : IntegerXMemory) (x n : ℕ) :
    m.free ≤ (m.resize x n).free ∧
      ((m.resize x n).item x = m.item x ∨ m.free ≤ (m.resize x n).item x) ∧
      (∀ y, y ≠ x → (m.resize x n).item y = m.item y) ∧
      ∀ r < m.free, (m.resize x n).arrays r = m.arrays r := by
  rw [resize]
  split
  · refine ⟨Nat.le_succ _, Or.inr ?_, fun y hy => Function.update_of_ne hy _ _,
      fun r hr => Function.update_of_ne (by omega) _ _⟩
    show m.free ≤ Function.update m.item x m.free x
    rw [Function.update_self]
  · exact ⟨le_rfl, Or.inl rfl, fun _ _ => rfl, fun _ _ => rfl⟩

/-- The array of the object is its old one or a new one. -/
lemma Touches.ne_item (ht : m.Touches m' x) {r : ℕ} (hr : r < m.free) (hrx : r ≠ m.item x) :
    r ≠ m'.item x := by
  rcases ht.item_self with he | hge
  · rwa [he]
  · omega

/-- **Writing to the array of an object**, after making room. -/
lemma touches_resize (hm : m.WellFormed) (hx : x < m.objects) (n : ℕ) {w : ℕ} {h' : LimbHeap}
    (c : ℤ) (hfoot : SameOutside (region ((m.resize x n).item x) 0 w) (m.resize x n).arrays h') :
    m.Touches { m.resize x n with
      arrays := h', count := Function.update (m.resize x n).count x c } x := by
  obtain ⟨hext, -⟩ := extends_resize hm hx n
  obtain ⟨hfree, hself, hitem, harrays⟩ := resize_keeps m x n
  refine ⟨⟨hext.wellFormed.allocated, hext.wellFormed.owned⟩, hext.objects, hfree, hself, hitem,
    fun y hy => ?_, fun r hr hrx => ?_⟩
  · show Function.update (m.resize x n).count x c y = _
    rw [Function.update_of_ne hy, hext.count]
  · show h' r = _
    have hne : r ≠ (m.resize x n).item x := by
      rcases hself with he | hge
      · rwa [he]
      · omega
    rw [eq_of_sameOutside hfoot hne, harrays r hr]

/-- A further write to the array of the object. -/
lemma Touches.write (ht : m.Touches m' x) {w : ℕ} {h' : LimbHeap}
    (hfoot : SameOutside (region (m'.item x) 0 w) m'.arrays h') :
    m.Touches { m' with arrays := h' } x where
  wellFormed := ⟨ht.wellFormed.allocated, ht.wellFormed.owned⟩
  objects := ht.objects
  free_le := ht.free_le
  item_self := ht.item_self
  item := ht.item
  count := ht.count
  arrays r hr hrx := by
    show h' r = _
    rw [eq_of_sameOutside hfoot (ht.ne_item hr hrx), ht.arrays r hr hrx]

/-- A new object leaves the others alone. -/
lemma Holds.newObject (h : m.Holds x n v) (hm : m.WellFormed) (hx : x < m.objects)
    (limbs : List Natural32) (c : ℤ) : (m.newObject limbs c).Holds x n v := by
  obtain ⟨hitem, hcount, harray⟩ := newObject_old hm limbs c hx
  have hnumber (k : ℕ) : (m.newObject limbs c).arrays.number ((m.newObject limbs c).item x) 0 k =
      m.arrays.number (m.item x) 0 k := by
    rw [hitem, LimbHeap.number, LimbHeap.number, Arrays.segment, Arrays.segment, harray]
  exact ⟨by rw [hcount]; exact h.nonneg, by rw [hcount]; exact h.count_le,
    by rw [capacity, hitem, harray]; exact h.room, by rw [hcount, hnumber]; exact h.low,
    by rw [hnumber]; exact h.number⟩

/-- The limbs above those that are counted are zero. -/
lemma Holds.upper (h : m.Holds x n v) {k : ℕ} (hk : (m.count x).toNat ≤ k) (hkn : k ≤ n) :
    m.arrays.number (m.item x) 0 k = v ∧ m.arrays.number (m.item x) k (n - k) = 0 := by
  have hroom : n ≤ (m.arrays (m.item x)).length := h.room
  obtain ⟨d, rfl⟩ := Nat.exists_eq_add_of_le hk
  obtain ⟨e, rfl⟩ := Nat.exists_eq_add_of_le hkn
  have hlow := h.low
  have hpos₁ : 0 < (2 ^ 32) ^ (m.count x).toNat := by positivity
  have hpos₂ : 0 < (2 ^ 32) ^ ((m.count x).toNat + d) := by positivity
  have hsplit₁ := m.arrays.number_add (a := m.item x) (i := 0) (m := (m.count x).toNat) (n := d)
    (by omega)
  have hsplit₂ := m.arrays.number_add (a := m.item x) (i := 0) (m := (m.count x).toNat + d)
    (n := e) (by omega)
  rw [h.number, Nat.zero_add] at hsplit₂
  rw [hlow] at hsplit₁
  have hzero : (2 ^ 32) ^ ((m.count x).toNat + d) *
      m.arrays.number (m.item x) ((m.count x).toNat + d) e = 0 := by omega
  have hupper := (Nat.mul_eq_zero.mp hzero).resolve_left hpos₂.ne'
  rw [hupper, Nat.mul_zero, Nat.add_zero] at hsplit₂
  exact ⟨hsplit₂.symm, by rw [Nat.add_sub_cancel_left]; exact hupper⟩

/-- The numbers of an object after `resize`. -/
lemma number_resize (m : IntegerXMemory) (x k l : ℕ) :
    (m.resize x k).arrays.number ((m.resize x k).item x) 0 l = m.arrays.number (m.item x) 0 l :=
  LimbHeap.number_congr fun i _ => item_resize m x k i

lemma Holds.resize (h : m.Holds x n v) (hm : m.WellFormed) (hx : x < m.objects) (k : ℕ) :
    (m.resize x k).Holds x n v := by
  obtain ⟨hext, -⟩ := extends_resize hm hx k
  exact ⟨by rw [hext.count]; exact h.nonneg, by rw [hext.count]; exact h.count_le,
    h.room.trans (hext.capacity x hx), by rw [hext.count, number_resize]; exact h.low,
    by rw [number_resize]; exact h.number⟩

/-- **The limbs of `mul_2exp`**: the product with a power of two, in one limb more if it needs it.
The operand may be the target. -/
lemma mul2expLimbs_number {wp op1 n l c : ℕ} {h : LimbHeap} (hc : c < 32) (hn : 1 ≤ n)
    (ht : n + l + 1 ≤ (h wp).length) (h₁ : n ≤ (h op1).length) :
    ∃ (e : ℕ) (h' : LimbHeap), mul2expLimbs wp op1 n l c h = some (n + l + e, h') ∧ e ≤ 1 ∧
      h'.number wp l (n + e) = h.number op1 0 n * 2 ^ c ∧
      (e = 1 → (2 ^ 32) ^ n ≤ h.number op1 0 n * 2 ^ c) ∧
      SameOutside (region wp l (n + e)) h h' := by
  by_cases hzero : c = 0
  · obtain ⟨h', hcopy, hnum, hfoot⟩ := LimbHeap.run_copyData (h := h) (t := wp) (a := op1) (i := 0)
      (j := l) (n := n) (by omega) (by omega)
    refine ⟨0, h', ?_, Nat.zero_le 1, ?_, fun he => absurd he (by decide), hfoot⟩
    · simp only [mul2expLimbs, hzero, ne_eq, not_true_eq_false, if_false, hcopy,
        Option.bind_eq_bind, Option.bind_some]
      rfl
    · rw [Nat.add_zero, hnum, hzero, pow_zero, Nat.mul_one]
  · obtain ⟨carry, g, hshift, hnum, -, hfoot⟩ := SpecialLogic.lshift_run hc.le hn
      (show l + n ≤ (h wp).length by omega) (show 0 + n ≤ (h op1).length by omega)
      fun _ => Or.inl (Nat.zero_le l)
    by_cases hcarry : carry = 0
    · rw [hcarry, SpecialArithmetic.toNat_zero_limb, Nat.mul_zero, Nat.add_zero] at hnum
      refine ⟨0, g, ?_, Nat.zero_le 1, hnum, fun he => absurd he (by decide), hfoot⟩
      · simp only [mul2expLimbs, ne_eq, hzero, not_false_eq_true, if_true, hshift, hcarry,
          Option.bind_eq_bind, Option.bind_some]
        rfl
    · obtain ⟨h', hput, htop, hfoot'⟩ := LimbHeap.run_put (h := g) (a := wp) (i := n + l)
        (by rw [hfoot.length]; omega) carry
      refine ⟨1, h', ?_, le_rfl, ?_, fun _ => ?_, hfoot.join hfoot' (by omega) (by omega)⟩
      · simp only [mul2expLimbs, ne_eq, hzero, not_false_eq_true, if_true, hshift, hcarry, hput,
          Option.bind_eq_bind, Option.bind_some]
        rfl
      · rw [h'.number_add (by rw [hfoot'.length, hfoot.length]; omega), Nat.add_comm l n, htop,
          LimbHeap.number_apart hfoot' (Apart.of_le (by omega)).symm, hnum]
      · exact (pow_le_mul_toNat hcarry n).trans (hnum ▸ Nat.le_add_left _ _)

/-- **The limbs of `bit_shift_left (1)`**: the double, whose carry becomes a further limb. -/
lemma mul2expLimbs_run {wp c : ℕ} {h : LimbHeap} (hc : 1 ≤ c) (hcn : c ≤ n)
    (hroom : c + 1 ≤ (h wp).length) (hlow : h.number wp 0 c = v)
    (hupper : h.number wp c (n - c) = 0) (hv : 2 * v < (2 ^ 32) ^ n) :
    ∃ (wsize : ℕ) (h' : LimbHeap), mul2expLimbs wp wp c 0 1 h = some (wsize, h') ∧ wsize ≤ n ∧
      h'.number wp 0 wsize = 2 * v ∧ h'.number wp 0 n = 2 * v ∧
      SameOutside (region wp 0 wsize) h h' := by
  obtain ⟨e, h', hlimbs, he, hnum, hcarry, hfoot⟩ := mul2expLimbs_number (l := 0) (c := 1)
    (show 1 < 32 by decide) hc hroom (show c ≤ (h wp).length by omega)
  rw [hlow, pow_one, Nat.mul_comm v] at hnum hcarry
  have hle : c + e ≤ n := by
    by_contra hgt
    have hce : c = n := by omega
    have := hcarry (by omega)
    rw [hce] at this
    omega
  refine ⟨c + e, h', hlimbs, hle, hnum, ?_, hfoot⟩
  obtain ⟨rest, hrest⟩ := Nat.exists_eq_add_of_le hle
  have hsplit : n - c = e + rest := by omega
  have hpos : 0 < (2 ^ 32) ^ e := by positivity
  rw [hsplit, h.number_add (by omega), Nat.add_eq_zero_iff, Nat.mul_eq_zero] at hupper
  -- the limbs behind the carry were zero and were not written
  have hzero : h'.number wp (c + e) rest = 0 := by
    rw [LimbHeap.number_apart hfoot (Apart.of_le (by omega))]
    exact hupper.2.resolve_left hpos.ne'
  rw [hrest, h'.number_add (by rw [hfoot.length]; omega), hnum, Nat.zero_add, hzero, Nat.mul_zero,
    Nat.add_zero]

/-- **`bit_shift_left (1)`**: the double. -/
lemma mul2exp_run (hm : m.WellFormed) (hx : x < m.objects) (h : m.Holds x n v)
    (hv : 2 * v < (2 ^ 32) ^ n) :
    ∃ m' : IntegerXMemory, m.mul2exp x x 1 = some m' ∧ m.Touches m' x ∧ m'.Holds x n (2 * v) := by
  by_cases hzero : m.count x = 0
  · have hlow := h.low
    rw [hzero, Int.toNat_zero, LimbHeap.number_zero] at hlow
    have hres : m.resize x 0 = m := if_neg (Nat.not_lt_zero _)
    have htouch := touches_resize hm hx 0 (w := 0) 0 (SameOutside.refl _ (m.resize x 0).arrays)
    rw [hres] at htouch
    have hcount : Function.update m.count x 0 x = 0 := Function.update_self _ _ _
    refine ⟨_, if_pos hzero, htouch, hcount.ge, ?_, h.room, ?_, ?_⟩
    · show (Function.update m.count x 0 x).toNat ≤ n
      rw [hcount]
      exact n.zero_le
    · show m.arrays.number (m.item x) 0 (Function.update m.count x 0 x).toNat = _
      rw [hcount, Int.toNat_zero, LimbHeap.number_zero, ← hlow]
    · rw [← hlow]
      exact h.number.trans hlow.symm
  · have hnonneg := h.nonneg
    obtain ⟨c, hc⟩ : ∃ c : ℕ, m.count x = c := ⟨(m.count x).toNat, by omega⟩
    obtain ⟨hext, hcap⟩ := extends_resize hm hx (c + 0 + 1)
    have hres := h.resize hm hx (c + 0 + 1)
    have htoNat : ((m.resize x (c + 0 + 1)).count x).toNat = c := by
      rw [hext.count, hc, Int.toNat_natCast]
    set r := m.resize x (c + 0 + 1) with hr
    have hroom : n ≤ (r.arrays (r.item x)).length := hres.room
    have hcn : c ≤ n := by
      have := hres.count_le
      omega
    have hupper := hres.upper (k := c) (by omega) hcn
    rw [capacity] at hcap
    obtain ⟨wsize, h', hlimbs, hle, hlow, hnum, hfoot⟩ := mul2expLimbs_run
      (show 1 ≤ c by omega) hcn (by omega) hupper.1 hupper.2 hv
    have hcount : Function.update r.count x (wsize : ℤ) x = wsize := Function.update_self _ _ _
    refine ⟨_, ?_, touches_resize hm hx (c + 0 + 1) wsize hfoot, ?_, ?_, ?_, ?_, hnum⟩
    · have habs : (m.count x).natAbs = c := by omega
      simp only [mul2exp, if_neg hzero, habs, Nat.reduceDiv, Nat.reduceMod, ← hr, hlimbs,
        List.replicate_zero, store_nil, if_pos hnonneg, Option.bind_eq_bind, Option.bind_some]
      rfl
    · exact (Int.natCast_nonneg wsize).trans_eq hcount.symm
    · show (Function.update r.count x (wsize : ℤ) x).toNat ≤ n
      rw [hcount, Int.toNat_natCast]
      exact hle
    · show n ≤ (h' (r.item x)).length
      rw [hfoot.length]
      exact hroom
    · show h'.number (r.item x) 0 (Function.update r.count x (wsize : ℤ) x).toNat = _
      rw [hcount, Int.toNat_natCast, hlow]

/-- **`bit_xor`** of two objects, the first of which is the result. -/
lemma bitXor_run {u : ℕ} (hm : m.WellFormed) (hx : x < m.objects) (hy : y < m.objects)
    (hyx : y ≠ x) (h : m.Holds x n u) (h' : m.Holds y n v) :
    ∃ m' : IntegerXMemory, m.bitXor x x y = some m' ∧ m.Touches m' x ∧
      m'.Holds x n (u ^^^ v) := by
  set k := max (m.count x).toNat (m.count y).toNat with hk
  have hkn : k ≤ n := max_le h.count_le h'.count_le
  have hroom : n ≤ (m.arrays (m.item x)).length := h.room
  have hroom' : n ≤ (m.arrays (m.item y)).length := h'.room
  have hres : m.resize x k = m := if_neg (by have := h.room; omega)
  have hne : m.item y ≠ m.item x := fun he => hyx (hm.owned y hy x hx he)
  obtain ⟨g, hxor, hnum, hfoot⟩ := SpecialLogic.bitXor_run hne
    (show 0 + max (m.count x).toNat (m.count y).toNat ≤ (m.arrays (m.item x)).length by omega)
    (show 0 + (m.count y).toNat ≤ (m.arrays (m.item y)).length by omega)
  rw [← hk, h.low, h'.low] at hnum
  rw [← hk] at hfoot
  obtain ⟨r, hr, hle, hnum', -⟩ := SpecialUtility.normalize_eq g (a := m.item x) (i := 0) (n := k)
    (by rw [hfoot.length]; omega)
  have htouch := touches_resize hm hx k r
    (show SameOutside (region ((m.resize x k).item x) 0 k) (m.resize x k).arrays g by
      rw [hres]; exact hfoot)
  rw [hres] at htouch
  have hcount : Function.update m.count x (r : ℤ) x = r := Function.update_self _ _ _
  refine ⟨_, ?_, htouch, ?_, ?_, ?_, ?_, ?_⟩
  · simp only [bitXor, if_pos (And.intro h.nonneg h'.nonneg), ← hk, hres, hxor, hr,
      Option.bind_eq_bind, Option.bind_some]
    rfl
  · exact (Int.natCast_nonneg r).trans_eq hcount.symm
  · show (Function.update m.count x (r : ℤ) x).toNat ≤ n
    rw [hcount, Int.toNat_natCast]
    exact hle.trans hkn
  · show n ≤ (g (m.item x)).length
    rw [hfoot.length]
    exact hroom
  · show g.number (m.item x) 0 (Function.update m.count x (r : ℤ) x).toNat = _
    rw [hcount, Int.toNat_natCast, hnum', hnum]
  · have hupper := (h.upper (le_max_left _ _ : _ ≤ k) hkn).2
    obtain ⟨e, he⟩ := Nat.exists_eq_add_of_le hkn
    rw [he, Nat.add_sub_cancel_left] at hupper
    show g.number (m.item x) 0 n = _
    rw [he, g.number_add (by rw [hfoot.length]; omega), hnum, Nat.zero_add,
      LimbHeap.number_apart hfoot (Apart.of_le (by omega)), hupper, Nat.mul_zero, Nat.add_zero]

end IntegerXMemory

end EiffelWeb
