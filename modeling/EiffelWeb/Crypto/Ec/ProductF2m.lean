import EiffelWeb.Crypto.Ec.SquareF2m
import EiffelWeb.Crypto.Limb.IntegerXBits
import EiffelWeb.Crypto.Limb.IntegerXLogic
import EiffelWeb.Crypto.Limb.IntegerXMul
import EiffelWeb.Loop

set_option relaxedAutoImplicit false
set_option autoImplicit false

/-!
# Products in a binary field

The routine `product` of `EC_FIELD_ELEMENT_F2M` goes through the bits of the element from the lowest
one up. It keeps the other factor, multiplied by a power of the variable and reduced, in an object
`bz` and adds it to an object `cz` for every bit that is set.

The limbs of the element are read from the array that it had before `resize`. If this array is
shorter than the field needs, the loop reads behind its end; if it is long enough, all its bits
below the degree are used, also those in limbs that the element does not count.

## Main definitions

* `EcFieldElementF2m.multZModF`, `EcFieldElementF2m.multZModFP`
* `EcFieldElementF2m.product`

## Main results

* `EcFieldElementF2m.multiplyByZ_run` — a product with the variable.
* `EcFieldElementF2m.productLoop_run`, `EcFieldElementF2m.productLoop_fails` — the loop.
* `EcFieldElementF2m.product_start` — what holds when the loop is entered.
* `EcFieldElementF2m.isProduct_iff` — when the result is the product.
-/

namespace EiffelWeb

open Limbs Arrays Polynomial

namespace IntegerXMemory

/-- `create x.make_bits (bits)`. -/
def makeBits (bits : ℕ) (m : IntegerXMemory) : IntegerXMemory :=
  m.newObject (List.replicate ((bits + (32 - 1)) / 32) 0) 0

/-- `x.copy (other)`. -/
def copy (x other : ℕ) (m : IntegerXMemory) : Option IntegerXMemory := do
  let usize := m.count other
  let size := usize.natAbs
  let m := m.resize x size
  let h ← m.arrays.copyData (m.item x) (m.item other) 0 0 size
  return { m with arrays := h, count := Function.update m.count x usize }

end IntegerXMemory

namespace EcFieldElementF2m

/-- Flipping bits one after the other, each at a position of a limb and a position in it. -/
def flipBits (special : ℕ) : List (ℕ × ℕ) → LimbHeap → Option LimbHeap
  | [], h => some h
  | (limbPosition, bitPosition) :: ks, h => do
    let h ← flipLimb special limbPosition ((1 : Natural32) <<< bitPosition) h
    flipBits special ks h

/-- What `multZModF` and `multZModF_p` have in common; `ks` are the positions of the exponents other
than zero. -/
def multZModFWith (a mLimbPosition mBitPosition : ℕ) (ks : List (ℕ × ℕ)) (m : IntegerXMemory) :
    Option IntegerXMemory := do
  let m ← m.mul2exp a a 1
  let special := m.item a
  let limb ← m.arrays.item special mLimbPosition
  if limb.getLsbD mBitPosition then do
    let h ← m.arrays.put special mLimbPosition (setBit limb false mBitPosition)
    let h ← flipLimb special 0 1 h
    let h ← flipBits special ks h
    return { m with arrays := h }
  else return m

/-- `multZModF (a, m_limb_position, m_bit_position, k1_limb_position, k1_bit_position)`. -/
def multZModF (a mLimbPosition mBitPosition k1LimbPosition k1BitPosition : ℕ) :
    IntegerXMemory → Option IntegerXMemory :=
  multZModFWith a mLimbPosition mBitPosition [(k1LimbPosition, k1BitPosition)]

/-- `multZModF_p`, for a pentanomial. -/
def multZModFP (a mLimbPosition mBitPosition k1LimbPosition k1BitPosition k2LimbPosition
    k2BitPosition k3LimbPosition k3BitPosition : ℕ) : IntegerXMemory → Option IntegerXMemory :=
  multZModFWith a mLimbPosition mBitPosition [(k1LimbPosition, k1BitPosition),
    (k2LimbPosition, k2BitPosition), (k3LimbPosition, k3BitPosition)]

/-- The call of one of them in `product`. -/
def multiplyByZ (curve : EcCurveF2m) (bz : ℕ) : IntegerXMemory → Option IntegerXMemory :=
  match curve.representation with
  | .ppb => multZModFP bz (curve.m / 32) (curve.m % 32) (curve.k1 / 32) (curve.k1 % 32)
      (curve.k2 / 32) (curve.k2 % 32) (curve.k3 / 32) (curve.k3 % 32)
  | .tpb => multZModF bz (curve.m / 32) (curve.m % 32) (curve.k1 / 32) (curve.k1 % 32)

/-- The locals of the loop of `product`, and the objects. -/
structure ProductState where
  /-- `limb_position` -/
  limbPosition : ℕ
  /-- `bit_position` -/
  bitPosition : ℕ
  /-- `limb` -/
  limb : Natural32
  /-- The objects. -/
  memory : IntegerXMemory

/-- `cz.bit_xor (bz)`, if the bit is set. -/
def ProductState.add (cz bz : ℕ) (st : ProductState) : Option IntegerXMemory :=
  if st.limb.getLsbD st.bitPosition then st.memory.bitXor cz cz bz else some st.memory

/-- The position of the next bit, and its limb. -/
def ProductState.advance (special : ℕ) (h : LimbHeap) (st : ProductState) :
    Option (ℕ × ℕ × Natural32) :=
  let newBitPosition := (st.bitPosition + 1) % 32
  if newBitPosition < st.bitPosition then do
    let limb ← h.item special (st.limbPosition + 1)
    return (st.limbPosition + 1, newBitPosition, limb)
  else some (st.limbPosition, newBitPosition, st.limb)

/-- The loop of `product`. -/
def productLoop (curve : EcCurveF2m) (special cz bz : ℕ) : Loop ProductState where
  exit st := curve.m ≤ st.limbPosition * 32 + st.bitPosition
  body st := do
    let m ← st.add cz bz
    let (limbPosition, bitPosition, limb) ← st.advance special m.arrays
    let m ← multiplyByZ curve bz m
    return ⟨limbPosition, bitPosition, limb, m⟩

/-- `product (b, curve)` for the elements with the objects `x` and `b`: the new object of the
element, and the objects. -/
def product (x b : ℕ) (curve : EcCurveF2m) (m : IntegerXMemory) : Option (ℕ × IntegerXMemory) := do
  let bz := m.objects
  let m := m.makeBits (curve.m + curve.m)
  let m ← m.copy bz b
  let special := m.item x
  let m := m.resize x (bitsToLimbs curve.m)
  let limb ← m.arrays.item special 0
  let cz := m.objects
  let m := m.makeBits (curve.m + curve.m)
  let st ← (productLoop curve special cz bz).run curve.m ⟨0, 0, limb, m⟩
  return (cz, st.memory)

/-! ## A product with the variable -/

section MultiplyByZ

variable {special n : ℕ} {h : LimbHeap}

lemma toNat_one_shiftLeft {b : ℕ} (hb : b < 32) : ((1 : Natural32) <<< b).toNat = 2 ^ b := by
  apply Nat.eq_of_testBit_eq
  intro i
  by_cases hi : i < 32
  · rw [Nat.testBit_two_pow]
    exact (getLsbD_one_shiftLeft hi).trans (decide_eq_decide.mpr eq_comm)
  · rw [Nat.testBit_two_pow, decide_eq_false (by omega)]
    exact BitVec.getLsbD_of_ge _ _ (not_lt.mp hi)

/-- The bits at the positions of exponents are flipped. -/
lemma flipBits_run {es : List ℕ} (hes : ∀ e ∈ es, e < 32 * n) (hn : n ≤ (h special).length) :
    ∃ h' : LimbHeap, flipBits special (es.map fun e => (e / 32, e % 32)) h = some h' ∧
      h'.number special 0 n = h.number special 0 n ^^^ Gf2.flips es ∧
      SameOutside (region special 0 n) h h' := by
  induction es generalizing h with
  | nil => exact ⟨h, rfl, (Nat.xor_zero _).symm, SameOutside.refl _ h⟩
  | cons e es ih =>
    have he := hes e (by simp)
    obtain ⟨g, hflip, hnum, hfoot⟩ := flipLimb_run (show e / 32 < n by omega) hn
      ((1 : Natural32) <<< (e % 32))
    obtain ⟨h', hflips, hnums, hfoots⟩ := ih (h := g) (fun d hd => hes d (by simp [hd]))
      (by rw [hfoot.length]; exact hn)
    refine ⟨h', ?_, ?_, hfoot.trans hfoots⟩
    · rw [List.map_cons, flipBits, hflip]
      exact hflips
    · have hpow : 2 ^ (e % 32) <<< (32 * (e / 32)) = 2 ^ e := by
        rw [Nat.shiftLeft_eq, ← pow_add, Nat.mod_add_div]
      rw [hnums, hnum, toNat_one_shiftLeft (Nat.mod_lt e (by decide)), hpow, Gf2.flips,
        Nat.xor_assoc]

/-- A bit that is set is cleared by flipping it. -/
lemma setBit_false {x : Natural32} {b : ℕ} (hx : x.getLsbD b = true) :
    setBit x false b = x ^^^ (1 : Natural32) <<< b := by
  apply BitVec.eq_of_getLsbD_eq
  intro i hi
  rw [getLsbD_setBit _ _ _ hi, BitVec.getLsbD_xor, getLsbD_one_shiftLeft hi]
  by_cases hib : i = b
  · rw [if_pos hib, hib, hx, decide_eq_true rfl]
    rfl
  · rw [if_neg hib, decide_eq_false hib, Bool.xor_false]

variable {d x v : ℕ} {es : List ℕ} {m : IntegerXMemory}

/-- The number is shifted, and bit `d` is cancelled. -/
lemma multZModFWith_run (hd : d % 32 ≠ 0) (hes : ∀ e ∈ es, e < d) (hm : m.WellFormed)
    (hx : x < m.objects) (h : m.Holds x (bitsToLimbs d) v) (hv : v < 2 ^ d) :
    ∃ m' : IntegerXMemory,
      multZModFWith x (d / 32) (d % 32) (es.map fun e => (e / 32, e % 32)) m = some m' ∧
        m.Touches m' x ∧ m'.Holds x (bitsToLimbs d) (cancel d 0 (0 :: es) (2 * v)) := by
  have hn : bitsToLimbs d = d / 32 + 1 := by
    rw [bitsToLimbs]
    omega
  have hlimb : d / 32 < bitsToLimbs d := by omega
  have hbits : 2 * v < (2 ^ 32) ^ bitsToLimbs d := by
    have hpow : 2 ^ (d + 1) ≤ (2 ^ 32) ^ bitsToLimbs d := by
      rw [← pow_mul]
      exact Nat.pow_le_pow_right two_pos (by omega)
    rw [pow_succ] at hpow
    omega
  obtain ⟨m₁, hshift, htouch, hholds⟩ := IntegerXMemory.mul2exp_run hm hx h hbits
  have hroom : bitsToLimbs d ≤ (m₁.arrays (m₁.item x)).length := hholds.room
  obtain ⟨limb, hitem, -⟩ := LimbHeap.exists_limb (h := m₁.arrays) (a := m₁.item x) (i := d / 32)
    (by omega)
  have hbit : (2 * v).testBit (d + 0) = limb.getLsbD (d % 32) := by
    rw [← hholds.number, ← LimbHeap.getLsbD_item hitem hlimb (Nat.mod_lt d (by decide)),
      Nat.div_add_mod, Nat.add_zero]
  rw [cancel, hbit]
  by_cases hset : limb.getLsbD (d % 32) = true
  · obtain ⟨g, hput, -, hfoot⟩ := LimbHeap.run_put (h := m₁.arrays) (a := m₁.item x) (i := d / 32)
      (by omega) (setBit limb false (d % 32))
    have hput' := hput
    rw [setBit_false hset] at hput'
    have hclear := LimbHeap.number_put_xor hitem hput' hlimb
    rw [toNat_one_shiftLeft (Nat.mod_lt d (by decide)), hholds.number, Nat.shiftLeft_eq, ← pow_add,
      Nat.mod_add_div] at hclear
    have hpos : ∀ e ∈ 0 :: es, e < 32 * bitsToLimbs d := by
      intro e he
      rcases List.mem_cons.mp he with rfl | he
      · omega
      · have := hes e he
        omega
    obtain ⟨h', hflips, hnum, hfoot'⟩ := flipBits_run hpos
      (show bitsToLimbs d ≤ (g (m₁.item x)).length by rw [hfoot.length]; exact hroom)
    have hwhole : SameOutside (region (m₁.item x) 0 (bitsToLimbs d)) m₁.arrays h' := by
      refine (hfoot.mono fun b k hk => ⟨hk.1, Nat.zero_le _, ?_⟩).trans hfoot'
      have := hk.2
      omega
    have hcount : (m₁.count x).toNat = bitsToLimbs d := by
      -- bit `d` is set, so the highest limb is counted
      refine le_antisymm hholds.count_le ?_
      by_contra hlt
      have hlow := hholds.low
      have hbit' : (2 * v).testBit d = false := by
        rw [← hlow, LimbHeap.testBit_number, decide_eq_false (by omega), Bool.false_and]
      rw [Nat.add_zero, hbit', hset] at hbit
      exact absurd hbit Bool.false_ne_true
    rw [hclear] at hnum
    rw [if_pos hset, Nat.add_zero, List.map_congr_left fun e _ => Nat.add_zero e, List.map_id']
    refine ⟨{ m₁ with arrays := h' }, ?_, htouch.write hwhole, hholds.nonneg, hholds.count_le, ?_,
      ?_, hnum⟩
    · have hone : flipLimb (m₁.item x) 0 1 g = flipLimb (m₁.item x) 0 ((1 : Natural32) <<< 0) g :=
        rfl
      simp only [multZModFWith, hshift, hitem, hset, hput, Option.bind_eq_bind, Option.bind_some,
        if_true]
      rw [hone, ← Option.bind_assoc]
      have hall : (flipLimb (m₁.item x) 0 ((1 : Natural32) <<< 0) g).bind
          (flipBits (m₁.item x) (es.map fun e => (e / 32, e % 32))) = some h' := hflips
      rw [hall]
      rfl
    · show bitsToLimbs d ≤ (h' (m₁.item x)).length
      rw [hwhole.length]
      exact hroom
    · show h'.number (m₁.item x) 0 (m₁.count x).toNat = _
      rw [hcount]
      exact hnum
  · rw [if_neg hset]
    refine ⟨m₁, ?_, htouch, hholds⟩
    simp only [multZModFWith, hshift, hitem, Option.bind_eq_bind, Option.bind_some, if_neg hset]
    rfl

variable {curve : EcCurveF2m}

/-- **A product with the variable**: the class is multiplied, and the number of bits is kept. -/
lemma multiplyByZ_run (hd : curve.m % 32 ≠ 0) (hes : ∀ e ∈ curve.exponents, e < curve.m)
    (hm : m.WellFormed) (hx : x < m.objects) (h : m.Holds x (bitsToLimbs curve.m) v)
    (hv : v < 2 ^ curve.m) :
    ∃ (m' : IntegerXMemory) (v' : ℕ), multiplyByZ curve x m = some m' ∧ m.Touches m' x ∧
      m'.Holds x (bitsToLimbs curve.m) v' ∧ v' < 2 ^ curve.m ∧
      curve.fieldPolynomial ∣ Gf2.ofBits v' - X * Gf2.ofBits v := by
  obtain ⟨ks, hks, hmult⟩ : ∃ ks : List ℕ, curve.exponents = 0 :: ks ∧
      multiplyByZ curve x =
        multZModFWith x (curve.m / 32) (curve.m % 32) (ks.map fun e => (e / 32, e % 32)) := by
    rw [multiplyByZ, EcCurveF2m.exponents]
    cases curve.representation
    · exact ⟨_, rfl, rfl⟩
    · exact ⟨_, rfl, rfl⟩
  obtain ⟨m', hrun, htouch, hholds⟩ := multZModFWith_run hd
    (show ∀ e ∈ ks, e < curve.m from fun e he =>
      hes e (by rw [hks]; exact List.mem_cons_of_mem 0 he)) hm hx h hv
  rw [← hks] at hholds
  refine ⟨m', _, by rw [hmult]; exact hrun, htouch, hholds, ?_, ?_⟩
  · apply Nat.lt_pow_two_of_testBit
    intro j hj
    refine testBit_cancel_high hes (fun i hi => ?_) hj
    have hlt : 2 * v < 2 ^ i := by
      have hpow := Nat.pow_le_pow_right two_pos (show curve.m + 1 ≤ i from hi)
      rw [pow_succ] at hpow
      omega
    exact Nat.testBit_lt_two_pow hlt
  · have hdouble : Gf2.ofBits (2 * v) = X * Gf2.ofBits v := by
      rw [← pow_one X, ← Gf2.ofBits_shiftLeft, Nat.shiftLeft_eq, pow_one, Nat.mul_comm]
    rw [curve.fieldPolynomial_eq, ← hdouble]
    exact dvd_cancel (2 * v)

end MultiplyByZ

/-! ## The loop -/

section ProductLoop

variable {curve : EcCurveF2m} {special bz cz t b : ℕ} {h₀ : LimbHeap} {st : ProductState}

/-- The objects of the loop and the array that is read. -/
structure Ready (special bz cz : ℕ) (h₀ : LimbHeap) (m : IntegerXMemory) : Prop where
  /-- Every object has an array of its own. -/
  wellFormed : m.WellFormed
  /-- The object with the other factor. -/
  bz_lt : bz < m.objects
  /-- The object with the sum. -/
  cz_lt : cz < m.objects
  /-- They are different. -/
  ne : bz ≠ cz
  /-- The array is not given up. -/
  special_lt : special < m.free
  /-- It is not that of the factor. -/
  special_bz : special ≠ m.item bz
  /-- It is not that of the sum. -/
  special_cz : special ≠ m.item cz
  /-- The array is not written. -/
  special : m.arrays special = h₀ special

/-- Both objects may be worked on. -/
lemma Ready.touches {m m' : IntegerXMemory} {x : ℕ} (h : Ready special bz cz h₀ m)
    (ht : m.Touches m' x) (hx : x = bz ∨ x = cz) : Ready special bz cz h₀ m' := by
  have hne : special ≠ m.item x := by
    rcases hx with rfl | rfl
    · exact h.special_bz
    · exact h.special_cz
  have hitem (y : ℕ) (hy : special ≠ m.item y) : special ≠ m'.item y := by
    by_cases hyx : y = x
    · rw [hyx]
      exact ht.ne_item h.special_lt hne
    · rw [ht.item y hyx]
      exact hy
  exact ⟨ht.wellFormed, by rw [ht.objects]; exact h.bz_lt, by rw [ht.objects]; exact h.cz_lt, h.ne,
    h.special_lt.trans_le ht.free_le, hitem bz h.special_bz, hitem cz h.special_cz,
    by rw [ht.arrays _ h.special_lt hne]; exact h.special⟩

/-- What holds at the head of the loop before bit `t`: `bz` holds the other factor multiplied by a
power of the variable, `cz` the product with the bits before. -/
structure ProductState.Holds (curve : EcCurveF2m) (special bz cz b : ℕ) (h₀ : LimbHeap) (t : ℕ)
    (st : ProductState) : Prop where
  /-- The limb. -/
  limbPosition : st.limbPosition = t / 32
  /-- The place in the limb. -/
  bitPosition : st.bitPosition = t % 32
  /-- The limb that is read. -/
  limb : h₀.item special (t / 32) = some st.limb
  /-- The objects. -/
  ready : Ready special bz cz h₀ st.memory
  /-- The other factor. -/
  factor : ∃ v, st.memory.Holds bz (bitsToLimbs curve.m) v ∧ v < 2 ^ curve.m ∧
    curve.fieldPolynomial ∣ Gf2.ofBits v - X ^ t * Gf2.ofBits b
  /-- The sum. -/
  sum : ∃ v, st.memory.Holds cz (bitsToLimbs curve.m) v ∧ v < 2 ^ curve.m ∧
    curve.fieldPolynomial ∣ Gf2.ofBits v -
      Gf2.ofBits (h₀.number special 0 (bitsToLimbs curve.m) % 2 ^ t) * Gf2.ofBits b

/-- The other factor is added if the bit is set. -/
lemma ProductState.Holds.add (h : st.Holds curve special bz cz b h₀ t) (ht : t < curve.m) :
    ∃ m' : IntegerXMemory, st.add cz bz = some m' ∧ st.memory.Touches m' cz ∧
      ∃ v, m'.Holds cz (bitsToLimbs curve.m) v ∧ v < 2 ^ curve.m ∧
        curve.fieldPolynomial ∣ Gf2.ofBits v -
          Gf2.ofBits (h₀.number special 0 (bitsToLimbs curve.m) % 2 ^ (t + 1)) * Gf2.ofBits b := by
  obtain ⟨u, hu, hult, hudvd⟩ := h.factor
  obtain ⟨v, hv, hvlt, hvdvd⟩ := h.sum
  have hready := h.ready
  have hbit : (h₀.number special 0 (bitsToLimbs curve.m)).testBit t =
      st.limb.getLsbD st.bitPosition := by
    rw [h.bitPosition, ← LimbHeap.getLsbD_item h.limb (n := bitsToLimbs curve.m)
      (by rw [bitsToLimbs]; omega) (Nat.mod_lt t (by decide)), Nat.div_add_mod]
  rw [ProductState.add, Gf2.ofBits_mod_succ, hbit]
  by_cases hset : st.limb.getLsbD st.bitPosition = true
  · obtain ⟨m', hxor, htouch, hholds⟩ := IntegerXMemory.bitXor_run hready.wellFormed hready.cz_lt
      hready.bz_lt hready.ne hv hu
    refine ⟨m', by rw [if_pos hset, hxor], htouch, v ^^^ u, hholds,
      Nat.xor_lt_two_pow hvlt hult, ?_⟩
    have hsum := dvd_add hvdvd hudvd
    rw [if_pos hset, Gf2.ofBits_xor]
    convert hsum using 1
    ring
  · refine ⟨st.memory, by rw [if_neg hset], .refl hready.wellFormed cz, v, hv, hvlt, ?_⟩
    rw [if_neg hset, add_zero]
    exact hvdvd

/-- The next bit is read from the array, if it is there. -/
lemma ProductState.Holds.advance (h : st.Holds curve special bz cz b h₀ t) {g : LimbHeap}
    (hg : g special = h₀ special) :
    if (t + 1) / 32 < (h₀ special).length then
      ∃ limb : Natural32, st.advance special g = some ((t + 1) / 32, (t + 1) % 32, limb) ∧
        h₀.item special ((t + 1) / 32) = some limb
    else st.advance special g = none := by
  have hitem (i : ℕ) : g.item special i = h₀.item special i := by
    rw [Arrays.item, Arrays.item, hg]
  have hlt : t / 32 < (h₀ special).length := (List.getElem?_eq_some_iff.mp h.limb).1
  by_cases hlast : t % 32 = 31
  · have hpos : (t % 32 + 1) % 32 < t % 32 := by omega
    have hdiv : t / 32 + 1 = (t + 1) / 32 := by omega
    have hmod : (t % 32 + 1) % 32 = (t + 1) % 32 := by omega
    rw [ProductState.advance, h.bitPosition, h.limbPosition, if_pos hpos, hitem, hdiv, hmod]
    split
    case isTrue hlen =>
      obtain ⟨limb, hlimb, -⟩ := LimbHeap.exists_limb (h := h₀) (a := special) hlen
      exact ⟨limb, by rw [hlimb]; rfl, hlimb⟩
    case isFalse hlen =>
      have hnone : h₀.item special ((t + 1) / 32) = none := List.getElem?_eq_none (not_lt.mp hlen)
      rw [hnone]
      rfl
  · have hpos : ¬(t % 32 + 1) % 32 < t % 32 := by omega
    have hdiv : t / 32 = (t + 1) / 32 := by omega
    have hmod : (t % 32 + 1) % 32 = (t + 1) % 32 := by omega
    have hlimb := h.limb
    rw [hdiv] at hlimb hlt
    rw [ProductState.advance, h.bitPosition, h.limbPosition, if_neg hpos, if_pos hlt, hmod, hdiv]
    exact ⟨st.limb, rfl, hlimb⟩

/-- **One bit.** It fails if the next one is not in the array. -/
lemma productLoop_step (hd : curve.m % 32 ≠ 0) (hes : ∀ e ∈ curve.exponents, e < curve.m)
    (h : st.Holds curve special bz cz b h₀ t) (ht : t < curve.m) :
    if (t + 1) / 32 < (h₀ special).length then
      ∃ st' : ProductState, (productLoop curve special cz bz).body st = some st' ∧
        st'.Holds curve special bz cz b h₀ (t + 1)
    else (productLoop curve special cz bz).body st = none := by
  obtain ⟨m₁, hadd, htouch, hsum⟩ := h.add ht
  have hready := h.ready
  have hready₁ := hready.touches htouch (Or.inr rfl)
  obtain ⟨u, hu, hult, hudvd⟩ := h.factor
  have hu₁ := htouch.holds hready.wellFormed hready.cz_lt hready.bz_lt hready.ne hu
  have hadvance := h.advance hready₁.special
  split
  case isTrue hlen =>
    rw [if_pos hlen] at hadvance
    obtain ⟨limb, hnext, hlimb⟩ := hadvance
    obtain ⟨m₂, v, hmult, htouch₂, hv, hvlt, hvdvd⟩ := multiplyByZ_run hd hes hready₁.wellFormed
      hready₁.bz_lt hu₁ hult
    obtain ⟨w, hw, hwlt, hwdvd⟩ := hsum
    refine ⟨⟨(t + 1) / 32, (t + 1) % 32, limb, m₂⟩, ?_, rfl, rfl, hlimb,
      hready₁.touches htouch₂ (Or.inl rfl), ⟨v, hv, hvlt, ?_⟩,
      ⟨w, htouch₂.holds hready₁.wellFormed hready₁.bz_lt hready₁.cz_lt hready.ne.symm hw, hwlt,
        hwdvd⟩⟩
    · simp only [productLoop, hadd, hnext, hmult, Option.bind_eq_bind, Option.bind_some]
      rfl
    · have hsum := dvd_add hvdvd (hudvd.mul_left X)
      convert hsum using 1
      ring
  case isFalse hlen =>
    rw [if_neg hlen] at hadvance
    simp only [productLoop, hadd, hadvance, Option.bind_eq_bind, Option.bind_some,
      Option.bind_none]

lemma ProductState.Holds.exit_iff (h : st.Holds curve special bz cz b h₀ t) :
    (productLoop curve special cz bz).exit st = decide (curve.m ≤ t) := by
  have hpos : st.limbPosition * 32 + st.bitPosition = t := by
    rw [h.limbPosition, h.bitPosition]
    omega
  show decide (curve.m ≤ st.limbPosition * 32 + st.bitPosition) = _
  rw [hpos]

/-- **The loop** over an array that is long enough. -/
lemma productLoop_run (hd : curve.m % 32 ≠ 0) (hes : ∀ e ∈ curve.exponents, e < curve.m)
    (hlen : bitsToLimbs curve.m ≤ (h₀ special).length)
    (h : st.Holds curve special bz cz b h₀ 0) :
    ∃ st' : ProductState, (productLoop curve special cz bz).run curve.m st = some st' ∧
      st'.Holds curve special bz cz b h₀ curve.m := by
  have hpos (st : ProductState) (t : ℕ) (h : st.Holds curve special bz cz b h₀ t) :
      32 * st.limbPosition + st.bitPosition = t := by
    rw [h.limbPosition, h.bitPosition, Nat.div_add_mod]
  obtain ⟨st', hrun, ⟨t, ht, h'⟩, hexit⟩ := Loop.run_of_variant
    (l := productLoop curve special cz bz) (n := curve.m) (s := st)
    (fun st => ∃ t ≤ curve.m, st.Holds curve special bz cz b h₀ t)
    (fun st => curve.m - (32 * st.limbPosition + st.bitPosition))
    (fun st ⟨t, ht, h⟩ hexit => by
      rw [h.exit_iff] at hexit
      have hlt := of_decide_eq_false hexit
      have hnext : (t + 1) / 32 < (h₀ special).length := by
        rw [bitsToLimbs] at hlen
        omega
      have hstep := productLoop_step hd hes h (by omega)
      rw [if_pos hnext] at hstep
      obtain ⟨st', hbody, h'⟩ := hstep
      refine ⟨st', hbody, ⟨t + 1, by omega, h'⟩, ?_⟩
      rw [hpos st t h, hpos st' (t + 1) h']
      omega)
    ⟨0, Nat.zero_le _, h⟩ (Nat.sub_le _ _)
  rw [h'.exit_iff] at hexit
  obtain rfl : t = curve.m := le_antisymm ht (of_decide_eq_true hexit)
  exact ⟨st', hrun, h'⟩

/-- **The loop** over an array that is too short reads behind its end. -/
lemma productLoop_fails (hd : curve.m % 32 ≠ 0) (hes : ∀ e ∈ curve.exponents, e < curve.m)
    (hlen : (h₀ special).length < bitsToLimbs curve.m)
    (h : st.Holds curve special bz cz b h₀ 0) (n : ℕ) :
    (productLoop curve special cz bz).run n st = none := by
  have hnot := Loop.not_terminates_of_invariant (l := productLoop curve special cz bz) (s := st)
    (fun st => ∃ t, t / 32 < (h₀ special).length ∧ st.Holds curve special bz cz b h₀ t)
    (fun st ⟨t, ht, h⟩ => by
      rw [bitsToLimbs] at hlen
      have hlt : t < curve.m := by omega
      have hstep := productLoop_step hd hes h hlt
      refine ⟨by rw [h.exit_iff, decide_eq_false (not_le.mpr hlt)], fun st' hbody => ?_⟩
      split at hstep
      case isTrue hnext =>
        obtain ⟨st'', hbody', h'⟩ := hstep
        rw [hbody, Option.some.injEq] at hbody'
        exact ⟨t + 1, hnext, hbody' ▸ h'⟩
      case isFalse => cases hbody.symm.trans hstep)
    ⟨0, (List.getElem?_eq_some_iff.mp h.limb).1, h⟩
  by_contra hsome
  exact hnot ⟨n, Option.isSome_iff_ne_none.mpr hsome⟩

end ProductLoop

/-! ## The routine -/

section Product

variable {x y n v : ℕ} {m : IntegerXMemory}

/-- A new object holds zero. -/
lemma holds_makeBits {bits : ℕ} (hn : n ≤ (bits + (32 - 1)) / 32) :
    (m.makeBits bits).Holds m.objects n 0 := by
  have harray := IntegerXMemory.newObject_item (m := m)
    (List.replicate ((bits + (32 - 1)) / 32) (0 : Natural32)) 0
  have hcount : (m.makeBits bits).count m.objects = 0 := IntegerXMemory.newObject_count _ _
  have hnumber (k : ℕ) :
      (m.makeBits bits).arrays.number ((m.makeBits bits).item m.objects) 0 k = 0 := by
    have hzero : (m.makeBits bits).arrays.segment ((m.makeBits bits).item m.objects) 0 k =
        List.replicate (min k ((bits + (32 - 1)) / 32)) 0 := by
      rw [Arrays.segment, IntegerXMemory.makeBits, harray, Special.slice, List.drop_zero,
        List.take_replicate]
    rw [LimbHeap.number, hzero, value_replicate_zero]
  refine ⟨hcount.ge, ?_, ?_, hnumber _, hnumber n⟩
  · rw [hcount]
    exact n.zero_le
  · rw [IntegerXMemory.capacity, IntegerXMemory.makeBits, harray, List.length_replicate]
    exact hn

/-- **`copy`** to an object that has room and holds zero. -/
lemma copy_run (hm : m.WellFormed) (hx : x < m.objects) (h : m.Holds x n 0)
    (hnonneg : 0 ≤ m.count y) (hroom : (m.count y).natAbs ≤ m.capacity y)
    (hcount : (m.count y).natAbs ≤ n) :
    ∃ m' : IntegerXMemory, m.copy x y = some m' ∧ m.Touches m' x ∧
      m'.Holds x n (m.magnitude y) := by
  obtain ⟨c, hc⟩ := Int.eq_ofNat_of_zero_le hnonneg
  have hroom' : n ≤ (m.arrays (m.item x)).length := h.room
  have hres : m.resize x c = m := if_neg (by have := h.room; omega)
  rw [IntegerXMemory.capacity] at hroom
  obtain ⟨g, hcopy, hnum, hfoot⟩ := LimbHeap.run_copyData (h := m.arrays) (t := m.item x)
    (a := m.item y) (i := 0) (j := 0) (n := c) (by omega) (by omega)
  have htouch := IntegerXMemory.touches_resize hm hx c (c : ℤ) (by rw [hres]; exact hfoot)
  rw [hres] at htouch
  have habs : (m.count y).natAbs = c := by omega
  have hself : Function.update m.count x (c : ℤ) x = c := Function.update_self _ _ _
  have hmag : m.magnitude y = m.arrays.number (m.item y) 0 c := by
    rw [IntegerXMemory.magnitude, habs]
  rw [hmag]
  refine ⟨_, ?_, htouch, ?_, ?_, ?_, ?_, ?_⟩
  · simp only [IntegerXMemory.copy, hc, Int.natAbs_natCast, hres, hcopy, Option.bind_eq_bind,
      Option.bind_some]
    rfl
  · exact (Int.natCast_nonneg c).trans_eq hself.symm
  · show (Function.update m.count x (c : ℤ) x).toNat ≤ n
    rw [hself, Int.toNat_natCast]
    omega
  · show n ≤ (g (m.item x)).length
    rw [hfoot.length]
    exact hroom'
  · show g.number (m.item x) 0 (Function.update m.count x (c : ℤ) x).toNat = _
    rw [hself, Int.toNat_natCast, hnum]
  · obtain ⟨e, he⟩ := Nat.exists_eq_add_of_le (show c ≤ n by omega)
    have hzero := h.number
    have hpos : 0 < (2 ^ 32) ^ c := by positivity
    rw [he, m.arrays.number_add (by omega), Nat.add_eq_zero_iff, Nat.mul_eq_zero] at hzero
    show g.number (m.item x) 0 n = _
    rw [he, g.number_add (by rw [hfoot.length]; omega), hnum, Nat.zero_add,
      LimbHeap.number_apart hfoot (Apart.of_le (by omega)), ← Nat.zero_add c,
      hzero.2.resolve_left hpos.ne', Nat.mul_zero, Nat.add_zero]

/-- The bits below bit `d` in the limbs that an object does not count. -/
def unusedBits (m : IntegerXMemory) (x d : ℕ) : ℕ :=
  (m.arrays.number (m.item x) 0 (bitsToLimbs d) % 2 ^ d) >>> (32 * (m.count x).natAbs) <<<
    (32 * (m.count x).natAbs)

/-- The bits that the loop reads are those of the element and those that it does not count. -/
lemma number_mod_eq_xor {d : ℕ} (hx : m.magnitude x < 2 ^ d) :
    m.arrays.number (m.item x) 0 (bitsToLimbs d) % 2 ^ d =
      m.magnitude x ^^^ unusedBits m x d := by
  apply Nat.eq_of_testBit_eq
  intro j
  rw [Nat.testBit_xor, unusedBits, Nat.testBit_shiftLeft, Nat.testBit_shiftRight,
    Nat.testBit_mod_two_pow, Nat.testBit_mod_two_pow]
  have hmag : (m.magnitude x).testBit j = (decide (j / 32 < (m.count x).natAbs) &&
      ((m.arrays.item (m.item x) (j / 32)).getD 0).getLsbD (j % 32)) :=
    LimbHeap.testBit_number _ _ _ _
  by_cases hj : 32 * (m.count x).natAbs ≤ j
  · have hfalse : (m.magnitude x).testBit j = false := by
      rw [hmag, decide_eq_false (by omega), Bool.false_and]
    rw [hfalse, Bool.false_xor, decide_eq_true hj, Bool.true_and, Nat.add_sub_cancel' hj]
  · rw [decide_eq_false hj, Bool.false_and, Bool.xor_false]
    by_cases hd : j < d
    · have hlimb : j / 32 < bitsToLimbs d := by
        rw [bitsToLimbs]
        omega
      rw [hmag, LimbHeap.testBit_number, decide_eq_true hd, decide_eq_true hlimb,
        decide_eq_true (by omega), Bool.true_and]
    · have hfalse : (m.magnitude x).testBit j = false :=
        Nat.testBit_lt_two_pow (hx.trans_le (Nat.pow_le_pow_right two_pos (not_lt.mp hd)))
      rw [hfalse, decide_eq_false hd, Bool.false_and]

variable {curve : EcCurveF2m} {b : ℕ}

/-- **The start of the loop**, if the array of the element has a limb. -/
lemma product_start (hm : m.WellFormed) (hx : x < m.objects) (hb : b < m.objects)
    (hbn : m.Normalised b) (hbpos : 0 ≤ m.count b) (hbdeg : m.magnitude b < 2 ^ curve.m) :
    ∃ (m₁ m₂ : IntegerXMemory),
      (m.makeBits (curve.m + curve.m)).copy m.objects b = some m₁ ∧ m₁.item x = m.item x ∧
        (m₁.resize x (bitsToLimbs curve.m)).arrays (m.item x) = m.arrays (m.item x) ∧
        m₂ = (m₁.resize x (bitsToLimbs curve.m)).makeBits (curve.m + curve.m) ∧
        ∀ limb : Natural32, m.arrays.item (m.item x) 0 = some limb →
          ProductState.Holds curve (m.item x) m.objects
            (m₁.resize x (bitsToLimbs curve.m)).objects (m.magnitude b) m.arrays 0
            ⟨0, 0, limb, m₂⟩ := by
  have hlimbs : bitsToLimbs curve.m ≤ (curve.m + curve.m + (32 - 1)) / 32 := by
    rw [bitsToLimbs]
    omega
  -- the copy of the other factor
  have hwf := IntegerXMemory.wellFormed_newObject hm
    (List.replicate ((curve.m + curve.m + (32 - 1)) / 32) 0) 0
  obtain ⟨hbitem, hbcount, hbarray⟩ := IntegerXMemory.newObject_old hm
    (List.replicate ((curve.m + curve.m + (32 - 1)) / 32) 0) 0 hb
  obtain ⟨hxitem, -, hxarray⟩ := IntegerXMemory.newObject_old hm
    (List.replicate ((curve.m + curve.m + (32 - 1)) / 32) 0) 0 hx
  have hmag : (m.makeBits (curve.m + curve.m)).magnitude b = m.magnitude b := by
    rw [IntegerXMemory.magnitude, IntegerXMemory.makeBits, hbitem, hbcount,
      IntegerXMemory.magnitude,
      LimbHeap.number, LimbHeap.number, Arrays.segment, Arrays.segment, hbarray]
  obtain ⟨m₁, hcopy, htouch, hholds⟩ := copy_run (m := m.makeBits (curve.m + curve.m))
    (x := m.objects) (y := b) hwf (Nat.lt_succ_self _)
    (holds_makeBits hlimbs) (hbcount.ge.trans' hbpos)
    (by
      rw [IntegerXMemory.capacity, IntegerXMemory.makeBits, hbcount, hbitem, hbarray]
      exact hbn.count_le)
    (by
      rw [IntegerXMemory.makeBits, hbcount]
      exact count_le_bitsToLimbs hbn hbdeg)
  rw [hmag] at hholds
  have hitem₁ : m₁.item x = m.item x := (htouch.item x hx.ne).trans hxitem
  have hlt : m.item x < m.free := hm.allocated x hx
  have hself : (m.makeBits (curve.m + curve.m)).item m.objects = m.free :=
    Function.update_self _ _ _
  have harray₁ : m₁.arrays (m.item x) = m.arrays (m.item x) :=
    (htouch.arrays _ (hlt.trans (Nat.lt_succ_self _)) (by rw [hself]; exact hlt.ne)).trans hxarray
  have hobj₁ : m₁.objects = m.objects + 1 := htouch.objects
  have hfree₁ : m.item x < m₁.free := (hlt.trans (Nat.lt_succ_self _)).trans_le htouch.free_le
  -- room for the element
  obtain ⟨hext, -⟩ := IntegerXMemory.extends_resize htouch.wellFormed (x := x) (by omega)
    (bitsToLimbs curve.m)
  obtain ⟨hfree₂, -, hitem₂, harrays₂⟩ :=
    IntegerXMemory.resize_keeps m₁ x (bitsToLimbs curve.m)
  have htouch₂ := IntegerXMemory.touches_resize htouch.wellFormed (x := x) (by omega)
    (bitsToLimbs curve.m) (w := 0) (m₁.count x) (SameOutside.refl _ _)
  rw [← hext.count, Function.update_eq_self] at htouch₂
  have hholds₂ := htouch₂.holds htouch.wellFormed (by omega) (by omega) hx.ne' hholds
  set r := m₁.resize x (bitsToLimbs curve.m) with hr
  have hobj₂ : m.objects < r.objects := by
    rw [hext.objects, hobj₁]
    exact Nat.lt_succ_self _
  have hwf₃ := IntegerXMemory.wellFormed_newObject hext.wellFormed
    (List.replicate ((curve.m + curve.m + (32 - 1)) / 32) 0) 0
  obtain ⟨hzitem, -, -⟩ := IntegerXMemory.newObject_old hext.wellFormed
    (List.replicate ((curve.m + curve.m + (32 - 1)) / 32) 0) 0 hobj₂
  have hspecial : m.item x < r.free := hfree₁.trans_le hfree₂
  refine ⟨m₁, _, hcopy, hitem₁, (harrays₂ _ hfree₁).trans harray₁, rfl, fun limb hlimb =>
    ⟨rfl, rfl, hlimb, ⟨hwf₃, hobj₂.trans (Nat.lt_succ_self _), Nat.lt_succ_self _, hobj₂.ne,
      hspecial.trans (Nat.lt_succ_self _),
      ?_, ?_, ?_⟩, ⟨m.magnitude b, ?_, hbdeg, ?_⟩, ⟨0, holds_makeBits hlimbs, by positivity, ?_⟩⟩⟩
  · show m.item x ≠ (r.newObject _ 0).item m.objects
    rw [hzitem, hitem₂ _ hx.ne']
    rcases htouch.item_self with he | hge
    · rw [he, hself]
      exact hlt.ne
    · have hge' : m.free + 1 ≤ m₁.item m.objects := hge
      omega
  · have hzself : (r.makeBits (curve.m + curve.m)).item r.objects = r.free :=
      Function.update_self _ _ _
    rw [hzself]
    exact hspecial.ne
  · show Function.update r.arrays r.free _ (m.item x) = _
    rw [Function.update_of_ne hspecial.ne, harrays₂ _ hfree₁, harray₁]
  · exact hholds₂.newObject hext.wellFormed hobj₂ _ _
  · rw [pow_zero, one_mul, sub_self]
    exact dvd_zero _
  · rw [pow_zero, Nat.mod_one, Gf2.ofBits_zero, zero_mul, sub_self]
    exact dvd_zero _

/-- `product` returns, and its result is the product modulo the field polynomial. -/
def IsProduct (x b : ℕ) (curve : EcCurveF2m) (m : IntegerXMemory) : Prop :=
  ∃ (z : ℕ) (m' : IntegerXMemory) (v : ℕ), product x b curve m = some (z, m') ∧ m'.value z = v ∧
    Gf2.ofBits v = Gf2.ofBits (m.value x).toNat * Gf2.ofBits (m.value b).toNat %
      curve.fieldPolynomial

/-- **`product`** is right if and only if the array of the element is long enough and the bits that
the element does not count make no difference.

**Proof sketch.** The loop returns exactly if the array is long enough. Its result is then the
product of `b` with all the bits of the array below bit `m`. -/
theorem isProduct_iff (curve : EcCurveF2m) (hks : max curve.k1 (max curve.k2 curve.k3) < curve.m)
    (hd : curve.m % 32 ≠ 0) (m : IntegerXMemory) (hm : m.WellFormed) (x b : ℕ)
    (hx : x < m.objects) (hb : b < m.objects) (hbn : m.Normalised b)
    (hxpos : 0 ≤ m.value x) (hbpos : 0 ≤ m.value b)
    (hxdeg : (Gf2.ofBits (m.value x).toNat).degree < curve.m)
    (hbdeg : (Gf2.ofBits (m.value b).toNat).degree < curve.m) :
    IsProduct x b curve m ↔ bitsToLimbs curve.m ≤ m.capacity x ∧
      curve.fieldPolynomial ∣
        Gf2.ofBits (unusedBits m x curve.m) * Gf2.ofBits (m.value b).toNat := by
  have hes : ∀ e ∈ curve.exponents, e < curve.m := by
    intro e he
    rw [EcCurveF2m.exponents] at he
    cases hrep : curve.representation <;> rw [hrep] at he <;> simp at he <;> omega
  have hxmag : (m.value x).toNat = m.magnitude x := by
    have := IntegerXMemory.magnitude_eq_value hxpos
    omega
  have hbmag : (m.value b).toNat = m.magnitude b := by
    have := IntegerXMemory.magnitude_eq_value hbpos
    omega
  rw [hxmag] at hxdeg
  rw [hbmag] at hbdeg ⊢
  have hxlt := (Gf2.degree_ofBits_lt_iff _ _).mp hxdeg
  have hblt := (Gf2.degree_ofBits_lt_iff _ _).mp hbdeg
  obtain ⟨m₁, m₂, hcopy, hitem, hold, hm₂, hstart⟩ := product_start hm hx hb hbn
    (not_lt.mp (mt hbn.value_neg_iff.mpr (not_lt.mpr hbpos))) hblt
  have hread : (m₁.resize x (bitsToLimbs curve.m)).arrays.item (m.item x) 0 =
      m.arrays.item (m.item x) 0 := by
    rw [Arrays.item, Arrays.item, hold]
  have hlimbs : 0 < bitsToLimbs curve.m := by
    rw [bitsToLimbs]
    omega
  have hrun : product x b curve m = (m.arrays.item (m.item x) 0).bind fun limb =>
      ((productLoop curve (m.item x) (m₁.resize x (bitsToLimbs curve.m)).objects m.objects).run
        curve.m ⟨0, 0, limb, m₂⟩).bind fun st =>
          some ((m₁.resize x (bitsToLimbs curve.m)).objects, st.memory) := by
    simp only [product, hcopy, Option.bind_eq_bind, Option.bind_some, hitem, hread, hm₂]
    rfl
  by_cases hlen : bitsToLimbs curve.m ≤ m.capacity x
  · obtain ⟨limb, hlimb, -⟩ := LimbHeap.exists_limb (h := m.arrays) (a := m.item x) (i := 0)
      (hlimbs.trans_le hlen)
    obtain ⟨st, hloop, hst⟩ := productLoop_run hd hes hlen (hstart limb hlimb)
    obtain ⟨v, hv, hvlt, hvdvd⟩ := hst.sum
    rw [hlimb, Option.bind_some, hloop, Option.bind_some] at hrun
    rw [number_mod_eq_xor hxlt, Gf2.ofBits_xor, add_mul] at hvdvd
    have hiff : IsProduct x b curve m ↔
        Gf2.ofBits v = Gf2.ofBits (m.magnitude x) * Gf2.ofBits (m.magnitude b) %
          curve.fieldPolynomial := by
      rw [IsProduct, hxmag, hbmag]
      constructor
      · rintro ⟨z, m', w, hrun', hval, hw⟩
        rw [hrun, Option.some.injEq, Prod.mk.injEq] at hrun'
        rw [← hrun'.1, ← hrun'.2, hv.value, Nat.cast_inj] at hval
        rwa [hval]
      · intro h
        exact ⟨_, _, v, hrun, hv.value, h⟩
    rw [hiff, and_iff_right hlen, curve.eq_mod_iff_dvd hes hvlt]
    have hsplit := dvd_sub_comm.mp hvdvd
    constructor
    · intro h
      have hsum := dvd_add hsplit h
      convert hsum using 1
      ring
    · intro h
      have hsum := dvd_add hvdvd h
      convert hsum using 1
      ring
  · refine iff_of_false ?_ fun h => hlen h.1
    rintro ⟨z, m', v, hrun', -, -⟩
    rw [hrun'] at hrun
    cases hlimb : m.arrays.item (m.item x) 0 with
    | none => rw [hlimb] at hrun; cases hrun
    | some limb =>
      rw [hlimb, Option.bind_some, productLoop_fails hd hes (not_le.mp hlen) (hstart limb hlimb)]
        at hrun
      cases hrun

/-- The product of `1` and `z ^ 2 + 1` modulo `z ^ 33 + z + 1`, in an array with two limbs. -/
theorem isProduct_iff_one :
    IsProduct 0 1 ⟨33, 1, 0, 0, by decide, by decide, by decide, by decide⟩
        (IntegerXMemory.pair [1, 0] [5] 1 1) ↔
      bitsToLimbs 33 ≤ (IntegerXMemory.pair [1, 0] [5] 1 1).capacity 0 ∧
        EcCurveF2m.fieldPolynomial ⟨33, 1, 0, 0, by decide, by decide, by decide, by decide⟩ ∣
          Gf2.ofBits (unusedBits (IntegerXMemory.pair [1, 0] [5] 1 1) 0 33) *
            Gf2.ofBits ((IntegerXMemory.pair [1, 0] [5] 1 1).value 1).toNat :=
  isProduct_iff ⟨33, 1, 0, 0, by decide, by decide, by decide, by decide⟩ (by decide) (by decide)
    (IntegerXMemory.pair [1, 0] [5] 1 1) ⟨by decide, by decide⟩ 0 1 (by decide) (by decide)
    ⟨by decide, by decide⟩ (by decide) (by decide)
    ((Gf2.degree_ofBits_lt_iff _ _).mpr (by decide))
    ((Gf2.degree_ofBits_lt_iff _ _).mpr (by decide))

/-- The same elements, the first one in an array with one limb: the second limb is read behind its
end. -/
theorem not_isProduct_one :
    ¬ ∀ curve : EcCurveF2m, max curve.k1 (max curve.k2 curve.k3) < curve.m → curve.m % 32 ≠ 0 →
      ∀ m : IntegerXMemory, m.WellFormed → ∀ x b : ℕ, x < m.objects → b < m.objects →
        m.Normalised x → m.Normalised b → 0 ≤ m.value x → 0 ≤ m.value b →
        (Gf2.ofBits (m.value x).toNat).degree < curve.m →
        (Gf2.ofBits (m.value b).toNat).degree < curve.m → IsProduct x b curve m := by
  intro h
  obtain ⟨z, m', v, hrun, -⟩ := h ⟨33, 1, 0, 0, by decide, by decide, by decide, by decide⟩
    (by decide) (by decide) (IntegerXMemory.pair [1] [5] 1 1) ⟨by decide, by decide⟩ 0 1 (by decide)
    (by decide) ⟨by decide, by decide⟩ ⟨by decide, by decide⟩ (by decide) (by decide)
    ((Gf2.degree_ofBits_lt_iff _ _).mpr (by decide))
    ((Gf2.degree_ofBits_lt_iff _ _).mpr (by decide))
  have hnone : (product 0 1 ⟨33, 1, 0, 0, by decide, by decide, by decide, by decide⟩
      (IntegerXMemory.pair [1] [5] 1 1)).isNone = true := by
    decide +kernel
  rw [hrun] at hnone
  cases hnone

end Product

end EcFieldElementF2m

end EiffelWeb
