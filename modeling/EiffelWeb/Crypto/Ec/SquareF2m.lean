import EiffelWeb.Crypto.Ec.ReduceF2m
import EiffelWeb.Crypto.Limb.IntegerXIo

set_option relaxedAutoImplicit false
set_option autoImplicit false

/-!
# Squares in a binary field

The routine `square` of `EC_FIELD_ELEMENT_F2M`. The square of a polynomial over the field with two
elements has its coefficients at the even places. The bits are spread from the highest one down in
the array of the element itself: a bit is read from a limb that was copied before it was
overwritten. Then the array is reduced modulo the field polynomial.

## Main definitions

* `EcFieldElementF2m.square`
* `EcFieldElementF2m.spread` — the bits of a square.

## Main results

* `EcFieldElementF2m.squareLoop_run` — the bits are spread.
* `EcFieldElementF2m.square_eq` — the square in the field.
-/

namespace EiffelWeb

open Limbs Arrays

namespace EcFieldElementF2m

/-- `bits_to_limbs (n)`. -/
def bitsToLimbs (n : ℕ) : ℕ := (n + 32 - 1) / 32

/-- The locals of the loop of `square`, and the arrays. -/
structure SquareState where
  /-- `limb_position` -/
  limbPosition : ℕ
  /-- `bit_position` -/
  bitPosition : ℤ
  /-- `square_limb_position` -/
  squareLimbPosition : ℕ
  /-- `square_bit_position` -/
  squareBitPosition : ℤ
  /-- `limb` -/
  limb : Natural32
  /-- `square_limb` -/
  squareLimb : Natural32
  /-- The arrays. -/
  heap : LimbHeap

/-- The two bits of the square for the bit that is read. -/
def SquareState.setBits (st : SquareState) : SquareState :=
  let bit := st.limb.getLsbD st.bitPosition.toNat
  let squareLimb := setBit st.squareLimb bit st.squareBitPosition.toNat
  { st with squareLimb := setBit squareLimb false (st.squareBitPosition + 1).toNat }

/-- The next bit to be read. -/
def SquareState.readNext (special : ℕ) (st : SquareState) : Option SquareState :=
  if st.bitPosition - 1 < 0 ∧ 0 < st.limbPosition then do
    let limb ← st.heap.item special (st.limbPosition - 1)
    return { st with
      limbPosition := st.limbPosition - 1, bitPosition := st.bitPosition - 1 + 32, limb := limb }
  else some { st with bitPosition := st.bitPosition - 1 }

/-- The next bits to be written. -/
def SquareState.writeNext (special : ℕ) (st : SquareState) : Option SquareState :=
  if st.squareBitPosition - 2 < 0 ∧ 0 < st.squareLimbPosition then do
    let h ← st.heap.put special st.squareLimbPosition st.squareLimb
    let squareLimb ← h.item special (st.squareLimbPosition - 1)
    return { st with
      squareLimbPosition := st.squareLimbPosition - 1
      squareBitPosition := st.squareBitPosition - 2 + 32, squareLimb := squareLimb, heap := h }
  else some { st with squareBitPosition := st.squareBitPosition - 2 }

/-- One iteration of the loop of `square`. -/
def squareStep (special : ℕ) (st : SquareState) : Option SquareState :=
  (st.setBits.readNext special).bind (SquareState.writeNext special)

/-- The loop of `square`, `n` times. -/
def squareLoop (special : ℕ) : ℕ → SquareState → Option SquareState
  | 0, st => some st
  | n + 1, st => (squareStep special st).bind (squareLoop special n)

/-- What is written after the loop. -/
def SquareState.finish (special : ℕ) (st : SquareState) : Option LimbHeap :=
  if st.squareBitPosition ≠ 30 then st.heap.put special st.squareLimbPosition st.squareLimb
  else some st.heap

/-- `square (curve)`. The loop runs from bit `m` down to bit 0. -/
def square (x : ℕ) (curve : EcCurveF2m) (m : IntegerXMemory) : Option IntegerXMemory := do
  let i := curve.m
  let m := m.resize x (bitsToLimbs (i + i))
  let special := m.item x
  let limb ← m.arrays.item special (i / 32)
  let squareLimb ← m.arrays.item special ((i + i) / 32)
  let st ← squareLoop special (i + 1)
    ⟨i / 32, (i % 32 : ℕ), (i + i) / 32, ((i + i) % 32 : ℕ), limb, squareLimb, m.arrays⟩
  let h ← st.finish special
  let m ← reduce x curve { m with arrays := h }
  let count ← SpecialUtility.normalize special 0 (bitsToLimbs curve.m) m.arrays
  return { m with count := Function.update m.count x count }

/-! ## The loop -/

/-- The bits of a square. -/
def spread (v j : ℕ) : Bool := if j % 2 = 0 then v.testBit (j / 2) else false

variable {special n c v : ℕ} {h₀ : LimbHeap} {st : SquareState}

/-- What holds at the head of the loop when `c` bits of the number `v` are left: the bits of the
square from bit `2 * c` on are there, those in the limb that is being written in `square_limb`. -/
structure SquareState.Holds (special n v : ℕ) (h₀ : LimbHeap) (c : ℕ) (st : SquareState) :
    Prop where
  /-- The limb that is read. -/
  limbPosition : st.limbPosition = (c - 1) / 32
  /-- The bit that is read. -/
  bitPosition : st.bitPosition + 32 * st.limbPosition = c - 1
  /-- The limb that is written. -/
  squareLimbPosition : st.squareLimbPosition = (2 * c - 2) / 32
  /-- The bit that is written. -/
  squareBitPosition : st.squareBitPosition + 32 * st.squareLimbPosition = 2 * c - 2
  /-- The limb that was read. -/
  limb : ∀ i < 32, st.limb.getLsbD i = v.testBit (32 * st.limbPosition + i)
  /-- The limb that is being written. -/
  squareLimb : ∀ i < 32, st.squareLimb.getLsbD i =
    if 2 * c ≤ 32 * st.squareLimbPosition + i then spread v (32 * st.squareLimbPosition + i)
    else v.testBit (32 * st.squareLimbPosition + i)
  /-- The array. -/
  number : ∀ j, (st.heap.number special 0 n).testBit j =
    if 32 * (st.squareLimbPosition + 1) ≤ j then spread v j else v.testBit j
  /-- The other arrays. -/
  foot : SameOutside (region special 0 n) h₀ st.heap

/-- The two bits of the square are set. -/
lemma SquareState.Holds.setBits (h : st.Holds special n v h₀ (c + 1)) {i : ℕ} (hi : i < 32) :
    st.setBits.squareLimb.getLsbD i =
      if 2 * c ≤ 32 * st.squareLimbPosition + i then spread v (32 * st.squareLimbPosition + i)
      else v.testBit (32 * st.squareLimbPosition + i) := by
  have hlimb := h.limbPosition
  have hbit := h.bitPosition
  have hsquare := h.squareLimbPosition
  have hsquarebit := h.squareBitPosition
  rw [Nat.add_sub_cancel] at hlimb
  obtain ⟨b, hb⟩ : ∃ b : ℕ, st.bitPosition = b := ⟨st.bitPosition.toNat, by omega⟩
  obtain ⟨d, hd⟩ : ∃ d : ℕ, st.squareBitPosition = d := ⟨st.squareBitPosition.toNat, by omega⟩
  have hd' : (st.squareBitPosition + 1).toNat = d + 1 := by omega
  have hread : st.limb.getLsbD b = v.testBit c := by
    rw [h.limb b (by omega)]
    congr 1
    omega
  rw [SquareState.setBits]
  dsimp only
  rw [hd', hb, hd, Int.toNat_natCast, Int.toNat_natCast, getLsbD_setBit _ _ _ hi,
    getLsbD_setBit _ _ _ hi, hread, h.squareLimb i hi]
  by_cases hodd : i = d + 1
  · rw [if_pos hodd, if_pos (by omega), spread, if_neg (by omega)]
  · rw [if_neg hodd]
    by_cases heven : i = d
    · have hindex : (32 * st.squareLimbPosition + i) / 2 = c := by omega
      rw [if_pos heven, if_pos (by omega), spread, if_pos (by omega), hindex]
    · rw [if_neg heven]
      by_cases hge : 2 * (c + 1) ≤ 32 * st.squareLimbPosition + i
      · rw [if_pos hge, if_pos (by omega)]
      · rw [if_neg hge, if_neg (by omega)]

/-- **The next bit to be read.** The limb below was not overwritten, since the square is twice as
long. -/
lemma readNext_run (hlimb : st.limbPosition = c / 32)
    (hbit : st.bitPosition + 32 * st.limbPosition = c)
    (hread : ∀ i < 32, st.limb.getLsbD i = v.testBit (32 * st.limbPosition + i))
    (hnum : ∀ j, j < 32 * (2 * c / 32 + 1) →
      (st.heap.number special 0 n).testBit j = v.testBit j)
    (hc : c < 32 * n) (hn : n ≤ (st.heap special).length) :
    ∃ (position : ℕ) (bit : ℤ) (limb : Natural32),
      st.readNext special =
        some { st with limbPosition := position, bitPosition := bit, limb := limb } ∧
      position = (c - 1) / 32 ∧ bit + 32 * position = c - 1 ∧
      ∀ i < 32, limb.getLsbD i = v.testBit (32 * position + i) := by
  by_cases hcond : st.bitPosition - 1 < 0 ∧ 0 < st.limbPosition
  · obtain ⟨x, hx, -⟩ := LimbHeap.exists_limb (h := st.heap) (a := special)
      (i := st.limbPosition - 1) (by omega)
    refine ⟨st.limbPosition - 1, st.bitPosition - 1 + 32, x, ?_, by omega, by omega, fun i hi => ?_⟩
    · rw [SquareState.readNext, if_pos hcond]
      simp only [hx, Option.bind_eq_bind, Option.bind_some]
      rfl
    · rw [← hnum _ (by omega), LimbHeap.getLsbD_item hx (by omega) hi]
  · exact ⟨st.limbPosition, st.bitPosition - 1, st.limb, by rw [SquareState.readNext, if_neg hcond],
      by omega, by omega, hread⟩

/-- **The next bits to be written.** -/
lemma writeNext_run (hsquare : st.squareLimbPosition = 2 * c / 32)
    (hbit : st.squareBitPosition + 32 * st.squareLimbPosition = 2 * c)
    (hlimb : ∀ i < 32, st.squareLimb.getLsbD i =
      if 2 * c ≤ 32 * st.squareLimbPosition + i then spread v (32 * st.squareLimbPosition + i)
      else v.testBit (32 * st.squareLimbPosition + i))
    (hnum : ∀ j, (st.heap.number special 0 n).testBit j =
      if 32 * (st.squareLimbPosition + 1) ≤ j then spread v j else v.testBit j)
    (hc : 2 * c < 32 * n) (hn : n ≤ (st.heap special).length) :
    ∃ (position : ℕ) (bit : ℤ) (squareLimb : Natural32) (h' : LimbHeap),
      st.writeNext special = some { st with
        squareLimbPosition := position, squareBitPosition := bit, squareLimb := squareLimb
        heap := h' } ∧
      position = (2 * c - 2) / 32 ∧ bit + 32 * position = 2 * c - 2 ∧
      (∀ i < 32, squareLimb.getLsbD i =
        if 2 * c ≤ 32 * position + i then spread v (32 * position + i)
        else v.testBit (32 * position + i)) ∧
      (∀ j, (h'.number special 0 n).testBit j =
        if 32 * (position + 1) ≤ j then spread v j else v.testBit j) ∧
      SameOutside (region special 0 n) st.heap h' := by
  by_cases hcond : st.squareBitPosition - 2 < 0 ∧ 0 < st.squareLimbPosition
  · obtain ⟨h', hput, -, hfoot⟩ := LimbHeap.run_put (h := st.heap) (a := special)
      (i := st.squareLimbPosition) (by omega) st.squareLimb
    obtain ⟨x, hx, -⟩ := LimbHeap.exists_limb (h := h') (a := special)
      (i := st.squareLimbPosition - 1) (by rw [hfoot.length]; omega)
    have hnum' (j : ℕ) : (h'.number special 0 n).testBit j =
        if 32 * st.squareLimbPosition ≤ j then spread v j else v.testBit j := by
      rw [LimbHeap.testBit_number_put hput (by omega), hnum]
      by_cases hj : j / 32 = st.squareLimbPosition
      · have hindex : 32 * st.squareLimbPosition + j % 32 = j := by omega
        rw [if_pos hj, hlimb _ (by omega), hindex, if_pos (by omega), if_pos (by omega)]
      · rw [if_neg hj]
        by_cases hle : 32 * st.squareLimbPosition ≤ j
        · rw [if_pos hle, if_pos (by omega)]
        · rw [if_neg hle, if_neg (by omega)]
    refine ⟨st.squareLimbPosition - 1, st.squareBitPosition - 2 + 32, x, h', ?_, by omega, by omega,
      fun i hi => ?_, fun j => ?_, hfoot.mono fun b k hk => ⟨hk.1, Nat.zero_le _, ?_⟩⟩
    · rw [SquareState.writeNext, if_pos hcond]
      simp only [hput, hx, Option.bind_eq_bind, Option.bind_some]
      rfl
    · rw [← LimbHeap.getLsbD_item hx (by omega : _ < n) hi, hnum', if_neg (by omega),
        if_neg (by omega)]
    · have hindex : 32 * (st.squareLimbPosition - 1 + 1) = 32 * st.squareLimbPosition := by omega
      rw [hnum', hindex]
    · have := hk.2
      omega
  · refine ⟨st.squareLimbPosition, st.squareBitPosition - 2, st.squareLimb, st.heap,
      by rw [SquareState.writeNext, if_neg hcond], by omega, by omega, hlimb, hnum,
      SameOutside.refl _ _⟩

/-- **One bit.** -/
lemma squareStep_holds (h : st.Holds special n v h₀ (c + 1)) (hc : 2 * c < 32 * n)
    (hn : n ≤ (h₀ special).length) :
    ∃ st' : SquareState, squareStep special st = some st' ∧ st'.Holds special n v h₀ c := by
  have hlimb := h.limbPosition
  have hbit := h.bitPosition
  have hsquare := h.squareLimbPosition
  have hsquarebit := h.squareBitPosition
  have hlen : n ≤ (st.heap special).length := by
    rw [h.foot.length]
    exact hn
  obtain ⟨p, b, x, hread, hp, hb, hx⟩ := readNext_run
    (show st.setBits.limbPosition = c / 32 from hlimb.trans (by omega))
    (show st.bitPosition + 32 * st.limbPosition = c by omega) h.limb
    (fun j hj => by
      show (st.heap.number special 0 n).testBit j = _
      rw [h.number, if_neg (by omega)]) (by omega) hlen
  obtain ⟨q, d, y, h', hwrite, hq, hd, hy, hnum, hfoot⟩ := @writeNext_run special n c v
    { st.setBits with limbPosition := p, bitPosition := b, limb := x }
    (hsquare.trans (by omega))
    (show st.squareBitPosition + 32 * st.squareLimbPosition = 2 * c by omega)
    (fun i hi => h.setBits hi) h.number hc hlen
  have hfoot' : SameOutside (region special 0 n) st.heap h' := hfoot
  exact ⟨_, by rw [squareStep, hread, Option.bind_some, hwrite], hp, hb, hq, hd, hx, hy, hnum,
    h.foot.trans hfoot'⟩

/-- **The loop** spreads the bits. -/
lemma squareLoop_run (h : st.Holds special n v h₀ c) (hc : 2 * c < 32 * n + 2)
    (hn : n ≤ (h₀ special).length) :
    ∃ st' : SquareState, squareLoop special c st = some st' ∧ st'.Holds special n v h₀ 0 := by
  induction c generalizing st with
  | zero => exact ⟨st, rfl, h⟩
  | succ c ih =>
    obtain ⟨st', hstep, h'⟩ := squareStep_holds h (by omega) hn
    obtain ⟨st'', hloop, h''⟩ := ih h' (by omega)
    exact ⟨st'', by rw [squareLoop, hstep, Option.bind_some, hloop], h''⟩

/-- The bits of a number below `2 ^ m` and those of its square agree from bit `2 * m` on. -/
lemma spread_eq {m j : ℕ} (hv : v < 2 ^ m) (hj : 2 * m ≤ j) : spread v j = v.testBit j := by
  have hfalse {k : ℕ} (hk : m ≤ k) : v.testBit k = false :=
    Nat.testBit_lt_two_pow (hv.trans_le (Nat.pow_le_pow_right two_pos hk))
  rw [spread, hfalse (by omega : m ≤ j)]
  split
  · exact hfalse (by omega)
  · rfl

/-- **The square** before it is reduced. -/
lemma squareLoop_finish {m : ℕ} (hv : v < 2 ^ m) (hm : 2 * m < 32 * n)
    (hn : n ≤ (h₀ special).length) (hnum : h₀.number special 0 n = v) {limb squareLimb : Natural32}
    (hlimb : h₀.item special (m / 32) = some limb)
    (hsquare : h₀.item special ((m + m) / 32) = some squareLimb) :
    ∃ (st' : SquareState) (h' : LimbHeap),
      squareLoop special (m + 1)
        ⟨m / 32, (m % 32 : ℕ), (m + m) / 32, ((m + m) % 32 : ℕ), limb, squareLimb, h₀⟩ = some st' ∧
      st'.finish special = some h' ∧ h'.number special 0 n < 2 ^ (2 * m) ∧
      Gf2.ofBits (h'.number special 0 n) = Gf2.ofBits v ^ 2 ∧
      SameOutside (region special 0 n) h₀ h' := by
  have hlt {j : ℕ} (hj : m ≤ j) : v.testBit j = false :=
    Nat.testBit_lt_two_pow (hv.trans_le (Nat.pow_le_pow_right two_pos hj))
  have hholds : SquareState.Holds special n v h₀ (m + 1)
      ⟨m / 32, (m % 32 : ℕ), (m + m) / 32, ((m + m) % 32 : ℕ), limb, squareLimb, h₀⟩ := by
    refine ⟨?_, ?_, ?_, ?_, fun i hi => ?_, fun i hi => ?_, fun j => ?_, SameOutside.refl _ _⟩
    · show m / 32 = _
      omega
    · show ((m % 32 : ℕ) : ℤ) + 32 * (m / 32 : ℕ) = _
      omega
    · show (m + m) / 32 = _
      omega
    · show (((m + m) % 32 : ℕ) : ℤ) + 32 * ((m + m) / 32 : ℕ) = _
      omega
    · show limb.getLsbD i = v.testBit (32 * (m / 32) + i)
      rw [← hnum, LimbHeap.getLsbD_item hlimb (by omega) hi]
    · show squareLimb.getLsbD i = if 2 * (m + 1) ≤ 32 * ((m + m) / 32) + i then
        spread v (32 * ((m + m) / 32) + i) else v.testBit (32 * ((m + m) / 32) + i)
      rw [← LimbHeap.getLsbD_item hsquare (by omega : _ < n) hi, hnum]
      split
      · rw [spread_eq hv (by omega)]
      · rfl
    · show (h₀.number special 0 n).testBit j = if 32 * ((m + m) / 32 + 1) ≤ j then spread v j
        else v.testBit j
      rw [hnum]
      split
      · rw [spread_eq hv (by omega)]
      · rfl
  obtain ⟨st', hloop, hholds'⟩ := squareLoop_run hholds (by omega) hn
  have hq := hholds'.squareLimbPosition
  have hb := hholds'.squareBitPosition
  obtain ⟨h', hput, -, hfoot⟩ := LimbHeap.run_put (h := st'.heap) (a := special)
    (i := st'.squareLimbPosition) (by rw [hholds'.foot.length]; omega) st'.squareLimb
  have hbits (j : ℕ) : (h'.number special 0 n).testBit j = spread v j := by
    rw [LimbHeap.testBit_number_put hput (by omega), hholds'.number]
    by_cases hj : j / 32 = st'.squareLimbPosition
    · have hindex : 32 * st'.squareLimbPosition + j % 32 = j := by omega
      rw [if_pos hj, hholds'.squareLimb _ (by omega), hindex, if_pos (by omega)]
    · rw [if_neg hj, if_pos (by omega)]
  refine ⟨st', h', hloop, ?_, ?_, ?_, hholds'.foot.trans (hfoot.mono fun b k hk => ?_)⟩
  · rw [SquareState.finish, if_pos (by omega), hput]
  · refine Nat.lt_pow_two_of_testBit _ fun j hj => ?_
    rw [hbits, spread_eq hv hj, hlt (by omega)]
  · refine Gf2.ofBits_eq_sq (fun i => ?_) fun i => ?_
    · rw [hbits, spread, if_pos (by omega), Nat.mul_div_cancel_left i two_pos]
    · rw [hbits, spread, if_neg (by omega)]
  · have := hk.2
    exact ⟨hk.1, Nat.zero_le _, by omega⟩

/-! ## The routine -/

/-- The limbs of an element of degree below `k`. -/
lemma count_le_bitsToLimbs {m : IntegerXMemory} {x k : ℕ} (hn : m.Normalised x)
    (hlt : m.magnitude x < 2 ^ k) : (m.count x).natAbs ≤ bitsToLimbs k := by
  rw [bitsToLimbs]
  by_contra hgt
  have hle := (IntegerXMemory.normalised_iff.mp hn).2 (by omega)
  rw [← Nat.pow_mul] at hle
  have hpow := (Nat.pow_lt_pow_iff_right (by decide : 1 < 2)).mp (hle.trans_lt hlt)
  omega

/-- **`square`** for an odd degree, when the other exponents are at least 64 below the degree: the
square modulo the field polynomial, for an element whose limbs above `count` are zero. -/
theorem square_eq (curve : EcCurveF2m) (hodd : Odd curve.m)
    (hfar : max curve.k1 (max curve.k2 curve.k3) + 64 ≤ curve.m) (m : IntegerXMemory)
    (hm : m.WellFormed) (x : ℕ) (hx : x < m.objects) (hn : m.Normalised x) (hpos : 0 ≤ m.value x)
    (hdeg : (Gf2.ofBits (m.value x).toNat).degree < curve.m)
    (hzero : ∀ i d, (m.count x).natAbs ≤ i → m.arrays.item (m.item x) i = some d → d = 0) :
    ∃ (m' : IntegerXMemory) (v : ℕ), square x curve m = some m' ∧ m.Outcome m' x v ∧
      Gf2.ofBits v = Gf2.ofBits (m.value x).toNat ^ 2 % curve.fieldPolynomial ∧
      Gf2.ofBits v =
        Gf2.ofBits (m.value x).toNat * Gf2.ofBits (m.value x).toNat % curve.fieldPolynomial := by
  obtain ⟨r, hr⟩ := hodd
  have hes : ∀ e ∈ curve.exponents, e + 64 ≤ curve.m := by
    intro e he
    rw [EcCurveF2m.exponents] at he
    cases hrep : curve.representation <;> rw [hrep] at he <;> simp at he <;> omega
  have hmag : (m.value x).toNat = m.magnitude x := by
    have := IntegerXMemory.magnitude_eq_value hpos
    omega
  rw [hmag] at hdeg ⊢
  have hlt := (Gf2.degree_ofBits_lt_iff _ _).mp hdeg
  have hcount := count_le_bitsToLimbs hn hlt
  set n := bitsToLimbs (curve.m + curve.m) with hn_def
  have hlimbs : 2 * curve.m < 32 * n ∧ bitsToLimbs curve.m ≤ n := by
    rw [hn_def, bitsToLimbs, bitsToLimbs]
    omega
  obtain ⟨hext, hcap⟩ := IntegerXMemory.extends_resize hm hx n
  have hitem (i : ℕ) := IntegerXMemory.item_resize m x n i
  set m₁ := m.resize x n with hm₁
  have hcount₁ : m₁.count x ≤ (m₁.arrays (m₁.item x)).length := by
    have hle := hn.count_le.trans (hext.capacity x hx)
    rw [IntegerXMemory.capacity] at hle
    rw [hext.count]
    omega
  have hnum : m₁.arrays.number (m₁.item x) 0 n = m.magnitude x := by
    rw [LimbHeap.number_congr fun i _ => hitem i,
      LimbHeap.number_of_zero (hcount.trans hlimbs.2) hzero]
    rfl
  obtain ⟨limb, hlimb, -⟩ := LimbHeap.exists_limb (h := m₁.arrays) (a := m₁.item x)
    (i := curve.m / 32) (lt_of_lt_of_le (by omega) hcap)
  obtain ⟨squareLimb, hsquare, -⟩ := LimbHeap.exists_limb (h := m₁.arrays) (a := m₁.item x)
    (i := (curve.m + curve.m) / 32) (lt_of_lt_of_le (by omega) hcap)
  obtain ⟨st', g, hloop, hfinish, hltg, hsq, hfoot⟩ := squareLoop_finish hlt hlimbs.1 hcap hnum
    hlimb hsquare
  obtain ⟨h', count, hreduce, hlt', hmod, hfoot'⟩ := reduce_run hes (by omega) (by omega)
    (show n ≤ ({ m₁ with arrays := g }.arrays (m₁.item x)).length by rw [hfoot.length]; exact hcap)
    (by show m₁.count x ≤ (g (m₁.item x)).length; rw [hfoot.length]; exact hcount₁) rfl hltg
  have hwhole : SameOutside (region (m₁.item x) 0 n) m₁.arrays h' := hfoot.trans hfoot'
  have hlow : h'.number (m₁.item x) 0 (bitsToLimbs curve.m) = h'.number (m₁.item x) 0 n := by
    apply Nat.eq_of_testBit_eq
    intro j
    by_cases hj : j < curve.m
    · have hj' : j / 32 < bitsToLimbs curve.m := by
        rw [bitsToLimbs]
        omega
      rw [LimbHeap.testBit_number, LimbHeap.testBit_number, decide_eq_true hj',
        decide_eq_true (by omega)]
    · have hfalse : (h'.number (m₁.item x) 0 n).testBit j = false :=
        Nat.testBit_lt_two_pow (hlt'.trans_le (Nat.pow_le_pow_right two_pos (not_lt.mp hj)))
      rw [hfalse]
      rw [LimbHeap.testBit_number, Bool.and_eq_false_iff] at hfalse ⊢
      refine hfalse.imp_left fun h0 => ?_
      have := of_decide_eq_false h0
      exact decide_eq_false (by omega)
  obtain ⟨wsize, hnorm, hout⟩ := (hext.keepsOthers x).outcome_normalize hx
    (hwhole.keptBelow m₁.free) (hlimbs.2.trans hcap) hlow false
  refine ⟨_, _, ?_, hout, by rw [← hsq]; exact hmod, by rw [← sq, ← hsq]; exact hmod⟩
  simp only [square, ← hn_def, ← hm₁, hlimb, hsquare, hloop, hfinish, hreduce, hnorm,
    Option.bind_eq_bind, Option.bind_some]
  simp only [IntegerXMemory.conclude, Function.update_idem]
  rfl

/-- The square of `z ^ 40` modulo `z ^ 65 + z + 1`. -/
theorem square_eq_forty :
    ∃ (m' : IntegerXMemory) (v : ℕ),
      square 0 ⟨65, 1, 0, 0, by decide, by decide, by decide, by decide⟩
        (IntegerXMemory.single [0, 256] 2) = some m' ∧
      (IntegerXMemory.single [0, 256] 2).Outcome m' 0 v ∧
      Gf2.ofBits v = Gf2.ofBits ((IntegerXMemory.single [0, 256] 2).value 0).toNat ^ 2 %
        EcCurveF2m.fieldPolynomial ⟨65, 1, 0, 0, by decide, by decide, by decide, by decide⟩ ∧
      Gf2.ofBits v = Gf2.ofBits ((IntegerXMemory.single [0, 256] 2).value 0).toNat *
        Gf2.ofBits ((IntegerXMemory.single [0, 256] 2).value 0).toNat %
          EcCurveF2m.fieldPolynomial ⟨65, 1, 0, 0, by decide, by decide, by decide, by decide⟩ := by
  refine square_eq ⟨65, 1, 0, 0, by decide, by decide, by decide, by decide⟩ ⟨32, rfl⟩ (by decide)
    (IntegerXMemory.single [0, 256] 2) ⟨by decide, by decide⟩ 0 (by decide)
    ⟨by decide, by decide⟩ (by decide) ((Gf2.degree_ofBits_lt_iff _ _).mpr (by decide)) ?_
  intro i d hi hd
  have hlen : (IntegerXMemory.single [0, 256] 2).arrays.item 0 i = none :=
    List.getElem?_eq_none hi
  cases hlen.symm.trans hd

end EcFieldElementF2m

end EiffelWeb
