import Mathlib.Tactic.ReduceModChar
import EiffelWeb.Crypto.Limb.IntegerXComparison
import EiffelWeb.Crypto.Limb.IntegerXDivision
import EiffelWeb.Crypto.Limb.IntegerXRandom
import EiffelWeb.Crypto.Limb.IntegerXShift
import EiffelWeb.Crypto.Limb.IntegerXSingleBit
import EiffelWeb.StrongProbablePrime

set_option relaxedAutoImplicit false
set_option autoImplicit false

/-!
# The test of Miller and Rabin

The routine `millerrabin` of `INTEGER_X_NUMBER_THEORY` takes the power of two out of `n - 1`. It
gets the exponent from `bit_scan_1`, which does not set its result for a number that is not
negative. So the exponent is zero, the odd part is taken to be `n - 1`, and `millerrabin_test` looks
at one power only: that of a Fermat test.

The routines `powm` and `powm_ui` are parameters.

## Main definitions

* `IntegerXMemory.bitScan1`
* `IntegerXMemory.millerrabinTest`, `IntegerXMemory.millerrabin`
* `IntegerXMemory.PowmExact`, `IntegerXMemory.PowmUiExact` — what is relied on.

## Main results

* `IntegerXMemory.Normalised.bitScan1_eq` — the result for a number that is not negative.
* `IntegerXMemory.millerrabinTest_strong` — the test of one base, for the right exponent.
* `IntegerXMemory.millerrabin_steps` — when a step of `millerrabin` is right.
-/

namespace EiffelWeb

open Limbs Arrays

namespace IntegerXMemory

/-! ## Scanning bits -/

/-- `trailing_zeros (limb_a)`, for a limb that is not zero. -/
def trailingZeros (x : Natural32) : Option ℕ := (List.range 32).find? fun i => x.getLsbD i

/-- The loop of `bit_scan_1` for the lowest limb that is not zero below index `q`. -/
def invertedLoop (u : ℕ) (h : LimbHeap) : ℕ → Option Natural32
  | 0 => some 0
  | q + 1 => (h.item u q).bind fun inverted =>
      if inverted ≠ 0 then some inverted else invertedLoop u h q

/-- The loop of `bit_scan_1` for a limb that is zero, from index `p` on. The first argument is the
number of limbs up to the end of the array, where the loop fails. -/
def zeroLimbLoop (u : ℕ) (h : LimbHeap) : ℕ → ℕ → Option ℕ
  | 0, _ => none
  | n + 1, p => (h.item u p).bind fun limb =>
      if limb = 0 then some p else zeroLimbLoop u h n (p + 1)

/-- The loop of `bit_scan_1` for a limb with all bits set, from index `p` on, or the end of the
number. The first argument is a number of limbs with which the loop gets behind the array. -/
def fullLimbLoop (u uEnd : ℕ) (h : LimbHeap) : ℕ → ℕ → Option ℕ
  | 0, _ => none
  | n + 1, p =>
    if p = uEnd then some p
    else (h.item u p).bind fun limb =>
      if limb = BitVec.allOnes 32 then some p else fullLimbLoop u uEnd h n (p + 1)

/-- `bit_scan_1 (op1, starting_bit)`. -/
def bitScan1 (op1 startingBit : ℕ) (m : IntegerXMemory) : Option ℤ := do
  let u := m.item op1
  let size := m.count op1
  let absSize := size.natAbs
  let p := startingBit / 32
  let result : ℤ := if absSize ≤ p then (if 0 ≤ size then 2147483647 else startingBit) else 0
  let limb ← m.arrays.item u p
  let mask : Natural32 := BitVec.allOnes 32 <<< (startingBit % 32)
  if 0 ≤ size ∧ limb &&& mask = 0 ∧ p + 1 = absSize then return 2147483647
  else if 0 ≤ size then
    -- a limb is looked for, but the result is not set
    if limb &&& mask = 0 then
      let _ ← zeroBoundLoop u m.arrays (m.capacity op1 - (p + 1)) (p + 1)
      return result
    else return result
  else
    let inverted ← invertedLoop u m.arrays p
    if inverted = 0 ∧ limb = 0 then
      let p ← zeroLimbLoop u m.arrays (m.capacity op1 - (p + 1)) (p + 1)
      let count ← trailingZeros 0
      return p * 32 + count
    else
      let p ← fullLimbLoop u absSize m.arrays (m.capacity op1 + 1) (p + 1)
      if p = absSize then return absSize * 32
      else
        let count ← trailingZeros (~~~ BitVec.allOnes 32)
        return p * 32 + count

/-! ## The test -/

section Test

variable (powm : ℕ → ℕ → ℕ → ℕ → IntegerXMemory → Option IntegerXMemory)
  (powmUi : ℕ → ℕ → Natural32 → ℕ → IntegerXMemory → Option IntegerXMemory)

/-- The loop of `millerrabin_test`. -/
def squareLoop (n nm1 y : ℕ) : ℕ → IntegerXMemory → Option (ℤ × IntegerXMemory)
  | 0, m => some (-1, m)
  | j + 1, m => do
    let m ← powmUi y y 2 n m
    let c ← m.compare y nm1
    if c = 0 then return (1, m)
    else
      let c ← m.cmpUi y 1
      if c = 0 then return (0, m) else squareLoop n nm1 y j m

/-- `millerrabin_test (n, nm1, x, y, q, k)`. -/
def millerrabinTest (n nm1 x y q : ℕ) (k : ℤ) (m : IntegerXMemory) :
    Option (ℤ × IntegerXMemory) := do
  let m ← powm y x q n m
  let c ← m.cmpUi y 1
  let c' ← m.compare y nm1
  if c = 0 ∨ c' = 0 then return (1, m)
  else
    let (result, m) ← squareLoop powmUi n nm1 y (k - 1).toNat m
    return (if result = -1 then 0 else result, m)

/-- The locals of `millerrabin`: objects and the exponent. -/
structure MillerrabinLocals where
  /-- The argument. -/
  source : ℕ
  /-- The argument less one. -/
  nm1 : ℕ
  /-- The argument less three. -/
  nm3 : ℕ
  /-- The base. -/
  x : ℕ
  /-- The power. -/
  y : ℕ
  /-- The first exponent. -/
  q : ℕ
  /-- The number of squares. -/
  k : ℤ

/-- `set_from_natural_32 (value_a)`. -/
def setFromNatural32 (x : ℕ) (valueA : Natural32) (m : IntegerXMemory) : Option IntegerXMemory :=
  (m.arrays.put (m.item x) 0 valueA).map fun h =>
    m.conclude x h (if valueA ≠ 0 then 1 else 0) false

/-- `create x.make_limbs (limbs)`: the object and the memory. A negative number of limbs fails. -/
def createLimbs (limbs : ℤ) (m : IntegerXMemory) : Option (ℕ × IntegerXMemory) :=
  if limbs < 0 then none else some (m.objects, m.makeLimbs limbs.toNat)

/-- `tdiv_q_2exp (q, nm1, k)`. A negative number of bits fails. -/
def tdivQ2expInt (target op : ℕ) (k : ℤ) (m : IntegerXMemory) : Option IntegerXMemory :=
  if k < 0 then none else m.tdivQ2exp target op k.toNat

/-- The part of `millerrabin` before the loop. There are no locals if the number fails the Fermat
test to base `210`. -/
def millerrabinStart (source : ℕ) (m : IntegerXMemory) :
    Option (Option MillerrabinLocals × IntegerXMemory) := do
  let n := m.count source
  let (nm1, m) ← m.createLimbs (n + 1)
  let m ← m.subUi nm1 source 1
  let (x, m) ← m.createLimbs (n + 1)
  let (y, m) ← m.createLimbs (2 * n)
  let m ← m.setFromNatural32 x 210
  let m ← powm y x nm1 source m
  let c ← m.cmpUi y 1
  if c ≠ 0 then return (none, m)
  else
    let (q, m) ← m.createLimbs n
    let k ← m.bitScan1 nm1 0
    let m ← m.tdivQ2expInt q nm1 k
    let (nm3, m) ← m.createLimbs (n + 1)
    let m ← m.subUi nm3 source 3
    return (some { source := source, nm1 := nm1, nm3 := nm3, x := x, y := y, q := q, k := k }, m)

/-- A step of `millerrabin`: a base is drawn and tested. -/
def millerrabinStep (l : MillerrabinLocals) (draws : ℕ → ℕ) (m : IntegerXMemory) :
    Option (ℤ × IntegerXMemory) := do
  let m ← m.urandomm l.x l.nm3 draws
  let m ← m.addUi l.x l.x 2
  millerrabinTest powm powmUi l.source l.nm1 l.x l.y l.q l.k m

/-- The loop of `millerrabin`: `is_prime` and the memory after a number of steps, or of less if the
loop has ended. The numbers that the generator delivers are those of `draws`, for each step. -/
def millerrabinLoop (l : MillerrabinLocals) (draws : ℕ → ℕ → ℕ) :
    ℕ → IntegerXMemory → Option (ℤ × IntegerXMemory)
  | 0, m => some (1, m)
  | reps + 1, m => do
    let (isPrime, m) ← millerrabinLoop l draws reps m
    if isPrime = 0 then return (isPrime, m) else millerrabinStep powm powmUi l (draws reps) m

/-- `millerrabin (source, reps)`. -/
def millerrabin (source reps : ℕ) (draws : ℕ → ℕ → ℕ) (m : IntegerXMemory) :
    Option (ℤ × IntegerXMemory) := do
  let (l, m) ← millerrabinStart powm source m
  match l with
  | none => return (0, m)
  | some l => millerrabinLoop powm powmUi l draws reps m

end Test

/-! ## What objects stand for -/

section Stands

variable {m m' : IntegerXMemory} {x y : ℕ} {u v w : ℤ}

/-- A normalised object stands for the number `v`. -/
structure Stands (m : IntegerXMemory) (x : ℕ) (v : ℤ) : Prop where
  /-- The object is there. -/
  lt : x < m.objects
  /-- It is normalised. -/
  normalised : m.Normalised x
  /-- Its number. -/
  value : m.value x = v

/-- The target of an operation. -/
lemma Outcome.stands (h : m.Outcome m' x v) (hx : x < m.objects) : m'.Stands x v :=
  ⟨by rwa [h.objects], h.normalised, h.value⟩

/-- The other objects. -/
lemma Stands.outcome (hs : m.Stands y u) (h : m.Outcome m' x v) (hne : y ≠ x) : m'.Stands y u := by
  obtain ⟨hn, hv⟩ := h.others y hs.lt hne hs.normalised
  exact ⟨by rw [h.objects]; exact hs.lt, hn, hv.trans hs.value⟩

/-- The object that is created by `make_limbs`. -/
lemma created_createLimbs (hm : m.WellFormed) (n : ℕ) :
    m.createLimbs n = some (m.objects, m.makeLimbs n) ∧ m.Created (m.makeLimbs n) 0 := by
  rw [createLimbs, if_neg (by omega), Int.toNat_natCast]
  exact ⟨rfl, created_zero hm (List.replicate n 0)⟩

lemma Created.stands (h : m.Created m' v) : m'.Stands m.objects v :=
  ⟨by rw [h.objects]; omega, h.normalised, h.value⟩

lemma Stands.created (hs : m.Stands y u) (h : m.Created m' v) : m'.Stands y u := by
  obtain ⟨hn, hv⟩ := h.others y hs.lt hs.normalised
  exact ⟨by rw [h.objects]; exact hs.lt.trans (Nat.lt_succ_self _), hn, hv.trans hs.value⟩

/-- The search finds a limb that is not zero if there is one. -/
lemma zeroBoundLoop_some {dp n k j : ℕ} {h : LimbHeap} {d : Natural32}
    (hn : k + n ≤ (h dp).length) (hkj : k ≤ j) (hj : j < k + n) (hd : h.item dp j = some d)
    (hne : d ≠ 0) : ∃ z, zeroBoundLoop dp h n k = some z := by
  induction n generalizing k with
  | zero => omega
  | succ n ih =>
    obtain ⟨e, he, -⟩ := LimbHeap.exists_limb (h := h) (a := dp) (i := k) (by omega)
    rw [zeroBoundLoop, he, Option.bind_some]
    split
    · exact ⟨k, rfl⟩
    · next hzero =>
      have hjk : j ≠ k := by
        rintro rfl
        rw [hd, Option.some.injEq] at he
        exact hzero (he ▸ hne)
      exact ih (by omega) (by omega) (by omega)

/-- **The scan** of an object that is not negative, from a bit of its limbs on: the result is zero,
or the greatest number if the bit is in the highest limb and there is none above it. -/
lemma Normalised.bitScan1_eq (hnx : m.Normalised x) (startingBit : ℕ) (hpos : 0 ≤ m.count x)
    (hlt : startingBit / 32 < (m.count x).natAbs) :
    ∃ limb, m.arrays.item (m.item x) (startingBit / 32) = some limb ∧
      m.bitScan1 x startingBit =
        if limb &&& BitVec.allOnes 32 <<< (startingBit % 32) = 0 ∧
          startingBit / 32 + 1 = (m.count x).natAbs then some 2147483647 else some 0 := by
  have hcap := hnx.count_le
  rw [capacity] at hcap
  obtain ⟨limb, hlimb, -⟩ := LimbHeap.exists_limb (h := m.arrays) (a := m.item x)
    (i := startingBit / 32) (by omega)
  refine ⟨limb, hlimb, ?_⟩
  simp only [bitScan1, hlimb, Option.bind_eq_bind, Option.bind_some, hpos, true_and,
    if_neg (not_le.mpr hlt)]
  by_cases hlast : limb &&& BitVec.allOnes 32 <<< (startingBit % 32) = 0 ∧
      startingBit / 32 + 1 = (m.count x).natAbs
  · rw [if_pos hlast, if_pos hlast]
    rfl
  · rw [if_neg hlast, if_neg hlast, if_pos trivial]
    split
    · next hzero =>
      -- a limb above is not zero
      obtain ⟨top, htop, -⟩ := LimbHeap.exists_limb (h := m.arrays) (a := m.item x)
        (i := (m.count x).natAbs - 1) (by omega)
      have hne : top ≠ 0 := fun h0 => hnx.top (by omega) (by rw [htop, h0])
      have hmore : startingBit / 32 + 1 ≠ (m.count x).natAbs := fun he => hlast ⟨hzero, he⟩
      obtain ⟨z, hz⟩ := zeroBoundLoop_some (n := m.capacity x - (startingBit / 32 + 1))
        (k := startingBit / 32 + 1) (by rw [capacity]; omega) (by omega)
        (by rw [capacity]; omega) htop hne
      rw [hz]
      rfl
    · rfl

end Stands

/-! ## The test of one base -/

/-- `powm (r, b, e, m)` stores the power of the base, reduced by the modulus. The target is none of
the other objects. -/
def PowmExact (powm : ℕ → ℕ → ℕ → ℕ → IntegerXMemory → Option IntegerXMemory) : Prop :=
  ∀ (m : IntegerXMemory) (r b e n u v w : ℕ), m.WellFormed → r < m.objects → m.Stands b u →
    m.Stands e v → m.Stands n w → 0 < w → r ≠ b → r ≠ e → r ≠ n →
    ∃ m', powm r b e n m = some m' ∧ m.Outcome m' r (u ^ v % w : ℕ)

/-- `powm_ui (r, b, e, m)` stores the power of the base, reduced by the modulus. The target may be
the base. -/
def PowmUiExact (powmUi : ℕ → ℕ → Natural32 → ℕ → IntegerXMemory → Option IntegerXMemory) : Prop :=
  ∀ (m : IntegerXMemory) (r b n u w : ℕ) (v : Natural32), m.WellFormed → r < m.objects →
    m.Stands b u → m.Stands n w → 0 < w → r ≠ n →
    ∃ m', powmUi r b v n m = some m' ∧ m.Outcome m' r (u ^ v.toNat % w : ℕ)

section OneBase

variable {powm : ℕ → ℕ → ℕ → ℕ → IntegerXMemory → Option IntegerXMemory}
  {powmUi : ℕ → ℕ → Natural32 → ℕ → IntegerXMemory → Option IntegerXMemory}
  {m : IntegerXMemory} {n nm1 x y q N X Q : ℕ}

lemma Stands.compare_eq_zero {u v : ℕ} (hx : m.Stands x u) (hy : m.Stands y v) :
    ∃ c, m.compare x y = some c ∧ (c = 0 ↔ u = v) := by
  have hsign := compare_sign hx.normalised hy.normalised
  rw [hx.value, hy.value] at hsign
  obtain ⟨c, hc, hs⟩ := Option.map_eq_some_iff.mp hsign
  refine ⟨c, hc, ?_⟩
  rw [← Int.sign_eq_zero_iff_zero, hs, Int.sign_eq_zero_iff_zero, sub_eq_zero, Nat.cast_inj]

lemma Stands.cmpUi_eq_zero {u : ℕ} (hx : m.Stands x u) (v : Natural32) :
    ∃ c, m.cmpUi x v = some c ∧ (c = 0 ↔ u = v.toNat) := by
  have hsign := cmpUi_sign hx.normalised v
  rw [hx.value] at hsign
  obtain ⟨c, hc, hs⟩ := Option.map_eq_some_iff.mp hsign
  refine ⟨c, hc, ?_⟩
  rw [← Int.sign_eq_zero_iff_zero, hs, Int.sign_eq_zero_iff_zero, sub_eq_zero, Nat.cast_inj]

/-- A square of a power. -/
lemma pow_two_pow_succ (w N i : ℕ) : (w ^ 2 % N) ^ 2 ^ i % N = w ^ 2 ^ (i + 1) % N := by
  rw [← Nat.pow_mod, ← pow_mul, ← pow_succ']

/-- **The loop of `millerrabin_test`** finds a square that is minus one.

**Proof sketch.** Induction on the number of squares. The loop ends with a square that is one, and
the squares behind it are one. -/
lemma squareLoop_run (hpowmUi : PowmUiExact powmUi) (hN : 2 < N) (j : ℕ) (hm : m.WellFormed)
    (hn : m.Stands n N) (hnm1 : m.Stands nm1 (N - 1 : ℕ)) {w : ℕ} (hy : m.Stands y w)
    (hyn : y ≠ n) (hynm1 : y ≠ nm1) :
    ∃ (result : ℤ) (m' : IntegerXMemory) (v : ℕ),
      squareLoop powmUi n nm1 y j m = some (result, m') ∧ m.Outcome m' y v ∧
      (result = 1 ∨ result = 0 ∨ result = -1) ∧
      (result = 1 ↔ ∃ i < j, w ^ 2 ^ (i + 1) % N = N - 1) := by
  induction j generalizing m w with
  | zero =>
    refine ⟨-1, m, w, rfl, ?_, Or.inr (Or.inr rfl), ?_⟩
    · have hout := outcome_refl hm hy.normalised
      rwa [hy.value] at hout
    · exact ⟨fun h => absurd h (by decide), fun ⟨i, hi, _⟩ => absurd hi (Nat.not_lt_zero i)⟩
  | succ j ih =>
    obtain ⟨m₁, hrun, hout⟩ := hpowmUi m y y n w N 2 hm hy.lt hy hn (by omega) hyn
    have htwo : (2 : Natural32).toNat = 2 := rfl
    rw [htwo] at hout
    have hy₁ := hout.stands hy.lt
    have hn₁ := hn.outcome hout hyn.symm
    have hnm1₁ := hnm1.outcome hout hynm1.symm
    obtain ⟨c, hc, hc0⟩ := hy₁.compare_eq_zero hnm1₁
    obtain ⟨d, hd, hd0⟩ := hy₁.cmpUi_eq_zero 1
    simp only [squareLoop, hrun, hc, Option.bind_eq_bind, Option.bind_some]
    by_cases hneg : w ^ 2 % N = N - 1
    · rw [if_pos (hc0.mpr hneg)]
      refine ⟨1, m₁, _, rfl, hout, Or.inl rfl, iff_of_true rfl ⟨0, Nat.succ_pos j, ?_⟩⟩
      rwa [Nat.zero_add, pow_one]
    · rw [if_neg fun h0 => hneg (hc0.mp h0), hd, Option.bind_some]
      by_cases hpos : w ^ 2 % N = 1
      · rw [if_pos (hd0.mpr hpos)]
        refine ⟨0, m₁, _, rfl, hout, Or.inr (Or.inl rfl), iff_of_false (by decide) ?_⟩
        rintro ⟨i, -, hi⟩
        rw [← pow_two_pow_succ, hpos, one_pow, Nat.mod_eq_of_lt (by omega)] at hi
        omega
      · rw [if_neg fun h0 => hpos (hd0.mp h0)]
        obtain ⟨result, m', v, hloop, hout', hcases, hiff⟩ := ih hout.wellFormed hn₁ hnm1₁ hy₁
        refine ⟨result, m', v, hloop, hout.trans hout', hcases, hiff.trans ?_⟩
        simp only [pow_two_pow_succ]
        constructor
        · rintro ⟨i, hi, heq⟩
          exact ⟨i + 1, by omega, heq⟩
        · rintro ⟨i, hi, heq⟩
          cases i with
          | zero =>
            rw [Nat.zero_add, pow_one] at heq
            exact absurd heq hneg
          | succ i => exact ⟨i, by omega, heq⟩

/-- **`millerrabin_test`**: the result is one if the first power is one, or one of the powers that
are squared is minus one. At least the first power is looked at. -/
lemma millerrabinTest_run (hpowm : PowmExact powm) (hpowmUi : PowmUiExact powmUi) (hN : 2 < N)
    (hm : m.WellFormed) (hn : m.Stands n N) (hnm1 : m.Stands nm1 (N - 1 : ℕ)) (hx : m.Stands x X)
    (hq : m.Stands q Q) (hy : y < m.objects) (hyn : y ≠ n) (hynm1 : y ≠ nm1) (hyx : y ≠ x)
    (hyq : y ≠ q) (k : ℤ) :
    ∃ (result : ℤ) (m' : IntegerXMemory) (v : ℕ),
      millerrabinTest powm powmUi n nm1 x y q k m = some (result, m') ∧ m.Outcome m' y v ∧
      (result = 1 ∨ result = 0) ∧
      (result = 1 ↔ X ^ Q % N = 1 ∨ ∃ i < max 1 k.toNat, X ^ (2 ^ i * Q) % N = N - 1) := by
  obtain ⟨m₁, hrun, hout⟩ := hpowm m y x q n X Q N hm hy hx hq hn (by omega) hyx hyq hyn
  have hy₁ := hout.stands hy
  have hn₁ := hn.outcome hout hyn.symm
  have hnm1₁ := hnm1.outcome hout hynm1.symm
  obtain ⟨c, hc, hc0⟩ := hy₁.compare_eq_zero hnm1₁
  obtain ⟨d, hd, hd0⟩ := hy₁.cmpUi_eq_zero 1
  have hpower (i : ℕ) : (X ^ Q % N) ^ 2 ^ i % N = X ^ (2 ^ i * Q) % N := by
    rw [← Nat.pow_mod, ← pow_mul, Nat.mul_comm]
  simp only [millerrabinTest, hrun, hc, hd, Option.bind_eq_bind, Option.bind_some]
  by_cases hfirst : d = 0 ∨ c = 0
  · rw [if_pos hfirst]
    refine ⟨1, m₁, _, rfl, hout, Or.inl rfl, iff_of_true rfl ?_⟩
    rcases hfirst with h | h
    · exact Or.inl (hd0.mp h)
    · refine Or.inr ⟨0, by omega, ?_⟩
      rw [pow_zero, Nat.one_mul]
      exact hc0.mp h
  · rw [if_neg hfirst]
    rw [not_or, hc0, hd0] at hfirst
    obtain ⟨result, m', v, hloop, hout', hcases, hiff⟩ := squareLoop_run hpowmUi hN (k - 1).toNat
      hout.wellFormed hn₁ hnm1₁ hy₁ hyn hynm1
    have hresult : (if result = -1 then 0 else result) = 1 ↔ result = 1 := by
      split <;> omega
    refine ⟨if result = -1 then 0 else result, m', v, by rw [hloop]; rfl, hout.trans hout', ?_, ?_⟩
    · split <;> omega
    · rw [hresult, hiff]
      simp only [hpower]
      constructor
      · rintro ⟨i, hi, heq⟩
        exact Or.inr ⟨i + 1, by omega, heq⟩
      · rintro (h | ⟨i, hi, heq⟩)
        · exact absurd h hfirst.1
        · cases i with
          | zero =>
            rw [pow_zero, Nat.one_mul] at heq
            exact absurd heq hfirst.2
          | succ i => exact ⟨i, by omega, heq⟩

/-- **The test is the strong one** for the exponents that it should get. -/
lemma millerrabinTest_strong (hpowm : PowmExact powm) (hpowmUi : PowmUiExact powmUi) (hN : 2 < N)
    (hm : m.WellFormed) (hn : m.Stands n N) (hnm1 : m.Stands nm1 (N - 1 : ℕ)) (hx : m.Stands x X)
    (hq : m.Stands q Q) (hy : y < m.objects) (hyn : y ≠ n) (hynm1 : y ≠ nm1) (hyx : y ≠ x)
    (hyq : y ≠ q) {k : ℕ} (hk : 1 ≤ k) (hsplit : N - 1 = 2 ^ k * Q) (hodd : Odd Q) :
    ∃ (result : ℤ) (m' : IntegerXMemory),
      millerrabinTest powm powmUi n nm1 x y q k m = some (result, m') ∧
      (result = 1 ↔ StrongProbablePrime N X) := by
  obtain ⟨result, m', v, hrun, -, -, hiff⟩ := millerrabinTest_run hpowm hpowmUi hN hm hn hnm1 hx hq
    hy hyn hynm1 hyx hyq k
  refine ⟨result, m', hrun, hiff.trans ?_⟩
  have hmax : max 1 (k : ℤ).toNat = k := by omega
  have hneg : (N - 1) % N = N - 1 := Nat.mod_eq_of_lt (by omega)
  rw [StrongProbablePrime.iff_of_eq hsplit hodd, hmax,
    StrongProbablePrime.mod_eq_one_iff (by omega)]
  simp only [Nat.ModEq, hneg]

end OneBase

/-! ## The steps of `millerrabin` -/

section Steps

variable {powm : ℕ → ℕ → ℕ → ℕ → IntegerXMemory → Option IntegerXMemory}
  {powmUi : ℕ → ℕ → Natural32 → ℕ → IntegerXMemory → Option IntegerXMemory}
  {m m' : IntegerXMemory} {l : MillerrabinLocals} {N Q : ℕ}

/-- The objects of `millerrabin` stand for what they should, with the first exponent `Q`. Those that
are written are none of the others. -/
structure Prepared (l : MillerrabinLocals) (N Q : ℕ) (m : IntegerXMemory) : Prop where
  /-- Every object has an array of its own. -/
  wellFormed : m.WellFormed
  /-- The argument. -/
  source : m.Stands l.source N
  /-- The argument less one. -/
  nm1 : m.Stands l.nm1 (N - 1 : ℕ)
  /-- The argument less three. -/
  nm3 : m.Stands l.nm3 (N - 3 : ℕ)
  /-- The first exponent. -/
  q : m.Stands l.q Q
  /-- The base is there. -/
  x_lt : l.x < m.objects
  /-- The power is there. -/
  y_lt : l.y < m.objects
  /-- The base is an object of its own. -/
  x_apart : l.x ≠ l.source ∧ l.x ≠ l.nm1 ∧ l.x ≠ l.nm3 ∧ l.x ≠ l.q ∧ l.x ≠ l.y
  /-- The power is an object of its own. -/
  y_apart : l.y ≠ l.source ∧ l.y ≠ l.nm1 ∧ l.y ≠ l.nm3 ∧ l.y ≠ l.q

/-- Writing to the base or the power keeps the other objects. -/
lemma Prepared.outcome {t : ℕ} {v : ℤ} (h : Prepared l N Q m) (ht : t = l.x ∨ t = l.y)
    (hout : m.Outcome m' t v) : Prepared l N Q m' := by
  obtain ⟨hxs, hxn, hx3, hxq, -⟩ := h.x_apart
  obtain ⟨hys, hyn, hy3, hyq⟩ := h.y_apart
  have hne {z : ℕ} (hx : l.x ≠ z) (hy : l.y ≠ z) : z ≠ t := by
    rintro rfl
    exact ht.elim (fun he => hx he.symm) fun he => hy he.symm
  exact ⟨hout.wellFormed, h.source.outcome hout (hne hxs hys), h.nm1.outcome hout (hne hxn hyn),
    h.nm3.outcome hout (hne hx3 hy3), h.q.outcome hout (hne hxq hyq),
    by rw [hout.objects]; exact h.x_lt, by rw [hout.objects]; exact h.y_lt, h.x_apart, h.y_apart⟩

/-- **A step** draws a base `X`, tests it and keeps the other objects. If the first number drawn is
below the bound, it is the base less two. -/
lemma millerrabinStep_run (hpowm : PowmExact powm) (hpowmUi : PowmUiExact powmUi) (hN : 4 < N)
    (h : Prepared l N Q m) (draws : ℕ → ℕ) (hdraws : ∀ j, draws j < 2 ^ (N - 4).size) :
    ∃ (result : ℤ) (m' : IntegerXMemory) (X : ℕ),
      millerrabinStep powm powmUi l draws m = some (result, m') ∧ Prepared l N Q m' ∧
      m'.value l.x = X ∧ (draws 0 < N - 3 → X = draws 0 + 2) ∧
      (result = 1 ↔ X ^ Q % N = 1 ∨ ∃ i < max 1 l.k.toNat, X ^ (2 ^ i * Q) % N = N - 1) := by
  have hmag : m.magnitude l.nm3 = N - 3 := by
    rw [← natAbs_value, h.nm3.value, Int.natAbs_natCast]
  have hpred : N - 3 - 1 = N - 4 := by omega
  obtain ⟨c, hc, hbig, -, m₁, hrun₁, hout₁⟩ := urandomm_outcome h.wellFormed h.x_lt h.nm3.lt
    h.nm3.normalised (show 1 < m.magnitude l.nm3 by omega)
    (show ∀ j, draws j < 2 ^ (m.magnitude l.nm3 - 1).size by rw [hmag, hpred]; exact hdraws)
  set d : ℕ := if c = 0 then (draws 79 + (2 ^ 32) ^ (m.count l.nm3).natAbs - m.magnitude l.nm3) %
    (2 ^ 32) ^ (m.count l.nm3).natAbs else draws (79 - c) with hd
  have h₁ := h.outcome (Or.inl rfl) hout₁
  have hx₁ := hout₁.stands h.x_lt
  obtain ⟨m₂, hrun₂, hout₂⟩ := addUi_outcome h₁.wellFormed h₁.x_lt hx₁.lt hx₁.normalised 2
  rw [hx₁.value] at hout₂
  have h₂ := h₁.outcome (Or.inl rfl) hout₂
  have htwo : (d : ℤ) + ((2 : Natural32).toNat : ℤ) = (d + 2 : ℕ) := rfl
  rw [htwo] at hout₂
  have hx₂ := hout₂.stands h₁.x_lt
  obtain ⟨hys, hyn, -, hyq⟩ := h.y_apart
  obtain ⟨-, -, -, -, hxy⟩ := h.x_apart
  obtain ⟨result, m₃, v, hrun₃, hout₃, -, hiff⟩ := millerrabinTest_run hpowm hpowmUi
    (show 2 < N by omega) h₂.wellFormed h₂.source h₂.nm1 hx₂ h₂.q h₂.y_lt hys hyn hxy.symm hyq l.k
  refine ⟨result, m₃, d + 2, ?_, h₂.outcome (Or.inr rfl) hout₃, (hx₂.outcome hout₃ hxy).value, ?_,
    hiff⟩
  · simp only [millerrabinStep, hrun₁, hrun₂, Option.bind_eq_bind, Option.bind_some]
    exact hrun₃
  · intro hfirst
    have hc79 : 79 - c = 0 := by
      by_contra hne
      have := hbig 0 (Nat.pos_of_ne_zero hne)
      omega
    rw [hd, if_neg (by omega), hc79]

/-- **The steps so far** keep the other objects. -/
lemma millerrabinLoop_run (hpowm : PowmExact powm) (hpowmUi : PowmUiExact powmUi) (hN : 4 < N)
    {m₀ : IntegerXMemory} (h : Prepared l N Q m₀) {draws : ℕ → ℕ → ℕ}
    (hdraws : ∀ r j, draws r j < 2 ^ (N - 4).size) (reps : ℕ) :
    ∃ isPrime m, millerrabinLoop powm powmUi l draws reps m₀ = some (isPrime, m) ∧
      Prepared l N Q m := by
  induction reps with
  | zero => exact ⟨1, m₀, rfl, h⟩
  | succ reps ih =>
    obtain ⟨isPrime, m, hloop, hm⟩ := ih
    simp only [millerrabinLoop, hloop, Option.bind_eq_bind, Option.bind_some]
    split
    · exact ⟨isPrime, m, rfl, hm⟩
    · obtain ⟨result, m', -, hstep, hm', -⟩ :=
        millerrabinStep_run hpowm hpowmUi hN hm _ (hdraws reps)
      exact ⟨result, m', hstep, hm'⟩

/-- The count of a number that is not negative. -/
lemma Stands.count_nonneg {x v : ℕ} (hs : m.Stands x v) : 0 ≤ m.count x := by
  rw [← not_lt, ← hs.normalised.value_neg_iff, hs.value]
  exact not_lt.mpr (Int.natCast_nonneg v)

/-- The count of a number that is not zero. -/
lemma Stands.count_ne_zero {x v : ℕ} (hs : m.Stands x v) (hv : v ≠ 0) : m.count x ≠ 0 :=
  fun h0 => hv (by
    rw [← Nat.cast_inj (R := ℤ), ← hs.value, value_of_count_eq_zero h0, Nat.cast_zero])

/-- The scan of a positive number from the lowest bit on returns zero. -/
lemma bitScan1_zero {x : ℕ} {v : ℕ} (hs : m.Stands x v) (hv : v ≠ 0) : m.bitScan1 x 0 = some 0 := by
  have hne := hs.count_ne_zero hv
  obtain ⟨limb, hlimb, hscan⟩ := hs.normalised.bitScan1_eq 0 hs.count_nonneg (by omega)
  have hmask : limb &&& BitVec.allOnes 32 <<< (0 % 32) = limb := by
    rw [Nat.zero_mod, BitVec.shiftLeft_zero, BitVec.and_allOnes]
  rw [hscan, hmask, if_neg]
  rintro ⟨h0, hcount⟩
  refine hs.normalised.top hne ?_
  rw [← hcount, Nat.add_sub_cancel, hlimb, h0]

/-- Taking a small number away from an object of another object. -/
lemma subUi_stands {t x v : ℕ} (hm : m.WellFormed) (ht : t < m.objects) (hs : m.Stands x v)
    {u : Natural32} (hu : u.toNat ≤ v) (hv : v ≠ 0) :
    ∃ m', m.subUi t x u = some m' ∧ m.Outcome m' t (v - u.toNat : ℕ) := by
  obtain ⟨m', hrun, hout⟩ := subUi_outcome hm ht hs.lt hs.normalised (v := u)
    fun h0 => absurd h0 (hs.count_ne_zero hv)
  rw [hs.value, ← Nat.cast_sub hu] at hout
  exact ⟨m', hrun, hout⟩

/-- **A new object for the number less `u`.** The other objects are kept. -/
lemma created_subUi (hm : m.WellFormed) {source c u : ℕ} (hs : m.Stands source N) {v : Natural32}
    (hv : v.toNat = u) (hu : u ≤ N) (hN : N ≠ 0) :
    ∃ m', m.createLimbs (c + 1 : ℕ) = some (m.objects, m.makeLimbs (c + 1)) ∧
      (m.makeLimbs (c + 1)).subUi m.objects source v = some m' ∧ m'.WellFormed ∧
      m'.objects = m.objects + 1 ∧ m'.Stands m.objects (N - u : ℕ) ∧
      ∀ y (w : ℤ), m.Stands y w → m'.Stands y w := by
  obtain ⟨hrun, hcr⟩ := created_createLimbs hm (c + 1)
  obtain ⟨m', hsub, hout⟩ := subUi_stands hcr.wellFormed hcr.stands.lt (hs.created hcr) (u := v)
    (by rwa [hv]) hN
  rw [hv] at hout
  exact ⟨m', hrun, hsub, hout.wellFormed, hout.objects.trans hcr.objects,
    hout.stands hcr.stands.lt, fun y w hy => (hy.created hcr).outcome hout hy.lt.ne⟩

/-- The room of an object is kept by the creation of another. -/
lemma capacity_makeLimbs_of_lt (hm : m.WellFormed) {x : ℕ} (hx : x < m.objects) (n : ℕ) :
    (m.makeLimbs n).capacity x = m.capacity x := by
  obtain ⟨hitem, -, harray⟩ := newObject_old hm (List.replicate n 0) 0 hx
  show ((m.newObject (List.replicate n 0) 0).arrays
    ((m.newObject (List.replicate n 0) 0).item x)).length = _
  rw [hitem, harray]
  rfl

/-- The room of an object that is created. -/
lemma capacity_makeLimbs (m : IntegerXMemory) (n : ℕ) : (m.makeLimbs n).capacity m.objects = n := by
  show ((m.newObject (List.replicate n 0) 0).arrays
    ((m.newObject (List.replicate n 0) 0).item m.objects)).length = n
  rw [newObject_item, List.length_replicate]

/-- **`set_from_natural_32`** sets an object that has room for a limb. -/
lemma setFromNatural32_outcome (hm : m.WellFormed) {x : ℕ} (hx : x < m.objects)
    (hroom : 1 ≤ m.capacity x) (v : Natural32) :
    ∃ m', m.setFromNatural32 x v = some m' ∧ m.Outcome m' x v.toNat := by
  obtain ⟨g, hput, hout⟩ := putLimb_outcome (Extends.refl hm) hx hroom v false
  rw [if_neg Bool.false_ne_true] at hout
  exact ⟨_, by rw [setFromNatural32, hput, Option.map_some], hout⟩

/-- The quotient by the power zero is the number. -/
lemma tdivQ2expInt_zero (hm : m.WellFormed) {t x : ℕ} {v : ℤ} (ht : t < m.objects)
    (hs : m.Stands x v) : ∃ m', m.tdivQ2expInt t x 0 = some m' ∧ m.Outcome m' t v := by
  obtain ⟨m', hrun, hout⟩ := tdivQ2exp_outcome hm ht hs.lt hs.normalised 0
  rw [pow_zero, Int.tdiv_one, hs.value] at hout
  exact ⟨m', by rw [tdivQ2expInt, if_neg (lt_irrefl _), Int.toNat_zero, hrun], hout⟩

/-- **The part before the loop**: the exponent is zero, and the first exponent is `N - 1`. -/
lemma millerrabinStart_run (hpowm : PowmExact powm) (hN : 4 < N) (source : ℕ) (hm : m.WellFormed)
    (hs : m.Stands source N) (hfermat : 210 ^ (N - 1) ≡ 1 [MOD N]) :
    ∃ l m₀, m.millerrabinStart powm source = some (some l, m₀) ∧ Prepared l N (N - 1) m₀ ∧
      l.k = 0 := by
  obtain ⟨c, hc⟩ : ∃ c : ℕ, m.count source = c := Int.eq_ofNat_of_zero_le hs.count_nonneg
  have hsucc : (c : ℤ) + 1 = (c + 1 : ℕ) := rfl
  have hdouble : 2 * (c : ℤ) = (2 * c : ℕ) := rfl
  have hlt := hs.lt
  -- `nm1`
  obtain ⟨m₂, hrun₁, hrun₂, hm₂, hobj₂, hnm1₂, hkeep₂⟩ :=
    created_subUi (c := c) (u := 1) hm hs (v := 1) rfl (by omega) (by omega)
  have hs₂ := hkeep₂ _ _ hs
  -- `x` and `y`
  obtain ⟨hrun₃, hcr₃⟩ := created_createLimbs hm₂ (c + 1)
  have hcap₃ := capacity_makeLimbs m₂ (c + 1)
  set m₃ := m₂.makeLimbs (c + 1)
  obtain ⟨hrun₄, hcr₄⟩ := created_createLimbs hcr₃.wellFormed (2 * c)
  have hcap₄ := capacity_makeLimbs_of_lt hcr₃.wellFormed hcr₃.stands.lt (2 * c)
  set m₄ := m₃.makeLimbs (2 * c)
  have hs₄ := (hs₂.created hcr₃).created hcr₄
  have hnm1₄ := (hnm1₂.created hcr₃).created hcr₄
  have hx₄ := hcr₃.stands.created hcr₄
  have hobj₃ : m₃.objects = m.objects + 2 := by rw [hcr₃.objects, hobj₂]
  have hobj₄ : m₄.objects = m.objects + 3 := by rw [hcr₄.objects, hobj₃]
  obtain ⟨m₅, hrun₅, hout₅⟩ := setFromNatural32_outcome hcr₄.wellFormed hx₄.lt (by omega) 210
  have hbase : ((210 : Natural32).toNat : ℤ) = (210 : ℕ) := rfl
  rw [hbase] at hout₅
  have hs₅ := hs₄.outcome hout₅ (by omega)
  have hnm1₅ := hnm1₄.outcome hout₅ (by omega)
  have hx₅ := hout₅.stands hx₄.lt
  -- the Fermat test
  obtain ⟨m₆, hrun₆, hout₆⟩ := hpowm m₅ m₃.objects m₂.objects m.objects source 210 (N - 1) N
    hout₅.wellFormed (by rw [hout₅.objects]; omega) hx₅ hnm1₅ hs₅ (by omega) (by omega) (by omega)
    (by omega)
  rw [(StrongProbablePrime.mod_eq_one_iff (by omega)).mpr hfermat] at hout₆
  have hy₆ := hout₆.stands (by rw [hout₅.objects]; omega)
  have hs₆ := hs₅.outcome hout₆ (by omega)
  have hnm1₆ := hnm1₅.outcome hout₆ (by omega)
  obtain ⟨d, hd, hd0⟩ := hy₆.cmpUi_eq_zero 1
  have hzero : d = 0 := hd0.mpr rfl
  have hobj₆ : m₆.objects = m.objects + 3 := by rw [hout₆.objects, hout₅.objects, hobj₄]
  -- `q` and `nm3`
  obtain ⟨hrun₇, hcr₇⟩ := created_createLimbs hout₆.wellFormed c
  set m₇ := m₆.makeLimbs c
  have hnm1₇ := hnm1₆.created hcr₇
  have hscan := bitScan1_zero hnm1₇ (by omega)
  obtain ⟨m₈, hrun₈, hout₈⟩ := tdivQ2expInt_zero hcr₇.wellFormed hcr₇.stands.lt hnm1₇
  have hobj₈ : m₈.objects = m.objects + 4 := by rw [hout₈.objects, hcr₇.objects, hobj₆]
  have hs₈ := (hs₆.created hcr₇).outcome hout₈ (by omega)
  have hnm1₈ := hnm1₇.outcome hout₈ (by omega)
  have hq₈ := hout₈.stands hcr₇.stands.lt
  obtain ⟨m₀, hrun₉, hrun₀, hm₀, hobj₀, hnm3₀, hkeep₀⟩ :=
    created_subUi (c := c) (u := 3) hout₈.wellFormed hs₈ (v := 3) rfl (by omega)
      (by omega)
  refine ⟨⟨source, m.objects, m₈.objects, m₂.objects, m₃.objects, m₆.objects, 0⟩, m₀, ?_,
    ⟨hm₀, hkeep₀ _ _ hs₈, hkeep₀ _ _ hnm1₈, hnm3₀, hkeep₀ _ _ hq₈, ?_, ?_, ?_, ?_⟩, rfl⟩
  · simp only [millerrabinStart, hc, hsucc, hdouble, hrun₁, hrun₂, hrun₃, hrun₄, hrun₅, hrun₆, hd,
      hzero, hrun₇, hscan, hrun₈, hrun₉, hrun₀, Option.bind_eq_bind, Option.bind_some, ne_eq,
      not_true_eq_false, if_false]
    rfl
  all_goals
    dsimp only
    omega

/-- **The steps of `millerrabin`.** For an odd number above `1000000` that passes the Fermat test to
base `210`, each step that is made returns one exactly when the number is a strong probable prime to
the base that was drawn, if and only if it is one or fails the Fermat test to this base. -/
theorem millerrabin_steps (powm : ℕ → ℕ → ℕ → ℕ → IntegerXMemory → Option IntegerXMemory)
    (powmUi : ℕ → ℕ → Natural32 → ℕ → IntegerXMemory → Option IntegerXMemory)
    (hpowm : PowmExact powm) (hpowmUi : PowmUiExact powmUi) (m : IntegerXMemory)
    (hm : m.WellFormed) (source n : ℕ) (hs : m.Stands source n) (hodd : Odd n) (hn : 1000000 < n)
    (hfermat : 210 ^ (n - 1) ≡ 1 [MOD n]) (draws : ℕ → ℕ → ℕ)
    (hdraws : ∀ r j, draws r j < 2 ^ (n - 4).size) :
    ∃ l m₀, m.millerrabinStart powm source = some (some l, m₀) ∧ ∀ reps, ∃ isPrime m₁,
      millerrabinLoop powm powmUi l draws reps m₀ = some (isPrime, m₁) ∧
      (isPrime ≠ 0 → ∃ (result : ℤ) (m₂ : IntegerXMemory) (x : ℕ),
        millerrabinStep powm powmUi l (draws reps) m₁ = some (result, m₂) ∧
        m₂.value l.x = x ∧ ((result = 1 ↔ StrongProbablePrime n x) ↔
          (x ^ (n - 1) ≡ 1 [MOD n] → StrongProbablePrime n x))) := by
  have hneg : (n - 1) % n = n - 1 := Nat.mod_eq_of_lt (by omega)
  obtain ⟨l, m₀, hstart, hprep, hk⟩ := millerrabinStart_run hpowm (by omega) source hm hs hfermat
  refine ⟨l, m₀, hstart, fun reps => ?_⟩
  obtain ⟨isPrime, m₁, hloop, hprep₁⟩ :=
    millerrabinLoop_run hpowm hpowmUi (by omega) hprep hdraws reps
  refine ⟨isPrime, m₁, hloop, fun _ => ?_⟩
  obtain ⟨result, m₂, x, hstep, -, hx, -, hiff⟩ :=
    millerrabinStep_run hpowm hpowmUi (by omega) hprep₁ _ (hdraws reps)
  refine ⟨result, m₂, x, hstep, hx, ?_⟩
  -- the only power that is looked at is not minus one
  have hresult : result = 1 ↔ x ^ (n - 1) ≡ 1 [MOD n] := by
    rw [hiff, hk, StrongProbablePrime.mod_eq_one_iff (by omega)]
    constructor
    · rintro (h | ⟨i, hi, heq⟩)
      · exact h
      · obtain rfl : i = 0 := by omega
        rw [pow_zero, Nat.one_mul] at heq
        exact absurd (show x ^ (n - 1) ≡ n - 1 [MOD n] by rw [Nat.ModEq, heq, hneg])
          (StrongProbablePrime.not_pow_sub_one_modEq hodd (by omega) x)
    · exact Or.inl
  rw [hresult]
  exact ⟨fun h => h.mp, fun h => ⟨h, StrongProbablePrime.pow_sub_one (by omega)⟩⟩

/-- An object gets a number that is not negative. -/
def assign (r v : ℕ) (m : IntegerXMemory) : IntegerXMemory :=
  (m.resize r (limbCount v)).setNumber r (ofNat 32 (limbCount v) v) (limbCount v)

/-- The power as it should be stored. -/
def exactPowm (r b e n : ℕ) (m : IntegerXMemory) : Option IntegerXMemory :=
  some (m.assign r ((m.value b).toNat ^ (m.value e).toNat % (m.value n).toNat))

/-- The power with a small exponent as it should be stored. -/
def exactPowmUi (r b : ℕ) (e : Natural32) (n : ℕ) (m : IntegerXMemory) : Option IntegerXMemory :=
  some (m.assign r ((m.value b).toNat ^ e.toNat % (m.value n).toNat))

lemma assign_outcome {r : ℕ} (hm : m.WellFormed) (hr : r < m.objects) (v : ℕ) :
    m.Outcome (m.assign r v) r v := by
  obtain ⟨hext, hcap⟩ := extends_resize hm hr (limbCount v)
  have htake : Limbs.value ((ofNat 32 (limbCount v) v).take (limbCount v : ℤ).natAbs) = v := by
    rw [Int.natAbs_natCast, List.take_of_length_le (length_ofNat _ _).le,
      value_ofNat_of_lt (lt_pow_limbCount v)]
  have hout := hext.outcome_setNumber (c := (limbCount v : ℤ)) hr (by rwa [length_ofNat])
    (by rw [length_ofNat, Int.natAbs_natCast]) htake fun hne => by
      rw [Int.natAbs_natCast]
      refine pow_limbCount_le ?_
      rintro rfl
      exact hne rfl
  have hsign : (limbCount v : ℤ).sign * (v : ℤ) = v := by
    rcases Nat.eq_zero_or_pos v with rfl | hpos
    · exact mul_zero _
    · have hne : limbCount v ≠ 0 := fun h0 => by
        have hlt := lt_pow_limbCount v
        rw [h0, pow_zero] at hlt
        omega
      rw [Int.sign_natCast_of_ne_zero hne, one_mul]
  rwa [hsign] at hout

lemma powmExact_exactPowm : PowmExact exactPowm := by
  intro m r b e n u v w hm hr hb he hn _ _ _ _
  refine ⟨_, rfl, ?_⟩
  rw [hb.value, he.value, hn.value, Int.toNat_natCast, Int.toNat_natCast, Int.toNat_natCast]
  exact assign_outcome hm hr _

lemma powmUiExact_exactPowmUi : PowmUiExact exactPowmUi := by
  intro m r b n u w v hm hr hb hn _ _
  refine ⟨_, rfl, ?_⟩
  rw [hb.value, hn.value, Int.toNat_natCast, Int.toNat_natCast]
  exact assign_outcome hm hr _

/-- The prime `1000003`, with zeros drawn. -/
theorem millerrabin_steps_prime :
    ∃ l m₀, (single [1000003] 1).millerrabinStart exactPowm 0 = some (some l, m₀) ∧
      ∀ reps, ∃ isPrime m₁,
      millerrabinLoop exactPowm exactPowmUi l (fun _ _ => 0) reps m₀ = some (isPrime, m₁) ∧
      (isPrime ≠ 0 → ∃ (result : ℤ) (m₂ : IntegerXMemory) (x : ℕ),
        millerrabinStep exactPowm exactPowmUi l (fun _ => 0) m₁ = some (result, m₂) ∧
        m₂.value l.x = x ∧ ((result = 1 ↔ StrongProbablePrime 1000003 x) ↔
          (x ^ (1000003 - 1) ≡ 1 [MOD 1000003] → StrongProbablePrime 1000003 x))) := by
  have hexp : 1000003 - 1 = 1000002 := rfl
  have hfermat : 210 ^ (1000003 - 1) ≡ 1 [MOD 1000003] := by
    rw [StrongProbablePrime.modEq_one_iff, Nat.cast_pow, Nat.cast_ofNat, hexp]
    reduce_mod_char
  exact millerrabin_steps exactPowm exactPowmUi powmExact_exactPowm powmUiExact_exactPowmUi
    (single [1000003] 1) ⟨by decide, by decide⟩ 0 1000003
    ⟨by decide, ⟨by decide, by decide⟩, by decide⟩ (by decide) (by decide) hfermat (fun _ _ => 0)
    fun _ _ => by positivity

/-- For `1152271`, which is `43 * 127 * 211` and passes the Fermat tests to the bases `210` and `2`,
a step with base `2` returns one, but it is no strong probable prime to this base. -/
theorem not_millerrabin_steps :
    210 ^ (1152271 - 1) ≡ 1 [MOD 1152271] ∧
    ¬ ∀ (l : MillerrabinLocals) (m₀ m₁ : IntegerXMemory) (result : ℤ) (x : ℕ),
      (single [1152271] 1).millerrabinStart exactPowm 0 = some (some l, m₀) →
      millerrabinStep exactPowm exactPowmUi l (fun _ => 0) m₀ = some (result, m₁) →
      m₁.value l.x = x → 2 ≤ x → x ≤ 1152269 → (result = 1 ↔ StrongProbablePrime 1152271 x) := by
  have hexp : 1152271 - 1 = 1152270 := rfl
  have hfermat : 210 ^ (1152271 - 1) ≡ 1 [MOD 1152271] := by
    rw [StrongProbablePrime.modEq_one_iff, Nat.cast_pow, Nat.cast_ofNat, hexp]
    reduce_mod_char
  refine ⟨hfermat, fun h => ?_⟩
  obtain ⟨l, m₀, hstart, hprep, -⟩ := millerrabinStart_run powmExact_exactPowm (by decide) 0
    (m := single [1152271] 1) ⟨by decide, by decide⟩
    ⟨by decide, ⟨by decide, by decide⟩, by decide⟩ hfermat
  obtain ⟨result, m₁, x, hstep, -, hx, hdraw, hiff⟩ := millerrabinStep_run powmExact_exactPowm
    powmUiExact_exactPowmUi (by decide) hprep (fun _ => 0) fun _ => by positivity
  obtain rfl : x = 2 := hdraw (by decide)
  have hpower : 2 ^ (1152271 - 1) ≡ 1 [MOD 1152271] := by
    rw [StrongProbablePrime.modEq_one_iff, Nat.cast_pow, Nat.cast_ofNat, hexp]
    reduce_mod_char
  have hstrong := (h l m₀ m₁ result 2 hstart hstep hx (by decide) (by decide)).mp
    (hiff.mpr (Or.inl ((StrongProbablePrime.mod_eq_one_iff (by decide)).mpr hpower)))
  have hroot : (2 : ZMod 1152271) ^ 576135 = 535306 := by reduce_mod_char
  rw [StrongProbablePrime.iff_of_eq (k := 1) (q := 576135) (by decide) (by decide)] at hstrong
  rcases hstrong with hone | ⟨j, hj, hneg⟩
  · rw [StrongProbablePrime.modEq_one_iff, Nat.cast_pow, Nat.cast_ofNat, hroot] at hone
    exact absurd hone (by decide)
  · rw [StrongProbablePrime.modEq_sub_one_iff (by decide), Nat.cast_pow, Nat.cast_ofNat,
      Nat.lt_one_iff.mp hj, pow_zero, Nat.one_mul, hroot] at hneg
    exact absurd hneg (by decide)

end Steps

end IntegerXMemory

end EiffelWeb
