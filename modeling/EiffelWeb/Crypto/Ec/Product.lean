import Mathlib.Algebra.Module.NatInt
import EiffelWeb.Crypto.Limb.IntegerXBits
import EiffelWeb.Crypto.Limb.IntegerXMul

set_option relaxedAutoImplicit false
set_option autoImplicit false

/-!
# The product of a point and a number

The feature `product` of `EC_POINT_FP`, over an arbitrary group of points. The number `e` is read
together with `h`, three times the number. From the second highest bit of `h` down to bit one the
partial result is doubled, and the point is added where only `h` has the bit and subtracted where
only `e` has it. Bit zero is left out: half of `3 * e` less half of `e` is `e`.

## Main definitions

* `EcPointFp.product` — with `productLoop`, its loop.
* `highDifference` — the parts of `3 * e` and of `e` from a bit on, one less the other.

## Main results

* `EcPointFp.productLoop_eq` — what the loop makes of the partial result.
* `EcPointFp.product_eq_smul` — the product.
-/

namespace EiffelWeb

namespace EcPointFp

section Product

variable {G : Type*} [AddCommGroup G] [DecidableEq G]

/-- The loop of `product` from `i` on, for the number `e` and the number `h`. -/
def productLoop (P : G) (h e : ℕ) (m : IntegerXMemory) : ℕ → G → Option G
  | 0, r => some r
  | i + 1, r =>
    let r := r + r
    (m.bitTest h (i + 1)).bind fun hBit =>
      (m.bitTest e (i + 1)).bind fun eBit =>
        if hBit ∧ ¬ eBit then productLoop P h e m i (r + P)
        else if ¬ hBit ∧ eBit then productLoop P h e m i (r - P)
        else productLoop P h e m i r

/-- `product (other, curve)`. A point is infinity if it is zero. -/
def product (P : G) (other : ℕ) (m : IntegerXMemory) : Option G :=
  if P = 0 then some P
  else if (m.count other).sign = 0 then some 0
  else
    -- `h := e * three` is a new object
    let h := m.objects
    let m := m.create (m.value other * 3)
    (m.bits h).bind fun bits => productLoop P h other m (bits - 2) P

end Product

end EcPointFp

/-! ## The two numbers -/

/-- The bits of `3 * e` from number `i` on, less those of `e`. -/
def highDifference (e i : ℕ) : ℤ := (e * 3 / 2 ^ i : ℕ) - (e / 2 ^ i : ℕ)

/-- The bits of a number from one on, from those behind it. -/
lemma div_two_pow_eq (v i : ℕ) :
    v / 2 ^ i = 2 * (v / 2 ^ (i + 1)) + if v.testBit i then 1 else 0 := by
  rw [Nat.testBit_eq_decide_div_mod_eq, pow_succ, ← Nat.div_div_eq_div_mul]
  simp only [decide_eq_true_eq]
  split <;> omega

/-- One bit more of the two numbers. -/
lemma highDifference_eq (e i : ℕ) :
    highDifference e i = 2 * highDifference e (i + 1) +
      ((if (e * 3).testBit i then 1 else 0) - if e.testBit i then 1 else 0) := by
  rw [highDifference, highDifference, div_two_pow_eq (e * 3) i, div_two_pow_eq e i]
  split <;> split <;> push_cast <;> ring

/-- Without bit zero the difference is the number. -/
lemma highDifference_one (e : ℕ) : highDifference e 1 = e := by
  rw [highDifference]
  omega

/-- The highest bit of `3 * e` stands above those of `e`. -/
lemma highDifference_top {e : ℕ} (he : 0 < e) : highDifference e ((e * 3).size - 1) = 1 := by
  have hsize : 0 < (e * 3).size := Nat.size_pos.mpr (by omega)
  obtain ⟨n, hn⟩ : ∃ n, (e * 3).size = n + 1 := ⟨(e * 3).size - 1, by omega⟩
  have hlow : 2 ^ n ≤ e * 3 := Nat.lt_size.mp (by omega)
  have hhigh : e * 3 < 2 ^ (n + 1) := Nat.size_le.mp hn.le
  rw [pow_succ] at hhigh
  have hh : e * 3 / 2 ^ n = 1 := Nat.div_eq_of_lt_le (by omega) (by omega)
  have he : e / 2 ^ n = 0 := Nat.div_eq_of_lt (by omega)
  rw [highDifference, hn, Nat.add_sub_cancel, hh, he]
  rfl

/-! ## The loop -/

namespace EcPointFp

variable {G : Type*} [AddCommGroup G] {m : IntegerXMemory}

/-- **The loop of `product`** keeps the partial result the multiple of the point by the difference
of the two numbers from the current bit on. -/
lemma productLoop_eq (P : G) {h e k : ℕ} (hh : m.Normalised h) (he : m.Normalised e)
    (hhv : m.value h = (k * 3 : ℕ)) (hev : m.value e = (k : ℕ)) (i : ℕ) :
    productLoop P h e m i (highDifference k (i + 1) • P) = some ((k : ℤ) • P) := by
  induction i with
  | zero => rw [productLoop, highDifference_one]
  | succ i ih =>
    have hdouble : highDifference k (i + 1 + 1) • P + highDifference k (i + 1 + 1) • P =
        (2 * highDifference k (i + 1 + 1)) • P := by
      rw [two_mul, add_smul]
    have hstep := highDifference_eq k (i + 1)
    rw [productLoop, hh.bitTest_natCast hhv, he.bitTest_natCast hev, Option.bind_some,
      Option.bind_some, hdouble, ← ih, hstep]
    cases (k * 3).testBit (i + 1) <;> cases k.testBit (i + 1)
    case false.false => simp
    case false.true => simp [add_smul, sub_eq_add_neg]
    case true.false => simp [add_smul]
    case true.true => simp

variable [DecidableEq G]

/-- **The product of a point and a number** is the multiple in the group of points. -/
theorem product_eq_smul (P : G) (hm : m.WellFormed) {other : ℕ} (ho : other < m.objects)
    (hn : m.Normalised other) (hpos : 1 ≤ m.value other) :
    product P other m = some (m.value other • P) := by
  by_cases hP : P = 0
  · rw [product, if_pos hP, hP, smul_zero]
  obtain ⟨k, hk⟩ : ∃ k : ℕ, m.value other = k := ⟨(m.value other).toNat, by omega⟩
  have hkpos : 0 < k := by omega
  have hsign : (m.count other).sign ≠ 0 := by
    intro h0
    rw [IntegerXMemory.value, h0, zero_mul] at hpos
    omega
  have hcreated := IntegerXMemory.created_create hm (m.value other * 3)
  obtain ⟨hother, hvalue⟩ := hcreated.others other ho hn
  have hh : (m.create (m.value other * 3)).value m.objects = (k * 3 : ℕ) := by
    rw [hcreated.value, hk, Nat.cast_mul]
    rfl
  rw [product, if_neg hP, if_neg hsign]
  dsimp only
  rw [hcreated.normalised.bits_some, hh, Option.bind_some, Int.natAbs_natCast]
  have htop := highDifference_top hkpos
  have hsize : 2 ≤ (k * 3).size := Nat.lt_size.mpr (by omega)
  have hindex : (k * 3).size - 2 + 1 = (k * 3).size - 1 := by omega
  rw [Nat.max_eq_right (by omega)]
  have hrun := productLoop_eq P hcreated.normalised hother hh (hvalue.trans hk) ((k * 3).size - 2)
  rwa [hindex, htop, one_smul, ← hk] at hrun

/-- Five times seven, in the integers. -/
theorem product_eq_smul_five :
    (1 : ℤ) ≤ 5 ∧ product (7 : ℤ) 0 (IntegerXMemory.pair [5] [0] 1 0) = some 35 :=
  ⟨by decide, product_eq_smul (7 : ℤ) (m := IntegerXMemory.pair [5] [0] 1 0) ⟨by decide, by decide⟩
    (by decide) ⟨by decide, by decide⟩ (by decide)⟩

end EcPointFp

end EiffelWeb
