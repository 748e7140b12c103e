import Mathlib.Algebra.Polynomial.Expand
import Mathlib.Algebra.Polynomial.FieldDivision
import Mathlib.Data.Nat.Bitwise
import Mathlib.Data.Nat.Size
import Mathlib.FieldTheory.Finite.Basic

set_option relaxedAutoImplicit false
set_option autoImplicit false

/-!
# Polynomials over the field with two elements

A polynomial over the field with two elements is held in the bits of a number. The exclusive
disjunction of the bits is the sum, a shift to the left is a product with a power of the variable.

## Main definitions

* `Gf2.ofBits` — the polynomial whose coefficients are the bits of a number.
* `Gf2.flips` — bits at given places.
* `Gf2.Cofactors` — the state of the extended Euclidean algorithm for an inverse.

## Main results

* `Gf2.ofBits_xor`, `Gf2.ofBits_shiftLeft` — sums and products with powers of the variable.
* `Gf2.ofBits_injective` — the bits are known from the polynomial.
* `Gf2.degree_ofBits_lt_iff` — the degree.
* `Gf2.ofBits_eq_sq` — a square has the coefficients at the even places.
* `Gf2.size_xor_shiftLeft_lt` — the highest terms of two polynomials cancel.
* `Gf2.Cofactors.reduce`, `Gf2.Cofactors.inverse` — a step of the algorithm, and its end.
-/

namespace Gf2

open Polynomial

/-- The polynomial whose coefficients are the bits of a number. -/
noncomputable def ofBits (n : ℕ) : (ZMod 2)[X] :=
  ∑ i ∈ Finset.range n.size, if n.testBit i then X ^ i else 0

lemma testBit_eq_false_of_size_le {n i : ℕ} (h : n.size ≤ i) : n.testBit i = false :=
  Nat.testBit_eq_false_of_lt (Nat.size_le.mp h)

lemma coeff_ofBits (n i : ℕ) : (ofBits n).coeff i = if n.testBit i then 1 else 0 := by
  rw [ofBits, finsetSum_coeff]
  have hterm (j : ℕ) : (if n.testBit j then (X ^ j : (ZMod 2)[X]) else 0).coeff i =
      if j = i then (if n.testBit i then 1 else 0) else 0 := by
    by_cases hj : j = i
    · subst hj
      split <;> simp
    · split <;> simp [coeff_X_pow, Ne.symm hj]
  simp only [hterm, Finset.sum_ite_eq', Finset.mem_range]
  split
  case isTrue => rfl
  case isFalse h => rw [testBit_eq_false_of_size_le (not_lt.mp h), if_neg Bool.false_ne_true]

/-- A polynomial is known from its coefficients. -/
lemma ofBits_eq_iff (n : ℕ) (p : (ZMod 2)[X]) :
    ofBits n = p ↔ ∀ i, p.coeff i = if n.testBit i then 1 else 0 := by
  rw [Polynomial.ext_iff]
  simp only [coeff_ofBits, eq_comm]

lemma ofBits_injective : Function.Injective ofBits := by
  intro a b h
  apply Nat.eq_of_testBit_eq
  intro i
  have hi := congrArg (coeff · i) h
  simp only [coeff_ofBits] at hi
  cases ha : a.testBit i <;> cases hb : b.testBit i <;> simp_all

@[simp] lemma ofBits_zero : ofBits 0 = 0 := by
  rw [ofBits_eq_iff]
  simp

@[simp] lemma ofBits_two_pow (k : ℕ) : ofBits (2 ^ k) = X ^ k := by
  rw [ofBits_eq_iff]
  intro i
  rw [coeff_X_pow, Nat.testBit_two_pow]
  simp [eq_comm]

@[simp] lemma ofBits_one : ofBits 1 = 1 := by
  rw [← pow_zero 2, ofBits_two_pow, pow_zero]

lemma ofBits_eq_zero_iff {n : ℕ} : ofBits n = 0 ↔ n = 0 := by
  rw [← ofBits_zero]
  exact ofBits_injective.eq_iff

/-- **The exclusive disjunction** is the sum. -/
lemma ofBits_xor (a b : ℕ) : ofBits (a ^^^ b) = ofBits a + ofBits b := by
  rw [ofBits_eq_iff]
  intro i
  rw [coeff_add, coeff_ofBits, coeff_ofBits, Nat.testBit_xor]
  cases a.testBit i <;> cases b.testBit i <;> decide

/-- **A shift to the left** is a product with a power of the variable. -/
lemma ofBits_shiftLeft (n k : ℕ) : ofBits (n <<< k) = X ^ k * ofBits n := by
  rw [ofBits_eq_iff]
  intro i
  rw [Nat.testBit_shiftLeft, coeff_X_pow_mul', coeff_ofBits]
  by_cases hk : k ≤ i <;> simp [hk]

lemma degree_ofBits_lt_iff (n k : ℕ) : (ofBits n).degree < k ↔ n < 2 ^ k := by
  rw [degree_lt_iff_coeff_zero]
  simp only [coeff_ofBits]
  constructor
  · intro h
    apply Nat.lt_pow_two_of_testBit
    intro i hi
    have := h i hi
    cases hb : n.testBit i <;> simp_all
  · intro h i hi
    rw [Nat.testBit_eq_false_of_lt (h.trans_le (Nat.pow_le_pow_right two_pos hi)),
      if_neg Bool.false_ne_true]

/-- A number with the bits of another one at the even places is its square. -/
lemma ofBits_eq_sq {a b : ℕ} (heven : ∀ i, b.testBit (2 * i) = a.testBit i)
    (hodd : ∀ i, b.testBit (2 * i + 1) = false) : ofBits b = ofBits a ^ 2 := by
  rw [← ZMod.expand_card, ofBits_eq_iff]
  intro i
  rw [coeff_expand two_pos, coeff_ofBits]
  rcases Nat.even_or_odd' i with ⟨k, rfl | rfl⟩
  · rw [if_pos (Dvd.intro k rfl), Nat.mul_div_cancel_left k two_pos, heven]
  · rw [if_neg (by omega), hodd, if_neg Bool.false_ne_true]

/-- The number with the bits at the given places, each flipped as often as it is given. -/
def flips : List ℕ → ℕ
  | [] => 0
  | i :: l => 2 ^ i ^^^ flips l

/-- Flipping bits adds a sum of powers of the variable. -/
lemma ofBits_flips (l : List ℕ) :
    ofBits (flips l) = (l.map fun i => (X : (ZMod 2)[X]) ^ i).sum := by
  induction l with
  | nil => rw [flips, ofBits_zero, List.map_nil, List.sum_nil]
  | cons i l ih => rw [flips, ofBits_xor, ofBits_two_pow, ih, List.map_cons, List.sum_cons]

lemma testBit_flips_eq_false {l : List ℕ} {j : ℕ} (h : ∀ i ∈ l, i ≠ j) :
    (flips l).testBit j = false := by
  induction l with
  | nil => exact Nat.zero_testBit j
  | cons i l ih =>
    rw [flips, Nat.testBit_xor, ih fun d hd => h d (by simp [hd]), Nat.testBit_two_pow,
      decide_eq_false (h i (by simp)), Bool.xor_false]

/-- One more of the low bits of a number. -/
lemma ofBits_mod_succ (n t : ℕ) :
    ofBits (n % 2 ^ (t + 1)) = ofBits (n % 2 ^ t) + if n.testBit t then X ^ t else 0 := by
  rw [ofBits_eq_iff]
  intro i
  have hterm : (if n.testBit t then (X ^ t : (ZMod 2)[X]) else 0).coeff i =
      if i = t then (if n.testBit t then 1 else 0) else 0 := by
    by_cases hb : n.testBit t = true
    · rw [if_pos hb, if_pos hb, coeff_X_pow]
    · rw [if_neg hb, if_neg hb, coeff_zero, ite_self]
  rw [coeff_add, coeff_ofBits, hterm, Nat.testBit_mod_two_pow, Nat.testBit_mod_two_pow]
  rcases lt_trichotomy i t with hlt | rfl | hgt
  · rw [decide_eq_true hlt, decide_eq_true (Nat.lt_succ_of_lt hlt), if_neg hlt.ne, add_zero]
  · rw [decide_eq_false (lt_irrefl i), decide_eq_true (Nat.lt_succ_self i), Bool.true_and,
      Bool.false_and, if_neg Bool.false_ne_true, zero_add, if_pos rfl]
  · rw [decide_eq_false (by omega), decide_eq_false (by omega), Bool.false_and, if_neg hgt.ne',
      add_zero]

/-! ## Sizes -/

lemma size_xor_le {a b k : ℕ} (ha : a.size ≤ k) (hb : b.size ≤ k) : (a ^^^ b).size ≤ k :=
  Nat.size_le.mpr (Nat.xor_lt_two_pow (Nat.size_le.mp ha) (Nat.size_le.mp hb))

/-- The highest bit of a number. -/
lemma testBit_size {a : ℕ} (ha : a ≠ 0) : a.testBit (a.size - 1) = true := by
  by_contra hb
  have hpos := Nat.size_pos.mpr (Nat.pos_of_ne_zero ha)
  have hlt : a < 2 ^ (a.size - 1) := by
    apply Nat.lt_pow_two_of_testBit
    intro i hi
    rcases hi.eq_or_lt with rfl | hlt
    · exact Bool.not_eq_true _ ▸ hb
    · exact testBit_eq_false_of_size_le (by omega)
  have := Nat.size_le.mpr hlt
  omega

/-- **The highest terms cancel** when a polynomial is shifted to the degree of another one. -/
lemma size_xor_shiftLeft_lt {a b : ℕ} (ha : a ≠ 0) (hb : b ≠ 0) (hle : b.size ≤ a.size) :
    (a ^^^ b <<< (a.size - b.size)).size < a.size := by
  have hapos := Nat.size_pos.mpr (Nat.pos_of_ne_zero ha)
  have hbpos := Nat.size_pos.mpr (Nat.pos_of_ne_zero hb)
  have hlt : a ^^^ b <<< (a.size - b.size) < 2 ^ (a.size - 1) := by
    apply Nat.lt_pow_two_of_testBit
    intro i hi
    rw [Nat.testBit_xor, Nat.testBit_shiftLeft]
    rcases hi.eq_or_lt with rfl | hlt
    · have hindex : a.size - 1 - (a.size - b.size) = b.size - 1 := by omega
      have hge : a.size - b.size ≤ a.size - 1 := by omega
      rw [testBit_size ha, hindex, testBit_size hb, decide_eq_true hge]
      rfl
    · rw [testBit_eq_false_of_size_le (by omega : a.size ≤ i),
        testBit_eq_false_of_size_le (by omega : b.size ≤ i - (a.size - b.size)), Bool.and_false]
      rfl
  have := Nat.size_le.mpr hlt
  omega

/-- The degree of a polynomial is one less than the number of its bits. -/
lemma degree_ofBits {n : ℕ} (hn : n ≠ 0) : (ofBits n).degree = (n.size - 1 : ℕ) := by
  have hpos := Nat.size_pos.mpr (Nat.pos_of_ne_zero hn)
  apply le_antisymm
  · have hlt := (degree_ofBits_lt_iff n n.size).mpr (Nat.lt_size_self n)
    rw [degree_lt_iff_coeff_zero] at hlt
    rw [degree_le_iff_coeff_zero]
    intro i hi
    have hi' : n.size - 1 < i := by exact_mod_cast hi
    exact hlt i (by omega)
  · apply le_degree_of_ne_zero
    rw [coeff_ofBits, testBit_size hn, if_pos rfl]
    exact one_ne_zero

lemma degree_ofBits_lt_degree_iff {a b : ℕ} (ha : a ≠ 0) (hb : b ≠ 0) :
    (ofBits a).degree < (ofBits b).degree ↔ a.size < b.size := by
  have hapos := Nat.size_pos.mpr (Nat.pos_of_ne_zero ha)
  have hbpos := Nat.size_pos.mpr (Nat.pos_of_ne_zero hb)
  rw [degree_ofBits ha, degree_ofBits hb, Nat.cast_lt]
  omega

lemma size_shiftLeft_le (b k : ℕ) : (b <<< k).size ≤ b.size + k := by
  rw [Nat.size_le, Nat.shiftLeft_eq, pow_add]
  exact Nat.mul_lt_mul_of_pos_right (Nat.lt_size_self b) (Nat.two_pow_pos k)

/-! ## The extended Euclidean algorithm -/

/-- The state of the algorithm for an inverse of `a` modulo `f`: the last two remainders `u` and
`v`, and their cofactors `g` and `k`. -/
structure Cofactors (f a u v g k : ℕ) : Prop where
  /-- The second remainder is not zero. -/
  ne : v ≠ 0
  /-- The remainders have no common factor. -/
  coprime : IsCoprime (ofBits u) (ofBits v)
  /-- The cofactor of the first remainder. -/
  left : ofBits f ∣ ofBits g * ofBits a - ofBits u
  /-- The cofactor of the second remainder. -/
  right : ofBits f ∣ ofBits k * ofBits a - ofBits v
  /-- A cofactor grows as the other remainder gets smaller. -/
  size_left : g.size + v.size ≤ f.size + 1
  /-- The same for the second one. -/
  size_right : k.size + u.size ≤ f.size + 1
  /-- The second cofactor is reduced. -/
  size_lt : k.size < f.size

namespace Cofactors

variable {f a u v g k : ℕ}

/-- The start: the polynomial and the modulus. -/
lemma start (hsize : a.size < f.size) (hc : IsCoprime (ofBits a) (ofBits f)) :
    Cofactors f a a f 1 0 where
  ne := by
    rintro rfl
    exact absurd hsize (Nat.not_lt_zero _)
  coprime := hc
  left := by rw [ofBits_one, one_mul, sub_self]; exact dvd_zero _
  right := by rw [ofBits_zero, zero_mul, zero_sub]; exact (dvd_neg).mpr dvd_rfl
  size_left := by rw [Nat.size_one]; omega
  size_right := by rw [Nat.size_zero]; omega
  size_lt := by rw [Nat.size_zero]; omega

/-- The remainders change places when the second one is longer. -/
lemma swap (h : Cofactors f a u v g k) (hu : u ≠ 0) (hlt : u.size < v.size) :
    Cofactors f a v u k g where
  ne := hu
  coprime := h.coprime.symm
  left := h.right
  right := h.left
  size_left := h.size_right
  size_right := h.size_left
  size_lt := by
    have hpos := Nat.size_pos.mpr (Nat.pos_of_ne_zero hu)
    have := h.size_left
    omega

/-- **One step**: the second remainder is shifted to the degree of the first one and taken away from
it. -/
lemma reduce (h : Cofactors f a u v g k) (hu : u ≠ 0) (hle : v.size ≤ u.size) :
    Cofactors f a (u ^^^ v <<< (u.size - v.size)) v (g ^^^ k <<< (u.size - v.size)) k where
  ne := h.ne
  coprime := by
    rw [ofBits_xor, ofBits_shiftLeft]
    exact h.coprime.add_mul_right_left _
  left := by
    have hsum := dvd_add h.left (h.right.mul_left (X ^ (u.size - v.size)))
    rw [ofBits_xor, ofBits_shiftLeft, ofBits_xor, ofBits_shiftLeft]
    convert hsum using 1
    ring
  right := h.right
  size_left := by
    have hshift := size_shiftLeft_le k (u.size - v.size)
    have h₁ := h.size_left
    have h₂ := h.size_right
    have hxor := @size_xor_le g (k <<< (u.size - v.size)) (f.size + 1 - v.size) (by omega)
      (by omega)
    have hpos := Nat.size_pos.mpr (Nat.pos_of_ne_zero h.ne)
    omega
  size_right := by
    have hlt := size_xor_shiftLeft_lt hu h.ne hle
    have := h.size_right
    omega
  size_lt := h.size_lt

/-- **The end**: the second cofactor is an inverse. -/
lemma inverse (h : Cofactors f a 0 v g k) (hf : 1 < f.size) :
    (ofBits k).degree < (ofBits f).degree ∧ ofBits k * ofBits a % ofBits f = 1 := by
  have hf₀ : f ≠ 0 := by
    rintro rfl
    exact absurd hf (by decide)
  have hunit : IsUnit (ofBits v) := by
    have hc := h.coprime
    rwa [ofBits_zero, isCoprime_zero_left] at hc
  have hone : ofBits v = 1 := by
    obtain ⟨r, hr, hv⟩ := Polynomial.isUnit_iff.mp hunit
    have hall : ∀ r : ZMod 2, r ≠ 0 → r = 1 := by decide
    rw [← hv, hall r hr.ne_zero, C_1]
  have hmod := Polynomial.mod_eq_of_dvd_sub (hone ▸ h.right)
  constructor
  · rw [degree_ofBits hf₀]
    exact (degree_ofBits_lt_iff k _).mpr (Nat.size_le.mp (by have := h.size_lt; omega))
  · rw [hmod, Polynomial.mod_eq_self_iff (mt ofBits_eq_zero_iff.mp hf₀), degree_one,
      degree_ofBits hf₀]
    exact_mod_cast Nat.sub_pos_of_lt hf

end Cofactors
end Gf2
