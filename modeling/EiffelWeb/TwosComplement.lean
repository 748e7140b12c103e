import Mathlib.Data.Int.Bitwise
import Mathlib.Data.Nat.Size
import EiffelWeb.Limbs

set_option relaxedAutoImplicit false
set_option autoImplicit false

/-!
# Two's complement in digits

An integer is written with a number of digits of `w` bits, the most significant first. The first
digit is read as a signed number and the others are not. With `n + 1` digits the numbers from
`- 2 ^ (w * n + w - 1)` up to that power are written; a writing is shortest if no other one of the
same number has fewer digits.

## Main definitions

* `TwosComplement.read`, `TwosComplement.digits` — reading and writing.
* `TwosComplement.excess` — the number whose bits follow the sign.
* `TwosComplement.Shortest` — the shortest writing of a number.
* `TwosComplement.withBit` — a number with one bit set or cleared.

## Main results

* `TwosComplement.excess_read_lt` — what is read from a number of digits.
* `TwosComplement.read_digits_iff` — the numbers that are read back.
* `TwosComplement.shortest_digits_iff` — when the digits are a shortest writing.
* `TwosComplement.getLsbD_ofInt`, `TwosComplement.testBit_div` — the bits of a digit.
* `TwosComplement.testBit_withBit` — the bits of a number with one bit set or cleared.
-/

namespace TwosComplement

variable {w : ℕ}

/-- The number that digits stand for, the most significant first. -/
def read : List (BitVec w) → ℤ
  | [] => 0
  | d :: c => d.toInt * (2 ^ w) ^ c.length + Limbs.value c.reverse

/-- The `n` low digits of a number, the most significant first. -/
def digits (w : ℕ) : ℕ → ℤ → List (BitVec w)
  | 0, _ => []
  | n + 1, v => BitVec.ofInt w (v / (2 ^ w) ^ n) :: digits w n v

/-- The number whose bits, or their opposites, follow the sign. -/
def excess (v : ℤ) : ℕ := if v < 0 then (-v - 1).toNat else v.toNat

/-- A writing of a number that has at least one digit and no more than any other. -/
structure Shortest (c : List (BitVec w)) (v : ℤ) : Prop where
  /-- There is a digit. -/
  ne_nil : c ≠ []
  /-- The number is read back. -/
  read_eq : read c = v
  /-- Every other writing has as many digits. -/
  length_le : ∀ c' : List (BitVec w), c' ≠ [] → read c' = v → c.length ≤ c'.length

@[simp] lemma length_digits (n : ℕ) (v : ℤ) : (digits w n v).length = n := by
  induction n with
  | zero => rfl
  | succ n ih => rw [digits, List.length_cons, ih]

/-! ## What is read -/

lemma excess_lt_iff {v : ℤ} {b : ℕ} : excess v < b ↔ -(b : ℤ) ≤ v ∧ v < b := by
  rw [excess]
  split <;> omega

/-- The excess of a number that is read. -/
lemma excess_read_lt (d : BitVec w) (c : List (BitVec w)) :
    excess (read (d :: c)) < 2 ^ (w * c.length + (w - 1)) := by
  have hpow : (2 : ℕ) ^ (w * c.length + (w - 1)) = 2 ^ (w - 1) * (2 ^ w) ^ c.length := by
    rw [pow_add, pow_mul, Nat.mul_comm]
  have hlow : -2 ^ (w - 1) ≤ d.toInt := BitVec.le_toInt d
  have hhigh : d.toInt < 2 ^ (w - 1) := BitVec.toInt_lt
  have hval : (Limbs.value c.reverse : ℤ) < (2 ^ w) ^ c.length := by
    have := Limbs.value_lt c.reverse
    rw [List.length_reverse] at this
    exact_mod_cast this
  have hbase : (0 : ℤ) < (2 ^ w) ^ c.length := by positivity
  rw [excess_lt_iff, hpow, read]
  push_cast
  constructor
  · have := mul_le_mul_of_nonneg_right hlow hbase.le
    have hpos : (0 : ℤ) ≤ Limbs.value c.reverse := Int.natCast_nonneg _
    linarith
  · have := mul_le_mul_of_nonneg_right (Int.add_one_le_of_lt hhigh) hbase.le
    linarith

/-- The digits without the sign. -/
lemma value_reverse_digits (n : ℕ) (v : ℤ) :
    (Limbs.value (digits w n v).reverse : ℤ) = v % (2 ^ w) ^ n := by
  induction n with
  | zero => simp [digits]
  | succ n ih =>
    have hdigit : ((BitVec.ofInt w (v / (2 ^ w) ^ n)).toNat : ℤ) = v / (2 ^ w) ^ n % 2 ^ w := by
      rw [BitVec.toNat_ofInt]
      have hpos : (0 : ℤ) ≤ v / (2 ^ w) ^ n % ((2 ^ w : ℕ) : ℤ) :=
        Int.emod_nonneg _ (by positivity)
      rw [Int.toNat_of_nonneg hpos]
      push_cast
      rfl
    rw [digits, List.reverse_cons, Limbs.value_append, List.length_reverse, length_digits,
      Limbs.value_singleton]
    push_cast
    have hbase : (0 : ℤ) ≤ (2 ^ w) ^ n := by positivity
    rw [ih, hdigit, pow_succ, Int.emod_def, Int.emod_def, Int.emod_def,
      Int.ediv_ediv_of_nonneg hbase]
    ring

/-- **The numbers that are read back** from their digits. -/
lemma read_digits_iff (hw : 0 < w) (n : ℕ) (v : ℤ) :
    read (digits w (n + 1) v) = v ↔ excess v < 2 ^ (w * n + (w - 1)) := by
  constructor
  · intro h
    have := excess_read_lt (BitVec.ofInt w (v / (2 ^ w) ^ n)) (digits w n v)
    rwa [← digits, h, length_digits] at this
  · intro h
    have hpow : (2 : ℕ) ^ (w * n + (w - 1)) = 2 ^ (w - 1) * (2 ^ w) ^ n := by
      rw [pow_add, pow_mul, Nat.mul_comm]
    rw [excess_lt_iff, hpow] at h
    push_cast at h
    have hbase : (0 : ℤ) < (2 ^ w) ^ n := by positivity
    have hlow : -2 ^ (w - 1) ≤ v / (2 ^ w) ^ n :=
      (Int.le_ediv_iff_mul_le hbase).mpr (by linarith [h.1])
    have hhigh : v / (2 ^ w) ^ n < 2 ^ (w - 1) :=
      (Int.ediv_lt_iff_lt_mul hbase).mpr h.2
    rw [digits, read, BitVec.toInt_ofInt_eq_self hw hlow hhigh, length_digits,
      value_reverse_digits, Int.ediv_mul_add_emod]

/-- The number of digits that a number takes. -/
lemma size_le_of_read_eq (hw : 0 < w) {c : List (BitVec w)} {v : ℤ} (hc : c ≠ [])
    (h : read c = v) : (excess v).size < w * c.length := by
  obtain ⟨d, c, rfl⟩ := List.exists_cons_of_ne_nil hc
  have hlt := Nat.size_le.mpr (excess_read_lt d c)
  rw [h] at hlt
  rw [List.length_cons, Nat.mul_succ]
  omega

/-- **When digits are a shortest writing**: the bits and a sign take all of them. -/
lemma shortest_digits_iff (hw : 0 < w) (n : ℕ) (v : ℤ) :
    Shortest (digits w (n + 1) v) v ↔ (excess v).size < w * (n + 1) ∧ w * n ≤ (excess v).size := by
  have hread : read (digits w (n + 1) v) = v ↔ (excess v).size < w * (n + 1) := by
    rw [read_digits_iff hw, ← Nat.size_le, Nat.mul_succ]
    omega
  constructor
  · intro h
    refine ⟨hread.mp h.read_eq, ?_⟩
    by_contra hlt
    rw [not_le] at hlt
    obtain ⟨k, rfl⟩ : ∃ k, n = k + 1 := by
      refine Nat.exists_eq_succ_of_ne_zero ?_
      rintro rfl
      omega
    have hshort : read (digits w (k + 1) v) = v := by
      rw [read_digits_iff hw, ← Nat.size_le]
      rw [Nat.mul_succ] at hlt
      omega
    have := h.length_le (digits w (k + 1) v) (by simp [digits]) hshort
    rw [length_digits, length_digits] at this
    omega
  · rintro ⟨hlt, hle⟩
    refine ⟨by simp [digits], hread.mpr hlt, fun c' hc' hread' => ?_⟩
    have := hle.trans_lt (size_le_of_read_eq hw hc' hread')
    rw [length_digits]
    exact Nat.lt_of_mul_lt_mul_left this

/-! ## Bits -/

/-- The bits of a digit. -/
lemma getLsbD_ofInt {k : ℕ} (hk : k < w) (v : ℤ) : (BitVec.ofInt w v).getLsbD k = v.testBit k := by
  cases v with
  | ofNat n =>
    rw [Int.ofNat_eq_natCast, BitVec.ofInt_natCast, BitVec.getLsbD_ofNat, decide_eq_true hk,
      Bool.true_and]
    rfl
  | negSucc n =>
    rw [BitVec.ofInt_negSucc_eq_not_ofNat, BitVec.getLsbD_not, BitVec.getLsbD_ofNat,
      decide_eq_true hk, Bool.true_and, Bool.true_and]
    rfl

/-- The bits above some low bits. -/
lemma testBit_div (v : ℤ) (j k : ℕ) : (v / 2 ^ j).testBit k = v.testBit (j + k) := by
  cases v with
  | ofNat n =>
    have h : Int.ofNat n / 2 ^ j = Int.ofNat (n / 2 ^ j) := by
      rw [Int.ofNat_eq_natCast, Int.ofNat_eq_natCast]
      push_cast
      rfl
    rw [h, Nat.add_comm]
    exact Nat.testBit_div_two_pow n k
  | negSucc n =>
    have h : Int.negSucc n / 2 ^ j = Int.negSucc (n / 2 ^ j) := by
      rw [Int.negSucc_ediv _ (by positivity), Int.negSucc_eq]
      push_cast
      rfl
    rw [h, Nat.add_comm]
    exact congrArg Bool.not (Nat.testBit_div_two_pow n k)

/-- A number is known from its bits. -/
lemma eq_of_testBit_eq {u v : ℤ} (h : ∀ i, u.testBit i = v.testBit i) : u = v := by
  -- numbers with different signs differ in a bit above those of both
  have hhigh (n k : ℕ) : ∃ i, n.testBit i = false ∧ k.testBit i = false :=
    ⟨n + k, Nat.testBit_eq_false_of_lt ((Nat.le_add_right n k).trans_lt Nat.lt_two_pow_self),
      Nat.testBit_eq_false_of_lt ((Nat.le_add_left k n).trans_lt Nat.lt_two_pow_self)⟩
  cases u with
  | ofNat n =>
    cases v with
    | ofNat k => exact congrArg Int.ofNat (Nat.eq_of_testBit_eq h)
    | negSucc k =>
      obtain ⟨i, hn, hk⟩ := hhigh n k
      have hi := h i
      simp only [Int.testBit, hn, hk] at hi
      exact absurd hi (by decide)
  | negSucc n =>
    cases v with
    | ofNat k =>
      obtain ⟨i, hn, hk⟩ := hhigh n k
      have hi := h i
      simp only [Int.testBit, hn, hk] at hi
      exact absurd hi (by decide)
    | negSucc k =>
      exact congrArg Int.negSucc (Nat.eq_of_testBit_eq fun i => Bool.not_inj (h i))

/-! ## One bit of a number -/

/-- The bits of a sum: those that are set in one number or in both, and those in both. -/
lemma or_add_and (u v : ℕ) : (u ||| v) + (u &&& v) = u + v := by
  induction u using Nat.strong_induction_on generalizing v with
  | _ u ih =>
    rcases Nat.eq_zero_or_pos u with rfl | hpos
    · rw [Nat.zero_or, Nat.zero_and, Nat.add_zero, Nat.zero_add]
    · have hhalf := ih (u / 2) (by omega) (v / 2)
      have hor : (u ||| v) / 2 = u / 2 ||| v / 2 := Nat.or_div_two
      have hand : (u &&& v) / 2 = u / 2 &&& v / 2 := Nat.and_div_two
      have hor' := Nat.or_mod_two_pow (a := u) (b := v) (n := 1)
      have hand' := Nat.and_mod_two_pow (a := u) (b := v) (n := 1)
      rw [pow_one] at hor' hand'
      rcases Nat.mod_two_eq_zero_or_one u with hu | hu <;>
        rcases Nat.mod_two_eq_zero_or_one v with hv | hv <;>
        rw [hu, hv] at hor' hand' <;> simp only [Nat.reduceOr, Nat.reduceAnd] at hor' hand' <;>
        omega

/-- The other bits are kept if a bit is changed. -/
lemma testBit_xor_two_pow (v : ℤ) (i j : ℕ) :
    (Int.xor v (2 ^ i : ℕ)).testBit j = if j = i then !v.testBit i else v.testBit j := by
  have hpow : ((2 ^ i : ℕ) : ℤ).testBit j = decide (i = j) := Nat.testBit_two_pow
  rw [Int.testBit_lxor, hpow]
  by_cases hj : j = i
  · rw [if_pos hj, hj, decide_eq_true rfl, Bool.xor_true]
  · rw [if_neg hj, decide_eq_false (Ne.symm hj), Bool.xor_false]

/-- Changing a bit is a sum or a difference. -/
lemma xor_two_pow_eq (n i : ℕ) :
    n ^^^ 2 ^ i = if n.testBit i then n - 2 ^ i else n + 2 ^ i := by
  have hclear (k : ℕ) (hk : k.testBit i = false) : k ^^^ 2 ^ i = k + 2 ^ i := by
    have hand : k &&& 2 ^ i = 0 := by
      rw [Nat.and_two_pow, hk, Bool.toNat_false, Nat.zero_mul]
    have hor : k ||| 2 ^ i = k ^^^ 2 ^ i := by
      apply Nat.eq_of_testBit_eq
      intro j
      have hj := congrArg (fun l => l.testBit j) hand
      simp only [Nat.testBit_and, Nat.zero_testBit] at hj
      rw [Nat.testBit_or, Nat.testBit_xor]
      cases hkj : k.testBit j <;> cases hpj : (2 ^ i).testBit j <;> simp_all
    rw [← hor, ← or_add_and k, hand, Nat.add_zero]
  by_cases hbit : n.testBit i = true
  · have hback : n ^^^ 2 ^ i ^^^ 2 ^ i = n := by rw [Nat.xor_assoc, Nat.xor_self, Nat.xor_zero]
    have hflip : (n ^^^ 2 ^ i).testBit i = false := by
      rw [Nat.testBit_xor, hbit, Nat.testBit_two_pow_self]
      rfl
    have hsum := hclear _ hflip
    rw [hback] at hsum
    rw [if_pos hbit]
    omega
  · rw [if_neg hbit]
    exact hclear n (by simpa using hbit)

/-- Changing a bit of a natural number, in the integers. -/
lemma cast_xor_two_pow (n i : ℕ) :
    ((n ^^^ 2 ^ i : ℕ) : ℤ) = if n.testBit i then (n : ℤ) - 2 ^ i else n + 2 ^ i := by
  rw [xor_two_pow_eq]
  split
  case isTrue hbit =>
    have hle := Nat.ge_two_pow_of_testBit hbit
    push_cast [Nat.cast_sub hle]
    rfl
  case isFalse => push_cast; rfl

/-- Changing a bit of an integer. -/
lemma int_xor_two_pow_eq (v : ℤ) (i : ℕ) :
    Int.xor v (2 ^ i : ℕ) = if v.testBit i then v - 2 ^ i else v + 2 ^ i := by
  cases v with
  | ofNat n => exact cast_xor_two_pow n i
  | negSucc n =>
    show Int.negSucc (n ^^^ 2 ^ i) =
      if (!n.testBit i) then Int.negSucc n - 2 ^ i else Int.negSucc n + 2 ^ i
    rw [Int.negSucc_eq, Int.negSucc_eq, cast_xor_two_pow]
    cases n.testBit i <;> simp only [Bool.not_false, Bool.not_true, if_true, Bool.false_eq_true,
      if_false] <;> ring

/-- The bits of a negative number, above its low zeros. -/
lemma testBit_neg {n i : ℕ} (hn : n % 2 ^ i ≠ 0) : (-(n : ℤ)).testBit i = !n.testBit i := by
  have hpos : 0 < n := Nat.pos_of_ne_zero fun h0 => hn (by rw [h0, Nat.zero_mod])
  have hneg : -(n : ℤ) = Int.negSucc (n - 1) := by omega
  have hpow : 0 < 2 ^ i := by positivity
  have hdiv : (n - 1) / 2 ^ i = n / 2 ^ i := by
    have hsplit := Nat.div_add_mod n (2 ^ i)
    have hlt := Nat.mod_lt n hpow
    have hpred : n - 1 = (n % 2 ^ i - 1) + 2 ^ i * (n / 2 ^ i) := by omega
    rw [hpred, Nat.add_mul_div_left _ _ hpow, Nat.div_eq_of_lt (by omega), Nat.zero_add]
  rw [hneg]
  show (!(n - 1).testBit i) = _
  rw [Nat.testBit_eq_decide_div_mod_eq, Nat.testBit_eq_decide_div_mod_eq, hdiv]

/-- Changing a bit of a negative number, above its low zeros, changes that of the absolute value. -/
lemma xor_neg {n i : ℕ} (hn : n % 2 ^ i ≠ 0) :
    Int.xor (-(n : ℤ)) (2 ^ i : ℕ) = -((n ^^^ 2 ^ i : ℕ) : ℤ) := by
  rw [int_xor_two_pow_eq, testBit_neg hn, cast_xor_two_pow]
  cases n.testBit i <;> simp only [Bool.not_false, Bool.not_true, if_true, Bool.false_eq_true,
    if_false] <;> ring

/-- The number `v` with bit `i` set to `b`. -/
def withBit (v : ℤ) (i : ℕ) (b : Bool) : ℤ :=
  if v.testBit i = b then v else Int.xor v (2 ^ i : ℕ)

lemma testBit_withBit (v : ℤ) (i : ℕ) (b : Bool) (j : ℕ) :
    (withBit v i b).testBit j = if j = i then b else v.testBit j := by
  rw [withBit]
  by_cases hb : v.testBit i = b
  · rw [if_pos hb]
    by_cases hj : j = i
    · rw [if_pos hj, hj, hb]
    · rw [if_neg hj]
  · rw [if_neg hb, testBit_xor_two_pow]
    cases b <;> simp_all

/-- A bit of a negative number, above its low zeros, is the opposite one of the absolute value. -/
lemma withBit_neg {n i : ℕ} (hn : n % 2 ^ i ≠ 0) (b : Bool) :
    withBit (-(n : ℤ)) i b = -withBit (n : ℤ) i !b := by
  have hnat : (n : ℤ).testBit i = n.testBit i := rfl
  rw [withBit, withBit, testBit_neg hn, hnat]
  by_cases hb : n.testBit i = !b
  · have hneg : (!n.testBit i) = b := by rw [hb, Bool.not_not]
    rw [if_pos hb, if_pos hneg]
  · have hneg : (!n.testBit i) ≠ b := fun he => hb (by rw [← he, Bool.not_not])
    rw [if_neg hb, if_neg hneg, xor_neg hn]
    rfl

/-- A number does not decrease if a bit is set. -/
lemma le_withBit_true (v : ℤ) (i : ℕ) : v ≤ withBit v i true := by
  rw [withBit]
  split
  · exact le_rfl
  · next hb =>
    rw [int_xor_two_pow_eq, if_neg hb]
    have hpow : (0 : ℤ) < 2 ^ i := by positivity
    omega

end TwosComplement
