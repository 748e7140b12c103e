import EiffelWeb.Crypto.Limb.SpecialXor

set_option relaxedAutoImplicit false
set_option autoImplicit false

/-!
# The bits of limb arrays

A bit of the number in an array is a bit of one of its limbs. Writing a limb replaces the bits of
the number that are in this limb.

## Main definitions

* `setBit` — a limb with one bit set or cleared.
* `flipLimb` — flipping bits of one limb.

## Main results

* `LimbHeap.testBit_number` — the bits of a number.
* `LimbHeap.testBit_number_put` — the bits after one limb was written.
* `flipLimb_run` — the number after bits of one limb were flipped.
-/

namespace EiffelWeb

open Limbs Arrays

/-- `x.set_bit (value, n)`. -/
def setBit (x : Natural32) (value : Bool) (n : ℕ) : Natural32 :=
  if value then x ||| (1 : Natural32) <<< n else x &&& ~~~((1 : Natural32) <<< n)

lemma getLsbD_one_shiftLeft {n i : ℕ} (hi : i < 32) :
    ((1 : Natural32) <<< n).getLsbD i = decide (i = n) := by
  have hone : (1 : Natural32) = 1#32 := rfl
  rw [hone, BitVec.getLsbD_shiftLeft, BitVec.getLsbD_one, decide_eq_true hi]
  by_cases hin : i = n
  · subst hin
    simp
  · by_cases hlt : i < n
    · simp [hin, hlt]
    · have : i - n ≠ 0 := by omega
      simp [hin, hlt, this]

/-- The bits of a limb with one bit set or cleared. -/
lemma getLsbD_setBit (x : Natural32) (value : Bool) (n : ℕ) {i : ℕ} (hi : i < 32) :
    (setBit x value n).getLsbD i = if i = n then value else x.getLsbD i := by
  rw [setBit]
  cases value
  · rw [if_neg Bool.false_ne_true, BitVec.getLsbD_and, BitVec.getLsbD_not,
      getLsbD_one_shiftLeft hi, decide_eq_true hi]
    by_cases hin : i = n <;> simp [hin]
  · rw [if_pos rfl, BitVec.getLsbD_or, getLsbD_one_shiftLeft hi]
    by_cases hin : i = n <;> simp [hin]

namespace LimbHeap

variable {h h' : LimbHeap} {a p n : ℕ} {x : Natural32}

/-- **The bits of a number.** -/
lemma testBit_number (h : LimbHeap) (a n j : ℕ) :
    (h.number a 0 n).testBit j =
      (decide (j / 32 < n) && ((h.item a (j / 32)).getD 0).getLsbD (j % 32)) := by
  rw [number, testBit_value (by decide), List.getD_eq_getElem?_getD]
  by_cases hj : j / 32 < n
  · rw [← item_eq_segment h hj, Nat.zero_add, decide_eq_true hj, Bool.true_and]
  · have hnone : (h.segment a 0 n)[j / 32]? = none := by
      refine List.getElem?_eq_none ?_
      rw [Arrays.segment, Special.slice]
      exact (List.length_take_le _ _).trans (not_lt.mp hj)
    rw [hnone, decide_eq_false hj, Bool.false_and]
    exact BitVec.getLsbD_zero

/-- The bits of a limb are bits of the number. -/
lemma getLsbD_item (hx : h.item a p = some x) (hp : p < n) {i : ℕ} (hi : i < 32) :
    (h.number a 0 n).testBit (32 * p + i) = x.getLsbD i := by
  have hdiv : (32 * p + i) / 32 = p := by omega
  have hmod : (32 * p + i) % 32 = i := by omega
  rw [testBit_number, hdiv, hmod, hx, decide_eq_true hp, Bool.true_and, Option.getD_some]

/-- **The bits after one limb was written.** -/
lemma testBit_number_put (hput : h.put a p x = some h') (hp : p < n) (j : ℕ) :
    (h'.number a 0 n).testBit j =
      if j / 32 = p then x.getLsbD (j % 32) else (h.number a 0 n).testBit j := by
  obtain ⟨hlt, rfl⟩ : p < (h a).length ∧ Function.update h a ((h a).set p x) = h' := by
    rw [Arrays.put] at hput
    split at hput
    · exact ⟨‹_›, Option.some.inj hput⟩
    · cases hput
  rw [testBit_number, testBit_number, Arrays.item, Arrays.item, Function.update_self,
    List.getElem?_set]
  by_cases hj : j / 32 = p
  · rw [if_pos hj.symm, if_pos hj, if_pos (by omega), decide_eq_true (by omega), Bool.true_and,
      Option.getD_some]
  · rw [if_neg (Ne.symm hj), if_neg hj]

/-- **The number after bits of one limb were flipped.** -/
lemma number_put_xor {d : Natural32} (hx : h.item a p = some x)
    (hput : h.put a p (x ^^^ d) = some h') (hp : p < n) :
    h'.number a 0 n = h.number a 0 n ^^^ d.toNat <<< (32 * p) := by
  apply Nat.eq_of_testBit_eq
  intro j
  rw [testBit_number_put hput hp, Nat.testBit_xor, Nat.testBit_shiftLeft]
  by_cases hj : j / 32 = p
  · obtain ⟨i, rfl⟩ : ∃ i, j = 32 * p + i := ⟨j % 32, by omega⟩
    have hi : i < 32 := by omega
    have hmod : (32 * p + i) % 32 = i := by omega
    rw [if_pos hj, hmod, getLsbD_item hx hp hi, BitVec.getLsbD_xor, Nat.add_sub_cancel_left,
      decide_eq_true (by omega), Bool.true_and]
    rfl
  · rw [if_neg hj]
    have hfalse : (decide (j ≥ 32 * p) && d.toNat.testBit (j - 32 * p)) = false := by
      by_cases hge : j ≥ 32 * p
      · have hlt : d.toNat < 2 ^ (j - 32 * p) :=
          d.isLt.trans_le (Nat.pow_le_pow_right (by decide) (by omega))
        rw [Nat.testBit_lt_two_pow hlt, Bool.and_false]
      · rw [decide_eq_false hge, Bool.false_and]
    rw [hfalse, Bool.xor_false]

/-- A number is known from its limbs. -/
lemma number_congr {g : LimbHeap} {b : ℕ}
    (hitem : ∀ i < n, (h.item a i).getD 0 = (g.item b i).getD 0) :
    h.number a 0 n = g.number b 0 n := by
  apply Nat.eq_of_testBit_eq
  intro j
  rw [testBit_number, testBit_number]
  by_cases hj : j / 32 < n
  · rw [hitem _ hj]
  · rw [decide_eq_false hj, Bool.false_and, Bool.false_and]

/-- Zeros above the limbs of a number. -/
lemma number_of_zero {k : ℕ} (hk : k ≤ n) (hzero : ∀ i d, k ≤ i → h.item a i = some d → d = 0) :
    h.number a 0 n = h.number a 0 k := by
  apply Nat.eq_of_testBit_eq
  intro j
  rw [testBit_number, testBit_number]
  by_cases hj : j / 32 < k
  · rw [decide_eq_true hj, decide_eq_true (by omega)]
  · have hlimb : ((h.item a (j / 32)).getD 0) = 0 := by
      cases hd : h.item a (j / 32) with
      | none => rfl
      | some d => exact hzero _ d (by omega) hd
    rw [hlimb, decide_eq_false hj, Bool.false_and]
    exact (congrArg _ BitVec.getLsbD_zero).trans (Bool.and_false _)

end LimbHeap

/-- `special [i] := special [i].bit_xor (mask)`. -/
def flipLimb (special i : ℕ) (mask : Natural32) (h : LimbHeap) : Option LimbHeap := do
  let limb ← h.item special i
  h.put special i (limb ^^^ mask)

/-- **Flipping bits of one limb.** -/
lemma flipLimb_run {special i n : ℕ} {h : LimbHeap} (hi : i < n) (hn : n ≤ (h special).length)
    (mask : Natural32) :
    ∃ h' : LimbHeap, flipLimb special i mask h = some h' ∧
      h'.number special 0 n = h.number special 0 n ^^^ mask.toNat <<< (32 * i) ∧
      SameOutside (region special 0 n) h h' := by
  obtain ⟨x, hx, -⟩ := LimbHeap.exists_limb (h := h) (a := special) (i := i) (by omega)
  obtain ⟨h', hput, -, hfoot⟩ := LimbHeap.run_put (h := h) (a := special) (i := i) (by omega)
    (x ^^^ mask)
  refine ⟨h', ?_, LimbHeap.number_put_xor hx hput hi, hfoot.mono fun b m hm => ?_⟩
  · simp only [flipLimb, hx, Option.bind_eq_bind, Option.bind_some, hput]
  · exact ⟨hm.1, Nat.zero_le _, by have := hm.2; omega⟩

namespace IntegerXMemory

variable {m : IntegerXMemory}

/-- The limbs of an object after `resize`; new ones are zero. -/
lemma item_resize (m : IntegerXMemory) (x n i : ℕ) :
    ((m.resize x n).arrays.item ((m.resize x n).item x) i).getD 0 =
      (m.arrays.item (m.item x) i).getD 0 := by
  rw [resize]
  split
  · dsimp only
    rw [Function.update_self, Arrays.item, Function.update_self, Arrays.item]
    by_cases hi : i < (m.arrays (m.item x)).length
    · rw [List.getElem?_append_left hi]
    · rw [List.getElem?_append_right (not_lt.mp hi), List.getElem?_eq_none (not_lt.mp hi),
        List.getElem?_replicate]
      split <;> rfl
  · rfl

end IntegerXMemory

end EiffelWeb
