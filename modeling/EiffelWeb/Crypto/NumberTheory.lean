import Mathlib.Data.Int.ModEq
import Mathlib.RingTheory.Coprime.Lemmas
import Mathlib.Tactic.Linarith

set_option relaxedAutoImplicit false
set_option autoImplicit false

/-!
# Modular arithmetic of large integers

The discrete operations of the class `INTEGER_X`: the modular inverse and the modular power. The
arithmetic is exact, so the values are the integers themselves; the limbs in which the library
computes (Montgomery reduction, the sliding window of `powm`, the cofactors of `gcdext`) are left
out. The remainder `modulo` is between zero and the modulus, also of a negative number, which is the
remainder `%` of the integers here.

An operation that raises an exception (`INVERSE_EXCEPTION`, `DIVIDE_BY_ZERO`) yields `none`.

## Main definitions

* `IntegerX.inverseValue` — the inverse modulo a number.
* `IntegerX.powmValue` — the power modulo a number.

## Main results

* `IntegerX.exists_inverseValue` — a number coprime to the modulus has an inverse.
* `IntegerX.inverseValue_eq_none` — another number has none.
-/

namespace EiffelWeb

namespace IntegerX

/-- `inverse_value (modulus)`: the cofactor that `gcdext` finds, made non-negative by the modulus.
There is no inverse of zero, none modulo one, and none of a number that has a common divisor with
the modulus. -/
def inverseValue (x modulus : ℤ) : Option ℤ :=
  if x = 0 ∨ modulus.natAbs = 1 ∨ x.gcd modulus ≠ 1 then none
  else some (x.gcdA modulus % modulus)

/-- `powm_value (exponent, modulus)`. A negative exponent is a power of the inverse. -/
def powmValue (b exponent modulus : ℤ) : Option ℤ :=
  if modulus = 0 then none
  else if exponent < 0 then
    (inverseValue b modulus).map fun b => b ^ exponent.natAbs % modulus
  else some (b ^ exponent.natAbs % modulus)

variable {x n : ℤ}

/-- The cofactor of a number coprime to the modulus is an inverse of it. -/
lemma mul_gcdA_modEq (h : x.gcd n = 1) : x * x.gcdA n ≡ 1 [ZMOD n] := by
  have hb : (1 : ℤ) = x * x.gcdA n + n * x.gcdB n := by
    rw [← Int.gcd_eq_gcd_ab, h, Nat.cast_one]
  rw [hb]
  exact (Int.modEq_add_modulus_mul_iff.mpr rfl)

/-- A number coprime to the modulus has an inverse, which is reduced. -/
lemma exists_inverseValue (hn : 1 < n) (h : x.gcd n = 1) :
    ∃ y, inverseValue x n = some y ∧ 0 ≤ y ∧ y < n ∧ x * y ≡ 1 [ZMOD n] := by
  have hx : x ≠ 0 := by
    rintro rfl
    rw [Int.gcd_zero_left] at h
    omega
  have hc : ¬(x = 0 ∨ n.natAbs = 1 ∨ x.gcd n ≠ 1) := by
    rintro (h0 | h1 | hg)
    · exact hx h0
    · omega
    · exact hg h
  refine ⟨x.gcdA n % n, if_neg hc, Int.emod_nonneg _ (by omega), Int.emod_lt_of_pos _ (by omega),
    ?_⟩
  exact ((Int.mod_modEq _ _).mul_left x).trans (mul_gcdA_modEq h)

/-- A number with a common divisor with the modulus has no inverse. -/
lemma inverseValue_eq_none (h : x.gcd n ≠ 1) : inverseValue x n = none :=
  if_pos (.inr (.inr h))

/-- The inverse of a number is coprime to the modulus. -/
lemma gcd_eq_one_of_mul_modEq {y : ℤ} (h : x * y ≡ 1 [ZMOD n]) : y.gcd n = 1 := by
  rw [← Int.isCoprime_iff_gcd_eq_one]
  obtain ⟨t, ht⟩ := h.dvd
  exact ⟨x, t, by linarith⟩

/-- A power with an exponent that is not negative. -/
lemma powmValue_of_nonneg (hn : n ≠ 0) (k : ℕ) : powmValue x k n = some (x ^ k % n) := by
  rw [powmValue, if_neg hn, if_neg (by omega), Int.natAbs_natCast]

end IntegerX

end EiffelWeb
