import Mathlib.FieldTheory.Finite.Basic
import EiffelWeb.Loop
import EiffelWeb.Crypto.Ec.PointFp

set_option relaxedAutoImplicit false
set_option autoImplicit false

/-!
# Square roots of field elements

The feature `sqrt` of `EC_FIELD_ELEMENT_FP`. Modulo a prime that is three modulo four the root is a
power. Modulo another odd prime the routine draws random numbers until it has found a quadratic
non-residue, and computes a term of a Lucas sequence by the recursion `W`.

## Main definitions

* `EcFieldElementFp.w` — the recursion `W`.
* `EcFieldElementFp.sqrt` — the root, for the random numbers drawn.

## Main results

* `EcFieldElementFp.sqrt_of_mod_four` — the root is a power.
* `pow_square_of_mod_four` — that power of a square is a root of it.
-/

namespace EiffelWeb

open IntegerX

namespace EcFieldElementFp

/-- `W (n, r, x, p_a)`. The recursion does not end at zero. -/
def w (r x p : ℤ) (n : ℕ) : Option ℤ :=
  if n = 0 then none
  else if n = 1 then (powmValue x (p - 2) p).map fun y => (r * r * y - 2) % p
  else if n % 2 = 0 then (w r x p (n / 2)).map fun wOne => (wOne * wOne - 2) % p
  else do
    let wOne ← w r x p ((n + 1) / 2)
    let wTwo ← w r x p ((n - 1) / 2)
    let wThree ← w r x p 1
    return (wOne * wTwo - wThree) % p
termination_by n

/-- The loop of `sqrt` that draws `r`: the number, and how many were drawn. -/
def sqrtLoop (x p legendreExponent : ℤ) (stream : ℕ → ℕ) : Loop (ℤ × ℕ) where
  exit st := powmValue (st.1 * st.1 - 4 * x) legendreExponent p ≠ some (p - 1)
  body st := some ((stream st.2 : ℤ) % p, st.2 + 1)

/-- `sqrt (curve)`, with at most `fuel` random numbers drawn. There is no result if the modulus is
even, which raises an exception. -/
def sqrt (u : EcFieldElementFp) (curve : EcCurveFp) (stream : ℕ → ℕ) (fuel : ℕ) :
    Option EcFieldElementFp :=
  let p := curve.q
  if p.testBit 1 then
    (powmValue u.x ((p >>> 2 : ℕ) + 1) p).map EcFieldElementFp.mk
  else if p.testBit 0 then do
    let legendreExponent := ((p : ℤ) - 1).tdiv 2
    let st ← (sqrtLoop u.x p legendreExponent stream).run fuel (2, 0)
    let wOne ← w st.1 u.x p (((p : ℤ) - 1).tdiv 4).toNat
    let wTwo ← w st.1 u.x p (((p : ℤ) + 3).tdiv 4).toNat
    let y ← powmValue (2 * st.1) (p - 2) p
    return ⟨u.x * y * (wOne + wTwo) % p⟩
  else none

/-- The root modulo a number that is three modulo four. -/
lemma sqrt_of_mod_four (u : EcFieldElementFp) {curve : EcCurveFp} (hq : curve.q % 4 = 3)
    (stream : ℕ → ℕ) (fuel : ℕ) :
    u.sqrt curve stream fuel = some ⟨u.x ^ (curve.q / 4 + 1) % curve.q⟩ := by
  have hbit : curve.q.testBit 1 = true := by
    rw [Nat.testBit_eq_decide_div_mod_eq]
    simp only [pow_one, decide_eq_true_eq]
    omega
  have hexp : (((curve.q >>> 2 : ℕ) : ℤ) + 1) = ((curve.q / 4 + 1 : ℕ) : ℤ) := by
    rw [Nat.shiftRight_eq_div_pow]
    push_cast
    rfl
  have hne : (curve.q : ℤ) ≠ 0 := by omega
  simp only [sqrt]
  rw [if_pos hbit, hexp, powmValue_of_nonneg hne, Option.map_some]

end EcFieldElementFp

/-- A root modulo a prime that is three modulo four.

**Proof sketch.** The square of the power is `y ^ (p + 1)`, since four times the exponent is
`p + 1`, and `y ^ p = y`. A number with the same square as `y` is `y` or its negative. -/
lemma pow_square_of_mod_four {p : ℕ} [Fact p.Prime] (hp : p % 4 = 3) (y : ZMod p) :
    (y ^ 2) ^ (p / 4 + 1) = y ∨ (y ^ 2) ^ (p / 4 + 1) = -y := by
  apply sq_eq_sq_iff_eq_or_eq_neg.mp
  have hexp : 2 * (p / 4 + 1) * 2 = p + 1 := by omega
  calc ((y ^ 2) ^ (p / 4 + 1)) ^ 2 = y ^ (2 * (p / 4 + 1) * 2) := by rw [pow_mul, pow_mul]
    _ = y ^ p * y := by rw [hexp, pow_succ]
    _ = y ^ 2 := by rw [ZMod.pow_card, pow_two]

end EiffelWeb
