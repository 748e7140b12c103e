import Mathlib.Data.Nat.ModEq
import Mathlib.Data.ZMod.Basic
import Mathlib.Tactic.Ring

set_option relaxedAutoImplicit false
set_option autoImplicit false

/-!
# Reduction from the low end

A number `t` is reduced modulo `m` in a base `b` from its low end: a multiple of `m` is added that
makes the lowest digit zero, and the digit is dropped. After `j` digits the number left is congruent
to `t` divided by `b ^ j`, and it is not much larger than the modulus.

## Main definitions

* `ReducesTo` — the number left after some digits.

## Main results

* `ReducesTo.step` — one digit.
* `ReducesTo.lt_add`, `ReducesTo.eq_mul_inv` — the number left at the end.
-/

/-- `v` is left of `t` after `j` digits: with a multiple of `m` below `m * b ^ j`, `t` is
`v * b ^ j`. -/
def ReducesTo (b m t j v : ℕ) : Prop := ∃ q < b ^ j, v * b ^ j = t + q * m

namespace ReducesTo

variable {b m t j v w q n : ℕ}

lemma refl (b m t : ℕ) : ReducesTo b m t 0 t := ⟨0, by simp, by simp⟩

/-- **One digit** is made zero and dropped. -/
lemma step (h : ReducesTo b m t j v) (hq : q < b) (hw : b * w = v + q * m) :
    ReducesTo b m t (j + 1) w := by
  obtain ⟨r, hr, hv⟩ := h
  refine ⟨r + q * b ^ j, ?_, ?_⟩
  · calc r + q * b ^ j < b ^ j + q * b ^ j := Nat.add_lt_add_right hr _
      _ = (q + 1) * b ^ j := by ring
      _ ≤ b * b ^ j := Nat.mul_le_mul_right _ hq
      _ = b ^ (j + 1) := by ring
  · calc w * b ^ (j + 1) = b * w * b ^ j := by ring
      _ = v * b ^ j + q * m * b ^ j := by rw [hw, Nat.add_mul]
      _ = t + (r + q * b ^ j) * m := by rw [hv]; ring

/-- A number below `c * b ^ j` is left with less than `c` and the modulus. -/
lemma lt_add {c : ℕ} (h : ReducesTo b m t j v) (ht : t < c * b ^ j) : v < c + m := by
  obtain ⟨q, hq, hv⟩ := h
  have hle : q * m ≤ b ^ j * m := Nat.mul_le_mul_right _ hq.le
  refine Nat.lt_of_mul_lt_mul_right (a := b ^ j) ?_
  calc v * b ^ j = t + q * m := hv
    _ < c * b ^ j + b ^ j * m := Nat.add_lt_add_of_lt_of_le ht hle
    _ = (c + m) * b ^ j := by ring

lemma modEq (h : ReducesTo b m t j v) : v * b ^ j ≡ t [MOD m] := by
  obtain ⟨q, -, hv⟩ := h
  rw [hv]
  exact Nat.add_mul_modulus_modEq_iff.mpr rfl

/-- **The number left** is the quotient modulo `m`, where the base can be inverted. -/
lemma eq_mul_inv (h : ReducesTo b m t j v) (hb : b.Coprime m) (hw : w ≡ v [MOD m]) :
    (w : ZMod m) = t * ((b : ZMod m) ^ j)⁻¹ := by
  have hunit : IsUnit ((b : ZMod m) ^ j) := ((ZMod.isUnit_iff_coprime b m).mpr hb).pow j
  have hmul : (w : ZMod m) * (b : ZMod m) ^ j = t := by
    have hcast := (ZMod.natCast_eq_natCast_iff _ _ _).mpr h.modEq
    push_cast at hcast
    rw [(ZMod.natCast_eq_natCast_iff _ _ _).mpr hw, hcast]
  rw [← hmul, mul_assoc, ZMod.mul_inv_of_unit _ hunit, mul_one]

/-- **The multiplier** that makes the lowest digit zero, from the negative inverse of the lowest
digit of the modulus. -/
lemma dvd_add_mul {x y k : ℕ} (hk : m * k + 1 ≡ 0 [MOD b]) (hx : x ≡ v [MOD b])
    (hy : y ≡ x * k [MOD b]) : b ∣ v + y * m := by
  rw [← Nat.modEq_zero_iff_dvd]
  calc v + y * m ≡ x + x * k * m [MOD b] := hx.symm.add (hy.mul_right m)
    _ = x * (m * k + 1) := by ring
    _ ≡ x * 0 [MOD b] := hk.mul_left x
    _ = 0 := Nat.mul_zero x

end ReducesTo
