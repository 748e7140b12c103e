import Mathlib.Data.Int.ModEq
import Mathlib.Tactic.LinearCombination
import EiffelWeb.Crypto.Limb.LimbDivision

set_option relaxedAutoImplicit false
set_option autoImplicit false

/-!
# Inverses of a limb

The two inverses that divisions by a limb are replaced by: `limb_inverse`, the reciprocal that
`udiv_qrnnd_preinv` multiplies with, and `modlimb_invert`, the inverse modulo the limb size. The
latter is read from a table for the eight low bits, and every Newton step doubles the number of
bits. One entry of the table is wrong.

## Main definitions

* `LimbManipulation.modlimbInvertTable`, `LimbManipulation.modlimbInvert`

## Main results

* `SpecialDivision.division_by_reciprocal` — two limbs divided by one.
* `LimbManipulation.modlimbInvert_iff` — when `modlimb_invert` finds the inverse.
-/

namespace EiffelWeb

namespace SpecialDivision

open LimbManipulation

/-- **Two limbs divided by one** with the reciprocal of the divisor: `udiv_qrnnd_preinv` yields the
quotient and the remainder, and `limb_inverse` is the reciprocal without its highest bit. -/
theorem division_by_reciprocal (d : Natural32) (hd : d.getLsbD 31 = true) :
    (∀ nh nl : Natural32, nh < d →
      (udivQrnndPreinv nh nl d (limbInverse d)).1.toNat =
          (nh.toNat * 2 ^ 32 + nl.toNat) / d.toNat ∧
        (udivQrnndPreinv nh nl d (limbInverse d)).2.toNat =
          (nh.toNat * 2 ^ 32 + nl.toNat) % d.toNat) ∧
    ((limbInverse d).toNat : ℤ) = ((2 ^ 64 - 1) / d.toNat : ℕ) - 2 ^ 32 := by
  have htop : 2 ^ 31 ≤ d.toNat := by
    rw [← BitVec.msb_eq_getLsbD_last, BitVec.msb_eq_decide] at hd
    simpa using hd
  have hpos : 0 < d.toNat := by omega
  refine ⟨fun nh nl hn => ?_, ?_⟩
  · obtain ⟨hdiv, hlt⟩ := @udivQrnndPreinv_spec nh nl d htop hn
    rw [Nat.add_comm, Nat.mul_comm] at hdiv
    have hunique := (Nat.div_mod_unique hpos).mpr ⟨hdiv, hlt⟩
    exact ⟨hunique.1.symm, hunique.2.symm⟩
  · obtain ⟨e, he, hepos, hele⟩ := limbInverse_spec htop
    have hunique : (2 ^ 64 - 1) / d.toNat = (limbInverse d).toNat + 2 ^ 32 := by
      refine ((Nat.div_mod_unique hpos (c := e - 1)).mpr ⟨?_, by omega⟩).1
      rw [Nat.mul_comm, Nat.add_mul]
      omega
    rw [hunique]
    push_cast
    ring

/-- The greatest limb divides the greatest dividend it may divide. -/
theorem division_by_reciprocal_max :
    (udivQrnndPreinv 0xfffffffe 0xffffffff 0xffffffff (limbInverse 0xffffffff)).1.toNat =
      (0xfffffffe * 2 ^ 32 + 0xffffffff) / 0xffffffff :=
  ((division_by_reciprocal 0xffffffff (by decide)).1 0xfffffffe 0xffffffff (by decide)).1

end SpecialDivision

namespace LimbManipulation

/-! ## The inverse modulo the limb size -/

/-- The results of `modlimb_invert_table`. -/
def modlimbInverses : List Natural8 := [
  0x01, 0xab, 0xcd, 0xb7, 0x39, 0xa3, 0xc5, 0xef, 0xf1, 0x1b, 0x3d, 0xa7, 0x29, 0x13, 0x35, 0xdf,
  0xe1, 0x8b, 0xad, 0x97, 0x19, 0x83, 0xa5, 0xcf, 0xd1, 0xfb, 0x1d, 0x87, 0x09, 0xf4, 0x15, 0xbf,
  0xc1, 0x6b, 0x8d, 0x77, 0xf9, 0x63, 0x85, 0xaf, 0xb1, 0xdb, 0xfd, 0x67, 0xe9, 0xd3, 0xf5, 0x9f,
  0xa1, 0x4b, 0x6d, 0x57, 0xd9, 0x43, 0x65, 0x8f, 0x91, 0xbb, 0xdd, 0x47, 0xc9, 0xb3, 0xd5, 0x7f,
  0x81, 0x2b, 0x4d, 0x37, 0xb9, 0x23, 0x45, 0x6f, 0x71, 0x9b, 0xbd, 0x27, 0xa9, 0x93, 0xb5, 0x5f,
  0x61, 0x0b, 0x2d, 0x17, 0x99, 0x03, 0x25, 0x4f, 0x51, 0x7b, 0x9d, 0x07, 0x89, 0x73, 0x95, 0x3f,
  0x41, 0xeb, 0x0d, 0xf7, 0x79, 0xe3, 0x05, 0x2f, 0x31, 0x5b, 0x7d, 0xe7, 0x69, 0x53, 0x75, 0x1f,
  0x21, 0xcb, 0xed, 0xd7, 0x59, 0xc3, 0xe5, 0x0f, 0x11, 0x3b, 0x5d, 0xc7, 0x49, 0x33, 0x55, 0xff]

/-- `modlimb_invert_table (in)`; there is no branch for a number above 127. -/
def modlimbInvertTable (n : Natural8) : Option Natural8 := modlimbInverses[n.toNat]?

/-- One Newton step of `modlimb_invert`. -/
def modlimbRefine (limb x : Natural32) : Natural32 := 2 * x - x * x * limb

/-- `modlimb_invert (limb_a)`. -/
def modlimbInvert (limb : Natural32) : Option Natural32 := do
  let x ← modlimbInvertTable ((limb / 2 &&& 0x7f).setWidth 8)
  let x := modlimbRefine limb (x.setWidth 32)
  return modlimbRefine limb x

/-- The inverses that the table should hold, apart from the entry for 59. -/
lemma modlimbInverses_spec : ∀ k < 128, ∃ x, modlimbInverses[k]? = some x ∧
    (k ≠ 29 → (2 * k + 1) * x.toNat % 256 = 1) ∧ (k = 29 → x = 0xf4) := by
  have hall : ∀ k < 128,
      (k ≠ 29 → (2 * k + 1) * (modlimbInverses.getD k 0).toNat % 256 = 1) ∧
        (k = 29 → modlimbInverses.getD k 0 = 0xf4) := by
    decide +kernel
  intro k hk
  have hitem : modlimbInverses[k]? = some (modlimbInverses.getD k 0) := by
    have hlen : k < modlimbInverses.length := hk
    rw [List.getD_eq_getElem?_getD, List.getElem?_eq_getElem hlen, Option.getD_some]
  exact ⟨_, hitem, hall k hk⟩

/-- **A Newton step** squares the error of an inverse. -/
lemma newton_refine {m a x : ℤ} (h : a * x ≡ 1 [ZMOD m]) :
    a * (2 * x - x * x * a) ≡ 1 [ZMOD m * m] := by
  obtain ⟨q, hq⟩ := h.symm.dvd
  refine (Int.modEq_iff_dvd.mpr ⟨q * q, ?_⟩)
  linear_combination (a * x - 1 + m * q) * hq

/-- A Newton step on limbs. -/
lemma toNat_modlimbRefine (limb x : Natural32) :
    ((modlimbRefine limb x).toNat : ℤ) ≡
      2 * x.toNat - x.toNat * x.toNat * limb.toNat [ZMOD 2 ^ 32] := by
  have htwo : (2 : Natural32).toNat = 2 := rfl
  have hlt : x.toNat * x.toNat % 2 ^ 32 * limb.toNat % 2 ^ 32 ≤ 2 ^ 32 :=
    (Nat.mod_lt _ (by decide)).le
  have hbase : (2 ^ 32 : ℤ) ≡ 0 [ZMOD 2 ^ 32] := Int.modulus_modEq_zero
  have hprod : (x.toNat * x.toNat % 2 ^ 32 * limb.toNat % 2 ^ 32 : ℤ) ≡
      x.toNat * x.toNat * limb.toNat [ZMOD 2 ^ 32] :=
    (Int.mod_modEq _ _).trans ((Int.mod_modEq _ _).mul_right _)
  rw [modlimbRefine, BitVec.toNat_sub, BitVec.toNat_mul, BitVec.toNat_mul, BitVec.toNat_mul, htwo,
    Int.natCast_mod, Nat.cast_add, Nat.cast_sub hlt]
  push_cast
  calc ((2 ^ 32 - x.toNat * x.toNat % 2 ^ 32 * limb.toNat % 2 ^ 32 + 2 * x.toNat % 2 ^ 32) %
        2 ^ 32 : ℤ)
      ≡ 2 ^ 32 - x.toNat * x.toNat % 2 ^ 32 * limb.toNat % 2 ^ 32 + 2 * x.toNat % 2 ^ 32
          [ZMOD 2 ^ 32] := Int.mod_modEq _ _
    _ ≡ 0 - x.toNat * x.toNat * limb.toNat + 2 * x.toNat [ZMOD 2 ^ 32] :=
        (hbase.sub hprod).add (Int.mod_modEq _ _)
    _ = 2 * x.toNat - x.toNat * x.toNat * limb.toNat := by ring

/-- A Newton step doubles the number of bits for which a limb is inverted. -/
lemma modlimbRefine_modEq {limb x : Natural32} {k : ℕ} (hk : k + k ≤ 32)
    (h : (limb.toNat * x.toNat : ℤ) ≡ 1 [ZMOD 2 ^ k]) :
    (limb.toNat * (modlimbRefine limb x).toNat : ℤ) ≡ 1 [ZMOD 2 ^ (k + k)] := by
  have hstep := ((toNat_modlimbRefine limb x).of_dvd (pow_dvd_pow 2 hk)).mul_left limb.toNat
  rw [pow_add]
  rw [pow_add] at hstep
  exact hstep.trans (newton_refine h)

/-- A Newton step from an even number leads to an even number. -/
lemma modlimbRefine_even {limb x : Natural32} (h : (x.toNat : ℤ) ≡ 0 [ZMOD 2]) :
    ((modlimbRefine limb x).toNat : ℤ) ≡ 0 [ZMOD 2] := by
  have hstep := (toNat_modlimbRefine limb x).of_dvd (dvd_pow_self 2 (by decide : 32 ≠ 0))
  refine hstep.trans ?_
  have hsub := (h.mul_left 2).sub ((h.mul h).mul_right (limb.toNat : ℤ))
  simpa using hsub

/-- The table is read for the bits 1 to 7. -/
lemma table_index (limb : Natural32) :
    ((limb / 2 &&& 0x7f).setWidth 8 : Natural8).toNat = limb.toNat / 2 % 128 := by
  have hand : (limb / 2 &&& 0x7f).toNat = limb.toNat / 2 % 2 ^ 7 := by
    rw [BitVec.toNat_and, BitVec.toNat_udiv]
    exact Nat.and_two_pow_sub_one_eq_mod _ 7
  rw [BitVec.toNat_setWidth, hand]
  omega

/-- **`modlimb_invert`** finds the inverse of an odd limb unless its low byte is 59, for which the
table has the even entry 244 instead of 243.

**Proof sketch.** The table holds an inverse modulo `2 ^ 8`, and the Newton steps make it one modulo
`2 ^ 16` and `2 ^ 32`. From the even entry they lead to even numbers only. -/
theorem modlimbInvert_iff (limb : Natural32) (hodd : limb.getLsbD 0 = true) :
    (∃ x, modlimbInvert limb = some x ∧ limb.toNat * x.toNat ≡ 1 [MOD 2 ^ 32]) ↔
      limb.toNat % 256 ≠ 59 := by
  have hlow : limb.toNat % 2 = 1 := by
    rw [BitVec.getLsbD, Nat.testBit_zero] at hodd
    simpa using hodd
  obtain ⟨x, hx, hinverse, hslip⟩ := modlimbInverses_spec (limb.toNat / 2 % 128) (by omega)
  have hwide : (x.setWidth 32).toNat = x.toNat := by
    have := x.isLt
    rw [BitVec.toNat_setWidth, Nat.mod_eq_of_lt (by omega)]
  have hrun : modlimbInvert limb =
      some (modlimbRefine limb (modlimbRefine limb (x.setWidth 32))) := by
    rw [modlimbInvert, modlimbInvertTable, table_index, hx]
    rfl
  rw [hrun]
  constructor
  · rintro ⟨r, hr, hinv⟩ heq
    obtain rfl := Option.some.inj hr
    have heven : ((x.setWidth 32 : Natural32).toNat : ℤ) ≡ 0 [ZMOD 2] := by
      rw [hwide, hslip (by omega)]
      decide
    have hzero : ((modlimbRefine limb (modlimbRefine limb (x.setWidth 32))).toNat : ℤ) ≡ 0
        [ZMOD 2] := modlimbRefine_even (modlimbRefine_even heven)
    have hone := Int.natCast_modEq_iff.mpr
      (hinv.of_dvd (dvd_pow_self 2 (by decide : 32 ≠ 0)))
    have hcontra := (hzero.mul_left limb.toNat).symm.trans
      (by exact_mod_cast hone : (limb.toNat * _ : ℤ) ≡ 1 [ZMOD 2])
    rw [mul_zero] at hcontra
    exact absurd hcontra (by decide)
  · intro hne
    have hbyte : (limb.toNat * (x.setWidth 32).toNat : ℤ) ≡ 1 [ZMOD 2 ^ 8] := by
      have htable := hinverse (by omega)
      have hsplit : limb.toNat % 256 = 2 * (limb.toNat / 2 % 128) + 1 := by omega
      have hmod : limb.toNat * x.toNat ≡ 1 [MOD 2 ^ 8] := by
        rw [← hsplit] at htable
        exact ((Nat.mod_modEq _ _).symm.mul_right _).trans htable
      rw [hwide]
      exact_mod_cast Int.natCast_modEq_iff.mpr hmod
    have hfinal := modlimbRefine_modEq (k := 16) (by decide)
      (modlimbRefine_modEq (k := 8) (by decide) hbyte)
    exact ⟨_, rfl, Int.natCast_modEq_iff.mp (by exact_mod_cast hfinal)⟩

/-- The limb of the test of the repository. -/
theorem modlimbInvert_iff_test : ∃ x, modlimbInvert 0x7fffffff = some x ∧
    (0x7fffffff : Natural32).toNat * x.toNat ≡ 1 [MOD 2 ^ 32] :=
  (modlimbInvert_iff 0x7fffffff (by decide)).mpr (by decide)

/-- The inverse of 59 comes out even. -/
theorem not_modlimbInvert_inverse :
    ¬ ∀ limb : Natural32, limb.getLsbD 0 = true →
      ∃ x, modlimbInvert limb = some x ∧ limb.toNat * x.toNat ≡ 1 [MOD 2 ^ 32] := by
  intro h
  obtain ⟨x, hx, hinv⟩ := h 59 (by decide)
  have hrun : modlimbInvert 59 = some 0xa421d6b0 := by decide
  obtain rfl := Option.some.inj (hrun.symm.trans hx)
  exact absurd hinv (by decide)

end LimbManipulation

end EiffelWeb
