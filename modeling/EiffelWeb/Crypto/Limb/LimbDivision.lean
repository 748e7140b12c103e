import EiffelWeb.QuotientDigit
import EiffelWeb.Crypto.Limb.SpecialProduct

set_option relaxedAutoImplicit false
set_option autoImplicit false

/-!
# Two limbs divided by one

The routines `udiv_qrnnd` and `limb_inverse` of `LIMB_MANIPULATION` and `udiv_qrnnd_preinv` of
`SPECIAL_DIVISION`. The first one divides by half limbs, and is used for the reciprocal of the
divisor; the other ones multiply with the reciprocal. The divisor has its top bit set.

## Main definitions

* `LimbManipulation.udivQrnnd`, `LimbManipulation.limbInverse`
* `SpecialDivision.udivQrnndPreinv`

## Main results

* `LimbManipulation.udivQrnnd_spec`, `LimbManipulation.limbInverse_spec`
* `SpecialDivision.udivQrnndPreinv_spec`
-/

namespace EiffelWeb

open SpecialArithmetic

namespace LimbManipulation

/-- One half of `udiv_qrnnd`: `n1` and the half limb `lo` by `d`. -/
def udivHalf (d n1 lo : Natural32) : Natural32 × Natural32 :=
  let d1 := d >>> 16
  let d0 := d &&& 0xffff
  let q1 := n1 / d1
  let r1 := n1 - q1 * d1
  let m := q1 * d0
  let r1 := (r1 * 0x10000) ||| lo
  let (q1, r1) :=
    if r1 < m then
      let q1 := q1 - 1
      let r1 := r1 + d
      if d ≤ r1 ∧ r1 < m then (q1 - 1, r1 + d) else (q1, r1)
    else (q1, r1)
  (q1, r1 - m)

/-- `udiv_qrnnd (q, r, n1, n0, d)`. -/
def udivQrnnd (n1 n0 d : Natural32) : Natural32 × Natural32 :=
  let (q1, r1) := udivHalf d n1 (n0 >>> 16)
  let (q0, r0) := udivHalf d r1 (n0 &&& 0xffff)
  ((q1 * 0x10000) ||| q0, r0)

/-- The corrections in a half of `udiv_qrnnd`. -/
def correctHalf (d m q r : Natural32) : Natural32 × Natural32 :=
  if r < m then
    if d ≤ r + d ∧ r + d < m then (q - 1 - 1, r + d + d) else (q - 1, r + d)
  else (q, r)

lemma correctHalf_eq (d m q r : Natural32) :
    (let (q1, r1) :=
      if r < m then
        let q1 := q - 1
        let r1 := r + d
        if d ≤ r1 ∧ r1 < m then (q1 - 1, r1 + d) else (q1, r1)
      else (q, r)
     (q1, r1 - m)) = ((correctHalf d m q r).1, (correctHalf d m q r).2 - m) := rfl

lemma udivHalf_eq (d n1 lo : Natural32) :
    udivHalf d n1 lo =
      ((correctHalf d (n1 / (d >>> 16) * (d &&& 0xffff)) (n1 / (d >>> 16))
          (((n1 - n1 / (d >>> 16) * (d >>> 16)) * 0x10000) ||| lo)).1,
        (correctHalf d (n1 / (d >>> 16) * (d &&& 0xffff)) (n1 / (d >>> 16))
          (((n1 - n1 / (d >>> 16) * (d >>> 16)) * 0x10000) ||| lo)).2 -
            n1 / (d >>> 16) * (d &&& 0xffff)) :=
  (udivHalf.eq_1 d n1 lo).trans (correctHalf_eq d _ _ _)

/-- The two halves as projections. For an arbitrary `f` in the place of `udivHalf d` there is
nothing to evaluate. -/
lemma halves_eq (f : Natural32 → Natural32 → Natural32 × Natural32) (n1 n0 : Natural32) :
    (let (q1, r1) := f n1 (n0 >>> 16)
     let (q0, r0) := f r1 (n0 &&& 0xffff)
     ((q1 * 0x10000) ||| q0, r0)) =
      (((f n1 (n0 >>> 16)).1 * (0x10000 : Natural32)) |||
          (f (f n1 (n0 >>> 16)).2 (n0 &&& 0xffff)).1,
        (f (f n1 (n0 >>> 16)).2 (n0 &&& 0xffff)).2) := rfl

lemma udivQrnnd_eq (n1 n0 d : Natural32) :
    udivQrnnd n1 n0 d =
      (((udivHalf d n1 (n0 >>> 16)).1 * (0x10000 : Natural32)) |||
          (udivHalf d (udivHalf d n1 (n0 >>> 16)).2 (n0 &&& 0xffff)).1,
        (udivHalf d (udivHalf d n1 (n0 >>> 16)).2 (n0 &&& 0xffff)).2) :=
  (udivQrnnd.eq_1 n1 n0 d).trans (halves_eq (udivHalf d) n1 n0)

lemma toNat_high (x : Natural32) : (x >>> 16).toNat = x.toNat / 2 ^ 16 := by
  rw [BitVec.toNat_ushiftRight, Nat.shiftRight_eq_div_pow]

lemma toNat_low (x : Natural32) : (x &&& 0xffff).toNat = x.toNat % 2 ^ 16 := by
  have hmask : (0xffff : Natural32).toNat = 2 ^ 16 - 1 := rfl
  rw [BitVec.toNat_and, hmask, Nat.and_two_pow_sub_one_eq_mod]

/-- Two half limbs. -/
lemma toNat_halves {x y : Natural32} (hx : x.toNat < 2 ^ 16) (hy : y.toNat < 2 ^ 16) :
    ((x * 0x10000) ||| y).toNat = x.toNat * 2 ^ 16 + y.toNat := by
  have hmul : (x * 0x10000).toNat = 2 ^ 16 * x.toNat := by
    have hhalf : (0x10000 : Natural32).toNat = 2 ^ 16 := rfl
    rw [BitVec.toNat_mul_of_lt (by rw [hhalf]; omega), hhalf, Nat.mul_comm]
  rw [BitVec.toNat_or, hmul, ← Nat.two_pow_add_eq_or_of_lt hy, Nat.mul_comm]

lemma correctHalf_spec {d r m q : Natural32} {n : ℕ} (hd : 2 ^ 31 ≤ d.toNat)
    (hn : r.toNat + q.toNat * d.toNat = n + m.toNat) (hm : m.toNat < 2 * d.toNat)
    (hr : r.toNat < d.toNat) (hqm : q.toNat = 0 → m.toNat = 0)
    (hqm' : q.toNat = 1 → m.toNat < d.toNat) :
    (correctHalf d m q r).1.toNat * d.toNat + ((correctHalf d m q r).2 - m).toNat = n ∧
      ((correctHalf d m q r).2 - m).toNat < d.toNat := by
  unfold correctHalf
  have hdlt := d.isLt
  have hmlt := m.isLt
  have hone : (1 : Natural32).toNat = 1 := rfl
  by_cases hlt : r < m
  · have hlt' : r.toNat < m.toNat := hlt
    have hqpos : q.toNat ≠ 0 := fun h0 => by have := hqm h0; omega
    obtain ⟨p, hp⟩ : ∃ p, q.toNat = p + 1 := ⟨q.toNat - 1, by omega⟩
    have hq' : (q - 1).toNat = p := by
      rw [BitVec.toNat_sub_of_le (by rw [BitVec.le_def, hone]; omega), hone]
      omega
    rw [hp, Nat.add_mul, Nat.one_mul] at hn
    simp only [if_pos hlt]
    have hadd := BitVec.toNat_add r d
    by_cases hagain : d ≤ r + d ∧ r + d < m
    · have h1 : d.toNat ≤ (r + d).toNat := hagain.1
      have h2 : (r + d).toNat < m.toNat := hagain.2
      have hp1 : p ≠ 0 := fun h0 => by
        have := hqm' (by omega)
        omega
      obtain ⟨p', hp'⟩ : ∃ p', p = p' + 1 := ⟨p - 1, by omega⟩
      have hq'' : (q - 1 - 1).toNat = p' := by
        rw [BitVec.toNat_sub_of_le (by rw [BitVec.le_def, hone]; omega), hone, hq']
        omega
      rw [hp', Nat.add_mul, Nat.one_mul] at hn
      have hrest : (r + d + d - m).toNat = r.toNat + 2 * d.toNat - m.toNat := by
        rw [BitVec.toNat_sub, BitVec.toNat_add (r + d) d]
        omega
      simp only [if_pos hagain, hq'', hrest]
      omega
    · have hrest : (r + d - m).toNat = r.toNat + d.toNat - m.toNat ∧
          m.toNat ≤ r.toNat + d.toNat := by
        rw [not_and_or, BitVec.le_def, BitVec.lt_def] at hagain
        rw [BitVec.toNat_sub]
        omega
      simp only [if_neg hagain, hq', hrest.1]
      omega
  · have hge : m.toNat ≤ r.toNat := not_lt.mp hlt
    have hrest : (r - m).toNat = r.toNat - m.toNat := BitVec.toNat_sub_of_le hge
    simp only [if_neg hlt, hrest]
    omega

lemma udivHalf_spec {d n1 lo : Natural32} (hd : 2 ^ 31 ≤ d.toNat) (hn : n1.toNat < d.toNat)
    (hlo : lo.toNat < 2 ^ 16) :
    (udivHalf d n1 lo).1.toNat * d.toNat + (udivHalf d n1 lo).2.toNat =
        n1.toNat * 2 ^ 16 + lo.toNat ∧
      (udivHalf d n1 lo).2.toNat < d.toNat := by
  have hdlt := d.isLt
  have hd1 := toNat_high d
  have hd0 := toNat_low d
  obtain ⟨hrest, hm, hr, hprod, hquot⟩ := QuotientDigit.high_digits (l := lo.toNat)
    (show d.toNat = d.toNat / 2 ^ 16 * 2 ^ 16 + d.toNat % 2 ^ 16 by omega)
    (by omega) (by omega) hn hlo
  have hq : (n1 / (d >>> 16)).toNat = n1.toNat / (d.toNat / 2 ^ 16) := by
    rw [BitVec.toNat_udiv, hd1]
  have hs : (n1 - n1 / (d >>> 16) * (d >>> 16)).toNat = n1.toNat % (d.toNat / 2 ^ 16) := by
    have hle := Nat.div_mul_le_self n1.toNat (d.toNat / 2 ^ 16)
    have hmul : (n1 / (d >>> 16) * (d >>> 16)).toNat =
        n1.toNat / (d.toNat / 2 ^ 16) * (d.toNat / 2 ^ 16) := by
      rw [BitVec.toNat_mul_of_lt (by rw [hq, hd1]; omega), hq, hd1]
    have hdm := Nat.div_add_mod' n1.toNat (d.toNat / 2 ^ 16)
    rw [BitVec.toNat_sub_of_le (by rw [BitVec.le_def, hmul]; exact hle), hmul]
    omega
  have hmlimb : (n1 / (d >>> 16) * (d &&& 0xffff)).toNat =
      n1.toNat / (d.toNat / 2 ^ 16) * (d.toNat % 2 ^ 16) := by
    rw [BitVec.toNat_mul_of_lt (by rw [hq, hd0]; omega), hq, hd0]
  have hrlimb : ((n1 - n1 / (d >>> 16) * (d >>> 16)) * 0x10000 ||| lo).toNat =
      n1.toNat % (d.toNat / 2 ^ 16) * 2 ^ 16 + lo.toNat := by
    have hmod := Nat.mod_lt n1.toNat (show 0 < d.toNat / 2 ^ 16 by omega)
    rw [toNat_halves (by rw [hs]; omega) hlo, hs]
  have hcorrect := correctHalf_spec (q := n1 / (d >>> 16)) (m := n1 / (d >>> 16) * (d &&& 0xffff))
    (r := (n1 - n1 / (d >>> 16) * (d >>> 16)) * 0x10000 ||| lo)
    (n := n1.toNat * 2 ^ 16 + lo.toNat) hd
    (by rw [hrlimb, hmlimb, hq, hrest])
    (by rw [hmlimb]; exact hm)
    (by rw [hrlimb]; exact hr)
    (fun h0 => by rw [hmlimb, ← hq, h0, Nat.zero_mul])
    (fun h1 => by
      rw [hmlimb, ← hq, h1, Nat.one_mul]
      omega)
  rw [udivHalf_eq]
  generalize correctHalf d (n1 / (d >>> 16) * (d &&& 0xffff)) (n1 / (d >>> 16))
    ((n1 - n1 / (d >>> 16) * (d >>> 16)) * 0x10000 ||| lo) = p at hcorrect ⊢
  obtain ⟨q', r'⟩ := p
  dsimp only at hcorrect ⊢
  exact hcorrect

/-- **`udiv_qrnnd`**: the quotient and the remainder of two limbs by one with its top bit set. -/
lemma udivQrnnd_spec {n1 n0 d : Natural32} (hd : 2 ^ 31 ≤ d.toNat) (hn : n1.toNat < d.toNat) :
    (udivQrnnd n1 n0 d).1.toNat * d.toNat + (udivQrnnd n1 n0 d).2.toNat =
        n1.toNat * 2 ^ 32 + n0.toNat ∧
      (udivQrnnd n1 n0 d).2.toNat < d.toNat := by
  have hn0 := n0.isLt
  have hhigh := toNat_high n0
  have hlow := toNat_low n0
  obtain ⟨hfirst, hr1⟩ := @udivHalf_spec _ _ (n0 >>> 16) hd hn (by omega)
  rw [udivQrnnd_eq]
  generalize udivHalf d n1 (n0 >>> 16) = p at hfirst hr1 ⊢
  obtain ⟨hsecond, hr0⟩ := @udivHalf_spec _ _ (n0 &&& 0xffff) hd hr1 (by omega)
  generalize udivHalf d p.2 (n0 &&& 0xffff) = t at hsecond hr0 ⊢
  obtain ⟨q1, r1⟩ := p
  obtain ⟨q0, r0⟩ := t
  dsimp only at hfirst hr1 hsecond hr0 ⊢
  -- each half of the quotient is a half limb
  have hhalf {q r n l : ℕ} (h : q * d.toNat + r = n * 2 ^ 16 + l) (hn : n < d.toNat)
      (hl : l < 2 ^ 16) : q < 2 ^ 16 := by
    by_contra hge
    have hle : 2 ^ 16 * d.toNat ≤ q * d.toNat := Nat.mul_le_mul_right _ (not_lt.mp hge)
    omega
  have hq1 := hhalf hfirst hn (by omega)
  have hq0 := hhalf hsecond hr1 (by omega)
  refine ⟨?_, hr0⟩
  rw [toNat_halves hq1 hq0, Nat.add_mul, Nat.mul_assoc, Nat.mul_comm (2 ^ 16), ← Nat.mul_assoc]
  omega

/-- `limb_inverse (limb_a)`. -/
def limbInverse (limb : Natural32) : Natural32 := (udivQrnnd (~~~limb) 0xffffffff limb).1

/-- **`limb_inverse`**: the reciprocal, less the base. -/
lemma limbInverse_spec {d : Natural32} (hd : 2 ^ 31 ≤ d.toNat) :
    ∃ e, (limbInverse d).toNat * d.toNat + 2 ^ 32 * d.toNat + e = 2 ^ 32 * 2 ^ 32 ∧ 0 < e ∧
      e ≤ d.toNat := by
  have hdlt := d.isLt
  have hnot : (~~~d).toNat = 2 ^ 32 - 1 - d.toNat := BitVec.toNat_not
  have hmax : (0xffffffff : Natural32).toNat = 2 ^ 32 - 1 := rfl
  obtain ⟨hdiv, hlt⟩ := @udivQrnnd_spec (~~~d) 0xffffffff _ hd (by omega)
  rw [hnot, hmax] at hdiv
  exact ⟨(udivQrnnd (~~~d) 0xffffffff d).2.toNat + 1, by rw [limbInverse]; omega, by omega, hlt⟩

end LimbManipulation

namespace SpecialDivision

open LimbManipulation

/-! ## Division with the reciprocal -/

/-- `limb_highbit_to_mask (limb)`. -/
def limbHighbitToMask (limb : Natural32) : Natural32 := if limb.getLsbD 31 then ~~~0 else 0

/-- `add_ssaaaa (sh, sl, ah, al, bh, bl)`: the high and the low limb. -/
def addSsaaaa (ah al bh bl : Natural32) : Natural32 × Natural32 :=
  let x := al + bl
  (ah + bh + toLimb (x < al), x)

/-- `udiv_qrnnd_preinv (q, r, nh, nl, d, di)`. -/
def udivQrnndPreinv (nh nl d di : Natural32) : Natural32 × Natural32 :=
  let nmask := limbHighbitToMask nl
  let nadj := nl + (nmask &&& d)
  let x := umulPpmm di (nh - nmask)
  let x := addSsaaaa x.1 x.2 nh nadj
  let q1 := ~~~x.1
  let x := umulPpmm q1 d
  let x := addSsaaaa x.1 x.2 nh nl
  let xh := x.1 - d
  (xh - q1, x.2 + (d &&& xh))

lemma addSsaaaa_spec {ah al bh bl : Natural32} {a b : ℕ} (ha : al.toNat + 2 ^ 32 * ah.toNat = a)
    (hb : bl.toNat + 2 ^ 32 * bh.toNat = b) (hlt : a + b < 2 ^ 32 * 2 ^ 32) :
    (addSsaaaa ah al bh bl).2.toNat + 2 ^ 32 * (addSsaaaa ah al bh bl).1.toNat = a + b := by
  have hal := al.isLt
  have hbl := bl.isLt
  simp only [addSsaaaa, BitVec.toNat_add, BitVec.lt_def, toNat_toLimb]
  by_cases hcarry : (al.toNat + bl.toNat) % 2 ^ 32 < al.toNat
  · simp only [hcarry, decide_true, Bool.toNat_true]
    omega
  · simp only [hcarry, decide_false, Bool.toNat_false]
    omega

/-- A sum that is close to `n * 2 ^ 32 / d` and its high limb. -/
lemma estimate_limb {n s d : ℕ} (hlow : (0 : ℤ) ≤ n * 2 ^ 32 - s * d)
    (hhigh : (n * 2 ^ 32 - s * d : ℤ) ≤ 2 ^ 32 * d) (hd : 0 < d) (hn : n < 2 ^ 32 * d) :
    s < 2 ^ 32 * 2 ^ 32 ∧ s / 2 ^ 32 * d ≤ n ∧ n < s / 2 ^ 32 * d + 2 * d := by
  obtain ⟨hle, hlt⟩ := QuotientDigit.estimate (b := 2 ^ 32) (by decide) hlow hhigh
    (Int.natCast_pos.mpr hd)
  have hcast : (n : ℤ) - (s : ℤ) / 2 ^ 32 * d = n - ((s / 2 ^ 32 * d : ℕ) : ℤ) := by push_cast; rfl
  rw [hcast] at hle hlt
  refine ⟨?_, by omega, by omega⟩
  by_contra hge
  have hmul : 2 ^ 32 * 2 ^ 32 * d ≤ s * d := Nat.mul_le_mul_right _ (not_lt.mp hge)
  have hle' : s * d ≤ n * 2 ^ 32 := by
    zify
    omega
  omega

/-- The first sum in `udiv_qrnnd_preinv` estimates the quotient: it is right or one too small. -/
lemma preinv_estimate {nh nl d di : Natural32} {e : ℕ} (hd : 2 ^ 31 ≤ d.toNat)
    (hn : nh.toNat < d.toNat)
    (hdi : di.toNat * d.toNat + 2 ^ 32 * d.toNat + e = 2 ^ 32 * 2 ^ 32) (he : 0 < e)
    (hed : e ≤ d.toNat) :
    let x := umulPpmm di (nh - limbHighbitToMask nl)
    let y := addSsaaaa x.1 x.2 nh (nl + (limbHighbitToMask nl &&& d))
    y.1.toNat * d.toNat ≤ nh.toNat * 2 ^ 32 + nl.toNat ∧
      nh.toNat * 2 ^ 32 + nl.toNat < y.1.toNat * d.toNat + 2 * d.toNat := by
  have hnl := nl.isLt
  have hdlt := d.isLt
  have hdi' : (di.toNat : ℤ) * d.toNat + 2 ^ 32 * d.toNat + e = 2 ^ 32 * 2 ^ 32 := by
    exact_mod_cast hdi
  have hbit : nl.getLsbD 31 = decide (2 ^ 31 ≤ nl.toNat) := by
    rw [← BitVec.msb_eq_getLsbD_last, BitVec.msb_eq_decide]
  -- the high limb of a sum `s`
  have hfinish {ah al bl : Natural32} {s : ℕ}
      (hs : al.toNat + 2 ^ 32 * ah.toNat + (bl.toNat + 2 ^ 32 * nh.toNat) = s)
      (hlow : (0 : ℤ) ≤ (nh.toNat * 2 ^ 32 + nl.toNat : ℕ) * 2 ^ 32 - s * d.toNat)
      (hhigh : ((nh.toNat * 2 ^ 32 + nl.toNat : ℕ) * 2 ^ 32 - s * d.toNat : ℤ) ≤
        2 ^ 32 * d.toNat) :
      (addSsaaaa ah al nh bl).1.toNat * d.toNat ≤ nh.toNat * 2 ^ 32 + nl.toNat ∧
        nh.toNat * 2 ^ 32 + nl.toNat < (addSsaaaa ah al nh bl).1.toNat * d.toNat + 2 * d.toNat := by
    obtain ⟨hlt, hle, hgt⟩ := estimate_limb hlow hhigh (by omega) (by omega)
    have hsum := addSsaaaa_spec (Eq.refl _) (Eq.refl _) (hs ▸ hlt)
    have hx2 := (addSsaaaa ah al nh bl).2.isLt
    have hx1 : (addSsaaaa ah al nh bl).1.toNat = s / 2 ^ 32 := by omega
    rw [hx1]
    exact ⟨hle, hgt⟩
  by_cases hhalf : 2 ^ 31 ≤ nl.toNat
  · have hmask : limbHighbitToMask nl = ~~~0 := by
      rw [limbHighbitToMask, hbit, decide_eq_true hhalf, if_pos rfl]
    have hones : (~~~0 : Natural32).toNat = 2 ^ 32 - 1 := rfl
    have hsucc : (nh - ~~~0).toNat = nh.toNat + 1 := by
      rw [BitVec.toNat_sub, hones]
      omega
    have hand : ((~~~0 : Natural32) &&& d) = d := BitVec.allOnes_and
    have hadj : (nl + d).toNat = nl.toNat + d.toNat - 2 ^ 32 := by
      rw [BitVec.toNat_add]
      omega
    obtain ⟨hlow, hhigh⟩ := @QuotientDigit.reciprocal_high (2 ^ 32) _ _ _ nh.toNat
      nl.toNat (by omega) (by omega) hdi' (by omega) (by omega) (by omega) (by omega)
      (by omega) (by omega)
    have hspec := umulPpmm_spec di (nh - ~~~0)
    rw [hsucc] at hspec
    rw [hmask, hand]
    have hs : (((umulPpmm di (nh - ~~~0)).2.toNat + 2 ^ 32 * (umulPpmm di (nh - ~~~0)).1.toNat +
        ((nl + d).toNat + 2 ^ 32 * nh.toNat) : ℕ) : ℤ) =
        di.toNat * (nh.toNat + 1) + nh.toNat * 2 ^ 32 + (nl.toNat + d.toNat - 2 ^ 32) := by
      rw [hspec, hadj]
      push_cast
      omega
    refine hfinish rfl ?_ ?_
    · rw [hs]
      push_cast
      exact hlow
    · rw [hs]
      push_cast
      exact hhigh
  · have hmask : limbHighbitToMask nl = 0 := by
      rw [limbHighbitToMask, hbit, decide_eq_false hhalf, if_neg (by decide)]
    have hand : ((0 : Natural32) &&& d) = 0 := BitVec.zero_and
    obtain ⟨hlow, hhigh⟩ := @QuotientDigit.reciprocal_low (2 ^ 32) _ _ _ nh.toNat
      nl.toNat (by omega) (by omega) hdi' (by omega) (by omega) (by omega) (by omega)
      (by omega) (by omega)
    have hspec := umulPpmm_spec di nh
    have hzero : nh - 0 = nh := BitVec.sub_zero nh
    have hadd : nl + 0 = nl := BitVec.add_zero nl
    rw [hmask, hand, hzero, hadd]
    have hs : (((umulPpmm di nh).2.toNat + 2 ^ 32 * (umulPpmm di nh).1.toNat +
        (nl.toNat + 2 ^ 32 * nh.toNat) : ℕ) : ℤ) =
        di.toNat * nh.toNat + nh.toNat * 2 ^ 32 + nl.toNat := by
      rw [hspec]
      push_cast
      omega
    refine hfinish rfl ?_ ?_
    · rw [hs]
      push_cast
      exact hlow
    · rw [hs]
      push_cast
      exact hhigh

/-- **`udiv_qrnnd_preinv`**: the quotient and the remainder.

**Proof sketch.** The estimate `q` is right or one too small, and `q1` is its complement. The sum of
`q1 * d` and the dividend is `(d - 1) * 2 ^ 32` and the remainder for `q`, counted from
`2 ^ 32 - d`: its high limb is `d` if the remainder is not less than `d`, and else `d - 1`. -/
lemma udivQrnndPreinv_spec {nh nl d : Natural32} (hd : 2 ^ 31 ≤ d.toNat)
    (hn : nh.toNat < d.toNat) :
    let p := udivQrnndPreinv nh nl d (limbInverse d)
    p.1.toNat * d.toNat + p.2.toNat = nh.toNat * 2 ^ 32 + nl.toNat ∧ p.2.toNat < d.toNat := by
  have hdlt := d.isLt
  have hnl := nl.isLt
  obtain ⟨e, hdi, he, hed⟩ := limbInverse_spec hd
  have hest := @preinv_estimate _ nl _ _ _ hd hn hdi he hed
  simp only [udivQrnndPreinv] at hest ⊢
  set q := (addSsaaaa (umulPpmm (limbInverse d) (nh - limbHighbitToMask nl)).1
    (umulPpmm (limbInverse d) (nh - limbHighbitToMask nl)).2 nh
    (nl + (limbHighbitToMask nl &&& d))).1
  obtain ⟨hle, hlt⟩ := hest
  have hq := q.isLt
  have hnot : (~~~q).toNat = 2 ^ 32 - 1 - q.toNat := BitVec.toNat_not
  have hprod : (~~~q).toNat * d.toNat + q.toNat * d.toNat = 2 ^ 32 * d.toNat - d.toNat := by
    rw [hnot, ← Nat.add_mul]
    have hsum : 2 ^ 32 - 1 - q.toNat + q.toNat = 2 ^ 32 - 1 := by omega
    rw [hsum]
    omega
  have hsum := addSsaaaa_spec (umulPpmm_spec (~~~q) d)
    (Eq.refl (nl.toNat + 2 ^ 32 * nh.toNat)) (by omega)
  set x := addSsaaaa (umulPpmm (~~~q) d).1 (umulPpmm (~~~q) d).2 nh nl
  have hx2 := x.2.isLt
  by_cases hge : q.toNat * d.toNat + d.toNat ≤ nh.toNat * 2 ^ 32 + nl.toNat
  · have hx1 : x.1 = d := by
      refine BitVec.eq_of_toNat_eq ?_
      omega
    have hzero : d - d = 0 := BitVec.sub_self d
    have hand : d &&& 0 = 0 := BitVec.and_zero
    have hq1 : (0 - ~~~q).toNat = q.toNat + 1 := by
      have hlt' : q.toNat + 1 < 2 ^ 32 := by
        by_contra hover
        have : 2 ^ 32 * d.toNat ≤ (q.toNat + 1) * d.toNat :=
          Nat.mul_le_mul_right _ (not_lt.mp hover)
        rw [Nat.add_mul] at this
        omega
      rw [BitVec.toNat_sub, hnot, toNat_zero_limb]
      omega
    have hr : x.2 + 0 = x.2 := BitVec.add_zero x.2
    rw [hx1, hzero, hand, hq1, hr, Nat.add_mul, Nat.one_mul]
    omega
  · have hmax : (~~~0 : Natural32).toNat = 2 ^ 32 - 1 := rfl
    have hx : x.1.toNat = d.toNat - 1 := by omega
    have hx1 : x.1 - d = ~~~0 := by
      refine BitVec.eq_of_toNat_eq ?_
      rw [BitVec.toNat_sub, hmax, hx]
      omega
    have hand : d &&& ~~~0 = d := BitVec.and_allOnes
    have hq1 : ((~~~0 : Natural32) - ~~~q).toNat = q.toNat := by
      rw [BitVec.toNat_sub, hnot, hmax]
      omega
    rw [hx1, hand, hq1, BitVec.toNat_add]
    omega

end SpecialDivision

end EiffelWeb
