import EiffelWeb.Crypto.Limb.IntegerXSingle
import EiffelWeb.Crypto.Limb.QuotientRemainder
import EiffelWeb.Crypto.Limb.SpecialText
import EiffelWeb.Crypto.Limb.SquareBasecase

set_option relaxedAutoImplicit false
set_option autoImplicit false

/-!
# Digits of limb arrays in other bases

The ways of `get_str` and `set_str` for a base that is not a power of two. A number of less than 30
limbs is divided by the largest power `big_base` of the base that is a limb; the limb behind the
point of the quotient, increased by one, is a fraction that yields the digits of the remainder by
multiplications with the base.

## Main results

* `SpecialDivision.preinvDivrem1_run` — the quotient with a fraction, and the remainder.
* `SpecialAccess.sbGetStr_run` — the digits of a number.
* `SpecialAccess.getStr_none` — there are none for 30 limbs and more.
* `SpecialAssignment.setStr_radix` — the number of digits.
-/

namespace EiffelWeb

open Limbs Arrays LimbManipulation IntegerXMemory SpecialArithmetic

namespace SpecialDivision

open Natural32Shift SpecialLogic

/-! ## Division with a reciprocal that is given: the result -/

section Preinv

variable {qp qpOffset ap apOffset : ℕ} {d : Natural32} {h : LimbHeap}

/-- **The loop of `preinv_divrem_1`** for `shift = 0`. The quotient may take the place of the limbs
that were read. -/
lemma preinvLoop_run (hd : 2 ^ 31 ≤ d.toNat) (i : ℕ) {r : Natural32} (hr : r.toNat < d.toNat)
    (hq : qpOffset + i ≤ (h qp).length) (ha : apOffset + i ≤ (h ap).length)
    (hapart : qp = ap → apOffset ≤ qpOffset) :
    ∃ (r' : Natural32) (h' : LimbHeap),
      preinvLoop qp qpOffset ap apOffset d (limbInverse d) i r h = some (r', h') ∧
      h'.number qp qpOffset i * d.toNat + r'.toNat =
        (2 ^ 32) ^ i * r.toNat + h.number ap apOffset i ∧
      r'.toNat < d.toNat ∧ SameOutside (region qp qpOffset i) h h' := by
  induction i generalizing h r with
  | zero =>
    refine ⟨r, h, rfl, ?_, hr, SameOutside.refl _ h⟩
    rw [LimbHeap.number_zero, LimbHeap.number_zero, Nat.zero_mul, pow_zero]
    omega
  | succ i ih =>
    obtain ⟨x, hx, hsplit⟩ := h.exists_last (show apOffset + (i + 1) ≤ (h ap).length by omega)
    obtain ⟨hdiv, hrem⟩ := @udivQrnndPreinv_spec _ x _ hd hr
    set p := udivQrnndPreinv r x d (limbInverse d) with hp
    obtain ⟨g, hput, hlimb, hfoot⟩ := LimbHeap.run_put (h := h) (a := qp) (i := qpOffset + i)
      (by omega) p.1
    obtain ⟨r', h', hloop, hval, hless, hfoot'⟩ := ih (h := g) hrem (by rw [hfoot.length]; omega)
      (by rw [hfoot.length]; omega)
    have hkeep : g.number ap apOffset i = h.number ap apOffset i :=
      LimbHeap.number_apart hfoot fun he => by
        have := hapart he
        omega
    refine ⟨r', h', ?_, ?_, hless, hfoot.join hfoot' (by omega) (by omega)⟩
    · rw [preinvLoop, hx]
      simp only [Option.bind_eq_bind, Option.bind_some, ← hp, hput]
      exact hloop
    · rw [hkeep] at hval
      rw [LimbHeap.number_above hq hlimb hfoot hfoot', hsplit, Nat.add_mul, Nat.add_right_comm,
        hval, pow_succ (2 ^ 32) i]
      have hscaled : (2 ^ 32) ^ i * (p.1.toNat * d.toNat + p.2.toNat) =
          (2 ^ 32) ^ i * (r.toNat * 2 ^ 32 + x.toNat) := by rw [hdiv]
      linarith [hscaled]

/-- **The last loop of `preinv_divrem_1`** divides the remainder further. -/
lemma preinvFraction_run (hd : 2 ^ 31 ≤ d.toNat) (k : ℕ) {r : Natural32} (hr : r.toNat < d.toNat)
    (hq : qpOffset + k ≤ (h qp).length) :
    ∃ (r' : Natural32) (h' : LimbHeap),
      preinvFraction qp qpOffset d (limbInverse d) k r h = some (r', h') ∧
      h'.number qp qpOffset k * d.toNat + r'.toNat = (2 ^ 32) ^ k * r.toNat ∧
      r'.toNat < d.toNat ∧ SameOutside (region qp qpOffset k) h h' := by
  induction k generalizing h r with
  | zero =>
    refine ⟨r, h, rfl, ?_, hr, SameOutside.refl _ h⟩
    rw [LimbHeap.number_zero, Nat.zero_mul, pow_zero]
    omega
  | succ k ih =>
    obtain ⟨hdiv, hrem⟩ := @udivQrnndPreinv_spec _ 0 _ hd hr
    set p := udivQrnndPreinv r 0 d (limbInverse d) with hp
    obtain ⟨g, hput, hlimb, hfoot⟩ := LimbHeap.run_put (h := h) (a := qp) (i := qpOffset + k)
      (by omega) p.1
    obtain ⟨r', h', hloop, hval, hless, hfoot'⟩ := ih (h := g) hrem (by rw [hfoot.length]; omega)
    refine ⟨r', h', ?_, ?_, hless, hfoot.join hfoot' (by omega) (by omega)⟩
    · rw [preinvFraction]
      simp only [Option.bind_eq_bind, ← hp, hput, Option.bind_some]
      exact hloop
    · rw [toNat_zero_limb, Nat.add_zero] at hdiv
      rw [LimbHeap.number_above hq hlimb hfoot hfoot', Nat.add_mul, Nat.add_right_comm, hval,
        pow_succ (2 ^ 32) k]
      have hscaled : (2 ^ 32) ^ k * (p.1.toNat * d.toNat + p.2.toNat) =
          (2 ^ 32) ^ k * (r.toNat * 2 ^ 32) := by rw [hdiv]
      linarith [hscaled]

/-- **The loop of `preinv_divrem_1`** for another shift: the dividend is shifted limb by limb, and
`n1` is the limb above those that are left. -/
lemma preinvShifted_run (hd : 2 ^ 31 ≤ d.toNat) {shift : ℕ} (hlt : shift < 32) (i : ℕ)
    (n1 : Natural32) {r : Natural32} (hr : r.toNat < d.toNat)
    (hq : qpOffset + (i + 1) ≤ (h qp).length) (ha : apOffset + i ≤ (h ap).length)
    (hapart : qp = ap → apOffset ≤ qpOffset) :
    ∃ (r' : Natural32) (h' : LimbHeap),
      preinvShifted qp qpOffset ap apOffset d (limbInverse d) shift i n1 r h = some (r', h') ∧
      h'.number qp qpOffset (i + 1) * d.toNat + r'.toNat =
        (2 ^ 32) ^ i * (r.toNat * 2 ^ 32 + (n1 <<< shift).toNat) +
          h.number ap apOffset i * 2 ^ shift ∧
      r'.toNat < d.toNat ∧ SameOutside (region qp qpOffset (i + 1)) h h' := by
  have hright : 32 - (shift : ℤ) = ((32 - shift : ℕ) : ℤ) := by omega
  induction i generalizing h r n1 with
  | zero =>
    obtain ⟨hdiv, hrem⟩ := @udivQrnndPreinv_spec _ (n1 <<< shift) _ hd hr
    set p := udivQrnndPreinv r (n1 <<< shift) d (limbInverse d) with hp
    obtain ⟨g, hput, hlimb, hfoot⟩ := LimbHeap.run_put (h := h) (a := qp) (i := qpOffset)
      (by omega) p.1
    refine ⟨p.2, g, ?_, ?_, hrem, hfoot⟩
    · rw [preinvShifted, left_eq n1 (by omega)]
      simp only [Option.bind_eq_bind, Option.bind_some, ← hp, hput]
      rfl
    · rw [hlimb, hdiv, pow_zero, Nat.one_mul, LimbHeap.number_zero, Nat.zero_mul, Nat.add_zero]
  | succ i ih =>
    obtain ⟨n0, hn0, hsplit⟩ := h.exists_last (show apOffset + (i + 1) ≤ (h ap).length by omega)
    have hparts := shift_parts hlt.le n0
    have hor : (n1 <<< shift ||| n0 >>> (32 - shift)).toNat =
        (n1 <<< shift).toNat + (n0 >>> (32 - shift)).toNat :=
      toNat_or_parts (dvd_shiftLeft hlt.le n1) (ushiftRight_lt hlt.le n0)
    obtain ⟨hdiv, hrem⟩ := @udivQrnndPreinv_spec _ (n1 <<< shift ||| n0 >>> (32 - shift)) _ hd hr
    set p := udivQrnndPreinv r (n1 <<< shift ||| n0 >>> (32 - shift)) d (limbInverse d) with hp
    obtain ⟨g, hput, hlimb, hfoot⟩ := LimbHeap.run_put (h := h) (a := qp) (i := qpOffset + (i + 1))
      (by omega) p.1
    obtain ⟨r', h', hloop, hval, hless, hfoot'⟩ := ih (h := g) n0 hrem
      (by rw [hfoot.length]; omega) (by rw [hfoot.length]; omega)
    have hkeep : g.number ap apOffset i = h.number ap apOffset i :=
      LimbHeap.number_apart hfoot fun he => by
        have := hapart he
        omega
    refine ⟨r', h', ?_, ?_, hless, hfoot.join hfoot' (by omega) (by omega)⟩
    · rw [preinvShifted, hn0, left_eq n1 (by omega), hright]
      simp only [Option.bind_eq_bind, Option.bind_some, right_eq n0 (Nat.sub_le 32 shift), ← hp,
        hput]
      exact hloop
    · rw [hkeep] at hval
      rw [hor] at hdiv
      rw [LimbHeap.number_above hq hlimb hfoot hfoot', hsplit, Nat.add_mul, Nat.add_right_comm,
        hval, pow_succ (2 ^ 32) i]
      have hscaled : (2 ^ 32) ^ i * 2 ^ 32 * (p.1.toNat * d.toNat + p.2.toNat) =
          (2 ^ 32) ^ i * 2 ^ 32 * (r.toNat * 2 ^ 32 +
            ((n1 <<< shift).toNat + (n0 >>> (32 - shift)).toNat)) := by rw [hdiv]
      have hparts' : (2 ^ 32) ^ i * ((n0 <<< shift).toNat +
          2 ^ 32 * (n0 >>> (32 - shift)).toNat) = (2 ^ 32) ^ i * (n0.toNat * 2 ^ shift) := by
        rw [hparts]
      linarith [hscaled, hparts']

/-- A limb below the divisor is shifted like the divisor, without a carry. -/
lemma toNat_shiftLeft_below {dUnnorm x : Natural32} {shift : ℕ}
    (hexact : d.toNat = dUnnorm.toNat * 2 ^ shift) (hx : x.toNat < dUnnorm.toNat) :
    (x <<< shift).toNat = x.toNat * 2 ^ shift ∧ x.toNat * 2 ^ shift + 2 ^ shift ≤ d.toNat := by
  have hdlt := d.isLt
  have hpow := Nat.two_pow_pos shift
  have hnext : (x.toNat + 1) * 2 ^ shift ≤ dUnnorm.toNat * 2 ^ shift := Nat.mul_le_mul_right _ hx
  rw [Nat.add_mul, Nat.one_mul, ← hexact] at hnext
  exact ⟨by rw [BitVec.toNat_shiftLeft, Nat.shiftLeft_eq, Nat.mod_eq_of_lt (by omega)], hnext⟩

/-- The loop from the highest limb of a dividend on, with the limb `x` above it. -/
lemma preinvShifted_from (hd : 2 ^ 31 ≤ d.toNat) {dUnnorm : Natural32} {shift : ℕ}
    (hlt : shift < 32) (hexact : d.toNat = dUnnorm.toNat * 2 ^ shift) {x : Natural32}
    (hx : x.toNat < dUnnorm.toNat) {i : ℕ} (hq : qpOffset + (i + 1) ≤ (h qp).length)
    (ha : apOffset + (i + 1) ≤ (h ap).length) (hapart : qp = ap → apOffset ≤ qpOffset) :
    ∃ (n1 r' : Natural32) (h' : LimbHeap), h.item ap (apOffset + i) = some n1 ∧
      preinvShifted qp qpOffset ap apOffset d (limbInverse d) shift i n1
        (x <<< shift ||| n1 >>> (32 - shift)) h = some (r', h') ∧
      h'.number qp qpOffset (i + 1) * d.toNat + r'.toNat =
        ((2 ^ 32) ^ (i + 1) * x.toNat + h.number ap apOffset (i + 1)) * 2 ^ shift ∧
      r'.toNat < d.toNat ∧ SameOutside (region qp qpOffset (i + 1)) h h' := by
  obtain ⟨n1, hn1, hsplit⟩ := h.exists_last ha
  have hhigh := ushiftRight_lt hlt.le n1
  obtain ⟨hleft, hnext⟩ := toNat_shiftLeft_below hexact hx
  have hor : (x <<< shift ||| n1 >>> (32 - shift)).toNat =
      x.toNat * 2 ^ shift + (n1 >>> (32 - shift)).toNat := by
    rw [toNat_or_parts (dvd_shiftLeft hlt.le x) hhigh, hleft]
  obtain ⟨r', h', hrun, hval, hless, hfoot⟩ := preinvShifted_run (h := h) hd hlt i n1
    (r := x <<< shift ||| n1 >>> (32 - shift)) (by rw [hor]; omega) hq
    (by omega) hapart
  refine ⟨n1, r', h', hn1, hrun, ?_, hless, hfoot⟩
  have hscaled : (2 ^ 32) ^ i * ((n1 <<< shift).toNat + 2 ^ 32 * (n1 >>> (32 - shift)).toNat) =
      (2 ^ 32) ^ i * (n1.toNat * 2 ^ shift) := by rw [shift_parts hlt.le n1]
  rw [hval, hor, hsplit, pow_succ (2 ^ 32) i]
  linarith [hscaled]

/-- The highest limb of the quotient by a normalised divisor is zero or one. -/
lemma topLimb_spec (hd : 2 ^ 31 ≤ d.toNat) (x : Natural32) :
    ∃ q r : Natural32, (toLimb (decide (d ≤ x)) = q ∧ (if q ≠ 0 then x - d else x) = r) ∧
      q.toNat * d.toNat + r.toNat = x.toNat ∧ r.toNat < d.toNat := by
  have hxlt := x.isLt
  by_cases hle : d ≤ x
  · have hle' : d.toNat ≤ x.toNat := hle
    have hone : (1 : Natural32).toNat = 1 := rfl
    refine ⟨1, x - d, ⟨by rw [decide_eq_true hle]; rfl, if_pos (by decide)⟩, ?_, ?_⟩
    · rw [BitVec.toNat_sub_of_le hle, hone]
      omega
    · rw [BitVec.toNat_sub_of_le hle]
      omega
  · have hlt : x.toNat < d.toNat := not_le.mp hle
    refine ⟨0, x, ⟨by rw [decide_eq_false hle]; rfl, if_neg (by decide)⟩, ?_, hlt⟩
    rw [toNat_zero_limb, Nat.zero_mul, Nat.zero_add]

/-- **The part of `preinv_divrem_1`** before the last loop, for a divisor that is shifted until its
top bit is set: the quotient, and the remainder, which is shifted as well. -/
lemma preinvInteger_run {dUnnorm : Natural32} {shift : ℕ} (hlt : shift < 32)
    (hshifted : d = dUnnorm <<< shift) (hexact : d.toNat = dUnnorm.toNat * 2 ^ shift)
    (hd : 2 ^ 31 ≤ d.toNat) {size : ℕ} (hpos : 1 ≤ size) (hq : qpOffset + size ≤ (h qp).length)
    (ha : apOffset + size ≤ (h ap).length) (hapart : qp = ap → apOffset ≤ qpOffset) :
    ∃ (r : Natural32) (h' : LimbHeap),
      preinvInteger qp qpOffset ap apOffset size dUnnorm (limbInverse d) shift h = some (r, h') ∧
      h'.number qp qpOffset size * d.toNat + r.toNat = h.number ap apOffset size * 2 ^ shift ∧
      r.toNat < d.toNat ∧ SameOutside (region qp qpOffset size) h h' := by
  obtain ⟨i, rfl⟩ : ∃ i, size = i + 1 := ⟨size - 1, by omega⟩
  obtain ⟨x, hx, hsplit⟩ := h.exists_last ha
  have hindex : apOffset + (i + 1) - 1 = apOffset + i := by omega
  have hindex' : qpOffset + (i + 1) - 1 = qpOffset + i := by omega
  rw [preinvInteger, hindex, hindex', hx, left_eq dUnnorm (by omega), ← hshifted]
  simp only [Option.bind_eq_bind, Option.bind_some]
  by_cases hzero : shift = 0
  · obtain ⟨q, r, hqr, hval, hless⟩ := topLimb_spec hd x
    obtain ⟨g, hput, hlimb, hfoot⟩ := LimbHeap.run_put (h := h) (a := qp) (i := qpOffset + i)
      (by omega) q
    obtain ⟨r', h', hloop, hsum, hless', hfoot'⟩ := preinvLoop_run (h := g) hd i hless
      (by rw [hfoot.length]; omega) (by rw [hfoot.length]; omega) hapart
    have hkeep : g.number ap apOffset i = h.number ap apOffset i :=
      LimbHeap.number_apart hfoot fun he => by
        have := hapart he
        omega
    refine ⟨r', h', ?_, ?_, hless', hfoot.join hfoot' (by omega) (by omega)⟩
    · rw [if_pos hzero, hqr.1, hqr.2, hput, Option.bind_some]
      exact hloop
    · rw [hkeep] at hsum
      rw [LimbHeap.number_above hq hlimb hfoot hfoot', hsplit, hzero, Nat.add_mul,
        Nat.add_right_comm, hsum]
      have hscaled : (2 ^ 32) ^ i * (q.toNat * d.toNat + r.toNat) = (2 ^ 32) ^ i * x.toNat := by
        rw [hval]
      linarith [hscaled]
  · have hright : 32 - (shift : ℤ) = ((32 - shift : ℕ) : ℤ) := by omega
    rw [if_neg hzero, hright]
    by_cases hless : x < dUnnorm
    · obtain ⟨g, hput, hlimb, hfoot⟩ := LimbHeap.run_put (h := h) (a := qp) (i := qpOffset + i)
        (by omega) 0
      rw [toNat_zero_limb] at hlimb
      have hkeep : g.number ap apOffset i = h.number ap apOffset i :=
        LimbHeap.number_apart hfoot fun he => by
          have := hapart he
          omega
      simp only [if_pos hless, left_eq x hlt.le, hput, Option.pure_def, Option.bind_some,
        Nat.add_sub_cancel]
      rcases i with - | i
      · obtain ⟨hleft, hnext⟩ := toNat_shiftLeft_below hexact hless
        have hpow := Nat.two_pow_pos shift
        refine ⟨x <<< shift, g, rfl, ?_, by rw [hleft]; omega, hfoot⟩
        rw [Nat.add_zero] at hlimb
        rw [Nat.zero_add, hlimb, ← Nat.zero_add 1, hsplit, hleft, LimbHeap.number_zero, pow_zero,
          Nat.zero_mul, Nat.one_mul, Nat.zero_add, Nat.zero_add]
      · obtain ⟨n1, r', h', hn1, hrun, hval, hless', hfoot'⟩ := preinvShifted_from (h := g) (i := i)
          hd hlt hexact hless (by rw [hfoot.length]; omega) (by rw [hfoot.length]; omega) hapart
        have hindex : apOffset + (i + 1) - 1 = apOffset + i := by omega
        refine ⟨r', h', ?_, ?_, hless', hfoot.join hfoot' (by omega) (by omega)⟩
        · rw [if_neg (Nat.succ_ne_zero i), hindex, hn1, Option.bind_some,
            right_eq n1 (Nat.sub_le 32 shift), Option.bind_some]
          exact hrun
        · rw [LimbHeap.number_above (n := i + 1) hq hlimb hfoot hfoot', hsplit, Nat.mul_zero,
            Nat.add_zero, hval, hkeep, Nat.add_comm]
    · have hdpos : (0 : Natural32).toNat < dUnnorm.toNat := by
        rw [toNat_zero_limb]
        by_contra hle
        rw [Nat.le_zero.mp (not_lt.mp hle), Nat.zero_mul] at hexact
        omega
      obtain ⟨n1, r', h', hn1, hrun, hval, hless', hfoot'⟩ := preinvShifted_from (h := h) hd hlt
        hexact hdpos hq ha hapart
      refine ⟨r', h', ?_, ?_, hless', hfoot'⟩
      · simp only [if_neg hless, Option.pure_def, if_neg (Nat.succ_ne_zero i), Option.bind_some,
          Nat.add_sub_cancel, hindex, hn1, right_eq n1 (Nat.sub_le 32 shift)]
        have hshift : (0 : Natural32) <<< shift = 0 := BitVec.zero_shiftLeft shift
        rw [hshift] at hrun
        exact hrun
      · rw [hval, toNat_zero_limb, Nat.mul_zero, Nat.zero_add]

/-- **`preinv_divrem_1`**: the quotient, with `xsize` limbs behind the point, and the remainder. -/
lemma preinvDivrem1_run {dUnnorm : Natural32} (hne : dUnnorm ≠ 0) {xsize size : ℕ}
    (hpos : 1 ≤ size) (hq : qpOffset + (xsize + size) ≤ (h qp).length)
    (ha : apOffset + size ≤ (h ap).length) (hapart : qp = ap → apOffset ≤ qpOffset + xsize) :
    ∃ (r : Natural32) (h' : LimbHeap),
      preinvDivrem1 qp qpOffset xsize ap apOffset size dUnnorm
        (limbInverse (dUnnorm <<< leadingZeros dUnnorm)) (leadingZeros dUnnorm) h = some (r, h') ∧
      h'.number qp qpOffset (xsize + size) * dUnnorm.toNat + r.toNat =
        (2 ^ 32) ^ xsize * h.number ap apOffset size ∧
      r.toNat < dUnnorm.toNat ∧ SameOutside (region qp qpOffset (xsize + size)) h h' := by
  obtain ⟨hshift, hlow, hhigh⟩ := leadingZeros_spec hne
  set shift := leadingZeros dUnnorm
  have hexact : (dUnnorm <<< shift).toNat = dUnnorm.toNat * 2 ^ shift := by
    rw [BitVec.toNat_shiftLeft, Nat.shiftLeft_eq, Nat.mod_eq_of_lt hhigh]
  obtain ⟨r₁, g, hint, hval, hless, hfoot⟩ := preinvInteger_run (show shift < 32 by omega) rfl
    hexact (by rw [hexact]; exact hlow) hpos
    (show (qpOffset + xsize) + size ≤ (h qp).length by omega) ha hapart
  obtain ⟨r₂, h', hfrac, hval', hless', hfoot'⟩ := preinvFraction_run
    (by rw [hexact]; exact hlow) xsize hless
    (show qpOffset + xsize ≤ (g qp).length by rw [hfoot.length]; omega)
  have hkeep : h'.number qp (qpOffset + xsize) size = g.number qp (qpOffset + xsize) size :=
    LimbHeap.number_apart hfoot' (Apart.of_le le_rfl)
  have hsum : h'.number qp qpOffset (xsize + size) * dUnnorm.toNat * 2 ^ shift + r₂.toNat =
      (2 ^ 32) ^ xsize * h.number ap apOffset size * 2 ^ shift := by
    rw [hexact] at hval hval'
    rw [h'.number_add (by rw [hfoot'.length, hfoot.length]; omega), hkeep,
      Nat.mul_assoc _ _ (2 ^ shift), Nat.mul_assoc _ _ (2 ^ shift), ← hval, Nat.mul_add, ← hval']
    ring
  -- the remainder is shifted back
  have hpow := Nat.two_pow_pos shift
  obtain ⟨r, hr⟩ : 2 ^ shift ∣ r₂.toNat :=
    (Nat.dvd_add_right (Nat.dvd_mul_left (2 ^ shift) _)).mp (hsum ▸ Nat.dvd_mul_left (2 ^ shift) _)
  have hback : (r₂ >>> shift).toNat = r := by
    rw [BitVec.toNat_ushiftRight, Nat.shiftRight_eq_div_pow, hr, Nat.mul_div_cancel_left _ hpow]
  rw [hr, Nat.mul_comm _ r, ← Nat.add_mul] at hsum
  rw [hr, hexact, Nat.mul_comm] at hless'
  refine ⟨r₂ >>> shift, h', ?_, by rw [hback]; exact Nat.eq_of_mul_eq_mul_right hpow hsum,
    by rw [hback]; exact Nat.lt_of_mul_lt_mul_right hless', hfoot.join hfoot' (by omega) (by omega)⟩
  rw [preinvDivrem1, hint, left_eq dUnnorm (by omega)]
  simp only [Option.bind_eq_bind, Option.bind_some, hfrac, right_eq r₂ (show shift ≤ 32 by omega)]
  rfl

end Preinv

end SpecialDivision

namespace SpecialAccess

open SpecialDivision

/-! ## Digits from a fraction -/

/-- **The digits of a fraction**: the loop writes the first `i` digits behind the point.

**Proof sketch.** Induction on the digits. The product of a fraction with the base is a digit and
the fraction of the digits behind it. -/
lemma fractionLoop_run {base : ℕ} (hpos : 0 < base) (hbase : base < 256) (i : ℕ)
    (frac : Natural32) {s : ℕ} {buf : List Natural8} (hroom : s + i ≤ buf.length) :
    ∃ l : List ℕ, l.length = i ∧ (∀ d ∈ l, d < base) ∧
      Nat.ofDigits base l.reverse = frac.toNat * base ^ i / 2 ^ 32 ∧
      fractionLoop (BitVec.ofNat 32 base) i frac s buf =
        some (Special.write buf s (l.map fun d => BitVec.ofNat 8 d)) := by
  induction i generalizing frac s buf with
  | zero =>
    refine ⟨[], rfl, fun d hd => absurd hd List.not_mem_nil, ?_, ?_⟩
    · rw [List.reverse_nil, Nat.ofDigits_nil, pow_zero, Nat.mul_one, Nat.div_eq_of_lt frac.isLt]
    · rw [fractionLoop, List.map_nil, Special.write_nil]
  | succ i ih =>
    have hprod := umulPpmm_spec frac (BitVec.ofNat 32 base)
    set p := umulPpmm frac (BitVec.ofNat 32 base) with hp
    rw [BitVec.toNat_ofNat, Nat.mod_eq_of_lt (show base < 2 ^ 32 by omega)] at hprod
    have hfrac := frac.isLt
    have hdigit : p.1.toNat < base := by
      refine Nat.lt_of_mul_lt_mul_left (a := 2 ^ 32) ?_
      calc 2 ^ 32 * p.1.toNat ≤ frac.toNat * base := by omega
        _ < 2 ^ 32 * base := Nat.mul_lt_mul_of_pos_right hfrac hpos
    have hnext : s + 1 + i ≤ (Special.write buf s [BitVec.ofNat 8 p.1.toNat]).length := by
      rw [Special.length_write (by rw [List.length_singleton]; omega)]
      omega
    obtain ⟨l, hlen, hl, hval, hrun⟩ := ih p.2 hnext
    refine ⟨p.1.toNat :: l, by rw [List.length_cons, hlen], ?_, ?_, ?_⟩
    · intro d hd
      rcases List.mem_cons.mp hd with rfl | hd
      · exact hdigit
      · exact hl d hd
    · rw [List.reverse_cons, Nat.ofDigits_append, List.length_reverse, hlen, Nat.ofDigits_singleton,
        hval, pow_succ' base, ← Nat.mul_assoc, ← hprod, Nat.add_mul, Nat.mul_assoc (2 ^ 32),
        Nat.add_mul_div_left _ _ (Nat.two_pow_pos 32), Nat.mul_comm (base ^ i)]
    · have hlow : p.1.setWidth 8 = BitVec.ofNat 8 p.1.toNat := (BitVec.ofNat_toNat 8 p.1).symm
      have hput : bytePut buf s (BitVec.ofNat 8 p.1.toNat) =
          some (Special.write buf s [BitVec.ofNat 8 p.1.toNat]) := by
        rw [bytePut_eq (by omega), Special.set_eq_write _ (by omega)]
      rw [Special.write_write (by rw [List.length_singleton])
        (by rw [List.length_singleton]; omega)] at hrun
      rw [fractionLoop]
      simp only [Option.bind_eq_bind, ← hp, hlow, hput, Option.bind_some]
      exact hrun

/-- The limb `q` behind the point of a quotient, increased by one, yields all digits of the
remainder: what it is too large by does not reach them. -/
lemma fraction_digits {b q Q e n : ℕ} (hdiv : (q + 2 ^ 32 * Q) * b + e = 2 ^ 32 * n) (he : e < b)
    (hq : q < 2 ^ 32) (hb : b < 2 ^ 32) :
    ∃ r, n = Q * b + r ∧ r < b ∧ (q + 1) * b / 2 ^ 32 = r ∧ q + 1 < 2 ^ 32 := by
  rw [Nat.add_mul, Nat.mul_assoc] at hdiv
  obtain ⟨r, hr⟩ : ∃ r, n = Q * b + r := ⟨n - Q * b, by omega⟩
  rw [hr, Nat.mul_add] at hdiv
  have hrem : q * b + e = 2 ^ 32 * r := by omega
  have hmul : (q + 1) * b ≤ 2 ^ 32 * b := Nat.mul_le_mul_right _ hq
  rw [Nat.add_mul] at hmul
  have hlt : r < b := by omega
  have hless : q * b < (2 ^ 32 - 1) * b := by omega
  have hsucc := Nat.lt_of_mul_lt_mul_right hless
  refine ⟨r, hr, hlt, Nat.div_eq_of_lt_le ?_ ?_, by omega⟩
  · rw [Nat.add_mul]
    omega
  · rw [Nat.add_mul]
    omega

/-! ## Blocks of digits -/

/-- The state of the loop of `sb_get_str` over blocks: the digits `l` are at the end of the buffer,
and the digits of `rp` come before them. -/
structure BlocksWritten (base N rp op1Count s : ℕ) (buf : List Natural8) (h : LimbHeap)
    (l : List ℕ) : Prop where
  /-- The digits are written from `s` on. -/
  start : s + l.length = buffAlloc
  /-- The length of the buffer. -/
  length : buf.length = buffAlloc
  /-- The digits. -/
  written : buf.drop s = l.map fun d => BitVec.ofNat 8 d
  /-- They are digits of the base. -/
  lt_base : ∀ d ∈ l, d < base
  /-- The number. -/
  value : Nat.ofDigits base l.reverse + base ^ l.length * h.number rp 1 op1Count = N
  /-- A limb is left. -/
  pos : 1 ≤ op1Count
  /-- The limbs are in the array. -/
  room : 1 + op1Count ≤ (h rp).length
  /-- No limb is left that is not needed. -/
  top : (2 ^ 32) ^ (op1Count - 1) ≤ h.number rp 1 op1Count

section Blocks

variable {base chars : ℕ} {big : Natural32} {N rp : ℕ}

/-- The items from an index on at which a list was written. -/
lemma drop_write {buf u : List Natural8} {i : ℕ} (hi : i + u.length ≤ buf.length) :
    (Special.write buf i u).drop i = u ++ buf.drop (i + u.length) := by
  have hlen : (buf.take i).length = i := by
    rw [List.length_take]
    omega
  rw [Special.write, List.append_assoc, List.drop_append_of_le_length (by omega),
    List.drop_of_length_le (by omega), List.nil_append]

/-- The highest limb of a quotient is dropped if it is zero, and no other limb is zero then. -/
lemma quotient_top {g : LimbHeap} {c b n r : ℕ} (hroom : 1 + (c + 2) ≤ (g rp).length)
    (hn : n = g.number rp 1 (c + 2) * b + r) (hr : r < b) (hb : b ≤ 2 ^ 32)
    (hlow : (2 ^ 32) ^ (c + 1) ≤ n) :
    ∃ (top : Natural32) (c' : ℕ), g.item rp (c + 2) = some top ∧
      (if top = 0 then c + 2 - 1 else c + 2) = c' ∧ g.number rp 1 c' = g.number rp 1 (c + 2) ∧
      1 ≤ c' ∧ c' ≤ c + 2 ∧ (2 ^ 32) ^ (c' - 1) ≤ g.number rp 1 (c + 2) := by
  obtain ⟨top, htop, hsplit⟩ := g.exists_last (a := rp) (i := 1) (n := c + 1) hroom
  have hindex : 1 + (c + 1) = c + 2 := by omega
  rw [hindex] at htop
  by_cases hzero : top = 0
  · have hsame : g.number rp 1 (c + 1) = g.number rp 1 (c + 2) := by
      rw [hsplit, hzero, toNat_zero_limb, Nat.mul_zero]
      rfl
    refine ⟨top, c + 1, htop, if_pos hzero, hsame, by omega, by omega, ?_⟩
    by_contra hless
    have hmul : (g.number rp 1 (c + 2) + 1) * b ≤ (2 ^ 32) ^ c * 2 ^ 32 :=
      Nat.mul_le_mul (not_le.mp hless) hb
    rw [← pow_succ, Nat.add_mul] at hmul
    omega
  · refine ⟨top, c + 2, htop, if_neg hzero, rfl, by omega, le_rfl, ?_⟩
    rw [hsplit]
    exact (pow_le_mul_toNat hzero (c + 1)).trans (Nat.le_add_left _ _)

/-- **One block** of digits. -/
lemma blockLoop_step (hbase : MpBases.HasRadix base chars big) {op1Count s : ℕ}
    {buf : List Natural8} {h : LimbHeap} {l : List ℕ}
    (hst : BlocksWritten base N rp op1Count s buf h l) (hN : N < base ^ buffAlloc)
    (hmore : 1 < op1Count) (k : ℕ) :
    ∃ (op1Count' s' : ℕ) (buf' : List Natural8) (h' : LimbHeap) (l' : List ℕ),
      blockLoop base big (limbInverse (big <<< leadingZeros big)) chars rp (k + 1) op1Count s buf
          h =
        blockLoop base big (limbInverse (big <<< leadingZeros big)) chars rp k op1Count' s' buf'
          h' ∧
      BlocksWritten base N rp op1Count' s' buf' h' l' ∧ l'.length = l.length + chars := by
  obtain ⟨hstart, hlength, hwritten, hlt, hvalue, hpos, hroom, htop⟩ := hst
  obtain ⟨c, rfl⟩ : ∃ c, op1Count = c + 2 := ⟨op1Count - 2, by omega⟩
  have hlow := hbase.base_le
  have hhigh := hbase.base_lt
  have hbigLt := big.isLt
  have hbigNe : big ≠ 0 := fun h0 => by
    have hpow : 0 < base ^ chars := Nat.pow_pos (by omega)
    rw [← hbase.big_eq, h0] at hpow
    exact absurd hpow (by decide)
  obtain ⟨e, g, hrun, hdiv, hless, hfoot⟩ := preinvDivrem1_run hbigNe (by omega)
    (show 0 + (1 + (c + 2)) ≤ (h rp).length by omega) (show 1 + (c + 2) ≤ (h rp).length by omega)
    (fun _ => le_rfl)
  have hglen := hfoot.length rp
  obtain ⟨q, hq, hqNum⟩ := LimbHeap.exists_limb (h := g) (a := rp) (i := 0) (by omega)
  rw [g.number_add (by omega), hqNum, pow_one] at hdiv
  obtain ⟨r, hr, hrlt, hdigits, hsucc⟩ := fraction_digits hdiv hless q.isLt hbigLt
  obtain ⟨top, c', htopItem, hc', hnum, hone, hle, htop'⟩ := quotient_top (by omega) hr hrlt
    hbigLt.le htop
  have hqsucc : (q + 1).toNat = q.toNat + 1 := by
    rw [BitVec.toNat_add, show (1 : Natural32).toNat = 1 from rfl, Nat.mod_eq_of_lt hsucc]
  -- the buffer has room for the block
  have hfits : l.length + chars < buffAlloc := by
    have hlimb : base ^ chars ≤ h.number rp 1 (c + 2) := by
      calc base ^ chars = big.toNat := hbase.big_eq.symm
        _ ≤ (2 ^ 32) ^ 1 := by rw [pow_one]; exact hbigLt.le
        _ ≤ (2 ^ 32) ^ (c + 2 - 1) := Nat.pow_le_pow_right (by decide) (by omega)
        _ ≤ h.number rp 1 (c + 2) := htop
    refine (Nat.pow_lt_pow_iff_right (show 1 < base from hlow)).mp ?_
    calc base ^ (l.length + chars) = base ^ l.length * base ^ chars := pow_add _ _ _
      _ ≤ base ^ l.length * h.number rp 1 (c + 2) := Nat.mul_le_mul_left _ hlimb
      _ ≤ N := by omega
      _ < base ^ buffAlloc := hN
  obtain ⟨s', rfl⟩ : ∃ s', s = s' + chars := ⟨s - chars, by omega⟩
  obtain ⟨l₂, hlen₂, hlt₂, hval₂, hloop⟩ := fractionLoop_run (show 0 < base by omega)
    (show base < 256 by omega) chars (q + 1) (show s' + chars ≤ buf.length by omega)
  rw [hqsucc, ← hbase.big_eq, hdigits] at hval₂
  have hmapLen : (l₂.map fun d => BitVec.ofNat 8 d).length = chars := by
    rw [List.length_map, hlen₂]
  have hindex : ((s' + chars : ℕ) : ℤ) - chars = s' := by
    push_cast
    ring
  refine ⟨c', s', Special.write buf s' (l₂.map fun d => BitVec.ofNat 8 d), g, l₂ ++ l, ?_,
    ⟨?_, ?_, ?_, ?_, ?_, hone, by omega, ?_⟩, ?_⟩
  · rw [blockLoop, if_neg (by omega), hrun]
    simp only [Option.bind_eq_bind, Option.bind_some, htopItem, hc', hq, hindex, hloop]
  · rw [List.length_append, hlen₂]
    omega
  · rw [Special.length_write (by omega)]
    exact hlength
  · rw [drop_write (by omega), hmapLen, hwritten, List.map_append]
  · intro d hd
    exact (List.mem_append.mp hd).elim (hlt₂ d) (hlt d)
  · rw [List.reverse_append, Nat.ofDigits_append, hval₂, List.length_reverse, List.length_append,
      hlen₂, hnum, ← hvalue, hr, Nat.add_comm chars, pow_add, hbase.big_eq]
    ring
  · rw [hnum]
    exact htop'
  · rw [List.length_append, hlen₂, Nat.add_comm]

/-- **The loop** over blocks of digits ends with one limb.

**Proof sketch.** Induction on the fuel. Each block has a digit at least, and there are not more
digits than the buffer has items. -/
lemma blockLoop_run (hbase : MpBases.HasRadix base chars big) (hN : N < base ^ buffAlloc) (k : ℕ)
    {op1Count s : ℕ} {buf : List Natural8} {h : LimbHeap} {l : List ℕ}
    (hst : BlocksWritten base N rp op1Count s buf h l) (hk : buffAlloc < k + l.length) :
    ∃ (s' : ℕ) (buf' : List Natural8) (h' : LimbHeap) (l' : List ℕ),
      blockLoop base big (limbInverse (big <<< leadingZeros big)) chars rp k op1Count s buf h =
        some ((s' : ℤ), buf', h') ∧
      BlocksWritten base N rp 1 s' buf' h' l' := by
  induction k generalizing op1Count s buf h l with
  | zero =>
    have := hst.start
    omega
  | succ k ih =>
    by_cases hlast : op1Count ≤ 1
    · obtain rfl : op1Count = 1 := Nat.le_antisymm hlast hst.pos
      refine ⟨s, buf, h, l, ?_, hst⟩
      rw [blockLoop, if_pos le_rfl]
    · obtain ⟨c', s', buf', h', l', hstep, hst', hlen⟩ := blockLoop_step hbase hst hN
        (not_le.mp hlast) k
      have hpos := hbase.pos
      rw [hstep]
      exact ih hst' (by omega)

end Blocks

/-! ## The digits of a number -/

/-- Writing one item before those that are written. -/
lemma drop_set {buf : List Natural8} {s : ℕ} (hs : s < buf.length) (b : Natural8) :
    (buf.set s b).drop s = b :: buf.drop (s + 1) := by
  rw [List.drop_eq_getElem_cons (by rw [List.length_set]; exact hs), List.getElem_set_self,
    List.drop_set_of_lt (Nat.lt_succ_self s)]

/-- No digit is written for zero. -/
lemma limbDigits_zero {base : ℕ} (k s : ℕ) (buf : List Natural8) :
    limbDigits (BitVec.ofNat 32 base) k 0 s buf = some ((s : ℤ), buf) := by
  cases k <;> rw [limbDigits, if_pos rfl]

/-- **The digits of the last limb** are written before the others.

**Proof sketch.** Induction on the fuel, with one digit less in the quotient. -/
lemma limbDigits_run {base : ℕ} (hlow : 2 ≤ base) (hhigh : base < 256) (k : ℕ) {ul : Natural32}
    (hul : ul.toNat < base ^ k) {s : ℕ} {buf : List Natural8}
    (hs : s + (Nat.digits base ul.toNat).length ≤ buf.length) :
    ∃ buf', limbDigits (BitVec.ofNat 32 base) k ul
        ((s + (Nat.digits base ul.toNat).length : ℕ) : ℤ) buf = some ((s : ℤ), buf') ∧
      buf'.length = buf.length ∧
      buf'.drop s = ((Nat.digits base ul.toNat).reverse.map fun d => BitVec.ofNat 8 d) ++
        buf.drop (s + (Nat.digits base ul.toNat).length) := by
  have hnone : Nat.digits base (0 : Natural32).toNat = [] := Nat.digits_zero base
  induction k generalizing ul s buf with
  | zero =>
    obtain rfl : ul = 0 := BitVec.eq_of_toNat_eq (Nat.lt_one_iff.mp hul)
    rw [hnone]
    exact ⟨buf, limbDigits_zero _ _ _, rfl, rfl⟩
  | succ k ih =>
    by_cases hzero : ul = 0
    · subst hzero
      rw [hnone]
      exact ⟨buf, limbDigits_zero _ _ _, rfl, rfl⟩
    · have hpos : 0 < ul.toNat := BitVec.toNat_pos_of_ne_zero hzero
      have hbase : (BitVec.ofNat 32 base).toNat = base := by
        rw [BitVec.toNat_ofNat, Nat.mod_eq_of_lt (by omega)]
      have hquot : (ul / BitVec.ofNat 32 base).toNat = ul.toNat / base := by
        rw [BitVec.toNat_udiv, hbase]
      have hrem : (ul % BitVec.ofNat 32 base).setWidth 8 = BitVec.ofNat 8 (ul.toNat % base) := by
        rw [← BitVec.ofNat_toNat, BitVec.toNat_umod, hbase]
      have hdigits : Nat.digits base ul.toNat =
          ul.toNat % base :: Nat.digits base (ul.toNat / base) :=
        Nat.digits_eq_cons_digits_div hlow hpos.ne'
      have hless : ul.toNat / base < base ^ k := by
        rw [pow_succ] at hul
        exact Nat.div_lt_of_lt_mul (by rwa [Nat.mul_comm])
      set n := (Nat.digits base (ul.toNat / base)).length with hn
      have hlen : (Nat.digits base ul.toNat).length = n + 1 := by rw [hdigits, List.length_cons]
      rw [hlen] at hs ⊢
      obtain ⟨buf', hrun, hlength, hdrop⟩ := @ih (ul / BitVec.ofNat 32 base)
        (by rwa [hquot]) s (buf.set (s + n) (BitVec.ofNat 8 (ul.toNat % base)))
        (by rw [hquot, List.length_set]; omega)
      rw [hquot, ← hn] at hrun hdrop
      have hindex : ((s + (n + 1) : ℕ) : ℤ) - 1 = (s + n : ℕ) := by
        push_cast
        ring
      refine ⟨buf', ?_, by rw [hlength, List.length_set], ?_⟩
      · rw [limbDigits, if_neg hzero, hindex, hrem, bytePut_eq (by omega)]
        exact hrun
      · rw [hdrop, drop_set (by omega), hdigits, List.reverse_cons, List.map_append,
          List.append_assoc]
        rfl

/-- **The last loop of `sb_get_str`** writes the digits from an index of the buffer on. -/
lemma copyDigits_run {target : String8} {offset : ℕ} (hoffset : 1 ≤ offset) {buf : List Natural8}
    (u : List ℕ) {s : ℕ} {v : String8}
    (hwritten : buf.drop s = u.map fun d => BitVec.ofNat 8 d)
    (hroom : offset - 1 + (v.length + u.length) ≤ target.length) :
    copyDigits buf u.length s (TextCursor.after target offset v) =
      some (TextCursor.after target offset
        (v ++ u.map fun d => toCharacter (BitVec.ofNat 8 d))) := by
  induction u generalizing s v with
  | nil => rw [List.map_nil, List.append_nil, List.length_nil, copyDigits]
  | cons d u ih =>
    rw [List.length_cons] at hroom
    have hs : s < buf.length := by
      by_contra hge
      rw [List.drop_of_length_le (not_lt.mp hge)] at hwritten
      cases hwritten
    rw [List.drop_eq_getElem_cons hs, List.map_cons, List.cons.injEq] at hwritten
    have hitem : byteItem buf s = some (BitVec.ofNat 8 d) := by
      rw [byteItem, if_pos (Int.natCast_nonneg s), Int.toNat_natCast, List.getElem?_eq_getElem hs,
        hwritten.1]
    have hrest := ih (s := s + 1) (v := v ++ [toCharacter (BitVec.ofNat 8 d)]) hwritten.2
      (by rw [List.length_append, List.length_singleton]; omega)
    rw [List.length_cons, copyDigits, hitem]
    simp only [Option.bind_eq_bind, Option.bind_some]
    rw [TextCursor.put_after hoffset (by omega), Option.bind_some]
    refine Eq.trans ?_ (hrest.trans ?_)
    · push_cast
      rfl
    · rw [List.append_assoc]
      rfl

end SpecialAccess

namespace MpBases.HasRadix

variable {base chars : ℕ} {big : Natural32} (hbase : MpBases.HasRadix base chars big)

include hbase

/-- Two is a power of two. -/
lemma three_le : 3 ≤ base := by
  have hlow := hbase.base_le
  by_contra hless
  obtain rfl : base = 2 := by omega
  have htwo := hbase.pow2
  rw [show pow2P (BitVec.ofNat 32 2) = true by decide] at htwo
  cases htwo

/-- The buffer of `sb_get_str` has room for the digits of 29 limbs. -/
lemma pow_buffAlloc : (2 ^ 32) ^ 29 ≤ base ^ SpecialAccess.buffAlloc := by
  have hlimb : 2 ^ 32 ≤ base ^ 21 :=
    (show 2 ^ 32 ≤ 3 ^ 21 by decide).trans (Nat.pow_le_pow_left hbase.three_le 21)
  have hroom : 21 * 29 ≤ SpecialAccess.buffAlloc := by decide
  calc (2 ^ 32) ^ 29 ≤ (base ^ 21) ^ 29 := Nat.pow_le_pow_left hlimb 29
    _ = base ^ (21 * 29) := (pow_mul base 21 29).symm
    _ ≤ base ^ SpecialAccess.buffAlloc :=
        pow_le_pow_right₀ (Nat.one_le_of_lt hbase.three_le) hroom

end MpBases.HasRadix

namespace SpecialAccess

/-- **`sb_get_str`** writes the digits of a number of less than 30 limbs. -/
lemma sbGetStr_run {base chars : ℕ} {big : Natural32} (hbase : MpBases.HasRadix base chars big)
    {h : LimbHeap} {fresh op1 op1Count : ℕ} (hfresh : op1 ≠ fresh) (hpos : 1 ≤ op1Count)
    (hfew : op1Count < 30) (hlen : op1Count ≤ (h op1).length)
    (htop : (2 ^ 32) ^ (op1Count - 1) ≤ h.number op1 0 op1Count) (p : ℕ) {target : String8}
    {offset : ℕ} (hoffset : 1 ≤ offset)
    (hroom : offset - 1 + (Nat.digits base (h.number op1 0 op1Count)).length ≤ target.length) :
    sbGetStr fresh 0 op1 0 op1Count [⟨0, p, 0, 0, base⟩] 0 h ⟨offset, target⟩ =
      some (TextCursor.after target offset (digitChars base (h.number op1 0 op1Count) 0)) := by
  set N := h.number op1 0 op1Count with hN
  have hlow := hbase.base_le
  have hhigh := hbase.base_lt
  have hfit : N < base ^ buffAlloc := by
    calc N < (2 ^ 32) ^ op1Count := h.number_lt (by rw [Nat.zero_add]; exact hlen)
      _ ≤ (2 ^ 32) ^ 29 := Nat.pow_le_pow_right (by decide) (by omega)
      _ ≤ base ^ buffAlloc := hbase.pow_buffAlloc
  set h₁ : LimbHeap := Function.update h fresh (List.replicate 30 0) with hh₁
  have hfreshLen : (h₁ fresh).length = 30 := by
    rw [hh₁, Function.update_self, List.length_replicate]
  have hop1 : h₁ op1 = h op1 := Function.update_of_ne hfresh _ _
  obtain ⟨h₂, hcopy, hnum, hfoot⟩ := LimbHeap.run_copyData (t := fresh) (j := 1)
    (show 0 + op1Count ≤ (h₁ op1).length by rw [hop1]; omega) (by omega)
  have hsame : h₁.number op1 0 op1Count = N := by
    rw [hN, LimbHeap.number, Arrays.segment, hop1, ← Arrays.segment, ← LimbHeap.number]
  have hstart : BlocksWritten base N fresh op1Count buffAlloc (List.replicate buffAlloc 0) h₂
      [] := by
    refine ⟨rfl, List.length_replicate, ?_, fun d hd => absurd hd List.not_mem_nil, ?_, hpos, ?_,
      ?_⟩
    · rw [List.drop_of_length_le List.length_replicate.le]
      rfl
    · rw [List.reverse_nil, Nat.ofDigits_nil, List.length_nil, pow_zero, Nat.zero_add, Nat.one_mul,
        hnum, hsame]
    · rw [hfoot.length]
      omega
    · rw [hnum, hsame]
      exact htop
  obtain ⟨s, buf, h₃, l, hblocks, hst⟩ := blockLoop_run hbase hfit (buffAlloc + 1) hstart
    (Nat.lt_succ_self _)
  obtain ⟨ul, hul, hulNum⟩ := LimbHeap.exists_limb (h := h₃) (a := fresh) (i := 1)
    (by have := hst.room; omega)
  have hvalue := hst.value
  have hulPos := hst.top
  rw [hulNum] at hvalue hulPos
  -- the digits of the last limb come behind those of the blocks
  have hdigits : Nat.digits base N = l.reverse ++ Nat.digits base ul.toNat := by
    have hne : Nat.digits base ul.toNat ≠ [] :=
      Nat.digits_ne_nil_iff_ne_zero.mpr (by rw [Nat.sub_self, pow_zero] at hulPos; omega)
    have hall : Nat.ofDigits base (l.reverse ++ Nat.digits base ul.toNat) = N := by
      rw [Nat.ofDigits_append, Nat.ofDigits_digits, List.length_reverse]
      exact hvalue
    rw [← hall]
    refine Nat.digits_ofDigits base hlow _ (fun d hd => ?_) (fun hne' => ?_)
    · rcases List.mem_append.mp hd with hd | hd
      · exact hst.lt_base d (List.mem_reverse.mp hd)
      · exact Nat.digits_lt_base hlow hd
    · rw [List.getLast_append_of_ne_nil hne' hne]
      exact Nat.getLast_digit_ne_zero base (Nat.digits_ne_nil_iff_ne_zero.mp hne)
  have htotal : (Nat.digits base N).length = l.length + (Nat.digits base ul.toNat).length := by
    rw [hdigits, List.length_append, List.length_reverse]
  have hcount : (Nat.digits base N).length ≤ buffAlloc :=
    (Nat.digits_length_le_iff (by omega) N).mpr hfit
  have hstartLen := hst.start
  have hbufLen := hst.length
  obtain ⟨s', rfl⟩ : ∃ s', s = s' + (Nat.digits base ul.toNat).length :=
    ⟨s - (Nat.digits base ul.toNat).length, by omega⟩
  obtain ⟨buf', hlast, hlength, hdrop⟩ := limbDigits_run hlow (show base < 256 by omega) 32
    (show ul.toNat < base ^ 32 from ul.isLt.trans_le (Nat.pow_le_pow_left hlow 32))
    (show s' + (Nat.digits base ul.toNat).length ≤ buf.length by omega)
  have hwritten : buf'.drop s' = (Nat.digits base N).reverse.map fun d => BitVec.ofNat 8 d := by
    rw [hdrop, hst.written, hdigits, List.reverse_append, List.reverse_reverse, List.map_append]
  have hcopyDigits : copyDigits buf' (Nat.digits base N).reverse.length s'
      (TextCursor.after target offset []) = _ :=
    copyDigits_run hoffset (Nat.digits base N).reverse
    hwritten (by rw [List.length_nil, List.length_reverse]; omega)
  have hempty : TextCursor.after target offset [] = ⟨offset, target⟩ :=
    congrArg (TextCursor.mk offset) (Special.write_nil _ _)
  have hrest : buffAlloc - s' = (Nat.digits base N).reverse.length := by
    rw [List.length_reverse]
    omega
  have hpowtab : ([⟨0, p, 0, 0, base⟩] : List Powers)[0]? = some ⟨0, p, 0, 0, base⟩ := rfl
  rw [sbGetStr, hpowtab]
  simp only [Option.bind_eq_bind, Option.bind_some, hbase.charsPerLimb, hbase.bigBase,
    hbase.bigBaseInverted, ← hh₁, hcopy, hblocks, hul, hlast, Int.toNat_natCast, hrest,
    Nat.zero_sub, putNulls]
  rw [hempty] at hcopyDigits
  exact hcopyDigits

/-! ## Thirty limbs and more -/

/-- Two limbs of an array that has one cannot be squared. -/
lemma sqrBasecase_none {fresh target p : ℕ} {h : LimbHeap} (hp : (h p).length = 1)
    (hfresh : p ≠ fresh) : sqrBasecase fresh target 0 p 0 2 h = none := by
  refine Option.eq_none_iff_forall_ne_some.mpr fun h' hrun => ?_
  rw [sqrBasecase] at hrun
  obtain ⟨x, -, hrun⟩ := Option.bind_eq_some_iff.mp hrun
  obtain ⟨g₁, hput₁, hrun⟩ := Option.bind_eq_some_iff.mp hrun
  obtain ⟨g₂, hput₂, hrun⟩ := Option.bind_eq_some_iff.mp hrun
  rw [if_pos (by decide)] at hrun
  obtain ⟨v, -, hrun⟩ := Option.bind_eq_some_iff.mp hrun
  obtain ⟨r, hmul, -⟩ := Option.bind_eq_some_iff.mp hrun
  obtain ⟨u, hu, -⟩ := Option.bind_eq_some_iff.mp hmul
  obtain ⟨hlt, -⟩ := List.getElem?_eq_some_iff.mp hu
  have hlen₁ := keepsLengths_put h g₁ hput₁ p (Nat.lt_succ_self p)
  have hlen₂ := keepsLengths_put g₁ g₂ hput₂ p (Nat.lt_succ_self p)
  rw [Function.update_of_ne hfresh] at hlt
  rw [id] at hlen₁ hlen₂
  omega

/-- **The table of powers** cannot be made: the second iteration squares the array of the first one
again, with two limbs. -/
lemma powersLoop_none {fresh mem p base op1Count k digitsInBase : ℕ} {powtab : List Powers}
    {h : LimbHeap} {big : Natural32} (hp : h p = [big]) (hsq : 2 ^ 32 ≤ big.toNat * big.toNat)
    (hmem : 2 ≤ (h mem).length) (hne : mem ≠ p) (hmf : mem < fresh) (hpf : p < fresh)
    (hmany : 4 ≤ op1Count) :
    powersLoop fresh mem p base op1Count (k + 2) 1 digitsInBase powtab h = none := by
  have hplen : (h p).length = 1 := by rw [hp, List.length_singleton]
  obtain ⟨g, hrun, hval, hkeep⟩ := sqrBasecase_run le_rfl (show 1 < 64 by decide)
    (show mem < fresh + 1 by omega) (show p < fresh + 1 by omega)
    (show 0 + 2 * 1 ≤ (h mem).length by omega) (show 0 + 1 ≤ (h p).length by omega)
    (fun he => absurd he hne)
  have hone : h.number p 0 1 = big.toNat := LimbHeap.number_one (by rw [Arrays.item, hp]; rfl)
  have hgmem : (g mem).length = (h mem).length := hkeep.length mem (by omega)
  have hgp : (g p).length = 1 := by rw [hkeep.length p (by omega), hplen]
  obtain ⟨top, htop, hsplit⟩ := g.exists_last (a := mem) (i := 0) (n := 1) (by omega)
  -- the square has two limbs
  have hnz : top ≠ 0 := fun h0 => by
    have hlow := g.number_lt (a := mem) (i := 0) (n := 1) (by omega)
    rw [hone] at hval
    rw [hsplit, h0, toNat_zero_limb, Nat.mul_zero, Nat.add_zero] at hval
    rw [hval, pow_one, pow_two] at hlow
    omega
  have hfirst : sqrN fresh mem 0 p 0 1 h = some g := by rw [sqrN, if_pos (by decide), hrun]
  have hsecond : sqrN fresh mem 0 p 0 2 g = none := by
    rw [sqrN, if_pos (by decide), sqrBasecase_none hgp (by omega)]
  have hitem : g.item mem (1 * 2 - 1) = some top := htop
  rw [powersLoop, if_neg (by omega), hfirst]
  simp only [Option.bind_eq_bind, Option.bind_some, hitem, if_neg hnz]
  rw [powersLoop, if_neg (by omega), Nat.one_mul, Nat.sub_zero, hsecond]
  rfl

/-- **`get_str`** yields nothing for 30 limbs and more. -/
lemma getStr_none {base chars : ℕ} {big : Natural32} (hbase : MpBases.HasRadix base chars big)
    {op1Count : ℕ} (hmany : 30 ≤ op1Count) (fresh op1 : ℕ) (h : LimbHeap) (t : TextCursor) :
    getStr fresh base op1 0 op1Count h t = none := by
  obtain ⟨k, rfl⟩ : ∃ k, op1Count = k + 2 := ⟨op1Count - 2, by omega⟩
  rw [getStr, if_neg (by omega), hbase.pow2, if_neg Bool.false_ne_true, if_neg (by omega),
    hbase.bigBase, hbase.charsPerLimb]
  simp only [Option.bind_eq_bind, Option.bind_some]
  rw [powersLoop_none ?_ hbase.sq ?_ (by omega) (by omega) (by omega) (by omega),
    Option.bind_none]
  · exact Function.update_self _ _ _
  · rw [Function.update_of_ne (by omega), Function.update_of_ne (by omega),
      Function.update_of_ne (by omega), Function.update_of_ne (by omega), Function.update_self,
      List.length_replicate]
    omega

end SpecialAccess

namespace SpecialAssignment

/-! ## Numbers from digits -/

section Read

variable {target targetOffset v : ℕ} {h₀ : LimbHeap}

/-- The limbs that are stored, by their number. -/
lemma stores_of_number {h : LimbHeap} {size : ℕ}
    (hfoot : SameOutside (region target targetOffset size) h₀ h)
    (hfits : targetOffset + size ≤ (h₀ target).length)
    (hnum : h.number target targetOffset size = v) (hneed : size ≠ 0 → (2 ^ 32) ^ (size - 1) ≤ v) :
    Stores target targetOffset v h₀ (some (size, h)) := by
  refine ⟨size, ?_, hfits, ?_, hneed⟩
  · rw [← eq_store_of_number hfoot hfits hnum]
  · rw [← hnum]
    exact h.number_lt (by rw [hfoot.length]; exact hfits)

/-- What `Stores` says about the heap. -/
lemma Stores.number {h : LimbHeap} {size : ℕ}
    (hst : Stores target targetOffset v h₀ (some (size, h))) :
    SameOutside (region target targetOffset size) h₀ h ∧
      h.number target targetOffset size = v ∧ targetOffset + size ≤ (h₀ target).length ∧
      v < (2 ^ 32) ^ size ∧ (size ≠ 0 → (2 ^ 32) ^ (size - 1) ≤ v) := by
  obtain ⟨size', hheap, hfits, hlt, hneed⟩ := hst
  obtain ⟨rfl, rfl⟩ := Prod.mk.inj (Option.some.inj hheap)
  have hlen : (ofNat 32 size v).length = size := length_ofNat _ _
  have hfoot := sameOutside_store (h := h₀) (a := target) (i := targetOffset)
    (u := ofNat 32 size v) (by rw [hlen]; exact hfits)
  have hread := segment_store_self (h := h₀) (a := target) (i := targetOffset)
    (u := ofNat 32 size v) (by rw [hlen]; exact hfits)
  rw [hlen] at hfoot hread
  refine ⟨hfoot, ?_, hfits, hlt, hneed⟩
  rw [LimbHeap.number, hread, value_ofNat_of_lt hlt]

/-- **One block**: the number is multiplied, and the block is added. -/
lemma addBlock_step {h : LimbHeap} {size : ℕ}
    (hst : Stores target targetOffset v h₀ (some (size, h))) (bigBase resDigit : Natural32)
    (hbig : 1 ≤ bigBase.toNat)
    (hroom : v * bigBase.toNat + resDigit.toNat < (2 ^ 32) ^ ((h₀ target).length - targetOffset)) :
    Stores target targetOffset (v * bigBase.toNat + resDigit.toNat) h₀
      (addBlock target targetOffset size bigBase resDigit h) := by
  obtain ⟨hfoot, hnum, hfits, hlt, hneed⟩ := hst.number
  have hres := resDigit.isLt
  rcases size with - | n
  · obtain rfl : v = 0 := Nat.lt_one_iff.mp hlt
    rw [Nat.zero_mul, Nat.zero_add] at hroom ⊢
    rw [addBlock, if_pos rfl]
    by_cases hzero : resDigit = 0
    · rw [if_neg (not_not.mpr hzero), hzero]
      exact stores_of_number hfoot hfits (LimbHeap.number_zero _ _ _) fun hne => absurd rfl hne
    · have hpos : 1 ≤ resDigit.toNat := BitVec.toNat_pos_of_ne_zero hzero
      have hless : 0 < (h₀ target).length - targetOffset := by
        by_contra hle
        rw [Nat.le_zero.mp (not_lt.mp hle), pow_zero] at hroom
        omega
      obtain ⟨g, hput, hlimb, hfoot'⟩ := LimbHeap.run_put (h := h) (a := target) (i := targetOffset)
        (by rw [hfoot.length]; omega) resDigit
      rw [if_pos hzero, hput]
      exact stores_of_number (hfoot.join hfoot' (by omega) (by omega)) (by omega) hlimb
        fun _ => by rw [Nat.sub_self, pow_zero]; exact hpos
  · have hfits₀ : targetOffset + (n + 1) ≤ (h target).length := by
      rw [hfoot.length]
      exact hfits
    obtain ⟨c, h₁, hmul, hval, hfoot₁⟩ := mul1_run hfits₀ hfits₀ (ReadsAhead.refl _ _ _) bigBase
    have hfits₁ : targetOffset + (n + 1) ≤ (h₁ target).length := by
      rw [hfoot₁.length, hfoot.length]
      exact hfits
    obtain ⟨c', h₂, hadd, hval', hfoot₂⟩ := add1_run (fun _ => rfl)
      (rfl : ((n + 1 : ℕ) : ℤ) = (n + 1 : ℕ)) hfits₁ hfits₁ resDigit
    rw [hnum] at hval
    have hboth : SameOutside (region target targetOffset (n + 1)) h₀ h₂ :=
      (hfoot.trans hfoot₁).trans hfoot₂
    have hpow : 0 < (2 ^ 32) ^ (n + 1) := Nat.pow_pos (by decide)
    have htotal : h₂.number target targetOffset (n + 1) +
        (2 ^ 32) ^ (n + 1) * (c.toNat + c'.toNat) = v * bigBase.toNat + resDigit.toNat := by
      rw [Nat.mul_add]
      omega
    -- the two carries are a limb
    have hcarry : (c + c').toNat = c.toNat + c'.toNat := by
      have hmul₁ : v * bigBase.toNat ≤ v * (2 ^ 32 - 1) := Nat.mul_le_mul_left _ (by omega)
      have hmul₂ : (v + 1) * 2 ^ 32 ≤ (2 ^ 32) ^ (n + 1) * 2 ^ 32 := Nat.mul_le_mul_right _ hlt
      have hless : (2 ^ 32) ^ (n + 1) * (c.toNat + c'.toNat) < (2 ^ 32) ^ (n + 1) * 2 ^ 32 := by
        omega
      rw [BitVec.toNat_add, Nat.mod_eq_of_lt (Nat.lt_of_mul_lt_mul_left hless)]
    rw [← hcarry] at htotal
    have hrun : addBlock target targetOffset (n + 1) bigBase resDigit h =
        if c + c' ≠ 0 then (h₂.put target (targetOffset + (n + 1)) (c + c')).map fun h => (n + 2, h)
        else some (n + 1, h₂) := by
      rw [addBlock, if_neg (Nat.succ_ne_zero n), hmul]
      simp only [Option.bind_eq_bind, Option.bind_some, hadd]
      split
      · exact Option.map_eq_bind.symm
      · rfl
    rw [hrun]
    by_cases hzero : c + c' = 0
    · rw [hzero, toNat_zero_limb, Nat.mul_zero, Nat.add_zero] at htotal
      rw [if_neg (not_not.mpr hzero)]
      refine stores_of_number hboth hfits htotal fun hne => ?_
      calc (2 ^ 32) ^ (n + 1 - 1) ≤ v := hneed hne
        _ ≤ v * bigBase.toNat := Nat.le_mul_of_pos_right _ hbig
        _ ≤ v * bigBase.toNat + resDigit.toNat := Nat.le_add_right _ _
    · have hhigh : (2 ^ 32) ^ (n + 1) ≤ v * bigBase.toNat + resDigit.toNat := by
        rw [← htotal]
        exact (pow_le_mul_toNat hzero (n + 1)).trans (Nat.le_add_left _ _)
      have hless : n + 1 < (h₀ target).length - targetOffset :=
        (Nat.pow_lt_pow_iff_right (by decide)).mp (hhigh.trans_lt hroom)
      obtain ⟨g, hput, hlimb, hfoot'⟩ := LimbHeap.run_put (h := h₂) (a := target)
        (i := targetOffset + (n + 1)) (by rw [hboth.length]; omega) (c + c')
      have hkeep : g.number target targetOffset (n + 1) = h₂.number target targetOffset (n + 1) :=
        LimbHeap.number_apart hfoot' (Apart.of_le le_rfl).symm
      rw [if_pos hzero, hput]
      refine stores_of_number (hboth.join hfoot' (by omega) (by omega))
        (show targetOffset + (n + 2) ≤ (h₀ target).length by omega) ?_ fun _ => hhigh
      rw [← htotal, g.number_add (m := n + 1) (n := 1) (by rw [hfoot'.length, hboth.length]; omega),
        hkeep, hlimb]

end Read

section Digits

variable {base : ℕ}

/-- The digits of a block are behind those that were read. -/
lemma ofDigits_reverse_append (base : ℕ) (a b : List ℕ) :
    Nat.ofDigits base (a ++ b).reverse =
      Nat.ofDigits base a.reverse * base ^ b.length + Nat.ofDigits base b.reverse := by
  rw [List.reverse_append, Nat.ofDigits_append, List.length_reverse, Nat.add_comm,
    Nat.mul_comm (base ^ b.length)]

/-- More digits are a larger number. -/
lemma ofDigits_reverse_le (hbase : 0 < base) (a b : List ℕ) :
    Nat.ofDigits base a.reverse ≤ Nat.ofDigits base (a ++ b).reverse := by
  rw [ofDigits_reverse_append]
  exact (Nat.le_mul_of_pos_right _ (Nat.pow_pos hbase)).trans (Nat.le_add_right _ _)

/-- The number of a block of digits. -/
lemma toNat_block (hbase : 1 < base) {b : List ℕ} (hb : ∀ d ∈ b, d < base)
    (hpow : base ^ b.length ≤ 2 ^ 32) :
    (BitVec.ofNat 32 (Nat.ofDigits base b.reverse)).toNat = Nat.ofDigits base b.reverse := by
  have hlt := Nat.ofDigits_lt_base_pow_length hbase (l := b.reverse)
    fun d hd => hb d (List.mem_reverse.mp hd)
  rw [List.length_reverse] at hlt
  rw [BitVec.toNat_ofNat, Nat.mod_eq_of_lt (hlt.trans_le hpow)]

/-- The next digit. -/
lemma getElem?_digits (a : List ℕ) (d : ℕ) (c : List ℕ) :
    ((a ++ d :: c).map fun d => BitVec.ofNat 8 d)[a.length]? = some (BitVec.ofNat 8 d) := by
  rw [List.map_append, List.getElem?_append_right (List.length_map _).le, List.length_map,
    Nat.sub_self]
  rfl

lemma setWidth_ofNat {d : ℕ} (hd : d < 256) :
    ((BitVec.ofNat 8 d).setWidth 32 : Natural32) = BitVec.ofNat 32 d := by
  apply BitVec.eq_of_toNat_eq
  rw [BitVec.toNat_setWidth, BitVec.toNat_ofNat, BitVec.toNat_ofNat, Nat.mod_eq_of_lt hd]

/-- **A loop over digits** of `set_str`. -/
lemma digitsLoop_run (base : ℕ) {b : List ℕ} (hb : ∀ d ∈ b, d < 256) (a c : List ℕ) (v w : ℕ) :
    digitsLoop ((a ++ b ++ c).map fun d => BitVec.ofNat 8 d) (BitVec.ofNat 32 base) b.length
        a.length (BitVec.ofNat 32 v) (BitVec.ofNat 32 w) =
      some (BitVec.ofNat 32 (v * base ^ b.length + Nat.ofDigits base b.reverse),
        BitVec.ofNat 32 (w * base ^ b.length)) := by
  induction b generalizing a v w with
  | nil =>
    rw [List.length_nil, digitsLoop, List.reverse_nil, Nat.ofDigits_nil, pow_zero, Nat.mul_one,
      Nat.add_zero, Nat.mul_one]
  | cons d b ih =>
    have hitem : ((a ++ d :: b ++ c).map fun d => BitVec.ofNat 8 d)[a.length]? =
        some (BitVec.ofNat 8 d) := by
      rw [List.append_assoc, List.cons_append]
      exact getElem?_digits a d (b ++ c)
    have hsplit : a ++ d :: b ++ c = (a ++ [d]) ++ b ++ c := by
      rw [List.append_assoc a [d]]
      rfl
    have hrest := ih (fun e he => hb e (List.mem_cons_of_mem d he)) (a ++ [d]) (v * base + d)
      (w * base)
    rw [← hsplit, List.length_append, List.length_singleton] at hrest
    have hcons : Nat.ofDigits base (d :: b).reverse =
        d * base ^ b.length + Nat.ofDigits base b.reverse := by
      have := ofDigits_reverse_append base [d] b
      rwa [List.reverse_singleton, Nat.ofDigits_singleton] at this
    rw [List.length_cons, digitsLoop, hitem]
    simp only [Option.bind_eq_bind, Option.bind_some]
    rw [setWidth_ofNat (hb d List.mem_cons_self), ← BitVec.ofNat_mul, ← BitVec.ofNat_add,
      ← BitVec.ofNat_mul, hrest, hcons, pow_succ']
    congr 3
    · ring
    · ring

/-- A block of digits is read, the first one before the loop. -/
lemma block_run (base : ℕ) {b : List ℕ} (hne : b ≠ []) (hb : ∀ d ∈ b, d < 256) (a c : List ℕ) :
    ∃ d, ((a ++ b ++ c).map fun d => BitVec.ofNat 8 d)[a.length]? = some d ∧
      digitsLoop ((a ++ b ++ c).map fun d => BitVec.ofNat 8 d) (BitVec.ofNat 32 base) (b.length - 1)
          (a.length + 1) (d.setWidth 32) (BitVec.ofNat 32 base) =
        some (BitVec.ofNat 32 (Nat.ofDigits base b.reverse),
          BitVec.ofNat 32 (base ^ b.length)) := by
  -- the first digit is that of the loop for the number zero and the power one
  have hrun := digitsLoop_run base hb a c 0 1
  obtain ⟨d, b, rfl⟩ := List.exists_cons_of_ne_nil hne
  have hitem : ((a ++ d :: b ++ c).map fun d => BitVec.ofNat 8 d)[a.length]? =
      some (BitVec.ofNat 8 d) := by
    rw [List.append_assoc, List.cons_append]
    exact getElem?_digits a d (b ++ c)
  refine ⟨BitVec.ofNat 8 d, hitem, ?_⟩
  rw [List.length_cons, digitsLoop, hitem, Nat.zero_mul, Nat.zero_add, Nat.one_mul] at hrun
  simp only [Option.bind_eq_bind, Option.bind_some, BitVec.zero_mul, BitVec.zero_add,
    BitVec.one_mul] at hrun
  exact hrun

/-- **The loop over blocks** of digits, for `k` blocks.

**Proof sketch.** Induction on the blocks. What is stored stands for the digits before the block. -/
lemma blocksLoop_run {chars : ℕ} {big : Natural32} (hbase : MpBases.HasRadix base chars big)
    {target targetOffset : ℕ} {h₀ : LimbHeap} (k : ℕ) {a b c : List ℕ}
    (hlt : ∀ d ∈ a ++ b ++ c, d < base) (hb : b.length = k * chars)
    (hroom : Nat.ofDigits base (a ++ b ++ c).reverse <
      (2 ^ 32) ^ ((h₀ target).length - targetOffset)) {size : ℕ} {h : LimbHeap}
    (hst : Stores target targetOffset (Nat.ofDigits base a.reverse) h₀ (some (size, h))) :
    ∃ (size' : ℕ) (h' : LimbHeap),
      blocksLoop target targetOffset ((a ++ b ++ c).map fun d => BitVec.ofNat 8 d)
        (BitVec.ofNat 32 base) big chars k a.length size h = some ((a ++ b).length, size', h') ∧
      Stores target targetOffset (Nat.ofDigits base (a ++ b).reverse) h₀ (some (size', h')) := by
  have hlow := hbase.base_le
  have hhigh := hbase.base_lt
  induction k generalizing a b size h with
  | zero =>
    obtain rfl : b = [] := List.length_eq_zero_iff.mp (by rw [hb, Nat.zero_mul])
    rw [List.append_nil]
    exact ⟨size, h, rfl, hst⟩
  | succ k ih =>
    obtain ⟨b₁, b₂, rfl, hlen₁, hlen₂⟩ : ∃ b₁ b₂, b = b₁ ++ b₂ ∧ b₁.length = chars ∧
        b₂.length = k * chars := by
      rw [Nat.add_mul, Nat.one_mul] at hb
      refine ⟨b.take chars, b.drop chars, (List.take_append_drop _ _).symm, ?_, ?_⟩
      · rw [List.length_take]
        omega
      · rw [List.length_drop]
        omega
    have hall : a ++ (b₁ ++ b₂) ++ c = a ++ b₁ ++ (b₂ ++ c) := by
      simp only [List.append_assoc]
    have hall' : a ++ (b₁ ++ b₂) ++ c = (a ++ b₁) ++ b₂ ++ c := by
      simp only [List.append_assoc]
    have hlt₁ : ∀ d ∈ b₁, d < base := fun d hd => hlt d (by
      rw [hall]
      exact List.mem_append_left _ (List.mem_append_right _ hd))
    obtain ⟨d, hitem, hread⟩ := block_run base (b := b₁)
      (List.length_pos_iff.mp (by have := hbase.pos; omega))
      (fun d hd => by have := hlt₁ d hd; omega) a (b₂ ++ c)
    have hblock := toNat_block (show 1 < base from hlow) hlt₁ (by
      rw [hlen₁, ← hbase.big_eq]
      exact big.isLt.le)
    have hsum : Nat.ofDigits base a.reverse * big.toNat + Nat.ofDigits base b₁.reverse =
        Nat.ofDigits base (a ++ b₁).reverse := by
      rw [ofDigits_reverse_append, hlen₁, hbase.big_eq]
    have hadded := addBlock_step hst big (BitVec.ofNat 32 (Nat.ofDigits base b₁.reverse))
      (by rw [hbase.big_eq]; exact Nat.pow_pos (by omega)) (by
        rw [hblock, hsum]
        refine lt_of_le_of_lt ?_ hroom
        rw [hall]
        exact ofDigits_reverse_le (by omega) _ _)
    rw [hblock, hsum] at hadded
    obtain ⟨size₁, hrun₁, -⟩ := id hadded
    rw [hrun₁] at hadded
    rw [hall'] at hroom hlt
    obtain ⟨size', h', hrun, hst'⟩ := ih (a := a ++ b₁) (b := b₂) hlt hlen₂ hroom hadded
    refine ⟨size', h', ?_, ?_⟩
    · have hnext : (a ++ b₁).length = a.length + chars := by rw [List.length_append, hlen₁]
      rw [← hall', hall, hnext, List.append_assoc a b₁ b₂] at hrun
      rw [hlen₁] at hread
      rw [hall, blocksLoop, hitem]
      simp only [Option.bind_eq_bind, Option.bind_some, hread, hrun₁]
      exact hrun
    · rw [← List.append_assoc]
      exact hst'

/-- **`set_str`** for another base and digits of which there are not too many. -/
lemma setStr_radix {chars : ℕ} {big : Natural32} (hbase : MpBases.HasRadix base chars big)
    {target targetOffset : ℕ} {h : LimbHeap} {l : List ℕ} (hl : ∀ d ∈ l, d < base) (hne : l ≠ [])
    (hlen : l.length < 2147483647) (hcap : targetOffset ≤ (h target).length)
    (hroom : Nat.ofDigits base l.reverse < (2 ^ 32) ^ ((h target).length - targetOffset)) :
    Stores target targetOffset (Nat.ofDigits base l.reverse) h
      (setStr target targetOffset (l.map fun d => BitVec.ofNat 8 d) 0 l.length base h) := by
  have hlow := hbase.base_le
  have hhigh := hbase.base_lt
  have hpos := hbase.pos
  have hlenPos := List.length_pos_iff.mpr hne
  have hdiv := Nat.div_add_mod (l.length - 1) chars
  have hmod := Nat.mod_lt (l.length - 1) hpos
  rw [Nat.mul_comm] at hdiv
  set k := (l.length - 1) / chars
  obtain ⟨b, e, rfl, hb, he⟩ : ∃ b e, l = b ++ e ∧ b.length = k * chars ∧
      e.length = (l.length - 1) % chars + 1 := by
    refine ⟨l.take (k * chars), l.drop (k * chars), (List.take_append_drop _ _).symm, ?_, ?_⟩
    · rw [List.length_take]
      omega
    · rw [List.length_drop]
      omega
  have hlt : ∀ d ∈ e, d < base := fun d hd => hl d (List.mem_append_right b hd)
  have hpow : base ^ e.length ≤ big.toNat := by
    rw [hbase.big_eq]
    exact Nat.pow_le_pow_right (by omega) (by omega)
  have hbigLt := big.isLt
  have hpowNat : (BitVec.ofNat 32 (base ^ e.length)).toNat = base ^ e.length := by
    rw [BitVec.toNat_ofNat, Nat.mod_eq_of_lt (by omega)]
  have hblock := toNat_block (show 1 < base from hlow) hlt (by omega)
  have hstart : Stores target targetOffset (Nat.ofDigits base [].reverse) h (some (0, h)) :=
    stores_of_number (SameOutside.refl _ h) hcap (LimbHeap.number_zero _ _ _)
      fun h0 => absurd rfl h0
  obtain ⟨size, h', hblocks, hst⟩ := blocksLoop_run hbase k (a := []) (b := b) (c := e) hl hb hroom
    hstart
  obtain ⟨d, hitem, hread⟩ := block_run base (b := e)
    (List.length_pos_iff.mp (by omega)) (fun d hd => by have := hlt d hd; omega) b []
  rw [List.append_nil] at hitem hread
  have hadded := addBlock_step hst (BitVec.ofNat 32 (base ^ e.length))
    (BitVec.ofNat 32 (Nat.ofDigits base e.reverse))
    (by rw [hpowNat]; exact Nat.pow_pos (by omega))
    (by rw [hpowNat, hblock, List.nil_append, ← ofDigits_reverse_append]; exact hroom)
  rw [hpowNat, hblock, List.nil_append, ← ofDigits_reverse_append] at hadded
  have hlast : (b ++ e).length - k * chars - 1 = e.length - 1 := by
    rw [List.length_append]
    omega
  rw [setStr, hbase.bigBase, hbase.charsPerLimb]
  simp only [Option.bind_eq_bind, Option.bind_some, hbase.pow2, Bool.false_eq_true, if_false,
    if_pos hlen]
  rw [List.nil_append, List.length_nil] at hblocks
  rw [hblocks, Option.bind_some, hitem, Option.bind_some, hlast, hread]
  exact hadded

end Digits

end SpecialAssignment

end EiffelWeb
