import Mathlib.Tactic.LinearCombination
import EiffelWeb.DigitReduction
import EiffelWeb.Crypto.Limb.SpecialProduct

set_option relaxedAutoImplicit false
set_option autoImplicit false

/-!
# Montgomery reduction

The routine `redc_basecase` of `SPECIAL_NUMBER_THEORETIC`, by which `powm` reduces the products
modulo an odd number. In every step a multiple of the modulus is added that makes the lowest limb
zero; the carry is put into the place of that limb, and all carries are added at the end.

## Main definitions

* `SpecialNumberTheoretic.redcBasecase`
* `SpecialNumberTheoretic.parked` — the number left, some of whose limbs are the carries.

## Main results

* `SpecialNumberTheoretic.redcStep_run` — one limb.
* `SpecialNumberTheoretic.redcBasecase_run` — the quotient modulo an odd number.
-/

namespace EiffelWeb

open Limbs Arrays SpecialArithmetic

namespace SpecialNumberTheoretic

/-- One iteration of the loop of `redc_basecase`. -/
def redcStep (mp mpOffset n : ℕ) (nPrim : Natural32) (tp tpOffset : ℕ) (h : LimbHeap) :
    Option LimbHeap := do
  let t ← h.item tp tpOffset
  let q := t * nPrim
  let (carry, h) ← addmul1 tp tpOffset mp mpOffset n q h
  h.put tp tpOffset carry

/-- The loop of `redc_basecase`, `k` times from `tp_offset` on. -/
def redcLoop (mp mpOffset n : ℕ) (nPrim : Natural32) (tp : ℕ) :
    (k tpOffset : ℕ) → LimbHeap → Option LimbHeap
  | 0, _, h => some h
  | k + 1, tpOffset, h =>
    (redcStep mp mpOffset n nPrim tp tpOffset h).bind
      (redcLoop mp mpOffset n nPrim tp k (tpOffset + 1))

/-- `redc_basecase (cp, cp_offset, mp, mp_offset, n, n_prim, tp, tp_offset)`. -/
def redcBasecase (cp cpOffset mp mpOffset n : ℕ) (nPrim : Natural32) (tp tpOffset : ℕ)
    (h : LimbHeap) : Option LimbHeap := do
  let h ← redcLoop mp mpOffset n nPrim tp n tpOffset h
  let tpOffset := tpOffset + n
  let (cy, h) ← addN cp cpOffset tp tpOffset tp (tpOffset - n) n h
  if cy ≠ 0 then
    let (_, h) ← subN cp cpOffset cp cpOffset mp mpOffset n h
    return h
  else return h

/-- The number left after `j` iterations, when `k` ones are left: the limbs from `tp_offset` on,
and the carries in the limbs below, each of which belongs `j + k` limbs above its place. -/
def parked (tp tpOffset j k : ℕ) (h : LimbHeap) : ℕ :=
  h.number tp (tpOffset + j) (k + (j + k)) + (2 ^ 32) ^ k * h.number tp tpOffset j

section

variable {mp mpOffset tp tpOffset t : ℕ} {nPrim : Natural32} {h : LimbHeap}

/-- **One iteration** of the loop drops a limb of the number left.

**Proof sketch.** The lowest limb of the sum is zero, so that the carry may take its place. -/
lemma redcStep_run {j k : ℕ}
    (htp : tpOffset + 2 * (j + (k + 1)) ≤ (h tp).length)
    (hmp : mpOffset + (j + (k + 1)) ≤ (h mp).length)
    (hapart : Apart tp tpOffset (2 * (j + (k + 1))) mp mpOffset (j + (k + 1)))
    (hprim : h.number mp mpOffset (j + (k + 1)) * nPrim.toNat + 1 ≡ 0 [MOD 2 ^ 32])
    (hred : ReducesTo (2 ^ 32) (h.number mp mpOffset (j + (k + 1))) t j
      (parked tp tpOffset j (k + 1) h)) :
    ∃ h', redcStep mp mpOffset (j + (k + 1)) nPrim tp (tpOffset + j) h = some h' ∧
      ReducesTo (2 ^ 32) (h.number mp mpOffset (j + (k + 1))) t (j + 1)
        (parked tp tpOffset (j + 1) k h') ∧
      SameOutside (region tp tpOffset (2 * (j + (k + 1)))) h h' := by
  set m := h.number mp mpOffset (j + (k + 1)) with hm
  obtain ⟨x, hx, hlow⟩ := number_succ h (a := tp) (i := tpOffset + j) (n := k + (j + (k + 1)))
    (by omega)
  have hroom : tpOffset + j + (j + (k + 1)) ≤ (h tp).length := by omega
  have hahead : ReadsAhead (j + (k + 1)) tp (tpOffset + j) mp mpOffset := fun he => by
    have := hapart he.symm
    omega
  obtain ⟨c, g, hrun, hsum, hfoot⟩ := addmul1_run hroom hmp hahead (x * nPrim)
  obtain ⟨h', hput, hc, hfoot'⟩ := LimbHeap.run_put (h := g) (a := tp) (i := tpOffset + j)
    (by rw [hfoot.length]; omega) c
  obtain ⟨y, hy, hfirst⟩ := number_succ g (a := tp) (i := tpOffset + j) (n := j + k)
    (by rw [hfoot.length]; omega)
  -- the parts of the number before and afterwards
  have hsplit : h.number tp (tpOffset + j) (k + 1 + (j + (k + 1))) =
      h.number tp (tpOffset + j) (j + (k + 1)) + (2 ^ 32) ^ (j + (k + 1)) *
        h.number tp (tpOffset + j + (j + (k + 1))) (k + 1) := by
    rw [Nat.add_comm (k + 1), h.number_add (by omega)]
  have hhigh : h'.number tp (tpOffset + j + (j + (k + 1))) (k + 1) =
      h.number tp (tpOffset + j + (j + (k + 1))) (k + 1) := by
    rw [LimbHeap.number_apart hfoot' (Apart.of_le (by omega)),
      LimbHeap.number_apart hfoot (Apart.of_le (by omega))]
  have hmiddle : h'.number tp (tpOffset + j + 1) (j + k) = g.number tp (tpOffset + j + 1) (j + k) :=
    LimbHeap.number_apart hfoot' (Apart.of_le le_rfl)
  have hlen (b : ℕ) : (h' b).length = (h b).length := (hfoot'.length b).trans (hfoot.length b)
  have hcarries : h'.number tp tpOffset (j + 1) =
      h.number tp tpOffset j + (2 ^ 32) ^ j * c.toNat := by
    rw [h'.number_add (by rw [hlen]; omega), hc,
      LimbHeap.number_apart hfoot' (Apart.of_le le_rfl).symm,
      LimbHeap.number_apart hfoot (Apart.of_le le_rfl).symm]
  have hupper : h'.number tp (tpOffset + (j + 1)) (j + k + (k + 1)) =
      g.number tp (tpOffset + j + 1) (j + k) + (2 ^ 32) ^ (j + k) *
        h.number tp (tpOffset + j + (j + (k + 1))) (k + 1) := by
    have hplace : tpOffset + j + 1 + (j + k) = tpOffset + j + (j + (k + 1)) := by omega
    rw [← Nat.add_assoc tpOffset, h'.number_add (by rw [hlen]; omega), hmiddle, hplace, hhigh]
  have hparked : parked tp tpOffset (j + 1) k h' = g.number tp (tpOffset + j + 1) (j + k) +
      (2 ^ 32) ^ (j + k) * h.number tp (tpOffset + j + (j + (k + 1))) (k + 1) +
        (2 ^ 32) ^ k * (h.number tp tpOffset j + (2 ^ 32) ^ j * c.toNat) := by
    have hlimbs : k + (j + 1 + k) = j + k + (k + 1) := by omega
    rw [parked, hlimbs, hupper, hcarries]
  have hq : (x * nPrim).toNat ≡ x.toNat * nPrim.toNat [MOD 2 ^ 32] := by
    rw [BitVec.toNat_mul]
    exact Nat.mod_modEq _ _
  have hpow : (2 ^ 32) ^ (j + (k + 1)) = 2 ^ 32 * (2 ^ 32) ^ (j + k) := by
    rw [← Nat.add_assoc, pow_succ']
  have htotal : parked tp tpOffset j (k + 1) h + (x * nPrim).toNat * m =
      y.toNat + 2 ^ 32 * parked tp tpOffset (j + 1) k h' := by
    rw [← Nat.add_assoc j k 1, hfirst, Nat.add_assoc j k 1] at hsum
    rw [parked, hsplit, hparked, hpow, pow_succ' _ k]
    rw [hpow, ← hm] at hsum
    rw [pow_add] at hsum ⊢
    linear_combination -hsum
  -- the lowest limb of the sum
  have hzero : y.toNat = 0 := by
    have hxlow : x.toNat ≡ parked tp tpOffset j (k + 1) h [MOD 2 ^ 32] := by
      have hlimbs : k + 1 + (j + (k + 1)) = k + (j + (k + 1)) + 1 := by omega
      rw [parked, hlimbs, hlow, pow_succ' (2 ^ 32) k, Nat.add_assoc, Nat.mul_assoc (2 ^ 32),
        ← Nat.mul_add]
      exact (Nat.add_modulus_mul_modEq_iff.mpr rfl).symm
    have hdvd := ReducesTo.dvd_add_mul hprim hxlow hq
    rw [htotal] at hdvd
    exact Nat.eq_zero_of_dvd_of_lt ((Nat.dvd_add_left (Nat.dvd_mul_right _ _)).mp hdvd) y.isLt
  refine ⟨h', ?_, hred.step (q := (x * nPrim).toNat) (x * nPrim).isLt ?_, ?_⟩
  · rw [redcStep, hx]
    simp only [Option.bind_eq_bind, Option.bind_some, hrun]
    exact hput
  · rw [htotal, hzero, Nat.zero_add]
  · exact hfoot.join hfoot' (by omega) (by omega)

/-- **The loop** leaves a number with all limbs of the original one dropped.

**Proof sketch.** Induction on the number of iterations that are left, by `redcStep_run`. -/
lemma redcLoop_run {n j k : ℕ} (hn : n = j + k) (htp : tpOffset + 2 * n ≤ (h tp).length)
    (hmp : mpOffset + n ≤ (h mp).length) (hapart : Apart tp tpOffset (2 * n) mp mpOffset n)
    (hprim : h.number mp mpOffset n * nPrim.toNat + 1 ≡ 0 [MOD 2 ^ 32])
    (hred : ReducesTo (2 ^ 32) (h.number mp mpOffset n) t j (parked tp tpOffset j k h)) :
    ∃ h', redcLoop mp mpOffset n nPrim tp k (tpOffset + j) h = some h' ∧
      ReducesTo (2 ^ 32) (h.number mp mpOffset n) t n (parked tp tpOffset n 0 h') ∧
      SameOutside (region tp tpOffset (2 * n)) h h' := by
  induction k generalizing j h with
  | zero =>
    obtain rfl : n = j := hn
    exact ⟨h, rfl, hred, .refl _ h⟩
  | succ k ih =>
    subst hn
    obtain ⟨g, hrun, hnext, hfoot⟩ := redcStep_run htp hmp hapart hprim hred
    have hm : g.number mp mpOffset (j + (k + 1)) = h.number mp mpOffset (j + (k + 1)) :=
      LimbHeap.number_apart hfoot hapart
    obtain ⟨h', hloop, hlast, hfoot'⟩ := ih (h := g) (j := j + 1) (by omega)
      (by rw [hfoot.length]; exact htp) (by rw [hfoot.length]; exact hmp) (by rwa [hm])
      (by rwa [hm])
    rw [hm] at hlast
    refine ⟨h', ?_, hlast, hfoot.trans hfoot'⟩
    rw [redcLoop, hrun, Option.bind_some]
    exact hloop

/-- A number with an inverse of its lowest limb is odd. -/
lemma coprime_of_prim {m k : ℕ} (hprim : m * k + 1 ≡ 0 [MOD 2 ^ 32]) : (2 ^ 32).Coprime m := by
  have heven : (m * k + 1) % 2 = 0 := hprim.of_dvd (dvd_pow_self 2 (by decide : 32 ≠ 0))
  have hodd : Odd (m * k) := by
    rw [Nat.odd_iff]
    omega
  exact (Nat.coprime_two_left.mpr (Nat.odd_mul.mp hodd).1).pow_left 32

end

section

variable {cp cpOffset mp mpOffset n tp tpOffset : ℕ} {nPrim : Natural32} {h : LimbHeap}

/-- **`redc_basecase`** leaves in `cp` the number that is left of the one in `tp`, less the modulus
if it has more than `n` limbs.

**Proof sketch.** The loop leaves this number as the sum of the upper limbs and the carries. If the
sum has a carry, the modulus is less than the sum. -/
lemma redcBasecase_reduces (hcp : cpOffset + n ≤ (h cp).length)
    (hmp : mpOffset + n ≤ (h mp).length) (htp : tpOffset + 2 * n ≤ (h tp).length)
    (hcm : Apart cp cpOffset n mp mpOffset n) (htm : Apart tp tpOffset (2 * n) mp mpOffset n)
    (hct : Apart cp cpOffset n tp tpOffset (2 * n))
    (hprim : h.number mp mpOffset n * nPrim.toNat + 1 ≡ 0 [MOD 2 ^ 32]) :
    ∃ (v : ℕ) (h' : LimbHeap),
      redcBasecase cp cpOffset mp mpOffset n nPrim tp tpOffset h = some h' ∧
      ReducesTo (2 ^ 32) (h.number mp mpOffset n) (h.number tp tpOffset (2 * n)) n v ∧
      h'.number cp cpOffset n = (if v < (2 ^ 32) ^ n then v else v - h.number mp mpOffset n) ∧
      SameOutside (fun b i => region cp cpOffset n b i ∨ region tp tpOffset (2 * n) b i) h h' := by
  set m := h.number mp mpOffset n with hm
  set t := h.number tp tpOffset (2 * n) with htdef
  have hstart : ReducesTo (2 ^ 32) m t 0 (parked tp tpOffset 0 n h) := by
    have hparked : parked tp tpOffset 0 n h = t := by
      have hlimbs : n + (0 + n) = 2 * n := by omega
      rw [parked, hlimbs, LimbHeap.number_zero, Nat.mul_zero, Nat.add_zero]
      rfl
    rw [hparked]
    exact .refl _ _ _
  obtain ⟨g, hloop, hred, hfoot⟩ := redcLoop_run (Nat.zero_add n).symm htp hmp htm hprim hstart
  set v := parked tp tpOffset n 0 g with hv
  have hlt : v < (2 ^ 32) ^ n + m := hred.lt_add (by
    rw [← pow_add, ← Nat.two_mul]
    exact h.number_lt htp)
  have hmlt : m < (2 ^ 32) ^ n := h.number_lt hmp
  have hsum : g.number tp (tpOffset + n) n + g.number tp tpOffset n = v := by
    rw [hv, parked, pow_zero, Nat.one_mul, Nat.zero_add, Nat.add_zero]
  have hadd := @addN_eq cp cpOffset tp (tpOffset + n) tp tpOffset n g
    (by rw [hfoot.length]; exact hcp) (by rw [hfoot.length]; omega) (by rw [hfoot.length]; omega)
    (fun he => by have := hct he.symm; omega) (fun he => by have := hct he.symm; omega)
  rw [hsum] at hadd
  obtain ⟨hnum, hfoot'⟩ := LimbHeap.run_store (h := g) (a := cp) (i := cpOffset) (n := n)
    (by rw [hfoot.length]; exact hcp) v
  set f : LimbHeap := g.store cp cpOffset (ofNat 32 n v)
  have hlow : f.number mp mpOffset n = m := by
    rw [LimbHeap.number_apart hfoot' hcm, LimbHeap.number_apart hfoot htm]
  have hwritten : SameOutside
      (fun b i => region cp cpOffset n b i ∨ region tp tpOffset (2 * n) b i) h f :=
    (hfoot.mono fun _ _ => Or.inr).trans (hfoot'.mono fun _ _ => Or.inl)
  have hend : tpOffset + n - n = tpOffset := Nat.add_sub_cancel _ _
  simp only [redcBasecase, hend, Option.bind_eq_bind]
  rw [← Nat.add_zero tpOffset, hloop, Option.bind_some, Nat.add_zero, hadd, Option.bind_some]
  dsimp only
  by_cases hcarry : v < (2 ^ 32) ^ n
  · have hcy : (BitVec.ofNat 32 (v / (2 ^ 32) ^ n)) = 0 := by
      rw [Nat.div_eq_of_lt hcarry]
      rfl
    rw [if_neg (not_not.mpr hcy)]
    refine ⟨v, f, rfl, hred, ?_, hwritten⟩
    rw [hnum, Nat.mod_eq_of_lt hcarry, if_pos hcarry]
  · have hcy : (BitVec.ofNat 32 (v / (2 ^ 32) ^ n)) ≠ 0 := by
      have hone : v / (2 ^ 32) ^ n = 1 := Nat.div_eq_of_lt_le (by omega) (by omega)
      rw [hone]
      decide
    have hlen (b : ℕ) : (f b).length = (h b).length := hwritten.length b
    have hsub := @subN_eq cp cpOffset cp cpOffset mp mpOffset n f (by rw [hlen]; exact hcp)
      (by rw [hlen]; exact hcp) (by rw [hlen]; exact hmp) (.refl _ _ _)
      (fun he => by have := hcm he.symm; omega)
    have hrest : f.number cp cpOffset n + (2 ^ 32) ^ n - f.number mp mpOffset n = v - m := by
      have hmod : v % (2 ^ 32) ^ n = v - (2 ^ 32) ^ n := by
        rw [Nat.mod_eq_sub_mod (by omega), Nat.mod_eq_of_lt (by omega)]
      rw [hnum, hlow, hmod]
      omega
    rw [hrest] at hsub
    obtain ⟨hdiff, hfoot''⟩ := LimbHeap.run_store (h := f) (a := cp) (i := cpOffset) (n := n)
      (by rw [hlen]; exact hcp) (v - m)
    rw [if_pos hcy, hsub, Option.bind_some]
    refine ⟨v, _, rfl, hred, ?_, hwritten.trans (hfoot''.mono fun _ _ => Or.inl)⟩
    rw [hdiff, Nat.mod_eq_of_lt (by omega), if_neg hcarry]

/-- The number that is left, less the modulus if it has a carry, is the quotient modulo the
modulus. -/
lemma eq_mul_inv_of_reduces {m t v k r : ℕ} (hprim : m * k + 1 ≡ 0 [MOD 2 ^ 32])
    (hred : ReducesTo (2 ^ 32) m t n v) (hm : m ≤ r) :
    ((if v < r then v else v - m : ℕ) : ZMod m) = t * ((2 : ZMod m) ^ (32 * n))⁻¹ := by
  have hinv := hred.eq_mul_inv (w := if v < r then v else v - m) (coprime_of_prim hprim) (by
    split
    · rfl
    · refine Nat.add_modulus_modEq_iff.mp ?_
      rw [Nat.sub_add_cancel (by omega)])
  rw [pow_mul]
  exact_mod_cast hinv

end

/-- **Montgomery reduction**: `redc_basecase` leaves in `cp` a number of `n` limbs that is the
quotient of the number in `tp` by `2 ^ (32 * n)` modulo the number in `mp`, and writes only `cp` and
the limbs of `tp`. -/
theorem redcBasecase_run (cp cpOffset mp mpOffset n : ℕ) (nPrim : Natural32) (tp tpOffset : ℕ)
    (h : LimbHeap) (hcp : cpOffset + n ≤ (h cp).length)
    (hmp : mpOffset + n ≤ (h mp).length) (htp : tpOffset + 2 * n ≤ (h tp).length)
    (hcm : Apart cp cpOffset n mp mpOffset n) (htm : Apart tp tpOffset (2 * n) mp mpOffset n)
    (hct : Apart cp cpOffset n tp tpOffset (2 * n))
    (hprim : (h.number mp mpOffset n * nPrim.toNat : ℤ) ≡ -1 [ZMOD 2 ^ 32])
    (ht : h.number tp tpOffset (2 * n) < h.number mp mpOffset n * 2 ^ (32 * n)) :
    ∃ h', redcBasecase cp cpOffset mp mpOffset n nPrim tp tpOffset h = some h' ∧
      (h'.number cp cpOffset n : ZMod (h.number mp mpOffset n)) =
        h.number tp tpOffset (2 * n) * ((2 : ZMod (h.number mp mpOffset n)) ^ (32 * n))⁻¹ ∧
      SameOutside (fun b i => region cp cpOffset n b i ∨ region tp tpOffset (2 * n) b i) h h' := by
  have hprim' : h.number mp mpOffset n * nPrim.toNat + 1 ≡ 0 [MOD 2 ^ 32] := by
    rw [← Int.natCast_modEq_iff]
    push_cast
    exact hprim.add_right 1
  obtain ⟨v, h', hrun, hred, hnum, hfoot⟩ := redcBasecase_reduces hcp hmp htp hcm htm hct hprim'
  refine ⟨h', hrun, ?_, hfoot⟩
  rw [hnum]
  exact eq_mul_inv_of_reduces hprim' hred (h.number_lt hmp).le

/-- The product of 5 and 6 is reduced modulo 7. -/
theorem redcBasecase_run_seven :
    ∃ h', redcBasecase 0 0 1 0 1 0x49249249 2 1
        (fun a => if a = 0 then [0] else if a = 1 then [7] else [9, 30, 0]) = some h' ∧
      (h'.number 0 0 1 : ZMod 7) = 30 * ((2 : ZMod 7) ^ 32)⁻¹ ∧
      SameOutside (fun b i => region 0 0 1 b i ∨ region 2 1 2 b i)
        (fun a => if a = 0 then [0] else if a = 1 then [7] else [9, 30, 0]) h' :=
  redcBasecase_run 0 0 1 0 1 0x49249249 2 1
    (fun a => if a = 0 then [0] else if a = 1 then [7] else [9, 30, 0]) (by decide) (by decide)
    (by decide) (fun he => absurd he (by decide)) (fun he => absurd he (by decide))
    (fun he => absurd he (by decide)) (by decide) (by decide)

end SpecialNumberTheoretic

end EiffelWeb
