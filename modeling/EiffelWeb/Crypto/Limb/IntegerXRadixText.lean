import EiffelWeb.Crypto.Limb.IntegerXText
import EiffelWeb.Crypto.Limb.SpecialRadix

set_option relaxedAutoImplicit false
set_option autoImplicit false

/-!
# Texts in other bases

The round trip between numbers and texts for the bases that are not powers of two. It works for
numbers of less than 30 limbs. For a larger number `get_str` squares an array of one limb as if it
had two, after it has made the table of powers for `dc_get_str`, which it does not call.

## Main definitions

* `IntegerXMemory.RoundTrips` — what a round trip is.

## Main results

* `IntegerXMemory.radix_roundTrip_iff` — the numbers that make the round trip.
-/

namespace EiffelWeb

open Limbs Arrays SpecialAccess

namespace IntegerXMemory

/-- The text of an object is a text of its number, and the object that is made from the text stands
for the number. -/
def RoundTrips (f : CharsPerBit) (m : IntegerXMemory) (x base : ℕ) : Prop :=
  ∃ s m', m.outBase f x base = some s ∧ IsTextOf base (m.value x) s ∧
    makeFromStringBase f s base = some m' ∧ m'.Normalised 0 ∧ m'.value 0 = m.value x

/-- The table for a base that is not a power of two. -/
lemma exists_radix {base : ℕ} (hlow : 3 ≤ base) (hhigh : base ≤ 62) (hpow : ∀ k, base ≠ 2 ^ k) :
    ∃ chars big, MpBases.HasRadix base chars big := by
  have hall : ∀ b < 63, 3 ≤ b → pow2P (BitVec.ofNat 32 b) = true → b = 2 ^ Nat.log2 b := by
    decide +kernel
  refine MpBases.exists_radix (by omega) hhigh (Bool.eq_false_iff.mpr fun h => ?_)
  exact hpow _ (hall base (by omega) hlow h)

section Radix

variable {base chars : ℕ} {big : Natural32} (hbase : MpBases.HasRadix base chars big)

include hbase

/-- **`set_str`** of less than 30 limbs stores the number. -/
lemma readsDigits_radix {n : ℕ} (hn : n < (2 ^ 32) ^ 29) : ReadsDigits base n := by
  intro h target hroom
  have hlow := hbase.base_le
  have hvalue := ofDigits_bigDigits base n
  have hlen : (bigDigits base n).length < 2147483647 := by
    rcases pow_length_le hlow n with hpow | hone
    · have hfit : base ^ ((bigDigits base n).length - 1) < base ^ buffAlloc :=
        hpow.trans_lt (hn.trans_le hbase.pow_buffAlloc)
      have := (Nat.pow_lt_pow_iff_right (show 1 < base from hlow)).mp hfit
      rw [buffAlloc] at this
      omega
    · omega
  have hstored : SpecialAssignment.Stores target 0 (Nat.ofDigits base (bigDigits base n).reverse) h
      (SpecialAssignment.setStr target 0 ((bigDigits base n).map fun d => BitVec.ofNat 8 d) 0
        (bigDigits base n).length base h) :=
    SpecialAssignment.setStr_radix hbase (fun d hd => bigDigits_lt hlow n hd)
      (bigDigits_ne_nil base n) hlen (Nat.zero_le _) (by rw [hvalue]; exact hroom)
  rwa [hvalue] at hstored

/-- The limbs that `get_string` copies. -/
lemma stringLimbs_radix {m : IntegerXMemory} (hm : m.WellFormed) {x : ℕ} (hobject : x < m.objects)
    (hx : m.Normalised x) :
    ∃ h : LimbHeap, stringLimbs x base m = some (m.free, m.free + 1, h) ∧
      (m.count x).natAbs ≤ (h m.free).length ∧
      h.number m.free 0 (m.count x).natAbs = m.magnitude x := by
  have hne : m.item x ≠ m.free := (hm.allocated x hobject).ne
  have hold : Function.update m.arrays m.free (List.replicate ((m.count x).natAbs + 1) 0)
      (m.item x) = m.arrays (m.item x) := Function.update_of_ne hne _ _
  have hnew : (Function.update m.arrays m.free
      (List.replicate ((m.count x).natAbs + 1) (0 : Natural32)) m.free).length =
        (m.count x).natAbs + 1 := by
    rw [Function.update_self, List.length_replicate]
  obtain ⟨h, hcopy, hnum, hfoot⟩ := LimbHeap.run_copyData
    (h := Function.update m.arrays m.free (List.replicate ((m.count x).natAbs + 1) 0))
    (t := m.free) (a := m.item x) (i := 0) (j := 0) (n := (m.count x).natAbs)
    (by rw [hold, Nat.zero_add]; exact hx.count_le) (by omega)
  refine ⟨h, ?_, by rw [hfoot.length]; omega, ?_⟩
  · rw [stringLimbs, hbase.pow2, if_neg Bool.false_ne_true]
    simp only [Option.bind_eq_bind, hcopy, Option.bind_some]
    rfl
  · rw [hnum, magnitude, LimbHeap.number, Arrays.segment, hold, ← Arrays.segment, ← LimbHeap.number]

/-- The size that `get_string` allocates. -/
lemma sizeinbase_radix {m : IntegerXMemory} {x : ℕ} (hx : m.Normalised x) {f : CharsPerBit}
    (hchars : (bigDigits base (m.magnitude x)).length ≤ f.chars base (m.magnitude x).size) :
    ∃ k, sizeinbase f (m.item x) 0 (m.count x).natAbs base m.arrays = some k ∧
      (bigDigits base (m.magnitude x)).length ≤ k := by
  by_cases hzero : (m.count x).natAbs = 0
  · refine ⟨1, by rw [sizeinbase, if_pos hzero], ?_⟩
    rw [magnitude_eq_zero hzero]
    exact le_rfl
  · obtain ⟨d, hd, hbits⟩ := hx.bits_eq hzero
    refine ⟨_, ?_, hchars⟩
    rw [sizeinbase, if_neg hzero, Nat.zero_add, hd, Option.bind_eq_bind, Option.bind_some, hbits,
      hbase.pow2, if_neg Bool.false_ne_true]
    rfl

/-- **The text of a number** of less than 30 limbs. -/
lemma outBase_radix {m : IntegerXMemory} (hm : m.WellFormed) {x : ℕ} (hobject : x < m.objects)
    (hx : m.Normalised x) {f : CharsPerBit}
    (hchars : (bigDigits base (m.magnitude x)).length ≤ f.chars base (m.magnitude x).size)
    (hfew : (m.count x).natAbs < 30) :
    m.outBase f x base = some (textOf base (m.value x)) := by
  have hlow := hbase.base_le
  have hhigh := hbase.base_lt
  obtain ⟨k, hsize, hk⟩ := sizeinbase_radix hbase hx hchars
  obtain ⟨h, hlimbs, hlen, hnum⟩ := stringLimbs_radix hbase hm hobject hx
  refine getString_eq hlow (by omega) hx hsize hk hlimbs fun target offset hoffset hroom => ?_
  by_cases hzero : (m.count x).natAbs = 0
  · rw [magnitude_eq_zero hzero] at hroom ⊢
    rw [hzero]
    exact getStr_zero _ _ _ hoffset hroom
  · have htop := (normalised_iff.mp hx).2 (by omega)
    have hne : m.magnitude x ≠ 0 := (lt_of_lt_of_le (Nat.pow_pos (by decide)) htop).ne'
    have hdigits : bigDigits base (m.magnitude x) = (Nat.digits base (m.magnitude x)).reverse :=
      if_neg hne
    set g : LimbHeap := Function.update h (m.free + 1) [] with hg
    have hsame : g m.free = h m.free := Function.update_of_ne (by omega) _ _
    have hgnum : g.number m.free 0 (m.count x).natAbs = m.magnitude x := by
      rw [LimbHeap.number, Arrays.segment, hsame, ← Arrays.segment, ← LimbHeap.number, hnum]
    have hrun : sbGetStr (m.free + 1 + 1) 0 m.free 0 (m.count x).natAbs
        [⟨0, m.free + 1, 0, 0, base⟩] 0 g ⟨offset, target⟩ = _ :=
      sbGetStr_run hbase (by omega) (by omega) hfew (by rw [hsame]; exact hlen)
        (by rw [hgnum]; exact htop) (m.free + 1) hoffset
        (by rw [hgnum]; rwa [hdigits, List.length_reverse] at hroom)
    have htext : digitChars base (m.magnitude x) 0 =
        (bigDigits base (m.magnitude x)).map fun d => toCharacter (BitVec.ofNat 8 d) := by
      rw [digitChars, List.drop_zero, hdigits]
    rw [WritesDigits, getStr, if_neg hzero, hbase.pow2, if_neg Bool.false_ne_true, if_pos hfew]
    simp only [Option.bind_eq_bind, ← hg]
    rw [hrun, Option.bind_some, hgnum, htext, TextCursor.after, List.length_map,
      Nat.add_sub_cancel_left]
    rfl

/-- **There is no text** for 30 limbs and more. -/
lemma outBase_none {m : IntegerXMemory} {x : ℕ} (f : CharsPerBit)
    (hmany : 30 ≤ (m.count x).natAbs) : m.outBase f x base = none := by
  refine Option.eq_none_iff_forall_ne_some.mpr fun s hs => ?_
  obtain ⟨k, -, hs⟩ := Option.bind_eq_some_iff.mp hs
  obtain ⟨t, -, hs⟩ := Option.bind_eq_some_iff.mp hs
  obtain ⟨⟨xp, fresh, h⟩, -, hs⟩ := Option.bind_eq_some_iff.mp hs
  obtain ⟨r, hget, -⟩ := Option.bind_eq_some_iff.mp hs
  rw [getStr_none hbase hmany] at hget
  cases hget

end Radix

/-- **The round trip** for every other base: under the assumptions that the two sizes are large
enough, it is made by the numbers of less than 30 limbs and by no other ones. -/
theorem radix_roundTrip_iff (f : CharsPerBit) (m : IntegerXMemory) (hm : m.WellFormed) (x : ℕ)
    (hobject : x < m.objects) (hx : m.Normalised x) (base : ℕ) (hlow : 3 ≤ base) (hhigh : base ≤ 62)
    (hpow : ∀ k, base ≠ 2 ^ k)
    (hchars : (bigDigits base (m.value x).natAbs).length ≤ f.chars base (m.value x).natAbs.size)
    (hroom : Allocates f base (m.value x).natAbs) :
    RoundTrips f m x base ↔ (m.value x).natAbs < (2 ^ 32) ^ 29 := by
  obtain ⟨chars, big, hbase⟩ := exists_radix hlow hhigh hpow
  have hcount : (m.value x).natAbs < (2 ^ 32) ^ 29 ↔ (m.count x).natAbs < 30 := by
    rw [natAbs_value]
    constructor
    · intro hlt
      by_contra hmany
      have htop := (normalised_iff.mp hx).2 (by omega)
      have hle : (2 ^ 32) ^ 29 ≤ (2 ^ 32) ^ ((m.count x).natAbs - 1) :=
        Nat.pow_le_pow_right (by decide) (by omega)
      omega
    · intro hfew
      have hlt := m.arrays.number_lt (a := m.item x) (i := 0) (n := (m.count x).natAbs)
        (by rw [Nat.zero_add]; exact hx.count_le)
      exact hlt.trans_le (Nat.pow_le_pow_right (by decide) (by omega))
  constructor
  · rintro ⟨s, m', hout, -⟩
    rw [hcount]
    by_contra hmany
    rw [outBase_none hbase f (not_lt.mp hmany)] at hout
    cases hout
  · intro hlt
    obtain ⟨m', hrun, hnorm, hvalue⟩ := makeFromStringBase_textOf (by omega) hhigh hroom
      (readsDigits_radix hbase hlt)
    rw [natAbs_value] at hchars
    exact ⟨_, m', outBase_radix hbase hm hobject hx hchars (hcount.mp hlt),
      isTextOf_textOf (by omega) _, hrun, hnorm, hvalue⟩

/-- The number of digits of a number. -/
lemma length_bigDigits {base n k : ℕ} (hbase : 2 ≤ base) (hlow : base ^ k ≤ n)
    (hhigh : n < base ^ (k + 1)) : (bigDigits base n).length = k + 1 := by
  have hne : n ≠ 0 := (lt_of_lt_of_le (Nat.pow_pos (by omega)) hlow).ne'
  rw [bigDigits, if_neg hne, List.length_reverse]
  have hle := (Nat.digits_length_le_iff hbase n).mpr hhigh
  have hlt := (Nat.lt_digits_length_iff hbase n).mpr hlow
  omega

lemma ten_ne_two_pow (k : ℕ) : 10 ≠ 2 ^ k := by
  intro h
  rcases Nat.lt_or_ge k 4 with hlt | hge
  · interval_cases k <;> omega
  · have hpow : 2 ^ 4 ≤ 2 ^ k := Nat.pow_le_pow_right (by decide) hge
    omega

/-- The sizes for base 10 with a table that has five places. -/
def fivePlaces : CharsPerBit :=
  ⟨fun _ bits => bits * 30103 / 100000 + 1, fun _ chars => chars * 100000 / 30103⟩

/-- The number `-(2 ^ 33 + 5)` in base 10. -/
theorem radix_roundTrip_decimal : RoundTrips fivePlaces (single [5, 2] (-2)) 0 10 := by
  have hlen : (bigDigits 10 ((single [5, 2] (-2)).value 0).natAbs).length = 9 + 1 :=
    length_bigDigits (by decide) (by decide) (by decide)
  have hsize : 33 < ((single [5, 2] (-2)).value 0).natAbs.size := Nat.lt_size.mpr (by decide)
  refine (radix_roundTrip_iff fivePlaces (single [5, 2] (-2)) ⟨by decide, by decide⟩ 0 (by decide)
    ⟨by decide, by decide⟩ 10 (by decide) (by decide) ten_ne_two_pow ?_ ?_).mpr (by decide)
  · simp only [hlen, fivePlaces]
    omega
  · rw [Allocates, hlen]
    decide

/-- A number of 30 limbs has no text in base 10, although the two sizes are large enough. -/
theorem not_radix_roundTrip :
    let m := single (List.replicate 30 1) 30
    m.Normalised 0 ∧
      (bigDigits 10 (m.value 0).natAbs).length ≤ fivePlaces.chars 10 (m.value 0).natAbs.size ∧
      Allocates fivePlaces 10 (m.value 0).natAbs ∧ ¬ RoundTrips fivePlaces m 0 10 := by
  have hlen : (bigDigits 10 ((single (List.replicate 30 1) 30).value 0).natAbs).length = 279 + 1 :=
    length_bigDigits (by decide) (by decide +kernel) (by decide +kernel)
  have hsize : 928 < ((single (List.replicate 30 1) 30).value 0).natAbs.size :=
    Nat.lt_size.mpr (by decide +kernel)
  obtain ⟨chars, big, hbase⟩ := exists_radix (show 3 ≤ 10 by decide) (by decide) ten_ne_two_pow
  refine ⟨⟨by decide, by decide⟩, ?_, ?_, ?_⟩
  · simp only [hlen, fivePlaces]
    omega
  · rw [Allocates, hlen]
    decide +kernel
  · rintro ⟨s, m', hout, -⟩
    rw [outBase_none hbase fivePlaces (by decide)] at hout
    cases hout

end IntegerXMemory

end EiffelWeb
