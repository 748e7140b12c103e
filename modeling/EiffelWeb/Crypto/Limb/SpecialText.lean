import Mathlib.Data.Nat.Digits.Lemmas
import EiffelWeb.Crypto.Limb.LimbBits
import EiffelWeb.Crypto.Limb.SpecialSquare
import EiffelWeb.Crypto.Limb.TextBases
import EiffelWeb.Crypto.Limb.TruncatedDivision

set_option relaxedAutoImplicit false
set_option autoImplicit false

/-!
# Digits of limb arrays

The routines `get_str` of `SPECIAL_ACCESS` and `set_str` of `SPECIAL_ASSIGNMENT`, which convert
between limbs and digits, and `preinv_divrem_1` of `SPECIAL_DIVISION`. A base that is a power of two
has a way of its own through the bits of the limbs. For another base a number of less than 30 limbs
is divided by the largest power of the base that is a limb, with one limb of a fraction from which
the digits are taken by multiplications. For more limbs a table of powers is begun, and no digits
are written.

The items of a string are at the positions from 1 on. The character for a digit is the code of that
number, which is replaced later on.

## Main definitions

* `SpecialDivision.preinvDivrem1`
* `SpecialAccess.sbGetStr`, `SpecialAccess.getStr`
* `SpecialAssignment.setStr`
-/

namespace EiffelWeb

open Limbs Arrays LimbManipulation IntegerXMemory

namespace SpecialDivision

/-! ## Division with a reciprocal that is given -/

/-- The loop of `preinv_divrem_1` for `shift = 0`, from index `i - 1` of `ap` down. -/
def preinvLoop (qp qpOffset ap apOffset : ℕ) (d dinv : Natural32) :
    (i : ℕ) → Natural32 → LimbHeap → Option (Natural32 × LimbHeap)
  | 0, r, h => some (r, h)
  | i + 1, r, h => do
    let n0 ← h.item ap (apOffset + i)
    let (q, r) := udivQrnndPreinv r n0 d dinv
    let h ← h.put qp (qpOffset + i) q
    preinvLoop qp qpOffset ap apOffset d dinv i r h

/-- The loop of `preinv_divrem_1` for `shift /= 0`, from index `i - 1` of `ap` down, and the
division behind it: the local `n1` and the remainder. -/
def preinvShifted (qp qpOffset ap apOffset : ℕ) (d dinv : Natural32) (shift : ℕ) :
    (i : ℕ) → Natural32 → Natural32 → LimbHeap → Option (Natural32 × LimbHeap)
  | 0, n1, r, h => do
    let (q, r) := udivQrnndPreinv r (← Natural32Shift.left n1 shift) d dinv
    let h ← h.put qp qpOffset q
    return (r, h)
  | i + 1, n1, r, h => do
    let n0 ← h.item ap (apOffset + i)
    let nl := (← Natural32Shift.left n1 shift) ||| (← Natural32Shift.right n0 (32 - shift))
    let (q, r) := udivQrnndPreinv r nl d dinv
    let h ← h.put qp (qpOffset + (i + 1)) q
    preinvShifted qp qpOffset ap apOffset d dinv shift i n0 r h

/-- The last loop of `preinv_divrem_1`, with `k` iterations left. -/
def preinvFraction (qp qpOffset : ℕ) (d dinv : Natural32) :
    (k : ℕ) → Natural32 → LimbHeap → Option (Natural32 × LimbHeap)
  | 0, r, h => some (r, h)
  | k + 1, r, h => do
    let (q, r) := udivQrnndPreinv r 0 d dinv
    let h ← h.put qp (qpOffset + k) q
    preinvFraction qp qpOffset d dinv k r h

/-- The part of `preinv_divrem_1` before the last loop, for limbs of the quotient from `qp_offset`
on: the remainder. -/
def preinvInteger (qp qpOffset ap apOffset size : ℕ) (dUnnorm dinv : Natural32) (shift : ℕ)
    (h : LimbHeap) : Option (Natural32 × LimbHeap) := do
  let ahigh ← h.item ap (apOffset + size - 1)
  let d ← Natural32Shift.left dUnnorm shift
  if shift = 0 then
    let qhigh := toLimb (d ≤ ahigh)
    let r := if qhigh ≠ 0 then ahigh - d else ahigh
    let h ← h.put qp (qpOffset + size - 1) qhigh
    preinvLoop qp qpOffset ap apOffset d dinv (size - 1) r h
  else
    let (r, size, h) ← (if ahigh < dUnnorm then do
        let r ← Natural32Shift.left ahigh shift
        let h ← h.put qp (qpOffset + size - 1) 0
        return (r, size - 1, h)
      else return (0, size, h))
    if size = 0 then return (r, h)
    else
      let n1 ← h.item ap (apOffset + size - 1)
      let r := r ||| (← Natural32Shift.right n1 (32 - shift))
      preinvShifted qp qpOffset ap apOffset d dinv shift (size - 1) n1 r h

/-- `preinv_divrem_1 (qp, qp_offset, xsize, ap, ap_offset, size, d_unnorm, dinv, shift)`. -/
def preinvDivrem1 (qp qpOffset xsize ap apOffset size : ℕ) (dUnnorm dinv : Natural32) (shift : ℕ)
    (h : LimbHeap) : Option (Natural32 × LimbHeap) := do
  let (r, h) ← preinvInteger qp (qpOffset + xsize) ap apOffset size dUnnorm dinv shift h
  let d ← Natural32Shift.left dUnnorm shift
  let (r, h) ← preinvFraction qp qpOffset d dinv xsize r h
  return (← Natural32Shift.right r shift, h)

end SpecialDivision

namespace SpecialAccess

open SpecialDivision SpecialArithmetic

/-! ## Writing digits -/

/-- A position in a string, and the string. -/
structure TextCursor where
  /-- The position. -/
  offset : ℕ
  /-- The string. -/
  target : String8

/-- `target [target_offset] := c`, after which `target_offset` is one larger; it fails where the
position is not in the string. -/
def TextCursor.put (t : TextCursor) (c : Character8) : Option TextCursor :=
  if 1 ≤ t.offset ∧ t.offset ≤ t.target.length then
    some ⟨t.offset + 1, t.target.set (t.offset - 1) c⟩
  else none

/-- The character whose code is a digit: `to_character_8`. -/
def toCharacter (x : Natural8) : Character8 := UInt8.ofBitVec x

/-! ## Powers of two -/

/-- The inner loop of `get_str` for a power of two, at most `k` times: the local `bit_pos` and the
string. -/
def digitLoop (n1 mask : Natural32) (bitsPerDigit : ℕ) :
    (k : ℕ) → (bitPos : ℤ) → TextCursor → Option (ℤ × TextCursor)
  | 0, bitPos, t => if bitPos < 0 then some (bitPos, t) else none
  | k + 1, bitPos, t =>
    if bitPos < 0 then some (bitPos, t)
    else do
      let d := (← Natural32Shift.right n1 bitPos) &&& mask
      let t ← t.put (toCharacter (d.setWidth 8))
      digitLoop n1 mask bitsPerDigit k (bitPos - bitsPerDigit) t

/-- The loop of `get_str` for a power of two, from `i` down. The position of the next bit decreases
in the inner loop, which has 33 iterations at most. -/
def limbLoop (op1 op1Offset : ℕ) (mask : Natural32) (bitsPerDigit : ℕ) (h : LimbHeap) :
    (i : ℕ) → (n1 : Natural32) → (bitPos : ℤ) → TextCursor → Option TextCursor
  | 0, n1, bitPos, t => do
    let (_, t) ← digitLoop n1 mask bitsPerDigit 33 (bitPos - bitsPerDigit) t
    return t
  | i + 1, n1, bitPos, t => do
    let (bitPos, t) ← digitLoop n1 mask bitsPerDigit 33 (bitPos - bitsPerDigit) t
    let n0 := (← Natural32Shift.left n1 (-bitPos)) &&& mask
    let n1 ← h.item op1 (op1Offset + i)
    let bitPos := bitPos + 32
    let t ← t.put (toCharacter ((n0 ||| (← Natural32Shift.right n1 bitPos)).setWidth 8))
    limbLoop op1 op1Offset mask bitsPerDigit h i n1 bitPos t

/-- `get_str` for a power of two. -/
def getStrBits (op1 op1Offset op1Count bitsPerDigit : ℕ) (h : LimbHeap) (t : TextCursor) :
    Option TextCursor := do
  let n1 ← h.item op1 (op1Offset + op1Count - 1)
  let bits := 32 * op1Count - leadingZeros n1
  let count := bits % bitsPerDigit
  let bits := if count ≠ 0 then bits + bitsPerDigit - count else bits
  let mask := (← Natural32Shift.left 1 bitsPerDigit) - 1
  limbLoop op1 op1Offset mask bitsPerDigit h (op1Count - 1) n1
    ((bits : ℤ) - (op1Count - 1 : ℕ) * 32) t

/-! ## Other bases -/

/-- The class `POWERS`; `p` is the reference of an array. -/
structure Powers where
  /-- `digits_in_base`. -/
  digitsInBase : ℕ
  /-- `p`. -/
  p : ℕ
  /-- `p_offset`. -/
  pOffset : ℕ
  /-- `n`. -/
  n : ℕ
  /-- `base`. -/
  base : ℕ

/-- The loop of `sb_get_str` that takes `i` digits from a fraction, from index `s` on. -/
def fractionLoop (base : Natural32) :
    (i : ℕ) → (frac : Natural32) → (s : ℤ) → List Natural8 → Option (List Natural8)
  | 0, _, _, buf => some buf
  | i + 1, frac, s, buf => do
    let (digit, frac) := umulPpmm frac base
    let buf ← bytePut buf s (digit.setWidth 8)
    fractionLoop base i frac (s + 1) buf

/-- The loop of `sb_get_str` over blocks of digits, at most `k` times: the locals `op1_count`, `s`
and `buf`. -/
def blockLoop (base : ℕ) (bigBase bigBaseInverted : Natural32) (charsPerLimb rp : ℕ) :
    (k op1Count : ℕ) → (s : ℤ) → List Natural8 → LimbHeap →
      Option (ℤ × List Natural8 × LimbHeap)
  | 0, _, _, _, _ => none
  | k + 1, op1Count, s, buf, h =>
    if op1Count ≤ 1 then some (s, buf, h)
    else do
      let (_, h) ← preinvDivrem1 rp 0 1 rp 1 op1Count bigBase bigBaseInverted
        (leadingZeros bigBase) h
      let top ← h.item rp op1Count
      let op1Count := if top = 0 then op1Count - 1 else op1Count
      let frac := (← h.item rp 0) + 1
      let s := s - charsPerLimb
      let buf ← fractionLoop (BitVec.ofNat 32 base) charsPerLimb frac s buf
      blockLoop base bigBase bigBaseInverted charsPerLimb rp k op1Count s buf h

/-- The loop of `sb_get_str` for the last limb, at most `k` times. -/
def limbDigits (base : Natural32) :
    (k : ℕ) → (ul : Natural32) → (s : ℤ) → List Natural8 → Option (ℤ × List Natural8)
  | 0, ul, s, buf => if ul = 0 then some (s, buf) else none
  | k + 1, ul, s, buf =>
    if ul = 0 then some (s, buf)
    else do
      let buf ← bytePut buf (s - 1) ((ul % base).setWidth 8)
      limbDigits base k (ul / base) (s - 1) buf

/-- The last loop of `sb_get_str`, for `l` digits from index `s` on. -/
def copyDigits (buf : List Natural8) : (l : ℕ) → (s : ℤ) → TextCursor → Option TextCursor
  | 0, _, t => some t
  | l + 1, s, t => do
    let t ← t.put (toCharacter (← byteItem buf s))
    copyDigits buf l (s + 1) t

/-- `n` null characters. -/
def putNulls : (n : ℕ) → TextCursor → Option TextCursor
  | 0, t => some t
  | n + 1, t => (t.put 0).bind (putNulls n)

/-- `buff_alloc` of `sb_get_str`. -/
def buffAlloc : ℕ := 30 * 8 * 4 * 7 / 11

/-- `sb_get_str (target, target_offset, len, op1, op1_offset, op1_count, powtab, powtab_offset)`.
The array `rp` that the routine creates gets the reference `fresh`. A block of digits is written
before those that are in the buffer, and the bound for the number of blocks is the length of the
buffer; the last limb has at most 32 digits. -/
def sbGetStr (fresh len op1 op1Offset op1Count : ℕ) (powtab : List Powers) (powtabOffset : ℕ)
    (h : LimbHeap) (t : TextCursor) : Option TextCursor := do
  let base := (← powtab[powtabOffset]?).base
  let charsPerLimb ← MpBases.charsPerLimb base
  let bigBase ← MpBases.bigBase base
  let bigBaseInverted ← MpBases.bigBaseInverted base
  let h : LimbHeap := Function.update h fresh (List.replicate 30 0)
  let h ← h.copyData fresh op1 op1Offset 1 op1Count
  let (s, buf, h) ← blockLoop base bigBase bigBaseInverted charsPerLimb fresh (buffAlloc + 1)
    op1Count buffAlloc (List.replicate buffAlloc 0) h
  let ul ← h.item fresh 1
  let (s, buf) ← limbDigits (BitVec.ofNat 32 base) 32 ul s buf
  let l := buffAlloc - s.toNat
  let t ← putNulls (len - l) t
  copyDigits buf l s t

/-- The loop of `get_str` that makes a table of powers, at most `k` times. The array `p` is not
replaced by the square. -/
def powersLoop (fresh powtabMem p base op1Count : ℕ) :
    (k n digitsInBase : ℕ) → List Powers → LimbHeap → Option (List Powers × LimbHeap)
  | 0, _, _, _, _ => none
  | k + 1, n, digitsInBase, powtab, h =>
    if op1Count < 2 * n then some (powtab, h)
    else do
      let h ← sqrN fresh powtabMem 0 p 0 n h
      let n := n * 2
      let top ← h.item powtabMem (n - 1)
      let n := n - if top = 0 then 1 else 0
      let digitsInBase := digitsInBase * 2
      powersLoop fresh powtabMem p base op1Count k n digitsInBase
        (powtab ++ [⟨digitsInBase, p, 0, n, base⟩]) h

/-- `get_str (target, target_offset, base, op1, op1_offset, op1_count)`: the result and the string.
The arrays that the routine creates get references from `fresh` on. For 30 limbs and more the
result is not set. -/
def getStr (fresh base op1 op1Offset op1Count : ℕ) (h : LimbHeap) (t : TextCursor) :
    Option (ℕ × String8) :=
  if op1Count = 0 then (t.put 0).map fun t => (1, t.target)
  else if pow2P (BitVec.ofNat 32 base) then do
    let bitsPerDigit := (← MpBases.bigBase base).toNat
    let t' ← getStrBits op1 op1Offset op1Count bitsPerDigit h t
    return (t'.offset - t.offset, t'.target)
  else if op1Count < 30 then do
    let h : LimbHeap := Function.update h fresh []
    let t' ← sbGetStr (fresh + 1) 0 op1 op1Offset op1Count [⟨0, fresh, 0, 0, base⟩] 0 h t
    return (t'.offset - t.offset, t'.target)
  else do
    let bigBase ← MpBases.bigBase base
    let digitsInBase ← MpBases.charsPerLimb base
    let h : LimbHeap := Function.update h fresh (List.replicate (2 * op1Count + 30) 0)
    let h : LimbHeap := Function.update h (fresh + 1) []
    let h : LimbHeap := Function.update h (fresh + 2) [bigBase]
    let h : LimbHeap := Function.update h (fresh + 3) [bigBase]
    let h : LimbHeap := Function.update h (fresh + 4) [bigBase]
    let _ ← powersLoop (fresh + 5) fresh (fresh + 4) base op1Count op1Count 1 digitsInBase
      [⟨0, fresh + 1, 0, 0, base⟩, ⟨digitsInBase, fresh + 2, 0, 1, base⟩,
        ⟨digitsInBase, fresh + 3, 0, 1, base⟩] h
    return (0, t.target)

/-! ## Digits -/

/-- A string in which the characters `u` were written from a position on. -/
def TextCursor.after (target : String8) (offset : ℕ) (u : String8) : TextCursor :=
  ⟨offset + u.length, Special.write target (offset - 1) u⟩

/-- Writing one more character. -/
lemma TextCursor.put_after {target u : String8} {offset : ℕ} (hoffset : 1 ≤ offset)
    (hroom : offset + u.length ≤ target.length) (c : Character8) :
    (after target offset u).put c = some (after target offset (u ++ [c])) := by
  have hwritten : (Special.write target (offset - 1) u).length = target.length :=
    Special.length_write (by omega)
  have hset : (Special.write target (offset - 1) u).set (offset + u.length - 1) c =
      Special.write target (offset - 1) (u ++ [c]) := Special.set_write c (by omega) (by omega)
  simp only [TextCursor.put, after, hwritten, hset]
  rw [if_pos ⟨by omega, hroom⟩, List.length_append, List.length_singleton, Nat.add_assoc]

/-- The characters for the digits of a number from the highest one down to the one at `j`. -/
def digitChars (base n j : ℕ) : String8 :=
  (((Nat.digits base n).drop j).reverse).map fun d => toCharacter (BitVec.ofNat 8 d)

lemma length_digitChars (base n j : ℕ) :
    (digitChars base n j).length = (Nat.digits base n).length - j := by
  rw [digitChars, List.length_map, List.length_reverse, List.length_drop]

/-- One more digit. -/
lemma digitChars_succ {base n j : ℕ} (hbase : 2 ≤ base) (hj : j < (Nat.digits base n).length) :
    digitChars base n j =
      digitChars base n (j + 1) ++ [toCharacter (BitVec.ofNat 8 (n / base ^ j % base))] := by
  have hdigit : (Nat.digits base n)[j] = n / base ^ j % base := by
    rw [← Nat.getD_digits n j hbase, List.getD_eq_getElem?_getD, List.getElem?_eq_getElem hj,
      Option.getD_some]
  rw [digitChars, List.drop_eq_getElem_cons hj, List.reverse_cons, List.map_append, hdigit]
  rfl

/-- Writing one more digit. -/
lemma put_digit {target : String8} {offset base n j : ℕ} (hbase : 2 ≤ base) (hoffset : 1 ≤ offset)
    (hroom : offset - 1 + (Nat.digits base n).length ≤ target.length)
    (hj : j < (Nat.digits base n).length) :
    (TextCursor.after target offset (digitChars base n (j + 1))).put
        (toCharacter (BitVec.ofNat 8 (n / base ^ j % base))) =
      some (TextCursor.after target offset (digitChars base n j)) := by
  rw [TextCursor.put_after hoffset (by rw [length_digitChars]; omega), ← digitChars_succ hbase hj]

/-! ## Powers of two: the result -/

section Bits

variable {bits N : ℕ}

/-- The bits of a limb. -/
def IsLimb (x : Natural32) (N i : ℕ) : Prop := ∀ k < 32, x.getLsbD k = N.testBit (32 * i + k)

/-- The mask for a digit. -/
lemma mask_eq (hbits : bits ≤ 5) : ∃ mask : Natural32,
    Natural32Shift.left 1 bits = some mask ∧ ∀ k, (mask - 1).getLsbD k = decide (k < bits) := by
  refine ⟨(1 : Natural32) <<< bits, ?_, fun k => ?_⟩
  · exact Natural32Shift.left_eq 1 (by omega)
  · have hmask : (((1 : Natural32) <<< bits) - 1).toNat = 2 ^ bits - 1 := by
      interval_cases bits <;> rfl
    rw [← BitVec.testBit_toNat, hmask, Nat.testBit_two_pow_sub_one]

/-- The bits of a digit. -/
lemma testBit_digit (N q bits k : ℕ) :
    (N / 2 ^ q % 2 ^ bits).testBit k = (decide (k < bits) && N.testBit (q + k)) := by
  rw [Nat.testBit_mod_two_pow, Nat.testBit_div_two_pow, Nat.add_comm k]

/-- A digit whose bits are in one limb, or in the highest one. -/
lemma digit_inside {x mask : Natural32} {i p : ℕ} (hx : IsLimb x N i)
    (hmask : ∀ k, mask.getLsbD k = decide (k < bits))
    (hfit : p + bits ≤ 32 ∨ N < 2 ^ (32 * (i + 1))) :
    (x >>> p &&& mask).toNat = N / 2 ^ (32 * i + p) % 2 ^ bits := by
  apply Nat.eq_of_testBit_eq
  intro k
  rw [BitVec.testBit_toNat, BitVec.getLsbD_and, BitVec.getLsbD_ushiftRight, hmask, testBit_digit,
    Bool.and_comm, Nat.add_assoc]
  by_cases hk : k < bits
  · congr 1
    by_cases hpk : p + k < 32
    · exact hx (p + k) hpk
    · have hlt : N < 2 ^ (32 * i + (p + k)) :=
        (hfit.resolve_left (by omega)).trans_le (Nat.pow_le_pow_right (by decide) (by omega))
      rw [BitVec.getLsbD_of_ge _ _ (by omega), Nat.testBit_lt_two_pow hlt]
  · rw [decide_eq_false hk, Bool.false_and, Bool.false_and]

/-- A digit whose bits are in two limbs. -/
lemma digit_across {x y mask : Natural32} {i p : ℕ} (hx : IsLimb x N (i + 1)) (hy : IsLimb y N i)
    (hmask : ∀ k, mask.getLsbD k = decide (k < bits)) (hp : p < 32) (hfit : 32 ≤ p + bits)
    (hbits : bits ≤ 32) :
    (x <<< (32 - p) &&& mask ||| y >>> p).toNat = N / 2 ^ (32 * i + p) % 2 ^ bits := by
  apply Nat.eq_of_testBit_eq
  intro k
  rw [BitVec.testBit_toNat, BitVec.getLsbD_or, BitVec.getLsbD_and, BitVec.getLsbD_ushiftRight,
    BitVec.getLsbD_shiftLeft, hmask, testBit_digit]
  by_cases hk : k < bits
  · rw [decide_eq_true hk, Bool.true_and, Bool.and_true, decide_eq_true (by omega), Bool.true_and]
    by_cases hpk : p + k < 32
    · rw [decide_eq_true (by omega), hy (p + k) hpk, Nat.add_assoc]
      rfl
    · have hindex : 32 * (i + 1) + (k - (32 - p)) = 32 * i + p + k := by omega
      rw [decide_eq_false (by omega), BitVec.getLsbD_of_ge y _ (by omega), Bool.or_false,
        hx _ (by omega), hindex]
      rfl
  · rw [decide_eq_false hk, Bool.and_false, Bool.false_and, Bool.false_or,
      BitVec.getLsbD_of_ge y _ (by omega)]

section Loops

variable {mask : Natural32} {target : String8} {offset : ℕ}
  (hbits : 0 < bits) (hle : bits ≤ 5) (hmask : ∀ k, mask.getLsbD k = decide (k < bits))
  (hoffset : 1 ≤ offset)
  (hroom : offset - 1 + (Nat.digits (2 ^ bits) N).length ≤ target.length)

include hbits hmask hoffset hroom

/-- **The inner loop** of `get_str` with `j` digits left writes those that begin in the limb.

**Proof sketch.** Induction on the fuel. The position of the next digit in the limb is known from
the number of digits that are left. -/
lemma digitLoop_run {x : Natural32} {i : ℕ} (hx : IsLimb x N i) (k : ℕ) {j : ℕ}
    (hj : j ≤ (Nat.digits (2 ^ bits) N).length) (hlow : 32 * i ≤ bits * j)
    (hhigh : bits * j < 32 * (i + 1) + bits)
    (hfit : bits * j ≤ 32 * (i + 1) ∨ N < 2 ^ (32 * (i + 1)))
    (hk : bits * j < 32 * i + bits + k) :
    ∃ j' ≤ j, digitLoop x mask bits k (((bits * j : ℕ) : ℤ) - 32 * i - bits)
        (TextCursor.after target offset (digitChars (2 ^ bits) N j)) =
      some (((bits * j' : ℕ) : ℤ) - 32 * i - bits,
        TextCursor.after target offset (digitChars (2 ^ bits) N j')) ∧
      32 * i ≤ bits * j' ∧ bits * j' < 32 * i + bits := by
  induction k generalizing j with
  | zero =>
    refine ⟨j, le_rfl, ?_, hlow, by omega⟩
    rw [digitLoop, if_pos (by omega)]
  | succ k ih =>
    rw [digitLoop]
    by_cases hend : ((bits * j : ℕ) : ℤ) - 32 * i - bits < 0
    · rw [if_pos hend]
      exact ⟨j, le_rfl, rfl, hlow, by omega⟩
    · obtain ⟨j, rfl⟩ : ∃ l, j = l + 1 := by
        refine ⟨j - 1, ?_⟩
        rcases j with - | j
        · rw [Nat.mul_zero] at hend
          omega
        · rfl
      have hend' := hend
      rw [Nat.mul_add, Nat.mul_one] at hhigh hfit hk hend'
      obtain ⟨p, hp⟩ : ∃ p, bits * j = 32 * i + p := ⟨bits * j - 32 * i, by omega⟩
      have hpos : (((bits * (j + 1) : ℕ) : ℤ) - 32 * i - bits) = (p : ℤ) := by
        rw [Nat.mul_add, Nat.mul_one, hp]
        push_cast
        ring
      have hdigit : (x >>> p &&& mask).toNat = N / (2 ^ bits) ^ j % 2 ^ bits := by
        rw [← Nat.pow_mul, hp]
        exact digit_inside hx hmask (hfit.imp_left fun h => by omega)
      have hchar : (x >>> p &&& mask).setWidth 8 =
          BitVec.ofNat 8 (N / (2 ^ bits) ^ j % 2 ^ bits) := by
        rw [← hdigit]
        apply BitVec.eq_of_toNat_eq
        rw [BitVec.toNat_setWidth, BitVec.toNat_ofNat]
      have hbase : 2 ≤ 2 ^ bits := Nat.le_self_pow hbits.ne' 2
      have hnext : (p : ℤ) - bits = ((bits * j : ℕ) : ℤ) - 32 * i - bits := by
        rw [hp]
        push_cast
        ring
      obtain ⟨j', hj', hrun, hlow', hhigh'⟩ := ih (show j ≤ _ by omega) (by omega) (by omega)
        (hfit.imp_left fun h => by omega) (by omega)
      refine ⟨j', by omega, ?_, hlow', hhigh'⟩
      rw [if_neg hend, hpos, Natural32Shift.right_eq x (by omega)]
      simp only [Option.bind_eq_bind, Option.bind_some]
      rw [hchar, put_digit hbase hoffset hroom (by omega), Option.bind_some, hnext, hrun]

include hle

/-- **The loop over the limbs** of `get_str` writes all digits that are left. -/
lemma limbLoop_run {h : LimbHeap} {op1 : ℕ} (i : ℕ) {n1 : Natural32} {j : ℕ}
    (hitems : ∀ k < i, ∃ x, h.item op1 (0 + k) = some x ∧ IsLimb x N k) (hn1 : IsLimb n1 N i)
    (hj : j ≤ (Nat.digits (2 ^ bits) N).length) (hlow : 32 * i ≤ bits * j)
    (hhigh : bits * j < 32 * (i + 1) + bits)
    (hfit : bits * j ≤ 32 * (i + 1) ∨ N < 2 ^ (32 * (i + 1))) :
    limbLoop op1 0 mask bits h i n1 (((bits * j : ℕ) : ℤ) - 32 * i)
        (TextCursor.after target offset (digitChars (2 ^ bits) N j)) =
      some (TextCursor.after target offset (digitChars (2 ^ bits) N 0)) := by
  induction i generalizing n1 j with
  | zero =>
    obtain ⟨j', -, hrun, -, hlast⟩ := digitLoop_run hbits hmask hoffset hroom hn1 33 hj hlow hhigh
      hfit (by omega)
    have hzero : j' = 0 := by
      by_contra hne
      have := Nat.le_mul_of_pos_right bits (Nat.pos_of_ne_zero hne)
      omega
    rw [limbLoop, hrun, hzero]
    rfl
  | succ i ih =>
    obtain ⟨j', hj', hrun, hlow', hhigh'⟩ := digitLoop_run hbits hmask hoffset hroom hn1 33 hj hlow
      hhigh hfit (by omega)
    obtain ⟨y, hy, hlimb⟩ := hitems i (Nat.lt_succ_self i)
    obtain ⟨j', rfl⟩ : ∃ l, j' = l + 1 := by
      refine ⟨j' - 1, ?_⟩
      rcases j' with - | j'
      · rw [Nat.mul_zero] at hlow'
        omega
      · rfl
    rw [Nat.mul_add bits, Nat.mul_one] at hlow' hhigh'
    obtain ⟨p, hp⟩ : ∃ p, bits * j' = 32 * i + p := ⟨bits * j' - 32 * i, by omega⟩
    have hbitPos : (((bits * (j' + 1) : ℕ) : ℤ) - 32 * (i + 1 : ℕ) - bits) = (p : ℤ) - 32 := by
      rw [Nat.mul_add bits, Nat.mul_one, hp]
      push_cast
      ring
    have hleft : -((p : ℤ) - 32) = ((32 - p : ℕ) : ℤ) := by omega
    have hdigit : (n1 <<< (32 - p) &&& mask ||| y >>> p).toNat =
        N / (2 ^ bits) ^ j' % 2 ^ bits := by
      rw [← Nat.pow_mul, hp]
      exact digit_across hn1 hlimb hmask (by omega) (by omega) (by omega)
    have hchar : (n1 <<< (32 - p) &&& mask ||| y >>> p).setWidth 8 =
        BitVec.ofNat 8 (N / (2 ^ bits) ^ j' % 2 ^ bits) := by
      rw [← hdigit]
      apply BitVec.eq_of_toNat_eq
      rw [BitVec.toNat_setWidth, BitVec.toNat_ofNat]
    have hbase : 2 ≤ 2 ^ bits := Nat.le_self_pow hbits.ne' 2
    have hnext : (p : ℤ) = ((bits * j' : ℕ) : ℤ) - 32 * i := by
      rw [hp]
      push_cast
      ring
    have hrest := ih (fun k hk => hitems k (by omega)) hlimb (show j' ≤ _ by omega) (by omega)
      (by omega) (Or.inl (by omega))
    rw [limbLoop, hrun]
    simp only [Option.bind_eq_bind, Option.bind_some]
    rw [hbitPos, hleft, Natural32Shift.left_eq n1 (by omega), Option.bind_some, hy,
      Option.bind_some, Int.sub_add_cancel, Natural32Shift.right_eq y (by omega), Option.bind_some,
      hchar, put_digit hbase hoffset hroom (by omega), Option.bind_some, hnext, hrest]

end Loops

/-- The number of bits of all digits, as `get_str` computes it. -/
lemma round_up (size : ℕ) {bits : ℕ} (hbits : 0 < bits) :
    (if size % bits ≠ 0 then size + bits - size % bits else size) =
      bits * ((size + (bits - 1)) / bits) := by
  have hdiv := Nat.div_add_mod size bits
  have hmod := Nat.mod_lt size hbits
  have hsum : size + (bits - 1) = bits * (size / bits) + (size % bits + (bits - 1)) := by omega
  have hcount : (size + (bits - 1)) / bits = size / bits + (size % bits + (bits - 1)) / bits := by
    rw [hsum, Nat.mul_add_div hbits]
  by_cases hzero : size % bits = 0
  · have hnone : (size % bits + (bits - 1)) / bits = 0 := Nat.div_eq_of_lt (by omega)
    rw [if_neg (not_not.mpr hzero), hcount, hnone, Nat.add_zero]
    omega
  · have hone : (size % bits + (bits - 1)) / bits = 1 :=
      Nat.div_eq_of_lt_le (by omega) (by omega)
    rw [if_pos hzero, hcount, hone, Nat.mul_add, Nat.mul_one]
    omega

/-- **`get_str`** for a power of two writes the digits of the absolute value. -/
lemma getStrBits_eq {m : IntegerXMemory} {x : ℕ} (hx : m.Normalised x) (hne : m.count x ≠ 0)
    (hbits : 0 < bits) (hle : bits ≤ 5) {target : String8} {offset : ℕ} (hoffset : 1 ≤ offset)
    (hroom : offset - 1 + (Nat.digits (2 ^ bits) (m.magnitude x)).length ≤ target.length) :
    getStrBits (m.item x) 0 (m.count x).natAbs bits m.arrays ⟨offset, target⟩ =
      some (TextCursor.after target offset (digitChars (2 ^ bits) (m.magnitude x) 0)) := by
  set N := m.magnitude x with hN
  obtain ⟨n, hn⟩ : ∃ n, (m.count x).natAbs = n + 1 := ⟨(m.count x).natAbs - 1, by omega⟩
  obtain ⟨d, hd, hsize⟩ := hx.bits_eq (by omega)
  obtain ⟨mask, hmask, hmaskBits⟩ := mask_eq hle
  have hcap := hx.count_le
  have hlow := (normalised_iff.mp hx).2 hne
  rw [hn] at hd hsize hcap hlow ⊢
  rw [Nat.add_sub_cancel] at hd hlow
  have hnumber : m.arrays.number (m.item x) 0 (n + 1) = N := by
    rw [hN, magnitude, hn]
  have hlt : N < 2 ^ (32 * (n + 1)) := by
    rw [← hnumber, Nat.pow_mul]
    exact m.arrays.number_lt (by rw [Nat.zero_add]; exact hcap)
  have hlimb {k : ℕ} {y : Natural32} (hk : k < n + 1) (hy : m.arrays.item (m.item x) k = some y) :
      IsLimb y N k := fun i hi => by
    rw [← hnumber, LimbHeap.getLsbD_item hy hk hi]
  have hitems : ∀ k < n, ∃ y, m.arrays.item (m.item x) (0 + k) = some y ∧ IsLimb y N k := by
    intro k hk
    obtain ⟨y, hy, -⟩ := LimbHeap.exists_limb (h := m.arrays) (a := m.item x) (i := k)
      (by have : n + 1 ≤ (m.arrays (m.item x)).length := hcap; omega)
    exact ⟨y, by rw [Nat.zero_add]; exact hy, hlimb (by omega) hy⟩
  -- all digits are left, and the first one begins in the highest limb
  have hdigits : (Nat.digits (2 ^ bits) N).length = (N.size + (bits - 1)) / bits :=
    length_digits_two_pow hbits N
  have hround := round_up N.size hbits
  rw [← hdigits] at hround
  have hsizeLow : 32 * n < N.size := by
    rw [Nat.lt_size, Nat.pow_mul]
    exact hlow
  have hsizeHigh : N.size ≤ 32 * (n + 1) := Nat.size_le.mpr hlt
  have hmod := Nat.mod_lt N.size hbits
  have hbound : N.size ≤ bits * (Nat.digits (2 ^ bits) N).length ∧
      bits * (Nat.digits (2 ^ bits) N).length < N.size + bits := by
    rw [← hround]
    split <;> omega
  have hrun := limbLoop_run hbits hle hmaskBits hoffset hroom n hitems (hlimb (by omega) hd)
    le_rfl (by omega) (by omega) (Or.inr hlt)
  have hstart : TextCursor.after target offset
      (digitChars (2 ^ bits) N (Nat.digits (2 ^ bits) N).length) = ⟨offset, target⟩ := by
    rw [digitChars, List.drop_length]
    exact congrArg (TextCursor.mk offset) (Special.write_nil _ _)
  have hleading : 32 * (n + 1) - leadingZeros d = N.size := by
    rw [← hsize, Nat.mul_comm]
  rw [hstart] at hrun
  simp only [getStrBits, Nat.zero_add, Nat.add_sub_cancel, hd, hleading, hround, hmask,
    Option.bind_eq_bind, Option.bind_some]
  rw [← hrun]
  congr 1
  ring

end Bits

end SpecialAccess

namespace SpecialAssignment

open SpecialArithmetic

/-! ## Reading digits -/

/-- The loop of `set_str` for a power of two, over the first `k` digits from the last one down: the
locals `res_digit` and `size`. -/
def bitsLoop (target targetOffset : ℕ) (str : List Natural8) (strOffset bitsPerDigit : ℕ) :
    (k : ℕ) → (resDigit : Natural32) → (nextBitpos size : ℕ) → LimbHeap →
      Option (Natural32 × ℕ × LimbHeap)
  | 0, resDigit, _, size, h => some (resDigit, size, h)
  | k + 1, resDigit, nextBitpos, size, h => do
    let inpDigit ← str[strOffset + k]?
    let resDigit := resDigit ||| (← Natural32Shift.left (inpDigit.setWidth 32) nextBitpos)
    let nextBitpos := nextBitpos + bitsPerDigit
    if 32 ≤ nextBitpos then
      let h ← h.put target (targetOffset + size) resDigit
      let nextBitpos := nextBitpos - 32
      let resDigit := (inpDigit >>> (bitsPerDigit - nextBitpos)).setWidth 32
      bitsLoop target targetOffset str strOffset bitsPerDigit k resDigit nextBitpos (size + 1) h
    else bitsLoop target targetOffset str strOffset bitsPerDigit k resDigit nextBitpos size h

/-- A loop of `set_str` that reads `j` digits from index `str_offset` on: the locals `res_digit` and
`big_base_l`. -/
def digitsLoop (str : List Natural8) (base : Natural32) :
    (j strOffset : ℕ) → (resDigit bigBase : Natural32) → Option (Natural32 × Natural32)
  | 0, _, resDigit, bigBase => some (resDigit, bigBase)
  | j + 1, strOffset, resDigit, bigBase => do
    let d ← str[strOffset]?
    digitsLoop str base j (strOffset + 1) (resDigit * base + d.setWidth 32) (bigBase * base)

/-- A block of digits is added: the number is multiplied by `big_base`, and `res_digit` is added.
The result is `size`. -/
def addBlock (target targetOffset size : ℕ) (bigBase resDigit : Natural32) (h : LimbHeap) :
    Option (ℕ × LimbHeap) :=
  if size = 0 then
    if resDigit ≠ 0 then (h.put target targetOffset resDigit).map fun h => (1, h)
    else some (size, h)
  else do
    let (c, h) ← mul1 target targetOffset target targetOffset size bigBase h
    let (c', h) ← add1 target targetOffset target targetOffset size resDigit h
    let cyLimb := c + c'
    if cyLimb ≠ 0 then
      let h ← h.put target (targetOffset + size) cyLimb
      return (size + 1, h)
    else return (size, h)

/-- The loop of `set_str` over full blocks of digits, for `k` blocks: the locals `str_offset` and
`size`. -/
def blocksLoop (target targetOffset : ℕ) (str : List Natural8) (base bigBase : Natural32)
    (charsPerLimb : ℕ) : (k strOffset size : ℕ) → LimbHeap → Option (ℕ × ℕ × LimbHeap)
  | 0, strOffset, size, h => some (strOffset, size, h)
  | k + 1, strOffset, size, h => do
    let d ← str[strOffset]?
    let (resDigit, _) ← digitsLoop str base (charsPerLimb - 1) (strOffset + 1) (d.setWidth 32) base
    let (size, h) ← addBlock target targetOffset size bigBase resDigit h
    blocksLoop target targetOffset str base bigBase charsPerLimb k (strOffset + charsPerLimb) size h

/-- `set_str (target, target_offset, str, str_offset, str_len, base)`: the result. With the blocks
of `chars_per_limb` digits, the loop ends before the last block, and so there are `(str_len - 1) //
chars_per_limb` blocks and at least one digit behind them. For base 10 the numbers of digits are
written out in the source, as the ones in the tables. -/
def setStr (target targetOffset : ℕ) (str : List Natural8) (strOffset strLen base : ℕ)
    (h : LimbHeap) : Option (ℕ × LimbHeap) := do
  let bigBase ← MpBases.bigBase base
  let charsPerLimb ← MpBases.charsPerLimb base
  if pow2P (BitVec.ofNat 32 base) then
    let (resDigit, size, h) ← bitsLoop target targetOffset str strOffset bigBase.toNat strLen 0 0 0
      h
    if resDigit ≠ 0 then
      let h ← h.put target (targetOffset + size) resDigit
      return (size + 1, h)
    else return (size, h)
  else if strLen < 2147483647 then
    let k := (strLen - 1) / charsPerLimb
    let base32 : Natural32 := BitVec.ofNat 32 base
    let (strOffset, size, h) ← blocksLoop target targetOffset str base32 bigBase charsPerLimb k
      strOffset 0 h
    let d ← str[strOffset]?
    let (resDigit, bigBase) ← digitsLoop str base32 (strLen - k * charsPerLimb - 1) (strOffset + 1)
      (d.setWidth 32) base32
    addBlock target targetOffset size bigBase resDigit h
  else return (0, h)

/-! ## Powers of two: what is read -/

/-- The state of the loop of `set_str` after `i` digits of `bits` bits that stand for `v`: the full
limbs are stored, and the other bits are in `res_digit`. -/
structure BitsRead (h₀ : LimbHeap) (target targetOffset bits i v : ℕ) (resDigit : Natural32)
    (nextBitpos size : ℕ) (h : LimbHeap) : Prop where
  /-- The limbs stored. -/
  heap : h = h₀.store target targetOffset (ofNat 32 size v)
  /-- The other bits. -/
  limb : resDigit.toNat = v / (2 ^ 32) ^ size
  /-- The number of bits. -/
  bits_eq : nextBitpos + 32 * size = bits * i
  /-- No full limb is left. -/
  lt_limb : nextBitpos < 32
  /-- The number has that many bits. -/
  lt : v < 2 ^ (bits * i)

section Bits

variable {target targetOffset bits : ℕ} {h₀ : LimbHeap}

/-- The weight of the next digit. -/
lemma BitsRead.pow_eq {i v : ℕ} {resDigit : Natural32} {nextBitpos size : ℕ} {h : LimbHeap}
    (hst : BitsRead h₀ target targetOffset bits i v resDigit nextBitpos size h) :
    2 ^ (bits * i) = (2 ^ 32) ^ size * 2 ^ nextBitpos := by
  rw [← hst.bits_eq, ← Nat.pow_mul, ← Nat.pow_add, Nat.add_comm]

/-- The bits in `res_digit` are below the next digit. -/
lemma BitsRead.limb_lt {i v : ℕ} {resDigit : Natural32} {nextBitpos size : ℕ} {h : LimbHeap}
    (hst : BitsRead h₀ target targetOffset bits i v resDigit nextBitpos size h) :
    resDigit.toNat < 2 ^ nextBitpos := by
  rw [hst.limb]
  refine Nat.div_lt_of_lt_mul ?_
  rw [← hst.pow_eq]
  exact hst.lt

/-- The number with the next digit, without the limbs that are stored. -/
lemma BitsRead.div_eq {i v : ℕ} {resDigit : Natural32} {nextBitpos size : ℕ} {h : LimbHeap}
    (hst : BitsRead h₀ target targetOffset bits i v resDigit nextBitpos size h) (d : ℕ) :
    (v + 2 ^ (bits * i) * d) / (2 ^ 32) ^ size = resDigit.toNat + 2 ^ nextBitpos * d := by
  have hpos : 0 < (2 ^ 32) ^ size := Nat.pow_pos (by decide)
  rw [hst.pow_eq, Nat.mul_assoc, Nat.add_mul_div_left _ _ hpos, hst.limb]

/-- The next digit is put before the bits in `res_digit`, as far as it fits. -/
lemma BitsRead.or_eq {i v : ℕ} {resDigit : Natural32} {nextBitpos size : ℕ} {h : LimbHeap}
    (hst : BitsRead h₀ target targetOffset bits i v resDigit nextBitpos size h) {d : ℕ}
    (hd : d < 256) :
    resDigit ||| (BitVec.ofNat 8 d).setWidth 32 <<< nextBitpos =
      BitVec.ofNat 32 ((v + 2 ^ (bits * i) * d) / (2 ^ 32) ^ size) := by
  have hlt := hst.limb_lt
  have hwide : ((BitVec.ofNat 8 d).setWidth 32 : Natural32).toNat = d := by
    rw [BitVec.toNat_setWidth, BitVec.toNat_ofNat, Nat.mod_eq_of_lt hd, Nat.mod_eq_of_lt (by omega)]
  have hor : resDigit.toNat ||| d <<< nextBitpos = resDigit.toNat + 2 ^ nextBitpos * d := by
    rw [Nat.or_comm, ← Nat.shiftLeft_add_eq_or_of_lt hlt, Nat.shiftLeft_eq]
    ring
  apply BitVec.eq_of_toNat_eq
  calc (resDigit ||| (BitVec.ofNat 8 d).setWidth 32 <<< nextBitpos).toNat
      = resDigit.toNat ||| d <<< nextBitpos % 2 ^ 32 := by
        rw [BitVec.toNat_or, BitVec.toNat_shiftLeft, hwide]
    _ = (resDigit.toNat ||| d <<< nextBitpos) % 2 ^ 32 := by
        rw [Nat.or_mod_two_pow, Nat.mod_eq_of_lt resDigit.isLt]
    _ = _ := by rw [hor, hst.div_eq, BitVec.toNat_ofNat]

/-- **One iteration** of the loop. -/
lemma bitsLoop_step {i v : ℕ} {resDigit : Natural32} {nextBitpos size : ℕ} {h : LimbHeap}
    (hst : BitsRead h₀ target targetOffset bits i v resDigit nextBitpos size h) {d : ℕ}
    (hbits : 0 < bits) (hle : bits ≤ 5) (hd : d < 2 ^ bits) {str : List Natural8}
    {strOffset k : ℕ} (hitem : str[strOffset + k]? = some (BitVec.ofNat 8 d))
    (hroom : bits * (i + 1) < 32 * ((h₀ target).length - targetOffset + 1)) :
    ∃ resDigit' nextBitpos' size' h',
      bitsLoop target targetOffset str strOffset bits (k + 1) resDigit nextBitpos size h =
        bitsLoop target targetOffset str strOffset bits k resDigit' nextBitpos' size' h' ∧
      BitsRead h₀ target targetOffset bits (i + 1) (v + 2 ^ (bits * i) * d) resDigit' nextBitpos'
        size' h' := by
  have hbitsEq := hst.bits_eq
  have hlt32 := hst.lt_limb
  have hd8 : d < 256 := hd.trans_le ((Nat.pow_le_pow_right (by decide) hle).trans (by decide))
  have hor := hst.or_eq hd8
  have hdiv := hst.div_eq d
  set v' := v + 2 ^ (bits * i) * d with hv'
  have hlt : v' < 2 ^ (bits * (i + 1)) := by
    have hmul : 2 ^ (bits * i) * (d + 1) ≤ 2 ^ (bits * i) * 2 ^ bits := Nat.mul_le_mul_left _ hd
    have hv := hst.lt
    rw [Nat.mul_add, Nat.mul_one] at hmul
    rw [Nat.mul_add, Nat.mul_one, Nat.pow_add]
    omega
  -- the limbs stored so far do not depend on the next digit
  have hstored : ofNat 32 size v' = ofNat 32 size v := by
    rw [hv', hst.pow_eq, Nat.mul_assoc, ofNat_add_mul]
  rw [Nat.mul_add, Nat.mul_one] at hroom
  simp only [bitsLoop, hitem, Natural32Shift.left_eq _ (show nextBitpos ≤ 32 by omega), hor,
    Option.bind_eq_bind, Option.bind_some]
  by_cases hfull : 32 ≤ nextBitpos + bits
  · have hsize : targetOffset + size < (h₀ target).length := by omega
    have hlen : targetOffset + (ofNat 32 size v).length ≤ (h₀ target).length := by
      rw [length_ofNat]
      omega
    have hput : h.put target (targetOffset + size) (BitVec.ofNat 32 (v' / (2 ^ 32) ^ size)) =
        some (h.store target (targetOffset + size) [BitVec.ofNat 32 (v' / (2 ^ 32) ^ size)]) :=
      put_eq (by rw [hst.heap, length_store hlen]; exact hsize)
    rw [if_pos hfull, hput, Option.bind_some]
    refine ⟨_, _, _, _, rfl, ?_, ?_, ?_, ?_, hlt⟩
    · rw [ofNat_add, hstored, hst.heap, store_store (by rw [length_ofNat]) hlen]
      rfl
    · have hshift : bits - (nextBitpos + bits - 32) = 32 - nextBitpos := by omega
      have hsplit : 2 ^ 32 = 2 ^ nextBitpos * 2 ^ (32 - nextBitpos) := by
        rw [← Nat.pow_add]
        congr 1
        omega
      have hless := hst.limb_lt
      rw [hshift, BitVec.toNat_setWidth, BitVec.toNat_ushiftRight, BitVec.toNat_ofNat,
        Nat.mod_eq_of_lt hd8, Nat.shiftRight_eq_div_pow, Nat.mod_eq_of_lt
          ((Nat.div_le_self _ _).trans_lt (by omega)), pow_succ, ← Nat.div_div_eq_div_mul, hdiv,
        hsplit, ← Nat.div_div_eq_div_mul, Nat.add_mul_div_left _ _ (Nat.two_pow_pos _),
        Nat.div_eq_of_lt hless, Nat.zero_add]
    · rw [Nat.mul_add bits, Nat.mul_one, ← hbitsEq]
      omega
    · omega
  · rw [if_neg hfull]
    refine ⟨_, _, _, _, rfl, ?_, ?_, ?_, by omega, hlt⟩
    · rw [hstored]
      exact hst.heap
    · have hless : v' / (2 ^ 32) ^ size < 2 ^ 32 := by
        refine Nat.div_lt_of_lt_mul (hlt.trans_le ?_)
        rw [← Nat.pow_mul, ← Nat.pow_add, Nat.mul_add, Nat.mul_one, ← hbitsEq]
        exact Nat.pow_le_pow_right (by decide) (by omega)
      rw [BitVec.toNat_ofNat, Nat.mod_eq_of_lt hless]
    · rw [Nat.mul_add bits, Nat.mul_one, ← hbitsEq]
      omega

/-- **The loop** over digits that are given from the low end.

**Proof sketch.** Induction on the digits, with the number read so far. -/
lemma bitsLoop_run {i v : ℕ} {resDigit : Natural32} {nextBitpos size : ℕ} {h : LimbHeap}
    (hst : BitsRead h₀ target targetOffset bits i v resDigit nextBitpos size h)
    (hbits : 0 < bits) (hle : bits ≤ 5) {str : List Natural8} {strOffset : ℕ} (ds : List ℕ)
    (hds : ∀ d ∈ ds, d < 2 ^ bits)
    (hstr : ∀ j < ds.length,
      str[strOffset + (ds.length - 1 - j)]? = some (BitVec.ofNat 8 (ds.getD j 0)))
    (hroom : bits * (i + ds.length) < 32 * ((h₀ target).length - targetOffset + 1)) :
    ∃ resDigit' nextBitpos' size' h',
      bitsLoop target targetOffset str strOffset bits ds.length resDigit nextBitpos size h =
        some (resDigit', size', h') ∧
      BitsRead h₀ target targetOffset bits (i + ds.length)
        (v + 2 ^ (bits * i) * Nat.ofDigits (2 ^ bits) ds) resDigit' nextBitpos' size' h' := by
  induction ds generalizing i v resDigit nextBitpos size h with
  | nil =>
    refine ⟨_, nextBitpos, _, _, rfl, ?_⟩
    rwa [Nat.ofDigits_nil, Nat.mul_zero, Nat.add_zero]
  | cons d ds ih =>
    rw [List.length_cons] at hroom
    have hfirst : bits * (i + 1) ≤ bits * (i + (ds.length + 1)) :=
      Nat.mul_le_mul_left _ (by omega)
    have hitem : str[strOffset + ds.length]? = some (BitVec.ofNat 8 d) := hstr 0 (Nat.succ_pos _)
    obtain ⟨r₁, next₁, size₁, h₁, hstep, hst₁⟩ := bitsLoop_step hst hbits hle
      (hds d List.mem_cons_self) hitem (by omega)
    obtain ⟨r₂, next₂, size₂, h₂, hloop, hst₂⟩ := ih hst₁
      (fun e he => hds e (List.mem_cons_of_mem d he))
      (fun j hj => by
        have hnext := hstr (j + 1) (by rw [List.length_cons]; omega)
        have hindex : (d :: ds).length - 1 - (j + 1) = ds.length - 1 - j := by
          rw [List.length_cons]
          omega
        rwa [hindex, List.getD_cons_succ] at hnext)
      (by rw [Nat.add_assoc, Nat.add_comm 1]; exact hroom)
    refine ⟨r₂, next₂, size₂, h₂, ?_, ?_⟩
    · rw [List.length_cons, hstep]
      exact hloop
    · have hval : v + 2 ^ (bits * i) * d +
          2 ^ (bits * (i + 1)) * Nat.ofDigits (2 ^ bits) ds =
          v + 2 ^ (bits * i) * Nat.ofDigits (2 ^ bits) (d :: ds) := by
        rw [Nat.ofDigits_cons, Nat.mul_add bits, Nat.mul_one, Nat.pow_add]
        ring
      rw [List.length_cons, ← hval, Nat.add_comm ds.length, ← Nat.add_assoc]
      exact hst₂

end Bits

/-- What `set_str` leaves: the limbs of a number, none of which is not needed. -/
def Stores (target targetOffset v : ℕ) (h : LimbHeap) (r : Option (ℕ × LimbHeap)) : Prop :=
  ∃ size, r = some (size, h.store target targetOffset (ofNat 32 size v)) ∧
    targetOffset + size ≤ (h target).length ∧ v < (2 ^ 32) ^ size ∧
    (size ≠ 0 → (2 ^ 32) ^ (size - 1) ≤ v)

/-- **`set_str`** for a power of two, and digits that do not begin with a zero or a single one. -/
lemma setStr_bits {base bits target targetOffset : ℕ} (hbase : MpBases.HasBits base bits)
    {h : LimbHeap} {str : List Natural8} {strOffset : ℕ} {ds : List ℕ} (hds : ∀ d ∈ ds, d < base)
    (hstr : ∀ j < ds.length,
      str[strOffset + (ds.length - 1 - j)]? = some (BitVec.ofNat 8 (ds.getD j 0)))
    (hfirst : base ^ (ds.length - 1) ≤ Nat.ofDigits base ds ∨ ds.length ≤ 1)
    (hcap : targetOffset ≤ (h target).length)
    (hroom : Nat.ofDigits base ds < (2 ^ 32) ^ ((h target).length - targetOffset)) :
    Stores target targetOffset (Nat.ofDigits base ds) h
      (setStr target targetOffset str strOffset ds.length base h) := by
  obtain ⟨hpow, hbig, rfl, hbits, hle⟩ := hbase
  set V := Nat.ofDigits (2 ^ bits) ds with hV
  have hfirst' : bits * (ds.length - 1) < V.size ∨ ds.length ≤ 1 :=
    hfirst.imp_left fun h => by rwa [Nat.lt_size, Nat.pow_mul]
  have hsize : V.size ≤ 32 * ((h target).length - targetOffset) := by
    rw [Nat.size_le, Nat.pow_mul]
    exact hroom
  have hlen : bits * ds.length ≤ bits * (ds.length - 1) + bits := by
    rw [← Nat.mul_succ]
    exact Nat.mul_le_mul_left _ (by omega)
  have hlen' : ds.length ≤ 1 → bits * ds.length ≤ bits := fun h1 =>
    (Nat.mul_le_mul_left bits h1).trans (Nat.mul_one bits).le
  have hbigNat : (BitVec.ofNat 32 bits).toNat = bits := by
    rw [BitVec.toNat_ofNat, Nat.mod_eq_of_lt (by omega)]
  have hstart : BitsRead h target targetOffset bits 0 0 0 0 0 h := by
    refine ⟨?_, (Nat.zero_div _).symm, rfl, Nat.succ_pos 31, Nat.one_pos⟩
    rw [ofNat, store_nil]
  obtain ⟨r, next, size, h', hloop, hst⟩ := bitsLoop_run hstart hbits hle ds hds hstr
    (by rw [Nat.zero_add]; rcases hfirst' with h1 | h1 <;> omega)
  rw [Nat.zero_add, Nat.zero_add, Nat.mul_zero, pow_zero, Nat.one_mul, ← hV] at hst
  have hchars : ∃ k, MpBases.charsPerLimb (2 ^ bits) = some k := by
    interval_cases bits <;> exact ⟨_, rfl⟩
  obtain ⟨k, hk⟩ := hchars
  have hend := hst.bits_eq
  have hpos : 0 < (2 ^ 32) ^ size := Nat.pow_pos (by decide)
  simp only [setStr, hbig, hk, Option.bind_eq_bind, Option.bind_some, hpow, if_true, hbigNat, hloop]
  by_cases hrest : r = 0
  · have hlt : V < (2 ^ 32) ^ size := by
      have hzero : V / (2 ^ 32) ^ size = 0 := by
        rw [← hst.limb, hrest]
        rfl
      exact (Nat.div_eq_zero_iff.mp hzero).resolve_left hpos.ne'
    have hneed : size ≠ 0 → (2 ^ 32) ^ (size - 1) ≤ V := fun hne => by
      have hbelow : 32 * (size - 1) < V.size := by rcases hfirst' with h1 | h1 <;> omega
      rwa [Nat.lt_size, Nat.pow_mul] at hbelow
    have hfits : targetOffset + size ≤ (h target).length := by
      rcases hfirst' with h1 | h1 <;> omega
    rw [if_neg (not_not.mpr hrest), hst.heap]
    exact ⟨size, rfl, hfits, hlt, hneed⟩
  · have hone : 1 ≤ V / (2 ^ 32) ^ size := by
      rw [← hst.limb]
      exact BitVec.toNat_pos_of_ne_zero hrest
    have hneed : (2 ^ 32) ^ size ≤ V := by
      have := (Nat.le_div_iff_mul_le hpos).mp hone
      rwa [Nat.one_mul] at this
    have hless : size < (h target).length - targetOffset :=
      (Nat.pow_lt_pow_iff_right (by decide)).mp (hneed.trans_lt hroom)
    have hlt : V < (2 ^ 32) ^ (size + 1) := by
      rw [pow_succ]
      refine (Nat.div_lt_iff_lt_mul hpos).mp ?_ |>.trans_eq (Nat.mul_comm _ _)
      rw [← hst.limb]
      exact r.isLt
    have hlen : targetOffset + (ofNat 32 size V).length ≤ (h target).length := by
      rw [length_ofNat]
      omega
    have hput : h'.put target (targetOffset + size) r =
        some (h'.store target (targetOffset + size) [r]) :=
      put_eq (by rw [hst.heap, length_store hlen]; omega)
    have hlimb : ofNat 32 1 (V / (2 ^ 32) ^ size) = [r] := by
      rw [ofNat, ofNat, ← hst.limb, BitVec.ofNat_toNat, BitVec.setWidth_eq]
    have hheap : h'.store target (targetOffset + size) [r] =
        h.store target targetOffset (ofNat 32 (size + 1) V) := by
      rw [ofNat_add, hlimb, hst.heap, store_store (by rw [length_ofNat]) hlen]
    rw [if_pos hrest, hput, Option.bind_some, hheap]
    exact ⟨size + 1, rfl, by omega, hlt, fun _ => hneed⟩

end SpecialAssignment

end EiffelWeb
