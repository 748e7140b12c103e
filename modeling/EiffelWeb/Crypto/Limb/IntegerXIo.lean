import Mathlib.Data.Nat.Size
import EiffelWeb.Crypto.IntegerX
import EiffelWeb.Crypto.Limb.IntegerXArithmetic

set_option relaxedAutoImplicit false
set_option autoImplicit false

/-!
# Limbs and bytes

The routines `input` and `output` of `INTEGER_X_IO` and the features of `READABLE_INTEGER_X` that
convert a number from and to bytes. All of them pass the arguments order 1, size 1 and endian -1:
the bytes are taken one by one, the most significant first, and the loops begin with the last byte.
Bits are moved between the limbs and the bytes through an accumulator.

The conversions of the limbs agree with the conversions of the numbers in `IntegerX`.

## Main definitions

* `IntegerXMemory.input`, `IntegerXMemory.output`
* `IntegerXMemory.bits`, `IntegerXMemory.bytes`
* `IntegerXMemory.makeFromBytes`, `IntegerXMemory.asBytes`,
  `IntegerXMemory.asFixedWidthByteArray`

## Main results

* `IntegerXMemory.input_outcome` — the number that `input` leaves.
* `IntegerXMemory.output_eq` — the bytes that `output` writes.
* `IntegerXMemory.bytes_roundTrip` — the round trips.
-/

namespace EiffelWeb

open Limbs Arrays

/-- An item of an array of bytes; there is none outside the array. -/
def byteItem (a : List Natural8) (i : ℤ) : Option Natural8 := if 0 ≤ i then a[i.toNat]? else none

/-- Writing an item of an array of bytes. -/
def bytePut (a : List Natural8) (i : ℤ) (b : Natural8) : Option (List Natural8) :=
  if 0 ≤ i ∧ i < a.length then some (a.set i.toNat b) else none

namespace IntegerXMemory

/-! ## Reading bytes -/

/-- The locals of the loop of `input`. -/
structure InputState where
  /-- `limb`, the bits that are not stored yet. -/
  limb : Natural32
  /-- `lbits`, their number. -/
  lbits : ℕ
  /-- `zp_offset`. -/
  zpOffset : ℕ
  /-- `dp_offset`. -/
  dpOffset : ℤ

/-- One iteration of the loop of `input`. -/
def inputStep (zp : ℕ) (source : List Natural8) (st : InputState) (h : LimbHeap) :
    Option (InputState × LimbHeap) := do
  let byte := (← byteItem source st.dpOffset).setWidth 32
  let dpOffset := st.dpOffset + 1
  let limb := st.limb ||| byte <<< st.lbits
  let lbits := st.lbits + 8
  -- `woffset` is -2
  if 32 ≤ lbits then
    let h ← h.put zp st.zpOffset limb
    let lbits := lbits - 32
    return (⟨byte >>> (8 - lbits), lbits, st.zpOffset + 1, dpOffset - 2⟩, h)
  else return (⟨limb, lbits, st.zpOffset, dpOffset - 2⟩, h)

/-- The loop of `input`. -/
def inputLoop (zp : ℕ) (source : List Natural8) :
    ℕ → InputState → LimbHeap → Option (InputState × LimbHeap)
  | 0, st, h => some (st, h)
  | n + 1, st, h => (inputStep zp source st h).bind fun r => inputLoop zp source n r.1 r.2

/-- `input (z, count, 1, 1, -1, source, source_offset)`. -/
def input (z count : ℕ) (source : List Natural8) (sourceOffset : ℕ) (m : IntegerXMemory) :
    Option IntegerXMemory := do
  let zsize := (count * 8 + 32 - 1) / 32
  let m := m.resize z zsize
  let zp := m.item z
  let (st, h) ← inputLoop zp source count ⟨0, 0, 0, (sourceOffset : ℤ) + (count - 1)⟩ m.arrays
  let h ← (if st.lbits ≠ 0 then h.put zp st.zpOffset st.limb else some h)
  let zsize ← SpecialUtility.normalize zp 0 zsize h
  return { m with arrays := h, count := Function.update m.count z zsize }

/-- The object that `default_create` makes. -/
def defaultCreate : IntegerXMemory := single [0] 0

/-- `create x.make_from_bytes (bytes_array, first, last)`, as the only object. -/
def makeFromBytes (bytesArray : List Natural8) (first last : ℕ) : Option IntegerXMemory :=
  defaultCreate.input 0 (last - first + 1) bytesArray first

/-! ## Writing bytes -/

/-- `leading_zeros (limb_a)`. -/
def leadingZeros (x : Natural32) : ℕ := 32 - x.toNat.size

/-- `size_in_base (2)`. -/
def bits (x : ℕ) (m : IntegerXMemory) : Option ℕ :=
  let n := (m.count x).natAbs
  if n = 0 then some 1
  else (m.arrays.item (m.item x) (n - 1)).map fun d => n * 32 - leadingZeros d

/-- `bytes`. -/
def bytes (x : ℕ) (m : IntegerXMemory) : Option ℕ := (bits x m).map fun b => (b + 7) / 8

/-- The locals of the loop of `output`. -/
structure OutputState where
  /-- `limb`, the bits that are not written yet. -/
  limb : Natural32
  /-- `lbits`, their number. -/
  lbits : ℕ
  /-- `zp_offset`. -/
  zpOffset : ℕ
  /-- `dp_offset`. -/
  dpOffset : ℤ
  /-- `dp`. -/
  dp : List Natural8

/-- One iteration of the loop of `output`. -/
def outputStep (zp zend : ℕ) (h : LimbHeap) (st : OutputState) : Option OutputState := do
  -- `woffset` is -2
  if 8 ≤ st.lbits then
    let dp ← bytePut st.dp st.dpOffset (st.limb.setWidth 8)
    return ⟨st.limb >>> 8, st.lbits - 8, st.zpOffset, st.dpOffset + 1 - 2, dp⟩
  else if st.zpOffset = zend then
    let dp ← bytePut st.dp st.dpOffset ((st.limb ||| (0 : Natural32) <<< st.lbits).setWidth 8)
    return ⟨(0 : Natural32) >>> (8 - st.lbits), st.lbits + 32 - 8, st.zpOffset,
      st.dpOffset + 1 - 2, dp⟩
  else
    let newlimb ← h.item zp st.zpOffset
    let dp ← bytePut st.dp st.dpOffset ((st.limb ||| newlimb <<< st.lbits).setWidth 8)
    return ⟨newlimb >>> (8 - st.lbits), st.lbits + 32 - 8, st.zpOffset + 1,
      st.dpOffset + 1 - 2, dp⟩

/-- The loop of `output`. -/
def outputLoop (zp zend : ℕ) (h : LimbHeap) : ℕ → OutputState → Option OutputState
  | 0, st => some st
  | n + 1, st => (outputStep zp zend h st).bind (outputLoop zp zend h n)

/-- `output (target, target_offset, junk, 1, 1, -1, z)`: the array written. Nothing is written for
zero. -/
def output (target : List Natural8) (targetOffset : ℤ) (z : ℕ) (m : IntegerXMemory) :
    Option (List Natural8) :=
  let zsize := (m.count z).natAbs
  if zsize = 0 then some target
  else do
    let d ← m.arrays.item (m.item z) (zsize - 1)
    -- `sizeinbase_2exp (zp, 0, zsize, 8)`
    let count := (zsize * 32 - leadingZeros d + 8 - 1) / 8
    let st ← outputLoop (m.item z) zsize m.arrays count
      ⟨0, 0, 0, targetOffset + (count - 1), target⟩
    return st.dp

/-- `as_bytes`. -/
def asBytes (x : ℕ) (m : IntegerXMemory) : Option (List Natural8) :=
  (bytes x m).bind fun n => output (List.replicate n 0) 0 x m

/-- `to_fixed_width_byte_array (target, first, last)`: the array written. -/
def toFixedWidthByteArray (x : ℕ) (target : List Natural8) (first last : ℤ) (m : IntegerXMemory) :
    Option (List Natural8) :=
  (bytes x m).bind fun n =>
    let target := Special.fillWith target 0 first.toNat (last - first + 1).toNat
    output target (first + (last - first - n + 1)) x m

/-- `as_fixed_width_byte_array (byte_size)`. -/
def asFixedWidthByteArray (x byteSize : ℕ) (m : IntegerXMemory) : Option (List Natural8) :=
  toFixedWidthByteArray x (List.replicate byteSize 0) 0 (byteSize - 1) m

/-! ## What is read -/

/-- The state of the loop of `input` after `i` bytes that stand for `v`: the full limbs are stored
from the low end of the array, and the other bits are in the accumulator. -/
structure InputState.Holds (h₀ : LimbHeap) (zp i v : ℕ) (st : InputState) (h : LimbHeap) :
    Prop where
  /-- The limbs stored. -/
  heap : h = h₀.store zp 0 (ofNat 32 st.zpOffset v)
  /-- The bits in the accumulator. -/
  limb : st.limb.toNat = v / (2 ^ 32) ^ st.zpOffset
  /-- The number of bits. -/
  bits : st.lbits + 32 * st.zpOffset = 8 * i
  /-- No full limb is in the accumulator. -/
  lbits_lt : st.lbits < 32
  /-- The number has that many bits. -/
  lt : v < 2 ^ (8 * i)

/-- The weight of the next byte. -/
lemma InputState.Holds.pow_eq {h₀ h : LimbHeap} {zp i v : ℕ} {st : InputState}
    (hst : st.Holds h₀ zp i v h) : 2 ^ (8 * i) = (2 ^ 32) ^ st.zpOffset * 2 ^ st.lbits := by
  rw [← hst.bits, ← Nat.pow_mul, ← Nat.pow_add, Nat.add_comm]

/-- The accumulator with the next byte. -/
lemma InputState.Holds.toNat_or {h₀ h : LimbHeap} {zp i v : ℕ} {st : InputState}
    (hst : st.Holds h₀ zp i v h) (hlbits : st.lbits ≤ 24) (b : Natural8) :
    (st.limb ||| b.setWidth 32 <<< st.lbits).toNat =
      (v + 2 ^ (8 * i) * b.toNat) / (2 ^ 32) ^ st.zpOffset := by
  have hpos : 0 < (2 ^ 32) ^ st.zpOffset := Nat.pow_pos (by decide)
  have hlimb : st.limb.toNat < 2 ^ st.lbits := by
    rw [hst.limb]
    refine Nat.div_lt_of_lt_mul ?_
    rw [← hst.pow_eq]
    exact hst.lt
  have hb := b.isLt
  have hwide : (b.setWidth 32).toNat = b.toNat := by
    rw [BitVec.toNat_setWidth, Nat.mod_eq_of_lt (by omega)]
  have hshift : (b.setWidth 32 <<< st.lbits).toNat = b.toNat * 2 ^ st.lbits := by
    rw [BitVec.toNat_shiftLeft, hwide, Nat.shiftLeft_eq, Nat.mod_eq_of_lt]
    calc b.toNat * 2 ^ st.lbits < 2 ^ 8 * 2 ^ st.lbits :=
          Nat.mul_lt_mul_of_pos_right hb (Nat.two_pow_pos _)
      _ ≤ 2 ^ 8 * 2 ^ 24 := Nat.mul_le_mul_left _ (Nat.pow_le_pow_right (by decide) hlbits)
      _ = 2 ^ 32 := by norm_num
  rw [BitVec.toNat_or, hshift, Nat.or_comm, ← Nat.shiftLeft_eq,
    ← Nat.shiftLeft_add_eq_or_of_lt hlimb, Nat.shiftLeft_eq, hst.pow_eq, Nat.mul_assoc,
    Nat.add_mul_div_left _ _ hpos, hst.limb]
  ring

/-- **One iteration of `input`.** -/
lemma inputStep_holds {h₀ h : LimbHeap} {zp i v : ℕ} {st : InputState} {source : List Natural8}
    (hst : st.Holds h₀ zp i v h) (hbyte : st.lbits % 8 = 0) {b : Natural8}
    (hb : byteItem source st.dpOffset = some b) (hroom : 8 * (i + 1) ≤ 32 * (h₀ zp).length) :
    ∃ st' h', inputStep zp source st h = some (st', h') ∧ st'.dpOffset = st.dpOffset - 1 ∧
      st'.lbits % 8 = 0 ∧ st'.Holds h₀ zp (i + 1) (v + 2 ^ (8 * i) * b.toNat) h' := by
  have hlbits : st.lbits ≤ 24 := by
    have := hst.lbits_lt
    omega
  have hbits := hst.bits
  have hlimb := hst.toNat_or hlbits b
  have hlt : v + 2 ^ (8 * i) * b.toNat < 2 ^ (8 * (i + 1)) := by
    have hmul : 2 ^ (8 * i) * (b.toNat + 1) ≤ 2 ^ (8 * i) * 2 ^ 8 := Nat.mul_le_mul_left _ b.isLt
    have hv := hst.lt
    rw [Nat.mul_add, Nat.mul_one] at hmul
    rw [Nat.mul_add, Nat.mul_one, Nat.pow_add]
    omega
  -- the limbs stored so far do not depend on the next byte
  have hstored : ofNat 32 st.zpOffset (v + 2 ^ (8 * i) * b.toNat) = ofNat 32 st.zpOffset v := by
    rw [hst.pow_eq, Nat.mul_assoc, ofNat_add_mul]
  rw [inputStep, hb]
  simp only [Option.bind_eq_bind, Option.bind_some]
  by_cases hfull : 32 ≤ st.lbits + 8
  · have hzp : st.zpOffset < (h₀ zp).length := by omega
    have hlen : 0 + (ofNat 32 st.zpOffset v).length ≤ (h₀ zp).length := by
      rw [length_ofNat]
      omega
    have hput : h.put zp st.zpOffset (st.limb ||| b.setWidth 32 <<< st.lbits) =
        some (h.store zp st.zpOffset [st.limb ||| b.setWidth 32 <<< st.lbits]) :=
      put_eq (by rw [hst.heap, length_store hlen]; exact hzp)
    have hnew : ofNat 32 (st.zpOffset + 1) (v + 2 ^ (8 * i) * b.toNat) =
        ofNat 32 st.zpOffset v ++ [st.limb ||| b.setWidth 32 <<< st.lbits] := by
      rw [ofNat_add, hstored, ← hlimb, ofNat, ofNat, BitVec.ofNat_toNat, BitVec.setWidth_eq]
    have hend : 8 * (i + 1) = 32 * (st.zpOffset + 1) := by omega
    rw [if_pos hfull, hput]
    refine ⟨_, _, rfl, ?_, ?_, ?_, ?_, ?_, ?_, hlt⟩
    · show st.dpOffset + 1 - 2 = st.dpOffset - 1
      omega
    · show (st.lbits + 8 - 32) % 8 = 0
      omega
    · show h.store zp st.zpOffset _ = h₀.store zp 0 (ofNat 32 (st.zpOffset + 1) _)
      rw [hnew, hst.heap, store_store (by rw [length_ofNat, Nat.zero_add]) hlen]
    · have hzero : st.lbits + 8 - 32 = 0 := by omega
      show (b.setWidth 32 >>> (8 - (st.lbits + 8 - 32))).toNat = _ / (2 ^ 32) ^ (st.zpOffset + 1)
      have hb' := b.isLt
      rw [hzero, Nat.sub_zero, BitVec.toNat_ushiftRight, BitVec.toNat_setWidth,
        Nat.mod_eq_of_lt (by omega), Nat.shiftRight_eq_div_pow, Nat.div_eq_of_lt hb',
        ← Nat.pow_mul, ← hend, Nat.div_eq_of_lt hlt]
    · show st.lbits + 8 - 32 + 32 * (st.zpOffset + 1) = 8 * (i + 1)
      omega
    · show st.lbits + 8 - 32 < 32
      omega
  · rw [if_neg hfull]
    refine ⟨_, _, rfl, ?_, ?_, ?_, hlimb, ?_, ?_, hlt⟩
    · show st.dpOffset + 1 - 2 = st.dpOffset - 1
      omega
    · show (st.lbits + 8) % 8 = 0
      omega
    · show h = h₀.store zp 0 (ofNat 32 st.zpOffset _)
      rw [hstored]
      exact hst.heap
    · show st.lbits + 8 + 32 * st.zpOffset = 8 * (i + 1)
      omega
    · show st.lbits + 8 < 32
      omega

/-- **The loop of `input`** over bytes that are given from the low end.

**Proof sketch.** Induction on the bytes, with the number read so far. -/
lemma inputLoop_holds {h₀ h : LimbHeap} {zp i v : ℕ} {st : InputState} {source : List Natural8}
    (hst : st.Holds h₀ zp i v h) (hbyte : st.lbits % 8 = 0) (bs : List Natural8)
    (hbs : ∀ (k : ℕ) (b : Natural8), bs[k]? = some b →
      byteItem source (st.dpOffset - k) = some b)
    (hroom : 8 * (i + bs.length) ≤ 32 * (h₀ zp).length) :
    ∃ st' h', inputLoop zp source bs.length st h = some (st', h') ∧
      st'.Holds h₀ zp (i + bs.length) (v + 2 ^ (8 * i) * Limbs.value bs) h' := by
  induction bs generalizing i v st h with
  | nil =>
    refine ⟨st, h, rfl, ?_⟩
    simpa using hst
  | cons b bs ih =>
    rw [List.length_cons] at hroom
    have hb : byteItem source st.dpOffset = some b := by
      have h0 := hbs 0 b rfl
      rwa [Nat.cast_zero, Int.sub_zero] at h0
    obtain ⟨st₁, h₁, hstep, hdp, hbyte₁, hst₁⟩ := inputStep_holds hst hbyte hb (by omega)
    obtain ⟨st₂, h₂, hloop, hst₂⟩ := ih hst₁ hbyte₁ (fun k c hc => by
      have hk := hbs (k + 1) c (by rwa [List.getElem?_cons_succ])
      rw [hdp]
      rwa [show st.dpOffset - 1 - (k : ℤ) = st.dpOffset - ((k + 1 : ℕ) : ℤ) by omega])
      (by omega)
    refine ⟨st₂, h₂, ?_, ?_⟩
    · rw [List.length_cons, inputLoop, hstep, Option.bind_some]
      exact hloop
    · have hval : v + 2 ^ (8 * i) * b.toNat + 2 ^ (8 * (i + 1)) * Limbs.value bs =
          v + 2 ^ (8 * i) * Limbs.value (b :: bs) := by
        rw [value_cons, Nat.mul_add 8, Nat.pow_add]
        ring
      rw [List.length_cons, ← hval, ← Nat.add_assoc, Nat.add_right_comm]
      exact hst₂

/-- The bits that are left after the loop are stored in one more limb. -/
lemma InputState.Holds.put_rest {h₀ h : LimbHeap} {zp i v : ℕ} {st : InputState}
    (hst : st.Holds h₀ zp i v h) (hroom : (i * 8 + 32 - 1) / 32 ≤ (h₀ zp).length) :
    (if st.lbits ≠ 0 then h.put zp st.zpOffset st.limb else some h) =
      some (h₀.store zp 0 (ofNat 32 ((i * 8 + 32 - 1) / 32) v)) := by
  have hbits := hst.bits
  have hlt := hst.lbits_lt
  by_cases hrest : st.lbits = 0
  · have hlimbs : (i * 8 + 32 - 1) / 32 = st.zpOffset := by omega
    rw [if_neg (not_not.mpr hrest), hlimbs, ← hst.heap]
  · have hlimbs : (i * 8 + 32 - 1) / 32 = st.zpOffset + 1 := by omega
    have hlen : 0 + (ofNat 32 st.zpOffset v).length ≤ (h₀ zp).length := by
      rw [length_ofNat]
      omega
    have hput : h.put zp st.zpOffset st.limb = some (h.store zp st.zpOffset [st.limb]) :=
      put_eq (by rw [hst.heap, length_store hlen]; omega)
    have hlimb : ofNat 32 1 (v / (2 ^ 32) ^ st.zpOffset) = [st.limb] := by
      rw [ofNat, ofNat, ← hst.limb, BitVec.ofNat_toNat, BitVec.setWidth_eq]
    rw [if_pos hrest, hput, hst.heap, store_store (by rw [length_ofNat, Nat.zero_add]) hlen, hlimbs,
      ofNat_add, hlimb]

/-- Bytes with the most significant one first. -/
lemma value_reverse (a : List Natural8) :
    Limbs.value a.reverse = IntegerX.makeFromBytes a := by
  induction a using List.reverseRecOn with
  | nil => rfl
  | append_singleton a b ih =>
    rw [List.reverse_append, List.reverse_singleton, List.singleton_append, value_cons, ih,
      IntegerX.makeFromBytes_concat]
    ring

/-- The bytes of a part of an array from its last one down. -/
lemma byteItem_reverse {source : List Natural8} {off count : ℕ}
    (hsource : off + count ≤ source.length) {k : ℕ} {b : Natural8}
    (hb : (Special.slice source off count).reverse[k]? = some b) :
    byteItem source ((off : ℤ) + (count - 1) - k) = some b := by
  have hlen : (Special.slice source off count).length = count := Special.length_slice hsource
  obtain ⟨hk, -⟩ := List.getElem?_eq_some_iff.mp hb
  rw [List.length_reverse, hlen] at hk
  have hindex : (off : ℤ) + (count - 1) - k = ((off + (count - 1 - k) : ℕ) : ℤ) := by omega
  rw [List.getElem?_reverse (by omega), hlen, Special.slice, List.getElem?_take_of_lt (by omega),
    List.getElem?_drop] at hb
  rw [byteItem, hindex, if_pos (Int.natCast_nonneg _), Int.toNat_natCast]
  exact hb

/-- **`input`** makes the number that the bytes stand for.

**Proof sketch.** The loop goes through the bytes from the last one down. After it the full limbs
are stored and the rest is stored behind them; `normalize` finds the limbs that are needed. -/
lemma input_outcome {m : IntegerXMemory} (hm : m.WellFormed) {z : ℕ} (hz : z < m.objects)
    {source : List Natural8} {off count : ℕ} (hsource : off + count ≤ source.length) :
    ∃ m', m.input z count source off = some m' ∧
      m.Outcome m' z (IntegerX.makeFromBytes (Special.slice source off count)) := by
  set zsize := (count * 8 + 32 - 1) / 32 with hzsize
  set V := IntegerX.makeFromBytes (Special.slice source off count) with hV
  obtain ⟨hext, hcap⟩ := extends_resize hm hz zsize
  set m₁ := m.resize z zsize with hm₁
  have hlen : (Special.slice source off count).reverse.length = count := by
    rw [List.length_reverse, Special.length_slice hsource]
  have hroom : zsize ≤ (m₁.arrays (m₁.item z)).length := hcap
  have hstart : InputState.Holds m₁.arrays (m₁.item z) 0 0
      ⟨0, 0, 0, (off : ℤ) + (count - 1)⟩ m₁.arrays := by
    refine ⟨?_, (Nat.zero_div _).symm, rfl, Nat.succ_pos 31, Nat.one_pos⟩
    rw [ofNat, store_nil]
  obtain ⟨st, h, hloop, hst⟩ := inputLoop_holds hstart rfl
    (Special.slice source off count).reverse (fun k b hb => byteItem_reverse hsource hb)
    (by rw [hlen]; omega)
  rw [hlen, Nat.zero_add, Nat.zero_add, Nat.mul_zero, pow_zero, Nat.one_mul, value_reverse,
    ← hV] at hst
  rw [hlen] at hloop
  have hlt : V < (2 ^ 32) ^ zsize := by
    calc V < 2 ^ (8 * count) := hst.lt
      _ ≤ 2 ^ (32 * zsize) := Nat.pow_le_pow_right (by decide) (by omega)
      _ = (2 ^ 32) ^ zsize := by rw [Nat.pow_mul]
  obtain ⟨wsize, hnorm, hout⟩ := hext.outcome_normalize hz hcap hlt false
  refine ⟨_, ?_, hout⟩
  simp only [input, ← hzsize, ← hm₁, hloop, Option.bind_eq_bind, Option.bind_some,
    hst.put_rest hroom, hnorm]
  rfl

/-! ## What is written -/

lemma bytePut_eq {a : List Natural8} {i : ℕ} (hi : i < a.length) (b : Natural8) :
    bytePut a i b = some (a.set i b) := by
  rw [bytePut, if_pos ⟨Int.natCast_nonneg i, by exact_mod_cast hi⟩, Int.toNat_natCast]

/-- The bits that are still to be written stand for `v`: they are in the accumulator and in the
limbs that were not read yet. -/
structure OutputState.Holds (h : LimbHeap) (zp zend v : ℕ) (st : OutputState) : Prop where
  /-- The bits. -/
  value : st.limb.toNat + 2 ^ st.lbits * h.number zp st.zpOffset (zend - st.zpOffset) = v
  /-- The accumulator has that many bits. -/
  limb_lt : st.limb.toNat < 2 ^ st.lbits
  /-- Full bytes are in the accumulator. -/
  lbits_mod : st.lbits % 8 = 0
  /-- No limb behind the number was read. -/
  le : st.zpOffset ≤ zend

/-- A limb without its low byte. -/
lemma toNat_ushiftRight_eight (d : Natural32) : (d >>> 8).toNat = d.toNat / 256 := by
  rw [BitVec.toNat_ushiftRight, Nat.shiftRight_eq_div_pow]

/-- The low byte of a limb. -/
lemma setWidth_eight (d : Natural32) (w : ℕ) :
    d.setWidth 8 = BitVec.ofNat 8 (d.toNat + 256 * w) := by
  apply BitVec.eq_of_toNat_eq
  rw [BitVec.toNat_setWidth, BitVec.toNat_ofNat]
  omega

/-- **One iteration of `output`** writes the low byte of the number. -/
lemma outputStep_holds {h : LimbHeap} {zp zend v : ℕ} {st : OutputState}
    (hst : st.Holds h zp zend v) (hzend : zend ≤ (h zp).length) {k : ℕ} (hk : st.dpOffset = k)
    (hroom : k < st.dp.length) :
    ∃ st', outputStep zp zend h st = some st' ∧ st'.dpOffset = st.dpOffset - 1 ∧
      st'.dp = st.dp.set k (BitVec.ofNat 8 v) ∧ st'.Holds h zp zend (v / 256) := by
  have hval := hst.value
  have hlt := hst.limb_lt
  have hmod := hst.lbits_mod
  have hle := hst.le
  have hput (b : Natural8) : bytePut st.dp st.dpOffset b = some (st.dp.set k b) := by
    rw [hk, bytePut_eq hroom]
  have hdp : st.dpOffset + 1 - 2 = st.dpOffset - 1 := by omega
  rw [outputStep]
  by_cases hfull : 8 ≤ st.lbits
  · obtain ⟨l, hl⟩ : ∃ l, st.lbits = 8 + l := ⟨st.lbits - 8, by omega⟩
    rw [hl, Nat.pow_add, Nat.mul_assoc] at hval
    rw [hl, Nat.pow_add] at hlt
    rw [if_pos hfull, hput, setWidth_eight _ (2 ^ l * h.number zp st.zpOffset (zend - st.zpOffset)),
      hval]
    refine ⟨_, rfl, hdp, rfl, ?_, ?_, ?_, hle⟩
    · show (st.limb >>> 8).toNat +
        2 ^ (st.lbits - 8) * h.number zp st.zpOffset (zend - st.zpOffset) = v / 256
      rw [toNat_ushiftRight_eight, hl, Nat.add_sub_cancel_left, ← hval]
      omega
    · show (st.limb >>> 8).toNat < 2 ^ (st.lbits - 8)
      rw [toNat_ushiftRight_eight, hl, Nat.add_sub_cancel_left]
      omega
    · show (st.lbits - 8) % 8 = 0
      omega
  · -- the accumulator is empty
    have hl : st.lbits = 0 := by omega
    rw [hl, pow_zero, Nat.one_mul] at hval
    rw [hl, pow_zero] at hlt
    have hlimb : st.limb = 0 := BitVec.eq_of_toNat_eq (Nat.lt_one_iff.mp hlt)
    rw [if_neg hfull]
    by_cases hend : st.zpOffset = zend
    · have hzero : v = 0 := by
        rw [← hval, hlimb, hend, Nat.sub_self, LimbHeap.number, segment_zero]
        rfl
      rw [if_pos hend, hput, hlimb, hl, hzero]
      refine ⟨_, rfl, hdp, rfl, ?_, ?_, show 24 % 8 = 0 from rfl, hle⟩
      · show 0 + 2 ^ 24 * h.number zp st.zpOffset (zend - st.zpOffset) = 0
        rw [hend, Nat.sub_self, LimbHeap.number, segment_zero]
        rfl
      · exact Nat.two_pow_pos _
    · obtain ⟨n, hn⟩ : ∃ n, zend - st.zpOffset = n + 1 := ⟨zend - st.zpOffset - 1, by omega⟩
      obtain ⟨d, hd, hseg⟩ := exists_item (h := h) (a := zp) (i := st.zpOffset) (n := n) (by omega)
      have hnum : h.number zp st.zpOffset (n + 1) =
          d.toNat + 2 ^ 32 * h.number zp (st.zpOffset + 1) n := by
        rw [LimbHeap.number, hseg, value_cons, LimbHeap.number]
      rw [hlimb, hn, hnum] at hval
      have hval' : d.toNat + 256 * (2 ^ 24 * h.number zp (st.zpOffset + 1) n) = v := by
        rw [← hval]
        show _ = 0 + _
        omega
      have hor : (0 : Natural32) ||| d <<< 0 = d := by simp
      rw [if_neg hend, hd]
      simp only [Option.bind_eq_bind, Option.bind_some]
      rw [hput, hlimb, hl, hor, setWidth_eight _ (2 ^ 24 * h.number zp (st.zpOffset + 1) n), hval']
      have hrest : zend - (st.zpOffset + 1) = n := by omega
      have hd' := d.isLt
      refine ⟨_, rfl, hdp, rfl, ?_, ?_, show 24 % 8 = 0 from rfl, ?_⟩
      · show (d >>> 8).toNat +
          2 ^ 24 * h.number zp (st.zpOffset + 1) (zend - (st.zpOffset + 1)) = v / 256
        rw [toNat_ushiftRight_eight, hrest, ← hval']
        omega
      · show (d >>> 8).toNat < 2 ^ 24
        rw [toNat_ushiftRight_eight]
        omega
      · show st.zpOffset + 1 ≤ zend
        omega

/-- **The loop of `output`** writes the low bytes of the number, the last one in front.

**Proof sketch.** Induction on the number of bytes; the byte that is written first stands behind
the others. -/
lemma outputLoop_eq {h : LimbHeap} {zp zend v : ℕ} {st : OutputState} (n : ℕ)
    (hst : st.Holds h zp zend v) (hzend : zend ≤ (h zp).length) {k : ℕ}
    (hk : st.dpOffset = (k : ℤ) + (n - 1)) (hroom : k + n ≤ st.dp.length) :
    ∃ st', outputLoop zp zend h n st = some st' ∧
      st'.dp = Special.write st.dp k (ofNat 8 n v).reverse := by
  induction n generalizing st v with
  | zero =>
    refine ⟨st, rfl, ?_⟩
    rw [ofNat, List.reverse_nil, Special.write_nil]
  | succ n ih =>
    obtain ⟨st₁, hstep, hdp, hset, hst₁⟩ :=
      outputStep_holds hst hzend (k := k + n) (by omega) (by omega)
    obtain ⟨st₂, hloop, hwrite⟩ := ih hst₁ (by omega) (by rw [hset, List.length_set]; omega)
    refine ⟨st₂, ?_, ?_⟩
    · rw [outputLoop, hstep, Option.bind_some]
      exact hloop
    · have hlen : (ofNat 8 n (v / 256)).reverse.length = n := by
        rw [List.length_reverse, length_ofNat]
      have hbehind := Special.write_set (a := st.dp) (u := (ofNat 8 n (v / 256)).reverse) (i := k)
        (BitVec.ofNat 8 v) (by omega)
      rw [hlen] at hbehind
      rw [hwrite, hset, hbehind, ofNat, List.reverse_cons]
      norm_num

/-- The number of bits of a number with high limb `d`. -/
lemma size_add_mul {u k d : ℕ} (hu : u < 2 ^ k) (hd : 0 < d) :
    (u + 2 ^ k * d).size = k + d.size := by
  have hlow : k + (d.size - 1) < (u + 2 ^ k * d).size := by
    rw [Nat.lt_size, Nat.pow_add]
    have hmul : 2 ^ k * 2 ^ (d.size - 1) ≤ 2 ^ k * d :=
      Nat.mul_le_mul_left _ (Nat.lt_size.mp (Nat.sub_lt (Nat.size_pos.mpr hd) Nat.one_pos))
    omega
  have hhigh : (u + 2 ^ k * d).size ≤ k + d.size := by
    rw [Nat.size_le, Nat.pow_add]
    calc u + 2 ^ k * d < 2 ^ k + 2 ^ k * d := Nat.add_lt_add_right hu _
      _ = 2 ^ k * (d + 1) := by ring
      _ ≤ 2 ^ k * 2 ^ d.size := Nat.mul_le_mul_left _ (Nat.lt_size_self d)
  have := Nat.size_pos.mpr hd
  omega

/-- The number of bits of a normalised object, as `size_in_base` and `output` compute it. -/
lemma Normalised.bits_eq {m : IntegerXMemory} {x : ℕ} (hx : m.Normalised x)
    (hne : (m.count x).natAbs ≠ 0) :
    ∃ d, m.arrays.item (m.item x) ((m.count x).natAbs - 1) = some d ∧
      (m.count x).natAbs * 32 - leadingZeros d = (m.magnitude x).size := by
  obtain ⟨n, hn⟩ : ∃ n, (m.count x).natAbs = n + 1 := ⟨(m.count x).natAbs - 1, by omega⟩
  have hcap : 0 + (n + 1) ≤ (m.arrays (m.item x)).length := by
    rw [Nat.zero_add, ← hn]
    exact hx.count_le
  have htop := hx.top (by omega)
  obtain ⟨d, hd, hnum⟩ := m.arrays.exists_last hcap
  rw [Nat.zero_add] at hd
  have hlt : m.arrays.number (m.item x) 0 n < (2 ^ 32) ^ n := m.arrays.number_lt (by omega)
  rw [← Nat.pow_mul] at hlt hnum
  rw [hn, Nat.add_sub_cancel] at htop ⊢
  have hpos : 0 < d.toNat := by
    rw [Nat.pos_iff_ne_zero]
    exact fun h0 => htop (hd.trans (congrArg some (BitVec.eq_of_toNat_eq h0)))
  have hsize : d.toNat.size ≤ 32 := Nat.size_le.mpr d.isLt
  refine ⟨d, hd, ?_⟩
  rw [magnitude, hn, hnum, size_add_mul hlt hpos, leadingZeros]
  omega

/-- The number of digits of `b` bits for a number of bits. -/
lemma length_digits_two_pow {b : ℕ} (hb : 0 < b) (n : ℕ) :
    (Nat.digits (2 ^ b) n).length = (n.size + (b - 1)) / b := by
  refine eq_of_forall_ge_iff fun k => ?_
  have hbits : (n.size + (b - 1)) / b ≤ k ↔ n.size ≤ b * k := by
    rw [Nat.div_le_iff_le_mul_add_pred hb]
    omega
  rw [Nat.digits_length_le_iff (Nat.one_lt_two_pow hb.ne'), ← Nat.pow_mul, hbits, Nat.size_le]

/-- The number of bytes for a number of bits. -/
lemma length_digits_eq (n : ℕ) : (Nat.digits 256 n).length = (n.size + 7) / 8 :=
  length_digits_two_pow (show 0 < 8 by decide) n

/-- The bytes that `output` writes for a number, as words. -/
lemma output_eq_reverse (n : ℕ) :
    IntegerX.output n = (ofNat 8 (IntegerX.output n).length n).reverse := by
  have hvalue : Limbs.value (IntegerX.output n).reverse = n := by
    rw [value_reverse, IntegerX.makeFromBytes_output]
  have hwords := ofNat_value (IntegerX.output n).reverse
  rw [hvalue, List.length_reverse] at hwords
  rw [hwords, List.reverse_reverse]

lemma magnitude_eq_zero {m : IntegerXMemory} {x : ℕ} (h : (m.count x).natAbs = 0) :
    m.magnitude x = 0 := by
  rw [magnitude, h, LimbHeap.number, segment_zero, value_nil]

/-- **`bytes`** is the number of bytes of the number. -/
lemma Normalised.bytes_eq {m : IntegerXMemory} {x : ℕ} (hx : m.Normalised x) :
    m.bytes x = some (IntegerX.bytes (m.magnitude x)) := by
  by_cases hzero : (m.count x).natAbs = 0
  · rw [bytes, bits, if_pos hzero, magnitude_eq_zero hzero]
    rfl
  · obtain ⟨d, hd, hbits⟩ := hx.bits_eq hzero
    have hpos : 1 ≤ (m.magnitude x).size := by
      have hmag := (normalised_iff.mp hx).2 (by omega)
      exact Nat.size_pos.mpr (lt_of_lt_of_le (Nat.pow_pos (by decide)) hmag)
    rw [bytes, bits, if_neg hzero, hd, Option.map_some, Option.map_some, hbits, IntegerX.bytes,
      length_digits_eq, Nat.max_eq_right (by omega)]

/-- **`output`** writes the bytes of the absolute value. -/
lemma Normalised.output_eq {m : IntegerXMemory} {x : ℕ} (hx : m.Normalised x)
    (target : List Natural8) (off : ℕ)
    (hroom : off + (IntegerX.output (m.magnitude x)).length ≤ target.length) :
    m.output target off x = some (Special.write target off (IntegerX.output (m.magnitude x))) := by
  rw [output]
  by_cases hzero : (m.count x).natAbs = 0
  · rw [if_pos hzero, magnitude_eq_zero hzero]
    exact congrArg some (Special.write_nil target off).symm
  · obtain ⟨d, hd, hbits⟩ := hx.bits_eq hzero
    have hcount : ((m.count x).natAbs * 32 - leadingZeros d + 8 - 1) / 8 =
        (IntegerX.output (m.magnitude x)).length := by
      rw [hbits, IntegerX.length_output, length_digits_eq]
      omega
    have hstart : OutputState.Holds m.arrays (m.item x) (m.count x).natAbs (m.magnitude x)
        ⟨0, 0, 0, (off : ℤ) + ((IntegerX.output (m.magnitude x)).length - 1), target⟩ := by
      refine ⟨?_, Nat.one_pos, rfl, Nat.zero_le _⟩
      show 0 + 2 ^ 0 * m.arrays.number (m.item x) 0 ((m.count x).natAbs - 0) = m.magnitude x
      rw [Nat.zero_add, pow_zero, Nat.one_mul, Nat.sub_zero, magnitude]
    obtain ⟨st, hloop, hdp⟩ := outputLoop_eq _ hstart hx.count_le rfl hroom
    rw [← output_eq_reverse] at hdp
    simp only [if_neg hzero, hd, Option.bind_eq_bind, Option.bind_some, hcount, hloop, hdp]
    rfl

/-- **`as_bytes`** agrees with the conversion of the number. -/
lemma Normalised.asBytes_eq {m : IntegerXMemory} {x : ℕ} (hx : m.Normalised x) :
    m.asBytes x = some (IntegerX.asBytes (m.magnitude x)) := by
  have hle : (IntegerX.output (m.magnitude x)).length ≤ IntegerX.bytes (m.magnitude x) := by
    rw [IntegerX.length_output]
    exact le_max_right _ _
  rw [asBytes, hx.bytes_eq, Option.bind_some]
  exact hx.output_eq _ 0 (by rw [List.length_replicate]; omega)

/-- **`as_fixed_width_byte_array`** agrees with the conversion of the number. -/
lemma Normalised.asFixedWidthByteArray_eq {m : IntegerXMemory} {x w : ℕ} (hx : m.Normalised x)
    (hw : IntegerX.bytes (m.magnitude x) ≤ w) :
    m.asFixedWidthByteArray x w = some (IntegerX.asFixedWidthByteArray (m.magnitude x) w) := by
  have hle : (IntegerX.output (m.magnitude x)).length ≤ IntegerX.bytes (m.magnitude x) := by
    rw [IntegerX.length_output]
    exact le_max_right _ _
  have hone : 1 ≤ IntegerX.bytes (m.magnitude x) := le_max_left _ _
  have hn : ((w : ℤ) - 1 - 0 + 1).toNat = w := by omega
  have hoff : (0 : ℤ) + ((w : ℤ) - 1 - 0 - IntegerX.bytes (m.magnitude x) + 1) =
      ((w - IntegerX.bytes (m.magnitude x) : ℕ) : ℤ) := by omega
  have hlast : w - 1 - 0 + 1 = w := by omega
  simp only [asFixedWidthByteArray, toFixedWidthByteArray, hx.bytes_eq, Option.bind_some, hn, hoff,
    IntegerX.asFixedWidthByteArray, IntegerX.toFixedWidthByteArray, hlast, Nat.zero_add]
  refine hx.output_eq _ _ ?_
  rw [Special.fillWith, Special.length_write (by simp), List.length_replicate]
  omega

/-! ## Round trips -/

/-- **`make_from_bytes`** of all bytes of an array. -/
lemma makeFromBytes_outcome {a : List Natural8} (ha : a ≠ []) :
    ∃ m', makeFromBytes a 0 (a.length - 1) = some m' ∧ m'.Normalised 0 ∧
      m'.value 0 = IntegerX.makeFromBytes a ∧ m'.magnitude 0 = IntegerX.makeFromBytes a := by
  have hpos := List.length_pos_iff.mpr ha
  have hcount : a.length - 1 - 0 + 1 = a.length := by omega
  obtain ⟨m', hrun, hout⟩ := input_outcome (m := defaultCreate) ⟨by decide, by decide⟩
    (z := 0) (by decide) (show 0 + a.length ≤ a.length by omega)
  rw [Special.slice_zero_length] at hout
  refine ⟨m', ?_, hout.normalised, hout.value, ?_⟩
  · rw [makeFromBytes, hcount]
    exact hrun
  · have habs := congrArg Int.natAbs hout.value
    rw [IntegerXMemory.value, Int.natAbs_mul, Int.natAbs_natCast, Int.natAbs_natCast,
      Int.natAbs_sign] at habs
    by_cases hzero : m'.count 0 = 0
    · rw [magnitude_eq_zero (by rw [hzero]; rfl)] at habs ⊢
      rwa [Nat.mul_zero] at habs
    · rwa [if_neg hzero, Nat.one_mul] at habs

/-- The absolute value of a number that is not negative. -/
lemma magnitude_eq_value {m : IntegerXMemory} {x : ℕ} (h : 0 ≤ m.value x) :
    (m.magnitude x : ℤ) = m.value x := by
  rw [IntegerXMemory.value] at h ⊢
  rcases lt_trichotomy (m.count x) 0 with hneg | hzero | hpos
  · rw [Int.sign_eq_neg_one_of_neg hneg] at h ⊢
    omega
  · rw [hzero, magnitude_eq_zero (by rw [hzero]; rfl)]
    rfl
  · rw [Int.sign_eq_one_of_pos hpos, Int.one_mul]

/-- **Round trips.** For a normalised object that is not negative, `as_bytes` has `bytes` bytes, and
for every width that is not below `bytes`, `make_from_bytes` of `as_fixed_width_byte_array` is
normalised and stands for the same number. For bytes `a`, at least one, `make_from_bytes` is
normalised and its `as_fixed_width_byte_array` of that width is `a`. -/
theorem bytes_roundTrip (m : IntegerXMemory) (x : ℕ) (hx : m.Normalised x) (hpos : 0 ≤ m.value x)
    (a : List Natural8) (ha : a ≠ []) :
    (∃ n, m.bytes x = some n ∧ (∃ b, m.asBytes x = some b ∧ b.length = n) ∧
      ∀ w, n ≤ w → ∃ b m', m.asFixedWidthByteArray x w = some b ∧
        makeFromBytes b 0 (b.length - 1) = some m' ∧ m'.Normalised 0 ∧ m'.value 0 = m.value x) ∧
      ∃ m', makeFromBytes a 0 (a.length - 1) = some m' ∧ m'.Normalised 0 ∧
        m'.asFixedWidthByteArray 0 a.length = some a := by
  refine ⟨⟨_, hx.bytes_eq, ⟨_, hx.asBytes_eq, ?_⟩, ?_⟩, ?_⟩
  · have hle : (IntegerX.output (m.magnitude x)).length ≤ IntegerX.bytes (m.magnitude x) := by
      rw [IntegerX.length_output]
      exact le_max_right _ _
    rw [IntegerX.asBytes, Special.length_write (by rw [List.length_replicate]; omega),
      List.length_replicate]
  · intro w hw
    have hone : 1 ≤ IntegerX.bytes (m.magnitude x) := le_max_left _ _
    obtain ⟨-, -, hlen⟩ := IntegerX.asFixedWidthByteArray_eq hw
    obtain ⟨m', hmake, hnorm, hval, -⟩ := makeFromBytes_outcome
      (a := IntegerX.asFixedWidthByteArray (m.magnitude x) w)
      (List.ne_nil_of_length_pos (by omega))
    refine ⟨_, m', hx.asFixedWidthByteArray_eq hw, hmake, hnorm, ?_⟩
    rw [hval, IntegerX.makeFromBytes_asFixedWidthByteArray hw, magnitude_eq_value hpos]
  · obtain ⟨m', hmake, hnorm, -, hmag⟩ := makeFromBytes_outcome ha
    have hle : IntegerX.bytes (m'.magnitude 0) ≤ a.length := by
      have hstrip := IntegerX.length_strip_le a
      have hlen := List.length_pos_iff.mpr ha
      rw [hmag, IntegerX.bytes_makeFromBytes]
      omega
    refine ⟨m', hmake, hnorm, ?_⟩
    rw [hnorm.asFixedWidthByteArray_eq hle, hmag, IntegerX.asFixedWidthByteArray_makeFromBytes ha]

/-- The number `2 ^ 32 + 5`, and the bytes `0, 1, 2, 3, 4`. -/
theorem bytes_roundTrip_five :
    (∃ n, (single [5, 1] 2).bytes 0 = some n ∧
      (∃ b, (single [5, 1] 2).asBytes 0 = some b ∧ b.length = n) ∧
      ∀ w, n ≤ w → ∃ b m', (single [5, 1] 2).asFixedWidthByteArray 0 w = some b ∧
        makeFromBytes b 0 (b.length - 1) = some m' ∧ m'.Normalised 0 ∧
        m'.value 0 = (single [5, 1] 2).value 0) ∧
      ∃ m', makeFromBytes [0, 1, 2, 3, 4] 0 (5 - 1) = some m' ∧ m'.Normalised 0 ∧
        m'.asFixedWidthByteArray 0 5 = some [0, 1, 2, 3, 4] :=
  bytes_roundTrip (single [5, 1] 2) 0 ⟨by decide, by decide⟩ (by decide) [0, 1, 2, 3, 4] (by decide)

end IntegerXMemory

end EiffelWeb
