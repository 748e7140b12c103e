import Mathlib.Data.List.Basic
import Mathlib.Tactic.Common
import Mathlib.Tactic.IntervalCases
import EiffelWeb.Crypto.ArrayFacilities

set_option relaxedAutoImplicit false
set_option autoImplicit false

/-!
# The AES engine

The classes `AES_COMMON` and `AES_ENGINE`: the boxes, the arithmetic of GF(2⁸), and the operations
on the state, four columns of 32 bits. A column is packed with the first row in its most significant
byte. Here each operation is stated on the bytes of a column, and the inverse operations are shown
to be inverse.

## Main definitions

* `AesCommon.s`, `AesCommon.si`, `AesCommon.subBytes`, `AesCommon.invSubBytes`
* `AesEngine.multiplyAndReduce` — the product in GF(2⁸).
* `Columns` — the state, with `subColumns`, `shiftRows`, `mixColumns`, `addRoundKey` and their
  inverses.

## Main results

* `AesEngine.multiplyAndReduce_xor` — the product is additive.
* `AesEngine.mixColumn_ofBytes`, `AesEngine.invMixColumn_ofBytes` — the mixes on bytes.
* `Columns.invSubColumns_subColumns`, `Columns.invShiftRows_shiftRows`,
  `Columns.invMixColumns_mixColumns`, `Columns.addRoundKey_addRoundKey`
-/

namespace EiffelWeb

open Special Word

/-! ## Boxes -/

namespace AesCommon

/-- `S`: the box. -/
def s : List Natural8 :=
   [0x63, 0x7c, 0x77, 0x7b, 0xf2, 0x6b, 0x6f, 0xc5, 0x30, 0x01, 0x67, 0x2b, 0xfe, 0xd7, 0xab, 0x76,
    0xca, 0x82, 0xc9, 0x7d, 0xfa, 0x59, 0x47, 0xf0, 0xad, 0xd4, 0xa2, 0xaf, 0x9c, 0xa4, 0x72, 0xc0,
    0xb7, 0xfd, 0x93, 0x26, 0x36, 0x3f, 0xf7, 0xcc, 0x34, 0xa5, 0xe5, 0xf1, 0x71, 0xd8, 0x31, 0x15,
    0x04, 0xc7, 0x23, 0xc3, 0x18, 0x96, 0x05, 0x9a, 0x07, 0x12, 0x80, 0xe2, 0xeb, 0x27, 0xb2, 0x75,
    0x09, 0x83, 0x2c, 0x1a, 0x1b, 0x6e, 0x5a, 0xa0, 0x52, 0x3b, 0xd6, 0xb3, 0x29, 0xe3, 0x2f, 0x84,
    0x53, 0xd1, 0x00, 0xed, 0x20, 0xfc, 0xb1, 0x5b, 0x6a, 0xcb, 0xbe, 0x39, 0x4a, 0x4c, 0x58, 0xcf,
    0xd0, 0xef, 0xaa, 0xfb, 0x43, 0x4d, 0x33, 0x85, 0x45, 0xf9, 0x02, 0x7f, 0x50, 0x3c, 0x9f, 0xa8,
    0x51, 0xa3, 0x40, 0x8f, 0x92, 0x9d, 0x38, 0xf5, 0xbc, 0xb6, 0xda, 0x21, 0x10, 0xff, 0xf3, 0xd2,
    0xcd, 0x0c, 0x13, 0xec, 0x5f, 0x97, 0x44, 0x17, 0xc4, 0xa7, 0x7e, 0x3d, 0x64, 0x5d, 0x19, 0x73,
    0x60, 0x81, 0x4f, 0xdc, 0x22, 0x2a, 0x90, 0x88, 0x46, 0xee, 0xb8, 0x14, 0xde, 0x5e, 0x0b, 0xdb,
    0xe0, 0x32, 0x3a, 0x0a, 0x49, 0x06, 0x24, 0x5c, 0xc2, 0xd3, 0xac, 0x62, 0x91, 0x95, 0xe4, 0x79,
    0xe7, 0xc8, 0x37, 0x6d, 0x8d, 0xd5, 0x4e, 0xa9, 0x6c, 0x56, 0xf4, 0xea, 0x65, 0x7a, 0xae, 0x08,
    0xba, 0x78, 0x25, 0x2e, 0x1c, 0xa6, 0xb4, 0xc6, 0xe8, 0xdd, 0x74, 0x1f, 0x4b, 0xbd, 0x8b, 0x8a,
    0x70, 0x3e, 0xb5, 0x66, 0x48, 0x03, 0xf6, 0x0e, 0x61, 0x35, 0x57, 0xb9, 0x86, 0xc1, 0x1d, 0x9e,
    0xe1, 0xf8, 0x98, 0x11, 0x69, 0xd9, 0x8e, 0x94, 0x9b, 0x1e, 0x87, 0xe9, 0xce, 0x55, 0x28, 0xdf,
    0x8c, 0xa1, 0x89, 0x0d, 0xbf, 0xe6, 0x42, 0x68, 0x41, 0x99, 0x2d, 0x0f, 0xb0, 0x54, 0xbb, 0x16]

/-- `Si`: the inverse box. -/
def si : List Natural8 :=
   [0x52, 0x09, 0x6a, 0xd5, 0x30, 0x36, 0xa5, 0x38, 0xbf, 0x40, 0xa3, 0x9e, 0x81, 0xf3, 0xd7, 0xfb,
    0x7c, 0xe3, 0x39, 0x82, 0x9b, 0x2f, 0xff, 0x87, 0x34, 0x8e, 0x43, 0x44, 0xc4, 0xde, 0xe9, 0xcb,
    0x54, 0x7b, 0x94, 0x32, 0xa6, 0xc2, 0x23, 0x3d, 0xee, 0x4c, 0x95, 0x0b, 0x42, 0xfa, 0xc3, 0x4e,
    0x08, 0x2e, 0xa1, 0x66, 0x28, 0xd9, 0x24, 0xb2, 0x76, 0x5b, 0xa2, 0x49, 0x6d, 0x8b, 0xd1, 0x25,
    0x72, 0xf8, 0xf6, 0x64, 0x86, 0x68, 0x98, 0x16, 0xd4, 0xa4, 0x5c, 0xcc, 0x5d, 0x65, 0xb6, 0x92,
    0x6c, 0x70, 0x48, 0x50, 0xfd, 0xed, 0xb9, 0xda, 0x5e, 0x15, 0x46, 0x57, 0xa7, 0x8d, 0x9d, 0x84,
    0x90, 0xd8, 0xab, 0x00, 0x8c, 0xbc, 0xd3, 0x0a, 0xf7, 0xe4, 0x58, 0x05, 0xb8, 0xb3, 0x45, 0x06,
    0xd0, 0x2c, 0x1e, 0x8f, 0xca, 0x3f, 0x0f, 0x02, 0xc1, 0xaf, 0xbd, 0x03, 0x01, 0x13, 0x8a, 0x6b,
    0x3a, 0x91, 0x11, 0x41, 0x4f, 0x67, 0xdc, 0xea, 0x97, 0xf2, 0xcf, 0xce, 0xf0, 0xb4, 0xe6, 0x73,
    0x96, 0xac, 0x74, 0x22, 0xe7, 0xad, 0x35, 0x85, 0xe2, 0xf9, 0x37, 0xe8, 0x1c, 0x75, 0xdf, 0x6e,
    0x47, 0xf1, 0x1a, 0x71, 0x1d, 0x29, 0xc5, 0x89, 0x6f, 0xb7, 0x62, 0x0e, 0xaa, 0x18, 0xbe, 0x1b,
    0xfc, 0x56, 0x3e, 0x4b, 0xc6, 0xd2, 0x79, 0x20, 0x9a, 0xdb, 0xc0, 0xfe, 0x78, 0xcd, 0x5a, 0xf4,
    0x1f, 0xdd, 0xa8, 0x33, 0x88, 0x07, 0xc7, 0x31, 0xb1, 0x12, 0x10, 0x59, 0x27, 0x80, 0xec, 0x5f,
    0x60, 0x51, 0x7f, 0xa9, 0x19, 0xb5, 0x4a, 0x0d, 0x2d, 0xe5, 0x7a, 0x9f, 0x93, 0xc9, 0x9c, 0xef,
    0xa0, 0xe0, 0x3b, 0x4d, 0xae, 0x2a, 0xf5, 0xb0, 0xc8, 0xeb, 0xbb, 0x3c, 0x83, 0x53, 0x99, 0x61,
    0x17, 0x2b, 0x04, 0x7e, 0xba, 0x77, 0xd6, 0x26, 0xe1, 0x69, 0x14, 0x63, 0x55, 0x21, 0x0c, 0x7d]

/-- A substitution of the four bytes of a word by a box. -/
def substitute (box : List Natural8) (x : Natural32) : Natural32 :=
  (item box (x >>> 24 &&& 0xff).toNat).setWidth 32 <<< 24 |||
    (item box (x >>> 16 &&& 0xff).toNat).setWidth 32 <<< 16 |||
    (item box (x >>> 8 &&& 0xff).toNat).setWidth 32 <<< 8 |||
    (item box (x &&& 0xff).toNat).setWidth 32

/-- `inv_sub_bytes (in)`. -/
def invSubBytes (x : Natural32) : Natural32 := substitute si x

/-- `sub_bytes (in)`. -/
def subBytes (x : Natural32) : Natural32 := substitute s x

/-- The byte that a box has for a byte. -/
def lookup (box : List Natural8) (b : Natural8) : Natural8 := item box b.toNat

lemma substitute_ofBytes (box : List Natural8) (b₀ b₁ b₂ b₃ : Natural8) :
    substitute box (ofBytes b₀ b₁ b₂ b₃) =
      ofBytes (lookup box b₀) (lookup box b₁) (lookup box b₂) (lookup box b₃) := by
  simp only [substitute, toNat_and_mask, byte0_ofBytes, byte1_ofBytes, byte2_ofBytes,
    byte3_ofBytes, ofBytes_of_shifts]
  rfl

/-- The inverse box is inverse. -/
lemma lookup_si_lookup_s (b : Natural8) : lookup si (lookup s b) = b :=
  forall_byte (P := fun b => lookup si (lookup s b) = b) (by decide +kernel) b

end AesCommon

open AesCommon

/-! ## Arithmetic of GF(2⁸) -/

namespace AesEngine

/-- `multiply (field, multiplier)`: the product of two polynomials. -/
def multiply (field multiplier : Natural8) : Natural32 :=
  (List.range 8).foldl (fun result counter =>
    if multiplier.getLsbD counter then result ^^^ field.setWidth 32 <<< counter else result) 0

/-- `reducer`. -/
def reducer : Natural32 := 0x8d800000

/-- One iteration of `reduce`. -/
def reduceStep (resultExpanded : Natural32) (counter : ℕ) : Natural32 :=
  if resultExpanded.getLsbD counter then resultExpanded ^^^ reducer >>> (31 - counter)
  else resultExpanded

/-- `reduce (in)`: the counter runs from `31` down to `8`. -/
def reduce (x : Natural32) : Natural8 :=
  ((List.range' 8 24).reverse.foldl reduceStep x).setWidth 8

/-- `multiply_and_reduce (field, multiplier)`. -/
def multiplyAndReduce (field multiplier : Natural8) : Natural8 := reduce (multiply field multiplier)

lemma multiply_xor (a b m : Natural8) :
    multiply (a ^^^ b) m = multiply a m ^^^ multiply b m := by
  have hzero : (0 : Natural32) = 0 ^^^ 0 := rfl
  rw [multiply, hzero]
  refine List.foldl_hom₂ _ (· ^^^ ·) _ _ _ 0 0 fun x y counter => ?_
  cases m.getLsbD counter with
  | false => rfl
  | true =>
    simp only [if_true, BitVec.setWidth_xor, BitVec.shiftLeft_xor_distrib]
    ac_rfl

lemma reduceStep_xor (x y : Natural32) (counter : ℕ) :
    reduceStep (x ^^^ y) counter = reduceStep x counter ^^^ reduceStep y counter := by
  have hcancel (r : Natural32) : x ^^^ r ^^^ (y ^^^ r) = x ^^^ y := by
    have hrr : x ^^^ r ^^^ (y ^^^ r) = x ^^^ y ^^^ (r ^^^ r) := by ac_rfl
    rw [hrr, BitVec.xor_self, BitVec.xor_zero]
  rw [reduceStep, reduceStep, reduceStep, BitVec.getLsbD_xor]
  cases x.getLsbD counter <;> cases y.getLsbD counter
  · rfl
  · exact BitVec.xor_assoc _ _ _
  · simp only [Bool.xor_false, if_true, Bool.false_eq_true, if_false]
    ac_rfl
  · exact (hcancel _).symm

lemma reduce_xor (x y : Natural32) : reduce (x ^^^ y) = reduce x ^^^ reduce y := by
  rw [reduce, reduce, reduce, ← BitVec.setWidth_xor]
  congr 1
  exact List.foldl_hom₂ _ (· ^^^ ·) _ _ _ x y fun x y counter => (reduceStep_xor x y counter).symm

/-- **The product is additive.** -/
lemma multiplyAndReduce_xor (a b m : Natural8) :
    multiplyAndReduce (a ^^^ b) m = multiplyAndReduce a m ^^^ multiplyAndReduce b m := by
  rw [multiplyAndReduce, multiply_xor, reduce_xor]
  rfl

/-! ## Mixing a column -/

/-- `inv_mix_0` to `inv_mix_3` but for the last shift, with the four multipliers. -/
def invMix (m₀ m₁ m₂ m₃ : Natural8) (x : Natural32) : Natural32 :=
  let part0 := (multiplyAndReduce ((x >>> 24 &&& 0xff).setWidth 8) m₀).setWidth 32
  let part1 := (multiplyAndReduce ((x >>> 16 &&& 0xff).setWidth 8) m₁).setWidth 32
  let part2 := (multiplyAndReduce ((x >>> 8 &&& 0xff).setWidth 8) m₂).setWidth 32
  let part3 := (multiplyAndReduce ((x &&& 0xff).setWidth 8) m₃).setWidth 32
  part0 ^^^ part1 ^^^ part2 ^^^ part3

/-- `inv_mix_0 (in)`. -/
def invMix0 (x : Natural32) : Natural32 := invMix 0xe 0xb 0xd 0x9 x <<< 24

/-- `inv_mix_1 (in)`. -/
def invMix1 (x : Natural32) : Natural32 := invMix 0x9 0xe 0xb 0xd x <<< 16

/-- `inv_mix_2 (in)`. -/
def invMix2 (x : Natural32) : Natural32 := invMix 0xd 0x9 0xe 0xb x <<< 8

/-- `inv_mix_3 (in)`. -/
def invMix3 (x : Natural32) : Natural32 := invMix 0xb 0xd 0x9 0xe x

/-- `inv_mix_column (in)`. -/
def invMixColumn (x : Natural32) : Natural32 := invMix0 x ||| invMix1 x ||| invMix2 x ||| invMix3 x

/-- `mix_0 (in)`. -/
def mix0 (x : Natural32) : Natural32 :=
  let part0 := (multiplyAndReduce ((x >>> 24 &&& 0xff).setWidth 8) 0x2).setWidth 32
  let part1 := (multiplyAndReduce ((x >>> 16 &&& 0xff).setWidth 8) 0x3).setWidth 32
  let part2 := x >>> 8 &&& 0xff
  let part3 := x &&& 0xff
  (part0 ^^^ part1 ^^^ part2 ^^^ part3) <<< 24

/-- `mix_1 (in)`. -/
def mix1 (x : Natural32) : Natural32 :=
  let part0 := x >>> 24 &&& 0xff
  let part1 := (multiplyAndReduce ((x >>> 16 &&& 0xff).setWidth 8) 0x2).setWidth 32
  let part2 := (multiplyAndReduce ((x >>> 8 &&& 0xff).setWidth 8) 0x3).setWidth 32
  let part3 := x &&& 0xff
  (part0 ^^^ part1 ^^^ part2 ^^^ part3) <<< 16

/-- `mix_2 (in)`. -/
def mix2 (x : Natural32) : Natural32 :=
  let part0 := x >>> 24 &&& 0xff
  let part1 := x >>> 16 &&& 0xff
  let part2 := (multiplyAndReduce ((x >>> 8 &&& 0xff).setWidth 8) 0x2).setWidth 32
  let part3 := (multiplyAndReduce ((x &&& 0xff).setWidth 8) 0x3).setWidth 32
  (part0 ^^^ part1 ^^^ part2 ^^^ part3) <<< 8

/-- `mix_3 (in)`. -/
def mix3 (x : Natural32) : Natural32 :=
  let part0 := (multiplyAndReduce ((x >>> 24 &&& 0xff).setWidth 8) 0x3).setWidth 32
  let part1 := x >>> 16 &&& 0xff
  let part2 := x >>> 8 &&& 0xff
  let part3 := (multiplyAndReduce ((x &&& 0xff).setWidth 8) 0x2).setWidth 32
  part0 ^^^ part1 ^^^ part2 ^^^ part3

/-- `mix_column (in)`. -/
def mixColumn (x : Natural32) : Natural32 := mix0 x ||| mix1 x ||| mix2 x ||| mix3 x

/-- The exclusive disjunction of products that makes up a byte of a mixed column. -/
def combine (m₀ m₁ m₂ m₃ b₀ b₁ b₂ b₃ : Natural8) : Natural8 :=
  multiplyAndReduce b₀ m₀ ^^^ multiplyAndReduce b₁ m₁ ^^^ multiplyAndReduce b₂ m₂ ^^^
    multiplyAndReduce b₃ m₃

/-- One is neutral. -/
lemma multiplyAndReduce_one (b : Natural8) : multiplyAndReduce b 1 = b := by
  induction b using xor_induction with
  | zero => decide +kernel
  | xor a b ha hb => rw [multiplyAndReduce_xor, ha, hb]
  | bit i hi => interval_cases i <;> decide +kernel

lemma mixColumn_ofBytes (b₀ b₁ b₂ b₃ : Natural8) : mixColumn (ofBytes b₀ b₁ b₂ b₃) =
    ofBytes (combine 2 3 1 1 b₀ b₁ b₂ b₃) (combine 1 2 3 1 b₀ b₁ b₂ b₃)
      (combine 1 1 2 3 b₀ b₁ b₂ b₃) (combine 3 1 1 2 b₀ b₁ b₂ b₃) := by
  have hbyte (b : Natural8) : (b.setWidth 32).setWidth 8 = b := by
    rw [BitVec.setWidth_setWidth_of_le _ (by omega), BitVec.setWidth_eq]
  simp only [mixColumn, mix0, mix1, mix2, mix3, and_mask, byte0_ofBytes, byte1_ofBytes,
    byte2_ofBytes, byte3_ofBytes, hbyte, ← BitVec.setWidth_xor, ofBytes_of_shifts, combine,
    multiplyAndReduce_one]

lemma invMixColumn_ofBytes (b₀ b₁ b₂ b₃ : Natural8) : invMixColumn (ofBytes b₀ b₁ b₂ b₃) =
    ofBytes (combine 0xe 0xb 0xd 0x9 b₀ b₁ b₂ b₃) (combine 0x9 0xe 0xb 0xd b₀ b₁ b₂ b₃)
      (combine 0xd 0x9 0xe 0xb b₀ b₁ b₂ b₃) (combine 0xb 0xd 0x9 0xe b₀ b₁ b₂ b₃) := by
  simp only [invMixColumn, invMix0, invMix1, invMix2, invMix3, invMix, setWidth_and_mask,
    byte0_ofBytes, byte1_ofBytes, byte2_ofBytes, byte3_ofBytes, ← BitVec.setWidth_xor,
    ofBytes_of_shifts, combine]

lemma combine_xor (m₀ m₁ m₂ m₃ a₀ a₁ a₂ a₃ b₀ b₁ b₂ b₃ : Natural8) :
    combine m₀ m₁ m₂ m₃ (a₀ ^^^ b₀) (a₁ ^^^ b₁) (a₂ ^^^ b₂) (a₃ ^^^ b₃) =
      combine m₀ m₁ m₂ m₃ a₀ a₁ a₂ a₃ ^^^ combine m₀ m₁ m₂ m₃ b₀ b₁ b₂ b₃ := by
  simp only [combine, multiplyAndReduce_xor]
  ac_rfl

/-- What one byte of a column contributes to a byte of the column after both mixes: the matrices of
the mixes are circulant, so four cases cover all. -/
structure Cancels (b : Natural8) : Prop where
  /-- The byte itself. -/
  same : combine 0xe 0xb 0xd 0x9 (multiplyAndReduce b 2) b b (multiplyAndReduce b 3) = b
  /-- The byte of the next row. -/
  next : combine 0xe 0xb 0xd 0x9 (multiplyAndReduce b 3) (multiplyAndReduce b 2) b b = 0
  /-- The byte of the row behind it. -/
  third : combine 0xe 0xb 0xd 0x9 b (multiplyAndReduce b 3) (multiplyAndReduce b 2) b = 0
  /-- The byte of the row before. -/
  previous : combine 0xe 0xb 0xd 0x9 b b (multiplyAndReduce b 3) (multiplyAndReduce b 2) = 0

lemma cancels (b : Natural8) : Cancels b := by
  induction b using xor_induction with
  | zero => exact ⟨by decide +kernel, by decide +kernel, by decide +kernel, by decide +kernel⟩
  | xor a b ha hb =>
    refine ⟨?_, ?_, ?_, ?_⟩ <;> rw [multiplyAndReduce_xor, multiplyAndReduce_xor, combine_xor]
    · rw [ha.same, hb.same]
    · rw [ha.next, hb.next]
      rfl
    · rw [ha.third, hb.third]
      rfl
    · rw [ha.previous, hb.previous]
      rfl
  | bit i hi =>
    interval_cases i <;>
      exact ⟨by decide +kernel, by decide +kernel, by decide +kernel, by decide +kernel⟩

/-- The rows of both matrices are rotations of the first row. -/
lemma combine_rotate (m₀ m₁ m₂ m₃ b₀ b₁ b₂ b₃ : Natural8) :
    combine m₃ m₀ m₁ m₂ b₃ b₀ b₁ b₂ = combine m₀ m₁ m₂ m₃ b₀ b₁ b₂ b₃ := by
  simp only [combine]
  ac_rfl

lemma combine_rotate_two (m₀ m₁ m₂ m₃ b₀ b₁ b₂ b₃ : Natural8) :
    combine m₂ m₃ m₀ m₁ b₂ b₃ b₀ b₁ = combine m₀ m₁ m₂ m₃ b₀ b₁ b₂ b₃ :=
  (combine_rotate m₃ m₀ m₁ m₂ b₃ b₀ b₁ b₂).trans (combine_rotate m₀ m₁ m₂ m₃ b₀ b₁ b₂ b₃)

/-- The first byte of a column after both mixes. -/
lemma combine_combine (b₀ b₁ b₂ b₃ : Natural8) :
    combine 0xe 0xb 0xd 0x9 (combine 2 3 1 1 b₀ b₁ b₂ b₃) (combine 2 3 1 1 b₁ b₂ b₃ b₀)
      (combine 2 3 1 1 b₂ b₃ b₀ b₁) (combine 2 3 1 1 b₃ b₀ b₁ b₂) = b₀ := by
  set two := fun b => multiplyAndReduce b 2
  set three := fun b => multiplyAndReduce b 3
  -- the contributions of the four bytes, one behind the other
  have e₀ : combine 2 3 1 1 b₀ b₁ b₂ b₃ = two b₀ ^^^ three b₁ ^^^ b₂ ^^^ b₃ := by
    simp only [combine, multiplyAndReduce_one, two, three]
  have e₁ : combine 2 3 1 1 b₁ b₂ b₃ b₀ = b₀ ^^^ two b₁ ^^^ three b₂ ^^^ b₃ := by
    simp only [combine, multiplyAndReduce_one, two, three]
    ac_rfl
  have e₂ : combine 2 3 1 1 b₂ b₃ b₀ b₁ = b₀ ^^^ b₁ ^^^ two b₂ ^^^ three b₃ := by
    simp only [combine, multiplyAndReduce_one, two, three]
    ac_rfl
  have e₃ : combine 2 3 1 1 b₃ b₀ b₁ b₂ = three b₀ ^^^ b₁ ^^^ b₂ ^^^ two b₃ := by
    simp only [combine, multiplyAndReduce_one, two, three]
    ac_rfl
  rw [e₀, e₁, e₂, e₃, combine_xor, combine_xor, combine_xor, (cancels b₀).same, (cancels b₁).next,
    (cancels b₂).third, (cancels b₃).previous]
  exact (BitVec.xor_zero.trans BitVec.xor_zero).trans BitVec.xor_zero

/-- **The mixes are inverse.** -/
lemma invMixColumn_mixColumn (x : Natural32) : invMixColumn (mixColumn x) = x := by
  obtain ⟨b₀, b₁, b₂, b₃, rfl⟩ := exists_ofBytes x
  rw [mixColumn_ofBytes, invMixColumn_ofBytes]
  -- every row is the first one for the column rotated
  rw [combine_rotate 2 3 1 1 b₁ b₂ b₃ b₀, combine_rotate_two 2 3 1 1 b₂ b₃ b₀ b₁,
    ← combine_rotate 3 1 1 2 b₀ b₁ b₂ b₃]
  set c₀ := combine 2 3 1 1 b₀ b₁ b₂ b₃
  set c₁ := combine 2 3 1 1 b₁ b₂ b₃ b₀
  set c₂ := combine 2 3 1 1 b₂ b₃ b₀ b₁
  set c₃ := combine 2 3 1 1 b₃ b₀ b₁ b₂
  rw [combine_rotate 0xe 0xb 0xd 0x9 c₁ c₂ c₃ c₀, combine_rotate_two 0xe 0xb 0xd 0x9 c₂ c₃ c₀ c₁,
    ← combine_rotate 0xb 0xd 0x9 0xe c₀ c₁ c₂ c₃]
  congr 1
  · exact combine_combine b₀ b₁ b₂ b₃
  · exact combine_combine b₁ b₂ b₃ b₀
  · exact combine_combine b₂ b₃ b₀ b₁
  · exact combine_combine b₃ b₀ b₁ b₂

end AesEngine

open AesEngine

/-! ## The state -/

/-- The state: `column_0` to `column_3`. -/
@[ext] structure Columns where
  /-- `column_0`. -/
  column0 : Natural32
  /-- `column_1`. -/
  column1 : Natural32
  /-- `column_2`. -/
  column2 : Natural32
  /-- `column_3`. -/
  column3 : Natural32

namespace Columns

/-- An operation on each column. -/
def map (f : Natural32 → Natural32) (c : Columns) : Columns :=
  ⟨f c.column0, f c.column1, f c.column2, f c.column3⟩

/-- `sub_columns`. -/
def subColumns (c : Columns) : Columns := c.map subBytes

/-- `inv_sub_columns`. -/
def invSubColumns (c : Columns) : Columns := c.map invSubBytes

/-- `mix_columns`. -/
def mixColumns (c : Columns) : Columns := c.map mixColumn

/-- `inv_mix_columns`. -/
def invMixColumns (c : Columns) : Columns := c.map invMixColumn

/-- A column with its four bytes from four columns. -/
def gather (x₀ x₁ x₂ x₃ : Natural32) : Natural32 :=
  x₀ &&& 0xff000000 ||| x₁ &&& 0x00ff0000 ||| x₂ &&& 0x0000ff00 ||| x₃ &&& 0x000000ff

/-- `inv_shift_rows`. -/
def invShiftRows (c : Columns) : Columns where
  column0 := gather c.column0 c.column3 c.column2 c.column1
  column1 := gather c.column1 c.column0 c.column3 c.column2
  column2 := gather c.column2 c.column1 c.column0 c.column3
  column3 := gather c.column3 c.column2 c.column1 c.column0

/-- `shift_rows`. -/
def shiftRows (c : Columns) : Columns where
  column0 := gather c.column0 c.column1 c.column2 c.column3
  column1 := gather c.column1 c.column2 c.column3 c.column0
  column2 := gather c.column2 c.column3 c.column0 c.column1
  column3 := gather c.column3 c.column0 c.column1 c.column2

/-- `add_round_key (schedule_index)`. -/
def addRoundKey (keySchedule : List Natural32) (scheduleIndex : ℤ) (c : Columns) : Columns where
  column0 := c.column0 ^^^ item keySchedule scheduleIndex.toNat
  column1 := c.column1 ^^^ item keySchedule (scheduleIndex + 1).toNat
  column2 := c.column2 ^^^ item keySchedule (scheduleIndex + 2).toNat
  column3 := c.column3 ^^^ item keySchedule (scheduleIndex + 3).toNat

/-- `unpack (bytes, offset)`. -/
def unpack (bytes : List Natural8) (offset : ℕ) : Columns where
  column0 := asNatural32Be bytes offset
  column1 := asNatural32Be bytes (offset + 4)
  column2 := asNatural32Be bytes (offset + 8)
  column3 := asNatural32Be bytes (offset + 12)

/-- `pack (bytes, offset)`: the array written. -/
def pack (c : Columns) (bytes : List Natural8) (offset : ℕ) : List Natural8 :=
  let bytes := fromNatural32Be c.column0 bytes offset
  let bytes := fromNatural32Be c.column1 bytes (offset + 4)
  let bytes := fromNatural32Be c.column2 bytes (offset + 8)
  fromNatural32Be c.column3 bytes (offset + 12)

/-! ## Inverses -/

lemma gather_ofBytes (a₀ a₁ a₂ a₃ b₀ b₁ b₂ b₃ c₀ c₁ c₂ c₃ d₀ d₁ d₂ d₃ : Natural8) :
    gather (ofBytes a₀ a₁ a₂ a₃) (ofBytes b₀ b₁ b₂ b₃) (ofBytes c₀ c₁ c₂ c₃)
      (ofBytes d₀ d₁ d₂ d₃) = ofBytes a₀ b₁ c₂ d₃ := by
  have h₀ : (0xff000000 : Natural32) = ofBytes 0xff 0 0 0 := by decide
  have h₁ : (0x00ff0000 : Natural32) = ofBytes 0 0xff 0 0 := by decide
  have h₂ : (0x0000ff00 : Natural32) = ofBytes 0 0 0xff 0 := by decide
  have h₃ : (0x000000ff : Natural32) = ofBytes 0 0 0 0xff := by decide
  have hones (b : Natural8) : b &&& 0xff = b := BitVec.and_allOnes
  have hzeros (b : Natural8) : b &&& 0 = 0 := BitVec.and_zero
  have hright (b : Natural8) : b ||| 0 = b := BitVec.or_zero
  have hleft (b : Natural8) : 0 ||| b = b := BitVec.zero_or
  simp only [gather, h₀, h₁, h₂, h₃, ofBytes_and, ofBytes_or, hones, hzeros, hright, hleft]

lemma invShiftRows_shiftRows (c : Columns) : invShiftRows (shiftRows c) = c := by
  obtain ⟨x₀, x₁, x₂, x₃⟩ := c
  obtain ⟨a₀, a₁, a₂, a₃, rfl⟩ := exists_ofBytes x₀
  obtain ⟨b₀, b₁, b₂, b₃, rfl⟩ := exists_ofBytes x₁
  obtain ⟨c₀, c₁, c₂, c₃, rfl⟩ := exists_ofBytes x₂
  obtain ⟨d₀, d₁, d₂, d₃, rfl⟩ := exists_ofBytes x₃
  simp only [invShiftRows, shiftRows, gather_ofBytes]

lemma map_map_eq {f g : Natural32 → Natural32} (h : ∀ x, g (f x) = x) (c : Columns) :
    (c.map f).map g = c := by
  simp only [map, h]

lemma invSubColumns_subColumns (c : Columns) : invSubColumns (subColumns c) = c := by
  refine map_map_eq (fun x => ?_) c
  obtain ⟨b₀, b₁, b₂, b₃, rfl⟩ := exists_ofBytes x
  simp only [subBytes, invSubBytes, substitute_ofBytes, lookup_si_lookup_s]

lemma invMixColumns_mixColumns (c : Columns) : invMixColumns (mixColumns c) = c :=
  map_map_eq invMixColumn_mixColumn c

lemma addRoundKey_addRoundKey (keySchedule : List Natural32) (i : ℤ) (c : Columns) :
    addRoundKey keySchedule i (addRoundKey keySchedule i c) = c := by
  simp only [addRoundKey, BitVec.xor_assoc, BitVec.xor_self, BitVec.xor_zero]

/-! ## Packing -/

/-- The sixteen bytes of a state. -/
def bytes (c : Columns) : List Natural8 :=
  Word.bytes c.column0 ++ Word.bytes c.column1 ++ Word.bytes c.column2 ++ Word.bytes c.column3

@[simp] lemma length_bytes (c : Columns) : c.bytes.length = 16 := rfl

lemma pack_eq (c : Columns) {a : List Natural8} {offset : ℕ} (h : offset + 16 ≤ a.length) :
    c.pack a offset = write a offset c.bytes := by
  simp only [pack]
  rw [fromNatural32Be_eq c.column0 (by omega),
    fromNatural32Be_write c.column1 (by simp) (by omega),
    fromNatural32Be_write c.column2 (by simp) (by omega),
    fromNatural32Be_write c.column3 (by simp) (by omega)]
  rfl

lemma bytes_unpack {a : List Natural8} {offset : ℕ} (h : offset + 16 ≤ a.length) :
    (unpack a offset).bytes = slice a offset 16 := by
  simp only [bytes, unpack]
  rw [bytes_asNatural32Be (by omega), bytes_asNatural32Be (by omega),
    bytes_asNatural32Be (by omega), bytes_asNatural32Be (by omega), slice_append_slice,
    slice_append_slice a offset 8, slice_append_slice a offset 12]

lemma unpack_of_slice {a : List Natural8} {offset : ℕ} {c : Columns}
    (h : slice a offset 16 = c.bytes) : unpack a offset = c := by
  have hpart (j : ℕ) (hj : j + 4 ≤ 16) : slice a (offset + j) 4 = slice c.bytes j 4 := by
    rw [← h, slice_slice hj]
  ext1
  · exact asNatural32Be_of_slice (hpart 0 (by omega))
  · exact asNatural32Be_of_slice (hpart 4 (by omega))
  · exact asNatural32Be_of_slice (hpart 8 (by omega))
  · exact asNatural32Be_of_slice (hpart 12 (by omega))

end Columns

end EiffelWeb
