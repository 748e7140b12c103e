import Mathlib.Data.BitVec
import Mathlib.Data.Fin.VecNotation
import Mathlib.Data.List.Basic
import Mathlib.Logic.Function.Iterate
import Mathlib.Tactic.Common
import EiffelWeb.Word

set_option relaxedAutoImplicit false
set_option autoImplicit false

/-!
# The Advanced Encryption Standard

The cipher of FIPS 197 in the standard's own terms: bytes are elements of GF(2⁸), the box is the
inverse followed by an affine map, the state is a matrix of bytes with four rows and four columns,
and the key expansion is a list of words of four bytes. Nothing here is taken from the code.

## Main definitions

* `Fips197.mul`, `Fips197.inverse`, `Fips197.sBox`
* `Fips197.subBytes`, `Fips197.shiftRows`, `Fips197.mixColumns`, `Fips197.addRoundKey`
* `Fips197.keyExpansion`, `Fips197.cipher`

## Main results

* `Fips197.mul_inverse` — the inverse is the multiplicative inverse.
* `Fips197.mul_xor` — the product is additive.
-/

namespace Fips197

/-- A byte. -/
abbrev Byte := BitVec 8

/-! ## GF(2⁸) -/

/-- The product with `x`, modulo `x⁸ + x⁴ + x³ + x + 1`. -/
def xtime (b : Byte) : Byte := if b.msb then b <<< 1 ^^^ 0x1b else b <<< 1

/-- The product in GF(2⁸). -/
def mul (a b : Byte) : Byte :=
  (List.range 8).foldr (fun i r => xtime r ^^^ if b.getLsbD i then a else 0) 0

/-- The inverse, as the power with the exponent `254 = 2 + 4 + … + 128`. -/
def inverse (b : Byte) : Byte :=
  ((List.range 7).foldl (fun p _ => (mul p.1 p.1, mul p.2 (mul p.1 p.1))) (b, (1 : Byte))).2

/-- The affine map `bᵢ ⊕ bᵢ₊₄ ⊕ bᵢ₊₅ ⊕ bᵢ₊₆ ⊕ bᵢ₊₇ ⊕ cᵢ` of the bits of a byte. -/
def affine (b : Byte) : Byte :=
  b ^^^ b.rotateLeft 4 ^^^ b.rotateLeft 3 ^^^ b.rotateLeft 2 ^^^ b.rotateLeft 1 ^^^ 0x63

/-- The box: the inverse, and the affine map. -/
def sBox (b : Byte) : Byte := affine (inverse b)

example : mul 0x57 0x13 = 0xfe := by decide

lemma xtime_xor (a b : Byte) : xtime (a ^^^ b) = xtime a ^^^ xtime b := by
  have hcancel (x y r : Byte) : x ^^^ r ^^^ (y ^^^ r) = x ^^^ y := by
    have hrr : x ^^^ r ^^^ (y ^^^ r) = x ^^^ y ^^^ (r ^^^ r) := by ac_rfl
    rw [hrr, BitVec.xor_self, BitVec.xor_zero]
  rw [xtime, xtime, xtime, BitVec.msb_xor, BitVec.shiftLeft_xor_distrib]
  cases a.msb <;> cases b.msb
  · rfl
  · exact BitVec.xor_assoc _ _ _
  · simp only [Bool.xor_false, if_true, Bool.false_eq_true, if_false]
    ac_rfl
  · exact (hcancel _ _ _).symm

/-- The product is additive in the second factor. -/
lemma mul_xor (a b c : Byte) : mul a (b ^^^ c) = mul a b ^^^ mul a c := by
  refine List.foldr_hom₂ _ (· ^^^ ·) _ _ _ (0 : Byte) (0 : Byte) fun x y i => ?_
  have hbit : (if (b ^^^ c).getLsbD i then a else 0) =
      (if b.getLsbD i then a else 0) ^^^ if c.getLsbD i then a else 0 := by
    rw [BitVec.getLsbD_xor]
    cases b.getLsbD i <;> cases c.getLsbD i <;> simp
  rw [xtime_xor, hbit]
  ac_rfl

/-! ### Arithmetic on numbers

The kernel evaluates the arithmetic of numbers at once and that of bytes bit by bit, so the 256
cases are checked on the numbers of the bytes. -/

/-- `xtime` on numbers. -/
def xtimeNat (n : ℕ) : ℕ := 2 * n ^^^ n / 128 * 0x11b

/-- One step of the product, for the bit `i` of `b`. -/
def mulStepNat (a b i r : ℕ) : ℕ := xtimeNat r ^^^ b / 2 ^ i % 2 * a

/-- `mul` on numbers. -/
def mulNat (a b : ℕ) : ℕ :=
  mulStepNat a b 0 (mulStepNat a b 1 (mulStepNat a b 2 (mulStepNat a b 3 (mulStepNat a b 4
    (mulStepNat a b 5 (mulStepNat a b 6 (mulStepNat a b 7 0)))))))

/-- `inverse` on numbers. -/
def inverseNat (n : ℕ) : ℕ :=
  ((List.range 7).foldl (fun p _ => (mulNat p.1 p.1, mulNat p.2 (mulNat p.1 p.1))) (n, 1)).2

lemma toNat_xtime (b : Byte) : (xtime b).toNat = xtimeNat b.toNat :=
  Word.forall_byte (P := fun b => (xtime b).toNat = xtimeNat b.toNat) (by decide +kernel) b

lemma toNat_mulStep (a b r : Byte) (i : ℕ) :
    (xtime r ^^^ if b.getLsbD i then a else 0).toNat = mulStepNat a.toNat b.toNat i r.toNat := by
  rw [BitVec.toNat_xor, toNat_xtime, mulStepNat, BitVec.getLsbD, ← Nat.toNat_testBit]
  cases b.toNat.testBit i <;> simp

lemma toNat_mul (a b : Byte) : (mul a b).toNat = mulNat a.toNat b.toNat := by
  simp only [mul, mulNat, List.range, List.range.loop, List.foldr_cons, List.foldr_nil,
    toNat_mulStep]
  rfl

lemma toNat_inverse (b : Byte) : (inverse b).toNat = inverseNat b.toNat := by
  simp only [inverse, inverseNat, List.range, List.range.loop, List.foldl_cons, List.foldl_nil,
    toNat_mul]
  rfl

/-- The inverse is the multiplicative inverse, and zero for zero. -/
lemma mul_inverse (b : Byte) : mul b (inverse b) = if b = 0 then 0 else 1 := by
  have hall : ∀ n < 256, mulNat n (inverseNat n) = if n = 0 then 0 else 1 := by decide +kernel
  apply BitVec.eq_of_toNat_eq
  rw [toNat_mul, toNat_inverse, hall _ b.isLt]
  by_cases hb : b = 0
  · subst hb
    rfl
  · have hne : b.toNat ≠ 0 := fun h => hb (BitVec.eq_of_toNat_eq h)
    rw [if_neg hb, if_neg hne]
    rfl

/-! ## The state -/

/-- The state: a byte for each row and column. -/
abbrev State := Fin 4 → Fin 4 → Byte

/-- A word of four bytes. -/
abbrev Word := Fin 4 → Byte

/-- The sum of two words. -/
def addWord (u v : Word) : Word := fun r => u r ^^^ v r

/-- `SubBytes`. -/
def subBytes (st : State) : State := fun r c => sBox (st r c)

/-- `ShiftRows`: row `r` is shifted by `r` columns. -/
def shiftRows (st : State) : State := fun r c => st r (c + r)

/-- `MixColumns`. -/
def mixColumns (st : State) : State := fun r c =>
  mul 0x02 (st r c) ^^^ mul 0x03 (st (r + 1) c) ^^^ st (r + 2) c ^^^ st (r + 3) c

/-- `AddRoundKey` with the four words of a round. -/
def addRoundKey (w : List Word) (round : ℕ) (st : State) : State := fun r c =>
  st r c ^^^ w.getD (4 * round + c) 0 r

/-! ## Key expansion -/

/-- `SubWord`. -/
def subWord (w : Word) : Word := fun r => sBox (w r)

/-- `RotWord`. -/
def rotWord (w : Word) : Word := fun r => w (r + 1)

/-- `Rcon[j]`, with the power `x^(j-1)` in its first byte. -/
def rcon (j : ℕ) : Word := ![xtime^[j - 1] 1, 0, 0, 0]

/-- What is added to `w[i - Nk]`, from `w[i - 1]`. -/
def temp (nk i : ℕ) (w : Word) : Word :=
  if i % nk = 0 then addWord (subWord (rotWord w)) (rcon (i / nk))
  else if 6 < nk ∧ i % nk = 4 then subWord w
  else w

/-- The words of a key of `nk` words and of `n` more. -/
def expandWords (nk : ℕ) (key : List Byte) : ℕ → List Word
  | 0 => (List.range nk).map fun t r => key.getD (4 * t + r) 0
  | n + 1 =>
    let w := expandWords nk key n
    w ++ [addWord (w.getD n 0) (temp nk (nk + n) (w.getD (nk + n - 1) 0))]

lemma length_expandWords (nk : ℕ) (key : List Byte) (n : ℕ) :
    (expandWords nk key n).length = nk + n := by
  induction n with
  | zero => simp [expandWords]
  | succ n ih => rw [expandWords, List.length_append, ih, List.length_singleton, Nat.add_assoc]

/-- `Nr`, the number of rounds. -/
def nr (key : List Byte) : ℕ := key.length / 4 + 6

/-- `KeyExpansion`. -/
def keyExpansion (key : List Byte) : List Word :=
  expandWords (key.length / 4) key (4 * (nr key + 1) - key.length / 4)

/-! ## The cipher -/

/-- The state after `n` rounds. -/
def rounds (w : List Word) (st : State) : ℕ → State
  | 0 => addRoundKey w 0 st
  | n + 1 => addRoundKey w (n + 1) (mixColumns (shiftRows (subBytes (rounds w st n))))

/-- The state of a block: the bytes go down the columns. -/
def stateOf (block : List Byte) : State := fun r c => block.getD (r + 4 * c) 0

/-- The block of a state. -/
def blockOf (st : State) : List Byte :=
  [st 0 0, st 1 0, st 2 0, st 3 0, st 0 1, st 1 1, st 2 1, st 3 1,
    st 0 2, st 1 2, st 2 2, st 3 2, st 0 3, st 1 3, st 2 3, st 3 3]

/-- `Cipher`, with the words of the key expansion. -/
def cipher (w : List Word) (n : ℕ) (block : List Byte) : List Byte :=
  blockOf (addRoundKey w n (shiftRows (subBytes (rounds w (stateOf block) (n - 1)))))

end Fips197
