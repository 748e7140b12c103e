import EiffelWeb.Character
import EiffelWeb.Crypto.Limb.IntegerXIo
import EiffelWeb.Crypto.Limb.IntegerXRandom
import EiffelWeb.Crypto.Limb.LimbDivision

set_option relaxedAutoImplicit false
set_option autoImplicit false

/-!
# Bases and digits of texts

The tables of `MP_BASES` and the two strategies for the characters of digits. For a base that is a
power of two `big_base` is the number of bits of a digit; for another one it is the largest power
of the base that is a limb, `chars_per_limb` is its exponent and `big_base_inverted` its reciprocal.
The tables are given for the bases up to 62, for which there are digits.

## Main definitions

* `MpBases.charsPerLimb`, `MpBases.bigBase`, `MpBases.bigBaseInverted`
* `CharacterStrategy`

## Main results

* `MpBases.exists_bits`, `MpBases.exists_radix` — what the tables hold.
* `CharacterStrategy.textToNumber_numberToText` — every digit is read as it is written.
-/

namespace EiffelWeb

open LimbManipulation IntegerXMemory

namespace MpBases

/-- `chars_per_limb (base)`. -/
def charsPerLimb (base : ℕ) : Option ℕ :=
  if base < 2 then none
  else if base = 2 then some 32
  else if base = 3 then some 20
  else if base = 4 then some 16
  else if base = 5 then some 13
  else if base = 6 then some 12
  else if base = 7 then some 11
  else if base ≤ 9 then some 10
  else if base ≤ 11 then some 9
  else if base ≤ 16 then some 8
  else if base ≤ 23 then some 7
  else if base ≤ 40 then some 6
  else if base ≤ 84 then some 5
  else if base ≤ 256 then some 4
  else none

/-- The values of `big_base` from base 2 on. -/
def bigBases : List Natural32 := [
  0x00000001, 0xcfd41b91, 0x00000002, 0x48c27395, 0x81bf1000, 0x75db9c97, 0x00000003, 0xcfd41b91,
  0x3b9aca00, 0x8c8b6d2b, 0x19a10000, 0x309f1021, 0x57f6c100, 0x98c29b81, 0x00000004, 0x18754571,
  0x247dbc80, 0x3547667b, 0x4c4b4000, 0x6b5a6e1d, 0x94ace180, 0xcaf18367, 0x0b640000, 0x0e8d4a51,
  0x1269ae40, 0x17179149, 0x1cb91000, 0x23744899, 0x2b73a840, 0x34e63b41, 0x00000005, 0x4cfa3cc1,
  0x5c13d840, 0x6d91b519, 0x81bf1000, 0x98ede0c9, 0xb3773e40, 0xd1bbc4d1, 0xf4240000, 0x06e7d349,
  0x07ca30a0, 0x08c32bbb, 0x09d46c00, 0x0affacfd, 0x0c46bee0, 0x0dab86ef, 0x0f300000, 0x10d63af1,
  0x12a05f20, 0x1490aae3, 0x16a97400, 0x18ed2825, 0x1b5e4d60, 0x1dff8297, 0x20d38000, 0x23dd1799,
  0x271f35a0, 0x2a9ce10b, 0x2e593c00, 0x3257844d, 0x369b13e0]

/-- The values of `big_base_inverted` from base 2 on. -/
def bigBasesInverted : List Natural32 := [
  0x00000000, 0x3b563c24, 0x00000000, 0xc25c2684, 0xf91bd1b6, 0x1607a2cb, 0x00000000, 0x3b563c24,
  0x12e0be82, 0xd24cde04, 0x3fa39ab5, 0x50f8ac5f, 0x74843b1e, 0xad0326c2, 0x00000000, 0x4ef0b6bd,
  0xc0fc48a1, 0x33838942, 0xad7f29ab, 0x313c3d15, 0xb8cca9e0, 0x42ed6de9, 0x67980e0b, 0x19799812,
  0xbce85396, 0x62c103a9, 0x1d353d43, 0xce1decea, 0x790fc511, 0x35b865a0, 0x00000000, 0xa9aed1b3,
  0x63dfc229, 0x2b0fee30, 0xf91bd1b6, 0xac89c3a9, 0x6d2c32fe, 0x387907c9, 0x0c6f7a0b, 0x28928154,
  0x06e8629d, 0xd373dca0, 0xa0b17895, 0x746811a5, 0x4da6500f, 0x2ba23582, 0x0db20a88, 0xe68d5ce4,
  0xb7cdfd9d, 0x8e583933, 0x697cc3ea, 0x48a5ca6c, 0x2b52db16, 0x111586a6, 0xf31d2b36, 0xc8d76d19,
  0xa2cb1eb4, 0x807c3ec3, 0x617ec8bf, 0x45746cbe, 0x2c0aa273]

/-- `big_base (base)`. -/
def bigBase (base : ℕ) : Option Natural32 := if base < 2 then none else bigBases[base - 2]?

/-- `big_base_inverted (base)`. -/
def bigBaseInverted (base : ℕ) : Option Natural32 :=
  if base < 2 then none else bigBasesInverted[base - 2]?

/-- Bases that are powers of two, whose digits have `bits` bits. -/
structure HasBits (base bits : ℕ) : Prop where
  /-- The base is found to be a power of two. -/
  pow2 : pow2P (BitVec.ofNat 32 base) = true
  /-- The value of `big_base`. -/
  bigBase : bigBase base = some (BitVec.ofNat 32 bits)
  /-- The base is that power. -/
  base_eq : base = 2 ^ bits
  /-- A digit has a bit at least. -/
  pos : 0 < bits
  /-- A digit is found in two limbs at most. -/
  le : bits ≤ 5

/-- Other bases, for which `big` is the `chars`-th power. -/
structure HasRadix (base chars : ℕ) (big : Natural32) : Prop where
  /-- The base is not found to be a power of two. -/
  pow2 : pow2P (BitVec.ofNat 32 base) = false
  /-- The value of `chars_per_limb`. -/
  charsPerLimb : charsPerLimb base = some chars
  /-- The value of `big_base`. -/
  bigBase : bigBase base = some big
  /-- The value of `big_base_inverted` is the reciprocal. -/
  bigBaseInverted : bigBaseInverted base = some (limbInverse (big <<< leadingZeros big))
  /-- A limb has that many digits. -/
  big_eq : big.toNat = base ^ chars
  /-- A limb has a digit at least. -/
  pos : 0 < chars
  /-- The base is two at least. -/
  base_le : 2 ≤ base
  /-- A base is less than a limb. -/
  base_lt : base < 63
  /-- The square has two limbs. -/
  sq : 2 ^ 32 ≤ big.toNat * big.toNat

/-- The tables for a power of two. -/
lemma exists_bits {base : ℕ} (hlow : 2 ≤ base) (hhigh : base ≤ 62)
    (h : pow2P (BitVec.ofNat 32 base) = true) : ∃ bits, HasBits base bits := by
  have hall : ∀ b < 63, 2 ≤ b → pow2P (BitVec.ofNat 32 b) = true →
      bigBase b = some (BitVec.ofNat 32 (Nat.log2 b)) ∧ b = 2 ^ Nat.log2 b ∧ 0 < Nat.log2 b ∧
        Nat.log2 b ≤ 5 := by
    decide +kernel
  obtain ⟨hbig, heq, hpos, hle⟩ := hall base (by omega) hlow h
  exact ⟨_, h, hbig, heq, hpos, hle⟩

/-- The tables for another base. -/
lemma exists_radix {base : ℕ} (hlow : 2 ≤ base) (hhigh : base ≤ 62)
    (h : pow2P (BitVec.ofNat 32 base) = false) : ∃ chars big, HasRadix base chars big := by
  have hall : ∀ b < 63, 2 ≤ b → pow2P (BitVec.ofNat 32 b) = false →
      ((charsPerLimb b).isSome ∧ (bigBase b).isSome ∧
        bigBaseInverted b = some (limbInverse
          ((bigBase b).getD 0 <<< leadingZeros ((bigBase b).getD 0)))) ∧
        ((bigBase b).getD 0).toNat = b ^ (charsPerLimb b).getD 0 ∧ 0 < (charsPerLimb b).getD 0 ∧
        2 ^ 32 ≤ ((bigBase b).getD 0).toNat * ((bigBase b).getD 0).toNat := by
    decide +kernel
  obtain ⟨⟨hchars, hbig, hinv⟩, heq, hpos, hsq⟩ := hall base (by omega) hlow h
  obtain ⟨chars, hchars'⟩ := Option.isSome_iff_exists.mp hchars
  obtain ⟨big, hbig'⟩ := Option.isSome_iff_exists.mp hbig
  simp only [hchars', hbig', Option.getD_some] at hinv heq hpos hsq
  exact ⟨chars, big, h, hchars', hbig', hinv, heq, hpos, hlow, by omega, hsq⟩

end MpBases

/-- The class `CHARACTER_STRATEGY`, by its two descendants. -/
inductive CharacterStrategy where
  /-- `CASE_INSENSITIVE_STRATEGY`. -/
  | caseInsensitive
  /-- `CASE_SENSITIVE_STRATEGY`. -/
  | caseSensitive

namespace CharacterStrategy

/-- The characters for the digits from 0 on. -/
def digits : CharacterStrategy → String8
  | caseInsensitive => str "0123456789abcdefghijklmnopqrstuvwxyz"
  | caseSensitive => str "0123456789ABCDEFGHIJKLMNOPQRSTUVWXYZabcdefghijklmnopqrstuvwxyz"

/-- `number_to_text (in)`. -/
def numberToText (t : CharacterStrategy) (n : Natural8) : Option Character8 := t.digits[n.toNat]?

/-- The digit of the character `'a'`. -/
def lowerCase : CharacterStrategy → ℕ
  | caseInsensitive => 10
  | caseSensitive => 36

/-- `text_to_number (in)`. -/
def textToNumber (t : CharacterStrategy) (c : Character8) : Option Natural8 :=
  if 0x30 ≤ c ∧ c ≤ 0x39 then some (BitVec.ofNat 8 (c.toNat - 0x30))
  else if 0x41 ≤ c ∧ c ≤ 0x5a then some (BitVec.ofNat 8 (c.toNat - 0x41 + 10))
  else if 0x61 ≤ c ∧ c ≤ 0x7a then some (BitVec.ofNat 8 (c.toNat - 0x61 + t.lowerCase))
  else none

/-- The strategy that `get_string` writes with. -/
def output (base : ℕ) : CharacterStrategy := if base ≤ 35 then caseInsensitive else caseSensitive

/-- The strategy that `set_str` reads with. -/
def input (base : ℕ) : CharacterStrategy := if 36 < base then caseSensitive else caseInsensitive

lemma numberToText_ofNat (t : CharacterStrategy) {n : ℕ} (hn : n < t.digits.length) :
    t.numberToText (BitVec.ofNat 8 n) = some (t.digits.getD n 0) := by
  have hlen : t.digits.length < 256 := by
    cases t <;> decide
  rw [numberToText, BitVec.toNat_ofNat, Nat.mod_eq_of_lt (by omega), List.getD_eq_getElem?_getD,
    List.getElem?_eq_getElem hn, Option.getD_some]

/-- What `set_str` needs to know about the character of the digit `n`: it is read as the digit, and
it is not taken for something else. -/
structure IsDigit (base n : ℕ) (c : Character8) : Prop where
  /-- The digit. -/
  read : (input base).textToNumber c = some (BitVec.ofNat 8 n)
  /-- It is no space. -/
  not_space : isSpace c = false
  /-- It is no sign. -/
  ne_sign : c ≠ ch '-'
  /-- It is no null character. -/
  ne_null : c ≠ 0
  /-- A zero is a zero. -/
  zero_iff : c = ch '0' ↔ n = 0

/-- **Every digit** of a base is read as it is written, although the two strategies differ for base
36. -/
lemma textToNumber_numberToText {base n : ℕ} (hbase : base ≤ 62) (hn : n < base) :
    ∃ c, (output base).numberToText (BitVec.ofNat 8 n) = some c ∧ IsDigit base n c := by
  have hall : ∀ p ∈ [(caseInsensitive, caseInsensitive, 36), (caseSensitive, caseInsensitive, 36),
      (caseSensitive, caseSensitive, 62)], ∀ n < p.2.2, n < p.1.digits.length ∧
        p.2.1.textToNumber (p.1.digits.getD n 0) = some (BitVec.ofNat 8 n) ∧
        isSpace (p.1.digits.getD n 0) = false ∧ p.1.digits.getD n 0 ≠ ch '-' ∧
        p.1.digits.getD n 0 ≠ 0 ∧ (p.1.digits.getD n 0 = ch '0' ↔ n = 0) := by
    decide +kernel
  have hcase : ∃ k, (output base, input base, k) ∈ [(caseInsensitive, caseInsensitive, 36),
      (caseSensitive, caseInsensitive, 36), (caseSensitive, caseSensitive, 62)] ∧ n < k := by
    rcases Nat.lt_trichotomy base 36 with h | rfl | h
    · refine ⟨36, ?_, by omega⟩
      rw [output, input, if_pos (by omega), if_neg (by omega)]
      exact List.mem_cons_self
    · exact ⟨36, List.mem_cons_of_mem _ List.mem_cons_self, hn⟩
    · refine ⟨62, ?_, by omega⟩
      rw [output, input, if_neg (by omega), if_pos h]
      exact List.mem_cons_of_mem _ (List.mem_cons_of_mem _ List.mem_cons_self)
  obtain ⟨k, hmem, hk⟩ := hcase
  obtain ⟨hlen, hread, hspace, hsign, hnull, hzero⟩ := hall _ hmem n hk
  exact ⟨_, numberToText_ofNat _ hlen, hread, hspace, hsign, hnull, hzero⟩

end CharacterStrategy

end EiffelWeb
