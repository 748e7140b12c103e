import EiffelWeb.Crypto.Limb.IntegerXBits
import EiffelWeb.Crypto.Limb.SpecialText
import EiffelWeb.Loop

set_option relaxedAutoImplicit false
set_option autoImplicit false

/-!
# Numbers and texts

The routines `get_string` of `INTEGER_X_ACCESS` and `set_str` of `INTEGER_X_ASSIGNMENT`, with
`out_base` and `make_from_string_base` of `READABLE_INTEGER_X`. Two sizes are computed with the
floating-point table `chars_per_bit_exactly`: these are parameters of the routines here.

## Main definitions

* `CharsPerBit` — the sizes that are computed with floating-point numbers.
* `IntegerXMemory.outBase`, `IntegerXMemory.makeFromStringBase`

## Main results

* `IntegerXMemory.bits_roundTrip` — the round trip for the bases that are powers of two.
-/

namespace EiffelWeb

open Limbs Arrays SpecialAccess

/-- The sizes that are computed with `chars_per_bit_exactly`. -/
structure CharsPerBit where
  /-- `((total_bits * chars_per_bit_exactly (base)) + 1).truncated_to_integer`, for a base and
  `total_bits`. -/
  chars : ℕ → ℕ → ℕ
  /-- `(str_size / chars_per_bit_exactly (base)).truncated_to_integer`, for a base and
  `str_size`. -/
  bits : ℕ → ℕ → ℕ

namespace IntegerXMemory

/-! ## Writing a text -/

/-- `sizeinbase (source, source_offset, size, base)` of `SPECIAL_SIZING`. -/
def sizeinbase (f : CharsPerBit) (source sourceOffset size base : ℕ) (h : LimbHeap) : Option ℕ :=
  if size = 0 then some 1
  else do
    let d ← h.item source (sourceOffset + size - 1)
    let totalBits := size * 32 - leadingZeros d
    if pow2P (BitVec.ofNat 32 base) then
      let lbBase := (← MpBases.bigBase base).toNat
      return (totalBits + lbBase - 1) / lbBase
    else return f.chars base totalBits

/-- `s.remove_tail (n)`; a negative number of characters is refused. -/
def removeTail (s : String8) (n : ℤ) : Option String8 :=
  if 0 ≤ n then some (s.take (s.length - n.toNat)) else none

/-- The loop of `get_string` that replaces digits by their characters, `k` times from `i` on. The
string that is read is the one that is written. -/
def charactersLoop (numToText : CharacterStrategy) (returnStrOffset strOffset : ℕ) :
    (k i : ℕ) → String8 → Option String8
  | 0, _, s => some s
  | k + 1, i, s => do
    let c ← Text.item? s (strOffset + i : ℕ)
    let t ← (TextCursor.mk (returnStrOffset + i) s).put (← numToText.numberToText c.toBitVec)
    charactersLoop numToText returnStrOffset strOffset k (i + 1) t.target

/-- The part of `get_string` behind the call of `get_str`. -/
def finishString (numToText : CharacterStrategy) (allocSize returnStrOffset strSize : ℕ)
    (str : String8) : Option String8 := do
  let str ← removeTail str ((allocSize : ℤ) - strSize - (returnStrOffset - 1 : ℕ))
  let c ← Text.item? str returnStrOffset
  let (strSize, strOffset) :=
    if c = 0 ∧ strSize ≠ 1 then (strSize - 1, returnStrOffset + 1) else (strSize, returnStrOffset)
  charactersLoop numToText returnStrOffset strOffset strSize 0 str

/-- The array `xp` of `get_string`, the first reference that is not in use, and the arrays: for a
base that is not a power of two the limbs are copied. -/
def stringLimbs (op base : ℕ) (m : IntegerXMemory) : Option (ℕ × ℕ × LimbHeap) :=
  if pow2P (BitVec.ofNat 32 base) then some (m.item op, m.free, m.arrays)
  else do
    let xSize := (m.count op).natAbs
    let h : LimbHeap := Function.update m.arrays m.free (List.replicate (xSize + 1) 0)
    let h ← h.copyData m.free (m.item op) 0 0 xSize
    return (m.free, m.free + 1, h)

/-- `get_string (op, base)`. -/
def getString (f : CharsPerBit) (op base : ℕ) (m : IntegerXMemory) : Option String8 := do
  let xSize := m.count op
  let allocSize ← sizeinbase f (m.item op) 0 xSize.natAbs base m.arrays
  let allocSize := allocSize + if xSize < 0 then 1 else 0
  let t ← (if xSize < 0 then TextCursor.put ⟨1, List.replicate allocSize 0⟩ (ch '-')
    else some ⟨1, List.replicate allocSize 0⟩)
  let xSize := xSize.natAbs
  let (xp, fresh, h) ← stringLimbs op base m
  let (strSize, str) ← getStr fresh base xp 0 xSize h t
  finishString (CharacterStrategy.output base) allocSize t.offset strSize str

/-- `out_base (base)`. -/
def outBase (f : CharsPerBit) (x base : ℕ) (m : IntegerXMemory) : Option String8 :=
  m.getString f x base

/-! ## Reading a text -/

/-- A loop of `set_str` that goes on in the string until a character is as it should be or the
string ends: the locals `c` and `str_offset`. -/
def skipLoop (stop : Character8 → Bool) (s : String8) : Loop (Character8 × ℤ) where
  exit p := stop p.1 || !decide (Text.validIndex s p.2)
  body p := (Text.item? s p.2).map fun c => (c, p.2 + 1)

/-- The part of `set_str` that finds the base for base 0: the base, `c` and `str_offset`. -/
def findBase (s : String8) (base : ℕ) (c : Character8) (strOffset : ℤ) :
    Option (ℕ × Character8 × ℤ) :=
  if base ≠ 0 then some (base, c, strOffset)
  else if c = ch '0' then
    let c := (Text.item? s strOffset).getD c
    let strOffset := strOffset + 1
    if c = ch 'x' ∨ c = ch 'X' then
      (Text.item? s strOffset).map fun c => (16, c, strOffset + 1)
    else if c = ch 'b' ∨ c = ch 'B' then
      (Text.item? s strOffset).map fun c => (2, c, strOffset + 1)
    else some (8, c, strOffset)
  else some (10, c, strOffset)

/-- The loop of `set_str` that collects the digits, `k` times: the array `s` and `s_offset`. Behind
the end of the string `c` stays as it is. -/
def collectLoop (digitValue : CharacterStrategy) (base : ℕ) (str : String8) :
    (k : ℕ) → (c : Character8) → (strOffset : ℤ) → (sOffset : ℕ) → List Natural8 →
      Option (List Natural8 × ℕ)
  | 0, _, _, sOffset, s => some (s, sOffset)
  | k + 1, c, strOffset, sOffset, s => do
    let (s, sOffset) ← (if isSpace c then some (s, sOffset)
      else do
        let dig ← digitValue.textToNumber c
        if base ≤ dig.toNat then none
        else
          let s ← bytePut s sOffset dig
          return (s, sOffset + 1))
    let c := (Text.item? str strOffset).getD c
    collectLoop digitValue base str k c (strOffset + 1) sOffset s

/-- The part of `set_str` behind the check of the first digit. -/
def setDigits (f : CharsPerBit) (target : ℕ) (str : String8) (digitValue : CharacterStrategy)
    (negative : Bool) (base : ℕ) (c : Character8) (strOffset : ℤ) (m : IntegerXMemory) :
    Option IntegerXMemory := do
  let (c, strOffset) ← (skipLoop (fun c => c ≠ ch '0' && !isSpace c) str).run (str.length + 1)
    (c, strOffset)
  if c = 0 then
    let h ← m.arrays.put (m.item target) 0 0
    return { m with arrays := h, count := Function.update m.count target 0 }
  else
    let strSize := ((str.length : ℤ) - strOffset + 2).toNat
    let (s, strSize) ← collectLoop digitValue base str strSize c strOffset 0
      (List.replicate strSize 0)
    let xsize := f.bits base strSize / 32 + 2
    let m := m.resize target xsize
    let (xsize, h) ← SpecialAssignment.setStr (m.item target) 0 s 0 strSize base m.arrays
    let count : ℤ := if negative then -xsize else xsize
    return { m with arrays := h, count := Function.update m.count target count }

/-- `set_str (target, str, base)` of `INTEGER_X_ASSIGNMENT`; the exceptions make it fail. -/
def setStr (f : CharsPerBit) (target : ℕ) (str : String8) (base : ℕ) (m : IntegerXMemory) :
    Option IntegerXMemory := do
  let digitValue := CharacterStrategy.input base
  let (c, strOffset) ← (skipLoop (fun c => !isSpace c) str).run (str.length + 1) (ch ' ', 1)
  let negative : Bool := c = ch '-'
  let (c, strOffset) ← (if negative then
      (Text.item? str strOffset).map fun c => (c, strOffset + 1)
    else some (c, strOffset))
  let d ← digitValue.textToNumber c
  if (if base = 0 then 10 else base) ≤ d.toNat then none
  else
    let (base, c, strOffset) ← findBase str base c strOffset
    setDigits f target str digitValue negative base c strOffset m

/-- `create x.make_from_string_base (s, base)`, as the only object. -/
def makeFromStringBase (f : CharsPerBit) (s : String8) (base : ℕ) : Option IntegerXMemory :=
  defaultCreate.setStr f 0 s base

/-! ## Texts -/

/-- The digits of a number, the highest one first; zero has one digit. -/
def bigDigits (base n : ℕ) : List ℕ := if n = 0 then [0] else (Nat.digits base n).reverse

/-- The character of a digit. -/
def character (base d : ℕ) : Character8 :=
  ((CharacterStrategy.output base).numberToText (BitVec.ofNat 8 d)).getD 0

/-- The text of a number. -/
def textOf (base : ℕ) (z : ℤ) : String8 :=
  (if z < 0 then [ch '-'] else []) ++ (bigDigits base z.natAbs).map (character base)

/-- The limbs that `set_str` allocates for as many digits as a number has are enough for it. -/
def Allocates (f : CharsPerBit) (base n : ℕ) : Prop :=
  n < (2 ^ 32) ^ (f.bits base (bigDigits base n).length / 32 + 2)

lemma character_isDigit {base d : ℕ} (hbase : base ≤ 62) (hd : d < base) :
    (CharacterStrategy.output base).numberToText (BitVec.ofNat 8 d) = some (character base d) ∧
      CharacterStrategy.IsDigit base d (character base d) := by
  obtain ⟨c, hc, hdigit⟩ := CharacterStrategy.textToNumber_numberToText hbase hd
  have hchar : character base d = c := by rw [character, hc, Option.getD_some]
  rw [hchar]
  exact ⟨hc, hdigit⟩

lemma bigDigits_lt {base : ℕ} (hbase : 2 ≤ base) (n : ℕ) {d : ℕ} (hd : d ∈ bigDigits base n) :
    d < base := by
  rw [bigDigits] at hd
  split at hd
  · rw [List.mem_singleton.mp hd]
    omega
  · exact Nat.digits_lt_base (by omega) (List.mem_reverse.mp hd)

lemma bigDigits_ne_nil (base n : ℕ) : bigDigits base n ≠ [] := by
  rw [bigDigits]
  split
  · exact List.cons_ne_nil _ _
  · next hn => exact fun h => hn (Nat.digits_eq_nil_iff_eq_zero.mp (List.reverse_eq_nil_iff.mp h))

/-- The digits stand for the number. -/
lemma ofDigits_bigDigits (base n : ℕ) : Nat.ofDigits base (bigDigits base n).reverse = n := by
  rw [bigDigits]
  split
  · next hn => rw [hn, List.reverse_singleton, Nat.ofDigits_singleton]
  · rw [List.reverse_reverse, Nat.ofDigits_digits]

/-- The digits do not begin with a zero, except for zero. -/
lemma bigDigits_first (base n : ℕ) :
    ∃ d l, bigDigits base n = d :: l ∧ (d = 0 → n = 0 ∧ l = []) := by
  by_cases hn : n = 0
  · exact ⟨0, [], by rw [bigDigits, if_pos hn], fun _ => ⟨hn, rfl⟩⟩
  · have hne : Nat.digits base n ≠ [] := fun h => hn (Nat.digits_eq_nil_iff_eq_zero.mp h)
    have hlast := Nat.getLast_digit_ne_zero base hn
    refine ⟨(Nat.digits base n).getLast hne, (Nat.digits base n).dropLast.reverse, ?_,
      fun h => absurd h hlast⟩
    rw [bigDigits, if_neg hn, ← List.reverse_concat', List.dropLast_append_getLast hne]

/-- `get_str` writes the digits of a number from a position on. -/
def WritesDigits (base n : ℕ) (target : String8) (offset : ℕ) (r : Option (ℕ × String8)) : Prop :=
  r = some ((bigDigits base n).length, Special.write target (offset - 1)
    ((bigDigits base n).map fun d => toCharacter (BitVec.ofNat 8 d)))

/-! ## What is written -/

/-- **The loop over the characters** replaces digits where they are. -/
lemma charactersLoop_run {base : ℕ} (hbase : base ≤ 62) {l : List ℕ} (hl : ∀ d ∈ l, d < base)
    {offset i : ℕ} {a : String8} (ha : offset + i = a.length + 1) :
    charactersLoop (CharacterStrategy.output base) offset offset l.length i
        (a ++ l.map fun d => toCharacter (BitVec.ofNat 8 d)) =
      some (a ++ l.map (character base)) := by
  induction l generalizing i a with
  | nil => rfl
  | cons d l ih =>
    have hd := (character_isDigit hbase (hl d List.mem_cons_self)).1
    have hitem : Text.item? (a ++ (d :: l).map fun d => toCharacter (BitVec.ofNat 8 d))
        (offset + i : ℕ) = some (toCharacter (BitVec.ofNat 8 d)) :=
      Text.item?_append_cons a _ _ (by omega)
    have hput : (TextCursor.mk (offset + i) (a ++ (d :: l).map fun d =>
        toCharacter (BitVec.ofNat 8 d))).put (character base d) =
          some ⟨offset + i + 1, (a ++ [character base d]) ++ l.map fun d =>
            toCharacter (BitVec.ofNat 8 d)⟩ := by
      have hindex : offset + i - 1 = a.length := by omega
      simp only [TextCursor.put, hindex]
      rw [if_pos ⟨by omega, by simp; omega⟩]
      simp
    have hnext := ih (fun e he => hl e (List.mem_cons_of_mem d he)) (i := i + 1)
      (a := a ++ [character base d]) (by rw [List.length_append, List.length_singleton]; omega)
    rw [List.length_cons, charactersLoop, hitem]
    simp only [Option.bind_eq_bind, Option.bind_some]
    have hcode : (toCharacter (BitVec.ofNat 8 d)).toBitVec = BitVec.ofNat 8 d := rfl
    rw [hcode, hd, Option.bind_some, hput, Option.bind_some, hnext, List.append_assoc]
    rfl

/-- **The part behind `get_str`** cuts the string behind the digits and writes their characters. -/
lemma finishString_eq {base : ℕ} (hlow : 2 ≤ base) (hhigh : base ≤ 62) (n : ℕ) (a : String8) {k : ℕ}
    (hk : (bigDigits base n).length ≤ k) :
    finishString (CharacterStrategy.output base) (k + a.length) (1 + a.length)
        (bigDigits base n).length
        (Special.write (a ++ List.replicate k 0) (1 + a.length - 1)
          ((bigDigits base n).map fun d => toCharacter (BitVec.ofNat 8 d))) =
      some (a ++ (bigDigits base n).map (character base)) := by
  set u : String8 := (bigDigits base n).map fun d => toCharacter (BitVec.ofNat 8 d) with hu
  have hlen : u.length = (bigDigits base n).length := List.length_map _
  have htarget : Special.write (a ++ List.replicate k 0) (1 + a.length - 1) u =
      a ++ u ++ (List.replicate k 0).drop u.length := by
    simp [Special.write]
  have htail : removeTail (a ++ u ++ (List.replicate k 0).drop u.length)
      (((k + a.length : ℕ) : ℤ) - (bigDigits base n).length - (1 + a.length - 1 : ℕ)) =
        some (a ++ u) := by
    have hcount : (a ++ u ++ (List.replicate k (0 : Character8)).drop u.length).length -
        (((k + a.length : ℕ) : ℤ) - (bigDigits base n).length -
          (1 + a.length - 1 : ℕ)).toNat = (a ++ u).length := by
      simp only [List.length_append, List.length_drop, List.length_replicate]
      omega
    rw [removeTail, if_pos (by omega), hcount, List.take_left' rfl]
  obtain ⟨d, l, hdl, hzero⟩ := bigDigits_first base n
  have hitem : Text.item? (a ++ u) (1 + a.length : ℕ) = some (toCharacter (BitVec.ofNat 8 d)) := by
    rw [hu, hdl]
    exact Text.item?_append_cons a _ _ (by omega)
  -- no digit is dropped
  have hkeep : ¬ (toCharacter (BitVec.ofNat 8 d) = 0 ∧ (bigDigits base n).length ≠ 1) := by
    rintro ⟨h0, hne⟩
    have hd : d < base := bigDigits_lt hlow n (by rw [hdl]; exact List.mem_cons_self)
    have hnat : d = 0 := by
      have hcode := congrArg UInt8.toNat h0
      have hval : (toCharacter (BitVec.ofNat 8 d)).toNat = d % 256 := rfl
      rw [hval] at hcode
      have : (0 : UInt8).toNat = 0 := rfl
      omega
    obtain ⟨-, rfl⟩ := hzero hnat
    exact hne (by rw [hdl]; rfl)
  rw [htarget, finishString, htail]
  simp only [Option.bind_eq_bind, Option.bind_some, hitem, if_neg hkeep]
  exact charactersLoop_run hhigh (fun e he => bigDigits_lt hlow n he) (by omega)

/-- **`get_string`** is the text of the number, if `sizeinbase` is large enough and `get_str` writes
the digits. -/
lemma getString_eq {f : CharsPerBit} {m : IntegerXMemory} {x base k : ℕ} (hlow : 2 ≤ base)
    (hhigh : base ≤ 62) (hx : m.Normalised x)
    (hsize : sizeinbase f (m.item x) 0 (m.count x).natAbs base m.arrays = some k)
    (hk : (bigDigits base (m.magnitude x)).length ≤ k) {xp fresh : ℕ} {h : LimbHeap}
    (hlimbs : stringLimbs x base m = some (xp, fresh, h))
    (hget : ∀ (target : String8) (offset : ℕ), 1 ≤ offset →
      offset - 1 + (bigDigits base (m.magnitude x)).length ≤ target.length →
      WritesDigits base (m.magnitude x) target offset
        (getStr fresh base xp 0 (m.count x).natAbs h ⟨offset, target⟩)) :
    m.getString f x base = some (textOf base (m.value x)) := by
  set n := m.magnitude x with hn
  rw [getString, hsize, textOf, natAbs_value, ← hn]
  simp only [Option.bind_eq_bind, Option.bind_some]
  by_cases hneg : m.count x < 0
  · have hstart : TextCursor.put ⟨1, List.replicate (k + 1) 0⟩ (ch '-') =
        some ⟨2, [ch '-'] ++ List.replicate k 0⟩ := by
      have hroom : 1 ≤ (List.replicate (k + 1) (0 : Character8)).length := by
        rw [List.length_replicate]
        omega
      rw [TextCursor.put, if_pos ⟨le_rfl, hroom⟩]
      rfl
    have hwritten := hget ([ch '-'] ++ List.replicate k 0) 2 (by decide)
      (by rw [List.length_append, List.length_replicate, List.length_singleton]; omega)
    rw [if_pos hneg, if_pos (hx.value_neg_iff.mpr hneg), if_pos hneg, hstart, Option.bind_some,
      hlimbs, Option.bind_some, hwritten, Option.bind_some]
    exact finishString_eq hlow hhigh n [ch '-'] hk
  · have hwritten := hget (List.replicate k 0) 1 le_rfl
      (by rw [List.length_replicate]; omega)
    rw [if_neg hneg, if_neg (fun h => hneg (hx.value_neg_iff.mp h)), if_neg hneg, Option.bind_some,
      hlimbs, Option.bind_some, Nat.add_zero, hwritten, Option.bind_some]
    exact finishString_eq hlow hhigh n [] hk

/-- Zero is written with one digit in every base. -/
lemma getStr_zero {base : ℕ} (fresh op1 : ℕ) (h : LimbHeap) {target : String8} {offset : ℕ}
    (hoffset : 1 ≤ offset) (hroom : offset - 1 + (bigDigits base 0).length ≤ target.length) :
    WritesDigits base 0 target offset (getStr fresh base op1 0 0 h ⟨offset, target⟩) := by
  have hzero : bigDigits base 0 = [0] := if_pos rfl
  rw [hzero, List.length_singleton] at hroom
  have hput : TextCursor.put ⟨offset, target⟩ 0 =
      some ⟨offset + 1, Special.write target (offset - 1) [0]⟩ := by
    rw [TextCursor.put, if_pos ⟨hoffset, show offset ≤ target.length by omega⟩,
      Special.set_eq_write 0 (show offset - 1 < target.length by omega)]
  rw [WritesDigits, getStr, if_pos rfl, hput, hzero]
  rfl

/-- **`get_str`** for a power of two writes the digits of the absolute value. -/
lemma getStr_bits {m : IntegerXMemory} {x base bits : ℕ} (hx : m.Normalised x)
    (hbase : MpBases.HasBits base bits) (fresh : ℕ) {target : String8} {offset : ℕ}
    (hoffset : 1 ≤ offset)
    (hroom : offset - 1 + (bigDigits base (m.magnitude x)).length ≤ target.length) :
    WritesDigits base (m.magnitude x) target offset
      (getStr fresh base (m.item x) 0 (m.count x).natAbs m.arrays ⟨offset, target⟩) := by
  by_cases hzero : (m.count x).natAbs = 0
  · rw [magnitude_eq_zero hzero] at hroom ⊢
    rw [hzero]
    exact getStr_zero fresh _ _ hoffset hroom
  · have hne : m.magnitude x ≠ 0 := by
      have hlow := (normalised_iff.mp hx).2 (by omega)
      exact (lt_of_lt_of_le (Nat.pow_pos (by decide)) hlow).ne'
    obtain ⟨hpow, hbig, rfl, hbits, hle⟩ := hbase
    have hdigits : bigDigits (2 ^ bits) (m.magnitude x) =
        (Nat.digits (2 ^ bits) (m.magnitude x)).reverse := if_neg hne
    have hchars : digitChars (2 ^ bits) (m.magnitude x) 0 =
        (bigDigits (2 ^ bits) (m.magnitude x)).map fun d => toCharacter (BitVec.ofNat 8 d) := by
      rw [digitChars, List.drop_zero, hdigits]
    have hbigNat : (BitVec.ofNat 32 bits).toNat = bits := by
      rw [BitVec.toNat_ofNat, Nat.mod_eq_of_lt (by omega)]
    have hrun := getStrBits_eq hx (by omega) hbits hle hoffset
      (by rwa [hdigits, List.length_reverse] at hroom)
    rw [WritesDigits, getStr, if_neg hzero, if_pos hpow, hbig]
    simp only [Option.bind_eq_bind, Option.bind_some, hbigNat, hrun]
    rw [hchars, TextCursor.after, List.length_map, Nat.add_sub_cancel_left]
    rfl

/-- **The text of a number** in a base that is a power of two. -/
lemma outBase_bits {m : IntegerXMemory} {x base bits : ℕ} (hx : m.Normalised x)
    (hbase : MpBases.HasBits base bits) (f : CharsPerBit) :
    m.outBase f x base = some (textOf base (m.value x)) := by
  obtain ⟨hpow, hbig, hbaseEq, hbits, hle⟩ := id hbase
  have hlow : 2 ≤ base := hbaseEq ▸ Nat.le_self_pow hbits.ne' 2
  have hhigh : base ≤ 62 := by
    have : base ≤ 2 ^ 5 := hbaseEq ▸ Nat.pow_le_pow_right (by decide) hle
    omega
  have hsize : sizeinbase f (m.item x) 0 (m.count x).natAbs base m.arrays =
      some (bigDigits base (m.magnitude x)).length := by
    rw [sizeinbase]
    by_cases hzero : (m.count x).natAbs = 0
    · rw [if_pos hzero, magnitude_eq_zero hzero]
      rfl
    · obtain ⟨d, hd, hbitsEq⟩ := hx.bits_eq hzero
      have hne : m.magnitude x ≠ 0 := by
        have hmag := (normalised_iff.mp hx).2 (by omega)
        exact (lt_of_lt_of_le (Nat.pow_pos (by decide)) hmag).ne'
      have hbigNat : (BitVec.ofNat 32 bits).toNat = bits := by
        rw [BitVec.toNat_ofNat, Nat.mod_eq_of_lt (by omega)]
      rw [if_neg hzero, Nat.zero_add, hd]
      simp only [Option.bind_eq_bind, Option.bind_some, if_pos hpow, hbig, hbigNat, hbitsEq]
      rw [bigDigits, if_neg hne, List.length_reverse, hbaseEq, length_digits_two_pow hbits,
        Nat.add_sub_assoc hbits]
      rfl
  have hlimbs : stringLimbs x base m = some (m.item x, m.free, m.arrays) := if_pos hpow
  exact getString_eq hlow hhigh hx hsize le_rfl hlimbs fun target offset hoffset hroom =>
    getStr_bits hx hbase _ hoffset hroom

/-! ## What is read -/

section Read

variable {base : ℕ} {l : List ℕ} {a : String8}

/-- One more digit is collected. -/
lemma collectLoop_digit (hbase : base ≤ 62) {d : ℕ} (hd : d < base) (str : String8) (k : ℕ)
    (strOffset : ℤ) {u : List Natural8} {i : ℕ} (hi : i < u.length) :
    collectLoop (CharacterStrategy.input base) base str (k + 1) (character base d) strOffset i u =
      collectLoop (CharacterStrategy.input base) base str k
        ((Text.item? str strOffset).getD (character base d)) (strOffset + 1) (i + 1)
        (Special.write u i [BitVec.ofNat 8 d]) := by
  have hdigit := (character_isDigit hbase hd).2
  have hless : ¬ base ≤ (BitVec.ofNat 8 d).toNat := by
    rw [BitVec.toNat_ofNat, Nat.mod_eq_of_lt (by omega)]
    omega
  have hput : bytePut u i (BitVec.ofNat 8 d) = some (Special.write u i [BitVec.ofNat 8 d]) := by
    rw [bytePut_eq hi, Special.set_eq_write _ hi]
  rw [collectLoop, if_neg (by rw [hdigit.not_space]; exact Bool.false_ne_true), hdigit.read]
  simp only [Option.bind_eq_bind, Option.bind_some, if_neg hless, hput]
  rfl

/-- **The loop that collects the digits.**

**Proof sketch.** Induction on the digits behind the one in `c`, with the text before them. -/
lemma collectLoop_run (hbase : base ≤ 62) (hl : ∀ d ∈ l, d < base) {d : ℕ} (hd : d < base)
    {strOffset : ℤ} (hoffset : strOffset = a.length + 1) {u : List Natural8} {i : ℕ}
    (hroom : i + (l.length + 1) ≤ u.length) :
    collectLoop (CharacterStrategy.input base) base (a ++ l.map (character base)) (l.length + 1)
        (character base d) strOffset i u =
      some (Special.write u i ((d :: l).map fun d => BitVec.ofNat 8 d), i + (l.length + 1)) := by
  induction l generalizing d strOffset i u a with
  | nil =>
    rw [collectLoop_digit hbase hd _ _ _ (by omega)]
    rfl
  | cons e l ih =>
    rw [List.length_cons] at hroom
    have hitem : Text.item? (a ++ (e :: l).map (character base)) strOffset =
        some (character base e) := Text.item?_append_cons a _ _ hoffset
    have htext : a ++ (e :: l).map (character base) =
        (a ++ [character base e]) ++ l.map (character base) := by
      rw [List.append_assoc]
      rfl
    have hwritten : (Special.write u i [BitVec.ofNat 8 d]).length = u.length :=
      Special.length_write (by rw [List.length_singleton]; omega)
    rw [collectLoop_digit hbase hd _ _ _ (by omega), hitem, Option.getD_some, htext,
      List.length_cons, ih (fun f hf => hl f (List.mem_cons_of_mem e hf)) (hl e List.mem_cons_self)
        (by rw [hoffset, List.length_append, List.length_singleton]; push_cast; ring)
        (by rw [hwritten]; omega),
      Special.write_write (by rw [List.length_singleton])
        (by rw [List.length_singleton]; omega)]
    simp only [List.map_cons, List.singleton_append, Option.some.injEq, Prod.mk.injEq, true_and]
    omega

/-- The first loop of `set_str` reads the first character. -/
lemma skipSpaces_run {c : Character8} (hc : isSpace c = false) (s : String8) :
    (skipLoop (fun c => !isSpace c) (c :: s)).run ((c :: s).length + 1) (ch ' ', 1) =
      some (c, 2) := by
  have hblank : isSpace (ch ' ') = true := by decide
  have hvalid : Text.validIndex (c :: s) 1 := by
    refine ⟨le_rfl, ?_⟩
    rw [List.length_cons]
    omega
  have hitem : Text.item? (c :: s) 1 = some c := Text.item?_append_cons [] c s rfl
  have hbody : (skipLoop (fun c => !isSpace c) (c :: s)).body (ch ' ', 1) = some (c, 2) := by
    simp [skipLoop, hitem]
  rw [Loop.run_succ (by simp [skipLoop, hblank, hvalid]) hbody,
    Loop.run_of_exit (by simp [skipLoop, hc])]

end Read

/-- `set_str` of `SPECIAL_ASSIGNMENT` stores a number that its digits are read from. -/
def ReadsDigits (base n : ℕ) : Prop :=
  ∀ (h : LimbHeap) (target : ℕ), n < (2 ^ 32) ^ (h target).length →
    SpecialAssignment.Stores target 0 n h (SpecialAssignment.setStr target 0
      ((bigDigits base n).map fun d => BitVec.ofNat 8 d) 0 (bigDigits base n).length base h)

/-- **The part of `set_str` behind the check** of the first digit, for the digits of a number. -/
lemma setDigits_run {f : CharsPerBit} {m : IntegerXMemory} (hm : m.WellFormed) {target : ℕ}
    (ht : target < m.objects) {base n : ℕ} (hlow : 2 ≤ base) (hhigh : base ≤ 62)
    (hroom : Allocates f base n)
    (hread : ReadsDigits base n) {d : ℕ} {l : List ℕ} (hdl : bigDigits base n = d :: l)
    (a : String8) (negative : Bool) :
    ∃ m', setDigits f target (a ++ (d :: l).map (character base)) (CharacterStrategy.input base)
        negative base (character base d) (a.length + 2) m = some m' ∧
      m.Outcome m' target (if negative then -(n : ℤ) else n) := by
  set str := a ++ (d :: l).map (character base) with hstr
  have hd : d < base := bigDigits_lt hlow n (by rw [hdl]; exact List.mem_cons_self)
  have hl : ∀ e ∈ l, e < base := fun e he =>
    bigDigits_lt hlow n (by rw [hdl]; exact List.mem_cons_of_mem d he)
  have hdigit := (character_isDigit hhigh hd).2
  have hlen : str.length = a.length + (l.length + 1) := by
    rw [hstr, List.length_append, List.length_map, List.length_cons]
  -- the first digit is no zero, or there is no other one
  have hskip : (skipLoop (fun c => c ≠ ch '0' && !isSpace c) str).run (str.length + 1)
      (character base d, (a.length : ℤ) + 2) = some (character base d, (a.length : ℤ) + 2) := by
    refine Loop.run_of_exit ?_ _
    by_cases hzero : d = 0
    · obtain ⟨d', l', hdl', honly⟩ := bigDigits_first base n
      obtain ⟨rfl, rfl⟩ : d = d' ∧ l = l' := by simpa [hdl] using hdl'
      obtain ⟨-, hnil⟩ := honly hzero
      have hend : ¬ Text.validIndex str ((a.length : ℤ) + 2) := fun hvalid => by
        have := hvalid.2
        rw [hlen, hnil, List.length_nil] at this
        omega
      simp [skipLoop, hend]
    · have hne : character base d ≠ ch '0' := fun h => hzero (hdigit.zero_iff.mp h)
      simp [skipLoop, hne, hdigit.not_space]
  have hsize : ((str.length : ℤ) - ((a.length : ℤ) + 2) + 2).toNat = l.length + 1 := by omega
  have hoffset : (a.length : ℤ) + 2 = (a ++ [character base d]).length + 1 := by
    rw [List.length_append, List.length_singleton]
    push_cast
    ring
  have hcollect := collectLoop_run hhigh hl hd hoffset (u := List.replicate (l.length + 1) 0)
    (i := 0) (by rw [List.length_replicate]; omega)
  have htext : (a ++ [character base d]) ++ l.map (character base) = str := by
    rw [List.append_assoc]
    rfl
  rw [htext, Special.write_all (by simp), Nat.zero_add, ← hdl] at hcollect
  have hcount : l.length + 1 = (bigDigits base n).length := by
    rw [hdl, List.length_cons]
  rw [hcount] at hcollect hsize
  obtain ⟨hext, hcap⟩ := extends_resize hm ht (f.bits base (bigDigits base n).length / 32 + 2)
  set m₁ := m.resize target (f.bits base (bigDigits base n).length / 32 + 2) with hm₁
  obtain ⟨size, hrun, hfits, hlt, hneed⟩ := hread m₁.arrays (m₁.item target)
    (lt_of_lt_of_le hroom (Nat.pow_le_pow_right (by decide) hcap))
  rw [Nat.zero_add] at hfits
  have habs : (if negative = true then -(size : ℤ) else size).natAbs = size := by
    split <;> simp
  have hout := hext.outcome_setNumber (u := ofNat 32 size n)
    (c := if negative = true then -(size : ℤ) else size) ht (by rw [length_ofNat]; exact hfits)
    (by rw [length_ofNat, habs])
    (v := n) (by rw [habs, List.take_of_length_le (by rw [length_ofNat]),
      value_ofNat_of_lt hlt]) (fun hne => by
        rw [habs]
        exact hneed fun h0 => hne (by rw [h0]; simp))
  have hvalue : (if negative = true then -(size : ℤ) else size).sign * (n : ℤ) =
      if negative = true then -(n : ℤ) else n := by
    by_cases hzero : size = 0
    · have hn : n = 0 := by
        rw [hzero, pow_zero] at hlt
        omega
      rw [hzero, hn]
      split <;> rfl
    · have hpos : 0 < (size : ℤ) := by omega
      cases negative
      · rw [if_neg Bool.false_ne_true, if_neg Bool.false_ne_true, Int.sign_eq_one_of_pos hpos,
          Int.one_mul]
      · rw [if_pos rfl, if_pos rfl, Int.sign_neg, Int.sign_eq_one_of_pos hpos, Int.neg_mul,
          Int.one_mul]
  rw [hvalue] at hout
  refine ⟨_, ?_, hout⟩
  simp only [setDigits, hskip, Option.bind_eq_bind, Option.bind_some, if_neg hdigit.ne_null, hsize,
    hcollect, ← hm₁, hrun]
  rfl

/-- **`set_str`** of the text of a number. -/
lemma setStr_textOf {f : CharsPerBit} {m : IntegerXMemory} (hm : m.WellFormed) {target : ℕ}
    (ht : target < m.objects) {base : ℕ} (hlow : 2 ≤ base) (hhigh : base ≤ 62) {z : ℤ}
    (hroom : Allocates f base z.natAbs)
    (hread : ReadsDigits base z.natAbs) :
    ∃ m', m.setStr f target (textOf base z) base = some m' ∧ m.Outcome m' target z := by
  obtain ⟨d, l, hdl, -⟩ := bigDigits_first base z.natAbs
  have hd : d < base := bigDigits_lt hlow z.natAbs (by rw [hdl]; exact List.mem_cons_self)
  have hdigit := (character_isDigit hhigh hd).2
  have hless : ¬ (if base = 0 then 10 else base) ≤ (BitVec.ofNat 8 d).toNat := by
    rw [if_neg (by omega), BitVec.toNat_ofNat, Nat.mod_eq_of_lt (by omega)]
    omega
  have hfind (str : String8) (c : Character8) (i : ℤ) :
      findBase str base c i = some (base, c, i) := if_pos (by omega)
  by_cases hneg : z < 0
  · have htext : textOf base z = ch '-' :: (d :: l).map (character base) := by
      rw [textOf, if_pos hneg, hdl]
      rfl
    obtain ⟨m', hrun, hout⟩ := setDigits_run hm ht hlow hhigh hroom hread hdl [ch '-'] true
    have hitem : Text.item? (ch '-' :: (d :: l).map (character base)) 2 =
        some (character base d) := Text.item?_append_cons [ch '-'] _ _ rfl
    have hsign : (if true = true then -(z.natAbs : ℤ) else z.natAbs) = z := by
      rw [if_pos rfl]
      omega
    rw [hsign] at hout
    refine ⟨m', ?_, hout⟩
    rw [setStr, htext, skipSpaces_run (by decide)]
    simp only [Option.bind_eq_bind, Option.bind_some, decide_true, if_true, hitem, Option.map_some,
      hdigit.read, if_neg hless, hfind]
    exact hrun
  · have htext : textOf base z = (d :: l).map (character base) := by
      rw [textOf, if_neg hneg, hdl]
      rfl
    obtain ⟨m', hrun, hout⟩ := setDigits_run hm ht hlow hhigh hroom hread hdl [] false
    have hsign : (if false = true then -(z.natAbs : ℤ) else z.natAbs) = z := by
      rw [if_neg Bool.false_ne_true]
      omega
    rw [hsign] at hout
    refine ⟨m', ?_, hout⟩
    rw [setStr, htext, List.map_cons, skipSpaces_run hdigit.not_space]
    simp only [Option.bind_eq_bind, Option.bind_some, decide_eq_false hdigit.ne_sign,
      Bool.false_eq_true, if_false, hdigit.read, if_neg hless, hfind]
    exact hrun

/-- The digits of a number are read from the low end. -/
lemma getElem?_bigDigits {base n j : ℕ} (hj : j < (bigDigits base n).reverse.length) :
    ((bigDigits base n).map fun d => BitVec.ofNat 8 d)[0 + ((bigDigits base n).reverse.length - 1 -
      j)]? = some (BitVec.ofNat 8 ((bigDigits base n).reverse.getD j 0)) := by
  have hlen : (bigDigits base n).reverse.length = (bigDigits base n).length := List.length_reverse
  rw [List.getElem?_map, List.getD_eq_getElem?_getD, List.getElem?_reverse (by omega), hlen,
    Nat.zero_add, List.getElem?_eq_getElem (by omega)]
  rfl

/-- A number has the limbs that its first digit needs. -/
lemma pow_length_le {base : ℕ} (hbase : 2 ≤ base) (n : ℕ) :
    base ^ ((bigDigits base n).length - 1) ≤ n ∨ (bigDigits base n).length ≤ 1 := by
  by_cases hn : n = 0
  · exact Or.inr (by rw [bigDigits, if_pos hn, List.length_singleton])
  · refine Or.inl ?_
    rw [bigDigits, if_neg hn, List.length_reverse]
    by_contra hlt
    have hle := (Nat.digits_length_le_iff (by omega) n).mpr (not_le.mp hlt)
    have hpos := List.length_pos_iff.mpr (Nat.digits_ne_nil_iff_ne_zero (b := base).mpr hn)
    omega

/-- **`set_str`** for a power of two stores the number. -/
lemma readsDigits_bits {base bits : ℕ} (hbase : MpBases.HasBits base bits) (n : ℕ) :
    ReadsDigits base n := by
  intro h target hroom
  have hlow : 2 ≤ base := hbase.base_eq ▸ Nat.le_self_pow hbase.pos.ne' 2
  have hvalue := ofDigits_bigDigits base n
  have hlen : (bigDigits base n).reverse.length = (bigDigits base n).length := List.length_reverse
  have hstored : SpecialAssignment.Stores target 0 (Nat.ofDigits base (bigDigits base n).reverse) h
      (SpecialAssignment.setStr target 0 ((bigDigits base n).map fun d => BitVec.ofNat 8 d) 0
        (bigDigits base n).reverse.length base h) :=
    SpecialAssignment.setStr_bits hbase
      (fun d hd => bigDigits_lt hlow n (List.mem_reverse.mp hd))
      (fun j hj => getElem?_bigDigits hj) (by rw [hvalue, hlen]; exact pow_length_le hlow n)
      (Nat.zero_le _) (by rw [hvalue]; exact hroom)
  rwa [hvalue, hlen] at hstored

/-! ## Round trips -/

/-- The text of a number in a base: a minus sign for a number below zero, and digits that stand for
its absolute value and do not begin with a zero except for zero. -/
def IsTextOf (base : ℕ) (z : ℤ) (s : String8) : Prop :=
  ∃ l : List ℕ, l ≠ [] ∧ (∀ d ∈ l, d < base) ∧ Nat.ofDigits base l.reverse = z.natAbs ∧
    (l.head? = some 0 → z = 0) ∧ s = (if z < 0 then [ch '-'] else []) ++ l.map (character base)

lemma isTextOf_textOf {base : ℕ} (hbase : 2 ≤ base) (z : ℤ) : IsTextOf base z (textOf base z) := by
  obtain ⟨d, l, hdl, hzero⟩ := bigDigits_first base z.natAbs
  refine ⟨bigDigits base z.natAbs, bigDigits_ne_nil base _, fun d hd => bigDigits_lt hbase _ hd,
    ofDigits_bigDigits base _, fun hhead => ?_, rfl⟩
  rw [hdl, List.head?_cons] at hhead
  exact Int.natAbs_eq_zero.mp (hzero (Option.some.inj hhead)).1

/-- **`make_from_string_base`** of the text of a number. -/
lemma makeFromStringBase_textOf {f : CharsPerBit} {base : ℕ} (hlow : 2 ≤ base) (hhigh : base ≤ 62)
    {z : ℤ} (hroom : Allocates f base z.natAbs) (hread : ReadsDigits base z.natAbs) :
    ∃ m', makeFromStringBase f (textOf base z) base = some m' ∧ m'.Normalised 0 ∧
      m'.value 0 = z := by
  obtain ⟨m', hrun, hout⟩ := setStr_textOf (m := defaultCreate) ⟨by decide, by decide⟩
    (show 0 < defaultCreate.objects by decide) hlow hhigh hroom hread
  exact ⟨m', hrun, hout.normalised, hout.value⟩

/-- **The round trip** for the bases 2, 4, 8, 16 and 32: `out_base` is the text of the number, which
does not begin with a zero except for zero, and `make_from_string_base` makes a normalised object
that stands for the same number, if the limbs that it allocates are enough. -/
theorem bits_roundTrip (f : CharsPerBit) (m : IntegerXMemory) (x : ℕ) (hx : m.Normalised x)
    (base : ℕ) (hbase : base ∈ [2, 4, 8, 16, 32])
    (hroom : Allocates f base (m.value x).natAbs) :
    ∃ s m', m.outBase f x base = some s ∧ IsTextOf base (m.value x) s ∧
      makeFromStringBase f s base = some m' ∧ m'.Normalised 0 ∧ m'.value 0 = m.value x := by
  have hall : ∀ b ∈ [2, 4, 8, 16, 32],
      2 ≤ b ∧ b ≤ 62 ∧ pow2P (BitVec.ofNat 32 b) = true := by
    decide
  obtain ⟨hlow, hhigh, hpow⟩ := hall base hbase
  obtain ⟨bits, hbits⟩ := MpBases.exists_bits hlow hhigh hpow
  obtain ⟨m', hrun, hnorm, hvalue⟩ := makeFromStringBase_textOf hlow hhigh hroom
    (readsDigits_bits hbits _)
  exact ⟨_, m', outBase_bits hx hbits f, isTextOf_textOf hlow _, hrun, hnorm, hvalue⟩

/-- The number `-(2 ^ 33 + 5)` in base 8, where a digit is in two limbs. -/
theorem bits_roundTrip_straddling :
    let f : CharsPerBit := ⟨fun _ bits => bits, fun _ chars => 3 * chars⟩
    ∃ s m', (single [5, 2] (-2)).outBase f 0 8 = some s ∧
      IsTextOf 8 ((single [5, 2] (-2)).value 0) s ∧
      makeFromStringBase f s 8 = some m' ∧ m'.Normalised 0 ∧
      m'.value 0 = (single [5, 2] (-2)).value 0 :=
  bits_roundTrip ⟨fun _ bits => bits, fun _ chars => 3 * chars⟩ (single [5, 2] (-2)) 0
    ⟨by decide, by decide⟩ 8 (by decide)
    (lt_of_lt_of_le (show ((single [5, 2] (-2)).value 0).natAbs < (2 ^ 32) ^ 2 by decide)
      (Nat.pow_le_pow_right (by decide) (Nat.le_add_left 2 _)))

end IntegerXMemory

end EiffelWeb
