import Mathlib.Data.List.Basic
import Mathlib.Tactic.Common
import EiffelWeb.Crypto.IntegerX

set_option relaxedAutoImplicit false
set_option autoImplicit false

/-!
# Lengths in the distinguished encoding rules

The routines of `DER_FACILITIES` that write and read a length. The writer has a short form of one
byte and a long form of a prefix `0x84` and four bytes. The reader looks at an item of its source
and goes on by `process`; it takes the number of bytes of a long form from the prefix and then reads
that many bytes, starting with the prefix itself.

A source is an array with the position of the next item. A sink appends to an array. Numbers of
class `INTEGER_X` are exact.

## Main definitions

* `DerFacilities.definiteLength`, `DerFacilities.definiteShortLength`,
  `DerFacilities.definiteLongLength` — the writer.
* `ArrayDerSource` — the source.
* `DerFacilities.decodeLength`, `DerFacilities.decodeShortLength`,
  `DerFacilities.decodeLongLength` — the reader.
* `DerFacilities.LengthRoundTrip` — the reader returns the length and stands behind its bytes.

## Main results

* `DerFacilities.readBytes_position` — the position after a long form.
* `DerFacilities.lengthRoundTrip_iff` — the round trip holds for the short form only.
-/

namespace EiffelWeb

/-- `ARRAY_DER_SOURCE`. Positions count from the lower index of the array. -/
structure ArrayDerSource where
  /-- `source`. -/
  source : List Natural8
  /-- `current_index`. -/
  currentIndex : ℕ

namespace ArrayDerSource

/-- `item`; there is none behind the end of the array. -/
def item (s : ArrayDerSource) : Option Natural8 := s.source[s.currentIndex]?

/-- `process`. -/
def process (s : ArrayDerSource) : ArrayDerSource :=
  { s with currentIndex := s.currentIndex + 1 }

end ArrayDerSource

namespace DerFacilities

/-! ## Writing a length -/

/-- `definite_short_length (target, length)`: the octets in the sink afterwards. -/
def definiteShortLength (target : List Natural8) (length : BitVec 32) : List Natural8 :=
  target ++ [length.setWidth 8]

/-- `definite_long_length (target, length)`. -/
def definiteLongLength (target : List Natural8) (length : BitVec 32) : List Natural8 :=
  target ++ [0x84, (length.sshiftRight 24).setWidth 8, (length.sshiftRight 16).setWidth 8,
    (length.sshiftRight 8).setWidth 8, (length.sshiftRight 0).setWidth 8]

/-- `definite_length (target, length)`. -/
def definiteLength (target : List Natural8) (length : BitVec 32) : List Natural8 :=
  if length.toInt ≤ 127 then definiteShortLength target length
  else definiteLongLength target length

/-! ## Reading a length -/

/-- `decode_short_length (source)`: the number, and the source afterwards. -/
def decodeShortLength (source : ArrayDerSource) : Option (ℕ × ArrayDerSource) :=
  source.item.map fun b => (b.toNat, source.process)

/-- `n.set_bit_value (True, i)`. -/
def setBitValue (n i : ℕ) : ℕ := n ||| 2 ^ i

/-- The inner loop of `decode_long_length`, which copies the bits of the item: the argument counts
`current_bit` down, and `current_byte` is one more than `byte`. -/
def copyBits (item : Natural8) (byte : ℕ) : ℕ → ℕ → ℕ
  | 0, result => result
  | bit + 1, result =>
    copyBits item byte bit
      (if item.getLsbD bit then setBitValue result (byte * 8 + bit) else result)

/-- The outer loop of `decode_long_length`: the argument counts `current_byte` down. -/
def readBytes : ℕ → ArrayDerSource → ℕ → Option (ℕ × ArrayDerSource)
  | 0, source, result => some (result, source)
  | byte + 1, source, result =>
    source.item.bind fun b => readBytes byte source.process (copyBits b byte 8 result)

/-- `decode_long_length (source)`; there is no result if it raises `DER_ENCODING`. -/
def decodeLongLength (source : ArrayDerSource) : Option (ℕ × ArrayDerSource) :=
  source.item.bind fun b =>
    let lengthCount := (b &&& 0x7f).toNat
    if lengthCount = 127 then none else readBytes lengthCount source 0

/-- `decode_length (source)`. -/
def decodeLength (source : ArrayDerSource) : Option (ℕ × ArrayDerSource) :=
  source.item.bind fun b =>
    if b.toNat ≤ 127 then decodeShortLength source else decodeLongLength source

/-! ## The round trip -/

/-- On a source positioned at the bytes that were written for `length` behind `before`, and followed
by `after`, the reader returns `length` and stands behind these bytes. -/
def LengthRoundTrip (before after : List Natural8) (length : BitVec 32) : Prop :=
  ∃ result source, decodeLength ⟨definiteLength before length ++ after, before.length⟩ =
      some (result, source) ∧
    (result : ℤ) = length.toInt ∧
    source = ⟨definiteLength before length ++ after, (definiteLength before length).length⟩

/-- The loop over the bytes leaves the array alone and moves the position by one for each byte. -/
lemma readBytes_position {count : ℕ} {s s' : ArrayDerSource} {r r' : ℕ}
    (h : readBytes count s r = some (r', s')) :
    s' = ⟨s.source, s.currentIndex + count⟩ := by
  induction count generalizing s r with
  | zero =>
    simp only [readBytes, Option.some.injEq, Prod.mk.injEq] at h
    exact h.2.symm
  | succ count ih =>
    obtain ⟨b, -, hb⟩ := Option.bind_eq_some_iff.mp h
    rw [ih hb, ArrayDerSource.process]
    simp only [ArrayDerSource.mk.injEq, true_and]
    omega

/-- The first item behind `before`. -/
lemma item_append (before after : List Natural8) (b : Natural8) :
    ArrayDerSource.item ⟨before ++ b :: after, before.length⟩ = some b := by
  simp [ArrayDerSource.item]

/-- A non-negative length of at most 127 is its last byte. -/
lemma toNat_setWidth_of_le {length : BitVec 32} (h₀ : 0 ≤ length.toInt)
    (h : length.toInt ≤ 127) : ((length.setWidth 8).toNat : ℤ) = length.toInt := by
  rw [BitVec.toInt_eq_toNat_of_lt] at h ⊢
  · rw [BitVec.toNat_setWidth]
    omega
  · exact BitVec.toInt_pos_iff.mp h₀
  · exact BitVec.toInt_pos_iff.mp h₀

/-- The short form is read back. -/
lemma lengthRoundTrip_of_le (before after : List Natural8) {length : BitVec 32}
    (h₀ : 0 ≤ length.toInt) (h : length.toInt ≤ 127) : LengthRoundTrip before after length := by
  have hbyte := toNat_setWidth_of_le h₀ h
  have hbytes : definiteLength before length ++ after = before ++ length.setWidth 8 :: after := by
    rw [definiteLength, if_pos h, definiteShortLength]
    simp
  have hlen : (definiteLength before length).length = before.length + 1 := by
    rw [definiteLength, if_pos h, definiteShortLength]
    simp
  unfold LengthRoundTrip
  rw [hlen, hbytes]
  refine ⟨(length.setWidth 8).toNat, _, ?_, hbyte, rfl⟩
  rw [decodeLength, item_append, Option.bind_some, if_pos (by omega), decodeShortLength,
    item_append, Option.map_some]
  rfl

/-- The reader stands one byte too early behind the long form.

**Proof sketch.** The prefix `0x84` announces four bytes. The loop starts at the prefix, so that it
has read the prefix and three of the four bytes when it ends. -/
lemma not_lengthRoundTrip_of_lt (before after : List Natural8) {length : BitVec 32}
    (h : 127 < length.toInt) : ¬ LengthRoundTrip before after length := by
  rintro ⟨result, source, hdec, -, hpos⟩
  have hlong : definiteLength before length = definiteLongLength before length := by
    rw [definiteLength, if_neg (by omega)]
  have hlen : (definiteLength before length).length = before.length + 5 := by
    rw [hlong, definiteLongLength]
    simp
  have hitem : ArrayDerSource.item ⟨definiteLength before length ++ after, before.length⟩ =
      some 0x84 := by
    rw [hlong, definiteLongLength, List.append_assoc]
    exact item_append before _ 0x84
  rw [decodeLength, hitem, Option.bind_some, if_neg (by decide), decodeLongLength, hitem,
    Option.bind_some] at hdec
  have hread : readBytes 4 ⟨definiteLength before length ++ after, before.length⟩ 0 =
      some (result, source) := hdec
  have hend := readBytes_position hread
  rw [hpos, hlen] at hend
  simp only [ArrayDerSource.mk.injEq, true_and] at hend
  omega

/-- **Round trip of a length.** For every non-negative length, whatever stands before and behind its
bytes, the reader returns the length and stands behind its bytes if and only if the writer uses the
short form. -/
theorem lengthRoundTrip_iff (before after : List Natural8) (length : BitVec 32)
    (h₀ : 0 ≤ length.toInt) : LengthRoundTrip before after length ↔ length.toInt ≤ 127 := by
  constructor
  · intro h
    by_contra hlt
    exact not_lengthRoundTrip_of_lt before after (by omega) h
  · exact lengthRoundTrip_of_le before after h₀

/-- The length 127, at the end of a sequence of bytes. -/
theorem lengthRoundTrip_127 : LengthRoundTrip [0x30] [] 127 :=
  (lengthRoundTrip_iff [0x30] [] 127 (by decide)).mpr (by decide)

/-- The length 128: the reader returns `0x84000000` and stands at the last byte. -/
theorem not_lengthRoundTrip_128 :
    ¬ ∀ (before after : List Natural8) (length : BitVec 32), 0 ≤ length.toInt →
      LengthRoundTrip before after length :=
  fun h => not_lengthRoundTrip_of_lt [] [] (by decide) (h [] [] 128 (by decide))

/-- What the reader makes of the bytes of 128. -/
example : (decodeLength ⟨definiteLength [] 128, 0⟩).map (fun r => (r.1, r.2.currentIndex)) =
    some (0x84000000, 4) := by decide

end DerFacilities

end EiffelWeb
