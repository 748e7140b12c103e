import EiffelWeb.Crypto.DerFacilities
import EiffelWeb.Crypto.Limb.IntegerXBits
import EiffelWeb.Crypto.Limb.IntegerXMul
import EiffelWeb.TwosComplement

set_option relaxedAutoImplicit false
set_option autoImplicit false

/-!
# Integers in the distinguished encoding rules

The routine `encode_integer` of `DER_FACILITIES` writes the tag, the number of octets and the octets
of a number, which are read off the bits of its two's complement. The number of octets is the one
that the absolute value takes (for a negative number, of the number and one): there is no octet for
the sign where the bits fill all octets.

## Main definitions

* `DerFacilities.encodeInteger`, with `byteAt` and `bytes`
* `DerFacilities.readInteger` — the content octets behind a tag and a length.
* `DerFacilities.EncodesInteger` — the content is the shortest two's complement of a number.

## Main results

* `DerFacilities.byteAt_eq` — an octet of a number.
* `DerFacilities.encodeInteger_eq` — what is written.
* `DerFacilities.encodesInteger_iff` — when it is right.
-/

namespace EiffelWeb

open TwosComplement

namespace DerFacilities

/-! ## Writing -/

/-- `integer`, the tag. -/
def integer : Natural8 := 0x2

/-- A number of type `INTEGER_32`. -/
def toInteger32 (z : ℤ) : ℤ := (BitVec.ofInt 32 z).toInt

/-- `bytes`, with the overflow of `INTEGER_32`. -/
def bytes (x : ℕ) (m : IntegerXMemory) : Option ℤ :=
  (m.bits x).map fun bits : ℕ => toInteger32 (toInteger32 bits + 7) / 8

/-- The loop of `byte_at`: the argument counts `current_bit` down. -/
def byteAtLoop (x index : ℕ) (m : IntegerXMemory) : ℕ → Natural8 → Option Natural8
  | 0, result => some result
  | bit + 1, result =>
    let result := result <<< 1
    (m.bitTest x ((index - 1) * 8 + bit)).bind fun b =>
      byteAtLoop x index m bit (if b then result ||| 1 else result)

/-- `byte_at (in, index)`. -/
def byteAt (x index : ℕ) (m : IntegerXMemory) : Option Natural8 := byteAtLoop x index m 8 0

/-- The loop of `encode_integer`: the argument counts `counter` down. -/
def encodeOctets (x : ℕ) (m : IntegerXMemory) : ℕ → List Natural8 → Option (List Natural8)
  | 0, target => some target
  | counter + 1, target =>
    (byteAt x (counter + 1) m).bind fun b => encodeOctets x m counter (target ++ [b])

/-- `encode_integer (target, in)`: the octets in the sink afterwards. -/
def encodeInteger (target : List Natural8) (x : ℕ) (m : IntegerXMemory) :
    Option (List Natural8) :=
  -- `in + in.one` is a new object, which is not used again
  (if m.count x < 0 then bytes m.objects (m.create (m.value x + 1)) else bytes x m).bind
    fun bytes =>
      -- a negative counter goes down until a bit with a negative index is asked for
      if bytes < 0 then none
      else encodeOctets x m bytes.toNat
        (definiteLength (target ++ [integer]) (BitVec.ofInt 32 bytes))

/-! ## Reading -/

/-- The content octets of an integer: behind the tag stands their number, in one octet below 128 or
in octets whose number is given by the first one. -/
def readInteger : List Natural8 → Option (List Natural8)
  | tag :: b :: rest =>
    if tag ≠ 0x2 then none
    else if b.toNat < 128 then if rest.length = b.toNat then some rest else none
    else
      let content := rest.drop (b.toNat - 128)
      if IntegerX.makeFromBytes (rest.take (b.toNat - 128)) = content.length then some content
      else none
  | _ => none

/-- What was written behind `before` is an integer, with the shortest two's complement of `i` for
its content. -/
def EncodesInteger (before : List Natural8) (i : ℤ) (sink : Option (List Natural8)) : Prop :=
  ∃ octets content, sink = some (before ++ octets) ∧ readInteger octets = some content ∧
    Shortest content i

/-! ## The octets -/

section Octets

variable {m : IntegerXMemory} {x : ℕ}

/-- One bit more at the low end. -/
lemma getLsbD_shift_or (r : Natural8) (bit : Bool) {k : ℕ} (hk : k < 8) :
    (if bit then r <<< 1 ||| 1 else r <<< 1).getLsbD k =
      if k = 0 then bit else r.getLsbD (k - 1) := by
  have hone : (1 : Natural8).getLsbD k = decide (k = 0) := by
    rw [show (1 : Natural8) = 1#8 from rfl, BitVec.getLsbD_one]
    simp
  have hshift : (r <<< 1).getLsbD k = (!decide (k = 0) && r.getLsbD (k - 1)) := by
    rw [BitVec.getLsbD_shiftLeft]
    by_cases h0 : k = 0 <;> simp [hk, h0]
  cases bit
  · rw [if_neg Bool.false_ne_true, hshift]
    by_cases h0 : k = 0 <;> simp [h0]
  · rw [if_pos rfl, BitVec.getLsbD_or, hone, hshift]
    by_cases h0 : k = 0 <;> simp [h0]

/-- The bits that the loop of `byte_at` has read. -/
lemma byteAtLoop_eq (hx : m.Normalised x) (index : ℕ) {n : ℕ} (hn : n ≤ 8) (r : Natural8) :
    ∃ b, byteAtLoop x index m n r = some b ∧ ∀ k < 8, b.getLsbD k =
      if k < n then (m.value x).testBit ((index - 1) * 8 + k) else r.getLsbD (k - n) := by
  induction n generalizing r with
  | zero => exact ⟨r, rfl, fun k _ => rfl⟩
  | succ n ih =>
    set bit := (m.value x).testBit ((index - 1) * 8 + n) with hbit
    obtain ⟨b, hb, hbits⟩ := ih (by omega) (if bit then r <<< 1 ||| 1 else r <<< 1)
    refine ⟨b, ?_, fun k hk => ?_⟩
    · rw [byteAtLoop, hx.bitTest_eq, Option.bind_some, ← hbit, hb]
    · rw [hbits k hk, getLsbD_shift_or r bit (by omega)]
      rcases lt_trichotomy k n with hlt | rfl | hgt
      · rw [if_pos hlt, if_pos (by omega)]
      · rw [if_neg (lt_irrefl k), if_pos (Nat.sub_self k), if_pos (Nat.lt_succ_self k)]
      · rw [if_neg (by omega), if_neg (by omega), if_neg (by omega), Nat.sub_sub]

/-- **`byte_at`** returns an octet of the two's complement. -/
lemma byteAt_eq (hx : m.Normalised x) (index : ℕ) :
    byteAt x (index + 1) m = some (BitVec.ofInt 8 (m.value x / (2 ^ 8) ^ index)) := by
  obtain ⟨b, hb, hbits⟩ := byteAtLoop_eq hx (index + 1) (le_refl 8) 0
  rw [byteAt, hb, Option.some.injEq]
  apply BitVec.eq_of_getLsbD_eq
  intro k hk
  rw [hbits k hk, if_pos hk, getLsbD_ofInt hk, ← pow_mul, testBit_div, Nat.add_sub_cancel,
    Nat.mul_comm]

/-- The octets that are written. -/
lemma encodeOctets_eq (hx : m.Normalised x) (n : ℕ) (target : List Natural8) :
    encodeOctets x m n target = some (target ++ digits 8 n (m.value x)) := by
  induction n generalizing target with
  | zero => simp [encodeOctets, digits]
  | succ n ih =>
    rw [encodeOctets, byteAt_eq hx, Option.bind_some, ih, digits, List.append_assoc]
    rfl

/-- The number of octets for a number of bits. -/
def octetCount (size : ℕ) : ℤ := toInteger32 (toInteger32 (max 1 size : ℕ) + 7) / 8

lemma toInteger32_of_lt {n : ℕ} (h : n < 2 ^ 31) : toInteger32 n = n :=
  BitVec.toInt_ofInt_eq_self (by decide) (by omega) (by omega)

lemma octetCount_of_lt {size : ℕ} (h : size + 7 < 2 ^ 31) :
    octetCount size = ((max 1 size + 7) / 8 : ℕ) := by
  have hsum : ((max 1 size : ℕ) : ℤ) + 7 = ((max 1 size + 7 : ℕ) : ℤ) := by push_cast; rfl
  rw [octetCount, toInteger32_of_lt (by omega), hsum, toInteger32_of_lt (by omega)]
  push_cast
  rfl

lemma octetCount_lt (size : ℕ) : octetCount size < 2 ^ 28 := by
  have h : toInteger32 (toInteger32 (max 1 size : ℕ) + 7) < 2 ^ 31 := BitVec.toInt_lt
  rw [octetCount]
  omega

lemma bytes_eq (hx : m.Normalised x) :
    bytes x m = some (octetCount (m.value x).natAbs.size) := by
  rw [bytes, hx.bits_some, Option.map_some, octetCount]

/-- **What `encode_integer` writes.** -/
lemma encodeInteger_eq (hm : m.WellFormed) (hx : m.Normalised x) (target : List Natural8) :
    encodeInteger target x m =
      if octetCount (excess (m.value x)).size < 0 then none
      else some (definiteLength (target ++ [integer])
          (BitVec.ofInt 32 (octetCount (excess (m.value x)).size)) ++
        digits 8 (octetCount (excess (m.value x)).size).toNat (m.value x)) := by
  have hcount : (if m.count x < 0 then bytes m.objects (m.create (m.value x + 1)) else bytes x m) =
      some (octetCount (excess (m.value x)).size) := by
    rw [excess]
    by_cases hneg : m.count x < 0
    · have hcreated := IntegerXMemory.created_create hm (m.value x + 1)
      have hlt : m.value x < 0 := hx.value_neg_iff.mpr hneg
      have habs : (m.value x + 1).natAbs = (-m.value x - 1).toNat := by omega
      rw [if_pos hneg, if_pos hlt, bytes_eq hcreated.normalised, hcreated.value, habs]
    · have hlt : ¬ m.value x < 0 := fun h => hneg (hx.value_neg_iff.mp h)
      have habs : (m.value x).natAbs = (m.value x).toNat := by omega
      rw [if_neg hneg, if_neg hlt, bytes_eq hx, habs]
  rw [encodeInteger, hcount, Option.bind_some, encodeOctets_eq hx]

end Octets

/-! ## The length -/

lemma definiteLength_append (target : List Natural8) (length : BitVec 32) :
    definiteLength target length = target ++ definiteLength [] length := by
  rw [definiteLength, definiteLength]
  split
  · rw [definiteShortLength, definiteShortLength, List.nil_append]
  · rw [definiteLongLength, definiteLongLength, List.nil_append]

/-- The octets of a long form stand for the length. -/
lemma makeFromBytes_long {n : ℕ} (hn : n < 2 ^ 31) {length : BitVec 32} (hlen : length.toNat = n) :
    IntegerX.makeFromBytes [(length.sshiftRight 24).setWidth 8,
      (length.sshiftRight 16).setWidth 8, (length.sshiftRight 8).setWidth 8,
      (length.sshiftRight 0).setWidth 8] = n := by
  have hmsb : length.msb = false := by
    rw [BitVec.msb_eq_false_iff_two_mul_lt, hlen]
    omega
  have hoctet (k : ℕ) : ((length.sshiftRight k).setWidth 8).toNat = n / 2 ^ k % 2 ^ 8 := by
    rw [BitVec.sshiftRight_eq_of_msb_false hmsb, BitVec.toNat_setWidth, BitVec.toNat_ushiftRight,
      hlen, Nat.shiftRight_eq_div_pow]
  rw [IntegerX.makeFromBytes]
  simp only [List.foldl_cons, List.foldl_nil, hoctet]
  omega

/-- **The length octets** give the number of the octets behind them. -/
lemma readInteger_definiteLength {content : List Natural8} {n : ℕ} (hn : n < 2 ^ 31)
    (hlen : content.length = n) :
    readInteger (definiteLength [integer] (BitVec.ofInt 32 n) ++ content) = some content := by
  have hnat : (BitVec.ofInt 32 n).toNat = n := by
    rw [BitVec.ofInt_natCast, BitVec.toNat_ofNat, Nat.mod_eq_of_lt (by omega)]
  have hint : (BitVec.ofInt 32 n).toInt = n := by
    rw [BitVec.toInt_eq_toNat_of_lt (by omega), hnat]
  rw [definiteLength, hint]
  split
  case isTrue hle =>
    have hoctet : ((BitVec.ofInt 32 n).setWidth 8).toNat = n := by
      rw [BitVec.toNat_setWidth, hnat, Nat.mod_eq_of_lt (by omega)]
    rw [definiteShortLength]
    show readInteger (integer :: (BitVec.ofInt 32 n).setWidth 8 :: content) = _
    rw [readInteger, if_neg (by decide), hoctet, if_pos (by omega), if_pos hlen]
  case isFalse hgt =>
    have hlong := makeFromBytes_long hn hnat
    rw [definiteLongLength]
    set a := ((BitVec.ofInt 32 n).sshiftRight 24).setWidth 8
    set b := ((BitVec.ofInt 32 n).sshiftRight 16).setWidth 8
    set c := ((BitVec.ofInt 32 n).sshiftRight 8).setWidth 8
    set d := ((BitVec.ofInt 32 n).sshiftRight 0).setWidth 8
    show readInteger (integer :: 0x84 :: a :: b :: c :: d :: content) = _
    rw [readInteger, if_neg (by decide), if_neg (by decide)]
    show (if IntegerX.makeFromBytes [a, b, c, d] = content.length then some content else none) = _
    rw [hlong, if_pos hlen.symm]

/-! ## The integer -/

/-- **When an integer is written as the rules say**: the bits of the number leave room for its sign
in the octets that they take, and their number does not overflow. -/
theorem encodesInteger_iff {m : IntegerXMemory} (hm : m.WellFormed) {x : ℕ} (hx : m.Normalised x)
    (target : List Natural8) :
    EncodesInteger target (m.value x) (encodeInteger target x m) ↔
      (excess (m.value x) = 0 ∨ ¬ 8 ∣ (excess (m.value x)).size) ∧
        (excess (m.value x)).size + 7 < 2 ^ 31 := by
  have hzero : (excess (m.value x)).size = 0 ↔ excess (m.value x) = 0 := Nat.size_eq_zero
  set v := m.value x with hv
  set s := (excess v).size with hs
  have hlt := octetCount_lt s
  have hcontent (n : ℕ) (hn : (n : ℤ) = octetCount s) :
      EncodesInteger target v (encodeInteger target x m) ↔ Shortest (digits 8 n v) v := by
    have hread := readInteger_definiteLength (by omega) (length_digits (w := 8) n v)
    have hwrite : encodeInteger target x m = some (target ++
        (definiteLength [integer] (BitVec.ofInt 32 n) ++ digits 8 n v)) := by
      rw [encodeInteger_eq hm hx, ← hv, ← hs, if_neg (by omega), ← hn, Int.toNat_natCast,
        definiteLength_append, definiteLength_append [integer]]
      simp only [List.append_assoc]
    constructor
    · rintro ⟨octets, content, hw, hr, hshort⟩
      rw [hwrite, Option.some.injEq, List.append_cancel_left_eq] at hw
      rw [← hw, hread, Option.some.injEq] at hr
      rwa [hr]
    · exact fun hshort => ⟨_, _, hwrite, hread, hshort⟩
  by_cases hsize : s + 7 < 2 ^ 31
  · have hcount := octetCount_of_lt hsize
    obtain ⟨k, hk⟩ : ∃ k, (max 1 s + 7) / 8 = k + 1 := ⟨(max 1 s + 7) / 8 - 1, by omega⟩
    rw [hk] at hcount
    rw [hcontent (k + 1) hcount.symm, shortest_digits_iff (by decide), ← hzero]
    constructor
    · exact fun h => ⟨by omega, hsize⟩
    · exact fun h => by omega
  · refine iff_of_false ?_ fun h => hsize h.2
    by_cases hneg : octetCount s < 0
    · rintro ⟨octets, content, hw, -⟩
      rw [encodeInteger_eq hm hx, ← hv, ← hs, if_pos hneg] at hw
      cases hw
    · rw [hcontent (octetCount s).toNat (by omega)]
      intro hshort
      have hbits := size_le_of_read_eq (by decide) hshort.ne_nil hshort.read_eq
      rw [length_digits] at hbits
      omega

/-- The number 127 in one octet. -/
theorem encodesInteger_127 :
    EncodesInteger [] 127 (encodeInteger [] 0 (IntegerXMemory.pair [127] [0] 1 0)) :=
  (encodesInteger_iff (m := IntegerXMemory.pair [127] [0] 1 0) ⟨by decide, by decide⟩
    ⟨by decide, by decide⟩ []).mpr (by decide)

/-- The number 128 is written in one octet, which stands for minus 128. -/
theorem not_encodesInteger_128 :
    ¬ ∀ (m : IntegerXMemory) (x : ℕ) (target : List Natural8), m.WellFormed → m.Normalised x →
      EncodesInteger target (m.value x) (encodeInteger target x m) := by
  intro h
  obtain ⟨octets, content, hw, hr, hshort⟩ := h (IntegerXMemory.pair [128] [0] 1 0) 0 []
    ⟨by decide, by decide⟩ ⟨by decide, by decide⟩
  have hwrite : encodeInteger [] 0 (IntegerXMemory.pair [128] [0] 1 0) = some [0x2, 1, 0x80] := by
    decide
  rw [hwrite, Option.some.injEq, List.nil_append] at hw
  rw [← hw] at hr
  have hcontent : readInteger [0x2, 1, 0x80] = some [0x80] := by decide
  rw [hcontent, Option.some.injEq] at hr
  have := hshort.read_eq
  rw [← hr] at this
  revert this
  decide

end DerFacilities

end EiffelWeb
