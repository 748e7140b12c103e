import Mathlib.Data.List.Basic
import Mathlib.Tactic.Common
import EiffelWeb.Text

set_option relaxedAutoImplicit false
set_option autoImplicit false

/-!
# Characters and character strings

`CHARACTER_8` and `CHARACTER_32` are the 8-bit and the 32-bit codes; every 32-bit code is a
`CHARACTER_32`, also those that are no Unicode code point. `STRING_8` and `STRING_32` are
lists of them. The character classes are the ASCII ones of the kernel library.

## Main definitions

* `Character8`, `Character32`, `String8`, `String32`
* `ch`, `str` — character and string literals.
* `asString32`, `asString8` — the conversions between the two kinds of strings.
-/

namespace EiffelWeb

/-- `CHARACTER_8`. -/
abbrev Character8 := UInt8

/-- `CHARACTER_32`. -/
abbrev Character32 := UInt32

/-- `STRING_8`. -/
abbrev String8 := List Character8

/-- `STRING_32`. -/
abbrev String32 := List Character32

/-- The `CHARACTER_8` written by a character literal. -/
def ch (c : Char) : Character8 := UInt8.ofNat c.toNat

/-- The `STRING_8` written by a string literal. -/
def str (s : String) : String8 := s.toList.map ch

/-- `s.as_string_32`: the same codes. -/
def asString32 (s : String8) : String32 := s.map UInt8.toUInt32

/-- `c.to_character_8` where `c.is_character_8`, and the null character elsewhere. -/
def asCharacter8 (c : Character32) : Character8 := if c.toNat ≤ 255 then c.toUInt8 else 0

/-- `s.as_string_8`: codes above 255 become the null character. -/
def asString8 (s : String32) : String8 := s.map asCharacter8

/-- `c.is_character_8`. -/
def isCharacter8 (c : Character32) : Bool := c.toNat ≤ 255

/-- `c.is_space`: the blank and the codes 9 to 13. -/
def isSpace (c : Character8) : Bool := c = ch ' ' || (9 ≤ c.toNat && c.toNat ≤ 13)

/-- `c.is_digit`. -/
def isDigit (c : Character8) : Bool := ch '0' ≤ c && c ≤ ch '9'

/-- An upper case letter `'A' .. 'Z'`. -/
def isUpper (c : Character8) : Bool := ch 'A' ≤ c && c ≤ ch 'Z'

/-- A lower case letter `'a' .. 'z'`. -/
def isLower (c : Character8) : Bool := ch 'a' ≤ c && c ≤ ch 'z'

/-- A letter or a digit. -/
def isAlphaNumeric (c : Character8) : Bool := isUpper c || isLower c || isDigit c

/-- `c.is_hexa_digit`. -/
def isHexaDigit (c : Character8) : Bool :=
  isDigit c || (ch 'a' ≤ c && c ≤ ch 'f') || (ch 'A' ≤ c && c ≤ ch 'F')

/-- `c.lower`. -/
def lower (c : Character8) : Character8 := if isUpper c then c + 32 else c

/-- `c.upper`. -/
def upper (c : Character8) : Character8 := if isLower c then c - 32 else c

/-- `s.as_lower`. -/
def asLower (s : String8) : String8 := s.map lower

/-- `c |-| d`: the difference of the codes. -/
def charDiff (c d : Character8) : ℤ := (c.toNat : ℤ) - d.toNat

/-- `s.left_adjust; s.right_adjust`. -/
def adjust (s : String8) : String8 := Text.rightAdjust isSpace (Text.leftAdjust isSpace s)

/-- `i.out` for a natural number: its decimal digits. -/
def natOut (n : ℕ) : String8 := (Nat.toDigits 10 n).map ch

/-- `i.out`: the decimal digits, after a sign if `i` is negative. -/
def integerOut (i : ℤ) : String8 := if i < 0 then ch '-' :: natOut i.natAbs else natOut i.natAbs

/-- The unreserved characters `A-Z a-z 0-9 . - ~ _`. -/
def isUnreserved (c : Character8) : Bool :=
  isAlphaNumeric c || c = ch '.' || c = ch '-' || c = ch '~' || c = ch '_'

/-- A property of characters that holds of all 256 codes. -/
lemma forall_character8 {P : Character8 → Prop} (h : ∀ n : Fin 256, P (UInt8.ofFin n)) (c) :
    P c :=
  h c.toFin

lemma lower_lower (c : Character8) : lower (lower c) = lower c := by
  revert c
  exact forall_character8 (by decide +kernel)

/-- A text in lower case is left as it is. -/
lemma asLower_asLower (s : String8) : asLower (asLower s) = asLower s := by
  rw [asLower, asLower, List.map_map]
  exact List.map_congr_left fun c _ => lower_lower c

lemma asString32_injective : Function.Injective asString32 :=
  List.map_injective_iff.mpr fun a b h => by
    have h' := congrArg UInt32.toNat h
    exact UInt8.toNat_inj.mp (by simpa using h')

lemma asCharacter8_toUInt32 (c : Character8) : asCharacter8 c.toUInt32 = c := by
  have hlt := c.toNat_lt
  have hle : c.toUInt32.toNat ≤ 255 := by rw [UInt8.toNat_toUInt32]; omega
  rw [asCharacter8, if_pos hle]
  simp

lemma asString8_asString32 (s : String8) : asString8 (asString32 s) = s := by
  simp only [asString8, asString32, List.map_map]
  exact (List.map_congr_left fun c _ => asCharacter8_toUInt32 c).trans (List.map_id s)

lemma toNat_asCharacter8 {w : Character32} (h : w.toNat ≤ 255) :
    (asCharacter8 w).toNat = w.toNat := by
  rw [asCharacter8, if_pos h, UInt32.toNat_toUInt8]
  omega

lemma toUInt32_asCharacter8 {w : Character32} (h : w.toNat ≤ 255) :
    (asCharacter8 w).toUInt32 = w := by
  apply UInt32.toNat_inj.mp
  rw [UInt8.toNat_toUInt32, toNat_asCharacter8 h]

/-- Codes up to 255 survive the conversion to a `STRING_8`. -/
lemma asString32_asString8 {w : String32} (h : ∀ c ∈ w, c.toNat ≤ 255) :
    asString32 (asString8 w) = w := by
  simp only [asString32, asString8, List.map_map]
  exact (List.map_congr_left fun c hc => toUInt32_asCharacter8 (h c hc)).trans (List.map_id w)

/-- The codes of the digits of a number. -/
lemma toNat_ch_of_mem_toDigits {n : ℕ} {c : Char} (h : c ∈ Nat.toDigits 10 n) :
    (ch c).toNat = c.toNat ∧ 48 ≤ c.toNat ∧ c.toNat ≤ 57 := by
  have hdigit := Nat.isDigit_of_mem_toDigits (by decide) (by decide) h
  have hval : 48 ≤ c.toNat ∧ c.toNat ≤ 57 := by
    simpa [Char.isDigit, UInt32.le_iff_toNat_le] using hdigit
  rw [ch, UInt8.toNat_ofNat', Nat.mod_eq_of_lt (by omega)]
  exact ⟨rfl, hval⟩

lemma isDigit_of_mem_natOut {n : ℕ} {c : Character8} (h : c ∈ natOut n) : isDigit c = true := by
  obtain ⟨d, hd, rfl⟩ := List.mem_map.mp h
  obtain ⟨hcode, hval⟩ := toNat_ch_of_mem_toDigits hd
  have h0 : (ch '0').toNat = 48 := rfl
  have h9 : (ch '9').toNat = 57 := rfl
  simp only [isDigit, Bool.and_eq_true, decide_eq_true_eq, UInt8.le_iff_toNat_le]
  omega

/-- The digits of a number write it. -/
lemma foldl_natOut (n : ℕ) : (natOut n).foldl (fun k c => 10 * k + (c.toNat - 48)) 0 = n := by
  have hfold : ∀ (l : List Char) (k : ℕ), (∀ c ∈ l, (ch c).toNat = c.toNat) →
      (l.map ch).foldl (fun n c => 10 * n + (c.toNat - 48)) k = Nat.ofDigitChars 10 l k := by
    intro l
    induction l with
    | nil => intro k _; rfl
    | cons c l ih =>
      intro k hl
      rw [List.map_cons, List.foldl_cons, Nat.ofDigitChars_cons, hl c List.mem_cons_self]
      exact ih _ fun d hd => hl d (List.mem_cons_of_mem c hd)
  rw [natOut, hfold _ 0 fun c hc => (toNat_ch_of_mem_toDigits hc).1,
    Nat.ofDigitChars_ten_toDigits]

/-- Different numbers have different digits. -/
lemma natOut_injective : Function.Injective natOut := by
  intro m n h
  rw [← foldl_natOut m, h, foldl_natOut]

lemma natOut_ne_nil (n : ℕ) : natOut n ≠ [] := by
  rw [natOut, ne_eq, List.map_eq_nil_iff]
  exact Nat.toDigits_ne_nil

end EiffelWeb
