import Mathlib.Data.List.Basic
import Mathlib.Data.Nat.Bitwise
import Mathlib.Tactic.Common
import EiffelWeb.Loop
import EiffelWeb.Character

set_option relaxedAutoImplicit false
set_option autoImplicit false

/-!
# Base64

The class `BASE64`. The encoder writes the bits of the string into an array padded to a multiple
of six and reads it six by six; the decoder walks a position through the text, takes four
characters of the map at a time and assembles the bytes with shifts and masks. The decoder
checks every index: a read outside the string makes the call fail.

## Main definitions

* `Base64.encodedString` — the encoder.
* `Base64.nextEncodedCharacterPosition`, `Base64.decodedString` — the decoder.

## Main results

* `Base64.encodedString_cons` — three bytes are encoded into four characters.
* `Base64.decodeLoop_step` — one iteration of the decoder reads one group.
* `Base64.roundTrip_base64` — the decoder gives the string back.
-/

namespace EiffelWeb.Base64

/-- `character_map`. -/
def characterMap : String8 :=
  str "ABCDEFGHIJKLMNOPQRSTUVWXYZabcdefghijklmnopqrstuvwxyz0123456789+/="

/-- `in_character_map (c)`. -/
def inCharacterMap (c : Character8) : Bool :=
  isUpper c || isLower c || isDigit c || c = ch '+' || c = ch '/' || c = ch '='

/-! ## Encoder -/

/-- The eight bits of a byte, the most significant first. -/
def bitsOf (c : Character8) : List Bool :=
  [c.toNat.testBit 7, c.toNat.testBit 6, c.toNat.testBit 5, c.toNat.testBit 4,
    c.toNat.testBit 3, c.toNat.testBit 2, c.toNat.testBit 1, c.toNat.testBit 0]

/-- The array `f`: the bits of `s`, filled up with `False` to a multiple of six. -/
def bitArray (s : String8) : List Bool :=
  let i := 8 * s.length % 6
  s.flatMap bitsOf ++ List.replicate (if 0 < i then 6 - i else 0) false

/-- The number whose six bits are given, the most significant first. -/
def sextetValue (b₀ b₁ b₂ b₃ b₄ b₅ : Bool) : ℕ :=
  (if b₀ then 0x20 else 0) + (if b₁ then 0x10 else 0) + (if b₂ then 0x8 else 0) +
    (if b₃ then 0x4 else 0) + (if b₄ then 0x2 else 0) + (if b₅ then 0x1 else 0)

/-- `base64chars.item (c + 1)`. -/
def mapItem (c : ℕ) : Character8 := Text.item characterMap (c + 1)

/-- The second loop of `encoded_string`: one character for each six bits. -/
def sextets : List Bool → String8
  | b₀ :: b₁ :: b₂ :: b₃ :: b₄ :: b₅ :: r => mapItem (sextetValue b₀ b₁ b₂ b₃ b₄ b₅) :: sextets r
  | _ => []

/-- The last loop of `encoded_string`: the padding after `n` bytes. -/
def padding (n : ℕ) : String8 :=
  if 0 < n % 3 then List.replicate (3 - n % 3) (ch '=') else []

/-- `encoded_string (s)`. -/
def encodedString (s : String8) : String8 := sextets (bitArray s) ++ padding s.length

/-! ## Decoder -/

/-- The loop of `next_encoded_character_position`, over the position and the outcome of the exit
test. The test reads the character before it compares the position with the length. -/
def positionLoop (v : String8) : Loop (ℤ × Bool) where
  exit st := st.2
  body st := do
    let c ← Text.item? v st.1
    if inCharacterMap c || decide ((v.length : ℤ) < st.1) then some (st.1, true)
    else some (st.1 + 1, false)

/-- `next_encoded_character_position (v, from_pos)`. -/
def nextEncodedCharacterPosition (v : String8) (fromPos : ℤ) : Option ℤ :=
  ((positionLoop v).run (v.length + 1) (fromPos + 1, false)).map Prod.fst

/-- `base64chars.index_of (c, 1) - 1`, where `c` is in the map. -/
def mapIndex (c : Character8) : ℕ := (Text.indexOf characterMap c 1 - 1).toNat

/-- State of the loop of `decode_string_to_buffer`. The four bytes keep their values from one
group to the next. -/
structure DecodeState where
  /-- The position of the last character read. -/
  pos : ℤ
  /-- Set by a group with fewer than four bytes. -/
  done : Bool
  /-- The local `byte1`. -/
  byte1 : ℕ
  /-- The local `byte2`. -/
  byte2 : ℕ
  /-- The local `byte3`. -/
  byte3 : ℕ
  /-- The local `byte4`. -/
  byte4 : ℕ
  /-- The argument `a_buffer`. -/
  buffer : String8

/-- What a group of `count` bytes adds to the buffer. -/
def groupText (count byte1 byte2 byte3 byte4 : ℕ) : String8 :=
  (if 1 < count then [UInt8.ofNat (byte1 <<< 2 &&& 0xff ||| byte2 >>> 4 &&& 0x03)] else []) ++
  (if 2 < count then [UInt8.ofNat (byte2 <<< 4 &&& 0xff ||| byte3 >>> 2 &&& 0x0f)] else []) ++
  (if 3 < count then [UInt8.ofNat ((byte4 ||| byte3 <<< 6) &&& 0xff)] else [])

/-- The end of an iteration: `done` and the buffer, from the number of bytes of the group. -/
def DecodeState.finish (st : DecodeState) (count : ℕ) : DecodeState :=
  { st with
    done := decide (count < 4)
    buffer := st.buffer ++ groupText count st.byte1 st.byte2 st.byte3 st.byte4 }

/-- The loop of `decode_string_to_buffer`. -/
def decodeLoop (v : String8) : Loop DecodeState where
  exit st := decide ((v.length : ℤ) ≤ st.pos) || st.done
  body st := do
    let n : ℤ := v.length
    let pos ← nextEncodedCharacterPosition v st.pos
    if pos ≤ n then
      let c ← Text.item? v pos
      let st := { st with byte1 := mapIndex c }
      let pos ← nextEncodedCharacterPosition v pos
      if pos ≤ n then
        let c ← Text.item? v pos
        let st := { st with byte2 := mapIndex c }
        let pos ← nextEncodedCharacterPosition v pos
        if pos ≤ n then
          let c ← Text.item? v pos
          let (st, count) := if c ≠ ch '=' then ({ st with byte3 := mapIndex c }, 3) else (st, 2)
          let pos ← nextEncodedCharacterPosition v pos
          if pos ≤ n then
            let c ← Text.item? v pos
            let (st, count) :=
              if c ≠ ch '=' then ({ st with byte4 := mapIndex c }, count + 1) else (st, count)
            some ({ st with pos := pos }.finish count)
          else some ({ st with pos := pos }.finish count)
        else some ({ st with pos := pos }.finish 2)
      else some ({ st with pos := pos }.finish 1)
    else some ({ st with pos := pos }.finish 0)

lemma decodeLoop_exit (v : String8) (st : DecodeState) :
    (decodeLoop v).exit st = (decide ((v.length : ℤ) ≤ st.pos) || st.done) :=
  rfl

/-- `decoded_string (v)`: `none` when an index leaves the string. -/
def decodedString (v : String8) : Option String8 :=
  ((decodeLoop v).run v.length ⟨0, false, 0, 0, 0, 0, []⟩).map DecodeState.buffer

/-! ## The encoder by groups of three bytes -/

lemma testBit_value (a i k : ℕ) : (if a.testBit i then k else 0) = k * (a / 2 ^ i % 2) := by
  rw [Nat.testBit_eq_decide_div_mod_eq]
  rcases Nat.mod_two_eq_zero_or_one (a / 2 ^ i) with h | h <;> simp [h]

lemma sextets_first (a : ℕ) (ha : a < 256) : sextetValue (a.testBit 7) (a.testBit 6)
    (a.testBit 5) (a.testBit 4) (a.testBit 3) (a.testBit 2) = a / 4 := by
  simp only [sextetValue, testBit_value]
  omega

lemma sextets_second (a b : ℕ) (hb : b < 256) : sextetValue (a.testBit 1) (a.testBit 0)
    (b.testBit 7) (b.testBit 6) (b.testBit 5) (b.testBit 4) = a % 4 * 16 + b / 16 := by
  simp only [sextetValue, testBit_value]
  omega

lemma sextets_third (b c : ℕ) (hc : c < 256) : sextetValue (b.testBit 3) (b.testBit 2)
    (b.testBit 1) (b.testBit 0) (c.testBit 7) (c.testBit 6) = b % 16 * 4 + c / 64 := by
  simp only [sextetValue, testBit_value]
  omega

lemma sextets_fourth (c : ℕ) : sextetValue (c.testBit 5) (c.testBit 4) (c.testBit 3)
    (c.testBit 2) (c.testBit 1) (c.testBit 0) = c % 64 := by
  simp only [sextetValue, testBit_value]
  omega

@[simp] lemma encodedString_nil : encodedString [] = [] := rfl

/-- One byte is encoded into two characters and two signs of padding. -/
lemma encodedString_one (a : Character8) : encodedString [a] =
    [mapItem (a.toNat / 4), mapItem (a.toNat % 4 * 16), ch '=', ch '='] := by
  have h₂ := sextets_second a.toNat 0 (by omega)
  simp only [Nat.zero_testBit, Nat.zero_div, Nat.add_zero] at h₂
  have hfill : bitArray [a] = bitsOf a ++ [false, false, false, false] := by
    simp [bitArray, List.replicate]
  have hpad : padding [a].length = [ch '=', ch '='] := rfl
  simp only [encodedString, hfill, hpad, bitsOf, List.cons_append, List.nil_append, sextets,
    sextets_first _ a.toNat_lt, h₂]

/-- Two bytes are encoded into three characters and one sign of padding. -/
lemma encodedString_two (a b : Character8) : encodedString [a, b] =
    [mapItem (a.toNat / 4), mapItem (a.toNat % 4 * 16 + b.toNat / 16),
      mapItem (b.toNat % 16 * 4), ch '='] := by
  have h₃ := sextets_third b.toNat 0 (by omega)
  simp only [Nat.zero_testBit, Nat.zero_div, Nat.add_zero] at h₃
  have hfill : bitArray [a, b] = bitsOf a ++ (bitsOf b ++ [false, false]) := by
    simp [bitArray, List.replicate]
  have hpad : padding [a, b].length = [ch '='] := rfl
  simp only [encodedString, hfill, hpad, bitsOf, List.cons_append, List.nil_append, sextets,
    sextets_first _ a.toNat_lt, sextets_second _ _ b.toNat_lt, h₃]

/-- **Three bytes are encoded into four characters**, whatever follows. -/
lemma encodedString_cons (a b c : Character8) (s : String8) : encodedString (a :: b :: c :: s) =
    mapItem (a.toNat / 4) :: mapItem (a.toNat % 4 * 16 + b.toNat / 16) ::
      mapItem (b.toNat % 16 * 4 + c.toNat / 64) :: mapItem (c.toNat % 64) ::
        encodedString s := by
  have hmod : 8 * (s.length + 1 + 1 + 1) % 6 = 8 * s.length % 6 := by omega
  have hmod3 : (s.length + 1 + 1 + 1) % 3 = s.length % 3 := by omega
  simp only [encodedString, bitArray, padding, bitsOf, List.flatMap_cons, List.length_cons, hmod,
    hmod3, List.cons_append, List.nil_append, sextets, sextets_first _ a.toNat_lt,
    sextets_second _ _ b.toNat_lt, sextets_third _ _ c.toNat_lt, sextets_fourth]

/-! ## One group of the decoder -/

lemma mapItem_mem (i : ℕ) (hi : i < 64) : mapItem i ∈ characterMap.take 64 := by
  have h : ∀ k : Fin 64, mapItem k ∈ characterMap.take 64 := by decide +kernel
  exact h ⟨i, hi⟩

lemma inCharacterMap_mapItem (i : ℕ) (hi : i < 64) : inCharacterMap (mapItem i) = true := by
  have hall : (characterMap.take 64).all inCharacterMap = true := by decide +kernel
  exact List.all_eq_true.mp hall _ (mapItem_mem i hi)

lemma mapItem_ne_padding (i : ℕ) (hi : i < 64) : mapItem i ≠ ch '=' := by
  have hpad : ch '=' ∉ characterMap.take 64 := by decide +kernel
  exact fun h => hpad (h ▸ mapItem_mem i hi)

lemma mapIndex_mapItem (i : ℕ) (hi : i < 64) : mapIndex (mapItem i) = i := by
  have h : ∀ k : Fin 64, mapIndex (mapItem k) = k := by decide +kernel
  exact h ⟨i, hi⟩

/-- In front of a character of the map the scan ends. -/
lemma positionLoop_run_cons (l : String8) (c : Character8) (r : String8) {pos : ℤ}
    (hpos : pos = l.length + 1) (hc : inCharacterMap c = true) (n : ℕ) :
    (positionLoop (l ++ c :: r)).run (n + 1) (pos, false) = some (pos, true) := by
  have hbody : (positionLoop (l ++ c :: r)).body (pos, false) = some (pos, true) := by
    simp only [positionLoop]
    rw [Text.item?_append_cons l c r hpos, Option.bind_eq_bind, Option.bind_some]
    simp [hc]
  rw [Loop.run_succ rfl hbody, Loop.run_of_exit rfl]

/-- In front of another character the scan goes on behind it. -/
lemma positionLoop_run_skip (l : String8) (c : Character8) (r : String8) {pos : ℤ}
    (hpos : pos = l.length + 1) (hc : inCharacterMap c = false) (n : ℕ) :
    (positionLoop (l ++ c :: r)).run (n + 1) (pos, false) =
      (positionLoop (l ++ c :: r)).run n (pos + 1, false) := by
  have hlt : decide (((l ++ c :: r).length : ℤ) < pos) = false := by
    rw [decide_eq_false_iff_not, List.length_append, List.length_cons]
    omega
  have hbody : (positionLoop (l ++ c :: r)).body (pos, false) = some (pos + 1, false) := by
    simp only [positionLoop]
    rw [Text.item?_append_cons l c r hpos, Option.bind_eq_bind, Option.bind_some, hc, hlt]
    rfl
  exact Loop.run_succ rfl hbody n

/-- A position before a character of the map moves by one. -/
lemma nextEncodedCharacterPosition_eq (l : String8) (c : Character8) (r : String8) {pos : ℤ}
    (hpos : pos = l.length) (hc : inCharacterMap c = true) :
    nextEncodedCharacterPosition (l ++ c :: r) pos = some (pos + 1) := by
  rw [nextEncodedCharacterPosition, positionLoop_run_cons l c r (by rw [hpos]) hc]
  rfl

/-- The number of bytes of a group whose last two characters are `c₃` and `c₄`. -/
def groupCount (c₃ c₄ : Character8) : ℕ :=
  2 + (if c₃ ≠ ch '=' then 1 else 0) + (if c₄ ≠ ch '=' then 1 else 0)

lemma groupCount_of_ne {c₃ c₄ : Character8} (h₃ : c₃ ≠ ch '=') (h₄ : c₄ ≠ ch '=') :
    groupCount c₃ c₄ = 4 := by
  simp [groupCount, h₃, h₄]

lemma groupCount_padding {c₃ : Character8} (h₃ : c₃ ≠ ch '=') : groupCount c₃ (ch '=') = 3 := by
  simp [groupCount, h₃]

/-- The state after the four bytes of a group were read. -/
def DecodeState.read (st : DecodeState) (c₁ c₂ c₃ c₄ : Character8) : DecodeState :=
  { st with
    pos := st.pos + 4
    byte1 := mapIndex c₁
    byte2 := mapIndex c₂
    byte3 := if c₃ ≠ ch '=' then mapIndex c₃ else st.byte3
    byte4 := if c₄ ≠ ch '=' then mapIndex c₄ else st.byte4 }

lemma buffer_finish_read (st : DecodeState) (c₁ c₂ c₃ c₄ : Character8) (count : ℕ) :
    ((st.read c₁ c₂ c₃ c₄).finish count).buffer =
      st.buffer ++ groupText count (mapIndex c₁) (mapIndex c₂)
        (if c₃ ≠ ch '=' then mapIndex c₃ else st.byte3)
        (if c₄ ≠ ch '=' then mapIndex c₄ else st.byte4) :=
  rfl

lemma le_length_of_item? {v : String8} {p : ℤ} {c : Character8} (h : Text.item? v p = some c) :
    p ≤ v.length := by
  unfold Text.item? at h
  split at h
  · next hv => exact hv.2
  · cases h

/-- An iteration of the decoder that finds four characters of the map, at whatever positions. -/
lemma decodeLoop_body {v : String8} {st : DecodeState} {p₁ p₂ p₃ p₄ : ℤ}
    {c₁ c₂ c₃ c₄ : Character8}
    (n₁ : nextEncodedCharacterPosition v st.pos = some p₁) (i₁ : Text.item? v p₁ = some c₁)
    (n₂ : nextEncodedCharacterPosition v p₁ = some p₂) (i₂ : Text.item? v p₂ = some c₂)
    (n₃ : nextEncodedCharacterPosition v p₂ = some p₃) (i₃ : Text.item? v p₃ = some c₃)
    (n₄ : nextEncodedCharacterPosition v p₃ = some p₄) (i₄ : Text.item? v p₄ = some c₄) :
    (decodeLoop v).body st =
      some ({ st.read c₁ c₂ c₃ c₄ with pos := p₄ }.finish (groupCount c₃ c₄)) := by
  change (nextEncodedCharacterPosition v st.pos).bind _ = _
  rw [n₁, Option.bind_some, if_pos (le_length_of_item? i₁), i₁]
  change (nextEncodedCharacterPosition v p₁).bind _ = _
  rw [n₂, Option.bind_some, if_pos (le_length_of_item? i₂), i₂]
  change (nextEncodedCharacterPosition v p₂).bind _ = _
  rw [n₃, Option.bind_some, if_pos (le_length_of_item? i₃), i₃]
  simp only [n₄, i₄, if_pos (le_length_of_item? i₄), Option.bind_eq_bind, Option.bind_some]
  by_cases d₃ : c₃ = ch '=' <;> by_cases d₄ : c₄ = ch '=' <;>
    simp [d₃, d₄, groupCount, DecodeState.read]

/-- **One iteration of the decoder** in front of four characters of the map reads them. -/
lemma decodeLoop_step (l r : String8) (c₁ c₂ c₃ c₄ : Character8) (st : DecodeState)
    (hpos : st.pos = l.length) (h₁ : inCharacterMap c₁ = true) (h₂ : inCharacterMap c₂ = true)
    (h₃ : inCharacterMap c₃ = true) (h₄ : inCharacterMap c₄ = true) :
    (decodeLoop (l ++ c₁ :: c₂ :: c₃ :: c₄ :: r)).body st =
      some ((st.read c₁ c₂ c₃ c₄).finish (groupCount c₃ c₄)) := by
  have e₂ : l ++ c₁ :: c₂ :: c₃ :: c₄ :: r = (l ++ [c₁]) ++ c₂ :: c₃ :: c₄ :: r := by simp
  have e₃ : l ++ c₁ :: c₂ :: c₃ :: c₄ :: r = (l ++ [c₁, c₂]) ++ c₃ :: c₄ :: r := by simp
  have e₄ : l ++ c₁ :: c₂ :: c₃ :: c₄ :: r = (l ++ [c₁, c₂, c₃]) ++ c₄ :: r := by simp
  set v := l ++ c₁ :: c₂ :: c₃ :: c₄ :: r with hv
  -- the four moves of the position
  have p₁ : nextEncodedCharacterPosition v st.pos = some (st.pos + 1) :=
    nextEncodedCharacterPosition_eq l _ _ hpos h₁
  have p₂ : nextEncodedCharacterPosition v (st.pos + 1) = some (st.pos + 1 + 1) := by
    rw [e₂, nextEncodedCharacterPosition_eq _ _ _ (by simp [hpos]) h₂]
  have p₃ : nextEncodedCharacterPosition v (st.pos + 1 + 1) = some (st.pos + 1 + 1 + 1) := by
    rw [e₃, nextEncodedCharacterPosition_eq _ _ _ (by simp [hpos]; omega) h₃]
  have p₄ : nextEncodedCharacterPosition v (st.pos + 1 + 1 + 1) =
      some (st.pos + 1 + 1 + 1 + 1) := by
    rw [e₄, nextEncodedCharacterPosition_eq _ _ _ (by simp [hpos]; omega) h₄]
  -- the four reads
  have i₁ : Text.item? v (st.pos + 1) = some c₁ :=
    Text.item?_append_cons l _ _ (by rw [hpos])
  have i₂ : Text.item? v (st.pos + 1 + 1) = some c₂ := by
    rw [e₂, Text.item?_append_cons _ _ _ (by simp [hpos])]
  have i₃ : Text.item? v (st.pos + 1 + 1 + 1) = some c₃ := by
    rw [e₃, Text.item?_append_cons _ _ _ (by simp [hpos]; omega)]
  have i₄ : Text.item? v (st.pos + 1 + 1 + 1 + 1) = some c₄ := by
    rw [e₄, Text.item?_append_cons _ _ _ (by simp [hpos]; omega)]
  have hsum : st.pos + 1 + 1 + 1 + 1 = (st.read c₁ c₂ c₃ c₄).pos := by
    simp only [DecodeState.read]
    omega
  rw [decodeLoop_body p₁ i₁ p₂ i₂ p₃ i₃ p₄ i₄, hsum]

/-! ## The bytes of a group -/

lemma first_byte (a b : ℕ) (ha : a < 256) (hb : b < 256) :
    (a / 4) <<< 2 &&& 0xff ||| (a % 4 * 16 + b / 16) >>> 4 &&& 0x03 = a := by
  have h₁ : (a / 4) <<< 2 &&& 0xff = (a / 4) <<< 2 := by
    rw [show 0xff = 2 ^ 8 - 1 from rfl, Nat.and_two_pow_sub_one_eq_mod, Nat.shiftLeft_eq]
    omega
  have h₂ : (a % 4 * 16 + b / 16) >>> 4 &&& 0x03 = a % 4 := by
    rw [show 0x03 = 2 ^ 2 - 1 from rfl, Nat.and_two_pow_sub_one_eq_mod, Nat.shiftRight_eq_div_pow]
    omega
  rw [h₁, h₂, ← Nat.shiftLeft_add_eq_or_of_lt (by omega), Nat.shiftLeft_eq]
  omega

lemma second_byte (a b c : ℕ) (hb : b < 256) (hc : c < 256) :
    (a % 4 * 16 + b / 16) <<< 4 &&& 0xff ||| (b % 16 * 4 + c / 64) >>> 2 &&& 0x0f = b := by
  have h₁ : (a % 4 * 16 + b / 16) <<< 4 &&& 0xff = (b / 16) <<< 4 := by
    rw [show 0xff = 2 ^ 8 - 1 from rfl, Nat.and_two_pow_sub_one_eq_mod, Nat.shiftLeft_eq,
      Nat.shiftLeft_eq]
    omega
  have h₂ : (b % 16 * 4 + c / 64) >>> 2 &&& 0x0f = b % 16 := by
    rw [show 0x0f = 2 ^ 4 - 1 from rfl, Nat.and_two_pow_sub_one_eq_mod, Nat.shiftRight_eq_div_pow]
    omega
  rw [h₁, h₂, ← Nat.shiftLeft_add_eq_or_of_lt (by omega), Nat.shiftLeft_eq]
  omega

lemma third_byte (b c : ℕ) (hc : c < 256) :
    (c % 64 ||| (b % 16 * 4 + c / 64) <<< 6) &&& 0xff = c := by
  rw [Nat.or_comm, ← Nat.shiftLeft_add_eq_or_of_lt (by omega), show 0xff = 2 ^ 8 - 1 from rfl,
    Nat.and_two_pow_sub_one_eq_mod, Nat.shiftLeft_eq]
  omega

lemma groupText_four (a b c : Character8) :
    groupText 4 (a.toNat / 4) (a.toNat % 4 * 16 + b.toNat / 16) (b.toNat % 16 * 4 + c.toNat / 64)
      (c.toNat % 64) = [a, b, c] := by
  simp [groupText, first_byte _ _ a.toNat_lt b.toNat_lt, second_byte _ _ _ b.toNat_lt c.toNat_lt,
    third_byte _ _ c.toNat_lt]

/-- The second character of a group with two bytes is the one of the group with a null third
byte. -/
lemma groupText_three (a b : Character8) (n : ℕ) :
    groupText 3 (a.toNat / 4) (a.toNat % 4 * 16 + b.toNat / 16) (b.toNat % 16 * 4) n = [a, b] := by
  have h₂ := second_byte a.toNat b.toNat 0 b.toNat_lt (by omega)
  simp only [Nat.zero_div, Nat.add_zero] at h₂
  simp [groupText, first_byte _ _ a.toNat_lt b.toNat_lt, h₂]

lemma groupText_two (a : Character8) (m n : ℕ) :
    groupText 2 (a.toNat / 4) (a.toNat % 4 * 16) m n = [a] := by
  have h₁ := first_byte a.toNat 0 a.toNat_lt (by omega)
  simp only [Nat.zero_div, Nat.add_zero] at h₁
  simp [groupText, h₁]

/-- The group of one byte adds it to the buffer. -/
lemma buffer_group_one (st : DecodeState) (a : Character8) :
    ((st.read (mapItem (a.toNat / 4)) (mapItem (a.toNat % 4 * 16)) (ch '=') (ch '=')).finish
      (groupCount (ch '=') (ch '='))).buffer = st.buffer ++ [a] := by
  have ha := a.toNat_lt
  have h₁ : a.toNat / 4 < 64 := by omega
  have h₂ : a.toNat % 4 * 16 < 64 := by omega
  have hcount : groupCount (ch '=') (ch '=') = 2 := rfl
  rw [buffer_finish_read, hcount, mapIndex_mapItem _ h₁, mapIndex_mapItem _ h₂, groupText_two]

/-- The group of two bytes adds them to the buffer. -/
lemma buffer_group_two (st : DecodeState) (a b : Character8) :
    ((st.read (mapItem (a.toNat / 4)) (mapItem (a.toNat % 4 * 16 + b.toNat / 16))
      (mapItem (b.toNat % 16 * 4)) (ch '=')).finish
      (groupCount (mapItem (b.toNat % 16 * 4)) (ch '='))).buffer = st.buffer ++ [a, b] := by
  have ha := a.toNat_lt
  have hb := b.toNat_lt
  have h₁ : a.toNat / 4 < 64 := by omega
  have h₂ : a.toNat % 4 * 16 + b.toNat / 16 < 64 := by omega
  have h₃ : b.toNat % 16 * 4 < 64 := by omega
  rw [buffer_finish_read, groupCount_padding (mapItem_ne_padding _ h₃), mapIndex_mapItem _ h₁,
    mapIndex_mapItem _ h₂, if_pos (mapItem_ne_padding _ h₃), mapIndex_mapItem _ h₃,
    groupText_three]

/-- The third and the fourth character of a full group are no padding. -/
lemma groupCount_full (b c : Character8) :
    groupCount (mapItem (b.toNat % 16 * 4 + c.toNat / 64)) (mapItem (c.toNat % 64)) = 4 := by
  have hc := c.toNat_lt
  exact groupCount_of_ne (mapItem_ne_padding _ (by omega)) (mapItem_ne_padding _ (by omega))

/-- A full group adds three bytes to the buffer. -/
lemma buffer_group_full (st : DecodeState) (a b c : Character8) :
    ((st.read (mapItem (a.toNat / 4)) (mapItem (a.toNat % 4 * 16 + b.toNat / 16))
      (mapItem (b.toNat % 16 * 4 + c.toNat / 64)) (mapItem (c.toNat % 64))).finish
      (groupCount (mapItem (b.toNat % 16 * 4 + c.toNat / 64)) (mapItem (c.toNat % 64)))).buffer =
      st.buffer ++ [a, b, c] := by
  have ha := a.toNat_lt
  have hb := b.toNat_lt
  have hc := c.toNat_lt
  have h₁ : a.toNat / 4 < 64 := by omega
  have h₂ : a.toNat % 4 * 16 + b.toNat / 16 < 64 := by omega
  have h₃ : b.toNat % 16 * 4 + c.toNat / 64 < 64 := by omega
  have h₄ : c.toNat % 64 < 64 := by omega
  rw [buffer_finish_read, groupCount_full, mapIndex_mapItem _ h₁, mapIndex_mapItem _ h₂,
    if_pos (mapItem_ne_padding _ h₃), mapIndex_mapItem _ h₃,
    if_pos (mapItem_ne_padding _ h₄), mapIndex_mapItem _ h₄, groupText_four]

/-! ## Round trip -/

/-- Induction over a string three bytes at a time. -/
@[elab_as_elim]
lemma groupInduction {P : String8 → Prop} (nil : P []) (one : ∀ a, P [a])
    (two : ∀ a b, P [a, b]) (cons : ∀ a b c s, P s → P (a :: b :: c :: s)) : ∀ s, P s
  | [] => nil
  | [a] => one a
  | [a, b] => two a b
  | a :: b :: c :: s => cons a b c s (groupInduction nil one two cons s)

lemma encodedString_length (s : String8) :
    (encodedString s).length = 4 * ((s.length + 2) / 3) := by
  induction s using groupInduction with
  | nil => rfl
  | one a => simp [encodedString_one]
  | two a b => simp [encodedString_two]
  | cons a b c s ih =>
    rw [encodedString_cons]
    simp only [List.length_cons, ih]
    omega

/-- An encoded string is a text over the alphabet followed by the padding. -/
lemma encodedString_alphabet (s : String8) :
    ∃ body k, encodedString s = body ++ List.replicate k (ch '=') ∧ k ≤ 2 ∧
      body ⊆ characterMap.take 64 := by
  induction s using groupInduction with
  | nil => exact ⟨[], 0, rfl, by omega, by simp⟩
  | one a =>
    have ha := a.toNat_lt
    refine ⟨[_, _], 2, encodedString_one a, le_rfl, ?_⟩
    simp only [List.cons_subset, List.nil_subset, and_true]
    exact ⟨mapItem_mem _ (by omega), mapItem_mem _ (by omega)⟩
  | two a b =>
    have ha := a.toNat_lt
    have hb := b.toNat_lt
    refine ⟨[_, _, _], 1, encodedString_two a b, by omega, ?_⟩
    simp only [List.cons_subset, List.nil_subset, and_true]
    exact ⟨mapItem_mem _ (by omega), mapItem_mem _ (by omega), mapItem_mem _ (by omega)⟩
  | cons a b c s ih =>
    have ha := a.toNat_lt
    have hb := b.toNat_lt
    have hc := c.toNat_lt
    obtain ⟨body, k, hs, hk, hbody⟩ := ih
    refine ⟨_ :: _ :: _ :: _ :: body, k, by rw [encodedString_cons, hs]; rfl, hk, ?_⟩
    simp only [List.cons_subset]
    exact ⟨mapItem_mem _ (by omega), mapItem_mem _ (by omega), mapItem_mem _ (by omega),
      mapItem_mem _ (by omega), hbody⟩

/-- The invariant of the decoder on an encoded string: what is left of `s` is encoded behind the
position, the rest is in the buffer. -/
def Decoding (s v : String8) (st : DecodeState) : Prop :=
  ∃ l r, v = l ++ encodedString r ∧ st.pos = l.length ∧ st.buffer ++ r = s ∧
    (st.done = true → r = [])

/-- Reading a group whose bytes are `t` keeps the invariant and moves the position. -/
lemma decoding_group {l r t : String8} {c₁ c₂ c₃ c₄ : Character8} {st : DecodeState}
    (hpos : st.pos = l.length) (h₁ : inCharacterMap c₁ = true) (h₂ : inCharacterMap c₂ = true)
    (h₃ : inCharacterMap c₃ = true) (h₄ : inCharacterMap c₄ = true)
    (ht : ((st.read c₁ c₂ c₃ c₄).finish (groupCount c₃ c₄)).buffer = st.buffer ++ t)
    (hr : groupCount c₃ c₄ < 4 → r = []) :
    ∃ st', (decodeLoop (l ++ c₁ :: c₂ :: c₃ :: c₄ :: encodedString r)).body st = some st' ∧
      Decoding (st.buffer ++ (t ++ r)) (l ++ c₁ :: c₂ :: c₃ :: c₄ :: encodedString r) st' ∧
      (l ++ c₁ :: c₂ :: c₃ :: c₄ :: encodedString r).length - st'.pos.toNat <
        (l ++ c₁ :: c₂ :: c₃ :: c₄ :: encodedString r).length - st.pos.toNat := by
  have hpos' : ((st.read c₁ c₂ c₃ c₄).finish (groupCount c₃ c₄)).pos = l.length + 4 := by
    simp [DecodeState.finish, DecodeState.read, hpos]
  refine ⟨_, decodeLoop_step l _ c₁ c₂ c₃ c₄ st hpos h₁ h₂ h₃ h₄,
    ⟨l ++ [c₁, c₂, c₃, c₄], r, by simp, by simp [hpos'], by rw [ht, List.append_assoc], ?_⟩, ?_⟩
  · intro hdone
    exact hr (by simpa [DecodeState.finish] using hdone)
  · rw [hpos', hpos]
    simp only [List.length_append, List.length_cons]
    omega

/-- An iteration of the decoder keeps the invariant and moves the position.

**Proof sketch.** What is left has at least one byte. By the number of bytes in the next group the
encoder wrote two, three or four characters of the map before the padding; `decoding_group` reads
them and the `buffer_group` lemmas give the bytes back. -/
lemma decoding_step {s v : String8} {st : DecodeState} (hst : Decoding s v st)
    (he : (decodeLoop v).exit st = false) :
    ∃ st', (decodeLoop v).body st = some st' ∧ Decoding s v st' ∧
      v.length - st'.pos.toNat < v.length - st.pos.toNat := by
  obtain ⟨l, r, rfl, hpos, rfl, -⟩ := hst
  have hpad : inCharacterMap (ch '=') = true := by decide
  rcases r with _ | ⟨a, _ | ⟨b, _ | ⟨c, r⟩⟩⟩
  · rw [decodeLoop_exit] at he
    simp [hpos] at he
  · have ha := a.toNat_lt
    rw [encodedString_one]
    exact decoding_group (t := [a]) (r := []) hpos (inCharacterMap_mapItem _ (by omega))
      (inCharacterMap_mapItem _ (by omega)) hpad hpad (buffer_group_one st a) fun _ => rfl
  · have ha := a.toNat_lt
    have hb := b.toNat_lt
    rw [encodedString_two]
    exact decoding_group (t := [a, b]) (r := []) hpos (inCharacterMap_mapItem _ (by omega))
      (inCharacterMap_mapItem _ (by omega)) (inCharacterMap_mapItem _ (by omega)) hpad
      (buffer_group_two st a b) fun _ => rfl
  · have ha := a.toNat_lt
    have hb := b.toNat_lt
    have hc := c.toNat_lt
    rw [encodedString_cons]
    refine decoding_group (t := [a, b, c]) (r := r) hpos (inCharacterMap_mapItem _ (by omega))
      (inCharacterMap_mapItem _ (by omega)) (inCharacterMap_mapItem _ (by omega))
      (inCharacterMap_mapItem _ (by omega)) (buffer_group_full st a b c) ?_
    intro hlt
    rw [groupCount_full] at hlt
    omega

/-- On an encoded string every index of the decoder is valid and the string comes back. -/
lemma decodedString_encodedString (s : String8) : decodedString (encodedString s) = some s := by
  have hinit : Decoding s (encodedString s) ⟨0, false, 0, 0, 0, 0, []⟩ :=
    ⟨[], s, rfl, rfl, rfl, by simp⟩
  obtain ⟨st, hrun, ⟨l, r, hv, hpos, hbuf, hdone⟩, hexit⟩ :=
    Loop.run_of_variant (Decoding s (encodedString s))
      (fun st => (encodedString s).length - st.pos.toNat)
      (fun st hst he => decoding_step hst he) hinit (n := (encodedString s).length) (by simp)
  -- at the exit nothing is left: `done` says so, or the position is at the end
  have hr : r = [] := by
    simp only [decodeLoop_exit, Bool.or_eq_true, decide_eq_true_eq, hv, hpos, List.length_append,
      encodedString_length] at hexit
    rcases hexit with hend | hend
    · exact List.length_eq_zero_iff.mp (by omega)
    · exact hdone hend
  rw [hr, List.append_nil] at hbuf
  rw [decodedString, hrun, Option.map_some, hbuf]

/-- **Round trip**: on an encoded string every index of the decoder is valid and the string comes
back; an encoded string has four characters for each three bytes, of the 64 characters of the
alphabet with at most two signs of padding at the end. The lengths are those of strings whose bit
array can be allocated, so that `8 * s.count` does not overflow. -/
theorem roundTrip_base64 (s : String8) :
    decodedString (encodedString s) = some s ∧
    (encodedString s).length = 4 * ((s.length + 2) / 3) ∧
    ∃ body k, encodedString s = body ++ List.replicate k (ch '=') ∧ k ≤ 2 ∧
      body ⊆ characterMap.take 64 :=
  ⟨decodedString_encodedString s, encodedString_length s, encodedString_alphabet s⟩

end EiffelWeb.Base64
