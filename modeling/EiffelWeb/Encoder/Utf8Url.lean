import Mathlib.Data.List.Basic
import Mathlib.Tactic.Common
import EiffelWeb.Encoder.UrlRoundTrip

set_option relaxedAutoImplicit false
set_option autoImplicit false

/-!
# The UTF-8 URL encoder

The class `UTF8_URL_ENCODER`, which requests use for every name and value they receive. Encoding
percent-encodes the codes themselves and applies UTF-8 to the result, which is ASCII already;
decoding percent-decodes and, when the bytes pass for UTF-8, decodes them once more.

The conversions come from the class `UNICODE_CONVERSION` of the kernel library, which is a
parameter here. Well-formed UTF-8 is the encoding of a list of `Char` by
`String.utf8EncodeChar`.

## Main definitions

* `UnicodeConversion` — the conversions, with what the encoder relies on.
* `UnicodeConversion.Strict` — `is_valid_utf8` accepts nothing but UTF-8.
* `Utf8UrlEncoder.encodedString`, `Utf8UrlEncoder.decodedString`
* `Utf8UrlEncoder.Literal` — the texts the decoder leaves as they are.

## Main results

* `Utf8UrlEncoder.decodedString_of_ascii` — text without escapes decodes to itself.
* `Utf8UrlEncoder.roundTrip_utf8` — when the round trip holds.
* `Utf8UrlEncoder.decodedString_eq_self_iff` — exactly the literal texts decode to themselves.
-/

namespace EiffelWeb

/-- The UTF-8 form of a list of Unicode characters. -/
def utf8 (l : List Char) : String8 := l.flatMap String.utf8EncodeChar

@[simp] lemma utf8_nil : utf8 [] = [] := rfl

@[simp] lemma utf8_cons (c : Char) (l : List Char) :
    utf8 (c :: l) = String.utf8EncodeChar c ++ utf8 l := List.flatMap_cons

/-- The conversions of `UNICODE_CONVERSION`. A conversion returns the converted string and
`last_conversion_successful`. -/
structure UnicodeConversion where
  /-- `utf32_to_utf8 (s)`. -/
  utf32ToUtf8 : String32 → String8 × Bool
  /-- `utf8_to_utf32 (s)`. -/
  utf8ToUtf32 : String8 → String32 × Bool
  /-- `is_valid_utf8 (s)`. -/
  isValidUtf8 : String8 → Bool
  /-- ASCII strings are their own UTF-8 form. -/
  utf32ToUtf8_ascii : ∀ s : String8, (∀ c ∈ s, c.toNat < 128) →
    utf32ToUtf8 (asString32 s) = (s, true)
  /-- UTF-8 is decoded. -/
  utf8ToUtf32_utf8 : ∀ l : List Char, utf8ToUtf32 (utf8 l) = (l.map Char.val, true)
  /-- UTF-8 is accepted. -/
  isValidUtf8_utf8 : ∀ l : List Char, isValidUtf8 (utf8 l) = true

/-- `is_valid_utf8` accepts nothing but UTF-8. -/
def UnicodeConversion.Strict (uc : UnicodeConversion) : Prop :=
  ∀ t, uc.isValidUtf8 t = true → ∃ l, t = utf8 l

namespace Utf8UrlEncoder

variable (uc : UnicodeConversion)

/-- `encoded_string (s)`. -/
def encodedString (s : String32) : Outcome String8 :=
  let o := UrlEncoder.encodedString s
  if o.hasError then o
  else
    let (r, ok) := uc.utf32ToUtf8 (asString32 o.result)
    ⟨r, !ok⟩

/-- `partial_encoded_string (s, ignore)`. -/
def partialEncodedString (s : String32) (ignore : List Character8) : Outcome String8 :=
  let o := UrlEncoder.partialEncodedString s ignore
  if o.hasError then o
  else
    let (r, ok) := uc.utf32ToUtf8 (asString32 o.result)
    ⟨r, !ok⟩

/-- `decoded_string (v)`. The conversions take a `STRING_8`, so codes above 255 reach them as
null characters. -/
def decodedString (v : String8) : Outcome String32 :=
  let o := UrlEncoder.decodedString v
  if o.hasError then o
  else if uc.isValidUtf8 (asString8 o.result) then
    let (r, ok) := uc.utf8ToUtf32 (asString8 o.result)
    ⟨r, !ok⟩
  else o

/-! ## ASCII text -/

lemma utf8EncodeChar_ofUInt8 {b : Character8} (h : b.toNat < 128) :
    String.utf8EncodeChar (Char.ofUInt8 b) = [b] := by
  have hv : (Char.ofUInt8 b).val.toNat = b.toNat := UInt8.toNat_toUInt32 b
  rw [String.utf8EncodeChar, if_pos (by rw [hv]; omega), hv]
  simp

/-- ASCII text is the UTF-8 form of its characters. -/
lemma utf8_map_ofUInt8 {s : String8} (h : ∀ c ∈ s, c.toNat < 128) :
    utf8 (s.map Char.ofUInt8) = s := by
  induction s with
  | nil => rfl
  | cons c s ih =>
    rw [List.map_cons, utf8_cons, utf8EncodeChar_ofUInt8 (h c (by simp)),
      ih fun d hd => h d (by simp [hd])]
    rfl

lemma utf8ToUtf32_ascii {s : String8} (h : ∀ c ∈ s, c.toNat < 128) :
    uc.utf8ToUtf32 s = (asString32 s, true) := by
  have hu := uc.utf8ToUtf32_utf8 (s.map Char.ofUInt8)
  rw [utf8_map_ofUInt8 h, List.map_map] at hu
  exact hu

lemma isValidUtf8_ascii {s : String8} (h : ∀ c ∈ s, c.toNat < 128) : uc.isValidUtf8 s = true := by
  rw [← utf8_map_ofUInt8 h]
  exact uc.isValidUtf8_utf8 _

/-- The decoder on a text, in terms of the percent-decoder. -/
lemma decodedString_result (v : String8) :
    (decodedString uc v).result =
      if uc.isValidUtf8 (asString8 (UrlEncoder.decode v)) then
        (uc.utf8ToUtf32 (asString8 (UrlEncoder.decode v))).1
      else UrlEncoder.decode v := by
  rw [decodedString, UrlEncoder.decodedString_eq]
  by_cases h : uc.isValidUtf8 (asString8 (UrlEncoder.decode v)) <;> simp [h]

/-- ASCII text without `+` and `%` decodes to itself. -/
lemma decodedString_of_ascii {v : String8}
    (h : ∀ c ∈ v, c.toNat < 128 ∧ c ≠ ch '+' ∧ c ≠ ch '%') :
    (decodedString uc v).result = asString32 v := by
  have ha : ∀ c ∈ v, c.toNat < 128 := fun c hc => (h c hc).1
  have hplus : ch '+' ∉ v := fun hc => (h _ hc).2.1 rfl
  have hpercent : ch '%' ∉ v.dropLast := fun hc => (h _ (v.dropLast_subset hc)).2.2 rfl
  rw [decodedString_result, UrlEncoder.decode_eq_self hplus hpercent, asString8_asString32,
    if_pos (isValidUtf8_ascii uc ha), utf8ToUtf32_ascii uc ha]

/-! ## The round trip -/

lemma encodedCharacter_ascii : ∀ n : Fin 256,
    (UrlEncoder.encodedCharacter (UInt32.ofNat n)).all (fun c => c.toNat < 128) = true := by
  decide +kernel

/-- Encoded text is ASCII. -/
lemma encode_ascii {s : String32} (h : ∀ c ∈ s, c.toNat ≤ 255) :
    ∀ c ∈ UrlEncoder.encode s, c.toNat < 128 := by
  intro c hc
  obtain ⟨w, hw, hc⟩ := List.mem_flatMap.mp hc
  have hlt : w.toNat < 256 := by have := h w hw; omega
  have hw' : UInt32.ofNat (⟨w.toNat, hlt⟩ : Fin 256) = w := by simp
  have hall := List.all_eq_true.mp (encodedCharacter_ascii ⟨w.toNat, hlt⟩) c (by rwa [hw'])
  exact of_decide_eq_true hall

/-- Codes up to 255 are encoded without error, to their percent-encoding. -/
lemma encodedString_eq {s : String32} (h : ∀ c ∈ s, c.toNat ≤ 255) :
    encodedString uc s = ⟨UrlEncoder.encode s, false⟩ := by
  have herr := (UrlEncoder.encodedString_hasError s).mpr h
  simp [encodedString, herr, UrlEncoder.encodedString_result,
    uc.utf32ToUtf8_ascii _ (encode_ascii h)]

/-- An encoding without error has only codes up to 255. -/
lemma le_of_hasError_eq_false {s : String32} (h : (encodedString uc s).hasError = false) :
    ∀ c ∈ s, c.toNat ≤ 255 := by
  by_cases herr : (UrlEncoder.encodedString s).hasError
  · simp [encodedString, herr] at h
  · exact (UrlEncoder.encodedString_hasError s).mp (by simpa using herr)

/-- Decoded text compared with the UTF-8 form of the original. -/
def utf8Target : UrlEncoder.Target Character8 where
  read := asCharacter8
  write c :=
    if c.toNat < 128 then [asCharacter8 c]
    else [UInt8.ofNat (c.toNat / 64 % 32 + 192), UInt8.ofNat (c.toNat % 64 + 128)]
  write_eq_or_le c := by
    by_cases h : c.toNat < 128
    · exact .inl (if_pos h)
    · exact .inr (by rw [if_neg h]; simp)
  write_ascii c h := if_pos h
  eq_of_read_eq v b hb h := by
    have hb' := toNat_asCharacter8 hb
    by_cases hv : v.toNat ≤ 255
    · left
      apply UInt32.toNat_inj.mp
      rw [← toNat_asCharacter8 hv, h, hb']
    · right
      have h0 : asCharacter8 v = 0 := if_neg hv
      refine ⟨UInt32.toNat_inj.mp ?_, by omega⟩
      rw [← hb', ← h, h0]
      rfl

lemma utf8EncodeChar_eq_write {c : Char} (h : c.val.toNat ≤ 255) :
    String.utf8EncodeChar c = utf8Target.write c.val := by
  by_cases hlt : c.val.toNat < 128
  · have h8 : UInt8.ofNat c.val.toNat = asCharacter8 c.val := by
      apply UInt8.toNat_inj.mp
      rw [toNat_asCharacter8 h, UInt8.toNat_ofNat']
      omega
    simp only [String.utf8EncodeChar, utf8Target, if_pos hlt]
    rw [if_pos (by omega), h8]
  · simp only [String.utf8EncodeChar, utf8Target, if_neg hlt]
    rw [if_neg (by omega), if_pos (by omega)]

lemma utf8_eq_flatMap_write {l : List Char} (h : ∀ c ∈ l, c.val.toNat ≤ 255) :
    utf8 l = (l.map Char.val).flatMap utf8Target.write := by
  induction l with
  | nil => rfl
  | cons c l ih =>
    rw [utf8_cons, utf8EncodeChar_eq_write (h c (by simp)), ih fun d hd => h d (by simp [hd]),
      List.map_cons, List.flatMap_cons]

/-- Codes up to 255 that are their own UTF-8 form are ASCII. -/
lemma ascii_of_flatMap_write {s : String32}
    (h : asString8 s = s.flatMap utf8Target.write) : ∀ c ∈ s, c.toNat < 128 := by
  induction s with
  | nil => simp
  | cons c s ih =>
    have hl := utf8Target.length_le_flatMap_write s
    have hlen := congrArg List.length h
    simp only [asString8, List.map_cons, List.length_cons, List.length_map, List.flatMap_cons,
      List.length_append] at hlen
    have hc : c.toNat < 128 := by
      by_contra hge
      have h2 : (utf8Target.write c).length = 2 := by simp [utf8Target, hge]
      omega
    rw [List.flatMap_cons, utf8Target.write_ascii c hc] at h
    intro d hd
    rcases List.mem_cons.mp hd with rfl | hd
    · exact hc
    · exact ih (List.cons.inj h).2 d hd

/-- The strings that the encoder and the decoder give back: no code below 16, and bytes that do
not pass for UTF-8 unless they are ASCII. -/
def Recoverable (s : String32) : Prop :=
  (∀ c ∈ s, 16 ≤ c.toNat) ∧
    (uc.isValidUtf8 (asString8 s) = true → ∀ c ∈ s, c.toNat < 128)

/-- Recoverable strings come back. -/
lemma roundTrip_of_recoverable {s : String32} (hle : ∀ c ∈ s, c.toNat ≤ 255)
    (h : Recoverable uc s) : (decodedString uc (UrlEncoder.encode s)).result = s := by
  rw [decodedString_result, UrlEncoder.decode_encode fun c hc => ⟨h.1 c hc, hle c hc⟩]
  by_cases hv : uc.isValidUtf8 (asString8 s)
  · have hascii := h.2 hv
    have hs : asString32 (asString8 s) = s := asString32_asString8 hle
    have h8 : ∀ c ∈ asString8 s, c.toNat < 128 := by
      intro c hc
      obtain ⟨d, hd, rfl⟩ := List.mem_map.mp hc
      rw [toNat_asCharacter8 (hle d hd)]
      exact hascii d hd
    rw [if_pos hv, utf8ToUtf32_ascii uc h8, hs]
  · rw [if_neg hv]

/-- With a strict UTF-8 test nothing else comes back.

**Proof sketch.** If the percent-decoded bytes fail the test they are the result, so they are
`s`, and `le_of_decode_encode` applies. If they pass, they are the UTF-8 form of the result, so
of `s`; the same theorem, now against the UTF-8 form of `s`, gives the first half, whence the
bytes are those of `s`, and a string that is its own UTF-8 form is ASCII. -/
lemma recoverable_of_roundTrip (hstrict : uc.Strict) {s : String32}
    (hle : ∀ c ∈ s, c.toNat ≤ 255)
    (h : (decodedString uc (UrlEncoder.encode s)).result = s) : Recoverable uc s := by
  rw [decodedString_result] at h
  by_cases hv : uc.isValidUtf8 (asString8 (UrlEncoder.decode (UrlEncoder.encode s)))
  · rw [if_pos hv] at h
    obtain ⟨l, hl⟩ := hstrict _ hv
    rw [hl, uc.utf8ToUtf32_utf8] at h
    dsimp only at h
    have hl255 : ∀ c ∈ l, c.val.toNat ≤ 255 := fun c hc =>
      hle c.val (h ▸ List.mem_map_of_mem hc)
    rw [utf8_eq_flatMap_write hl255, h] at hl
    have h16 := utf8Target.le_of_decode_encode hle hl
    refine ⟨h16, fun _ => ascii_of_flatMap_write ?_⟩
    rwa [UrlEncoder.decode_encode fun c hc => ⟨h16 c hc, hle c hc⟩] at hl
  · rw [if_neg hv] at h
    have h16 := UrlEncoder.identityTarget.le_of_decode_encode hle
      (by simpa [UrlEncoder.identityTarget] using h)
    exact ⟨h16, fun hs => absurd (by rwa [h]) hv⟩

/-- **The round trip of `UTF8_URL_ENCODER`**: a string that is encoded without error comes back
when it has no code below 16 and its codes, taken as bytes, are ASCII or do not pass for UTF-8;
if the UTF-8 test accepts nothing but UTF-8, exactly these strings come back. -/
theorem roundTrip_utf8 (s : String32) (h : (encodedString uc s).hasError = false) :
    (Recoverable uc s → (decodedString uc (encodedString uc s).result).result = s) ∧
      (uc.Strict →
        ((decodedString uc (encodedString uc s).result).result = s ↔ Recoverable uc s)) := by
  have hle := le_of_hasError_eq_false uc h
  have hback := roundTrip_of_recoverable uc hle
  rw [encodedString_eq uc hle]
  exact ⟨hback, fun hs => ⟨recoverable_of_roundTrip uc hs hle, hback⟩⟩

/-! ## Texts that are decoded to themselves -/

/-- The texts the decoder leaves as they are: no plus sign, no percent sign but at the end, and
bytes that do not pass for UTF-8 unless they are ASCII. -/
def Literal (v : String8) : Prop :=
  ch '+' ∉ v ∧ ch '%' ∉ v.dropLast ∧ (uc.isValidUtf8 v = true → ∀ c ∈ v, c.toNat < 128)

/-- A character has one byte exactly if it is ASCII. -/
lemma utf8EncodeChar_cases (c : Char) :
    (c.val.toNat < 128 ∧ String.utf8EncodeChar c = [asCharacter8 c.val]) ∨
      2 ≤ (String.utf8EncodeChar c).length := by
  by_cases h : c.val.toNat < 128
  · left
    rw [utf8EncodeChar_eq_write (by omega)]
    exact ⟨h, utf8Target.write_ascii c.val h⟩
  · right
    rw [String.utf8EncodeChar, if_neg (by omega)]
    split_ifs <;> simp

lemma length_le_length_utf8 (l : List Char) : l.length ≤ (utf8 l).length := by
  induction l with
  | nil => exact le_rfl
  | cons c l ih =>
    rw [utf8_cons, List.length_cons, List.length_append]
    rcases utf8EncodeChar_cases c with ⟨-, hc⟩ | hc
    · rw [hc, List.length_singleton]
      omega
    · omega

/-- UTF-8 with as many bytes as characters is ASCII. -/
lemma ascii_of_length_utf8 {l : List Char} (h : (utf8 l).length = l.length) :
    (∀ c ∈ l, c.val.toNat < 128) ∧ asString32 (utf8 l) = l.map Char.val := by
  induction l with
  | nil => exact ⟨nofun, rfl⟩
  | cons c l ih =>
    have hle := length_le_length_utf8 l
    rw [utf8_cons, List.length_cons, List.length_append] at h
    rcases utf8EncodeChar_cases c with ⟨hlt, hc⟩ | hc
    · rw [hc, List.length_singleton] at h
      obtain ⟨hl, hs⟩ := ih (by omega)
      refine ⟨List.forall_mem_cons.mpr ⟨hlt, hl⟩, ?_⟩
      rw [utf8_cons, hc, List.map_cons, ← hs, asString32, asString32, List.map_append,
        List.map_singleton, toUInt32_asCharacter8 (by omega)]
      rfl
    · omega

/-- An ASCII byte at the start of UTF-8 is a character of its own. -/
lemma exists_of_cons_eq_utf8 {a : Character8} (ha : a.toNat < 128) {t : String8} {l : List Char}
    (h : a :: t = utf8 l) : ∃ l', l = Char.ofUInt8 a :: l' ∧ t = utf8 l' := by
  cases l with
  | nil => simp at h
  | cons c l =>
    rw [utf8_cons] at h
    rcases utf8EncodeChar_cases c with ⟨hlt, hc⟩ | hc
    · rw [hc, List.singleton_append, List.cons.injEq] at h
      refine ⟨l, ?_, h.2⟩
      rw [h.1]
      congr 1
      apply Char.ext
      have hval : (Char.ofUInt8 (asCharacter8 c.val)).val = (asCharacter8 c.val).toUInt32 := rfl
      rw [hval, toUInt32_asCharacter8 (by omega)]
    · exfalso
      have hhead := congrArg List.head? h
      rw [String.utf8EncodeChar] at hc hhead
      split_ifs at hc hhead
      · simp at hc
      all_goals
        simp only [List.cons_append, List.head?_cons, Option.some.injEq] at hhead
        rw [hhead, UInt8.toNat_ofNat'] at ha
        omega

/-- A text that is not shorter decoded has no escape, with a strict UTF-8 test; only its plus signs
are changed. -/
lemma decodedString_eq_of_length (hstrict : uc.Strict) {v : String8}
    (h : (decodedString uc v).result.length = v.length) :
    ch '%' ∉ v.dropLast ∧
      (decodedString uc v).result = asString32 (v.map UrlEncoder.plusToBlank) := by
  have hle := UrlEncoder.length_decode_le v
  rw [decodedString_result] at h ⊢
  split_ifs at h ⊢ with hvalid
  · obtain ⟨l, hl⟩ := hstrict _ hvalid
    rw [hl, uc.utf8ToUtf32_utf8, List.length_map] at h
    have hbytes : (utf8 l).length = (UrlEncoder.decode v).length := by
      rw [← hl, asString8, List.length_map]
    have hge := length_le_length_utf8 l
    -- neither the percent decoder nor the UTF-8 decoder shortens the text
    obtain ⟨-, hsame⟩ := ascii_of_length_utf8 (l := l) (by omega)
    obtain ⟨hc, hdec⟩ := UrlEncoder.decode_eq_of_length (v := v) (by omega)
    refine ⟨hc, ?_⟩
    rw [hl, uc.utf8ToUtf32_utf8, ← hsame, ← hl, hdec, asString8_asString32]
  · exact UrlEncoder.decode_eq_of_length h

/-- **Exactly the literal texts are decoded to themselves**, with a strict UTF-8 test. -/
lemma decodedString_eq_self_iff (hstrict : uc.Strict) (v : String8) :
    (decodedString uc v).result = asString32 v ↔ Literal uc v := by
  constructor
  · intro h
    obtain ⟨hc, hmap⟩ := decodedString_eq_of_length uc hstrict (v := v)
      (by rw [h, asString32, List.length_map])
    have hp := UrlEncoder.notMem_of_map_plusToBlank (asString32_injective (hmap.symm.trans h))
    refine ⟨hp, hc, fun hvalid c hmem => ?_⟩
    rw [decodedString_result, UrlEncoder.decode_eq_self hp hc, asString8_asString32,
      if_pos hvalid] at h
    obtain ⟨l, rfl⟩ := hstrict _ hvalid
    rw [uc.utf8ToUtf32_utf8] at h
    dsimp only at h
    have hlength : (utf8 l).length = l.length := by
      simpa [asString32] using (congrArg List.length h).symm
    have hmem' : c.toUInt32 ∈ l.map Char.val := h ▸ List.mem_map_of_mem hmem
    obtain ⟨d, hd, hdc⟩ := List.mem_map.mp hmem'
    rw [← UInt8.toNat_toUInt32, ← hdc]
    exact (ascii_of_length_utf8 hlength).1 d hd
  · rintro ⟨hp, hc, hv⟩
    rw [decodedString_result, UrlEncoder.decode_eq_self hp hc, asString8_asString32]
    split_ifs with hvalid
    · rw [utf8ToUtf32_ascii uc (hv hvalid)]
    · rfl

/-- The second byte of a character is no byte that the percent decoder can find there. -/
lemma decode_concat_ne_tail {x : Character8} (hx : x.toNat < 32) (c : Character32) (u : String8)
    (hc : 2 ≤ (utf8Target.write c).length) :
    (UrlEncoder.decode (u ++ [x])).map utf8Target.read ≠
      (utf8Target.write c).tail ++ (asString32 u).flatMap utf8Target.write := by
  intro h
  have hwrite : ∀ d : Character32, 128 ≤ d.toNat → utf8Target.write d =
      [UInt8.ofNat (d.toNat / 64 % 32 + 192), UInt8.ofNat (d.toNat % 64 + 128)] :=
    fun d hd => if_neg (by omega)
  have hc128 : 128 ≤ c.toNat := by
    by_contra hlt
    rw [utf8Target.write_ascii c (by omega)] at hc
    simp at hc
  set y : Character8 := UInt8.ofNat (c.toNat % 64 + 128) with hydef
  have hy : 128 ≤ y.toNat := by
    rw [hydef, UInt8.toNat_ofNat']
    omega
  rw [hwrite c hc128, List.tail_cons, List.singleton_append] at h
  -- nothing is lost in decoding
  have hle := UrlEncoder.length_decode_le (u ++ [x])
  have hge := utf8Target.length_le_flatMap_write (asString32 u)
  have hlen := congrArg List.length h
  rw [List.length_map, List.length_cons] at hlen
  rw [List.length_append, List.length_singleton] at hle
  rw [show (asString32 u).length = u.length from List.length_map _] at hge
  obtain ⟨-, hdec⟩ := UrlEncoder.decode_eq_of_length (v := u ++ [x])
    (by rw [List.length_append, List.length_singleton]; omega)
  have hread : (asString32 ((u ++ [x]).map UrlEncoder.plusToBlank)).map utf8Target.read =
      (u ++ [x]).map UrlEncoder.plusToBlank := asString8_asString32 _
  rw [hdec, hread] at h
  have hplus : ∀ d : Character8, UrlEncoder.plusToBlank d = y → d = y := by
    intro d hd
    rw [UrlEncoder.plusToBlank] at hd
    split_ifs at hd
    · rw [← hd] at hy
      exact absurd hy (by decide)
    · exact hd
  rcases u with _ | ⟨d, u⟩
  · have hxy := hplus x (List.cons.inj h).1
    rw [hxy] at hx
    omega
  · -- the byte would start a character of its own
    have hd := hplus d (List.cons.inj h).1
    have hd128 : 128 ≤ d.toUInt32.toNat := by
      rw [UInt8.toNat_toUInt32, hd]
      exact hy
    have htwo : (utf8Target.write d.toUInt32).length = 2 := by
      rw [hwrite _ hd128]
      rfl
    have hu := utf8Target.length_le_flatMap_write (asString32 u)
    have hlen' := congrArg List.length h
    simp only [asString32, List.map_cons, List.flatMap_cons, List.length_cons, List.length_map,
      List.length_append, List.length_nil] at hlen' hu
    rw [htwo] at hlen'
    omega

/-- A text with a control character appended is not decoded to the text. -/
lemma decodedString_concat_ne (hstrict : uc.Strict) {x : Character8} (hx : x.toNat < 32)
    (u : String8) : (decodedString uc (u ++ [x])).result ≠ asString32 u := by
  rw [decodedString_result]
  intro h
  split_ifs at h with hv
  · obtain ⟨l, hl⟩ := hstrict _ hv
    rw [hl, uc.utf8ToUtf32_utf8] at h
    dsimp only at h
    have hl255 : ∀ c ∈ l, c.val.toNat ≤ 255 := by
      intro c hc
      have hmem : c.val ∈ asString32 u := h ▸ List.mem_map_of_mem hc
      obtain ⟨d, -, hd⟩ := List.mem_map.mp hmem
      rw [← hd, UInt8.toNat_toUInt32]
      have := d.toNat_lt
      omega
    rw [utf8_eq_flatMap_write hl255, h] at hl
    exact utf8Target.decode_concat_ne hx (decode_concat_ne_tail hx) u hl
  · refine UrlEncoder.identityTarget.decode_concat_ne hx (fun c u' hc => ?_) u ?_
    · simp [UrlEncoder.identityTarget] at hc
    · simpa [UrlEncoder.identityTarget] using h

/-- Decoding does not lengthen a text, with a strict UTF-8 test. -/
lemma length_decodedString_le (hstrict : uc.Strict) (v : String8) :
    (decodedString uc v).result.length ≤ v.length := by
  have hle := UrlEncoder.length_decode_le v
  rw [decodedString_result]
  split_ifs with hv
  · obtain ⟨l, hl⟩ := hstrict _ hv
    have hge := length_le_length_utf8 l
    have hbytes := congrArg List.length hl
    rw [asString8, List.length_map] at hbytes
    rw [hl, uc.utf8ToUtf32_utf8, List.length_map]
    omega
  · exact hle

end Utf8UrlEncoder

/-! ## The conversions of the standard -/

/-- The UTF-8 form of a string of character codes, and whether all of them are codes. -/
def encodeUtf8 (s : String32) : String8 × Bool :=
  (utf8 (s.map fun c => Char.ofNat c.toNat), s.all fun c => c.isValidChar)

/-- The decoder of the Lean library; text that is not UTF-8 is widened. -/
def decodeUtf8 (t : String8) : String32 × Bool :=
  match t.toByteArray.utf8Decode? with
  | some cs => (cs.toList.map Char.val, true)
  | none => (asString32 t, false)

lemma encodeUtf8_ascii (s : String8) (h : ∀ c ∈ s, c.toNat < 128) :
    encodeUtf8 (asString32 s) = (s, true) := by
  have hmap : (asString32 s).map (fun c => Char.ofNat c.toNat) = s.map Char.ofUInt8 := by
    rw [asString32, List.map_map]
    refine List.map_congr_left fun c hc => Char.ext (UInt32.toNat_inj.mp ?_)
    have hlt := h c hc
    rw [Function.comp_apply, UInt8.toNat_toUInt32]
    rw [Char.ofNat, dif_pos (.inl (by omega) : c.toNat.isValidChar)]
    exact (UInt8.toNat_toUInt32 c).symm
  have hall : (asString32 s).all (fun c => c.isValidChar) = true := by
    simp only [asString32, List.all_map, List.all_eq_true, Function.comp_apply,
      decide_eq_true_eq]
    intro c hc
    have hlt := h c hc
    exact .inl (by rw [UInt8.toNat_toUInt32]; omega)
  rw [encodeUtf8, hmap, hall, Utf8UrlEncoder.utf8_map_ofUInt8 h]

lemma utf8Decode?_utf8 (l : List Char) : (utf8 l).toByteArray.utf8Decode? = some l.toArray :=
  List.utf8Decode?_utf8Encode

lemma decodeUtf8_utf8 (l : List Char) : decodeUtf8 (utf8 l) = (l.map Char.val, true) := by
  simp [decodeUtf8, utf8Decode?_utf8]

lemma isSome_utf8Decode?_utf8 (l : List Char) :
    (utf8 l).toByteArray.utf8Decode?.isSome = true := by
  rw [utf8Decode?_utf8]
  rfl

/-- Conversions that follow the UTF-8 standard. -/
def standardConversion : UnicodeConversion where
  utf32ToUtf8 := encodeUtf8
  utf8ToUtf32 := decodeUtf8
  isValidUtf8 t := t.toByteArray.utf8Decode?.isSome
  utf32ToUtf8_ascii := encodeUtf8_ascii
  utf8ToUtf32_utf8 := decodeUtf8_utf8
  isValidUtf8_utf8 := isSome_utf8Decode?_utf8

lemma standardConversion_strict : standardConversion.Strict := by
  intro t ht
  obtain ⟨l, hl⟩ := ByteArray.isSome_utf8Decode?_iff.mp ht
  refine ⟨l, ?_⟩
  have hd := congrArg (fun b => b.data.toList) hl
  simpa [List.utf8Encode, utf8] using hd

namespace Utf8UrlEncoder

/-- An ASCII text with a blank and a reserved character comes back. -/
theorem roundTrip_utf8_ascii :
    (encodedString standardConversion [0x61, 0x20, 0x26]).hasError = false ∧
      (decodedString standardConversion
        (encodedString standardConversion [0x61, 0x20, 0x26]).result).result =
          [0x61, 0x20, 0x26] := by
  have h : (encodedString standardConversion [0x61, 0x20, 0x26]).hasError = false := by
    rw [encodedString_eq _ (by simp)]
  exact ⟨h, (roundTrip_utf8 standardConversion _ h).1 ⟨by simp, fun _ => by simp⟩⟩

/-- Two characters whose codes are the UTF-8 form of one letter come back as that letter. -/
theorem not_roundTrip_utf8 :
    ¬ ∀ s : String32, (encodedString standardConversion s).hasError = false →
      (decodedString standardConversion (encodedString standardConversion s).result).result =
        s := by
  intro h
  have henc := encodedString_eq standardConversion (s := [0xC3, 0xA9]) (by simp)
  have hs := h [0xC3, 0xA9] (by rw [henc])
  have hdec : UrlEncoder.decode (UrlEncoder.encode [0xC3, 0xA9]) = [0xC3, 0xA9] :=
    UrlEncoder.decode_encode (by simp)
  have hbytes : asString8 [0xC3, 0xA9] = utf8 ['é'] := by decide
  rw [henc, decodedString_result, hdec, hbytes, standardConversion.isValidUtf8_utf8, if_pos rfl,
    standardConversion.utf8ToUtf32_utf8] at hs
  exact absurd hs (by decide)

end Utf8UrlEncoder

end EiffelWeb
