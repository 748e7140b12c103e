import Mathlib.Data.List.Basic
import EiffelWeb.Encoder.Url

set_option relaxedAutoImplicit false
set_option autoImplicit false

/-!
# What the URL decoder makes of encoded text

The encoder writes the code of a character without its leading zeros, the decoder always takes
two characters. Codes from 16 on come back; a code below 16 makes the decoder take part of its
neighbours, after which the decoded text lags behind the original and never catches up.

## Main definitions

* `UrlEncoder.encode` — the text written by `encoded_string`.
* `UrlEncoder.Shape` — the four forms of an encoded character.
* `UrlEncoder.Target` — what the decoded text is compared with, character by character.

## Main results

* `UrlEncoder.decode_encode` — codes in `16 .. 255` come back.
* `UrlEncoder.Target.lag` — decoded text that lags behind never catches up.
* `UrlEncoder.Target.le_of_decode_encode` — only codes from 16 on come back.
* `UrlEncoder.roundTrip_iff` — when the round trip holds.
-/

namespace EiffelWeb.UrlEncoder

/-- The text written by `encoded_string`. -/
def encode (s : String32) : String8 := s.flatMap encodedCharacter

@[simp] lemma encode_nil : encode [] = [] := rfl

@[simp] lemma encode_cons (w : Character32) (s : String32) :
    encode (w :: s) = encodedCharacter w ++ encode s := List.flatMap_cons

lemma encodedString_result (s : String32) : (encodedString s).result = encode s := by
  rw [encodedString_eq]
  rfl

/-! ## The forms of an encoded character -/

/-- A hexadecimal digit as the encoder writes it. -/
def hexChar (i : Fin 16) : Character8 := toHexCharacter i

lemma hexChar_ne : ∀ i : Fin 16, hexChar i ≠ ch '+' ∧ hexChar i ≠ ch '%' ∧
    hexChar i ≠ ch 'u' ∧ hexChar i ≠ ch 'x' := by decide

lemma isUnreserved_hexChar : ∀ i : Fin 16, isUnreserved (hexChar i) := by decide

lemma hexDigitValue_hexChar : ∀ i : Fin 16, hexDigitValue (hexChar i) = i := by decide

lemma le_hexChar : ∀ i : Fin 16, 48 ≤ (hexChar i).toUInt32.toNat ∧
    (hexChar i).toUInt32.toNat ≤ 255 := by decide

lemma hexToInteger32_pair (d : Character8) {e : Character8} (he : e ≠ ch 'x') :
    hexToInteger32 [d, e] = hexDigitValue d * 16 + hexDigitValue e := by
  simp [hexToInteger32, he]

lemma decode_hexChar (i : Fin 16) (r : String8) :
    decode (hexChar i :: r) = (hexChar i).toUInt32 :: decode r :=
  decode_other (hexChar_ne i).1 (hexChar_ne i).2.1 r

lemma toNat_asNatural32 (i : ℤ) : (asNatural32 i).toNat = (i % 4294967296).toNat := by
  have hlt : (i % 4294967296).toNat < 4294967296 := by omega
  simp only [asNatural32, UInt32.ofInt, UInt32.toNat_ofNat']
  exact Nat.mod_eq_of_lt hlt

lemma asNatural32_toNat (w : Character32) : asNatural32 w.toNat = w := by
  have hlt : w.toNat < 4294967296 := w.toNat_lt
  apply UInt32.toNat_inj.mp
  rw [toNat_asNatural32]
  omega

/-- The four forms in which a code up to 255 is written. -/
inductive Shape (w : Character32) : Prop
  | plain (y : Character8) (henc : encodedCharacter w = [y])
      (hdec : ∀ r, decode (y :: r) = w :: decode r) (hw : 16 ≤ w.toNat)
  | escape (i j : Fin 16) (henc : encodedCharacter w = [ch '%', hexChar i, hexChar j])
      (hdec : ∀ r, decode (ch '%' :: hexChar i :: hexChar j :: r) = w :: decode r)
      (hne : (hexChar j).toUInt32 ≠ w) (hw : 16 ≤ w.toNat)
  | low (i : Fin 16) (henc : encodedCharacter w = [ch '%', hexChar i]) (hi : 0 < i)
      (hw : w.toNat = i)
  | null (henc : encodedCharacter w = [ch '%']) (hw : w = 0)

/-- The hexadecimal form of a code up to 255 without its leading zeros. -/
lemma dropWhile_toHexString : ∀ n : Fin 256, (toHexString n).dropWhile (· = ch '0') =
    if h : 16 ≤ n.val then [hexChar ⟨n / 16, by omega⟩, hexChar ⟨n % 16, by omega⟩]
    else if h₀ : 0 < n.val then [hexChar ⟨n, by omega⟩] else [] := by
  decide +kernel

/-- Every code up to 255 is written in one of the four forms. -/
lemma shape {w : Character32} (h : w.toNat ≤ 255) : Shape w := by
  have h8 : isCharacter8 w = true := by simpa [isCharacter8] using h
  have hback := toUInt32_asCharacter8 h
  have h16 : ∀ c : Fin 256, isUnreserved (UInt8.ofFin c) = true → 16 ≤ c.val ∧
      UInt8.ofFin c ≠ ch '+' ∧ UInt8.ofFin c ≠ ch '%' := by decide +kernel
  by_cases hu : isUnreserved (asCharacter8 w)
  · obtain ⟨hle, hplus, hpct⟩ :
        16 ≤ (asCharacter8 w).toNat ∧ asCharacter8 w ≠ ch '+' ∧ asCharacter8 w ≠ ch '%' :=
      h16 (asCharacter8 w).toFin hu
    refine .plain (asCharacter8 w) (by simp [encodedCharacter, encodedStep, h8, hu]) ?_ ?_
    · intro r
      rw [decode_other hplus hpct, hback]
    · rwa [toNat_asCharacter8 h] at hle
  by_cases hb : asCharacter8 w = ch ' '
  · refine .plain (ch '+') ?_ ?_ ?_
    · simp [encodedCharacter, encodedStep, h8, hb, show isUnreserved (ch ' ') = false by decide]
    · intro r
      rw [decode_plus, ← hb, hback]
    · rw [← hback, hb]
      decide
  have henc : encodedCharacter w = ch '%' :: (toHexString w.toNat).dropWhile (· = ch '0') := by
    simp [encodedCharacter, encodedStep, h8, hu, hb, appendUrlEncodedChar, urlEncodedChar]
  have hx := dropWhile_toHexString ⟨w.toNat, by omega⟩
  simp only at hx
  rw [hx] at henc
  by_cases hle : 16 ≤ w.toNat
  · rw [dif_pos hle] at henc
    refine .escape _ _ henc ?_ ?_ hle
    · intro r
      rw [decode_percent_two (hexChar_ne _).2.2.1, hexToInteger32_pair _ (hexChar_ne _).2.2.2,
        hexDigitValue_hexChar, hexDigitValue_hexChar]
      congr 1
      have hval : ((w.toNat / 16 : ℕ) : ℤ) * 16 + ((w.toNat % 16 : ℕ) : ℤ) = w.toNat := by omega
      rw [hval, asNatural32_toNat]
    · intro hj
      rw [← hj, asCharacter8_toUInt32] at hu
      exact hu (isUnreserved_hexChar _)
  · rw [dif_neg hle] at henc
    by_cases h0 : 0 < w.toNat
    · rw [dif_pos h0] at henc
      exact .low ⟨w.toNat, by omega⟩ henc h0 rfl
    · rw [dif_neg h0] at henc
      exact .null henc (UInt32.toNat_inj.mp (by simpa using h0))

/-- Codes from 16 on come back, whatever follows them. -/
lemma decode_encode_cons {w : Character32} (h : w.toNat ≤ 255) (h16 : 16 ≤ w.toNat)
    (s : String32) : decode (encode (w :: s)) = w :: decode (encode s) := by
  rw [encode_cons]
  cases shape h with
  | plain y henc hdec hw => rw [henc]; exact hdec _
  | escape i j henc hdec hne hw => rw [henc]; exact hdec _
  | low i henc hi hw => have := i.isLt; omega
  | null henc hw => subst hw; simp at h16

/-- **Codes in `16 .. 255` come back.** -/
theorem decode_encode {s : String32} (h : ∀ c ∈ s, 16 ≤ c.toNat ∧ c.toNat ≤ 255) :
    decode (encode s) = s := by
  induction s with
  | nil => simp
  | cons w s ih =>
    obtain ⟨hlo, hhi⟩ := h w (by simp)
    rw [decode_encode_cons hhi hlo, ih fun c hc => h c (by simp [hc])]

/-! ## What an escape of a low code takes -/

/-- What the decoder makes of the encoded characters `C` when their first code is below 16: it
yields `O`, which is shorter than `C`, or as long as `C` and different from it, or the three
characters of the one case in which an escape takes only the percent sign of the next one. -/
inductive Taken (C O : String32) : Prop
  | short (h : O.length < C.length)
  | apart (h : O.length = C.length) (o c : Character32) (hoc : (o, c) ∈ O.zip C) (hne : o ≠ c)
      (ho : o.toNat ≤ 255)
  | long (b e v h₁ h₂ : Character32) (hC : C = [b, e]) (hO : O = [v, h₁, h₂])
      (hb : 0 < b.toNat) (hb16 : b.toNat < 16) (hv : v ≠ b) (h48 : 48 ≤ h₁.toNat)
      (h255 : h₁.toNat ≤ 255)

/-- The text `O` decoded from an encoded `w` whose first byte `y` is gone: nothing, the digit of a
low code, or the two digits of an escape. -/
def Tail (w : Character32) (y : Character8) (O : String32) : Prop :=
  O = [] ∨ (∃ i, O = [(hexChar i).toUInt32] ∧ w.toNat < 16) ∨
    ∃ i j, O = [(hexChar i).toUInt32, (hexChar j).toUInt32] ∧ y = ch '%' ∧
      (hexChar j).toUInt32 ≠ w

/-- What is left of an encoded character once its first byte is gone. -/
lemma exists_tail {w : Character32} (h : w.toNat ≤ 255) :
    ∃ y Z O, encodedCharacter w = y :: Z ∧ (∀ T, decode (Z ++ T) = O ++ decode T) ∧
      Tail w y O := by
  cases shape h with
  | plain y henc hdec hw => exact ⟨y, [], [], henc, fun T => rfl, .inl rfl⟩
  | escape i j henc hdec hne hw =>
    refine ⟨_, _, _, henc, fun T => ?_, .inr (.inr ⟨i, j, rfl, rfl, hne⟩)⟩
    rw [List.cons_append, List.cons_append, List.nil_append, decode_hexChar, decode_hexChar]
    rfl
  | low i henc hi hw =>
    refine ⟨_, _, _, henc, fun T => ?_, .inr (.inl ⟨i, rfl, by omega⟩)⟩
    rw [List.cons_append, List.nil_append, decode_hexChar]
    rfl
  | null henc hw => exact ⟨_, [], [], henc, fun T => rfl, .inl rfl⟩

/-- Skipping the digits of a `%u` escape skips whole characters. -/
lemma exists_dropWhile_encode {s : String32} (h : ∀ c ∈ s, c.toNat ≤ 255) :
    ∃ D R, s = D ++ R ∧ (encode s).dropWhile isHexaDigit = encode R := by
  induction s with
  | nil => exact ⟨[], [], rfl, rfl⟩
  | cons w s ih =>
    obtain ⟨y, Z, O, henc, -, -⟩ := exists_tail (h w (by simp))
    by_cases hy : isHexaDigit y
    · have hZ : Z = [] := by
        have hpct : y ≠ ch '%' := by
          rintro rfl
          exact absurd hy (by decide)
        cases shape (h w (by simp)) with
        | plain y' henc' hdec hw => rw [henc] at henc'; exact (List.cons.inj henc').2
        | escape i j henc' hdec hne hw =>
          rw [henc] at henc'; exact absurd (List.cons.inj henc').1 hpct
        | low i henc' hi hw => rw [henc] at henc'; exact absurd (List.cons.inj henc').1 hpct
        | null henc' hw => rw [henc] at henc'; exact absurd (List.cons.inj henc').1 hpct
      obtain ⟨D, R, hs, hd⟩ := ih fun c hc => h c (by simp [hc])
      refine ⟨w :: D, R, by rw [hs]; rfl, ?_⟩
      rw [encode_cons, henc, hZ]
      simp [hy, hd]
    · refine ⟨[], w :: s, rfl, ?_⟩
      rw [encode_cons, henc]
      simp [hy]

/-- The null character followed by two more: the escape takes the first byte of the second. -/
lemma taken_null {w₂ w₃ : Character32} {y : Character8} {O : String32} (v : Character32)
    (hO : Tail w₃ y O) (D : String32) : Taken (0 :: w₂ :: D ++ [w₃]) (v :: O) := by
  rcases hO with rfl | ⟨i, rfl, -⟩ | ⟨i, j, rfl, -, hne⟩
  · exact .short (by simp)
  · exact .short (by simp)
  · cases D with
    | nil => exact .apart rfl _ w₃ (by simp) hne (le_hexChar j).2
    | cons d D => exact .short (by simp)

/-- A low code other than 0 with what its escape takes. -/
lemma exists_taken_low {w : Character32} {i : Fin 16} (hi : 0 < i) (hw : w.toNat = i)
    (henc : encodedCharacter w = [ch '%', hexChar i]) {s : String32}
    (h : ∀ c ∈ s, c.toNat ≤ 255) :
    ∃ C O R, w :: s = C ++ R ∧ C ≠ [] ∧
      decode (encode (w :: s)) = O ++ decode (encode R) ∧ Taken C O := by
  have hi16 := i.isLt
  have hi0 : 0 < i.val := hi
  rw [encode_cons, henc]
  cases s with
  | nil =>
    refine ⟨[w], [0], [], rfl, by simp, ?_, .apart rfl 0 w (by simp) ?_ (by decide)⟩
    · simp [decode_percent_one (hexChar_ne i).2.2.1]
    · intro h0
      rw [← h0] at hw
      simp at hw
      omega
  | cons w₂ R =>
    obtain ⟨y, Z, O, henc₂, hdec, hO⟩ := exists_tail (h w₂ (by simp))
    have hd : decode ([ch '%', hexChar i] ++ encode (w₂ :: R)) =
        (asNatural32 (hexToInteger32 [hexChar i, y]) :: O) ++ decode (encode R) := by
      rw [encode_cons, henc₂]
      simp only [List.cons_append, List.nil_append]
      rw [decode_percent_two (hexChar_ne i).2.2.1, hdec]
    refine ⟨[w, w₂], _, R, rfl, by simp, hd, ?_⟩
    rcases hO with rfl | ⟨j, rfl, hlt⟩ | ⟨j, k, rfl, rfl, hne⟩
    · exact .short (by simp)
    · refine .apart rfl _ w₂ (by simp) ?_ (le_hexChar j).2
      intro hj
      have := (le_hexChar j).1
      rw [hj] at this
      omega
    · refine .long w w₂ _ _ _ rfl rfl (by omega) (by omega) ?_ (le_hexChar j).1 (le_hexChar j).2
      have hv : ∀ i : Fin 16, (asNatural32 (hexToInteger32 [hexChar i, ch '%'])).toNat ≠ i := by
        decide +kernel
      intro hvw
      exact hv i (by rw [hvw, hw])

/-- The null character with what its escape takes.

**Proof sketch.** The encoder writes a bare percent sign. At the end of the text it stands for
itself; before a `u` it starts a `%u` escape, which takes a run of digits and one more byte;
before anything else it takes the next two bytes. -/
lemma exists_taken_null (henc : encodedCharacter 0 = [ch '%']) {s : String32}
    (h : ∀ c ∈ s, c.toNat ≤ 255) :
    ∃ C O R, 0 :: s = C ++ R ∧ C ≠ [] ∧
      decode (encode (0 :: s)) = O ++ decode (encode R) ∧ Taken C O := by
  rw [encode_cons, henc]
  cases s with
  | nil =>
    refine ⟨[0], [(ch '%').toUInt32], [], rfl, by simp, ?_,
      .apart rfl (ch '%').toUInt32 0 (by simp) (by decide) (by decide)⟩
    simp [decode_percent_end]
  | cons w₂ s =>
    have h₂ := h w₂ (by simp)
    -- a bare byte `d` after the percent sign, when it starts no `%u` escape
    have hbare : ∀ d, encodedCharacter w₂ = [d] → d ≠ ch 'u' →
        ∃ C O R, 0 :: w₂ :: s = C ++ R ∧ C ≠ [] ∧
          decode ([ch '%'] ++ encode (w₂ :: s)) = O ++ decode (encode R) ∧ Taken C O := by
      intro d hd hdu
      rw [encode_cons, hd]
      cases s with
      | nil =>
        refine ⟨[0, w₂], [0], [], rfl, by simp, ?_, .short (by simp)⟩
        simp [decode_percent_one hdu]
      | cons w₃ R =>
        obtain ⟨y, Z, O, henc₃, hdec, hO⟩ := exists_tail (h w₃ (by simp))
        refine ⟨[0, w₂, w₃], asNatural32 (hexToInteger32 [d, y]) :: O, R, rfl, by simp, ?_,
          taken_null _ hO []⟩
        rw [encode_cons, henc₃]
        simp only [List.cons_append, List.nil_append]
        rw [decode_percent_two hdu, hdec]
    cases shape h₂ with
    | plain y henc₂ hdec₂ hw₂ =>
      by_cases hy : y = ch 'u'
      · subst hy
        obtain ⟨D, R, hs, hdrop⟩ := exists_dropWhile_encode (s := s)
          fun c hc => h c (List.mem_cons_of_mem _ hc)
        rw [encode_cons, henc₂]
        simp only [List.cons_append, List.nil_append]
        rw [decode_percent_unicode, hdrop]
        generalize asNatural32 (unicodeValue ((encode s).takeWhile isHexaDigit)) = v
        cases R with
        | nil => exact ⟨0 :: w₂ :: D, [v], [], by rw [hs]; rfl, by simp, by simp, .short (by simp)⟩
        | cons w₃ R =>
          obtain ⟨y, Z, O, henc₃, hdec, hO⟩ := exists_tail (h w₃ (by simp [hs]))
          refine ⟨0 :: w₂ :: D ++ [w₃], v :: O, R, by rw [hs]; simp, by simp, ?_,
            taken_null v hO D⟩
          rw [encode_cons, henc₃, List.cons_append, List.drop_one, List.tail_cons, hdec]
          rfl
      · exact hbare y henc₂ hy
    | escape i j henc₂ hdec₂ hne hw₂ =>
      refine ⟨[0, w₂], [asNatural32 (hexToInteger32 [ch '%', hexChar i]), (hexChar j).toUInt32],
        s, rfl, by simp, ?_, .apart rfl _ w₂ (by simp) hne (le_hexChar j).2⟩
      rw [encode_cons, henc₂]
      simp only [List.cons_append, List.nil_append]
      rw [decode_percent_two (by decide), decode_hexChar]
    | low i henc₂ hi hw₂ =>
      refine ⟨[0, w₂], [asNatural32 (hexToInteger32 [ch '%', hexChar i])], s, rfl, by simp, ?_,
        .short (by simp)⟩
      rw [encode_cons, henc₂]
      simp only [List.cons_append, List.nil_append]
      rw [decode_percent_two (by decide)]
    | null henc₂ hw₂ => exact hbare _ henc₂ (by decide)

/-- A code below 16 with what its escape takes. -/
lemma exists_taken {w : Character32} (hw : w.toNat < 16) {s : String32}
    (h : ∀ c ∈ s, c.toNat ≤ 255) :
    ∃ C O R, w :: s = C ++ R ∧ C ≠ [] ∧
      decode (encode (w :: s)) = O ++ decode (encode R) ∧ Taken C O := by
  cases shape (w := w) (by omega) with
  | plain y henc hdec h16 => omega
  | escape i j henc hdec hne h16 => omega
  | low i henc hi hwi => exact exists_taken_low hi hwi henc h
  | null henc h0 =>
    subst h0
    exact exists_taken_null henc h

/-! ## Lagging behind -/

/-- Two lists that agree, split at different places. -/
lemma exists_of_append_eq_append {β : Type*} {A B X Y : List β} (h : A ++ X = B ++ Y)
    (hlt : A.length < B.length) : ∃ Q, Q ≠ [] ∧ B = A ++ Q ∧ X = Q ++ Y := by
  rcases List.append_eq_append_iff.mp h with ⟨Q, hB, hX⟩ | ⟨Q, hA, -⟩
  · refine ⟨Q, ?_, hB, hX⟩
    rintro rfl
    simp [hB] at hlt
  · simp [hA] at hlt

/-- Lists with the same image agree at every position after the map. -/
lemma eq_of_mem_zip {α β : Type*} {f : α → β} {O C : List α} (h : O.map f = C.map f) {o c : α}
    (hoc : (o, c) ∈ O.zip C) : f o = f c := by
  induction O generalizing C with
  | nil => simp at hoc
  | cons a O ih =>
    cases C with
    | nil => simp at hoc
    | cons b C =>
      simp only [List.map_cons, List.cons.injEq] at h
      rcases List.mem_cons.mp hoc with he | hoc
      · obtain ⟨rfl, rfl⟩ := Prod.mk.inj he
        exact h.1
      · exact ih h.2 hoc

/-- A way to compare decoded text with the original: a decoded character is read as `read`, an
original character stands for `write`. Either `write` is the one character `read`, as it is for
ASCII codes, or it is longer; `read` tells apart the codes up to 255, and no other code is read
as one of them but the null character. -/
structure Target (β : Type) where
  /-- How a decoded character is read. -/
  read : Character32 → β
  /-- What an original character stands for. -/
  write : Character32 → List β
  write_eq_or_le : ∀ c, write c = [read c] ∨ 2 ≤ (write c).length
  write_ascii : ∀ c, c.toNat < 128 → write c = [read c]
  eq_of_read_eq : ∀ v b, b.toNat ≤ 255 → read v = read b → v = b ∨ b = 0 ∧ 255 < v.toNat

namespace Target

variable {β : Type} (T : Target β)

lemma one_le_write (c : Character32) : 1 ≤ (T.write c).length := by
  rcases T.write_eq_or_le c with h | h
  · simp [h]
  · omega

lemma length_le_flatMap_write (s : String32) : s.length ≤ (s.flatMap T.write).length := by
  induction s with
  | nil => simp
  | cons c s ih =>
    have := T.one_le_write c
    simp only [List.length_cons, List.flatMap_cons, List.length_append]
    omega

/-- Text that stands for as many characters as it has is read off character by character. -/
lemma flatMap_write_eq_map {s : String32} (h : (s.flatMap T.write).length = s.length) :
    s.flatMap T.write = s.map T.read := by
  induction s with
  | nil => simp
  | cons c s ih =>
    have h₁ := T.one_le_write c
    have h₂ := T.length_le_flatMap_write s
    simp only [List.length_cons, List.flatMap_cons, List.length_append] at h
    rcases T.write_eq_or_le c with hc | hc
    · rw [List.flatMap_cons, hc, ih (by omega)]
      rfl
    · omega

/-- A hexadecimal digit is not read as a low code. -/
lemma read_ne_of_low {h b : Character32} (h48 : 48 ≤ h.toNat) (h255 : h.toNat ≤ 255)
    (hb : b.toNat < 16) : T.read h ≠ T.read b := by
  intro he
  rcases T.eq_of_read_eq h b (by omega) he with rfl | ⟨-, hlt⟩
  · omega
  · omega

/-- **Decoded text that lags behind never catches up**: the decoding of an encoded text is not
that text preceded by something more.

**Proof sketch.** Strong induction on the text. A code from 16 on is read off at once, so the lag
stays. An escape of a low code yields at most as many characters as it takes, so the lag does not
shrink, or it yields one more than it takes; the lag then disappears only if it was one
character, and in that case a hexadecimal digit would have to be read as the low code. -/
theorem lag {s : String32} (h : ∀ c ∈ s, c.toNat ≤ 255) {P : List β} (hP : P ≠ []) :
    (decode (encode s)).map T.read ≠ P ++ s.flatMap T.write := by
  induction hn : s.length using Nat.strong_induction_on generalizing s P with
  | _ n ih =>
    intro heq
    have hP1 : 1 ≤ P.length := List.length_pos_iff.mpr hP
    -- once the decoder has passed a prefix, the lag of the rest contradicts the hypothesis
    have hrest : ∀ C O R, s = C ++ R → C ≠ [] → decode (encode s) = O ++ decode (encode R) →
        ¬ O.length < P.length + (C.flatMap T.write).length := by
      intro C O R hs hC hdec hlt
      rw [hdec, hs, List.map_append, List.flatMap_append, ← List.append_assoc] at heq
      obtain ⟨Q, hQ, -, hX⟩ := exists_of_append_eq_append heq (by simpa using hlt)
      have hCl : 1 ≤ C.length := List.length_pos_iff.mpr hC
      refine ih R.length ?_ (fun c hc => h c (by simp [hs, hc])) hQ rfl hX
      rw [← hn, hs, List.length_append]
      omega
    cases s with
    | nil => exact hP (by simpa using heq.symm)
    | cons w s =>
      have hw := h w (by simp)
      have hs : ∀ c ∈ s, c.toNat ≤ 255 := fun c hc => h c (by simp [hc])
      by_cases h16 : 16 ≤ w.toNat
      · refine hrest [w] [w] s rfl (by simp) (decode_encode_cons hw h16 s) ?_
        have := T.one_le_write w
        simp only [List.flatMap_cons, List.flatMap_nil, List.append_nil, List.length_singleton]
        omega
      · obtain ⟨C, O, R, hCR, hC, hdec, htaken⟩ := exists_taken (w := w) (by omega) hs
        have hCle := T.length_le_flatMap_write C
        have hnot := hrest C O R hCR hC hdec
        cases htaken with
        | short hlt => omega
        | apart hlen o c hoc hne ho => omega
        | long b e v h₁ h₂ hC' hO hb hb16 hv h48 h255 =>
          subst hC' hO
          have hwb := T.write_ascii b (by omega)
          have hwe := T.one_le_write e
          simp only [List.flatMap_cons, List.flatMap_nil, List.append_nil, List.length_append, hwb,
            List.length_cons, List.length_nil] at hnot
          obtain ⟨p, rfl⟩ : ∃ p, P = [p] := List.length_eq_one_iff.mp (by omega)
          rw [hdec, hCR] at heq
          simp only [List.map_cons, List.flatMap_cons, hwb, List.cons_append, List.nil_append,
            List.cons.injEq] at heq
          exact T.read_ne_of_low h48 h255 hb16 heq.2.1

/-- **Only codes from 16 on come back.**

**Proof sketch.** Codes from 16 on are read off at once. At the first code below 16 the decoder
either falls behind, which `lag` excludes, or yields a character that differs from the original
one. -/
theorem le_of_decode_encode {s : String32} (h : ∀ c ∈ s, c.toNat ≤ 255)
    (heq : (decode (encode s)).map T.read = s.flatMap T.write) : ∀ c ∈ s, 16 ≤ c.toNat := by
  induction s with
  | nil => simp
  | cons w s ih =>
    have hw := h w (by simp)
    have hs : ∀ c ∈ s, c.toNat ≤ 255 := fun c hc => h c (by simp [hc])
    have hrest : ∀ C O R, w :: s = C ++ R → decode (encode (w :: s)) = O ++ decode (encode R) →
        ¬ O.length < (C.flatMap T.write).length := by
      intro C O R hCR hdec hlt
      rw [hdec, hCR, List.map_append, List.flatMap_append] at heq
      obtain ⟨Q, hQ, -, hX⟩ := exists_of_append_eq_append heq (by simpa using hlt)
      exact T.lag (fun c hc => h c (by simp [hCR, hc])) hQ hX
    by_cases h16 : 16 ≤ w.toNat
    · have hdec := decode_encode_cons hw h16 s
      rcases T.write_eq_or_le w with hwr | hwr
      · rw [hdec, List.map_cons, List.flatMap_cons, hwr, List.cons_append, List.nil_append,
          List.cons.injEq] at heq
        intro c hc
        rcases List.mem_cons.mp hc with rfl | hc
        · exact h16
        · exact ih hs heq.2 c hc
      · refine absurd ?_ (hrest [w] [w] s rfl hdec)
        simpa [Nat.lt_iff_add_one_le] using hwr
    · exfalso
      obtain ⟨C, O, R, hCR, hC, hdec, htaken⟩ := exists_taken (w := w) (by omega) hs
      have hCle := T.length_le_flatMap_write C
      have hnot := hrest C O R hCR hdec
      cases htaken with
      | short hlt => omega
      | apart hlen o c hoc hne ho =>
        rw [hdec, hCR, List.map_append, List.flatMap_append] at heq
        have hOC := (List.append_inj heq (by rw [List.length_map]; omega)).1
        rw [T.flatMap_write_eq_map (by omega)] at hOC
        have hread : T.read o = T.read c := eq_of_mem_zip hOC hoc
        have hc : c ∈ C := (List.of_mem_zip hoc).2
        have hc255 := h c (by rw [hCR]; exact List.mem_append_left _ hc)
        rcases T.eq_of_read_eq o c hc255 hread with he | ⟨-, hlt⟩
        · exact hne he
        · omega
      | long b e v h₁ h₂ hC' hO hb hb16 hv h48 h255 =>
        subst hC' hO
        rw [hdec, hCR] at heq
        simp only [List.map_cons, List.flatMap_cons, T.write_ascii b (by omega),
          List.cons_append, List.nil_append, List.cons.injEq] at heq
        rcases T.eq_of_read_eq v b (by omega) heq.1 with he | ⟨h0, -⟩
        · exact hv he
        · rw [h0] at hb
          simp at hb

/-- **A text with a control character appended is not decoded to the text.** A character that
stands for several ones has to be excluded by `htwo`.

**Proof sketch.** Induction on the text. Its characters are decoded to themselves; a plus sign is
not, and an escape leaves too few characters. -/
lemma decode_concat_ne {x : Character8} (hx : x.toNat < 32)
    (htwo : ∀ (c : Character32) (u : String8), 2 ≤ (T.write c).length →
      (decode (u ++ [x])).map T.read ≠ (T.write c).tail ++ (asString32 u).flatMap T.write)
    (u : String8) : (decode (u ++ [x])).map T.read ≠ (asString32 u).flatMap T.write := by
  have hne : ∀ y : Character8, 32 ≤ y.toNat → x ≠ y := fun y hy h => by
    rw [h] at hx
    omega
  induction u with
  | nil =>
    rw [List.nil_append, decode_other (hne _ (by decide)) (hne _ (by decide))]
    simp [asString32]
  | cons c u ih =>
    intro h
    have hcons : asString32 (c :: u) = c.toUInt32 :: asString32 u := rfl
    rw [hcons, List.flatMap_cons, List.cons_append] at h
    by_cases hp : c = ch '+'
    · subst hp
      rw [decode_plus, T.write_ascii _ (by decide), List.map_cons, List.singleton_append,
        List.cons.injEq] at h
      rcases T.eq_of_read_eq _ _ (by decide) h.1 with h' | h'
      · exact absurd h' (by decide)
      · exact absurd h'.1 (by decide)
    by_cases hc : c = ch '%'
    · subst hc
      rcases u with _ | ⟨d, u⟩
      · rw [List.nil_append, decode_percent_one (hne _ (by decide)), T.write_ascii _ (by decide),
          List.map_singleton, List.singleton_append, List.cons.injEq] at h
        rcases T.eq_of_read_eq _ _ (by decide) h.1 with h' | h'
        · exact absurd h' (by decide)
        · exact absurd h'.1 (by decide)
      · obtain ⟨e, r, hr⟩ := List.exists_cons_of_ne_nil (List.concat_ne_nil x u)
        have hlr := congrArg List.length hr
        have hle := length_decode_escape d e r
        have hge := T.length_le_flatMap_write (asString32 (d :: u))
        have hone := T.one_le_write (ch '%').toUInt32
        rw [List.cons_append, hr] at h
        have hlen := congrArg List.length h
        rw [List.length_map, List.length_append] at hlen
        simp only [List.length_append, List.length_cons, asString32, List.length_map,
          List.length_nil] at hlr hge hlen
        omega
    · rw [decode_other hp hc, List.map_cons] at h
      rcases T.write_eq_or_le c.toUInt32 with hw | hw
      · rw [hw, List.singleton_append, List.cons.injEq] at h
        exact ih h.2
      · obtain ⟨y, ys, hy⟩ := List.exists_cons_of_length_pos (Nat.lt_of_lt_of_le Nat.two_pos hw)
        have hne' := htwo c.toUInt32 u hw
        rw [hy, List.cons_append, List.cons.injEq] at h
        rw [hy, List.tail_cons] at hne'
        exact hne' h.2

end Target

/-! ## The round trip -/

/-- Decoded text compared with the original itself. -/
def identityTarget : Target Character32 where
  read := id
  write c := [c]
  write_eq_or_le _ := .inl rfl
  write_ascii _ _ := rfl
  eq_of_read_eq _ _ _ h := .inl h

/-- **The round trip of `URL_ENCODER`**: on strings of codes up to 255 the encoder reports no
error, and decoding gives the string back exactly when it has no code below 16. -/
theorem roundTrip_iff (s : String32) (h : ∀ c ∈ s, c.toNat ≤ 255) :
    ((encodedString s).hasError = false ∧
      (decodedString (encodedString s).result).result = s) ↔ ∀ c ∈ s, 16 ≤ c.toNat := by
  rw [encodedString_result, decodedString_eq]
  constructor
  · rintro ⟨-, heq⟩
    exact identityTarget.le_of_decode_encode h (by simpa [identityTarget] using heq)
  · intro h16
    exact ⟨(encodedString_hasError s).mpr h, decode_encode fun c hc => ⟨h16 c hc, h c hc⟩⟩

/-- An accented text comes back. -/
theorem roundTrip_accented :
    (∀ c ∈ ([0xE9, 0x74, 0xE9] : String32), c.toNat ≤ 255) ∧
      (decodedString (encodedString [0xE9, 0x74, 0xE9]).result).result = [0xE9, 0x74, 0xE9] :=
  ⟨by simp, ((roundTrip_iff [0xE9, 0x74, 0xE9] (by simp)).mpr (by simp)).2⟩

/-- A line feed before a letter does not: the text `%Aa` reads as the code `0xAA`. -/
theorem not_roundTrip_lineFeed :
    ¬ ∀ s : String32, (∀ c ∈ s, c.toNat ≤ 255) →
      (encodedString s).hasError = false ∧
        (decodedString (encodedString s).result).result = s := by
  intro h
  have h' := (h [0x0A, 0x61] (by simp)).2
  rw [show (decodedString (encodedString [0x0A, 0x61]).result).result = [0xAA] by decide +kernel]
    at h'
  exact absurd h' (by decide)

end EiffelWeb.UrlEncoder
