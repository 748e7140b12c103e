import Mathlib.Data.List.Chain
import Mathlib.Data.List.Count
import EiffelWeb.Encoder.UrlRoundTrip

set_option relaxedAutoImplicit false
set_option autoImplicit false

/-!
# The URL decoder on tokens and on arbitrary text

What `decoded_string` of `URL_ENCODER` makes of a text that is put together from tokens: plain
characters, plus signs, `%XY` escapes and `%uXXXX` escapes. The two branches of
`url_decoded_char` leave the position at different places: the `%XY` branch on the last digit, the
`%u` branch behind it. The caller adds one in both cases, so the character behind a `%u` escape is
dropped.

The second part is about malformed escapes. The digits of an escape are not checked; a character
that is none contributes a weight that may be negative or above 15.

## Main definitions

* `UrlEncoder.Token`, `UrlEncoder.Token.text`, `UrlEncoder.Token.value`
* `UrlEncoder.EscapesInByte` — the weights of each escape make a byte.

## Main results

* `UrlEncoder.decodedString_tokens_iff` — when the decoder works token by token.
* `UrlEncoder.decodedString_byte_iff` — when the decoder yields bytes.
-/

namespace EiffelWeb.UrlEncoder

/-! ## Hexadecimal digits -/

/-- A character that is a hexadecimal digit. -/
abbrev HexDigit := {c : Character8 // isHexaDigit c = true}

/-- The value of a hexadecimal digit. -/
def hexValue (c : Character8) : ℕ :=
  if isDigit c then c.toNat - 48 else if isLower c then c.toNat - 87 else c.toNat - 55

lemma hexDigitValue_eq (d : HexDigit) : hexDigitValue d = hexValue d := by
  obtain ⟨d, hd⟩ := d
  revert hd
  exact forall_character8 (P := fun d => isHexaDigit d = true → hexDigitValue d = hexValue d)
    (by decide +kernel) d

lemma unicodeDigitValue_eq (d : HexDigit) : unicodeDigitValue d = hexValue d := by
  obtain ⟨d, hd⟩ := d
  revert hd
  exact forall_character8 (P := fun d => isHexaDigit d = true → unicodeDigitValue d = hexValue d)
    (by decide +kernel) d

lemma HexDigit.ne_of_isHexaDigit (d : HexDigit) {c : Character8} (hc : isHexaDigit c = false) :
    (d : Character8) ≠ c := by
  intro h
  have hd := d.2
  rw [h, hc] at hd
  cases hd

lemma asNatural32_natCast (n : ℕ) : asNatural32 n = UInt32.ofNat n := by
  apply UInt32.toNat_inj.mp
  rw [toNat_asNatural32, UInt32.toNat_ofNat']
  omega

/-! ## Tokens -/

/-- The tokens of an encoded text. -/
inductive Token where
  /-- A character other than `%` and `+`. -/
  | plain (c : Character8) (hc : c ≠ ch '%' ∧ c ≠ ch '+')
  /-- A plus sign. -/
  | plus
  /-- `%XY`. -/
  | escape (d e : HexDigit)
  /-- `%uXXXX`. -/
  | unicode (a b c d : HexDigit)

namespace Token

/-- The text of a token. -/
def text : Token → String8
  | plain c _ => [c]
  | plus => [ch '+']
  | escape d e => [ch '%', d, e]
  | unicode a b c d => [ch '%', ch 'u', a, b, c, d]

/-- The character a token stands for. -/
def value : Token → Character32
  | plain c _ => c.toUInt32
  | plus => (ch ' ').toUInt32
  | escape d e => UInt32.ofNat (16 * hexValue d + hexValue e)
  | unicode a b c d =>
    UInt32.ofNat (16 * (16 * (16 * hexValue a + hexValue b) + hexValue c) + hexValue d)

/-- A `%u` token. -/
def isUnicode : Token → Bool
  | unicode _ _ _ _ => true
  | _ => false

/-- A token that is a hexadecimal digit. -/
def isHexPlain : Token → Bool
  | plain c _ => isHexaDigit c
  | _ => false

end Token

/-- The text of a sequence of tokens. -/
def tokensText (ts : List Token) : String8 := ts.flatMap Token.text

/-- No `%u` token is directly followed by a hexadecimal digit. -/
def Separated (ts : List Token) : Prop :=
  ts.IsChain fun t t' => t.isUnicode = true → t'.isHexPlain = false

@[simp] lemma tokensText_cons (t : Token) (ts : List Token) :
    tokensText (t :: ts) = t.text ++ tokensText ts :=
  List.flatMap_cons

lemma decode_escape (d e : HexDigit) (r : String8) :
    decode (ch '%' :: d :: e :: r) = UInt32.ofNat (16 * hexValue d + hexValue e) :: decode r := by
  have hx : (e : Character8) ≠ ch 'x' := e.ne_of_isHexaDigit (by decide)
  have hsum : (hexValue d : ℤ) * 16 + hexValue e = (16 * hexValue d + hexValue e : ℕ) := by
    push_cast
    ring
  rw [decode_percent_two (d.ne_of_isHexaDigit (by decide)), hexToInteger32_pair _ hx,
    hexDigitValue_eq, hexDigitValue_eq, hsum, asNatural32_natCast]

/-- The text of a token other than `%u` is read as its value. -/
lemma decode_token {t : Token} (ht : t.isUnicode = false) (r : String8) :
    decode (t.text ++ r) = t.value :: decode r := by
  cases t with
  | plain c hc => exact decode_other hc.2 hc.1 r
  | plus => exact decode_plus r
  | escape d e => exact decode_escape d e r
  | unicode a b c d => cases ht

/-- A hexadecimal digit is read as itself. -/
lemma decode_hexDigit (d : HexDigit) (r : String8) :
    decode ((d : Character8) :: r) = (d : Character8).toUInt32 :: decode r :=
  decode_other (d.ne_of_isHexaDigit (by decide)) (d.ne_of_isHexaDigit (by decide)) r

/-- Behind a `%u` token the decoder drops a character. -/
lemma decode_unicode (a b c d : HexDigit) (r : String8)
    (hr : ∀ x ∈ r.head?, isHexaDigit x = false) :
    decode ((Token.unicode a b c d).text ++ r) =
      (Token.unicode a b c d).value :: decode (r.drop 1) := by
  have hdigits : ∀ x ∈ [a.1, b.1, c.1, d.1], isHexaDigit x = true := by
    simp [a.2, b.2, c.2, d.2]
  have hstop : r.takeWhile isHexaDigit = [] ∧ r.dropWhile isHexaDigit = r := by
    rcases r with _ | ⟨x, r⟩
    · simp
    · have hx := hr x (by simp)
      simp [hx]
  have htake : ([a.1, b.1, c.1, d.1] ++ r).takeWhile isHexaDigit = [a.1, b.1, c.1, d.1] := by
    rw [List.takeWhile_append_of_pos hdigits, hstop.1, List.append_nil]
  have hdrop : ([a.1, b.1, c.1, d.1] ++ r).dropWhile isHexaDigit = r := by
    rw [List.dropWhile_append_of_pos hdigits, hstop.2]
  have hvalue : unicodeValue [a.1, b.1, c.1, d.1] =
      (16 * (16 * (16 * hexValue a + hexValue b) + hexValue c) + hexValue d : ℕ) := by
    simp only [unicodeValue, List.foldl_cons, List.foldl_nil, unicodeDigitValue_eq]
    push_cast
    ring
  have hread := decode_percent_unicode ([a.1, b.1, c.1, d.1] ++ r)
  rw [htake, hdrop, hvalue, asNatural32_natCast] at hread
  exact hread

lemma head_tokensText {t : Token} {ts : List Token} (h : Separated (t :: ts))
    (ht : t.isUnicode = true) : ∀ x ∈ (tokensText ts).head?, isHexaDigit x = false := by
  rcases ts with _ | ⟨t', ts⟩
  · simp [tokensText]
  · have hplain := (List.isChain_cons_cons.mp h).1 ht
    cases t' with
    | plain c hc => simpa [Token.text, Token.isHexPlain] using hplain
    | plus => simp [Token.text, show isHexaDigit (ch '+') = false by decide]
    | escape d e => simp [Token.text, show isHexaDigit (ch '%') = false by decide]
    | unicode a b c d => simp [Token.text, show isHexaDigit (ch '%') = false by decide]

/-! ## When the decoder works token by token -/

/-- If only the last token may be a `%u` token, each token is read as its value. -/
lemma decode_tokens {ts : List Token} (h : ∀ t ∈ ts.dropLast, t.isUnicode = false) :
    decode (tokensText ts) = ts.map Token.value := by
  induction ts with
  | nil => exact decode_nil
  | cons t ts ih =>
    have hts : decode (tokensText ts) = ts.map Token.value := by
      apply ih
      intro t' ht'
      apply h
      rcases ts with _ | ⟨t₂, ts⟩
      · cases ht'
      · rw [List.dropLast_cons_cons]
        exact List.mem_cons_of_mem t ht'
    rw [tokensText_cons, List.map_cons]
    cases t with
    | unicode a b c d =>
      rcases ts with _ | ⟨t₂, ts⟩
      · rw [decode_unicode a b c d _ (by simp [tokensText])]
        rw [← hts]
        rfl
      · have hmem : Token.unicode a b c d ∈ (Token.unicode a b c d :: t₂ :: ts).dropLast := by
          simp
        cases h _ hmem
    | plain c hc => rw [decode_token rfl, hts]
    | plus => rw [decode_token rfl, hts]
    | escape d e => rw [decode_token rfl, hts]

/-- The code of a hexadecimal digit. -/
def isHexCode (w : Character32) : Bool := isCharacter8 w && isHexaDigit (asCharacter8 w)

lemma isHexCode_toUInt32 (c : Character8) : isHexCode c.toUInt32 = isHexaDigit c := by
  have hlt := c.toNat_lt
  have h8 : isCharacter8 c.toUInt32 = true := by
    simp only [isCharacter8, UInt8.toNat_toUInt32, decide_eq_true_eq]
    omega
  rw [isHexCode, h8, asCharacter8_toUInt32, Bool.true_and]

/-- The text `D` is behind the text `V`: it has more hexadecimal digits, or as many of them and
fewer characters. -/
def Behind (V D : String32) : Prop :=
  V.countP isHexCode < D.countP isHexCode ∨
    V.countP isHexCode = D.countP isHexCode ∧ D.length < V.length

lemma Behind.ne {V D : String32} (h : Behind V D) : D ≠ V := by
  rintro rfl
  rcases h with h | ⟨-, h⟩
  · exact lt_irrefl _ h
  · exact lt_irrefl _ h

lemma Behind.cons {V D : String32} (h : Behind V D) (w : Character32) :
    Behind (w :: V) (w :: D) := by
  unfold Behind at h ⊢
  simp only [List.countP_cons, List.length_cons]
  omega

/-- Dropping a character that is no digit. -/
lemma behind_of_drop {V D : String32} (h : D = V ∨ Behind V D) (w : Character32)
    {c : Character32} (hc : isHexCode c = false) : Behind (w :: c :: V) (w :: D) := by
  unfold Behind at h ⊢
  simp only [List.countP_cons, List.length_cons, hc]
  rcases h with rfl | h
  · simp
  · simp only [Bool.false_eq_true, if_false]
    omega

/-- Two digits or more in the place of one character. -/
lemma behind_of_digits {V D l : String32} (h : D = V ∨ Behind V D) (w x : Character32)
    (hl : 2 ≤ l.countP isHexCode) : Behind (w :: x :: V) (w :: (l ++ D)) := by
  have hle : V.countP isHexCode ≤ D.countP isHexCode := by
    rcases h with rfl | h | ⟨h, -⟩
    · exact le_rfl
    · exact h.le
    · exact h.le
  have hx : (if isHexCode x = true then 1 else 0) ≤ 1 := by split <;> omega
  left
  simp only [List.countP_cons, List.countP_append]
  omega

lemma countP_digits (l : List HexDigit) :
    (l.map fun d : HexDigit => d.1.toUInt32).countP isHexCode = l.length := by
  rw [List.countP_eq_length.mpr, List.length_map]
  intro w hw
  obtain ⟨d, -, rfl⟩ := List.mem_map.mp hw
  rw [isHexCode_toUInt32]
  exact d.2

/-- The digits of a token whose percent sign was dropped are read as they are. -/
lemma decode_digits (l : List HexDigit) (r : String8) :
    decode (l.map Subtype.val ++ r) =
      (l.map fun d : HexDigit => d.1.toUInt32) ++ decode r := by
  induction l with
  | nil => rfl
  | cons d l ih => rw [List.map_cons, List.map_cons, List.cons_append, decode_hexDigit, ih]; rfl

/-- What is read behind a `%u` token that another token follows. -/
lemma behind_unicode {t t' : Token} {ts : List Token} (hsep : Separated (t :: t' :: ts))
    (ht : t.isUnicode = true)
    (h : decode (tokensText ts) = ts.map Token.value ∨
      Behind (ts.map Token.value) (decode (tokensText ts))) :
    Behind ((t :: t' :: ts).map Token.value) (decode (tokensText (t :: t' :: ts))) := by
  have hhead := head_tokensText hsep ht
  have hplain := (List.isChain_cons_cons.mp hsep).1 ht
  cases t with
  | plain c hc => cases ht
  | plus => cases ht
  | escape d e => cases ht
  | unicode a b c d =>
    rw [tokensText_cons, decode_unicode a b c d _ hhead, tokensText_cons]
    cases t' with
    | plain x hx => exact behind_of_drop h _ (by rw [Token.value, isHexCode_toUInt32]; exact hplain)
    | plus => exact behind_of_drop h _ (by decide)
    | escape x y =>
      have hread := decode_digits [x, y] (tokensText ts)
      have hbehind := behind_of_digits h (Token.unicode a b c d).value (Token.escape x y).value
        (l := [x, y].map fun d : HexDigit => d.1.toUInt32) (by rw [countP_digits]; simp)
      rw [← hread] at hbehind
      exact hbehind
    | unicode x y z u =>
      have hread := decode_digits [x, y, z, u] (tokensText ts)
      have hu : decode (ch 'u' :: ([x, y, z, u].map Subtype.val ++ tokensText ts)) =
          (ch 'u').toUInt32 :: decode ([x, y, z, u].map Subtype.val ++ tokensText ts) :=
        decode_other (by decide) (by decide) _
      have hbehind := behind_of_digits h (Token.unicode a b c d).value
        (Token.unicode x y z u).value
        (l := (ch 'u').toUInt32 :: [x, y, z, u].map fun d : HexDigit => d.1.toUInt32)
        (by rw [List.countP_cons, countP_digits]; exact Nat.le_add_right_of_le (by simp))
      rw [List.cons_append, ← hread, ← hu] at hbehind
      exact hbehind

/-- Either only the last token may be a `%u` token, or the decoded text is behind the values.

**Proof sketch.** Recursion over the tokens, two at a time behind a `%u` token. A dropped plain
character is no digit, so it costs a character and no digit; a dropped percent sign leaves the
digits of its escape, more than the one its value can be. -/
lemma decode_tokens_behind : ∀ ts : List Token, Separated ts →
    (∀ t ∈ ts.dropLast, t.isUnicode = false) ∨
      Behind (ts.map Token.value) (decode (tokensText ts))
  | [], _ => by simp
  | [t], _ => by simp
  | t :: t' :: ts, hsep => by
    have htail : Separated (t' :: ts) := hsep.tail
    cases ht : t.isUnicode with
    | false =>
      rcases decode_tokens_behind (t' :: ts) htail with h | h
      · left
        intro t₁ ht₁
        rw [List.dropLast_cons_cons, List.mem_cons] at ht₁
        rcases ht₁ with rfl | ht₁
        · exact ht
        · exact h t₁ ht₁
      · right
        rw [tokensText_cons, decode_token ht, List.map_cons]
        exact h.cons _
    | true =>
      right
      apply behind_unicode hsep ht
      rcases decode_tokens_behind ts htail.tail with h | h
      · exact Or.inl (decode_tokens h)
      · exact Or.inr h

/-- **The decoder works token by token** if and only if no `%u` token but the last is followed by
another token. -/
theorem decodedString_tokens_iff (ts : List Token) (hsep : Separated ts) :
    (decodedString (tokensText ts)).result = ts.map Token.value ↔
      ∀ t ∈ ts.dropLast, t.isUnicode = false := by
  rw [decodedString_eq]
  constructor
  · intro h
    rcases decode_tokens_behind ts hsep with hlast | hbehind
    · exact hlast
    · exact absurd h hbehind.ne
  · intro h
    exact decode_tokens h

/-- A `%u` token at the end of a text is read as its value. -/
theorem decodedString_tokens_unicodeLast :
    (decodedString (str "a+%u00e9")).result = [97, 32, 233] := by
  have h := (decodedString_tokens_iff
    [.plain (ch 'a') (by decide), .plus,
      .unicode ⟨ch '0', by decide⟩ ⟨ch '0', by decide⟩ ⟨ch 'e', by decide⟩ ⟨ch '9', by decide⟩]
    (by simp [Separated, Token.isUnicode])).mpr (by simp [Token.isUnicode])
  exact h

/-- Behind a `%u` token the next character is dropped. -/
theorem decodedString_tokens_unicodeFirst :
    ∃ ts : List Token, Separated ts ∧
      (decodedString (tokensText ts)).result ≠ ts.map Token.value := by
  refine ⟨[.unicode ⟨ch '0', by decide⟩ ⟨ch '0', by decide⟩ ⟨ch '4', by decide⟩
    ⟨ch '1', by decide⟩, .plain (ch 'x') (by decide)], ?_, ?_⟩
  · simp [Separated, Token.isHexPlain, show isHexaDigit (ch 'x') = false by decide]
  · have hread : decodedString (str "%u0041x") = ⟨[65], false⟩ := by decide +kernel
    intro h
    have hlength := congrArg List.length (hread ▸ h)
    cases hlength

/-! ## Arbitrary text -/

/-- The weight of a character in an escape: the value of a decimal digit; for any other character
its distance from the letter `a`, in lower case, and ten. -/
def digitWeight (c : Character8) : ℤ :=
  if isDigit c then c.toNat - 48 else if isUpper c then c.toNat - 55 else c.toNat - 87

/-- The pairs of characters that a text without `%u` has behind its percent signs, read from the
left; the characters of a pair are passed over, also when one of them is a percent sign. -/
def escapes : String8 → List (Character8 × Character8)
  | c :: d :: e :: r => if c = ch '%' then (d, e) :: escapes r else escapes (d :: e :: r)
  | _ => []

/-- The weights of each escape make a byte, or its second character is an `x`. -/
def EscapesInByte (v : String8) : Prop :=
  ∀ p ∈ escapes v, p.2 = ch 'x' ∨
    0 ≤ 16 * digitWeight p.1 + digitWeight p.2 ∧ 16 * digitWeight p.1 + digitWeight p.2 ≤ 255

instance (v : String8) : Decidable (EscapesInByte v) := List.decidableBAll _ (escapes v)

lemma hexDigitValue_eq_digitWeight (c : Character8) : hexDigitValue c = digitWeight c :=
  forall_character8 (P := fun c => hexDigitValue c = digitWeight c) (by decide +kernel) c

lemma digitWeight_bounds (c : Character8) : -87 ≤ digitWeight c ∧ digitWeight c ≤ 168 :=
  forall_character8 (P := fun c => -87 ≤ digitWeight c ∧ digitWeight c ≤ 168) (by decide +kernel) c

/-- The code an escape stands for is a byte if and only if its weights make one: a negative value
becomes a large code. -/
lemma escape_byte_iff (d e : Character8) :
    (asNatural32 (hexToInteger32 [d, e])).toNat ≤ 255 ↔ e = ch 'x' ∨
      0 ≤ 16 * digitWeight d + digitWeight e ∧ 16 * digitWeight d + digitWeight e ≤ 255 := by
  by_cases hx : e = ch 'x'
  · subst hx
    simp [hexToInteger32, toNat_asNatural32]
  · have hd := digitWeight_bounds d
    have he := digitWeight_bounds e
    rw [hexToInteger32_pair d hx, toNat_asNatural32, hexDigitValue_eq_digitWeight,
      hexDigitValue_eq_digitWeight]
    simp only [hx, false_or]
    omega

/-- A character outside an escape is decoded to a byte. -/
lemma decode_byte_cons {c : Character8} (hc : c ≠ ch '%') (r : String8) :
    (∀ w ∈ decode (c :: r), w.toNat ≤ 255) ↔ ∀ w ∈ decode r, w.toNat ≤ 255 := by
  have hlt := c.toNat_lt
  by_cases hp : c = ch '+'
  · subst hp
    rw [decode_plus, List.forall_mem_cons]
    exact and_iff_right (by decide)
  · rw [decode_other hp hc, List.forall_mem_cons]
    apply and_iff_right
    rw [UInt8.toNat_toUInt32]
    omega

/-- The decoded text is made of bytes if and only if its escapes are.

**Proof sketch.** Recursion over the text as `escapes` reads it; a percent sign in one of the last
two places is decoded to itself or to the null character. -/
lemma decode_byte_iff : ∀ v : String8, ¬ str "%u" <:+: v →
    ((∀ w ∈ decode v, w.toNat ≤ 255) ↔ EscapesInByte v)
  | [], _ => by simp [EscapesInByte, escapes]
  | [c], _ => by
    have hnil : EscapesInByte [c] := by simp [EscapesInByte, escapes]
    simp only [hnil, iff_true]
    by_cases hc : c = ch '%'
    · rw [hc, decode_percent_end, List.forall_mem_singleton]
      decide
    · rw [decode_byte_cons hc]
      simp
  | [c, d], hu => by
    have hnil : EscapesInByte [c, d] := by simp [EscapesInByte, escapes]
    have hone := decode_byte_iff [d] fun h => hu (List.infix_cons h)
    simp only [hnil, iff_true]
    by_cases hc : c = ch '%'
    · have hd : d ≠ ch 'u' := by
        rintro rfl
        exact hu (by rw [hc]; exact List.infix_refl _)
      rw [hc, decode_percent_one hd]
      simp
    · rw [decode_byte_cons hc, hone]
      simp [EscapesInByte, escapes]
  | c :: d :: e :: r, hu => by
    by_cases hc : c = ch '%'
    · have hd : d ≠ ch 'u' := by
        rintro rfl
        exact hu (by rw [hc]; exact ⟨[], e :: r, rfl⟩)
      have hr := decode_byte_iff r fun h =>
        hu (List.infix_cons (List.infix_cons (List.infix_cons h)))
      have hescapes : escapes (c :: d :: e :: r) = (d, e) :: escapes r := by
        rw [escapes, if_pos hc]
      rw [EscapesInByte, hescapes, List.forall_mem_cons, hc, decode_percent_two hd,
        List.forall_mem_cons, escape_byte_iff]
      exact and_congr Iff.rfl hr
    · have hr := decode_byte_iff (d :: e :: r) fun h => hu (List.infix_cons h)
      have hescapes : escapes (c :: d :: e :: r) = escapes (d :: e :: r) := by
        rw [escapes, if_neg hc]
      rw [decode_byte_cons hc, hr, EscapesInByte, EscapesInByte, hescapes]

/-- **The decoder yields bytes** on a text without `%u` if and only if the weights of each escape
make one. -/
theorem decodedString_byte_iff (v : String8) (hu : ¬ str "%u" <:+: v) :
    (∀ w ∈ (decodedString v).result, w.toNat ≤ 255) ↔ EscapesInByte v := by
  rw [decodedString_eq]
  exact decode_byte_iff v hu

/-- A malformed escape whose weights make a byte, and one that is cut off. -/
theorem decodedString_byte_malformed :
    EscapesInByte (str "a%1g%") ∧
      ∀ w ∈ (decodedString (str "a%1g%")).result, w.toNat ≤ 255 := by
  have hescapes : EscapesInByte (str "a%1g%") := by decide +kernel
  exact ⟨hescapes, (decodedString_byte_iff (str "a%1g%") (by decide +kernel)).mpr hescapes⟩

/-- Two letters that are no digits, and two characters below the digits. -/
theorem not_decodedString_byte :
    ¬ str "%u" <:+: str "%zz%%%" ∧
      (decodedString (str "%zz%%%")).result = [595, 4294966446] ∧
      ¬ ∀ w ∈ (decodedString (str "%zz%%%")).result, w.toNat ≤ 255 := by
  have hcodes : (decodedString (str "%zz%%%")).result = [595, 4294966446] := by decide +kernel
  refine ⟨by decide +kernel, hcodes, fun h => ?_⟩
  have hfirst := h 595 (hcodes ▸ List.mem_cons_self)
  exact absurd hfirst (by decide)

end EiffelWeb.UrlEncoder
