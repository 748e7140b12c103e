import EiffelWeb.Loop
import EiffelWeb.Character

set_option relaxedAutoImplicit false
set_option autoImplicit false

/-!
# The URL encoder

The class `URL_ENCODER`: percent-encoding of `STRING_32` values and its decoder. The decoder
walks an index through the encoded string; `decode` is the same function on the text that is
still to be read, and `decodedString_eq` relates the two.

## Main definitions

* `UrlEncoder.encodedString`, `UrlEncoder.partialEncodedString` — the encoders.
* `UrlEncoder.urlDecodedChar`, `UrlEncoder.decodedString` — the decoder.
* `UrlEncoder.decode` — the decoder as a function of the remaining text.

## Main results

* `UrlEncoder.encodedString_eq` — the encoder works character by character.
* `UrlEncoder.decodedString_eq` — the index loop computes `decode`.
* `UrlEncoder.decode_eq_of_length`, `UrlEncoder.decode_eq_self` — texts without escapes.
-/

namespace EiffelWeb

/-- What a call on an encoder leaves behind: its result and the attribute `has_error`. -/
structure Outcome (S : Type) where
  /-- The result of the call. -/
  result : S
  /-- `has_error` after the call. -/
  hasError : Bool
deriving DecidableEq

namespace UrlEncoder

/-! ## Encoder -/

/-- `n.to_hex_character` for `n < 16`. -/
def toHexCharacter (n : ℕ) : Character8 := UInt8.ofNat (if n < 10 then 48 + n else 55 + n)

/-- `n.to_hex_string` of an `INTEGER_32`: eight digits. -/
def toHexString (n : ℕ) : String8 :=
  (List.range 8).map fun k => toHexCharacter (n / 16 ^ (7 - k) % 16)

/-- `url_encoded_char (uc)`: the percent sign and the hexadecimal code without its leading
zeros; a code above 255 is an error. -/
def urlEncodedChar (uc : Character32) : Outcome String8 :=
  if isCharacter8 uc then
    ⟨ch '%' :: (toHexString uc.toNat).dropWhile (· = ch '0'), false⟩
  else ⟨[], true⟩

/-- `s8.append (url_encoded_char (uc))`. -/
def appendUrlEncodedChar (o : Outcome String8) (uc : Character32) : Outcome String8 :=
  ⟨o.result ++ (urlEncodedChar uc).result, o.hasError || (urlEncodedChar uc).hasError⟩

/-- One iteration of `encoded_string`. -/
def encodedStep (o : Outcome String8) (uc : Character32) : Outcome String8 :=
  if isCharacter8 uc then
    if isUnreserved (asCharacter8 uc) then ⟨o.result ++ [asCharacter8 uc], o.hasError⟩
    else if asCharacter8 uc = ch ' ' then ⟨o.result ++ [ch '+'], o.hasError⟩
    else appendUrlEncodedChar o uc
  else appendUrlEncodedChar o uc

/-- `encoded_string (s)`. -/
def encodedString (s : String32) : Outcome String8 := s.foldl encodedStep ⟨[], false⟩

/-- One iteration of `partial_encoded_string`. The local `c` keeps its value when the character
is not a `CHARACTER_8`, and it is that value which is looked up in `ignore`. -/
def partialEncodedStep (ignore : List Character8) (st : Outcome String8 × Character8)
    (uc : Character32) : Outcome String8 × Character8 :=
  let (o, c₀) := st
  if isCharacter8 uc then
    let c := asCharacter8 uc
    if isUnreserved c then (⟨o.result ++ [c], o.hasError⟩, c)
    else if c = ch ' ' then (⟨o.result ++ [ch '+'], o.hasError⟩, c)
    else if c ∈ ignore then (⟨o.result ++ [c], o.hasError⟩, c)
    else (appendUrlEncodedChar o uc, c)
  else if c₀ ∈ ignore then (⟨o.result ++ [c₀], o.hasError⟩, c₀)
  else (appendUrlEncodedChar o uc, c₀)

/-- `partial_encoded_string (s, ignore)`. -/
def partialEncodedString (s : String32) (ignore : List Character8) : Outcome String8 :=
  (s.foldl (partialEncodedStep ignore) (⟨[], false⟩, 0)).1

/-- The text that `encoded_string` writes for one character. -/
def encodedCharacter (uc : Character32) : String8 := (encodedStep ⟨[], false⟩ uc).result

lemma encodedStep_eq (o : Outcome String8) (uc : Character32) :
    encodedStep o uc = ⟨o.result ++ encodedCharacter uc, o.hasError || !isCharacter8 uc⟩ := by
  by_cases h : isCharacter8 uc
  · by_cases hu : isUnreserved (asCharacter8 uc)
    · simp [encodedCharacter, encodedStep, h, hu]
    · by_cases hb : asCharacter8 uc = ch ' '
      · simp [encodedCharacter, encodedStep, h, hb, show isUnreserved (ch ' ') = false by decide]
      · simp [encodedCharacter, encodedStep, h, hu, hb, appendUrlEncodedChar, urlEncodedChar]
  · simp [encodedCharacter, encodedStep, h, appendUrlEncodedChar, urlEncodedChar]

/-- **The encoder works character by character**, and fails exactly on codes above 255. -/
theorem encodedString_eq (s : String32) :
    encodedString s = ⟨s.flatMap encodedCharacter, s.any fun uc => !isCharacter8 uc⟩ := by
  have h : ∀ (s : String32) (o : Outcome String8), s.foldl encodedStep o =
      ⟨o.result ++ s.flatMap encodedCharacter, o.hasError || s.any fun uc => !isCharacter8 uc⟩ := by
    intro s
    induction s with
    | nil => intro o; simp
    | cons uc s ih =>
      intro o
      rw [List.foldl_cons, ih, encodedStep_eq]
      simp [Bool.or_assoc]
  simpa [encodedString] using h s ⟨[], false⟩

lemma encodedString_hasError (s : String32) :
    (encodedString s).hasError = false ↔ ∀ c ∈ s, c.toNat ≤ 255 := by
  simp [encodedString_eq, isCharacter8]

/-- Unreserved characters are written as they are. -/
lemma encodedString_of_unreserved {s : String8} (h : ∀ c ∈ s, isUnreserved c = true) :
    (encodedString (asString32 s)).result = s := by
  have hchar : ∀ c ∈ s, encodedCharacter c.toUInt32 = [c] := by
    intro c hc
    have h8 : isCharacter8 c.toUInt32 = true := by
      have hlt := c.toNat_lt
      simp only [isCharacter8, UInt8.toNat_toUInt32, decide_eq_true_eq]
      omega
    simp [encodedCharacter, encodedStep, h8, asCharacter8_toUInt32, h c hc]
  rw [encodedString_eq]
  induction s with
  | nil => rfl
  | cons c s ih =>
    have hrest := ih (fun d hd => h d (by simp [hd])) fun d hd => hchar d (by simp [hd])
    simp only [asString32, List.map_cons, List.flatMap_cons, hchar c (by simp)] at hrest ⊢
    rw [hrest]
    rfl

/-! ## Decoder -/

/-- The value that `hex_to_integer_32` and its siblings give to one character, digit or not. -/
def hexDigitValue (c : Character8) : ℤ :=
  if ch '0' ≤ c ∧ c ≤ ch '9' then charDiff c (ch '0') else charDiff (lower c) (ch 'a') + 10

/-- `hex_to_integer_32 (s)`: a second character `'x'` makes the loop start at the third. -/
def hexToInteger32 (s : String8) : ℤ :=
  (s.drop (if 2 ≤ s.length ∧ s[1]? = some (ch 'x') then 2 else 0)).foldl
    (fun r c => r * 16 + hexDigitValue c) 0

/-- `i.as_natural_32` as a character code. Integer arithmetic is modulo `2 ^ 32`, so only the
residue of `i` matters. -/
def asNatural32 (i : ℤ) : Character32 := UInt32.ofInt i

/-- The value of one digit of a `%u` escape. -/
def unicodeDigitValue (c : Character8) : ℤ :=
  if isDigit c then charDiff c (ch '0') else charDiff (upper c) (ch 'A') + 10

/-- State of the loop that reads the digits of a `%u` escape. -/
structure UnicodeState where
  /-- The index `i`. -/
  i : ℤ
  /-- The value read so far. -/
  ival : ℤ
  /-- Set by the first character that is no digit. -/
  notADigit : Bool

/-- The loop that reads the digits of a `%u` escape. -/
def unicodeLoop (buf : String8) : Loop UnicodeState where
  exit st := decide ((buf.length : ℤ) < st.i) || st.notADigit
  body st :=
    let c := Text.item buf st.i
    some (if isHexaDigit c then
      { st with i := st.i + 1, ival := st.ival * 16 + unicodeDigitValue c }
    else { st with notADigit := true })

/-- `url_decoded_char (buf, posr)`: the decoded text and the new value of `posr`. -/
def urlDecodedChar (buf : String8) (pos : ℤ) : String32 × ℤ :=
  if Text.item buf (pos + 1) = ch 'u' then
    match (unicodeLoop buf).run (buf.length + 1) ⟨pos + 2, 0, false⟩ with
    | some st => ([asNatural32 st.ival], st.i)
    | none => ([], pos)
  else
    ([asNatural32 (hexToInteger32 (Text.substring buf (pos + 1) (pos + 2)))], pos + 2)

/-- The loop of `decoded_string` over the index and the result. -/
def decodeLoop (v : String8) : Loop (ℤ × String32) where
  exit st := decide ((v.length : ℤ) < st.1)
  body := fun (i, s32) =>
    let c := Text.item v i
    some (if c = ch '+' then (i + 1, s32 ++ [(ch ' ').toUInt32])
    else if c = ch '%' then
      if i = v.length then (i + 1, s32 ++ [c.toUInt32])
      else
        let (t, j) := urlDecodedChar v i
        (j + 1, s32 ++ t)
    else (i + 1, s32 ++ [c.toUInt32]))

/-- `decoded_string (v)`. It clears `has_error` and never sets it. -/
def decodedString (v : String8) : Outcome String32 :=
  match (decodeLoop v).run v.length (1, []) with
  | some (_, s32) => ⟨s32, false⟩
  | none => ⟨[], false⟩

/-! ## The decoder on the remaining text -/

/-- The value of the digits of a `%u` escape. -/
def unicodeValue (d : String8) : ℤ := d.foldl (fun r c => r * 16 + unicodeDigitValue c) 0

/-- The decoder as a function of the text that is still to be read. The character after the
digits of a `%u` escape is swallowed, and an escape cut off after one character decodes to the
null character, its substring being invalid. -/
def decode : String8 → String32
  | [] => []
  | c :: r =>
    if c = ch '+' then (ch ' ').toUInt32 :: decode r
    else if c = ch '%' then
      match r with
      | [] => [(ch '%').toUInt32]
      | d :: r' =>
        if d = ch 'u' then
          asNatural32 (unicodeValue (r'.takeWhile isHexaDigit)) ::
            decode ((r'.dropWhile isHexaDigit).drop 1)
        else
          match r' with
          | [] => [0]
          | e :: r'' => asNatural32 (hexToInteger32 [d, e]) :: decode r''
    else c.toUInt32 :: decode r
termination_by s => s.length
decreasing_by
  · simp
  · have h := (r'.dropWhile_sublist isHexaDigit).length_le
    simp only [List.length_cons, List.length_drop]
    omega
  · simp only [List.length_cons]; omega
  · simp

@[simp] lemma decode_nil : decode [] = [] := by rw [decode]

lemma decode_plus (r : String8) : decode (ch '+' :: r) = (ch ' ').toUInt32 :: decode r := by
  rw [decode.eq_def]
  exact if_pos rfl

lemma decode_other {c : Character8} (h₁ : c ≠ ch '+') (h₂ : c ≠ ch '%') (r : String8) :
    decode (c :: r) = c.toUInt32 :: decode r := by
  rw [decode.eq_def]
  exact (if_neg h₁).trans (if_neg h₂)

lemma decode_percent_end : decode [ch '%'] = [(ch '%').toUInt32] := by
  rw [decode, if_neg (by decide), if_pos rfl]

lemma decode_percent_unicode (r : String8) :
    decode (ch '%' :: ch 'u' :: r) =
      asNatural32 (unicodeValue (r.takeWhile isHexaDigit)) ::
        decode ((r.dropWhile isHexaDigit).drop 1) := by
  rw [decode.eq_def]
  exact (if_neg (by decide)).trans ((if_pos rfl).trans (if_pos rfl))

lemma decode_percent_one {d : Character8} (h : d ≠ ch 'u') : decode [ch '%', d] = [0] := by
  rw [decode, if_neg (by decide), if_pos rfl]
  simp [h]

lemma decode_percent_two {d : Character8} (h : d ≠ ch 'u') (e : Character8) (r : String8) :
    decode (ch '%' :: d :: e :: r) = asNatural32 (hexToInteger32 [d, e]) :: decode r := by
  rw [decode, if_neg (by decide), if_pos rfl]
  simp [h]

/-- The digit loop of a `%u` escape reads the longest run of digits.

**Proof sketch.** Induction on the run: a digit moves the index past it, and the loop stops at
the first other character or at the end of the string. -/
lemma unicodeLoop_run (d r : String8) (hd : ∀ c ∈ d, isHexaDigit c)
    (hr : ∀ c ∈ r.head?, isHexaDigit c = false) :
    ∀ (a : String8) (ival : ℤ) (n : ℕ), d.length + 1 ≤ n →
      ∃ b, (unicodeLoop (a ++ (d ++ r))).run n ⟨a.length + 1, ival, false⟩ =
        some ⟨a.length + 1 + d.length,
          d.foldl (fun r c => r * 16 + unicodeDigitValue c) ival, b⟩ := by
  induction d with
  | nil =>
    intro a ival n hn
    obtain ⟨n, rfl⟩ : ∃ k, n = k + 1 := ⟨n - 1, by omega⟩
    cases r with
    | nil =>
      refine ⟨false, ?_⟩
      rw [Loop.run_of_exit (by simp [unicodeLoop])]
      simp
    | cons c r =>
      refine ⟨true, ?_⟩
      have hc : isHexaDigit c = false := hr c (by simp)
      have he : (unicodeLoop (a ++ ([] ++ c :: r))).exit ⟨a.length + 1, ival, false⟩ = false := by
        simp [unicodeLoop]
      have hi : Text.item (a ++ ([] ++ c :: r)) (a.length + 1) = c :=
        Text.item_append_cons a c r rfl
      have hbody : (unicodeLoop (a ++ ([] ++ c :: r))).body ⟨a.length + 1, ival, false⟩ =
          some ⟨a.length + 1, ival, true⟩ := by
        simp only [unicodeLoop, hi, hc]
        simp
      rw [Loop.run_succ he hbody, Loop.run_of_exit (by simp [unicodeLoop])]
      simp
  | cons c d ih =>
    intro a ival n hn
    obtain ⟨n, rfl⟩ : ∃ k, n = k + 1 := ⟨n - 1, by omega⟩
    have hc : isHexaDigit c = true := hd c (by simp)
    have he : (unicodeLoop (a ++ (c :: d ++ r))).exit ⟨a.length + 1, ival, false⟩ = false := by
      simp only [unicodeLoop, Bool.or_false, decide_eq_false_iff_not, List.length_append,
        List.length_cons]
      omega
    have hi : Text.item (a ++ (c :: d ++ r)) (a.length + 1) = c :=
      Text.item_append_cons a c (d ++ r) rfl
    have hbody : (unicodeLoop (a ++ (c :: d ++ r))).body ⟨a.length + 1, ival, false⟩ =
        some ⟨a.length + 1 + 1, ival * 16 + unicodeDigitValue c, false⟩ := by
      simp only [unicodeLoop, hi, hc]
      simp
    rw [Loop.run_succ he hbody]
    obtain ⟨b, hb⟩ := ih (fun x hx => hd x (by simp [hx])) (a ++ [c])
      (ival * 16 + unicodeDigitValue c) n (by simp only [List.length_cons] at hn; omega)
    refine ⟨b, ?_⟩
    simp only [List.append_assoc, List.cons_append, List.nil_append, List.length_append,
      List.length_cons, List.length_nil, Nat.cast_add, Nat.cast_one, Nat.zero_add,
      List.foldl_cons] at hb ⊢
    rw [hb]
    congr 2
    omega

/-- `url_decoded_char` at a percent sign: what it returns and where it leaves the position.

**Proof sketch.** Split at the two characters after the percent sign; the `%u` form is
`unicodeLoop_run`. -/
lemma urlDecodedChar_eq (a : String8) (d : Character8) (r : String8) :
    ∃ t j, urlDecodedChar (a ++ ch '%' :: d :: r) (a.length + 1) = (t, j) ∧
      (a.length : ℤ) + 1 < j ∧
      decode (ch '%' :: d :: r) = t ++ decode ((a ++ ch '%' :: d :: r).drop j.toNat) := by
  have hi : Text.item (a ++ ch '%' :: d :: r) (a.length + 1 + 1) = d := by
    have h := Text.item_append_cons (a ++ [ch '%']) d r (i := a.length + 1 + 1) (by simp)
    simpa using h
  by_cases hu : d = ch 'u'
  · subst hu
    obtain ⟨b, hb⟩ := unicodeLoop_run (r.takeWhile isHexaDigit) (r.dropWhile isHexaDigit)
      (fun c hc => List.mem_takeWhile_imp hc)
      (fun c hc => by
        have := List.head?_dropWhile_not isHexaDigit r
        cases hh : (r.dropWhile isHexaDigit).head? with
        | none => simp [hh] at hc
        | some x => simp_all)
      (a ++ [ch '%', ch 'u']) 0 ((a ++ ch '%' :: ch 'u' :: r).length + 1) (by
        have := (r.takeWhile_sublist isHexaDigit).length_le
        simp only [List.length_append, List.length_cons]
        omega)
    rw [List.takeWhile_append_dropWhile] at hb
    have hs : a ++ [ch '%', ch 'u'] ++ r = a ++ ch '%' :: ch 'u' :: r := by simp
    have hp : ((a ++ [ch '%', ch 'u']).length : ℤ) + 1 = a.length + 1 + 2 := by
      simp; ring
    rw [hs, hp] at hb
    refine ⟨_, _, by rw [urlDecodedChar, if_pos hi, hb], by dsimp only; omega, ?_⟩
    rw [decode_percent_unicode]
    simp only [List.cons_append, List.nil_append, unicodeValue, List.cons.injEq, true_and]
    congr 1
    have hj : ((a.length : ℤ) + 1 + 2 + (r.takeWhile isHexaDigit).length).toNat =
        (a ++ ch '%' :: ch 'u' :: r.takeWhile isHexaDigit).length + 1 := by
      simp only [List.length_append, List.length_cons]; omega
    have hsplit : a ++ ch '%' :: ch 'u' :: r =
        (a ++ ch '%' :: ch 'u' :: r.takeWhile isHexaDigit) ++ r.dropWhile isHexaDigit := by
      rw [List.append_assoc, List.cons_append, List.cons_append,
        List.takeWhile_append_dropWhile]
    rw [hj, hsplit, List.drop_append]
    simp
  · have hj : ((a.length : ℤ) + 1 + 2).toNat = a.length + 3 := by omega
    refine ⟨_, _, by rw [urlDecodedChar, if_neg (by rw [hi]; exact hu)], by omega, ?_⟩
    rw [hj]
    cases r with
    | nil =>
      rw [decode_percent_one hu, Text.substring_eq_nil_of_length_lt _ (by simp)]
      simp [hexToInteger32, asNatural32]
      rfl
    | cons e r =>
      have hs : Text.substring (a ++ ch '%' :: d :: e :: r) (a.length + 1 + 1) (a.length + 1 + 2)
          = [d, e] := by
        have h := Text.substring_eq (a ++ [ch '%']) [d, e] r (i := a.length + 1 + 1)
          (j := a.length + 1 + 2) (by simp) (by simp)
        simpa using h
      have hd : (a ++ ch '%' :: d :: e :: r).drop (a.length + 3) = r := by
        rw [List.drop_append, List.drop_eq_nil_of_le (by omega)]
        simp
      rw [decode_percent_two hu, hs, hd]
      rfl

/-- One iteration of `decoded_string` reads some text `t` off the remaining text and moves the
index forward. -/
lemma decodeLoop_step {v : String8} (a : String8) (c : Character8) (r : String8)
    (hv : v = a ++ c :: r) (s32 : String32) :
    ∃ t j, (decodeLoop v).body (a.length + 1, s32) = some (j, s32 ++ t) ∧
      (a.length : ℤ) + 1 < j ∧ decode (c :: r) = t ++ decode (v.drop (j - 1).toNat) := by
  have hitem : Text.item v (a.length + 1) = c := by
    rw [hv]
    exact Text.item_append_cons a c r rfl
  have hnext : v.drop (((a.length : ℤ) + 1 + 1) - 1).toNat = r := by
    have hn : (((a.length : ℤ) + 1 + 1) - 1).toNat = a.length + 1 := by omega
    rw [hn, hv, List.drop_append]
    simp
  by_cases hplus : c = ch '+'
  · subst hplus
    refine ⟨[(ch ' ').toUInt32], a.length + 1 + 1, ?_, by omega, ?_⟩
    · simp [decodeLoop, hitem]
    · rw [hnext, decode_plus]
      rfl
  by_cases hpct : c = ch '%'
  · subst hpct
    cases r with
    | nil =>
      have hn : ((a.length : ℤ) + 1) = v.length := by rw [hv]; simp
      refine ⟨[(ch '%').toUInt32], a.length + 1 + 1, ?_, by omega, ?_⟩
      · simp only [decodeLoop, hitem, if_neg hplus, if_pos hn, if_true]
      · rw [hnext, decode_percent_end, decode_nil]
        rfl
    | cons d r =>
      have hn : ((a.length : ℤ) + 1) ≠ v.length := by
        rw [hv]
        simp only [List.length_append, List.length_cons]
        omega
      obtain ⟨t, j, hd, hj, hdec⟩ := urlDecodedChar_eq a d r
      rw [← hv] at hd hdec
      refine ⟨t, j + 1, ?_, by omega, ?_⟩
      · simp [decodeLoop, hitem, hplus, hn, hd]
      · rw [hdec, add_sub_cancel_right]
  · refine ⟨[c.toUInt32], a.length + 1 + 1, ?_, by omega, ?_⟩
    · simp [decodeLoop, hitem, hplus, hpct]
    · rw [hnext, decode_other hplus hpct]
      rfl

/-- **The index loop computes `decode`**, and it leaves `has_error` cleared.

**Proof sketch.** The text decoded so far followed by the decoding of the remaining text is
`decode v` at every iteration (`decodeLoop_step`), and the index grows. -/
theorem decodedString_eq (v : String8) : decodedString v = ⟨decode v, false⟩ := by
  let I : ℤ × String32 → Prop := fun st =>
    1 ≤ st.1 ∧ st.2 ++ decode (v.drop (st.1 - 1).toNat) = decode v
  have hstep : ∀ st, I st → (decodeLoop v).exit st = false →
      ∃ st', (decodeLoop v).body st = some st' ∧ I st' ∧
        ((v.length : ℤ) + 1 - st'.1).toNat < ((v.length : ℤ) + 1 - st.1).toNat := by
    rintro ⟨i, s32⟩ ⟨hi, hs⟩ he
    simp only [decodeLoop, decide_eq_false_iff_not, not_lt] at he hs hi
    obtain ⟨k, rfl⟩ : ∃ k : ℕ, i = k + 1 := ⟨(i - 1).toNat, by omega⟩
    have hk : k < v.length := by omega
    obtain ⟨a, c, r, hv, rfl⟩ : ∃ a c r, v = a ++ c :: r ∧ a.length = k :=
      ⟨v.take k, v[k], v.drop (k + 1), by simp, by simp; omega⟩
    have hdrop : v.drop (((a.length : ℤ) + 1) - 1).toNat = c :: r := by
      rw [hv]
      simp
    obtain ⟨t, j, hbody, hj, hdec⟩ := decodeLoop_step a c r hv s32
    refine ⟨_, hbody, ⟨by dsimp only; omega, ?_⟩, by dsimp only; omega⟩
    rw [hdrop, hdec] at hs
    rw [← hs, List.append_assoc]
  obtain ⟨⟨i, s32⟩, hrun, ⟨hi, hs⟩, he⟩ := Loop.run_of_variant I
    (fun st => ((v.length : ℤ) + 1 - st.1).toNat) hstep (n := v.length) (s := (1, []))
    ⟨le_rfl, by simp⟩ (by simp)
  simp only [decodeLoop, decide_eq_true_eq] at he
  have hend : v.drop (i - 1).toNat = [] := List.drop_eq_nil_of_le (by omega)
  rw [decodedString, hrun]
  simp only [hend, decode_nil, List.append_nil] at hs
  rw [hs]

/-! ## Texts that are decoded to themselves -/

/-- A percent sign that is not the last character starts an escape, which is shorter decoded. -/
lemma length_decode_percent (d : Character8) (r : String8)
    (ih : ∀ u : String8, u.length < r.length + 2 → (decode u).length ≤ u.length) :
    (decode (ch '%' :: d :: r)).length < r.length + 2 := by
  by_cases hu : d = ch 'u'
  · subst hu
    have hdrop : ((r.dropWhile isHexaDigit).drop 1).length ≤ r.length := by
      rw [List.length_drop]
      exact (Nat.sub_le _ _).trans (r.dropWhile_sublist isHexaDigit).length_le
    have hle := ih ((r.dropWhile isHexaDigit).drop 1) (by omega)
    rw [decode_percent_unicode, List.length_cons]
    omega
  · rcases r with _ | ⟨e, r⟩
    · rw [decode_percent_one hu]
      simp
    · have hle := ih r (by rw [List.length_cons]; omega)
      rw [decode_percent_two hu, List.length_cons, List.length_cons]
      omega

/-- Decoding does not lengthen a text. -/
lemma length_decode_le (v : String8) : (decode v).length ≤ v.length := by
  induction hn : v.length using Nat.strong_induction_on generalizing v with
  | _ n ih =>
    have ih' : ∀ u : String8, u.length < n → (decode u).length ≤ u.length :=
      fun u hu => ih u.length hu u rfl
    rcases v with _ | ⟨c, r⟩
    · simp
    · rw [List.length_cons] at hn
      have hr := ih' r (by omega)
      by_cases hp : c = ch '+'
      · rw [hp, decode_plus, List.length_cons]
        omega
      by_cases hc : c = ch '%'
      · rcases r with _ | ⟨d, r⟩
        · rw [hc, decode_percent_end, ← hn]
          simp
        · rw [List.length_cons] at hn
          have hlt := length_decode_percent d r fun u hu => ih' u (by omega)
          rw [hc]
          omega
      · rw [decode_other hp hc, List.length_cons]
        omega

/-- An escape that is not cut off is at least two characters shorter decoded. -/
lemma length_decode_escape (d e : Character8) (r : String8) :
    (decode (ch '%' :: d :: e :: r)).length ≤ r.length + 1 := by
  by_cases hu : d = ch 'u'
  · subst hu
    have hdrop : (((e :: r).dropWhile isHexaDigit).drop 1).length ≤ r.length := by
      rw [List.length_drop]
      have hle := ((e :: r).dropWhile_sublist isHexaDigit).length_le
      rw [List.length_cons] at hle
      omega
    have hle := length_decode_le (((e :: r).dropWhile isHexaDigit).drop 1)
    rw [decode_percent_unicode, List.length_cons]
    omega
  · have hle := length_decode_le r
    rw [decode_percent_two hu, List.length_cons]
    omega

/-- A plus sign stands for a blank. -/
def plusToBlank (c : Character8) : Character8 := if c = ch '+' then ch ' ' else c

/-- A text that is not shorter decoded has no escape. -/
lemma decode_eq_of_length {v : String8} (h : (decode v).length = v.length) :
    ch '%' ∉ v.dropLast ∧ decode v = asString32 (v.map plusToBlank) := by
  induction v with
  | nil => simp [asString32]
  | cons c r ih =>
    have hstep : (decode r).length = r.length → c ≠ ch '%' → ch '%' ∉ (c :: r).dropLast := by
      intro hr hc
      rcases r with _ | ⟨d, r⟩
      · simp
      · rw [List.dropLast_cons_cons, List.mem_cons]
        exact not_or.mpr ⟨fun h' => hc h'.symm, (ih hr).1⟩
    by_cases hp : c = ch '+'
    · subst hp
      rw [decode_plus, List.length_cons, List.length_cons, Nat.add_right_cancel_iff] at h
      refine ⟨hstep h (by decide), ?_⟩
      rw [decode_plus, (ih h).2]
      rfl
    by_cases hc : c = ch '%'
    · subst hc
      rcases r with _ | ⟨d, r⟩
      · exact ⟨by simp, by rw [decode_percent_end]; rfl⟩
      · have hlt := length_decode_percent d r fun u _ => length_decode_le u
        rw [h, List.length_cons, List.length_cons] at hlt
        omega
    · rw [decode_other hp hc, List.length_cons, List.length_cons, Nat.add_right_cancel_iff] at h
      refine ⟨hstep h hc, ?_⟩
      rw [decode_other hp hc, (ih h).2, List.map_cons, plusToBlank, if_neg hp]
      rfl

/-- A text without a plus sign and an escape is decoded to itself. -/
lemma decode_eq_self {v : String8} (hp : ch '+' ∉ v) (hc : ch '%' ∉ v.dropLast) :
    decode v = asString32 v := by
  induction v with
  | nil => simp [asString32]
  | cons c r ih =>
    have hp' : c ≠ ch '+' := fun h => hp (by simp [h])
    rcases r with _ | ⟨d, r⟩
    · by_cases hc' : c = ch '%'
      · rw [hc', decode_percent_end]
        rfl
      · rw [decode_other hp' hc', decode_nil]
        rfl
    · rw [List.dropLast_cons_cons, List.mem_cons, not_or] at hc
      rw [decode_other hp' fun h => hc.1 h.symm, ih (fun h => hp (by simp [h])) hc.2]
      rfl

lemma notMem_of_map_plusToBlank {v : String8} (h : v.map plusToBlank = v) : ch '+' ∉ v := by
  intro hmem
  rw [← h] at hmem
  obtain ⟨c, -, hc⟩ := List.mem_map.mp hmem
  revert hc
  rw [plusToBlank]
  split_ifs with hp
  · decide
  · exact hp

end UrlEncoder

end EiffelWeb
