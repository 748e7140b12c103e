import Mathlib.Data.List.Basic
import Mathlib.Tactic.Common
import EiffelWeb.Loop
import EiffelWeb.Character

set_option relaxedAutoImplicit false
set_option autoImplicit false

/-!
# Character entities

The classes `HTML_ENCODER` and `XML_ENCODER`, which have the same text but for their name. The
encoder writes five characters as named entities and codes above 255 as decimal references; the
decoder walks a position through the text. It checks every index: a read outside the string makes
the call fail.

## Main definitions

* `EntityEncoder.encodedCharacter`, `EntityEncoder.encodedString` — the encoder.
* `EntityEncoder.nextEntity`, `EntityEncoder.decodedString` — the decoder.

## Main results

* `EntityEncoder.decodeLoop_step` — one iteration of the decoder reads one encoded character.
* `EntityEncoder.roundTrip_entity` — the decoder gives the string back, without an error.
-/

namespace EiffelWeb.EntityEncoder

/-! ## Encoder -/

/-- `uc.code`, an `INTEGER_32`. -/
def code (uc : Character32) : ℤ := uc.toBitVec.toInt

/-- What the loop of `encoded_string` appends for a character. -/
def encodedCharacter (uc : Character32) : String8 :=
  if isCharacter8 uc then
    let c := asCharacter8 uc
    if c = ch '"' then str "&quot;"
    else if c = ch '&' then str "&amp;"
    else if c = ch '\'' then str "&apos;"
    else if c = ch '<' then str "&lt;"
    else if c = ch '>' then str "&gt;"
    else [c]
  else str "&#" ++ integerOut (code uc) ++ str ";"

/-- `encoded_string (s)`. -/
def encodedString (s : String32) : String8 := s.flatMap encodedCharacter

/-! ## Decoder -/

/-- The three kinds of entities, by what follows the ampersand. -/
inductive EntityKind where
  /-- `&name;`. -/
  | named
  /-- `&#digits;`. -/
  | decimal
  /-- `&#xdigits;`. -/
  | hexadecimal
  deriving DecidableEq

/-- `valid_entity_character (c)`. -/
def validEntityCharacter (c : Character8) : Bool := isLower c || isUpper c || isDigit c

/-- The characters that the loop for a kind of entity reads. -/
def EntityKind.reads : EntityKind → Character8 → Bool
  | named => validEntityCharacter
  | decimal => isDigit
  | hexadecimal => isHexaDigit

/-- The three loops of `next_entity`, in a text with the given characters from `i` on: what was
read, the position and the character at which the loop ends; `none` if it leaves the text. -/
def scanAux (p : Character8 → Bool) (i : ℤ) : String8 → Option (String8 × ℤ × Character8)
  | [] => none
  | c :: r =>
    if p c = false ∨ c = ch ';' then some ([], i, c)
    else (scanAux p (i + 1) r).map fun t => (c :: t.1, t.2)

/-- The loop of `next_entity` for a kind of entity, from position `i` on. -/
def scan (p : Character8 → Bool) (v : String8) (i : ℤ) : Option (String8 × ℤ × Character8) :=
  scanAux p i (v.drop (i - 1).toNat)

/-- The start of `next_entity`: the kind of the entity whose ampersand is at `i`, and the position
at which its loop starts. -/
def entityKind (v : String8) (i : ℤ) : Option (EntityKind × ℤ) := do
  let c ← Text.item? v (i + 1)
  if c = ch '#' then
    let c ← Text.item? v (i + 2)
    if c = ch 'x' then
      let _ ← Text.item? v (i + 3)
      some (.hexadecimal, i + 3)
    else some (.decimal, i + 2)
  else some (.named, i + 1)

/-- `resolve_entity (s)`: the string afterwards. Every letter is compared in lower case; the first
one is read from a string that may be empty. -/
def resolveEntity (s : String8) : Option String8 := do
  let _ ← Text.item? s 1
  let t := s.map lower
  some (if t = str "amp" then [ch '&']
    else if t = str "apos" then [ch '\'']
    else if t = str "quot" then [ch '"']
    else if t = str "lt" then [ch '<']
    else if t = str "gt" then [ch '>']
    else ch '&' :: (s ++ [ch ';']))

/-- The number written by a text of digits. -/
def decimalValue (s : String8) : ℕ := s.foldl (fun n c => 10 * n + (c.toNat - 48)) 0

/-- `s.is_integer` for a text of digits: it is not empty and in the range of `INTEGER_32`. -/
def isInteger (s : String8) : Bool := s ≠ [] && decimalValue s < 2 ^ 31

/-- The value of an entity of a kind with the text `s`. -/
def entityValue (s : String8) : EntityKind → Option String32
  | .named => (resolveEntity s).map asString32
  | .decimal =>
    some (if isInteger s then [UInt32.ofNat (decimalValue s)]
      else asString32 (ch '&' :: (s ++ [ch ';'])))
  | .hexadecimal => some (asString32 (str "&#x" ++ s ++ [ch ';']))

/-- `next_entity (v, cl_i)`: the result, the new index, and whether `has_error` is set. -/
def nextEntity (v : String8) (i : ℤ) : Option (String32 × ℤ × Bool) := do
  let (kind, j) ← entityKind v i
  let (s, j, c) ← scan kind.reads v j
  if c = ch ';' then
    let r ← entityValue s kind
    some (r, j + 1, false)
  else some (asString32 (ch '&' :: s), i + 1, true)

/-- The loop of `decoded_string`, over the position, the result and `has_error`. -/
def decodeLoop (v : String8) : Loop (ℤ × String32 × Bool) where
  exit st := (v.length : ℤ) < st.1
  body st := do
    let (i, result, hasError) := st
    let c ← Text.item? v i
    if c = ch '&' then
      let (r, i, err) ← nextEntity v i
      some (i, result ++ r, hasError || err)
    else some (i + 1, result ++ [c.toUInt32], hasError)

/-- `decoded_string (v)`: the result and `has_error`; `none` when an index leaves the string. -/
def decodedString (v : String8) : Option (String32 × Bool) :=
  ((decodeLoop v).run v.length (1, [], false)).map Prod.snd

/-! ## Entities -/

lemma scanAux_append {p : Character8 → Bool} {w : String8} (i : ℤ)
    (hw : ∀ c ∈ w, p c = true ∧ c ≠ ch ';') (b : String8) :
    scanAux p i (w ++ ch ';' :: b) = some (w, i + w.length, ch ';') := by
  induction w generalizing i with
  | nil => simp [scanAux]
  | cons c w ih =>
    obtain ⟨hc, hne⟩ := hw c List.mem_cons_self
    have hgo : ¬ (p c = false ∨ c = ch ';') := by simp [hc, hne]
    have hlen : i + 1 + (w.length : ℤ) = i + (c :: w).length := by
      rw [List.length_cons]
      omega
    rw [List.cons_append, scanAux, if_neg hgo,
      ih (i + 1) fun d hd => hw d (List.mem_cons_of_mem c hd), Option.map_some, hlen]

/-- A loop of `next_entity` reads up to the semicolon. -/
lemma scan_eq {p : Character8 → Bool} {w : String8} {i : ℤ} (a b : String8)
    (hi : i = a.length + 1) (hw : ∀ c ∈ w, p c = true ∧ c ≠ ch ';') :
    scan p (a ++ (w ++ ch ';' :: b)) i = some (w, i + w.length, ch ';') := by
  have hn : (i - 1).toNat = a.length := by omega
  rw [scan, hn, List.drop_left, scanAux_append i hw]

/-- An entity is read up to its semicolon, and the index moves behind it. -/
lemma nextEntity_eq {a b w : String8} {i j : ℤ} {kind : EntityKind} {r : String32}
    (hkind : entityKind (a ++ (w ++ ch ';' :: b)) i = some (kind, j)) (hj : j = a.length + 1)
    (hw : ∀ c ∈ w, kind.reads c = true ∧ c ≠ ch ';') (hr : entityValue w kind = some r) :
    nextEntity (a ++ (w ++ ch ';' :: b)) i = some (r, j + w.length + 1, false) := by
  rw [nextEntity, hkind]
  simp only [Option.bind_eq_bind, Option.bind_some]
  rw [scan_eq a b hj hw]
  simp only [Option.bind_some, if_true, hr]

section

variable (a b : String8)

/-- An entity with a name. -/
lemma nextEntity_named {n : Character8} {w r : String8} (hn : n ≠ ch '#')
    (hw : ∀ c ∈ n :: w, validEntityCharacter c = true ∧ c ≠ ch ';')
    (hr : resolveEntity (n :: w) = some r) :
    nextEntity (a ++ (ch '&' :: n :: w ++ ch ';' :: b)) (a.length + 1) =
      some (asString32 r, (a.length : ℤ) + 1 + (ch '&' :: n :: w).length + 1, false) := by
  have hsplit : a ++ (ch '&' :: n :: w ++ ch ';' :: b) =
      a ++ [ch '&'] ++ (n :: w ++ ch ';' :: b) := by simp
  have hitem : Text.item? (a ++ [ch '&'] ++ (n :: w ++ ch ';' :: b)) (a.length + 1 + 1) = some n :=
    Text.item?_append_cons (a ++ [ch '&']) n (w ++ ch ';' :: b) (by simp)
  have hkind : entityKind (a ++ [ch '&'] ++ (n :: w ++ ch ';' :: b)) (a.length + 1) =
      some (EntityKind.named, (a.length : ℤ) + 1 + 1) := by
    rw [entityKind, hitem]
    simp only [Option.bind_eq_bind, Option.bind_some, hn, if_false]
  have hvalue : entityValue (n :: w) EntityKind.named = some (asString32 r) := by
    rw [entityValue, hr, Option.map_some]
  have hlen : (a.length : ℤ) + 1 + 1 + (n :: w).length + 1 =
      a.length + 1 + (ch '&' :: n :: w).length + 1 := by
    simp only [List.length_cons]
    omega
  rw [hsplit, nextEntity_eq hkind (by simp) hw hvalue, hlen]

lemma decimalValue_natOut (n : ℕ) : decimalValue (natOut n) = n := foldl_natOut n

/-- A decimal reference to a code of an `INTEGER_32`. -/
lemma nextEntity_decimal {n : ℕ} (hn : n < 2 ^ 31) :
    nextEntity (a ++ (str "&#" ++ natOut n ++ ch ';' :: b)) (a.length + 1) =
      some ([UInt32.ofNat n], (a.length : ℤ) + 1 + (str "&#" ++ natOut n).length + 1, false) := by
  obtain ⟨d, w, hout⟩ := List.exists_cons_of_ne_nil (natOut_ne_nil n)
  have hdigits : ∀ c ∈ natOut n, isDigit c = true ∧ c ≠ ch ';' := by
    intro c hc
    refine ⟨isDigit_of_mem_natOut hc, ?_⟩
    rintro rfl
    exact absurd (isDigit_of_mem_natOut hc) (by decide)
  have hd : d ≠ ch 'x' := by
    rintro rfl
    exact absurd (hdigits (ch 'x') (by simp [hout])).1 (by decide)
  have hsplit : a ++ (str "&#" ++ natOut n ++ ch ';' :: b) =
      a ++ str "&#" ++ (natOut n ++ ch ';' :: b) := by simp
  have hsign : Text.item? (a ++ str "&#" ++ (natOut n ++ ch ';' :: b)) (a.length + 1 + 1) =
      some (ch '#') := by
    have hcut : a ++ str "&#" ++ (natOut n ++ ch ';' :: b) =
        a ++ [ch '&'] ++ ch '#' :: (natOut n ++ ch ';' :: b) := by simp [str]
    rw [hcut]
    exact Text.item?_append_cons (a ++ [ch '&']) (ch '#') _ (by simp)
  have hdigit : Text.item? (a ++ str "&#" ++ (natOut n ++ ch ';' :: b)) (a.length + 1 + 2) =
      some d := by
    rw [hout, List.cons_append]
    exact Text.item?_append_cons (a ++ str "&#") d _ (by simp [str]; omega)
  have hkind : entityKind (a ++ str "&#" ++ (natOut n ++ ch ';' :: b)) (a.length + 1) =
      some (EntityKind.decimal, (a.length : ℤ) + 1 + 2) := by
    rw [entityKind, hsign]
    simp only [Option.bind_eq_bind, Option.bind_some, if_true, hdigit, hd, if_false]
  have hvalue : entityValue (natOut n) EntityKind.decimal = some [UInt32.ofNat n] := by
    have hint : isInteger (natOut n) = true := by
      simp only [isInteger, decimalValue_natOut, Bool.and_eq_true, decide_eq_true_eq]
      exact ⟨natOut_ne_nil n, hn⟩
    simp only [entityValue, hint, if_true, decimalValue_natOut]
  rw [hsplit, nextEntity_eq hkind (by simp [str]; omega) hdigits hvalue, List.length_append]
  have hlen : (a.length : ℤ) + 1 + 2 + (natOut n).length + 1 =
      a.length + 1 + ((str "&#").length + (natOut n).length : ℕ) + 1 := by
    simp only [show (str "&#").length = 2 from rfl]
    omega
  rw [hlen]

/-! ## Round trip -/

/-- **The three ways a character is written**: as it is, by a name or by its code. -/
lemma encoding {uc : Character32} (h : uc.toNat ≤ 0x10FFFF) :
    (∃ c, encodedCharacter uc = [c] ∧ c ≠ ch '&' ∧ c.toUInt32 = uc) ∨
    (∃ n w c, encodedCharacter uc = ch '&' :: n :: w ++ [ch ';'] ∧ n ≠ ch '#' ∧
      (∀ d ∈ n :: w, validEntityCharacter d = true ∧ d ≠ ch ';') ∧
      resolveEntity (n :: w) = some [c] ∧ c.toUInt32 = uc) ∨
    encodedCharacter uc = str "&#" ++ natOut uc.toNat ++ [ch ';'] := by
  by_cases h8 : isCharacter8 uc = true
  · have hback : (asCharacter8 uc).toUInt32 = uc :=
      toUInt32_asCharacter8 (by simpa [isCharacter8] using h8)
    rw [encodedCharacter, if_pos h8]
    generalize asCharacter8 uc = c at hback
    simp only
    split_ifs with hquot hamp hapos hlt hgt
    · exact Or.inr (Or.inl ⟨ch 'q', str "uot", c, rfl, by decide, by decide +kernel,
        by rw [hquot]; rfl, hback⟩)
    · exact Or.inr (Or.inl ⟨ch 'a', str "mp", c, rfl, by decide, by decide +kernel,
        by rw [hamp]; rfl, hback⟩)
    · exact Or.inr (Or.inl ⟨ch 'a', str "pos", c, rfl, by decide, by decide +kernel,
        by rw [hapos]; rfl, hback⟩)
    · exact Or.inr (Or.inl ⟨ch 'l', str "t", c, rfl, by decide, by decide +kernel,
        by rw [hlt]; rfl, hback⟩)
    · exact Or.inr (Or.inl ⟨ch 'g', str "t", c, rfl, by decide, by decide +kernel,
        by rw [hgt]; rfl, hback⟩)
    · exact Or.inl ⟨c, rfl, hamp, hback⟩
  · have hcode : integerOut (code uc) = natOut uc.toNat := by
      have hint : code uc = uc.toNat := by
        rw [code, BitVec.toInt_eq_toNat_of_lt]
        · rfl
        · rw [UInt32.toNat_toBitVec]
          omega
      rw [integerOut, hint, if_neg (by omega)]
      rfl
    rw [encodedCharacter, if_neg h8, hcode]
    exact Or.inr (Or.inr rfl)

lemma encodedCharacter_ne_nil (uc : Character32) : encodedCharacter uc ≠ [] := by
  simp only [encodedCharacter]
  split_ifs <;> simp [str]

lemma length_le_encodedString (s : String32) : s.length ≤ (encodedString s).length := by
  induction s with
  | nil => exact le_rfl
  | cons uc s ih =>
    have hpos := List.length_pos_of_ne_nil (encodedCharacter_ne_nil uc)
    rw [encodedString, List.flatMap_cons, List.length_append, List.length_cons]
    rw [encodedString] at ih
    omega

variable (result : String32) (hasError : Bool)

/-- A character other than the ampersand is copied. -/
lemma decodeLoop_plain {c : Character8} (hc : c ≠ ch '&') :
    (decodeLoop (a ++ (c :: b))).body (a.length + 1, result, hasError) =
      some ((a.length : ℤ) + 1 + 1, result ++ [c.toUInt32], hasError) := by
  simp only [decodeLoop, Text.item?_append_cons a c b rfl, Option.bind_eq_bind, Option.bind_some,
    hc, if_false]

/-- An ampersand starts an entity. -/
lemma decodeLoop_entity {w : String8} {r : String32} {j : ℤ}
    (h : nextEntity (a ++ (ch '&' :: w ++ b)) (a.length + 1) = some (r, j, false)) :
    (decodeLoop (a ++ (ch '&' :: w ++ b))).body (a.length + 1, result, hasError) =
      some (j, result ++ r, hasError) := by
  have hitem : Text.item? (a ++ (ch '&' :: w ++ b)) (a.length + 1) = some (ch '&') :=
    Text.item?_append_cons a (ch '&') (w ++ b) rfl
  simp only [decodeLoop, hitem, Option.bind_eq_bind, Option.bind_some, if_true, h, Bool.or_false]

/-- **One iteration of the decoder reads one encoded character.** -/
lemma decodeLoop_step {uc : Character32} (h : uc.toNat ≤ 0x10FFFF) :
    (decodeLoop (a ++ (encodedCharacter uc ++ b))).body (a.length + 1, result, hasError) =
      some (((a ++ encodedCharacter uc).length : ℤ) + 1, result ++ [uc], hasError) := by
  rcases encoding h with ⟨c, henc, hc, huc⟩ | ⟨n, w, c, henc, hn, hw, hr, huc⟩ | henc
  · rw [henc, List.singleton_append, decodeLoop_plain a b result hasError hc, huc]
    simp
  · have hnext := nextEntity_named a b hn hw hr
    have hsplit : encodedCharacter uc ++ b = ch '&' :: n :: w ++ ch ';' :: b := by simp [henc]
    have hlen : (a.length : ℤ) + 1 + (ch '&' :: n :: w).length + 1 =
        (a ++ encodedCharacter uc).length + 1 := by
      simp only [henc, List.length_append, List.length_cons, List.length_nil]
      omega
    rw [hsplit, decodeLoop_entity a (ch ';' :: b) result hasError hnext, hlen, asString32,
      List.map_singleton, huc]
  · have hnext := nextEntity_decimal a b (n := uc.toNat) (by omega)
    have hsplit : encodedCharacter uc ++ b = str "&#" ++ natOut uc.toNat ++ ch ';' :: b := by
      simp [henc]
    have hlen : (a.length : ℤ) + 1 + (str "&#" ++ natOut uc.toNat).length + 1 =
        (a ++ encodedCharacter uc).length + 1 := by
      simp only [henc, List.length_append, List.length_cons, List.length_nil]
      omega
    have hbody := decodeLoop_entity a (ch ';' :: b) (w := ch '#' :: natOut uc.toNat) result
      hasError hnext
    rw [UInt32.ofNat_toNat, hlen] at hbody
    rw [hsplit]
    exact hbody

end

/-- The text of an encoded string is decoded, from any position behind a decoded part. -/
lemma decodeLoop_run (a : String8) {s : String32} (hs : ∀ c ∈ s, c.toNat ≤ 0x10FFFF)
    (result : String32) (hasError : Bool) {n : ℕ} (hn : s.length ≤ n) :
    ((decodeLoop (a ++ encodedString s)).run n (a.length + 1, result, hasError)).map Prod.snd =
      some (result ++ s, hasError) := by
  induction s generalizing a result n with
  | nil =>
    have hexit : (decodeLoop (a ++ encodedString [])).exit (a.length + 1, result, hasError) =
        true := by
      simp [decodeLoop, encodedString]
    rw [Loop.run_of_exit hexit, Option.map_some, List.append_nil]
  | cons uc s ih =>
    obtain ⟨n, rfl⟩ : ∃ k, n = k + 1 := ⟨n - 1, by simp only [List.length_cons] at hn; omega⟩
    have huc := hs uc List.mem_cons_self
    have htext : encodedString (uc :: s) = encodedCharacter uc ++ encodedString s :=
      List.flatMap_cons
    have hexit : (decodeLoop (a ++ encodedString (uc :: s))).exit
        (a.length + 1, result, hasError) = false := by
      have hpos := List.length_pos_of_ne_nil (encodedCharacter_ne_nil uc)
      simp only [decodeLoop, htext, List.length_append, decide_eq_false_iff_not]
      omega
    have hbody := decodeLoop_step a (encodedString s) result hasError huc
    rw [← htext] at hbody
    rw [Loop.run_succ hexit hbody, htext, ← List.append_assoc]
    have hrun := ih (a ++ encodedCharacter uc) (fun c hc => hs c (List.mem_cons_of_mem uc hc))
      (result ++ [uc]) (n := n) (by simp only [List.length_cons] at hn; omega)
    rw [hrun, List.append_assoc, List.singleton_append]

/-- **Round trip**: on an encoded string every index the decoder reads is valid, the string comes
back, and no error is found. -/
theorem roundTrip_entity (s : String32) (h : ∀ c ∈ s, c.toNat ≤ 0x10FFFF) :
    decodedString (encodedString s) = some (s, false) :=
  decodeLoop_run [] h [] false (length_le_encodedString s)

/-- Text that looks like an entity, and codes above 255. -/
theorem roundTrip_entity_amp :
    decodedString (encodedString (asString32 (str "a < &lt; &#300;") ++ [300, 0x10FFFF])) =
      some (asString32 (str "a < &lt; &#300;") ++ [300, 0x10FFFF], false) := by
  have hall : (asString32 (str "a < &lt; &#300;") ++ [300, 0x10FFFF]).all
      (fun c => decide (c.toNat ≤ 0x10FFFF)) = true := by decide
  exact roundTrip_entity _ fun c hc => of_decide_eq_true (List.all_eq_true.mp hall c hc)

end EiffelWeb.EntityEncoder
