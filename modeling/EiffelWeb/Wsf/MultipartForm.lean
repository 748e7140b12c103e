import Mathlib.Data.List.Basic
import Mathlib.Tactic.Common
import EiffelWeb.Wsf.Multipart
import EiffelWeb.Wsf.Parameters

set_option relaxedAutoImplicit false
set_option autoImplicit false

/-!
# Well-formed multipart forms

The bodies `WSF_MULTIPART_FORM_DATA_HANDLER` is for: named parts between delimiters, in either
convention for the end of a line, and what the analyser makes of them.

## Main definitions

* `Boundary`, `FormPart` — a boundary and a named part.
* `formBody` — the body of a form.
* `storeParts` — the effect of the parts of a form.

## Main results

* `FormPart.analyzeMultipartFormInput_text` — the text of a part is read into its entry.
* `partLoop_run` — the loop over the parts, unless the delimiter occurs inside one of them.
* `analyzeMultipartForm_eq` — the analysis of a form.
-/

namespace EiffelWeb

/-! ## Forms -/

/-- The boundary of a form. -/
structure Boundary where
  /-- The text of the parameter `boundary` of the content type. -/
  text : String8
  /-- It is not empty. -/
  ne_nil : text ≠ []
  /-- It is on one line and has no quote. -/
  plain : BreakFree text ∧ ch '"' ∉ text

/-- A named part of a form. -/
structure FormPart where
  /-- The parameter `name`. -/
  name : String8
  /-- The parameter `filename`, if there is one. -/
  filename : Option String8
  /-- The header lines that follow the content disposition. -/
  fields : List String8
  /-- The content. -/
  content : String8
  /-- The name is not empty, on one line and without a quote. -/
  name_plain : name ≠ [] ∧ BreakFree name ∧ ch '"' ∉ name
  /-- The filename is on one line. -/
  filename_plain : ∀ f ∈ filename, BreakFree f
  /-- The other header lines are no content dispositions. -/
  fields_plain : ∀ l ∈ fields, BreakFree l ∧ l ≠ [] ∧ ¬ str "Content-Disposition: form-data" <+: l

namespace FormPart

variable (P : FormPart)

/-- The line of the content disposition. -/
def disposition : String8 :=
  str "Content-Disposition: form-data; name=\"" ++
    (P.name ++ ch '"' :: P.filename.elim [] fun f => str "; filename=\"" ++ (f ++ [ch '"']))

/-- The header lines. -/
def lines : List String8 := P.disposition :: P.fields

/-- The part without the delimiters around it. -/
def text (nl : LineEnd) : String8 := headerText nl P.lines ++ (nl.text ++ P.content)

/-- The analyser takes the part for a file. -/
def IsFile : Prop := str "filename=" <:+: P.disposition

instance : Decidable P.IsFile := inferInstanceAs (Decidable (_ <:+: _))

end FormPart

lemma filename_plain_none : ∀ f ∈ (none : Option String8), BreakFree f := nofun

lemma fields_plain_nil : ∀ l ∈ ([] : List String8),
    BreakFree l ∧ l ≠ [] ∧ ¬ str "Content-Disposition: form-data" <+: l := nofun

/-- A part with a name and a content only. -/
def FormPart.field (name content : String8)
    (h : name ≠ [] ∧ BreakFree name ∧ ch '"' ∉ name) : FormPart :=
  ⟨name, none, [], content, h, filename_plain_none, fields_plain_nil⟩

/-- The delimiter of the parts. -/
def delimiter (B : Boundary) : String8 := str "--" ++ B.text

/-- What follows a delimiter: the parts that are left, or the end of the form. -/
def afterDelimiter (nl : LineEnd) (B : Boundary) : List FormPart → String8
  | [] => str "--" ++ nl.text
  | P :: parts =>
    nl.text ++ (P.text nl ++ (nl.text ++ (delimiter B ++ afterDelimiter nl B parts)))

/-- A cut before the first part that is left. -/
lemma append_afterDelimiter_cons (nl : LineEnd) (B : Boundary) (P : FormPart)
    (parts : List FormPart) (a : String8) :
    a ++ afterDelimiter nl B (P :: parts) = (a ++ nl.text) ++
      (P.text nl ++ (nl.text ++ (delimiter B ++ afterDelimiter nl B parts))) := by
  simp [afterDelimiter]

/-- A cut behind the delimiter that follows the first part that is left. -/
lemma append_afterDelimiter_cons_rest (nl : LineEnd) (B : Boundary) (P : FormPart)
    (parts : List FormPart) (a : String8) :
    a ++ afterDelimiter nl B (P :: parts) =
      (a ++ nl.text ++ P.text nl ++ nl.text ++ delimiter B) ++ afterDelimiter nl B parts := by
  simp [afterDelimiter]

/-- The body of a form. -/
def formBody (nl : LineEnd) (B : Boundary) (parts : List FormPart) : String8 :=
  delimiter B ++ afterDelimiter nl B parts

/-! ## The header of a part -/

lemma parameterValue_isSome {key lHeader lLine : String8} :
    (parameterValue key lHeader lLine).isSome ↔ key <:+: lLine := by
  by_cases h : key <:+: lLine
  · obtain ⟨k, hk⟩ := Text.exists_infixIndex h
    have hp : Text.substringIndex lLine key 1 = 1 + k := Text.substringIndex_eq (a := []) rfl hk
    simp only [parameterValue, hp, h, iff_true]
    rw [if_pos (by omega)]
    split <;> rfl
  · have hp : Text.substringIndex lLine key 1 = 0 := Text.substringIndex_eq_zero (a := []) rfl h
    simp [parameterValue, hp, h]

/-- The name of a content disposition: its position in the line, taken from the header. -/
lemma parameterValue_name {n : String8} (hn : ch '"' ∉ n) (u lHeader : String8) :
    parameterValue (str "name=") lHeader
      (str "Content-Disposition: form-data; name=\"" ++ (n ++ ch '"' :: u)) =
        some (Text.substring lHeader 39 (38 + n.length)) := by
  have hsplit : str "Content-Disposition: form-data; name=\"" =
      str "Content-Disposition: form-data;" ++ ch ' ' :: (str "name=" ++ [ch '"']) := by decide
  have hnot : ¬ str "name=" <:+: str "Content-Disposition: form-data;" := by
    rw [← Text.infixIndex_eq_none_iff]
    decide
  have hindex : Text.infixIndex (str "name=")
      (str "Content-Disposition: form-data; name=\"" ++ (n ++ ch '"' :: u)) = some 32 := by
    rw [hsplit, List.append_assoc, List.cons_append, List.append_assoc]
    exact Text.infixIndex_of_break (by decide) hnot
  have hp := Text.substringIndex_eq (a := []) (i := 1) rfl hindex
  rw [List.nil_append] at hp
  have hlen : (str "Content-Disposition: form-data; name=\"").length = 38 := by decide
  have hkey : 1 + ((32 : ℕ) : ℤ) + ((str "name=").length - 1) + 1 = 38 := by decide
  have hquote : Text.item (str "Content-Disposition: form-data; name=\"" ++ (n ++ ch '"' :: u)) 38
      = ch '"' := by
    rw [show str "Content-Disposition: form-data; name=\"" =
      str "Content-Disposition: form-data; name=" ++ [ch '"'] by decide, List.append_assoc]
    exact Text.item_append_cons _ _ _ (by decide)
  have hvalid : Text.validIndex
      (str "Content-Disposition: form-data; name=\"" ++ (n ++ ch '"' :: u)) 38 := by
    refine ⟨by decide, ?_⟩
    rw [List.length_append, hlen]
    omega
  have he := Text.indexOf_eq (str "Content-Disposition: form-data; name=\"") n u
    (i := 38 + 1) (by rw [hlen]; rfl) hn
  have hend : ((str "Content-Disposition: form-data; name=\"").length : ℤ) + n.length + 1 - 1 =
      38 + n.length := by
    rw [hlen]
    omega
  simp only [parameterValue, hp, hkey, hquote, hvalid, he, and_self, if_true, hend]
  rw [if_pos (by decide)]
  rfl

/-- A line that is no content disposition keeps the name and the filename. -/
lemma EntryHeader.read_of_not_disposition {lHeader lLine : String8}
    (h : ¬ str "Content-Disposition: form-data" <+: lLine) (e : EntryHeader) :
    (e.read lHeader lLine).name = e.name ∧ (e.read lHeader lLine).filename = e.filename := by
  rw [EntryHeader.read, if_neg h]
  split <;> exact ⟨rfl, rfl⟩

lemma EntryHeader.foldl_read {lHeader : String8} {lines : List String8}
    (h : ∀ l ∈ lines, ¬ str "Content-Disposition: form-data" <+: l) (e : EntryHeader) :
    (lines.foldl (fun e l => e.read lHeader l) e).name = e.name ∧
      (lines.foldl (fun e l => e.read lHeader l) e).filename = e.filename := by
  induction lines generalizing e with
  | nil => exact ⟨rfl, rfl⟩
  | cons l lines ih =>
    obtain ⟨hn, hf⟩ := ih (fun k hk => h k (by simp [hk])) (e.read lHeader l)
    obtain ⟨hn', hf'⟩ := @read_of_not_disposition lHeader l (h l (by simp)) e
    exact ⟨hn.trans hn', hf.trans hf'⟩

/-- A header without one of the characters of `Content-Disposition: form-data` has no name. -/
lemma name_of_notMem {c : Character8} (hc : c ∈ str "Content-Disposition: form-data")
    {lHeader : String8} (h : c ∉ lHeader) {n : ℕ} {q : ℤ} {e : EntryHeader}
    (hh : (headerLoop lHeader).run n (1, {}) = some (q, e)) : e.name = none := by
  have hread : ∀ (e : EntryHeader) (i j : ℤ), e.name = none →
      (e.read lHeader (Text.substring lHeader i j)).name = none := by
    intro e i j he
    have hnot : ¬ str "Content-Disposition: form-data" <+: Text.substring lHeader i j :=
      fun hpre => h ((Text.substring_subset lHeader i j) (hpre.subset hc))
    exact (EntryHeader.read_of_not_disposition hnot e).1.trans he
  refine (Loop.run_invariant (I := fun x => x.2.name = none) ?_ rfl hh).1
  rintro ⟨i₁, e₁⟩ ⟨i₂, e₂⟩ hI - hb
  simp only [headerLoop] at hb
  split at hb
  · obtain ⟨d, -, hd⟩ := Option.map_eq_some_iff.mp hb
    split at hd
    · obtain ⟨-, rfl⟩ := Prod.mk.inj hd
      exact hread e₁ _ _ hI
    · obtain ⟨-, rfl⟩ := Prod.mk.inj hd
      exact hread e₁ _ _ hI
  · obtain ⟨-, rfl⟩ := Prod.mk.inj (Option.some.inj hb)
    exact hI

namespace FormPart

variable (P : FormPart) (nl : LineEnd)

lemma breakFree_disposition : BreakFree P.disposition := by
  have hfile : BreakFree (P.filename.elim [] fun f => str "; filename=\"" ++ (f ++ [ch '"'])) := by
    cases hf : P.filename with
    | none => exact ⟨List.not_mem_nil, List.not_mem_nil⟩
    | some f =>
      rw [Option.elim_some, breakFree_append, breakFree_append]
      exact ⟨by decide, P.filename_plain f hf, by decide⟩
  rw [disposition, List.append_cons P.name, breakFree_append, breakFree_append, breakFree_append]
  exact ⟨by decide, ⟨P.name_plain.2.1, by decide⟩, hfile⟩

lemma lines_plain : ∀ l ∈ P.lines, BreakFree l ∧ l ≠ [] := by
  intro l hl
  rcases List.mem_cons.mp hl with rfl | hl
  · exact ⟨P.breakFree_disposition, List.append_ne_nil_of_left_ne_nil (by decide) _⟩
  · exact ⟨(P.fields_plain l hl).1, (P.fields_plain l hl).2.1⟩

/-- What the analyser reads from the header of the part. -/
def header : EntryHeader := P.lines.foldl (fun h l => h.read (headerText nl P.lines) l) {}

lemma header_eq :
    (P.header nl).name = some P.name ∧ ((P.header nl).filename.isSome ↔ P.IsFile) := by
  obtain ⟨hn, hf⟩ := @EntryHeader.foldl_read (headerText nl P.lines) P.fields
    (fun l hl => (P.fields_plain l hl).2.2)
    (EntryHeader.read (headerText nl P.lines) P.disposition {})
  have hpre : str "Content-Disposition: form-data" <+: P.disposition := by
    refine List.IsPrefix.trans ?_ (List.prefix_append _ _)
    decide
  have hname : parameterValue (str "name=") (headerText nl P.lines) P.disposition =
      some P.name := by
    rw [lines, headerText_cons, disposition, parameterValue_name P.name_plain.2.2,
      List.append_assoc, List.append_assoc]
    exact congrArg some (Text.substring_eq _ _ _ rfl rfl)
  rw [header, lines, List.foldl_cons, ← lines, hn, hf, EntryHeader.read, if_pos hpre]
  refine ⟨by simp [hname], ?_⟩
  have hfile : (parameterValue (str "filename=") (headerText nl P.lines) P.disposition).isSome ↔
      P.IsFile := parameterValue_isSome
  rw [← hfile]
  simp

/-- **A part is read**: the analyser stores its content under what its header says. -/
lemma analyzeMultipartFormInput_text (uc : UnicodeConversion) (dir : WorkingDirectory)
    (st : FormState) : analyzeMultipartFormInput uc dir (P.text nl) st =
      storeEntry uc dir (P.header nl) P.content st := by
  have hsplit : splitHeader (P.text nl) = some (headerText nl P.lines, P.content) :=
    splitHeader_headerText P.lines_plain (List.cons_ne_nil _ _) P.content
  have hlen : P.lines.length ≤ (headerText nl P.lines).length + 1 :=
    (length_le_length_headerText nl P.lines).trans (Nat.le_succ _)
  obtain ⟨q, hq⟩ := @headerLoop_run nl P.lines (fun l hl => (P.lines_plain l hl).1)
    (fun _ h => (P.lines_plain [] h).2 rfl) [] {} 1 rfl _ hlen
  rw [List.nil_append] at hq
  exact analyzeMultipartFormInput_of_split hsplit hq

end FormPart

/-! ## Storing a part -/

section Store

variable {uc : UnicodeConversion} {dir : WorkingDirectory} {P : FormPart} {nl : LineEnd}

/-- A part that is no file is added to the table. -/
lemma storeEntry_of_not_isFile (h : ¬ P.IsFile) (st : FormState) :
    storeEntry uc dir (P.header nl) P.content st =
      (addValueToTable uc P.name P.content st.vars).map fun vars => { st with vars := vars } := by
  obtain ⟨hn, hf⟩ := P.header_eq nl
  have hnone : (P.header nl).filename = none := by
    rw [← Option.not_isSome_iff_eq_none, hf]
    exact h
  rw [storeEntry, hn, hnone]

/-- A file is saved. -/
lemma storeEntry_of_isFile (h : P.IsFile) (st : FormState) :
    ∃ st', storeEntry uc dir (P.header nl) P.content st = some st' ∧
      st'.errors = (st.saveUploadedFile dir).errors := by
  obtain ⟨hn, hf⟩ := P.header_eq nl
  obtain ⟨f, hf⟩ := Option.isSome_iff_exists.mp (hf.mpr h)
  rw [storeEntry, hn, hf]
  exact ⟨_, rfl, rfl⟩

end Store

/-! ## Finding the delimiters -/

/-- A text on one line occurs on one side of an end of line. -/
lemma infix_lineEnd_iff {p : String8} (hp : BreakFree p) (nl : LineEnd) {a b : String8} :
    p <:+: a ++ (nl.text ++ b) ↔ p <:+: a ∨ p <:+: b := by
  cases nl with
  | lf => exact Text.infix_append_cons_iff hp.2
  | crlf =>
    have hfeed : p <:+: lineFeed :: b ↔ p <:+: [] ∨ p <:+: b :=
      Text.infix_append_cons_iff (a := []) hp.2
    have hnil : p <:+: [] → p <:+: a := fun h => List.infix_nil.mp h ▸ List.nil_infix
    refine (Text.infix_append_cons_iff (b := lineFeed :: b) hp.1).trans ?_
    rw [hfeed]
    tauto

/-- Behind an end of line the delimiter is found where it was put. -/
lemma infixIndex_lineEnd {p a : String8} (hp : BreakFree p) (h : ¬ p <:+: a) (nl : LineEnd)
    (b : String8) :
    Text.infixIndex p (a ++ (nl.text ++ (p ++ b))) = some (a.length + nl.text.length) := by
  cases nl with
  | lf => exact Text.infixIndex_of_break hp.2 h
  | crlf =>
    have h' : ¬ p <:+: a ++ [carriageReturn] := by
      rw [Text.infix_append_cons_iff hp.1]
      rintro (h' | h')
      · exact h h'
      · exact h (List.infix_nil.mp h' ▸ List.nil_infix)
    have hs : a ++ (LineEnd.crlf.text ++ (p ++ b)) =
        (a ++ [carriageReturn]) ++ lineFeed :: (p ++ b) := by
      simp [LineEnd.text, crlf, carriageReturn, lineFeed]
    rw [hs, Text.infixIndex_of_break hp.2 h']
    simp [LineEnd.text, crlf]

/-- A text on one line occurs in a header and what follows it iff it occurs in a line of it or in
what follows it. -/
lemma infix_headerText_iff {p : String8} (hp : BreakFree p) (nl : LineEnd) (lines : List String8)
    (u : String8) :
    p <:+: headerText nl lines ++ u ↔ (∃ l ∈ lines, p <:+: l) ∨ p <:+: u := by
  induction lines with
  | nil => simp [headerText]
  | cons l lines ih =>
    rw [headerText_cons, List.append_assoc, List.append_assoc, infix_lineEnd_iff hp, ih]
    simp [or_assoc]

lemma breakFree_delimiter (B : Boundary) : BreakFree (delimiter B) :=
  breakFree_append.mpr ⟨by decide, B.plain.1⟩

lemma not_infix_of_length_le (B : Boundary) {u : String8} (h : u.length ≤ 2) :
    ¬ delimiter B <:+: u := by
  intro h'
  have hB := List.length_pos_iff.mpr B.ne_nil
  have hle := h'.length_le
  rw [delimiter, List.length_append, show (str "--").length = 2 from rfl] at hle
  omega

lemma not_infix_text {B : Boundary} {nl : LineEnd} {P : FormPart}
    (hlines : ∀ l ∈ P.lines, ¬ delimiter B <:+: l)
    (hcontent : ¬ delimiter B <:+: P.content) : ¬ delimiter B <:+: P.text nl := by
  rw [FormPart.text, infix_headerText_iff (breakFree_delimiter B),
    ← List.nil_append (nl.text ++ P.content), infix_lineEnd_iff (breakFree_delimiter B)]
  rintro (⟨l, hl, h⟩ | hnil | hc)
  · exact hlines l hl h
  · exact not_infix_of_length_le B (by decide) hnil
  · exact hcontent hc

section Step

variable (uc : UnicodeConversion) (dir : WorkingDirectory)

/-- An iteration that finds the boundary. -/
lemma partLoop_body (nl : LineEnd) {lBoundaryPrefix lBoundary a u : String8} {i : ℤ}
    (hi : i = a.length + 1) {k : ℕ} (hk : Text.infixIndex lBoundary u = some k) (st : FormState) :
    (partLoop uc dir (a ++ u) lBoundaryPrefix lBoundary nl.isCrlf).body (i, st) =
      (analyzeMultipartFormInput uc dir
        (Text.substring (a ++ u) i (i + k - 1 - nl.text.length)) st).map fun st' =>
          (i + k + lBoundary.length + nl.text.length, st') := by
  have hnext := Text.substringIndex_eq hi hk
  have hpos : 0 < i + k := by omega
  cases nl with
  | lf => simp only [partLoop, hnext, hpos, if_true, LineEnd.isCrlf]; rfl
  | crlf =>
    have hlen : LineEnd.crlf.text.length = 2 := rfl
    simp only [partLoop, hnext, hpos, if_true, LineEnd.isCrlf, hlen]
    congr 1
    funext st'
    congr 1
    push_cast
    omega

/-- An iteration that reads an entry up to the next delimiter. -/
lemma partLoop_body_entry {nl : LineEnd} {B : Boundary} {a m v bp : String8}
    (hm : ¬ delimiter B <:+: m) {i : ℤ} (hi : i = a.length + 1) (st : FormState) :
    (partLoop uc dir (a ++ (m ++ (nl.text ++ (delimiter B ++ v)))) bp (delimiter B)
        nl.isCrlf).body (i, st) =
      (analyzeMultipartFormInput uc dir m st).map fun st' =>
        (i + m.length + nl.text.length + (delimiter B).length + nl.text.length, st') := by
  have hk := infixIndex_lineEnd (breakFree_delimiter B) hm nl v
  have hsub : Text.substring (a ++ (m ++ (nl.text ++ (delimiter B ++ v)))) i
      (i + (m.length + nl.text.length : ℕ) - 1 - nl.text.length) = m :=
    Text.substring_eq _ _ _ hi (by push_cast; omega)
  rw [partLoop_body uc dir nl hi hk, hsub]
  congr 1
  funext st'
  congr 1
  push_cast
  omega

/-- An iteration that reads a part up to the next delimiter. -/
lemma partLoop_run_part {nl : LineEnd} {B : Boundary} {P : FormPart} {a v bp : String8}
    (hP : ¬ delimiter B <:+: P.text nl) {i : ℤ} (hi : i = a.length + 1) (n : ℕ) (st : FormState) :
    (partLoop uc dir (a ++ (P.text nl ++ (nl.text ++ (delimiter B ++ v)))) bp (delimiter B)
        nl.isCrlf).run (n + 1) (i, st) =
      (storeEntry uc dir (P.header nl) P.content st).bind fun st' =>
        (partLoop uc dir (a ++ (P.text nl ++ (nl.text ++ (delimiter B ++ v)))) bp (delimiter B)
          nl.isCrlf).run n (i + (P.text nl).length + nl.text.length + (delimiter B).length +
            nl.text.length, st') := by
  have he : (partLoop uc dir (a ++ (P.text nl ++ (nl.text ++ (delimiter B ++ v)))) bp (delimiter B)
      nl.isCrlf).exit (i, st) = false := by
    simp only [partLoop, decide_eq_false_iff_not]
    omega
  rw [Loop.run_succ_of_not_exit he, partLoop_body_entry uc dir hP hi,
    P.analyzeMultipartFormInput_text, Option.bind_map]
  rfl

/-- What the last iteration does after the last delimiter. -/
def ending (nl : LineEnd) (st : FormState) : FormState :=
  if nl.isCrlf then
    st.addCustomError 0 (str "Invalid form data")
      (asString32 (str "Invalid ending for form data from input"))
  else st

/-- Behind the two dashes nothing is left of the form. -/
lemma partLoop_body_end_crlf {B : Boundary} {a : String8} {i : ℤ} (hi : i = a.length + 3)
    (st : FormState) :
    (partLoop uc dir (a ++ (str "--" ++ crlf)) (str "--") (delimiter B) true).body (i, st) =
      some (0, ending .crlf st) := by
  have hs : a ++ (str "--" ++ crlf) = (a ++ str "--") ++ crlf := (List.append_assoc _ _ _).symm
  have hi' : i = (a ++ str "--").length + 1 := by
    rw [hi, List.length_append]
    rfl
  have hnext : Text.substringIndex ((a ++ str "--") ++ crlf) (delimiter B) i = 0 :=
    Text.substringIndex_eq_zero hi' (not_infix_of_length_le B (by decide))
  have hm : Text.substring ((a ++ str "--") ++ crlf) (i + 1 - 1) ((a ++ str "--") ++ crlf).length =
      crlf := Text.substring_suffix _ _ (by omega) rfl
  have hne : str "--" ≠ Text.rightAdjust isSpace crlf := by decide
  simp only [partLoop, hs, hnext, if_true, hm, if_neg hne]
  rfl

/-- Behind the first dash the two dashes are compared with the prefix of the boundary. -/
lemma partLoop_body_end_lf (nl : LineEnd) {B : Boundary} {a : String8} {i : ℤ}
    (hi : i = a.length + 2) (st : FormState) :
    (partLoop uc dir (a ++ (str "--" ++ nl.text)) (str "--") (delimiter B) false).body (i, st) =
      some (0, st) := by
  have hs : a ++ (str "--" ++ nl.text) = (a ++ str "-") ++ (str "-" ++ nl.text) := by
    rw [List.append_assoc]
    rfl
  have hi' : i = (a ++ str "-").length + 1 := by
    rw [hi, List.length_append]
    rfl
  have hnot : ¬ delimiter B <:+: str "-" ++ nl.text := by
    rw [← List.append_nil nl.text, infix_lineEnd_iff (breakFree_delimiter B)]
    exact not_or.mpr ⟨not_infix_of_length_le B (by decide), not_infix_of_length_le B (by decide)⟩
  have hnext : Text.substringIndex (a ++ (str "--" ++ nl.text)) (delimiter B) i = 0 := by
    rw [hs]
    exact Text.substringIndex_eq_zero hi' hnot
  have hm : Text.substring (a ++ (str "--" ++ nl.text)) (i - 1)
      (a ++ (str "--" ++ nl.text)).length = str "--" ++ nl.text :=
    Text.substring_suffix _ _ (by omega) rfl
  have heq : str "--" = Text.rightAdjust isSpace (str "--" ++ nl.text) := by cases nl <;> decide
  simp only [partLoop, hnext, Bool.false_eq_true, if_false, hm, ← heq, if_true]
  rfl

/-- A run from the last iteration on. -/
lemma partLoop_run_last {s bp b : String8} {isCrlf : Bool} {i : ℤ} (hi : i ≠ 0)
    {st st' : FormState} (hb : (partLoop uc dir s bp b isCrlf).body (i, st) = some (0, st'))
    {n : ℕ} (hn : 0 < n) : (partLoop uc dir s bp b isCrlf).run n (i, st) = some (0, st') := by
  obtain ⟨n, rfl⟩ : ∃ k, n = k + 1 := ⟨n - 1, by omega⟩
  have he : (partLoop uc dir s bp b isCrlf).exit (i, st) = false := by
    simpa only [partLoop, decide_eq_false_iff_not] using hi
  rw [Loop.run_succ he hb]
  exact Loop.run_of_exit (by simp [partLoop]) n

lemma partLoop_run_end {nl : LineEnd} {B : Boundary} {a : String8} {i : ℤ}
    (hi : i = a.length + nl.text.length + 1) {n : ℕ} (hn : 0 < n) (st : FormState) :
    (partLoop uc dir (a ++ (str "--" ++ nl.text)) (str "--") (delimiter B) nl.isCrlf).run n
      (i, st) = some (0, ending nl st) := by
  cases nl with
  | crlf =>
    rw [show LineEnd.crlf.text.length = 2 from rfl] at hi
    exact partLoop_run_last uc dir (by omega) (partLoop_body_end_crlf uc dir (by omega) st) hn
  | lf =>
    rw [show LineEnd.lf.text.length = 1 from rfl] at hi
    exact partLoop_run_last uc dir (by omega) (partLoop_body_end_lf uc dir .lf (by omega) st) hn

end Step

/-! ## Whole forms -/

/-- The content type ends with the parameter `boundary`, and this is its first one. -/
def EndsWithBoundary (t : String8) (B : Boundary) : Prop :=
  ∃ a, t = a ++ (str "boundary=" ++ B.text) ∧ ¬ str "boundary=" <:+: a

section Run

variable (uc : UnicodeConversion) (dir : WorkingDirectory)

/-- The parts stored one after the other. -/
def storeParts (nl : LineEnd) (parts : List FormPart) (st : FormState) : Option FormState :=
  parts.foldlM (fun st P => storeEntry uc dir (P.header nl) P.content st) st

/-- **The loop stores the parts in order**, if the delimiter occurs in none of them. -/
lemma partLoop_run {nl : LineEnd} {B : Boundary} {parts : List FormPart}
    (hparts : ∀ P ∈ parts, ¬ delimiter B <:+: P.text nl) (a : String8) {i : ℤ}
    (hi : i = a.length + nl.text.length + 1) {n : ℕ} (hn : parts.length < n) (st : FormState) :
    (partLoop uc dir (a ++ afterDelimiter nl B parts) (str "--") (delimiter B) nl.isCrlf).run n
      (i, st) = (storeParts uc dir nl parts st).map fun st' => (0, ending nl st') := by
  induction parts generalizing a i n st with
  | nil => exact partLoop_run_end uc dir hi (Nat.zero_lt_of_lt hn) st
  | cons P parts ih =>
    obtain ⟨n, rfl⟩ : ∃ k, n = k + 1 := ⟨n - 1, by omega⟩
    have hs := append_afterDelimiter_cons nl B P parts a
    have hs' := append_afterDelimiter_cons_rest nl B P parts a
    rw [List.length_cons] at hn
    rw [hs, partLoop_run_part uc dir (hparts P (by simp)) (by rw [List.length_append]; omega),
      storeParts, List.foldlM_cons, ← hs, hs']
    rw [Option.bind_eq_bind, Option.map_bind]
    congr 1
    funext st'
    refine ih (fun Q hQ => hparts Q (by simp [hQ])) _ ?_ (by omega) st'
    simp only [List.length_append]
    omega

variable {t : String8} {nl : LineEnd} {B : Boundary} {parts : List FormPart}

lemma length_le_length_afterDelimiter (nl : LineEnd) (B : Boundary) (parts : List FormPart) :
    parts.length ≤ (afterDelimiter nl B parts).length := by
  induction parts with
  | nil => exact Nat.zero_le _
  | cons P parts ih =>
    have hpos := nl.length_text_pos
    rw [afterDelimiter]
    simp only [List.length_cons, List.length_append]
    omega

lemma substring_boundary (ht : EndsWithBoundary t B) :
    0 < Text.substringIndex t (str "boundary=") 1 ∧
      Text.substring t (Text.substringIndex t (str "boundary=") 1 + 9) t.length = B.text := by
  obtain ⟨a, rfl, ha⟩ := ht
  have hb : str "boundary=" = str "boundary" ++ [ch '='] := by decide
  have hk : Text.infixIndex (str "boundary=") (a ++ (str "boundary=" ++ B.text)) =
      some a.length := by
    rw [hb] at ha ⊢
    exact Text.infixIndex_of_last (by decide) ha B.text
  have hp := Text.substringIndex_eq (a := []) (i := 1) rfl hk
  rw [List.nil_append] at hp
  rw [hp]
  refine ⟨by omega, ?_⟩
  rw [← List.append_assoc]
  refine Text.substring_suffix _ _ ?_ rfl
  rw [List.length_append, show (str "boundary=").length = 9 from rfl]
  push_cast
  omega

/-- The analysis of a body whose boundary has a character other than a dash: the prefix is `--`. -/
lemma analyzeMultipartForm_of_delimiter (ht : EndsWithBoundary t B) (hB : ∃ c ∈ B.text, c ≠ ch '-')
    (v : String8) (st : FormState) :
    analyzeMultipartForm uc dir t (delimiter B ++ v) st =
      analyzeParts uc dir (delimiter B ++ v) (str "--") (delimiter B) st := by
  obtain ⟨hpos, hsub⟩ := substring_boundary ht
  have hs : delimiter B ++ v = List.replicate 2 (ch '-') ++ (B.text ++ v) := by
    rw [delimiter, List.append_assoc]
    rfl
  have hk := Text.infixIndex_replicate hB 2 v
  have hp := Text.substringIndex_eq (a := []) (i := 1) rfl hk
  rw [List.nil_append, ← hs] at hp
  have hpre : Text.substring (delimiter B ++ v) 1 (1 + ((2 : ℕ) : ℤ) - 1) = str "--" := by
    rw [delimiter, List.append_assoc]
    exact Text.substring_prefix _ _ rfl
  simp only [analyzeMultipartForm, hsub, hp, hpre]
  rw [if_pos hpos, if_pos (by decide)]
  rfl

/-- The loop starts behind the first delimiter and the end of its line. -/
lemma analyzeParts_eq {lBoundaryPrefix lBoundary : String8} (v : String8) (st : FormState) :
    analyzeParts uc dir (lBoundary ++ (nl.text ++ v)) lBoundaryPrefix lBoundary st =
      ((partLoop uc dir (lBoundary ++ (nl.text ++ v)) lBoundaryPrefix lBoundary nl.isCrlf).run
        ((lBoundary ++ (nl.text ++ v)).length + 2)
        (lBoundary.length + nl.text.length + 1, st)).map Prod.snd := by
  cases nl with
  | crlf =>
    have hc : Text.item? (lBoundary ++ (LineEnd.crlf.text ++ v)) (lBoundary.length + 1) =
        some carriageReturn := Text.item?_append_cons _ _ _ rfl
    have hi : 1 + (lBoundary.length : ℤ) + 1 + 1 =
      lBoundary.length + LineEnd.crlf.text.length + 1 := by
      rw [show LineEnd.crlf.text.length = 2 from rfl]
      omega
    simp only [analyzeParts, hc, Option.bind_eq_bind, Option.bind_some, decide_true, if_true, hi,
      LineEnd.isCrlf]
    rw [Option.map_eq_bind]
    rfl
  | lf =>
    have hc : Text.item? (lBoundary ++ (LineEnd.lf.text ++ v)) (lBoundary.length + 1) =
        some lineFeed := Text.item?_append_cons _ _ _ rfl
    have hne : lineFeed ≠ carriageReturn := by decide
    have hi : 1 + (lBoundary.length : ℤ) + 1 = lBoundary.length + LineEnd.lf.text.length + 1 := by
      rw [show LineEnd.lf.text.length = 1 from rfl]
      omega
    simp only [analyzeParts, hc, Option.bind_eq_bind, Option.bind_some, hne, decide_false,
      if_false, hi, LineEnd.isCrlf]
    rw [Option.map_eq_bind]
    rfl

/-- **The analysis of a form** whose delimiter occurs between the parts only. -/
lemma analyzeMultipartForm_eq (ht : EndsWithBoundary t B) (hB : ∃ c ∈ B.text, c ≠ ch '-')
    (hne : parts ≠ []) (hparts : ∀ P ∈ parts, ¬ delimiter B <:+: P.text nl) (st : FormState) :
    analyzeMultipartForm uc dir t (formBody nl B parts) st =
      (storeParts uc dir nl parts st).map (ending nl) := by
  have hlen := length_le_length_afterDelimiter nl B parts
  have hrun := partLoop_run uc dir hparts (delimiter B) rfl
    (n := (formBody nl B parts).length + 2)
    (by rw [formBody, List.length_append]; omega) st
  rw [formBody] at hrun ⊢
  rw [analyzeMultipartForm_of_delimiter uc dir ht hB]
  obtain ⟨P, parts, rfl⟩ := List.exists_cons_of_ne_nil hne
  rw [afterDelimiter, analyzeParts_eq, ← afterDelimiter, hrun, Option.map_map]
  rfl

/-- A form without parts is analysed without an error. -/
lemma analyzeMultipartForm_nil (ht : EndsWithBoundary t B) (hB : ∃ c ∈ B.text, c ≠ ch '-')
    (st : FormState) : analyzeMultipartForm uc dir t (formBody nl B []) st = some st := by
  have hc : Text.item? (delimiter B ++ (str "--" ++ nl.text)) ((delimiter B).length + 1) =
      some (ch '-') := Text.item?_append_cons _ _ _ rfl
  have hcr : ch '-' ≠ carriageReturn := by decide
  have hi : 1 + ((delimiter B).length : ℤ) + 1 = (delimiter B).length + 2 := by omega
  have hrun := partLoop_run_last uc dir (by omega) (partLoop_body_end_lf uc dir nl (B := B) hi st)
    (Nat.succ_pos ((delimiter B ++ (str "--" ++ nl.text)).length + 1))
  rw [formBody, analyzeMultipartForm_of_delimiter uc dir ht hB, afterDelimiter]
  simp only [analyzeParts, hc, Option.bind_eq_bind, Option.bind_some, hcr, decide_false, if_false]
  rw [hrun]
  rfl

end Run

/-! ## A small form -/

lemma plain_x : BreakFree (str "x") ∧ ch '"' ∉ str "x" := by decide

lemma plain_a : str "a" ≠ [] ∧ BreakFree (str "a") ∧ ch '"' ∉ str "a" := by decide

lemma plain_b : str "b" ≠ [] ∧ BreakFree (str "b") ∧ ch '"' ∉ str "b" := by decide

/-- The boundary `x`. -/
def boundaryX : Boundary := ⟨str "x", List.cons_ne_nil _ _, plain_x⟩

lemma endsWithBoundary_x :
    EndsWithBoundary (str "multipart/form-data; boundary=x") boundaryX := by
  refine ⟨str "multipart/form-data; ", by decide, ?_⟩
  rw [← Text.infixIndex_eq_none_iff]
  decide

end EiffelWeb
