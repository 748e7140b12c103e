import Mathlib.Data.List.Basic
import Mathlib.Tactic.Common
import EiffelWeb.Wsf.FormErrors

set_option relaxedAutoImplicit false
set_option autoImplicit false

/-!
# The fields of a multipart form

Parts that have a name over `A-Z a-z 0-9 _ -` and a content only, in the CRLF convention. If the
delimiter occurs between them only, every one of them is stored under its name.

## Main definitions

* `FormPart.IsField` — a part with a name over `A-Z a-z 0-9 _ -` and a content only.
* `StoresContents` — every name is stored with a string that is the content.

## Main results

* `FormPart.IsField.delimiter_infix_line_iff` — where the delimiter occurs in a header.
* `storeParts_fields` — the fields are added to the table in order.
* `item_storeParts_fields` — every field is stored under its name.
-/

namespace EiffelWeb

/-- The characters of a field name. -/
def isNameChar (c : Character8) : Bool := isAlphaNumeric c || c = ch '_' || c = ch '-'

/-- A field: a name over `A-Z a-z 0-9 _ -` and a content. -/
structure FormPart.IsField (P : FormPart) : Prop where
  /-- It is no file. -/
  filename_eq : P.filename = none
  /-- It has no other header line. -/
  fields_eq : P.fields = []
  /-- The characters of its name. -/
  name_chars : ∀ c ∈ P.name, isNameChar c = true

/-- The analysis of the body `s` returns and stores under the name of each part a string that is
its content. -/
def StoresContents (uc : UnicodeConversion) (dir : WorkingDirectory) (t s : String8)
    (parts : List FormPart) (st : FormState) : Prop :=
  ∃ st', analyzeMultipartForm uc dir t s st = some st' ∧
    ∀ P ∈ parts, ∃ w : WsfString, st'.vars.item (asString32 P.name) = some (.string w) ∧
      w.string = asString32 P.content

/-! ## Names -/

lemma isNameChar_plain {c : Character8} (h : isNameChar c = true) :
    c.toNat < 128 ∧ c ≠ ch '+' ∧ c ≠ ch '%' ∧ c ≠ ch '[' ∧ c ≠ ch '=' ∧ c ≠ ch ':' ∧
      c ≠ ch '"' := by
  revert h
  exact forall_character8 (P := fun c => isNameChar c = true → c.toNat < 128 ∧ c ≠ ch '+' ∧
    c ≠ ch '%' ∧ c ≠ ch '[' ∧ c ≠ ch '=' ∧ c ≠ ch ':' ∧ c ≠ ch '"') (by decide +kernel) c

lemma Boundary.quote_notMem_delimiter (B : Boundary) : ch '"' ∉ delimiter B := by
  rw [delimiter, List.mem_append]
  exact not_or.mpr ⟨by decide, B.plain.2⟩

lemma not_infix_fixed (B : Boundary) :
    ¬ delimiter B <:+: str "Content-Disposition: form-data; name=" := by
  intro h
  have hdash : str "--" <:+: str "Content-Disposition: form-data; name=" :=
    (List.prefix_append _ _).isInfix.trans h
  revert hdash
  rw [imp_false, ← Text.infixIndex_eq_none_iff]
  decide

namespace FormPart.IsField

variable {P : FormPart} (h : P.IsField)

include h

lemma disposition_eq : P.disposition =
    str "Content-Disposition: form-data; name=" ++ ch '"' :: (P.name ++ [ch '"']) := by
  have hsplit : str "Content-Disposition: form-data; name=\"" =
      str "Content-Disposition: form-data; name=" ++ [ch '"'] := by decide
  rw [disposition, h.filename_eq, hsplit, List.append_assoc, List.singleton_append,
    Option.elim_none]

lemma lines_eq : P.lines = [P.disposition] := by
  rw [lines, h.fields_eq]

lemma plainText : PlainText P.name := fun c hc =>
  have := isNameChar_plain (h.name_chars c hc)
  ⟨this.1, this.2.1, this.2.2.1⟩

/-- A text without a quote occurs in the header line iff it occurs in the name, or in the fixed
text before it. -/
lemma infix_disposition_iff {p : String8} (hp : ch '"' ∉ p) (hne : p ≠ []) :
    p <:+: P.disposition ↔
      p <:+: str "Content-Disposition: form-data; name=" ∨ p <:+: P.name := by
  rw [h.disposition_eq, Text.infix_append_cons_iff hp, Text.infix_append_cons_iff hp,
    List.infix_nil]
  simp [hne]

lemma not_isFile : ¬ P.IsFile := by
  rw [IsFile, h.infix_disposition_iff (by decide) (by decide)]
  rintro (h' | h')
  · revert h'
    rw [imp_false, ← Text.infixIndex_eq_none_iff]
    decide
  · have hmem : ch '=' ∈ P.name := h'.subset (by decide)
    exact (isNameChar_plain (h.name_chars _ hmem)).2.2.2.2.1 rfl

/-- The delimiter occurs in a header line iff it occurs in the name. -/
lemma delimiter_infix_line_iff (B : Boundary) :
    (∃ l ∈ P.lines, delimiter B <:+: l) ↔ delimiter B <:+: P.name := by
  have hq := B.quote_notMem_delimiter
  have hne : delimiter B ≠ [] := List.append_ne_nil_of_left_ne_nil (by decide) _
  rw [h.lines_eq]
  simp [h.infix_disposition_iff hq hne, not_infix_fixed B]

end FormPart.IsField

/-! ## Fields without the delimiter -/

section Clean

variable {uc : UnicodeConversion} {dir : WorkingDirectory} {nl : LineEnd} {parts : List FormPart}

/-- The fields are added to the table in order. -/
lemma storeParts_fields (h : ∀ P ∈ parts, P.IsField) (st : FormState) :
    storeParts uc dir nl parts st =
      (addPairs uc (parts.map fun P => (P.name, P.content)) st.vars).map
        fun vars => { st with vars := vars } := by
  induction parts generalizing st with
  | nil => rfl
  | cons P parts ih =>
    have hcons : addPairs uc ((P :: parts).map fun P => (P.name, P.content)) st.vars =
        (addValueToTable uc P.name P.content st.vars).bind
          (addPairs uc (parts.map fun P => (P.name, P.content))) := rfl
    rw [storeParts_cons, storeEntry_of_not_isFile (h P (by simp)).not_isFile, Option.bind_map,
      hcons, Option.map_bind]
    congr 1
    funext vars
    exact ih (fun Q hQ => h Q (by simp [hQ])) { st with vars := vars }

lemma filter_name_eq {P : FormPart} (hP : P ∈ parts) (hnd : (parts.map FormPart.name).Nodup) :
    (parts.filter fun Q => Q.name = P.name) = [P] := by
  induction parts with
  | nil => cases hP
  | cons Q parts ih =>
    rw [List.map_cons, List.nodup_cons] at hnd
    rcases List.mem_cons.mp hP with rfl | hP
    · have hrest : (parts.filter fun Q => Q.name = P.name) = [] := by
        rw [List.filter_eq_nil_iff]
        intro Q hQ hname
        exact hnd.1 (List.mem_map.mpr ⟨Q, hQ, of_decide_eq_true hname⟩)
      rw [List.filter_cons_of_pos (by simp), hrest]
    · have hne : Q.name ≠ P.name := fun h => hnd.1 (List.mem_map.mpr ⟨P, hP, h.symm⟩)
      rw [List.filter_cons_of_neg (by simpa using hne), ih hP hnd.2]

/-- **Every field is stored under its name.** -/
lemma item_storeParts_fields (h : ∀ P ∈ parts, P.IsField) (hnd : (parts.map FormPart.name).Nodup)
    {st : FormState} (hst : st.vars = []) :
    ∃ st', storeParts uc dir nl parts st = some st' ∧ ∀ P ∈ parts,
      st'.vars.item (asString32 P.name) = some (.string (WsfString.make uc P.name P.content)) := by
  have hflat : ∀ p ∈ parts.map (fun P => (P.name, P.content)), ch '[' ∉ p.1 := by
    intro p hp hmem
    obtain ⟨P, hP, rfl⟩ := List.mem_map.mp hp
    exact (isNameChar_plain ((h P hP).name_chars _ hmem)).2.2.2.1 rfl
  obtain ⟨t', ht', -⟩ := keys_addPairs uc
    (fun p hp => Or.inl (not_hasGroup_of_notMem (hflat p hp))) tablesNamed_nil
  refine ⟨{ st with vars := t' }, ?_, fun P hP => ?_⟩
  · rw [storeParts_fields h, hst, ht']
    rfl
  · have hitem := item_addPairs hflat [] (fun key => rfl) ht' (asString32 P.name)
    rw [hitem, List.nil_append, stringsOf, List.filter_map]
    have hfilter : parts.filter ((fun p : String8 × String8 =>
        decide (urlDecodedString uc p.1 = asString32 P.name)) ∘ fun P => (P.name, P.content)) =
          parts.filter fun Q => Q.name = P.name := by
      refine List.filter_congr fun Q hQ => ?_
      simp only [Function.comp_apply, urlDecodedString_of_plain uc (h Q hQ).plainText,
        asString32_injective.eq_iff]
    rw [hfilter, filter_name_eq hP hnd]
    rfl

end Clean

end EiffelWeb
