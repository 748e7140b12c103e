import Mathlib.Data.List.Basic
import Mathlib.Data.List.MinMax
import Mathlib.Tactic.Common
import EiffelWeb.Wsf.FormFields

set_option relaxedAutoImplicit false
set_option autoImplicit false

/-!
# Boundaries of dashes

A boundary that consists of dashes is found at the start of its own delimiter. Its prefix is then
empty, the character behind it is a dash, and the analyser reads the form in the LF convention: the
last dash of a delimiter and a carriage return at the end of the content belong to the entry. The
name is read three characters too early, and contents that have the boundary are cut at it.

What is stored of a form of fields is therefore never what was sent: a string comes from a piece of
a content that is shorter by two characters at least, or it is a content with a carriage return
appended, under the name `e` or a name with an equals sign.

## Main definitions

* `StringsFrom` — the strings of a table come from calls of `add_value_to_table`.
* `entryOf` — the entry that is read from a text on.
* `FormPart.dashedText`, `FormPart.shiftedName` — a part between delimiters of dashes.

## Main results

* `partLoop_run_scan` — a property that every entry keeps is kept up to the next delimiter.
* `keeps_dashedText` — what the entries of a field store.
* `not_storesContents_of_dashes` — the contents are not stored.
-/

namespace EiffelWeb

/-! ## The strings of a table -/

section Strings

variable (uc : UnicodeConversion) {R : String8 → String8 → Prop} {t t' : ValueTable}

/-- Every string of the table was stored under its name by a call whose arguments satisfy `R`. -/
def StringsFrom (R : String8 → String8 → Prop) (t : ValueTable) : Prop :=
  ∀ key w, t.item key = some (.string w) →
    ∃ aName aValue, R aName aValue ∧ w = WsfString.make uc aName aValue ∧ key = w.name

lemma stringsFrom_nil : StringsFrom uc R [] := fun key w h => by simp at h

variable {uc}

lemma StringsFrom.force (ht : StringsFrom uc R t) {v : WsfValue} {k : String32}
    (hv : ∀ w, v = .string w →
      ∃ aName aValue, R aName aValue ∧ w = WsfString.make uc aName aValue ∧ k = w.name) :
    StringsFrom uc R (t.force v k) := by
  intro key w hw
  rw [HashTable.item_force] at hw
  split_ifs at hw with hk
  · rw [hk]
    exact hv w (Option.some.inj hw)
  · exact ht key w hw

lemma StringsFrom.storeValue (ht : StringsFrom uc R t) {aName aValue : String8}
    (hR : R aName aValue) :
    StringsFrom uc R (storeValue t (.string (WsfString.make uc aName aValue))) := by
  unfold EiffelWeb.storeValue
  split
  · exact ht.force fun w hw => by cases hw
  · exact ht.force fun w hw => by cases hw
  · refine ht.force fun w hw => ?_
    obtain rfl := WsfValue.string.inj hw
    exact ⟨aName, aValue, hR, rfl, rfl⟩

lemma StringsFrom.storeTable (ht : StringsFrom uc R t) (key : String32) (v : WsfTable) :
    StringsFrom uc R (storeTable t key v) := by
  have hforce : ∀ {u : ValueTable} (k : String32), StringsFrom uc R u →
      StringsFrom uc R (u.force v.toValue k) := fun k hu => hu.force fun w hw => by cases hw
  simp only [EiffelWeb.storeTable]
  split_ifs
  · exact hforce key ht
  · exact hforce v.name (hforce key ht)
  · exact ht
  · exact hforce v.name ht

/-- **A call adds its own string only.** -/
lemma StringsFrom.addValueToTable (ht : StringsFrom uc R t) {aName aValue : String8}
    (hR : R aName aValue) (h : addValueToTable uc aName aValue t = some t') :
    StringsFrom uc R t' := by
  rw [EiffelWeb.addValueToTable] at h
  by_cases hn : HasGroup aName
  · obtain ⟨b, g, r, rfl, hb, hg⟩ := hasGroup_iff.mp hn
    rw [addValueToTableWithin_eq hb hg] at h
    obtain ⟨v, -, rfl⟩ := Option.map_eq_some_iff.mp h
    exact ht.storeTable _ v
  · rw [addValueToTableWithin_plain hn, Option.some.injEq] at h
    exact h ▸ ht.storeValue hR

end Strings

/-! ## Entries between boundaries -/

section Scan

variable {uc : UnicodeConversion} {dir : WorkingDirectory} {K : ValueTable → Prop}

/-- The entry that is read from the text `u` on: the text up to the character before the
boundary. -/
def entryOf (b u : String8) : String8 :=
  match Text.infixIndex b u with
  | some q => u.take (q - 1)
  | none => u

lemma entryOf_of_index {b u : String8} {q : ℕ} (h : Text.infixIndex b u = some q) :
    entryOf b u = u.take (q - 1) := by
  rw [entryOf, h]

lemma entryOf_eq_self {b u : String8} (h : ¬ b <:+: u) : entryOf b u = u := by
  rw [entryOf, Text.infixIndex_eq_none_iff.mpr h]

lemma entryOf_prefix_self (b u : String8) : entryOf b u <+: u := by
  by_cases h : b <:+: u
  · obtain ⟨q, hq⟩ := Text.exists_infixIndex h
    rw [entryOf_of_index hq]
    exact List.take_prefix _ u
  · simp [entryOf_eq_self h]

/-- An entry does not have the boundary. -/
lemma not_infix_entryOf {b : String8} (hb : b ≠ []) (u : String8) : ¬ b <:+: entryOf b u := by
  by_cases h : b <:+: u
  · obtain ⟨q, hq⟩ := Text.exists_infixIndex h
    obtain ⟨-, -, -, -, hmin⟩ := Text.exists_of_infixIndex hq
    rw [entryOf_of_index hq]
    rintro ⟨x, y, hxy⟩
    have hle := hmin x (y ++ u.drop (q - 1)) (by
      rw [← List.append_assoc, ← List.append_assoc, hxy, List.take_append_drop])
    have hlen := congrArg List.length hxy
    have hpos := List.length_pos_iff.mpr hb
    simp only [List.length_append, List.length_take] at hlen
    omega
  · rwa [entryOf_eq_self h]

variable (uc dir) in
/-- The analysis of the entry `m` keeps the property `K` of the variables. -/
def Keeps (K : ValueTable → Prop) (m : String8) : Prop :=
  ∀ st st', K st.vars → analyzeMultipartFormInput uc dir m st = some st' → K st'.vars

/-- **A property that every entry keeps is kept up to the next delimiter.** The text `u` is followed
by a line feed and the boundary; its entries start at its beginning, or one character behind the
boundary.

**Proof sketch.** Induction on the length of `u`, which is cut at its first boundary. -/
lemma partLoop_run_scan {b bp : String8} (hb : lineFeed ∉ b) {u : String8} (hu : ¬ b <:+ u)
    (hK : ∀ p u', u = p ++ u' → (p = [] ∨ ∃ x c, p = x ++ (b ++ [c])) →
      Keeps uc dir K (entryOf b u'))
    {s a v : String8} (hs : s = a ++ (u ++ lineFeed :: (b ++ v))) {n : ℕ} {i : ℤ}
    (hi : i = a.length + 1) {st : FormState} (hst : K st.vars) {r : ℤ × FormState}
    (h : (partLoop uc dir s bp b LineEnd.lf.isCrlf).run n (i, st) = some r) :
    ∃ n' st₁, K st₁.vars ∧
      (partLoop uc dir s bp b LineEnd.lf.isCrlf).run n' (s.length - v.length + 2, st₁) =
        some r := by
  induction hk : u.length using Nat.strong_induction_on generalizing u a n i st with
  | _ k ih =>
    obtain ⟨n', ⟨i₁, st₁⟩, -, hbody, hr⟩ := partLoop_run_split (by omega) h
    have hkeep := hK [] u rfl (Or.inl rfl)
    have hlf : (LineEnd.lf.text.length : ℤ) = 1 := rfl
    by_cases hin : b <:+: u
    · obtain ⟨q, hq⟩ := Text.exists_infixIndex hin
      obtain ⟨x, y, hxy, hxq, -⟩ := Text.exists_of_infixIndex hq
      obtain ⟨c, y, rfl⟩ := List.exists_cons_of_ne_nil (l := y) (by
        rintro rfl
        exact hu ⟨x, by rw [hxy, List.append_nil]⟩)
      have hsub : Text.substring s i (i + q - 1 - LineEnd.lf.text.length) = u.take (q - 1) := by
        rcases q with _ | q
        · rw [Text.substring_eq_nil_of_lt _ (by omega)]
          rfl
        · have hlen : (u.take q).length = q := by
            rw [List.length_take_of_le]
            rw [hxy, List.length_append]
            omega
          rw [Nat.add_sub_cancel, hs]
          nth_rewrite 1 [← List.take_append_drop q u]
          rw [List.append_assoc]
          exact Text.substring_eq _ _ _ hi (by omega)
      rw [hs, partLoop_body uc dir .lf hi (Text.infixIndex_append hq _), ← hs, hsub,
        ← entryOf_of_index hq] at hbody
      obtain ⟨st₂, h₂, hnext⟩ := Option.map_eq_some_iff.mp hbody
      obtain ⟨rfl, rfl⟩ := Prod.mk.inj hnext
      refine ih y.length ?_ (u := y) ?_ ?_ (a := a ++ (x ++ (b ++ [c]))) ?_ ?_
        (hkeep st st₂ hst h₂) hr rfl
      · rw [← hk, hxy]
        simp only [List.length_append, List.length_cons]
        omega
      · intro hsuff
        refine hu (hsuff.trans ?_)
        rw [hxy, ← List.append_assoc, List.append_cons]
        exact List.suffix_append _ y
      · intro p u' hp hcut
        refine hK (x ++ (b ++ [c]) ++ p) u' (by rw [hxy, hp]; simp) (Or.inr ?_)
        rcases hcut with rfl | ⟨x', c', rfl⟩
        · exact ⟨x, c, List.append_nil _⟩
        · exact ⟨x ++ (b ++ [c]) ++ x', c', by simp⟩
      · rw [hs, hxy]
        simp
      · simp only [List.length_append, List.length_singleton]
        omega
    · have hsub : Text.substring s i (i + (u.length + 1 : ℕ) - 1 - LineEnd.lf.text.length) = u := by
        rw [hs]
        exact Text.substring_eq _ _ _ hi (by omega)
      rw [hs, partLoop_body uc dir .lf hi (Text.infixIndex_of_break hb hin), ← hs, hsub] at hbody
      rw [entryOf_eq_self hin] at hkeep
      obtain ⟨st₂, h₂, hnext⟩ := Option.map_eq_some_iff.mp hbody
      obtain ⟨rfl, rfl⟩ := Prod.mk.inj hnext
      have hpos : i + (u.length + 1 : ℕ) + b.length + LineEnd.lf.text.length =
          (s.length : ℤ) - v.length + 2 := by
        rw [hs]
        simp only [List.length_append, List.length_cons]
        omega
      rw [hpos] at hr
      exact ⟨n', st₂, hkeep st st₂ hst h₂, hr⟩

end Scan

/-! ## Entries that store little -/

section Keeps

variable {uc : UnicodeConversion} {dir : WorkingDirectory} {K : ValueTable → Prop}
  {R : String8 → String8 → Prop} {m : String8}

/-- An entry whose header lacks a character of `Content-Disposition: form-data` stores nothing. -/
lemma keeps_of_notMem {c : Character8} (hc : c ∈ str "Content-Disposition: form-data")
    (hm : ∀ r, splitHeader m = some r → c ∉ r.1) : Keeps uc dir K m := by
  intro st st' hK h
  obtain ⟨-, rfl⟩ | ⟨lHeader, lContent, q, e, hs, hh, he⟩ := analyzeMultipartFormInput_cases h
  · exact hK
  · rw [storeEntry_unnamed (name_of_notMem hc (hm _ hs) hh), Option.some.injEq] at he
    exact he ▸ hK

lemma keeps_of_not_split (hm : splitHeader m = none) : Keeps uc dir K m :=
  keeps_of_notMem (c := ch '-') (by decide) fun r hr => by
    rw [hm] at hr
    cases hr

/-- An entry stores no more than it has. -/
lemma keeps_of_length (hm : ∀ lName lContent, lContent.length ≤ m.length → R lName lContent) :
    Keeps uc dir (StringsFrom uc R) m := by
  intro st st' hK h
  obtain ⟨-, rfl⟩ | ⟨lHeader, lContent, q, e, hs, -, he⟩ := analyzeMultipartFormInput_cases h
  · exact hK
  · rcases vars_storeEntry he with hvars | ⟨lName, -, hadd⟩
    · rw [hvars]
      exact hK
    · exact hK.addValueToTable (hm lName lContent (parts_of_splitHeader hs).2.length_le) hadd

/-- A header line without a colon stores nothing. -/
lemma keeps_of_line {y z : String8} (hy : BreakFree y) (hcolon : ch ':' ∉ y)
    (hm : m <+: y ++ (crlf ++ (crlf ++ z))) : Keeps uc dir K m := by
  rcases List.prefix_or_prefix_of_prefix hm (List.prefix_append y _) with hm | ⟨m', rfl⟩
  · exact keeps_of_not_split (splitHeader_of_breakFree (hy.of_subset hm.subset))
  · have hm' := (List.prefix_append_right_inj y).mp hm
    rw [← List.append_assoc] at hm'
    refine keeps_of_notMem (c := ch ':') (by decide) fun r hr => ?_
    rw [splitHeader_append hy] at hr
    obtain ⟨r', hr', rfl⟩ := Option.map_eq_some_iff.mp hr
    rw [List.mem_append]
    refine not_or.mpr ⟨hcolon, fun hmem => ?_⟩
    have hsub : r'.1 ⊆ crlf ++ crlf := by
      rcases List.prefix_or_prefix_of_prefix hm' (List.prefix_append _ z) with hm' | ⟨z', rfl⟩
      · exact ((parts_of_splitHeader hr').1.trans hm').subset
      · rw [List.append_assoc] at hr'
        rw [← Option.some.inj ((splitHeader_blank .crlf z').symm.trans hr')]
        exact List.subset_append_left _ _
    exact absurd (hsub hmem) (by decide)

end Keeps

/-! ## A field between delimiters of dashes -/

namespace FormPart

variable (P : FormPart)

/-- What is read between two delimiters of dashes: the last dash of the first one, the part and the
carriage return before the second one. -/
def dashedText : String8 := ch '-' :: (crlf ++ (P.text .crlf ++ [carriageReturn]))

/-- The header of the part with the dash before it. -/
def dashedHeader : String8 := headerText .crlf [str "-", P.disposition]

/-- The name that is read from this header, three characters too early. -/
def shiftedName : String8 := (str "e=\"" ++ P.name).take P.name.length

lemma dashedHeader_lines : ∀ l ∈ [str "-", P.disposition], BreakFree l ∧ l ≠ [] := by
  intro l hl
  rcases List.mem_cons.mp hl with rfl | hl
  · exact ⟨by decide, by decide⟩
  · exact P.lines_plain l (List.mem_singleton.mp hl ▸ List.mem_cons_self)

end FormPart

namespace FormPart.IsField

variable {P : FormPart} (h : P.IsField)

include h

lemma dashedText_eq :
    P.dashedText = P.dashedHeader ++ (crlf ++ (P.content ++ [carriageReturn])) := by
  rw [dashedText, dashedHeader, text, h.lines_eq]
  simp [headerText, LineEnd.text, str, ch]

lemma dashedHeader_eq : P.dashedHeader = (str "-" ++ (crlf ++
    str "Content-Disposition: form-data; name=")) ++ ch '"' :: (P.name ++ ch '"' :: crlf) := by
  rw [dashedHeader, h.disposition_eq]
  simp [headerText, LineEnd.text]

lemma plainText_shiftedName : PlainText P.shiftedName := by
  intro c hc
  rcases List.mem_append.mp (List.mem_of_mem_take hc) with hc | hc
  · have hfixed : PlainText (str "e=\"") := by decide
    exact hfixed c hc
  · exact h.plainText c hc

omit h in
lemma shiftedName_cases : P.shiftedName = str "e" ∨ ch '=' ∈ P.shiftedName := by
  obtain ⟨x, n, hn⟩ := List.exists_cons_of_ne_nil P.name_plain.1
  rw [shiftedName, hn]
  rcases n with _ | ⟨y, n⟩
  · exact Or.inl rfl
  · right
    simp [str, ch]

lemma substring_dashedHeader :
    Text.substring P.dashedHeader 39 (38 + P.name.length) = P.shiftedName := by
  have hs : P.dashedHeader = (str "-" ++ (crlf ++ str "Content-Disposition: form-data; nam")) ++
      (P.shiftedName ++ ((str "e=\"" ++ P.name).drop P.name.length ++ ch '"' :: crlf)) := by
    have he : str "Content-Disposition: form-data; name=" =
        str "Content-Disposition: form-data; nam" ++ str "e=" := by decide
    have hquote : str "e=\"" = str "e=" ++ [ch '"'] := by decide
    rw [← List.append_assoc P.shiftedName, shiftedName, List.take_append_drop, h.dashedHeader_eq,
      he, hquote]
    simp
  have hlen : P.shiftedName.length = P.name.length := by
    rw [shiftedName, List.length_take, List.length_append]
    omega
  rw [hs]
  exact Text.substring_eq _ _ _ rfl (by rw [hlen]; rfl)

variable {uc : UnicodeConversion} {dir : WorkingDirectory}

/-- The field behind a dash is stored under a name that is read too early. -/
lemma analyzeMultipartFormInput_dashed (c : String8) (st : FormState) :
    analyzeMultipartFormInput uc dir (P.dashedHeader ++ (crlf ++ c)) st =
      (addValueToTable uc P.shiftedName c st.vars).map fun vars => { st with vars := vars } := by
  have hsplit : splitHeader (P.dashedHeader ++ (crlf ++ c)) = some (P.dashedHeader, c) :=
    splitHeader_headerText P.dashedHeader_lines (List.cons_ne_nil _ _) c
  obtain ⟨q, hq⟩ := @headerLoop_run .crlf [str "-", P.disposition]
    (fun l hl => (P.dashedHeader_lines l hl).1) (fun h' => by cases h') [] {} 1 rfl
    (P.dashedHeader.length + 1)
    ((length_le_length_headerText .crlf [str "-", P.disposition]).trans (Nat.le_succ _))
  rw [List.nil_append] at hq
  rw [analyzeMultipartFormInput_of_split hsplit hq]
  have hdash : EntryHeader.read P.dashedHeader (str "-") {} = {} := by
    rw [EntryHeader.read, if_neg (by decide), if_neg (by decide)]
  have hpre : str "Content-Disposition: form-data" <+: P.disposition :=
    List.IsPrefix.trans (by decide) (List.prefix_append _ _)
  have hname : parameterValue (str "name=") P.dashedHeader P.disposition = some P.shiftedName := by
    rw [disposition, parameterValue_name P.name_plain.2.2, h.substring_dashedHeader]
  have hfile : parameterValue (str "filename=") P.dashedHeader P.disposition = none := by
    rw [← Option.not_isSome_iff_eq_none, parameterValue_isSome]
    exact h.not_isFile
  rw [List.foldl_cons, List.foldl_cons, List.foldl_nil, ← dashedHeader, hdash, EntryHeader.read,
    if_pos hpre, hname, hfile]
  rfl

end FormPart.IsField

section Dashes

variable {uc : UnicodeConversion} {dir : WorkingDirectory} {R : String8 → String8 → Prop}
  {P : FormPart} {b : String8} {k : ℕ}

/-- Two dashes at least do not occur in the header but in the name. -/
lemma not_infix_dashes (hb : b = List.replicate k (ch '-')) (hk : 2 ≤ k) :
    ¬ b <:+: str "-" ++ (crlf ++ str "Content-Disposition: form-data; name=") := by
  intro h
  have htwo : str "--" <+: b := by
    refine ⟨List.replicate (k - 2) (ch '-'), ?_⟩
    rw [hb, show str "--" = List.replicate 2 (ch '-') from rfl, List.replicate_append_replicate,
      Nat.add_sub_cancel' hk]
  have hdash := htwo.isInfix.trans h
  revert hdash
  rw [imp_false, ← Text.infixIndex_eq_none_iff]
  decide

lemma notMem_dashes (hb : b = List.replicate k (ch '-')) {c : Character8} (hc : c ≠ ch '-') :
    c ∉ b := fun h => hc (List.eq_of_mem_replicate (hb ▸ h))

/-- Behind the end of a line an occurrence lies in the next line. -/
lemma occurrence_crlf {p x y z : String8} (hp : BreakFree p) (hne : p ≠ [])
    (h : x ++ (p ++ y) = crlf ++ z) : ∃ t, z = t ++ (p ++ y) := by
  have hnil : ∀ {w t : String8}, [] ≠ w ++ (p ++ t) := fun h' =>
    hne (List.append_eq_nil_iff.mp (List.append_eq_nil_iff.mp h'.symm).2).1
  have hreturn : x ++ (p ++ y) = [] ++ carriageReturn :: (lineFeed :: z) := h
  rcases Text.occurrence_append_cons hp.1 hreturn with ⟨t, ht, -⟩ | ⟨t, -, ht⟩
  · exact absurd ht hnil
  · have hfeed : t ++ (p ++ y) = [] ++ lineFeed :: z := ht.symm
    rcases Text.occurrence_append_cons hp.2 hfeed with ⟨t', ht', -⟩ | ⟨t', -, ht'⟩
    · exact absurd ht' hnil
    · exact ⟨t', ht'⟩

lemma keeps_dashedHeader (hP : P.IsField) {c : String8} (hR : R P.shiftedName c) :
    Keeps uc dir (StringsFrom uc R) (P.dashedHeader ++ (crlf ++ c)) := by
  intro st st' hK h
  rw [hP.analyzeMultipartFormInput_dashed] at h
  obtain ⟨vars, hv, rfl⟩ := Option.map_eq_some_iff.mp h
  exact hK.addValueToTable hR hv

/-- **The first entry of a field** stores its content with a carriage return appended, or its
content up to the boundary in it. -/
lemma keeps_dashedText (hb : b = List.replicate k (ch '-')) (hk : 2 ≤ k) (hP : P.IsField)
    (hshort : ∀ lName lContent, lContent.length + 2 ≤ P.content.length → R lName lContent)
    (hwhole : R P.shiftedName (P.content ++ [carriageReturn])) :
    Keeps uc dir (StringsFrom uc R) (entryOf b P.dashedText) := by
  have hfree : BreakFree b := hb ▸ breakFree_dashes k
  have hquote : ch '"' ∉ b := notMem_dashes hb (by decide)
  have hblen : b.length = k := by rw [hb, List.length_replicate]
  rw [hP.dashedText_eq]
  have hheader : b <:+: P.dashedHeader ↔ b <:+: P.name := by
    have hend : ¬ b <:+: crlf := by
      intro h
      have hmem : ch '-' ∈ b := by
        rw [hb]
        exact List.mem_replicate.mpr ⟨by omega, rfl⟩
      exact absurd (h.subset hmem) (by decide)
    rw [hP.dashedHeader_eq, Text.infix_append_cons_iff hquote, Text.infix_append_cons_iff hquote]
    simp [not_infix_dashes hb hk, hend]
  by_cases hname : b <:+: P.name
  · -- the header is cut
    obtain ⟨q, hq⟩ := Text.exists_infixIndex (hheader.mpr hname)
    obtain ⟨x, y, hxy, hxq, -⟩ := Text.exists_of_infixIndex hq
    have hle := congrArg List.length hxy
    rw [List.length_append] at hle
    rw [entryOf_of_index (Text.infixIndex_append hq _), List.take_append_of_le_length (by omega)]
    exact keeps_of_not_split
      (splitHeader_headerPart P.dashedHeader_lines (List.take_prefix _ _).isInfix)
  by_cases hcontent : b <:+: P.content ++ [carriageReturn]
  · obtain ⟨q, hq⟩ := Text.exists_infixIndex hcontent
    obtain ⟨x, y, hxy, hxq, -⟩ := Text.exists_of_infixIndex hq
    have hle := congrArg List.length hxy
    simp only [List.length_append, List.length_singleton] at hle
    have hreturn : ¬ b <:+: P.dashedHeader ++ [carriageReturn] := by
      rw [Text.infix_append_cons_iff hfree.1, hheader, List.infix_nil]
      rintro (h | h)
      · exact hname h
      · rw [h, List.length_nil] at hblen
        omega
    have hindex : Text.infixIndex b (P.dashedHeader ++ (crlf ++ (P.content ++ [carriageReturn]))) =
        some (P.dashedHeader.length + 2 + q) := by
      have hs : P.dashedHeader ++ (crlf ++ (P.content ++ [carriageReturn])) =
          (P.dashedHeader ++ [carriageReturn]) ++ lineFeed :: (P.content ++ [carriageReturn]) := by
        rw [List.append_assoc]
        rfl
      rw [hs, Text.infixIndex_append_cons hfree.2 hreturn, hq, List.length_append]
      rfl
    rw [entryOf_of_index hindex]
    rcases q with _ | q
    · -- the entry ends within the blank line
      have hs : (P.dashedHeader ++ (crlf ++ (P.content ++ [carriageReturn]))).take
          (P.dashedHeader.length + 2 + 0 - 1) = P.dashedHeader ++ [carriageReturn] := by
        rw [show P.dashedHeader.length + 2 + 0 - 1 = P.dashedHeader.length + 1 from rfl,
          List.take_length_add_append]
        rfl
      rw [hs]
      refine keeps_of_not_split ((splitHeader_lines ?_ (by decide) _).trans ?_)
      · intro l hl
        exact P.dashedHeader_lines l (List.mem_cons_of_mem _ hl)
      · rfl
    · have hs : (P.dashedHeader ++ (crlf ++ (P.content ++ [carriageReturn]))).take
          (P.dashedHeader.length + 2 + (q + 1) - 1) =
            P.dashedHeader ++ (crlf ++ (P.content ++ [carriageReturn]).take q) := by
        have hn : P.dashedHeader.length + 2 + (q + 1) - 1 =
            P.dashedHeader.length + (crlf.length + q) := by
          rw [show crlf.length = 2 from rfl]
          omega
        rw [hn, List.take_length_add_append, List.take_length_add_append]
      rw [hs]
      refine keeps_dashedHeader hP (hshort _ _ ?_)
      rw [List.length_take]
      omega
  · have hnot : ¬ b <:+: P.dashedHeader ++ (crlf ++ (P.content ++ [carriageReturn])) := by
      have hiff : b <:+: P.dashedHeader ++ (crlf ++ (P.content ++ [carriageReturn])) ↔ _ :=
        infix_lineEnd_iff hfree .crlf
      rw [hiff, hheader]
      exact not_or.mpr ⟨hname, hcontent⟩
    rw [entryOf_eq_self hnot]
    exact keeps_dashedHeader hP hwhole

/-- The entries behind a boundary in a field store less than the content. -/
lemma keeps_behind_dashes (hb : b = List.replicate k (ch '-')) (hk : 2 ≤ k) (hP : P.IsField)
    (hshort : ∀ lName lContent, lContent.length + 2 ≤ P.content.length → R lName lContent)
    {x u : String8} {c : Character8} (hs : P.dashedText = x ++ (b ++ [c]) ++ u) :
    Keeps uc dir (StringsFrom uc R) (entryOf b u) := by
  have hfree : BreakFree b := hb ▸ breakFree_dashes k
  have hquote : ch '"' ∉ b := notMem_dashes hb (by decide)
  have hblen : b.length = k := by rw [hb, List.length_replicate]
  have hne : b ≠ [] := List.length_pos_iff.mp (by omega)
  have hs' : x ++ (b ++ c :: u) = (str "-" ++ (crlf ++ str "Content-Disposition: form-data; name="))
      ++ ch '"' :: (P.name ++ ch '"' :: (crlf ++ (crlf ++ (P.content ++ [carriageReturn])))) := by
    rw [hP.dashedText_eq, hP.dashedHeader_eq] at hs
    simpa using hs.symm
  rcases Text.occurrence_append_cons hquote hs' with ⟨t, ht, -⟩ | ⟨x₁, -, h₁⟩
  · exact absurd ⟨x, t, by rw [ht]; simp⟩ (not_infix_dashes hb hk)
  rcases Text.occurrence_append_cons hquote h₁.symm with ⟨t, hname, ht⟩ | ⟨x₂, -, h₂⟩
  · -- the rest of the name is a line without a colon
    have hline : ∀ y : String8, y ⊆ P.name → BreakFree y ∧ ch ':' ∉ y := fun y hy =>
      ⟨P.name_plain.2.1.of_subset hy, fun hmem =>
        (isNameChar_plain (hP.name_chars _ (hy hmem))).2.2.2.2.2.1 rfl⟩
    rcases t with _ | ⟨d, t⟩
    · obtain ⟨-, rfl⟩ := List.cons.inj ht
      exact keeps_of_line (y := []) ⟨List.not_mem_nil, List.not_mem_nil⟩ List.not_mem_nil
        (entryOf_prefix_self b _)
    · rw [List.cons_append, List.cons.injEq, List.append_cons t] at ht
      obtain ⟨hfree', hcolon⟩ := hline t (by rw [hname]; intro e he; simp [he])
      rw [ht.2]
      refine keeps_of_line (y := t ++ [ch '"']) (breakFree_append.mpr ⟨hfree', by decide⟩) ?_
        (entryOf_prefix_self b _)
      rw [List.mem_append]
      exact not_or.mpr ⟨hcolon, by decide⟩
  · -- the boundary is in the content
    obtain ⟨x₃, h₃⟩ := occurrence_crlf hfree hne h₂.symm
    obtain ⟨x₄, h₄⟩ := occurrence_crlf hfree hne h₃.symm
    refine keeps_of_length fun lName lContent hle => hshort _ _ ?_
    have hle' := (entryOf_prefix_self b u).length_le
    have hlen := congrArg List.length h₄
    simp only [List.length_append, List.length_cons, List.length_nil] at hlen
    omega

/-- **The entries of a field between delimiters of dashes** keep what is known of the strings of the
table, if it is true of its content with a carriage return appended and of all shorter texts. -/
lemma keeps_entries (hb : b = List.replicate k (ch '-')) (hk : 0 < k) (hP : P.IsField)
    (hshort : ∀ lName lContent, lContent.length + 2 ≤ P.content.length → R lName lContent)
    (hwhole : R P.shiftedName (P.content ++ [carriageReturn])) {p u : String8}
    (hs : P.dashedText = p ++ u) (hp : p = [] ∨ ∃ x c, p = x ++ (b ++ [c])) :
    Keeps uc dir (StringsFrom uc R) (entryOf b u) := by
  rcases Nat.lt_or_eq_of_le (Nat.succ_le_of_lt hk) with hk | rfl
  · rcases hp with rfl | ⟨x, c, rfl⟩
    · rw [List.nil_append] at hs
      exact hs ▸ keeps_dashedText hb hk hP hshort hwhole
    · exact keeps_behind_dashes hb hk hP hshort hs
  · -- a single dash occurs in `Content-Disposition: form-data`
    refine keeps_of_notMem (c := ch '-') (by decide) fun r hr hmem => ?_
    have hdash : b = [ch '-'] := hb
    refine not_infix_entryOf (hdash ▸ List.cons_ne_nil _ _) u ?_
    rw [hdash] at hr ⊢
    obtain ⟨x, y, hxy⟩ := List.append_of_mem ((parts_of_splitHeader hr).1.subset hmem)
    exact ⟨x, y, by rw [hxy, List.append_assoc]; rfl⟩

/-- An iteration in the closing delimiter stores nothing: it is the last one, or it leaves less of
the delimiter. -/
lemma partLoop_body_closing (hb : b = List.replicate k (ch '-')) (hk : 0 < k) {s bp a u : String8}
    (hs : s = a ++ u) (hu : u <:+ str "---" ++ crlf) {i : ℤ} (hi : i = a.length + 1)
    (st : FormState) :
    ∃ j st', (partLoop uc dir s bp b LineEnd.lf.isCrlf).body (i, st) = some (j, st') ∧
      st'.vars = st.vars ∧ (j = 0 ∨ ∃ a' u', s = a' ++ u' ∧ u' <:+ str "---" ++ crlf ∧
        j = a'.length + 1 ∧ u'.length < u.length) := by
  by_cases hin : b <:+: u
  · obtain ⟨q, hq⟩ := Text.exists_infixIndex hin
    obtain ⟨x, y, hxy, hxq, -⟩ := Text.exists_of_infixIndex hq
    have hend : ¬ b <:+ (str "---" ++ [carriageReturn]) ++ [lineFeed] := by
      intro h
      rcases List.suffix_concat_iff.mp h with h | ⟨x, h, -⟩
      · rw [hb, List.replicate_eq_nil_iff] at h
        omega
      · exact notMem_dashes (c := lineFeed) hb (by decide) (by rw [h]; simp)
    obtain ⟨c, y, rfl⟩ := List.exists_cons_of_ne_nil (l := y) (by
      rintro rfl
      rw [List.append_nil] at hxy
      exact hend (List.IsSuffix.trans ⟨x, hxy.symm⟩ hu))
    have hm : Text.substring s i (i + q - 1 - LineEnd.lf.text.length) <+: u := by
      have h := Text.substring_prefix_of_le a u [] (j := i + q - 1 - LineEnd.lf.text.length) hi
        (by rw [hxy, List.length_append]; omega)
      rwa [List.append_nil, ← hs] at h
    have hnone := splitHeader_of_isInfix (hm.isInfix.trans hu.isInfix) (by decide)
    refine ⟨i + q + b.length + LineEnd.lf.text.length,
      st.addCustomError 0 (str "missformed multipart entry") none, ?_, rfl,
      Or.inr ⟨a ++ (x ++ (b ++ [c])), y, ?_, ?_, ?_, ?_⟩⟩
    · rw [hs, partLoop_body uc dir .lf hi hq, ← hs, analyzeMultipartFormInput_of_not_split hnone,
        Option.map_some]
    · rw [hs, hxy]
      simp
    · refine List.IsSuffix.trans ?_ hu
      rw [hxy, ← List.append_assoc, List.append_cons]
      exact List.suffix_append _ y
    · have hlf : (LineEnd.lf.text.length : ℤ) = 1 := rfl
      simp only [List.length_append, List.length_singleton]
      omega
    · rw [hxy]
      simp only [List.length_append, List.length_cons]
      omega
  · have hnext : Text.substringIndex s b i = 0 := hs ▸ Text.substringIndex_eq_zero hi hin
    simp only [partLoop, hnext, lt_irrefl, if_false]
    refine ⟨0, _, rfl, ?_, Or.inl rfl⟩
    split_ifs <;> rfl

/-- **The closing delimiter stores nothing**, and the loop ends. -/
lemma partLoop_run_closing (hb : b = List.replicate k (ch '-')) (hk : 0 < k) {s bp a u : String8}
    (hs : s = a ++ u) (hu : u <:+ str "---" ++ crlf) {i : ℤ} (hi : i = a.length + 1) {n : ℕ}
    (hn : u.length < n) (st : FormState) :
    ∃ st', (partLoop uc dir s bp b LineEnd.lf.isCrlf).run n (i, st) = some (0, st') ∧
      st'.vars = st.vars := by
  induction n generalizing a u i st with
  | zero => omega
  | succ n ih =>
    have he : (partLoop uc dir s bp b LineEnd.lf.isCrlf).exit (i, st) = false := by
      simp only [partLoop, decide_eq_false_iff_not]
      omega
    obtain ⟨j, st₁, hbody, hvars, rfl | ⟨a', u', hs', hu', hj, hlt⟩⟩ :=
      @partLoop_body_closing uc dir b k hb hk s bp a u hs hu i hi st
    · refine ⟨st₁, ?_, hvars⟩
      rw [Loop.run_succ he hbody]
      exact Loop.run_of_exit (by simp [partLoop]) n
    · obtain ⟨st₂, hrun, hvars₂⟩ := ih hs' hu' hj (by omega) st₁
      exact ⟨st₂, by rw [Loop.run_succ he hbody, hrun], hvars₂.trans hvars⟩

end Dashes

/-! ## Forms with a boundary of dashes -/

section Forms

variable {uc : UnicodeConversion} {dir : WorkingDirectory} {R : String8 → String8 → Prop}
  {t : String8} {B : Boundary} {parts : List FormPart} {st st' : FormState}

lemma length_text_pos (B : Boundary) : 0 < B.text.length := List.length_pos_iff.mpr B.ne_nil

/-- The strings that a run over the parts stores. -/
lemma stringsFrom_of_run (hB : ∀ c ∈ B.text, c = ch '-') (hfields : ∀ P ∈ parts, P.IsField)
    (hshort : ∀ P ∈ parts, ∀ lName lContent, lContent.length + 2 ≤ P.content.length →
      R lName lContent)
    (hwhole : ∀ P ∈ parts, R P.shiftedName (P.content ++ [carriageReturn])) (a : String8) {n : ℕ}
    {i j : ℤ} (hi : i = a.length + 1) (hst : StringsFrom uc R st.vars)
    (h : (partLoop uc dir (a ++ ch '-' :: afterDelimiter .crlf B parts) [] B.text
      LineEnd.lf.isCrlf).run n (i, st) = some (j, st')) : StringsFrom uc R st'.vars := by
  have hb := text_eq_replicate hB
  induction parts generalizing a n i st with
  | nil =>
    obtain ⟨st₁, hrun, hvars⟩ := @partLoop_run_closing uc dir _ _ hb (length_text_pos B)
      (a ++ ch '-' :: afterDelimiter .crlf B []) [] a _ rfl List.suffix_rfl i hi (max n 6)
      (Nat.lt_of_lt_of_le (Nat.lt_succ_self 5) (le_max_right n 6)) st
    have h' := (Loop.run_mono (le_max_left n 6) h).symm.trans hrun
    rw [(Prod.mk.inj (Option.some.inj h')).2, hvars]
    exact hst
  | cons P parts ih =>
    have hs : a ++ ch '-' :: afterDelimiter .crlf B (P :: parts) = a ++ (P.dashedText ++
        lineFeed :: (B.text ++ (str "--" ++ afterDelimiter .crlf B parts))) := by
      rw [afterDelimiter, delimiter_append_of_dashes hB, FormPart.dashedText]
      simp [LineEnd.text, crlf, carriageReturn, lineFeed]
    have hend : ¬ B.text <:+ P.dashedText := by
      rw [FormPart.dashedText, ← List.append_assoc, ← List.cons_append, List.suffix_concat_iff]
      rintro (h' | ⟨x, h', -⟩)
      · exact B.ne_nil h'
      · exact B.plain.1.1 (by rw [h']; simp)
    obtain ⟨n', st₁, hst₁, hr⟩ := partLoop_run_scan B.plain.1.2 hend
      (fun p u => keeps_entries hb (length_text_pos B) (hfields P (by simp)) (hshort P (by simp))
        (hwhole P (by simp))) hs hi hst h
    have hs' : a ++ ch '-' :: afterDelimiter .crlf B (P :: parts) = (a ++ (P.dashedText ++
        lineFeed :: (B.text ++ str "-"))) ++ ch '-' :: afterDelimiter .crlf B parts := by
      rw [hs]
      simp [str, ch]
    rw [hs'] at hr
    refine ih (fun Q hQ => hfields Q (by simp [hQ])) (fun Q hQ => hshort Q (by simp [hQ]))
      (fun Q hQ => hwhole Q (by simp [hQ])) _ ?_ hst₁ hr
    simp only [List.length_append, List.length_cons]
    rw [show (str "-").length = 1 from rfl, show (str "--").length = 2 from rfl]
    omega

/-- The last dash of a delimiter. -/
lemma delimiter_append_dash (hB : ∀ c ∈ B.text, c = ch '-') (v : String8) :
    delimiter B ++ v = (B.text ++ str "-") ++ ch '-' :: v := by
  rw [delimiter_append_of_dashes hB, List.append_assoc]
  rfl

/-- The analysis of a form without parts returns. -/
lemma analyzeMultipartForm_nil_of_dashes (ht : EndsWithBoundary t B)
    (hB : ∀ c ∈ B.text, c = ch '-') (st : FormState) :
    ∃ st', analyzeMultipartForm uc dir t (formBody .crlf B []) st = some st' := by
  have hs := delimiter_append_dash hB (afterDelimiter .crlf B [])
  rw [formBody, analyzeMultipartForm_of_dashes ht hB]
  have hi : (B.text.length + 2 : ℤ) = (B.text ++ str "-").length + 1 := by
    rw [List.length_append]
    rfl
  have hn : (ch '-' :: afterDelimiter .crlf B []).length <
      (delimiter B ++ afterDelimiter .crlf B []).length + 2 := by
    rw [hs, List.length_append]
    omega
  obtain ⟨st', hrun, -⟩ := @partLoop_run_closing uc dir _ _ (text_eq_replicate hB)
    (length_text_pos B) _ [] _ _ hs List.suffix_rfl _ hi _ hn st
  exact ⟨st', by rw [hrun]; rfl⟩

/-- The strings that are stored of a form of fields: texts that are shorter than a content by two
characters at least, and contents with a carriage return appended. -/
lemma stringsFrom_of_dashes (ht : EndsWithBoundary t B) (hB : ∀ c ∈ B.text, c = ch '-')
    (hfields : ∀ P ∈ parts, P.IsField) (hst : st.vars = [])
    (h : analyzeMultipartForm uc dir t (formBody .crlf B parts) st = some st') :
    StringsFrom uc (fun lName lContent =>
      (∃ Q ∈ parts, lContent.length + 2 ≤ Q.content.length) ∨
        ∃ Q ∈ parts, lName = Q.shiftedName ∧ lContent = Q.content ++ [carriageReturn])
      st'.vars := by
  rw [formBody, analyzeMultipartForm_of_dashes ht hB] at h
  obtain ⟨⟨j, st₁⟩, hr, rfl⟩ := Option.map_eq_some_iff.mp h
  rw [delimiter_append_dash hB] at hr
  refine stringsFrom_of_run hB hfields (fun P hP lName lContent hle => Or.inl ⟨P, hP, hle⟩)
    (fun P hP => Or.inr ⟨P, hP, rfl, rfl⟩) (B.text ++ str "-") ?_ (hst ▸ stringsFrom_nil uc) hr
  rw [List.length_append]
  rfl

/-- **A boundary of dashes loses the contents.**

**Proof sketch.** The string stored under the name of a part comes from a text that is not shorter
than the content of the part. So a part with a longest content is stored as the content of a part
`Q` with a carriage return appended, and its name is `e`; the content of `Q` is shorter by one
character at most, so that the name of `Q` is `e` for the same reason. It is the same part, and
no text is decoded to itself without its last carriage return. -/
lemma not_storesContents_of_dashes (hstrict : uc.Strict) (ht : EndsWithBoundary t B)
    (hB : ∀ c ∈ B.text, c = ch '-') (hfields : ∀ P ∈ parts, P.IsField)
    (hnd : (parts.map FormPart.name).Nodup) (hne : parts ≠ []) (hst : st.vars = []) :
    ¬ StoresContents uc dir t (formBody .crlf B parts) parts st := by
  rintro ⟨st', h', hall⟩
  have hfrom := stringsFrom_of_dashes ht hB hfields hst h'
  have hsource : ∀ P ∈ parts, (∃ Q ∈ parts, P.content.length + 2 ≤ Q.content.length) ∨
      P.name = str "e" ∧ ∃ Q ∈ parts, P.content.length ≤ Q.content.length + 1 ∧
        urlDecodedString uc (Q.content ++ [carriageReturn]) = asString32 P.content := by
    intro P hP
    obtain ⟨w, hw, hstring⟩ := hall P hP
    obtain ⟨lName, lContent, hR, rfl, hkey⟩ := hfrom _ w hw
    have hdec : urlDecodedString uc lContent = asString32 P.content := hstring
    have hle : P.content.length ≤ lContent.length := by
      have hlen := Utf8UrlEncoder.length_decodedString_le uc hstrict lContent
      rw [← urlDecodedString, hdec, asString32, List.length_map] at hlen
      exact hlen
    rcases hR with ⟨Q, hQ, hlt⟩ | ⟨Q, hQ, rfl, rfl⟩
    · exact Or.inl ⟨Q, hQ, by omega⟩
    · have hname : P.name = Q.shiftedName := asString32_injective
        (hkey.trans (urlDecodedString_of_plain uc (hfields Q hQ).plainText_shiftedName))
      rw [List.length_append, List.length_singleton] at hle
      rcases FormPart.IsField.shiftedName_cases (P := Q) with he | hmem
      · exact Or.inr ⟨hname.trans he, Q, hQ, hle, hdec⟩
      · rw [← hname] at hmem
        exact absurd rfl (isNameChar_plain ((hfields P hP).name_chars _ hmem)).2.2.2.2.1
  obtain ⟨P, hmax⟩ := Option.ne_none_iff_exists'.mp
    (mt (List.argmax_eq_none (f := fun P : FormPart => P.content.length)).mp hne)
  have hP : P ∈ parts := List.argmax_mem hmax
  have hlongest : ∀ Q ∈ parts, Q.content.length ≤ P.content.length := fun Q hQ =>
    List.le_of_mem_argmax (f := fun P : FormPart => P.content.length) hQ hmax
  rcases hsource P hP with ⟨Q, hQ, hlt⟩ | ⟨hname, Q, hQ, hle, hdec⟩
  · have := hlongest Q hQ
    omega
  · rcases hsource Q hQ with ⟨Q', hQ', hlt⟩ | ⟨hname', -⟩
    · have := hlongest Q' hQ'
      omega
    · obtain rfl : Q = P := List.inj_on_of_nodup_map hnd hQ hP (hname'.trans hname.symm)
      exact Utf8UrlEncoder.decodedString_concat_ne uc hstrict (by decide) Q.content hdec

end Forms

end EiffelWeb
