import Mathlib.Data.List.Basic
import Mathlib.Tactic.Common
import EiffelWeb.Wsf.FormDashes

set_option relaxedAutoImplicit false
set_option autoImplicit false

/-!
# The values of a well-formed multipart form

A form of fields in the CRLF convention, analysed into an empty table. Every field whose name does
not have the delimiter is stored under its name, but not as it was sent: `WSF_STRING.make` decodes
its content as if it were url-encoded. A name that has the delimiter cuts its own header, and is
not stored. If the boundary consists of dashes no form with a field is stored as it was sent.

## Main results

* `item_of_run` — a name that has the delimiter is not stored.
* `storesContents_iff` — the forms whose contents are stored as they were sent.
-/

namespace EiffelWeb

/-! ## Names that have the delimiter -/

section Cut

variable {uc : UnicodeConversion} {dir : WorkingDirectory} {B : Boundary} {st st' : FormState}

/-- A delimiter behind text on one line: what precedes it is no entry. -/
lemma partLoop_body_cut (nl : LineEnd) {a x u bp : String8} (hx : BreakFree x)
    (hk : Text.infixIndex (delimiter B) (x ++ u) = some x.length) {i : ℤ} (hi : i = a.length + 1) :
    (partLoop uc dir (a ++ (x ++ u)) bp (delimiter B) nl.isCrlf).body (i, st) =
      some (i + x.length + (delimiter B).length + nl.text.length,
        st.addCustomError 0 (str "missformed multipart entry") none) := by
  have hm : Text.substring (a ++ (x ++ u)) i (i + x.length - 1 - nl.text.length) <+: x :=
    Text.substring_prefix_of_le _ _ _ hi (by omega)
  rw [partLoop_body uc dir nl hi hk, analyzeMultipartFormInput_of_not_split
    (splitHeader_of_breakFree (hx.of_subset hm.subset)), Option.map_some]

/-- A header of one line that is no content disposition. -/
lemma analyzeMultipartFormInput_unnamed {w : String8} (hw : BreakFree w)
    (hd : ¬ str "Content-Disposition: form-data" <+: w) (c : String8) :
    analyzeMultipartFormInput uc dir (w ++ (crlf ++ (crlf ++ c))) st =
      some (st.addCustomError 0 (str "unamed multipart entry") none) := by
  have hsplit : splitHeader (w ++ (crlf ++ (crlf ++ c))) = some (headerText .crlf [w], c) := by
    rw [splitHeader_append hw]
    have hblank : splitHeader (crlf ++ (crlf ++ c)) = some (crlf, c) := splitHeader_blank .crlf c
    rw [hblank, headerText_cons]
    simp [headerText, LineEnd.text]
  obtain ⟨q, hq⟩ := @headerLoop_run .crlf [w] (by simpa using hw) (fun h => by cases h) [] {} 1 rfl
    ((headerText .crlf [w]).length + 1) (by simp)
  rw [List.nil_append] at hq
  rw [analyzeMultipartFormInput_of_split hsplit hq]
  obtain ⟨hname, -⟩ := @EntryHeader.read_of_not_disposition (headerText .crlf [w]) w hd {}
  exact storeEntry_unnamed hname c

/-- A header that starts with a line feed is not read, so that nothing is stored. -/
lemma vars_of_lineFeed {c : String8}
    (h : analyzeMultipartFormInput uc dir (lineFeed :: (crlf ++ c)) st = some st') :
    st'.vars = st.vars := by
  have h₁ : ¬ crlf ++ crlf <+: lineFeed :: (crlf ++ c) := by
    intro h'
    exact absurd (List.cons_prefix_cons.mp h').1 (by decide)
  have h₂ : ¬ [lineFeed, lineFeed] <+: lineFeed :: (crlf ++ c) := by
    intro h'
    have h'' := (List.cons_prefix_cons.mp h').2
    exact absurd (List.cons_prefix_cons.mp h'').1 (by decide)
  have hs := splitHeader_cons_of_not h₁ h₂
  rcases hu : splitHeader (crlf ++ c) with _ | ⟨lHeader, lContent⟩
  · rw [hu] at hs
    rw [analyzeMultipartFormInput_of_not_split hs, Option.some.injEq] at h
    exact h ▸ rfl
  · rw [hu] at hs
    -- the line break has no character before it
    have hrun : (headerLoop (lineFeed :: lHeader)).run ((lineFeed :: lHeader).length + 1) (1, {}) =
        none := by
      have hp : Text.indexOf (lineFeed :: lHeader) lineFeed 1 = 1 :=
        Text.indexOf_one_eq [] lHeader List.not_mem_nil
      have hitem : Text.item? (lineFeed :: lHeader) (1 - 1) = none :=
        if_neg fun hv => absurd hv.1 (by decide)
      have he : (headerLoop (lineFeed :: lHeader)).exit (1, {}) = false := by
        simp only [headerLoop, List.length_cons, Bool.or_eq_false_iff, decide_eq_false_iff_not]
        omega
      have hb : (headerLoop (lineFeed :: lHeader)).body (1, {}) = none := by
        simp only [headerLoop, hp, hitem, Option.map_none]
        rfl
      rw [Loop.run_succ_of_not_exit he, hb]
      rfl
    rw [analyzeMultipartFormInput_eq_none hs hrun] at h
    cases h

variable {s c v : String8}

/-- An entry that does not change the variables. -/
lemma run_of_entry {nl : LineEnd} {a m bp : String8} (hm : ¬ delimiter B <:+: m)
    (hvars : ∀ st', analyzeMultipartFormInput uc dir m st = some st' → st'.vars = st.vars)
    (hs : s = a ++ (m ++ (nl.text ++ (delimiter B ++ v)))) {n : ℕ} {i : ℤ}
    (hi : i = a.length + 1) {r : ℤ × FormState}
    (h : (partLoop uc dir s bp (delimiter B) nl.isCrlf).run n (i, st) = some r) :
    ∃ n' st₁, st₁.vars = st.vars ∧ (partLoop uc dir s bp (delimiter B) nl.isCrlf).run n'
      (s.length - v.length + nl.text.length + 1, st₁) = some r := by
  obtain ⟨n', x, -, hb, hr⟩ := partLoop_run_split (by omega) h
  rw [hs, partLoop_body_entry uc dir hm hi] at hb
  obtain ⟨st₁, h₁, rfl⟩ := Option.map_eq_some_iff.mp hb
  have hnext : i + m.length + nl.text.length + (delimiter B).length + nl.text.length =
      (s.length : ℤ) - v.length + nl.text.length + 1 := by
    rw [hs]
    simp only [List.length_append]
    push_cast
    omega
  rw [hnext] at hr
  exact ⟨n', st₁, hvars st₁ h₁, hr⟩

/-- The delimiter of a content and the lines before it. -/
lemma not_infix_entry {w : String8} (hc : ¬ delimiter B <:+: c) (hw : ¬ delimiter B <:+: w) :
    ¬ delimiter B <:+: w ++ (crlf ++ c) := by
  have h : delimiter B <:+: w ++ (crlf ++ c) ↔ delimiter B <:+: w ∨ delimiter B <:+: c :=
    infix_lineEnd_iff (breakFree_delimiter B) .crlf
  rw [h]
  exact not_or.mpr ⟨hw, hc⟩

/-- **The rest of a name behind a delimiter stores nothing.** The position is two characters behind
the delimiter: in the rest `y` of the name, in the quote behind it or in the end of the line.

**Proof sketch.** Induction on the length of `y`. If the delimiter occurs in what is left of the
name the argument is repeated; otherwise the entry that ends at the next delimiter has no name. -/
lemma run_of_cut {y bp : String8} (hc : ¬ delimiter B <:+: c) (hy : BreakFree y ∧ ch ':' ∉ y)
    {a : String8} (hs : s = a ++ (y ++ ch '"' :: (crlf ++ (crlf ++ (c ++ (crlf ++
      (delimiter B ++ v))))))) {n : ℕ} {i : ℤ} (hi : i = a.length + 3) {r : ℤ × FormState}
    (h : (partLoop uc dir s bp (delimiter B) LineEnd.crlf.isCrlf).run n (i, st) = some r) :
    ∃ n' st₁, st₁.vars = st.vars ∧ (partLoop uc dir s bp (delimiter B) LineEnd.crlf.isCrlf).run n'
      (s.length - v.length + LineEnd.crlf.text.length + 1, st₁) = some r := by
  have hnil : ¬ delimiter B <:+: [] := not_infix_of_length_le B (by decide)
  induction hk : y.length using Nat.strong_induction_on generalizing y a n i st with
  | _ k ih =>
    rcases y with _ | ⟨e, _ | ⟨f, y⟩⟩
    · -- the quote and the carriage return are skipped
      refine run_of_entry (a := a ++ [ch '"', carriageReturn])
        (m := lineFeed :: (crlf ++ c)) ?_ (fun st' h' => vars_of_lineFeed h') ?_ ?_ h
      · exact not_infix_entry (w := [lineFeed]) hc (not_infix_of_length_le B (by decide))
      · rw [hs]
        simp [LineEnd.text, crlf, carriageReturn, lineFeed]
      · simp only [List.length_append, List.length_cons, List.length_nil]
        omega
    · -- the last character of the name and the quote are skipped
      refine run_of_entry (a := a ++ [e, ch '"']) (m := [] ++ (crlf ++ (crlf ++ c)))
        ?_ (fun st' h' => ?_) ?_ ?_ h
      · exact not_infix_entry (not_infix_entry hc hnil) hnil
      · rw [analyzeMultipartFormInput_unnamed ⟨List.not_mem_nil, List.not_mem_nil⟩ (by decide),
          Option.some.injEq] at h'
        exact h' ▸ rfl
      · rw [hs]
        simp [LineEnd.text]
      · simp only [List.length_append, List.length_cons, List.length_nil]
        omega
    · have hy' : BreakFree y ∧ ch ':' ∉ y :=
        ⟨hy.1.of_subset fun x hx => by simp [hx], fun h' => hy.2 (by simp [h'])⟩
      have ha : i = (a ++ [e, f]).length + 1 := by
        simp only [List.length_append, List.length_cons, List.length_nil]
        omega
      by_cases hin : delimiter B <:+: y
      · obtain ⟨k', hk'⟩ := Text.exists_infixIndex hin
        obtain ⟨x, z, rfl, rfl, -⟩ := Text.exists_of_infixIndex hk'
        have hs' : s = (a ++ [e, f]) ++ (x ++ (delimiter B ++ (z ++ ch '"' :: (crlf ++ (crlf ++
            (c ++ (crlf ++ (delimiter B ++ v)))))))) := by
          rw [hs]
          simp
        have hfirst := Text.infixIndex_append hk' (ch '"' :: (crlf ++ (crlf ++ (c ++ (crlf ++
          (delimiter B ++ v))))))
        rw [List.append_assoc, List.append_assoc] at hfirst
        obtain ⟨n', x₁, -, hb, hr⟩ := partLoop_run_split (by omega) h
        rw [hs', partLoop_body_cut .crlf (hy'.1.of_subset fun _ hx => by simp [hx]) hfirst ha,
          Option.some.injEq] at hb
        rw [← hb] at hr
        have hz : BreakFree z ∧ ch ':' ∉ z :=
          ⟨hy'.1.of_subset fun _ hx => by simp [hx], fun h' => hy'.2 (by simp [h'])⟩
        have hlen : z.length < k := by
          rw [← hk]
          simp only [List.length_cons, List.length_append]
          omega
        have hs'' : s = ((a ++ [e, f]) ++ (x ++ delimiter B)) ++ (z ++ ch '"' :: (crlf ++ (crlf ++
            (c ++ (crlf ++ (delimiter B ++ v)))))) := by
          rw [hs']
          simp
        have hi' : i + x.length + (delimiter B).length + LineEnd.crlf.text.length =
            ((a ++ [e, f]) ++ (x ++ delimiter B)).length + 3 := by
          rw [show LineEnd.crlf.text.length = 2 from rfl]
          simp only [List.length_append, List.length_cons, List.length_nil]
          omega
        obtain ⟨n₂, st₂, hvars, hr₂⟩ := ih z.length hlen hz hs'' hi' hr rfl
        exact ⟨n₂, st₂, hvars, hr₂⟩
      · have hq : ch '"' ∉ delimiter B := B.quote_notMem_delimiter
        have hw : ¬ delimiter B <:+: y ++ [ch '"'] := by
          rw [Text.infix_append_cons_iff hq]
          exact not_or.mpr ⟨hin, hnil⟩
        refine run_of_entry (a := a ++ [e, f])
          (m := (y ++ [ch '"']) ++ (crlf ++ (crlf ++ c)))
          ?_ (fun st' h' => ?_) ?_ ha h
        · rw [← List.nil_append (crlf ++ c)]
          exact not_infix_entry (not_infix_entry hc hnil) hw
        · have hcolon : ¬ str "Content-Disposition: form-data" <+: y ++ [ch '"'] := by
            intro hpre
            have hmem : ch ':' ∈ y ++ [ch '"'] := hpre.subset (by decide)
            rcases List.mem_append.mp hmem with hmem | hmem
            · exact hy'.2 hmem
            · exact absurd (List.mem_singleton.mp hmem) (by decide)
          rw [analyzeMultipartFormInput_unnamed (breakFree_append.mpr ⟨hy'.1, by decide⟩) hcolon,
            Option.some.injEq] at h'
          exact h' ▸ rfl
        · rw [hs]
          simp [LineEnd.text]

/-- A field whose name has the delimiter stores nothing. -/
lemma run_of_cut_field {P : FormPart} (hP : P.IsField) (hname : delimiter B <:+: P.name)
    (hc : ¬ delimiter B <:+: P.content) {a bp : String8}
    (hs : s = a ++ (P.text .crlf ++ (crlf ++ (delimiter B ++ v)))) {n : ℕ} {i : ℤ}
    (hi : i = a.length + 1) {r : ℤ × FormState}
    (h : (partLoop uc dir s bp (delimiter B) LineEnd.crlf.isCrlf).run n (i, st) = some r) :
    ∃ n' st₁, st₁.vars = st.vars ∧ (partLoop uc dir s bp (delimiter B) LineEnd.crlf.isCrlf).run n'
      (s.length - v.length + LineEnd.crlf.text.length + 1, st₁) = some r := by
  obtain ⟨k, hk⟩ := Text.exists_infixIndex hname
  obtain ⟨x, z, hxz, rfl, -⟩ := Text.exists_of_infixIndex hk
  have hnamePlain : BreakFree P.name ∧ ch ':' ∉ P.name :=
    ⟨P.name_plain.2.1, fun h' => (isNameChar_plain (hP.name_chars _ h')).2.2.2.2.2.1 rfl⟩
  have hz : BreakFree z ∧ ch ':' ∉ z := by
    rw [hxz] at hnamePlain
    exact ⟨hnamePlain.1.of_subset fun _ hx => by simp [hx], fun h' => hnamePlain.2 (by simp [h'])⟩
  have hx : BreakFree (str "Content-Disposition: form-data; name=" ++ ch '"' :: x) := by
    rw [List.append_cons, breakFree_append, breakFree_append]
    refine ⟨⟨by decide, by decide⟩, P.name_plain.2.1.of_subset fun y hy => ?_⟩
    rw [hxz]
    simp [hy]
  have hfirst : Text.infixIndex (delimiter B)
      ((str "Content-Disposition: form-data; name=" ++ ch '"' :: x) ++ (delimiter B ++
        (z ++ ch '"' :: (crlf ++ (crlf ++ (P.content ++ (crlf ++ (delimiter B ++ v)))))))) =
      some (str "Content-Disposition: form-data; name=" ++ ch '"' :: x).length := by
    have hrest := Text.infixIndex_append hk (ch '"' :: (crlf ++ (crlf ++ (P.content ++ (crlf ++
      (delimiter B ++ v))))))
    rw [hxz, List.append_assoc, List.append_assoc] at hrest
    rw [List.append_assoc, List.cons_append, Text.infixIndex_append_cons B.quote_notMem_delimiter
      (not_infix_fixed B), hrest, List.length_append, List.length_cons, Option.map_some]
    congr 1
    omega
  have hs' : s = a ++ ((str "Content-Disposition: form-data; name=" ++ ch '"' :: x) ++
      (delimiter B ++ (z ++ ch '"' :: (crlf ++ (crlf ++ (P.content ++ (crlf ++
        (delimiter B ++ v)))))))) := by
    rw [hs, FormPart.text, hP.lines_eq, headerText_cons, hP.disposition_eq, hxz]
    simp [headerText, LineEnd.text]
  obtain ⟨n₁, x₁, -, hb, hr⟩ := partLoop_run_split (by omega) h
  rw [hs', partLoop_body_cut .crlf hx hfirst hi, Option.some.injEq] at hb
  rw [← hb] at hr
  have hs'' : s = (a ++ ((str "Content-Disposition: form-data; name=" ++ ch '"' :: x) ++
      delimiter B)) ++ (z ++ ch '"' :: (crlf ++ (crlf ++ (P.content ++ (crlf ++
        (delimiter B ++ v)))))) := by
    rw [hs']
    simp
  have hi' : i + (str "Content-Disposition: form-data; name=" ++ ch '"' :: x).length +
      (delimiter B).length + LineEnd.crlf.text.length =
        (a ++ ((str "Content-Disposition: form-data; name=" ++ ch '"' :: x) ++
          delimiter B)).length + 3 := by
    rw [show LineEnd.crlf.text.length = 2 from rfl]
    simp only [List.length_append]
    push_cast
    omega
  obtain ⟨n₂, st₂, hvars, hr₂⟩ := run_of_cut hc hz hs'' hi' hr
  exact ⟨n₂, st₂, hvars, hr₂⟩

/-- **A name that has the delimiter is not stored.** -/
lemma item_of_run {parts : List FormPart} (hfields : ∀ P ∈ parts, P.IsField)
    (hcontent : ∀ P ∈ parts, ¬ delimiter B <:+: P.content) {name : String8}
    (hname : delimiter B <:+: name) (a : String8) {n : ℕ} {i j : ℤ}
    (hi : i = a.length + LineEnd.crlf.text.length + 1)
    (h : (partLoop uc dir (a ++ afterDelimiter .crlf B parts) (str "--") (delimiter B)
      LineEnd.crlf.isCrlf).run n (i, st) = some (j, st'))
    (hitem : st.vars.item (asString32 name) = none) :
    st'.vars.item (asString32 name) = none := by
  induction parts generalizing a n i st with
  | nil =>
    obtain ⟨m, -, rfl, -⟩ := partLoop_run_split (by omega) h
    rw [afterDelimiter, partLoop_run_end uc dir hi (Nat.succ_pos m), Option.some.injEq] at h
    rw [← (Prod.mk.inj h).2]
    exact hitem
  | cons P parts ih =>
    have hP := hfields P (by simp)
    have hs := append_afterDelimiter_cons .crlf B P parts a
    have hs' := append_afterDelimiter_cons_rest .crlf B P parts a
    have hi' : i = (a ++ LineEnd.crlf.text).length + 1 := by
      rw [List.length_append]
      omega
    have hfields' : ∀ Q ∈ parts, Q.IsField := fun Q hQ => hfields Q (by simp [hQ])
    have hcontent' : ∀ Q ∈ parts, ¬ delimiter B <:+: Q.content := fun Q hQ =>
      hcontent Q (by simp [hQ])
    by_cases hcut : delimiter B <:+: P.name
    · obtain ⟨n₁, st₁, hvars, hr⟩ := run_of_cut_field hP hcut (hcontent P (by simp)) hs hi' h
      rw [hs'] at hr
      refine ih hfields' hcontent' _ ?_ hr (by rw [hvars]; exact hitem)
      simp only [List.length_append]
      omega
    · have htext : ¬ delimiter B <:+: P.text .crlf :=
        not_infix_text (fun l hl h' => hcut ((hP.delimiter_infix_line_iff B).mp ⟨l, hl, h'⟩))
          (hcontent P (by simp))
      obtain ⟨m, -, rfl, -⟩ := partLoop_run_split (by omega) h
      rw [hs, partLoop_run_part uc dir htext hi', storeEntry_of_not_isFile hP.not_isFile,
        Option.bind_map] at h
      obtain ⟨vars, hv, hr⟩ := Option.bind_eq_some_iff.mp h
      rw [← hs, hs'] at hr
      refine ih hfields' hcontent' _ ?_ hr ?_
      · simp only [List.length_append]
        omega
      · have hplain : ¬ HasGroup P.name := not_hasGroup_of_notMem fun h' =>
          (isNameChar_plain (hP.name_chars _ h')).2.2.2.1 rfl
        rw [addValueToTable, addValueToTableWithin_plain hplain, Option.some.injEq] at hv
        obtain rfl := hv
        refine (item_storeValue_of_ne fun hkey => ?_).trans hitem
        have hdecoded : (WsfString.make uc P.name P.content).name = asString32 P.name :=
          urlDecodedString_of_plain uc hP.plainText
        rw [hdecoded, asString32_injective.eq_iff] at hkey
        exact hcut (hkey ▸ hname)

end Cut

/-! ## Contents as they were sent -/

section Values

variable {t : String8} {B : Boundary} {parts : List FormPart} {st : FormState}

/-- If no name has the delimiter, the contents are stored as the url decoder leaves them. -/
lemma storesContents_of_names (uc : UnicodeConversion) (dir : WorkingDirectory)
    (ht : EndsWithBoundary t B) (hB : ∃ c ∈ B.text, c ≠ ch '-')
    (hfields : ∀ P ∈ parts, P.IsField) (hnd : (parts.map FormPart.name).Nodup)
    (hcontent : ∀ P ∈ parts, ¬ delimiter B <:+: P.content)
    (hname : ∀ P ∈ parts, ¬ delimiter B <:+: P.name) (hst : st.vars = []) :
    StoresContents uc dir t (formBody .crlf B parts) parts st ↔
      ∀ P ∈ parts, urlDecodedString uc P.content = asString32 P.content := by
  by_cases hne : parts = []
  · subst hne
    exact ⟨fun _ => nofun, fun _ => ⟨st, analyzeMultipartForm_nil uc dir ht hB st, nofun⟩⟩
  · have hparts : ∀ P ∈ parts, ¬ delimiter B <:+: P.text .crlf := fun P hP =>
      not_infix_text (fun l hl h =>
        hname P hP (((hfields P hP).delimiter_infix_line_iff B).mp ⟨l, hl, h⟩)) (hcontent P hP)
    obtain ⟨st₁, h₁, hitem⟩ : ∃ st₁, storeParts uc dir .crlf parts st = some st₁ ∧ ∀ P ∈ parts,
        st₁.vars.item (asString32 P.name) = some (.string (WsfString.make uc P.name P.content)) :=
      item_storeParts_fields hfields hnd hst
    rw [StoresContents, analyzeMultipartForm_eq uc dir ht hB hne hparts, h₁, Option.map_some]
    constructor
    · rintro ⟨st', h', hall⟩ P hP
      obtain rfl := Option.some.inj h'
      obtain ⟨w, hw, hstring⟩ := hall P hP
      have hw' := (hitem P hP).symm.trans hw
      rw [Option.some.injEq, WsfValue.string.injEq] at hw'
      rw [← hstring, ← hw']
      rfl
    · intro hall
      exact ⟨_, rfl, fun P hP => ⟨_, hitem P hP, hall P hP⟩⟩

/-- A name that has the delimiter is lost. -/
lemma not_storesContents_of_name (uc : UnicodeConversion) (dir : WorkingDirectory)
    (ht : EndsWithBoundary t B) (hB : ∃ c ∈ B.text, c ≠ ch '-')
    (hfields : ∀ P ∈ parts, P.IsField) (hcontent : ∀ P ∈ parts, ¬ delimiter B <:+: P.content)
    {P : FormPart} (hP : P ∈ parts) (hname : delimiter B <:+: P.name) (hst : st.vars = []) :
    ¬ StoresContents uc dir t (formBody .crlf B parts) parts st := by
  rintro ⟨st', h', hall⟩
  obtain ⟨w, hw, -⟩ := hall P hP
  obtain ⟨Q, rest, rfl⟩ := List.exists_cons_of_ne_nil (List.ne_nil_of_mem hP)
  rw [formBody, analyzeMultipartForm_of_delimiter uc dir ht hB, afterDelimiter, analyzeParts_eq,
    ← afterDelimiter] at h'
  obtain ⟨⟨j, st₁⟩, hr, rfl⟩ := Option.map_eq_some_iff.mp h'
  have hitem := item_of_run hfields hcontent hname (delimiter B) rfl hr (by rw [hst]; rfl)
  rw [hitem] at hw
  cases hw

/-- **The forms whose contents are stored as they were sent**: unless there is no part at all, the
boundary has a character other than a dash, no name has the delimiter, and every content is
literal, that is, it has no plus sign, no percent sign but at its end, and does not pass for UTF-8
unless it is ASCII.

**Proof sketch.** A boundary of dashes loses the contents, and a name that has the delimiter is not
stored. Otherwise the delimiter occurs between the parts only, the fields are added to the empty
table in order, and each of them is stored as the string `WSF_STRING.make` builds from it. -/
theorem storesContents_iff (uc : UnicodeConversion) (hstrict : uc.Strict) (dir : WorkingDirectory)
    (ht : EndsWithBoundary t B) (hfields : ∀ P ∈ parts, P.IsField)
    (hnd : (parts.map FormPart.name).Nodup)
    (hcontent : ∀ P ∈ parts, ¬ delimiter B <:+: P.content) (hst : st.vars = []) :
    StoresContents uc dir t (formBody .crlf B parts) parts st ↔
      ∀ P ∈ parts, (∃ c ∈ B.text, c ≠ ch '-') ∧ ¬ delimiter B <:+: P.name ∧
        Utf8UrlEncoder.Literal uc P.content := by
  have hliteral : ∀ v, urlDecodedString uc v = asString32 v ↔ Utf8UrlEncoder.Literal uc v :=
    Utf8UrlEncoder.decodedString_eq_self_iff uc hstrict
  by_cases hB : ∃ c ∈ B.text, c ≠ ch '-'
  · by_cases hname : ∀ P ∈ parts, ¬ delimiter B <:+: P.name
    · rw [storesContents_of_names uc dir ht hB hfields hnd hcontent hname hst]
      simp only [hliteral]
      exact ⟨fun h P hP => ⟨hB, hname P hP, h P hP⟩, fun h P hP => (h P hP).2.2⟩
    · refine iff_of_false ?_ fun h => hname fun P hP => (h P hP).2.1
      obtain ⟨P, hP, hcut⟩ : ∃ P ∈ parts, delimiter B <:+: P.name := by
        by_contra hno
        exact hname fun P hP h => hno ⟨P, hP, h⟩
      exact not_storesContents_of_name uc dir ht hB hfields hcontent hP hcut hst
  · have hdash : ∀ c ∈ B.text, c = ch '-' := by
      intro c hc
      by_contra hne
      exact hB ⟨c, hc, hne⟩
    by_cases hne : parts = []
    · subst hne
      obtain ⟨st', h'⟩ : ∃ st', analyzeMultipartForm uc dir t (formBody .crlf B []) st = some st' :=
        analyzeMultipartForm_nil_of_dashes ht hdash st
      exact ⟨fun _ P hP => absurd hP List.not_mem_nil, fun _ => ⟨st', h', fun P hP =>
        absurd hP List.not_mem_nil⟩⟩
    · refine iff_of_false (not_storesContents_of_dashes hstrict ht hdash hfields hnd hne hst) ?_
      intro h
      obtain ⟨P, hP⟩ := List.exists_mem_of_ne_nil parts hne
      exact hB (h P hP).1

end Values

lemma isField_field {name content : String8} (h : name ≠ [] ∧ BreakFree name ∧ ch '"' ∉ name)
    (hchars : ∀ c ∈ name, isNameChar c = true) : (FormPart.field name content h).IsField :=
  ⟨rfl, rfl, hchars⟩

/-- Two fields; the content of the second has a blank line. -/
theorem storesContents_two_fields :
    StoresContents standardConversion ⟨str "/", true⟩ (str "multipart/form-data; boundary=x")
      (formBody .crlf boundaryX [FormPart.field (str "a") (str "1") plain_a,
        FormPart.field (str "b") (crlf ++ crlf ++ str "2") plain_b])
      [FormPart.field (str "a") (str "1") plain_a,
        FormPart.field (str "b") (crlf ++ crlf ++ str "2") plain_b] ⟨[], [], []⟩ := by
  refine (storesContents_iff standardConversion standardConversion_strict _ endsWithBoundary_x
    ?_ (by decide) ?_ rfl).mpr ?_
  · simp only [List.forall_mem_cons, List.not_mem_nil, false_imp_iff, implies_true, and_true]
    exact ⟨isField_field plain_a (by decide +kernel), isField_field plain_b (by decide +kernel)⟩
  · simp only [List.forall_mem_cons, List.not_mem_nil, false_imp_iff, implies_true, and_true,
      ← Text.infixIndex_eq_none_iff]
    decide
  · simp only [List.forall_mem_cons, List.not_mem_nil, false_imp_iff, implies_true, and_true,
      ← Text.infixIndex_eq_none_iff]
    exact ⟨⟨by decide, by decide, by decide, by decide, fun _ => by decide +kernel⟩,
      ⟨by decide, by decide, by decide, by decide, fun _ => by decide +kernel⟩⟩

/-- The content `a+b` is stored as `a b`. -/
theorem not_storesContents_plus :
    EndsWithBoundary (str "multipart/form-data; boundary=x") boundaryX ∧
      (FormPart.field (str "a") (str "a+b") plain_a).IsField ∧
      ¬ delimiter boundaryX <:+: str "a+b" ∧
      ¬ StoresContents standardConversion ⟨str "/", true⟩ (str "multipart/form-data; boundary=x")
        (formBody .crlf boundaryX [FormPart.field (str "a") (str "a+b") plain_a])
        [FormPart.field (str "a") (str "a+b") plain_a] ⟨[], [], []⟩ := by
  have hfield : (FormPart.field (str "a") (str "a+b") plain_a).IsField :=
    isField_field plain_a (by decide +kernel)
  have hcontent : ¬ delimiter boundaryX <:+: str "a+b" := by
    rw [← Text.infixIndex_eq_none_iff]
    decide
  refine ⟨endsWithBoundary_x, hfield, hcontent, fun h => ?_⟩
  have hplus := (storesContents_of_names _ _ endsWithBoundary_x (by decide)
    (List.forall_mem_singleton.mpr hfield) (List.nodup_singleton _)
    (List.forall_mem_singleton.mpr hcontent)
    (List.forall_mem_singleton.mpr (not_infix_of_length_le boundaryX (by decide))) rfl).mp h _
    (List.mem_singleton.mpr rfl)
  revert hplus
  decide +kernel

end EiffelWeb
