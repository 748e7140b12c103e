import Mathlib.Data.List.Basic
import Mathlib.Tactic.Common
import EiffelWeb.Wsf.MultipartForm

set_option relaxedAutoImplicit false
set_option autoImplicit false

/-!
# The errors of a well-formed multipart form

The analyser compares what is left after the last delimiter with the prefix of the boundary. In the
LF convention the two dashes of the closing delimiter are left; in the CRLF convention the position
is past them and the form is reported as invalid. A boundary of dashes only is found at the start
of the first delimiter, so that its prefix is empty, and a delimiter in a header line cuts the
header.

## Main definitions

* `AddsNoError` — the analysis returns and adds no error.
* `FormPart.Stored` — storing the part adds no error.

## Main results

* `partLoop_errors` — errors are only added.
* `partLoop_run_delimiter_in_line` — a delimiter in a header line is an error.
* `partLoop_run_dashes` — a boundary of dashes only is an error.
* `addsNoError_iff` — the forms that are analysed without an error.
-/

namespace EiffelWeb

section Errors

variable (uc : UnicodeConversion) (dir : WorkingDirectory)

/-- The analysis of the body `s` returns and adds no error. -/
def AddsNoError (t s : String8) (st : FormState) : Prop :=
  ∃ st', analyzeMultipartForm uc dir t s st = some st' ∧ st'.errors = st.errors

/-- The part can be stored: a file needs a writable directory, the name of another part must
parse. -/
def FormPart.Stored (P : FormPart) : Prop :=
  (P.IsFile → dir.isWritable = true) ∧ (¬ P.IsFile → Parses P.name)

variable {uc dir}

/-! ## Errors are only added -/

lemma partLoop_body_errors {s bp b : String8} {isCrlf : Bool} {i j : ℤ} {st st' : FormState}
    (h : (partLoop uc dir s bp b isCrlf).body (i, st) = some (j, st')) :
    st.errors <+: st'.errors := by
  simp only [partLoop] at h
  split at h
  · obtain ⟨st₁, h₁, h₂⟩ := Option.map_eq_some_iff.mp h
    obtain ⟨-, rfl⟩ := Prod.mk.inj h₂
    exact errors_analyzeMultipartFormInput h₁
  · obtain ⟨-, rfl⟩ := Prod.mk.inj (Option.some.inj h)
    split_ifs
    · exact List.prefix_rfl
    · exact List.prefix_append _ _
    · exact List.prefix_rfl
    · exact List.prefix_append _ _

/-- **The analysis of a form only adds errors.** -/
lemma partLoop_errors {s bp b : String8} {isCrlf : Bool} {n : ℕ} {i j : ℤ} {st st' : FormState}
    (h : (partLoop uc dir s bp b isCrlf).run n (i, st) = some (j, st')) :
    st.errors <+: st'.errors := by
  refine (Loop.run_invariant (I := fun x => st.errors <+: x.2.errors) ?_ List.prefix_rfl h).1
  rintro ⟨i₁, st₁⟩ ⟨i₂, st₂⟩ hI - hb
  exact hI.trans (partLoop_body_errors hb)

/-- One iteration of a run that returns. -/
lemma partLoop_run_split {s bp b : String8} {isCrlf : Bool} {n : ℕ} {i : ℤ} (hi : i ≠ 0)
    {st : FormState} {r : ℤ × FormState}
    (h : (partLoop uc dir s bp b isCrlf).run n (i, st) = some r) :
    ∃ m x, n = m + 1 ∧ (partLoop uc dir s bp b isCrlf).body (i, st) = some x ∧
      (partLoop uc dir s bp b isCrlf).run m x = some r := by
  have he : (partLoop uc dir s bp b isCrlf).exit (i, st) = false := by
    simpa only [partLoop, decide_eq_false_iff_not] using hi
  cases n with
  | zero => simp [Loop.run, he] at h
  | succ m =>
    rw [Loop.run_succ_of_not_exit he] at h
    obtain ⟨x, hx, hr⟩ := Option.bind_eq_some_iff.mp h
    exact ⟨m, x, rfl, hx, hr⟩

/-! ## Storing the parts -/

lemma storeEntry_errors_iff {P : FormPart} {nl : LineEnd} {st : FormState} :
    (∃ st', storeEntry uc dir (P.header nl) P.content st = some st' ∧ st'.errors = st.errors) ↔
      P.Stored dir := by
  by_cases hf : P.IsFile
  · obtain ⟨st₁, h₁, he⟩ : ∃ st₁, storeEntry uc dir (P.header nl) P.content st = some st₁ ∧
        st₁.errors = (st.saveUploadedFile dir).errors := storeEntry_of_isFile hf st
    rw [h₁]
    constructor
    · rintro ⟨st', h', herr⟩
      obtain rfl := Option.some.inj h'
      refine ⟨fun _ => ?_, fun h => absurd hf h⟩
      by_contra hw
      rw [he, FormState.saveUploadedFile, if_neg hw, errors_addCustomError] at herr
      simp at herr
    · rintro ⟨hw, -⟩
      refine ⟨st₁, rfl, ?_⟩
      rw [he, FormState.saveUploadedFile, if_pos (hw hf)]
  · rw [storeEntry_of_not_isFile hf]
    constructor
    · rintro ⟨st', h', -⟩
      obtain ⟨vars, hv, -⟩ := Option.map_eq_some_iff.mp h'
      refine ⟨fun h => absurd h hf, fun _ => ?_⟩
      by_contra hp
      rw [addValueToTable, addValueToTableWithin_eq_none uc hp] at hv
      cases hv
    · rintro ⟨-, hp⟩
      obtain ⟨vars, hv⟩ := Option.isSome_iff_exists.mp
        (addValueToTableWithin_isSome uc (hp hf) le_rfl P.content st.vars)
      exact ⟨{ st with vars := vars }, by rw [addValueToTable, hv]; rfl, rfl⟩

lemma storeParts_cons {nl : LineEnd} {P : FormPart} {parts : List FormPart} {st : FormState} :
    storeParts uc dir nl (P :: parts) st =
      (storeEntry uc dir (P.header nl) P.content st).bind (storeParts uc dir nl parts) := rfl

lemma storeParts_errors {nl : LineEnd} {parts : List FormPart} {st st' : FormState}
    (h : storeParts uc dir nl parts st = some st') : st.errors <+: st'.errors := by
  induction parts generalizing st with
  | nil =>
    obtain rfl := Option.some.inj h
    exact List.prefix_rfl
  | cons P parts ih =>
    rw [storeParts_cons] at h
    obtain ⟨st₁, h₁, h₂⟩ := Option.bind_eq_some_iff.mp h
    exact (errors_storeEntry h₁).trans (ih h₂)

/-- **Storing the parts adds no error iff every one of them can be stored.** -/
lemma storeParts_errors_iff {nl : LineEnd} {parts : List FormPart} {st : FormState} :
    (∃ st', storeParts uc dir nl parts st = some st' ∧ st'.errors = st.errors) ↔
      ∀ P ∈ parts, P.Stored dir := by
  induction parts generalizing st with
  | nil => simp [storeParts]
  | cons P parts ih =>
    have hP : (∃ st', storeEntry uc dir (P.header nl) P.content st = some st' ∧
        st'.errors = st.errors) ↔ P.Stored dir := storeEntry_errors_iff
    rw [storeParts_cons, List.forall_mem_cons, ← hP]
    constructor
    · rintro ⟨st', h', herr⟩
      obtain ⟨st₁, h₁, h₂⟩ := Option.bind_eq_some_iff.mp h'
      -- both stores only add errors, and none was added in the end
      have hle := (storeParts_errors h₂).length_le
      rw [herr] at hle
      have hst₁ : st₁.errors = st.errors := ((errors_storeEntry h₁).eq_of_length_le hle).symm
      exact ⟨⟨st₁, h₁, hst₁⟩, ih.mp ⟨st', h₂, herr.trans hst₁.symm⟩⟩
    · rintro ⟨⟨st₁, h₁, herr⟩, hparts⟩
      obtain ⟨st', h', herr'⟩ : ∃ st', storeParts uc dir nl parts st₁ = some st' ∧
          st'.errors = st₁.errors := ih.mpr hparts
      refine ⟨st', ?_, herr'.trans herr⟩
      rw [h₁]
      exact h'

/-! ## A delimiter in a header line -/

/-- A header that is cut by the delimiter is not well-formed. -/
lemma partLoop_body_delimiter_in_line {nl : LineEnd} {B : Boundary} {lines : List String8}
    (hl : ∀ l ∈ lines, BreakFree l ∧ l ≠ []) (hP : ∃ l ∈ lines, delimiter B <:+: l)
    {a v bp : String8} {i : ℤ} (hi : i = a.length + 1) {st : FormState} {x : ℤ × FormState}
    (h : (partLoop uc dir (a ++ (headerText nl lines ++ v)) bp (delimiter B) nl.isCrlf).body (i, st)
      = some x) : x.2 = st.addCustomError 0 (str "missformed multipart entry") none := by
  have hin : delimiter B <:+: headerText nl lines := by
    have := (infix_headerText_iff (breakFree_delimiter B) nl lines []).mpr (Or.inl hP)
    rwa [List.append_nil] at this
  obtain ⟨k, hk⟩ := Text.exists_infixIndex hin
  obtain ⟨b, c, hbc, rfl, -⟩ := Text.exists_of_infixIndex hk
  have hm : Text.substring (a ++ (headerText nl lines ++ v)) i
      (i + b.length - 1 - nl.text.length) <+: headerText nl lines := by
    refine Text.substring_prefix_of_le _ _ _ hi ?_
    have hlen := congrArg List.length hbc
    simp only [List.length_append] at hlen
    omega
  rw [partLoop_body uc dir nl hi (Text.infixIndex_append hk v),
    analyzeMultipartFormInput_of_not_split (splitHeader_headerPart hl hm.isInfix),
    Option.map_some, Option.some.injEq] at h
  exact h ▸ rfl

/-- **A delimiter in a header line is an error.** -/
lemma partLoop_run_delimiter_in_line {nl : LineEnd} {B : Boundary} {parts : List FormPart}
    (hcontent : ∀ P ∈ parts, ¬ delimiter B <:+: P.content)
    (hparts : ∃ P ∈ parts, ∃ l ∈ P.lines, delimiter B <:+: l) (a : String8) {i j : ℤ}
    (hi : i = a.length + nl.text.length + 1) {n : ℕ} {st st' : FormState}
    (h : (partLoop uc dir (a ++ afterDelimiter nl B parts) (str "--") (delimiter B) nl.isCrlf).run n
      (i, st) = some (j, st')) : st.errors.length < st'.errors.length := by
  induction parts generalizing a i n st with
  | nil => simp at hparts
  | cons P parts ih =>
    have hs := append_afterDelimiter_cons nl B P parts a
    have hi' : i = (a ++ nl.text).length + 1 := by
      rw [List.length_append]
      omega
    by_cases hP : ∃ l ∈ P.lines, delimiter B <:+: l
    · obtain ⟨m, ⟨i₁, st₁⟩, rfl, hb, hr⟩ := partLoop_run_split (by omega) h
      rw [hs, FormPart.text, List.append_assoc (headerText nl P.lines)] at hb
      have hst := partLoop_body_delimiter_in_line P.lines_plain hP hi' hb
      have hle := (partLoop_errors hr).length_le
      simp only at hst
      rw [hst, errors_addCustomError, List.length_append] at hle
      simp only [List.length_singleton] at hle
      omega
    · have htext : ¬ delimiter B <:+: P.text nl :=
        not_infix_text (fun l hl h' => hP ⟨l, hl, h'⟩) (hcontent P (by simp))
      cases n with
      | zero =>
        obtain ⟨m, -, hm, -⟩ := partLoop_run_split (by omega) h
        cases hm
      | succ n =>
        rw [hs, partLoop_run_part uc dir htext hi'] at h
        obtain ⟨st₁, h₁, h₂⟩ := Option.bind_eq_some_iff.mp h
        rw [← hs, append_afterDelimiter_cons_rest] at h₂
        have hrest : ∃ Q ∈ parts, ∃ l ∈ Q.lines, delimiter B <:+: l := by
          obtain ⟨Q, hQ, hl⟩ := hparts
          rcases List.mem_cons.mp hQ with rfl | hQ
          · exact absurd hl hP
          · exact ⟨Q, hQ, hl⟩
        have hlt := ih (fun Q hQ => hcontent Q (by simp [hQ])) hrest _
          (by simp only [List.length_append]; omega) h₂
        exact lt_of_le_of_lt (errors_storeEntry h₁).length_le hlt

/-! ## Boundaries of dashes -/

lemma breakFree_dashes (k : ℕ) : BreakFree (List.replicate k (ch '-')) :=
  ⟨fun h => absurd (List.eq_of_mem_replicate h) (by decide),
    fun h => absurd (List.eq_of_mem_replicate h) (by decide)⟩

/-- The last three dashes of the closing delimiter are an error. -/
lemma partLoop_run_three_dashes {b : String8} {k : ℕ} (hb : b = List.replicate k (ch '-'))
    (hk : 0 < k) (nl : LineEnd) (a : String8) {i j : ℤ} (hi : i = a.length + 2) {n : ℕ}
    {st st' : FormState}
    (h : (partLoop uc dir (a ++ ch '-' :: (List.replicate 3 (ch '-') ++ nl.text)) [] b
      LineEnd.lf.isCrlf).run n (i, st) = some (j, st')) :
    st.errors.length < st'.errors.length := by
  have hi' : i = (a ++ [ch '-']).length + 1 := by
    rw [List.length_append, List.length_singleton]
    omega
  have hs : a ++ ch '-' :: (List.replicate 3 (ch '-') ++ nl.text) =
      (a ++ [ch '-']) ++ (List.replicate 3 (ch '-') ++ nl.text) := by simp
  obtain ⟨m, ⟨i₁, st₁⟩, rfl, hbody, hr⟩ := partLoop_run_split (by omega) h
  have hlt : st.errors.length < st₁.errors.length := by
    by_cases hk3 : k ≤ 3
    · -- the boundary is found again at once, and the entry before it is empty
      have hpre : b <+: List.replicate 3 (ch '-') ++ nl.text := by
        rw [hb]
        refine List.IsPrefix.trans ⟨List.replicate (3 - k) (ch '-'), ?_⟩ (List.prefix_append _ _)
        rw [List.replicate_append_replicate]
        congr 1
        omega
      have hempty : Text.substring ((a ++ [ch '-']) ++ (List.replicate 3 (ch '-') ++ nl.text)) i
          (i + ((0 : ℕ) : ℤ) - 1 - LineEnd.lf.text.length) = [] :=
        Text.substring_eq_nil_of_lt _ (by omega)
      rw [hs, partLoop_body uc dir .lf hi' (Text.infixIndex_eq_zero hpre), hempty,
        analyzeMultipartFormInput_of_not_split rfl, Option.map_some, Option.some.injEq] at hbody
      obtain ⟨-, rfl⟩ := Prod.mk.inj hbody
      simp [errors_addCustomError]
    · -- the dashes are too few for the boundary, and one too many for its empty prefix
      have hnot : ¬ b <:+: List.replicate 3 (ch '-') ++ nl.text := by
        rw [← List.append_nil nl.text, infix_lineEnd_iff (hb ▸ breakFree_dashes k)]
        rintro (h' | h') <;>
          · have hle := h'.length_le
            simp only [hb, List.length_replicate, List.length_nil] at hle
            omega
      have hnext : Text.substringIndex (a ++ ch '-' :: (List.replicate 3 (ch '-') ++ nl.text)) b i =
          0 := by
        rw [hs]
        exact Text.substringIndex_eq_zero hi' hnot
      have hm : Text.substring (a ++ ch '-' :: (List.replicate 3 (ch '-') ++ nl.text)) (i - 1)
          (a ++ ch '-' :: (List.replicate 3 (ch '-') ++ nl.text)).length =
            ch '-' :: (List.replicate 3 (ch '-') ++ nl.text) :=
        Text.substring_suffix _ _ (by omega) rfl
      have hne :
      [] ≠ Text.rightAdjust isSpace (ch '-' :: (List.replicate 3 (ch '-') ++ nl.text)) := by
        intro h'
        have hall := List.rdropWhile_eq_nil_iff.mp h'.symm
        exact absurd (hall (ch '-') (by simp)) (by decide)
      simp only [partLoop, LineEnd.isCrlf, hnext, Bool.false_eq_true, if_false, hm, if_neg hne,
        lt_irrefl, Option.some.injEq] at hbody
      obtain ⟨-, rfl⟩ := Prod.mk.inj hbody
      simp [errors_addCustomError]
  exact lt_of_lt_of_le hlt (partLoop_errors hr).length_le

/-- **A boundary of dashes only is an error**: the loop comes to the closing delimiter, reads the
boundary at its start and stops three dashes before its end.

**Proof sketch.** Induction on the fuel. The text `z` before the last line break is not left behind
before the closing delimiter is read, since the boundary has no line break. -/
lemma partLoop_run_dashes {b : String8} {k : ℕ} (hb : b = List.replicate k (ch '-')) (hk : 0 < k)
    (nl : LineEnd) (z : String8) {n : ℕ} {i j : ℤ} (hi : 1 ≤ i) (hz : i ≤ z.length + 2)
    {st st' : FormState}
    (h : (partLoop uc dir (z ++ lineFeed :: (b ++ (List.replicate 4 (ch '-') ++ nl.text))) [] b
      LineEnd.lf.isCrlf).run n (i, st) = some (j, st')) :
    st.errors.length < st'.errors.length := by
  induction n generalizing i st with
  | zero =>
    obtain ⟨m, -, hm, -⟩ := partLoop_run_split (by omega) h
    cases hm
  | succ n ih =>
    obtain ⟨m, ⟨i₁, st₁⟩, hm, hbody, hr⟩ := partLoop_run_split (by omega) h
    obtain rfl : n = m := by omega
    have hle := (partLoop_body_errors hbody).length_le
    suffices hlt : st₁.errors.length < st'.errors.length from lt_of_le_of_lt hle hlt
    have hlast : i₁ = z.length + 2 + k + 1 → st₁.errors.length < st'.errors.length := by
      intro hi₁
      have hs : z ++ lineFeed :: (b ++ (List.replicate 4 (ch '-') ++ nl.text)) =
          (z ++ lineFeed :: b) ++ ch '-' :: (List.replicate 3 (ch '-') ++ nl.text) := by
        simp [List.replicate_succ]
      rw [hs] at hr
      refine partLoop_run_three_dashes hb hk nl _ ?_ hr
      rw [hi₁, List.length_append, List.length_cons, hb, List.length_replicate]
      push_cast
      omega
    have hnext : ∀ {a u : String8} {q : ℕ}, i = a.length + 1 →
        z ++ lineFeed :: (b ++ (List.replicate 4 (ch '-') ++ nl.text)) = a ++ u →
        Text.infixIndex b u = some q → i₁ = i + q + k + 1 := by
      intro a u q ha hs hq
      rw [hs, partLoop_body uc dir .lf ha hq] at hbody
      obtain ⟨st₂, -, h₂⟩ := Option.map_eq_some_iff.mp hbody
      rw [← (Prod.mk.inj h₂).1, hb, List.length_replicate]
      rfl
    rcases Int.lt_or_eq_of_le hz with hz | hz
    · obtain ⟨a, w, rfl, ha⟩ : ∃ a w, z = a ++ w ∧ i = a.length + 1 :=
        ⟨z.take (i - 1).toNat, z.drop (i - 1).toNat, (List.take_append_drop _ z).symm, by
          rw [List.length_take]; omega⟩
      by_cases hw : b <:+: w
      · obtain ⟨q, hq⟩ := Text.exists_infixIndex hw
        obtain ⟨x, y, rfl, rfl, -⟩ := Text.exists_of_infixIndex hq
        have hi₁ := hnext ha (by rw [List.append_assoc])
          (Text.infixIndex_append hq (lineFeed :: (b ++ (List.replicate 4 (ch '-') ++ nl.text))))
        refine ih (by omega) ?_ hr
        simp only [List.length_append, hb, List.length_replicate]
        omega
      · have hbreak : lineFeed ∉ b := hb ▸ (breakFree_dashes k).2
        have hi₁ := hnext ha (by rw [List.append_assoc]) (Text.infixIndex_of_break hbreak hw)
        refine hlast ?_
        rw [hi₁, List.length_append]
        push_cast
        omega
    · have hi₁ := hnext (a := z ++ [lineFeed])
        (by rw [List.length_append, List.length_singleton]; omega)
        (by rw [List.append_assoc]; rfl) (Text.infixIndex_eq_zero (List.prefix_append b _))
      refine hlast ?_
      omega

variable {t : String8} {nl : LineEnd} {B : Boundary} {parts : List FormPart} {st st' : FormState}

/-- The closing delimiter of a form with a part starts a line. -/
lemma afterDelimiter_closing (nl : LineEnd) (B : Boundary) {parts : List FormPart}
    (hne : parts ≠ []) :
    ∃ z, afterDelimiter nl B parts = z ++ lineFeed :: (delimiter B ++ (str "--" ++ nl.text)) := by
  have hnl : ∃ x, nl.text = x ++ [lineFeed] := by
    cases nl with
    | crlf => exact ⟨[carriageReturn], rfl⟩
    | lf => exact ⟨[], rfl⟩
  obtain ⟨x, hx⟩ := hnl
  induction parts with
  | nil => exact absurd rfl hne
  | cons P parts ih =>
    rcases parts with _ | ⟨Q, parts⟩
    · refine ⟨nl.text ++ (P.text nl ++ x), ?_⟩
      rw [afterDelimiter, afterDelimiter]
      nth_rewrite 2 [hx]
      simp
    · obtain ⟨z, hz⟩ := ih (List.cons_ne_nil _ _)
      refine ⟨nl.text ++ (P.text nl ++ (nl.text ++ (delimiter B ++ z))), ?_⟩
      rw [afterDelimiter, hz]
      simp

lemma text_eq_replicate (hB : ∀ c ∈ B.text, c = ch '-') :
    B.text = List.replicate B.text.length (ch '-') := List.eq_replicate_iff.mpr ⟨rfl, hB⟩

/-- The two dashes of a delimiter may as well follow a boundary of dashes. -/
lemma delimiter_append_of_dashes (hB : ∀ c ∈ B.text, c = ch '-') (v : String8) :
    delimiter B ++ v = B.text ++ (str "--" ++ v) := by
  rw [delimiter, show str "--" = List.replicate 2 (ch '-') from rfl, text_eq_replicate hB,
    ← List.append_assoc, List.replicate_append_replicate, List.replicate_append_replicate,
    Nat.add_comm]

/-- The analysis of a body with a boundary of dashes: the prefix is empty, and the convention is
taken for LF. -/
lemma analyzeMultipartForm_of_dashes (ht : EndsWithBoundary t B) (hB : ∀ c ∈ B.text, c = ch '-')
    (v : String8) (st : FormState) :
    analyzeMultipartForm uc dir t (delimiter B ++ v) st =
      ((partLoop uc dir (delimiter B ++ v) [] B.text LineEnd.lf.isCrlf).run
        ((delimiter B ++ v).length + 2) (B.text.length + 2, st)).map Prod.snd := by
  obtain ⟨hpos, hsub⟩ := substring_boundary ht
  have hp : Text.substringIndex (delimiter B ++ v) B.text 1 = 1 + ((0 : ℕ) : ℤ) := by
    rw [delimiter_append_of_dashes hB]
    exact Text.substringIndex_eq (a := []) rfl (Text.infixIndex_eq_zero (List.prefix_append _ _))
  have hc : Text.item? (delimiter B ++ v) (B.text.length + 1) = some (ch '-') := by
    rw [delimiter_append_of_dashes hB]
    exact Text.item?_append_cons _ _ _ rfl
  have hcr : ch '-' ≠ carriageReturn := by decide
  have hi : 1 + (B.text.length : ℤ) + 1 = B.text.length + 2 := by omega
  simp only [analyzeMultipartForm, hsub, hp]
  rw [if_pos hpos, if_neg (by decide)]
  simp only [analyzeParts, hc, Option.bind_eq_bind, Option.bind_some, hcr, decide_false, if_false,
    hi, LineEnd.isCrlf]
  rw [Option.map_eq_bind]
  rfl

/-- A form with a boundary of dashes only is analysed with an error. -/
lemma errors_of_dashes (ht : EndsWithBoundary t B) (hB : ∀ c ∈ B.text, c = ch '-')
    (hne : parts ≠ [])
    (h : analyzeMultipartForm uc dir t (formBody nl B parts) st = some st') :
    st.errors.length < st'.errors.length := by
  obtain ⟨z, hz⟩ := afterDelimiter_closing nl B hne
  have hk : 0 < B.text.length := List.length_pos_iff.mpr B.ne_nil
  have hs : delimiter B ++ afterDelimiter nl B parts = (delimiter B ++ z) ++ lineFeed ::
      (B.text ++ (List.replicate 4 (ch '-') ++ nl.text)) := by
    rw [hz, delimiter_append_of_dashes hB (str "--" ++ nl.text), ← List.append_assoc (str "--"),
      List.append_assoc (delimiter B)]
    rfl
  rw [formBody, analyzeMultipartForm_of_dashes ht hB] at h
  obtain ⟨⟨j, st₁⟩, hr, rfl⟩ := Option.map_eq_some_iff.mp h
  have hlen : (delimiter B).length = 2 + B.text.length := List.length_append
  rw [hs] at hr
  refine partLoop_run_dashes (text_eq_replicate hB) hk nl (delimiter B ++ z) (by omega) ?_ hr
  rw [List.length_append, hlen]
  push_cast
  omega

/-- A form with a delimiter in a header line is analysed with an error. -/
lemma errors_of_delimiter_in_line (ht : EndsWithBoundary t B) (hB : ∃ c ∈ B.text, c ≠ ch '-')
    (hcontent : ∀ P ∈ parts, ¬ delimiter B <:+: P.content)
    (hparts : ∃ P ∈ parts, ∃ l ∈ P.lines, delimiter B <:+: l)
    (h : analyzeMultipartForm uc dir t (formBody nl B parts) st = some st') :
    st.errors.length < st'.errors.length := by
  obtain ⟨P, parts, rfl⟩ := List.exists_cons_of_ne_nil (l := parts) (by
    rintro rfl
    simp at hparts)
  rw [formBody, analyzeMultipartForm_of_delimiter uc dir ht hB, afterDelimiter, analyzeParts_eq,
    ← afterDelimiter] at h
  obtain ⟨⟨j, st₁⟩, hr, rfl⟩ := Option.map_eq_some_iff.mp h
  exact partLoop_run_delimiter_in_line hcontent hparts (delimiter B) rfl hr

/-- **The forms that are analysed without an error** are those in the LF convention whose boundary
has a character other than a dash, whose delimiter occurs in no header line and whose parts can be
stored.

**Proof sketch.** If the delimiter occurs between the parts only, the loop stores the parts in order
and adds the error of the ending in the CRLF convention. Otherwise a header is cut by a delimiter
in one of its lines, or the boundary consists of dashes: both are errors, and errors are only
added. -/
theorem addsNoError_iff (uc : UnicodeConversion) (dir : WorkingDirectory) (nl : LineEnd)
    (ht : EndsWithBoundary t B) (hne : parts ≠ [])
    (hcontent : ∀ P ∈ parts, ¬ delimiter B <:+: P.content) (st : FormState) :
    AddsNoError uc dir t (formBody nl B parts) st ↔
      nl = .lf ∧ (∃ c ∈ B.text, c ≠ ch '-') ∧
        (∀ P ∈ parts, ∀ l ∈ P.lines, ¬ delimiter B <:+: l) ∧ ∀ P ∈ parts, P.Stored dir := by
  by_cases hB : ∃ c ∈ B.text, c ≠ ch '-'
  · by_cases hlines : ∀ P ∈ parts, ∀ l ∈ P.lines, ¬ delimiter B <:+: l
    · have hparts : ∀ P ∈ parts, ¬ delimiter B <:+: P.text nl := fun P hP =>
        not_infix_text (hlines P hP) (hcontent P hP)
      rw [AddsNoError, analyzeMultipartForm_eq uc dir ht hB hne hparts]
      cases nl with
      | crlf =>
        constructor
        · rintro ⟨st', h', herr⟩
          obtain ⟨st₁, h₁, rfl⟩ := Option.map_eq_some_iff.mp h'
          have hle := (storeParts_errors h₁).length_le
          have hend : (ending .crlf st₁).errors.length = st₁.errors.length + 1 := by
            simp [ending, LineEnd.isCrlf, errors_addCustomError]
          rw [herr] at hend
          omega
        · rintro ⟨h, -⟩
          cases h
      | lf =>
        have hid : ending .lf = id := rfl
        rw [hid, Option.map_id, id, storeParts_errors_iff]
        exact ⟨fun h => ⟨rfl, hB, hlines, h⟩, fun h => h.2.2.2⟩
    · constructor
      · rintro ⟨st', h', herr⟩
        have hex : ∃ P ∈ parts, ∃ l ∈ P.lines, delimiter B <:+: l := by
          by_contra hno
          exact hlines fun P hP l hl h => hno ⟨P, hP, l, hl, h⟩
        have hlt := errors_of_delimiter_in_line ht hB hcontent hex h'
        rw [herr] at hlt
        exact absurd hlt (lt_irrefl _)
      · rintro ⟨-, -, h, -⟩
        exact absurd h hlines
  · constructor
    · rintro ⟨st', h', herr⟩
      have hall : ∀ c ∈ B.text, c = ch '-' := by
        intro c hc
        by_contra hne'
        exact hB ⟨c, hc, hne'⟩
      have hlt := errors_of_dashes ht hall hne h'
      rw [herr] at hlt
      exact absurd hlt (lt_irrefl _)
    · rintro ⟨-, h, -⟩
      exact absurd h hB

end Errors

/-- A form with one field, in the LF convention. -/
theorem addsNoError_lf :
    AddsNoError standardConversion ⟨str "/", false⟩ (str "multipart/form-data; boundary=x")
      (formBody .lf boundaryX [FormPart.field (str "a") (str "1") plain_a]) ⟨[], [], []⟩ := by
  refine (addsNoError_iff standardConversion _ .lf endsWithBoundary_x (List.cons_ne_nil _ _) ?_
    _).mpr
    ⟨rfl, by decide, ?_, ?_⟩
  · simp only [List.mem_singleton, forall_eq, ← Text.infixIndex_eq_none_iff]
    decide
  · simp only [List.mem_singleton, forall_eq, FormPart.lines, FormPart.field, 
      ← Text.infixIndex_eq_none_iff]
    decide
  · simp only [List.mem_singleton, forall_eq]
    refine ⟨fun h => absurd h ?_, fun _ => by decide⟩
    rw [FormPart.IsFile, ← Text.infixIndex_eq_none_iff]
    decide

/-- The same form in the CRLF convention is reported as invalid. -/
theorem not_addsNoError_crlf :
    EndsWithBoundary (str "multipart/form-data; boundary=x") boundaryX ∧
      ¬ delimiter boundaryX <:+: str "1" ∧
      ¬ AddsNoError standardConversion ⟨str "/", true⟩ (str "multipart/form-data; boundary=x")
        (formBody .crlf boundaryX [FormPart.field (str "a") (str "1") plain_a]) ⟨[], [], []⟩ := by
  refine ⟨endsWithBoundary_x, not_infix_of_length_le _ (by decide), ?_⟩
  rintro ⟨st', h, herr⟩
  have herrors : (analyzeMultipartForm standardConversion ⟨str "/", true⟩
      (str "multipart/form-data; boundary=x")
      (formBody .crlf boundaryX [FormPart.field (str "a") (str "1") plain_a])
      ⟨[], [], []⟩).map FormState.errors = some [⟨0, str "Invalid form data",
        some (asString32 (str "Invalid ending for form data from input"))⟩] := by decide +kernel
  rw [h, Option.map_some, herr] at herrors
  simp at herrors

end EiffelWeb
