import Mathlib.Data.List.Basic
import Mathlib.Tactic.Common
import EiffelWeb.Http.HeaderPut
import EiffelWeb.Wsf.MultipartForm

set_option relaxedAutoImplicit false
set_option autoImplicit false

/-!
# The name in the header of a part

`analyze_multipart_form_input` finds the parameter `name` in the line of the content disposition,
but cuts its value out of the whole header at the positions it has in the line. Where the value has
no quotes and ends the line, it is also cut one character too early. So what is read is the name
only if it is quoted or followed by another parameter, and the header has it in the columns where
the line has it; this is the case if the line comes first.

## Main definitions

* `storedName` — the name with which the analyser stores an entry.
* `FieldPart` — an entry with one content disposition among other header lines.

## Main results

* `exists_storedName` — an accepted entry is stored with `storedName`.
* `FieldPart.storedName_text` — the name is cut out of the header as a whole.
* `FieldPart.storedName_eq_iff` — when an accepted entry is stored with the name it has.
-/

namespace EiffelWeb

/-! ## The name of an entry -/

/-- `l_name`, when `analyze_multipart_form_input (req, s, vars)` stores the entry. -/
def storedName (s : String8) : Option String8 := do
  let (_, found) ← (blankLineLoop s).run (s.length + 1) (1, none)
  let (lHeader, _) ← found
  let (_, h) ← (headerLoop lHeader).run (lHeader.length + 1) (1, {})
  h.name

/-- A header that starts with a line feed is not read. -/
lemma headerLoop_run_lineFeed (r : String8) (e : EntryHeader) (n : ℕ) :
    (headerLoop (lineFeed :: r)).run (n + 1) (1, e) = none := by
  have hp : Text.indexOf (lineFeed :: r) lineFeed 1 = 1 := Text.indexOf_one_eq [] r (by simp)
  have he : (headerLoop (lineFeed :: r)).exit (1, e) = false := by
    simp only [headerLoop, List.length_cons, Bool.or_eq_false_iff, decide_eq_false_iff_not]
    omega
  have hb : (headerLoop (lineFeed :: r)).body (1, e) = none := by
    have hitem : Text.item? (lineFeed :: r) (1 - 1) = none := by simp [Text.item?, Text.validIndex]
    simp only [headerLoop, hp, hitem, Option.map_none]
    rfl
  rw [Loop.run_succ_of_not_exit he, hb]
  rfl

section Accepted

variable (uc : UnicodeConversion) (dir : WorkingDirectory) (st : FormState)

/-- The analyser accepts the entry: it stores it, without an error. -/
def Accepts (s : String8) : Prop :=
  ∃ st', analyzeMultipartFormInput uc dir s st = some st' ∧ st'.errors = st.errors

lemma storedName_of_split {s lHeader lContent : String8} {q : ℤ} {e : EntryHeader}
    (hs : splitHeader s = some (lHeader, lContent))
    (hh : (headerLoop lHeader).run (lHeader.length + 1) (1, {}) = some (q, e)) :
    storedName s = e.name := by
  obtain ⟨q', hq'⟩ := blankLineLoop_run [] s (p := 1) rfl (Nat.lt_succ_self s.length)
  rw [List.nil_append] at hq'
  simp [storedName, hq', hs, hh]

variable {uc dir st}

/-- **An accepted entry is stored with its name**: it is a variable or an uploaded file. -/
lemma exists_storedName {s : String8} (h : Accepts uc dir st s) :
    ∃ lName st', storedName s = some lName ∧ analyzeMultipartFormInput uc dir s st = some st' ∧
      ((∃ lContent, addValueToTable uc lName lContent st.vars = some st'.vars) ∨
        ∃ info, st'.uploadedFiles = st.uploadedFiles.force info lName) := by
  obtain ⟨st', h, herr⟩ := h
  have hne (aCode : ℤ) (aName : String8) (aMessage : Option String32) :
      (st.addCustomError aCode aName aMessage).errors ≠ st.errors := by simp [errors_addCustomError]
  obtain ⟨-, rfl⟩ | ⟨lHeader, lContent, q, e, hs, hh, he⟩ := analyzeMultipartFormInput_cases h
  · exact absurd herr (hne _ _ _)
  · rw [storedName_of_split hs hh]
    unfold storeEntry at he
    split at he
    · next lName lFilename hname hfile =>
      obtain rfl := Option.some.inj he
      refine ⟨lName, _, hname, h,
        Or.inr ⟨⟨lFilename, e.contentType.getD defaultContentType, lContent.length⟩, ?_⟩⟩
      simp only [FormState.saveUploadedFile]
      split <;> rfl
    · next lName hname hfile =>
      obtain ⟨vars, hv, rfl⟩ := Option.map_eq_some_iff.mp he
      exact ⟨lName, _, hname, h, Or.inl ⟨lContent, hv⟩⟩
    · obtain rfl := Option.some.inj he
      exact absurd herr (hne _ _ _)

end Accepted

/-! ## Content dispositions -/

lemma isLine_append {a b : String8} {nl : LineEnd} (ha : BreakFree a)
    (hb : HeaderLine.IsLine ⟨b, nl⟩) : HeaderLine.IsLine ⟨a ++ b, nl⟩ := by
  constructor
  · exact List.not_mem_append ha.2 hb.1
  · intro hlf hcr
    rcases List.eq_nil_or_concat b with rfl | ⟨b', y, rfl⟩
    · rw [List.append_nil] at hcr
      exact ha.1 (hcr.subset (List.mem_singleton_self _))
    · rw [List.concat_eq_append, ← List.append_assoc] at hcr
      obtain ⟨-, hy⟩ := List.append_inj' hcr.choose_spec rfl
      rw [List.concat_eq_append, ← hy] at hb
      exact hb.2 hlf (List.suffix_append _ _)

/-- What a content disposition says before the value of its parameter `name`. -/
def beforeName : String8 := str "Content-Disposition: form-data; name="

lemma length_beforeName : beforeName.length = 37 := by decide

/-- A content disposition with the parameter `name`. -/
structure Disposition where
  /-- The value of the parameter. -/
  name : String8
  /-- The value is written between quotes. -/
  isQuoted : Bool
  /-- The parameters that follow. -/
  parameters : String8
  /-- The end of the line. -/
  lineEnd : LineEnd
  /-- The value is a token. -/
  name_token : IsToken name
  /-- There are no other parameters, or a semicolon is before them. -/
  parameters_separated : parameters = [] ∨ [ch ';'] <+: parameters
  /-- The parameters are on the line. -/
  parameters_isLine : HeaderLine.IsLine ⟨parameters, lineEnd⟩

namespace Disposition

variable (D : Disposition)

/-- The line before the name. -/
def opening : String8 := if D.isQuoted then beforeName ++ [ch '"'] else beforeName

/-- The line behind the name. -/
def closing : String8 := if D.isQuoted then ch '"' :: D.parameters else D.parameters

/-- The text of the line. -/
def text : String8 := D.opening ++ (D.name ++ D.closing)

/-- The line. -/
def line : HeaderLine := ⟨D.text, D.lineEnd⟩

lemma notMem_name {c : Character8} (hc : isTokenCharacter c = false) : c ∉ D.name := by
  intro hmem
  have htoken := List.all_eq_true.mp D.name_token.2 c hmem
  rw [hc] at htoken
  cases htoken

lemma beforeName_prefix (u : String8) : beforeName <+: D.opening ++ u := by
  unfold opening
  split
  · exact (List.prefix_append _ _).trans (List.prefix_append _ _)
  · exact List.prefix_append _ _

lemma isDisposition : str "Content-Disposition: form-data" <+: D.text := by
  have hpre : str "Content-Disposition: form-data" <+: beforeName := by decide
  exact hpre.trans (D.beforeName_prefix _)

lemma breakFree_name : BreakFree D.name :=
  ⟨D.notMem_name (by decide), D.notMem_name (by decide)⟩

lemma isLine_line : D.line.IsLine := by
  have hopen : BreakFree D.opening := by
    unfold opening
    split <;> decide
  have hclose : HeaderLine.IsLine ⟨D.closing, D.lineEnd⟩ := by
    unfold closing
    split
    · have hquote : BreakFree [ch '"'] := by decide
      exact isLine_append hquote D.parameters_isLine
    · exact D.parameters_isLine
  exact isLine_append hopen (isLine_append D.breakFree_name hclose)

/-! ### The value that is cut out -/

/-- The parameter is found behind the first semicolon. -/
lemma substringIndex_name : Text.substringIndex D.text (str "name=") 1 = 33 := by
  obtain ⟨u, hu⟩ := D.beforeName_prefix (D.name ++ D.closing)
  have hsplit : beforeName =
      str "Content-Disposition: form-data;" ++ ch ' ' :: (str "name=" ++ []) := by decide
  have hnot : ¬ str "name=" <:+: str "Content-Disposition: form-data;" := by
    rw [← Text.infixIndex_eq_none_iff]
    decide
  have hindex : Text.infixIndex (str "name=") D.text = some 32 := by
    rw [text, ← hu, hsplit, List.append_assoc, List.cons_append, List.append_assoc]
    exact Text.infixIndex_of_break (by decide) hnot
  exact Text.substringIndex_eq (a := []) (i := 1) rfl hindex

/-- Where the value ends for the analyser: one character early if the line ends there. -/
def valueEnd : ℤ :=
  D.opening.length + D.name.length - if D.isQuoted = true ∨ D.parameters ≠ [] then 0 else 1

/-- Behind the `=` there is no quote. -/
lemma item_name_ne (hq : D.isQuoted = false) : Text.item D.text 38 ≠ ch '"' := by
  obtain ⟨x, u, hname⟩ := List.exists_cons_of_ne_nil D.name_token.1
  have hx : x ≠ ch '"' := by
    rintro rfl
    exact D.notMem_name (by decide) (hname ▸ List.mem_cons_self)
  have hitem : Text.item D.text 38 = x := by
    rw [text, opening, hq, hname]
    exact Text.item_append_cons _ _ _ (by simp [length_beforeName])
  rw [hitem]
  exact hx

/-- The semicolon that the analyser looks for. -/
lemma indexOf_semicolon (hq : D.isQuoted = false) :
    Text.indexOf D.text (ch ';') 38 = if D.parameters = [] then 0 else 38 + D.name.length := by
  have hopen : D.text = beforeName ++ (D.name ++ D.parameters) := by
    simp [text, opening, closing, hq]
  have hsemi : ch ';' ∉ D.name := D.notMem_name (by decide)
  have hlen : (38 : ℤ) = beforeName.length + 1 := by rw [length_beforeName]; rfl
  rw [hopen]
  rcases D.parameters_separated with hnil | ⟨u, hu⟩
  · rw [if_pos hnil, hnil, List.append_nil]
    exact Text.indexOf_eq_zero _ _ hlen hsemi
  · have hne : D.parameters ≠ [] := by
      rw [← hu]
      exact List.cons_ne_nil _ _
    rw [if_neg hne, ← hu, List.singleton_append, Text.indexOf_eq _ _ _ hlen hsemi,
      length_beforeName]
    push_cast
    ring

/-- **The value is cut out of the header** at the positions it has in the line. -/
lemma parameterValue_text (lHeader : String8) :
    parameterValue (str "name=") lHeader D.text =
      some (Text.substring lHeader (D.opening.length + 1) D.valueEnd) := by
  cases hq : D.isQuoted with
  | true =>
    have htext : D.text =
        str "Content-Disposition: form-data; name=\"" ++ (D.name ++ ch '"' :: D.parameters) := by
      have hopen : beforeName ++ [ch '"'] = str "Content-Disposition: form-data; name=\"" := by
        decide
      simp [text, opening, closing, hq, hopen]
    have hlen : D.opening.length = 38 := by
      rw [opening, hq]
      decide
    rw [htext, parameterValue_name (D.notMem_name (by decide)), valueEnd, hlen, if_pos (Or.inl hq)]
    simp
  | false =>
    have hlen : D.opening.length = 37 := by
      rw [opening, hq]
      decide
    have htotal : (D.text.length : ℤ) = 37 + D.name.length + D.parameters.length := by
      simp [text, closing, hq, hlen, add_assoc]
    have hkey : (33 : ℤ) + ((str "name=").length - 1) = 37 := by decide
    have hnot : ¬ (Text.validIndex D.text (37 + 1) ∧ Text.item D.text (37 + 1) = ch '"') :=
      fun h => D.item_name_ne hq h.2
    simp only [parameterValue, D.substringIndex_name, hkey]
    rw [if_pos (by decide), if_neg hnot, show (37 : ℤ) + 1 = 38 from rfl, D.indexOf_semicolon hq,
      valueEnd, hlen]
    by_cases hp : D.parameters = []
    · simp [hp, hq, htotal]
    · have hpos : ((38 + D.name.length : ℕ) : ℤ) ≠ 0 := by omega
      have hend : ((38 + D.name.length : ℕ) : ℤ) - 1 = 37 + D.name.length := by omega
      rw [if_neg hp, if_neg hpos, if_pos (Or.inr hp), hend]
      simp

end Disposition

/-! ## Parts -/

/-- An entry with one content disposition among other header lines. -/
structure FieldPart where
  /-- The entry. -/
  text : String8
  /-- The header lines before the content disposition. -/
  before : List HeaderLine
  /-- The content disposition. -/
  disposition : Disposition
  /-- The header lines behind it. -/
  after : List HeaderLine
  /-- The content. -/
  content : String8
  /-- The lines are the header of the entry. -/
  split : splitHeader text =
    some (linesText (before ++ disposition.line :: after), content)
  /-- The other lines are no content dispositions. -/
  others : ∀ l ∈ before ++ after,
    l.IsLine ∧ ¬ str "Content-Disposition: form-data" <+: l.text

namespace FieldPart

variable (P : FieldPart)

/-- The header lines. -/
def lines : List HeaderLine := P.before ++ P.disposition.line :: P.after

/-- The header. -/
def header : String8 := linesText P.lines

lemma isLine_lines : ∀ l ∈ P.lines, l.IsLine := by
  intro l hl
  rw [lines, List.mem_append, List.mem_cons] at hl
  rcases hl with hl | rfl | hl
  · exact (P.others l (List.mem_append_left _ hl)).1
  · exact P.disposition.isLine_line
  · exact (P.others l (List.mem_append_right _ hl)).1

/-- The name of the entry is that of the content disposition, whatever the order of the lines. -/
lemma name_foldl_read :
    (P.lines.foldl (fun (h : EntryHeader) l => h.read P.header l.text) {}).name =
      parameterValue (str "name=") P.header P.disposition.text := by
  have hother (ls : List HeaderLine) (hls : ∀ l ∈ ls, l ∈ P.before ++ P.after) (e : EntryHeader) :
      (ls.foldl (fun h l => h.read P.header l.text) e).name = e.name := by
    have hnot : ∀ t ∈ ls.map HeaderLine.text, ¬ str "Content-Disposition: form-data" <+: t := by
      intro t ht
      obtain ⟨l, hl, rfl⟩ := List.mem_map.mp ht
      exact (P.others l (hls l hl)).2
    have hfold := (@EntryHeader.foldl_read P.header _ hnot e).1
    rw [List.foldl_map] at hfold
    exact hfold
  have hbefore := hother P.before (fun l hl => List.mem_append_left _ hl) {}
  rw [lines, List.foldl_append, List.foldl_cons,
    hother P.after (fun l hl => List.mem_append_right _ hl), EntryHeader.read, Disposition.line,
    if_pos P.disposition.isDisposition]
  simp [hbefore]

section Accepted

variable {P}
variable {uc : UnicodeConversion} {dir : WorkingDirectory} {st : FormState}

/-- The name is cut out of the header as a whole. -/
lemma storedName_text (h : Accepts uc dir st P.text) : storedName P.text =
    some (Text.substring P.header (P.disposition.opening.length + 1) P.disposition.valueEnd) := by
  obtain ⟨lName, st', -, han, -⟩ := exists_storedName h
  have hfirst : ∀ l ∈ P.lines.head?, l.lineEnd = .lf → l.text = [] →
      ∃ b, ([] : String8) = b ++ [lineFeed] := by
    intro l hl hlf hnil
    exfalso
    obtain ⟨ls, hls⟩ := List.head?_eq_some_iff.mp hl
    have hfeed : P.header = lineFeed :: linesText ls := by
      rw [header, hls, linesText_cons, hnil, hlf]
      rfl
    have hsplit : splitHeader P.text = some (P.header, P.content) := P.split
    have hrun : (headerLoop P.header).run (P.header.length + 1) (1, {}) = none := by
      rw [hfeed]
      exact headerLoop_run_lineFeed _ _ _
    rw [analyzeMultipartFormInput_eq_none hsplit hrun] at han
    cases han
  have hlen : P.lines.length ≤ P.header.length + 1 :=
    (length_le_length_linesText P.lines).trans (Nat.le_succ _)
  obtain ⟨q, hq⟩ := headerLoop_run_lines P.isLine_lines [] hfirst {} rfl hlen
  rw [List.nil_append] at hq
  rw [storedName_of_split P.split hq]
  have hname := P.name_foldl_read
  rw [P.disposition.parameterValue_text] at hname
  exact hname

/-- What is cut out is the name, if its end is found and the columns are right. -/
lemma substring_eq_name_iff :
    Text.substring P.header (P.disposition.opening.length + 1) P.disposition.valueEnd =
        P.disposition.name ↔
      (P.disposition.isQuoted = true ∨ P.disposition.parameters ≠ []) ∧
        P.disposition.name <+: P.header.drop P.disposition.opening.length := by
  have hrest : Text.RestAt P.header (P.disposition.opening.length + 1)
      (P.header.drop P.disposition.opening.length) := ⟨by omega, by simp⟩
  unfold Disposition.valueEnd
  by_cases hfound : P.disposition.isQuoted = true ∨ P.disposition.parameters ≠ []
  · rw [if_pos hfound, hrest.substring_eq_iff _ (by omega)]
    exact ⟨fun h => ⟨hfound, h⟩, fun h => h.2⟩
  · rw [if_neg hfound]
    refine iff_of_false ?_ fun h => hfound h.1
    intro heq
    have hpos := List.length_pos_iff.mpr P.disposition.name_token.1
    have hlen := congrArg List.length heq
    unfold Text.substring at hlen
    split at hlen
    · rw [List.length_take] at hlen
      omega
    · simp only [List.length_nil] at hlen
      omega

/-- A line that comes first has its name in the columns of the header. -/
lemma storedName_eq_iff_of_first (h : Accepts uc dir st P.text) (hfirst : P.before = []) :
    storedName P.text = some P.disposition.name ↔
      P.disposition.isQuoted = true ∨ P.disposition.parameters ≠ [] := by
  rw [storedName_text h, Option.some_inj, substring_eq_name_iff, and_iff_left]
  rw [header, lines, hfirst, List.nil_append, linesText_cons, Disposition.line, Disposition.text,
    List.append_assoc, List.append_assoc, List.drop_left]
  exact List.prefix_append _ _

/-- **Which names are kept.** An accepted entry with one content disposition is stored with the name
that is written there if and only if the name is quoted or has another parameter behind it, and the
header has the name in the columns in which the line has it. -/
theorem storedName_eq_iff (P : FieldPart) (h : Accepts uc dir st P.text) :
    storedName P.text = some P.disposition.name ↔
      (P.disposition.isQuoted = true ∨ P.disposition.parameters ≠ []) ∧
        P.disposition.name <+: P.header.drop P.disposition.opening.length := by
  rw [storedName_text h, Option.some_inj]
  exact substring_eq_name_iff

end Accepted

end FieldPart

/-! ## Two small parts -/

/-- The line with the name `ab` between quotes. -/
def quotedAb : Disposition :=
  ⟨str "ab", true, [], .crlf, by decide, Or.inl rfl, by decide⟩

/-- A line with a content type. -/
def plainType : HeaderLine := ⟨str "Content-Type: text/plain", .crlf⟩

/-- The line with the name comes first. -/
def nameFirst : FieldPart where
  text := linesText [quotedAb.line, plainType] ++ (crlf ++ str "x")
  before := []
  disposition := quotedAb
  after := [plainType]
  content := str "x"
  split := by decide +kernel
  others := by decide +kernel

/-- The line with the name comes behind the content type. -/
def nameSecond : FieldPart where
  text := linesText [plainType, quotedAb.line] ++ (crlf ++ str "x")
  before := [plainType]
  disposition := quotedAb
  after := []
  content := str "x"
  split := by decide +kernel
  others := by decide +kernel

lemma accepts_of_errors {uc : UnicodeConversion} {dir : WorkingDirectory} {st : FormState}
    {s : String8}
    (h : (analyzeMultipartFormInput uc dir s st).map FormState.errors = some st.errors) :
    Accepts uc dir st s := Option.map_eq_some_iff.mp h

lemma accepts_nameFirst :
    Accepts standardConversion ⟨str "/", true⟩ ⟨[], [], []⟩ nameFirst.text :=
  accepts_of_errors (by decide +kernel)

lemma accepts_nameSecond :
    Accepts standardConversion ⟨str "/", true⟩ ⟨[], [], []⟩ nameSecond.text :=
  accepts_of_errors (by decide +kernel)

namespace FieldPart

/-- A quoted name in the first line. -/
theorem storedName_nameFirst :
    Accepts standardConversion ⟨str "/", true⟩ ⟨[], [], []⟩ nameFirst.text ∧
      storedName nameFirst.text = some (str "ab") := by
  refine ⟨accepts_nameFirst, (storedName_eq_iff nameFirst accepts_nameFirst).mpr ⟨?_, ?_⟩⟩
  · exact Or.inl rfl
  · decide +kernel

/-- The same lines in the other order. -/
theorem not_storedName_nameSecond :
    ¬ ∀ (uc : UnicodeConversion) (dir : WorkingDirectory) (st : FormState) (P : FieldPart),
      Accepts uc dir st P.text → storedName P.text = some P.disposition.name := by
  intro h
  have hname := h standardConversion ⟨str "/", true⟩ ⟨[], [], []⟩ nameSecond accepts_nameSecond
  have hread : storedName nameSecond.text = some (str "os") := by decide +kernel
  rw [hread] at hname
  exact absurd hname (by decide)

end FieldPart

end EiffelWeb
