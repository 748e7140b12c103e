import Mathlib.Data.List.Basic
import Mathlib.Tactic.Common
import EiffelWeb.Http.Header
import EiffelWeb.Search
import EiffelWeb.Wsf.AddValue

set_option relaxedAutoImplicit false
set_option autoImplicit false

/-!
# The multipart form analyser

The routines `analyze_multipart_form` and `analyze_multipart_form_input` of
`WSF_MULTIPART_FORM_DATA_HANDLER`. The first cuts the input at the boundary of the content type,
with what precedes the boundary at the start of the input as its prefix; the second cuts an entry
at its first blank line, reads the lines of its header one by one and stores its content.

An entry with a filename is saved by `save_uploaded_file`; of the file system the model keeps what
decides whether an error is added, the working directory.

## Main definitions

* `analyzeMultipartForm`, `analyzeMultipartFormInput` — the routines.
* `splitHeader` — an entry cut at its first blank line.

## Main results

* `blankLineLoop_run` — the first loop of an entry cuts it as `splitHeader` does.
* `headerLoop_run` — the second loop reads the lines in order.
* `errors_analyzeMultipartFormInput` — errors are only added.
-/

namespace EiffelWeb

/-- The character `%N`. -/
def lineFeed : Character8 := 10

/-- The character `%R`. -/
def carriageReturn : Character8 := 13

/-- `ERROR_CUSTOM`. -/
structure CustomError where
  /-- The code. -/
  code : ℤ
  /-- The name. -/
  name : String8
  /-- The message; it may be `Void`. -/
  message : Option String32
  deriving DecidableEq

/-- `WGI_UPLOADED_FILE_DATA`, as it is created. -/
structure UploadedFileData where
  /-- The filename as received. -/
  name : String8
  /-- The content type. -/
  contentType : String8
  /-- The size of the content. -/
  size : ℕ
  deriving DecidableEq

/-- The current working directory, where uploaded files are saved. -/
structure WorkingDirectory where
  /-- Its name. -/
  name : String8
  /-- It exists and is writable. -/
  isWritable : Bool

/-- What the analysis of a form changes: its variables, the uploaded files of the request and the
errors of the error handler. -/
structure FormState where
  /-- The variables. -/
  vars : ValueTable
  /-- `uploaded_files`. -/
  uploadedFiles : HashTable UploadedFileData String8
  /-- The errors of `error_handler`. -/
  errors : List CustomError

/-- `error_handler.add_custom_error (a_code, a_name, a_message)`. -/
def FormState.addCustomError (aCode : ℤ) (aName : String8) (aMessage : Option String32)
    (st : FormState) : FormState :=
  { st with errors := st.errors ++ [⟨aCode, aName, aMessage⟩] }

/-- `save_uploaded_file`, as far as the errors go. -/
def FormState.saveUploadedFile (dir : WorkingDirectory) (st : FormState) : FormState :=
  if dir.isWritable then st
  else st.addCustomError 0 (str "Directory not writable") (asString32
    (str "Can not create file in directory \"" ++ dir.name ++ str "\""))

/-! ## Entries -/

/-- The loop of `analyze_multipart_form_input` that looks for the blank line, over the position and
the header and content found. -/
def blankLineLoop (s : String8) : Loop (ℤ × Option (String8 × String8)) where
  exit st := s.length < st.1 || st.2.isSome
  body st :=
    let n : ℤ := s.length
    let p := st.1
    if Text.item s p = carriageReturn then
      if p + 3 ≤ n ∧ Text.item s (p + 1) = lineFeed ∧ Text.item s (p + 2) = carriageReturn ∧
          Text.item s (p + 3) = lineFeed then
        some (p + 1, some (Text.substring s 1 (p + 1), Text.substring s (p + 4) n))
      else some (p + 1, st.2)
    else if Text.item s p = lineFeed then
      if p + 1 ≤ n ∧ Text.item s (p + 1) = lineFeed then
        some (p + 1, some (Text.substring s 1 p, Text.substring s (p + 2) n))
      else some (p + 1, st.2)
    else some (p + 1, st.2)

/-- What the header of an entry says. -/
structure EntryHeader where
  /-- `l_name`. -/
  name : Option String8 := none
  /-- `l_filename`. -/
  filename : Option String8 := none
  /-- `l_content_type`. -/
  contentType : Option String8 := none

/-- The value of a parameter `key` of a line: up to the next quote, or up to the next semicolon.
The positions are those of the line, the value is taken from the header. -/
def parameterValue (key lHeader lLine : String8) : Option String8 :=
  let p := Text.substringIndex lLine key 1
  if 0 < p then
    let p := p + (key.length - 1)
    if Text.validIndex lLine (p + 1) ∧ Text.item lLine (p + 1) = ch '"' then
      let p := p + 1
      let e := Text.indexOf lLine (ch '"') (p + 1)
      some (Text.substring lHeader (p + 1) (e - 1))
    else
      let e := Text.indexOf lLine (ch ';') (p + 1)
      let e := if e = 0 then (lLine.length : ℤ) else e
      some (Text.substring lHeader (p + 1) (e - 1))
  else none

/-- A line of the header. -/
def EntryHeader.read (lHeader lLine : String8) (h : EntryHeader) : EntryHeader :=
  if str "Content-Disposition: form-data" <+: lLine then
    { h with
      name := (parameterValue (str "name=") lHeader lLine).or h.name
      filename := (parameterValue (str "filename=") lHeader lLine).or h.filename }
  else if str "Content-Type: " <+: lLine then
    { h with contentType := some (Text.substring lLine 15 lLine.length) }
  else h

/-- The loop of `analyze_multipart_form_input` over the lines of the header. -/
def headerLoop (lHeader : String8) : Loop (ℤ × EntryHeader) where
  exit st := st.1 = 0 || lHeader.length < st.1
  body st :=
    let b := st.1
    let p := Text.indexOf lHeader lineFeed b
    if 0 < p then
      (Text.item? lHeader (p - 1)).map fun c =>
        if c = carriageReturn then
          let p := p - 1
          (p + 2, st.2.read lHeader (Text.substring lHeader b (p - 1)))
        else (p + 1, st.2.read lHeader (Text.substring lHeader b (p - 1)))
    else some (0, st.2)

/-- `default_content_type`. -/
def defaultContentType : String8 := str "text/plain"

section Routines

variable (uc : UnicodeConversion) (dir : WorkingDirectory)

/-- The end of `analyze_multipart_form_input`: an entry with a header `h` and content `lContent`. -/
def storeEntry (h : EntryHeader) (lContent : String8) (st : FormState) : Option FormState :=
  match h.name, h.filename with
  | some lName, some lFilename =>
    let info : UploadedFileData :=
      ⟨lFilename, h.contentType.getD defaultContentType, lContent.length⟩
    let st := st.saveUploadedFile dir
    some { st with uploadedFiles := st.uploadedFiles.force info lName }
  | some lName, none =>
    (addValueToTable uc lName lContent st.vars).map fun vars => { st with vars := vars }
  | none, _ => some (st.addCustomError 0 (str "unamed multipart entry") none)

/-- `analyze_multipart_form_input (req, s, vars)`: `none` if an index is out of range, or a call in
it does not return. -/
def analyzeMultipartFormInput (s : String8) (st : FormState) : Option FormState := do
  let (_, found) ← (blankLineLoop s).run (s.length + 1) (1, none)
  match found with
  | some (lHeader, lContent) =>
    let (_, h) ← (headerLoop lHeader).run (lHeader.length + 1) (1, {})
    storeEntry uc dir h lContent st
  | none => some (st.addCustomError 0 (str "missformed multipart entry") none)

/-! ## Forms -/

/-- The loop of `analyze_multipart_form`, over the position and the state. -/
def partLoop (s lBoundaryPrefix lBoundary : String8) (isCrlf : Bool) : Loop (ℤ × FormState) where
  exit st := st.1 = 0
  body st :=
    let i := st.1
    let nextB := Text.substringIndex s lBoundary i
    if 0 < nextB then
      let m :=
        if isCrlf then Text.substring s i (nextB - 1 - 2) else Text.substring s i (nextB - 1 - 1)
      (analyzeMultipartFormInput uc dir m st.2).map fun st' =>
        let i := nextB + lBoundary.length + 1
        (if isCrlf then i + 1 else i, st')
    else
      let i := if isCrlf then i + 1 else i
      let m := Text.rightAdjust isSpace (Text.substring s (i - 1) s.length)
      some (nextB,
        if lBoundaryPrefix = m then st.2
        else st.2.addCustomError 0 (str "Invalid form data")
          (asString32 (str "Invalid ending for form data from input")))

/-- `analyze_multipart_form` from the boundary on: `l_boundary_prefix` and `l_boundary` are
known. -/
def analyzeParts (s lBoundaryPrefix lBoundary : String8) (st : FormState) : Option FormState := do
  let c ← Text.item? s (lBoundary.length + 1)
  let isCrlf := c = carriageReturn
  let i : ℤ := 1 + lBoundary.length + 1
  let (_, st') ← (partLoop uc dir s lBoundaryPrefix lBoundary isCrlf).run (s.length + 2)
    (if isCrlf then i + 1 else i, st)
  some st'

/-- `analyze_multipart_form (req, t, s, vars)`: `none` if an index is out of range, or a call in it
does not return. -/
def analyzeMultipartForm (t s : String8) (st : FormState) : Option FormState :=
  let p := Text.substringIndex t (str "boundary=") 1
  if 0 < p then
    let lBoundary := Text.substring t (p + 9) t.length
    let p := Text.substringIndex s lBoundary 1
    if 1 < p then
      let lBoundaryPrefix := Text.substring s 1 (p - 1)
      analyzeParts uc dir s lBoundaryPrefix (lBoundaryPrefix ++ lBoundary) st
    else analyzeParts uc dir s [] lBoundary st
  else some st

end Routines

/-! ## The blank line of an entry -/

/-- A text cut at its first blank line, into a header with the end of its last line and a
content. -/
def splitHeader : String8 → Option (String8 × String8)
  | [] => none
  | x :: u =>
    if crlf ++ crlf <+: x :: u then some (crlf, u.drop 3)
    else if [lineFeed, lineFeed] <+: x :: u then some ([lineFeed], u.drop 1)
    else (splitHeader u).map fun r => (x :: r.1, r.2)

lemma item_drop (a u : String8) (k : ℕ) {i : ℤ} (hi : i = a.length + 1 + k) :
    Text.item (a ++ u) i = (u.drop k).headI := by
  have hn : (i - 1).toNat = a.length + k := by omega
  rw [Text.item, hn, ← List.drop_drop, List.drop_left]

/-- The condition of the loop at a carriage return. -/
lemma crlf_prefix_iff {a u : String8} {p : ℤ} (hp : p = a.length + 1) :
    (Text.item (a ++ u) p = carriageReturn ∧ p + 3 ≤ (a ++ u).length ∧
      Text.item (a ++ u) (p + 1) = lineFeed ∧ Text.item (a ++ u) (p + 2) = carriageReturn ∧
      Text.item (a ++ u) (p + 3) = lineFeed) ↔ crlf ++ crlf <+: u := by
  rw [item_drop a u 0 (by omega), item_drop a u 1 (by omega), item_drop a u 2 (by omega),
    item_drop a u 3 (by omega), List.length_append]
  constructor
  · rintro ⟨h₀, hlen, h₁, h₂, h₃⟩
    rcases u with _ | ⟨x, _ | ⟨y, _ | ⟨z, _ | ⟨w, u⟩⟩⟩⟩
    case cons.cons.cons.cons =>
      obtain rfl : x = carriageReturn := h₀
      obtain rfl : y = lineFeed := h₁
      obtain rfl : z = carriageReturn := h₂
      obtain rfl : w = lineFeed := h₃
      exact ⟨u, rfl⟩
    all_goals
      simp only [List.length_nil, List.length_cons] at hlen
      omega
  · rintro ⟨v, rfl⟩
    refine ⟨rfl, ?_, rfl, rfl, rfl⟩
    rw [List.length_append, show (crlf ++ crlf).length = 4 from rfl]
    omega

/-- The condition of the loop at a line feed. -/
lemma lineFeed_prefix_iff {a u : String8} {p : ℤ} (hp : p = a.length + 1) :
    (Text.item (a ++ u) p = lineFeed ∧ p + 1 ≤ (a ++ u).length ∧
      Text.item (a ++ u) (p + 1) = lineFeed) ↔ [lineFeed, lineFeed] <+: u := by
  rw [item_drop a u 0 (by omega), item_drop a u 1 (by omega), List.length_append]
  constructor
  · rintro ⟨h₀, hlen, h₁⟩
    rcases u with _ | ⟨x, _ | ⟨y, u⟩⟩
    case cons.cons =>
      obtain rfl : x = lineFeed := h₀
      obtain rfl : y = lineFeed := h₁
      exact ⟨u, rfl⟩
    all_goals
      simp only [List.length_nil, List.length_cons] at hlen
      omega
  · rintro ⟨v, rfl⟩
    refine ⟨rfl, ?_, rfl⟩
    rw [List.length_append, show [lineFeed, lineFeed].length = 2 from rfl]
    omega

/-- One iteration: the blank line starts here, or the search goes on. -/
lemma blankLineLoop_body (a : String8) (x : Character8) (u : String8) {p : ℤ}
    (hp : p = a.length + 1) :
    (blankLineLoop (a ++ x :: u)).body (p, none) = some (p + 1,
      if crlf ++ crlf <+: x :: u then some (a ++ crlf, u.drop 3)
      else if [lineFeed, lineFeed] <+: x :: u then some (a ++ [lineFeed], u.drop 1) else none) := by
  have hcr := crlf_prefix_iff (u := x :: u) hp
  have hlf := lineFeed_prefix_iff (u := x :: u) hp
  simp only [blankLineLoop]
  by_cases h₁ : crlf ++ crlf <+: x :: u
  · obtain ⟨hx, hrest⟩ := hcr.mpr h₁
    rw [if_pos hx, if_pos hrest, if_pos h₁]
    obtain ⟨t, ht⟩ := h₁
    rw [← ht]
    obtain rfl : u = lineFeed :: (crlf ++ t) := (List.cons.inj ht).2.symm
    have h₂ : Text.substring (a ++ (crlf ++ crlf ++ t)) 1 (p + 1) = a ++ crlf := by
      rw [show a ++ (crlf ++ crlf ++ t) = (a ++ crlf) ++ (crlf ++ t) by simp]
      exact Text.substring_prefix _ _ (by simp [crlf]; omega)
    have h₃ : Text.substring (a ++ (crlf ++ crlf ++ t)) (p + 4) (a ++ (crlf ++ crlf ++ t)).length
        = t := by
      rw [show a ++ (crlf ++ crlf ++ t) = (a ++ crlf ++ crlf) ++ t by simp]
      exact Text.substring_suffix _ _ (by simp [crlf]; omega) rfl
    rw [h₂, h₃]
    rfl
  · rw [if_neg h₁]
    by_cases h₂ : [lineFeed, lineFeed] <+: x :: u
    · obtain ⟨hx, hrest⟩ := hlf.mpr h₂
      have hne : lineFeed ≠ carriageReturn := by decide
      rw [hx, if_neg hne, if_pos rfl, if_pos hrest, if_pos h₂]
      obtain ⟨t, ht⟩ := h₂
      rw [← ht]
      obtain rfl : u = lineFeed :: t := (List.cons.inj ht).2.symm
      have h₃ : Text.substring (a ++ ([lineFeed, lineFeed] ++ t)) 1 p = a ++ [lineFeed] := by
        rw [show a ++ ([lineFeed, lineFeed] ++ t) = (a ++ [lineFeed]) ++ (lineFeed :: t) by simp]
        exact Text.substring_prefix _ _ (by simp; omega)
      have h₄ : Text.substring (a ++ ([lineFeed, lineFeed] ++ t)) (p + 2)
          (a ++ ([lineFeed, lineFeed] ++ t)).length = t := by
        rw [show a ++ ([lineFeed, lineFeed] ++ t) = (a ++ [lineFeed, lineFeed]) ++ t by simp]
        exact Text.substring_suffix _ _ (by simp; omega) rfl
      rw [h₃, h₄]
      rfl
    · rw [if_neg h₂]
      split_ifs with hx hrest hx' hrest
      · exact absurd (hcr.mp ⟨hx, hrest⟩) h₁
      · rfl
      · exact absurd (hlf.mp ⟨hx', hrest⟩) h₂
      · rfl
      · rfl

/-- **The first loop cuts the entry at its first blank line.** -/
lemma blankLineLoop_run (a u : String8) {p : ℤ} (hp : p = a.length + 1) {n : ℕ}
    (hn : u.length < n) :
    ∃ q, (blankLineLoop (a ++ u)).run n (p, none) =
      some (q, (splitHeader u).map fun r => (a ++ r.1, r.2)) := by
  induction u generalizing a p n with
  | nil =>
    have he : (blankLineLoop (a ++ [])).exit (p, none) = true := by
      simp only [blankLineLoop, List.append_nil, Option.isSome_none, Bool.or_false,
        decide_eq_true_eq]
      omega
    exact ⟨p, Loop.run_of_exit he n⟩
  | cons x u ih =>
    obtain ⟨n, rfl⟩ : ∃ k, n = k + 1 := ⟨n - 1, by omega⟩
    have he : (blankLineLoop (a ++ x :: u)).exit (p, none) = false := by
      simp only [blankLineLoop, List.length_append, List.length_cons, Option.isSome_none,
        Bool.or_false, decide_eq_false_iff_not]
      omega
    rw [Loop.run_succ he (blankLineLoop_body a x u hp)]
    have hfound : ∀ v, (blankLineLoop (a ++ x :: u)).run n (p + 1, some v) =
        some (p + 1, some v) := fun v => Loop.run_of_exit (by simp [blankLineLoop]) n
    by_cases h₁ : crlf ++ crlf <+: x :: u
    · refine ⟨p + 1, ?_⟩
      simp only [if_pos h₁, splitHeader, hfound, Option.map_some]
    · by_cases h₂ : [lineFeed, lineFeed] <+: x :: u
      · refine ⟨p + 1, ?_⟩
        simp only [if_neg h₁, if_pos h₂, splitHeader, hfound, Option.map_some]
      · simp only [if_neg h₁, if_neg h₂, splitHeader]
        have hs : a ++ x :: u = (a ++ [x]) ++ u := by simp
        rw [List.length_cons] at hn
        obtain ⟨q, hq⟩ := ih (a ++ [x]) (p := p + 1) (by simp; omega) (n := n) (by omega)
        refine ⟨q, ?_⟩
        rw [hs, hq, Option.map_map]
        simp [Function.comp_def]

/-! ## The lines of a header -/

/-- The two conventions for the end of a line. -/
inductive LineEnd where
  /-- `%R%N`. -/
  | crlf
  /-- `%N`. -/
  | lf
  deriving DecidableEq

/-- The end of a line. -/
def LineEnd.text : LineEnd → String8
  | .crlf => EiffelWeb.crlf
  | .lf => [lineFeed]

/-- The flag `is_crlf`. -/
def LineEnd.isCrlf : LineEnd → Bool
  | .crlf => true
  | .lf => false

/-- Text without an end of line. -/
def BreakFree (l : String8) : Prop := carriageReturn ∉ l ∧ lineFeed ∉ l

instance (l : String8) : Decidable (BreakFree l) := inferInstanceAs (Decidable (_ ∧ _))

lemma breakFree_append {a b : String8} : BreakFree (a ++ b) ↔ BreakFree a ∧ BreakFree b := by
  simp only [BreakFree, List.mem_append, not_or]
  tauto

lemma BreakFree.of_subset {a b : String8} (hb : BreakFree b) (h : a ⊆ b) : BreakFree a :=
  ⟨fun h' => hb.1 (h h'), fun h' => hb.2 (h h')⟩

/-- Lines, each with its end. -/
def headerText (nl : LineEnd) (lines : List String8) : String8 := lines.flatMap (· ++ nl.text)

lemma headerText_cons (nl : LineEnd) (l : String8) (lines : List String8) :
    headerText nl (l :: lines) = l ++ (nl.text ++ headerText nl lines) := by
  simp [headerText]

lemma LineEnd.length_text_pos (nl : LineEnd) : 0 < nl.text.length := by cases nl <;> decide

/-- A line of a header, with the end it has. -/
structure HeaderLine where
  /-- The text without the end. -/
  text : String8
  /-- The end. -/
  lineEnd : LineEnd
  deriving DecidableEq

/-- The text is what is cut out before the end: it has no line feed, and the last character before
a single line feed is no carriage return. -/
def HeaderLine.IsLine (l : HeaderLine) : Prop :=
  lineFeed ∉ l.text ∧ (l.lineEnd = .lf → ¬ [carriageReturn] <:+ l.text)

instance (l : HeaderLine) : Decidable l.IsLine := inferInstanceAs (Decidable (_ ∧ _))

/-- Lines of which each has an end of its own. -/
def linesText (lines : List HeaderLine) : String8 :=
  lines.flatMap fun l => l.text ++ l.lineEnd.text

lemma linesText_cons (l : HeaderLine) (lines : List HeaderLine) :
    linesText (l :: lines) = l.text ++ (l.lineEnd.text ++ linesText lines) := by
  simp [linesText]

lemma linesText_map (nl : LineEnd) (lines : List String8) :
    linesText (lines.map fun l => ⟨l, nl⟩) = headerText nl lines := by
  simp [linesText, headerText, List.flatMap_map]

lemma length_le_length_linesText (lines : List HeaderLine) :
    lines.length ≤ (linesText lines).length := by
  induction lines with
  | nil => exact le_rfl
  | cons l lines ih =>
    have hpos := l.lineEnd.length_text_pos
    rw [linesText_cons]
    simp only [List.length_cons, List.length_append]
    omega

lemma length_le_length_headerText (nl : LineEnd) (lines : List String8) :
    lines.length ≤ (headerText nl lines).length := by
  rw [← linesText_map]
  simpa using length_le_length_linesText (lines.map fun l => ⟨l, nl⟩)

lemma isLine_of_breakFree {l : String8} (hl : BreakFree l) (nl : LineEnd) :
    HeaderLine.IsLine ⟨l, nl⟩ :=
  ⟨hl.2, fun _ h => hl.1 (h.subset (List.mem_singleton_self _))⟩

lemma LineEnd.exists_text_eq (nl : LineEnd) : ∃ a, nl.text = a ++ [lineFeed] := by
  cases nl with
  | crlf => exact ⟨[carriageReturn], rfl⟩
  | lf => exact ⟨[], rfl⟩

/-- One iteration reads the line at its position, if there is a character before its line feed. -/
lemma headerLoop_body {l : HeaderLine} (hl : lineFeed ∉ l.text) (a r : String8)
    (hlast : l.lineEnd = .lf → ∃ b y, a ++ l.text = b ++ [y] ∧ y ≠ carriageReturn)
    (h : EntryHeader) {i : ℤ} (hi : i = a.length + 1) :
    (headerLoop (a ++ (l.text ++ (l.lineEnd.text ++ r)))).body (i, h) =
      some (i + l.text.length + l.lineEnd.text.length,
        h.read (a ++ (l.text ++ (l.lineEnd.text ++ r))) l.text) := by
  obtain ⟨l, nl⟩ := l
  simp only at hl hlast ⊢
  cases nl with
  | crlf =>
    have hs : a ++ (l ++ (LineEnd.crlf.text ++ r)) =
        a ++ ((l ++ [carriageReturn]) ++ lineFeed :: r) := by
      simp [LineEnd.text, crlf, carriageReturn, lineFeed]
    have hp : Text.indexOf (a ++ (l ++ (LineEnd.crlf.text ++ r))) lineFeed i =
        i + l.length + 1 := by
      rw [hs, Text.indexOf_eq _ _ _ hi (by simpa [lineFeed, carriageReturn] using hl)]
      simp
      omega
    have hc : Text.item? (a ++ (l ++ (LineEnd.crlf.text ++ r))) (i + l.length + 1 - 1) =
        some carriageReturn := by
      rw [show a ++ (l ++ (LineEnd.crlf.text ++ r)) = (a ++ l) ++ carriageReturn :: lineFeed :: r by
        rw [hs]; simp]
      exact Text.item?_append_cons _ _ _ (by rw [List.length_append]; omega)
    have hline : Text.substring (a ++ (l ++ (LineEnd.crlf.text ++ r))) i (i + l.length + 1 - 1 - 1)
        = l := Text.substring_eq _ _ _ hi (by omega)
    have hnext : i + l.length + 1 - 1 + 2 = i + l.length + LineEnd.crlf.text.length := by
      rw [show LineEnd.crlf.text.length = 2 from rfl]
      omega
    simp only [headerLoop, hp, hc, Option.map_some, if_true, hline, hnext]
    rw [if_pos (by omega)]
  | lf =>
    obtain ⟨b, y, hby, hy⟩ := hlast rfl
    have hp : Text.indexOf (a ++ (l ++ (LineEnd.lf.text ++ r))) lineFeed i = i + l.length := by
      refine (Text.indexOf_eq a l r hi hl).trans ?_
      omega
    have hc : Text.item? (a ++ (l ++ (LineEnd.lf.text ++ r))) (i + l.length - 1) = some y := by
      have hlen := congrArg List.length hby
      rw [List.length_append, List.length_append, List.length_singleton] at hlen
      rw [← List.append_assoc, hby, List.append_assoc]
      exact Text.item?_append_cons _ _ _ (by omega)
    have hline : Text.substring (a ++ (l ++ (LineEnd.lf.text ++ r))) i (i + l.length - 1) = l :=
      Text.substring_eq _ _ _ hi (by omega)
    simp only [headerLoop, hp, hc, Option.map_some, if_neg hy, hline]
    rw [if_pos (by omega)]
    rfl

/-- **The second loop reads the lines in order.** An empty first line needs a line before it. -/
lemma headerLoop_run_lines {lines : List HeaderLine} (hl : ∀ l ∈ lines, l.IsLine) (a : String8)
    (ha : ∀ l ∈ lines.head?, l.lineEnd = .lf → l.text = [] → ∃ b, a = b ++ [lineFeed])
    (h : EntryHeader) {i : ℤ} (hi : i = a.length + 1) {n : ℕ} (hn : lines.length ≤ n) :
    ∃ q, (headerLoop (a ++ linesText lines)).run n (i, h) =
      some (q, lines.foldl (fun h l => h.read (a ++ linesText lines) l.text) h) := by
  induction lines generalizing a h i n with
  | nil =>
    have he : (headerLoop (a ++ linesText [])).exit (i, h) = true := by
      simp only [headerLoop, linesText, List.flatMap_nil, List.append_nil, Bool.or_eq_true,
        decide_eq_true_eq]
      omega
    exact ⟨i, Loop.run_of_exit he n⟩
  | cons l lines ih =>
    rw [List.length_cons] at hn
    obtain ⟨n, rfl⟩ : ∃ k, n = k + 1 := ⟨n - 1, by omega⟩
    have hpos := l.lineEnd.length_text_pos
    have he : (headerLoop (a ++ linesText (l :: lines))).exit (i, h) = false := by
      simp only [headerLoop, linesText_cons, List.length_append, Bool.or_eq_false_iff,
        decide_eq_false_iff_not]
      omega
    have hlast : l.lineEnd = .lf → ∃ b y, a ++ l.text = b ++ [y] ∧ y ≠ carriageReturn := by
      intro hlf
      rcases List.eq_nil_or_concat l.text with hnil | ⟨b, y, hby⟩
      · obtain ⟨b, hb⟩ := ha l rfl hlf hnil
        exact ⟨b, lineFeed, by rw [hnil, List.append_nil, hb], by decide⟩
      · rw [List.concat_eq_append] at hby
        refine ⟨a ++ b, y, by rw [hby, List.append_assoc], ?_⟩
        rintro rfl
        exact (hl l (by simp)).2 hlf ⟨b, hby.symm⟩
    have hb := headerLoop_body (hl l (by simp)).1 a (linesText lines) hlast h hi
    rw [← linesText_cons] at hb
    rw [Loop.run_succ he hb]
    have hs : a ++ linesText (l :: lines) =
        (a ++ l.text ++ l.lineEnd.text) ++ linesText lines := by
      simp [linesText_cons]
    rw [List.foldl_cons, hs]
    refine ih (fun l' hl' => hl l' (by simp [hl'])) (a ++ l.text ++ l.lineEnd.text) ?_ _ ?_
      (by omega)
    · intro _ _ _ _
      obtain ⟨b, hb⟩ := l.lineEnd.exists_text_eq
      exact ⟨a ++ l.text ++ b, by rw [hb, List.append_assoc (a ++ l.text)]⟩
    · simp only [List.length_append]
      omega

/-- Lines that end in the same way are read in order. -/
lemma headerLoop_run {nl : LineEnd} {lines : List String8} (hl : ∀ l ∈ lines, BreakFree l)
    (hne : nl = .lf → [] ∉ lines) (a : String8) (h : EntryHeader) {i : ℤ}
    (hi : i = a.length + 1) {n : ℕ} (hn : lines.length ≤ n) :
    ∃ q, (headerLoop (a ++ headerText nl lines)).run n (i, h) =
      some (q, lines.foldl (fun h l => h.read (a ++ headerText nl lines) l) h) := by
  have hlines : ∀ l ∈ lines.map fun l => HeaderLine.mk l nl, l.IsLine := by
    intro l hmem
    obtain ⟨t, ht, rfl⟩ := List.mem_map.mp hmem
    exact isLine_of_breakFree (hl t ht) nl
  have hfirst : ∀ l ∈ (lines.map fun l => HeaderLine.mk l nl).head?, l.lineEnd = .lf →
      l.text = [] → ∃ b, a = b ++ [lineFeed] := by
    intro l hmem hlf hnil
    obtain ⟨t, ht, rfl⟩ := List.mem_map.mp (List.mem_of_head? hmem)
    obtain rfl : t = [] := hnil
    exact absurd ht (hne hlf)
  obtain ⟨q, hq⟩ := headerLoop_run_lines hlines a hfirst h hi (n := n) (by simpa using hn)
  rw [linesText_map, List.foldl_map] at hq
  exact ⟨q, hq⟩

/-! ## Headers and contents -/

lemma splitHeader_cons_of_not {x : Character8} {u : String8}
    (h₁ : ¬ crlf ++ crlf <+: x :: u) (h₂ : ¬ [lineFeed, lineFeed] <+: x :: u) :
    splitHeader (x :: u) = (splitHeader u).map fun r => (x :: r.1, r.2) := by
  rw [splitHeader, if_neg h₁, if_neg h₂]

/-- There is nothing to cut in a text without a blank line. -/
lemma splitHeader_eq_none_iff {u : String8} :
    splitHeader u = none ↔ ¬ crlf ++ crlf <:+: u ∧ ¬ [lineFeed, lineFeed] <:+: u := by
  induction u with
  | nil => simp [splitHeader, crlf]
  | cons x u ih =>
    rw [List.infix_cons_iff, List.infix_cons_iff, splitHeader]
    by_cases h₁ : crlf ++ crlf <+: x :: u
    · simp [h₁]
    · by_cases h₂ : [lineFeed, lineFeed] <+: x :: u
      · simp [h₁, h₂]
      · simp [h₁, h₂, ih]

lemma splitHeader_of_isInfix {m u : String8} (h : m <:+: u) (hu : splitHeader u = none) :
    splitHeader m = none := by
  rw [splitHeader_eq_none_iff] at hu ⊢
  exact ⟨fun h' => hu.1 (h'.trans h), fun h' => hu.2 (h'.trans h)⟩

/-- The header is what the text starts with, the content is what it ends with. -/
lemma parts_of_splitHeader {u : String8} {r : String8 × String8} (h : splitHeader u = some r) :
    r.1 <+: u ∧ r.2 <:+ u := by
  induction u generalizing r with
  | nil => cases h
  | cons x u ih =>
    rw [splitHeader] at h
    split_ifs at h with h₁ h₂
    · obtain rfl := Option.some.inj h
      exact ⟨(List.prefix_append _ _).trans h₁, (List.drop_suffix _ u).trans (List.suffix_cons x u)⟩
    · obtain rfl := Option.some.inj h
      exact ⟨(List.prefix_append [lineFeed] [lineFeed]).trans h₂,
        (List.drop_suffix _ u).trans (List.suffix_cons x u)⟩
    · obtain ⟨r', hr', rfl⟩ := Option.map_eq_some_iff.mp h
      obtain ⟨hpre, hsuff⟩ := ih hr'
      exact ⟨List.cons_prefix_cons.mpr ⟨rfl, hpre⟩, hsuff.trans (List.suffix_cons x u)⟩

/-- Text without an end of line is a part of the header. -/
lemma splitHeader_append {l : String8} (hl : BreakFree l) (u : String8) :
    splitHeader (l ++ u) = (splitHeader u).map fun r => (l ++ r.1, r.2) := by
  induction l with
  | nil => simp
  | cons x l ih =>
    have hl' : BreakFree l := ⟨fun h => hl.1 (by simp [h]), fun h => hl.2 (by simp [h])⟩
    have h₁ : ¬ crlf ++ crlf <+: x :: (l ++ u) := by
      intro h
      have hx : carriageReturn = x := (List.cons_prefix_cons.mp h).1
      exact hl.1 (by simp [hx])
    have h₂ : ¬ [lineFeed, lineFeed] <+: x :: (l ++ u) := by
      intro h
      have hx : lineFeed = x := (List.cons_prefix_cons.mp h).1
      exact hl.2 (by simp [hx])
    rw [List.cons_append, splitHeader_cons_of_not h₁ h₂, ih hl', Option.map_map]
    rfl

lemma splitHeader_of_breakFree {m : String8} (hm : BreakFree m) : splitHeader m = none := by
  have h := splitHeader_append hm []
  rw [List.append_nil] at h
  exact h

lemma splitHeader_blank (nl : LineEnd) (u : String8) :
    splitHeader (nl.text ++ (nl.text ++ u)) = some (nl.text, u) := by
  cases nl with
  | crlf => exact if_pos ⟨u, rfl⟩
  | lf =>
    have h₁ : ¬ crlf ++ crlf <+: lineFeed :: (lineFeed :: u) := by
      intro h
      exact absurd (List.cons_prefix_cons.mp h).1 (by decide)
    have h₂ : [lineFeed, lineFeed] <+: lineFeed :: (lineFeed :: u) := ⟨u, rfl⟩
    exact (if_neg h₁).trans (if_pos h₂)

/-- The end of a line before another line is a part of the header. -/
lemma splitHeader_lineEnd (nl : LineEnd) {x : Character8} (hx : BreakFree [x]) (u : String8) :
    splitHeader (nl.text ++ x :: u) =
      (splitHeader (x :: u)).map fun r => (nl.text ++ r.1, r.2) := by
  have hcr : x ≠ carriageReturn := fun h => hx.1 (by simp [h])
  have hlf : x ≠ lineFeed := fun h => hx.2 (by simp [h])
  have h₁ : ¬ crlf ++ crlf <+: lineFeed :: x :: u := by
    intro h
    exact absurd (List.cons_prefix_cons.mp h).1 (by decide)
  have h₂ : ¬ [lineFeed, lineFeed] <+: lineFeed :: x :: u := by
    intro h
    exact hlf (List.cons_prefix_cons.mp (List.cons_prefix_cons.mp h).2).1.symm
  have hfeed := splitHeader_cons_of_not h₁ h₂
  cases nl with
  | lf => exact hfeed
  | crlf =>
    have h₃ : ¬ crlf ++ crlf <+: carriageReturn :: lineFeed :: x :: u := by
      intro h
      have h' := (List.cons_prefix_cons.mp (List.cons_prefix_cons.mp h).2).2
      exact hcr (List.cons_prefix_cons.mp h').1.symm
    have h₄ : ¬ [lineFeed, lineFeed] <+: carriageReturn :: lineFeed :: x :: u := by
      intro h
      exact absurd (List.cons_prefix_cons.mp h).1 (by decide)
    refine (splitHeader_cons_of_not h₃ h₄).trans ?_
    rw [hfeed, Option.map_map]
    rfl

section Lines

variable {nl : LineEnd} {lines : List String8}

/-- Lines are cut from the text behind them as a whole. -/
lemma splitHeader_lines (hl : ∀ l ∈ lines, BreakFree l ∧ l ≠ []) {l : String8} (hl₀ : BreakFree l)
    (u : String8) :
    splitHeader (headerText nl (l :: lines) ++ u) =
      (splitHeader (nl.text ++ u)).map fun r =>
        (l ++ (lines.flatMap (nl.text ++ ·) ++ r.1), r.2) := by
  induction lines generalizing l with
  | nil =>
    rw [headerText_cons, List.append_assoc, splitHeader_append hl₀]
    simp [headerText]
  | cons l' lines ih =>
    obtain ⟨hl', hne⟩ := hl l' (by simp)
    obtain ⟨x, l'', rfl⟩ := List.exists_cons_of_ne_nil hne
    have hx : BreakFree [x] :=
      ⟨fun h => hl'.1 (by simp_all), fun h => hl'.2 (by simp_all)⟩
    have htail := ih (fun k hk => hl k (by simp [hk])) hl'
    rw [headerText_cons, List.append_assoc, List.append_assoc, splitHeader_append hl₀,
      headerText_cons, List.cons_append, List.cons_append, splitHeader_lineEnd nl hx,
      ← List.cons_append, ← List.cons_append, ← headerText_cons, htail, Option.map_map,
      Option.map_map]
    simp [Function.comp_def]

lemma headerText_eq (nl : LineEnd) (l : String8) (lines : List String8) :
    headerText nl (l :: lines) = l ++ (lines.flatMap (nl.text ++ ·) ++ nl.text) := by
  induction lines generalizing l with
  | nil => simp [headerText]
  | cons l' lines ih =>
    rw [headerText_cons, ih]
    simp

/-- **A header is cut from its content.** -/
lemma splitHeader_headerText (hl : ∀ l ∈ lines, BreakFree l ∧ l ≠ []) (hne : lines ≠ [])
    (c : String8) :
    splitHeader (headerText nl lines ++ (nl.text ++ c)) = some (headerText nl lines, c) := by
  obtain ⟨l, lines, rfl⟩ := List.exists_cons_of_ne_nil hne
  rw [splitHeader_lines (fun k hk => hl k (by simp [hk])) (hl l (by simp)).1, splitHeader_blank,
    Option.map_some, ← headerText_eq]

/-- A part of a header has no blank line. -/
lemma splitHeader_headerPart (hl : ∀ l ∈ lines, BreakFree l ∧ l ≠ []) {m : String8}
    (hm : m <:+: headerText nl lines) : splitHeader m = none := by
  refine splitHeader_of_isInfix hm ?_
  rcases lines with _ | ⟨l, lines⟩
  · rfl
  · have h := @splitHeader_lines nl lines (fun k hk => hl k (List.mem_cons_of_mem l hk)) l
      (hl l (by simp)).1 []
    have hend : splitHeader nl.text = none := by cases nl <;> decide
    simpa [hend] using h

end Lines

/-! ## Entries as a whole -/

section Entries

variable {uc : UnicodeConversion} {dir : WorkingDirectory} {st st' : FormState}

/-- An entry is cut at its first blank line, its header is read and its content stored. -/
lemma analyzeMultipartFormInput_of_split {s lHeader lContent : String8} {q : ℤ} {h : EntryHeader}
    (hs : splitHeader s = some (lHeader, lContent))
    (hh : (headerLoop lHeader).run (lHeader.length + 1) (1, {}) = some (q, h)) :
    analyzeMultipartFormInput uc dir s st = storeEntry uc dir h lContent st := by
  obtain ⟨q', hq'⟩ := blankLineLoop_run [] s (p := 1) rfl (Nat.lt_succ_self s.length)
  rw [List.nil_append] at hq'
  simp [analyzeMultipartFormInput, hq', hs, hh]

/-- An entry without a blank line is an error. -/
lemma analyzeMultipartFormInput_of_not_split {s : String8} (hs : splitHeader s = none) :
    analyzeMultipartFormInput uc dir s st =
      some (st.addCustomError 0 (str "missformed multipart entry") none) := by
  obtain ⟨q', hq'⟩ := blankLineLoop_run [] s (p := 1) rfl (Nat.lt_succ_self s.length)
  rw [List.nil_append] at hq'
  simp [analyzeMultipartFormInput, hq', hs]

/-- An entry whose header is not read to its end is not stored. -/
lemma analyzeMultipartFormInput_eq_none {s lHeader lContent : String8}
    (hs : splitHeader s = some (lHeader, lContent))
    (hh : (headerLoop lHeader).run (lHeader.length + 1) (1, {}) = none) :
    analyzeMultipartFormInput uc dir s st = none := by
  obtain ⟨q', hq'⟩ := blankLineLoop_run [] s (p := 1) rfl (Nat.lt_succ_self s.length)
  rw [List.nil_append] at hq'
  simp [analyzeMultipartFormInput, hq', hs, hh]

/-- An entry without a name is an error. -/
lemma storeEntry_unnamed {h : EntryHeader} (hn : h.name = none) (lContent : String8) :
    storeEntry uc dir h lContent st =
      some (st.addCustomError 0 (str "unamed multipart entry") none) := by
  rw [storeEntry, hn]

lemma errors_addCustomError (aCode : ℤ) (aName : String8) (aMessage : Option String32)
    (st : FormState) : (st.addCustomError aCode aName aMessage).errors =
      st.errors ++ [⟨aCode, aName, aMessage⟩] := rfl

lemma errors_saveUploadedFile (dir : WorkingDirectory) (st : FormState) :
    st.errors <+: (st.saveUploadedFile dir).errors := by
  unfold FormState.saveUploadedFile
  split
  · exact List.prefix_rfl
  · exact List.prefix_append _ _

lemma errors_storeEntry {h : EntryHeader} {lContent : String8}
    (hs : storeEntry uc dir h lContent st = some st') : st.errors <+: st'.errors := by
  unfold storeEntry at hs
  split at hs
  · obtain rfl := Option.some.inj hs
    exact errors_saveUploadedFile dir st
  · obtain ⟨vars, -, rfl⟩ := Option.map_eq_some_iff.mp hs
    exact List.prefix_rfl
  · obtain rfl := Option.some.inj hs
    exact List.prefix_append _ _

/-- What an entry with a header does to the variables. -/
lemma vars_storeEntry {e : EntryHeader} {lContent : String8}
    (h : storeEntry uc dir e lContent st = some st') :
    st'.vars = st.vars ∨
      ∃ lName, e.name = some lName ∧ addValueToTable uc lName lContent st.vars = some st'.vars := by
  unfold storeEntry at h
  split at h
  · obtain rfl := Option.some.inj h
    left
    simp only [FormState.saveUploadedFile]
    split <;> rfl
  · next lName hn _ =>
    obtain ⟨vars, hv, rfl⟩ := Option.map_eq_some_iff.mp h
    exact Or.inr ⟨lName, hn, hv⟩
  · obtain rfl := Option.some.inj h
    exact Or.inl rfl

/-- What the analysis of an entry can do. -/
lemma analyzeMultipartFormInput_cases {s : String8}
    (h : analyzeMultipartFormInput uc dir s st = some st') :
    (splitHeader s = none ∧ st' = st.addCustomError 0 (str "missformed multipart entry") none) ∨
      ∃ lHeader lContent q e, splitHeader s = some (lHeader, lContent) ∧
        (headerLoop lHeader).run (lHeader.length + 1) (1, {}) = some (q, e) ∧
        storeEntry uc dir e lContent st = some st' := by
  rcases hs : splitHeader s with _ | ⟨lHeader, lContent⟩
  · rw [analyzeMultipartFormInput_of_not_split hs, Option.some.injEq] at h
    exact Or.inl ⟨rfl, h.symm⟩
  · rcases hh : (headerLoop lHeader).run (lHeader.length + 1) (1, {}) with _ | ⟨q, e⟩
    · rw [analyzeMultipartFormInput_eq_none hs hh] at h
      cases h
    · rw [analyzeMultipartFormInput_of_split hs hh] at h
      exact Or.inr ⟨lHeader, lContent, q, e, rfl, hh, h⟩

/-- **The analysis of an entry only adds errors.** -/
lemma errors_analyzeMultipartFormInput {s : String8}
    (h : analyzeMultipartFormInput uc dir s st = some st') : st.errors <+: st'.errors := by
  obtain ⟨-, rfl⟩ | ⟨lHeader, lContent, q, e, -, -, he⟩ := analyzeMultipartFormInput_cases h
  · exact List.prefix_append _ _
  · exact errors_storeEntry he

end Entries

end EiffelWeb
