import Mathlib.Data.List.Basic
import Mathlib.Tactic.Common
import EiffelWeb.Http.Header
import EiffelWeb.Loop
import EiffelWeb.Search

set_option relaxedAutoImplicit false
set_option autoImplicit false

/-!
# The response a client receives

`set_header_and_body_to` cuts what a request received into the header and the body, and `headers`
reads the header line by line. Both work with positions in the text. The line reader skips white
space without looking at the end of the line, or of the text: reading the header returns nothing
when the white space behind the last colon runs to the end of the text.

## Main definitions

* `ClientResponse`, `ClientResponse.headers`, `setHeaderAndBodyTo`
* `skipSpaces`, `skipSpacesBack` — the loops that skip white space.
* `ClientHeader` — a name and a value that make up a header line.
* `responseText` — the text a server sends.

## Main results

* `headerLineLoop_run` — the header of some fields, the last of which has a value, is read back.
* `headerLineLoop_run_eq_none` — reading does not return if the last value is empty.
* `setHeaderAndBodyTo_cons`, `setHeaderAndBodyTo_nil` — where a response is cut.
* `takesApart_iff` — the responses that are taken apart as they were put together.
-/

namespace EiffelWeb

/-- The first position from `i` on that is no white space, in a text with the characters `s` from
`i` on; `none` if the loop leaves the text. -/
def skipSpacesAux (i : ℤ) : String8 → Option ℤ
  | [] => none
  | c :: s => if isSpace c then skipSpacesAux (i + 1) s else some i

/-- `from until not h[i].is_space loop i := i + 1 end`. -/
def skipSpaces (h : String8) (i : ℤ) : Option ℤ := skipSpacesAux i (h.drop (i - 1).toNat)

/-- The last position up to `i` that is no white space, in a text with the characters `s` from `i`
backwards; `none` if the loop leaves the text. -/
def skipSpacesBackAux (i : ℤ) : String8 → Option ℤ
  | [] => none
  | c :: s => if isSpace c then skipSpacesBackAux (i - 1) s else some i

/-- `from until not h[i].is_space loop i := i - 1 end`. -/
def skipSpacesBack (h : String8) (i : ℤ) : Option ℤ :=
  if Text.validIndex h i then skipSpacesBackAux i (h.take i.toNat).reverse else none

/-- One iteration of the loop of `headers`. -/
def headerStep (h : String8) (st : ℤ × List (String8 × String8)) :
    Option (ℤ × List (String8 × String8)) := do
  let (pos, tb) := st
  let lStart ← skipSpaces h pos
  let pos := Text.indexOf h 10 lStart
  let lEnd := if 0 < pos then pos - 1 else if lStart < h.length then h.length + 1 else 0
  if 0 < lEnd then
    let lEnd ← skipSpacesBack h lEnd
    let c := Text.indexOf h (ch ':') lStart
    if 0 < c then
      let k := Text.rightAdjust isSpace (Text.substring h lStart (c - 1))
      -- behind the end of `h` the exit test of this loop stays false
      let c ← skipSpaces h (c + 1)
      some (pos + 1, tb ++ [(k, Text.substring h c lEnd)])
    else some (pos + 1, tb)
  else some (pos + 1, tb)

/-- The loop of `headers`. -/
def headerLineLoop (h : String8) : Loop (ℤ × List (String8 × String8)) where
  exit st := st.1 = 0 || (h.length : ℤ) < st.1
  body := headerStep h

/-- `HTTP_CLIENT_RESPONSE`. -/
structure ClientResponse where
  /-- `raw_header`. -/
  rawHeader : String8 := []
  /-- `body`. -/
  body : Option String8 := none
  /-- `internal_headers`. -/
  internalHeaders : Option (List (String8 × String8)) := none

namespace ClientResponse

/-- `headers`: the result, and the response with the result cached. The loop over the lines may
run forever: it executes at most `fuel` iterations. -/
def headers (fuel : ℕ) (r : ClientResponse) : Option (List (String8 × String8) × ClientResponse) :=
  match r.internalHeaders with
  | some tb => some (tb, r)
  | none =>
    ((headerLineLoop r.rawHeader).run fuel (1, [])).map fun st =>
      (st.2, { r with internalHeaders := some st.2 })

/-- `set_raw_header (h)`. -/
def setRawHeader (r : ClientResponse) (h : String8) : ClientResponse :=
  { r with rawHeader := h, internalHeaders := none }

/-- `set_body (s)`. -/
def setBody (r : ClientResponse) (s : String8) : ClientResponse := { r with body := some s }

end ClientResponse

/-- `l_start < a_source.count and then a_source[l_start] = '%R' and a_source[l_start + 1] = '%N'`.
The second conjunction reads both characters. -/
def emptyLineAt (aSource : String8) (lStart : ℤ) : Option Bool :=
  if lStart < aSource.length then do
    let c ← Text.item? aSource lStart
    let d ← Text.item? aSource (lStart + 1)
    some (c = 13 && d = 10)
  else some false

/-- `set_header_and_body_to (a_source, res)`: the response afterwards. -/
def setHeaderAndBodyTo (aSource : String8) (res : ClientResponse) : Option ClientResponse := do
  let lStart := Text.substringIndex aSource crlf 1
  let lStart := if 0 < lStart then lStart + 2 else lStart
  let noHeader ← emptyLineAt aSource lStart
  if noHeader then some (res.setBody aSource)
  else
    let pos := Text.substringIndex aSource (crlf ++ crlf) lStart
    if 0 < pos then
      some ((res.setRawHeader (Text.substring aSource lStart (pos + 1))).setBody
        (Text.substring aSource (pos + 4) aSource.length))
    else some (res.setBody aSource)

/-! ## What a server sends -/

/-- A name and a value of a header: the name is not empty and has no colon and no white space, the
value is one line without white space at its ends. -/
structure ClientHeader where
  /-- The name. -/
  name : String8
  /-- The value. -/
  value : String8
  name_ne_nil : name ≠ []
  name_clean : ∀ c ∈ name, c ≠ ch ':' ∧ isSpace c = false
  value_line : ∀ c ∈ value, c ≠ 13 ∧ c ≠ 10
  value_head : ∀ c ∈ value.head?, isSpace c = false
  value_last : ∀ c ∈ value.getLast?, isSpace c = false

namespace ClientHeader

/-- The name and the value. -/
def pair (f : ClientHeader) : String8 × String8 := (f.name, f.value)

/-- `name: value`. -/
def text (f : ClientHeader) : String8 := f.name ++ (str ": " ++ f.value)

/-- The lines of a header. -/
def lines (fs : List ClientHeader) : String8 := fs.flatMap fun f => f.text ++ crlf

end ClientHeader

/-- A response as it is sent: the status line, the header, an empty line and the body. -/
def responseText (status : String8) (fs : List ClientHeader) (body : String8) : String8 :=
  status ++ (crlf ++ (ClientHeader.lines fs ++ (crlf ++ body)))

/-! ## Skipping white space -/

lemma skipSpacesAux_append (i : ℤ) {w : String8} (hw : ∀ x ∈ w, isSpace x = true) (s : String8) :
    skipSpacesAux i (w ++ s) = skipSpacesAux (i + w.length) s := by
  induction w generalizing i with
  | nil => simp
  | cons x w ih =>
    rw [List.cons_append, skipSpacesAux, if_pos (hw x (List.mem_cons_self)),
      ih (i + 1) fun y hy => hw y (List.mem_cons_of_mem x hy), List.length_cons]
    congr 1
    push_cast
    omega

/-- Skipping from a cut, over the white space `w`. -/
lemma skipSpaces_eq (a b : String8) {w : String8} {c : Character8} {i : ℤ}
    (hi : i = a.length + 1) (hw : ∀ x ∈ w, isSpace x = true) (hc : isSpace c = false) :
    skipSpaces (a ++ (w ++ c :: b)) i = some ((a.length : ℤ) + w.length + 1) := by
  have hn : (i - 1).toNat = a.length := by omega
  rw [skipSpaces, hn, List.drop_left, skipSpacesAux_append i hw, skipSpacesAux,
    if_neg (Bool.eq_false_iff.mp hc), Option.some.injEq]
  omega

/-- Skipping from a cut behind which there is only white space. -/
lemma skipSpaces_eq_none (a : String8) {w : String8} {i : ℤ} (hi : i = a.length + 1)
    (hw : ∀ x ∈ w, isSpace x = true) : skipSpaces (a ++ w) i = none := by
  have hn : (i - 1).toNat = a.length := by omega
  have haux := skipSpacesAux_append i hw []
  rw [List.append_nil] at haux
  rw [skipSpaces, hn, List.drop_left, haux]
  rfl

lemma skipSpacesBackAux_append (i : ℤ) {w : String8} (hw : ∀ x ∈ w, isSpace x = true)
    (s : String8) : skipSpacesBackAux i (w ++ s) = skipSpacesBackAux (i - w.length) s := by
  induction w generalizing i with
  | nil => simp
  | cons x w ih =>
    rw [List.cons_append, skipSpacesBackAux, if_pos (hw x (List.mem_cons_self)),
      ih (i - 1) fun y hy => hw y (List.mem_cons_of_mem x hy), List.length_cons]
    congr 1
    push_cast
    omega

/-- Skipping back from the end of the white space `w`. -/
lemma skipSpacesBack_eq (a b : String8) {w : String8} {c : Character8} {i : ℤ}
    (hi : i = a.length + 1 + w.length) (hw : ∀ x ∈ w, isSpace x = true)
    (hc : isSpace c = false) :
    skipSpacesBack (a ++ c :: (w ++ b)) i = some ((a.length : ℤ) + 1) := by
  have hv : Text.validIndex (a ++ c :: (w ++ b)) i := by
    constructor
    · omega
    · simp only [List.length_append, List.length_cons]
      omega
  have htake : (a ++ c :: (w ++ b)).take i.toNat = a ++ c :: w := by
    have hn : i.toNat = (a ++ c :: w).length := by
      simp only [List.length_append, List.length_cons]
      omega
    rw [hn, ← List.cons_append, ← List.append_assoc, List.take_left]
  have hrev : (a ++ c :: w).reverse = w.reverse ++ c :: a.reverse := by simp
  rw [skipSpacesBack, if_pos hv, htake, hrev,
    skipSpacesBackAux_append i (by simpa using hw), skipSpacesBackAux,
    if_neg (Bool.eq_false_iff.mp hc), Option.some.injEq, List.length_reverse]
  omega

/-! ## Reading one line -/

namespace ClientHeader

variable (f : ClientHeader)

lemma text_eq : f.text = f.name ++ ch ':' :: (ch ' ' :: f.value) := rfl

lemma length_text : f.text.length = f.name.length + 2 + f.value.length := by
  rw [text_eq]
  simp only [List.length_append, List.length_cons]
  omega

lemma colon_notMem_name : ch ':' ∉ f.name := fun h => (f.name_clean _ h).1 rfl

/-- A character of a field does not end a line. -/
lemma ne_of_mem_text {c : Character8} (hc : c ∈ f.text) : c ≠ 13 ∧ c ≠ 10 := by
  rw [text_eq, List.mem_append, List.mem_cons, List.mem_cons] at hc
  rcases hc with hc | rfl | rfl | hc
  · have hs := (f.name_clean c hc).2
    constructor
    · rintro rfl
      exact absurd hs (by decide)
    · rintro rfl
      exact absurd hs (by decide)
  · decide
  · decide
  · exact f.value_line c hc

lemma rightAdjust_name : Text.rightAdjust isSpace f.name = f.name := by
  rw [Text.rightAdjust, List.rdropWhile_eq_self_iff]
  intro hne
  simp [(f.name_clean _ (List.getLast_mem hne)).2]

/-- A field starts with a character of its name. -/
lemma exists_text_cons : ∃ x s, f.text = x :: s ∧ isSpace x = false := by
  rcases hn : f.name with _ | ⟨x, n⟩
  · exact absurd hn f.name_ne_nil
  · exact ⟨x, n ++ (str ": " ++ f.value), by rw [text, hn, List.cons_append],
      (f.name_clean x (by simp [hn])).2⟩

/-- The last character of a field that is no white space is that of the value, or the colon if
there is no value. -/
lemma exists_text_last : ∃ u x w, f.text = u ++ x :: w ∧ isSpace x = false ∧
    (∀ y ∈ w, isSpace y = true) ∧ (f.value ≠ [] → u.length + 1 = f.text.length) ∧
      (f.value = [] → u.length = f.name.length) := by
  rcases List.eq_nil_or_concat f.value with hv | ⟨v, x, hv⟩
  · exact ⟨f.name, ch ':', [ch ' '], by rw [text_eq, hv], by decide, by decide +kernel,
      fun h => absurd hv h, fun _ => rfl⟩
  · rw [List.concat_eq_append] at hv
    have htext : f.text = f.name ++ (str ": " ++ v) ++ x :: [] := by
      rw [text, hv]
      simp only [List.append_assoc]
    refine ⟨f.name ++ (str ": " ++ v), x, [], htext, f.value_last x (by simp [hv]),
      by simp, fun _ => ?_, fun h => ?_⟩
    · simp only [htext, List.length_append, List.length_cons, List.length_nil]
    · simp [hv] at h

end ClientHeader

variable (f : ClientHeader) (a rest : String8) (tb : List (String8 × String8)) {pos : ℤ}

/-- What an iteration does at the start of a line, up to the search for the value: the line ends at
`e`, white space apart. -/
lemma headerStep_line (hpos : pos = a.length + 1) :
    ∃ e : ℤ, (f.value ≠ [] → e = a.length + f.text.length) ∧
      (f.value = [] → e = a.length + f.name.length + 1) ∧
      headerStep (a ++ (f.text ++ (crlf ++ rest))) (pos, tb) =
        (skipSpaces (a ++ (f.text ++ (crlf ++ rest))) (a.length + f.name.length + 2)).map fun c =>
          ((a.length : ℤ) + f.text.length + 3, tb ++ [(f.name,
            Text.substring (a ++ (f.text ++ (crlf ++ rest))) c e)]) := by
  obtain ⟨u, x, w, htext, hx, hw, hu, hu'⟩ := f.exists_text_last
  obtain ⟨y, s, hcons, hy⟩ := f.exists_text_cons
  have hlen : (f.text.length : ℤ) = u.length + 1 + w.length := by
    rw [htext]
    simp only [List.length_append, List.length_cons]
    omega
  refine ⟨a.length + u.length + 1, fun h => ?_, fun h => ?_, ?_⟩
  · have := hu h
    omega
  · have := hu' h
    omega
  set h := a ++ (f.text ++ (crlf ++ rest)) with hh
  have hstart : skipSpaces h pos = some ((a.length : ℤ) + 1) := by
    have hskip := skipSpaces_eq a (s ++ (crlf ++ rest)) (w := []) hpos (by simp) hy
    rw [hh, hcons]
    simpa using hskip
  have hend : Text.indexOf h 10 (a.length + 1) = a.length + f.text.length + 2 := by
    have hnot : (10 : Character8) ∉ f.text ++ [13] := by
      rw [List.mem_append, not_or]
      exact ⟨fun hc => (f.ne_of_mem_text hc).2 rfl, by decide⟩
    have hindex := Text.indexOf_eq a (f.text ++ [13]) rest rfl hnot
    rw [List.append_assoc] at hindex
    rw [hh, show crlf ++ rest = [13] ++ 10 :: rest from rfl, hindex]
    simp only [List.length_append, List.length_singleton]
    omega
  have hback : skipSpacesBack h (a.length + f.text.length + 2 - 1) =
      some ((a.length : ℤ) + u.length + 1) := by
    have hw' : ∀ z ∈ w ++ [13], isSpace z = true := by
      simp only [List.mem_append, List.mem_singleton]
      rintro z (hz | rfl)
      · exact hw z hz
      · decide
    have hcut : (a.length : ℤ) + f.text.length + 2 - 1 =
        (a ++ u).length + 1 + (w ++ [13]).length := by
      simp only [List.length_append, List.length_singleton]
      omega
    have hskip := skipSpacesBack_eq (a ++ u) (10 :: rest) hcut hw' hx
    have hsplit : h = a ++ u ++ x :: (w ++ [13] ++ 10 :: rest) := by
      rw [hh, htext]
      simp [crlf]
    rw [hsplit, hskip, List.length_append, Nat.cast_add]
  have hcolon : Text.indexOf h (ch ':') (a.length + 1) = a.length + f.name.length + 1 := by
    have hindex := Text.indexOf_eq a f.name (ch ' ' :: f.value ++ (crlf ++ rest)) rfl
      f.colon_notMem_name
    rw [hh, f.text_eq]
    simpa [List.append_assoc] using hindex
  have hname : Text.substring h (a.length + 1) (a.length + f.name.length + 1 - 1) = f.name := by
    rw [hh, f.text_eq, List.append_assoc f.name]
    exact Text.substring_eq a f.name _ rfl (by omega)
  simp only [headerStep, hstart, hend, hcolon, hname, f.rightAdjust_name, Option.bind_eq_bind,
    Option.bind_some]
  rw [if_pos (by omega), if_pos (by omega), hback, Option.bind_some, if_pos (by omega),
    Option.map_eq_bind]
  rfl

/-- Where the search for the value starts: behind the colon. -/
lemma text_append_eq : a ++ (f.text ++ (crlf ++ rest)) =
    (a ++ (f.name ++ [ch ':'])) ++ ([ch ' '] ++ (f.value ++ (crlf ++ rest))) := by
  rw [f.text_eq]
  simp

lemma length_colon_cut : (a.length : ℤ) + f.name.length + 2 =
    (a ++ (f.name ++ [ch ':'])).length + 1 := by
  simp only [List.length_append, List.length_singleton]
  omega

/-- An iteration reads a field, if there is a value or another line behind it. -/
lemma headerStep_eq_some (hpos : pos = a.length + 1)
    (h : f.value = [] → ∃ x s, rest = x :: s ∧ isSpace x = false) :
    headerStep (a ++ (f.text ++ (crlf ++ rest))) (pos, tb) =
      some (((a ++ (f.text ++ crlf)).length : ℤ) + 1, tb ++ [f.pair]) := by
  obtain ⟨e, he, he', hstep⟩ := headerStep_line f a rest tb hpos
  have hnext : (a.length : ℤ) + f.text.length + 3 = (a ++ (f.text ++ crlf)).length + 1 := by
    simp only [List.length_append, crlf, List.length_cons, List.length_nil]
    omega
  rw [hstep, hnext, text_append_eq]
  rcases hv : f.value with _ | ⟨x, v⟩
  · -- the search for the value ends in the next line
    obtain ⟨x, s, rfl, hx⟩ := h hv
    have hskip := skipSpaces_eq (a ++ (f.name ++ [ch ':'])) s (w := [ch ' ', 13, 10])
      (length_colon_cut f a) (by decide +kernel) hx
    rw [show [ch ' '] ++ ([] ++ (crlf ++ x :: s)) = [ch ' ', 13, 10] ++ x :: s from rfl, hskip,
      Option.map_some, Text.substring_eq_nil_of_lt, ClientHeader.pair, hv]
    rw [he' hv]
    simp only [List.length_append, List.length_cons, List.length_nil]
    omega
  · have hx : isSpace x = false := f.value_head x (by simp [hv])
    have hskip := skipSpaces_eq (a ++ (f.name ++ [ch ':'])) (v ++ (crlf ++ rest)) (w := [ch ' '])
      (length_colon_cut f a) (by decide +kernel) hx
    rw [show x :: v ++ (crlf ++ rest) = x :: (v ++ (crlf ++ rest)) from rfl, hskip,
      Option.map_some, ClientHeader.pair, ← List.cons_append, ← hv,
      ← List.append_assoc (a ++ (f.name ++ [ch ':']))]
    rw [Text.substring_eq _ f.value (crlf ++ rest)]
    · simp only [List.length_append, List.length_cons, List.length_nil]
      omega
    · rw [he (by simp [hv]), f.length_text]
      simp only [List.length_append, List.length_cons, List.length_nil]
      omega

/-- **Reading does not return behind the last colon**, if there is no value. -/
lemma headerStep_eq_none (hpos : pos = a.length + 1) (hv : f.value = []) :
    headerStep (a ++ (f.text ++ (crlf ++ []))) (pos, tb) = none := by
  obtain ⟨e, -, -, hstep⟩ := headerStep_line f a [] tb hpos
  have hskip := skipSpaces_eq_none (a ++ (f.name ++ [ch ':'])) (w := [ch ' ', 13, 10])
    (length_colon_cut f a) (by decide +kernel)
  rw [hstep, text_append_eq, hv,
    show [ch ' '] ++ ([] ++ (crlf ++ [])) = [ch ' ', 13, 10] from rfl, hskip]
  rfl

/-! ## Reading the header -/

namespace ClientHeader

lemma lines_cons (f : ClientHeader) (fs : List ClientHeader) :
    lines (f :: fs) = f.text ++ (crlf ++ lines fs) := by
  simp [lines]

/-- Behind a line without a value the next line starts. -/
lemma exists_lines_cons {fs : List ClientHeader} (h : fs ≠ []) :
    ∃ x s, lines fs = x :: s ∧ isSpace x = false := by
  obtain ⟨f, fs, rfl⟩ := List.exists_cons_of_ne_nil h
  obtain ⟨x, s, hf, hx⟩ := f.exists_text_cons
  exact ⟨x, s ++ (crlf ++ lines fs), by rw [lines_cons, hf, List.cons_append], hx⟩

end ClientHeader

/-- Before a line the loop goes on. -/
lemma headerLineLoop_exit_eq_false (fs : List ClientHeader) (hpos : pos = a.length + 1) :
    (headerLineLoop (a ++ ClientHeader.lines (f :: fs))).exit (pos, tb) = false := by
  have hlen := f.length_text
  simp only [headerLineLoop, ClientHeader.lines_cons, List.length_append, Bool.or_eq_false_iff,
    decide_eq_false_iff_not]
  omega

/-- **The header is read back**, if the last field has a value.

**Proof sketch.** Induction on the fields: an iteration reads the first one. If it has no value,
it is not the last one, and the search for the value ends in the next line, behind the end of
this one. -/
lemma headerLineLoop_run (fs : List ClientHeader) (h : ∀ f ∈ fs.getLast?, f.value ≠ [])
    (hpos : pos = a.length + 1) {n : ℕ} (hn : fs.length ≤ n) :
    ((headerLineLoop (a ++ ClientHeader.lines fs)).run n (pos, tb)).map Prod.snd =
      some (tb ++ fs.map ClientHeader.pair) := by
  induction fs generalizing a tb pos n with
  | nil =>
    have hexit : (headerLineLoop (a ++ ClientHeader.lines [])).exit (pos, tb) = true := by
      simp only [headerLineLoop, ClientHeader.lines, List.flatMap_nil, List.append_nil,
        Bool.or_eq_true, decide_eq_true_eq]
      omega
    rw [Loop.run_of_exit hexit]
    simp
  | cons f fs ih =>
    obtain ⟨n, rfl⟩ : ∃ k, n = k + 1 := ⟨n - 1, by simp only [List.length_cons] at hn; omega⟩
    have hnext : f.value = [] → ∃ x s, ClientHeader.lines fs = x :: s ∧ isSpace x = false := by
      intro hv
      refine ClientHeader.exists_lines_cons fun hfs => ?_
      subst hfs
      exact h f (by simp) hv
    have hlast : ∀ g ∈ fs.getLast?, g.value ≠ [] := by
      intro g hg
      exact h g (by rw [List.getLast?_cons, Option.mem_def.mp hg]; rfl)
    have hbody := headerStep_eq_some f a (ClientHeader.lines fs) tb hpos hnext
    rw [← ClientHeader.lines_cons] at hbody
    rw [Loop.run_succ (headerLineLoop_exit_eq_false f a tb fs hpos) hbody]
    have hrun := @ih (a ++ (f.text ++ crlf)) (tb ++ [f.pair]) _ hlast rfl n
      (by simp only [List.length_cons] at hn; omega)
    rw [ClientHeader.lines_cons]
    simpa [List.append_assoc] using hrun

/-- **Reading does not return** if the last field has no value. -/
lemma headerLineLoop_run_eq_none (fs : List ClientHeader) (h : ∃ f ∈ fs.getLast?, f.value = [])
    (hpos : pos = a.length + 1) (n : ℕ) :
    (headerLineLoop (a ++ ClientHeader.lines fs)).run n (pos, tb) = none := by
  induction fs generalizing a tb pos n with
  | nil => simp at h
  | cons f fs ih =>
    have hexit := headerLineLoop_exit_eq_false f a tb fs hpos
    cases n with
    | zero => simp [Loop.run, hexit]
    | succ n =>
      by_cases hfs : fs = []
      · subst hfs
        have hv : f.value = [] := by simpa using h
        have hbody := headerStep_eq_none f a tb hpos hv
        rw [show (crlf ++ [] : String8) = crlf ++ ClientHeader.lines [] from rfl,
          ← ClientHeader.lines_cons] at hbody
        rw [Loop.run_succ_of_not_exit hexit]
        exact congrArg (Option.bind · _) hbody
      · have hbody := headerStep_eq_some f a (ClientHeader.lines fs) tb hpos
          fun _ => ClientHeader.exists_lines_cons hfs
        rw [← ClientHeader.lines_cons] at hbody
        rw [Loop.run_succ hexit hbody]
        have hlast : ∃ g ∈ fs.getLast?, g.value = [] := by
          obtain ⟨g, hg, hv⟩ := h
          rw [List.getLast?_cons_of_ne_nil hfs] at hg
          exact ⟨g, hg, hv⟩
        have hrun := @ih (a ++ (f.text ++ crlf)) (tb ++ [f.pair]) _ hlast rfl n
        rw [ClientHeader.lines_cons]
        simpa [List.append_assoc] using hrun

/-! ## Cutting the response -/

/-- A search for the empty line passes over a field. -/
lemma infixIndex_text (f : ClientHeader) (l : String8) :
    Text.infixIndex (crlf ++ crlf) (f.text ++ l) =
      (Text.infixIndex (crlf ++ crlf) l).map (f.text.length + ·) :=
  Text.infixIndex_append_of_notMem (fun h => (f.ne_of_mem_text h).1 rfl) l

/-- A search for the empty line passes over an end of a line before another field. -/
lemma infixIndex_crlf {x : Character8} (hx : isSpace x = false) (s : String8) :
    Text.infixIndex (crlf ++ crlf) (crlf ++ x :: s) =
      (Text.infixIndex (crlf ++ crlf) (x :: s)).map (2 + ·) := by
  have hne : (13 : Character8) ≠ x := by
    rintro rfl
    exact absurd hx (by decide)
  have hnot : ¬ crlf ++ crlf <+: 13 :: 10 :: x :: s := by
    simp [crlf, hne]
  have hnot' : ¬ crlf ++ crlf <+: 10 :: x :: s := by
    simp [crlf]
  rw [show crlf ++ x :: s = 13 :: 10 :: x :: s from rfl, Text.infixIndex_cons_of_not hnot,
    Text.infixIndex_cons_of_not hnot', Option.map_map]
  congr 1
  funext k
  simp only [Function.comp_apply]
  omega

/-- The empty line is found behind the last field. -/
lemma infixIndex_lines (f : ClientHeader) (fs : List ClientHeader) (body : String8) :
    (Text.infixIndex (crlf ++ crlf) (ClientHeader.lines (f :: fs) ++ (crlf ++ body))).map (· + 2) =
      some (ClientHeader.lines (f :: fs)).length := by
  rw [ClientHeader.lines_cons, List.append_assoc, infixIndex_text]
  induction fs generalizing f with
  | nil =>
    have hfound : Text.infixIndex (crlf ++ crlf) (crlf ++ (crlf ++ body)) = some 0 :=
      Text.infixIndex_eq_zero ⟨body, List.append_assoc _ _ _⟩
    rw [show ClientHeader.lines [] = [] from rfl, List.append_nil, hfound]
    simp [crlf]
  | cons g fs ih =>
    obtain ⟨x, s, hcons, hx⟩ := ClientHeader.exists_lines_cons (List.cons_ne_nil g fs)
    have hline := infixIndex_crlf hx (s ++ (crlf ++ body))
    rw [← List.cons_append, ← hcons] at hline
    rw [List.append_assoc, hline, ClientHeader.lines_cons, List.append_assoc, infixIndex_text]
    obtain ⟨k, hk, hlen⟩ := Option.map_eq_some_iff.mp (ih g)
    rw [hk, Option.map_some, Option.map_some, Option.map_some, Option.some.injEq]
    rw [List.length_append, List.length_append, ← hlen, show crlf.length = 2 from rfl]
    omega

lemma emptyLineAt_eq (a s : String8) (x y : Character8) :
    emptyLineAt (a ++ x :: y :: s) (a.length + 1) = some (x = 13 && y = 10) := by
  have hx : Text.item? (a ++ x :: y :: s) (a.length + 1) = some x :=
    Text.item?_append_cons a x (y :: s) rfl
  have hy : Text.item? (a ++ x :: y :: s) (a.length + 1 + 1) = some y := by
    rw [← List.singleton_append, ← List.append_assoc]
    exact Text.item?_append_cons (a ++ [x]) y s (by simp)
  have hlt : (a.length : ℤ) + 1 < (a ++ x :: y :: s).length := by
    simp only [List.length_append, List.length_cons]
    omega
  rw [emptyLineAt, if_pos hlt, hx, hy]
  rfl

variable (status body : String8) (res : ClientResponse)

/-- The text behind the status line is looked at. -/
lemma setHeaderAndBodyTo_status (hstatus : ∀ c ∈ status, c ≠ 13 ∧ c ≠ 10) (l : String8) :
    setHeaderAndBodyTo (status ++ crlf ++ l) res =
      (emptyLineAt (status ++ crlf ++ l) ((status ++ crlf).length + 1)).bind fun noHeader =>
        if noHeader then some (res.setBody (status ++ crlf ++ l))
        else
          let pos := Text.substringIndex (status ++ crlf ++ l) (crlf ++ crlf)
            ((status ++ crlf).length + 1)
          if 0 < pos then
            some ((res.setRawHeader (Text.substring (status ++ crlf ++ l)
              ((status ++ crlf).length + 1) (pos + 1))).setBody
                (Text.substring (status ++ crlf ++ l) (pos + 4) (status ++ crlf ++ l).length))
          else some (res.setBody (status ++ crlf ++ l)) := by
  have hnot : ¬ [13] ++ [10] <:+: status := fun h => (hstatus 13 (h.subset (by simp))).1 rfl
  have hindex := Text.infixIndex_of_last (q := [13]) (by decide) hnot l
  have hpos : Text.substringIndex (status ++ crlf ++ l) crlf 1 = 1 + status.length := by
    rw [List.append_assoc]
    exact Text.substringIndex_eq (a := []) (by simp) hindex
  have hstart : (1 : ℤ) + status.length + 2 = (status ++ crlf).length + 1 := by
    rw [List.length_append, show crlf.length = 2 from rfl]
    omega
  simp only [setHeaderAndBodyTo, hpos]
  rw [if_pos (by omega), hstart]
  rfl

/-- **A response with a header is cut behind the header.** -/
lemma setHeaderAndBodyTo_cons (hstatus : ∀ c ∈ status, c ≠ 13 ∧ c ≠ 10) (fs : List ClientHeader) :
    setHeaderAndBodyTo (responseText status (f :: fs) body) res =
      some ((res.setRawHeader (ClientHeader.lines (f :: fs))).setBody body) := by
  obtain ⟨x, s, hcons, hx⟩ := ClientHeader.exists_lines_cons (List.cons_ne_nil f fs)
  obtain ⟨k, hk, hlen⟩ := Option.map_eq_some_iff.mp (infixIndex_lines f fs body)
  have hsource : responseText status (f :: fs) body =
      status ++ crlf ++ (ClientHeader.lines (f :: fs) ++ (crlf ++ body)) := by
    rw [responseText, List.append_assoc]
  rw [hsource, setHeaderAndBodyTo_status status res hstatus]
  generalize status ++ crlf = a
  generalize ClientHeader.lines (f :: fs) = h at *
  have hpos : Text.substringIndex (a ++ (h ++ (crlf ++ body))) (crlf ++ crlf) (a.length + 1) =
      a.length + 1 + k := Text.substringIndex_eq rfl hk
  have hempty : emptyLineAt (a ++ (h ++ (crlf ++ body))) (a.length + 1) = some false := by
    obtain ⟨y, t, hy⟩ : ∃ y t, s ++ (crlf ++ body) = y :: t :=
      List.exists_cons_of_ne_nil (by simp [crlf])
    have hne : x ≠ 13 := by
      rintro rfl
      exact absurd hx (by decide)
    rw [hcons, List.cons_append, hy, emptyLineAt_eq]
    simp [hne]
  have hheader : Text.substring (a ++ (h ++ (crlf ++ body))) (a.length + 1)
      (a.length + 1 + k + 1) = h := Text.substring_eq a h _ rfl (by omega)
  have hbody : Text.substring (a ++ (h ++ (crlf ++ body))) (a.length + 1 + k + 4)
      (a ++ (h ++ (crlf ++ body))).length = body := by
    rw [← List.append_assoc h, ← List.append_assoc a]
    refine Text.substring_suffix _ body ?_ rfl
    simp only [List.length_append, show crlf.length = 2 from rfl]
    omega
  rw [hempty, Option.bind_some, if_neg (by simp)]
  simp only [hpos, hheader, hbody]
  rw [if_pos (by omega)]

/-- **A response without a header is not cut**: the body is the whole response. -/
lemma setHeaderAndBodyTo_nil (hstatus : ∀ c ∈ status, c ≠ 13 ∧ c ≠ 10) :
    setHeaderAndBodyTo (responseText status [] body) res =
      some (res.setBody (responseText status [] body)) := by
  have hsource : responseText status [] body = status ++ crlf ++ (13 :: 10 :: body) := by
    rw [responseText, List.append_assoc]
    rfl
  rw [hsource, setHeaderAndBodyTo_status status res hstatus, emptyLineAt_eq]
  rfl

/-- The fields of a header that was just set are those the loop reads. -/
lemma headers_setRawHeader (h : String8) (fuel : ℕ) :
    (((res.setRawHeader h).setBody body).headers fuel).map Prod.fst =
      ((headerLineLoop h).run fuel (1, [])).map Prod.snd := by
  simp only [ClientResponse.headers, ClientResponse.setBody, ClientResponse.setRawHeader,
    Option.map_map]
  rfl

/-- A response is taken apart into the fields and the body it was put together from. -/
def TakesApart (status : String8) (fs : List ClientHeader) (body : String8)
    (res : ClientResponse) : Prop :=
  ∃ r, setHeaderAndBodyTo (responseText status fs body) res = some r ∧ r.body = some body ∧
    ∃ fuel, (r.headers fuel).map Prod.fst = some (fs.map ClientHeader.pair)

/-- Without a header the body becomes the whole response. -/
lemma not_takesApart_nil (hstatus : ∀ c ∈ status, c ≠ 13 ∧ c ≠ 10) :
    ¬ TakesApart status [] body res := by
  rintro ⟨r, hr, hbody, -⟩
  rw [setHeaderAndBodyTo_nil status body res hstatus] at hr
  obtain rfl := Option.some.inj hr
  have hlen := congrArg List.length (Option.some.inj hbody)
  simp only [responseText, crlf, List.length_append, List.length_cons] at hlen
  omega

/-- A response with a header is taken apart if its header is read back. -/
lemma takesApart_cons_iff (hstatus : ∀ c ∈ status, c ≠ 13 ∧ c ≠ 10) (fs : List ClientHeader) :
    TakesApart status (f :: fs) body res ↔
      ∃ fuel, ((headerLineLoop (ClientHeader.lines (f :: fs))).run fuel (1, [])).map Prod.snd =
        some ((f :: fs).map ClientHeader.pair) := by
  rw [TakesApart, setHeaderAndBodyTo_cons f status body res hstatus]
  constructor
  · rintro ⟨r, hr, -, fuel, hheaders⟩
    obtain rfl := Option.some.inj hr
    exact ⟨fuel, by rwa [headers_setRawHeader] at hheaders⟩
  · rintro ⟨fuel, hrun⟩
    exact ⟨_, rfl, rfl, fuel, by rwa [headers_setRawHeader]⟩

/-- Behind a last field without a value the reading of the header does not return. -/
lemma not_takesApart_of_empty_value (hstatus : ∀ c ∈ status, c ≠ 13 ∧ c ≠ 10)
    {fs : List ClientHeader} (h : ∃ f ∈ fs.getLast?, f.value = []) :
    ¬ TakesApart status fs body res := by
  rcases fs with _ | ⟨f, fs⟩
  · exact not_takesApart_nil status body res hstatus
  · rw [takesApart_cons_iff f status body res hstatus]
    rintro ⟨fuel, hrun⟩
    have hpos : (1 : ℤ) = ([] : String8).length + 1 := by simp
    have hnone := headerLineLoop_run_eq_none [] [] (f :: fs) h hpos fuel
    rw [List.nil_append] at hnone
    rw [hnone] at hrun
    cases hrun

/-- **A response is taken apart as it was put together exactly if it has a header whose last field
has a value.** Without a header the body becomes the whole response, and behind a last field
without a value the reading of the header does not return.

**Proof sketch.** A response with a header is cut at its first empty line, which is the one behind
the header, since no line of the header is empty. Reading the header gives the fields or nothing,
according to the last one. -/
theorem takesApart_iff (status : String8) (hstatus : ∀ c ∈ status, c ≠ 13 ∧ c ≠ 10)
    (fs : List ClientHeader) (body : String8) (res : ClientResponse) :
    TakesApart status fs body res ↔ ∃ f ∈ fs.getLast?, f.value ≠ [] := by
  constructor
  · intro h
    rcases fs with _ | ⟨f, fs⟩
    · exact absurd h (not_takesApart_nil status body res hstatus)
    · have hlast := List.getLast?_eq_some_getLast (List.cons_ne_nil f fs)
      exact ⟨_, hlast, fun hv =>
        not_takesApart_of_empty_value status body res hstatus ⟨_, hlast, hv⟩ h⟩
  · rintro ⟨g, hg, hv⟩
    rcases fs with _ | ⟨f, fs⟩
    · simp at hg
    · have hlast : ∀ g' ∈ (f :: fs).getLast?, g'.value ≠ [] := by
        intro g' hg'
        rwa [Option.mem_unique hg' hg]
      have hpos : (1 : ℤ) = ([] : String8).length + 1 := by simp
      have hrun := headerLineLoop_run [] [] (f :: fs) hlast hpos le_rfl
      exact (takesApart_cons_iff f status body res hstatus fs).mpr ⟨_, hrun⟩

/-- A field without a value between two fields with one. -/
theorem takesApart_html :
    TakesApart (str "HTTP/1.1 200 OK")
      [⟨str "Content-Type", str "text/html", by decide, by decide +kernel, by decide +kernel,
          by decide +kernel, by decide +kernel⟩,
        ⟨str "Server", [], by decide, by decide +kernel, by simp, by simp, by simp⟩,
        ⟨str "Content-Length", str "5", by decide, by decide +kernel, by decide +kernel,
          by decide +kernel, by decide +kernel⟩]
      (str "hello") {} :=
  (takesApart_iff _ (by decide +kernel) _ _ _).mpr ⟨_, rfl, by decide⟩

/-- A response without a header, and one whose last field has no value. -/
theorem not_takesApart :
    ¬ TakesApart (str "HTTP/1.1 200 OK") [] (str "hello") {} ∧
      ¬ TakesApart (str "HTTP/1.1 200 OK")
        [⟨str "Server", [], by decide, by decide +kernel, by simp, by simp, by simp⟩]
        (str "hello") {} := by
  have hstatus : ∀ c ∈ str "HTTP/1.1 200 OK", c ≠ 13 ∧ c ≠ 10 := by decide +kernel
  exact ⟨not_takesApart_nil _ _ _ hstatus,
    not_takesApart_of_empty_value _ _ _ hstatus ⟨_, rfl, rfl⟩⟩

end EiffelWeb
