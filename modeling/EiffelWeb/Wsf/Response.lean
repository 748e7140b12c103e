import Mathlib.Data.List.Basic
import Mathlib.Tactic.Common
import EiffelWeb.Contract
import EiffelWeb.Wsf.Chunk

set_option relaxedAutoImplicit false
set_option autoImplicit false

/-!
# The response

`WSF_RESPONSE` hands its calls over to a `WGI_RESPONSE`, which `WGI_RESPONSE_STREAM` implements: the
status code and the flag `header_committed` say how far the response is written. Both classes have
require clauses that fix the order of the calls: the status line, the header, the body.

The output is the list of the bytes written so far. The content of files is a parameter.

## Main definitions

* `WgiResponse` — the state of a response, with the routines of `WGI_RESPONSE_STREAM`.
* `WsfResponse.Call`, `WsfResponse.Call.requires`, `WsfResponse.Call.exec` — the public calls.
* `WsfResponse.Shape` — the output is a status line, a header block and a body.
* `WsfResponse.Call.Safe` — what a call has to meet in addition to its require clause.

## Main results

* `WsfResponse.call_correct` — one call.
* `WsfResponse.follows_of_safe` — every sequence of calls.
-/

namespace EiffelWeb

/-- `WGI_RESPONSE_STREAM`. -/
structure WgiResponse where
  /-- The attribute `status_code`. -/
  statusCode : ℤ
  /-- The attribute `header_committed`. -/
  headerCommitted : Bool
  /-- What was written to the attribute `output`. -/
  output : String8

namespace WgiResponse

/-- `create {WGI_RESPONSE_STREAM}.make`. -/
def make : WgiResponse := ⟨0, false, []⟩

/-- `status_is_set`. -/
def statusIsSet (r : WgiResponse) : Bool := r.statusCode ≠ 0

/-- `message_writable`. -/
def messageWritable (r : WgiResponse) : Bool := r.statusIsSet && r.headerCommitted

/-- `write (s)`. -/
def write (s : String8) : Routine WgiResponse :=
  Routine.update fun r => { r with output := r.output ++ s }

/-- `set_status_code (a_code)`. -/
def setStatusCode (aCode : ℤ) : Routine WgiResponse :=
  Routine.call (fun r => !r.statusIsSet && !r.headerCommitted)
    (Routine.andThen (Routine.update fun r => { r with statusCode := aCode })
      (write (statusLine aCode)))

/-- The first require clause of `write_header_text`, which compares five characters with four. -/
def noEndingCrlfCrlf (aText : String8) : Bool :=
  !(4 < aText.length) ||
    Text.substring aText ((aText.length : ℤ) - 4) aText.length != crlf ++ crlf

/-- `write_header_text (a_text)`. -/
def writeHeaderText (aText : String8) : Routine WgiResponse :=
  Routine.call (fun r => noEndingCrlfCrlf aText && r.statusIsSet && !r.headerCommitted)
    (Routine.andThen (Routine.andThen (write aText) (write crlf))
      (Routine.update fun r => { r with headerCommitted := true }))

/-- `write_string (s)`. -/
def writeString (s : String8) : Routine WgiResponse := Routine.call messageWritable (write s)

/-- What `put_substring (s, a_begin_index, a_end_index)` writes. -/
def substringText (s : String8) (aBeginIndex aEndIndex : ℤ) : String8 :=
  if aBeginIndex ≤ aEndIndex then Text.substring s aBeginIndex aEndIndex else []

/-- `write_substring (s, a_begin_index, a_end_index)`. -/
def writeSubstring (s : String8) (aBeginIndex aEndIndex : ℤ) : Routine WgiResponse :=
  Routine.call messageWritable (write (substringText s aBeginIndex aEndIndex))

/-- `write_file_content (fn)` for a file with the given content. -/
def writeFileContent (content : String8) : Routine WgiResponse :=
  Routine.call messageWritable (write content)

/-- `flush`. -/
def flush : Routine WgiResponse := Routine.update id

end WgiResponse

namespace WsfResponse

open WgiResponse (statusIsSet messageWritable)

/-! ## The routines of the class -/

/-- The require clauses of `set_status_code` and `write_header`. -/
def notStarted (r : WgiResponse) : Bool := !r.statusIsSet && !r.headerCommitted

/-- The require clauses of `write_header_text`. -/
def headerPending (r : WgiResponse) : Bool := r.statusIsSet && !r.headerCommitted

/-- The require clause of the two redirections. -/
def headerNotCommitted (r : WgiResponse) : Bool := !r.headerCommitted

/-- `set_status_code (a_code)`. -/
def setStatusCode (aCode : ℤ) : Routine WgiResponse :=
  Routine.call notStarted (WgiResponse.setStatusCode aCode)

/-- `write_header_text (a_headers)`. -/
def writeHeaderText (aHeaders : String8) : Routine WgiResponse :=
  Routine.call headerPending (WgiResponse.writeHeaderText aHeaders)

/-- The header that `write_header` builds. -/
def headerOf (aHeaders : Option (List (String8 × String8))) : HttpHeader :=
  (aHeaders.getD []).foldl (fun h kv => h.putHeaderKeyValue kv.1 kv.2) []

/-- `write_header (a_status_code, a_headers)`. -/
def writeHeader (aStatusCode : ℤ) (aHeaders : Option (List (String8 × String8))) :
    Routine WgiResponse :=
  Routine.call notStarted
    (Routine.andThen (setStatusCode aStatusCode)
      (WgiResponse.writeHeaderText (headerOf aHeaders).string))

/-- `write_string (s)`. -/
def writeString (s : String8) : Routine WgiResponse :=
  Routine.call messageWritable (WgiResponse.writeString s)

/-- `write_substring (s, a_begin_index, a_end_index)`. -/
def writeSubstring (s : String8) (aBeginIndex aEndIndex : ℤ) : Routine WgiResponse :=
  Routine.call messageWritable (WgiResponse.writeSubstring s aBeginIndex aEndIndex)

/-- `flush`. -/
def flush : Routine WgiResponse := WgiResponse.flush

/-- `write_string` for each of the strings. -/
def writeStrings : List String8 → Routine WgiResponse
  | [] => Routine.update id
  | s :: ss => Routine.andThen (writeString s) (writeStrings ss)

/-- `write_chunk (s)`, which has no require clause. It makes no call if it fails before. -/
def writeChunk (s : Option String8) : Routine WgiResponse :=
  match chunkPieces s with
  | some pieces => Routine.andThen (writeStrings pieces) flush
  | none => Routine.update id

/-- `write_file_content (fn)` for a file with the given content. -/
def writeFileContent (content : String8) : Routine WgiResponse :=
  Routine.call messageWritable (WgiResponse.writeFileContent content)

/-- The message of `redirect_now_with_custom_status_code` when it comes too late. -/
def redirectMessage (aUrl : String8) : String8 :=
  str "Headers already sent.\nCannot redirect, for now please follow this <a \"href=\"" ++ aUrl ++
    str "\">link</a> instead\n"

/-- `redirect_now_with_custom_status_code (a_url, a_status_code)`. -/
def redirectNowWithCustomStatusCode (aUrl : String8) (aStatusCode : ℤ) : Routine WgiResponse :=
  Routine.call headerNotCommitted fun r =>
    if r.headerCommitted then writeString (redirectMessage aUrl) r
    else
      Routine.andThen (setStatusCode aStatusCode)
        (writeHeaderText (HttpHeader.putLocation [] aUrl).string) r

/-- `redirect_now (a_url)`. -/
def redirectNow (aUrl : String8) : Routine WgiResponse :=
  Routine.call headerNotCommitted (redirectNowWithCustomStatusCode aUrl 301)

/-! ## The calls of a client -/

/-- The public calls of `WSF_RESPONSE`. -/
inductive Call where
  | setStatusCode (aCode : ℤ)
  | writeHeaderText (aHeaders : String8)
  | writeHeader (aStatusCode : ℤ) (aHeaders : Option (List (String8 × String8)))
  | writeString (s : String8)
  | writeSubstring (s : String8) (aBeginIndex aEndIndex : ℤ)
  | writeChunk (s : Option String8)
  | writeFileContent (fn : String8)
  | flush
  | redirectNowWithCustomStatusCode (aUrl : String8) (aStatusCode : ℤ)
  | redirectNow (aUrl : String8)

namespace Call

/-- The require clause of a call. -/
def requires : Call → WgiResponse → Bool
  | .setStatusCode _ => notStarted
  | .writeHeaderText _ => headerPending
  | .writeHeader _ _ => notStarted
  | .writeString _ => messageWritable
  | .writeSubstring _ _ _ => messageWritable
  | .writeChunk _ => fun _ => true
  | .writeFileContent _ => messageWritable
  | .flush => fun _ => true
  | .redirectNowWithCustomStatusCode _ _ => headerNotCommitted
  | .redirectNow _ => headerNotCommitted

variable (files : String8 → String8)

/-- The execution of a call. -/
def exec : Call → Routine WgiResponse
  | .setStatusCode aCode => WsfResponse.setStatusCode aCode
  | .writeHeaderText aHeaders => WsfResponse.writeHeaderText aHeaders
  | .writeHeader aStatusCode aHeaders => WsfResponse.writeHeader aStatusCode aHeaders
  | .writeString s => WsfResponse.writeString s
  | .writeSubstring s i j => WsfResponse.writeSubstring s i j
  | .writeChunk s => WsfResponse.writeChunk s
  | .writeFileContent fn => WsfResponse.writeFileContent (files fn)
  | .flush => WsfResponse.flush
  | .redirectNowWithCustomStatusCode aUrl aStatusCode =>
    WsfResponse.redirectNowWithCustomStatusCode aUrl aStatusCode
  | .redirectNow aUrl => WsfResponse.redirectNow aUrl

/-- The bytes that a call adds to the body. -/
def body : Call → String8
  | .writeString s => s
  | .writeSubstring s i j => WgiResponse.substringText s i j
  | .writeChunk s => ((chunkPieces s).getD []).flatten
  | .writeFileContent fn => files fn
  | _ => []

/-- What a call has to meet in addition to its require clause. A status code is not zero, header
text consists of lines, a chunk is part of the body, and a redirection starts the response. -/
def Safe : Call → WgiResponse → Prop
  | .setStatusCode aCode, _ => aCode ≠ 0
  | .writeHeaderText aHeaders, _ => IsHeaderText aHeaders
  | .writeHeader aStatusCode aHeaders, _ =>
    aStatusCode ≠ 0 ∧ ∀ kv ∈ aHeaders.getD [], OneLine kv.1 ∧ OneLine kv.2
  | .writeChunk _, r => r.messageWritable = true
  | .redirectNowWithCustomStatusCode aUrl aStatusCode, r =>
    r.statusIsSet = false ∧ aStatusCode ≠ 0 ∧ OneLine aUrl
  | .redirectNow aUrl, r => r.statusIsSet = false ∧ OneLine aUrl
  | _, _ => True

end Call

/-! ## The shape of the output -/

/-- The output is a status line, then a header block that an empty line closes, then the body; the
first parts of it if the response is not written so far. -/
inductive Shape : String8 → WgiResponse → Prop where
  /-- Nothing was written. -/
  | fresh : Shape [] WgiResponse.make
  /-- The status line was written. -/
  | status {aCode : ℤ} (hcode : aCode ≠ 0) : Shape [] ⟨aCode, false, statusLine aCode⟩
  /-- The header was written. -/
  | message {aCode : ℤ} {header body : String8} (hcode : aCode ≠ 0)
      (hheader : IsHeaderText header) :
      Shape body ⟨aCode, true, statusLine aCode ++ (header ++ crlf) ++ body⟩

section Shape

variable {b : String8} {r : WgiResponse}

lemma Shape.of_notStarted (h : Shape b r) (hreq : notStarted r = true) :
    b = [] ∧ r = WgiResponse.make := by
  cases h with
  | fresh => exact ⟨rfl, rfl⟩
  | status hcode => simp [notStarted, statusIsSet, hcode] at hreq
  | message hcode _ => simp [notStarted] at hreq

lemma Shape.of_headerPending (h : Shape b r) (hreq : headerPending r = true) :
    b = [] ∧ ∃ aCode, aCode ≠ 0 ∧ r = ⟨aCode, false, statusLine aCode⟩ := by
  cases h with
  | fresh => simp [headerPending, statusIsSet, WgiResponse.make] at hreq
  | status hcode => exact ⟨rfl, _, hcode, rfl⟩
  | message _ _ => simp [headerPending] at hreq

/-- The header was written. -/
def Message (b : String8) (r : WgiResponse) : Prop := Shape b r ∧ messageWritable r = true

/-- In a state with a header, text is added to the body. -/
lemma Message.write (h : Message b r) (s : String8) :
    Message (b ++ s) { r with output := r.output ++ s } := by
  obtain ⟨hshape, hreq⟩ := h
  refine ⟨?_, hreq⟩
  cases hshape with
  | fresh => simp [messageWritable, statusIsSet, WgiResponse.make] at hreq
  | status _ => simp [messageWritable] at hreq
  | message hcode hheader =>
    simp only [List.append_assoc _ b s]
    exact Shape.message hcode hheader

end Shape

/-! ## One call -/

section Correct

/-- The first require clause of `write_header_text` always holds. -/
lemma noEndingCrlfCrlf_eq_true (aText : String8) : WgiResponse.noEndingCrlfCrlf aText = true := by
  unfold WgiResponse.noEndingCrlfCrlf
  by_cases hlen : 4 < aText.length
  · have hsub : (Text.substring aText ((aText.length : ℤ) - 4) aText.length).length = 5 := by
      rw [Text.substring, if_pos (by omega), List.length_take, List.length_drop]
      omega
    have hne : Text.substring aText ((aText.length : ℤ) - 4) aText.length ≠ crlf ++ crlf :=
      fun heq => absurd (heq ▸ hsub) (by decide)
    simp [hne]
  · simp [hlen]

/-- The status line is written first. -/
lemma setStatusCode_correct (aCode : ℤ) :
    Routine.Correct (· = WgiResponse.make) (setStatusCode aCode)
      (· = ⟨aCode, false, statusLine aCode⟩) := by
  rintro r rfl
  exact ⟨rfl, rfl⟩

/-- The header follows the status line. -/
lemma wgi_writeHeaderText_correct {aCode : ℤ} (hcode : aCode ≠ 0) {aText : String8}
    (htext : IsHeaderText aText) :
    Routine.Correct (· = ⟨aCode, false, statusLine aCode⟩) (WgiResponse.writeHeaderText aText)
      (Shape []) := by
  rintro r rfl
  refine ⟨?_, ?_⟩
  · simp [WgiResponse.writeHeaderText, Routine.call, Routine.andThen, WgiResponse.write,
      Routine.update, noEndingCrlfCrlf_eq_true, statusIsSet, hcode]
  · have hshape : Shape [] ⟨aCode, true, statusLine aCode ++ (aText ++ crlf) ++ []⟩ :=
      Shape.message hcode htext
    rw [List.append_nil, ← List.append_assoc] at hshape
    exact hshape

lemma writeHeaderText_correct {aCode : ℤ} (hcode : aCode ≠ 0) {aText : String8}
    (htext : IsHeaderText aText) :
    Routine.Correct (· = ⟨aCode, false, statusLine aCode⟩) (writeHeaderText aText) (Shape []) := by
  apply (wgi_writeHeaderText_correct hcode htext).call
  rintro r rfl
  simp [headerPending, statusIsSet, hcode]

lemma writeHeader_correct {aStatusCode : ℤ} (hcode : aStatusCode ≠ 0)
    {aHeaders : Option (List (String8 × String8))}
    (hheaders : ∀ kv ∈ aHeaders.getD [], OneLine kv.1 ∧ OneLine kv.2) :
    Routine.Correct (· = WgiResponse.make) (writeHeader aStatusCode aHeaders) (Shape []) := by
  have htext : IsHeaderText (headerOf aHeaders).string := HttpHeader.isHeaderText_string hheaders
  apply ((setStatusCode_correct aStatusCode).andThen
    (wgi_writeHeaderText_correct hcode htext)).call
  rintro r rfl
  rfl

/-- A redirection is a whole header. -/
lemma redirectNowWithCustomStatusCode_correct {aStatusCode : ℤ} (hcode : aStatusCode ≠ 0)
    {aUrl : String8} (hurl : OneLine aUrl) :
    Routine.Correct (· = WgiResponse.make) (redirectNowWithCustomStatusCode aUrl aStatusCode)
      (Shape []) := by
  have hlocation : OneLine (str "Location") := oneLine_of_notMem (by decide)
  have hkv : ∀ kv ∈ [(str "Location", aUrl)], OneLine kv.1 ∧ OneLine kv.2 := by
    intro kv hkv
    rw [List.mem_singleton] at hkv
    subst hkv
    exact ⟨hlocation, hurl⟩
  have htext : IsHeaderText (HttpHeader.putLocation [] aUrl).string := by
    rw [HttpHeader.putLocation]
    simpa only [List.foldl_cons, List.foldl_nil] using HttpHeader.isHeaderText_string hkv
  have hseq := (setStatusCode_correct aStatusCode).andThen (writeHeaderText_correct hcode htext)
  refine Routine.Correct.call (fun r hr => ?_) (by rintro r rfl; rfl)
  subst hr
  exact hseq WgiResponse.make rfl

/-- Text is written to the body. -/
lemma write_correct (b s : String8) :
    Routine.Correct (Message b) (WgiResponse.write s) (Message (b ++ s)) :=
  Routine.correct_update fun _ h => h.write s

/-- A call with the clause `message_writable` on both sides. -/
lemma writable_call_correct {b b' : String8} {p : Routine WgiResponse}
    (h : Routine.Correct (Message b) p (Message b')) :
    Routine.Correct (Message b) (Routine.call messageWritable (Routine.call messageWritable p))
      (Message b') :=
  (h.call fun _ hr => hr.2).call fun _ hr => hr.2

lemma writeString_correct (b s : String8) :
    Routine.Correct (Message b) (writeString s) (Message (b ++ s)) :=
  writable_call_correct (write_correct b s)

lemma writeStrings_correct (b : String8) (ss : List String8) :
    Routine.Correct (Message b) (writeStrings ss) (Message (b ++ ss.flatten)) := by
  induction ss generalizing b with
  | nil =>
    rw [List.flatten_nil, List.append_nil]
    exact Routine.correct_update fun _ h => h
  | cons s ss ih =>
    have hrest := ih (b ++ s)
    rw [List.append_assoc] at hrest
    exact (writeString_correct b s).andThen hrest

lemma writeChunk_correct (b : String8) (s : Option String8) :
    Routine.Correct (Message b) (writeChunk s)
      (Message (b ++ ((chunkPieces s).getD []).flatten)) := by
  rcases hp : chunkPieces s with _ | pieces
  · simp only [writeChunk, hp, Option.getD_none, List.flatten_nil, List.append_nil]
    exact Routine.correct_update fun _ h => h
  · simp only [writeChunk, hp, Option.getD_some]
    exact (writeStrings_correct b pieces).andThen (Routine.correct_update fun _ h => h)

variable (files : String8 → String8)

/-- **One call** that meets its require clause and is safe meets all clauses of the calls it makes
and keeps the shape of the output. -/
lemma call_correct (b : String8) (c : Call) :
    Routine.Correct (fun r => Shape b r ∧ c.requires r = true ∧ c.Safe r) (c.exec files)
      (Shape (b ++ c.body files)) := by
  rintro r ⟨hshape, hreq, hsafe⟩
  cases c with
  | setStatusCode aCode =>
    obtain ⟨rfl, rfl⟩ := hshape.of_notStarted hreq
    obtain ⟨hok, hr⟩ := setStatusCode_correct aCode _ rfl
    refine ⟨hok, ?_⟩
    change Shape [] (setStatusCode aCode WgiResponse.make).1
    rw [hr]
    exact Shape.status hsafe
  | writeHeaderText aHeaders =>
    obtain ⟨rfl, aCode, hcode, rfl⟩ := hshape.of_headerPending hreq
    exact writeHeaderText_correct hcode hsafe _ rfl
  | writeHeader aStatusCode aHeaders =>
    obtain ⟨rfl, rfl⟩ := hshape.of_notStarted hreq
    exact writeHeader_correct hsafe.1 hsafe.2 _ rfl
  | writeString s =>
    obtain ⟨hok, hmsg⟩ := writeString_correct b s r ⟨hshape, hreq⟩
    exact ⟨hok, hmsg.1⟩
  | writeSubstring s i j =>
    obtain ⟨hok, hmsg⟩ := writable_call_correct (write_correct b _) r ⟨hshape, hreq⟩
    exact ⟨hok, hmsg.1⟩
  | writeChunk s =>
    obtain ⟨hok, hmsg⟩ := writeChunk_correct b s r ⟨hshape, hsafe⟩
    exact ⟨hok, hmsg.1⟩
  | writeFileContent fn =>
    obtain ⟨hok, hmsg⟩ := writable_call_correct (write_correct b (files fn)) r ⟨hshape, hreq⟩
    exact ⟨hok, hmsg.1⟩
  | flush =>
    have hbody : b ++ Call.body files .flush = b := List.append_nil b
    rw [hbody]
    exact ⟨rfl, hshape⟩
  | redirectNowWithCustomStatusCode aUrl aStatusCode =>
    obtain ⟨hset, hcode, hurl⟩ := hsafe
    have hstart : notStarted r = true := by
      simpa [notStarted, hset, headerNotCommitted, Call.requires] using hreq
    obtain ⟨rfl, rfl⟩ := hshape.of_notStarted hstart
    exact redirectNowWithCustomStatusCode_correct hcode hurl _ rfl
  | redirectNow aUrl =>
    obtain ⟨hset, hurl⟩ := hsafe
    have hstart : notStarted r = true := by
      simpa [notStarted, hset, headerNotCommitted, Call.requires] using hreq
    obtain ⟨rfl, rfl⟩ := hshape.of_notStarted hstart
    have hcode : (301 : ℤ) ≠ 0 := by decide
    exact (redirectNowWithCustomStatusCode_correct hcode hurl).call (by rintro r rfl; rfl) _ rfl

end Correct

/-! ## Every sequence of calls -/

/-- All calls inside the calls `cs` meet their require clauses, and the output has its shape with
the bytes of the calls as the body. -/
def Follows (files : String8 → String8) (cs : List Call) : Prop :=
  (Routine.run (Call.exec files) cs WgiResponse.make).2 = true ∧
    Shape (cs.flatMap (Call.body files)) (Routine.run (Call.exec files) cs WgiResponse.make).1

/-- **Every sequence of calls** that meet their require clauses and are safe follows the protocol,
up to every state on the way.

**Proof sketch.** The shape of the output is an invariant of the calls (`call_correct`), with the
body that belongs to the calls made so far. -/
theorem follows_of_safe (files : String8 → String8) (cs ds : List Call)
    (h : Routine.Permitted (fun c r => c.requires r = true ∧ Call.Safe c r) (Call.exec files)
      (cs ++ ds) WgiResponse.make) : Follows files cs := by
  have hstep : ∀ (cs : List Call) (c : Call), Routine.Correct
      (fun r => Shape (cs.flatMap (Call.body files)) r ∧ c.requires r = true ∧ Call.Safe c r)
      (c.exec files) (Shape ((cs ++ [c]).flatMap (Call.body files))) := by
    intro cs c
    rw [List.flatMap_append, List.flatMap_singleton]
    exact call_correct files _ c
  have hfresh : Shape (([] : List Call).flatMap (Call.body files)) WgiResponse.make := Shape.fresh
  exact Routine.run_correct (I := fun cs => Shape (cs.flatMap (Call.body files))) hstep hfresh
    h.of_append

/-- A status code, a header line and two chunks. -/
theorem follows_of_safe_chunks :
    Routine.Permitted (fun c r => c.requires r = true ∧ Call.Safe c r)
        (Call.exec fun _ => [])
        ([.setStatusCode 200, .writeHeaderText (str "A: b" ++ crlf), .writeChunk (some (str "x")),
          .writeChunk none] ++ []) WgiResponse.make ∧
      Follows (fun _ => [])
        [.setStatusCode 200, .writeHeaderText (str "A: b" ++ crlf), .writeChunk (some (str "x")),
          .writeChunk none] := by
  have htext : IsHeaderText (str "A: b" ++ crlf) :=
    ⟨[str "A: b"], by simpa using ⟨by decide, oneLine_of_notMem (by decide)⟩, by simp⟩
  have hcode : (200 : ℤ) ≠ 0 := by decide
  have hpermitted : Routine.Permitted (fun c r => c.requires r = true ∧ Call.Safe c r)
      (Call.exec fun _ => [])
      ([.setStatusCode 200, .writeHeaderText (str "A: b" ++ crlf), .writeChunk (some (str "x")),
        .writeChunk none] ++ []) WgiResponse.make :=
    ⟨⟨rfl, hcode⟩, ⟨rfl, htext⟩, ⟨rfl, rfl⟩, ⟨rfl, rfl⟩, trivial⟩
  exact ⟨hpermitted, follows_of_safe _ _ _ hpermitted⟩

/-- A chunk before the status line meets its own require clause, and the calls of `write_string`
inside do not meet theirs. -/
theorem not_follows_chunk_first :
    ¬ ∀ (files : String8 → String8) (cs : List Call),
      Routine.Permitted (fun c r => c.requires r = true) (Call.exec files) cs WgiResponse.make →
        Follows files cs := by
  intro hall
  have hok := (hall (fun _ => []) [.writeChunk (some (str "a"))] ⟨rfl, trivial⟩).1
  exact absurd hok (by decide)

end WsfResponse

end EiffelWeb
