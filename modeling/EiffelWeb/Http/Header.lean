import Mathlib.Data.List.Basic
import Mathlib.Tactic.Common
import EiffelWeb.Character

set_option relaxedAutoImplicit false
set_option autoImplicit false

/-!
# Headers and status lines

The part of `HTTP_HEADER` that a response uses: a header is a list of lines, and `put_header`
replaces the first line that starts with the name of the new one. The status line is that of the
connectors, which have the same text.

## Main definitions

* `HttpHeader`, `HttpHeader.putHeaderKeyValue`, `HttpHeader.string`
* `httpStatusCodeMessage`, `statusLine`
* `OneLine` — text in which no line ends.
* `IsHeaderText` — non-empty lines, each with its end.

## Main results

* `HttpHeader.isHeaderText_string` — the text of a header whose keys and values are free of ends
  of lines.
* `oneLine_statusText` — the status line is one line.
-/

namespace EiffelWeb

/-- `{HTTP_CONSTANTS}.crlf`. -/
def crlf : String8 := [13, 10]

/-- `HTTP_HEADER`, as the list of its lines. -/
abbrev HttpHeader := List String8

namespace HttpHeader

/-- `header_name (h)`: the name with its colon, `Void` if another character comes first. Text
without a colon is a name. -/
def headerName : String8 → Option String8
  | [] => some []
  | c :: h =>
    if c = ch ':' then some [c]
    else if c = ch '-' || isLower c || isUpper c then (headerName h).map (c :: ·)
    else none

/-- `add_header (h)`. -/
def addHeader (headers : HttpHeader) (h : String8) : HttpHeader := headers ++ [h]

/-- `force_header_by_name (n, h)` for an attached name: the loop over the lines. -/
def replaceHeader (n h : String8) : HttpHeader → HttpHeader
  | [] => addHeader [] h
  | l :: headers => if n <+: l then h :: headers else l :: replaceHeader n h headers

/-- `force_header_by_name (n, h)`. -/
def forceHeaderByName (headers : HttpHeader) (n : Option String8) (h : String8) : HttpHeader :=
  match n with
  | some n => replaceHeader n h headers
  | none => addHeader headers h

/-- `put_header (h)`. -/
def putHeader (headers : HttpHeader) (h : String8) : HttpHeader :=
  forceHeaderByName headers (headerName h) h

/-- `put_header_key_value (k, v)`. -/
def putHeaderKeyValue (headers : HttpHeader) (k v : String8) : HttpHeader :=
  putHeader headers (k ++ str ": " ++ v)

/-- `put_location (a_location)`. -/
def putLocation (headers : HttpHeader) (aLocation : String8) : HttpHeader :=
  putHeaderKeyValue headers (str "Location") aLocation

/-- `string`: the lines, each with its end. -/
def string (headers : HttpHeader) : String8 := headers.flatMap (· ++ crlf)

end HttpHeader

/-! ## Status lines -/

/-- The texts of `HTTP_STATUS_CODE_MESSAGES`. -/
def statusCodeMessages : List (ℤ × String) := [
  (100, "Continue"), (101, "Switching Protocols"), (102, "Processing"),
  (200, "OK"), (201, "Created"), (202, "Accepted"), (203, "Non-Authoritative Information"),
  (204, "No Content"), (205, "Reset Content"), (206, "Partial Content"), (207, "Multi-Status"),
  (300, "Multiple Choices"), (301, "Moved Permanently"), (302, "Found"), (303, "See Other"),
  (304, "Not Modified"), (305, "Use Proxy"), (306, "Switch Proxy"), (307, "Temporary Redirect"),
  (400, "Bad Request"), (401, "Unauthorized"), (402, "Payment Required"), (403, "Forbidden"),
  (404, "Not Found"), (405, "Method Not Allowed"), (406, "Not Acceptable"),
  (407, "Proxy Authentication Required"), (408, "Request Timeout"), (409, "Conflict"),
  (410, "Gone"), (411, "Length Required"), (412, "Precondition Failed"),
  (413, "Request Entity Too Large"), (414, "Request-URI Too Long"),
  (415, "Unsupported Media Type"), (416, "Requested Range Not Satisfiable"),
  (417, "Expectation Failed"), (418, "I'm a teapot"),
  (421, "There are too many connections from your internet address"),
  (422, "Unprocessable Entity"), (423, "Locked"), (424, "Failed Dependency"),
  (425, "Unordered Collection"), (426, "Upgrade Required"), (449, "Retry With"),
  (450, "Blocked by Windows Parental Controls"), (500, "Internal Server Error"),
  (501, "Not Implemented"), (502, "Bad Gateway"), (503, "Service Unavailable"),
  (504, "Gateway Timeout"), (505, "HTTP Version Not Supported"),
  (506, "Variant Also Negotiates"), (507, "Insufficient Storage"),
  (509, "Bandwidth Limit Exceeded"), (510, "Not Extended"), (530, "User access denied")]

/-- `http_status_code_message (a_code)`. -/
def httpStatusCodeMessage (aCode : ℤ) : Option String8 := (statusCodeMessages.lookup aCode).map str

/-- The text `put_status_line (a_code)` gives to `put_header_line`. -/
def statusText (aCode : ℤ) : String8 :=
  str "HTTP/1.1" ++ ch ' ' :: integerOut aCode ++
    (httpStatusCodeMessage aCode).elim [] (ch ' ' :: ·)

/-- What `put_status_line (a_code)` writes. -/
def statusLine (aCode : ℤ) : String8 := statusText aCode ++ crlf

/-! ## Lines -/

/-- No line ends in the text. -/
def OneLine (s : String8) : Prop := ¬ crlf <:+: s

/-- Lines that are not empty, each with its end. -/
def IsHeaderText (s : String8) : Prop :=
  ∃ lines : List String8, (∀ l ∈ lines, l ≠ [] ∧ OneLine l) ∧ s = lines.flatMap (· ++ crlf)

lemma oneLine_of_notMem {s : String8} (h : (13 : Character8) ∉ s) : OneLine s := by
  intro hin
  exact h (hin.subset (by simp [crlf]))

/-- A line with a key, a colon, a blank and a value. -/
lemma oneLine_key_value {k v : String8} (hk : OneLine k) (hv : OneLine v) :
    OneLine (k ++ str ": " ++ v) := by
  have hsplit : k ++ str ": " ++ v = k ++ ch ':' :: ([] ++ ch ' ' :: v) := by
    simp [str]
  unfold OneLine
  rw [hsplit, Text.infix_append_cons_iff (by decide), Text.infix_append_cons_iff (by decide)]
  rintro (h | h | h)
  · exact hk h
  · exact absurd h (by decide)
  · exact hv h

namespace HttpHeader

/-- A line of a header after a replacement is the new line or an old one. -/
lemma mem_replaceHeader {n h l : String8} {headers : HttpHeader}
    (hl : l ∈ replaceHeader n h headers) : l = h ∨ l ∈ headers := by
  induction headers with
  | nil => simpa [replaceHeader, addHeader] using hl
  | cons l' headers ih =>
    rw [replaceHeader] at hl
    split at hl
    · rcases List.mem_cons.mp hl with hl | hl
      · exact Or.inl hl
      · exact Or.inr (List.mem_cons_of_mem _ hl)
    · rcases List.mem_cons.mp hl with hl | hl
      · exact Or.inr (hl ▸ List.mem_cons_self)
      · exact (ih hl).imp_right (List.mem_cons_of_mem _)

lemma mem_putHeader {h l : String8} {headers : HttpHeader} (hl : l ∈ putHeader headers h) :
    l = h ∨ l ∈ headers := by
  rw [putHeader] at hl
  rcases hname : headerName h with _ | n
  · rw [hname] at hl
    simpa [forceHeaderByName, addHeader, or_comm] using hl
  · rw [hname] at hl
    exact mem_replaceHeader hl

/-- The lines that `put_header_key_value` adds for a list of keys and values. -/
lemma mem_foldl_putHeaderKeyValue {kvs : List (String8 × String8)} {headers : HttpHeader}
    {l : String8} (hl : l ∈ kvs.foldl (fun h kv => putHeaderKeyValue h kv.1 kv.2) headers) :
    (∃ kv ∈ kvs, l = kv.1 ++ str ": " ++ kv.2) ∨ l ∈ headers := by
  induction kvs generalizing headers with
  | nil => exact Or.inr hl
  | cons kv kvs ih =>
    rcases ih hl with ⟨kv', hmem, rfl⟩ | hl
    · exact Or.inl ⟨kv', List.mem_cons_of_mem _ hmem, rfl⟩
    · rcases mem_putHeader hl with rfl | hl
      · exact Or.inl ⟨kv, List.mem_cons_self, rfl⟩
      · exact Or.inr hl

/-- **The text of a header** whose keys and values are free of ends of lines. -/
lemma isHeaderText_string {kvs : List (String8 × String8)}
    (h : ∀ kv ∈ kvs, OneLine kv.1 ∧ OneLine kv.2) :
    IsHeaderText (string (kvs.foldl (fun h kv => putHeaderKeyValue h kv.1 kv.2) [])) := by
  refine ⟨_, fun l hl => ?_, rfl⟩
  rcases mem_foldl_putHeaderKeyValue hl with ⟨kv, hmem, rfl⟩ | hl
  · obtain ⟨hk, hv⟩ := h kv hmem
    exact ⟨by simp [str], oneLine_key_value hk hv⟩
  · cases hl

end HttpHeader

/-! ## The status line is one line -/

lemma notMem_integerOut (i : ℤ) : (13 : Character8) ∉ integerOut i := by
  have hnat : ∀ n : ℕ, (13 : Character8) ∉ natOut n :=
    fun n hmem => absurd (isDigit_of_mem_natOut hmem) (by decide)
  rw [integerOut]
  split
  · simp only [List.mem_cons, not_or]
    exact ⟨by decide, hnat _⟩
  · exact hnat _

lemma notMem_httpStatusCodeMessage {aCode : ℤ} {msg : String8}
    (h : httpStatusCodeMessage aCode = some msg) : (13 : Character8) ∉ msg := by
  have hall : statusCodeMessages.all (fun e => (13 : Character8) ∉ str e.2) = true := by
    decide +kernel
  obtain ⟨s, hs, rfl⟩ := Option.map_eq_some_iff.mp h
  obtain ⟨e, he, rfl⟩ : ∃ e ∈ statusCodeMessages, e.2 = s := by
    rw [List.lookup_eq_some_iff] at hs
    obtain ⟨l₁, l₂, hl, -⟩ := hs
    exact ⟨(aCode, s), by rw [hl]; simp, rfl⟩
  simpa using List.all_eq_true.mp hall e he

/-- The status line is one line. -/
lemma oneLine_statusText (aCode : ℤ) : OneLine (statusText aCode) := by
  apply oneLine_of_notMem
  unfold statusText
  rcases hmsg : httpStatusCodeMessage aCode with _ | msg
  · simp only [Option.elim_none, List.append_nil, List.mem_append, List.mem_cons, not_or]
    exact ⟨by decide, by decide, notMem_integerOut aCode⟩
  · simp only [Option.elim_some, List.mem_append, List.mem_cons, not_or]
    exact ⟨⟨by decide, by decide, notMem_integerOut aCode⟩, by decide,
      notMem_httpStatusCodeMessage hmsg⟩

end EiffelWeb
