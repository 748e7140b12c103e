import Mathlib.Data.List.Basic
import Mathlib.Tactic.Common
import EiffelWeb.Http.HeaderText
import EiffelWeb.Wsf.Response

set_option relaxedAutoImplicit false
set_option autoImplicit false

/-!
# Ends of lines in a response

Keys and values of a header line, and with them the address of a redirection, are copied into the
header text as they are. The response keeps its lines if and only if no end of line is in them:
this is left to the caller.

## Main definitions

* `WsfResponse.redirectText` — the header text of a redirection.
* `EndsOnce` — one line with its end.

## Main results

* `WsfResponse.redirectNow_eq` — what a redirection writes.
* `WsfResponse.line_ends_of_response`
-/

namespace EiffelWeb

/-- The text is one line with its end, and has no other characters of ends of lines. -/
def EndsOnce (s : String8) : Prop := ∃ l, Unbroken l ∧ s = l ++ crlf

lemma endsOnce_append_crlf {l : String8} : EndsOnce (l ++ crlf) ↔ Unbroken l := by
  constructor
  · rintro ⟨l', hl', heq⟩
    rw [List.append_cancel_right heq]
    exact hl'
  · intro h
    exact ⟨l, h, rfl⟩

namespace WsfResponse

/-- The header text of `redirect_now (a_url)`. -/
def redirectText (aUrl : String8) : String8 := (HttpHeader.putLocation [] aUrl).string

lemma redirectText_eq (aUrl : String8) :
    redirectText aUrl = HttpHeader.line (str "Location", aUrl) ++ crlf := by
  have hname : HttpHeader.putLocation [] aUrl = [HttpHeader.line (str "Location", aUrl)] := by
    have hcolon : ch ':' ∉ str "Location" := by decide
    have hletters : (str "Location").all HttpHeader.isNameCharacter = true := by decide
    have hput := @HttpHeader.putHeaderKeyValue_eq (str "Location", aUrl) hcolon []
    rw [if_pos hletters] at hput
    exact hput
  rw [redirectText, hname, HttpHeader.string, List.flatMap_singleton]

/-- **What a redirection writes** when nothing was written before: the status line, the header text
and the empty line. All require clauses hold. -/
lemma redirectNow_eq (aUrl : String8) :
    redirectNow aUrl WgiResponse.make =
      (⟨301, true, statusLine 301 ++ redirectText aUrl ++ crlf⟩, true) := by
  have hclause : WgiResponse.noEndingCrlfCrlf (redirectText aUrl) = true :=
    noEndingCrlfCrlf_eq_true _
  unfold redirectText at hclause ⊢
  simp [redirectNow, redirectNowWithCustomStatusCode, Routine.call, Routine.andThen,
    Routine.update, headerNotCommitted, setStatusCode, writeHeaderText, notStarted, headerPending,
    WgiResponse.setStatusCode, WgiResponse.writeHeaderText, WgiResponse.write, hclause,
    WgiResponse.statusIsSet, WgiResponse.make]

/-- **Ends of lines.** The header text of a redirection is one line with its end if and only if the
address is free of ends of lines. The text of a header that was filled with keys and values has as
many ends of lines as the header has lines if and only if no line has one inside; so if the keys
and the values have none. -/
theorem line_ends_of_response :
    (∀ aUrl, (redirectNow aUrl WgiResponse.make).1.output =
        statusLine 301 ++ redirectText aUrl ++ crlf ∧
      (EndsOnce (redirectText aUrl) ↔ Unbroken aUrl)) ∧
    ∀ kvs : List (String8 × String8),
      (lineEnds (HttpHeader.buildString (HttpHeader.putAll kvs)) = (HttpHeader.putAll kvs).length ↔
        ∀ l ∈ HttpHeader.putAll kvs, Unbroken l) ∧
      ((∀ kv ∈ kvs, Unbroken kv.1 ∧ Unbroken kv.2) → ∀ l ∈ HttpHeader.putAll kvs, Unbroken l) := by
  constructor
  · intro aUrl
    have hlocation : Unbroken (str "Location") := by decide
    refine ⟨by rw [redirectNow_eq], ?_⟩
    rw [redirectText_eq, endsOnce_append_crlf, HttpHeader.unbroken_line_iff]
    exact and_iff_right hlocation
  · intro kvs
    rw [HttpHeader.buildString_eq]
    refine ⟨HttpHeader.lineEnds_string_eq_iff _, fun h l hl => ?_⟩
    rcases HttpHeader.mem_foldl_putHeaderKeyValue hl with ⟨kv, hmem, rfl⟩ | hl
    · exact (HttpHeader.unbroken_line_iff kv).mpr (h kv hmem)
    · cases hl

/-- An address with an end of line: the text of the redirection has a second line, and so has the
text of a header with such a value. -/
theorem redirect_two_lines :
    ¬ ((∀ aUrl, aUrl ≠ [] → EndsOnce (redirectText aUrl)) ∧
      ∀ kvs : List (String8 × String8),
        lineEnds (HttpHeader.buildString (HttpHeader.putAll kvs)) =
          (HttpHeader.putAll kvs).length) ∧
    redirectText (str "/" ++ crlf ++ str "A: b") = str "Location: /" ++ crlf ++ str "A: b" ++ crlf ∧
    lineEnds (HttpHeader.buildString
      (HttpHeader.putAll [(str "Location", str "/" ++ crlf ++ str "A: b")])) = 2 := by
  have htext : redirectText (str "/" ++ crlf ++ str "A: b") =
      str "Location: /" ++ crlf ++ str "A: b" ++ crlf := by decide
  have htwo : lineEnds (HttpHeader.buildString
      (HttpHeader.putAll [(str "Location", str "/" ++ crlf ++ str "A: b")])) = 2 := by decide
  refine ⟨fun hall => ?_, htext, htwo⟩
  have hone := hall.2 [(str "Location", str "/" ++ crlf ++ str "A: b")]
  rw [htwo] at hone
  exact absurd hone (by decide)

end WsfResponse

end EiffelWeb
