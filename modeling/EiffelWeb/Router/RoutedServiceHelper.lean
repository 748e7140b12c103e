import Mathlib.Data.List.Basic
import Mathlib.Tactic.Common
import EiffelWeb.Contract
import EiffelWeb.Wsf.Response

set_option relaxedAutoImplicit false
set_option autoImplicit false

/-!
# Error responses of routed services

`ROUTED_SERVICE_HELPER` answers requests with a content type or a method that a service does not
accept. Its routines are clients of `WSF_RESPONSE`, with the calls of `set_status_code` counted:
they set the status code themselves and call `write_header`, which sets it once more.

## Main definitions

* `WatchedResponse` — a response with the number of calls of `set_status_code`.
* `RoutedServiceHelper.executeContentTypeNotAllowed`
* `RoutedServiceHelper.executeRequestMethodNotAllowed`
* `RoutedServiceHelper.SetsStatusOnce` — one call on a fresh response.

## Main results

* `WatchedResponse.setStatusCode_response`, `WatchedResponse.writeHeader_response` — the count
  apart, the routines are those of `WSF_RESPONSE`.
* `RoutedServiceHelper.executeContentTypeNotAllowed_eq`,
  `RoutedServiceHelper.executeRequestMethodNotAllowed_eq` — what the routines leave.
* `RoutedServiceHelper.not_setsStatusOnce`
-/

namespace EiffelWeb

/-- A response, with the number of calls of `set_status_code` made on it. -/
structure WatchedResponse where
  /-- The response. -/
  response : WgiResponse
  /-- The number of calls. -/
  statusCalls : ℕ

namespace WatchedResponse

/-- A fresh response. -/
def make : WatchedResponse := ⟨WgiResponse.make, 0⟩

/-- A routine that makes no call of `set_status_code`. -/
def quiet (p : Routine WgiResponse) : Routine WatchedResponse := fun w =>
  (⟨(p w.response).1, w.statusCalls⟩, (p w.response).2)

/-- `set_status_code (a_code)`. -/
def setStatusCode (aCode : ℤ) : Routine WatchedResponse := fun w =>
  (⟨(WsfResponse.setStatusCode aCode w.response).1, w.statusCalls + 1⟩,
    (WsfResponse.setStatusCode aCode w.response).2)

/-- `write_header (a_status_code, a_headers)`, with its call of `set_status_code`. -/
def writeHeader (aStatusCode : ℤ) (aHeaders : Option (List (String8 × String8))) :
    Routine WatchedResponse :=
  Routine.call (fun w => WsfResponse.notStarted w.response)
    (Routine.andThen (setStatusCode aStatusCode)
      (quiet (WgiResponse.writeHeaderText (WsfResponse.headerOf aHeaders).string)))

/-- `write_string (s)`. -/
def writeString (s : String8) : Routine WatchedResponse := quiet (WsfResponse.writeString s)

/-- The count apart, `set_status_code` is that of `WSF_RESPONSE`. -/
lemma setStatusCode_response (aCode : ℤ) (w : WatchedResponse) :
    ((setStatusCode aCode w).1.response, (setStatusCode aCode w).2) =
      WsfResponse.setStatusCode aCode w.response := rfl

/-- The count apart, `write_header` is that of `WSF_RESPONSE`. -/
lemma writeHeader_response (aStatusCode : ℤ) (aHeaders : Option (List (String8 × String8)))
    (w : WatchedResponse) :
    ((writeHeader aStatusCode aHeaders w).1.response, (writeHeader aStatusCode aHeaders w).2) =
      WsfResponse.writeHeader aStatusCode aHeaders w.response := rfl

/-! ## What the calls leave -/

lemma setStatusCode_eq (aCode : ℤ) (w : WatchedResponse) :
    setStatusCode aCode w =
      (⟨⟨aCode, w.response.headerCommitted, w.response.output ++ statusLine aCode⟩,
        w.statusCalls + 1⟩, WsfResponse.notStarted w.response) := by
  simp [setStatusCode, WsfResponse.setStatusCode, WgiResponse.setStatusCode, Routine.call,
    Routine.andThen, Routine.update, WgiResponse.write, WsfResponse.notStarted]

/-- The status line is written once more, whether there is one or not. -/
lemma writeHeader_eq {aStatusCode : ℤ} (hcode : aStatusCode ≠ 0)
    (aHeaders : Option (List (String8 × String8))) (w : WatchedResponse) :
    writeHeader aStatusCode aHeaders w =
      (⟨⟨aStatusCode, true, w.response.output ++ statusLine aStatusCode ++
        (WsfResponse.headerOf aHeaders).string ++ crlf⟩, w.statusCalls + 1⟩,
        WsfResponse.notStarted w.response) := by
  have hclause := WsfResponse.noEndingCrlfCrlf_eq_true (WsfResponse.headerOf aHeaders).string
  cases hcommitted : w.response.headerCommitted
  all_goals
    simp [writeHeader, Routine.call, Routine.andThen, setStatusCode_eq, quiet,
      WgiResponse.writeHeaderText, WgiResponse.write, Routine.update, hclause,
      WgiResponse.statusIsSet, hcode, hcommitted, WsfResponse.notStarted]

/-- Text is written behind a header. -/
lemma writeString_eq {aCode : ℤ} (hcode : aCode ≠ 0) (s output : String8) (n : ℕ) :
    writeString s ⟨⟨aCode, true, output⟩, n⟩ = (⟨⟨aCode, true, output ++ s⟩, n⟩, true) := by
  simp [writeString, quiet, WsfResponse.writeString, WgiResponse.writeString, Routine.call,
    WgiResponse.write, Routine.update, WgiResponse.messageWritable, WgiResponse.statusIsSet, hcode]

end WatchedResponse

namespace RoutedServiceHelper

open WatchedResponse

/-- The loop over `a_content_types` or `a_uri_formats`: a separator behind every item but the last
one. -/
def appendItems (s : String8) : List String8 → String8
  | [] => s
  | [t] => s ++ t
  | t :: t' :: ts => appendItems (s ++ t ++ [ch ','] ++ [ch ' ']) (t' :: ts)

/-- The loop over `a_methods`: a separator unless nothing was appended so far. -/
def appendMethods (s : String8) : List String8 → String8
  | [] => s
  | m :: ms => appendMethods ((if s.isEmpty then s else s ++ [ch ','] ++ [ch ' ']) ++ m) ms

/-- `accept_s`. -/
def acceptText (aContentTypes : Option (List String8)) : String8 :=
  match aContentTypes with
  | some ts => appendItems [] ts
  | none => str "*/*"

/-- `uri_s`. -/
def uriText (aUriFormats : Option (List String8)) : Option String8 :=
  aUriFormats.map (appendItems [])

/-- The text about the formats that is written last. -/
def formatMessage (uriS : String8) : String8 :=
  str "Unsupported request format from the URI: " ++ uriS ++ str "\n"

/-- `execute_content_type_not_allowed (req, res, a_content_types, a_uri_formats)`, which does not
use `req`. -/
def executeContentTypeNotAllowed (aContentTypes aUriFormats : Option (List String8)) :
    Routine WatchedResponse :=
  let acceptS := acceptText aContentTypes
  Routine.andThen (setStatusCode 415)
    (Routine.andThen
      (writeHeader 415
        (some [(str "Content-Type", str "text/plain"), (str "Accept", acceptS)]))
      (Routine.andThen
        (writeString (str "Unsupported request content-type, Accept: " ++ acceptS ++ str "\n"))
        (match uriText aUriFormats with
        | some uriS => writeString (formatMessage uriS)
        | none => Routine.update id)))

/-- `execute_request_method_not_allowed (req, res, a_methods)`, which does not use `req`. -/
def executeRequestMethodNotAllowed (aMethods : List String8) : Routine WatchedResponse :=
  let s := appendMethods [] aMethods
  Routine.andThen (setStatusCode 405)
    (Routine.andThen (setStatusCode 405)
      (Routine.andThen
        (writeHeader 405 (some [(str "Content-Type", str "text/plain"), (str "Allow", s)]))
        (writeString (str "Unsupported request method, Allow: " ++ s ++ str "\n"))))

/-- On a fresh response, the routine calls `set_status_code` exactly once. -/
def SetsStatusOnce (p : Routine WatchedResponse) : Prop :=
  (p WatchedResponse.make).1.statusCalls = 1

/-! ## What the routines leave -/

/-- The lines of the status and the header of an error response, `n` calls of `set_status_code`
included. -/
def errorHead (aCode : ℤ) (n : ℕ) (aHeaders : List (String8 × String8)) : String8 :=
  (List.replicate n (statusLine aCode)).flatten ++
    (WsfResponse.headerOf (some aHeaders)).string ++ crlf

/-- **A content type that is not allowed**: two calls, two status lines, and a call that violates
its require clause. -/
lemma executeContentTypeNotAllowed_eq (aContentTypes aUriFormats : Option (List String8)) :
    executeContentTypeNotAllowed aContentTypes aUriFormats WatchedResponse.make =
      (⟨⟨415, true,
        errorHead 415 2
          [(str "Content-Type", str "text/plain"), (str "Accept", acceptText aContentTypes)] ++
        (str "Unsupported request content-type, Accept: " ++ acceptText aContentTypes ++
          str "\n") ++
        (uriText aUriFormats).elim [] formatMessage⟩, 2⟩, false) := by
  have hcode : (415 : ℤ) ≠ 0 := by decide
  cases huri : uriText aUriFormats
  all_goals
    simp [executeContentTypeNotAllowed, Routine.andThen, setStatusCode_eq, writeHeader_eq hcode,
      writeString_eq hcode, huri, errorHead, WatchedResponse.make, WgiResponse.make,
      WsfResponse.notStarted, WgiResponse.statusIsSet, Routine.update]

/-- **A method that is not allowed**: three calls, three status lines, and two calls that violate
their require clauses. -/
lemma executeRequestMethodNotAllowed_eq (aMethods : List String8) :
    executeRequestMethodNotAllowed aMethods WatchedResponse.make =
      (⟨⟨405, true,
        errorHead 405 3
          [(str "Content-Type", str "text/plain"), (str "Allow", appendMethods [] aMethods)] ++
        (str "Unsupported request method, Allow: " ++ appendMethods [] aMethods ++
          str "\n")⟩, 3⟩, false) := by
  have hcode : (405 : ℤ) ≠ 0 := by decide
  simp [executeRequestMethodNotAllowed, Routine.andThen, setStatusCode_eq, writeHeader_eq hcode,
    writeString_eq hcode, errorHead, WatchedResponse.make, WgiResponse.make,
    WsfResponse.notStarted, WgiResponse.statusIsSet]

/-- **The error responses set the status more than once**, whatever their arguments. -/
theorem not_setsStatusOnce (aContentTypes aUriFormats : Option (List String8))
    (aMethods : List String8) :
    ¬ SetsStatusOnce (executeContentTypeNotAllowed aContentTypes aUriFormats) ∧
      ¬ SetsStatusOnce (executeRequestMethodNotAllowed aMethods) := by
  constructor
  · intro h
    have htwo : (executeContentTypeNotAllowed aContentTypes aUriFormats
        WatchedResponse.make).1.statusCalls = 2 := by
      rw [executeContentTypeNotAllowed_eq]
    rw [SetsStatusOnce, htwo] at h
    exact absurd h (by decide)
  · intro h
    have hthree : (executeRequestMethodNotAllowed aMethods
        WatchedResponse.make).1.statusCalls = 3 := by
      rw [executeRequestMethodNotAllowed_eq]
    rw [SetsStatusOnce, hthree] at h
    exact absurd h (by decide)

/-- The answer to a method when no methods are given: the status is set three times. -/
theorem setsStatusOnce_fails :
    ¬ ((∀ aContentTypes aUriFormats,
        SetsStatusOnce (executeContentTypeNotAllowed aContentTypes aUriFormats)) ∧
      ∀ aMethods, SetsStatusOnce (executeRequestMethodNotAllowed aMethods)) ∧
    (executeContentTypeNotAllowed none none WatchedResponse.make).1.statusCalls = 2 ∧
    (executeRequestMethodNotAllowed [] WatchedResponse.make).1.statusCalls = 3 := by
  have hthree : (executeRequestMethodNotAllowed [] WatchedResponse.make).1.statusCalls = 3 := rfl
  refine ⟨fun hall => ?_, rfl, hthree⟩
  have hone := hall.2 []
  unfold SetsStatusOnce at hone
  rw [hthree] at hone
  exact absurd hone (by decide)

end RoutedServiceHelper

end EiffelWeb
