import Mathlib.Data.List.Basic
import Mathlib.Tactic.Common
import EiffelWeb.Character

set_option relaxedAutoImplicit false
set_option autoImplicit false

/-!
# Routes and request methods

What the routers share, the class `REQUEST_ROUTER`: a list of routes, each with a handler, a
resource, and the request methods it accepts, and the scan of the routes in the order of their
registration. Handlers are an arbitrary type.

## Main definitions

* `Entry` — a route.
* `isMatchingRequestMethods`, `formattedRequestMethods`
* `Earliest` — the first route of a list with a property.

## Main results

* `find?_eq_some_iff_earliest` — a scan finds the earliest route with a property.
* `isMatchingRequestMethods_formatted` — which requests a registered route accepts.
-/

namespace EiffelWeb

/-- A route: an item of `handlers`. -/
structure Entry (H : Type*) where
  /-- The field `handler`. -/
  handler : H
  /-- The field `resource`. -/
  resource : String8
  /-- The field `request_methods`. -/
  requestMethods : Option (List String8)

/-- `is_matching_request_methods (a_request_method, rqst_methods)`. -/
def isMatchingRequestMethods (aRequestMethod : String8) (rqstMethods : Option (List String8)) :
    Bool :=
  match rqstMethods with
  | some (m :: ms) => (m :: ms).any fun m' => aRequestMethod = m'
  | _ => true

/-- `formatted_request_methods (rqst_methods)`. The array is filled with the first method, and the
loop starts behind it: the first method is not changed. -/
def formattedRequestMethods (rqstMethods : Option (List String8)) : Option (List String8) :=
  match rqstMethods with
  | some (m :: ms) => some (m :: ms.map fun m' => m'.map upper)
  | _ => none

/-- A route accepts every request if no methods are given. Else the request has the first method as
it is given, or one of the others in upper case. -/
lemma isMatchingRequestMethods_formatted {aRequestMethod : String8}
    {rqstMethods : Option (List String8)} :
    isMatchingRequestMethods aRequestMethod (formattedRequestMethods rqstMethods) = true ↔
      rqstMethods.getD [] = [] ∨ ∃ m ms, rqstMethods = some (m :: ms) ∧
        (aRequestMethod = m ∨ ∃ m' ∈ ms, aRequestMethod = m'.map upper) := by
  match rqstMethods with
  | none => simp [formattedRequestMethods, isMatchingRequestMethods]
  | some [] => simp [formattedRequestMethods, isMatchingRequestMethods]
  | some (m :: ms) => simp [formattedRequestMethods, isMatchingRequestMethods]

section Earliest

variable {E : Type*}

/-- The route `e` has the property, and no route registered before it has. -/
def Earliest (P : E → Prop) (entries : List E) (e : E) : Prop :=
  P e ∧ ∃ pre post, entries = pre ++ e :: post ∧ ∀ e' ∈ pre, ¬ P e'

/-- **A scan finds the earliest route with a property.** -/
lemma find?_eq_some_iff_earliest {P : E → Bool} {entries : List E} {e : E} :
    entries.find? P = some e ↔ Earliest (fun e => P e = true) entries e := by
  rw [List.find?_eq_some_iff_append, Earliest]
  simp only [Bool.not_eq_true', Bool.not_eq_true]

lemma Earliest.mem {P : E → Prop} {entries : List E} {e : E} (h : Earliest P entries e) :
    e ∈ entries := by
  obtain ⟨-, pre, post, rfl, -⟩ := h
  simp

end Earliest

end EiffelWeb
