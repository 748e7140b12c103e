import Mathlib.Data.List.Basic
import Mathlib.Tactic.Common
import EiffelWeb.Encoder.Utf8Url
import EiffelWeb.Wsf.Value
import EiffelWeb.UriTemplate.Template
import EiffelWeb.UriTemplate.Soundness
import EiffelWeb.UriTemplate.RoundTrip
import EiffelWeb.Router.TemplateRouter

set_option relaxedAutoImplicit false
set_option autoImplicit false

/-!
# Path parameters

The way of a path parameter from the connector to a handler. The request decodes the path; the
template router matches the decoded path, as a `STRING_8`; the result of the match decodes the value
of the variable; and the value object decodes it again. A value arrives as it was encoded only if
each decoding behind the first leaves it as it is.

## Main definitions

* `WsfRequest.pathInfo` — the decoded path of a request.
* `TemplateContext.pathParameter` — the parameter a handler asks for.

## Main results

* `matchUri_variable` — the match of `/x/{v}`.
* `asString8_pathInfo` — what the request leaves of an encoded value.
* `pathParameter_eq_iff` — when a path parameter is the value that was encoded.
-/

namespace EiffelWeb

/-- The attribute `path_info` that `initialize` sets, from the `PATH_INFO` of the connector. -/
def WsfRequest.pathInfo (uc : UnicodeConversion) (wgiPathInfo : String8) : String32 :=
  urlDecodedString uc wgiPathInfo

/-- `path_parameter (a_name)`. The value object takes a `STRING_8`. -/
def TemplateContext.pathParameter (uc : UnicodeConversion) (ctx : TemplateContext)
    (aName : String8) : Option WsfValue :=
  (ctx.uriTemplateMatch.urlDecodedPathVariable aName).map fun s =>
    .string (WsfString.make uc aName (asString8 s))

/-- `string_path_parameter (a_name)`: the string of the parameter if it is a `WSF_STRING`. -/
def TemplateContext.stringPathParameter (uc : UnicodeConversion) (ctx : TemplateContext)
    (aName : String8) : Option String32 :=
  match ctx.pathParameter uc aName with
  | some (.string val) => some val.string
  | _ => none

namespace UriTemplate

/-- The template `/x/{v}`. -/
def variablePattern : Pattern where
  lit := str "/x/"
  parts := [⟨false, str "v", []⟩]
  lit_plain := by decide
  lits_plain := by simp
  names_valid := by simpa using validName_v
  names_nodup := by simp

/-- **The match of `/x/{v}`**: a rest of the path without a slash or a question mark is the value of
the variable. -/
lemma matchUri_variable {v : String8} (hne : v ≠ []) (hv : ∀ c ∈ v, c ≠ ch '/' ∧ c ≠ ch '?') :
    matchUri (str "/x/\x7bv\x7d") (str "/x/" ++ v) = some (some ⟨[(str "v", v)], []⟩) := by
  have htext : variablePattern.text = str "/x/\x7bv\x7d" := by decide
  have hseg : segment none v = v := by
    have h := @segment_append none v
      (fun c hc r => by simp [stops, tokenStarts, (hv c hc).1, (hv c hc).2]) []
    simpa [segment] using h
  have hquery : ch '?' ∉ str "/x/" := by decide
  have hreads : variablePattern.Reads (str "/x/" ++ v) [⟨v, .value v⟩] [] := by
    refine ⟨?_, ?_, ?_⟩
    · simp [reading, variablePattern, takePart, takeText, separator, hne, hseg]
    · simp [endTest, variablePattern, lastLit]
    · simp [variablePattern]
  rw [← htext, matchUri_eq_some_iff]
  refine ⟨_, _, hreads, ?_⟩
  simp [stored, variablePattern, MatchResult.update, Capture.store, HashTable.force, hquery]

end UriTemplate

namespace UrlEncoder

/-- Text without escapes in front of encoded text is decoded to itself. -/
lemma decode_append_of_plain {p : String8} (hp : ∀ c ∈ p, c ≠ ch '+' ∧ c ≠ ch '%') (r : String8) :
    decode (p ++ r) = asString32 p ++ decode r := by
  induction p with
  | nil => rfl
  | cons c p ih =>
    obtain ⟨hplus, hpercent⟩ := hp c List.mem_cons_self
    rw [List.cons_append, decode_other hplus hpercent,
      ih fun d hd => hp d (List.mem_cons_of_mem c hd)]
    rfl

end UrlEncoder

section Decoding

variable (uc : UnicodeConversion)

/-- What the router finds of the value with the bytes `b` behind `/x/`. -/
structure Arrives (b v : String8) : Prop where
  /-- The value is not empty. -/
  ne_nil : v ≠ []
  /-- The value is one segment of the path. -/
  segment : ∀ c ∈ v, c ≠ ch '/' ∧ c ≠ ch '?'
  /-- The value is not longer than the bytes. -/
  length_le : v.length ≤ b.length
  /-- A value that is not shorter than the bytes consists of them. -/
  eq_of_length : v.length = b.length → v = b
  /-- A literal value consists of the bytes. -/
  eq_of_literal : Utf8UrlEncoder.Literal uc b → v = b

/-- A character of the decoded value that is a slash or a question mark is one of the bytes. -/
lemma mem_utf8_of_mem {l : List Char} {c : Character8} (h0 : c ≠ 0) (hlt : c.toNat < 128)
    (h : c ∈ asString8 (l.map Char.val)) : c ∈ utf8 l := by
  simp only [asString8, List.map_map, List.mem_map, Function.comp] at h
  obtain ⟨d, hd, rfl⟩ := h
  have hle : d.val.toNat ≤ 255 := by
    by_contra hgt
    exact h0 (if_neg hgt)
  have hd128 : d.val.toNat < 128 := by
    rwa [toNat_asCharacter8 hle] at hlt
  rw [utf8, List.mem_flatMap]
  refine ⟨d, hd, ?_⟩
  rcases Utf8UrlEncoder.utf8EncodeChar_cases d with ⟨-, hc⟩ | hlen
  · rw [hc]
    exact List.mem_singleton_self _
  · rw [String.utf8EncodeChar, if_pos (by omega)] at hlen
    simp at hlen

/-- The percent decoder on an encoded value behind `/x/`. -/
lemma decode_variablePath {b : String8} (hcodes : ∀ c ∈ b, 16 ≤ c.toNat) :
    UrlEncoder.decode (str "/x/" ++ UrlEncoder.encode (asString32 b)) =
      asString32 (str "/x/" ++ b) := by
  have hcodes32 : ∀ c ∈ asString32 b, 16 ≤ c.toNat ∧ c.toNat ≤ 255 := by
    intro c hc
    obtain ⟨d, hd, rfl⟩ := List.mem_map.mp hc
    rw [UInt8.toNat_toUInt32]
    have hlt := d.toNat_lt
    exact ⟨hcodes d hd, by omega⟩
  rw [UrlEncoder.decode_append_of_plain (by decide +kernel), UrlEncoder.decode_encode hcodes32]
  simp [asString32]

/-- **What the request leaves of an encoded value**, as the router sees it. -/
lemma asString8_pathInfo (hstrict : uc.Strict) {b : String8} (hne : b ≠ [])
    (hcodes : ∀ c ∈ b, 16 ≤ c.toNat ∧ c ≠ ch '/' ∧ c ≠ ch '?') :
    ∃ v, asString8 (WsfRequest.pathInfo uc (str "/x/" ++ UrlEncoder.encode (asString32 b))) =
      str "/x/" ++ v ∧ Arrives uc b v := by
  rw [WsfRequest.pathInfo, urlDecodedString, Utf8UrlEncoder.decodedString_result,
    decode_variablePath fun c hc => (hcodes c hc).1, asString8_asString32]
  split_ifs with hvalid
  · -- the bytes pass for UTF-8: the three ASCII characters in front are characters of their own
    obtain ⟨l, hl⟩ := hstrict _ hvalid
    obtain ⟨l₁, rfl, hl₁⟩ := Utf8UrlEncoder.exists_of_cons_eq_utf8 (a := ch '/') (by decide) hl
    obtain ⟨l₂, rfl, hl₂⟩ := Utf8UrlEncoder.exists_of_cons_eq_utf8 (a := ch 'x') (by decide) hl₁
    obtain ⟨l₃, rfl, rfl⟩ := Utf8UrlEncoder.exists_of_cons_eq_utf8 (a := ch '/') (by decide) hl₂
    have hlength := Utf8UrlEncoder.length_le_length_utf8 l₃
    have hsame : l₃.length = (utf8 l₃).length → asString8 (l₃.map Char.val) = utf8 l₃ := by
      intro hlen
      rw [← (Utf8UrlEncoder.ascii_of_length_utf8 hlen.symm).2, asString8_asString32]
    refine ⟨asString8 (l₃.map Char.val), ?_, ?_, ?_, ?_, ?_, ?_⟩
    · rw [hl, uc.utf8ToUtf32_utf8]
      rfl
    · intro hnil
      have hl₃ : l₃ = [] := by simpa [asString8] using hnil
      exact hne (by rw [hl₃]; rfl)
    · intro c hc
      constructor
      · rintro rfl
        exact (hcodes _ (mem_utf8_of_mem (by decide) (by decide) hc)).2.1 rfl
      · rintro rfl
        exact (hcodes _ (mem_utf8_of_mem (by decide) (by decide) hc)).2.2 rfl
    · simpa [asString8] using hlength
    · intro hlen
      exact hsame (by simpa [asString8] using hlen)
    · intro hliteral
      have hascii := hliteral.2.2 (uc.isValidUtf8_utf8 l₃)
      have hlists : l₃.map Char.val = asString32 (utf8 l₃) := by
        have h := Utf8UrlEncoder.utf8ToUtf32_ascii uc hascii
        rw [uc.utf8ToUtf32_utf8] at h
        exact (Prod.mk.inj h).1
      rw [hlists, asString8_asString32]
  · refine ⟨b, ?_, hne, fun c hc => (hcodes c hc).2, le_rfl, fun _ => rfl, fun _ => rfl⟩
    rw [asString8_asString32]

/-- A value is decoded twice more, once by the percent decoder alone. It is what it was if and only
if it is literal. -/
lemma decoded_twice_eq_iff (hstrict : uc.Strict) {b v : String8} (h : Arrives uc b v) :
    urlDecodedString uc (asString8 (UrlEncoder.decode v)) = asString32 b ↔
      Utf8UrlEncoder.Literal uc b := by
  rw [urlDecodedString]
  constructor
  · intro hdecoded
    -- no decoding lengthens the text, so none shortens it
    have hlength : (Utf8UrlEncoder.decodedString uc (asString8 (UrlEncoder.decode v))).result.length
        = b.length := by
      rw [hdecoded, asString32, List.length_map]
    have hle₁ := Utf8UrlEncoder.length_decodedString_le uc hstrict (asString8 (UrlEncoder.decode v))
    have hle₂ := UrlEncoder.length_decode_le v
    have hlen8 : (asString8 (UrlEncoder.decode v)).length = (UrlEncoder.decode v).length :=
      List.length_map _
    have hle₃ := h.length_le
    obtain rfl : v = b := h.eq_of_length (by omega)
    obtain ⟨hc, hdec⟩ := UrlEncoder.decode_eq_of_length (v := v) (by omega)
    rw [hdec, asString8_asString32] at hdecoded
    obtain ⟨-, hdec₂⟩ := Utf8UrlEncoder.decodedString_eq_of_length uc hstrict
      (v := v.map UrlEncoder.plusToBlank) (by rw [hdecoded, asString32]; simp)
    have hidem : (v.map UrlEncoder.plusToBlank).map UrlEncoder.plusToBlank =
        v.map UrlEncoder.plusToBlank := by
      rw [List.map_map]
      refine List.map_congr_left fun c _ => ?_
      simp only [Function.comp, UrlEncoder.plusToBlank]
      split_ifs with h₁ h₂
      · exact absurd h₂ (by decide)
      · rfl
      · rfl
    rw [hdec₂, hidem] at hdecoded
    have hmap : v.map UrlEncoder.plusToBlank = v := asString32_injective hdecoded
    rw [hmap] at hdec₂
    refine (Utf8UrlEncoder.decodedString_eq_self_iff uc hstrict v).mp ?_
    rw [hdec₂, hmap]
  · intro hliteral
    rw [h.eq_of_literal hliteral, UrlEncoder.decode_eq_self hliteral.1 hliteral.2.1,
      asString8_asString32]
    exact (Utf8UrlEncoder.decodedString_eq_self_iff uc hstrict b).mpr hliteral

end Decoding

/-- A `WSF_STRING` as the parameter. -/
lemma stringPathParameter_eq_some_iff {uc : UnicodeConversion} {ctx : TemplateContext}
    {aName : String8} {w : String32} :
    ctx.stringPathParameter uc aName = some w ↔
      ∃ s, ctx.pathParameter uc aName = some (.string s) ∧ s.string = w := by
  unfold TemplateContext.stringPathParameter
  split
  · next val hval => simp [hval]
  · next hno =>
    simp only [reduceCtorEq, false_iff, not_exists, not_and]
    intro s hs
    exact absurd hs (hno s)

namespace TemplateRouter

variable {H : Type*} {isRouting : H → Bool}

/-- The parameter that the handler of a route `/x/{v}` finds for an encoded value. -/
lemma exists_pathParameter {uc : UnicodeConversion} (hstrict : uc.Strict)
    {ops : List (Registration H)} {r : TemplateRouter H} (hr : run ops = some r)
    {m b : String8} (hne : b ≠ []) (hcodes : ∀ c ∈ b, 16 ≤ c.toNat ∧ c ≠ ch '/' ∧ c ≠ ch '?')
    {h : H} {ctx : TemplateContext}
    (hctx : r.handler isRouting
      (WsfRequest.pathInfo uc (str "/x/" ++ UrlEncoder.encode (asString32 b))) m =
        some (some (h, ctx)))
    (htpl : ctx.uriTemplate = str "/x/\x7bv\x7d") (hroute : isRouting h = false) :
    ∃ v, Arrives uc b v ∧ ctx.stringPathParameter uc (str "v") =
      some (urlDecodedString uc (asString8 (UrlEncoder.decode v))) := by
  obtain ⟨v, hv, harrives⟩ := asString8_pathInfo uc hstrict hne hcodes
  refine ⟨v, harrives, ?_⟩
  rw [handler, hv] at hctx
  obtain ⟨result, hresult, hspec⟩ := @handlerLoop_spec H isRouting r m (str "/x/" ++ v) r.handlers
    fun e he => (consistent_run hr).1.object he
  rw [hctx, Option.some.injEq] at hresult
  subst hresult
  obtain ⟨e, -, rfl, hcontext⟩ := hspec
  have hnot : ¬ RoutesPath isRouting (str "/x/" ++ v) e := fun hyes => by
    rw [hyes.1] at hroute
    cases hroute
  have hmatch := hcontext.matched hnot
  rw [← hcontext.uriTemplate_eq, htpl,
    UriTemplate.matchUri_variable harrives.ne_nil harrives.segment, Option.some.injEq,
    Option.some.injEq] at hmatch
  have hdecoded : ctx.uriTemplateMatch.urlDecodedPathVariable (str "v") =
      some (UrlEncoder.decode v) := by
    rw [← hmatch, MatchResult.urlDecodedPathVariable]
    simp [HashTable.item, UrlEncoder.decodedString_eq]
  rw [TemplateContext.stringPathParameter, TemplateContext.pathParameter, hdecoded]
  rfl

/-- **When a path parameter is the value that was encoded.** For every non-empty value over the
codes from 16 to 255 without a slash or a question mark, sent encoded behind `/x/` and dispatched to
a route with the template `/x/{v}`: the parameter `v` of the context is a `WSF_STRING` with this
value if and only if the value has no plus sign and no percent sign but at its end, and its bytes
do not pass for UTF-8 unless they are ASCII.

**Proof sketch.** The request, the result of the match and the value object decode in turn, and
none of them lengthens the text. So a value that arrives is not shortened by any of them; then each
leaves it as it is but for plus signs, and the last one shows that there are none. -/
theorem pathParameter_eq_iff {H : Type*} (uc : UnicodeConversion) (hstrict : uc.Strict)
    (isRouting : H → Bool) (ops : List (Registration H)) (r : TemplateRouter H)
    (hr : run ops = some r) (requestMethod : String8) (w : String32) (hne : w ≠ [])
    (hcodes : ∀ c ∈ w, 16 ≤ c.toNat ∧ c.toNat ≤ 255 ∧ c ≠ (ch '/').toUInt32 ∧
      c ≠ (ch '?').toUInt32)
    (h : H) (ctx : TemplateContext)
    (hctx : r.handler isRouting
      (WsfRequest.pathInfo uc (str "/x/" ++ (UrlEncoder.encodedString w).result)) requestMethod =
        some (some (h, ctx)))
    (htpl : ctx.uriTemplate = str "/x/\x7bv\x7d") (hroute : isRouting h = false) :
    (∃ s, ctx.pathParameter uc (str "v") = some (.string s) ∧ s.string = w) ↔
      Utf8UrlEncoder.Literal uc (asString8 w) := by
  have hw : asString32 (asString8 w) = w := asString32_asString8 fun c hc => (hcodes c hc).2.1
  have hbytes : ∀ c ∈ asString8 w, 16 ≤ c.toNat ∧ c ≠ ch '/' ∧ c ≠ ch '?' := by
    intro c hc
    have hmem : c.toUInt32 ∈ w := hw ▸ List.mem_map_of_mem hc
    obtain ⟨h16, -, hslash, hquery⟩ := hcodes _ hmem
    rw [UInt8.toNat_toUInt32] at h16
    exact ⟨h16, fun heq => hslash (by rw [heq]), fun heq => hquery (by rw [heq])⟩
  rw [UrlEncoder.encodedString_result, ← hw] at hctx
  have hne' : asString8 w ≠ [] := by simpa [asString8] using hne
  obtain ⟨v, harrives, hparam⟩ := exists_pathParameter hstrict hr hne' hbytes hctx htpl hroute
  rw [← decoded_twice_eq_iff uc hstrict harrives, ← stringPathParameter_eq_some_iff, hparam, hw,
    Option.some.injEq]

/-- A router with the one route `/x/{v}`. -/
def variableRegistration : List (Registration Unit) := [.map (str "/x/\x7bv\x7d") () none]

/-- The router with this route. -/
def variableRouter : TemplateRouter Unit where
  handlers := [⟨(), str "/x/\x7bv\x7d", none⟩]
  templates := [(str "/x/\x7bv\x7d", 0)]
  baseUrl := none
  objects := [str "/x/\x7bv\x7d"]

lemma run_variableRegistration : run variableRegistration = some variableRouter := rfl

/-- The context of a value that is one segment of the path. -/
def variableContext (v : String8) : TemplateContext :=
  ⟨str "/x/" ++ v, str "/x/\x7bv\x7d", ⟨[(str "v", v)], []⟩⟩

lemma stringPathParameter_variableContext (uc : UnicodeConversion) (v : String8) :
    (variableContext v).stringPathParameter uc (str "v") =
      some (urlDecodedString uc (asString8 (UrlEncoder.decodedString v).result)) := rfl

/-- A value of ASCII characters reaches the route. -/
lemma handler_variableRouter (uc : UnicodeConversion) {b : String8} (hne : b ≠ [])
    (hcodes : ∀ c ∈ b, 16 ≤ c.toNat ∧ c.toNat < 128 ∧ c ≠ ch '/' ∧ c ≠ ch '?') (m : String8) :
    variableRouter.handler (fun _ => false)
      (WsfRequest.pathInfo uc (str "/x/" ++ UrlEncoder.encode (asString32 b))) m =
        some (some ((), variableContext b)) := by
  have hfront : ∀ c ∈ str "/x/", c.toNat < 128 := by decide +kernel
  have hascii : ∀ c ∈ str "/x/" ++ b, c.toNat < 128 := by
    intro c hc
    rcases List.mem_append.mp hc with hc | hc
    · exact hfront c hc
    · exact (hcodes c hc).2.1
  have hpath : asString8 (WsfRequest.pathInfo uc (str "/x/" ++ UrlEncoder.encode (asString32 b))) =
      str "/x/" ++ b := by
    rw [WsfRequest.pathInfo, urlDecodedString, Utf8UrlEncoder.decodedString_result,
      decode_variablePath fun c hc => (hcodes c hc).1, asString8_asString32,
      if_pos (Utf8UrlEncoder.isValidUtf8_ascii uc hascii),
      Utf8UrlEncoder.utf8ToUtf32_ascii uc hascii, asString8_asString32]
  rw [handler, hpath]
  simp only [variableRouter, handlerLoop, isMatchingRequestMethods, if_true, Bool.false_and,
    Bool.false_eq_true, if_false]
  simp only [HashTable.item, if_true, Option.bind_some, List.getElem?_cons_zero,
    UriTemplate.matchUri_variable hne fun c hc => (hcodes c hc).2.2]
  rfl

/-- The value `a b` arrives. -/
theorem pathParameter_blank :
    run variableRegistration = some variableRouter ∧
    ∃ ctx, variableRouter.handler (fun _ => false) (WsfRequest.pathInfo standardConversion
        (str "/x/" ++ (UrlEncoder.encodedString (asString32 (str "a b"))).result)) (str "GET") =
          some (some ((), ctx)) ∧
      ∃ s, ctx.pathParameter standardConversion (str "v") = some (.string s) ∧
        s.string = asString32 (str "a b") := by
  have hctx := handler_variableRouter standardConversion (b := str "a b") (by decide)
    (by decide +kernel) (str "GET")
  rw [← UrlEncoder.encodedString_result] at hctx
  have hcodes : (asString32 (str "a b")).all (fun c => decide (16 ≤ c.toNat ∧ c.toNat ≤ 255 ∧
      c ≠ (ch '/').toUInt32 ∧ c ≠ (ch '?').toUInt32)) = true := by
    decide
  refine ⟨run_variableRegistration, variableContext (str "a b"), hctx, ?_⟩
  refine (pathParameter_eq_iff standardConversion standardConversion_strict (fun _ => false)
    variableRegistration variableRouter run_variableRegistration (str "GET")
    (asString32 (str "a b")) (by decide)
    (fun c hc => of_decide_eq_true (List.all_eq_true.mp hcodes c hc)) ()
    (variableContext (str "a b")) hctx rfl rfl).mpr ?_
  rw [asString8_asString32]
  exact ⟨by decide, by decide, fun _ => by decide +kernel⟩

/-- The value `a+b` arrives as `a b`. -/
theorem pathParameter_plus :
    run variableRegistration = some variableRouter ∧
    ∃ ctx, variableRouter.handler (fun _ => false) (WsfRequest.pathInfo standardConversion
        (str "/x/" ++ (UrlEncoder.encodedString (asString32 (str "a+b"))).result)) (str "GET") =
          some (some ((), ctx)) ∧
      ctx.stringPathParameter standardConversion (str "v") = some (asString32 (str "a b")) ∧
      ¬ ∃ s, ctx.pathParameter standardConversion (str "v") = some (.string s) ∧
        s.string = asString32 (str "a+b") := by
  have hctx := handler_variableRouter standardConversion (b := str "a+b") (by decide)
    (by decide +kernel) (str "GET")
  rw [← UrlEncoder.encodedString_result] at hctx
  have hstring : (variableContext (str "a+b")).stringPathParameter standardConversion (str "v") =
      some (asString32 (str "a b")) := by
    have hplain : urlDecodedString standardConversion (str "a b") = asString32 (str "a b") :=
      urlDecodedString_of_plain standardConversion (by decide)
    rw [stringPathParameter_variableContext, ← hplain]
    rfl
  refine ⟨run_variableRegistration, variableContext (str "a+b"), hctx, hstring, ?_⟩
  rw [← stringPathParameter_eq_some_iff, hstring]
  decide

end TemplateRouter

end EiffelWeb
