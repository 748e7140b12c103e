import Mathlib.Data.List.Basic
import Mathlib.Tactic.Common
import EiffelWeb.HashTable
import EiffelWeb.Character
import EiffelWeb.UriTemplate.Template
import EiffelWeb.UriTemplate.Returns
import EiffelWeb.Router.Entry

set_option relaxedAutoImplicit false
set_option autoImplicit false

/-!
# The URI template router

The class `REQUEST_URI_TEMPLATE_ROUTER_I`. A route is registered in two places: in the list of the
routes, with the template as its resource, and in a table of `URI_TEMPLATE` objects under their
templates. The objects are shared, so they are modelled as references into a list of objects; a
base url is put in front of the template of a duplicate.

A request is dispatched to the first route that accepts it: a routing handler whose resource is the
start of the path, or a route whose template matches the path.

## Main definitions

* `TemplateRouter`, `TemplateRouter.mapWithUriTemplateAndRequestMethods`, `TemplateRouter.handler`
* `TemplateRouter.registered` — the routes that operations register.
* `TemplateRouter.Accepts`, `TemplateRouter.Dispatches` — what a request is dispatched to.

## Main results

* `TemplateRouter.perform_spec` — what one operation does.
* `TemplateRouter.consistent_run` — every route has its template in the table.
* `TemplateRouter.handlerLoop_spec` — the scan of the routes.
* `TemplateRouter.router_dispatches` — a request is dispatched to the first route that accepts it.
-/

namespace EiffelWeb

/-- `REQUEST_URI_TEMPLATE_HANDLER_CONTEXT`, without the request. -/
structure TemplateContext where
  /-- The attribute `path`. -/
  path : String8
  /-- The template of the attribute `uri_template`. -/
  uriTemplate : String8
  /-- The attribute `uri_template_match`. -/
  uriTemplateMatch : MatchResult

/-- `REQUEST_URI_TEMPLATE_ROUTER_I`, with the `URI_TEMPLATE` objects. -/
structure TemplateRouter (H : Type*) where
  /-- The attribute `handlers`. -/
  handlers : List (Entry H)
  /-- The attribute `templates`: references to objects. -/
  templates : HashTable ℕ String8
  /-- The attribute `base_url`. -/
  baseUrl : Option String8
  /-- The templates of the `URI_TEMPLATE` objects. -/
  objects : List String8

namespace TemplateRouter

variable {H : Type*}

/-- `make (n)`. -/
def make : TemplateRouter H := ⟨[], [], none, []⟩

/-- `set_base_url (a_base_url)`. -/
def setBaseUrl (r : TemplateRouter H) (aBaseUrl : Option String8) : TemplateRouter H :=
  { r with baseUrl := aBaseUrl }

/-- `create {URI_TEMPLATE}.make (s)`: the reference of the new object, and the state with it. -/
def createTemplate (r : TemplateRouter H) (s : String8) : ℕ × TemplateRouter H :=
  (r.objects.length, { r with objects := r.objects ++ [s] })

/-- `o.set_template (t)`. -/
def setTemplate (r : TemplateRouter H) (o : ℕ) (t : String8) : TemplateRouter H :=
  { r with objects := r.objects.set o t }

/-- The end of `map_with_uri_template_and_request_methods`: the route in `handlers`, and its
`URI_TEMPLATE` in `templates`. -/
def force (r : TemplateRouter H) (lUri : ℕ) (lTpl : String8) (h : H)
    (rqstMethods : Option (List String8)) : TemplateRouter H :=
  { r with
    handlers := r.handlers ++ [⟨h, lTpl, formattedRequestMethods rqstMethods⟩]
    templates := r.templates.force lUri lTpl }

/-- `map_with_uri_template_and_request_methods (uri, h, rqst_methods)`: `none` if there is no such
object. -/
def mapWithUriTemplateAndRequestMethods (r : TemplateRouter H) (uri : ℕ) (h : H)
    (rqstMethods : Option (List String8)) : Option (TemplateRouter H) :=
  r.objects[uri]?.map fun lTpl =>
    match r.baseUrl with
    | some lBaseUrl =>
      let (lUri, r) := r.createTemplate lTpl
      (r.setTemplate lUri (lBaseUrl ++ lTpl)).force lUri (lBaseUrl ++ lTpl) h rqstMethods
    | none => r.force uri lTpl h rqstMethods

/-- `map_with_request_methods (tpl, h, rqst_methods)`. -/
def mapWithRequestMethods (r : TemplateRouter H) (tpl : String8) (h : H)
    (rqstMethods : Option (List String8)) : Option (TemplateRouter H) :=
  let (uri, r) := r.createTemplate tpl
  r.mapWithUriTemplateAndRequestMethods uri h rqstMethods

/-! ## Registration -/

/-- The operations of the registration. -/
inductive Registration (H : Type*) where
  /-- `set_base_url`. -/
  | setBaseUrl (aBaseUrl : Option String8)
  /-- A client creates a `URI_TEMPLATE`. -/
  | create (s : String8)
  /-- `map_with_uri_template_and_request_methods`. -/
  | mapTemplate (uri : ℕ) (h : H) (rqstMethods : Option (List String8))
  /-- `map_with_request_methods`. -/
  | map (tpl : String8) (h : H) (rqstMethods : Option (List String8))

/-- One operation. -/
def perform (r : TemplateRouter H) : Registration H → Option (TemplateRouter H)
  | .setBaseUrl aBaseUrl => some (r.setBaseUrl aBaseUrl)
  | .create s => some (r.createTemplate s).2
  | .mapTemplate uri h rqstMethods => r.mapWithUriTemplateAndRequestMethods uri h rqstMethods
  | .map tpl h rqstMethods => r.mapWithRequestMethods tpl h rqstMethods

/-- The router after a sequence of operations. -/
def run (ops : List (Registration H)) : Option (TemplateRouter H) := ops.foldlM perform make

/-- The route that an operation registers, from the state before it: its resource is the template
behind the base url. -/
def entryOf (r : TemplateRouter H) : Registration H → List (Entry H)
  | .mapTemplate uri h rqstMethods =>
    [⟨h, r.baseUrl.getD [] ++ r.objects[uri]?.getD [], formattedRequestMethods rqstMethods⟩]
  | .map tpl h rqstMethods =>
    [⟨h, r.baseUrl.getD [] ++ tpl, formattedRequestMethods rqstMethods⟩]
  | _ => []

/-- The routes that a sequence of operations registers, in this order. -/
def registered (r : TemplateRouter H) : List (Registration H) → List (Entry H)
  | [] => []
  | op :: ops => r.entryOf op ++ ((r.perform op).map fun r' => r'.registered ops).getD []

/-! ## Dispatch -/

section Dispatch

variable (isRouting : H → Bool)

/-- The loop of `handler` over the routes. -/
def handlerLoop (r : TemplateRouter H) (p lReqMethod : String8) :
    List (Entry H) → Option (Option (H × TemplateContext))
  | [] => some none
  | lInfo :: rest =>
    if isMatchingRequestMethods lReqMethod lInfo.requestMethods then
      let t := lInfo.resource
      if isRouting lInfo.handler && t.isPrefixOf p then
        let lPath := Text.substring p (t.length + 1) p.length
        some (some (lInfo.handler, ⟨p, t, ⟨[(str "path", lPath)], []⟩⟩))
      else
        match (r.templates.item t).bind fun o => r.objects[o]? with
        | some tpl =>
          (UriTemplate.matchUri tpl p).bind fun matched =>
            match matched with
            | some res => some (some (lInfo.handler, ⟨p, tpl, res⟩))
            | none => handlerLoop r p lReqMethod rest
        | none => handlerLoop r p lReqMethod rest
    else handlerLoop r p lReqMethod rest

/-- `handler (req)`: `none` if a match does not return, `some none` is `Void`. -/
def handler (r : TemplateRouter H) (sourceUri : String32) (requestMethod : String8) :
    Option (Option (H × TemplateContext)) :=
  r.handlerLoop isRouting (asString8 sourceUri) requestMethod r.handlers

/-- A routing handler whose resource is the start of the path. -/
def RoutesPath (p : String8) (e : Entry H) : Prop := isRouting e.handler = true ∧ e.resource <+: p

/-- The route accepts the method, and it is a routing handler whose resource is the start of the
path, or its template matches the path. -/
def Accepts (requestMethod p : String8) (e : Entry H) : Prop :=
  isMatchingRequestMethods requestMethod e.requestMethods = true ∧
    (RoutesPath isRouting p e ∨ ∃ res, UriTemplate.matchUri e.resource p = some (some res))

/-- The context of a route: the rest of the path for a routing handler, else the match. -/
structure ContextOf (p : String8) (e : Entry H) (ctx : TemplateContext) : Prop where
  /-- The path of the request. -/
  path_eq : ctx.path = p
  /-- The template of the route. -/
  uriTemplate_eq : ctx.uriTemplate = e.resource
  /-- The rest of the path behind the resource. -/
  routing : RoutesPath isRouting p e →
    ∃ rest, p = e.resource ++ rest ∧ ctx.uriTemplateMatch = ⟨[(str "path", rest)], []⟩
  /-- The match of the template. -/
  matched : ¬ RoutesPath isRouting p e →
    UriTemplate.matchUri e.resource p = some (some ctx.uriTemplateMatch)

/-- What a request is dispatched to: the earliest route that accepts it, with its own context. -/
def Dispatches (entries : List (Entry H)) (requestMethod p : String8) :
    Option (H × TemplateContext) → Prop
  | some (h, ctx) => ∃ e, Earliest (Accepts isRouting requestMethod p) entries e ∧
      h = e.handler ∧ ContextOf isRouting p e ctx
  | none => ∀ e ∈ entries, ¬ Accepts isRouting requestMethod p e

end Dispatch

/-! ## The two containers -/

/-- Every object in the table has its key as its template, and every route has its resource as a
key of the table. -/
structure Consistent (r : TemplateRouter H) : Prop where
  /-- The template of an object is its key. -/
  objects_item : ∀ k o, r.templates.item k = some o → r.objects[o]? = some k
  /-- The resource of a route is a key. -/
  item_resource : ∀ e ∈ r.handlers, (r.templates.item e.resource).isSome

/-- What an operation does: it adds objects, and the route that it registers with its object. -/
structure Extends (r r' : TemplateRouter H) (es : List (Entry H)) : Prop where
  /-- The objects before the operation keep their templates. -/
  objects : r.objects <+: r'.objects
  /-- The routes are added at the end. -/
  handlers : r'.handlers = r.handlers ++ es
  /-- The table has changed only for the new routes. -/
  templates : r'.templates = r.templates ∨
    ∃ o e, es = [e] ∧ r'.objects[o]? = some e.resource ∧
      r'.templates = r.templates.force o e.resource
  /-- A new route has its resource in the table. -/
  item_new : ∀ e ∈ es, (r'.templates.item e.resource).isSome

lemma extends_force {r r₀ : TemplateRouter H} {lUri : ℕ} {lTpl : String8} (h : H)
    (rqstMethods : Option (List String8)) (hobjects : r₀.objects <+: r.objects)
    (hhandlers : r.handlers = r₀.handlers) (htemplates : r.templates = r₀.templates)
    (htpl : r.objects[lUri]? = some lTpl) :
    Extends r₀ (r.force lUri lTpl h rqstMethods)
      [⟨h, lTpl, formattedRequestMethods rqstMethods⟩] where
  objects := hobjects
  handlers := by rw [force, hhandlers]
  templates := Or.inr ⟨lUri, _, rfl, htpl, by rw [force, htemplates]⟩
  item_new := by simp [force]

lemma extends_mapTemplate {r r' : TemplateRouter H} {uri : ℕ} {h : H}
    {rqstMethods : Option (List String8)}
    (hr : r.mapWithUriTemplateAndRequestMethods uri h rqstMethods = some r') :
    Extends r r' [⟨h, r.baseUrl.getD [] ++ r.objects[uri]?.getD [],
      formattedRequestMethods rqstMethods⟩] := by
  obtain ⟨lTpl, htpl, rfl⟩ := Option.map_eq_some_iff.mp hr
  cases hbase : r.baseUrl with
  | none =>
    simp only [htpl, Option.getD_none, Option.getD_some, List.nil_append]
    exact extends_force h rqstMethods (List.prefix_refl _) rfl rfl htpl
  | some lBaseUrl =>
    simp only [htpl, Option.getD_some, createTemplate]
    refine extends_force h rqstMethods ?_ rfl rfl ?_
    · rw [setTemplate, List.set_append_right _ _ le_rfl]
      exact List.prefix_append _ _
    · simp [setTemplate]

/-- **What one operation does.** -/
lemma perform_spec {r r' : TemplateRouter H} {op : Registration H} (h : r.perform op = some r') :
    Extends r r' (r.entryOf op) := by
  cases op with
  | setBaseUrl aBaseUrl =>
    rw [perform, Option.some.injEq] at h
    subst h
    exact ⟨List.prefix_refl _, by simp [setBaseUrl, entryOf], Or.inl rfl, by simp [entryOf]⟩
  | create s =>
    rw [perform, Option.some.injEq] at h
    subst h
    exact ⟨List.prefix_append _ _, by simp [createTemplate, entryOf], Or.inl rfl,
      by simp [entryOf]⟩
  | mapTemplate uri hd rqstMethods => exact extends_mapTemplate h
  | map tpl hd rqstMethods =>
    rw [perform, mapWithRequestMethods] at h
    have hext := extends_mapTemplate h
    simp only [List.getElem?_concat_length, Option.getD_some] at hext
    exact ⟨(List.prefix_append _ _).trans hext.objects, hext.handlers, hext.templates,
      hext.item_new⟩

lemma Extends.consistent {r r' : TemplateRouter H} {es : List (Entry H)} (hext : Extends r r' es)
    (h : Consistent r) : Consistent r' := by
  have hkeep : ∀ {o : ℕ} {k : String8}, r.objects[o]? = some k → r'.objects[o]? = some k := by
    intro o k ho
    obtain ⟨t, ht⟩ := hext.objects
    rw [← ht, List.getElem?_append_left (List.getElem?_eq_some_iff.mp ho).1]
    exact ho
  have hgrow : ∀ k, (r.templates.item k).isSome → (r'.templates.item k).isSome := by
    intro k hk
    rcases hext.templates with ht | ⟨o, e, -, -, ht⟩
    · rwa [ht]
    · rw [ht, HashTable.item_force]
      split
      · rfl
      · exact hk
  constructor
  · intro k o hitem
    rcases hext.templates with ht | ⟨o', e, -, ho', ht⟩
    · rw [ht] at hitem
      exact hkeep (h.objects_item k o hitem)
    · rw [ht, HashTable.item_force] at hitem
      split at hitem
      · next hk =>
        rw [Option.some.injEq] at hitem
        rw [← hitem, hk]
        exact ho'
      · exact hkeep (h.objects_item k o hitem)
  · intro e he
    rw [hext.handlers, List.mem_append] at he
    rcases he with he | he
    · exact hgrow _ (h.item_resource e he)
    · exact hext.item_new e he

lemma foldlM_spec {ops : List (Registration H)} {r₀ r : TemplateRouter H} (h₀ : Consistent r₀)
    (h : ops.foldlM perform r₀ = some r) :
    Consistent r ∧ r.handlers = r₀.handlers ++ r₀.registered ops := by
  induction ops generalizing r₀ with
  | nil =>
    rw [List.foldlM_nil, Option.pure_def, Option.some.injEq] at h
    subst h
    exact ⟨h₀, by simp [registered]⟩
  | cons op ops ih =>
    rw [List.foldlM_cons] at h
    obtain ⟨r₁, hop, hrest⟩ := Option.bind_eq_some_iff.mp h
    have hext := perform_spec hop
    obtain ⟨hcons, hhandlers⟩ := ih (hext.consistent h₀) hrest
    refine ⟨hcons, ?_⟩
    rw [hhandlers, hext.handlers, registered, hop]
    simp

/-- **Every route has its template in the table**, after every sequence of operations. -/
lemma consistent_run {ops : List (Registration H)} {r : TemplateRouter H} (h : run ops = some r) :
    Consistent r ∧ r.handlers = make.registered ops := by
  have h₀ : Consistent (make : TemplateRouter H) := by
    constructor
    · intro k o ho
      simp [make] at ho
    · intro e he
      simp [make] at he
  simpa [make] using foldlM_spec h₀ h

/-! ## The scan -/

section Scan

variable {isRouting : H → Bool}

/-- The object of a route of a consistent router. -/
lemma Consistent.object {r : TemplateRouter H} (h : Consistent r) {e : Entry H}
    (he : e ∈ r.handlers) :
    ((r.templates.item e.resource).bind fun o => r.objects[o]?) = some e.resource := by
  obtain ⟨o, ho⟩ := Option.isSome_iff_exists.mp (h.item_resource e he)
  rw [ho, Option.bind_some, h.objects_item _ o ho]

lemma dispatches_of_not_accepts {e : Entry H} {rest : List (Entry H)} {m p : String8}
    {result : Option (H × TemplateContext)} (hno : ¬ Accepts isRouting m p e)
    (h : Dispatches isRouting rest m p result) : Dispatches isRouting (e :: rest) m p result := by
  rcases result with _ | ⟨hd, ctx⟩
  · exact List.forall_mem_cons.mpr ⟨hno, h⟩
  · obtain ⟨e', ⟨hacc, pre, post, rfl, hpre⟩, hrest⟩ := h
    exact ⟨e', ⟨hacc, e :: pre, post, rfl, List.forall_mem_cons.mpr ⟨hno, hpre⟩⟩, hrest⟩

lemma earliest_head {P : Entry H → Prop} {e : Entry H} (rest : List (Entry H)) (h : P e) :
    Earliest P (e :: rest) e :=
  ⟨h, [], rest, rfl, fun _ he' => absurd he' List.not_mem_nil⟩

/-- **The scan of the routes** returns the earliest route that accepts the request, with its
context. -/
lemma handlerLoop_spec {r : TemplateRouter H} (m p : String8) {entries : List (Entry H)}
    (hobj : ∀ e ∈ entries,
      ((r.templates.item e.resource).bind fun o => r.objects[o]?) = some e.resource) :
    ∃ result, r.handlerLoop isRouting p m entries = some result ∧
      Dispatches isRouting entries m p result := by
  induction entries with
  | nil => exact ⟨none, rfl, fun e he => absurd he List.not_mem_nil⟩
  | cons e rest ih =>
    obtain ⟨result, hresult, hspec⟩ := ih fun e' he' => hobj e' (List.mem_cons_of_mem e he')
    have hskip : ¬ Accepts isRouting m p e →
        ∃ result, r.handlerLoop isRouting p m rest = some result ∧
          Dispatches isRouting (e :: rest) m p result := fun hno =>
      ⟨result, hresult, dispatches_of_not_accepts hno hspec⟩
    by_cases hmethod : isMatchingRequestMethods m e.requestMethods = true
    · by_cases hroute : (isRouting e.handler && e.resource.isPrefixOf p) = true
      · have hroute' : RoutesPath isRouting p e := by
          simpa [RoutesPath, List.isPrefixOf_iff_prefix] using hroute
        rw [handlerLoop, if_pos hmethod, if_pos hroute]
        refine ⟨_, rfl, e, earliest_head rest ⟨hmethod, Or.inl hroute'⟩, rfl, rfl, rfl, fun _ => ?_,
          fun hno => absurd hroute' hno⟩
        obtain ⟨u, hu⟩ := hroute'.2
        refine ⟨u, hu.symm, ?_⟩
        have hrest : Text.substring p (e.resource.length + 1) p.length = u := by
          rw [← hu]
          exact Text.substring_suffix e.resource u rfl rfl
        rw [hrest]
      · have hroute' : ¬ RoutesPath isRouting p e := by
          simpa [RoutesPath, List.isPrefixOf_iff_prefix] using hroute
        obtain ⟨matched, hmatched⟩ :=
          Option.isSome_iff_exists.mp (UriTemplate.isSome_matchUri e.resource p)
        rw [handlerLoop, if_pos hmethod, if_neg hroute, hobj e List.mem_cons_self]
        simp only [hmatched, Option.bind_some]
        cases matched with
        | some res =>
          exact ⟨_, rfl, e, earliest_head rest ⟨hmethod, Or.inr ⟨res, hmatched⟩⟩, rfl, rfl, rfl,
            fun hyes => absurd hyes hroute', fun _ => hmatched⟩
        | none =>
          refine hskip ?_
          rintro ⟨-, hyes | ⟨res, hres⟩⟩
          · exact hroute' hyes
          · rw [hmatched] at hres
            cases hres
    · rw [handlerLoop, if_neg hmethod]
      exact hskip fun hacc => hmethod hacc.1

end Scan

/-- **The template router.** After every sequence of operations, the routes are those registered, in
this order; every route has its resource as a key of `templates`, and the object there has it as its
template. Every request is dispatched to the earliest route that accepts it, with the context of
this route, and to nothing exactly if there is none.

**Proof sketch.** Objects keep their templates, since only a fresh duplicate is changed. So the scan
matches each route with its own resource; the matcher always returns. -/
theorem router_dispatches {H : Type*} (isRouting : H → Bool) (ops : List (Registration H))
    (r : TemplateRouter H) (h : run ops = some r) :
    r.handlers = make.registered ops ∧
    (∀ e ∈ r.handlers, ∃ o, r.templates.item e.resource = some o ∧
      r.objects[o]? = some e.resource) ∧
    ∀ (requestMethod : String8) (path : String32),
      ∃ result, r.handler isRouting path requestMethod = some result ∧
        Dispatches isRouting r.handlers requestMethod (asString8 path) result ∧
        (result = none ↔
        ∀ e ∈ r.handlers, ¬ Accepts isRouting requestMethod (asString8 path) e) := by
  obtain ⟨hcons, hhandlers⟩ := consistent_run h
  refine ⟨hhandlers, ?_, ?_⟩
  · intro e he
    obtain ⟨o, ho⟩ := Option.isSome_iff_exists.mp (hcons.item_resource e he)
    exact ⟨o, ho, hcons.objects_item _ o ho⟩
  · intro requestMethod path
    obtain ⟨result, hresult, hspec⟩ := @handlerLoop_spec H isRouting r requestMethod
      (asString8 path) r.handlers fun e he => hcons.object he
    refine ⟨result, hresult, hspec, ?_⟩
    rcases result with _ | ⟨hd, ctx⟩
    · exact ⟨fun _ => hspec, fun _ => rfl⟩
    · obtain ⟨e, hearliest, -⟩ := hspec
      exact ⟨fun h' => (by cases h'), fun h' => absurd hearliest.1 (h' e hearliest.mem)⟩

/-- Two routes with the same resource, registered with and without a base url. -/
def usersRegistration : List (Registration Bool) :=
  [.setBaseUrl (some (str "/api")), .map (str "/u/\x7bid\x7d") true none, .setBaseUrl none,
    .create (str "/api/u/\x7bid\x7d"), .mapTemplate 2 false none]

/-- A request is dispatched to the first of the two routes. -/
theorem router_dispatches_users :
    ∃ r, run usersRegistration = some r ∧
      ∃ result, r.handler (fun _ => false) (asString32 (str "/api/u/7")) (str "GET") = some result ∧
        Dispatches (fun _ => false) r.handlers (str "GET")
          (asString8 (asString32 (str "/api/u/7"))) result ∧
        result.map Prod.fst = some true := by
  have hsome : (run usersRegistration).isSome := by decide +kernel
  obtain ⟨r, hr⟩ := Option.isSome_iff_exists.mp hsome
  have hfirst : ((run usersRegistration).bind fun r =>
      r.handler (fun _ => false) (asString32 (str "/api/u/7")) (str "GET")).map
        (Option.map Prod.fst) = some (some true) := by
    decide +kernel
  obtain ⟨-, -, hdispatch⟩ := router_dispatches (fun _ => false) usersRegistration r hr
  obtain ⟨result, hresult, hspec, -⟩ := hdispatch (str "GET") (asString32 (str "/api/u/7"))
  refine ⟨r, hr, result, hresult, hspec, ?_⟩
  rw [hr, Option.bind_some, hresult] at hfirst
  exact Option.some.inj hfirst

end TemplateRouter

end EiffelWeb
