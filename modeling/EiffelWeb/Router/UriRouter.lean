import Mathlib.Data.List.Basic
import Mathlib.Tactic.Common
import EiffelWeb.Loop
import EiffelWeb.Text
import EiffelWeb.Character
import EiffelWeb.Router.Entry

set_option relaxedAutoImplicit false
set_option autoImplicit false

/-!
# The URI router

The class `REQUEST_URI_ROUTER_I`. A request is dispatched to the first route whose resource is its
path. If there is none, the path is completed by a leading slash, cut at its first dot, and then
shortened at its slashes from the right until there is a route for it.

## Main definitions

* `UriRouter`, `UriRouter.mapWithRequestMethods`, `UriRouter.setBaseUrl`
* `contextPath`, `UriRouter.handlerByPath`, `UriRouter.smartHandlerByPath`, `UriRouter.handler`
* `Candidate` — the context path, and its parts before a slash.
* `UriRouter.Picks` — what a request is dispatched to.

## Main results

* `UriRouter.handlers_run` — the routes are those registered, in this order.
* `UriRouter.smartHandlerByPath_spec` — the search finds the longest candidate with a route.
* `UriRouter.search_dispatches` — a request is dispatched to the route that `Picks` describes, and
  when the variant of the search decreases.
-/

namespace EiffelWeb

/-- `REQUEST_URI_ROUTER_I`. -/
structure UriRouter (H : Type*) where
  /-- The attribute `handlers`. -/
  handlers : List (Entry H)
  /-- The attribute `base_url`. -/
  baseUrl : Option String8

/-- `context_path (a_path)`. -/
def contextPath (aPath : String8) : String8 :=
  if aPath.isEmpty then str "/"
  else
    let result := if aPath.head? ≠ some (ch '/') then ch '/' :: aPath else aPath
    let p := Text.indexOf result (ch '.') 1
    if 0 < p then Text.substring result 1 (p - 1) else result

namespace UriRouter

variable {H : Type*}

/-- `make (n)`. -/
def make : UriRouter H := ⟨[], none⟩

/-- `set_base_url (a_base_url)`. -/
def setBaseUrl (r : UriRouter H) (aBaseUrl : Option String8) : UriRouter H :=
  { r with baseUrl := aBaseUrl }

/-- `map_with_request_methods (p, h, rqst_methods)`. -/
def mapWithRequestMethods (r : UriRouter H) (p : String8) (h : H)
    (rqstMethods : Option (List String8)) : UriRouter H :=
  let lUri := match r.baseUrl with
    | some lBaseUrl => lBaseUrl ++ p
    | none => p
  { r with handlers := r.handlers ++ [⟨h, lUri, formattedRequestMethods rqstMethods⟩] }

/-! ## Registration -/

/-- The operations of the registration. -/
inductive Registration (H : Type*) where
  /-- `set_base_url`. -/
  | setBaseUrl (aBaseUrl : Option String8)
  /-- `map_with_request_methods`. -/
  | map (p : String8) (h : H) (rqstMethods : Option (List String8))

/-- One operation. -/
def perform (r : UriRouter H) : Registration H → UriRouter H
  | .setBaseUrl aBaseUrl => r.setBaseUrl aBaseUrl
  | .map p h rqstMethods => r.mapWithRequestMethods p h rqstMethods

/-- The router after a sequence of operations. -/
def run (ops : List (Registration H)) : UriRouter H := ops.foldl perform make

/-- The routes that a sequence of operations registers, with a given base url. -/
def registered (base : Option String8) : List (Registration H) → List (Entry H)
  | [] => []
  | .setBaseUrl aBaseUrl :: ops => registered aBaseUrl ops
  | .map p h rqstMethods :: ops =>
    ⟨h, base.getD [] ++ p, formattedRequestMethods rqstMethods⟩ :: registered base ops

/-- **The routes are those registered, in the order of their registration.** -/
lemma handlers_run (ops : List (Registration H)) : (run ops).handlers = registered none ops := by
  have hgen : ∀ (ops : List (Registration H)) (r : UriRouter H),
      (ops.foldl perform r).handlers = r.handlers ++ registered r.baseUrl ops := by
    intro ops
    induction ops with
    | nil => intro r; simp [registered]
    | cons op ops ih =>
      intro r
      rw [List.foldl_cons, ih]
      cases op with
      | setBaseUrl aBaseUrl => rfl
      | map p h rqstMethods =>
        cases hb : r.baseUrl <;> simp [perform, mapWithRequestMethods, registered, hb]
  exact hgen ops make

/-! ## Dispatch -/

section Dispatch

variable (r : UriRouter H)

/-- `handler_by_path (a_path, rqst_method)`. -/
def handlerByPath (aPath : String32) (rqstMethod : String8) : Option H :=
  (r.handlers.find? fun lItem =>
    isMatchingRequestMethods rqstMethod lItem.requestMethods &&
      aPath = asString32 lItem.resource).map Entry.handler

/-- State of the loop of `smart_handler_by_path`. -/
structure SearchState (H : Type*) where
  /-- The local `p`, the variant of the loop. -/
  p : ℤ
  /-- `Result`. -/
  result : Option (String8 × H)

/-- The loop of `smart_handler_by_path`, on the path `lContextPath`. -/
def searchLoop (lContextPath rqstMethod : String8) : Loop (SearchState H) where
  exit s := decide (s.p ≤ 1) || s.result.isSome
  body s :=
    let lPath := Text.substring lContextPath 1 (s.p - 1)
    match r.handlerByPath (asString32 lPath) rqstMethod with
    | some h => some { s with result := some (lPath, h) }
    | none => some { s with p := Text.lastIndexOf lContextPath (ch '/') (s.p - 1) }

/-- The state in which the search starts. -/
def searchStart (lContextPath : String8) : SearchState H := ⟨lContextPath.length + 1, none⟩

/-- `smart_handler_by_path (a_path, rqst_method)`: `none` if the loop does not end, `some none` is
`Void`. -/
def smartHandlerByPath (aPath rqstMethod : String8) : Option (Option (String8 × H)) :=
  let lContextPath := contextPath aPath
  ((r.searchLoop lContextPath rqstMethod).run (lContextPath.length + 2)
    (searchStart lContextPath)).map SearchState.result

/-- The route that `handler` picks, before `is_valid_context`, with the path of the search if there
was one. -/
def picked (sourceUri : String32) (requestMethod : String8) :
    Option (Option (H × Option String8)) :=
  match r.handlerByPath sourceUri requestMethod with
  | some h => some (some (h, none))
  | none => (r.smartHandlerByPath (asString8 sourceUri) requestMethod).map fun info =>
      info.map fun i => (i.2, some i.1)

/-- `handler (req)`: the handler, and the path of its context. -/
def handler (isValidContext : H → Bool) (sourceUri : String32) (requestMethod : String8) :
    Option (Option (H × String8)) :=
  (r.picked sourceUri requestMethod).map fun picked => picked.bind fun h =>
    if isValidContext h.1 then some (h.1, h.2.getD (asString8 sourceUri)) else none

/-! ## What a request is dispatched to -/

/-- The route `e` accepts the request method, and its resource is the path. -/
def Serves (requestMethod : String8) (path : String32) (e : Entry H) : Prop :=
  isMatchingRequestMethods requestMethod e.requestMethods = true ∧ path = asString32 e.resource

/-- The texts the search tries: the context path `c`, and its non-empty parts before a slash. -/
def Candidate (c u : String8) : Prop := u = c ∨ (u ≠ [] ∧ ∃ b, c = u ++ ch '/' :: b)

/-- What a request is dispatched to: the earliest route for the path; else the earliest route for
the longest candidate that has one. -/
def Picks (entries : List (Entry H)) (requestMethod : String8) (path : String32) :
    Option (H × Option String8) → Prop
  | some (h, none) => ∃ e, Earliest (Serves requestMethod path) entries e ∧ h = e.handler
  | some (h, some u) =>
    (∀ e ∈ entries, ¬ Serves requestMethod path e) ∧
    Candidate (contextPath (asString8 path)) u ∧
    (∃ e, Earliest (Serves requestMethod (asString32 u)) entries e ∧ h = e.handler) ∧
    ∀ u', Candidate (contextPath (asString8 path)) u' → u.length < u'.length →
      ∀ e ∈ entries, ¬ Serves requestMethod (asString32 u') e
  | none =>
    (∀ e ∈ entries, ¬ Serves requestMethod path e) ∧
    ∀ u, Candidate (contextPath (asString8 path)) u →
      ∀ e ∈ entries, ¬ Serves requestMethod (asString32 u) e

variable {r}

lemma handlerByPath_eq_some_iff {path : String32} {m : String8} {h : H} :
    r.handlerByPath path m = some h ↔
      ∃ e, Earliest (Serves m path) r.handlers e ∧ h = e.handler := by
  rw [handlerByPath, Option.map_eq_some_iff]
  simp only [find?_eq_some_iff_earliest, Bool.and_eq_true, decide_eq_true_eq]
  exact ⟨fun ⟨e, he, hh⟩ => ⟨e, he, hh.symm⟩, fun ⟨e, he, hh⟩ => ⟨e, he, hh.symm⟩⟩

lemma handlerByPath_eq_none_iff {path : String32} {m : String8} :
    r.handlerByPath path m = none ↔ ∀ e ∈ r.handlers, ¬ Serves m path e := by
  rw [handlerByPath, Option.map_eq_none_iff, List.find?_eq_none]
  simp only [Bool.and_eq_true, decide_eq_true_eq]
  rfl

/-! ## The search -/

lemma contextPath_ne_nil (aPath : String8) : contextPath aPath ≠ [] := by
  rw [contextPath]
  split
  · decide
  · next hne =>
    have hslash : ∃ t, (if aPath.head? ≠ some (ch '/') then ch '/' :: aPath else aPath) =
        ch '/' :: t := by
      cases aPath with
      | nil => simp at hne
      | cons c t =>
        by_cases hc : c = ch '/'
        · exact ⟨t, by simp [hc]⟩
        · exact ⟨c :: t, by simp [hc]⟩
    obtain ⟨t, ht⟩ := hslash
    simp only [ht]
    rcases Text.notMem_or_split (ch '.') (ch '/' :: t) with hdot | ⟨a, b, hsplit, ha⟩
    · rw [Text.indexOf_one_eq_zero hdot]
      simp
    · have ha' : a ≠ [] := by
        rintro rfl
        have hhead : ch '/' = ch '.' := by simpa using congrArg List.head? hsplit
        exact absurd hhead (by decide)
      rw [hsplit, Text.indexOf_one_eq a b ha, if_pos (by omega)]
      rw [Text.substring_prefix a (ch '.' :: b) (by omega)]
      exact ha'

/-- A candidate other than the context path is followed by a slash. -/
lemma Candidate.mem_of_length_lt {c u a b : String8} (h : Candidate c u) (hc : c = a ++ b)
    (hlt : u.length < a.length) : ∃ d, a = u ++ ch '/' :: d := by
  rcases h with rfl | ⟨-, d, hd⟩
  · simp [hc] at hlt
  · have hpre : u ++ [ch '/'] <+: a := by
      refine List.prefix_of_prefix_length_le ⟨d, ?_⟩ ⟨b, hc.symm⟩ ?_
      · rw [hd]
        simp
      · simpa [Nat.succ_le_iff] using hlt
    obtain ⟨d', hd'⟩ := hpre
    exact ⟨d', by rw [← hd']; simp⟩

lemma Candidate.eq_of_length_eq {c u a b : String8} (h : Candidate c u) (hc : c = a ++ b)
    (hlen : u.length = a.length) : u = a := by
  have hu : u <+: c := by
    rcases h with rfl | ⟨-, d, hd⟩
    · exact List.prefix_refl u
    · exact ⟨ch '/' :: d, hd.symm⟩
  have ha : a <+: c := ⟨b, hc.symm⟩
  exact (List.prefix_of_prefix_length_le hu ha hlen.le).eq_of_length hlen

/-- What the search finds: the longest candidate that has a route, or nothing if none has. -/
def Finds (r : UriRouter H) (c m : String8) : Option (String8 × H) → Prop
  | some (u, h) => Candidate c u ∧ r.handlerByPath (asString32 u) m = some h ∧
      ∀ u', Candidate c u' → u.length < u'.length → r.handlerByPath (asString32 u') m = none
  | none => ∀ u, Candidate c u → r.handlerByPath (asString32 u) m = none

/-- The invariant of the search: the candidates longer than the part that is tried next have no
route. -/
def SearchInv (r : UriRouter H) (c m : String8) (s : SearchState H) : Prop :=
  match s.result with
  | none => ∃ a b, c = a ++ b ∧ (s.p = a.length + 1 ∨ (s.p = 0 ∧ a = [])) ∧
      (a = [] ∨ Candidate c a) ∧
      ∀ u, Candidate c u → a.length < u.length → r.handlerByPath (asString32 u) m = none
  | some i => r.Finds c m (some i)

/-- One step of the search back: the next slash before the part `a` that was tried, and no
candidate between the two. -/
lemma exists_shorter {c a b : String8} (hc : c = a ++ b) (ha : a ≠ []) :
    ∃ a' b', c = a' ++ b' ∧ a'.length < a.length ∧
      (Text.lastIndexOf c (ch '/') a.length = a'.length + 1 ∨
        (Text.lastIndexOf c (ch '/') a.length = 0 ∧ a' = [])) ∧
      (a' = [] ∨ Candidate c a') ∧
      ∀ u, Candidate c u → a'.length < u.length → u.length < a.length → False := by
  by_cases hmem : ch '/' ∈ a
  · obtain ⟨a', d, ha', hd⟩ := Text.exists_last_split hmem
    have hform : c = a' ++ ch '/' :: (d ++ b) := by
      rw [hc, ha']
      simp
    refine ⟨a', ch '/' :: (d ++ b), hform, ?_, Or.inl ?_, ?_, ?_⟩
    · rw [ha']
      simp
    · have hlen : ((a : String8).length : ℤ) = a'.length + 1 + d.length := by
        rw [ha']
        simp
        omega
      rw [hform]
      exact Text.lastIndexOf_eq _ _ _ hlen hd
    · by_cases hnil : a' = []
      · exact Or.inl hnil
      · exact Or.inr (Or.inr ⟨hnil, d ++ b, hform⟩)
    · intro u hu hlt hlt'
      obtain ⟨d', hd'⟩ := hu.mem_of_length_lt hc hlt'
      -- the slash behind `u` would stand between the last slash of `a` and its end
      have hpre : a' ++ [ch '/'] <+: u := by
        refine List.prefix_of_prefix_length_le ⟨d, ?_⟩ ⟨ch '/' :: d', hd'.symm⟩ ?_
        · rw [ha']
          simp
        · simpa [Nat.succ_le_iff] using hlt
      obtain ⟨e, he⟩ := hpre
      have htail : d = e ++ ch '/' :: d' := by
        have h : a' ++ ch '/' :: d = a' ++ ch '/' :: (e ++ ch '/' :: d') := by
          rw [← ha', hd', ← he]
          simp
        simpa using List.append_cancel_left h
      exact hd (by rw [htail]; simp)
  · refine ⟨[], c, rfl, List.length_pos_of_ne_nil ha, Or.inr ⟨?_, rfl⟩, Or.inl rfl, ?_⟩
    · rw [hc]
      exact Text.lastIndexOf_eq_zero a b rfl hmem
    · intro u hu _ hlt
      obtain ⟨d, hd⟩ := hu.mem_of_length_lt hc hlt
      exact hmem (by rw [hd]; simp)

/-- **One iteration of the search.** -/
lemma searchLoop_step {c m : String8} {s : SearchState H} (hI : SearchInv r c m s)
    (he : (r.searchLoop c m).exit s = false) :
    ∃ s', (r.searchLoop c m).body s = some s' ∧ SearchInv r c m s' ∧
      s.result = none ∧ (s'.result = none → s'.p < s.p ∧ 1 < s.p) ∧
      (s'.result ≠ none → s'.p = s.p) := by
  obtain ⟨p, result⟩ := s
  simp only [searchLoop, Bool.or_eq_false_iff, decide_eq_false_iff_not, not_le,
    Option.isSome_eq_false_iff, Option.isNone_iff_eq_none] at he
  obtain ⟨hp, rfl⟩ := he
  obtain ⟨a, b, hc, hpa, hcand, hlonger⟩ := hI
  simp only at hpa hp
  have hpa' : p = a.length + 1 := by
    rcases hpa with h | ⟨h, -⟩
    · exact h
    · omega
  have ha : a ≠ [] := by
    rintro rfl
    simp at hpa'
    omega
  have hcand' : Candidate c a := hcand.resolve_left ha
  have hsub : Text.substring c 1 (p - 1) = a := by
    rw [hc]
    exact Text.substring_prefix a b (by omega)
  simp only [searchLoop, hsub]
  cases hh : r.handlerByPath (asString32 a) m with
  | some h =>
    exact ⟨_, rfl, ⟨hcand', hh, hlonger⟩, trivial, fun h' => by simp at h', fun _ => rfl⟩
  | none =>
    obtain ⟨a', b', hc', hlt, hp', hcand'', hbetween⟩ := exists_shorter hc ha
    have hpos : p - 1 = a.length := by omega
    refine ⟨_, rfl, ⟨a', b', hc', ?_, hcand'', ?_⟩, trivial, fun _ => ⟨?_, hp⟩,
      fun h' => absurd rfl h'⟩
    · simpa only [hpos] using hp'
    · intro u hu hlen
      rcases lt_trichotomy u.length a.length with h | h | h
      · exact (hbetween u hu hlen h).elim
      · rw [hu.eq_of_length_eq hc h]
        exact hh
      · exact hlonger u hu h
    · simp only [hpos]
      omega

lemma searchInv_start (c m : String8) (hc : c ≠ []) : SearchInv r c m (searchStart c) := by
  refine ⟨c, [], by simp, Or.inl rfl, Or.inr (Or.inl rfl), ?_⟩
  intro u hu hlt
  have hle : u.length ≤ c.length := by
    rcases hu with rfl | ⟨-, d, hd⟩
    · exact le_rfl
    · rw [hd]
      simp
  omega

/-- The search ends, with the longest candidate that has a route. -/
lemma searchLoop_run (c m : String8) (hc : c ≠ []) :
    ∃ s, (r.searchLoop c m).run (c.length + 2) (searchStart c) = some s ∧ SearchInv r c m s ∧
      (r.searchLoop c m).exit s = true := by
  refine Loop.run_of_variant (SearchInv r c m)
    (fun s => if s.result = none then s.p.toNat + 1 else 0) ?_ (searchInv_start c m hc) ?_
  · intro s hI he
    obtain ⟨s', hbody, hI', hnone, hdec, -⟩ := searchLoop_step hI he
    refine ⟨s', hbody, hI', ?_⟩
    simp only [hnone, if_true]
    split
    · next hnone' =>
      have h := hdec hnone'
      omega
    · omega
  · simp [searchStart]

/-- The variant of the search decreases in every iteration that a request makes it execute. -/
def VariantDecreases (r : UriRouter H) (m : String8) (path : String32) : Prop :=
  r.handlerByPath path m = none →
    ∀ s s', (r.searchLoop (contextPath (asString8 path)) m).Reaches
        (searchStart (contextPath (asString8 path))) s →
      (r.searchLoop (contextPath (asString8 path)) m).exit s = false →
      (r.searchLoop (contextPath (asString8 path)) m).body s = some s' → s'.p < s.p

/-- Every state of the search satisfies the invariant. -/
lemma searchInv_of_reaches {c m : String8} (hc : c ≠ []) {s : SearchState H}
    (h : (r.searchLoop c m).Reaches (searchStart c) s) : SearchInv r c m s := by
  refine h.invariant ?_ (searchInv_start c m hc)
  intro s₁ s₂ hI he hb
  obtain ⟨s', hbody, hI', -⟩ := searchLoop_step hI he
  rw [hb, Option.some.injEq] at hbody
  rwa [hbody]

/-- A search that finds a route does so in an iteration that keeps the variant. -/
lemma exists_keeps_variant {c m : String8} (hc : c ≠ []) {s : SearchState H}
    (hr : (r.searchLoop c m).Reaches (searchStart c) s) (hs : s.result ≠ none) :
    ∃ s₁ s₂, (r.searchLoop c m).Reaches (searchStart c) s₁ ∧ (r.searchLoop c m).exit s₁ = false ∧
      (r.searchLoop c m).body s₁ = some s₂ ∧ s₂.p = s₁.p := by
  cases hr with
  | refl => exact absurd rfl hs
  | step hreach he hb =>
    obtain ⟨s', hbody, -, -, -, hkeep⟩ := searchLoop_step (searchInv_of_reaches hc hreach) he
    rw [hb, Option.some.injEq] at hbody
    exact ⟨_, s, hreach, he, hb, by rw [hbody]; exact hkeep (hbody ▸ hs)⟩

/-- A candidate is not empty. -/
lemma Candidate.ne_nil {c u : String8} (h : Candidate c u) (hc : c ≠ []) : u ≠ [] := by
  rcases h with rfl | ⟨hu, -⟩
  · exact hc
  · exact hu

/-- **The search finds the longest candidate with a route**, and nothing if there is none. -/
lemma smartHandlerByPath_spec (aPath m : String8) :
    ∃ info, r.smartHandlerByPath aPath m = some info ∧ r.Finds (contextPath aPath) m info := by
  obtain ⟨⟨p, result⟩, hrun, hI, hexit⟩ := searchLoop_run (r := r) (contextPath aPath) m
    (contextPath_ne_nil aPath)
  refine ⟨result, by rw [smartHandlerByPath, hrun]; rfl, ?_⟩
  cases result with
  | some i => exact hI
  | none =>
    obtain ⟨a, b, -, hp, -, hlonger⟩ := hI
    have hp1 : p ≤ 1 := by simpa [searchLoop] using hexit
    have ha : a = [] := by
      rcases hp with hp | ⟨-, ha⟩
      · exact List.length_eq_zero_iff.mp (by simp only at hp; omega)
      · exact ha
    intro u hu
    refine hlonger u hu ?_
    rw [ha]
    exact List.length_pos_of_ne_nil (hu.ne_nil (contextPath_ne_nil aPath))

/-- The route that is picked is the one described by `Picks`. -/
lemma picked_spec (m : String8) (path : String32) :
    ∃ h, r.picked path m = some h ∧ Picks r.handlers m path h := by
  unfold picked
  cases hpath : r.handlerByPath path m with
  | some h => exact ⟨_, rfl, handlerByPath_eq_some_iff.mp hpath⟩
  | none =>
    obtain ⟨info, hinfo, hspec⟩ := smartHandlerByPath_spec (r := r) (asString8 path) m
    rw [hinfo]
    refine ⟨_, rfl, ?_⟩
    have hno := handlerByPath_eq_none_iff.mp hpath
    rcases info with _ | ⟨u, h⟩
    · exact ⟨hno, fun u hu => handlerByPath_eq_none_iff.mp (hspec u hu)⟩
    · obtain ⟨hu, hh, hlonger⟩ := hspec
      exact ⟨hno, hu, handlerByPath_eq_some_iff.mp hh, fun u' hu' hlt =>
        handlerByPath_eq_none_iff.mp (hlonger u' hu' hlt)⟩

/-- The variant decreases unless the search finds a route. -/
lemma variantDecreases_iff (m : String8) (path : String32) :
    r.VariantDecreases m path ↔ (∃ e ∈ r.handlers, Serves m path e) ∨
      ∀ u, Candidate (contextPath (asString8 path)) u →
        ∀ e ∈ r.handlers, ¬ Serves m (asString32 u) e := by
  have hc := contextPath_ne_nil (asString8 path)
  constructor
  · intro hdec
    by_cases hpath : r.handlerByPath path m = none
    · right
      obtain ⟨info, hinfo, hspec⟩ := smartHandlerByPath_spec (r := r) (asString8 path) m
      cases info with
      | none => exact fun u hu => handlerByPath_eq_none_iff.mp (hspec u hu)
      | some i =>
        obtain ⟨s, hrun, hresult⟩ := Option.map_eq_some_iff.mp hinfo
        obtain ⟨hreach, -⟩ := Loop.reaches_of_run Loop.Reaches.refl hrun
        obtain ⟨s₁, s₂, hr₁, he, hb, hkeep⟩ := exists_keeps_variant hc hreach (by simp [hresult])
        have hlt := hdec hpath s₁ s₂ hr₁ he hb
        omega
    · left
      by_contra hno
      exact hpath (handlerByPath_eq_none_iff.mpr fun e he hs => hno ⟨e, he, hs⟩)
  · rintro (⟨e, he, hs⟩ | hall) hpath s s' hreach hexit hb
    · exact absurd hs (handlerByPath_eq_none_iff.mp hpath e he)
    · obtain ⟨s'', hbody, hI', -, hdec, -⟩ :=
        searchLoop_step (searchInv_of_reaches hc hreach) hexit
      rw [hb, Option.some.injEq] at hbody
      subst hbody
      refine (hdec ?_).1
      by_contra hsome
      obtain ⟨⟨u, h⟩, hres⟩ := Option.ne_none_iff_exists'.mp hsome
      rw [SearchInv, hres] at hI'
      obtain ⟨hu, hh, -⟩ := hI'
      rw [handlerByPath_eq_none_iff.mpr (hall u hu)] at hh
      cases hh

end Dispatch

/-- **Dispatch of the URI router.** After every sequence of registrations, a request is dispatched
to the earliest route for its path, else to the earliest route for the longest candidate that has
one, and to nothing exactly if there is no such route. The variant of the search decreases in every
iteration if and only if there is a route for the path itself, or for none of the candidates.

**Proof sketch.** The candidates longer than the part tried next have no route: the search back for
a slash skips no candidate. The iteration that finds a route leaves the variant as it is. -/
theorem search_dispatches {H : Type*} (ops : List (Registration H)) (requestMethod : String8)
    (path : String32) :
    (∃ h, (run ops).picked path requestMethod = some h ∧
      Picks (registered none ops) requestMethod path h ∧
      (h = none ↔ (∀ e ∈ registered none ops, ¬ Serves requestMethod path e) ∧
        ∀ u, Candidate (contextPath (asString8 path)) u →
          ∀ e ∈ registered none ops, ¬ Serves requestMethod (asString32 u) e)) ∧
    ((run ops).VariantDecreases requestMethod path ↔
      (∃ e ∈ registered none ops, Serves requestMethod path e) ∨
      ∀ u, Candidate (contextPath (asString8 path)) u →
        ∀ e ∈ registered none ops, ¬ Serves requestMethod (asString32 u) e) := by
  rw [← handlers_run]
  refine ⟨?_, variantDecreases_iff requestMethod path⟩
  obtain ⟨h, hpicked, hspec⟩ := picked_spec (r := run ops) requestMethod path
  refine ⟨h, hpicked, hspec, ?_⟩
  rcases h with _ | ⟨h, _ | u⟩
  · exact ⟨fun _ => hspec, fun _ => rfl⟩
  · obtain ⟨e, he, -⟩ := hspec
    exact ⟨fun h' => (by cases h'), fun h' => absurd he.1 (h'.1 e he.mem)⟩
  · obtain ⟨-, hu, ⟨e, he, -⟩, -⟩ := hspec
    exact ⟨fun h' => (by cases h'), fun h' => absurd he.1 (h'.2 u hu e he.mem)⟩

/-- With a route for `/a`, the search for `/a.html` finds it in its first iteration, and keeps the
variant. -/
theorem search_keeps_variant :
    (run [.map (str "/a") () none]).picked (asString32 (str "/a.html")) (str "GET") =
      some (some ((), some (str "/a"))) ∧
    ¬ (run [.map (str "/a") () none]).VariantDecreases (str "GET")
      (asString32 (str "/a.html")) := by
  refine ⟨by decide +kernel, fun h => ?_⟩
  have hlt := h (by decide +kernel) ⟨3, none⟩ ⟨3, some (str "/a", ())⟩ Loop.Reaches.refl rfl rfl
  exact absurd hlt (lt_irrefl _)

end UriRouter

end EiffelWeb
