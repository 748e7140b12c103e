import Mathlib.Data.List.Basic
import Mathlib.Tactic.Common
import EiffelWeb.Wsf.Parameters

set_option relaxedAutoImplicit false
set_option autoImplicit false

/-!
# Cookies

The routine `cookies_table` of `WSF_REQUEST`. Its loop walks a position through the header: the
name reaches up to the next equal sign, the value up to the next semicolon after it. The position
moves only when there is an equal sign ahead.

## Main definitions

* `WsfRequest`, `WsfRequest.metaVariable`
* `cookieLoop`, `cookiesTable`, `cookie` — the routines.
* `cookiePairs` — the names and values the loop reads.
* `renderCookies` — the header a browser sends.

## Main results

* `cookieLoop_run` — the loop adds the pairs in order.
* `cookieLoop_terminates_iff` — when the loop ends.
* `cookie_renderCookies_iff` — when every cookie of a rendered list is found again.
-/

namespace EiffelWeb

/-- The part of `WSF_REQUEST` that the cookies are read from. -/
structure WsfRequest where
  /-- The attribute `meta_variables_table`. -/
  metaVariablesTable : HashTable WsfString String8
  /-- The attribute `internal_cookies_table`. -/
  internalCookiesTable : Option ValueTable

/-- `meta_variable (a_name)`. -/
def WsfRequest.metaVariable (rq : WsfRequest) (aName : String8) : Option WsfString :=
  rq.metaVariablesTable.item aName

/-- `{CGI_META_NAMES}.http_cookie`. -/
def httpCookie : String8 := str "HTTP_COOKIE"

section Routine

variable (uc : UnicodeConversion)

/-- The loop of `cookies_table` on the header `s`, over the position `p` and the table. -/
def cookieLoop (s : String8) : Loop (ℤ × ValueTable) where
  exit st := st.1 < 1
  body st :=
    let p := st.1
    let i := Text.indexOf s (ch '=') p
    if 0 < i then
      let j := Text.indexOf s (ch ';') i
      let (k, v, p) :=
        if j = 0 then (Text.substring s p (i - 1), Text.substring s (i + 1) s.length, 0)
        else (Text.substring s p (i - 1), Text.substring s (i + 1) (j - 1), j + 1)
      (addValueToTable uc k v st.2).map fun t => (p, t)
    else some st

/-- `cookies_table`, with the request after the call: the table is kept. `none` if the loop does
not end. The header is converted to a `STRING_8`. -/
def cookiesTable (rq : WsfRequest) : Option (ValueTable × WsfRequest) :=
  match rq.internalCookiesTable with
  | some t => some (t, rq)
  | none =>
    let cookies :=
      match rq.metaVariable httpCookie with
      | some val =>
        let s := asString8 val.string
        ((cookieLoop uc s).run (s.length + 1) (1, [])).map Prod.snd
      | none => some []
    cookies.map fun t => (t, { rq with internalCookiesTable := some t })

/-- `cookie (a_name)`, with the request after the call. -/
def cookie (rq : WsfRequest) (aName : String8) : Option (Option WsfValue × WsfRequest) :=
  (cookiesTable uc rq).map fun r => (r.1.item (asString32 aName), r.2)

end Routine

/-! ## The pairs of a header -/

/-- The names and values of a header: a name reaches up to the next equal sign and may contain
semicolons, a value reaches up to the next semicolon. -/
def cookiePairs (s : String8) : List (String8 × String8) :=
  if _h : ch '=' ∈ s then
    let k := s.takeWhile (· ≠ ch '=')
    let w := (s.dropWhile (· ≠ ch '=')).tail
    if ch ';' ∈ w then
      (k, w.takeWhile (· ≠ ch ';')) :: cookiePairs (w.dropWhile (· ≠ ch ';')).tail
    else [(k, w)]
  else []
termination_by s.length
decreasing_by
  have h₁ := (List.dropWhile_suffix (l := s) (· ≠ ch '=')).length_le
  have h₂ := (List.dropWhile_suffix
    (l := (s.dropWhile (· ≠ ch '=')).tail) (· ≠ ch ';')).length_le
  have h₃ := List.length_pos_of_mem ‹ch '=' ∈ s›
  simp only [List.length_tail] at h₂ ⊢
  omega

lemma cookiePairs_last {k v : String8} (hk : ch '=' ∉ k) (hv : ch ';' ∉ v) :
    cookiePairs (k ++ ch '=' :: v) = [(k, v)] := by
  rw [cookiePairs, dif_pos (by simp)]
  simp only [Text.takeWhile_ne hk, Text.dropWhile_ne hk, List.tail_cons, if_neg hv]

lemma cookiePairs_cons {k v r : String8} (hk : ch '=' ∉ k) (hv : ch ';' ∉ v) :
    cookiePairs (k ++ ch '=' :: (v ++ ch ';' :: r)) = (k, v) :: cookiePairs r := by
  rw [cookiePairs, dif_pos (by simp)]
  simp only [Text.takeWhile_ne hk, Text.dropWhile_ne hk, Text.takeWhile_ne hv,
    Text.dropWhile_ne hv, List.tail_cons]
  rw [if_pos (by simp)]

/-! ## The loop -/

section Loop

variable {uc : UnicodeConversion}

/-- The last pair of a header. -/
lemma cookieLoop_body_last (l : String8) {k v : String8} (hk : ch '=' ∉ k) (hv : ch ';' ∉ v)
    {p : ℤ} (hp : p = l.length + 1) (t : ValueTable) :
    (cookieLoop uc (l ++ (k ++ ch '=' :: v))).body (p, t) =
      (addValueToTable uc k v t).map fun t' => (0, t') := by
  set s := l ++ (k ++ ch '=' :: v) with hs
  have hi : Text.indexOf s (ch '=') p = l.length + k.length + 1 := Text.indexOf_eq l k v hp hk
  have hj : Text.indexOf s (ch ';') (l.length + k.length + 1) = 0 := by
    have hs' : s = (l ++ k) ++ ch '=' :: v := by simp [hs]
    rw [hs']
    exact Text.indexOf_eq_zero _ _ (by simp) (by simp only [List.mem_cons, hv, or_false]; decide)
  have hname : Text.substring s p (l.length + k.length + 1 - 1) = k :=
    Text.substring_eq l k _ hp (by simp)
  have hvalue : Text.substring s (l.length + k.length + 1 + 1) s.length = v := by
    have hs' : s = (l ++ (k ++ [ch '='])) ++ v := by simp [hs]
    rw [hs']
    exact Text.substring_suffix _ _ (by simp; omega) rfl
  have hpos : 0 < (l.length : ℤ) + k.length + 1 := by omega
  simp only [cookieLoop, hi, hj, hname, hvalue, if_pos hpos, if_true]

/-- A pair with a semicolon behind it. -/
lemma cookieLoop_body_next (l : String8) {k v r : String8} (hk : ch '=' ∉ k) (hv : ch ';' ∉ v)
    {p : ℤ} (hp : p = l.length + 1) (t : ValueTable) :
    (cookieLoop uc (l ++ (k ++ ch '=' :: (v ++ ch ';' :: r)))).body (p, t) =
      (addValueToTable uc k v t).map fun t' =>
        (((l ++ (k ++ ch '=' :: (v ++ [ch ';']))).length : ℤ) + 1, t') := by
  set s := l ++ (k ++ ch '=' :: (v ++ ch ';' :: r)) with hs
  have hi : Text.indexOf s (ch '=') p = l.length + k.length + 1 := Text.indexOf_eq l k _ hp hk
  have hj : Text.indexOf s (ch ';') (l.length + k.length + 1) =
      l.length + k.length + (v.length + 1) + 1 := by
    have hs' : s = (l ++ k) ++ ((ch '=' :: v) ++ ch ';' :: r) := by simp [hs]
    rw [hs', Text.indexOf_eq _ _ _ (by simp) (by simp only [List.mem_cons, hv, or_false]; decide)]
    simp
  have hname : Text.substring s p (l.length + k.length + 1 - 1) = k :=
    Text.substring_eq l k _ hp (by simp)
  have hvalue : Text.substring s (l.length + k.length + 1 + 1)
      (l.length + k.length + (v.length + 1) + 1 - 1) = v := by
    have hs' : s = (l ++ (k ++ [ch '='])) ++ (v ++ ch ';' :: r) := by simp [hs]
    rw [hs']
    exact Text.substring_eq _ _ _ (by simp; omega) (by simp; omega)
  have hpos : 0 < (l.length : ℤ) + k.length + 1 := by omega
  have hne : ¬ ((l.length : ℤ) + k.length + (v.length + 1) + 1 = 0) := by omega
  have hnext : ((l ++ (k ++ ch '=' :: (v ++ [ch ';']))).length : ℤ) + 1 =
      l.length + k.length + (v.length + 1) + 1 + 1 := by
    simp only [List.length_append, List.length_cons, List.length_nil]
    omega
  simp only [cookieLoop, hi, hj, hname, hvalue, if_pos hpos, if_neg hne, hnext]

/-- Without an equal sign ahead the loop does nothing. -/
lemma cookieLoop_body_stuck (l : String8) {r : String8} (hr : ch '=' ∉ r) {p : ℤ}
    (hp : p = l.length + 1) (t : ValueTable) :
    (cookieLoop uc (l ++ r)).body (p, t) = some (p, t) := by
  simp [cookieLoop, Text.indexOf_eq_zero l r hp hr]

variable (uc) in
/-- **The loop adds the pairs in order**, if there is an equal sign after the last semicolon.

**Proof sketch.** Induction on the fuel, which exceeds the length of the text ahead. That equal
sign stays ahead until the last pair, so every iteration reads a pair. -/
lemma cookieLoop_run {fuel : ℕ} (l : String8) {r : String8} {p : ℤ} (hp : p = l.length + 1)
    (hr : ch '=' ∈ Text.afterLast (ch ';') r) (hf : r.length < fuel) (t : ValueTable) :
    ((cookieLoop uc (l ++ r)).run fuel (p, t)).map Prod.snd = addPairs uc (cookiePairs r) t := by
  induction fuel generalizing l r p t with
  | zero => omega
  | succ fuel ih =>
    have he : (cookieLoop uc (l ++ r)).exit (p, t) = false := by
      simp [cookieLoop]
      omega
    obtain ⟨k, w, rfl, hk⟩ := (Text.notMem_or_split (ch '=') r).resolve_left
      (not_not.mpr (Text.mem_of_mem_afterLast hr))
    rw [Loop.run_succ_of_not_exit he]
    rcases Text.notMem_or_split (ch ';') w with hw | ⟨v, r', rfl, hv⟩
    · rw [cookieLoop_body_last l hk hw hp, cookiePairs_last hk hw]
      rcases ht : addValueToTable uc k w t with _ | t'
      · simp [addPairs, ht]
      · have hrun := Loop.run_of_exit (l := cookieLoop uc (l ++ (k ++ ch '=' :: w)))
          (s := (0, t')) rfl fuel
        simp [addPairs, ht, hrun]
    · rw [cookieLoop_body_next l hk hv hp, cookiePairs_cons hk hv]
      rw [Text.afterLast_append_cons_append_cons] at hr
      have hs : l ++ (k ++ ch '=' :: (v ++ ch ';' :: r')) =
          (l ++ (k ++ ch '=' :: (v ++ [ch ';']))) ++ r' := by simp
      rcases ht : addValueToTable uc k v t with _ | t'
      · simp [addPairs, ht]
      · simp only [Option.map_some, Option.bind_some, addPairs, List.foldlM_cons, ht,
          Option.bind_eq_bind]
        rw [hs]
        refine ih _ rfl hr ?_ t'
        simp only [List.length_append, List.length_cons] at hf
        omega

/-- Without an equal sign after the last semicolon the loop does not end: every equal sign has a
semicolon behind it. -/
lemma cookieLoop_not_terminates {s : String8} (h : ch '=' ∉ Text.afterLast (ch ';') s)
    (t : ValueTable) : ¬ (cookieLoop uc s).Terminates (1, t) := by
  refine Loop.not_terminates_of_invariant
    (fun st => ∃ l r, s = l ++ r ∧ st.1 = (l.length : ℤ) + 1 ∧
      ch '=' ∉ Text.afterLast (ch ';') r)
    ?_ ⟨[], s, rfl, by simp, h⟩
  rintro ⟨p, t⟩ ⟨l, r, rfl, hp, hr⟩
  simp only at hp
  refine ⟨by simp [cookieLoop, hp], fun st' hb => ?_⟩
  rcases Text.notMem_or_split (ch '=') r with hn | ⟨k, w, rfl, hk⟩
  · rw [cookieLoop_body_stuck l hn hp, Option.some.injEq] at hb
    exact hb ▸ ⟨l, r, rfl, hp, hr⟩
  · rcases Text.notMem_or_split (ch ';') w with hw | ⟨v, r', rfl, hv⟩
    · exact absurd (Text.mem_afterLast_of_notMem k (by decide) hw) hr
    · rw [cookieLoop_body_next l hk hv hp, Option.map_eq_some_iff] at hb
      obtain ⟨t', -, rfl⟩ := hb
      rw [Text.afterLast_append_cons_append_cons] at hr
      exact ⟨l ++ (k ++ ch '=' :: (v ++ [ch ';'])), r', by simp, rfl, hr⟩

variable (uc) in
lemma addPairs_isSome_iff {ps : List (String8 × String8)} {t : ValueTable} :
    (addPairs uc ps t).isSome ↔ ∀ p ∈ ps, Parses p.1 := by
  induction ps generalizing t with
  | nil => simp [addPairs]
  | cons p ps ih =>
    by_cases hp : Parses p.1
    · obtain ⟨t', ht⟩ := Option.isSome_iff_exists.mp
        (addValueToTableWithin_isSome uc hp le_rfl p.2 t)
      have hstep : addPairs uc (p :: ps) t = addPairs uc ps t' := by
        simp [addPairs, addValueToTable, ht]
      rw [hstep, ih, List.forall_mem_cons]
      exact ⟨fun h => ⟨hp, h⟩, And.right⟩
    · simp [addPairs, addValueToTable, addValueToTableWithin_eq_none uc hp, hp]

/-- **Termination.** The loop ends exactly on the headers with an equal sign after the last
semicolon whose names parse. -/
theorem cookieLoop_terminates_iff (s : String8) :
    (cookieLoop uc s).Terminates (1, []) ↔
      ch '=' ∈ Text.afterLast (ch ';') s ∧ ∀ p ∈ cookiePairs s, Parses p.1 := by
  have hrun : ∀ n, ch '=' ∈ Text.afterLast (ch ';') s → s.length < n →
      (((cookieLoop uc s).run n (1, [])).isSome ↔ ∀ p ∈ cookiePairs s, Parses p.1) := by
    intro n h hn
    rw [← addPairs_isSome_iff uc (t := []), ← cookieLoop_run uc [] (p := 1) (by simp) h hn,
      Option.isSome_map, List.nil_append]
  constructor
  · rintro ⟨n, hn⟩
    have h : ch '=' ∈ Text.afterLast (ch ';') s := by
      by_contra h
      exact cookieLoop_not_terminates h [] ⟨n, hn⟩
    obtain ⟨st, hst⟩ := Option.isSome_iff_exists.mp hn
    refine ⟨h, (hrun (max n (s.length + 1)) h (by omega)).mp ?_⟩
    rw [Loop.run_mono (le_max_left _ _) hst]
    rfl
  · rintro ⟨h, hp⟩
    exact ⟨s.length + 1, (hrun _ h (Nat.lt_succ_self _)).mpr hp⟩

/-- A header that ends with a semicolon makes the loop run forever. -/
theorem cookieLoop_trailing_semicolon :
    ¬ (cookieLoop standardConversion (str "a=b;")).Terminates (1, []) :=
  cookieLoop_not_terminates (by decide) []

end Loop

/-! ## The header of a browser -/

section Render

/-- Cookies with names and values over the unreserved characters and with distinct non-empty
names. -/
structure ValidCookies (cookies : List (String8 × String8)) : Prop where
  /-- There is a cookie. -/
  ne_nil : cookies ≠ []
  /-- No name is empty. -/
  name_ne_nil : ∀ c ∈ cookies, c.1 ≠ []
  /-- Names are unreserved text. -/
  name_unreserved : ∀ c ∈ cookies, ∀ x ∈ c.1, isUnreserved x = true
  /-- Values are unreserved text. -/
  value_unreserved : ∀ c ∈ cookies, ∀ x ∈ c.2, isUnreserved x = true
  /-- Names are distinct. -/
  nodup : (cookies.map Prod.fst).Nodup

/-- The header `n1=v1; n2=v2; …`. -/
def renderCookies (cookies : List (String8 × String8)) : String8 :=
  (str "; ").intercalate (cookies.map fun c => c.1 ++ ch '=' :: c.2)

/-- The part of the header after the first cookie. -/
def renderRest (cookies : List (String8 × String8)) : String8 :=
  cookies.flatMap fun c => ch ';' :: ((ch ' ' :: c.1) ++ ch '=' :: c.2)

lemma renderCookies_cons (c : String8 × String8) (cookies : List (String8 × String8)) :
    renderCookies (c :: cookies) = c.1 ++ ch '=' :: (c.2 ++ renderRest cookies) := by
  induction cookies generalizing c with
  | nil => simp [renderCookies, renderRest]
  | cons d cookies ih =>
    have hstep : renderCookies (c :: d :: cookies) =
        (c.1 ++ ch '=' :: c.2) ++ (str "; " ++ renderCookies (d :: cookies)) := by
      simp [renderCookies, List.intercalate_cons_cons]
    have hsep : str "; " = [ch ';', ch ' '] := rfl
    rw [hstep, ih, hsep]
    simp [renderRest]

/-- The characters of a rendered list mean themselves. -/
lemma unreserved_plain : ∀ c : Character8, isUnreserved c = true →
    c.toNat < 128 ∧ c ≠ ch '+' ∧ c ≠ ch '%' ∧ c ≠ ch '=' ∧ c ≠ ch ';' ∧ c ≠ ch ' ' ∧
      c ≠ ch '[' :=
  forall_character8 (by decide +kernel)

lemma notMem_of_unreserved {s : String8} (h : ∀ x ∈ s, isUnreserved x = true) {c : Character8}
    (hc : isUnreserved c = false) : c ∉ s := fun hs => by simp [h c hs] at hc

/-- The loop reads the cookies back, with a blank before every name but the first. -/
lemma cookiePairs_renderRest {k v : String8} (cookies : List (String8 × String8))
    (hk : ch '=' ∉ k) (hv : ch ';' ∉ v)
    (hc : ∀ c ∈ cookies, (∀ x ∈ c.1, isUnreserved x = true) ∧ ∀ x ∈ c.2, isUnreserved x = true) :
    ch '=' ∈ Text.afterLast (ch ';') (k ++ ch '=' :: (v ++ renderRest cookies)) ∧
      cookiePairs (k ++ ch '=' :: (v ++ renderRest cookies)) =
        (k, v) :: cookies.map fun c => (ch ' ' :: c.1, c.2) := by
  induction cookies generalizing k v with
  | nil =>
    simp only [renderRest, List.flatMap_nil, List.append_nil, List.map_nil]
    exact ⟨Text.mem_afterLast_of_notMem k (by decide) hv, cookiePairs_last hk hv⟩
  | cons d cookies ih =>
    obtain ⟨hd₁, hd₂⟩ := hc d (by simp)
    have hname : ch '=' ∉ ch ' ' :: d.1 := by
      simp only [List.mem_cons, notMem_of_unreserved hd₁ (show isUnreserved (ch '=') = false by
        decide), or_false]
      decide
    have hrest : renderRest (d :: cookies) =
        ch ';' :: ((ch ' ' :: d.1) ++ ch '=' :: (d.2 ++ renderRest cookies)) := by
      simp [renderRest]
    obtain ⟨hmem, hpairs⟩ := ih hname (notMem_of_unreserved hd₂ (by decide))
      fun c hc' => hc c (by simp [hc'])
    rw [hrest]
    refine ⟨?_, ?_⟩
    · rwa [Text.afterLast_append_cons_append_cons]
    · rw [cookiePairs_cons hk hv, hpairs]
      rfl

variable {uc : UnicodeConversion}

lemma plainText_append {s t : String8} (hs : PlainText s) (ht : PlainText t) :
    PlainText (s ++ t) := fun c hc => (List.mem_append.mp hc).elim (hs c) (ht c)

lemma plainText_of_unreserved {s : String8} (h : ∀ x ∈ s, isUnreserved x = true) :
    PlainText s := fun c hc =>
  have hc' := unreserved_plain c (h c hc)
  ⟨hc'.1, hc'.2.1, hc'.2.2.1⟩

/-- Nothing in a rendered list is an escape. -/
lemma plainText_renderCookies {cookies : List (String8 × String8)} (h : ValidCookies cookies) :
    PlainText (renderCookies cookies) := by
  have hcookie : ∀ c ∈ cookies, PlainText (c.1 ++ ch '=' :: c.2) := fun c hc =>
    plainText_append (plainText_of_unreserved (h.name_unreserved c hc))
      (plainText_append (s := [ch '=']) (by decide)
        (plainText_of_unreserved (h.value_unreserved c hc)))
  obtain ⟨c, cookies, rfl⟩ := List.exists_cons_of_ne_nil h.ne_nil
  rw [renderCookies_cons, ← List.cons_append, ← List.append_assoc]
  refine plainText_append (hcookie c (by simp)) fun x hx => ?_
  obtain ⟨d, hd, hx⟩ := List.mem_flatMap.mp hx
  have hd' : PlainText ([ch ';', ch ' '] ++ (d.1 ++ ch '=' :: d.2)) :=
    plainText_append (by decide) (hcookie d (by simp [hd]))
  exact hd' x hx

/-- The cookie of a name, after the first call with a rendered header. -/
lemma cookie_renderCookies {rq : WsfRequest} {c : String8 × String8}
    {cookies : List (String8 × String8)} (h : ValidCookies (c :: cookies))
    (hrq : rq.internalCookiesTable = none)
    (hm : rq.metaVariable httpCookie =
      some (WsfString.make uc httpCookie (renderCookies (c :: cookies)))) (aName : String8) :
    ∃ rq', cookie uc rq aName = some (collect (asString32 aName) (stringsOf uc
      ((c.1, c.2) :: cookies.map fun d => (ch ' ' :: d.1, d.2)) (asString32 aName)), rq') := by
  have hs : asString8 (WsfString.make uc httpCookie (renderCookies (c :: cookies))).string =
      renderCookies (c :: cookies) := by
    simp only [WsfString.make]
    rw [urlDecodedString_of_plain uc (plainText_renderCookies h),
      asString8_asString32]
  have hopen : ∀ d ∈ c :: cookies, ch '[' ∉ d.1 := fun d hd =>
    notMem_of_unreserved (h.name_unreserved d hd) (by decide)
  obtain ⟨hmem, hpairs⟩ := cookiePairs_renderRest (k := c.1) (v := c.2) cookies
    (notMem_of_unreserved (h.name_unreserved c (by simp)) (by decide))
    (notMem_of_unreserved (h.value_unreserved c (by simp)) (by decide))
    fun d hd => ⟨h.name_unreserved d (by simp [hd]), h.value_unreserved d (by simp [hd])⟩
  set ps := (c.1, c.2) :: cookies.map fun d => (ch ' ' :: d.1, d.2) with hps
  have hflat : ∀ p ∈ ps, ch '[' ∉ p.1 := by
    intro p hp
    rcases List.mem_cons.mp hp with rfl | hp
    · exact hopen c (by simp)
    · obtain ⟨d, hd, rfl⟩ := List.mem_map.mp hp
      simp only [List.mem_cons, hopen d (by simp [hd]), or_false]
      decide
  obtain ⟨t, ht⟩ := Option.isSome_iff_exists.mp ((addPairs_isSome_iff uc (t := [])).mpr
    fun p hp => Or.inl (not_hasGroup_of_notMem (hflat p hp)))
  have hrun := cookieLoop_run uc [] (p := 1) (by simp) hmem (Nat.lt_succ_self _) []
  rw [hpairs, ht, List.nil_append, ← renderCookies_cons] at hrun
  refine ⟨{ rq with internalCookiesTable := some t }, ?_⟩
  have hitem := item_addPairs hflat [] (fun _ => rfl) ht (asString32 aName)
  rw [List.nil_append] at hitem
  simp only [cookie, cookiesTable, hrq, hm, hs]
  rw [← Nat.succ_eq_add_one, hrun]
  simp [hitem]

/-- The cookie `c` is found under its name, with its value. -/
def CookieFound (uc : UnicodeConversion) (rq : WsfRequest) (c : String8 × String8) : Prop :=
  ∃ s rq', cookie uc rq c.1 = some (some (.string s), rq') ∧ s.string = asString32 c.2

variable (uc) in
/-- Names and values decode to themselves, also with a blank in front. -/
lemma urlDecodedString_cookie {cookies : List (String8 × String8)} (h : ValidCookies cookies)
    {c : String8 × String8} (hc : c ∈ cookies) :
    urlDecodedString uc c.1 = asString32 c.1 ∧
      urlDecodedString uc (ch ' ' :: c.1) = asString32 (ch ' ' :: c.1) ∧
      urlDecodedString uc c.2 = asString32 c.2 := by
  have hn := plainText_of_unreserved (h.name_unreserved c hc)
  exact ⟨urlDecodedString_of_plain uc hn,
    urlDecodedString_of_plain uc (plainText_append (s := [ch ' ']) (by decide) hn),
    urlDecodedString_of_plain uc (plainText_of_unreserved (h.value_unreserved c hc))⟩

/-- A cookie that is alone is found. -/
lemma cookieFound_single {rq : WsfRequest} {c : String8 × String8} (h : ValidCookies [c])
    (hrq : rq.internalCookiesTable = none)
    (hm : rq.metaVariable httpCookie =
      some (WsfString.make uc httpCookie (renderCookies [c]))) : CookieFound uc rq c := by
  obtain ⟨rq', hcookie⟩ := cookie_renderCookies h hrq hm c.1
  obtain ⟨hn, -, hv⟩ := urlDecodedString_cookie uc h (List.mem_singleton_self c)
  refine ⟨WsfString.make uc c.1 c.2, rq', ?_, hv⟩
  rw [hcookie]
  simp [stringsOf, hn, collect]

/-- The second cookie is not found.

**Proof sketch.** The keys of the table are the first name and the other names with a blank in
front. No name has a blank, so nothing is stored under the second name. -/
lemma not_cookieFound_second {rq : WsfRequest} {c d : String8 × String8}
    {cookies : List (String8 × String8)} (h : ValidCookies (c :: d :: cookies))
    (hrq : rq.internalCookiesTable = none)
    (hm : rq.metaVariable httpCookie =
      some (WsfString.make uc httpCookie (renderCookies (c :: d :: cookies)))) :
    ¬ CookieFound uc rq d := by
  rintro ⟨s, rq₁, hfound, -⟩
  obtain ⟨rq₂, hcookie⟩ := cookie_renderCookies h hrq hm d.1
  have hfirst : asString32 c.1 ≠ asString32 d.1 := by
    have hnd := h.nodup
    simp only [List.map_cons, List.nodup_cons, List.mem_cons, not_or] at hnd
    exact fun he => hnd.1.1 (asString32_injective he)
  have hblank : ∀ e : String8 × String8, asString32 (ch ' ' :: e.1) ≠ asString32 d.1 := by
    intro e he
    have hmem : ch ' ' ∈ d.1 := by
      rw [← asString32_injective he]
      simp
    exact notMem_of_unreserved (h.name_unreserved d (by simp)) (by decide) hmem
  have hnone : stringsOf uc ((c.1, c.2) :: (d :: cookies).map fun e => (ch ' ' :: e.1, e.2))
      (asString32 d.1) = [] := by
    simp only [stringsOf, List.map_eq_nil_iff, List.filter_eq_nil_iff, decide_eq_true_eq]
    intro p hp
    rcases List.mem_cons.mp hp with rfl | hp
    · rw [(urlDecodedString_cookie uc h (by simp)).1]
      exact hfirst
    · obtain ⟨e, he, rfl⟩ := List.mem_map.mp hp
      rw [(urlDecodedString_cookie uc h (List.mem_cons_of_mem _ he)).2.1]
      exact hblank e
  rw [hcookie, hnone] at hfound
  simp [collect] at hfound

/-- **Recovery of cookies.** With the header of a browser, every cookie is found under its name
exactly when there is only one: the blank after a semicolon becomes part of the next name. -/
theorem cookie_renderCookies_iff (uc : UnicodeConversion) (rq : WsfRequest)
    (cookies : List (String8 × String8)) (h : ValidCookies cookies)
    (hrq : rq.internalCookiesTable = none)
    (hm : rq.metaVariable httpCookie =
      some (WsfString.make uc httpCookie (renderCookies cookies))) :
    (∀ c ∈ cookies, CookieFound uc rq c) ↔ cookies.length = 1 := by
  obtain ⟨c, cookies, rfl⟩ := List.exists_cons_of_ne_nil h.ne_nil
  rcases cookies with _ | ⟨d, cookies⟩
  · refine ⟨fun _ => rfl, fun _ e he => ?_⟩
    obtain rfl := List.mem_singleton.mp he
    exact cookieFound_single h hrq hm
  · refine ⟨fun hall => ?_, fun hlen => by simp at hlen⟩
    exact absurd (hall d (by simp)) (not_cookieFound_second h hrq hm)

/-- A request whose only meta variable is the cookie header. -/
def requestWithCookies (uc : UnicodeConversion) (cookies : List (String8 × String8)) :
    WsfRequest where
  metaVariablesTable := [(httpCookie, WsfString.make uc httpCookie (renderCookies cookies))]
  internalCookiesTable := none

/-- The header `id=7` gives its cookie back. -/
theorem cookie_renderCookies_one :
    ValidCookies [(str "id", str "7")] ∧
      ∀ c ∈ [(str "id", str "7")],
        CookieFound standardConversion
          (requestWithCookies standardConversion [(str "id", str "7")]) c := by
  have h : ValidCookies [(str "id", str "7")] :=
    ⟨by decide, by decide, by decide +kernel, by decide +kernel, by decide⟩
  exact ⟨h, (cookie_renderCookies_iff standardConversion _ _ h rfl rfl).mpr rfl⟩

/-- With the header `a=1; b=2` the second cookie is not found. -/
theorem not_cookieFound_two :
    ValidCookies [(str "a", str "1"), (str "b", str "2")] ∧
      ¬ ∀ c ∈ [(str "a", str "1"), (str "b", str "2")],
        CookieFound standardConversion
          (requestWithCookies standardConversion [(str "a", str "1"), (str "b", str "2")]) c := by
  have h : ValidCookies [(str "a", str "1"), (str "b", str "2")] :=
    ⟨by decide, by decide, by decide +kernel, by decide +kernel, by decide⟩
  exact ⟨h, fun hall => not_cookieFound_second h rfl rfl (hall _ (by simp))⟩

end Render

end EiffelWeb
