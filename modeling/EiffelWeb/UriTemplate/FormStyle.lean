import Mathlib.Data.List.Basic
import Mathlib.Tactic.Common
import EiffelWeb.Encoder.UrlRoundTrip
import EiffelWeb.UriTemplate.RoundTrip

set_option relaxedAutoImplicit false
set_option autoImplicit false

/-!
# Form-style expressions

Templates `lit{?x1,…,xn}`. The expansion writes `name=value` for each variable that has a value,
`?` before the first and `&` between them; the matcher takes the text behind the `?` apart again.
The values are percent-encoded, so that they hold neither `&` nor `=`.

## Main definitions

* `FormTemplate` — a literal followed by an expression `{?x1,…,xn}`.
* `FormAssignment` — values for some of the variables.
* `FormAssignment.pairs` — the variables with a value, in the order of the template.

## Main results

* `FormTemplate.analyze_text` — the analysis finds the expression and no syntax error.
* `expandedString_form` — the expansion.
* `importCustomStyleParameters_pairs` — the text of the pairs is taken apart.
* `matchUri_form` — expanding and matching gives the values back.
-/

namespace EiffelWeb.UriTemplate

/-- A template `lit{?x1,…,xn}`. -/
structure FormTemplate where
  /-- The literal. -/
  lit : String8
  /-- The names of the variables. -/
  names : List String8
  /-- The literal has no braces. -/
  lit_plain : ch '{' ∉ lit ∧ ch '}' ∉ lit
  /-- Names are not empty. -/
  names_ne_nil : ∀ x ∈ names, x ≠ []
  /-- Names are alphanumeric. -/
  names_alphaNumeric : ∀ x ∈ names, x.all isAlphaNumeric = true
  /-- Names are distinct. -/
  names_nodup : names.Nodup

/-- Values over the printable ASCII characters for some of the variables. -/
structure FormAssignment (names : List String8) where
  /-- The value of a variable, if any. -/
  value : String8 → Option String32
  /-- Only the variables have values. -/
  mem_names : ∀ x, (value x).isSome → x ∈ names
  /-- Values are printable. -/
  printable : ∀ x, ∀ s ∈ value x, ∀ c ∈ s, 0x20 ≤ c.toNat ∧ c.toNat ≤ 0x7E

namespace FormTemplate

/-- The text between the braces. -/
def expression (t : FormTemplate) : String8 := ch '?' :: [ch ','].intercalate t.names

/-- The text of the template. -/
def text (t : FormTemplate) : String8 := t.lit ++ ch '{' :: (t.expression ++ [ch '}'])

/-! ## Analysis -/

lemma validName (t : FormTemplate) {x : String8} (hx : x ∈ t.names) : ValidName x :=
  ValidName.of_isAlphaNumeric (t.names_ne_nil x hx) (t.names_alphaNumeric x hx)

lemma brace_notMem_names (t : FormTemplate) : ch '}' ∉ [ch ','].intercalate t.names :=
  Text.notMem_intercalate (by decide) fun x hx =>
    (t.validName hx).notMem (show isVarChar (ch '}') = false by decide)

/-- An expression `{?…}` at the end of the template. -/
lemma analyzeLoop_form {n i : ℤ} {x : String8} (hx : ch '}' ∉ x) (hn : n = i + x.length + 2)
    (st : AnalyzeState) (hin : st.inX = false) (hxs : st.x = []) :
    analyzeLoop n i (ch '{' :: (ch '?' :: x ++ [ch '}'])) st =
      { st with
        p := i
        inQuery := true
        hasQueryExpression := true
        expressions := st.expressions ++ [⟨i, ch '?' :: x, true⟩] } := by
  have hopen : analyzeStep n i (ch '{') (ch '?' :: x ++ [ch '}']) st =
      { st with p := i, inX := true, inQuery := true, hasQueryExpression := true } := by
    have hout : ¬ st.inX = true := by simp [hin]
    rw [analyzeStep, if_neg hout, if_pos rfl]
    simp
  have hq : ch '}' ∉ ch '?' :: x := by
    simp only [List.mem_cons, hx, or_false]
    decide
  have hend : ¬ i + 1 + ((ch '?' :: x).length : ℤ) < n := by
    simp only [List.length_cons]
    omega
  rw [analyzeLoop, hopen, analyzeLoop_inX hq _ _ _ rfl, analyzeLoop, analyzeLoop]
  simp only [analyzeStep, if_true, hxs, List.nil_append, hend, decide_false, Bool.and_false,
    Bool.or_false, hin]

/-- **The analysis of a template** finds the expression and no syntax error. -/
lemma analyze_text (t : FormTemplate) :
    (analyze t.text).expressions = [⟨t.lit.length + 1, t.expression, true⟩] ∧
      isValid t.text = true := by
  have hn : (t.text.length : ℤ) = 1 + t.lit.length + ([ch ','].intercalate t.names).length + 2 := by
    simp only [text, expression, List.length_append, List.length_cons, List.length_nil]
    omega
  have hloop : analyze t.text = analyzeLoop t.text.length 1 t.text
      ⟨false, [], 0, false, false, [], false⟩ := rfl
  rw [isValid, hloop, text, analyzeLoop_lit t.lit_plain.1 _ _ _ rfl, ← text, expression,
    analyzeLoop_form t.brace_notMem_names hn _ rfl rfl, add_comm (t.lit.length : ℤ)]
  exact ⟨rfl, rfl⟩

end FormTemplate

/-! ## Expansion -/

/-- The variables with a value, in the order of the template. -/
def pairsOf (value : String8 → Option String32) (names : List String8) :
    List (String8 × String32) :=
  names.filterMap fun x => (value x).map (Prod.mk x)

/-- `name=value`. -/
def pairText (p : String8 × String32) : String8 := p.1 ++ ch '=' :: UrlEncoder.encode p.2

/-- The text of the pairs, separated by ampersands. -/
def queryText : List (String8 × String32) → String8
  | [] => []
  | p :: ps => pairText p ++ ps.flatMap fun p => ch '&' :: pairText p

/-- The text of the pairs with the question mark before it, if there are any. -/
def query (ps : List (String8 × String32)) : String8 :=
  if ps = [] then [] else ch '?' :: queryText ps

section Expansion

variable {aHt : HashTable Datum String8} {value : String8 → Option String32}
  (hitem : ∀ x, HashTable.item aHt x = (value x).map Datum.string)

include hitem

/-- What the variable `x` of a form-style expression contributes. -/
lemma variableText_form (x : String8) :
    Expression.variableText aHt ⟨ch '?', x, none, 0, none⟩ =
      ((value x).map fun s => pairText (x, s), (value x).isNone) := by
  rw [Expression.variableText]
  simp only [hitem]
  rcases value x with _ | s
  · rfl
  · have hop : ch '?' ≠ ch '+' := by decide
    simp [ExpressionVariable.expandedString, ExpressionVariable.modifiedString,
      ExpressionVariable.urlEncodedString, ExpressionVariable.reserved,
      ExpressionVariable.nameThen, UrlEncoder.encodedString_result, pairText, hop]

variable {e : Expression} (he : e.operator = ch '?')

include he

/-- Behind the first variable with a value, each one is written with an ampersand before it. -/
lemma expandedVariables_form_false (names : List String8) :
    e.expandedVariables aHt false (names.map fun x => ⟨ch '?', x, none, 0, none⟩) =
      (pairsOf value names).flatMap fun p => ch '&' :: pairText p := by
  induction names with
  | nil => rfl
  | cons x names ih =>
    rw [List.map_cons, Expression.expandedVariables, variableText_form hitem]
    rcases hv : value x with _ | s
    · simp [ih, pairsOf, hv]
    · simp [ih, pairsOf, hv, Expression.opDelimiter, he]

/-- **The expansion of a form-style expression.** -/
lemma expandedVariables_form (names : List String8) :
    e.expandedVariables aHt true (names.map fun x => ⟨ch '?', x, none, 0, none⟩) =
      query (pairsOf value names) := by
  induction names with
  | nil => rfl
  | cons x names ih =>
    rw [List.map_cons, Expression.expandedVariables, variableText_form hitem]
    rcases hv : value x with _ | s
    · simp [ih, pairsOf, hv]
    · have hno : ch '?' ≠ noOperator := by decide
      simp [pairsOf, hv, query, queryText, Expression.opPrefix, he, hno,
        expandedVariables_form_false hitem he]

end Expansion

section Template

variable (t : FormTemplate)

lemma FormTemplate.operator_expression (q : ℤ) (isQuery : Bool) :
    (Expression.mk q t.expression isQuery).operator = ch '?' :=
  rfl

/-- The variables of the expression; without names there is one with an empty name. -/
lemma FormTemplate.variableList_expression (q : ℤ) (isQuery : Bool) :
    (Expression.mk q t.expression isQuery).variableList =
      (if t.names = [] then [[]] else t.names).map fun x => ⟨ch '?', x, none, 0, none⟩ := by
  have hlist : (Expression.mk q t.expression isQuery).variableList =
      (([ch ','].intercalate t.names).splitOn (ch ',')).map
        (Expression.parsedVariable (ch '?')) := rfl
  rw [hlist]
  by_cases hnames : t.names = []
  · rw [hnames]
    rfl
  · rw [if_neg hnames, List.splitOn_intercalate (ch ',') ?_ hnames]
    · exact List.map_congr_left fun x hx =>
        parsedVariable_of_validName (t.validName hx) (ch '?')
    · exact fun x hx => (t.validName hx).notMem (show isVarChar (ch ',') = false by decide)

variable (a : FormAssignment t.names) {aHt : HashTable Datum String8}
  (hitem : ∀ x, HashTable.item aHt x = (a.value x).map Datum.string)

include hitem

/-- **The expansion of a template**: the literal, and the pairs with a value. -/
lemma expandedString_form :
    expandedString t.text aHt = t.lit ++ query (pairsOf a.value t.names) := by
  have hlit : Text.substring t.text 1 (t.lit.length + 1 - 1) = t.lit :=
    Text.substring_prefix t.lit _ (by omega)
  have hend : Text.substring t.text (t.lit.length + 1 + t.expression.length + 2)
      t.text.length = [] := by
    refine Text.substring_eq_nil_of_lt _ ?_
    simp only [FormTemplate.text, List.length_append, List.length_cons, List.length_nil]
    omega
  have hnone : a.value [] = none := by
    by_contra hne
    exact t.names_ne_nil [] (a.mem_names [] (Option.isSome_iff_ne_none.mpr hne)) rfl
  have hpairs : pairsOf a.value (if t.names = [] then [[]] else t.names) =
      pairsOf a.value t.names := by
    by_cases hnames : t.names = []
    · simp [hnames, pairsOf, hnone]
    · rw [if_neg hnames]
  rw [expandedString, t.analyze_text.1]
  simp only [expandLoop, hlit, hend, List.nil_append, List.append_nil,
    Expression.appendExpandedToString, t.variableList_expression]
  rw [expandedVariables_form hitem (t.operator_expression _ _), hpairs]

end Template

/-! ## Matching -/

/-- An encoded character holds no separator. -/
lemma amp_notMem_encodedCharacter {c : Character32} (h : c.toNat ≤ 255) :
    ch '&' ∉ UrlEncoder.encodedCharacter c := by
  have hall : ∀ n : Fin 256, ch '&' ∉ UrlEncoder.encodedCharacter (UInt32.ofNat n) := by
    decide +kernel
  have hc := hall ⟨c.toNat, by omega⟩
  rwa [UInt32.ofNat_toNat] at hc

lemma amp_notMem_pairText {p : String8 × String32} (hname : ch '&' ∉ p.1)
    (hvalue : ∀ c ∈ p.2, c.toNat ≤ 255) : ch '&' ∉ pairText p := by
  have henc : ch '&' ∉ UrlEncoder.encode p.2 := by
    rw [UrlEncoder.encode, List.mem_flatMap]
    rintro ⟨c, hc, hmem⟩
    exact amp_notMem_encodedCharacter (hvalue c hc) hmem
  rw [pairText, List.mem_append, List.mem_cons]
  rintro (hmem | hmem | hmem)
  · exact hname hmem
  · exact absurd hmem (by decide)
  · exact henc hmem

/-- A segment `name=value` is stored under the name. -/
lemma importSegment_pairText {p : String8 × String32} (hname : ch '=' ∉ p.1) (res : StringTable) :
    importSegment (pairText p) res = res.force (UrlEncoder.encode p.2) p.1 := by
  have hindex : Text.indexOf (pairText p) (ch '=') 1 = p.1.length + 1 :=
    Text.indexOf_one_eq p.1 _ hname
  have hfst : Text.substring (pairText p) 1 (p.1.length + 1 - 1) = p.1 :=
    Text.substring_prefix p.1 _ (by omega)
  have hsnd : Text.substring (pairText p) (p.1.length + 1 + 1) (pairText p).length =
      UrlEncoder.encode p.2 := Text.substring_behind p.1 _ _ (by omega) rfl
  have hne : (pairText p).isEmpty = false := by simp [pairText]
  simp only [importSegment, hindex, hfst, hsnd, hne]
  rw [if_pos (by simp), if_pos (by omega)]

/-- The table with the encoded values of the pairs. -/
def storedPairs (ps : List (String8 × String32)) (res : StringTable) : StringTable :=
  ps.foldl (fun res p => res.force (UrlEncoder.encode p.2) p.1) res

section Import

variable (l : String8) {p : String8 × String32} (hname : ch '&' ∉ p.1 ∧ ch '=' ∉ p.1)
  (hvalue : ∀ c ∈ p.2, c.toNat ≤ 255) (res : StringTable)

lemma importLoop_exit_eq_false (s : String8) :
    (importLoop s (ch '&')).exit (l.length + 1, res) = false := by
  simp only [importLoop, decide_eq_false_iff_not]
  omega

include hname hvalue

/-- An iteration at the last pair. -/
lemma importLoop_body_last :
    (importLoop (l ++ pairText p) (ch '&')).body (l.length + 1, res) =
      some (0, res.force (UrlEncoder.encode p.2) p.1) := by
  have hindex : Text.indexOf (l ++ pairText p) (ch '&') (l.length + 1) = 0 :=
    Text.indexOf_eq_zero l (pairText p) rfl (amp_notMem_pairText hname.1 hvalue)
  have hpart : Text.substring (l ++ pairText p) (l.length + 1) (l ++ pairText p).length =
      pairText p := Text.substring_suffix l (pairText p) rfl rfl
  simp only [importLoop, hindex, if_true, hpart, importSegment_pairText hname.2]

/-- An iteration at a pair before others. -/
lemma importLoop_body_next (r : String8) :
    (importLoop (l ++ (pairText p ++ ch '&' :: r)) (ch '&')).body (l.length + 1, res) =
      some (((l ++ (pairText p ++ [ch '&'])).length : ℤ) + 1,
        res.force (UrlEncoder.encode p.2) p.1) := by
  have hindex : Text.indexOf (l ++ (pairText p ++ ch '&' :: r)) (ch '&') (l.length + 1) =
      l.length + (pairText p).length + 1 :=
    Text.indexOf_eq l (pairText p) _ rfl (amp_notMem_pairText hname.1 hvalue)
  have hpart : Text.substring (l ++ (pairText p ++ ch '&' :: r)) (l.length + 1)
      (l.length + (pairText p).length + 1 - 1) = pairText p :=
    Text.substring_eq l (pairText p) _ rfl (by omega)
  have hnext : (l.length : ℤ) + (pairText p).length + 1 + 1 =
      (l ++ (pairText p ++ [ch '&'])).length + 1 := by
    simp only [List.length_append, List.length_singleton]
    omega
  simp only [importLoop, hindex, hpart, importSegment_pairText hname.2]
  rw [if_neg (by omega), hnext]

end Import

/-- The pairs of the text from a position on are stored.

**Proof sketch.** Induction on the pairs: an iteration reads up to the next ampersand, which is
the one between two pairs, as neither names nor encoded values hold one. -/
lemma importLoop_pairs (l : String8) (p : String8 × String32) (ps : List (String8 × String32))
    (hnames : ∀ q ∈ p :: ps, ch '&' ∉ q.1 ∧ ch '=' ∉ q.1)
    (hvalues : ∀ q ∈ p :: ps, ∀ c ∈ q.2, c.toNat ≤ 255) (res : StringTable) {n : ℕ}
    (hn : ps.length < n) :
    ((importLoop (l ++ queryText (p :: ps)) (ch '&')).run n (l.length + 1, res)).map Prod.snd =
      some (storedPairs (p :: ps) res) := by
  induction ps generalizing l p res n with
  | nil =>
    obtain ⟨n, rfl⟩ : ∃ k, n = k + 1 := ⟨n - 1, by omega⟩
    have hbody := importLoop_body_last l (hnames p List.mem_cons_self)
      (hvalues p List.mem_cons_self) res
    have htext : queryText [p] = pairText p := by simp [queryText]
    rw [htext, Loop.run_succ (importLoop_exit_eq_false l res _) hbody,
      Loop.run_of_exit (by simp [importLoop])]
    rfl
  | cons q ps ih =>
    obtain ⟨n, rfl⟩ : ∃ k, n = k + 1 := ⟨n - 1, by omega⟩
    have hbody := importLoop_body_next l (hnames p List.mem_cons_self)
      (hvalues p List.mem_cons_self) res (queryText (q :: ps))
    have htext : queryText (p :: q :: ps) = pairText p ++ ch '&' :: queryText (q :: ps) := by
      simp [queryText]
    have hsplit : l ++ (pairText p ++ ch '&' :: queryText (q :: ps)) =
        (l ++ (pairText p ++ [ch '&'])) ++ queryText (q :: ps) := by simp
    rw [htext, Loop.run_succ (importLoop_exit_eq_false l res _) hbody, hsplit]
    refine ih _ q (fun r hr => hnames r (List.mem_cons_of_mem p hr))
      (fun r hr => hvalues r (List.mem_cons_of_mem p hr)) _ ?_
    simp only [List.length_cons] at hn
    omega

/-- There are more characters than pairs. -/
lemma length_lt_length_queryText (p : String8 × String32) (ps : List (String8 × String32)) :
    ps.length < (queryText (p :: ps)).length := by
  have hle : ps.length ≤ (ps.flatMap fun p => ch '&' :: pairText p).length := by
    induction ps with
    | nil => exact le_rfl
    | cons q ps ih =>
      simp only [List.flatMap_cons, List.length_append, List.length_cons]
      omega
  simp only [queryText, pairText, List.length_append, List.length_cons]
  simp only [pairText] at hle
  omega

/-- **The text of the pairs is taken apart.** -/
lemma importCustomStyleParameters_pairs {ps : List (String8 × String32)} (hps : ps ≠ [])
    (hnames : ∀ q ∈ ps, ch '&' ∉ q.1 ∧ ch '=' ∉ q.1)
    (hvalues : ∀ q ∈ ps, ∀ c ∈ q.2, c.toNat ≤ 255) (res : StringTable) :
    importCustomStyleParameters (queryText ps) (ch '&') res = some (storedPairs ps res) := by
  obtain ⟨p, ps, rfl⟩ := List.exists_cons_of_ne_nil hps
  have hlen := length_lt_length_queryText p ps
  rw [importCustomStyleParameters, if_pos (by omega)]
  exact importLoop_pairs [] p ps hnames hvalues res (by omega)

section Match

variable (t : FormTemplate) (a : FormAssignment t.names)

/-- A name holds no separator. -/
lemma FormTemplate.name_plain {x : String8} (hx : x ∈ t.names) : ch '&' ∉ x ∧ ch '=' ∉ x := by
  have hall := List.all_eq_true.mp (t.names_alphaNumeric x hx)
  exact ⟨fun h => absurd (hall _ h) (by decide), fun h => absurd (hall _ h) (by decide)⟩

/-- A pair is a variable with its value. -/
lemma FormAssignment.mem_pairsOf_iff {x : String8} {s : String32} :
    (x, s) ∈ pairsOf a.value t.names ↔ a.value x = some s := by
  rw [pairsOf, List.mem_filterMap]
  constructor
  · rintro ⟨y, -, hy⟩
    obtain ⟨s', hs', heq⟩ := Option.map_eq_some_iff.mp hy
    obtain ⟨rfl, rfl⟩ := Prod.mk.inj heq
    exact hs'
  · intro h
    exact ⟨x, a.mem_names x (by rw [h]; rfl), by rw [h, Option.map_some]⟩

/-- The stored text of a variable decodes to its value. -/
lemma FormAssignment.decoded_item (x : String8) :
    (HashTable.item (storedPairs (pairsOf a.value t.names) []) x).map
      (fun v => (UrlEncoder.decodedString v).result) = a.value x := by
  have hstored := HashTable.item_foldl_force (fun p : String8 × String32 => UrlEncoder.encode p.2)
    (fun p => p.1) (pairsOf a.value t.names) [] x
  rw [storedPairs]
  rcases hstored with ⟨⟨y, s⟩, hmem, rfl, hstored⟩ | ⟨hnot, hstored⟩
  · have hs := a.mem_pairsOf_iff.mp hmem
    have hcodes := a.printable y s hs
    rw [hstored, Option.map_some, UrlEncoder.decodedString_eq,
      UrlEncoder.decode_encode fun c hc => by have := hcodes c hc; omega, hs]
  · rw [hstored, HashTable.item_nil, Option.map_none]
    rcases hv : a.value x with _ | s
    · rfl
    · exact absurd rfl (hnot (x, s) (a.mem_pairsOf_iff.mpr hv))

/-- The literal is found at the start of the URI. -/
lemma checkLiteral_form (r : String8) (vars : MatchResult) :
    checkLiteral t.text (t.lit ++ r) ⟨t.lit.length + 1, t.expression, true⟩ ⟨true, 0, 0, vars⟩ =
      ⟨true, t.text.length + 1, 0, vars⟩ := by
  have htpl : Text.substring t.text 1 (t.lit.length + 1 - 1) = t.lit :=
    Text.substring_prefix t.lit _ (by omega)
  have huri : Text.substring (t.lit ++ r) (1 + 0) (t.lit.length + 1 + 0 - 1) = t.lit :=
    Text.substring_prefix t.lit _ (by omega)
  have hend : (t.lit.length : ℤ) + 1 + t.expression.length + 2 = t.text.length + 1 := by
    simp only [FormTemplate.text, List.length_append, List.length_cons, List.length_nil]
    omega
  rw [checkLiteral]
  simp only [Expression.endPosition, hend]
  rw [if_neg (by omega), if_pos (by omega), if_pos trivial, huri, htpl,
    decide_eq_true rfl]

/-- The text behind the literal is read, up to the end of the URI. -/
lemma readVariable_form : ∃ o : ℤ,
    readVariable t.text (t.lit ++ query (pairsOf a.value t.names))
        ⟨t.lit.length + 1, t.expression, true⟩ [] ⟨true, t.text.length + 1, 0, ⟨[], []⟩⟩ =
      some ⟨true, t.text.length + 1, o, ⟨[], storedPairs (pairsOf a.value t.names) []⟩⟩ ∧
    ((t.lit ++ query (pairsOf a.value t.names)).length : ℤ) ≤ t.text.length + 1 + o := by
  by_cases hps : pairsOf a.value t.names = []
  · -- nothing is read: the expression is behind the end of the URI, which a query may be
    refine ⟨0, ?_, ?_⟩
    · rw [hps, query, if_pos rfl, List.append_nil, FormTemplate.expression, readVariable]
      simp only
      rw [if_neg (by omega)]
      rfl
    · rw [hps, query, if_pos rfl, List.append_nil]
      simp only [FormTemplate.text, List.length_append]
      omega
  · have hnames : ∀ q ∈ pairsOf a.value t.names, ch '&' ∉ q.1 ∧ ch '=' ∉ q.1 := by
      rintro ⟨x, s⟩ hq
      have hv := (a.mem_pairsOf_iff t).mp hq
      exact t.name_plain (a.mem_names x (by rw [hv]; rfl))
    have hvalues : ∀ q ∈ pairsOf a.value t.names, ∀ c ∈ q.2, c.toNat ≤ 255 := by
      rintro ⟨x, s⟩ hq c hc
      have hc' := a.printable x s ((a.mem_pairsOf_iff t).mp hq) c hc
      omega
    have himport := importCustomStyleParameters_pairs hps hnames hvalues []
    rw [query, if_neg hps]
    generalize pairsOf a.value t.names = ps at *
    have hcontent : Text.substring (t.lit ++ ch '?' :: queryText ps) (t.lit.length + 1 + 0 + 1)
        (t.lit ++ ch '?' :: queryText ps).length = queryText ps :=
      Text.substring_behind t.lit _ _ (by omega) rfl
    have hlen : (t.lit ++ ch '?' :: queryText ps).length =
        t.lit.length + 1 + (queryText ps).length := by
      simp only [List.length_append, List.length_cons]
      omega
    refine ⟨0 + ((t.lit ++ ch '?' :: queryText ps).length - (t.lit.length + 1 + 0 + 1)), ?_, ?_⟩
    · rw [FormTemplate.expression, readVariable]
      simp only [hcontent, MatchState.table, MatchState.setTable, if_true, himport]
      rw [if_pos (by omega)]
      rfl
    · simp only [FormTemplate.text, List.length_append, List.length_cons] at hlen ⊢
      omega

/-- **Matching an expanded template** stores the encoded values of the variables that have one. -/
lemma matchUri_query :
    matchUri t.text (t.lit ++ query (pairsOf a.value t.names)) =
      some (some ⟨[], storedPairs (pairsOf a.value t.names) []⟩) := by
  obtain ⟨o, hread, hend⟩ := readVariable_form t a
  rw [matchUri, t.analyze_text.1]
  simp only [matchLoop, checkLiteral_form, if_true, Option.bind_eq_bind, hread, Option.bind_some,
    and_self, checkRemaining]
  rw [if_neg (by omega)]
  rfl

end Match

/-- **Form-style expansion and matching are inverse**: a template `lit{?x1,…,xn}` is valid, and
matching its expansion gives the value of each variable that has one, and `Void` for the others.

**Proof sketch.** The expansion is the literal and the text of the pairs; the text of the pairs is
taken apart at its separators, which neither names nor encoded values hold, and decoding undoes
the encoding of the values. -/
theorem matchUri_form (t : FormTemplate) (a : FormAssignment t.names)
    (aHt : HashTable Datum String8)
    (hitem : ∀ x, HashTable.item aHt x = (a.value x).map Datum.string) :
    isValid t.text = true ∧ ∃ r, matchUri t.text (expandedString t.text aHt) = some (some r) ∧
      ∀ x ∈ t.names, r.urlDecodedQueryVariable x = a.value x := by
  rw [expandedString_form t a hitem, matchUri_query]
  exact ⟨t.analyze_text.2, _, rfl, fun x _ => a.decoded_item t x⟩

/-- The template `/s{?q,n,v}`. -/
def searchTemplate : FormTemplate where
  lit := str "/s"
  names := [str "q", str "n", str "v"]
  lit_plain := by decide
  names_ne_nil := by decide
  names_alphaNumeric := by decide
  names_nodup := by decide

/-- Separators in the value of `q`, the empty value for `n` and none for `v`. -/
def searchAssignment : FormAssignment searchTemplate.names where
  value x :=
    if x = str "q" then some (asString32 (str "a&b=c %?+"))
    else if x = str "n" then some [] else none
  mem_names x hx := by
    split_ifs at hx with hq hn
    · simp [searchTemplate, hq]
    · simp [searchTemplate, hn]
    · simp at hx
  printable x s hs := by
    have hall : (asString32 (str "a&b=c %?+")).all
        (fun c => decide (0x20 ≤ c.toNat ∧ c.toNat ≤ 0x7E)) = true := by decide
    split_ifs at hs with hq hn
    · obtain rfl := Option.some.inj hs
      exact fun c hc => of_decide_eq_true (List.all_eq_true.mp hall c hc)
    · obtain rfl := Option.some.inj hs
      simp
    · cases hs

theorem matchUri_form_search :
    ∃ r, matchUri searchTemplate.text (expandedString searchTemplate.text
        [(str "q", .string (asString32 (str "a&b=c %?+"))), (str "n", .string [])]) =
          some (some r) ∧
      r.urlDecodedQueryVariable (str "q") = some (asString32 (str "a&b=c %?+")) ∧
      r.urlDecodedQueryVariable (str "n") = some [] ∧
      r.urlDecodedQueryVariable (str "v") = none := by
  have hitem : ∀ x, HashTable.item
      [(str "q", Datum.string (asString32 (str "a&b=c %?+"))), (str "n", Datum.string [])] x =
        (searchAssignment.value x).map Datum.string := by
    intro x
    simp only [HashTable.item, searchAssignment]
    by_cases hq : x = str "q"
    · subst hq
      rfl
    · by_cases hn : x = str "n"
      · subst hn
        rfl
      · simp [hq, hn, Ne.symm hq, Ne.symm hn]
  obtain ⟨-, r, hr, hvalues⟩ := matchUri_form searchTemplate searchAssignment _ hitem
  refine ⟨r, hr, ?_, ?_, ?_⟩
  · rw [hvalues (str "q") (by decide)]
    rfl
  · rw [hvalues (str "n") (by decide)]
    rfl
  · rw [hvalues (str "v") (by decide)]
    rfl

end EiffelWeb.UriTemplate
