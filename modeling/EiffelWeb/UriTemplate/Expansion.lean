import EiffelWeb.UriTemplate.Template

set_option relaxedAutoImplicit false
set_option autoImplicit false

/-!
# Expansion

What `expanded_string` makes of a template: the positions that the analysis records cut the
template into its literals and the texts between braces, so the expansion is that of the
expressions with the literals between them. What a string contributes to the expansion of an
expression is percent-encoded, unless the operator is `+`.

The second part is about variables without data. The loop over the variables of an expression
passes over them before it decides between the prefix and the delimiter, so they leave no trace.

## Main definitions

* `UriTemplate.BracedTemplate` — literals and texts between braces.
* `ExpressionVariable.valueText` — what a string contributes.
* `Expression.isUndefined` — a variable without data and default value.

## Main results

* `UriTemplate.expandedString_braced` — literals are kept and values are encoded.
* `Expression.appendExpandedToString_undefined` — undefined variables leave no trace.
-/

namespace EiffelWeb

namespace UriTemplate

/-! ## Templates with balanced braces -/

/-- The braces of the text are balanced and not nested, where `inX` tells whether an opening brace
stands before it. -/
def bracesBalanced : (inX : Bool) → String8 → Bool
  | inX, [] => !inX
  | inX, c :: r =>
    if c = ch '{' then !inX && bracesBalanced true r
    else if c = ch '}' then inX && bracesBalanced false r
    else bracesBalanced inX r

/-- A text without braces. -/
def NoBrace (s : String8) : Prop := ch '{' ∉ s ∧ ch '}' ∉ s

/-- The texts between braces with the literals behind them. -/
def bracedText (parts : List (String8 × String8)) : String8 :=
  parts.flatMap fun p => ch '{' :: (p.1 ++ ch '}' :: p.2)

/-- A template: the literal before the first expression, and the expressions with the literals
behind them. -/
structure BracedTemplate where
  /-- The text before the first expression. -/
  lit : String8
  /-- The texts between the braces and the literals behind them. -/
  parts : List (String8 × String8)
  /-- The first literal has no braces. -/
  lit_noBrace : NoBrace lit
  /-- Neither expressions nor literals have braces. -/
  parts_noBrace : ∀ p ∈ parts, NoBrace p.1 ∧ NoBrace p.2

/-- The template. -/
def BracedTemplate.text (t : BracedTemplate) : String8 := t.lit ++ bracedText t.parts

/-- What an expression appends on its own. -/
def ownExpansion (aHt : HashTable Datum String8) (x : String8) : String8 :=
  (Expression.mk 0 x false).appendExpandedToString aHt []

/-- The literals with the expansion of each expression in its place. -/
def BracedTemplate.expansion (t : BracedTemplate) (aHt : HashTable Datum String8) : String8 :=
  t.lit ++ t.parts.flatMap fun p => ownExpansion aHt p.1 ++ p.2

lemma bracedText_cons (p : String8 × String8) (parts : List (String8 × String8)) :
    bracedText (p :: parts) = ch '{' :: (p.1 ++ ch '}' :: (p.2 ++ bracedText parts)) := by
  simp [bracedText]

lemma noBrace_nil : NoBrace [] := ⟨List.not_mem_nil, List.not_mem_nil⟩

lemma NoBrace.cons {c : Character8} (ho : c ≠ ch '{') (hc : c ≠ ch '}') {s : String8}
    (h : NoBrace s) : NoBrace (c :: s) := by
  unfold NoBrace
  simp only [List.mem_cons, not_or]
  exact ⟨⟨ho.symm, h.1⟩, ⟨hc.symm, h.2⟩⟩

/-- A text with balanced braces is cut at its braces, outside an expression and inside.

**Proof sketch.** Induction on the text, for both cases at once: a brace changes from one to the
other, any other character belongs to the literal or to the expression. -/
lemma exists_parts (s : String8) :
    (bracesBalanced false s = true → ∃ t : BracedTemplate, t.text = s) ∧
    (bracesBalanced true s = true → ∃ x, NoBrace x ∧ ∃ t : BracedTemplate,
      x ++ ch '}' :: t.text = s) := by
  induction s with
  | nil =>
    refine ⟨fun _ => ⟨⟨[], [], noBrace_nil, by simp⟩, rfl⟩, fun h => ?_⟩
    cases h
  | cons c s ih =>
    obtain ⟨ihOut, ihIn⟩ := ih
    by_cases ho : c = ch '{'
    · subst ho
      refine ⟨fun h => ?_, fun h => ?_⟩
      · obtain ⟨x, hx, ⟨lit, parts, hlit, hparts⟩, rfl⟩ := ihIn (by simpa [bracesBalanced] using h)
        refine ⟨⟨[], (x, lit) :: parts, noBrace_nil, ?_⟩, ?_⟩
        · exact List.forall_mem_cons.mpr ⟨⟨hx, hlit⟩, hparts⟩
        · rw [BracedTemplate.text, bracedText_cons, List.nil_append]
          rfl
      · simp [bracesBalanced] at h
    by_cases hc : c = ch '}'
    · subst hc
      refine ⟨fun h => ?_, fun h => ?_⟩
      · simp [bracesBalanced, ho] at h
      · obtain ⟨t, rfl⟩ := ihOut (by simpa [bracesBalanced, ho] using h)
        exact ⟨[], noBrace_nil, t, rfl⟩
    · refine ⟨fun h => ?_, fun h => ?_⟩
      · obtain ⟨⟨lit, parts, hlit, hparts⟩, rfl⟩ :=
          ihOut (by simpa [bracesBalanced, ho, hc] using h)
        exact ⟨⟨c :: lit, parts, hlit.cons ho hc, hparts⟩, rfl⟩
      · obtain ⟨x, hx, t, rfl⟩ := ihIn (by simpa [bracesBalanced, ho, hc] using h)
        exact ⟨c :: x, hx.cons ho hc, t, rfl⟩

/-! ## The expansion of a template -/

/-- A literal only tells whether what follows is behind a `?`. -/
lemma analyzeLoop_lit {n : ℤ} {lit : String8} (hl : ch '{' ∉ lit) (i : ℤ) (r : String8)
    (st : AnalyzeState) (hin : st.inX = false) :
    analyzeLoop n i (lit ++ r) st =
      analyzeLoop n (i + lit.length) r
        { st with inQuery := st.inQuery || decide (ch '?' ∈ lit) } := by
  induction lit generalizing i st with
  | nil => simp
  | cons c lit ih =>
    simp only [List.mem_cons, not_or] at hl
    have hstep : analyzeStep n i c (lit ++ r) st =
        { st with inQuery := st.inQuery || decide (ch '?' = c) } := by
      have hout : ¬ st.inX = true := by simp [hin]
      rw [analyzeStep, if_neg hout, if_neg (Ne.symm hl.1)]
      by_cases hq : c = ch '?'
      · simp [hq]
      · simp [hq, Ne.symm hq]
    have hi : i + 1 + (lit.length : ℤ) = i + (c :: lit).length := by
      rw [List.length_cons]
      push_cast
      omega
    rw [List.cons_append, analyzeLoop, hstep,
      ih hl.2 (i + 1) { st with inQuery := st.inQuery || decide (ch '?' = c) } hin, hi]
    simp only [List.mem_cons, Bool.decide_or, Bool.or_assoc]

/-- The text between two braces is collected. -/
lemma analyzeLoop_inX {n : ℤ} {x : String8} (hx : ch '}' ∉ x) (i : ℤ) (r : String8)
    (st : AnalyzeState) (hin : st.inX = true) :
    analyzeLoop n i (x ++ r) st = analyzeLoop n (i + x.length) r { st with x := st.x ++ x } := by
  induction x generalizing i st with
  | nil => simp
  | cons c x ih =>
    simp only [List.mem_cons, not_or] at hx
    have hstep : analyzeStep n i c (x ++ r) st = { st with x := st.x ++ [c] } := by
      rw [analyzeStep, hin, if_pos rfl, if_neg (Ne.symm hx.1)]
    have hi : i + 1 + (x.length : ℤ) = i + (c :: x).length := by
      rw [List.length_cons]
      push_cast
      omega
    rw [List.cons_append, analyzeLoop, hstep, ih hx.2 (i + 1) { st with x := st.x ++ [c] } hin, hi]
    simp only [List.append_assoc, List.singleton_append]

/-- The positions and texts of the expressions behind `lit`, which starts at position `i`. -/
def spotsFrom (i : ℤ) (lit : String8) : List (String8 × String8) → List (ℤ × String8)
  | [] => []
  | p :: parts => (i + lit.length, p.1) :: spotsFrom (i + lit.length + p.1.length + 2) p.2 parts

/-- The position and the text of an expression. -/
def spot (e : Expression) : ℤ × String8 := (e.position, e.expression)

/-- An expression is recorded with its position, whatever stands before it. -/
lemma analyzeLoop_expression {n : ℤ} {x : String8} (hx : ch '}' ∉ x) (i : ℤ) (r : String8)
    (st : AnalyzeState) (hin : st.inX = false) (hxs : st.x = []) :
    ∃ st', analyzeLoop n i (ch '{' :: (x ++ ch '}' :: r)) st =
        analyzeLoop n (i + x.length + 2) r st' ∧ st'.inX = false ∧ st'.x = [] ∧
      st'.expressions.map spot = st.expressions.map spot ++ [(i, x)] := by
  have hopen : ∃ st₁, analyzeStep n i (ch '{') (x ++ ch '}' :: r) st = st₁ ∧ st₁.inX = true ∧
      st₁.x = [] ∧ st₁.p = i ∧ st₁.expressions = st.expressions := by
    have hout : ¬ st.inX = true := by simp [hin]
    rw [analyzeStep, if_neg hout, if_pos rfl]
    exact ⟨_, rfl, rfl, hxs, rfl, rfl⟩
  obtain ⟨st₁, hstep, hin₁, hxs₁, hp₁, hes₁⟩ := hopen
  have hlen : i + 1 + (x.length : ℤ) + 1 = i + x.length + 2 := by omega
  rw [analyzeLoop, hstep, analyzeLoop_inX hx _ _ st₁ hin₁, analyzeLoop, hlen]
  refine ⟨_, rfl, ?_, ?_, ?_⟩
  · simp [analyzeStep, hin₁]
  · simp [analyzeStep, hin₁]
  · simp [analyzeStep, hin₁, hxs₁, hp₁, hes₁, spot]

/-- The analysis records each expression with its position. -/
lemma analyzeLoop_spots {n : ℤ} {lit : String8} {parts : List (String8 × String8)}
    (hlit : ch '{' ∉ lit) (hparts : ∀ p ∈ parts, ch '}' ∉ p.1 ∧ ch '{' ∉ p.2) (i : ℤ)
    (st : AnalyzeState) (hin : st.inX = false) (hxs : st.x = []) :
    (analyzeLoop n i (lit ++ bracedText parts) st).expressions.map spot =
      st.expressions.map spot ++ spotsFrom i lit parts := by
  induction parts generalizing lit i st with
  | nil =>
    rw [analyzeLoop_lit hlit i _ st hin]
    simp [bracedText, analyzeLoop, spotsFrom]
  | cons p parts ih =>
    obtain ⟨hx, hnext⟩ := hparts p (by simp)
    rw [analyzeLoop_lit hlit i _ st hin, bracedText_cons]
    obtain ⟨st', hrun, hin', hxs', hes'⟩ := analyzeLoop_expression (n := n) hx (i + lit.length)
      (p.2 ++ bracedText parts) { st with inQuery := st.inQuery || decide (ch '?' ∈ lit) } hin hxs
    rw [hrun, ih hnext (fun q hq => hparts q (by simp [hq])) _ st' hin' hxs', hes']
    simp [spotsFrom]

/-- The loop over the variables depends on the expression through its operator only. -/
lemma expandedVariables_congr {e e' : Expression} (h : e'.operator = e.operator)
    (aHt : HashTable Datum String8) (first : Bool) (vars : List ExpressionVariable) :
    e'.expandedVariables aHt first vars = e.expandedVariables aHt first vars := by
  have hprefix : e'.opPrefix = e.opPrefix := by rw [Expression.opPrefix, h]; rfl
  have hdelimiter : e'.opDelimiter = e.opDelimiter := by rw [Expression.opDelimiter, h]; rfl
  induction vars generalizing first with
  | nil => rfl
  | cons v vars ih => simp only [Expression.expandedVariables, ih, h, hprefix, hdelimiter]

/-- What an expression appends depends only on its text. -/
lemma appendExpandedToString_eq (e : Expression) (aHt : HashTable Datum String8)
    (aBuffer : String8) : e.appendExpandedToString aHt aBuffer =
      aBuffer ++ (Expression.mk 0 e.expression false).appendExpandedToString aHt [] := by
  have hop : (Expression.mk 0 e.expression false).operator = e.operator := rfl
  rw [Expression.appendExpandedToString, ← expandedVariables_congr hop]
  rfl

/-- The expansion of the text behind a cut, from the positions of its expressions. -/
lemma expandLoop_spots (aHt : HashTable Datum String8) {lit : String8}
    {parts : List (String8 × String8)} {es : List Expression} (pre result : String8) {i : ℤ}
    (hi : i = pre.length + 1) (hes : es.map spot = spotsFrom i lit parts) :
    expandLoop (pre ++ (lit ++ bracedText parts)) aHt es i result =
      result ++ (lit ++ parts.flatMap fun p => ownExpansion aHt p.1 ++ p.2) := by
  induction parts generalizing lit pre result i es with
  | nil =>
    obtain rfl : es = [] := by simpa [spotsFrom] using hes
    simp only [expandLoop, bracedText, List.flatMap_nil, List.append_nil]
    rw [Text.substring_suffix pre lit hi rfl]
  | cons p parts ih =>
    rcases es with _ | ⟨e, es⟩
    · simp [spotsFrom] at hes
    · simp only [spotsFrom, List.map_cons, List.cons.injEq, spot, Prod.mk.injEq] at hes
      obtain ⟨⟨hpos, hexp⟩, hes⟩ := hes
      have hlit : Text.substring (pre ++ (lit ++ bracedText (p :: parts))) i
          (i + lit.length - 1) = lit :=
        Text.substring_eq pre lit _ hi (by omega)
      have hcut : pre ++ (lit ++ bracedText (p :: parts)) =
          (pre ++ (lit ++ ch '{' :: (p.1 ++ [ch '}']))) ++ (p.2 ++ bracedText parts) := by
        rw [bracedText_cons]
        simp
      have hnext : i + lit.length + p.1.length + 2 =
          ((pre ++ (lit ++ ch '{' :: (p.1 ++ [ch '}']))).length : ℤ) + 1 := by
        simp only [List.length_append, List.length_cons, List.length_nil]
        omega
      simp only [expandLoop, hpos, hexp, hlit]
      rw [hcut, ih _ _ hnext hes, appendExpandedToString_eq, hexp, List.flatMap_cons]
      simp only [ownExpansion, List.append_assoc]

/-- **The expansion of a template** keeps the literals. Only the braces that the analysis looks for
matter: the opening ones outside an expression and the closing ones inside. -/
lemma expandedString_bracedText {lit : String8} {parts : List (String8 × String8)}
    (hlit : ch '{' ∉ lit) (hparts : ∀ p ∈ parts, ch '}' ∉ p.1 ∧ ch '{' ∉ p.2)
    (aHt : HashTable Datum String8) :
    expandedString (lit ++ bracedText parts) aHt =
      lit ++ parts.flatMap fun p => ownExpansion aHt p.1 ++ p.2 := by
  have hspots := analyzeLoop_spots (n := (lit ++ bracedText parts).length) hlit hparts 1
    ⟨false, [], 0, false, false, [], false⟩ rfl rfl
  exact expandLoop_spots aHt [] [] rfl hspots

end UriTemplate

/-! ## The values of an expression -/

/-- Percent-encoded text has unreserved characters, percent signs and plus signs. -/
def isEncoded (c : Character8) : Bool := isUnreserved c || c = ch '%' || c = ch '+'

lemma isEncoded_encodedCharacter (w : Character32) {c : Character8}
    (h : c ∈ UrlEncoder.encodedCharacter w) : isEncoded c = true := by
  have hbyte : ∀ n : Fin 256,
      (UrlEncoder.encodedCharacter (UInt32.ofNat n)).all isEncoded = true := by
    decide +kernel
  by_cases hw : w.toNat < 256
  · have hcast : UInt32.ofNat (⟨w.toNat, hw⟩ : Fin 256) = w := by simp
    have hall := hbyte ⟨w.toNat, hw⟩
    rw [hcast] at hall
    exact List.all_eq_true.mp hall c h
  · have h8 : isCharacter8 w = false := by
      simp only [isCharacter8, decide_eq_false_iff_not]
      omega
    simp [UrlEncoder.encodedCharacter, UrlEncoder.encodedStep, UrlEncoder.appendUrlEncodedChar,
      UrlEncoder.urlEncodedChar, h8] at h

lemma isEncoded_encodedString (s : String32) {c : Character8}
    (h : c ∈ (UrlEncoder.encodedString s).result) : isEncoded c = true := by
  rw [UrlEncoder.encodedString_eq] at h
  obtain ⟨w, -, hc⟩ := List.mem_flatMap.mp h
  exact isEncoded_encodedCharacter w hc

lemma isEncoded_notMem_delimiters : ∀ c : Character8, isEncoded c = true → c ∉ str "/?#&=;," :=
  forall_character8 (by decide +kernel)

namespace ExpressionVariable

/-- What a string contributes to the expansion of a variable. -/
def valueText (v : ExpressionVariable) (s : String32) : String8 :=
  urlEncodedString (v.modifiedString s) (!v.reserved)

/-- What stands before it: the name, and an equals sign. -/
def valueHead (v : ExpressionVariable) (s : String32) : String8 :=
  if v.operator = ch '?' then v.nameThen '='
  else if v.operator = ch ';' then
    if (v.valueText s).isEmpty then v.name else v.nameThen '='
  else []

lemma expandedString_string (v : ExpressionVariable) (s : String32) :
    v.expandedString (some (.string s)) = some (v.valueHead s ++ v.valueText s) := by
  unfold expandedString valueHead
  dsimp only
  split_ifs <;> simp_all [valueText]

lemma isEncoded_valueText {v : ExpressionVariable} (hv : v.operator ≠ ch '+') (s : String32)
    {c : Character8} (h : c ∈ v.valueText s) : isEncoded c = true := by
  have hencode : v.valueText s = (UrlEncoder.encodedString (v.modifiedString s)).result := by
    simp [valueText, urlEncodedString, reserved, hv]
  rw [hencode] at h
  exact isEncoded_encodedString _ h

end ExpressionVariable

namespace Expression

/-- What stands before the text of a variable: the prefix or the delimiter. -/
def lead (e : Expression) (first : Bool) : String8 :=
  if first then (if e.opPrefix ≠ noOperator then [e.opPrefix] else []) else [e.opDelimiter]

lemma operator_of_mem_variableList {e : Expression} {v : ExpressionVariable}
    (hv : v ∈ e.variableList) : v.operator = e.operator := by
  rw [variableList] at hv
  split at hv
  · cases hv
  · obtain ⟨s, -, rfl⟩ := List.mem_map.mp hv
    unfold parsedVariable ExpressionVariable.make
    dsimp only
    split
    · rfl
    · rfl
    · split_ifs <;> rfl

/-- A variable bound to a string contributes its text behind the prefix or the delimiter. -/
lemma expandedVariables_string (e : Expression) {aHt : HashTable Datum String8}
    {v : ExpressionVariable} {s : String32} (hs : aHt.item v.name = some (.string s))
    (first : Bool) (vars : List ExpressionVariable) :
    e.expandedVariables aHt first (v :: vars) =
      e.lead first ++ (v.valueHead s ++ v.valueText s) ++ e.expandedVariables aHt false vars := by
  have htext : variableText aHt v = (some (v.valueHead s ++ v.valueText s), false) := by
    simp [variableText, hs, v.expandedString_string]
  rw [expandedVariables, htext]
  simp [lead]

end Expression

/-- **Literals are kept and values are encoded.** The expansion of a template whose braces are
balanced is that of its expressions with the literals between them. Under an operator other than
`+` a string contributes unreserved characters, percent signs and plus signs; all else in the
expansion of its variable is the prefix or the delimiter, the name and an equals sign. -/
theorem UriTemplate.expandedString_braced (tpl : String8)
    (htpl : UriTemplate.bracesBalanced false tpl = true) (aHt : HashTable Datum String8) :
    (∃ t : UriTemplate.BracedTemplate, t.text = tpl ∧
      UriTemplate.expandedString tpl aHt = t.expansion aHt) ∧
    ∀ e : Expression, e.operator ∈ noOperator :: str "./;?" → ∀ v ∈ e.variableList,
      ∀ s, aHt.item v.name = some (.string s) →
        (∀ first vars, e.expandedVariables aHt first (v :: vars) =
          e.lead first ++ (v.valueHead s ++ v.valueText s) ++ e.expandedVariables aHt false vars) ∧
        ∀ c ∈ v.valueText s,
          (isUnreserved c = true ∨ c = ch '%' ∨ c = ch '+') ∧ c ∉ str "/?#&=;," := by
  constructor
  · obtain ⟨t, rfl⟩ := (UriTemplate.exists_parts tpl).1 htpl
    refine ⟨t, rfl, UriTemplate.expandedString_bracedText t.lit_noBrace.1 ?_ aHt⟩
    intro p hp
    exact ⟨(t.parts_noBrace p hp).1.2, (t.parts_noBrace p hp).2.1⟩
  · intro e he v hv s hs
    refine ⟨e.expandedVariables_string hs, fun c hc => ?_⟩
    have hplus : v.operator ≠ ch '+' := by
      rw [Expression.operator_of_mem_variableList hv]
      intro h
      rw [h] at he
      revert he
      decide
    have henc := ExpressionVariable.isEncoded_valueText hplus s hc
    refine ⟨?_, isEncoded_notMem_delimiters c henc⟩
    simpa [isEncoded, or_assoc] using henc

/-- The template `/{a}?x={b}` with a value that has delimiters. -/
theorem UriTemplate.expandedString_braced_delimiters :
    (∃ t : UriTemplate.BracedTemplate, t.text = str "/{a}?x={b}" ∧
      UriTemplate.expandedString (str "/{a}?x={b}")
        [(str "a", .string (asString32 (str "1/2&3")))] =
          t.expansion [(str "a", .string (asString32 (str "1/2&3")))]) ∧
    ∀ c ∈ (ExpressionVariable.mk noOperator (str "a") none 0 none).valueText
        (asString32 (str "1/2&3")),
      (isUnreserved c = true ∨ c = ch '%' ∨ c = ch '+') ∧ c ∉ str "/?#&=;," := by
  have h := UriTemplate.expandedString_braced (str "/{a}?x={b}") (by decide +kernel)
    [(str "a", .string (asString32 (str "1/2&3")))]
  exact ⟨h.1, (h.2 ⟨2, str "a", false⟩ (by decide) _ (List.mem_singleton_self _) _ rfl).2⟩

/-! ## Undefined variables -/

namespace Expression

/-- A variable without default value that is missing in the table or bound to an empty array or an
empty table. -/
def isUndefined (aHt : HashTable Datum String8) (v : ExpressionVariable) : Bool :=
  v.defaultValue.isNone &&
    match aHt.item v.name with
    | none => true
    | some (.array items) => items.isEmpty
    | some (.table entries) => entries.isEmpty
    | _ => false

/-- An undefined variable has no text. -/
lemma variableText_undefined {aHt : HashTable Datum String8} {v : ExpressionVariable}
    (h : isUndefined aHt v = true) : (variableText aHt v).1 = none := by
  rw [isUndefined, Bool.and_eq_true, Option.isNone_iff_eq_none] at h
  obtain ⟨hdefault, hitem⟩ := h
  have hempty : v.expandedEmpty = [] := by
    unfold ExpressionVariable.expandedEmpty
    rw [hdefault]
  unfold variableText
  split at hitem
  · next hnone => rw [hnone]; exact hdefault
  · next items harray =>
    have hnil : v.expandedString (some (.array items)) = none := by
      simp [ExpressionVariable.expandedString, hitem, hempty, ExpressionVariable.voidIfEmpty]
    rw [harray]
    simp only [hnil, Option.isNone_none, true_and, hdefault]
    split <;> rfl
  · next entries htable =>
    have hnil : v.expandedString (some (.table entries)) = none := by
      simp [ExpressionVariable.expandedString, hitem, hempty, ExpressionVariable.voidIfEmpty]
    rw [htable]
    simp only [hnil, Option.isNone_none, true_and, hdefault]
    split <;> rfl
  · cases hitem

/-- The loop passes over a variable without text. -/
lemma expandedVariables_none (e : Expression) {aHt : HashTable Datum String8}
    {v : ExpressionVariable} (h : (variableText aHt v).1 = none) (first : Bool)
    (vars : List ExpressionVariable) :
    e.expandedVariables aHt first (v :: vars) = e.expandedVariables aHt first vars := by
  rw [expandedVariables]
  split
  · rfl
  · next s useDefault htext => rw [htext] at h; cases h

/-- Variables that are undefined may be left out. -/
lemma expandedVariables_filter (e : Expression) (aHt : HashTable Datum String8) (first : Bool)
    (vars : List ExpressionVariable) :
    e.expandedVariables aHt first (vars.filter fun v => !isUndefined aHt v) =
      e.expandedVariables aHt first vars := by
  induction vars generalizing first with
  | nil => rfl
  | cons v vars ih =>
    by_cases hv : isUndefined aHt v = true
    · rw [List.filter_cons_of_neg (by simp [hv]), ih,
        expandedVariables_none e (variableText_undefined hv)]
    · rw [List.filter_cons_of_pos (by simpa using hv), expandedVariables, expandedVariables]
      split
      · exact ih first
      · simp only [ih]

/-- **Undefined variables leave no trace**: an expression appends what it appends without them, and
nothing if it has no others. The last part is about an expression with another text that has the
other variables only. -/
theorem appendExpandedToString_undefined (e : Expression) (aHt : HashTable Datum String8)
    (aBuffer : String8) :
    e.appendExpandedToString aHt aBuffer =
      aBuffer ++ e.expandedVariables aHt true
        (e.variableList.filter fun v => !isUndefined aHt v) ∧
    ((∀ v ∈ e.variableList, isUndefined aHt v = true) →
      e.appendExpandedToString aHt aBuffer = aBuffer) ∧
    ∀ e' : Expression, e'.operator = e.operator →
      e'.variableList = (e.variableList.filter fun v => !isUndefined aHt v) →
        e'.appendExpandedToString aHt aBuffer = e.appendExpandedToString aHt aBuffer := by
  refine ⟨?_, ?_, ?_⟩
  · rw [appendExpandedToString, expandedVariables_filter]
  · intro hall
    have hfilter : (e.variableList.filter fun v => !isUndefined aHt v) = [] := by
      rw [List.filter_eq_nil_iff]
      intro v hv
      simp [hall v hv]
    rw [appendExpandedToString, ← expandedVariables_filter, hfilter]
    exact List.append_nil aBuffer
  · intro e' hop hlist
    rw [appendExpandedToString, hlist, UriTemplate.expandedVariables_congr hop,
      expandedVariables_filter, appendExpandedToString]

/-- A missing variable and one bound to an empty array: not even the question mark is left. -/
theorem appendExpandedToString_undefined_query :
    (Expression.mk 6 (str "?undef,list") true).appendExpandedToString
      [(str "list", .array [])] (str "/find") = str "/find" :=
  (appendExpandedToString_undefined _ _ _).2.1 (by decide)

end Expression

end EiffelWeb
