import Mathlib.Data.List.Basic
import Mathlib.Tactic.Common
import EiffelWeb.UriTemplate.Expansion

set_option relaxedAutoImplicit false
set_option autoImplicit false

/-!
# Templates of literals and variables

Templates made of literal text and the expressions `{v}` and `{/v}`, as data. The results say what
`analyze` and `expanded_string` make of their text, so that nothing after this module has to look
at the characters of a template.

## Main definitions

* `Part` — an expression and the literal behind it.
* `Pattern` — a literal and a list of parts with distinct names.
* `Pattern.text` — the template.
* `expressionsFrom` — the expressions of a text.

## Main results

* `analyze_text` — the analysis finds the expressions of the parts, and no syntax error.
* `expandedString_text` — the expansion fills in the parts.
-/

namespace EiffelWeb.UriTemplate

/-- The characters of a variable name: those that are no operator, modifier, separator or bracket.
A dot is an operator only at the start. -/
def isVarChar (c : Character8) : Bool :=
  c = ch '.' || !(Expression.isOperator c || Expression.isModifier c || c = ch ',' || c = ch '=' ||
    c = ch '{' || c = ch '}' || c = ch '[')

/-- A variable name: not empty, and not starting with a dot. -/
def ValidName (v : String8) : Prop := v ≠ [] ∧ v.head? ≠ some (ch '.') ∧ v.all isVarChar = true

/-- An expression `{v}` or `{/v}` and the literal text behind it. -/
structure Part where
  /-- Is it `{/v}`? -/
  isPath : Bool
  /-- The variable. -/
  name : String8
  /-- The text up to the next expression. -/
  lit : String8

/-- The text between the braces. -/
def Part.expression (p : Part) : String8 := if p.isPath then ch '/' :: p.name else p.name

/-- The text of a part. -/
def Part.text (p : Part) : String8 := ch '{' :: (p.expression ++ ch '}' :: p.lit)

/-- A template: the text before the first expression, and the parts. -/
structure Pattern where
  /-- The text before the first expression. -/
  lit : String8
  /-- The expressions with the literals behind them. -/
  parts : List Part
  /-- Literals have no opening brace. -/
  lit_plain : ch '{' ∉ lit
  /-- Literals have no opening brace. -/
  lits_plain : ∀ p ∈ parts, ch '{' ∉ p.lit
  /-- Names are names. -/
  names_valid : ∀ p ∈ parts, ValidName p.name
  /-- Names are distinct. -/
  names_nodup : (parts.map Part.name).Nodup

/-- The text of a list of parts. -/
def partsText (parts : List Part) : String8 := parts.flatMap Part.text

/-- The template. -/
def Pattern.text (pat : Pattern) : String8 := pat.lit ++ partsText pat.parts

lemma partsText_cons (p : Part) (parts : List Part) :
    partsText (p :: parts) = ch '{' :: (p.expression ++ ch '}' :: (p.lit ++ partsText parts)) := by
  simp [partsText, Part.text]

/-- The text up to the end of the expression of `p`, which follows `pre` and `lit`. -/
def behind (pre lit : String8) (p : Part) : String8 :=
  pre ++ (lit ++ ch '{' :: (p.expression ++ [ch '}']))

lemma behind_length (pre lit : String8) (p : Part) :
    (behind pre lit p).length = pre.length + lit.length + p.expression.length + 2 := by
  simp only [behind, List.length_append, List.length_cons, List.length_nil]
  omega

/-- The text of the parts, cut behind the first expression. -/
lemma append_partsText_cons (pre lit : String8) (p : Part) (parts : List Part) :
    pre ++ (lit ++ partsText (p :: parts)) = behind pre lit p ++ (p.lit ++ partsText parts) := by
  simp [partsText_cons, behind]

/-! ## Names -/

/-- The characters of names have no meaning in templates and URIs. -/
lemma isVarChar_plain : ∀ c : Character8, isVarChar c = true →
    c ≠ ch '}' ∧ c ≠ ch '/' ∧ c ≠ ch '?' ∧ c ≠ ch ';' ∧ c ≠ ch '[' :=
  forall_character8 (by decide +kernel)

lemma ValidName.notMem {v : String8} (h : ValidName v) {c : Character8}
    (hc : isVarChar c = false) : c ∉ v := fun hv => by
  have := List.all_eq_true.mp h.2.2 c hv
  simp [this] at hc

/-- Letters and digits have no meaning. -/
lemma isVarChar_of_isAlphaNumeric : ∀ c : Character8, isAlphaNumeric c = true →
    isVarChar c = true ∧ c ≠ ch '.' :=
  forall_character8 (by decide +kernel)

/-- A name of letters and digits. -/
lemma ValidName.of_isAlphaNumeric {v : String8} (hne : v ≠ []) (h : v.all isAlphaNumeric = true) :
    ValidName v := by
  have hall := List.all_eq_true.mp h
  refine ⟨hne, fun hhead => ?_, List.all_eq_true.mpr fun c hc =>
    (isVarChar_of_isAlphaNumeric c (hall c hc)).1⟩
  exact (isVarChar_of_isAlphaNumeric _ (hall _ (List.mem_of_mem_head? hhead))).2 rfl

/-- A name starts with a character that has no meaning for the matcher. -/
lemma ValidName.exists_cons {v : String8} (h : ValidName v) :
    ∃ c r, v = c :: r ∧ c ≠ ch '/' ∧ c ≠ ch '?' ∧ c ≠ ch ';' := by
  obtain ⟨c, r, rfl⟩ := List.exists_cons_of_ne_nil h.1
  have hc := isVarChar_plain c (List.all_eq_true.mp h.2.2 c (by simp))
  exact ⟨c, r, rfl, hc.2.1, hc.2.2.1, hc.2.2.2.1⟩

/-- The text of an expression has no closing brace and does not start with `?`. -/
lemma Part.expression_plain {p : Part} (h : ValidName p.name) :
    ch '}' ∉ p.expression ∧ p.expression.head? ≠ some (ch '?') := by
  have hbrace := h.notMem (show isVarChar (ch '}') = false by decide)
  obtain ⟨c, r, hname, -, hq, -⟩ := h.exists_cons
  rw [Part.expression]
  split
  · refine ⟨?_, by simp only [List.head?_cons]; decide⟩
    simp only [List.mem_cons, hbrace, or_false]
    decide
  · exact ⟨hbrace, by simpa [hname] using hq⟩

lemma Part.expression_ne_nil {p : Part} (h : ValidName p.name) : p.expression ≠ [] := by
  rw [Part.expression]
  split
  · simp
  · exact h.1

/-! ## Analysis -/

/-- The expressions of a text that starts at position `i` with the literal `lit` and goes on with
the parts. -/
def expressionsFrom (i : ℤ) (inQuery : Bool) (lit : String8) : List Part → List Expression
  | [] => []
  | p :: parts =>
    let inQuery := inQuery || decide (ch '?' ∈ lit)
    ⟨i + lit.length, p.expression, inQuery⟩ ::
      expressionsFrom (i + lit.length + p.expression.length + 2) inQuery p.lit parts

/-- An expression is added to the list. -/
lemma analyzeLoop_braces {n : ℤ} {x : String8} (hx : ch '}' ∉ x)
    (hq : x.head? ≠ some (ch '?')) (i : ℤ) (r : String8) (st : AnalyzeState)
    (hin : st.inX = false) (hxs : st.x = []) (hqe : st.hasQueryExpression = false) :
    analyzeLoop n i (ch '{' :: (x ++ ch '}' :: r)) st =
      analyzeLoop n (i + x.length + 2) r
        { st with p := i, expressions := st.expressions ++ [⟨i, x, st.inQuery⟩] } := by
  have hhead : (x ++ ch '}' :: r).head? ≠ some (ch '?') := by
    rcases x with _ | ⟨c, x⟩
    · simp only [List.nil_append, List.head?_cons]
      decide
    · simpa using hq
  have hopen : analyzeStep n i (ch '{') (x ++ ch '}' :: r) st =
      { st with p := i, inX := true } := by
    have hout : ¬ st.inX = true := by simp [hin]
    rw [analyzeStep, if_neg hout, if_pos rfl]
    simp only [hqe, hhead, decide_false, Bool.or_false]
  have hlen : i + 1 + (x.length : ℤ) + 1 = i + x.length + 2 := by omega
  rw [analyzeLoop, hopen, analyzeLoop_inX hx _ _ { st with p := i, inX := true } rfl, analyzeLoop,
    hlen]
  simp [analyzeStep, hxs, hin, hqe]

/-- **The analysis of a text** finds the expressions of its parts and no syntax error. -/
lemma analyzeLoop_parts {n : ℤ} {lit : String8} {parts : List Part} (hl : ch '{' ∉ lit)
    (hlits : ∀ p ∈ parts, ch '{' ∉ p.lit) (hnames : ∀ p ∈ parts, ValidName p.name) (i : ℤ)
    (st : AnalyzeState) (hin : st.inX = false) (hxs : st.x = [])
    (hqe : st.hasQueryExpression = false) :
    (analyzeLoop n i (lit ++ partsText parts) st).expressions =
        st.expressions ++ expressionsFrom i st.inQuery lit parts ∧
      (analyzeLoop n i (lit ++ partsText parts) st).hasSyntaxError = st.hasSyntaxError := by
  induction parts generalizing lit i st with
  | nil =>
    rw [analyzeLoop_lit hl i _ st hin]
    simp [partsText, analyzeLoop, expressionsFrom]
  | cons p parts ih =>
    obtain ⟨hx, hq⟩ := Part.expression_plain (hnames p (by simp))
    rw [analyzeLoop_lit hl i _ st hin, partsText_cons, analyzeLoop_braces hx hq _ _
      { st with inQuery := st.inQuery || decide (ch '?' ∈ lit) } hin hxs hqe]
    obtain ⟨hexp, herr⟩ := ih (hlits p (by simp)) (fun r hr => hlits r (by simp [hr]))
      (fun r hr => hnames r (by simp [hr])) (i + lit.length + p.expression.length + 2)
      { st with
        p := i + lit.length
        inQuery := st.inQuery || decide (ch '?' ∈ lit)
        expressions := st.expressions ++
          [⟨i + lit.length, p.expression, st.inQuery || decide (ch '?' ∈ lit)⟩] } hin hxs hqe
    exact ⟨by rw [hexp]; simp [expressionsFrom], herr⟩

/-- **The analysis of a template of literals and variables.** -/
lemma analyze_text (pat : Pattern) :
    (analyze pat.text).expressions = expressionsFrom 1 false pat.lit pat.parts ∧
      isValid pat.text = true := by
  obtain ⟨hexp, herr⟩ := analyzeLoop_parts (n := pat.text.length) pat.lit_plain pat.lits_plain
    pat.names_valid 1 ⟨false, [], 0, false, false, [], false⟩ rfl rfl rfl
  exact ⟨hexp, congrArg (!·) herr⟩

/-! ## Expansion -/

/-- The text of the parts, with the expansion of each expression in its place. -/
def expandedParts (aHt : HashTable Datum String8) (parts : List Part) : String8 :=
  parts.flatMap fun p =>
    (Expression.mk 0 p.expression false).appendExpandedToString aHt [] ++ p.lit

/-- **The expansion of a template of literals and variables.** -/
lemma expandedString_text (pat : Pattern) (aHt : HashTable Datum String8) :
    expandedString pat.text aHt = pat.lit ++ expandedParts aHt pat.parts := by
  have htext : partsText pat.parts = bracedText (pat.parts.map fun p => (p.expression, p.lit)) := by
    rw [partsText, bracedText, List.flatMap_map]
    rfl
  have hparts : ∀ p ∈ pat.parts.map fun p => (p.expression, p.lit),
      ch '}' ∉ p.1 ∧ ch '{' ∉ p.2 := by
    intro p hp
    obtain ⟨q, hq, rfl⟩ := List.mem_map.mp hp
    exact ⟨(Part.expression_plain (pat.names_valid q hq)).1, pat.lits_plain q hq⟩
  rw [Pattern.text, htext, expandedString_bracedText pat.lit_plain hparts, List.flatMap_map]
  rfl

end EiffelWeb.UriTemplate
