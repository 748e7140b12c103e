import Mathlib.Data.List.Basic
import Mathlib.Tactic.Common
import EiffelWeb.Loop
import EiffelWeb.UriTemplate.Expression

set_option relaxedAutoImplicit false
set_option autoImplicit false

/-!
# URI templates

The class `URI_TEMPLATE`: `analyze` extracts the expressions of a template, `expanded_string` fills
them in, and `match` reads their values back from a URI.

The matcher keeps a position `p` in the template and the difference `l_offset` between positions in
the URI and in the template. Its loops are modelled as loops: `none` stands for one that does not
end.

## Main definitions

* `UriTemplate.analyze`, `UriTemplate.isValid` — the expressions of a template.
* `UriTemplate.expandedString` — the expansion.
* `UriTemplate.nextPathVariableValue` — the text of a variable in a URI.
* `UriTemplate.matchUri` — the matcher.
* `MatchResult`, `MatchResult.variableValue`, `MatchResult.urlDecodedQueryVariable`,
  `MatchResult.urlDecodedPathVariable`
-/

namespace EiffelWeb

/-- `HASH_TABLE [READABLE_STRING_8, READABLE_STRING_8]`. -/
abbrev StringTable := HashTable String8 String8

/-- `URI_TEMPLATE_MATCH_RESULT`. -/
structure MatchResult where
  /-- Variables of the path. -/
  pathVariables : StringTable
  /-- Variables behind the `'?'`. -/
  queryVariables : StringTable

/-- `variable (n)`: the query variable, or else the path variable. -/
def MatchResult.variableValue (r : MatchResult) (n : String8) : Option String8 :=
  (r.queryVariables.item n).or (r.pathVariables.item n)

/-- `url_decoded_query_variable (n)`. -/
def MatchResult.urlDecodedQueryVariable (r : MatchResult) (n : String8) : Option String32 :=
  (r.queryVariables.item n).map fun v => (UrlEncoder.decodedString v).result

/-- `url_decoded_path_variable (n)`. -/
def MatchResult.urlDecodedPathVariable (r : MatchResult) (n : String8) : Option String32 :=
  (r.pathVariables.item n).map fun v => (UrlEncoder.decodedString v).result

namespace UriTemplate

/-! ## Analysis -/

/-- State of the loop of `analyze`. -/
structure AnalyzeState where
  /-- Between two braces. -/
  inX : Bool
  /-- The text read since the opening brace. -/
  x : String8
  /-- The position of the opening brace. -/
  p : ℤ
  /-- Behind a `'?'`. -/
  inQuery : Bool
  /-- An expression `{?…}` was seen. -/
  hasQueryExpression : Bool
  /-- The expressions so far. -/
  expressions : List Expression
  /-- The attribute `has_syntax_error`. -/
  hasSyntaxError : Bool

/-- One iteration of `analyze`, at position `i` of a template of length `n`, on the character `c`
followed by `rest`. -/
def analyzeStep (n i : ℤ) (c : Character8) (rest : String8) (st : AnalyzeState) : AnalyzeState :=
  if st.inX then
    if c = ch '}' then
      { st with
        expressions := st.expressions ++ [⟨st.p, st.x, st.inQuery⟩]
        x := []
        inX := false
        hasSyntaxError := st.hasSyntaxError || (st.hasQueryExpression && decide (i < n)) }
    else { st with x := st.x ++ [c] }
  else if c = ch '{' then
    let hasQueryExpression := st.hasQueryExpression || rest.head? = some (ch '?')
    { st with
      p := i
      inX := true
      hasQueryExpression := hasQueryExpression
      inQuery := st.inQuery || hasQueryExpression }
  else if c = ch '?' then { st with inQuery := true }
  else st

/-- The loop of `analyze` on the characters from position `i` on. -/
def analyzeLoop (n : ℤ) : (i : ℤ) → String8 → AnalyzeState → AnalyzeState
  | _, [], st => st
  | i, c :: rest, st => analyzeLoop n (i + 1) rest (analyzeStep n i c rest st)

/-- `analyze`. -/
def analyze (tpl : String8) : AnalyzeState :=
  analyzeLoop tpl.length 1 tpl ⟨false, [], 0, false, false, [], false⟩

/-- `is_valid`. -/
def isValid (tpl : String8) : Bool := !(analyze tpl).hasSyntaxError

/-! ## Expansion -/

/-- The loop of `expanded_string`, from position `p` of the template. -/
def expandLoop (tpl : String8) (aHt : HashTable Datum String8) :
    List Expression → (p : ℤ) → (result : String8) → String8
  | [], p, result => result ++ Text.substring tpl p tpl.length
  | e :: es, p, result =>
    let q := e.position
    expandLoop tpl aHt es (q + e.expression.length + 2)
      (e.appendExpandedToString aHt (result ++ Text.substring tpl p (q - 1)))

/-- `expanded_string (a_ht)`. -/
def expandedString (tpl : String8) (aHt : HashTable Datum String8) : String8 :=
  expandLoop tpl aHt (analyze tpl).expressions 1 []

/-! ## Matching -/

/-- The end token starts at position `i` of the URI, where the character is `c`. For an empty
token the first character is the null character. -/
def tokenAt (aUri : String8) (aEndToken : Option String8) (i : ℤ) (c : Character8) : Bool :=
  match aEndToken with
  | none => false
  | some t => c = t.headD 0 && Text.substring aUri i (i + t.length - 1) = t

/-- The loop of `next_path_variable_value`, over `i` and `p`. -/
def valueLoop (aUri : String8) (aEndToken : Option String8) : Loop (ℤ × ℤ) where
  exit st := (aUri.length : ℤ) < st.1
  body st :=
    let n : ℤ := aUri.length
    let c := Text.item aUri st.1
    if c = ch '/' ∨ c = ch '?' ∨ tokenAt aUri aEndToken st.1 c then some (n + 1, st.2)
    else some (st.1 + 1, st.1)

/-- `next_path_variable_value (a_uri, a_index, a_end_token)`. -/
def nextPathVariableValue (aUri : String8) (aIndex : ℤ) (aEndToken : Option String8) :
    Option String8 :=
  ((valueLoop aUri aEndToken).run (aUri.length + 1) (aIndex, 0)).map fun st =>
    Text.substring aUri aIndex st.2

/-- One segment of `import_custom_style_parameters_into`. -/
def importSegment (s : String8) (res : StringTable) : StringTable :=
  if !s.isEmpty then
    let j := Text.indexOf s (ch '=') 1
    if 0 < j then res.force (Text.substring s (j + 1) s.length) (Text.substring s 1 (j - 1))
    else res
  else res

/-- The loop of `import_custom_style_parameters_into`, over `p` and `res`. -/
def importLoop (aContent : String8) (aSeparator : Character8) : Loop (ℤ × StringTable) where
  exit st := st.1 = 0
  body st :=
    let i := Text.indexOf aContent aSeparator st.1
    if i = 0 then some (0, importSegment (Text.substring aContent st.1 aContent.length) st.2)
    else some (i + 1, importSegment (Text.substring aContent st.1 (i - 1)) st.2)

/-- `import_custom_style_parameters_into (a_content, a_separator, res)`. -/
def importCustomStyleParameters (aContent : String8) (aSeparator : Character8) (res : StringTable) :
    Option StringTable :=
  if 0 < aContent.length then
    ((importLoop aContent aSeparator).run (aContent.length + 1) (1, res)).map Prod.snd
  else some res

/-- State of the loop of `match` over the segments of `{/v}`. -/
structure PathState where
  /-- The local `l_offset`. -/
  offset : ℤ
  /-- The local `nb`. -/
  nb : ℕ
  /-- The local `path_vv`. -/
  pathVv : String8
  /-- The local `vv`. -/
  vv : String8
  /-- The table `l_vars`. -/
  vars : StringTable

/-- `vn + "[" + nb.out + "]"`. -/
def segmentKey (vn : String8) (nb : ℕ) : String8 := vn ++ ch '[' :: (natOut nb ++ [ch ']'])

/-- The loop of `match` over the segments of `{/v}`. -/
def pathLoop (aUri : String8) (q : ℤ) (separator : Option String8) (vn : String8) :
    Loop PathState where
  exit st := st.vv.isEmpty || decide ((aUri.length : ℤ) < q + st.offset + 1)
  body st := do
    let vv ← nextPathVariableValue aUri (q + st.offset + 1) separator
    let st := { st with offset := st.offset + vv.length + 1, nb := st.nb + 1, vv := vv }
    if !vv.isEmpty then
      some { st with
        pathVv := st.pathVv ++ ch '/' :: vv
        vars := st.vars.force vv (segmentKey vn st.nb) }
    else some st

/-- State of the loop of `match`. -/
structure MatchState where
  /-- Does the URI match so far? -/
  b : Bool
  /-- The position in the template. -/
  p : ℤ
  /-- The local `l_offset`. -/
  offset : ℤ
  /-- The variables so far. -/
  vars : MatchResult

/-- `l_vars` is the query table or the path table. -/
def MatchState.table (st : MatchState) (isQuery : Bool) : StringTable :=
  if isQuery then st.vars.queryVariables else st.vars.pathVariables

/-- The state after a change of `l_vars`. -/
def MatchState.setTable (st : MatchState) (isQuery : Bool) (t : StringTable) : MatchState :=
  { st with
    vars := if isQuery then { st.vars with queryVariables := t }
      else { st.vars with pathVariables := t } }

/-- The text between the last expression and `exp`. -/
def checkLiteral (tpl aUri : String8) (exp : Expression) (st : MatchState) : MatchState :=
  let q := exp.position
  if st.p = q then
    { st with
      b := exp.operator = ch '/' || exp.operator = ch '?'
      p := exp.endPosition }
  else if st.p < q then
    let p := if st.p = 0 then 1 else st.p
    { st with
      b := Text.substring aUri (p + st.offset) (q + st.offset - 1) = Text.substring tpl p (q - 1)
      p := exp.endPosition }
  else st

/-- `l_next_literal_separator`, from the position `p` behind the expression and the expressions
after it. -/
def nextLiteralSeparator (tpl : String8) (p : ℤ) : List Expression → Option String8
  | exp :: _ =>
    if exp.operator = ch '/' ∨ exp.operator = ch '?' then none
    else some (Text.substring tpl p (exp.position - 1))
  | [] => if p < tpl.length then some (Text.substring tpl p tpl.length) else none

/-- The value of the variable `vn` of `exp`, where `rest` are the expressions after it. -/
def readVariable (tpl aUri : String8) (exp : Expression) (rest : List Expression)
    (st : MatchState) : Option MatchState :=
  let q := exp.position
  let n : ℤ := aUri.length
  let vars := st.table exp.isQuery
  match exp.expression with
  | [] => some st
  | c :: vn =>
    if q + st.offset ≤ n then
      if c = ch '?' then do
        let vars ← importCustomStyleParameters
          (Text.substring aUri (q + st.offset + 1) n) (ch '&') vars
        some ({ st with
          p := tpl.length + 1
          offset := st.offset + (n - (q + st.offset + 1)) }.setTable exp.isQuery vars)
      else if c = ch ';' then do
        let vars ← importCustomStyleParameters
          (Text.substring aUri (q + st.offset) n) (ch ';') vars
        some ({ st with p := tpl.length + 1 }.setTable exp.isQuery vars)
      else
        let separator := nextLiteralSeparator tpl st.p rest
        if c = ch '/' then do
          let r ← (pathLoop aUri q separator vn).run (aUri.length + 1)
            ⟨st.offset, 0, [], [ch '/'], vars⟩
          some ({ st with offset := r.offset - (1 + vn.length + 2) }.setTable exp.isQuery
            (r.vars.force r.pathVv vn))
        else do
          let vv ← nextPathVariableValue aUri (q + st.offset) separator
          some ({ st with
            offset := st.offset + vv.length - ((c :: vn).length + 2) }.setTable exp.isQuery
              (vars.force vv (c :: vn)))
    else some { st with b := exp.isQuery }

/-- The text behind the last expression. -/
def checkRemaining (tpl aUri : String8) (st : MatchState) : MatchState :=
  if st.p < tpl.length ∨ st.p + st.offset < aUri.length then
    { st with
      b := Text.substring aUri (st.p + st.offset) aUri.length =
        Text.substring tpl st.p tpl.length }
  else st

/-- The loop of `match` over the expressions. -/
def matchLoop (tpl aUri : String8) : List Expression → MatchState → Option MatchState
  | [], st => some st
  | exp :: rest, st =>
    if st.b then do
      let st := checkLiteral tpl aUri exp st
      let st ← if st.b then readVariable tpl aUri exp rest st else some st
      let st := if st.b ∧ rest = [] then checkRemaining tpl aUri st else st
      matchLoop tpl aUri rest st
    else some st

/-- `match (a_uri)`: `none` if a loop does not end, `some none` is `Void`. -/
def matchUri (tpl aUri : String8) : Option (Option MatchResult) :=
  match (analyze tpl).expressions with
  | [] => some (if aUri = tpl then some ⟨[], []⟩ else none)
  | es => (matchLoop tpl aUri es ⟨true, 0, 0, ⟨[], []⟩⟩).map fun st =>
      if st.b then some st.vars else none

end UriTemplate

end EiffelWeb
