import Mathlib.Data.List.Basic
import Mathlib.Tactic.Common
import EiffelWeb.HashTable
import EiffelWeb.Encoder.Url

set_option relaxedAutoImplicit false
set_option autoImplicit false

/-!
# Expressions of URI templates

The classes `URI_TEMPLATE_EXPRESSION` and `URI_TEMPLATE_EXPRESSION_VARIABLE`: the text between two
braces is an operator followed by variables with default values and modifiers, and is expanded with
the data of a table.

`analyze` stores what it finds in attributes and is called before each of them is read; here the
attributes are functions of the text of the expression.

## Main definitions

* `Datum` — the data of a variable.
* `ExpressionVariable`, `ExpressionVariable.modifiedString`, `ExpressionVariable.expandedString`
* `Expression`, `Expression.operator`, `Expression.variableList`
* `Expression.appendExpandedToString` — the expansion.
-/

namespace EiffelWeb

/-- The data of a variable, as far as the expansion tells them apart. Elements of arrays and tables
and other objects are given by their `out`, `none` is `Void`. -/
inductive Datum where
  /-- A string. -/
  | string (s : String32)
  /-- An array. -/
  | array (items : List (Option String8))
  /-- A table. -/
  | table (entries : List (String8 × Option String8))
  /-- Any other object. -/
  | object (out : String8)

/-- `'%U'`: the operator of an expression without operator. -/
def noOperator : Character8 := 0

/-! ## Variables -/

/-- `URI_TEMPLATE_EXPRESSION_VARIABLE`. -/
structure ExpressionVariable where
  /-- The operator of the expression. -/
  operator : Character8
  /-- The name. -/
  name : String8
  /-- The default value, if any. -/
  defaultValue : Option String8
  /-- `'*'` or `'+'`, or the null character. -/
  explode : Character8
  /-- The modifier, starting with `':'` or `'^'`. -/
  modifier : Option String8

namespace ExpressionVariable

/-- `create {URI_TEMPLATE_EXPRESSION_VARIABLE}.make (exp, n, d, em)`. -/
def make (operator : Character8) (n : String8) (d em : Option String8) : ExpressionVariable :=
  let v : ExpressionVariable := ⟨operator, n, d, 0, none⟩
  match em with
  | none | some [] => v
  | some (c :: r) =>
    if c = ch '*' ∨ c = ch '+' then { v with explode := c }
    else if c = ch ':' ∨ c = ch '^' then { v with modifier := some (c :: r) }
    else v

/-- `reserved`. -/
def reserved (v : ExpressionVariable) : Bool := v.operator = ch '+'

/-- `op_separator`. -/
def opSeparator (v : ExpressionVariable) : Character8 :=
  if v.operator = ch '?' then ch '&'
  else if v.operator = ch ';' ∨ v.operator = ch '/' ∨ v.operator = ch '.' then v.operator
  else ch ','

/-- `has_explode`. -/
def hasExplode (v : ExpressionVariable) : Bool := v.explode = ch '+' || v.explode = ch '*'

/-- `has_explode_plus`. -/
def hasExplodePlus (v : ExpressionVariable) : Bool := v.explode = ch '+'

/-- `has_explode_star`. -/
def hasExplodeStar (v : ExpressionVariable) : Bool := v.explode = ch '*'

/-- `t.to_integer` where `t.is_integer`: an optional sign and decimal digits, with blanks around
them, of a value in the range of `INTEGER_32`. -/
def toInteger? (t : String8) : Option ℤ :=
  let blank := fun c : Character8 => decide (c = ch ' ')
  let t := Text.rightAdjust blank (Text.leftAdjust blank t)
  let (sign, d) : ℤ × String8 :=
    match t with
    | c :: r => if c = ch '-' then (-1, r) else if c = ch '+' then (1, r) else (1, c :: r)
    | [] => (1, [])
  let value := sign * d.foldl (fun n c => 10 * n + charDiff c (ch '0')) 0
  if d ≠ [] ∧ d.all isDigit ∧ -2 ^ 31 ≤ value ∧ value < 2 ^ 31 then some value else none

/-- `modified_string (s)`. -/
def modifiedString (v : ExpressionVariable) (s : String32) : String32 :=
  match v.modifier with
  | some (m :: t) =>
    if t.isEmpty then s
    else
      match toInteger? t with
      | none => s
      | some i =>
        let n : ℤ := s.length
        if m = ch ':' then
          if 0 < i then (if i < n then Text.substring s 1 i else s)
          else if i < 0 then Text.substring s (n - i) n
          else s
        else if m = ch '^' then
          if 0 < i then (if i < n then Text.substring s (i + 1) n else s)
          else if i < 0 then Text.substring s 1 (n + i)
          else s
        else s
  | _ => s

/-- `url_encoded_string (s, a_encoded)`. -/
def urlEncodedString (s : String32) (aEncoded : Bool) : String8 :=
  if aEncoded then (UrlEncoder.encodedString s).result
  else (UrlEncoder.partialEncodedString s
    [ch ':', ch ',', ch '+', ch '.', ch '/', ch ';', ch '?', ch '|', ch '!', ch '@']).result

/-- `name` followed by a character. -/
def nameThen (v : ExpressionVariable) (c : Char) : String8 := v.name ++ [ch c]

/-- What the expansion of an empty array or table appends. -/
def expandedEmpty (v : ExpressionVariable) : String8 :=
  match v.defaultValue with
  | none => []
  | some dft =>
    let plus := if v.hasExplodePlus then v.nameThen '.' else []
    if v.operator = ch '?' ∨ v.operator = ch ';' then
      if !v.hasExplode then v.nameThen '=' ++ dft else plus ++ dft
    else if v.operator = ch '/' then plus ++ dft
    else if v.operator = ch '.' then []
    else if v.hasExplode then plus ++ dft
    else []

/-- What stands before the elements of an array or table that is not empty. -/
def listHead (v : ExpressionVariable) : String8 :=
  if !v.hasExplode ∧ v.operator = ch '?' then v.nameThen '=' else []

/-- `l_delimiter`. -/
def delimiter (v : ExpressionVariable) : Character8 :=
  if v.hasExplode then v.opSeparator else ch ','

/-- The encoded `out` of an element, empty for `Void`. -/
def encodedElement (v : ExpressionVariable) (o : Option String8) : String8 :=
  match o with
  | some out => urlEncodedString (asString32 out) (!v.reserved)
  | none => []

/-- One element of an array. -/
def expandedItem (v : ExpressionVariable) (o : Option String8) : String8 :=
  (if v.hasExplodePlus then
    if v.operator = ch '?' ∨ v.operator = ch ';' then v.nameThen '=' else v.nameThen '.'
  else if v.hasExplodeStar ∧ v.operator = ch '?' then v.nameThen '='
  else []) ++ v.encodedElement o

/-- One entry of a table. -/
def expandedEntry (v : ExpressionVariable) (e : String8 × Option String8) : String8 :=
  (if v.hasExplodePlus then v.nameThen '.' else []) ++
    urlEncodedString (asString32 e.1) (!v.reserved) ++
      (if v.hasExplode then ch '=' else v.delimiter) :: v.encodedElement e.2

/-- An empty result is `Void`. -/
def voidIfEmpty (s : String8) : Option String8 := if s.isEmpty then none else some s

/-- `expanded_string (d)`. -/
def expandedString (v : ExpressionVariable) (d : Option Datum) : Option String8 :=
  match d with
  | some (.string s) =>
    let vEnc := urlEncodedString (v.modifiedString s) (!v.reserved)
    if v.operator = ch '?' then some (v.nameThen '=' ++ vEnc)
    else if v.operator = ch ';' then
      some ((if vEnc.isEmpty then v.name else v.nameThen '=') ++ vEnc)
    else some vEnc
  | some (.array items) =>
    if items.isEmpty then voidIfEmpty v.expandedEmpty
    else voidIfEmpty (v.listHead ++ [v.delimiter].intercalate (items.map v.expandedItem))
  | some (.table entries) =>
    if entries.isEmpty then voidIfEmpty v.expandedEmpty
    else voidIfEmpty (v.listHead ++ [v.delimiter].intercalate (entries.map v.expandedEntry))
  | other =>
    let vEnc : Option String8 :=
      match other with
      | some (.object out) => some (urlEncodedString (asString32 out) (!v.reserved))
      | _ => v.defaultValue.map fun dft => urlEncodedString (asString32 dft) (!v.reserved)
    let text := vEnc.getD []
    if v.operator = ch '?' then
      some ((if vEnc.isSome then v.nameThen '=' else v.name) ++ text)
    else if v.operator = ch ';' then
      some ((if text.isEmpty then v.name else v.nameThen '=') ++ text)
    else some text

end ExpressionVariable

/-! ## Expressions -/

/-- `URI_TEMPLATE_EXPRESSION`. -/
structure Expression where
  /-- The position of the opening brace in the template. -/
  position : ℤ
  /-- The text between the braces. -/
  expression : String8
  /-- Is the expression behind a `'?'`? -/
  isQuery : Bool
  deriving DecidableEq

namespace Expression

/-- `end_position`. -/
def endPosition (e : Expression) : ℤ := e.position + e.expression.length + 2

/-- The characters that `analyze` takes for an operator. -/
def isOperator (c : Character8) : Bool :=
  c = ch '+' || c = ch '.' || c = ch '/' || c = ch ';' || c = ch '?' || c = ch '|' || c = ch '!' ||
    c = ch '@'

/-- `operator` after `analyze`. -/
def operator (e : Expression) : Character8 :=
  match e.expression with
  | c :: _ => if isOperator c then c else noOperator
  | [] => noOperator

/-- `op_prefix` after `analyze`. -/
def opPrefix (e : Expression) : Character8 :=
  let o := e.operator
  if o = ch '.' ∨ o = ch '/' ∨ o = ch ';' ∨ o = ch '?' then o else noOperator

/-- `op_delimiter` after `analyze`. -/
def opDelimiter (e : Expression) : Character8 :=
  let o := e.operator
  if o = ch '?' then ch '&' else if o = ch '.' ∨ o = ch '/' ∨ o = ch ';' then o else ch ','

/-- The characters that start a modifier. -/
def isModifier (c : Character8) : Bool := c = ch '+' || c = ch '*' || c = ch ':' || c = ch '^'

/-- One variable of the list of variables: `name modifier? ('=' default)?`. -/
def parsedVariable (operator : Character8) (s : String8) : ExpressionVariable :=
  let vn := s.takeWhile (· ≠ ch '=')
  let d := if ch '=' ∈ s then some (s.dropWhile (· ≠ ch '=')).tail else none
  let m := vn.dropWhile fun c => !isModifier c
  ExpressionVariable.make operator (vn.takeWhile fun c => !isModifier c) d
    (if m.isEmpty then none else some m)

/-- `variables` after `analyze`. -/
def variableList (e : Expression) : List ExpressionVariable :=
  if e.expression.isEmpty then []
  else
    let s := if e.operator ≠ noOperator then e.expression.tail else e.expression
    (s.splitOn (ch ',')).map (parsedVariable e.operator)

/-- The text a variable contributes and whether it is its default value. -/
def variableText (aHt : HashTable Datum String8) (v : ExpressionVariable) : Option String8 × Bool :=
  match aHt.item v.name with
  | some d =>
    let s := v.expandedString (some d)
    if s.isNone ∧ v.hasExplode then (v.defaultValue, true) else (s, false)
  | none => (v.defaultValue, true)

/-- The loop of `append_custom_variables_to_string`: the text appended for the variables `vars`,
where `first` is `l_is_first`. -/
def expandedVariables (e : Expression) (aHt : HashTable Datum String8) :
    (first : Bool) → (vars : List ExpressionVariable) → String8
  | _, [] => []
  | first, v :: vars =>
    match variableText aHt v with
    | (none, _) => expandedVariables e aHt first vars
    | (some s, useDefault) =>
      (if first then (if e.opPrefix ≠ noOperator then [e.opPrefix] else []) else [e.opDelimiter]) ++
        (if useDefault ∧ e.operator = ch '?' ∧ !v.hasExplodeStar then
          (if v.hasExplodePlus then v.nameThen '.' else v.nameThen '=') else []) ++
        s ++ expandedVariables e aHt false vars

/-- `append_expanded_to_string (a_ht, a_buffer)`. -/
def appendExpandedToString (e : Expression) (aHt : HashTable Datum String8) (aBuffer : String8) :
    String8 :=
  aBuffer ++ e.expandedVariables aHt true e.variableList

end Expression

end EiffelWeb
