import Mathlib.Data.List.Basic
import Mathlib.Tactic.Common
import EiffelWeb.HashTable
import EiffelWeb.Encoder.Utf8Url

set_option relaxedAutoImplicit false
set_option autoImplicit false

/-!
# Parameter values

The values of a request: `WSF_STRING`, `WSF_MULTIPLE_STRING` and `WSF_TABLE`. Names and strings
arrive url-encoded and are decoded when the value is created; all values use an encoder of class
`UTF8_URL_ENCODER`.

The preconditions `same_name` of the two routines `add_value` are not part of the model: assertion
monitoring is off in the library, and bracketed names do not meet them.

## Main definitions

* `WsfString`, `WsfValue`, `WsfTable`
* `WsfValue.addToMultiple`, `WsfValue.makeWithArray` — collecting strings.
* `WsfTable.addValue`, `WsfTable.value`
-/

namespace EiffelWeb

/-- `WSF_STRING`. -/
structure WsfString where
  /-- The decoded name. -/
  name : String32
  /-- The decoded string. -/
  string : String32
  /-- The name as received. -/
  urlEncodedName : String32
  /-- The string as received. -/
  urlEncodedString : String32
  deriving DecidableEq

/-- `WSF_VALUE`: the entries of a `WSF_TABLE` are values again. -/
inductive WsfValue where
  /-- `WSF_STRING`. -/
  | string (s : WsfString)
  /-- `WSF_MULTIPLE_STRING`. -/
  | multipleString (name : String32) (stringValues : List WsfString)
  /-- `WSF_TABLE`. -/
  | table (name : String32) (values : List (String32 × WsfValue))

/-- `HASH_TABLE [WSF_VALUE, READABLE_STRING_32]`. -/
abbrev ValueTable := HashTable WsfValue String32

/-- `WSF_TABLE`, as the object that is being filled. -/
@[ext]
structure WsfTable where
  /-- The decoded name. -/
  name : String32
  /-- The entries. -/
  values : ValueTable

/-- `url_decoded_string (s)`, and `url_encoder.decoded_string (s)` in `WSF_REQUEST`. -/
def urlDecodedString (uc : UnicodeConversion) (s : String8) : String32 :=
  (Utf8UrlEncoder.decodedString uc s).result

/-- ASCII text without `+` and `%`. -/
def PlainText (s : String8) : Prop := ∀ c ∈ s, c.toNat < 128 ∧ c ≠ ch '+' ∧ c ≠ ch '%'

instance (s : String8) : Decidable (PlainText s) := List.decidableBAll _ s

lemma urlDecodedString_of_plain (uc : UnicodeConversion) {s : String8} (h : PlainText s) :
    urlDecodedString uc s = asString32 s :=
  Utf8UrlEncoder.decodedString_of_ascii uc h

/-- `create {WSF_STRING}.make (a_name, a_string)`, also `new_string_value (a_name, a_string)`. -/
def WsfString.make (uc : UnicodeConversion) (aName aString : String8) : WsfString where
  name := urlDecodedString uc aName
  string := urlDecodedString uc aString
  urlEncodedName := asString32 aName
  urlEncodedString := asString32 aString

namespace WsfValue

/-- `name`. -/
def name : WsfValue → String32
  | .string s => s.name
  | .multipleString n _ => n
  | .table n _ => n

/-- `{WSF_MULTIPLE_STRING}.add_value (a_value)`: the strings `a_value` adds to `stringValues`.
A table adds nothing. -/
def addToMultiple (stringValues : List WsfString) : WsfValue → List WsfString
  | .string s => stringValues ++ [s]
  | .multipleString _ l => stringValues ++ l
  | .table _ _ => stringValues

/-- `create {WSF_MULTIPLE_STRING}.make_with_array (<<v, w>>)`. -/
def makeWithArray (v w : WsfValue) : WsfValue :=
  .multipleString v.name (addToMultiple (addToMultiple [] v) w)

end WsfValue

namespace WsfTable

/-- The object as a value. -/
def toValue (t : WsfTable) : WsfValue := .table t.name t.values

/-- `create {WSF_TABLE}.make (a_name)`. -/
def make (uc : UnicodeConversion) (aName : String8) : WsfTable := ⟨urlDecodedString uc aName, []⟩

/-- `value (k)`. -/
def value (t : WsfTable) (k : String32) : Option WsfValue := t.values.item k

/-- `count`. -/
def count (t : WsfTable) : ℕ := t.values.length

/-- `add_value (a_value, k)`. -/
def addValue (t : WsfTable) (aValue : WsfValue) (k : String32) : WsfTable :=
  { t with values := t.values.force aValue k }

@[simp] lemma addValue_name (t : WsfTable) (v : WsfValue) (k : String32) :
    (t.addValue v k).name = t.name := rfl

@[simp] lemma addValue_values (t : WsfTable) (v : WsfValue) (k : String32) :
    (t.addValue v k).values = t.values.force v k := rfl

end WsfTable

/-- A value is attached to the type `WSF_TABLE`. -/
def WsfValue.asTable : WsfValue → Option WsfTable
  | .table n vs => some ⟨n, vs⟩
  | _ => none

@[simp] lemma WsfTable.asTable_toValue (t : WsfTable) : t.toValue.asTable = some t := rfl

lemma WsfValue.asTable_eq_some {v : WsfValue} {t : WsfTable} :
    v.asTable = some t ↔ v = t.toValue := by
  cases v <;> simp [asTable, WsfTable.toValue, WsfTable.ext_iff, eq_comm]

end EiffelWeb
