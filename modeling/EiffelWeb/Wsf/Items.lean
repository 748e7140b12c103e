import Mathlib.Data.List.Basic
import Mathlib.Tactic.Common
import EiffelWeb.HashTable
import EiffelWeb.Wsf.Value

set_option relaxedAutoImplicit false
set_option autoImplicit false

/-!
# Values of any container

A request has four containers of values: the meta variables, the parameters of the query, the
parameters of the form, and the cookies. The query `item` of `WSF_REQUEST` looks for a name in one
after the other, and `items_table` puts the values of all four into one table.

The search of `item` ends in a local variable: the query has no assignment to `Result`. The table
keeps, of the values with one name, the last one that is put, so that the order of the containers is
the reverse of that of the search.

## Main definitions

* `Containers` — the four tables.
* `Containers.found` — the value in the first container that has the name.
* `Containers.item`, `Containers.itemsTable`
* `Containers.LookedUp` — `item` and `items_table` yield the value found.
* `Containers.Unknown` — no container has the name.

## Main results

* `Containers.itemsTable_item` — the table holds the last of the values with a name.
* `Containers.itemLocals_eq` — the search finds the value, and yields nothing.
* `Containers.lookedUp_iff`
-/

namespace EiffelWeb

/-- The tables of a `WSF_REQUEST`, as its queries yield them. -/
structure Containers where
  /-- `meta_variables_table`. -/
  metaVariablesTable : HashTable WsfString String8
  /-- `query_parameters_table`. -/
  queryParametersTable : ValueTable
  /-- `form_parameters_table`. -/
  formParametersTable : ValueTable
  /-- `cookies_table`. -/
  cookiesTable : ValueTable

namespace Containers

/-- `meta_variable (a_name)`, as a `WSF_VALUE`. -/
def metaVariable (rq : Containers) (aName : String8) : Option WsfValue :=
  (rq.metaVariablesTable.item aName).map WsfValue.string

/-- `query_parameter (a_name)`. -/
def queryParameter (rq : Containers) (aName : String8) : Option WsfValue :=
  rq.queryParametersTable.item (asString32 aName)

/-- `form_parameter (a_name)`. -/
def formParameter (rq : Containers) (aName : String8) : Option WsfValue :=
  rq.formParametersTable.item (asString32 aName)

/-- `cookie (a_name)`. -/
def cookie (rq : Containers) (aName : String8) : Option WsfValue :=
  rq.cookiesTable.item (asString32 aName)

/-- The local variable `v` and the `Result` of `item (a_name)`, at its end. -/
def itemLocals (rq : Containers) (aName : String8) : Option WsfValue × Option WsfValue := Id.run do
  let result := none
  let mut v := rq.metaVariable aName
  if v.isNone then
    v := rq.queryParameter aName
    if v.isNone then
      v := rq.formParameter aName
      if v.isNone then
        v := rq.cookie aName
  return (v, result)

/-- `item (a_name)`. -/
def item (rq : Containers) (aName : String8) : Option WsfValue := (rq.itemLocals aName).2

/-- The values that `items_table` puts, in the order of its loops. -/
def values (rq : Containers) : List WsfValue :=
  rq.metaVariablesTable.map (WsfValue.string ∘ Prod.snd) ++
    rq.queryParametersTable.map Prod.snd ++
    rq.formParametersTable.map Prod.snd ++
    rq.cookiesTable.map Prod.snd

/-- `Result.force (vars.item, vars.item.name)` for the values of a container. -/
def forceAll (t : HashTable WsfValue String8) (vars : List WsfValue) : HashTable WsfValue String8 :=
  vars.foldl (fun t v => t.force v (asString8 v.name)) t

/-- `items_table`. -/
def itemsTable (rq : Containers) : HashTable WsfValue String8 :=
  let result := forceAll [] (rq.metaVariablesTable.map (WsfValue.string ∘ Prod.snd))
  let result := forceAll result (rq.queryParametersTable.map Prod.snd)
  let result := forceAll result (rq.formParametersTable.map Prod.snd)
  forceAll result (rq.cookiesTable.map Prod.snd)

/-- The value in the first container that has the name: the order that the comment of `item`
names. -/
def found (rq : Containers) (aName : String8) : Option WsfValue :=
  (rq.metaVariable aName).or ((rq.queryParameter aName).or
    ((rq.formParameter aName).or (rq.cookie aName)))

/-- For the name, `item` yields the value found, so that it is `Void` exactly if no container has
the name, and `items_table` holds the same value. -/
structure LookedUp (rq : Containers) (aName : String8) : Prop where
  /-- The value of `item`. -/
  item_eq : rq.item aName = rq.found aName
  /-- The value of `items_table`. -/
  table_eq : rq.itemsTable.item aName = rq.item aName

/-- No container has the name, neither as a key nor as the name of a value. -/
structure Unknown (rq : Containers) (aName : String8) : Prop where
  /-- Not a key of the meta variables. -/
  metaVariable : aName ∉ rq.metaVariablesTable.keys
  /-- Not a key of the parameters of the query. -/
  queryParameter : asString32 aName ∉ rq.queryParametersTable.keys
  /-- Not a key of the parameters of the form. -/
  formParameter : asString32 aName ∉ rq.formParametersTable.keys
  /-- Not a key of the cookies. -/
  cookie : asString32 aName ∉ rq.cookiesTable.keys
  /-- Not the name of a value. -/
  name : ∀ v ∈ rq.values, asString8 v.name ≠ aName

/-- **The search of `item`** finds the value, and its result is `Void`. -/
lemma itemLocals_eq (rq : Containers) (aName : String8) :
    rq.itemLocals aName = (rq.found aName, none) := by
  unfold itemLocals found
  cases rq.metaVariable aName with
  | some v => rfl
  | none =>
    cases rq.queryParameter aName with
    | some v => rfl
    | none => cases rq.formParameter aName <;> rfl

lemma item_eq_none (rq : Containers) (aName : String8) : rq.item aName = none := by
  rw [item, itemLocals_eq]

/-- **The table** holds the last of the values with a name. -/
lemma itemsTable_item (rq : Containers) (aName : String8) :
    rq.itemsTable.item aName = (rq.values.filter fun v => asString8 v.name = aName).getLast? := by
  have hall : rq.itemsTable = forceAll [] rq.values := by
    simp only [itemsTable, forceAll, values, List.foldl_append]
  rw [hall, forceAll, HashTable.item_foldl_force_eq, HashTable.item_nil, Option.or_none,
    Option.map_id']

/-- The value found is that of a key. -/
lemma found_eq_none_iff (rq : Containers) (aName : String8) :
    rq.found aName = none ↔
      aName ∉ rq.metaVariablesTable.keys ∧ asString32 aName ∉ rq.queryParametersTable.keys ∧
        asString32 aName ∉ rq.formParametersTable.keys ∧
        asString32 aName ∉ rq.cookiesTable.keys := by
  simp only [found, metaVariable, queryParameter, formParameter, cookie, Option.or_eq_none_iff,
    Option.map_eq_none_iff, HashTable.item_eq_none_iff]

/-- **The combined lookup** is right for the names that no container has, and for no others: `item`
yields nothing for any name. -/
theorem lookedUp_iff (rq : Containers) (aName : String8) :
    LookedUp rq aName ↔ Unknown rq aName := by
  have htable : rq.itemsTable.item aName = none ↔ ∀ v ∈ rq.values, asString8 v.name ≠ aName := by
    rw [itemsTable_item, List.getLast?_eq_none_iff, List.filter_eq_nil_iff]
    simp
  constructor
  · rintro ⟨hitem, heq⟩
    rw [item_eq_none] at hitem heq
    obtain ⟨hmeta, hquery, hform, hcookie⟩ := (found_eq_none_iff rq aName).mp hitem.symm
    exact ⟨hmeta, hquery, hform, hcookie, htable.mp heq⟩
  · rintro ⟨hmeta, hquery, hform, hcookie, hname⟩
    constructor
    · rw [item_eq_none, (found_eq_none_iff rq aName).mpr ⟨hmeta, hquery, hform, hcookie⟩]
    · rw [item_eq_none, htable.mpr hname]

/-- A request with the query `a=1`: `item` yields nothing for `a`. -/
theorem not_lookedUp_query :
    ¬ ∀ (rq : Containers) (aName : String8), aName ≠ [] → LookedUp rq aName := by
  intro hall
  have hlook := hall
    ⟨[], [(asString32 (str "a"), WsfValue.string
      ⟨asString32 (str "a"), asString32 (str "1"), asString32 (str "a"), asString32 (str "1")⟩)],
      [], []⟩ (str "a") (by decide)
  exact absurd hlook.item_eq (by simp [item_eq_none, found, metaVariable, queryParameter,
    HashTable.item])

end Containers

end EiffelWeb
