import Mathlib.Data.List.Basic
import Mathlib.Tactic.Common
import EiffelWeb.Wsf.Cookies

set_option relaxedAutoImplicit false
set_option autoImplicit false

/-!
# The meta variables of a request

The routine `make_from_wgi` of `WSF_REQUEST` copies the meta variables of the connector into a
table of its own, and `initialize` adds the time of the request if the table does not hold it.
Both are modelled as far as they write `meta_variables_table`: what else they set (the path, the
content length, the handlers) does not depend on the table, and `analyze` only reads.

The copy is stored under the *value* of each variable.

## Main definitions

* `makeFromWgi` — the creation of a request.
* `Reachable` — the meta variables are found by name, and nothing else is.
* `ValuesAreNames` — the tables of meta variables for which this is so.

## Main results

* `metaVariable_makeFromWgi` — what a name finds.
* `reachable_iff` — when the meta variables are found by name.
-/

namespace EiffelWeb

/-- `{CGI_META_NAMES}.request_time`. -/
def requestTime : String8 := str "REQUEST_TIME"

namespace WsfRequest

section Routine

variable (uc : UnicodeConversion)

/-- `set_meta_string_variable (a_name, a_value)`. The value is converted to a `STRING_8`. -/
def setMetaStringVariable (rq : WsfRequest) (aName : String8) (aValue : String32) : WsfRequest :=
  { rq with
    metaVariablesTable :=
      rq.metaVariablesTable.force (WsfString.make uc aName (asString8 aValue)) aName }

/-- The last part of `initialize`, at the time `unixTimeStamp`. -/
def initializeRequest (unixTimeStamp : ℤ) (rq : WsfRequest) : WsfRequest :=
  if rq.metaVariable requestTime = none then
    rq.setMetaStringVariable uc requestTime (asString32 (integerOut unixTimeStamp))
  else rq

/-- The loop of `make_from_wgi` over the meta variables of the connector. -/
def copyMetaVariables (lVars : HashTable String8 String8) : HashTable WsfString String8 :=
  lVars.foldl (fun t c => t.force (WsfString.make uc c.1 c.2) c.2) []

/-- `make_from_wgi (r)` at the time `unixTimeStamp`, for a request `r` with the meta variables
`lVars`. -/
def makeFromWgi (unixTimeStamp : ℤ) (lVars : HashTable String8 String8) : WsfRequest :=
  initializeRequest uc unixTimeStamp ⟨copyMetaVariables uc lVars, none⟩

/-- `initialize` adds the variable `aName` itself. -/
def SetByInitialize (lVars : HashTable String8 String8) (aName : String8) : Prop :=
  aName = requestTime ∧ (copyMetaVariables uc lVars).item requestTime = none

/-- The meta variables of the connector are found by name, with their decoded values; no other
name is found, unless `initialize` added it. -/
def Reachable (unixTimeStamp : ℤ) (lVars : HashTable String8 String8) : Prop :=
  (∀ k v, (k, v) ∈ lVars → k ≠ [] →
      ∃ s, (makeFromWgi uc unixTimeStamp lVars).metaVariable k = some s ∧
        s.string = urlDecodedString uc v) ∧
    ∀ k, k ≠ [] → k ∉ lVars.keys → ¬ SetByInitialize uc lVars k →
      (makeFromWgi uc unixTimeStamp lVars).metaVariable k = none

/-- Every value is a name, and every name is a value and reads like its own value; the time of the
request need not be a value if it reads like the time stamp. Empty names and values do not
count. -/
structure ValuesAreNames (unixTimeStamp : ℤ) (lVars : HashTable String8 String8) : Prop where
  /-- A value is a name. -/
  name_of_value : ∀ k v, (k, v) ∈ lVars → v ≠ [] → v ∈ lVars.keys
  /-- A name is a value, and reads like its own value. -/
  value_of_name : ∀ k v, (k, v) ∈ lVars → k ≠ [] →
    (k ∈ lVars.map Prod.snd ∧ urlDecodedString uc k = urlDecodedString uc v) ∨
      (k = requestTime ∧ k ∉ lVars.map Prod.snd ∧
        urlDecodedString uc (integerOut unixTimeStamp) = urlDecodedString uc v)

end Routine

/-! ## What a name finds -/

section Lookup

variable {uc : UnicodeConversion} {unixTimeStamp : ℤ} {lVars : HashTable String8 String8}

variable (uc) in
/-- The copy of a variable is found under its value. -/
lemma item_copyMetaVariables_of_mem {x : String8} (h : x ∈ lVars.map Prod.snd) :
    ∃ k, (k, x) ∈ lVars ∧ (copyMetaVariables uc lVars).item x = some (WsfString.make uc k x) := by
  rcases HashTable.item_foldl_force (fun c : String8 × String8 => WsfString.make uc c.1 c.2)
    Prod.snd lVars [] x with ⟨⟨k, v⟩, hmem, rfl, hitem⟩ | ⟨hnot, -⟩
  · exact ⟨k, hmem, hitem⟩
  · obtain ⟨e, he, hx⟩ := List.mem_map.mp h
    exact absurd hx (hnot e he)

lemma item_copyMetaVariables_of_notMem {x : String8} (h : x ∉ lVars.map Prod.snd) :
    (copyMetaVariables uc lVars).item x = none := by
  rcases HashTable.item_foldl_force (fun c : String8 × String8 => WsfString.make uc c.1 c.2)
    Prod.snd lVars [] x with ⟨e, hmem, hx, -⟩ | ⟨-, hitem⟩
  · exact absurd (List.mem_map.mpr ⟨e, hmem, hx⟩) h
  · exact hitem

lemma setByInitialize_iff {x : String8} :
    SetByInitialize uc lVars x ↔ x = requestTime ∧ x ∉ lVars.map Prod.snd := by
  unfold SetByInitialize
  refine and_congr_right fun hx => ?_
  subst hx
  constructor
  · intro hnone hmem
    obtain ⟨k, -, hitem⟩ := item_copyMetaVariables_of_mem uc hmem
    simp [hnone] at hitem
  · exact item_copyMetaVariables_of_notMem

/-- The variable that `initialize` adds. -/
lemma metaVariable_of_setByInitialize {x : String8} (h : SetByInitialize uc lVars x) :
    (makeFromWgi uc unixTimeStamp lVars).metaVariable x =
      some (WsfString.make uc requestTime (integerOut unixTimeStamp)) := by
  obtain ⟨rfl, hnone⟩ := h
  have hvoid : metaVariable ⟨copyMetaVariables uc lVars, none⟩ requestTime = none := hnone
  rw [makeFromWgi, initializeRequest, if_pos hvoid]
  simp [setMetaStringVariable, metaVariable, asString8_asString32]

/-- `initialize` leaves the other variables as they are. -/
lemma metaVariable_of_not_setByInitialize {x : String8} (h : ¬ SetByInitialize uc lVars x) :
    (makeFromWgi uc unixTimeStamp lVars).metaVariable x =
      (copyMetaVariables uc lVars).item x := by
  rw [makeFromWgi, initializeRequest]
  split
  · next hnone =>
    have hx : x ≠ requestTime := fun hx => h ⟨hx, hnone⟩
    exact HashTable.item_force_of_ne _ _ hx
  · rfl

variable (uc unixTimeStamp lVars) in
/-- **What a name finds**: a variable whose value is this name, the time of the request, or
nothing. -/
lemma metaVariable_makeFromWgi (x : String8) :
    (∃ k, (k, x) ∈ lVars ∧
        (makeFromWgi uc unixTimeStamp lVars).metaVariable x = some (WsfString.make uc k x)) ∨
      (x ∉ lVars.map Prod.snd ∧ x = requestTime ∧
        (makeFromWgi uc unixTimeStamp lVars).metaVariable x =
          some (WsfString.make uc requestTime (integerOut unixTimeStamp))) ∨
      (x ∉ lVars.map Prod.snd ∧ x ≠ requestTime ∧
        (makeFromWgi uc unixTimeStamp lVars).metaVariable x = none) := by
  by_cases hmem : x ∈ lVars.map Prod.snd
  · obtain ⟨k, hk, hitem⟩ := item_copyMetaVariables_of_mem uc hmem
    have hset : ¬ SetByInitialize uc lVars x := fun h => (setByInitialize_iff.mp h).2 hmem
    exact Or.inl ⟨k, hk, by rw [metaVariable_of_not_setByInitialize hset, hitem]⟩
  · by_cases hx : x = requestTime
    · have hset : SetByInitialize uc lVars x := setByInitialize_iff.mpr ⟨hx, hmem⟩
      exact Or.inr (Or.inl ⟨hmem, hx, metaVariable_of_setByInitialize hset⟩)
    · have hset : ¬ SetByInitialize uc lVars x := fun h => hx (setByInitialize_iff.mp h).1
      refine Or.inr (Or.inr ⟨hmem, hx, ?_⟩)
      rw [metaVariable_of_not_setByInitialize hset, item_copyMetaVariables_of_notMem hmem]

end Lookup

/-- **When the meta variables are found by name.** Since each is stored under its value, the
values have to be the names.

**Proof sketch.** A name `k` finds a variable whose value is `k`, whose string is the decoded `k`,
or the time stamp, or nothing (`metaVariable_makeFromWgi`). -/
theorem reachable_iff (uc : UnicodeConversion) (unixTimeStamp : ℤ)
    (lVars : HashTable String8 String8) :
    Reachable uc unixTimeStamp lVars ↔ ValuesAreNames uc unixTimeStamp lVars := by
  constructor
  · rintro ⟨hfound, hnone⟩
    refine ⟨fun k v hkv hv => ?_, fun k v hkv hk => ?_⟩
    · by_contra hnot
      have hmem : v ∈ lVars.map Prod.snd := List.mem_map.mpr ⟨(k, v), hkv, rfl⟩
      have hvoid := hnone v hv hnot fun h => (setByInitialize_iff.mp h).2 hmem
      rcases metaVariable_makeFromWgi uc unixTimeStamp lVars v with
        ⟨k', -, hsome⟩ | ⟨hnot', -⟩ | ⟨hnot', -⟩
      · simp [hvoid] at hsome
      · exact hnot' hmem
      · exact hnot' hmem
    · obtain ⟨s, hs, hstring⟩ := hfound k v hkv hk
      rcases metaVariable_makeFromWgi uc unixTimeStamp lVars k with
        ⟨k', hk', hsome⟩ | ⟨hnot, ht, hsome⟩ | ⟨-, -, hvoid⟩
      · refine Or.inl ⟨List.mem_map.mpr ⟨(k', k), hk', rfl⟩, ?_⟩
        rw [hs, Option.some.injEq] at hsome
        rw [← hstring, hsome]
        rfl
      · refine Or.inr ⟨ht, hnot, ?_⟩
        rw [hs, Option.some.injEq] at hsome
        rw [← hstring, hsome]
        rfl
      · simp [hs] at hvoid
  · rintro ⟨hname, hvalue⟩
    refine ⟨fun k v hkv hk => ?_, fun k hk hnot hset => ?_⟩
    · rcases metaVariable_makeFromWgi uc unixTimeStamp lVars k with
        ⟨k', hk', hsome⟩ | ⟨hnot, ht, hsome⟩ | ⟨hnot, ht, -⟩
      · refine ⟨_, hsome, ?_⟩
        have hmem : k ∈ lVars.map Prod.snd := List.mem_map.mpr ⟨(k', k), hk', rfl⟩
        rcases hvalue k v hkv hk with ⟨-, hdec⟩ | ⟨-, hnot, -⟩
        · exact hdec
        · exact absurd hmem hnot
      · refine ⟨_, hsome, ?_⟩
        rcases hvalue k v hkv hk with ⟨hmem, -⟩ | ⟨-, -, hdec⟩
        · exact absurd hmem hnot
        · exact hdec
      · rcases hvalue k v hkv hk with ⟨hmem, -⟩ | ⟨ht', -⟩
        · exact absurd hmem hnot
        · exact absurd ht' ht
    · have hmem : k ∉ lVars.map Prod.snd := by
        intro hmem
        obtain ⟨⟨k', v⟩, hkv, rfl⟩ := List.mem_map.mp hmem
        exact hnot (hname k' v hkv hk)
      rw [metaVariable_of_not_setByInitialize hset, item_copyMetaVariables_of_notMem hmem]

/-- The variable `SERVER_NAME` with the value `localhost` is not found by its name. -/
theorem not_reachable_server_name :
    ¬ ∀ (unixTimeStamp : ℤ) (lVars : HashTable String8 String8),
      Reachable standardConversion unixTimeStamp lVars := by
  intro hall
  obtain ⟨s, hs, -⟩ := (hall 0 [(str "SERVER_NAME", str "localhost")]).1 (str "SERVER_NAME")
    (str "localhost") (List.mem_singleton_self _) (by decide)
  have hnot : str "SERVER_NAME" ∉
      ([(str "SERVER_NAME", str "localhost")] : HashTable String8 String8).map Prod.snd := by
    decide
  have hset : ¬ SetByInitialize standardConversion
      [(str "SERVER_NAME", str "localhost")] (str "SERVER_NAME") :=
    fun h => absurd (setByInitialize_iff.mp h).1 (by decide)
  rw [metaVariable_of_not_setByInitialize hset, item_copyMetaVariables_of_notMem hnot] at hs
  cases hs

end WsfRequest

end EiffelWeb
