import Mathlib.Data.List.Basic
import Mathlib.Tactic.Common
import EiffelWeb.UriTemplate.Soundness

set_option relaxedAutoImplicit false
set_option autoImplicit false

/-!
# Matching an expanded template

Templates of the form `lit0{v1}lit1…{vn}litn`, with literals between the variables, and values that
do not run into the literal behind them. Expanding such a template and matching the result gives the
values back, unless the template ends in one character other than `/` and `?`: that character is not
used as an end token, so the last variable takes it, and the end test does not miss it.

## Main definitions

* `VariablePattern` — templates with variables and literals in turn.
* `Assignment` — values for the variables.
* `losesEnd` — last literals that are taken by the last variable.
* `captured` — what the matcher captures from a filled template.

## Main results

* `expandedString_assignment` — the expansion is the template filled with the values.
* `segment_value`, `segment_last` — a value is read back up to the literal behind it.
* `reading_filled` — the reading of a filled template.
* `matchUri_expandedString_iff` — exactly when matching undoes the expansion.
-/

namespace EiffelWeb.UriTemplate

/-- A template `lit0{v1}lit1…{vn}litn` where the literals between variables are not empty. -/
structure VariablePattern extends Pattern where
  /-- All expressions are `{v}`. -/
  parts_var : ∀ p ∈ parts, p.isPath = false
  /-- There is a variable. -/
  parts_ne_nil : parts ≠ []
  /-- Only the last literal may be empty. -/
  lits_ne_nil : ∀ p ∈ parts.dropLast, p.lit ≠ []

/-- Values for the variables of a template. -/
structure Assignment (parts : List Part) where
  /-- The value of a variable. -/
  value : String8 → String8
  /-- Values are not empty. -/
  ne_nil : ∀ p ∈ parts, value p.name ≠ []
  /-- Values are unreserved. -/
  unreserved : ∀ p ∈ parts, ∀ c ∈ value p.name, isUnreserved c = true
  /-- Values do not have the first character of the literal behind them. -/
  head_notMem : ∀ p ∈ parts, ∀ c ∈ p.lit.head?, c ∉ value p.name

/-- The table given to `expanded_string`. -/
def Assignment.table {parts : List Part} (a : Assignment parts) : HashTable Datum String8 :=
  parts.map fun p => (p.name, .string (asString32 (a.value p.name)))

/-- The value assigned to a name, if it is one of the variables. -/
def Assignment.lookup {parts : List Part} (a : Assignment parts) (k : String8) : Option String8 :=
  if k ∈ parts.map Part.name then some (a.value k) else none

/-! ## Expansion -/

/-- A name has no operator, separator, default value or modifier. -/
lemma isVarChar_noSyntax : ∀ c : Character8, isVarChar c = true →
    c ≠ ch ',' ∧ c ≠ ch '=' ∧ Expression.isModifier c = false ∧
      (c ≠ ch '.' → Expression.isOperator c = false) :=
  forall_character8 (by decide +kernel)

/-- The variable of `{v}`. -/
lemma parsedVariable_of_validName {v : String8} (h : ValidName v) (operator : Character8) :
    Expression.parsedVariable operator v = ⟨operator, v, none, 0, none⟩ := by
  have hsyn : ∀ c ∈ v, c ≠ ch '=' ∧ Expression.isModifier c = false := fun c hc =>
    have hc' := isVarChar_noSyntax c (List.all_eq_true.mp h.2.2 c hc)
    ⟨hc'.2.1, hc'.2.2.1⟩
  have heq : ch '=' ∉ v := fun hm => (hsyn _ hm).1 rfl
  have hname : v.takeWhile (· ≠ ch '=') = v :=
    List.takeWhile_eq_self_iff.mpr fun c hc => decide_eq_true (hsyn c hc).1
  have hmod : v.takeWhile (fun c => !Expression.isModifier c) = v :=
    List.takeWhile_eq_self_iff.mpr fun c hc => by simp [(hsyn c hc).2]
  have hdrop : v.dropWhile (fun c => !Expression.isModifier c) = [] :=
    List.dropWhile_eq_nil_iff.mpr fun c hc => by simp [(hsyn c hc).2]
  simp only [Expression.parsedVariable, hname, hmod, hdrop, heq, if_false]
  rfl

lemma operator_of_validName {v : String8} (h : ValidName v) (q : ℤ) (isQuery : Bool) :
    (Expression.mk q v isQuery).operator = noOperator := by
  obtain ⟨c, r, rfl⟩ := List.exists_cons_of_ne_nil h.1
  have hc := (isVarChar_noSyntax c (List.all_eq_true.mp h.2.2 c (by simp))).2.2.2
    (by simpa using h.2.1)
  simp [Expression.operator, hc]

lemma variableList_of_validName {v : String8} (h : ValidName v) (q : ℤ) (isQuery : Bool) :
    (Expression.mk q v isQuery).variableList = [⟨noOperator, v, none, 0, none⟩] := by
  have hcomma : ch ',' ∉ v := fun hm =>
    (isVarChar_noSyntax _ (List.all_eq_true.mp h.2.2 _ hm)).1 rfl
  have hne : v.isEmpty = false := by simpa using h.1
  simp only [Expression.variableList, operator_of_validName h, hne, ne_eq, not_true_eq_false,
    Bool.false_eq_true, if_false, List.splitOn_eq_singleton hcomma, List.map_cons, List.map_nil,
    parsedVariable_of_validName h]

/-- **The expansion of `{v}`** with an unreserved string is that string. -/
lemma appendExpandedToString_var {v s : String8} (h : ValidName v)
    (hs : ∀ c ∈ s, isUnreserved c = true) {aHt : HashTable Datum String8}
    (hitem : HashTable.item aHt v = some (.string (asString32 s))) (q : ℤ) (isQuery : Bool) :
    (Expression.mk q v isQuery).appendExpandedToString aHt [] = s := by
  have hno : noOperator ≠ ch '?' ∧ noOperator ≠ ch ';' ∧ noOperator ≠ ch '+' ∧
      noOperator ≠ ch '.' ∧ noOperator ≠ ch '/' := by decide
  have htext : Expression.variableText aHt ⟨noOperator, v, none, 0, none⟩ = (some s, false) := by
    simp [Expression.variableText, hitem, ExpressionVariable.expandedString,
      ExpressionVariable.modifiedString, ExpressionVariable.urlEncodedString,
      ExpressionVariable.reserved, hno, UrlEncoder.encodedString_of_unreserved hs]
  simp [Expression.appendExpandedToString, variableList_of_validName h,
    Expression.expandedVariables, htext, Expression.opPrefix, operator_of_validName h, hno]

/-- The table holds the values. -/
lemma item_table {parts : List Part} (a : Assignment parts) {p : Part} (hp : p ∈ parts) :
    HashTable.item a.table p.name = some (.string (asString32 (a.value p.name))) := by
  have h : ∀ ps : List Part, p ∈ ps →
      HashTable.item (ps.map fun p => (p.name, Datum.string (asString32 (a.value p.name)))) p.name =
        some (.string (asString32 (a.value p.name))) := by
    intro ps hps
    induction ps with
    | nil => simp at hps
    | cons r ps ih =>
      simp only [List.map_cons, HashTable.item]
      split
      · next heq => rw [heq]
      · next hne =>
        rcases List.mem_cons.mp hps with rfl | hps
        · exact absurd rfl hne
        · exact ih hps
  exact h parts hp

/-- **The expansion** is the template filled with the values. -/
lemma expandedString_assignment (pat : VariablePattern) (a : Assignment pat.parts) :
    expandedString pat.text a.table = pat.fill a.value := by
  rw [expandedString_text, Pattern.fill, expandedParts]
  refine congrArg (pat.lit ++ ·) (List.flatMap_congr fun p hp => ?_)
  have hexp : p.expression = p.name := by
    rw [Part.expression, pat.parts_var p hp]
    rfl
  rw [hexp, appendExpandedToString_var (pat.names_valid p hp) (a.unreserved p hp)
    (item_table a hp)]

/-! ## Reading the values back -/

/-- A last literal of one character that does not end a value. -/
def losesEnd : String8 → Bool
  | [x] => x ≠ ch '/' && x ≠ ch '?'
  | _ => false

/-- What is captured for each part of a filled template. -/
def captured (value : String8 → String8) : List Part → List String8
  | [] => []
  | [p] => [if losesEnd p.lit then value p.name ++ p.lit else value p.name]
  | p :: q :: parts => value p.name :: captured value (q :: parts)

lemma isUnreserved_plain : ∀ c : Character8, isUnreserved c = true → c ≠ ch '/' ∧ c ≠ ch '?' :=
  forall_character8 (by decide +kernel)

/-- Characters that do not stop a segment are taken. -/
lemma segment_append {sep : Option String8} {w : String8}
    (h : ∀ c ∈ w, ∀ r, stops sep c r = false) (R : String8) :
    segment sep (w ++ R) = w ++ segment sep R := by
  induction w with
  | nil => rfl
  | cons c w ih =>
    rw [List.cons_append, segment, h c (by simp), ih fun d hd => h d (by simp [hd])]
    simp

lemma stops_eq_false {lit : String8} (hl : lit ≠ []) {c : Character8}
    (hc : isUnreserved c = true) (hhead : ∀ d ∈ lit.head?, c ≠ d) (r : String8) :
    stops (some lit) c r = false := by
  obtain ⟨x, t, rfl⟩ := List.exists_cons_of_ne_nil hl
  obtain ⟨hslash, hquery⟩ := isUnreserved_plain c hc
  have hne : (x == c) = false := by simpa using (hhead x (by simp)).symm
  simp [stops, tokenStarts, hslash, hquery, List.isPrefixOf, hne]

/-- **A value before a literal** is read up to that literal. -/
lemma segment_value {w lit : String8} (hl : lit ≠ []) (hw : ∀ c ∈ w, isUnreserved c = true)
    (hhead : ∀ d ∈ lit.head?, d ∉ w) (R : String8) :
    segment (some lit) (w ++ (lit ++ R)) = w := by
  have hstop : ∀ c ∈ w, ∀ r, stops (some lit) c r = false := fun c hc r =>
    stops_eq_false hl (hw c hc) (fun d hd hcd => hhead d hd (hcd ▸ hc)) r
  have hnil : segment (some lit) (lit ++ R) = [] := by
    obtain ⟨x, t, rfl⟩ := List.exists_cons_of_ne_nil hl
    simp [segment, stops, tokenStarts]
  rw [segment_append hstop, hnil, List.append_nil]

/-- **The value before the last literal** is read up to that literal, unless it is a single
character that does not end a value. -/
lemma segment_last {w lit : String8} (hw : ∀ c ∈ w, isUnreserved c = true)
    (hhead : ∀ d ∈ lit.head?, d ∉ w) :
    segment (separator lit []) (w ++ lit) = if losesEnd lit then w ++ lit else w := by
  have hstop : ∀ c ∈ w, ∀ r, stops none c r = false := by
    intro c hc r
    obtain ⟨hslash, hquery⟩ := isUnreserved_plain c (hw c hc)
    simp [stops, tokenStarts, hslash, hquery]
  rcases lit with _ | ⟨x, _ | ⟨y, t⟩⟩
  · simpa [separator, losesEnd, segment] using segment_append hstop []
  · have hseg := segment_append hstop [x]
    by_cases hx : losesEnd [x] = true
    · have hx' : x ≠ ch '/' ∧ x ≠ ch '?' := by simpa [losesEnd] using hx
      simp [separator, hx, hseg, segment, stops, tokenStarts, hx']
    · have hx' : x = ch '/' ∨ x = ch '?' := by
        by_contra hor
        exact hx (by simpa [losesEnd] using not_or.mp hor)
      have hend : stops none x [] = true := by
        rcases hx' with rfl | rfl <;> rfl
      simp [separator, hx, hseg, segment, hend]
  · have hval := segment_value (by simp) hw hhead []
    simpa [separator, losesEnd] using hval

/-- Reading a value behind a literal. -/
lemma takePart_filled {first : Bool} (inQuery : Bool) {lit : String8}
    (hlit : first = true ∨ lit ≠ []) {p : Part} (hvar : p.isPath = false) {parts : List Part}
    {U s : String8} (hU : U ≠ [])
    (hseg : segment (separator p.lit parts) U = s) :
    takePart first inQuery lit p parts (lit ++ U) = some (⟨s, .value s⟩, U.drop s.length) := by
  have hguard : ¬ ((lit = [] ∧ first = false ∧ p.isPath = false) ∨ ¬ lit <+: lit ++ U) := by
    rintro (⟨hnil, hfirst, -⟩ | hpre)
    · rcases hlit with h | h
      · simp [hfirst] at h
      · exact h hnil
    · exact hpre (List.prefix_append lit U)
  rw [takePart, if_neg hguard, List.drop_left]
  simp [takeText, hU, hvar, hseg]

/-- The values for the parts behind the first. -/
def Assignment.tail {p : Part} {parts : List Part} (a : Assignment (p :: parts)) :
    Assignment parts where
  value := a.value
  ne_nil r hr := a.ne_nil r (List.mem_cons_of_mem p hr)
  unreserved r hr := a.unreserved r (List.mem_cons_of_mem p hr)
  head_notMem r hr := a.head_notMem r (List.mem_cons_of_mem p hr)

/-- **The reading of a filled template.** -/
lemma reading_filled {parts : List Part} (a : Assignment parts) (hne : parts ≠ [])
    (hvars : ∀ p ∈ parts, p.isPath = false) (hlits : ∀ p ∈ parts.dropLast, p.lit ≠ [])
    {first : Bool} {lit : String8} (hlit : first = true ∨ lit ≠ []) (inQuery : Bool) :
    reading first inQuery lit parts (lit ++ parts.flatMap fun p => a.value p.name ++ p.lit) =
      some ((captured a.value parts).map fun v => ⟨v, .value v⟩,
        if losesEnd (lastLit lit parts) then [] else lastLit lit parts) := by
  induction parts generalizing first lit inQuery with
  | nil => exact absurd rfl hne
  | cons p parts ih =>
    have hvalue := a.ne_nil p (by simp)
    have hun := a.unreserved p (by simp)
    have hhead := a.head_notMem p (by simp)
    have hvar := hvars p (by simp)
    rcases parts with _ | ⟨q, parts⟩
    · have htake := takePart_filled (inQuery || decide (ch '?' ∈ lit)) hlit hvar (by simp [hvalue])
        (segment_last hun hhead)
      simp only [reading, List.flatMap_cons, List.flatMap_nil, List.append_nil, htake,
        Option.bind_eq_bind, Option.bind_some, captured, List.map_cons, List.map_nil, lastLit]
      by_cases hloses : losesEnd p.lit = true
      · simp [hloses]
      · simp [hloses]
    · have hl : p.lit ≠ [] := hlits p (by simp)
      have hseg : segment (separator p.lit (q :: parts)) (a.value p.name ++ (p.lit ++
          (q :: parts).flatMap fun p => a.value p.name ++ p.lit)) = a.value p.name := by
        rw [separator, hvars q (by simp)]
        exact segment_value hl hun hhead _
      have htake := takePart_filled (inQuery || decide (ch '?' ∈ lit)) hlit hvar (by simp [hvalue])
        hseg
      have hbehind : false = true ∨ p.lit ≠ [] := Or.inr hl
      have hrest := ih a.tail (by simp) (fun r hr => hvars r (List.mem_cons_of_mem p hr))
        (fun r hr => hlits r (by simp [hr])) hbehind (inQuery || decide (ch '?' ∈ lit))
      rw [List.drop_left] at htake
      rw [reading, List.flatMap_cons, List.append_assoc, htake]
      exact congrArg (Option.bind · _) hrest

lemma length_of_losesEnd {lit : String8} (h : losesEnd lit = true) : lit.length = 1 := by
  rcases lit with _ | ⟨x, _ | ⟨y, t⟩⟩
  · simp [losesEnd] at h
  · rfl
  · simp [losesEnd] at h

/-- The end test does not miss a lost end. -/
lemma endTest_rest (lit : String8) : endTest lit (if losesEnd lit then [] else lit) := by
  intro hlong
  by_cases hloses : losesEnd lit = true
  · have hone := length_of_losesEnd hloses
    rw [if_pos hloses, List.length_nil] at hlong
    omega
  · rw [if_neg hloses]

/-- What is captured are the values, unless the end is lost. -/
lemma captured_eq_iff (value : String8 → String8) (lit : String8) {parts : List Part}
    (hne : parts ≠ []) :
    captured value parts = parts.map (fun p => value p.name) ↔
      losesEnd (lastLit lit parts) = false := by
  induction parts generalizing lit with
  | nil => exact absurd rfl hne
  | cons p parts ih =>
    rcases parts with _ | ⟨q, parts⟩
    · by_cases hloses : losesEnd p.lit = true
      · have hl : p.lit ≠ [] := by
          rintro heq
          simp [heq, losesEnd] at hloses
        simp [captured, lastLit, hloses, hl]
      · simp [captured, lastLit, hloses]
    · simpa [captured, lastLit] using ih p.lit (by simp)

/-! ## Matching undoes the expansion -/

/-- The result of matching an expanded template. -/
lemma matchUri_expandedString (pat : VariablePattern) (a : Assignment pat.parts) :
    ∃ r, matchUri pat.text (expandedString pat.text a.table) = some (some r) ∧
      pat.parts.map (fun p => r.variableValue p.name) = (captured a.value pat.parts).map some ∧
      ∀ k ∉ pat.parts.map Part.name, r.variableValue k = none := by
  have hread := reading_filled a pat.parts_ne_nil pat.parts_var pat.lits_ne_nil
    (Or.inl rfl : true = true ∨ pat.lit ≠ []) false
  rw [expandedString_assignment]
  refine ⟨_, (matchUri_eq_some_iff pat.toPattern _ _).mpr ⟨_, _, ⟨hread, ?_, ?_⟩, rfl⟩, ?_, ?_⟩
  · exact endTest_rest _
  · exact fun h => absurd h pat.parts_ne_nil
  · have hvalues := stored_variableValue pat.names_valid pat.names_nodup (reading_spec hread).1
      false pat.lit (r := ⟨[], []⟩) fun p _ => rfl
    rw [hvalues, List.map_map]
    rfl
  · intro k hk
    rw [stored_variableValue_of_keeps]
    · rfl
    · intro p hp t ht u
      obtain ⟨v, -, rfl⟩ := List.mem_map.mp ht
      exact HashTable.item_force_of_ne u v fun h => hk (h ▸ List.mem_map_of_mem hp)

/-- **When matching undoes the expansion**: exactly when the template does not end in a single
character other than `/` and `?` behind its last variable. -/
theorem matchUri_expandedString_iff (pat : VariablePattern) (a : Assignment pat.parts) :
    (∃ r, matchUri pat.text (expandedString pat.text a.table) = some (some r) ∧
        ∀ k, r.variableValue k = a.lookup k) ↔
      losesEnd (lastLit pat.lit pat.parts) = false := by
  obtain ⟨r, hr, hvalues, hothers⟩ := matchUri_expandedString pat a
  rw [← captured_eq_iff a.value pat.lit pat.parts_ne_nil]
  have hlookup : ∀ p ∈ pat.parts, a.lookup p.name = some (a.value p.name) := fun p hp =>
    if_pos (List.mem_map_of_mem hp)
  constructor
  · rintro ⟨r', hr', hall⟩
    obtain rfl : r = r' := by simpa [hr] using hr'
    have hsome : pat.parts.map (fun p => r.variableValue p.name) =
        (pat.parts.map fun p => a.value p.name).map some := by
      rw [List.map_map]
      exact List.map_congr_left fun p hp => (hall p.name).trans (hlookup p hp)
    exact List.map_injective_iff.mpr (Option.some_injective _) (hvalues.symm.trans hsome)
  · intro hcaptured
    refine ⟨r, hr, fun k => ?_⟩
    by_cases hk : k ∈ pat.parts.map Part.name
    · obtain ⟨p, hp, rfl⟩ := List.mem_map.mp hk
      rw [hcaptured, List.map_map] at hvalues
      exact (List.map_inj_left.mp hvalues p hp).trans (hlookup p hp).symm
    · rw [hothers k hk, Assignment.lookup, if_neg hk]

/-- The template `{v}` with `lit` behind it. -/
def VariablePattern.single (v lit : String8) (hv : ValidName v) (hlit : ch '{' ∉ lit) :
    VariablePattern where
  toPattern := Pattern.single v lit hv hlit
  parts_var := by simp [Pattern.single]
  parts_ne_nil := List.cons_ne_nil _ _
  lits_ne_nil := by simp [Pattern.single]

/-- One value `w` for `{v}lit`. -/
def Assignment.single (v lit w : String8) (hne : w ≠ [])
    (hun : ∀ c ∈ w, isUnreserved c = true) (hhead : ∀ c ∈ lit.head?, c ∉ w) :
    Assignment [⟨false, v, lit⟩] where
  value _ := w
  ne_nil _ _ := hne
  unreserved _ _ := hun
  head_notMem := by simpa using hhead

lemma notMem_x : ch '{' ∉ str "x" := by decide

lemma head_x_notMem : ∀ c ∈ (str "x").head?, c ∉ str "abc" := by
  intro c hc
  obtain rfl : ch 'x' = c := Option.some.inj hc
  decide

/-- The value `abc` for `{v}x`. -/
def abcBeforeX : Assignment [⟨false, str "v", str "x"⟩] :=
  Assignment.single (str "v") (str "x") (str "abc") (by decide) (List.all_eq_true.mp (by decide))
    head_x_notMem

/-- The template `{v}x` expands to `abcx`, and `abcx` is captured for `v`. -/
theorem not_matchUri_expandedString_x :
    (VariablePattern.single (str "v") (str "x") validName_v notMem_x).text = str "{v}x" ∧
      expandedString (str "{v}x") abcBeforeX.table = str "abcx" ∧
      ¬ ∃ r, matchUri (str "{v}x") (expandedString (str "{v}x") abcBeforeX.table) =
          some (some r) ∧ ∀ k, r.variableValue k = abcBeforeX.lookup k := by
  refine ⟨rfl, rfl, ?_⟩
  rintro ⟨r, hr, hall⟩
  have hmatch : matchUri (str "{v}x") (expandedString (str "{v}x") abcBeforeX.table) =
      some (some ⟨[(str "v", str "abcx")], []⟩) := rfl
  rw [hmatch, Option.some.injEq, Option.some.injEq] at hr
  have hv := hall (str "v")
  rw [← hr] at hv
  exact absurd hv (by decide)

end EiffelWeb.UriTemplate
