import Mathlib.Data.List.Basic
import Mathlib.Tactic.Common
import EiffelWeb.UriTemplate.Scan

set_option relaxedAutoImplicit false
set_option autoImplicit false

/-!
# The reading of a URI along a template

The matcher works with positions in the template and an offset into the URI. On a template of
literals and variables it only ever looks at the text of the URI from its position on. Here the
matcher is described on that text: the reading of a URI says which text is passed over for each
part of the template, what is captured for it, and what is left over behind the last expression.

## Main definitions

* `Taken` — what is passed over and captured for a part.
* `takePart`, `reading` — the reading of a part and of a list of parts.
* `endTest` — the test on the text behind the last expression.
* `stored` — the tables filled with what was captured.

## Main results

* `readPart` — one iteration of the matcher reads one part.
* `matchUri_text` — the matcher returns what the reading captures, if the end test passes.
-/

namespace EiffelWeb

/-- The tables with a change of the one that `isQuery` selects. -/
def MatchResult.update (isQuery : Bool) (f : StringTable → StringTable) (r : MatchResult) :
    MatchResult :=
  if isQuery then { r with queryVariables := f r.queryVariables }
  else { r with pathVariables := f r.pathVariables }

namespace UriTemplate

/-! ## Readings -/

/-- What is captured for a part. -/
inductive Capture where
  /-- Nothing: the URI has ended, in its query. -/
  | skipped
  /-- The value of `{v}`. -/
  | value (v : String8)
  /-- The segments of `{/v}`. -/
  | segments (ss : List String8)

/-- The captured text. -/
def Capture.text : Capture → String8
  | skipped => []
  | value v => v
  | segments ss => joined ss

/-- The table with what is captured for the variable `vn`. -/
def Capture.store (vn : String8) : Capture → StringTable → StringTable
  | skipped, t => t
  | value v, t => t.force v vn
  | segments ss, t => (storeSegments vn 0 ss t).force (joined ss) vn

/-- What the reading takes for a part. -/
structure Taken where
  /-- The text of the URI that is passed over. -/
  raw : String8
  /-- What is captured. -/
  capture : Capture

/-- The captured text. -/
def Taken.text (t : Taken) : String8 := t.capture.text

/-- The end token of an expression with `lit` and `parts` behind it. At the end of the template a
literal of one character is not used. -/
def separator (lit : String8) : List Part → Option String8
  | p :: _ => if p.isPath then none else some lit
  | [] => if 2 ≤ lit.length then some lit else none

/-- The reading of the text `U` for the expression of the part `p`, and the text left over. -/
def takeText (inQuery : Bool) (p : Part) (separator : Option String8) (U : String8) :
    Option (Taken × String8) :=
  if U = [] then (if inQuery then some (⟨[], .skipped⟩, []) else none)
  else if p.isPath then
    let r := pathRead separator U
    some (⟨r.1, .segments r.2.1⟩, r.2.2)
  else
    let s := segment separator U
    some (⟨s, .value s⟩, U.drop s.length)

/-- The reading of the text `U` for `lit` and the part `p` behind it, where `parts` are the parts
after it. Without a literal between two expressions, the second must be `{/v}`. -/
def takePart (first inQuery : Bool) (lit : String8) (p : Part) (parts : List Part) (U : String8) :
    Option (Taken × String8) :=
  if (lit = [] ∧ first = false ∧ p.isPath = false) ∨ ¬ lit <+: U then none
  else takeText inQuery p (separator p.lit parts) (U.drop lit.length)

/-- The reading of the text `U` for `lit` and the parts, and the text left over. -/
def reading (first inQuery : Bool) (lit : String8) : List Part → String8 →
    Option (List Taken × String8)
  | [], U => some ([], U)
  | p :: parts, U => do
    let inQuery := inQuery || decide (ch '?' ∈ lit)
    let (t, U) ← takePart first inQuery lit p parts U
    let (ts, V) ← reading false inQuery p.lit parts U
    some (t :: ts, V)

/-- The literal behind the last expression. -/
def lastLit (lit : String8) : List Part → String8
  | [] => lit
  | p :: parts => lastLit p.lit parts

/-- The text left over is compared with the last literal only if one of the two has more than one
character. -/
def endTest (lit V : String8) : Prop := 2 ≤ lit.length ∨ 2 ≤ V.length → V = lit

instance (lit V : String8) : Decidable (endTest lit V) := inferInstanceAs (Decidable (_ → _))

/-- The tables filled with what was captured. -/
def stored (inQuery : Bool) (lit : String8) : List Part → List Taken → MatchResult → MatchResult
  | p :: parts, t :: ts, r =>
    let inQuery := inQuery || decide (ch '?' ∈ lit)
    stored inQuery p.lit parts ts (r.update inQuery (t.capture.store p.name))
  | _, _, r => r

/-! ## One iteration of the matcher -/

/-- The operator tells `{/v}` from `{v}`. -/
lemma operator_eq_iff {p : Part} (hname : ValidName p.name) (q : ℤ) (isQuery : Bool) :
    ((Expression.mk q p.expression isQuery).operator = ch '/' ∨
      (Expression.mk q p.expression isQuery).operator = ch '?') ↔ p.isPath = true := by
  obtain ⟨c, r, hcons, hslash, hquery, -⟩ := hname.exists_cons
  by_cases hp : p.isPath = true
  · have hop : Expression.isOperator (ch '/') = true := by decide
    simp [Expression.operator, Part.expression, hp, hop]
  · have hzero : noOperator ≠ ch '/' ∧ noOperator ≠ ch '?' := by decide
    simp only [Expression.operator, Part.expression, hp, hcons, Bool.false_eq_true, if_false,
      iff_false, not_or]
    split
    · exact ⟨hslash, hquery⟩
    · exact hzero

/-- The end token is the separator. -/
lemma nextLiteralSeparator_eq (pre lit : String8) {parts : List Part}
    (hnames : ∀ p ∈ parts, ValidName p.name) (inQuery : Bool) {i : ℤ} (hi : i = pre.length + 1) :
    nextLiteralSeparator (pre ++ (lit ++ partsText parts)) i
      (expressionsFrom i inQuery lit parts) = separator lit parts := by
  cases parts with
  | nil =>
    simp only [expressionsFrom, nextLiteralSeparator, separator, partsText, List.flatMap_nil,
      List.append_nil]
    rw [Text.substring_suffix pre lit hi rfl]
    refine if_congr ?_ rfl rfl
    rw [List.length_append]
    omega
  | cons p parts =>
    simp only [expressionsFrom, nextLiteralSeparator, separator,
      operator_eq_iff (hnames p (by simp))]
    rw [Text.substring_eq pre lit _ hi (by omega)]

/-- The comparison of a literal with the text at the position of the matcher. -/
lemma checkLiteral_eq {tpl aUri lit U : String8} {p : Part} (hname : ValidName p.name) {i : ℤ}
    {first : Bool} (isQuery : Bool) {st : MatchState} (hp : st.p = if first then 0 else i)
    (hfirst : first = true → i = 1) (hi : 1 ≤ i)
    (hlit : Text.substring tpl i (i + lit.length - 1) = lit)
    (hrest : Text.RestAt aUri (i + st.offset) U) :
    checkLiteral tpl aUri ⟨i + lit.length, p.expression, isQuery⟩ st =
      { st with
        b := !(decide (lit = [] ∧ first = false ∧ p.isPath = false)) && decide (lit <+: U)
        p := i + lit.length + p.expression.length + 2 } := by
  have hop := operator_eq_iff hname (i + lit.length) isQuery
  have hcmp := hrest.substring_eq_iff lit (j := i + lit.length + st.offset - 1) (by omega)
  by_cases hadj : lit = [] ∧ first = false
  · obtain ⟨rfl, rfl⟩ := hadj
    have heq : st.p = i + ([] : String8).length := by simpa using hp
    simp only [checkLiteral, if_pos heq, Expression.endPosition]
    cases hpath : p.isPath <;> simp [hpath] at hop ⊢ <;> simp [hop]
  · -- the position in the template is that of the literal, which starts at `1` for the first one
    have hstart : (if st.p = 0 then 1 else st.p) = i ∧ st.p < i + lit.length := by
      cases first with
      | true =>
        have hone := hfirst rfl
        simp only [if_true] at hp
        exact ⟨by rw [if_pos hp, hone], by omega⟩
      | false =>
        have hpos : 0 < lit.length := List.length_pos_of_ne_nil fun h => hadj ⟨h, rfl⟩
        simp only [Bool.false_eq_true, if_false] at hp
        exact ⟨by rw [if_neg (by omega), hp], by omega⟩
    have hne : ¬ st.p = i + lit.length := by omega
    have hand : decide (lit = [] ∧ first = false ∧ p.isPath = false) = false :=
      decide_eq_false fun h => hadj ⟨h.1, h.2.1⟩
    simp only [checkLiteral, if_neg hne, if_pos hstart.2, hstart.1, hlit, hcmp, hand,
      Expression.endPosition, Bool.not_false, Bool.true_and]

lemma setTable_vars (st : MatchState) (isQuery : Bool) (f : StringTable → StringTable) :
    (st.setTable isQuery (f (st.table isQuery))).vars = st.vars.update isQuery f := by
  cases isQuery <;> rfl

lemma update_skipped (r : MatchResult) (isQuery : Bool) (vn : String8) :
    r.update isQuery (Capture.skipped.store vn) = r := by
  cases isQuery <;> rfl

/-- What an iteration leaves for the next one: the match has failed, or the state is that behind
the text that was read. -/
def Follows (aUri : String8) (isQuery : Bool) (vn : String8) (p' : ℤ) (vars : MatchResult)
    (st : MatchState) : Option (Taken × String8) → Prop
  | none => st.b = false
  | some (t, V) => st.b = true ∧ st.p = p' ∧ Text.RestAt aUri (p' + st.offset) V ∧
      st.vars = vars.update isQuery (t.capture.store vn)

section ReadVariable

variable {tpl aUri U : String8} {p : Part} {q : ℤ} {isQuery : Bool} {rest : List Expression}
  {sep : Option String8} {st : MatchState}

/-- At the end of the URI, only a query may be cut short. -/
lemma readVariable_nil (hexp : p.expression ≠ [])
    (hp : st.p = q + p.expression.length + 2) (hrest : Text.RestAt aUri (q + st.offset) []) :
    ∃ st', readVariable tpl aUri ⟨q, p.expression, isQuery⟩ rest st = some st' ∧
      Follows aUri isQuery p.name st.p st.vars st' (takeText isQuery p sep []) := by
  obtain ⟨x, xs, hcons⟩ := List.exists_cons_of_ne_nil hexp
  have hout : ¬ q + st.offset ≤ aUri.length := fun h => hrest.le_length_iff.mp h rfl
  refine ⟨{ st with b := isQuery }, by simp only [readVariable, hcons, if_neg hout], ?_⟩
  cases isQuery with
  | false => simp [takeText, Follows]
  | true =>
    have hdrop := hrest.drop (p.expression.length + 2)
    simp only [takeText, if_true, Follows, update_skipped, and_true, true_and]
    convert hdrop using 1
    · push_cast
      omega
    · rw [List.drop_nil]

/-- `{/v}` takes the text of `pathRead`. -/
lemma readVariable_segments (hpath : p.isPath = true) (hb : st.b = true)
    (hp : st.p = q + p.expression.length + 2) (hsep : nextLiteralSeparator tpl st.p rest = sep)
    (hU : U ≠ []) (hrest : Text.RestAt aUri (q + st.offset) U) :
    ∃ st', readVariable tpl aUri ⟨q, p.expression, isQuery⟩ rest st = some st' ∧
      Follows aUri isQuery p.name st.p st.vars st' (takeText isQuery p sep U) := by
  have hin : q + st.offset ≤ aUri.length := hrest.le_length_iff.mpr hU
  have hdrop := hrest.drop (pathRead sep U).1.length
  have hsplit := congrArg (List.drop (pathRead sep U).1.length) (pathRead_append sep U)
  rw [List.drop_left] at hsplit
  obtain ⟨a, rfl, ha⟩ := hrest.split hU
  have hexp : p.expression = ch '/' :: p.name := by rw [Part.expression, if_pos hpath]
  have hfuel : U.length ≤ (a ++ U).length + 1 := by
    rw [List.length_append]
    omega
  obtain ⟨nb, vv, hrun⟩ := pathLoop_run sep p.name q a U
    ⟨st.offset, 0, [], [ch '/'], st.table isQuery⟩ ha (by simp) hfuel
  have hc : ch '/' ≠ ch '?' ∧ ch '/' ≠ ch ';' := by decide
  refine ⟨{ st with offset := st.offset + (pathRead sep U).1.length - (1 + p.name.length + 2)
    }.setTable isQuery (Capture.store p.name (.segments (pathRead sep U).2.1) (st.table isQuery)),
    ?_, ?_⟩
  · simp only [readVariable, hexp, if_pos hin, if_neg hc.1, if_neg hc.2, hsep, if_true, hrun,
      Option.bind_eq_bind, Option.bind_some]
    rfl
  · simp only [takeText, if_neg hU, hpath, if_true, Follows]
    refine ⟨hb, rfl, ?_, setTable_vars st isQuery _⟩
    rw [← hsplit] at hdrop
    convert hdrop using 1
    simp only [MatchState.setTable, hp, hexp, List.length_cons]
    push_cast
    omega

/-- `{v}` takes a segment. -/
lemma readVariable_value (hname : ValidName p.name) (hpath : ¬ p.isPath = true) (hb : st.b = true)
    (hp : st.p = q + p.expression.length + 2) (hsep : nextLiteralSeparator tpl st.p rest = sep)
    (hU : U ≠ []) (hrest : Text.RestAt aUri (q + st.offset) U) :
    ∃ st', readVariable tpl aUri ⟨q, p.expression, isQuery⟩ rest st = some st' ∧
      Follows aUri isQuery p.name st.p st.vars st' (takeText isQuery p sep U) := by
  obtain ⟨c, r, hcons, hslash, hquery, hsemi⟩ := hname.exists_cons
  have hin : q + st.offset ≤ aUri.length := hrest.le_length_iff.mpr hU
  have hdrop := hrest.drop (segment sep U).length
  obtain ⟨a, rfl, ha⟩ := hrest.split hU
  have hexp : p.expression = p.name := by rw [Part.expression, if_neg hpath]
  refine ⟨{ st with offset := st.offset + (segment sep U).length - (p.name.length + 2) }.setTable
    isQuery (Capture.store p.name (.value (segment sep U)) (st.table isQuery)), ?_, ?_⟩
  · simp only [readVariable, hexp, hcons, if_pos hin, if_neg hquery, if_neg hsemi, if_neg hslash,
      hsep, nextPathVariableValue_eq sep a U ha, Option.bind_eq_bind, Option.bind_some]
    rfl
  · simp only [takeText, if_neg hU, hpath, Bool.false_eq_true, if_false, Follows]
    refine ⟨hb, rfl, ?_, setTable_vars st isQuery _⟩
    convert hdrop using 1
    simp only [MatchState.setTable, hp, hexp]
    omega

/-- **Reading a variable**: the matcher takes the text of the expression. -/
lemma readVariable_follows (hname : ValidName p.name) (hb : st.b = true)
    (hp : st.p = q + p.expression.length + 2) (hsep : nextLiteralSeparator tpl st.p rest = sep)
    (hrest : Text.RestAt aUri (q + st.offset) U) :
    ∃ st', readVariable tpl aUri ⟨q, p.expression, isQuery⟩ rest st = some st' ∧
      Follows aUri isQuery p.name st.p st.vars st' (takeText isQuery p sep U) := by
  by_cases hU : U = []
  · subst hU
    exact readVariable_nil (Part.expression_ne_nil hname) hp hrest
  · by_cases hpath : p.isPath = true
    · exact readVariable_segments hpath hb hp hsep hU hrest
    · exact readVariable_value hname hpath hb hp hsep hU hrest

end ReadVariable

/-- **One iteration of the matcher** reads one part.

**Proof sketch.** The comparison of the literal decides whether anything is read; if so, the
expression starts behind the literal, both in the template and in the URI. -/
lemma readPart {pre lit aUri U : String8} {p : Part} {parts : List Part}
    (hnames : ∀ r ∈ p :: parts, ValidName r.name) {i : ℤ} (hi : i = pre.length + 1)
    {first : Bool} (hfirst : first = true → i = 1) {st : MatchState}
    (hp : st.p = if first then 0 else i) (hrest : Text.RestAt aUri (i + st.offset) U)
    {tpl : String8} (htpl : tpl = pre ++ (lit ++ partsText (p :: parts))) (inQuery : Bool)
    {exp : Expression} (hexp : exp = ⟨i + lit.length, p.expression, inQuery⟩)
    {es : List Expression} (hes : es = expressionsFrom exp.endPosition inQuery p.lit parts) :
    ∃ st', (if (checkLiteral tpl aUri exp st).b then
        readVariable tpl aUri exp es (checkLiteral tpl aUri exp st)
      else some (checkLiteral tpl aUri exp st)) = some st' ∧
      Follows aUri inQuery p.name exp.endPosition st.vars st'
        (takePart first inQuery lit p parts U) := by
  subst hexp hes htpl
  have hname := hnames p (by simp)
  have hlit := Text.substring_eq pre lit (partsText (p :: parts)) hi (j := i + lit.length - 1)
    (by omega)
  rw [checkLiteral_eq hname inQuery hp hfirst (by omega) hlit hrest]
  by_cases hfail : (lit = [] ∧ first = false ∧ p.isPath = false) ∨ ¬ lit <+: U
  · have hb : (!decide (lit = [] ∧ first = false ∧ p.isPath = false) && decide (lit <+: U)) =
        false := by
      rcases hfail with h | h
      · simp [h]
      · simp [h]
    simp only [hb, Bool.false_eq_true, if_false, takePart, if_pos hfail]
    exact ⟨_, rfl, rfl⟩
  · obtain ⟨hadj, hpre⟩ := not_or.mp hfail
    have hb : (!decide (lit = [] ∧ first = false ∧ p.isPath = false) && decide (lit <+: U)) =
        true := by
      simp only [hadj, not_not.mp hpre, decide_false, decide_true, Bool.not_false, Bool.and_true]
    have hsep : nextLiteralSeparator (pre ++ (lit ++ partsText (p :: parts)))
        (i + lit.length + p.expression.length + 2)
        (expressionsFrom (i + lit.length + p.expression.length + 2) inQuery p.lit parts) =
          separator p.lit parts := by
      rw [append_partsText_cons]
      exact nextLiteralSeparator_eq _ p.lit (fun r hr => hnames r (by simp [hr])) inQuery
        (by rw [behind_length]; omega)
    have hdrop : Text.RestAt aUri (i + lit.length + st.offset) (U.drop lit.length) := by
      rw [add_right_comm]
      exact hrest.drop lit.length
    simp only [hb, if_true, takePart, if_neg hfail, Expression.endPosition]
    exact readVariable_follows hname rfl rfl hsep hdrop

/-! ## The matcher -/

/-- The result of a match, from the last state. -/
def MatchState.outcome (st : MatchState) : Option MatchResult := if st.b then some st.vars else none

/-- The result of a match, from the reading of the URI. -/
def outcome (inQuery : Bool) (lit : String8) (parts : List Part) (vars : MatchResult) :
    Option (List Taken × String8) → Option MatchResult
  | none => none
  | some (ts, V) =>
    if endTest (lastLit lit parts) V then some (stored inQuery lit parts ts vars) else none

lemma matchLoop_of_failed {tpl aUri : String8} (es : List Expression) {st : MatchState}
    (hb : st.b = false) : matchLoop tpl aUri es st = some st := by
  cases es with
  | nil => rfl
  | cons e es => simp [matchLoop, hb]

/-- One iteration of the loop, from the state that reading the part leaves. -/
lemma matchLoop_cons {tpl aUri : String8} {exp : Expression} {es : List Expression}
    {st st' : MatchState} (hb : st.b = true)
    (hread : (if (checkLiteral tpl aUri exp st).b then
        readVariable tpl aUri exp es (checkLiteral tpl aUri exp st)
      else some (checkLiteral tpl aUri exp st)) = some st') :
    matchLoop tpl aUri (exp :: es) st =
      matchLoop tpl aUri es (if st'.b ∧ es = [] then checkRemaining tpl aUri st' else st') := by
  by_cases hc : (checkLiteral tpl aUri exp st).b = true
  · rw [if_pos hc] at hread
    simp only [matchLoop, hb, hc, if_true, hread, Option.bind_eq_bind, Option.bind_some]
  · rw [if_neg hc, Option.some.injEq] at hread
    rw [hread] at hc
    simp only [matchLoop, hb, if_true, hread, if_neg hc, Option.bind_eq_bind, Option.bind_some]

/-- The test behind the last expression. -/
lemma checkRemaining_outcome {pre lit aUri V : String8} {st : MatchState} (hb : st.b = true)
    (hp : st.p = pre.length + 1) (hrest : Text.RestAt aUri (st.p + st.offset) V) :
    (checkRemaining (pre ++ lit) aUri st).outcome =
      if endTest lit V then some st.vars else none := by
  have htpl : st.p < (pre ++ lit).length ↔ 2 ≤ lit.length := by
    rw [List.length_append]
    omega
  have huri : st.p + st.offset < aUri.length ↔ 2 ≤ V.length := by
    rw [← hrest.length_le Nat.two_pos]
    omega
  have hlit := Text.substring_suffix pre lit hp (j := (pre ++ lit).length) rfl
  simp only [checkRemaining, htpl, huri, hrest.substring_end, hlit]
  by_cases hlong : 2 ≤ lit.length ∨ 2 ≤ V.length
  · simp [endTest, hlong, MatchState.outcome]
  · simp [endTest, hlong, MatchState.outcome, hb]

section MatchLoop

variable {tpl aUri pre lit U : String8} {p : Part} {parts : List Part} {i : ℤ} {first : Bool}
  {st : MatchState}

/-- One iteration of the loop reads one part. -/
lemma matchLoop_step (hnames : ∀ r ∈ p :: parts, ValidName r.name) (hi : i = pre.length + 1)
    (hfirst : first = true → i = 1) {inQuery isQuery : Bool}
    (hq : isQuery = (inQuery || decide (ch '?' ∈ lit))) (hb : st.b = true)
    (hp : st.p = if first then 0 else i) (hrest : Text.RestAt aUri (i + st.offset) U)
    (htpl : tpl = pre ++ (lit ++ partsText (p :: parts))) {j : ℤ}
    (hj : j = i + lit.length + p.expression.length + 2) :
    ∃ st', matchLoop tpl aUri (expressionsFrom i inQuery lit (p :: parts)) st =
        matchLoop tpl aUri (expressionsFrom j isQuery p.lit parts)
          (if st'.b ∧ parts = [] then checkRemaining tpl aUri st' else st') ∧
      Follows aUri isQuery p.name j st.vars st' (takePart first isQuery lit p parts U) := by
  subst hq hj
  obtain ⟨st', hread, hfollows⟩ :=
    readPart hnames hi hfirst hp hrest htpl (inQuery || decide (ch '?' ∈ lit)) rfl rfl
  have hnil : ∀ {j : ℤ} {q : Bool}, expressionsFrom j q p.lit parts = [] ↔ parts = [] := by
    cases parts <;> simp [expressionsFrom]
  have hstep := matchLoop_cons hb hread
  simp only [hnil] at hstep
  exact ⟨st', hstep, hfollows⟩

lemma outcome_reading_none {inQuery isQuery : Bool} {vars : MatchResult}
    (hq : isQuery = (inQuery || decide (ch '?' ∈ lit)))
    (htake : takePart first isQuery lit p parts U = none) :
    outcome inQuery lit (p :: parts) vars (reading first inQuery lit (p :: parts) U) = none := by
  subst hq
  simp only [reading, htake, Option.bind_eq_bind, Option.bind_none, outcome]

lemma outcome_reading_some {inQuery isQuery : Bool} {vars : MatchResult} {t : Taken} {V : String8}
    (hq : isQuery = (inQuery || decide (ch '?' ∈ lit)))
    (htake : takePart first isQuery lit p parts U = some (t, V)) :
    outcome inQuery lit (p :: parts) vars (reading first inQuery lit (p :: parts) U) =
      outcome isQuery p.lit parts (vars.update isQuery (t.capture.store p.name))
        (reading false isQuery p.lit parts V) := by
  subst hq
  simp only [reading, htake, Option.bind_eq_bind, Option.bind_some]
  cases reading false (inQuery || decide (ch '?' ∈ lit)) p.lit parts V <;> rfl

/-- **The loop of the matcher** follows the reading.

**Proof sketch.** Induction on the parts, with `matchLoop_step` for each iteration. A failed
iteration ends the loop; the last one is followed by the test on the text left over. -/
lemma matchLoop_parts (hnames : ∀ r ∈ p :: parts, ValidName r.name) (hi : i = pre.length + 1)
    (hfirst : first = true → i = 1) (inQuery : Bool) (hb : st.b = true)
    (hp : st.p = if first then 0 else i) (hrest : Text.RestAt aUri (i + st.offset) U)
    (htpl : tpl = pre ++ (lit ++ partsText (p :: parts))) :
    (matchLoop tpl aUri (expressionsFrom i inQuery lit (p :: parts)) st).map MatchState.outcome =
      some (outcome inQuery lit (p :: parts) st.vars
        (reading first inQuery lit (p :: parts) U)) := by
  induction parts generalizing p pre lit U i first inQuery st with
  | nil =>
    obtain ⟨st', hstep, hfollows⟩ := matchLoop_step hnames hi hfirst rfl hb hp hrest htpl rfl
    rw [hstep]
    rcases htake : takePart first (inQuery || decide (ch '?' ∈ lit)) lit p [] U with _ | ⟨t, V⟩
    · rw [htake] at hfollows
      have hb' : st'.b = false := hfollows
      rw [outcome_reading_none rfl htake]
      simp [expressionsFrom, matchLoop, hb', MatchState.outcome]
    · rw [htake] at hfollows
      obtain ⟨hb', hp', hrest', hvars⟩ := hfollows
      have hcut : tpl = behind pre lit p ++ p.lit := by
        rw [htpl, append_partsText_cons]
        simp [partsText]
      have hend : (checkRemaining tpl aUri st').outcome =
          if endTest p.lit V then some st'.vars else none := by
        rw [hcut]
        exact checkRemaining_outcome hb' (by rw [hp', behind_length]; omega)
          (by rw [hp']; exact hrest')
      rw [outcome_reading_some rfl htake, ← hvars, if_pos ⟨hb', rfl⟩]
      exact congrArg some hend
  | cons p' parts ih =>
    obtain ⟨st', hstep, hfollows⟩ := matchLoop_step hnames hi hfirst rfl hb hp hrest htpl rfl
    rw [hstep, if_neg (by simp)]
    rcases htake : takePart first (inQuery || decide (ch '?' ∈ lit)) lit p (p' :: parts) U with
      _ | ⟨t, V⟩
    · rw [htake] at hfollows
      have hb' : st'.b = false := hfollows
      rw [outcome_reading_none rfl htake, matchLoop_of_failed _ hb']
      simp [hb', MatchState.outcome]
    · rw [htake] at hfollows
      obtain ⟨hb', hp', hrest', hvars⟩ := hfollows
      have hcut := htpl.trans (append_partsText_cons pre lit p (p' :: parts))
      rw [outcome_reading_some rfl htake, ← hvars]
      exact ih (fun r hr => hnames r (List.mem_cons_of_mem p hr)) (by rw [behind_length]; omega)
        (by simp) _ hb' (by simpa using hp') hrest' hcut

end MatchLoop

/-- **The matcher on a template of literals and variables.** It always ends; its result is what
the reading of the URI captures, if the end test passes. -/
theorem matchUri_text (pat : Pattern) (u : String8) :
    matchUri pat.text u =
      some (if pat.parts = [] then (if u = pat.lit then some ⟨[], []⟩ else none)
        else outcome false pat.lit pat.parts ⟨[], []⟩
          (reading true false pat.lit pat.parts u)) := by
  obtain ⟨lit, parts, hlit, hlits, hnames, hnodup⟩ := pat
  rw [matchUri, (analyze_text _).1]
  cases parts with
  | nil => simp [expressionsFrom, Pattern.text, partsText]
  | cons p parts =>
    have hone : (1 : ℤ) = ([] : String8).length + 1 := rfl
    have hrest : Text.RestAt u (1 + 0) u := ⟨by omega, rfl⟩
    exact matchLoop_parts hnames hone (fun _ => rfl) false rfl rfl hrest rfl

end UriTemplate

end EiffelWeb
