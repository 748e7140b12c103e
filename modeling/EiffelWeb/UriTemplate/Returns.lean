import Mathlib.Data.List.Basic
import Mathlib.Tactic.Common
import EiffelWeb.Loop
import EiffelWeb.UriTemplate.Template
import EiffelWeb.UriTemplate.Reading

set_option relaxedAutoImplicit false
set_option autoImplicit false

/-!
# The matcher returns

Every loop of `match` ends, for every template and every URI. The expressions of a template stand
one behind the other, and the difference between the positions in the URI and in the template never
gets so small that a variable would be read before the start of the URI.

## Main definitions

* `UriTemplate.Within` — expressions one behind the other, between two positions.

## Main results

* `UriTemplate.within_analyze` — the expressions of a template stand one behind the other.
* `UriTemplate.readVariable_returns` — a variable is read, and the next one is not read before the
  start of the URI.
* `UriTemplate.isSome_matchUri` — the matcher returns.
-/

namespace EiffelWeb

namespace UriTemplate

/-! ## Positions of expressions -/

/-- The expressions stand one behind the other, from `lo` to `hi`. -/
def Within (lo : ℤ) : List Expression → (hi : ℤ) → Prop
  | [], hi => lo ≤ hi
  | e :: es, hi => lo ≤ e.position ∧ Within e.endPosition es hi

lemma within_append {lo hi : ℤ} {es : List Expression} {e : Expression} :
    Within lo (es ++ [e]) hi ↔ Within lo es e.position ∧ e.endPosition ≤ hi := by
  induction es generalizing lo with
  | nil => simp [Within]
  | cons e' es ih =>
    simp only [List.cons_append, Within, ih]
    exact and_assoc.symm

lemma Within.mono {lo hi hi' : ℤ} {es : List Expression} (h : Within lo es hi) (hle : hi ≤ hi') :
    Within lo es hi' := by
  induction es generalizing lo with
  | nil => exact le_trans h hle
  | cons e es ih => exact ⟨h.1, ih h.2⟩

/-- The state of `analyze` at the position `i`: the expressions so far stand before the open one,
and before `i`. -/
def AnalyzeInv (i : ℤ) (st : AnalyzeState) : Prop :=
  if st.inX = true then Within 1 st.expressions st.p ∧ st.p + st.x.length + 1 = i
  else Within 1 st.expressions i ∧ st.x = []

lemma analyzeInv_step {n i : ℤ} (c : Character8) (rest : String8) {st : AnalyzeState}
    (h : AnalyzeInv i st) : AnalyzeInv (i + 1) (analyzeStep n i c rest st) := by
  rw [AnalyzeInv] at h
  rw [analyzeStep]
  by_cases hin : st.inX = true
  · rw [if_pos hin] at h ⊢
    by_cases hc : c = ch '}'
    · rw [if_pos hc]
      simp only [AnalyzeInv, Bool.false_eq_true, if_false, and_true, within_append]
      refine ⟨h.1, ?_⟩
      simp only [Expression.endPosition]
      omega
    · rw [if_neg hc]
      simp only [AnalyzeInv, hin, if_true, List.length_append, List.length_singleton]
      refine ⟨h.1, ?_⟩
      push_cast
      omega
  · rw [if_neg hin] at h ⊢
    have hle : i ≤ i + 1 := by omega
    by_cases hopen : c = ch '{'
    · rw [if_pos hopen]
      simp only [AnalyzeInv, if_true, h.2, List.length_nil]
      exact ⟨h.1, by omega⟩
    · rw [if_neg hopen]
      split <;> simpa only [AnalyzeInv, if_neg hin] using ⟨h.1.mono hle, h.2⟩

lemma analyzeInv_loop {n : ℤ} (r : String8) {i : ℤ} {st : AnalyzeState} (h : AnalyzeInv i st) :
    AnalyzeInv (i + r.length) (analyzeLoop n i r st) := by
  induction r generalizing i st with
  | nil => simpa [analyzeLoop] using h
  | cons c rest ih =>
    have hrest := ih (analyzeInv_step (n := n) c rest h)
    rw [analyzeLoop, List.length_cons]
    convert hrest using 1
    push_cast
    omega

/-- **The expressions of a template stand one behind the other.** -/
lemma within_analyze (tpl : String8) : ∃ hi, Within 1 (analyze tpl).expressions hi := by
  have hinit : AnalyzeInv 1 ⟨false, [], 0, false, false, [], false⟩ := by
    simp [AnalyzeInv, Within]
  have h := analyzeInv_loop (n := tpl.length) tpl hinit
  rw [AnalyzeInv] at h
  split at h
  · exact ⟨_, h.1⟩
  · exact ⟨_, h.1⟩

/-! ## The loops -/

lemma isSome_nextPathVariableValue (aUri : String8) {aIndex : ℤ} (h : 1 ≤ aIndex)
    (aEndToken : Option String8) : ∃ vv, nextPathVariableValue aUri aIndex aEndToken = some vv := by
  have hrun := Loop.run_of_variant (l := valueLoop aUri aEndToken) (fun st => 1 ≤ st.1)
    (fun st => (aUri.length + 1 - st.1).toNat) (n := aUri.length + 1) (s := (aIndex, 0)) ?_ h ?_
  · obtain ⟨st, hst, -⟩ := hrun
    exact ⟨_, by rw [nextPathVariableValue, hst]; rfl⟩
  · rintro ⟨i, p⟩ hi he
    simp only [valueLoop, decide_eq_false_iff_not, not_lt] at he hi ⊢
    split
    · exact ⟨_, rfl, by simp only; omega, by simp only; omega⟩
    · exact ⟨_, rfl, by simp only; omega, by simp only; omega⟩
  · simp only
    omega

lemma indexOf_bounds (s : String8) (c : Character8) {p : ℤ} (hp : 1 ≤ p)
    (h : Text.indexOf s c p ≠ 0) : p ≤ Text.indexOf s c p ∧ Text.indexOf s c p ≤ s.length := by
  rw [Text.indexOf] at h ⊢
  split at h
  · next hmem =>
    rw [if_pos hmem]
    have hlt := List.idxOf_lt_length_of_mem hmem
    rw [List.length_drop] at hlt
    omega
  · exact absurd rfl h

lemma isSome_importCustomStyleParameters (aContent : String8) (aSeparator : Character8)
    (res : StringTable) :
    ∃ res', importCustomStyleParameters aContent aSeparator res = some res' := by
  rw [importCustomStyleParameters]
  split
  · have hrun := Loop.run_of_variant (l := importLoop aContent aSeparator)
      (fun st => st.1 = 0 ∨ (1 ≤ st.1 ∧ st.1 ≤ aContent.length + 1))
      (fun st => if st.1 = 0 then 0 else (aContent.length + 2 - st.1).toNat)
      (n := aContent.length + 1) (s := (1, res)) ?_ (Or.inr ⟨le_rfl, by simp⟩) ?_
    · obtain ⟨st, hst, -⟩ := hrun
      exact ⟨_, by rw [hst]; rfl⟩
    · rintro ⟨p, res⟩ hp he
      simp only [importLoop, decide_eq_false_iff_not] at he hp ⊢
      have hp' := hp.resolve_left he
      by_cases hi : Text.indexOf aContent aSeparator p = 0
      · rw [if_pos hi]
        refine ⟨_, rfl, Or.inl rfl, ?_⟩
        simp only [if_true, if_neg he]
        omega
      · rw [if_neg hi]
        have hb := indexOf_bounds aContent aSeparator hp'.1 hi
        have hne : ¬ Text.indexOf aContent aSeparator p + 1 = 0 := by omega
        refine ⟨_, rfl, Or.inr ⟨by simp only; omega, by simp only; omega⟩, ?_⟩
        simp only [if_neg hne, if_neg he]
        omega
    · simp only [one_ne_zero, if_false]
      omega
  · exact ⟨res, rfl⟩

/-- The loop over the segments of `{/v}` ends, and moves forward in the URI. -/
lemma pathLoop_returns (aUri : String8) (q : ℤ) (separator : Option String8) (vn : String8)
    {st : PathState} (h : 1 ≤ q + st.offset) :
    ∃ r, (pathLoop aUri q separator vn).run (aUri.length + 1) st = some r ∧
      st.offset ≤ r.offset := by
  have hrun := Loop.run_of_variant (l := pathLoop aUri q separator vn)
    (fun st' => st.offset ≤ st'.offset)
    (fun st' => (aUri.length + 1 - (q + st'.offset)).toNat) (n := aUri.length + 1) (s := st) ?_
    le_rfl ?_
  · obtain ⟨r, hr, hle, -⟩ := hrun
    exact ⟨r, hr, hle⟩
  · intro st' hle he
    simp only [pathLoop, Bool.or_eq_false_iff, decide_eq_false_iff_not, not_lt] at he hle ⊢
    have hindex : 1 ≤ q + st'.offset + 1 := by omega
    obtain ⟨vv, hvv⟩ := isSome_nextPathVariableValue aUri hindex separator
    rw [hvv]
    simp only [Option.bind_eq_bind, Option.bind_some]
    split
    · exact ⟨_, rfl, by simp only; omega, by simp only; omega⟩
    · exact ⟨_, rfl, by simp only; omega, by simp only; omega⟩
  · omega

@[simp] lemma offset_setTable (st : MatchState) (isQuery : Bool) (t : StringTable) :
    (st.setTable isQuery t).offset = st.offset := rfl

/-- **A variable is read**, and what stands behind its expression is not before the start of the
URI. -/
lemma readVariable_returns (tpl aUri : String8) (exp : Expression) (rest : List Expression)
    {st : MatchState} (h : 1 ≤ exp.position + st.offset) :
    ∃ st', readVariable tpl aUri exp rest st = some st' ∧ 1 ≤ exp.endPosition + st'.offset := by
  unfold readVariable
  cases hexp : exp.expression with
  | nil =>
    refine ⟨st, rfl, ?_⟩
    simp only [Expression.endPosition, hexp, List.length_nil]
    omega
  | cons c vn =>
    have hend : exp.endPosition = exp.position + (vn.length + 1) + 2 := by
      simp only [Expression.endPosition, hexp, List.length_cons]
      push_cast
      ring
    simp only
    split
    · next hle =>
      split
      · obtain ⟨vars, hvars⟩ := isSome_importCustomStyleParameters
          (Text.substring aUri (exp.position + st.offset + 1) aUri.length) (ch '&')
          (st.table exp.isQuery)
        rw [hvars]
        exact ⟨_, rfl, by simp only [offset_setTable, hend]; omega⟩
      · split
        · obtain ⟨vars, hvars⟩ := isSome_importCustomStyleParameters
            (Text.substring aUri (exp.position + st.offset) aUri.length) (ch ';')
            (st.table exp.isQuery)
          rw [hvars]
          exact ⟨_, rfl, by simp only [offset_setTable, hend]; omega⟩
        · split
          · obtain ⟨r, hr, hoff⟩ := @pathLoop_returns aUri exp.position
              (nextLiteralSeparator tpl st.p rest) vn
              ⟨st.offset, 0, [], [ch '/'], st.table exp.isQuery⟩ h
            rw [hr]
            refine ⟨_, rfl, ?_⟩
            simp only at hoff
            simp only [offset_setTable, hend]
            omega
          · obtain ⟨vv, hvv⟩ := isSome_nextPathVariableValue aUri h
              (nextLiteralSeparator tpl st.p rest)
            rw [hvv]
            refine ⟨_, rfl, ?_⟩
            simp only [offset_setTable, hend, List.length_cons]
            push_cast
            omega
    · refine ⟨_, rfl, ?_⟩
      simp only [hend]
      omega

lemma offset_checkLiteral (tpl aUri : String8) (exp : Expression) (st : MatchState) :
    (checkLiteral tpl aUri exp st).offset = st.offset := by
  rw [checkLiteral]
  simp only
  split
  · rfl
  · split <;> rfl

lemma offset_checkRemaining (tpl aUri : String8) (st : MatchState) :
    (checkRemaining tpl aUri st).offset = st.offset := by
  rw [checkRemaining]
  split <;> rfl

/-- The loop over the expressions returns. -/
lemma isSome_matchLoop (tpl aUri : String8) {es : List Expression} {lo hi : ℤ}
    (hes : Within lo es hi) {st : MatchState} (hst : 1 ≤ lo + st.offset) :
    (matchLoop tpl aUri es st).isSome := by
  induction es generalizing lo st with
  | nil => rfl
  | cons exp rest ih =>
    obtain ⟨hlo, hrest⟩ := hes
    cases hb : st.b with
    | false => simp [matchLoop_of_failed _ hb]
    | true =>
      have hlit : 1 ≤ exp.position + (checkLiteral tpl aUri exp st).offset := by
        rw [offset_checkLiteral]
        omega
      have hread : ∃ st', (if (checkLiteral tpl aUri exp st).b then
          readVariable tpl aUri exp rest (checkLiteral tpl aUri exp st)
          else some (checkLiteral tpl aUri exp st)) = some st' ∧
          1 ≤ exp.endPosition + st'.offset := by
        split
        · exact readVariable_returns tpl aUri exp rest hlit
        · refine ⟨_, rfl, ?_⟩
          simp only [Expression.endPosition]
          omega
      obtain ⟨st', hst', hoff⟩ := hread
      rw [matchLoop_cons hb hst']
      refine ih hrest ?_
      split
      · rw [offset_checkRemaining]
        exact hoff
      · exact hoff

/-- **The matcher returns**, for every template and every URI. -/
theorem isSome_matchUri (tpl aUri : String8) : (matchUri tpl aUri).isSome := by
  obtain ⟨hi, hes⟩ := within_analyze tpl
  unfold matchUri
  split
  · rfl
  · rw [Option.isSome_map]
    exact isSome_matchLoop tpl aUri hes (by simp)

end UriTemplate

end EiffelWeb
