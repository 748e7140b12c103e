import Mathlib.Data.List.Basic
import Mathlib.Tactic.Common
import EiffelWeb.Text
import EiffelWeb.Http.HeaderPut

set_option relaxedAutoImplicit false
set_option autoImplicit false

/-!
# The text of a header

The query `string` of `HTTP_HEADER` with the loop that builds it, and the two ensure clauses it is
declared with. The clauses take a substring that ends with the text and starts one character too
early for the text it is compared with.

A header line is copied as it is, so that a line with an end of line inside becomes several lines of
the text.

## Main definitions

* `HttpHeader.appendLineTo`, `HttpHeader.buildString` — the loop.
* `HttpHeader.hasEndingCrLf`, `HttpHeader.hasSingleEndingCrLf` — the ensure clauses.
* `HttpHeader.KeepsEnsure` — the text is right and the clauses hold.
* `lineEnds` — the number of ends of lines.
* `Unbroken` — text without the characters of ends of lines.

## Main results

* `HttpHeader.buildString_eq` — the lines, each with its end.
* `HttpHeader.keepsEnsure_iff` — for which headers the clauses hold.
* `HttpHeader.lineEnds_string_eq_iff` — for which headers the text has as many ends of lines as the
  header has lines.
-/

namespace EiffelWeb

namespace HttpHeader

/-! ## The loop -/

/-- `append_end_of_line_to (h)`. -/
def appendEndOfLineTo (h : String8) : String8 := h ++ [13] ++ [10]

/-- `append_line_to (s, h)`. -/
def appendLineTo (s h : String8) : String8 := appendEndOfLineTo (h ++ s)

/-- `string`, with its loop over the lines. -/
def buildString (headers : HttpHeader) : String8 :=
  if headers.isEmpty then [] else headers.foldl (fun result l => appendLineTo l result) []

lemma foldl_appendLineTo (headers : HttpHeader) (result : String8) :
    headers.foldl (fun result l => appendLineTo l result) result = result ++ headers.string := by
  induction headers generalizing result with
  | nil => exact (List.append_nil result).symm
  | cons l headers ih =>
    rw [List.foldl_cons, ih]
    simp [appendLineTo, appendEndOfLineTo, string, crlf]

/-- **The lines, each with its end.** -/
lemma buildString_eq (headers : HttpHeader) : buildString headers = headers.string := by
  cases headers with
  | nil => rfl
  | cons l headers => exact foldl_appendLineTo (l :: headers) []

/-! ## The ensure clauses -/

/-- The clause `result_has_ending_cr_lf`. -/
def hasEndingCrLf (result : String8) : Bool :=
  !(2 ≤ result.length) ||
    Text.substring result ((result.length : ℤ) - 2) result.length == crlf

/-- The clause `result_has_single_ending_cr_lf`. -/
def hasSingleEndingCrLf (result : String8) : Bool :=
  !(4 ≤ result.length) ||
    Text.substring result ((result.length : ℤ) - 4) result.length != crlf ++ crlf

/-- The substring of a clause has one character more than it is compared with, or none. -/
lemma length_substring_end (s : String8) (k : ℕ) :
    (Text.substring s ((s.length : ℤ) - k) s.length).length = k + 1 ∨
      Text.substring s ((s.length : ℤ) - k) s.length = [] := by
  unfold Text.substring
  split
  · left
    rw [List.length_take, List.length_drop]
    omega
  · exact Or.inr rfl

/-- The first clause fails for every text of two or more characters. -/
lemma hasEndingCrLf_eq (result : String8) : hasEndingCrLf result = decide (result.length < 2) := by
  have hne : Text.substring result ((result.length : ℤ) - 2) result.length ≠ crlf := by
    intro heq
    rcases length_substring_end result 2 with hlen | hnil
    · rw [Nat.cast_ofNat, heq] at hlen
      exact absurd hlen (by decide)
    · rw [Nat.cast_ofNat, heq] at hnil
      exact absurd hnil (by decide)
  unfold hasEndingCrLf
  rw [beq_false_of_ne hne, Bool.or_false, ← decide_not]
  exact decide_eq_decide.mpr Nat.not_le

/-- The second clause always holds. -/
lemma hasSingleEndingCrLf_eq (result : String8) : hasSingleEndingCrLf result = true := by
  have hne : Text.substring result ((result.length : ℤ) - 4) result.length ≠ crlf ++ crlf := by
    intro heq
    rcases length_substring_end result 4 with hlen | hnil
    · rw [Nat.cast_ofNat, heq] at hlen
      exact absurd hlen (by decide)
    · rw [Nat.cast_ofNat, heq] at hnil
      exact absurd hnil (by decide)
  unfold hasSingleEndingCrLf
  rw [bne_iff_ne.mpr hne, Bool.or_true]

/-- The text is that of the lines, each with its end, and both ensure clauses hold. -/
structure KeepsEnsure (headers : HttpHeader) : Prop where
  /-- The text. -/
  text : buildString headers = headers.flatMap (· ++ crlf)
  /-- The first clause. -/
  ending : hasEndingCrLf (buildString headers) = true
  /-- The second clause. -/
  single : hasSingleEndingCrLf (buildString headers) = true

/-- **The ensure clauses of `string`** hold for the header without lines, and for no other one. -/
theorem keepsEnsure_iff (headers : HttpHeader) : KeepsEnsure headers ↔ headers = [] := by
  constructor
  · rintro ⟨-, hending, -⟩
    cases headers with
    | nil => rfl
    | cons l headers =>
      rw [hasEndingCrLf_eq, decide_eq_true_eq, buildString_eq, string, List.flatMap_cons,
        List.length_append, List.length_append] at hending
      have hcrlf : crlf.length = 2 := rfl
      omega
  · rintro rfl
    exact ⟨buildString_eq [], rfl, hasSingleEndingCrLf_eq _⟩

/-- The header with the line `A: b`: the last three characters of its text are not `%R%N`. -/
theorem not_keepsEnsure_line :
    ¬ ∀ headers : HttpHeader, (∀ l ∈ headers, (13 : Character8) ∉ l ∧ (10 : Character8) ∉ l) →
      KeepsEnsure headers := by
  intro hall
  have hline := hall [str "A: b"] (by decide)
  exact absurd hline.ending (by decide)

end HttpHeader

/-! ## Ends of lines -/

/-- Neither of the characters `%R` and `%N` is in the text. -/
def Unbroken (s : String8) : Prop := (13 : Character8) ∉ s ∧ (10 : Character8) ∉ s

instance (s : String8) : Decidable (Unbroken s) := inferInstanceAs (Decidable (_ ∧ _))

/-- The number of ends of lines: a `%N` ends a line, and a `%R` that no `%N` follows. -/
def lineEnds : String8 → ℕ
  | [] => 0
  | c :: s => (if c = 10 ∨ c = 13 ∧ s.head? ≠ some 10 then 1 else 0) + lineEnds s

lemma unbroken_append {s t : String8} : Unbroken (s ++ t) ↔ Unbroken s ∧ Unbroken t := by
  simp only [Unbroken, List.mem_append, not_or]
  tauto

/-- Text before an end of line, and behind it. -/
lemma lineEnds_append_crlf (s t : String8) :
    lineEnds (s ++ (crlf ++ t)) = lineEnds s + (1 + lineEnds t) := by
  induction s with
  | nil => simp [crlf, lineEnds]
  | cons c s ih =>
    have hhead : (s ++ (crlf ++ t)).head? ≠ some 10 ↔ s.head? ≠ some 10 := by
      cases s with
      | nil => simp [crlf]
      | cons d s => rfl
    rw [List.cons_append, lineEnds, lineEnds, ih, Nat.add_assoc]
    simp only [hhead]

lemma lineEnds_eq_zero_iff {s : String8} : lineEnds s = 0 ↔ Unbroken s := by
  induction s with
  | nil => simp [lineEnds, Unbroken]
  | cons c s ih =>
    have hcons : Unbroken (c :: s) ↔ ¬ (c = 10 ∨ c = 13) ∧ Unbroken s := by
      simp only [Unbroken, List.mem_cons, not_or, eq_comm (a := (13 : Character8)),
        eq_comm (a := (10 : Character8))]
      tauto
    rw [lineEnds, Nat.add_eq_zero_iff, ih, hcons]
    refine and_congr_left fun hs => ?_
    have hhead : s.head? ≠ some 10 := fun h => hs.2 (List.mem_of_head? h)
    simp [hhead]

namespace HttpHeader

/-- The ends of lines inside the lines are counted too. -/
lemma lineEnds_string (headers : HttpHeader) :
    lineEnds headers.string = (headers.map lineEnds).sum + headers.length := by
  induction headers with
  | nil => rfl
  | cons l headers ih =>
    have hcons : string (l :: headers) = l ++ (crlf ++ string headers) := by
      simp [string]
    rw [hcons, lineEnds_append_crlf, ih, List.map_cons, List.sum_cons, List.length_cons]
    omega

/-- **Ends of lines of the text**: as many as lines, if and only if no line has one inside. -/
lemma lineEnds_string_eq_iff (headers : HttpHeader) :
    lineEnds headers.string = headers.length ↔ ∀ l ∈ headers, Unbroken l := by
  have hzero : lineEnds headers.string = headers.length ↔ (headers.map lineEnds).sum = 0 := by
    rw [lineEnds_string]
    omega
  rw [hzero, List.sum_eq_zero_iff_forall_eq_nat]
  simp [lineEnds_eq_zero_iff]

/-- A line is unbroken if its key and its value are. -/
lemma unbroken_line_iff (kv : String8 × String8) :
    Unbroken (line kv) ↔ Unbroken kv.1 ∧ Unbroken kv.2 := by
  have hcolon : Unbroken (str ": ") := by decide
  rw [line, unbroken_append, unbroken_append]
  exact ⟨fun h => ⟨h.1.1, h.2⟩, fun h => ⟨⟨h.1, hcolon⟩, h.2⟩⟩

end HttpHeader

end EiffelWeb
