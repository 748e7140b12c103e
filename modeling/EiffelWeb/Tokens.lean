import Mathlib.Data.List.Basic
import Mathlib.Tactic.Common
import Mathlib.Tactic.Ring
import EiffelWeb.Loop
import EiffelWeb.Text

set_option relaxedAutoImplicit false
set_option autoImplicit false

/-!
# Tokens of a text

The tokens of a text are its longest parts without a separator. Scanning code finds them with a
search for the next position at which a predicate holds, which starts behind its argument and yields
`0` if there is none.

## Main definitions

* `Text.tokens` — the tokens, for a given notion of separator.
* `Text.nextPosition` — the next position behind a position.

## Main results

* `Text.tokens_blank_append`, `Text.tokens_append_cons`, `Text.tokens_eq_singleton` — the tokens at
  a cut.
* `Text.nextPosition_eq`, `Text.nextPosition_eq_zero` — the search at a cut.
-/

namespace Text

variable {α : Type*} {sep stop : α → Bool}

/-! ## Tokens -/

/-- The longest parts of `s` without a separator, in order; none of them is empty. -/
def tokens (sep : α → Bool) (s : List α) : List (List α) :=
  (s.splitOnP sep).filter fun t => !t.isEmpty

@[simp] lemma tokens_nil : tokens sep ([] : List α) = [] := rfl

/-- A separator in front does not matter. -/
lemma tokens_cons_of_sep {c : α} (hc : sep c = true) (s : List α) :
    tokens sep (c :: s) = tokens sep s := by
  have hsplit := List.splitOnP_append_cons_of_forall_mem
    (show ∀ x ∈ ([] : List α), sep x = false by simp) c hc s
  rw [List.nil_append] at hsplit
  rw [tokens, hsplit, List.filter_cons_of_neg (by simp), tokens]

/-- Separators in front do not matter. -/
lemma tokens_blank_append {b : List α} (hb : ∀ c ∈ b, sep c = true) (s : List α) :
    tokens sep (b ++ s) = tokens sep s := by
  induction b with
  | nil => rfl
  | cons c b ih =>
    obtain ⟨hc, hb⟩ := List.forall_mem_cons.mp hb
    rw [List.cons_append, tokens_cons_of_sep hc, ih hb]

/-- Separators only. -/
lemma tokens_of_blank {b : List α} (hb : ∀ c ∈ b, sep c = true) : tokens sep b = [] := by
  have h := tokens_blank_append hb []
  rwa [List.append_nil, tokens_nil] at h

/-- A token, a separator and a text. -/
lemma tokens_append_cons {a : List α} (ha : ∀ c ∈ a, sep c = false) (hne : a ≠ []) {c : α}
    (hc : sep c = true) (s : List α) : tokens sep (a ++ c :: s) = a :: tokens sep s := by
  rw [tokens, List.splitOnP_append_cons_of_forall_mem ha c hc s,
    List.filter_cons_of_pos (by simpa using hne), tokens]

/-- A single token. -/
lemma tokens_eq_singleton {a : List α} (ha : ∀ c ∈ a, sep c = false) (hne : a ≠ []) :
    tokens sep a = [a] := by
  rw [tokens, List.splitOnP_eq_singleton ha, List.filter_cons_of_pos (by simpa using hne)]
  rfl

/-- A text in which the predicate holds splits where it holds for the first time. -/
lemma all_false_or_split (p : α → Bool) (s : List α) :
    (∀ c ∈ s, p c = false) ∨
      ∃ a x r, s = a ++ x :: r ∧ (∀ c ∈ a, p c = false) ∧ p x = true := by
  induction s with
  | nil => exact Or.inl (by simp)
  | cons y s ih =>
    cases hy : p y with
    | true => exact Or.inr ⟨[], y, s, rfl, by simp, hy⟩
    | false =>
      rcases ih with h | ⟨a, x, r, rfl, ha, hx⟩
      · exact Or.inl (List.forall_mem_cons.mpr ⟨hy, h⟩)
      · exact Or.inr ⟨y :: a, x, r, rfl, List.forall_mem_cons.mpr ⟨hy, ha⟩, hx⟩

/-! ## The next position -/

section Position

variable [Inhabited α]

/-- `from i := p + 1 until i > n or stop (s [i]) loop i := i + 1 end`. -/
def positionLoop (stop : α → Bool) (s : List α) : Loop ℤ where
  exit i := s.length < i || stop (item s i)
  body i := some (i + 1)

/-- The first position behind `p` at which the predicate holds, `0` if there is none. -/
def nextPosition (stop : α → Bool) (s : List α) (p : ℤ) : Option ℤ :=
  ((positionLoop stop s).run (s.length + 1) (p + 1)).map fun i : ℤ =>
    if i ≤ s.length then i else 0

/-- The loop passes the characters at which the predicate does not hold. -/
lemma positionLoop_run {b : List α} (hb : ∀ c ∈ b, stop c = false) (a r : List α) {i : ℤ}
    (hi : i = a.length + 1) {n : ℕ} (hn : b.length ≤ n) :
    (positionLoop stop (a ++ (b ++ r))).run n i =
      (positionLoop stop (a ++ (b ++ r))).run (n - b.length) (i + b.length) := by
  induction b generalizing a i n with
  | nil => simp
  | cons c b ih =>
    obtain ⟨hc, hb⟩ := List.forall_mem_cons.mp hb
    obtain ⟨n, rfl⟩ : ∃ k, n = k + 1 := ⟨n - 1, by rw [List.length_cons] at hn; omega⟩
    have hitem : item (a ++ (c :: b ++ r)) i = c := item_append_cons a c (b ++ r) hi
    have hexit : (positionLoop stop (a ++ (c :: b ++ r))).exit i = false := by
      simp only [positionLoop, hitem, hc, Bool.or_false, decide_eq_false_iff_not, not_lt,
        List.length_append, List.length_cons]
      omega
    have hsplit : a ++ (c :: b ++ r) = (a ++ [c]) ++ (b ++ r) := by simp
    have hrest := ih hb (a ++ [c]) (i := i + 1) (n := n) (by simp [hi]) (by simpa using hn)
    rw [← hsplit] at hrest
    rw [Loop.run_succ hexit rfl, hrest, List.length_cons]
    congr 1
    · omega
    · push_cast
      ring

/-- A search from a cut finds the first character at which the predicate holds. -/
lemma nextPosition_eq (a : List α) {b : List α} (hb : ∀ c ∈ b, stop c = false) {x : α}
    (hx : stop x = true) (r : List α) {p : ℤ} (hp : p = a.length) :
    nextPosition stop (a ++ (b ++ x :: r)) p =
      some ((a.length : ℤ) + b.length + 1) := by
  have hpos : p + 1 + b.length = a.length + b.length + 1 := by omega
  have hitem : item (a ++ (b ++ x :: r)) (a.length + b.length + 1) = x := by
    rw [← List.append_assoc]
    exact item_append_cons (a ++ b) x r (by simp)
  have hlen : (a ++ (b ++ x :: r)).length = a.length + b.length + 1 + r.length := by
    simp only [List.length_append, List.length_cons]
    omega
  rw [nextPosition, positionLoop_run hb a (x :: r) (by omega) (by omega), hpos,
    Loop.run_of_exit (by simp [positionLoop, hitem, hx]), Option.map_some, if_pos (by omega)]

/-- A search from a cut behind which the predicate does not hold. -/
lemma nextPosition_eq_zero (a : List α) {b : List α} (hb : ∀ c ∈ b, stop c = false) {p : ℤ}
    (hp : p = a.length) : nextPosition stop (a ++ b) p = some 0 := by
  have hrun := positionLoop_run hb a [] (i := p + 1) (by omega)
    (n := (a ++ b).length + 1) (by rw [List.length_append]; omega)
  rw [List.append_nil] at hrun
  have hlen : (a ++ b).length = a.length + b.length := List.length_append
  rw [nextPosition, hrun, Loop.run_of_exit, Option.map_some, if_neg (by omega)]
  simp only [positionLoop, Bool.or_eq_true, decide_eq_true_eq]
  left
  omega

end Position

end Text
