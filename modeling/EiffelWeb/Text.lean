import Mathlib.Data.List.Basic
import Mathlib.Data.List.DropRight
import Mathlib.Tactic.Common
import Mathlib.Tactic.Ring

set_option relaxedAutoImplicit false
set_option autoImplicit false

/-!
# Strings with positions counted from one

The string operations of the kernel library, over an arbitrary character type: positions start
at `1`, a search that finds nothing yields `0`, and a substring with an invalid range is empty
(it is not clipped to the string).

Scanning code keeps a position `p` in a string `s`; its proofs keep the split
`s = (the part before p) ++ (the part from p on)`. The lemmas state each operation at such a
split.

## Main definitions

* `Text.substring`, `Text.indexOf`, `Text.lastIndexOf`, `Text.item`, `Text.item?`
* `Text.leftAdjust`, `Text.rightAdjust`, `Text.afterLast`

## Main results

* `Text.substring_eq` — the substring between two cuts.
* `Text.indexOf_eq`, `Text.indexOf_eq_zero` — a search from a cut.
* `Text.lastIndexOf_eq`, `Text.lastIndexOf_eq_zero` — a search back from a cut.
-/

namespace Text

variable {α : Type*}

/-- `s.valid_index (i)`. -/
def validIndex (s : List α) (i : ℤ) : Prop := 1 ≤ i ∧ i ≤ s.length

instance (s : List α) (i : ℤ) : Decidable (validIndex s i) :=
  inferInstanceAs (Decidable (_ ∧ _))

/-- `s.item (i)` where the index is known to be valid. -/
def item [Inhabited α] (s : List α) (i : ℤ) : α := (s.drop (i - 1).toNat).headI

/-- `s.item (i)` with its bound check: `none` outside `1 .. s.count`. -/
def item? (s : List α) (i : ℤ) : Option α :=
  if validIndex s i then s[(i - 1).toNat]? else none

/-- `s.substring (i, j)`: empty unless `1 ≤ i ≤ j ≤ s.count`. -/
def substring (s : List α) (i j : ℤ) : List α :=
  if 1 ≤ i ∧ i ≤ j ∧ j ≤ s.length then (s.drop (i - 1).toNat).take (j - i + 1).toNat else []

/-- `s.index_of (c, i)`: the position of the first `c` at or after `i`, `0` if there is none. -/
def indexOf [DecidableEq α] (s : List α) (c : α) (i : ℤ) : ℤ :=
  let r := s.drop (i - 1).toNat
  if c ∈ r then i + r.idxOf c else 0

/-- `s.last_index_of (c, i)`: the position of the last `c` at or before `i`, `0` if there is
none. -/
def lastIndexOf [DecidableEq α] (s : List α) (c : α) (i : ℤ) : ℤ :=
  let r := (s.take i.toNat).reverse
  if c ∈ r then i - r.idxOf c else 0

/-- `s.left_adjust`, for a given notion of white space. -/
def leftAdjust (space : α → Bool) (s : List α) : List α := s.dropWhile space

/-- `s.right_adjust`, for a given notion of white space. -/
def rightAdjust (space : α → Bool) (s : List α) : List α := s.rdropWhile space

/-- The text after the last `c`; the whole text if there is none. -/
def afterLast [DecidableEq α] (c : α) : List α → List α
  | [] => []
  | x :: s => if c ∈ s then afterLast c s else if x = c then s else x :: s

/-! ## Positions at a cut -/

lemma item_append_cons [Inhabited α] (a : List α) (c : α) (b : List α) {i : ℤ}
    (hi : i = a.length + 1) : item (a ++ c :: b) i = c := by
  simp [item, hi]

lemma item?_append_cons (a : List α) (c : α) (b : List α) {i : ℤ}
    (hi : i = a.length + 1) : item? (a ++ c :: b) i = some c := by
  have hv : validIndex (a ++ c :: b) i := by
    constructor
    · omega
    · simp only [List.length_append, List.length_cons]; omega
  have hn : (i - 1).toNat = a.length := by omega
  rw [item?, if_pos hv, hn]
  simp

/-- The part of `a ++ b ++ c` between the two cuts is `b`. -/
lemma substring_eq (a b c : List α) {i j : ℤ} (hi : i = a.length + 1)
    (hj : j = a.length + b.length) : substring (a ++ (b ++ c)) i j = b := by
  have hi' : (i - 1).toNat = a.length := by omega
  have hj' : (j - i + 1).toNat = b.length := by omega
  unfold substring
  split
  · rw [hi', hj', List.drop_left, List.take_left]
  · next h =>
    have hb : b.length = 0 := by
      simp only [List.length_append] at h
      omega
    exact (List.length_eq_zero_iff.mp hb).symm

/-- The part of `a ++ b` from the cut on is `b`. -/
lemma substring_suffix (a b : List α) {i j : ℤ} (hi : i = a.length + 1)
    (hj : j = (a ++ b).length) : substring (a ++ b) i j = b := by
  have hj' : j = a.length + b.length := by
    rw [hj, List.length_append]
    push_cast
    ring
  simpa using substring_eq a b [] hi hj'

/-- The part of `a ++ c :: b` behind the character `c` is `b`. -/
lemma substring_behind (a : List α) (c : α) (b : List α) {i j : ℤ} (hi : i = a.length + 2)
    (hj : j = (a ++ c :: b).length) : substring (a ++ c :: b) i j = b := by
  have hsplit : a ++ c :: b = (a ++ [c]) ++ b := by simp
  rw [hsplit] at hj ⊢
  refine substring_suffix (a ++ [c]) b ?_ hj
  rw [List.length_append, List.length_singleton]
  omega

/-- The part of `a ++ b` before the cut is `a`. -/
lemma substring_prefix (a b : List α) {j : ℤ} (hj : j = a.length) :
    substring (a ++ b) 1 j = a := by
  simpa using substring_eq [] a b (i := 1) (j := j) (by simp) (by simp [hj])

/-- A substring from a cut that ends within `b` is a prefix of `b`. -/
lemma substring_prefix_of_le (a b c : List α) {i j : ℤ} (hi : i = a.length + 1)
    (hj : j ≤ a.length + b.length) : substring (a ++ (b ++ c)) i j <+: b := by
  have hi' : (i - 1).toNat = a.length := by omega
  unfold substring
  split
  · rw [hi', List.drop_left, List.take_append_of_le_length (by omega)]
    exact List.take_prefix _ b
  · exact List.nil_prefix

lemma substring_eq_nil_of_length_lt (s : List α) {i j : ℤ} (h : (s.length : ℤ) < j) :
    substring s i j = [] := by
  unfold substring
  rw [if_neg (by omega)]

lemma substring_eq_nil_of_lt (s : List α) {i j : ℤ} (h : j < i) : substring s i j = [] := by
  unfold substring
  rw [if_neg (by omega)]

lemma substring_subset (s : List α) (i j : ℤ) : substring s i j ⊆ s := by
  unfold substring
  split
  · exact ((List.take_sublist _ _).trans (List.drop_sublist _ s)).subset
  · exact List.nil_subset s

/-- Adjusting at both ends cuts off white space. -/
lemma adjust_split (space : α → Bool) (s : List α) :
    ∃ u w, s = u ++ (rightAdjust space (leftAdjust space s) ++ w) ∧
      (∀ c ∈ u, space c = true) ∧ ∀ c ∈ w, space c = true := by
  refine ⟨s.takeWhile space, (s.dropWhile space).rtakeWhile space, ?_,
    fun c hc => List.mem_takeWhile_imp hc, fun c hc => List.mem_rtakeWhile_imp hc⟩
  rw [rightAdjust, leftAdjust, List.rdropWhile_append_rtakeWhile, List.takeWhile_append_dropWhile]

/-- An occurrence of a text without the character `c` lies on one side of it. -/
lemma occurrence_append_cons {p a b x y : List α} {c : α} (hc : c ∉ p)
    (h : x ++ (p ++ y) = a ++ c :: b) :
    (∃ t, a = x ++ (p ++ t) ∧ y = t ++ c :: b) ∨ ∃ t, x = a ++ c :: t ∧ b = t ++ (p ++ y) := by
  rcases List.append_eq_append_iff.mp h with ⟨l, rfl, hl⟩ | ⟨l, rfl, hl⟩
  · rcases List.append_eq_append_iff.mp hl with ⟨t, rfl, ht⟩ | ⟨t, rfl, ht⟩
    · exact Or.inl ⟨t, rfl, ht⟩
    · cases t with
      | nil => exact Or.inl ⟨[], by simp, by simpa using ht.symm⟩
      | cons d t =>
        rw [List.cons_append, List.cons.injEq] at ht
        exact absurd (by simp [ht.1]) hc
  · cases l with
    | nil =>
      rw [List.nil_append] at hl
      cases p with
      | nil => exact Or.inl ⟨[], by simp, hl.symm⟩
      | cons d p =>
        rw [List.cons_append, List.cons.injEq] at hl
        exact absurd (by simp [hl.1]) hc
    | cons d t =>
      rw [List.cons_append, List.cons.injEq] at hl
      obtain ⟨rfl, hl⟩ := hl
      exact Or.inr ⟨t, rfl, hl⟩

/-- A text without the character `c` occurs on one side of it. -/
lemma infix_append_cons_iff {p a b : List α} {c : α} (hc : c ∉ p) :
    p <:+: a ++ c :: b ↔ p <:+: a ∨ p <:+: b := by
  constructor
  · rintro ⟨x, y, h⟩
    rw [List.append_assoc] at h
    rcases occurrence_append_cons hc h with ⟨t, rfl, -⟩ | ⟨t, -, rfl⟩
    · exact Or.inl ⟨x, t, List.append_assoc _ _ _⟩
    · exact Or.inr ⟨t, y, List.append_assoc _ _ _⟩
  · rintro (h | h)
    · exact List.infix_append_of_infix_left h
    · exact List.infix_append_of_infix_right (List.infix_cons h)

/-! ## The rest of a string -/

/-- The text `u` is the rest of `s` from position `i` on. The position may be behind the end. -/
def RestAt (s : List α) (i : ℤ) (u : List α) : Prop := 1 ≤ i ∧ u = s.drop (i - 1).toNat

lemma RestAt.drop {s u : List α} {i : ℤ} (h : RestAt s i u) (n : ℕ) :
    RestAt s (i + n) (u.drop n) := by
  obtain ⟨hi, rfl⟩ := h
  refine ⟨by omega, ?_⟩
  rw [List.drop_drop]
  congr 1
  omega

/-- A position with text behind it cuts the string. -/
lemma RestAt.split {s u : List α} {i : ℤ} (h : RestAt s i u) (hu : u ≠ []) :
    ∃ a, s = a ++ u ∧ i = a.length + 1 := by
  obtain ⟨hi, rfl⟩ := h
  refine ⟨s.take (i - 1).toNat, (List.take_append_drop _ _).symm, ?_⟩
  rw [ne_eq, List.drop_eq_nil_iff] at hu
  rw [List.length_take]
  omega

/-- The number of characters left. -/
lemma RestAt.length_le {s u : List α} {i : ℤ} (h : RestAt s i u) {n : ℕ} (hn : 0 < n) :
    i + n ≤ s.length + 1 ↔ n ≤ u.length := by
  obtain ⟨hi, rfl⟩ := h
  rw [List.length_drop]
  omega

lemma RestAt.le_length_iff {s u : List α} {i : ℤ} (h : RestAt s i u) :
    i ≤ s.length ↔ u ≠ [] := by
  have hone := h.length_le Nat.one_pos
  rw [ne_eq, ← List.length_eq_zero_iff]
  omega

/-- Comparing the characters at a position with a text. -/
lemma RestAt.substring_eq_iff {s u : List α} {i j : ℤ} (h : RestAt s i u) (b : List α)
    (hj : j = i + b.length - 1) : substring s i j = b ↔ b <+: u := by
  by_cases hb : b = []
  · subst hb
    rw [substring_eq_nil_of_lt _ (by simp at hj; omega)]
    simp
  · constructor
    · intro hs
      rw [substring] at hs
      split at hs
      · rw [← h.2] at hs
        exact hs ▸ List.take_prefix _ _
      · exact absurd hs.symm hb
    · rintro ⟨r, rfl⟩
      obtain ⟨a, rfl, hi⟩ := h.split (by simp [hb])
      exact substring_eq a b r hi (by omega)

/-- The characters from a position to the end. -/
lemma RestAt.substring_end {s u : List α} {i : ℤ} (h : RestAt s i u) :
    substring s i s.length = u := by
  by_cases hu : u = []
  · have hi : ¬ i ≤ s.length := fun hi => h.le_length_iff.mp hi hu
    rw [substring_eq_nil_of_lt _ (by omega), hu]
  · obtain ⟨a, rfl, hi⟩ := h.split hu
    exact substring_suffix a u hi rfl

/-- A character of none of the parts and not the separator. -/
lemma notMem_intercalate {c d : α} (hcd : c ≠ d) {ls : List (List α)} (h : ∀ l ∈ ls, c ∉ l) :
    c ∉ [d].intercalate ls := by
  induction ls with
  | nil => simp
  | cons l ls ih =>
    have hl := h l List.mem_cons_self
    have hls := ih fun l' hl' => h l' (List.mem_cons_of_mem l hl')
    rcases ls with _ | ⟨l', ls⟩
    · simpa using hl
    · rw [List.intercalate_cons_cons]
      simp only [List.mem_append, List.mem_singleton, not_or]
      exact ⟨⟨hl, hcd⟩, hls⟩

section IndexOf

variable [DecidableEq α]

/-- A search from a cut after which the character does not occur. -/
lemma indexOf_eq_zero (a b : List α) {c : α} {i : ℤ} (hi : i = a.length + 1) (hc : c ∉ b) :
    indexOf (a ++ b) c i = 0 := by
  have hi' : (i - 1).toNat = a.length := by omega
  simp [indexOf, hi', hc]

/-- A search from a cut finds the first occurrence after it. -/
lemma indexOf_eq (a b d : List α) {c : α} {i : ℤ} (hi : i = a.length + 1) (hc : c ∉ b) :
    indexOf (a ++ (b ++ c :: d)) c i = a.length + b.length + 1 := by
  have hi' : (i - 1).toNat = a.length := by omega
  simp only [indexOf, hi', List.drop_left, List.mem_append, List.mem_cons, true_or, or_true,
    if_true, List.idxOf_append_of_notMem hc, List.idxOf_cons_self]
  omega

/-- A search back from a cut before which the character does not occur. -/
lemma lastIndexOf_eq_zero (a b : List α) {c : α} {i : ℤ} (hi : i = a.length) (hc : c ∉ a) :
    lastIndexOf (a ++ b) c i = 0 := by
  have hn : i.toNat = a.length := by omega
  simp [lastIndexOf, hn, hc]

/-- A search back from a cut finds the last occurrence before it. -/
lemma lastIndexOf_eq (a b d : List α) {c : α} {i : ℤ} (hi : i = a.length + 1 + b.length)
    (hc : c ∉ b) : lastIndexOf (a ++ c :: (b ++ d)) c i = a.length + 1 := by
  have hn : i.toNat = (a ++ c :: b).length := by
    rw [List.length_append, List.length_cons]
    omega
  have htake : (a ++ c :: (b ++ d)).take i.toNat = a ++ c :: b := by
    rw [hn, ← List.cons_append, ← List.append_assoc, List.take_left]
  have hmem : c ∉ b.reverse := by simpa using hc
  have hidx : (b.reverse ++ c :: a.reverse).idxOf c = b.length := by
    rw [List.idxOf_append_of_notMem hmem, List.idxOf_cons_self]
    simp
  rw [lastIndexOf, htake]
  simp only [List.reverse_append, List.reverse_cons, List.append_assoc, List.singleton_append]
  rw [if_pos (by simp), hidx]
  omega

/-- The part before the first occurrence. -/
lemma takeWhile_ne {c : α} {a : List α} (h : c ∉ a) (b : List α) :
    (a ++ c :: b).takeWhile (· ≠ c) = a := by
  rw [List.takeWhile_append_of_pos fun x hx => decide_eq_true (ne_of_mem_of_not_mem hx h)]
  simp

/-- The part from the first occurrence on. -/
lemma dropWhile_ne {c : α} {a : List α} (h : c ∉ a) (b : List α) :
    (a ++ c :: b).dropWhile (· ≠ c) = c :: b := by
  rw [List.dropWhile_append_of_pos fun x hx => decide_eq_true (ne_of_mem_of_not_mem hx h)]
  simp

lemma afterLast_of_notMem {c : α} {s : List α} (h : c ∉ s) : afterLast c s = s := by
  rcases s with _ | ⟨x, s⟩
  · rfl
  · simp only [List.mem_cons, not_or] at h
    rw [afterLast, if_neg h.2, if_neg (Ne.symm h.1)]

lemma afterLast_append (c : α) (a b : List α) :
    afterLast c (a ++ b) = if c ∈ b then afterLast c b else afterLast c a ++ b := by
  induction a with
  | nil =>
    by_cases h : c ∈ b
    · simp [h]
    · simp [h, afterLast, afterLast_of_notMem h]
  | cons x a ih =>
    by_cases hb : c ∈ b
    · simp [afterLast, ih, hb]
    · by_cases ha : c ∈ a
      · simp [afterLast, ih, ha, hb]
      · by_cases hx : x = c <;> simp [afterLast, ha, hb, hx]

/-- What stands before a `c` does not matter. -/
lemma afterLast_append_cons (a b : List α) (c : α) :
    afterLast c (a ++ c :: b) = afterLast c b := by
  rw [show a ++ c :: b = (a ++ [c]) ++ b by simp, afterLast_append]
  by_cases h : c ∈ b
  · rw [if_pos h]
  · rw [if_neg h, afterLast_of_notMem h, afterLast_append, if_pos (List.mem_singleton_self c)]
    simp [afterLast]

/-- What stands before two separators does not matter. -/
lemma afterLast_append_cons_append_cons (a b d : List α) (x c : α) :
    afterLast c (a ++ x :: (b ++ c :: d)) = afterLast c d := by
  rw [← List.cons_append, ← List.append_assoc, afterLast_append_cons]

lemma mem_of_mem_afterLast {c x : α} {s : List α} (h : x ∈ afterLast c s) : x ∈ s := by
  induction s with
  | nil => simp [afterLast] at h
  | cons y s ih =>
    rw [afterLast] at h
    split at h
    · exact List.mem_cons_of_mem y (ih h)
    · split at h
      · exact List.mem_cons_of_mem y h
      · exact h

/-- A character with no `c` behind it stands after the last `c`. -/
lemma mem_afterLast_of_notMem {c x : α} (a : List α) {b : List α} (hx : x ≠ c) (hb : c ∉ b) :
    x ∈ afterLast c (a ++ x :: b) := by
  rw [afterLast_append, if_neg (by simp [hb, hx.symm])]
  simp

/-- Text that contains neither character may be cut off at both ends. -/
lemma mem_afterLast_middle {c x : α} {u m w : List α} (hxu : x ∉ u) (hcw : c ∉ w) (hxw : x ∉ w) :
    x ∈ afterLast c (u ++ (m ++ w)) ↔ x ∈ afterLast c m := by
  have hmw : x ∈ afterLast c (m ++ w) ↔ x ∈ afterLast c m := by
    rw [afterLast_append, if_neg hcw]
    simp [hxw]
  by_cases hc : c ∈ m
  · rw [afterLast_append, if_pos (by simp [hc]), hmw]
  · rw [afterLast_append, if_neg (by simp [hc, hcw]), afterLast_of_notMem hc]
    have hxu' : x ∉ afterLast c u := fun h => hxu (mem_of_mem_afterLast h)
    simp [hxu', hxw]

/-- A search from the start for a character that does not occur. -/
lemma indexOf_one_eq_zero {s : List α} {c : α} (hc : c ∉ s) : indexOf s c 1 = 0 :=
  indexOf_eq_zero [] s (by simp) hc

/-- A search from the start finds the first occurrence. -/
lemma indexOf_one_eq (b d : List α) {c : α} (hc : c ∉ b) :
    indexOf (b ++ c :: d) c 1 = b.length + 1 := by
  simpa using indexOf_eq [] b d (i := 1) (by simp) hc

/-- A character stands somewhere for the last time. -/
lemma exists_last_split {c : α} {s : List α} (h : c ∈ s) : ∃ a b, s = a ++ c :: b ∧ c ∉ b := by
  induction s with
  | nil => simp at h
  | cons x s ih =>
    by_cases hs : c ∈ s
    · obtain ⟨a, b, rfl, hb⟩ := ih hs
      exact ⟨x :: a, b, rfl, hb⟩
    · obtain rfl : c = x := (List.mem_cons.mp h).resolve_right hs
      exact ⟨[], s, rfl, hs⟩

/-- Either the character does not occur, or the list splits at its first occurrence. -/
lemma notMem_or_split (c : α) (s : List α) :
    c ∉ s ∨ ∃ b d, s = b ++ c :: d ∧ c ∉ b := by
  by_cases h : c ∈ s
  · obtain ⟨b, d, hs, hb⟩ := List.eq_append_cons_of_mem h
    exact Or.inr ⟨b, d, hs, hb⟩
  · exact Or.inl h

end IndexOf

/-- One of two lists is a prefix of the other, or they differ at some position for the first
time. -/
lemma prefix_or_differ (a b : List α) :
    a <+: b ∨ b <+: a ∨ ∃ p x s y t, a = p ++ x :: s ∧ b = p ++ y :: t ∧ x ≠ y := by
  induction a generalizing b with
  | nil => exact Or.inl List.nil_prefix
  | cons x a ih =>
    cases b with
    | nil => exact Or.inr (Or.inl List.nil_prefix)
    | cons y b =>
      by_cases hxy : x = y
      · subst hxy
        rcases ih b with h | h | ⟨p, x', s, y', t, rfl, rfl, hne⟩
        · exact Or.inl (List.cons_prefix_cons.mpr ⟨rfl, h⟩)
        · exact Or.inr (Or.inl (List.cons_prefix_cons.mpr ⟨rfl, h⟩))
        · exact Or.inr (Or.inr ⟨x :: p, x', s, y', t, rfl, rfl, hne⟩)
      · exact Or.inr (Or.inr ⟨[], x, a, y, b, rfl, rfl, hxy⟩)

end Text
