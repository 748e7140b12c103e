import Mathlib.Data.List.Basic
import Mathlib.Order.Lattice
import Mathlib.Tactic.Common

set_option relaxedAutoImplicit false
set_option autoImplicit false

/-!
# The greatest elements of a list

The elements of a list whose key is greatest, in the order of the list. They are found in one
pass: a new element is dropped, joins the greatest ones so far, or replaces them.

## Main definitions

* `maxima` — the elements with the greatest key.

## Main results

* `maxima_append_of_lt`, `maxima_append_of_eq`, `maxima_append_of_gt` — one step of the pass.
-/

section Maxima

variable {α ι : Type*} [LinearOrder ι] (key : α → ι)

/-- The elements of `l` whose key is greatest, in order. -/
def maxima (l : List α) : List α := l.filter fun x => l.all fun y => key y ≤ key x

variable {key} {l : List α} {x f : α}

lemma all_le_iff {l : List α} {x : α} :
    (l.all fun y => key y ≤ key x) = true ↔ ∀ y ∈ l, key y ≤ key x := by
  simp

lemma mem_maxima : x ∈ maxima key l ↔ x ∈ l ∧ ∀ y ∈ l, key y ≤ key x := by
  simp [maxima]

@[simp] lemma maxima_singleton (x : α) : maxima key [x] = [x] := by simp [maxima]

/-- All greatest elements have the same key. -/
lemma key_eq_of_mem_maxima {y : α} (hx : x ∈ maxima key l) (hy : y ∈ maxima key l) :
    key x = key y := by
  rw [mem_maxima] at hx hy
  exact le_antisymm (hy.2 x hx.1) (hx.2 y hy.1)

/-- An element with a greater key replaces the greatest ones. -/
lemma maxima_append_of_lt (hf : f ∈ maxima key l) (h : key f < key x) :
    maxima key (l ++ [x]) = [x] := by
  have hlt : ∀ y ∈ l, key y < key x := fun y hy => ((mem_maxima.mp hf).2 y hy).trans_lt h
  have hnone : (l.filter fun z => (l ++ [x]).all fun y => key y ≤ key z) = [] := by
    rw [List.filter_eq_nil_iff]
    intro z hz hall
    have hle : key x ≤ key z := all_le_iff.mp hall x (by simp)
    exact absurd hle (not_le.mpr (hlt z hz))
  rw [maxima, List.filter_append, hnone, List.nil_append, List.filter_cons_of_pos]
  · rfl
  · rw [all_le_iff]
    intro y hy
    rcases List.mem_append.mp hy with hy | hy
    · exact (hlt y hy).le
    · exact (congrArg key (List.mem_singleton.mp hy)).le

/-- An element whose key is not greater does not change which elements of `l` are greatest. -/
lemma filter_append_of_le (hf : f ∈ maxima key l) (h : key x ≤ key f) :
    (l.filter fun z => (l ++ [x]).all fun y => key y ≤ key z) = maxima key l := by
  rw [maxima]
  refine List.filter_congr fun z hz => ?_
  rw [Bool.eq_iff_iff, all_le_iff, all_le_iff]
  constructor
  · intro hall y hy
    exact hall y (List.mem_append_left _ hy)
  · intro hall y hy
    rcases List.mem_append.mp hy with hy | hy
    · exact hall y hy
    · rw [List.mem_singleton.mp hy]
      exact h.trans (hall f (mem_maxima.mp hf).1)

/-- An element with the same key joins the greatest ones. -/
lemma maxima_append_of_eq (hf : f ∈ maxima key l) (h : key x = key f) :
    maxima key (l ++ [x]) = maxima key l ++ [x] := by
  rw [maxima, List.filter_append, filter_append_of_le hf h.le, List.filter_cons_of_pos]
  · rfl
  · rw [all_le_iff]
    intro y hy
    rcases List.mem_append.mp hy with hy | hy
    · exact h ▸ (mem_maxima.mp hf).2 y hy
    · exact (congrArg key (List.mem_singleton.mp hy)).le

/-- An element with a smaller key is dropped. -/
lemma maxima_append_of_gt (hf : f ∈ maxima key l) (h : key x < key f) :
    maxima key (l ++ [x]) = maxima key l := by
  rw [maxima, List.filter_append, filter_append_of_le hf h.le, List.filter_cons_of_neg]
  · simp
  · rw [all_le_iff]
    intro hall
    exact absurd (hall f (by simp [(mem_maxima.mp hf).1])) (not_le.mpr h)

end Maxima
