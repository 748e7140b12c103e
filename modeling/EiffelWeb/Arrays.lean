import Mathlib.Logic.Function.Basic
import Mathlib.Tactic.Common
import EiffelWeb.Limbs
import EiffelWeb.Special

set_option relaxedAutoImplicit false
set_option autoImplicit false

/-!
# Arrays by reference

Routines that take several arrays may be called with the same array in two places. Here an array is
a reference, and a heap holds the items of every array; reading or writing at an index that an array
does not have fails.

A loop that goes through two arrays from the low end and writes a third one may write over what it
reads, as long as no item is overwritten before it was read. `zipLoop` is such a loop with a carry;
on these conditions it writes what the pass `Limbs.zipCarry` makes of the items before the loop.

## Main definitions

* `Arrays` — a heap, with `item` and `put`.
* `Arrays.segment`, `Arrays.store` — consecutive items, read and written at once.
* `Arrays.zipLoop` — a loop over two arrays with a carry.
* `Arrays.ReadsAhead` — no item is overwritten before it is read.

## Main results

* `Arrays.segment_store_of_disjoint`, `Arrays.segment_store_self` — what is read after writing.
* `Arrays.zipLoop_eq` — what the loop writes.
-/

/-- A heap of arrays with items in `α`, by reference. -/
abbrev Arrays (α : Type*) := ℕ → List α

namespace Arrays

open Special Limbs

variable {α σ : Type*}

/-- `a [i]`; there is none outside the array. -/
def item (h : Arrays α) (a i : ℕ) : Option α := (h a)[i]?

/-- `a [i] := v`; it fails outside the array. -/
def put (h : Arrays α) (a i : ℕ) (v : α) : Option (Arrays α) :=
  if i < (h a).length then some (Function.update h a ((h a).set i v)) else none

/-- The `n` items of an array from index `i` on. -/
def segment (h : Arrays α) (a i n : ℕ) : List α := slice (h a) i n

/-- The heap with the items of `u` in an array from index `i` on. -/
def store (h : Arrays α) (a i : ℕ) (u : List α) : Arrays α := Function.update h a (write (h a) i u)

/-- `t.copy_data (a, i, j, n)`; it fails if one of the arrays has no `n` items there. -/
def copyData (h : Arrays α) (t a i j n : ℕ) : Option (Arrays α) :=
  if i + n ≤ (h a).length ∧ j + n ≤ (h t).length then some (h.store t j (h.segment a i n)) else none

/-! ## Reading -/

section Reading

variable {h : Arrays α} {a i n : ℕ}

lemma length_segment (hn : i + n ≤ (h a).length) : (h.segment a i n).length = n :=
  length_slice hn

@[simp] lemma segment_zero (h : Arrays α) (a i : ℕ) : h.segment a i 0 = [] := by
  simp [segment, slice]

/-- The first item of a segment. -/
lemma exists_item (hn : i + (n + 1) ≤ (h a).length) :
    ∃ x, h.item a i = some x ∧ h.segment a i (n + 1) = x :: h.segment a (i + 1) n := by
  have hi : i < (h a).length := by omega
  refine ⟨(h a)[i], List.getElem?_eq_getElem hi, ?_⟩
  rw [segment, slice, List.drop_eq_getElem_cons hi, List.take_succ_cons]
  rfl

/-- An item of a segment. -/
lemma item_eq_segment (h : Arrays α) {a i k n : ℕ} (hk : k < n) :
    h.item a (i + k) = (h.segment a i n)[k]? := by
  rw [segment, slice, List.getElem?_take_of_lt hk, List.getElem?_drop]
  rfl

/-- Segments one behind the other. -/
lemma segment_append (h : Arrays α) (a i m n : ℕ) :
    h.segment a i m ++ h.segment a (i + m) n = h.segment a i (m + n) :=
  slice_append_slice _ _ _ _

/-- A part of a segment. -/
lemma segment_eq_slice (h : Arrays α) {a i j m n : ℕ} (hm : j + m ≤ n) :
    h.segment a (i + j) m = slice (h.segment a i n) j m :=
  (slice_slice hm).symm

end Reading

/-! ## Writing -/

section Writing

variable {h : Arrays α} {a b i j n : ℕ} {u v : List α}

@[simp] lemma store_nil (h : Arrays α) (a i : ℕ) : h.store a i [] = h := by
  rw [store, write_nil, Function.update_eq_self]

lemma store_apply_of_ne (hb : b ≠ a) : h.store a i u b = h b := Function.update_of_ne hb _ _

lemma store_apply_self : h.store a i u a = write (h a) i u := Function.update_self _ _ _

/-- Writing inside an array keeps its length. -/
lemma length_store (hu : i + u.length ≤ (h a).length) (b : ℕ) :
    (h.store a i u b).length = (h b).length := by
  by_cases hb : b = a
  · rw [hb, store_apply_self, length_write hu]
  · rw [store_apply_of_ne hb]

lemma segment_store_of_ne (hb : b ≠ a) : (h.store a i u).segment b j n = h.segment b j n := by
  rw [segment, store_apply_of_ne hb, segment]

/-- What was written is read. -/
lemma segment_store_self (hu : i + u.length ≤ (h a).length) :
    (h.store a i u).segment a i u.length = u := by
  rw [segment, store_apply_self, slice_write hu]

/-- Writing elsewhere in the array. -/
lemma segment_store_of_disjoint (hu : i + u.length ≤ (h a).length)
    (hd : j + n ≤ i ∨ i + u.length ≤ j) :
    (h.store a i u).segment a j n = h.segment a j n := by
  have hi : (List.take i (h a)).length = i := by
    rw [List.length_take]
    omega
  rw [segment, store_apply_self, write, segment, slice, slice]
  rcases hd with hd | hd
  · rw [List.append_assoc, List.drop_append_of_le_length (by omega), List.take_append_of_le_length
      (by rw [List.length_drop]; omega), List.drop_take, List.take_take, Nat.min_eq_left (by omega)]
  · have hlen : (List.take i (h a) ++ u).length = i + u.length := by
      rw [List.length_append, hi]
    rw [List.drop_append, hlen, List.drop_of_length_le (by omega), List.nil_append, List.drop_drop]
    congr 2
    omega

/-- Writing in another array, or elsewhere in the same one. -/
lemma segment_store_apart (hu : i + u.length ≤ (h a).length)
    (hd : b = a → j + n ≤ i ∨ i + u.length ≤ j) :
    (h.store a i u).segment b j n = h.segment b j n := by
  by_cases hb : b = a
  · subst hb
    exact segment_store_of_disjoint hu (hd rfl)
  · exact segment_store_of_ne hb

/-- **Writing one list behind the other.** -/
lemma store_store (hj : j = i + u.length) (hu : i + u.length ≤ (h a).length) :
    (h.store a i u).store a j v = h.store a i (u ++ v) := by
  rw [store, store_apply_self, write_write hj hu, store, Function.update_idem, store]

/-- Writing what is there changes nothing. -/
lemma store_segment (hn : i + n ≤ (h a).length) : h.store a i (h.segment a i n) = h := by
  have hw : write (h a) i (slice (h a) i n) = h a := by
    rw [write, length_slice hn, slice, List.append_assoc, ← List.drop_drop, List.take_append_drop,
      List.take_append_drop]
  rw [store, segment, hw, Function.update_eq_self]

/-- Writing one item. -/
lemma put_eq {x : α} (hi : i < (h a).length) : h.put a i x = some (h.store a i [x]) := by
  rw [put, if_pos hi, set_eq_write x hi, store]

lemma copyData_eq {t : ℕ} (ha : i + n ≤ (h a).length) (ht : j + n ≤ (h t).length) :
    h.copyData t a i j n = some (h.store t j (h.segment a i n)) := by
  rw [copyData, if_pos ⟨ha, ht⟩]

end Writing

/-! ## Loops with a carry -/

/-- The loop that reads `a` and `b` and writes `t` from the given indexes on, `n` items each, from
the low end. The step `f` makes of the carry and the two items an item and the next carry. -/
def zipLoop (f : σ → α → α → α × σ) (t a b : ℕ) :
    (n i j k : ℕ) → σ → Arrays α → Option (σ × Arrays α)
  | 0, _, _, _, c, h => some (c, h)
  | n + 1, i, j, k, c, h =>
    (h.item a j).bind fun u =>
      (h.item b k).bind fun v =>
        (h.put t i (f c u v).1).bind (zipLoop f t a b n (i + 1) (j + 1) (k + 1) (f c u v).2)

/-- A loop that writes `n` items of `t` from `i` on overwrites no item of `a` from `j` on before it
was read. -/
def ReadsAhead (n t i a j : ℕ) : Prop := a = t → i ≤ j ∨ j + n ≤ i

lemma ReadsAhead.refl (n t i : ℕ) : ReadsAhead n t i t i := fun _ => Or.inl le_rfl

lemma ReadsAhead.of_ne {n t i a j : ℕ} (h : a ≠ t) : ReadsAhead n t i a j := fun he => absurd he h

lemma ReadsAhead.tail {n t i a j : ℕ} (h : ReadsAhead (n + 1) t i a j) :
    ReadsAhead n t (i + 1) a (j + 1) := by
  intro he
  have := h he
  omega

/-- The first write of a loop leaves the items that are still to be read. -/
lemma ReadsAhead.segment_store {n t i a j : ℕ} (hr : ReadsAhead (n + 1) t i a j) {h : Arrays α}
    (ht : i < (h t).length) (x : α) :
    (h.store t i [x]).segment a (j + 1) n = h.segment a (j + 1) n := by
  refine segment_store_apart (by rw [List.length_singleton]; omega) ?_
  intro he
  have := hr he
  rw [List.length_singleton]
  omega

/-- **What the loop writes.** If no item is overwritten before it was read, the loop writes what the
pass makes of the items before the loop.

**Proof sketch.** Induction on the number of items. The first write changes none of the items that
are still to be read, and the rest is written behind it. -/
lemma zipLoop_eq (f : σ → α → α → α × σ) {t a b : ℕ} {n i j k : ℕ} (c : σ) {h : Arrays α}
    (ht : i + n ≤ (h t).length) (ha : j + n ≤ (h a).length) (hb : k + n ≤ (h b).length)
    (hra : ReadsAhead n t i a j) (hrb : ReadsAhead n t i b k) :
    zipLoop f t a b n i j k c h =
      some ((zipCarry f c (h.segment a j n) (h.segment b k n)).2,
        h.store t i (zipCarry f c (h.segment a j n) (h.segment b k n)).1) := by
  induction n generalizing i j k c h with
  | zero => simp [zipLoop, zipCarry]
  | succ n ih =>
    obtain ⟨u, hu, hua⟩ := exists_item ha
    obtain ⟨v, hv, hvb⟩ := exists_item hb
    have hlen (d : ℕ) : (h.store t i [(f c u v).1] d).length = (h d).length :=
      length_store (by rw [List.length_singleton]; omega) d
    have hrest : zipLoop f t a b n (i + 1) (j + 1) (k + 1) (f c u v).2
        (h.store t i [(f c u v).1]) = _ :=
      ih (f c u v).2 (by rw [hlen]; omega) (by rw [hlen]; omega) (by rw [hlen]; omega) hra.tail
        hrb.tail
    rw [hra.segment_store (by omega), hrb.segment_store (by omega),
      store_store (by rw [List.length_singleton]) (by rw [List.length_singleton]; omega)] at hrest
    simp only [zipLoop, hu, hv, put_eq (show i < (h t).length by omega), Option.bind_some,
      hrest, hua, hvb, zipCarry, List.singleton_append]

end Arrays
