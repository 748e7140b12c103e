import Mathlib.Data.List.Basic
import Mathlib.Tactic.Common

set_option relaxedAutoImplicit false
set_option autoImplicit false

/-!
# Arrays of fixed size

The arrays of the kernel library, over an arbitrary element type: an array is the list of its items,
with indexes from zero. Indexes are valid wherever the code uses them, so they are natural numbers
and reading elsewhere yields the default value.

Code fills an array piece by piece. Every way of doing so writes a list at an index (`write`), and
writing two lists one behind the other writes their concatenation.

## Main definitions

* `Special.item`, `Special.slice` — one item, and consecutive ones.
* `Special.write` — an array with a list written at an index.
* `Special.copyData`, `Special.overlappingMove`, `Special.fillWith`
* `Special.copyDataWithin` — copying with the require clause.

## Main results

* `Special.slice_write` — what was written is read.
* `Special.write_write` — writing one list behind the other.
* `Special.set_eq_write` — writing one item.
* `Special.take_foldl_set` — filling an array, each item from the ones before it.
-/

namespace Special

variable {α : Type*}

/-- `a.item (i)`. -/
def item [Inhabited α] (a : List α) (i : ℕ) : α := a.getD i default

/-- The `n` items from index `i` on. -/
def slice (a : List α) (i n : ℕ) : List α := (a.drop i).take n

/-- The array with the items of `u` at the indexes from `i` on. -/
def write (a : List α) (i : ℕ) (u : List α) : List α := a.take i ++ u ++ a.drop (i + u.length)

/-- `a.copy_data (other, source_index, destination_index, n)`. -/
def copyData (a other : List α) (sourceIndex destinationIndex n : ℕ) : List α :=
  write a destinationIndex (slice other sourceIndex n)

/-- `a.copy_data (other, source_index, destination_index, n)` with its require clause: `none` if
`other` has no `n` items from `source_index` on, or the array no room for them. -/
def copyDataWithin (a other : List α) (sourceIndex destinationIndex n : ℕ) : Option (List α) :=
  if sourceIndex + n ≤ other.length ∧ destinationIndex + n ≤ a.length then
    some (copyData a other sourceIndex destinationIndex n)
  else none

/-- `a.overlapping_move (source_index, destination_index, n)`. -/
def overlappingMove (a : List α) (sourceIndex destinationIndex n : ℕ) : List α :=
  write a destinationIndex (slice a sourceIndex n)

/-- `a.fill_with (v, start_index, end_index)`, for the `n` indexes from `start_index` on. -/
def fillWith (a : List α) (v : α) (startIndex n : ℕ) : List α :=
  write a startIndex (List.replicate n v)

/-! ## Reading -/

lemma length_slice {a : List α} {i n : ℕ} (h : i + n ≤ a.length) : (slice a i n).length = n := by
  rw [slice, List.length_take, List.length_drop]
  omega

lemma slice_zero_length (a : List α) : slice a 0 a.length = a := by simp [slice]

/-- Items one behind the other. -/
lemma slice_append_slice (a : List α) (i m n : ℕ) :
    slice a i m ++ slice a (i + m) n = slice a i (m + n) := by
  rw [slice, slice, slice, List.take_add, List.drop_drop]

/-- A slice of a slice. -/
lemma slice_slice {a : List α} {i j m n : ℕ} (h : j + m ≤ n) :
    slice (slice a i n) j m = slice a (i + j) m := by
  rw [slice, slice, slice, List.drop_take, List.take_take, List.drop_drop,
    Nat.min_eq_left (by omega)]

/-- The items of a slice, the last one apart. -/
lemma slice_succ [Inhabited α] {a : List α} {i n : ℕ} (h : i + n < a.length) :
    slice a i (n + 1) = slice a i n ++ [item a (i + n)] := by
  have hlen : n < (a.drop i).length := by
    rw [List.length_drop]
    omega
  have hitem : item a (i + n) = a[i + n] := by simp [item, h]
  rw [slice, slice, List.take_succ_eq_append_getElem hlen, List.getElem_drop, hitem]

/-- One item is read from the slice it is in. -/
lemma item_slice [Inhabited α] {a : List α} {i j n : ℕ} (h : j < n) :
    item (slice a i n) j = item a (i + j) := by
  simp [item, slice, List.getD_eq_getElem?_getD, h, List.getElem?_drop]

/-- The items at consecutive indexes. -/
lemma map_item_range' [Inhabited α] {a : List α} {i n : ℕ} (h : i + n ≤ a.length) :
    (List.range' i n).map (item a) = slice a i n := by
  induction n with
  | zero => rfl
  | succ n ih =>
    rw [List.range'_1_concat, List.map_append, ih (by omega), slice_succ (by omega),
      List.map_singleton]

/-- One item is read from the first ones. -/
lemma item_take [Inhabited α] (a : List α) {j n : ℕ} (hj : j < n) :
    item (a.take n) j = item a j := by
  simp only [item, List.getD_eq_getElem?_getD, List.getElem?_take_of_lt hj]

lemma item_of_take [Inhabited α] {a u : List α} {j : ℕ} (h : a.take u.length = u)
    (hj : j < u.length) : item a j = item u j := by
  rw [← item_take a hj, h]

/-! ## Writing -/

@[simp] lemma write_nil (a : List α) (i : ℕ) : write a i [] = a := by simp [write]

lemma length_write {a u : List α} {i : ℕ} (h : i + u.length ≤ a.length) :
    (write a i u).length = a.length := by
  simp only [write, List.length_append, List.length_take, List.length_drop]
  omega

/-- What was written is read. -/
lemma slice_write {a u : List α} {i : ℕ} (h : i + u.length ≤ a.length) :
    slice (write a i u) i u.length = u := by
  have hi : (a.take i).length = i := by
    rw [List.length_take]
    omega
  rw [slice, write, List.append_assoc, List.drop_left' hi, List.take_left' rfl]

/-- An item of an array in which a list was written. -/
lemma getElem?_write {a u : List α} {i : ℕ} (h : i + u.length ≤ a.length) (j : ℕ) :
    (write a i u)[j]? = if i ≤ j ∧ j < i + u.length then u[j - i]? else a[j]? := by
  have hi : (a.take i).length = i := List.length_take_of_le (by omega)
  rw [write, List.append_assoc]
  by_cases hj : j < i
  · rw [if_neg (by omega), List.getElem?_append_left (by omega), List.getElem?_take_of_lt hj]
  · rw [List.getElem?_append_right (by omega), hi]
    by_cases hu : j - i < u.length
    · rw [if_pos (by omega), List.getElem?_append_left hu]
    · rw [if_neg (by omega), List.getElem?_append_right (by omega), List.getElem?_drop]
      congr 1
      omega

/-- **Writing one list behind the other.** -/
lemma write_write {a u v : List α} {i j : ℕ} (hj : j = i + u.length)
    (h : i + u.length ≤ a.length) : write (write a i u) j v = write a i (u ++ v) := by
  have hi : (a.take i ++ u).length = j := by
    rw [List.length_append, List.length_take]
    omega
  have hdrop : (a.take i ++ u ++ a.drop (i + u.length)).drop (j + v.length) =
      a.drop (i + (u ++ v).length) := by
    rw [List.drop_append, hi, List.drop_of_length_le (by omega), List.nil_append, List.drop_drop,
      List.length_append]
    congr 1
    omega
  rw [write, write, List.take_left' hi, hdrop, write]
  simp

/-- Writing over what was written. -/
lemma write_write_same {a u v : List α} {i : ℕ} (huv : v.length = u.length)
    (h : i + u.length ≤ a.length) : write (write a i u) i v = write a i v := by
  have hi : (a.take i).length = i := by
    rw [List.length_take]
    omega
  have hdrop : (a.take i ++ u ++ a.drop (i + u.length)).drop (i + v.length) =
      a.drop (i + v.length) := by
    rw [List.drop_left' (by rw [List.length_append, hi, huv]), huv]
  have htake : (a.take i ++ u ++ a.drop (i + u.length)).take i = a.take i := by
    rw [List.append_assoc, List.take_left' hi]
  rw [write, write, hdrop, htake, write]

/-- Writing one item. -/
lemma set_eq_write {a : List α} {i : ℕ} (x : α) (h : i < a.length) : a.set i x = write a i [x] := by
  rw [List.set_eq_take_append_cons_drop, if_pos h, write]
  simp

/-- Writing one item behind a list. -/
lemma set_write {a u : List α} {i j : ℕ} (x : α) (hj : j = i + u.length) (h : j < a.length) :
    (write a i u).set j x = write a i (u ++ [x]) := by
  rw [set_eq_write x (by rw [length_write (by omega)]; omega), write_write hj (by omega)]

/-- Writing one item behind the first ones. -/
lemma take_set_self {a : List α} {n : ℕ} (h : n < a.length) (x : α) :
    (a.set n x).take (n + 1) = a.take n ++ [x] := by
  rw [List.take_succ_eq_append_getElem (by rw [List.length_set]; exact h),
    List.take_set_of_le (Nat.le_refl _), List.getElem_set_self]

lemma take_set_concat {a u : List α} (hu : a.take u.length = u) (h : u.length < a.length) (x : α) :
    (a.set u.length x).take (u.length + 1) = u ++ [x] := by
  rw [take_set_self h, hu]

lemma length_foldl_set {f : List α → ℕ → List α} (hf : ∀ a i, (f a i).length = a.length)
    (l : List ℕ) (a : List α) : (l.foldl f a).length = a.length := by
  induction l generalizing a with
  | nil => rfl
  | cons i l ih => rw [List.foldl_cons, ih, hf]

/-- **Filling an array from an index on.** When each item is computed from the ones before it, the
result depends on the items before the index only. -/
lemma take_foldl_set {f : List α → ℕ → α} {m : ℕ}
    (hf : ∀ (a a' : List α) (t : ℕ), m ≤ t → a.take t = a'.take t → f a t = f a' t)
    {a a' : List α} (h : a.take m = a'.take m) {n : ℕ} (hlen : m + n ≤ a.length)
    (hlen' : m + n ≤ a'.length) :
    ((List.range' m n).foldl (fun a t => a.set t (f a t)) a).take (m + n) =
      ((List.range' m n).foldl (fun a t => a.set t (f a t)) a').take (m + n) := by
  induction n with
  | zero => exact h
  | succ n ih =>
    have ih' := ih (by omega) (by omega)
    have hfill {b : List α} (hb : m + (n + 1) ≤ b.length) :
        m + n < ((List.range' m n).foldl (fun a t => a.set t (f a t)) b).length := by
      rw [length_foldl_set fun a t => List.length_set]
      omega
    rw [List.range'_1_concat, List.foldl_concat, List.foldl_concat, ← Nat.add_assoc]
    set b := (List.range' m n).foldl (fun a t => a.set t (f a t)) a
    set b' := (List.range' m n).foldl (fun a t => a.set t (f a t)) a'
    have htake {b : List α} (hb : m + n < b.length) (x : α) :
        (b.set (m + n) x).take (m + n + 1) = b.take (m + n) ++ [x] := by
      rw [List.take_succ_eq_append_getElem (by rw [List.length_set]; exact hb),
        List.take_set_of_le (Nat.le_refl _), List.getElem_set_self]
    rw [htake (hfill hlen), htake (hfill hlen'), ih', hf b b' (m + n) (by omega) ih']

/-- Writing at all indexes. -/
lemma write_all {a u : List α} (h : u.length = a.length) : write a 0 u = u := by
  simp [write, h]

/-- Writing one item behind a slice. -/
lemma slice_set {a : List α} {i j n : ℕ} (h : i + n ≤ j) (x : α) :
    slice (a.set j x) i n = slice a i n := by
  rw [slice, slice, List.drop_set, if_neg (by omega), List.take_set_of_le (by omega)]

/-- Writing the last item first. -/
lemma write_set {a u : List α} {i : ℕ} (x : α) (h : i + u.length < a.length) :
    write (a.set (i + u.length) x) i u = write a i (u ++ [x]) := by
  have htake : (a.set (i + u.length) x).take i = a.take i := List.take_set_of_le (by omega)
  have hdrop : (a.set (i + u.length) x).drop (i + u.length) =
      x :: a.drop (i + u.length + 1) := by
    rw [List.drop_set, if_neg (by omega), Nat.sub_self, List.drop_eq_getElem_cons h]
    rfl
  rw [write, htake, hdrop, write]
  simp [Nat.add_assoc]

end Special
