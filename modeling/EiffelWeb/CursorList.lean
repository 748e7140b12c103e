import Mathlib.Data.List.Basic
import Mathlib.Data.List.Forall2
import Mathlib.Data.List.Induction
import Mathlib.Tactic.Common
import EiffelWeb.Loop

set_option relaxedAutoImplicit false
set_option autoImplicit false

/-!
# Lists with a cursor

The lists of the kernel library carry a cursor: the index of an item, `0` before the first one and
one more than the number of items after the last one. The operations move the cursor, read the
item under it, or remove it; each has a require clause, and fails if that is violated.

The code walks a list and changes it on the way. Its proofs keep the split of the list into the
items before the cursor and the others (`CursorList.between`); the lemmas state each operation at
such a split.

## Main definitions

* `CursorList`, with `start`, `before`, `after`, `isfirst`, `item`, `forth`, `back`, `remove`,
  `putLeft`
* `CursorList.between` — the cursor stands between two parts.
* `CursorList.removeLoop` — removing the items up to the first one.
* `CursorList.searchLoop` — looking for an item from the cursor on.

## Main results

* `CursorList.removeLoop_run` — all items up to the cursor are removed.
* `CursorList.searchLoop_run` — the first item with the property is found.
* `mapM_eq_some_iff`, `isSome_mapM_iff` — a loop that fills a list from another one.
-/

/-- A list with a cursor. -/
@[ext]
structure CursorList (α : Type*) where
  /-- The items. -/
  items : List α
  /-- The position of the cursor. -/
  index : ℕ

namespace CursorList

variable {α : Type*}

/-- `start`. -/
def start (c : CursorList α) : CursorList α := { c with index := 1 }

/-- `before`. -/
def before (c : CursorList α) : Bool := c.index = 0

/-- `after`. -/
def after (c : CursorList α) : Bool := c.items.length < c.index

/-- `isfirst`. -/
def isfirst (c : CursorList α) : Bool := !c.items.isEmpty && c.index = 1

/-- `item`: there is none before the first item and after the last one. -/
def item (c : CursorList α) : Option α := if c.index = 0 then none else c.items[c.index - 1]?

/-- `forth`, which requires `not after`. -/
def forth (c : CursorList α) : Option (CursorList α) :=
  if c.after then none else some { c with index := c.index + 1 }

/-- `back`, which requires `not before`. -/
def back (c : CursorList α) : Option (CursorList α) :=
  if c.before then none else some { c with index := c.index - 1 }

/-- `remove`, which requires an item under the cursor. The cursor then stands on its right
neighbour. -/
def remove (c : CursorList α) : Option (CursorList α) :=
  if c.before || c.after then none else some { c with items := c.items.eraseIdx (c.index - 1) }

/-- `put_left (v)`: the cursor stays on its item. -/
def putLeft (c : CursorList α) (v : α) : CursorList α :=
  if c.after || c.items.isEmpty then ⟨c.items ++ [v], c.index + 1⟩
  else ⟨c.items.insertIdx (c.index - 1) v, c.index + 1⟩

/-! ## The cursor between two parts -/

/-- The list `a ++ b` with the cursor on the first item of `b`, or after the last item. -/
def between (a b : List α) : CursorList α := ⟨a ++ b, a.length + 1⟩

/-- The list `l` with the cursor before its first item. -/
def first (l : List α) : CursorList α := ⟨l, 0⟩

@[simp] lemma items_between (a b : List α) : (between a b).items = a ++ b := rfl

/-- The number of items from the cursor on. -/
def remaining (c : CursorList α) : ℕ := c.items.length + 1 - c.index

@[simp] lemma remaining_between (a b : List α) : (between a b).remaining = b.length := by
  simp only [remaining, between, List.length_append]
  omega

lemma start_eq (c : CursorList α) : c.start = between [] c.items := rfl

@[simp] lemma before_between (a b : List α) : (between a b).before = false := by
  simp [between, before]

@[simp] lemma before_first (l : List α) : (first l).before = true := by simp [first, before]

@[simp] lemma after_between_nil (a : List α) : (between a []).after = true := by
  simp [between, after]

@[simp] lemma after_between_cons (a : List α) (x : α) (b : List α) :
    (between a (x :: b)).after = false := by
  simp [between, after]

lemma isfirst_between_cons (a : List α) (y : α) (b : List α) :
    (between (y :: a) b).isfirst = false := by
  simp [between, isfirst]

@[simp] lemma item_between_cons (a : List α) (x : α) (b : List α) :
    (between a (x :: b)).item = some x := by
  simp [between, item]

@[simp] lemma forth_between_cons (a : List α) (x : α) (b : List α) :
    (between a (x :: b)).forth = some (between (a ++ [x]) b) := by
  rw [forth, after_between_cons]
  simp [between]

@[simp] lemma forth_first (l : List α) : (first l).forth = some (between [] l) := by
  simp [first, forth, after, between]

@[simp] lemma back_between_append (a : List α) (x : α) (b : List α) :
    (between (a ++ [x]) b).back = some (between a (x :: b)) := by
  rw [back, before_between]
  simp [between]

@[simp] lemma back_between_nil (b : List α) : (between [] b).back = some (first b) := by
  simp [between, back, before, first]

@[simp] lemma remove_between_cons (a : List α) (x : α) (b : List α) :
    (between a (x :: b)).remove = some (between a b) := by
  rw [remove, before_between, after_between_cons]
  simp [between, List.eraseIdx_append_of_length_le]

/-! ## Removing the items up to the first one -/

/-- `from until before loop remove; back end`. -/
def removeLoop : Loop (CursorList α) where
  exit c := c.before
  body c := c.remove.bind back

/-- **The loop removes the item under the cursor and all before it.**

**Proof sketch.** Induction on the items before the cursor, from the last one on. -/
lemma removeLoop_run (a : List α) (y : α) (b : List α) {fuel : ℕ} (hf : a.length < fuel) :
    removeLoop.run fuel (between a (y :: b)) = some (first b) := by
  induction a using List.reverseRecOn generalizing y fuel with
  | nil =>
    obtain ⟨fuel, rfl⟩ : ∃ k, fuel = k + 1 := ⟨fuel - 1, by simp at hf; omega⟩
    have hb : removeLoop.body (between [] (y :: b)) = some (first b) := by
      simp [removeLoop]
    rw [Loop.run_succ (by simp [removeLoop]) hb]
    exact Loop.run_of_exit (by simp [removeLoop]) fuel
  | append_singleton a z ih =>
    obtain ⟨fuel, rfl⟩ : ∃ k, fuel = k + 1 := ⟨fuel - 1, by simp at hf; omega⟩
    have hb : removeLoop.body (between (a ++ [z]) (y :: b)) =
        some (between a (z :: b)) := by
      simp [removeLoop]
    rw [Loop.run_succ (by simp [removeLoop]) hb]
    exact ih z (by simp at hf; omega)

/-! ## Looking for an item -/

/-- `from until after or found /= Void loop … end`: an item without the property is passed over. -/
def searchLoop (p : α → Bool) : Loop (CursorList α × Option α) where
  exit st := st.1.after || st.2.isSome
  body st := st.1.item.bind fun x =>
    if p x then some (st.1, some x) else st.1.forth.map fun c => (c, none)

/-- **The loop finds the first item with the property**, if there is one. -/
lemma searchLoop_run (p : α → Bool) (a b : List α) {fuel : ℕ} (hf : b.length < fuel) :
    ∃ c, (searchLoop p).run fuel (between a b, none) = some (c, b.find? p) ∧
      c.items = a ++ b := by
  induction b generalizing a fuel with
  | nil => exact ⟨_, Loop.run_of_exit (by simp [searchLoop]) fuel, rfl⟩
  | cons x b ih =>
    obtain ⟨fuel, rfl⟩ : ∃ k, fuel = k + 1 := ⟨fuel - 1, by simp at hf; omega⟩
    have he : (searchLoop p).exit (between a (x :: b), none) = false := by simp [searchLoop]
    by_cases hx : p x = true
    · have hb : (searchLoop p).body (between a (x :: b), none) =
          some (between a (x :: b), some x) := by
        simp [searchLoop, hx]
      rw [Loop.run_succ he hb, List.find?_cons_of_pos hx]
      exact ⟨_, Loop.run_of_exit (by simp [searchLoop]) fuel, rfl⟩
    · have hb : (searchLoop p).body (between a (x :: b), none) =
          some (between (a ++ [x]) b, none) := by
        simp [searchLoop, hx]
      rw [Loop.run_succ he hb, List.find?_cons_of_neg hx]
      obtain ⟨c, hrun, hitems⟩ := @ih (a ++ [x]) fuel (by simp at hf; omega)
      exact ⟨c, hrun, by simpa using hitems⟩

end CursorList

/-! ## Filling a list from another one -/

section Fill

variable {α β : Type*} {f : α → Option β}

/-- A loop that fills a list from the items of another one: each item comes from one of these. -/
lemma mapM_eq_some_iff {l : List α} {l' : List β} :
    l.mapM f = some l' ↔ List.Forall₂ (fun x y => f x = some y) l l' := by
  induction l generalizing l' with
  | nil =>
    rw [List.mapM_nil, Option.pure_def, Option.some.injEq, List.forall₂_nil_left_iff]
    exact eq_comm
  | cons x l ih =>
    rw [List.mapM_cons, List.forall₂_cons_left_iff]
    constructor
    · intro h
      obtain ⟨y, hy, hrest⟩ := Option.bind_eq_some_iff.mp h
      obtain ⟨ys, hys, hcons⟩ := Option.bind_eq_some_iff.mp hrest
      exact ⟨y, ys, hy, ih.mp hys, (Option.some.inj hcons).symm⟩
    · rintro ⟨y, ys, hy, hys, rfl⟩
      rw [hy, ih.mpr hys]
      rfl

/-- Every item of the new list comes from an item of the old one. -/
lemma exists_of_mem_mapM {l : List α} {l' : List β} (h : l.mapM f = some l') {y : β}
    (hy : y ∈ l') : ∃ x ∈ l, f x = some y := by
  have hall := mapM_eq_some_iff.mp h
  induction hall with
  | nil => cases hy
  | cons hx _ ih =>
    rcases List.mem_cons.mp hy with rfl | hy
    · exact ⟨_, List.mem_cons_self, hx⟩
    · obtain ⟨x, hmem, hfx⟩ := ih (mapM_eq_some_iff.mpr ‹_›) hy
      exact ⟨x, List.mem_cons_of_mem _ hmem, hfx⟩

/-- Every item of the old list gives an item of the new one. -/
lemma exists_mem_of_mapM {l : List α} {l' : List β} (h : l.mapM f = some l') {x : α}
    (hx : x ∈ l) : ∃ y ∈ l', f x = some y := by
  have hall := mapM_eq_some_iff.mp h
  induction hall with
  | nil => cases hx
  | cons hfx _ ih =>
    rcases List.mem_cons.mp hx with rfl | hx
    · exact ⟨_, List.mem_cons_self, hfx⟩
    · obtain ⟨y, hmem, hfy⟩ := ih (mapM_eq_some_iff.mpr ‹_›) hx
      exact ⟨y, List.mem_cons_of_mem _ hmem, hfy⟩

/-- The loop returns if its body does on every item. -/
lemma isSome_mapM_iff {l : List α} : (l.mapM f).isSome ↔ ∀ x ∈ l, (f x).isSome := by
  induction l with
  | nil => simp
  | cons x l ih =>
    rw [List.mapM_cons, List.forall_mem_cons, ← ih]
    rcases hx : f x with _ | y
    · simp
    · rcases l.mapM f with _ | ys <;> simp

end Fill
