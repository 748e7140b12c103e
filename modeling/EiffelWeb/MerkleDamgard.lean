import Mathlib.Data.List.Basic
import Mathlib.Tactic.Common

set_option relaxedAutoImplicit false
set_option autoImplicit false

/-!
# Hashing block by block

A hash function that takes its input item by item: items are collected until a block of `n` is full,
and the block is compressed into the chaining value. The state is the chaining value with the items
of the block that is not full yet. Implementations keep these items in buffers of their own; they
are correct when they simulate this machine.

## Main definitions

* `MerkleDamgard.Absorbed` — a chaining value and the items of a part of a block.
* `MerkleDamgard.absorb`, `MerkleDamgard.absorbAll` — one item, and a list of items.

## Main results

* `MerkleDamgard.absorbAll_block` — a whole block is compressed.
* `MerkleDamgard.absorbAll_flatten` — whole blocks are compressed one after the other.
-/

namespace MerkleDamgard

/-- A chaining value and the items of a part of a block. -/
structure Absorbed (θ β : Type*) where
  /-- The chaining value. -/
  chain : θ
  /-- The items since the last full block. -/
  rest : List β

variable {θ β : Type*} (n : ℕ) (compress : List β → θ → θ)

/-- One more item. -/
def absorb (a : Absorbed θ β) (b : β) : Absorbed θ β :=
  if a.rest.length + 1 = n then ⟨compress (a.rest ++ [b]) a.chain, []⟩
  else ⟨a.chain, a.rest ++ [b]⟩

/-- More items. -/
def absorbAll (a : Absorbed θ β) (l : List β) : Absorbed θ β := l.foldl (absorb n compress) a

variable {n compress}

lemma absorbAll_append (a : Absorbed θ β) (l l' : List β) :
    absorbAll n compress a (l ++ l') = absorbAll n compress (absorbAll n compress a l) l' :=
  List.foldl_append

/-- Items that do not fill the block. -/
lemma absorbAll_of_lt {a : Absorbed θ β} {l : List β} (h : a.rest.length + l.length < n) :
    absorbAll n compress a l = ⟨a.chain, a.rest ++ l⟩ := by
  induction l generalizing a with
  | nil => rw [List.append_nil]; rfl
  | cons b l ih =>
    rw [List.length_cons] at h
    have hstep : absorb n compress a b = ⟨a.chain, a.rest ++ [b]⟩ := if_neg (by omega)
    rw [absorbAll, List.foldl_cons, hstep, ← absorbAll, ih]
    · rw [List.append_assoc, List.singleton_append]
    · rw [List.length_append, List.length_singleton]
      omega

/-- A whole block is compressed. -/
lemma absorbAll_block {h : θ} {l : List β} (hn : 0 < n) (hl : l.length = n) :
    absorbAll n compress ⟨h, []⟩ l = ⟨compress l h, []⟩ := by
  obtain ⟨l, b, rfl⟩ : ∃ l' b, l = l' ++ [b] :=
    ⟨l.dropLast, l.getLast (List.ne_nil_of_length_pos (by omega)),
      (List.dropLast_append_getLast _).symm⟩
  rw [List.length_append, List.length_singleton] at hl
  have hpart : absorbAll n compress ⟨h, []⟩ l = ⟨h, [] ++ l⟩ :=
    absorbAll_of_lt (by rw [List.length_nil]; omega)
  rw [absorbAll_append, hpart]
  exact if_pos hl

/-- **Whole blocks are compressed one after the other.** -/
theorem absorbAll_flatten {h : θ} {l : List (List β)} (hn : 0 < n) (hl : ∀ b ∈ l, b.length = n) :
    absorbAll n compress ⟨h, []⟩ l.flatten = ⟨l.foldl (fun h b => compress b h) h, []⟩ := by
  induction l generalizing h with
  | nil => rfl
  | cons b l ih =>
    have hblock : absorbAll n compress ⟨h, []⟩ b = ⟨compress b h, []⟩ :=
      absorbAll_block hn (hl b List.mem_cons_self)
    rw [List.flatten_cons, absorbAll_append, hblock]
    exact ih fun b' hb' => hl b' (List.mem_cons_of_mem b hb')

end MerkleDamgard
