import Mathlib.Data.List.Basic
import Mathlib.Data.List.Induction
import Mathlib.Data.List.Nodup
import Mathlib.Tactic.Common

set_option relaxedAutoImplicit false
set_option autoImplicit false

/-!
# Hash tables

A hash table is the list of its entries in the order of iteration. `force` replaces the item
stored under a key in place, and adds a new entry at the end; keys are compared by value.

## Main definitions

* `HashTable`, `HashTable.item`, `HashTable.hasKey`, `HashTable.force`, `HashTable.remove`,
  `HashTable.keys`
* `HashTable.weight` — the sum of the weights of the items.

## Main results

* `HashTable.item_force_self`, `HashTable.item_force_of_ne` — reading after writing.
* `HashTable.mem_keys_force` — the keys after writing.
* `HashTable.item_foldl_force`, `HashTable.item_foldl_force_eq` — reading after writing a list of
  items.
* `HashTable.foldl_force_self` — the copy of a table.
* `HashTable.weight_force` — what writing does to the sum of the weights.
-/

/-- A hash table with items in `V` and keys in `K`, as the list of its entries. -/
abbrev HashTable (V K : Type*) := List (K × V)

namespace HashTable

variable {V K : Type*} [DecidableEq K]

/-- `t.item (k)`: the item stored under `k`, if any. -/
def item : HashTable V K → K → Option V
  | [], _ => none
  | (k', v) :: t, k => if k' = k then some v else item t k

/-- `t.has_key (k)`. -/
def hasKey (t : HashTable V K) (k : K) : Bool := (item t k).isSome

/-- `t.force (v, k)`: store `v` under `k`, replacing the item already there. -/
def force : HashTable V K → V → K → HashTable V K
  | [], v, k => [(k, v)]
  | (k', v') :: t, v, k => if k' = k then (k, v) :: t else (k', v') :: force t v k

/-- `t.remove (k)`. -/
def remove (t : HashTable V K) (k : K) : HashTable V K := t.filter fun e => e.1 ≠ k

/-- The keys, in the order of iteration. -/
def keys (t : HashTable V K) : List K := t.map Prod.fst

omit [DecidableEq K] in
@[simp] lemma keys_nil : keys ([] : HashTable V K) = [] := rfl

@[simp] lemma item_nil (k : K) : item ([] : HashTable V K) k = none := rfl

@[simp] lemma item_force_self (t : HashTable V K) (v : V) (k : K) :
    item (force t v k) k = some v := by
  induction t with
  | nil => simp [force, item]
  | cons e t ih =>
    obtain ⟨k', v'⟩ := e
    by_cases h : k' = k <;> simp [force, item, h, ih]

lemma item_force_of_ne (t : HashTable V K) (v : V) {k k' : K} (h : k' ≠ k) :
    item (force t v k) k' = item t k' := by
  induction t with
  | nil => simp [force, item, h.symm]
  | cons e t ih =>
    obtain ⟨k₀, v₀⟩ := e
    by_cases h₀ : k₀ = k
    · subst h₀
      simp [force, item, h.symm]
    · by_cases h₁ : k₀ = k'
      · subst h₁
        simp [force, item, h]
      · simp [force, item, h₀, h₁, ih]

lemma item_force (t : HashTable V K) (v : V) (k k' : K) :
    item (force t v k) k' = if k' = k then some v else item t k' := by
  split
  · next h => rw [h, item_force_self]
  · next h => exact item_force_of_ne t v h

lemma item_eq_none_iff {t : HashTable V K} {k : K} : item t k = none ↔ k ∉ keys t := by
  induction t with
  | nil => simp
  | cons e t ih =>
    obtain ⟨k', v'⟩ := e
    by_cases h : k' = k
    · simp [item, keys, h]
    · simp only [item, if_neg h, ih, keys, List.map_cons, List.mem_cons, not_or]
      exact ⟨fun hk => ⟨fun he => h he.symm, hk⟩, fun hk => hk.2⟩

lemma mem_keys_force {t : HashTable V K} {v : V} {k k' : K} :
    k' ∈ keys (force t v k) ↔ k' = k ∨ k' ∈ keys t := by
  have h : k' ∈ keys (force t v k) ↔ item (force t v k) k' ≠ none := by
    rw [ne_eq, item_eq_none_iff, not_not]
  rw [h, item_force]
  split
  · next he => simp [he]
  · next he => rw [ne_eq, item_eq_none_iff, not_not]; simp [he]

/-- After writing a list of items, a key holds one of the items written under it, or what it held
before if there is none. -/
lemma item_foldl_force {E : Type*} (f : E → V) (g : E → K) (l : List E) (t : HashTable V K)
    (k : K) :
    (∃ e ∈ l, g e = k ∧ item (l.foldl (fun t e => force t (f e) (g e)) t) k = some (f e)) ∨
      ((∀ e ∈ l, g e ≠ k) ∧
        item (l.foldl (fun t e => force t (f e) (g e)) t) k = item t k) := by
  induction l generalizing t with
  | nil => exact Or.inr ⟨by simp, rfl⟩
  | cons e l ih =>
    rw [List.foldl_cons]
    rcases ih (force t (f e) (g e)) with ⟨e', he', hk, hitem⟩ | ⟨hnot, hitem⟩
    · exact Or.inl ⟨e', List.mem_cons_of_mem e he', hk, hitem⟩
    · by_cases hk : g e = k
      · refine Or.inl ⟨e, List.mem_cons_self, hk, ?_⟩
        rw [hitem, ← hk, item_force_self]
      · refine Or.inr ⟨List.forall_mem_cons.mpr ⟨hk, hnot⟩, ?_⟩
        rw [hitem, item_force_of_ne t (f e) (Ne.symm hk)]

/-- After writing a list of items, a key holds the last item written under it, or what it held
before. -/
lemma item_foldl_force_eq {E : Type*} (f : E → V) (g : E → K) (l : List E) (t : HashTable V K)
    (k : K) :
    item (l.foldl (fun t e => force t (f e) (g e)) t) k =
      ((l.filter fun e => g e = k).getLast?.map f).or (item t k) := by
  induction l using List.reverseRecOn with
  | nil => rfl
  | append_singleton l e ih =>
    rw [List.foldl_concat, item_force, List.filter_append]
    by_cases hk : g e = k
    · simp [hk]
    · simp [hk, Ne.symm hk, ih]

lemma item_remove_self (t : HashTable V K) (k : K) : item (remove t k) k = none := by
  rw [item_eq_none_iff, keys, remove]
  intro h
  obtain ⟨e, he, hk⟩ := List.mem_map.mp h
  exact of_decide_eq_true (List.mem_filter.mp he).2 hk

/-- A new key is written at the end. -/
lemma force_of_notMem {t : HashTable V K} {k : K} (h : k ∉ keys t) (v : V) :
    force t v k = t ++ [(k, v)] := by
  induction t with
  | nil => rfl
  | cons e t ih =>
    obtain ⟨k', v'⟩ := e
    obtain ⟨hne, hnot⟩ : k ≠ k' ∧ k ∉ keys t := by simpa [keys] using h
    rw [force, if_neg hne.symm, ih hnot, List.cons_append]

lemma foldl_force_append {l t : HashTable V K} (h : (keys (t ++ l)).Nodup) :
    l.foldl (fun t e => force t e.2 e.1) t = t ++ l := by
  induction l generalizing t with
  | nil => simp
  | cons e l ih =>
    have hnot : e.1 ∉ keys t := by
      intro hmem
      rw [keys, List.map_append, List.nodup_append] at h
      exact h.2.2 e.1 hmem e.1 (List.mem_map_of_mem List.mem_cons_self) rfl
    have hsplit : t ++ e :: l = (t ++ [e]) ++ l := by simp
    rw [List.foldl_cons, force_of_notMem hnot, hsplit]
    exact ih (hsplit ▸ h)

/-- The copy of a table, which has every key once, is the table. -/
lemma foldl_force_self {t : HashTable V K} (h : (keys t).Nodup) :
    t.foldl (fun u e => force u e.2 e.1) [] = t :=
  foldl_force_append (t := []) h

/-! ## Weights -/

/-- The sum of the weights of the items. -/
def weight (w : V → ℕ) : HashTable V K → ℕ
  | [] => 0
  | (_, v) :: t => w v + weight w t

/-- Writing adds the weight of the new item and takes away that of the old one. -/
lemma weight_force (w : V → ℕ) (t : HashTable V K) (v : V) (k : K) :
    weight w (force t v k) + (item t k).elim 0 w = weight w t + w v := by
  induction t with
  | nil => simp [force, weight]
  | cons e t ih =>
    obtain ⟨k', v'⟩ := e
    by_cases h : k' = k
    · simp only [force, item, h, if_true, weight, Option.elim_some]
      omega
    · simp only [force, item, h, if_false, weight]
      omega

lemma le_weight_of_item {w : V → ℕ} {t : HashTable V K} {k : K} {v : V}
    (h : item t k = some v) : w v ≤ weight w t := by
  induction t with
  | nil => simp at h
  | cons e t ih =>
    obtain ⟨k', v'⟩ := e
    by_cases hk : k' = k
    · simp only [item, hk, if_true, Option.some.injEq] at h
      simp [weight, h]
    · simp only [item, hk, if_false] at h
      have := ih h
      simp only [weight]
      omega

end HashTable
