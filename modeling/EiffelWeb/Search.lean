import Mathlib.Data.List.Basic
import Mathlib.Tactic.Common
import EiffelWeb.Text

set_option relaxedAutoImplicit false
set_option autoImplicit false

/-!
# Searching for a text in a text

The search of the kernel library for a whole text, over an arbitrary character type, with the
conventions of `Text`: positions start at `1` and a search that finds nothing yields `0`.

A format that separates its entries by a delimiter relies on two facts. Behind a character that
the delimiter does not have, the delimiter is found where it was put, unless the text before that
character has it already. And a delimiter that starts with copies of one character and has another
one is not found too early among such copies.

## Main definitions

* `Text.infixIndex` — the number of characters before the first occurrence.
* `Text.substringIndex` — the position of the first occurrence from a position on.

## Main results

* `Text.infixIndex_eq_none_iff`, `Text.exists_of_infixIndex` — what the search finds.
* `Text.infixIndex_append_cons`, `Text.infixIndex_of_break` — the search behind a break character.
* `Text.infixIndex_append` — the first occurrence does not depend on what follows.
* `Text.infixIndex_replicate` — the search behind copies of a character.
-/

namespace Text

variable {α : Type*}

/-! ## Prefixes -/

/-- A text without the character `c` is no prefix of a text in which `c` follows a text that does
not have it. -/
lemma not_prefix_of_break {p a b : List α} {c : α} (hc : c ∉ p) (h : ¬ p <:+: a) :
    ¬ p <+: a ++ c :: b := by
  rintro ⟨t, ht⟩
  rcases List.append_eq_append_iff.mp ht with ⟨l, rfl, -⟩ | ⟨l, rfl, hl⟩
  · exact h (List.prefix_append p l).isInfix
  · cases l with
    | nil => exact h (by simp)
    | cons y l =>
      rw [List.cons_append, List.cons.injEq] at hl
      exact hc (by simp [hl.1])

/-- A text that is a prefix of itself behind copies of `c` consists of copies of `c`. -/
lemma forall_eq_of_prefix_replicate {c : α} {k : ℕ} {p r : List α}
    (h : p <+: List.replicate (k + 1) c ++ (p ++ r)) : ∀ x ∈ p, x = c := by
  induction p with
  | nil => simp
  | cons y p ih =>
    rw [List.replicate_succ, List.cons_append, List.cons_prefix_cons] at h
    obtain ⟨rfl, h⟩ := h
    -- the first character of `p` continues the copies
    have hshift : List.replicate k y ++ (y :: p ++ r) = List.replicate (k + 1) y ++ (p ++ r) := by
      simp [List.replicate_succ']
    rw [hshift] at h
    simpa using ih h

/-! ## The search -/

variable [DecidableEq α]

/-- The number of characters before the first occurrence of `p`. -/
def infixIndex (p : List α) : List α → Option ℕ
  | [] => if p = [] then some 0 else none
  | x :: l => if p <+: x :: l then some 0 else (infixIndex p l).map (· + 1)

/-- `s.substring_index (p, i)`: the position of the first occurrence of `p` at or after `i`, `0` if
there is none. -/
def substringIndex (s p : List α) (i : ℤ) : ℤ :=
  match infixIndex p (s.drop (i - 1).toNat) with
  | some k => i + k
  | none => 0

/-! ## What the search finds -/

lemma infixIndex_cons_of_not {p l : List α} {x : α} (h : ¬ p <+: x :: l) :
    infixIndex p (x :: l) = (infixIndex p l).map (· + 1) := if_neg h

lemma infixIndex_eq_zero {p l : List α} (h : p <+: l) : infixIndex p l = some 0 := by
  cases l with
  | nil => exact if_pos (List.prefix_nil.mp h)
  | cons x l => exact if_pos h

/-- The search fails exactly on the texts that do not have `p`. -/
lemma infixIndex_eq_none_iff {p l : List α} : infixIndex p l = none ↔ ¬ p <:+: l := by
  induction l with
  | nil => simp [infixIndex]
  | cons x l ih =>
    by_cases h : p <+: x :: l
    · simp [infixIndex_eq_zero h, h.isInfix]
    · rw [infixIndex_cons_of_not h, Option.map_eq_none_iff, ih, List.infix_cons_iff]
      simp [h]

/-- What is found is an occurrence, and no occurrence starts before it. -/
lemma exists_of_infixIndex {p l : List α} {k : ℕ} (h : infixIndex p l = some k) :
    ∃ a b, l = a ++ (p ++ b) ∧ a.length = k ∧
      ∀ a' b', l = a' ++ (p ++ b') → k ≤ a'.length := by
  induction l generalizing k with
  | nil =>
    obtain rfl : p = [] := by
      by_contra hp
      simp [infixIndex, hp] at h
    simp only [infixIndex, if_true, Option.some.injEq] at h
    exact ⟨[], [], rfl, h, fun a' b' _ => by omega⟩
  | cons x l ih =>
    by_cases hp : p <+: x :: l
    · obtain ⟨b, hb⟩ := hp
      rw [infixIndex_eq_zero ⟨b, hb⟩, Option.some.injEq] at h
      exact ⟨[], b, hb.symm, h, fun a' b' _ => by omega⟩
    · rw [infixIndex_cons_of_not hp, Option.map_eq_some_iff] at h
      obtain ⟨k', hk', rfl⟩ := h
      obtain ⟨a, b, rfl, hlen, hmin⟩ := ih hk'
      refine ⟨x :: a, b, rfl, by simp [hlen], fun a' b' h' => ?_⟩
      cases a' with
      | nil => exact absurd ⟨b', h'.symm⟩ hp
      | cons y a' =>
        rw [List.cons_append, List.cons.injEq] at h'
        simpa using hmin a' b' h'.2

lemma exists_infixIndex {p l : List α} (h : p <:+: l) : ∃ k, infixIndex p l = some k := by
  cases hk : infixIndex p l with
  | none => exact absurd h (infixIndex_eq_none_iff.mp hk)
  | some k => exact ⟨k, rfl⟩

/-! ## Searching behind a break -/

/-- A search goes on behind a break, unless it succeeds before. -/
lemma infixIndex_append_cons {p a : List α} {c : α} (hc : c ∉ p) (h : ¬ p <:+: a) (l : List α) :
    infixIndex p (a ++ c :: l) = (infixIndex p l).map (a.length + 1 + ·) := by
  induction a with
  | nil =>
    rw [List.nil_append, infixIndex_cons_of_not (not_prefix_of_break (a := []) hc h)]
    simp [Nat.add_comm]
  | cons x a ih =>
    have hnot : ¬ p <+: x :: (a ++ c :: l) := not_prefix_of_break (a := x :: a) hc h
    rw [List.cons_append, infixIndex_cons_of_not hnot, ih fun h' => h (List.infix_cons h'),
      Option.map_map]
    congr 1
    funext k
    simp only [Function.comp_apply, List.length_cons]
    omega

/-- **Behind a break the delimiter is found where it was put**, unless it occurs before. -/
lemma infixIndex_of_break {p a b : List α} {c : α} (hc : c ∉ p) (h : ¬ p <:+: a) :
    infixIndex p (a ++ c :: (p ++ b)) = some (a.length + 1) := by
  rw [infixIndex_append_cons hc h, infixIndex_eq_zero (List.prefix_append p b)]
  rfl

/-- The first occurrence does not depend on what follows. -/
lemma infixIndex_append {p l : List α} {k : ℕ} (h : infixIndex p l = some k) (r : List α) :
    infixIndex p (l ++ r) = some k := by
  induction l generalizing k with
  | nil =>
    obtain rfl : p = [] := by
      by_contra hp
      simp [infixIndex, hp] at h
    rw [infixIndex_eq_zero List.nil_prefix] at h ⊢
    exact h
  | cons x l ih =>
    by_cases hp : p <+: x :: l
    · rw [infixIndex_eq_zero hp] at h
      rw [infixIndex_eq_zero (hp.trans (List.prefix_append _ _)), h]
    · rw [infixIndex_cons_of_not hp, Option.map_eq_some_iff] at h
      obtain ⟨k', hk', rfl⟩ := h
      have hnot : ¬ p <+: x :: (l ++ r) := by
        intro h'
        rw [← List.cons_append] at h'
        obtain ⟨a, b, rfl, -, -⟩ := exists_of_infixIndex hk'
        exact hp (List.prefix_of_prefix_length_le h' (List.prefix_append _ _)
          (by simp only [List.length_cons, List.length_append]; omega))
      rw [List.cons_append, infixIndex_cons_of_not hnot, ih hk']
      rfl

/-- A search passes over text without the first character of what it looks for. -/
lemma infixIndex_append_of_notMem {c : α} {p a : List α} (h : c ∉ a) (l : List α) :
    infixIndex (c :: p) (a ++ l) = (infixIndex (c :: p) l).map (a.length + ·) := by
  induction a with
  | nil => simp
  | cons x a ih =>
    simp only [List.mem_cons, not_or] at h
    have hnot : ¬ c :: p <+: x :: (a ++ l) := fun h' => h.1 (List.cons_prefix_cons.mp h').1
    rw [List.cons_append, infixIndex_cons_of_not hnot, ih h.2, Option.map_map]
    congr 1
    funext k
    simp only [Function.comp_apply, List.length_cons]
    omega

/-- A text that ends in its only `c` does not overlap itself: it is found where it was put, unless
it occurs before. -/
lemma infixIndex_of_last {q a : List α} {c : α} (hc : c ∉ q) (h : ¬ q ++ [c] <:+: a)
    (b : List α) : infixIndex (q ++ [c]) (a ++ (q ++ [c] ++ b)) = some a.length := by
  induction a with
  | nil => exact infixIndex_eq_zero (List.prefix_append _ _)
  | cons x a ih =>
    have hnot : ¬ q ++ [c] <+: x :: a ++ (q ++ [c] ++ b) := by
      rintro ⟨t, ht⟩
      rcases List.append_eq_append_iff.mp ht with ⟨l, hl, -⟩ | ⟨l, hl, hr⟩
      · exact h (hl ▸ (List.prefix_append _ l).isInfix)
      · rcases List.eq_nil_or_concat l with rfl | ⟨l, d, rfl⟩
        · exact h (by simp [hl])
        · -- the overlap ends in `c` and is a part of `q`
          rw [List.concat_eq_append] at hl hr
          rw [← List.append_assoc] at hl
          obtain ⟨rfl, hd⟩ := List.append_inj' hl rfl
          obtain rfl : c = d := by simpa using hd
          have hwhole : l ++ [c] <+: x :: a ++ l ++ [c] ++ b := ⟨t, hr.symm⟩
          have hpre : l ++ [c] <+: x :: a ++ l :=
            List.prefix_of_prefix_length_le hwhole ⟨[c] ++ b, by simp⟩ (by simp)
          exact hc (hpre.subset (by simp))
    rw [List.cons_append] at hnot ⊢
    rw [infixIndex_cons_of_not hnot, ih fun h' => h (List.infix_cons h')]
    rfl

/-! ## Searching behind copies of a character -/

/-- **Behind copies of `c` a text with another character is found where it was put.** -/
lemma infixIndex_replicate {c : α} {p : List α} (h : ∃ x ∈ p, x ≠ c) (k : ℕ) (r : List α) :
    infixIndex p (List.replicate k c ++ (p ++ r)) = some k := by
  induction k with
  | zero => exact infixIndex_eq_zero (List.prefix_append p r)
  | succ k ih =>
    have hnot : ¬ p <+: List.replicate (k + 1) c ++ (p ++ r) := by
      intro h'
      obtain ⟨x, hx, hne⟩ := h
      exact hne (forall_eq_of_prefix_replicate h' x hx)
    rw [List.replicate_succ, List.cons_append] at hnot ⊢
    rw [infixIndex_cons_of_not hnot, ih]
    rfl

/-! ## Positions at a cut -/

lemma substringIndex_eq {a l p : List α} {i : ℤ} {k : ℕ} (hi : i = a.length + 1)
    (h : infixIndex p l = some k) : substringIndex (a ++ l) p i = i + k := by
  have hn : (i - 1).toNat = a.length := by omega
  rw [substringIndex, hn, List.drop_left, h]

lemma substringIndex_eq_zero {a l p : List α} {i : ℤ} (hi : i = a.length + 1)
    (h : ¬ p <:+: l) : substringIndex (a ++ l) p i = 0 := by
  have hn : (i - 1).toNat = a.length := by omega
  rw [substringIndex, hn, List.drop_left, infixIndex_eq_none_iff.mpr h]

end Text
