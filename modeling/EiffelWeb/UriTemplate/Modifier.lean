import EiffelWeb.UriTemplate.Expression

set_option relaxedAutoImplicit false
set_option autoImplicit false

/-!
# Prefix and remainder modifiers

`modified_string` under the modifiers `:n` and `^n`. For a positive `n` the one keeps the first `n`
characters and the other the characters behind them, but both leave a string of at most `n`
characters as it is. For a negative `n` the substring that `:n` takes starts behind the end of the
string.

## Main definitions

* `ExpressionVariable.withModifier` — a variable with a modifier and its number.
* `ExpressionVariable.Splits` — the two modifiers split a string.

## Main results

* `ExpressionVariable.toInteger?_integerOut` — the number is read back.
* `ExpressionVariable.splits_iff` — when the two modifiers split a string.
-/

namespace EiffelWeb.ExpressionVariable

/-- The variable with the modifier `m` and the number `n`. -/
def withModifier (v : ExpressionVariable) (m : Char) (n : ℤ) : ExpressionVariable :=
  { v with modifier := some (ch m :: integerOut n) }

/-! ## The number of a modifier -/

/-- The characters of a number are a sign and digits. -/
lemma mem_integerOut {n : ℤ} {c : Character8} (h : c ∈ integerOut n) :
    c = ch '-' ∨ isDigit c = true := by
  rw [integerOut] at h
  split at h
  · rcases List.mem_cons.mp h with rfl | h
    · exact Or.inl rfl
    · exact Or.inr (isDigit_of_mem_natOut h)
  · exact Or.inr (isDigit_of_mem_natOut h)

lemma isDigit_ne : ∀ c : Character8, isDigit c = true →
    c ≠ ch ' ' ∧ c ≠ ch '-' ∧ c ≠ ch '+' ∧ charDiff c (ch '0') = (c.toNat - 48 : ℕ) :=
  forall_character8 (by decide +kernel)

/-- A number has no blanks to cut off. -/
lemma adjust_integerOut (n : ℤ) :
    Text.rightAdjust (fun c => decide (c = ch ' '))
      (Text.leftAdjust (fun c => decide (c = ch ' ')) (integerOut n)) = integerOut n := by
  have hblank : ∀ c ∈ integerOut n, c ≠ ch ' ' := by
    intro c hc
    rcases mem_integerOut hc with rfl | hd
    · decide
    · exact (isDigit_ne c hd).1
  have hleft : Text.leftAdjust (fun c => decide (c = ch ' ')) (integerOut n) = integerOut n := by
    rw [Text.leftAdjust, List.dropWhile_eq_self_iff]
    intro hlen
    simpa using hblank _ (List.getElem_mem hlen)
  rw [hleft, Text.rightAdjust, List.rdropWhile_eq_self_iff]
  intro hne
  simpa using hblank _ (List.getLast_mem hne)

/-- The value of the digits of a number. -/
lemma foldl_charDiff_natOut (n : ℕ) :
    (natOut n).foldl (fun k c => 10 * k + charDiff c (ch '0')) (0 : ℤ) = n := by
  have hfold : ∀ (l : String8) (k : ℕ), (∀ c ∈ l, isDigit c = true) →
      l.foldl (fun k c => 10 * k + charDiff c (ch '0')) (k : ℤ) =
        (l.foldl (fun k c => 10 * k + (c.toNat - 48)) k : ℕ) := by
    intro l
    induction l with
    | nil => intro k _; rfl
    | cons c l ih =>
      intro k hl
      have hc := (isDigit_ne c (hl c List.mem_cons_self)).2.2.2
      have hstep : 10 * (k : ℤ) + charDiff c (ch '0') = (10 * k + (c.toNat - 48) : ℕ) := by
        rw [hc]
        push_cast
        rfl
      rw [List.foldl_cons, List.foldl_cons, hstep]
      exact ih _ fun d hd => hl d (List.mem_cons_of_mem c hd)
  have hread := hfold (natOut n) 0 fun c hc => isDigit_of_mem_natOut hc
  rw [foldl_natOut] at hread
  exact hread

/-- **The number of a modifier is read back** if it is in the range of `INTEGER_32`. -/
lemma toInteger?_integerOut (n : ℤ) :
    toInteger? (integerOut n) = if -2 ^ 31 ≤ n ∧ n < 2 ^ 31 then some n else none := by
  have hdigits : (natOut n.natAbs).all isDigit = true :=
    List.all_eq_true.mpr fun c hc => isDigit_of_mem_natOut hc
  have hne := natOut_ne_nil n.natAbs
  have hvalue := foldl_charDiff_natOut n.natAbs
  have hadjust := adjust_integerOut n
  unfold toInteger?
  dsimp only
  rw [hadjust, integerOut]
  by_cases hn : n < 0
  · have habs : -1 * (n.natAbs : ℤ) = n := by omega
    rw [if_pos hn]
    simp only [if_true, hvalue, habs, hne, hdigits, ne_eq, not_false_eq_true, true_and]
  · have habs : 1 * (n.natAbs : ℤ) = n := by omega
    rw [if_neg hn]
    obtain ⟨c, r, hout⟩ := List.exists_cons_of_ne_nil hne
    have hc := isDigit_ne c (isDigit_of_mem_natOut (hout ▸ List.mem_cons_self))
    rw [hout] at hdigits hvalue ⊢
    simp only [if_neg hc.2.1, if_neg hc.2.2.1, hvalue, habs, hdigits, ne_eq, reduceCtorEq,
      not_false_eq_true, true_and]

/-! ## The two modifiers -/

/-- A number out of the range of `INTEGER_32` leaves the string as it is. -/
lemma modifiedString_of_range (v : ExpressionVariable) (m : Char) {n : ℤ}
    (hn : ¬ (-2 ^ 31 ≤ n ∧ n < 2 ^ 31)) (s : String32) :
    (v.withModifier m n).modifiedString s = s := by
  have hread := toInteger?_integerOut n
  rw [if_neg hn] at hread
  simp only [modifiedString, withModifier, hread]
  split <;> rfl

lemma isEmpty_integerOut (n : ℤ) : (integerOut n).isEmpty = false := by
  have hne := natOut_ne_nil n.natAbs
  rw [integerOut]
  split
  · rfl
  · simpa using hne

/-- The substring modifier. -/
lemma modifiedString_substring (v : ExpressionVariable) {n : ℤ} (hn : -2 ^ 31 ≤ n ∧ n < 2 ^ 31)
    (s : String32) :
    (v.withModifier ':' n).modifiedString s =
      if 0 < n then (if n < s.length then Text.substring s 1 n else s)
      else if n < 0 then Text.substring s (s.length - n) s.length else s := by
  have hread := toInteger?_integerOut n
  rw [if_pos hn] at hread
  simp only [modifiedString, withModifier, hread, isEmpty_integerOut, Bool.false_eq_true, if_false,
    if_true]

/-- The remainder modifier. -/
lemma modifiedString_remainder (v : ExpressionVariable) {n : ℤ} (hn : -2 ^ 31 ≤ n ∧ n < 2 ^ 31)
    (s : String32) :
    (v.withModifier '^' n).modifiedString s =
      if 0 < n then (if n < s.length then Text.substring s (n + 1) s.length else s)
      else if n < 0 then Text.substring s 1 (s.length + n) else s := by
  have hread := toInteger?_integerOut n
  have hne : ch '^' ≠ ch ':' := by decide
  rw [if_pos hn] at hread
  simp only [modifiedString, withModifier, hread, isEmpty_integerOut, Bool.false_eq_true, if_false,
    if_neg hne, if_true]

/-- The two modifiers split the string: for a positive `n` into the first `n` characters and the
others, for a negative one into the last `-n` characters and those before them. -/
def Splits (v : ExpressionVariable) (n : ℤ) (s : String32) : Prop :=
  (0 < n →
    (v.withModifier ':' n).modifiedString s ++ (v.withModifier '^' n).modifiedString s = s ∧
    (v.withModifier ':' n).modifiedString s = s.take n.toNat) ∧
  (n < 0 → n.natAbs ≤ s.length →
    (v.withModifier '^' n).modifiedString s ++ (v.withModifier ':' n).modifiedString s = s ∧
    (v.withModifier ':' n).modifiedString s = s.drop (s.length - n.natAbs))

instance (v : ExpressionVariable) (n : ℤ) (s : String32) : Decidable (v.Splits n s) :=
  inferInstanceAs (Decidable (_ ∧ _))

/-- A positive number below the length splits the string. -/
lemma splits_of_lt (v : ExpressionVariable) {n : ℤ} {s : String32} (hpos : 0 < n)
    (hlt : n < s.length) (hs : s.length < 2 ^ 31) : v.Splits n s := by
  have hrange : -2 ^ 31 ≤ n ∧ n < 2 ^ 31 := by omega
  have hsplit := List.take_append_drop n.toNat s
  have hlen : (s.take n.toNat).length = n.toNat := List.length_take_of_le (by omega)
  have hfirst : Text.substring s 1 n = s.take n.toNat := by
    conv_lhs => rw [← hsplit]
    exact Text.substring_prefix _ _ (by omega)
  have hrest : Text.substring s (n + 1) s.length = s.drop n.toNat := by
    conv_lhs => rw [← hsplit]
    exact Text.substring_suffix _ _ (by omega) rfl
  refine ⟨fun _ => ?_, fun hneg => by omega⟩
  rw [modifiedString_substring v hrange, modifiedString_remainder v hrange, if_pos hpos,
    if_pos hlt, if_pos hpos, if_pos hlt, hfirst, hrest]
  exact ⟨hsplit, rfl⟩

/-- A string that is not longer than the number is left as it is by both modifiers. -/
lemma modifiedString_of_le (v : ExpressionVariable) {n : ℤ} {s : String32} (hpos : 0 < n)
    (hle : s.length ≤ n) :
    (v.withModifier ':' n).modifiedString s = s ∧ (v.withModifier '^' n).modifiedString s = s := by
  by_cases hrange : -2 ^ 31 ≤ n ∧ n < 2 ^ 31
  · have hnot : ¬ n < s.length := by omega
    rw [modifiedString_substring v hrange, modifiedString_remainder v hrange, if_pos hpos,
      if_neg hnot, if_pos hpos, if_neg hnot]
    exact ⟨rfl, rfl⟩
  · exact ⟨modifiedString_of_range v ':' hrange s, modifiedString_of_range v '^' hrange s⟩

/-- For a negative number the substring modifier takes nothing. -/
lemma modifiedString_neg (v : ExpressionVariable) {n : ℤ} {s : String32} (hneg : n < 0)
    (hle : n.natAbs ≤ s.length) (hs : s.length < 2 ^ 31) :
    (v.withModifier ':' n).modifiedString s = [] := by
  rw [modifiedString_substring v (by omega), if_neg (by omega), if_pos hneg]
  exact Text.substring_eq_nil_of_lt s (by omega)

/-- **The two modifiers split a string** if and only if the number is positive and below the length
of the string, or positive and the string is empty; or it is negative and exceeds the length, where
nothing is split. The length is an `INTEGER_32`. -/
theorem splits_iff (v : ExpressionVariable) (n : ℤ) (s : String32) (hn : n ≠ 0)
    (hs : s.length < 2 ^ 31) :
    v.Splits n s ↔ 0 < n ∧ (n < s.length ∨ s = []) ∨ n < 0 ∧ s.length < n.natAbs := by
  rcases lt_or_gt_of_ne hn with hneg | hpos
  · by_cases hle : n.natAbs ≤ s.length
    · have hnil := modifiedString_neg v hneg hle hs
      constructor
      · intro h
        have hlast := (h.2 hneg hle).2
        have hlen := congrArg List.length (hnil ▸ hlast)
        simp only [List.length_nil, List.length_drop] at hlen
        omega
      · rintro (⟨hpos, -⟩ | ⟨-, hlt⟩)
        · omega
        · omega
    · constructor
      · intro _
        exact Or.inr ⟨hneg, by omega⟩
      · intro _
        exact ⟨fun hpos => by omega, fun _ h => absurd h hle⟩
  · by_cases hlt : n < s.length
    · constructor
      · intro _
        exact Or.inl ⟨hpos, Or.inl hlt⟩
      · intro _
        exact splits_of_lt v hpos hlt hs
    · obtain ⟨hsub, hrem⟩ := @modifiedString_of_le v n s hpos (by omega)
      constructor
      · intro h
        have hboth := (h.1 hpos).1
        rw [hsub, hrem, List.append_right_eq_self] at hboth
        exact Or.inl ⟨hpos, Or.inr hboth⟩
      · rintro (⟨-, hlt' | rfl⟩ | ⟨hneg, -⟩)
        · exact absurd hlt' hlt
        · exact ⟨fun _ => ⟨by rw [hsub, hrem]; rfl, by rw [hsub]; simp⟩, fun hneg => by omega⟩
        · omega

/-- The first three characters of a string of five, and the others. -/
theorem splits_value : (ExpressionVariable.mk 0 (str "var") none 0 none).Splits 3
    (asString32 (str "value")) :=
  (splits_iff _ 3 _ (by decide) (by decide)).mpr (by decide)

/-- The last three characters of a string of five, and the first five. -/
theorem not_splits_value :
    ¬ (ExpressionVariable.mk 0 (str "var") none 0 none).Splits (-3) (asString32 (str "value")) ∧
      ¬ (ExpressionVariable.mk 0 (str "var") none 0 none).Splits 5
        (asString32 (str "value")) := by
  decide +kernel

end EiffelWeb.ExpressionVariable
