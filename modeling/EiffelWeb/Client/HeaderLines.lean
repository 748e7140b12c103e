import Mathlib.Data.List.Basic
import Mathlib.Tactic.Common
import EiffelWeb.Client.Response

set_option relaxedAutoImplicit false
set_option autoImplicit false

/-!
# Reading an arbitrary header

The loop of `headers` reads any text that a server sends as a header. An iteration skips the white
space before a line, finds the end of the line, and looks for a colon. It leaves the text if there
is only white space from its position on, or behind the colon, and if the last line has no end; it
starts again at the first line if the last line is a single character without an end.

So reading ends if and only if the text ends with a line that is not blank and has its end, whose
first colon is not its last character but white space.

## Main definitions

* `EndsInHeaderLine` — the last line of the text is complete.
* `ColonEnds` — the first colon of a line ends the line, white space apart.

## Main results

* `headerStep_eq_none_of_colonEnds`, `headerStep_of_not_colonEnds`, `headerStep_open` — one
  iteration.
* `endsInHeaderLine_append` — the last line does not depend on the lines before it.
* `headers_return_iff`
-/

namespace EiffelWeb

/-- Behind the first colon there is only white space. -/
def ColonEnds (s : String8) : Prop :=
  ∃ u w, s = u ++ ch ':' :: w ∧ ch ':' ∉ u ∧ ∀ c ∈ w, isSpace c = true

/-- The text is empty or ends with the end of a line. -/
def Closed (a : String8) : Prop := a = [] ∨ ∃ b, a = b ++ [10]

/-- The text ends with a line that is not blank and whose first colon does not end it. -/
def EndsInHeaderLine (s : String8) : Prop :=
  ∃ a line, s = a ++ (line ++ [10]) ∧ Closed a ∧ 10 ∉ line ∧ (∃ c ∈ line, isSpace c = false) ∧
    ¬ ColonEnds line

/-! ## White space and colons -/

/-- Text is blank, or has a first character that is not white space. -/
lemma blank_or_first (s : String8) :
    (∀ c ∈ s, isSpace c = true) ∨
      ∃ w x r, s = w ++ x :: r ∧ (∀ c ∈ w, isSpace c = true) ∧ isSpace x = false := by
  induction s with
  | nil => exact Or.inl (by simp)
  | cons y s ih =>
    cases hy : isSpace y with
    | false => exact Or.inr ⟨[], y, s, rfl, by simp, hy⟩
    | true =>
      rcases ih with h | ⟨w, x, r, rfl, hw, hx⟩
      · exact Or.inl (List.forall_mem_cons.mpr ⟨hy, h⟩)
      · exact Or.inr ⟨y :: w, x, r, rfl, List.forall_mem_cons.mpr ⟨hy, hw⟩, hx⟩

/-- Text that is not blank has a last character that is not white space. -/
lemma exists_last_of_not_blank {s : String8} (h : ∃ c ∈ s, isSpace c = false) :
    ∃ u x w, s = u ++ x :: w ∧ isSpace x = false ∧ ∀ c ∈ w, isSpace c = true := by
  rcases blank_or_first s.reverse with hall | ⟨w, x, r, hs, hw, hx⟩
  · obtain ⟨c, hc, hvisible⟩ := h
    rw [hall c (List.mem_reverse.mpr hc)] at hvisible
    cases hvisible
  · refine ⟨r.reverse, x, w.reverse, ?_, hx, fun c hc => hw c (List.mem_reverse.mp hc)⟩
    rw [← List.reverse_reverse s, hs]
    simp

/-- A line that starts with another character than white space is not blank. -/
lemma exists_visible_of_cons {x : Character8} {r line rest : String8} (hx : isSpace x = false)
    (hr : x :: r = line ++ 10 :: rest) : ∃ c ∈ line, isSpace c = false := by
  cases line with
  | nil =>
    rw [List.nil_append, List.cons.injEq] at hr
    exact absurd hx (by rw [hr.1]; decide)
  | cons y t =>
    rw [List.cons_append, List.cons.injEq] at hr
    exact ⟨y, List.mem_cons_self, hr.1 ▸ hx⟩

lemma not_colonEnds_of_notMem {s : String8} (h : ch ':' ∉ s) : ¬ ColonEnds s := by
  rintro ⟨u, w, rfl, -, -⟩
  exact h (by simp)

lemma colonEnds_iff {u s : String8} (hu : ch ':' ∉ u) :
    ColonEnds (u ++ ch ':' :: s) ↔ ∀ c ∈ s, isSpace c = true := by
  constructor
  · rintro ⟨u', w, heq, hu', hw⟩
    have htake := congrArg (List.takeWhile (· ≠ ch ':')) heq
    rw [Text.takeWhile_ne hu, Text.takeWhile_ne hu'] at htake
    subst htake
    obtain ⟨-, rfl⟩ := List.cons.inj (List.append_cancel_left heq)
    exact hw
  · intro hs
    exact ⟨u, s, rfl, hu, hs⟩

/-- White space before a text does not matter. -/
lemma colonEnds_blank_append {w : String8} (hw : ∀ c ∈ w, isSpace c = true) (s : String8) :
    ColonEnds (w ++ s) ↔ ColonEnds s := by
  have hcolon : ch ':' ∉ w := fun hmem => absurd (hw _ hmem) (by decide)
  rcases Text.notMem_or_split (ch ':') s with hs | ⟨u, t, rfl, hu⟩
  · have hall : ch ':' ∉ w ++ s := by
      rw [List.mem_append, not_or]
      exact ⟨hcolon, hs⟩
    exact iff_of_false (not_colonEnds_of_notMem hall) (not_colonEnds_of_notMem hs)
  · have hall : ch ':' ∉ w ++ u := by
      rw [List.mem_append, not_or]
      exact ⟨hcolon, hu⟩
    rw [← List.append_assoc, colonEnds_iff hall, colonEnds_iff hu]

/-- Nor does the end of the line. -/
lemma colonEnds_append_end (s : String8) : ColonEnds (s ++ [10]) ↔ ColonEnds s := by
  have hend : isSpace 10 = true := by decide
  rcases Text.notMem_or_split (ch ':') s with hs | ⟨u, t, rfl, hu⟩
  · have hall : ch ':' ∉ s ++ [10] := by
      rw [List.mem_append, not_or]
      exact ⟨hs, by decide⟩
    exact iff_of_false (not_colonEnds_of_notMem hall) (not_colonEnds_of_notMem hs)
  · rw [List.append_assoc, List.cons_append, colonEnds_iff hu, colonEnds_iff hu]
    simp only [List.mem_append, List.mem_singleton, or_imp, forall_and, forall_eq, hend, and_true]

/-- The colon that ends a text is in its last part, if that is not blank. -/
lemma ColonEnds.of_append {b s : String8} (h : ColonEnds (b ++ s))
    (hs : ∃ c ∈ s, isSpace c = false) : ColonEnds s := by
  rcases Text.notMem_or_split (ch ':') b with hb | ⟨u, t, rfl, hu⟩
  · rcases Text.notMem_or_split (ch ':') s with hnot | ⟨u, t, rfl, hu⟩
    · have hall : ch ':' ∉ b ++ s := by
        rw [List.mem_append, not_or]
        exact ⟨hb, hnot⟩
      exact absurd h (not_colonEnds_of_notMem hall)
    · have hall : ch ':' ∉ b ++ u := by
        rw [List.mem_append, not_or]
        exact ⟨hb, hu⟩
      rw [← List.append_assoc, colonEnds_iff hall] at h
      exact (colonEnds_iff hu).mpr h
  · rw [List.append_assoc, List.cons_append, colonEnds_iff hu] at h
    obtain ⟨c, hc, hvisible⟩ := hs
    rw [h c (List.mem_append_right t hc)] at hvisible
    cases hvisible

/-! ## The last line -/

/-- The last line does not depend on the lines before it. -/
lemma endsInHeaderLine_append {a u : String8} (ha : Closed a) (hu : u ≠ []) :
    EndsInHeaderLine (a ++ u) ↔ EndsInHeaderLine u := by
  constructor
  · rintro ⟨b, line, heq, hb, hline, hvisible, hcolon⟩
    rcases List.append_eq_append_iff.mp heq with ⟨c, rfl, hc⟩ | ⟨c, rfl, hc⟩
    · refine ⟨c, line, hc, ?_, hline, hvisible, hcolon⟩
      -- the part of the lines before that is behind `a`
      rcases List.eq_nil_or_concat c with rfl | ⟨c', y, rfl⟩
      · exact Or.inl rfl
      · rcases hb with hnil | ⟨d, hd⟩
        · simp at hnil
        · rw [List.concat_eq_append, ← List.append_assoc] at hd
          rw [List.concat_eq_append, (List.append_inj' hd rfl).2]
          exact Or.inr ⟨c', rfl⟩
    · rcases List.eq_nil_or_concat c with rfl | ⟨c', y, rfl⟩
      · rw [List.nil_append] at hc
        exact ⟨[], line, hc.symm, Or.inl rfl, hline, hvisible, hcolon⟩
      · -- the lines before `u` end inside the last line
        rcases ha with hnil | ⟨d, hd⟩
        · simp at hnil
        · rw [List.concat_eq_append, ← List.append_assoc] at hd
          obtain rfl : y = 10 := by simpa using (List.append_inj' hd rfl).2
          obtain ⟨u', z, rfl⟩ : ∃ u' z, u = u' ++ [z] := by
            rcases List.eq_nil_or_concat u with rfl | ⟨u', z, rfl⟩
            · exact absurd rfl hu
            · exact ⟨u', z, List.concat_eq_append⟩
          rw [← List.append_assoc] at hc
          have hline' := (List.append_inj' hc rfl).1
          exact absurd (by rw [hline']; simp) hline
  · rintro ⟨b, line, rfl, hb, hline, hvisible, hcolon⟩
    refine ⟨a ++ b, line, by rw [List.append_assoc], ?_, hline, hvisible, hcolon⟩
    rcases hb with rfl | ⟨d, rfl⟩
    · rw [List.append_nil]
      exact ha
    · exact Or.inr ⟨a ++ d, by rw [List.append_assoc]⟩

/-- In a text with a complete last line, the loop finds the values behind the colons. -/
lemma EndsInHeaderLine.not_colonEnds {w s : String8} (hw : ∀ c ∈ w, isSpace c = true)
    (h : EndsInHeaderLine (w ++ s)) : ¬ ColonEnds s := by
  intro hs
  obtain ⟨b, line, heq, -, -, hvisible, hcolon⟩ := h
  rw [← colonEnds_blank_append hw, heq, ← List.append_assoc, colonEnds_append_end] at hs
  exact hcolon (hs.of_append hvisible)

/-- White space, and a line with its end. -/
lemma endsInHeaderLine_of_line {w line : String8} (hw : ∀ c ∈ w, isSpace c = true)
    (hline : (10 : Character8) ∉ line) (hvisible : ∃ c ∈ line, isSpace c = false)
    (hcolon : ¬ ColonEnds line) : EndsInHeaderLine (w ++ (line ++ [10])) := by
  obtain ⟨c, hc, hc'⟩ := hvisible
  by_cases hmem : (10 : Character8) ∈ w
  · obtain ⟨b, v, rfl, hv⟩ := Text.exists_last_split hmem
    have hblank : ∀ c ∈ v, isSpace c = true := fun c hc => hw c (by simp [hc])
    refine ⟨b ++ [10], v ++ line, by simp, Or.inr ⟨b, rfl⟩, ?_,
      ⟨c, List.mem_append_right v hc, hc'⟩, ?_⟩
    · rw [List.mem_append, not_or]
      exact ⟨hv, hline⟩
    · rwa [colonEnds_blank_append hblank]
  · refine ⟨[], w ++ line, by simp, Or.inl rfl, ?_, ⟨c, List.mem_append_right w hc, hc'⟩, ?_⟩
    · rw [List.mem_append, not_or]
      exact ⟨hmem, hline⟩
    · rwa [colonEnds_blank_append hw]

/-! ## One iteration -/

section Step

variable {h a w r : String8} {x : Character8} {pos : ℤ} {tb : List (String8 × String8)}

/-- Only white space is left. -/
lemma headerStep_blank (hpos : pos = a.length + 1) (hw : ∀ c ∈ w, isSpace c = true) :
    headerStep (a ++ w) (pos, tb) = none := by
  simp only [headerStep, skipSpaces_eq_none a hpos hw]
  rfl

/-- The last line has no end: the loop leaves the text, or starts again. -/
lemma headerStep_open (hpos : pos = a.length + 1) (hw : ∀ c ∈ w, isSpace c = true)
    (hx : isSpace x = false) (hr : (10 : Character8) ∉ x :: r) :
    headerStep (a ++ (w ++ x :: r)) (pos, tb) = if r = [] then some (1, tb) else none := by
  have hstart := skipSpaces_eq a r hpos hw hx
  have hend : Text.indexOf (a ++ (w ++ x :: r)) 10 ((a.length : ℤ) + w.length + 1) = 0 := by
    rw [← List.append_assoc]
    exact Text.indexOf_eq_zero (a ++ w) (x :: r) (by simp) hr
  have hlen : ((a ++ (w ++ x :: r)).length : ℤ) = a.length + w.length + 1 + r.length := by
    simp only [List.length_append, List.length_cons]
    push_cast
    ring
  simp only [headerStep, hstart, Option.bind_eq_bind, Option.bind_some, hend, lt_irrefl, if_false]
  by_cases hnil : r = []
  · have hlast : ¬ (a.length : ℤ) + w.length + 1 < (a ++ (w ++ x :: r)).length := by
      rw [hlen, hnil]
      simp
    rw [if_neg hlast, if_pos hnil]
    rfl
  · have hpos' : 0 < r.length := List.length_pos_of_ne_nil hnil
    have hback : skipSpacesBack (a ++ (w ++ x :: r)) (((a ++ (w ++ x :: r)).length : ℤ) + 1) =
        none := by
      unfold skipSpacesBack Text.validIndex
      exact if_neg (by omega)
    rw [if_pos (by omega), if_pos (by omega), hback, if_neg hnil]
    rfl

/-- A line with its end, up to the search for the value. -/
lemma headerStep_line_eq {line rest : String8} (hpos : pos = a.length + 1)
    (hw : ∀ c ∈ w, isSpace c = true) (hx : isSpace x = false)
    (hr : x :: r = line ++ 10 :: rest) (hline : (10 : Character8) ∉ line) :
    ∃ entry : ℤ → String8 × String8, headerStep (a ++ (w ++ x :: r)) (pos, tb) =
      let c := Text.indexOf (a ++ (w ++ x :: r)) (ch ':') (a.length + w.length + 1)
      let next := (a.length : ℤ) + w.length + line.length + 2
      if 0 < c then
        (skipSpaces (a ++ (w ++ x :: r)) (c + 1)).map fun c => (next, tb ++ [entry c])
      else some (next, tb) := by
  have hstart := skipSpaces_eq a r hpos hw hx
  have hend : Text.indexOf (a ++ (w ++ x :: r)) 10 ((a.length : ℤ) + w.length + 1) =
      a.length + w.length + line.length + 1 := by
    have hindex := Text.indexOf_eq (a ++ w) line rest rfl hline
    rw [← hr, List.append_assoc, List.length_append, Nat.cast_add] at hindex
    exact hindex
  have hvisible := exists_visible_of_cons hx hr
  have hlen : 0 < line.length := by
    obtain ⟨c, hc, -⟩ := hvisible
    exact List.length_pos_of_mem hc
  -- the line is not blank, so that the search for its last character ends
  obtain ⟨e, hback⟩ : ∃ e, skipSpacesBack (a ++ (w ++ x :: r))
      (a.length + w.length + line.length + 1 - 1) = some e := by
    obtain ⟨u, y, z, rfl, hy, hz⟩ := exists_last_of_not_blank hvisible
    have hcut : (a.length : ℤ) + w.length + (u ++ y :: z).length + 1 - 1 =
        (a ++ w ++ u).length + 1 + z.length := by
      simp only [List.length_append, List.length_cons]
      push_cast
      ring
    have hsplit : a ++ (w ++ x :: r) = a ++ w ++ u ++ y :: (z ++ 10 :: rest) := by
      rw [hr]
      simp
    exact ⟨_, by rw [hcut, hsplit]; exact skipSpacesBack_eq _ _ rfl hz hy⟩
  have hnext : (a.length : ℤ) + w.length + line.length + 1 + 1 =
      a.length + w.length + line.length + 2 := by ring
  simp only [headerStep, hstart, Option.bind_eq_bind, Option.bind_some, hend]
  rw [if_pos (by omega), if_pos (by omega), hback, Option.bind_some]
  simp only [hnext, Option.map_eq_bind]
  exact ⟨fun c => (_, Text.substring _ c e), rfl⟩

/-- **A line with its end**: the loop leaves the text if the first colon from the line on has only
white space behind it. -/
lemma headerStep_eq_none_of_colonEnds {line rest : String8} (hpos : pos = a.length + 1)
    (hw : ∀ c ∈ w, isSpace c = true) (hx : isSpace x = false)
    (hr : x :: r = line ++ 10 :: rest) (hline : (10 : Character8) ∉ line)
    (hcolon : ColonEnds (x :: r)) : headerStep (a ++ (w ++ x :: r)) (pos, tb) = none := by
  obtain ⟨entry, heq⟩ := @headerStep_line_eq a w r x pos tb line rest hpos hw hx hr hline
  obtain ⟨u, s, hu, hnot, hs⟩ := hcolon
  have hindex := Text.indexOf_eq (a ++ w) u s rfl hnot
  have hskip := @skipSpaces_eq_none (a ++ w ++ u ++ [ch ':']) s
    ((a ++ w).length + u.length + 1 + 1) (by simp [add_assoc]) hs
  rw [← hu, List.append_assoc, List.length_append, Nat.cast_add] at hindex
  have hsplit : a ++ w ++ u ++ [ch ':'] ++ s = a ++ (w ++ x :: r) := by
    rw [hu]
    simp
  rw [hsplit, List.length_append, Nat.cast_add] at hskip
  rw [heq]
  simp only [hindex, hskip, Option.map_none]
  exact if_pos (by omega)

/-- **A line with its end**: the loop continues behind the line otherwise. -/
lemma headerStep_of_not_colonEnds {line rest : String8} (hpos : pos = a.length + 1)
    (hw : ∀ c ∈ w, isSpace c = true) (hx : isSpace x = false)
    (hr : x :: r = line ++ 10 :: rest) (hline : (10 : Character8) ∉ line)
    (hcolon : ¬ ColonEnds (x :: r)) :
    ∃ tb', headerStep (a ++ (w ++ x :: r)) (pos, tb) =
      some ((a.length : ℤ) + w.length + line.length + 2, tb') := by
  obtain ⟨entry, heq⟩ := @headerStep_line_eq a w r x pos tb line rest hpos hw hx hr hline
  rcases Text.notMem_or_split (ch ':') (x :: r) with hnot | ⟨u, s, hu, hnot⟩
  · have hindex := Text.indexOf_eq_zero (a ++ w) (x :: r) rfl hnot
    rw [List.append_assoc, List.length_append, Nat.cast_add] at hindex
    refine ⟨tb, ?_⟩
    rw [heq]
    simp only [hindex, lt_irrefl, if_false]
  · rw [hu, colonEnds_iff hnot] at hcolon
    rcases blank_or_first s with hall | ⟨v, y, t, hs, hv, hy⟩
    · exact absurd hall hcolon
    · have hindex := Text.indexOf_eq (a ++ w) u s rfl hnot
      have hskip := @skipSpaces_eq (a ++ w ++ u ++ [ch ':']) t v y
        ((a ++ w).length + u.length + 1 + 1) (by simp [add_assoc]) hv hy
      rw [← hu, List.append_assoc, List.length_append, Nat.cast_add] at hindex
      have hsplit : a ++ w ++ u ++ [ch ':'] ++ (v ++ y :: t) = a ++ (w ++ x :: r) := by
        rw [hu, hs]
        simp
      rw [hsplit, List.length_append, Nat.cast_add] at hskip
      rw [heq]
      simp only [hindex, hskip, Option.map_some]
      exact ⟨_, if_pos (by omega)⟩

end Step

/-! ## The loop -/

/-- A position that is not behind the text: something is left. -/
lemma headerLineLoop_exit_iff {a u : String8} {pos : ℤ} (hpos : pos = a.length + 1)
    (tb : List (String8 × String8)) :
    (headerLineLoop (a ++ u)).exit (pos, tb) = true ↔ u = [] := by
  simp only [headerLineLoop, Bool.or_eq_true, decide_eq_true_eq, List.length_append]
  rw [← List.length_eq_zero_iff]
  omega

/-- **Reading ends** if the last line is complete. -/
lemma headerLineLoop_terminates {h : String8} (hh : h = [] ∨ EndsInHeaderLine h) :
    (headerLineLoop h).Terminates (1, []) := by
  let I : ℤ × List (String8 × String8) → Prop := fun st =>
    ∃ a u, h = a ++ u ∧ st.1 = a.length + 1 ∧ (u = [] ∨ EndsInHeaderLine u)
  have hstep : ∀ st, I st → (headerLineLoop h).exit st = false →
      ∃ st', (headerLineLoop h).body st = some st' ∧ I st' ∧
        (h.length + 1 - st'.1).toNat < (h.length + 1 - st.1).toNat := by
    rintro ⟨pos, tb⟩ ⟨a, u, rfl, hpos, hu⟩ hexit
    have hne : u ≠ [] := fun hnil =>
      absurd ((headerLineLoop_exit_iff hpos tb).mpr hnil) (by simp [hexit])
    have hends := hu.resolve_left hne
    rcases blank_or_first u with hblank | ⟨w, x, r, rfl, hw, hx⟩
    · obtain ⟨b, line, rfl, -, -, ⟨c, hc, hc'⟩, -⟩ := hends
      rw [hblank c (by simp [hc])] at hc'
      cases hc'
    · have hcolon := hends.not_colonEnds hw
      obtain ⟨line, rest, hr, hline⟩ : ∃ line rest, x :: r = line ++ 10 :: rest ∧ 10 ∉ line := by
        rcases Text.notMem_or_split (10 : Character8) (x :: r) with hnot | hsplit
        · obtain ⟨b, line, heq, -⟩ := hends
          have hlast := congrArg List.getLast? heq
          rw [List.getLast?_append_cons, ← List.append_assoc, List.getLast?_concat] at hlast
          exact absurd (List.mem_of_getLast? hlast) hnot
        · exact hsplit
      obtain ⟨tb', hbody⟩ := @headerStep_of_not_colonEnds a w r x pos tb line rest hpos hw hx hr
        hline hcolon
      have hcut : a ++ (w ++ x :: r) = (a ++ (w ++ line ++ [10])) ++ rest := by
        rw [hr]
        simp
      have hlen : ((a ++ (w ++ line ++ [10])).length : ℤ) =
          a.length + w.length + line.length + 1 := by
        simp only [List.length_append, List.length_singleton]
        push_cast
        ring
      refine ⟨_, hbody, ⟨_, rest, hcut, by rw [hlen]; ring, ?_⟩, ?_⟩
      · by_cases hrest : rest = []
        · exact Or.inl hrest
        · have hclosed : Closed (w ++ line ++ [10]) := Or.inr ⟨_, rfl⟩
          right
          rw [← endsInHeaderLine_append hclosed hrest]
          have hsame : w ++ line ++ [10] ++ rest = w ++ x :: r := by
            rw [hr]
            simp
          rw [hsame]
          exact hends
      · have htotal := congrArg List.length hcut
        have hle : (a ++ (w ++ line ++ [10])).length ≤
            (a ++ (w ++ line ++ [10]) ++ rest).length :=
          (List.prefix_append _ rest).length_le
        omega
  obtain ⟨st, hrun, -⟩ := Loop.run_of_variant I (fun st => (h.length + 1 - st.1).toNat) hstep
    (s := (1, [])) ⟨[], h, rfl, rfl, hh⟩ le_rfl
  exact ⟨_, by rw [hrun]; rfl⟩

/-- **Reading does not end** if the last line is not complete: the loop leaves the text, or comes
back to the first line. -/
lemma not_headerLineLoop_terminates {h : String8} (hne : h ≠ []) (hh : ¬ EndsInHeaderLine h) :
    ¬ (headerLineLoop h).Terminates (1, []) := by
  let I : ℤ × List (String8 × String8) → Prop := fun st =>
    ∃ a u, h = a ++ u ∧ st.1 = a.length + 1 ∧ Closed a ∧ u ≠ [] ∧ ¬ EndsInHeaderLine u
  have hfirst (tb : List (String8 × String8)) : I (1, tb) := ⟨[], h, rfl, rfl, Or.inl rfl, hne, hh⟩
  refine Loop.not_terminates_of_invariant I ?_ (hfirst [])
  rintro ⟨pos, tb⟩ ⟨a, u, hcut, hpos, ha, hu, hends⟩
  refine ⟨?_, fun st' hbody => ?_⟩
  · rw [hcut, Bool.eq_false_iff, ne_eq, headerLineLoop_exit_iff hpos]
    exact hu
  · have hstep : headerStep (a ++ u) (pos, tb) = some st' := by
      rw [← hcut]
      exact hbody
    rcases blank_or_first u with hblank | ⟨w, x, r, rfl, hw, hx⟩
    · rw [headerStep_blank hpos hblank] at hstep
      cases hstep
    · rcases Text.notMem_or_split (10 : Character8) (x :: r) with hnot | ⟨line, rest, hr, hline⟩
      · rw [headerStep_open hpos hw hx hnot] at hstep
        split at hstep
        · rw [← Option.some.inj hstep]
          exact hfirst tb
        · cases hstep
      · by_cases hcolon : ColonEnds (x :: r)
        · rw [headerStep_eq_none_of_colonEnds hpos hw hx hr hline hcolon] at hstep
          cases hstep
        · obtain ⟨tb', heq⟩ := @headerStep_of_not_colonEnds a w r x pos tb line rest hpos hw hx hr
            hline hcolon
          rw [heq] at hstep
          have hrest : rest ≠ [] := by
            rintro rfl
            -- the text would end with this line
            have hvisible := exists_visible_of_cons hx hr
            rw [hr, colonEnds_append_end] at hcolon
            rw [hr] at hends
            exact hends (endsInHeaderLine_of_line hw hline hvisible hcolon)
          have hclosed : Closed (w ++ line ++ [10]) := Or.inr ⟨_, rfl⟩
          have hsame : w ++ line ++ [10] ++ rest = w ++ x :: r := by
            rw [hr]
            simp
          refine ⟨a ++ (w ++ line ++ [10]), rest, ?_, ?_, ?_, hrest, ?_⟩
          · rw [hcut, List.append_assoc, hsame]
          · rw [← Option.some.inj hstep]
            simp only [List.length_append, List.length_singleton]
            push_cast
            ring
          · exact Or.inr ⟨a ++ (w ++ line), by simp⟩
          · rw [← endsInHeaderLine_append hclosed hrest, hsame]
            exact hends

/-- **Reading any header.** For every text that is set as the header of a response, `headers`
returns, with all positions inside the text, if and only if the text is empty or its last line is
not blank, has its end, and has other characters than white space behind its first colon. -/
theorem headers_return_iff (res : ClientResponse) (h : String8) :
    (∃ fuel, ((res.setRawHeader h).headers fuel).isSome = true) ↔ h = [] ∨ EndsInHeaderLine h := by
  have hrun : (∃ fuel, ((res.setRawHeader h).headers fuel).isSome = true) ↔
      (headerLineLoop h).Terminates (1, []) := by
    unfold Loop.Terminates
    simp [ClientResponse.headers, ClientResponse.setRawHeader]
  rw [hrun]
  constructor
  · intro hterm
    by_contra hnot
    rw [not_or] at hnot
    exact not_headerLineLoop_terminates hnot.1 hnot.2 hterm
  · exact headerLineLoop_terminates

/-- A header whose only line has no end. -/
theorem not_headers_return_open_line :
    ¬ ∀ (res : ClientResponse) (h : String8),
      ∃ fuel, ((res.setRawHeader h).headers fuel).isSome = true := by
  intro hall
  obtain ⟨fuel, hfuel⟩ := hall {} (str "A: b")
  have hbody : headerStep (str "A: b") (1, []) = none := by decide
  have hexit : (headerLineLoop (str "A: b")).exit (1, []) = false := by decide
  have hrun : (headerLineLoop (str "A: b")).run fuel (1, []) = none := by
    cases fuel with
    | zero => simp [Loop.run, hexit]
    | succ n =>
      rw [Loop.run_succ_of_not_exit hexit]
      have hnone : (headerLineLoop (str "A: b")).body (1, []) = none := hbody
      rw [hnone]
      rfl
  simp [ClientResponse.headers, ClientResponse.setRawHeader, hrun] at hfuel

end EiffelWeb
