import Mathlib.Data.List.Basic
import Mathlib.Tactic.Common
import EiffelWeb.UriTemplate.Pattern

set_option relaxedAutoImplicit false
set_option autoImplicit false

/-!
# The inner loops of the matcher

The two loops that read the text of a variable: `next_path_variable_value`, and the loop of `match`
over the segments of `{/v}`. They work with positions in the URI; here they are described on the
text of the URI from their position on, and the loops are shown to follow the descriptions.

## Main definitions

* `segment` — the text of `{v}`.
* `pathRead` — the text, the segments and the rest of `{/v}`.

## Main results

* `nextPathVariableValue_eq` — the value of a variable is the segment at its position.
* `nextPathVariableValue_longest` — which is the longest text without a stop.
* `pathLoop_run` — the loop over the segments follows `pathRead`.
-/

namespace EiffelWeb.UriTemplate

/-! ## The text of a variable -/

/-- The end token starts at the text `c :: r`. -/
def tokenStarts (separator : Option String8) (c : Character8) (r : String8) : Bool :=
  match separator with
  | none => false
  | some [] => c = 0
  | some t => t.isPrefixOf (c :: r)

/-- The value of a variable ends before `c :: r`. -/
def stops (separator : Option String8) (c : Character8) (r : String8) : Bool :=
  c = ch '/' || c = ch '?' || tokenStarts separator c r

/-- The text up to a slash, a question mark or the separator. -/
def segment (separator : Option String8) : String8 → String8
  | [] => []
  | c :: r => if stops separator c r then [] else c :: segment separator r

lemma segment_isPrefix (separator : Option String8) (U : String8) :
    segment separator U ++ U.drop (segment separator U).length = U := by
  induction U with
  | nil => rfl
  | cons c r ih =>
    rw [segment]
    split
    · rfl
    · simpa using ih

lemma tokenAt_eq (a : String8) (c : Character8) (r : String8) (separator : Option String8)
    {i : ℤ} (hi : i = a.length + 1) :
    tokenAt (a ++ c :: r) separator i c = tokenStarts separator c r := by
  rcases separator with _ | _ | ⟨x, t⟩
  · rfl
  · simp [tokenAt, tokenStarts, Text.substring]
  · simp only [tokenAt, tokenStarts]
    rw [Bool.eq_iff_iff, Bool.and_eq_true, decide_eq_true_eq, decide_eq_true_eq,
      List.isPrefixOf_iff_prefix]
    constructor
    · rintro ⟨-, hs⟩
      rw [Text.substring] at hs
      split at hs
      · have hn : (i - 1).toNat = a.length := by omega
        rw [hn, List.drop_left] at hs
        exact hs ▸ List.take_prefix _ _
      · simp at hs
    · rintro ⟨s, hs⟩
      have hc : c = x := (List.cons.inj hs).1.symm
      refine ⟨hc, ?_⟩
      rw [← hs]
      exact Text.substring_eq a (x :: t) s hi (by simp [hi]; omega)

/-- The loop of `next_path_variable_value` moves `p` to the end of the value. -/
lemma valueLoop_run (separator : Option String8) (a U : String8) {i p : ℤ}
    (hi : i = a.length + 1) {fuel : ℕ} (hf : U.length < fuel) :
    (valueLoop (a ++ U) separator).run fuel (i, p) =
      some (((a ++ U).length : ℤ) + 1,
        if segment separator U = [] then p else a.length + (segment separator U).length) := by
  induction U generalizing a i p fuel with
  | nil =>
    rw [Loop.run_of_exit (by simp [valueLoop, hi])]
    simp [segment, hi]
  | cons c r ih =>
    obtain ⟨fuel, rfl⟩ : ∃ m, fuel = m + 1 := ⟨fuel - 1, by omega⟩
    have he : (valueLoop (a ++ c :: r) separator).exit (i, p) = false := by
      simp only [valueLoop, decide_eq_false_iff_not, List.length_append, List.length_cons]
      omega
    have hc : Text.item (a ++ c :: r) i = c := Text.item_append_cons a c r hi
    by_cases hstop : stops separator c r = true
    · have hbody : (valueLoop (a ++ c :: r) separator).body (i, p) =
          some (((a ++ c :: r).length : ℤ) + 1, p) := by
        have hor : c = ch '/' ∨ c = ch '?' ∨ tokenStarts separator c r = true := by
          simpa [stops, or_assoc] using hstop
        simp only [valueLoop, hc, tokenAt_eq a c r separator hi, if_pos hor]
      rw [Loop.run_succ he hbody, Loop.run_of_exit (by simp [valueLoop])]
      simp [segment, hstop]
    · have hbody : (valueLoop (a ++ c :: r) separator).body (i, p) = some (i + 1, i) := by
        have hor : ¬ (c = ch '/' ∨ c = ch '?' ∨ tokenStarts separator c r = true) := by
          simpa [stops, or_assoc] using hstop
        simp only [valueLoop, hc, tokenAt_eq a c r separator hi, if_neg hor]
      have hsplit : a ++ c :: r = (a ++ [c]) ++ r := by simp
      rw [Loop.run_succ he hbody, hsplit,
        ih (a ++ [c]) (by simp [hi]) (by simp only [List.length_cons] at hf; omega)]
      simp only [segment, hstop]
      by_cases hs : segment separator r = []
      · simp [hs, hi]
      · simp [hs]
        omega

/-- **The value of a variable** is the segment at its position. -/
lemma nextPathVariableValue_eq (separator : Option String8) (a U : String8) {i : ℤ}
    (hi : i = a.length + 1) :
    nextPathVariableValue (a ++ U) i separator = some (segment separator U) := by
  have hsub := Text.substring_eq a (segment separator U) (U.drop (segment separator U).length) hi
    rfl
  rw [segment_isPrefix] at hsub
  have hf : U.length < (a ++ U).length + 1 := by
    rw [List.length_append]
    omega
  rw [nextPathVariableValue, valueLoop_run separator a U hi hf, Option.map_some]
  by_cases hs : segment separator U = []
  · rw [if_pos hs, hs, Text.substring_eq_nil_of_lt _ (by omega)]
  · rw [if_neg hs, hsub]

/-- A prefix of the text `U` without slashes and question marks, at none of whose positions the end
token starts. -/
structure IsValue (separator : Option String8) (U p : String8) : Prop where
  /-- It is a prefix. -/
  isPrefix : p <+: U
  /-- It has no slash. -/
  no_slash : ch '/' ∉ p
  /-- It has no question mark. -/
  no_question : ch '?' ∉ p
  /-- The end token does not start in it. -/
  no_token : ∀ t, separator = some t → ∀ k < p.length, ¬ t <+: U.drop k

/-- The end token that is not empty starts at a text. -/
lemma tokenStarts_iff {separator : Option String8} (h : separator ≠ some []) {c : Character8}
    {r : String8} :
    tokenStarts separator c r = true ↔ ∃ t, separator = some t ∧ t <+: c :: r := by
  rcases separator with _ | _ | ⟨x, t⟩
  · simp [tokenStarts]
  · exact absurd rfl h
  · simp only [tokenStarts, List.isPrefixOf_iff_prefix, Option.some.injEq]
    exact ⟨fun hp => ⟨_, rfl, hp⟩, fun ⟨_, ht, hp⟩ => ht ▸ hp⟩

lemma stops_iff {separator : Option String8} (h : separator ≠ some []) {c : Character8}
    {r : String8} :
    stops separator c r = true ↔
      c = ch '/' ∨ c = ch '?' ∨ ∃ t, separator = some t ∧ t <+: c :: r := by
  rw [stops, Bool.or_eq_true, Bool.or_eq_true, decide_eq_true_eq, decide_eq_true_eq,
    tokenStarts_iff h, or_assoc]

/-- The segment is such a prefix. -/
lemma isValue_segment {separator : Option String8} (h : separator ≠ some []) (U : String8) :
    IsValue separator U (segment separator U) := by
  induction U with
  | nil =>
    exact ⟨List.prefix_rfl, List.not_mem_nil, List.not_mem_nil,
      fun _ _ _ hk => absurd hk (Nat.not_lt_zero _)⟩
  | cons c r ih =>
    rw [segment]
    split
    · exact ⟨List.nil_prefix, List.not_mem_nil, List.not_mem_nil,
        fun _ _ _ hk => absurd hk (Nat.not_lt_zero _)⟩
    · next hstop =>
      rw [stops_iff h, not_or, not_or] at hstop
      obtain ⟨hslash, hquestion, htoken⟩ := hstop
      refine ⟨List.cons_prefix_cons.mpr ⟨rfl, ih.isPrefix⟩, ?_, ?_, fun t ht k hk hp => ?_⟩
      · rw [List.mem_cons, not_or]
        exact ⟨fun he => hslash he.symm, ih.no_slash⟩
      · rw [List.mem_cons, not_or]
        exact ⟨fun he => hquestion he.symm, ih.no_question⟩
      · cases k with
        | zero => exact htoken ⟨t, ht, hp⟩
        | succ k => exact ih.no_token t ht k (by simpa using hk) hp

/-- No such prefix is longer. -/
lemma IsValue.length_le {separator : Option String8} (h : separator ≠ some []) {U p : String8}
    (hp : IsValue separator U p) : p.length ≤ (segment separator U).length := by
  induction U generalizing p with
  | nil => rw [List.prefix_nil.mp hp.isPrefix]; exact Nat.zero_le _
  | cons c r ih =>
    cases p with
    | nil => exact Nat.zero_le _
    | cons d q =>
      obtain ⟨rfl, hq⟩ := List.cons_prefix_cons.mp hp.isPrefix
      have hgo : ¬ stops separator d r = true := by
        rw [stops_iff h]
        rintro (hd | hd | ⟨t, ht, hstart⟩)
        · exact hp.no_slash (hd ▸ List.mem_cons_self)
        · exact hp.no_question (hd ▸ List.mem_cons_self)
        · exact hp.no_token t ht 0 (Nat.succ_pos _) hstart
      have hrest : IsValue separator r q :=
        ⟨hq, fun hm => hp.no_slash (List.mem_cons_of_mem _ hm),
          fun hm => hp.no_question (List.mem_cons_of_mem _ hm),
          fun t ht k hk => hp.no_token t ht (k + 1) (Nat.succ_lt_succ hk)⟩
      rw [segment, if_neg hgo, List.length_cons, List.length_cons]
      exact Nat.succ_le_succ (ih hrest)

/-- **The value of a variable is maximal**: `next_path_variable_value` returns the longest text from
its index on that has no slash and no question mark, and in which the end token does not start. It
is empty if the first character is one of them, or the end token starts there. -/
theorem nextPathVariableValue_longest (aUri : String8) (aIndex : ℤ) (aEndToken : Option String8)
    (hindex : 1 ≤ aIndex) (hcount : aIndex ≤ aUri.length) (htoken : aEndToken ≠ some []) :
    ∃ r, nextPathVariableValue aUri aIndex aEndToken = some r ∧
      IsValue aEndToken (aUri.drop (aIndex - 1).toNat) r ∧
      (∀ p, IsValue aEndToken (aUri.drop (aIndex - 1).toNat) p → p.length ≤ r.length) ∧
      (Text.item? aUri aIndex = some (ch '/') ∨ Text.item? aUri aIndex = some (ch '?') ∨
        (∃ t, aEndToken = some t ∧ t <+: aUri.drop (aIndex - 1).toNat) → r = []) := by
  obtain ⟨n, rfl⟩ : ∃ n : ℕ, aIndex = n + 1 := ⟨(aIndex - 1).toNat, by omega⟩
  have hn : ((n : ℤ) + 1 - 1).toNat = n := by omega
  have hsplit : aUri.take n ++ aUri.drop n = aUri := List.take_append_drop n aUri
  have htake : (aUri.take n).length = n := List.length_take_of_le (by omega)
  have hrun := nextPathVariableValue_eq aEndToken (aUri.take n) (aUri.drop n) (i := (n : ℤ) + 1)
    (by rw [htake])
  rw [hsplit] at hrun
  rw [hn]
  refine ⟨_, hrun, isValue_segment htoken _, fun p hp => hp.length_le htoken, fun hstop => ?_⟩
  obtain ⟨c, rest, hc⟩ : ∃ c rest, aUri.drop n = c :: rest :=
    List.exists_cons_of_length_pos (by rw [List.length_drop]; omega)
  have hitem : Text.item? aUri ((n : ℤ) + 1) = some c := by
    rw [← hsplit, hc]
    exact Text.item?_append_cons _ _ _ (by rw [htake])
  rw [hitem, hc, Option.some.injEq, Option.some.injEq, ← stops_iff htoken] at hstop
  rw [hc, segment, if_pos hstop]

/-- The value ends before the end token, also where a slash follows later. -/
theorem nextPathVariableValue_longest_dot :
    ∃ r, nextPathVariableValue (str "/ab.xml/c") 2 (some (str ".x")) = some r ∧
      IsValue (some (str ".x")) (str "ab.xml/c") r :=
  let ⟨r, hr, hv, _⟩ := nextPathVariableValue_longest (str "/ab.xml/c") 2 (some (str ".x"))
    (by decide) (by decide) (by decide)
  ⟨r, hr, hv⟩

/-! ## The text of a path variable -/

/-- The segments with their slashes. -/
def joined (ss : List String8) : String8 := ss.flatMap fun s => ch '/' :: s

/-- The reading of `{/v}`: the text that is passed over, the segments in it, and the rest. A segment
is read behind the next character, whatever it is; reading ends with an empty segment, or when at
most one character is left. -/
def pathRead (separator : Option String8) : String8 → String8 × List String8 × String8
  | [] => ([], [], [])
  | [c] => ([], [], [c])
  | c :: d :: r =>
    let s := segment separator (d :: r)
    if s.isEmpty then ([c], [], d :: r)
    else
      let t := pathRead separator ((d :: r).drop s.length)
      (c :: (s ++ t.1), s :: t.2.1, t.2.2)
termination_by U => U.length
decreasing_by
  simp only [List.length_drop, List.length_cons]
  omega

/-- The table after the segments were stored, counting from `nb`. -/
def storeSegments (vn : String8) : (nb : ℕ) → List String8 → StringTable → StringTable
  | _, [], t => t
  | nb, s :: ss, t => storeSegments vn (nb + 1) ss (t.force s (segmentKey vn (nb + 1)))

lemma pathRead_blank {separator : Option String8} {c d : Character8} {r : String8}
    (h : segment separator (d :: r) = []) :
    pathRead separator (c :: d :: r) = ([c], [], d :: r) := by
  rw [pathRead]
  simp [h]

lemma pathRead_cons {separator : Option String8} {c d : Character8} {r s : String8}
    (hs : segment separator (d :: r) = s) (h : s ≠ []) :
    pathRead separator (c :: d :: r) =
      (c :: (s ++ (pathRead separator ((d :: r).drop s.length)).1),
        s :: (pathRead separator ((d :: r).drop s.length)).2.1,
        (pathRead separator ((d :: r).drop s.length)).2.2) := by
  rw [pathRead]
  simp [hs, h]

/-- The text that is passed over and the rest make up the text. -/
lemma pathRead_append (separator : Option String8) (U : String8) :
    (pathRead separator U).1 ++ (pathRead separator U).2.2 = U := by
  induction U using pathRead.induct separator with
  | case1 => simp [pathRead]
  | case2 c => simp [pathRead]
  | case3 c d r s hs =>
    rw [pathRead_blank (List.isEmpty_iff.mp hs)]
    rfl
  | case4 c d r s hs ih =>
    have hne : s ≠ [] := fun h => hs (List.isEmpty_iff.mpr h)
    rw [pathRead_cons (s := s) rfl hne, List.cons_append, List.append_assoc, ih]
    exact congrArg (c :: ·) (segment_isPrefix separator (d :: r))

/-- The loop over the segments ends behind an empty segment, and before the last character. -/
lemma pathLoop_exit (separator : Option String8) (vn : String8) (q : ℤ) (a U : String8)
    (st : PathState) (hq : q + st.offset = a.length + 1) :
    (pathLoop (a ++ U) q separator vn).exit st = (st.vv.isEmpty || decide (U.length ≤ 1)) := by
  have hlen : ((a ++ U).length : ℤ) < q + st.offset + 1 ↔ U.length ≤ 1 := by
    rw [List.length_append]
    omega
  simp only [pathLoop, hlen]

/-- One iteration of the loop over the segments. -/
lemma pathLoop_body (separator : Option String8) (vn : String8) (q : ℤ) (a : String8)
    (c : Character8) (r : String8) (st : PathState) (hq : q + st.offset = a.length + 1) :
    (pathLoop (a ++ c :: r) q separator vn).body st =
      some (if segment separator r = [] then
          { st with offset := st.offset + 1, nb := st.nb + 1, vv := [] }
        else
          ⟨st.offset + (segment separator r).length + 1, st.nb + 1,
            st.pathVv ++ ch '/' :: segment separator r, segment separator r,
            st.vars.force (segment separator r) (segmentKey vn (st.nb + 1))⟩) := by
  have hsplit : a ++ c :: r = (a ++ [c]) ++ r := by simp
  have hvalue : nextPathVariableValue (a ++ c :: r) (q + st.offset + 1) separator =
      some (segment separator r) := by
    rw [hsplit]
    exact nextPathVariableValue_eq separator _ r (by simp [hq])
  simp only [pathLoop, hvalue, Option.bind_eq_bind, Option.bind_some]
  by_cases hs : segment separator r = []
  · simp [hs]
  · simp [hs]

/-- **The loop over the segments** follows `pathRead`.

**Proof sketch.** Induction along `pathRead`; each iteration reads one segment, and the loop ends
where `pathRead` does. -/
lemma pathLoop_run (separator : Option String8) (vn : String8) (q : ℤ) (a U : String8)
    (st : PathState) (hq : q + st.offset = a.length + 1) (hvv : st.vv ≠ []) {fuel : ℕ}
    (hf : U.length ≤ fuel) :
    ∃ nb vv, (pathLoop (a ++ U) q separator vn).run fuel st =
      some ⟨st.offset + (pathRead separator U).1.length, nb,
        st.pathVv ++ joined (pathRead separator U).2.1, vv,
        storeSegments vn st.nb (pathRead separator U).2.1 st.vars⟩ := by
  induction U using pathRead.induct separator generalizing a st fuel with
  | case1 =>
    refine ⟨st.nb, st.vv, ?_⟩
    rw [Loop.run_of_exit (by rw [pathLoop_exit _ _ _ _ _ _ hq]; simp)]
    simp [pathRead, joined, storeSegments]
  | case2 c =>
    refine ⟨st.nb, st.vv, ?_⟩
    rw [Loop.run_of_exit (by rw [pathLoop_exit _ _ _ _ _ _ hq]; simp)]
    simp [pathRead, joined, storeSegments]
  | case3 c d r s hs =>
    have hblank : segment separator (d :: r) = [] := List.isEmpty_iff.mp hs
    obtain ⟨fuel, rfl⟩ : ∃ m, fuel = m + 1 := ⟨fuel - 1, by simp at hf; omega⟩
    have he : (pathLoop (a ++ c :: d :: r) q separator vn).exit st = false := by
      rw [pathLoop_exit _ _ _ _ _ _ hq]
      simp [hvv]
    have hbody := pathLoop_body separator vn q a c (d :: r) st hq
    rw [if_pos hblank] at hbody
    refine ⟨st.nb + 1, [], ?_⟩
    rw [Loop.run_succ he hbody, Loop.run_of_exit (by simp [pathLoop]), pathRead_blank hblank]
    simp [joined, storeSegments]
  | case4 c d r s hs ih =>
    have hne : segment separator (d :: r) ≠ [] := fun h => hs (List.isEmpty_iff.mpr h)
    obtain ⟨fuel, rfl⟩ : ∃ m, fuel = m + 1 := ⟨fuel - 1, by simp at hf; omega⟩
    have he : (pathLoop (a ++ c :: d :: r) q separator vn).exit st = false := by
      rw [pathLoop_exit _ _ _ _ _ _ hq]
      simp [hvv]
    have hbody := pathLoop_body separator vn q a c (d :: r) st hq
    rw [if_neg hne] at hbody
    -- the text splits behind the segment
    have hsplit : a ++ c :: d :: r = (a ++ c :: s) ++ (d :: r).drop s.length := by
      have hseg := segment_isPrefix separator (d :: r)
      rw [List.append_assoc, List.cons_append]
      exact congrArg (fun u => a ++ c :: u) hseg.symm
    have hfuel : ((d :: r).drop s.length).length ≤ fuel := by
      simp only [List.length_drop, List.length_cons] at hf ⊢
      omega
    obtain ⟨nb, vv, hrun⟩ := ih (a ++ c :: s)
      ⟨st.offset + s.length + 1, st.nb + 1, st.pathVv ++ ch '/' :: s, s,
        st.vars.force s (segmentKey vn (st.nb + 1))⟩
      (by simp; omega) hne hfuel
    refine ⟨nb, vv, ?_⟩
    rw [Loop.run_succ he hbody, pathRead_cons (s := s) rfl hne, hsplit, hrun]
    simp only [joined, storeSegments, List.flatMap_cons, List.length_cons, List.length_append,
      List.append_assoc, List.cons_append, Option.some.injEq, PathState.mk.injEq,
      and_true]
    push_cast
    omega

end EiffelWeb.UriTemplate
