import EiffelWeb.Character
import EiffelWeb.Loop
import EiffelWeb.Text

set_option relaxedAutoImplicit false
set_option autoImplicit false

/-!
# Strings with one starting slash

The routine `single_slash_starting_string`, which `WGI_REQUEST_FROM_TABLE` has for `STRING_8` and
`WSF_REQUEST`, with the same text, for `STRING_32`. It is stated once, over an arbitrary character
type. A position outside the string makes the result `none`; the instruction `check` is not
monitored (a string of slashes only leaves the loop behind its end, where the condition is false).

## Main definitions

* `StartingSlash.singleSlashStartingString`
* `WsfRequest.singleSlashStartingString`

## Main results

* `StartingSlash.singleSlashStartingString_eq` — one slash for those at the start.
-/

namespace EiffelWeb

namespace StartingSlash

variable {α : Type} [DecidableEq α] (slash : α)

/-- The loop of `single_slash_starting_string`, over `i` and `n`. -/
def slashLoop (s : List α) : Loop (ℤ × ℤ) where
  exit st := decide (st.2 < st.1)
  body st := do
    let c ← Text.item? s st.1
    -- `n := 0` leaves the loop
    return if c ≠ slash then (st.1, 0) else (st.1 + 1, st.2)

/-- `single_slash_starting_string (s)`. -/
def singleSlashStartingString (s : List α) : Option (List α) :=
  let n : ℤ := s.length
  if n > 1 then do
    let c ← Text.item? s 1
    if c ≠ slash then
      return slash :: s
    else do
      let c ← Text.item? s 2
      if c = slash then do
        let st ← (slashLoop slash s).run s.length (3, n)
        return Text.substring s (st.1 - 1) s.length
      else
        return s
  else if n = 1 then do
    let c ← Text.item? s 1
    return if c = slash then s else slash :: s
  else
    some [slash]

variable {slash}

/-- The loop stops behind the slashes at its position. -/
lemma slashLoop_run {s a b : List α} {i : ℤ} (hs : s = a ++ b) (hi : i = a.length + 1)
    {f : ℕ} (hf : b.length ≤ f) :
    ∃ m, (slashLoop slash s).run f (i, s.length) =
      some (i + (b.takeWhile (· = slash)).length, m) := by
  induction b generalizing a i f with
  | nil =>
    have hexit : (slashLoop slash s).exit (i, s.length) = true := by
      simp [slashLoop, hs, hi]
    exact ⟨s.length, by simpa using Loop.run_of_exit hexit f⟩
  | cons c b ih =>
    obtain ⟨f, rfl⟩ : ∃ k, f = k + 1 := ⟨f - 1, by simp at hf; omega⟩
    have hlen : s.length = a.length + (b.length + 1) := by simp [hs]
    have hexit : (slashLoop slash s).exit (i, s.length) = false := by
      simp only [slashLoop, decide_eq_false_iff_not]
      omega
    have hitem : Text.item? s i = some c := by rw [hs, Text.item?_append_cons a c b hi]
    by_cases hc : c = slash
    · have hbody : (slashLoop slash s).body (i, s.length) = some (i + 1, (s.length : ℤ)) := by
        simp [slashLoop, hitem, hc]
      have hnext : i + 1 = (a ++ [c]).length + 1 := by
        rw [List.length_append, List.length_singleton]
        omega
      obtain ⟨m, hm⟩ := ih (a := a ++ [c]) (by simp [hs]) hnext (f := f) (by simpa using hf)
      refine ⟨m, ?_⟩
      rw [Loop.run_succ hexit hbody, hm, List.takeWhile_cons_of_pos (by simpa using hc),
        List.length_cons]
      push_cast
      rw [add_assoc, add_comm 1]
    · have hbody : (slashLoop slash s).body (i, s.length) = some (i, 0) := by
        simp [slashLoop, hitem, hc]
      have hstop : (slashLoop slash s).exit (i, 0) = true := by
        simp only [slashLoop, decide_eq_true_eq]
        omega
      refine ⟨0, ?_⟩
      rw [Loop.run_succ hexit hbody, Loop.run_of_exit hstop,
        List.takeWhile_cons_of_neg (by simpa using hc)]
      simp

/-- A text that starts with two slashes, cut before the last one. -/
lemma slashes_split (b : List α) :
    slash :: slash :: b =
      (slash :: b.takeWhile (· = slash)) ++ slash :: b.dropWhile (· = slash) := by
  induction b with
  | nil => rfl
  | cons c b ih =>
    by_cases hc : c = slash
    · rw [List.takeWhile_cons_of_pos (by simpa using hc),
        List.dropWhile_cons_of_pos (by simpa using hc), hc, List.cons_append, ← ih]
    · rw [List.takeWhile_cons_of_neg (by simpa using hc),
        List.dropWhile_cons_of_neg (by simpa using hc)]
      rfl

/-- **One slash for those at the start**; no position is outside the string.

**Proof sketch.** With two slashes at the start the loop stops behind them all
(`slashLoop_run`), and the substring is cut before the last one. -/
lemma singleSlashStartingString_eq (s : List α) :
    singleSlashStartingString slash s = some (slash :: s.dropWhile (· = slash)) := by
  unfold singleSlashStartingString
  match s with
  | [] => rfl
  | [c] =>
    by_cases hc : c = slash
    · simp [Text.item?, Text.validIndex, hc]
    · simp [Text.item?, Text.validIndex, hc]
  | c :: d :: b =>
    have hn : ((c :: d :: b).length : ℤ) > 1 := by
      simp only [List.length_cons]
      omega
    have hfirst : Text.item? (c :: d :: b) 1 = some c :=
      Text.item?_append_cons [] c (d :: b) rfl
    have hsecond : Text.item? (c :: d :: b) 2 = some d :=
      Text.item?_append_cons [c] d b rfl
    dsimp only
    rw [if_pos hn, hfirst, Option.bind_eq_bind, Option.bind_some]
    by_cases hc : c = slash
    · rw [if_neg (not_not.mpr hc), hsecond, Option.bind_eq_bind, Option.bind_some]
      by_cases hd : d = slash
      · obtain ⟨m, hm⟩ := slashLoop_run (s := c :: d :: b) (a := [c, d]) (b := b) (i := 3) rfl rfl
          (f := (c :: d :: b).length) (by simp only [List.length_cons]; omega)
        have hsub : Text.substring (c :: d :: b) (3 + (b.takeWhile (· = slash)).length - 1)
            (c :: d :: b).length = slash :: b.dropWhile (· = slash) := by
          rw [hc, hd, slashes_split b]
          refine Text.substring_suffix _ _ ?_ rfl
          rw [List.length_cons]
          push_cast
          ring
        rw [if_pos hd, hm, Option.bind_some]
        simpa [hc, hd] using hsub
      · rw [if_neg hd, hc, List.dropWhile_cons_of_pos (by simp),
          List.dropWhile_cons_of_neg (by simpa using hd)]
        rfl
    · rw [if_pos hc, List.dropWhile_cons_of_neg (by simpa using hc)]
      rfl

/-- A string with one starting slash stays as it is. -/
lemma singleSlashStartingString_idem (s : List α) :
    (singleSlashStartingString slash s).bind (singleSlashStartingString slash) =
      singleSlashStartingString slash s := by
  rw [singleSlashStartingString_eq, Option.bind_some, singleSlashStartingString_eq,
    List.dropWhile_cons_of_pos (by simp), List.dropWhile_idempotent]

end StartingSlash

/-- `{WSF_REQUEST}.single_slash_starting_string (s)`. -/
def WsfRequest.singleSlashStartingString (s : String32) : Option String32 :=
  StartingSlash.singleSlashStartingString (ch '/').toUInt32 s

end EiffelWeb
