import Mathlib.Data.List.Basic
import Mathlib.Tactic.Common

set_option relaxedAutoImplicit false
set_option autoImplicit false

/-!
# Walks in a tree of directories

A directory is the list of the names that lead to it from the root of a tree. The segments of a path
are moves: they stay, go up, or go down to a name. Going up at the root stays there.

Every walk climbs some levels and then goes down through some names, wherever it starts. This normal
form decides whether a walk ends below a given directory.

## Main definitions

* `Directory.Move`, `Directory.walk` — moves, and where they lead.
* `Directory.climb` — how many levels a walk climbs, and the names through which it goes down then.

## Main results

* `Directory.walk_eq` — a walk in terms of its normal form.
* `Directory.prefix_walk_iff` — when a walk ends below the directory that a first move leads to.
* `Directory.climb_of_no_up` — a walk that does not go up.
-/

namespace Directory

variable {N : Type*}

/-- A segment of a path. -/
inductive Move (N : Type*) where
  /-- An empty segment, or the directory itself. -/
  | stay
  /-- The directory above. -/
  | up
  /-- The entry of a name. -/
  | down (n : N)

/-- Where a move leads. -/
def move (dir : List N) : Move N → List N
  | .stay => dir
  | .up => dir.dropLast
  | .down n => dir ++ [n]

/-- Where moves lead. -/
def walk (dir : List N) (ms : List (Move N)) : List N := ms.foldl move dir

@[simp] lemma walk_nil (dir : List N) : walk dir [] = dir := rfl

@[simp] lemma walk_cons (dir : List N) (m : Move N) (ms : List (Move N)) :
    walk dir (m :: ms) = walk (move dir m) ms := rfl

lemma walk_append (dir : List N) (ms ms' : List (Move N)) :
    walk dir (ms ++ ms') = walk (walk dir ms) ms' := List.foldl_append

/-- One move of the normal form: the levels climbed, and the names behind them. -/
def climbMove (c : ℕ × List N) : Move N → ℕ × List N
  | .stay => c
  | .up => if c.2.isEmpty then (c.1 + 1, []) else (c.1, c.2.dropLast)
  | .down n => (c.1, c.2 ++ [n])

/-- The normal form of a walk: how many levels it climbs, and the names through which it goes down
then. -/
def climb (ms : List (Move N)) : ℕ × List N := ms.foldl climbMove (0, [])

/-- The directory that a normal form leads to. -/
def reached (dir : List N) (c : ℕ × List N) : List N := dir.take (dir.length - c.1) ++ c.2

lemma move_reached (dir : List N) (c : ℕ × List N) (m : Move N) :
    move (reached dir c) m = reached dir (climbMove c m) := by
  obtain ⟨d, ns⟩ := c
  cases m with
  | stay => rfl
  | down n => simp [move, reached, climbMove]
  | up =>
    rcases List.eq_nil_or_concat ns with rfl | ⟨ns', n, rfl⟩
    · simp only [move, reached, climbMove, List.append_nil, List.isEmpty_nil, if_true]
      rw [List.dropLast_eq_take, List.take_take, List.length_take]
      congr 1
      omega
    · simp [move, reached, climbMove]

/-- **A walk climbs some levels and then goes down.** -/
theorem walk_eq (dir : List N) (ms : List (Move N)) : walk dir ms = reached dir (climb ms) := by
  have hgen : ∀ (ms : List (Move N)) (c : ℕ × List N),
      walk (reached dir c) ms = reached dir (ms.foldl climbMove c) := by
    intro ms
    induction ms with
    | nil => intro c; rfl
    | cons m ms ih =>
      intro c
      rw [walk_cons, move_reached, ih, List.foldl_cons]
  have hstart : reached dir (0, []) = dir := by simp [reached]
  have h := hgen ms (0, [])
  rwa [hstart] at h

/-- **When a walk ends below the directory that a first move leads to**: the names of this directory
above which the walk climbs are the first ones through which it goes down. -/
theorem prefix_walk_iff (dir : List N) (m : Move N) (ms : List (Move N)) :
    move dir m <+: walk dir ms ↔
      (move dir m).drop (dir.length - (climb ms).1) <+: (climb ms).2 := by
  rw [walk_eq, reached]
  generalize hk : dir.length - (climb ms).1 = k
  have hle : k ≤ dir.length := by omega
  -- the two sides share the first `k` names
  have hshared : ∀ d : List N, d.take k = dir.take k → (d <+: dir.take k ++ (climb ms).2 ↔
      d.drop k <+: (climb ms).2) := by
    intro d hd
    conv_lhs => rw [← List.take_append_drop k d, hd]
    exact List.prefix_append_right_inj _
  cases m with
  | stay => exact hshared dir rfl
  | down n => exact hshared (dir ++ [n]) (List.take_append_of_le_length hle)
  | up =>
    by_cases hlt : k < dir.length
    · refine hshared dir.dropLast ?_
      rw [List.dropLast_eq_take, List.take_take]
      congr 1
      omega
    · have hdrop : dir.dropLast.drop k = [] :=
        List.drop_eq_nil_of_le (by rw [List.length_dropLast]; omega)
      have htake : dir.take k = dir := List.take_of_length_le (by omega)
      rw [move, hdrop, htake]
      exact iff_of_true ((List.dropLast_prefix dir).trans (List.prefix_append _ _)) List.nil_prefix

/-- A walk that does not go up climbs no level. -/
lemma climb_of_no_up {ms : List (Move N)} (h : Move.up ∉ ms) : (climb ms).1 = 0 := by
  have hgen : ∀ (ms : List (Move N)) (c : ℕ × List N), Move.up ∉ ms →
      (ms.foldl climbMove c).1 = c.1 := by
    intro ms
    induction ms with
    | nil => intro c _; rfl
    | cons m ms ih =>
      intro c hno
      rw [List.mem_cons, not_or] at hno
      rw [List.foldl_cons, ih _ hno.2]
      cases m with
      | stay => rfl
      | down n => rfl
      | up => exact absurd rfl hno.1
  exact hgen ms (0, []) h

end Directory
