import Mathlib.Data.Nat.Notation
import Mathlib.Tactic.Common

set_option relaxedAutoImplicit false
set_option autoImplicit false

/-!
# `from … until … loop` loops

A loop over an explicit state: an exit test and a body. The body is partial, since a call made
inside it may fail or not return. `Loop.run` executes the loop with a bound on the number of
iterations; a loop terminates from a state when some bound is enough.

The rules below are those of total correctness: an invariant with a decreasing variant makes the
loop return a state satisfying the invariant and the exit test, and an invariant that excludes the
exit test makes it run forever.

## Main definitions

* `Loop` — an exit test and a partial body over a state type.
* `Loop.run` — bounded execution.
* `Loop.Terminates` — some bound is enough.
* `Loop.Reaches` — the states at the head of the loop.

## Main results

* `Loop.run_mono` — more fuel does not change a result.
* `Loop.Reaches.invariant`, `Loop.run_invariant` — the invariant rule of partial correctness.
* `Loop.run_of_variant` — the invariant and variant rule.
* `Loop.not_terminates_of_invariant` — an invariant that excludes the exit test.
-/

/-- A loop `from … until exit loop body end` over states `σ`. The body yields `none` when a call
it makes does not return. -/
structure Loop (σ : Type*) where
  /-- The exit test of the `until` clause. -/
  exit : σ → Bool
  /-- One execution of the `loop` clause. -/
  body : σ → Option σ

namespace Loop

variable {σ : Type*} (l : Loop σ)

/-- Execution with at most `n` iterations; `none` when the exit test was not reached. -/
def run : ℕ → σ → Option σ
  | 0, s => if l.exit s then some s else none
  | n + 1, s => if l.exit s then some s else (l.body s).bind (run n)

/-- The loop reaches its exit test from `s`. -/
def Terminates (s : σ) : Prop := ∃ n, (l.run n s).isSome

variable {l}

lemma run_of_exit {s : σ} (h : l.exit s = true) (n : ℕ) : l.run n s = some s := by
  cases n <;> simp [run, h]

lemma run_succ_of_not_exit {s : σ} (h : l.exit s = false) (n : ℕ) :
    l.run (n + 1) s = (l.body s).bind (l.run n) := by
  simp [run, h]

/-- One iteration of a loop whose body returns. -/
lemma run_succ {s s' : σ} (h : l.exit s = false) (hb : l.body s = some s') (n : ℕ) :
    l.run (n + 1) s = l.run n s' := by
  rw [run_succ_of_not_exit h, hb, Option.bind_some]

/-- A result reached with some fuel is reached with any larger fuel. -/
lemma run_mono {n m : ℕ} (hnm : n ≤ m) {s r : σ} (h : l.run n s = some r) :
    l.run m s = some r := by
  induction n generalizing m s with
  | zero =>
    by_cases he : l.exit s
    · rw [run_of_exit he] at h ⊢
      exact h
    · simp [run, he] at h
  | succ n ih =>
    obtain ⟨m, rfl⟩ : ∃ k, m = k + 1 := ⟨m - 1, by omega⟩
    by_cases he : l.exit s
    · rw [run_of_exit he] at h ⊢
      exact h
    · have he' : l.exit s = false := by simpa using he
      rw [run_succ_of_not_exit he'] at h ⊢
      obtain ⟨s', hb, hr⟩ := Option.bind_eq_some_iff.mp h
      rw [hb, Option.bind_some]
      exact ih (by omega) hr

/-- The states the loop passes at its head when it starts in `s`. -/
inductive Reaches (l : Loop σ) (s : σ) : σ → Prop where
  /-- The start. -/
  | refl : Reaches l s s
  /-- One more iteration. -/
  | step {s₁ s₂ : σ} (h : Reaches l s s₁) (he : l.exit s₁ = false) (hb : l.body s₁ = some s₂) :
      Reaches l s s₂

/-- An invariant of the body holds in every state the loop passes. -/
lemma Reaches.invariant {I : σ → Prop}
    (hstep : ∀ s s', I s → l.exit s = false → l.body s = some s' → I s')
    {s s' : σ} (h : l.Reaches s s') (hI : I s) : I s' := by
  induction h with
  | refl => exact hI
  | step _ he hb ih => exact hstep _ _ ih he hb

/-- A result is a state the loop passes, and satisfies the exit test. -/
lemma reaches_of_run {n : ℕ} {s₀ s s' : σ} (h₀ : l.Reaches s₀ s) (h : l.run n s = some s') :
    l.Reaches s₀ s' ∧ l.exit s' = true := by
  induction n generalizing s with
  | zero =>
    by_cases he : l.exit s
    · rw [run_of_exit he, Option.some.injEq] at h
      exact h ▸ ⟨h₀, he⟩
    · simp [run, he] at h
  | succ n ih =>
    by_cases he : l.exit s
    · rw [run_of_exit he, Option.some.injEq] at h
      exact h ▸ ⟨h₀, he⟩
    · have he' : l.exit s = false := by simpa using he
      rw [run_succ_of_not_exit he'] at h
      obtain ⟨s₁, hb, hr⟩ := Option.bind_eq_some_iff.mp h
      exact ih (h₀.step he' hb) hr

/-- **Partial correctness**: an invariant of the body holds of the result. -/
lemma run_invariant {I : σ → Prop}
    (hstep : ∀ s s', I s → l.exit s = false → l.body s = some s' → I s')
    {n : ℕ} {s s' : σ} (hI : I s) (h : l.run n s = some s') : I s' ∧ l.exit s' = true := by
  obtain ⟨hr, he⟩ := reaches_of_run Reaches.refl h
  exact ⟨hr.invariant hstep hI, he⟩

/-- **Total correctness**: if every iteration from a state satisfying `I` returns a state
satisfying `I` with a smaller variant, the loop returns a state satisfying `I` and its exit test,
within as many iterations as the variant.

**Proof sketch.** Induction on the fuel: the variant bounds it from below at every iteration. -/
theorem run_of_variant (I : σ → Prop) (v : σ → ℕ)
    (hstep : ∀ s, I s → l.exit s = false → ∃ s', l.body s = some s' ∧ I s' ∧ v s' < v s)
    {n : ℕ} {s : σ} (hI : I s) (hv : v s ≤ n) :
    ∃ s', l.run n s = some s' ∧ I s' ∧ l.exit s' = true := by
  induction n generalizing s with
  | zero =>
    by_cases he : l.exit s
    · exact ⟨s, run_of_exit he 0, hI, he⟩
    · obtain ⟨s', -, -, hlt⟩ := hstep s hI (by simpa using he)
      omega
  | succ n ih =>
    by_cases he : l.exit s
    · exact ⟨s, run_of_exit he _, hI, he⟩
    · have he' : l.exit s = false := by simpa using he
      obtain ⟨s', hb, hI', hlt⟩ := hstep s hI he'
      rw [run_succ he' hb]
      exact ih hI' (by omega)

/-- **Divergence**: an invariant under which the exit test fails and which the body keeps makes
the loop run forever. -/
theorem not_terminates_of_invariant (I : σ → Prop)
    (hstep : ∀ s, I s → l.exit s = false ∧ ∀ s', l.body s = some s' → I s')
    {s : σ} (hI : I s) : ¬ l.Terminates s := by
  rintro ⟨n, hn⟩
  induction n generalizing s with
  | zero => simp [run, (hstep s hI).1] at hn
  | succ n ih =>
    obtain ⟨he, hkeep⟩ := hstep s hI
    rw [run_succ_of_not_exit he] at hn
    cases hb : l.body s with
    | none => simp [hb] at hn
    | some s' =>
      rw [hb, Option.bind_some] at hn
      exact ih (hkeep s' hb) hn

end Loop
