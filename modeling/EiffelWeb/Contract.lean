import Mathlib.Tactic.Common

set_option relaxedAutoImplicit false
set_option autoImplicit false

/-!
# Routines with require clauses

A routine changes a state and calls other routines on it. Every routine has a require clause; the
clauses are not monitored, so that a call whose clause is violated runs all the same. A routine is
modelled by the state it leaves and by whether the clauses of all calls made on the way held.

An interface is a family of such routines. A client calls them one after the other; a client that
keeps to a protocol makes only calls the protocol permits in the current state.

## Main definitions

* `Routine` — the state afterwards, and whether the clauses held.
* `Routine.update`, `Routine.andThen`, `Routine.call` — the building blocks.
* `Routine.Correct` — from the states in `P` all clauses hold and the routine ends in `Q`.
* `Routine.run`, `Routine.Permitted` — the calls of a client.

## Main results

* `Routine.Correct.andThen`, `Routine.Correct.call` — the rules for the building blocks.
* `Routine.run_correct` — the invariant rule for the calls of a client.
-/

/-- A routine over states `σ`: the state afterwards, and whether the require clauses of the calls
it makes held. -/
def Routine (σ : Type*) := σ → σ × Bool

namespace Routine

variable {σ ι : Type*}

/-- An assignment. -/
def update (f : σ → σ) : Routine σ := fun s => (f s, true)

/-- `p; q`. -/
def andThen (p q : Routine σ) : Routine σ := fun s =>
  ((q (p s).1).1, (p s).2 && (q (p s).1).2)

/-- A call of the routine with the body `p` and the require clause `req`. -/
def call (req : σ → Bool) (p : Routine σ) : Routine σ := fun s => ((p s).1, req s && (p s).2)

/-- From a state in `P` the clauses of all calls hold, and the routine ends in `Q`. -/
def Correct (P : σ → Prop) (p : Routine σ) (Q : σ → Prop) : Prop :=
  ∀ s, P s → (p s).2 = true ∧ Q (p s).1

lemma correct_update {P Q : σ → Prop} {f : σ → σ} (h : ∀ s, P s → Q (f s)) :
    Correct P (update f) Q :=
  fun s hs => ⟨rfl, h s hs⟩

lemma Correct.andThen {P R Q : σ → Prop} {p q : Routine σ} (hp : Correct P p R)
    (hq : Correct R q Q) : Correct P (p.andThen q) Q := by
  intro s hs
  obtain ⟨hok, hr⟩ := hp s hs
  obtain ⟨hok', hq'⟩ := hq _ hr
  exact ⟨by simp [Routine.andThen, hok, hok'], hq'⟩

lemma Correct.call {P Q : σ → Prop} {p : Routine σ} (hp : Correct P p Q) {req : σ → Bool}
    (hreq : ∀ s, P s → req s = true) : Correct P (p.call req) Q := by
  intro s hs
  obtain ⟨hok, hq⟩ := hp s hs
  exact ⟨by simp [Routine.call, hreq s hs, hok], hq⟩

lemma Correct.mono {P P' Q Q' : σ → Prop} {p : Routine σ} (h : Correct P p Q)
    (hP : ∀ s, P' s → P s) (hQ : ∀ s, Q s → Q' s) : Correct P' p Q' := by
  intro s hs
  obtain ⟨hok, hq⟩ := h s (hP s hs)
  exact ⟨hok, hQ _ hq⟩

/-! ## The calls of a client -/

/-- The calls `cs` one after the other, where `exec` executes a call. -/
def run (exec : ι → Routine σ) : List ι → Routine σ
  | [] => update id
  | c :: cs => (exec c).andThen (run exec cs)

/-- Every call is permitted in the state it is made in. -/
def Permitted (permits : ι → σ → Prop) (exec : ι → Routine σ) : List ι → σ → Prop
  | [], _ => True
  | c :: cs, s => permits c s ∧ Permitted permits exec cs (exec c s).1

/-- The calls up to some point are permitted if all are. -/
lemma Permitted.of_append {permits : ι → σ → Prop} {exec : ι → Routine σ} {cs ds : List ι} {s : σ}
    (h : Permitted permits exec (cs ++ ds) s) : Permitted permits exec cs s := by
  induction cs generalizing s with
  | nil => trivial
  | cons c cs ih => exact ⟨h.1, ih h.2⟩

/-- **The invariant rule**: if a permitted call meets all clauses and keeps the invariant, which
may depend on the calls made so far, a client with permitted calls meets all clauses and keeps the
invariant. -/
theorem run_correct {permits : ι → σ → Prop} {exec : ι → Routine σ} {I : List ι → σ → Prop}
    (hstep : ∀ cs c, Correct (fun s => I cs s ∧ permits c s) (exec c) (I (cs ++ [c])))
    {cs ds : List ι} {s : σ} (hI : I cs s) (hp : Permitted permits exec ds s) :
    (run exec ds s).2 = true ∧ I (cs ++ ds) (run exec ds s).1 := by
  induction ds generalizing cs s with
  | nil =>
    rw [List.append_nil]
    exact ⟨rfl, hI⟩
  | cons c ds ih =>
    obtain ⟨hc, hds⟩ := hp
    obtain ⟨hok, hI'⟩ := hstep cs c s ⟨hI, hc⟩
    obtain ⟨hoks, hI''⟩ := ih hI' hds
    rw [show cs ++ c :: ds = cs ++ [c] ++ ds by simp]
    exact ⟨by simp [run, andThen, hok, hoks], hI''⟩

end Routine
