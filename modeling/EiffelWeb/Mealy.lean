import Mathlib.Data.List.Basic
import Mathlib.Tactic.Common

set_option relaxedAutoImplicit false
set_option autoImplicit false

/-!
# Objects that are called again and again

An object with a state: a call with an input changes the state and gives an output. The outputs of a
sequence of calls depend on the state from which they start. A relation of the states of two objects
that every pair of calls keeps relates their outputs.

## Main definitions

* `Mealy.run` — the outputs of a sequence of calls.

## Main results

* `Mealy.run_zip_run` — an object that undoes what another one does.
-/

namespace Mealy

variable {σ τ ι κ ο ρ : Type*}

/-- The outputs of a sequence of calls. -/
def run (step : σ → ι → σ × ο) : σ → List ι → List ο
  | _, [] => []
  | s, i :: l => (step s i).2 :: run step (step s i).1 l

/-- **Undoing.** Every call of the first object is followed by a call of the second one, which has
the output of the first call as a part of its input. If a relation of the states is kept and the
second call gives back `f i`, the second object gives back `f` of all inputs. -/
theorem run_zip_run {step₁ : σ → ι → σ × ο} {step₂ : τ → ο × ι → τ × ρ} {f : ι → ρ}
    (R : σ → τ → Prop)
    (hstep : ∀ s t i, R s t → (step₂ t ((step₁ s i).2, i)).2 = f i ∧
      R (step₁ s i).1 (step₂ t ((step₁ s i).2, i)).1)
    {s : σ} {t : τ} (h : R s t) (l : List ι) :
    run step₂ t ((run step₁ s l).zip l) = l.map f := by
  induction l generalizing s t with
  | nil => rfl
  | cons i l ih =>
    obtain ⟨hout, hnext⟩ := hstep s t i h
    rw [run, List.zip_cons_cons, run, hout, ih hnext, List.map_cons]

end Mealy
