/-
# Machines that answer, and simulations between them.

A machine takes a state and a call to a next state and an answer. When a relation between two machines is kept by every call
legal for the second, with equal answers, whole runs of legal calls give the same answers and end in related states.
-/
import Mathlib.Tactic.Common

namespace Lotus.Lib.Simulation
variable {σ τ ι ο : Type*}

def outputs (step : σ → ι → σ × ο) : σ → List ι → List ο
  | _, [] => []
  | s, i :: is => (step s i).2 :: outputs step (step s i).1 is

def final (step : σ → ι → σ × ο) : σ → List ι → σ
  | s, [] => s
  | s, i :: is => final step (step s i).1 is

def LegalRun (step : σ → ι → σ × ο) (legal : σ → ι → Prop) : σ → List ι → Prop
  | _, [] => True
  | s, i :: is => legal s i ∧ LegalRun step legal (step s i).1 is

theorem final_invariant {step : σ → ι → σ × ο} {P : σ → Prop} (hst : ∀ s i, P s → P (step s i).1) {s : σ} (hs : P s)
    (is : List ι) : P (final step s is) := by
  induction is generalizing s with
  | nil => exact hs
  | cons i is ih => exact ih (hst s i hs)

/-- **Simulation.** Related machines answer alike along every run legal for the second, and stay related. -/
theorem simulation {step1 : σ → ι → σ × ο} {step2 : τ → ι → τ × ο} {legal : τ → ι → Prop} {R : σ → τ → Prop}
    (hstep : ∀ s t i, R s t → legal t i → R (step1 s i).1 (step2 t i).1 ∧ (step1 s i).2 = (step2 t i).2) {s : σ}
    {t : τ} {is : List ι} (hst : R s t) (hrun : LegalRun step2 legal t is) :
    outputs step1 s is = outputs step2 t is ∧ R (final step1 s is) (final step2 t is) := by
  induction is generalizing s t with
  | nil => exact ⟨rfl, hst⟩
  | cons i is ih =>
    obtain ⟨hre, hou⟩ := hstep s t i hst hrun.1
    obtain ⟨ho, hfi⟩ := ih hre hrun.2
    refine ⟨?_, hfi⟩
    rw [outputs, outputs, hou, ho]

end Lotus.Lib.Simulation
