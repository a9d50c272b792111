/-
# Labelled steps and runs.

A system is a partial function `step`. Nondeterminism is in the choice of the labels, so a statement about every
interleaving is one about every list of labels.
-/
import Mathlib.Tactic.Common

namespace Lotus.Lib.Lts
variable {σ ℓ : Type*} {step : σ → ℓ → Option σ}

def run (step : σ → ℓ → Option σ) : σ → List ℓ → Option σ
  | s, [] => some s
  | s, a :: as => (step s a).bind fun s' => run step s' as

def Legal (step : σ → ℓ → Option σ) (legal : σ → ℓ → Prop) : σ → List ℓ → Prop
  | _, [] => True
  | s, a :: as => legal s a ∧ ∀ s', step s a = some s' → Legal step legal s' as

@[simp] theorem run_nil (s : σ) : run step s [] = some s := rfl

variable {s s' : σ} {as : List ℓ}

theorem run_cons {a : ℓ} : run step s (a :: as) = some s' ↔ ∃ s1, step s a = some s1 ∧ run step s1 as = some s' :=
  Option.bind_eq_some_iff

theorem run_append {bs : List ℓ} :
    run step s (as ++ bs) = some s' ↔ ∃ s1, run step s as = some s1 ∧ run step s1 bs = some s' := by
  induction as generalizing s with
  | nil => simp
  | cons a as ih =>
    rw [List.cons_append, run_cons]
    constructor
    · rintro ⟨s1, hst, hrun⟩
      obtain ⟨s2, hrun1, hrun2⟩ := ih.mp hrun
      exact ⟨s2, run_cons.mpr ⟨s1, hst, hrun1⟩, hrun2⟩
    rintro ⟨s2, hrun1, hrun2⟩
    obtain ⟨s1, hst, hrun1⟩ := run_cons.mp hrun1
    exact ⟨s1, hst, ih.mpr ⟨s2, hrun1, hrun2⟩⟩

variable {legal : σ → ℓ → Prop}

theorem legal_of_forall (h : ∀ a ∈ as, ∀ s, legal s a) : Legal step legal s as := by
  induction as generalizing s with
  | nil => trivial
  | cons a as ih =>
    exact ⟨h a List.mem_cons_self s, fun s' _ => ih fun b hb => h b (List.mem_cons_of_mem a hb)⟩

def checks (step : σ → ℓ → Option σ) (check : σ → ℓ → Bool) : σ → List ℓ → Bool
  | _, [] => true
  | s, a :: as => check s a && (step s a).all fun s' => checks step check s' as

theorem legal_of_checks {check : σ → ℓ → Bool} (hch : ∀ s a, check s a = true → legal s a)
    (h : checks step check s as = true) : Legal step legal s as := by
  induction as generalizing s with
  | nil => trivial
  | cons a as ih =>
    obtain ⟨hhead, hrest⟩ := Bool.and_eq_true_iff.mp h
    refine ⟨hch s a hhead, fun s' hs' => ih ?_⟩
    rw [hs'] at hrest
    exact hrest

variable {P : σ → Prop}

theorem run_legal (hst : ∀ s a s', P s → legal s a → step s a = some s' → P s') (hs : P s)
    (hleg : Legal step legal s as) (hrun : run step s as = some s') : P s' := by
  induction as generalizing s with
  | nil =>
    cases hrun
    exact hs
  | cons a as ih =>
    obtain ⟨s1, hs1, hrun⟩ := run_cons.mp hrun
    exact ih (hst s a s1 hs hleg.1 hs1) (hleg.2 s1 hs1) hrun

theorem run_invariant (hst : ∀ s a s', P s → step s a = some s' → P s') (hs : P s) (hrun : run step s as = some s') : P s' := by
  have hleg : Legal step (fun _ _ => True) s as := legal_of_forall fun _ _ _ => trivial
  exact run_legal (fun s a s' h _ => hst s a s' h) hs hleg hrun

theorem run_progress (hst : ∀ s a, P s → legal s a → ∃ s', step s a = some s' ∧ P s') (hs : P s)
    (hleg : Legal step legal s as) : ∃ s', run step s as = some s' ∧ P s' := by
  induction as generalizing s with
  | nil => exact ⟨s, rfl, hs⟩
  | cons a as ih =>
    obtain ⟨s1, h1, hs1⟩ := hst s a hs hleg.1
    obtain ⟨s', hrun, hs'⟩ := ih hs1 (hleg.2 s1 h1)
    exact ⟨s', run_cons.mpr ⟨s1, h1, hrun⟩, hs'⟩

/-! ## Steps with an output -/

section
variable {ω : Type*} {out : σ → ℓ → Option (σ × List ω)}

def runOut (out : σ → ℓ → Option (σ × List ω)) : σ → List ℓ → Option (σ × List ω)
  | s, [] => some (s, [])
  | s, a :: as => (out s a).bind fun r => (runOut out r.1 as).map fun r' => (r'.1, r.2 ++ r'.2)

variable (out) in
def forget (s : σ) (a : ℓ) : Option σ := (out s a).map (·.1)

theorem runOut_cons {s s' : σ} {a : ℓ} {as : List ℓ} {w : List ω} :
    runOut out s (a :: as) = some (s', w) ↔
      ∃ s1 w1 w2, out s a = some (s1, w1) ∧ runOut out s1 as = some (s', w2) ∧ w1 ++ w2 = w := by
  simp only [runOut, Option.bind_eq_some_iff, Option.map_eq_some_iff, Prod.exists, Prod.mk.injEq]
  constructor
  · rintro ⟨s1, w1, hst, s2, w2, hrun, rfl, hw⟩
    exact ⟨s1, w1, w2, hst, hrun, hw⟩
  · rintro ⟨s1, w1, w2, hst, hrun, hw⟩
    exact ⟨s1, w1, hst, s', w2, hrun, rfl, hw⟩

theorem runOut_invariant {P : σ → List ω → Prop} (hst : ∀ s w a s' w', P s w → out s a = some (s', w') → P s' (w ++ w'))
    {s s' : σ} {w w' : List ω} {as : List ℓ} (hs : P s w) (hrun : runOut out s as = some (s', w')) : P s' (w ++ w') := by
  induction as generalizing s w w' with
  | nil =>
    cases hrun
    simpa using hs
  | cons a as ih =>
    obtain ⟨s1, w1, w2, h1, h2, rfl⟩ := runOut_cons.mp hrun
    rw [← List.append_assoc]
    exact ih (hst s w a s1 w1 hs h1) h2

theorem legal_append {legal : σ → ℓ → Prop} {s : σ} {as bs : List ℓ} (h : Legal (forget out) legal s (as ++ bs)) :
    Legal (forget out) legal s as ∧ ∀ s1 w, runOut out s as = some (s1, w) → Legal (forget out) legal s1 bs := by
  induction as generalizing s with
  | nil =>
    refine ⟨trivial, fun s1 w hrun => ?_⟩
    obtain ⟨rfl, -⟩ : s = s1 ∧ [] = w := by simpa [runOut] using hrun
    exact h
  | cons a as ih =>
    refine ⟨⟨h.1, fun s' hs' => (ih (h.2 s' hs')).1⟩, fun s1 w hrun => ?_⟩
    obtain ⟨s2, w2, w3, hst, hrun, -⟩ := runOut_cons.mp hrun
    exact (ih (h.2 s2 (by simp [forget, hst]))).2 s1 w3 hrun

/-- **Runs with an output.** What every legal step keeps of labels, state and output, a legal run keeps. -/
theorem runOut_legal {legal : σ → ℓ → Prop} {P : List ℓ → σ → List ω → Prop} {s : σ} {as : List ℓ}
    (hst : ∀ l s w a, a ∈ as → P l s w → legal s a → ∃ s' w', out s a = some (s', w') ∧ P (l ++ [a]) s' (w ++ w'))
    {l : List ℓ} {w : List ω} (hs : P l s w) (hleg : Legal (forget out) legal s as) :
    ∃ s' w', runOut out s as = some (s', w') ∧ P (l ++ as) s' (w ++ w') := by
  induction as generalizing s l w with
  | nil => exact ⟨s, [], rfl, by simpa using hs⟩
  | cons a as ih =>
    obtain ⟨s1, w1, h1, hs1⟩ := hst l s w a List.mem_cons_self hs hleg.1
    obtain ⟨s', w', hrun, hs'⟩ := ih (fun l s w b hb => hst l s w b (List.mem_cons_of_mem a hb)) hs1
      (hleg.2 s1 (by simp [forget, h1]))
    exact ⟨s', w1 ++ w', runOut_cons.mpr ⟨s1, w1, w', h1, hrun, rfl⟩, by simpa using hs'⟩
end
end Lotus.Lib.Lts
