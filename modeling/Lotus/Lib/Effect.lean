/-
# Computations over a state that can fail or diverge.

A failure keeps what was done before it. `Triple P m Q E D` tells the outcomes apart: from a state in `P`, `m` returns in
`Q`, fails in `E` and diverges in `D`.
-/
import Mathlib.Order.Defs.Unbundled

namespace Lotus.Lib.Effect

inductive Outcome (ε α : Type) where
  | val (a : α)
  | fail (e : ε)
  | diverge
  deriving DecidableEq

/-- A computation over `σ` that fails with `ε`. -/
def Eff (σ ε α : Type) := σ → σ × Outcome ε α

namespace Eff
variable {σ ε α β : Type}

instance : Monad (Eff σ ε) where
  pure a := fun s => (s, .val a)
  bind m f := fun s =>
    match m s with
    | (s, .val a) => f a s
    | (s, .fail e) => (s, .fail e)
    | (s, .diverge) => (s, .diverge)

def fail (e : ε) : Eff σ ε α := fun s => (s, .fail e)

def diverge : Eff σ ε α := fun s => (s, .diverge)

def get : Eff σ ε σ := fun s => (s, .val s)

theorem bind_apply (m : Eff σ ε α) (f : α → Eff σ ε β) (s : σ) : (m >>= f) s = match m s with
      | (s, .val a) => f a s
      | (s, .fail e) => (s, .fail e)
      | (s, .diverge) => (s, .diverge) := rfl

variable {m : Eff σ ε α} {f : α → Eff σ ε β} {s s' : σ}

theorem bind_val {a : α} (h : m s = (s', .val a)) : (m >>= f) s = f a s' := by
  rw [bind_apply, h]

theorem bind_eq_val {b : β} (h : (m >>= f) s = (s', .val b)) : ∃ a s1, m s = (s1, .val a) ∧ f a s1 = (s', .val b) := by
  rw [bind_apply] at h
  rcases hms : m s with ⟨s1, a | e | _⟩
  · rw [hms] at h
    exact ⟨a, s1, rfl, h⟩
  all_goals
    rw [hms] at h
    cases h

/-- `m` takes every state to a related one. -/
def Keeps (R : σ → σ → Prop) (m : Eff σ ε α) : Prop := ∀ s, R s (m s).1

theorem bind_post {P : σ → Prop} (hm : P (m s).1) (hf : ∀ a s', m s = (s', .val a) → P (f a s').1) : P ((m >>= f) s).1 := by
  rw [bind_apply]
  rcases hms : m s with ⟨s', a | e | _⟩
  · exact hf a s' hms
  all_goals
    rw [hms] at hm
    exact hm

section
variable {R : σ → σ → Prop} [IsPreorder σ R]

theorem keeps_pure (a : α) : Keeps R (pure a : Eff σ ε α) := fun s => refl_of R s

theorem keeps_fail (e : ε) : Keeps R (fail e : Eff σ ε α) := fun s => refl_of R s

theorem keeps_diverge : Keeps R (diverge : Eff σ ε α) := fun s => refl_of R s

theorem keeps_get : Keeps R (get : Eff σ ε σ) := fun s => refl_of R s

section
variable {m : Eff σ ε α} {f : α → Eff σ ε β}

theorem bind_at {s : σ} (hm : R s (m s).1)
    (hf : ∀ a s', m s = (s', .val a) → R s' (f a s').1) : R s ((m >>= f) s).1 := by
  refine bind_post hm fun a s' hms => ?_
  rw [hms] at hm
  exact trans_of R hm (hf a s' hms)

theorem Keeps.bind (hm : Keeps R m) (hf : ∀ a, Keeps R (f a)) : Keeps R (m >>= f) :=
  fun s => bind_at (hm s) (fun a s' _ => hf a s')
end
end

/-! ## Triples -/

def Outcome.Post (Q E D : Prop) : Outcome ε α → Prop
  | .val _ => Q
  | .fail _ => E
  | .diverge => D

/-- From a state in `P`, `m` returns in `Q`, fails in `E` and diverges in `D`. -/
def Triple (P : σ → Prop) (m : Eff σ ε α) (Q E D : σ → Prop) : Prop :=
  ∀ s, P s → Outcome.Post (Q (m s).1) (E (m s).1) (D (m s).1) (m s).2

section
variable {P P' Q Q' E E' D D' : σ → Prop} {m : Eff σ ε α} {f : α → Eff σ ε β}

theorem Triple.pure (a : α) (h : ∀ s, P s → Q s) : Triple P (Pure.pure a : Eff σ ε α) Q E D := h

theorem Triple.fail (e : ε) (h : ∀ s, P s → E s) : Triple P (Eff.fail e : Eff σ ε α) Q E D := h

theorem Triple.diverge (h : ∀ s, P s → D s) : Triple P (Eff.diverge : Eff σ ε α) Q E D := h

theorem Triple.bind (hm : Triple P m Q E D) (hf : ∀ a, Triple Q (f a) Q' E D) : Triple P (m >>= f) Q' E D := by
  intro s hs
  have hpo := hm s hs
  rw [bind_apply]
  generalize m s = r at hpo ⊢
  obtain ⟨s', a | e | _⟩ := r
  · exact hf a s' hpo
  · exact hpo
  · exact hpo

theorem Triple.get_bind {f : σ → Eff σ ε β} (h : ∀ s, P s → Triple (fun s' => s' = s) (f s) Q E D) :
    Triple P (get >>= f) Q E D :=
  fun s hs => h s hs s rfl

theorem Triple.mono (h : Triple P m Q E D) (hP : ∀ s, P' s → P s) (hQ : ∀ s, Q s → Q' s)
    (hE : ∀ s, E s → E' s) (hD : ∀ s, D s → D' s) : Triple P' m Q' E' D' := by
  intro s hs
  have hpo := h s (hP s hs)
  generalize m s = r at hpo ⊢
  obtain ⟨s', a | e | _⟩ := r
  · exact hQ s' hpo
  · exact hE s' hpo
  · exact hD s' hpo

theorem Keeps.triple {R : σ → σ → Prop} (h : Keeps R m) (hP : ∀ s s', P s → R s s' → Q s') : Triple P m Q Q Q := by
  intro s hs
  have hpo := hP s _ hs (h s)
  generalize m s = r at hpo ⊢
  obtain ⟨s', a | e | _⟩ := r
  all_goals exact hpo
end
end Eff
end Lotus.Lib.Effect
