/-
# Workers with stacks of tasks.

A worker takes its first task and puts others in its place.
-/
import Mathlib.Data.List.Basic

namespace Lotus.Lib.Workers
open List
variable {τ : Type*}

def Pending (workers : List (List τ)) (t : τ) : Prop := ∃ stack ∈ workers, t ∈ stack

variable {t t' : τ}

theorem pending_replicate_nil {n : Nat} : ¬ Pending (replicate n []) t := by
  rintro ⟨stack, hst, ht⟩
  rw [eq_of_mem_replicate hst] at ht
  cases ht

theorem not_pending_of_all_nil {workers : List (List τ)} (h : ∀ stack ∈ workers, stack = []) (t : τ) : ¬ Pending workers t := by
  rintro ⟨stack, hst, ht⟩
  rw [h stack hst] at ht
  cases ht

variable {workers : List (List τ)} {i : Nat} {old new : List τ}

theorem pending_set_of_mem (hi : workers[i]? = some old) (ht : t ∈ new) : Pending (workers.set i new) t := by
  obtain ⟨hlt, -⟩ := List.getElem?_eq_some_iff.mp hi
  exact ⟨new, mem_set hlt new, ht⟩

theorem pending_set_of_pending (hi : workers[i]? = some old) (h : Pending workers t) :
    t ∈ old ∨ Pending (workers.set i new) t := by
  obtain ⟨stack, hst, ht⟩ := h
  obtain ⟨j, hj⟩ := mem_iff_getElem?.mp hst
  by_cases hij : i = j
  · subst hij
    cases hi.symm.trans hj
    exact .inl ht
  · refine .inr ⟨stack, mem_iff_getElem?.mpr ⟨j, ?_⟩, ht⟩
    rw [getElem?_set_ne hij, hj]

theorem pending_of_pending_set (h : Pending (workers.set i new) t) : t ∈ new ∨ Pending workers t := by
  obtain ⟨stack, hst, ht⟩ := h
  rcases mem_or_eq_of_mem_set hst with hold | rfl
  · exact .inr ⟨stack, hold, ht⟩
  · exact .inl ht

variable {rest added : List τ}

theorem pending_replace (hi : workers[i]? = some (t :: rest)) (h : Pending workers t') :
    t' = t ∨ Pending (workers.set i (added ++ rest)) t' := by
  rcases pending_set_of_pending hi h with hold | hpe
  · rcases mem_cons.mp hold with rfl | hrest
    · exact .inl rfl
    · exact .inr (pending_set_of_mem hi (mem_append_right added hrest))
  · exact .inr hpe

theorem pending_of_replace (hi : workers[i]? = some (t :: rest)) (h : Pending (workers.set i (added ++ rest)) t') :
    t' ∈ added ∨ Pending workers t' := by
  rcases pending_of_pending_set h with hnew | hold
  · rcases mem_append.mp hnew with ha | hrest
    · exact .inl ha
    · exact .inr ⟨t :: rest, mem_of_getElem? hi, mem_cons_of_mem t hrest⟩
  · exact .inr hold

end Lotus.Lib.Workers
