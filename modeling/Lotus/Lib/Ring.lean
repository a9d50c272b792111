/-
# Ring buffers read from the newest cell backwards.

A ring is a list of cells and the place of the newest one, modulo their number. `back d` is the cell `d` places before it.
-/
import Mathlib.Algebra.Order.Ring.Int
import Mathlib.Data.Int.ModEq
import Mathlib.Tactic.Ring

namespace Lotus.Lib
open Int
variable {α : Type*}

structure Ring (α : Type*) where
  cells : List (Option α)
  start : Int

namespace Ring

section
variable (r : Ring α)

def cap : Int := r.cells.length

def cell (i : Int) : Option α := (r.cells[(i % r.cap).toNat]?).join

def back (d : Int) : Option α := r.cell (r.start - d)

def push (v : Option α) : Ring α :=
  ⟨r.cells.set ((r.start + 1) % r.cap).toNat v, (r.start + 1) % r.cap⟩

def pop : Ring α := ⟨r.cells.set (r.start % r.cap).toNat none, (r.start - 1) % r.cap⟩
end

variable {r : Ring α} {i j d : Int}

@[simp] theorem cap_push (v : Option α) : (r.push v).cap = r.cap := by simp [cap, push]

@[simp] theorem cap_pop : r.pop.cap = r.cap := by simp [cap, pop]

theorem cell_congr (h : i ≡ j [ZMOD r.cap]) : r.cell i = r.cell j := by
  unfold cell
  rw [h]

theorem back_add_cap (r : Ring α) (d : Int) : r.back (d + r.cap) = r.back d := by
  apply cell_congr
  apply modEq_of_dvd
  exact ⟨1, by ring⟩

theorem cell_set (hca : 0 < r.cap) (s : Int) (v : Option α) :
    (⟨r.cells.set (i % r.cap).toNat v, s⟩ : Ring α).cell j = if j ≡ i [ZMOD r.cap] then v else r.cell j := by
  have hlen : (⟨r.cells.set (i % r.cap).toNat v, s⟩ : Ring α).cap = r.cap := by simp [cap]
  have hi := emod_nonneg i hca.ne'
  have hj := emod_nonneg j hca.ne'
  have hil := emod_lt_of_pos i hca
  unfold cell
  rw [hlen]
  by_cases h : j ≡ i [ZMOD r.cap]
  · have hlt : (i % r.cap).toNat < r.cells.length := by
      have hce : r.cap = r.cells.length := rfl
      omega
    rw [if_pos h, h, List.getElem?_set_self hlt]
    rfl
  have hne : (i % r.cap).toNat ≠ (j % r.cap).toNat := by
    intro heq
    apply h
    show j % r.cap = i % r.cap
    omega
  rw [if_neg h, List.getElem?_set_ne hne]

theorem not_modEq_sub (hlo : 0 < d) (hh : d < r.cap) : ¬ i - d ≡ i [ZMOD r.cap] := by
  intro h
  have hd := h.dvd
  rw [sub_sub_cancel] at hd
  have := le_of_dvd hlo hd
  omega

theorem back_push_zero (hca : 0 < r.cap) (v : Option α) : (r.push v).back 0 = v := by
  unfold back push
  rw [cell_set hca, if_pos]
  simp [ModEq]

theorem back_push_succ (hca : 0 < r.cap) (v : Option α) (hlo : 0 ≤ d) (hh : d + 1 < r.cap) :
    (r.push v).back (d + 1) = r.back d := by
  have hpl : (r.start + 1) % r.cap - (d + 1) ≡ r.start + 1 - (d + 1) [ZMOD r.cap] :=
    (mod_modEq _ _).sub_right _
  unfold back push
  rw [cell_set hca, if_neg]
  · refine cell_congr (hpl.trans ?_)
    rw [add_sub_add_right_eq_sub]
  · exact fun h => not_modEq_sub (by omega) hh (hpl.symm.trans h)

theorem cell_start_succ (r : Ring α) : r.cell (r.start + 1) = r.back (r.cap - 1) := by
  apply cell_congr
  apply modEq_of_dvd
  exact ⟨-1, by ring⟩

theorem back_pop (hca : 0 < r.cap) (hlo : 0 ≤ d) (hh : d + 1 < r.cap) : r.pop.back d = r.back (d + 1) := by
  have hpl : (r.start - 1) % r.cap - d ≡ r.start - (d + 1) [ZMOD r.cap] := by
    have h := (mod_modEq (r.start - 1) r.cap).sub_right d
    rwa [show r.start - 1 - d = r.start - (d + 1) by ring] at h
  unfold back pop
  rw [cell_set hca, if_neg]
  · exact cell_congr hpl
  · exact fun h => not_modEq_sub (by omega) hh (hpl.symm.trans h)

theorem back_pop_last (hca : 0 < r.cap) : r.pop.back (r.cap - 1) = none := by
  unfold back pop
  rw [cell_set hca, if_pos]
  have h := (mod_modEq (r.start - 1) r.cap).sub_right (r.cap - 1)
  refine h.trans (modEq_of_dvd ⟨1, by ring⟩)

theorem cell_start (r : Ring α) : r.cell r.start = r.back 0 := by
  rw [back, sub_zero]

end Ring
end Lotus.Lib
