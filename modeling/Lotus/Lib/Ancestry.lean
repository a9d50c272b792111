/-
# Walking back along a parent function.

A rooted forest is a partial parent function with a height that strictly drops from a node to its parent.
-/
import Mathlib.Order.Defs.LinearOrder
import Mathlib.Tactic.Common

namespace Lotus.Lib.Ancestry
open Option
variable {α : Type*} (parent : α → Option α)

/-- The node `n` parent steps above `x`, if the walk gets that far. -/
def back : Nat → α → Option α
  | 0, x => some x
  | n + 1, x => (parent x).bind (back n)

def AncOrSelf (a x : α) : Prop := ∃ n, back parent n x = some a

variable {parent}

@[simp] theorem back_zero (x : α) : back parent 0 x = some x := rfl

theorem back_succ {x p : α} (h : parent x = some p) (n : Nat) : back parent (n + 1) x = back parent n p := by
  simp [back, h]

theorem back_add {x y : α} {m : Nat} (h : back parent m x = some y) (n : Nat) : back parent (m + n) x = back parent n y := by
  induction m generalizing x with
  | zero =>
    cases h
    rw [Nat.zero_add]
  | succ m ih =>
    rw [back, bind_eq_some_iff] at h
    obtain ⟨p, hp, hm⟩ := h
    rw [Nat.add_right_comm, back_succ hp, ih hm]

theorem AncOrSelf.refl (x : α) : AncOrSelf parent x x := ⟨0, rfl⟩

theorem AncOrSelf.trans {a b x : α} (hab : AncOrSelf parent a b) (hbx : AncOrSelf parent b x) : AncOrSelf parent a x := by
  obtain ⟨m, hm⟩ := hab
  obtain ⟨n, hn⟩ := hbx
  exact ⟨n + m, by rw [back_add hn, hm]⟩

theorem AncOrSelf.of_parent {x p : α} (h : parent x = some p) : AncOrSelf parent p x :=
  ⟨1, by rw [back_succ h, back_zero]⟩

theorem AncOrSelf.eq_or_parent {a x : α} (h : AncOrSelf parent a x) :
    a = x ∨ ∃ p, parent x = some p ∧ AncOrSelf parent a p := by
  obtain ⟨n, hn⟩ := h
  rcases n with _ | n
  · exact Or.inl (some.inj hn).symm
  rw [back, bind_eq_some_iff] at hn
  obtain ⟨p, hp, hn⟩ := hn
  exact Or.inr ⟨p, hp, n, hn⟩

theorem ancOrSelf_of_back_le {x a b : α} {m n : Nat} (ha : back parent m x = some a)
    (hb : back parent n x = some b) (hmn : m ≤ n) : AncOrSelf parent b a := by
  obtain ⟨k, rfl⟩ := Nat.exists_eq_add_of_le hmn
  exact ⟨k, by rw [← back_add ha, hb]⟩

/-! ## Heights that drop towards the root -/

section
variable {height : α → Int} (hdrop : ∀ x p, parent x = some p → height p < height x)

include hdrop

theorem height_back_le {x a : α} {n : Nat} (h : back parent n x = some a) : height a + n ≤ height x := by
  induction n generalizing x with
  | zero =>
    cases h
    simp
  | succ n ih =>
    rw [back, bind_eq_some_iff] at h
    obtain ⟨p, hp, hn⟩ := h
    have h1 := ih hn
    have h2 := hdrop x p hp
    push_cast
    omega

theorem AncOrSelf.height_le {a x : α} (h : AncOrSelf parent a x) : height a ≤ height x := by
  obtain ⟨n, hn⟩ := h
  have := height_back_le hdrop hn
  omega

section
variable {a b x : α} (ha : AncOrSelf parent a x) (hb : AncOrSelf parent b x)
include ha hb

theorem ancOrSelf_unique
    (hh : height a = height b) : a = b := by
  obtain ⟨m, hm⟩ := ha
  obtain ⟨n, hn⟩ := hb
  rcases Nat.le_total m n with hmn | hnm
  · obtain ⟨k, hk⟩ := ancOrSelf_of_back_le hm hn hmn
    have hle := height_back_le hdrop hk
    obtain rfl : k = 0 := by omega
    exact some.inj hk
  obtain ⟨k, hk⟩ := ancOrSelf_of_back_le hn hm hnm
  have hle := height_back_le hdrop hk
  obtain rfl : k = 0 := by omega
  exact (some.inj hk).symm

theorem ancOrSelf_of_height_le
    (hh : height a ≤ height b) : AncOrSelf parent a b := by
  obtain ⟨m, hm⟩ := ha
  obtain ⟨n, hn⟩ := hb
  rcases Nat.le_total n m with hnm | hmn
  · exact ancOrSelf_of_back_le hn hm hnm
  have hba : AncOrSelf parent b a := ancOrSelf_of_back_le hm hn hmn
  have hab : a = b := by
    refine ancOrSelf_unique hdrop (AncOrSelf.refl a) hba ?_
    have := hba.height_le hdrop
    omega
  exact hab ▸ AncOrSelf.refl a
end
end
end Lotus.Lib.Ancestry
