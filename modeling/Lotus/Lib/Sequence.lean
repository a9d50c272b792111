/-
# Items that are accepted in the order of their numbers.

A sequencer keeps, for every key it has seen, the 64-bit number that it expects next; for a new key the first one comes with
the item.
-/
import Mathlib.Data.List.AList
import Mathlib.Data.UInt

namespace Lotus.Lib.Sequence
open List

/-! ## Numbers that count up -/

/-- The numbers of the list are `e`, `e + 1`, and so on, modulo `2 ^ 64`. -/
def CountsFrom : UInt64 → List UInt64 → Prop
  | _, [] => True
  | e, n :: l => n = e ∧ CountsFrom (e + 1) l

instance : ∀ e l, Decidable (CountsFrom e l)
  | _, [] => inferInstanceAs (Decidable True)
  | e, n :: l =>
    have := instDecidableCountsFrom (e + 1) l
    inferInstanceAs (Decidable (n = e ∧ CountsFrom (e + 1) l))

variable {e : UInt64}

theorem CountsFrom.getElem {l : List UInt64} (h : CountsFrom e l) {i : Nat} (hi : i < l.length) :
    l[i] = e + UInt64.ofNat i := by
  induction l generalizing e i with
  | nil => simp at hi
  | cons n l ih =>
    obtain ⟨rfl, hrest⟩ := h
    rcases i with _ | i
    · simp
    rw [getElem_cons_succ, ih hrest (by simpa using hi), UInt64.ofNat_add, UInt64.add_assoc]
    congr 1
    exact UInt64.add_comm _ _

theorem CountsFrom.nodup {l : List UInt64} (h : CountsFrom e l) (hlen : l.length ≤ 2 ^ 64) : l.Nodup := by
  rw [nodup_iff_injective_getElem]
  intro i j hij
  have heq : e + UInt64.ofNat i = e + UInt64.ofNat j := by
    rw [← h.getElem i.isLt, ← h.getElem j.isLt]
    exact hij
  have hn := congrArg UInt64.toNat ((UInt64.add_right_inj e).mp heq)
  rw [UInt64.toNat_ofNat', UInt64.toNat_ofNat'] at hn
  have hi := i.isLt
  have hj := j.isLt
  rw [Nat.mod_eq_of_lt (by omega), Nat.mod_eq_of_lt (by omega)] at hn
  exact Fin.ext hn

/-! ## The sequencer -/

variable {ι κ : Type*} [DecidableEq κ]

def accept (expected : AList fun _ : κ => UInt64) (k : κ) (first n : UInt64) : (AList fun _ : κ => UInt64) × Bool :=
  let expected := if expected.lookup k = none then expected.insert k first else expected
  if expected.lookup k = some n then (expected.insert k (n + 1), true) else (expected, false)

variable {k : κ}

theorem accept_lookup_ne {k' : κ} (h : k' ≠ k) (expected : AList fun _ : κ => UInt64) (first n : UInt64) :
    (accept expected k first n).1.lookup k' = expected.lookup k' := by
  have hb : (if expected.lookup k = none then expected.insert k first else expected).lookup k' = expected.lookup k' := by
    split
    · exact AList.lookup_insert_ne h
    · rfl
  unfold accept
  generalize (if expected.lookup k = none then expected.insert k first else expected) = m at hb ⊢
  dsimp only
  split
  · rw [AList.lookup_insert_ne h, hb]
  · exact hb

variable {expected : AList fun _ : κ => UInt64}

theorem accept_lookup_self {first : UInt64} (n : UInt64)
    (he : expected.lookup k = some e ∨ expected.lookup k = none ∧ first = e) : (accept expected k first n).2 = decide (e = n) ∧
      (accept expected k first n).1.lookup k = some (if e = n then n + 1 else e) := by
  have hb : (if expected.lookup k = none then expected.insert k first else expected).lookup k = some e := by
    rcases he with he | ⟨hno, rfl⟩
    · simp [he]
    · simp [hno]
  unfold accept
  generalize (if expected.lookup k = none then expected.insert k first else expected) = m at hb ⊢
  dsimp only
  rw [hb]
  by_cases hn : e = n
  · simp [hn]
  · simp [hn, hb]

variable (key : ι → κ) (first num : ι → UInt64)

def acceptAll : List ι → (AList fun _ : κ => UInt64) → (AList fun _ : κ => UInt64) × List ι
  | [], expected => (expected, [])
  | x :: l, expected =>
    let r := accept expected (key x) (first x) (num x)
    let rest := acceptAll l r.1
    (rest.1, if r.2 then x :: rest.2 else rest.2)

theorem acceptAll_append (l l' : List ι) (expected : AList fun _ : κ => UInt64) :
    acceptAll key first num (l ++ l') expected =
      ((acceptAll key first num l' (acceptAll key first num l expected).1).1,
        (acceptAll key first num l expected).2 ++
          (acceptAll key first num l' (acceptAll key first num l expected).1).2) := by
  induction l generalizing expected with
  | nil => rfl
  | cons x l ih =>
    rw [cons_append]
    simp only [acceptAll, ih]
    split <;> rfl

variable {l : List ι}

theorem acceptAll_subset : (acceptAll key first num l expected).2 ⊆ l := by
  induction l generalizing expected with
  | nil => exact List.Subset.refl _
  | cons x l ih =>
    simp only [acceptAll]
    split
    · exact cons_subset_cons x ih
    · exact subset_cons_of_subset x ih

variable {key first num}

/-- **The numbers accepted for a key count up**, from what is expected of it, or else from its first item. -/
theorem acceptAll_countsFrom
    (he : expected.lookup k = some e ∨ expected.lookup k = none ∧ ∃ x, l.find? (fun x => key x = k) = some x ∧ first x = e) :
    CountsFrom e (((acceptAll key first num l expected).2.filter fun x => key x = k).map num) := by
  induction l generalizing expected e with
  | nil => trivial
  | cons x l ih =>
    simp only [acceptAll]
    by_cases hx : key x = k
    · subst hx
      have hse : expected.lookup (key x) = some e ∨ expected.lookup (key x) = none ∧ first x = e := by
        refine he.imp_right (And.imp_right ?_)
        rintro ⟨y, hy, rfl⟩
        obtain rfl : x = y := by simpa using hy
        rfl
      obtain ⟨ha, hlk⟩ := accept_lookup_self (num x) hse
      rw [ha]
      by_cases hn : e = num x
      · -- the expected item: the next one is expected then
        rw [if_pos hn] at hlk
        simp only [hn, decide_true, if_true, filter_cons, map_cons]
        exact ⟨rfl, ih (.inl hlk)⟩
      rw [if_neg hn] at hlk
      simp only [hn, decide_false, Bool.false_eq_true, if_false]
      exact ih (.inl hlk)
    -- an item of another key changes nothing for this one
    have hrest : CountsFrom e (((acceptAll key first num l
        (accept expected (key x) (first x) (num x)).1).2.filter fun x => key x = k).map num) := by
      refine ih ?_
      rw [accept_lookup_ne (Ne.symm hx)]
      refine he.imp_right (And.imp_right ?_)
      rintro ⟨y, hy, hfirst⟩
      refine ⟨y, ?_, hfirst⟩
      rwa [List.find?_cons_of_neg (by simpa using hx)] at hy
    split
    · rw [filter_cons, if_neg (by simpa using hx)]
      exact hrest
    · exact hrest

theorem pairwise_of_nodup (h : ∀ k, ((l.filter fun x => key x = k).map num).Nodup) :
    l.Pairwise fun x y => ¬ (key x = key y ∧ num x = num y) := by
  induction l with
  | nil => exact .nil
  | cons x l ih =>
    refine pairwise_cons.mpr ⟨?_, ih fun k => ?_⟩
    · rintro y hy ⟨hke, hn⟩
      have hx := h (key x)
      rw [filter_cons, if_pos (by simp), map_cons, nodup_cons] at hx
      refine hx.1 (mem_map.mpr ⟨y, ?_, hn.symm⟩)
      exact mem_filter.mpr ⟨hy, by simp [hke]⟩
    have hk := h k
    rw [filter_cons] at hk
    split at hk
    · rw [map_cons, nodup_cons] at hk
      exact hk.2
    · exact hk

end Lotus.Lib.Sequence
