/-
# Finite maps laid over one another.

A stack of layers is searched from the top: the first layer with the key decides. Pending operations are applied in any
order, but removing a key that the base does not have fails.
-/
import Mathlib.Data.List.AList

namespace Lotus.Lib.Overlay
open List AList Option
variable {κ ν : Type*} [DecidableEq κ]

abbrev Layer (κ ν : Type*) := AList (fun _ : κ => ν)

/-! ## Searching a stack -/

/-- The answer of the topmost layer that has the key; the head of the list is the top. -/
def search (ls : List (Layer κ ν)) (k : κ) : Option ν := ls.findSome? (fun l => l.lookup k)

@[simp] theorem search_nil (k : κ) : search ([] : List (Layer κ ν)) k = none := rfl

theorem search_cons (l : Layer κ ν) (ls : List (Layer κ ν)) (k : κ) : search (l :: ls) k = (l.lookup k).or (search ls k) := by
  unfold search
  rw [List.findSome?_cons]
  cases l.lookup k with
  | none => rfl
  | some v => rfl

@[simp] theorem search_empty_cons (ls : List (Layer κ ν)) (k : κ) : search (∅ :: ls) k = search ls k := by
  rw [search_cons, lookup_empty, none_or]

theorem search_insert (l : Layer κ ν) (ls : List (Layer κ ν)) (k k' : κ) (v : ν) :
    search (l.insert k v :: ls) k' = if k' = k then some v else search (l :: ls) k' := by
  rw [search_cons, search_cons]
  by_cases hk : k' = k
  · subst hk
    rw [if_pos rfl, lookup_insert, some_or]
  · rw [if_neg hk, lookup_insert_ne hk]

/-! ## Pouring one layer into another -/

/-- Write every entry of `src` into `dst`, in the order of the entries. -/
def assignAll (src dst : Layer κ ν) : Layer κ ν :=
  src.entries.foldl (fun m e => m.insert e.1 e.2) dst

theorem lookup_foldl_insert (es : List (Sigma fun _ : κ => ν)) (hes : es.NodupKeys) (dst : Layer κ ν) (k : κ) :
    (es.foldl (fun m e => m.insert e.1 e.2) dst).lookup k = (es.dlookup k).or (dst.lookup k) := by
  induction es generalizing dst with
  | nil => rfl
  | cons e es ih =>
    rw [nodupKeys_cons] at hes
    rw [foldl_cons, ih hes.2]
    by_cases hk : k = e.1
    · -- the key was written just now, and no later entry has it
      subst hk
      rw [dlookup_eq_none.mpr hes.1, lookup_insert, none_or,
        show e = ⟨e.1, e.2⟩ from rfl, dlookup_cons_eq, some_or]
    · rw [lookup_insert_ne hk, dlookup_cons_ne es e hk]

theorem lookup_assignAll (src dst : Layer κ ν) (k : κ) : (assignAll src dst).lookup k = (src.lookup k).or (dst.lookup k) :=
  lookup_foldl_insert src.entries src.nodupKeys dst k

@[simp] theorem assignAll_empty (dst : Layer κ ν) : assignAll ∅ dst = dst := rfl

theorem search_assignAll (l m : Layer κ ν) (ls : List (Layer κ ν)) (k : κ) :
    search (assignAll l m :: ls) k = search (l :: m :: ls) k := by
  rw [search_cons, search_cons, search_cons, lookup_assignAll, Option.or_assoc]

/-! ## Writing out pending operations -/

section
variable {ε : Type*}

/-- Apply operations in order: `some v` puts, `none` removes and fails on an absent key. What was
written before a failure stays written. -/
def applyOps (absent : κ → ε) : List (Sigma fun _ : κ => Option ν) → Layer κ ν → Layer κ ν × Option ε
  | [], base => (base, none)
  | ⟨k, some v⟩ :: ops, base => applyOps absent ops (base.insert k v)
  | ⟨k, none⟩ :: ops, base =>
    if k ∈ base then applyOps absent ops (base.erase k) else (base, some (absent k))

def patched (op : Option (Option ν)) (base : Option ν) : Option ν := op.getD base

section
variable (absent : κ → ε) (ops : List (Sigma fun _ : κ => Option ν)) (hops : ops.NodupKeys) (base : Layer κ ν)
include absent ops hops base

theorem applyOps_ok_iff : (applyOps absent ops base).2 = none ↔ ∀ k, ⟨k, none⟩ ∈ ops → k ∈ base := by
  induction ops generalizing base with
  | nil => simp [applyOps]
  | cons op ops ih =>
    rw [nodupKeys_cons] at hops
    obtain ⟨k, _ | v⟩ := op
    · -- a removal: the key must be there now, and it does not occur again
      rw [applyOps]
      by_cases hk : k ∈ base
      · rw [if_pos hk, ih hops.2]
        constructor
        · intro h k' hk'
          rcases mem_cons.mp hk' with heq | hmem
          · cases heq
            exact hk
          · exact (mem_erase.mp (h k' hmem)).2
        intro h k' hk'
        have hne : k' ≠ k := by
          rintro rfl
          exact hops.1 (mem_keys_of_mem hk')
        exact mem_erase.mpr ⟨hne, h k' (mem_cons_of_mem _ hk')⟩
      rw [if_neg hk]
      constructor
      · intro hso
        exact absurd hso (by simp)
      · intro h
        exact absurd (h k (mem_cons_self)) hk
    rw [applyOps, ih hops.2]
    constructor
    · intro h k' hk'
      have hmem : ⟨k', none⟩ ∈ ops := by
        rcases mem_cons.mp hk' with heq | hmem
        · cases heq
        · exact hmem
      rcases (mem_insert base).mp (h k' hmem) with rfl | hb
      · exact absurd (mem_keys_of_mem hmem) hops.1
      · exact hb
    · intro h k' hk'
      exact (mem_insert base).mpr (Or.inr (h k' (mem_cons_of_mem _ hk')))

theorem lookup_applyOps (h : (applyOps absent ops base).2 = none) (k : κ) :
    (applyOps absent ops base).1.lookup k = patched (ops.dlookup k) (base.lookup k) := by
  induction ops generalizing base with
  | nil => rfl
  | cons op ops ih =>
    rw [nodupKeys_cons] at hops
    obtain ⟨k', _ | v⟩ := op
    · rw [applyOps] at h ⊢
      by_cases hk' : k' ∈ base
      · rw [if_pos hk'] at h ⊢
        rw [ih hops.2 _ h]
        by_cases hk : k = k'
        · subst hk
          rw [dlookup_eq_none.mpr hops.1, dlookup_cons_eq, lookup_erase]
          rfl
        · rw [dlookup_cons_ne ops _ hk, lookup_erase_ne hk]
      · rw [if_neg hk'] at h
        exact absurd h (by simp)
    rw [applyOps] at h ⊢
    rw [ih hops.2 _ h]
    by_cases hk : k = k'
    · subst hk
      rw [dlookup_eq_none.mpr hops.1, dlookup_cons_eq, lookup_insert]
      rfl
    · rw [dlookup_cons_ne ops _ hk, lookup_insert_ne hk]
end
end
end Lotus.Lib.Overlay
