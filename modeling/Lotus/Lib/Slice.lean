/-
# Loops over slices, indexing, and tables that store a value once.

A loop over a slice that can fail is `List.mapM` in `Except`, or `firstError` where it only checks. A `Table` gives every
value an index, through which it comes back (`gather_internAll`).
-/
import Mathlib.Data.List.AList

namespace Lotus.Lib.Slice
open List Option

universe u

variable {α β κ ε : Type*}

/-! ## Loops that can fail -/

section
variable {α β : Type u} {x : Except ε α} {f : α → Except ε β}

theorem bind_ok {b : β} :
    (x >>= f) = .ok b ↔ ∃ a, x = .ok a ∧ f a = .ok b := by
  rcases x with e | a
  · exact ⟨nofun, by rintro ⟨a, ⟨⟩, -⟩⟩
  constructor
  · exact fun h => ⟨a, rfl, h⟩
  · rintro ⟨_, ⟨⟩, h⟩
    exact h

theorem bind_isOk :
    (∃ b, (x >>= f) = .ok b) ↔ ∃ a, x = .ok a ∧ ∃ b, f a = .ok b := by
  simp only [bind_ok]
  constructor
  · rintro ⟨b, a, ha, hb⟩
    exact ⟨a, ha, b, hb⟩
  · rintro ⟨a, ha, b, hb⟩
    exact ⟨b, a, ha, hb⟩
end

@[simp]
theorem mapM_nil (f : α → Except ε β) : [].mapM f = .ok [] := rfl

theorem mapM_cons (f : α → Except ε β) (a : α) (l : List α) : (a :: l).mapM f =
      match f a with
      | .error e => .error e
      | .ok b =>
        match l.mapM f with
        | .error e => .error e
        | .ok bs => .ok (b :: bs) := by
  rw [List.mapM_cons]
  rcases f a with e | b
  · rfl
  cases l.mapM f with
  | error e => rfl
  | ok bs => rfl

variable {f : α → Except ε β} {l : List α}

theorem mapM_ok {bs : List β} : l.mapM f = .ok bs ↔ List.Forall₂ (fun a b => f a = .ok b) l bs := by
  induction l generalizing bs with
  | nil =>
    rw [mapM_nil, forall₂_nil_left_iff, Except.ok.injEq, eq_comm]
  | cons a l ih =>
    rw [mapM_cons, forall₂_cons_left_iff]
    constructor
    · intro h
      rcases ha : f a with e | b
      · rw [ha] at h
        cases h
      rcases hl : l.mapM f with e | bs'
      · rw [ha, hl] at h
        cases h
      rw [ha, hl] at h
      cases h
      exact ⟨b, bs', rfl, ih.mp hl, rfl⟩
    · rintro ⟨b, bs', ha, hl, rfl⟩
      rw [ha, ih.mpr hl]

theorem mapM_isOk : (∃ bs, l.mapM f = .ok bs) ↔ ∀ a ∈ l, ∃ b, f a = .ok b := by
  induction l with
  | nil => exact ⟨fun _ a ha => absurd ha not_mem_nil, fun _ => ⟨[], rfl⟩⟩
  | cons a l ih =>
    rw [forall_mem_cons, ← ih]
    simp only [mapM_ok, forall₂_cons_left_iff]
    constructor
    · rintro ⟨_, b, bs, hb, hbs, rfl⟩
      exact ⟨⟨b, hb⟩, bs, hbs⟩
    · rintro ⟨⟨b, hb⟩, bs, hbs⟩
      exact ⟨b :: bs, b, bs, hb, hbs, rfl⟩

theorem mapM_zipIdx {δ : Type*} {g : α × Nat → Except δ β} (h : ∀ i a, l[i]? = some a → ∃ b, f a = .ok b ∧ g (a, i) = .ok b) :
    ∃ bs, l.mapM f = .ok bs ∧ l.zipIdx.mapM g = .ok bs := by
  have hf : ∀ a ∈ l, ∃ b, f a = .ok b := by
    intro a ha
    obtain ⟨i, hi⟩ := getElem?_of_mem ha
    obtain ⟨b, hb, -⟩ := h i a hi
    exact ⟨b, hb⟩
  obtain ⟨bs, hbs⟩ := mapM_isOk.mpr hf
  have hall := mapM_ok.mp hbs
  refine ⟨bs, hbs, mapM_ok.mpr (forall₂_iff_get.mpr ⟨?_, fun i hi hi' => ?_⟩)⟩
  · rw [length_zipIdx, hall.length_eq]
  rw [length_zipIdx] at hi
  obtain ⟨b, hb, hg⟩ := h i l[i] (getElem?_eq_getElem hi)
  have hrn := hall.get hi hi'
  rw [get_eq_getElem, get_eq_getElem] at hrn ⊢
  rw [hb, Except.ok.injEq] at hrn
  rw [getElem_zipIdx, Nat.zero_add, hg, hrn]

/-- A loop that checks its elements up to the first error; a panic (`ε`) ends it too. -/
def firstError (f : Nat → α → Except ε (Except β Unit)) : Nat → List α → Except ε (Except β Unit)
  | _, [] => .ok (.ok ())
  | i, a :: rest =>
    match f i a with
    | .error p => .error p
    | .ok (.error e) => .ok (.error e)
    | .ok (.ok ()) => firstError f (i + 1) rest

variable {i : Nat}

section
variable {f : Nat → α → Except ε (Except β Unit)}
omit f in
theorem forall_getElem?_cons {P : Nat → α → Prop} {x : α} :
    (∀ n a, (x :: l)[n]? = some a → P n a) ↔ P 0 x ∧ ∀ n a, l[n]? = some a → P (n + 1) a := by
  refine ⟨fun h => ⟨h 0 x rfl, fun n => h (n + 1)⟩, ?_⟩
  rintro ⟨h0, h⟩ (_ | n) a ha
  · cases ha
    exact h0
  · exact h n a ha

theorem firstError_isOk : (∃ r, firstError f i l = .ok r) ↔
      ∀ n a, l[n]? = some a → (∀ m b, l[m]? = some b → m < n → f (i + m) b = .ok (.ok ())) →
        ∃ r, f (i + n) a = .ok r := by
  induction l generalizing i with
  | nil => simp [firstError]
  | cons x l ih =>
    simp only [forall_getElem?_cons, Nat.not_lt_zero, false_implies, implies_true, true_implies, Nat.add_lt_add_iff_right,
      Nat.zero_lt_succ, and_imp, Nat.add_zero, firstError]
    rcases hx : f i x with p | e | u
    · simp
    · simp
    · simp only [ih, Nat.add_assoc, Nat.add_comm 1]
      simp

theorem firstError_passes :
    firstError f i l = .ok (.ok ()) ↔ ∀ n a, l[n]? = some a → f (i + n) a = .ok (.ok ()) := by
  induction l generalizing i with
  | nil => simp [firstError]
  | cons x l ih =>
    rw [forall_getElem?_cons, Nat.add_zero, firstError]
    rcases hx : f i x with p | e | u
    · simp
    · simp
    · simp [ih, Nat.add_assoc, Nat.add_comm 1]
end

/-! ## Indexing -/

inductive RuntimePanic where
  | indexOutOfRange
  | nilDeref
  deriving DecidableEq

def index (l : List α) (i : Nat) : Except RuntimePanic α :=
  match l[i]? with
  | some a => .ok a
  | none => .error .indexOutOfRange

theorem index_ok {a : α} : index l i = .ok a ↔ l[i]? = some a := by
  unfold index
  cases l[i]? with
  | none => exact ⟨nofun, nofun⟩
  | some b => rw [Except.ok.injEq, some.injEq]

theorem index_isOk : (∃ a, index l i = .ok a) ↔ i < l.length := by
  simp only [index_ok]
  constructor
  · rintro ⟨a, ha⟩
    exact (List.getElem?_eq_some_iff.mp ha).1
  · intro hi
    exact ⟨l[i], List.getElem?_eq_getElem hi⟩

def gather (l : List α) (is : List Nat) : Except RuntimePanic (List α) := is.mapM (index l)

variable {is : List Nat}

theorem gather_isOk : (∃ as, gather l is = .ok as) ↔ ∀ i ∈ is, i < l.length := by
  unfold gather
  rw [mapM_isOk]
  exact forall₂_congr fun i _ => index_isOk

theorem index_mono {l l' : List α} (h : l <+: l') {a : α} (hi : index l i = .ok a) : index l' i = .ok a := by
  obtain ⟨rest, rfl⟩ := h
  rw [index_ok] at hi ⊢
  rw [List.getElem?_append_left (List.getElem?_eq_some_iff.mp hi).1]
  exact hi

theorem gather_mono {l l' : List α} (h : l <+: l') {as : List α}
    (hg : gather l is = .ok as) : gather l' is = .ok as :=
  mapM_ok.mpr ((mapM_ok.mp hg).imp fun _ _ hi => index_mono h hi)

theorem gather_map {bs : List β} (h : l.mapM f = .ok bs)
    {as : List α} (hg : gather l is = .ok as) : ∃ cs, as.mapM f = .ok cs ∧ gather bs is = .ok cs := by
  have hall := mapM_ok.mp h
  unfold gather at hg ⊢
  induction is generalizing as with
  | nil =>
    cases hg
    exact ⟨[], rfl, rfl⟩
  | cons i is ih =>
    obtain ⟨a, as', hi, his, rfl⟩ := forall₂_cons_left_iff.mp (mapM_ok.mp hg)
    obtain ⟨cs, hcs, hbs⟩ := ih (mapM_ok.mpr his)
    obtain ⟨hlt, ha⟩ := List.getElem?_eq_some_iff.mp (index_ok.mp hi)
    have hlt' : i < bs.length := hall.length_eq ▸ hlt
    have hfa : f a = .ok bs[i] := by
      have := hall.get hlt hlt'
      rw [← ha]
      exact this
    refine ⟨bs[i] :: cs, ?_, ?_⟩
    · rw [mapM_cons, hfa, hcs]
    · rw [mapM_cons, index_ok.mpr (getElem?_eq_getElem hlt'), hbs]

/-! ## Tables -/

variable [DecidableEq κ]

/-- Values in the order in which they were first seen, and the index of each. -/
structure Table (κ : Type*) [DecidableEq κ] where
  keys : List κ
  indices : AList (fun _ : κ => Nat)
  ok : ∀ k i, indices.lookup k = some i ↔ keys[i]? = some k

namespace Table

def empty : Table κ where
  keys := []
  indices := ∅
  ok k i := by
    rw [AList.lookup_empty, getElem?_nil]
    exact ⟨nofun, nofun⟩

def push (t : Table κ) (k : κ) (h : t.indices.lookup k = none) : Table κ where
  keys := t.keys ++ [k]
  indices := t.indices.insert k t.keys.length
  ok k' i := by
    by_cases hk : k' = k
    · subst hk
      rw [AList.lookup_insert, some.injEq]
      constructor
      · rintro rfl
        rw [getElem?_append_right (le_refl _), Nat.sub_self]
        rfl
      intro hi
      rcases Nat.lt_trichotomy i t.keys.length with hlt | heq | hgt
      · rw [getElem?_append_left hlt] at hi
        rw [(t.ok k' i).mpr hi] at h
        cases h
      · exact heq.symm
      · rw [getElem?_eq_none (by rw [length_append, length_singleton]; omega)] at hi
        cases hi
    rw [AList.lookup_insert_ne hk, t.ok]
    rcases Nat.lt_trichotomy i t.keys.length with hlt | rfl | hgt
    · rw [getElem?_append_left hlt]
    · rw [getElem?_eq_none (le_refl _), getElem?_append_right (le_refl _), Nat.sub_self]
      constructor
      · exact nofun
      · rintro ⟨⟩
        exact absurd rfl hk
    · rw [getElem?_eq_none (by omega), getElem?_eq_none (by rw [length_append, length_singleton]; omega)]

def intern (t : Table κ) (k : κ) : Table κ × Nat :=
  match h : t.indices.lookup k with
  | some i => (t, i)
  | none => (t.push k h, t.keys.length)

def internAll (t : Table κ) : List κ → Table κ × List Nat
  | [] => (t, [])
  | k :: ks => (((t.intern k).1.internAll ks).1, (t.intern k).2 :: ((t.intern k).1.internAll ks).2)

theorem intern_spec (t : Table κ) (k : κ) :
    t.keys <+: (t.intern k).1.keys ∧ index (t.intern k).1.keys (t.intern k).2 = .ok k := by
  unfold intern
  split
  · rename_i i h
    exact ⟨prefix_rfl, index_ok.mpr ((t.ok k i).mp h)⟩
  refine ⟨prefix_append _ _, index_ok.mpr ?_⟩
  show (t.keys ++ [k])[t.keys.length]? = some k
  rw [getElem?_append_right (le_refl _), Nat.sub_self]
  rfl

theorem mem_intern {t : Table κ} {k k' : κ} (h : k' ∈ (t.intern k).1.keys) : k' ∈ t.keys ∨ k' = k := by
  unfold intern at h
  split at h
  · exact Or.inl h
  rcases mem_append.mp h with hold | hnew
  · exact Or.inl hold
  · exact Or.inr (mem_singleton.mp hnew)

theorem mem_internAll {t : Table κ} {ks : List κ} {k : κ} (h : k ∈ (t.internAll ks).1.keys) : k ∈ t.keys ∨ k ∈ ks := by
  induction ks generalizing t with
  | nil => exact Or.inl h
  | cons k' ks ih =>
    rcases ih h with hold | hnew
    · rcases mem_intern hold with hold | rfl
      · exact Or.inl hold
      · exact Or.inr mem_cons_self
    · exact Or.inr (mem_cons_of_mem k' hnew)

theorem gather_internAll (t : Table κ) (ks : List κ) :
    t.keys <+: (t.internAll ks).1.keys ∧ gather (t.internAll ks).1.keys (t.internAll ks).2 = .ok ks := by
  induction ks generalizing t with
  | nil => exact ⟨prefix_rfl, rfl⟩
  | cons k ks ih =>
    obtain ⟨hke, hk⟩ := t.intern_spec k
    obtain ⟨hk', hks⟩ := ih (t.intern k).1
    refine ⟨hke.trans hk', ?_⟩
    exact mapM_ok.mpr (.cons (index_mono hk' hk) (mapM_ok.mp hks))

theorem keys_nodup (t : Table κ) : t.keys.Nodup := by
  rw [nodup_iff_getElem?_ne_getElem?]
  intro i j hij hj heq
  have hkj := getElem?_eq_getElem hj
  have hi := (t.ok _ i).mpr (heq.trans hkj)
  rw [(t.ok _ j).mpr hkj, some.injEq] at hi
  omega

end Table
end Lotus.Lib.Slice
