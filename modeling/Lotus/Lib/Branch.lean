/-
# The branch between a node and an ancestor, and where two branches meet.

`Branch x c l` says that `l` lists the nodes from `x` back to `c`, `x` included and `c` left out. Minimal paths, down one
branch and up another, compose.
-/
import Lotus.Lib.Ancestry
import Mathlib.Data.List.Basic

namespace Lotus.Lib.Ancestry
open List Option
variable {α : Type*}

/-- The nodes from `x` (included) back to `c` (left out), from the top down. -/
inductive Branch (parent : α → Option α) : α → α → List α → Prop where
  | nil (c : α) : Branch parent c c []
  | cons {x p c : α} {l : List α} (hp : parent x = some p) (tail : Branch parent p c l) : Branch parent x c (x :: l)

/-- `c` is the nearest common ancestor of `a` and `b`. -/
structure IsMeet (parent : α → Option α) (c a b : α) : Prop where
  left : AncOrSelf parent c a
  right : AncOrSelf parent c b
  nearest : ∀ y, AncOrSelf parent y a → AncOrSelf parent y b → AncOrSelf parent y c

/-- The minimal path from `a` to `b`: down the branch of `a` and up that of `b`. -/
def MinimalPath (parent : α → Option α) (a b : α) (revert apply : List α) : Prop :=
  ∃ c, IsMeet parent c a b ∧ Branch parent a c revert ∧ Branch parent b c apply.reverse

variable {parent : α → Option α} {a b c x y : α} {l : List α}

theorem IsMeet.symm (h : IsMeet parent c a b) : IsMeet parent c b a :=
  ⟨h.right, h.left, fun y hb ha => h.nearest y ha hb⟩

theorem MinimalPath.refl (a : α) : MinimalPath parent a a [] [] :=
  ⟨a, ⟨.refl a, .refl a, fun _ hy _ => hy⟩, .nil a, .nil a⟩

theorem AncOrSelf.exists_branch (h : AncOrSelf parent c x) : ∃ l, Branch parent x c l := by
  obtain ⟨n, hn⟩ := h
  induction n generalizing x with
  | zero =>
    obtain rfl : x = c := some.inj hn
    exact ⟨[], .nil x⟩
  | succ n ih =>
    rw [back, bind_eq_some_iff] at hn
    obtain ⟨p, hp, hn⟩ := hn
    obtain ⟨l, hl⟩ := ih hn
    exact ⟨x :: l, .cons hp hl⟩

theorem AncOrSelf.exists_child (h : AncOrSelf parent c x) (hne : c ≠ x) : ∃ y, parent y = some c ∧ AncOrSelf parent y x := by
  obtain ⟨n, hn⟩ := h
  induction n generalizing x with
  | zero => exact absurd (some.inj hn).symm hne
  | succ n ih =>
    rw [back, bind_eq_some_iff] at hn
    obtain ⟨p, hp, hn⟩ := hn
    by_cases hcp : c = p
    · exact ⟨x, hcp ▸ hp, .refl x⟩
    · obtain ⟨y, hy, hyp⟩ := ih hcp hn
      exact ⟨y, hy, hyp.trans (.of_parent hp)⟩

theorem Branch.ancOrSelf (h : Branch parent x c l) : AncOrSelf parent c x := by
  induction h with
  | nil c => exact .refl c
  | cons hp _ ih => exact ih.trans (.of_parent hp)

theorem Branch.eq_of_nil (h : Branch parent x c []) : x = c := by
  cases h
  rfl

theorem Branch.cons_inv (h : Branch parent x c (y :: l)) : y = x ∧ ∃ p, parent x = some p ∧ Branch parent p c l := by
  cases h with
  | cons hp tail => exact ⟨rfl, _, hp, tail⟩

theorem Branch.parent_last (h : Branch parent x c l) (hy : l.getLast? = some y) : parent y = some c := by
  induction h with
  | nil => simp at hy
  | @cons x p c l hp tail ih =>
    rcases l with _ | ⟨z, l⟩
    · obtain rfl : x = y := by simpa using hy
      rw [hp, tail.eq_of_nil]
    apply ih
    simpa using hy

theorem Branch.forall_mem {P : α → Prop} (hP : ∀ x p, parent x = some p → P p)
    (h : Branch parent x c l) (hx : P x) : ∀ y ∈ l, P y := by
  induction h with
  | nil => simp
  | @cons x p c l hp _ ih =>
    rw [forall_mem_cons]
    exact ⟨hx, ih (hP x p hp)⟩

/-! ## Meeting points -/

theorem IsMeet.step (h : IsMeet parent c a b) (hne : c ≠ a) : ∃ p, parent a = some p ∧ IsMeet parent c p b := by
  rcases h.left.eq_or_parent with rfl | ⟨p, hp, hcp⟩
  · exact absurd rfl hne
  · exact ⟨p, hp, hcp, h.right, fun y hyp hyb => h.nearest y (hyp.trans (.of_parent hp)) hyb⟩

theorem IsMeet.of_parent {p : α} (h : IsMeet parent c p b) (hp : parent a = some p)
    (hab : ¬ AncOrSelf parent a b) : IsMeet parent c a b := by
  refine ⟨h.left.trans (.of_parent hp), h.right, fun y hya hyb => ?_⟩
  rcases hya.eq_or_parent with rfl | ⟨q, hq, hyq⟩
  · exact absurd hyb hab
  · obtain rfl : q = p := some.inj (hq.symm.trans hp)
    exact h.nearest y hyq hyb

theorem exists_isMeet {g : α} (ha : AncOrSelf parent g a) (hb : AncOrSelf parent g b) : ∃ c, IsMeet parent c a b := by
  obtain ⟨n, hn⟩ := ha
  induction n generalizing a with
  | zero =>
    obtain rfl : a = g := some.inj hn
    exact ⟨a, .refl a, hb, fun y hy _ => hy⟩
  | succ n ih =>
    by_cases hab : AncOrSelf parent a b
    · exact ⟨a, .refl a, hab, fun y hy _ => hy⟩
    rw [back, bind_eq_some_iff] at hn
    obtain ⟨p, hp, hn⟩ := hn
    obtain ⟨c, hc⟩ := ih hn
    exact ⟨c, hc.of_parent hp hab⟩

/-! ## Falling heights -/

section
variable {height : α → Int} (hdrop : ∀ x p, parent x = some p → height p < height x)

include hdrop

theorem Branch.mem_iff (h : Branch parent x c l) : y ∈ l ↔ AncOrSelf parent y x ∧ AncOrSelf parent c y ∧ y ≠ c := by
  induction h with
  | nil c =>
    simp only [not_mem_nil, false_iff]
    rintro ⟨hyc, hcy, hne⟩
    apply hne
    have h1 := hyc.height_le hdrop
    have h2 := hcy.height_le hdrop
    exact ancOrSelf_unique hdrop hyc (.refl c) (by omega)
  | @cons x p c l hp tail ih =>
    have hcp := tail.ancOrSelf.height_le hdrop
    have hpx := hdrop x p hp
    rw [mem_cons, ih]
    constructor
    · rintro (rfl | ⟨hyp, hcy, hne⟩)
      · refine ⟨.refl y, tail.ancOrSelf.trans (.of_parent hp), ?_⟩
        rintro rfl
        omega
      · exact ⟨hyp.trans (.of_parent hp), hcy, hne⟩
    rintro ⟨hyx, hcy, hne⟩
    rcases hyx.eq_or_parent with rfl | ⟨q, hq, hyq⟩
    · exact Or.inl rfl
    · obtain rfl : q = p := some.inj (hq.symm.trans hp)
      exact Or.inr ⟨hyq, hcy, hne⟩

theorem Branch.pairwise (h : Branch parent x c l) : l.Pairwise fun y z => height z < height y := by
  induction h with
  | nil => exact List.Pairwise.nil
  | @cons x p c l hp tail ih =>
    refine List.Pairwise.cons ?_ ih
    intro z hz
    have hzp := ((tail.mem_iff hdrop).mp hz).1.height_le hdrop
    have hpx := hdrop x p hp
    omega

theorem Branch.unique {l' : List α} (h : Branch parent x c l) (h' : Branch parent x c l') : l = l' := by
  induction h generalizing l' with
  | nil c =>
    match l', h' with
    | [], _ => rfl
    | z :: l', h' =>
      obtain ⟨rfl, p, hp, hta⟩ := h'.cons_inv
      have h1 := hta.ancOrSelf.height_le hdrop
      have h2 := hdrop z p hp
      omega
  | @cons x p c l hp tail ih =>
    match l', h' with
    | [], h' =>
      obtain rfl := h'.eq_of_nil
      have h1 := tail.ancOrSelf.height_le hdrop
      have h2 := hdrop x p hp
      omega
    | z :: l', h' =>
      obtain ⟨rfl, q, hq, hta⟩ := h'.cons_inv
      obtain rfl : q = p := some.inj (hq.symm.trans hp)
      rw [ih hta]

theorem ancOrSelf_antisymm (hab : AncOrSelf parent a b) (hba : AncOrSelf parent b a) : a = b := by
  have h1 := hab.height_le hdrop
  have h2 := hba.height_le hdrop
  exact ancOrSelf_unique hdrop hab (.refl b) (by omega)

theorem IsMeet.mem_branch (h : IsMeet parent c a b) (hl : Branch parent a c l) :
    y ∈ l ↔ AncOrSelf parent y a ∧ ¬ AncOrSelf parent y b := by
  rw [hl.mem_iff hdrop]
  constructor
  · rintro ⟨hya, hcy, hne⟩
    refine ⟨hya, fun hyb => hne ?_⟩
    exact ancOrSelf_antisymm hdrop (h.nearest y hya hyb) hcy
  rintro ⟨hya, hyb⟩
  have hne : y ≠ c := by
    rintro rfl
    exact hyb h.right
  refine ⟨hya, ?_, hne⟩
  -- of two ancestors of `a` the lower one is an ancestor of the other
  rcases Int.le_total (height c) (height y) with hle | hle
  · exact ancOrSelf_of_height_le hdrop h.left hya hle
  · exact absurd ((ancOrSelf_of_height_le hdrop hya h.left hle).trans h.right) hyb

/-! ## Minimal paths -/

omit hdrop in
theorem eq_of_falling {l' : List α} (h : l.Pairwise fun y z => height z < height y)
    (h' : l'.Pairwise fun y z => height z < height y) (hmem : ∀ y, y ∈ l ↔ y ∈ l') : l = l' := by
  have hne : ∀ {y z : α}, height z < height y → y ≠ z := by
    rintro y z hlt rfl
    omega
  refine List.Perm.eq_of_pairwise (fun y z _ _ h1 h2 => ?_) h h' ?_
  · exact absurd h1 (by omega)
  · exact (perm_ext_iff_of_nodup (h.imp hne) (h'.imp hne)).mpr hmem

/-- **A minimal path** reverts the ancestors that only `a` has, in falling order, and applies those that only `b` has, in
rising order. -/
theorem minimalPath_iff {revert apply : List α} :
    MinimalPath parent a b revert apply ↔ (∃ c, IsMeet parent c a b) ∧
      (∀ y, y ∈ revert ↔ AncOrSelf parent y a ∧ ¬ AncOrSelf parent y b) ∧
      (∀ y, y ∈ apply ↔ AncOrSelf parent y b ∧ ¬ AncOrSelf parent y a) ∧
      (revert.Pairwise fun y z => height z < height y) ∧
      (apply.Pairwise fun y z => height y < height z) := by
  constructor
  · rintro ⟨c, hc, hr, hp⟩
    refine ⟨⟨c, hc⟩, fun y => hc.mem_branch hdrop hr, fun y => ?_, hr.pairwise hdrop, ?_⟩
    · rw [← mem_reverse]
      exact hc.symm.mem_branch hdrop hp
    · exact pairwise_reverse.mp (hp.pairwise hdrop)
  rintro ⟨⟨c, hc⟩, hr, hp, hrs, hps⟩
  obtain ⟨l, hl⟩ := hc.left.exists_branch
  obtain ⟨l', hl'⟩ := hc.right.exists_branch
  have hrl : revert = l := by
    refine eq_of_falling hrs (hl.pairwise hdrop) fun y => ?_
    rw [hr, hc.mem_branch hdrop hl]
  have hpl : apply.reverse = l' := by
    refine eq_of_falling (pairwise_reverse.mpr hps) (hl'.pairwise hdrop) fun y => ?_
    rw [mem_reverse, hp, hc.symm.mem_branch hdrop hl']
  exact ⟨c, hc, hrl ▸ hl, hpl ▸ hl'⟩

theorem height_lt_of_ancOrSelf (hx : AncOrSelf parent x a) (hy : AncOrSelf parent y a)
    (hxb : ¬ AncOrSelf parent x b) (hyb : AncOrSelf parent y b) : height y < height x := by
  by_contra hle
  exact hxb ((ancOrSelf_of_height_le hdrop hx hy (by omega)).trans hyb)

/-- **Paths compose.**  What one path applies and the other reverts cancels; the rest, in order, is the
minimal path between the ends. -/
theorem MinimalPath.merge {r1 p1 r2 p2 : List α} {keepR keepP : α → Bool} (h₁ : MinimalPath parent a b r1 p1)
    (h₂ : MinimalPath parent b c r2 p2) (hke : ∀ y, y ∈ r1 ∨ y ∈ r2 → (keepR y = true ↔ y ∉ p1 ∧ y ∉ p2))
    (hk : ∀ y, y ∈ p1 ∨ y ∈ p2 → (keepP y = true ↔ y ∉ r1 ∧ y ∉ r2)) :
    MinimalPath parent a c (r1.filter keepR ++ r2.filter keepR) (p1.filter keepP ++ p2.filter keepP) := by
  obtain ⟨⟨d, hd⟩, hr1, hp1, hr₁s, hp₁s⟩ := (minimalPath_iff hdrop).mp h₁
  obtain ⟨⟨e, he⟩, hr2, hp2, hr₂s, hp₂s⟩ := (minimalPath_iff hdrop).mp h₂
  -- which nodes are left of each of the four lists
  have left {l : List α} {keep : α → Bool} {P : α → Prop} (h : ∀ y ∈ l, (keep y = true ↔ P y)) (y : α) :
      y ∈ l.filter keep ↔ y ∈ l ∧ P y := mem_filter.trans (and_congr_right (h y))
  have mem_r₁ := left fun y hy => hke y (Or.inl hy)
  have mem_r₂ := left fun y hy => hke y (Or.inr hy)
  have mem_p₁ := left fun y hy => hk y (Or.inl hy)
  have mem_p₂ := left fun y hy => hk y (Or.inr hy)
  simp only [hr1, hp1, hr2, hp2] at mem_r₁ mem_r₂ mem_p₁ mem_p₂
  refine (minimalPath_iff hdrop).mpr ⟨?_, ?_, ?_, ?_, ?_⟩
  · -- the lower of the two meeting points is shared by all three
    rcases Int.le_total (height d) (height e) with hle | hle
    · have hde := ancOrSelf_of_height_le hdrop hd.right he.left hle
      exact exists_isMeet hd.left (hde.trans he.right)
    · have hed := ancOrSelf_of_height_le hdrop he.left hd.right hle
      exact exists_isMeet (hed.trans hd.left) he.right
  · intro y
    rw [mem_append, mem_r₁, mem_r₂]
    by_cases hya : AncOrSelf parent y a <;> by_cases hyb : AncOrSelf parent y b <;> simp [hya, hyb]
  · intro y
    rw [mem_append, mem_p₁, mem_p₂]
    by_cases hyc : AncOrSelf parent y c <;> by_cases hyb : AncOrSelf parent y b <;> simp [hyc, hyb]
  · rw [pairwise_append]
    refine ⟨hr₁s.filter keepR, hr₂s.filter keepR, fun x hx y hy => ?_⟩
    -- what is left of the second list is below what is left of the first
    obtain ⟨⟨hxa, hxb⟩, -, -⟩ := (mem_r₁ x).mp hx
    obtain ⟨⟨hyb, -⟩, hya, -⟩ := (mem_r₂ y).mp hy
    exact height_lt_of_ancOrSelf hdrop hxa (not_not.mp fun h => hya ⟨hyb, h⟩) hxb hyb
  rw [pairwise_append]
  refine ⟨hp₁s.filter keepP, hp₂s.filter keepP, fun x hx y hy => ?_⟩
  obtain ⟨⟨hxb, -⟩, -, hxc⟩ := (mem_p₁ x).mp hx
  obtain ⟨⟨hyc, hyb⟩, -, -⟩ := (mem_p₂ y).mp hy
  exact height_lt_of_ancOrSelf hdrop hyc (not_not.mp fun h => hxc ⟨hxb, h⟩) hyb hxb
end
end Lotus.Lib.Ancestry
