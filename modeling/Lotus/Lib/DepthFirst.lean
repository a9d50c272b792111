/-
# Depth-first post-order over a graph with a stop set.

`Visits ds o o'` walks the nodes `ds` and everything below, and appends a node to `o` once its children are finished; nodes
that are finished or in the stop set are passed over. Every prefix of a post-order is closed under children, up to the stop
set.
-/
import Mathlib.Data.List.Infix

namespace Lotus.Lib.DepthFirst
open List
variable {α : Type*} [DecidableEq α]

def push (x : α) (o : List α) : List α := if x ∈ o then o else o ++ [x]

variable {x : α} {o out p : List α}

theorem push_of_mem (h : x ∈ o) : push x o = o := if_pos h

theorem mem_push {y : α} : y ∈ push x o ↔ y ∈ o ∨ y = x := by
  unfold push
  split
  · rename_i hx
    constructor
    · exact Or.inl
    rintro (h | rfl)
    · exact h
    · exact hx
  · rw [mem_append, mem_singleton]

theorem isPrefix_push_cases (h : p <+: push x o) : p <+: o ∨ p = push x o := by
  unfold push at h ⊢
  split at h
  · exact Or.inl h
  rw [if_neg (by assumption)]
  rcases prefix_concat_iff.mp h with heq | h
  · exact Or.inr heq
  · exact Or.inl h

theorem isPrefix_push_self (x : α) (o : List α) : o <+: push x o := by
  unfold push
  split
  · exact prefix_rfl
  · exact prefix_append o [x]

/-! ## First occurrences -/

def firsts (out : List α) : List α := out.foldl (fun o x => push x o) []

theorem firsts_concat (out : List α) (x : α) : firsts (out ++ [x]) = push x (firsts out) := by
  unfold firsts
  rw [foldl_append]
  rfl

theorem mem_firsts : x ∈ firsts out ↔ x ∈ out := by
  induction out using List.reverseRecOn with
  | nil => rfl
  | append_singleton out y ih =>
    rw [firsts_concat, mem_push, ih, mem_append, mem_singleton]

theorem isPrefix_firsts (h : p <+: out) : firsts p <+: firsts out := by
  induction out using List.reverseRecOn with
  | nil =>
    rw [prefix_nil.mp h]
  | append_singleton out y ih =>
    rcases prefix_concat_iff.mp h with rfl | h
    · exact prefix_rfl
    · rw [firsts_concat]
      exact (ih h).trans (isPrefix_push_self y (firsts out))

theorem exists_prefix_of_firsts {q : List α} (h : q <+: firsts out) : ∃ p, p <+: out ∧ firsts p = q := by
  induction out using List.reverseRecOn with
  | nil => exact ⟨[], prefix_rfl, (prefix_nil.mp h).symm⟩
  | append_singleton out y ih =>
    rw [firsts_concat] at h
    rcases isPrefix_push_cases h with h | rfl
    · obtain ⟨p, hp, hq⟩ := ih h
      exact ⟨p, hp.trans (prefix_append out [y]), hq⟩
    · exact ⟨out ++ [y], prefix_rfl, firsts_concat out y⟩

/-! ## Post-order -/

section
variable (children : α → List α) (stop : α → Prop)

/-- The depth-first walk over `ds`, from finished nodes `o` to `o'`. -/
inductive Visits : List α → List α → List α → Prop where
  | nil (o : List α) : Visits [] o o
  | skip {d : α} {ds o o' : List α} (h : stop d ∨ d ∈ o) : Visits ds o o' → Visits (d :: ds) o o'
  | visit {d : α} {ds o o1 o' : List α} (hstop : ¬ stop d) (hnew : d ∉ o) :
      Visits (children d) o o1 → Visits ds (push d o1) o' → Visits (d :: ds) o o'

def PostOrder (root : α) (o : List α) : Prop :=
  ∃ o1, Visits children stop (children root) [] o1 ∧ o = push root o1

def Closed (o : List α) : Prop := ∀ c ∈ o, ∀ d ∈ children c, stop d ∨ d ∈ o

def PrefixClosed (o : List α) : Prop := ∀ p, p <+: o → Closed children stop p

variable {children stop}
variable {o o' ds : List α}

theorem Visits.isPrefix (h : Visits children stop ds o o') : o <+: o' := by
  induction h with
  | nil o => exact prefix_rfl
  | skip _ _ ih => exact ih
  | visit _ _ _ _ ih1 ih2 => exact ih1.trans ((isPrefix_push_self _ _).trans ih2)

theorem Visits.covers (h : Visits children stop ds o o') : ∀ d ∈ ds, stop d ∨ d ∈ o' := by
  induction h with
  | nil o =>
    intro d hd
    exact absurd hd not_mem_nil
  | skip hsk hrest ih =>
    intro d hd
    rcases mem_cons.mp hd with rfl | hd
    · exact hsk.imp_right (fun h => hrest.isPrefix.subset h)
    · exact ih d hd
  | visit _ _ _ hrest _ ih =>
    intro d hd
    rcases mem_cons.mp hd with rfl | hd
    · exact Or.inr (hrest.isPrefix.subset (mem_push.mpr (Or.inr rfl)))
    · exact ih d hd

omit [DecidableEq α] in
theorem PrefixClosed.closed (h : PrefixClosed children stop o) : Closed children stop o := h o prefix_rfl

theorem PrefixClosed.push (h : PrefixClosed children stop o) {c : α} (hc : ∀ d ∈ children c, stop d ∨ d ∈ o) :
    PrefixClosed children stop (DepthFirst.push c o) := by
  intro p hp
  rcases isPrefix_push_cases hp with hp | rfl
  · exact h p hp
  intro x hx d hd
  rcases mem_push.mp hx with hx | rfl
  · exact (h.closed x hx d hd).imp_right (fun h => mem_push.mpr (Or.inl h))
  · exact (hc d hd).imp_right (fun h => mem_push.mpr (Or.inl h))

theorem Visits.prefixClosed (h : Visits children stop ds o o') (ho : PrefixClosed children stop o) :
    PrefixClosed children stop o' := by
  induction h with
  | nil o => exact ho
  | skip _ _ ih => exact ih ho
  | visit _ _ hsu _ ih1 ih2 => exact ih2 ((ih1 ho).push hsu.covers)

theorem Visits.forall_mem {Q : α → Prop} (hQ : ∀ c, ∀ d ∈ children c, Q d) (h : Visits children stop ds o o')
    (hds : ∀ d ∈ ds, Q d) (ho : ∀ d ∈ o, Q d) : ∀ d ∈ o', Q d := by
  induction h with
  | nil o => exact ho
  | skip _ _ ih => exact ih (fun d hd => hds d (mem_cons_of_mem _ hd)) ho
  | @visit d ds o o1 o' _ _ _ _ ih1 ih2 =>
    refine ih2 (fun x hx => hds x (mem_cons_of_mem _ hx)) ?_
    intro x hx
    rcases mem_push.mp hx with hx | rfl
    · exact ih1 (hQ d) ho x hx
    · exact hds x mem_cons_self

variable {root : α}

theorem PostOrder.prefixClosed (h : PostOrder children stop root o) : PrefixClosed children stop o := by
  obtain ⟨o1, hv, rfl⟩ := h
  have hn : PrefixClosed children stop ([] : List α) := by
    intro p hp c hc
    rw [prefix_nil.mp hp] at hc
    exact absurd hc not_mem_nil
  exact (hv.prefixClosed hn).push hv.covers

theorem PostOrder.root_mem (h : PostOrder children stop root o) : root ∈ o := by
  obtain ⟨o1, -, rfl⟩ := h
  exact mem_push.mpr (Or.inr rfl)

theorem Visits.eq_of_covered (h : Visits children stop ds o o') (hds : ∀ d ∈ ds, stop d ∨ d ∈ o) : o' = o := by
  induction h with
  | nil o => rfl
  | skip _ _ ih => exact ih (fun d hd => hds d (mem_cons_of_mem _ hd))
  | visit hstop hnew _ _ _ _ =>
    rcases hds _ mem_cons_self with h | h
    · exact absurd h hstop
    · exact absurd h hnew

theorem Visits.unique {o'' : List α} (h : Visits children stop ds o o') (h' : Visits children stop ds o o'') : o' = o'' := by
  induction h generalizing o'' with
  | nil o =>
    cases h'
    rfl
  | skip hsk _ ih =>
    cases h' with
    | skip _ hrest => exact ih hrest
    | visit hstop hnew _ _ => exact absurd hsk (not_or.mpr ⟨hstop, hnew⟩)
  | visit hstop hnew _ _ ih1 ih2 =>
    cases h' with
    | skip hsk _ => exact absurd hsk (not_or.mpr ⟨hstop, hnew⟩)
    | visit _ _ hsu hrest =>
      obtain rfl := ih1 hsu
      exact ih2 hrest

theorem PostOrder.unique (h : PostOrder children stop root o) (h' : PostOrder children stop root o') : o = o' := by
  obtain ⟨o1, hv, rfl⟩ := h
  obtain ⟨o2, hv', rfl⟩ := h'
  rw [hv.unique hv']
end
end Lotus.Lib.DepthFirst
