/-
# What `walkChain` marks.

A walk that succeeds marks what is retained and reached without inline blocks. What is marked and dag-cbor has its links
marked, or to be looked at by some worker (`Covered`), or is still to be scanned. This needs that the mark of a hash was made
by someone who scans the block (`Consistent`).
-/
import Lotus.Splitstore.Walk

namespace Lotus.Splitstore
open Lib.Lts Lib.Workers List Option
variable {δ η : Type} {g : Objects δ η} {b : Bounds} {ts : List (Cid δ η)}

/-! ## Tasks -/

variable {hdr : BlockHeader δ η} {t : Task δ η}

theorem mem_tasks (h : t ∈ b.tasks hdr) :
    (∃ incomplete r, t = .object incomplete r ∧ r ∈ b.roots hdr) ∨ hdr.height > 0 ∧ t = .parents hdr.parents := by
  simp only [Bounds.tasks, Bounds.roots, mem_append, mem_ite_nil_right, mem_cons, not_mem_nil, or_false] at h ⊢
  rcases h with (⟨hm, rfl | rfl⟩ | ⟨hst, rfl⟩) | h
  · exact .inl ⟨_, _, rfl, .inl ⟨hm, .inl rfl⟩⟩
  · exact .inl ⟨_, _, rfl, .inl ⟨hm, .inr rfl⟩⟩
  · exact .inl ⟨_, _, rfl, .inr ⟨hst, rfl⟩⟩
  · exact .inr h

theorem root_task {r : Cid δ η} (h : r ∈ b.roots hdr) : ∃ incomplete, Task.object incomplete r ∈ b.tasks hdr := by
  simp only [Bounds.tasks, Bounds.roots, mem_append, mem_ite_nil_right, mem_cons, not_mem_nil, or_false] at h ⊢
  rcases h with ⟨hm, rfl | rfl⟩ | ⟨hst, rfl⟩
  · exact ⟨_, .inl (.inl ⟨hm, .inl rfl⟩)⟩
  · exact ⟨_, .inl (.inl ⟨hm, .inr rfl⟩)⟩
  · exact ⟨_, .inl (.inr ⟨hst, rfl⟩)⟩

theorem parents_task (h : hdr.height > 0) : Task.parents hdr.parents ∈ b.tasks hdr := by
  unfold Bounds.tasks
  rw [if_pos h]
  exact mem_append_right _ mem_cons_self

variable [DecidableEq δ] [DecidableEq η]
variable {m m' : Marking δ η} {c : Cid δ η}

theorem Marking.visit_eq_some (h : m.visit c = some m') :
    Direct c ∧ c.hash ∉ m.marks ∧ m' = { m with marks := insert c.hash m.marks } := by
  unfold Marking.visit at h
  split_ifs at h with hstop
  rw [not_or] at hstop
  exact ⟨Bool.eq_false_iff.mpr hstop.1, hstop.2, (some.inj h).symm⟩

theorem Marking.visit_eq_none (h : m.visit c = none) : c.isUnitaryObject = true ∨ c.hash ∈ m.marks := by
  unfold Marking.visit at h
  split_ifs at h with hstop
  exact hstop

variable {added : List (Task δ η)}

theorem exec_block (h : exec g b m (.block c) = some (m', added)) :
    (c.isUnitaryObject = true ∨ c ∈ m.walked) ∧ m' = m ∧ added = [] ∨
      Direct c ∧ m' = { m with walked := insert c m.walked } ∧ added = [.visit c] := by
  simp only [exec] at h
  split_ifs at h with hstop
  · cases h
    exact .inl ⟨hstop, rfl, rfl⟩
  · cases h
    exact .inr ⟨Bool.eq_false_iff.mpr (not_or.mp hstop).1, rfl, rfl⟩

theorem exec_object {incomplete : Bool} (h : exec g b m (.object incomplete c) = some (m', added)) :
    (c.isUnitaryObject = true ∨ c.hash ∈ m.marks ∨ g.view c = none) ∧ m' = m ∧ added = [] ∨
      Direct c ∧ m' = { m with marks := insert c.hash m.marks } ∧
        added = if c.codec = .dagCBOR then [.scan incomplete c] else [] := by
  simp only [exec] at h
  by_cases hm : incomplete ∧ c.codec = .dagCBOR ∧ ¬ g.has c
  · rw [if_pos hm] at h
    cases h
    refine .inl ⟨.inr (.inr ?_), rfl, rfl⟩
    simpa [g.has_eq] using hm.2.2
  rw [if_neg hm] at h
  rcases hv : m.visit c with _ | m1
  · rw [hv] at h
    cases h
    exact .inl ⟨(Marking.visit_eq_none hv).imp id .inl, rfl, rfl⟩
  rw [hv] at h
  cases h
  obtain ⟨hd, -, rfl⟩ := Marking.visit_eq_some hv
  exact .inr ⟨hd, rfl, rfl⟩

variable (g b ts) in
def Task.Fits (marks : Finset (Multihash δ η)) : Task δ η → Prop
  | .block c => Chain g ts Direct c
  | .visit c => Chain g ts Direct c ∧ Direct c
  | .header c => Chain g ts Direct c ∧ Direct c ∧ c.hash ∈ marks
  | .object _ c => Reached g b ts Direct c
  | .scan _ c => Reached g b ts Direct c ∧ Direct c ∧ c.codec = .dagCBOR
  | .parents cs => ∀ c ∈ cs, Chain g ts Direct c

omit [DecidableEq δ] [DecidableEq η] in
theorem Task.Fits.mono {marks marks' : Finset (Multihash δ η)} (hm : marks ⊆ marks') (h : t.Fits g b ts marks) :
    t.Fits g b ts marks' := by
  cases t with
  | block c | visit c | object incomplete c | scan incomplete c | parents cs => exact h
  | header c => exact ⟨h.1, h.2.1, hm h.2.2⟩

variable (g b ts) in
def Walked (hash : Multihash δ η) : Prop :=
  ∃ c, (Chain g ts Direct c ∨ Reached g b ts Direct c) ∧ Direct c ∧ c.hash = hash

theorem exec_fits (ht : t.Fits g b ts m.marks) (h : exec g b m t = some (m', added)) :
    m.marks ⊆ m'.marks ∧ (∀ c ∈ m.toWalk, c ∈ m'.toWalk) ∧ (∀ t' ∈ added, t'.Fits g b ts m'.marks) ∧
      (∀ hash ∈ m'.marks, hash ∈ m.marks ∨ Walked g b ts hash) ∧ ∀ c ∈ m'.toWalk, c ∈ m.toWalk ∨ Chain g ts Direct c := by
  cases t with
  | block c =>
    rcases exec_block h with ⟨-, rfl, rfl⟩ | ⟨hd, rfl, rfl⟩
    · exact ⟨Finset.Subset.refl _, fun _ => id, by simp, fun _ => .inl, fun _ => .inl⟩
    · refine ⟨Finset.Subset.refl _, fun _ => id, ?_, fun _ => .inl, fun _ => .inl⟩
      exact forall_mem_singleton.mpr ⟨ht, hd⟩
  | visit c =>
    obtain ⟨m1, hv, heq⟩ := map_eq_some_iff.mp h
    cases heq
    obtain ⟨-, -, rfl⟩ := Marking.visit_eq_some hv
    refine ⟨Finset.subset_insert _ _, fun _ => id, ?_, fun hash hh => ?_, fun _ => .inl⟩
    · exact forall_mem_singleton.mpr ⟨ht.1, ht.2, Finset.mem_insert_self _ _⟩
    rcases Finset.mem_insert.mp hh with rfl | hold
    · exact .inr ⟨c, .inl ht.1, ht.2, rfl⟩
    · exact .inl hold
  | header c =>
    obtain ⟨hdr, hhdr, heq⟩ := map_eq_some_iff.mp h
    cases heq
    refine ⟨Finset.Subset.refl _, fun _ => id, fun t' ht' => ?_, fun _ => .inl, fun _ => .inl⟩
    rcases mem_tasks ht' with ⟨incomplete, r, rfl, hr⟩ | ⟨hheight, rfl⟩
    · exact .root ht.1 ht.2.1 hhdr hr
    · exact fun p hp => .parent ht.1 ht.2.1 hhdr hheight hp
  | object incomplete c =>
    rcases exec_object h with ⟨-, rfl, rfl⟩ | ⟨hd, rfl, rfl⟩
    · exact ⟨Finset.Subset.refl _, fun _ => id, by simp, fun _ => .inl, fun _ => .inl⟩
    refine ⟨Finset.subset_insert _ _, fun _ => id, fun t' ht' => ?_, fun hash hh => ?_, fun _ => .inl⟩
    · split_ifs at ht' with hcodec
      · obtain rfl := mem_singleton.mp ht'
        exact ⟨ht, hd, hcodec⟩
      · cases ht'
    rcases Finset.mem_insert.mp hh with rfl | hold
    · exact .inr ⟨c, .inr ht, hd, rfl⟩
    · exact .inl hold
  | scan incomplete c =>
    obtain ⟨links, hlinks, heq⟩ := map_eq_some_iff.mp h
    cases heq
    refine ⟨Finset.Subset.refl _, fun _ => id, fun t' ht' => ?_, fun _ => .inl, fun _ => .inl⟩
    obtain ⟨l, hl, rfl⟩ := mem_map.mp ht'
    exact .link ht.1 ht.2.1 ht.2.2 hlinks hl
  | parents cs =>
    cases h
    refine ⟨Finset.Subset.refl _, fun c hc => mem_append_left cs hc, by simp, fun _ => .inl, fun c hc => ?_⟩
    exact (mem_append.mp hc).imp id (ht c)

namespace Walk

/-! ## Only what is walked is marked -/

variable (g b ts) in
structure Walks (w : Walk δ η) : Prop where
  marks : ∀ hash ∈ w.marks, Walked g b ts hash
  tasks : ∀ t, Pending w.workers t → t.Fits g b ts w.marks
  workch : ∀ c ∈ w.workch, Chain g ts Direct c
  toWalk : ∀ c ∈ w.toWalk, Chain g ts Direct c

omit [DecidableEq δ] [DecidableEq η] in
theorem walks_start : Walks g b ts (start ts) where
  marks := fun hash h => absurd h (Finset.notMem_empty hash)
  tasks := fun t h => absurd h (not_pending_of_all_nil (fun _ h => by cases h) t)
  workch := fun c h => by cases h
  toWalk := fun c h => .tip h

variable {i : Nat}

theorem work_cases {w w' : Walk δ η} {stack : List (Task δ η)} (h : w.work g b i stack = some w') :
    (∃ c cs, stack = [] ∧ w.workch = c :: cs ∧ w' = { w with workch := cs, workers := w.workers.set i [.block c] }) ∨
    w'.failed = true ∨
    ∃ t rest m added, stack = t :: rest ∧ exec g b w.toMarking t = some (m, added) ∧
      w' = { w with toMarking := m, workers := w.workers.set i (added ++ rest) } := by
  unfold work at h
  rcases stack with _ | ⟨t, rest⟩
  · rcases hch : w.workch with _ | ⟨c, cs⟩
    · rw [hch] at h
      cases h
    rw [hch] at h
    exact .inl ⟨c, cs, rfl, rfl, (some.inj h).symm⟩
  cases hexec : exec g b w.toMarking t with
  | none =>
    simp only [hexec] at h
    cases h
    exact .inr (.inl rfl)
  | some r =>
    simp only [hexec] at h
    exact .inr (.inr ⟨t, rest, r.1, r.2, rfl, hexec, (some.inj h).symm⟩)

variable {a : Label}

theorem failed_of_step {w w' : Walk δ η} (h : step g b w a = some w') (hfa : w'.failed = false) : w.failed = false := by
  cases a with
  | work i =>
    obtain ⟨stack, -, hwo⟩ := bind_eq_some_iff.mp h
    rcases work_cases hwo with ⟨c, cs, -, -, rfl⟩ | htr | ⟨t, rest, m, added, -, -, rfl⟩
    · exact hfa
    · exact absurd (hfa.symm.trans htr) Bool.false_ne_true
    · exact hfa
  | level =>
    obtain ⟨hco, -⟩ := ite_none_right_eq_some.mp h
    exact hco.2.1

theorem Walks.step {w w' : Walk δ η} (h : Walks g b ts w) (hst : step g b w a = some w')
    (hfa : w'.failed = false) : Walks g b ts w' := by
  cases a with
  | work i =>
    obtain ⟨stack, hi, hwo⟩ := bind_eq_some_iff.mp hst
    rcases work_cases hwo with ⟨c, cs, rfl, hch, rfl⟩ | htr | ⟨t, rest, m, added, rfl, hexec, rfl⟩
    · have hq : ∀ c' ∈ c :: cs, Chain g ts Direct c' := hch ▸ h.workch
      refine ⟨h.marks, fun t ht => ?_, fun c' hc' => hq c' (mem_cons_of_mem c hc'), h.toWalk⟩
      rcases pending_of_pending_set ht with hnew | hold
      · obtain rfl := mem_singleton.mp hnew
        exact hq c mem_cons_self
      · exact h.tasks t hold
    · exact absurd (hfa.symm.trans htr) Bool.false_ne_true
    have ht : t.Fits g b ts w.marks := h.tasks t ⟨t :: rest, mem_of_getElem? hi, mem_cons_self⟩
    obtain ⟨hm, -, ha, hwa, hto⟩ := exec_fits ht hexec
    refine ⟨fun hash hh => (hwa hash hh).elim (h.marks hash) id, fun t' ht' => ?_, h.workch,
      fun c hc => (hto c hc).elim (h.toWalk c) id⟩
    rcases pending_of_replace hi ht' with hnew | hold
    · exact ha t' hnew
    · exact (h.tasks t' hold).mono hm
  | level =>
    obtain ⟨-, heq⟩ := ite_none_right_eq_some.mp hst
    cases heq
    exact ⟨h.marks, fun t ht => absurd ht pending_replicate_nil, h.toWalk, fun c hc => by cases hc⟩

/-! ## All of it is -/

def Covered (g : Objects δ η) (w : Walk δ η) (c : Cid δ η) : Prop :=
  c.isUnitaryObject = true ∨ c.hash ∈ w.marks ∨ g.view c = none ∨ ∃ incomplete, Pending w.workers (.object incomplete c)

def walksHeader (c : Cid δ η) : Task δ η → Prop
  | .block c' => c' = c
  | .visit c' => c' = c
  | .header c' => c' = c
  | .parents cs => c ∈ cs
  | .object _ _ => False
  | .scan _ _ => False

def Seen (w : Walk δ η) (done : Finset (Cid δ η)) (c : Cid δ η) : Prop :=
  c.isUnitaryObject = true ∨ c ∈ done ∨ c ∈ w.toWalk ∨ c ∈ w.workch ∨ ∃ t, Pending w.workers t ∧ walksHeader c t

variable (g b) in
def HeaderDone (w : Walk δ η) (done : Finset (Cid δ η)) (c : Cid δ η) : Prop :=
  c.hash ∈ w.marks ∧ ∀ hdr, g.header c = some hdr →
    (∀ r ∈ b.roots hdr, Covered g w r) ∧ (hdr.height > 0 → ∀ p ∈ hdr.parents, Seen w done p)

def Started (w : Walk δ η) (c : Cid δ η) : Prop := ∃ t, Pending w.workers t ∧ (t = .visit c ∨ t = .header c)

variable (g b ts) in
/-- The invariant: what is marked is scanned, or to be; `done` are the headers that were read. -/
structure Closed (w : Walk δ η) (done : Finset (Cid δ η)) : Prop where
  scanned : ∀ c, Reached g b ts Direct c → Direct c → c.codec = .dagCBOR → c.hash ∈ w.marks →
    (∃ incomplete c', Pending w.workers (.scan incomplete c') ∧ c'.hash = c.hash) ∨
      ∀ links, g.links c = some links → ∀ l ∈ links, Covered g w l
  tips : ∀ c ∈ ts, Seen w done c
  headers : ∀ c ∈ done, HeaderDone g b w done c
  walked : ∀ c ∈ w.walked, c ∈ done ∨ Started w c

structure Moved (w w' : Walk δ η) (t : Task δ η) (more : List (Task δ η)) : Prop where
  stay : ∀ t', Pending w.workers t' → t' = t ∨ Pending w'.workers t'
  new : ∀ t' ∈ more, Pending w'.workers t'
  marks : w.marks ⊆ w'.marks
  toWalk : ∀ c ∈ w.toWalk, c ∈ w'.toWalk
  workch : w'.workch = w.workch

variable {w w' : Walk δ η} {t : Task δ η} {more : List (Task δ η)} {done done' : Finset (Cid δ η)}
variable {c : Cid δ η}

section
omit [DecidableEq δ] [DecidableEq η]

theorem Covered.moved (h : Covered g w c) (hmo : Moved w w' t more)
    (ht : ∀ incomplete, t = .object incomplete c → Covered g w' c) : Covered g w' c := by
  rcases h with hu | hm | hv | ⟨incomplete, hpe⟩
  · exact .inl hu
  · exact .inr (.inl (hmo.marks hm))
  · exact .inr (.inr (.inl hv))
  rcases hmo.stay _ hpe with heq | hst
  · exact ht incomplete heq.symm
  · exact .inr (.inr (.inr ⟨incomplete, hst⟩))

theorem Seen.moved (h : Seen w done c) (hm : Moved w w' t more) (hd : done ⊆ done')
    (ht : walksHeader c t → Seen w' done' c) : Seen w' done' c := by
  rcases h with hu | hin | hq | hch | ⟨t', hpe, hwa⟩
  · exact .inl hu
  · exact .inr (.inl (hd hin))
  · exact .inr (.inr (.inl (hm.toWalk c hq)))
  · exact .inr (.inr (.inr (.inl (hm.workch ▸ hch))))
  rcases hm.stay t' hpe with rfl | hst
  · exact ht hwa
  · exact .inr (.inr (.inr (.inr ⟨t', hst, hwa⟩)))

theorem Closed.moved (h : Closed g b ts w done) (hmo : Moved w w' t more) (hd : done ⊆ done')
    (ho : ∀ incomplete c, t = .object incomplete c → Covered g w' c)
    (hsc : ∀ incomplete c, t = .scan incomplete c → ∀ links, g.links c = some links → ∀ l ∈ links, Covered g w' l)
    (hwa : ∀ c, walksHeader c t → Seen w' done' c)
    (hmk : ∀ c, Reached g b ts Direct c → Direct c → c.codec = .dagCBOR → c.hash ∈ w'.marks →
      c.hash ∈ w.marks ∨ ∃ incomplete c', Pending w'.workers (.scan incomplete c') ∧ c'.hash = c.hash)
    (hh : ∀ c ∈ done', c ∈ done ∨ HeaderDone g b w' done' c) (hwal : ∀ c ∈ w'.walked, c ∈ w.walked ∨ c ∈ done' ∨ Started w' c)
    (hst : ∀ c, t = .visit c ∨ t = .header c → c ∈ done' ∨ Started w' c) : Closed g b ts w' done' := by
  have hco : ∀ c, Covered g w c → Covered g w' c := fun c hc => hc.moved hmo fun incomplete => ho incomplete c
  have hse : ∀ c, Seen w done c → Seen w' done' c := fun c hc => hc.moved hmo hd (hwa c)
  refine ⟨fun c hrc hdi hcodec hm => ?_, fun c hc => hse c (h.tips c hc), fun c hc => ?_, fun c hc => ?_⟩
  · rcases hmk c hrc hdi hcodec hm with hold | hnew
    · rcases h.scanned c hrc hdi hcodec hold with ⟨incomplete, c', hpe, hha⟩ | hlinks
      · rcases hmo.stay _ hpe with rfl | hsti
        · -- the block of this hash is scanned now
          exact .inr (g.links_congr hha ▸ hsc incomplete c' rfl)
        · exact .inl ⟨incomplete, c', hsti, hha⟩
      · exact .inr fun links heq l hl => hco l (hlinks links heq l hl)
    · exact .inl hnew
  · rcases hh c hc with hold | hnew
    · obtain ⟨hm, hhdr⟩ := h.headers c hold
      refine ⟨hmo.marks hm, fun hdr heq => ?_⟩
      obtain ⟨hro, hpa⟩ := hhdr hdr heq
      exact ⟨fun r hr => hco r (hro r hr), fun hheight p hp => hse p (hpa hheight p hp)⟩
    · exact hnew
  rcases hwal c hc with hold | hnew
  · rcases h.walked c hold with hin | ⟨t', hpe, hv⟩
    · exact .inl (hd hin)
    rcases hmo.stay t' hpe with rfl | hsti
    · exact hst c hv
    · exact .inr ⟨t', hsti, hv⟩
  · exact hnew
end

variable {rest : List (Task δ η)} {m : Marking δ η}

theorem moved_exec (hi : w.workers[i]? = some (t :: rest)) (hfi : t.Fits g b ts w.marks)
    (hexec : exec g b w.toMarking t = some (m, more)) :
    Moved w { w with toMarking := m, workers := w.workers.set i (more ++ rest) } t more := by
  obtain ⟨hm, hto, -⟩ := exec_fits hfi hexec
  exact ⟨fun t' ht' => pending_replace hi ht', fun t' ht' => pending_set_of_mem hi (mem_append_left rest ht'), hm, hto, rfl⟩

theorem Closed.exec (h : Closed g b ts w done) (hco : Consistent g b ts) (hi : w.workers[i]? = some (t :: rest))
    (hfi : t.Fits g b ts w.marks) (hexec : exec g b w.toMarking t = some (m, more)) :
    ∃ done', Closed g b ts { w with toMarking := m, workers := w.workers.set i (more ++ rest) } done' := by
  have hmo := moved_exec hi hfi hexec
  -- marks that were there are no matter
  have hsa : ∀ {w' : Walk δ η}, w'.marks = w.marks → ∀ c, Reached g b ts Direct c → Direct c → c.codec = .dagCBOR →
      c.hash ∈ w'.marks → c.hash ∈ w.marks ∨ ∃ incomplete c', Pending w'.workers (.scan incomplete c') ∧ c'.hash = c.hash :=
    fun heq c _ _ _ hm => .inl (heq ▸ hm)
  cases t with
  | block c =>
    refine ⟨done, h.moved hmo (Finset.Subset.refl _) (by simp) (by simp) ?_ ?_ (fun _ => .inl) ?_ (by simp)⟩
    · rintro c' rfl
      rcases exec_block hexec with ⟨hstop, rfl, rfl⟩ | ⟨-, rfl, rfl⟩
      · rcases hstop with hu | hwal
        · exact .inl hu
        -- another worker of this level has it
        rcases h.walked c hwal with hd | ⟨t', hpe, hvi⟩
        · exact .inr (.inl hd)
        have hne : t' ≠ .block c := by
          rintro rfl
          rcases hvi with heq | heq <;> cases heq
        refine .inr (.inr (.inr (.inr ⟨t', (hmo.stay t' hpe).resolve_left hne, ?_⟩)))
        rcases hvi with rfl | rfl <;> rfl
      · exact .inr (.inr (.inr (.inr ⟨.visit c, hmo.new _ mem_cons_self, rfl⟩)))
    · refine hsa ?_
      rcases exec_block hexec with ⟨-, rfl, -⟩ | ⟨-, rfl, -⟩ <;> rfl
    intro c' hc'
    rcases exec_block hexec with ⟨-, rfl, -⟩ | ⟨-, rfl, rfl⟩
    · exact .inl hc'
    rcases Finset.mem_insert.mp hc' with rfl | hold
    · exact .inr (.inr ⟨.visit c', hmo.new _ mem_cons_self, .inl rfl⟩)
    · exact .inl hold
  | visit c =>
    obtain ⟨m1, hvi, heq⟩ := map_eq_some_iff.mp hexec
    cases heq
    obtain ⟨-, -, rfl⟩ := Marking.visit_eq_some hvi
    have hhe := hmo.new _ mem_cons_self
    refine ⟨done, h.moved hmo (Finset.Subset.refl _) (by simp) (by simp) ?_ ?_ (fun _ => .inl) (fun _ => .inl) ?_⟩
    · rintro c' rfl
      exact .inr (.inr (.inr (.inr ⟨.header c, hhe, rfl⟩)))
    · intro c' hrc hdi hcodec hm
      rcases Finset.mem_insert.mp hm with heq | hold
      · exact absurd heq (hco.header c' c hrc hfi.1 hdi hfi.2 hcodec)
      · exact .inl hold
    rintro c' (heq | heq)
    · cases heq
      exact .inr ⟨.header c, hhe, .inr rfl⟩
    · cases heq
  | header c =>
    obtain ⟨hdr, hhdr, heq⟩ := map_eq_some_iff.mp hexec
    cases heq
    -- the header is read: its roots and its parents are pending
    have hre : HeaderDone g b { w with workers := w.workers.set i (b.tasks hdr ++ rest) } (insert c done) c := by
      refine ⟨hfi.2.2, fun hdr' hhdr' => ?_⟩
      cases hhdr.symm.trans hhdr'
      refine ⟨fun r hr => ?_, fun hheight p hp => ?_⟩
      · obtain ⟨incomplete, hta⟩ := root_task hr
        exact .inr (.inr (.inr ⟨incomplete, hmo.new _ hta⟩))
      · exact .inr (.inr (.inr (.inr ⟨.parents hdr.parents, hmo.new _ (parents_task hheight), hp⟩)))
    refine ⟨insert c done, h.moved hmo (Finset.subset_insert c done) (by simp) (by simp) ?_ (hsa rfl) ?_ (fun _ => .inl) ?_⟩
    · rintro c' rfl
      exact .inr (.inl (Finset.mem_insert_self c done))
    · intro c' hc'
      rcases Finset.mem_insert.mp hc' with rfl | hold
      · exact .inr hre
      · exact .inl hold
    rintro c' (heq | heq)
    · cases heq
    · cases heq
      exact .inl (Finset.mem_insert_self c done)
  | object incomplete c =>
    refine ⟨done, h.moved hmo (Finset.Subset.refl _) ?_ (by simp) (fun _ hwa => hwa.elim) ?_ (fun _ => .inl) ?_ (by simp)⟩
    · rintro incomplete' c' heq
      cases heq
      rcases exec_object hexec with ⟨hstop, rfl, rfl⟩ | ⟨-, rfl, rfl⟩
      · rcases hstop with hu | hm | hv
        · exact .inl hu
        · exact .inr (.inl hm)
        · exact .inr (.inr (.inl hv))
      · exact .inr (.inl (Finset.mem_insert_self _ _))
    · intro c' hrc hdi hcodec hm
      rcases exec_object hexec with ⟨-, rfl, rfl⟩ | ⟨hd', rfl, rfl⟩
      · exact .inl hm
      rcases Finset.mem_insert.mp hm with hh | hold
      · -- who marks the hash scans the block
        have hcodec' : c.codec = .dagCBOR := hco.codec c' c hrc hfi hdi hd' hh hcodec
        rw [if_pos hcodec'] at hmo ⊢
        exact .inr ⟨incomplete, c, hmo.new _ mem_cons_self, hh.symm⟩
      · exact .inl hold
    · intro c' hc'
      rcases exec_object hexec with ⟨-, rfl, -⟩ | ⟨-, rfl, -⟩ <;> exact .inl hc'
  | scan incomplete c =>
    obtain ⟨links, hlinks, heq⟩ := map_eq_some_iff.mp hexec
    cases heq
    refine ⟨done, h.moved hmo (Finset.Subset.refl _) (by simp) ?_ (fun _ hwa => hwa.elim) (hsa rfl)
      (fun _ => .inl) (fun _ => .inl) (by simp)⟩
    rintro incomplete' c' heq links' hlinks' l hl
    cases heq
    cases hlinks.symm.trans hlinks'
    exact .inr (.inr (.inr ⟨incomplete, hmo.new _ (mem_map_of_mem hl)⟩))
  | parents cs =>
    cases hexec
    refine ⟨done, h.moved hmo (Finset.Subset.refl _) (by simp) (by simp) ?_ (hsa rfl) (fun _ => .inl) (fun _ => .inl) (by simp)⟩
    exact fun c hc => .inr (.inr (.inl (mem_append_right _ hc)))

section
omit [DecidableEq δ] [DecidableEq η]

theorem closed_start : Closed g b ts (start ts) ∅ where
  scanned := fun _ _ _ _ hm => absurd hm (Finset.notMem_empty _)
  tips := fun _ hc => .inr (.inr (.inl hc))
  headers := fun c hc => absurd hc (Finset.notMem_empty c)
  walked := fun c hc => absurd hc (Finset.notMem_empty c)

section
variable (h : Closed g b ts w done)
include h

theorem Closed.between (hmk : w'.marks = w.marks)
    (hst : ∀ t, Pending w.workers t → Pending w'.workers t) (hse : ∀ c, Seen w done c → Seen w' done c)
    (hwa : ∀ c ∈ w'.walked, c ∈ w.walked) : Closed g b ts w' done := by
  have hco : ∀ c, Covered g w c → Covered g w' c := fun c hc =>
    hc.imp id (Or.imp (fun hm => hmk ▸ hm) (Or.imp id fun ⟨incomplete, hpe⟩ => ⟨incomplete, hst _ hpe⟩))
  refine ⟨fun c hrc hd hcodec hm => ?_, fun c hc => hse c (h.tips c hc), fun c hc => ?_, fun c hc => ?_⟩
  · rcases h.scanned c hrc hd hcodec (hmk ▸ hm) with ⟨incomplete, c', hpe, hh⟩ | hlinks
    · exact .inl ⟨incomplete, c', hst _ hpe, hh⟩
    · exact .inr fun links heq l hl => hco l (hlinks links heq l hl)
  · obtain ⟨hm, hhdr⟩ := h.headers c hc
    refine ⟨hmk ▸ hm, fun hdr heq => ?_⟩
    obtain ⟨hro, hpa⟩ := hhdr hdr heq
    exact ⟨fun r hr => hco r (hro r hr), fun hheight p hp => hse p (hpa hheight p hp)⟩
  · exact (h.walked c (hwa c hc)).imp id fun ⟨t, hpe, hv⟩ => ⟨t, hst t hpe, hv⟩

theorem Closed.take {cs : List (Cid δ η)} (hi : w.workers[i]? = some [])
    (hch : w.workch = c :: cs) : Closed g b ts { w with workch := cs, workers := w.workers.set i [.block c] } done := by
  have hst : ∀ t, Pending w.workers t → Pending (w.workers.set i [.block c]) t := fun t ht =>
    (pending_set_of_pending hi ht).resolve_left not_mem_nil
  refine h.between rfl hst ?_ fun _ => id
  rintro c' (hu | hin | hq | hmem | ⟨t, hpe, hwa⟩)
  · exact .inl hu
  · exact .inr (.inl hin)
  · exact .inr (.inr (.inl hq))
  · rw [hch] at hmem
    rcases mem_cons.mp hmem with rfl | hrest
    · exact .inr (.inr (.inr (.inr ⟨.block c', pending_set_of_mem hi mem_cons_self, rfl⟩)))
    · exact .inr (.inr (.inr (.inl hrest)))
  · exact .inr (.inr (.inr (.inr ⟨t, hst t hpe, hwa⟩)))

theorem Closed.level (hid : w.Idle) (n : Nat) :
    Closed g b ts { w with walked := ∅, toWalk := [], workch := w.toWalk, workers := List.replicate n [] } done := by
  have hn : ∀ t, ¬ Pending w.workers t := not_pending_of_all_nil hid.2
  refine h.between rfl (fun t ht => absurd ht (hn t)) ?_ fun c hc => absurd hc (Finset.notMem_empty c)
  rintro c (hu | hin | hq | hmem | ⟨t, hpe, -⟩)
  · exact .inl hu
  · exact .inr (.inl hin)
  · exact .inr (.inr (.inr (.inl hq)))
  · rw [hid.1] at hmem
    cases hmem
  · exact absurd hpe (hn t)
end
end

variable (g b ts) in
def Inv (w : Walk δ η) : Prop :=
  w.failed = false → Walks g b ts w ∧ ∃ done, Closed g b ts w done

theorem Inv.step (hco : Consistent g b ts) (h : Inv g b ts w) (hst : step g b w a = some w') : Inv g b ts w' := by
  intro hfa
  obtain ⟨hwa, done, hclosed⟩ := h (failed_of_step hst hfa)
  refine ⟨hwa.step hst hfa, ?_⟩
  cases a with
  | work i =>
    obtain ⟨stack, hi, hwo⟩ := bind_eq_some_iff.mp hst
    rcases work_cases hwo with ⟨c, cs, rfl, hch, rfl⟩ | htr | ⟨t, rest, m, added, rfl, hexec, rfl⟩
    · exact ⟨done, hclosed.take hi hch⟩
    · exact absurd (hfa.symm.trans htr) Bool.false_ne_true
    · exact hclosed.exec hco hi (hwa.tasks t ⟨t :: rest, mem_of_getElem? hi, mem_cons_self⟩) hexec
  | level =>
    obtain ⟨hcond, heq⟩ := ite_none_right_eq_some.mp hst
    cases heq
    exact ⟨done, hclosed.level hcond.1 _⟩

theorem inv_run (hco : Consistent g b ts) {as : List Label} (hrun : run (step g b) (start ts) as = some w) : Inv g b ts w :=
  run_invariant (fun _ _ _ hw hst => hw.step hco hst) (fun _ => ⟨walks_start, ∅, closed_start⟩) hrun

section
variable (hsucceeded : w.Succeeded) (hclosed : Closed g b ts w done)

include hsucceeded hclosed

omit [DecidableEq δ] [DecidableEq η]

variable {c : Cid δ η}

theorem Closed.chain (hc : Chain g ts Direct c) : c.isUnitaryObject = true ∨ c ∈ done := by
  obtain ⟨⟨hch, hst⟩, -, hto⟩ := hsucceeded
  have hse : ∀ c, Seen w done c → c.isUnitaryObject = true ∨ c ∈ done := by
    rintro c (hu | hin | hq | hmem | ⟨t, hpe, -⟩)
    · exact .inl hu
    · exact .inr hin
    · rw [hto] at hq
      cases hq
    · rw [hch] at hmem
      cases hmem
    · exact absurd hpe (not_pending_of_all_nil hst t)
  induction hc with
  | tip hc => exact hse _ (hclosed.tips _ hc)
  | parent hc hdi hhdr hheight hp ih =>
    have hd := ih.resolve_left (Bool.eq_false_iff.mp hdi)
    exact hse _ (((hclosed.headers _ hd).2 _ hhdr).2 hheight _ hp)

theorem Closed.reached (hc : Reached g b ts Direct c) : Covered g w c := by
  induction hc with
  | root hc hdi hhdr hr =>
    have hd := (hclosed.chain hsucceeded hc).resolve_left (Bool.eq_false_iff.mp hdi)
    exact ((hclosed.headers _ hd).2 _ hhdr).1 _ hr
  | @link c l links hc hdi hcodec hlinks hl ih =>
    have hv : g.view c ≠ none := by
      intro hn
      rw [Objects.links, hn] at hlinks
      cases hlinks
    rcases ih with hu | hm | hn | ⟨incomplete, hpe⟩
    · exact absurd hu (Bool.eq_false_iff.mp hdi)
    · rcases hclosed.scanned c hc hdi hcodec hm with ⟨incomplete, c', hpe, -⟩ | hco
      · exact absurd hpe (not_pending_of_all_nil hsucceeded.1.2 _)
      · exact hco links hlinks l hl
    · exact absurd hn hv
    · exact absurd hpe (not_pending_of_all_nil hsucceeded.1.2 _)

theorem Closed.marks (hc : Retained g b ts Direct c) : c.hash ∈ w.marks := by
  obtain ⟨hc, hdi, hv⟩ := hc
  rcases hc with hch | hrc
  · have hd := (hclosed.chain hsucceeded hch).resolve_left (Bool.eq_false_iff.mp hdi)
    exact (hclosed.headers c hd).1
  rcases hclosed.reached hsucceeded hrc with hu | hm | hn | ⟨incomplete, hpe⟩
  · exact absurd hu (Bool.eq_false_iff.mp hdi)
  · exact hm
  · exact absurd hn hv
  · exact absurd hpe (not_pending_of_all_nil hsucceeded.1.2 _)
end
end Walk

/-- **Marking.**  A walk that succeeds has marked every retained object exactly when each is also reached without going
through an inline block. -/
theorem walkChain_marks {g : Objects δ η} {b : Bounds} {ts : List (Cid δ η)} (hcons : Consistent g b ts)
    {as : List Walk.Label} {w : Walk δ η} (hrun : run (Walk.step g b) (Walk.start ts) as = some w) (hsucceeded : w.Succeeded) :
    (∀ c, Retained g b ts Whole c → c.hash ∈ w.marks) ↔
      ∀ c, Retained g b ts Whole c → ∃ c', Retained g b ts Direct c' ∧ c'.hash = c.hash := by
  obtain ⟨hwa, done, hclosed⟩ := Walk.inv_run hcons hrun hsucceeded.2.1
  refine forall_congr' fun c => forall_congr' fun hc => ⟨fun hm => ?_, ?_⟩
  · obtain ⟨c', hwal, hd, hh⟩ := hwa.marks c.hash hm
    exact ⟨c', ⟨hwal, hd, g.view_congr hh ▸ hc.2.2⟩, hh⟩
  · rintro ⟨c', hc', hh⟩
    exact hh ▸ hclosed.marks hsucceeded hc'

/-! ## Objects that are not marked -/

def genesis (links : Nat → List (Cid Nat Nat)) : Objects Nat Nat where
  hot := some
  cold := fun _ => none
  scanForLinks := fun data => some (links data)
  unmarshalHeader := fun data =>
    if data = 1 then some ⟨0, ⟨.dagCBOR, .digest 9⟩, ⟨.dagCBOR, .digest 9⟩, ⟨.dagCBOR, .digest 2⟩, []⟩ else none

def cbor (hash : Nat) : Cid Nat Nat := ⟨.dagCBOR, .digest hash⟩

def sharedLinks (data : Nat) : List (Cid Nat Nat) :=
  if data = 2 then [⟨.dagCBOR, .identity 3⟩, cbor 4] else if data = 3 then [cbor 4] else []

variable {through : Cid Nat Nat → Prop} {links : Nat → List (Cid Nat Nat)}

theorem chain_genesis {c : Cid Nat Nat}
    (h : Chain (genesis links) [cbor 1] through c) : c = cbor 1 := by
  cases h with
  | tip hc => exact mem_singleton.mp hc
  | parent hc hthrough hhdr hheight hp =>
    obtain ⟨data, -, hhdr⟩ := bind_eq_some_iff.mp hhdr
    obtain ⟨-, rfl⟩ : data = 1 ∧ _ = _ := by simpa [genesis] using hhdr
    cases hp

theorem reached_root (h : through (cbor 1)) :
    Reached (genesis links) ⟨0, 0, 2⟩ [cbor 1] through (cbor 2) :=
  .root (.tip mem_cons_self) h rfl (mem_cons_self : cbor 2 ∈ [cbor 2])

theorem reached_shared {c : Cid Nat Nat} (h : Reached (genesis sharedLinks) ⟨0, 0, 2⟩ [cbor 1] through c) :
    c ∈ [cbor 2, ⟨.dagCBOR, .identity 3⟩, cbor 4] := by
  induction h with
  | root hc hthrough hhdr hr =>
    obtain rfl := chain_genesis hc
    cases hhdr
    revert hr
    exact (by decide : ∀ r ∈ Bounds.roots ⟨0, 0, 2⟩ (⟨0, cbor 9, cbor 9, cbor 2, []⟩ : BlockHeader Nat Nat), _) _
  | @link c l links hc hthrough hcodec hlinks hl ih =>
    have hclosed : ∀ c ∈ [cbor 2, ⟨.dagCBOR, .identity 3⟩, cbor 4], ∀ l ∈ ((genesis sharedLinks).links c).getD [],
        l ∈ [cbor 2, ⟨.dagCBOR, .identity 3⟩, cbor 4] := by decide
    exact hclosed c ih l (by rw [hlinks]; exact hl)

theorem walkChain_marks_shared :
    ∃ w, run (Walk.step (genesis sharedLinks) ⟨0, 0, 2⟩) (Walk.start [cbor 1])
        [.level, .work 0, .work 0, .work 0, .work 0, .work 0, .work 0, .work 0, .work 0, .work 0] = some w ∧
      w.Succeeded ∧ ∀ c, Retained (genesis sharedLinks) ⟨0, 0, 2⟩ [cbor 1] Whole c → c.hash ∈ w.marks := by
  have hco : Consistent (genesis sharedLinks) ⟨0, 0, 2⟩ [cbor 1] := by
    constructor
    · intro c c' _ hc' _ _ _ _
      exact (by decide : ∀ c ∈ [cbor 2, ⟨.dagCBOR, .identity 3⟩, cbor 4], c.codec = .dagCBOR) c' (reached_shared hc')
    intro c c' hc hc' _ _ _
    obtain rfl := chain_genesis hc'
    exact (by decide : ∀ c ∈ [cbor 2, ⟨.dagCBOR, .identity 3⟩, cbor 4], c.hash ≠ (cbor 1).hash) c (reached_shared hc)
  have ho : Reached (genesis sharedLinks) ⟨0, 0, 2⟩ [cbor 1] Direct (cbor 4) :=
    .link (reached_root rfl) rfl rfl rfl (by decide : cbor 4 ∈ sharedLinks 2)
  obtain ⟨w, hrun, hsucceeded⟩ : ∃ w, run (Walk.step (genesis sharedLinks) ⟨0, 0, 2⟩) (Walk.start [cbor 1])
      [.level, .work 0, .work 0, .work 0, .work 0, .work 0, .work 0, .work 0, .work 0, .work 0] = some w ∧ w.Succeeded :=
    ⟨_, rfl, by decide⟩
  refine ⟨w, hrun, hsucceeded, (walkChain_marks hco hrun hsucceeded).mpr ?_⟩
  rintro c ⟨hc, hd, hv⟩
  refine ⟨c, ⟨?_, hd, hv⟩, rfl⟩
  rcases hc with hch | hrc
  · obtain rfl := chain_genesis hch
    exact .inl (.tip mem_cons_self)
  have hmem := reached_shared hrc
  simp only [mem_cons, not_mem_nil, or_false] at hmem
  rcases hmem with rfl | rfl | rfl
  · exact .inr (reached_root rfl)
  · cases hd
  · exact .inr ho

/-- **Objects that a walk misses**: linked from an inline block only, from a block marked under another codec, or from a
header. -/
theorem walkChain_misses : (∃ links w, run (Walk.step (genesis links) ⟨0, 0, 2⟩) (Walk.start [cbor 1])
        [.level, .work 0, .work 0, .work 0, .work 0, .work 0, .work 0, .work 0] = some w ∧ w.Succeeded ∧
      Retained (genesis links) ⟨0, 0, 2⟩ [cbor 1] Whole (cbor 4) ∧ (cbor 4).hash ∉ w.marks) ∧
    ∃ links w, run (Walk.step (genesis links) ⟨0, 0, 2⟩) (Walk.start [cbor 1])
        [.level, .work 0, .work 0, .work 0, .work 0, .work 0, .work 0, .work 0, .work 0] = some w ∧ w.Succeeded ∧
      Retained (genesis links) ⟨0, 0, 2⟩ [cbor 1] Whole (cbor 5) ∧ (cbor 5).hash ∉ w.marks := by
  constructor
  · -- 2 → inline 3 → 4
    let links : Nat → List (Cid Nat Nat) := fun data =>
      if data = 2 then [⟨.dagCBOR, .identity 3⟩] else if data = 3 then [cbor 4] else []
    have hinl : Reached (genesis links) ⟨0, 0, 2⟩ [cbor 1] Whole ⟨.dagCBOR, .identity 3⟩ :=
      .link (reached_root rfl) rfl rfl rfl (by decide : _ ∈ links 2)
    exact ⟨links, _, rfl, by decide, ⟨.inr (.link hinl rfl rfl rfl (by decide : _ ∈ links 3)), rfl, by decide⟩, by decide⟩
  · -- 2 → 4 as raw, then 2 → 4 → 5 as dag-cbor
    let links : Nat → List (Cid Nat Nat) := fun data =>
      if data = 2 then [⟨.other 85, .digest 4⟩, cbor 4] else if data = 4 then [cbor 5] else []
    have hb : Reached (genesis links) ⟨0, 0, 2⟩ [cbor 1] Whole (cbor 4) :=
      .link (reached_root rfl) rfl rfl rfl (by decide : _ ∈ links 2)
    exact ⟨links, _, rfl, by decide, ⟨.inr (.link hb rfl rfl rfl (by decide : _ ∈ links 4)), rfl, by decide⟩, by decide⟩

end Lotus.Splitstore
