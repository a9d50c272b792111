/-
# A sequence that is handed out piece by piece.

A piece can be cut short or killed; either kills the linked pieces after it. The items taken are always a prefix of the
sequence. As long as nothing taken has been cut, the rest is *frayed*: whole pieces, then at most one that is cut short, then
dead ones; afterwards it is dead.
-/
import Mathlib.Data.List.Infix
import Mathlib.Data.List.Nodup

namespace Lotus.Lib.Strand
open List
variable {α : Type*}

/-- A piece: its items, whether it can be taken, and whether it is linked to the next. -/
structure Piece (α : Type*) where
  items : List α
  alive : Bool
  linked : Bool

def kill : List (Piece α) → List (Piece α)
  | [] => []
  | c :: l => ⟨[], false, false⟩ :: if c.linked then kill l else l

def sever (c : Piece α) (l : List (Piece α)) : List (Piece α) := if c.linked then kill l else l

theorem kill_cons (c : Piece α) (l : List (Piece α)) : kill (c :: l) = ⟨[], false, false⟩ :: sever c l := rfl

inductive Damaged : List (Piece α) → List (Piece α) → Prop
  | refl {l} : Damaged l l
  | head {c c' l} : c'.items <+: c.items → (c.alive = false → c'.alive = false) → Damaged (c :: l) (c' :: sever c l)
  | tail {c l l'} : Damaged l l' → Damaged (c :: l) (c :: l')

variable {l l' pre : List (Piece α)}

theorem Damaged.append_left (h : Damaged l l') (pre : List (Piece α)) : Damaged (pre ++ l) (pre ++ l') := by
  induction pre with
  | nil => exact h
  | cons c pre ih => exact .tail ih

theorem damaged_kill (l : List (Piece α)) : Damaged l (kill l) := by
  cases l with
  | nil => exact .refl
  | cons c l => exact .head nil_prefix fun _ => rfl

/-! ## Dead pieces -/

def AllDead (l : List (Piece α)) : Prop := ∀ c ∈ l, c.alive = false

@[simp] theorem allDead_nil : AllDead ([] : List (Piece α)) := by simp [AllDead]

variable {c : Piece α}

@[simp] theorem allDead_cons : AllDead (c :: l) ↔ c.alive = false ∧ AllDead l := by simp [AllDead]

theorem AllDead.kill (h : AllDead l) : AllDead (kill l) := by
  induction l with
  | nil => exact h
  | cons c l ih =>
    rw [allDead_cons] at h
    rw [kill_cons, sever]
    split <;> simp [h.2, ih h.2]

theorem AllDead.sever (h : AllDead l) : AllDead (sever c l) := by
  unfold Strand.sever
  split
  · exact h.kill
  · exact h

theorem Damaged.allDead (hd : Damaged l l') (h : AllDead l) : AllDead l' := by
  induction hd with
  | refl => exact h
  | head _ ha =>
    rw [allDead_cons] at h
    exact allDead_cons.mpr ⟨ha h.1, h.2.sever⟩
  | tail _ ih =>
    rw [allDead_cons] at h
    exact allDead_cons.mpr ⟨h.1, ih h.2⟩

theorem Damaged.allDead_drop (hd : Damaged l l') (n : Nat) (h : AllDead (l.drop n)) : AllDead (l'.drop n) := by
  induction hd generalizing n with
  | refl => exact h
  | @head c c' l hit ha =>
    rcases n with _ | n
    · exact (Damaged.head hit ha).allDead h
    -- what is killed was dead from `n` on, and the killing revives nothing there
    unfold sever
    split
    · exact allDead_drop_kill n h
    · exact h
  | tail hd ih =>
    cases n with
    | zero => exact (Damaged.tail hd).allDead h
    | succ n => exact ih n h
where
  allDead_drop_kill {l : List (Piece α)} (n : Nat) (h : AllDead (l.drop n)) : AllDead ((kill l).drop n) := by
    induction l generalizing n with
    | nil => exact h
    | cons c l ih =>
      rcases n with _ | n
      · exact AllDead.kill h
      rw [kill_cons, sever]
      split
      · exact ih n h
      · exact h

/-! ## Frayed lists -/

inductive Frayed : List (List α) → List (Piece α) → Prop
  | nil : Frayed [] []
  | whole {ms origs c l} : c.items = ms → c.alive = true → (c.linked = true ∨ AllDead l) → Frayed origs l →
      Frayed (ms :: origs) (c :: l)
  | torn {ms origs c l} : c.items <+: ms → AllDead l → Frayed (ms :: origs) (c :: l)

variable {origs : List (List α)}

theorem Frayed.allDead_kill (h : Frayed origs l) : AllDead (kill l) := by
  induction h with
  | nil => exact allDead_nil
  | @whole ms origs c l _ _ hli _ ih =>
    rw [kill_cons, sever, allDead_cons]
    refine ⟨rfl, ?_⟩
    split
    · exact ih
    · exact hli.resolve_left ‹_›
  | torn _ hl => exact allDead_cons.mpr ⟨rfl, hl.sever⟩

theorem Frayed.allDead_sever (h : Frayed origs (c :: l)) : AllDead (sever c l) :=
  (allDead_cons.mp h.allDead_kill).2

theorem Frayed.isPrefix_head {ms : List α} (h : Frayed (ms :: origs) (c :: l)) : c.items <+: ms := by
  cases h with
  | whole hit _ _ _ => exact hit ▸ prefix_rfl
  | torn hit _ => exact hit

theorem Damaged.frayed (hd : Damaged l l') (h : Frayed origs l) : Frayed origs l' := by
  induction hd generalizing origs with
  | refl => exact h
  | @head c c' l hit ha =>
    rcases origs with _ | ⟨ms, origs⟩
    · cases h
    · exact .torn (hit.trans h.isPrefix_head) h.allDead_sever
  | tail hd ih =>
    cases h with
    | whole hit ha hli hl => exact .whole hit ha (hli.imp_right hd.allDead) (ih hl)
    | torn hit hl => exact .torn hit (hd.allDead hl)

theorem Frayed.split {mid : List (Piece α)} (hc : c.alive = true) :
    ∀ {origs : List (List α)}, Frayed origs (mid ++ c :: l) →
      ∃ ms origs', origs = mid.map (·.items) ++ ms :: origs' ∧
        (∀ d ∈ mid, d.alive = true ∧ d.linked = true) ∧ c.items <+: ms ∧
        (AllDead l ∨ c.items = ms ∧ c.linked = true ∧ Frayed origs' l) := by
  induction mid with
  | nil =>
    intro origs h
    cases h with
    | @whole ms origs' _ _ hit ha hli hl =>
      refine ⟨ms, origs', rfl, by simp, hit ▸ prefix_rfl, ?_⟩
      rcases hli with hli | hd
      · exact .inr ⟨hit, hli, hl⟩
      · exact .inl hd
    | @torn ms origs' _ _ hit hl => exact ⟨ms, origs', rfl, by simp, hit, .inl hl⟩
  | cons d mid ih =>
    intro origs h
    -- the piece `c` is alive behind `d`, so that `d` is whole and linked
    have hn : ¬ AllDead (mid ++ c :: l) := fun hd => by
      simpa [hc] using hd c (by simp)
    cases h with
    | @whole ms origs' _ _ hit ha hli hl =>
      obtain ⟨ms', origs'', rfl, hm, hpr, hrest⟩ := ih hl
      refine ⟨ms', origs'', by simp [hit], ?_, hpr, hrest⟩
      intro e he
      rcases mem_cons.mp he with rfl | he
      · exact ⟨ha, hli.resolve_right hn⟩
      · exact hm e he
    | torn hit hl => exact absurd hl hn

theorem Frayed.allDead_kill_append (h : Frayed origs l) (hpr : ∀ c ∈ pre, c.linked = true) :
    AllDead ((kill (pre ++ l)).drop pre.length) := by
  induction pre with
  | nil => exact h.allDead_kill
  | cons c pre ih =>
    have hc : c.linked = true := hpr c (by simp)
    rw [cons_append, kill_cons, sever, if_pos hc]
    exact ih fun d hd => hpr d (by simp [hd])

theorem Damaged.append (hd : Damaged (pre ++ l) l') (hpr : ∀ c ∈ pre, c.linked = true) (h : Frayed origs l) :
    (∃ l'', l' = pre ++ l'' ∧ Damaged l l'') ∨ AllDead (l'.drop pre.length) := by
  induction pre generalizing l' with
  | nil => exact .inl ⟨l', rfl, hd⟩
  | cons c pre ih =>
    have hc : c.linked = true := hpr c (by simp)
    have hrest : ∀ d ∈ pre, d.linked = true := fun d hd => hpr d (by simp [hd])
    cases hd with
    | refl => exact .inl ⟨l, rfl, .refl⟩
    | head _ _ =>
      right
      rw [sever, if_pos hc]
      exact h.allDead_kill_append hrest
    | tail hd =>
      rcases ih hd hrest with ⟨l'', rfl, hd''⟩ | hde
      · exact .inl ⟨l'', rfl, hd''⟩
      · exact .inr hde

/-! ## Runs -/

structure State (α : Type*) where
  pieces : List (Piece α)
  pos : Nat
  out : List α

inductive Sound (origs : List (List α)) (s : State α) : Prop
  | live (done rest : List (List α)) (pre l : List (Piece α)) : origs = done ++ rest → s.pieces = pre ++ l →
      s.pos = pre.length → s.out = done.flatten → (∀ c ∈ pre, c.linked = true) → Frayed rest l → Sound origs s
  | stopped : AllDead (s.pieces.drop s.pos) → s.out <+: origs.flatten → Sound origs s

theorem Sound.start (h : Frayed origs l) : Sound origs ⟨l, 0, []⟩ :=
  .live [] origs [] l rfl rfl rfl rfl (by simp) h

variable {s : State α}

theorem Sound.isPrefix_out (h : Sound origs s) : s.out <+: origs.flatten := by
  rcases h with ⟨done, rest, -, -, rfl, -, -, ho, -, -⟩ | ⟨-, ho⟩
  · rw [ho, flatten_append]
    exact prefix_append _ _
  · exact ho

theorem Sound.damage (h : Sound origs s) (hd : Damaged s.pieces l') : Sound origs { s with pieces := l' } := by
  have hpr := h.isPrefix_out
  rcases h with ⟨done, rest, pre, l, ho, hpcs, hpo, hou, hpre, hl⟩ | ⟨hde, -⟩
  · rw [hpcs] at hd
    rcases hd.append hpre hl with ⟨l'', rfl, hd''⟩ | hde
    · exact .live done rest pre l'' ho rfl hpo hou hpre (hd''.frayed hl)
    refine .stopped ?_ hpr
    show AllDead (l'.drop s.pos)
    rw [hpo]
    exact hde
  · exact .stopped (hd.allDead_drop _ hde) hpr

section
variable {origs : List (List α)} {s : State α} {pre mid l : List (Piece α)} {c : Piece α}

theorem Sound.alive_before (h : Sound origs s) (hpcs : s.pieces = pre ++ (mid ++ c :: l))
    (hpo : s.pos = pre.length) (hc : c.alive = true) : ∀ d ∈ mid, d.alive = true := by
  rcases h with ⟨done, rest, pre', l', rfl, hp', hpo', ho, hli, hl⟩ | ⟨hde, -⟩
  · obtain ⟨rfl, rfl⟩ : pre' = pre ∧ l' = mid ++ c :: l :=
      append_inj (hp'.symm.trans hpcs) (hpo'.symm.trans hpo)
    obtain ⟨ms, origs', rfl, hm, -, -⟩ := hl.split hc
    exact fun d hd => (hm d hd).1
  · rw [hpcs, hpo, drop_left] at hde
    simpa [hc] using hde c (by simp)

theorem Sound.allDead_sever (h : Sound origs s) (hpcs : s.pieces = pre ++ c :: l)
    (hpo : s.pos = pre.length) : AllDead (sever c l) := by
  rcases h with ⟨done, rest, pre', l', rfl, hp', hpo', ho, hli, hl⟩ | ⟨hd, -⟩
  · obtain ⟨rfl, rfl⟩ : pre' = pre ∧ l' = c :: l :=
      append_inj (hp'.symm.trans hpcs) (hpo'.symm.trans hpo)
    exact hl.allDead_sever
  · rw [hpcs, hpo, drop_left, allDead_cons] at hd
    exact hd.2.sever

theorem Sound.take (h : Sound origs s) (hpcs : s.pieces = pre ++ (mid ++ c :: l))
    (hpo : s.pos = pre.length) (hc : c.alive = true) :
    Sound origs { s with pos := pre.length + (mid.length + 1), out := s.out ++ mid.flatMap (·.items) ++ c.items } := by
  have hwh : s.pieces = (pre ++ mid ++ [c]) ++ l := by simp [hpcs]
  have hlen : (pre ++ mid ++ [c]).length = pre.length + (mid.length + 1) := by simp
  rcases h with ⟨done, rest, pre', l', rfl, hp', hpo', ho, hlin, hl⟩ | ⟨hde, -⟩
  · obtain ⟨rfl, rfl⟩ : pre' = pre ∧ l' = mid ++ c :: l :=
      append_inj (hp'.symm.trans hpcs) (hpo'.symm.trans hpo)
    obtain ⟨ms, origs', rfl, hm, hit, hrest⟩ := hl.split hc
    rcases hrest with hde | ⟨rfl, hli, hl'⟩
    · -- nothing is left after the piece, whether it was cut short or not
      refine .stopped ?_ ?_
      · show AllDead (s.pieces.drop _)
        rw [hwh, ← hlen, drop_left]
        exact hde
      show s.out ++ _ ++ _ <+: _
      rw [ho, flatMap_def, append_assoc]
      simp only [flatten_append, flatten_cons]
      rw [prefix_append_right_inj, prefix_append_right_inj]
      exact hit.trans (prefix_append _ _)
    refine .live (done ++ mid.map (·.items) ++ [c.items]) origs' (pre' ++ mid ++ [c]) l (by simp) hwh
      hlen.symm (by simp [ho, flatMap_def]) ?_ hl'
    intro d hd
    rcases mem_append.mp hd with hd | hd
    · rcases mem_append.mp hd with hd | hd
      · exact hlin d hd
      · exact (hm d hd).2
    · rw [mem_singleton.mp hd]
      exact hli
  have hdrop : s.pieces.drop s.pos = mid ++ c :: l := by rw [hpcs, hpo, drop_left]
  have := hde c (by simp [hdrop])
  simp [hc] at this
end

/-! ## Items of several sequences -/

section
variable {κ : Type*} [DecidableEq κ]

def ofTag (k : κ) (l : List (κ × α)) : List α := (l.filter fun x => x.1 = k).map (·.2)

@[simp] theorem ofTag_append (k : κ) (l l' : List (κ × α)) : ofTag k (l ++ l') = ofTag k l ++ ofTag k l' := by
  simp [ofTag]

theorem ofTag_map (k k' : κ) (l : List α) : ofTag k (l.map fun x => (k', x)) = if k' = k then l else [] := by
  unfold ofTag
  rw [filter_map, map_map]
  split <;> simp_all [Function.comp_def]

variable {l : List (κ × α)}

theorem mem_ofTag {k : κ} {x : α} : x ∈ ofTag k l ↔ (k, x) ∈ l := by
  simp [ofTag]

theorem nodup_of_ofTag (h : ∀ k, (ofTag k l).Nodup) : l.Nodup := by
  induction l with
  | nil => exact nodup_nil
  | cons x l ih =>
    have hco : ∀ k, ofTag k (x :: l) = ofTag k [x] ++ ofTag k l := fun k => ofTag_append k [x] l
    refine nodup_cons.mpr ⟨fun hx => ?_, ih fun k => ?_⟩
    · have hn := h x.1
      rw [hco, nodup_append] at hn
      exact hn.2.2 x.2 (by simp [mem_ofTag]) x.2 (mem_ofTag.mpr hx) rfl
    have hn := h k
    rw [hco, nodup_append] at hn
    exact hn.2.1

theorem ofTag_rename {κ' : Type*} [DecidableEq κ'] {g : κ → κ'} {k : κ}
    (hg : ∀ x ∈ l, g x.1 = g k → x.1 = k) : ofTag (g k) (l.map fun x => (g x.1, x.2)) = ofTag k l := by
  induction l with
  | nil => rfl
  | cons x l ih =>
    have hrest := ih fun y hy => hg y (by simp [hy])
    have hx : g x.1 = g k ↔ x.1 = k := ⟨hg x (by simp), congrArg g⟩
    by_cases hk : x.1 = k
    · simpa [ofTag, hk] using hrest
    · simpa [ofTag, hk, hx] using hrest
end
end Lotus.Lib.Strand
