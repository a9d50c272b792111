/-
# The greedy selection takes the chains of a line in order.

`tryToAdd` does not look at the chains a chain depends on. That those of a sender are added in order rests on the order in
which the loops meet them: of every line, those left and valid stand in a row. Only a trimmed chain, the last valid one of
its line, is pushed down.
-/
import Lotus.Mpool.Track

namespace Lotus.Mpool
open Lib.Strand List Lines
variable {F E : Type}

/-! ## The order of the chains that are left -/

section
variable {before : ChainRef → ChainRef → Bool} {r : ChainRef} {l : List ChainRef} {q : ChainRef → Bool}

theorem filter_pushDown_of_not (hr : q r = false) : (pushDown before r l).filter q = l.filter q := by
  induction l with
  | nil => simp [pushDown, hr]
  | cons r' l ih =>
    unfold pushDown
    split
    · rw [filter_cons_of_neg (by simp [hr])]
    · rw [filter_cons, filter_cons, ih]

theorem filter_pushDown_of_empty (hl : l.filter q = []) : (pushDown before r l).filter q = [r].filter q := by
  induction l with
  | nil => rfl
  | cons r' l ih =>
    have hr' : ¬ q r' = true := by
      intro h
      simp [h] at hl
    rw [filter_cons_of_neg hr'] at hl
    unfold pushDown
    split
    · rw [filter_cons, filter_cons_of_neg hr', hl, filter_cons, filter_nil]
    · rw [filter_cons_of_neg hr', ih hl]
end

section
variable [Zero F] [Zero E]

def placesLeft (ls : Lines F E) (chains : List ChainRef) (k : Nat) : List Nat :=
  (chains.filter fun r => r.1 = k && (ls.get r).valid).map (·.2)

/-- Of every line, the chains left and valid stand in a row, from the first that was not added. -/
def Lined (pos : Nat → Nat) (ls : Lines F E) (chains : List ChainRef) : Prop :=
  ∀ k, ∃ n, placesLeft ls chains k = range' (pos k) n

variable {pos : Nat → Nat} {ls : Lines F E} {chains : List ChainRef} {r : ChainRef}

theorem lined_nil : Lined pos ls [] := fun _ => ⟨0, rfl⟩

section
variable (h : Lined pos ls (r :: chains))
include h

theorem Lined.of_invalid (hr : (ls.get r).valid = false) : Lined pos ls chains := by
  intro k
  obtain ⟨n, hn⟩ := h k
  refine ⟨n, ?_⟩
  rw [← hn, placesLeft, placesLeft, filter_cons_of_neg (by simp [hr])]

theorem Lined.next (hr : (ls.get r).valid = true) :
    pos r.1 = r.2 ∧ ∃ n, placesLeft ls chains r.1 = range' (r.2 + 1) n := by
  obtain ⟨n, hn⟩ := h r.1
  rw [placesLeft, filter_cons_of_pos (by simp [hr]), map_cons] at hn
  rcases n with _ | n
  · simp at hn
  rw [range'_succ] at hn
  obtain ⟨hhead, hta⟩ := cons.inj hn
  exact ⟨hhead.symm, n, hhead ▸ hta⟩

theorem Lined.of_valid (hr : (ls.get r).valid = true) :
    Lined (Function.update pos r.1 (r.2 + 1)) ls chains := by
  intro k
  by_cases hk : k = r.1
  · subst hk
    rw [Function.update_self]
    exact (h.next hr).2
  rw [Function.update_of_ne hk]
  obtain ⟨n, hn⟩ := h k
  refine ⟨n, ?_⟩
  rw [← hn, placesLeft, placesLeft, filter_cons_of_neg (by simp [Ne.symm hk])]
end

theorem mem_placesLeft {k p : Nat} : p ∈ placesLeft ls chains k ↔ (k, p) ∈ chains ∧ (ls.get (k, p)).valid = true := by
  simp [placesLeft]

theorem placesLeft_update_ne {f : List (MsgChain F E) → List (MsgChain F E)} {k : Nat} (hk : k ≠ r.1) :
    placesLeft (ls.update r f) chains k = placesLeft ls chains k := by
  unfold placesLeft
  congr 1
  refine filter_congr fun r' _ => ?_
  by_cases hr' : r'.1 = k
  · have hli : (ls.update r f).line r'.1 = ls.line r'.1 := line_update_ne ls (hr' ▸ hk)
    simp only [Lines.get, hli]
  · simp [hr']

section
variable (down : Bool) (before : ChainRef → ChainRef → Bool)

theorem placesLeft_pushed_ne {k : Nat} (hk : k ≠ r.1) :
    placesLeft ls (if down then pushDown before r chains else r :: chains) k = placesLeft ls chains k := by
  have hr : (r.1 = k && (ls.get r).valid) = false := by simp [Ne.symm hk]
  unfold placesLeft
  split
  · rw [filter_pushDown_of_not hr]
  · rw [filter_cons_of_neg (by simp [hr])]

theorem placesLeft_pushed_self (h : placesLeft ls chains r.1 = []) :
    placesLeft ls (if down then pushDown before r chains else r :: chains) r.1 =
      if (ls.get r).valid then [r.2] else [] := by
  have hn := map_eq_nil_iff.mp h
  have ho : placesLeft ls [r] r.1 = if (ls.get r).valid then [r.2] else [] := by
    unfold placesLeft
    split <;> simp_all
  rw [← ho]
  unfold placesLeft
  split
  · rw [filter_pushDown_of_empty hn]
  · rw [filter_cons, hn, filter_cons, filter_nil]
end
end

/-! ## Adding a chain -/

theorem SelectedMessages.tryToAdd_some {sm sm' : SelectedMessages} {mc : MsgChain F E}
    (hkn : mc.sigType ≠ .unknown) (h : sm.tryToAdd mc = some sm') :
    sm' = sm.append mc.sigType mc.msgs mc.gasLimit mc.msgs.length ∧ mc.gasLimit ≤ sm.gasLimit ∧
      mc.msgs.length + sm.msgs.length ≤ blockMessageLimit := by
  obtain ⟨limit, hli⟩ := sm.limit_isSome hkn
  unfold SelectedMessages.tryToAdd at h
  rw [hli] at h
  split at h
  · cases h
  rename_i hfi
  obtain ⟨hco, hg⟩ := not_or.mp hfi
  dsimp only at h
  split at h
  · cases h
  · exact ⟨(Option.some.inj h).symm, not_lt.mp hg, not_lt.mp hco⟩

structure Blocks [Zero F] [Zero E] (sm : SelectedMessages) (ls : Lines F E) (r : ChainRef) : Prop where
  valid : (ls.get r).valid = true
  misfit : sm.tryToAdd (ls.get r) = none

section
variable [LinearOrder F] [Zero F] [Zero E] (fl : Floats F E) (baseFee : Int) {ls : Lines F E}

theorem Blocks.trimChain {sm : SelectedMessages} {r : ChainRef} (h : Blocks sm ls r) :
    ∃ gasLimit msgLimit, sm.trimChain fl baseFee ls r =
      ls.update r (trim fl baseFee gasLimit msgLimit (ls.prev r)) := by
  have hm := h.misfit
  unfold SelectedMessages.tryToAdd at hm
  simp only [SelectedMessages.trimChain]
  generalize ls.get r = mc at hm ⊢
  generalize sm.limit mc.sigType = limit at hm ⊢
  rw [if_pos]
  · exact ⟨_, _, rfl⟩
  split at hm
  · rename_i hb
    rcases hb with hco | hg
    · right
      rcases limit with _ | limit <;> simp only <;> omega
    · exact .inl hg
  rcases limit with _ | limit
  · cases hm
  simp only at hm ⊢
  split at hm
  · right
    omega
  · cases hm

variable {origs : Nat → List (List SignedMessage)} {base : List SignedMessage} {sm sm' : SelectedMessages}
  {ls : Lines F E} {chains : List ChainRef} {r : ChainRef}

variable (origs base sm) in
def Greedy
    (ls : Lines F E) (chains : List ChainRef) : Prop :=
  ∃ pos picks, Track origs base sm ls pos picks ∧ Lined pos ls chains

section
omit [LinearOrder F]

theorem Greedy.stop (h : Greedy origs base sm ls chains) : Greedy origs base sm ls [] := by
  obtain ⟨pos, picks, htr, -⟩ := h
  exact ⟨pos, picks, htr, lined_nil⟩

section
variable (h : Greedy origs base sm ls (r :: chains))
include h

theorem Greedy.skip (hr : (ls.get r).valid = false) :
    Greedy origs base sm ls chains := by
  obtain ⟨pos, picks, htr, hli⟩ := h
  exact ⟨pos, picks, htr, hli.of_invalid hr⟩

theorem Greedy.add (hr : (ls.get r).valid = true)
    (ha : sm.tryToAdd (ls.get r) = some sm') : Greedy origs base sm' ls chains := by
  obtain ⟨pos, picks, htr, hlin⟩ := h
  obtain ⟨pre, l, hli, hpl⟩ := split_of_valid hr
  have hsa := htr.sane r.1 (ls.get r) (by simp [hli])
  obtain ⟨rfl, hg, hco⟩ := SelectedMessages.tryToAdd_some hsa.known ha
  have hpo : pos r.1 = pre.length := (hlin.next hr).1.trans hpl
  have hn := @Track.take _ _ _ _ _ _ _ _ r.1 pre [] l (ls.get r) (ls.get r).sigType (ls.get r).gasLimit
    (ls.get r).msgs.length htr hli hpo hr (by simp) hg hco
  refine ⟨_, _, hn, ?_⟩
  rw [← hpl]
  exact hlin.of_valid hr
end
end

variable {sm : SelectedMessages} {chains : List ChainRef}

/-- `tailLoop` packs as the first loop does, where no chain is invalid. -/
theorem mergeHead_eq_packTail (hv : ∀ r ∈ chains, (ls.get r).valid = true) : mergeHead ls chains sm = packTail ls chains sm := by
  induction chains generalizing sm with
  | nil => rfl
  | cons r chains ih =>
    obtain ⟨hr, hrest⟩ := forall_mem_cons.mp hv
    simp [mergeHead, packTail, hr, ih hrest]

theorem packTail_greedy (h : Greedy origs base sm ls chains) :
    Greedy origs base (packTail ls chains sm).1 ls (packTail ls chains sm).2 ∧
      ∀ r ∈ (packTail ls chains sm).2.head?, Blocks (packTail ls chains sm).1 ls r := by
  fun_induction packTail with
  | case1 => exact ⟨h, by simp⟩
  | case2 r chains sm hr ih => exact ih (h.skip hr)
  | case3 => exact ⟨h.stop, by simp⟩
  | case4 r chains sm hr _ sm' ha ih => exact ih (h.add (by simpa using hr) ha)
  | case5 r chains sm hr _ ha =>
    refine ⟨h, fun r' hr' => ?_⟩
    cases hr'
    exact ⟨by simpa using hr, ha⟩

/-! ## The tail loop -/

omit [LinearOrder F] in
theorem Lines.get_invalid {k p : Nat} {pre l : List (MsgChain F E)} {c : MsgChain F E}
    (hli : ls.line k = pre ++ c :: l) (hl : ∀ d ∈ l, d.valid = false) (hp : pre.length < p) :
    (ls.get (k, p)).valid = false := by
  have hg : (ls.line k)[p]? = l[p - pre.length - 1]? := by
    rw [hli, getElem?_append_right hp.le, getElem?_cons, if_neg (by omega)]
  unfold get
  simp only [hg]
  rcases hd : l[p - pre.length - 1]? with _ | d
  · rfl
  · exact hl d (mem_of_getElem? hd)

theorem placesLeft_trim {pos : Nat → Nat} {picks : List (Nat × SignedMessage)} {gasLimit msgLimit : Int}
    (htr : Track origs base sm ls pos picks) (hlin : Lined pos ls (r :: chains)) (hr : (ls.get r).valid = true) :
    placesLeft (ls.update r (trim fl baseFee gasLimit msgLimit (ls.prev r))) chains r.1 = [] := by
  obtain ⟨pre, l, hli, hpl⟩ := split_of_valid hr
  obtain ⟨hpo, n, hn⟩ := hlin.next hr
  have hl' := line_update (change_trim fl baseFee gasLimit msgLimit (ls.prev r)).nil ls r
  rw [hli, hpl, take_left, drop_left, trim] at hl'
  rw [eq_nil_iff_forall_not_mem]
  intro p hp
  obtain ⟨hmem, hv⟩ := mem_placesLeft.mp hp
  rcases Nat.lt_or_ge r.2 p with hlt | hge
  · -- the chains behind it were linked to it, or dead before
    have hde : ∀ d ∈ if (ls.get r).next then invalidate l else l, d.valid = false := by
      have hpcs : (ls.line r.1).map (·.piece) = pre.map (·.piece) ++ (ls.get r).piece :: l.map (·.piece) := by simp [hli]
      have hse := (htr.sound r.1).allDead_sever hpcs (by simp [hpo, hpl])
      rw [← trim_rest_piece] at hse
      exact fun d hd => hse d.piece (mem_map_of_mem hd)
    rw [get_invalid hl' hde (hpl ▸ hlt)] at hv
    cases hv
  -- those before it are as they were, and none of them is left
  have hb : (ls.get (r.1, p)).valid = true := by
    rcases Nat.lt_or_eq_of_le hge with hlt | rfl
    · have hp' : p < pre.length := hpl ▸ hlt
      have hsa : (ls.line r.1)[p]? = ((ls.update r (trim fl baseFee gasLimit msgLimit (ls.prev r))).line r.1)[p]? := by
        rw [hl', hli, getElem?_append_left hp', getElem?_append_left hp']
      unfold Lines.get at hv ⊢
      rw [hsa]
      exact hv
    · exact hr
  have hleft : p ∈ placesLeft ls chains r.1 := mem_placesLeft.mpr ⟨hmem, hb⟩
  rw [hn, mem_range'_1] at hleft
  omega

theorem Greedy.pushDown (h : Greedy origs base sm ls (r :: chains)) (hr : Blocks sm ls r) (down : Bool)
    (before : ChainRef → ChainRef → Bool) :
    Greedy origs base sm (sm.trimChain fl baseFee ls r)
      (if down then Mpool.pushDown before r chains else r :: chains) := by
  obtain ⟨pos, picks, htrk, hli⟩ := h
  obtain ⟨gasLimit, msgLimit, htr⟩ := hr.trimChain fl baseFee
  have hse := @placesLeft_trim _ _ _ _ _ fl baseFee _ _ _ _ _ _ _ _ gasLimit msgLimit htrk hli hr.valid
  rw [htr]
  refine ⟨pos, picks, htrk.wear (change_trim fl baseFee gasLimit msgLimit (ls.prev r)).toWear r, fun k => ?_⟩
  by_cases hk : k = r.1
  · subst hk
    rw [placesLeft_pushed_self down before hse, (hli.next hr.valid).1]
    split
    · exact ⟨1, rfl⟩
    · exact ⟨0, rfl⟩
  obtain ⟨n, hn⟩ := hli k
  refine ⟨n, ?_⟩
  have hco : placesLeft ls (r :: chains) k = placesLeft ls chains k := placesLeft_pushed_ne false before hk
  rw [placesLeft_pushed_ne down before hk, placesLeft_update_ne hk, ← hco, hn]

theorem tailLoop_greedy {fuel : Nat} {chains : List ChainRef} {sm : SelectedMessages}
    (h : Greedy origs base sm ls chains) (hedge : ∀ r ∈ chains.head?, Blocks sm ls r)
    (hrun : tailLoop fl baseFee fuel ls chains sm = some sm') : ∃ ls' : Lines F E, Greedy origs base sm' ls' [] := by
  induction fuel generalizing ls chains sm with
  | zero =>
    cases chains with
    | nil =>
      cases hrun
      exact ⟨ls, h⟩
    | cons r chains => cases hrun
  | succ fuel ih =>
    rcases chains with _ | ⟨r, chains⟩
    · cases hrun
      exact ⟨ls, h⟩
    simp only [tailLoop] at hrun
    split at hrun
    · cases hrun
      exact ⟨ls, h.stop⟩
    · obtain ⟨hg, hn⟩ := packTail_greedy (h.pushDown fl baseFee (hedge r rfl) _ _)
      exact ih hg hn hrun
end

/-! ## The sorted chains -/

section
variable [LinearOrder F]

theorem before_strictWeakOrder {α : Type} (g : α → MsgChain F E) : StrictWeakOrder fun a b => (g a).before (g b) where
  asymm a b h := by
    simp only [MsgChain.before, decide_eq_true_eq, decide_eq_false_iff_not] at h ⊢
    rintro (hlt | ⟨heq, hlt⟩) <;> rcases h with h | ⟨h, h'⟩
    · exact lt_asymm h hlt
    · exact hlt.ne h
    · exact h.ne heq
    · omega
  split a b c h := by
    simp only [MsgChain.before, decide_eq_true_eq] at h ⊢
    rcases lt_trichotomy (g a).gasPerf (g b).gasPerf with hab | hab | hab
    · right
      left
      rcases h with h | ⟨h, -⟩
      · exact lt_trans h hab
      · exact h ▸ hab
    · rcases h with h | ⟨h, h'⟩
      · exact .inr (.inl (hab ▸ h))
      rcases lt_or_ge (g b).gasReward (g a).gasReward with hr | hr
      · exact .inl (.inr ⟨hab, hr⟩)
      · exact .inr (.inr ⟨hab.symm.trans h, by omega⟩)
    · exact .inl (.inl hab)

variable [Zero F] [Zero E] {ls : Lines F E}

theorem lined_sorted (choose : Choices) (hls : ∀ k, Fresh (ls.line k)) :
    Lined (fun _ => 0) ls (choose.sortSlice (fun r r' => (ls.get r).before (ls.get r')) ls.refs) := by
  intro k
  refine ⟨(ls.line k).length, ?_⟩
  have hpe := choose.sort_perm (fun r r' => (ls.get r).before (ls.get r')) ls.refs
  have hso := choose.sort_sorted _ ls.refs (before_strictWeakOrder ls.get)
  generalize choose.sortSlice (fun r r' => (ls.get r).before (ls.get r')) ls.refs = l at hpe hso ⊢
  have hmem : ∀ {p}, p ∈ placesLeft ls l k ↔ p < (ls.line k).length := by
    intro p
    rw [mem_placesLeft, hpe.mem_iff, mem_refs]
    refine and_iff_left_of_imp fun hp => ?_
    rw [get_eq_getElem hp]
    exact ((hls k).new _ (getElem_mem hp)).valid
  have hn : (placesLeft ls l k).Nodup := by
    refine Nodup.map_on ?_ ((hpe.nodup_iff.mpr nodup_refs).filter _)
    rintro ⟨k1, p1⟩ h1 ⟨k2, p2⟩ h2 rfl
    simp only [mem_filter, Bool.and_eq_true, decide_eq_true_eq] at h1 h2
    rw [h1.2.1, h2.2.1]
  have hle : (placesLeft ls l k).Pairwise (· ≤ ·) := by
    refine pairwise_map.mpr ((hso.filter _).imp_of_mem ?_)
    rintro ⟨k1, p1⟩ ⟨k2, p2⟩ h1 h2 hless
    simp only [mem_filter, Bool.and_eq_true, decide_eq_true_eq] at h1 h2
    obtain ⟨hp1, rfl, -⟩ := h1
    obtain ⟨hp2, rfl, -⟩ := h2
    have hp1 : p1 < (ls.line k2).length := mem_refs.mp (hpe.subset hp1)
    have hp2 : p2 < (ls.line k2).length := mem_refs.mp (hpe.subset hp2)
    -- a chain that stands later in the line performs worse, and is not sorted before
    by_contra hlt
    have hperf := pairwise_iff_getElem.mp (hls k2).ordered p2 p1 hp2 hp1 (not_le.mp hlt)
    rw [get_eq_getElem hp2, get_eq_getElem hp1] at hless
    simp [MsgChain.before, hperf] at hless
  rw [← range_eq_range']
  refine Perm.eq_of_pairwise (fun a b _ _ => le_antisymm) hle ?_ ?_
  · exact (pairwise_lt_range).imp fun h => h.le
  · exact (perm_ext_iff_of_nodup hn nodup_range).mpr fun p => by rw [hmem, mem_range]

theorem packChains_packed (fl : Floats F E) (choose : Choices) (baseFee : Int) {fuel : Nat}
    {sm sm' : SelectedMessages} (hls : ∀ k, Fresh (ls.line k)) (hsm : sm.Within)
    (hrun : packChains fl choose baseFee fuel ls sm = some sm') : Packed ls sm sm' := by
  have hli := lined_sorted choose hls
  have hpe := choose.sort_perm (fun r r' => (ls.get r).before (ls.get r')) ls.refs
  unfold packChains at hrun
  generalize choose.sortSlice (fun r r' => (ls.get r).before (ls.get r')) ls.refs = l at hli hpe hrun
  have hv : ∀ r ∈ l, (ls.get r).valid = true := by
    intro r hr
    have hp := mem_refs.mp (hpe.subset hr)
    rw [get_eq_getElem hp]
    exact ((hls r.1).new _ (getElem_mem hp)).valid
  rcases l with _ | ⟨r, l⟩
  · cases hrun
    exact .refl hsm
  simp only at hrun
  split at hrun
  · cases hrun
    exact .refl hsm
  have hb := Track.start (fun k => (hls k).linked) (fun k c hc => ((hls k).new c hc).sane) hsm
  rw [mergeHead_eq_packTail hv] at hrun
  obtain ⟨hg, hedge⟩ := packTail_greedy ⟨_, _, hb, hli⟩
  obtain ⟨ls', pos, picks, htr, -⟩ := tailLoop_greedy fl baseFee hg hedge hrun
  exact htr.packed
end
end Lotus.Mpool
