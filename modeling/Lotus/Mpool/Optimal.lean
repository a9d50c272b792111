/-
# The optimal selection takes a chain with those it depends on.

A chain is added with the chains before it in its line that were not, so the merged chains of a line are the first ones. A
valid chain that was not merged has whole chains before it.
-/
import Lotus.Mpool.Track

namespace Lotus.Mpool
open Lib.Strand List
variable {F E : Type}

/-! ## Merged chains -/

def MergedFirst (n : Nat) (l : List (MsgChain F E)) : Prop :=
  ∃ pre rest, l = pre ++ rest ∧ n = pre.length ∧ (∀ c ∈ pre, c.merged = true) ∧ ∀ c ∈ rest, c.merged = false

variable {l pre mid : List (MsgChain F E)} {n : Nat}

theorem MergedFirst.congr {l' : List (MsgChain F E)} (h : MergedFirst n l) (hl : l'.map (·.merged) = l.map (·.merged)) :
    MergedFirst n l' := by
  obtain ⟨pre, rest, rfl, rfl, hpr, hrest⟩ := h
  rw [map_append] at hl
  obtain ⟨pre', rest', rfl, hp', hrest'⟩ := map_eq_append_iff.mp hl
  refine ⟨pre', rest', rfl, ?_, fun c hc => ?_, fun c hc => ?_⟩
  · simpa using (congrArg List.length hp').symm
  · have hmem : c.merged ∈ pre.map (·.merged) := hp' ▸ mem_map_of_mem hc
    obtain ⟨d, hd, heq⟩ := mem_map.mp hmem
    exact heq ▸ hpr d hd
  have hmem : c.merged ∈ rest.map (·.merged) := hrest' ▸ mem_map_of_mem hc
  obtain ⟨d, hd, heq⟩ := mem_map.mp hmem
  exact heq ▸ hrest d hd

variable {c : MsgChain F E}

theorem MergedFirst.split {before : List (MsgChain F E)} (h : MergedFirst n (before ++ c :: l))
    (hc : c.merged = false) : ∃ pre mid, before = pre ++ mid ∧ n = pre.length ∧ (∀ d ∈ pre, d.merged = true) ∧
      (∀ d ∈ mid, d.merged = false) ∧ ∀ d ∈ l, d.merged = false := by
  obtain ⟨pre, rest, hsp, hn, hpr, hrest⟩ := h
  have hb : ∃ mid, before = pre ++ mid ∧ rest = mid ++ c :: l := by
    rcases append_eq_append_iff.mp hsp with ⟨a, rfl, hcl⟩ | ⟨mid, hm, hcl⟩
    · rcases a with _ | ⟨d, a⟩
      · exact ⟨[], by simp, by simpa using hcl.symm⟩
      -- the chain would be one of the first
      obtain ⟨rfl, -⟩ := List.cons.inj hcl
      simp [hpr c (by simp)] at hc
    · exact ⟨mid, hm, hcl⟩
  obtain ⟨mid, rfl, rfl⟩ := hb
  exact ⟨pre, mid, rfl, hn, hpr, fun d hd => hrest d (by simp [hd]), fun d hd => hrest d (by simp [hd])⟩

variable {ls : Lines F E} {r : ChainRef}

theorem chainDeps_eq (hli : ls.line r.1 = pre ++ mid ++ l) (hpl : r.2 = (pre ++ mid).length)
    (hpr : ∀ d ∈ pre, d.merged = true) (hm : ∀ d ∈ mid, d.merged = false) : ls.chainDeps r = mid := by
  have hn : pre.reverse.takeWhile (fun c => !c.merged) = [] := by
    rcases hre : pre.reverse with _ | ⟨d, l⟩
    · rfl
    · have hd : d ∈ pre := mem_reverse.mp (by simp [hre])
      simp [hpr d hd]
  unfold Lines.chainDeps
  rw [hli, hpl, take_left, reverse_append, takeWhile_append_of_pos, hn, append_nil, reverse_reverse]
  intro d hd
  simp [hm d (mem_reverse.mp hd)]

/-! ## The state of the optimal loops -/

def Optimal (origs : Nat → List (List SignedMessage)) (base : List SignedMessage) (s : Selecting F E) : Prop :=
  ∃ pos picks, Track origs base s.result s.lines pos picks ∧ ∀ k, MergedFirst (pos k) (s.lines.line k)

variable {origs : Nat → List (List SignedMessage)} {base : List SignedMessage} {s : Selecting F E}

theorem Optimal.change (h : Optimal origs base s) {f : List (MsgChain F E) → List (MsgChain F E)} (hf : Change f)
    (r : ChainRef) : Optimal origs base { s with lines := s.lines.update r f } := by
  obtain ⟨pos, picks, htr, hm⟩ := h
  exact ⟨pos, picks, htr.wear hf.toWear r, fun k => (hm k).congr (Lines.map_line_update hf.nil hf.merged _ r k)⟩

theorem mergeFirst_map {β : Type} {g : MsgChain F E → β} (hg : ∀ c, g { c with merged := true } = g c) (n : Nat)
    (l : List (MsgChain F E)) : (mergeFirst n l).map g = l.map g := by
  have hta : ((l.take n).map fun c => { c with merged := true }).map g = (l.take n).map g := by
    rw [map_map]
    exact map_congr_left fun c _ => hg c
  rw [mergeFirst, map_append, hta, ← map_append, take_append_drop]

theorem wear_mergeFirst (n : Nat) : Wear (@mergeFirst F E n) where
  nil := by simp [mergeFirst]
  damaged l := by
    rw [mergeFirst_map fun _ => rfl]
    exact .refl
  sane l h c hc := by
    rcases mem_append.mp hc with hc | hc
    · obtain ⟨d, hd, rfl⟩ := mem_map.mp hc
      have hsa := h d (mem_of_mem_take hd)
      exact ⟨hsa.gas, hsa.known⟩
    · exact h c (mem_of_mem_drop hc)

theorem mergedFirst_merge (hli : ls.line r.1 = pre ++ (mid ++ c :: l)) (hpl : r.2 = (pre ++ mid).length)
    (hpr : ∀ d ∈ pre, d.merged = true) (hl : ∀ d ∈ l, d.merged = false) :
    MergedFirst (pre.length + (mid.length + 1)) ((ls.merge r mid.length).line r.1) := by
  have hp' : r.2 - mid.length = pre.length := by
    rw [hpl, length_append]
    omega
  have hl' := Lines.line_update (wear_mergeFirst (mid.length + 1)).nil ls (r.1, r.2 - mid.length)
  have hsp : mid ++ c :: l = (mid ++ [c]) ++ l := by simp
  have hlen : mid.length + 1 = (mid ++ [c]).length := by simp
  simp only [hp'] at hl'
  rw [Lines.merge, hp', hl', hli, take_left, drop_left, mergeFirst, hsp, hlen, take_left, drop_left, ← append_assoc]
  refine ⟨_, l, rfl, by simp, fun d hd => ?_, hl⟩
  rcases mem_append.mp hd with hd | hd
  · exact hpr d hd
  · obtain ⟨d', -, rfl⟩ := mem_map.mp hd
    rfl

theorem length_flatMap_msgs (l : List (MsgChain F E)) :
    ((l.flatMap (·.msgs)).length : Int) = (l.map fun c => (c.msgs.length : Int)).sum := by
  induction l with
  | nil => rfl
  | cons c l ih => rw [flatMap_cons, length_append, Int.natCast_add, ih, map_cons, sum_cons]

section
variable [LinearOrder F] [Zero F] [Zero E] (fl : Floats F E) (baseFee : Int)
variable {r : ChainRef}

theorem tryToAddWithDeps_cases (hkn : (s.lines.get r).sigType ≠ .unknown) :
    (∃ f, Change f ∧ tryToAddWithDeps fl baseFee s r = (false, { s with lines := s.lines.update r f })) ∨
    ∃ gasLimit msgLimit,
      tryToAddWithDeps fl baseFee s r = (true,
        { result := s.result.append (s.lines.get r).sigType
            ((s.lines.chainDeps r).flatMap (·.msgs) ++ (s.lines.get r).msgs) gasLimit msgLimit
          lines := s.lines.merge r (s.lines.chainDeps r).length }) ∧
      gasLimit = (s.lines.get r).gasLimit + ((s.lines.chainDeps r).map (·.gasLimit)).sum ∧
      gasLimit ≤ s.result.gasLimit ∧
      ((s.lines.chainDeps r).flatMap (·.msgs) ++ (s.lines.get r).msgs).length + s.result.msgs.length ≤
        blockMessageLimit := by
  obtain ⟨limit, hli⟩ := s.result.limit_isSome hkn
  simp only [tryToAddWithDeps, hli]
  split
  · split
    · exact .inl ⟨_, change_invalidate, rfl⟩
    · exact .inl ⟨_, change_trim fl baseFee _ _ _, rfl⟩
  rename_i hfi
  obtain ⟨hg, hco⟩ := not_or.mp hfi
  refine .inr ⟨_, _, rfl, rfl, not_lt.mp hg, ?_⟩
  have hlen := length_flatMap_msgs (s.lines.chainDeps r)
  rw [length_append]
  omega

theorem Optimal.tryToAdd (h : Optimal origs base s) (hv : (s.lines.get r).valid = true)
    (hfree : (s.lines.get r).merged = false) : Optimal origs base (tryToAddWithDeps fl baseFee s r).2 := by
  have hco := h
  obtain ⟨pos, picks, htr, hm⟩ := h
  obtain ⟨before, l, hli, hpl⟩ := Lines.split_of_valid hv
  have hkn := (htr.sane r.1 (s.lines.get r) (by simp [hli])).known
  rcases tryToAddWithDeps_cases fl baseFee hkn with ⟨f, hf, heq⟩ | ⟨gasLimit, msgLimit, heq, hg, hle, hcou⟩
  · rw [heq]
    exact hco.change hf r
  rw [heq]
  obtain ⟨pre, mid, rfl, hpo, hpr, hmi, hl⟩ := (hli ▸ hm r.1).split hfree
  rw [chainDeps_eq hli hpl hpr hmi] at hg hcou ⊢
  have hl' : s.lines.line r.1 = pre ++ (mid ++ s.lines.get r :: l) := by rw [hli, append_assoc]
  have hta := @Track.take _ _ _ _ _ _ _ _ r.1 pre mid l _ (s.lines.get r).sigType gasLimit msgLimit htr hl' hpo hv hg hle hcou
  refine ⟨_, _, hta.wear (wear_mergeFirst (mid.length + 1)) (r.1, r.2 - mid.length), fun k => ?_⟩
  by_cases hk : k = r.1
  · subst hk
    rw [Function.update_self]
    exact mergedFirst_merge hl' hpl hpr hl
  rw [Function.update_of_ne hk]
  have ho : (s.lines.merge r mid.length).line k = s.lines.line k :=
    @Lines.line_update_ne _ _ _ (r.1, r.2 - mid.length) s.lines k hk
  show MergedFirst (pos k) ((s.lines.merge r mid.length).line k)
  rw [ho]
  exact hm k

theorem tryToAddWithDeps_unmerged (h : (tryToAddWithDeps fl baseFee s r).1 = false)
    (hfree : (s.lines.get r).merged = false) : ((tryToAddWithDeps fl baseFee s r).2.lines.get r).merged = false := by
  by_cases hkn : (s.lines.get r).sigType = .unknown
  · have hli : s.result.limit (s.lines.get r).sigType = none := by rw [hkn]; rfl
    simpa only [tryToAddWithDeps, hli] using hfree
  rcases tryToAddWithDeps_cases fl baseFee hkn with ⟨f, hf, heq⟩ | ⟨gasLimit, msgLimit, heq, -, -, -⟩
  · rw [heq]
    exact (Lines.get_congr (Lines.map_line_update hf.nil hf.merged _ r r.1)).trans hfree
  · rw [heq] at h
    cases h

theorem Optimal.trimChain (h : Optimal origs base s) (r : ChainRef) :
    Optimal origs base { s with lines := s.result.trimChain fl baseFee s.lines r } := by
  unfold SelectedMessages.trimChain
  simp only
  split
  · split
    · exact h.change (change_trim fl baseFee _ _ _) r
    · exact h
  split
  · exact h.change (change_trim fl baseFee _ _ _) r
  · exact h

/-! ## The loops -/

def Ready (origs : Nat → List (List SignedMessage)) (base : List SignedMessage) (chains : List ChainRef)
    (s : Selecting F E) : Prop :=
  Optimal origs base s ∧ ∀ r ∈ chains, (s.lines.get r).valid = true

variable {chains before : List ChainRef}
omit [LinearOrder F] in
theorem Ready.mild (h : Ready origs base chains s) {f : List (MsgChain F E) → List (MsgChain F E)} (hf : Mild f)
    (r : ChainRef) : Ready origs base chains { s with lines := s.lines.update r f } := by
  refine ⟨h.1.change hf.change r, fun r' hr' => ?_⟩
  rw [← h.2 r' hr']
  exact Lines.get_congr (Lines.map_line_update hf.change.nil (hf.map fun _ => rfl) s.lines r r'.1)

variable {s' : Selecting F E}

theorem Ready.add (h : Ready origs base (r :: chains) s) (hfree : (s.lines.get r).merged = false)
    (ha : tryToAddWithDeps fl baseFee s r = (true, s')) : Ready origs base chains s' := by
  obtain ⟨hr, hch⟩ := forall_mem_cons.mp h.2
  have ho := h.1.tryToAdd fl baseFee hr hfree
  obtain ⟨before, l, hli, -⟩ := Lines.split_of_valid hr
  obtain ⟨pos, picks, htr, -⟩ := h.1
  have hkn := (htr.sane r.1 (s.lines.get r) (by simp [hli])).known
  rcases tryToAddWithDeps_cases fl baseFee hkn with ⟨f, -, heq⟩ | ⟨gasLimit, msgLimit, heq, -⟩
  · rw [heq] at ha
    cases ha
  rw [ha] at ho heq
  refine ⟨ho, fun r' hr' => ?_⟩
  rw [← hch r' hr', (Prod.mk.inj heq).2]
  exact Lines.get_congr (Lines.map_line_update (wear_mergeFirst _).nil (mergeFirst_map (fun _ => rfl) _) s.lines _ r'.1)

theorem mergeHeadWithDeps_optimal (choose : Choices) {rounds : Nat} {s : Selecting F E} (h : Ready origs base chains s) :
    Optimal origs base (mergeHeadWithDeps fl choose baseFee rounds before chains s).1 := by
  induction rounds generalizing before chains s with
  | zero => exact h.1
  | succ rounds ih =>
    rcases chains with _ | ⟨r, chains⟩
    · exact h.1
    obtain ⟨hr, hch⟩ := forall_mem_cons.mp h.2
    unfold mergeHeadWithDeps
    split
    · exact h.1
    split
    · exact ih ⟨h.1, hch⟩
    rename_i hfree
    have hfree : (s.lines.get r).merged = false := by simpa using hfree
    rcases hre : tryToAddWithDeps fl baseFee s r with ⟨added, s'⟩
    cases added with
    | true =>
      have hn := (h.add fl baseFee hfree hre).mild (mild_adjustNext fl) r
      exact ih ⟨hn.1, fun r' hr' => hn.2 r' ((choose.sortRest_perm _ _ _).subset hr')⟩
    | false =>
      have hla := h.1.tryToAdd fl baseFee hr hfree
      rw [hre] at hla
      exact hla

theorem packTailWithDeps_optimal {s : Selecting F E} (h : Optimal origs base s) :
    Optimal origs base (packTailWithDeps fl baseFee chains s).1 := by
  fun_induction packTailWithDeps with
  | case2 s r chains _ ih | case3 s r chains _ _ ih => exact ih h
  | case5 s r chains hv hfree _ s' heq ih =>
    exact ih (heq ▸ h.tryToAdd fl baseFee (by simpa using hv) (by simpa using hfree) : Optimal origs base (true, s').2)
  | case6 s r chains hv hfree _ s' heq =>
    exact (heq ▸ h.tryToAdd fl baseFee (by simpa using hv) (by simpa using hfree) : Optimal origs base (false, s').2)
  | _ => exact h

variable {fuel : Nat}

theorem tailLoopWithDeps_optimal {out : List ChainRef} {s : Selecting F E} (h : Optimal origs base s)
    (hrun : tailLoopWithDeps fl baseFee fuel before chains s = some (s', out)) : Optimal origs base s' := by
  have hpa : ∀ {s r l res}, Optimal origs base s → packTailWithDeps fl baseFee l
      { s with lines := s.result.trimChain fl baseFee s.lines r } = res → Optimal origs base res.1 := by
    rintro s r l _ h rfl
    exact packTailWithDeps_optimal fl baseFee (h.trimChain fl baseFee r)
  fun_induction tailLoopWithDeps with
  | case2 => cases hrun
  | case4 fuel before r chains s _ _ ih => exact ih h hrun
  | case5 fuel before r chains s _ _ ls l s1 heq =>
    cases hrun
    exact hpa h heq
  | case6 fuel before r chains s _ _ ls l s1 heq ih => exact ih (hpa h heq) hrun
  | _ =>
    cases hrun
    exact h

theorem fillRandom_optimal {s : Selecting F E} (h : Optimal origs base s) :
    Optimal origs base (fillRandom fl baseFee chains s) := by
  induction chains generalizing s with
  | nil => exact h
  | cons r chains ih =>
    unfold fillRandom
    split
    · exact h
    split
    · exact ih h
    split
    · exact ih h
    rename_i hfree _
    obtain ⟨hfree, hv⟩ : (s.lines.get r).merged = false ∧ (s.lines.get r).valid = true := by
      simpa using hfree
    have ha := h.tryToAdd fl baseFee hv hfree
    have hst := fun hno => tryToAddWithDeps_unmerged fl baseFee hno hfree
    generalize tryToAddWithDeps fl baseFee s r = res at ha hst ⊢
    obtain ⟨added, s'⟩ := res
    cases added with
    | true => exact ih ha
    | false =>
      simp only
      split
      · exact ih (ha.tryToAdd fl baseFee ‹_› (hst rfl))
      · exact ih ha

variable {sm sm' : SelectedMessages}

theorem packRanked_optimal (choose : Choices) (h : Ready origs base chains s)
    (hrun : packRanked fl choose baseFee fuel chains s = some sm') :
    ∃ s' : Selecting F E, Optimal origs base s' ∧ s'.result = sm' := by
  have hm := @mergeHeadWithDeps_optimal _ _ _ _ _ _ _ fl baseFee _ [] choose chains.length _ h
  simp only [packRanked] at hrun
  split at hrun
  · cases hrun
  rename_i hta
  have hpa := tailLoopWithDeps_optimal fl baseFee hm hta
  split at hrun
  · exact ⟨_, fillRandom_optimal fl baseFee hpa, Option.some.inj hrun⟩
  · exact ⟨_, hpa, Option.some.inj hrun⟩

/-! ## Effective performances -/

variable {ls : Lines F E}
omit [LinearOrder F] in
theorem setEffectivePerfs_ready {blockProb : Nat → E} {block : Nat} {partitions : List (List ChainRef)}
    (h : Ready origs base chains ⟨sm, ls⟩) :
    Ready origs base chains ⟨sm, setEffectivePerfs fl blockProb block partitions ls⟩ := by
  induction partitions generalizing block ls with
  | nil => exact h
  | cons partition partitions ih =>
    refine ih ?_
    refine List.foldlRecOn (motive := fun ls => Ready origs base chains ⟨sm, ls⟩) partition _ h fun ls' hls' r _ => ?_
    exact Ready.mild hls' (mild_modifyHead (setEffectivePerf_core fl _ _)) r

variable {tq : E}

theorem rankChains_ready {refs : List ChainRef} (h : Ready origs base chains ⟨sm, ls⟩) :
    Ready origs base chains ⟨sm, rankChains fl tq ls refs⟩ := by
  unfold rankChains
  generalize partitionChains ls maxBlocks refs = parts
  obtain ⟨partitions, rest⟩ := parts
  refine List.foldlRecOn (motive := fun ls => Ready origs base chains ⟨sm, ls⟩) rest _
    (setEffectivePerfs_ready fl h) fun ls' hls' r _ => ?_
  exact Ready.mild hls' (mild_modifyHead (setNullEffectivePerf_core fl)) r

theorem packChainsOptimal_packed (choose : Choices) (hls : ∀ k, Fresh (ls.line k)) (hsm : sm.Within)
    (hrun : packChainsOptimal fl choose baseFee fuel tq ls sm = some sm') : Packed ls sm sm' := by
  have hb := Track.start (fun k => (hls k).linked) (fun k c hc => ((hls k).new c hc).sane) hsm
  have hu : ∀ k, MergedFirst 0 (ls.line k) := fun k =>
    ⟨[], ls.line k, rfl, rfl, by simp, fun c hc => ((hls k).new c hc).unmerged⟩
  have hv : ∀ r ∈ ls.refs, (ls.get r).valid = true := by
    intro r hr
    have hp := Lines.mem_refs.mp hr
    rw [Lines.get_eq_getElem hp]
    exact ((hls r.1).new _ (getElem_mem hp)).valid
  have hre : Ready _ _ ls.refs ⟨sm, ls⟩ := ⟨⟨_, _, hb, hu⟩, hv⟩
  simp only [packChainsOptimal] at hrun
  split at hrun
  · cases hrun
    exact .refl hsm
  have hra := @rankChains_ready _ _ _ _ _ _ _ fl _ _ _ tq
    (choose.sortSlice (fun r r' => (ls.get r).before (ls.get r')) ls.refs) hre
  have hsu := fun less => (choose.sort_perm less (choose.sortSlice
    (fun r r' => (ls.get r).before (ls.get r')) ls.refs)).trans (choose.sort_perm _ _)
  obtain ⟨s', ⟨pos, picks, htr, -⟩, rfl⟩ :=
    packRanked_optimal fl baseFee choose ⟨hra.1, fun r hr => hra.2 r ((hsu _).subset hr)⟩ hrun
  exact htr.packed
end
end Lotus.Mpool
