/-
# What a change of the chains leaves of the lines.

Trimming and invalidating a chain, and updating performances, is damage to the pieces of its line at most.
-/
import Lotus.Mpool.Candidates
import Lotus.Mpool.Select

namespace Lotus.Mpool
open Lib.Strand List MsgChain
variable {F E : Type}

/-! ## Lines -/

namespace Lines
variable {f : List (MsgChain F E) → List (MsgChain F E)}

theorem line_update (hf : f [] = []) (ls : Lines F E) (r : ChainRef) :
    (ls.update r f).line r.1 = (ls.line r.1).take r.2 ++ f ((ls.line r.1).drop r.2) := by
  unfold line update
  rw [getElem?_modify_eq]
  rcases ls[r.1]? with _ | l
  · simp [hf]
  · exact modifyTailIdx_eq_take_drop f hf l r.2

variable {r : ChainRef}

theorem line_update_ne (ls : Lines F E) {k : Nat} (hk : k ≠ r.1) : (ls.update r f).line k = ls.line k := by
  unfold line update
  rw [getElem?_modify_ne _ _ hk.symm]

variable {β : Type}

theorem map_line_update (hf : f [] = []) {g : MsgChain F E → β} (hg : ∀ l, (f l).map g = l.map g) (ls : Lines F E)
    (r : ChainRef) (k : Nat) : ((ls.update r f).line k).map g = (ls.line k).map g := by
  by_cases hk : k = r.1
  · subst hk
    rw [line_update hf, map_append, hg, ← map_append, take_append_drop]
  · rw [line_update_ne ls hk]

variable {ls : Lines F E}

theorem mem_refs : r ∈ ls.refs ↔ r.2 < (ls.line r.1).length := by
  obtain ⟨k, p⟩ := r
  simp only [refs, mem_flatMap, mem_range, mem_map, Prod.mk.injEq]
  constructor
  · rintro ⟨k', -, p', hp', rfl, rfl⟩
    exact hp'
  intro hp
  refine ⟨k, ?_, p, hp, rfl, rfl⟩
  by_contra hk
  simp [line, getElem?_eq_none (not_lt.mp hk)] at hp

theorem nodup_refs : ls.refs.Nodup := by
  refine nodup_flatMap.mpr ⟨fun k _ => ?_, ?_⟩
  · exact nodup_range.map fun p p' h => (Prod.mk.inj h).2
  refine nodup_range.imp fun {k k'} hne => ?_
  intro r hr hr'
  obtain ⟨p, -, rfl⟩ := mem_map.mp hr
  obtain ⟨p', -, h⟩ := mem_map.mp hr'
  exact hne (Prod.mk.inj h).1.symm

variable [Zero F] [Zero E]

theorem get_eq_getElem (hr : r.2 < (ls.line r.1).length) : ls.get r = (ls.line r.1)[r.2] := by
  simp [get, hr]

theorem split_of_valid (h : (ls.get r).valid = true) : ∃ pre l, ls.line r.1 = pre ++ ls.get r :: l ∧ r.2 = pre.length := by
  have hg : (ls.line r.1)[r.2]? = some (ls.get r) := by
    unfold get at h ⊢
    generalize (ls.line r.1)[r.2]? = o at h ⊢
    rcases o with _ | c
    · simp [absent] at h
    · rfl
  obtain ⟨hlt, hc⟩ := List.getElem?_eq_some_iff.mp hg
  refine ⟨(ls.line r.1).take r.2, (ls.line r.1).drop (r.2 + 1), ?_, ?_⟩
  · rw [← hc, cons_getElem_drop_succ, take_append_drop]
  · rw [length_take]
    omega

theorem get_congr {g : MsgChain F E → β} {ls' : Lines F E} (h : (ls.line r.1).map g = (ls'.line r.1).map g) :
    g (ls.get r) = g (ls'.get r) := by
  have hg : ((ls.line r.1)[r.2]?).map g = ((ls'.line r.1)[r.2]?).map g := by
    rw [← getElem?_map, ← getElem?_map, h]
  unfold get
  generalize (ls.line r.1)[r.2]? = o, (ls'.line r.1)[r.2]? = o' at hg ⊢
  rcases o with _ | c <;> rcases o' with _ | c'
  · rfl
  · simp at hg
  · simp at hg
  · exact Option.some.inj hg

end Lines

/-! ## Changes of chains -/

structure MsgChain.Sane (c : MsgChain F E) : Prop where
  gas : c.valid = true → c.gasLimit = gasOf c.msgs
  known : c.sigType ≠ .unknown

theorem MsgChain.New.sane {c : MsgChain F E} (h : c.New) : c.Sane := ⟨fun _ => h.gas, h.known⟩

structure Wear (f : List (MsgChain F E) → List (MsgChain F E)) : Prop where
  nil : f [] = []
  damaged : ∀ l, Damaged (l.map (·.piece)) ((f l).map (·.piece))
  sane : ∀ l, (∀ c ∈ l, c.Sane) → ∀ c ∈ f l, c.Sane

structure Change (f : List (MsgChain F E) → List (MsgChain F E)) : Prop extends Wear f where
  merged : ∀ l, (f l).map (·.merged) = l.map (·.merged)

theorem invalidate_piece (l : List (MsgChain F E)) : (invalidate l).map (·.piece) = kill (l.map (·.piece)) := by
  induction l with
  | nil => rfl
  | cons c l ih =>
    simp only [invalidate, map_cons, kill_cons, sever]
    rw [← ih, ← apply_ite (map _)]
    rfl

theorem invalidate_sane {l : List (MsgChain F E)} (h : ∀ c ∈ l, c.Sane) : ∀ c ∈ invalidate l, c.Sane := by
  induction l with
  | nil => exact h
  | cons c l ih =>
    obtain ⟨hc, hl⟩ := forall_mem_cons.mp h
    refine forall_mem_cons.mpr ⟨⟨by simp, hc.known⟩, ?_⟩
    split
    · exact ih hl
    · exact hl

theorem invalidate_merged (l : List (MsgChain F E)) : (invalidate l).map (·.merged) = l.map (·.merged) := by
  induction l with
  | nil => rfl
  | cons c l ih =>
    simp only [invalidate, map_cons]
    split
    · rw [ih]
    · rfl

theorem change_invalidate : Change (@invalidate F E) where
  nil := rfl
  damaged l := by
    rw [invalidate_piece]
    exact damaged_kill _
  sane _ h := invalidate_sane h
  merged := invalidate_merged

theorem trim_rest_piece (c : MsgChain F E) (l : List (MsgChain F E)) :
    (if c.next then invalidate l else l).map (·.piece) = sever c.piece (l.map (·.piece)) := by
  unfold sever
  rw [← invalidate_piece, ← apply_ite (map _)]
  rfl

section
variable [LinearOrder F] [Zero F] [Zero E] (fl : Floats F E) (baseFee : Int)
omit [LinearOrder F] [Zero F] in
theorem MsgChain.setEffPerf_eq (prev : Option (MsgChain F E)) (c : MsgChain F E) :
    ∃ effPerf parentOffset, setEffPerf fl prev c = { c with effPerf, parentOffset } := by
  unfold setEffPerf
  rcases prev with _ | p
  · exact ⟨_, _, rfl⟩
  simp only
  split
  all_goals exact ⟨_, _, rfl⟩

omit [LinearOrder F] in
theorem MsgChain.dropMsg_eq (prev : Option (MsgChain F E)) (m : SignedMessage) (c : MsgChain F E) :
    ∃ gasReward gasPerf effPerf parentOffset, dropMsg fl baseFee prev m c =
      { c with gasLimit := c.gasLimit - m.message.gasLimit, gasReward, gasPerf, effPerf, parentOffset } := by
  unfold dropMsg
  simp only
  split
  · split
    · exact ⟨_, _, _, _, rfl⟩
    obtain ⟨effPerf, parentOffset, heq⟩ := setEffPerf_eq fl prev
      { c with gasReward := c.gasReward - getGasReward baseFee m, gasLimit := c.gasLimit - m.message.gasLimit
               gasPerf := fl.getGasPerf (c.gasReward - getGasReward baseFee m) (c.gasLimit - m.message.gasLimit) }
    exact ⟨_, _, _, _, heq⟩
  · exact ⟨_, _, _, _, rfl⟩

/-- The loop of `Trim` leaves a beginning of the messages, with its gas limit. -/
structure Trimmed (msgs : List SignedMessage) (c d : MsgChain F E) : Prop where
  isPrefix : d.msgs <+: msgs
  valid : c.valid = false → d.valid = false
  gas : c.gasLimit = gasOf msgs → d.valid = true → d.gasLimit = gasOf d.msgs
  sigType : d.sigType = c.sigType
  merged : d.merged = c.merged

section
variable (gasLimit msgLimit : Int) (prev : Option (MsgChain F E))

theorem trimLoop_trimmed (l : List SignedMessage)
    (c : MsgChain F E) : Trimmed l.reverse c (trimLoop fl baseFee gasLimit msgLimit prev l c) := by
  induction l generalizing c with
  | nil => exact ⟨ nil_prefix, fun _ => rfl, by simp [trimLoop], rfl, rfl⟩
  | cons m l ih =>
    unfold trimLoop
    split
    · obtain ⟨gasReward, gasPerf, effPerf, parentOffset, heq⟩ := dropMsg_eq fl baseFee prev m c
      have hrest := ih (dropMsg fl baseFee prev m c)
      rw [heq] at hrest ⊢
      refine ⟨?_, hrest.valid, fun hg => hrest.gas ?_, hrest.sigType, hrest.merged⟩
      · rw [reverse_cons]
        exact hrest.isPrefix.trans (prefix_append _ _)
      rw [reverse_cons, gasOf_append, gasOf_singleton] at hg
      show c.gasLimit - m.message.gasLimit = _
      omega
    · exact ⟨prefix_rfl, id, fun hg _ => hg, rfl, rfl⟩

theorem change_trim :
    Change (trim fl baseFee gasLimit msgLimit prev) where
  nil := rfl
  damaged l := by
    rcases l with _ | ⟨c, l⟩
    · exact .refl
    have htr := trimLoop_trimmed fl baseFee gasLimit msgLimit prev c.msgs.reverse c
    rw [reverse_reverse] at htr
    simp only [trim, map_cons]
    rw [trim_rest_piece]
    exact .head htr.isPrefix htr.valid
  sane l h := by
    rcases l with _ | ⟨c, l⟩
    · exact h
    have htr := trimLoop_trimmed fl baseFee gasLimit msgLimit prev c.msgs.reverse c
    rw [reverse_reverse] at htr
    obtain ⟨hc, hl⟩ := forall_mem_cons.mp h
    refine forall_mem_cons.mpr ⟨⟨fun hv => ?_, ?_⟩, ?_⟩
    · -- a chain that is valid after the loop was valid before
      have hb : c.valid = true := by
        by_contra hn
        simp [htr.valid (by simpa using hn)] at hv
      exact htr.gas (hc.gas hb) hv
    · rw [htr.sigType]
      exact hc.known
    split
    · exact invalidate_sane hl
    · exact hl
  merged l := by
    rcases l with _ | ⟨c, l⟩
    · rfl
    have htr := trimLoop_trimmed fl baseFee gasLimit msgLimit prev c.msgs.reverse c
    simp only [trim, map_cons, htr.merged]
    split
    · rw [invalidate_merged]
    · rfl
end
end

/-! ## Effective performances -/

section
variable [Zero E]

def MsgChain.core (c : MsgChain F E) : MsgChain F E := { c with effPerf := 0, bp := 0, parentOffset := 0 }

def Mild (f : List (MsgChain F E) → List (MsgChain F E)) : Prop := ∀ l, (f l).map (·.core) = l.map (·.core)

variable {f : List (MsgChain F E) → List (MsgChain F E)}

theorem Mild.map (hf : Mild f) {β : Type} {g : MsgChain F E → β} (hg : ∀ c, g c.core = g c)
    (l : List (MsgChain F E)) : (f l).map g = l.map g := by
  have hco : ∀ l : List (MsgChain F E), l.map g = (l.map (·.core)).map g := fun l => by
    rw [map_map]
    exact map_congr_left fun c _ => (hg c).symm
  rw [hco, hf, ← hco]

theorem Mild.change (hf : Mild f) : Change f where
  nil := map_eq_nil_iff.mp (hf [])
  damaged l := by
    rw [hf.map fun _ => rfl]
    exact .refl
  sane l h c hc := by
    have hmem : c.core ∈ l.map (·.core) := by
      rw [← hf l]
      exact mem_map_of_mem hc
    obtain ⟨d, hd, heq⟩ := mem_map.mp hmem
    have hsa : c.core.Sane := heq ▸ ⟨(h d hd).gas, (h d hd).known⟩
    exact ⟨hsa.gas, hsa.known⟩
  merged l := hf.map (fun _ => rfl) l

theorem mild_modifyHead {g : MsgChain F E → MsgChain F E} (hg : ∀ c, (g c).core = c.core) : Mild (modifyHead g) := by
  intro l
  cases l with
  | nil => rfl
  | cons c l => simp [hg]

variable (fl : Floats F E)

theorem setEffPerf_core (prev : Option (MsgChain F E)) (c : MsgChain F E) : (setEffPerf fl prev c).core = c.core := by
  obtain ⟨effPerf, parentOffset, heq⟩ := setEffPerf_eq fl prev c
  rw [heq]
  rfl

theorem setEffectivePerf_core (prev : Option (MsgChain F E)) (bp : E) (c : MsgChain F E) :
    (setEffectivePerf fl prev bp c).core = c.core := setEffPerf_core fl prev { c with bp }

theorem setNullEffectivePerf_core [LinearOrder F] [Zero F] (c : MsgChain F E) : (setNullEffectivePerf fl c).core = c.core := by
  unfold setNullEffectivePerf
  split <;> rfl

theorem adjustAfter_core (prev : MsgChain F E) (l : List (MsgChain F E)) :
    (adjustAfter fl prev l).map (·.core) = l.map (·.core) := by
  induction l generalizing prev with
  | nil => rfl
  | cons c l ih =>
    simp only [adjustAfter]
    split
    · simp only [map_cons, setEffPerf_core, ih]
    · rfl

theorem mild_adjustNext : Mild (adjustNext fl) := by
  intro l
  rcases l with _ | ⟨c, _ | ⟨d, l⟩⟩
  · rfl
  · rfl
  simp only [adjustNext]
  split
  · simp only [map_cons, adjustAfter_core]
    rfl
  · rfl
end

/-! ## The selected messages -/

theorem SelectedMessages.limit_isSome {sm : SelectedMessages} {sigType : SigType} (h : sigType ≠ .unknown) :
    ∃ limit, sm.limit sigType = some limit := by
  cases sigType with
  | unknown => exact absurd rfl h
  | secp256k1 | bls => exact ⟨_, rfl⟩

structure SelectedMessages.Within (sm : SelectedMessages) : Prop where
  nonneg : 0 ≤ sm.gasLimit
  gas : gasOf sm.msgs + sm.gasLimit = blockGasLimit
  count : sm.msgs.length ≤ blockMessageLimit

theorem SelectedMessages.Within.append {sm : SelectedMessages} (h : sm.Within) {sigType : SigType}
    {msgs : List SignedMessage} {gasLimit msgLimit : Int} (hg : gasLimit = gasOf msgs)
    (hle : gasLimit ≤ sm.gasLimit) (hco : msgs.length + sm.msgs.length ≤ blockMessageLimit) :
    (sm.append sigType msgs gasLimit msgLimit).Within where
  nonneg := by
    show 0 ≤ sm.gasLimit - gasLimit
    omega
  gas := by
    have := h.gas
    show gasOf (sm.msgs ++ msgs) + (sm.gasLimit - gasLimit) = blockGasLimit
    rw [gasOf_append]
    omega
  count := by
    show (sm.msgs ++ msgs).length ≤ blockMessageLimit
    rw [length_append]
    omega

/-- What holds in any run from the messages `base`: those added since come from the lines, and for every line they are a
beginning of its messages `origs k`, from `pos k` chains. -/
structure Track (origs : Nat → List (List SignedMessage)) (base : List SignedMessage) (sm : SelectedMessages)
    (ls : Lines F E) (pos : Nat → Nat) (picks : List (Nat × SignedMessage)) : Prop where
  msgs : sm.msgs = base ++ picks.map (·.2)
  sound : ∀ k, Sound (origs k) ⟨(ls.line k).map (·.piece), pos k, ofTag k picks⟩
  sane : ∀ k, ∀ c ∈ ls.line k, c.Sane
  within : sm.Within

section
variable {origs : Nat → List (List SignedMessage)} {base : List SignedMessage} {sm : SelectedMessages}
  {ls : Lines F E} {pos : Nat → Nat} {picks : List (Nat × SignedMessage)}

theorem Track.start (hls : ∀ k, Frayed ((ls.line k).map (·.msgs)) ((ls.line k).map (·.piece)))
    (hsa : ∀ k, ∀ c ∈ ls.line k, c.Sane) (hsm : sm.Within) :
    Track (fun k => (ls.line k).map (·.msgs)) sm.msgs sm ls (fun _ => 0) [] where
  msgs := (append_nil _).symm
  sound k := .start (hls k)
  sane := hsa
  within := hsm

theorem Track.wear {f : List (MsgChain F E) → List (MsgChain F E)} (h : Track origs base sm ls pos picks)
    (hf : Wear f) (r : ChainRef) : Track origs base sm (ls.update r f) pos picks where
  msgs := h.msgs
  sound k := by
    by_cases hk : k = r.1
    · subst hk
      refine (h.sound r.1).damage ?_
      rw [Lines.line_update hf.nil, map_append]
      nth_rewrite 1 [← take_append_drop r.2 (ls.line r.1)]
      rw [map_append]
      exact (hf.damaged _).append_left _
    · rw [Lines.line_update_ne ls hk]
      exact h.sound k
  sane k := by
    by_cases hk : k = r.1
    · subst hk
      rw [Lines.line_update hf.nil]
      intro c hc
      rcases mem_append.mp hc with hc | hc
      · exact h.sane _ c (mem_of_mem_take hc)
      · exact hf.sane _ (fun d hd => h.sane _ d (mem_of_mem_drop hd)) c hc
    · rw [Lines.line_update_ne ls hk]
      exact h.sane k
  within := h.within

theorem gasOf_flatMap {l : List (MsgChain F E)} (h : ∀ c ∈ l, c.gasLimit = gasOf c.msgs) :
    gasOf (l.flatMap (·.msgs)) = (l.map (·.gasLimit)).sum := by
  induction l with
  | nil => rfl
  | cons c l ih =>
    obtain ⟨hc, hl⟩ := forall_mem_cons.mp h
    rw [flatMap_cons, gasOf_append, ih hl, map_cons, sum_cons, hc]

theorem Track.take {k : Nat} {pre mid l : List (MsgChain F E)} {c : MsgChain F E} {sigType : SigType}
    {gasLimit msgLimit : Int} (h : Track origs base sm ls pos picks) (hli : ls.line k = pre ++ (mid ++ c :: l))
    (hpo : pos k = pre.length) (hc : c.valid = true)
    (hg : gasLimit = c.gasLimit + (mid.map (·.gasLimit)).sum) (hle : gasLimit ≤ sm.gasLimit)
    (hco : (mid.flatMap (·.msgs) ++ c.msgs).length + sm.msgs.length ≤ blockMessageLimit) :
    Track origs base (sm.append sigType (mid.flatMap (·.msgs) ++ c.msgs) gasLimit msgLimit) ls
      (Function.update pos k (pre.length + (mid.length + 1)))
      (picks ++ (mid.flatMap (·.msgs) ++ c.msgs).map fun m => (k, m)) where
  msgs := by
    show sm.msgs ++ _ = _
    simp [h.msgs, map_flatMap]
  sound j := by
    by_cases hj : j = k
    · subst hj
      have hpcs : (ls.line j).map (·.piece) =
          pre.map (·.piece) ++ (mid.map (·.piece) ++ c.piece :: l.map (·.piece)) := by simp [hli]
      have hta := (h.sound j).take hpcs (by simp [hpo]) hc
      simpa [ofTag_map, flatMap_map, piece] using hta
    · rw [Function.update_of_ne hj, ofTag_append, ofTag_map, if_neg (Ne.symm hj), append_nil]
      exact h.sound j
  sane := h.sane
  within := by
    refine h.within.append ?_ hle hco
    have hmem : ∀ d ∈ mid ++ c :: l, d ∈ ls.line k := fun d hd => by
      rw [hli]
      exact mem_append_right _ hd
    have hpcs : (ls.line k).map (·.piece) =
        pre.map (·.piece) ++ (mid.map (·.piece) ++ c.piece :: l.map (·.piece)) := by simp [hli]
    have ha := (h.sound k).alive_before hpcs (by simp [hpo]) hc
    have hm : ∀ d ∈ mid, d.gasLimit = gasOf d.msgs := fun d hd =>
      (h.sane k d (hmem d (by simp [hd]))).gas (ha d.piece (mem_map_of_mem hd))
    rw [gasOf_append, gasOf_flatMap hm, hg, (h.sane k c (hmem c (by simp))).gas hc]
    omega

/-- What a selection adds to `sm`: of every line a beginning of its messages, within the limits of a block. -/
def Packed (ls : Lines F E) (sm sm' : SelectedMessages) : Prop :=
  sm'.Within ∧ ∃ picks : List (Nat × SignedMessage), sm'.msgs = sm.msgs ++ picks.map (·.2) ∧
    ∀ k, ofTag k picks <+: (ls.line k).flatMap (·.msgs)

theorem Packed.refl (h : sm.Within) : Packed ls sm sm :=
  ⟨h, [], (append_nil _).symm, fun _ => nil_prefix⟩

theorem Track.packed {sm' : SelectedMessages} {ls' : Lines F E}
    (h : Track (fun k => (ls.line k).map (·.msgs)) sm.msgs sm' ls' pos picks) : Packed ls sm sm' :=
  ⟨h.within, picks, h.msgs, fun k => (h.sound k).isPrefix_out⟩
end
end Lotus.Mpool
