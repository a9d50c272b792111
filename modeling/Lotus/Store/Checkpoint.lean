/-
# The head never leaves the checkpoint's branch.

A call may find tipsets missing and writes failing. A true answer of `IsAncestorOf` is an ancestry of the tree, and where
`exceedsForkLength` is false the walk back from the old head met the new branch in time, without passing the checkpoint.
-/
import Lotus.Lib.Ancestry
import Lotus.Store.ChainStore

namespace Lotus.Store
open Lib.Ancestry

/-- A tipset tree: heights increase from parent to child, and `Equals` tells tipsets apart. -/
structure TipSetTree where
  mem : TipSet → Prop
  parent : TipSet → Option TipSet
  parent_mem : ∀ ts p, parent ts = some p → mem p
  height_parent : ∀ ts p, parent ts = some p → p.height < ts.height
  eq_of_equals : ∀ a b, mem a → mem b → a.equals b = true → a = b

theorem TipSetTree.mem_of_anc (T : TipSetTree) {x y : TipSet} (hx : T.mem x) (h : AncOrSelf T.parent y x) : T.mem y := by
  obtain ⟨n, h⟩ := h
  induction n generalizing x with
  | zero =>
    obtain rfl : x = y := Option.some.inj h
    exact hx
  | succ n ih =>
    rw [back, Option.bind_eq_some_iff] at h
    obtain ⟨p, hp, hn⟩ := h
    exact ih (T.parent_mem x p hp) hn

/-- What `LoadTipSet` returns for parents in the tree is the parent; it may also fail. -/
def ChainEnv.Reads (env : ChainEnv) (T : TipSetTree) : Prop :=
  ∀ ts p, T.mem ts → env.loadTipSet ts.parents = .ok p → T.parent ts = some p

/-! ## The walks follow the tree -/

section
variable {T : TipSetTree} {env : ChainEnv}
variable {fuel n : Nat}

theorem walkExternal_some (hrd : env.Reads T) {h : Int} {x e : TipSet} (hx : T.mem x)
    (hrun : walkExternal env h fuel x = .ok (some e)) : T.mem e ∧ AncOrSelf T.parent e x ∧ e.height ≤ h ∧
      ∀ y, AncOrSelf T.parent y x → y.height ≤ h → AncOrSelf T.parent y e := by
  fun_induction walkExternal with
  | case4 x ha _ p hlo fuel ih =>
    have hp : T.parent x = some p := hrd x p hx hlo
    obtain ⟨he, hanc, hle, hk⟩ := ih (T.parent_mem x p hp) hrun
    refine ⟨he, hanc.trans (.of_parent hp), hle, fun y hy hyh => ?_⟩
    rcases hy.eq_or_parent with rfl | ⟨q, hq, hyq⟩
    · omega
    · obtain rfl : q = p := Option.some.inj (hq.symm.trans hp)
      exact hk y hyq hyh
  | case5 fuel x hle =>
    cases hrun
    exact ⟨hx, .refl _, not_lt.mp hle, fun y hy _ => hy⟩
  | _ => cases hrun

/-- `k` parent steps lead from `old` to the nearest ancestor that it shares with `new`. -/
def MeetsAt (T : TipSetTree) (old new : TipSet) (k : Nat) : Prop :=
  (∃ c, back T.parent k old = some c ∧ AncOrSelf T.parent c new) ∧
    ∀ j < k, ∀ x, back T.parent j old = some x → ¬ AncOrSelf T.parent x new

variable {checkpoint : Option TipSet} {synced external a : TipSet}

theorem forkLoop_succ_false (hrun : forkLoop env checkpoint (n + 1) synced external = .ok false) :
    ∃ e, walkExternal env synced.height (external.height - synced.height).toNat external = .ok (some e) ∧
      (synced.equals e = true ∨
        synced.equals e = false ∧ synced.equalsOpt checkpoint = false ∧
          ∃ p, env.loadTipSet synced.parents = .ok p ∧ forkLoop env checkpoint n p e = .ok false) := by
  rw [forkLoop] at hrun
  split at hrun
  · cases hrun
  · cases hrun
  rename_i e hwa
  refine ⟨e, hwa, ?_⟩
  split at hrun
  · rename_i heq
    exact Or.inl heq
  rename_i hne
  split at hrun
  · cases hrun
  rename_i hckpt
  split at hrun
  · cases hrun
  split at hrun
  · cases hrun
  · rename_i p hlo
    exact Or.inr ⟨Bool.eq_false_iff.mpr hne, Bool.eq_false_iff.mpr hckpt, p, hlo, hrun⟩

/-- **The outer walk.**  A false answer comes from a meeting point closer than the number of rounds,
with no checkpoint on the way to it. -/
theorem forkLoop_false (hrd : env.Reads T) (hs : T.mem synced) (hx : T.mem external)
    (hrun : forkLoop env checkpoint n synced external = .ok false) : ∃ k < n, MeetsAt T synced external k ∧
      ∀ j < k, ∀ y, back T.parent j synced = some y → y.equalsOpt checkpoint = false := by
  induction n generalizing synced external with
  | zero => cases hrun
  | succ n ih =>
    obtain ⟨e, hwa, hrn⟩ := forkLoop_succ_false hrun
    obtain ⟨he, hanc, hle, hke⟩ := walkExternal_some hrd hx hwa
    rcases hrn with heq | ⟨hne, hckpt, p, hlo, hrest⟩
    · obtain rfl := T.eq_of_equals _ _ hs he heq
      exact ⟨0, by omega, ⟨⟨synced, rfl, hanc⟩, by simp⟩, by simp⟩
    have hp : T.parent synced = some p := hrd synced p hs hlo
    obtain ⟨k, hk, ⟨⟨c, hc, hce⟩, hm⟩, hpa⟩ := ih (T.parent_mem _ _ hp) he hrest
    refine ⟨k + 1, by omega, ⟨⟨c, by rw [back_succ hp, hc], hce.trans hanc⟩, ?_⟩, ?_⟩
    · -- an ancestor of `external` met on the way would also be one of `e`
      intro j hj y hy hyx
      have hye := hke y hyx (AncOrSelf.height_le T.height_parent ⟨j, hy⟩)
      cases j with
      | zero =>
        cases hy
        have hheight := hye.height_le T.height_parent
        obtain rfl : synced = e :=
          ancOrSelf_unique T.height_parent hye (.refl e) (by omega)
        simp [TipSet.equals_self] at hne
      | succ j =>
        rw [back_succ hp] at hy
        exact hm j (by omega) y hy hye
    intro j hj y hy
    rcases j with _ | j
    · cases hy
      exact hckpt
    rw [back_succ hp] at hy
    exact hpa j (by omega) y hy

theorem isAncestorLoop_true (hrd : env.Reads T) {cur : TipSet} (ha : T.mem a) (hcu : T.mem cur)
    (hrun : isAncestorLoop env a fuel cur = .ok true) : AncOrSelf T.parent a cur := by
  fun_induction isAncestorLoop with
  | case3 cur _ next hlo fuel ih =>
    have hp := hrd cur next hcu hlo
    exact (ih (T.parent_mem _ _ hp) hrun).trans (.of_parent hp)
  | case4 fuel cur _ =>
    obtain rfl := T.eq_of_equals _ _ hcu ha (by simpa using hrun)
    exact .refl _
  | _ => cases hrun

theorem isAncestorOf_true (hrd : env.Reads T) {b : TipSet} (ha : T.mem a) (hb : T.mem b)
    (hrun : isAncestorOf env a b = .ok true) : AncOrSelf T.parent a b := by
  unfold isAncestorOf at hrun
  split at hrun
  · cases hrun
  · exact isAncestorLoop_true hrd ha hb hrun
end

/-! ## What a call can do -/

section
variable [Blake2b]

inductive Op where
  | maybeTakeHeavierTipSet (ts : TipSet)
  | putTipSet (ts : TipSet)
  | addBlock (b : BlockHeader)
  | addToTipSetTracker (iter : Int) (b : BlockHeader)
  | setCheckpoint (ts : TipSet)
  | removeCheckpoint
  | setHead (ts : TipSet)
  | forceHeadSilent (ts : TipSet)

def Op.run (env : ChainEnv) (cs : ChainStore) : Op → ChainStore
  | .maybeTakeHeavierTipSet ts => (Store.maybeTakeHeavierTipSet env cs ts).1
  | .putTipSet ts => (Store.putTipSet env cs ts).1
  | .addBlock b => (Store.addBlock env cs b).1
  | .addToTipSetTracker iter b => Store.addToTipSetTracker iter cs b
  | .setCheckpoint ts => (Store.setCheckpoint env cs ts).1
  | .removeCheckpoint => (Store.removeCheckpoint env cs).1
  | .setHead ts => (Store.setHead env cs ts).1
  | .forceHeadSilent ts => (Store.forceHeadSilent env cs ts).1

/-- The tipset offered belongs to the tree; `PutTipSet` and `AddBlock` offer what a block expands to. -/
def Op.Within (T : TipSetTree) (env : ChainEnv) (cs : ChainStore) : Op → Prop
  | .maybeTakeHeavierTipSet ts => T.mem ts
  | .putTipSet ts => ∀ e, expandTipset env cs ts.first = .ok e → T.mem e
  | .addBlock b => ∀ e, expandTipset env cs b = .ok e → T.mem e
  | .addToTipSetTracker _ _ => True
  | .setCheckpoint ts => T.mem ts
  | .removeCheckpoint => True
  | .setHead ts => T.mem ts
  | .forceHeadSilent ts => T.mem ts

inductive Move (T : TipSetTree) (env : ChainEnv) (cs cs' : ChainStore) : Prop where
  | stay (hhead : cs'.heaviest = cs.heaviest) (hckpt : cs'.checkpoint = cs.checkpoint)
  | take (ts : TipSet) (hmem : T.mem ts)
      (hfork : exceedsForkLength env cs cs.heaviest (some ts) = .ok false)
      (hhead : cs'.heaviest = some ts) (hckpt : cs'.checkpoint = cs.checkpoint)
  | force (hhead : cs'.heaviest = cs.heaviest ∨ ∃ ts, T.mem ts ∧ cs'.heaviest = some ts) (hckpt : cs'.checkpoint = none)
  | check (ts head : TipSet) (hmem : T.mem ts) (hold : cs.heaviest = some head)
      (hanc : ts.equals head = true ∨ isAncestorOf env ts head = .ok true)
      (hhead : cs'.heaviest = cs.heaviest) (hckpt : cs'.checkpoint = some ts)

variable {T : TipSetTree} {env : ChainEnv} {cs : ChainStore}

theorem maybeTake_cases (env : ChainEnv) (cs : ChainStore) (ts : TipSet) : (maybeTakeHeavierTipSet env cs ts).1 = cs ∨
    (maybeTakeHeavierTipSet env cs ts).1 = { cs with heaviest := some ts } ∧
      exceedsForkLength env cs cs.heaviest (some ts) = .ok false := by
  fun_cases maybeTakeHeavierTipSet with
  | case5 _ hfork => exact Or.inr ⟨rfl, hfork⟩
  | _ => exact Or.inl rfl

theorem maybeTake_move {ts : TipSet} (hmem : T.mem ts) : Move T env cs (maybeTakeHeavierTipSet env cs ts).1 := by
  rcases maybeTake_cases env cs ts with h | ⟨h, hfork⟩ <;> rw [h]
  · exact .stay rfl rfl
  · exact .take ts hmem hfork rfl rfl

omit [Blake2b] in
theorem setCheckpoint_move {ts : TipSet} (hmem : T.mem ts) : Move T env cs (setCheckpoint env cs ts).1 := by
  fun_cases setCheckpoint with
  | case7 head hold _ _ hanc =>
    refine .check ts head hmem hold ?_ rfl rfl
    split at hanc
    · rename_i heq
      exact Or.inl heq
    · exact Or.inr hanc
  | _ => exact .stay rfl rfl

theorem Op.run_move (op : Op) (hwi : op.Within T env cs) : Move T env cs (op.run env cs) := by
  cases op with
  | maybeTakeHeavierTipSet ts => exact maybeTake_move hwi
  | putTipSet ts | addBlock b =>
    simp only [Op.run, Store.putTipSet, Store.addBlock]
    split
    · exact .stay rfl rfl
    split
    · exact .stay rfl rfl
    · rename_i e hexp
      exact maybeTake_move (hwi e hexp)
  | addToTipSetTracker iter b =>
    simp only [Op.run, Store.addToTipSetTracker]
    split <;> exact .stay rfl rfl
  | setCheckpoint ts => exact setCheckpoint_move hwi
  | removeCheckpoint =>
    simp only [Op.run, Store.removeCheckpoint]
    cases env.metadataDeleteErr with
    | some e => exact .stay rfl rfl
    | none => exact .force (Or.inl rfl) rfl
  | setHead ts | forceHeadSilent ts =>
    simp only [Op.run, Store.setHead, Store.forceHeadSilent, Store.removeCheckpoint]
    cases env.metadataDeleteErr with
    | some e => exact .stay rfl rfl
    | none => exact .force (Or.inr ⟨ts, hwi, rfl⟩) rfl

/-! ## The invariant -/

omit [Blake2b]

variable (T cs) in
structure HeadInv : Prop where
  head_mem : ∀ head, cs.heaviest = some head → T.mem head
  checkpoint : ∀ c, cs.checkpoint = some c → ∃ head, cs.heaviest = some head ∧ AncOrSelf T.parent c head

section
variable (hrd : env.Reads T) (hinv : HeadInv T cs)
include hrd hinv

theorem exceedsForkLength_false {old ts : TipSet}
    (hold : cs.heaviest = some old) (hts : T.mem ts) (hfork : exceedsForkLength env cs cs.heaviest (some ts) = .ok false) :
    ∃ k < forkLengthThreshold, MeetsAt T old ts k ∧
      ∀ j < k, ∀ y, back T.parent j old = some y → y.equalsOpt cs.checkpoint = false := by
  rw [hold] at hfork
  exact forkLoop_false hrd (hinv.head_mem old hold) hts hfork

theorem HeadInv.take {cs' : ChainStore} {ts : TipSet} (hts : T.mem ts)
    (hfork : exceedsForkLength env cs cs.heaviest (some ts) = .ok false) (hhead : cs'.heaviest = some ts)
    (hckpt : cs'.checkpoint = cs.checkpoint) : HeadInv T cs' := by
  refine ⟨?_, ?_⟩
  · intro head hh
    obtain rfl : ts = head := by simpa [hhead] using hh
    exact hts
  intro c hc
  rw [hckpt] at hc
  obtain ⟨old, hold, m, hm⟩ := hinv.checkpoint c hc
  obtain ⟨k, -, ⟨⟨x, hx, hxt⟩, -⟩, hpa⟩ := exceedsForkLength_false hrd hinv hold hts hfork
  have hkm : k ≤ m := by
    by_contra hlt
    have := hpa m (by omega) c hm
    simp [hc, TipSet.equalsOpt, TipSet.equals_self] at this
  exact ⟨ts, hhead, (ancOrSelf_of_back_le hx hm hkm).trans hxt⟩

theorem HeadInv.move {cs' : ChainStore} (hm : Move T env cs cs') : HeadInv T cs' := by
  cases hm with
  | stay hhead hckpt =>
    refine ⟨?_, ?_⟩
    · rw [hhead]
      exact hinv.head_mem
    · rw [hhead, hckpt]
      exact hinv.checkpoint
  | take ts hmem hfork hhead hckpt => exact hinv.take hrd hmem hfork hhead hckpt
  | force hhead hckpt =>
    refine ⟨?_, ?_⟩
    · rcases hhead with hhead | ⟨ts, hts, hhead⟩ <;> rw [hhead]
      · exact hinv.head_mem
      · rintro head ⟨⟩
        exact hts
    · simp [hckpt]
  | check ts head hmem hold hanc hhead hckpt =>
    refine ⟨?_, ?_⟩
    · rw [hhead]
      exact hinv.head_mem
    rw [hhead, hckpt]
    rintro c ⟨⟩
    refine ⟨head, hold, ?_⟩
    have hh := hinv.head_mem head hold
    rcases hanc with heq | hanc
    · exact T.eq_of_equals _ _ hmem hh heq ▸ .refl _
    · exact isAncestorOf_true hrd hmem hh hanc
end
end

/-! ## Every run -/

/-- The stores reached from a new one by calls on the tree, each with its own environment. -/
inductive Reachable [Blake2b] (T : TipSetTree) : ChainStore → Prop where
  | new : Reachable T ChainStore.new
  | step {cs : ChainStore} (env : ChainEnv) (op : Op) : Reachable T cs → env.Reads T →
      op.Within T env cs → Reachable T (op.run env cs)

theorem Reachable.headInv [Blake2b] {T : TipSetTree} {cs : ChainStore} (h : Reachable T cs) : HeadInv T cs := by
  induction h with
  | new => exact ⟨by simp [ChainStore.new], by simp [ChainStore.new]⟩
  | step env op _ hrd hwi ih => exact ih.move hrd (op.run_move hwi)

/-- **The head never diverges from the checkpoint**, which is unset, the head or an ancestor of it; and the head moves only
to a tipset whose nearest common ancestor is fewer than `ForkLengthThreshold` back. -/
theorem checkpoint_below_head [Blake2b] (T : TipSetTree) (cs : ChainStore) (h : Reachable T cs) :
    (cs.checkpoint = none ∨ ∃ c head, cs.checkpoint = some c ∧ cs.heaviest = some head ∧ AncOrSelf T.parent c head) ∧
    ∀ env ts old, env.Reads T → T.mem ts → cs.heaviest = some old →
      (maybeTakeHeavierTipSet env cs ts).1.heaviest ≠ some old →
      (maybeTakeHeavierTipSet env cs ts).1.heaviest = some ts ∧ ∃ k < forkLengthThreshold, MeetsAt T old ts k := by
  refine ⟨?_, ?_⟩
  · rcases hc : cs.checkpoint with _ | c
    · exact Or.inl rfl
    obtain ⟨head, hhead, hanc⟩ := h.headInv.checkpoint c hc
    exact Or.inr ⟨c, head, rfl, hhead, hanc⟩
  intro env ts old hrd hts hold hch
  rcases maybeTake_cases env cs ts with hst | ⟨hta, hfork⟩
  · rw [hst] at hch
    exact absurd hold hch
  · obtain ⟨k, hk, hm, -⟩ := exceedsForkLength_false hrd h.headInv hold hts hfork
    exact ⟨by rw [hta], k, hk, hm⟩

section

/-- A tipset of one block, with height, ticket and CID `n`. -/
def linkTipSet (n : Byte) (parents : TipSetKey) : TipSet where
  blks := [⟨⟨[n]⟩, .id 0, some ⟨[n]⟩, parents, n.val, ⟨[]⟩⟩]
  ne := by simp
  tickets := by simp

def link0 : TipSet := linkTipSet 0 []
def link1 : TipSet := linkTipSet 1 link0.key
def link2 : TipSet := linkTipSet 2 link1.key

def linkTree : TipSetTree where
  mem ts := ts ∈ [link0, link1, link2]
  parent ts := if ts = link1 then some link0 else if ts = link2 then some link1 else none
  parent_mem := by
    intro ts p h
    split at h
    · cases h
      decide
    split at h
    · cases h
      decide
    · cases h
  height_parent := by
    intro ts p h
    split at h
    · rename_i hts
      cases h
      subst hts
      decide
    split at h
    · rename_i hts
      cases h
      subst hts
      decide
    · cases h
  eq_of_equals := by
    have : ∀ a ∈ [link0, link1, link2], ∀ b ∈ [link0, link1, link2], a.equals b = true → a = b := by
      decide
    exact fun a b ha hb => this a ha b hb

def linkEnv : ChainEnv where
  getBlock _ := .error (.errorf "blockstore: block not found")
  loadTipSet k :=
    if k = link0.key then .ok link0 else if k = link1.key then .ok link1
    else .error (.errorf "blockstore: block not found")
  weight ts := .ok ((ts.map TipSet.height).getD 0)
  persistErr := none
  metadataPutErr := none
  metadataDeleteErr := none

theorem linkEnv_reads : linkEnv.Reads linkTree := by
  have : ∀ ts ∈ [link0, link1, link2], ∀ p ∈ [link0, link1],
      linkEnv.loadTipSet ts.parents = .ok p → linkTree.parent ts = some p := by
    decide
  intro ts p hts hlo
  refine this ts hts p ?_ hlo
  simp only [linkEnv] at hlo
  split at hlo
  · cases hlo
    simp
  split at hlo
  · cases hlo
    simp
  · cases hlo

def linkStore : ChainStore :=
  let _ : Blake2b := ⟨id⟩
  (Op.setCheckpoint link0).run linkEnv ((Op.setHead link1).run linkEnv .new)

theorem checkpoint_below_head_link2 :
    let _ : Blake2b := ⟨id⟩
    linkStore.checkpoint = some link0 ∧ linkStore.heaviest = some link1 ∧
    (maybeTakeHeavierTipSet linkEnv linkStore link2).1.heaviest = some link2 ∧
    ∃ k < forkLengthThreshold, MeetsAt linkTree link1 link2 k :=
  let _ : Blake2b := ⟨id⟩
  have hrc : Reachable linkTree linkStore :=
    .step linkEnv (.setCheckpoint link0)
      (.step linkEnv (.setHead link1) .new linkEnv_reads (by simp [Op.Within, linkTree]))
      linkEnv_reads (by simp [Op.Within, linkTree])
  ⟨rfl, rfl, (checkpoint_below_head linkTree linkStore hrc).2 linkEnv link2 link1 linkEnv_reads
    (by simp [linkTree]) rfl (by decide)⟩
end
end Lotus.Store
