/-
# Which sync targets are worked on, and which are lost.

The inner loop of `selectDeferredSyncTarget` looks at one active worker only: with no worker at all it falls through and drops
the bucket, and with several it misses the one that has the target already.
-/
import Lotus.Sync.Manager

namespace Lotus.Sync
open List SyncBucketSet SyncManager

/-! ## Buckets -/

section
variable (cfg : ManagerConfig)

theorem foldl_heavier_mem (best : TipSet) (tips : List TipSet) : tips.foldl cfg.heavier best ∈ best :: tips := by
  induction tips generalizing best with
  | nil => simp
  | cons t tips ih =>
    have hca : cfg.heavier best t = best ∨ cfg.heavier best t = t := by
      unfold ManagerConfig.heavier
      split <;> simp
    rw [foldl_cons]
    rcases mem_cons.mp (ih (cfg.heavier best t)) with heq | hmem
    · rw [heq]
      rcases hca with h | h <;> simp [h]
    · simp [hmem]

theorem heaviestTipSet_mem (stb : SyncTargetBucket) : stb.heaviestTipSet cfg ∈ stb.tips := by
  have h := foldl_heavier_mem cfg (stb.tips.head stb.ne) stb.tips.tail
  rwa [cons_head_tail] at h

theorem best_mem (b : SyncTargetBucket) (sbs : SyncBucketSet) : best cfg b sbs ∈ b :: sbs := by
  unfold best
  induction sbs generalizing b with
  | nil => simp
  | cons b' sbs ih =>
    rw [foldl_cons]
    split
    · exact mem_cons_of_mem b (ih b')
    · rcases mem_cons.mp (ih b) with h | h <;> simp [h]

variable {cfg} {sbs : SyncBucketSet}

theorem pop_eq {sbs' : SyncBucketSet} {b : SyncTargetBucket}
    (h : pop cfg sbs = some (b, sbs')) : b ∈ sbs ∧ sbs' = sbs.erase b := by
  rcases sbs with _ | ⟨b₀, sbs⟩
  · simp [pop] at h
  obtain ⟨rfl, rfl⟩ : best cfg b₀ sbs = b ∧ (b₀ :: sbs).erase (best cfg b₀ sbs) = sbs' := by
    simpa [pop] using h
  exact ⟨best_mem cfg b₀ sbs, rfl⟩

theorem pop_eq_none (h : pop cfg sbs = none) : sbs = [] := by
  rcases sbs with _ | ⟨b, sbs⟩
  · rfl
  · simp [pop] at h

theorem popRelated_mem {ts t : TipSet} {related : SyncTargetBucket}
    (h : (popRelated sbs ts).1 = some related) (ht : t ∈ related.tips) : ∃ b ∈ sbs, t ∈ b.tips := by
  unfold popRelated at h
  split at h
  · simp at h
  rename_i b bs hfi
  cases h
  have hsu : ∀ b' ∈ b :: bs, b' ∈ sbs := by
    intro b' hb'
    rw [← hfi] at hb'
    exact mem_of_mem_filter hb'
  rcases mem_append.mp ht with ht | ht
  · exact ⟨b, hsu b mem_cons_self, ht⟩
  · obtain ⟨b', hb', ht⟩ := mem_flatMap.mp ht
    exact ⟨b', hsu b' (mem_cons_of_mem b hb'), ht⟩
end

/-! ## Pending buckets are anchored at active workers -/

section
variable [Blake2b] {cfg : ManagerConfig} {ws : List WorkerState} {pend pend' : SyncBucketSet} {ts : TipSet}
variable (ws pend) in
/-- Every bucket has a tipset whose parent is the target of an active worker. -/
def Anchored : Prop :=
  ∀ b ∈ pend, ∃ t ∈ b.tips, ∃ w ∈ ws, t.parents = w.ts.key

theorem recombined_parents {t ts2 : TipSet} (h : newTipSet (onePerMiner [] (t.blks ++ ts.blks)) = .ok ts2) :
    ts2.parents = t.parents := by
  obtain ⟨-, -, hb, hch⟩ := newTipSet_ok h
  have hfirst : t.first ∈ ts2.blks := by
    rw [hb, (sortBlocks_perm _).mem_iff]
    have hco : t.blks = t.first :: t.blks.tail := (cons_head_tail t.ne).symm
    rw [hco]
    simp [onePerMiner]
  have hsp : ts2.blks = ts2.first :: ts2.blks.tail := (cons_head_tail ts2.ne).symm
  rw [hsp] at hfirst
  rcases mem_cons.mp hfirst with heq | hmem
  · exact congrArg BlockHeader.parents heq.symm
  · exact (checkBlocks_ok_iff.mp hch t.first hmem).2.symm

theorem addTip_parents {tips tips' : List TipSet} (h : addTip cfg ts tips = some tips') :
    ∀ t ∈ tips, ∃ t' ∈ tips', t'.parents = t.parents := by
  induction tips generalizing tips' with
  | nil => simp
  | cons t0 tips ih =>
    have hk : ∀ {l}, (addTip cfg ts tips).map (t0 :: ·) = some l → ∀ t ∈ t0 :: tips, ∃ t' ∈ l, t'.parents = t.parents := by
      intro l hl t ht
      obtain ⟨rest, hrest, rfl⟩ := Option.map_eq_some_iff.mp hl
      rcases mem_cons.mp ht with rfl | ht
      · exact ⟨t, mem_cons_self, rfl⟩
      · obtain ⟨t', ht', hpa⟩ := ih hrest t ht
        exact ⟨t', mem_cons_of_mem t0 ht', hpa⟩
    rw [addTip] at h
    split at h
    · cases h
      exact fun t ht => ⟨t, ht, rfl⟩
    split at h
    · dsimp only at h
      split at h
      · split at h
        · exact hk h
        rename_i ts2 hnew
        cases h
        intro t ht
        rcases mem_cons.mp ht with rfl | ht
        · exact ⟨ts2, mem_cons_self, recombined_parents hnew⟩
        · exact ⟨t, mem_cons_of_mem ts2 ht, rfl⟩
      · simp at h
    · exact hk h

theorem insert_anchored (hinsert : insert cfg ts pend = some pend') (h : Anchored ws pend)
    (hts : relatedToAny pend ts = true ∨ ∃ w ∈ ws, ts.parents = w.ts.key) : Anchored ws pend' := by
  induction pend generalizing pend' with
  | nil =>
    cases hinsert
    rcases hts with hre | ⟨w, hw, hpa⟩
    · simp [relatedToAny] at hre
    intro b hb
    obtain rfl := mem_singleton.mp hb
    exact ⟨ts, mem_cons_self, w, hw, hpa⟩
  | cons b₀ pend ih =>
    have hhead := h b₀ mem_cons_self
    have hrest : Anchored ws pend := fun b hb => h b (mem_cons_of_mem b₀ hb)
    rw [SyncBucketSet.insert] at hinsert
    split at hinsert
    · obtain ⟨b₁, ha, rfl⟩ := Option.map_eq_some_iff.mp hinsert
      have hti : addTip cfg ts b₀.tips = some b₁.tips := by
        unfold SyncTargetBucket.add at ha
        split at ha
        · simp at ha
        rename_i tips hti
        cases ha
        exact hti
      intro b hb
      rcases mem_cons.mp hb with rfl | hb
      · obtain ⟨t, ht, w, hw, hpa⟩ := hhead
        obtain ⟨t', ht', heq⟩ := addTip_parents hti t ht
        exact ⟨t', ht', w, hw, heq.trans hpa⟩
      · exact hrest b hb
    rename_i hn
    obtain ⟨sbs, hsb, rfl⟩ := Option.map_eq_some_iff.mp hinsert
    have hts' : relatedToAny pend ts = true ∨ ∃ w ∈ ws, ts.parents = w.ts.key := by
      refine hts.imp_left fun hre => ?_
      simpa [relatedToAny, hn] using hre
    intro b hb
    rcases mem_cons.mp hb with rfl | hb
    · exact hhead
    · exact ih hsb hrest hts' b hb
end

/-! ## The deferred loop -/

section
variable [Blake2b] {cfg : ManagerConfig} {order : MapOrder} {sm : SyncManager} {r : Selection}

/-- **Why a popped bucket may be discarded**: it or a heavier one was synced or is worked on, or is pending. -/
def Discard.Justified (cfg : ManagerConfig) (d : Discard) : Prop :=
  d.before.recent.synced cfg d.heaviest = true ∨
  (relatedToAny d.before.pend d.heaviest = true ∧ insert cfg d.heaviest d.before.pend = some d.after.pend) ∨
  ∃ w ∈ d.before.state, w.ts.equals d.heaviest = true ∨ cfg.isHeavier w.ts d.heaviest = true ∨
    d.heaviest.parents = w.ts.key ∧ insert cfg d.heaviest d.before.pend = some d.after.pend

def SyncManager.popped (sm : SyncManager) (b : SyncTargetBucket) : SyncManager :=
  { sm with deferred := sm.deferred.erase b }

/-- What one round can do: a bucket is skipped for a reason, or for want of an active worker. -/
inductive Round (cfg : ManagerConfig) (order : MapOrder) (n : Nat) (sm : SyncManager) : Selection → Prop where
  | stop (hempty : sm.deferred = []) : Round cfg order n sm ⟨sm, none, []⟩
  | skip {b : SyncTargetBucket} {r : Selection} (hmem : b ∈ sm.deferred)
      (hwhy : Discard.Justified cfg ⟨b.heaviestTipSet cfg, sm.popped b, sm.popped b⟩ ∨ sm.state = [])
      (hrun : deferredLoop cfg order n (sm.popped b) = some r) :
      Round cfg order n sm (r.discard ⟨b.heaviestTipSet cfg, sm.popped b, sm.popped b⟩)
  | pend {b : SyncTargetBucket} {pend : SyncBucketSet} {r : Selection} (hmem : b ∈ sm.deferred)
      (hinsert : insert cfg (b.heaviestTipSet cfg) sm.pend = some pend)
      (hwhy : relatedToAny sm.pend (b.heaviestTipSet cfg) = true ∨
        ∃ w ∈ sm.state, (b.heaviestTipSet cfg).parents = w.ts.key)
      (hrun : deferredLoop cfg order n { sm.popped b with pend := pend } = some r) :
      Round cfg order n sm (r.discard ⟨b.heaviestTipSet cfg, sm.popped b, { sm.popped b with pend := pend }⟩)
  | sync {b : SyncTargetBucket} (hmem : b ∈ sm.deferred) :
      Round cfg order n sm ⟨sm.popped b, some (b.heaviestTipSet cfg), []⟩

variable {n : Nat}

theorem deferredLoop_round (h : deferredLoop cfg order (n + 1) sm = some r) : Round cfg order n sm r := by
  rw [deferredLoop] at h
  split at h
  · rename_i hpo
    cases h
    exact .stop (pop_eq_none hpo)
  rename_i b deferred hpo
  obtain ⟨hmem, rfl⟩ := pop_eq hpo
  change (if sm.recent.synced cfg (b.heaviestTipSet cfg) = true then
      (deferredLoop cfg order n (sm.popped b)).map _ else _) = some r at h
  have hpe : ∀ {f : SyncBucketSet → Discard}, (insert cfg (b.heaviestTipSet cfg) sm.pend).bind (fun pend =>
        (deferredLoop cfg order n { sm.popped b with pend := pend }).map (·.discard (f pend))) = some r →
      ∃ pend r', insert cfg (b.heaviestTipSet cfg) sm.pend = some pend ∧
        deferredLoop cfg order n { sm.popped b with pend := pend } = some r' ∧
        r = r'.discard (f pend) := by
    intro f hf
    obtain ⟨pend, hins, hrun⟩ := Option.bind_eq_some_iff.mp hf
    obtain ⟨r', hr', rfl⟩ := Option.map_eq_some_iff.mp hrun
    exact ⟨pend, r', hins, hr', rfl⟩
  split at h
  · rename_i hsy
    obtain ⟨r', hrun, rfl⟩ := Option.map_eq_some_iff.mp h
    exact .skip hmem (.inl (.inl hsy)) hrun
  split at h
  · rename_i hre
    obtain ⟨pend, r', hins, hrun, rfl⟩ := hpe h
    exact .pend hmem hins (.inl hre) hrun
  split at h
  · rename_i ho
    obtain ⟨r', hrun, rfl⟩ := Option.map_eq_some_iff.mp h
    have hperm := order.perm n sm.state
    rw [show order.order n sm.state = [] from ho] at hperm
    exact .skip hmem (.inr hperm.nil_eq.symm) hrun
  rename_i w rest ho
  have hw : w ∈ sm.state := by
    rw [← (order.perm n sm.state).mem_iff, show order.order n sm.state = w :: rest from ho]
    exact mem_cons_self
  split at h
  · rename_i hor
    obtain ⟨r', hrun, rfl⟩ := Option.map_eq_some_iff.mp h
    rcases Bool.or_eq_true_iff.mp hor with heq | hh
    · exact .skip hmem (.inl (.inr (.inr ⟨w, hw, .inl heq⟩))) hrun
    · exact .skip hmem (.inl (.inr (.inr ⟨w, hw, .inr (.inl hh)⟩))) hrun
  split at h
  · rename_i hch
    obtain ⟨pend, r', hins, hrun, rfl⟩ := hpe h
    exact .pend hmem hins (.inr ⟨w, hw, hch⟩) hrun
  · cases h
    exact .sync hmem

variable (cfg sm r) in
structure Selects : Prop where
  state : r.manager.state = sm.state
  nextWorker : r.manager.nextWorker = sm.nextWorker
  anchored : Anchored sm.state sm.pend → Anchored sm.state r.manager.pend
  rest : r.manager.deferred.Subperm sm.deferred
  target : ∀ t, r.target = some t → ∃ b, t = b.heaviestTipSet cfg ∧ (b :: r.manager.deferred).Subperm sm.deferred

section
variable (h : deferredLoop cfg order n sm = some r)
include h

theorem deferredLoop_selects : Selects cfg sm r := by
  induction n generalizing sm r with
  | zero =>
    cases h
    exact ⟨rfl, rfl, id, List.Subperm.refl _, by simp⟩
  | succ n ih =>
    have hpo : ∀ {b}, b ∈ sm.deferred → (b :: sm.deferred.erase b).Subperm sm.deferred :=
      fun hmem => (perm_cons_erase hmem).symm.subperm
    have hera : ∀ b, (sm.deferred.erase b).Subperm sm.deferred :=
      fun b => erase_sublist.subperm
    cases deferredLoop_round h with
    | stop hempty => exact ⟨rfl, rfl, id, List.Subperm.refl _, by simp⟩
    | @skip b r' hmem hwhy hrun =>
      obtain ⟨hst, hn, hanch, hrest, htg⟩ := ih hrun
      refine ⟨hst, hn, hanch, hrest.trans (hera b), fun t ht => ?_⟩
      obtain ⟨b', hb', hsu⟩ := htg t ht
      exact ⟨b', hb', hsu.trans (hera b)⟩
    | @pend b pend r' hmem hinsert hwhy hrun =>
      obtain ⟨hst, hn, hanch, hrest, htg⟩ := ih hrun
      refine ⟨hst, hn, fun ha => hanch (insert_anchored hinsert ha hwhy), hrest.trans (hera b), fun t ht => ?_⟩
      obtain ⟨b', hb', hsu⟩ := htg t ht
      exact ⟨b', hb', hsu.trans (hera b)⟩
    | @sync b hmem =>
      refine ⟨rfl, rfl, id, hera b, fun t ht => ?_⟩
      exact ⟨b, (Option.some.inj ht).symm, hpo hmem⟩

theorem deferredLoop_justified
    (hco : sm.state ≠ [] ∨ ∀ b ∈ sm.deferred, sm.recent.synced cfg (b.heaviestTipSet cfg) = true) :
    ∀ d ∈ r.discarded, Discard.Justified cfg d := by
  induction n generalizing sm r with
  | zero =>
    cases h
    simp
  | succ n ih =>
    have hc' : ∀ b, sm.state ≠ [] ∨ ∀ b' ∈ sm.deferred.erase b, sm.recent.synced cfg (b'.heaviestTipSet cfg) = true :=
      fun b => hco.imp_right fun ha b' hb' => ha b' (mem_of_mem_erase hb')
    cases deferredLoop_round h with
    | stop hempty => simp
    | @skip b r' hmem hwhy hrun =>
      intro d hd
      rcases mem_cons.mp hd with rfl | hd
      · rcases hwhy with hwhy | hn
        · exact hwhy
        rcases hco with hne | ha
        · exact absurd hn hne
        · exact .inl (ha b hmem)
      · exact ih hrun (hc' b) d hd
    | @pend b pend r' hmem hinsert hwhy hrun =>
      intro d hd
      rcases mem_cons.mp hd with rfl | hd
      · rcases hwhy with hre | ⟨w, hw, hch⟩
        · exact .inr (.inl ⟨hre, hinsert⟩)
        · exact .inr (.inr ⟨w, hw, .inr (.inr ⟨hch, hinsert⟩)⟩)
      · exact ih hrun (hc' b) d hd
    | @sync b hmem => simp
end

theorem deferredLoop_idle (hst : sm.state = []) (hpe : sm.pend = []) :
    ∃ r, deferredLoop cfg order n sm = some r ∧ r.target = none := by
  induction n generalizing sm with
  | zero => exact ⟨_, rfl, rfl⟩
  | succ n ih =>
    rw [deferredLoop]
    split
    · exact ⟨_, rfl, rfl⟩
    rename_i b deferred hpo
    obtain ⟨r, hrun, hn⟩ : ∃ r, deferredLoop cfg order n { sm with deferred := deferred } =
        some r ∧ r.target = none := ih hst hpe
    have ho : order.order n sm.state = [] := by
      rw [hst]
      exact (order.perm n []).eq_nil
    have hre : relatedToAny sm.pend (b.heaviestTipSet cfg) = false := by
      rw [hpe]
      rfl
    dsimp only
    rw [hrun, hre, ho]
    refine ⟨_, ite_self _, hn⟩
end

/-! ## What the calls do to the workers -/

section
variable {ts : TipSet} {ws : List WorkerState}

theorem relation_extension (h : relation ts ws = .extension) : ∃ w ∈ ws, ts.parents = w.ts.key := by
  fun_induction relation with
  | case3 w ws _ hpa => exact ⟨w, mem_cons_self, hpa⟩
  | case4 w ws _ _ ih =>
    obtain ⟨w', hw', hpa⟩ := ih h
    exact ⟨w', mem_cons_of_mem w hw', hpa⟩
  | _ => cases h

theorem relation_unrelated (h : relation ts ws = .unrelated) : ∀ w ∈ ws, ts.equals w.ts = false := by
  fun_induction relation with
  | case1 => simp
  | case4 w ws hne _ ih => exact forall_mem_cons.mpr ⟨Bool.eq_false_iff.mpr hne, ih h⟩
  | _ => cases h
end

section
variable [Blake2b] {cfg : ManagerConfig} {order : MapOrder} {sm sm' : SyncManager} {ts : TipSet}
  {r : SyncManager × Option TipSet}

variable (cfg sm ts r) in
/-- What `addSyncTarget` can do: a target is the announced head, with room for a worker and none that has it. -/
structure Adds :
    Prop where
  state : r.1.state = sm.state
  nextWorker : r.1.nextWorker = sm.nextWorker
  anchored : Anchored sm.state sm.pend → Anchored sm.state r.1.pend
  target : ∀ t, r.2 = some t → t = ts ∧ (sm.state = [] ∨ sm.state.length < cfg.maxSyncWorkers) ∧
    ∀ w ∈ sm.state, ts.equals w.ts = false

omit [Blake2b] in
theorem Adds.ignore (cfg : ManagerConfig) (sm : SyncManager) (ts : TipSet) : Adds cfg sm ts (sm, none) :=
  ⟨rfl, rfl, id, by simp⟩

theorem Adds.pend (hre : relatedToAny sm.pend ts = true ∨ ∃ w ∈ sm.state, ts.parents = w.ts.key)
    (h : (insert cfg ts sm.pend).map (fun pend => ({ sm with pend := pend }, none)) = some r) : Adds cfg sm ts r := by
  obtain ⟨pend, hins, rfl⟩ := Option.map_eq_some_iff.mp h
  exact ⟨rfl, rfl, fun ha => insert_anchored hins ha hre, by simp⟩

theorem addSyncTarget_adds (h : sm.addSyncTarget cfg order ts = some r) : Adds cfg sm ts r := by
  revert h
  fun_cases addSyncTarget with
  | case2 _ hn =>
    rintro ⟨⟩
    exact ⟨rfl, rfl, id, fun t ht => ⟨(Option.some.inj ht).symm, .inl hn, by simp [hn]⟩⟩
  | case4 _ _ hre =>
    obtain ⟨w, hw, hpa⟩ := relation_extension hre
    exact .pend (.inr ⟨w, (order.perm 0 sm.state).mem_iff.mp hw, hpa⟩)
  | case5 _ _ hre hpe => exact .pend (.inl hpe)
  | case8 =>
    intro h
    obtain ⟨deferred, hins, rfl⟩ := Option.map_eq_some_iff.mp h
    exact ⟨rfl, rfl, id, by simp⟩
  | case9 _ _ hre _ _ _ hro =>
    -- every active worker was compared with the head
    rw [not_or] at hro
    rintro ⟨⟩
    refine ⟨rfl, rfl, id, fun t ht => ⟨(Option.some.inj ht).symm, .inr (by omega), fun w hw => ?_⟩⟩
    exact relation_unrelated hre w ((order.perm 0 sm.state).mem_iff.mpr hw)
  | _ =>
    rintro ⟨⟩
    exact .ignore cfg sm ts

/-- What `selectSyncTarget` can do: a target was waiting in one of the two sets. -/
structure Chooses (sm : SyncManager) (done : TipSet) (r : SyncManager × Option TipSet) : Prop where
  state : r.1.state = sm.state
  nextWorker : r.1.nextWorker = sm.nextWorker
  anchored : Anchored sm.state (popRelated sm.pend done).2 → Anchored sm.state r.1.pend
  target : ∀ t, r.2 = some t → ∃ b ∈ sm.pend ++ sm.deferred, t ∈ b.tips

theorem selectSyncTarget_chooses {done : TipSet} (h : sm.selectSyncTarget cfg order done = some r) : Chooses sm done r := by
  have hd : (selectDeferredSyncTarget cfg { sm with pend := (popRelated sm.pend done).2 } order).map Selection.result = some r →
      Chooses sm done r := by
    intro hrun
    obtain ⟨sel, hse, rfl⟩ := Option.map_eq_some_iff.mp hrun
    obtain ⟨hst, hn, ha, -, htg⟩ := deferredLoop_selects hse
    refine ⟨hst, hn, ha, fun t ht => ?_⟩
    obtain ⟨b, rfl, hsu⟩ := htg t ht
    exact ⟨b, mem_append_right _ (hsu.subset mem_cons_self), heaviestTipSet_mem cfg b⟩
  revert h
  fun_cases selectSyncTarget with
  | case5 _ _ related hre =>
    rintro ⟨⟩
    refine ⟨rfl, rfl, id, ?_⟩
    rintro t ⟨⟩
    obtain ⟨b, hb, hmem⟩ := popRelated_mem hre (heaviestTipSet_mem cfg related)
    exact ⟨b, mem_append_left _ hb, hmem⟩
  | _ => exact hd
end

/-! ## The map of workers -/

section
variable {sm : SyncManager}

theorem Anchored.mono {ws ws' : List WorkerState} {pend : SyncBucketSet} (h : Anchored ws pend)
    (hsu : ws ⊆ ws') : Anchored ws' pend := by
  intro b hb
  obtain ⟨t, ht, w, hw, hpa⟩ := h b hb
  exact ⟨t, ht, w, hsu hw, hpa⟩

structure ManagerInv (sm : SyncManager) : Prop where
  fresh : ∀ w ∈ sm.state, w.id < sm.nextWorker
  keys : (sm.state.map (·.id)).Nodup
  anchored : Anchored sm.state sm.pend

theorem managerInv_new : ManagerInv newSyncManager := by
  refine ⟨?_, nodup_nil, ?_⟩
  · simp [newSyncManager]
  · simp [newSyncManager, Anchored]

theorem ManagerInv.spawn (h : ManagerInv sm) (target : TipSet) : ManagerInv (sm.spawnWorker target) where
  fresh := by
    intro w hw
    show w.id < sm.nextWorker + 1
    rcases mem_append.mp hw with hw | hw
    · exact Nat.lt_succ_of_lt (h.fresh w hw)
    · obtain rfl := mem_singleton.mp hw
      exact Nat.lt_succ_self _
  keys := by
    show ((sm.state ++ [WorkerState.mk sm.nextWorker target]).map (·.id)).Nodup
    rw [map_append, nodup_append]
    refine ⟨h.keys, nodup_singleton _, ?_⟩
    intro i hi j hj
    obtain ⟨w, hw, rfl⟩ := mem_map.mp hi
    obtain rfl : j = sm.nextWorker := by simpa using hj
    exact (h.fresh w hw).ne
  anchored := h.anchored.mono (subset_append_left _ _)

theorem ManagerInv.spawnTarget {r : SyncManager × Option TipSet} (h : ManagerInv r.1) : ManagerInv (spawnTarget r) := by
  unfold SyncManager.spawnTarget
  split
  · exact h
  · exact h.spawn _

theorem ManagerInv.of_state {sm' : SyncManager} (h : ManagerInv sm) (hst : sm'.state = sm.state)
    (hn : sm'.nextWorker = sm.nextWorker) (ha : Anchored sm.state sm'.pend) : ManagerInv sm' := by
  rw [← hst] at ha
  refine ⟨?_, ?_, ha⟩
  · rw [hst, hn]
    exact h.fresh
  · rw [hst]
    exact h.keys

theorem ManagerInv.idle (h : ManagerInv sm) (hn : sm.nextWorker = 0) : sm.state = [] := by
  rw [eq_nil_iff_forall_not_mem]
  intro w hw
  have := h.fresh w hw
  omega

theorem ManagerInv.pend_nil (h : ManagerInv sm) (hst : sm.state = []) : sm.pend = [] := by
  rw [eq_nil_iff_forall_not_mem]
  intro b hb
  obtain ⟨t, -, w, hw, -⟩ := h.anchored b hb
  simp [hst] at hw

variable (ws : WorkerState) (err : Option GoError) (dt : Int)

@[simp] theorem finishWorker_state : (sm.finishWorker ws err dt).state = sm.state.filter fun w => w.id ≠ ws.id := by
  unfold finishWorker
  split <;> rfl

@[simp] theorem finishWorker_rest : (sm.finishWorker ws err dt).pend = sm.pend ∧
    (sm.finishWorker ws err dt).deferred = sm.deferred ∧ (sm.finishWorker ws err dt).nextWorker = sm.nextWorker := by
  unfold finishWorker
  split <;> simp

theorem ManagerInv.anchored_finish (h : ManagerInv sm) {ws : WorkerState} (hws : ws ∈ sm.state) :
    Anchored (sm.state.filter fun w => w.id ≠ ws.id) (popRelated sm.pend ws.ts).2 := by
  intro b hb
  obtain ⟨hmem, hn⟩ := mem_filter.mp hb
  obtain ⟨t, ht, w, hw, hpa⟩ := h.anchored b hmem
  refine ⟨t, ht, w, mem_filter.mpr ⟨hw, ?_⟩, hpa⟩
  -- a bucket of the finished worker would be on its chain
  rw [decide_eq_true_eq]
  intro hid
  obtain rfl : w = ws := inj_on_of_nodup_map h.keys hw hws hid
  have hsa : b.sameChainAs w.ts = true := by
    rw [SyncTargetBucket.sameChainAs, any_eq_true]
    exact ⟨t, ht, by simp [hpa]⟩
  simp [hsa] at hn

theorem ManagerInv.finish (h : ManagerInv sm) (hws : ws ∈ sm.state) : ManagerInv { sm.finishWorker ws err dt with
      pend := (popRelated (sm.finishWorker ws err dt).pend ws.ts).2 } := by
  refine ⟨?_, ?_, ?_⟩
  · intro w hw
    simp only [finishWorker_state, finishWorker_rest] at hw ⊢
    exact h.fresh w (mem_of_mem_filter hw)
  · simp only [finishWorker_state]
    exact h.keys.sublist (filter_sublist.map _)
  · simp only [finishWorker_state, finishWorker_rest]
    exact h.anchored_finish hws
end

/-! ## Steps -/

section
variable [Blake2b] {cfg : ManagerConfig} {sm sm' : SyncManager}

theorem handlePeerHead_cases {p : PeerID} {ts : TipSet} {heads : HeadOrder} {order : MapOrder}
    (hinv : ManagerInv sm) (h : sm.handlePeerHead cfg p ts heads order = some sm') :
    ∃ sm1 target, sm' = spawnTarget (sm1, target) ∧ ManagerInv sm1 ∧ sm1.state = sm.state ∧
      ∀ t, target = some t → (sm.state = [] ∨ sm.state.length < cfg.maxSyncWorkers) ∧
        ∀ w ∈ sm.state, t.equals w.ts = false := by
  unfold handlePeerHead at h
  split at h
  · rename_i hn
    have hid := hinv.idle hn
    dsimp only at h
    split at h
    · cases h
      exact ⟨_, none, rfl, ⟨hinv.fresh, hinv.keys, hinv.anchored⟩, rfl, by simp⟩
    obtain ⟨r, hr, rfl⟩ := Option.map_eq_some_iff.mp h
    obtain ⟨buckets, -, rfl⟩ := Option.map_eq_some_iff.mp hr
    refine ⟨_, _, rfl, ⟨hinv.fresh, hinv.keys, hinv.anchored⟩, rfl, fun t _ => ⟨.inl hid, ?_⟩⟩
    simp [hid]
  obtain ⟨r, hr, rfl⟩ := Option.map_eq_some_iff.mp h
  obtain ⟨hst, hn, ha, htg⟩ := addSyncTarget_adds hr
  refine ⟨r.1, r.2, rfl, hinv.of_state hst hn (ha hinv.anchored), hst, fun t ht => ?_⟩
  obtain ⟨rfl, hro, hd⟩ := htg t ht
  exact ⟨hro, hd⟩

theorem handleWorkerStatus_cases {id : Nat} {err : Option GoError} {dt : Int} {order : MapOrder}
    (hinv : ManagerInv sm) (h : sm.handleWorkerStatus cfg id err dt order = some sm') :
    ∃ sm1 target, sm' = spawnTarget (sm1, target) ∧ ManagerInv sm1 ∧
      sm1.state = sm.state.filter (fun w => w.id ≠ id) ∧ sm1.state.length < sm.state.length ∧
      ∀ t, target = some t → ∃ b ∈ sm.pend ++ sm.deferred, t ∈ b.tips := by
  unfold handleWorkerStatus at h
  split at h
  · simp at h
  rename_i ws hfi
  have hws : ws ∈ sm.state := mem_of_find?_eq_some hfi
  obtain rfl : ws.id = id := by simpa using List.find?_some hfi
  obtain ⟨r, hr, rfl⟩ := Option.map_eq_some_iff.mp h
  obtain ⟨hst, hn, ha, htg⟩ := selectSyncTarget_chooses hr
  have hfin := hinv.finish ws err dt hws
  have hinv' := hfin.of_state hst hn (ha hfin.anchored)
  simp only [finishWorker_state, finishWorker_rest] at hst htg
  refine ⟨r.1, r.2, rfl, hinv', hst, ?_, htg⟩
  rw [hst, length_filter_lt_length_iff_exists]
  exact ⟨ws, hws, by simp⟩

theorem rampLoop_induct {P : SyncManager → Prop} {orders : Nat → MapOrder} {n : Nat}
    (hse : ∀ {sm r}, P sm → Selects cfg sm r → r.target = none → P r.manager)
    (hsp : ∀ {sm r t}, P sm → Selects cfg sm r → r.target = some t → P (r.manager.spawnWorker t))
    (h : rampLoop cfg orders n sm = some sm') (hP : P sm) : P sm' ∧ sm'.state.length ≤ sm.state.length + n := by
  fun_induction rampLoop with
  | case1 =>
    cases h
    exact ⟨hP, le_rfl⟩
  | case2 => cases h
  | case3 n sm r hr hn =>
    cases h
    have hsel := deferredLoop_selects hr
    exact ⟨hse hP hsel hn, by rw [hsel.state]; omega⟩
  | case4 n sm r hr t ht ih =>
    have hsel := deferredLoop_selects hr
    obtain ⟨hP', hlen⟩ := ih h (hsp hP hsel ht)
    refine ⟨hP', hlen.trans ?_⟩
    show (r.manager.state ++ [_]).length + n ≤ _
    rw [hsel.state, length_append, length_singleton]
    omega

omit [Blake2b] in
theorem ManagerInv.select {r : Selection} (hinv : ManagerInv sm) (hse : Selects cfg sm r) : ManagerInv r.manager :=
  hinv.of_state hse.state hse.nextWorker (hse.anchored hinv.anchored)

theorem step_inv {ev : Event} (hinv : ManagerInv sm) (h : sm.step cfg ev = some sm') : ManagerInv sm' := by
  cases ev with
  | head p ts heads order =>
    obtain ⟨sm1, target, rfl, hi1, -, -⟩ := handlePeerHead_cases hinv h
    exact ManagerInv.spawnTarget hi1
  | status id err dt order =>
    obtain ⟨sm1, target, rfl, hi1, -, -, -⟩ := handleWorkerStatus_cases hinv h
    exact ManagerInv.spawnTarget hi1
  | tick orders =>
    rw [step] at h
    split at h
    · simp at h
    split at h
    · exact (rampLoop_induct (fun hP hse _ => ManagerInv.select hP hse) (fun hP hse _ => (ManagerInv.select hP hse).spawn _) h
        ⟨hinv.fresh, hinv.keys, hinv.anchored⟩).1
    · cases h
      exact hinv

/-! ## Lost targets -/

/-- The managers from which `selectDeferredSyncTarget` selects. -/
inductive SelectsFrom (cfg : ManagerConfig) : SyncManager → Prop where
  | tick {sm : SyncManager} (h : Reachable cfg (fun _ _ => True) sm) : SelectsFrom cfg sm
  | status {sm : SyncManager} (h : Reachable cfg (fun _ _ => True) sm) {ws : WorkerState}
      (hws : ws ∈ sm.state) (err : Option GoError) (dt : Int) :
      SelectsFrom cfg { sm.finishWorker ws err dt with
        pend := (popRelated (sm.finishWorker ws err dt).pend ws.ts).2 }
  | again {sm : SyncManager} (h : SelectsFrom cfg sm) {order : MapOrder} {r : Selection} {t : TipSet}
      (hr : sm.selectDeferredSyncTarget cfg order = some r) (ht : r.target = some t) :
      SelectsFrom cfg (r.manager.spawnWorker t)

theorem reachable_inv {allowed : SyncManager → Event → Prop} (h : Reachable cfg allowed sm) : ManagerInv sm := by
  induction h with
  | new => exact managerInv_new
  | step _ _ hst ih => exact step_inv ih hst

theorem SelectsFrom.inv (h : SelectsFrom cfg sm) : ManagerInv sm := by
  induction h with
  | tick h => exact reachable_inv h
  | status h hws err dt => exact (reachable_inv h).finish _ err dt hws
  | again _ hr _ ih => exact (ih.select (deferredLoop_selects hr)).spawn _

variable (cfg sm) in
/-- Every discarded bucket has its reason; with no active worker an uncovered target is returned. -/
def LosesNothing : Prop :=
  ∀ order r, sm.selectDeferredSyncTarget cfg order = some r →
    (∀ d ∈ r.discarded, Discard.Justified cfg d) ∧
    (sm.state = [] → (∃ b ∈ sm.deferred, sm.recent.synced cfg (b.heaviestTipSet cfg) = false ∧
      relatedToAny sm.pend (b.heaviestTipSet cfg) = false) → r.target.isSome)

/-- **When the deferred queue loses no target**: exactly when a worker is active, or all of it was synced. -/
theorem losesNothing_iff (cfg : ManagerConfig) (sm : SyncManager) (h : SelectsFrom cfg sm) :
    LosesNothing cfg sm ↔ sm.state ≠ [] ∨ ∀ b ∈ sm.deferred, sm.recent.synced cfg (b.heaviestTipSet cfg) = true := by
  constructor
  · intro hlo
    by_cases hst : sm.state = []
    · right
      have hpe := h.inv.pend_nil hst
      obtain ⟨r, hr, hn⟩ : ∃ r, sm.selectDeferredSyncTarget cfg .inserted = some r ∧ r.target = none :=
        deferredLoop_idle hst hpe
      intro b hb
      by_contra hno
      have hso := (hlo .inserted r hr).2 hst ⟨b, hb, Bool.eq_false_iff.mpr hno, by rw [hpe]; rfl⟩
      rw [hn] at hso
      simp at hso
    · exact .inl hst
  intro hco order r hr
  refine ⟨deferredLoop_justified hr hco, ?_⟩
  rintro hst ⟨b, hb, hno, -⟩
  rcases hco with hne | ha
  · exact absurd hst hne
  · rw [ha b hb] at hno
    simp at hno

/-! ## One worker for a target -/

def Distinct (ws : List WorkerState) : Prop := ws.Pairwise fun a b => a.ts.equals b.ts = false

def Apart (sbs : SyncBucketSet) : Prop :=
  sbs.Pairwise fun b b' => ∀ t ∈ b.tips, ∀ t' ∈ b'.tips, t.equals t' = false

def Waiting (ws : List WorkerState) (sbs : SyncBucketSet) : Prop :=
  ∀ w ∈ ws, ∀ b ∈ sbs, ∀ t ∈ b.tips, t.equals w.ts = false

/-- When a worker reports, no waiting tipset is the target of another worker; when the initial sync is done, no deferred
tipset is the target of a worker or in two buckets. -/
def Unclaimed (sm : SyncManager) : Event → Prop
  | .head _ _ _ _ => True
  | .status id _ _ _ => Waiting (sm.state.filter fun w => w.id ≠ id) (sm.pend ++ sm.deferred)
  | .tick _ => Waiting sm.state sm.deferred ∧ Apart sm.deferred

omit [Blake2b] in
theorem Distinct.spawn (h : Distinct sm.state) {t : TipSet} (ht : ∀ w ∈ sm.state, t.equals w.ts = false) :
    Distinct (sm.spawnWorker t).state := by
  show Distinct (sm.state ++ [_])
  refine pairwise_append.mpr ⟨h, pairwise_singleton _ _, ?_⟩
  intro w hw w' hw'
  obtain rfl := mem_singleton.mp hw'
  rw [TipSet.equals_comm]
  exact ht w hw

omit [Blake2b] in
theorem Apart.subperm {sbs sbs' : SyncBucketSet} (h : Apart sbs) (hsu : sbs'.Subperm sbs) : Apart sbs' := by
  obtain ⟨l, hpe, hl⟩ := hsu
  refine (hpe.pairwise_iff ?_).mp (h.sublist hl)
  intro b b' hbb t ht t' ht'
  rw [TipSet.equals_comm]
  exact hbb t' ht' t ht

section
variable {ev : Event} (hinv : ManagerInv sm) (h : sm.step cfg ev = some sm')
include hinv h

theorem step_limit
    (hli : 1 < sm.state.length → sm.state.length ≤ cfg.maxSyncWorkers) :
    1 < sm'.state.length → sm'.state.length ≤ cfg.maxSyncWorkers := by
  have hsp : ∀ (sm1 : SyncManager) target, (spawnTarget (sm1, target)).state.length ≤ sm1.state.length + 1 ∧
      (target = none → (spawnTarget (sm1, target)).state.length = sm1.state.length) := by
    intro sm1 target
    unfold spawnTarget
    rcases target with _ | t
    · simp
    · simp [spawnWorker]
  cases ev with
  | head p ts heads order =>
    obtain ⟨sm1, target, rfl, -, hst, htg⟩ := handlePeerHead_cases hinv h
    obtain ⟨hle, hsa⟩ := hsp sm1 target
    rw [hst] at hle hsa
    rcases target with _ | t
    · rw [hsa rfl]
      exact hli
    rcases (htg t rfl).1 with hn | hro
    · rw [hn, length_nil] at hle
      omega
    · omega
  | status id err dt order =>
    obtain ⟨sm1, target, rfl, -, -, hlt, -⟩ := handleWorkerStatus_cases hinv h
    obtain ⟨hle, -⟩ := hsp sm1 target
    omega
  | tick orders =>
    rw [step] at h
    split at h
    · simp at h
    split at h
    · have hle := (rampLoop_induct (P := fun _ => True) (fun _ _ _ => trivial) (fun _ _ _ => trivial) h trivial).2
      dsimp only at hle
      omega
    · cases h
      exact hli

theorem step_distinct
    (hfree : Unclaimed sm ev) (hdi : Distinct sm.state) : Distinct sm'.state := by
  cases ev with
  | head p ts heads order =>
    obtain ⟨sm1, target, rfl, -, hst, htg⟩ := handlePeerHead_cases hinv h
    rcases target with _ | t
    · exact hst ▸ hdi
    refine Distinct.spawn (hst ▸ hdi) ?_
    rw [hst]
    exact (htg t rfl).2
  | status id err dt order =>
    obtain ⟨sm1, target, rfl, -, hst, -, htg⟩ := handleWorkerStatus_cases hinv h
    have hk : Distinct sm1.state := by
      rw [hst]
      exact hdi.sublist filter_sublist
    rcases target with _ | t
    · exact hk
    refine hk.spawn fun w hw => ?_
    obtain ⟨b, hb, ht⟩ := htg t rfl
    exact hfree w (hst ▸ hw) b hb t ht
  | tick orders =>
    rw [step] at h
    split at h
    · simp at h
    split at h
    · have hke : ∀ {sm : SyncManager} {r : Selection},
          Distinct sm.state ∧ Waiting sm.state sm.deferred ∧ Apart sm.deferred → Selects cfg sm r →
          Distinct r.manager.state ∧ Waiting r.manager.state r.manager.deferred ∧ Apart r.manager.deferred := by
        rintro sm r ⟨hd, hw, ha⟩ hse
        rw [hse.state]
        exact ⟨hd, fun w hw' b hb => hw w hw' b (hse.rest.subset hb), ha.subperm hse.rest⟩
      refine (rampLoop_induct (P := fun sm => Distinct sm.state ∧ Waiting sm.state sm.deferred ∧ Apart sm.deferred)
        (fun hP hse _ => hke hP hse) ?_ h ⟨hdi, hfree.1, hfree.2⟩).1.1
      intro sm r t hP hse ht
      obtain ⟨hd, hw, ha⟩ := hke hP hse
      obtain ⟨b, rfl, hsu⟩ := hse.target t ht
      have hbm : b ∈ sm.deferred := hsu.subset mem_cons_self
      refine ⟨hd.spawn fun w hw' => ?_, ?_, ha⟩
      · rw [hse.state] at hw'
        exact hP.2.1 w hw' b hbm _ (heaviestTipSet_mem cfg b)
      -- the bucket that was taken shares nothing with those that stay
      intro w hw' b' hb' t' ht'
      rcases mem_append.mp hw' with hw' | hw'
      · exact hw w hw' b' hb' t' ht'
      obtain rfl := mem_singleton.mp hw'
      rw [TipSet.equals_comm]
      exact (pairwise_cons.mp (hP.2.2.subperm hsu)).1 b' hb' _ (heaviestTipSet_mem cfg b) t' ht'
    · cases h
      exact hdi
end

/-- **The active workers of a run**: never more than one beyond the limit, and where the steps meet the condition no two with
the same target. -/
theorem active_targets (cfg : ManagerConfig) (sm : SyncManager) :
    (Reachable cfg (fun _ _ => True) sm → 1 < sm.state.length → sm.state.length ≤ cfg.maxSyncWorkers) ∧
    (Reachable cfg Unclaimed sm → Distinct sm.state) := by
  constructor
  · intro h
    induction h with
    | new => simp [newSyncManager]
    | step hrc _ hst ih => exact step_limit (reachable_inv hrc) hst ih
  intro h
  induction h with
  | new => exact List.Pairwise.nil
  | step hrc hfree hst ih => exact step_distinct (reachable_inv hrc) hst hfree ih
end

@[reducible] def headDigest : Blake2b := ⟨id⟩

def oneHead : ManagerConfig := ⟨1, 5, false, (·.height)⟩

def headA : TipSet := soloTipSet [1] 1 [⟨[0]⟩]
def headA' : TipSet := soloTipSet [2] 2 headA.key
def headB : TipSet := soloTipSet [3] 3 [⟨[9]⟩]

def announce (ts : TipSet) : Event := .head [0] ts .byHeight .inserted

def succeeds (id : Nat) : Event := .status id none (10 ^ 9) .inserted

instance (sm : SyncManager) (ev : Event) : Decidable (Unclaimed sm ev) :=
  match ev with
  | .head _ _ _ _ => inferInstanceAs (Decidable True)
  | .status id _ _ _ => inferInstanceAs (Decidable (∀ w ∈ sm.state.filter fun w => w.id ≠ id,
      ∀ b ∈ sm.pend ++ sm.deferred, ∀ t ∈ b.tips, t.equals w.ts = false))
  | .tick _ => inferInstanceAs (Decidable ((∀ w ∈ sm.state, ∀ b ∈ sm.deferred, ∀ t ∈ b.tips,
      t.equals w.ts = false) ∧ sm.deferred.Pairwise fun b b' => ∀ t ∈ b.tips, ∀ t' ∈ b'.tips, t.equals t' = false))

def runFrom [Blake2b] (cfg : ManagerConfig) (allowed : SyncManager → Event → Prop)
    [∀ sm ev, Decidable (allowed sm ev)] (sm : SyncManager) : List Event → Option SyncManager
  | [] => some sm
  | ev :: evs => if allowed sm ev then (sm.step cfg ev).bind fun sm' => runFrom cfg allowed sm' evs else none

theorem reachable_runFrom [Blake2b] {cfg : ManagerConfig} {allowed : SyncManager → Event → Prop}
    [∀ sm ev, Decidable (allowed sm ev)] {sm sm' : SyncManager} {evs : List Event} (hsm : Reachable cfg allowed sm)
    (h : runFrom cfg allowed sm evs = some sm') : Reachable cfg allowed sm' := by
  fun_induction runFrom with
  | case1 =>
    cases h
    exact hsm
  | case2 sm ev evs ha ih =>
    obtain ⟨sm1, hst, hrest⟩ := Option.bind_eq_some_iff.mp h
    exact ih sm1 (.step hsm ha hst) hrest
  | case3 => cases h

abbrev anyEvent : SyncManager → Event → Prop := fun _ _ => True

/-- `headB` is deferred while the only worker is busy. When that worker is done, `headB` is dropped. -/
theorem headB_lost :
    let _ : Blake2b := headDigest
    ((runFrom oneHead anyEvent newSyncManager [announce headA, announce headB]).map fun sm =>
        (sm.state.map (·.ts), sm.deferred.map (·.tips))) = some ([headA], [[headB]]) ∧
    ((runFrom oneHead anyEvent newSyncManager [announce headA, announce headB, succeeds 0]).map fun sm =>
        (sm.state.map (·.ts), sm.pend.map (·.tips), sm.deferred.map (·.tips),
          sm.recent.synced oneHead headB)) = some ([], [], [], false) := by
  decide +kernel

theorem losesNothing_while_syncing :
    let _ : Blake2b := headDigest
    ∃ sm, runFrom oneHead anyEvent newSyncManager [announce headA, announce headB] = some sm ∧
      LosesNothing oneHead sm := by
  intro _
  have hrun : ((runFrom oneHead anyEvent newSyncManager [announce headA, announce headB]).map fun sm =>
      sm.state.map (·.ts)) = some [headA] := by
    decide +kernel
  obtain ⟨sm, hsm, hst⟩ := Option.map_eq_some_iff.mp hrun
  refine ⟨sm, hsm, (losesNothing_iff oneHead sm (.tick (reachable_runFrom .new hsm))).mpr (.inl ?_)⟩
  intro hn
  simp [hn] at hst

/-- `headB`, deferred, is announced again after the initial sync: a second worker gets it. -/
theorem headB_synced_twice :
    let _ : Blake2b := headDigest
    ((runFrom oneHead anyEvent newSyncManager [announce headA, announce headA', announce headB, succeeds 0,
      announce headB, .tick fun _ => .inserted]).map fun sm => sm.state.map (·.ts)) = some [headA', headB, headB] := by
  decide +kernel

theorem active_targets_two_workers :
    let _ : Blake2b := headDigest
    ∃ sm, sm.state.map (·.ts) = [headA', headB] ∧ Reachable oneHead Unclaimed sm ∧ Distinct sm.state := by
  intro _
  have hrun : ((runFrom oneHead Unclaimed newSyncManager [announce headA, announce headA', succeeds 0,
      announce headB, .tick fun _ => .inserted]).map fun sm => sm.state.map (·.ts)) = some [headA', headB] := by
    decide +kernel
  obtain ⟨sm, hsm, hst⟩ := Option.map_eq_some_iff.mp hrun
  have hrc := reachable_runFrom .new hsm
  exact ⟨sm, hst, hrc, (active_targets oneHead sm).2 hrc⟩

/-- **Nothing pending is stranded.** Every pending bucket extends the target of an active worker, so when none is at work
nothing is pending; and a worker's id is its own. -/
theorem pending_extends_active [Blake2b] (cfg : ManagerConfig) (sm : SyncManager) (h : Reachable cfg anyEvent sm) :
    (∀ b ∈ sm.pend, ∃ t ∈ b.tips, ∃ w ∈ sm.state, t.parents = w.ts.key) ∧ (sm.state = [] → sm.pend = []) ∧
      (sm.state.map (·.id)).Nodup :=
  have hinv := reachable_inv h
  ⟨hinv.anchored, hinv.pend_nil, hinv.keys⟩

theorem pending_extends_active_headA' :
    let _ : Blake2b := headDigest
    ∃ sm, runFrom oneHead anyEvent newSyncManager [announce headA, announce headA'] = some sm ∧
      ∃ b ∈ sm.pend, ∃ t ∈ b.tips, ∃ w ∈ sm.state, t.parents = w.ts.key :=
  let _ : Blake2b := headDigest
  have hrun := rfl
  ⟨_, hrun, _, mem_cons_self, (pending_extends_active oneHead _ (reachable_runFrom .new hrun)).1 _ mem_cons_self⟩

end Lotus.Sync
