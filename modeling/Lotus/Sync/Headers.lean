/-
# Collecting the headers between a new tipset and the head (`collectHeaders`).

The walk back from the incoming tipset is local where the store has the headers. A local tipset is appended whatever its
height, so the walk can end below the head. Where it ends at an ancestor of the head, `syncFork` starts from its parents: if
it is the checkpoint, the chain is refused for leaving it.
-/
import Lotus.Sync.Fork

namespace Lotus.Sync
open Lib.Ancestry Lib.Slice Store Option

/-! ## The bad block cache -/

/-- `BadBlockReason`; `Linked` keeps the first reason only. -/
structure BadBlockReason where
  reason : String
  tipSet : List Cid
  originalReason : Option BadBlockReason

def newBadBlockReason (cids : List Cid) (reason : String) : BadBlockReason := ⟨reason, cids, none⟩

def BadBlockReason.linked (bbr : BadBlockReason) (reason : String) : BadBlockReason :=
  ⟨reason, [], some (bbr.originalReason.getD bbr)⟩

/-- `BadBlockCache`, without the eviction of old entries. -/
abbrev BadBlockCache := GoMap Cid BadBlockReason

/-- `Has` of each CID in turn, up to the first that is in the cache. -/
def BadBlockCache.firstBad (bad : BadBlockCache) (cids : List Cid) : Option BadBlockReason :=
  cids.findSome? fun c => bad.lookup c

def BadBlockCache.addAll (bad : BadBlockCache) (cids : List Cid) (bbr : BadBlockReason) : BadBlockCache :=
  cids.foldl (fun bad c => bad.insert c bbr) bad

theorem BadBlockCache.lookup_addAll {bad : BadBlockCache} {cids : List Cid} {bbr : BadBlockReason} {c : Cid}
    (h : c ∈ cids ∨ (bad.lookup c).isSome) : ((bad.addAll cids bbr).lookup c).isSome := by
  induction cids generalizing bad with
  | nil => simpa [addAll] using h
  | cons d cids ih =>
    refine ih ?_
    by_cases hc : c = d
    · subst hc
      exact .inr (by simp)
    · rw [AList.lookup_insert_ne hc]
      simpa [hc] using h

/-! ## `collectHeaders` -/

section
variable (env : SyncerEnv) (cs : ChainStore) (bad : BadBlockCache)

/-- The check of the beacon entries of the incoming tipset: the cache and the error. -/
def checkBeaconEntries (incoming : TipSet) : Option (BadBlockCache × GoError) :=
  let targetBE := env.beaconEntries incoming.first
  if ¬ targetBE.IsChain (fun a b => ¬ b.round < a.round) then
    some (bad.addAll [incoming.first.cid] (newBadBlockReason incoming.cids "wrong order of beacon entires"),
      .errorf "wrong order of beacon entires")
  else
    (incoming.blks.tail.findSome? fun bh =>
      if targetBE.length ≠ (env.beaconEntries bh).length then
        some (GoError.errorf "tipset contained different number for beacon entires")
      else if env.beaconEntries bh ≠ targetBE then
        some (.errorf "tipset contained different beacon entires")
      else none).map fun e => (bad, e)

/-- How a batch was taken: to its end, up to a tipset below the height, or up to a block in the cache. -/
inductive Batch where
  | more (init : List TipSet) (last : TipSet)
  | stop (init : List TipSet) (last : TipSet)
  | bad (reason : BadBlockReason)

def takeBatch (untilHeight : Int) : List TipSet → List TipSet → TipSet → Batch
  | [], init, last => .more init last
  | b :: blks, init, last =>
    if b.height < untilHeight then .stop init last
    else
      match bad.firstBad b.cids with
      | some reason => .bad reason
      | none => takeBatch untilHeight blks (init ++ [last]) b

/-- The loop of `collectHeaders`, from the parents of `last` on. Heights drop along parents, which bounds the rounds. -/
def collectLoop (untilHeight : Int) : Nat → List TipSet → TipSet → List Cid →
    Except RuntimePanic (BadBlockCache × Except GoError (List TipSet × TipSet))
  | 0, _, _, _ => .ok (bad, .error (.errorf "no return: heights do not drop"))
  | fuel + 1, init, last, acceptedBlocks =>
    if last.height > untilHeight then
      match bad.firstBad last.parents with
      | some reason =>
        .ok (bad.addAll acceptedBlocks (reason.linked "change contained"),
          .error (.errorf "chain contained block marked previously as bad"))
      | none =>
        match env.store.loadTipSet last.parents with
        | .ok ts => collectLoop untilHeight fuel (init ++ [last]) ts (acceptedBlocks ++ last.parents)
        | .error _ =>
          let gap := last.height - untilHeight
          match env.getBlocks last.parents (if gap < 500 then gap.toNat else 500) with
          | .error e => .ok (bad, .error (.wrap "failed to get blocks" e))
          | .ok [] => .error .indexOutOfRange
          | .ok (b :: blks) =>
            if last.isChildOf b = false then
              .ok (bad, .error (.errorf "retrieved segments of the chain are not connected"))
            else
              match takeBatch bad untilHeight (b :: blks) init last with
              | .bad reason =>
                .ok (bad.addAll acceptedBlocks (reason.linked "change contained"),
                  .error (.errorf "chain contained block marked previously as bad"))
              | .stop init' last' => .ok (bad, .ok (init', last'))
              | .more init' last' =>
                collectLoop untilHeight fuel init' last' (acceptedBlocks ++ last.parents)
    else .ok (bad, .ok (init, last))

/-- What `collectHeaders` does with the tipset that its walk ended at. -/
def linkHeaders (incoming known : TipSet) (ignoreCheckpoint : Bool) (blockSet : List TipSet) (base : TipSet) :
    BadBlockCache × Except SyncError (List TipSet) :=
  if base.isChildOf known then (bad, .ok blockSet)
  else
    match env.store.loadTipSet known.parents with
    | .error e => (bad, .error (.other (.wrap "failed to load next local tipset" e)))
    | .ok knownParent =>
      if base.isChildOf knownParent then (bad, .ok blockSet)
      else
        match syncFork env cs base known ignoreCheckpoint with
        | .error err =>
          (if err.cause = .forkTooLong ∨ err.cause = .forkCheckpoint then
            bad.addAll incoming.cids (newBadBlockReason incoming.cids "fork past finality")
          else bad, .error (.wrap "failed to sync fork" err))
        | .ok fork => (bad, .ok (blockSet ++ fork))

/-- `collectHeaders`, with the rounds that its loop may take. -/
def collectHeadersIn (rounds : Nat) (incoming known : TipSet) (ignoreCheckpoint : Bool) :
    Except RuntimePanic (BadBlockCache × Except SyncError (List TipSet)) :=
  match bad.firstBad incoming.parents with
  | some reason =>
    .ok (bad.addAll incoming.cids (reason.linked "linked to"),
      .error (.other (.errorf "chain linked to block marked previously as bad")))
  | none =>
    match checkBeaconEntries env bad incoming with
    | some (bad', e) => .ok (bad', .error (.other e))
    | none =>
      -- we want to sync all the blocks until the height above our best tipset so far
      let untilHeight := known.height + 1
      match collectLoop env bad untilHeight rounds [] incoming [] with
      | .error p => .error p
      | .ok (bad', .error e) => .ok (bad', .error (.other e))
      | .ok (bad', .ok (init, last)) =>
        if last.equals known then
          match init.getLast? with
          | none => .error .indexOutOfRange
          | some base => .ok (linkHeaders env cs bad' incoming known ignoreCheckpoint init base)
        else .ok (linkHeaders env cs bad' incoming known ignoreCheckpoint (init ++ [last]) last)

/-- The rounds are enough where heights drop along parents. -/
def collectHeaders (incoming known : TipSet) (ignoreCheckpoint : Bool) :
    Except RuntimePanic (BadBlockCache × Except SyncError (List TipSet)) :=
  collectHeadersIn env cs bad ((incoming.height - (known.height + 1)).toNat + 1) incoming known ignoreCheckpoint
end

/-! ## Where the walk ends -/

/-- The tree links its tipsets as `IsChildOf` does. -/
def Linked (T : TipSetTree) : Prop :=
  ∀ ts p, T.mem ts → T.mem p → (ts.isChildOf p = true ↔ T.parent ts = some p)

variable {T : TipSetTree} {env : SyncerEnv} {cs : ChainStore} {bad : BadBlockCache}
  {incoming known c : TipSet} {untilHeight : Int}

variable (T incoming untilHeight) in
/-- A block set along the chain of `incoming`: all above its last tipset is above the height. -/
structure Walked (init : List TipSet) (last : TipSet) :
    Prop where
  anc : AncOrSelf T.parent last incoming
  prev : ∀ x, init.getLast? = some x → T.parent x = some last ∧ AncOrSelf T.parent x incoming
  above : ∀ y, AncOrSelf T.parent y incoming → AncOrSelf T.parent last y → y ≠ last → untilHeight < y.height

theorem Walked.start (T : TipSetTree) (incoming : TipSet) (untilHeight : Int) :
    Walked T incoming untilHeight [] incoming where
  anc := .refl incoming
  prev := by simp
  above := by
    intro y hy hanc hne
    exact absurd (ancOrSelf_antisymm T.height_parent hy hanc) hne

variable {init : List TipSet} {last base : TipSet}

theorem Walked.extend {p : TipSet} (h : Walked T incoming untilHeight init last) (hp : T.parent last = some p)
    (hla : untilHeight < last.height) : Walked T incoming untilHeight (init ++ [last]) p where
  anc := (AncOrSelf.of_parent hp).trans h.anc
  prev := by
    intro x hx
    obtain rfl : last = x := by simpa using hx
    exact ⟨hp, h.anc⟩
  above := by
    intro y hy hanc hne
    -- what is strictly above the parent is the old last tipset or above it
    by_cases hle : y.height < last.height
    · have hyl := ancOrSelf_of_height_le T.height_parent hy h.anc hle.le
      rcases hyl.eq_or_parent with rfl | ⟨q, hq, hyq⟩
      · omega
      · obtain rfl : q = p := some.inj (hq.symm.trans hp)
        exact absurd (ancOrSelf_antisymm T.height_parent hyq hanc) hne
    · omega

variable (T untilHeight last) in
def Stopped : Prop :=
  last.height ≤ untilHeight ∨ ∃ p, T.parent last = some p ∧ p.height < untilHeight

theorem takeBatch_walked (bad : BadBlockCache) {blks : List TipSet} (h : Walked T incoming untilHeight init last)
    (hbl : ∀ i ts, blks[i]? = some ts → back T.parent (i + 1) last = some ts) :
    (∀ init' last', takeBatch bad untilHeight blks init last = .more init' last' →
      Walked T incoming untilHeight init' last') ∧
    ∀ init' last', takeBatch bad untilHeight blks init last = .stop init' last' →
      Walked T incoming untilHeight init' last' ∧ Stopped T untilHeight last' := by
  induction blks generalizing init last with
  | nil =>
    simp only [takeBatch]
    refine ⟨?_, by simp⟩
    rintro init' last' heq
    cases heq
    exact h
  | cons b blks ih =>
    have hb : T.parent last = some b := by
      have := hbl 0 b (by simp)
      rw [back, bind_eq_some_iff] at this
      obtain ⟨q, hq, hqb⟩ := this
      exact hq.trans hqb
    have hd := T.height_parent last b hb
    have hrest : ∀ i ts, blks[i]? = some ts → back T.parent (i + 1) b = some ts := by
      intro i ts hts
      rw [← back_succ hb]
      exact hbl (i + 1) ts (by simpa using hts)
    rw [takeBatch]
    split
    · rename_i hlo
      refine ⟨by simp, ?_⟩
      rintro init' last' heq
      cases heq
      exact ⟨h, .inr ⟨b, hb, hlo⟩⟩
    split
    · simp
    · exact ih (h.extend hb (by omega)) hrest

variable {fuel : Nat} {accepted : List Cid}

/-- **Where the loop ends**: at the first tipset of the chain that is low enough, or the one before it. -/
theorem collectLoop_walked (hrd : env.store.Reads T) (hpr : ∀ ts, T.mem ts → AnswersAncestors env T ts)
    (hinc : T.mem incoming) {init' : List TipSet} {last' : TipSet} {bad' : BadBlockCache}
    (h : Walked T incoming untilHeight init last)
    (hrun : collectLoop env bad untilHeight fuel init last accepted = .ok (bad', .ok (init', last'))) :
    Walked T incoming untilHeight init' last' ∧ Stopped T untilHeight last' := by
  fun_induction collectLoop with
  | case3 fuel init last accepted ha _ ts hlo ih =>
    -- a local tipset is appended whatever its height
    exact ih (h.extend (hrd last ts (T.mem_of_anc hinc h.anc) hlo) ha) hrun
  | case8 fuel init last accepted _ _ _ _ gap b blks hb _ init1 last1 hba =>
    cases hrun
    exact (takeBatch_walked bad h (hpr last (T.mem_of_anc hinc h.anc) _ _ hb)).2 _ _ hba
  | case9 fuel init last accepted _ _ _ _ gap b blks hb _ init1 last1 hba ih =>
    exact ih ((takeBatch_walked bad h (hpr last (T.mem_of_anc hinc h.anc) _ _ hb)).1 _ _ hba) hrun
  | case10 fuel init last accepted hlow =>
    cases hrun
    exact ⟨h, .inl (not_lt.mp hlow)⟩
  | _ => cases hrun

theorem Walked.at_known (h : Walked T incoming (known.height + 1) init last)
    (hstop : Stopped T (known.height + 1) last) (hanc : AncOrSelf T.parent known incoming) :
    last = known ∨ T.parent last = some known := by
  by_cases heq : last = known
  · exact .inl heq
  right
  by_cases hle : last.height ≤ known.height
  · -- then the head would stand above the last tipset, and so above its own height
    have hb := ancOrSelf_of_height_le T.height_parent h.anc hanc hle
    have := h.above known hanc hb (Ne.symm heq)
    omega
  have hkl := ancOrSelf_of_height_le T.height_parent hanc h.anc (by omega)
  rcases hkl.eq_or_parent with hkl | ⟨p, hp, hkp⟩
  · exact absurd hkl.symm heq
  have hpk := hkp.height_le T.height_parent
  have hd := T.height_parent last p hp
  have hpl : p.height ≤ known.height := by
    rcases hstop with hlo | ⟨q, hq, hql⟩
    · omega
    · obtain rfl : q = p := some.inj (hq.symm.trans hp)
      omega
  rw [hp, ancOrSelf_unique T.height_parent hkp (.refl p) (by omega)]

/-! ## When `syncFork` reports the checkpoint -/

section
variable {tips : List TipSet} {fuel cur forkLengthInHead : Nat} {nts base : TipSet}

section
variable (hrd : env.store.Reads T) (hn : T.mem nts) (hc : T.mem c)
include hrd hn hc

theorem syncForkLoop_checkpoint
    (hrun : syncForkLoop env (some c) tips fuel cur nts forkLengthInHead = .error .forkCheckpoint) :
    ∃ m, back T.parent m nts = some c ∧ forkLengthInHead + m < forkLengthThreshold ∧ c.height ≠ 0 := by
  fun_induction syncForkLoop with
  | case6 fuel cur nts n tip _ _ _ _ ih => exact ih hn hrun
  | case8 fuel cur nts n tip _ hheight _ _ hlen heq =>
    obtain rfl := T.eq_of_equals nts c hn hc heq
    exact ⟨0, rfl, by omega, hheight⟩
  | case10 fuel cur nts n tip _ _ _ _ hlen _ p hlo ih =>
    have hp := hrd nts p hn hlo
    obtain ⟨m, hm, hlt, hne⟩ := ih (T.parent_mem nts p hp) hrun
    exact ⟨m + 1, by rw [back_succ hp, hm], by omega, hne⟩
  | _ => cases hrun

theorem syncForkLoop_ahead
    (hti : ∀ i ts, tips[i]? = some ts → back T.parent (i + 1) base = some ts) {j : Nat}
    (hj : back T.parent (j + 1) base = some c) (hcu : cur ≤ j) (hanc : AncOrSelf T.parent c nts) :
    syncForkLoop env (some c) tips fuel cur nts forkLengthInHead ≠ .error .forkCheckpoint := by
  fun_induction syncForkLoop with
  | case6 fuel cur nts n tip htip _ _ hlt ih =>
    refine ih hn ?_ hanc
    -- the cursor does not pass the checkpoint: there `nts` would be below it
    rcases Nat.lt_or_eq_of_le hcu with hcu | rfl
    · exact hcu
    · obtain rfl : tip = c := some.inj ((hti _ tip htip).symm.trans hj)
      have := hanc.height_le T.height_parent
      omega
  | case8 fuel cur nts n tip htip _ hne hge _ heq =>
    obtain rfl := T.eq_of_equals nts c hn hc heq
    have hct : AncOrSelf T.parent nts tip := ancOrSelf_of_back_le (hti cur tip htip) hj (by omega)
    have := hct.height_le T.height_parent
    obtain rfl := ancOrSelf_unique T.height_parent hct (.refl tip) (by omega)
    exact absurd (TipSet.equals_self nts) hne
  | case10 fuel cur nts n tip _ _ _ _ _ hckpt p hlo ih =>
    have hp := hrd nts p hn hlo
    refine ih (T.parent_mem nts p hp) hcu ?_
    rcases hanc.eq_or_parent with rfl | ⟨q, hq, hcq⟩
    · exact absurd (TipSet.equals_self c) hckpt
    · obtain rfl : q = p := some.inj (hq.symm.trans hp)
      exact hcq
  | _ => simp
end

theorem syncForkLoop_leaves (hsr : Serves env.store.loadTipSet T) (hn : T.mem nts) (hc : T.mem c) (hpo : 0 < c.height)
    {tip : TipSet} (hti : tips[0]? = some tip) (hb : tip.height < c.height) {m : Nat}
    (hm : back T.parent m nts = some c) (hlen : forkLengthInHead + m < forkLengthThreshold) (hfu : m < fuel) :
    syncForkLoop env (some c) tips fuel 0 nts forkLengthInHead = .error .forkCheckpoint := by
  induction m generalizing fuel nts forkLengthInHead with
  | zero =>
    obtain ⟨fuel, rfl⟩ : ∃ n, fuel = n + 1 := ⟨fuel - 1, by omega⟩
    obtain rfl : nts = c := some.inj hm
    have hne : nts.equals tip = false := by
      rw [Bool.eq_false_iff, Ne, TipSet.equals_iff]
      omega
    rw [syncForkLoop, hti]
    dsimp only
    rw [if_neg (show nts.height ≠ 0 by omega), if_neg (by simp [hne]),
      if_neg (show ¬ nts.height < tip.height by omega), if_neg (by omega),
      if_pos (show nts.equalsOpt (some nts) = true from TipSet.equals_self nts)]
  | succ m ih =>
    obtain ⟨fuel, rfl⟩ : ∃ n, fuel = n + 1 := ⟨fuel - 1, by omega⟩
    have hheight := height_back_le T.height_parent hm
    rw [back, bind_eq_some_iff] at hm
    obtain ⟨p, hp, hm⟩ := hm
    have hne : nts.equals tip = false := by
      rw [Bool.eq_false_iff, Ne, TipSet.equals_iff]
      push_cast at hheight
      omega
    have hnc : nts.equalsOpt (some c) = false := by
      rw [Bool.eq_false_iff]
      refine equals_false_of_ne hn hc ?_
      rintro rfl
      push_cast at hheight
      omega
    rw [syncForkLoop, hti]
    dsimp only
    rw [if_neg (show nts.height ≠ 0 by push_cast at hheight; omega), if_neg (by simp [hne]),
      if_neg (show ¬ nts.height < tip.height by push_cast at hheight; omega), if_neg (by omega),
      if_neg (by simp [hnc]), hsr nts p hn hp]
    exact ih (T.parent_mem nts p hp) hm (by omega) (by omega)
end

/-! ## When a chain is refused for the checkpoint -/

/-- `collectHeaders` failed with `ErrForkCheckpoint`. -/
def RefusedForCheckpoint (r : Except RuntimePanic (BadBlockCache × Except SyncError (List TipSet))) : Prop :=
  ∃ bad' err, r = .ok (bad', .error err) ∧ err.cause = .forkCheckpoint

/-- The head has left `c` by fewer tipsets than the threshold, `c` is not the genesis, and the incoming chain leaves `c` over
null rounds that reach above the head (or is `c` itself). -/
def LeapsOver (T : TipSetTree) (known c incoming : TipSet) : Prop :=
  c ≠ known ∧ c.height ≠ 0 ∧ (∃ k < forkLengthThreshold, back T.parent k known = some c) ∧
    ∀ y, AncOrSelf T.parent y incoming → T.parent y = some c → known.height + 1 < y.height

theorem linkHeaders_refused {blockSet : List TipSet} {ignoreCheckpoint : Bool}
    (h : RefusedForCheckpoint (.ok (linkHeaders env cs bad incoming known ignoreCheckpoint blockSet base))) :
    base.isChildOf known = false ∧ ∃ err, syncFork env cs base known ignoreCheckpoint = .error err ∧
      err.cause = .forkCheckpoint := by
  obtain ⟨bad', err, heq, hca⟩ := h
  have heq := Except.ok.inj heq
  revert heq
  fun_cases linkHeaders with
  | case2 =>
    rintro ⟨⟩
    simp [SyncError.cause] at hca
  | case4 hch _ _ _ err' hfork =>
    rintro ⟨⟩
    exact ⟨Bool.eq_false_iff.mpr hch, err', hfork, hca⟩
  | _ => exact nofun

theorem syncFork_checkpoint {err : SyncError} (hrun : syncFork env cs base known false = .error err)
    (hca : err.cause = .forkCheckpoint) :
    known.equalsOpt cs.checkpoint = true ∨ ∃ tips nts, env.getBlocks base.parents forkLengthThreshold = .ok tips ∧
      env.store.loadTipSet known.parents = .ok nts ∧
      syncForkLoop env cs.checkpoint tips (tips.length + forkLengthThreshold) 0 nts 1 = .error .forkCheckpoint := by
  unfold syncFork at hrun
  simp only [Bool.false_eq_true, if_false] at hrun
  split at hrun
  · rename_i heq
    exact .inl heq
  right
  split at hrun
  · obtain rfl := Except.error.inj hrun
    simp [SyncError.cause] at hca
  rename_i tips hti
  split at hrun
  · obtain rfl := Except.error.inj hrun
    simp [SyncError.cause] at hca
  rename_i nts hlo
  refine ⟨tips, nts, hti, hlo, ?_⟩
  rw [hrun, syncForkLoop_cause hrun, hca]

theorem leapsOver_of_refused (hli : Linked T) (hrd : env.store.Reads T)
    (hpr : ∀ ts, T.mem ts → AnswersAncestors env T ts) (hkn : T.mem known) (hinc : T.mem incoming)
    (hckpt : cs.checkpoint = some c) (hck : AncOrSelf T.parent c known) (hci : AncOrSelf T.parent c incoming)
    (h : RefusedForCheckpoint (collectHeaders env cs bad incoming known false)) : LeapsOver T known c incoming := by
  have hc : T.mem c := T.mem_of_anc hkn hck
  obtain ⟨bad', err, hrun, hca⟩ := h
  unfold collectHeaders collectHeadersIn at hrun
  split at hrun
  · cases hrun
    simp [SyncError.cause] at hca
  split at hrun
  · cases hrun
    simp [SyncError.cause] at hca
  dsimp only at hrun
  split at hrun
  · simp at hrun
  · cases hrun
    simp [SyncError.cause] at hca
  rename_i bad1 init last hlo
  obtain ⟨hwa, hstop⟩ :=
    collectLoop_walked hrd hpr hinc (.start T incoming (known.height + 1)) hlo
  have hla : T.mem last := T.mem_of_anc hinc hwa.anc
  split at hrun
  · -- the walk ended at the head, and the tipset before it is a child of the head
    rename_i heq
    obtain rfl := T.eq_of_equals last known hla hkn heq
    split at hrun
    · simp at hrun
    rename_i base hb
    obtain ⟨hch, -⟩ := linkHeaders_refused ⟨bad', err, hrun, hca⟩
    obtain ⟨hpa, hanc⟩ := hwa.prev base hb
    have := (hli base last (T.mem_of_anc hinc hanc) hla).mpr hpa
    simp [this] at hch
  rename_i hne
  obtain ⟨hch, err', hfork, hc'⟩ := linkHeaders_refused ⟨bad', err, hrun, hca⟩
  rcases syncFork_checkpoint hfork hc' with heq | ⟨tips, nts, hti, hload, hre⟩
  · -- the checkpoint is the head, and `syncFork` is not called on a chain that contains the head
    rw [hckpt] at heq
    obtain rfl := T.eq_of_equals known c hkn hc heq
    rcases hwa.at_known hstop hci with rfl | hpa
    · exact absurd (TipSet.equals_self last) hne
    · have := (hli last known hla hkn).mpr hpa
      simp [this] at hch
  rw [hckpt] at hre
  have hp : T.parent known = some nts := hrd known nts hkn hload
  have hnt : T.mem nts := T.parent_mem known nts hp
  obtain ⟨m, hm, hlen, hz⟩ := syncForkLoop_checkpoint hrd hnt hc hre
  have hba : back T.parent (m + 1) known = some c := by rw [back_succ hp, hm]
  have hheight := height_back_le T.height_parent hba
  push_cast at hheight
  -- the walk ended at the checkpoint itself
  obtain rfl : last = c := by
    by_contra hlc
    rcases Int.lt_or_le c.height last.height with hlt | hle
    · obtain ⟨n, hn⟩ := ancOrSelf_of_height_le T.height_parent hci hwa.anc hlt.le
      rcases n with _ | j
      · exact hlc (some.inj hn)
      · exact syncForkLoop_ahead hrd hnt hc (hpr last hla _ tips hti) hn (Nat.zero_le j) ⟨m, hm⟩ hre
    have hbe := ancOrSelf_of_height_le T.height_parent hwa.anc hci hle
    have := hwa.above c hci hbe (Ne.symm hlc)
    omega
  refine ⟨?_, hz, ⟨m + 1, by omega, hba⟩, ?_⟩
  · rintro rfl
    omega
  intro y hy hpa
  refine hwa.above y hy (.of_parent hpa) ?_
  rintro rfl
  have := T.height_parent y y hpa
  omega

theorem collectLoop_leaps (hsr : Serves env.store.loadTipSet T) (hinc : T.mem incoming)
    (hb : ∀ ts, AncOrSelf T.parent ts incoming → bad.firstBad ts.parents = none) (hlo : c.height ≤ untilHeight)
    (hleap : ∀ y, AncOrSelf T.parent y incoming → T.parent y = some c → untilHeight < y.height)
    (hla : AncOrSelf T.parent last incoming) (hanc : AncOrSelf T.parent c last)
    (hfu : last.height - untilHeight < fuel) (hpo : 0 < fuel) :
    ∃ init', collectLoop env bad untilHeight fuel init last accepted = .ok (bad, .ok (init', c)) := by
  induction fuel generalizing init last accepted with
  | zero => omega
  | succ fuel ih =>
    rw [collectLoop]
    by_cases hc : c = last
    · subst hc
      rw [if_neg (show ¬ c.height > untilHeight by omega)]
      exact ⟨init, rfl⟩
    obtain ⟨y, hy, hyl⟩ := hanc.exists_child hc
    have hyh := hleap y (hyl.trans hla) hy
    have hle := hyl.height_le T.height_parent
    rcases hanc.eq_or_parent with heq | ⟨p, hp, hcp⟩
    · exact absurd heq hc
    have hd := T.height_parent last p hp
    rw [if_pos (show last.height > untilHeight by omega), hb last hla, hsr last p (T.mem_of_anc hinc hla) hp]
    push_cast at hfu
    exact ih ((AncOrSelf.of_parent hp).trans hla) hcp (by omega) (by omega)

/-- **In that layout the chain is refused**, and `incoming` marked bad, when nothing else stops the walk. -/
theorem refused_of_leapsOver {genesis : TipSet} (hro : T.RootedAt genesis) (hz : genesis.height = 0)
    (hli : Linked T) (hsr : Serves env.store.loadTipSet T) (hpr : ∀ ts, T.mem ts → AnswersAncestors env T ts)
    (ha : ∀ ts p, T.mem ts → T.parent ts = some p →
      ∃ tip tips, env.getBlocks ts.parents forkLengthThreshold = .ok (tip :: tips))
    (hbad : ∀ ts, AncOrSelf T.parent ts incoming → bad.firstBad ts.parents = none)
    (hbe : checkBeaconEntries env bad incoming = none) (hkn : T.mem known)
    (hinc : T.mem incoming) (hckpt : cs.checkpoint = some c) (hci : AncOrSelf T.parent c incoming)
    (h : LeapsOver T known c incoming) :
    ∃ bad', collectHeaders env cs bad incoming known false =
        .ok (bad', .error (.wrap "failed to sync fork" .forkCheckpoint)) ∧
      ∀ b ∈ incoming.cids, (bad'.lookup b).isSome := by
  obtain ⟨hne, hcz, ⟨k, hk, hba⟩, hleap⟩ := h
  have hc : T.mem c := T.mem_of_anc hinc hci
  have hpo : 0 < c.height := by
    have := hro.height_le hc
    omega
  have hck : c.height < known.height := by
    rcases k with _ | k
    · exact absurd (some.inj hba).symm hne
    have := height_back_le T.height_parent hba
    push_cast at this
    omega
  obtain ⟨init, hlo⟩ : ∃ init, collectLoop env bad (known.height + 1)
      ((incoming.height - (known.height + 1)).toNat + 1) [] incoming [] = .ok (bad, .ok (init, c)) := by
    refine collectLoop_leaps hsr hinc hbad (by omega) hleap (.refl incoming) hci ?_ (Nat.succ_pos _)
    push_cast
    omega
  -- the parent of the head is at or above the checkpoint
  obtain ⟨m, rfl⟩ : ∃ m, k = m + 1 := by
    rcases k with _ | m
    · exact absurd (some.inj hba).symm hne
    · exact ⟨m, rfl⟩
  rw [back, bind_eq_some_iff] at hba
  obtain ⟨nts, hp, hm⟩ := hba
  have hnt : T.mem nts := T.parent_mem known nts hp
  have hn := height_back_le T.height_parent hm
  have hno : ∀ ts, T.mem ts → c.height ≤ ts.height → c.isChildOf ts = false := by
    intro ts hts hle
    rw [Bool.eq_false_iff]
    intro hch
    have := T.height_parent c ts ((hli c ts hc hts).mp hch)
    omega
  obtain ⟨q, hq⟩ := hro.exists_parent hc (by omega)
  obtain ⟨tip, tips, hg⟩ := ha c q hc hq
  have htip : tip.height < c.height := by
    have hti := hpr c hc _ _ hg 0 tip (by simp)
    have := height_back_le T.height_parent hti
    push_cast at this
    omega
  have hfork : syncFork env cs c known false = .error .forkCheckpoint := by
    unfold syncFork
    simp only [Bool.false_eq_true, if_false, hckpt]
    have hhead : ¬ known.equalsOpt (some c) = true := equals_false_of_ne hkn hc (Ne.symm hne)
    rw [if_neg hhead, hg]
    rw [hsr known nts hkn hp]
    exact syncForkLoop_leaves hsr hnt hc hpo (by simp) htip hm (by omega) (by rw [List.length_cons]; omega)
  unfold collectHeaders collectHeadersIn
  rw [hbad incoming (.refl incoming), hbe]
  dsimp only
  rw [hlo]
  dsimp only
  rw [if_neg (equals_false_of_ne hc hkn hne)]
  unfold linkHeaders
  rw [if_neg (by simp [hno known hkn hck.le]), hsr known nts hkn hp]
  dsimp only
  rw [if_neg (by simp [hno nts hnt (by omega)]), hfork]
  refine ⟨_, rfl, ?_⟩
  intro b hb
  simp only [SyncError.cause]
  rw [if_pos (by simp)]
  exact BadBlockCache.lookup_addAll (.inl hb)

/-- **When a chain that contains the checkpoint is never refused for it**: no store, peers and cache lead to
`ErrForkCheckpoint` exactly when the chain does not leap over the head from the checkpoint. -/
theorem collectHeaders_never_refuses_iff (T : TipSetTree) (genesis : TipSet) (hroot : T.RootedAt genesis)
    (hzero : genesis.height = 0) (hlinked : Linked T) (load : TipSetKey → Except GoError TipSet)
    (hloads : LoadsParents load T) (hserves : Serves load T) (cs : ChainStore) (known incoming c : TipSet)
    (hknown : T.mem known) (hincoming : T.mem incoming) (hckpt : cs.checkpoint = some c)
    (hck : AncOrSelf T.parent c known) (hci : AncOrSelf T.parent c incoming) :
    (∀ env bad, env.store.Reads T → (∀ ts, T.mem ts → AnswersAncestors env T ts) →
      ¬ RefusedForCheckpoint (collectHeaders env cs bad incoming known false)) ↔
    ¬ LeapsOver T known c incoming := by
  constructor
  · intro hn hleap
    have hpr : ∀ ts, T.mem ts → AnswersAncestors (loadingEnv load genesis) T ts :=
      fun ts hts => loadingEnv_answers hloads genesis hts
    have ha : ∀ ts p, T.mem ts → T.parent ts = some p → ∃ tip tips,
        (loadingEnv load genesis).getBlocks ts.parents forkLengthThreshold = .ok (tip :: tips) := by
      intro ts p hts hp
      exact ⟨p, _, loadingEnv_getBlocks (hserves ts p hts hp) genesis (forkLengthThreshold - 1)⟩
    have hb : checkBeaconEntries (loadingEnv load genesis) ∅ incoming = none := by
      simp [checkBeaconEntries, loadingEnv]
    obtain ⟨bad', hrun, -⟩ := refused_of_leapsOver hroot hzero hlinked hserves hpr ha
      (by simp [BadBlockCache.firstBad]) hb hknown hincoming hckpt hci hleap
    exact hn (loadingEnv load genesis) ∅ hloads hpr ⟨bad', _, hrun, rfl⟩
  · intro hno env bad hrd hpr hre
    exact hno (leapsOver_of_refused hlinked hrd hpr hknown hincoming hckpt hck hci hre)

/-- The checkpoint `leap1`, and on it the head at height 2, and two others at heights 3 and 4. -/
def leap0 : TipSet := soloTipSet [0] 0 []
def leap1 : TipSet := soloTipSet [1] 1 leap0.key
def leap2 : TipSet := soloTipSet [2] 2 leap1.key
def leap3 : TipSet := soloTipSet [3] 3 leap1.key
def leap4 : TipSet := soloTipSet [4] 4 leap1.key

def leapTips : List TipSet := [leap0, leap1, leap2, leap3, leap4]

def leapTree : TipSetTree := listTree leapTips (by decide)

theorem leapTree_loads : LoadsParents (listLoad leapTips) leapTree :=
  listLoad_loads (by decide) (by decide) (by decide)

theorem leapTree_serves : Serves (listLoad leapTips) leapTree :=
  listLoad_serves (by decide) (by decide)

theorem leapTree_linked : Linked leapTree := by
  have hli : ∀ ts ∈ leapTips, ∀ p ∈ leapTips, (ts.isChildOf p = true ↔ listParent leapTips ts = some p) := by
    decide
  intro ts p hts hp
  exact hli ts hts p hp

theorem leapTree_rooted : leapTree.RootedAt leap0 := listTree_rooted (by decide) (by decide)

def leapStore : ChainStore := ⟨∅, some leap2, some leap1⟩

theorem leap3_stays : ¬ LeapsOver leapTree leap2 leap1 leap3 := by
  rintro ⟨-, -, -, hleap⟩
  exact absurd (hleap leap3 (.refl leap3) (by decide)) (by decide)

theorem leap3_never_refused : leapStore.checkpoint = some leap1 ∧
    ∀ env bad, env.store.Reads leapTree → (∀ ts, leapTree.mem ts → AnswersAncestors env leapTree ts) →
      ¬ RefusedForCheckpoint (collectHeaders env leapStore bad leap3 leap2 false) :=
  ⟨rfl, (collectHeaders_never_refuses_iff leapTree leap0 leapTree_rooted rfl leapTree_linked
    (listLoad leapTips) leapTree_loads leapTree_serves leapStore leap2 leap3 leap1
    (show leap2 ∈ leapTips by decide) (show leap3 ∈ leapTips by decide) rfl (.of_parent (by decide))
    (.of_parent (by decide))).mpr leap3_stays⟩

/-- At height 4 it is refused and marked bad, although its parent is the checkpoint. -/
theorem leap4_refused :
    leapTree.parent leap4 = leapStore.checkpoint ∧ leapTree.parent leap2 = leapStore.checkpoint ∧
    (collectHeaders (loadingEnv (listLoad leapTips) leap0) leapStore ∅ leap4 leap2 false).map
        (fun r => (leap4.cids.all fun b => (r.1.lookup b).isSome, r.2)) =
      .ok (true, .error (.wrap "failed to sync fork" .forkCheckpoint)) := by
  decide +kernel

end Lotus.Sync
