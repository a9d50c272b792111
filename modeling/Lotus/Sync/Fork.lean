/-
# Following a fork back to the synced chain (`syncFork`).

The head may be left behind by at most `ForkLengthThreshold` tipsets: the counter of `syncFork` starts at one, after a first
step back. The store counts the head among them (`exceedsForkLength`), so it refuses the last fork that `syncFork` accepts.
-/
import Lotus.Store.Reorg

namespace Lotus.Sync
open Lib.Ancestry Store Option

/-! ## The syncer -/

structure BeaconEntry where
  round : UInt64
  data : Bytes
  deriving DecidableEq

/-- What a syncer reads besides the head and the checkpoint; the peers are `Exchange`. -/
structure SyncerEnv where
  store : ChainEnv
  getBlocks : TipSetKey → Nat → Except GoError (List TipSet)
  genesis : TipSet
  beaconEntries : BlockHeader → List BeaconEntry

/-- An error of the syncer: a sentinel, the error of a call, or a message around an error with `%w`. -/
inductive SyncError where
  | forkTooLong
  | forkCheckpoint
  | other (err : GoError)
  | wrap (msg : String) (err : SyncError)
  deriving DecidableEq

/-- The sentinel under the messages, as `xerrors.Is` finds it through every `%w`. -/
def SyncError.cause : SyncError → SyncError
  | .wrap _ err => err.cause
  | err => err

/-! ## `syncFork` -/

/-- The loop of `syncFork`. Every round moves `cur` or `forkLengthInHead` on, so the rounds are enough. -/
def syncForkLoop (env : SyncerEnv) (chkpt : Option TipSet) (tips : List TipSet) :
    Nat → Nat → TipSet → Nat → Except SyncError (List TipSet)
  | 0, _, _, _ => .error (.other (.errorf "no return: rounds run out"))
  | fuel + 1, cur, nts, forkLengthInHead =>
    match tips[cur]? with
    | none => .error .forkTooLong
    | some tip =>
      if nts.height = 0 then
        if env.genesis.equals nts = false then
          .error (.other (.errorf "somehow synced chain that linked back to a different genesis"))
        else .error (.other (.errorf "synced chain forked at genesis, refusing to sync"))
      else if nts.equals tip then .ok (tips.take (cur + 1))
      else if nts.height < tip.height then
        syncForkLoop env chkpt tips fuel (cur + 1) nts forkLengthInHead
      else if forkLengthInHead + 1 > forkLengthThreshold then .error .forkTooLong
      else if nts.equalsOpt chkpt then .error .forkCheckpoint
      else
        match env.store.loadTipSet nts.parents with
        | .error e => .error (.other (.wrap "loading next local tipset" e))
        | .ok p => syncForkLoop env chkpt tips fuel cur p (forkLengthInHead + 1)

def syncFork (env : SyncerEnv) (cs : ChainStore) (incoming known : TipSet) (ignoreCheckpoint : Bool) :
    Except SyncError (List TipSet) :=
  let chkpt := if ignoreCheckpoint then none else cs.checkpoint
  if known.equalsOpt chkpt then .error .forkCheckpoint
  else
    match env.getBlocks incoming.parents forkLengthThreshold with
    | .error e => .error (.other e)
    | .ok tips =>
      match env.store.loadTipSet known.parents with
      | .error e => .error (.other (.wrap "failed to load next local tipset" e))
      | .ok nts => syncForkLoop env chkpt tips (tips.length + forkLengthThreshold) 0 nts 1

/-- The peers answer with true ancestors of `incoming`, from its parent on. -/
def AnswersAncestors (env : SyncerEnv) (T : TipSetTree) (incoming : TipSet) : Prop :=
  ∀ n tips, env.getBlocks incoming.parents n = .ok tips →
    ∀ i ts, tips[i]? = some ts → back T.parent (i + 1) incoming = some ts

variable {T : TipSetTree} {env : SyncerEnv} {chkpt : Option TipSet} {tips : List TipSet} {forkLengthInHead : Nat} {nts : TipSet}

theorem syncForkLoop_cause {fuel cur : Nat} {err : SyncError}
    (hrun : syncForkLoop env chkpt tips fuel cur nts forkLengthInHead = .error err) : err = err.cause := by
  fun_induction syncForkLoop with
  | case5 => cases hrun
  | case6 fuel cur nts n tip _ _ _ _ ih => exact ih hrun
  | case10 fuel cur nts n tip _ _ _ _ _ _ p _ ih => exact ih hrun
  | _ =>
    obtain rfl := Except.error.inj hrun
    rfl

/-- **What an accepted fork says**: some steps back from `nts` stands a tipset that the peers gave, and none that was left is
the checkpoint. -/
theorem syncForkLoop_ok {parent : TipSet → Option TipSet} {mem : TipSet → Prop}
    (hlo : ∀ ts p, mem ts → env.store.loadTipSet ts.parents = .ok p → parent ts = some p ∧ mem p)
    {fuel cur : Nat} (hmem : mem nts) (hlen : forkLengthInHead ≤ forkLengthThreshold) {fork : List TipSet}
    (hrun : syncForkLoop env chkpt tips fuel cur nts forkLengthInHead = .ok fork) :
    ∃ m i c tip, back parent m nts = some c ∧ tips[i]? = some tip ∧ c.equals tip = true ∧
      forkLengthInHead + m ≤ forkLengthThreshold ∧ fork = tips.take (i + 1) ∧
      ∀ j < m, ∀ y, back parent j nts = some y → y.equalsOpt chkpt = false := by
  fun_induction syncForkLoop with
  | case5 fuel cur nts n tip hti _ heq =>
    exact ⟨0, cur, nts, tip, rfl, hti, heq, hlen, (Except.ok.inj hrun).symm, by simp⟩
  | case6 fuel cur nts n tip _ _ _ _ ih => exact ih hmem hlen hrun
  | case10 fuel cur nts n tip _ _ _ _ hle hckpt p hok ih =>
    obtain ⟨hp, hpm⟩ := hlo nts p hmem hok
    obtain ⟨m, i, c, tip', hc, ht', heq, hm, hfork, hpa⟩ := ih hpm (by omega) hrun
    refine ⟨m + 1, i, c, tip', by rw [back_succ hp, hc], ht', heq, by omega, hfork, ?_⟩
    intro j hj y hy
    rcases j with _ | j
    · obtain rfl : nts = y := some.inj hy
      exact Bool.eq_false_iff.mpr hckpt
    · rw [back_succ hp] at hy
      exact hpa j (by omega) y hy
  | _ => cases hrun

/-! ## The rule of the store -/

section
variable {store : ChainEnv}

theorem walkExternal_isOk (hsr : Serves store.loadTipSet T) {h : Int} {x y : TipSet} (hx : T.mem x)
    (hy : AncOrSelf T.parent y x) (hyh : y.height ≤ h) (hh : 0 ≤ h) {fuel : Nat}
    (hfu : x.height - h ≤ fuel) : ∃ e, walkExternal store h fuel x = .ok (some e) := by
  induction fuel generalizing x with
  | zero =>
    rw [walkExternal, if_neg (show ¬ x.height > h by omega)]
    exact ⟨x, rfl⟩
  | succ fuel ih =>
    rw [walkExternal]
    by_cases ha : x.height > h
    · rcases hy.eq_or_parent with rfl | ⟨p, hp, hyp⟩
      · omega
      have hd := T.height_parent x p hp
      rw [if_pos ha, if_neg (show x.height ≠ 0 by omega), hsr x p hx hp]
      exact ih (T.parent_mem x p hp) hyp (by push_cast at hfu; omega)
    · rw [if_neg ha]
      exact ⟨x, rfl⟩

theorem forkLoop_of_meets (hsr : Serves store.loadTipSet T) (hrd : store.Reads T)
    (hnonneg : ∀ ts, T.mem ts → 0 ≤ ts.height) {n k : Nat} {synced external : TipSet}
    (hs : T.mem synced) (hx : T.mem external) (hm : MeetsAt T synced external k) (hk : k < n)
    (hpa : ∀ j < k, ∀ y, back T.parent j synced = some y → y.equalsOpt chkpt = false) :
    forkLoop store chkpt n synced external = .ok false := by
  induction n generalizing k synced external with
  | zero => omega
  | succ n ih =>
    obtain ⟨⟨c, hc, hcx⟩, hmi⟩ := hm
    have hcs : c.height ≤ synced.height := AncOrSelf.height_le T.height_parent ⟨k, hc⟩
    obtain ⟨e, hwa⟩ := walkExternal_isOk hsr hx hcx hcs (hnonneg synced hs)
      (show external.height - synced.height ≤ ((external.height - synced.height).toNat : Int) by omega)
    obtain ⟨he, hex, hle, hke⟩ := walkExternal_some hrd hx hwa
    rw [forkLoop, hwa]
    dsimp only
    by_cases hse : synced = e
    · rw [if_pos (hse ▸ TipSet.equals_self e)]
    rw [if_neg (equals_false_of_ne hs he hse)]
    -- the meeting point is further back, so there is a parent to go to
    rcases k with _ | k
    · obtain rfl : synced = c := some.inj hc
      have hheight := (hke synced hcx le_rfl).height_le T.height_parent
      exact absurd (ancOrSelf_unique T.height_parent (hke synced hcx le_rfl) (.refl e) (by omega)) hse
    have hn := hpa 0 (by omega) synced rfl
    rw [if_neg (by rw [hn]; simp)]
    obtain ⟨p, hp, hcp⟩ : ∃ p, T.parent synced = some p ∧ back T.parent k p = some c := by
      rw [back, bind_eq_some_iff] at hc
      exact hc
    have hd := T.height_parent synced p hp
    have hpn := hnonneg p (T.parent_mem synced p hp)
    rw [if_neg (show synced.height ≠ 0 by omega), hsr synced p hs hp]
    refine ih (T.parent_mem synced p hp) he ⟨⟨c, hcp, hke c hcx hcs⟩, ?_⟩ (by omega) ?_
    · intro j hj y hy hye
      exact hmi (j + 1) (by omega) y (by rw [back_succ hp, hy]) (hye.trans hex)
    · intro j hj y hy
      exact hpa (j + 1) (by omega) y (by rw [back_succ hp, hy])
end

/-- **The two rules on the length of a fork** agree on what `syncFork` accepts exactly when the common ancestor is fewer
than `ForkLengthThreshold` behind the head (and not behind an ignored checkpoint). -/
theorem exceedsForkLength_after_syncFork (T : TipSetTree) (hnonneg : ∀ ts, T.mem ts → 0 ≤ ts.height) (env : SyncerEnv)
    (hreads : env.store.Reads T) (cs : ChainStore) (known incoming : TipSet) (hknown : T.mem known)
    (hincoming : T.mem incoming) (hpeers : AnswersAncestors env T incoming) (ignoreCheckpoint : Bool)
    (fork : List TipSet) (hsync : syncFork env cs incoming known ignoreCheckpoint = .ok fork) (store : ChainEnv)
    (hlater : store.Reads T) (hserves : Serves store.loadTipSet T) :
    exceedsForkLength store cs (some known) (some incoming) = .ok false ↔
      ∃ k < forkLengthThreshold, MeetsAt T known incoming k ∧
        (ignoreCheckpoint = true →
          ∀ j < k, ∀ y, back T.parent j known = some y → y.equalsOpt cs.checkpoint = false) := by
  show forkLoop store cs.checkpoint forkLengthThreshold known incoming = .ok false ↔ _
  constructor
  · intro hrun
    obtain ⟨k, hk, hm, hpa⟩ := forkLoop_false hlater hknown hincoming hrun
    exact ⟨k, hk, hm, fun _ => hpa⟩
  rintro ⟨k, hk, hm, hign⟩
  refine forkLoop_of_meets hserves hlater hnonneg hknown hincoming hm hk ?_
  by_cases hig : ignoreCheckpoint = true
  · exact hign hig
  -- the syncer compared every tipset that it left with the checkpoint
  unfold syncFork at hsync
  simp only [if_neg hig] at hsync
  split at hsync
  · simp at hsync
  rename_i hhead
  split at hsync
  · simp at hsync
  rename_i tips hti
  split at hsync
  · simp at hsync
  rename_i nts hlo
  have hpar : T.parent known = some nts := hreads known nts hknown hlo
  obtain ⟨m, i, c, tip, hc, htip, heq, -, -, hpa⟩ :=
    syncForkLoop_ok (fun ts p hts h => ⟨hreads ts p hts h, T.parent_mem ts p (hreads ts p hts h)⟩)
      (T.parent_mem known nts hpar) (by decide) hsync
  have hb := hpeers _ tips hti i tip htip
  have hme : T.mem tip := T.mem_of_anc hincoming ⟨i + 1, hb⟩
  obtain rfl : c = tip := T.eq_of_equals c tip (T.mem_of_anc (T.parent_mem known nts hpar) ⟨m, hc⟩) hme heq
  -- the nearest common ancestor is not behind the one that the syncer found
  have hle : k ≤ m + 1 := by
    by_contra hgt
    exact hm.2 (m + 1) (by omega) c (by rw [back_succ hpar, hc]) ⟨i + 1, hb⟩
  intro j hj y hy
  rcases j with _ | j
  · obtain rfl : known = y := some.inj hy
    exact Bool.eq_false_iff.mpr hhead
  · rw [back_succ hpar] at hy
    exact hpa j (by omega) y hy

section

def mainCid (n : Nat) : Bytes := [Fin.ofNat 256 (n / 256), Fin.ofNat 256 n]

def mainTipSet (n : Nat) : TipSet :=
  soloTipSet (mainCid n) n (if n = 0 then [] else [⟨mainCid (n - 1)⟩])

def sideTipSet : TipSet := soloTipSet [0] 2 [⟨mainCid 1⟩]

def mainTree : TipSetTree where
  mem ts := ts = sideTipSet ∨ ∃ n < 65536, ts = mainTipSet n
  parent ts :=
    if ts = sideTipSet then some (mainTipSet 1)
    else if 0 < ts.height ∧ ts.height < 65536 then some (mainTipSet (ts.height.toNat - 1))
    else none
  parent_mem ts p h := by
    split at h
    · exact .inr ⟨1, by decide, (some.inj h).symm⟩
    split at h
    · exact .inr ⟨_, by omega, (some.inj h).symm⟩
    · simp at h
  height_parent ts p h := by
    split at h
    · rename_i hside
      cases h
      rw [hside]
      decide
    split at h
    · cases h
      show ((ts.height.toNat - 1 : Nat) : Int) < ts.height
      omega
    · simp at h
  eq_of_equals a b ha hb h := by
    obtain ⟨hheight, hcids⟩ := TipSet.equals_iff.mp h
    have hside : ∀ n, sideTipSet.cids ≠ (mainTipSet n).cids := by
      intro n hn
      simp [sideTipSet, mainTipSet, soloTipSet, TipSet.cids, mainCid] at hn
    rcases ha with rfl | ⟨n, hn, rfl⟩ <;> rcases hb with rfl | ⟨m, hm, rfl⟩
    · rfl
    · exact absurd hcids (hside m)
    · exact absurd hcids.symm (hside n)
    · obtain rfl : n = m := Int.ofNat.inj hheight
      rfl

def mainLoad : TipSetKey → Except GoError TipSet
  | [⟨[hi, lo]⟩] => .ok (mainTipSet (hi.val * 256 + lo.val))
  | _ => .error (.errorf "blockstore: block not found")

variable {n : Nat}

theorem mainLoad_cid (hn : n < 65536) : mainLoad [⟨mainCid n⟩] = .ok (mainTipSet n) := by
  have hv : (Fin.ofNat 256 (n / 256)).val * 256 + (Fin.ofNat 256 n).val = n := by
    simp only [Fin.val_ofNat]
    omega
  simp only [mainLoad, mainCid, hv]

variable {ts incoming : TipSet}

theorem mainLoad_parents (hts : mainTree.mem ts) : mainLoad ts.parents = match mainTree.parent ts with
      | some p => .ok p
      | none => .error (.errorf "blockstore: block not found") := by
  rcases hts with rfl | ⟨n, hn, rfl⟩
  · rfl
  have hne : mainTipSet n ≠ sideTipSet := by
    intro heq
    have hci := congrArg TipSet.cids heq
    simp [sideTipSet, mainTipSet, soloTipSet, TipSet.cids, mainCid] at hci
  have hheight : (mainTipSet n).height = n := rfl
  have hpa : (mainTipSet n).parents = if n = 0 then [] else [⟨mainCid (n - 1)⟩] := rfl
  by_cases hz : n = 0
  · subst hz
    simp [mainTree, hne, hheight, hpa, mainLoad]
  have hra : 0 < (n : Int) ∧ (n : Int) < 65536 := by omega
  rw [hpa, if_neg hz, mainLoad_cid (by omega)]
  simp only [mainTree, if_neg hne, hheight, if_pos hra, Int.toNat_natCast]

/-- The answer of a peer that sends as many ancestors as it is asked for and has. -/
def ancestorsFrom (load : TipSetKey → Except GoError TipSet) : Nat → TipSetKey → List TipSet
  | 0, _ => []
  | n + 1, k =>
    match load k with
    | .error _ => []
    | .ok ts => ts :: ancestorsFrom load n ts.parents

variable {load : TipSetKey → Except GoError TipSet}

theorem ancestorsFrom_back {T : TipSetTree} (hlo : LoadsParents load T) (hmem : T.mem incoming) {i : Nat}
    (h : (ancestorsFrom load n incoming.parents)[i]? = some ts) : back T.parent (i + 1) incoming = some ts := by
  induction n generalizing incoming i with
  | zero => simp [ancestorsFrom] at h
  | succ n ih =>
    rw [ancestorsFrom] at h
    split at h
    · simp at h
    rename_i p hp
    have hpa := hlo incoming p hmem hp
    rw [back_succ hpa]
    rcases i with _ | i
    · simpa using h
    · exact ih (T.parent_mem incoming p hpa) (by simpa using h)

variable (load) in
def loadingEnv (genesis : TipSet) : SyncerEnv where
  store := ⟨fun _ => .error (.errorf "blockstore: block not found"), load, fun _ => .ok 0, none, none, none⟩
  getBlocks k n :=
    match ancestorsFrom load n k with
    | [] => .error (.errorf "doRequest failed for all peers")
    | tips => .ok tips
  genesis := genesis
  beaconEntries _ := []

theorem loadingEnv_getBlocks {k : TipSetKey} {p : TipSet} (hlo : load k = .ok p) (genesis : TipSet) (n : Nat) :
    (loadingEnv load genesis).getBlocks k (n + 1) = .ok (p :: ancestorsFrom load n p.parents) := by
  simp only [loadingEnv, ancestorsFrom, hlo]

theorem loadingEnv_answers {T : TipSetTree} (hlo : LoadsParents load T) (genesis : TipSet) (hmem : T.mem incoming) :
    AnswersAncestors (loadingEnv load genesis) T incoming := by
  intro n tips hti i ts hts
  simp only [loadingEnv] at hti
  split at hti
  · simp at hti
  rename_i hpe
  cases hti
  exact ancestorsFrom_back hlo hmem hts

def mainEnv : SyncerEnv := loadingEnv mainLoad (mainTipSet 0)

theorem mainTree_loads : LoadsParents mainLoad mainTree := by
  intro ts p hts hlo
  rw [mainLoad_parents hts] at hlo
  split at hlo
  · rename_i q hq
    rw [hq, Except.ok.inj hlo]
  · simp at hlo

theorem mainTree_serves : Serves mainLoad mainTree := by
  intro ts p hts hp
  rw [mainLoad_parents hts, hp]

/-- The head at height 901 is left for a fork at height 1: the syncer accepts it, the store does not. -/
theorem syncFork_at_threshold :
    mainEnv.store.Reads mainTree ∧ Serves mainEnv.store.loadTipSet mainTree ∧
    AnswersAncestors mainEnv mainTree sideTipSet ∧
    syncFork mainEnv .new sideTipSet (mainTipSet 901) false = .ok [mainTipSet 1] ∧
    exceedsForkLength mainEnv.store .new (some (mainTipSet 901)) (some sideTipSet) = .ok true :=
  ⟨mainTree_loads, mainTree_serves, loadingEnv_answers mainTree_loads _ (.inl rfl), by decide +kernel,
    by decide +kernel⟩

theorem exceedsForkLength_after_syncFork_main :
    exceedsForkLength mainEnv.store .new (some (mainTipSet 3)) (some sideTipSet) = .ok false := by
  have hnonneg : ∀ ts, mainTree.mem ts → 0 ≤ ts.height := by
    rintro ts (rfl | ⟨n, -, rfl⟩)
    · decide
    · exact Int.natCast_nonneg n
  refine (exceedsForkLength_after_syncFork mainTree hnonneg mainEnv mainTree_loads .new (mainTipSet 3)
    sideTipSet (.inr ⟨3, by decide, rfl⟩) (.inl rfl) (loadingEnv_answers mainTree_loads _ (.inl rfl))
    false [mainTipSet 1] (by decide +kernel) mainEnv.store mainTree_loads mainTree_serves).mpr
    ⟨2, by decide, ⟨⟨mainTipSet 1, by decide +kernel, .of_parent rfl⟩, ?_⟩, by simp⟩
  -- the fork has no ancestor at height 3, and at height 2 only itself
  intro j hj x hx hanc
  have hb : back mainTree.parent 0 (mainTipSet 3) = some (mainTipSet 3) ∧
      back mainTree.parent 1 (mainTipSet 3) = some (mainTipSet 2) := by
    decide +kernel
  have hheight : x.height ≤ 2 := hanc.height_le mainTree.height_parent
  obtain rfl | rfl : j = 0 ∨ j = 1 := by omega
  · cases hb.1.symm.trans hx
    exact absurd hheight (by decide)
  cases hb.2.symm.trans hx
  have := ancOrSelf_unique mainTree.height_parent hanc (.refl sideTipSet) (by decide)
  exact absurd this (by decide)
end
end Lotus.Sync
