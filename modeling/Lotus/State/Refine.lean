/-
# The layered tree is a stack of whole maps.

To a caller the tree is one map from ID addresses to actors with the copies taken by `Snapshot` (`MapStack`). The layered
tree gives the same answers, provided that writes to the init actor keep its resolutions.
-/
import Lotus.Lib.Simulation
import Lotus.State.Tree

namespace Lotus.State
open Lib.Overlay Lib.Simulation StateSnaps List StateTree Function

/-! ## The two machines -/

inductive Call where
  | setActor (addr : Address) (act : Actor)
  | deleteActor (addr : Address)
  | getActor (addr : Address)
  | lookupID (addr : Address)
  | snapshot
  | clearSnapshot
  | revert

inductive Answer where
  | unit (r : Except GoError Unit)
  | actor (r : Except GoError Actor)
  | address (r : Except GoError Address)
  deriving DecidableEq

/-- A map of actors and its saved copies, the latest first, that of the loaded tree last. -/
structure MapStack where
  top : Address → Option Actor
  saved : List (Address → Option Actor)

section
variable [InitLib]

def StateTree.step (st : StateTree) : Call → StateTree × Answer
  | .setActor addr act => ((st.setActor addr act).1, .unit (st.setActor addr act).2)
  | .deleteActor addr => ((st.deleteActor addr).1, .unit (st.deleteActor addr).2)
  | .getActor addr => ((st.getActor addr).1, .actor (st.getActor addr).2)
  | .lookupID addr => ((st.lookupID addr).1, .address (st.lookupID addr).2)
  | .snapshot => (st.snapshot, .unit (.ok ()))
  | .clearSnapshot => (st.clearSnapshot, .unit (.ok ()))
  | .revert => (st.revert, .unit (.ok ()))

def MapStack.step (ms : MapStack) : Call → MapStack × Answer
  | .setActor addr act =>
    match resolveIn ms.top addr with
    | .error e => (ms, .unit (.error (.wrap "ID lookup failed" e)))
    | .ok iaddr => ({ ms with top := update ms.top iaddr (some act) }, .unit (.ok ()))
  | .deleteActor addr =>
    match deleteVal ms.top (resolveIn ms.top) addr with
    | .error e => (ms, .unit (.error e))
    | .ok iaddr => ({ ms with top := update ms.top iaddr none }, .unit (.ok ()))
  | .getActor addr => (ms, .actor (actorOf ms.top (resolveIn ms.top) addr))
  | .lookupID addr => (ms, .address (resolveIn ms.top addr))
  | .snapshot => ({ ms with saved := ms.top :: ms.saved }, .unit (.ok ()))
  | .clearSnapshot => ({ ms with saved := ms.saved.tail }, .unit (.ok ()))
  | .revert => ({ ms with top := ms.saved.headD ms.top }, .unit (.ok ()))

/-- Every address that `m` resolves is resolved by `m'` to the same ID address. -/
def KeepsResolutions (m m' : Address → Option Actor) : Prop :=
  ∀ addr iaddr, resolveIn m addr = .ok iaddr → resolveIn m' addr = .ok iaddr

/-- `ClearSnapshot` needs a layer to merge into; writes to the init actor keep its resolutions. -/
def MapStack.Legal (ms : MapStack) : Call → Prop
  | .setActor addr act => resolveIn ms.top addr = .ok initAddress →
      KeepsResolutions ms.top (update ms.top initAddress (some act))
  | .deleteActor addr => resolveIn ms.top addr = .ok initAddress →
      KeepsResolutions ms.top (update ms.top initAddress none)
  | .clearSnapshot => 2 ≤ ms.saved.length
  | _ => True
end

/-- `LoadStateTree`, once the HAMT is read. -/
def StateTree.loaded (root : GoMap Address Actor) (version : UInt64) (info : Cid) : StateTree :=
  ⟨root, version, info, newStateSnaps⟩

/-- The stack of a loaded tree: the map, and the copy `Revert` goes back to. -/
def MapStack.loaded (root : GoMap Address Actor) : MapStack :=
  ⟨fun a => root.lookup a, [fun a => root.lookup a]⟩

/-! ## The relation between them -/

section
variable [InitLib]

def CacheOk (st : StateTree) : Prop :=
  st.AllStacks (fun view lookup => lookup = resolveIn view)

/-- The map on top is what the layers show, the copies what the smaller stacks show; the caches are right. -/
structure Represents (st : StateTree) (ms : MapStack) : Prop where
  ne : st.layers ≠ []
  top : st.view = ms.top
  saved : st.layers.tail.tails.map (viewOf st.root) = ms.saved
  cacheOk : CacheOk st

variable {st : StateTree} {ms : MapStack}

section
variable (h : Represents st ms)
include h

theorem Represents.lookupVal : st.lookupVal = resolveIn ms.top := by
  rw [← h.top]
  exact h.cacheOk.top

theorem Represents.sameReads {st' : StateTree} (hrd : st.SameReads st') : Represents st' ms := by
  refine ⟨?_, hrd.view.trans h.top, ?_, h.cacheOk.sameReads hrd⟩
  · intro hn
    have hlen := hrd.length
    rw [hn] at hlen
    exact h.ne (length_eq_zero_iff.mp hlen.symm)
  · rw [hrd.below, hrd.root]
    exact h.saved

theorem Represents.write (iaddr : Address) (op : StreeOp)
    (hk : iaddr = initAddress → KeepsResolutions ms.top (update ms.top iaddr op)) :
    Represents (st.write iaddr op) { ms with top := update ms.top iaddr op } := by
  have hv : (st.write iaddr op).view = update ms.top iaddr op := by
    rw [view_write h.ne, h.top]
  have hlk : (st.write iaddr op).lookupVal = resolveIn (st.write iaddr op).view := by
    funext a
    rcases st.lookupVal_write iaddr op a with ⟨r, hold, hnew⟩ | hnew
    · -- a cached answer: the old init actor gave it, and the new one still does
      rw [h.lookupVal] at hold
      rw [hnew, hv]
      by_cases hinit : iaddr = initAddress
      · exact (hk hinit a r hold).symm
      · rw [← hold, resolveIn, resolveIn, update_of_ne (Ne.symm hinit)]
    · exact hnew
  have hca : CacheOk (st.write iaddr op) := h.cacheOk.write hlk
  obtain ⟨hne, -, hsa, -⟩ := h
  obtain ⟨root, version, info, ⟨_ | ⟨l, ls⟩, last, hok⟩⟩ := st
  · exact absurd rfl hne
  · exact ⟨cons_ne_nil _ _, hv, hsa, hca⟩

theorem Represents.snapshot : Represents st.snapshot { ms with saved := ms.top :: ms.saved } := by
  refine ⟨cons_ne_nil _ _, ?_, ?_, h.cacheOk.snapshot⟩
  · show viewOf st.root (newStateSnapLayer :: st.layers) = _
    rw [viewOf_newLayer, ← h.top]
    rfl
  show st.layers.tails.map (viewOf st.root) = _
  rcases hls : st.layers with _ | ⟨l, ls⟩
  · exact absurd hls h.ne
  rw [tails_cons, map_cons, ← h.saved, ← h.top, hls]
  show _ = viewOf st.root st.layers :: _
  rw [hls, tail_cons]

theorem Represents.revert : Represents st.revert { ms with top := ms.saved.headD ms.top } := by
  have hhead : ms.saved.headD ms.top = viewOf st.root st.layers.tail := by
    rw [← h.saved]
    cases st.layers.tail with
    | nil => rfl
    | cons m rest => rfl
  refine ⟨cons_ne_nil _ _, ?_, h.saved, h.cacheOk.revert⟩
  show viewOf st.root (newStateSnapLayer :: st.layers.tail) = _
  rw [viewOf_newLayer, hhead]

theorem Represents.clearSnapshot (hlen : 2 ≤ ms.saved.length) :
    Represents st.clearSnapshot { ms with saved := ms.saved.tail } := by
  have hca := h.cacheOk.clearSnapshot
  obtain ⟨hne, hto, hsa, -⟩ := h
  obtain ⟨root, version, info, ⟨_ | ⟨l, _ | ⟨m, rest⟩⟩, last, hok⟩⟩ := st
  · exact absurd rfl hne
  · rw [← hsa] at hlen
    simp [StateTree.layers] at hlen
  refine ⟨cons_ne_nil _ _, ?_, ?_, hca⟩
  · show viewOf root (pourLayer l m :: rest) = _
    rw [viewOf_pourLayer]
    exact hto
  rw [← hsa]
  show (List.tails rest).map (viewOf root) = ((List.tails (m :: rest)).map (viewOf root)).tail
  rw [tails_cons, map_cons, tail_cons]
end

/-! ## The refinement -/

theorem step_refines (st : StateTree) (ms : MapStack) (c : Call) (h : Represents st ms) (hleg : ms.Legal c) :
    Represents (st.step c).1 (ms.step c).1 ∧ (st.step c).2 = (ms.step c).2 := by
  cases c with
  | setActor addr act =>
    obtain ⟨st', hrd, heq⟩ := st.setActor_spec addr act
    have hre := h.sameReads hrd
    rw [h.lookupVal] at heq
    simp only [step, MapStack.step, heq]
    rcases hr : resolveIn ms.top addr with e | iaddr
    · exact ⟨hre, rfl⟩
    refine ⟨hre.write iaddr (some act) ?_, rfl⟩
    rintro rfl
    exact hleg hr
  | deleteActor addr =>
    obtain ⟨st', hrd, heq⟩ := st.deleteActor_spec addr
    have hre := h.sameReads hrd
    rw [h.lookupVal, h.top] at heq
    simp only [step, MapStack.step, heq]
    rcases hr : deleteVal ms.top (resolveIn ms.top) addr with e | iaddr
    · exact ⟨hre, rfl⟩
    refine ⟨hre.write iaddr none ?_, rfl⟩
    rintro rfl
    exact hleg (deleteVal_ok hr).1
  | getActor addr =>
    obtain ⟨hv, hrd⟩ := st.getActor_spec addr
    refine ⟨h.sameReads hrd, ?_⟩
    show Answer.actor (st.getActor addr).2 = Answer.actor _
    rw [hv, actorVal, h.lookupVal, h.top]
  | lookupID addr =>
    obtain ⟨hv, hrd⟩ := st.lookupID_spec addr
    refine ⟨h.sameReads hrd, ?_⟩
    show Answer.address (st.lookupID addr).2 = Answer.address _
    rw [hv, h.lookupVal]
  | snapshot => exact ⟨h.snapshot, rfl⟩
  | clearSnapshot => exact ⟨h.clearSnapshot hleg, rfl⟩
  | revert => exact ⟨h.revert, rfl⟩

section
variable (root : GoMap Address Actor) (version : UInt64) (info : Cid)

theorem represents_loaded :
    Represents (loaded root version info) (MapStack.loaded root) := by
  refine ⟨cons_ne_nil _ _, rfl, rfl, ?_⟩
  intro s hs
  rcases suffix_cons_iff.mp hs with rfl | hs
  · rfl
  · rw [suffix_nil.mp hs]
    rfl

/-- **The layered state tree refines a stack of whole maps**: along every run of legal calls from a loaded tree the answers
are the same. -/
theorem stateTree_refines_mapStack (calls : List Call)
    (hlegal : LegalRun MapStack.step MapStack.Legal (MapStack.loaded root) calls) :
    outputs step (loaded root version info) calls = outputs MapStack.step (MapStack.loaded root) calls ∧
    ∀ addr, ((final step (loaded root version info) calls).snaps.resolveAddress addr).2 =
      searchCache (final step (loaded root version info) calls).layers addr := by
  refine ⟨?_, fun addr => resolveAddress_snd _ addr⟩
  exact (simulation step_refines (represents_loaded root version info) hlegal).1
end

/-! ## Transactions -/

/-- The calls close every snapshot they take, and of those taken before them the last `n`. -/
def balanced : Nat → List Call → Bool
  | n, [] => n = 0
  | n, .snapshot :: calls => balanced (n + 1) calls
  | n, .clearSnapshot :: calls => n ≠ 0 && balanced (n - 1) calls
  | n, _ :: calls => balanced n calls

theorem balanced_saved {n : Nat} {calls : List Call} (h : balanced n calls) (ms : MapStack) :
    (final MapStack.step ms calls).saved = ms.saved.drop n := by
  fun_induction balanced generalizing ms with
  | case1 n => simp_all [final]
  | case2 n calls ih => exact ih h _
  | case3 n calls ih =>
    obtain ⟨hn, h⟩ : n ≠ 0 ∧ _ := by simpa using h
    obtain ⟨n, rfl⟩ := Nat.exists_eq_succ_of_ne_zero hn
    exact (ih h _).trans (by simp [MapStack.step])
  | case4 n c calls hs hc ih =>
    have hsaved : (ms.step c).1.saved = ms.saved := by
      unfold MapStack.step
      split <;> first | rfl | contradiction | (split <;> rfl)
    rw [final, ih h, hsaved]

/-- **Snapshots are transactions.** What was done since one, in nested snapshots too, leaves no trace once it is reverted. -/
theorem revert_undoes (root : GoMap Address Actor) (version : UInt64) (info : Cid) (before body after : List Call)
    (hbefore : LegalRun MapStack.step MapStack.Legal (MapStack.loaded root) before) :
    let st := final step (loaded root version info) before
    let ms := final MapStack.step (MapStack.loaded root) before
    LegalRun MapStack.step MapStack.Legal ms (.snapshot :: body) → LegalRun MapStack.step MapStack.Legal ms after →
    balanced 0 body →
    outputs step (final step (final step st (.snapshot :: body)) [.revert, .clearSnapshot]) after = outputs step st after := by
  intro st ms hbody hafter hbalanced
  have h : Represents st ms := (simulation step_refines (represents_loaded root version info) hbefore).2
  have hrun := (simulation step_refines h hbody).2
  have hsaved : (final MapStack.step ms (.snapshot :: body)).saved = ms.top :: ms.saved := balanced_saved hbalanced _
  have hlen : 1 ≤ ms.saved.length := by simp [← h.saved]
  have hend := hrun.revert.clearSnapshot (by simpa [hsaved] using hlen)
  simp only [hsaved, headD_cons, tail_cons] at hend
  rw [(simulation step_refines h hafter).1]
  exact (simulation step_refines hend hafter).1
end

/-! ## A resolution that changes -/

section

@[reducible] def byteInit : InitLib where
  InitState := Bytes
  load _ head := .ok head.str
  resolveAddress s addr :=
    .ok (if addr = .actor [] then s.head?.map (fun b => Address.id b) else none)
  mapAddressToNewID _ _ := .error (.errorf "not supported")
  put s := .ok ⟨s⟩

def byteActor (b : Byte) : Actor := ⟨⟨[0]⟩, ⟨[b]⟩, 0, 0⟩

def byteRoot : GoMap Address Actor := AList.singleton initAddress (byteActor 100)

/-- A write behind a resolved address, undone by `Revert`. -/
def revertCalls : List Call :=
  [.snapshot, .setActor (.actor []) (byteActor 7), .getActor (.actor []), .revert,
    .getActor (.actor []), .clearSnapshot, .lookupID (.actor [])]

theorem stateTree_refines_mapStack_revert :
    let _ := byteInit
    outputs step (loaded byteRoot 4 ⟨[]⟩) revertCalls =
      [.unit (.ok ()), .unit (.ok ()), .actor (.ok (byteActor 7)), .unit (.ok ()),
        .actor (.error .actorNotFound), .unit (.ok ()), .address (.ok (.id 100))] :=
  let _ := byteInit
  (stateTree_refines_mapStack byteRoot 4 ⟨[]⟩ revertCalls
    ⟨trivial, fun h => absurd h (by decide), trivial, trivial, trivial, (by show 2 ≤ _; decide), trivial,
      trivial⟩).1.trans (by decide)

/-- **A cached resolution outlives the init actor that gave it.** -/
theorem lookupID_stale :
    let _ := byteInit
    let calls : List Call := [.lookupID (.actor []), .setActor initAddress (byteActor 101),
      .lookupID (.actor [])]
    outputs step (loaded byteRoot 4 ⟨[]⟩) calls = [.address (.ok (.id 100)), .unit (.ok ()), .address (.ok (.id 100))] ∧
    outputs MapStack.step (MapStack.loaded byteRoot) calls =
      [.address (.ok (.id 100)), .unit (.ok ()), .address (.ok (.id 101))] := by
  decide

theorem revert_undoes_write :
    let _ := byteInit
    let st := loaded byteRoot 4 ⟨[]⟩
    let body := [.setActor (.actor []) (byteActor 7)]
    balanced 0 body ∧
    outputs step (final step (final step st (.snapshot :: body)) [.revert, .clearSnapshot]) [.getActor (.actor [])] =
      outputs step st [.getActor (.actor [])] :=
  let _ := byteInit
  ⟨rfl, revert_undoes byteRoot 4 ⟨[]⟩ [] _ _ trivial ⟨trivial, fun h => absurd h (by decide), trivial⟩ ⟨trivial, trivial⟩ rfl⟩
end
end Lotus.State
