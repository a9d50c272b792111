/-
# Writing the tree out and walking it (`Flush`, `LoadStateTree`, `ForEach`).

The entries come as some permutation of the layer. A root CID is the block it addresses. An actor created and deleted since
the load is marked although the HAMT never had it, and removing it fails.
-/
import Lotus.State.Refine

namespace Lotus.State
open Lib.Overlay Lib.Simulation StateSnaps List StateTree

abbrev LayerOrder := List (Sigma fun _ : Address => StreeOp)

/-- The block behind a state root: a bare HAMT, or a `types.StateRoot`. -/
inductive StateRootBlock where
  | raw (actors : GoMap Address Actor)
  | stateRoot (version : UInt64) (actors : GoMap Address Actor) (info : Cid)

/-- `LoadStateTree`. A root that does not decode as a `StateRoot` is a version 0 tree. -/
def loadStateTree : StateRootBlock → Except GoError StateTree
  | .raw actors => .ok (loaded actors 0 ⟨[]⟩)
  | .stateRoot version actors info =>
    if version ≤ 4 then .ok (loaded actors version info)
    else .error (.errorf "unsupported state tree version")

namespace StateTree

def pending (st : StateTree) : LayerOrder :=
  match st.layers with
  | [l] => l.actors.entries
  | _ => []

/-- `StateTree.Flush`, with the order over the layer and the error of `adt.Map.Delete` on an absent key. -/
def flush (absent : Address → GoError) (order : LayerOrder) (st : StateTree) : StateTree × Except GoError StateRootBlock :=
  if st.layers.length ≠ 1 then
    (st, .error (.errorf "tried to flush state tree with snapshots on the stack"))
  else
    match applyOps absent order st.root with
    | (root, some e) => ({ st with root }, .error e)
    | (root, none) =>
      if st.version = 0 then ({ st with root }, .ok (.raw root))
      else ({ st with root }, .ok (.stateRoot st.version root st.info))

/-! ## `ForEach` -/

/-- The loop of `ForEach` over one layer: what the callback gets, and the addresses seen. -/
def visitLayer : LayerOrder → List Address → List (Address × Actor) × List Address
  | [], seen => ([], seen)
  | ⟨addr, op⟩ :: es, seen =>
    if addr ∈ seen then visitLayer es seen
    else
      (op.toList.map (fun act => (addr, act)) ++ (visitLayer es (addr :: seen)).1, (visitLayer es (addr :: seen)).2)

/-- The loop of `ForEach` over the layers, the top one first. -/
def visitLayers : List LayerOrder → List Address → List (Address × Actor) × List Address
  | [], seen => ([], seen)
  | es :: rest, seen =>
    ((visitLayer es seen).1 ++ (visitLayers rest (visitLayer es seen).2).1, (visitLayers rest (visitLayer es seen).2).2)

/-- `StateTree.ForEach`: the calls of a callback that never fails, given the iteration orders. -/
def forEach (orders : List LayerOrder) (rootOrder : List (Sigma fun _ : Address => Actor)) : List (Address × Actor) :=
  (visitLayers orders []).1 ++ (rootOrder.filter (fun e => e.1 ∉ (visitLayers orders []).2)).map (fun e => (e.1, e.2))

def orderSearch (orders : List LayerOrder) (addr : Address) : Option StreeOp :=
  orders.findSome? (fun es => es.dlookup addr)

theorem mem_visitLayer_seen (es : LayerOrder) (seen : List Address) (a : Address) :
    a ∈ (visitLayer es seen).2 ↔ a ∈ seen ∨ (es.dlookup a).isSome := by
  induction es generalizing seen with
  | nil => simp [visitLayer]
  | cons e es ih =>
    obtain ⟨addr, op⟩ := e
    have hco : (dlookup a (⟨addr, op⟩ :: es) : Option StreeOp).isSome ↔ a = addr ∨ (es.dlookup a).isSome := by
      by_cases ha : a = addr
      · subst ha
        simp [dlookup_cons_eq]
      · rw [dlookup_cons_ne es _ ha]
        simp [ha]
    rw [hco]
    by_cases hse : addr ∈ seen
    · rw [visitLayer, if_pos hse, ih]
      have : a = addr → a ∈ seen := fun heq => heq ▸ hse
      tauto
    · rw [visitLayer, if_neg hse, ih, mem_cons]
      tauto

section
variable (es : LayerOrder) (hes : es.NodupKeys) (seen : List Address)
include hes

theorem mem_visitLayer (a : Address) (act : Actor) :
    (a, act) ∈ (visitLayer es seen).1 ↔ a ∉ seen ∧ es.dlookup a = some (some act) := by
  induction es generalizing seen with
  | nil => simp [visitLayer]
  | cons e es ih =>
    obtain ⟨addr, op⟩ := e
    rw [nodupKeys_cons] at hes
    by_cases ha : a = addr
    · -- the entry of this address; there is no other
      subst ha
      rw [dlookup_cons_eq]
      have hrest : ∀ seen, ¬ (a, act) ∈ (visitLayer es seen).1 := by
        intro seen hmem
        have hlk := ((ih hes.2 seen).mp hmem).2
        rw [dlookup_eq_none.mpr hes.1] at hlk
        exact absurd hlk (by simp)
      by_cases hse : a ∈ seen
      · rw [visitLayer, if_pos hse]
        exact iff_of_false (hrest seen) (fun h => h.1 hse)
      rw [visitLayer, if_neg hse]
      rcases op with _ | act'
      · exact iff_of_false (hrest _) (by simp)
      rw [mem_append, Option.toList_some, map_singleton, mem_singleton]
      constructor
      · rintro (heq | hmem)
        · cases heq
          exact ⟨hse, rfl⟩
        · exact absurd hmem (hrest _)
      rintro ⟨-, heq⟩
      cases heq
      exact Or.inl rfl
    rw [dlookup_cons_ne es _ ha]
    by_cases hse : addr ∈ seen
    · rw [visitLayer, if_pos hse, ih hes.2]
    have ho : (a, act) ∉ op.toList.map (fun act => (addr, act)) := by
      simp [Ne.symm ha]
    rw [visitLayer, if_neg hse, mem_append, ih hes.2, mem_cons]
    simp [ha, ho]

theorem nodup_visitLayer :
    ((visitLayer es seen).1.map Prod.fst).Nodup := by
  induction es generalizing seen with
  | nil => exact nodup_nil
  | cons e es ih =>
    obtain ⟨addr, op⟩ := e
    rw [nodupKeys_cons] at hes
    by_cases hse : addr ∈ seen
    · rw [visitLayer, if_pos hse]
      exact ih hes.2 seen
    rw [visitLayer, if_neg hse]
    rcases op with _ | act
    · exact ih hes.2 _
    refine nodup_cons.mpr ⟨?_, ih hes.2 _⟩
    intro hmem
    obtain ⟨⟨a, act'⟩, hmem, rfl⟩ := mem_map.mp hmem
    exact ((mem_visitLayer es hes.2 _ a act').mp hmem).1 mem_cons_self
end

theorem visitLayers_spec (orders : List LayerOrder) (ho : ∀ es ∈ orders, es.NodupKeys) (seen : List Address) :
    (∀ a, a ∈ (visitLayers orders seen).2 ↔ a ∈ seen ∨ (orderSearch orders a).isSome) ∧
    (∀ a act, (a, act) ∈ (visitLayers orders seen).1 ↔ a ∉ seen ∧ orderSearch orders a = some (some act)) ∧
    ((visitLayers orders seen).1.map Prod.fst).Nodup := by
  induction orders generalizing seen with
  | nil => simp [visitLayers, orderSearch]
  | cons es rest ih =>
    have hes := ho es (by simp)
    obtain ⟨hse, hmem, hn⟩ := ih (fun es' h => ho es' (by simp [h])) (visitLayer es seen).2
    have hco : ∀ a, orderSearch (es :: rest) a = (es.dlookup a).or (orderSearch rest a) := by
      intro a
      rw [orderSearch, findSome?_cons]
      cases es.dlookup a with
      | none => rfl
      | some op => rfl
    refine ⟨?_, ?_, ?_⟩
    · intro a
      rw [visitLayers, hse, mem_visitLayer_seen, hco]
      cases es.dlookup a with
      | none => simp
      | some op => simp
    · intro a act
      rw [visitLayers, mem_append, hmem, mem_visitLayer es hes, mem_visitLayer_seen, hco]
      cases es.dlookup a with
      | none => simp
      | some op => simp
    rw [visitLayers, map_append]
    refine Nodup.append (nodup_visitLayer es hes seen) hn ?_
    -- an address visited in the first layer is seen when the rest is walked
    intro a hfirst hrest
    obtain ⟨⟨a1, act⟩, hmem1, h1⟩ := mem_map.mp hfirst
    obtain ⟨⟨a2, act'⟩, hmem2, h2⟩ := mem_map.mp hrest
    obtain rfl : a1 = a := h1
    obtain rfl : a2 = a1 := h2
    have hlk := ((mem_visitLayer es hes seen a2 act).mp hmem1).2
    refine ((hmem a2 act').mp hmem2).1 ((mem_visitLayer_seen es seen a2).mpr (Or.inr ?_))
    rw [hlk]
    rfl

/-- The orders are those of some iteration over the maps of the tree. -/
structure Iterates (st : StateTree) (orders : List LayerOrder)
    (rootOrder : List (Sigma fun _ : Address => Actor)) : Prop where
  layers : Forall₂ (fun es (l : StateSnapLayer) => es.Perm l.actors.entries) orders st.layers
  root : rootOrder.Perm st.root.entries

variable {orders : List LayerOrder} {ls : List StateSnapLayer}

section
variable (h : Forall₂ (fun es (l : StateSnapLayer) => es.Perm l.actors.entries) orders ls)
include h

theorem orderSearch_eq (a : Address) : orderSearch orders a = search (ls.map (·.actors)) a := by
  induction h with
  | nil => rfl
  | cons hpe _ ih =>
    rename_i es l orders ls _
    have hes : es.NodupKeys := (perm_nodupKeys hpe).mpr l.actors.nodupKeys
    rw [map_cons, search_cons, ← ih, orderSearch, findSome?_cons, perm_dlookup a hes hpe]
    show _ = (l.actors.entries.dlookup a).or _
    cases l.actors.entries.dlookup a with
    | none => rfl
    | some op => rfl

theorem nodupKeys_of_forall₂ : ∀ es ∈ orders, es.NodupKeys := by
  induction h with
  | nil => simp
  | cons hpe _ ih =>
    rename_i es l orders ls _
    intro es' hes'
    rcases mem_cons.mp hes' with rfl | hes'
    · exact (perm_nodupKeys hpe).mpr l.actors.nodupKeys
    · exact ih es' hes'
end

theorem forEach_spec {st : StateTree} {rootOrder : List (Sigma fun _ : Address => Actor)}
    (h : st.Iterates orders rootOrder) : ((forEach orders rootOrder).map Prod.fst).Nodup ∧
    ∀ a act, (a, act) ∈ forEach orders rootOrder ↔ st.view a = some act := by
  obtain ⟨hse, hmem, hno⟩ := visitLayers_spec orders (nodupKeys_of_forall₂ h.layers) []
  have hro : rootOrder.NodupKeys := (perm_nodupKeys h.root).mpr st.root.nodupKeys
  have hroo : ∀ a act, (a, act) ∈ (rootOrder.filter (fun e => e.1 ∉ (visitLayers orders []).2)).map (fun e => (e.1, e.2)) ↔
      orderSearch orders a = none ∧ st.root.lookup a = some act := by
    intro a act
    rw [mem_map]
    constructor
    · rintro ⟨⟨a', act'⟩, hfi, heq⟩
      cases heq
      rw [mem_filter, h.root.mem_iff] at hfi
      refine ⟨?_, (AList.mem_lookup_iff).mpr hfi.1⟩
      have hnot := hfi.2
      rw [decide_eq_true_eq, hse] at hnot
      simpa using hnot
    rintro ⟨hn, hlk⟩
    refine ⟨⟨a, act⟩, ?_, rfl⟩
    rw [mem_filter, h.root.mem_iff, decide_eq_true_eq, hse]
    exact ⟨AList.mem_lookup_iff.mp hlk, by simp [hn]⟩
  refine ⟨?_, ?_⟩
  · rw [forEach, map_append]
    refine Nodup.append hno ?_ ?_
    · rw [map_map]
      exact (hro.sublist filter_sublist)
    intro a hla hb
    obtain ⟨⟨a1, act⟩, hmem1, h1⟩ := mem_map.mp hla
    obtain ⟨⟨a2, act'⟩, hmem2, h2⟩ := mem_map.mp hb
    obtain rfl : a1 = a := h1
    obtain rfl : a2 = a1 := h2
    have hso := ((hmem a2 act).mp hmem1).2
    rw [((hroo a2 act').mp hmem2).1] at hso
    exact absurd hso (by simp)
  intro a act
  rw [forEach, mem_append, hmem, hroo]
  show _ ↔ patched (search (st.layers.map (·.actors)) a) (st.root.lookup a) = some act
  rw [orderSearch_eq h.layers]
  cases search (st.layers.map (·.actors)) a with
  | none | some op => simp [patched]

/-! ## `Flush` persists what the tree shows -/

section
variable [InitLib]

theorem getActor_id (st : StateTree) {a : Address} (ha : a.protocol = .id) : (st.getActor a).2 = found (st.view a) := by
  have hu : a ≠ .undef := by
    rintro rfl
    exact absurd ha (by decide)
  rw [(st.getActor_spec a).1, actorVal, actorOf, if_neg hu, lookupVal_id st ha]
  cases hv : st.view a with
  | none | some act => simp [hv, found]

/-- Actors are kept under ID addresses, and addresses resolve to ID addresses. -/
def ByID (view : Address → Option Actor) (lookup : Address → Except GoError Address) : Prop :=
  (∀ a act, view a = some act → a.protocol = .id) ∧ ∀ a iaddr, lookup a = .ok iaddr → iaddr.protocol = .id

/-- `ForEach` visits exactly the actors that `GetActor` finds at ID addresses, each once. -/
def VisitsFound (st : StateTree) : Prop :=
  ∀ orders rootOrder, st.Iterates orders rootOrder →
    ((forEach orders rootOrder).map Prod.fst).Nodup ∧
    ∀ a act, (a, act) ∈ forEach orders rootOrder ↔ a.protocol = .id ∧ (st.getActor a).2 = .ok act

variable {st : StateTree}

theorem visitsFound (h : ByID st.view st.lookupVal) : st.VisitsFound := by
  intro orders rootOrder hit
  obtain ⟨hn, hmem⟩ := forEach_spec hit
  refine ⟨hn, fun a act => ?_⟩
  rw [hmem]
  constructor
  · intro hv
    have ha := h.1 a act hv
    rw [getActor_id st ha, hv]
    exact ⟨ha, rfl⟩
  rintro ⟨ha, hg⟩
  rw [getActor_id st ha] at hg
  rcases hv : st.view a with _ | act'
  · rw [hv] at hg
    exact absurd hg (by simp [found])
  rw [hv] at hg
  cases hg
  rfl

/-- `Flush` succeeds, and its root loads to a tree with the same actors, which `ForEach` visits. -/
def Persists (absent : Address → GoError) (order : LayerOrder) (st : StateTree) : Prop :=
  ∃ blk st', (st.flush absent order).2 = .ok blk ∧ loadStateTree blk = .ok st' ∧
    (∀ a, a.protocol = .id → (st'.getActor a).2 = (st.getActor a).2) ∧
    st.VisitsFound ∧ st'.VisitsFound

/-- Every address that the layer marks as deleted is in the HAMT. -/
def DeletesPersisted (st : StateTree) : Prop := ∀ a, ⟨a, none⟩ ∈ st.pending → a ∈ st.root

variable {order : LayerOrder}
omit [InitLib] in
theorem view_single (hsi : st.layers.length = 1) (ho : order.Perm st.pending) (a : Address) :
    st.view a = patched (order.dlookup a) (st.root.lookup a) ∧ order.NodupKeys := by
  obtain ⟨l, hl⟩ := length_eq_one_iff.mp hsi
  have hpe : st.pending = l.actors.entries := by
    rw [pending, hl]
  rw [hpe] at ho
  have hn : order.NodupKeys := (perm_nodupKeys ho).mpr l.actors.nodupKeys
  refine ⟨?_, hn⟩
  rw [view, viewOf, hl, map_singleton, search_cons, search_nil, Option.or_none, perm_dlookup a hn ho]
  rfl

variable {absent : Address → GoError}
omit [InitLib] in
theorem loadStateTree_flush (hsi : st.layers.length = 1) (hv : st.version ≤ 4)
    (hok : (applyOps absent order st.root).2 = none) :
    ∃ blk st', (st.flush absent order).2 = .ok blk ∧ loadStateTree blk = .ok st' ∧
      st'.layers = [newStateSnapLayer] ∧ st'.root = (applyOps absent order st.root).1 := by
  unfold flush
  rw [if_neg (not_not.mpr hsi)]
  rcases ha : applyOps absent order st.root with ⟨root, err⟩
  rw [ha] at hok
  obtain rfl : err = none := hok
  dsimp only
  by_cases hz : st.version = 0
  · rw [if_pos hz]
    exact ⟨.raw root, loaded root 0 ⟨[]⟩, rfl, rfl, rfl, rfl⟩
  rw [if_neg hz]
  refine ⟨.stateRoot st.version root st.info, loaded root st.version st.info, rfl, ?_, rfl, rfl⟩
  rw [loadStateTree, if_pos hv]

theorem persists_iff (hsi : st.layers.length = 1) (hve : st.version ≤ 4) (hb : ByID st.view st.lookupVal)
    (hre : ∀ init a iaddr, resolveWith init a = .ok iaddr → iaddr.protocol = .id)
    (ho : order.Perm st.pending) : st.Persists absent order ↔ st.DeletesPersisted := by
  have hn : order.NodupKeys := (view_single hsi ho .undef).2
  have hif : (applyOps absent order st.root).2 = none ↔ st.DeletesPersisted := by
    rw [applyOps_ok_iff absent order hn]
    unfold DeletesPersisted
    simp only [ho.mem_iff]
  rw [← hif]
  constructor
  · rintro ⟨blk, -, hfl, -⟩
    unfold flush at hfl
    rw [if_neg (not_not.mpr hsi)] at hfl
    rcases hap : applyOps absent order st.root with ⟨root, _ | e⟩
    · rfl
    · rw [hap] at hfl
      exact absurd hfl (by simp)
  intro hok
  obtain ⟨blk, st', hfl, hlo, hla, hro⟩ := loadStateTree_flush hsi hve hok
  have hv : st'.view = st.view := by
    funext a
    rw [(view_single hsi ho a).1, view, viewOf, hla, hro, lookup_applyOps absent order hn st.root hok]
    rfl
  have hb' : ByID st'.view st'.lookupVal := by
    refine ⟨fun a act h => hb.1 a act (hv ▸ h), fun a iaddr h => ?_⟩
    rw [lookupVal, lookupOf, hla] at h
    split at h
    · rename_i ha
      cases h
      exact ha
    · exact hre _ a iaddr h
  refine ⟨blk, st', hfl, hlo, ?_, visitsFound hb, visitsFound hb'⟩
  intro a ha
  rw [getActor_id st' ha, getActor_id st ha, hv]

/-! ## Runs from a loaded tree -/

/-- What a run keeps: a version that can be loaded, and actors under ID addresses. -/
def Keyed (st : StateTree) : Prop := st.version ≤ 4 ∧ st.AllStacks ByID

theorem Keyed.sameReads {st' : StateTree} (h : st.Keyed) (hrd : st.SameReads st') :
    st'.Keyed := ⟨hrd.version ▸ h.1, h.2.sameReads hrd⟩

section
variable (h : st.Keyed) (hre : ∀ init a iaddr, resolveWith init a = .ok iaddr → iaddr.protocol = .id)
include h hre

theorem Keyed.write
    {iaddr : Address} (hid : iaddr.protocol = .id) (op : StreeOp) : (st.write iaddr op).Keyed := by
  refine ⟨h.1, h.2.write ⟨?_, ?_⟩⟩
  · intro a act hv
    by_cases hne : st.layers = []
    · refine h.2.top.1 a act ?_
      rw [← hv]
      show viewOf st.root st.layers a = viewOf st.root (modifyTop _ st.layers) a
      rw [hne]
      rfl
    rw [view_write hne] at hv
    by_cases ha : a = iaddr
    · rw [ha]
      exact hid
    · rw [Function.update_of_ne ha] at hv
      exact h.2.top.1 a act hv
  intro a r hr
  rcases st.lookupVal_write iaddr op a with ⟨r', hold, hnew⟩ | hnew
  · rw [hnew] at hr
    cases hr
    exact h.2.top.2 a r hold
  rw [hnew, resolveIn] at hr
  split at hr
  · rename_i ha
    cases hr
    exact ha
  · exact hre _ a r hr

theorem Keyed.step
    (c : Call) : (st.step c).1.Keyed := by
  cases c with
  | setActor addr act =>
    obtain ⟨st', hrd, heq⟩ := st.setActor_spec addr act
    simp only [StateTree.step, heq]
    cases hlk : st.lookupVal addr with
    | error e => exact h.sameReads hrd
    | ok iaddr => exact (h.sameReads hrd).write hre (h.2.top.2 addr iaddr hlk) _
  | deleteActor addr =>
    obtain ⟨st', hrd, heq⟩ := st.deleteActor_spec addr
    simp only [StateTree.step, heq]
    cases hd : deleteVal st.view st.lookupVal addr with
    | error e => exact h.sameReads hrd
    | ok iaddr =>
      exact (h.sameReads hrd).write hre (h.2.top.2 addr iaddr (deleteVal_ok hd).1) _
  | getActor addr => exact h.sameReads (st.getActor_spec addr).2
  | lookupID addr => exact h.sameReads (st.lookupID_spec addr).2
  | snapshot => exact ⟨h.1, h.2.snapshot⟩
  | clearSnapshot => exact ⟨h.1, h.2.clearSnapshot⟩
  | revert => exact ⟨h.1, h.2.revert⟩
end

theorem keyed_loaded {blk : StateRootBlock} (hlo : loadStateTree blk = .ok st) (hro : ∀ a ∈ st.root, a.protocol = .id)
    (hre : ∀ init a iaddr, resolveWith init a = .ok iaddr → iaddr.protocol = .id) : st.Keyed := by
  have hst : st.version ≤ 4 ∧ st.layers = [newStateSnapLayer] := by
    unfold loadStateTree at hlo
    split at hlo
    · cases hlo
      exact ⟨show (0 : UInt64) ≤ 4 by decide, rfl⟩
    split at hlo
    · rename_i hve
      cases hlo
      exact ⟨hve, rfl⟩
    · cases hlo
  refine ⟨hst.1, fun s hs => ⟨?_, ?_⟩⟩
  · -- whichever layers are left show the root and nothing else
    intro a act hv
    have hlk : st.root.lookup a = some act := by
      rw [hst.2] at hs
      rcases suffix_cons_iff.mp hs with rfl | hs
      · exact hv
      · rw [suffix_nil.mp hs] at hv
        exact hv
    refine hro a (AList.lookup_isSome.mp ?_)
    rw [hlk]
    rfl
  intro a iaddr hlk
  rw [hst.2] at hs
  have hca : searchCache s a = none := by
    rcases suffix_cons_iff.mp hs with rfl | hs
    · rfl
    · rw [suffix_nil.mp hs]
      rfl
  by_cases ha : a.protocol = .id
  · rw [lookupOf, if_pos ha] at hlk
    cases hlk
    exact ha
  · rw [lookupOf_uncached ha hca] at hlk
    exact hre _ a iaddr hlk

/-- **What `Flush` persists.** After a run on a loaded tree that ends with one layer, its root loads to the same actors
exactly when every address marked as deleted is in the HAMT. -/
theorem flush_persists_iff (blk : StateRootBlock) (st : StateTree) (calls : List Call) (absent : Address → GoError)
    (order : LayerOrder) (hload : loadStateTree blk = .ok st) (hroot : ∀ a ∈ st.root, a.protocol = .id)
    (hresolve : ∀ s a iaddr, InitLib.resolveAddress s a = .ok (some iaddr) → iaddr.protocol = .id)
    (hsingle : (final step st calls).layers.length = 1) (horder : order.Perm (final step st calls).pending) :
    (final step st calls).Persists absent order ↔ (final step st calls).DeletesPersisted := by
  have hre := resolveWith_id hresolve
  have hk : (final step st calls).Keyed :=
    final_invariant (fun s c hs => hs.step hre c) (keyed_loaded hload hroot hre) calls
  exact persists_iff hsingle hk.1 hk.2.top hre horder
end

section

def noSuchKey (_ : Address) : GoError := .errorf "no such key to delete"

def deleteCalls : List Call := [.snapshot, .deleteActor initAddress, .clearSnapshot, .setActor (.id 7) (byteActor 7)]

theorem byteInit_resolve_id (s : Bytes) (a iaddr : Address)
    (h : byteInit.resolveAddress s a = .ok (some iaddr)) : iaddr.protocol = .id := by
  have hso : (if a = .actor [] then s.head?.map (fun b => Address.id b) else none) = some iaddr :=
    Except.ok.inj h
  split at hso
  · obtain ⟨b, -, rfl⟩ := Option.map_eq_some_iff.mp hso
    rfl
  · cases hso

theorem flush_persists_deleteCalls :
    let _ := byteInit
    (final step (loaded byteRoot 4 ⟨[]⟩) deleteCalls).Persists noSuchKey
      (final step (loaded byteRoot 4 ⟨[]⟩) deleteCalls).pending := by
  intro _
  refine (flush_persists_iff (.stateRoot 4 byteRoot ⟨[]⟩) _ deleteCalls noSuchKey _ rfl ?_
    byteInit_resolve_id rfl (Perm.refl _)).mpr ?_
  · intro a ha
    rw [mem_singleton.mp (show a ∈ [initAddress] from ha)]
    rfl
  have hall : ∀ e ∈ (final step (loaded byteRoot 4 ⟨[]⟩) deleteCalls).pending,
      e.2 = none → e.1 ∈ (final step (loaded byteRoot 4 ⟨[]⟩) deleteCalls).root := by
    decide
  intro a ha
  exact hall ⟨a, none⟩ ha rfl

/-- **An actor created and deleted since the load makes `Flush` fail.** -/
theorem flush_fails_create_delete :
    let _ := byteInit
    let st := final step (loaded byteRoot 4 ⟨[]⟩)
      [.setActor (.id 7) (byteActor 7), .deleteActor (.id 7)]
    loadStateTree (.stateRoot 4 byteRoot ⟨[]⟩) = .ok (loaded byteRoot 4 ⟨[]⟩) ∧
    st.layers.length = 1 ∧
    (st.flush noSuchKey st.pending).2 = .error (.errorf "no such key to delete") := by
  exact ⟨rfl, rfl, rfl⟩
end
end StateTree
end Lotus.State
