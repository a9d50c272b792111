/-
# The state tree (`chain/state/statetree.go`).

Calls read through the snapshot layers into the HAMT, cache in the top layer, and write only there. The init actor's state
is third-party code (`InitLib`).
-/
import Lotus.State.Snaps

namespace Lotus.State
open Lib.Overlay StateSnaps List

/-- The init actor's state: `init_.Load` and the methods of `init_.State`. -/
class InitLib where
  InitState : Type
  load : (code head : Cid) → Except GoError InitState
  resolveAddress : InitState → Address → Except GoError (Option Address)
  mapAddressToNewID : InitState → Address → Except GoError (Address × InitState)
  put : InitState → Except GoError Cid

def initAddress : Address := .id 1

structure StateTree where
  root : GoMap Address Actor
  version : UInt64
  info : Cid
  snaps : StateSnaps

/-! ## What a stack of layers over a root says -/

section
variable (root : GoMap Address Actor)

def viewOf (ls : List StateSnapLayer) (addr : Address) : Option Actor :=
  patched (search (ls.map (·.actors)) addr) (root.lookup addr)

theorem viewOf_setTop (l : StateSnapLayer) (ls : List StateSnapLayer)
    (iaddr : Address) (op : StreeOp) (addr : Address) :
    viewOf root ({ l with actors := l.actors.insert iaddr op } :: ls) addr =
      if addr = iaddr then op else viewOf root (l :: ls) addr := by
  unfold viewOf
  rw [map_cons, map_cons, search_insert]
  by_cases h : addr = iaddr
  · rw [if_pos h, if_pos h]
    rfl
  · rw [if_neg h, if_neg h]

theorem viewOf_newLayer (ls : List StateSnapLayer) :
    viewOf root (newStateSnapLayer :: ls) = viewOf root ls := by
  funext addr
  unfold viewOf
  rw [map_cons, newStateSnapLayer, search_empty_cons]

theorem viewOf_pourLayer (l m : StateSnapLayer) (ls : List StateSnapLayer) :
    viewOf root (pourLayer l m :: ls) = viewOf root (l :: m :: ls) := by
  funext addr
  unfold viewOf
  rw [map_cons, pourLayer, search_assignAll]
  rfl
end

section
variable [InitLib]

/-- `lookupIDinternal`, given the init actor. -/
def resolveWith (init : Option Actor) (addr : Address) : Except GoError Address :=
  match init with
  | none => .error (.wrap "getting init actor" .actorNotFound)
  | some act =>
    match InitLib.load act.code act.head with
    | .error e => .error (.wrap "loading init actor state" e)
    | .ok ias =>
      match InitLib.resolveAddress ias addr with
      | .error e => .error (.wrap "resolve address" e)
      | .ok none => .error (.wrap "resolve address" .actorNotFound)
      | .ok (some a) => .ok a

def lookupOf (root : GoMap Address Actor) (ls : List StateSnapLayer) (addr : Address) : Except GoError Address :=
  if addr.protocol = .id then .ok addr
  else
    match searchCache ls addr with
    | some resa => .ok resa
    | none => resolveWith (viewOf root ls initAddress) addr

def resolveIn (m : Address → Option Actor) (addr : Address) : Except GoError Address :=
  if addr.protocol = .id then .ok addr else resolveWith (m initAddress) addr

variable {root : GoMap Address Actor} {ls : List StateSnapLayer} {addr : Address}

theorem lookupOf_cached {resa : Address} (hid : addr.protocol ≠ .id) (hca : searchCache ls addr = some resa) :
    lookupOf root ls addr = .ok resa := by
  unfold lookupOf
  rw [if_neg hid, hca]

theorem lookupOf_uncached (hid : addr.protocol ≠ .id) (hca : searchCache ls addr = none) :
    lookupOf root ls addr = resolveWith (viewOf root ls initAddress) addr := by
  unfold lookupOf
  rw [if_neg hid, hca]

theorem lookupOf_congr {root' : GoMap Address Actor} {ls' : List StateSnapLayer}
    (hca : searchCache ls' addr = searchCache ls addr) (hinit : viewOf root' ls' initAddress = viewOf root ls initAddress) :
    lookupOf root' ls' addr = lookupOf root ls addr := by
  unfold lookupOf
  rw [hca, hinit]

theorem lookupOf_newLayer (root : GoMap Address Actor) (ls : List StateSnapLayer) :
    lookupOf root (newStateSnapLayer :: ls) = lookupOf root ls := by
  funext addr
  refine lookupOf_congr ?_ (by rw [viewOf_newLayer])
  rw [searchCache_cons, newStateSnapLayer, AList.lookup_empty, Option.none_or]

theorem lookupOf_pourLayer (root : GoMap Address Actor) (l m : StateSnapLayer) (ls : List StateSnapLayer) :
    lookupOf root (pourLayer l m :: ls) = lookupOf root (l :: m :: ls) := by
  funext addr
  refine lookupOf_congr ?_ (by rw [viewOf_pourLayer])
  exact search_assignAll l.resolveCache m.resolveCache (ls.map (·.resolveCache)) addr
end

/-- The error `GetActor` and `DeleteActor` make of a failed resolution. -/
def resolutionError (e : GoError) : GoError :=
  if e.isActorNotFound then .wrap "resolution lookup failed" e else .wrap "address resolution" e

/-- What `GetActor` returns, given the map of actors and the address resolution. -/
def actorOf (view : Address → Option Actor) (lookup : Address → Except GoError Address)
    (addr : Address) : Except GoError Actor :=
  if addr = .undef then .error (.errorf "GetActor called on undefined address")
  else
    match lookup addr with
    | .error e => .error (resolutionError e)
    | .ok iaddr =>
      match view iaddr with
      | none => .error .actorNotFound
      | some act => .ok act

namespace StateTree

/-! ## The calls -/

/-- `GetActor` of an ID address: through the layers, then into the HAMT, with its answer cached in the top layer. -/
def getActorID (st : StateTree) (addr : Address) : StateTree × Except GoError Actor :=
  match st.snaps.getActor addr with
  | some none => (st, .error .actorNotFound)
  | some (some act) => (st, .ok act)
  | none =>
    match st.root.lookup addr with
    | none => (st, .error .actorNotFound)
    | some act => ({ st with snaps := st.snaps.setActor addr act }, .ok act)

section
variable [InitLib]

section
variable (st : StateTree) (addr : Address)

/-- `StateTree.lookupIDinternal`. `init_.Address` is an ID address: nothing to resolve. -/
def lookupIDinternal : StateTree × Except GoError Address :=
  match st.getActorID initAddress with
  | (st, .error e) => (st, .error (.wrap "getting init actor" e))
  | (st, .ok act) =>
    match InitLib.load act.code act.head with
    | .error e => (st, .error (.wrap "loading init actor state" e))
    | .ok ias =>
      match InitLib.resolveAddress ias addr with
      | .error e => (st, .error (.wrap "resolve address" e))
      | .ok none => (st, .error (.wrap "resolve address" .actorNotFound))
      | .ok (some a) => (st, .ok a)

def lookupID : StateTree × Except GoError Address :=
  if addr.protocol = .id then (st, .ok addr)
  else
    match st.snaps.resolveAddress addr with
    | (snaps, some resa) => ({ st with snaps }, .ok resa)
    | (snaps, none) =>
      match lookupIDinternal { st with snaps } addr with
      | (st, .error e) => (st, .error e)
      | (st, .ok a) => ({ st with snaps := st.snaps.cacheResolveAddress addr a }, .ok a)

def getActor : StateTree × Except GoError Actor :=
  if addr = .undef then (st, .error (.errorf "GetActor called on undefined address"))
  else
    match st.lookupID addr with
    | (st, .error e) => (st, .error (resolutionError e))
    | (st, .ok iaddr) => st.getActorID iaddr

def setActor (st : StateTree) (addr : Address) (act : Actor) : StateTree × Except GoError Unit :=
  match st.lookupID addr with
  | (st, .error e) => (st, .error (.wrap "ID lookup failed" e))
  | (st, .ok iaddr) => ({ st with snaps := st.snaps.setActor iaddr act }, .ok ())

def deleteActor (st : StateTree) (addr : Address) : StateTree × Except GoError Unit :=
  if addr = .undef then (st, .error (.errorf "DeleteActor called on undefined address"))
  else
    match st.lookupID addr with
    | (st, .error e) => (st, .error (resolutionError e))
    | (st, .ok iaddr) =>
      match st.getActor iaddr with
      | (st, .error e) => (st, .error e)
      | (st, .ok _) => ({ st with snaps := st.snaps.deleteActor iaddr }, .ok ())

def mutateActor (f : Actor → Except GoError Actor) : StateTree × Except GoError Unit :=
  match st.getActor addr with
  | (st, .error e) => (st, .error e)
  | (st, .ok act) =>
    match f act with
    | .error e => (st, .error e)
    | .ok act => st.setActor addr act

def registerIn (initact : Actor) : Except GoError (Address × Actor) :=
  match InitLib.load initact.code initact.head with
  | .error e => .error e
  | .ok ias =>
    match InitLib.mapAddressToNewID ias addr with
    | .error e => .error e
    | .ok (oaddr, ias) =>
      match InitLib.put ias with
      | .error e => .error e
      | .ok ncid => .ok (oaddr, { initact with head := ncid })

/-- `StateTree.RegisterNewAddress`: `MutateActor` on the init actor, and the new ID. -/
def registerNewAddress : StateTree × Except GoError Address :=
  match st.getActor initAddress with
  | (st, .error e) => (st, .error e)
  | (st, .ok initact) =>
    match registerIn addr initact with
    | .error e => (st, .error e)
    | .ok (oaddr, initact) =>
      match st.setActor initAddress initact with
      | (st, .error e) => (st, .error e)
      | (st, .ok ()) => (st, .ok oaddr)
end
end

section
variable (st : StateTree)

def snapshot : StateTree := { st with snaps := st.snaps.addLayer }

def clearSnapshot : StateTree := { st with snaps := st.snaps.mergeLastLayer }

def revert : StateTree := { st with snaps := st.snaps.dropLayer.addLayer }

/-! ## What the calls return -/

def layers (st : StateTree) : List StateSnapLayer := st.snaps.layers

def view : Address → Option Actor := viewOf st.root st.layers

def write (iaddr : Address) (op : StreeOp) : StateTree :=
  { st with snaps := st.snaps.setOp iaddr op }
end

/-- `view` as `GetActor` reports it. -/
def found : Option Actor → Except GoError Actor
  | none => .error .actorNotFound
  | some act => .ok act

section
variable [InitLib]

def lookupVal (st : StateTree) : Address → Except GoError Address := lookupOf st.root st.layers

/-- What `GetActor` returns. -/
def actorVal (st : StateTree) : Address → Except GoError Actor := actorOf st.view st.lookupVal

theorem lookupVal_id (st : StateTree) {a : Address} (ha : a.protocol = .id) : st.lookupVal a = .ok a := by
  unfold lookupVal lookupOf
  rw [if_pos ha]

/-- `st'` differs from `st` by what reading caches, in the top layer and the index; no read can tell. -/
structure SameReads (st st' : StateTree) : Prop where
  root : st'.root = st.root
  version : st'.version = st.version
  info : st'.info = st.info
  below : st'.layers.tail = st.layers.tail
  length : st'.layers.length = st.layers.length
  view : st'.view = st.view
  lookup : st'.lookupVal = st.lookupVal

theorem SameReads.refl (st : StateTree) : SameReads st st := ⟨rfl, rfl, rfl, rfl, rfl, rfl, rfl⟩

variable {st st' st'' : StateTree}

theorem SameReads.trans (h : SameReads st st') (h' : SameReads st' st'') : SameReads st st'' where
  root := h'.root.trans h.root
  version := h'.version.trans h.version
  info := h'.info.trans h.info
  below := h'.below.trans h.below
  length := h'.length.trans h.length
  view := h'.view.trans h.view
  lookup := h'.lookup.trans h.lookup

/-- `st'` differs from `st` in the top layer only, or in what reads do not see. -/
structure SameBelow (st st' : StateTree) : Prop where
  root : st'.root = st.root
  below : st'.layers.tail = st.layers.tail
  length : st'.layers.length = st.layers.length

omit [InitLib] in
theorem SameBelow.refl (st : StateTree) : SameBelow st st := ⟨rfl, rfl, rfl⟩

omit [InitLib] in
theorem SameBelow.trans (h : SameBelow st st') (h' : SameBelow st' st'') : SameBelow st st'' :=
  ⟨h'.root.trans h.root, h'.below.trans h.below, h'.length.trans h.length⟩

theorem SameReads.sameBelow (h : SameReads st st') : SameBelow st st' :=
  ⟨h.root, h.below, h.length⟩

theorem SameReads.actorVal (h : SameReads st st') : st'.actorVal = st.actorVal := by
  unfold StateTree.actorVal
  rw [h.view, h.lookup]

variable {addr iaddr : Address} {act : Actor}

theorem sameReads_cacheActor (hvi : st.view addr = some act) : SameReads st (st.write addr (some act)) := by
  obtain ⟨root, version, info, ⟨_ | ⟨l, ls⟩, last, hok⟩⟩ := st
  · exact ⟨rfl, rfl, rfl, rfl, rfl, rfl, rfl⟩
  have hv : ∀ a, viewOf root ({ l with actors := l.actors.insert addr (some act) } :: ls) a = viewOf root (l :: ls) a := by
    intro a
    rw [viewOf_setTop]
    split
    · rename_i ha
      rw [ha]
      exact hvi.symm
    · rfl
  exact ⟨rfl, rfl, rfl, rfl, rfl, funext hv, funext fun a => lookupOf_congr rfl (hv initAddress)⟩

theorem sameReads_cacheResolve {resa : Address} (hid : addr.protocol ≠ .id) (hlk : st.lookupVal addr = .ok resa) :
    SameReads st { st with snaps := st.snaps.cacheResolveAddress addr resa } := by
  obtain ⟨root, version, info, ⟨_ | ⟨l, ls⟩, last, hok⟩⟩ := st
  · exact ⟨rfl, rfl, rfl, rfl, rfl, rfl, rfl⟩
  refine ⟨rfl, rfl, rfl, rfl, rfl, rfl, funext fun a => ?_⟩
  show lookupOf root ({ l with resolveCache := l.resolveCache.insert addr resa } :: ls) a = lookupOf root (l :: ls) a
  have hca : searchCache ({ l with resolveCache := l.resolveCache.insert addr resa } :: ls) a =
      if a = addr then some resa else searchCache (l :: ls) a := search_insert _ _ _ _ _
  by_cases ha : a = addr
  · subst ha
    rw [show lookupOf root (l :: ls) a = .ok resa from hlk]
    exact lookupOf_cached hid (by rw [hca, if_pos rfl])
  · refine lookupOf_congr ?_ rfl
    rw [hca, if_neg ha]

section
variable (st)
include st

section
variable (addr : Address)

theorem sameReads_index : SameReads st { st with snaps := (st.snaps.resolveAddress addr).1 } :=
  ⟨rfl, rfl, rfl, rfl, rfl, rfl, rfl⟩

theorem getActorID_spec :
    (st.getActorID addr).2 = found (st.view addr) ∧ SameReads st (st.getActorID addr).1 := by
  have hv : st.view addr = patched (st.snaps.getActor addr) (st.root.lookup addr) := rfl
  fun_cases getActorID with
  | case4 hsn act hro =>
    rw [hsn, hro] at hv
    rw [hv]
    exact ⟨rfl, sameReads_cacheActor hv⟩
  | _ =>
    rw [hv]
    simp_all [patched, found]
    exact .refl st

theorem lookupIDinternal_spec : (st.lookupIDinternal addr).2 = resolveWith (st.view initAddress) addr ∧
      SameReads st (st.lookupIDinternal addr).1 := by
  obtain ⟨hv, hrd⟩ := getActorID_spec st initAddress
  unfold lookupIDinternal resolveWith
  rcases hg : st.getActorID initAddress with ⟨st', r⟩
  rw [hg] at hv hrd
  rcases hinit : st.view initAddress with _ | act
  · rw [hinit] at hv
    obtain rfl : r = .error .actorNotFound := hv
    exact ⟨rfl, hrd⟩
  rw [hinit] at hv
  obtain rfl : r = .ok act := hv
  dsimp only
  rcases InitLib.load act.code act.head with e | ias
  · exact ⟨rfl, hrd⟩
  dsimp only
  rcases InitLib.resolveAddress ias addr with e | found
  · exact ⟨rfl, hrd⟩
  cases found with
  | none | some a => exact ⟨rfl, hrd⟩

theorem lookupID_spec : (st.lookupID addr).2 = st.lookupVal addr ∧ SameReads st (st.lookupID addr).1 := by
  unfold lookupID
  by_cases hid : addr.protocol = .id
  · rw [if_pos hid]
    exact ⟨by simp [lookupVal, lookupOf, hid], .refl st⟩
  rw [if_neg hid]
  have hsr := st.snaps.resolveAddress_snd addr
  have hidx := sameReads_index st addr
  rcases hre : st.snaps.resolveAddress addr with ⟨snaps, r⟩
  rw [hre] at hsr hidx
  cases r with
  | some resa =>
    refine ⟨?_, hidx⟩
    exact (lookupOf_cached hid hsr.symm).symm
  | none =>
    have hlk : st.lookupVal addr = resolveWith (st.view initAddress) addr :=
      lookupOf_uncached hid hsr.symm
    dsimp only
    obtain ⟨hv, hrd⟩ := lookupIDinternal_spec { st with snaps } addr
    have htr := hidx.trans hrd
    rw [hidx.view, ← hlk] at hv
    rcases hint : lookupIDinternal { st with snaps } addr with ⟨st', r'⟩
    rw [hint] at hv htr
    rcases r' with e | a
    · exact ⟨hv, htr⟩
    refine ⟨hv, htr.trans (sameReads_cacheResolve hid ?_)⟩
    rw [htr.lookup]
    exact hv.symm

theorem getActor_spec : (st.getActor addr).2 = st.actorVal addr ∧ SameReads st (st.getActor addr).1 := by
  unfold getActor actorVal actorOf
  by_cases hu : addr = .undef
  · rw [if_pos hu, if_pos hu]
    exact ⟨rfl, .refl st⟩
  rw [if_neg hu, if_neg hu]
  obtain ⟨hv, hrd⟩ := lookupID_spec st addr
  rcases hlo : st.lookupID addr with ⟨st', r⟩
  rw [hlo] at hv hrd
  rw [← hv]
  rcases r with e | iaddr
  · exact ⟨rfl, hrd⟩
  dsimp only
  obtain ⟨hfo, hrd'⟩ := getActorID_spec st' iaddr
  rw [hrd.view] at hfo
  refine ⟨?_, hrd.trans hrd'⟩
  rw [hfo]
  cases st.view iaddr with
  | none => rfl
  | some act => rfl

theorem setActor_spec (act : Actor) :
    ∃ st', SameReads st st' ∧ st.setActor addr act = match st.lookupVal addr with
        | .error e => (st', .error (.wrap "ID lookup failed" e))
        | .ok iaddr => (st'.write iaddr (some act), .ok ()) := by
  obtain ⟨hv, hrd⟩ := lookupID_spec st addr
  unfold setActor
  rcases hlo : st.lookupID addr with ⟨st', r⟩
  rw [hlo] at hv hrd
  refine ⟨st', hrd, ?_⟩
  rw [← hv]
  cases r with
  | error e => rfl
  | ok iaddr => rfl
end
end

theorem SameReads.lookupID {r} (h : SameReads st st') (hl : st'.lookupID addr = (st'', r)) :
    r = st.lookupVal addr ∧ SameReads st st'' := by
  have hs := lookupID_spec st' addr
  rw [hl, h.lookup] at hs
  exact ⟨hs.1, h.trans hs.2⟩

theorem SameReads.getActor {r} (h : SameReads st st') (hg : st'.getActor addr = (st'', r)) :
    r = st.actorVal addr ∧ SameReads st st'' := by
  have hs := getActor_spec st' addr
  rw [hg, h.actorVal] at hs
  exact ⟨hs.1, h.trans hs.2⟩

/-- What `DeleteActor` returns: the address to remove, if it finds an actor there. -/
def deleteVal (view : Address → Option Actor) (lookup : Address → Except GoError Address)
    (addr : Address) : Except GoError Address :=
  if addr = .undef then .error (.errorf "DeleteActor called on undefined address")
  else
    match lookup addr with
    | .error e => .error (resolutionError e)
    | .ok iaddr =>
      match actorOf view lookup iaddr with
      | .error e => .error e
      | .ok _ => .ok iaddr

omit [InitLib] in
theorem deleteVal_ok {view : Address → Option Actor} {lookup : Address → Except GoError Address}
    (h : deleteVal view lookup addr = .ok iaddr) : lookup addr = .ok iaddr ∧ ∃ act, actorOf view lookup iaddr = .ok act := by
  revert h
  fun_cases deleteVal with
  | case4 _ iaddr' hlk act ha =>
    rintro ⟨⟩
    exact ⟨hlk, act, ha⟩
  | _ => exact nofun

theorem deleteActor_spec (st : StateTree) (addr : Address) :
    ∃ st', SameReads st st' ∧ st.deleteActor addr = match deleteVal st.view st.lookupVal addr with
        | .error e => (st', .error e)
        | .ok iaddr => (st'.write iaddr none, .ok ()) := by
  unfold deleteActor deleteVal
  by_cases hu : addr = .undef
  · rw [if_pos hu, if_pos hu]
    exact ⟨st, .refl st, rfl⟩
  rw [if_neg hu, if_neg hu]
  rcases hlo : st.lookupID addr with ⟨st1, r⟩
  obtain ⟨hv, hrd⟩ := (SameReads.refl st).lookupID hlo
  rw [← hv]
  rcases r with e | iaddr
  · exact ⟨st1, hrd, rfl⟩
  dsimp only
  rcases hg : st1.getActor iaddr with ⟨st2, r'⟩
  obtain ⟨ha, hrd'⟩ := hrd.getActor hg
  refine ⟨st2, hrd', ?_⟩
  rw [show actorOf st.view st.lookupVal iaddr = r' from ha.symm]
  cases r' with
  | error e => rfl
  | ok act => rfl

/-! ## Writes -/

omit [InitLib] in
theorem view_write (hne : st.layers ≠ []) (iaddr : Address) (op : StreeOp) :
    (st.write iaddr op).view = Function.update st.view iaddr op := by
  obtain ⟨root, version, info, ⟨_ | ⟨l, ls⟩, last, hok⟩⟩ := st
  · exact absurd rfl hne
  funext a
  show viewOf root ({ l with actors := l.actors.insert iaddr op } :: ls) a = _
  rw [viewOf_setTop]
  by_cases ha : a = iaddr
  · rw [if_pos ha, ha, Function.update_self]
  · rw [if_neg ha, Function.update_of_ne ha]
    rfl

theorem lookupVal_write (st : StateTree) (iaddr : Address) (op : StreeOp) (a : Address) :
    (∃ r, st.lookupVal a = .ok r ∧ (st.write iaddr op).lookupVal a = .ok r) ∨
    (st.write iaddr op).lookupVal a = resolveIn (st.write iaddr op).view a := by
  by_cases hid : a.protocol = .id
  · exact Or.inl ⟨a, by simp [lookupVal, lookupOf, hid], by simp [lookupVal, lookupOf, hid]⟩
  have hca : searchCache (st.write iaddr op).layers a = searchCache st.layers a := by
    obtain ⟨root, version, info, ⟨_ | ⟨l, ls⟩, last, hok⟩⟩ := st
    · rfl
    · rfl
  cases hc : searchCache st.layers a with
  | none =>
    refine Or.inr ?_
    rw [lookupVal, lookupOf_uncached hid (hca.trans hc), resolveIn, if_neg hid]
    rfl
  | some r =>
    exact Or.inl ⟨r, lookupOf_cached hid hc, lookupOf_cached hid (hca.trans hc)⟩

theorem resolveWith_id (hre : ∀ s a iaddr, InitLib.resolveAddress s a = .ok (some iaddr) → iaddr.protocol = .id)
    (init : Option Actor) (a iaddr : Address) (h : resolveWith init a = .ok iaddr) : iaddr.protocol = .id := by
  revert h
  fun_cases resolveWith with
  | case5 act ias _ a' hfo =>
    rintro ⟨⟩
    exact hre _ a _ hfo
  | _ => exact nofun

omit [InitLib] in
theorem sameBelow_write (st : StateTree) (iaddr : Address) (op : StreeOp) : SameBelow st (st.write iaddr op) := by
  obtain ⟨root, version, info, ⟨_ | ⟨l, ls⟩, last, hok⟩⟩ := st
  all_goals exact ⟨rfl, rfl, rfl⟩

omit [InitLib] in
theorem SameBelow.layers_ne (h : SameBelow st st') (hne : st.layers ≠ []) : st'.layers ≠ [] := by
  intro hn
  refine hne (length_eq_zero_iff.mp ?_)
  rw [← h.length, hn, length_nil]

theorem lookupVal_write_of_code (act' : Actor) (hv : st.view iaddr = some act)
    (hco : act'.code = act.code) (hhead : act'.head = act.head) : (st.write iaddr (some act')).lookupVal = st.lookupVal := by
  obtain ⟨root, version, info, ⟨_ | ⟨l, ls⟩, last, hok⟩⟩ := st
  · rfl
  funext a
  show lookupOf root ({ l with actors := l.actors.insert iaddr (some act') } :: ls) a = lookupOf root (l :: ls) a
  have hinit : resolveWith (viewOf root ({ l with actors := l.actors.insert iaddr (some act') } :: ls) initAddress) a =
      resolveWith (viewOf root (l :: ls) initAddress) a := by
    rw [viewOf_setTop]
    split
    · rename_i hi
      rw [hi, show viewOf root (l :: ls) iaddr = some act from hv]
      unfold resolveWith
      dsimp only
      rw [hco, hhead]
    · rfl
  unfold lookupOf
  rw [hinit]
  rfl

theorem actorVal_ok (h : st.actorVal addr = .ok act) : ∃ iaddr, st.lookupVal addr = .ok iaddr ∧ st.view iaddr = some act := by
  revert h
  unfold actorVal
  fun_cases actorOf with
  | case4 _ iaddr hlk act' hv =>
    rintro ⟨⟩
    exact ⟨iaddr, hlk, hv⟩
  | _ => exact nofun

variable {f : Actor → Except GoError Actor}

/-- **`MutateActor`** changes the actor at the resolved address. It fails where `GetActor` or the closure does, and then
it is a read. -/
theorem mutateActor_spec (st : StateTree) (addr : Address) (f : Actor → Except GoError Actor) :
    match st.mutateActor addr f with
    | (st', .ok ()) => ∃ iaddr act act' st1, st.lookupVal addr = .ok iaddr ∧ st.view iaddr = some act ∧
        f act = .ok act' ∧ SameReads st st1 ∧ st' = st1.write iaddr (some act')
    | (st', .error e) => SameReads st st' ∧
        (st.actorVal addr = .error e ∨ ∃ act, st.actorVal addr = .ok act ∧ f act = .error e) := by
  unfold mutateActor
  rcases hg : st.getActor addr with ⟨st1, r⟩
  obtain ⟨hva, hrd⟩ := (SameReads.refl st).getActor hg
  rcases r with e | act
  · exact ⟨hrd, Or.inl hva.symm⟩
  obtain ⟨iaddr, hlk, hv⟩ := actorVal_ok hva.symm
  dsimp only
  rcases hf : f act with e | act'
  · exact ⟨hrd, Or.inr ⟨act, hva.symm, hf⟩⟩
  obtain ⟨st2, hrd2, hset⟩ := setActor_spec st1 addr act'
  rw [hrd.lookup, hlk] at hset
  dsimp only at hset ⊢
  rw [hset]
  exact ⟨iaddr, act, act', st2, hlk, hv, hf, hrd.trans hrd2, rfl⟩

theorem mutateActor_ok (h : st.mutateActor addr f = (st', .ok ())) :
    ∃ iaddr act act' st1, st.lookupVal addr = .ok iaddr ∧ st.view iaddr = some act ∧
      f act = .ok act' ∧ SameReads st st1 ∧ st' = st1.write iaddr (some act') := by
  have hsp := mutateActor_spec st addr f
  rwa [h] at hsp

theorem mutateActor_error {e : GoError} (h : st.mutateActor addr f = (st', .error e)) :
    SameReads st st' ∧ (st.actorVal addr = .error e ∨ ∃ act, st.actorVal addr = .ok act ∧ f act = .error e) := by
  have hsp := mutateActor_spec st addr f
  rwa [h] at hsp

/-! ## A snapshot and its end -/

section
omit [InitLib]

theorem SameBelow.layers_snapshot (h : SameBelow st.snapshot st') : ∃ l, st'.layers = l :: st.layers := by
  have hb : st'.layers.tail = st.layers := h.below
  have hlen : st'.layers.length = st.layers.length + 1 := h.length
  rcases hls : st'.layers with _ | ⟨l, ls⟩
  · rw [hls, length_nil] at hlen
    omega
  rw [hls, tail_cons] at hb
  exact ⟨l, by rw [hb]⟩

theorem layers_clearSnapshot (st : StateTree) : st.clearSnapshot.layers = (pour st.layers).tail := rfl

theorem layers_revert (st : StateTree) : st.revert.layers = newStateSnapLayer :: st.layers.tail := rfl

theorem SameBelow.clearSnapshot (h : SameBelow st.snapshot st') : SameBelow st st'.clearSnapshot := by
  obtain ⟨l, hl⟩ := h.layers_snapshot
  refine ⟨h.root, ?_, ?_⟩
  · rw [layers_clearSnapshot, hl]
    cases st.layers with
    | nil => rfl
    | cons m ls => rfl
  rw [layers_clearSnapshot, hl]
  cases st.layers with
  | nil => rfl
  | cons m ls => rfl
end

theorem SameBelow.clearSnapshot_reads (h : SameBelow st.snapshot st') (hne : st.layers ≠ []) :
    st'.clearSnapshot.view = st'.view ∧ st'.clearSnapshot.lookupVal = st'.lookupVal := by
  obtain ⟨l, hl⟩ := h.layers_snapshot
  obtain ⟨m, ls, hst⟩ := exists_cons_of_ne_nil hne
  rw [hst] at hl
  have hcl : st'.clearSnapshot.layers = pourLayer l m :: ls := by
    rw [layers_clearSnapshot, hl]
    rfl
  constructor
  · show viewOf st'.root st'.clearSnapshot.layers = viewOf st'.root st'.layers
    rw [hcl, hl, viewOf_pourLayer]
  · show lookupOf st'.root st'.clearSnapshot.layers = lookupOf st'.root st'.layers
    rw [hcl, hl, lookupOf_pourLayer]

omit [InitLib] in
theorem SameBelow.layers_revert (h : SameBelow st.snapshot st') : st'.revert.clearSnapshot.layers = st.layers := by
  have hb : st'.layers.tail = st.layers := h.below
  rw [layers_clearSnapshot, StateTree.layers_revert, hb]
  rcases st.layers with _ | ⟨m, ls⟩
  · rfl
  show pourLayer newStateSnapLayer m :: ls = m :: ls
  unfold pourLayer newStateSnapLayer
  rw [assignAll_empty, assignAll_empty]

omit [InitLib] in
theorem SameBelow.revert (h : SameBelow st.snapshot st') : SameBelow st st'.revert.clearSnapshot := by
  refine ⟨h.root, ?_, ?_⟩
  all_goals rw [h.layers_revert]

theorem SameBelow.revert_reads (h : SameBelow st.snapshot st') :
    st'.revert.clearSnapshot.view = st.view ∧ st'.revert.clearSnapshot.lookupVal = st.lookupVal := by
  constructor
  · show viewOf st'.root st'.revert.clearSnapshot.layers = viewOf st.root st.layers
    rw [h.layers_revert, show st'.root = st.root from h.root]
  · show lookupOf st'.root st'.revert.clearSnapshot.layers = lookupOf st.root st.layers
    rw [h.layers_revert, show st'.root = st.root from h.root]

omit [InitLib] in
theorem view_snapshot (st : StateTree) : st.snapshot.view = st.view := viewOf_newLayer st.root st.layers

theorem lookupVal_snapshot (st : StateTree) : st.snapshot.lookupVal = st.lookupVal :=
  lookupOf_newLayer st.root st.layers

/-! ## Properties of every stack in the tree -/

/-- `P` holds of what the layers show and resolve, also after any number of them is dropped. -/
def AllStacks (P : (Address → Option Actor) → (Address → Except GoError Address) → Prop) (st : StateTree) : Prop :=
  ∀ s, s <:+ st.layers → P (viewOf st.root s) (lookupOf st.root s)

variable {P : (Address → Option Actor) → (Address → Except GoError Address) → Prop}

section
variable (h : AllStacks P st)
include h

theorem AllStacks.top : P st.view st.lookupVal := h st.layers suffix_rfl

theorem AllStacks.sameReads (hrd : SameReads st st') : AllStacks P st' := by
  intro s hs
  have hto : P st'.view st'.lookupVal := by
    rw [hrd.view, hrd.lookup]
    exact h.top
  -- a proper suffix of the layers is a suffix of the part below the top, which did not change
  rcases hls : st'.layers with _ | ⟨l', ls⟩
  · rw [hls] at hs
    rw [suffix_nil.mp hs, ← hls]
    exact hto
  rw [hls] at hs
  rcases suffix_cons_iff.mp hs with rfl | hs
  · rw [← hls]
    exact hto
  have hb : st.layers.tail = ls := by
    rw [← hrd.below, hls, tail_cons]
  rw [hrd.root]
  refine h s (hs.trans ?_)
  rw [← hb]
  exact tail_suffix st.layers

theorem AllStacks.write {op : StreeOp}
    (hto : P (st.write iaddr op).view (st.write iaddr op).lookupVal) : AllStacks P (st.write iaddr op) := by
  obtain ⟨root, version, info, ⟨_ | ⟨l, ls⟩, last, hok⟩⟩ := st
  · exact h
  intro s hs
  rcases suffix_cons_iff.mp hs with rfl | hs
  · exact hto
  · exact h s (hs.trans (suffix_cons l ls))

theorem AllStacks.snapshot : AllStacks P st.snapshot := by
  intro s hs
  rcases suffix_cons_iff.mp hs with rfl | hs
  · show P (viewOf st.root (newStateSnapLayer :: st.layers)) (lookupOf st.root (newStateSnapLayer :: st.layers))
    exact h.top
  · exact h s hs

theorem AllStacks.revert : AllStacks P st.revert := by
  intro s hs
  rcases suffix_cons_iff.mp hs with rfl | hs
  · show P (viewOf st.root (newStateSnapLayer :: st.layers.tail)) (lookupOf st.root (newStateSnapLayer :: st.layers.tail))
    rw [viewOf_newLayer, lookupOf_newLayer]
    exact h _ (tail_suffix st.layers)
  · exact h s (hs.trans (tail_suffix st.layers))

theorem AllStacks.clearSnapshot : AllStacks P st.clearSnapshot := by
  obtain ⟨root, version, info, ⟨_ | ⟨l, _ | ⟨m, ls⟩⟩, last, hok⟩⟩ := st
  · exact h
  · intro s hs
    exact h s (hs.trans (suffix_cons l []))
  intro s hs
  rcases suffix_cons_iff.mp hs with rfl | hs
  · show P (viewOf root (pourLayer l m :: ls)) (lookupOf root (pourLayer l m :: ls))
    rw [viewOf_pourLayer, lookupOf_pourLayer]
    exact h.top
  · exact h s ((hs.trans (suffix_cons m ls)).trans (suffix_cons l (m :: ls)))
end
end
end StateTree
end Lotus.State
