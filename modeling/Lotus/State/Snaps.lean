/-
# The snapshot layers of a state tree (`stateSnaps` in `chain/state/statetree.go`).

The list has the top layer at its head, so the slice index of a layer is the number of layers below it.
-/
import Lotus.Lib.Overlay
import Lotus.Types.Basic

namespace Lotus.State
open Lib.Overlay List

/-- `streeOp`: the actor written, or `none` for a `Delete`. -/
abbrev StreeOp := Option Actor

structure StateSnapLayer where
  actors : GoMap Address StreeOp
  resolveCache : GoMap Address Address
  deriving DecidableEq

def newStateSnapLayer : StateSnapLayer := ⟨∅, ∅⟩

/-- `last` is the index of a layer, or -1, and the layers above it cache no resolution. -/
def IndexOk : List StateSnapLayer → Int → Prop
  | [], last => last = -1
  | l :: ls, last => last = ls.length ∨ l.resolveCache = ∅ ∧ IndexOk ls last

theorem IndexOk.lt_length {ls : List StateSnapLayer} {last : Int} (h : IndexOk ls last) : -1 ≤ last ∧ last < ls.length := by
  induction ls with
  | nil =>
    rw [IndexOk] at h
    simp [h]
  | cons l ls ih =>
    rw [length_cons]
    push_cast
    rcases h with h | ⟨-, h⟩
    · omega
    · have := ih h
      omega

structure StateSnaps where
  layers : List StateSnapLayer
  lastMaybeNonEmptyResolveCache : Int
  indexOk : IndexOk layers lastMaybeNonEmptyResolveCache

namespace StateSnaps

/-- `newStateSnaps`: one layer, and the index at its zero value. -/
def newStateSnaps : StateSnaps := ⟨[newStateSnapLayer], 0, Or.inl rfl⟩

def addLayer (ss : StateSnaps) : StateSnaps where
  layers := newStateSnapLayer :: ss.layers
  lastMaybeNonEmptyResolveCache := ss.lastMaybeNonEmptyResolveCache
  indexOk := Or.inr ⟨rfl, ss.indexOk⟩

/-- The index after the top layer is dropped, when `n` layers remain. -/
def indexAfterDrop (last : Int) (n : Nat) : Int := if last = n then (n : Int) - 1 else last

variable {ls : List StateSnapLayer} {last : Int}

theorem indexOk_dropLayer (h : IndexOk ls last) : IndexOk ls.tail (indexAfterDrop last ls.tail.length) := by
  unfold indexAfterDrop
  match ls, h with
  | [], h =>
    rw [IndexOk] at h
    simp [h, IndexOk]
  | l :: ls, h =>
    rw [tail_cons]
    rcases h with h | ⟨-, h⟩
    · rw [if_pos h]
      cases ls with
      | nil => rfl
      | cons m ms => exact Or.inl (by rw [length_cons]; push_cast; omega)
    · rw [if_neg (by have := h.lt_length; omega)]
      exact h

def dropLayer (ss : StateSnaps) : StateSnaps where
  layers := ss.layers.tail
  lastMaybeNonEmptyResolveCache :=
    indexAfterDrop ss.lastMaybeNonEmptyResolveCache ss.layers.tail.length
  indexOk := indexOk_dropLayer ss.indexOk

/-- The two copying loops of `mergeLastLayer`. -/
def pourLayer (last nextLast : StateSnapLayer) : StateSnapLayer where
  actors := assignAll last.actors nextLast.actors
  resolveCache := assignAll last.resolveCache nextLast.resolveCache

/-- The layers after the copying loops. With fewer than two layers the source panics. -/
def pour : List StateSnapLayer → List StateSnapLayer
  | last :: nextLast :: rest => last :: pourLayer last nextLast :: rest
  | ls => ls

theorem indexOk_pour (h : IndexOk ls last) : IndexOk (pour ls) last := by
  match ls, h with
  | [], h => exact h
  | [l], h => exact h
  | l :: m :: rest, h =>
    rcases h with h | ⟨hempty, h⟩
    · exact Or.inl h
    -- nothing is copied from an empty cache
    refine Or.inr ⟨hempty, ?_⟩
    show IndexOk (pourLayer l m :: rest) last
    unfold pourLayer
    rw [hempty, assignAll_empty]
    exact h

def mergeLastLayer (ss : StateSnaps) : StateSnaps :=
  dropLayer ⟨pour ss.layers, ss.lastMaybeNonEmptyResolveCache, indexOk_pour ss.indexOk⟩

/-! ## Resolved addresses -/

/-- The loop of `resolveAddress` over the layers, from the current index down. -/
def resolveLoop (addr : Address) : List StateSnapLayer → Int → Option Address × Int
  | [], last => (none, last)
  | l :: ls, last =>
    if l.resolveCache.entries.length = 0 then
      resolveLoop addr ls (if last = ls.length then (ls.length : Int) - 1 else last)
    else
      match l.resolveCache.lookup addr with
      | some resa => (some resa, last)
      | none => resolveLoop addr ls last

variable (ls last) in
def fromIndex : List StateSnapLayer :=
  ls.drop (ls.length - (last + 1).toNat)

def searchCache (ls : List StateSnapLayer) (addr : Address) : Option Address :=
  search (ls.map (·.resolveCache)) addr

theorem searchCache_cons (l : StateSnapLayer) (ls : List StateSnapLayer) (addr : Address) :
    searchCache (l :: ls) addr = (l.resolveCache.lookup addr).or (searchCache ls addr) :=
  search_cons _ _ _

theorem eq_empty_of_length_eq_zero {m : GoMap Address Address} (h : m.entries.length = 0) : m = ∅ :=
  AList.ext (length_eq_zero_iff.mp h)

theorem resolveLoop_fst (addr : Address) (ls : List StateSnapLayer) (last : Int) :
    (resolveLoop addr ls last).1 = searchCache ls addr := by
  induction ls generalizing last with
  | nil => rfl
  | cons l ls ih =>
    rw [resolveLoop, searchCache_cons]
    split
    · rename_i hlen
      rw [eq_empty_of_length_eq_zero hlen, AList.lookup_empty, Option.none_or, ih]
    cases l.resolveCache.lookup addr with
    | some resa => rfl
    | none => rw [Option.none_or, ih]

theorem resolveLoop_snd_above (addr : Address) (h : (ls.length : Int) ≤ last) : (resolveLoop addr ls last).2 = last := by
  induction ls with
  | nil => rfl
  | cons l ls ih =>
    rw [length_cons] at h
    push_cast at h
    rw [resolveLoop, if_neg (show ¬ last = (ls.length : Int) by omega)]
    split
    · exact ih (by omega)
    cases l.resolveCache.lookup addr with
    | some resa => rfl
    | none => exact ih (by omega)

theorem indexOk_resolveLoop (addr : Address) (ls : List StateSnapLayer) :
    IndexOk ls (resolveLoop addr ls ((ls.length : Int) - 1)).2 := by
  induction ls with
  | nil => rfl
  | cons l ls ih =>
    have hla : ((l :: ls).length : Int) - 1 = ls.length := by
      rw [length_cons]
      push_cast
      omega
    rw [hla, resolveLoop, if_pos rfl]
    split
    · rename_i hlen
      exact Or.inr ⟨eq_empty_of_length_eq_zero hlen, ih⟩
    refine Or.inl ?_
    cases l.resolveCache.lookup addr with
    | some resa => rfl
    | none => exact resolveLoop_snd_above addr le_rfl

theorem fromIndex_cases {l : StateSnapLayer} (h : IndexOk (l :: ls) last) :
    (last = ls.length ∧ fromIndex (l :: ls) last = l :: ls) ∨
    (l.resolveCache = ∅ ∧ IndexOk ls last ∧ fromIndex (l :: ls) last = fromIndex ls last) := by
  rcases h with h | ⟨hempty, h⟩
  · refine Or.inl ⟨h, ?_⟩
    have hz : (l :: ls).length - (last + 1).toNat = 0 := by
      rw [length_cons]
      omega
    rw [fromIndex, hz, drop_zero]
  refine Or.inr ⟨hempty, h, ?_⟩
  have hb := h.lt_length
  have hsu : (l :: ls).length - (last + 1).toNat = ls.length - (last + 1).toNat + 1 := by
    rw [length_cons]
    omega
  rw [fromIndex, hsu, drop_succ_cons, fromIndex]

theorem searchCache_fromIndex (h : IndexOk ls last) (addr : Address) :
    searchCache (fromIndex ls last) addr = searchCache ls addr := by
  induction ls with
  | nil =>
    rw [fromIndex, drop_nil]
  | cons l ls ih =>
    rcases fromIndex_cases h with ⟨-, heq⟩ | ⟨hempty, hls, heq⟩
    · rw [heq]
    · rw [heq, ih hls, searchCache_cons, hempty, AList.lookup_empty, Option.none_or]

theorem indexOk_resolveAddress (h : IndexOk ls last) (addr : Address) :
    IndexOk ls (resolveLoop addr (fromIndex ls last) last).2 := by
  induction ls with
  | nil =>
    rw [fromIndex, drop_nil]
    exact h
  | cons l ls ih =>
    rcases fromIndex_cases h with ⟨hla, heq⟩ | ⟨hempty, hls, heq⟩
    · have hlen : last = ((l :: ls).length : Int) - 1 := by
        rw [length_cons]
        push_cast
        omega
      rw [heq, hlen]
      exact indexOk_resolveLoop addr (l :: ls)
    · rw [heq]
      exact Or.inr ⟨hempty, ih hls⟩

def resolveAddress (ss : StateSnaps) (addr : Address) : StateSnaps × Option Address :=
  let r := resolveLoop addr (fromIndex ss.layers ss.lastMaybeNonEmptyResolveCache)
    ss.lastMaybeNonEmptyResolveCache
  (⟨ss.layers, r.2, indexOk_resolveAddress ss.indexOk addr⟩, r.1)

theorem resolveAddress_snd (ss : StateSnaps) (addr : Address) : (ss.resolveAddress addr).2 = searchCache ss.layers addr := by
  show (resolveLoop addr _ _).1 = _
  rw [resolveLoop_fst, searchCache_fromIndex ss.indexOk]

def modifyTop (f : StateSnapLayer → StateSnapLayer) : List StateSnapLayer → List StateSnapLayer
  | [] => []
  | l :: ls => f l :: ls

def cacheResolveAddress (ss : StateSnaps) (addr resa : Address) : StateSnaps where
  layers := modifyTop (fun l => { l with resolveCache := l.resolveCache.insert addr resa }) ss.layers
  lastMaybeNonEmptyResolveCache := (ss.layers.length : Int) - 1
  indexOk := by
    rcases ss.layers with _ | ⟨l, ls⟩
    · rfl
    refine Or.inl ?_
    rw [length_cons]
    push_cast
    omega

/-! ## Actors -/

section
variable (ss : StateSnaps) (addr : Address)

/-- `stateSnaps.getActor`: what the topmost layer that knows the address says. -/
def getActor : Option StreeOp :=
  search (ss.layers.map (·.actors)) addr

/-- The common part of `setActor` and `deleteActor`. -/
def setOp (op : StreeOp) : StateSnaps where
  layers := modifyTop (fun l => { l with actors := l.actors.insert addr op }) ss.layers
  lastMaybeNonEmptyResolveCache := ss.lastMaybeNonEmptyResolveCache
  indexOk := by
    have h := ss.indexOk
    cases hls : ss.layers with
    | nil | cons l ls =>
      rw [hls] at h
      exact h

def setActor (act : Actor) : StateSnaps := ss.setOp addr (some act)

def deleteActor : StateSnaps := ss.setOp addr none
end
end StateSnaps
end Lotus.State
