/-
# The tipset cache of the event system (`chain/events/tscache.go`).

The cache is a ring of cells, one for each height up to the head, with nil for null rounds (`Window`). The result `none` of a
step is a division by zero or a nil dereference; for `get` also a loop that has not ended.
-/
import Lotus.Lib.Lts
import Lotus.Lib.Ring
import Lotus.Store.Index

namespace Lotus.Events
open Lib.Ancestry Lib.Lts Store Lib.Ring Int

/-- The methods of `tsCacheAPI` that are used here. -/
structure TsCacheAPI where
  chainGetTipSetAfterHeight : Int → TipSetKey → Except GoError TipSet
  chainGetTipSetByHeight : Int → TipSetKey → Except GoError TipSet

/-- The method that `get` falls back to. -/
def TsCacheAPI.fallback (storage : TsCacheAPI) (prev : Bool) : Int → TipSetKey → Except GoError TipSet :=
  if prev then storage.chainGetTipSetByHeight else storage.chainGetTipSetAfterHeight

def normalModulo (n m : Int) : Int := (n.tmod m + m).tmod m

structure TipSetCache where
  byKey : GoMap TipSetKey TipSet
  byHeight : List (Option TipSet)
  start : Int
  len : Nat

open TipSetCache

/-- `TipSet.Equals` of two pointers. -/
def equalsPtr : Option TipSet → Option TipSet → Bool
  | none, none => true
  | some ts, some ots => ts.equals ots
  | _, _ => false

/-- `TipSet.Key` of a pointer: nil has the empty key. -/
def keyPtr : Option TipSet → TipSetKey
  | none => []
  | some ts => ts.key

namespace TipSetCache

/-! ## The code -/

def new (cap : Nat) : TipSetCache := ⟨∅, List.replicate cap none, 0, 0⟩

section
variable (tsc : TipSetCache) (storage : TsCacheAPI) (fuel : Nat) (height : Int)

/-- `tsc.byHeight[i]`. -/
def slot (i : Int) : Option TipSet := (tsc.byHeight[i.toNat]?).join

def getLoop (tsc : TipSetCache) (base direction : Int) : Nat → Int → Option (Option TipSet)
  | 0, _ => none
  | fuel + 1, i =>
    if i < tsc.len then
      match tsc.slot (normalModulo (base + i) tsc.byHeight.length) with
      | some ts => some (some ts)
      | none => getLoop tsc base direction fuel (i + direction)
    else some none

/-- `get` behind the head that the key stands for. -/
def getFrom (head : TipSet) (prev : Bool) : Option (Except GoError (Option TipSet)) :=
  let headH := head.height
  let tailH := headH - tsc.len
  if headH = height then some (.ok (some head))
  else if headH < height then some (.error (.errorf "requested epoch is in the future"))
  else if height < tailH then some ((storage.fallback prev height head.key).map some)
  else
    let direction := if prev then -1 else 1
    (tsc.getLoop (tsc.start - (headH - height)) direction fuel 0).map .ok

def get (tsk : TipSetKey) (prev : Bool) : Option (Except GoError (Option TipSet)) :=
  if tsc.len = 0 then some ((storage.fallback prev height tsk).map some)
  else if tsk = [] then
    (tsc.slot tsc.start).bind fun head => tsc.getFrom storage fuel height head prev
  else
    match tsc.byKey.lookup tsk with
    | none => some ((storage.fallback prev height tsk).map some)
    | some head => tsc.getFrom storage fuel height head prev

def chainGetTipSetByHeight (tsk : TipSetKey) : Option (Except GoError (Option TipSet)) :=
  tsc.get storage fuel height tsk true

def chainGetTipSetAfterHeight (tsk : TipSetKey) : Option (Except GoError (Option TipSet)) :=
  tsc.get storage fuel height tsk false

/-- `delete(byKey, was.Key())`, where `was` is not nil. -/
def evict (byKey : GoMap TipSetKey TipSet) : Option TipSet → GoMap TipSetKey TipSet
  | none => byKey
  | some was => byKey.erase was.key

/-- The steps of `add` for every height: the next cell is taken, its tipset forgotten. -/
def advance (v : Option TipSet) : Option TipSetCache :=
  if tsc.byHeight.length = 0 then none
  else
    let start := normalModulo (tsc.start + 1) tsc.byHeight.length
    some {
      byKey := evict tsc.byKey (tsc.slot start)
      byHeight := tsc.byHeight.set start.toNat v
      start := start
      len := if tsc.len < tsc.byHeight.length then tsc.len + 1 else tsc.len }

/-- The loop of `add` that fills in null rounds. -/
def fillNull : Nat → TipSetCache → Option TipSetCache
  | 0, tsc => some tsc
  | n + 1, tsc => (tsc.advance none).bind (fillNull n)

/-- The end of `add`, after `n` null rounds. -/
def addAfter (n : Nat) (ts : TipSet) : Option TipSetCache :=
  (fillNull n tsc).bind fun tsc =>
    (tsc.advance (some ts)).map fun tsc => { tsc with byKey := tsc.byKey.insert ts.key ts }

def add (tsc : TipSetCache) (ts : TipSet) : Option (TipSetCache × Except GoError Unit) :=
  if tsc.len > 0 then
    (tsc.slot tsc.start).bind fun best =>
      if best.height ≥ ts.height then
        some (tsc, .error (.errorf ("tipSetCache.add: expected new tipset height to be at least " ++
          toString (best.height + 1) ++ ", was " ++ toString ts.height)))
      else if best.key ≠ ts.parents then
        some (tsc, .error (.errorf ("tipSetCache.add: expected new tipset (" ++ toString ts.height ++
          ") to follow (" ++ toString best.height ++ ")")))
      else (tsc.addAfter (ts.height - (best.height + 1)).toNat ts).map fun tsc => (tsc, .ok ())
  else (tsc.addAfter 0 ts).map fun tsc => (tsc, .ok ())

/-- `tipSetCache.revertUnlocked`, for at most `len` cells. -/
def revertCells : Nat → TipSetCache → Option TipSet → TipSetCache × Except GoError Unit
  | 0, tsc, _ => (tsc, .ok ())
  | n + 1, tsc, ts =>
    let was := tsc.slot tsc.start
    if equalsPtr was ts = false then
      (tsc, .error (.errorf "tipSetCache.revert: revert tipset didn't match cache head"))
    else
      -- the error of the inner call is dropped: it ends the gap of null rounds
      ((revertCells n {
        byKey := tsc.byKey.erase (keyPtr was)
        byHeight := tsc.byHeight.set tsc.start.toNat none
        start := normalModulo (tsc.start - 1) tsc.byHeight.length
        len := n } none).1, .ok ())

def revert (ts : TipSet) : TipSetCache × Except GoError Unit :=
  revertCells tsc.len tsc (some ts)
end
end TipSetCache

inductive Notice where
  | apply (fromTs toTs : TipSet)
  | revert (fromTs toTs : TipSet)
  deriving DecidableEq

structure Cached where
  tsc : TipSetCache
  head : TipSet

namespace Cached

/-- `tipSetCacheObserver`: an error is only logged. -/
def step (s : Cached) : Notice → Option Cached
  | .apply _ toTs => (s.tsc.add toTs).map fun r => ⟨r.1, toTs⟩
  | .revert fromTs toTs => some ⟨(s.tsc.revert fromTs).1, toTs⟩

def Path (T : TipSetTree) (s : Cached) : Notice → Prop
  | .apply fromTs toTs => fromTs = s.head ∧ T.mem toTs ∧ T.parent toTs = some fromTs
  | .revert fromTs toTs => fromTs = s.head ∧ T.parent fromTs = some toTs

end Cached

/-! ## The window -/

namespace TipSetCache

def ring (tsc : TipSetCache) : Lib.Ring TipSet := ⟨tsc.byHeight, tsc.start⟩

/-- **The invariant of the ring.** The newest `len` cells hold what `R` says, and a key is that of one of them. -/
structure Window (tsc : TipSetCache) (R : Int → TipSet → Prop) : Prop where
  cap : 0 < tsc.ring.cap
  start : 0 ≤ tsc.start ∧ tsc.start < tsc.ring.cap
  len : tsc.len ≤ tsc.ring.cap
  held : ∀ (d : Int) x, 0 ≤ d → d < tsc.len → (tsc.ring.back d = some x ↔ R d x)
  beyond : ∀ d : Int, tsc.len ≤ d → d < tsc.ring.cap → tsc.ring.back d = none
  keyed : ∀ k x, tsc.byKey.lookup k = some x → x.key = k ∧ ∃ d : Int, 0 ≤ d ∧ d < tsc.len ∧ tsc.ring.back d = some x

theorem normalModulo_eq {n m : Int} (hm : 0 < m) : normalModulo n m = n % m := by
  unfold normalModulo
  have hlo : 0 ≤ n.tmod m + m := by
    have := lt_tmod_of_pos n hm
    omega
  rw [tmod_eq_emod_of_nonneg hlo, add_emod_right, tmod_def, sub_mul_emod_self_left]

variable {tsc : TipSetCache} {R : Int → TipSet → Prop}

theorem slot_normalModulo (hca : 0 < tsc.ring.cap) (i : Int) :
    tsc.slot (normalModulo i tsc.byHeight.length) = tsc.ring.cell i := by
  rw [show (tsc.byHeight.length : Int) = tsc.ring.cap from rfl, normalModulo_eq hca]
  rfl

section
variable (h : Window tsc R)
include h

theorem Window.slot_start : tsc.slot tsc.start = tsc.ring.back 0 := by
  rw [← cell_start]
  unfold slot cell
  rw [show tsc.ring.start = tsc.start from rfl, emod_eq_of_lt h.start.1 h.start.2]
  rfl

theorem Window.advance (v : Option TipSet) :
    ∃ tsc', tsc.advance v = some tsc' ∧ (tsc'.len : Int) = min (tsc.len + 1 : Int) tsc.ring.cap ∧
      tsc'.ring.cap = tsc.ring.cap ∧ Window tsc' fun d x => if d = 0 then v = some x else R (d - 1) x := by
  have hca := h.cap
  have hce : tsc.ring.cap = tsc.byHeight.length := rfl
  have hle := h.len
  have hbe : normalModulo (tsc.start + 1) tsc.byHeight.length = (tsc.start + 1) % tsc.ring.cap := normalModulo_eq hca
  have hwa : tsc.slot (normalModulo (tsc.start + 1) tsc.byHeight.length) = tsc.ring.back (tsc.ring.cap - 1) :=
    (slot_normalModulo hca _).trans (cell_start_succ tsc.ring)
  let tsc' : TipSetCache := {
    byKey := evict tsc.byKey (tsc.slot (normalModulo (tsc.start + 1) tsc.byHeight.length))
    byHeight := tsc.byHeight.set (normalModulo (tsc.start + 1) tsc.byHeight.length).toNat v
    start := normalModulo (tsc.start + 1) tsc.byHeight.length
    len := if tsc.len < tsc.byHeight.length then tsc.len + 1 else tsc.len }
  have hri : tsc'.ring = tsc.ring.push v := by
    simp only [ring, tsc', push, hbe]
  have hl' : (tsc'.len : Int) = min (tsc.len + 1 : Int) tsc.ring.cap := by
    simp only [tsc']
    split <;> omega
  have hc' : tsc'.ring.cap = tsc.ring.cap := by rw [hri, cap_push]
  refine ⟨tsc', by rw [TipSetCache.advance, if_neg (by omega)], hl', hc', ?_⟩
  refine ⟨hc' ▸ hca, ?_, by omega, ?_, ?_, ?_⟩
  · rw [hc', show tsc'.start = _ from hbe]
    exact ⟨emod_nonneg _ hca.ne', emod_lt_of_pos _ hca⟩
  · intro d x hlo hh
    rw [hri]
    by_cases hd : d = 0
    · rw [if_pos hd, hd, back_push_zero hca]
    obtain ⟨n, rfl⟩ : ∃ n, d = n + 1 := ⟨d - 1, by omega⟩
    rw [if_neg hd, back_push_succ hca v (by omega) (by omega), add_sub_cancel_right]
    exact h.held n x (by omega) (by omega)
  · intro d hlo hh
    obtain ⟨n, rfl⟩ : ∃ n, d = n + 1 := ⟨d - 1, by omega⟩
    rw [hri, back_push_succ hca v (by omega) (by omega)]
    exact h.beyond n (by omega) (by omega)
  -- the tipset in the cell that is taken is forgotten, every other one is one place further back
  intro k x hk
  have hold : tsc.byKey.lookup k = some x ∧ tsc.ring.back (tsc.ring.cap - 1) ≠ some x := by
    simp only [tsc'] at hk
    rw [hwa] at hk
    rcases hla : tsc.ring.back (tsc.ring.cap - 1) with _ | was
    · rw [hla] at hk
      exact ⟨hk, by simp⟩
    rw [hla, evict] at hk
    obtain ⟨hne, hk'⟩ := GoMap.lookup_erase_some hk
    refine ⟨hk', fun heq => hne ?_⟩
    rw [Option.some.inj heq]
    exact (h.keyed k x hk').1.symm
  obtain ⟨hke, d, hlo, hh, hb⟩ := h.keyed k x hold.1
  have hd : d ≠ tsc.ring.cap - 1 := fun heq => hold.2 (heq ▸ hb)
  refine ⟨hke, d + 1, by omega, by omega, ?_⟩
  rw [hri, back_push_succ hca v hlo (by omega), hb]

theorem Window.fillNull (n : Nat) :
    ∃ tsc', fillNull n tsc = some tsc' ∧ (tsc'.len : Int) = min (tsc.len + n : Int) tsc.ring.cap ∧
      tsc'.ring.cap = tsc.ring.cap ∧ Window tsc' fun d x => n ≤ d ∧ R (d - n) x := by
  induction n generalizing tsc R with
  | zero =>
    have := h.len
    refine ⟨tsc, rfl, by omega, rfl, h.cap, h.start, h.len, ?_, h.beyond, h.keyed⟩
    intro d x hlo hh
    simpa [hlo] using h.held d x hlo hh
  | succ n ih =>
    obtain ⟨tsc1, h1, hl1, hc1, hw1⟩ := h.advance none
    obtain ⟨tsc2, h2, hl2, hc2, hw2⟩ := ih hw1
    have := h.len
    refine ⟨tsc2, by rw [fillNull, h1, Option.bind_some, h2], by omega, by omega, hw2.cap, hw2.start,
      hw2.len, ?_, hw2.beyond, hw2.keyed⟩
    intro d x hlo hh
    rw [hw2.held d x hlo hh]
    by_cases hd : d = n
    · subst hd
      simp
    simp only [if_neg (sub_ne_zero.mpr hd), reduceCtorEq]
    have hsu : d - ((n + 1 : Nat) : Int) = d - n - 1 := by omega
    rw [hsu]
    constructor
    all_goals
      rintro ⟨hle, hR⟩
      exact ⟨by omega, hR⟩

theorem Window.addAfter (n : Nat) (ts : TipSet) :
    ∃ tsc', tsc.addAfter n ts = some tsc' ∧ (tsc'.len : Int) = min (tsc.len + n + 1 : Int) tsc.ring.cap ∧
      tsc'.ring.cap = tsc.ring.cap ∧
      Window tsc' fun d x => if d = 0 then ts = x else n + 1 ≤ d ∧ R (d - (n + 1)) x := by
  obtain ⟨tsc1, h1, hl1, hc1, hw1⟩ := h.fillNull n
  obtain ⟨tsc2, h2, hl2, hc2, hw2⟩ := hw1.advance (some ts)
  have := h.len
  refine ⟨{ tsc2 with byKey := tsc2.byKey.insert ts.key ts }, by simp [TipSetCache.addAfter, h1, h2], by dsimp only; omega,
    hc2.trans hc1, hw2.cap, hw2.start, hw2.len, ?_, hw2.beyond, ?_⟩
  · intro d x hlo hh
    refine (hw2.held d x hlo hh).trans ?_
    by_cases hd : d = 0
    · simp [hd]
    rw [if_neg hd, if_neg hd, sub_sub, add_comm 1 (n : Int)]
    constructor
    all_goals
      rintro ⟨hle, hR⟩
      exact ⟨by omega, hR⟩
  intro k x hk
  rcases GoMap.lookup_insert_some hk with ⟨rfl, rfl⟩ | ⟨-, hk⟩
  · have hpo : (0 : Int) < tsc2.len := by
      have := h.cap
      omega
    exact ⟨rfl, 0, le_rfl, hpo, (hw2.held 0 x le_rfl hpo).mpr (by simp)⟩
  · exact hw2.keyed k x hk
end

def popped (tsc : TipSetCache) (n : Nat) : TipSetCache where
  byKey := tsc.byKey.erase (keyPtr (tsc.slot tsc.start))
  byHeight := tsc.byHeight.set tsc.start.toNat none
  start := normalModulo (tsc.start - 1) tsc.byHeight.length
  len := n

theorem Window.popped (h : Window tsc R) {n : Nat} (hn : tsc.len = n + 1) : Window (tsc.popped n) fun d x => R (d + 1) x := by
  have hca := h.cap
  have hle := h.len
  have hri : (tsc.popped n).ring = tsc.ring.pop := by
    have hbe : tsc.start.toNat = (tsc.start % tsc.ring.cap).toNat := by
      rw [emod_eq_of_lt h.start.1 h.start.2]
    simp only [ring, TipSetCache.popped, pop] at hbe ⊢
    rw [hbe]
    exact congrArg _ (normalModulo_eq hca)
  have hc' : (tsc.popped n).ring.cap = tsc.ring.cap := by rw [hri, cap_pop]
  have hl' : (tsc.popped n).len = n := rfl
  refine ⟨hc' ▸ hca, ?_, by omega, ?_, ?_, ?_⟩
  · rw [hc', show (tsc.popped n).start = _ from normalModulo_eq hca]
    exact ⟨emod_nonneg _ hca.ne', emod_lt_of_pos _ hca⟩
  · intro d x hlo hh
    rw [hri, back_pop hca hlo (by omega)]
    exact h.held (d + 1) x (by omega) (by omega)
  · intro d hlo hh
    rw [hri]
    by_cases hd : d = tsc.ring.cap - 1
    · rw [hd, back_pop_last hca]
    · rw [back_pop hca (by omega) (by omega)]
      exact h.beyond (d + 1) (by omega) (by omega)
  intro k x hk
  obtain ⟨hne, hk⟩ := GoMap.lookup_erase_some hk
  obtain ⟨hke, d, hlo, hh, hb⟩ := h.keyed k x hk
  -- the newest cell is the one whose key was deleted
  have hd : d ≠ 0 := by
    rintro rfl
    apply hne
    rw [h.slot_start, hb, ← hke]
    rfl
  refine ⟨hke, d - 1, by omega, by omega, ?_⟩
  rw [hri, back_pop hca (by omega) (by omega), sub_add_cancel, hb]

theorem Window.revertNil (h : Window tsc R) {n : Nat} (hn : tsc.len = n) :
    ∃ k : Nat, k + (revertCells n tsc none).1.len = n ∧
      Window (revertCells n tsc none).1 (fun d x => R (d + k) x) ∧
      (revertCells n tsc none).1.ring.cap = tsc.ring.cap ∧
      (∀ j : Int, 0 ≤ j → j < k → ∀ x, ¬ R j x) ∧ ((revertCells n tsc none).1.len = 0 ∨ ∃ x, R k x) := by
  induction n generalizing tsc R with
  | zero => exact ⟨0, by simpa [revertCells] using hn, by simpa [revertCells] using h, rfl, by omega, .inl hn⟩
  | succ n ih =>
    have hz : ∀ x, tsc.ring.back 0 = some x ↔ R 0 x := fun x => h.held 0 x le_rfl (by omega)
    cases hb : tsc.ring.back 0 with
    | some x =>
      -- a tipset ends the gap
      have hrun : revertCells (n + 1) tsc none =
          (tsc, .error (.errorf "tipSetCache.revert: revert tipset didn't match cache head")) := by
        simp [revertCells, h.slot_start, hb, equalsPtr]
      rw [hrun]
      exact ⟨0, by simpa using hn, by simpa using h, rfl, by omega, .inr ⟨x, by simpa using (hz x).mp hb⟩⟩
    | none =>
      have hrun : (revertCells (n + 1) tsc none).1 = (revertCells n (tsc.popped n) none).1 := by
        simp [revertCells, h.slot_start, hb, equalsPtr, TipSetCache.popped]
      rw [hrun]
      obtain ⟨k, hk, hw, hca, hno, hend⟩ := ih (h.popped hn) rfl
      refine ⟨k + 1, by omega, ?_, ?_, ?_, ?_⟩
      · refine ⟨hw.cap, hw.start, hw.len, fun d x hlo hh => ?_, hw.beyond, hw.keyed⟩
        rw [hw.held d x hlo hh, show d + ((k + 1 : Nat) : Int) = d + k + 1 by omega]
      · rw [hca]
        simp [ring, TipSetCache.popped, Lib.Ring.cap]
      · intro j hlo hh x
        by_cases hj : j = 0
        · subst hj
          rw [← hz, hb]
          simp
        · have := hno (j - 1) (by omega) (by omega) x
          rwa [sub_add_cancel] at this
      rcases hend with hend | ⟨x, hx⟩
      · exact .inl hend
      · refine .inr ⟨x, ?_⟩
        rwa [show ((k + 1 : Nat) : Int) = k + 1 by omega]

end TipSetCache

/-! ## Following the chain -/

/-- What is on the chain of `head`, `d` epochs below it. -/
def Below (T : TipSetTree) (head : TipSet) (d : Int) (x : TipSet) : Prop :=
  AncOrSelf T.parent x head ∧ x.height = head.height - d

/-- **The invariant of the cache.** The cells hold the chain of the head last notified. -/
structure Cached.Follows (T : TipSetTree) (s : Cached) : Prop where
  mem : T.mem s.head
  window : s.tsc.Window (Below T s.head)

namespace Cached
open TipSetCache
variable {T : TipSetTree} {s s' : Cached}
variable {head toTs x : TipSet} {cap : Nat}

theorem new_follows (hca : 0 < cap) (hhead : T.mem head) : Follows T ⟨new cap, head⟩ := by
  have hce : (new cap).ring.cap = cap := by simp [new, ring, Lib.Ring.cap]
  have hb : ∀ d, (new cap).ring.back d = none := by
    intro d
    simp only [Lib.Ring.back, Lib.Ring.cell, ring, new, List.getElem?_replicate]
    split <;> rfl
  refine ⟨hhead, ?_, ⟨le_rfl, ?_⟩, ?_, ?_, fun d _ _ => hb d, by simp [new]⟩
  · show (0 : Int) < (new cap).ring.cap
    omega
  · show (0 : Int) < (new cap).ring.cap
    omega
  · show (0 : Int) ≤ (new cap).ring.cap
    omega
  intro d x hlo hh
  have : d < 0 := hh
  omega

variable {d : Int}

theorem below_apply (hpa : T.parent toTs = some head) : Below T toTs d x ↔
      if d = 0 then toTs = x else toTs.height - head.height ≤ d ∧ Below T head (d - (toTs.height - head.height)) x := by
  have hlt := T.height_parent toTs head hpa
  by_cases hd : d = 0
  · rw [if_pos hd, hd]
    constructor
    · rintro ⟨hanc, hheight⟩
      exact ancOrSelf_unique T.height_parent (.refl toTs) hanc (by omega)
    · rintro rfl
      exact ⟨.refl _, by omega⟩
  rw [if_neg hd]
  constructor
  · rintro ⟨hanc, hheight⟩
    rcases hanc.eq_or_parent with rfl | ⟨p, hp, hanc⟩
    · omega
    obtain rfl : head = p := Option.some.inj (hpa.symm.trans hp)
    have := hanc.height_le T.height_parent
    exact ⟨by omega, hanc, by omega⟩
  · rintro ⟨-, hanc, hheight⟩
    exact ⟨hanc.trans (.of_parent hpa), by omega⟩

theorem below_revert (hlo : 0 ≤ d) (hpa : T.parent head = some toTs) :
    Below T head (d + (head.height - toTs.height)) x ↔ Below T toTs d x := by
  have hlt := T.height_parent head toTs hpa
  rw [below_apply hpa, if_neg (by omega), add_sub_cancel_right]
  exact ⟨fun h => h.2, fun h => ⟨by omega, h⟩⟩

theorem Follows.revert (h : Follows T s) (hpa : T.parent s.head = some toTs) :
    (s.tsc.revert s.head).1.Window (Below T toTs) ∧ (s.tsc.revert s.head).1.ring.cap = s.tsc.ring.cap := by
  obtain ⟨hmem, hw⟩ := h
  have hlt := T.height_parent s.head toTs hpa
  unfold TipSetCache.revert
  rcases hlen : s.tsc.len with _ | n
  · refine ⟨⟨hw.cap, hw.start, hw.len, ?_, hw.beyond, hw.keyed⟩, rfl⟩
    intro d x hlo hh
    have : d < (s.tsc.len : Int) := hh
    omega
  have hsl : s.tsc.slot s.tsc.start = some s.head := by
    rw [hw.slot_start]
    exact (hw.held 0 s.head le_rfl (by omega)).mpr ⟨.refl _, by omega⟩
  have hrun : (revertCells (n + 1) s.tsc (some s.head)).1 = (revertCells n (s.tsc.popped n) none).1 := by
    simp [revertCells, hsl, equalsPtr, TipSet.equals_self, popped]
  obtain ⟨k, hk, hw', hca, hn, hend⟩ := (hw.popped hlen).revertNil (n := n) rfl
  rw [hrun]
  refine ⟨⟨hw'.cap, hw'.start, hw'.len, ?_, hw'.beyond, hw'.keyed⟩, ?_⟩
  · intro d x hlo hh
    rw [hw'.held d x hlo hh]
    rcases hend with hend | ⟨y, hy⟩
    · omega
    -- the gap ends at the parent
    have hg : (k : Int) + 1 = s.head.height - toTs.height := by
      have hto : ¬ s.head.height - toTs.height - 1 < k := by
        intro hb
        refine hn _ (by omega) hb toTs ⟨.of_parent hpa, by omega⟩
      rcases hy.1.eq_or_parent with rfl | ⟨p, hp, hanc⟩
      · have := hy.2
        omega
      obtain rfl : toTs = p := Option.some.inj (hpa.symm.trans hp)
      have := hanc.height_le T.height_parent
      have := hy.2
      omega
    rw [add_assoc, hg, below_revert hlo hpa]
  · rw [hca]
    simp [ring, popped, cap]

theorem Follows.step (h : Follows T s) (hk : ∀ ts p, T.mem ts → T.parent ts = some p → ts.parents = p.key)
    {n : Notice} (hn : Path T s n) : ∃ s', s.step n = some s' ∧ Follows T s' ∧ s'.tsc.ring.cap = s.tsc.ring.cap := by
  obtain ⟨hmem, hw⟩ := h
  cases n with
  | apply fromTs toTs =>
    obtain ⟨rfl, hto, hpa⟩ := hn
    have hlt := T.height_parent toTs s.head hpa
    by_cases hlen : s.tsc.len = 0
    · obtain ⟨tsc', h', hl', hc', hw'⟩ := hw.addAfter 0 toTs
      refine ⟨⟨tsc', toTs⟩, by simp [Cached.step, add, hlen, h'], ⟨hto, hw'.cap, hw'.start, hw'.len, ?_, hw'.beyond, hw'.keyed⟩,
        hc'⟩
      intro d x hlo hh
      -- the one cell that is filled
      obtain rfl : d = 0 := by
        have ho : (tsc'.len : Int) ≤ 1 := by omega
        dsimp only at hh
        omega
      rw [hw'.held 0 x le_rfl hh, below_apply hpa]
      simp
    have hsl : s.tsc.slot s.tsc.start = some s.head := by
      rw [hw.slot_start]
      exact (hw.held 0 s.head le_rfl (by omega)).mpr ⟨.refl _, by omega⟩
    obtain ⟨tsc', h', hl', hc', hw'⟩ := hw.addAfter (toTs.height - (s.head.height + 1)).toNat toTs
    refine ⟨⟨tsc', toTs⟩, ?_, ⟨hto, hw'.cap, hw'.start, hw'.len, ?_, hw'.beyond, hw'.keyed⟩, hc'⟩
    · have hke : s.head.key = toTs.parents := (hk toTs s.head hto hpa).symm
      have hpo : s.tsc.len > 0 := by omega
      simp [Cached.step, add, hpo, hsl, hke, h', not_le.mpr hlt]
    intro d x hlo hh
    have hg : ((toTs.height - (s.head.height + 1)).toNat : Int) + 1 = toTs.height - s.head.height := by omega
    rw [hw'.held d x hlo hh, below_apply hpa, hg]
  | revert fromTs toTs =>
    obtain ⟨rfl, hpa⟩ := hn
    obtain ⟨hw', hc'⟩ := Follows.revert ⟨hmem, hw⟩ hpa
    exact ⟨_, rfl, ⟨T.parent_mem s.head toTs hpa, hw'⟩, hc'⟩

theorem run_follows (hca : 0 < cap) (hhead : T.mem head)
    (hk : ∀ ts p, T.mem ts → T.parent ts = some p → ts.parents = p.key) {notices : List Notice}
    (hleg : Legal Cached.step (Path T) ⟨new cap, head⟩ notices) :
    ∃ s, run Cached.step ⟨new cap, head⟩ notices = some s ∧ Follows T s ∧ s.tsc.ring.cap = cap := by
  have hnew : (new cap).ring.cap = cap := by simp [new, ring, Lib.Ring.cap]
  refine run_progress (P := fun s => Follows T s ∧ s.tsc.ring.cap = cap) ?_ ⟨new_follows hca hhead, hnew⟩ hleg
  rintro s n ⟨h, hc⟩ hn
  obtain ⟨s', hst, h', hc'⟩ := h.step hk hn
  exact ⟨s', hst, h', hc'.trans hc⟩

end Cached
end Lotus.Events
