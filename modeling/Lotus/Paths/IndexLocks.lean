/-
# Sector file locks (`storage/paths/index_locks.go`, `index_locks_util.go`).

A sector has one lock for all its file types: reader counts and a mask of the types written. A call that is refused or
cancelled never gives its reference back, so its sector stays in the table. What a call does under one mutex is one step; the
release, which takes a second under the first, is three.
-/
import Lotus.Lib.Lts
import Lotus.Types.Basic

namespace Lotus.Paths
open Lib.Lts List AList

abbrev fileTypes : Nat := 5

/-- `storiface.SectorFileType`, a Go int. -/
abbrev SectorFileType := BitVec 64

/-- An entry of `SectorFileType.All`. -/
def SectorFileType.all (t : SectorFileType) (i : Fin fileTypes) : Bool := 0 < (t &&& (1#64 <<< i.val)).toInt

structure SectorID where
  miner : UInt64
  number : UInt64
deriving DecidableEq

/-- `sectorLock`, with the channel of its condition. -/
structure SectorLock where
  notif : Option Nat
  r : Fin fileTypes → Nat
  w : SectorFileType
  refs : Nat

namespace SectorLock

/-- `&sectorLock{}` with a new condition. -/
def new : SectorLock := ⟨none, fun _ => 0, 0, 0⟩

section
variable (l : SectorLock) (read write : SectorFileType)

def canLock : Bool :=
  (∀ i, ¬ (SectorFileType.all write i = true ∧ l.r i > 0)) && (l.w &&& read == 0 && l.w &&& write == 0)

def tryLock : SectorLock × Bool :=
  if l.canLock read write then
    ({ l with r := fun i => if SectorFileType.all read i then l.r i + 1 else l.r i, w := l.w ||| write }, true)
  else (l, false)

/-- `unlock`, without its broadcast. -/
def unlock : SectorLock :=
  { l with r := fun i => if SectorFileType.all read i then l.r i - 1 else l.r i, w := l.w &&& ~~~write }
end
end SectorLock

/-- The functions that `lockWith` is called with. -/
inductive LockFn where
  | lock
  | tryLockSafe
deriving DecidableEq

/-- A call has a reference; it waits; it holds its types, up to the `unlock`; it has only the reference left; it has
returned. -/
inductive Pc where
  | entered
  | waiting (chan : Nat)
  | held
  | releasing
  | unlocked
  | returned
deriving DecidableEq

/-- A call of `lockWith` and its goroutine. -/
structure Call where
  ctx : Nat
  lockFn : LockFn
  sector : SectorID
  read : SectorFileType
  write : SectorFileType
  slk : Nat
  pc : Pc

def Call.holds (c : Call) : Bool := c.pc == .held || c.pc == .releasing

def Call.live (c : Call) : Bool := c.pc != .returned

/-- `indexLocks` with the memory, the channels, the contexts and the calls; the locks are in `heap`. -/
structure IndexLocks where
  lk : Option Nat
  locks : GoMap SectorID Nat
  heap : List SectorLock
  chans : Nat
  closed : List Nat
  done : List Nat
  calls : List Call

namespace IndexLocks

/-- `attempt` is the work under the mutex of the sector lock, up to the next wait; `cancelled` is a wait that ends with the
context, `cancel` the end of a context. -/
inductive Label where
  | lockWith (ctx : Nat) (lockFn : LockFn) (sector : SectorID) (read write : SectorFileType)
  | attempt (id : Nat)
  | cancelled (id : Nat)
  | cancel (ctx : Nat)
  | release (id : Nat)

def new : IndexLocks := ⟨none, ∅, [], 0, [], [], []⟩

section
variable (s : IndexLocks) (id : Nat) (c : Call) (l : SectorLock)

def setPc (pc : Pc) : IndexLocks :=
  { s with calls := s.calls.set id { c with pc := pc } }

section
variable (ctx : Nat) (lockFn : LockFn) (sector : SectorID) (read write : SectorFileType)

/-- The part of `lockWith` under the mutex of the map. -/
def enter : IndexLocks :=
  match s.locks.lookup sector with
  | some p =>
    { s with
      heap := s.heap.modify p fun l => { l with refs := l.refs + 1 }
      calls := s.calls ++ [⟨ctx, lockFn, sector, read, write, p, .entered⟩] }
  | none =>
    { s with
      locks := s.locks.insert sector s.heap.length
      heap := s.heap ++ [{ SectorLock.new with refs := 1 }]
      calls := s.calls ++ [⟨ctx, lockFn, sector, read, write, s.heap.length, .entered⟩] }

/-- `lockWith` up to the call of its function. -/
def lockWith : Option IndexLocks :=
  if read ||| write = 0 then some s
  -- unknown file types specified
  else if (2 ^ fileTypes - 1 : Int) < (read ||| write).toInt then some s
  else if s.lk = none then some (s.enter ctx lockFn sector read write)
  else none
end

/-- `ctxCond.Wait` up to its select. -/
def wait : IndexLocks :=
  match l.notif with
  | some chan => s.setPc id c (.waiting chan)
  | none => { s with heap := s.heap.set c.slk { l with notif := some s.chans }, chans := s.chans + 1 }.setPc id c
      (.waiting s.chans)

/-- `tryLockSafe`, or one round of the loop of `lock`. -/
def attempt : IndexLocks :=
  match l.tryLock c.read c.write with
  | (l, true) => { s with heap := s.heap.set c.slk l }.setPc id c .held
  | (l, false) =>
    match c.lockFn with
    | .tryLockSafe => s.setPc id c .returned
    | .lock => s.wait id c l

/-- `unlock` with its broadcast. -/
def unlock (s : IndexLocks) (id : Nat) (c : Call) (l : SectorLock) : IndexLocks :=
  { s with
    heap := s.heap.set c.slk { l.unlock c.read c.write with notif := none }
    closed := l.notif.toList ++ s.closed }.setPc id c .unlocked

def deref : IndexLocks :=
  { s with
    lk := none
    heap := s.heap.set c.slk { l with refs := l.refs - 1 }
    locks := if l.refs - 1 = 0 then s.locks.erase c.sector else s.locks }.setPc id c .returned

def find : Option (Call × SectorLock) :=
  (s.calls[id]?).bind fun c => (s.heap[c.slk]?).map fun l => (c, l)

def step : Label → Option IndexLocks
  | .lockWith ctx lockFn sector read write => s.lockWith ctx lockFn sector read write
  | .attempt id => (s.find id).bind fun (c, l) =>
    match c.pc with
    | .entered => some (s.attempt id c l)
    | .waiting chan => if chan ∈ s.closed then some (s.attempt id c l) else none
    | _ => none
  | .cancelled id => (s.find id).bind fun (c, _) =>
    match c.pc with
    | .waiting _ => if c.ctx ∈ s.done then some (s.setPc id c .returned) else none
    | _ => none
  | .cancel ctx => some { s with done := ctx :: s.done }
  | .release id => (s.find id).bind fun (c, l) =>
    match c.pc with
    | .held => if c.ctx ∈ s.done ∧ s.lk = none then some ({ s with lk := some id }.setPc id c .releasing) else none
    | .releasing => some (s.unlock id c l)
    | .unlocked => some (s.deref id c l)
    | _ => none
end
end IndexLocks

theorem SectorFileType.all_eq (t : SectorFileType) (i : Fin fileTypes) : SectorFileType.all t i = t.getLsbD i := by
  have ho : (1#64 <<< i.val) = BitVec.twoPow 64 i := rfl
  rw [SectorFileType.all, ho, BitVec.and_twoPow]
  cases t.getLsbD i with
  | false => simp
  | true => revert i; decide

theorem Call.live_of_holds {c : Call} (h : c.holds = true) : c.live = true := by
  cases hpc : c.pc <;> simp [Call.holds, Call.live, hpc] at h ⊢

theorem countP_set_of_getElem? {α : Type*} (p : α → Bool) {l : List α} {i : Nat} {a b : α} (h : l[i]? = some a) :
    (l.set i b).countP p + (p a).toNat = l.countP p + (p b).toNat := by
  induction l generalizing i with
  | nil => simp at h
  | cons x l ih =>
    rcases i with _ | i
    · obtain rfl : x = a := by simpa using h
      simp only [set_cons_zero, countP_cons]
      cases p x <;> cases p b <;> simp
    have := ih (i := i) (by simpa using h)
    simp only [set_cons_succ, countP_cons]
    omega

/-! ## The table -/

structure Table (locks : GoMap SectorID Nat) (heap : List SectorLock) (calls : List Call) : Prop where
  entry : ∀ c ∈ calls, c.live = true → locks.lookup c.sector = some c.slk
  alloc : ∀ sector p, locks.lookup sector = some p → p < heap.length
  injective : ∀ sector sector' p, locks.lookup sector = some p → locks.lookup sector' = some p → sector = sector'
  refs : ∀ p l, heap[p]? = some l → calls.countP (fun c => c.live && c.slk == p) ≤ l.refs

variable {locks : GoMap SectorID Nat} {heap heap' : List SectorLock} {calls : List Call} {id : Nat} {c : Call}
  {l l' : SectorLock} {pc : Pc}

theorem Table.set (h : Table locks heap calls) (hc : calls[id]? = some c) (hlive : c.live = true)
    (hl : heap[c.slk]? = some l) (hh : ∀ p, heap'[p]? = if p = c.slk then some l' else heap[p]?)
    (hre : l.refs ≤ l'.refs + (!({ c with pc := pc } : Call).live).toNat) :
    Table locks heap' (calls.set id { c with pc := pc }) := by
  refine ⟨fun c' hc' hl' => ?_, fun sector p hp => ?_, h.injective, fun p lp hp => ?_⟩
  · rcases mem_or_eq_of_mem_set hc' with hold | rfl
    · exact h.entry c' hold hl'
    · exact h.entry c (mem_of_getElem? hc) hlive
  · have hlt := h.alloc sector p hp
    by_contra hge
    have hn : heap'[p]? = none := getElem?_eq_none (not_lt.mp hge)
    rw [hh, getElem?_eq_getElem hlt] at hn
    split_ifs at hn
  have hco := countP_set_of_getElem? (fun c => c.live && c.slk == p) (b := { c with pc := pc }) hc
  rw [hh] at hp
  by_cases heq : p = c.slk
  · subst heq
    rw [if_pos rfl] at hp
    cases hp
    have hold := h.refs c.slk l hl
    simp only [beq_self_eq_true, Bool.and_true, hlive, Bool.toNat_true] at hco
    generalize ({ c with pc := pc } : Call).live = live at hco hre
    cases live <;> simp only [Bool.not_true, Bool.not_false, Bool.toNat_false, Bool.toNat_true] at hco hre <;> omega
  rw [if_neg heq] at hp
  have hfa : (c.slk == p) = false := by simpa using fun h => heq h.symm
  simp only [hfa, Bool.and_false, Bool.toNat_false, Nat.add_zero] at hco
  rw [hco]
  exact h.refs p lp hp

theorem Table.erase (h : Table locks heap calls) {sector : SectorID} {p : Nat} (hp : locks.lookup sector = some p)
    (hl : heap[p]? = some l) (hz : l.refs = 0) : Table (locks.erase sector) heap calls := by
  refine ⟨fun c hc hlive => ?_, fun sector' q hq => h.alloc sector' q (GoMap.lookup_erase_some hq).2,
    fun a b q ha hb => h.injective a b q (GoMap.lookup_erase_some ha).2 (GoMap.lookup_erase_some hb).2, h.refs⟩
  have hent := h.entry c hc hlive
  -- a call of the deleted entry would be counted
  have hne : c.sector ≠ sector := by
    rintro rfl
    cases hent.symm.trans hp
    have hco := h.refs c.slk l hl
    rw [hz, Nat.le_zero, countP_eq_zero] at hco
    exact hco c hc (by simp [hlive])
  rw [lookup_erase_ne hne]
  exact hent

/-! ## The masks -/

def Call.holdsAt (c : Call) (p : Nat) : Bool := c.holds && c.slk == p

/-- Neither call writes what the other one reads or writes. -/
def Call.Excludes (a b : Call) : Prop :=
  ∀ i, SectorFileType.all a.write i = true → SectorFileType.all b.write i = false ∧ SectorFileType.all b.read i = false

variable (heap calls) in
/-- The counts and the mask of a lock are those of its holders, which exclude each other. -/
structure Masks : Prop where
  reads : ∀ p l, heap[p]? = some l → ∀ i, l.r i = calls.countP fun c => c.holdsAt p && SectorFileType.all c.read i
  writes : ∀ p (l : SectorLock), heap[p]? = some l → ∀ i, SectorFileType.all l.w i = true ↔
    ∃ (id : Nat) (c : Call), calls[id]? = some c ∧ c.holdsAt p = true ∧ SectorFileType.all c.write i = true
  exclusive : ∀ (p id id' : Nat) (c c' : Call), id ≠ id' → calls[id]? = some c → calls[id']? = some c' → c.holdsAt p = true →
    c'.holdsAt p = true → c.Excludes c'

theorem writers_iff {i : Fin fileTypes} (hc : calls[id]? = some c) :
    (∃ (id' : Nat) (c' : Call), calls[id']? = some c' ∧ c'.holdsAt c.slk = true ∧ SectorFileType.all c'.write i = true) ↔
      (c.holds = true ∧ SectorFileType.all c.write i = true) ∨ ∃ (id' : Nat) (c' : Call), id' ≠ id ∧
        calls[id']? = some c' ∧ c'.holdsAt c.slk = true ∧ SectorFileType.all c'.write i = true := by
  constructor
  · rintro ⟨id', c', hc', hholds, hwr⟩
    by_cases hne : id' = id
    · subst hne
      cases hc.symm.trans hc'
      exact .inl ⟨by simpa [Call.holdsAt] using hholds, hwr⟩
    · exact .inr ⟨id', c', hne, hc', hholds, hwr⟩
  rintro (⟨hholds, hwr⟩ | ⟨id', c', -, hrest⟩)
  · exact ⟨id, c, hc, by simpa [Call.holdsAt] using hholds, hwr⟩
  · exact ⟨id', c', hrest⟩

theorem Masks.set (h : Masks heap calls) (hc : calls[id]? = some c) (hl : heap[c.slk]? = some l)
    (hh : ∀ p, heap'[p]? = if p = c.slk then some l' else heap[p]?)
    (hrd : ∀ i, l'.r i + (c.holds && SectorFileType.all c.read i).toNat =
      l.r i + (({ c with pc := pc } : Call).holds && SectorFileType.all c.read i).toNat)
    (hwri : ∀ i, SectorFileType.all l'.w i = true ↔
      (({ c with pc := pc } : Call).holds = true ∧ SectorFileType.all c.write i = true) ∨
        ∃ (id' : Nat) (c' : Call), id' ≠ id ∧ calls[id']? = some c' ∧ c'.holdsAt c.slk = true ∧ SectorFileType.all c'.write i = true)
    (hexc : ({ c with pc := pc } : Call).holds = true → ∀ (id' : Nat) (c' : Call), id' ≠ id → calls[id']? = some c' →
      c'.holdsAt c.slk = true → c.Excludes c' ∧ c'.Excludes c) : Masks heap' (calls.set id { c with pc := pc }) := by
  have hlt := (List.getElem?_eq_some_iff.mp hc).1
  have hse : (calls.set id { c with pc := pc })[id]? = some { c with pc := pc } := getElem?_set_self hlt
  have ho : ∀ {id'}, id' ≠ id → (calls.set id { c with pc := pc })[id']? = calls[id']? := fun hne =>
    getElem?_set_ne hne.symm
  refine ⟨fun p lp hp i => ?_, fun p lp hp i => ?_, fun p a b ca cb hab ha hb hhol hho => ?_⟩
  · have hco := countP_set_of_getElem? (fun c => c.holdsAt p && SectorFileType.all c.read i) (b := { c with pc := pc }) hc
    rw [hh] at hp
    by_cases heq : p = c.slk
    · subst heq
      rw [if_pos rfl] at hp
      cases hp
      have hold := h.reads c.slk l hl i
      have hnew := hrd i
      simp only [Call.holdsAt, beq_self_eq_true, Bool.and_true] at hco hold ⊢
      omega
    rw [if_neg heq] at hp
    have hfa : (c.slk == p) = false := by simpa using fun h => heq h.symm
    simp only [Call.holdsAt, hfa, Bool.and_false, Bool.false_and, Bool.toNat_false, Nat.add_zero] at hco
    rw [h.reads p lp hp i]
    exact hco.symm
  · rw [hh] at hp
    by_cases heq : p = c.slk
    · subst heq
      rw [if_pos rfl] at hp
      cases hp
      rw [hwri i, writers_iff hse]
      refine or_congr_right (exists₂_congr fun id' c' => and_congr_right fun hne => ?_)
      rw [ho hne]
    rw [if_neg heq] at hp
    rw [h.writes p lp hp i]
    refine exists_congr fun id' => ?_
    by_cases hne : id' = id
    · -- the call that moves is not at this lock
      rw [hne, hse, hc]
      simp [Call.holdsAt, Ne.symm heq]
    · rw [ho hne]
  -- at most one of the two is the call that moves
  have hm : ∀ {d}, (calls.set id { c with pc := pc })[id]? = some d → d.holdsAt p = true →
      d = { c with pc := pc } ∧ ({ c with pc := pc } : Call).holds = true ∧ c.slk = p := by
    intro d hd hholds
    cases hse.symm.trans hd
    simp only [Call.holdsAt, Bool.and_eq_true, beq_iff_eq] at hholds
    exact ⟨rfl, hholds⟩
  by_cases hai : a = id
  · subst hai
    obtain ⟨rfl, hholds, rfl⟩ := hm ha hhol
    exact (hexc hholds b cb hab.symm ((ho hab.symm).symm.trans hb) hho).1
  rw [ho hai] at ha
  by_cases hbi : b = id
  · subst hbi
    obtain ⟨rfl, hholds, rfl⟩ := hm hb hho
    exact (hexc hholds a ca hai ha hhol).2
  · rw [ho hbi] at hb
    exact h.exclusive p a b ca cb hab ha hb hhol hho

theorem getElem?_concat_some {α : Type*} {xs : List α} {x y : α} {i : Nat} (h : (xs ++ [x])[i]? = some y) :
    xs[i]? = some y ∨ i = xs.length ∧ y = x := by
  rw [getElem?_append] at h
  split at h
  · exact .inl h
  · obtain ⟨hi, rfl⟩ := List.getElem?_eq_some_iff.mp h
    rw [length_singleton] at hi
    exact .inr ⟨by omega, getElem_singleton hi⟩

theorem Masks.append (h : Masks heap calls) (hh : ∀ p l', heap'[p]? = some l' →
      (∃ l, heap[p]? = some l ∧ l'.r = l.r ∧ l'.w = l.w) ∨
        ((∀ i, l'.r i = 0) ∧ l'.w = 0 ∧ ∀ c ∈ calls, c.holdsAt p = false))
    (hc : c.holds = false) : Masks heap' (calls ++ [c]) := by
  have hno : ∀ p, c.holdsAt p = false := fun p => by simp [Call.holdsAt, hc]
  -- a holder is one of the old calls
  have hold : ∀ {p id' : Nat} {c' : Call}, (calls ++ [c])[id']? = some c' → c'.holdsAt p = true → calls[id']? = some c' := by
    intro p id' c' hc' hholds
    rcases getElem?_concat_some hc' with hc' | ⟨-, rfl⟩
    · exact hc'
    · rw [hno p] at hholds
      cases hholds
  have hnew : ∀ {id' : Nat} {c' : Call}, calls[id']? = some c' → (calls ++ [c])[id']? = some c' := by
    intro id' c' hc'
    exact List.getElem?_append_left (List.getElem?_eq_some_iff.mp hc').1 |>.trans hc'
  refine ⟨fun p l' hp i => ?_, fun p l' hp i => ?_, fun p a b ca cb hab ha hb hhol hho => ?_⟩
  · rw [countP_append, countP_singleton, hno p, Bool.false_and, if_neg Bool.false_ne_true, Nat.add_zero]
    rcases hh p l' hp with ⟨l, hl, hr, -⟩ | ⟨hr, -, hn⟩
    · rw [hr]
      exact h.reads p l hl i
    rw [hr i, eq_comm, countP_eq_zero]
    intro c' hc'
    simp [hn c' hc']
  · constructor
    · intro hw
      rcases hh p l' hp with ⟨l, hl, -, heq⟩ | ⟨-, hz, -⟩
      · rw [heq] at hw
        obtain ⟨id', c', hc', hrest⟩ := (h.writes p l hl i).mp hw
        exact ⟨id', c', hnew hc', hrest⟩
      · simp [hz, SectorFileType.all_eq] at hw
    rintro ⟨id', c', hc', hholds, hwr⟩
    have hc' := hold hc' hholds
    rcases hh p l' hp with ⟨l, hl, -, heq⟩ | ⟨-, -, hn⟩
    · rw [heq]
      exact (h.writes p l hl i).mpr ⟨id', c', hc', hholds, hwr⟩
    · rw [hn c' (mem_of_getElem? hc')] at hholds
      cases hholds
  · exact h.exclusive p a b ca cb hab (hold ha hhol) (hold hb hho) hhol hho

/-! ## One step -/

namespace IndexLocks

structure Inv (s : IndexLocks) : Prop where
  table : Table s.locks s.heap s.calls
  masks : Masks s.heap s.calls

variable {s : IndexLocks} {l : SectorLock}

theorem find_some {id : Nat} {c : Call} (h : s.find id = some (c, l)) :
    s.calls[id]? = some c ∧ s.heap[c.slk]? = some l := by
  obtain ⟨c', hc, hm⟩ := Option.bind_eq_some_iff.mp h
  obtain ⟨l', hl, heq⟩ := Option.map_eq_some_iff.mp hm
  cases heq
  exact ⟨hc, hl⟩

theorem getElem?_set_if {α : Type*} {xs : List α} {p : Nat} {x y : α} (hx : xs[p]? = some x) (q : Nat) :
    (xs.set p y)[q]? = if q = p then some y else xs[q]? := by
  rw [getElem?_set]
  obtain ⟨hlt, -⟩ := List.getElem?_eq_some_iff.mp hx
  by_cases heq : q = p
  · simp [heq, hlt]
  · simp [heq, Ne.symm heq]

theorem getElem?_self_if {α : Type*} {xs : List α} {p : Nat} {x : α} (hx : xs[p]? = some x) (q : Nat) :
    xs[q]? = if q = p then some x else xs[q]? := by
  split_ifs with hq
  · rw [hq, hx]
  · rfl

theorem Inv.idle (h : Inv s) {id : Nat} {c : Call} (hfind : s.find id = some (c, l))
    (hlive : c.live = true) (hholds : c.holds = false) (pc : Pc) (hpc : ({ c with pc := pc } : Call).holds = false)
    (heap' : List SectorLock) (l' : SectorLock) (hh : ∀ p, heap'[p]? = if p = c.slk then some l' else s.heap[p]?)
    (hr : l'.r = l.r) (hw : l'.w = l.w) (hre : l.refs ≤ l'.refs + (!({ c with pc := pc } : Call).live).toNat) :
    Table s.locks heap' (s.calls.set id { c with pc := pc }) ∧ Masks heap' (s.calls.set id { c with pc := pc }) := by
  obtain ⟨hc, hl⟩ := find_some hfind
  refine ⟨h.table.set hc hlive hl hh hre, h.masks.set hc hl hh (fun i => ?_) (fun i => ?_) fun hb => ?_⟩
  · rw [hholds, hpc, hr]
  · rw [hw, h.masks.writes c.slk l hl i, writers_iff hc, hholds, hpc]
  · rw [hpc] at hb
    cases hb

theorem canLock_spec {read write : SectorFileType} (h : l.canLock read write = true) (i : Fin fileTypes) :
    (SectorFileType.all write i = true → l.r i = 0) ∧
      (SectorFileType.all l.w i = true → SectorFileType.all read i = false ∧ SectorFileType.all write i = false) := by
  simp only [SectorLock.canLock, Bool.and_eq_true, decide_eq_true_eq, beq_iff_eq] at h
  obtain ⟨hr, hre, hwr⟩ := h
  refine ⟨fun hw => ?_, fun hw => ⟨?_, ?_⟩⟩
  · have := hr i
    simp only [hw, true_and] at this
    omega
  · have := congrArg (fun m : BitVec 64 => m.getLsbD i) hre
    rw [SectorFileType.all_eq] at hw ⊢
    simpa [hw] using this
  have := congrArg (fun m : BitVec 64 => m.getLsbD i) hwr
  rw [SectorFileType.all_eq] at hw ⊢
  simpa [hw] using this

section
variable {c : Call} {l : SectorLock} {id : Nat} (h : Inv s) (hfind : s.find id = some (c, l)) (hlive : c.live = true)
  (hholds : c.holds = false)
include h hfind hlive hholds

theorem Inv.grant (hca : l.canLock c.read c.write = true) : Inv ({ s with heap := s.heap.set c.slk { l with
      r := fun i => if SectorFileType.all c.read i then l.r i + 1 else l.r i
      w := l.w ||| c.write } }.setPc id c .held) := by
  obtain ⟨hc, hl⟩ := find_some hfind
  refine ⟨h.table.set hc hlive hl (getElem?_set_if hl) (Nat.le_add_right _ _),
    h.masks.set hc hl (getElem?_set_if hl) (fun i => ?_) (fun i => ?_) fun _ id' c' hne hc' hh' => ?_⟩
  · rw [hholds]
    show (if SectorFileType.all c.read i then l.r i + 1 else l.r i) + _ = l.r i + (true && SectorFileType.all c.read i).toNat
    cases SectorFileType.all c.read i <;> simp
  · show SectorFileType.all (l.w ||| c.write) i = true ↔ (true = true ∧ _) ∨ _
    rw [SectorFileType.all_eq, BitVec.getLsbD_or, Bool.or_eq_true, ← SectorFileType.all_eq, ← SectorFileType.all_eq,
      h.masks.writes c.slk l hl i, or_comm]
    refine or_congr (by simp) ?_
    rw [writers_iff hc, hholds]
    simp only [Bool.false_eq_true, false_and, false_or]
  refine ⟨fun i hwr => ⟨?_, ?_⟩, fun i hwr => ?_⟩
  · -- a type that another call writes is in the mask
    by_contra ho
    have hw := (h.masks.writes c.slk l hl i).mpr ⟨id', c', hc', hh', by simpa using ho⟩
    have hn := ((canLock_spec hca i).2 hw).2
    rw [hwr] at hn
    cases hn
  · have hz := (canLock_spec hca i).1 hwr
    rw [h.masks.reads c.slk l hl i, countP_eq_zero] at hz
    simpa [hh'] using hz c' (mem_of_getElem? hc')
  · have hw := (h.masks.writes c.slk l hl i).mpr ⟨id', c', hc', hh', hwr⟩
    exact ((canLock_spec hca i).2 hw).symm

theorem Inv.wait : Inv (s.wait id c l) := by
  obtain ⟨hc, hl⟩ := find_some hfind
  unfold IndexLocks.wait
  cases l.notif with
  | some chan =>
    obtain ⟨hta, hm⟩ := h.idle hfind hlive hholds (.waiting chan) rfl s.heap l (getElem?_self_if hl) rfl rfl
      (Nat.le_add_right _ _)
    exact ⟨hta, hm⟩
  | none =>
    obtain ⟨hta, hm⟩ := h.idle hfind hlive hholds (.waiting s.chans) rfl _ { l with notif := some s.chans }
      (getElem?_set_if hl) rfl rfl (Nat.le_add_right _ _)
    exact ⟨hta, hm⟩

theorem Inv.returned : Inv (s.setPc id c .returned) := by
  obtain ⟨hc, hl⟩ := find_some hfind
  obtain ⟨hta, hm⟩ := h.idle hfind hlive hholds .returned rfl s.heap l (getElem?_self_if hl) rfl rfl (Nat.le_add_right _ _)
  exact ⟨hta, hm⟩

theorem Inv.attempt : Inv (s.attempt id c l) := by
  unfold IndexLocks.attempt SectorLock.tryLock
  by_cases hca : l.canLock c.read c.write = true
  · rw [if_pos hca]
    exact h.grant hfind hlive hholds hca
  rw [if_neg hca]
  cases c.lockFn with
  | tryLockSafe => exact h.returned hfind hlive hholds
  | lock => exact h.wait hfind hlive hholds
end

section
variable {c : Call} {l : SectorLock} {id : Nat} (h : Inv s) (hfind : s.find id = some (c, l))
include h hfind

theorem Inv.beginRelease (hpc : c.pc = .held) : Inv ({ s with lk := some id }.setPc id c .releasing) := by
  obtain ⟨hc, hl⟩ := find_some hfind
  have hh := getElem?_self_if hl
  have hlive : c.live = true := by simp [Call.live, hpc]
  have hholds : c.holds = true := by simp [Call.holds, hpc]
  have hat : c.holdsAt c.slk = true := by simp [Call.holdsAt, hholds]
  refine ⟨h.table.set hc hlive hl hh (Nat.le_add_right _ _), h.masks.set hc hl hh (fun i => ?_) (fun i => ?_)
    fun _ id' c' hne hc' hh' => ?_⟩
  · rw [hholds]
    rfl
  · rw [h.masks.writes c.slk l hl i, writers_iff hc, hholds]
    rfl
  · exact ⟨h.masks.exclusive c.slk id id' c c' (Ne.symm hne) hc hc' hat hh',
      h.masks.exclusive c.slk id' id c' c hne hc' hc hh' hat⟩

theorem Inv.unlock (hpc : c.pc = .releasing) : Inv (s.unlock id c l) := by
  obtain ⟨hc, hl⟩ := find_some hfind
  have hlive : c.live = true := by simp [Call.live, hpc]
  have hholds : c.holds = true := by simp [Call.holds, hpc]
  have hat : c.holdsAt c.slk = true := by simp [Call.holdsAt, hholds]
  refine ⟨h.table.set hc hlive hl (getElem?_set_if hl) (Nat.le_add_right _ _),
    h.masks.set hc hl (getElem?_set_if hl) (fun i => ?_) (fun i => ?_) fun hb => by cases hb⟩
  · rw [hholds]
    show (if SectorFileType.all c.read i then l.r i - 1 else l.r i) + (true && SectorFileType.all c.read i).toNat = l.r i + 0
    rcases hre : SectorFileType.all c.read i with _ | _
    · simp
    -- the call itself is counted
    have hpo : 0 < l.r i := by
      rw [h.masks.reads c.slk l hl i, countP_pos_iff]
      exact ⟨c, mem_of_getElem? hc, by simp [hat, hre]⟩
    simp only [if_true, Bool.and_self, Bool.toNat_true]
    omega
  show SectorFileType.all (l.w &&& ~~~c.write) i = true ↔ (false = true ∧ _) ∨ _
  have hlt : i.val < 64 := lt_of_lt_of_le i.isLt (by decide)
  rw [SectorFileType.all_eq, BitVec.getLsbD_and, BitVec.getLsbD_not, Bool.and_eq_true, ← SectorFileType.all_eq,
    ← SectorFileType.all_eq, h.masks.writes c.slk l hl i, writers_iff hc]
  simp only [hlt, decide_true, Bool.true_and, Bool.not_eq_true', Bool.false_eq_true, false_and, false_or]
  constructor
  · rintro ⟨⟨-, hwr⟩ | hrest, hn⟩
    · rw [hn] at hwr
      cases hwr
    · exact hrest
  · rintro ⟨id', c', hne, hc', hh', hwr⟩
    exact ⟨.inr ⟨id', c', hne, hc', hh', hwr⟩, (h.masks.exclusive c.slk id' id c' c hne hc' hc hh' hat i hwr).1⟩

theorem Inv.deref (hpc : c.pc = .unlocked) : Inv (s.deref id c l) := by
  obtain ⟨hc, hl⟩ := find_some hfind
  have hlive : c.live = true := by simp [Call.live, hpc]
  have hholds : c.holds = false := by simp [Call.holds, hpc]
  obtain ⟨hta, hm⟩ := h.idle hfind hlive hholds .returned rfl _ { l with refs := l.refs - 1 }
    (getElem?_set_if hl) rfl rfl (show l.refs ≤ l.refs - 1 + 1 by omega)
  refine ⟨?_, hm⟩
  show Table (if l.refs - 1 = 0 then s.locks.erase c.sector else s.locks) _ _
  split_ifs with hz
  · have hnew : (s.heap.set c.slk { l with refs := l.refs - 1 })[c.slk]? = some { l with refs := l.refs - 1 } := by
      rw [getElem?_set_if hl, if_pos rfl]
    exact hta.erase (h.table.entry c (mem_of_getElem? hc) hlive) hnew hz
  · exact hta
end

theorem Inv.enter (h : Inv s) (ctx : Nat) (lockFn : LockFn) (sector : SectorID) (read write : SectorFileType) :
    Inv (s.enter ctx lockFn sector read write) := by
  unfold IndexLocks.enter
  cases hlo : s.locks.lookup sector with
  | some p =>
    have hm : ∀ q l', (s.heap.modify p fun l => { l with refs := l.refs + 1 })[q]? = some l' →
        ∃ l, s.heap[q]? = some l ∧ l'.r = l.r ∧ l'.w = l.w ∧ l'.refs = l.refs + (p == q).toNat := by
      intro q l' hq
      rw [getElem?_modify] at hq
      obtain ⟨l, hl, heq⟩ := Option.map_eq_some_iff.mp hq
      refine ⟨l, hl, ?_⟩
      by_cases hpq : p = q
      · rw [if_pos hpq] at heq
        subst heq hpq
        simp
      rw [if_neg hpq] at heq
      subst heq
      simp [hpq]
    refine ⟨⟨fun c hc hlive => ?_, fun sector' q hq => ?_, h.table.injective, fun q l' hq => ?_⟩,
      h.masks.append (fun q l' hq => ?_) rfl⟩
    · rcases mem_append.mp hc with hc | hc
      · exact h.table.entry c hc hlive
      · obtain rfl := mem_singleton.mp hc
        exact hlo
    · rw [length_modify]
      exact h.table.alloc sector' q hq
    · obtain ⟨l, hl, -, -, hre⟩ := hm q l' hq
      have hold := h.table.refs q l hl
      rw [countP_append, countP_singleton, hre]
      show _ + (if (p == q) = true then 1 else 0) ≤ _
      cases p == q with
      | true => exact Nat.add_le_add_right hold 1
      | false => exact hold
    · obtain ⟨l, hl, hr, hw, -⟩ := hm q l' hq
      exact .inl ⟨l, hl, hr, hw⟩
  | none =>
    -- nobody uses the new lock
    have hfr : ∀ c ∈ s.calls, c.live = true → c.slk ≠ s.heap.length := by
      intro c hc hlive heq
      have hlt := h.table.alloc c.sector c.slk (h.table.entry c hc hlive)
      omega
    refine ⟨⟨fun c hc hlive => ?_, fun sector' q hq => ?_, fun a b q ha hb => ?_, fun q l' hq => ?_⟩,
      h.masks.append (fun q l' hq => ?_) rfl⟩
    · rcases mem_append.mp hc with hc | hc
      · have hent := h.table.entry c hc hlive
        have hne : c.sector ≠ sector := by
          intro heq
          rw [heq, hlo] at hent
          cases hent
        rw [lookup_insert_ne hne]
        exact hent
      · obtain rfl := mem_singleton.mp hc
        exact lookup_insert _
    · rw [length_append, length_singleton]
      rcases GoMap.lookup_insert_some hq with ⟨-, rfl⟩ | ⟨-, hq⟩
      · exact Nat.lt_succ_self _
      · exact Nat.lt_succ_of_lt (h.table.alloc sector' q hq)
    · rcases GoMap.lookup_insert_some ha with ⟨hea, rfl⟩ | ⟨-, ha'⟩ <;>
        rcases GoMap.lookup_insert_some hb with ⟨heb, hq⟩ | ⟨-, hb'⟩
      · rw [hea, heb]
      · exact absurd (h.table.alloc b _ hb') (lt_irrefl _)
      · exact absurd (hq ▸ h.table.alloc a _ ha') (lt_irrefl _)
      · exact h.table.injective a b q ha' hb'
    · rw [countP_append, countP_singleton]
      rcases getElem?_concat_some hq with hold | ⟨rfl, rfl⟩
      · have hlt := (List.getElem?_eq_some_iff.mp hold).1
        have hne : (s.heap.length == q) = false := by simp; omega
        simp only [hne, Bool.and_false, Bool.false_eq_true, if_false, Nat.add_zero]
        exact h.table.refs q l' hold
      have hz : s.calls.countP (fun c => c.live && c.slk == s.heap.length) = 0 := by
        rw [countP_eq_zero]
        intro c hc hba
        simp only [Bool.and_eq_true, beq_iff_eq] at hba
        exact hfr c hc hba.1 hba.2
      rw [hz, Nat.zero_add]
      split_ifs <;> simp
    rcases getElem?_concat_some hq with hold | ⟨rfl, rfl⟩
    · exact .inl ⟨l', hold, rfl, rfl⟩
    refine .inr ⟨fun _ => rfl, rfl, fun c hc => ?_⟩
    by_contra hba
    simp only [Call.holdsAt, Bool.not_eq_false, Bool.and_eq_true, beq_iff_eq] at hba
    exact hfr c hc (Call.live_of_holds hba.1) hba.2

inductive Move (s : IndexLocks) : Label → IndexLocks → Prop
  | rejected {ctx lockFn sector read write} : Move s (.lockWith ctx lockFn sector read write) s
  | enter {ctx lockFn sector read write} :
    Move s (.lockWith ctx lockFn sector read write) (s.enter ctx lockFn sector read write)
  | attempt {i d k} (hfind : s.find i = some (d, k)) (hlive : d.live = true) (hholds : d.holds = false) :
    Move s (.attempt i) (s.attempt i d k)
  | cancelled {i d k} (hfind : s.find i = some (d, k)) (hlive : d.live = true) (hholds : d.holds = false) :
    Move s (.cancelled i) (s.setPc i d .returned)
  | cancel {ctx} : Move s (.cancel ctx) { s with done := ctx :: s.done }
  | beginRelease {i d k} (hfind : s.find i = some (d, k)) (hpc : d.pc = .held) :
    Move s (.release i) ({ s with lk := some i }.setPc i d .releasing)
  | unlock {i d k} (hfind : s.find i = some (d, k)) (hpc : d.pc = .releasing) : Move s (.release i) (s.unlock i d k)
  | deref {i d k} (hfind : s.find i = some (d, k)) (hpc : d.pc = .unlocked) : Move s (.release i) (s.deref i d k)

theorem step_move {label : Label} {s' : IndexLocks} (hst : step s label = some s') : Move s label s' := by
  rcases label with ⟨ctx, lockFn, sector, read, write⟩ | id | id | ctx | id
  · simp only [IndexLocks.step, lockWith] at hst
    split_ifs at hst <;> cases hst
    · exact .rejected
    · exact .rejected
    · exact .enter
  on_goal 3 =>
    cases hst
    exact .cancel
  -- the other steps go by where the call is
  all_goals
    obtain ⟨⟨c, l⟩, hfind, hst⟩ := Option.bind_eq_some_iff.mp hst
    rcases hpc : c.pc <;> simp only [hpc, Option.ite_none_right_eq_some, Option.some.injEq, reduceCtorEq] at hst
  · exact hst ▸ .attempt hfind (by simp [Call.live, hpc]) (by simp [Call.holds, hpc])
  · exact hst.2 ▸ .attempt hfind (by simp [Call.live, hpc]) (by simp [Call.holds, hpc])
  · exact hst.2 ▸ .cancelled hfind (by simp [Call.live, hpc]) (by simp [Call.holds, hpc])
  · exact hst.2 ▸ .beginRelease hfind hpc
  · exact hst ▸ .unlock hfind hpc
  · exact hst ▸ .deref hfind hpc

theorem Inv.step (h : Inv s) {label : Label} {s' : IndexLocks} (hst : step s label = some s') : Inv s' := by
  cases step_move hst with
  | rejected => exact h
  | enter => exact h.enter ..
  | attempt hfind hlive hholds => exact h.attempt hfind hlive hholds
  | cancelled hfind hlive hholds => exact h.returned hfind hlive hholds
  | cancel => exact ⟨h.table, h.masks⟩
  | beginRelease hfind hpc => exact h.beginRelease hfind hpc
  | unlock hfind hpc => exact h.unlock hfind hpc
  | deref hfind hpc => exact h.deref hfind hpc

/-! ## Every run -/

theorem new_inv : Inv new := by
  refine ⟨⟨fun _ hc => (by cases hc), fun _ _ hp => (by cases hp), fun _ _ _ hp => (by cases hp), fun _ _ hp => ?_⟩,
    ⟨fun _ _ hp => ?_, fun _ _ hp => ?_, fun _ _ _ _ _ _ hc => ?_⟩⟩
  all_goals simp [new] at *

theorem Inv.holdsAt_eq (h : Inv s) {sector : SectorID} {p : Nat} (hp : s.locks.lookup sector = some p) {c : Call}
    (hc : c ∈ s.calls) : c.holdsAt p = (c.holds && c.sector == sector) := by
  unfold Call.holdsAt
  rcases hholds : c.holds with _ | _
  · rfl
  have hent := h.table.entry c hc (Call.live_of_holds hholds)
  rw [Bool.true_and, Bool.true_and, Bool.eq_iff_iff, beq_iff_eq, beq_iff_eq]
  constructor
  · rintro rfl
    exact h.table.injective c.sector sector c.slk hent hp
  · rintro rfl
    exact Option.some.inj (hent.symm.trans hp)

/-- **Sector file locks exclude**: no two holders write one file type or write what another reads; counts and mask are those
of the holders. -/
theorem sector_locks_exclude (labels : List Label) (s : IndexLocks) (hrun : run step new labels = some s) (sector : SectorID) :
    (∀ (a b : Nat) (ca cb : Call), a ≠ b → s.calls[a]? = some ca → s.calls[b]? = some cb → ca.holds = true →
      cb.holds = true → ca.sector = sector → cb.sector = sector → ca.Excludes cb) ∧
    (∀ c ∈ s.calls, c.holds = true → c.sector = sector → (s.locks.lookup sector).isSome) ∧
    ∀ p, s.locks.lookup sector = some p → ∃ l, s.heap[p]? = some l ∧ ∀ i,
      l.r i = s.calls.countP (fun c => c.holds && c.sector == sector && SectorFileType.all c.read i) ∧
      (SectorFileType.all l.w i = true ↔
        ∃ c ∈ s.calls, c.holds = true ∧ c.sector = sector ∧ SectorFileType.all c.write i = true) := by
  have h : Inv s := run_invariant (fun _ _ _ h hst => h.step hst) new_inv hrun
  refine ⟨fun a b ca cb hab ha hb hho hh hsa hsb => ?_, fun c hc hholds hse => ?_, fun p hp => ?_⟩
  · have hent := h.table.entry ca (mem_of_getElem? ha) (Call.live_of_holds hho)
    have hentr := h.table.entry cb (mem_of_getElem? hb) (Call.live_of_holds hh)
    rw [hsa] at hent
    rw [hsb, hent] at hentr
    have hsl : ca.slk = cb.slk := Option.some.inj hentr
    exact h.masks.exclusive ca.slk a b ca cb hab ha hb (by simp [Call.holdsAt, hho]) (by simp [Call.holdsAt, hh, hsl])
  · rw [← hse, h.table.entry c hc (Call.live_of_holds hholds)]
    rfl
  have hlt := h.table.alloc sector p hp
  have hl : s.heap[p]? = some s.heap[p] := getElem?_eq_getElem hlt
  refine ⟨s.heap[p], hl, fun i => ⟨?_, ?_⟩⟩
  · rw [h.masks.reads p _ hl i]
    refine countP_congr fun c hc => ?_
    rw [h.holdsAt_eq hp hc]
  rw [h.masks.writes p _ hl i]
  constructor
  · rintro ⟨id, c, hc, hholds, hwr⟩
    rw [h.holdsAt_eq hp (mem_of_getElem? hc), Bool.and_eq_true, beq_iff_eq] at hholds
    exact ⟨c, mem_of_getElem? hc, hholds.1, hholds.2, hwr⟩
  rintro ⟨c, hc, hholds, hse, hwr⟩
  obtain ⟨id, hid⟩ := getElem?_of_mem hc
  refine ⟨id, c, hid, ?_, hwr⟩
  rw [h.holdsAt_eq hp hc, hholds, hse, beq_self_eq_true]
  rfl

def lockLabels : List Label :=
  [.lockWith 0 .lock ⟨1, 1⟩ 1 2, .attempt 0, .lockWith 1 .tryLockSafe ⟨1, 1⟩ 0 4, .attempt 1,
    .lockWith 2 .lock ⟨1, 1⟩ 1 4, .attempt 2, .cancel 1, .release 1, .release 1, .release 1, .attempt 2]

theorem sector_locks_exclude_readers :
    ∃ s l, run step new lockLabels = some s ∧ s.heap[0]? = some l ∧ l.w = 6 ∧
      l.r 0 = s.calls.countP (fun c => c.holds && c.sector == ⟨1, 1⟩ && SectorFileType.all c.read 0) ∧ l.r 0 = 2 := by
  obtain ⟨-, -, hent⟩ := sector_locks_exclude lockLabels _ rfl ⟨1, 1⟩
  obtain ⟨l, hl, hm⟩ := hent 0 rfl
  refine ⟨_, l, rfl, hl, ?_, (hm 0).1, ?_⟩
  all_goals
    cases hl
    decide

/-! ## The references -/

section
variable (s)

def refs (sector : SectorID) : Nat :=
  match s.locks.lookup sector with
  | none => 0
  | some p => (s.heap[p]?).elim 0 (·.refs)

def pending (sector : SectorID) : Nat := s.calls.countP fun c => c.live && c.sector == sector

/-- `StorageGetLocks`: for each entry the sector, the types it is written with and the number of readers of each type. -/
def storageGetLocks : List (SectorID × (Fin fileTypes → Nat) × (Fin fileTypes → Nat)) :=
  (s.locks.entries.filterMap fun e => (s.heap[e.2]?).map fun lock =>
    (e.1, fun t => if SectorFileType.all lock.w t then 1 else 0, lock.r)).insertionSort fun i j => i.1.number ≤ j.1.number

def turnedAway : Label → List SectorID
  | .attempt id | .cancelled id => (s.calls[id]?).toList.filterMap fun c => if c.pc = .returned then some c.sector else none
  | _ => []

def stepOut (label : Label) : Option (IndexLocks × List SectorID) := (s.step label).map fun s' => (s', s'.turnedAway label)

/-- A sector has a reference for each of its calls, and for each that was turned away. -/
structure Counted (away : List SectorID) : Prop where
  inv : Inv s
  refs : ∀ sector, s.refs sector = s.pending sector + away.count sector
  pos : ∀ sector, sector ∈ s.locks → 0 < s.refs sector
end

section
variable {c : Call} {l l' : SectorLock} {id : Nat} {pc : Pc} {away : List SectorID} {s' : IndexLocks} (h : Counted s away)
  (hfind : s.find id = some (c, l)) (hlive : c.live = true) (hcalls : s'.calls = s.calls.set id { c with pc := pc })

include h in
theorem Counted.mem_iff (sector : SectorID) :
    sector ∈ s.locks ↔ (∃ c ∈ s.calls, c.live = true ∧ c.sector = sector) ∨ sector ∈ away := by
  have hpe : 0 < s.pending sector ↔ ∃ c ∈ s.calls, c.live = true ∧ c.sector = sector := by
    simp [pending, countP_pos_iff]
  rw [← hpe, ← count_pos_iff]
  have hr := h.refs sector
  constructor
  · intro hm
    have := h.pos sector hm
    omega
  · intro hpo
    by_contra hn
    have : s.refs sector = 0 := by
      unfold IndexLocks.refs
      rw [lookup_eq_none.mpr hn]
    omega

include hfind hlive hcalls in
theorem pending_set (sector : SectorID) : s'.pending sector + (c.sector == sector).toNat =
    s.pending sector + (pc != .returned && c.sector == sector).toNat := by
  have := countP_set_of_getElem? (fun c => c.live && c.sector == sector) (b := { c with pc := pc }) (find_some hfind).1
  rw [hlive, Bool.true_and] at this
  unfold pending
  rw [hcalls]
  exact this

include h hfind hlive in
theorem refs_set (s' : IndexLocks) (hlo : s'.locks = s.locks)
    (hh : ∀ p, s'.heap[p]? = if p = c.slk then some l' else s.heap[p]?) (sector : SectorID) : s'.refs sector = if sector = c.sector then l'.refs else s.refs sector := by
  have hent := h.inv.table.entry c (mem_of_getElem? (find_some hfind).1) hlive
  unfold refs
  rw [hlo]
  split_ifs with heq
  · subst heq
    rw [hent]
    simp [hh]
  rcases hp : s.locks.lookup sector with _ | p
  · rfl
  -- another sector has another lock
  have hne : p ≠ c.slk := by
    rintro rfl
    exact heq (h.inv.table.injective _ _ _ hp hent)
  simp [hh, hne]

include h hfind hlive in
theorem Counted.refs_eq : s.refs c.sector = l.refs := by
  rw [refs_set h hfind hlive s rfl (getElem?_self_if (find_some hfind).2), if_pos rfl]

include h hfind hlive hcalls in
theorem Counted.set (hinv : Inv s') (hlo : s'.locks = s.locks)
    (hh : ∀ p, s'.heap[p]? = if p = c.slk then some l' else s.heap[p]?) (hre : l'.refs = l.refs) :
    Counted s' (away ++ if pc = .returned then [c.sector] else []) := by
  have heq := h.refs_eq hfind hlive
  have hr : ∀ sector, s'.refs sector = s.refs sector := by
    intro sector
    rw [refs_set h hfind hlive s' hlo hh]
    split_ifs with hs
    · rw [hs, hre, heq]
    · rfl
  refine ⟨hinv, fun sector => ?_, fun sector hm => ?_⟩
  · have hp := pending_set hfind hlive hcalls sector
    rw [hr, h.refs sector, count_append]
    split_ifs with hpc
    · subst hpc
      rw [count_singleton]
      cases hs : c.sector == sector <;> simp [hs] at hp ⊢ <;> omega
    · rw [bne_iff_ne.mpr hpc, Bool.true_and] at hp
      rw [count_nil]
      omega
  · rw [hr]
    exact h.pos sector (hlo ▸ hm)

include h hfind in
theorem Counted.deref (hpc : c.pc = .unlocked) : Counted (s.deref id c l) away := by
  have hlive : c.live = true := by simp [Call.live, hpc]
  have hr : ∀ sector, (s.deref id c l).refs sector = if sector = c.sector then l.refs - 1 else s.refs sector := by
    intro sector
    have hkept := refs_set h hfind hlive { s with heap := s.heap.set c.slk { l with refs := l.refs - 1 } } rfl
      (getElem?_set_if (find_some hfind).2) sector
    by_cases hz : l.refs - 1 = 0
    · rcases eq_or_ne sector c.sector with rfl | hs
      · simp [IndexLocks.refs, IndexLocks.deref, setPc, hz]
      · rw [← hkept]
        simp [IndexLocks.refs, IndexLocks.deref, setPc, hz, lookup_erase_ne hs]
    · rw [← hkept]
      simp [IndexLocks.refs, IndexLocks.deref, setPc, hz]
  refine ⟨h.inv.deref hfind hpc, fun sector => ?_, fun sector hm => ?_⟩
  · have hp : (s.deref id c l).pending sector + _ = _ := pending_set hfind hlive rfl sector
    have hold := h.refs sector
    rw [hr]
    rcases eq_or_ne sector c.sector with rfl | hs
    · rw [h.refs_eq hfind hlive] at hold
      simp at hp ⊢
      omega
    · simp [beq_false_of_ne hs.symm, hs] at hp ⊢
      omega
  · rw [hr]
    by_cases hz : l.refs - 1 = 0 <;> simp only [IndexLocks.deref, setPc, hz, if_true, if_false] at hm
    · rw [if_neg (mem_erase.mp hm).1]
      exact h.pos sector (mem_erase.mp hm).2
    · split_ifs
      · omega
      · exact h.pos sector hm

include h in
theorem Counted.enter (ctx : Nat) (lockFn : LockFn) (sector : SectorID) (read write : SectorFileType) :
    Counted (s.enter ctx lockFn sector read write) away := by
  have hp : ∀ x, (s.enter ctx lockFn sector read write).pending x = s.pending x + (sector == x).toNat := by
    intro x
    unfold IndexLocks.enter pending
    cases s.locks.lookup sector <;> cases hs : sector == x <;> simp [Call.live, hs]
  have hr : ∀ x, (s.enter ctx lockFn sector read write).refs x = s.refs x + (sector == x).toNat ∧
      (x ∈ (s.enter ctx lockFn sector read write).locks → sector = x ∨ x ∈ s.locks) := by
    intro x
    unfold IndexLocks.enter IndexLocks.refs
    rcases hlo : s.locks.lookup sector with _ | p
    · rcases eq_or_ne sector x with rfl | hs
      · simp [hlo]
      have hb := beq_false_of_ne hs
      rcases hx : s.locks.lookup x with _ | q
      · simp [lookup_insert_ne hs.symm, hx, hb, eq_comm]
      · simp [lookup_insert_ne hs.symm, hx, hb, getElem?_append_left (h.inv.table.alloc x q hx), eq_comm]
    refine ⟨?_, .inr⟩
    rcases hx : s.locks.lookup x with _ | q
    · have hs : sector ≠ x := by
        rintro rfl
        cases hlo.symm.trans hx
      simp [beq_false_of_ne hs]
    rcases eq_or_ne sector x with rfl | hs
    · cases hlo.symm.trans hx
      simp [getElem?_eq_getElem (h.inv.table.alloc sector p hlo)]
    have hpq : p ≠ q := by
      rintro rfl
      exact hs (h.inv.table.injective _ _ _ hlo hx)
    simp [hpq, beq_false_of_ne hs]
  refine ⟨h.inv.enter .., fun x => ?_, fun x hm => ?_⟩
  · have := h.refs x
    rw [(hr x).1, hp]
    omega
  · rw [(hr x).1]
    rcases (hr x).2 hm with rfl | hm
    · simp
    · exact Nat.add_pos_left (h.pos x hm) _

include hfind hcalls in
theorem turnedAway_set : (s'.calls[id]?).toList.filterMap (fun c => if c.pc = .returned then some c.sector else none) =
    if pc = .returned then [c.sector] else [] := by
  rw [hcalls, getElem?_set_if (find_some hfind).1, if_pos rfl]
  by_cases hpc : pc = .returned <;> simp [hpc]

include h in
theorem Counted.step {label : Label} (hst : step s label = some s') : Counted s' (away ++ s'.turnedAway label) := by
  have hinv := h.inv.step hst
  have hkept : ∀ {id c l}, s.find id = some (c, l) → ∀ p, s.heap[p]? = if p = c.slk then some l else s.heap[p]? :=
    fun hfind => getElem?_self_if (find_some hfind).2
  rcases step_move hst with _ | _ | ⟨hfind, hlive, -⟩ | ⟨hfind, hlive, -⟩ | _ | ⟨hfind, hpc⟩ | ⟨hfind, hpc⟩ | ⟨hfind, hpc⟩
  · simpa [turnedAway] using h
  · simpa [turnedAway] using h.enter ..
  · rename_i id c l
    rw [turnedAway]
    unfold attempt SectorLock.tryLock at hinv ⊢
    by_cases hca : l.canLock c.read c.write = true <;> simp only [hca, if_true, if_false, Bool.false_eq_true] at hinv ⊢
    · rw [turnedAway_set hfind rfl]
      exact h.set hfind hlive rfl hinv rfl (getElem?_set_if (find_some hfind).2) rfl
    · rcases hfn : c.lockFn <;> simp only [hfn] at hinv ⊢
      · unfold IndexLocks.wait at hinv ⊢
        rcases hn : l.notif <;> simp only [hn] at hinv ⊢ <;> rw [turnedAway_set hfind rfl]
        · exact h.set hfind hlive rfl hinv rfl (getElem?_set_if (find_some hfind).2) rfl
        · exact h.set hfind hlive rfl hinv rfl (hkept hfind) rfl
      · rw [turnedAway_set hfind rfl]
        exact h.set hfind hlive rfl hinv rfl (hkept hfind) rfl
  · rw [turnedAway, turnedAway_set hfind rfl]
    exact h.set hfind hlive rfl hinv rfl (hkept hfind) rfl
  · simpa [turnedAway] using ⟨hinv, h.refs, h.pos⟩
  · exact h.set hfind (by simp [Call.live, hpc]) rfl hinv rfl (hkept hfind) rfl
  · exact h.set hfind (by simp [Call.live, hpc]) rfl hinv rfl (getElem?_set_if (find_some hfind).2) rfl
  · simpa [turnedAway] using h.deref hfind hpc
end

theorem Inv.mem_storageGetLocks (h : Inv s) (sector : SectorID) :
    sector ∈ s.storageGetLocks.map Prod.fst ↔ sector ∈ s.locks := by
  have hal : ∀ e ∈ s.locks.entries, ∃ lock, s.heap[e.2]? = some lock := fun e he =>
    ⟨_, getElem?_eq_getElem (h.table.alloc e.1 e.2 (mem_lookup_iff.mpr he))⟩
  simp only [storageGetLocks, mem_map, mem_insertionSort, mem_filterMap, AList.mem_keys, AList.keys, List.mem_keys]
  constructor
  · rintro ⟨_, ⟨e, he, ho⟩, rfl⟩
    obtain ⟨_, -, rfl⟩ := Option.map_eq_some_iff.mp ho
    exact ⟨e.2, he⟩
  · rintro ⟨p, he⟩
    obtain ⟨lock, hlo⟩ := hal _ he
    exact ⟨_, ⟨_, he, Option.map_eq_some_iff.mpr ⟨lock, hlo, rfl⟩⟩, rfl⟩

/-- `StorageGetLocks` lists the sectors of the calls that have not returned, and of those that were turned away: without
the latter the table is empty once every call has returned. -/
theorem storageGetLocks_lists (labels : List Label) (s : IndexLocks) (away : List SectorID)
    (hrun : runOut stepOut new labels = some (s, away)) :
    (∀ sector, sector ∈ s.storageGetLocks.map Prod.fst ↔
      (∃ c ∈ s.calls, c.live = true ∧ c.sector = sector) ∨ sector ∈ away) ∧
    ((∀ c ∈ s.calls, c.live = false) → (s.locks.keys = [] ↔ away = [])) := by
  have hc : Counted s ([] ++ away) := by
    refine runOut_invariant (P := Counted) ?_ ⟨new_inv, fun _ => rfl, ?_⟩ hrun
    · intro s w label s' w' h hst
      obtain ⟨_, hsm, heq⟩ := Option.map_eq_some_iff.mp hst
      cases heq
      exact h.step hsm
    · intro sector hm
      cases hm
  refine ⟨fun sector => (hc.inv.mem_storageGetLocks sector).trans (hc.mem_iff sector), fun hdone => ?_⟩
  have hmem : ∀ sector, sector ∈ s.locks ↔ sector ∈ away := by
    intro sector
    rw [hc.mem_iff, List.nil_append]
    refine or_iff_right ?_
    rintro ⟨c, hc, hlive, -⟩
    simp [hdone c hc] at hlive
  simp only [eq_nil_iff_forall_not_mem, ← AList.mem_keys, hmem]

def turnLabels : List Label :=
  [.lockWith 0 .lock ⟨1, 1⟩ 0 2, .attempt 0, .lockWith 1 .lock ⟨1, 1⟩ 0 2, .attempt 1, .cancel 0, .release 0, .release 0,
    .release 0, .attempt 1, .cancel 1, .release 1, .release 1, .release 1]

theorem storageGetLocks_lists_turn :
    ∃ s, runOut stepOut new turnLabels = some (s, []) ∧ (∀ c ∈ s.calls, c.live = false) ∧ s.locks.keys = [] := by
  have hdone : ∀ s away, runOut stepOut new turnLabels = some (s, away) → ∀ c ∈ s.calls, c.live = false := by
    rintro s away ⟨⟩
    decide
  exact ⟨_, rfl, hdone _ _ rfl, ((storageGetLocks_lists turnLabels _ _ rfl).2 (hdone _ _ rfl)).mpr rfl⟩

/-- A `StorageTryLock` is refused while the first call holds its lock; the first releases it. -/
theorem storageGetLocks_leak : ∃ s, run step new [.lockWith 0 .lock ⟨1, 1⟩ 0 2, .attempt 0,
      .lockWith 1 .tryLockSafe ⟨1, 1⟩ 0 2, .attempt 1, .cancel 0, .release 0, .release 0, .release 0] = some s ∧
    (∀ c ∈ s.calls, c.live = false) ∧ s.locks.keys = [⟨1, 1⟩] ∧ s.storageGetLocks.map Prod.fst = [⟨1, 1⟩] := by
  refine ⟨_, rfl, ?_, ?_, ?_⟩ <;> decide

end IndexLocks
end Lotus.Paths
