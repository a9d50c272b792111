/-
# The bookkeeping of the splitstore (`Start`, and what `doCompact`, `doPrune` and `doWarmup` do last).

Five numbers are kept in memory and, each under its key, in the metadata store, from which `Start` reads them.
-/
import Lotus.Lib.Lts

namespace Lotus.Splitstore.Bookkeeping
open Lib.Lts

structure Books (α : Type) where
  baseEpoch : α
  pruneEpoch : α
  warmupEpoch : α
  compactionIndex : α
  pruneIndex : α

/-- The numbers in memory, the entries of the store and the epoch of the warm-up that runs, if one does. `compactions` were
made since the first start, and `prunes` since the last. -/
structure Node where
  mem : Books Int
  ds : Books (Option Int)
  warmup : Option Int
  compactions : Int
  prunes : Int

/-- `Start` of a process that finds `ds`; `curTs` is the height of the head, if there is one. -/
def start (curTs : Option Int) (ds : Books (Option Int)) : Option Node :=
  let base := ds.baseEpoch.or curTs
  let prune := ds.pruneEpoch.or curTs
  let mem := ⟨base.getD 0, prune.getD 0, ds.warmupEpoch.getD 0, ds.compactionIndex.getD 0, 0⟩
  let node := ⟨mem, { ds with baseEpoch := base, pruneEpoch := prune }, none, 0, 0⟩
  if ds.warmupEpoch.isSome ∧ ds.compactionIndex.isSome then some node
  -- `doWarmup` panics without a head
  else curTs.map fun epoch => { node with warmup := some epoch }

def compactionBoundary : Int := 4 * 900

variable (height : Int) (n : Node)

def doCompact : Node :=
  let epoch := height - compactionBoundary
  let index := n.mem.compactionIndex + 1
  { n with
    mem := { n.mem with baseEpoch := epoch, compactionIndex := index }
    ds := { n.ds with baseEpoch := some epoch, compactionIndex := some index }
    compactions := n.compactions + 1 }

def doPrune : Node :=
  let epoch := height - compactionBoundary
  { n with
    mem := { n.mem with pruneEpoch := epoch, pruneIndex := n.mem.pruneIndex + 1 }
    -- what is stored as the prune index is the compaction index
    ds := { n.ds with pruneEpoch := some epoch, pruneIndex := some n.mem.compactionIndex }
    prunes := n.prunes + 1 }

def doWarmup (epoch : Int) : Node :=
  { n with
    mem := { n.mem with warmupEpoch := epoch }
    ds := { n.ds with warmupEpoch := some epoch, compactionIndex := some n.mem.compactionIndex }
    warmup := none }

inductive Event where
  | compact (height : Int)
  | prune (height : Int)
  | warmup (ok : Bool)
  | restart (curTs : Option Int)

/-- A warm-up holds the compaction lock, and nothing is pruned before a compaction. -/
def step (n : Node) : Event → Option Node
  | .compact height => if n.warmup = none then some (doCompact height n) else none
  | .prune height => if n.warmup = none ∧ n.mem.compactionIndex ≠ 0 then some (doPrune height n) else none
  | .warmup ok => n.warmup.map fun epoch => if ok then doWarmup n epoch else { n with warmup := none }
  | .restart curTs => (start curTs n.ds).map ({ · with compactions := n.compactions })

structure Stored : Prop where
  base : n.ds.baseEpoch = some n.mem.baseEpoch
  prune : n.ds.pruneEpoch = some n.mem.pruneEpoch
  warmup : n.ds.warmupEpoch.getD 0 = n.mem.warmupEpoch
  index : n.ds.compactionIndex.getD 0 = n.mem.compactionIndex
  compactions : n.mem.compactionIndex = n.compactions
  prunes : n.mem.pruneIndex = n.prunes

variable {n} {n' : Node} {curTs : Option Int}

theorem Stored.start (hs : Stored n) (h : start curTs n.ds = some n') :
    n'.mem = { n.mem with pruneIndex := 0 } ∧ n'.ds = n.ds ∧ n'.prunes = 0 := by
  have hds : { n.ds with baseEpoch := some n.mem.baseEpoch, pruneEpoch := some n.mem.pruneEpoch } = n.ds := by
    rw [← hs.base, ← hs.prune]
  simp only [Bookkeeping.start, hs.base, hs.prune, hs.warmup, hs.index, Option.some_or, Option.getD_some, hds] at h
  split at h
  · cases h
    exact ⟨rfl, rfl, rfl⟩
  · obtain ⟨epoch, -, rfl⟩ := Option.map_eq_some_iff.mp h
    exact ⟨rfl, rfl, rfl⟩

theorem Stored.step {e : Event} (hs : Stored n) (h : step n e = some n') : Stored n' := by
  cases e with
  | compact height =>
    obtain ⟨-, ⟨⟩⟩ := Option.ite_none_right_eq_some.mp h
    exact ⟨rfl, hs.prune, hs.warmup, rfl, congrArg (· + 1) hs.compactions, hs.prunes⟩
  | prune height =>
    obtain ⟨-, ⟨⟩⟩ := Option.ite_none_right_eq_some.mp h
    exact ⟨hs.base, rfl, hs.warmup, hs.index, hs.compactions, congrArg (· + 1) hs.prunes⟩
  | warmup ok =>
    obtain ⟨epoch, -, rfl⟩ := Option.map_eq_some_iff.mp h
    cases ok with
    | false => exact { hs with }
    | true => exact { hs with warmup := rfl, index := rfl }
  | restart curTs =>
    obtain ⟨n1, h1, rfl⟩ := Option.map_eq_some_iff.mp h
    obtain ⟨hmem, hds, hp⟩ := hs.start h1
    constructor <;> simp [hmem, hds, hp, hs.base, hs.prune, hs.warmup, hs.index, hs.compactions]

theorem stored_first (h : start curTs ⟨none, none, none, none, none⟩ = some n) : Stored n := by
  obtain ⟨epoch, rfl, rfl⟩ := Option.map_eq_some_iff.mp h
  exact ⟨rfl, rfl, rfl, rfl, rfl, rfl⟩

/-- **A restart** keeps all numbers but the prune index, which starts again at 0. -/
theorem restart_books (ts ts' : Option Int) (es : List Event)
    (hrun : (start ts ⟨none, none, none, none, none⟩).bind (run step · es) = some n) (h : start ts' n.ds = some n') :
    n'.mem = { n.mem with pruneIndex := 0 } ∧ n.mem.compactionIndex = n.compactions ∧
      (n'.mem = n.mem ↔ n.prunes = 0) := by
  obtain ⟨n₀, h₀, hrun⟩ := Option.bind_eq_some_iff.mp hrun
  have hs := run_invariant (fun _ _ _ => Stored.step) (stored_first h₀) hrun
  obtain ⟨hmem, -, -⟩ := hs.start h
  refine ⟨hmem, hs.compactions, ?_⟩
  rw [hmem, ← hs.prunes]
  exact ⟨fun he => (congrArg Books.pruneIndex he).symm, fun hz => by rw [← hz]⟩

theorem restart_books_compacted : ∃ n n', (start (some 9) ⟨none, none, none, none, none⟩).bind
    (run step · [.warmup true, .compact 5000]) = some n ∧ start none n.ds = some n' ∧ n'.mem = n.mem :=
  ⟨_, _, rfl, rfl, (restart_books (some 9) none [.warmup true, .compact 5000] rfl rfl).2.2.mpr rfl⟩

theorem restart_forgets_prune : ∃ n n', (start (some 9) ⟨none, none, none, none, none⟩).bind
    (run step · [.warmup true, .compact 5000, .prune 5000]) = some n ∧ start none n.ds = some n' ∧
      n.mem.pruneIndex = 1 ∧ n'.mem.pruneIndex = 0 :=
  ⟨_, _, rfl, rfl, rfl, rfl⟩

end Lotus.Splitstore.Bookkeeping
