/-
# The scheduler that hands sync targets to workers (`sync_manager.go`).

The scheduler takes one event at a time. A target that extends an active sync is pending, any other that is heavy enough is
synced at once or deferred. The order in which the source ranges over the workers is part of the event. A step has no result
where the source panics, or no worker can send the status.
-/
import Lotus.Types.TipSet

namespace Lotus.Sync

abbrev PeerID := Bytes

/-- What is fixed: three package variables, and the `ParentWeight` that a header holds. -/
structure ManagerConfig where
  bootstrapPeerThreshold : Int
  maxSyncWorkers : Nat
  coalesceTipsets : Bool
  parentWeight : BlockHeader → Int

def recentSyncBufferSize : Nat := 10

def initialSyncTimeThreshold : Int := 15 * 60 * 10 ^ 9

section
variable [Blake2b] (cfg : ManagerConfig)

def ManagerConfig.weight (ts : TipSet) : Int := cfg.parentWeight ts.first

def ManagerConfig.isHeavier (a b : TipSet) : Bool := decide (cfg.weight a > cfg.weight b)

/-! ## Recently synced tipsets -/

structure SyncBuffer where
  buf : List (Option TipSet)
  next : Nat
  deriving DecidableEq

def newSyncBuffer (size : Nat) : SyncBuffer := ⟨List.replicate size none, 0⟩

def SyncBuffer.push (sb : SyncBuffer) (ts : TipSet) : SyncBuffer :=
  ⟨sb.buf.set sb.next (some ts), (sb.next + 1) % sb.buf.length⟩

def SyncBuffer.synced (sb : SyncBuffer) (ts : TipSet) : Bool :=
  sb.buf.any fun rts =>
    match rts with
    | none => false
    | some rts => rts.equals ts || cfg.isHeavier rts ts

/-! ## Buckets of related tipsets -/

/-- `syncTargetBucket`; a bucket is made with a tipset in it and never loses one. -/
structure SyncTargetBucket where
  tips : List TipSet
  ne : tips ≠ []
  deriving DecidableEq

def SyncTargetBucket.sameChainAs (stb : SyncTargetBucket) (ts : TipSet) : Bool :=
  stb.tips.any fun t => ts.equals t || decide (ts.key = t.parents) || decide (ts.parents = t.key)

/-- The blocks that `add` recombines: the first one of every miner. -/
def onePerMiner : List Address → List BlockHeader → List BlockHeader
  | _, [] => []
  | miners, b :: blks =>
    if b.miner ∈ miners then onePerMiner miners blks else b :: onePerMiner (b.miner :: miners) blks

/-- The tips after `syncTargetBucket.add`; none if the sort in `NewTipSet` meets a nil ticket. -/
def addTip (ts : TipSet) : List TipSet → Option (List TipSet)
  | [] => some [ts]
  | t :: tips =>
    if t.equals ts then some (t :: tips)
    else if cfg.coalesceTipsets && decide (t.height = ts.height) &&
        cidArrsEqual t.first.parents ts.first.parents then
      let newTs := onePerMiner [] (t.blks ++ ts.blks)
      if TicketsPresent newTs then
        match newTipSet newTs with
        | .error _ => (addTip ts tips).map (t :: ·)
        | .ok ts2 => some (ts2 :: tips)
      else none
    else (addTip ts tips).map (t :: ·)

theorem addTip_ne_nil {ts : TipSet} {tips tips' : List TipSet} (h : addTip cfg ts tips = some tips') : tips' ≠ [] := by
  revert h
  fun_cases addTip with
  | case5 => exact nofun
  | case3 | case6 =>
    rw [Option.map_eq_some_iff]
    rintro ⟨_, -, rfl⟩
    exact List.cons_ne_nil _ _
  | _ =>
    rintro ⟨⟩
    exact List.cons_ne_nil _ _

def SyncTargetBucket.add (stb : SyncTargetBucket) (ts : TipSet) : Option SyncTargetBucket :=
  match h : addTip cfg ts stb.tips with
  | none => none
  | some tips => some ⟨tips, addTip_ne_nil cfg h⟩

def ManagerConfig.heavier (best ts : TipSet) : TipSet := if cfg.weight ts > cfg.weight best then ts else best

def SyncTargetBucket.heaviestTipSet (stb : SyncTargetBucket) : TipSet :=
  stb.tips.tail.foldl cfg.heavier (stb.tips.head stb.ne)

/-! ## Sets of buckets -/

abbrev SyncBucketSet := List SyncTargetBucket

def SyncBucketSet.relatedToAny (sbs : SyncBucketSet) (ts : TipSet) : Bool :=
  sbs.any fun b => b.sameChainAs ts

def SyncBucketSet.insert (ts : TipSet) : SyncBucketSet → Option SyncBucketSet
  | [] => some [⟨[ts], List.cons_ne_nil ts []⟩]
  | b :: sbs =>
    if b.sameChainAs ts then (b.add cfg ts).map (· :: sbs)
    else (SyncBucketSet.insert ts sbs).map (b :: ·)

/-- The bucket that `syncBucketSet.Pop` selects from a set that is not empty. -/
def SyncBucketSet.best (b : SyncTargetBucket) (sbs : SyncBucketSet) : SyncTargetBucket :=
  sbs.foldl (fun best b =>
    if cfg.weight (best.heaviestTipSet cfg) < cfg.weight (b.heaviestTipSet cfg) then b else best) b

/-- `syncBucketSet.Pop`. Removing by pointer is removing the first equal one. -/
def SyncBucketSet.pop : SyncBucketSet → Option (SyncTargetBucket × SyncBucketSet)
  | [] => none
  | b :: sbs =>
    let bestBuck := SyncBucketSet.best cfg b sbs
    some (bestBuck, (b :: sbs).erase bestBuck)

/-- `syncBucketSet.PopRelated`: the related buckets in one, and the others. -/
def SyncBucketSet.popRelated (sbs : SyncBucketSet) (ts : TipSet) : Option SyncTargetBucket × SyncBucketSet :=
  (match sbs.filter fun b => b.sameChainAs ts with
    | [] => none
    | b :: related => some ⟨b.tips ++ related.flatMap (·.tips), by simp [b.ne]⟩,
   sbs.filter fun b => !b.sameChainAs ts)

def SyncBucketSet.heaviest : SyncBucketSet → Option TipSet
  | [] => none
  | b :: sbs => some (sbs.foldl (fun best b => cfg.heavier best (b.heaviestTipSet cfg)) (b.heaviestTipSet cfg))
end

/-! ## The manager -/

structure WorkerState where
  id : Nat
  ts : TipSet
  deriving DecidableEq

/-- `syncManager`; `ticking`: the ticker is not stopped yet. The counter of workers does not wrap. -/
structure SyncManager where
  nextWorker : Nat
  pend : SyncBucketSet
  deferred : SyncBucketSet
  heads : GoMap PeerID TipSet
  recent : SyncBuffer
  initialSyncDone : Bool
  state : List WorkerState
  ticking : Bool

open SyncManager

def newSyncManager : SyncManager where
  nextWorker := 0
  pend := []
  deferred := []
  heads := ∅
  recent := newSyncBuffer recentSyncBufferSize
  initialSyncDone := false
  state := []
  ticking := true

/-- The orders in which the loops of one call range over the active workers. -/
structure MapOrder where
  order : Nat → List WorkerState → List WorkerState
  perm : ∀ n ws, (order n ws).Perm ws

def MapOrder.inserted : MapOrder := ⟨fun _ ws => ws, fun _ ws => .refl ws⟩

/-- The order in which the first selection takes the heads: the map's, by height. -/
structure HeadOrder where
  order : List TipSet → List TipSet
  perm : ∀ tss, (order tss).Perm tss
  sorted : ∀ tss, (order tss).Pairwise fun a b => a.height ≤ b.height

def HeadOrder.byHeight : HeadOrder where
  order tss := tss.insertionSort fun a b => a.height ≤ b.height
  perm tss := List.perm_insertionSort _ tss
  sorted tss :=
    have : Std.Total fun a b : TipSet => a.height ≤ b.height := ⟨fun a b => Int.le_total a.height b.height⟩
    have : IsTrans TipSet fun a b => a.height ≤ b.height := ⟨fun _ _ _ h h' => Int.le_trans h h'⟩
    List.pairwise_insertionSort _ tss

def SyncManager.spawnWorker (sm : SyncManager) (target : TipSet) : SyncManager :=
  { sm with nextWorker := sm.nextWorker + 1, state := sm.state ++ [⟨sm.nextWorker, target⟩] }

def SyncManager.spawnTarget (r : SyncManager × Option TipSet) : SyncManager :=
  match r.2 with
  | none => r.1
  | some target => r.1.spawnWorker target

section
variable [Blake2b] (cfg : ManagerConfig) (sm : SyncManager)

def SyncManager.selectInitialSyncTarget (heads : HeadOrder) : Option (SyncManager × Option TipSet) :=
  let peerHeads := heads.order (sm.heads.entries.map (·.2))
  (peerHeads.foldlM (fun buckets ts => SyncBucketSet.insert cfg ts buckets) []).map fun buckets =>
    ({ sm with heads := ∅ }, SyncBucketSet.heaviest cfg buckets)

/-- How the first loop of `addSyncTarget` over the active workers ends. -/
inductive Relation where
  | active
  | extension
  | unrelated
  deriving DecidableEq

/-- The first loop of `addSyncTarget`. -/
def relation (ts : TipSet) : List WorkerState → Relation
  | [] => .unrelated
  | ws :: rest =>
    if ts.equals ws.ts then .active
    else if ts.parents = ws.ts.key then .extension
    else relation ts rest

def SyncManager.addSyncTarget (order : MapOrder) (ts : TipSet) : Option (SyncManager × Option TipSet) :=
  if sm.recent.synced cfg ts then some (sm, none)
  else if sm.state = [] then some (sm, some ts)
  else
    match relation ts (order.order 0 sm.state) with
    | .active => some (sm, none)
    | .extension => (SyncBucketSet.insert cfg ts sm.pend).map fun pend => ({ sm with pend := pend }, none)
    | .unrelated =>
      if SyncBucketSet.relatedToAny sm.pend ts then
        (SyncBucketSet.insert cfg ts sm.pend).map fun pend => ({ sm with pend := pend }, none)
      else if (order.order 1 sm.state).any fun ws => cfg.isHeavier ws.ts ts then some (sm, none)
      else if (SyncBucketSet.heaviest cfg sm.pend).any fun pendHeaviest => cfg.isHeavier pendHeaviest ts then
        some (sm, none)
      else if sm.initialSyncDone = false ∨ sm.state.length ≥ cfg.maxSyncWorkers then
        (SyncBucketSet.insert cfg ts sm.deferred).map fun deferred => ({ sm with deferred := deferred }, none)
      else some (sm, some ts)

/-- A bucket popped and not returned: its heaviest tipset, and the manager after the pop. -/
structure Discard where
  heaviest : TipSet
  before : SyncManager
  after : SyncManager

/-- What `selectDeferredSyncTarget` leaves and returns; `discarded` is not in the source. -/
structure Selection where
  manager : SyncManager
  target : Option TipSet
  discarded : List Discard

def Selection.discard (d : Discard) (r : Selection) : Selection := { r with discarded := d :: r.discarded }

/-- The loop of `selectDeferredSyncTarget`. Every way through its inner loop leaves that loop, so only the first worker is
looked at. -/
def SyncManager.deferredLoop (order : MapOrder) : Nat → SyncManager → Option Selection
  | 0, sm => some ⟨sm, none, []⟩
  | n + 1, sm =>
    match SyncBucketSet.pop cfg sm.deferred with
    | none => some ⟨sm, none, []⟩
    | some (bucket, deferred) =>
      let heaviest := bucket.heaviestTipSet cfg
      let sm := { sm with deferred := deferred }
      let insertPending := (SyncBucketSet.insert cfg heaviest sm.pend).bind fun pend =>
        let sm' := { sm with pend := pend }
        (deferredLoop order n sm').map (·.discard ⟨heaviest, sm, sm'⟩)
      let skip := (deferredLoop order n sm).map (·.discard ⟨heaviest, sm, sm⟩)
      if sm.recent.synced cfg heaviest then skip
      else if SyncBucketSet.relatedToAny sm.pend heaviest then insertPending
      else
        match order.order n sm.state with
        | [] => skip
        | ws :: _ =>
          if ws.ts.equals heaviest || cfg.isHeavier ws.ts heaviest then skip
          else if heaviest.parents = ws.ts.key then insertPending
          else some ⟨sm, some heaviest, []⟩

def SyncManager.selectDeferredSyncTarget (order : MapOrder) : Option Selection :=
  deferredLoop cfg order sm.deferred.length sm

def Selection.result (r : Selection) : SyncManager × Option TipSet := (r.manager, r.target)

/-- `syncManager.selectSyncTarget`. In the orders the workers come after all deferred ones. -/
def SyncManager.selectSyncTarget (order : MapOrder) (done : TipSet) : Option (SyncManager × Option TipSet) :=
  let popped := SyncBucketSet.popRelated sm.pend done
  let sm := { sm with pend := popped.2 }
  let deferred := (sm.selectDeferredSyncTarget cfg order).map Selection.result
  match popped.1 with
  | none => deferred
  | some related =>
    let heaviest := related.heaviestTipSet cfg
    if cfg.isHeavier done heaviest then deferred
    else if (order.order sm.deferred.length sm.state).any fun ws => cfg.isHeavier ws.ts heaviest then deferred
    else if sm.recent.synced cfg heaviest then deferred
    else some (sm, some heaviest)

def SyncManager.handlePeerHead (p : PeerID) (ts : TipSet) (heads : HeadOrder) (order : MapOrder) : Option SyncManager :=
  if sm.nextWorker = 0 then
    let sm := { sm with heads := sm.heads.insert p ts }
    if (sm.heads.entries.length : Int) < cfg.bootstrapPeerThreshold then some sm
    else (sm.selectInitialSyncTarget cfg heads).map spawnTarget
  else (sm.addSyncTarget cfg order ts).map spawnTarget

/-- The first part of `handleWorkerStatus`: the worker goes, and a synced target is buffered. -/
def SyncManager.finishWorker (ws : WorkerState) (err : Option GoError) (dt : Int) : SyncManager :=
  let sm := { sm with state := sm.state.filter fun w => w.id ≠ ws.id }
  match err with
  | some _ => sm
  | none =>
    { sm with
      recent := sm.recent.push ws.ts
      initialSyncDone := sm.initialSyncDone || decide (dt < initialSyncTimeThreshold) }

/-- `syncManager.handleWorkerStatus` of the worker with an id; `dt` is the time that it took. -/
def SyncManager.handleWorkerStatus (id : Nat) (err : Option GoError) (dt : Int) (order : MapOrder) : Option SyncManager :=
  match sm.state.find? fun ws => ws.id = id with
  | none => none
  | some ws => ((sm.finishWorker ws err dt).selectSyncTarget cfg order ws.ts).map spawnTarget

/-- The loop of `handleInitialSyncDone`, with the number of workers that can still be spawned. -/
def SyncManager.rampLoop (orders : Nat → MapOrder) : Nat → SyncManager → Option SyncManager
  | 0, sm => some sm
  | n + 1, sm =>
    match sm.selectDeferredSyncTarget cfg (orders n) with
    | none => none
    | some r =>
      match r.target with
      | none => some r.manager
      | some target => rampLoop orders n (r.manager.spawnWorker target)

def SyncManager.handleInitialSyncDone (orders : Nat → MapOrder) : Option SyncManager :=
  rampLoop cfg orders (cfg.maxSyncWorkers - sm.state.length) sm

inductive Event where
  | head (p : PeerID) (ts : TipSet) (heads : HeadOrder) (order : MapOrder)
  | status (id : Nat) (err : Option GoError) (dt : Int) (order : MapOrder)
  | tick (orders : Nat → MapOrder)

/-- One turn of `scheduler`. -/
def SyncManager.step : Event → Option SyncManager
  | .head p ts heads order => sm.handlePeerHead cfg p ts heads order
  | .status id err dt order => sm.handleWorkerStatus cfg id err dt order
  | .tick orders =>
    if sm.ticking = false then none
    else if sm.initialSyncDone then handleInitialSyncDone cfg { sm with ticking := false } orders
    else some sm

inductive Reachable (allowed : SyncManager → Event → Prop) : SyncManager → Prop where
  | new : Reachable allowed newSyncManager
  | step {sm sm' : SyncManager} {ev : Event} : Reachable allowed sm → allowed sm ev →
      sm.step cfg ev = some sm' → Reachable allowed sm'
end
end Lotus.Sync
