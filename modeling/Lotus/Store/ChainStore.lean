/-
# The head and the checkpoint of the chain store (`chain/store/store.go`).

What a call reads from outside comes from a `ChainEnv`. Not modelled: the locks (each call runs under `heaviestLk`), the
reorg notifications and the logs.
-/
import Lotus.Types.TipSet

namespace Lotus.Store

/-- `build.ForkLengthThreshold`, which is `build.Finality`. -/
def forkLengthThreshold : Nat := 900

/-- What one call finds outside the store record; the last three fields are the errors of the writes. -/
structure ChainEnv where
  getBlock : Cid → Except GoError BlockHeader
  loadTipSet : TipSetKey → Except GoError TipSet
  weight : Option TipSet → Except GoError Int
  persistErr : Option GoError
  metadataPutErr : Option GoError
  metadataDeleteErr : Option GoError

/-- The tracker of block CIDs by height, the head and the checkpoint, both nil at first. -/
structure ChainStore where
  tipsets : GoMap Int (List Cid)
  heaviest : Option TipSet
  checkpoint : Option TipSet

/-- `NewChainStore`, before anything is loaded or put. -/
def ChainStore.new : ChainStore := ⟨∅, none, none⟩

section
variable [Blake2b]

/-- The loop of `breakWeightTie` over the common positions; it never gives false. -/
def breakWeightTieLoop : List BlockHeader → List BlockHeader → Except GoError Bool
  | b1 :: bs1, b2 :: bs2 =>
    match b1.ticket, b2.ticket with
    | some t1, some t2 => if t1.less t2 then .ok true else breakWeightTieLoop bs1 bs2
    | _, _ => .error .nilDeref
  | _, _ => .ok false

def breakWeightTie (ts1 ts2 : TipSet) : Except GoError Bool :=
  breakWeightTieLoop ts1.blks ts2.blks
end

/-! ## The fork-length walk -/

/-- The inner loop of `exceedsForkLength`: walk `external` back to the height `h`, or to genesis (`none`). -/
def walkExternal (env : ChainEnv) (h : Int) : Nat → TipSet → Except GoError (Option TipSet)
  | fuel, external =>
    if external.height > h then
      if external.height = 0 then .ok none
      else
        match env.loadTipSet external.parents with
        | .error e => .error (.wrap "failed to load parent tipset in external chain" e)
        | .ok p =>
          match fuel with
          | 0 => .error (.errorf "no return: heights do not drop")
          | fuel + 1 => walkExternal env h fuel p
    else .ok (some external)

/-- The outer loop of `exceedsForkLength`, with the number of rounds that are left. -/
def forkLoop (env : ChainEnv) (checkpoint : Option TipSet) : Nat → TipSet → TipSet → Except GoError Bool
  | 0, _, _ => .ok true
  | n + 1, synced, external =>
    match walkExternal env synced.height (external.height - synced.height).toNat external with
    | .error e => .error e
    | .ok none => .ok true
    | .ok (some external) =>
      if synced.equals external then .ok false
      else if synced.equalsOpt checkpoint then .ok true
      else if synced.height = 0 then .ok true
      else
        match env.loadTipSet synced.parents with
        | .error e => .error (.wrap "failed to load parent tipset in synced chain" e)
        | .ok p => forkLoop env checkpoint n p external

def exceedsForkLength (env : ChainEnv) (cs : ChainStore) (synced external : Option TipSet) : Except GoError Bool :=
  match synced, external with
  | some s, some x => forkLoop env cs.checkpoint forkLengthThreshold s x
  | _, _ => .ok false

/-- The loop of `IsAncestorOf`, on the same terms as `walkExternal`. -/
def isAncestorLoop (env : ChainEnv) (a : TipSet) : Nat → TipSet → Except GoError Bool
  | fuel, cur =>
    if !a.equals cur && decide (cur.height > a.height) then
      match env.loadTipSet cur.parents with
      | .error e => .error e
      | .ok next =>
        match fuel with
        | 0 => .error (.errorf "no return: heights do not drop")
        | fuel + 1 => isAncestorLoop env a fuel next
    else .ok (cur.equals a)

def isAncestorOf (env : ChainEnv) (a b : TipSet) : Except GoError Bool :=
  if b.height ≤ a.height then .ok false
  else isAncestorLoop env a (b.height - a.height).toNat b

/-! ## Moving the head -/

/-- `ChainStore.takeHeaviestTipSet`: a failed write of the head is only logged. -/
def takeHeaviestTipSet (cs : ChainStore) (ts : TipSet) : ChainStore × Option GoError :=
  ({ cs with heaviest := some ts }, none)

section
variable [Blake2b]

section
variable (env : ChainEnv) (cs : ChainStore) (ts : TipSet)

/-- The value of `heavier` in `MaybeTakeHeavierTipSet` when it is tested. -/
def heavier : Except GoError Bool :=
  match env.weight (some ts) with
  | .error e => .error e
  | .ok w =>
    match env.weight cs.heaviest with
    | .error e => .error e
    | .ok heaviestW =>
      if w = heaviestW ∧ ts.equalsOpt cs.heaviest = false then
        match cs.heaviest with
        | none => .error .nilDeref
        | some heaviest => breakWeightTie ts heaviest
      else .ok (decide (w > heaviestW))

/-- `ChainStore.MaybeTakeHeavierTipSet`, after the wait for the reorg channel. -/
def maybeTakeHeavierTipSet : ChainStore × Option GoError :=
  match heavier env cs ts with
  | .error e => (cs, some e)
  | .ok false => (cs, none)
  | .ok true =>
    match exceedsForkLength env cs cs.heaviest (some ts) with
    | .error e => (cs, some e)
    | .ok true => (cs, none)
    | .ok false => takeHeaviestTipSet cs ts
end
end

/-! ## Checkpoints and forced heads -/

section
variable (env : ChainEnv) (cs : ChainStore)

def removeCheckpoint : ChainStore × Option GoError :=
  match env.metadataDeleteErr with
  | some e => (cs, some e)
  | none => ({ cs with checkpoint := none }, none)

def setHead (ts : TipSet) : ChainStore × Option GoError :=
  match removeCheckpoint env cs with
  | (cs, some e) => (cs, some e)
  | (cs, none) => takeHeaviestTipSet cs ts

/-- `ChainStore.ForceHeadSilent`: the head stays moved when writing it fails; the error is formatted with `%s`. -/
def forceHeadSilent (ts : TipSet) : ChainStore × Option GoError :=
  match removeCheckpoint env cs with
  | (cs, some e) => (cs, some e)
  | (cs, none) =>
    ({ cs with heaviest := some ts }, env.metadataPutErr.map (fun _ => .errorf "failed to write chain head"))

/-- `ChainStore.SetCheckpoint`. The message for a tipset off the main chain formats a nil error. -/
def setCheckpoint (ts : TipSet) : ChainStore × Option GoError :=
  match cs.heaviest with
  | none => (cs, some .nilDeref)
  | some heaviest =>
    if ts.height > heaviest.height then
      (cs, some (.errorf "cannot set a checkpoint in the future"))
    else if heaviest.height - ts.height > forkLengthThreshold then
      (cs, some (.errorf "cannot set a checkpoint before the fork threshold"))
    else
      match if ts.equals heaviest then .ok true else isAncestorOf env ts heaviest with
      | .error e =>
        (cs, some (.wrap "cannot determine whether checkpoint tipset is in main-chain" e))
      | .ok false =>
        (cs, some (.errorf "cannot mark tipset as checkpoint, since it isn't in the main-chain: %!w(<nil>)"))
      | .ok true =>
        match env.metadataPutErr with
        | some e => (cs, some e)
        | none => ({ cs with checkpoint := some ts }, none)
end

/-! ## Blocks on their way to the head -/

/-- `ChainStore.AddToTipSetTracker`; only the entry of height `iter` may be removed. -/
def addToTipSetTracker (iter : Int) (cs : ChainStore) (b : BlockHeader) : ChainStore :=
  let tss := (cs.tipsets.lookup b.height).getD []
  if b.cid ∈ tss then cs
  else
    let kept :=
      if iter < b.height - forkLengthThreshold then cs.tipsets.erase iter else cs.tipsets
    { cs with tipsets := kept.insert b.height (tss ++ [b.cid]) }

def expandLoop (env : ChainEnv) (b : BlockHeader) :
    List Cid → List BlockHeader → List Address → Except GoError (List BlockHeader)
  | [], all, _ => .ok all
  | bhc :: rest, all, inclMiners =>
    if bhc = b.cid then expandLoop env b rest all inclMiners
    else
      match env.getBlock bhc with
      | .error e => .error (.wrap "failed to load block for tipset expansion" e)
      | .ok h =>
        if h.miner ∈ inclMiners then expandLoop env b rest all inclMiners
        else if cidArrsEqual h.parents b.parents then
          expandLoop env b rest (all ++ [h]) (h.miner :: inclMiners)
        else expandLoop env b rest all inclMiners

section
variable [Blake2b]

def expandTipset (env : ChainEnv) (cs : ChainStore) (b : BlockHeader) : Except GoError TipSet :=
  match cs.tipsets.lookup b.height with
  | none => newTipSet [b]
  | some tsets =>
    match expandLoop env b tsets [b] [b.miner] with
    | .error e => .error e
    | .ok all => newTipSet all

def wrapErr (msg : String) (r : ChainStore × Option GoError) : ChainStore × Option GoError :=
  (r.1, r.2.map (GoError.wrap msg))

def putTipSet (env : ChainEnv) (cs : ChainStore) (ts : TipSet) : ChainStore × Option GoError :=
  match env.persistErr with
  | some e => (cs, some e)
  | none =>
    match expandTipset env cs ts.first with
    | .error e => (cs, some (.wrap "errored while expanding tipset" e))
    | .ok expanded =>
      wrapErr "MaybeTakeHeavierTipSet failed in PutTipSet" (maybeTakeHeavierTipSet env cs expanded)

def addBlock (env : ChainEnv) (cs : ChainStore) (b : BlockHeader) : ChainStore × Option GoError :=
  match env.persistErr with
  | some e => (cs, some e)
  | none =>
    match expandTipset env cs b with
    | .error e => (cs, some e)
    | .ok ts => wrapErr "MaybeTakeHeavierTipSet failed" (maybeTakeHeavierTipSet env cs ts)
end
end Lotus.Store
