/-
# Selection of the messages of a block (`chain/messagepool/selection.go`).

The chains of all senders are a list of lines; a `*msgChain` is a position in it. What the run time decides is given by
`Choices`. A loop that is not over a list has the result `none` if it has not ended in the rounds given.
-/
import Lotus.Mpool.Chains
import Lotus.Store.Reorg

namespace Lotus.Mpool
open Store

/-! ## Lines of chains -/

/-- A `*msgChain`: the line of the chain and its place in the line. -/
abbrev ChainRef := Nat × Nat

abbrev Lines (F E : Type) := List (List (MsgChain F E))

section
variable {F E : Type} [Zero F] [Zero E]

def MsgChain.absent : MsgChain F E where
  msgs := []
  gasReward := 0
  gasLimit := 0
  gasPerf := 0
  effPerf := 0
  bp := 0
  parentOffset := 0
  valid := false
  merged := false
  next := false
  sigType := .unknown

namespace Lines

section
variable (ls : Lines F E)

def line (k : Nat) : List (MsgChain F E) := ls[k]?.getD []

def get (r : ChainRef) : MsgChain F E := (ls.line r.1)[r.2]?.getD .absent

def prev (r : ChainRef) : Option (MsgChain F E) :=
  if r.2 = 0 then none else (ls.line r.1)[r.2 - 1]?

def update (r : ChainRef) (f : List (MsgChain F E) → List (MsgChain F E)) : Lines F E :=
  ls.modify r.1 fun l => l.modifyTailIdx r.2 f

def refs : List ChainRef :=
  (List.range ls.length).flatMap fun k => (List.range (ls.line k).length).map fun p => (k, p)
end
end Lines
end

/-- A comparison that `sort.Slice` can sort by. -/
structure StrictWeakOrder {α : Type} (less : α → α → Bool) : Prop where
  asymm : ∀ a b, less a b = true → less b a = false
  split : ∀ a b c, less a c = true → less a b = true ∨ less b c = true

structure Choices where
  /-- `for actor, mset := range pending`. -/
  rangePending : GoMap Address MsgSet → List (Address × MsgSet)
  range_perm : ∀ pending, (rangePending pending).Perm (pending.entries.map fun e => (e.1, e.2))
  sortSlice : (ChainRef → ChainRef → Bool) → List ChainRef → List ChainRef
  sort_perm : ∀ less chains, (sortSlice less chains).Perm chains
  sort_sorted : ∀ less chains, StrictWeakOrder less → (sortSlice less chains).Pairwise fun a b => less b a = false
  /-- `sort.SliceStable(chains[i+1:], …)`, whose comparison takes its arguments for places in `chains`: it
  compares other chains than those it is asked for, so that any order can result. -/
  sortRest : (ChainRef → ChainRef → Bool) → (before rest : List ChainRef) → List ChainRef
  sortRest_perm : ∀ less before rest, (sortRest less before rest).Perm rest
  shuffleChains : List ChainRef → List ChainRef
  shuffle_perm : ∀ chains, (shuffleChains chains).Perm chains

/-! ## `selectedMessages` -/

structure SelectedMessages where
  msgs : List SignedMessage
  gasLimit : Int
  secpLimit : Int
  blsLimit : Int
  deriving DecidableEq

def maxLength : Int := 8192

def SelectedMessages.limit (sm : SelectedMessages) : SigType → Option Int
  | .bls => some sm.blsLimit
  | .secp256k1 => some sm.secpLimit
  | .unknown => none

/-- Appends messages with this type of signature and takes them from the limits. -/
def SelectedMessages.append (sm : SelectedMessages) (sigType : SigType) (msgs : List SignedMessage)
    (gasLimit msgLimit : Int) : SelectedMessages where
  msgs := sm.msgs ++ msgs
  gasLimit := sm.gasLimit - gasLimit
  blsLimit := if sigType = .bls then sm.blsLimit - msgLimit else sm.blsLimit
  secpLimit := if sigType = .secp256k1 then sm.secpLimit - msgLimit else sm.secpLimit

section
variable {F E : Type} [LinearOrder F] [Zero F] [Zero E] (fl : Floats F E) (choose : Choices) (baseFee : Int)

/-- `selectedMessages.tryToAdd`; `none` is false. Another type of signature is not added, but takes no room. -/
def SelectedMessages.tryToAdd (sm : SelectedMessages) (mc : MsgChain F E) : Option SelectedMessages :=
  if blockMessageLimit < mc.msgs.length + sm.msgs.length ∨ sm.gasLimit < mc.gasLimit then none
  else
    match sm.limit mc.sigType with
    | none => some sm
    | some limit =>
      if limit < mc.msgs.length then none
      else some (sm.append mc.sigType mc.msgs mc.gasLimit mc.msgs.length)

structure Selecting (F E : Type) where
  result : SelectedMessages
  lines : Lines F E

def mergeFirst (n : Nat) (l : List (MsgChain F E)) : List (MsgChain F E) :=
  (l.take n).map (fun c => { c with merged := true }) ++ l.drop n

/-- The field `merged` of a chain and of the `deps` chains before it is set. -/
def Lines.merge (ls : Lines F E) (r : ChainRef) (deps : Nat) : Lines F E :=
  ls.update (r.1, r.2 - deps) (mergeFirst (deps + 1))

/-- The chains to be merged with a chain: those before it up to one that is merged. -/
def Lines.chainDeps (ls : Lines F E) (r : ChainRef) : List (MsgChain F E) :=
  (((ls.line r.1).take r.2).reverse.takeWhile fun c => !c.merged).reverse

def tryToAddWithDeps (s : Selecting F E) (r : ChainRef) : Bool × Selecting F E :=
  let sm := s.result
  let mc := s.lines.get r
  match sm.limit mc.sigType with
  | none => (false, s)
  | some smMsgLimit =>
    let smMsgLimit := min smMsgLimit (blockMessageLimit - sm.msgs.length)
    let chainDeps := s.lines.chainDeps r
    let depGasLimit := (chainDeps.map (·.gasLimit)).sum
    let depMsgLimit : Int := (chainDeps.map (·.msgs.length)).sum
    let chainGasLimit := mc.gasLimit + depGasLimit
    let chainMsgLimit := mc.msgs.length + depMsgLimit
    if chainGasLimit > sm.gasLimit ∨ chainMsgLimit > smMsgLimit then
      if depGasLimit > sm.gasLimit ∨ depMsgLimit ≥ smMsgLimit then
        (false, { s with lines := s.lines.update r invalidate })
      else
        let mcTrim := trim fl baseFee (sm.gasLimit - depGasLimit) (smMsgLimit - depMsgLimit) (s.lines.prev r)
        (false, { s with lines := s.lines.update r mcTrim })
    else
      (true,
        { result := sm.append mc.sigType (chainDeps.flatMap (·.msgs) ++ mc.msgs) chainGasLimit chainMsgLimit
          lines := s.lines.merge r chainDeps.length })

def SelectedMessages.trimChain (sm : SelectedMessages) (ls : Lines F E) (r : ChainRef) : Lines F E :=
  let mc := ls.get r
  let msgLimit : Int := blockMessageLimit - sm.msgs.length
  let msgLimit := match sm.limit mc.sigType with
    | none => msgLimit
    | some limit => min msgLimit limit
  if mc.gasLimit > sm.gasLimit ∨ (mc.msgs.length : Int) > msgLimit then
    ls.update r (trim fl baseFee sm.gasLimit msgLimit (ls.prev r))
  else ls

def pushDown (before : ChainRef → ChainRef → Bool) (r : ChainRef) : List ChainRef → List ChainRef
  | [] => [r]
  | r' :: chains => if before r r' then r :: r' :: chains else r' :: pushDown before r chains

/-! ## Greedy selection -/

/-- The loop that merges the head chains, with `chains[last:]` at its end. -/
def mergeHead (ls : Lines F E) : List ChainRef → SelectedMessages → SelectedMessages × List ChainRef
  | [], result => (result, [])
  | r :: chains, result =>
    if (ls.get r).gasPerf < 0 then (result, [])
    else
      match result.tryToAdd (ls.get r) with
      | some result => mergeHead ls chains result
      | none => (result, r :: chains)

/-- The inner loop of `tailLoop`. An empty rest stands for the end of `tailLoop`. -/
def packTail (ls : Lines F E) : List ChainRef → SelectedMessages → SelectedMessages × List ChainRef
  | [], result => (result, [])
  | r :: chains, result =>
    if (ls.get r).valid = false then packTail ls chains result
    else if (ls.get r).gasPerf < 0 then (result, [])
    else
      match result.tryToAdd (ls.get r) with
      | some result => packTail ls chains result
      | none => (result, r :: chains)

/-- `tailLoop`, over `chains[last:]`. -/
def tailLoop : Nat → Lines F E → List ChainRef → SelectedMessages → Option SelectedMessages
  | _, _, [], result => some result
  | 0, _, _ :: _, _ => none
  | fuel + 1, ls, r :: chains, result =>
    if result.gasLimit < minGas then some result
    else
      let ls := result.trimChain fl baseFee ls r
      let chains :=
        if (ls.get r).valid then pushDown (fun r r' => (ls.get r).before (ls.get r')) r chains else r :: chains
      let (result, chains) := packTail ls chains result
      tailLoop fuel ls chains result

/-- What `selectMessagesGreedy` and `selectPriorityMessages` do with their chains. -/
def packChains (fuel : Nat) (ls : Lines F E) (result : SelectedMessages) : Option SelectedMessages :=
  match choose.sortSlice (fun r r' => (ls.get r).before (ls.get r')) ls.refs with
  | [] => some result
  | r :: chains =>
    if (ls.get r).gasPerf < 0 then some result
    else
      let (result, chains) := mergeHead ls (r :: chains) result
      tailLoop fl baseFee fuel ls chains result

/-! ## Optimal selection -/

def maxBlocks : Nat := 15

/-- The inner loop of the partitioning: the chains of a block, and those that are left. -/
def fillPartition (ls : Lines F E) : (gasLimit msgLimit : Int) → List ChainRef → List ChainRef × List ChainRef
  | _, _, [] => ([], [])
  | gasLimit, msgLimit, r :: chains =>
    let gasLimit := gasLimit - (ls.get r).gasLimit
    let msgLimit := msgLimit - (ls.get r).msgs.length
    if gasLimit < minGas ∨ msgLimit ≤ 0 then ([r], chains)
    else
      let (partition, chains) := fillPartition ls gasLimit msgLimit chains
      (r :: partition, chains)

def partitionChains (ls : Lines F E) : (blocks : Nat) → List ChainRef → List (List ChainRef) × List ChainRef
  | 0, chains => ([], chains)
  | blocks + 1, chains =>
    let (partition, chains) := fillPartition ls blockGasLimit blockMessageLimit chains
    let (partitions, chains) := partitionChains ls blocks chains
    (partition :: partitions, chains)

def Lines.modifyChain (ls : Lines F E) (r : ChainRef) (f : Option (MsgChain F E) → MsgChain F E → MsgChain F E) : Lines F E :=
  ls.update r (List.modifyHead (f (ls.prev r)))

/-- The effective performances of the chains of the partitions from `block` on. -/
def setEffectivePerfs (blockProb : Nat → E) : (block : Nat) → List (List ChainRef) → Lines F E → Lines F E
  | _, [], ls => ls
  | block, partition :: partitions, ls =>
    setEffectivePerfs blockProb (block + 1) partitions
      (partition.foldl (fun ls r => ls.modifyChain r fun prev => .setEffectivePerf fl prev (blockProb block)) ls)

/-- The inner loop of the adjustment, from the chain after `prev`. -/
def adjustAfter : (prev : MsgChain F E) → List (MsgChain F E) → List (MsgChain F E)
  | _, [] => []
  | prev, c :: chains =>
    if prev.next && fl.gt c.effPerf 0 then
      let c := MsgChain.setEffPerf fl (some prev) c
      c :: adjustAfter c chains
    else c :: chains

/-- The effective performance of the chains after the first one, which was merged. -/
def adjustNext : List (MsgChain F E) → List (MsgChain F E)
  | c :: next :: chains =>
    if c.next && fl.gt next.effPerf 0 then
      let next := { next with effPerf := fl.add next.effPerf next.parentOffset }
      c :: next :: adjustAfter fl next chains
    else c :: next :: chains
  | chains => chains

/-- The loop that merges the head chains with their dependencies, around `last`. -/
def mergeHeadWithDeps : Nat → (before chains : List ChainRef) → Selecting F E →
    Selecting F E × List ChainRef × List ChainRef
  | 0, before, chains, s => (s, before ++ chains, [])
  | _ + 1, before, [], s => (s, before, [])
  | rounds + 1, before, r :: chains, s =>
    if (s.lines.get r).gasPerf < 0 then (s, before ++ r :: chains, [])
    else if (s.lines.get r).merged then mergeHeadWithDeps rounds (before ++ [r]) chains s
    else
      match tryToAddWithDeps fl baseFee s r with
      | (true, s) =>
        let s := { s with lines := s.lines.update r (adjustNext fl) }
        mergeHeadWithDeps rounds (before ++ [r])
          (choose.sortRest (fun r r' => (s.lines.get r).beforeEffective fl (s.lines.get r')) (before ++ [r]) chains) s
      | (false, s) => (s, before, r :: chains)

/-- The inner loop of `tailLoop`: whether `tailLoop` goes on. -/
def packTailWithDeps : List ChainRef → Selecting F E → Selecting F E × Bool
  | [], s => (s, false)
  | r :: chains, s =>
    if (s.lines.get r).valid = false then packTailWithDeps chains s
    else if (s.lines.get r).merged then packTailWithDeps chains s
    else if (s.lines.get r).gasPerf < 0 then (s, false)
    else
      match tryToAddWithDeps fl baseFee s r with
      | (true, s) => packTailWithDeps chains s
      | (false, s) => (s, true)

/-- `tailLoop`, over `chains[last:]`, with all chains at its end. -/
def tailLoopWithDeps : Nat → (before chains : List ChainRef) → Selecting F E → Option (Selecting F E × List ChainRef)
  | _, before, [], s => some (s, before)
  | 0, _, _ :: _, _ => none
  | fuel + 1, before, r :: chains, s =>
    if s.result.gasLimit < minGas then some (s, before ++ r :: chains)
    else if (s.lines.get r).valid = false then tailLoopWithDeps fuel (before ++ [r]) chains s
    else
      let ls := s.result.trimChain fl baseFee s.lines r
      let chains :=
        if (ls.get r).valid then
          pushDown (fun r r' => (ls.get r).beforeEffective fl (ls.get r')) r chains
        else r :: chains
      match packTailWithDeps fl baseFee chains { s with lines := ls } with
      | (s, false) => some (s, before ++ chains)
      | (s, true) => tailLoopWithDeps fuel before chains s

def fillRandom : List ChainRef → Selecting F E → Selecting F E
  | [], s => s
  | r :: chains, s =>
    if s.result.gasLimit < minGas ∨ s.result.msgs.length ≥ blockMessageLimit then s
    else if (s.lines.get r).merged || !(s.lines.get r).valid then fillRandom chains s
    else if (s.lines.get r).gasPerf < 0 then fillRandom chains s
    else
      match tryToAddWithDeps fl baseFee s r with
      | (true, s) => fillRandom chains s
      | (false, s) =>
        if (s.lines.get r).valid then fillRandom chains (tryToAddWithDeps fl baseFee s r).2
        else fillRandom chains s

/-- The steps 3 to 5 of `selectMessagesOptimal`: effective performances by block. -/
def rankChains (tq : E) (ls : Lines F E) (chains : List ChainRef) : Lines F E :=
  let (partitions, rest) := partitionChains ls maxBlocks chains
  let ls := setEffectivePerfs fl (fl.blockProbabilities tq) 0 partitions ls
  rest.foldl (fun ls r => ls.modifyChain r fun _ => MsgChain.setNullEffectivePerf fl) ls

/-- The steps 6 and 7 of `selectMessagesOptimal`, and the random chains at its end. -/
def packRanked (fuel : Nat) (chains : List ChainRef) (s : Selecting F E) : Option SelectedMessages :=
  let (s, before, chains) := mergeHeadWithDeps fl choose baseFee chains.length [] chains s
  match tailLoopWithDeps fl baseFee fuel before chains s with
  | none => none
  | some (s, chains) =>
    if s.result.gasLimit ≥ minGas ∧ s.result.msgs.length ≤ blockMessageLimit then
      some (fillRandom fl baseFee (choose.shuffleChains chains) s).result
    else some s.result

/-- What `selectMessagesOptimal` does with its chains. -/
def packChainsOptimal (fuel : Nat) (tq : E) (ls : Lines F E) (result : SelectedMessages) : Option SelectedMessages :=
  let chains := choose.sortSlice (fun r r' => (ls.get r).before (ls.get r')) ls.refs
  if chains.head?.any fun r => (ls.get r).gasPerf < 0 then some result
  else
    let ls := rankChains fl tq ls chains
    packRanked fl choose baseFee fuel
      (choose.sortSlice (fun r r' => (ls.get r).beforeEffective fl (ls.get r')) chains) ⟨result, ls⟩
end

/-! ## The message pool -/

/-- The calls of the `Provider` interface, and the gas of a message of its length. -/
structure Provider where
  chainComputeBaseFee : TipSet → Except GoError Int
  getActorAfter : Address → TipSet → Except GoError Actor
  stateAccountKeyAtFinality : Address → TipSet → Except GoError Address
  loadTipSet : TipSetKey → Except GoError TipSet
  messagesForBlock : BlockHeader → Except GoError (List Message × List SignedMessage)
  onChainMessage : (height : Int) → SignedMessage → Int

/-- The fields of `MessagePool` that the selection reads; of a signature its type. -/
structure MessagePool where
  pending : GoMap Address MsgSet
  keyCache : GoMap Address Address
  curTs : TipSet
  priorityAddrs : List Address
  blsSigCache : GoMap Cid SigType

section
variable (api : Provider)

def resolveToKey (curTs : TipSet) (keyCache : GoMap Address Address) (addr : Address) :
    Except GoError Address × GoMap Address Address :=
  match keyCache.lookup addr with
  | some a => (.ok a, keyCache)
  | none =>
    match api.stateAccountKeyAtFinality addr curTs with
    | .error e => (.error e, keyCache)
    | .ok ka => (.ok ka, (keyCache.insert addr ka).insert ka ka)

/-! ## `getPendingMessages` -/

/-- `MessagePool.RecoverSig`. With a BLS signature the CID is that of the message. -/
def recoverSig (blsSigCache : GoMap Cid SigType) (msg : Message) : Option SignedMessage :=
  (blsSigCache.lookup msg.cid).map fun sigType => { cid := msg.cid, message := msg, sigType }

def messagesForBlocks (mp : MessagePool) : List BlockHeader → Except GoError (List SignedMessage)
  | [] => .ok []
  | b :: blks =>
    match api.messagesForBlock b with
    | .error e => .error (.wrap "failed to get messages for apply block" e)
    | .ok (bmsgs, smsgs) =>
      match messagesForBlocks mp blks with
      | .error e => .error e
      | .ok out => .ok (smsgs ++ bmsgs.filterMap (recoverSig mp.blsSigCache) ++ out)

def addPending (rmsgs : GoMap Address MsgSet) (m : SignedMessage) : GoMap Address MsgSet :=
  rmsgs.insert m.message.fromAddr (((rmsgs.lookup m.message.fromAddr).getD .empty).add m)

def rmPending (rmsgs : GoMap Address MsgSet) (m : Message) : GoMap Address MsgSet :=
  match rmsgs.lookup m.fromAddr with
  | none => rmsgs
  | some s => rmsgs.insert m.fromAddr (s.delete m.nonce)

/-- The loop over the tipsets to revert. Of the errors the last is kept. -/
def revertAll (mp : MessagePool) : List TipSet → GoMap Address MsgSet → Option GoError →
    GoMap Address MsgSet × Option GoError
  | [], rmsgs, merr => (rmsgs, merr)
  | ts :: revert, rmsgs, merr =>
    match messagesForBlocks api mp ts.blks with
    | .error e => revertAll mp revert rmsgs (some e)
    | .ok msgs => revertAll mp revert (msgs.foldl addPending rmsgs) merr

def applyAll : List BlockHeader → GoMap Address MsgSet → Option GoError → GoMap Address MsgSet × Option GoError
  | [], rmsgs, merr => (rmsgs, merr)
  | b :: blks, rmsgs, merr =>
    match api.messagesForBlock b with
    | .error e => applyAll blks rmsgs (some (.wrap "failed to get messages for apply block" e))
    | .ok (bmsgs, smsgs) => applyAll blks (bmsgs.foldl rmPending ((smsgs.map (·.message)).foldl rmPending rmsgs)) merr

/-- `MessagePool.runHeadChange`, with the messages at its end. -/
def runHeadChange (mp : MessagePool) (fuel : Nat) (fromTs toTs : TipSet) (rmsgs : GoMap Address MsgSet) :
    Option (Except GoError (GoMap Address MsgSet)) :=
  match reorgOps api.loadTipSet fuel fromTs toTs with
  | none => none
  | some (.error e) => some (.error (.wrap "failed to compute reorg ops for mpool pending messages" e))
  | some (.ok (revert, apply)) =>
    let (rmsgs, merr) := revertAll api mp revert rmsgs none
    match applyAll api (apply.flatMap (·.blks)) rmsgs merr with
    | (_, some e) => some (.error e)
    | (rmsgs, none) => some (.ok rmsgs)

def getPendingMessages (mp : MessagePool) (fuel : Nat) (ts : TipSet) : Option (Except GoError (GoMap Address MsgSet)) :=
  if mp.curTs.height = ts.height ∧ mp.curTs.equals ts then some (.ok mp.pending)
  else
    match runHeadChange api mp fuel mp.curTs ts mp.pending with
    | none => none
    | some (.error e) => some (.error (.wrap "failed to process difference between mpool head and given head" e))
    | some (.ok pending) => some (.ok pending)

/-! ## `SelectMessages` -/

variable {F E : Type} [LinearOrder F] [Zero F] [Zero E] (fl : Floats F E) (choose : Choices)

def chainsOf (baseFee : Int) (ts : TipSet) (actor : Address) (mset : MsgSet) : List (MsgChain F E) :=
  createMessageChains fl (api.onChainMessage ts.height) baseFee (api.getActorAfter actor ts) mset

/-- The loop of `selectPriorityMessages` over the priority addresses. -/
def priorityChains (curTs ts : TipSet) (baseFee : Int) :
    List Address → GoMap Address Address → GoMap Address MsgSet → Lines F E → Bool × GoMap Address MsgSet × Lines F E
  | [], _, pending, ls => (true, pending, ls)
  | actor :: priority, keyCache, pending, ls =>
    match resolveToKey api curTs keyCache actor with
    | (.error _, _) => (false, pending, ls)
    | (.ok pk, keyCache) =>
      match pending.lookup pk with
      | none => priorityChains curTs ts baseFee priority keyCache pending ls
      | some mset =>
        priorityChains curTs ts baseFee priority keyCache (pending.erase pk)
          (ls ++ [chainsOf api fl baseFee ts actor mset])

/-- `MessagePool.selectPriorityMessages`, with the messages that are still pending. -/
def selectPriorityMessages (mp : MessagePool) (fuel : Nat) (pending : GoMap Address MsgSet) (baseFee : Int)
    (ts : TipSet) : Option (SelectedMessages × GoMap Address MsgSet) :=
  let result : SelectedMessages := ⟨[], blockGasLimit, maxLength, maxLength⟩
  match priorityChains api fl mp.curTs ts baseFee mp.priorityAddrs mp.keyCache pending [] with
  | (false, pending, _) => some (result, pending)
  | (true, pending, ls) => (packChains fl choose baseFee fuel ls result).map fun result => (result, pending)

/-- What the two selections share: `full` is the test for a full block, `pack` what is done with the chains. `none` is a nil
pointer. -/
def selectWith (full : SelectedMessages → Bool)
    (pack : (baseFee : Int) → Lines F E → SelectedMessages → Option SelectedMessages)
    (mp : MessagePool) (fuel : Nat) (ts : TipSet) : Option (Except GoError (Option SelectedMessages)) :=
  match api.chainComputeBaseFee ts with
  | .error e => some (.error (.wrap "computing basefee" e))
  | .ok baseFee =>
    match getPendingMessages api mp fuel ts with
    | none => none
    | some (.error e) => some (.error e)
    | some (.ok pending) =>
      if pending.entries = [] then some (.ok none)
      else
        match selectPriorityMessages api fl choose mp fuel pending baseFee ts with
        | none => none
        | some (result, pending) =>
          if full result then some (.ok (some result))
          else
            (pack baseFee ((choose.rangePending pending).map fun e => chainsOf api fl baseFee ts e.1 e.2)
              result).map fun result => .ok (some result)

section
variable (mp : MessagePool) (fuel : Nat) (ts : TipSet)

def selectMessagesGreedy : Option (Except GoError (Option SelectedMessages)) :=
  selectWith api fl choose (fun result => result.gasLimit < minGas ∨ result.msgs.length > blockMessageLimit)
    (fun baseFee => packChains fl choose baseFee fuel) mp fuel ts

def selectMessagesOptimal (tq : E) : Option (Except GoError (Option SelectedMessages)) :=
  selectWith api fl choose (fun result => result.gasLimit < minGas ∨ result.msgs.length ≥ blockMessageLimit)
    (fun baseFee => packChainsOptimal fl choose baseFee fuel tq) mp fuel ts

def selectMessages (tq : E) : Option (Except GoError (List SignedMessage)) :=
  let sm :=
    if fl.gt tq fl.highQuality then selectMessagesGreedy api fl choose mp fuel ts
    else selectMessagesOptimal api fl choose mp fuel ts tq
  match sm with
  | none => none
  | some (.error e) => some (.error e)
  | some (.ok none) => some (.ok [])
  | some (.ok (some sm)) =>
    if sm.msgs.length > blockMessageLimit then some (.ok (sm.msgs.take blockMessageLimit))
    else some (.ok sm.msgs)
end
end
end Lotus.Mpool
