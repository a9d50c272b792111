/-
# Fetching the messages of a chain (`chain/sync.go`).

What a request brings is checked against the message roots in the headers (`checkMsgMeta`), then the tipsets are filled
(`zipTipSetAndMessages`). An index out of range is a panic that nothing recovers. Peers are a function from a call to their
answers in order. The goroutines of a batch are run in order. `iterFullTipsets` returns, beside its result, what it did that
others see: its calls of the callback, and its copies into the permanent store.
-/
import Lotus.Exchange.Client
import Lotus.Exchange.Server

namespace Lotus.Sync
open Lib.Slice Exchange

/-- The arrays of message CIDs that block headers use, third-party. -/
class BlockAdt where
  root : List Cid → Except GoError Cid
  putMsgMeta : Cid → Cid → Except GoError Cid

section
variable [BlockAdt]

def computeMsgMeta (bmsgCids smsgCids : List Cid) : Except GoError Cid :=
  match BlockAdt.root bmsgCids with
  | .error e => .error e
  | .ok bmroot =>
    match BlockAdt.root smsgCids with
    | .error e => .error e
    | .ok smroot =>
      match BlockAdt.putMsgMeta bmroot smroot with
      | .error e => .error (.wrap "failed to put msgmeta" e)
      | .ok mrcid => .ok mrcid

def checkRoot (b : BlockHeader) (bmsgCids smsgCids : List Cid) : Except GoError Unit :=
  match computeMsgMeta bmsgCids smsgCids with
  | .error e => .error e
  | .ok mrcid =>
    if b.messages ≠ mrcid then .error (.errorf "messages didnt match message root in header")
    else .ok ()

def tooMany (bmis smis : List UInt64) : Prop := bmis.length + smis.length > blockMessageLimit

instance (bmis smis : List UInt64) : Decidable (tooMany bmis smis) := inferInstanceAs (Decidable (_ > _))

/-- One round of `checkMsgMeta`. -/
def checkBlock (msgs : CompactedMessages) (bi : Nat) (b : BlockHeader) : Except RuntimePanic (Except GoError Unit) := do
  let bmis ← index msgs.blsIncludes bi
  let smis ← index msgs.secpkIncludes bi
  if tooMany bmis smis then pure (.error (.errorf "block has too many messages"))
  else do
    let smsgs ← gather msgs.secpk (smis.map UInt64.toNat)
    let bmsgs ← gather msgs.bls (bmis.map UInt64.toNat)
    pure (checkRoot b (bmsgs.map (·.cid)) (smsgs.map (·.cid)))

def checkMsgMeta (ts : TipSet) (msgs : CompactedMessages) : Except RuntimePanic (Except GoError Unit) :=
  firstError (checkBlock msgs) 0 ts.blks

/-- One round of the loop of `zipTipSetAndMessages`. -/
def zipBlock (msgs : CompactedMessages) (p : BlockHeader × Nat) : Except RuntimePanic FullBlock := do
  let smsgs ← included msgs.secpk msgs.secpkIncludes p.2
  let bmsgs ← included msgs.bls msgs.blsIncludes p.2
  pure ⟨p.1, bmsgs, smsgs⟩

def zipTipSetAndMessages (ts : TipSet) (msgs : CompactedMessages) : Except RuntimePanic (Except GoError FullTipSet) :=
  if ts.blks.length ≠ msgs.secpkIncludes.length ∨ ts.blks.length ≠ msgs.blsIncludes.length then
    .ok (.error (.errorf "msgincl length didnt match tipset size"))
  else
    match checkMsgMeta ts msgs with
    | .error p => .error p
    | .ok (.error e) => .ok (.error e)
    | .ok (.ok ()) =>
      match ts.blks.zipIdx.mapM (zipBlock msgs) with
      | .error p => .error p
      | .ok blocks => .ok (.ok ⟨blocks⟩)
end

/-! ## Fetching -/

def syncRequestBatchSize : Nat := 8

/-- `concurrentSyncRequests`, which is `exchange.ShufflePeersPrefix`. -/
def concurrentSyncRequests : Nat := 16

def syncRequestRetries : Nat := 5

/-- Where the batch and its part start, how far the part is, and which try it is. -/
structure Call where
  startOffset : Nat
  j : Nat
  offset : Nat
  retry : Nat

/-- What the peers answer to a call for the messages of some tipsets. -/
abbrev Peers := Call → List TipSet → List (Except GoError Response)

section
variable [Blake2b] [BlockAdt] (peers : Peers) (headers : List TipSet)

/-- The loop of `fetchMessages` that checks a result: `result[index]` for every header. -/
def checkResult (result : List CompactedMessages) : Except RuntimePanic (Except GoError Unit) :=
  firstError (fun i ts => do checkMsgMeta ts (← index result i)) 0 headers

/-- The loop of `fetchMessages` over the tries that are left. -/
def retryLoop (headers : List TipSet) (call : Nat → Call) :
    Nat → Nat → List GoError → Except RuntimePanic (Except (List GoError) (List CompactedMessages))
  | 0, _, requestErr => .ok (.error requestErr)
  | n + 1, retry, requestErr =>
    match getChainMessages headers (peers (call retry) headers) with
    | .error p => .error p
    | .ok (.error e) => retryLoop headers call n (retry + 1) (requestErr ++ [e])
    | .ok (.ok result) =>
      match checkResult headers result with
      | .error p => .error p
      | .ok (.error _) => retryLoop headers call n (retry + 1) requestErr
      | .ok (.ok ()) => .ok (.ok result)

/-- The loop of a goroutine of `fetchMessages`, of at most as many rounds as headers. -/
def partLoop (headers : List TipSet) (startOffset j : Nat) :
    Nat → List CompactedMessages → Except RuntimePanic (Except (List GoError) (List CompactedMessages))
  | fuel, batch =>
    if batch.length < headers.length then
      match retryLoop peers (headers.drop batch.length) (⟨startOffset, j, batch.length, ·⟩)
        syncRequestRetries 0 [] with
      | .error p => .error p
      | .ok (.error requestErr) => .ok (.error requestErr)
      | .ok (.ok result) =>
        match fuel with
        | 0 => .ok (.error [.errorf "no return: a result without entries"])
        | fuel + 1 => partLoop headers startOffset j fuel (batch ++ result)
    else .ok (.ok batch)

/-- A goroutine of `fetchMessages`. -/
def fetchPart (startOffset j : Nat) : Except RuntimePanic (Except (List GoError) (List CompactedMessages)) :=
  let part := (headers.drop j).take syncRequestBatchSize
  partLoop peers part startOffset j part.length []

/-- The parts of a batch put together: the messages, or the errors of the parts that failed. -/
def joinParts : List (Except (List GoError) (List CompactedMessages)) → Except (List GoError) (List CompactedMessages)
  | [] => .ok []
  | .ok msgs :: rest =>
    match joinParts rest with
    | .ok batch => .ok (msgs ++ batch)
    | .error errs => .error errs
  | .error errs :: rest =>
    match joinParts rest with
    | .ok _ => .error errs
    | .error errs' => .error (errs ++ errs')

def partStarts (batchSize : Nat) : List Nat :=
  (List.range ((batchSize + syncRequestBatchSize - 1) / syncRequestBatchSize)).map (· * syncRequestBatchSize)

def fetchMessages (startOffset : Nat) : Except RuntimePanic (Except (List GoError) (List CompactedMessages)) := do
  let parts ← (partStarts headers.length).mapM (fetchPart peers headers startOffset)
  pure (joinParts parts)
end

/-! ## Filling the tipsets of a chain -/

/-- What `iterFullTipsets` calls outside, each at the position of a header. -/
structure SyncEnv where
  store : Nat → ServerStore
  cb : Nat → FullTipSet → Except GoError Unit
  putMessage : Nat → Cid → Except GoError Unit
  copyBlockstore : Nat → Except GoError Unit

/-- One round of `TryFillTipSet`. -/
def fillBlock (cs : ServerStore) (b : BlockHeader) : Except GoError FullBlock :=
  (messagesForBlock cs b).map fun msgs => ⟨b, msgs.1, msgs.2⟩

/-- `ChainStore.TryFillTipSet`, which has no error: a block whose messages cannot be loaded makes it return nothing. -/
def tryFillTipSet (cs : ServerStore) (ts : TipSet) : Option FullTipSet :=
  match ts.blks.mapM (fillBlock cs) with
  | .error _ => none
  | .ok blocks => some ⟨blocks⟩

inductive Act where
  | callback (i : Nat) (fts : FullTipSet)
  | copy (i : Nat)

/-- What was done, and the result. -/
abbrev Done := List Act × Except RuntimePanic (Except GoError Unit)

/-- Go on after a success, and return otherwise. -/
def Done.next (d rest : Done) : Done :=
  match d.2 with
  | .ok (.ok ()) => (d.1 ++ rest.1, rest.2)
  | _ => d

/-- The number of headers, up to the one at `i`, that one call of `fetchMessages` is for. -/
def batchSize (i : Nat) : Nat :=
  if i < concurrentSyncRequests * syncRequestBatchSize then i + 1
  else concurrentSyncRequests * syncRequestBatchSize

theorem batchSize_bounds (i : Nat) : 0 < batchSize i ∧ batchSize i ≤ i + 1 := by
  unfold batchSize concurrentSyncRequests syncRequestBatchSize
  split <;> omega

section
variable [Blake2b] [BlockAdt] (peers : Peers) (env : SyncEnv)

/-- One round of the first loop of `persistMessages`. -/
def persistBls (i : Nat) (m : Message) : Except GoError Unit :=
  match env.putMessage i m.cid with
  | .error e => .error (.wrap "BLS message processing failed" e)
  | .ok () => .ok ()

/-- One round of the second loop of `persistMessages`. -/
def persistSecpk (i : Nat) (m : SignedMessage) : Except GoError Unit :=
  if m.sigType ≠ .secp256k1 then .error (.errorf "unknown signature type on message")
  else
    match env.putMessage i m.cid with
    | .error e => .error (.wrap "secp256k1 message processing failed" e)
    | .ok () => .ok ()

def persistMessages (i : Nat) (bst : CompactedMessages) : Except GoError Unit :=
  match bst.bls.mapM (persistBls env i) with
  | .error e => .error e
  | .ok _ =>
    match bst.secpk.mapM (persistSecpk env i) with
    | .error e => .error e
    | .ok _ => .ok ()

def callback (i : Nat) (fts : FullTipSet) : Done := ([.callback i fts], .ok (env.cb i fts))

/-- What `iterFullTipsets` does with a tipset it has filled. -/
def useFullTipSet (i : Nat) (bstip : CompactedMessages) (fts : FullTipSet) : Done :=
  (callback env i fts).next (Done.next ([], .ok (persistMessages env i bstip))
    ([.copy i], .ok ((env.copyBlockstore i).mapError (.wrap "message processing failed"))))

/-- One round of the inner loop of `iterFullTipsets`, with the messages from the end of the batch. -/
def zipRound (headers : List TipSet) (i : Nat) (bstout : List CompactedMessages) (bsi : Nat) : Done :=
  if i < bsi then ([], .error .indexOutOfRange)
  else
    match index headers (i - bsi) with
    | .error p => ([], .error p)
    | .ok this =>
      match index bstout (bstout.length - (bsi + 1)) with
      | .error p => ([], .error p)
      | .ok bstip =>
        match zipTipSetAndMessages this bstip with
        | .error p => ([], .error p)
        | .ok (.error e) => ([], .ok (.error (.wrap "message processing failed" e)))
        | .ok (.ok fts) => useFullTipSet env (i - bsi) bstip fts

/-- The inner loop of `iterFullTipsets`. -/
def zipLoop (headers : List TipSet) (i : Nat) (bstout : List CompactedMessages) : List Nat → Done
  | [] => ([], .ok (.ok ()))
  | bsi :: rest => (zipRound env headers i bstout bsi).next (zipLoop headers i bstout rest)

/-- The loop of `iterFullTipsets`; `left` is the number of headers it has not come to. -/
def iterLoop (headers : List TipSet) : Nat → Done
  | 0 => ([], .ok (.ok ()))
  | i + 1 =>
    match index headers i with
    | .error p => ([], .error p)
    | .ok ts =>
      match tryFillTipSet (env.store i) ts with
      | some fts => (callback env i fts).next (iterLoop headers i)
      | none =>
        match fetchMessages peers ((headers.drop (i + 1 - batchSize i)).take (batchSize i))
          (i + 1 - batchSize i) with
        | .error p => ([], .error p)
        | .ok (.error _) => ([], .ok (.error (.errorf "failed to fetch messages")))
        | .ok (.ok bstout) =>
          (zipLoop env headers i bstout (List.range bstout.length)).next (iterLoop headers (i + 1 - batchSize i))
termination_by left => left
decreasing_by
  · omega
  · have hbounds := batchSize_bounds i
    omega

def iterFullTipsets (headers : List TipSet) : Done := iterLoop peers env headers headers.length
end
end Lotus.Sync
