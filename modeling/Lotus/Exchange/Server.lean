/-
# Answering a request (`chain/exchange/server.go`, `chain/store/messages.go`).

The server walks back from the head of a request. A message of several blocks is sent once, by a table of indices. The
caches of the chain store hold what is stored, and are left out.
-/
import Lotus.Exchange.Protocol

namespace Lotus.Exchange
open Lib.Slice

def errorText : GoError → String
  | .actorNotFound => "actor not found"
  | .errorf msg => msg
  | .wrap msg e => msg ++ ": " ++ errorText e

/-- The blockstore of the chain store, by the kinds of objects that are read from it. -/
structure ServerStore where
  getBlock : Cid → Except GoError BlockHeader
  msgMeta : Cid → Except GoError (Cid × Cid)
  readAMTCids : Cid → Except GoError (List Cid)
  getMessage : Cid → Except GoError Message
  getSignedMessage : Cid → Except GoError SignedMessage

section
variable (cs : ServerStore)

/-! ## The chain store -/

/-- One block of `ChainStore.LoadTipSet`. -/
def loadBlock (c : Cid) : Except GoError BlockHeader :=
  match cs.getBlock c with
  | .error e => .error (.wrap "get block" e)
  | .ok b => .ok b

def loadTipSet [Blake2b] (tsk : TipSetKey) : Except GoError TipSet :=
  match tsk.mapM (loadBlock cs) with
  | .error e => .error e
  | .ok blks => newTipSet blks

def readMsgMetaCids (mmc : Cid) : Except GoError (List Cid × List Cid) :=
  match cs.msgMeta mmc with
  | .error e => .error (.wrap "failed to load msgmeta" e)
  | .ok (blsRoot, secpkRoot) =>
    match cs.readAMTCids blsRoot with
    | .error e => .error (.wrap "loading bls message cids for block" e)
    | .ok blscids =>
      match cs.readAMTCids secpkRoot with
      | .error e => .error (.wrap "loading secpk message cids for block" e)
      | .ok secpkcids => .ok (blscids, secpkcids)

def loadFrom {M : Type} (get : Cid → Except GoError M) (c : Cid) : Except GoError M :=
  match get c with
  | .error e => .error (.wrap "failed to get message" e)
  | .ok m => .ok m

def loadMessagesFromCids (cids : List Cid) : Except GoError (List Message) :=
  cids.mapM (loadFrom cs.getMessage)

def loadSignedMessagesFromCids (cids : List Cid) : Except GoError (List SignedMessage) :=
  cids.mapM (loadFrom cs.getSignedMessage)

def messagesForBlock (b : BlockHeader) : Except GoError (List Message × List SignedMessage) :=
  match readMsgMetaCids cs b.messages with
  | .error e => .error e
  | .ok (blscids, secpkcids) =>
    match loadMessagesFromCids cs blscids with
    | .error e => .error (.wrap "loading bls messages for block" e)
    | .ok blsmsgs =>
      match loadSignedMessagesFromCids cs secpkcids with
      | .error e => .error (.wrap "loading secpk messages for block" e)
      | .ok secpkmsgs => .ok (blsmsgs, secpkmsgs)

/-! ## The messages of a tipset -/

/-- The maps and slices of `gatherMessages`, for either kind of message. -/
structure Gathered where
  bls : Table Cid
  blsincl : List (List UInt64)
  secpk : Table Cid
  secpkincl : List (List UInt64)

def Gathered.empty : Gathered := ⟨.empty, [], .empty, []⟩

/-- What `gatherMessages` does with the CIDs of a block. -/
def Gathered.add (g : Gathered) (bc sc : List Cid) : Gathered where
  bls := (g.bls.internAll bc).1
  blsincl := g.blsincl ++ [(g.bls.internAll bc).2.map UInt64.ofNat]
  secpk := (g.secpk.internAll sc).1
  secpkincl := g.secpkincl ++ [(g.secpk.internAll sc).2.map UInt64.ofNat]

def gatherLoop : Gathered → List BlockHeader → Except GoError Gathered
  | g, [] => .ok g
  | g, b :: rest =>
    match readMsgMetaCids cs b.messages with
    | .error e => .error e
    | .ok (bc, sc) => gatherLoop (g.add bc sc) rest

def gatherMessages (ts : TipSet) : Except GoError CompactedMessages :=
  match gatherLoop cs .empty ts.blks with
  | .error e => .error e
  | .ok g =>
    match loadMessagesFromCids cs g.bls.keys with
    | .error e => .error e
    | .ok blsmsgs =>
      match loadSignedMessagesFromCids cs g.secpk.keys with
      | .error e => .error e
      | .ok secpkmsgs => .ok ⟨blsmsgs, g.blsincl, secpkmsgs, g.secpkincl⟩

/-! ## Requests -/

structure ValidatedRequest where
  head : TipSetKey
  length : UInt64
  options : ParsedOptions

def validateRequest (req : Request) : Except Response ValidatedRequest :=
  if (parseOptions req.options).noOptionsSet then .error ⟨statusBadRequest, "no options set", []⟩
  else if req.length.toNat > maxRequestLength then
    .error ⟨statusBadRequest, "request length over maximum allowed (900)", []⟩
  else if req.length = 0 then .error ⟨statusBadRequest, "invalid request length of zero", []⟩
  else if req.head.length = 0 then .error ⟨statusBadRequest, "no cids in request", []⟩
  else .ok ⟨req.head, req.length, parseOptions req.options⟩

variable [Blake2b]

def entryMessages (options : ParsedOptions) (ts : TipSet) : Except GoError (Option CompactedMessages) :=
  if options.includeMessages then
    match gatherMessages cs ts with
    | .error e => .error (.wrap "gather messages failed" e)
    | .ok msgs => .ok (some msgs)
  else .ok none

/-- The loop of `collectChainSegment`, with the number of tipsets that are still wanted. -/
def collectLoop (options : ParsedOptions) : Nat → TipSetKey → Except GoError (List (Option BSTipSet))
  | 0, _ => .ok []
  | n + 1, cur =>
    match loadTipSet cs cur with
    | .error e => .error (.wrap "failed loading tipset" e)
    | .ok ts =>
      match entryMessages cs options ts with
      | .error e => .error e
      | .ok msgs =>
        let bst : BSTipSet := ⟨if options.includeHeaders then ts.blks.map some else [], msgs⟩
        if n = 0 ∨ ts.height = 0 then .ok [some bst]
        else
          match collectLoop options n ts.parents with
          | .error e => .error e
          | .ok rest => .ok (some bst :: rest)

def collectChainSegment (req : ValidatedRequest) : Except GoError (List (Option BSTipSet)) :=
  collectLoop cs req.options req.length.toNat req.head

def serviceRequest (req : ValidatedRequest) : Response :=
  match collectChainSegment cs req with
  | .error e => ⟨statusInternalError, errorText e, []⟩
  | .ok chain =>
    ⟨if (chain.length : Int) < goInt req.length then statusPartial else statusOk, "", chain⟩

def processRequest (req : Request) : Response :=
  match validateRequest req with
  | .error res => res
  | .ok validReq => serviceRequest cs validReq
end
end Lotus.Exchange
