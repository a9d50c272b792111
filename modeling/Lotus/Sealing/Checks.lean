/-
# What the handlers call, and their sanity checks (`storage/pipeline/checks.go`).

A handler is a program over the calls of the node, of the sealer and of the batchers, and of sending an event. The checks
give errors of their own types; every other error goes to the log only.
-/
import Lotus.Lib.Prog
import Lotus.Sealing.Sector

namespace Lotus.Sealing
open Lib

/-! ## The calls -/

/-- `miner.SectorPreCommitOnChainInfo`, as far as it is read. -/
structure PreCommitOnChainInfo where
  expiration : Int
  sealRandEpoch : Int
  sealedCID : Cid
  preCommitEpoch : Int
  preCommitDeposit : Int
deriving DecidableEq

/-- `miner.SectorOnChainInfo`, as far as it is read. -/
structure SectorOnChainInfo where
  sealedCID : Cid
  expiration : Int
  initialPledge : Int
deriving DecidableEq

structure MsgLookup where
  exitCode : Int
  tipSet : TipSetKey
  height : Int
deriving DecidableEq

/-- `sealiface.PreCommitBatchRes` and `sealiface.CommitBatchRes`; `failed` is that the sector is among the failed ones. -/
structure BatchRes where
  error : String
  failed : Bool
  msg : Option Cid
deriving DecidableEq

/-- `sealiface.Config`, as far as it is read. -/
structure Config where
  makeCCSectorsAvailable : Bool
  waitDealsDelay : Int
  startEpochSealingBuffer : Int
  finalizeEarly : Bool
  collateralFromMinerBalance : Bool
  availableBalanceBuffer : Int
  disableCollateralFallback : Bool
  batchPreCommits : Bool
  aggregateCommits : Bool
deriving DecidableEq

inductive Remote where
  | commit1
  | commit2
deriving DecidableEq

inductive Api : Type → Type where
  | send (event : Event) : Api (Except GoError Unit)
  | chainHead : Api (Except GoError TipSet)
  | stateMinerSectorAllocated (tsk : TipSetKey) : Api (Except GoError Bool)
  | stateSectorPreCommitInfo (tsk : TipSetKey) : Api (Except GoError (Option PreCommitOnChainInfo))
  | stateNetworkVersion (tsk : TipSetKey) : Api (Except GoError Nat)
  | stateGetRandomnessFromTickets (epoch : Int) (tsk : TipSetKey) : Api (Except GoError Bytes)
  | stateGetRandomnessFromBeacon (epoch : Int) (tsk : TipSetKey) : Api (Except GoError Bytes)
  | stateMarketStorageDeal (id : UInt64) (tsk : TipSetKey) : Api (Except GoError DealProposal)
  | stateComputeDataCID (deals : List UInt64) (tsk : TipSetKey) : Api (Except GoError Cid)
  | stateMinerPreCommitDepositForPower (expiration : Int) (sealedCID : Cid) (tsk : TipSetKey) : Api (Except GoError Int)
  | stateMinerInitialPledgeCollateral (expiration : Int) (sealedCID : Cid) (tsk : TipSetKey) : Api (Except GoError Int)
  | stateMinerAvailableBalance : Api (Except GoError Int)
  | stateMinerInfo (tsk : TipSetKey) : Api (Except GoError Unit)
  | stateSectorPartition (tsk : TipSetKey) : Api (Except GoError Unit)
  | stateSectorGetInfo (tsk : TipSetKey) : Api (Except GoError (Option SectorOnChainInfo))
  | stateWaitMsg (msg : Cid) : Api (Except GoError MsgLookup)
  | stateSearchMsg (tsk : TipSetKey) (msg : Cid) : Api (Except GoError (Option MsgLookup))
  | sectorActive (tsk : TipSetKey) : Api (Except GoError Bool)
  | currentSealProof : Api (Except GoError Int)
  | getCurrentDealInfo (tsk : TipSetKey) (publishCid : Cid) : Api (Except GoError (UInt64 × Option DealProposal))
  /-- Serialisation of an address, of parameters or of a request. -/
  | marshal : Api (Except GoError Unit)
  | versionForNetwork (nv : Nat) : Api (Except GoError Nat)
  | getMaxProveCommitDuration (av : Nat) (sectorType : Int) : Api (Except GoError Int)
  | sectorSize (sectorType : Int) : Api (Except GoError Nat)
  | registeredUpdateProof (sectorType : Int) : Api (Except GoError Int)
  | expiration (pieces : List SectorPiece) : Api (Except GoError Int)
  | getConfig : Api (Except GoError Config)
  | addressFor (goodFunds minFunds : Int) : Api (Except GoError Address)
  /-- `sendMsg`, with the value. -/
  | sendMsg (value : Int) : Api (Except GoError Cid)
  | addPreCommit (deposit : Int) : Api (Except GoError BatchRes)
  | addCommit (proof : Bytes) : Api (Except GoError BatchRes)
  | addTermination : Api (Except GoError (Cid × Bool))
  | verifySeal (proof : Bytes) : Api (Except GoError Bool)
  | addPiece (size : Nat) : Api (Except GoError (Nat × Cid))
  | sealPreCommit1 : Api (Except GoError Bytes)
  | sealPreCommit2 : Api (Except GoError (Cid × Cid))
  | sealCommit1 : Api (Except GoError Bytes)
  | sealCommit2 : Api (Except GoError Bytes)
  | finalizeSector : Api (Except GoError Unit)
  | replicaUpdate : Api (Except GoError (Cid × Cid))
  | proveReplicaUpdate1 : Api (Except GoError Unit)
  | proveReplicaUpdate2 : Api (Except GoError (Option Bytes))
  | finalizeReplicaUpdate : Api (Except GoError Unit)
  | releaseSectorKey : Api (Except GoError Unit)
  | releaseReplicaUpgrade : Api (Except GoError Unit)
  | releaseUnsealed : Api (Except GoError Unit)
  | remove : Api (Except GoError Unit)
  | downloadSectorData : Api (Except GoError Unit)
  /-- A request to a remote: its creation, its status, and its body. -/
  | newRequest (remote : Remote) (url : String) : Api (Except GoError Unit)
  | httpDo (remote : Remote) : Api (Except GoError Nat)
  | readAll (remote : Remote) : Api (Except GoError Bytes)
  | failedCooldown : Api (Except GoError Unit)
  /-- `events.ChainAt`: its error, and whether its handler is called. -/
  | chainAt (height : Int) : Api (Except GoError Unit × Bool)
  /-- How many rounds a loop without a bound makes. -/
  | rounds : Api Nat
  /-- The pieces that the input manager has assigned to the sector, and a pending piece: its size and its deal. -/
  | assignedPieces : Api (Option (List Cid))
  | pendingPiece (piece : Cid) : Api (Option (Nat × PieceDealInfo))
  /-- Whether the timer of the sector expired before it was stopped, whether a new one fires, and the time. -/
  | timerExpired : Api Bool
  | timerFires : Api Bool
  | now : Api Int
  /-- How many pieces the open sector is given. -/
  | maybeAccept : Api Nat

/-- Why a handler panics: the nil result of a failed call, or another nil pointer, index or divisor. -/
inductive Panic where
  | failedResult
  | other
deriving DecidableEq

abbrev H := Prog Api Panic

abbrev ask {α : Type} (c : Api α) : H α := Prog.ask c

/-- `ctx.Send` where its error is only logged. -/
def send (event : Event) : H Unit := do
  let _ ← ask (.send event)

@[simp] def Only (P : Event → Prop) {α : Type} : Api α → Prop
  | .send e => P e
  | _ => True

/-- Only events in `P` are sent, and only `E` ends a run early. -/
abbrev Sends (P : Event → Prop) (hyp : ∀ {α}, Api α → α → Prop) (E : Panic → Prop) {α : Type} (p : H α) : Prop :=
  p.Always (Only P) hyp (fun _ => True) E

section
variable {P : Event → Prop} {hyp : ∀ {α}, Api α → α → Prop} {E : Panic → Prop}

@[simp] theorem always_send (event : Event) {Q : Unit → Prop} :
    (send event).Always (Only P) hyp Q E ↔ P event ∧ ∀ r, hyp (.send event) r → Q () := by
  simp only [send, Prog.always_bind, Prog.always_ask, Prog.always_pure, Only]
end

/-- The miner's address and the constants of the policy. -/
structure Env where
  maddr : Address
  zeroPieceCommitment : Nat → Cid
  sealRandomnessLookback : Int
  maxPreCommitRandomnessLookback : Int
  preCommitChallengeDelay : Int
  maxSectorExpirationExtension : Int
  minSectorExpiration : Int
  winningPoStSectorSetLookback : Nat → Int
  interactivePoRepConfidence : Int
  blockDelaySecs : Int
  maxPreCommitGasFee : Int
  maxCommitGasFee : Int

def unpadded (size : Nat) : Nat := size - size / 128

def padded (size : Nat) : Nat := size + size / 127

/-! ## The checks -/

/-- The types of the errors of the checks; `other` is an error of no such type. -/
inductive CheckError where
  | errApi
  | errNoDeals
  | errInvalidDeals
  | errInvalidPiece
  | errExpiredDeals
  | errBadCommD
  | errExpiredTicket
  | errBadTicket
  | errPrecommitOnChain
  | errSectorNumberAllocated
  | errBadSeed
  | errInvalidProof
  | errNoPrecommit
  | errCommitWaitFailed
  | errBadRU
  | errBadPR
  | other
deriving DecidableEq

def checkPiecesLoop (m : Env) (ts : TipSet) : Nat → Nat → List SectorPiece → H (Except CheckError Nat)
  | _, dealCount, [] => return .ok dealCount
  | offset, dealCount, p :: pieces => do
    if p.size = 0 then Prog.fail .other
    else if offset % p.size ≠ 0 then return .error .errInvalidPiece
    else
      match p.dealInfo with
      | none =>
        -- a piece without a deal has to be filler
        if p.pieceCID ≠ m.zeroPieceCommitment (unpadded p.size) then return .error .errInvalidPiece
        else checkPiecesLoop m ts (offset + p.size) dealCount pieces
      | some deal => do
        let .ok proposal ← ask (.stateMarketStorageDeal deal.dealID ts.key) | return .error .errInvalidDeals
        if proposal.provider ≠ m.maddr then return .error .errInvalidDeals
        else if proposal.pieceCID ≠ p.pieceCID then return .error .errInvalidDeals
        else if p.size ≠ proposal.pieceSize then return .error .errInvalidDeals
        else if ts.height ≥ proposal.startEpoch then return .error .errExpiredDeals
        else checkPiecesLoop m ts (offset + p.size) (dealCount + 1) pieces

def checkPieces (m : Env) (pieces : List SectorPiece) (mustHaveDeals : Bool) : H (Except CheckError Unit) := do
  let .ok ts ← ask .chainHead | return .error .errApi
  match ← checkPiecesLoop m ts 0 0 pieces with
  | .error err => return .error err
  | .ok dealCount => if mustHaveDeals ∧ dealCount = 0 then return .error .errNoDeals else return .ok ()

def checkPrecommit (m : Env) (si : SectorInfo) (ts : TipSet) : H (Except CheckError Unit) := do
  match ← checkPieces m si.pieces false with
  | .error err => return .error err
  | .ok () =>
    let .ok commD ← ask (.stateComputeDataCID si.dealIDs ts.key) | return .error .errApi
    if si.commD ≠ some commD then return .error .errBadCommD
    else
      let .ok pci ← ask (.stateSectorPreCommitInfo ts.key) | return .error .errApi
      match pci with
      | some pci =>
        if pci.sealRandEpoch ≠ si.ticketEpoch then return .error .errBadTicket
        else return .error .errPrecommitOnChain
      | none =>
        let .ok alloc ← ask (.stateMinerSectorAllocated ts.key) | return .error .other
        if alloc then return .error .errSectorNumberAllocated
        else if si.ticketEpoch < ts.height - m.maxPreCommitRandomnessLookback then return .error .errExpiredTicket
        else return .ok ()

/-- `checkCommit` behind the lookup of the precommit. -/
def checkCommitOnChain (m : Env) (si : SectorInfo) (proof : Bytes) (tsk : TipSetKey) (pci : PreCommitOnChainInfo) :
    H (Except CheckError Unit) := do
  if pci.preCommitEpoch + m.preCommitChallengeDelay ≠ si.seedEpoch then return .error .errBadSeed
  else
    let .ok () ← ask .marshal | return .error .other
    let .ok seed ← ask (.stateGetRandomnessFromBeacon si.seedEpoch tsk) | return .error .errApi
    if seed ≠ si.seedValue then return .error .errBadSeed
    -- `*si.CommR` and `*si.CommD`
    else if si.commR = none ∨ si.commD = none then Prog.fail .other
    else
      let .ok true ← ask (.verifySeal proof) | return .error .errInvalidProof
      checkPieces m si.pieces false

def checkCommit (m : Env) (si : SectorInfo) (proof : Bytes) (tsk : TipSetKey) : H (Except CheckError Unit) := do
  if si.seedEpoch = 0 then return .error .errBadSeed
  else
    let .ok pci ← ask (.stateSectorPreCommitInfo tsk) | return .error .other
    match pci with
    | none =>
      let .ok alloc ← ask (.stateMinerSectorAllocated tsk) | return .error .other
      if alloc then
        -- the commit may have landed
        if si.commitMessage ≠ none then return .error .errCommitWaitFailed else return .error .other
      else return .error .errNoPrecommit
    | some pci => checkCommitOnChain m si proof tsk pci

def checkReplicaUpdate (m : Env) (si : SectorInfo) (tsk : TipSetKey) : H (Except CheckError Unit) := do
  match ← checkPieces m si.pieces true with
  | .error err => return .error err
  | .ok () =>
    if !si.ccUpdate then return .error .other
    else
      let .ok commD ← ask (.stateComputeDataCID si.dealIDs tsk) | return .error .errApi
      if si.updateUnsealed ≠ some commD then return .error .errBadRU
      else if si.updateSealed = none then return .error .errBadRU
      else if si.replicaUpdateProof = none then return .error .errBadPR
      else return .ok ()

/-! ## The checks send no events -/

section
variable {P : Event → Prop} {hyp : ∀ {α}, Api α → α → Prop} {E : Panic → Prop} {m : Env}

theorem checkPiecesLoop_always {Q : Except CheckError Nat → Prop} (hE : E .other)
    (hQ : ∀ r, r ≠ .error .errCommitWaitFailed → Q r) (ts : TipSet) (offset dealCount : Nat)
    (pieces : List SectorPiece) : (checkPiecesLoop m ts offset dealCount pieces).Always (Only P) hyp Q E := by
  induction pieces generalizing offset dealCount with
  | nil => exact hQ _ nofun
  | cons p pieces ih =>
    cases hd : p.dealInfo with
    | none | some deal => simp [checkPiecesLoop, hd, hE, hQ, ih]

variable {Q : Except CheckError Unit → Prop}

section
variable (hE : E .other)
include hE

theorem checkPieces_always (hQ : ∀ r, r ≠ .error .errCommitWaitFailed → Q r)
    (pieces : List SectorPiece) (mustHaveDeals : Bool) : (checkPieces m pieces mustHaveDeals).Always (Only P) hyp Q E := by
  simp only [checkPieces, Prog.always_bind, Prog.always_ask, Only, true_and, Prog.forall_except]
  refine ⟨fun _ _ => hQ _ (by simp), fun ts _ => checkPiecesLoop_always hE (fun r hr => ?_) ts 0 0 pieces⟩
  cases r with
  | error err => exact hQ _ fun hb => hr (congrArg _ (Except.error.inj hb))
  | ok dealCount => simp [hQ]

theorem checkPrecommit_always (hQ : ∀ r, Q r) (si : SectorInfo) (ts : TipSet) :
    (checkPrecommit m si ts).Always (Only P) hyp Q E := by
  simp only [checkPrecommit, Prog.always_bind]
  refine checkPieces_always hE (fun r _ => ?_) _ _
  cases r with
  | error err => exact hQ _
  | ok u => simp [hQ, Option.forall]

theorem checkCommit_always (si : SectorInfo)
    (hQ : ∀ r, (r = .error .errCommitWaitFailed → si.commitMessage ≠ none) → Q r) (proof : Bytes) (tsk : TipSetKey) :
    (checkCommit m si proof tsk).Always (Only P) hyp Q E := by
  have hpcs : (checkPieces m si.pieces false).Always (Only P) hyp Q E :=
    checkPieces_always hE (fun r hr => hQ r fun hb => absurd hb hr) _ _
  have hch : ∀ pci, (checkCommitOnChain m si proof tsk pci).Always (Only P) hyp Q E := by
    intro pci
    simp [checkCommitOnChain, hE, hQ, hpcs]
  simp +contextual [checkCommit, hQ, Option.forall, hch]

theorem checkReplicaUpdate_always (hQ : ∀ r, Q r) (si : SectorInfo) (tsk : TipSetKey) :
    (checkReplicaUpdate m si tsk).Always (Only P) hyp Q E := by
  simp only [checkReplicaUpdate, Prog.always_bind]
  refine checkPieces_always hE (fun r _ => ?_) _ _
  cases r with
  | error err => exact hQ _
  | ok u => simp [hQ]
end
end
end Lotus.Sealing
