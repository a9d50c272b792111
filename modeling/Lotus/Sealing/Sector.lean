/-
# Sectors and the events of their state machine (`storage/pipeline/types.go`, `sector_state.go`,
`fsm_events.go`).

A global event is applied in every state. The type of an event is its constructor. What is for the log or the journal only
is left out.
-/
import Lotus.Types.TipSet

namespace Lotus.Sealing

inductive SectorState where
  | undefinedSectorState
  | empty
  | waitDeals
  | addPiece
  | packing
  | getTicket
  | preCommit1
  | preCommit2
  | preCommitting
  | preCommitWait
  | submitPreCommitBatch
  | preCommitBatchWait
  | waitSeed
  | committing
  | commitFinalize
  | commitFinalizeFailed
  | submitCommit
  | commitWait
  | submitCommitAggregate
  | commitAggregateWait
  | finalizeSector
  | proving
  | available
  | snapDealsWaitDeals
  | snapDealsAddPiece
  | snapDealsPacking
  | updateReplica
  | proveReplicaUpdate
  | submitReplicaUpdate
  | replicaUpdateWait
  | finalizeReplicaUpdate
  | updateActivating
  | releaseSectorKey
  | receiveSector
  | failedUnrecoverable
  | addPieceFailed
  | sealPreCommit1Failed
  | sealPreCommit2Failed
  | preCommitFailed
  | computeProofFailed
  | remoteCommitFailed
  | commitFailed
  | packingFailed
  | finalizeFailed
  | dealsExpired
  | recoverDealIDs
  | snapDealsAddPieceFailed
  | snapDealsDealsExpired
  | snapDealsRecoverDealIDs
  | abortUpgrade
  | replicaUpdateFailed
  | releaseSectorKeyFailed
  | finalizeReplicaUpdateFailed
  | faulty
  | faultReported
  | faultedFinal
  | terminating
  | terminateWait
  | terminateFinality
  | terminateFailed
  | removing
  | removeFailed
  | removed
  /-- A string that no state has. -/
  | unknown (name : String)
deriving DecidableEq

/-- `market.DealProposal`, as far as it is read. -/
structure DealProposal where
  provider : Address
  pieceCID : Cid
  pieceSize : Nat
  startEpoch : Int
  endEpoch : Int
deriving DecidableEq

structure PieceDealInfo where
  publishCid : Option Cid
  dealID : UInt64
  dealProposal : Option DealProposal
  keepUnsealed : Bool
deriving DecidableEq

/-- `api.SectorPiece`, with the fields of its `abi.PieceInfo`. -/
structure SectorPiece where
  size : Nat
  pieceCID : Cid
  dealInfo : Option PieceDealInfo
deriving DecidableEq

/-- `storiface.SectorLocation`, as far as it is read. -/
structure SectorLocation where
  isLocal : Bool
  url : String
deriving DecidableEq

structure SectorInfo where
  state : SectorState
  sectorNumber : UInt64
  sectorType : Int
  creationTime : Int
  pieces : List SectorPiece
  ticketValue : Bytes
  ticketEpoch : Int
  preCommit1Out : Bytes
  commD : Option Cid
  commR : Option Cid
  proof : Bytes
  preCommitDeposit : Int
  preCommitMessage : Option Cid
  preCommitTipSet : TipSetKey
  preCommit2Fails : UInt64
  seedValue : Bytes
  seedEpoch : Int
  commitMessage : Option Cid
  invalidProofs : UInt64
  ccUpdate : Bool
  ccPieces : List SectorPiece
  updateSealed : Option Cid
  updateUnsealed : Option Cid
  replicaUpdateProof : Option Bytes
  replicaUpdateMessage : Option Cid
  faultReportMsg : Option Cid
  /-- The state to go back to; none is the empty string. -/
  ret : Option SectorState
  terminateMessage : Option Cid
  terminatedAt : Int
  remoteDataUnsealed : Option SectorLocation
  remoteDataSealed : Option SectorLocation
  remoteDataCache : Option SectorLocation
  remoteCommit1Endpoint : String
  remoteCommit2Endpoint : String
  remoteDataFinalized : Bool
deriving DecidableEq

def SectorInfo.zero (state : SectorState) : SectorInfo where
  state := state
  sectorNumber := 0
  sectorType := 0
  creationTime := 0
  pieces := []
  ticketValue := []
  ticketEpoch := 0
  preCommit1Out := []
  commD := none
  commR := none
  proof := []
  preCommitDeposit := 0
  preCommitMessage := none
  preCommitTipSet := []
  preCommit2Fails := 0
  seedValue := []
  seedEpoch := 0
  commitMessage := none
  invalidProofs := 0
  ccUpdate := false
  ccPieces := []
  updateSealed := none
  updateUnsealed := none
  replicaUpdateProof := none
  replicaUpdateMessage := none
  faultReportMsg := none
  ret := none
  terminateMessage := none
  terminatedAt := 0
  remoteDataUnsealed := none
  remoteDataSealed := none
  remoteDataCache := none
  remoteCommit1Endpoint := ""
  remoteCommit2Endpoint := ""
  remoteDataFinalized := false

namespace SectorInfo

def dealIDs (t : SectorInfo) : List UInt64 := t.pieces.filterMap fun p => p.dealInfo.map (·.dealID)

def hasDeals (t : SectorInfo) : Bool := t.pieces.any fun p => p.dealInfo.isSome

end SectorInfo

/-- The events. The error that an event carries goes to the log only. -/
inductive Event where
  | sectorRestart
  | sectorFatalError
  | sectorForceState (state : SectorState)
  | sectorStart (id : UInt64) (sectorType : Int)
  | sectorStartCC (id : UInt64) (sectorType : Int)
  | sectorAddPiece
  | sectorPieceAdded (newPieces : List SectorPiece)
  | sectorAddPieceFailed
  | sectorRetryWaitDeals
  | sectorStartPacking
  | sectorPacked (fillerPieces : List (Nat × Cid))
  | sectorTicket (ticketValue : Bytes) (ticketEpoch : Int)
  | sectorOldTicket
  | sectorPreCommit1 (preCommit1Out : Bytes)
  | sectorPreCommit2 (sealed unsealed : Cid)
  | sectorPreCommitBatch
  | sectorPreCommitBatchSent (message : Cid)
  | sectorPreCommitLanded (tipSet : TipSetKey)
  | sectorSealPreCommit1Failed
  | sectorSealPreCommit2Failed
  | sectorChainPreCommitFailed
  | sectorPreCommitted (message : Cid) (preCommitDeposit : Int)
  | sectorSeedReady (seedValue : Bytes) (seedEpoch : Int)
  | sectorRemoteCommit1Failed
  | sectorRemoteCommit2Failed
  | sectorComputeProofFailed
  | sectorCommitFailed
  | sectorRetrySubmitCommit
  | sectorDealsExpired
  | sectorTicketExpired
  | sectorCommitted (proof : Bytes)
  | sectorProofReady (proof : Bytes)
  | sectorSubmitCommitAggregate
  | sectorCommitSubmitted (message : Cid)
  | sectorCommitAggregateSent (message : Cid)
  | sectorProving
  | sectorFinalized
  | sectorFinalizedAvailable
  | sectorRetryFinalize
  | sectorFinalizeFailed
  | sectorMarkForUpdate
  | sectorStartCCUpdate
  | sectorReplicaUpdate (newSealed newUnsealed : Cid)
  | sectorProveReplicaUpdate (proof : Option Bytes)
  | sectorReplicaUpdateSubmitted (message : Cid)
  | sectorReplicaUpdateLanded
  | sectorUpdateActive
  | sectorKeyReleased
  | sectorRetrySealPreCommit1
  | sectorRetrySealPreCommit2
  | sectorRetryPreCommit
  | sectorRetryWaitSeed
  | sectorRetryPreCommitWait
  | sectorRetryComputeProof
  | sectorRetryInvalidProof
  | sectorRetryCommitWait
  | sectorInvalidDealIDs (ret : Option SectorState)
  | sectorUpdateDealIDs (updates : List (Nat × UInt64))
  | sectorRetryReplicaUpdate
  | sectorRetryProveReplicaUpdate
  | sectorUpdateReplicaFailed
  | sectorProveReplicaUpdateFailed
  | sectorAbortUpgrade
  | sectorRevertUpgradeToProving
  | sectorRetrySubmitReplicaUpdateWait
  | sectorRetrySubmitReplicaUpdate
  | sectorSubmitReplicaUpdateFailed
  | sectorReleaseKeyFailed
  | sectorFaulty
  | sectorFaultReported (reportMsg : Cid)
  | sectorFaultedFinal
  | sectorTerminate
  | sectorTerminating (message : Option Cid)
  | sectorTerminated (terminatedAt : Int)
  | sectorTerminateFailed
  | sectorRemove
  | sectorRemoved
  | sectorRemoveFailed
  | sectorReceive (state : SectorInfo)
  | sectorReceived
deriving DecidableEq

namespace Event

def applyGlobal (e : Event) (s : SectorInfo) : Option (SectorInfo × Bool) :=
  match e with
  | .sectorRestart => some (s, false)
  | .sectorFatalError => some (s, true)
  | .sectorForceState state => some ({ s with state := state }, true)
  | .sectorTerminate => some ({ s with state := .terminating }, true)
  | .sectorRemove => some ({ s with state := .removing }, true)
  | _ => none

/-- `event.User.(globalMutator)`. -/
def isGlobal (e : Event) : Bool :=
  match e with
  | .sectorRestart | .sectorFatalError | .sectorForceState _ | .sectorTerminate | .sectorRemove => true
  | _ => false

def ignorable (e : Event) : Bool :=
  match e with
  | .sectorStartPacking => true
  | _ => false

/-- `state.Pieces[i].DealInfo.DealID = id`, which panics if there is no such piece or no deal. -/
def setDealID (pieces : List SectorPiece) (i : Nat) (id : UInt64) : Option (List SectorPiece) :=
  (pieces[i]?).bind fun p => p.dealInfo.map fun d => pieces.set i { p with dealInfo := some { d with dealID := id } }

/-- `apply`, which may panic; `now` is the time. Only mutators change the sector. -/
def apply (now : Int) (e : Event) (s : SectorInfo) : Option SectorInfo :=
  match e with
  | .sectorStart id sectorType | .sectorStartCC id sectorType => some { s with sectorNumber := id, sectorType := sectorType }
  | .sectorAddPiece => some (if s.creationTime = 0 then { s with creationTime := now } else s)
  | .sectorPieceAdded newPieces => some { s with pieces := s.pieces ++ newPieces }
  | .sectorPacked fillerPieces =>
    some { s with pieces := s.pieces ++ fillerPieces.map fun p => ⟨p.1, p.2, none⟩ }
  | .sectorTicket ticketValue ticketEpoch => some { s with ticketEpoch := ticketEpoch, ticketValue := ticketValue }
  | .sectorPreCommit1 preCommit1Out => some { s with preCommit1Out := preCommit1Out, preCommit2Fails := 0 }
  | .sectorPreCommit2 sealed unsealed => some { s with commD := some unsealed, commR := some sealed }
  | .sectorPreCommitBatchSent message => some { s with preCommitMessage := some message }
  | .sectorPreCommitLanded tipSet => some { s with preCommitTipSet := tipSet }
  | .sectorSealPreCommit1Failed => some { s with invalidProofs := 0, preCommit2Fails := 0 }
  | .sectorSealPreCommit2Failed => some { s with invalidProofs := 0, preCommit2Fails := s.preCommit2Fails + 1 }
  | .sectorPreCommitted message deposit =>
    some { s with preCommitMessage := some message, preCommitDeposit := deposit }
  | .sectorSeedReady seedValue seedEpoch => some { s with seedEpoch := seedEpoch, seedValue := seedValue }
  | .sectorCommitted proof => some { s with proof := proof }
  | .sectorProofReady proof => some (if proof.length > 0 then { s with proof := proof } else s)
  | .sectorCommitSubmitted message | .sectorCommitAggregateSent message => some { s with commitMessage := some message }
  | .sectorStartCCUpdate => some { s with ccUpdate := true, ccPieces := s.pieces, pieces := [] }
  | .sectorReplicaUpdate newSealed newUnsealed =>
    some { s with updateSealed := some newSealed, updateUnsealed := some newUnsealed }
  | .sectorProveReplicaUpdate proof => some { s with replicaUpdateProof := proof }
  | .sectorReplicaUpdateSubmitted message => some { s with replicaUpdateMessage := some message }
  | .sectorRetryComputeProof | .sectorRetryInvalidProof => some { s with invalidProofs := s.invalidProofs + 1 }
  | .sectorInvalidDealIDs ret => some { s with ret := ret }
  | .sectorUpdateDealIDs updates =>
    (updates.foldlM (fun pieces u => setDealID pieces u.1 u.2) s.pieces).map fun pieces => { s with pieces := pieces }
  | .sectorRevertUpgradeToProving =>
    some { s with
      ccUpdate := false
      updateSealed := none
      updateUnsealed := none
      replicaUpdateProof := none
      replicaUpdateMessage := none
      pieces := s.ccPieces
      ccPieces := [] }
  | .sectorFaultReported reportMsg => some { s with faultReportMsg := some reportMsg }
  | .sectorTerminating message => some { s with terminateMessage := message }
  | .sectorTerminated terminatedAt => some { s with terminatedAt := terminatedAt }
  | .sectorReceive state => some state
  | _ => some s

/-- The type of the event, for `reflect.TypeOf`. -/
def type (e : Event) : Nat := e.ctorIdx

theorem applyGlobal_isSome (e : Event) (s : SectorInfo) : (e.applyGlobal s).isSome = e.isGlobal := by
  cases e <;> rfl

end Event
end Lotus.Sealing
