/-
# The planners of the sector state machine (`storage/pipeline/fsm.go`).

A planner applies events from the front, changes the state, and says how many it has processed; these are dropped, whether or
not it failed. A planner that panics has no result here. Journal, log, metrics and notifications are left out.
-/
import Lotus.Lib.Lts
import Lotus.Sealing.Sector

namespace Lotus.Sealing

inductive PlanError where
  /-- "planner for state %s not found" -/
  | plannerNotFound (state : SectorState)
  /-- "planner for state %s received unexpected event %T (%+v)" -/
  | unexpectedEvent (state : SectorState) (event : Event)
  /-- "planCommitting got event of unknown type %T, events: %+v" -/
  | unknownType (event : Event)
  /-- "didn't expect any events in state %s, got %+v" -/
  | didntExpect (state : SectorState)
  /-- "return state not set" -/
  | returnNotSet
deriving DecidableEq

/-- What a planner returns: the sector, how many events it processed, and its error. -/
structure Planned where
  sector : SectorInfo
  processed : Nat
  err : Option PlanError
deriving DecidableEq

/-- What follows when an event of the right type was applied. -/
inductive Next where
  /-- `on` and `onWithCB`, whose callback notifies a remote. -/
  | on (next : SectorState)
  /-- `apply`: the state stays, and the next event is looked at. -/
  | apply
  | onReturning
deriving DecidableEq

/-- An entry of `planOne`: an event of the type, and what follows. -/
abbrev Entry := Event × Next

section
variable (event : Event)

def on (next : SectorState) : Entry := (event, .on next)

def onWithCB (next : SectorState) : Entry := (event, .on next)

def apply : Entry := (event, .apply)

def onReturning : Entry := (event, .onReturning)
end

/-- The function of an entry: the sector and whether more events are looked at. -/
def Next.run (next : Next) (s : SectorInfo) : SectorInfo × Except PlanError Bool :=
  match next with
  | .on state => ({ s with state := state }, .ok false)
  | .apply => (s, .ok true)
  | .onReturning =>
    match s.ret with
    | none => (s, .error .returnNotSet)
    | some state => ({ s with state := state, ret := none }, .ok false)

def planOneLoop (now : Int) (ts : List Entry) : Nat → List Event → SectorInfo → Option Planned
  | i, [], s => some ⟨s, i, none⟩
  | i, event :: events, s =>
    match event.applyGlobal s with
    | some (s, _) => some ⟨s, i + 1, none⟩
    | none =>
      match ts.find? fun t => event.type == t.1.type with
      | some t =>
        match event.apply now s with
        | none => none
        | some s =>
          match t.2.run s with
          | (s, .error err) => some ⟨s, i + 1, some err⟩
          | (s, .ok false) => some ⟨s, i + 1, none⟩
          | (s, .ok true) => planOneLoop now ts (i + 1) events s
      | none =>
        if event.ignorable then planOneLoop now ts (i + 1) events s
        else some ⟨s, i + 1, some (.unexpectedEvent s.state event)⟩

/-- The loop of `planCommitting` from event `i` on. -/
def planCommittingLoop (now : Int) : Nat → List Event → SectorInfo → Option Planned
  | i, [], s => some ⟨s, i, none⟩
  | i, event :: events, s =>
    match event.applyGlobal s with
    | some (s, true) => some ⟨s, i + 1, none⟩
    | some (s, false) => planCommittingLoop now (i + 1) events s
    | none =>
      match event with
      | .sectorCommitted proof =>
        -- the operator's event carries no proof
        let s := if proof.length > 0 then { s with proof := proof } else s
        planCommittingLoop now (i + 1) events { s with state := .submitCommit }
      | .sectorProofReady proof =>
        let s := if proof.length > 0 then { s with proof := proof } else s
        planCommittingLoop now (i + 1) events { s with state := .commitFinalize }
      | .sectorSeedReady seedValue seedEpoch =>
        if seedEpoch = s.seedEpoch ∧ seedValue = s.seedValue then planCommittingLoop now (i + 1) events s
        else some ⟨{ s with seedEpoch := seedEpoch, seedValue := seedValue, state := .committing }, i + 1, none⟩
      | .sectorComputeProofFailed => planCommittingLoop now (i + 1) events { s with state := .computeProofFailed }
      | .sectorRemoteCommit1Failed => planCommittingLoop now (i + 1) events { s with state := .remoteCommitFailed }
      | .sectorRemoteCommit2Failed => planCommittingLoop now (i + 1) events { s with state := .remoteCommitFailed }
      | .sectorSealPreCommit1Failed => planCommittingLoop now (i + 1) events { s with state := .sealPreCommit1Failed }
      | .sectorCommitFailed => planCommittingLoop now (i + 1) events { s with state := .commitFailed }
      | .sectorRetryCommitWait => planCommittingLoop now (i + 1) events { s with state := .commitWait }
      | event => some ⟨s, i, some (.unknownType event)⟩

inductive Planner where
  | planOne (ts : List Entry)
  | planOneOrIgnore (ts : List Entry)
  | planCommitting
  | final
  | finalRemoved

def Planner.run (now : Int) (p : Planner) (events : List Event) (s : SectorInfo) : Option Planned :=
  match p with
  | .planOne ts => planOneLoop now ts 0 events s
  | .planOneOrIgnore ts => (planOneLoop now ts 0 events s).map fun r => { r with err := none }
  | .planCommitting => planCommittingLoop now 0 events s
  | .final =>
    match events with
    | event :: _ =>
      match event.applyGlobal s with
      | some (s, _) => some ⟨s, 1, none⟩
      | none => some ⟨s, 0, some (.didntExpect s.state)⟩
    | [] => some ⟨s, 0, some (.didntExpect s.state)⟩
  | .finalRemoved => some ⟨s, events.length, none⟩

def Cid.undef : Cid := ⟨[]⟩

def fsmPlanners : SectorState → Option Planner
  | .receiveSector => some (.planOne [onReturning .sectorReceived])
  | .undefinedSectorState => some (.planOne [
      on (.sectorStart 0 0) .waitDeals,
      on (.sectorStartCC 0 0) .packing,
      on (.sectorReceive (.zero .undefinedSectorState)) .receiveSector])
  | .empty | .waitDeals => some (.planOne [
      on .sectorAddPiece .addPiece,
      on .sectorStartPacking .packing])
  | .addPiece => some (.planOne [
      on (.sectorPieceAdded []) .waitDeals,
      apply .sectorStartPacking,
      apply .sectorAddPiece,
      on .sectorAddPieceFailed .addPieceFailed])
  | .packing => some (.planOne [on (.sectorPacked []) .getTicket])
  | .getTicket => some (.planOne [
      on (.sectorTicket [] 0) .preCommit1,
      on .sectorCommitFailed .commitFailed])
  | .preCommit1 => some (.planOne [
      on (.sectorPreCommit1 []) .preCommit2,
      on .sectorSealPreCommit1Failed .sealPreCommit1Failed,
      on .sectorDealsExpired .dealsExpired,
      on (.sectorInvalidDealIDs none) .recoverDealIDs,
      on .sectorOldTicket .getTicket])
  | .preCommit2 => some (.planOne [
      on (.sectorPreCommit2 Cid.undef Cid.undef) .preCommitting,
      on .sectorSealPreCommit2Failed .sealPreCommit2Failed,
      on .sectorSealPreCommit1Failed .sealPreCommit1Failed])
  | .preCommitting => some (.planOne [
      on .sectorPreCommitBatch .submitPreCommitBatch,
      on (.sectorPreCommitted Cid.undef 0) .preCommitWait,
      on .sectorSealPreCommit1Failed .sealPreCommit1Failed,
      on .sectorChainPreCommitFailed .preCommitFailed,
      on (.sectorPreCommitLanded []) .waitSeed,
      on .sectorDealsExpired .dealsExpired,
      on (.sectorInvalidDealIDs none) .recoverDealIDs])
  | .submitPreCommitBatch => some (.planOne [
      on (.sectorPreCommitBatchSent Cid.undef) .preCommitBatchWait,
      on .sectorSealPreCommit1Failed .sealPreCommit1Failed,
      on .sectorChainPreCommitFailed .preCommitFailed,
      on (.sectorPreCommitLanded []) .waitSeed,
      on .sectorDealsExpired .dealsExpired,
      on (.sectorInvalidDealIDs none) .recoverDealIDs])
  | .preCommitBatchWait | .preCommitWait => some (.planOne [
      on .sectorChainPreCommitFailed .preCommitFailed,
      on (.sectorPreCommitLanded []) .waitSeed,
      on .sectorRetryPreCommit .preCommitting])
  | .waitSeed => some (.planOne [
      on (.sectorSeedReady [] 0) .committing,
      on .sectorChainPreCommitFailed .preCommitFailed])
  | .committing => some .planCommitting
  | .commitFinalize => some (.planOne [
      on .sectorFinalized .submitCommit,
      on .sectorFinalizedAvailable .submitCommit,
      on .sectorFinalizeFailed .commitFinalizeFailed])
  | .submitCommit => some (.planOne [
      on (.sectorCommitSubmitted Cid.undef) .commitWait,
      on .sectorSubmitCommitAggregate .submitCommitAggregate,
      on .sectorCommitFailed .commitFailed])
  | .submitCommitAggregate => some (.planOne [
      on (.sectorCommitAggregateSent Cid.undef) .commitAggregateWait,
      on .sectorCommitFailed .commitFailed,
      on .sectorRetrySubmitCommit .submitCommit])
  | .commitWait | .commitAggregateWait => some (.planOne [
      on .sectorProving .finalizeSector,
      on .sectorCommitFailed .commitFailed,
      on .sectorRetrySubmitCommit .submitCommit])
  | .finalizeSector => some (.planOne [
      onWithCB .sectorFinalized .proving,
      onWithCB .sectorFinalizedAvailable .available,
      on .sectorFinalizeFailed .finalizeFailed,
      on (.sectorCommitted []) .submitCommit])
  | .snapDealsWaitDeals => some (.planOne [
      on .sectorAddPiece .snapDealsAddPiece,
      on .sectorStartPacking .snapDealsPacking,
      on .sectorAbortUpgrade .abortUpgrade])
  | .snapDealsAddPiece => some (.planOne [
      on (.sectorPieceAdded []) .snapDealsWaitDeals,
      apply .sectorStartPacking,
      apply .sectorAddPiece,
      on .sectorAddPieceFailed .snapDealsAddPieceFailed,
      on .sectorAbortUpgrade .abortUpgrade])
  | .snapDealsPacking => some (.planOne [
      on (.sectorPacked []) .updateReplica,
      on .sectorAbortUpgrade .abortUpgrade])
  | .updateReplica => some (.planOne [
      on (.sectorReplicaUpdate Cid.undef Cid.undef) .proveReplicaUpdate,
      on .sectorUpdateReplicaFailed .replicaUpdateFailed,
      on .sectorDealsExpired .snapDealsDealsExpired,
      on (.sectorInvalidDealIDs none) .snapDealsRecoverDealIDs,
      on .sectorAbortUpgrade .abortUpgrade])
  | .proveReplicaUpdate => some (.planOne [
      on (.sectorProveReplicaUpdate none) .finalizeReplicaUpdate,
      on .sectorProveReplicaUpdateFailed .replicaUpdateFailed,
      on .sectorDealsExpired .snapDealsDealsExpired,
      on (.sectorInvalidDealIDs none) .snapDealsRecoverDealIDs,
      on .sectorAbortUpgrade .abortUpgrade])
  | .finalizeReplicaUpdate => some (.planOne [
      on .sectorFinalized .submitReplicaUpdate,
      on .sectorFinalizeFailed .finalizeReplicaUpdateFailed])
  | .submitReplicaUpdate => some (.planOne [
      on (.sectorReplicaUpdateSubmitted Cid.undef) .replicaUpdateWait,
      on .sectorSubmitReplicaUpdateFailed .replicaUpdateFailed])
  | .replicaUpdateWait => some (.planOne [
      on .sectorReplicaUpdateLanded .updateActivating,
      on .sectorSubmitReplicaUpdateFailed .replicaUpdateFailed,
      on .sectorAbortUpgrade .abortUpgrade])
  | .updateActivating => some (.planOne [on .sectorUpdateActive .releaseSectorKey])
  | .releaseSectorKey => some (.planOne [
      on .sectorKeyReleased .proving,
      on .sectorReleaseKeyFailed .releaseSectorKeyFailed])
  | .addPieceFailed => some (.planOne [
      on .sectorRetryWaitDeals .waitDeals,
      apply .sectorStartPacking,
      apply .sectorAddPiece])
  | .sealPreCommit1Failed => some (.planOne [on .sectorRetrySealPreCommit1 .preCommit1])
  | .sealPreCommit2Failed => some (.planOne [
      on .sectorRetrySealPreCommit1 .preCommit1,
      on .sectorRetrySealPreCommit2 .preCommit2])
  | .preCommitFailed => some (.planOne [
      on .sectorRetryPreCommit .preCommitting,
      on .sectorRetryPreCommitWait .preCommitWait,
      on .sectorRetryWaitSeed .waitSeed,
      on .sectorSealPreCommit1Failed .sealPreCommit1Failed,
      on (.sectorPreCommitLanded []) .waitSeed,
      onWithCB .sectorDealsExpired .dealsExpired,
      on (.sectorInvalidDealIDs none) .recoverDealIDs])
  | .computeProofFailed => some (.planOne [
      on .sectorRetryComputeProof .committing,
      on .sectorSealPreCommit1Failed .sealPreCommit1Failed])
  | .remoteCommitFailed => some (.planOne [on .sectorRetryComputeProof .committing])
  | .commitFinalizeFailed => some (.planOne [on .sectorRetryFinalize .commitFinalize])
  | .commitFailed => some (.planOne [
      on .sectorSealPreCommit1Failed .sealPreCommit1Failed,
      on .sectorRetryWaitSeed .waitSeed,
      on .sectorRetryComputeProof .committing,
      on .sectorRetryInvalidProof .committing,
      on .sectorRetryPreCommitWait .preCommitWait,
      on .sectorChainPreCommitFailed .preCommitFailed,
      on .sectorRetryPreCommit .preCommitting,
      on .sectorRetryCommitWait .commitWait,
      on .sectorRetrySubmitCommit .submitCommit,
      onWithCB .sectorDealsExpired .dealsExpired,
      on (.sectorInvalidDealIDs none) .recoverDealIDs,
      onWithCB .sectorTicketExpired .removing])
  | .finalizeFailed => some (.planOne [on .sectorRetryFinalize .finalizeSector])
  | .packingFailed | .dealsExpired => some (.planOne [])
  | .recoverDealIDs => some (.planOne [onReturning (.sectorUpdateDealIDs [])])
  | .snapDealsAddPieceFailed => some (.planOne [
      on .sectorRetryWaitDeals .snapDealsWaitDeals,
      apply .sectorStartPacking,
      apply .sectorAddPiece,
      on .sectorAbortUpgrade .abortUpgrade])
  | .snapDealsDealsExpired => some (.planOne [on .sectorAbortUpgrade .abortUpgrade])
  | .snapDealsRecoverDealIDs => some (.planOne [
      on (.sectorUpdateDealIDs []) .submitReplicaUpdate,
      on .sectorAbortUpgrade .abortUpgrade])
  | .abortUpgrade => some (.planOneOrIgnore [on .sectorRevertUpgradeToProving .proving])
  | .replicaUpdateFailed => some (.planOne [
      on .sectorRetrySubmitReplicaUpdateWait .replicaUpdateWait,
      on .sectorRetrySubmitReplicaUpdate .submitReplicaUpdate,
      on .sectorRetryReplicaUpdate .updateReplica,
      on .sectorRetryProveReplicaUpdate .proveReplicaUpdate,
      on (.sectorInvalidDealIDs none) .snapDealsRecoverDealIDs,
      on .sectorDealsExpired .snapDealsDealsExpired,
      on .sectorAbortUpgrade .abortUpgrade])
  | .releaseSectorKeyFailed => some (.planOne [on .sectorUpdateActive .releaseSectorKey])
  | .finalizeReplicaUpdateFailed => some (.planOne [on .sectorRetryFinalize .finalizeReplicaUpdate])
  | .proving => some (.planOne [
      on (.sectorFaultReported Cid.undef) .faultReported,
      on .sectorFaulty .faulty,
      on .sectorMarkForUpdate .available])
  | .available => some (.planOne [
      on .sectorStartCCUpdate .snapDealsWaitDeals,
      on .sectorAbortUpgrade .proving])
  | .terminating => some (.planOne [
      on (.sectorTerminating none) .terminateWait,
      on .sectorTerminateFailed .terminateFailed])
  | .terminateWait => some (.planOne [
      on (.sectorTerminated 0) .terminateFinality,
      on .sectorTerminateFailed .terminateFailed])
  | .terminateFinality => some (.planOne [on .sectorTerminateFailed .terminateFailed])
  | .terminateFailed => some (.planOne [])
  | .removing => some (.planOneOrIgnore [
      on .sectorRemoved .removed,
      on .sectorRemoveFailed .removeFailed])
  | .removeFailed => some (.planOne [])
  | .faulty => some (.planOne [on (.sectorFaultReported Cid.undef) .faultReported])
  | .faultReported => some .final
  | .faultedFinal => some .final
  | .removed => some .finalRemoved
  | .failedUnrecoverable => some .final
  | .unknown _ => none

inductive Handler where
  | handleReceiveSector
  | handleWaitDeals
  | handleAddPiece
  | handlePacking
  | handleGetTicket
  | handlePreCommit1
  | handlePreCommit2
  | handlePreCommitting
  | handleSubmitPreCommitBatch
  | handlePreCommitWait
  | handleWaitSeed
  | handleCommitting
  | handleSubmitCommit
  | handleSubmitCommitAggregate
  | handleCommitWait
  | handleFinalizeSector
  | handleReplicaUpdate
  | handleProveReplicaUpdate
  | handleSubmitReplicaUpdate
  | handleReplicaUpdateWait
  | handleFinalizeReplicaUpdate
  | handleUpdateActivating
  | handleReleaseSectorKey
  | handleAddPieceFailed
  | handleSealPrecommit1Failed
  | handleSealPrecommit2Failed
  | handlePreCommitFailed
  | handleComputeProofFailed
  | handleRemoteCommitFailed
  | handleCommitFailed
  | handleFinalizeFailed
  | handleDealsExpired
  | handleRecoverDealIDs
  | handleDealsExpiredSnapDeals
  | handleSnapDealsRecoverDealIDs
  | handleSubmitReplicaUpdateFailed
  | handleReleaseSectorKeyFailed
  | handleAbortUpgrade
  | handleProvingSector
  | handleAvailableSector
  | handleTerminating
  | handleTerminateWait
  | handleTerminateFinality
  | handleTerminateFailed
  | handleRemoving
  | handleRemoveFailed
  | handleFaulty
  | handleFaultReported
deriving DecidableEq

/-- The switch of `plan`: the handler of a state. -/
def nextHandler : SectorState → Option Handler
  | .receiveSector => some .handleReceiveSector
  | .empty | .waitDeals => some .handleWaitDeals
  | .addPiece => some .handleAddPiece
  | .packing => some .handlePacking
  | .getTicket => some .handleGetTicket
  | .preCommit1 => some .handlePreCommit1
  | .preCommit2 => some .handlePreCommit2
  | .preCommitting => some .handlePreCommitting
  | .submitPreCommitBatch => some .handleSubmitPreCommitBatch
  | .preCommitBatchWait | .preCommitWait => some .handlePreCommitWait
  | .waitSeed => some .handleWaitSeed
  | .committing => some .handleCommitting
  | .submitCommit => some .handleSubmitCommit
  | .submitCommitAggregate => some .handleSubmitCommitAggregate
  | .commitAggregateWait | .commitWait => some .handleCommitWait
  | .commitFinalize | .finalizeSector => some .handleFinalizeSector
  | .snapDealsWaitDeals => some .handleWaitDeals
  | .snapDealsAddPiece => some .handleAddPiece
  | .snapDealsPacking => some .handlePacking
  | .updateReplica => some .handleReplicaUpdate
  | .proveReplicaUpdate => some .handleProveReplicaUpdate
  | .submitReplicaUpdate => some .handleSubmitReplicaUpdate
  | .replicaUpdateWait => some .handleReplicaUpdateWait
  | .finalizeReplicaUpdate => some .handleFinalizeReplicaUpdate
  | .updateActivating => some .handleUpdateActivating
  | .releaseSectorKey => some .handleReleaseSectorKey
  | .addPieceFailed => some .handleAddPieceFailed
  | .sealPreCommit1Failed => some .handleSealPrecommit1Failed
  | .sealPreCommit2Failed => some .handleSealPrecommit2Failed
  | .preCommitFailed => some .handlePreCommitFailed
  | .computeProofFailed => some .handleComputeProofFailed
  | .remoteCommitFailed => some .handleRemoteCommitFailed
  | .commitFailed => some .handleCommitFailed
  | .commitFinalizeFailed | .finalizeFailed => some .handleFinalizeFailed
  | .packingFailed | .dealsExpired => some .handleDealsExpired
  | .recoverDealIDs => some .handleRecoverDealIDs
  | .snapDealsAddPieceFailed => some .handleAddPieceFailed
  | .snapDealsDealsExpired => some .handleDealsExpiredSnapDeals
  | .snapDealsRecoverDealIDs => some .handleSnapDealsRecoverDealIDs
  | .replicaUpdateFailed => some .handleSubmitReplicaUpdateFailed
  | .releaseSectorKeyFailed => some .handleReleaseSectorKeyFailed
  | .finalizeReplicaUpdateFailed => some .handleFinalizeFailed
  | .abortUpgrade => some .handleAbortUpgrade
  | .proving => some .handleProvingSector
  | .available => some .handleAvailableSector
  | .terminating => some .handleTerminating
  | .terminateWait => some .handleTerminateWait
  | .terminateFinality => some .handleTerminateFinality
  | .terminateFailed => some .handleTerminateFailed
  | .removing => some .handleRemoving
  | .removed => none
  | .removeFailed => some .handleRemoveFailed
  | .faulty => some .handleFaulty
  | .faultReported => some .handleFaultReported
  | .undefinedSectorState => none
  | .failedUnrecoverable => none
  | .faultedFinal => none
  | .unknown _ => none

/-- What `plan` returns beside its planner's results: the handler to start. -/
structure PlanResult where
  sector : SectorInfo
  next : Option Handler
  processed : Nat
  err : Option PlanError
deriving DecidableEq

/-- The planner of a state: in an unknown state one global event is allowed. -/
def plannerFor (state : SectorState) (events : List Event) : Option Planner :=
  match fsmPlanners state with
  | some p => some p
  | none =>
    match events with
    | [event] => if event.isGlobal then some (.planOne []) else none
    | _ => none

def settle (s : SectorInfo) : SectorInfo := if s.state = .packingFailed then { s with state := .dealsExpired } else s

def plan (now : Int) (events : List Event) (s : SectorInfo) : Option PlanResult :=
  match plannerFor s.state events with
  | none => some ⟨s, none, 0, some (.plannerNotFound s.state)⟩
  | some p =>
    match p.run now events s with
    | none => none
    | some ⟨s, processed, some err⟩ => some ⟨s, none, processed, some err⟩
    | some ⟨s, processed, none⟩ =>
      -- this branch of the switch has its own count
      let processed := if s.state = .releaseSectorKeyFailed then 0 else processed
      some ⟨settle s, nextHandler s.state, processed, none⟩

end Lotus.Sealing
