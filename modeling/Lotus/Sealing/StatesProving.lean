/-
# The handlers of sectors on chain (`storage/pipeline/states_proving.go`,
`states_replica_update.go`), and the table of all handlers.

A loop that retries until it succeeds takes its number of rounds from a call; the loop that ends without an event is the
one that still goes on.
-/
import Lotus.Sealing.Fsm
import Lotus.Sealing.StatesFailed

namespace Lotus.Sealing
open Lib

/-! ## Replica updates -/

def handleErrors : CheckError → H Unit
  | .errInvalidDeals => send (.sectorInvalidDealIDs none)
  | .errExpiredDeals => send .sectorDealsExpired
  | _ => return

section
variable (m : Env) (sector : SectorInfo)

def handleReplicaUpdate : H Unit := do
  if !sector.hasDeals then send .sectorAbortUpgrade
  else
    match ← checkPieces m sector.pieces true with
    | .error err => handleErrors err
    | .ok () =>
      let .ok (newSealed, newUnsealed) ← ask .replicaUpdate | send .sectorUpdateReplicaFailed
      send (.sectorReplicaUpdate newSealed newUnsealed)

def handleProveReplicaUpdate : H Unit := do
  if sector.updateSealed = none ∨ sector.updateUnsealed = none then return
  else if sector.commR = none then return
  else
    let .ok ts ← ask .chainHead | return
    let .ok active ← ask (.sectorActive ts.key) | return
    if !active then send .sectorAbortUpgrade
    else
      let .ok () ← ask .proveReplicaUpdate1 | send .sectorProveReplicaUpdateFailed
      match ← checkPieces m sector.pieces true with
      | .error err => handleErrors err
      | .ok () =>
        let .ok proof ← ask .proveReplicaUpdate2 | send .sectorProveReplicaUpdateFailed
        send (.sectorProveReplicaUpdate proof)

def handleSubmitReplicaUpdate : H Unit := do
  let .ok ts ← ask .chainHead | return
  let .ok () ← checkReplicaUpdate m sector ts.key | send .sectorSubmitReplicaUpdateFailed
  let .ok () ← ask (.stateSectorPartition ts.key) | return
  let .ok _ ← ask (.registeredUpdateProof sector.sectorType) | send .sectorSubmitReplicaUpdateFailed
  match sector.updateSealed with
  | none => Prog.fail .other
  | some updateSealed =>
    let .ok () ← ask .marshal | send .sectorSubmitReplicaUpdateFailed
    let .ok cfg ← ask .getConfig | return
    let .ok onChainInfo ← ask (.stateSectorGetInfo ts.key) | return
    let .ok _ ← ask .currentSealProof | return
    match onChainInfo with
    -- the call has not failed, there is no such sector
    | none => Prog.fail .other
    | some onChainInfo =>
      let .ok collateral ← ask (.stateMinerInitialPledgeCollateral onChainInfo.expiration updateSealed ts.key) | return
      let some collateral ← collateralSendAmount cfg (max 0 (collateral - onChainInfo.initialPledge)) | return
      let .ok () ← ask (.stateMinerInfo ts.key) | return
      let .ok _ ← ask (.addressFor (collateral + m.maxCommitGasFee) collateral) | send .sectorSubmitReplicaUpdateFailed
      let .ok mcid ← ask (.sendMsg collateral) | send .sectorSubmitReplicaUpdateFailed
      send (.sectorReplicaUpdateSubmitted mcid)

def handleReplicaUpdateWait : H Unit := do
  match sector.replicaUpdateMessage with
  | none => send .sectorSubmitReplicaUpdateFailed
  | some msg =>
    let .ok mw ← ask (.stateWaitMsg msg) | send .sectorSubmitReplicaUpdateFailed
    if mw.exitCode = exitOk then
      let .ok (some si) ← ask (.stateSectorGetInfo mw.tipSet) | send .sectorSubmitReplicaUpdateFailed
      match sector.updateSealed with
      | none => Prog.fail .other
      | some updateSealed =>
        if si.sealedCID ≠ updateSealed then send .sectorAbortUpgrade else send .sectorReplicaUpdateLanded
    else send .sectorSubmitReplicaUpdateFailed

def handleFinalizeReplicaUpdate : H Unit := do
  let .ok _ ← ask .getConfig | return
  let .ok () ← ask .finalizeReplicaUpdate | send .sectorFinalizeFailed
  send .sectorFinalized

/-- `try` of `handleUpdateActivating`, with the handler of `ChainAt`: whether it succeeds. -/
def tryUpdateActivating (msg : Cid) : H Bool := do
  let .ok mw ← ask (.stateWaitMsg msg) | return false
  let .ok ts ← ask .chainHead | return false
  let .ok nv ← ask (.stateNetworkVersion ts.key) | return false
  let (err, fires) ←
    ask (.chainAt (mw.height + m.winningPoStSectorSetLookback nv + m.interactivePoRepConfidence))
  if fires then
    match ← ask (.send .sectorUpdateActive) with
    | .error _ => return false
    | .ok () => return err.isOk
  else return err.isOk

def updateActivatingLoop (m : Env) (msg : Cid) : Nat → H Unit
  | 0 => return
  | n + 1 => do
    if ← tryUpdateActivating m msg then return else updateActivatingLoop m msg n

def handleUpdateActivating : H Unit := do
  match sector.replicaUpdateMessage with
  | none => return
  | some msg =>
    let n : Nat ← ask .rounds
    updateActivatingLoop m msg n

def handleReleaseSectorKey : H Unit := do
  let .ok () ← ask .releaseSectorKey | send .sectorReleaseKeyFailed
  send .sectorKeyReleased

/-! ## Faults, terminations and removals -/

def handleFaulty : H Unit := return

def handleFaultReported : H Unit := do
  match sector.faultReportMsg with
  | none => return
  | some msg =>
    let .ok mw ← ask (.stateWaitMsg msg) | return
    if mw.exitCode ≠ 0 then return else send .sectorFaultedFinal

def handleTerminating : H Unit := do
  let .ok si ← ask (.stateSectorGetInfo []) | send .sectorTerminateFailed
  match si with
  | none =>
    let .ok pci ← ask (.stateSectorPreCommitInfo []) | send .sectorTerminateFailed
    if pci ≠ none then send .sectorTerminateFailed else send .sectorRemove
  | some _ =>
    let .ok (termCid, terminated) ← ask .addTermination | send .sectorTerminateFailed
    if terminated then send (.sectorTerminating none) else send (.sectorTerminating (some termCid))

def handleTerminateWait : H Unit := do
  match sector.terminateMessage with
  | none => return
  | some msg =>
    let .ok mw ← ask (.stateWaitMsg msg) | send .sectorTerminateFailed
    if mw.exitCode ≠ exitOk then send .sectorTerminateFailed else send (.sectorTerminated mw.height)

def terminateFinalityLoop (m : Env) (sector : SectorInfo) : Nat → H Unit
  | 0 => return
  | n + 1 => do
    let .ok ts ← ask .chainHead | send .sectorTerminateFailed
    let .ok nv ← ask (.stateNetworkVersion ts.key) | send .sectorTerminateFailed
    if ts.height ≥ sector.terminatedAt + m.winningPoStSectorSetLookback nv then send .sectorRemove
    else terminateFinalityLoop m sector n

def handleTerminateFinality : H Unit := do
  let n : Nat ← ask .rounds
  terminateFinalityLoop m sector n

def handleRemoving : H Unit := do
  let .ok () ← ask .remove | send .sectorRemoveFailed
  send .sectorRemoved

def handleProvingSector : H Unit := return

def handleAvailableSector : H Unit := return
end

/-! ## The events that the handlers send -/

section
variable {P : Event → Prop} {hyp : ∀ {α}, Api α → α → Prop} {E : Panic → Prop} {m : Env} {sector : SectorInfo}

theorem handleErrors_always (hinvalid : P (.sectorInvalidDealIDs none)) (hexpired : P .sectorDealsExpired)
    (err : CheckError) : Sends P hyp E (handleErrors err) := by
  unfold handleErrors
  split
  · simp [hinvalid]
  · simp [hexpired]
  · trivial

section
variable (hE : E .other) (habort : P .sectorAbortUpgrade) (hinvalid : P (.sectorInvalidDealIDs none))
  (hexpired : P .sectorDealsExpired)
include hE habort hinvalid hexpired

theorem handleReplicaUpdate_events (hfa : P .sectorUpdateReplicaFailed)
    (hd : ∀ isealed iunsealed, P (.sectorReplicaUpdate isealed iunsealed)) : Sends P hyp E (handleReplicaUpdate m sector) := by
  simp only [handleReplicaUpdate, Prog.always_ite, Prog.always_bind]
  refine ⟨fun _ => by simp [habort], fun _ => checkPieces_always hE (fun r _ => ?_) _ _⟩
  split
  · exact handleErrors_always hinvalid hexpired _
  · simp [hfa, hd]

theorem handleProveReplicaUpdate_events (hfa : P .sectorProveReplicaUpdateFailed)
    (hd : ∀ proof, P (.sectorProveReplicaUpdate proof)) : Sends P hyp E (handleProveReplicaUpdate m sector) := by
  simp only [handleProveReplicaUpdate, Prog.always_ite, Prog.always_bind, Prog.always_ask, Only, true_and,
    Prog.forall_except, Prog.always_pure, implies_true, always_send, habort, hfa]
  refine fun _ _ ts _ _ _ _ _ _ => checkPieces_always hE (fun r _ => ?_) _ _
  split
  · exact handleErrors_always hinvalid hexpired _
  · simp [hfa, hd]
end

section
variable (hE : E .other) (hfa : P .sectorSubmitReplicaUpdateFailed)
include hE hfa

theorem handleSubmitReplicaUpdate_events
    (hse : ∀ msg, P (.sectorReplicaUpdateSubmitted msg)) : Sends P hyp E (handleSubmitReplicaUpdate m sector) := by
  cases hsea : sector.updateSealed with
  | none => simp [handleSubmitReplicaUpdate, hsea, checkReplicaUpdate_always, hE, hfa]
  | some updateSealed =>
    simp [handleSubmitReplicaUpdate, hsea, checkReplicaUpdate_always, collateralSendAmount_always, hE, hfa, hse, Option.forall]

theorem handleReplicaUpdateWait_events
    (habort : P .sectorAbortUpgrade) (hla : P .sectorReplicaUpdateLanded) : Sends P hyp E (handleReplicaUpdateWait sector) := by
  rcases hmsg : sector.replicaUpdateMessage with _ | msg
  · simp [handleReplicaUpdateWait, hmsg, hfa]
  cases hse : sector.updateSealed with
  | none => simp [handleReplicaUpdateWait, hmsg, hse, hfa, hE, Option.forall]
  | some updateSealed => simp [handleReplicaUpdateWait, hmsg, hse, hfa, habort, hla, Option.forall]
end

theorem handleFinalizeReplicaUpdate_events (hfa : P .sectorFinalizeFailed) (hfi : P .sectorFinalized) :
    handleFinalizeReplicaUpdate.Always (Only P) hyp (fun _ => True) E := by
  simp [handleFinalizeReplicaUpdate, hfa, hfi]

theorem handleUpdateActivating_events (ha : P .sectorUpdateActive) : Sends P hyp E (handleUpdateActivating m sector) := by
  have htr : ∀ {Q : Bool → Prop} msg, (∀ r, Q r) → (tryUpdateActivating m msg).Always (Only P) hyp Q E := by
    intro Q msg hQ
    simp [tryUpdateActivating, ha, hQ]
  have hlo : ∀ msg n, Sends P hyp E (updateActivatingLoop m msg n) := by
    intro msg n
    induction n with
    | zero => trivial
    | succ n ih => simp [updateActivatingLoop, htr, ih]
  cases hmsg : sector.replicaUpdateMessage with
  | none => simp [handleUpdateActivating, hmsg]
  | some msg => simp [handleUpdateActivating, hmsg, hlo]

theorem handleReleaseSectorKey_events (hfa : P .sectorReleaseKeyFailed) (hre : P .sectorKeyReleased) :
    handleReleaseSectorKey.Always (Only P) hyp (fun _ => True) E := by
  simp [handleReleaseSectorKey, hfa, hre]

theorem handleFaultReported_events (hfi : P .sectorFaultedFinal) : Sends P hyp E (handleFaultReported sector) := by
  cases hmsg : sector.faultReportMsg with
  | none => simp [handleFaultReported, hmsg]
  | some msg => simp [handleFaultReported, hmsg, hfi]

section
variable (hfa : P .sectorTerminateFailed)
include hfa

theorem handleTerminating_events (hre : P .sectorRemove)
    (hte : ∀ msg, P (.sectorTerminating msg)) : handleTerminating.Always (Only P) hyp (fun _ => True) E := by
  simp [handleTerminating, hfa, hre, hte, Option.forall]

theorem handleTerminateWait_events (hte : ∀ epoch, P (.sectorTerminated epoch)) :
    Sends P hyp E (handleTerminateWait sector) := by
  cases hmsg : sector.terminateMessage with
  | none => simp [handleTerminateWait, hmsg]
  | some msg => simp [handleTerminateWait, hmsg, hfa, hte]

theorem handleTerminateFinality_events (hre : P .sectorRemove) :
    Sends P hyp E (handleTerminateFinality m sector) := by
  have hlo : ∀ n, Sends P hyp E (terminateFinalityLoop m sector n) := by
    intro n
    induction n with
    | zero => trivial
    | succ n ih => simp [terminateFinalityLoop, hfa, hre, ih]
  simp [handleTerminateFinality, hlo]
end

theorem handleRemoving_events (hfa : P .sectorRemoveFailed) (hre : P .sectorRemoved) :
    handleRemoving.Always (Only P) hyp (fun _ => True) E := by
  simp [handleRemoving, hfa, hre]
end

def Handler.handle (m : Env) (sector : SectorInfo) : Handler → H Unit
  | .handleReceiveSector => Sealing.handleReceiveSector sector
  | .handleWaitDeals => Sealing.handleWaitDeals m sector
  | .handleAddPiece => Sealing.handleAddPiece m sector
  | .handlePacking => Sealing.handlePacking m sector
  | .handleGetTicket => Sealing.handleGetTicket m sector
  | .handlePreCommit1 => Sealing.handlePreCommit1 m sector
  | .handlePreCommit2 => Sealing.handlePreCommit2
  | .handlePreCommitting => Sealing.handlePreCommitting m sector
  | .handleSubmitPreCommitBatch => Sealing.handleSubmitPreCommitBatch m sector
  | .handlePreCommitWait => Sealing.handlePreCommitWait sector
  | .handleWaitSeed => Sealing.handleWaitSeed m
  | .handleCommitting => Sealing.handleCommitting m sector
  | .handleSubmitCommit => Sealing.handleSubmitCommit m sector
  | .handleSubmitCommitAggregate => Sealing.handleSubmitCommitAggregate m sector
  | .handleCommitWait => Sealing.handleCommitWait sector
  | .handleFinalizeSector => Sealing.handleFinalizeSector sector
  | .handleReplicaUpdate => Sealing.handleReplicaUpdate m sector
  | .handleProveReplicaUpdate => Sealing.handleProveReplicaUpdate m sector
  | .handleSubmitReplicaUpdate => Sealing.handleSubmitReplicaUpdate m sector
  | .handleReplicaUpdateWait => Sealing.handleReplicaUpdateWait sector
  | .handleFinalizeReplicaUpdate => Sealing.handleFinalizeReplicaUpdate
  | .handleUpdateActivating => Sealing.handleUpdateActivating m sector
  | .handleReleaseSectorKey => Sealing.handleReleaseSectorKey
  | .handleAddPieceFailed => Sealing.handleAddPieceFailed
  | .handleSealPrecommit1Failed => Sealing.handleSealPrecommit1Failed
  | .handleSealPrecommit2Failed => Sealing.handleSealPrecommit2Failed sector
  | .handlePreCommitFailed => Sealing.handlePreCommitFailed m sector
  | .handleComputeProofFailed => Sealing.handleComputeProofFailed sector
  | .handleRemoteCommitFailed => Sealing.handleRemoteCommitFailed
  | .handleCommitFailed => Sealing.handleCommitFailed m sector
  | .handleFinalizeFailed => Sealing.handleFinalizeFailed
  | .handleDealsExpired => Sealing.handleDealsExpired
  | .handleRecoverDealIDs => Sealing.handleRecoverDealIDs m sector
  | .handleDealsExpiredSnapDeals => Sealing.handleDealsExpiredSnapDeals sector
  | .handleSnapDealsRecoverDealIDs => Sealing.handleSnapDealsRecoverDealIDs m sector
  | .handleSubmitReplicaUpdateFailed => Sealing.handleSubmitReplicaUpdateFailed m sector
  | .handleReleaseSectorKeyFailed => Sealing.handleReleaseSectorKeyFailed
  | .handleAbortUpgrade => Sealing.handleAbortUpgrade sector
  | .handleProvingSector => Sealing.handleProvingSector
  | .handleAvailableSector => Sealing.handleAvailableSector
  | .handleTerminating => Sealing.handleTerminating
  | .handleTerminateWait => Sealing.handleTerminateWait sector
  | .handleTerminateFinality => Sealing.handleTerminateFinality m sector
  | .handleTerminateFailed => Sealing.handleTerminateFailed
  | .handleRemoving => Sealing.handleRemoving
  | .handleRemoveFailed => Sealing.handleRemoveFailed
  | .handleFaulty => Sealing.handleFaulty
  | .handleFaultReported => Sealing.handleFaultReported sector

end Lotus.Sealing
