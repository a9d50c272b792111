/-
# The handlers of the failure states (`storage/pipeline/states_failed.go`).

The time that a handler waits before it tries again is the call `failedCooldown`, which fails if the miner is shut down.
-/
import Lotus.Sealing.StatesSealing

namespace Lotus.Sealing
open Lib

def sendCooled (event : Event) : H Unit := do
  let .ok () ← ask .failedCooldown | return
  send event

def handleSealPrecommit1Failed : H Unit := sendCooled .sectorRetrySealPreCommit1

section
variable (m : Env) (sector : SectorInfo)

def handleSealPrecommit2Failed : H Unit :=
  sendCooled (if sector.preCommit2Fails > 3 then .sectorRetrySealPreCommit1 else .sectorRetrySealPreCommit2)

def checkPreCommitted : H (Option (Option PreCommitOnChainInfo)) := do
  let .ok ts ← ask .chainHead | return none
  let .ok info ← ask (.stateSectorPreCommitInfo ts.key) | return none
  return some info

/-- `handlePreCommitFailed` where the precommit is not known to have landed. -/
def retryPreCommit (ts : TipSet) : H Unit := do
  let some (some pci) ← checkPreCommitted | sendCooled .sectorRetryPreCommit
  if sector.preCommitMessage = none then send (.sectorPreCommitLanded ts.key)
  else
    match sector.commR with
    | none => Prog.fail .other
    | some commR => if pci.sealedCID ≠ commR then return else sendCooled .sectorRetryWaitSeed

/-- `handlePreCommitFailed` behind the search for the message. -/
def checkedRetryPreCommit (ts : TipSet) : H Unit := do
  match ← checkPrecommit m sector ts with
  | .error .errApi => return
  | .error .errBadCommD | .error .errExpiredTicket | .error .errBadTicket => send .sectorSealPreCommit1Failed
  | .error .errInvalidDeals => send (.sectorInvalidDealIDs (some .preCommitFailed))
  | .error .errExpiredDeals => send .sectorDealsExpired
  | .error .errNoPrecommit => send .sectorRetryPreCommit
  | .error .errPrecommitOnChain => retryPreCommit sector ts
  | .error _ => return
  | .ok () => retryPreCommit sector ts

def handlePreCommitFailed : H Unit := do
  let .ok ts ← ask .chainHead | return
  match sector.preCommitMessage with
  | none => checkedRetryPreCommit m sector ts
  | some msg =>
    let .ok mw ← ask (.stateSearchMsg ts.key msg) | sendCooled .sectorRetryPreCommitWait
    match mw with
    | none => send .sectorRetryPreCommitWait
    | some mw =>
      if mw.exitCode = exitOk then send .sectorRetryPreCommitWait
      else if mw.exitCode = sysErrOutOfGas then send .sectorRetryPreCommit
      else checkedRetryPreCommit m sector ts

def handleComputeProofFailed : H Unit :=
  sendCooled (if sector.invalidProofs > 1 then .sectorSealPreCommit1Failed else .sectorRetryComputeProof)

def handleRemoteCommitFailed : H Unit := sendCooled .sectorRetryComputeProof

/-- `handleSubmitReplicaUpdateFailed` behind the search for the message. -/
def retryReplicaUpdate : H Unit := do
  let .ok ts ← ask .chainHead | return
  match ← checkReplicaUpdate m sector ts.key with
  | .error .errApi => return
  | .error .errBadRU => send .sectorRetryReplicaUpdate
  | .error .errBadPR => send .sectorRetryProveReplicaUpdate
  | .error .errInvalidDeals => send (.sectorInvalidDealIDs none)
  | .error .errExpiredDeals => send .sectorDealsExpired
  | .error _ => return
  | .ok () =>
    let .ok active ← ask (.sectorActive ts.key) | return
    if !active then send .sectorAbortUpgrade else send .sectorRetrySubmitReplicaUpdate

def handleSubmitReplicaUpdateFailed : H Unit := do
  let .ok () ← ask .failedCooldown | return
  match sector.replicaUpdateMessage with
  | none => retryReplicaUpdate m sector
  | some msg =>
    let .ok (some mw) ← ask (.stateSearchMsg [] msg) | send .sectorRetrySubmitReplicaUpdateWait
    if mw.exitCode = exitOk then send .sectorRetrySubmitReplicaUpdateWait
    else if mw.exitCode = sysErrOutOfGas then send .sectorRetrySubmitReplicaUpdate
    else retryReplicaUpdate m sector

def handleReleaseSectorKeyFailed : H Unit := sendCooled .sectorUpdateActive

/-- `handleCommitFailed` behind the search for the message. -/
def retryCommit (ts : TipSet) : H Unit := do
  match ← checkCommit m sector sector.proof ts.key with
  | .error .errApi => return
  | .error .errBadSeed => send .sectorRetryWaitSeed
  | .error .errInvalidProof =>
    sendCooled (if sector.invalidProofs > 0 then .sectorSealPreCommit1Failed else .sectorRetryInvalidProof)
  | .error .errPrecommitOnChain => send .sectorRetryPreCommitWait
  | .error .errNoPrecommit => send .sectorRetryPreCommit
  | .error .errInvalidDeals => send (.sectorInvalidDealIDs (some .commitFailed))
  | .error .errExpiredDeals => send .sectorDealsExpired
  | .error .errCommitWaitFailed => sendCooled .sectorRetryCommitWait
  | .error _ => return
  | .ok () => sendCooled .sectorRetryComputeProof

def handleCommitFailed : H Unit := do
  let .ok ts ← ask .chainHead | return
  match sector.commitMessage with
  | none => retryCommit m sector ts
  | some msg =>
    let .ok mw ← ask (.stateSearchMsg ts.key msg) | sendCooled .sectorRetryCommitWait
    match mw with
    | none => send .sectorRetryCommitWait
    | some mw =>
      if mw.exitCode = exitOk then send .sectorRetryCommitWait
      else if mw.exitCode = sysErrOutOfGas then send .sectorRetrySubmitCommit
      else retryCommit m sector ts

def handleFinalizeFailed : H Unit := sendCooled .sectorRetryFinalize

def handleRemoveFailed : H Unit := sendCooled .sectorRemove

/-- `handleTerminateFailed`; the error of the lookup is ignored. -/
def handleTerminateFailed : H Unit := do
  match ← ask (.stateSectorPreCommitInfo []) with
  | .ok (some _) => return
  | _ => sendCooled .sectorTerminate

def handleDealsExpired : H Unit := do
  let .ok none ← ask (.stateSectorGetInfo []) | return
  send .sectorRemove

def handleDealsExpiredSnapDeals : H Unit :=
  if !sector.ccUpdate then return else send .sectorAbortUpgrade

def handleAbortUpgrade : H Unit := do
  if !sector.ccUpdate then return
  else
    let .ok () ← ask .releaseReplicaUpgrade | return
    let .ok _ ← ask .getConfig | return
    let _ ← ask .releaseUnsealed
    send .sectorRevertUpgradeToProving

/-! ## Deals -/

/-- The loop of `recoveryPiecesToFix` from piece `i` on; none is an error. Fillers are only counted for a log. -/
def recoveryPiecesToFix (m : Env) (ts : TipSet) : Nat → List SectorPiece → H (Option (List Nat))
  | _, [] => return some []
  | i, p :: pieces => do
    match p.dealInfo with
    | none =>
      if p.pieceCID ≠ m.zeroPieceCommitment (unpadded p.size) then return none
      else recoveryPiecesToFix m ts (i + 1) pieces
    | some deal =>
      let res ← ask (.stateMarketStorageDeal deal.dealID ts.key)
      let bad := match res with
        | .error _ => true
        | .ok proposal =>
          proposal.provider ≠ m.maddr ∨ proposal.pieceCID ≠ p.pieceCID ∨ p.size ≠ proposal.pieceSize
      let expired := match res with
        | .error _ => false
        | .ok proposal => ts.height ≥ proposal.startEpoch
      if bad then
        let some toFix ← recoveryPiecesToFix m ts (i + 1) pieces | return none
        return some (i :: toFix)
      else if expired then return none
      else recoveryPiecesToFix m ts (i + 1) pieces

/-- The loop of `handleRecoverDealIDsOrFailWith`: whether a deal has failed, and the updates. -/
def recoverLoop (sector : SectorInfo) (ts : TipSet) (failWith : Event) : Bool → List (Nat × UInt64) → List Nat → H Unit
  | failed, updates, [] => if failed then send failWith else send (.sectorUpdateDealIDs updates)
  | failed, updates, i :: toFix => do
    match sector.pieces[i]? with
    | none => Prog.fail .other
    | some p =>
      match p.dealInfo with
      | none => Prog.fail .other
      | some deal =>
        match deal.publishCid with
        | none => send failWith
        | some publishCid =>
          match ← ask (.getCurrentDealInfo ts.key publishCid) with
          | .ok (id, some marketDeal) =>
            if marketDeal.pieceCID ≠ p.pieceCID then recoverLoop sector ts failWith true updates toFix
            else recoverLoop sector ts failWith failed (updates ++ [(i, id)]) toFix
          | _ => recoverLoop sector ts failWith true updates toFix

def handleRecoverDealIDsOrFailWith (failWith : Event) : H Unit := do
  let .ok ts ← ask .chainHead | return
  let some toFix ← recoveryPiecesToFix m ts 0 sector.pieces | return
  let .ok ts ← ask .chainHead | return
  recoverLoop sector ts failWith false [] toFix

def handleRecoverDealIDs : H Unit :=
  handleRecoverDealIDsOrFailWith m sector .sectorRemove

def handleSnapDealsRecoverDealIDs : H Unit :=
  handleRecoverDealIDsOrFailWith m sector .sectorAbortUpgrade
end

/-! ## The events that the handlers send -/

section
variable {P : Event → Prop} {hyp : ∀ {α}, Api α → α → Prop} {E : Panic → Prop} {m : Env} {sector : SectorInfo}

@[simp] theorem sendCooled_always {event : Event} (hev : P event) : Sends P hyp E (sendCooled event) := by
  simp [sendCooled, hev]

theorem handleSealPrecommit2Failed_events (hr1 : P .sectorRetrySealPreCommit1) (hr2 : P .sectorRetrySealPreCommit2) :
    Sends P hyp E (handleSealPrecommit2Failed sector) := by
  refine sendCooled_always ?_
  split_ifs
  · exact hr1
  · exact hr2

structure PreCommitFailedEvents (P : Event → Prop) : Prop where
  retry : P .sectorRetryPreCommit
  wait : P .sectorRetryPreCommitWait
  seed : P .sectorRetryWaitSeed
  failed : P .sectorSealPreCommit1Failed
  landed : ∀ tsk, P (.sectorPreCommitLanded tsk)
  expired : P .sectorDealsExpired
  invalid : P (.sectorInvalidDealIDs (some .preCommitFailed))

theorem handlePreCommitFailed_events (hE : E .other) (hP : PreCommitFailedEvents P) :
    Sends P hyp E (handlePreCommitFailed m sector) := by
  have hre : ∀ ts, Sends P hyp E (retryPreCommit sector ts) := by
    intro ts
    cases hco : sector.commR with
    | none => simp [retryPreCommit, checkPreCommitted, hco, hP.retry, hP.landed, hE, Option.forall]
    | some commR => simp [retryPreCommit, checkPreCommitted, hco, hP.retry, hP.landed, hP.seed, Option.forall]
  have hch : ∀ ts, Sends P hyp E (checkedRetryPreCommit m sector ts) := by
    intro ts
    simp only [checkedRetryPreCommit, Prog.always_bind]
    refine checkPrecommit_always hE (fun r => ?_) sector ts
    split
    all_goals simp [hP.failed, hP.invalid, hP.expired, hP.retry, hre]
  cases hmsg : sector.preCommitMessage with
  | none => simp [handlePreCommitFailed, hmsg, hch]
  | some msg => simp [handlePreCommitFailed, hmsg, hch, hP.wait, hP.retry, Option.forall]

theorem handleComputeProofFailed_events (hfa : P .sectorSealPreCommit1Failed) (hre : P .sectorRetryComputeProof) :
    Sends P hyp E (handleComputeProofFailed sector) := by
  refine sendCooled_always ?_
  split_ifs
  · exact hfa
  · exact hre

structure ReplicaUpdateFailedEvents (P : Event → Prop) : Prop where
  update : P .sectorRetryReplicaUpdate
  prove : P .sectorRetryProveReplicaUpdate
  invalid : P (.sectorInvalidDealIDs none)
  expired : P .sectorDealsExpired
  abort : P .sectorAbortUpgrade
  submit : P .sectorRetrySubmitReplicaUpdate
  wait : P .sectorRetrySubmitReplicaUpdateWait

theorem handleSubmitReplicaUpdateFailed_events (hE : E .other) (hP : ReplicaUpdateFailedEvents P) :
    Sends P hyp E (handleSubmitReplicaUpdateFailed m sector) := by
  have hre : Sends P hyp E (retryReplicaUpdate m sector) := by
    simp only [retryReplicaUpdate, Prog.always_bind, Prog.always_ask, Only, true_and, Prog.forall_except]
    refine ⟨fun _ _ => trivial, fun ts _ => checkReplicaUpdate_always hE (fun r => ?_) sector ts.key⟩
    split
    all_goals simp [hP.update, hP.prove, hP.invalid, hP.expired, hP.abort, hP.submit]
  cases hmsg : sector.replicaUpdateMessage with
  | none => simp [handleSubmitReplicaUpdateFailed, hmsg, hre]
  | some msg => simp [handleSubmitReplicaUpdateFailed, hmsg, hre, hP.wait, hP.submit, Option.forall]

variable (P sector) in
structure CommitFailedEvents : Prop where
  seed : P .sectorRetryWaitSeed
  failed : P .sectorSealPreCommit1Failed
  invalid : P .sectorRetryInvalidProof
  precommit : P .sectorRetryPreCommit
  precommitWait : P .sectorRetryPreCommitWait
  deals : P (.sectorInvalidDealIDs (some .commitFailed))
  expired : P .sectorDealsExpired
  compute : P .sectorRetryComputeProof
  wait : sector.commitMessage ≠ none → P .sectorRetryCommitWait
  submit : sector.commitMessage ≠ none → P .sectorRetrySubmitCommit

theorem handleCommitFailed_events (hE : E .other) (hP : CommitFailedEvents P sector) :
    Sends P hyp E (handleCommitFailed m sector) := by
  have hre : ∀ ts, Sends P hyp E (retryCommit m sector ts) := by
    intro ts
    simp only [retryCommit, Prog.always_bind]
    refine checkCommit_always hE sector (fun r hr => ?_) sector.proof ts.key
    split
    case h_3 =>
      refine sendCooled_always ?_
      split_ifs
      · exact hP.failed
      · exact hP.invalid
    case h_8 => exact sendCooled_always (hP.wait (hr rfl))
    all_goals simp [hP.seed, hP.precommit, hP.precommitWait, hP.deals, hP.expired, hP.compute]
  rcases hmsg : sector.commitMessage with _ | msg
  · simp [handleCommitFailed, hmsg, hre]
  have hso : sector.commitMessage ≠ none := by simp [hmsg]
  simp [handleCommitFailed, hmsg, hre, hP.wait hso, hP.submit hso, Option.forall]

theorem handleTerminateFailed_events (hte : P .sectorTerminate) :
    handleTerminateFailed.Always (Only P) hyp (fun _ => True) E := by
  simp [handleTerminateFailed, hte, Option.forall]

theorem handleDealsExpired_events (hre : P .sectorRemove) : handleDealsExpired.Always (Only P) hyp (fun _ => True) E := by
  simp [handleDealsExpired, hre, Option.forall]

theorem handleDealsExpiredSnapDeals_events (ha : P .sectorAbortUpgrade) :
    Sends P hyp E (handleDealsExpiredSnapDeals sector) := by
  simp [handleDealsExpiredSnapDeals, ha]

theorem handleAbortUpgrade_events (hre : P .sectorRevertUpgradeToProving) : Sends P hyp E (handleAbortUpgrade sector) := by
  simp [handleAbortUpgrade, hre]

theorem recoveryPiecesToFix_always {Q : Option (List Nat) → Prop} (hQ : ∀ r, Q r) (ts : TipSet) (i : Nat)
    (pieces : List SectorPiece) : (recoveryPiecesToFix m ts i pieces).Always (Only P) hyp Q E := by
  induction pieces generalizing i Q with
  | nil => exact hQ _
  | cons p pieces ih =>
    cases hd : p.dealInfo with
    | none => simp [recoveryPiecesToFix, hd, hQ, ih]
    | some deal => simp [recoveryPiecesToFix, hd, hQ, ih, Option.forall]

section
variable (hE : E .other) {failWith : Event} (hfa : P failWith) (hu : ∀ updates, P (.sectorUpdateDealIDs updates))
include hE hfa hu

theorem recoverLoop_always (ts : TipSet) (failed : Bool) (updates : List (Nat × UInt64))
    (toFix : List Nat) : Sends P hyp E (recoverLoop sector ts failWith failed updates toFix) := by
  induction toFix generalizing failed updates with
  | nil => simp [recoverLoop, hfa, hu]
  | cons i toFix ih =>
    unfold recoverLoop
    split
    · exact hE
    split
    · exact hE
    split
    · simp [hfa]
    · simp [ih, Option.forall]

theorem handleRecoverDealIDsOrFailWith_events : Sends P hyp E (handleRecoverDealIDsOrFailWith m sector failWith) := by
  simp [handleRecoverDealIDsOrFailWith, recoveryPiecesToFix_always, recoverLoop_always, hE, hfa, hu, Option.forall]
end
end
end Lotus.Sealing
