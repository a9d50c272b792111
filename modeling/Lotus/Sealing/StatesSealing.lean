/-
# The handlers from the first piece to the proof (`storage/pipeline/states_sealing.go`,
`input.go`, `receive.go`).

A handler is started with the sector as the planner has left it. An event that a timer or a watcher of the chain sends later
is sent here at the end of the handler, if at all.
-/
import Lotus.Sealing.Checks

namespace Lotus.Sealing
open Lib Prog

def exitOk : Int := 0

def sysErrInsufficientFunds : Int := 6

def sysErrOutOfGas : Int := 7

def sendTimes (event : Event) : Nat → H Unit
  | 0 => return
  | n + 1 => do
    send event
    sendTimes event n

/-! ## Pieces -/

section
variable (m : Env) (sector : SectorInfo)

def handleReceiveSector : H Unit := do
  let toFetch := [sector.remoteDataUnsealed, sector.remoteDataSealed, sector.remoteDataCache].filter fun data =>
    data.any fun d => !d.isLocal
  if toFetch = [] then send .sectorReceived
  else
    let .ok () ← ask .downloadSectorData | return
    send .sectorReceived

def lastDealEnd : Int → List SectorPiece → H Int
  | last, [] => return last
  | last, piece :: pieces =>
    match piece.dealInfo with
    | none => lastDealEnd last pieces
    | some deal =>
      match deal.dealProposal with
      | none => fail .other
      | some proposal => lastDealEnd (max last proposal.endEpoch) pieces

/-- The time to seal, from the deal that starts first, in `maybeStartSealing`. -/
def sealTime (m : Env) (cfg : Config) (ts : TipSet) : Int → List SectorPiece → H Int
  | time, [] => return time
  | time, piece :: pieces =>
    match piece.dealInfo with
    | none => sealTime m cfg ts time pieces
    | some deal =>
      match deal.dealProposal with
      | none => fail .other
      | some proposal => do
        let now : Int ← ask .now
        let dealSafeSealEpoch := proposal.startEpoch - cfg.startEpochSealingBuffer
        let dealSafeSealTime := now + (dealSafeSealEpoch - ts.height) * (m.blockDelaySecs * 10 ^ 9)
        sealTime m cfg ts (min time dealSafeSealTime) pieces

def getDealPerSectorLimit (size : Nat) : Nat := if size < 64 * 2 ^ 30 then 256 else 512

/-- `maybeStartSealing`: whether it has started, or its error. -/
def maybeStartSealing (used : Nat) : H (Option Bool) := do
  let now : Int ← ask .now
  let expired : Bool ← ask .timerExpired
  if expired then
    send .sectorStartPacking
    return some true
  else
    let .ok ssize ← ask (.sectorSize sector.sectorType) | return none
    if sector.dealIDs.length ≥ getDealPerSectorLimit ssize then
      send .sectorStartPacking
      return some true
    else if padded used = ssize then
      send .sectorStartPacking
      return some true
    else if sector.creationTime ≠ 0 then
      let .ok cfg ← ask .getConfig | return none
      let .ok ts ← ask .chainHead | return none
      let time ← sealTime m cfg ts (sector.creationTime * 10 ^ 9 + cfg.waitDealsDelay) sector.pieces
      if now > time then
        send .sectorStartPacking
        return some true
      else
        let fires : Bool ← ask .timerFires
        if fires then
          send .sectorStartPacking
          return some false
        else return some false
    else return some false

def handleWaitDeals : H Unit := do
  let used := (sector.pieces.map fun p => unpadded p.size).sum
  let _ ← lastDealEnd 0 sector.pieces
  let assigned : Option (List Cid) ← ask .assignedPieces
  if (assigned.getD []).length > 0 then send .sectorAddPiece
  else
    let some false ← maybeStartSealing m sector used | return
    let n : Nat ← ask .maybeAccept
    sendTimes .sectorAddPiece n

def bitSizes (n : Nat) : List Nat := ((List.range 64).filter fun i => n.testBit i).map fun i => 2 ^ i

def getRequiredPadding (oldLength newPieceLength : Nat) : List Nat × Nat :=
  let toFill := (2 ^ 64 - oldLength % 2 ^ 64) % 2 ^ 64 % newPieceLength
  (bitSizes toFill, (bitSizes toFill).sum)

/-- The padding of `handleAddPiece`: the pieces, unless writing one fails. -/
def addPads (m : Env) : List Nat → H (Option (List SectorPiece))
  | [] => return some []
  | p :: pads => do
    let .ok ppi ← ask (.addPiece (unpadded p)) | return none
    if ppi.2 ≠ m.zeroPieceCommitment (unpadded p) then return none
    else
      let some pieces ← addPads m pads | return none
      return some (⟨ppi.1, ppi.2, none⟩ :: pieces)

/-- The loop of `handleAddPiece`: the pending pieces, the offset, and what was added. -/
def handleAddPieceLoop (m : Env) (sector : SectorInfo) (ssize : Nat) : Nat → List Cid → Nat → List SectorPiece → H Unit
  | _, [], _, newPieces => send (.sectorPieceAdded newPieces)
  | i, piece :: pending, offset, newPieces => do
    let some (size, deal) ← ask (.pendingPiece piece) | return
    if sector.dealIDs.length + (i + 1) > getDealPerSectorLimit ssize then
      handleAddPieceLoop m sector ssize (i + 1) pending offset newPieces
    -- the size is a divisor
    else if padded size = 0 then fail .other
    else
      let pads := getRequiredPadding (padded offset) (padded size)
      if padded offset + pads.2 + padded size > ssize then
        handleAddPieceLoop m sector ssize (i + 1) pending offset newPieces
      else
        let some padPieces ← addPads m pads.1 | send .sectorAddPieceFailed
        let .ok ppi ← ask (.addPiece size) | send .sectorAddPieceFailed
        match deal.dealProposal with
        | none => fail .other
        | some proposal =>
          if ppi.2 ≠ proposal.pieceCID then send .sectorAddPieceFailed
          else
            handleAddPieceLoop m sector ssize (i + 1) pending (offset + unpadded pads.2 + size)
              (newPieces ++ padPieces ++ [⟨ppi.1, ppi.2, some deal⟩])

def handleAddPiece : H Unit := do
  let .ok ssize ← ask (.sectorSize sector.sectorType) | return
  let some pending ← ask .assignedPieces | send (.sectorPieceAdded [])
  handleAddPieceLoop m sector ssize 0 pending ((sector.pieces.map fun p => unpadded p.size).sum) []

def handleAddPieceFailed : H Unit := send .sectorRetryWaitDeals

def fillersFromRem (n : Nat) : List Nat := (bitSizes (n + n / 127)).map unpadded

def padSector (m : Env) : List Nat → H (Option (List (Nat × Cid)))
  | [] => return some []
  | size :: sizes => do
    let .ok ppi ← ask (.addPiece size) | return none
    let some out ← padSector m sizes | return none
    return some ((ppi.1, m.zeroPieceCommitment size) :: out)

def handlePacking : H Unit := do
  if sector.state = .snapDealsPacking ∧ !sector.hasDeals then send .sectorAbortUpgrade
  else
    let allocated := (sector.pieces.map fun p => unpadded p.size).sum
    let .ok ssize ← ask (.sectorSize sector.sectorType) | return
    if allocated > unpadded ssize then return
    else
      let some fillerPieces ← padSector m (fillersFromRem (unpadded ssize - allocated)) | return
      send (.sectorPacked fillerPieces)

/-! ## The replica -/

def checkTicketExpired (ticket head : Int) : Bool := head - ticket > m.maxPreCommitRandomnessLookback

def checkProveCommitExpired (preCommitEpoch msd currEpoch : Int) : Bool := currEpoch > preCommitEpoch + msd

/-- What `getTicket` returns: the ticket, its epoch, whether the number is allocated, and whether it fails. -/
structure TicketResult where
  ticketValue : Bytes
  ticketEpoch : Int
  allocated : Bool
  failed : Bool
deriving DecidableEq

/-- The epoch of the ticket in `getTicket`; none is an error. -/
def ticketEpochOf (ts : TipSet) (allocated : Bool) : Option PreCommitOnChainInfo →
    H (Option Int)
  | none => if allocated then return none else return some (ts.height - m.sealRandomnessLookback)
  | some pci => do
    let .ok nv ← ask (.stateNetworkVersion ts.key) | return none
    let .ok av ← ask (.versionForNetwork nv) | return none
    let .ok msd ← ask (.getMaxProveCommitDuration av sector.sectorType) | return none
    if checkProveCommitExpired pci.preCommitEpoch msd ts.height then return none
    else return some pci.sealRandEpoch

def getTicket : H TicketResult := do
  -- not an error: the caller goes on with what is returned
  let .ok ts ← ask .chainHead | return ⟨[], 0, false, false⟩
  let .ok allocated ← ask (.stateMinerSectorAllocated []) | return ⟨[], 0, false, false⟩
  let .ok () ← ask .marshal | return ⟨[], 0, allocated, true⟩
  let .ok pci ← ask (.stateSectorPreCommitInfo ts.key) | return ⟨[], 0, allocated, true⟩
  let some ticketEpoch ← ticketEpochOf m sector ts allocated pci | return ⟨[], 0, allocated, true⟩
  let .ok rand ← ask (.stateGetRandomnessFromTickets ticketEpoch ts.key) | return ⟨[], 0, allocated, true⟩
  return ⟨rand, ticketEpoch, allocated, false⟩

def ticketEvent (res : TicketResult) : Event :=
  if res.failed then
    if res.allocated then if sector.commitMessage ≠ none then .sectorCommitFailed else .sectorRemove
    else .sectorSealPreCommit1Failed
  else .sectorTicket res.ticketValue res.ticketEpoch

def handleGetTicket : H Unit := do
  let res ← getTicket m sector
  send (ticketEvent sector res)

/-- `handlePreCommit1` behind the checks. -/
def sealPreCommit1 : H Unit := do
  let .ok pc1o ← ask .sealPreCommit1 | send .sectorSealPreCommit1Failed
  send (.sectorPreCommit1 pc1o)

def handlePreCommit1 : H Unit := do
  match ← checkPieces m sector.pieces false with
  | .error .errInvalidDeals => send (.sectorInvalidDealIDs (some .preCommit1))
  | .error .errExpiredDeals => send .sectorDealsExpired
  | .error _ => return
  | .ok () =>
    let .ok ts ← ask .chainHead | return
    if checkTicketExpired m sector.ticketEpoch ts.height then
      let .ok pci ← ask (.stateSectorPreCommitInfo ts.key) | return
      match pci with
      | none => send .sectorOldTicket
      | some pci =>
        let .ok nv ← ask (.stateNetworkVersion ts.key) | return
        let .ok av ← ask (.versionForNetwork nv) | return
        let .ok msd ← ask (.getMaxProveCommitDuration av sector.sectorType) | return
        if checkProveCommitExpired pci.preCommitEpoch msd ts.height then send .sectorOldTicket else sealPreCommit1
    else sealPreCommit1

def handlePreCommit2 : H Unit := do
  let .ok (isealed, iunsealed) ← ask .sealPreCommit2 | send .sectorSealPreCommit2Failed
  if iunsealed = ⟨[]⟩ then send .sectorSealPreCommit1Failed else send (.sectorPreCommit2 isealed iunsealed)

/-! ## The precommit -/

/-- What `preCommitInfo` returns, without the parameters that nothing reads. -/
structure PreCommitInfo where
  expiration : Int
  collateral : Int
  tsk : TipSetKey

/-- An event in place of a result; the error of `ctx.Send` is returned. -/
def sendInstead (event : Event) : H (Except Unit (Option PreCommitInfo)) := do
  match ← ask (.send event) with
  | .ok () => return .ok none
  | .error _ => return .error ()

def preCommitParams (ts : TipSet) : H (Except Unit (Option PreCommitInfo)) := do
  let .ok expiration ← ask (.expiration sector.pieces) | sendInstead .sectorSealPreCommit1Failed
  let .ok nv ← ask (.stateNetworkVersion ts.key) | sendInstead .sectorSealPreCommit1Failed
  let .ok av ← ask (.versionForNetwork nv) | sendInstead .sectorSealPreCommit1Failed
  let .ok msd ← ask (.getMaxProveCommitDuration av sector.sectorType) | sendInstead .sectorSealPreCommit1Failed
  let minExpiration := sector.ticketEpoch + m.maxPreCommitRandomnessLookback + msd + m.minSectorExpiration
  let maxExpiration := ts.height + m.preCommitChallengeDelay + m.maxSectorExpirationExtension
  let expiration := min (max expiration minExpiration) maxExpiration
  match sector.commR with
  | none => fail .other
  | some commR =>
    let .ok collateral ← ask (.stateMinerPreCommitDepositForPower expiration commR ts.key) | return .error ()
    return .ok (some ⟨expiration, collateral, ts.key⟩)

def preCommitInfo : H (Except Unit (Option PreCommitInfo)) := do
  let .ok ts ← ask .chainHead | return .ok none
  match ← checkPrecommit m sector ts with
  | .error .errApi => return .ok none
  | .error .errBadCommD | .error .errExpiredTicket | .error .errBadTicket => sendInstead .sectorSealPreCommit1Failed
  | .error .errInvalidDeals => sendInstead (.sectorInvalidDealIDs (some .preCommitting))
  | .error .errExpiredDeals => sendInstead .sectorDealsExpired
  | .error .errPrecommitOnChain => sendInstead (.sectorPreCommitLanded ts.key)
  | .error .errSectorNumberAllocated => return .ok none
  | .error _ => return .error ()
  | .ok () => preCommitParams m sector ts

def collateralSendAmount (cfg : Config) (collateral : Int) : H (Option Int) := do
  if cfg.collateralFromMinerBalance then
    if cfg.disableCollateralFallback then return some 0
    else
      let .ok avail ← ask .stateMinerAvailableBalance | return none
      return some (max 0 (collateral - max 0 (avail - cfg.availableBalanceBuffer)))
  else return some collateral

/-- `handlePreCommitting` where the precommit is sent by itself. -/
def preCommitOne (cfg : Config) (sector : SectorInfo) : H Unit := do
  match ← preCommitInfo m sector with
  | .error () => send .sectorChainPreCommitFailed
  | .ok none => return
  | .ok (some info) =>
    let some deposit ← collateralSendAmount cfg info.collateral | return
    let .ok () ← ask .marshal | send .sectorChainPreCommitFailed
    let .ok () ← ask (.stateMinerInfo info.tsk) | return
    let .ok _ ← ask (.addressFor (deposit + m.maxPreCommitGasFee) deposit) | send .sectorChainPreCommitFailed
    let .ok mcid ← ask (.sendMsg deposit) | send .sectorChainPreCommitFailed
    send (.sectorPreCommitted mcid info.collateral)

def handlePreCommitting : H Unit := do
  let .ok cfg ← ask .getConfig | return
  if cfg.batchPreCommits then
    let .ok nv ← ask (.stateNetworkVersion []) | return
    if nv ≥ 13 then send .sectorPreCommitBatch else preCommitOne m cfg sector
  else preCommitOne m cfg sector

def handleSubmitPreCommitBatch : H Unit := do
  if sector.commD = none ∨ sector.commR = none then send .sectorSealPreCommit1Failed
  else
    match ← preCommitInfo m sector with
    | .error () => send .sectorChainPreCommitFailed
    | .ok none => return
    | .ok (some info) =>
      let .ok res ← ask (.addPreCommit info.collateral) | send .sectorChainPreCommitFailed
      if res.error ≠ "" then send .sectorChainPreCommitFailed
      else
        match res.msg with
        | none => send .sectorChainPreCommitFailed
        | some msg => send (.sectorPreCommitBatchSent msg)

/-- The records of the deals in `handlePreCommitWait`. -/
def recordDeals : List UInt64 → H Unit
  | [] => return
  | deal :: deals => do
    if deal > 0 then
      -- the error is only logged, and the fields of the result are read
      let .ok _ ← ask (.stateMarketStorageDeal deal []) | fail .failedResult
      recordDeals deals
    else recordDeals deals

def handlePreCommitWait : H Unit := do
  match sector.preCommitMessage with
  | none => send .sectorChainPreCommitFailed
  | some msg =>
    let .ok mw ← ask (.stateWaitMsg msg) | send .sectorChainPreCommitFailed
    if mw.exitCode = exitOk then
      -- `sector.CommD.String()` and `sector.CommR.String()`
      if sector.commD = none ∨ sector.commR = none then fail .other
      else
        recordDeals sector.dealIDs
        send (.sectorPreCommitLanded mw.tipSet)
    else if mw.exitCode = sysErrInsufficientFunds ∨ mw.exitCode = sysErrOutOfGas then send .sectorRetryPreCommit
    else send .sectorChainPreCommitFailed

/-! ## The proof -/

def handleWaitSeed : H Unit := do
  let .ok ts ← ask .chainHead | return
  let .ok pci ← ask (.stateSectorPreCommitInfo ts.key) | return
  match pci with
  | none => send .sectorChainPreCommitFailed
  | some pci =>
    let randHeight := pci.preCommitEpoch + m.preCommitChallengeDelay
    let (_, true) ← ask (.chainAt randHeight) | return
    let .ok ts ← ask .chainHead | return
    let .ok () ← ask .marshal | return
    let .ok rand ← ask (.stateGetRandomnessFromBeacon randHeight ts.key) | send .sectorChainPreCommitFailed
    send (.sectorSeedReady rand randHeight)

/-- A remote's answer in `handleCommitting`; `failed` is sent where it fails, except in serialising. -/
def remoteCommit (remote : Remote) (url : String) (failed : Event) : H (Option Bytes) := do
  let .ok () ← ask .marshal | return none
  let .ok () ← ask (.newRequest remote url) | send failed; return none
  let .ok status ← ask (.httpDo remote) | send failed; return none
  if status ≠ 200 then
    send failed
    return none
  else
    let .ok body ← ask (.readAll remote) | send failed; return none
    return some body

/-- The first part of the proof in `handleCommitting`. -/
def commit1 (sector : SectorInfo) : H (Option Bytes) := do
  if sector.remoteCommit1Endpoint = "" then
    let .ok c2in ← ask .sealCommit1 | send .sectorComputeProofFailed; return none
    return some c2in
  else remoteCommit .commit1 sector.remoteCommit1Endpoint .sectorRemoteCommit1Failed

/-- The second part of the proof in `handleCommitting`. -/
def commit2 (sector : SectorInfo) : H (Option Bytes) := do
  if sector.remoteCommit2Endpoint = "" then
    let .ok porepProof ← ask .sealCommit2 | send .sectorComputeProofFailed; return none
    return some porepProof
  else remoteCommit .commit2 sector.remoteCommit2Endpoint .sectorRemoteCommit2Failed

/-- `handleCommitting` behind the search for an earlier message. -/
def computeProof : H Unit := do
  let .ok cfg ← ask .getConfig | return
  if sector.commD = none ∨ sector.commR = none then send .sectorCommitFailed
  else
    let some _ ← commit1 sector | return
    let some porepProof ← commit2 sector | return
    let .ok ts ← ask .chainHead | return
    let .ok () ← checkCommit m sector porepProof ts.key | send .sectorCommitFailed
    if cfg.finalizeEarly then send (.sectorProofReady porepProof) else send (.sectorCommitted porepProof)

def handleCommitting : H Unit := do
  match sector.commitMessage with
  | none => computeProof m sector
  | some msg =>
    match ← ask (.stateSearchMsg [] msg) with
    | .ok (some _) => send .sectorRetryCommitWait
    | _ => computeProof m sector

/-! ## The commit -/

/-- `handleSubmitCommit` where the commit is sent by itself. -/
def submitCommitOne (cfg : Config) (sector : SectorInfo) : H Unit := do
  let .ok ts ← ask .chainHead | return
  let .ok () ← checkCommit m sector sector.proof ts.key | send .sectorCommitFailed
  let .ok () ← ask .marshal | send .sectorCommitFailed
  let .ok () ← ask (.stateMinerInfo ts.key) | return
  let .ok pci ← ask (.stateSectorPreCommitInfo ts.key) | return
  match pci with
  | none => send .sectorCommitFailed
  | some pci =>
    let .ok collateral ← ask (.stateMinerInitialPledgeCollateral pci.expiration pci.sealedCID ts.key) | return
    let some collateral ← collateralSendAmount cfg (max 0 (collateral - pci.preCommitDeposit)) | return
    let .ok _ ← ask (.addressFor (collateral + m.maxCommitGasFee) collateral) | send .sectorCommitFailed
    let .ok mcid ← ask (.sendMsg collateral) | send .sectorCommitFailed
    send (.sectorCommitSubmitted mcid)

def handleSubmitCommit : H Unit := do
  let .ok cfg ← ask .getConfig | return
  if cfg.aggregateCommits then
    let .ok nv ← ask (.stateNetworkVersion []) | return
    if nv ≥ 13 then send .sectorSubmitCommitAggregate else submitCommitOne m cfg sector
  else submitCommitOne m cfg sector

/-- `handleSubmitCommitAggregate` where the aggregation fails. -/
def retrySubmitCommit : H Unit := do
  let .ok ts ← ask .chainHead | return
  let .ok () ← checkCommit m sector sector.proof ts.key | send .sectorCommitFailed
  send .sectorRetrySubmitCommit

def handleSubmitCommitAggregate : H Unit := do
  if sector.commD = none ∨ sector.commR = none then send .sectorCommitFailed
  else
    let .ok res ← ask (.addCommit sector.proof) | retrySubmitCommit m sector
    if res.error ≠ "" then retrySubmitCommit m sector
    else if res.failed then send .sectorCommitFailed
    else
      match res.msg with
      | none => send .sectorCommitFailed
      | some msg => send (.sectorCommitAggregateSent msg)

def handleCommitWait : H Unit := do
  match sector.commitMessage with
  | none => send .sectorCommitFailed
  | some msg =>
    let .ok mw ← ask (.stateWaitMsg msg) | send .sectorCommitFailed
    if mw.exitCode = exitOk then
      let .ok (some _) ← ask (.stateSectorGetInfo mw.tipSet) | send .sectorCommitFailed
      send .sectorProving
    else if mw.exitCode = sysErrInsufficientFunds ∨ mw.exitCode = sysErrOutOfGas then send .sectorRetrySubmitCommit
    else send .sectorCommitFailed

def handleFinalizeSector : H Unit := do
  let .ok cfg ← ask .getConfig | return
  let .ok () ← ask .finalizeSector | send .sectorFinalizeFailed
  if cfg.makeCCSectorsAvailable ∧ !sector.hasDeals then send .sectorFinalizedAvailable else send .sectorFinalized

/-! ## The events that the handlers send -/
end

section
variable {P : Event → Prop} {hyp : ∀ {α}, Api α → α → Prop} {E : Panic → Prop} {m : Env} {sector : SectorInfo}

theorem handleReceiveSector_events (hre : P .sectorReceived) : Sends P hyp E (handleReceiveSector sector) := by
  simp [handleReceiveSector, hre]

theorem sendTimes_always {event : Event} (hev : P event) (n : Nat) : Sends P hyp E (sendTimes event n) := by
  induction n with
  | zero => trivial
  | succ n ih => simp [sendTimes, hev, ih]

section
variable (hE : E .other)
include hE

theorem lastDealEnd_always {Q : Int → Prop} (hQ : ∀ last, Q last) (last : Int)
    (pieces : List SectorPiece) : (lastDealEnd last pieces).Always (Only P) hyp Q E := by
  induction pieces generalizing last with
  | nil => exact hQ last
  | cons piece pieces ih =>
    unfold lastDealEnd
    split
    · exact ih last
    split
    · exact hE
    · exact ih _

theorem sealTime_always {Q : Int → Prop} (hQ : ∀ time, Q time) (cfg : Config) (ts : TipSet) (time : Int)
    (pieces : List SectorPiece) : (sealTime m cfg ts time pieces).Always (Only P) hyp Q E := by
  induction pieces generalizing time with
  | nil => exact hQ time
  | cons piece pieces ih =>
    unfold sealTime
    split
    · exact ih time
    split
    · exact hE
    · simp [ih]

theorem maybeStartSealing_always (hpa : P .sectorStartPacking) {Q : Option Bool → Prop}
    (hQ : ∀ r, Q r) (used : Nat) : (maybeStartSealing m sector used).Always (Only P) hyp Q E := by
  simp [maybeStartSealing, hpa, hQ, sealTime_always, hE]

theorem handleWaitDeals_events (hpi : P .sectorAddPiece) (hpa : P .sectorStartPacking) :
    Sends P hyp E (handleWaitDeals m sector) := by
  simp [handleWaitDeals, lastDealEnd_always, maybeStartSealing_always, sendTimes_always, hE, hpi, hpa, Option.forall]
end

theorem addPads_always {Q : Option (List SectorPiece) → Prop} (hQ : ∀ r, Q r) (pads : List Nat) :
    (addPads m pads).Always (Only P) hyp Q E := by
  induction pads generalizing Q with
  | nil => exact hQ _
  | cons p pads ih => simp [addPads, hQ, ih, Option.forall]

section
variable (hE : E .other) (ha : ∀ ps, P (.sectorPieceAdded ps)) (hfa : P .sectorAddPieceFailed)
include hE ha hfa

theorem handleAddPieceLoop_always (ssize i : Nat) (pending : List Cid) (offset : Nat) (newPieces : List SectorPiece) :
    Sends P hyp E (handleAddPieceLoop m sector ssize i pending offset newPieces) := by
  induction pending generalizing i offset newPieces with
  | nil => simp [handleAddPieceLoop, ha]
  | cons piece pending ih =>
    simp only [handleAddPieceLoop, always_bind, always_ask, Only, true_and, Option.forall]
    refine ⟨fun _ => trivial, ?_⟩
    rintro ⟨size, deal⟩ -
    simp only [always_ite, ih, implies_true, true_and, always_fail, hE, always_bind]
    refine fun _ _ _ => addPads_always (fun r => ?_) _
    rcases r with _ | padPieces
    · simp [hfa]
    cases deal.dealProposal with
    | none => simp [hfa, hE]
    | some proposal => simp [hfa, ih]

theorem handleAddPiece_events : Sends P hyp E (handleAddPiece m sector) := by
  simp [handleAddPiece, ha, handleAddPieceLoop_always, hE, hfa, Option.forall]
end

theorem padSector_always {Q : Option (List (Nat × Cid)) → Prop} (hQ : ∀ r, Q r) (sizes : List Nat) :
    (padSector m sizes).Always (Only P) hyp Q E := by
  induction sizes generalizing Q with
  | nil => exact hQ _
  | cons size sizes ih => simp [padSector, hQ, ih, Option.forall]

theorem handlePacking_events (ha : sector.state = .snapDealsPacking → P .sectorAbortUpgrade)
    (hpa : ∀ ps, P (.sectorPacked ps)) : Sends P hyp E (handlePacking m sector) := by
  simp +contextual [handlePacking, ha, padSector_always, hpa, Option.forall]

theorem ticketEpochOf_always {Q : Option Int → Prop} (hQ : ∀ r, Q r) (ts : TipSet) (allocated : Bool)
    (pci : Option PreCommitOnChainInfo) : (ticketEpochOf m sector ts allocated pci).Always (Only P) hyp Q E := by
  cases pci with
  | none | some pci => simp [ticketEpochOf, hQ]

theorem getTicket_always {Q : TicketResult → Prop} (hQ : ∀ res, Q res) : (getTicket m sector).Always (Only P) hyp Q E := by
  simp [getTicket, hQ, ticketEpochOf_always, Option.forall]

theorem handleGetTicket_events (htk : ∀ value epoch, P (.sectorTicket value epoch)) (hre : P .sectorRemove)
    (hco : P .sectorCommitFailed) (hfa : P .sectorSealPreCommit1Failed) : Sends P hyp E (handleGetTicket m sector) := by
  have hev : ∀ res, P (ticketEvent sector res) := by
    intro res
    unfold ticketEvent
    split_ifs
    · exact hco
    · exact hre
    · exact hfa
    · exact htk _ _
  simp [handleGetTicket, getTicket_always, hev]

theorem handlePreCommit1_events (hE : E .other) (hb : P (.sectorInvalidDealIDs (some .preCommit1)))
    (hexp : P .sectorDealsExpired) (hold : P .sectorOldTicket) (hfa : P .sectorSealPreCommit1Failed)
    (hd : ∀ out, P (.sectorPreCommit1 out)) : Sends P hyp E (handlePreCommit1 m sector) := by
  have hse : sealPreCommit1.Always (Only P) hyp (fun _ => True) E := by simp [sealPreCommit1, hfa, hd]
  simp only [handlePreCommit1, always_bind]
  refine checkPieces_always hE (fun r _ => ?_) _ _
  split
  · simp [hb]
  · simp [hexp]
  · trivial
  · simp [hold, hse, Option.forall]

theorem handlePreCommit2_events (hd : ∀ isealed iunsealed, P (.sectorPreCommit2 isealed iunsealed))
    (hfa : P .sectorSealPreCommit1Failed) (hf2 : P .sectorSealPreCommit2Failed) :
    handlePreCommit2.Always (Only P) hyp (fun _ => True) E := by
  simp [handlePreCommit2, hd, hfa, hf2]

variable {Q : Except Unit (Option PreCommitInfo) → Prop}

theorem sendInstead_always {event : Event} (hev : P event)
    (hQ : ∀ r, Q r) : (sendInstead event).Always (Only P) hyp Q E := by
  simp [sendInstead, hev, hQ]

structure PreCommitEvents (P : Event → Prop) : Prop where
  failed : P .sectorSealPreCommit1Failed
  invalid : P (.sectorInvalidDealIDs (some .preCommitting))
  expired : P .sectorDealsExpired
  landed : ∀ tsk, P (.sectorPreCommitLanded tsk)
  chain : P .sectorChainPreCommitFailed

theorem preCommitInfo_always (hE : E .other) (hP : PreCommitEvents P)
    (hQ : ∀ r, Q r) : (preCommitInfo m sector).Always (Only P) hyp Q E := by
  have hpa : ∀ ts, (preCommitParams m sector ts).Always (Only P) hyp Q E := by
    intro ts
    cases hco : sector.commR with
    | none => simp [preCommitParams, hco, sendInstead_always, hP.failed, hQ, hE]
    | some commR => simp [preCommitParams, hco, sendInstead_always, hP.failed, hQ]
  simp only [preCommitInfo, always_bind, always_ask, Only, true_and, forall_except]
  refine ⟨fun _ _ => hQ _, fun ts _ => checkPrecommit_always hE (fun r => ?_) sector ts⟩
  split
  all_goals first
    | exact hQ _
    | exact hpa ts
    | exact sendInstead_always hP.failed hQ
    | exact sendInstead_always hP.invalid hQ
    | exact sendInstead_always hP.expired hQ
    | exact sendInstead_always (hP.landed _) hQ

theorem collateralSendAmount_always {Q : Option Int → Prop} (hQ : ∀ r, Q r) (cfg : Config) (collateral : Int) :
    (collateralSendAmount cfg collateral).Always (Only P) hyp Q E := by
  simp [collateralSendAmount, hQ]

theorem handlePreCommitting_events (hE : E .other) (hP : PreCommitEvents P) (hb : P .sectorPreCommitBatch)
    (hse : ∀ msg deposit, P (.sectorPreCommitted msg deposit)) : Sends P hyp E (handlePreCommitting m sector) := by
  have ho : ∀ cfg, Sends P hyp E (preCommitOne m cfg sector) := by
    intro cfg
    simp only [preCommitOne, always_bind]
    refine preCommitInfo_always hE hP fun r => ?_
    split
    · simp [hP.chain]
    · trivial
    · simp [collateralSendAmount_always, hP.chain, hse, Option.forall]
  simp [handlePreCommitting, hb, ho]

theorem handleSubmitPreCommitBatch_events (hE : E .other) (hP : PreCommitEvents P)
    (hse : ∀ msg, P (.sectorPreCommitBatchSent msg)) : Sends P hyp E (handleSubmitPreCommitBatch m sector) := by
  simp only [handleSubmitPreCommitBatch, always_ite, always_bind]
  refine ⟨fun _ => by simp [hP.failed], fun _ => preCommitInfo_always hE hP fun r => ?_⟩
  split
  · simp [hP.chain]
  · trivial
  simp only [always_bind, always_ask, Only, true_and, forall_except, always_ite]
  refine ⟨fun _ _ => by simp [hP.chain], fun res _ => ⟨fun _ => by simp [hP.chain], fun _ => ?_⟩⟩
  split
  · simp [hP.chain]
  · simp [hse]

theorem recordDeals_always (hd : ∀ id tsk err, hyp (.stateMarketStorageDeal id tsk) (.error err) → E .failedResult)
    (deals : List UInt64) : Sends P hyp E (recordDeals deals) := by
  induction deals with
  | nil => trivial
  | cons deal deals ih => simpa [recordDeals, ih] using fun _ => hd deal []

theorem handlePreCommitWait_events (hE : E .other)
    (hd : ∀ id tsk err, hyp (.stateMarketStorageDeal id tsk) (.error err) → E .failedResult)
    (hch : P .sectorChainPreCommitFailed) (hre : P .sectorRetryPreCommit)
    (hla : ∀ tsk, P (.sectorPreCommitLanded tsk)) : Sends P hyp E (handlePreCommitWait sector) := by
  have hrec := fun deals => recordDeals_always (P := P) hd deals
  cases hmsg : sector.preCommitMessage with
  | none => simp [handlePreCommitWait, hmsg, hch]
  | some msg => simp [handlePreCommitWait, hmsg, hch, hre, hla, hE, hrec]

theorem handleWaitSeed_events (hch : P .sectorChainPreCommitFailed)
    (hse : ∀ value epoch, P (.sectorSeedReady value epoch)) : Sends P hyp E (handleWaitSeed m) := by
  simp [handleWaitSeed, hch, hse, Option.forall]

theorem remoteCommit_always {remote : Remote} {failed : Event} (hfa : P failed) {Q : Option Bytes → Prop}
    (hn : Q none) (hso : ∀ body, hyp (.readAll remote) (.ok body) → Q (some body)) (url : String) :
    (remoteCommit remote url failed).Always (Only P) hyp Q E := by
  simp +contextual [remoteCommit, hfa, hn, hso]

/-- The events of `handleCommitting`; a proof is an answer of the sealer or of the remote. -/
structure CommittingEvents (P : Event → Prop) (hyp : ∀ {α}, Api α → α → Prop) (sector : SectorInfo) : Prop where
  retry : sector.commitMessage ≠ none → P .sectorRetryCommitWait
  failed : P .sectorCommitFailed
  compute : P .sectorComputeProofFailed
  remote₁ : P .sectorRemoteCommit1Failed
  remote₂ : P .sectorRemoteCommit2Failed
  proof : ∀ p, hyp .sealCommit2 (.ok p) ∨ hyp (.readAll .commit2) (.ok p) →
    P (.sectorProofReady p) ∧ P (.sectorCommitted p)

theorem handleCommitting_events (hE : E .other) (hP : CommittingEvents P hyp sector) :
    Sends P hyp E (handleCommitting m sector) := by
  have hc1 : ∀ {Q : Option Bytes → Prop}, (∀ r, Q r) → (commit1 sector).Always (Only P) hyp Q E := by
    intro Q hQ
    simp [commit1, hP.compute, remoteCommit_always, hP.remote₁, hQ]
  have hc2 : ∀ {Q : Option Bytes → Prop}, Q none →
      (∀ p, hyp .sealCommit2 (.ok p) ∨ hyp (.readAll .commit2) (.ok p) → Q (some p)) →
      (commit2 sector).Always (Only P) hyp Q E := by
    intro Q hn hso
    simp +contextual [commit2, hP.compute, remoteCommit_always, hP.remote₂, hn, hso]
  have hco : Sends P hyp E (computeProof m sector) := by
    simp only [computeProof, always_bind, always_ask, Only, true_and, forall_except, always_ite]
    refine ⟨fun _ _ => trivial, fun cfg _ => ⟨fun _ => by simp [hP.failed], fun _ => hc1 fun r => ?_⟩⟩
    rcases r with _ | c2in
    · trivial
    simp only [always_bind]
    refine hc2 trivial fun p hp => ?_
    simp [checkCommit_always, hE, hP.failed, hP.proof p hp]
  cases hmsg : sector.commitMessage with
  | none => simpa [handleCommitting, hmsg] using hco
  | some msg => simp [handleCommitting, hmsg, hco, hP.retry, Option.forall]

theorem handleSubmitCommit_events (hE : E .other) (ha : P .sectorSubmitCommitAggregate) (hfa : P .sectorCommitFailed)
    (hse : ∀ msg, P (.sectorCommitSubmitted msg)) : Sends P hyp E (handleSubmitCommit m sector) := by
  have ho : ∀ cfg, Sends P hyp E (submitCommitOne m cfg sector) := by
    intro cfg
    simp [submitCommitOne, checkCommit_always, hE, collateralSendAmount_always, hfa, hse, Option.forall]
  simp [handleSubmitCommit, ha, ho]

theorem handleSubmitCommitAggregate_events (hE : E .other) (hfa : P .sectorCommitFailed)
    (hre : P .sectorRetrySubmitCommit) (hse : ∀ msg, P (.sectorCommitAggregateSent msg)) :
    Sends P hyp E (handleSubmitCommitAggregate m sector) := by
  have ha : Sends P hyp E (retrySubmitCommit m sector) := by
    simp [retrySubmitCommit, checkCommit_always, hE, hfa, hre]
  simp only [handleSubmitCommitAggregate, always_bind, always_ask, Only, true_and, forall_except, always_ite, ha, implies_true]
  refine ⟨fun _ => by simp [hfa], fun _ res _ _ => ⟨fun _ => by simp [hfa], fun _ => ?_⟩⟩
  split
  · simp [hfa]
  · simp [hse]

theorem handleCommitWait_events (hfa : P .sectorCommitFailed)
    (hre : sector.commitMessage ≠ none → P .sectorRetrySubmitCommit) (hpr : P .sectorProving) :
    Sends P hyp E (handleCommitWait sector) := by
  rcases hmsg : sector.commitMessage with _ | msg
  · simp [handleCommitWait, hmsg, hfa]
  have hre : P .sectorRetrySubmitCommit := hre (by simp [hmsg])
  simp [handleCommitWait, hmsg, hfa, hre, hpr, Option.forall]

theorem handleFinalizeSector_events (hfa : P .sectorFinalizeFailed) (ha : P .sectorFinalizedAvailable)
    (hfi : P .sectorFinalized) : Sends P hyp E (handleFinalizeSector sector) := by
  simp [handleFinalizeSector, hfa, ha, hfi]
end
end Lotus.Sealing
