/-
# Applying a message (`LegacyVM.ApplyMessage`).

Gas is paid in advance, the nonce is raised, the message runs in a layer that is reverted where it failed, and what was paid
is shared out. A message that the checks on its sender reject leaves a receipt and nothing else.
-/
import Lotus.VM.Gas
import Lotus.VM.Send

namespace Lotus.VM
open State Lib.Effect

def burntFundsActorAddr : Address := .id 99

def rewardAddress : Address := .id 2

def submitWindowedPoSt : Nat := 5

structure ApplyRet where
  exitCode : ExitCode
  ret : Bytes
  gasUsed : Int
  actorErr : Option ActorError
  gasCosts : GasOutputs
  deriving DecidableEq

inductive ApplyResult where
  | goError (e : GoError)
  | receipt (ret : ApplyRet)
  | panic (p : Panic)
  | diverge
  deriving DecidableEq

/-- The state tree after `ApplyMessage`, the ghosts of its run, and how it ended. -/
structure Applied where
  tree : StateTree
  idReused : Bool
  created : List Address
  result : ApplyResult

def checkMessage (msg : Message) : Except GoError Unit :=
  if msg.gasLimit = 0 then .error (.errorf "message has no gas limit set")
  else if msg.gasLimit < 0 then .error (.errorf "message has negative gas limit")
  else .ok ()

def rejected (code : ExitCode) (msg : String) (minerPenalty : Int) : ApplyRet :=
  ⟨code, [], 0, some (.newf code msg), { zeroGasOutputs with minerPenalty }⟩

def gasCost (msg : Message) : Int := msg.gasLimit * msg.gasFeeCap

section
variable [InitLib] (vm : LegacyVM)

/-- The checks of `ApplyMessage` on the sender: a receipt where they reject the message. -/
def senderCheck (msg : Message) (chainLength : Nat) (st : StateTree) : StateTree × Except GoError (Option ApplyRet) :=
  let msgGasCost := vm.pricelist.onChainMessage chainLength
  let minerPenalty := vm.baseFee * msg.gasLimit
  if msgGasCost > msg.gasLimit then
    (st, .ok (some (rejected ExitCode.sysErrOutOfGas
      "message gas limit does not cover on-chain gas costs" (vm.baseFee * msgGasCost))))
  else
    match st.getActor msg.fromAddr with
    | (st, .error e) =>
      if e.isActorNotFound then
        (st, .ok (some (rejected ExitCode.sysErrSenderInvalid "actor not found" minerPenalty)))
      else (st, .error (.wrap "failed to look up from actor" e))
    | (st, .ok fromActor) =>
      if vm.isAccountActor fromActor.code = false then
        (st, .ok (some (rejected ExitCode.sysErrSenderInvalid "send from not account actor" minerPenalty)))
      else if msg.nonce ≠ fromActor.nonce then
        (st, .ok (some (rejected ExitCode.sysErrSenderStateInvalid "actor nonce invalid" minerPenalty)))
      else if fromActor.balance < gasCost msg then
        (st, .ok (some (rejected ExitCode.sysErrSenderStateInvalid "actor balance less than needed" minerPenalty)))
      else (st, .ok none)

/-- `gasHolder` as `ApplyMessage` makes it. -/
def newGasHolder : Actor := ⟨⟨[]⟩, ⟨[]⟩, 0, 0⟩

section
variable (st : StateTree) (addr : Address)

def transferToGasHolder (gasHolder : Actor) (amt : Int) : StateTree × Except GoError Actor :=
  if amt < 0 then (st, .error (.errorf "attempted to transfer negative value to gas holder"))
  else
    match st.mutateActor addr (fun a => deductFunds a amt) with
    | (st, .error e) => (st, .error e)
    | (st, .ok ()) => (st, .ok (depositFunds gasHolder amt))

def transferFromGasHolder (gasHolder : Actor) (amt : Int) : StateTree × Except GoError Actor :=
  if amt < 0 then (st, .error (.errorf "attempted to transfer negative value from gas holder"))
  else if amt = 0 then (st, .ok gasHolder)
  else
    match st.mutateActor addr (fun a => (deductFunds gasHolder amt).map fun _ => depositFunds a amt) with
    | (st, .error e) => (st, .error e)
    | (st, .ok ()) => (st, .ok { gasHolder with balance := gasHolder.balance - amt })

def incrementNonce : StateTree × Except GoError Unit :=
  st.mutateActor addr (fun a => .ok { a with nonce := a.nonce + 1 })
end

def shouldBurn (st : StateTree) (msg : Message) (errcode : ExitCode) : StateTree × Except GoError Bool :=
  if vm.networkVersion ≤ 12 ∧ vm.pastClaus = true ∧ errcode = 0 ∧ msg.method = submitWindowedPoSt then
    match st.getActor msg.toAddr with
    | (st, .error e) =>
      if e.isActorNotFound then (st, .ok true)
      else (st, .error (.wrap "failed to lookup target actor" e))
    | (st, .ok toActor) => (st, .ok (!vm.isStorageMinerActor toActor.code))
  else (st, .ok true)

def payGas (st : StateTree) (msg : Message) (gasHolder : Actor) (out : GasOutputs) : StateTree × Except GoError Unit :=
  match transferFromGasHolder st burntFundsActorAddr gasHolder out.baseFeeBurn with
  | (st, .error e) => (st, .error (.wrap "failed to burn base fee" e))
  | (st, .ok gasHolder) =>
    match transferFromGasHolder st rewardAddress gasHolder out.minerTip with
    | (st, .error e) => (st, .error (.wrap "failed to give miner gas reward" e))
    | (st, .ok gasHolder) =>
      match transferFromGasHolder st burntFundsActorAddr gasHolder out.overEstimationBurn with
      | (st, .error e) => (st, .error (.wrap "failed to burn overestimation fee" e))
      | (st, .ok gasHolder) =>
        match transferFromGasHolder st msg.fromAddr gasHolder out.refund with
        | (st, .error e) => (st, .error (.wrap "failed to refund gas" e))
        | (st, .ok gasHolder) =>
          if gasHolder.balance ≠ 0 then (st, .error (.errorf "gas handling math is wrong"))
          else (st, .ok ())

/-- The end of `ApplyMessage`: who is paid for the gas. -/
def settle (msg : Message) (gasHolder : Actor) (ret : Bytes) (actorErr : Option ActorError)
    (gasUsed : Int) (st : StateTree) : StateTree × ApplyResult :=
  match shouldBurn vm st msg (retCode actorErr) with
  | (st, .error e) => (st, .goError (.wrap "deciding whether should burn failed" e))
  | (st, .ok burn) =>
    let out := computeGasOutputs gasUsed msg.gasLimit vm.baseFee msg.gasFeeCap msg.gasPremium burn
    match payGas st msg gasHolder out with
    | (st, .error e) => (st, .goError e)
    | (st, .ok ()) => (st, .receipt ⟨retCode actorErr, ret, gasUsed, actorErr, out⟩)

def chargeReturn (ret : Bytes) (actorErr : Option ActorError) (rt : Runtime) : Runtime × Bytes × Option ActorError :=
  if ret = [] then (rt, ret, actorErr)
  else
    match rt.chargeGasInternal (vm.pricelist.onChainReturnValue ret.length) with
    | (rt, some e) => (rt, [], some e)
    | (rt, none) => (rt, ret, none)

/-- `ApplyMessage` from the end of the send on. -/
def finishMessage (msg : Message) (gasHolder : Actor) (ret : Bytes) (actorErr : Option ActorError)
    (w : World) : StateTree × ApplyResult :=
  if isFatal actorErr then
    (w.tree, .goError (.wrap "fatal error" (.errorf ((actorErr.map (·.msg)).getD ""))))
  else if actorErr.isSome ∧ ret ≠ [] then
    (w.tree, .goError (.errorf "message invocation errored, but had a return value anyway"))
  else
    match chargeReturn vm ret actorErr w.rt with
    | (rt, ret, actorErr) =>
      settle vm msg gasHolder ret actorErr (if rt.gasUsed < 0 then 0 else rt.gasUsed)
        (if retCode actorErr ≠ 0 then w.tree.revert else w.tree)

/-- `LegacyVM.send` of a message of a block, with the gas charge for the message itself. -/
def sendMessage (fuel : Nat) (msg : Message) (gasCharge : Int) : Vm (Bytes × Option ActorError) := do
  match ← chargeGasSafe gasCharge with
  | some e =>
    pure ([], some (e.wrap "not enough gas for initial message charge, this should not happen"))
  | none => sendFrame vm fuel msg

section
variable (fuel : Nat) (msg : Message) (chainLength : Nat)

/-- `ApplyMessage` from `Snapshot` on, before the deferred `ClearSnapshot`. -/
def executeMessage (gasHolder : Actor) (st : StateTree) : Applied :=
  match makeRuntime vm none msg st with
  | (st, .fail p) => ⟨st, false, [], .panic p⟩
  | (st, .diverge) => ⟨st, false, [], .diverge⟩
  | (st, .val rt) =>
    match sendMessage vm fuel msg (vm.pricelist.onChainMessage chainLength) ⟨st, false, [], rt⟩ with
    | (w, .fail p) => ⟨w.tree, w.idReused, w.created, .panic p⟩
    | (w, .diverge) => ⟨w.tree, w.idReused, w.created, .diverge⟩
    | (w, .val (ret, actorErr)) =>
      match finishMessage vm msg gasHolder ret actorErr w with
      | (st, result) => ⟨st, w.idReused, w.created, result⟩

/-- `ApplyMessage` once the checks are passed. -/
def payAndExecute (st : StateTree) : Applied :=
  match transferToGasHolder st msg.fromAddr newGasHolder (gasCost msg) with
  | (st, .error e) => ⟨st, false, [], .goError (.wrap "failed to withdraw gas funds" e)⟩
  | (st, .ok gasHolder) =>
    match incrementNonce st msg.fromAddr with
    | (st, .error e) => ⟨st, false, [], .goError e⟩
    | (st, .ok ()) =>
      match executeMessage vm fuel msg chainLength gasHolder st.snapshot with
      | ⟨st, reused, created, result⟩ => ⟨st.clearSnapshot, reused, created, result⟩

/-- `LegacyVM.ApplyMessage`; `fuel` bounds how deep the sends of the message may nest. -/
def applyMessage (st : StateTree) : Applied :=
  match checkMessage msg with
  | .error e => ⟨st, false, [], .goError e⟩
  | .ok () =>
    match senderCheck vm msg chainLength st with
    | (st, .error e) => ⟨st, false, [], .goError e⟩
    | (st, .ok (some early)) => ⟨st, false, [], .receipt early⟩
    | (st, .ok none) => payAndExecute vm fuel msg chainLength st
end
end
end Lotus.VM
