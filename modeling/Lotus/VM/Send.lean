/-
# Message frames (`LegacyVM.send`, `Runtime.internalSend`, `TryCreateAccountActor`).

A send runs in a frame: a new runtime, a layer of the tree, and a boundary (`shimCall`) at which a panic becomes an error.
-/
import Lotus.VM.Runtime

namespace Lotus.VM
open State Lib.Effect

/-- `types.Message`. An amount that is not set (`types.EmptyInt`) is not represented. -/
structure Message where
  fromAddr : Address
  toAddr : Address
  nonce : UInt64
  value : Int
  gasLimit : Int
  gasFeeCap : Int
  gasPremium : Int
  method : Nat
  params : Bytes

def systemActorAddr : Address := .id 0

def constructorMethod : Nat := 1

def maxCallDepth : Nat := 4096

variable [InitLib] (vm : LegacyVM)

/-- The receiver a runtime is made with; it may not exist yet. -/
def resolveTo (msg : Message) : Eff StateTree Panic (Option Address) :=
  if vm.networkVersion ≤ 3 then pure (some msg.toAddr) else resolveAddressIn msg.toAddr

def makeRuntime (parent : Option Runtime) (msg : Message) : Eff StateTree Panic Runtime :=
  let depth := (parent.map (·.depth + 1)).getD 0
  if parent.any (fun p => !p.allowInternal) ∧ 7 ≤ vm.networkVersion then
    Eff.fail (.actorErr (.newf ExitCode.sysErrForbidden "internal calls currently disabled"))
  else if maxCallDepth < depth ∧ 6 ≤ vm.networkVersion then
    Eff.fail (.actorErr (.newf ExitCode.sysErrForbidden "message execution exceeds call depth"))
  else do
    match ← resolveAddressIn msg.fromAddr with
    | none =>
      Eff.fail (.actorErr (.newf ExitCode.sysErrInvalidReceiver "resolve msg.From address failed"))
    | some resF =>
      let resT ← resolveTo vm msg
      pure
        { caller := resF
          receiver := resT.getD .undef
          valueReceived := msg.value
          origin := (parent.map (·.origin)).getD msg.fromAddr
          originNonce := (parent.map (·.originNonce)).getD msg.nonce
          gasAvailable := msg.gasLimit
          gasUsed := (parent.map (·.gasUsed)).getD 0
          depth
          numActorsCreated := (parent.map (·.numActorsCreated)).getD 0
          allowInternal := true
          callerValidated := false }

/-! ## New accounts -/

def newAccountActor (code : Option Cid) : Vm Actor :=
  match code with
  | some code => pure ⟨code, vm.emptyObjectCid, 0, 0⟩
  | none => Eff.fail (.other "unsupported actors version")

def makeAccountActor (code : Option Cid) (addr : Address) : Vm (Except ActorError Actor) :=
  match addr.protocol with
  | .bls | .secp256k1 => do
    let act ← newAccountActor vm code
    pure (.ok act)
  | .id => pure (.error (.newf ExitCode.sysErrInvalidReceiver "no actor with given ID"))
  | .actor => pure (.error (.newf ExitCode.sysErrInvalidReceiver "no such actor"))
  | .unknown => pure (.error (.newf ExitCode.sysErrInvalidReceiver "address has unsupported protocol"))

/-- There is an actor where `SetActor` would write. -/
def occupied (st : StateTree) (addr : Address) : Bool :=
  match st.lookupVal addr with
  | .ok iaddr => (st.view iaddr).isSome
  | .error _ => false

/-- `SetActor` of a new account, with the ghost. -/
def setNewAccount (addrID : Address) (act : Actor) : Vm (Except GoError Unit) := fun w =>
  ({ w with
      tree := (w.tree.setActor addrID act).1
      idReused := w.idReused || occupied w.tree addrID },
    .val (w.tree.setActor addrID act).2)

/-- `TryCreateAccountActor`, given `Runtime.internalSend`. -/
def tryCreateAccountActor (internalSend : Address → Address → Nat → Int → Bytes → Vm (Bytes × Option ActorError))
    (addr : Address) : Vm (Except ActorError (Actor × Address)) := do
  match ← chargeGasSafe vm.pricelist.onCreateActor with
  | some e => pure (.error e)
  | none =>
    if addr = vm.zeroAddress ∧ 10 ≤ vm.networkVersion then
      pure (.error (.newf ExitCode.errIllegalArgument "cannot create the zero bls actor"))
    else
      match ← onTree (·.registerNewAddress addr) with
      | .error _ => pure (.error (.fatalf "registering actor address"))
      | .ok addrID =>
        match vm.accountCode with
        | .error _ => pure (.error (.fatalf "unsupported network version"))
        | .ok code =>
          match ← makeAccountActor vm code addr with
          | .error e => pure (.error e)
          | .ok act =>
            match ← setNewAccount addrID act with
            | .error _ => pure (.error (.fatalf "creating new actor failed"))
            | .ok () =>
              match vm.serializeParams addr with
              | .error _ =>
                pure (.error (.fatalf "couldn't serialize params for actor construction"))
              | .ok p =>
                match ← internalSend systemActorAddr addrID constructorMethod 0 p with
                | (_, some e) => pure (.error (e.wrap "failed to invoke account constructor"))
                | (_, none) =>
                  match ← onTree (·.getActor addrID) with
                  | .error _ => pure (.error (.fatalf "loading newly created actor failed"))
                  | .ok act => pure (.ok (act, addrID))

/-! ## A frame -/

/-- `Runtime.shimCall`: a panic becomes an error, and what was done before it stays. -/
def shimCall (f : Vm (Except ActorError Bytes)) : Vm (Bytes × Option ActorError) := fun w =>
  match f w with
  | (w, .val ret) =>
    if w.rt.callerValidated then
      match ret with
      | .ok bytes => (w, .val (bytes, none))
      | .error e => (w, .val ([], some e))
    else
      (w, .val ([], some (.newf ExitCode.sysErrorIllegalActor "Caller MUST be validated during method execution")))
  | (w, .fail (.actorErr e)) => (w, .val ([], some e))
  | (w, .fail (.other _)) =>
    (w, .val ([], some (.newf (if vm.networkVersion ≤ 3 then 1 else ExitCode.sysErrIllegalInstruction)
      "spec actors failure")))
  | (w, .diverge) => (w, .diverge)

section
variable (internalSend : Address → Address → Nat → Int → Bytes → Vm (Bytes × Option ActorError))

/-- `Runtime.Send`, given `Runtime.internalSend`. -/
def send
    (toAddr : Address) (method : Nat) (value : Int) (params : Bytes) : Vm (ExitCode × Bytes) := do
  let w ← Eff.get
  if w.rt.allowInternal = false then
    abortf ExitCode.sysErrorIllegalActor "runtime.Send() is currently disallowed"
  else
    let self ← receiver vm
    match ← internalSend self toAddr method value params with
    | (_, some e) => if e.fatal then Eff.fail (.actorErr e) else pure (e.retCode, [])
    | (ret, none) => pure (0, ret)

def invoke
    (act : Actor) (method : Nat) (params : Bytes) : Vm (Bytes × Option ActorError) :=
  match vm.areg.invoke act.code method params with
  | .error e => pure ([], some e)
  | .ok code => shimCall vm (exec vm (send vm internalSend) code)
end

section
variable (internalSend : Address → Address → Nat → Int → Bytes → Vm (Bytes × Option ActorError))

def targetActor (toAddr : Address) : Vm (Except ActorError Actor) := do
  match ← onTree (·.getActor toAddr) with
  | .ok act => pure (.ok act)
  | .error e =>
    if e.isActorNotFound then
      match ← tryCreateAccountActor vm internalSend toAddr with
      | .error e => pure (.error (e.wrap "could not create account"))
      | .ok (act, aid) =>
        if vm.networkVersion ≤ 3 then pure (.ok act)
        else
          let imm ← caller vm
          modifyRt ({ · with caller := imm, receiver := aid })
          pure (.ok act)
    else pure (.error (.fatalf "getting actor"))

/-- `LegacyVM.send` once the runtime is made and the message is charged for. -/
def sendBody (msg : Message) : Vm (Bytes × Option ActorError) := do
  match ← targetActor vm internalSend msg.toAddr with
  | .error e => pure ([], some e)
  | .ok toActor =>
    match ← chargeGasSafe (vm.pricelist.onMethodInvocation msg.value msg.method) with
    | some e => pure ([], some (e.wrap "not enough gas for method invocation"))
    | none =>
      match ← onTree (fun st =>
          if msg.value = 0 then (st, none) else transfer vm st msg.fromAddr msg.toAddr msg.value) with
      | some e => pure ([], some (e.wrap "failed to transfer funds"))
      | none =>
        if msg.method = 0 then pure ([], none)
        else invoke vm internalSend toActor msg.method msg.params
end

/-- `LegacyVM.send` called from a frame: the callee gets a runtime of its own, and its gas is gas of
the caller also when it panics. -/
def callFrame (body : Message → Vm (Bytes × Option ActorError)) (msg : Message) :
    Vm (Bytes × Option ActorError × UInt64) := fun w =>
  match makeRuntime vm (some w.rt) msg w.tree with
  | (tree, .fail p) => ({ w with tree }, .fail p)
  | (tree, .diverge) => ({ w with tree }, .diverge)
  | (tree, .val rt) =>
    match body msg { w with tree, rt } with
    | (w', .val (ret, err)) =>
      ({ w' with rt := { w.rt with gasUsed := w'.rt.gasUsed } }, .val (ret, err, w'.rt.numActorsCreated))
    | (w', .fail p) => ({ w' with rt := { w.rt with gasUsed := w'.rt.gasUsed } }, .fail p)
    | (w', .diverge) => ({ w' with rt := { w.rt with gasUsed := w'.rt.gasUsed } }, .diverge)

/-- `Runtime.internalSend`, given `LegacyVM.send`; the deferred `ClearSnapshot` runs also on a panic. -/
def internalSend (vmSend : Message → Vm (Bytes × Option ActorError × UInt64))
    (src dst : Address) (method : Nat) (value : Int) (params : Bytes) :
    Vm (Bytes × Option ActorError) := fun w =>
  match vmSend ⟨src, dst, 0, value, w.rt.gasAvailable, 0, 0, method, params⟩
      { w with tree := w.tree.snapshot } with
  | (w, .val (ret, err, created)) => ({ w with
        tree := (if err.isSome then w.tree.revert else w.tree).clearSnapshot
        rt := { w.rt with numActorsCreated := created } },
      .val (ret, err))
  | (w, .fail p) => ({ w with tree := w.tree.clearSnapshot }, .fail p)
  | (w, .diverge) => ({ w with tree := w.tree.clearSnapshot }, .diverge)

/-- `LegacyVM.send` in its runtime, with the number of frames that may be opened. -/
def sendFrame : Nat → Message → Vm (Bytes × Option ActorError)
  | 0, _ => Eff.diverge
  | fuel + 1, msg => sendBody vm (internalSend (callFrame vm (sendFrame fuel))) msg

/-- `Runtime.Send` in a frame that may open `fuel` frames. -/
def runtimeSend (fuel : Nat) : Address → Nat → Int → Bytes → Vm (ExitCode × Bytes) :=
  send vm (internalSend (callFrame vm (sendFrame vm fuel)))

end Lotus.VM
