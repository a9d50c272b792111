/-
# What actor code can do (`chain/vm/runtime.go`, `chain/vm/vm.go`, `aerrors`).

`Code` is the behaviour of third-party actor code: a tree of runtime calls whose branches are the results a call may have. A
runtime call works on a `World`; it can panic, and what it did before stays done until someone reverts it. Gas counters are
integers: the `int64` does not wrap for any gas a message can pay for.
-/
import Lotus.Lib.Effect
import Lotus.State.Tree

namespace Lotus.VM
open State Lib.Effect Eff

/-! ## Errors -/

abbrev ExitCode := Int

namespace ExitCode

def sysErrSenderInvalid : ExitCode := 1
def sysErrSenderStateInvalid : ExitCode := 2
def sysErrIllegalInstruction : ExitCode := 4
def sysErrInvalidReceiver : ExitCode := 5
def sysErrInsufficientFunds : ExitCode := 6
def sysErrOutOfGas : ExitCode := 7
def sysErrForbidden : ExitCode := 8
def sysErrorIllegalActor : ExitCode := 9
def sysErrorIllegalArgument : ExitCode := 10
def errIllegalArgument : ExitCode := 16
def errIllegalState : ExitCode := 20

end ExitCode

/-- `aerrors.ActorError`. Every constructor of the package makes an error with exit code 0 fatal. -/
structure ActorError where
  fatal : Bool
  retCode : ExitCode
  msg : String
  code_ne : fatal = false → retCode ≠ 0
  deriving DecidableEq

namespace ActorError

def newf (retCode : ExitCode) (msg : String) : ActorError :=
  if h : retCode = 0 then
    ⟨true, 0, "tried creating an error and setting RetCode to 0", fun hf => nomatch hf⟩
  else ⟨false, retCode, msg, fun _ => h⟩

/-- `aerrors.Fatal`, `Fatalf` and `Escalate`. -/
def fatalf (msg : String) : ActorError := ⟨true, 0, msg, fun hf => nomatch hf⟩

/-- `aerrors.Wrap` and `Wrapf`. -/
def wrap (e : ActorError) (msg : String) : ActorError := { e with msg := msg ++ ": " ++ e.msg }

end ActorError

def retCode : Option ActorError → ExitCode
  | none => 0
  | some e => e.retCode

def isFatal : Option ActorError → Bool
  | none => false
  | some e => e.fatal

/-- The value of a Go panic: an `ActorError`, or anything else. -/
inductive Panic where
  | actorErr (e : ActorError)
  | other (msg : String)
  deriving DecidableEq

/-! ## Actor code -/

inductive Code where
  /-- Return; the value is marshalled by `shimCall`, which may fail. -/
  | done (ret : Except ActorError Bytes)
  /-- A panic of the code, or of what it calls outside the state tree. -/
  | panic (p : Panic)
  | abortf (code : ExitCode) (msg : String)
  /-- `ChargeGas`, and the gas that store access and syscalls charge. -/
  | chargeGas (gas : Int) (k : Code)
  /-- `Caller`, `Receiver` and `ValueReceived`. -/
  | message (k : Address → Address → Int → Code)
  | validateImmediateCallerAcceptAny (k : Code)
  | validateImmediateCallerIs (as : List Address) (k : Code)
  | validateImmediateCallerType (ts : List Cid) (k : Code)
  | resolveAddress (addr : Address) (k : Option Address → Code)
  | getActorCodeCID (addr : Address) (k : Option Cid → Code)
  | currentBalance (k : Int → Code)
  | totalFilCircSupply (k : Int → Code)
  | newActorAddress (k : Address → Code)
  | createActor (codeID : Cid) (addr : Address) (k : Code)
  | deleteActor (beneficiary : Address) (k : Code)
  | send (toAddr : Address) (method : Nat) (value : Int) (params : Bytes) (k : ExitCode → Bytes → Code)
  /-- `StateCreate`, given the CID the object is stored under. -/
  | stateCreate (c : Cid) (k : Code)
  /-- `StateReadonly`: the code goes on with the head of its state. -/
  | stateReadonly (k : Cid → Code)
  /-- `StateTransaction`: the closure runs on the head of the state and leaves an object with the CID `obj` gives. -/
  | stateTransaction (f : Cid → Code) (obj : Except ActorError Bytes → Cid) (k : Except ActorError Bytes → Code)

structure Pricelist where
  onChainMessage : Nat → Int
  onChainReturnValue : Nat → Int
  onMethodInvocation : Int → Nat → Int
  onCreateActor : Int
  onDeleteActor : Int

/-- `ActorRegistry`: `Invoke` fails before any code, or runs it; `Create` may refuse a code. -/
structure ActorRegistry where
  invoke : Cid → Nat → Bytes → Except ActorError Code
  create : Cid → Except ActorError Unit

/-- `LegacyVM` without its state tree, and what it reads from other packages. -/
structure LegacyVM where
  networkVersion : Nat
  /-- `blockHeight > build.UpgradeClausHeight`. -/
  pastClaus : Bool
  baseFee : Int
  pricelist : Pricelist
  areg : ActorRegistry
  /-- The account code of the network's actors version; `none` where `newAccountActor` panics. -/
  accountCode : Except GoError (Option Cid)
  /-- `actors.SerializeParams` of an address. -/
  serializeParams : Address → Except GoError Bytes
  emptyObjectCid : Cid
  zeroAddress : Address
  isAccountActor : Cid → Bool
  isStorageMinerActor : Cid → Bool
  /-- The code of the current actors version with the name of a code (from network version 16 on). -/
  codeOfName : Cid → Option Cid
  circSupply : (Address → Option Actor) → Except GoError Int
  /-- `NewActorAddress`, given the origin, its actor and the two counters; `none` where the key of the
  origin cannot be written, or the address not be made. -/
  actorAddress : Address → Option Actor → UInt64 → UInt64 → Option Address

structure Runtime where
  caller : Address
  receiver : Address
  valueReceived : Int
  origin : Address
  originNonce : UInt64
  gasAvailable : Int
  gasUsed : Int
  depth : Nat
  numActorsCreated : UInt64
  allowInternal : Bool
  callerValidated : Bool
  deriving DecidableEq

/-- The state tree of the VM and the runtime of the frame, with two ghosts: `idReused` records that a new account was given an
ID in use, and `created` what `NewActorAddress` returned. -/
structure World where
  tree : StateTree
  idReused : Bool
  created : List Address
  rt : Runtime

abbrev Vm (α : Type) := Eff World Panic α

section

def onTree {α : Type} (f : StateTree → StateTree × α) : Vm α := fun w =>
  ({ w with tree := (f w.tree).1 }, .val (f w.tree).2)

def modifyRt (f : Runtime → Runtime) : Vm Unit := fun w => ({ w with rt := f w.rt }, .val ())

def abortf {α : Type} (code : ExitCode) (msg : String) : Vm α :=
  fail (.actorErr (.newf code msg))

/-- `panic(aerrors.Fatalf(…))`. -/
def fatalf {α : Type} (msg : String) : Vm α := fail (.actorErr (.fatalf msg))

/-- `Runtime.chargeGasInternal`: what is charged beyond the limit uses up the gas. -/
def Runtime.chargeGasInternal (rt : Runtime) (toUse : Int) : Runtime × Option ActorError :=
  if rt.gasUsed > rt.gasAvailable - toUse then
    ({ rt with gasUsed := rt.gasAvailable }, some (.newf ExitCode.sysErrOutOfGas "not enough gas"))
  else ({ rt with gasUsed := rt.gasUsed + toUse }, none)

def chargeGasSafe (toUse : Int) : Vm (Option ActorError) := fun w =>
  ({ w with rt := (w.rt.chargeGasInternal toUse).1 }, .val (w.rt.chargeGasInternal toUse).2)

/-- `Runtime.chargeGas` and `Runtime.ChargeGas`. -/
def chargeGas (toUse : Int) : Vm Unit := do
  match ← chargeGasSafe toUse with
  | some e => fail (.actorErr e)
  | none => pure ()

variable [InitLib] (vm : LegacyVM)

/-- `Runtime.ResolveAddress`, which needs only the state tree. -/
def resolveAddressIn (addr : Address) : Eff StateTree Panic (Option Address) := fun st =>
  match st.lookupID addr with
  | (st, .error e) =>
    if e.isActorNotFound then (st, .val none)
    else (st, .fail (.actorErr (.fatalf "failed to resolve address")))
  | (st, .ok r) => (st, .val (some r))

def resolveAddress (addr : Address) : Vm (Option Address) := fun w =>
  match resolveAddressIn addr w.tree with
  | (tree, r) => ({ w with tree }, r)

def caller : Vm Address := do
  let w ← get
  if 3 < vm.networkVersion ∧ w.rt.caller.protocol ≠ .id then
    fail (.other "runtime message has a non-ID caller")
  else pure w.rt.caller

def receiver : Vm Address := do
  let w ← get
  if 3 < vm.networkVersion ∧ w.rt.receiver ≠ .undef ∧ w.rt.receiver.protocol ≠ .id then
    fail (.other "runtime message has a non-ID receiver")
  else pure w.rt.receiver

def getActorCodeCID (addr : Address) : Vm (Option Cid) := do
  match ← onTree (·.getActor addr) with
  | .error e => if e.isActorNotFound then pure none else fatalf "failed to get actor"
  | .ok act => pure (some act.code)

def abortIfAlreadyValidated : Vm Unit := do
  let w ← get
  if w.rt.callerValidated then
    abortf ExitCode.sysErrorIllegalActor "Method must validate caller identity exactly once"
  else modifyRt ({ · with callerValidated := true })

def validateImmediateCallerIs (as : List Address) : Vm Unit := do
  abortIfAlreadyValidated
  let imm ← caller vm
  if imm ∈ as then pure () else abortf ExitCode.sysErrForbidden "caller is not one of"

def validateImmediateCallerType (ts : List Cid) : Vm Unit := do
  abortIfAlreadyValidated
  let imm ← caller vm
  match ← getActorCodeCID imm with
  | none => fatalf "failed to lookup code cid for caller"
  | some callerCid =>
    if ts.any (fun t => t = callerCid ∨ (16 ≤ vm.networkVersion ∧ vm.codeOfName t = some callerCid)) then
      pure ()
    else abortf ExitCode.sysErrForbidden "caller cid type was not one of"

def currentBalance : Vm Int := do
  let self ← receiver vm
  match ← onTree (·.getActor self) with
  | .ok act => pure act.balance
  | .error .actorNotFound => pure 0
  | .error _ => abortf (ActorError.fatalf "failed to look up actor balance").retCode "get current balance"

def totalFilCircSupply : Vm Int := do
  let w ← get
  match vm.circSupply w.tree.view with
  | .error _ => abortf ExitCode.errIllegalState "failed to get total circ supply"
  | .ok cs => pure cs

/-- The actor from which `ResolveToKeyAddr` reads the key of an address that is none. -/
def keyActor (addr : Address) : Vm (Option Actor) :=
  match addr.protocol with
  | .bls | .secp256k1 => pure none
  | _ => do
    let act ← onTree (·.getActor addr)
    pure act.toOption

/-- `Runtime.incrementNumActorsCreated`, with the ghost. -/
def incrementNumActorsCreated (addr : Address) : Vm Unit := fun w =>
  ({ w with
      created := w.created ++ [addr]
      rt := { w.rt with numActorsCreated := w.rt.numActorsCreated + 1 } },
    .val ())

def newActorAddress : Vm Address := do
  let w ← get
  let act ← keyActor w.rt.origin
  match vm.actorAddress w.rt.origin act w.rt.originNonce w.rt.numActorsCreated with
  | none => fatalf "create actor address"
  | some addr =>
    incrementNumActorsCreated addr
    pure addr

/-! ## Moving funds -/

def deductFunds (act : Actor) (amt : Int) : Except GoError Actor :=
  if act.balance < amt then .error (.errorf "not enough funds")
  else .ok { act with balance := act.balance - amt }

def depositFunds (act : Actor) (amt : Int) : Actor := { act with balance := act.balance + amt }

section
variable (st : StateTree) (src dst : Address) (amt : Int)

/-- The first half of `LegacyVM.transfer` from network version 15 on: the two IDs and the sender, or
`none` where there is nothing to do. -/
def transferCheck :
    StateTree × Except ActorError (Option (Address × Address × Actor)) :=
  if amt < 0 then (st, .error (.newf ExitCode.sysErrForbidden "attempted to transfer negative value"))
  else
    match st.lookupID src with
    | (st, .error _) => (st, .error (.fatalf "transfer failed when resolving sender address"))
    | (st, .ok fromID) =>
      match st.getActor fromID with
      | (st, .error _) => (st, .error (.fatalf "transfer failed when retrieving sender actor"))
      | (st, .ok f) =>
        if f.balance < amt then
          (st, .error (.newf ExitCode.sysErrInsufficientFunds "transfer failed, insufficient balance in sender actor"))
        else if src = dst then (st, .ok none)
        else
          match st.lookupID dst with
          | (st, .error _) => (st, .error (.fatalf "transfer failed when resolving receiver address"))
          | (st, .ok toID) =>
            if fromID = toID then (st, .ok none) else (st, .ok (some (fromID, toID, f)))

/-- The first half of `LegacyVM.transfer` before network version 15. -/
def transferCheckOld :
    StateTree × Except ActorError (Option (Address × Address × Actor)) :=
  if src = dst then (st, .ok none)
  else
    match st.lookupID src with
    | (st, .error _) => (st, .error (.fatalf "transfer failed when resolving sender address"))
    | (st, .ok fromID) =>
      match st.lookupID dst with
      | (st, .error _) => (st, .error (.fatalf "transfer failed when resolving receiver address"))
      | (st, .ok toID) =>
        if fromID = toID then (st, .ok none)
        else if amt < 0 then
          (st, .error (.newf ExitCode.sysErrForbidden "attempted to transfer negative value"))
        else
          match st.getActor fromID with
          | (st, .error _) => (st, .error (.fatalf "transfer failed when retrieving sender actor"))
          | (st, .ok f) => (st, .ok (some (fromID, toID, f)))

def transfer : StateTree × Option ActorError :=
  match if 15 ≤ vm.networkVersion then transferCheck st src dst amt
      else transferCheckOld st src dst amt with
  | (st, .error e) => (st, some e)
  | (st, .ok none) => (st, none)
  | (st, .ok (some (fromID, toID, f))) =>
    match st.getActor toID with
    | (st, .error _) => (st, some (.fatalf "transfer failed when retrieving receiver actor"))
    | (st, .ok t) =>
      match deductFunds f amt with
      | .error _ =>
        (st, some (.newf ExitCode.sysErrInsufficientFunds "transfer failed when deducting funds"))
      | .ok f =>
        match st.setActor fromID f with
        | (st, .error _) => (st, some (.fatalf "transfer failed when setting sender actor"))
        | (st, .ok ()) =>
          match st.setActor toID (depositFunds t amt) with
          | (st, .error _) => (st, some (.fatalf "transfer failed when setting receiver actor"))
          | (st, .ok ()) => (st, none)
end

/-! ## Actors and their state -/

def createActor (codeID : Cid) (addr : Address) : Vm Unit := do
  if addr = .undef ∧ 7 ≤ vm.networkVersion then
    abortf ExitCode.sysErrorIllegalArgument "CreateActor with Undef address"
  else
    match vm.areg.create codeID with
    | .error e => abortf e.retCode e.msg
    | .ok () =>
      match ← onTree (·.getActor addr) with
      | .ok _ => abortf ExitCode.sysErrorIllegalArgument "Actor address already exists"
      | .error _ =>
        chargeGas vm.pricelist.onCreateActor
        match ← onTree (·.setActor addr ⟨codeID, vm.emptyObjectCid, 0, 0⟩) with
        | .error _ => fatalf "creating actor entry"
        | .ok () => pure ()

/-- The check of the beneficiary in `Runtime.DeleteActor`. -/
def checkBeneficiary (self beneficiary : Address) : Vm Unit :=
  if 7 ≤ vm.networkVersion then do
    match ← resolveAddress beneficiary with
    | none => abortf ExitCode.sysErrorIllegalArgument "beneficiary doesn't exist"
    | some beneficiaryId =>
      if beneficiaryId = self then
        abortf ExitCode.sysErrorIllegalArgument "benefactor cannot be beneficiary"
      else pure ()
  else pure ()

/-- The transfer in `Runtime.DeleteActor` of the balance of the executing actor. -/
def payBeneficiary (self beneficiary : Address) (balance : Int) : Vm Unit :=
  if balance = 0 then pure ()
  else do
    checkBeneficiary vm self beneficiary
    match ← onTree (fun st => transfer vm st self beneficiary balance) with
    | some _ => fatalf "failed to transfer balance to beneficiary actor"
    | none => pure ()

def deleteActor (beneficiary : Address) : Vm Unit := do
  chargeGas vm.pricelist.onDeleteActor
  let self ← receiver vm
  match ← onTree (·.getActor self) with
  | .error e =>
    if e.isActorNotFound then
      abortf ExitCode.sysErrorIllegalActor "failed to load actor in delete actor"
    else fatalf "failed to get actor"
  | .ok act =>
    payBeneficiary vm self beneficiary act.balance
    match ← onTree (·.deleteActor self) with
    | .error _ => fatalf "failed to delete actor"
    | .ok () => pure ()

def stateCommit (self : Address) (oldh newh : Cid) (st : StateTree) : StateTree × Option ActorError :=
  match st.getActor self with
  | (st, .error _) => (st, some (.fatalf "failed to get actor to commit state"))
  | (st, .ok act) =>
    if act.head ≠ oldh then (st, some (.fatalf "failed to update, inconsistent base reference"))
    else
      match st.setActor self { act with head := newh } with
      | (st, .error _) => (st, some (.fatalf "failed to set actor in commit state"))
      | (st, .ok ()) => (st, none)

/-- `stateCommit` as its callers use it: an error is wrapped, and so is no `ActorError` any more. -/
def commit (oldh newh : Cid) (msg : String) : Vm Unit := do
  let self ← receiver vm
  match ← onTree (stateCommit self oldh newh) with
  | some _ => fail (.other msg)
  | none => pure ()

def headForState (code : ExitCode) (msg : String) : Vm Cid := do
  let self ← receiver vm
  match ← onTree (·.getActor self) with
  | .error _ => abortf code msg
  | .ok act => pure act.head

/-- Running actor code, given what `Runtime.Send` does. -/
def exec (send : Address → Nat → Int → Bytes → Vm (ExitCode × Bytes)) : Code → Vm (Except ActorError Bytes)
  | .done ret => pure ret
  | .panic p => fail p
  | .abortf code msg => abortf code msg
  | .chargeGas gas k => do
    chargeGas gas
    exec send k
  | .message k => do
    let imm ← caller vm
    let self ← receiver vm
    let w ← get
    exec send (k imm self w.rt.valueReceived)
  | .validateImmediateCallerAcceptAny k => do
    abortIfAlreadyValidated
    exec send k
  | .validateImmediateCallerIs as k => do
    validateImmediateCallerIs vm as
    exec send k
  | .validateImmediateCallerType ts k => do
    validateImmediateCallerType vm ts
    exec send k
  | .resolveAddress addr k => do
    let r ← resolveAddress addr
    exec send (k r)
  | .getActorCodeCID addr k => do
    let r ← getActorCodeCID addr
    exec send (k r)
  | .currentBalance k => do
    let b ← currentBalance vm
    exec send (k b)
  | .totalFilCircSupply k => do
    let cs ← totalFilCircSupply vm
    exec send (k cs)
  | .newActorAddress k => do
    let addr ← newActorAddress vm
    exec send (k addr)
  | .createActor codeID addr k => do
    createActor vm codeID addr
    exec send k
  | .deleteActor beneficiary k => do
    deleteActor vm beneficiary
    exec send k
  | .send toAddr method value params k => do
    let (code, ret) ← send toAddr method value params
    exec send (k code ret)
  | .stateCreate c k => do
    commit vm vm.emptyObjectCid c "failed to commit state after creating object"
    exec send k
  | .stateReadonly k => do
    let head ← headForState vm ExitCode.sysErrorIllegalArgument "failed to get actor for Readonly state"
    exec send (k head)
  | .stateTransaction f obj k => do
    let baseState ← headForState vm ExitCode.sysErrorIllegalActor "failed to get actor for Transaction"
    modifyRt ({ · with allowInternal := false })
    let r ← exec send (f baseState)
    modifyRt ({ · with allowInternal := true })
    commit vm baseState (obj r) "failed to commit state after transaction"
    exec send (k r)
end
end Lotus.VM
