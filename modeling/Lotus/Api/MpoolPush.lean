/-
# The calls that put messages into the pool (`node/impl/full/mpool.go`).

A caller gives a code for the method, which the call puts in from the code service. The gate stands in six calls, in two
shapes: one knows both kinds of code and plain method, one only the first. What the calls ask is a parameter that may depend
on all earlier events.
-/
import Lotus.Lib.Trace
import Lotus.Types.Message

namespace Lotus.Api
open Lib.Effect Lib.Trace List Eff

def changeOwnerAddress : UInt64 := 23

/-- What a call does outside: asks the code service, or hands a message to the pool. -/
inductive Event where
  | sendCode (code : UInt64) (ok : Bool)
  | ownerCode (code : UInt64) (ok : Bool)
  | handed (m : SignedMessage)
  deriving DecidableEq

structure MessageSendSpec where
  maxFee : Int
  msgUuid : BitVec 128
  deriving DecidableEq

/-- The surroundings of `MpoolAPI`. CIDs are hashes; of a signature the type is kept. -/
structure Node where
  checkSendCode : List Event → String → Except GoError Unit
  checkOwnerCode : List Event → String → Except GoError Unit
  push : List Event → SignedMessage → Except GoError Cid
  pushUntrusted : List Event → SignedMessage → Except GoError Cid
  messageCid : Message → Cid
  signedCid : SignedMessage → Cid
  toStorageBlock : Message → Except GoError Cid
  json : Message → String
  getSignedMessage : List Event → BitVec 128 → Except GoError SignedMessage
  storeSignedMessage : List Event → BitVec 128 → SignedMessage → Except GoError Unit
  resolveToKeyAddress : List Event → Address → Except GoError Address
  takeLock : List Event → Address → Except GoError Unit
  gasEstimateMessageGas : List Event → Message → Option MessageSendSpec → Except GoError Message
  walletBalance : List Event → Address → Except GoError Int
  getNonce : List Event → Address → Except GoError UInt64
  storedNonce : List Event → Address → Except GoError (Option UInt64)
  putNonce : List Event → Address → UInt64 → Except GoError Unit
  walletSign : List Event → Address → Message → Except GoError SigType

abbrev Handler := Eff (List Event) GoError

namespace Node
variable (n : Node)

/-! ## The gate -/

def checkCode (service : List Event → String → Except GoError Unit) (event : UInt64 → Bool → Event)
    (code : UInt64) : Handler Unit := fun h =>
  match service h (toString code.toNat) with
  | .ok () => (h ++ [event code true], .val ())
  | .error e => (h ++ [event code false], .fail e)

/-- The check at the start of each call and the method it puts in; `owner` gives the shape. -/
def gate (name : String) (owner : Bool) (method : UInt64) : Handler UInt64 :=
  if method = 0 ∨ owner ∧ method = changeOwnerAddress then fail (.errorf (name ++ ":key not found"))
  else if owner ∧ method > 999999 then do
    checkCode n.checkOwnerCode .ownerCode method
    pure changeOwnerAddress
  else if method > 99999 then do
    checkCode n.checkSendCode .sendCode method
    pure 0
  else pure method

/-- `msg.Method = method`. A CID is computed from the content. -/
def setMethod (m : Message) (method : UInt64) : Message :=
  let m := { m with method := method }
  { m with cid := n.messageCid m }

/-- `smsg.Message.Method = method`. -/
def setSignedMethod (m : SignedMessage) (method : UInt64) : SignedMessage :=
  let m := { m with message := n.setMethod m.message method }
  { m with cid := n.signedCid m }

/-- `Mpool.Push` or `Mpool.PushUntrusted`. -/
def hand (push : List Event → SignedMessage → Except GoError Cid) (m : SignedMessage) : Handler Cid := do
  emit (.handed m)
  ask fun h => push h m

def mpoolPush (smsg : SignedMessage) : Handler Cid := do
  let method ← n.gate "MpoolPush" true smsg.message.method
  hand n.push (n.setSignedMethod smsg method)

def mpoolPushUntrusted (smsg : SignedMessage) : Handler Cid := do
  let method ← n.gate "MpoolPushUntrusted" false smsg.message.method
  hand n.pushUntrusted (n.setSignedMethod smsg method)

/-! ## Messages to be signed -/

/-- `xerrors.Errorf(msg + ": %w", err)` around what a call failed with. -/
def wrapErr {α : Type} (msg : String) (m : Handler α) : Handler α := mapFail (.wrap msg) m

/-- `MessageSigner.nextNonce`. A stored nonce that does not parse is an error of `storedNonce`. -/
def nextNonce (addr : Address) : Handler UInt64 := do
  let nonce ← wrapErr "failed to get nonce from mempool" (ask fun h => n.getNonce h addr)
  match ← ask fun h => n.storedNonce h addr with
  | none => pure nonce
  | some dsNonce => pure (if nonce ≤ dsNonce then dsNonce else nonce)

def saveNonce (addr : Address) (nonce : UInt64) : Handler Unit :=
  wrapErr "failed to write nonce to datastore" (ask fun h => n.putNonce h addr (nonce + 1))

/-- `MessageSigner.SignMessage`: signed with the method, handed to the callback with the code. -/
def signMessage (msg : Message) (code : UInt64) (cb : SignedMessage → Handler Unit) : Handler SignedMessage := do
  let nonce ← wrapErr "failed to create nonce" (n.nextNonce msg.fromAddr)
  let msg := { msg with nonce := nonce }
  let _ ← wrapErr "serializing message" (ask fun _ => n.toStorageBlock msg)
  let sig ← wrapErr "failed to sign message" (ask fun h => n.walletSign h msg.fromAddr msg)
  let msg := n.setMethod msg code
  let smsg : SignedMessage := ⟨n.signedCid ⟨⟨[]⟩, msg, sig⟩, msg, sig⟩
  cb smsg
  wrapErr "failed to save nonce" (n.saveNonce msg.fromAddr nonce)
  pure smsg

/-- `Message.RequiredFunds`: the gas limit is converted to an unsigned integer. -/
def requiredFunds (m : Message) : Int := m.gasFeeCap * (m.gasLimit % 2 ^ 64)

def uuidOf (spec : Option MessageSendSpec) : Option (BitVec 128) :=
  spec.bind fun s => if s.msgUuid ≠ 0 then some s.msgUuid else none

/-- A sender that is given by its ID is replaced by the key. -/
def fromKey (fromA : Address) (msg : Message) : Message :=
  if msg.fromAddr.protocol = .id then { msg with fromAddr := fromA } else msg

/-- The end of `MpoolPushMessage`: the message is kept under the uuid. -/
def storeUnder (spec : Option MessageSendSpec) (signed : SignedMessage) : Handler SignedMessage :=
  match uuidOf spec with
  | none => pure signed
  | some uuid => do
    ask fun h => n.storeSignedMessage h uuid signed
    pure signed

/-- `MpoolPushMessage` where no message is under the uuid; `inMsg` has the code, `msg` the method. -/
def pushNewMessage (inMsg msg : Message) (spec : Option MessageSendSpec) : Handler SignedMessage := do
  let fromA ← wrapErr "getting key address" (ask fun h => n.resolveToKeyAddress h msg.fromAddr)
  wrapErr "taking lock" (ask fun h => n.takeLock h fromA)
  if msg.nonce ≠ 0 then
    fail (.errorf ("MpoolPushMessage expects message nonce to be 0, was " ++ toString msg.nonce.toNat))
  else do
    let msg ← wrapErr "GasEstimateMessageGas error" (ask fun h => n.gasEstimateMessageGas h msg spec)
    if msg.gasPremium > msg.gasFeeCap then
      fail (.errorf ("After estimation, GasPremium is greater than GasFeeCap, inmsg: " ++ n.json inMsg ++
        ", outmsg: " ++ n.json msg))
    else do
      let msg := fromKey fromA msg
      let b ← wrapErr "mpool push: getting origin balance" (ask fun h => n.walletBalance h msg.fromAddr)
      let required := msg.value + requiredFunds msg
      if b < required then
        fail (.errorf ("mpool push: not enough funds: " ++ toString b ++ " < " ++ toString required))
      else do
        let signed ← n.signMessage msg inMsg.method fun smsg => do
          let _ ← wrapErr "mpool push: failed to push message" (n.mpoolPush smsg)
          pure ()
        n.storeUnder spec signed

def mpoolPushMessage (msg : Message) (spec : Option MessageSendSpec) : Handler SignedMessage := do
  let method ← n.gate "MpoolPushMessage" true msg.method
  match uuidOf spec with
  | none => n.pushNewMessage msg (n.setMethod msg method) spec
  | some uuid => do
    -- a message already stored under the uuid is returned, and nothing is pushed
    match ← ask fun h => .ok (n.getSignedMessage h uuid) with
    | .ok signed => pure signed
    | .error _ => n.pushNewMessage msg (n.setMethod msg method) spec

/-! ## Batches -/

/-- The first loop of the batch calls: the gate for each message, before any is pushed. -/
def gateAll (name : String) : List UInt64 → Handler (List UInt64)
  | [] => pure []
  | method :: rest => do
    let method ← n.gate name false method
    let methods ← gateAll name rest
    pure (method :: methods)

/-- The second loop: pushes until one fails, and returns what was pushed. -/
def handAll (push : List Event → SignedMessage → Except GoError Cid) :
    List SignedMessage → List Cid → Handler (List Cid × Option GoError)
  | [], cids => pure (cids, none)
  | m :: rest, cids => fun h =>
    match hand push m h with
    | (h, .val c) => handAll push rest (cids ++ [c]) h
    | (h, .fail e) => (h, .val (cids, some e))
    | (h, .diverge) => (h, .diverge)

def mpoolBatchPush (smsgs : List SignedMessage) : Handler (List Cid × Option GoError) := do
  let methods ← n.gateAll "MpoolBatchPush" (smsgs.map (·.message.method))
  handAll n.push (zipWith n.setSignedMethod smsgs methods) []

def mpoolBatchPushUntrusted (smsgs : List SignedMessage) : Handler (List Cid × Option GoError) := do
  let methods ← n.gateAll "MpoolBatchPushUntrusted" (smsgs.map (·.message.method))
  handAll n.pushUntrusted (zipWith n.setSignedMethod smsgs methods) []

/-- The second loop of `MpoolBatchPushMessage`. -/
def pushAll (spec : Option MessageSendSpec) :
    List Message → List SignedMessage → Handler (List SignedMessage × Option GoError)
  | [], smsgs => pure (smsgs, none)
  | m :: rest, smsgs => fun h =>
    match n.mpoolPushMessage m spec h with
    | (h, .val s) => pushAll spec rest (smsgs ++ [s]) h
    | (h, .fail e) => (h, .val (smsgs, some e))
    | (h, .diverge) => (h, .diverge)

def mpoolBatchPushMessage (msgs : List Message) (spec : Option MessageSendSpec) :
    Handler (List SignedMessage × Option GoError) := do
  let methods ← n.gateAll "MpoolBatchPushMessage" (msgs.map (·.method))
  n.pushAll spec (zipWith n.setMethod msgs methods) []

end Node

/-! ## What each call hands over -/

section
variable {n : Node}

def Free (ev : List Event) : Prop := ∀ m, Event.handed m ∉ ev

def NoOwner (ev : List Event) : Prop := ∀ code ok, Event.ownerCode code ok ∉ ev

variable {ev ev' : List Event}

theorem Free.append (h : Free ev) (h' : Free ev') : Free (ev ++ ev') :=
  fun m hm => (mem_append.mp hm).elim (h m) (h' m)

theorem NoOwner.append (h : NoOwner ev) (h' : NoOwner ev') : NoOwner (ev ++ ev') :=
  fun code ok hm => (mem_append.mp hm).elim (h code ok) (h' code ok)

/-- What a passed gate tells: the methods in and out, and the question to the code service. -/
structure Passed (owner : Bool) (method out : UInt64) (ev : List Event) : Prop where
  free : Free ev
  ne_zero : method ≠ 0
  ne_owner : owner = true → method ≠ changeOwnerAddress
  send : out = 0 → .sendCode method true ∈ ev
  change : out = changeOwnerAddress → .ownerCode method true ∈ ev ∨ method = changeOwnerAddress
  plain : method ≤ 99999 → out = method
  shape : owner = false → (out = 0 ∨ out = method ∧ method ≤ 99999) ∧ NoOwner ev

theorem checkCode_logs (service : List Event → String → Except GoError Unit) (event : UInt64 → Bool → Event)
    (code : UInt64) : Logs (Node.checkCode service event code) (fun _ ev => ev = [event code true])
      fun ev => ev = [event code false] := by
  intro h
  rcases hs : service h (toString code.toNat) with e | ⟨⟩
  · exact .inr ⟨e, _, by simp only [Node.checkCode, hs], rfl⟩
  · exact .inl ⟨(), _, by simp only [Node.checkCode, hs], rfl⟩

theorem gate_logs (name : String) (owner : Bool) (method : UInt64) :
    Logs (n.gate name owner method) (Passed owner method) Free := by
  unfold Node.gate
  split_ifs with hre ho hse
  · exact .fail (by simp [Free])
  · -- an owner code: the method that comes out is the change of the owner
    push Not at hre
    apply (checkCode_logs _ _ method).bind
    · rintro ⟨⟩ ev rfl
      apply Logs.pure
      refine ⟨by simp [Free], hre.1, hre.2, fun h => absurd h (by decide), fun _ => .inl (by simp), fun hle => ?_, ?_⟩
      · exact absurd hle (UInt64.not_le.mpr (UInt64.lt_trans (by decide) ho.2))
      · simp [ho.1]
    · rintro ev rfl
      simp [Free]
  · -- a transfer code: the method that comes out is the transfer
    push Not at hre
    apply (checkCode_logs _ _ method).bind
    · rintro ⟨⟩ ev rfl
      apply Logs.pure
      refine ⟨by simp [Free], hre.1, hre.2, by simp, fun h => absurd h (by decide), fun hle => ?_, ?_⟩
      · exact absurd hle (UInt64.not_le.mpr hse)
      · simp [NoOwner]
    · rintro ev rfl
      simp [Free]
  push Not at hre
  apply Logs.pure
  refine ⟨by simp [Free], hre.1, hre.2, fun h => absurd h hre.1, .inr, fun _ => rfl, ?_⟩
  simp [UInt64.not_lt.mp hse, NoOwner]

def HandsOver (owner : Bool) (method : UInt64) (ev : List Event) : Prop :=
  Free ev ∨ ∃ pre m, ev = pre ++ [.handed m] ∧ Passed owner method m.message.method pre

theorem hand_logs (push : List Event → SignedMessage → Except GoError Cid) (m : SignedMessage) :
    Logs (Node.hand push m) (fun _ ev => ev = [.handed m]) fun ev => ev = [.handed m] := by
  apply Logs.bind_silent
  · exact Logs.emit rfl
  · exact fun _ => .ask _

variable {P : List Event → Prop}

theorem gate_hand_logs (name : String) (owner : Bool) (smsg : SignedMessage)
    (push : List Event → SignedMessage → Except GoError Cid) (hfree : ∀ ev, Free ev → P ev)
    (hpu : ∀ pre out, Passed owner smsg.message.method out pre → P (pre ++ [.handed (n.setSignedMethod smsg out)])) :
    Logs (n.gate name owner smsg.message.method >>= fun method => Node.hand push (n.setSignedMethod smsg method))
      (fun _ => P) P := by
  apply (gate_logs name owner smsg.message.method).bind
  · intro method ev hpa
    refine (hand_logs push _).mono ?_ ?_
    · rintro c ev' rfl
      exact hpu ev method hpa
    · rintro ev' rfl
      exact hpu ev method hpa
  · exact hfree

theorem silent_nextNonce (addr : Address) : Silent (n.nextNonce addr) := by
  apply Silent.bind ((Silent.ask _).mapFail _)
  intro nonce
  apply Silent.bind (.ask _)
  intro stored
  split
  · exact .pure _
  · exact .pure _

variable {msg : Message}

theorem signMessage_logs {code : UInt64} {cb : SignedMessage → Handler Unit} (hn : P [])
    (hcb : ∀ smsg, smsg.message.method = code → Logs (cb smsg) (fun _ => P) P) :
    Logs (n.signMessage msg code cb) (fun _ => P) P := by
  apply ((silent_nextNonce _).mapFail _).logs_bind _ hn
  intro nonce
  apply ((Silent.ask _).mapFail _).logs_bind _ hn
  intro c
  apply ((Silent.ask _).mapFail _).logs_bind _ hn
  intro sig
  apply (hcb _ rfl).bind_silent
  intro u
  apply Silent.bind (((Silent.ask _).mapFail _).mapFail _)
  exact fun _ => .pure _

theorem pushNewMessage_logs (inMsg msg : Message) (spec : Option MessageSendSpec) :
    Logs (n.pushNewMessage inMsg msg spec) (fun _ => HandsOver true inMsg.method) (HandsOver true inMsg.method) := by
  have hn : HandsOver true inMsg.method [] := .inl (by simp [Free])
  unfold Node.pushNewMessage
  apply ((Silent.ask _).mapFail _).logs_bind _ hn
  intro fromA
  apply ((Silent.ask _).mapFail _).logs_bind _ hn
  intro u
  split
  · exact .fail hn
  apply ((Silent.ask _).mapFail _).logs_bind _ hn
  intro est
  split
  · exact .fail hn
  apply ((Silent.ask _).mapFail _).logs_bind _ hn
  intro b
  dsimp only
  split
  · exact .fail hn
  apply Logs.bind_silent
  · apply signMessage_logs hn
    intro smsg hco
    apply Logs.bind_silent _ fun _ => .pure _
    rw [← hco]
    apply Logs.mapFail
    exact gate_hand_logs "MpoolPush" true smsg n.push (fun ev h => .inl h) fun pre out hpa => .inr ⟨pre, _, rfl, hpa⟩
  intro signed
  unfold Node.storeUnder
  split
  · exact .pure _
  · exact (Silent.ask _).bind fun _ => .pure _

def PassedTwice (method : UInt64) (ev : List Event) : Prop :=
  ∃ out pre post, ev = pre ++ post ∧ Passed true method out pre ∧ HandsOver true method post

theorem mpoolPushMessage_logs (msg : Message) (spec : Option MessageSendSpec) :
    Logs (n.mpoolPushMessage msg spec) (fun _ => PassedTwice msg.method) fun ev => Free ev ∨ PassedTwice msg.method ev := by
  apply (gate_logs _ true msg.method).bind
  · intro out pre hpa
    have hnew : Logs (n.pushNewMessage msg (n.setMethod msg out) spec) (fun _ post => PassedTwice msg.method (pre ++ post))
        fun post => Free (pre ++ post) ∨ PassedTwice msg.method (pre ++ post) := by
      apply (pushNewMessage_logs msg _ spec).mono
      · exact fun _ post hpo => ⟨out, pre, post, rfl, hpa, hpo⟩
      · exact fun post hpo => .inr ⟨out, pre, post, rfl, hpa, hpo⟩
    split
    · exact hnew
    apply (Silent.ask _).logs_bind
    · intro r
      split
      · exact .pure ⟨out, pre, [], rfl, hpa, .inl (by simp [Free])⟩
      · exact hnew
    · exact .inr ⟨out, pre, [], rfl, hpa, .inl (by simp [Free])⟩
  · exact fun ev hfree => .inl hfree

variable {method : UInt64}

theorem Passed.mono {owner : Bool} {out : UInt64} (h : Passed owner method out ev) (hsu : ev ⊆ ev')
    (hfree : Free ev') (hn : owner = false → NoOwner ev') : Passed owner method out ev' where
  __ := h
  free := hfree
  send hou := hsu (h.send hou)
  change hou := (h.change hou).imp_left (hsu ·)
  shape ho := ⟨(h.shape ho).1, hn ho⟩

theorem gateAll_logs (name : String) (methods : List UInt64) :
    Logs (n.gateAll name methods)
      (fun outs ev => Free ev ∧ NoOwner ev ∧ Forall₂ (fun method out => Passed false method out ev)
        methods outs) Free := by
  induction methods with
  | nil => exact .pure ⟨by simp [Free], by simp [NoOwner], .nil⟩
  | cons method rest ih =>
    apply (gate_logs name false method).bind
    · intro out ev hpa
      apply ih.bind
      · rintro outs ev' ⟨hfree', hn', ha⟩
        apply Logs.pure
        have hfree := hpa.free.append hfree'
        have hn := (hpa.shape rfl).2.append hn'
        rw [append_nil]
        refine ⟨hfree, hn, .cons (hpa.mono (by simp) hfree fun _ => hn) ?_⟩
        exact ha.imp fun _ _ h => h.mono (by simp) hfree fun _ => hn
      · exact fun ev' hfree' => hpa.free.append hfree'
    · exact fun ev hfree => hfree

theorem handAll_logs (push : List Event → SignedMessage → Except GoError Cid) (msgs : List SignedMessage) (cids : List Cid) :
    Logs (Node.handAll push msgs cids) (fun _ ev => ∃ k, ev = (msgs.take k).map .handed) fun _ => False := by
  induction msgs generalizing cids with
  | nil => exact .pure ⟨0, rfl⟩
  | cons m rest ih =>
    intro h
    unfold Node.handAll
    obtain ⟨c, ev, hrun, rfl⟩ | ⟨e, ev, hrun, rfl⟩ := hand_logs push m h
    · simp only [hrun]
      obtain ⟨r, ev, hrest, k, rfl⟩ | ⟨e, ev, -, hfa⟩ := ih (cids ++ [c]) (h ++ [.handed m])
      · exact .inl ⟨r, _, by rw [hrest, append_assoc]; rfl, k + 1, rfl⟩
      · exact hfa.elim
    · simp only [hrun]
      exact .inl ⟨_, _, rfl, 1, rfl⟩

def Tame (ev : List Event) : Prop :=
  ∀ m, Event.handed m ∈ ev → m.message.method ≠ 0 ∧ m.message.method ≠ changeOwnerAddress

theorem Free.tame (h : Free ev) : Tame ev := fun m hm => absurd hm (h m)

theorem Tame.append (h : Tame ev) (h' : Tame ev') : Tame (ev ++ ev') :=
  fun m hm => (mem_append.mp hm).elim (h m) (h' m)

theorem HandsOver.tame (h : HandsOver true method ev) (hpl : method = 0 ∨ method ≤ 99999) : Tame ev := by
  rcases h with hfree | ⟨pre, m, rfl, hpa⟩
  · exact hfree.tame
  apply hpa.free.tame.append
  intro m' hm'
  obtain rfl : m' = m := by simpa using hm'
  rw [hpa.plain (hpl.resolve_left hpa.ne_zero)]
  exact ⟨hpa.ne_zero, hpa.ne_owner rfl⟩

theorem mpoolPushMessage_tame (hpl : msg.method = 0 ∨ msg.method ≤ 99999) (spec : Option MessageSendSpec) :
    Logs (n.mpoolPushMessage msg spec) (fun _ => Tame) Tame := by
  have hpar : ∀ ev, PassedTwice msg.method ev → Tame ev := by
    rintro ev ⟨out, pre, post, rfl, hpa, hpo⟩
    exact hpa.free.tame.append (hpo.tame hpl)
  apply (mpoolPushMessage_logs msg spec).mono
  · exact fun _ => hpar
  · exact fun ev h => h.elim Free.tame (hpar ev)

theorem pushAll_tame (spec : Option MessageSendSpec) (msgs : List Message)
    (hpl : ∀ m ∈ msgs, m.method = 0 ∨ m.method ≤ 99999) (smsgs : List SignedMessage) :
    Logs (n.pushAll spec msgs smsgs) (fun _ => Tame) fun _ => False := by
  induction msgs generalizing smsgs with
  | nil => exact .pure (by simp [Tame])
  | cons m rest ih =>
    intro h
    unfold Node.pushAll
    have hrest : ∀ m' ∈ rest, m'.method = 0 ∨ m'.method ≤ 99999 :=
      fun m' hm' => hpl m' (mem_cons_of_mem m hm')
    obtain ⟨s, ev, hrun, hta⟩ | ⟨e, ev, hrun, hta⟩ :=
      mpoolPushMessage_tame (n := n) (hpl m mem_cons_self) spec h
    · simp only [hrun]
      obtain ⟨r, ev', hrun', ht'⟩ | ⟨e, ev', -, hfa⟩ := ih hrest (smsgs ++ [s]) (h ++ ev)
      · exact .inl ⟨r, ev ++ ev', by rw [hrun', append_assoc], hta.append ht'⟩
      · exact hfa.elim
    · simp only [hrun]
      exact .inl ⟨_, ev, rfl, hta⟩
end

/-! ## Sequences of calls -/

inductive ApiCall where
  | push (smsg : SignedMessage)
  | pushUntrusted (smsg : SignedMessage)
  | pushMessage (msg : Message) (spec : Option MessageSendSpec)
  | batchPush (smsgs : List SignedMessage)
  | batchPushUntrusted (smsgs : List SignedMessage)
  | batchPushMessage (msgs : List Message) (spec : Option MessageSendSpec)

namespace ApiCall

def run (n : Node) (h : List Event) : ApiCall → List Event
  | push smsg => (n.mpoolPush smsg h).1
  | pushUntrusted smsg => (n.mpoolPushUntrusted smsg h).1
  | pushMessage msg spec => (n.mpoolPushMessage msg spec h).1
  | batchPush smsgs => (n.mpoolBatchPush smsgs h).1
  | batchPushUntrusted smsgs => (n.mpoolBatchPushUntrusted smsgs h).1
  | batchPushMessage msgs spec => (n.mpoolBatchPushMessage msgs spec h).1

/-- `code` is what the caller gave as the method of the message that is handed over as `m`. -/
def Supplied (n : Node) (m : SignedMessage) (code : UInt64) : ApiCall → Prop
  | push smsg | pushUntrusted smsg =>
    smsg.message.method = code ∧ m = n.setSignedMethod smsg m.message.method
  | pushMessage msg _ => msg.method = code
  | batchPush smsgs | batchPushUntrusted smsgs =>
    ∃ smsg ∈ smsgs, smsg.message.method = code ∧ m = n.setSignedMethod smsg m.message.method
  | batchPushMessage msgs _ => ∃ msg ∈ msgs, msg.method = code

/-- A transfer handed over needs an accepted transfer code, a change of an owner an owner code. -/
def Needs (n : Node) (call : ApiCall) : Event → List Event → Prop
  | .handed m, pre => (m.message.method = 0 → ∃ code, call.Supplied n m code ∧ .sendCode code true ∈ pre) ∧
    (m.message.method = changeOwnerAddress → ∃ code, call.Supplied n m code ∧ .ownerCode code true ∈ pre)
  | _, _ => True

/-- Within the call, every message handed over has the check it needs before it. -/
def Authorised (n : Node) (h : List Event) (call : ApiCall) : Prop :=
  ∃ ev, call.run n h = h ++ ev ∧ Guarded (call.Needs n) ev

def AllAuthorised (n : Node) (h : List Event) : List ApiCall → Prop
  | [] => True
  | call :: rest => call.Authorised n h ∧ AllAuthorised n (call.run n h) rest

def Safe : ApiCall → Prop
  | pushUntrusted smsg => smsg.message.method ≠ changeOwnerAddress
  | batchPush smsgs | batchPushUntrusted smsgs =>
    (∃ smsg ∈ smsgs, smsg.message.method = changeOwnerAddress) → ∃ smsg ∈ smsgs, smsg.message.method = 0
  | _ => True

variable {n : Node} {call : ApiCall}
variable {ev : List Event}

theorem needs_of_free (h : Free ev) : ∀ w ∈ ev, ∀ pre, call.Needs n w pre := by
  intro w hw pre
  cases w with
  | handed m => exact absurd hw (h m)
  | sendCode code ok | ownerCode code ok => trivial

variable {m : SignedMessage} {method : UInt64} {owner : Bool}

theorem needs_of_passed {pre : List Event} (hpa : Passed owner method m.message.method ev) (hsu : ev ⊆ pre)
    (hsup : call.Supplied n m method) (hsa : owner = false → method ≠ changeOwnerAddress) : call.Needs n (.handed m) pre := by
  constructor
  · exact fun hz => ⟨method, hsup, hsu (hpa.send hz)⟩
  intro ho
  rcases hpa.change ho with hco | hpl
  · exact ⟨method, hsup, hsu hco⟩
  cases owner with
  | false => exact absurd hpl (hsa rfl)
  | true => exact absurd hpl (hpa.ne_owner rfl)

theorem guarded_of_passed (hpa : Passed owner method m.message.method ev) (hsu : call.Supplied n m method)
    (hsa : owner = false → method ≠ changeOwnerAddress) : Guarded (call.Needs n) (ev ++ [.handed m]) := by
  apply guarded_append (needs_of_free hpa.free)
  intro w hw pre hpr
  obtain rfl : w = .handed m := by simpa using hw
  exact needs_of_passed hpa hpr.subset hsu hsa

theorem guarded_of_free (h : Free ev) : Guarded (call.Needs n) ev := by
  rintro pre w post rfl
  exact needs_of_free h w (by simp) pre

theorem guarded_of_tame (h : Tame ev) : Guarded (call.Needs n) ev := by
  rintro pre w post rfl
  cases w with
  | handed m =>
    have hm := h m (by simp)
    exact ⟨fun hz => absurd hz hm.1, fun ho => absurd ho hm.2⟩
  | sendCode code ok | ownerCode code ok => trivial

variable {outs : List UInt64}

theorem mem_zipWith_of_passed {α β : Type} {methodOf : α → UInt64} {f : α → UInt64 → β} {items : List α}
    (ha : Forall₂ (fun method out => Passed false method out ev) (items.map methodOf) outs) {x : β}
    (hx : x ∈ zipWith f items outs) : ∃ a ∈ items, ∃ out, x = f a out ∧ Passed false (methodOf a) out ev := by
  induction items generalizing outs with
  | nil => simp at hx
  | cons a rest ih =>
    cases ha with
    | cons hpa hrest =>
      rcases mem_cons.mp hx with rfl | hx
      · exact ⟨a, mem_cons_self, _, rfl, hpa⟩
      · obtain ⟨a', hmem, hrest'⟩ := ih hrest hx
        exact ⟨a', mem_cons_of_mem a hmem, hrest'⟩

variable {smsgs : List SignedMessage}

theorem passed_of_mem (ha : Forall₂ (fun method out => Passed false method out ev) (smsgs.map (·.message.method)) outs)
    {smsg : SignedMessage} (hm : smsg ∈ smsgs) : ∃ out, Passed false smsg.message.method out ev ∧
      n.setSignedMethod smsg out ∈ zipWith n.setSignedMethod smsgs outs := by
  induction smsgs generalizing outs with
  | nil => simp at hm
  | cons s rest ih =>
    cases ha with
    | cons hpa hrest =>
      rcases mem_cons.mp hm with rfl | hm
      · exact ⟨_, hpa, mem_cons_self⟩
      · obtain ⟨out, ho, hmem⟩ := ih hrest hm
        exact ⟨out, ho, mem_cons_of_mem _ hmem⟩

theorem batch_logs (name : String) (push : List Event → SignedMessage → Except GoError Cid) (smsgs : List SignedMessage)
    (hsu : ∀ m code, (∃ smsg ∈ smsgs, smsg.message.method = code ∧
      m = n.setSignedMethod smsg m.message.method) → call.Supplied n m code)
    (hsa : (∃ smsg ∈ smsgs, smsg.message.method = changeOwnerAddress) → ∃ smsg ∈ smsgs, smsg.message.method = 0) :
    Logs (n.gateAll name (smsgs.map (·.message.method)) >>= fun methods =>
        Node.handAll push (zipWith n.setSignedMethod smsgs methods) [])
      (fun _ => Guarded (call.Needs n)) (Guarded (call.Needs n)) := by
  apply (gateAll_logs name _).bind
  · rintro outs ev ⟨hfree, -, ha⟩
    refine (handAll_logs push _ []).mono ?_ ?_
    · rintro r ev' ⟨k, rfl⟩
      apply guarded_append (needs_of_free hfree)
      intro w hw pre hpr
      obtain ⟨m, hm, rfl⟩ := mem_map.mp hw
      obtain ⟨smsg, hmem, out, rfl, hpa⟩ := mem_zipWith_of_passed ha (mem_of_mem_take hm)
      apply needs_of_passed hpa hpr.subset (hsu _ _ ⟨smsg, hmem, rfl, rfl⟩)
      -- with a plain change of an owner in the batch, a plain transfer had it refused
      rintro - ho
      obtain ⟨zero, hz, hme⟩ := hsa ⟨smsg, hmem, ho⟩
      obtain ⟨out, hou, -⟩ := passed_of_mem (n := n) ha hz
      exact hou.ne_zero hme
    · exact fun _ hfa => hfa.elim
  · exact fun ev hfree => guarded_of_free hfree

theorem authorised_of_safe (h : List Event) (hsa : call.Safe) : call.Authorised n h := by
  have hlo : ∀ {α : Type} {m : Handler α}, Logs m (fun _ => Guarded (call.Needs n)) (Guarded (call.Needs n)) →
      ∃ ev, (m h).1 = h ++ ev ∧ Guarded (call.Needs n) ev := by
    intro α m hm
    obtain ⟨a, ev, hrun, hev⟩ | ⟨e, ev, hrun, hev⟩ := hm h
    all_goals exact ⟨ev, by rw [hrun], hev⟩
  cases call with
  | push smsg =>
    apply hlo
    apply gate_hand_logs "MpoolPush" true smsg n.push
    · exact fun ev hfree => guarded_of_free hfree
    · exact fun pre out hpa => guarded_of_passed hpa ⟨rfl, rfl⟩ (by simp)
  | pushUntrusted smsg =>
    apply hlo
    apply gate_hand_logs "MpoolPushUntrusted" false smsg n.pushUntrusted
    · exact fun ev hfree => guarded_of_free hfree
    · exact fun pre out hpa => guarded_of_passed hpa ⟨rfl, rfl⟩ fun _ => hsa
  | pushMessage msg spec =>
    apply hlo
    have hpar : ∀ ev, PassedTwice msg.method ev → Guarded ((pushMessage msg spec).Needs n) ev := by
      rintro ev ⟨out, pre, post, rfl, hpa, hfree | ⟨pre', m, rfl, hp'⟩⟩
      · exact guarded_of_free (hpa.free.append hfree)
      rw [← append_assoc]
      have hb := hp'.mono (subset_append_right pre pre') (hpa.free.append hp'.free) (by simp)
      exact guarded_of_passed hb (show msg.method = msg.method from rfl) (by simp)
    apply (mpoolPushMessage_logs msg spec).mono
    · exact fun _ => hpar
    · exact fun ev h => h.elim guarded_of_free (hpar ev)
  | batchPush smsgs =>
    apply hlo
    exact batch_logs "MpoolBatchPush" n.push smsgs (fun _ _ hsu => hsu) hsa
  | batchPushUntrusted smsgs =>
    apply hlo
    exact batch_logs "MpoolBatchPushUntrusted" n.pushUntrusted smsgs (fun _ _ hsu => hsu) hsa
  | batchPushMessage msgs spec =>
    apply hlo
    apply (gateAll_logs "MpoolBatchPushMessage" _).bind
    · rintro outs ev ⟨hfree, -, ha⟩
      refine (pushAll_tame spec _ ?_ []).mono ?_ ?_
      · -- what came out of the first gate is the plain transfer, or no code
        intro m hm
        obtain ⟨msg, -, out, rfl, hpa⟩ := mem_zipWith_of_passed ha hm
        rcases (hpa.shape rfl).1 with hz | ⟨heq, hle⟩
        · exact .inl hz
        · exact .inr (heq ▸ hle)
      · exact fun r ev' hta => guarded_of_tame (hfree.tame.append hta)
      · exact fun _ hfa => hfa.elim
    · exact fun ev hfree => guarded_of_free hfree

/-! ## The calls that are not safe -/

def openNode : Node where
  checkSendCode _ _ := .ok ()
  checkOwnerCode _ _ := .ok ()
  push _ m := .ok m.cid
  pushUntrusted _ m := .ok m.cid
  messageCid m := m.cid
  signedCid m := m.cid
  toStorageBlock m := .ok m.cid
  json _ := "\x7b\x7d"
  getSignedMessage _ _ := .error (.errorf "datastore: key not found")
  storeSignedMessage _ _ _ := .ok ()
  resolveToKeyAddress _ a := .ok a
  takeLock _ _ := .ok ()
  gasEstimateMessageGas _ m _ := .ok m
  walletBalance _ _ := .ok 0
  getNonce _ _ := .ok 0
  storedNonce _ _ := .ok none
  putNonce _ _ _ := .ok ()
  walletSign _ _ _ := .ok .secp256k1

theorem gate_open (name : String) (hne : method ≠ 0) (h : List Event) :
    ∃ out ev, openNode.gate name false method h = (h ++ ev, .val out) := by
  unfold Node.gate
  rw [if_neg (by simp [hne]), if_neg (by simp)]
  split
  · have hch : Node.checkCode openNode.checkSendCode .sendCode method h = (h ++ [.sendCode method true], .val ()) := rfl
    exact ⟨0, _, bind_val hch⟩
  · exact ⟨method, [], by simp [pure]⟩

theorem gateAll_open (name : String) {methods : List UInt64} (hne : ∀ method ∈ methods, method ≠ 0)
    (h : List Event) : ∃ outs ev, openNode.gateAll name methods h = (h ++ ev, .val outs) := by
  induction methods generalizing h with
  | nil => exact ⟨[], [], by simp [Node.gateAll, pure]⟩
  | cons method rest ih =>
    obtain ⟨out, ev, hg⟩ := gate_open name (hne method mem_cons_self) h
    obtain ⟨outs, ev', hrest⟩ := ih (fun m hm => hne m (mem_cons_of_mem method hm)) (h ++ ev)
    refine ⟨out :: outs, ev ++ ev', ?_⟩
    rw [Node.gateAll, bind_val hg, bind_val hrest, append_assoc]
    rfl

variable {push : List Event → SignedMessage → Except GoError Cid}

theorem handAll_open (hpu : ∀ h m, push h m = .ok m.cid) (msgs : List SignedMessage) (cids : List Cid)
    (h : List Event) : (Node.handAll push msgs cids h).1 = h ++ msgs.map .handed := by
  induction msgs generalizing cids h with
  | nil => simp [Node.handAll, pure]
  | cons m rest ih =>
    have hh : Node.hand push m h = (h ++ [.handed m], .val m.cid) := by
      simp [Node.hand, bind_apply, emit, ask, hpu]
    simp [Node.handAll, hh, ih]

theorem not_guarded (hm : .handed m ∈ ev) (ho : m.message.method = changeOwnerAddress) (hn : NoOwner ev) :
    ¬ Guarded (call.Needs n) ev := by
  intro hg
  obtain ⟨pre, post, rfl⟩ := append_of_mem hm
  obtain ⟨code, -, hco⟩ := (hg pre (.handed m) post rfl).2 ho
  exact hn code true (mem_append_left _ hco)

theorem batch_unauthorised {name : String} (hpu : ∀ h m, push h m = .ok m.cid) {h : List Event}
    (hrun : ((openNode.gateAll name (smsgs.map (·.message.method)) >>= fun methods => Node.handAll push (zipWith openNode.setSignedMethod smsgs methods) []) h).1 = h ++ ev)
    (ho : ∃ smsg ∈ smsgs, smsg.message.method = changeOwnerAddress)
    (hz : ¬ ∃ smsg ∈ smsgs, smsg.message.method = 0) : ¬ Guarded (call.Needs openNode) ev := by
  obtain ⟨smsg, hsm, ho⟩ := ho
  have hne : ∀ method ∈ smsgs.map (·.message.method), method ≠ 0 := by
    intro method hm heq
    obtain ⟨s, hs, rfl⟩ := mem_map.mp hm
    exact hz ⟨s, hs, heq⟩
  obtain ⟨outs, ev0, hg⟩ := gateAll_open name hne h
  rw [bind_val hg, handAll_open hpu, append_assoc, append_cancel_left_eq] at hrun
  subst hrun
  -- the gates asked no question about an owner, and let the plain method through
  obtain ⟨outs', ev', hg', -, hn, ha⟩ | ⟨e, ev', hg', -⟩ :=
    gateAll_logs (n := openNode) name (smsgs.map (·.message.method)) h
  · rw [hg] at hg'
    obtain ⟨hev, hou⟩ := Prod.mk.inj hg'
    obtain rfl := append_cancel_left hev
    obtain rfl := Outcome.val.inj hou
    obtain ⟨out, hpa, hmem⟩ := passed_of_mem (n := openNode) ha hsm
    have hm : out = changeOwnerAddress := by
      rw [hpa.plain (by rw [ho]; decide), ho]
    apply not_guarded (mem_append_right _ (mem_map_of_mem hmem)) hm
    apply hn.append
    intro code ok hco
    obtain ⟨m, -, heq⟩ := mem_map.mp hco
    exact Event.noConfusion heq
  · rw [hg] at hg'
    exact absurd (Prod.mk.inj hg').2 (by simp)

theorem unauthorised_of_not_safe (h : List Event) (hri : ¬ call.Safe) : ¬ call.Authorised openNode h := by
  rintro ⟨ev, hrun, hgu⟩
  cases call with
  | pushUntrusted smsg =>
    have ho : smsg.message.method = changeOwnerAddress := not_not.mp hri
    have hev : ev = [.handed (openNode.setSignedMethod smsg changeOwnerAddress)] := by
      have hg : openNode.gate "MpoolPushUntrusted" false smsg.message.method h = (h, .val changeOwnerAddress) := by
        rw [ho]
        simp [Node.gate, changeOwnerAddress, pure]
      have hrun' : (openNode.mpoolPushUntrusted smsg h).1 = h ++ ev := hrun
      rw [Node.mpoolPushUntrusted, bind_val hg] at hrun'
      simpa [Node.hand, bind_apply, emit, ask, openNode] using hrun'.symm
    rw [hev] at hgu
    exact not_guarded mem_cons_self rfl (by simp [NoOwner]) hgu
  | batchPush smsgs | batchPushUntrusted smsgs =>
    simp only [Safe, Classical.not_imp] at hri
    exact batch_unauthorised (fun _ _ => rfl) hrun hri.1 hri.2 hgu
  | push smsg | pushMessage msg spec | batchPushMessage msgs spec => exact hri trivial

/-- **Authorisation.** No transfer or change of an owner goes out without its code exactly if every call is safe. -/
theorem pushes_authorised_iff (calls : List ApiCall) : (∀ n, AllAuthorised n [] calls) ↔ ∀ call ∈ calls, call.Safe := by
  constructor
  · intro hall call hmem
    by_contra hri
    have hmem' : ∀ h, AllAuthorised openNode h calls → ∃ h', call.Authorised openNode h' := by
      clear hall
      induction calls with
      | nil => simp at hmem
      | cons c rest ih =>
        intro h hca
        rcases mem_cons.mp hmem with rfl | hmem
        · exact ⟨h, hca.1⟩
        · exact ih hmem _ hca.2
    obtain ⟨h', ha⟩ := hmem' [] (hall openNode)
    exact unauthorised_of_not_safe h' hri ha
  intro hsa n
  generalize ([] : List Event) = h
  induction calls generalizing h with
  | nil => trivial
  | cons c rest ih =>
    exact ⟨authorised_of_safe h (hsa c mem_cons_self), ih (fun call hmem => hsa call (mem_cons_of_mem c hmem)) _⟩

def ownerChange : SignedMessage :=
  ⟨⟨[1]⟩, ⟨⟨[1]⟩, .id 100, 0, 0, 0, 0, 0, 0, .id 1000, changeOwnerAddress, []⟩, .secp256k1⟩

theorem pushUntrusted_ownerChange : (pushUntrusted ownerChange).run openNode [] = [.handed ownerChange] ∧
    ¬ AllAuthorised openNode [] [pushUntrusted ownerChange] := by
  refine ⟨by decide +kernel, fun ha => ?_⟩
  have hri : ¬ (pushUntrusted ownerChange).Safe := fun hsa => hsa rfl
  exact unauthorised_of_not_safe [] hri ha.1

end ApiCall
end Lotus.Api
