/-
# Events with confidence (`chain/events/events_called.go`).

An event is queued under the height at which it has its confidence (`triggerH`) and that of its tipset; each height that the
head passes calls the handlers queued under it. A second map has the heights under which the events of a tipset were queued,
for its revert. Maps are ranged over in any order. The result `none` is a nil dereference.
-/
import Lotus.Lib.Branch
import Lotus.Lib.Lts
import Lotus.Store.Checkpoint
import Lotus.Types.Message

namespace Lotus.Events
open Lib.Ancestry Lib.Lts Store

/-- `abi.ChainEpoch` addition. -/
def addEpoch (a b : Int) : Int := (a + b).bmod (2 ^ 64)

def noTimeout : Int := 2 ^ 63 - 1

/-- The order in which one `range` loop goes over a map. -/
structure RangeOrder (α : Type) where
  order : List α → List α
  perm : ∀ l, (order l).Perm l

def RangeOrder.inserted {α : Type} : RangeOrder α := ⟨id, .refl⟩

abbrev TriggerID := Nat

/-- `eventData`: a change of state, as its matcher describes it, or a message. -/
inductive EventData (δ : Type) where
  | change (states : δ)
  | call (msg : Message)
  deriving DecidableEq

/-- `handlerInfo`. The result of the revert handler is only logged. -/
structure HandlerInfo (δ : Type) where
  confidence : Int64
  timeout : Int
  disabled : Bool
  handle : Option (EventData δ) → Option TipSet → Option TipSet → Int → Except GoError Bool

structure QueuedEvent (δ : Type) where
  trigger : TriggerID
  data : EventData δ
  prevTipset : Option TipSet
  tipset : TipSet
  called : Bool
  deriving DecidableEq

abbrev StateMatchFunc (δ : Type) := TipSet → TipSet → Except GoError (Option δ)

abbrev MsgMatchFunc := Message → Except GoError Bool

/-- `api.BlockMessages`, with the CIDs of the messages in their order. -/
structure BlockMessages where
  blsMessages : List Message
  secpkMessages : List SignedMessage
  cids : List Cid
  lengths : cids.length = blsMessages.length + secpkMessages.length

/-- The methods of `EventAPI` that are used here. -/
structure EventAPI where
  chainGetBlockMessages : Cid → Except GoError BlockMessages
  chainGetTipSetAfterHeight : Int → TipSetKey → Except GoError TipSet

/-- `hcEvents`, with the matchers of `watcherEvents` and `messageEvents`. -/
structure HcEvents (δ : Type) where
  lastTs : TipSet
  ctr : TriggerID
  triggers : GoMap TriggerID (HandlerInfo δ)
  confQueue : GoMap Int (GoMap Int (List (QueuedEvent δ)))
  revertQueue : GoMap Int (List Int)
  timeouts : GoMap Int (GoMap TriggerID Nat)
  stateMatchers : GoMap TriggerID (StateMatchFunc δ)
  msgMatchers : GoMap TriggerID MsgMatchFunc

/-- A call of a handler. A timeout calls the same handler as an event, with nil data. -/
inductive Call (δ : Type) where
  | handle (trigger : TriggerID) (data : EventData δ) (prevTs : Option TipSet) (ts : TipSet) (curH : Int)
  | timeout (trigger : TriggerID) (ts : Option TipSet) (curH : Int)
  | revert (trigger : TriggerID) (ts : TipSet)
  deriving DecidableEq

/-- The orders of the loops of one `Apply`. -/
structure Orders (δ : Type) where
  states : RangeOrder (TriggerID × δ)
  calls : RangeOrder (Σ _ : TriggerID, List Message)
  origins : Int → RangeOrder (Σ _ : Int, List (QueuedEvent δ))
  timeouts : Int → RangeOrder (Σ _ : TriggerID, Nat)

def Orders.inserted {δ : Type} : Orders δ := ⟨.inserted, .inserted, fun _ => .inserted, fun _ => .inserted⟩

variable {δ : Type}

namespace HcEvents

def new (lastTs : TipSet) : HcEvents δ := ⟨lastTs, 0, ∅, ∅, ∅, ∅, ∅, ∅⟩

/-! ## Matching -/

/-- `checkStateChanges`: a matcher that fails is logged and passed over. -/
def checkStateChanges (e : HcEvents δ) (oldState newState : TipSet) : List (TriggerID × δ) :=
  e.stateMatchers.entries.filterMap fun m =>
    match m.2 oldState newState with
    | .ok (some data) => some (m.1, data)
    | _ => none

/-- The messages of one block with their CIDs: those of the BLS messages come first. -/
def blockCalls (msgs : BlockMessages) : List (Cid × Message) :=
  msgs.cids.zip (msgs.blsMessages ++ msgs.secpkMessages.map (·.message))

/-- `messagesForTs`: the messages of a tipset, each CID once. -/
def messagesForTs (api : EventAPI) (ts : TipSet) : List Message :=
  (ts.cids.foldl (fun acc tsb =>
    match api.chainGetBlockMessages tsb with
    | .error _ => acc
    | .ok msgs => (blockCalls msgs).foldl (fun (acc : List Cid × List Message) cm =>
      if cm.1 ∈ acc.1 then acc else (cm.1 :: acc.1, acc.2 ++ [cm.2])) acc) ([], [])).2

/-- `checkNewCalls`. The messages of `from` are those that are executed in `to`. -/
def checkNewCalls (e : HcEvents δ) (api : EventAPI) (fromTs : TipSet) : GoMap TriggerID (List Message) :=
  (messagesForTs api fromTs).foldl (fun res msg =>
    e.msgMatchers.entries.foldl (fun res m =>
      match m.2 msg with
      | .ok true => res.insert m.1 ((res.lookup m.1).getD [] ++ [msg])
      | _ => res) res) ∅

/-- The events of a tipset in the order in which `Apply` queues them. -/
def matched (e : HcEvents δ) (api : EventAPI) (ord : Orders δ) (fromTs toTs : TipSet) : List (QueuedEvent δ) :=
  (ord.states.order (e.checkStateChanges fromTs toTs)).map (fun c => ⟨c.1, .change c.2, some fromTs, toTs, false⟩) ++
    (ord.calls.order (e.checkNewCalls api fromTs).entries).flatMap fun c =>
      c.2.map fun msg => ⟨c.1, .call msg, none, toTs, false⟩

/-! ## The queue -/

section
variable (e : HcEvents δ) (triggerH msgH : Int)

/-- `confQueue[triggerH][msgH]`, nil where there is no entry. -/
def queued : List (QueuedEvent δ) :=
  ((e.confQueue.lookup triggerH).bind fun byOrigH => byOrigH.lookup msgH).getD []

/-- `confQueue[triggerH][msgH] = events`. -/
def setQueued (events : List (QueuedEvent δ)) : HcEvents δ :=
  { e with
    confQueue := e.confQueue.insert triggerH (((e.confQueue.lookup triggerH).getD ∅).insert msgH events) }

/-- `delete(confQueue[triggerH], msgH)`. -/
def deleteQueued : HcEvents δ :=
  match e.confQueue.lookup triggerH with
  | none => e
  | some byOrigH => { e with confQueue := e.confQueue.insert triggerH (byOrigH.erase msgH) }
end

section
variable (e : HcEvents δ)

/-- `revertQueue[msgH]`, nil where there is no entry. -/
def reverts (msgH : Int) : List Int := (e.revertQueue.lookup msgH).getD []

def queueForConfidence (event : QueuedEvent δ) : Option (HcEvents δ) :=
  (e.triggers.lookup event.trigger).map fun trigger =>
    let appliedH := event.tipset.height
    let triggerH := addEpoch appliedH trigger.confidence.toInt
    { e.setQueued triggerH appliedH (e.queued triggerH appliedH ++ [event]) with
      revertQueue := e.revertQueue.insert appliedH (e.reverts appliedH ++ [triggerH]) }

section
variable (timeouts : GoMap Int (GoMap TriggerID Nat))

/-- `touts[id]++`, where `touts` are the calls counted for a timeout, if that is set. -/
def countCall (timeout : Int) (id : TriggerID) : GoMap Int (GoMap TriggerID Nat) :=
  match timeouts.lookup timeout with
  | none => timeouts
  | some touts => timeouts.insert timeout (touts.insert id ((touts.lookup id).getD 0 + 1))

def setTimeout (timeoutH : Int) (id : TriggerID) :
    GoMap Int (GoMap TriggerID Nat) :=
  timeouts.insert timeoutH (((timeouts.lookup timeoutH).getD ∅).insert id 0)
end

/-- `trigger.disabled = !more`. -/
def setMore (id : TriggerID) (trigger : HandlerInfo δ) (more : Bool) : HcEvents δ :=
  { e with triggers := e.triggers.insert id { trigger with disabled := !more } }

/-- The body of the inner loop of `applyWithConfidence`, and the event as it is left. -/
def applyEvent (height : Int) (e : HcEvents δ) (event : QueuedEvent δ) : Option (HcEvents δ × List (Call δ) × QueuedEvent δ) :=
  if event.called then some (e, [], event)
  else
    (e.triggers.lookup event.trigger).map fun trigger =>
      if trigger.disabled then (e, [], event)
      else
        let call := .handle event.trigger event.data event.prevTipset event.tipset height
        match trigger.handle (some event.data) event.prevTipset (some event.tipset) height with
        | .error _ => (e, [call], event)
        | .ok more =>
          ({ e with timeouts := countCall e.timeouts trigger.timeout event.trigger }.setMore event.trigger trigger more,
            [call], { event with called := true })

/-- The inner loop of `applyWithConfidence`. -/
def applyEvents (height : Int) :
    HcEvents δ → List (QueuedEvent δ) → Option (HcEvents δ × List (Call δ) × List (QueuedEvent δ))
  | e, [] => some (e, [], [])
  | e, event :: rest =>
    (applyEvent height e event).bind fun (e, calls, event) =>
      (applyEvents height e rest).map fun (e, calls', rest) => (e, calls ++ calls', event :: rest)

/-- The outer loop of `applyWithConfidence`. Events are pointers: the queue sees their changes. -/
def applyOrigins (height : Int) :
    HcEvents δ → List (Σ _ : Int, List (QueuedEvent δ)) → Option (HcEvents δ × List (Call δ))
  | e, [] => some (e, [])
  | e, ⟨origH, events⟩ :: rest =>
    (applyEvents height e events).bind fun (e, calls, events) =>
      (applyOrigins height (e.setQueued height origH events) rest).map fun (e, calls') => (e, calls ++ calls')

def applyWithConfidence (ord : Orders δ) (height : Int) (e : HcEvents δ) : Option (HcEvents δ × List (Call δ)) :=
  match e.confQueue.lookup height with
  | none => some (e, [])
  | some byOrigH => applyOrigins height e ((ord.origins height).order byOrigH.entries)

/-- The loop of `applyTimeouts`. A tipset not found is nil, dereferenced only when the handler fails. -/
def applyTimeoutsLoop (api : EventAPI) (height : Int) (ts : TipSet) :
    HcEvents δ → List (Σ _ : TriggerID, Nat) → Option (HcEvents δ × List (Call δ))
  | e, [] => some (e, [])
  | e, ⟨id, calls⟩ :: rest =>
    if calls > 0 then applyTimeoutsLoop api height ts e rest
    else
      match e.triggers.lookup id with
      | none => none
      | some trigger =>
        if trigger.disabled then applyTimeoutsLoop api height ts e rest
        else
          let timeoutTs :=
            (api.chainGetTipSetAfterHeight (addEpoch height (-trigger.confidence.toInt)) ts.key).toOption
          match trigger.handle none none timeoutTs height, timeoutTs with
          | .error _, none => none
          | .error _, some _ =>
            (applyTimeoutsLoop api height ts e rest).map fun (e, calls) => (e, .timeout id timeoutTs height :: calls)
          | .ok more, _ =>
            (applyTimeoutsLoop api height ts (e.setMore id trigger more) rest).map fun (e, calls) =>
              (e, .timeout id timeoutTs height :: calls)

def applyTimeouts (api : EventAPI) (ord : Orders δ) (height : Int) (ts : TipSet) (e : HcEvents δ) :
    Option (HcEvents δ × List (Call δ)) :=
  match e.timeouts.lookup height with
  | none => some (e, [])
  | some triggers => applyTimeoutsLoop api height ts e ((ord.timeouts height).order triggers.entries)

/-- The loop of `Apply` over the heights `at`, `at + 1`, …, `n` of them. -/
def applyHeights (api : EventAPI) (ord : Orders δ) (toTs : TipSet) :
    Nat → Int → HcEvents δ → Option (HcEvents δ × List (Call δ))
  | 0, _, e => some (e, [])
  | n + 1, height, e =>
    (applyWithConfidence ord height e).bind fun (e, calls) =>
      (applyTimeouts api ord height toTs e).bind fun (e, calls') =>
        (applyHeights api ord toTs n (height + 1) e).map fun (e, calls'') => (e, calls ++ calls' ++ calls'')

def apply (api : EventAPI) (ord : Orders δ) (e : HcEvents δ) (fromTs toTs : TipSet) : Option (HcEvents δ × List (Call δ)) :=
  ((e.matched api ord fromTs toTs).foldlM queueForConfidence e).bind fun e =>
    (applyHeights api ord toTs (toTs.height - fromTs.height).toNat (fromTs.height + 1) e).map fun (e, calls) =>
      ({ e with lastTs := toTs }, calls)

/-- The inner loop of `Revert`. -/
def revertEvents (e : HcEvents δ) (fromTs : TipSet) : List (QueuedEvent δ) → Option (List (Call δ))
  | [] => some []
  | event :: rest =>
    if event.called then
      (e.triggers.lookup event.trigger).bind fun _ =>
        (e.revertEvents fromTs rest).map fun calls => .revert event.trigger fromTs :: calls
    else e.revertEvents fromTs rest

/-- The outer loop of `Revert`. -/
def revertHeights (fromTs : TipSet) : HcEvents δ → List Int → Option (HcEvents δ × List (Call δ))
  | e, [] => some (e, [])
  | e, triggerH :: rest =>
    (e.revertEvents fromTs (e.queued triggerH fromTs.height)).bind fun calls =>
      (revertHeights fromTs (e.deleteQueued triggerH fromTs.height) rest).map fun (e, calls') => (e, calls ++ calls')

def revert (fromTs toTs : TipSet) : Option (HcEvents δ × List (Call δ)) :=
  match e.revertQueue.lookup fromTs.height with
  | none => some ({ e with lastTs := toTs }, [])
  | some reverts =>
    (revertHeights fromTs e reverts).map fun (e, calls) =>
      ({ e with revertQueue := e.revertQueue.erase fromTs.height, lastTs := toTs }, calls)

/-- `onHeadChanged`, with the id where the check does not fail. -/
def onHeadChanged (check : TipSet → Except GoError (Bool × Bool))
    (hnd : Option (EventData δ) → Option TipSet → Option TipSet → Int → Except GoError Bool)
    (confidence : Int64) (timeout : Int) : HcEvents δ × Except GoError TriggerID :=
  match check e.lastTs with
  | .error err => (e, .error (.wrap "called check error" err))
  | .ok (done, more) =>
    let timeout := if done then noTimeout else timeout
    let id := e.ctr
    let timeoutH := addEpoch timeout confidence.toInt
    ({ e with
        ctr := e.ctr + 1
        triggers := e.triggers.insert id ⟨confidence, timeoutH, !more, hnd⟩
        timeouts := if timeout ≠ noTimeout then setTimeout e.timeouts timeoutH id else e.timeouts }, .ok id)
end

/-- What can happen: a registration, which first sets up the handler and then the matcher, and the notifications
of the observer. -/
inductive Label (δ : Type) where
  | onHeadChanged (check : TipSet → Except GoError (Bool × Bool))
      (hnd : Option (EventData δ) → Option TipSet → Option TipSet → Int → Except GoError Bool)
      (confidence : Int64) (timeout : Int)
  | stateMatcher (id : TriggerID) (mf : StateMatchFunc δ)
  | msgMatcher (id : TriggerID) (mf : MsgMatchFunc)
  | apply (ord : Orders δ) (fromTs toTs : TipSet)
  | revert (fromTs toTs : TipSet)

def step (api : EventAPI) (e : HcEvents δ) : Label δ → Option (HcEvents δ × List (Call δ))
  | .onHeadChanged check hnd confidence timeout => some ((e.onHeadChanged check hnd confidence timeout).1, [])
  | .stateMatcher id mf => some ({ e with stateMatchers := e.stateMatchers.insert id mf }, [])
  | .msgMatcher id mf => some ({ e with msgMatchers := e.msgMatchers.insert id mf }, [])
  | .apply ord fromTs toTs => e.apply api ord fromTs toTs
  | .revert fromTs toTs => e.revert fromTs toTs

/-- The steps along a path of the tree; handlers never fail and always ask for more. -/
def Path (T : TipSetTree) (e : HcEvents δ) : Label δ → Prop
  | .onHeadChanged _ hnd _ _ => ∀ data prevTs ts curH, hnd data prevTs ts curH = .ok true
  | .stateMatcher id _ | .msgMatcher id _ => (e.triggers.lookup id).isSome
  | .apply _ fromTs toTs => fromTs = e.lastTs ∧ T.mem toTs ∧ T.parent toTs = some fromTs
  | .revert fromTs toTs => fromTs = e.lastTs ∧ T.parent fromTs = some toTs

section
variable (e : HcEvents δ) (event : QueuedEvent δ)

def confidence : Int :=
  (e.triggers.lookup event.trigger).elim 0 (·.confidence.toInt)

def live : Bool :=
  (e.triggers.lookup event.trigger).elim false (!·.disabled)
end
end HcEvents

/-- The highest head since a tipset of height `h` was applied. -/
def peak (h : Int) (labels : List (HcEvents.Label δ)) : Int :=
  labels.foldl (fun m l => match l with
    | .apply _ _ toTs => max m toTs.height
    | _ => m) h

def handledOf (ts : TipSet) (calls : List (Call δ)) : List (Call δ) :=
  calls.filter fun
    | .handle _ _ _ ts' _ => ts' = ts
    | _ => false

def revertedOf (ts : TipSet) (calls : List (Call δ)) : List (Call δ) :=
  calls.filter fun
    | .revert _ ts' => ts' = ts
    | _ => false

end Lotus.Events
