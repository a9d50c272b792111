/-
# Handlers at a height (`chain/events/events_height.go`).

The event loop calls a handler when the head is `confidence` epochs above its height, and the revert handler when the head
goes below it. If the head is past the height already, `ChainAt` does the same itself, without the lock, until the head is
the one it went by. A step is a section under the lock with what follows, or `ChainAt` between two.
-/
import Lotus.Events.Called
import Lotus.Events.TipSetCache

namespace Lotus.Events
open Lib.Ancestry Lib.Lts Store

/-- A `heightHandler` pointer. -/
abbrev HandlerID := Nat

inductive HandlerCall where
  | handle (ts : Option TipSet) (curH : Int)
  | revert (ts : Option TipSet)
  deriving DecidableEq

structure LoggedCall where
  call : HandlerCall
  immediate : Bool
  seen : TipSet
  now : TipSet
  deriving DecidableEq

/-- Where a call of `ChainAt` is: fetching or reverting without the lock, about to take it, or returned. -/
inductive ChainAtPc where
  | fetching (head : TipSet)
  | reverting (head : TipSet)
  | relocking (head : TipSet)
  | returned (saved : Bool) (err : Option GoError)
  deriving DecidableEq

/-- `heightHandler` with the arguments and the place of its `ChainAt`, and its calls so far. -/
structure HeightHandler where
  height : Int
  confidence : Int
  ts : Option TipSet
  called : Bool
  pc : ChainAtPc
  calls : List LoggedCall
  deriving DecidableEq

structure HeightEvents where
  gcConfidence : Int
  head : TipSet
  tsHeights : GoMap Int (List HandlerID)
  triggerHeights : GoMap Int (List HandlerID)
  lastGc : Int

abbrev AfterHeight := Int → TipSetKey → Except GoError (Option TipSet)

/-! ## The code -/

namespace HeightHandler
variable (hnd : HeightHandler)

def triggerAt : Int := addEpoch hnd.height hnd.confidence

/-- `handler.ts = to`. -/
def stash (toTs : TipSet) : HeightHandler := { hnd with ts := some toTs }

/-- A trigger in `Apply`. -/
def fire (toTs : TipSet) (h : Int) : HeightHandler :=
  if hnd.called then hnd
  else { hnd with called := true, calls := hnd.calls ++ [⟨.handle hnd.ts h, false, toTs, toTs⟩] }

/-- A trigger in `Revert`. -/
def undo (fromTs toTs : TipSet) : HeightHandler :=
  if hnd.called then
    { hnd with ts := none, called := false, calls := hnd.calls ++ [⟨.revert (some fromTs), false, toTs, toTs⟩] }
  else { hnd with ts := none }

variable (api : AfterHeight) (gcConfidence : Int) (now : TipSet)

section
variable (head : TipSet)

/-- The tipset that `ChainAt` looks up. -/
def fetch : Except GoError (Option TipSet) :=
  if head.height = hnd.height then .ok (some head) else api hnd.height head.key

/-- "If we've applied the handler on the wrong tipset, revert."  The tipset is saved. -/
def replace (ts : Option TipSet) : HeightHandler :=
  if hnd.called = true ∧ equalsPtr ts hnd.ts = false then
    { hnd with ts := ts, called := false, calls := hnd.calls ++ [⟨.revert hnd.ts, true, head, now⟩] }
  else { hnd with ts := ts }

/-- "If we've reached confidence and haven't called, call." -/
def callNow : HeightHandler :=
  if hnd.called = false ∧ head.height ≥ hnd.triggerAt then
    { hnd with
      called := true
      calls := hnd.calls ++ [⟨.handle hnd.ts head.height, true, head, now⟩]
      pc := if head.height ≥ addEpoch hnd.height gcConfidence then .returned false none else .relocking head }
  else { hnd with pc := .relocking head }

/-- `ChainAt` without the lock, where the head is at or past the height. -/
def work : HeightHandler :=
  match hnd.fetch api head with
  | .error _ => { hnd with pc := .returned false (some (.errorf "events.ChainAt: failed to get tipset")) }
  | .ok ts => (hnd.replace now head ts).callNow gcConfidence now head

/-- `ChainAt` without the lock, where the head went below the height. -/
def unwind : HeightHandler :=
  { hnd with called := false, calls := hnd.calls ++ [⟨.revert hnd.ts, true, head, now⟩], pc := .relocking head }
end
end HeightHandler

namespace HeightEvents

section
variable (m : GoMap Int (List HandlerID))

def idsAt (h : Int) : List HandlerID := (m.lookup h).getD []

/-- `m[h] = append(m[h], handler)`. -/
def put (h : Int) (id : HandlerID) : GoMap Int (List HandlerID) :=
  m.insert h (idsAt m h ++ [id])

/-- The loop of `updateHead` over one of the maps. -/
def collect (targetGcHeight : Int) : GoMap Int (List HandlerID) :=
  (m.keys.filter fun h => decide (h < targetGcHeight)).foldl (fun m h => m.erase h) m
end

/-- The test of `updateHead`. -/
def gcDue (e : HeightEvents) (ts : TipSet) : Bool := !decide (ts.height < addEpoch e.lastGc (e.gcConfidence * 2))

def updateHead (e : HeightEvents) (ts : TipSet) : HeightEvents :=
  if e.gcDue ts then
    let targetGcHeight := addEpoch ts.height (-e.gcConfidence)
    { e with
      head := ts
      lastGc := ts.height
      tsHeights := collect e.tsHeights targetGcHeight
      triggerHeights := collect e.triggerHeights targetGcHeight }
  else { e with head := ts }

/-- Where the event loop is, with the next height of `Apply` or `Revert`. -/
inductive Loop where
  | idle
  | applying (fromTs toTs : TipSet) (h : Int)
  | reverting (fromTs toTs : TipSet) (h : Int)

/-- The event loop and the calls of `ChainAt`. `maxHeight` is the greatest height that the head has had. -/
structure Machine where
  events : HeightEvents
  handlers : HandlerID → Option HeightHandler
  loop : Loop
  maxHeight : Int

def new (gcConfidence : Int) (head : TipSet) : Machine :=
  ⟨⟨gcConfidence, head, ∅, ∅, 0⟩, fun _ => none, .idle, head.height⟩

namespace Machine

def each (ids : List HandlerID) (f : HeightHandler → HeightHandler) (handlers : HandlerID → Option HeightHandler) :
    HandlerID → Option HeightHandler :=
  ids.foldl (fun handlers id => Function.update handlers id ((handlers id).map f)) handlers

section
variable (s : Machine) (id : HandlerID) (hnd : HeightHandler)
include hnd

def set : Machine :=
  { s with handlers := Function.update s.handlers id (some hnd) }

/-- "We're finally done": the handler is handed over to the loop. -/
def save : Machine where
  events := { s.events with
    triggerHeights := put s.events.triggerHeights hnd.triggerAt id
    tsHeights := put s.events.tsHeights hnd.height id }
  handlers := Function.update s.handlers id (some { hnd with pc := .returned true none })
  loop := s.loop
  maxHeight := s.maxHeight

/-- The start of a round of `ChainAt`, under the lock. -/
def enter : Machine :=
  if s.events.head.height ≥ hnd.height then s.set id { hnd with pc := .fetching s.events.head }
  else if hnd.called then s.set id { hnd with pc := .reverting s.events.head }
  else s.save id hnd
end

/-- One height of `Apply`. -/
def applyAt (s : Machine) (toTs : TipSet) (h : Int) : HandlerID → Option HeightHandler :=
  each (idsAt s.events.triggerHeights h) (·.fire toTs h) (each (idsAt s.events.tsHeights h) (·.stash toTs) s.handlers)

/-- One height of `Revert`. -/
def revertAt (s : Machine) (fromTs toTs : TipSet) (h : Int) : HandlerID → Option HeightHandler :=
  each (idsAt s.events.tsHeights h) (·.undo fromTs toTs) s.handlers

end Machine

/-- `ChainAt` up to where it first releases the lock, without it, and under it again; the start of `Apply` or `Revert`, and
the next height there. -/
inductive Label where
  | chainAt (id : HandlerID) (h confidence : Int)
  | work (id : HandlerID)
  | relock (id : HandlerID)
  | apply (fromTs toTs : TipSet)
  | revert (fromTs toTs : TipSet)
  | tick

def step (api : AfterHeight) (s : Machine) : Label → Option Machine
  | .chainAt id h confidence =>
    match s.handlers id with
    | some _ => none
    | none =>
      if confidence > s.events.gcConfidence then
        some (s.set id ⟨h, confidence, none, false, .returned false (some (.errorf
          ("confidence cannot be greater than gcConfidence: " ++ toString confidence ++ " > " ++
            toString s.events.gcConfidence))), []⟩)
      else some (s.enter id ⟨h, confidence, none, false, .relocking s.events.head, []⟩)
  | .work id =>
    match s.handlers id with
    | none => none
    | some hnd =>
      match hnd.pc with
      | .fetching head => some (s.set id (hnd.work api s.events.gcConfidence s.events.head head))
      | .reverting head => some (s.set id (hnd.unwind s.events.head head))
      | _ => none
  | .relock id =>
    match s.handlers id with
    | none => none
    | some hnd =>
      match hnd.pc with
      | .relocking head => some (if head.equals s.events.head then s.save id hnd else s.enter id hnd)
      | _ => none
  | .apply fromTs toTs =>
    match s.loop with
    | .idle => some { s with
        events := s.events.updateHead toTs
        loop := .applying fromTs toTs (fromTs.height + 1)
        maxHeight := max s.maxHeight toTs.height }
    | _ => none
  | .revert fromTs toTs =>
    match s.loop with
    | .idle => some { s with events := s.events.updateHead toTs, loop := .reverting fromTs toTs fromTs.height }
    | _ => none
  | .tick =>
    match s.loop with
    | .idle => none
    | .applying fromTs toTs h =>
      if h ≤ toTs.height then
        some { s with handlers := s.applyAt toTs h, loop := .applying fromTs toTs (h + 1) }
      else some { s with loop := .idle }
    | .reverting fromTs toTs h =>
      if h > toTs.height then
        some { s with handlers := s.revertAt fromTs toTs h, loop := .reverting fromTs toTs (h - 1) }
      else some { s with loop := .idle }

/-- Notifications follow a path of the tree and revert at most `gcConfidence` epochs. -/
def Path (T : TipSetTree) (s : Machine) : Label → Prop
  | .apply fromTs toTs => fromTs = s.events.head ∧ T.mem toTs ∧ T.parent toTs = some fromTs
  | .revert fromTs toTs => fromTs = s.events.head ∧ T.parent fromTs = some toTs ∧
      s.maxHeight - s.events.gcConfidence ≤ toTs.height
  | _ => True

/-- No confidence is negative, no height overflows, and where garbage is collected at most `gcConfidence` null rounds are
skipped. -/
def Sane (s : Machine) : Label → Prop
  | .chainAt _ h confidence => 0 ≤ confidence ∧ -2 ^ 63 ≤ h ∧ h + s.events.gcConfidence < 2 ^ 63
  | .apply fromTs toTs => s.events.gcDue toTs = true → toTs.height - fromTs.height ≤ s.events.gcConfidence + 1
  | _ => True

end HeightEvents
end Lotus.Events
