/-
# `walkChain` as the marking of a compaction runs it (`blockstore/splitstore/splitstore_compact.go`).

The headers of a level are handed out to workers, who share the mark set, the headers walked in this level and those of the
next. A worker is a stack of tasks, and each access to something shared is one step.
-/
import Lotus.Lib.Lts
import Lotus.Lib.Workers
import Lotus.Splitstore.Objects

namespace Lotus.Splitstore
open Lib.Lts Lib.Workers

structure Bounds where
  inclState : Int
  inclMsgs : Int
  numCPU : Nat

inductive Task (δ η : Type) where
  | block (c : Cid δ η)
  /-- `walkBlock` before `f`. -/
  | visit (c : Cid δ η)
  /-- `walkBlock` before it reads the header. -/
  | header (c : Cid δ η)
  /-- `walkObject`, or `walkObjectIncomplete`. -/
  | object (incomplete : Bool) (c : Cid δ η)
  /-- `walkObject` before it reads the links. -/
  | scan (incomplete : Bool) (c : Cid δ η)
  /-- `walkBlock` before it hands on the parents. -/
  | parents (cs : List (Cid δ η))
deriving DecidableEq

structure Marking (δ η : Type) where
  marks : Finset (Multihash δ η)
  walked : Finset (Cid δ η)
  toWalk : List (Cid δ η)

variable {δ η : Type} [DecidableEq δ] [DecidableEq η] (g : Objects δ η) (b : Bounds)

/-- The visitor `f` of `doCompact`; nothing where it says `errStopWalk`. -/
def Marking.visit (m : Marking δ η) (c : Cid δ η) : Option (Marking δ η) :=
  if c.isUnitaryObject ∨ c.hash ∈ m.marks then none else some { m with marks := insert c.hash m.marks }

/-- `walkBlock` behind the reading of the header. -/
def Bounds.tasks (b : Bounds) (hdr : BlockHeader δ η) : List (Task δ η) :=
  (if hdr.height ≥ b.inclMsgs ∧ hdr.height > 0 then
    -- messages and receipts may be missing early on
    [.object (b.inclMsgs < b.inclState) hdr.messages, .object (b.inclMsgs < b.inclState) hdr.parentMessageReceipts]
  else []) ++
  (if hdr.height ≥ b.inclState ∨ hdr.height = 0 then [.object false hdr.parentStateRoot] else []) ++
  (if hdr.height > 0 then [.parents hdr.parents] else [])

/-- One step of a task: what is shared, and what is to do next; nothing on an error. -/
def exec (m : Marking δ η) (t : Task δ η) : Option (Marking δ η × List (Task δ η)) :=
  match t with
  | .block c =>
    if c.isUnitaryObject ∨ c ∈ m.walked then some (m, []) else some ({ m with walked := insert c m.walked }, [.visit c])
  -- here `errStopWalk` is an error like any other
  | .visit c => (m.visit c).map fun m => (m, [.header c])
  | .header c => (g.header c).map fun hdr => (m, b.tasks hdr)
  | .object incomplete c =>
    if incomplete ∧ c.codec = .dagCBOR ∧ ¬ g.has c then some (m, [])
    else
      match m.visit c with
      | none => some (m, [])
      | some m => some (m, if c.codec = .dagCBOR then [.scan incomplete c] else [])
  | .scan incomplete c => (g.links c).map fun links => (m, links.map (.object incomplete))
  | .parents cs => some ({ m with toWalk := m.toWalk ++ cs }, [])

/-- A walk: what the workers share, the headers left, the stacks, and whether a worker had an error. -/
structure Walk (δ η : Type) extends Marking δ η where
  workch : List (Cid δ η)
  workers : List (List (Task δ η))
  failed : Bool

namespace Walk

def start (ts : List (Cid δ η)) : Walk δ η := ⟨⟨∅, ∅, ts⟩, [], [], false⟩

inductive Label where
  | work (i : Nat)
  | level
deriving DecidableEq

def workersFor (numCPU n : Nat) : Nat := max 2 (min n (numCPU / 2))

def work (w : Walk δ η) (i : Nat) (stack : List (Task δ η)) : Option (Walk δ η) :=
  match stack with
  | [] =>
    match w.workch with
    | [] => none
    | c :: cs => some { w with workch := cs, workers := w.workers.set i [.block c] }
  | t :: rest =>
    match exec g b w.toMarking t with
    | none => some { w with workers := w.workers.set i [], failed := true }
    | some (m, added) => some { w with toMarking := m, workers := w.workers.set i (added ++ rest) }

def Idle (w : Walk δ η) : Prop := w.workch = [] ∧ ∀ stack ∈ w.workers, stack = []

instance decidableIdle (w : Walk δ η) : Decidable w.Idle := inferInstanceAs (Decidable (_ ∧ _))

def step (w : Walk δ η) (a : Label) : Option (Walk δ η) :=
  match a with
  | .work i => (w.workers[i]?).bind (w.work g b i)
  | .level =>
    if w.Idle ∧ w.failed = false ∧ w.toWalk ≠ [] then
      some { w with
        walked := ∅, toWalk := [], workch := w.toWalk,
        workers := List.replicate (workersFor b.numCPU w.toWalk.length) [] }
    else none

/-- `walkChain` has returned nil. -/
def Succeeded (w : Walk δ η) : Prop := w.Idle ∧ w.failed = false ∧ w.toWalk = []

instance decidableSucceeded (w : Walk δ η) : Decidable w.Succeeded := inferInstanceAs (Decidable (_ ∧ _ ∧ _))

end Walk

/-! ## What is to be marked -/

def Bounds.roots (b : Bounds) (hdr : BlockHeader δ η) : List (Cid δ η) :=
  (if hdr.height ≥ b.inclMsgs ∧ hdr.height > 0 then [hdr.messages, hdr.parentMessageReceipts] else []) ++
  (if hdr.height ≥ b.inclState ∨ hdr.height = 0 then [hdr.parentStateRoot] else [])

section
variable (ts : List (Cid δ η)) (through : Cid δ η → Prop)

inductive Chain : Cid δ η → Prop where
  | tip {c : Cid δ η} (hc : c ∈ ts) : Chain c
  | parent {c p : Cid δ η} {hdr : BlockHeader δ η} (hc : Chain c) (hthrough : through c) (hhdr : g.header c = some hdr)
      (hheight : hdr.height > 0) (hp : p ∈ hdr.parents) : Chain p

/-- What is reached by dag-cbor links from the retained roots. -/
inductive Reached : Cid δ η → Prop where
  | root {c r : Cid δ η} {hdr : BlockHeader δ η} (hc : Chain g ts through c) (hthrough : through c)
      (hhdr : g.header c = some hdr) (hr : r ∈ b.roots hdr) : Reached r
  | link {c l : Cid δ η} {links : List (Cid δ η)} (hc : Reached c) (hthrough : through c) (hcodec : c.codec = .dagCBOR)
      (hlinks : g.links c = some links) (hl : l ∈ links) : Reached l

/-- The objects of the stores that are to be marked. -/
def Retained (c : Cid δ η) : Prop :=
  (Chain g ts through c ∨ Reached g b ts through c) ∧ c.isUnitaryObject = false ∧ g.view c ≠ none
end

/-- Everything but a commitment is gone through. -/
def Whole (c : Cid δ η) : Prop := c.isCommitment = false

/-- Inline blocks are not gone through either. -/
def Direct (c : Cid δ η) : Prop := c.isUnitaryObject = false

/-- A hash reached as dag-cbor is not reached otherwise, and is no header's. -/
structure Consistent (ts : List (Cid δ η)) : Prop where
  codec : ∀ c c', Reached g b ts Direct c → Reached g b ts Direct c' → Direct c → Direct c' → c.hash = c'.hash →
    c.codec = .dagCBOR → c'.codec = .dagCBOR
  header : ∀ c c', Reached g b ts Direct c → Chain g ts Direct c' → Direct c → Direct c' → c.codec = .dagCBOR →
    c.hash ≠ c'.hash

end Lotus.Splitstore
