/-
# CIDs and the objects in the stores (`blockstore/splitstore/splitstore_util.go`, `view`, `has`).

A CID is a codec and a multihash; with the identity code that is the data itself. The stores and the mark set know
multihashes only.
-/
import Mathlib.Data.Finset.Insert

namespace Lotus.Splitstore

/-- The codec of a CID, as far as it is looked at. -/
inductive Codec where
  | dagCBOR
  | filCommitmentSealed
  | filCommitmentUnsealed
  | other (code : Nat)
deriving DecidableEq

inductive Multihash (δ η : Type) where
  | identity (data : δ)
  | digest (hash : η)
deriving DecidableEq

structure Cid (δ η : Type) where
  codec : Codec
  hash : Multihash δ η
deriving DecidableEq

namespace Cid
variable {δ η : Type} (c : Cid δ η)

/-- `isIdentiyCid`. -/
def isIdentityCid : Bool :=
  match c.hash with
  | .identity _ => true
  | .digest _ => false

def isCommitment : Bool :=
  match c.codec with
  | .filCommitmentSealed => true
  | .filCommitmentUnsealed => true
  | _ => false

def isUnitaryObject : Bool := c.isCommitment || c.isIdentityCid

end Cid

structure BlockHeader (δ η : Type) where
  height : Int
  messages : Cid δ η
  parentMessageReceipts : Cid δ η
  parentStateRoot : Cid δ η
  parents : List (Cid δ η)

/-- The stores and the readers of their blocks; a reader may fail. -/
structure Objects (δ η : Type) where
  hot : η → Option δ
  cold : η → Option δ
  scanForLinks : δ → Option (List (Cid δ η))
  unmarshalHeader : δ → Option (BlockHeader δ η)

namespace Objects
variable {δ η : Type} (g : Objects δ η) (c : Cid δ η)

def view : Option δ :=
  match c.hash with
  | .identity data => some data
  | .digest hash => (g.hot hash).or (g.cold hash)

def has : Bool :=
  match c.hash with
  | .identity _ => true
  | .digest hash => (g.hot hash).isSome || (g.cold hash).isSome

def links : Option (List (Cid δ η)) := (g.view c).bind g.scanForLinks

def header : Option (BlockHeader δ η) := (g.view c).bind g.unmarshalHeader

theorem has_eq (c : Cid δ η) : g.has c = (g.view c).isSome := by
  unfold has view
  cases c.hash with
  | identity data => rfl
  | digest hash => exact Option.isSome_or.symm

theorem view_congr {c c' : Cid δ η} (h : c.hash = c'.hash) : g.view c = g.view c' := by
  unfold view
  rw [h]

theorem links_congr {c c' : Cid δ η} (h : c.hash = c'.hash) : g.links c = g.links c' := by
  unfold links
  rw [g.view_congr h]

end Objects
end Lotus.Splitstore
