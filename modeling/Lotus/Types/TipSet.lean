/-
# Block headers, tickets and tipsets (`chain/types/tipset.go`).

A tipset is a nonempty list of block headers in canonical order: by the blake2b-256 digest of the ticket, and by CID where two
tickets are the same. A header's CID is carried as a field.
-/
import Lotus.Types.Basic

namespace Lotus

/-- `blake2b.Sum256`, third-party. -/
class Blake2b where
  sum256 : Bytes → Bytes

structure Ticket where
  vrfProof : Bytes
  deriving DecidableEq

def Ticket.equals (t ot : Ticket) : Bool := t.vrfProof == ot.vrfProof

/-- `Ticket.Less`: the digests are compared bytewise, not the proofs. -/
def Ticket.less [Blake2b] (t o : Ticket) : Bool :=
  decide (Blake2b.sum256 t.vrfProof < Blake2b.sum256 o.vrfProof)

/-- The fields of `types.BlockHeader` that are read; `ticket` can be nil. -/
structure BlockHeader where
  cid : Cid
  miner : Address
  ticket : Option Ticket
  parents : List Cid
  height : Int
  messages : Cid
  deriving DecidableEq

/-- `types.TipSetKey`: the CIDs of a tipset, in the given order. -/
abbrev TipSetKey := List Cid

/-- `types.TipSet`. Every value went through `NewTipSet`: there is a block, and blocks that had to be sorted have tickets.
-/
structure TipSet where
  blks : List BlockHeader
  ne : blks ≠ []
  tickets : 2 ≤ blks.length → ∀ b ∈ blks, b.ticket.isSome
  deriving DecidableEq

def soloTipSet (cid : Bytes) (height : Int) (parents : TipSetKey) : TipSet where
  blks := [⟨⟨cid⟩, .id 0, some ⟨cid⟩, parents, height, ⟨[]⟩⟩]
  ne := by simp
  tickets := by simp

namespace TipSet

section
variable (ts : TipSet)

def first : BlockHeader := ts.blks.head ts.ne

def cids : List Cid := ts.blks.map (·.cid)

def key : TipSetKey := ts.cids

def height : Int := ts.first.height

def parents : TipSetKey := ts.first.parents
end

def equals (ts ots : TipSet) : Bool := ts.height == ots.height && ts.cids == ots.cids

/-- `TipSet.Equals` where the argument may be nil. -/
def equalsOpt (ts : TipSet) : Option TipSet → Bool
  | none => false
  | some ots => ts.equals ots

theorem equals_self (ts : TipSet) : ts.equals ts = true := by
  simp [equals]

theorem equals_iff {ts ots : TipSet} : ts.equals ots = true ↔ ts.height = ots.height ∧ ts.cids = ots.cids := by
  simp [equals]

theorem equals_comm (ts ots : TipSet) : ts.equals ots = ots.equals ts := by
  rw [Bool.eq_iff_iff, equals_iff, equals_iff]
  exact ⟨fun h => ⟨h.1.symm, h.2.symm⟩, fun h => ⟨h.1.symm, h.2.symm⟩⟩

end TipSet

/-- `types.CidArrsEqual`: equal lengths, and every element of `b` occurs in `a`. -/
def cidArrsEqual (a b : List Cid) : Bool :=
  a.length == b.length && b.all (fun c => a.contains c)

def TipSet.isChildOf (ts parent : TipSet) : Bool :=
  cidArrsEqual ts.parents parent.cids && decide (ts.height > parent.height)

/-! ## Canonical order and `NewTipSet` -/

section
variable [Blake2b]

/-- The comparison of `tipsetSortFunc`. A nil ticket would be dereferenced; `newTipSet` reports it first. -/
def BlockHeader.before (a b : BlockHeader) : Bool :=
  match a.ticket, b.ticket with
  | some ti, some tj => if ti.equals tj then decide (a.cid.str < b.cid.str) else ti.less tj
  | _, _ => false

/-- `a` may stand before `b` in a slice sorted by `before`. -/
def BlockHeader.le (a b : BlockHeader) : Prop := b.before a = false

instance : DecidableRel BlockHeader.le := fun a b => inferInstanceAs (Decidable (b.before a = false))

def sortBlocks (blks : List BlockHeader) : List BlockHeader := blks.insertionSort BlockHeader.le

theorem sortBlocks_perm (blks : List BlockHeader) : (sortBlocks blks).Perm blks :=
  List.perm_insertionSort _ _

variable {blks : List BlockHeader}

theorem sortBlocks_ne_nil (h : blks ≠ []) : sortBlocks blks ≠ [] := by
  intro hn
  have hpe := sortBlocks_perm blks
  rw [hn] at hpe
  exact h hpe.nil_eq.symm

def checkBlocks (b0 : BlockHeader) : List BlockHeader → Except GoError Unit
  | [] => .ok ()
  | b :: rest =>
    if b.height ≠ b0.height then
      .error (.errorf "cannot create tipset with mismatching heights")
    else if b0.parents.length ≠ b.parents.length then
      .error (.errorf "cannot create tipset with mismatching number of parents")
    else if b.parents ≠ b0.parents then
      .error (.errorf "cannot create tipset with mismatching parents")
    else checkBlocks b0 rest

omit [Blake2b] in
theorem checkBlocks_ok_iff {b0 : BlockHeader} :
    checkBlocks b0 blks = .ok () ↔ ∀ b ∈ blks, b.height = b0.height ∧ b.parents = b0.parents := by
  induction blks with
  | nil => simp [checkBlocks]
  | cons b rest ih =>
    rw [List.forall_mem_cons, ← ih]
    by_cases hheight : b.height = b0.height
    · by_cases hpa : b.parents = b0.parents
      · simp [checkBlocks, hheight, hpa]
      · by_cases hlen : b0.parents.length = b.parents.length <;> simp [checkBlocks, hheight, hpa, hlen]
    · simp [checkBlocks, hheight]

/-- `sort.Slice` of two or more compares every element, and dereferences the tickets. -/
def TicketsPresent (blks : List BlockHeader) : Prop :=
  2 ≤ blks.length → ∀ b ∈ blks, b.ticket.isSome

instance (blks : List BlockHeader) : Decidable (TicketsPresent blks) :=
  inferInstanceAs (Decidable (_ → _))

theorem sortBlocks_tickets (h : TicketsPresent blks) : TicketsPresent (sortBlocks blks) := by
  intro hlen b hb
  rw [(sortBlocks_perm blks).length_eq] at hlen
  exact h hlen b ((sortBlocks_perm blks).mem_iff.mp hb)

def newTipSet (blks : List BlockHeader) : Except GoError TipSet :=
  if hne : blks = [] then
    .error (.errorf "NewTipSet called with zero length array of blocks")
  else if ht : TicketsPresent blks then
    let ts : TipSet := ⟨sortBlocks blks, sortBlocks_ne_nil hne, sortBlocks_tickets ht⟩
    match checkBlocks ts.first ts.blks.tail with
    | .error e => .error e
    | .ok () => .ok ts
  else .error .nilDeref

theorem newTipSet_ok {ts : TipSet} (h : newTipSet blks = .ok ts) :
    blks ≠ [] ∧ TicketsPresent blks ∧ ts.blks = sortBlocks blks ∧ checkBlocks ts.first ts.blks.tail = .ok () := by
  revert h
  fun_cases newTipSet with
  | case3 hne ht ts' hch =>
    intro h
    obtain rfl := Except.ok.inj h
    exact ⟨hne, ht, rfl, hch⟩
  | _ => exact nofun
end
end Lotus
