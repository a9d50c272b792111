/-
# The allocation map of a partly unsealed sector file.

The map is kept in the trailer of the file, and in the handle as it was when the file was opened. `MarkAllocated` and `Free`
compute the new trailer from the handle's map and do not change that, so a handle forgets each operation at the next one.
-/
import Lotus.Types.Basic
import Mathlib.Data.Finset.Powerset
import Mathlib.Order.Interval.Finset.Nat
import Mathlib.Order.Lattice.Nat

namespace Lotus.Sealer
open List

/-- `rlepluslazy.EncodeRuns`, and `rlepluslazy.FromBuf` with its run iterator: a bit field is the set of its ones. -/
structure Rle where
  encodeRuns : Finset Nat → Bytes
  fromBuf : Bytes → Option (Finset Nat)

/-- What is encoded for a sector is decoded. -/
def Rle.Decodes (rle : Rle) (maxPieceSize : Nat) : Prop :=
  ∀ r ⊆ Finset.range maxPieceSize, rle.fromBuf (rle.encodeRuns r) = some r

def littleEndian : Nat → Nat → Bytes
  | 0, _ => []
  | n + 1, x => Fin.ofNat 256 x :: littleEndian n (x / 256)

def fromLittleEndian : Bytes → Nat
  | [] => 0
  | b :: bs => b.val + 256 * fromLittleEndian bs

theorem length_littleEndian (n x : Nat) : (littleEndian n x).length = n := by
  induction n generalizing x with
  | zero => rfl
  | succ n ih => simp [littleEndian, ih]

theorem fromLittleEndian_littleEndian {n x : Nat} (h : x < 256 ^ n) : fromLittleEndian (littleEndian n x) = x := by
  induction n generalizing x with
  | zero =>
    show 0 = x
    omega
  | succ n ih =>
    have hd : x / 256 < 256 ^ n := Nat.div_lt_of_lt_mul (by rwa [Nat.pow_succ'] at h)
    show x % 256 + 256 * fromLittleEndian (littleEndian n (x / 256)) = x
    rw [ih hd]
    omega

def pieceRun (offset size : Nat) : Finset Nat := Finset.Ico offset (offset + size)

/-- `UnpaddedPieceSize.Padded`, also of an index. -/
def padded (n : Nat) : Nat := n + n / 127

structure PartialFile where
  maxPiece : Nat
  allocated : Finset Nat
  file : Bytes
  deriving DecidableEq

variable (rle : Rle)

def writeTrailer (maxPieceSize : Nat) (file : Bytes) (r : Finset Nat) : Bytes :=
  file.take maxPieceSize ++ (rle.encodeRuns r ++ littleEndian 4 ((rle.encodeRuns r).length % 2 ^ 32))

def openPartialFile (maxPieceSize : Nat) (file : Bytes) : Option PartialFile :=
  let trailerLen := fromLittleEndian (file.drop (file.length - 4))
  if file.length < maxPieceSize ∨ file.length < 4 ∨ trailerLen + 4 + maxPieceSize ≠ file.length then none
  else (rle.fromBuf ((file.drop maxPieceSize).take trailerLen)).bind fun r =>
    if ∃ b ∈ r, maxPieceSize ≤ b then none else some ⟨maxPieceSize, r, file⟩

/-- The operations on an open file. `Free` asks for a hole in the file without `FALLOC_FL_KEEP_SIZE`; the kernel refuses that,
`fsutil.Deallocate` ignores the refusal, and the data stays. -/
inductive Op where
  | markAllocated (offset size : Nat)
  | free (offset size : Nat)

def Op.run : Op → Finset Nat
  | .markAllocated offset size | .free offset size => pieceRun offset size

def Op.apply (r : Finset Nat) : Op → Finset Nat
  | .markAllocated offset size => r ∪ pieceRun offset size
  | .free offset size => r \ pieceRun offset size

def Op.Within (maxPieceSize : Nat) : Op → Prop
  | .markAllocated offset size | .free offset size => offset + size ≤ maxPieceSize

/-- What is called on an open handle. -/
inductive Call where
  | op (op : Op)
  | hasAllocated (offset size : Nat)
  | allocated

inductive Answer where
  | has (all : Bool)
  | runs (r : Finset Nat)
  deriving DecidableEq

namespace PartialFile

/-- `MarkAllocated` and `Free`. -/
def perform (pf : PartialFile) (op : Op) : PartialFile :=
  { pf with file := writeTrailer rle pf.maxPiece pf.file (op.apply pf.allocated) }

def hasAllocated (pf : PartialFile) (offset size : Nat) : Bool :=
  (pf.allocated ∩ pieceRun (padded offset) (padded size)).card = padded size

def call (pf : PartialFile) : Call → PartialFile × List Answer
  | .op op => (pf.perform rle op, [])
  | .hasAllocated offset size => (pf, [.has (pf.hasAllocated offset size)])
  | .allocated => (pf, [.runs pf.allocated])

/-- The handle after all calls, with the answers. -/
def calls (pf : PartialFile) : List Call → PartialFile × List Answer
  | [] => (pf, [])
  | c :: cs => ((calls (pf.call rle c).1 cs).1, (pf.call rle c).2 ++ (calls (pf.call rle c).1 cs).2)

variable {rle} {maxPieceSize : Nat} {file : Bytes} {pf : PartialFile} {r : Finset Nat}

theorem hasAllocated_iff (offset size : Nat) :
    pf.hasAllocated offset size = true ↔ pieceRun (padded offset) (padded size) ⊆ pf.allocated := by
  have hca : (pieceRun (padded offset) (padded size)).card = padded size := by simp [pieceRun]
  rw [hasAllocated, decide_eq_true_iff, ← Finset.inter_eq_right]
  constructor
  · intro h
    exact Finset.eq_of_subset_of_card_le Finset.inter_subset_right (by rw [h, hca])
  · intro h
    rw [h, hca]

theorem open_eq_some (ho : openPartialFile rle maxPieceSize file = some pf) :
    ∃ r, maxPieceSize ≤ file.length ∧ r ⊆ Finset.range maxPieceSize ∧ pf = ⟨maxPieceSize, r, file⟩ := by
  unfold openPartialFile at ho
  dsimp only at ho
  split_ifs at ho with hba
  obtain ⟨r, -, hr⟩ := Option.bind_eq_some_iff.mp ho
  split_ifs at hr with hno
  cases hr
  refine ⟨r, not_lt.mp fun hlt => hba (.inl hlt), fun b hb => Finset.mem_range.mpr ?_, rfl⟩
  exact not_le.mp fun hle => hno ⟨b, hb, hle⟩

theorem open_writeTrailer_eq (hrl : rle.fromBuf (rle.encodeRuns r) = some r) (hlo : maxPieceSize ≤ file.length)
    (hsh : (rle.encodeRuns r).length < 2 ^ 32) :
    openPartialFile rle maxPieceSize (writeTrailer rle maxPieceSize file r) =
      if ∃ b ∈ r, maxPieceSize ≤ b then none else some ⟨maxPieceSize, r, writeTrailer rle maxPieceSize file r⟩ := by
  have hta : (file.take maxPieceSize).length = maxPieceSize := length_take_of_le hlo
  have hlen : (writeTrailer rle maxPieceSize file r).length = maxPieceSize + ((rle.encodeRuns r).length + 4) := by
    simp [writeTrailer, length_littleEndian, hta]
  have hd : (writeTrailer rle maxPieceSize file r).drop maxPieceSize =
      rle.encodeRuns r ++ littleEndian 4 ((rle.encodeRuns r).length % 2 ^ 32) := drop_left' hta
  have htail : (writeTrailer rle maxPieceSize file r).drop ((writeTrailer rle maxPieceSize file r).length - 4) =
      littleEndian 4 ((rle.encodeRuns r).length % 2 ^ 32) := by
    rw [hlen, show maxPieceSize + ((rle.encodeRuns r).length + 4) - 4 = maxPieceSize + (rle.encodeRuns r).length by omega,
      ← drop_drop, hd, drop_left]
  have htr : fromLittleEndian (littleEndian 4 ((rle.encodeRuns r).length % 2 ^ 32)) = (rle.encodeRuns r).length := by
    rw [Nat.mod_eq_of_lt hsh]
    exact fromLittleEndian_littleEndian hsh
  unfold openPartialFile
  simp only [htail, htr, hd, take_left, hrl, Option.bind_some]
  rw [if_neg]
  omega

theorem open_writeTrailer (hrl : rle.Decodes maxPieceSize) (hlo : maxPieceSize ≤ file.length)
    (hin : r ⊆ Finset.range maxPieceSize) (hsh : (rle.encodeRuns r).length < 2 ^ 32) :
    openPartialFile rle maxPieceSize (writeTrailer rle maxPieceSize file r) =
      some ⟨maxPieceSize, r, writeTrailer rle maxPieceSize file r⟩ := by
  rw [open_writeTrailer_eq (hrl r hin) hlo hsh, if_neg]
  rintro ⟨b, hb, hle⟩
  exact absurd (Finset.mem_range.mp (hin hb)) (not_lt.mpr hle)

theorem getElem?_writeTrailer {i : Nat} (hi : i < maxPieceSize) (hlo : maxPieceSize ≤ file.length) :
    (writeTrailer rle maxPieceSize file r)[i]? = file[i]? := by
  have hta : i < (file.take maxPieceSize).length := by
    rw [length_take]
    omega
  rw [writeTrailer, List.getElem?_append_left hta, List.getElem?_take_of_lt hi]

theorem Op.apply_within {op : Op} (hop : op.Within maxPieceSize) (hr : r ⊆ Finset.range maxPieceSize) :
    op.apply r ⊆ Finset.range maxPieceSize := by
  cases op with
  | markAllocated offset size =>
    refine Finset.union_subset hr fun b hb => Finset.mem_range.mpr ?_
    exact (Finset.mem_Ico.mp hb).2.trans_le hop
  | free offset size => exact Finset.sdiff_subset.trans hr

/-! ## What a handle should keep -/

section
variable (r₀ : Finset Nat)

/-- A map with a call applied, and what the call should answer by the map. -/
def fold (r : Finset Nat) : Call → Finset Nat × List Answer
  | .op op => (op.apply r, [])
  | .hasAllocated offset size => (r, [.has (decide (pieceRun (padded offset) (padded size) ⊆ r))])
  | .allocated => (r, [.runs r])

def folds (r : Finset Nat) : List Call → Finset Nat × List Answer
  | [] => (r, [])
  | c :: cs => ((folds (fold r c).1 cs).1, (fold r c).2 ++ (folds (fold r c).1 cs).2)

def Call.isOp : Call → Bool
  | .op _ => true
  | _ => false

/-- What was done before the last operation makes no difference outside its range. -/
def LastKeeps : Finset Nat → List Call → Prop
  | _, [] => True
  | r, .op op :: cs => if cs.any Call.isOp then LastKeeps (op.apply r) cs else r \ op.run = r₀ \ op.run
  | r, _ :: cs => LastKeeps r cs

/-- What was done before a query makes no difference to it. -/
def QueriesKeep : Finset Nat → List Call → Prop
  | _, [] => True
  | r, .op op :: cs => QueriesKeep (op.apply r) cs
  | r, .hasAllocated offset size :: cs =>
    (pieceRun (padded offset) (padded size) ⊆ r ↔ pieceRun (padded offset) (padded size) ⊆ r₀) ∧ QueriesKeep r cs
  | r, .allocated :: cs => r = r₀ ∧ QueriesKeep r cs

/-- The map that the trailer holds after the calls, where it held `t`. -/
def trailer (t : Finset Nat) : List Call → Finset Nat
  | [] => t
  | .op op :: cs => trailer (op.apply r₀) cs
  | _ :: cs => trailer t cs
end

variable {r₀ t : Finset Nat}

theorem Op.apply_eq_iff (op : Op) : op.apply r₀ = op.apply r ↔ r \ op.run = r₀ \ op.run := by
  cases op with
  | markAllocated offset size =>
    simp only [Op.apply, Op.run]
    constructor
    · intro h
      rw [← Finset.union_sdiff_right r, ← h, Finset.union_sdiff_right]
    · intro h
      rw [← Finset.sdiff_union_self_eq_union, ← h, Finset.sdiff_union_self_eq_union]
  | free offset size => exact eq_comm

theorem no_op {cs : List Call} (h : cs.any Call.isOp = false) : trailer r₀ t cs = t ∧ (folds r cs).1 = r ∧ LastKeeps r₀ r cs := by
  induction cs with
  | nil => exact ⟨rfl, rfl, trivial⟩
  | cons c cs ih =>
    cases c with
    | op op => cases h
    | _ => exact ih h

/-- The trailer holds the map with all calls applied exactly if the last operation finds what the others left. -/
theorem trailer_eq_iff {cs : List Call} (ht : cs.any Call.isOp = false → t = r) :
    trailer r₀ t cs = (folds r cs).1 ↔ LastKeeps r₀ r cs := by
  induction cs generalizing r t with
  | nil => exact iff_of_true (ht rfl) trivial
  | cons c cs ih =>
    cases c with
    | op op =>
      show trailer r₀ (op.apply r₀) cs = (folds (op.apply r) cs).1 ↔ LastKeeps r₀ r (.op op :: cs)
      rw [LastKeeps]
      split_ifs with hany
      · exact ih fun hno => absurd hany (by rw [hno]; exact Bool.false_ne_true)
      · rw [Bool.not_eq_true] at hany
        rw [(@no_op (op.apply r) r₀ _ cs hany).1, (@no_op _ r₀ t cs hany).2.1]
        exact Op.apply_eq_iff op
    | _ => exact ih ht

/-- The file opens exactly with the map `t`, if that is within the sector. -/
def Holds (rle : Rle) (maxPieceSize : Nat) (file : Bytes) (t : Finset Nat) : Prop :=
  maxPieceSize ≤ file.length ∧ ∀ r, (∃ pf, openPartialFile rle maxPieceSize file = some pf ∧ pf.allocated = r) ↔
    t = r ∧ r ⊆ Finset.range maxPieceSize

theorem holds_open (ho : openPartialFile rle maxPieceSize file = some pf) : Holds rle maxPieceSize file pf.allocated := by
  obtain ⟨r, hlo, hin, rfl⟩ := open_eq_some ho
  refine ⟨hlo, fun r' => ⟨?_, fun h => ⟨_, ho, h.1⟩⟩⟩
  rintro ⟨pf', hpf', rfl⟩
  cases ho.symm.trans hpf'
  exact ⟨rfl, hin⟩

theorem holds_writeTrailer (hrle : ∀ n, rle.Decodes n) (hlo : maxPieceSize ≤ file.length)
    (hsh : (rle.encodeRuns r).length < 2 ^ 32) : Holds rle maxPieceSize (writeTrailer rle maxPieceSize file r) r := by
  obtain ⟨n, hn⟩ := Finset.exists_nat_subset_range r
  have hop := @open_writeTrailer_eq rle maxPieceSize file r (hrle n r hn) hlo hsh
  have hlen : maxPieceSize ≤ (writeTrailer rle maxPieceSize file r).length := by
    rw [writeTrailer, length_append, length_take_of_le hlo]
    omega
  refine ⟨hlen, fun r' => ?_⟩
  rw [hop]
  split_ifs with hout
  · refine iff_of_false (by simp) ?_
    rintro ⟨rfl, hin⟩
    obtain ⟨b, hb, hle⟩ := hout
    exact absurd (Finset.mem_range.mp (hin hb)) (not_lt.mpr hle)
  · have hin : r ⊆ Finset.range maxPieceSize := fun b hb => Finset.mem_range.mpr (not_le.mp fun hle => hout ⟨b, hb, hle⟩)
    constructor
    · rintro ⟨_, ⟨⟩, rfl⟩
      exact ⟨rfl, hin⟩
    · rintro ⟨rfl, -⟩
      exact ⟨_, rfl, rfl⟩

/-- The handle keeps its map, the file the data, and the trailer what the last operation made of the handle's map. -/
theorem calls_spec (hrle : ∀ n, rle.Decodes n) {cs : List Call} (hlo : Holds rle pf.maxPiece pf.file t)
    (hsh : ∀ op, .op op ∈ cs → (rle.encodeRuns (op.apply pf.allocated)).length < 2 ^ 32) :
    Holds rle pf.maxPiece (pf.calls rle cs).1.file (trailer pf.allocated t cs) ∧
      ∀ i < pf.maxPiece, (pf.calls rle cs).1.file[i]? = pf.file[i]? := by
  induction cs generalizing pf t with
  | nil => exact ⟨hlo, fun _ _ => rfl⟩
  | cons c cs ih =>
    have htail := fun op hop => hsh op (mem_cons_of_mem c hop)
    cases c with
    | op op =>
      obtain ⟨hholds, hdata⟩ := @ih (pf.perform rle op) (op.apply pf.allocated)
        (holds_writeTrailer hrle hlo.1 (hsh op mem_cons_self)) htail
      exact ⟨hholds, fun i hi => (hdata i hi).trans (getElem?_writeTrailer hi hlo.1)⟩
    | _ => exact ih hlo htail

theorem answers_eq_iff {cs : List Call} : (pf.calls rle cs).2 = (folds r cs).2 ↔ QueriesKeep pf.allocated r cs := by
  induction cs generalizing pf r with
  | nil => exact iff_of_true rfl trivial
  | cons c cs ih =>
    cases c with
    | op op => exact @ih (pf.perform rle op) (op.apply r)
    | hasAllocated offset size =>
      show Answer.has _ :: _ = Answer.has _ :: _ ↔ _ ∧ _
      rw [List.cons.injEq, Answer.has.injEq, Bool.eq_iff_iff, hasAllocated_iff, decide_eq_true_iff]
      exact and_congr iff_comm ih
    | allocated =>
      show Answer.runs _ :: _ = Answer.runs _ :: _ ↔ _ ∧ _
      rw [List.cons.injEq, Answer.runs.injEq]
      exact and_congr eq_comm ih

/-- **The allocation map over the calls on a handle.** No byte of the data changes. The file, opened again, has the map with
all operations applied, and every query answered by the map so far, exactly if the map stays within the sector, what was done
before the last operation makes no difference outside its range, and what was done before a query makes none to it. -/
theorem allocation_map (rle : Rle) (maxPieceSize : Nat) (hrle : ∀ n, rle.Decodes n) (file : Bytes) (pf : PartialFile)
    (hopen : openPartialFile rle maxPieceSize file = some pf) (cs : List Call)
    (hshort : ∀ op, .op op ∈ cs → (rle.encodeRuns (op.apply pf.allocated)).length < 2 ^ 32) :
    ((∃ pf', openPartialFile rle maxPieceSize (pf.calls rle cs).1.file = some pf' ∧ pf'.allocated = (folds pf.allocated cs).1) ∧
        (pf.calls rle cs).2 = (folds pf.allocated cs).2 ↔
      (folds pf.allocated cs).1 ⊆ Finset.range maxPieceSize ∧ LastKeeps pf.allocated pf.allocated cs ∧
        QueriesKeep pf.allocated pf.allocated cs) ∧
    ∀ i < maxPieceSize, (pf.calls rle cs).1.file[i]? = file[i]? := by
  have hholds := holds_open hopen
  obtain ⟨r, hlo, hm, rfl⟩ := open_eq_some hopen
  obtain ⟨⟨-, hreopen⟩, hdata⟩ := @calls_spec rle ⟨maxPieceSize, r, file⟩ r hrle cs hholds hshort
  refine ⟨?_, hdata⟩
  rw [hreopen, trailer_eq_iff fun _ => rfl, answers_eq_iff]
  tauto

/-- A bit field as one byte for each bit. -/
def byteMap : Rle where
  encodeRuns r := (List.range (r.sup id + 1)).map fun i => if i ∈ r then 1 else 0
  fromBuf bytes := some ((Finset.range bytes.length).filter fun i => bytes[i]? = some 1)

theorem byteMap_decodes (n : Nat) : byteMap.Decodes n := by
  intro r _
  refine congrArg some (Finset.ext fun i => ?_)
  have hle : i ∈ r → i ≤ r.sup id := Finset.le_sup (f := id)
  by_cases hi : i ∈ r
  · have hlt : i < r.sup id + 1 := by have := hle hi; omega
    simp [byteMap, hi, hlt]
  · simp only [byteMap, Finset.mem_filter, List.getElem?_map]
    grind

def fourBytesFile : Bytes := writeTrailer byteMap 4 [5, 6, 7, 8] {0, 1}

/-- Byte 2 is marked and freed again, with byte 1, by one call; the queries are about bytes 0 and 1. -/
theorem allocation_map_mark :
    let pf : PartialFile := ⟨4, {0, 1}, fourBytesFile⟩
    let cs : List Call := [.allocated, .op (.markAllocated 2 1), .hasAllocated 0 2, .op (.free 1 2), .hasAllocated 0 1]
    openPartialFile byteMap 4 fourBytesFile = some pf ∧ (pf.calls byteMap cs).2 = [.runs {0, 1}, .has true, .has true] ∧
      ∃ pf', openPartialFile byteMap 4 (pf.calls byteMap cs).1.file = some pf' ∧ pf'.allocated = {0} := by
  intro pf cs
  have hopen : openPartialFile byteMap 4 fourBytesFile = some pf := by decide
  have hshort : ∀ op, .op op ∈ cs → (byteMap.encodeRuns (op.apply pf.allocated)).length < 2 ^ 32 := by
    intro op hop
    obtain rfl | rfl : op = .markAllocated 2 1 ∨ op = .free 1 2 := by simpa [cs] using hop
    all_goals decide
  have hlast : LastKeeps pf.allocated pf.allocated cs := by
    simp only [cs, LastKeeps]
    decide
  have hqueries : QueriesKeep pf.allocated pf.allocated cs := by
    simp only [cs, QueriesKeep]
    decide
  have h := (allocation_map byteMap 4 byteMap_decodes fourBytesFile pf hopen cs hshort).1.mpr ⟨by decide, hlast, hqueries⟩
  exact ⟨hopen, h.2, h.1⟩

/-- **Two marks, and only the second is kept**; a freed range that is allocated again; a query that misses a mark. -/
theorem allocation_map_forgets :
    let pf : PartialFile := ⟨4, {0, 1}, fourBytesFile⟩
    openPartialFile byteMap 4 fourBytesFile = some pf ∧
    (∃ pf', openPartialFile byteMap 4 (pf.calls byteMap [.op (.markAllocated 2 1), .op (.markAllocated 3 1)]).1.file = some pf' ∧
      pf'.allocated = {0, 1, 3}) ∧
    (∃ pf', openPartialFile byteMap 4 (pf.calls byteMap [.op (.free 0 1), .op (.free 1 1)]).1.file = some pf' ∧
      pf'.allocated = {0}) ∧
    (pf.calls byteMap [.op (.markAllocated 2 2), .hasAllocated 2 2]).2 = [.has false] := by
  exact ⟨by decide, ⟨_, rfl, by decide⟩, ⟨_, rfl, by decide⟩, by decide⟩

end PartialFile
end Lotus.Sealer
