/-
# What `UnsealPiece` writes into the partial file of a sector.

The missing part of the range is computed as runs, in which close ranges are joined. Every run is unsealed through a pipe,
written at the start of the request, and as much as was requested is read: this works if the only run is the request itself.
-/
import Lotus.Sealer.PartialFile
import Mathlib.Data.Finset.Max

namespace Lotus.Sealer
open List

structure Run where
  val : Bool
  len : Nat
  deriving DecidableEq

def pieceRuns (offset size : Nat) : List Run := if 0 < offset then [⟨false, offset⟩, ⟨true, size⟩] else [⟨true, size⟩]

def unpadded (n : Nat) : Nat := n - n / 128

structure Calls where
  rle : Rle
  /-- `rlepluslazy.JoinClose`, at `mergeGaps`. -/
  joinClose : Finset Nat → List Run
  joinClose_eq_nil : ∀ r, joinClose r = [] ↔ r = ∅
  /-- `fr32.Pad` of a block. -/
  pad : Bytes → Bytes
  length_pad : ∀ block, block.length = 127 → (pad block).length = 128
  /-- `runtime.NumCPU() * fr32.MTTresh`, the bound on the buffer of a copy. -/
  maxBuffer : Nat

/-- A sector, its data before it is padded, and whether that is in an updated replica. -/
structure Sector where
  blocks : Nat
  data : Bytes
  length_data : data.length = 127 * blocks
  updated : Bool

def Sector.maxPieceSize (sector : Sector) : Nat := 128 * sector.blocks

def overwrite (file : Bytes) (offset : Nat) (bytes : Bytes) : Bytes :=
  file.take offset ++ (bytes ++ file.drop (offset + bytes.length))

theorem length_overwrite {file bytes : Bytes} {offset : Nat} (h : offset + bytes.length ≤ file.length) :
    (overwrite file offset bytes).length = file.length := by
  simp only [overwrite, length_append, length_take, length_drop]
  omega

theorem getElem?_overwrite {file : Bytes} {offset : Nat} (h : offset ≤ file.length) (bytes : Bytes) (i : Nat) :
    (overwrite file offset bytes)[i]? =
      if offset ≤ i ∧ i < offset + bytes.length then bytes[i - offset]? else file[i]? := by
  have hta : (file.take offset).length = offset := length_take_of_le h
  rw [overwrite, getElem?_append, getElem?_append, hta]
  split_ifs with hlo hm hin hin
  · omega
  · exact getElem?_take_of_lt hlo
  · rfl
  · omega
  · omega
  rw [getElem?_drop]
  congr 1
  omega

namespace Calls
variable (c : Calls)

/-- What the padding writer writes for `n` blocks. -/
def padBlocks : Nat → Bytes → Bytes
  | 0, _ => []
  | n + 1, data => c.pad (data.take 127) ++ padBlocks n (data.drop 127)

def computeUnsealRanges (unsealed : Finset Nat) (offset size : Nat) : List Run :=
  c.joinClose (pieceRun (padded offset) (padded size) \ unsealed)

/-- What is written of a copy of `size` bytes: all, or the full buffers, if the pipe ends before. -/
def copied (size : Nat) (data : Bytes) : Bytes :=
  if size ≤ data.length then c.padBlocks (size / 127) data
  else
    let bsize := unpadded (min (padded size) c.maxBuffer)
    c.padBlocks (data.length / bsize * bsize / 127) data

/-- The loop over the runs, where `UnsealRange` answers with the data asked for. -/
def unsealRanges (sector : Sector) (offset size : Nat) : List Run → Nat → PartialFile → Except GoError Unit × PartialFile
  | [], _, pf => (.ok (), pf)
  | piece :: toUnseal, pos, pf =>
    if !piece.val then unsealRanges sector offset size toUnseal (pos + piece.len) pf
    else
      let data := (sector.data.drop (unpadded pos)).take (unpadded piece.len)
      let pf := { pf with file := overwrite pf.file (padded offset) (c.copied size data) }
      if data.length < size then (.error (.wrap "piping output to unsealed file" (.wrap "copying data" (.errorf "EOF"))), pf)
      else unsealRanges sector offset size toUnseal (pos + piece.len) (pf.perform c.rle (.markAllocated pos piece.len))

def unsealedFile (sector : Sector) (existing : Option Bytes) : Bytes :=
  existing.getD (writeTrailer c.rle sector.maxPieceSize (replicate sector.maxPieceSize 0) ∅)

def sectorFile (sector : Sector) : Bytes := c.padBlocks sector.blocks sector.data

def unsealPiece (sector : Sector) (existing : Option Bytes) (offset size : Nat) : Except GoError Unit × Bytes :=
  match openPartialFile c.rle sector.maxPieceSize (c.unsealedFile sector existing) with
  | none => (.error (.errorf "opening partial file"), c.unsealedFile sector existing)
  | some pf =>
    let toUnseal := c.computeUnsealRanges pf.allocated offset size
    if toUnseal.isEmpty then (.ok (), pf.file)
    else if sector.updated then
      -- the decoder writes the whole sector
      (.ok (), ({ pf with file := c.sectorFile sector }.perform c.rle (.markAllocated 0 sector.maxPieceSize)).file)
    else
      let (res, pf) := c.unsealRanges sector offset size toUnseal 0 pf
      (res, pf.file)

variable {c} {n i : Nat} {data : Bytes}

theorem length_padBlocks (h : 127 * n ≤ data.length) : (c.padBlocks n data).length = 128 * n := by
  induction n generalizing data with
  | zero => rfl
  | succ n ih =>
    rw [padBlocks, length_append, c.length_pad _ (length_take_of_le (by omega)), ih (by rw [length_drop]; omega)]
    omega

theorem getElem?_padBlocks (h : 127 * n ≤ data.length) (hi : i < 128 * n) :
    (c.padBlocks n data)[i]? = (c.pad ((data.drop (127 * (i / 128))).take 127))[i % 128]? := by
  induction n generalizing data i with
  | zero => omega
  | succ n ih =>
    have hlen : (c.pad (data.take 127)).length = 128 := c.length_pad _ (length_take_of_le (by omega))
    rw [padBlocks, getElem?_append, hlen]
    split_ifs with hlt
    · rw [Nat.div_eq_of_lt hlt, Nat.mod_eq_of_lt hlt]
      rfl
    have hd : i / 128 = (i - 128) / 128 + 1 := by omega
    rw [ih (by rw [length_drop]; omega) (by omega), drop_drop, hd, show (i - 128) % 128 = i % 128 by omega,
      show 127 + 127 * ((i - 128) / 128) = 127 * ((i - 128) / 128 + 1) by omega]

theorem getElem?_padBlocks_range {a b j : Nat} (h : 127 * n ≤ data.length) (hab : a + b ≤ n) (hj : j < 128 * b) :
    (c.padBlocks b ((data.drop (127 * a)).take (127 * b)))[j]? = (c.padBlocks n data)[128 * a + j]? := by
  have hlen : 127 * b ≤ ((data.drop (127 * a)).take (127 * b)).length := by
    rw [length_take, length_drop]
    omega
  rw [getElem?_padBlocks hlen hj, getElem?_padBlocks h (by omega), show (128 * a + j) % 128 = j % 128 by omega,
    show (128 * a + j) / 128 = a + j / 128 by omega, drop_take, take_take, drop_drop,
    show min 127 (127 * b - 127 * (j / 128)) = 127 by omega,
    show 127 * a + 127 * (j / 128) = 127 * (a + j / 128) by omega]

def filled (sector : Sector) (unsealed : Finset Nat) (offset size : Nat) : Finset Nat :=
  if pieceRun (padded offset) (padded size) ⊆ unsealed then unsealed
  else if sector.updated then Finset.range sector.maxPieceSize
  else unsealed ∪ pieceRun (padded offset) (padded size)

variable {sector : Sector}

theorem length_sectorFile : (c.sectorFile sector).length = sector.maxPieceSize :=
  length_padBlocks sector.length_data.ge

theorem reopened (hrl : c.rle.Decodes sector.maxPieceSize) {file : Bytes} (hlo : sector.maxPieceSize ≤ file.length)
    {r : Finset Nat} (hr : r ⊆ Finset.range sector.maxPieceSize) (hsh : (c.rle.encodeRuns r).length < 2 ^ 32)
    (hfi : ∀ i ∈ r, file[i]? = (c.sectorFile sector)[i]?) :
    ∃ pf', openPartialFile c.rle sector.maxPieceSize (writeTrailer c.rle sector.maxPieceSize file r) = some pf' ∧
      pf'.allocated = r ∧ ∀ i ∈ r, pf'.file[i]? = (c.sectorFile sector)[i]? := by
  refine ⟨_, PartialFile.open_writeTrailer hrl hlo hr hsh, rfl, fun i hi => ?_⟩
  exact (PartialFile.getElem?_writeTrailer (Finset.mem_range.mp (hr hi)) hlo).trans (hfi i hi)

@[simp] theorem padded_mul (n : Nat) : padded (127 * n) = 128 * n := by
  unfold padded
  omega

@[simp] theorem unpadded_mul (n : Nat) : unpadded (128 * n) = 127 * n := by
  unfold unpadded
  omega

theorem unsealRanges_pieceRuns {a b : Nat} (hin : a + b ≤ sector.blocks) (pf : PartialFile) :
    c.unsealRanges sector (127 * a) (127 * b) (pieceRuns (128 * a) (128 * b)) 0 pf = (.ok (), { pf with
        file := overwrite pf.file (128 * a) (c.padBlocks b ((sector.data.drop (127 * a)).take (127 * b)))
      }.perform c.rle (.markAllocated (128 * a) (128 * b))) := by
  have hsk : c.unsealRanges sector (127 * a) (127 * b) (pieceRuns (128 * a) (128 * b)) 0 pf =
      c.unsealRanges sector (127 * a) (127 * b) [⟨true, 128 * b⟩] (128 * a) pf := by
    unfold pieceRuns
    split_ifs with hpo
    · rw [unsealRanges, if_pos (by rfl), Nat.zero_add]
    · rw [show 128 * a = 0 by omega]
  have hd := sector.length_data
  have hlen : ((sector.data.drop (127 * a)).take (127 * b)).length = 127 * b := by
    rw [length_take, length_drop]
    omega
  have hco : c.copied (127 * b) ((sector.data.drop (127 * a)).take (127 * b)) =
      c.padBlocks b ((sector.data.drop (127 * a)).take (127 * b)) := by
    rw [copied, if_pos hlen.ge, Nat.mul_div_cancel_left b (by decide)]
  rw [hsk]
  simp only [unsealRanges, unpadded_mul, padded_mul, hlen, hco, lt_irrefl, Bool.not_true, Bool.false_eq_true, if_false]

theorem getElem?_unsealed {file : Bytes} {r : Finset Nat} {a b : Nat} (hab : a + b ≤ sector.blocks)
    (hlo : sector.maxPieceSize ≤ file.length) (hh : ∀ i ∈ r, file[i]? = (c.sectorFile sector)[i]?) :
    let bytes := c.padBlocks b ((sector.data.drop (127 * a)).take (127 * b))
    (overwrite file (128 * a) bytes).length = file.length ∧
      ∀ i ∈ r ∪ pieceRun (128 * a) (128 * b), (overwrite file (128 * a) bytes)[i]? = (c.sectorFile sector)[i]? := by
  intro bytes
  have hd := sector.length_data
  have hlen : bytes.length = 128 * b := by
    refine length_padBlocks ?_
    rw [length_take, length_drop]
    omega
  have hend : 128 * a + 128 * b ≤ file.length := by
    unfold Sector.maxPieceSize at hlo
    omega
  refine ⟨length_overwrite (by omega), fun i hi => ?_⟩
  rw [getElem?_overwrite (by omega), hlen]
  split_ifs with hm
  · rw [getElem?_padBlocks_range hd.ge hab (by omega), sectorFile]
    congr 1
    omega
  · refine hh i ((Finset.mem_union.mp hi).resolve_right fun hrun => hm ?_)
    exact Finset.mem_Ico.mp hrun

/-- **A request fills the missing range.** -/
theorem unseal_fills (c : Calls) (sector : Sector) (hrle : c.rle.Decodes sector.maxPieceSize) (existing : Option Bytes)
    (pf : PartialFile) (hopen : openPartialFile c.rle sector.maxPieceSize (c.unsealedFile sector existing) = some pf)
    (hheld : ∀ i ∈ pf.allocated, pf.file[i]? = (c.sectorFile sector)[i]?) (offset size : Nat) (hoffset : 127 ∣ offset)
    (hsize : 127 ∣ size) (hin : offset + size ≤ sector.data.length)
    (hrange : pieceRun (padded offset) (padded size) ⊆ pf.allocated ∨ sector.updated = true ∨
      c.computeUnsealRanges pf.allocated offset size = pieceRuns (padded offset) (padded size))
    (hshort : (c.rle.encodeRuns (filled sector pf.allocated offset size)).length < 2 ^ 32) :
    (c.unsealPiece sector existing offset size).1 = .ok () ∧
    ∃ pf', openPartialFile c.rle sector.maxPieceSize (c.unsealPiece sector existing offset size).2 = some pf' ∧
      pf'.allocated = filled sector pf.allocated offset size ∧
      (∀ i ∈ pf'.allocated, pf'.file[i]? = (c.sectorFile sector)[i]?) ∧
      ∀ i ∈ pf.allocated, pf'.file[i]? = pf.file[i]? := by
  obtain ⟨a, rfl⟩ := hoffset
  obtain ⟨b, rfl⟩ := hsize
  obtain ⟨r, hlo, hr, rfl⟩ := PartialFile.open_eq_some hopen
  have hd := sector.length_data
  simp only [filled, padded_mul] at hrange hshort ⊢
  -- that the bytes allocated before are the same follows from what they are
  suffices h : (c.unsealPiece sector existing (127 * a) (127 * b)).1 = .ok () ∧
      ∃ pf', openPartialFile c.rle sector.maxPieceSize (c.unsealPiece sector existing (127 * a) (127 * b)).2 = some pf' ∧
        pf'.allocated = _ ∧ ∀ i ∈ pf'.allocated, pf'.file[i]? = (c.sectorFile sector)[i]? by
    obtain ⟨hok, pf', hpf', hm, hbs⟩ := h
    refine ⟨hok, pf', hpf', hm, hbs, fun i hi => (hbs i ?_).trans (hheld i hi).symm⟩
    rw [hm]
    split_ifs
    · exact hi
    · exact hr hi
    · exact Finset.mem_union_left _ hi
  have hempty : (c.computeUnsealRanges r (127 * a) (127 * b)).isEmpty = true ↔ pieceRun (128 * a) (128 * b) ⊆ r := by
    rw [List.isEmpty_iff, computeUnsealRanges, c.joinClose_eq_nil, padded_mul, padded_mul, Finset.sdiff_eq_empty_iff_subset]
  simp only [unsealPiece, hopen]
  by_cases hsu : pieceRun (128 * a) (128 * b) ⊆ r
  · rw [if_pos (hempty.mpr hsu), if_pos hsu]
    exact ⟨rfl, _, hopen, rfl, hheld⟩
  rw [if_neg hsu] at hshort ⊢
  rw [if_neg (mt hempty.mp hsu)]
  by_cases hu : sector.updated = true
  · simp only [if_pos hu] at hshort ⊢
    have ha : r ∪ pieceRun 0 sector.maxPieceSize = Finset.range sector.maxPieceSize := by
      rw [pieceRun, Nat.zero_add, ← Finset.range_eq_Ico, Finset.union_eq_right]
      exact hr
    obtain ⟨pf', hpf', hm, hbs⟩ := reopened hrle length_sectorFile.ge subset_rfl hshort fun _ _ => rfl
    refine ⟨trivial, pf', ?_, hm, hm.symm ▸ hbs⟩
    rw [← ha] at hpf'
    exact hpf'
  simp only [if_neg hu] at hshort ⊢
  have hru := (hrange.resolve_left hsu).resolve_left hu
  have hend : 128 * a + 128 * b ≤ sector.maxPieceSize := by
    unfold Sector.maxPieceSize
    omega
  obtain ⟨hlen, hfi⟩ := getElem?_unsealed (show a + b ≤ sector.blocks by omega) hlo hheld
  rw [hru, unsealRanges_pieceRuns (by omega)]
  have hin' : r ∪ pieceRun (128 * a) (128 * b) ⊆ Finset.range sector.maxPieceSize :=
    @PartialFile.Op.apply_within _ _ (.markAllocated _ _) hend hr
  obtain ⟨pf', hpf', hm, hbs⟩ := reopened hrle (hlo.trans_eq hlen.symm) hin' hshort hfi
  exact ⟨rfl, pf', hpf', hm, hm.symm ▸ hbs⟩

def small : Calls where
  rle.encodeRuns r := (range 256).map fun i => if i ∈ r then 1 else 0
  rle.fromBuf bytes := some ((Finset.range 256).filter fun i => bytes[i]? = some 1)
  joinClose r := if h : r.Nonempty then pieceRuns (r.min' h) (r.max' h + 1 - r.min' h) else []
  joinClose_eq_nil r := by
    unfold pieceRuns
    split_ifs with h
    · simp [h.ne_empty]
    · simp [h.ne_empty]
    · simpa using h
  pad block := block ++ [0]
  length_pad block h := by simp [h]
  maxBuffer := 128

def twoBlocks (updated : Bool) : Sector :=
  ⟨2, replicate 127 1 ++ replicate 127 2, by rw [length_append, length_replicate, length_replicate], updated⟩

theorem small_decodes : small.rle.Decodes 256 := by
  intro r hr
  refine congrArg some (Finset.ext fun i => ?_)
  have hlt : i ∈ r → i < 256 := fun hi => Finset.mem_range.mp (hr hi)
  by_cases hi : i < 256
  · simp [small, hi]
  · simp [small, hi, mt hlt hi]

theorem small_opens : openPartialFile small.rle 256 (small.unsealedFile (twoBlocks true) none) =
    some ⟨256, ∅, small.unsealedFile (twoBlocks true) none⟩ :=
  PartialFile.open_writeTrailer small_decodes length_replicate.ge (Finset.empty_subset _) (by decide +kernel)

/-- The file has the first block, and gets the second. -/
theorem unseal_fills_second :
    let file := writeTrailer small.rle 256 ((small.sectorFile (twoBlocks false)).take 128 ++ replicate 128 0) (Finset.range 128)
    ∃ pf', openPartialFile small.rle 256 (small.unsealPiece (twoBlocks false) (some file) 127 127).2 = some pf' ∧
      pf'.allocated = filled (twoBlocks false) (Finset.range 128) 127 127 ∧
      ∀ i ∈ pf'.allocated, pf'.file[i]? = (small.sectorFile (twoBlocks false))[i]? := by
  intro file
  have hopen : openPartialFile small.rle 256 file = some ⟨256, Finset.range 128, file⟩ :=
    PartialFile.open_writeTrailer small_decodes (by decide +kernel) (Finset.range_mono (by decide)) (by decide +kernel)
  obtain ⟨-, pf', hpf', hm, hdata, -⟩ := unseal_fills small (twoBlocks false) small_decodes (some file) _ hopen
    (by decide +kernel) 127 127 (by decide) (by decide) (by decide +kernel) (.inr (.inr (by decide +kernel))) (by simp [small])
  exact ⟨pf', hpf', hm, hdata⟩

/-- **More than the range is allocated** after an update. Without one, the second half is written over the first. -/
theorem unseal_overwrites :
    (∃ pf', openPartialFile small.rle 256 (small.unsealPiece (twoBlocks true) none 127 127).2 = some pf' ∧
      0 ∈ pf'.allocated) ∧
    let pf : PartialFile := ⟨256, Finset.range 128, small.sectorFile (twoBlocks false)⟩
    let run := small.unsealRanges (twoBlocks false) 0 254 (small.computeUnsealRanges pf.allocated 0 254) 0 pf
    run.1 ≠ .ok () ∧ pf.file[0]? = some 1 ∧ run.2.file[0]? = some 2 := by
  refine ⟨?_, by decide +kernel⟩
  have hso : (small.computeUnsealRanges ∅ 127 127).isEmpty = false := by decide +kernel
  simp only [unsealPiece, show (twoBlocks true).maxPieceSize = 256 from rfl, small_opens, hso]
  have hlo := (@length_sectorFile small (twoBlocks true)).ge
  exact ⟨_, PartialFile.open_writeTrailer small_decodes hlo (by simp [Op.apply, pieceRun])
    (by simp [small]), by simp [Op.apply, pieceRun]⟩

end Calls
end Lotus.Sealer
