/-
# Sets of numbers and their runs.

A bit field is a finite set of numbers. Its encoding is the list of maximal runs of equal bits, up to the highest member.
-/
import Mathlib.Data.Finset.Sort
import Mathlib.Order.Lattice.Nat

namespace Lotus.Lib

abbrev BitField := Finset Nat

namespace BitField

structure Run where
  val : Bool
  len : Nat
  deriving DecidableEq

def bits (bf : BitField) : List Bool := (List.range (bf.sup Nat.succ)).map fun n => decide (n ∈ bf)

def encode : List Bool → List Run
  | [] => []
  | b :: bs =>
    match encode bs with
    | [] => [⟨b, 1⟩]
    | r :: rs => if r.val = b then ⟨b, r.len + 1⟩ :: rs else ⟨b, 1⟩ :: r :: rs

def runs (bf : BitField) : List Run := encode bf.bits

/-- The length of the runs of ones before the first run of zeros. -/
def firstZero : List Run → Nat
  | [] => 0
  | r :: rs => if r.val = false then 0 else r.len + firstZero rs

theorem firstZero_encode_cons (b : Bool) (bs : List Bool) :
    firstZero (encode (b :: bs)) = if b then firstZero (encode bs) + 1 else 0 := by
  rw [encode]
  rcases hrest : encode bs with _ | ⟨r, rs⟩
  · cases b <;> rfl
  dsimp only
  -- the run in front is made longer, or a new one starts
  split_ifs with hv hb hb
  · rw [firstZero, firstZero, if_neg (by simp [hb]), if_neg (by simp [hv, hb])]
    dsimp only
    omega
  · rw [firstZero, if_pos (by simpa using hb)]
  · rw [firstZero, if_neg (by simp [hb]), add_comm]
  · rw [firstZero, if_pos (by simpa using hb)]

theorem firstZero_encode (bs : List Bool) :
    bs[firstZero (encode bs)]? ≠ some true ∧ ∀ n < firstZero (encode bs), bs[n]? = some true := by
  induction bs with
  | nil => exact ⟨by simp, fun n hn => absurd hn (Nat.not_lt_zero n)⟩
  | cons b bs ih =>
    rw [firstZero_encode_cons]
    rcases b with _ | _
    · simp
    refine ⟨by simpa using ih.1, fun n hn => ?_⟩
    rcases n with _ | n
    · rfl
    exact ih.2 n (by simpa using hn)

theorem getElem?_bits {bf : BitField} {n : Nat} : bf.bits[n]? = some true ↔ n ∈ bf := by
  rw [bits, List.getElem?_map]
  by_cases hlt : n < bf.sup Nat.succ
  · simp [List.getElem?_range hlt]
  have hn : n ∉ bf := fun hmem => hlt (Finset.le_sup (f := Nat.succ) hmem)
  rw [List.getElem?_eq_none (by simpa using hlt)]
  simp [hn]

theorem firstZero_runs (bf : BitField) : firstZero bf.runs ∉ bf ∧ ∀ n < firstZero bf.runs, n ∈ bf := by
  obtain ⟨hno, ha⟩ := firstZero_encode bf.bits
  refine ⟨fun hmem => hno (getElem?_bits.mpr hmem), fun n hn => ?_⟩
  exact getElem?_bits.mp (ha n hn)

def slice (bf : BitField) (count : Nat) : BitField := ((bf.sort (· ≤ ·)).take count).toFinset

end BitField
end Lotus.Lib
