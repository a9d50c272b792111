/-
# Heads and byte strings of CBOR.

An item begins with a head: three bits of major type and an argument, in the head's own byte if it is small, else behind it.
How a large argument is coded is left open; what is written is read, and reading takes something from the input. Readers
return what is left, and tell the end of the input at an item from that within one.
-/
import Mathlib.Tactic.Ring

namespace Lotus.Lib.Cbor
open List

inductive Error where
  | eof
  | unexpectedEOF
  | malformed
deriving DecidableEq

abbrev Reader (α : Type) := List (Fin 256) → Except Error (α × List (Fin 256))

def byte (n : Nat) : Fin 256 := ⟨n % 256, Nat.mod_lt n (by omega)⟩

/-- A coding of heads, whatever it does with a large argument. -/
class Heads where
  head : (major n : Nat) → List (Fin 256)
  readHead : Reader (Nat × Nat)
  head_small : ∀ {major n}, n < 24 → head major n = [byte (major * 32 + n)]
  readHead_head : ∀ {major n}, major < 8 → n < 2 ^ 64 → ∀ rest, readHead (head major n ++ rest) = .ok ((major, n), rest)
  readHead_lt : ∀ {input r rest}, readHead input = .ok (r, rest) → rest.length < input.length

export Heads (head readHead head_small readHead_head readHead_lt)

/-! ## Reading a number of bytes -/

def readFull (n : Nat) : Reader (List (Fin 256)) := fun input =>
  if n ≤ input.length then .ok (input.take n, input.drop n)
  else if input = [] then .error .eof
  else .error .unexpectedEOF

variable {n max : Nat} {bs input rest : List (Fin 256)}

theorem readFull_append (h : bs.length = n) (rest : List (Fin 256)) : readFull n (bs ++ rest) = .ok (bs, rest) := by
  rw [readFull, if_pos (by rw [length_append]; omega), take_left' h, drop_left' h]

theorem readFull_le (h : readFull n input = .ok (bs, rest)) : rest.length ≤ input.length := by
  unfold readFull at h
  split_ifs at h
  cases h
  rw [length_drop]
  omega

/-! ## Byte strings -/

variable [Heads]

def byteString (bs : List (Fin 256)) : List (Fin 256) := head 2 bs.length ++ bs

def readByteString (max : Nat) : Reader (List (Fin 256)) := fun input =>
  match readHead input with
  | .error err => .error err
  | .ok ((major, n), rest) => if major ≠ 2 ∨ max < n then .error .malformed else readFull n rest

theorem readByteString_byteString (hm : bs.length ≤ max) (hlt : max < 2 ^ 64) (rest : List (Fin 256)) :
    readByteString max (byteString bs ++ rest) = .ok (bs, rest) := by
  rw [readByteString, byteString, append_assoc, readHead_head (by omega) (by omega)]
  show (if 2 ≠ 2 ∨ max < bs.length then _ else readFull bs.length (bs ++ rest)) = _
  rw [if_neg (by omega), readFull_append rfl]

theorem readByteString_lt (h : readByteString max input = .ok (bs, rest)) : rest.length < input.length := by
  unfold readByteString at h
  split at h
  · cases h
  case h_2 hhead =>
    split_ifs at h
    have hle := readFull_le h
    have hlt := readHead_lt hhead
    omega

end Lotus.Lib.Cbor
